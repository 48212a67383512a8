import Mathlib.Logic.Relation
import RgbLightningNode.Handles.Addon

/-!
# What a step does to the registry

Every step of an environment is a sequence of a few effects on wrappers of that environment. Each
effect keeps the registry sound.
-/

namespace RgbLightningNode.Handles

variable {w : ℕ}

/-- The native object an event is about. -/
def Event.object : Event w → Option ℕ
  | .registered o _ | .handed _ _ o | .called o | .nodeStopped o _ | .signerStopped o _
  | .freed _ o => o
  | .threw _ _ => none

/-- The identity a registration uses up. -/
def Event.identity : Event w → Option (BitVec w)
  | .registered _ id => some id
  | _ => none

/-- There is an object and it has not been freed. -/
def Live (before : List (Event w)) (o : Option ℕ) : Prop :=
  o ≠ none ∧ ∀ kind, .freed kind o ∉ before

/-- What has to have happened, and what must not have, before an event. -/
def Event.Permitted (before : List (Event w)) : Event w → Prop
  | .registered o _ | .called o | .nodeStopped o _ | .signerStopped o _ => Live before o
  | .handed _ _ o => Live before o ∧ ∃ id, .registered o id ∈ before
  | .freed kind o => Live before o ∧
      (kind = .node → (∃ id, .registered o id ∈ before) → .nodeStopped o true ∈ before)
  | .threw _ _ => True

/-- Every event of a log was permitted when it happened. -/
def Lawful (log : List (Event w)) : Prop :=
  ∀ later e before, log = later ++ e :: before → e.Permitted before

theorem lawful_cons {e : Event w} {log : List (Event w)} :
    Lawful (e :: log) ↔ e.Permitted log ∧ Lawful log := by
  constructor
  · intro h
    exact ⟨h [] e log rfl, fun later e' before hlog => h (e :: later) e' before (by simp [hlog])⟩
  · intro h later e' before hlog
    cases later with
    | nil =>
      cases hlog
      exact h.1
    | cons first later =>
      cases hlog
      exact h.2 later e' before rfl

namespace Addon

/-- The identity has been used up. -/
def Issued (s : Addon w) (id : BitVec w) : Prop :=
  id ≠ 0 ∧ (s.nextHandleId ≠ 0 → id < s.nextHandleId)

/-- The events about one object. -/
def history (s : Addon w) (o : ℕ) : List (Event w) := s.log.filter (·.object == some o)

theorem mem_history {s : Addon w} {o : ℕ} {e : Event w} :
    e ∈ s.history o ↔ e ∈ s.log ∧ e.object = some o := by
  rw [history, List.mem_filter, beq_iff_eq]

theorem history_record {s : Addon w} {o : ℕ} {e : Event w} (h : e.object ≠ some o) :
    (s.record e).history o = s.history o :=
  List.filter_cons_of_neg (by simpa using h)

/-- The object of the wrapper was not handed to JavaScript. -/
def Unhanded (s : Addon w) (wr : Wrapper w) : Prop :=
  ∀ env kind o, wr.object = some o → .handed env kind (some o) ∉ s.log

/-- The wrapper at `a`, of an environment and a kind. -/
structure Holds (s : Addon w) (env : ℕ) (kind : HandleKind) (a : ℕ) (wr : Wrapper w) : Prop where
  own : s.heap a = some wr
  env : wr.env = env
  kind : wr.kind = kind

/-- What holds of one wrapper. -/
structure WrapperSound (s : Addon w) (a : ℕ) (wr : Wrapper w) : Prop where
  live : wr.freed = true ↔ wr.object = none
  created : ∀ {o}, wr.object = some o → o < s.created
  unfreed : ∀ {o}, wr.object = some o → ∀ kind, .freed kind (some o) ∉ s.log
  stopped : ∀ {o}, wr.object = some o →
    (wr.shutdownAttempted = true ↔ .nodeStopped (some o) true ∈ s.log)
  issued : a ∈ s.handles → s.Issued wr.id
  registered : ∀ {o}, a ∈ s.handles → wr.object = some o → .registered (some o) wr.id ∈ s.log

/-- The object is in a registered wrapper of the environment it was handed to. -/
def Retains (s : Addon w) (env : ℕ) (kind : HandleKind) (o : ℕ) : Prop :=
  ∃ a wr, a ∈ s.handles ∧ s.Holds env kind a wr ∧ wr.object = some o

/-- The registry's invariant. -/
structure Sound (s : Addon w) : Prop where
  wrapper : ∀ {a wr}, s.heap a = some wr → s.WrapperSound a wr
  nodup : s.handles.Nodup
  live : ∀ {a}, a ∈ s.handles → ∃ wr, s.heap a = some wr
  distinct : ∀ {a b wr wr'}, a ∈ s.handles → b ∈ s.handles → s.heap a = some wr →
    s.heap b = some wr' → wr.id = wr'.id → a = b
  objects : ∀ {a b wr wr' o}, s.heap a = some wr → s.heap b = some wr' → wr.object = some o →
    wr'.object = some o → a = b
  events : ∀ {e o}, e ∈ s.log → e.object = some o → o < s.created
  identities : (s.log.filterMap Event.identity).Nodup
  issued : ∀ {id}, id ∈ s.log.filterMap Event.identity → s.Issued id
  lawful : Lawful s.log
  retained : ∀ {env kind o}, .handed env kind (some o) ∈ s.log →
    .freed kind (some o) ∈ s.log ∨ s.Retains env kind o
  callbacks : ∀ {cb}, cb ∈ s.callbacks → s.Issued cb.id ∧ ∀ {a wr}, a ∈ s.handles →
    s.heap a = some wr → wr.id = cb.id → wr.env = cb.env

end Addon

/-- The changes an environment makes to the shared memory. -/
inductive Effect (env : ℕ) (s : Addon w) : Addon w → Prop where
  | allocate {a} (kind : HandleKind) (free : s.heap a = none) :
      Effect env s ({ s with created := s.created + 1 }.write a
        ⟨env, kind, 0, some s.created, false, false, false⟩)
  | lose (kind : HandleKind) :
      Effect env s ({ s with created := s.created + 1 }.record (.freed kind (some s.created)))
  | register {a wr} (own : s.heap a = some wr) (henv : wr.env = env) (live : wr.freed = false)
      (new : a ∉ s.handles) (next : s.nextHandleId ≠ 0) : Effect env s (s.register a wr)
  | flag {a wr} (own : s.heap a = some wr) (henv : wr.env = env) (value : Bool)
      (callbacks : List (Callback w)) (hcallbacks : ∀ cb ∈ callbacks, cb ∈ s.callbacks ∨
        a ∈ s.handles ∧ cb.id = wr.id ∧ cb.env = env) :
      Effect env s { s.write a { wr with teardownRegistered := value } with callbacks }
  | callbacks (callbacks : List (Callback w)) (hcallbacks : ∀ cb ∈ callbacks, cb ∈ s.callbacks) :
      Effect env s { s with callbacks }
  | hand {a wr} (own : s.heap a = some wr) (henv : wr.env = env) (live : wr.freed = false)
      (registered : a ∈ s.handles) : Effect env s (s.record (.handed wr.env wr.kind wr.object))
  | unregister {a wr} (own : s.heap a = some wr) (henv : wr.env = env)
      (done : wr.freed = true ∨ s.Unhanded wr) : Effect env s (s.unregisterHandle a)
  | stop {a wr} (own : s.heap a = some wr) (henv : wr.env = env) (live : wr.freed = false) :
      Effect env s ((s.write a { wr with shutdownAttempted := true }).record
        (.nodeStopped wr.object true))
  | fail {a wr} (own : s.heap a = some wr) (henv : wr.env = env) (live : wr.freed = false) :
      Effect env s (s.record (.nodeStopped wr.object false))
  | free {a wr} (own : s.heap a = some wr) (henv : wr.env = env) (live : wr.freed = false)
      (stopped : wr.kind = .node → wr.shutdownAttempted = true) : Effect env s (s.freeObject a wr)
  | release {a wr} (own : s.heap a = some wr) (henv : wr.env = env) (gone : a ∉ s.handles)
      (done : wr.freed = true ∨ s.Unhanded wr) : Effect env s (s.release a)
  | discard {a wr} (own : s.heap a = some wr) (henv : wr.env = env) (live : wr.freed = false)
      (kind : wr.kind = .signer) (gone : a ∉ s.handles) (unhanded : s.Unhanded wr) :
      Effect env s ((s.release a).record (.freed .signer wr.object))
  | call {a wr} (own : s.heap a = some wr) (henv : wr.env = env) (live : wr.freed = false) :
      Effect env s (s.record (.called wr.object))
  | revoke {a wr} (own : s.heap a = some wr) (henv : wr.env = env) (live : wr.freed = false)
      (ok : Bool) : Effect env s (s.record (.signerStopped wr.object ok))
  | throw (code : Option String) (message : String) : Effect env s (s.record (.threw code message))

variable {s s' : Addon w} {env a b : ℕ} {wr wr' : Wrapper w} {e : Event w}

namespace Addon

/-- A wrapper stays sound while nothing happens to its object. -/
theorem WrapperSound.of_agree (h : s.WrapperSound a wr) (hcreated : s.created ≤ s'.created)
    (hlog : ∀ {o e}, wr.object = some o → e.object = some o → (e ∈ s'.log ↔ e ∈ s.log))
    (hmem : a ∈ s'.handles → a ∈ s.handles) (hissued : s.Issued wr.id → s'.Issued wr.id) :
    s'.WrapperSound a wr where
  live := h.live
  created ho := (h.created ho).trans_le hcreated
  unfreed ho kind := by
    rw [hlog ho rfl]
    exact h.unfreed ho kind
  stopped ho := by
    rw [hlog ho rfl]
    exact h.stopped ho
  issued ha := hissued (h.issued (hmem ha))
  registered ha ho := by
    rw [hlog ho rfl]
    exact h.registered (hmem ha) ho

/-- What was handed out stays retained while the registry does not change. -/
theorem Sound.retained_of_same (hs : s.Sound) {kind : HandleKind} {o : ℕ}
    (h : .handed env kind (some o) ∈ s.log) (hheap : s'.heap = s.heap)
    (hhandles : s'.handles = s.handles)
    (hlog : .freed kind (some o) ∈ s.log → .freed kind (some o) ∈ s'.log) :
    .freed kind (some o) ∈ s'.log ∨ s'.Retains env kind o := by
  rcases hs.retained h with hfreed | ⟨a, wr, ha, ⟨hwr, henv, hkind⟩, ho⟩
  · exact .inl (hlog hfreed)
  · exact .inr ⟨a, wr, hhandles ▸ ha, ⟨hheap ▸ hwr, henv, hkind⟩, ho⟩

/-- An unfreed wrapper has its object. -/
theorem WrapperSound.object (h : s.WrapperSound a wr) (hlive : wr.freed = false) :
    ∃ o, wr.object = some o := by
  rw [← Option.ne_none_iff_exists', ne_eq, ← h.live, hlive]
  exact Bool.false_ne_true

/-- The states differ in one wrapper, which keeps its identity and at most loses its object. -/
structure Updates (s s' : Addon w) (a : ℕ) (wr wr' : Wrapper w) : Prop where
  own : s.heap a = some wr
  heap : s'.heap = Function.update s.heap a (some wr')
  handles : s'.handles = s.handles
  next : s'.nextHandleId = s.nextHandleId
  created : s'.created = s.created
  id : wr'.id = wr.id
  env : wr'.env = wr.env
  kind : wr'.kind = wr.kind
  object : ∀ {o}, wr'.object = some o → wr.object = some o

theorem Updates.cases (h : Updates s s' a wr wr') {wr'' : Wrapper w}
    (hb : s'.heap b = some wr'') : b = a ∧ wr'' = wr' ∨ b ≠ a ∧ s.heap b = some wr'' := by
  rw [h.heap] at hb
  by_cases hba : b = a
  · subst hba
    rw [Function.update_self] at hb
    exact .inl ⟨rfl, (Option.some.inj hb).symm⟩
  · rw [Function.update_of_ne hba] at hb
    exact .inr ⟨hba, hb⟩

theorem Updates.before (h : Updates s s' a wr wr') {wr'' : Wrapper w}
    (hb : s'.heap b = some wr'') : ∃ old, s.heap b = some old ∧ wr''.id = old.id ∧
      wr''.env = old.env ∧ ∀ {o}, wr''.object = some o → old.object = some o := by
  rcases h.cases hb with ⟨rfl, rfl⟩ | ⟨_, hb⟩
  · exact ⟨wr, h.own, h.id, h.env, h.object⟩
  · exact ⟨wr'', hb, rfl, rfl, fun ho => ho⟩

theorem Updates.issued (h : Updates s s' a wr wr') {id : BitVec w} :
    s'.Issued id ↔ s.Issued id := by
  rw [Issued, Issued, h.next]

theorem Updates.retains (h : Updates s s' a wr wr') (hobject : wr'.object = wr.object)
    {kind : HandleKind} {o : ℕ} (hr : s.Retains env kind o) : s'.Retains env kind o := by
  obtain ⟨b, old, hmem, ⟨hb, henv, hkind⟩, ho⟩ := hr
  by_cases hba : b = a
  · subst hba
    obtain rfl : old = wr := Option.some.inj (hb.symm.trans h.own)
    refine ⟨b, wr', h.handles ▸ hmem, ⟨?_, h.env.trans henv, h.kind.trans hkind⟩, hobject.trans ho⟩
    rw [h.heap, Function.update_self]
  · refine ⟨b, old, h.handles ▸ hmem, ⟨?_, henv, hkind⟩, ho⟩
    rw [h.heap, Function.update_of_ne hba, hb]

/-- The parts of the invariant that only the registry matters for. -/
theorem Updates.sound (h : Updates s s' a wr wr') (hs : s.Sound) (hwr : s'.WrapperSound a wr')
    (hothers : ∀ {b old o e}, b ≠ a → s.heap b = some old → old.object = some o →
      e.object = some o → (e ∈ s'.log ↔ e ∈ s.log))
    (hevents : ∀ {e o}, e ∈ s'.log → e.object = some o → o < s.created)
    (hidentities : s'.log.filterMap Event.identity = s.log.filterMap Event.identity)
    (hlawful : Lawful s'.log)
    (hretained : ∀ {env kind o}, .handed env kind (some o) ∈ s'.log →
      .freed kind (some o) ∈ s'.log ∨ s'.Retains env kind o)
    (hcallbacks : ∀ {cb}, cb ∈ s'.callbacks → cb ∈ s.callbacks ∨
      a ∈ s.handles ∧ cb.id = wr.id ∧ cb.env = wr.env) : s'.Sound where
  wrapper {b old} hb := by
    rcases h.cases hb with ⟨rfl, rfl⟩ | ⟨hba, hb⟩
    · exact hwr
    · have hold := hs.wrapper hb
      exact hold.of_agree h.created.ge (hothers hba hb) (fun hmem => h.handles ▸ hmem) h.issued.mpr
  nodup := h.handles ▸ hs.nodup
  live {b} hmem := by
    by_cases hba : b = a
    · exact ⟨wr', by rw [hba, h.heap, Function.update_self]⟩
    · obtain ⟨old, hb⟩ := hs.live (h.handles ▸ hmem)
      exact ⟨old, by rw [h.heap, Function.update_of_ne hba, hb]⟩
  distinct {b c _ _} hb hc hwb hwc hid := by
    obtain ⟨old, hold, hidb, _⟩ := h.before hwb
    obtain ⟨old', hold', hidc, _⟩ := h.before hwc
    exact hs.distinct (h.handles ▸ hb) (h.handles ▸ hc) hold hold' (hidb ▸ hidc ▸ hid)
  objects {b c _ _ o} hwb hwc ho ho' := by
    obtain ⟨old, hold, _, _, hob⟩ := h.before hwb
    obtain ⟨old', hold', _, _, hoc⟩ := h.before hwc
    exact hs.objects hold hold' (hob ho) (hoc ho')
  events he ho := h.created ▸ hevents he ho
  identities := hidentities ▸ hs.identities
  issued hid := by
    rw [h.issued]
    exact hs.issued (hidentities ▸ hid)
  lawful := hlawful
  retained := hretained
  callbacks {cb} hcb := by
    rw [h.issued]
    rcases hcallbacks hcb with hcb | ⟨hmem, hid, henv⟩
    · obtain ⟨hissued, howner⟩ := hs.callbacks hcb
      refine ⟨hissued, fun hb hwb hid => ?_⟩
      obtain ⟨old, hold, hidb, henvb, _⟩ := h.before hwb
      exact henvb.trans (howner (h.handles ▸ hb) hold (hidb.symm.trans hid))
    · refine ⟨hid ▸ (hs.wrapper h.own).issued hmem, fun {b wb} hb hwb hidb' => ?_⟩
      obtain ⟨old, hold, hidb, henvb, _⟩ := h.before hwb
      obtain rfl : b = a := hs.distinct (h.handles ▸ hb) hmem hold h.own
        (hidb.symm.trans (hidb'.trans hid))
      obtain rfl : old = wr := Option.some.inj (hold.symm.trans h.own)
      exact henvb.trans henv.symm

/-- A wrapper changes together with an event about its object. -/
theorem Updates.sound_record (h : Updates s s' a wr wr') (hs : s.Sound)
    (hlog : s'.log = e :: s.log) (hcallbacks : s'.callbacks = s.callbacks)
    (hobject : e.object = wr.object) (hidentity : e.identity = none)
    (hpermitted : e.Permitted s.log) (hhanded : ∀ env kind o, e ≠ .handed env kind (some o))
    (hkept : wr'.object = wr.object ∨ e = .freed wr.kind wr.object)
    (hwr : s'.WrapperSound a wr') : s'.Sound := by
  refine h.sound hs hwr ?_ ?_ ?_ ?_ ?_ fun h => .inl (hcallbacks ▸ h)
  · intro b old o e' hba hb ho he'
    rw [hlog, List.mem_cons, or_iff_right]
    rintro rfl
    exact hba (hs.objects hb h.own ho (hobject ▸ he'))
  · intro e' o he' ho
    rw [hlog] at he'
    rcases List.mem_cons.mp he' with rfl | he'
    · exact (hs.wrapper h.own).created (hobject ▸ ho)
    · exact hs.events he' ho
  · rw [hlog, List.filterMap_cons_none hidentity]
  · rw [hlog, lawful_cons]
    exact ⟨hpermitted, hs.lawful⟩
  · intro env kind o hmem
    rw [hlog] at hmem ⊢
    rcases List.mem_cons.mp hmem with hmem | hmem
    · exact absurd hmem.symm (hhanded env kind o)
    rcases hs.retained hmem with hfreed | hr
    · exact .inl (List.mem_cons_of_mem _ hfreed)
    rcases hkept with hkept | hkept
    · exact .inr (h.retains hkept hr)
    · obtain ⟨b, old, hb, ⟨hold, henv, hkind⟩, ho⟩ := hr
      by_cases hba : b = a
      · subst hba
        obtain rfl : old = wr := Option.some.inj (hold.symm.trans h.own)
        rw [hkept, hkind, ho]
        exact .inl List.mem_cons_self
      · refine .inr ⟨b, old, h.handles ▸ hb, ⟨?_, henv, hkind⟩, ho⟩
        rw [h.heap, Function.update_of_ne hba, hold]

theorem updates_self (h : s.heap a = some wr) : Updates s s a wr wr :=
  ⟨h, by rw [← h, Function.update_eq_self], rfl, rfl, rfl, rfl, rfl, rfl, fun h => h⟩

/-- An event about a live object that leaves the registry as it is. -/
theorem Sound.record_object (hs : s.Sound) (own : s.heap a = some wr)
    (hobject : e.object = wr.object) (hidentity : e.identity = none)
    (hpermitted : e.Permitted s.log) (hhanded : ∀ env kind o, e ≠ .handed env kind (some o))
    (hfreed : ∀ kind o, e ≠ .freed kind o) (hstopped : ∀ o, e ≠ .nodeStopped o true) :
    (s.record e).Sound := by
  have hu : Updates s (s.record e) a wr wr := { updates_self own with }
  refine hu.sound_record hs rfl rfl hobject hidentity hpermitted hhanded (.inl rfl) ?_
  have hwr := hs.wrapper own
  refine ⟨hwr.live, hwr.created, fun ho kind => ?_, fun ho => ?_, hwr.issued,
    fun hmem ho => List.mem_cons_of_mem _ (hwr.registered hmem ho)⟩
  · rw [record, List.mem_cons, not_or]
    exact ⟨(hfreed kind _).symm, hwr.unfreed ho kind⟩
  · rw [record, List.mem_cons, or_iff_right (hstopped _).symm]
    exact hwr.stopped ho

/-- A native function may receive the object of an unfreed wrapper. -/
theorem WrapperSound.receivable (h : s.WrapperSound a wr) (live : wr.freed = false) :
    Live s.log wr.object := by
  obtain ⟨o, ho⟩ := h.object live
  rw [ho]
  exact ⟨Option.some_ne_none o, h.unfreed ho⟩

theorem Sound.stop (hs : s.Sound) (own : s.heap a = some wr) (live : wr.freed = false) :
    ((s.write a { wr with shutdownAttempted := true }).record
      (.nodeStopped wr.object true)).Sound := by
  have hwr := hs.wrapper own
  have hu : Updates s ((s.write a { wr with shutdownAttempted := true }).record
      (.nodeStopped wr.object true)) a wr { wr with shutdownAttempted := true } :=
    ⟨own, rfl, rfl, rfl, rfl, rfl, rfl, rfl, fun h => h⟩
  refine hu.sound_record hs rfl rfl rfl rfl (hwr.receivable live) nofun (.inl rfl) ?_
  refine ⟨hwr.live, hwr.created, fun ho kind => ?_, fun ho => ?_, hwr.issued,
    fun hmem ho => List.mem_cons_of_mem _ (hwr.registered hmem ho)⟩
  · rw [record, List.mem_cons, not_or]
    exact ⟨nofun, hwr.unfreed ho kind⟩
  · rw [show wr.object = some _ from ho]
    exact iff_of_true rfl List.mem_cons_self

theorem Sound.free (hs : s.Sound) (own : s.heap a = some wr) (live : wr.freed = false)
    (stopped : wr.kind = .node → wr.shutdownAttempted = true) : (s.freeObject a wr).Sound := by
  have hwr := hs.wrapper own
  have hu : Updates s (s.freeObject a wr) a wr { wr with object := none, freed := true } :=
    ⟨own, rfl, rfl, rfl, rfl, rfl, rfl, rfl, nofun⟩
  refine hu.sound_record hs rfl rfl rfl rfl ?_ nofun (.inr rfl) ?_
  · refine ⟨hwr.receivable live, fun hkind _ => ?_⟩
    obtain ⟨o, ho⟩ := hwr.object live
    rw [ho]
    exact (hwr.stopped ho).mp (stopped hkind)
  · exact ⟨by simp, nofun, nofun, nofun, hwr.issued, nofun⟩

/-- A flag or the list of callbacks changes. -/
theorem Updates.sound_flag (h : Updates s s' a wr wr') (hs : s.Sound) (hlog : s'.log = s.log)
    (hfreed : wr'.freed = wr.freed) (hobject : wr'.object = wr.object)
    (hstopped : wr'.shutdownAttempted = wr.shutdownAttempted)
    (hcallbacks : ∀ {cb}, cb ∈ s'.callbacks → cb ∈ s.callbacks ∨
      a ∈ s.handles ∧ cb.id = wr.id ∧ cb.env = wr.env) : s'.Sound := by
  have hwr := hs.wrapper h.own
  refine h.sound hs ?_ (fun _ _ _ _ => by rw [hlog]) ?_ (by rw [hlog]) (hlog ▸ hs.lawful) ?_
    hcallbacks
  · refine ⟨by rw [hfreed, hobject]; exact hwr.live, ?_, ?_, ?_, ?_, ?_⟩
    · intro o ho
      exact h.created ▸ hwr.created (hobject ▸ ho)
    · intro o ho kind
      rw [hlog]
      exact hwr.unfreed (hobject ▸ ho) kind
    · intro o ho
      rw [hlog, hstopped]
      exact hwr.stopped (hobject ▸ ho)
    · intro hmem
      rw [h.issued, h.id]
      exact hwr.issued (h.handles ▸ hmem)
    · intro o hmem ho
      rw [hlog, h.id]
      exact hwr.registered (h.handles ▸ hmem) (hobject ▸ ho)
  · intro e o he ho
    exact hs.events (hlog ▸ he) ho
  · intro env kind o hmem
    rw [hlog] at hmem ⊢
    exact (hs.retained hmem).imp_right (h.retains hobject)

/-- Callbacks are only removed. -/
theorem Sound.callbacks_subset (hs : s.Sound) {callbacks : List (Callback w)}
    (h : ∀ cb ∈ callbacks, cb ∈ s.callbacks) : Addon.Sound { s with callbacks } where
  wrapper h := (hs.wrapper h).of_agree le_rfl (fun _ _ => Iff.rfl) id id
  nodup := hs.nodup
  live := hs.live
  distinct := hs.distinct
  objects := hs.objects
  events := hs.events
  identities := hs.identities
  issued := hs.issued
  lawful := hs.lawful
  retained h := hs.retained_of_same h rfl rfl fun h => h
  callbacks hcb := hs.callbacks (h _ hcb)

/-- An event about no object. -/
theorem Sound.record_silent (hs : s.Sound) (hobject : e.object = none)
    (hidentity : e.identity = none) (hpermitted : e.Permitted s.log) : (s.record e).Sound := by
  have hmem {e' : Event w} {o : ℕ} (he' : e'.object = some o) :
      e' ∈ (s.record e).log ↔ e' ∈ s.log := by
    rw [record, List.mem_cons, or_iff_right]
    rintro rfl
    cases hobject.symm.trans he'
  have hids : (s.record e).log.filterMap Event.identity = s.log.filterMap Event.identity :=
    List.filterMap_cons_none hidentity
  exact {
    wrapper := fun h => (hs.wrapper h).of_agree le_rfl (fun _ => hmem) id id
    nodup := hs.nodup
    live := hs.live
    distinct := hs.distinct
    objects := hs.objects
    events := fun he ho => hs.events ((hmem ho).mp he) ho
    identities := hids ▸ hs.identities
    issued := fun h => hs.issued (hids ▸ h)
    lawful := lawful_cons.mpr ⟨hpermitted, hs.lawful⟩
    retained := fun h => hs.retained_of_same ((hmem rfl).mp h) rfl rfl (hmem rfl).mpr
    callbacks := hs.callbacks }

theorem Sound.hand (hs : s.Sound) (own : s.heap a = some wr) (live : wr.freed = false)
    (registered : a ∈ s.handles) : (s.record (.handed wr.env wr.kind wr.object)).Sound := by
  have hwr := hs.wrapper own
  have hu : Updates s (s.record (.handed wr.env wr.kind wr.object)) a wr wr :=
    { updates_self own with }
  have hregistered : ∃ id, .registered wr.object id ∈ s.log := by
    obtain ⟨o, ho⟩ := hwr.object live
    rw [ho]
    exact ⟨wr.id, hwr.registered registered ho⟩
  have hpermitted : (Event.handed wr.env wr.kind wr.object).Permitted s.log :=
    ⟨hwr.receivable live, hregistered⟩
  refine hu.sound hs ?_ ?_ ?_ rfl (lawful_cons.mpr ⟨hpermitted, hs.lawful⟩) ?_ .inl
  · refine ⟨hwr.live, hwr.created, fun ho kind => ?_, fun ho => ?_, hwr.issued,
      fun hmem ho => List.mem_cons_of_mem _ (hwr.registered hmem ho)⟩
    · rw [record, List.mem_cons, or_iff_right nofun]
      exact hwr.unfreed ho kind
    · rw [record, List.mem_cons, or_iff_right nofun]
      exact hwr.stopped ho
  · intro b old o e hba hb ho he
    rw [record, List.mem_cons, or_iff_right]
    rintro rfl
    exact hba (hs.objects hb own ho he)
  · intro e o he ho
    rcases List.mem_cons.mp he with rfl | he
    · exact hwr.created ho
    · exact hs.events he ho
  · intro env kind o he
    rcases List.mem_cons.mp he with he | he
    · obtain ⟨rfl, rfl, ho⟩ := Event.handed.inj he
      exact .inr ⟨a, wr, registered, ⟨own, rfl, rfl⟩, ho.symm⟩
    · exact hs.retained_of_same he rfl rfl (List.mem_cons_of_mem _)

theorem heap_write {a b : ℕ} {wr wr' : Wrapper w} (h : (s.write a wr).heap b = some wr') :
    b = a ∧ wr' = wr ∨ b ≠ a ∧ s.heap b = some wr' := by
  by_cases hba : b = a
  · subst hba
    rw [write_heap_self] at h
    exact .inl ⟨rfl, (Option.some.inj h).symm⟩
  · rw [write_heap_of_ne _ _ hba] at h
    exact .inr ⟨hba, h⟩

theorem heap_release {a b : ℕ} (h : (s.release a).heap b = some wr) :
    b ≠ a ∧ s.heap b = some wr := by
  by_cases hba : b = a
  · subst hba
    simp at h
  · exact ⟨hba, by simpa [hba] using h⟩

/-- A new native object at a fresh address. -/
theorem Sound.allocate (hs : s.Sound) (free : s.heap a = none) (env : ℕ) (kind : HandleKind) :
    ({ s with created := s.created + 1 }.write a
      ⟨env, kind, 0, some s.created, false, false, false⟩).Sound := by
  have hnew {e : Event w} (he : e.object = some s.created) : e ∉ s.log :=
    fun h => (hs.events h he).false
  have hnot : a ∉ s.handles := by
    intro h
    obtain ⟨wr, hwr⟩ := hs.live h
    rw [free] at hwr
    cases hwr
  have hold {b wr} (hb : b ∈ s.handles) (h : ({ s with created := s.created + 1 }.write a
      ⟨env, kind, 0, some s.created, false, false, false⟩).heap b = some wr) :
      s.heap b = some wr := by
    rcases heap_write h with ⟨rfl, _⟩ | ⟨_, h⟩
    · exact absurd hb hnot
    · exact h
  refine ⟨?_, hs.nodup, ?_, ?_, ?_, ?_, hs.identities, hs.issued, hs.lawful, ?_, ?_⟩
  · intro b wr hb
    rcases heap_write hb with ⟨rfl, rfl⟩ | ⟨hba, hb⟩
    · refine ⟨by simp, ?_, ?_, ?_, fun h => absurd h hnot, fun h => absurd h hnot⟩
      · rintro o ⟨⟩
        exact Nat.lt_succ_self _
      · rintro o ⟨⟩ kind
        exact hnew rfl
      · rintro o ⟨⟩
        exact iff_of_false nofun (hnew rfl)
    · have hwr := hs.wrapper hb
      exact hwr.of_agree (Nat.le_succ _) (fun _ _ => Iff.rfl) id id
  · intro b hb
    obtain ⟨wr, hwr⟩ := hs.live hb
    have hba : b ≠ a := fun h => hnot (h ▸ hb)
    exact ⟨wr, by simpa [hba] using hwr⟩
  · intro b c wb wc hb hc hwb hwc
    exact hs.distinct hb hc (hold hb hwb) (hold hc hwc)
  · intro b c wb wc o hwb hwc hob hoc
    rcases heap_write hwb with ⟨hba, rfl⟩ | ⟨hba, hb⟩
    · rcases heap_write hwc with ⟨hca, _⟩ | ⟨_, hc⟩
      · exact hba.trans hca.symm
      · cases hob
        exact absurd ((hs.wrapper hc).created hoc) (lt_irrefl _)
    · rcases heap_write hwc with ⟨_, rfl⟩ | ⟨_, hc⟩
      · cases hoc
        exact absurd ((hs.wrapper hb).created hob) (lt_irrefl _)
      · exact hs.objects hb hc hob hoc
  · intro e o he ho
    exact (hs.events he ho).trans (Nat.lt_succ_self _)
  · intro env' kind' o he
    refine (hs.retained he).imp_right ?_
    rintro ⟨b, wr, hb, ⟨hwr, henv, hkind⟩, ho⟩
    have hba : b ≠ a := fun h => hnot (h ▸ hb)
    exact ⟨b, wr, hb, ⟨by simpa [hba] using hwr, henv, hkind⟩, ho⟩
  · intro cb hcb
    obtain ⟨hissued, howner⟩ := hs.callbacks hcb
    exact ⟨hissued, fun hb hwb => howner hb (hold hb hwb)⟩

theorem Sound.grow (hs : s.Sound) : Addon.Sound { s with created := s.created + 1 } where
  wrapper h := (hs.wrapper h).of_agree (Nat.le_succ _) (fun _ _ => Iff.rfl) id id
  nodup := hs.nodup
  live := hs.live
  distinct := hs.distinct
  objects := hs.objects
  events he ho := (hs.events he ho).trans (Nat.lt_succ_self _)
  identities := hs.identities
  issued := hs.issued
  lawful := hs.lawful
  retained h := hs.retained_of_same h rfl rfl fun h => h
  callbacks := hs.callbacks

/-- The free of an object that is in no wrapper. -/
theorem Sound.record_freed (hs : s.Sound) {kind : HandleKind} {o : ℕ} (hcreated : o < s.created)
    (hnone : ∀ {b wr}, s.heap b = some wr → wr.object ≠ some o)
    (hpermitted : Event.Permitted s.log (.freed kind (some o))) :
    (s.record (.freed kind (some o))).Sound := by
  refine ⟨?_, hs.nodup, hs.live, hs.distinct, hs.objects, ?_, hs.identities, hs.issued,
    lawful_cons.mpr ⟨hpermitted, hs.lawful⟩, ?_, hs.callbacks⟩
  · intro b wr hb
    have hwr := hs.wrapper hb
    refine hwr.of_agree le_rfl (fun ho he => ?_) id id
    rw [record, List.mem_cons, or_iff_right]
    rintro rfl
    exact hnone hb (ho.trans he.symm)
  · intro e o' he ho
    rcases List.mem_cons.mp he with rfl | he
    · cases ho
      exact hcreated
    · exact hs.events he ho
  · intro env kind' o' he
    have he : .handed env kind' (some o') ∈ s.log := by simpa [record] using he
    exact hs.retained_of_same he rfl rfl (List.mem_cons_of_mem _)

/-- A new native object that is freed because no wrapper could be allocated. -/
theorem Sound.lose (hs : s.Sound) (kind : HandleKind) :
    ({ s with created := s.created + 1 }.record (.freed kind (some s.created))).Sound := by
  have hnew {e : Event w} (he : e.object = some s.created) : e ∉ s.log :=
    fun h => (hs.events h he).false
  refine hs.grow.record_freed (Nat.lt_succ_self _) (fun hb ho => ?_)
    ⟨⟨nofun, fun _ => hnew rfl⟩, ?_⟩
  · exact ((hs.wrapper hb).created ho).false
  · rintro _ ⟨id, h⟩
    exact absurd h (hnew rfl)

theorem lt_add_one {id : BitVec w} (h : id + 1 ≠ 0) : id < id + 1 := by
  apply BitVec.lt_add_one
  rintro rfl
  apply h
  rw [← BitVec.neg_one_eq_allOnes]
  exact BitVec.add_left_neg _

/-- The next identity is used up and every earlier one stays so. -/
theorem Issued.register {id : BitVec w} (h : s.Issued id) (next : s.nextHandleId ≠ 0) :
    (s.register a wr).Issued id :=
  ⟨h.1, fun h' => BitVec.lt_trans (h.2 next) (lt_add_one h')⟩

theorem issued_register (next : s.nextHandleId ≠ 0) :
    (s.register a wr).Issued s.nextHandleId :=
  ⟨next, lt_add_one⟩

/-- An identity that was used up is not issued next. -/
theorem Issued.ne_next {id : BitVec w} (h : s.Issued id) (next : s.nextHandleId ≠ 0) :
    id ≠ s.nextHandleId := by
  rintro rfl
  exact BitVec.lt_irrefl _ (h.2 next)

theorem heap_register {a b : ℕ} {wr wr' : Wrapper w} (h : (s.register a wr).heap b = some wr') :
    b = a ∧ wr' = { wr with id := s.nextHandleId } ∨ b ≠ a ∧ s.heap b = some wr' :=
  heap_write (s := s) h

theorem register_heap_of_ne {b : ℕ} (h : b ≠ a) : (s.register a wr).heap b = s.heap b :=
  Function.update_of_ne h _ _

theorem identities_register : (s.register a wr).log.filterMap Event.identity =
    s.nextHandleId :: s.log.filterMap Event.identity := rfl

/-- Other events of a log are not changed by a registration. -/
theorem mem_register {o : ℕ} (he : e.object = some o)
    (hr : ∀ id, e ≠ .registered (some o) id) : e ∈ (s.register a wr).log ↔ e ∈ s.log := by
  rw [Addon.register, List.mem_cons, or_iff_right]
  rintro rfl
  exact hr s.nextHandleId (congrArg (Event.registered · _) he)

theorem Sound.register (hs : s.Sound) (own : s.heap a = some wr) (live : wr.freed = false)
    (new : a ∉ s.handles) (next : s.nextHandleId ≠ 0) : (s.register a wr).Sound := by
  have hwr := hs.wrapper own
  have hmem {b} (hb : b ∈ (s.register a wr).handles) (hba : b ≠ a) : b ∈ s.handles :=
    (List.mem_cons.mp hb).resolve_left hba
  refine ⟨?_, List.nodup_cons.mpr ⟨new, hs.nodup⟩, ?_, ?_, ?_, ?_, ?_, ?_, ?_, ?_, ?_⟩
  · intro b wb hb
    rcases heap_register hb with ⟨rfl, rfl⟩ | ⟨hba, hb⟩
    · refine ⟨hwr.live, hwr.created, fun ho kind => ?_, fun ho => ?_,
        fun _ => issued_register next, fun _ ho => ?_⟩
      · rw [mem_register rfl fun id h => by cases h]
        exact hwr.unfreed ho kind
      · rw [mem_register rfl fun id h => by cases h]
        exact hwr.stopped ho
      · have ho : wr.object = some _ := ho
        rw [Addon.register, ho]
        exact List.mem_cons_self
    · have hwb := hs.wrapper hb
      refine hwb.of_agree le_rfl ?_ (hmem · hba) fun h => h.register next
      intro o e ho he
      rw [Addon.register, List.mem_cons, or_iff_right]
      rintro rfl
      exact hba (hs.objects hb own ho he)
  · intro b hb
    by_cases hba : b = a
    · exact ⟨{ wr with id := s.nextHandleId }, hba ▸ Function.update_self ..⟩
    · obtain ⟨wb, hwb⟩ := hs.live (hmem hb hba)
      exact ⟨wb, (register_heap_of_ne hba).trans hwb⟩
  · intro b c wb wc hb hc hwb hwc hid
    rcases heap_register hwb with ⟨hba, rfl⟩ | ⟨hba, hwb'⟩
    · rcases heap_register hwc with ⟨hca, _⟩ | ⟨hca, hwc'⟩
      · exact hba.trans hca.symm
      · exact absurd hid.symm (((hs.wrapper hwc').issued (hmem hc hca)).ne_next next)
    · rcases heap_register hwc with ⟨_, rfl⟩ | ⟨hca, hwc'⟩
      · exact absurd hid (((hs.wrapper hwb').issued (hmem hb hba)).ne_next next)
      · exact hs.distinct (hmem hb hba) (hmem hc hca) hwb' hwc' hid
  · intro b c wb wc o hwb hwc hob hoc
    rcases heap_register hwb with ⟨hba, rfl⟩ | ⟨_, hwb'⟩
    · rcases heap_register hwc with ⟨hca, _⟩ | ⟨_, hwc'⟩
      · exact hba.trans hca.symm
      · exact hba.trans (hs.objects own hwc' hob hoc)
    · rcases heap_register hwc with ⟨hca, rfl⟩ | ⟨_, hwc'⟩
      · exact (hs.objects hwb' own hob hoc).trans hca.symm
      · exact hs.objects hwb' hwc' hob hoc
  · intro e o he ho
    rcases List.mem_cons.mp he with rfl | he
    · exact hwr.created ho
    · exact hs.events he ho
  · rw [identities_register, List.nodup_cons]
    exact ⟨fun h => (hs.issued h).ne_next next rfl, hs.identities⟩
  · intro id hid
    rw [identities_register] at hid
    rcases List.mem_cons.mp hid with rfl | hid
    · exact issued_register next
    · exact (hs.issued hid).register next
  · exact lawful_cons.mpr ⟨hwr.receivable live, hs.lawful⟩
  · intro env kind o he
    rw [mem_register rfl fun id h => by cases h] at he
    rcases hs.retained he with hfreed | ⟨b, wb, hb, ⟨hwb, henv, hkind⟩, ho⟩
    · exact .inl (List.mem_cons_of_mem _ hfreed)
    · have hba : b ≠ a := fun h => new (h ▸ hb)
      have hb' : (s.register a wr).heap b = some wb := (register_heap_of_ne hba).trans hwb
      exact .inr ⟨b, wb, List.mem_cons_of_mem _ hb, ⟨hb', henv, hkind⟩, ho⟩
  · intro cb hcb
    obtain ⟨hissued, howner⟩ := hs.callbacks hcb
    refine ⟨hissued.register next, fun hb hwb hid => ?_⟩
    rcases heap_register hwb with ⟨hba, rfl⟩ | ⟨hba, hwb⟩
    · exact absurd hid.symm (hissued.ne_next next)
    · exact howner (hmem hb hba) hwb hid

/-- A wrapper that is done with retains no handed object. -/
theorem Sound.ne_of_done (hs : s.Sound) {kind : HandleKind} {o : ℕ}
    (hhanded : .handed env kind (some o) ∈ s.log) (hb : s.heap b = some wr')
    (ho : wr'.object = some o)
    (own : s.heap a = some wr) (done : wr.freed = true ∨ s.Unhanded wr) : b ≠ a := by
  rintro rfl
  obtain rfl : wr' = wr := Option.some.inj (hb.symm.trans own)
  rcases done with hfreed | hunhanded
  · rw [(hs.wrapper own).live.mp hfreed] at ho
    cases ho
  · exact hunhanded env kind o ho hhanded

theorem Sound.unregister (hs : s.Sound) (own : s.heap a = some wr)
    (done : wr.freed = true ∨ s.Unhanded wr) : (s.unregisterHandle a).Sound := by
  have hmem {b} (h : b ∈ s.handles.erase a) : b ∈ s.handles := List.mem_of_mem_erase h
  refine ⟨fun h => ?_, hs.nodup.erase a, fun h => hs.live (hmem h), ?_, hs.objects, hs.events,
    hs.identities, hs.issued, hs.lawful, fun he => ?_, fun hcb => ?_⟩
  · have hwr := hs.wrapper h
    exact hwr.of_agree le_rfl (fun _ _ => Iff.rfl) hmem id
  · intro b c wb wc hb hc
    exact hs.distinct (hmem hb) (hmem hc)
  · refine (hs.retained he).imp_right ?_
    rintro ⟨b, wb, hb, ⟨hwb, henv, hkind⟩, ho⟩
    have hba := hs.ne_of_done he hwb ho own done
    exact ⟨b, wb, (List.mem_erase_of_ne hba).mpr hb, ⟨hwb, henv, hkind⟩, ho⟩
  · obtain ⟨hissued, howner⟩ := hs.callbacks hcb
    exact ⟨hissued, fun hb => howner (hmem hb)⟩

theorem Sound.release (hs : s.Sound) (gone : a ∉ s.handles) : (s.release a).Sound := by
  have hkeep {b wb} (hb : b ∈ s.handles) (hwb : s.heap b = some wb) :
      (s.release a).heap b = some wb := by
    have hba : b ≠ a := fun h => gone (h ▸ hb)
    simpa [Addon.release, hba] using hwb
  refine ⟨fun h => ?_, hs.nodup, fun h => ?_, ?_, ?_, hs.events, hs.identities, hs.issued,
    hs.lawful, fun he => ?_, fun hcb => ?_⟩
  · have hwr := hs.wrapper (heap_release h).2
    exact hwr.of_agree le_rfl (fun _ _ => Iff.rfl) id id
  · obtain ⟨wb, hwb⟩ := hs.live h
    exact ⟨wb, hkeep h hwb⟩
  · intro b c wb wc hb hc hwb hwc
    exact hs.distinct hb hc (heap_release hwb).2 (heap_release hwc).2
  · intro b c wb wc o hwb hwc
    exact hs.objects (heap_release hwb).2 (heap_release hwc).2
  · refine (hs.retained he).imp_right ?_
    rintro ⟨b, wb, hb, ⟨hwb, henv, hkind⟩, ho⟩
    exact ⟨b, wb, hb, ⟨hkeep hb hwb, henv, hkind⟩, ho⟩
  · obtain ⟨hissued, howner⟩ := hs.callbacks hcb
    exact ⟨hissued, fun hb hwb => howner hb (heap_release hwb).2⟩

theorem Sound.discard (hs : s.Sound) (own : s.heap a = some wr) (live : wr.freed = false)
    (gone : a ∉ s.handles) :
    ((s.release a).record (.freed .signer wr.object)).Sound := by
  have hwr := hs.wrapper own
  obtain ⟨o, ho⟩ := hwr.object live
  rw [ho]
  refine (hs.release gone).record_freed (hwr.created ho) (fun hb ho' => ?_)
    ⟨⟨nofun, hwr.unfreed ho⟩, nofun⟩
  obtain ⟨hba, hb⟩ := heap_release hb
  exact hba (hs.objects hb own ho' ho)

end Addon

theorem Effect.sound (h : Effect env s s') (hs : s.Sound) : s'.Sound := by
  cases h with
  | allocate kind free => exact hs.allocate free env kind
  | lose kind => exact hs.lose kind
  | register own henv live new next => exact hs.register own live new next
  | @flag a wr own henv value callbacks hcallbacks =>
    have hu : s.Updates { s.write a { wr with teardownRegistered := value } with callbacks } a wr
        { wr with teardownRegistered := value } :=
          ⟨own, rfl, rfl, rfl, rfl, rfl, rfl, rfl, fun h => h⟩
    exact hu.sound_flag hs rfl rfl rfl rfl fun hcb => henv ▸ hcallbacks _ hcb
  | callbacks callbacks hcallbacks => exact hs.callbacks_subset hcallbacks
  | hand own henv live registered => exact hs.hand own live registered
  | unregister own henv done => exact hs.unregister own done
  | stop own henv live => exact hs.stop own live
  | fail own henv live =>
    refine hs.record_object own rfl rfl ((hs.wrapper own).receivable live) nofun nofun fun _ h => ?_
    cases h
  | free own henv live stopped => exact hs.free own live stopped
  | release own henv gone done => exact hs.release gone
  | discard own henv live kind gone unhanded => exact hs.discard own live gone
  | call own henv live =>
    exact hs.record_object own rfl rfl ((hs.wrapper own).receivable live) nofun nofun nofun
  | revoke own henv live ok =>
    exact hs.record_object own rfl rfl ((hs.wrapper own).receivable live) nofun nofun nofun
  | throw code message => exact hs.record_silent rfl rfl trivial

/-- Several effects of one environment. -/
abbrev Effects (env : ℕ) : Addon w → Addon w → Prop := Relation.ReflTransGen (Effect env)

theorem Effects.sound (h : Effects env s s') (hs : s.Sound) : s'.Sound := by
  induction h with
  | refl => exact hs
  | tail _ last ih => exact last.sound ih

theorem initial_sound : (initial w).shared.Sound where
  wrapper := nofun
  nodup := .nil
  live := nofun
  distinct := nofun
  objects := nofun
  events := nofun
  identities := .nil
  issued := nofun
  lawful later e before h := by simp [initial] at h
  retained := nofun
  callbacks := nofun

end RgbLightningNode.Handles
