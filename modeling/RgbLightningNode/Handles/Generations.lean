import RgbLightningNode.Handles.Ownership

/-!
# Releases over whole runs

The log of a reachable state says that every object is freed once and never used after it. A node
in JavaScript's hands stays registered until it is freed, and a callback whose generation is gone
finds nothing, whatever has been put at its address since.
-/

namespace RgbLightningNode.Handles
open Transition

variable {w : ℕ}

/-- The native object is passed to a free function. -/
def Event.frees (o : Option ℕ) : Event w → Bool
  | .freed _ o' => o' == o
  | _ => false

theorem Event.frees_iff {o : Option ℕ} {e : Event w} :
    e.frees o = true ↔ ∃ kind, e = .freed kind o := by
  cases e with
  | freed kind o' => simp [frees]
  | _ => exact iff_of_false nofun nofun

/-- The native object is passed to a function, handed out or registered. -/
def Event.Receives : Event w → Prop
  | .threw _ _ => False
  | _ => True

namespace Lawful

variable {log : List (Event w)} {o : Option ℕ} {e : Event w}

theorem received (h : Lawful log) {later before : List (Event w)}
    (hlog : log = later ++ e :: before) (he : e.Receives) : Live before e.object := by
  have hpermitted := h later e before hlog
  cases e with
  | registered | called | nodeStopped | signerStopped => exact hpermitted
  | handed | freed => exact hpermitted.1
  | threw => exact he.elim

theorem freed_once (h : Lawful log) (o : Option ℕ) : log.countP (Event.frees o) ≤ 1 := by
  induction log with
  | nil => exact Nat.zero_le 1
  | cons e log ih =>
    obtain ⟨he, hlog⟩ := lawful_cons.mp h
    by_cases hfrees : e.frees o = true
    · obtain ⟨kind, rfl⟩ := Event.frees_iff.mp hfrees
      have hnone : log.countP (Event.frees o) = 0 := by
        rw [List.countP_eq_zero]
        intro e' he' hfrees'
        obtain ⟨kind', rfl⟩ := Event.frees_iff.mp hfrees'
        exact he.1.2 kind' he'
      rw [List.countP_cons_of_pos hfrees, hnone]
    · rw [List.countP_cons_of_neg hfrees]
      exact ih hlog

/-- A registration comes before the free, so the shutdown does too. -/
theorem stopped_first (h : Lawful log) {later before : List (Event w)} {id : BitVec w}
    (hlog : log = later ++ .freed .node o :: before) (hregistered : .registered o id ∈ log) :
    .nodeStopped o true ∈ before := by
  apply (h later _ before hlog).2 rfl
  subst hlog
  rcases List.mem_append.mp hregistered with hmem | hmem
  · obtain ⟨first, rest, rfl⟩ := List.append_of_mem hmem
    have hlive : Live (rest ++ .freed .node o :: before) o :=
      h first (.registered o id) _ (by simp)
    exact absurd (by simp) (hlive.2 .node)
  · rcases List.mem_cons.mp hmem with hmem | hmem
    · cases hmem
    · exact ⟨id, hmem⟩

theorem stopped_of_handed (h : Lawful log) {env : ℕ} (hhanded : .handed env .node o ∈ log)
    (hfreed : .freed .node o ∈ log) : .nodeStopped o true ∈ log := by
  obtain ⟨first, rest, hlog⟩ := List.append_of_mem hhanded
  obtain ⟨id, hid⟩ := (h first _ rest hlog).2
  obtain ⟨later, before, hlog'⟩ := List.append_of_mem hfreed
  have hregistered : .registered o id ∈ log := by simp [hlog, hid]
  have hstopped := h.stopped_first hlog' hregistered
  simp [hlog', hstopped]

end Lawful

variable {s s' : Addon w} {t u : System w} {env o a b : ℕ} {id : BitVec w} {kind : HandleKind}
  {wr wr' : Wrapper w} {c c' : Control w} {action : Action w}

namespace Addon

/-- A node of an environment whose wrapper is registered and still owns its object. -/
structure Kept (s : Addon w) (env o a : ℕ) (wr : Wrapper w) : Prop where
  registered : a ∈ s.handles
  holds : s.Holds env .node a wr
  object : wr.object = some o
  live : wr.freed = false
  stopped : wr.shutdownAttempted = true ↔ .nodeStopped (some o) true ∈ s.log

theorem find_self {p : ℕ → Bool} (h : a ∈ s.handles) (hp : p a = true)
    (honly : ∀ b ∈ s.handles, p b = true → b = a) : s.handles.find? p = some a := by
  cases hfind : s.handles.find? p with
  | none => exact absurd hp (List.find?_eq_none.mp hfind a h)
  | some b =>
    obtain ⟨hmem, hpb⟩ := find_spec hfind
    rw [honly b hmem hpb]

theorem ownsHandle_self (h : a ∈ s.handles) (hwr : s.Holds env kind a wr) :
    s.ownsHandle env a kind = true := by
  have hfind : s.handles.find? (· == a) = some a :=
    find_self h (beq_self_eq_true a) fun b _ hb => by simpa using hb
  simp [ownsHandle, hfind, hwr.own, hwr.env, hwr.kind]

theorem findFinalizerHandle_self (h : a ∈ s.handles) (hwr : s.Holds env kind a wr) :
    s.findFinalizerHandle env a wr.id kind = some a := by
  refine find_self h (by simp [hwr.own, hwr.env, hwr.kind]) fun b _ hb => ?_
  rw [Bool.and_eq_true, beq_iff_eq] at hb
  exact hb.1

theorem Sound.findTeardownHandle_self (hs : s.Sound) (h : a ∈ s.handles)
    (hwr : s.Holds env kind a wr) : s.findTeardownHandle wr.id kind = some a := by
  refine find_self h (by simp [hwr.own, hwr.kind]) fun b hb hpb => ?_
  simp only [Option.any_eq_true, Bool.and_eq_true, beq_iff_eq] at hpb
  obtain ⟨wb, hwb, hid, _⟩ := hpb
  exact hs.distinct hb h hwb hwr.own hid

/-- A node that was handed out is kept until it is stopped and freed. -/
theorem Sound.kept (hs : s.Sound) (h : .handed env .node (some o) ∈ s.log) :
    .nodeStopped (some o) true ∈ s.log ∧ .freed .node (some o) ∈ s.log ∨
      ∃ a wr, s.Kept env o a wr := by
  rcases hs.retained h with hfreed | ⟨a, wr, hmem, hwr, ho⟩
  · exact .inl ⟨hs.lawful.stopped_of_handed h hfreed, hfreed⟩
  · have hsound := hs.wrapper hwr.own
    have hlive : wr.freed = false := by
      apply eq_false_of_ne_true
      intro hfreed
      cases (hsound.live.mp hfreed).symm.trans ho
    exact .inr ⟨a, wr, hmem, hwr, ho, hlive, hsound.stopped ho⟩

end Addon

/-- The calls, finalizers and callbacks that shut a kept node down and free it. -/
def Action.Releases (s : Addon w) (a : ℕ) (wr : Wrapper w) : Action w → Prop
  | .sdkNodeDestroy data => data = some a
  | .sdkNodeDestructor data hint => data = a ∧ hint = wr.id
  | .teardown callback => callback = ⟨wr.env, .node, wr.id⟩ ∧ callback ∈ s.callbacks
  | _ => False

theorem begin_releases (hs : s.Sound) (hkept : s.Kept env o a wr)
    (haction : action.Releases s a wr) : ∃ s' caller wr',
      Control.begin env s action = some (s', .stopNode a caller) ∧ s'.Holds env .node a wr' ∧
        wr'.object = some o ∧ wr'.freed = false := by
  have hwr := hkept.holds
  cases action with
  | sdkNodeDestroy data =>
    obtain rfl : data = some a := haction
    have hunwrap : s.unwrapRef env .node (some a) = some a := by
      simp [Addon.unwrapRef, Addon.ownsHandle_self hkept.registered hwr]
    refine ⟨s, .destroy, wr, ?_, hwr, hkept.object, hkept.live⟩
    simp [Control.begin, hunwrap, hwr.own, hkept.live]
  | sdkNodeDestructor data hint =>
    obtain ⟨rfl, rfl⟩ := haction
    refine ⟨s, .finalizer, wr, ?_, hwr, hkept.object, hkept.live⟩
    simp [Control.begin, Addon.findFinalizerHandle_self hkept.registered hwr]
  | teardown callback =>
    obtain ⟨rfl, hmem⟩ := haction
    obtain rfl := hwr.env
    have hfind : ({ s with callbacks := s.callbacks.erase ⟨wr.env, .node, wr.id⟩ } :
        Addon w).findTeardownHandle wr.id .node = some a :=
      hs.findTeardownHandle_self hkept.registered hwr
    refine ⟨{ s with callbacks := s.callbacks.erase ⟨wr.env, .node, wr.id⟩ }.write a
      { wr with teardownRegistered := false }, .teardown, { wr with teardownRegistered := false },
      ?_, ⟨Addon.write_heap_self .., rfl, hwr.kind⟩, hkept.object, hkept.live⟩
    simp [Control.begin, hmem, hfind, hwr.own]
  | _ => exact haction.elim

theorem next_stopNode {caller : NodeCaller w} {ok : Bool} :
    (Control.stopNode a caller).next env (.resume ok) s =
      (Control.stopNode a caller).stopNodes s ok := by
  simp [Control.next, Control.wrapNode, Control.callNative, Control.wrapSigner,
    Control.freeSigners, Control.scanNodes]

theorem next_freeNode {caller : NodeCaller w} {ok : Bool} :
    (Control.freeNode a caller).next env (.resume ok) s =
      (Control.freeNode a caller).stopNodes s ok := by
  simp [Control.next, Control.wrapNode, Control.callNative, Control.wrapSigner,
    Control.freeSigners, Control.scanNodes]

/-- When the native shutdown succeeds, `shutdown_and_free_sdk_node` frees the node. -/
theorem stopNode_frees (caller : NodeCaller w) (hwr : s.Holds env .node a wr)
    (hobject : wr.object = some o) (hlive : wr.freed = false) : ∃ s' wr',
      (Control.stopNode a caller).next env (.resume true) s = some (s', .freeNode a caller) ∧
        s'.Holds env .node a wr' ∧ wr'.object = some o := by
  rw [next_stopNode]
  simp only [Control.stopNodes, hwr.own, Option.map_some]
  rw [if_neg (ne_true_of_eq_false hlive)]
  by_cases hattempted : wr.shutdownAttempted = true
  · exact ⟨s, wr, by rw [if_pos hattempted], hwr, hobject⟩
  · refine ⟨_, { wr with shutdownAttempted := true }, by rw [if_neg hattempted, if_pos trivial], ?_,
      hobject⟩
    exact ⟨Addon.write_heap_self .., hwr.env, hwr.kind⟩

/-- A kept node can be released at any time its environment is idle. -/
theorem retry (ht : Program.Holds Addon.Sound Control.Sound t) (hidle : t.control env = .idle)
    (hkept : t.shared.Kept env o a wr) (haction : action.Releases t.shared a wr) :
    ∃ u, (program w).run t [.thread env action, .thread env (.resume true),
      .thread env (.resume true)] = some u ∧ .freed .node (some o) ∈ u.shared.log := by
  obtain ⟨s₁, caller, wr₁, hbegin, hwr₁, ho₁, hlive⟩ := begin_releases ht.shared hkept haction
  obtain ⟨s₂, wr₂, hstop, hwr₂, ho₂⟩ := stopNode_frees caller hwr₁ ho₁ hlive
  have hfree : (Control.freeNode a caller).next env (.resume true) s₂ =
      some (s₂.freeObject a wr₂, .nodeStopped a caller) := by
    rw [next_freeNode]
    simp only [Control.stopNodes, hwr₂.own, Option.map_some]
  have hfreed : .freed .node (some o) ∈ (s₂.freeObject a wr₂).log := by
    rw [← ho₂, ← hwr₂.kind]
    exact List.mem_cons_self
  have hstep₁ : (program w).step t (.thread env action) =
      some ⟨s₁, Function.update t.control env (.stopNode a caller)⟩ := by
    simp [Program.step, program, Control.next, hidle, hbegin]
  have hstep₂ : (program w).step ⟨s₁, Function.update t.control env (.stopNode a caller)⟩
      (.thread env (.resume true)) =
        some ⟨s₂, Function.update t.control env (.freeNode a caller)⟩ := by
    simp [Program.step, program, hstop]
  have hstep₃ : (program w).step ⟨s₂, Function.update t.control env (.freeNode a caller)⟩
      (.thread env (.resume true)) = some ⟨s₂.freeObject a wr₂,
        Function.update t.control env (.nodeStopped a caller)⟩ := by
    simp [Program.step, program, hfree]
  refine ⟨⟨s₂.freeObject a wr₂, Function.update t.control env (.nodeStopped a caller)⟩, ?_, hfreed⟩
  simp only [Program.run, hstep₁, hstep₂, hstep₃, Option.bind_some]

/-- The generation a finalizer or a teardown callback was made for. -/
def Action.generation : Action w → Option (BitVec w)
  | .sdkNodeDestructor _ hint | .signerDestructor _ hint => some hint
  | .teardown callback => some callback.id
  | _ => none

/-- A registered wrapper has the identity. -/
def Addon.Registered (s : Addon w) (id : BitVec w) : Prop :=
  ∃ a wr, a ∈ s.handles ∧ s.heap a = some wr ∧ wr.id = id

/-- A callback whose generation is gone does nothing. -/
theorem begin_stale (h : Control.begin env s action = some (s', c'))
    (hgeneration : action.generation = some id) (hstale : ¬s.Registered id) :
    (∃ callbacks, s' = { s with callbacks }) ∧ c' = .idle := by
  cases action with
  | sdkNodeDestructor data hint =>
    cases hgeneration
    simp only [Control.begin] at h
    split at h
    next =>
      cases h
      exact ⟨⟨s.callbacks, rfl⟩, rfl⟩
    next a ha =>
      obtain ⟨_, hmem, wr, hwr, hid⟩ := Addon.findFinalizerHandle_spec ha
      exact absurd ⟨a, wr, hmem, hwr.own, hid⟩ hstale
  | signerDestructor data hint =>
    cases hgeneration
    simp only [Control.begin] at h
    split at h
    next =>
      cases h
      exact ⟨⟨s.callbacks, rfl⟩, rfl⟩
    next a ha =>
      obtain ⟨_, hmem, wr, hwr, hid⟩ := Addon.findFinalizerHandle_spec ha
      exact absurd ⟨a, wr, hmem, hwr.own, hid⟩ hstale
  | teardown callback =>
    cases hgeneration
    simp only [Control.begin, Option.ite_none_right_eq_some] at h
    obtain ⟨_, h⟩ := h
    split at h
    next =>
      cases h
      exact ⟨⟨_, rfl⟩, rfl⟩
    next a ha =>
      obtain ⟨hmem, wr, hwr, hid, _⟩ := Addon.findTeardownHandle_spec ha
      exact absurd ⟨a, wr, hmem, hwr, hid⟩ hstale
  | _ => cases hgeneration

theorem Addon.Registered.before (h : s'.Registered id)
    (hbefore : ∀ {a wr'}, a ∈ s'.handles → s'.heap a = some wr' → wr'.id = id →
      a ∈ s.handles ∧ ∃ wr, s.heap a = some wr ∧ wr.id = wr'.id) : s.Registered id := by
  obtain ⟨a, wr', hmem, hwr', hid⟩ := h
  obtain ⟨hmem', wr, hwr, hsame⟩ := hbefore hmem hwr' hid
  exact ⟨a, wr, hmem', hwr, hsame.trans hid⟩

theorem Addon.Registered.of_update (h : s'.Registered id) (own : s.heap a = some wr)
    (hheap : s'.heap = Function.update s.heap a (some wr')) (hhandles : s'.handles = s.handles)
    (hid : wr'.id = wr.id) : s.Registered id := by
  refine h.before fun {b x} hb hx _ => ⟨hhandles ▸ hb, ?_⟩
  rw [hheap] at hx
  rcases Addon.heap_write (s := s) hx with ⟨rfl, rfl⟩ | ⟨_, hx⟩
  · exact ⟨wr, own, hid.symm⟩
  · exact ⟨x, hx, rfl⟩

/-- No effect brings an identity back. -/
theorem Effect.registered (h : Effect env s s') (hs : s.Sound) (hissued : s.Issued id)
    (hr : s'.Registered id) : s.Registered id := by
  cases h with
  | @allocate a kind free =>
    refine hr.before fun {b _} hb hwb _ => ?_
    rcases Addon.heap_write hwb with ⟨rfl, _⟩ | ⟨_, hwb⟩
    · obtain ⟨wr, hwr⟩ := hs.live hb
      cases free.symm.trans hwr
    · exact ⟨hb, _, hwb, rfl⟩
  | register own henv live new next =>
    refine hr.before fun {b _} hb hwb hid => ?_
    rcases Addon.heap_register hwb with ⟨_, rfl⟩ | ⟨hba, hwb⟩
    · exact absurd hid.symm (hissued.ne_next next)
    · exact ⟨(List.mem_cons.mp hb).resolve_left hba, _, hwb, rfl⟩
  | flag own henv value callbacks hcallbacks =>
    exact hr.of_update own rfl rfl rfl
  | unregister own henv done =>
    exact hr.before fun hb hwb _ => ⟨List.mem_of_mem_erase hb, _, hwb, rfl⟩
  | stop own henv live => exact hr.of_update own rfl rfl rfl
  | free own henv live stopped => exact hr.of_update own rfl rfl rfl
  | release own henv gone done =>
    exact hr.before fun hb hwb _ => ⟨hb, _, (Addon.heap_release hwb).2, rfl⟩
  | discard own henv live kind gone unhanded =>
    exact hr.before fun hb hwb _ => ⟨hb, _, (Addon.heap_release hwb).2, rfl⟩
  | lose | callbacks | hand | fail | call | revoke | throw => exact hr

/-- An identity that was used up stays so. -/
theorem Effect.issued (h : Effect env s s') (hissued : s.Issued id) : s'.Issued id := by
  cases h with
  | register own henv live new next => exact hissued.register next
  | _ => exact hissued

theorem Effects.gone (h : Effects env s s') (hs : s.Sound) (hissued : s.Issued id)
    (hstale : ¬s.Registered id) : s'.Issued id ∧ ¬s'.Registered id := by
  induction h with
  | refl => exact ⟨hissued, hstale⟩
  | tail before last ih =>
    obtain ⟨hissued', hstale'⟩ := ih
    have hsound := Effects.sound before hs
    exact ⟨last.issued hissued', fun hr => hstale' (last.registered hsound hissued' hr)⟩

/-- A generation that was used and is gone never returns. -/
theorem gone_forever {moves : List (Label w)}
    (hrun : Trace ((program w).Step Program.Unrestricted) t moves u)
    (ht : Program.Holds Addon.Sound Control.Sound t) (hissued : t.shared.Issued id)
    (hstale : ¬t.shared.Registered id) : ¬u.shared.Registered id := by
  suffices h : Program.Holds Addon.Sound Control.Sound u ∧ u.shared.Issued id ∧
      ¬u.shared.Registered id from h.2.2
  refine hrun.invariant (P := fun s => Program.Holds Addon.Sound Control.Sound s ∧
    s.shared.Issued id ∧ ¬s.shared.Registered id) ?_ ⟨ht, hissued, hstale⟩
  rintro s move t ⟨hs, hissued, hstale⟩ hstep
  refine ⟨program_preserves.step hs hstep, ?_⟩
  cases move with
  | environment event => exact nomatch event
  | thread env action =>
    obtain ⟨shared, control, hnext, rfl⟩ := Program.step_thread hstep.1
    exact (next_sound hnext hs.shared (hs.control env)).1.gone hs.shared hissued hstale

/-- The wrapper at one address. -/
def At (b : ℕ) (a : ℕ) (_ : Wrapper w) : Prop := a = b

/-- A finalizer or a teardown callback of another generation. That of a signer also shuts down the
nodes of its environment. -/
def Action.Spares (wr : Wrapper w) : Action w → Prop
  | .sdkNodeDestructor _ hint | .signerDestructor _ hint => wr.id ≠ hint
  | .teardown callback => wr.id ≠ callback.id ∧ (callback.kind = .signer → wr.kind = .signer)
  | _ => False

def NodeCaller.Avoids (b : ℕ) (kind : HandleKind) : NodeCaller w → Prop
  | .scan sc => sc.signer ≠ b ∧ kind = .signer
  | _ => True

/-- A finalizer or a teardown callback is at work, on other wrappers than the one at `b`. -/
def Control.Avoids (b : ℕ) (kind : HandleKind) : Control w → Prop
  | .idle => True
  | .stopNode a caller | .freeNode a caller | .nodeStopped a caller | .unregisterNode a caller
  | .releaseNode a caller => a ≠ b ∧ caller.Avoids b kind
  | .freeSigner a _ | .unregisterSigner a _ | .releaseSigner a _ => a ≠ b
  | .scan sc | .attempt sc _ | .revoke sc => sc.signer ≠ b ∧ kind = .signer
  | _ => False

theorem undisturbed_removeCallback (hwr : s.Holds env kind a wr) (hne : a ≠ b) :
    Undisturbed (At b) s (s.removeCallback a wr) := by
  unfold Addon.removeCallback
  split
  · have hwrite : Undisturbed (At b) s (s.write a { wr with teardownRegistered := false }) :=
      .write _ hwr.own hne hne
    exact hwrite.trans (.of_same rfl rfl rfl)
  · exact .refl

theorem undisturbed_freeObject (hs : s.Sound) (hwr : s.Holds env kind a wr) (hne : a ≠ b) :
    Undisturbed (At b) s (s.freeObject a wr) := by
  have hrecord : Undisturbed (At b) s (s.record (.freed wr.kind wr.object)) :=
    .record hs hwr.own hne rfl
  refine hrecord.trans ?_
  exact .write { wr with object := none, freed := true } hwr.own hne hne

/-- The thread is not working on the node at `b`. -/
def Control.Off (b : ℕ) : Control w → Prop
  | .stopNode a _ | .freeNode a _ | .nodeStopped a _ | .unregisterNode a _ | .releaseNode a _
  | .shutdownNode a => a ≠ b
  | _ => True

theorem stopNodes_undisturbed {ok : Bool} (h : c.stopNodes s ok = some (s', c')) (hs : s.Sound)
    (hc : c.Sound env s) (hne : c.Off b) : Undisturbed (At b) s s' := by
  have hstop {a : ℕ} {wr : Wrapper w} (hwr : s.Holds env .node a wr) (hne : a ≠ b) :
      Undisturbed (At b) s ((s.write a { wr with shutdownAttempted := true }).record
        (.nodeStopped wr.object true)) := by
    have hrecord : Undisturbed (At b) s (s.record (.nodeStopped wr.object true)) :=
      .record hs hwr.own hne rfl
    exact hrecord.trans (.write { wr with shutdownAttempted := true } hwr.own hne hne)
  cases c with
  | stopNode a caller =>
    obtain ⟨wr, hwr, _⟩ := hc
    simp only [Control.stopNodes, hwr.own, Option.map_some, Option.some.injEq] at h
    split at h
    · cases h
      exact .refl
    split at h
    · cases h
      exact .refl
    split at h <;> cases h
    · exact hstop hwr hne
    · exact .record hs hwr.own hne rfl
  | freeNode a caller =>
    obtain ⟨wr, hwr, _⟩ := hc
    simp only [Control.stopNodes, hwr.own, Option.map_some, Option.some.injEq, Prod.mk.injEq] at h
    obtain ⟨rfl, rfl⟩ := h
    exact undisturbed_freeObject hs hwr hne
  | nodeStopped a caller =>
    obtain ⟨wr, hwr, _⟩ := hc
    simp only [Control.stopNodes, hwr.own, Option.map_some, Option.some.injEq] at h
    cases caller with
    | wrap failure =>
      cases h
      exact .refl
    | finalizer =>
      simp only at h
      split at h <;> cases h
      · exact undisturbed_removeCallback hwr hne
      · exact .refl
    | destroy =>
      simp only at h
      split at h <;> cases h
      · exact .refl
      · exact .throw
    | teardown | scan =>
      simp only at h
      split at h <;> cases h <;> exact .refl
  | unregisterNode a caller =>
    obtain ⟨wr, hwr, _⟩ := hc
    cases h
    exact .unregister hwr.own hne
  | releaseNode a caller =>
    obtain ⟨wr, hwr, _⟩ := hc
    have hrelease : Undisturbed (At b) s (s.release a) := .release hwr.own hne
    cases caller with
    | wrap failure =>
      cases h
      refine hrelease.trans ?_
      cases failure <;> exact .throw
    | scan | teardown | finalizer | destroy =>
      cases h
      exact hrelease
  | shutdownNode a =>
    obtain ⟨wr, hwr, _⟩ := hc
    simp only [Control.stopNodes, hwr.own, Option.map_some, Option.some.injEq] at h
    split at h <;> cases h
    · exact hstop hwr hne
    · exact .record hs hwr.own hne rfl
  | _ => cases h

theorem Control.Avoids.off (h : c.Avoids b kind) : c.Off b := by
  cases c with
  | stopNode | freeNode | nodeStopped | unregisterNode | releaseNode => exact h.1
  | shutdownNode => exact h.elim
  | _ => trivial

theorem stopNodes_avoids {ok : Bool} (h : c.stopNodes s ok = some (s', c'))
    (havoids : c.Avoids b kind) : c'.Avoids b kind := by
  cases c with
  | stopNode a caller =>
    obtain ⟨wr, _, h⟩ := Option.map_eq_some_iff.mp h
    (repeat' split at h) <;> cases h <;> exact havoids
  | freeNode a caller =>
    obtain ⟨wr, _, h⟩ := Option.map_eq_some_iff.mp h
    cases h
    exact havoids
  | nodeStopped a caller =>
    obtain ⟨wr, _, h⟩ := Option.map_eq_some_iff.mp h
    cases caller with
    | wrap failure =>
      cases h
      exact havoids
    | scan sc =>
      simp only at h
      split at h <;> cases h
      · exact havoids
      · exact havoids.2
    | teardown | finalizer =>
      simp only at h
      split at h <;> cases h
      · exact havoids
      · trivial
    | destroy =>
      simp only at h
      split at h <;> cases h <;> trivial
  | unregisterNode a caller =>
    cases h
    exact havoids
  | releaseNode a caller =>
    cases caller with
    | scan sc =>
      cases h
      exact havoids.2
    | wrap | teardown | finalizer | destroy =>
      cases h
      trivial
  | shutdownNode a => exact havoids.elim
  | _ => cases h

theorem freeSigners_avoids (h : c.freeSigners s = some (s', c')) (hs : s.Sound)
    (hc : c.Sound env s) (havoids : c.Avoids b kind) :
    Undisturbed (At b) s s' ∧ c'.Avoids b kind := by
  cases c with
  | freeSigner a caller =>
    obtain ⟨wr, hwr, _⟩ := hc
    simp only [Control.freeSigners, hwr.own, Option.map_some, Option.some.injEq,
      Prod.mk.injEq] at h
    obtain ⟨rfl, rfl⟩ := h
    constructor
    · split
      · exact .refl
      · exact undisturbed_freeObject hs hwr havoids
    · cases caller with
      | destroy => trivial
      | _ => exact havoids
  | unregisterSigner a caller =>
    obtain ⟨wr, hwr, _⟩ := hc
    cases h
    exact ⟨.unregister hwr.own havoids, havoids⟩
  | releaseSigner a caller =>
    obtain ⟨wr, hwr, _⟩ := hc
    cases h
    exact ⟨.release hwr.own havoids, trivial⟩
  | _ => cases h

theorem scanNodes_avoids {ok : Bool} (h : c.scanNodes s ok = some (s', c')) (hs : s.Sound)
    (hc : c.Sound env s) (own : s.heap b = some wr) (havoids : c.Avoids b wr.kind) :
    Undisturbed (At b) s s' ∧ c'.Avoids b wr.kind := by
  cases c with
  | scan sc =>
    obtain ⟨henv, hmem, signer, hsigner⟩ := hc
    simp only [Control.scanNodes, hsigner.own, Option.map_some] at h
    split at h
    · split at h
      · cases h
        refine ⟨.refl, ?_⟩
        split
        · exact havoids.1
        · exact havoids
      · cases h
        exact ⟨.refl, trivial⟩
    · cases h
      exact ⟨.refl, havoids⟩
  | attempt sc id =>
    simp only [Control.scanNodes] at h
    split at h
    next =>
      cases h
      exact ⟨.refl, havoids⟩
    next a ha =>
      cases h
      refine ⟨.refl, ?_, havoids⟩
      rintro rfl
      obtain ⟨_, node, hnode, _, hkind⟩ := Addon.findTeardownHandle_spec ha
      obtain rfl : node = wr := Option.some.inj (hnode.symm.trans own)
      cases hkind.symm.trans havoids.2
  | revoke sc =>
    obtain ⟨_, _, signer, hsigner, _⟩ := hc
    simp only [Control.scanNodes, hsigner.own, Option.map_some, Option.some.injEq,
      Prod.mk.injEq] at h
    obtain ⟨rfl, rfl⟩ := h
    refine ⟨.record hs hsigner.own havoids.1 rfl, ?_⟩
    split
    · exact havoids.1
    · trivial
  | _ => cases h

/-- A callback keeps to the wrappers it found. -/
theorem next_avoids {ok : Bool} (h : c.next env (.resume ok) s = some (s', c')) (hs : s.Sound)
    (hc : c.Sound env s) (own : s.heap b = some wr) (havoids : c.Avoids b wr.kind) :
    Undisturbed (At b) s s' ∧ c'.Avoids b wr.kind := by
  unfold Control.next at h
  split at h
  · cases h
  · simp only [Option.or_eq_some_iff] at h
    rcases h with h | ⟨_, h | ⟨_, h | ⟨_, h | ⟨_, h | ⟨_, h⟩⟩⟩⟩⟩
    · cases c <;> first | exact havoids.elim | cases h
    · exact ⟨stopNodes_undisturbed h hs hc havoids.off, stopNodes_avoids h havoids⟩
    · cases c <;> first | exact havoids.elim | cases h
    · cases c <;> first | exact havoids.elim | cases h
    · exact freeSigners_avoids h hs hc havoids
    · exact scanNodes_avoids h hs hc own havoids

/-- It finds its own generation only. -/
theorem begin_avoids (h : Control.begin env s action = some (s', c')) (hs : s.Sound)
    (own : s.heap b = some wr) (hspares : action.Spares wr) :
    Undisturbed (At b) s s' ∧ c'.Avoids b wr.kind := by
  have hother {a : ℕ} {found : Wrapper w} (hfound : s.heap a = some found)
      (hid : wr.id ≠ found.id) : a ≠ b := by
    rintro rfl
    exact hid (congrArg Wrapper.id (Option.some.inj (own.symm.trans hfound)))
  cases action with
  | sdkNodeDestructor data hint =>
    simp only [Control.begin] at h
    split at h
    next =>
      cases h
      exact ⟨.refl, trivial⟩
    next a ha =>
      cases h
      obtain ⟨_, _, found, hfound, rfl⟩ := Addon.findFinalizerHandle_spec ha
      exact ⟨.refl, hother hfound.own hspares, trivial⟩
  | signerDestructor data hint =>
    simp only [Control.begin] at h
    split at h
    next =>
      cases h
      exact ⟨.refl, trivial⟩
    next a ha =>
      obtain ⟨_, _, found, hfound, rfl⟩ := Addon.findFinalizerHandle_spec ha
      simp only [hfound.own, Option.map_some, Option.some.injEq, Prod.mk.injEq] at h
      obtain ⟨rfl, rfl⟩ := h
      have hne := hother hfound.own hspares
      exact ⟨undisturbed_removeCallback hfound hne, hne⟩
  | teardown callback =>
    simp only [Control.begin, Option.ite_none_right_eq_some] at h
    obtain ⟨⟨hcb, _⟩, h⟩ := h
    have herase : Undisturbed (At b) s { s with callbacks := s.callbacks.erase callback } :=
      .of_same rfl rfl rfl
    split at h
    next =>
      cases h
      exact ⟨herase, trivial⟩
    next a ha =>
      obtain ⟨_, found, hfound, hid⟩ := hs.holds_of_callback hcb ha
      simp only [hfound.own, Option.map_some, Option.some.injEq, Prod.mk.injEq] at h
      obtain ⟨rfl, rfl⟩ := h
      have hne := hother hfound.own (hid ▸ hspares.1)
      refine ⟨herase.trans (.write _ hfound.own hne hne), ?_⟩
      cases hkind : callback.kind with
      | node => exact ⟨hne, trivial⟩
      | signer => exact ⟨hne, hspares.2 hkind⟩
  | _ => exact hspares.elim

theorem Undisturbed.at (h : Undisturbed (InEnv env) s s') (hwr : s.Holds env kind b wr) :
    Undisturbed (At b) s s' := by
  have hkept := hwr.undisturbed h
  refine ⟨fun {a x} hab => ?_, fun {a x} hx hab => ?_, fun {a x o} hx hab ho => ?_⟩
  · obtain rfl : a = b := hab
    rw [hkept.own, hwr.own]
  · obtain rfl : a = b := hab
    exact hwr.mem_iff h
  · obtain rfl : a = b := hab
    obtain rfl : x = wr := Option.some.inj (hx.symm.trans hwr.own)
    exact h.history hx hwr.env ho

/-- The environment only goes on with what it is doing. -/
def Continues (env : ℕ) (_ : System w) (move : Label w) : Prop :=
  ∀ action, move = .thread env action → ∃ ok, action = .resume ok

/-- While a callback of one generation runs, the wrappers of other generations are left alone. -/
theorem callback_spares {t' : System w} {moves : List (Label w)}
    (ht : Program.Holds Addon.Sound Control.Sound t) (hwr : t.shared.Holds env kind b wr)
    (hspares : action.Spares wr) (hstep : (program w).step t (.thread env action) = some t')
    (hrun : Trace ((program w).Step (Continues env)) t' moves u) :
    Undisturbed (At b) t.shared u.shared := by
  suffices h : Program.Holds Addon.Sound Control.Sound u ∧
      Undisturbed (At b) t.shared u.shared ∧ (u.control env).Avoids b wr.kind from h.2.1
  refine hrun.invariant (P := fun s => Program.Holds Addon.Sound Control.Sound s ∧
    Undisturbed (At b) t.shared s.shared ∧ (s.control env).Avoids b wr.kind) ?_ ?_
  · rintro s move s' ⟨hs, hkept, havoids⟩ ⟨hmove, hA⟩
    refine ⟨program_preserves.step hs ⟨hmove, trivial⟩, ?_⟩
    have own : s.shared.heap b = some wr := (hkept.heap rfl).mpr hwr.own
    cases move with
    | environment event => exact nomatch event
    | thread i label =>
      obtain ⟨shared, control, hnext, rfl⟩ := Program.step_thread hmove
      by_cases hi : i = env
      · subst hi
        obtain ⟨ok, rfl⟩ := hA label rfl
        obtain ⟨hnew, havoids'⟩ := next_avoids hnext hs.shared (hs.control i) own havoids
        exact ⟨hkept.trans hnew, by simpa using havoids'⟩
      · have heffects := (next_sound hnext hs.shared (hs.control i)).1
        have hnew := heffects.undisturbed hs.shared (Ne.symm hi)
        refine ⟨hkept.trans (hnew.at ⟨own, hwr.env, hwr.kind⟩), ?_⟩
        simpa [Ne.symm hi] using havoids
  · refine ⟨program_preserves.step ht ⟨hstep, trivial⟩, ?_⟩
    obtain ⟨shared, control, hnext, rfl⟩ := Program.step_thread hstep
    have hbegin : Control.begin env t.shared action = some (shared, control) := by
      unfold Program.next program Control.next at hnext
      simp only at hnext
      split at hnext
      · exact hnext
      · cases action with
        | sdkNodeDestructor | signerDestructor | teardown => cases hnext
        | _ => exact hspares.elim
    simpa using begin_avoids hbegin ht.shared hwr.own hspares

/-- A stale callback leaves the thread idle and all but the list of callbacks as it was. -/
theorem callback_stale (hstep : (program w).step t (.thread env action) = some u)
    (hgeneration : action.generation = some id) (hstale : ¬t.shared.Registered id) :
    (∃ callbacks, u.shared = { t.shared with callbacks }) ∧ u.control = t.control := by
  obtain ⟨shared, control, hnext, rfl⟩ := Program.step_thread hstep
  unfold Program.next program Control.next at hnext
  simp only at hnext
  split at hnext
  next hidle =>
    obtain ⟨hshared, rfl⟩ := begin_stale hnext hgeneration hstale
    exact ⟨hshared, by rw [← hidle, Function.update_eq_self]⟩
  next =>
    cases action with
    | sdkNodeDestructor | signerDestructor | teardown => cases hnext
    | _ => cases hgeneration

/-- The rules of ownership in a state. -/
structure Owned (t : System w) : Prop where
  freedOnce : ∀ o, t.shared.log.countP (Event.frees o) ≤ 1
  received : ∀ {later e before}, t.shared.log = later ++ e :: before → e.Receives →
    Live before e.object
  stoppedFirst : ∀ {later before o id}, t.shared.log = later ++ .freed .node o :: before →
    .registered o id ∈ t.shared.log → .nodeStopped o true ∈ before
  kept : ∀ {env o}, .handed env .node (some o) ∈ t.shared.log →
    .nodeStopped (some o) true ∈ t.shared.log ∧ .freed .node (some o) ∈ t.shared.log ∨
      ∃ a wr, t.shared.Kept env o a wr
  retry : ∀ {env o a wr action}, t.control env = .idle → t.shared.Kept env o a wr →
    action.Releases t.shared a wr → ∃ u, (program w).run t [.thread env action,
      .thread env (.resume true), .thread env (.resume true)] = some u ∧
        .freed .node (some o) ∈ u.shared.log
  identities : (t.shared.log.filterMap Event.identity).Nodup
  gone : ∀ {id moves u}, id ∈ t.shared.log.filterMap Event.identity → ¬t.shared.Registered id →
    Trace ((program w).Step Program.Unrestricted) t moves u → ¬u.shared.Registered id
  stale : ∀ {env action id u}, (program w).step t (.thread env action) = some u →
    action.generation = some id → ¬t.shared.Registered id →
      (∃ callbacks, u.shared = { t.shared with callbacks }) ∧ u.control = t.control
  spared : ∀ {env kind b wr action t' moves u}, t.shared.Holds env kind b wr →
    action.Spares wr → (program w).step t (.thread env action) = some t' →
      Trace ((program w).Step (Continues env)) t' moves u →
        Undisturbed (At b) t.shared u.shared

theorem holds_of_run {moves : List (Label w)}
    (hrun : Trace ((program w).Step Program.Unrestricted) (initial w) moves t) :
    Program.Holds Addon.Sound Control.Sound t :=
  program_preserves.trace hrun ⟨initial_sound, fun _ => trivial⟩

/-- Every run keeps the rules of ownership, whatever fails and in whatever order. -/
theorem handles_owned {moves : List (Label w)}
    (hrun : Trace ((program w).Step Program.Unrestricted) (initial w) moves t) : Owned t := by
  have ht := holds_of_run hrun
  have hs := ht.shared
  exact {
    freedOnce := hs.lawful.freed_once
    received := hs.lawful.received
    stoppedFirst := hs.lawful.stopped_first
    kept := hs.kept
    retry := retry ht
    identities := hs.identities
    gone := fun hused hstale h => gone_forever h ht (hs.issued hused) hstale
    stale := callback_stale
    spared := callback_spares ht }

section Sample

/-- A node whose shutdown fails in a call, in a finalizer and in its teardown callback, and works
when it is destroyed; its address is used again, and the finalizer comes once more, late. -/
def ownershipMoves : List (Label 8) :=
  [.thread 1 (.wrapSdkNode (some 5)), .thread 1 (.resume true), .thread 1 (.resume true),
    .thread 1 (.resume true),
    .thread 1 (.sdkNodeShutdown (some 5)), .thread 1 (.resume false),
    .thread 1 (.sdkNodeDestructor 5 1), .thread 1 (.resume false), .thread 1 (.resume true),
    .thread 1 (.teardown ⟨1, .node, 1⟩), .thread 1 (.resume false), .thread 1 (.resume true),
    .thread 1 (.sdkNodeDestroy (some 5)), .thread 1 (.resume true), .thread 1 (.resume true),
    .thread 1 (.resume true),
    .thread 1 (.sdkNodeDestructor 5 1), .thread 1 (.resume true), .thread 1 (.resume true),
    .thread 1 (.resume true), .thread 1 (.resume true),
    .thread 2 (.wrapSdkNode (some 5)), .thread 2 (.resume true), .thread 2 (.resume true),
    .thread 2 (.resume true), .thread 2 (.sdkNodeDestructor 5 1),
    .thread 1 (.sdkNodeDestructor 5 1)]

theorem handles_owned_sample : ∃ t : System 8,
    (program 8).run (initial 8) ownershipMoves = some t ∧ t.shared.handles = [5] ∧
      t.shared.log.countP (Event.frees (some 0)) = 1 ∧ Owned t := by
  refine ⟨_, rfl, rfl, rfl, ?_⟩
  exact @handles_owned 8 _ ownershipMoves (Program.trace_of_run rfl)

end Sample

end RgbLightningNode.Handles
