import RgbLightningNode.Shutdown.Registries

/-!
# Rolling a startup back

`start_lightning` gives its inner part two new registries. When the inner part fails, the workers it
left behind are joined before the fence of the wallet is released. Until then the guard of the fence
would release it on unwinding, so the guard is disarmed before the first worker can exist.
-/

namespace RgbLightningNode.Shutdown.StartLightning
open Transition
open RgbLightningNode.Session (SessionTasks)

variable {φ : Type}

inductive Event where
  /-- An armed guard was dropped, which releases the fence too. -/
  | guardDropped
  | tasksJoined (result : Except String Unit)
  | vssStoresStopped
  | completionsJoined (result : Except String Unit)
  | fenceReleased

/-- Where `start_lightning` stands; once the inner part has failed its error is carried along. -/
inductive Phase where
  | start
  | created
  | inner
  | tasks (error : APIError)
  | stores (error : APIError) (worker : Except String Unit)
  | completions (error : APIError) (worker : Except String Unit)
  | fence (error : APIError) (worker completion : Except String Unit)
  | returned (result : Except APIError Unit)
  | unwound

structure State (φ : Type) where
  phase : Phase
  /-- The guard in `setup.fence_guard` and whether it is armed. -/
  fenceGuard : Option Bool
  registries : Option (Registries φ)
  log : List Event

inductive Label (φ : Type) where
  | resume
  | inner (result : Except APIError Unit)
  | join
  | joined
  | unwind
  | registry (which : Registry) (label : Session.Label ℕ φ)

def Phase.joins : Phase → Option Registry
  | .tasks _ => some .tasks
  | .completions _ _ => some .completions
  | _ => none

/-- The registries are in reach of workers once the inner part was called. -/
def Phase.shared : Phase → Bool
  | .start | .created => false
  | _ => true

/-- The workers may also close a registry, by dropping the services that own it. -/
def permitted : Session.Label ℕ φ → Bool
  | .close _ => true
  | label => label.outside

namespace State

def record (s : State φ) (e : Event) : State φ := { s with log := e :: s.log }

def dropGuard (s : State φ) : State φ :=
  if s.fenceGuard = some true then { s with fenceGuard := none }.record .guardDropped
  else { s with fenceGuard := none }

/-- Dropping the local variables. Registries that nobody else was given go with them. -/
def unwind (s : State φ) : State φ :=
  dropGuard { s with
    phase := .unwound
    registries := if s.phase.shared then s.registries else none }

def setRegistry (s : State φ) (r : Registries φ) (which : Registry) (tasks : SessionTasks ℕ φ) :
    State φ :=
  { s with registries := some (r.set which tasks) }

variable (debug : Except String Unit → String)

def rollbackError (worker completion : Except String Unit) : APIError :=
  .unexpected s!"startup rollback failed: workers={debug worker}, completions={debug completion}"

/-- The steps that wait for nothing. -/
def resume (s : State φ) : Option (State φ) :=
  match s.phase with
  | .start => some { s with phase := .created, registries := some ⟨.new, .new⟩ }
  | .created =>
    -- The disarmed guard is dropped where it was taken.
    some (dropGuard { s with phase := .inner, fenceGuard := s.fenceGuard.map fun _ => false })
  | .stores error worker =>
    some ({ s with phase := .completions error worker }.record .vssStoresStopped)
  | .fence error worker completion =>
    match worker, completion with
    | .ok (), .ok () => some ({ s with phase := .returned (.error error) }.record .fenceReleased)
    | _, _ => some { s with phase := .returned (.error (rollbackError debug worker completion)) }
  | _ => none

def inner (s : State φ) (result : Except APIError Unit) : Option (State φ) :=
  match s.phase, result with
  | .inner, .ok () => some { s with phase := .returned (.ok ()) }
  | .inner, .error error => some { s with phase := .tasks error }
  | _, _ => none

def receive (s : State φ) (result : Except String Unit) : Option (State φ) :=
  match s.phase with
  | .tasks error => some ({ s with phase := .stores error result }.record (.tasksJoined result))
  | .completions error worker =>
    some ({ s with phase := .fence error worker result }.record (.completionsJoined result))
  | _ => none

def step (s : State φ) : Label φ → Option (State φ)
  | .resume => s.resume debug
  | .inner result => s.inner result
  | .join => s.registries.bind fun r => s.phase.joins.bind fun which =>
    ((r.get which).join 0).map (s.setRegistry r which)
  | .joined => s.registries.bind fun r => s.phase.joins.bind fun which =>
    (r.get which).reap.bind fun tasks => tasks.lastResult.bind fun result =>
      (s.setRegistry r which tasks).receive result
  | .unwind =>
    match s.phase with
    | .returned _ | .unwound => none
    | _ => some s.unwind
  | .registry which label => s.registries.bind fun r =>
    if s.phase.shared && permitted label then
      ((r.get which).step label).map (s.setRegistry r which)
    else none

def Step (s : State φ) (label : Label φ) (t : State φ) : Prop := s.step debug label = some t

def run (s : State φ) : List (Label φ) → Option (State φ)
  | [] => some s
  | label :: labels => (s.step debug label).bind fun t => run t labels

variable {debug}

theorem trace_of_run {s t : State φ} {labels : List (Label φ)} (h : s.run debug labels = some t) :
    Trace (Step debug) s labels t := by
  induction labels generalizing s with
  | nil =>
    obtain rfl : s = t := by simpa [run] using h
    exact .nil
  | cons label labels ih =>
    obtain ⟨u, hstep, hrun⟩ := Option.bind_eq_some_iff.mp h
    exact (Trace.single hstep).append (ih hrun)

end State

/-- A wallet whose fence may be guarded, before `start_lightning` is called for it. -/
def init (fenceGuard : Option Bool) : State φ := ⟨.start, fenceGuard, none, []⟩

/-! ### What is known at each point -/

/-- Both joins have returned with these results. -/
def Joined (registries : Option (Registries φ)) (worker completion : Except String Unit) : Prop :=
  ∃ r, registries = some r ∧ r.tasks.Joined worker ∧ r.completions.Joined completion

/-- The events of a rollback up to the point at which it decides about the fence. -/
def rollbackLog (worker completion : Except String Unit) : List Event :=
  [.completionsJoined completion, .vssStoresStopped, .tasksJoined worker]

def Phase.Known (registries : Option (Registries φ)) (log : List Event) : Phase → Prop
  | .start => registries = none ∧ log = []
  | .created => registries = some ⟨.new, .new⟩ ∧ log = []
  | .inner | .tasks _ => log = []
  | .stores _ worker =>
    (∃ r, registries = some r ∧ r.tasks.Joined worker) ∧ log = [.tasksJoined worker]
  | .completions _ worker =>
    (∃ r, registries = some r ∧ r.tasks.Joined worker) ∧
      log = [.vssStoresStopped, .tasksJoined worker]
  | .fence _ worker completion =>
    Joined registries worker completion ∧ log = rollbackLog worker completion
  | .returned (.ok _) => log = []
  | .returned (.error _) => ∃ worker completion, Joined registries worker completion ∧
      (log = rollbackLog worker completion ∨
        worker = .ok () ∧ completion = .ok () ∧
          log = .fenceReleased :: rollbackLog worker completion)
  | .unwound => .fenceReleased ∉ log ∧ (.guardDropped ∈ log → registries = none)

structure State.Sound (s : State φ) : Prop where
  registries : ∀ r, s.registries = some r → r.tasks.Sound ∧ r.completions.Sound
  armed : s.fenceGuard = some true → s.phase.shared = false
  known : s.phase.Known s.registries s.log

theorem init_sound (fenceGuard : Option Bool) : (init fenceGuard : State φ).Sound where
  registries := nofun
  armed := fun _ => rfl
  known := ⟨rfl, rfl⟩

variable {s t : State φ} {r r' : Registries φ} {worker completion : Except String Unit}

theorem Joined.mono (h : Joined (some r) worker completion)
    (hlog : r.tasks.log <:+ r'.tasks.log ∧ r.completions.log <:+ r'.completions.log) :
    Joined (some r') worker completion := by
  obtain ⟨_, heq, hworker, hcompletion⟩ := h
  cases heq
  exact ⟨r', rfl, hworker.mono hlog.1, hcompletion.mono hlog.2⟩

/-- The registries go on while `start_lightning` stands still. -/
theorem Phase.Known.registries {p : Phase} {log : List Event} (h : p.Known (some r) log)
    (hshared : p.shared = true)
    (hlog : r.tasks.log <:+ r'.tasks.log ∧ r.completions.log <:+ r'.completions.log) :
    p.Known (some r') log := by
  have hworkers {worker : Except String Unit}
      (hjoined : ∃ r₀, some r = some r₀ ∧ r₀.tasks.Joined worker) :
      ∃ r₀, some r' = some r₀ ∧ r₀.tasks.Joined worker := by
    obtain ⟨_, heq, hworker⟩ := hjoined
    cases heq
    exact ⟨r', rfl, hworker.mono hlog.1⟩
  cases p with
  | start => cases hshared
  | created => cases hshared
  | inner => exact h
  | tasks error => exact h
  | stores error worker => exact ⟨hworkers h.1, h.2⟩
  | completions error worker => exact ⟨hworkers h.1, h.2⟩
  | fence error worker completion => exact ⟨h.1.mono hlog, h.2⟩
  | returned result =>
    cases result with
    | ok => exact h
    | error error =>
      obtain ⟨worker, completion, hjoined, hlog'⟩ := h
      exact ⟨worker, completion, hjoined.mono hlog, hlog'⟩
  | unwound => exact ⟨h.1, fun hdropped => absurd (h.2 hdropped) nofun⟩

theorem joins_shared {p : Phase} {which : Registry} (h : p.joins = some which) :
    p.shared = true := by
  cases p <;> first | rfl | cases h

/-- A step of a registry, of its workers or of a join of it. -/
theorem State.Sound.setRegistry {which : Registry} {label : Session.Label ℕ φ}
    {tasks : SessionTasks ℕ φ} (h : s.Sound) (hr : s.registries = some r)
    (hshared : s.phase.shared = true) (hstep : (r.get which).Step label tasks) :
    (s.setRegistry r which tasks).Sound := by
  have hsound := h.registries r hr
  have hget := Registries.sound_get hsound which
  have hlog := Registries.set_suffix (hget.guarded.effect hstep).log_suffix
  have hknown := h.known
  rw [hr] at hknown
  refine ⟨?_, h.armed, hknown.registries hshared hlog⟩
  rintro _ ⟨⟩
  exact Registries.sound_set hsound (hget.step hstep)

theorem dropGuard_sound
    (hregistries : ∀ r, s.registries = some r → r.tasks.Sound ∧ r.completions.Sound)
    (harmed : s.fenceGuard = some true → s.phase.Known s.registries (.guardDropped :: s.log))
    (hknown : s.fenceGuard ≠ some true → s.phase.Known s.registries s.log) : s.dropGuard.Sound := by
  unfold State.dropGuard
  split
  next h => exact ⟨hregistries, nofun, harmed h⟩
  next h => exact ⟨hregistries, nofun, hknown h⟩

theorem sound_new : (⟨.new, .new⟩ : Registries φ).tasks.Sound ∧
    (⟨.new, .new⟩ : Registries φ).completions.Sound :=
  ⟨Session.SessionTasks.sound_new, Session.SessionTasks.sound_new⟩

variable {debug : Except String Unit → String} {label : Label φ}

theorem State.Sound.unarmed {p : Phase} (h : s.Sound) (hphase : s.phase = p)
    (hshared : p.shared = true) {P : Prop} (harmed : s.fenceGuard = some true) : P := by
  have hnot := h.armed harmed
  rw [hphase, hshared] at hnot
  cases hnot

theorem State.Sound.resume (h : s.Sound) (hstep : s.resume debug = some t) : t.Sound := by
  have hknown := h.known
  unfold State.resume at hstep
  split at hstep
  next hphase =>
    cases hstep
    rw [hphase] at hknown
    refine ⟨?_, fun _ => rfl, rfl, hknown.2⟩
    rintro _ ⟨⟩
    exact sound_new
  next hphase =>
    cases hstep
    rw [hphase] at hknown
    refine dropGuard_sound h.registries (fun harmed => ?_) fun _ => hknown.2
    simp at harmed
  next hphase =>
    cases hstep
    rw [hphase] at hknown
    exact ⟨h.registries, h.unarmed hphase rfl, hknown.1, congrArg _ hknown.2⟩
  next hphase =>
    rw [hphase] at hknown
    split at hstep <;> cases hstep
    · exact ⟨h.registries, h.unarmed hphase rfl, _, _, hknown.1,
        .inr ⟨rfl, rfl, congrArg _ hknown.2⟩⟩
    · exact ⟨h.registries, h.unarmed hphase rfl, _, _, hknown.1, .inl hknown.2⟩
  next => cases hstep

theorem State.Sound.inner {result : Except APIError Unit} (h : s.Sound)
    (hstep : s.inner result = some t) : t.Sound := by
  have hknown := h.known
  unfold State.inner at hstep
  split at hstep
  next hphase =>
    cases hstep
    rw [hphase] at hknown
    exact ⟨h.registries, h.unarmed hphase rfl, hknown⟩
  next hphase =>
    cases hstep
    rw [hphase] at hknown
    exact ⟨h.registries, h.unarmed hphase rfl, hknown⟩
  next => cases hstep

theorem State.Sound.receive {which : Registry} {result : Except String Unit} (h : s.Sound)
    (hjoins : s.phase.joins = some which) (hr : s.registries = some r)
    (hresult : (r.get which).Joined result) (hstep : s.receive result = some t) : t.Sound := by
  have hknown := h.known
  unfold State.receive at hstep
  split at hstep
  next hphase =>
    cases hstep
    rw [hphase] at hknown hjoins
    cases hjoins
    exact ⟨h.registries, h.unarmed hphase rfl, ⟨r, hr, hresult⟩, congrArg _ hknown⟩
  next hphase =>
    cases hstep
    rw [hphase] at hknown hjoins
    cases hjoins
    obtain ⟨⟨r₀, hr₀, hworker⟩, hlog⟩ := hknown
    rw [hr] at hr₀
    cases hr₀
    exact ⟨h.registries, h.unarmed hphase rfl, ⟨r, hr, hworker, hresult⟩, congrArg _ hlog⟩
  next => cases hstep

theorem Phase.Known.fence {p : Phase} {registries : Option (Registries φ)} {log : List Event}
    (h : p.Known registries log) (hp : ∀ result, p ≠ .returned result) : .fenceReleased ∉ log := by
  cases p with
  | start => simp [h.2]
  | created => simp [h.2]
  | inner => simp [show log = [] from h]
  | tasks error => simp [show log = [] from h]
  | stores error worker => simp [h.2]
  | completions error worker => simp [h.2]
  | fence error worker completion => simp [h.2, rollbackLog]
  | returned result => exact absurd rfl (hp result)
  | unwound => exact h.1

theorem Phase.Known.guard {p : Phase} {registries : Option (Registries φ)} {log : List Event}
    (h : p.Known registries log) (hp : p ≠ .unwound) : .guardDropped ∉ log := by
  cases p with
  | start => simp [h.2]
  | created => simp [h.2]
  | inner => simp [show log = [] from h]
  | tasks error => simp [show log = [] from h]
  | stores error worker => simp [h.2]
  | completions error worker => simp [h.2]
  | fence error worker completion => simp [h.2, rollbackLog]
  | returned result =>
    cases result with
    | ok => simp [show log = [] from h]
    | error error =>
      obtain ⟨worker, completion, _, hlog | ⟨_, _, hlog⟩⟩ := h <;> simp [hlog, rollbackLog]
  | unwound => exact absurd rfl hp

theorem State.Sound.unwind (h : s.Sound) (hreturned : ∀ result, s.phase ≠ .returned result)
    (hunwound : s.phase ≠ .unwound) : s.unwind.Sound := by
  have hfence := h.known.fence hreturned
  refine dropGuard_sound (fun r hr => ?_) (fun harmed => ⟨?_, fun _ => ?_⟩) fun _ => ⟨hfence, ?_⟩
  · split at hr
    · exact h.registries r hr
    · cases hr
  · simpa using hfence
  · rw [h.armed harmed]
    rfl
  · exact fun hdropped => absurd hdropped (h.known.guard hunwound)

theorem State.Sound.step (h : s.Sound) (hstep : State.Step debug s label t) : t.Sound := by
  cases label with
  | resume => exact h.resume hstep
  | inner result => exact h.inner hstep
  | join =>
    obtain ⟨r, hr, hstep⟩ := Option.bind_eq_some_iff.mp hstep
    obtain ⟨which, hjoins, hstep⟩ := Option.bind_eq_some_iff.mp hstep
    obtain ⟨tasks, hjoin, rfl⟩ := Option.map_eq_some_iff.mp hstep
    exact h.setRegistry hr (joins_shared hjoins)
      (show SessionTasks.Step _ (.join 0) tasks from hjoin)
  | joined =>
    obtain ⟨r, hr, hstep⟩ := Option.bind_eq_some_iff.mp hstep
    obtain ⟨which, hjoins, hstep⟩ := Option.bind_eq_some_iff.mp hstep
    obtain ⟨tasks, hreap, hstep⟩ := Option.bind_eq_some_iff.mp hstep
    obtain ⟨result, hresult, hstep⟩ := Option.bind_eq_some_iff.mp hstep
    have hset := h.setRegistry hr (joins_shared hjoins)
      (show SessionTasks.Step _ .reap tasks from hreap)
    refine hset.receive hjoins rfl ?_ hstep
    rw [Registries.get_set]
    exact Session.SessionTasks.joined_of_lastResult hresult
  | unwind =>
    change (match s.phase with | .returned _ | .unwound => none | _ => some s.unwind) =
      some t at hstep
    split at hstep
    next => cases hstep
    next => cases hstep
    next hreturned hunwound =>
      cases hstep
      exact h.unwind hreturned hunwound
  | registry which label =>
    obtain ⟨r, hr, hstep⟩ := Option.bind_eq_some_iff.mp hstep
    split at hstep
    next hallowed =>
      obtain ⟨tasks, htasks, rfl⟩ := Option.map_eq_some_iff.mp hstep
      exact h.setRegistry hr (Bool.and_eq_true_iff.mp hallowed).1 htasks
    next => cases hstep

/-- What a startup does with the fence: it is released after both joins succeeded and the startup is
given up, retained when one of them failed, and left to the guard only while nothing can run. -/
structure State.Fenced (s : State φ) : Prop where
  released : .fenceReleased ∈ s.log →
    (∃ r, s.registries = some r ∧ r.tasks.Drained ∧ r.completions.Drained) ∧
      ∃ error, s.phase = .returned (.error error)
  retained : ∀ result, .tasksJoined result ∈ s.log ∨ .completionsJoined result ∈ s.log →
    result ≠ .ok () → .fenceReleased ∉ s.log ∧ ∀ final, s.phase = .returned final → final ≠ .ok ()
  guarded : .guardDropped ∈ s.log → s.registries = none

theorem State.Sound.fenced (h : s.Sound) : s.Fenced := by
  have hknown := h.known
  refine ⟨fun hmem => ?_, fun result hjoined hfailed => ?_, fun hmem => ?_⟩
  · cases hphase : s.phase with
    | returned final =>
      rw [hphase] at hknown
      cases final with
      | ok => simp [show s.log = [] from hknown] at hmem
      | error error =>
        obtain ⟨worker, completion, ⟨r, hr, hworker, hcompletion⟩, hlog | ⟨rfl, rfl, _⟩⟩ := hknown
        · simp [hlog, rollbackLog] at hmem
        · have hsound := h.registries r hr
          exact ⟨⟨r, hr, hsound.1.drained hworker, hsound.2.drained hcompletion⟩, error, rfl⟩
    | _ =>
      rw [hphase] at hknown
      exact absurd hmem (hknown.fence nofun)
  · cases hphase : s.phase with
    | returned final =>
      rw [hphase] at hknown
      cases final with
      | ok => simp [show s.log = [] from hknown] at hjoined
      | error error =>
        refine ⟨?_, fun final' heq => ?_⟩
        · obtain ⟨worker, completion, _, hlog | ⟨rfl, rfl, hlog⟩⟩ := hknown
          · simp [hlog, rollbackLog]
          · rw [hlog] at hjoined
            simp [rollbackLog, hfailed] at hjoined
        · cases heq
          exact nofun
    | _ =>
      rw [hphase] at hknown
      exact ⟨hknown.fence nofun, nofun⟩
  · cases hphase : s.phase with
    | unwound =>
      rw [hphase] at hknown
      exact hknown.2 hmem
    | _ =>
      rw [hphase] at hknown
      exact absurd hmem (hknown.guard nofun)

end RgbLightningNode.Shutdown.StartLightning
