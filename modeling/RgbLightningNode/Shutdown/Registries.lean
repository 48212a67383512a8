import RgbLightningNode.Session.Draining
import RgbLightningNode.Shutdown.StopNode

/-!
# Stopping a node with its workers

Every execution of `stop_node` that finds a Lightning runtime joins two registries of workers: the
session's tasks before the background processor is told to leave, and the completions, which the
processor still fills, after it has gone. Here the steps of `stop_node` are taken together with the
steps of the registries of the session it took over.
-/

namespace RgbLightningNode.Session

/-- The steps that callers other than the owner of a registry and its workers take, and the waiting
of a join that has begun. -/
def Label.outside {ι φ : Type} : Label ι φ → Bool
  | .close _ | .join _ | .reap => false
  | _ => true

/-- The result of the join that has just returned. -/
def SessionTasks.lastResult {ι φ : Type} (s : SessionTasks ι φ) : Option (Except String Unit) :=
  match s.log with
  | .returned _ _ result :: _ => some result
  | _ => none

/-- A weak reference to a registry spawns as long as the registry is there. A refusal is dropped. -/
def TokioFutureSpawner.spawn {ι φ : Type} (tasks : Option (SessionTasks ι φ)) (caller : ι)
    (future : φ) : Option (Option (SessionTasks ι φ)) :=
  match tasks with
  | some tasks => (tasks.spawn caller future).map some
  | none => some none

namespace SessionTasks

variable {ι φ : Type} {s t : SessionTasks ι φ} {label : Label ι φ}

/-- Whatever happens, the log only grows. -/
theorem Effect.log_suffix (h : Effect s t) : s.log <:+ t.log := by
  cases h with
  | internal _ _ _ log _ => exact log ▸ List.suffix_rfl
  | settle _ _ _ _ _ log _ => exact log ▸ List.suffix_rfl
  | accept _ _ _ _ _ _ log _ => exact log ▸ List.suffix_cons _ _
  | reject _ _ _ _ _ log _ => exact log ▸ List.suffix_cons _ _
  | record _ _ _ _ log _ => exact log ▸ List.suffix_cons _ _
  | close _ _ _ _ log _ => exact log ▸ List.suffix_cons _ _
  | «return» _ _ _ _ _ _ _ log _ _ => exact log ▸ List.suffix_cons _ _
  | finish _ _ _ _ _ _ _ _ log _ => exact log ▸ List.suffix_rfl

theorem Effect.closed_mono (h : Effect s t) (hclosed : s.registry.closed = true) :
    t.registry.closed = true := by
  cases h with
  | internal _ _ _ _ closed => exact closed.trans hclosed
  | settle _ _ _ _ _ _ closed => exact closed.trans hclosed
  | accept _ _ before => exact absurd (before.symm.trans hclosed) (by simp)
  | reject _ _ _ _ _ _ closed => exact closed
  | record _ _ _ _ _ closed => exact closed.trans hclosed
  | close _ _ _ _ _ closed => exact closed
  | «return» _ _ _ _ _ _ _ _ _ closed => exact closed
  | finish _ _ _ _ _ _ _ _ _ closed => exact closed.trans hclosed

variable [DecidableEq ι]

/-- Nobody but its owner closes a registry. -/
theorem outside_closed (hstep : Step s label t) (houtside : label.outside = true) :
    t.registry.closed = s.registry.closed := by
  cases label with
  | spawn caller future =>
    change s.spawn caller future = some t at hstep
    unfold spawn at hstep
    split at hstep
    · cases hstep
    · split at hstep <;> cases hstep <;> rfl
  | examine ready =>
    change s.examine ready = some t at hstep
    unfold examine at hstep
    split at hstep
    · split at hstep
      · obtain ⟨failures, _, rfl⟩ := Option.map_eq_some_iff.mp hstep
        rfl
      · cases hstep
        rfl
    · cases hstep
  | register =>
    change s.register = some t at hstep
    unfold register at hstep
    split at hstep <;> cases hstep
    rfl
  | recordFailure failure =>
    change s.recordFailure failure = some t at hstep
    unfold recordFailure at hstep
    split at hstep <;> cases hstep
    rfl
  | close caller => cases houtside
  | cancel caller =>
    change s.cancel caller = some t at hstep
    unfold cancel at hstep
    split at hstep
    · cases hstep
      rfl
    · split at hstep <;> cases hstep
      rfl
  | join caller => cases houtside
  | take =>
    change s.take = some t at hstep
    unfold take at hstep
    split at hstep
    · split at hstep <;> cases hstep
      rfl
    · cases hstep
  | await =>
    change s.await = some t at hstep
    unfold await at hstep
    split at hstep
    · obtain ⟨failures, _, rfl⟩ := Option.map_eq_some_iff.mp hstep
      rfl
    · cases hstep
  | reap => cases houtside
  | finish handle progress =>
    change s.finish handle progress = some t at hstep
    unfold finish at hstep
    split at hstep
    · split at hstep <;> cases hstep
      rfl
    · cases hstep

/-- A join of the registry has returned with this result. -/
def Joined (s : SessionTasks ι φ) (result : Except String Unit) : Prop :=
  ∃ caller failures, .returned caller failures result ∈ s.log

omit [DecidableEq ι] in
theorem Joined.mono {result : Except String Unit} (h : s.Joined result) (hlog : s.log <:+ t.log) :
    t.Joined result := by
  obtain ⟨caller, failures, hmem⟩ := h
  exact ⟨caller, failures, hlog.subset hmem⟩

omit [DecidableEq ι] in
theorem joined_of_lastResult {result : Except String Unit} (h : s.lastResult = some result) :
    s.Joined result := by
  unfold lastResult at h
  split at h
  next caller failures _ _ hlog =>
    cases h
    exact ⟨caller, failures, hlog ▸ List.mem_cons_self⟩
  next => cases h

/-- A registry without failures that is closed and whose workers have all ended. -/
structure Drained (s : SessionTasks ι φ) : Prop where
  closed : s.registry.closed = true
  joined : s.Joined (.ok ())
  ended : Ended s.tasks

omit [DecidableEq ι] in
/-- After a join no worker is ever running again. -/
theorem Sound.drained (h : s.Sound) (hjoined : s.Joined (.ok ())) : s.Drained := by
  obtain ⟨caller, failures, hmem⟩ := hjoined
  obtain ⟨later, rest, hlog⟩ := List.append_of_mem hmem
  exact ⟨h.reported.closed _ hmem trivial, ⟨caller, failures, hmem⟩,
    (h.reported.joins later caller failures _ rest hlog).1⟩

end SessionTasks

end RgbLightningNode.Session

namespace RgbLightningNode.Shutdown
open Transition
open RgbLightningNode.Session (SessionTasks)

variable {φ : Type}

/-- The registries of one Lightning runtime. -/
structure Registries (φ : Type) where
  tasks : SessionTasks ℕ φ
  completions : SessionTasks ℕ φ

inductive Registry where
  | tasks
  | completions
  deriving DecidableEq, Repr

namespace Registries

def get (r : Registries φ) : Registry → SessionTasks ℕ φ
  | .tasks => r.tasks
  | .completions => r.completions

def set (r : Registries φ) : Registry → SessionTasks ℕ φ → Registries φ
  | .tasks, tasks => { r with tasks }
  | .completions, completions => { r with completions }

variable {r : Registries φ} {which : Registry} {tasks : SessionTasks ℕ φ}

theorem sound_get (h : r.tasks.Sound ∧ r.completions.Sound) (which : Registry) :
    (r.get which).Sound := by
  cases which with
  | tasks => exact h.1
  | completions => exact h.2

theorem sound_set (h : r.tasks.Sound ∧ r.completions.Sound) (htasks : tasks.Sound) :
    (r.set which tasks).tasks.Sound ∧ (r.set which tasks).completions.Sound := by
  cases which with
  | tasks => exact ⟨htasks, h.2⟩
  | completions => exact ⟨h.1, htasks⟩

theorem set_suffix (hlog : (r.get which).log <:+ tasks.log) :
    r.tasks.log <:+ (r.set which tasks).tasks.log ∧
      r.completions.log <:+ (r.set which tasks).completions.log := by
  cases which with
  | tasks => exact ⟨hlog, List.suffix_rfl⟩
  | completions => exact ⟨List.suffix_rfl, hlog⟩

theorem get_set : (r.set which tasks).get which = tasks := by
  cases which <;> rfl

end Registries

/-- The registry whose join a phase waits for. -/
def Phase.joins : Phase → Option Registry
  | .tasks t => if t.lightning.isSome then some .tasks else none
  | .completions t => if t.lightning.isSome then some .completions else none
  | _ => none

def Call.phase : Call → Option Phase
  | .stopping _ phase => some phase
  | _ => none

/-- The system with, for each execution of `stop_node`, the session it took over and the registries
of that session's Lightning runtime. -/
structure Node (φ : Type) where
  system : System
  taken : ℕ → Option Session
  registries : ℕ → Registries φ

inductive NodeLabel (φ : Type) where
  | node (label : Label)
  | join (i : ℕ)
  | joined (i : ℕ)
  | registry (i : ℕ) (which : Registry) (label : Session.Label ℕ φ)

namespace Node

def joins (s : Node φ) (i : ℕ) : Option Registry := (s.system.control i).phase.bind Phase.joins

def registry (s : Node φ) (i : ℕ) (which : Registry) : SessionTasks ℕ φ :=
  (s.registries i).get which

def setRegistry (s : Node φ) (i : ℕ) (which : Registry) (r : SessionTasks ℕ φ) : Node φ :=
  { s with registries := Function.update s.registries i ((s.registries i).set which r) }

def advance (s : Node φ) (label : Label) : Option (Node φ) :=
  (program.step s.system label).map fun system => { s with system }

/-- Taking the owners closes the tasks of the Lightning runtime, if there is one. -/
def takeOwners (s : Node φ) (i : ℕ) : Option (Node φ) :=
  let session := s.system.shared.session
  let s := { s with taken := Function.update s.taken i (some session) }
  if session.lightning.isSome then
    ((s.registry i .tasks).close i).bind fun r =>
      (s.setRegistry i .tasks r).advance (.thread i (.resume .ready))
  else s.advance (.thread i (.resume .ready))

def step (s : Node φ) : NodeLabel φ → Option (Node φ)
  | .node (.thread i (.resume answer)) =>
    match s.system.control i, answer with
    | .stopping _ .owners, .ready => s.takeOwners i
    | _, .joined _ => none
    | _, _ => s.advance (.thread i (.resume answer))
  | .node label => s.advance label
  | .join i => (s.joins i).bind fun which =>
    ((s.registry i which).join i).map (s.setRegistry i which)
  | .joined i => (s.joins i).bind fun which =>
    (s.registry i which).reap.bind fun r => r.lastResult.bind fun result =>
      (s.setRegistry i which r).advance (.thread i (.resume (.joined result)))
  | .registry i which label =>
    if label.outside then ((s.registry i which).step label).map (s.setRegistry i which) else none

def Step (s : Node φ) (label : NodeLabel φ) (t : Node φ) : Prop := s.step label = some t

def run (s : Node φ) : List (NodeLabel φ) → Option (Node φ)
  | [] => some s
  | label :: labels => (s.step label).bind fun t => run t labels

theorem trace_of_run {s t : Node φ} {labels : List (NodeLabel φ)} (h : s.run labels = some t) :
    Trace Step s labels t := by
  induction labels generalizing s with
  | nil =>
    obtain rfl : s = t := by simpa [run] using h
    exact .nil
  | cons label labels ih =>
    obtain ⟨u, hstep, hrun⟩ := Option.bind_eq_some_iff.mp h
    exact (Trace.single hstep).append (ih hrun)

/-- No call was made, and no worker of any session was spawned yet. -/
structure Fresh (s : Node φ) : Prop where
  log : s.system.shared.log = []
  control : ∀ i, s.system.control i = .idle
  taken : ∀ i, s.taken i = none
  registries : ∀ i, s.registries i = ⟨.new, .new⟩

end Node

end RgbLightningNode.Shutdown
