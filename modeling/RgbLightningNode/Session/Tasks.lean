import RgbLightningNode.Transition.Trace

/-!
# The workers of a session

`SessionTasks` owns the handle of every worker it spawned until it has seen how the worker ended.
A spawn looks at the older handles while it holds the lock of the registry; a join takes the handles
out of the registry and waits for them without the lock. Any number of callers may be at it at once,
workers among them, and workers end at any time.
-/

namespace RgbLightningNode.Session
open Transition

/-- How far a worker has come; a panic is known by the text of its join error. -/
inductive Progress where
  | running
  | finished
  | panicked (error : String)
  deriving DecidableEq, Repr

/-- A future that the runtime executes. Its handle is its place in the list of all of them. -/
structure Task (φ : Type) where
  future : φ
  progress : Progress
  deriving DecidableEq, Repr

structure SessionTaskRegistry where
  closed : Bool
  handles : List ℕ
  failures : List String
  deriving DecidableEq, Repr

/-- The local variables of the `spawn` that holds the lock. -/
structure Reaping (ι φ : Type) where
  caller : ι
  future : φ
  todo : List ℕ
  pending : List ℕ
  deriving DecidableEq, Repr

/-- Where the `join` in progress stands, with its local variables. -/
inductive Joining (ι : Type) where
  | closing (caller : ι)
  | taking (caller : ι)
  | draining (caller : ι) (handles : List ℕ) (failures : List String)
  deriving DecidableEq, Repr

/-- What has been done, by whom. A future that was not accepted goes back to its caller. -/
inductive Event (ι φ : Type) where
  | accepted (caller : ι) (future : φ)
  | rejected (caller : ι) (future : φ)
  | recorded (failure : String)
  | closed (caller : ι)
  | returned (caller : ι) (failures : List String) (result : Except String Unit)
  deriving DecidableEq

variable {ι φ : Type}

structure SessionTasks (ι φ : Type) where
  shutdown : Bool
  registry : SessionTaskRegistry
  /-- The `spawn` that holds the lock between two of its steps. -/
  lock : Option (Reaping ι φ)
  /-- The callers of `close` that have not cancelled the token yet. -/
  cancelling : List ι
  joining : Option (Joining ι)
  tasks : List (Task φ)
  log : List (Event ι φ)

inductive Label (ι φ : Type) where
  | spawn (caller : ι) (future : φ)
  | examine (ready : Bool)
  | register
  | recordFailure (failure : String)
  | close (caller : ι)
  | cancel (caller : ι)
  | join (caller : ι)
  | take
  | await
  | reap
  | finish (handle : ℕ) (progress : Progress)

def joinResult (failures : List String) : Except String Unit :=
  if failures.isEmpty then .ok () else .error ("; ".intercalate failures)

namespace SessionTasks

def record (s : SessionTasks ι φ) (e : Event ι φ) : SessionTasks ι φ := { s with log := e :: s.log }

def progress (s : SessionTasks ι φ) (handle : ℕ) : Option Progress :=
  s.tasks[handle]?.map (·.progress)

/-- The failures after the handle of a worker was polled to its end. -/
def note (failures : List String) : Progress → Option (List String)
  | .running => none
  | .finished => some failures
  | .panicked error => some (failures ++ [error])

/-- The first part of a `spawn`, up to its loop over the older handles. -/
def spawn (s : SessionTasks ι φ) (caller : ι) (future : φ) : Option (SessionTasks ι φ) :=
  if s.lock.isSome then none
  else if s.registry.closed then some (s.record (.rejected caller future))
  else some { s with
    registry := { s.registry with handles := [] }
    lock := some ⟨caller, future, s.registry.handles, []⟩ }

/-- A handle whose worker has ended may still be polled before its turn and stays pending then. -/
def examine (s : SessionTasks ι φ) (ready : Bool) : Option (SessionTasks ι φ) :=
  match s.lock with
  | some ⟨caller, future, handle :: todo, pending⟩ =>
    if ready then
      ((s.progress handle).bind (note s.registry.failures)).map fun failures => { s with
        registry := { s.registry with failures }
        lock := some (.mk caller future todo pending) }
    else some { s with lock := some ⟨caller, future, todo, pending ++ [handle]⟩ }
  | _ => none

/-- The last part of a `spawn`. -/
def register (s : SessionTasks ι φ) : Option (SessionTasks ι φ) :=
  match s.lock with
  | some ⟨caller, future, [], pending⟩ => some ({ s with
      registry := { s.registry with handles := pending ++ [s.tasks.length] }
      lock := none
      tasks := s.tasks ++ [Task.mk future .running] }.record (.accepted caller future))
  | _ => none

def recordFailure (s : SessionTasks ι φ) (failure : String) : Option (SessionTasks ι φ) :=
  if s.lock.isSome then none
  else some ({ s with
    registry := { s.registry with failures := s.registry.failures ++ [failure] } }.record
      (.recorded failure))

def setClosed (s : SessionTasks ι φ) (caller : ι) : Option (SessionTasks ι φ) :=
  if s.lock.isSome then none
  else some ({ s with registry := { s.registry with closed := true } }.record (.closed caller))

def close (s : SessionTasks ι φ) (caller : ι) : Option (SessionTasks ι φ) :=
  (s.setClosed caller).map fun s => { s with cancelling := caller :: s.cancelling }

/-- One join is in progress at a time. -/
def join (s : SessionTasks ι φ) (caller : ι) : Option (SessionTasks ι φ) :=
  if s.joining.isSome then none
  else (s.setClosed caller).map fun s => { s with joining := some (.closing caller) }

def take (s : SessionTasks ι φ) : Option (SessionTasks ι φ) :=
  match s.joining with
  | some (.taking caller) =>
    if s.lock.isSome then none
    else some { s with
      registry := { s.registry with handles := [], failures := [] }
      joining := some (.draining caller s.registry.handles s.registry.failures) }
  | _ => none

def await (s : SessionTasks ι φ) : Option (SessionTasks ι φ) :=
  match s.joining with
  | some (.draining caller (handle :: handles) failures) =>
    ((s.progress handle).bind (note failures)).map fun failures =>
      { s with joining := some (.draining caller handles failures) }
  | _ => none

def reap (s : SessionTasks ι φ) : Option (SessionTasks ι φ) :=
  match s.joining with
  | some (.draining caller [] failures) =>
    if s.lock.isSome then none
    else
      let failures := failures ++ s.registry.failures
      some ({ s with
        registry := { s.registry with failures := [] }
        joining := none }.record (.returned caller failures (joinResult failures)))
  | _ => none

def finish (s : SessionTasks ι φ) (handle : ℕ) (progress : Progress) : Option (SessionTasks ι φ) :=
  match s.tasks[handle]? with
  | some ⟨future, .running⟩ =>
    if progress = .running then none
    else some { s with tasks := s.tasks.set handle ⟨future, progress⟩ }
  | _ => none

variable [DecidableEq ι]

def cancel (s : SessionTasks ι φ) (caller : ι) : Option (SessionTasks ι φ) :=
  if caller ∈ s.cancelling then
    some { s with shutdown := true, cancelling := s.cancelling.erase caller }
  else if s.joining = some (.closing caller) then
    some { s with shutdown := true, joining := some (.taking caller) }
  else none

def step (s : SessionTasks ι φ) : Label ι φ → Option (SessionTasks ι φ)
  | .spawn caller future => s.spawn caller future
  | .examine ready => s.examine ready
  | .register => s.register
  | .recordFailure failure => s.recordFailure failure
  | .close caller => s.close caller
  | .cancel caller => s.cancel caller
  | .join caller => s.join caller
  | .take => s.take
  | .await => s.await
  | .reap => s.reap
  | .finish handle progress => s.finish handle progress

def Step (s : SessionTasks ι φ) (label : Label ι φ) (t : SessionTasks ι φ) : Prop :=
  s.step label = some t

def run (s : SessionTasks ι φ) : List (Label ι φ) → Option (SessionTasks ι φ)
  | [] => some s
  | label :: labels => (s.step label).bind fun t => run t labels

theorem trace_of_run {s t : SessionTasks ι φ} {labels : List (Label ι φ)}
    (h : s.run labels = some t) : Trace Step s labels t := by
  induction labels generalizing s with
  | nil =>
    obtain rfl : s = t := by simpa [run] using h
    exact .nil
  | cons label labels ih =>
    obtain ⟨u, hstep, hrun⟩ := Option.bind_eq_some_iff.mp h
    exact (Trace.single hstep).append (ih hrun)

end SessionTasks

/-- No worker and no call yet. -/
def SessionTasks.new : SessionTasks ι φ where
  shutdown := false
  registry := ⟨false, [], []⟩
  lock := none
  cancelling := []
  joining := none
  tasks := []
  log := []

end RgbLightningNode.Session
