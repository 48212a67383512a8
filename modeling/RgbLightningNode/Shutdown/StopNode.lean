import RgbLightningNode.Error
import RgbLightningNode.Transition.Threads

/-!
# Stopping a node

`stop_node` takes the session owners out of the application state and tears them down. A REST lock
calls it and keeps the database for the next unlock; `NodeHandle::shutdown` first cancels the token,
which makes the teardown terminal. The steps follow the points at which `stop_node` can be
suspended, so that a cancellation may arrive between any two of them.
-/

namespace RgbLightningNode.Shutdown
open Transition

structure LightningServices where
  backgroundProcessor : Bool
  deriving DecidableEq, Repr

/-- The wallet's common VSS persistence and its monitor store. -/
structure CommonPersistence where
  monitorStore : Bool
  deriving DecidableEq, Repr

structure UnlockedState where
  lightning : Bool
  common : Option CommonPersistence
  deriving DecidableEq, Repr

/-- Both session owners, as an unlock publishes them. -/
structure Session where
  lightning : Option LightningServices
  unlocked : Option UnlockedState
  deriving DecidableEq, Repr

inductive BpExit where
  | finished
  | failed (error : String)
  | panicked (error : String)
  deriving DecidableEq, Repr

def logBpShutdownResult : BpExit → Option String
  | .finished => none
  | .failed error => some error
  | .panicked error => some error

/-- How `close_by_ref` on the database runtime ends; a failed close may still have closed. -/
inductive PoolClose where
  | closed
  | failed (error : String) (closed : Bool)
  | taskFailed (error : String) (closed : Bool)
  deriving DecidableEq, Repr

def PoolClose.error? : PoolClose → Option String
  | .closed => none
  | .failed error _ => some s!"database pool close failed: {error}"
  | .taskFailed error _ => some s!"database pool close task failed: {error}"

def PoolClose.isClosed : PoolClose → Bool
  | .closed => true
  | .failed _ done => done
  | .taskFailed _ done => done

/-- The order in which teardown work was done; `i` is the `stop_node` execution. -/
inductive Event where
  | ownersRemoved (i : ℕ)
  | tasksJoined (i : ℕ) (result : Except String Unit)
  | backgroundExited (i : ℕ) (exit : BpExit)
  | monitorStoreStopped (i : ℕ)
  | vssStoresStopped (i : ℕ)
  | completionsJoined (i : ℕ) (result : Except String Unit)
  | fenceReleased (i : ℕ)
  | fenceRetained (i : ℕ)

inductive LockOwner where
  | call (i : ℕ)
  | environment
  deriving DecidableEq, Repr

structure AppState where
  cancelled : Bool
  attachedSigner : Option LockOwner
  changingState : Bool
  teardown : Option ℕ
  teardownOutcome : Option (Except String Unit)
  session : Session
  poolClosed : Bool
  log : List Event

def AppState.record (s : AppState) (e : Event) : AppState := { s with log := e :: s.log }

/-- The local variables of a `stop_node` execution after it took the session owners. -/
structure Teardown where
  lightning : Option LightningServices
  unlocked : Option UnlockedState
  cleanupErrors : List String
  pendingFenceRelease : Bool
  deriving DecidableEq, Repr

namespace Teardown

def take (session : Session) : Teardown := ⟨session.lightning, session.unlocked, [], false⟩

def push (t : Teardown) (error : String) : Teardown :=
  { t with cleanupErrors := t.cleanupErrors ++ [error] }

def note (t : Teardown) : Option String → Teardown
  | none => t
  | some error => t.push error

def noteResult (t : Teardown) : Except String Unit → Teardown
  | .ok () => t
  | .error error => t.push error

def background (t : Teardown) : Bool := t.lightning.any (·.backgroundProcessor)

def common (t : Teardown) : Option CommonPersistence := t.unlocked.bind (·.common)

/-- Weak references to the managers exist when both owners had a Lightning part. -/
def managers (t : Teardown) : Bool := t.lightning.isSome && t.unlocked.any (·.lightning)

def dropOwners (t : Teardown) : Teardown := { t with lightning := none, unlocked := none }

def outcome (t : Teardown) : Except String Unit :=
  if t.cleanupErrors.isEmpty then .ok ()
  else .error ("session teardown failed: " ++ "; ".intercalate t.cleanupErrors)

end Teardown

/-- What a suspended step of a call is resumed with. -/
inductive Answer where
  | ready
  | joined (result : Except String Unit)
  | exited (exit : BpExit)
  | timedOut
  | retained (peer channel : ℕ)
  | pool (close : PoolClose)

/-- Where a `stop_node` execution stands. -/
inductive Phase where
  | lock
  | cached
  | owners
  | tasks (t : Teardown)
  | background (t : Teardown)
  | aborting (t : Teardown)
  | stores (t : Teardown)
  | completions (t : Teardown)
  | managers (t : Teardown)
  | fence (t : Teardown)
  | database (t : Teardown)
  | closing (t : Teardown)
  | caching (t : Teardown)
  | leaving (outcome : Except String Unit)
  | returned (result : Except APIError Unit)

namespace Phase

def next (i : ℕ) (s : AppState) : Phase → Answer → Option (AppState × Phase)
  | .lock, .ready =>
    if s.teardown = none then some ({ s with teardown := some i }, .cached) else none
  | .cached, .ready =>
    match s.cancelled, s.teardownOutcome with
    | true, some outcome => some (s, .leaving outcome)
    | _, _ => some (s, .owners)
  -- Closing the worker registry is part of taking the Lightning owner.
  | .owners, .ready =>
    some ({ s with session := ⟨none, none⟩ }.record (.ownersRemoved i), .tasks (.take s.session))
  | .tasks t, answer =>
    match t.lightning, answer with
    | none, .ready => some (s, .background t)
    | some _, .joined result =>
      some (s.record (.tasksJoined i result), .background (t.noteResult result))
    | _, _ => none
  | .background t, answer =>
    match t.background, answer with
    | false, .ready => some (s, .stores t)
    | true, .exited exit =>
      some (s.record (.backgroundExited i exit), .stores (t.note (logBpShutdownResult exit)))
    | true, .timedOut =>
      if t.common.any (·.monitorStore) then some (s.record (.monitorStoreStopped i), .aborting t)
      else some (s, .aborting t)
    | _, _ => none
  | .aborting t, .exited exit =>
    some (s.record (.backgroundExited i exit), .stores (t.note (logBpShutdownResult exit)))
  | .stores t, .ready =>
    if t.common.isSome then
      some (s.record (.vssStoresStopped i), .completions { t with pendingFenceRelease := true })
    else some (s, .completions t)
  | .completions t, answer =>
    match t.lightning, answer with
    | none, .ready => some (s, .managers t)
    | some _, .joined result =>
      some (s.record (.completionsJoined i result), .managers (t.noteResult result))
    | _, _ => none
  | .managers t, answer =>
    match t.managers, answer with
    | _, .ready => some (s, .fence t.dropOwners)
    | true, .retained peer channel =>
      some (s, .fence (t.dropOwners.push
        s!"session managers retained after teardown (peer={peer}, channel={channel})"))
    | _, _ => none
  | .fence t, .ready =>
    if t.pendingFenceRelease then
      if t.cleanupErrors.isEmpty then some (s.record (.fenceReleased i), .database t)
      else some (s.record (.fenceRetained i), .database t)
    else some (s, .database t)
  | .database t, .ready => if s.cancelled then some (s, .closing t) else some (s, .caching t)
  | .closing t, .pool close =>
    some ({ s with poolClosed := s.poolClosed || close.isClosed }, .caching (t.note close.error?))
  | .caching t, .ready =>
    if s.cancelled then some ({ s with teardownOutcome := some t.outcome }, .leaving t.outcome)
    else some (s, .leaving t.outcome)
  | .leaving outcome, .ready =>
    some ({ s with teardown := none }, .returned (outcome.mapError .unexpected))
  | _, _ => none

/-- The executions that hold the teardown mutex. -/
def Inside : Phase → Prop
  | .lock | .returned _ => False
  | _ => True

/-- The executions between the two reads of the token, or about to read it. -/
def Working : Phase → Prop
  | .lock | .cached | .owners | .closing _ | .caching _ | .leaving _ | .returned _ => False
  | _ => True

end Phase

inductive Call where
  | idle
  | marking
  | cancelling
  | waiting
  | stopping (terminal : Bool) (phase : Phase)

inductive Action where
  | shutdown
  | stopNode
  | resume (answer : Answer)

namespace Call

/-- A call starts as `NodeHandle::shutdown` or as a nonterminal `stop_node` and is then resumed. -/
def next (i : ℕ) (action : Action) (s : AppState) : Call → Option (AppState × Call)
  | .idle =>
    match action with
    | .shutdown => some (s, .marking)
    | .stopNode => some (s, .stopping false .lock)
    | .resume _ => none
  | .marking =>
    match action with
    | .resume .ready =>
      if s.attachedSigner = none then
        some ({ s with attachedSigner := some (.call i) }, .cancelling)
      else none
    | _ => none
  | .cancelling =>
    match action with
    | .resume .ready => some ({ s with cancelled := true, attachedSigner := none }, .waiting)
    | _ => none
  | .waiting =>
    match action with
    | .resume .ready =>
      if s.changingState then some (s, .waiting) else some (s, .stopping true .lock)
    | _ => none
  | .stopping terminal phase =>
    match action with
    | .resume answer => (phase.next i s answer).map fun r => (r.1, .stopping terminal r.2)
    | _ => none

end Call

/-- What the rest of the node does to the shared state meanwhile. -/
inductive Environment where
  | publish (session : Session)
  | changingState (value : Bool)
  | lockAttachedSigner
  | unlockAttachedSigner

def Environment.apply : Environment → AppState → Option AppState
  | .publish session, s => some { s with session }
  | .changingState value, s => some { s with changingState := value }
  | .lockAttachedSigner, s =>
    if s.attachedSigner = none then some { s with attachedSigner := some .environment } else none
  | .unlockAttachedSigner, s =>
    if s.attachedSigner = some .environment then some { s with attachedSigner := none } else none

abbrev System := Threads ℕ AppState Call

abbrev Label := Move ℕ Action Environment

def program : Program ℕ AppState Call Action Environment where
  next i action s call := call.next i action s
  environment event s := event.apply s

/-- A node on which no call was made yet. -/
structure Fresh (s : System) : Prop where
  cancelled : s.shared.cancelled = false
  teardown : s.shared.teardown = none
  teardownOutcome : s.shared.teardownOutcome = none
  poolClosed : s.shared.poolClosed = false
  control : ∀ i, s.control i = .idle

end RgbLightningNode.Shutdown
