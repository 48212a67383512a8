import RgbLightningNode.Concurrency.RwLock
import RgbLightningNode.Error
import RgbLightningNode.Transition.Threads

/-!
# The native external signer

Every operation of the signer goes through `with_state`, which holds a shared guard of the state
lock during the whole backend call. `shutdown` sets a flag that turns later operations away, waits
for the exclusive guard and drops the state under it.
-/

namespace RgbLightningNode.Signer
open Concurrency Transition

/-- The part of the BIP-322 key that the signer's operations read. -/
structure MessageKey where
  address : String
  deriving DecidableEq, Repr

/-- The backend and the transport answer from outside; of the state only the key is data. -/
structure NativeExternalSignerState where
  messageKey : MessageKey
  deriving DecidableEq, Repr

/-- The four operations that go through `with_state`. -/
inductive Operation where
  | bootstrap
  | call (request : List UInt8)
  | messageSigningAddress
  | signMessageBip322 (message address : String)
  deriving DecidableEq, Repr

/-- A successful result; `B` is the bootstrap record handed to the host. -/
inductive Value (B : Type) where
  | bootstrap (data : B)
  | envelope (response : List UInt8)
  | text (value : String)
  deriving DecidableEq, Repr

inductive SignerResponse (B : Type) where
  | bootstrap (data : B)
  | other
  deriving DecidableEq, Repr

/-- What the outside world answers to a suspended step. -/
inductive Answer (B : Type) where
  | ready
  | backend (response : Except String (SignerResponse B))
  | envelope (response : Except String (List UInt8))
  | signature (response : Except String String)
  | panicked

def unavailable : RlnError := .externalSignerUnavailable "native external signer is shut down"

def poisonedState : RlnError :=
  .externalSignerUnavailable "native external signer state is poisoned"

variable {B : Type}

/-- The closure of an operation, given the backend's answer. -/
def Operation.perform (state : NativeExternalSignerState) :
    Operation → Answer B → Option (Except RlnError (Value B))
  | .bootstrap, .backend (.ok (.bootstrap data)) => some (.ok (.bootstrap data))
  | .bootstrap, .backend (.ok .other) =>
    some (.error (.internal "native external signer returned non-bootstrap response"))
  | .bootstrap, .backend (.error e) =>
    some (.error (.internal s!"native external signer bootstrap failed: {e}"))
  | .call _, .envelope (.ok response) => some (.ok (.envelope response))
  | .call _, .envelope (.error e) =>
    some (.error (.internal s!"native external signer envelope failed: {e}"))
  | .messageSigningAddress, .ready => some (.ok (.text state.messageKey.address))
  | .signMessageBip322 _ _, .signature (.ok signature) => some (.ok (.text signature))
  | .signMessageBip322 _ _, .signature (.error e) => some (.error (.invalidRequest e))
  | _, _ => none

inductive Event (B : Type) where
  | observed (i : ℕ)
  | started (i : ℕ)
  | finished (i : ℕ) (result : Except RlnError (Value B))
  | panicked (i : ℕ)
  | dropped (i : ℕ)

/-- The operation an event belongs to. -/
def Event.operation : Event B → Option ℕ
  | .observed i | .started i | .finished i _ | .panicked i => some i
  | .dropped _ => none

structure NativeExternalSigner (B : Type) where
  shuttingDown : Bool
  state : RwLock ℕ (Option NativeExternalSignerState)
  log : List (Event B)

def NativeExternalSigner.record (s : NativeExternalSigner B) (e : Event B) :
    NativeExternalSigner B :=
  { s with log := e :: s.log }

/-- Where a thread stands in `with_state` or in `shutdown`. -/
inductive Control (B : Type) where
  | idle
  | checking (operation : Operation)
  | queued (operation : Operation)
  | acquired (operation : Operation)
  | rechecking (operation : Operation)
  | examining (operation : Operation)
  | executing (operation : Operation) (state : NativeExternalSignerState)
  | releasing (result : Except RlnError (Value B))
  | unwinding
  | returned (result : Except RlnError (Value B))
  | panicked
  | marking
  | closing
  | holding
  | dropping (taken : Option NativeExternalSignerState)
  | clearing
  | unlocking
  | unwindingClose
  | closed
  | panickedClose

inductive Action (B : Type) where
  | withState (operation : Operation)
  | shutdown
  | resume (answer : Answer B)

namespace Control

/-- `with_state`, one step at a time; a panic in the closure unwinds through the shared guard. -/
def withState (i : ℕ) (s : NativeExternalSigner B) :
    Control B → Answer B → Option (NativeExternalSigner B × Control B)
  | .checking operation, .ready =>
    if s.shuttingDown then some (s.record (.observed i), .returned (.error unavailable))
    else some (s, .queued operation)
  | .queued operation, .ready =>
    (s.state.read i).map fun state => ({ s with state }, .acquired operation)
  | .acquired operation, .ready =>
    if s.state.poisoned then some (s, .releasing (.error poisonedState))
    else some (s, .rechecking operation)
  | .rechecking operation, .ready =>
    if s.shuttingDown then some (s.record (.observed i), .releasing (.error unavailable))
    else some (s, .examining operation)
  | .examining operation, .ready =>
    match s.state.content with
    | none => some (s, .releasing (.error unavailable))
    | some state => some (s.record (.started i), .executing operation state)
  | .executing _ _, .panicked => some (s.record (.panicked i), .unwinding)
  | .executing operation state, answer =>
    (operation.perform state answer).map fun result =>
      (s.record (.finished i result), .releasing result)
  | .releasing result, .ready => some ({ s with state := s.state.releaseRead i }, .returned result)
  | .unwinding, .ready => some ({ s with state := s.state.releaseRead i }, .panicked)
  | _, _ => none

/-- `shutdown`; a panic while the state is dropped unwinds through the exclusive guard. -/
def shutdown (i : ℕ) (s : NativeExternalSigner B) :
    Control B → Answer B → Option (NativeExternalSigner B × Control B)
  | .marking, .ready => some ({ s with shuttingDown := true }, .closing)
  -- A poisoned lock is entered like a sound one.
  | .closing, .ready => (s.state.write i).map fun state => ({ s with state }, .holding)
  | .holding, .ready => some ({ s with state := s.state.put none }, .dropping s.state.content)
  | .dropping none, .ready => some (s, .clearing)
  | .dropping (some _), .ready => some (s.record (.dropped i), .clearing)
  | .dropping (some _), .panicked => some (s.record (.dropped i), .unwindingClose)
  | .clearing, .ready => some ({ s with state := s.state.clearPoison }, .unlocking)
  | .unlocking, .ready => some ({ s with state := s.state.releaseWrite false }, .closed)
  | .unwindingClose, .ready =>
    some ({ s with state := s.state.releaseWrite true }, .panickedClose)
  | _, _ => none

def next (i : ℕ) (action : Action B) (s : NativeExternalSigner B) :
    Control B → Option (NativeExternalSigner B × Control B)
  | .idle =>
    match action with
    | .withState operation => some (s, .checking operation)
    | .shutdown => some (s, .marking)
    | .resume _ => none
  | c =>
    match action with
    | .resume answer => (c.withState i s answer).orElse fun _ => c.shutdown i s answer
    | _ => none

end Control

/-- A panic elsewhere under an exclusive guard that leaves the state in place. -/
inductive Environment where
  | poison

def Environment.apply (s : NativeExternalSigner B) :
    Environment → Option (NativeExternalSigner B)
  | .poison =>
    if s.state.writer = none ∧ s.state.readers = ∅ then some { s with state := s.state.poison }
    else none

abbrev System (B : Type) := Threads ℕ (NativeExternalSigner B) (Control B)

def program (B : Type) : Program ℕ (NativeExternalSigner B) (Control B) (Action B) Environment where
  next i action s c := c.next i action s
  environment event s := event.apply s

/-- `from_backend`: a signer that nobody has called yet. -/
def fromBackend (state : NativeExternalSignerState) : System B where
  shared := ⟨false, .new (some state), []⟩
  control _ := .idle

end RgbLightningNode.Signer
