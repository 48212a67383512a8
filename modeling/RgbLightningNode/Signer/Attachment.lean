import RgbLightningNode.Error
import RgbLightningNode.Transition.Threads

/-!
# Attaching a signer

An attachment is made from what the host of a signer reports. The bootstrap of the host runs without
the lock of the attachment and may take any time. A native signer is attached like any other and is
then bound, under a second lock of its own, for the signing of messages. Attachments, detachments
and shutdowns of any number of callers are interleaved.
-/

namespace RgbLightningNode.Signer.Attachment
open Transition

variable {S H U K B I : Type}

/-- What the signer module says about its records. A native signer reports a record of type `U`, a
transport one of type `B`; a caller expects a key source of type `K`. -/
structure Bootstraps (U K B I : Type) where
  keySourceFromUniffiBootstrap : U → K
  keySourceIdentity : K → I
  bootstrapIdentity : B → I
  mapApiError : APIError → RlnError

/-- A key source matches a bootstrap when their identity fields are equal. -/
def Bootstraps.validateKeySourceMatchesBootstrap [DecidableEq I] (f : Bootstraps U K B I)
    (expected : K) (bootstrap : B) : Bool :=
  f.keySourceIdentity expected = f.bootstrapIdentity bootstrap

inductive ExternalSignerHost (S H : Type) where
  | native (signer : S)
  | generic (host : H)

structure ExternalSignerAttachment (S H B : Type) where
  bootstrap : B
  transport : ExternalSignerHost S H
  messageSigner : Option S

/-- `attach_external_signer_transport`, once the transport has answered. -/
def attachExternalSignerTransport (transport : ExternalSignerHost S H) (bootstrap : B) :
    ExternalSignerAttachment S H B :=
  ⟨bootstrap, transport, none⟩

inductive Event (S H U K B : Type) where
  | attaching (i : ℕ) (host : ExternalSignerHost S H) (expected : K)
  | reported (signer : S) (bootstrap : U)
  | published (i : ℕ) (attachment : ExternalSignerAttachment S H B) (expected : K)
  | bound (i : ℕ) (signer : S)
  | detached (i : ℕ)
  | cancelled (i : ℕ)

structure AppState (S H U K B : Type) where
  cancelled : Bool
  /-- The holder of the lock of the attachment. -/
  lock : Option ℕ
  attached : Option (ExternalSignerAttachment S H B)
  log : List (Event S H U K B)

def AppState.record (s : AppState S H U K B) (e : Event S H U K B) : AppState S H U K B :=
  { s with log := e :: s.log }

/-- Where a caller stands. From `rechecking` to `unlocking`, from `bindChecking` to `unwinding` and
in `detaching` and `cancelling` it holds the lock. -/
inductive Control (S H U K B : Type) where
  | idle
  | learning (signer : S)
  | checking (host : ExternalSignerHost S H) (expected : K)
  | bootstrapping (host : ExternalSignerHost S H) (expected : K)
  | locking (host : ExternalSignerHost S H) (expected : K) (bootstrap : B)
  | rechecking (host : ExternalSignerHost S H) (expected : K) (bootstrap : B)
  | publishing (host : ExternalSignerHost S H) (expected : K) (bootstrap : B)
  | unlocking (host : ExternalSignerHost S H)
  | relocking (signer : S)
  | bindChecking (signer : S)
  | examining (signer : S)
  | reporting (signer : S)
  | validating (signer : S) (bootstrap : U)
  | binding (signer : S)
  | leaving (result : Except RlnError Unit)
  | unwinding
  | detachLocking
  | detaching
  | marking
  | cancelling
  | returned (result : Except RlnError Unit)
  | panicked

/-- What the outside world answers to a suspended step. -/
inductive Answer (U B : Type) where
  | ready
  | bootstrap (response : Except RlnError U)
  | transport (response : Except APIError B)
  | panicked

inductive Action (S H U K B : Type) where
  | attachHost (host : H) (expected : K)
  | attachNative (signer : S)
  | detach
  | shutdown
  | resume (answer : Answer U B)

def shutDown : RlnError := .notInitialized "node is shut down"

def AppState.acquire (s : AppState S H U K B) (i : ℕ) : Option (AppState S H U K B) :=
  if s.lock = none then some { s with lock := some i } else none

namespace Control

variable [DecidableEq I] (f : Bootstraps U K B I)

/-- `attach_host_with_expected_key_source`, one step at a time. -/
def attachHost (i : ℕ) (s : AppState S H U K B) :
    Control S H U K B → Answer U B → Option (AppState S H U K B × Control S H U K B)
  | .checking host expected, .ready =>
    if s.cancelled then some (s, .returned (.error shutDown))
    else some (s, .bootstrapping host expected)
  | .bootstrapping host expected, .transport (.ok bootstrap) =>
    if f.validateKeySourceMatchesBootstrap expected bootstrap then
      some (s, .locking host expected bootstrap)
    else some (s, .returned (.error (f.mapApiError .externalSignerMismatch)))
  | .bootstrapping _ _, .transport (.error error) =>
    some (s, .returned (.error (f.mapApiError error)))
  | .bootstrapping _ _, .panicked => some (s, .panicked)
  | .locking host expected bootstrap, .ready =>
    (s.acquire i).map fun s => (s, .rechecking host expected bootstrap)
  | .rechecking host expected bootstrap, .ready =>
    if s.cancelled then some (s, .leaving (.error shutDown))
    else some (s, .publishing host expected bootstrap)
  | .publishing host expected bootstrap, .ready =>
    let attachment := attachExternalSignerTransport host bootstrap
    some ({ s with attached := some attachment }.record (.published i attachment expected),
      .unlocking host)
  -- A native signer goes on to be bound.
  | .unlocking (.native signer), .ready => some ({ s with lock := none }, .relocking signer)
  | .unlocking (.generic _), .ready => some ({ s with lock := none }, .returned (.ok ()))
  | _, _ => none

/-- The rest of the attachment of a native signer. -/
def attachNative (i : ℕ) (s : AppState S H U K B) :
    Control S H U K B → Answer U B → Option (AppState S H U K B × Control S H U K B)
  | .learning signer, .bootstrap (.ok bootstrap) =>
    let host := .native signer
    let expected := f.keySourceFromUniffiBootstrap bootstrap
    some ((s.record (.reported signer bootstrap)).record (.attaching i host expected),
      .checking host expected)
  | .learning _, .bootstrap (.error error) => some (s, .returned (.error error))
  | .learning _, .panicked => some (s, .panicked)
  | .relocking signer, .ready => (s.acquire i).map fun s => (s, .bindChecking signer)
  | .bindChecking signer, .ready =>
    if s.cancelled then some (s, .leaving (.error shutDown)) else some (s, .examining signer)
  | .examining signer, .ready =>
    match s.attached with
    | none => some (s, .leaving (.error (.externalSignerUnavailable "native signer detached")))
    | some _ => some (s, .reporting signer)
  | .reporting signer, .bootstrap (.ok bootstrap) =>
    some (s.record (.reported signer bootstrap), .validating signer bootstrap)
  | .reporting _, .bootstrap (.error error) => some (s, .leaving (.error error))
  | .reporting _, .panicked => some (s, .unwinding)
  | .validating signer bootstrap, .ready =>
    s.attached.map fun attachment =>
      if f.validateKeySourceMatchesBootstrap (f.keySourceFromUniffiBootstrap bootstrap)
          attachment.bootstrap then (s, .binding signer)
      else (s, .leaving (.error (.externalSignerMismatch "native signer attachment changed")))
  | .binding signer, .ready =>
    s.attached.map fun attachment =>
      ({ s with attached := some { attachment with messageSigner := some signer } }.record
        (.bound i signer), .leaving (.ok ()))
  | .unwinding, .ready => some ({ s with lock := none }, .panicked)
  | _, _ => none

/-- `set_attached_external_signer(None)` and the part of `NodeHandle::shutdown` under the lock. -/
def takeAway (i : ℕ) (s : AppState S H U K B) :
    Control S H U K B → Answer U B → Option (AppState S H U K B × Control S H U K B)
  | .detachLocking, .ready => (s.acquire i).map fun s => (s, .detaching)
  | .detaching, .ready => some ({ s with attached := none }.record (.detached i), .leaving (.ok ()))
  | .marking, .ready => (s.acquire i).map fun s => (s, .cancelling)
  | .cancelling, .ready =>
    some ({ s with cancelled := true }.record (.cancelled i), .leaving (.ok ()))
  | .leaving result, .ready => some ({ s with lock := none }, .returned result)
  | _, _ => none

def next (i : ℕ) (action : Action S H U K B) (s : AppState S H U K B) (c : Control S H U K B) :
    Option (AppState S H U K B × Control S H U K B) :=
  match c, action with
  | .idle, .attachHost host expected =>
    some (s.record (.attaching i (.generic host) expected), .checking (.generic host) expected)
  | .idle, .attachNative signer => some (s, .learning signer)
  | .idle, .detach => some (s, .detachLocking)
  | .idle, .shutdown => some (s, .marking)
  | c, .resume answer =>
    ((c.attachHost f i s answer).orElse fun _ => c.attachNative f i s answer).orElse fun _ =>
      c.takeAway i s answer
  | _, _ => none

end Control

abbrev System (S H U K B : Type) := Threads ℕ (AppState S H U K B) (Control S H U K B)

abbrev Label (S H U K B : Type) := Move ℕ (Action S H U K B) Empty

def program (S H : Type) {U K B I : Type} [DecidableEq I] (f : Bootstraps U K B I) :
    Program ℕ (AppState S H U K B) (Control S H U K B) (Action S H U K B) Empty where
  next i action s c := c.next f i action s
  environment event _ := event.elim

/-- Nobody has called yet. -/
def init : System S H U K B := ⟨⟨false, none, none, []⟩, fun _ => .idle⟩

end RgbLightningNode.Signer.Attachment
