import RgbLightningNode.Snapshot.Files
import Mathlib.Data.Int.Order.Lemmas

/-!
# The snapshot policy of one scope

The policy owns three small files beside each other: the automatic-backup preference, a marker of
unsaved wallet state, and the receipt of the last confirmed upload. Its in-memory flags are lost
with the process. The remote archive, the wallet and a log of what happened live in the same world;
the log is read by no operation.
-/

namespace RgbLightningNode.Snapshot
open Faulty FileSystem

/-! ### Records and their serialization -/

/-- A serializer whose reader accepts what its writer prints. -/
structure Codec (α : Type) where
  encode : α → Bytes
  decode : Bytes → Option α
  decode_encode : ∀ a, decode (encode a) = some a

structure Scope where
  network : String
  url : String
  nodeId : String
  deriving DecidableEq, Repr

structure Completion where
  version : Int64
  completedAtMs : UInt64
  scope : Scope
  deriving DecidableEq

structure PolicyFile where
  schemaVersion : UInt32
  automaticBackupEnabled : Bool
  scope : Scope
  deriving DecidableEq

structure Serde where
  policyFile : Codec PolicyFile
  completion : Codec Completion

def maxCompletionTimeMs : ℕ := 8640000000000000

def validateCompletionTimeMs (value : UInt64) : Bool :=
  1 ≤ value.toNat && value.toNat ≤ maxCompletionTimeMs

/-! ### The world around a policy -/

/-- The atomics of a loaded policy. -/
structure Flags where
  enabled : Bool
  failed : Bool
  unknown : Bool
  unsaved : Bool
  deriving DecidableEq, Repr

/-- The remote archive: the version counter of its manifest, and the wallet contents it holds. -/
structure Remote (W : Type) where
  manifest : Option Int64
  snapshot : Option W

/-- What an observer of one scope would write down, newest first. -/
inductive Event (W : Type) where
  | loaded
  | commitStarted
  | commitAcknowledged (enabled : Bool)
  | markerWritten
  | markerRefused
  | intentCleared
  | changeAdmitted
  | versionRead (manifest : Option Int64)
  | uploadStarted
  | uploadAcknowledged (before : Option Int64) (after : Int64) (contents : W)
  | clockRead (ms : UInt64)
  | receiptStored

structure World (W : Type) where
  tree : Tree
  flags : Flags
  remote : Remote W
  wallet : W
  log : List (Event W)

variable {W : Type}

abbrev Run (W : Type) (α : Type) := Proc (World W) APIError α

def onTree {ε α : Type} (m : Proc Tree ε α) : Proc (World W) ε α :=
  .zoom World.tree (fun t w => { w with tree := t }) m

/-- A call whose result the caller inspects. -/
def tried {α : Type} (m : Run W α) : Run W (Except APIError α) := .attempt m

def note (e : Event W) : Run W PUnit := .update fun w => { w with log := e :: w.log }

def setFlags (change : Flags → Flags) : Run W PUnit :=
  .update fun w => { w with flags := change w.flags }

/-! ### The remote archive and the clock -/

/-- Uploads advance the manifest counter, by any amount that fits. -/
def advance (v : Int64) (n : ℕ) : Int64 := Int64.ofInt (min (v.toInt + n) (2 ^ 63 - 1))

/-- The manifest version as a number, 0 when there is none. -/
def Remote.version (r : Remote W) : ℤ := (r.manifest.getD 0).toInt

def Remote.upload (r : Remote W) (contents : W) (n : ℕ) : Remote W where
  manifest := some (advance (r.manifest.getD 0) n)
  snapshot := some contents

def getBackupVersion : Run W (Option Int64) := .step fun d w => match d.fate with
  | .proceed => (.ok w.remote.manifest, { w with log := .versionRead w.remote.manifest :: w.log })
  | .refuse => (.error error, w)
  | .panic => (.panicked, w)
  | .die => (.died, w)

/-- The upload of the wallet contents. One that is not acknowledged may still have reached the
server. The value is the counter the SDK reports, which need not be the manifest's. -/
def vssBackup : Run W Int64 := .step fun d w =>
  let started : World W := { w with log := .uploadStarted :: w.log }
  let lost : World W := match d.datum with
    | 0 => started
    | n + 1 => { started with remote := w.remote.upload w.wallet n }
  match d.fate with
  | .proceed => (.ok (Int64.ofNat d.datum), { started with
      remote := w.remote.upload w.wallet d.datum
      log := .uploadAcknowledged w.remote.manifest (advance (w.remote.manifest.getD 0) d.datum)
        w.wallet :: started.log })
  | .refuse => (.error error, lost)
  | .panic => (.panicked, lost)
  | .die => (.died, lost)

def nowMs : Run W UInt64 := .step fun d w => match d.fate with
  | .proceed =>
    if d.datum < 2 ^ 64 ∧ validateCompletionTimeMs (UInt64.ofNat d.datum) then
      (.ok (UInt64.ofNat d.datum), { w with log := .clockRead (UInt64.ofNat d.datum) :: w.log })
    else (.error error, w)
  | .refuse | .panic => (.error error, w)
  | .die => (.died, w)

/-- The addition of two signed words, unless it overflows. -/
def checkedAdd (a b : Int64) : Option Int64 :=
  if -2 ^ 63 ≤ a.toInt + b.toInt ∧ a.toInt + b.toInt < 2 ^ 63 then some (a + b) else none

def confirmedManifestSuccessor (before after : Int64) : Except APIError Int64 :=
  if checkedAdd before 1 = some after ∧ after > 0 then .ok after else .error error

def propagate {α : Type} : Except APIError α → Run W α
  | .ok a => return a
  | .error failure => .throw failure

def okOrElse {α : Type} : Option α → Run W α
  | some a => return a
  | none => .throw error

/-! ### The policy -/

/-- A policy knows its file and its scope. The file name ends in a proper extension, so that the
marker, the receipt and every temporary name differ from it and from each other. -/
structure SnapshotPolicy where
  path : Path
  scope : Scope
  named : ∃ stem : String, stem ≠ "" ∧ path = [stem ++ "." ++ "json"]

def Scope.text (s : Scope) : String := s.network ++ "\n" ++ s.url ++ "\n" ++ s.nodeId

/-- The policy of a scope, under a hash that prints hexadecimal digests. -/
def Scope.policy (sha256 : String → String) (s : Scope) : SnapshotPolicy where
  path := [".utexo-vss-policy-v1-" ++ sha256 s.text ++ "." ++ "json"]
  scope := s
  named := ⟨_, by simp [String.append_eq_empty_iff], rfl⟩

namespace SnapshotPolicy

def pendingPath (p : SnapshotPolicy) : Path := withExtension p.path "pending"

def completionPath (p : SnapshotPolicy) : Path := withExtension p.path "completion.json"

def marker : Bytes := [0x31]

def writeMarker (p : SnapshotPolicy) : Run W Unit := do
  onTree (writeAtomic p.pendingPath marker)
  note .markerWritten

def pending (p : SnapshotPolicy) : Run W Bool := do
  if (← .read (·.flags.unsaved)) then return true
  else match ← .attempt (onTree (symlinkMetadata p.pendingPath)) with
    | .error .notFound => return false
    | _ => return true

def beforeMutation (p : SnapshotPolicy) : Run W Unit := do
  setFlags fun f => { f with unsaved := true }
  match ← tried p.writeMarker with
  | .ok _ => return ()
  | .error _ => do
    setFlags fun f => { f with failed := true }
    note .markerRefused

def removeMarker (p : SnapshotPolicy) : Run W Unit := do
  onTree (orError (removeFile p.pendingPath))
  onTree (syncParent p.path)

def clearUnchangedIntent (p : SnapshotPolicy) : Run W Unit := do
  p.removeMarker
  setFlags fun f => { f with unsaved := false }
  note .intentCleared

def policyFile (p : SnapshotPolicy) (enabled : Bool) : PolicyFile := ⟨1, enabled, p.scope⟩

def validFile (p : SnapshotPolicy) (f : PolicyFile) : Bool :=
  f.schemaVersion == 1 && f.scope == p.scope

/-- What a failed commit finds in the file it could not replace. -/
def readBack (serde : Serde) (p : SnapshotPolicy) : Run W (Option PolicyFile) := do
  match ← tried (onTree (readBounded p.path)) with
  | .ok (some bytes) => return (serde.policyFile.decode bytes).filter p.validFile
  | _ => return none

def adopt (actual : Option PolicyFile) : Run W PUnit := match actual with
  | some saved => setFlags fun f => { f with enabled := saved.automaticBackupEnabled }
  | none => setFlags fun f => { f with unknown := true, failed := true }

def commitEnabled (serde : Serde) (p : SnapshotPolicy) (enabled : Bool) : Run W Unit := do
  note .commitStarted
  if (← .read (·.flags.unknown)) then .throw error
  else match ← tried (onTree (writeAtomic p.path
          (serde.policyFile.encode (p.policyFile enabled)))) with
    | .error failure => do
      adopt (← p.readBack serde)
      .throw failure
    | .ok _ => do
      setFlags fun f => { f with enabled := enabled }
      note (.commitAcknowledged enabled)

/-- The upload with its error flag. -/
def uploadOrFail : Run W Int64 := do
  match ← tried vssBackup with
  | .ok version => return version
  | .error _ => do
    setFlags fun f => { f with failed := true }
    .throw error

def storeReceipt (serde : Serde) (p : SnapshotPolicy) (receipt : Completion) : Run W Unit := do
  onTree (writeAtomic p.completionPath (serde.completion.encode receipt))
  note .receiptStored

def clearMarker (p : SnapshotPolicy) : Run W Unit := do
  p.removeMarker
  setFlags fun f => { f with unsaved := false, failed := false }

/-- The wallet hands out its client, or has none. -/
def vssClient : Run W Unit := .primitive error fun _ w => (.ok (), w)

/-- The part of a backup between the marker and the receipt file: the upload, and the receipt that
the two version reads around it justify. -/
def confirmedUpload (p : SnapshotPolicy) : Run W (Completion × Int64) := do
  let before := (← getBackupVersion).getD 0
  let version ← uploadOrFail
  let completedAtMs ← nowMs
  let reported ← okOrElse (← getBackupVersion)
  let canonical ← propagate (confirmedManifestSuccessor before reported)
  return (⟨canonical, completedAtMs, p.scope⟩, version)

def backup (serde : Serde) (p : SnapshotPolicy) : Run W Int64 := do
  vssClient
  p.writeMarker
  let (receipt, version) ← p.confirmedUpload
  p.storeReceipt serde receipt
  p.clearMarker
  return version

def afterMutation (serde : Serde) (p : SnapshotPolicy) (panicking : Bool) : Run W Unit := do
  let flags ← .read (·.flags)
  if flags.unknown || !flags.enabled || panicking then return ()
  else match ← tried (p.backup serde) with
    | .ok _ => return ()
    | .error _ => setFlags fun f => { f with failed := true }

structure Metadata where
  schemaVersion : ℕ
  automaticBackupEnabled : Bool
  lastBackup : Option Completion
  deriving DecidableEq

def validReceipt (p : SnapshotPolicy) (r : Completion) : Bool :=
  decide (1 ≤ r.version) && validateCompletionTimeMs r.completedAtMs && r.scope == p.scope

def readReceipt (serde : Serde) (p : SnapshotPolicy) : Run W (Option Completion) := do
  match ← onTree (readBounded p.completionPath) with
  | none => return none
  | some bytes => return some (← okOrElse ((serde.completion.decode bytes).filter p.validReceipt))

def metadata (serde : Serde) (p : SnapshotPolicy) : Run W Metadata := do
  if (← .read (·.flags.unknown)) then .throw error
  else do
    let receipt ← p.readReceipt serde
    return ⟨1, (← .read (·.flags.enabled)), receipt⟩

/-- The saved preference, or `none` when there is no file yet. A file that cannot be read back as
this scope's policy stops the load. -/
def savedPreference (serde : Serde) (p : SnapshotPolicy) : Run W (Option Bool) := do
  match ← onTree (readBounded p.path) with
  | none => return none
  | some bytes =>
    let saved ← okOrElse ((serde.policyFile.decode bytes).filter p.validFile)
    return some saved.automaticBackupEnabled

def load (serde : Serde) (p : SnapshotPolicy) (initial : Bool) : Run W Unit := do
  let enabled := (← p.savedPreference serde).getD initial
  .update fun w => { w with flags := ⟨enabled, false, false, false⟩, log := .loaded :: w.log }
  if (← onTree (orError (pathExists p.path))) then return ()
  else p.commitEnabled serde enabled

end SnapshotPolicy

end RgbLightningNode.Snapshot
