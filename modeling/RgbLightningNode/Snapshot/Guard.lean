import RgbLightningNode.Snapshot.Operations
import RgbLightningNode.Transition.Trace

/-!
# Wallet guards and the calls that hold them

Every access to the wallet of a scope goes through a guard over its mutex, so the calls of one
process follow each other. A call is one process: it acquires a guard, runs its body and drops the
guard, also while a panic of the body unwinds.
-/

namespace RgbLightningNode.Snapshot
open Faulty FileSystem Transition

structure RgbWalletGuard (V : Type) where
  mutated : Bool
  syncBefore : Option (Option V × Bool)

variable {W V : Type}

def getRgbWallet : Run W (RgbWalletGuard V) := return ⟨false, none⟩

/-- The getter has returned once the change is admitted. -/
def getRgbWalletMutating (p : SnapshotPolicy) : Run W (RgbWalletGuard V) := do
  let guard ← getRgbWallet
  p.beforeMutation
  note .changeAdmitted
  return { guard with mutated := true }

/-- The compared views. Reading them may fail or panic, and a panic is caught. -/
def syncSnapshot (view : W → V) : Run W (Option V) := .step fun d w => match d.fate with
  | .proceed => (.ok (some (view w.wallet)), w)
  | .refuse | .panic => (.ok none, w)
  | .die => (.died, w)

/-- The dirty flag of the SDK database, unless its read fails or panics. -/
def backupInfo : Run W (Option Bool) := .step fun d w => match d.fate with
  | .proceed => (.ok (some (d.datum ≠ 0)), w)
  | .refuse | .panic => (.ok none, w)
  | .die => (.died, w)

def hadPending (p : SnapshotPolicy) : Run W Bool := do
  if (← p.pending) then return true else return (← backupInfo) != some false

def getRgbWalletForSync (view : W → V) (p : SnapshotPolicy) (skipSync : Bool) :
    Run W (RgbWalletGuard V) :=
  if skipSync then getRgbWallet
  else do
    let guard : RgbWalletGuard V ← getRgbWallet
    let pending ← hadPending p
    let before ← syncSnapshot view
    p.beforeMutation
    return { guard with mutated := true, syncBefore := some (before, pending) }

namespace RgbWalletGuard

variable [DecidableEq V]

/-- A sync that found no earlier intent and changed no view takes its own intent back. The answer
tells whether the guard still counts as mutated. -/
def settle (view : W → V) (p : SnapshotPolicy) (panicking : Bool) (guard : RgbWalletGuard V) :
    Run W Bool :=
  match panicking, guard.syncBefore with
  | false, some (some before, false) => do
    if (← syncSnapshot view) = some before then do
      return !(← tried p.clearUnchangedIntent).isOk && guard.mutated
    else return guard.mutated
  | _, _ => return guard.mutated

/-- The automatic snapshot under its own unwinding handler. -/
def snapshotAfter (serde : Serde) (p : SnapshotPolicy) (panicking : Bool) : Run W PUnit := do
  if (← .catchUnwind (p.afterMutation serde panicking)) then
    setFlags fun f => { f with failed := true }
  else return ()

def drop (serde : Serde) (view : W → V) (p : SnapshotPolicy) (guard : RgbWalletGuard V)
    (panicking : Bool) : Run W PUnit := do
  if (← guard.settle view p panicking) then snapshotAfter serde p panicking else return ()

end RgbWalletGuard

section Calls

variable [DecidableEq V] (serde : Serde) (view : W → V) (p : SnapshotPolicy)

/-- A body that runs while a guard is held. -/
def guarded {α : Type} (acquire : Run W (RgbWalletGuard V)) (body : Run W α) : Run W α := do
  let guard ← acquire
  .ensure body (guard.drop serde view p)

/-- A wallet operation may fail, panic or be cut short with any contents left behind. -/
def changeWallet (contents : W) : Run W Unit := .step fun d w =>
  let changed : World W := { w with wallet := contents }
  match d.fate with
  | .proceed => (.ok (), changed)
  | .refuse => (.error error, changed)
  | .panic => (.panicked, changed)
  | .die => (.died, if d.datum = 0 then w else changed)

def readWallet : Run W Unit := .step fun d w => match d.fate with
  | .proceed => (.ok (), w)
  | .refuse => (.error error, w)
  | .panic => (.panicked, w)
  | .die => (.died, w)

/-- A sync that changes the wallet is an admitted change, however it ends. -/
def syncWallet [DecidableEq W] (contents : W) : Run W Unit := do
  if contents = (← .read (·.wallet)) then readWallet
  else do
    note .changeAdmitted
    changeWallet contents

/-- The explicit backup of the SDK. -/
def vssBackupCall : Run W Unit := do
  let _ ← guarded (V := V) serde view p getRgbWallet (p.backup serde)
  return ()

/-- Re-enabling uploads first, and commits the preference only behind a finished backup. -/
def setVssAutomaticBackupEnabled (enabled : Bool) : Run W Unit :=
  guarded (V := V) serde view p getRgbWallet do
    let previous ← .read (·.flags.enabled)
    if enabled && !previous then do
      let _ ← p.backup serde
      p.commitEnabled serde enabled
    else p.commitEnabled serde enabled

def vssBackupMetadata : Run W SnapshotPolicy.Metadata :=
  guarded (V := V) serde view p getRgbWallet (p.metadata serde)

/-- The remote status: whether a snapshot exists, its version, and the SDK's own dirty flag. -/
def remoteInfo : Run W (Bool × Option Int64 × Bool) := .step fun d w => match d.fate with
  | .proceed => (.ok (w.remote.manifest.isSome, w.remote.manifest, d.datum ≠ 0), w)
  | .refuse => (.error error, w)
  | .panic => (.panicked, w)
  | .die => (.died, w)

structure BackupInfo where
  backupExists : Bool
  version : Option Int64
  backupRequired : Bool
  lastAutoBackupFailed : Bool

def requiredOrPending (required : Bool) : Run W Bool :=
  if required then return true else p.pending

def vssBackupInfo : Run W BackupInfo := do
  let (found, version, required) ← guarded (V := V) serde view p getRgbWallet remoteInfo
  let unsaved ← requiredOrPending p required
  return ⟨found, version, unsaved, (← .read (·.flags.failed))⟩

/-- The startup step of a node: it uploads when the policy is on and anything is unsaved. -/
def startupSnapshot : Run W Unit := do
  let (found, _, required) ← remoteInfo
  if (← .read (·.flags.enabled)) then
    if (← requiredOrPending p (!found || required)) then do
      let _ ← p.backup serde
      return ()
    else return ()
  else return ()

end Calls

/-! ### What a guard can do -/

section Rules

variable (p : SnapshotPolicy) (view : W → V) (serde : Serde) {w : World W}

theorem hadPending_spec (w : World W) : Holds (hadPending p : Run W Bool) w (fun o w' => w = w' ∧
    match o with
      | .ok b => b = false → ¬p.IsPending w
      | .error _ | .panicked => False
      | .died => True) := by
  refine holds_bind ((p.pending_spec w).mono ?_)
  rintro o _ ⟨rfl, ho⟩
  cases o with
  | ok b =>
    refine holds_ite (fun _ => holds_pure ⟨rfl, nofun⟩) (fun hb => ?_)
    have hclear : ¬p.IsPending w := fun h => hb (ho h)
    refine holds_bind (holds_step fun d => ?_)
    cases d.fate with
    | proceed => exact holds_pure ⟨rfl, fun _ => hclear⟩
    | refuse => exact holds_pure ⟨rfl, fun _ => hclear⟩
    | panic => exact holds_pure ⟨rfl, fun _ => hclear⟩
    | die => exact ⟨rfl, trivial⟩
  | error e => exact ho.elim
  | panicked => exact ho.elim
  | died => exact ⟨rfl, trivial⟩

theorem holds_syncSnapshot {Q : Outcome APIError (Option V) → World W → Prop}
    (hok : Q (.ok (some (view w.wallet))) w) (hnone : Q (.ok none) w) (hdie : Q .died w) :
    Holds (syncSnapshot view) w Q := by
  apply holds_step
  rintro ⟨fate, n⟩
  cases fate with
  | proceed => exact hok
  | refuse => exact hnone
  | panic => exact hnone
  | die => exact hdie

/-- The world after a sync has taken its intent back. -/
def cleared (w : World W) : World W :=
  { w with
    tree := w.tree.erase p.pendingPath
    flags := { w.flags with unsaved := false }
    log := .intentCleared :: w.log }

/-- The world in which the marker was removed but the removal was not acknowledged. -/
def unmarked (w : World W) : World W := { w with tree := w.tree.erase p.pendingPath }

namespace RgbWalletGuard

variable (guard : RgbWalletGuard V)

/-- The guard of a sync that found nothing unsaved and sees the views it started from. -/
def Unchanged (panicking : Bool) (w : World W) : Prop :=
  panicking = false ∧ guard.syncBefore = some (some (view w.wallet), false)

variable [DecidableEq V]

theorem settle_spec (panicking : Bool) (w : World W) :
    Holds (guard.settle view p panicking) w (fun o w' =>
      (w' = w ∧ (o = .ok guard.mutated ∨ o = .died)) ∨
      (guard.Unchanged view panicking w ∧ ((o = .ok false ∧ w' = cleared p w) ∨
        (w' = unmarked p w ∧ (o = .ok guard.mutated ∨ o = .died))))) := by
  have hskip : Holds (pure guard.mutated : Run W Bool) w (fun o w' =>
      (w' = w ∧ (o = .ok guard.mutated ∨ o = .died)) ∨ (guard.Unchanged view panicking w ∧
        ((o = .ok false ∧ w' = cleared p w) ∨
          (w' = unmarked p w ∧ (o = .ok guard.mutated ∨ o = .died))))) :=
    holds_pure (Or.inl ⟨rfl, Or.inl rfl⟩)
  unfold settle
  split
  · rename_i before hbefore
    refine holds_bind (holds_syncSnapshot view ?_ ?_ (Or.inl ⟨rfl, Or.inr rfl⟩))
    · refine holds_ite (fun hsame => ?_) (fun _ => hskip)
      obtain rfl : view w.wallet = before := by simpa using hsame
      have hunchanged : guard.Unchanged view false w := ⟨rfl, hbefore⟩
      refine holds_bind (holds_attempt ((p.clearUnchangedIntent_spec w).mono ?_))
      intro o w' ho
      cases o with
      | ok _ => exact holds_pure (Or.inr ⟨hunchanged, Or.inl ⟨rfl, ho⟩⟩)
      | error e =>
        rcases ho with rfl | rfl
        · exact holds_pure (Or.inl ⟨rfl, Or.inl rfl⟩)
        · exact holds_pure (Or.inr ⟨hunchanged, Or.inr ⟨rfl, Or.inl rfl⟩⟩)
      | panicked => exact ho.elim
      | died =>
        rcases ho with rfl | rfl
        · exact Or.inl ⟨rfl, Or.inr rfl⟩
        · exact Or.inr ⟨hunchanged, Or.inr ⟨rfl, Or.inr rfl⟩⟩
    · exact holds_ite (fun hsame => absurd hsame (by simp)) (fun _ => hskip)
  · exact hskip

theorem snapshotAfter_spec (panicking : Bool) (w : World W) :
    Holds (snapshotAfter serde p panicking) w (fun o w' => (∀ e, o ≠ .error e) ∧ (w' = w ∨
      (w.flags.unknown = false ∧ w.flags.enabled = true ∧ panicking = false ∧
        p.BackupEnd serde w w'))) := by
  refine holds_bind (holds_catchUnwind ((p.afterMutation_spec serde w panicking).mono ?_))
  rintro o w' ⟨herror, hend⟩
  cases o with
  | ok _ => exact holds_pure ⟨nofun, hend.imp (·.2) id⟩
  | error e => exact absurd rfl (herror e)
  | panicked =>
    obtain ⟨hunknown, henabled, hpanicking, hbackup⟩ := hend.resolve_left nofun
    refine holds_ite (fun _ => holds_setFlags ?_) (fun h => absurd rfl h)
    exact ⟨nofun, Or.inr ⟨hunknown, henabled, hpanicking, hbackup.fail⟩⟩
  | died => exact ⟨nofun, hend.imp (·.2) id⟩

/-- A dropped guard takes an unchanged sync's intent back or may upload, and never reports an error
of its own. -/
def Dropped (panicking : Bool) (w : World W) (o : Outcome APIError PUnit) (w' : World W) : Prop :=
  (∀ e, o ≠ .error e) ∧ ((guard.Unchanged view panicking w ∧ w' = cleared p w) ∨
    ∃ w₁, (w₁ = w ∨ (guard.Unchanged view panicking w ∧ w₁ = unmarked p w)) ∧
      (w' = w₁ ∨ (guard.mutated = true ∧ w.flags.unknown = false ∧ w.flags.enabled = true ∧
        panicking = false ∧ p.BackupEnd serde w₁ w')))

theorem drop_spec (panicking : Bool) (w : World W) :
    Holds (guard.drop serde view p panicking) w (guard.Dropped p view serde panicking w) := by
  have hsnapshot : ∀ w₁ : World W, w₁.flags = w.flags →
      (w₁ = w ∨ (guard.Unchanged view panicking w ∧ w₁ = unmarked p w)) →
      Holds (if guard.mutated then snapshotAfter serde p panicking else pure ⟨⟩ : Run W PUnit) w₁
        (guard.Dropped p view serde panicking w) := by
    intro w₁ hflags hw₁
    refine holds_ite (fun hmutated => ?_) (fun _ => holds_pure ?_)
    · refine (snapshotAfter_spec p serde panicking w₁).mono ?_
      rintro o w' ⟨herror, hend⟩
      rw [hflags] at hend
      exact ⟨herror, Or.inr ⟨w₁, hw₁, hend.imp id (⟨hmutated, ·⟩)⟩⟩
    · exact ⟨nofun, Or.inr ⟨w₁, hw₁, Or.inl rfl⟩⟩
  refine holds_bind ((guard.settle_spec p view panicking w).mono ?_)
  rintro o w₁ (⟨rfl, rfl | rfl⟩ | ⟨hunchanged, ⟨rfl, rfl⟩ | ⟨rfl, rfl | rfl⟩⟩)
  · exact hsnapshot w₁ rfl (Or.inl rfl)
  · exact ⟨nofun, Or.inr ⟨w₁, Or.inl rfl, Or.inl rfl⟩⟩
  · exact holds_pure ⟨nofun, Or.inl ⟨hunchanged, rfl⟩⟩
  · exact hsnapshot _ rfl (Or.inr ⟨hunchanged, rfl⟩)
  · exact ⟨nofun, Or.inr ⟨_, Or.inr ⟨hunchanged, rfl⟩, Or.inl rfl⟩⟩

end RgbWalletGuard

variable [DecidableEq V]

/-- A plain guard adds nothing to its body. -/
theorem guarded_plain {α : Type} (body : Run W α) :
    guarded (V := V) serde view p getRgbWallet body = body := by
  funext w ds
  change Proc.ensure body (RgbWalletGuard.drop serde view p ⟨false, none⟩) w ds = body w ds
  unfold Proc.ensure
  rcases body w ds with ⟨o, w', ds'⟩
  cases o with
  | ok a => rfl
  | error e => rfl
  | panicked => rfl
  | died => rfl

theorem holds_plain {α : Type} {body : Run W α} {Q : Outcome APIError α → World W → Prop}
    (h : Holds body w Q) : Holds (guarded (V := V) serde view p getRgbWallet body) w Q := by
  rwa [guarded_plain]

end Rules

end RgbLightningNode.Snapshot
