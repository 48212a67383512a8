import RgbLightningNode.Snapshot.Guard
import RgbLightningNode.Snapshot.Serde

/-!
# Histories of one scope

A history interleaves the calls of a running process with loads and process ends. Each call and
each load runs under a schedule of its own, so it may fail, panic or die at any of its steps. The
first section says what each call can leave behind.
-/

namespace RgbLightningNode.Snapshot
open Faulty FileSystem Transition

variable {W V : Type}

inductive Call (W : Type) where
  | mutate (contents : W)
  | sync (skipSync : Bool) (contents : W)
  | read
  | backup
  | setEnabled (enabled : Bool)
  | metadata
  | status
  | startup
  deriving DecidableEq

/-- A call whose answer nobody reads. -/
def unread {α : Type} (m : Run W α) : Run W Unit := do
  let _ ← m
  return ()

section Bodies

variable {p : SnapshotPolicy} {w : World W}

theorem holds_unread {α : Type} {m : Run W α} {Q : World W → Prop}
    (h : Holds m w fun _ w' => Q w') : Holds (unread m) w fun _ w' => Q w' := by
  refine holds_bind (h.mono fun o w' ho => ?_)
  cases o with
  | ok a => exact holds_pure ho
  | error e => exact ho
  | panicked => exact ho
  | died => exact ho

theorem readWallet_spec : Holds readWallet w (fun _ w' => w' = w) := by
  apply holds_step
  rintro ⟨fate, n⟩
  cases fate <;> rfl

theorem remoteInfo_spec : Holds remoteInfo w (fun _ w' => w' = w) := by
  apply holds_step
  rintro ⟨fate, n⟩
  cases fate <;> rfl

theorem requiredOrPending_spec (required : Bool) :
    Holds (requiredOrPending p required) w (fun _ w' => w' = w) :=
  holds_ite (fun _ => holds_pure rfl) fun _ => (p.pending_spec w).mono fun _ _ h => h.1.symm

theorem changeWallet_spec (contents : W) : Holds (changeWallet contents) w
    (fun o w' => ∃ found, (o ≠ .died → found = contents) ∧ w' = { w with wallet := found }) := by
  apply holds_step
  rintro ⟨fate, n⟩
  cases fate with
  | proceed => exact ⟨contents, fun _ => rfl, rfl⟩
  | refuse => exact ⟨contents, fun _ => rfl, rfl⟩
  | panic => exact ⟨contents, fun _ => rfl, rfl⟩
  | die =>
    by_cases hn : n = 0
    · exact ⟨w.wallet, fun h => absurd rfl h, by simp [hn]⟩
    · exact ⟨contents, fun _ => rfl, by simp [hn]⟩

/-- A sync notes a change exactly when the contents differ. -/
theorem syncWallet_spec [DecidableEq W] (contents : W) : Holds (syncWallet contents) w (fun o w' =>
    (contents = w.wallet ∧ w' = w) ∨
    (contents ≠ w.wallet ∧ ∃ found, (o ≠ .died → found = contents) ∧
      w' = { w with wallet := found, log := .changeAdmitted :: w.log })) := by
  refine holds_bind (holds_read (holds_ite (fun hsame => ?_) fun hdiffer => ?_))
  · exact readWallet_spec.mono fun _ _ h => Or.inl ⟨hsame, h⟩
  · refine holds_bind (holds_note ((changeWallet_spec contents).mono ?_))
    rintro o w' ⟨found, hfound, rfl⟩
    exact Or.inr ⟨hdiffer, found, hfound, rfl⟩

end Bodies

/-- A guard whose body ran: the machine died in the body, or the guard was dropped. -/
def Ended [DecidableEq V] (serde : Serde) (view : W → V) (p : SnapshotPolicy)
    (guard : RgbWalletGuard V) (body : Outcome APIError Unit) (w₂ w' : World W) : Prop :=
  (body = .died ∧ w' = w₂) ∨ (body ≠ .died ∧ ∃ panicking, ∃ o : Outcome APIError PUnit.{1},
    guard.Dropped p view serde panicking w₂ o w')

theorem ended_spec [DecidableEq V] {serde : Serde} {view : W → V} {p : SnapshotPolicy} {w : World W}
    (guard : RgbWalletGuard V) {body : Run W Unit} {R : Outcome APIError Unit → World W → Prop}
    (h : Holds body w R) :
    Holds (Proc.ensure body (guard.drop serde view p)) w
      (fun _ w' => ∃ o w₂, R o w₂ ∧ Ended serde view p guard o w₂ w') := by
  refine holds_ensure (h.mono ?_)
  intro o w₂ hw₂
  have hdrop : o ≠ .died → ∀ panicking, Holds (guard.drop serde view p panicking) w₂
      (fun _ w' => ∃ o w₂, R o w₂ ∧ Ended serde view p guard o w₂ w') := fun hlive panicking =>
    (guard.drop_spec p view serde panicking w₂).mono fun c w' h =>
      ⟨o, w₂, hw₂, Or.inr ⟨hlive, panicking, c, h⟩⟩
  cases o with
  | ok a => exact hdrop nofun false
  | error e => exact hdrop nofun false
  | panicked => exact hdrop nofun true
  | died => exact ⟨.died, w₂, hw₂, Or.inl ⟨rfl, rfl⟩⟩

/-- A relation between worlds that every part of a guarded call keeps. -/
structure GuardRelation (serde : Serde) (p : SnapshotPolicy) (R : World W → World W → Prop) :
    Prop where
  refl : ∀ w, R w w
  trans : ∀ {w w₁ w'}, R w w₁ → R w₁ w' → R w w'
  armed : ∀ {w w'}, p.Armed w w' → R w w'
  halfArmed : ∀ {w w'}, p.HalfArmed w w' → R w w'
  changed : ∀ w found, R w { w with wallet := found, log := .changeAdmitted :: w.log }
  cleared : ∀ w, R w (cleared p w)
  unmarked : ∀ w, R w (unmarked p w)
  automatic : ∀ {w w'}, w.flags.enabled = true → p.BackupEnd serde w w' → R w w'

theorem GuardRelation.ended [DecidableEq V] {serde : Serde} {view : W → V} {p : SnapshotPolicy}
    {R : World W → World W → Prop} (hR : GuardRelation serde p R) {guard : RgbWalletGuard V}
    {body : Outcome APIError Unit} {w w' : World W}
    (h : Ended serde view p guard body w w') : R w w' := by
  rcases h with ⟨_, rfl⟩ | ⟨_, panicking, o, _, ⟨_, rfl⟩ | ⟨w₂, hw₂, hend⟩⟩
  · exact hR.refl _
  · exact hR.cleared w
  · have hstart : R w w₂ ∧ w₂.flags = w.flags := by
      rcases hw₂ with rfl | ⟨_, rfl⟩
      · exact ⟨hR.refl _, rfl⟩
      · exact ⟨hR.unmarked w, rfl⟩
    rcases hend with rfl | ⟨_, _, hon, _, hbackup⟩
    · exact hstart.1
    · exact hR.trans hstart.1 (hR.automatic (by rw [hstart.2, hon]) hbackup)

/-! ### What each call can leave behind -/

variable [DecidableEq W] [DecidableEq V] (serde : Serde) (view : W → V) (p : SnapshotPolicy)

def syncBody (skipSync : Bool) (contents : W) : Run W Unit :=
  if skipSync then readWallet else syncWallet contents

def Call.run : Call W → Run W Unit
  | .mutate contents => guarded serde view p (getRgbWalletMutating p) (changeWallet contents)
  | .sync skipSync contents =>
    guarded serde view p (getRgbWalletForSync view p skipSync) (syncBody skipSync contents)
  | .read => guarded (V := V) serde view p getRgbWallet readWallet
  | .backup => vssBackupCall serde view p
  | .setEnabled enabled => setVssAutomaticBackupEnabled serde view p enabled
  | .metadata => unread (vssBackupMetadata serde view p)
  | .status => unread (vssBackupInfo serde view p)
  | .startup => startupSnapshot serde p

section Rules

variable {serde view p} {w : World W}

/-- Plain reads and status queries change nothing at all. -/
theorem readonly_spec {c : Call W} (hc : c = .read ∨ c = .metadata ∨ c = .status) :
    Holds (c.run serde view p) w (fun _ w' => w' = w) := by
  rcases hc with rfl | rfl | rfl
  · exact holds_plain p view serde readWallet_spec
  · exact holds_unread (holds_plain p view serde
      ((p.metadata_spec serde w).mono fun _ _ h => h.1.symm))
  · refine holds_unread (holds_bind (holds_plain p view serde (remoteInfo_spec.mono ?_)))
    rintro o _ rfl
    cases o with
    | ok info =>
      refine holds_bind ((requiredOrPending_spec info.2.2).mono ?_)
      rintro o _ rfl
      cases o with
      | ok unsaved => exact holds_bind (holds_read (holds_pure rfl))
      | error e => rfl
      | panicked => rfl
      | died => rfl
    | error e => rfl
    | panicked => rfl
    | died => rfl

theorem backup_call_spec : Holds (Call.backup.run serde view p) w
    (fun _ w' => p.BackupEnd serde w w') :=
  holds_unread (holds_plain p view serde ((p.backup_spec serde w).mono fun _ _ h => h.backupEnd))

/-- The startup step uploads only while the policy is on. -/
theorem startup_spec : Holds (Call.startup.run serde view p) w (fun _ w' =>
    w' = w ∨ (w.flags.enabled = true ∧ p.BackupEnd serde w w')) := by
  refine holds_bind (remoteInfo_spec.mono ?_)
  rintro o _ rfl
  cases o with
  | ok info =>
    refine holds_bind (holds_read (holds_ite (fun henabled => ?_) fun _ => holds_pure (Or.inl rfl)))
    refine holds_bind ((requiredOrPending_spec _).mono ?_)
    rintro o _ rfl
    cases o with
    | ok unsaved =>
      refine holds_ite (fun _ => ?_) fun _ => holds_pure (Or.inl rfl)
      exact holds_unread ((p.backup_spec serde _).mono fun _ _ h => Or.inr ⟨henabled, h.backupEnd⟩)
    | error e => exact Or.inl rfl
    | panicked => exact Or.inl rfl
    | died => exact Or.inl rfl
  | error e => exact Or.inl rfl
  | panicked => exact Or.inl rfl
  | died => exact Or.inl rfl

/-- Setting the preference: the catch-up upload of a resume fails, or the commit is reached, with
the catch-up upload finished if there was to be one. -/
def Toggled (serde : Serde) (p : SnapshotPolicy) (enabled : Bool) (w : World W)
    (o : Outcome APIError Unit) (w' : World W) : Prop :=
  (enabled = true ∧ w.flags.enabled = false ∧ o ≠ .ok () ∧ p.BackupEnd serde w w') ∨
  ∃ w₁, p.Committed serde enabled w₁ o w' ∧
    (((enabled = false ∨ w.flags.enabled = true) ∧ w₁ = w) ∨
      (enabled = true ∧ w.flags.enabled = false ∧ ∃ v, p.BackedUp serde w (.ok v) w₁))

theorem setEnabled_spec (enabled : Bool) : Holds ((Call.setEnabled enabled).run serde view p) w
    (Toggled serde p enabled w) := by
  refine holds_plain p view serde (holds_bind (holds_read (holds_ite ?_ ?_)))
  · intro hresume
    obtain ⟨rfl, hoff⟩ : enabled = true ∧ w.flags.enabled = false := by simpa using hresume
    refine holds_bind ((p.backup_spec serde w).mono ?_)
    intro o w₁ ho
    cases o with
    | ok v =>
      exact (p.commitEnabled_spec serde w₁ true).mono fun o w' h =>
        Or.inr ⟨w₁, h, Or.inr ⟨rfl, hoff, v, ho⟩⟩
    | error e => exact Or.inl ⟨rfl, hoff, nofun, ho.backupEnd⟩
    | panicked => exact Or.inl ⟨rfl, hoff, nofun, ho.backupEnd⟩
    | died => exact Or.inl ⟨rfl, hoff, nofun, ho.backupEnd⟩
  · intro hkeep
    have hcase : enabled = false ∨ w.flags.enabled = true := by
      cases enabled <;> simp_all
    exact (p.commitEnabled_spec serde w enabled).mono fun o w' h =>
      Or.inr ⟨w, h, Or.inl ⟨hcase, rfl⟩⟩

/-- A mutation under its guard. -/
def Mutated (serde : Serde) (view : W → V) (p : SnapshotPolicy) (w w' : World W) : Prop :=
  p.HalfArmed w w' ∨ ∃ w₁ found body, p.Armed w w₁ ∧
    Ended serde view p ⟨true, none⟩ body
      { w₁ with wallet := found, log := .changeAdmitted :: w₁.log } w'

theorem mutate_spec (contents : W) : Holds ((Call.mutate contents).run serde view p) w
    (fun _ w' => Mutated serde view p w w') := by
  refine holds_bind (holds_bind (holds_pure (holds_bind ((p.beforeMutation_spec w).mono ?_))))
  intro o w₁ ho
  cases o with
  | ok _ =>
    refine holds_bind (holds_note (holds_pure ?_))
    refine (ended_spec _ (changeWallet_spec contents)).mono ?_
    rintro o w' ⟨body, _, ⟨found, _, rfl⟩, hend⟩
    exact Or.inr ⟨w₁, found, body, ho, hend⟩
  | error e => exact ho.elim
  | panicked => exact ho.elim
  | died => exact Or.inl ho

/-- A sync under its guard: it may stop before anything happened, or it runs with the views and
the earlier intent it found. -/
def Synced (serde : Serde) (view : W → V) (p : SnapshotPolicy) (contents : W) (w w' : World W) :
    Prop :=
  w' = w ∨ p.HalfArmed w w' ∨ ∃ w₁ w₂ before pending body, p.Armed w w₁ ∧
    (pending = false → ¬p.IsPending w) ∧ (∀ b, before = some b → b = view w.wallet) ∧
    ((contents = w.wallet ∧ w₂ = w₁) ∨ (contents ≠ w.wallet ∧ ∃ found,
      (body ≠ .died → found = contents) ∧
        w₂ = { w₁ with wallet := found, log := .changeAdmitted :: w₁.log })) ∧
    Ended serde view p ⟨true, some (before, pending)⟩ body w₂ w'

theorem sync_spec (skipSync : Bool) (contents : W) :
    Holds ((Call.sync skipSync contents).run serde view p) w (fun _ w' =>
      (skipSync = true ∧ w' = w) ∨ (skipSync = false ∧ Synced serde view p contents w w')) := by
  cases skipSync with
  | true =>
    change Holds (guarded serde view p getRgbWallet readWallet) w _
    exact holds_plain p view serde (readWallet_spec.mono fun _ _ h => Or.inl ⟨rfl, h⟩)
  | false =>
    refine Holds.mono (P := fun _ w' => Synced serde view p contents w w') ?_
      fun _ _ h => Or.inr ⟨rfl, h⟩
    change Holds (guarded serde view p (getRgbWalletForSync view p false) (syncWallet contents)) w _
    refine holds_bind (holds_bind (holds_pure (holds_bind ((hadPending_spec p w).mono ?_))))
    rintro o _ ⟨rfl, hpending⟩
    cases o with
    | ok pending =>
      have hgo : ∀ before, (∀ b, before = some b → b = view w.wallet) →
          Holds (do p.beforeMutation; return ⟨true, some (before, pending)⟩ :
            Run W (RgbWalletGuard V)) w
            (Outcome.Then (fun guard w' => Holds (Proc.ensure (syncWallet contents)
              (guard.drop serde view p)) w' fun _ w' => Synced serde view p contents w w')
              fun (_ : Outcome APIError Unit) w' => Synced serde view p contents w w') := by
        intro before hbefore
        refine holds_bind ((p.beforeMutation_spec w).mono ?_)
        intro o w₁ ho
        cases o with
        | ok _ =>
          refine holds_pure ((ended_spec _ (syncWallet_spec contents)).mono ?_)
          rintro o w' ⟨body, w₂, hw₂, hend⟩
          rw [ho.wallet] at hw₂
          exact Or.inr (Or.inr ⟨w₁, w₂, before, pending, body, ho, hpending, hbefore, hw₂, hend⟩)
        | error e => exact ho.elim
        | panicked => exact ho.elim
        | died => exact Or.inr (Or.inl ho)
      exact holds_bind (holds_syncSnapshot view (hgo _ (by simp)) (hgo none (by simp)) (Or.inl rfl))
    | error e => exact hpending.elim
    | panicked => exact hpending.elim
    | died => exact Or.inl rfl

/-- Every call but the manual backup and the setter keeps such a relation. -/
theorem GuardRelation.call {R : World W → World W → Prop} (hR : GuardRelation serde p R)
    {c : Call W} (hbackup : c ≠ .backup) (hset : ∀ enabled, c ≠ .setEnabled enabled) :
    Holds (c.run serde view p) w (fun _ w' => R w w') := by
  cases c with
  | mutate contents =>
    refine (mutate_spec contents).mono ?_
    rintro o w' (hhalf | ⟨w₁, found, body, harmed, hend⟩)
    · exact hR.halfArmed hhalf
    · exact hR.trans (hR.armed harmed) (hR.trans (hR.changed w₁ found) (hR.ended hend))
  | sync skipSync contents =>
    refine (sync_spec skipSync contents).mono ?_
    rintro o w' (⟨_, rfl⟩ | ⟨_, rfl | hhalf | ⟨w₁, w₂, _, _, _, harmed, _, _, hw₂, hend⟩⟩)
    · exact hR.refl _
    · exact hR.refl _
    · exact hR.halfArmed hhalf
    · rcases hw₂ with ⟨_, rfl⟩ | ⟨_, found, _, rfl⟩
      · exact hR.trans (hR.armed harmed) (hR.ended hend)
      · exact hR.trans (hR.armed harmed) (hR.trans (hR.changed w₁ found) (hR.ended hend))
  | read => exact (readonly_spec (Or.inl rfl)).mono fun _ _ h => h ▸ hR.refl _
  | backup => exact absurd rfl hbackup
  | setEnabled enabled => exact absurd rfl (hset enabled)
  | metadata => exact (readonly_spec (Or.inr (Or.inl rfl))).mono fun _ _ h => h ▸ hR.refl _
  | status => exact (readonly_spec (Or.inr (Or.inr rfl))).mono fun _ _ h => h ▸ hR.refl _
  | startup =>
    refine startup_spec.mono ?_
    rintro o w' (rfl | ⟨hon, h⟩)
    · exact hR.refl _
    · exact hR.automatic hon h

end Rules

/-! ### Histories -/

/-- The files, the archive and the wallet of a scope, with or without a process that has loaded
its policy. -/
structure Host (W : Type) where
  world : World W
  live : Bool

inductive Label (W : Type) where
  | call (c : Call W) (answer : Outcome APIError Unit)
  | load (initial : Bool) (answer : Outcome APIError Unit)
  | stop

inductive Step : Host W → Label W → Host W → Prop where
  | call {w : World W} (c : Call W) (ds : Schedule) :
    Step ⟨w, true⟩ (.call c (c.run serde view p w ds).1)
      ⟨(c.run serde view p w ds).2.1, decide ((c.run serde view p w ds).1 ≠ .died)⟩
  | load {w : World W} (initial : Bool) (ds : Schedule) :
    Step ⟨w, false⟩ (.load initial (p.load serde initial w ds).1)
      ⟨(p.load serde initial w ds).2.1, decide ((p.load serde initial w ds).1 = .ok ())⟩
  | stop {w : World W} : Step ⟨w, true⟩ .stop ⟨w, false⟩

variable {serde view p} {w : World W}

theorem Step.called {c : Call W} {ds : Schedule} {answer : Outcome APIError Unit}
    (h : (c.run serde view p w ds).1 = answer) (hlive : answer ≠ .died) :
    Step serde view p ⟨w, true⟩ (.call c answer) ⟨(c.run serde view p w ds).2.1, true⟩ := by
  have hstep := @Step.call W V _ _ serde view p w c ds
  rwa [h, decide_eq_true hlive] at hstep

theorem Step.loaded {initial : Bool} {ds : Schedule}
    (h : (p.load serde initial w ds).1 = .ok ()) :
    Step serde view p ⟨w, false⟩ (.load initial (.ok ()))
      ⟨(p.load serde initial w ds).2.1, true⟩ := by
  have hstep := @Step.load W V _ _ serde view p w initial ds
  rwa [h, decide_eq_true rfl] at hstep

/-! ### A scope to try things on -/

/-- A regtest scope; the digest in its file name is shortened. -/
def sample : SnapshotPolicy :=
  Scope.policy (fun _ => "5f") ⟨"regtest", "https://vss.example", "02ab"⟩

def sampleStart : World ℕ := ⟨.empty, ⟨false, false, false, false⟩, ⟨none, none⟩, 0, []⟩

/-- The sample scope after a first load with the preference on. -/
def sampleLoaded : World ℕ := (sample.load jsonSerde true sampleStart []).2.1

theorem sample_load : (sample.load jsonSerde true sampleStart []).1 = .ok () := by decide

/-- Steps up to the upload proceed; the upload moves the manifest by one, and the clock is read. -/
def uploadSchedule (steps : ℕ) : Schedule :=
  List.replicate steps ⟨.proceed, 0⟩ ++ [⟨.proceed, 1⟩, ⟨.proceed, 1700000000000⟩]

/-- The sample scope after one admitted change with its automatic upload. -/
def sampleChanged : World ℕ :=
  ((Call.mutate 7).run jsonSerde id sample sampleLoaded (uploadSchedule 22)).2.1

theorem sample_change :
    ((Call.mutate 7).run jsonSerde id sample sampleLoaded (uploadSchedule 22)).1 = .ok () := by
  decide

end RgbLightningNode.Snapshot
