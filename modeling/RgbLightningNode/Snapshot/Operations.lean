import RgbLightningNode.Snapshot.Names

/-!
# What each policy operation can do

One lemma for each operation says how it can end and what world it can leave, under every failure
and crash. The results about whole histories use these lemmas and unfold no operation.
-/

namespace RgbLightningNode.Snapshot
open Faulty FileSystem

variable {W : Type}

theorem holds_onTree {ε α : Type} {m : Proc Tree ε α} {w : World W}
    {Q : Outcome ε α → World W → Prop}
    (h : Holds m w.tree (fun o t => Q o { w with tree := t })) : Holds (onTree m) w Q :=
  holds_zoom h

theorem holds_note {e : Event W} {w : World W} {Q : Outcome APIError PUnit → World W → Prop}
    (h : Q (.ok ⟨⟩) { w with log := e :: w.log }) : Holds (note e) w Q := holds_update h

theorem holds_setFlags {change : Flags → Flags} {w : World W}
    {Q : Outcome APIError PUnit → World W → Prop}
    (h : Q (.ok ⟨⟩) { w with flags := change w.flags }) : Holds (setFlags change) w Q :=
  holds_update h

theorem holds_okOrElse {α : Type} {x : Option α} {w : World W}
    {Q : Outcome APIError α → World W → Prop} (hsome : ∀ a, x = some a → Q (.ok a) w)
    (hnone : x = none → Q (.error error) w) : Holds (okOrElse x) w Q := by
  cases x with
  | some a => exact holds_pure (hsome a rfl)
  | none => exact holds_throw (hnone rfl)

theorem holds_propagate {α : Type} {x : Except APIError α} {w : World W}
    {Q : Outcome APIError α → World W → Prop} (hok : ∀ a, x = .ok a → Q (.ok a) w)
    (herror : ∀ e, x = .error e → Q (.error e) w) : Holds (propagate x) w Q := by
  cases x with
  | ok a => exact holds_pure (hok a rfl)
  | error e => exact holds_throw (herror e rfl)

theorem onTree_quiet {ε α : Type} {m : Proc Tree ε α} {w : World W} (h : Quiet m w.tree) :
    Quiet (onTree m) w :=
  holds_onTree (h.mono fun _ _ ho => ⟨by rw [← ho.1], ho.2⟩)

/-- The log entries of loads and commits. -/
def Event.ofPreference : Event W → Bool
  | .loaded | .commitStarted | .commitAcknowledged _ => true
  | _ => false

/-- What an upload leaves in the log before its receipt is stored. -/
def Event.ofUpload : Event W → Bool
  | .markerWritten | .versionRead _ | .uploadStarted | .uploadAcknowledged _ _ _ | .clockRead _ =>
    true
  | _ => false

namespace SnapshotPolicy

variable (p : SnapshotPolicy) (serde : Serde) (w : World W)

/-- Unsaved state, in memory or on disk. -/
def IsPending (w : World W) : Prop := w.flags.unsaved = true ∨ w.tree.node p.pendingPath ≠ none

theorem pending_spec : Holds (p.pending : Run W Bool) w (fun o w' => w = w' ∧ match o with
    | .ok b => p.IsPending w → b = true
    | .error _ | .panicked => False
    | .died => True) := by
  refine holds_bind (holds_read (holds_ite ?_ ?_))
  · exact fun _ => holds_pure ⟨rfl, fun _ => rfl⟩
  · intro hunsaved
    refine holds_bind (holds_attempt (holds_onTree (holds_symlinkMetadata ?_ ?_ ?_ ?_)))
    · exact fun n _ => holds_pure ⟨rfl, fun _ => rfl⟩
    · exact fun habsent => holds_pure ⟨rfl, fun h => absurd habsent (h.resolve_left hunsaved)⟩
    · exact holds_pure ⟨rfl, fun _ => rfl⟩
    · exact ⟨rfl, trivial⟩

/-- An atomic write that is noted once it is acknowledged. -/
def Recorded (path : Path) (bytes : Bytes) (e : Event W) (w : World W) :
    Outcome APIError PUnit → World W → Prop := fun o w' =>
  ∃ t, Written path bytes w.tree o t ∧ match o with
    | .ok _ => w' = { w with tree := t, log := e :: w.log }
    | _ => w' = { w with tree := t }

theorem recorded_spec {path : Path} (hapart : TmpApart path) (bytes : Bytes) (e : Event W) :
    Holds (do onTree (writeAtomic path bytes); note e) w (Recorded path bytes e w) := by
  refine holds_bind (holds_onTree ((writeAtomic_spec hapart).mono ?_))
  intro o t ht
  cases o with
  | ok _ => exact holds_note ⟨t, ht, rfl⟩
  | error e => exact ⟨t, ht, rfl⟩
  | panicked => exact ⟨t, ht, rfl⟩
  | died => exact ⟨t, ht, rfl⟩

theorem writeMarker_spec : Holds (p.writeMarker : Run W Unit) w
    (Recorded p.pendingPath marker .markerWritten w) := recorded_spec w p.tmpApart.2.1 _ _

theorem storeReceipt_spec (r : Completion) : Holds (p.storeReceipt serde r : Run W Unit) w
    (Recorded p.completionPath (serde.completion.encode r) .receiptStored w) :=
  recorded_spec w p.tmpApart.2.2 _ _

/-- The world once a mutation has been announced. A refused marker is recorded in memory only. -/
def Armed (w w' : World W) : Prop := ∃ t, w.tree.AgreeOff (footprint p.pendingPath) t ∧
  ((t.look p.pendingPath = .file marker ∧ w' = { w with
      tree := t
      flags := { w.flags with unsaved := true }
      log := .markerWritten :: w.log }) ∨
    ((t.look p.pendingPath = w.tree.look p.pendingPath ∨ t.look p.pendingPath = .file marker) ∧
      w' = { w with
        tree := t
        flags := { w.flags with unsaved := true, failed := true }
        log := .markerRefused :: w.log }))

theorem Armed.wallet {p : SnapshotPolicy} {w w' : World W} (h : p.Armed w w') :
    w'.wallet = w.wallet := by
  obtain ⟨t, _, ⟨_, rfl⟩ | ⟨_, rfl⟩⟩ := h <;> rfl

/-- The world in which the announcement of a mutation was cut short. -/
def HalfArmed (w w' : World W) : Prop := ∃ t, w.tree.AgreeOff (footprint p.pendingPath) t ∧
  (t.look p.pendingPath = w.tree.look p.pendingPath ∨ t.look p.pendingPath = .file marker) ∧
  w' = { w with tree := t, flags := { w.flags with unsaved := true } }

theorem beforeMutation_spec : Holds (p.beforeMutation : Run W Unit) w (fun o w' => match o with
    | .ok _ => p.Armed w w'
    | .died => p.HalfArmed w w'
    | .error _ | .panicked => False) := by
  refine holds_bind (holds_setFlags (holds_bind (holds_attempt ((writeMarker_spec p _).mono ?_))))
  rintro o w₁ ⟨t, ⟨hoff, ht⟩, hw⟩
  cases o with
  | ok _ => exact holds_pure ⟨t, hoff, Or.inl ⟨ht, hw⟩⟩
  | error e =>
    subst hw
    exact holds_bind (holds_setFlags (holds_note ⟨t, hoff, Or.inr ⟨ht, rfl⟩⟩))
  | panicked => exact ht.elim
  | died => exact ⟨t, hoff, ht, hw⟩

theorem removeMarker_spec : Holds (p.removeMarker : Run W Unit) w (fun o w' => match o with
    | .ok _ => w' = { w with tree := w.tree.erase p.pendingPath }
    | .error _ | .died => w' = w ∨ w' = { w with tree := w.tree.erase p.pendingPath }
    | .panicked => False) := by
  refine holds_bind (holds_onTree (holds_mapError (holds_removeFile ?_ ?_ ?_)))
  · intro _
    refine (onTree_quiet (w := { w with tree := w.tree.erase p.pendingPath })
      (orError_syncAll_quiet p.path.dropLast _)).mono ?_
    rintro o w' ⟨rfl, hpanic⟩
    cases o with
    | ok _ => rfl
    | error e => exact Or.inr rfl
    | panicked => exact hpanic rfl
    | died => exact Or.inr rfl
  · exact fun _ => Or.inl rfl
  · exact Or.inl rfl

theorem clearUnchangedIntent_spec : Holds (p.clearUnchangedIntent : Run W Unit) w
    (fun o w' => match o with
      | .ok _ => w' = { w with
          tree := w.tree.erase p.pendingPath
          flags := { w.flags with unsaved := false }
          log := .intentCleared :: w.log }
      | .error _ | .died => w' = w ∨ w' = { w with tree := w.tree.erase p.pendingPath }
      | .panicked => False) := by
  refine holds_bind ((removeMarker_spec p w).mono ?_)
  intro o w' ho
  cases o with
  | ok _ =>
    subst ho
    exact holds_bind (holds_setFlags (holds_note rfl))
  | error e => exact ho
  | panicked => exact ho
  | died => exact ho

theorem clearMarker_spec : Holds (p.clearMarker : Run W Unit) w (fun o w' => match o with
    | .ok _ => w' = { w with
        tree := w.tree.erase p.pendingPath
        flags := { w.flags with unsaved := false, failed := false } }
    | .error _ | .died => w' = w ∨ w' = { w with tree := w.tree.erase p.pendingPath }
    | .panicked => False) := by
  refine holds_bind ((removeMarker_spec p w).mono ?_)
  intro o w' ho
  cases o with
  | ok _ =>
    subst ho
    exact holds_setFlags rfl
  | error e => exact ho
  | panicked => exact ho
  | died => exact ho

theorem readBack_spec : Holds (p.readBack serde : Run W (Option PolicyFile)) w
    (fun o w' => w = w' ∧ match o with
      | .ok (some f) => p.validFile f = true ∧
          ∃ bytes, w.tree.look p.path = .file bytes ∧ serde.policyFile.decode bytes = some f
      | .ok none | .died => True
      | .error _ | .panicked => False) := by
  refine holds_bind (holds_attempt (holds_onTree (readBounded_spec.mono ?_)))
  rintro o t ⟨rfl, ho⟩
  match o, ho with
  | .ok none, _ => exact holds_pure ⟨rfl, trivial⟩
  | .ok (some bytes), ho =>
    refine holds_pure ⟨rfl, ?_⟩
    cases hf : (serde.policyFile.decode bytes).filter p.validFile with
    | none => trivial
    | some f =>
      obtain ⟨hdecode, hvalid⟩ := Option.filter_eq_some_iff.mp hf
      exact ⟨hvalid, bytes, ho.1, hdecode⟩
  | .error _, _ => exact holds_pure ⟨rfl, trivial⟩
  | .panicked, ho => exact ho.elim
  | .died, _ => exact ⟨rfl, trivial⟩

/-- The policy file is readable as this scope's policy and carries the given choice. -/
def SavedAs (t : Tree) (enabled : Bool) : Prop := ∃ bytes f, t.look p.path = .file bytes ∧
  serde.policyFile.decode bytes = some f ∧ p.validFile f = true ∧
  f.automaticBackupEnabled = enabled

theorem savedAs_of_look {t : Tree} {enabled : Bool}
    (h : t.look p.path = .file (serde.policyFile.encode (p.policyFile enabled))) :
    p.SavedAs serde t enabled :=
  ⟨_, _, h, serde.policyFile.decode_encode _, by simp [validFile, policyFile], rfl⟩

theorem SavedAs.congr {p : SnapshotPolicy} {serde : Serde} {t t' : Tree} {enabled : Bool}
    (h : p.SavedAs serde t enabled) (hlook : t'.look p.path = t.look p.path) :
    p.SavedAs serde t' enabled := by
  obtain ⟨bytes, f, hfile, hrest⟩ := h
  exact ⟨bytes, f, hlook.trans hfile, hrest⟩

theorem SavedAs.unique {p : SnapshotPolicy} {serde : Serde} {t : Tree} {a b : Bool}
    (ha : p.SavedAs serde t a) (hb : p.SavedAs serde t b) : a = b := by
  obtain ⟨bytes, f, hlook, hdecode, _, rfl⟩ := ha
  obtain ⟨bytes', f', hlook', hdecode', _, rfl⟩ := hb
  obtain rfl : bytes = bytes' := by simpa [hlook] using hlook'
  obtain rfl : f = f' := by simpa [hdecode] using hdecode'
  rfl

/-- The possible ends of a commit. A failed commit keeps the preference it reads back, or gives
up knowing it. -/
def Committed (enabled : Bool) (w : World W) : Outcome APIError Unit → World W → Prop :=
  fun o w' => ∃ t flags, w.tree.AgreeOff (footprint p.path) t ∧
    (t.look p.path = w.tree.look p.path ∨
      t.look p.path = .file (serde.policyFile.encode (p.policyFile enabled))) ∧
    match o with
    | .ok _ => w.flags.unknown = false ∧
        t.look p.path = .file (serde.policyFile.encode (p.policyFile enabled)) ∧
        w' = { w with
          tree := t
          flags := { w.flags with enabled := enabled }
          log := .commitAcknowledged enabled :: .commitStarted :: w.log }
    | .error _ =>
        ((flags = w.flags ∧ w.flags.unknown = true) ∨
          (∃ actual, flags = { w.flags with enabled := actual } ∧ p.SavedAs serde t actual) ∨
          flags = { w.flags with unknown := true, failed := true }) ∧
        w' = { w with tree := t, flags := flags, log := .commitStarted :: w.log }
    | .died => w' = { w with tree := t, log := .commitStarted :: w.log }
    | .panicked => False

theorem commitEnabled_spec (enabled : Bool) :
    Holds (p.commitEnabled serde enabled : Run W Unit) w (p.Committed serde enabled w) := by
  refine holds_bind (holds_note (holds_bind (holds_read (holds_ite ?_ ?_))))
  · intro hunknown
    exact holds_throw ⟨w.tree, w.flags, .refl _ _, Or.inl rfl, Or.inl ⟨rfl, hunknown⟩, rfl⟩
  · intro hknown
    refine holds_bind (holds_attempt (holds_onTree ((writeAtomic_spec p.tmpApart.1).mono ?_)))
    rintro o t ⟨hoff, ht⟩
    cases o with
    | ok _ =>
      exact holds_bind (holds_setFlags (holds_note
        ⟨t, w.flags, hoff, Or.inr ht, by simpa using hknown, ht, rfl⟩))
    | error e =>
      refine holds_bind ((readBack_spec p serde _).mono ?_)
      rintro o w₁ ⟨rfl, ho⟩
      match o, ho with
      | .ok (some f), ho =>
        obtain ⟨hvalid, bytes, hlook, hdecode⟩ := ho
        exact holds_bind (holds_setFlags (holds_throw ⟨t, _, hoff, ht,
          Or.inr (Or.inl ⟨_, rfl, bytes, f, hlook, hdecode, hvalid, rfl⟩), rfl⟩))
      | .ok none, _ =>
        exact holds_bind (holds_setFlags (holds_throw ⟨t, _, hoff, ht, Or.inr (Or.inr rfl), rfl⟩))
      | .error _, ho => exact ho.elim
      | .panicked, ho => exact ho.elim
      | .died, _ => exact ⟨t, w.flags, hoff, ht, rfl⟩
    | panicked => exact ht.elim
    | died => exact ⟨t, w.flags, hoff, ht, rfl⟩

/-- What no commit changes, however it ends. -/
structure PreferenceOnly (w w' : World W) : Prop where
  tree : w.tree.AgreeOff (footprint p.path) w'.tree
  wallet : w'.wallet = w.wallet
  remote : w'.remote = w.remote
  log : ∃ new, w'.log = new ++ w.log ∧ ∀ e ∈ new, Event.ofPreference e = true

theorem Committed.preferenceOnly {p : SnapshotPolicy} {serde : Serde} {w w' : World W}
    {enabled : Bool} {o : Outcome APIError Unit} (h : p.Committed serde enabled w o w') :
    p.PreferenceOnly w w' ∧ w'.flags.unsaved = w.flags.unsaved := by
  obtain ⟨t, flags, hoff, _, ho⟩ := h
  cases o with
  | ok _ =>
    obtain ⟨_, _, rfl⟩ := ho
    exact ⟨⟨hoff, rfl, rfl, [.commitAcknowledged enabled, .commitStarted], rfl,
      by simp [Event.ofPreference]⟩, rfl⟩
  | error e =>
    obtain ⟨hflags, rfl⟩ := ho
    refine ⟨⟨hoff, rfl, rfl, [.commitStarted], rfl, by simp [Event.ofPreference]⟩, ?_⟩
    rcases hflags with ⟨rfl, _⟩ | ⟨actual, rfl, _⟩ | rfl <;> rfl
  | panicked => exact ho.elim
  | died =>
    subst ho
    exact ⟨⟨hoff, rfl, rfl, [.commitStarted], rfl, by simp [Event.ofPreference]⟩, rfl⟩

/-- A load reads the saved choice and nothing else when the file exists. -/
theorem savedPreference_spec : Holds (p.savedPreference serde : Run W (Option Bool)) w
    (fun o w' => w = w' ∧ match o with
      | .ok none => w.tree.look p.path = .absent
      | .ok (some saved) => p.SavedAs serde w.tree saved
      | .error _ | .died => True
      | .panicked => False) := by
  refine holds_bind (holds_onTree (readBounded_spec.mono ?_))
  rintro o t ⟨rfl, ho⟩
  match o, ho with
  | .ok none, ho => exact holds_pure ⟨rfl, ho⟩
  | .ok (some bytes), ho =>
    refine holds_bind (holds_okOrElse (fun f hf => ?_) (fun _ => ⟨rfl, trivial⟩))
    obtain ⟨hdecode, hvalid⟩ := Option.filter_eq_some_iff.mp hf
    exact holds_pure ⟨rfl, bytes, f, ho.1, hdecode, hvalid, rfl⟩
  | .error _, _ => exact ⟨rfl, trivial⟩
  | .panicked, ho => exact ho.elim
  | .died, _ => exact ⟨rfl, trivial⟩

end SnapshotPolicy

/-! ### The remote archive and the clock -/

theorem le_advance (v : Int64) (n : ℕ) : v.toInt ≤ (advance v n).toInt := by
  have hlt := v.toInt_lt
  have hle := v.le_toInt
  rw [advance, Int64.toInt_ofInt_of_le (by omega) (by omega)]
  omega

theorem holds_getBackupVersion {w : World W} {Q : Outcome APIError (Option Int64) → World W → Prop}
    (hok : Q (.ok w.remote.manifest) { w with log := .versionRead w.remote.manifest :: w.log })
    (herror : Q (.error error) w) (hpanic : Q .panicked w) (hdie : Q .died w) :
    Holds getBackupVersion w Q := by
  apply holds_step
  rintro ⟨fate, n⟩
  cases fate with
  | proceed => exact hok
  | refuse => exact herror
  | panic => exact hpanic
  | die => exact hdie

theorem holds_nowMs {w : World W} {Q : Outcome APIError UInt64 → World W → Prop}
    (hok : ∀ ms, validateCompletionTimeMs ms = true →
      Q (.ok ms) { w with log := .clockRead ms :: w.log })
    (herror : Q (.error error) w) (hdie : Q .died w) : Holds nowMs w Q := by
  apply holds_step
  rintro ⟨fate, n⟩
  cases fate with
  | proceed =>
    by_cases h : n < 2 ^ 64 ∧ validateCompletionTimeMs (UInt64.ofNat n) = true
    · simpa only [if_pos h] using hok _ h.2
    · simpa only [if_neg h] using herror
  | refuse => exact herror
  | panic => exact herror
  | die => exact hdie

/-- The world while an upload is on its way, when the archive may or may not have received it. -/
def uploading (w : World W) (remote : Remote W) : World W :=
  { w with remote := remote, log := .uploadStarted :: w.log }

/-- An upload that is not acknowledged leaves an archive that is no older than before. -/
theorem holds_vssBackup {w : World W} {Q : Outcome APIError Int64 → World W → Prop}
    (hok : ∀ n reported, Q (.ok reported) { w with
      remote := w.remote.upload w.wallet n
      log :=
        .uploadAcknowledged w.remote.manifest (advance (w.remote.manifest.getD 0) n) w.wallet ::
        .uploadStarted :: w.log })
    (hlost : ∀ remote, w.remote.version ≤ remote.version → Q (.error error) (uploading w remote) ∧
      Q .panicked (uploading w remote) ∧ Q .died (uploading w remote)) : Holds vssBackup w Q := by
  have hsame := hlost w.remote le_rfl
  have hreached : ∀ n, _ := fun n => hlost (w.remote.upload w.wallet n) (le_advance _ n)
  apply holds_step
  rintro ⟨fate, n⟩
  cases fate with
  | proceed => exact hok n _
  | refuse => cases n with
    | zero => exact hsame.1
    | succ n => exact (hreached n).1
  | panic => cases n with
    | zero => exact hsame.2.1
    | succ n => exact (hreached n).2.1
  | die => cases n with
    | zero => exact hsame.2.2
    | succ n => exact (hreached n).2.2

/-- The log of an upload that justifies a receipt, newest entry first. -/
def confirmation (before : Option Int64) (r : Completion) (contents : W) : List (Event W) :=
  [.versionRead (some r.version), .clockRead r.completedAtMs,
    .uploadAcknowledged before r.version contents, .uploadStarted, .versionRead before]

theorem confirmation_ofUpload (before : Option Int64) (r : Completion) (contents : W) :
    ∀ e ∈ confirmation before r contents, e.ofUpload = true := by
  simp [confirmation, Event.ofUpload]

theorem confirmedManifestSuccessor_eq_ok {before after canonical : Int64}
    (h : confirmedManifestSuccessor before after = .ok canonical) :
    canonical = after ∧ before.toInt + 1 = after.toInt ∧ 0 < after := by
  unfold confirmedManifestSuccessor at h
  split at h
  · rename_i hsucc
    obtain ⟨hadd, hpos⟩ := hsucc
    refine ⟨by simpa using h.symm, ?_, hpos⟩
    unfold checkedAdd at hadd
    split at hadd
    · rename_i hfits
      obtain rfl : before + 1 = after := by simpa using hadd
      rw [Int64.toInt_add, Int.bmod_eq_of_le] <;> simp at hfits ⊢ <;> omega
    · simp at hadd
  · simp at h

namespace SnapshotPolicy

variable (p : SnapshotPolicy) (serde : Serde) (w : World W)

/-- The receipt is the successor of the manifest an upload found, for this policy's scope. -/
structure Confirmed (before : Remote W) (r : Completion) : Prop where
  scope : r.scope = p.scope
  time : validateCompletionTimeMs r.completedAtMs = true
  positive : 0 < r.version
  successor : before.version + 1 = r.version.toInt

/-- An upload that was given up: only the archive, the error flag and the log may have changed. -/
def Abandoned (w w' : World W) : Prop := ∃ remote failed new, w.remote.version ≤ remote.version ∧
  (∀ e ∈ new, Event.ofUpload e = true) ∧ w' = { w with
    remote := remote
    flags := { w.flags with failed := failed }
    log := new ++ w.log }

theorem Abandoned.refl : Abandoned w w := ⟨w.remote, w.flags.failed, [], le_rfl, by simp, rfl⟩

theorem Abandoned.note {w w' : World W} (h : Abandoned w w') {e : Event W}
    (he : e.ofUpload = true) : Abandoned w { w' with log := e :: w'.log } := by
  obtain ⟨remote, failed, new, hversion, hnew, rfl⟩ := h
  exact ⟨remote, failed, e :: new, hversion, by simpa [he] using hnew, rfl⟩

theorem Abandoned.reached {w w' : World W} (h : Abandoned w w') (remote : Remote W)
    (hremote : w'.remote.version ≤ remote.version) : Abandoned w { w' with remote := remote } := by
  obtain ⟨before, failed, new, hversion, hnew, rfl⟩ := h
  exact ⟨remote, failed, new, hversion.trans hremote, hnew, rfl⟩

theorem Abandoned.fail {w w' : World W} (h : Abandoned w w') :
    Abandoned w { w' with flags := { w'.flags with failed := true } } := by
  obtain ⟨remote, failed, new, hversion, hnew, rfl⟩ := h
  exact ⟨remote, true, new, hversion, hnew, rfl⟩

/-- How the confirmed upload of a backup can end. -/
def Uploaded (w : World W) : Outcome APIError (Completion × Int64) → World W → Prop :=
  fun o w' => match o with
    | .ok (r, _) => p.Confirmed w.remote r ∧ w' = { w with
        remote := ⟨some r.version, some w.wallet⟩
        log := confirmation w.remote.manifest r w.wallet ++ w.log }
    | _ => Abandoned w w'

theorem confirmedUpload_spec : Holds (p.confirmedUpload : Run W _) w (p.Uploaded w) := by
  have hnone := Abandoned.refl w
  refine holds_bind (holds_getBackupVersion ?_ hnone hnone hnone)
  have hread := hnone.note (e := .versionRead w.remote.manifest) rfl
  refine holds_bind (holds_bind (holds_attempt (holds_vssBackup ?_ ?_)))
  · intro n reported
    have hacked := ((hread.note (e := .uploadStarted) rfl).note (e := .uploadAcknowledged
      w.remote.manifest (advance (w.remote.manifest.getD 0) n) w.wallet) rfl).reached
      (w.remote.upload w.wallet n) (le_advance _ n)
    refine holds_pure (holds_bind (holds_nowMs ?_ hacked hacked))
    intro ms hms
    have htimed := hacked.note (e := .clockRead ms) rfl
    refine holds_bind (holds_getBackupVersion ?_ htimed htimed htimed)
    have hchecked := htimed.note
      (e := .versionRead (some (advance (w.remote.manifest.getD 0) n))) rfl
    refine holds_bind (holds_okOrElse ?_ (fun _ => hchecked))
    intro after hafter
    refine holds_bind (holds_propagate ?_ (fun _ _ => hchecked))
    intro canonical hcanonical
    obtain ⟨rfl, hsucc, hpos⟩ := confirmedManifestSuccessor_eq_ok hcanonical
    obtain rfl : advance (w.remote.manifest.getD 0) n = canonical := by
      simpa [Remote.upload] using hafter
    exact holds_pure ⟨⟨rfl, hms, hpos, hsucc⟩, rfl⟩
  · intro remote hremote
    have hlost := (hread.note (e := .uploadStarted) rfl).reached remote hremote
    exact ⟨holds_bind (holds_setFlags (holds_throw hlost.fail)), hlost, hlost⟩

/-- What no backup changes, however it ends. -/
structure Attempted (w w' : World W) : Prop where
  tree : w.tree.AgreeOff (footprint p.pendingPath ∪ footprint p.completionPath) w'.tree
  wallet : w'.wallet = w.wallet
  enabled : w'.flags.enabled = w.flags.enabled
  unknown : w'.flags.unknown = w.flags.unknown
  version : w.remote.version ≤ w'.remote.version

/-- The receipt file carries what the upload recorded at the head of the log confirmed. -/
structure Receipted (r : Completion) (w w' : World W) : Prop where
  confirmed : p.Confirmed w.remote r
  file : w'.tree.look p.completionPath = .file (serde.completion.encode r)
  remote : w'.remote = ⟨some r.version, some w.wallet⟩

/-- A backup whose receipt write was not acknowledged. -/
structure Unstored (w w' : World W) : Prop where
  unsaved : w'.flags.unsaved = w.flags.unsaved
  pending : w'.tree.look p.pendingPath = .file marker ∨
    (w'.tree.look p.pendingPath = w.tree.look p.pendingPath ∧ w'.log = w.log)
  log : ∃ new, w'.log = new ++ w.log ∧ ∀ e ∈ new, Event.ofUpload e = true
  receipt : w'.tree.look p.completionPath = w.tree.look p.completionPath ∨
    ∃ r, p.Receipted serde r w w' ∧
      w'.log = confirmation w.remote.manifest r w.wallet ++ .markerWritten :: w.log

/-- A backup whose receipt write was acknowledged. -/
structure Stored (w w' : World W) : Prop where
  unsaved : w'.flags.unsaved = w.flags.unsaved ∨ w'.flags.unsaved = false
  receipt : ∃ r, p.Receipted serde r w w' ∧ w'.log =
    .receiptStored :: (confirmation w.remote.manifest r w.wallet ++ .markerWritten :: w.log)

/-- Only a backup that is through with its marker is reported as a success. -/
def BackedUp (w : World W) : Outcome APIError Int64 → World W → Prop :=
  fun o w' => p.Attempted w w' ∧ match o with
    | .ok _ => p.Stored serde w w' ∧ ¬p.IsPending w' ∧ w'.flags.failed = false
    | _ => p.Unstored serde w w' ∨ p.Stored serde w w'

/-- The end of a backup, from the confirmed upload on. -/
theorem finishBackup_spec {w : World W} {t : Tree} {r : Completion} (version : Int64)
    (hoff : w.tree.AgreeOff (footprint p.pendingPath) t)
    (ht : t.look p.pendingPath = .file marker) (hr : p.Confirmed w.remote r) :
    Holds (do p.storeReceipt serde r; p.clearMarker; return version : Run W Int64)
      { w with
        tree := t
        remote := ⟨some r.version, some w.wallet⟩
        log := confirmation w.remote.manifest r w.wallet ++ .markerWritten :: w.log }
      (p.BackedUp serde w) := by
  have hversion : w.remote.version ≤ r.version.toInt := by
    have := hr.successor
    omega
  refine holds_bind ((storeReceipt_spec p serde _ r).mono ?_)
  rintro o w₁ ⟨t₁, ⟨hoff₁, ht₁⟩, hw₁⟩
  have htree := (hoff.mono Set.subset_union_left).trans (hoff₁.mono Set.subset_union_right)
  have hmarker := (hoff₁.look p.pending_notMem.2).trans ht
  have hunstored : (t₁.look p.completionPath = t.look p.completionPath ∨
      t₁.look p.completionPath = .file (serde.completion.encode r)) →
      ∀ {w' : World W}, w' = { w with
        tree := t₁
        remote := ⟨some r.version, some w.wallet⟩
        log := confirmation w.remote.manifest r w.wallet ++ .markerWritten :: w.log } →
      p.Attempted w w' ∧ p.Unstored serde w w' := by
    rintro hlook w' rfl
    refine ⟨⟨htree, rfl, rfl, rfl, hversion⟩, rfl, Or.inl hmarker,
      ⟨confirmation w.remote.manifest r w.wallet ++ [.markerWritten], by simp, ?_⟩,
      hlook.imp (·.trans (hoff.look p.completion_notMem.2)) fun h => ⟨r, ⟨hr, h, rfl⟩, rfl⟩⟩
    simpa [or_imp, forall_and, Event.ofUpload] using
      confirmation_ofUpload w.remote.manifest r w.wallet
  cases o with
  | ok _ =>
    subst hw₁
    refine holds_bind ((clearMarker_spec p _).mono ?_)
    intro o w₂ ho
    have herased : p.completionPath ≠ p.pendingPath :=
      fun h => p.completion_notMem.2 (Or.inl h)
    have hlook : (t₁.erase p.pendingPath).look p.completionPath =
        .file (serde.completion.encode r) := by
      rw [Tree.look_congr (Tree.erase_node_of_ne _ herased), ht₁]
    have hattempted := htree.erase (Or.inl (self_mem_footprint p.pendingPath))
    cases o with
    | ok _ =>
      subst ho
      refine holds_pure ⟨⟨hattempted, rfl, rfl, rfl, hversion⟩,
        ⟨Or.inr rfl, r, ⟨hr, hlook, rfl⟩, rfl⟩, ?_, rfl⟩
      simp [IsPending]
    | error e =>
      rcases ho with rfl | rfl
      · exact ⟨⟨htree, rfl, rfl, rfl, hversion⟩, Or.inr ⟨Or.inl rfl, r, ⟨hr, ht₁, rfl⟩, rfl⟩⟩
      · exact ⟨⟨hattempted, rfl, rfl, rfl, hversion⟩, Or.inr ⟨Or.inl rfl, r, ⟨hr, hlook, rfl⟩, rfl⟩⟩
    | panicked => exact ho.elim
    | died =>
      rcases ho with rfl | rfl
      · exact ⟨⟨htree, rfl, rfl, rfl, hversion⟩, Or.inr ⟨Or.inl rfl, r, ⟨hr, ht₁, rfl⟩, rfl⟩⟩
      · exact ⟨⟨hattempted, rfl, rfl, rfl, hversion⟩, Or.inr ⟨Or.inl rfl, r, ⟨hr, hlook, rfl⟩, rfl⟩⟩
  | error e => exact ⟨(hunstored ht₁ hw₁).1, Or.inl (hunstored ht₁ hw₁).2⟩
  | panicked => exact ht₁.elim
  | died => exact ⟨(hunstored ht₁ hw₁).1, Or.inl (hunstored ht₁ hw₁).2⟩

theorem backup_spec : Holds (p.backup serde : Run W Int64) w (p.BackedUp serde w) := by
  have hpending : footprint p.pendingPath ⊆ footprint p.pendingPath ∪ footprint p.completionPath :=
    Set.subset_union_left
  have hcompletion : footprint p.completionPath ⊆
      footprint p.pendingPath ∪ footprint p.completionPath := Set.subset_union_right
  have hsame : p.Attempted w w ∧ p.Unstored serde w w :=
    ⟨⟨.refl _ _, rfl, rfl, rfl, le_rfl⟩, rfl, Or.inr ⟨rfl, rfl⟩, ⟨[], rfl, by simp⟩, Or.inl rfl⟩
  refine holds_bind (holds_primitive (fun _ => ?_) ⟨hsame.1, Or.inl hsame.2⟩
    ⟨hsame.1, Or.inl hsame.2⟩)
  refine holds_bind ((writeMarker_spec p w).mono ?_)
  rintro o w₁ ⟨t, ⟨hoff, ht⟩, hw₁⟩
  have hreceipt := hoff.look (p.completion_notMem).2
  cases o with
  | ok _ =>
    subst hw₁
    refine holds_bind ((confirmedUpload_spec p _).mono ?_)
    intro o w₂ ho
    have habandoned : Abandoned { w with tree := t, log := .markerWritten :: w.log } w₂ →
        p.Attempted w w₂ ∧ p.Unstored serde w w₂ := by
      rintro ⟨remote, failed, new, hversion, hnew, rfl⟩
      exact ⟨⟨hoff.mono hpending, rfl, rfl, rfl, hversion⟩, rfl, Or.inl ht,
        ⟨new ++ [.markerWritten], by simp,
          by simpa [or_imp, forall_and, Event.ofUpload] using hnew⟩, Or.inl hreceipt⟩
    cases o with
    | ok result =>
      obtain ⟨hconfirmed, rfl⟩ := ho
      exact finishBackup_spec p serde result.2 hoff ht hconfirmed
    | error e => exact ⟨(habandoned ho).1, Or.inl (habandoned ho).2⟩
    | panicked => exact ⟨(habandoned ho).1, Or.inl (habandoned ho).2⟩
    | died => exact ⟨(habandoned ho).1, Or.inl (habandoned ho).2⟩
  | error e =>
    subst hw₁
    exact ⟨⟨hoff.mono hpending, rfl, rfl, rfl, le_rfl⟩,
      Or.inl ⟨rfl, ht.symm.imp id (⟨·, rfl⟩), ⟨[], rfl, by simp⟩, Or.inl hreceipt⟩⟩
  | panicked => exact ht.elim
  | died =>
    subst hw₁
    exact ⟨⟨hoff.mono hpending, rfl, rfl, rfl, le_rfl⟩,
      Or.inl ⟨rfl, ht.symm.imp id (⟨·, rfl⟩), ⟨[], rfl, by simp⟩, Or.inl hreceipt⟩⟩

/-- What remains of a backup once its answer is dropped. -/
def BackupEnd (w w' : World W) : Prop :=
  p.Attempted w w' ∧ (p.Unstored serde w w' ∨ p.Stored serde w w')

theorem BackedUp.backupEnd {p : SnapshotPolicy} {serde : Serde} {w w' : World W}
    {o : Outcome APIError Int64} (h : p.BackedUp serde w o w') : p.BackupEnd serde w w' := by
  obtain ⟨hattempted, ho⟩ := h
  cases o with
  | ok _ => exact ⟨hattempted, Or.inr ho.1⟩
  | error e => exact ⟨hattempted, ho⟩
  | panicked => exact ⟨hattempted, ho⟩
  | died => exact ⟨hattempted, ho⟩

theorem BackupEnd.fail {p : SnapshotPolicy} {serde : Serde} {w w' : World W}
    (h : p.BackupEnd serde w w') :
    p.BackupEnd serde w { w' with flags := { w'.flags with failed := true } } := by
  obtain ⟨⟨htree, hwallet, henabled, hunknown, hversion⟩, hend⟩ := h
  refine ⟨⟨htree, hwallet, henabled, hunknown, hversion⟩, hend.imp ?_ ?_⟩
  · rintro ⟨hunsaved, hpending, hlog, hreceipt⟩
    refine ⟨hunsaved, hpending, hlog, hreceipt.imp id ?_⟩
    rintro ⟨r, ⟨hconfirmed, hfile, hremote⟩, hnew⟩
    exact ⟨r, ⟨hconfirmed, hfile, hremote⟩, hnew⟩
  · rintro ⟨hunsaved, r, ⟨hconfirmed, hfile, hremote⟩, hnew⟩
    exact ⟨hunsaved, r, ⟨hconfirmed, hfile, hremote⟩, hnew⟩

/-- The automatic snapshot of a dropped guard runs only while the preference is known to be on and
no panic is unwinding, and it never reports its failure to the caller. -/
theorem afterMutation_spec (panicking : Bool) :
    Holds (p.afterMutation serde panicking : Run W Unit) w (fun o w' => (∀ e, o ≠ .error e) ∧
      ((o = .ok () ∧ w' = w) ∨ (w.flags.unknown = false ∧ w.flags.enabled = true ∧
        panicking = false ∧ p.BackupEnd serde w w'))) := by
  refine holds_bind (holds_read (holds_ite ?_ ?_))
  · exact fun _ => holds_pure ⟨nofun, Or.inl ⟨rfl, rfl⟩⟩
  · intro hrun
    obtain ⟨⟨hunknown, henabled⟩, hpanicking⟩ : (w.flags.unknown = false ∧
        w.flags.enabled = true) ∧ panicking = false := by simpa using hrun
    refine holds_bind (holds_attempt ((backup_spec p serde w).mono ?_))
    intro o w' ho
    have hend := ho.backupEnd
    cases o with
    | ok version => exact holds_pure ⟨nofun, Or.inr ⟨hunknown, henabled, hpanicking, hend⟩⟩
    | error e =>
      exact holds_setFlags ⟨nofun, Or.inr ⟨hunknown, henabled, hpanicking, hend.fail⟩⟩
    | panicked => exact ⟨nofun, Or.inr ⟨hunknown, henabled, hpanicking, hend⟩⟩
    | died => exact ⟨nofun, Or.inr ⟨hunknown, henabled, hpanicking, hend⟩⟩

/-! ### Status reads and loads -/

theorem metadata_spec : Holds (p.metadata serde : Run W Metadata) w (fun o w' => w = w' ∧
    match o with
      | .ok m => w.flags.unknown = false ∧ m.automaticBackupEnabled = w.flags.enabled ∧
          match m.lastBackup with
            | none => w.tree.look p.completionPath = .absent
            | some r => p.validReceipt r = true ∧ ∃ bytes,
                w.tree.look p.completionPath = .file bytes ∧
                  serde.completion.decode bytes = some r
      | .error _ | .died => True
      | .panicked => False) := by
  refine holds_bind (holds_read (holds_ite (fun _ => holds_throw ⟨rfl, trivial⟩) ?_))
  intro hunknown
  have hknown : w.flags.unknown = false := by simpa using hunknown
  refine holds_bind (holds_bind (holds_onTree (readBounded_spec.mono ?_)))
  rintro o t ⟨rfl, ho⟩
  match o, ho with
  | .ok none, ho => exact holds_pure (holds_bind (holds_read (holds_pure ⟨rfl, hknown, rfl, ho⟩)))
  | .ok (some bytes), ho =>
    refine holds_bind (holds_okOrElse (fun r hr => ?_) (fun _ => ⟨rfl, trivial⟩))
    obtain ⟨hdecode, hvalid⟩ := Option.filter_eq_some_iff.mp hr
    exact holds_pure (holds_bind (holds_read (holds_pure
      ⟨rfl, hknown, rfl, hvalid, bytes, ho.1, hdecode⟩)))
  | .error _, _ => exact ⟨rfl, trivial⟩
  | .panicked, ho => exact ho.elim
  | .died, _ => exact ⟨rfl, trivial⟩

/-- The world right after a load has fixed the flags of a new policy. -/
def opened (w : World W) (enabled : Bool) : World W :=
  { w with flags := ⟨enabled, false, false, false⟩, log := .loaded :: w.log }

/-- How a load can end: it stops before any flag is set, or goes on with the saved choice, or with
the caller's choice when there is no file. Only a file that is missing is committed. -/
def Loaded (initial : Bool) (w : World W) (o : Outcome APIError Unit) (w' : World W) : Prop :=
  (w' = w ∧ o ≠ .ok () ∧ o ≠ .panicked) ∨
  ∃ enabled, (w.tree.look p.path = .absent ∧ enabled = initial ∨ p.SavedAs serde w.tree enabled) ∧
    ((w' = opened w enabled ∧ o ≠ .panicked ∧ (o = .ok () → p.SavedAs serde w.tree enabled)) ∨
      p.Committed serde enabled (opened w enabled) o w')

theorem load_spec (initial : Bool) :
    Holds (p.load serde initial : Run W Unit) w (p.Loaded serde initial w) := by
  refine holds_bind ((savedPreference_spec p serde w).mono ?_)
  rintro o _ ⟨rfl, ho⟩
  have hgo : ∀ saved : Option Bool,
      saved.elim (w.tree.look p.path = .absent) (p.SavedAs serde w.tree) → Holds (do
        .update fun w => opened w (saved.getD initial)
        if (← onTree (orError (pathExists p.path))) then return ()
        else p.commitEnabled serde (saved.getD initial) : Run W Unit) w
          (p.Loaded serde initial w) := by
    intro saved hsaved
    have hchoice : w.tree.look p.path = .absent ∧ saved.getD initial = initial ∨
        p.SavedAs serde w.tree (saved.getD initial) := by
      cases saved with
      | none => exact Or.inl ⟨hsaved, rfl⟩
      | some choice => exact Or.inr hsaved
    refine holds_bind (holds_update (holds_bind (holds_onTree (holds_mapError
      (holds_pathExists ?_ ?_ ?_)))))
    · intro hexists
      refine holds_pure (Or.inr ⟨_, hchoice, Or.inl ⟨rfl, (by simp), fun _ => ?_⟩⟩)
      exact hchoice.resolve_left fun h => hexists (Tree.look_eq_absent.mp h.1)
    · exact (commitEnabled_spec p serde _ _).mono fun o w' h => Or.inr ⟨_, hchoice, Or.inr h⟩
    · exact Or.inr ⟨_, hchoice, Or.inl ⟨rfl, (by simp), (by simp)⟩⟩
  cases o with
  | ok saved => exact hgo saved (by cases saved <;> exact ho)
  | error e => exact Or.inl ⟨rfl, (by simp), (by simp)⟩
  | panicked => exact ho.elim
  | died => exact Or.inl ⟨rfl, (by simp), (by simp)⟩

end SnapshotPolicy
end RgbLightningNode.Snapshot
