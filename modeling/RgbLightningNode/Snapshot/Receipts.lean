import RgbLightningNode.Snapshot.History

/-!
# Completion receipts are truthful

Between any two states of a history the receipt file is either the same or carries a receipt that
an upload in between justifies, and that is newer than every manifest before that upload.
-/

namespace RgbLightningNode.Snapshot
open Faulty FileSystem Transition

variable {W V : Type}

/-- The entries hold an acknowledged upload that moved the manifest from `v - 1` to `v`, then a
clock reading, then a version read that confirmed `v`, all without anything in between. -/
def Justifies (r : Completion) (entries : List (Event W)) : Prop :=
  ∃ newer older before contents,
    entries = newer ++ (confirmation before r contents ++ older) ∧
      (before.getD 0).toInt + 1 = r.version.toInt

theorem Justifies.later {r : Completion} {entries : List (Event W)} (h : Justifies r entries)
    (later : List (Event W)) : Justifies r (later ++ entries) := by
  obtain ⟨newer, older, before, contents, rfl, hsucc⟩ := h
  exact ⟨later ++ newer, older, before, contents, by simp, hsucc⟩

theorem Justifies.earlier {r : Completion} {entries : List (Event W)} (h : Justifies r entries)
    (earlier : List (Event W)) : Justifies r (entries ++ earlier) := by
  obtain ⟨newer, older, before, contents, rfl, hsucc⟩ := h
  exact ⟨newer, older ++ earlier, before, contents, by simp, hsucc⟩

namespace SnapshotPolicy

variable {p : SnapshotPolicy} {serde : Serde} {w w' w₁ : World W}

/-- A receipt that was recorded after `w`. -/
structure Recent (p : SnapshotPolicy) (r : Completion) (new : List (Event W)) (w w' : World W) :
    Prop where
  scope : r.scope = p.scope
  justified : Justifies r new
  newer : w.remote.version < r.version.toInt
  reached : r.version.toInt ≤ w'.remote.version

/-- What any part of a history does to the receipt file. -/
def Advanced (p : SnapshotPolicy) (serde : Serde) (w w' : World W) : Prop :=
  w.remote.version ≤ w'.remote.version ∧ ∃ new, w'.log = new ++ w.log ∧
    (w'.tree.look p.completionPath = w.tree.look p.completionPath ∨
      ∃ r, p.Recent r new w w' ∧
        w'.tree.look p.completionPath = .file (serde.completion.encode r))

theorem Advanced.trans (h : p.Advanced serde w w₁) (h' : p.Advanced serde w₁ w') :
    p.Advanced serde w w' := by
  obtain ⟨hversion, new, hlog, hlook⟩ := h
  obtain ⟨hversion', new', hlog', hlook'⟩ := h'
  refine ⟨hversion.trans hversion', new' ++ new, by simp [hlog', hlog], ?_⟩
  rcases hlook' with hsame | ⟨r, ⟨hscope, hjust, hnewer, hreached⟩, hfile⟩
  · rcases hlook with hsame' | ⟨r, ⟨hscope, hjust, hnewer, hreached⟩, hfile⟩
    · exact Or.inl (hsame.trans hsame')
    · exact Or.inr ⟨r, ⟨hscope, hjust.later new', hnewer, hreached.trans hversion'⟩,
        hsame.trans hfile⟩
  · exact Or.inr ⟨r, ⟨hscope, hjust.earlier new, hversion.trans_lt hnewer, hreached⟩, hfile⟩

/-- Whatever leaves the archive and the receipt file alone advances nothing. -/
theorem Advanced.of_same (new : List (Event W)) (hlog : w'.log = new ++ w.log)
    (hremote : w'.remote = w.remote)
    (hlook : w'.tree.look p.completionPath = w.tree.look p.completionPath) :
    p.Advanced serde w w' :=
  ⟨hremote ▸ le_rfl, new, hlog, Or.inl hlook⟩

theorem Advanced.refl (w : World W) : p.Advanced serde w w := .of_same [] rfl rfl rfl

theorem completion_ne_pending : p.completionPath ≠ p.pendingPath :=
  fun h => p.completion_notMem.2 (Or.inl h)

theorem look_completion_erase (t : Tree) :
    (t.erase p.pendingPath).look p.completionPath = t.look p.completionPath :=
  Tree.look_congr (Tree.erase_node_of_ne _ completion_ne_pending)

theorem BackupEnd.advanced (h : p.BackupEnd serde w w') : p.Advanced serde w w' := by
  obtain ⟨hattempted, hend⟩ := h
  have hrecent : ∀ {r : Completion} {new : List (Event W)}, p.Receipted serde r w w' →
      Justifies r new → p.Recent r new w w' := by
    intro r new hr hjust
    have hsucc := hr.confirmed.successor
    refine ⟨hr.confirmed.scope, hjust, by omega, ?_⟩
    rw [hr.remote]
    exact le_rfl
  have hconfirmation : ∀ (r : Completion) (newer : List (Event W)), p.Confirmed w.remote r →
      Justifies r (newer ++ (confirmation w.remote.manifest r w.wallet ++ [.markerWritten])) :=
    fun r newer hr => ⟨newer, [.markerWritten], _, _, rfl, hr.successor⟩
  rcases hend with ⟨_, _, ⟨new, hlog, _⟩, hsame | ⟨r, hr, hnew⟩⟩ | ⟨_, r, hr, hnew⟩
  · exact ⟨hattempted.version, new, hlog, Or.inl hsame⟩
  · refine ⟨hattempted.version, [] ++ (confirmation w.remote.manifest r w.wallet ++
      [.markerWritten]), by simp [hnew], Or.inr ⟨r, hrecent hr ?_, hr.file⟩⟩
    exact hconfirmation r [] hr.confirmed
  · refine ⟨hattempted.version, [.receiptStored] ++ (confirmation w.remote.manifest r w.wallet ++
      [.markerWritten]), by simp [hnew], Or.inr ⟨r, hrecent hr ?_, hr.file⟩⟩
    exact hconfirmation r [.receiptStored] hr.confirmed

theorem PreferenceOnly.advanced (h : p.PreferenceOnly w w') : p.Advanced serde w w' := by
  obtain ⟨htree, _, hremote, new, hlog, _⟩ := h
  exact .of_same new hlog hremote (htree.look p.completion_notMem.1)

theorem Armed.advanced (h : p.Armed w w') : p.Advanced serde w w' := by
  obtain ⟨t, hoff, ⟨_, rfl⟩ | ⟨_, rfl⟩⟩ := h
  · exact .of_same [.markerWritten] rfl rfl (hoff.look p.completion_notMem.2)
  · exact .of_same [.markerRefused] rfl rfl (hoff.look p.completion_notMem.2)

theorem HalfArmed.advanced (h : p.HalfArmed w w') : p.Advanced serde w w' := by
  obtain ⟨t, hoff, _, rfl⟩ := h
  exact .of_same [] rfl rfl (hoff.look p.completion_notMem.2)

theorem Loaded.advanced {initial : Bool} {o : Outcome APIError Unit}
    (h : p.Loaded serde initial w o w') : p.Advanced serde w w' := by
  rcases h with ⟨rfl, _⟩ | ⟨enabled, _, ⟨rfl, _⟩ | hcommit⟩
  · exact .refl _
  · exact .of_same [.loaded] rfl rfl rfl
  · have hopened : p.Advanced serde w (opened w enabled) := .of_same [.loaded] rfl rfl rfl
    exact hopened.trans hcommit.preferenceOnly.1.advanced

/-- The receipt a status read reports. -/
def Reports (p : SnapshotPolicy) (serde : Serde) (w : World W) (r : Completion) : Prop :=
  ∃ ds m, (p.metadata serde w ds).1 = .ok m ∧ m.lastBackup = some r

theorem Reports.file {r : Completion} (h : p.Reports serde w r) : ∃ bytes,
    w.tree.look p.completionPath = .file bytes ∧ serde.completion.decode bytes = some r := by
  obtain ⟨ds, m, hm, hr⟩ := h
  have hspec := (p.metadata_spec serde w ds).2
  rw [hm] at hspec
  simp only [hr] at hspec
  exact hspec.2.2.2

theorem eq_of_reports {r r' : Completion} (h : p.Reports serde w r)
    (hlook : w.tree.look p.completionPath = .file (serde.completion.encode r')) : r = r' := by
  obtain ⟨bytes, hbytes, hdecode⟩ := h.file
  obtain rfl : serde.completion.encode r' = bytes := by simpa [hlook] using hbytes
  simpa [serde.completion.decode_encode] using hdecode.symm

theorem advanced_relation : GuardRelation serde p (p.Advanced serde (W := W)) where
  refl := .refl
  trans := .trans
  armed := Armed.advanced
  halfArmed := HalfArmed.advanced
  changed _ _ := .of_same [.changeAdmitted] rfl rfl rfl
  cleared _ := .of_same [.intentCleared] rfl rfl (look_completion_erase _)
  unmarked _ := .of_same [] rfl rfl (look_completion_erase _)
  automatic _ h := h.advanced

variable [DecidableEq V] {view : W → V} [DecidableEq W]

/-- No call touches the receipt file except through a confirmed backup. -/
theorem call_advanced (c : Call W) (w : World W) :
    Holds (c.run serde view p) w (fun _ w' => p.Advanced serde w w') := by
  by_cases hbackup : c = .backup
  · subst hbackup
    exact backup_call_spec.mono fun _ _ h => h.advanced
  by_cases hset : ∃ enabled, c = .setEnabled enabled
  · obtain ⟨enabled, rfl⟩ := hset
    refine (setEnabled_spec enabled).mono ?_
    rintro o w' (⟨_, _, _, hbackup⟩ | ⟨w₁, hcommit, ⟨_, rfl⟩ | ⟨_, _, _, hbacked⟩⟩)
    · exact hbackup.advanced
    · exact hcommit.preferenceOnly.1.advanced
    · exact hbacked.backupEnd.advanced.trans hcommit.preferenceOnly.1.advanced
  · exact advanced_relation.call hbackup fun enabled h => hset ⟨enabled, h⟩

theorem Advanced.step {s t : Host W} {label : Label W} (h : Step serde view p s label t) :
    p.Advanced serde s.world t.world := by
  cases h with
  | @call w c ds => exact call_advanced c w ds
  | @load w initial ds => exact (p.load_spec serde w initial ds).advanced
  | stop => exact .refl _

theorem Advanced.trace {s t : Host W} {labels : List (Label W)}
    (h : Trace (Step serde view p) s labels t) : p.Advanced serde s.world t.world := by
  induction h with
  | nil => exact .refl _
  | snoc _ last ih => exact ih.trans (.step last)

/-- In every run from a scope without a receipt: a reported receipt is this scope's and the log
justifies it; a step changes the receipt file only to a receipt that an upload of the same step
justifies; and of two receipts reported one after the other, the later one is the same or has the
greater version. -/
theorem receipts_truthful {s t : Host W} {labels : List (Label W)}
    (hstart : s.world.tree.look p.completionPath = .absent)
    (hrun : Trace (Step serde view p) s labels t) :
    (∀ r, p.Reports serde t.world r → r.scope = p.scope ∧ Justifies r t.world.log) ∧
    (∀ label u, Step serde view p t label u → ∃ new, u.world.log = new ++ t.world.log ∧
      (u.world.tree.look p.completionPath = t.world.tree.look p.completionPath ∨
        ∃ r, r.scope = p.scope ∧ Justifies r new ∧
          u.world.tree.look p.completionPath = .file (serde.completion.encode r))) ∧
    ∀ more u r r', Trace (Step serde view p) t more u → p.Reports serde t.world r →
      p.Reports serde u.world r' → r = r' ∨ r.version < r'.version := by
  have hadvanced := Advanced.trace hrun
  refine ⟨fun r hr => ?_, fun label u hstep => ?_, fun more u r r' hmore hr hr' => ?_⟩
  · obtain ⟨_, new, hlog, hsame | ⟨r', hrecent, hfile⟩⟩ := hadvanced
    · obtain ⟨bytes, hbytes, _⟩ := hr.file
      simp [hsame, hstart] at hbytes
    · obtain rfl := eq_of_reports hr hfile
      exact ⟨hrecent.scope, hlog ▸ hrecent.justified.earlier _⟩
  · obtain ⟨_, new, hlog, hend⟩ := Advanced.step hstep
    exact ⟨new, hlog, hend.imp id fun ⟨r, hrecent, hfile⟩ =>
      ⟨r, hrecent.scope, hrecent.justified, hfile⟩⟩
  · have hreached : r.version.toInt ≤ t.world.remote.version := by
      obtain ⟨_, new, _, hsame | ⟨r₀, hrecent, hfile⟩⟩ := hadvanced
      · obtain ⟨bytes, hbytes, _⟩ := hr.file
        simp [hsame, hstart] at hbytes
      · obtain rfl := eq_of_reports hr hfile
        exact hrecent.reached
    obtain ⟨_, new, _, hsame | ⟨r₁, hrecent, hfile⟩⟩ := Advanced.trace hmore
    · obtain ⟨bytes, hbytes, hdecode⟩ := hr.file
      obtain ⟨bytes', hbytes', hdecode'⟩ := hr'.file
      rw [hsame, hbytes] at hbytes'
      obtain rfl : bytes = bytes' := by simpa using hbytes'
      exact Or.inl (by simpa [hdecode] using hdecode')
    · obtain rfl := eq_of_reports hr' hfile
      exact Or.inr (Int64.lt_iff_toInt_lt.mpr (hreached.trans_lt hrecent.newer))

theorem receipts_truthful_sample :
    Justifies ⟨1, 1700000000000, sample.scope⟩ sampleChanged.log := by
  have hload : Step jsonSerde id sample ⟨sampleStart, false⟩ (.load true (.ok ()))
      ⟨sampleLoaded, true⟩ := .loaded sample_load
  have hmutate : Step jsonSerde id sample ⟨sampleLoaded, true⟩ (.call (.mutate 7) (.ok ()))
      ⟨sampleChanged, true⟩ := .called sample_change nofun
  have hreports : sample.Reports jsonSerde sampleChanged ⟨1, 1700000000000, sample.scope⟩ :=
    ⟨[], ⟨1, true, some ⟨1, 1700000000000, sample.scope⟩⟩, by decide +kernel, rfl⟩
  obtain ⟨htruthful, _⟩ := receipts_truthful rfl ((Trace.single hload).snoc hmutate)
  exact (htruthful _ hreports).2

end SnapshotPolicy

end RgbLightningNode.Snapshot
