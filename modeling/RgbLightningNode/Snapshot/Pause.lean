import RgbLightningNode.Snapshot.Preference

/-!
# A paused policy uploads nothing by itself

Turning the preference off is a barrier: until it is turned on again no guard, load or startup step
uploads. Turning it on uploads first, so that the acknowledged preference stands for a saved wallet.
-/

namespace RgbLightningNode.Snapshot
open Faulty FileSystem Transition

variable {W V : Type}

/-- Every entry between two logs is of one kind. -/
def Adds (E : Event W → Prop) (w w' : World W) : Prop :=
  ∃ new, w'.log = new ++ w.log ∧ ∀ e ∈ new, E e

theorem Adds.refl {E : Event W → Prop} (w : World W) : Adds E w w := ⟨[], rfl, by simp⟩

theorem Adds.trans {E : Event W → Prop} {w w₁ w' : World W} (h : Adds E w w₁) (h' : Adds E w₁ w') :
    Adds E w w' := by
  obtain ⟨new, hlog, hnew⟩ := h
  obtain ⟨new', hlog', hnew'⟩ := h'
  refine ⟨new' ++ new, by simp [hlog', hlog], fun e he => ?_⟩
  rcases List.mem_append.mp he with he | he
  · exact hnew' e he
  · exact hnew e he

/-- The entries between two logs contain no upload. -/
abbrev Silent (w w' : World W) : Prop := Adds (· ≠ Event.uploadStarted) w w'

namespace SnapshotPolicy

variable {p : SnapshotPolicy} {serde : Serde} {w w' w₁ : World W}

/-- What a call that does not set the preference leaves of it. -/
structure SamePreference (p : SnapshotPolicy) (w w' : World W) : Prop where
  enabled : w'.flags.enabled = w.flags.enabled
  unknown : w'.flags.unknown = w.flags.unknown
  file : w'.tree.look p.path = w.tree.look p.path

theorem SamePreference.refl (w : World W) : p.SamePreference w w := ⟨rfl, rfl, rfl⟩

theorem SamePreference.trans (h : p.SamePreference w w₁) (h' : p.SamePreference w₁ w') :
    p.SamePreference w w' :=
  ⟨h'.enabled.trans h.enabled, h'.unknown.trans h.unknown, h'.file.trans h.file⟩

theorem look_path_erase (t : Tree) : (t.erase p.pendingPath).look p.path = t.look p.path :=
  Tree.look_congr (Tree.erase_node_of_ne _ fun h => p.path_notMem.1 (Or.inl h))

theorem BackupEnd.samePreference (h : p.BackupEnd serde w w') : p.SamePreference w w' := by
  obtain ⟨⟨htree, _, henabled, hunknown, _⟩, _⟩ := h
  refine ⟨henabled, hunknown, htree.look ?_⟩
  rintro (h | h)
  · exact p.path_notMem.1 h
  · exact p.path_notMem.2 h

theorem Armed.samePreference (h : p.Armed w w') : p.SamePreference w w' := by
  obtain ⟨t, hoff, ⟨_, rfl⟩ | ⟨_, rfl⟩⟩ := h
  · exact ⟨rfl, rfl, hoff.look p.path_notMem.1⟩
  · exact ⟨rfl, rfl, hoff.look p.path_notMem.1⟩

theorem Armed.adds {E : Event W → Prop} (h : p.Armed w w') (hwritten : E .markerWritten)
    (hrefused : E .markerRefused) : Adds E w w' := by
  obtain ⟨t, _, ⟨_, rfl⟩ | ⟨_, rfl⟩⟩ := h
  · exact ⟨[.markerWritten], rfl, by simpa using hwritten⟩
  · exact ⟨[.markerRefused], rfl, by simpa using hrefused⟩

theorem BackupEnd.adds {E : Event W → Prop} (h : p.BackupEnd serde w w')
    (hupload : ∀ e : Event W, e.ofUpload = true → E e) (hstored : E .receiptStored) :
    Adds E w w' := by
  obtain ⟨_, ⟨_, _, ⟨new, hlog, hnew⟩, _⟩ | ⟨_, r, _, hlog⟩⟩ := h
  · exact ⟨new, hlog, fun e he => hupload e (hnew e he)⟩
  · refine ⟨.receiptStored :: (confirmation w.remote.manifest r w.wallet ++ [.markerWritten]),
      by simp [hlog], fun e he => ?_⟩
    simp only [List.mem_cons, List.mem_append, List.not_mem_nil, or_false] at he
    rcases he with rfl | he | rfl
    · exact hstored
    · exact hupload e (confirmation_ofUpload _ _ _ e he)
    · exact hupload _ rfl

theorem HalfArmed.samePreference (h : p.HalfArmed w w') : p.SamePreference w w' := by
  obtain ⟨t, hoff, _, rfl⟩ := h
  exact ⟨rfl, rfl, hoff.look p.path_notMem.1⟩

theorem HalfArmed.silent (h : p.HalfArmed w w') : Silent w w' := by
  obtain ⟨t, _, _, rfl⟩ := h
  exact .refl _

theorem PreferenceOnly.silent (h : p.PreferenceOnly w w') : Silent w w' := by
  obtain ⟨_, _, _, new, hlog, hnew⟩ := h
  refine ⟨new, hlog, fun e he => ?_⟩
  rintro rfl
  simpa [Event.ofPreference] using hnew _ he

theorem samePreference_relation : GuardRelation serde p (p.SamePreference (W := W)) where
  refl := .refl
  trans := .trans
  armed := Armed.samePreference
  halfArmed := HalfArmed.samePreference
  changed _ _ := ⟨rfl, rfl, rfl⟩
  cleared _ := ⟨rfl, rfl, look_path_erase _⟩
  unmarked _ := ⟨rfl, rfl, look_path_erase _⟩
  automatic _ h := h.samePreference

/-- Nothing is uploaded from a world with the preference off, and it stays off. -/
def Paused (w w' : World W) : Prop :=
  w.flags.enabled = false → Silent w w' ∧ w'.flags.enabled = false

theorem paused_relation : GuardRelation serde p (Paused (W := W)) where
  refl w hoff := ⟨.refl w, hoff⟩
  trans h h' hoff := ⟨(h hoff).1.trans (h' (h hoff).2).1, (h' (h hoff).2).2⟩
  armed h hoff := ⟨h.adds nofun nofun, h.samePreference.enabled.trans hoff⟩
  halfArmed h hoff := ⟨h.silent, h.samePreference.enabled.trans hoff⟩
  changed _ _ hoff := ⟨⟨[.changeAdmitted], rfl, by simp⟩, hoff⟩
  cleared _ hoff := ⟨⟨[.intentCleared], rfl, by simp⟩, hoff⟩
  unmarked _ hoff := ⟨⟨[], rfl, by simp⟩, hoff⟩
  automatic hon _ hoff := by simp [hoff] at hon

theorem Committed.staysOff {o : Outcome APIError Unit} (h : p.Committed serde false w o w')
    (hsaved : p.SavedAs serde w.tree false) (hoff : w.flags.enabled = false) :
    w'.flags.enabled = false := by
  have hafter := h.savedAs hsaved
  obtain ⟨t, flags, _, _, hend⟩ := h
  cases o with
  | ok _ =>
    obtain ⟨_, _, rfl⟩ := hend
    rfl
  | error e =>
    obtain ⟨hflags, rfl⟩ := hend
    rcases hflags with ⟨rfl, _⟩ | ⟨actual, rfl, hactual⟩ | rfl
    · exact hoff
    · exact hactual.unique hafter
    · exact hoff
  | panicked => exact hend.elim
  | died =>
    subst hend
    exact hoff

/-- The preference is off on disk and in every process that has the scope open. -/
def Barred (p : SnapshotPolicy) (serde : Serde) (s : Host W) : Prop :=
  p.SavedAs serde s.world.tree false ∧ (s.live = true → s.world.flags.enabled = false)

variable [DecidableEq V] {view : W → V} [DecidableEq W] {s t u : Host W} {label : Label W}

theorem call_samePreference {c : Call W} (hset : ∀ enabled, c ≠ .setEnabled enabled) :
    Holds (c.run serde view p) w (fun _ w' => p.SamePreference w w') := by
  by_cases hbackup : c = .backup
  · subst hbackup
    exact backup_call_spec.mono fun _ _ h => h.samePreference
  · exact samePreference_relation.call hbackup hset

theorem Barred.step (h : p.Barred serde s)
    (hresume : ∀ answer, label ≠ .call (.setEnabled true) answer)
    (hstep : Step serde view p s label t) : p.Barred serde t := by
  obtain ⟨hsaved, hoff⟩ := h
  cases hstep with
  | @call w c ds =>
    by_cases hset : ∃ enabled, c = .setEnabled enabled
    · obtain ⟨enabled, rfl⟩ := hset
      obtain rfl : enabled = false := by
        cases enabled with
        | false => rfl
        | true => exact absurd rfl (hresume _)
      rcases @setEnabled_spec W V _ _ serde view p w false ds with
        ⟨hon, _⟩ | ⟨w₁, hcommit, ⟨_, rfl⟩ | ⟨hon, _⟩⟩
      · simp at hon
      · exact ⟨hcommit.savedAs hsaved, fun _ => hcommit.staysOff hsaved (hoff rfl)⟩
      · simp at hon
    · have hsame := @call_samePreference W V p serde w _ view _ c
        (fun enabled h => hset ⟨enabled, h⟩) ds
      exact ⟨hsaved.congr hsame.file, fun _ => hsame.enabled.trans (hoff rfl)⟩
  | @load w initial ds =>
    have hspec := p.load_spec serde w initial ds
    refine ⟨hspec.savedAs hsaved, fun hlive => ?_⟩
    have hok : (p.load serde initial w ds).1 = .ok () := by simpa using hlive
    have hafter := hspec.savedAs hsaved
    rw [hok] at hspec
    exact hspec.ok.1.unique hafter
  | stop => exact ⟨hsaved, by simp⟩

/-- Behind the barrier only a manual backup uploads. -/
theorem Barred.silent (h : p.Barred serde s)
    (hresume : ∀ answer, label ≠ .call (.setEnabled true) answer)
    (hmanual : ∀ answer, label ≠ .call .backup answer) (hstep : Step serde view p s label t) :
    Silent s.world t.world := by
  obtain ⟨_, hoff⟩ := h
  cases hstep with
  | @call w c ds =>
    by_cases hset : ∃ enabled, c = .setEnabled enabled
    · obtain ⟨enabled, rfl⟩ := hset
      obtain rfl : enabled = false := by
        cases enabled with
        | false => rfl
        | true => exact absurd rfl (hresume _)
      rcases @setEnabled_spec W V _ _ serde view p w false ds with
        ⟨hon, _⟩ | ⟨w₁, hcommit, ⟨_, rfl⟩ | ⟨hon, _⟩⟩
      · simp at hon
      · exact hcommit.preferenceOnly.1.silent
      · simp at hon
    · have hbackup : c ≠ .backup := by
        rintro rfl
        exact hmanual _ rfl
      have hpaused := @GuardRelation.call W V _ _ serde view p w Paused paused_relation c hbackup
        (fun enabled h => hset ⟨enabled, h⟩) ds
      exact (hpaused (hoff rfl)).1
  | @load w initial ds =>
    rcases p.load_spec serde w initial ds with ⟨hsame, _⟩ | ⟨enabled, _, ⟨hopened, _⟩ | hcommit⟩
    · rw [hsame]
      exact .refl _
    · rw [hopened]
      exact ⟨[.loaded], rfl, by simp⟩
    · have hopened : Silent w (opened w enabled) := ⟨[.loaded], rfl, by simp⟩
      exact hopened.trans hcommit.preferenceOnly.1.silent
  | stop => exact .refl _

theorem Honest.call (h : p.Honest serde s) (hstep : Step serde view p s label t) :
    p.Honest serde t := by
  intro hlive
  cases hstep with
  | @call w c ds =>
    have hanswer : (c.run serde view p w ds).1 ≠ .died := by simpa using hlive
    have hw := h rfl
    have hkeep : ∀ {w' : World W}, p.SamePreference w w' →
        w'.flags.unknown = true ∨ p.SavedAs serde w'.tree w'.flags.enabled := by
      rintro w' ⟨henabled, hunknown, hfile⟩
      rw [henabled, hunknown]
      exact hw.imp id (·.congr hfile)
    by_cases hset : ∃ enabled, c = .setEnabled enabled
    · obtain ⟨enabled, rfl⟩ := hset
      rcases @setEnabled_spec W V _ _ serde view p w enabled ds with
        ⟨_, _, _, hbackup⟩ | ⟨w₁, hcommit, _⟩
      · exact hkeep hbackup.samePreference
      · exact hcommit.honest hanswer
    · exact hkeep
        (@call_samePreference W V p serde w _ view _ c (fun enabled h => hset ⟨enabled, h⟩) ds)
  | @load w initial ds =>
    have hok : (p.load serde initial w ds).1 = .ok () := by simpa using hlive
    have hspec := p.load_spec serde w initial ds
    rw [hok] at hspec
    exact Or.inr hspec.ok.1
  | stop => simp at hlive

end SnapshotPolicy

end RgbLightningNode.Snapshot
