import RgbLightningNode.Snapshot.History

/-!
# The preference in memory is the preference on disk

Loads, commits and restarts of one scope, with every file step free to fail: either the policy has
given up knowing its preference and says so, or the file carries what memory carries.
-/

namespace RgbLightningNode.Snapshot
open Faulty FileSystem Transition

variable {W : Type}

inductive PolicyLabel where
  | load (initial : Bool) (answer : Outcome APIError Unit)
  | commit (enabled : Bool) (answer : Outcome APIError Unit)
  | restart
  deriving DecidableEq

def PolicyLabel.isCommit : PolicyLabel → Bool
  | .commit _ _ => true
  | _ => false

inductive PolicyStep (serde : Serde) (p : SnapshotPolicy) :
    Host W → PolicyLabel → Host W → Prop where
  | load {w : World W} (initial : Bool) (ds : Schedule) :
    PolicyStep serde p ⟨w, false⟩ (.load initial (p.load serde initial w ds).1)
      ⟨(p.load serde initial w ds).2.1, decide ((p.load serde initial w ds).1 = .ok ())⟩
  | commit {w : World W} (enabled : Bool) (ds : Schedule) :
    PolicyStep serde p ⟨w, true⟩ (.commit enabled (p.commitEnabled serde enabled w ds).1)
      ⟨(p.commitEnabled serde enabled w ds).2.1,
        decide ((p.commitEnabled serde enabled w ds).1 ≠ .died)⟩
  | restart {w : World W} : PolicyStep serde p ⟨w, true⟩ .restart ⟨w, false⟩

namespace PolicyStep

variable {p : SnapshotPolicy} {serde : Serde} {w : World W} {ds : Schedule}

theorem loaded {initial : Bool} (h : (p.load serde initial w ds).1 = .ok ()) :
    PolicyStep serde p ⟨w, false⟩ (.load initial (.ok ()))
      ⟨(p.load serde initial w ds).2.1, true⟩ := by
  have hstep := @PolicyStep.load W serde p w initial ds
  rwa [h, decide_eq_true rfl] at hstep

theorem committed {enabled : Bool} (h : (p.commitEnabled serde enabled w ds).1 = .ok ()) :
    PolicyStep serde p ⟨w, true⟩ (.commit enabled (.ok ()))
      ⟨(p.commitEnabled serde enabled w ds).2.1, true⟩ := by
  have hstep := @PolicyStep.commit W serde p w enabled ds
  rwa [h, decide_eq_true nofun] at hstep

end PolicyStep

namespace SnapshotPolicy

variable {p : SnapshotPolicy} {serde : Serde} {w w' : World W} {s t : Host W}

/-- A policy that has given up knowing its preference answers no status read and no commit. -/
theorem unknown_fails (hunknown : w.flags.unknown = true) (ds : Schedule) :
    (∀ m, (p.metadata serde w ds).1 ≠ .ok m) ∧
      ∀ enabled, (p.commitEnabled serde enabled w ds).1 ≠ .ok () := by
  refine ⟨fun m hm => ?_, fun enabled hok => ?_⟩
  · have hspec := (p.metadata_spec serde w ds).2
    rw [hm] at hspec
    simp [hunknown] at hspec
  · obtain ⟨t, flags, _, _, hend⟩ := p.commitEnabled_spec serde w enabled ds
    rw [hok] at hend
    simp [hunknown] at hend

/-- Memory and file agree, or the policy knows that they may not. -/
def Honest (p : SnapshotPolicy) (serde : Serde) (s : Host W) : Prop :=
  s.live = true → s.world.flags.unknown = true ∨
    p.SavedAs serde s.world.tree s.world.flags.enabled

/-- The file carries the choice, and so does every process that has loaded it. -/
def Holding (p : SnapshotPolicy) (serde : Serde) (enabled : Bool) (s : Host W) : Prop :=
  p.SavedAs serde s.world.tree enabled ∧
    (s.live = true → s.world.flags.unknown = false ∧ s.world.flags.enabled = enabled)

theorem Committed.ok (h : p.Committed serde b w (.ok ()) w') : p.SavedAs serde w'.tree b ∧
    w'.flags.unknown = false ∧ w'.flags.enabled = b := by
  obtain ⟨t, flags, _, _, hknown, hlook, rfl⟩ := h
  exact ⟨p.savedAs_of_look serde hlook, hknown, rfl⟩

/-- A commit of the choice that the file already carries keeps it there, even when it fails. -/
theorem Committed.savedAs {b : Bool} {o : Outcome APIError Unit}
    (h : p.Committed serde b w o w') (hsaved : p.SavedAs serde w.tree b) :
    p.SavedAs serde w'.tree b := by
  obtain ⟨t, flags, _, hlook, hend⟩ := h
  have ht : p.SavedAs serde t b := by
    rcases hlook with hsame | hnew
    · exact hsaved.congr hsame
    · exact p.savedAs_of_look serde hnew
  cases o with
  | ok _ => exact hend.2.2 ▸ ht
  | error e => exact hend.2 ▸ ht
  | panicked => exact hend.elim
  | died => exact hend ▸ ht

/-- After any commit that returns, memory and file agree or the policy is unknown. -/
theorem Committed.honest {b : Bool} {o : Outcome APIError Unit}
    (h : p.Committed serde b w o w') (hlive : o ≠ .died) : w'.flags.unknown = true ∨
      p.SavedAs serde w'.tree w'.flags.enabled := by
  cases o with
  | ok _ => exact Or.inr (h.ok.2.2 ▸ h.ok.1)
  | error e =>
    obtain ⟨t, flags, _, _, hflags, rfl⟩ := h
    rcases hflags with ⟨rfl, hunknown⟩ | ⟨actual, rfl, hsaved⟩ | rfl
    · exact Or.inl hunknown
    · exact Or.inr hsaved
    · exact Or.inl rfl
  | panicked =>
    obtain ⟨t, flags, _, _, hend⟩ := h
    exact hend.elim
  | died => exact absurd rfl hlive

/-- A load that succeeds has the preference of the file, which a missing file takes from the caller
and every other file has already. -/
theorem Loaded.ok {initial : Bool} (h : p.Loaded serde initial w (.ok ()) w') :
    p.SavedAs serde w'.tree w'.flags.enabled ∧ w'.flags.unknown = false ∧
      (w.tree.look p.path = .absent ∧ w'.flags.enabled = initial ∨
        p.SavedAs serde w.tree w'.flags.enabled) := by
  rcases h with ⟨_, hok, _⟩ | ⟨enabled, hchoice, ⟨rfl, _, hsaved⟩ | hcommit⟩
  · exact absurd rfl hok
  · exact ⟨hsaved rfl, rfl, hchoice⟩
  · obtain ⟨hsaved, hknown, henabled⟩ := hcommit.ok
    rw [henabled]
    exact ⟨hsaved, hknown, hchoice⟩

theorem Loaded.savedAs {initial b : Bool} {o : Outcome APIError Unit}
    (h : p.Loaded serde initial w o w') (hsaved : p.SavedAs serde w.tree b) :
    p.SavedAs serde w'.tree b := by
  rcases h with ⟨rfl, _⟩ | ⟨enabled, hchoice, hend⟩
  · exact hsaved
  obtain rfl : enabled = b := by
    rcases hchoice with ⟨habsent, _⟩ | hfile
    · obtain ⟨bytes, f, hlook, _⟩ := hsaved
      simp [habsent] at hlook
    · exact hfile.unique hsaved
  rcases hend with ⟨rfl, _⟩ | hcommit
  · exact hsaved
  · exact hcommit.savedAs hsaved

theorem Honest.step {label : PolicyLabel} (h : p.Honest serde s)
    (hstep : PolicyStep serde p s label t) :
    p.Honest serde t := by
  intro hlive
  cases hstep with
  | @load w initial ds =>
    have hok : (p.load serde initial w ds).1 = .ok () := by simpa using hlive
    have hspec := p.load_spec serde w initial ds
    rw [hok] at hspec
    exact Or.inr hspec.ok.1
  | @commit w enabled ds =>
    exact (p.commitEnabled_spec serde w enabled ds).honest (by simpa using hlive)
  | restart => simp at hlive

theorem Holding.step {b : Bool} {label : PolicyLabel} (hlabel : label.isCommit = false)
    (h : p.Holding serde b s) (hstep : PolicyStep serde p s label t) : p.Holding serde b t := by
  obtain ⟨hsaved, _⟩ := h
  cases hstep with
  | @load w initial ds =>
    have hspec := p.load_spec serde w initial ds
    refine ⟨hspec.savedAs hsaved, fun hlive => ?_⟩
    have hok : (p.load serde initial w ds).1 = .ok () := by simpa using hlive
    have hafter := hspec.savedAs hsaved
    rw [hok] at hspec
    exact ⟨hspec.ok.2.1, hspec.ok.1.unique hafter⟩
  | commit enabled ds => simp [PolicyLabel.isCommit] at hlabel
  | restart => exact ⟨hsaved, by simp⟩

/-- Whatever fails in whatever order, a policy misreports its preference in no state of a run.
First: it is unknown, and then every status read and commit fails, or the file is this scope's and
carries the choice in memory. Second: an acknowledged commit is what every process has that loads
later without another commit. Third: without any commit it is the first load's initial choice.
Fourth: a load takes the caller's choice only where there is no file at all. -/
theorem preference_never_misreported {labels : List PolicyLabel} (hstart : s.live = false)
    (hrun : Trace (PolicyStep serde p) s labels t) :
    (t.live = true →
      (t.world.flags.unknown = true ∧ ∀ ds, (∀ m, (p.metadata serde t.world ds).1 ≠ .ok m) ∧
        ∀ enabled, (p.commitEnabled serde enabled t.world ds).1 ≠ .ok ()) ∨
      p.SavedAs serde t.world.tree t.world.flags.enabled) ∧
    (∀ earlier enabled later, labels = earlier ++ .commit enabled (.ok ()) :: later →
      (∀ label ∈ later, PolicyLabel.isCommit label = false) →
      p.SavedAs serde t.world.tree enabled ∧ (t.live = true → t.world.flags.enabled = enabled)) ∧
    (∀ initial later, labels = .load initial (.ok ()) :: later →
      s.world.tree.look p.path = .absent → (∀ label ∈ later, PolicyLabel.isCommit label = false) →
      p.SavedAs serde t.world.tree initial ∧ (t.live = true → t.world.flags.enabled = initial)) ∧
    ∀ initial ds, (p.load serde initial t.world ds).1 = .ok () →
      t.world.tree.look p.path ≠ .absent →
      p.SavedAs serde t.world.tree (p.load serde initial t.world ds).2.1.flags.enabled := by
  have hkeep : ∀ {u v : Host W} {b : Bool} {later : List PolicyLabel}, p.Holding serde b u →
      Trace (PolicyStep serde p) u later v → (∀ label ∈ later, PolicyLabel.isCommit label = false) →
      p.SavedAs serde v.world.tree b ∧ (v.live = true → v.world.flags.enabled = b) := by
    intro u v b later hu hlater hlabels
    have hv : p.Holding serde b v :=
      hlater.invariant_of_labels (fun hl h hstep => h.step hl hstep) hlabels hu
    exact ⟨hv.1, fun hlive => (hv.2 hlive).2⟩
  refine ⟨fun hlive => ?_, ?_, ?_, ?_⟩
  · have hhonest : p.Honest serde t :=
      hrun.invariant (fun h hstep => h.step hstep) fun h => by simp [hstart] at h
    exact (hhonest hlive).imp (fun h => ⟨h, unknown_fails h⟩) id
  · rintro earlier enabled later rfl hlater
    obtain ⟨u, v, _, hcommit, hrest⟩ := hrun.split_step
    refine hkeep ?_ hrest hlater
    generalize hlabel : PolicyLabel.commit enabled (.ok ()) = label at hcommit
    cases hcommit with
    | load initial ds => simp at hlabel
    | @commit w b ds =>
      obtain ⟨rfl, hok⟩ : enabled = b ∧ .ok () = (p.commitEnabled serde b w ds).1 := by
        simpa using hlabel
      have hspec := p.commitEnabled_spec serde w enabled ds
      rw [← hok] at hspec
      exact ⟨hspec.ok.1, fun _ => hspec.ok.2⟩
    | restart => simp at hlabel
  · rintro initial later rfl habsent hlater
    obtain ⟨u, v, hnil, hload, hrest⟩ := Trace.split_step (show Trace _ s ([] ++ _) t from hrun)
    refine hkeep ?_ hrest hlater
    obtain rfl := hnil.nil_inv
    generalize hlabel : PolicyLabel.load initial (.ok ()) = label at hload
    cases hload with
    | @load w b ds =>
      obtain ⟨rfl, hok⟩ : initial = b ∧ .ok () = (p.load serde b w ds).1 := by simpa using hlabel
      have hspec := p.load_spec serde w initial ds
      rw [← hok] at hspec
      obtain ⟨hsaved, hknown, hchoice⟩ := hspec.ok
      have hinitial : (p.load serde initial w ds).2.1.flags.enabled = initial := by
        rcases hchoice with ⟨_, h⟩ | ⟨bytes, f, hlook, _⟩
        · exact h
        · simp [habsent] at hlook
      rw [hinitial] at hsaved
      exact ⟨hsaved, fun _ => ⟨hknown, hinitial⟩⟩
    | commit enabled ds => simp at hlabel
    | restart => simp at hlabel
  · intro initial ds hok hpresent
    have hspec := p.load_spec serde t.world initial ds
    rw [hok] at hspec
    exact hspec.ok.2.2.resolve_left fun h => hpresent h.1

/-- The sample scope with its preference turned off. -/
def samplePaused : World ℕ := (sample.commitEnabled jsonSerde false sampleLoaded []).2.1

/-- The paused sample scope, opened again by a process that asks for the preference on. -/
def sampleReopened : World ℕ := (sample.load jsonSerde true samplePaused []).2.1

theorem preference_never_misreported_sample : sampleReopened.flags.enabled = false := by
  have hload : PolicyStep jsonSerde sample ⟨sampleStart, false⟩ (.load true (.ok ()))
      ⟨sampleLoaded, true⟩ := .loaded sample_load
  have hcommit : PolicyStep jsonSerde sample ⟨sampleLoaded, true⟩ (.commit false (.ok ()))
      ⟨samplePaused, true⟩ := .committed (by decide +kernel)
  have hreload : PolicyStep jsonSerde sample ⟨samplePaused, false⟩ (.load true (.ok ()))
      ⟨sampleReopened, true⟩ := .loaded (by decide +kernel)
  have hrun : Trace (PolicyStep jsonSerde sample) ⟨sampleStart, false⟩
      ([.load true (.ok ())] ++ .commit false (.ok ()) :: [.restart, .load true (.ok ())])
      ⟨sampleReopened, true⟩ := (((Trace.single hload).snoc hcommit).snoc .restart).snoc hreload
  obtain ⟨_, hcommitted, _⟩ := preference_never_misreported rfl hrun
  have hreopened := (hcommitted _ _ _ rfl (by decide)).2 rfl
  simpa only using hreopened

end SnapshotPolicy

end RgbLightningNode.Snapshot
