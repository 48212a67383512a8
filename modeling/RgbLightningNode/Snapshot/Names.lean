import RgbLightningNode.Snapshot.Policy

/-!
# The file names of a policy

The preference, the marker and the receipt of one policy, and all their temporary siblings, are
pairwise different paths, so that a write to one of them never touches another.
-/

namespace RgbLightningNode.Snapshot
open FileSystem

theorem tmpPath_extension (stem extension : String) (hstem : stem ≠ "")
    (hdot : '.' ∉ extension.toList) (suffix : ℕ) :
    tmpPath [stem ++ "." ++ extension] suffix = [stem ++ "." ++ ("tmp-" ++ toString suffix)] :=
  withExtension_singleton stem extension _ hstem hdot

theorem append_left_cancel {stem a b : String} (h : stem ++ a = stem ++ b) : a = b := by
  simpa [← String.toList_inj] using h

theorem extension_inj {stem a b : String} :
    ([stem ++ "." ++ a] : Path) = [stem ++ "." ++ b] ↔ a = b := by
  simp [← String.toList_inj]

theorem tmp_ne (suffix : ℕ) {name : String} (h : name.toList.head? ≠ some 't') :
    "tmp-" ++ toString suffix ≠ name := by
  rintro rfl
  exact h (by simp)

namespace SnapshotPolicy

variable (p : SnapshotPolicy)

theorem names_exist : ∃ stem : String, stem ≠ "" ∧ p.path = [stem ++ "." ++ "json"] ∧
    p.pendingPath = [stem ++ "." ++ "pending"] ∧
    p.completionPath = [stem ++ "." ++ "completion.json"] := by
  obtain ⟨stem, hstem, hpath⟩ := p.named
  have hdot : '.' ∉ "json".toList := by decide
  refine ⟨stem, hstem, hpath, ?_, ?_⟩
  · rw [pendingPath, hpath, withExtension_singleton _ _ _ hstem hdot]
  · rw [completionPath, hpath, withExtension_singleton _ _ _ hstem hdot]

/-- The temporary siblings of the three files. -/
theorem tmp_names : ∃ stem : String, stem ≠ "" ∧ p.path = [stem ++ "." ++ "json"] ∧
    p.pendingPath = [stem ++ "." ++ "pending"] ∧
    p.completionPath = [stem ++ "." ++ "completion.json"] ∧
    ∀ suffix, tmpPath p.path suffix = [stem ++ "." ++ ("tmp-" ++ toString suffix)] ∧
      tmpPath p.pendingPath suffix = [stem ++ "." ++ ("tmp-" ++ toString suffix)] ∧
      tmpPath p.completionPath suffix =
        [stem ++ "." ++ ("completion." ++ ("tmp-" ++ toString suffix))] := by
  obtain ⟨stem, hstem, hpath, hpending, hcompletion⟩ := p.names_exist
  refine ⟨stem, hstem, hpath, hpending, hcompletion, fun suffix => ⟨?_, ?_, ?_⟩⟩
  · rw [hpath, tmpPath_extension _ _ hstem (by decide)]
  · rw [hpending, tmpPath_extension _ _ hstem (by decide)]
  · have hsplit : stem ++ "." ++ "completion.json" = (stem ++ ".completion") ++ "." ++ "json" := by
      simp [← String.toList_inj]
    rw [hcompletion, hsplit, tmpPath_extension _ _ (by simp [String.append_eq_empty_iff])
      (by decide)]
    simp [← String.toList_inj]

theorem completion_tmp_ne (suffix : ℕ) :
    "completion." ++ ("tmp-" ++ toString suffix) ≠ "completion.json" := by
  intro h
  have hsplit : "completion.json" = "completion." ++ "json" := by decide
  exact tmp_ne suffix (by decide) (append_left_cancel (h.trans hsplit))

theorem completion_ne (suffix : ℕ) {name : String} (h : name.toList.head? ≠ some 'c') :
    "completion." ++ ("tmp-" ++ toString suffix) ≠ name := by
  rintro rfl
  exact h (by simp)

theorem tmpApart : TmpApart p.path ∧ TmpApart p.pendingPath ∧ TmpApart p.completionPath := by
  obtain ⟨stem, _, hpath, hpending, hcompletion, htmp⟩ := p.tmp_names
  refine ⟨fun suffix h => ?_, fun suffix h => ?_, fun suffix h => ?_⟩
  · rw [(htmp suffix).1, hpath, extension_inj] at h
    exact tmp_ne suffix (by decide) h
  · rw [(htmp suffix).2.1, hpending, extension_inj] at h
    exact tmp_ne suffix (by decide) h
  · rw [(htmp suffix).2.2, hcompletion, extension_inj] at h
    exact completion_tmp_ne suffix h

theorem path_notMem : p.path ∉ footprint p.pendingPath ∧ p.path ∉ footprint p.completionPath := by
  obtain ⟨stem, _, hpath, hpending, hcompletion, htmp⟩ := p.tmp_names
  refine ⟨?_, ?_⟩
  · rintro (h | ⟨suffix, h⟩)
    · rw [hpath, hpending, extension_inj] at h
      exact absurd h (by decide)
    · rw [(htmp suffix).2.1, hpath, extension_inj] at h
      exact tmp_ne suffix (by decide) h.symm
  · rintro (h | ⟨suffix, h⟩)
    · rw [hpath, hcompletion, extension_inj] at h
      exact absurd h (by decide)
    · rw [(htmp suffix).2.2, hpath, extension_inj] at h
      exact completion_ne suffix (by decide) h.symm

theorem pending_notMem :
    p.pendingPath ∉ footprint p.path ∧ p.pendingPath ∉ footprint p.completionPath := by
  obtain ⟨stem, _, hpath, hpending, hcompletion, htmp⟩ := p.tmp_names
  refine ⟨?_, ?_⟩
  · rintro (h | ⟨suffix, h⟩)
    · rw [hpath, hpending, extension_inj] at h
      exact absurd h (by decide)
    · rw [(htmp suffix).1, hpending, extension_inj] at h
      exact tmp_ne suffix (by decide) h.symm
  · rintro (h | ⟨suffix, h⟩)
    · rw [hpending, hcompletion, extension_inj] at h
      exact absurd h (by decide)
    · rw [(htmp suffix).2.2, hpending, extension_inj] at h
      exact completion_ne suffix (by decide) h.symm

theorem completion_notMem :
    p.completionPath ∉ footprint p.path ∧ p.completionPath ∉ footprint p.pendingPath := by
  obtain ⟨stem, _, hpath, hpending, hcompletion, htmp⟩ := p.tmp_names
  refine ⟨?_, ?_⟩
  · rintro (h | ⟨suffix, h⟩)
    · rw [hpath, hcompletion, extension_inj] at h
      exact absurd h (by decide)
    · rw [(htmp suffix).1, hcompletion, extension_inj] at h
      exact tmp_ne suffix (by decide) h.symm
  · rintro (h | ⟨suffix, h⟩)
    · rw [hpending, hcompletion, extension_inj] at h
      exact absurd h (by decide)
    · rw [(htmp suffix).2.1, hcompletion, extension_inj] at h
      exact tmp_ne suffix (by decide) h.symm

end SnapshotPolicy

end RgbLightningNode.Snapshot
