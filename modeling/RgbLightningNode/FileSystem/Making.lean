import RgbLightningNode.Faulty.Guarded
import RgbLightningNode.FileSystem.Directories

/-!
# Directories that are made when nothing fails

A directory in a directory is made in one step that changes nothing else. An undisturbed creation
with all parents succeeds where nothing but directories is on the way.
-/

namespace RgbLightningNode.FileSystem
open Faulty

section Undisturbed

variable {t : Tree} {p top : Path}

theorem mkdir_calmly : Calmly (mkdir p) t (fun o u =>
    if p = [] ∨ (t.node p).isSome then o = .error .alreadyExists ∧ u = t
    else if t.hasParent p then o = .ok () ∧ ∃ mode, u = t.put p (.dir (ownedAttr mode))
    else o = .error .notFound ∧ u = t) := by
  apply calmly_primitive
  intro mask
  by_cases hp : p = [] ∨ (t.node p).isSome
  · rw [if_pos hp, if_pos hp]
    exact ⟨rfl, rfl⟩
  rw [if_neg hp, if_neg hp]
  by_cases hparent : t.hasParent p = true
  · rw [if_pos hparent, if_pos hparent]
    exact ⟨rfl, _, rfl⟩
  · rw [if_neg hparent, if_neg hparent]
    exact ⟨rfl, rfl⟩

theorem isDir_calmly : Calmly (isDir p) t (fun o u => o = .ok (t.isDirectory p) ∧ u = t) :=
  calmly_step fun _ => ⟨rfl, rfl⟩

/-- An error is no error where the directory is there. -/
theorem checked_calmly (hdir : t.isDirectory p = true) (failure : IoError) :
    Calmly (do if ← isDir p then return () else Proc.throw failure) t
      (fun o u => o = .ok () ∧ u = t) := by
  apply calmly_bind
  refine isDir_calmly.mono ?_
  rintro o u ⟨rfl, rfl⟩
  simp only [Outcome.Then, hdir, if_true]
  exact calmly_pure ⟨rfl, rfl⟩

theorem isDirectory_present (h : t.isDirectory p = true) : p = [] ∨ (t.node p).isSome := by
  by_cases hp : p = []
  · exact .inl hp
  · obtain ⟨attr, hnode⟩ := (Tree.isDirectory_iff hp).mp h
    exact .inr (by rw [hnode]; rfl)

theorem mkdirOrExists_calmly (hnone : t.node p = none) (hp : p ≠ [])
    (hparent : t.hasParent p = true) :
    Calmly (mkdirOrExists p) t (fun o u =>
      o = .ok () ∧ ∃ mode, u = t.put p (.dir (ownedAttr mode))) := by
  apply calmly_bind
  apply calmly_attempt
  refine mkdir_calmly.mono ?_
  intro o u h
  rw [if_neg (by simp [hp, hnone]), if_pos hparent] at h
  obtain ⟨rfl, hu⟩ := h
  exact calmly_pure ⟨rfl, hu⟩

/-- Below `top` there is nothing on the way to `p` but directories. -/
def Clear (t : Tree) (top p : Path) : Prop :=
  ∀ q, top <+: q → q <+: p → q ≠ top → t.node q = none ∨ t.isDirectory q = true

/-- What is missing is not `top` itself. -/
theorem prefix_above_of_missing {name : Name} {above : Path} (htop : t.isDirectory top = true)
    (hpre : top <+: (name :: above).reverse) (hnone : t.node (name :: above).reverse = none) :
    top <+: above.reverse := by
  rw [List.reverse_cons] at hpre
  rcases List.prefix_concat_iff.mp hpre with heq | hpre
  · have hexists : t.isDirectory (name :: above).reverse = true := by
      rw [List.reverse_cons, ← heq, htop]
    rcases isDirectory_present hexists with hnil | hsome
    · simp at hnil
    · rw [hnone] at hsome
      cases hsome
  · exact hpre

theorem createDirAllOf_calmly (names : List Name) : ∀ (t : Tree), t.isDirectory top = true →
    top <+: names.reverse → Clear t top names.reverse →
    Calmly (createDirAllOf names) t (fun o u => o = .ok () ∧
      t.AgreeOff {q | q <+: names.reverse} u ∧ u.isDirectory names.reverse = true) := by
  induction names with
  | nil => exact fun t _ _ _ => calmly_pure ⟨rfl, .refl _ _, rfl⟩
  | cons name above ih =>
    intro t htop hpre hclear
    have hp : (name :: above).reverse ≠ [] := by simp
    have hput {t' : Tree} (mode : ℕ) (h : t.AgreeOff {q | q <+: (name :: above).reverse} t') :
        t.AgreeOff {q | q <+: (name :: above).reverse}
          (t'.put (name :: above).reverse (.dir (ownedAttr mode))) := h.put List.prefix_rfl _
    have hmade {t' : Tree} (mode : ℕ) :
        (t'.put (name :: above).reverse (.dir (ownedAttr mode))).isDirectory
          (name :: above).reverse = true :=
      (Tree.isDirectory_iff hp).mpr ⟨_, Tree.put_node_self _ _ _⟩
    have hstate : t.node (name :: above).reverse = none ∨
        t.isDirectory (name :: above).reverse = true := by
      by_cases heq : (name :: above).reverse = top
      · exact .inr (by rw [heq, htop])
      · exact hclear _ hpre List.prefix_rfl heq
    apply calmly_bind
    apply calmly_attempt
    refine mkdir_calmly.mono ?_
    intro o u h
    rcases hstate with hnone | hdir
    · rw [if_neg (not_or.mpr ⟨hp, by rw [hnone]; simp⟩)] at h
      by_cases hparent : t.hasParent (name :: above).reverse = true
      · rw [if_pos hparent] at h
        obtain ⟨rfl, mode, rfl⟩ := h
        exact calmly_pure ⟨rfl, hput mode (.refl _ _), hmade mode⟩
      · rw [if_neg hparent] at h
        obtain ⟨rfl, rfl⟩ := h
        have habove : above.reverse <+: (name :: above).reverse := by simp
        have htopAbove := prefix_above_of_missing htop hpre hnone
        apply calmly_bind
        refine (ih u htop htopAbove fun q hq hq' => hclear q hq (hq'.trans habove)).mono ?_
        rintro o t' ⟨rfl, hoff, hdir⟩
        have hnone' : t'.node (name :: above).reverse = none := by
          have hout : (name :: above).reverse ∉ {q | q <+: above.reverse} := by
            intro hmem
            have hlength := List.IsPrefix.length_le hmem
            rw [List.length_reverse, List.length_cons, List.length_reverse] at hlength
            omega
          rw [hoff _ hout, hnone]
        have hparent' : t'.hasParent (name :: above).reverse = true := by
          rw [Tree.hasParent_eq, List.reverse_cons, List.dropLast_concat, hdir]
        refine (mkdirOrExists_calmly hnone' hp hparent').mono ?_
        rintro o t'' ⟨rfl, mode, rfl⟩
        exact ⟨rfl, hput mode (hoff.mono fun q hq => hq.trans habove), hmade mode⟩
    · rw [if_pos (isDirectory_present hdir)] at h
      obtain ⟨rfl, rfl⟩ := h
      refine (checked_calmly hdir _).mono ?_
      rintro o u ⟨rfl, rfl⟩
      exact ⟨rfl, .refl _ _, hdir⟩

theorem createDirAll_calmly (htop : t.isDirectory top = true) (hpre : top <+: p)
    (hclear : Clear t top p) :
    Calmly (createDirAll p) t (fun o u => o = .ok () ∧ u.isDirectory p = true) := by
  have h := createDirAllOf_calmly p.reverse t htop (by rwa [List.reverse_reverse])
    (by rwa [List.reverse_reverse])
  rw [List.reverse_reverse] at h
  exact h.mono fun _ _ ⟨ho, _, hdir⟩ => ⟨ho, hdir⟩

end Undisturbed

/-! ### A directory in a directory -/

section Child

variable {t : Tree} {p : Path} {calm : Prop}

/-- Nothing has changed, or a directory is there where nothing was. -/
def Tree.Made (t : Tree) (p : Path) (u : Tree) : Prop :=
  u = t ∨ t.node p = none ∧ ∃ attr, u = t.put p (.dir attr)

theorem Tree.Made.off {u : Tree} (h : t.Made p u) : t.AgreeOff {p} u := by
  rcases h with rfl | ⟨-, attr, rfl⟩
  · exact .refl _ _
  · exact (AgreeOff.refl {p} t).put (Set.mem_singleton p) _

theorem checked_made_child {u : Tree} (h : t.Made p u) (failure : IoError) :
    Holds (do if ← isDir p then return () else Proc.throw failure) u
      (Outcome.Yields (fun _ => t.Made p) fun _ v => t.Made p v ∧ v.isDirectory p = true) := by
  apply holds_bind
  exact holds_isDir (fun hdir => holds_pure ⟨h, hdir⟩) (holds_throw h) h

theorem createDirAll_child {name : Name} (hparent : t.isDirectory p = true)
    (hfree : calm → t.node (p ++ [name]) = none ∨ t.isDirectory (p ++ [name]) = true) :
    Guards calm (createDirAll (p ++ [name])) t (fun _ => t.Made (p ++ [name]))
      (fun _ u => t.Made (p ++ [name]) u ∧ u.isDirectory (p ++ [name]) = true) := by
  apply guards_of
  · have hchild : t.hasParent (p ++ [name]) = true := by
      rw [Tree.hasParent_eq, List.dropLast_concat, hparent]
    have hcreate : createDirAll (p ++ [name]) = createDirAllOf (name :: p.reverse) := by
      rw [createDirAll, List.reverse_append, List.reverse_singleton, List.singleton_append]
    have hpath : (name :: p.reverse).reverse = p ++ [name] := by
      rw [List.reverse_cons, List.reverse_reverse]
    rw [hcreate]
    apply holds_bind
    apply holds_attempt
    rw [hpath]
    apply holds_mkdir
    · intro mode hne hnone _
      refine holds_pure ⟨.inr ⟨hnone, _, rfl⟩, ?_⟩
      exact (Tree.isDirectory_iff hne).mpr ⟨_, Tree.put_node_self _ _ _⟩
    · exact fun _ => checked_made_child (.inl rfl) _
    · intro habsent
      rw [hchild] at habsent
      cases habsent
    · exact checked_made_child (.inl rfl) _
    · exact .inl rfl
  · intro hcalm
    have hclear : Clear t p (p ++ [name]) := by
      intro q hpq hq hne
      rcases List.prefix_concat_iff.mp hq with rfl | hq
      · exact hfree hcalm
      · exact absurd (hq.eq_of_length_le hpq.length_le) hne
    refine (createDirAll_calmly hparent (List.prefix_append _ _) hclear).mono ?_
    rintro o u ⟨rfl, -⟩
    exact ⟨_, rfl⟩

end Child

end RgbLightningNode.FileSystem
