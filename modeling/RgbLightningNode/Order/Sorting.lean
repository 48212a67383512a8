import Mathlib.Data.List.Sort
import Mathlib.Data.List.Perm.Basic
import Mathlib.Data.Set.Function

/-!
# Lists sorted by a key

Sorting by a key forgets the order of a list and nothing else, as long as the key tells its elements
apart. Pairs in the order of their first components are determined by what they are.
-/

namespace RgbLightningNode.Order

section Sorting

variable {α β τ : Type*} [LinearOrder τ] (key : β → τ)

/-- The stable sort by a key. -/
def sortBy (l : List β) : List β := l.insertionSort fun a b => key a ≤ key b

instance key_total : Std.Total fun a b : β => key a ≤ key b := ⟨fun a b => le_total (key a) (key b)⟩

instance key_trans : IsTrans β fun a b => key a ≤ key b := ⟨fun _ _ _ => le_trans⟩

theorem sortBy_perm (l : List β) : (sortBy key l).Perm l := List.perm_insertionSort _ l

theorem mem_sortBy {l : List β} {b : β} : b ∈ sortBy key l ↔ b ∈ l := (sortBy_perm key l).mem_iff

theorem sortBy_pairwise (l : List β) : (sortBy key l).Pairwise fun a b => key a ≤ key b :=
  List.pairwise_insertionSort _ l

theorem sortBy_sortBy (l : List β) : sortBy key (sortBy key l) = sortBy key l :=
  (sortBy_pairwise key l).insertionSort_eq

variable {key}

theorem sortBy_eq_of_perm {l l' : List β} (hkey : Set.InjOn key {b | b ∈ l}) (h : l.Perm l') :
    sortBy key l = sortBy key l' := by
  apply List.Perm.eq_of_pairwise _ (sortBy_pairwise key l) (sortBy_pairwise key l')
  · exact (sortBy_perm key l).trans (h.trans (sortBy_perm key l').symm)
  · intro a b ha hb hab hba
    have ha' : a ∈ l := (mem_sortBy key).mp ha
    have hb' : b ∈ l := h.mem_iff.mpr ((mem_sortBy key).mp hb)
    exact hkey ha' hb' (le_antisymm hab hba)

/-- A rearranged image is the image of a rearranged list. -/
theorem exists_perm_of_map_perm {f : α → β} {l l' : List α} (h : (l.map f).Perm (l'.map f)) :
    ∃ ordered : List α, ordered.Perm l' ∧ l.map f = ordered.map f := by
  have himage : List.Forall₂ (fun b a => b = f a) (l'.map f) l' := by
    rw [List.forall₂_map_left_iff, List.forall₂_same]
    intro a _
    rfl
  obtain ⟨ordered, hordered, hperm⟩ := List.perm_comp_forall₂ h himage
  refine ⟨ordered, hperm, ?_⟩
  rw [← List.forall₂_eq_eq_eq, List.forall₂_map_right_iff]
  exact hordered

/-- Two sorted images are the same exactly if one of the lists can be rearranged to have the same
image as the other. -/
theorem sortBy_map_eq_iff {f : α → β} {l l' : List α} (hkey : Set.InjOn key {b | b ∈ l.map f}) :
    sortBy key (l.map f) = sortBy key (l'.map f) ↔
      ∃ ordered : List α, ordered.Perm l' ∧ l.map f = ordered.map f := by
  constructor
  · intro h
    apply exists_perm_of_map_perm
    have hsorted := sortBy_perm key (l'.map f)
    rw [← h] at hsorted
    exact (sortBy_perm key (l.map f)).symm.trans hsorted
  · rintro ⟨ordered, hperm, hsame⟩
    apply sortBy_eq_of_perm hkey
    rw [hsame]
    exact hperm.map f

end Sorting

section Matching

variable {α β γ : Type*}

/-- Two lists match under a relation exactly if they do under one that is the same on them. -/
theorem forall₂_congr_mem {R S : α → β → Prop} {l : List α} {l' : List β}
    (h : ∀ a ∈ l, ∀ b ∈ l', R a b ↔ S a b) : List.Forall₂ R l l' ↔ List.Forall₂ S l l' := by
  induction l generalizing l' with
  | nil => rw [List.forall₂_nil_left_iff, List.forall₂_nil_left_iff]
  | cons a l ih =>
    cases l' with
    | nil => simp
    | cons b l' =>
      rw [List.forall₂_cons, List.forall₂_cons, h a List.mem_cons_self b List.mem_cons_self]
      have hrest := ih fun x hx y hy =>
        h x (List.mem_cons_of_mem a hx) y (List.mem_cons_of_mem b hy)
      rw [hrest]

theorem map_eq_map_iff_forall₂ {f : α → γ} {g : β → γ} {l : List α} {l' : List β} :
    l.map f = l'.map g ↔ List.Forall₂ (fun a b => f a = g b) l l' := by
  rw [← List.forall₂_eq_eq_eq, List.forall₂_map_left_iff, List.forall₂_map_right_iff]

end Matching

section Pairs

variable {κ β : Type*} [LinearOrder κ]

/-- Pairs in the strict order of their first components. -/
def SortedKeys (l : List (κ × β)) : Prop := l.Pairwise fun a b => a.1 < b.1

theorem SortedKeys.eq_of_mem {l : List (κ × β)} (h : SortedKeys l) {k : κ} {b b' : β}
    (hb : (k, b) ∈ l) (hb' : (k, b') ∈ l) : b = b' := by
  induction l with
  | nil => cases hb
  | cons first rest ih =>
    obtain ⟨hfirst, hrest⟩ := List.pairwise_cons.mp h
    rcases List.mem_cons.mp hb with heq | hb
    · rcases List.mem_cons.mp hb' with heq' | hb'
      · exact (Prod.mk.inj (heq.trans heq'.symm)).2
      · have hlt := hfirst _ hb'
        rw [← heq] at hlt
        exact absurd hlt (lt_irrefl k)
    · rcases List.mem_cons.mp hb' with heq' | hb'
      · have hlt := hfirst _ hb
        rw [← heq'] at hlt
        exact absurd hlt (lt_irrefl k)
      · exact ih hrest hb hb'

theorem SortedKeys.nodup {l : List (κ × β)} (h : SortedKeys l) : l.Nodup :=
  List.Pairwise.imp (fun hlt heq => absurd (heq ▸ hlt) (lt_irrefl _)) h

/-- Lists of pairs in the order of their keys are the same when they have the same members. -/
theorem SortedKeys.eq_of_mem_iff {l l' : List (κ × β)} (h : SortedKeys l) (h' : SortedKeys l')
    (hmem : ∀ pair, pair ∈ l ↔ pair ∈ l') : l = l' := by
  apply List.Perm.eq_of_pairwise _ h h'
  · exact (List.perm_ext_iff_of_nodup h.nodup h'.nodup).mpr hmem
  · intro a b _ _ hab hba
    exact absurd (hab.trans hba) (lt_irrefl a.1)

end Pairs

end RgbLightningNode.Order
