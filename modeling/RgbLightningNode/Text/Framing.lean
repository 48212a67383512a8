import Mathlib.Data.List.Infix

/-!
# Pieces between known separators

A sequence of pieces, each after the first behind a separator of its own and none with its length.
The pieces are determined by the whole exactly if every separator stands out between its neighbours.
-/

namespace RgbLightningNode.Text
variable {α : Type*}

/-- A first piece, and further ones with the separators before them. -/
def framed (piece : List α) : List (List α × List α) → List α
  | [] => piece
  | (sep, next) :: rest => piece ++ (sep ++ framed next rest)

/-- A separator stands in one place only between two pieces. -/
def Once (sep piece next : List α) : Prop :=
  ∀ front back, piece ++ (sep ++ next) = front ++ (sep ++ back) → front = piece

def Unambiguous (piece : List α) : List (List α × List α) → Prop
  | [] => True
  | (sep, next) :: rest => Once sep piece next ∧ Unambiguous next rest

theorem framed_append (front piece : List α) (rest : List (List α × List α)) :
    framed (front ++ piece) rest = front ++ framed piece rest := by
  cases rest with
  | nil => rfl
  | cons p rest => simp only [framed, List.append_assoc]

/-- A separator that stands behind `shift` again ends in a part of the same length. -/
theorem exists_shift {sep shift rest rest' : List α}
    (h : sep ++ rest = shift ++ (sep ++ rest')) :
    ∃ surplus, shift ++ sep = sep ++ surplus ∧ rest = surplus ++ rest' := by
  have hsep : sep <+: shift ++ sep := by
    refine List.prefix_of_prefix_length_le (List.prefix_append sep rest) ?_ (by simp)
    exact ⟨rest', by rw [h, List.append_assoc]⟩
  obtain ⟨surplus, hsurplus⟩ := hsep
  refine ⟨surplus, hsurplus.symm, ?_⟩
  have hcancel : sep ++ rest = sep ++ (surplus ++ rest') := by
    rw [h, ← List.append_assoc, ← hsurplus, List.append_assoc]
  exact List.append_cancel_left hcancel

theorem framed_first {piece piece' : List α} {rest rest' : List (List α × List α)}
    (h : Unambiguous piece rest) (hsep : rest.map Prod.fst = rest'.map Prod.fst)
    (heq : framed piece rest = framed piece' rest') : piece = piece' := by
  induction rest generalizing piece piece' rest' with
  | nil =>
    rw [List.map_eq_nil_iff.mp hsep.symm] at heq
    exact heq
  | cons p rest ih =>
    obtain ⟨sep, next⟩ := p
    cases rest' with
    | nil => cases hsep
    | cons p' rest' =>
      obtain ⟨sep', next'⟩ := p'
      obtain ⟨rfl, hrest⟩ := List.cons.inj hsep
      obtain ⟨honce, hnext⟩ := h
      simp only [framed] at heq
      rcases List.append_eq_append_iff.mp heq with ⟨shift, rfl, hshift⟩ | ⟨shift, rfl, hshift⟩
      · -- What the other reading has too much in front, it lacks in the next piece.
        obtain ⟨surplus, hmove, htail⟩ := exists_shift hshift
        have hnext' : next = surplus ++ next' := ih hnext hrest (by rw [htail, framed_append])
        refine (honce _ next' ?_).symm
        rw [hnext', ← List.append_assoc sep, ← hmove]
        simp only [List.append_assoc]
      · obtain ⟨surplus, hmove, -⟩ := exists_shift hshift
        refine (honce piece' (surplus ++ next) ?_).symm
        rw [← List.append_assoc sep, ← hmove]
        simp only [List.append_assoc]

theorem framed_injective {piece piece' : List α} {rest rest' : List (List α × List α)}
    (h : Unambiguous piece rest) (hsep : rest.map Prod.fst = rest'.map Prod.fst)
    (heq : framed piece rest = framed piece' rest') : piece = piece' ∧ rest = rest' := by
  induction rest generalizing piece piece' rest' with
  | nil =>
    rw [List.map_eq_nil_iff.mp hsep.symm] at heq ⊢
    exact ⟨heq, rfl⟩
  | cons p rest ih =>
    obtain rfl := framed_first h hsep heq
    refine ⟨rfl, ?_⟩
    cases rest' with
    | nil => cases hsep
    | cons p' rest' =>
      obtain ⟨hfirst, hrest⟩ := List.cons.inj hsep
      have htail := List.append_cancel_left heq
      rw [hfirst] at htail
      obtain ⟨hnext, hmore⟩ := ih h.2 hrest (List.append_cancel_left htail)
      rw [hmore, Prod.ext hfirst hnext]

end RgbLightningNode.Text
