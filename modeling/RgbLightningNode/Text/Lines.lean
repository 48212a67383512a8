import Mathlib.Data.List.Infix

/-!
# Parts of a text with separators

A part without the separator does not reach across one: it lies within a joined text exactly if it
lies within one of the pieces.
-/

namespace RgbLightningNode.Text
variable {α : Type*} {sep : α} {part front rest : List α}

/-- A text is cut at its first separator in one way only. -/
theorem append_cons_inj {front front' rest rest' : List α} (h : sep ∉ front) (h' : sep ∉ front')
    (heq : front ++ sep :: rest = front' ++ sep :: rest') : front = front' ∧ rest = rest' := by
  induction front generalizing front' with
  | nil =>
    cases front' with
    | nil => exact ⟨rfl, (List.cons.inj heq).2⟩
    | cons c front' => exact absurd ((List.cons.inj heq).1 ▸ List.mem_cons_self) h'
  | cons c front ih =>
    cases front' with
    | nil => exact absurd ((List.cons.inj heq).1 ▸ List.mem_cons_self) h
    | cons c' front' =>
      obtain ⟨rfl, hrest⟩ := List.cons.inj heq
      obtain ⟨rfl, hback⟩ := ih (fun hm => h (List.mem_cons_of_mem _ hm))
        (fun hm => h' (List.mem_cons_of_mem _ hm)) hrest
      exact ⟨rfl, hback⟩

theorem prefix_append_cons_iff (h : sep ∉ part) :
    part <+: front ++ sep :: rest ↔ part <+: front := by
  induction part generalizing front with
  | nil => simp
  | cons x part ih =>
    cases front with
    | nil =>
      have hx : x ≠ sep := fun e => h (by simp [e])
      simp [List.cons_prefix_cons, hx]
    | cons y front =>
      have hpart : sep ∉ part := fun hmem => h (List.mem_cons_of_mem _ hmem)
      simp only [List.cons_append, List.cons_prefix_cons, ih hpart]

theorem infix_append_cons_iff (h : sep ∉ part) :
    part <:+: front ++ sep :: rest ↔ part <:+: front ∨ part <:+: rest := by
  induction front with
  | nil =>
    have hstart : part <+: sep :: rest ↔ part = [] := by
      have hempty : part <+: [] ++ sep :: rest ↔ part <+: [] := prefix_append_cons_iff h
      simpa using hempty
    rw [List.nil_append, List.infix_cons_iff, hstart, List.infix_nil]
  | cons x front ih =>
    rw [List.cons_append, List.infix_cons_iff, ← List.cons_append, prefix_append_cons_iff h, ih,
      List.infix_cons_iff, or_assoc]

theorem infix_intercalate_iff (h : sep ∉ part) {lines : List (List α)} (hne : lines ≠ []) :
    part <:+: [sep].intercalate lines ↔ ∃ line ∈ lines, part <:+: line := by
  induction lines with
  | nil => exact absurd rfl hne
  | cons line lines ih =>
    by_cases hlines : lines = []
    · simp [hlines]
    · rw [List.intercalate_cons_of_ne_nil hlines, List.append_assoc, List.singleton_append,
        infix_append_cons_iff h, ih hlines, List.exists_mem_cons_iff]

end RgbLightningNode.Text
