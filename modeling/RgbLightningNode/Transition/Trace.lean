import Mathlib.Tactic.Common

/-!
# Runs of a labelled transition system

A trace is a finite run together with the labels of its steps, oldest first.
-/

namespace RgbLightningNode.Transition

universe u v

variable {σ : Type u} {ℓ : Type v}

inductive Trace (step : σ → ℓ → σ → Prop) (s : σ) : List ℓ → σ → Prop where
  | nil : Trace step s [] s
  | snoc {t u : σ} {labels : List ℓ} {label : ℓ} (before : Trace step s labels t)
      (last : step t label u) : Trace step s (labels ++ [label]) u

namespace Trace

variable {step : σ → ℓ → σ → Prop} {s t u : σ} {labels more : List ℓ} {label : ℓ}

theorem single (h : step s label t) : Trace step s [label] t := .snoc .nil h

theorem append (h : Trace step s labels t) (h' : Trace step t more u) :
    Trace step s (labels ++ more) u := by
  induction h' with
  | nil => simpa using h
  | snoc _ last ih => simpa [List.append_assoc] using ih.snoc last

theorem split {first : List ℓ} (h : Trace step s labels u) (hlabels : labels = first ++ more) :
    ∃ t, Trace step s first t ∧ Trace step t more u := by
  induction h generalizing more with
  | nil =>
    obtain ⟨rfl, rfl⟩ := List.append_eq_nil_iff.mp hlabels.symm
    exact ⟨s, .nil, .nil⟩
  | @snoc t u labels label before last ih =>
    rcases List.eq_nil_or_concat more with rfl | ⟨rest, final, rfl⟩
    · rw [List.append_nil] at hlabels
      exact ⟨u, hlabels ▸ before.snoc last, .nil⟩
    · rw [List.concat_eq_append] at hlabels ⊢
      rw [← List.append_assoc] at hlabels
      obtain ⟨hfirst, hlabel⟩ := List.append_inj' hlabels rfl
      obtain rfl : label = final := by simpa using hlabel
      obtain ⟨v, hv, hrest⟩ := ih hfirst
      exact ⟨v, hv, hrest.snoc last⟩

theorem nil_inv (h : Trace step s [] t) : s = t := by
  generalize hlabels : ([] : List ℓ) = labels at h
  cases h with
  | nil => rfl
  | snoc before last => simp at hlabels

theorem single_inv (h : Trace step s [label] t) : step s label t := by
  generalize hlabels : [label] = labels at h
  cases h with
  | nil => simp at hlabels
  | snoc before last =>
    obtain ⟨hnil, hlabel⟩ := List.append_inj' (show [] ++ [label] = _ from hlabels) rfl
    obtain rfl : label = _ := by simpa using hlabel
    cases before with
    | nil => exact last
    | snoc _ _ => simp at hnil

/-- A run is a first part, one step and the rest. -/
theorem split_step {first : List ℓ} (h : Trace step s (first ++ label :: more) u) :
    ∃ t t', Trace step s first t ∧ step t label t' ∧ Trace step t' more u := by
  obtain ⟨t, hfirst, hrest⟩ := h.split rfl
  obtain ⟨t', hstep, hmore⟩ := hrest.split (show _ = [label] ++ more from rfl)
  exact ⟨t, t', hfirst, hstep.single_inv, hmore⟩

/-- What every step preserves holds at the end of every run. -/
theorem invariant {P : σ → Prop} (hstep : ∀ {s label t}, P s → step s label t → P t)
    (h : Trace step s labels t) (hs : P s) : P t := by
  induction h with
  | nil => exact hs
  | snoc _ last ih => exact hstep ih last

/-- An invariant of the steps with an admissible label. -/
theorem invariant_of_labels {P : σ → Prop} {A : ℓ → Prop}
    (hstep : ∀ {s label t}, A label → P s → step s label t → P t)
    (h : Trace step s labels t) (hlabels : ∀ label ∈ labels, A label) (hs : P s) : P t := by
  induction h with
  | nil => exact hs
  | snoc _ last ih =>
    exact hstep (hlabels _ (by simp)) (ih fun label hl => hlabels label (by simp [hl])) last

/-- A run whose steps all belong to a smaller relation, because of an invariant. -/
theorem restrict {step' : σ → ℓ → σ → Prop} {P : σ → Prop} {A : ℓ → Prop}
    (hstep : ∀ {s label t}, A label → P s → step s label t → step' s label t ∧ P t)
    (h : Trace step s labels t) (hlabels : ∀ label ∈ labels, A label) (hs : P s) :
    Trace step' s labels t ∧ P t := by
  induction h with
  | nil => exact ⟨.nil, hs⟩
  | snoc _ last ih =>
    obtain ⟨hbefore, ht⟩ := ih fun label hl => hlabels label (by simp [hl])
    obtain ⟨hlast, hu⟩ := hstep (hlabels _ (by simp)) ht last
    exact ⟨hbefore.snoc hlast, hu⟩

/-- A measure that no step increases, and every step with a label of one kind decreases, bounds the
number of these steps. -/
theorem countP_add_le {P : σ → Prop} {p : ℓ → Bool} {μ : σ → ℕ}
    (hstep : ∀ {s label t}, P s → step s label t → P t ∧ μ t + (if p label then 1 else 0) ≤ μ s)
    (h : Trace step s labels t) (hs : P s) : P t ∧ labels.countP p + μ t ≤ μ s := by
  induction h with
  | nil => exact ⟨hs, by simp⟩
  | snoc _ last ih =>
    obtain ⟨ht, hcount⟩ := ih
    obtain ⟨hu, hlast⟩ := hstep ht last
    refine ⟨hu, ?_⟩
    rw [List.countP_append, List.countP_singleton]
    omega

theorem mono {step' : σ → ℓ → σ → Prop} (hstep : ∀ {s label t}, step s label t → step' s label t)
    (h : Trace step s labels t) : Trace step' s labels t := by
  induction h with
  | nil => exact .nil
  | snoc _ last ih => exact ih.snoc (hstep last)

end Trace

end RgbLightningNode.Transition
