import Mathlib.Data.List.Basic

/-!
# Checks that may fail

A check changes nothing, and ends with a value or with an error. What a sequence of checks has
accepted is read off step by step.
-/

namespace RgbLightningNode.Faulty

universe u v w

variable {ε : Type u} {α β : Type v} {γ : Type w}

theorem bind_eq_ok {x : Except ε α} {next : α → Except ε β} {b : β} :
    (x >>= next) = .ok b ↔ ∃ a, x = .ok a ∧ next a = .ok b := by
  cases x with
  | error e => exact iff_of_false (fun h => by cases h) fun ⟨_, h, _⟩ => by cases h
  | ok a => exact ⟨fun h => ⟨a, rfl, h⟩, fun ⟨_, h, hnext⟩ => by cases h; exact hnext⟩

theorem map_eq_ok {x : Except ε α} {h : α → β} {b : β} :
    x.map h = .ok b ↔ ∃ a, x = .ok a ∧ h a = b := by
  cases x <;> simp [Except.map]

theorem ok_bind {x : Except ε α} {a : α} {next : α → Except ε β} {result : Except ε β}
    (h : x = .ok a) (hnext : next a = result) : (x >>= next) = result := by
  rw [h, ← hnext]
  rfl

/-- A loop of checks succeeds if each of them does. -/
theorem forM_eq_ok {check : γ → Except ε PUnit} {xs : List γ} {u : PUnit} :
    xs.forM check = .ok u ↔ ∀ x ∈ xs, check x = .ok ⟨⟩ := by
  induction xs with
  | nil => exact iff_of_true rfl fun _ h => absurd h List.not_mem_nil
  | cons x xs ih =>
    change (check x >>= fun _ => xs.forM check) = .ok u ↔ _
    rw [bind_eq_ok, List.forall_mem_cons, ← ih]
    exact ⟨fun ⟨_, hx, hxs⟩ => ⟨hx, hxs⟩, fun ⟨hx, hxs⟩ => ⟨⟨⟩, hx, hxs⟩⟩

theorem mapM_eq_pure {m : Type v → Type w} [Monad m] [LawfulMonad m] {γ : Type u} {f : γ → m α}
    {g : γ → α} {xs : List γ} (h : ∀ x ∈ xs, f x = pure (g x)) : xs.mapM f = pure (xs.map g) := by
  induction xs with
  | nil => rw [List.mapM_nil, List.map_nil]
  | cons x xs ih =>
    have hrest := ih fun y hy => h y (List.mem_cons_of_mem x hy)
    rw [List.mapM_cons, h x List.mem_cons_self, pure_bind, hrest, pure_bind, List.map_cons]

end RgbLightningNode.Faulty
