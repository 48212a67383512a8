import RgbLightningNode.Faulty.Process

/-!
# Processes that cannot tell two states apart

A process respects a relation between states when related states make no difference to it: under
every schedule it takes the same course from both, and leaves two related states. What a process
answers is then a matter of what the relation fixes.
-/

namespace RgbLightningNode.Faulty

universe u v w

variable {σ τ : Type u} {ε δ : Type v} {α β : Type w}

/-- The two runs end in the same way, with the same rest of the schedule and in related states. -/
structure Alike (R : σ → σ → Prop) (run run' : Outcome ε α × σ × Schedule) : Prop where
  outcome : run'.1 = run.1
  rest : run'.2.2 = run.2.2
  related : R run.2.1 run'.2.1

def Respects (R : σ → σ → Prop) (m : Proc σ ε α) : Prop :=
  ∀ s s' ds, R s s' → Alike R (m s ds) (m s' ds)

variable {R : σ → σ → Prop}

theorem respects_pure (value : α) : Respects R (pure value : Proc σ ε α) :=
  fun _ _ _ h => ⟨rfl, rfl, h⟩

theorem respects_throw (failure : ε) : Respects R (Proc.throw failure : Proc σ ε α) :=
  fun _ _ _ h => ⟨rfl, rfl, h⟩

theorem respects_read {view : σ → α} (h : ∀ s s', R s s' → view s' = view s) :
    Respects R (Proc.read view : Proc σ ε α) :=
  fun _ _ _ hs => ⟨congrArg Outcome.ok (h _ _ hs), rfl, hs⟩

theorem respects_update {change : σ → σ} (h : ∀ s s', R s s' → R (change s) (change s')) :
    Respects R (Proc.update change : Proc σ ε PUnit) :=
  fun _ _ _ hs => ⟨rfl, rfl, h _ _ hs⟩

theorem respects_bind {m : Proc σ ε α} {next : α → Proc σ ε β} (hm : Respects R m)
    (hnext : ∀ a, Respects R (next a)) : Respects R (m >>= next) := by
  intro s s' ds hs
  obtain ⟨houtcome, hrest, hrelated⟩ := hm s s' ds hs
  rw [Proc.bind_eq, Proc.bind_eq]
  rcases hrun : m s ds with ⟨o, t, es⟩
  rcases hrun' : m s' ds with ⟨o', t', es'⟩
  rw [hrun, hrun'] at houtcome hrest hrelated
  obtain rfl : o' = o := houtcome
  obtain rfl : es' = es := hrest
  cases o' with
  | ok a => exact hnext a t t' es' hrelated
  | error failure => exact ⟨rfl, rfl, hrelated⟩
  | panicked => exact ⟨rfl, rfl, hrelated⟩
  | died => exact ⟨rfl, rfl, hrelated⟩

theorem respects_ite {c : Prop} [Decidable c] {m m' : Proc σ ε α} (hm : Respects R m)
    (hm' : Respects R m') : Respects R (if c then m else m') := by
  split
  · exact hm
  · exact hm'

theorem respects_step {act : Directive → σ → Outcome ε α × σ}
    (h : ∀ d s s', R s s' → (act d s').1 = (act d s).1 ∧ R (act d s).2 (act d s').2) :
    Respects R (Proc.step act) := by
  intro s s' ds hs
  cases ds with
  | nil => exact ⟨(h _ s s' hs).1, rfl, (h _ s s' hs).2⟩
  | cons d rest => exact ⟨(h d s s' hs).1, rfl, (h d s s' hs).2⟩

theorem respects_primitive {failure : ε} {act : ℕ → σ → Outcome ε α × σ}
    (h : ∀ n s s', R s s' → (act n s').1 = (act n s).1 ∧ R (act n s).2 (act n s').2) :
    Respects R (Proc.primitive failure act) := by
  apply respects_step
  rintro ⟨fate, n⟩ s s' hs
  cases fate with
  | proceed => exact h n s s' hs
  | refuse => exact ⟨rfl, hs⟩
  | panic => exact ⟨rfl, hs⟩
  | die => exact ⟨rfl, hs⟩

theorem respects_choose : Respects R (Proc.choose : Proc σ ε ℕ) := by
  apply respects_step
  rintro ⟨fate, n⟩ s s' hs
  cases fate with
  | proceed => exact ⟨rfl, hs⟩
  | refuse => exact ⟨rfl, hs⟩
  | panic => exact ⟨rfl, hs⟩
  | die => exact ⟨rfl, hs⟩

theorem respects_attempt {m : Proc σ ε α} (h : Respects R m) :
    Respects R (Proc.attempt m : Proc σ δ (Except ε α)) := by
  intro s s' ds hs
  obtain ⟨houtcome, hrest, hrelated⟩ := h s s' ds hs
  exact ⟨congrArg Outcome.attempt houtcome, hrest, hrelated⟩

theorem respects_mapError {convert : ε → δ} {m : Proc σ ε α} (h : Respects R m) :
    Respects R (Proc.mapError convert m) := by
  intro s s' ds hs
  obtain ⟨houtcome, hrest, hrelated⟩ := h s s' ds hs
  exact ⟨congrArg (Outcome.mapError convert) houtcome, hrest, hrelated⟩

/-- A process on one component respects a relation that looks at the component through another. -/
theorem respects_zoom {get : τ → σ} {set : σ → τ → τ} {S : τ → τ → Prop} {m : Proc σ ε α}
    (h : Respects R m) (hget : ∀ t t', S t t' → R (get t) (get t'))
    (hset : ∀ t t' s s', S t t' → R s s' → S (set s t) (set s' t')) :
    Respects S (Proc.zoom get set m) := by
  intro t t' ds ht
  obtain ⟨houtcome, hrest, hrelated⟩ := h (get t) (get t') ds (hget t t' ht)
  exact ⟨houtcome, hrest, hset t t' _ _ ht hrelated⟩

end RgbLightningNode.Faulty
