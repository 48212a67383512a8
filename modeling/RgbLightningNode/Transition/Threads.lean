import Mathlib.Logic.Function.Basic
import RgbLightningNode.Transition.Trace

/-!
# Threads over a shared value

Any number of threads, each with its own control state, take turns at a shared value. An invariant
has a part about the shared value and a part for every thread; a step has to keep the first, give
its own thread the second, and disturb no other thread.
-/

namespace RgbLightningNode.Transition

variable {ι σ π ℓ ε : Type}

structure Threads (ι σ π : Type) where
  shared : σ
  control : ι → π

inductive Move (ι ℓ ε : Type) where
  | thread (i : ι) (label : ℓ)
  | environment (event : ε)

/-- The steps of one thread and of the surroundings; `none` when a step is not enabled. -/
structure Program (ι σ π ℓ ε : Type) where
  next : ι → ℓ → σ → π → Option (σ × π)
  environment : ε → σ → Option σ

namespace Program

variable [DecidableEq ι] (P : Program ι σ π ℓ ε)

def step (s : Threads ι σ π) : Move ι ℓ ε → Option (Threads ι σ π)
  | .thread i label =>
    (P.next i label s.shared (s.control i)).map fun r => ⟨r.1, Function.update s.control i r.2⟩
  | .environment event => (P.environment event s.shared).map fun shared => { s with shared }

/-- The steps that satisfy a side condition on the state they start in. -/
def Step (A : Threads ι σ π → Move ι ℓ ε → Prop) (s : Threads ι σ π) (move : Move ι ℓ ε)
    (t : Threads ι σ π) : Prop :=
  P.step s move = some t ∧ A s move

/-- No side condition. -/
def Unrestricted (_ : Threads ι σ π) (_ : Move ι ℓ ε) : Prop := True

def run (s : Threads ι σ π) : List (Move ι ℓ ε) → Option (Threads ι σ π)
  | [] => some s
  | move :: moves => (P.step s move).bind fun t => run t moves

variable {P} {s t : Threads ι σ π} {move : Move ι ℓ ε} {moves : List (Move ι ℓ ε)}
  {A : Threads ι σ π → Move ι ℓ ε → Prop}

theorem step_thread {i : ι} {label : ℓ} (h : P.step s (.thread i label) = some t) :
    ∃ shared control, P.next i label s.shared (s.control i) = some (shared, control) ∧
      t = ⟨shared, Function.update s.control i control⟩ := by
  simp only [step, Option.map_eq_some_iff] at h
  obtain ⟨⟨shared, control⟩, hnext, rfl⟩ := h
  exact ⟨shared, control, hnext, rfl⟩

theorem step_environment {event : ε} (h : P.step s (.environment event) = some t) :
    ∃ shared, P.environment event s.shared = some shared ∧ t = { s with shared } := by
  simp only [step, Option.map_eq_some_iff] at h
  obtain ⟨shared, hevent, rfl⟩ := h
  exact ⟨shared, hevent, rfl⟩

theorem trace_of_run (h : P.run s moves = some t) : Trace (P.Step Unrestricted) s moves t := by
  induction moves generalizing s with
  | nil =>
    obtain rfl : s = t := by simpa [run] using h
    exact .nil
  | cons move moves ih =>
    simp only [run, Option.bind_eq_some_iff] at h
    obtain ⟨u, hstep, hrun⟩ := h
    exact (Trace.single ⟨hstep, trivial⟩).append (ih hrun)

/-- The two parts of an invariant. -/
structure Holds (I : σ → Prop) (J : ι → σ → π → Prop) (s : Threads ι σ π) : Prop where
  shared : I s.shared
  control : ∀ i, J i s.shared (s.control i)

/-- What a step has to show for an invariant. -/
structure Preserves (P : Program ι σ π ℓ ε) (A : Threads ι σ π → Move ι ℓ ε → Prop)
    (I : σ → Prop) (J : ι → σ → π → Prop) : Prop where
  shared : ∀ {s i label σ' p'}, A s (.thread i label) → Holds I J s →
    P.next i label s.shared (s.control i) = some (σ', p') → I σ'
  own : ∀ {s i label σ' p'}, A s (.thread i label) → Holds I J s →
    P.next i label s.shared (s.control i) = some (σ', p') → J i σ' p'
  other : ∀ {s i j label σ' p'}, A s (.thread i label) → Holds I J s → j ≠ i →
    P.next i label s.shared (s.control i) = some (σ', p') → J j σ' (s.control j)
  environment : ∀ {s : Threads ι σ π} {event σ'}, A s (.environment event) → Holds I J s →
    P.environment event s.shared = some σ' → I σ' ∧ ∀ j, J j σ' (s.control j)

variable {I : σ → Prop} {J : ι → σ → π → Prop}

theorem Preserves.step (h : P.Preserves A I J) (hs : Holds I J s) (hstep : P.Step A s move t) :
    Holds I J t := by
  obtain ⟨hstep, hA⟩ := hstep
  cases move with
  | environment event =>
    obtain ⟨shared, hevent, rfl⟩ := step_environment hstep
    exact ⟨(h.environment hA hs hevent).1, (h.environment hA hs hevent).2⟩
  | thread i label =>
    obtain ⟨shared, control, hnext, rfl⟩ := step_thread hstep
    refine ⟨h.shared hA hs hnext, fun j => ?_⟩
    by_cases hj : j = i
    · subst hj
      simpa using h.own hA hs hnext
    · simpa [hj] using h.other hA hs hj hnext

theorem Preserves.trace (h : P.Preserves A I J) (hrun : Trace (P.Step A) s moves t)
    (hs : Holds I J s) : Holds I J t :=
  hrun.invariant (fun hs hstep => h.step hs hstep) hs

end Program

end RgbLightningNode.Transition
