import Mathlib.Tactic.Common

/-!
# Processes whose every step may fail, panic or be the last one executed

A process runs over a persistent state and a schedule of directives, one for each primitive step.
The directive decides whether the step proceeds, reports an error, panics, or is never executed
because the machine died before it. A statement over all schedules is therefore a statement over
every combination of failures and every crash point of the program.
-/

namespace RgbLightningNode.Faulty

universe u v w

/-- What the environment does to one primitive step. -/
inductive Fate where
  | proceed
  | refuse
  | panic
  | die
  deriving DecidableEq, Repr

/-- The fate of one step, and the datum the step observes (a clock reading, a random suffix, the
length of a partial write). -/
structure Directive where
  fate : Fate
  datum : ℕ
  deriving DecidableEq, Repr

abbrev Schedule := List Directive

/-- How a call ends: with a value, with an error value, by unwinding, or not at all. -/
inductive Outcome (ε : Type v) (α : Type w) where
  | ok (value : α)
  | error (failure : ε)
  | panicked
  | died
  deriving DecidableEq, Repr

namespace Outcome

variable {ε δ : Type v} {α : Type w}

@[reducible] def mapError (convert : ε → δ) : Outcome ε α → Outcome δ α
  | .ok value => .ok value
  | .error failure => .error (convert failure)
  | .panicked => .panicked
  | .died => .died

/-- The outcome of a call whose result is inspected by its caller. -/
@[reducible] def attempt : Outcome ε α → Outcome δ (Except ε α)
  | .ok value => .ok (.ok value)
  | .error failure => .ok (.error failure)
  | .panicked => .panicked
  | .died => .died

/-- The outcome of a call under an unwinding handler, which learns whether the call unwound. -/
@[reducible] def caught : Outcome ε α → Outcome ε Bool
  | .ok _ => .ok false
  | .error failure => .error failure
  | .panicked => .ok true
  | .died => .died

@[reducible] def unwinds : Outcome ε α → Bool
  | .panicked => true
  | _ => false

/-- The answer of a body whose cleanup has ended. -/
@[reducible] def after (o : Outcome ε α) : Outcome ε PUnit → Outcome ε α
  | .ok _ => o
  | .error failure => .error failure
  | .panicked => .panicked
  | .died => .died

end Outcome

/-- A process consumes a prefix of its schedule; an exhausted schedule lets every step proceed. -/
def Proc (σ : Type u) (ε : Type v) (α : Type w) := σ → Schedule → Outcome ε α × σ × Schedule

namespace Proc

variable {σ τ : Type u} {ε δ : Type v} {α β : Type w}

def pure (value : α) : Proc σ ε α := fun s ds => (.ok value, s, ds)

def throw (failure : ε) : Proc σ ε α := fun s ds => (.error failure, s, ds)

def bind (m : Proc σ ε α) (next : α → Proc σ ε β) : Proc σ ε β := fun s ds =>
  match m s ds with
  | (.ok value, s', ds') => next value s' ds'
  | (.error failure, s', ds') => (.error failure, s', ds')
  | (.panicked, s', ds') => (.panicked, s', ds')
  | (.died, s', ds') => (.died, s', ds')

instance : Monad (Proc σ ε) where
  pure := Proc.pure
  bind := Proc.bind

theorem bind_eq (m : Proc σ ε α) (next : α → Proc σ ε β) (s : σ) (ds : Schedule) :
    (m >>= next) s ds = match m s ds with
      | (.ok value, s', ds') => next value s' ds'
      | (.error failure, s', ds') => (.error failure, s', ds')
      | (.panicked, s', ds') => (.panicked, s', ds')
      | (.died, s', ds') => (.died, s', ds') := rfl

/-- A sequence whose first part succeeds is its second part. -/
theorem bind_of_ok {m : Proc σ ε α} {next : α → Proc σ ε β} {s s' : σ} {ds ds' : Schedule} {a : α}
    (h : m s ds = (.ok a, s', ds')) : (m >>= next) s ds = next a s' ds' := by
  rw [bind_eq, h]

/-- A sequence that succeeds has two parts that do. -/
theorem ok_of_bind {m : Proc σ ε α} {next : α → Proc σ ε β} {s u : σ} {ds es : Schedule} {b : β}
    (h : (m >>= next) s ds = (.ok b, u, es)) :
    ∃ a s' ds', m s ds = (.ok a, s', ds') ∧ next a s' ds' = (.ok b, u, es) := by
  rw [bind_eq] at h
  rcases hm : m s ds with ⟨o, s', ds'⟩
  rw [hm] at h
  cases o with
  | ok a => exact ⟨a, s', ds', rfl, h⟩
  | error _ => cases h
  | panicked => cases h
  | died => cases h

instance : LawfulMonad (Proc σ ε) := .mk' _
  (fun m => by
    funext s ds
    change Proc.bind m (fun a => Proc.pure a) s ds = m s ds
    unfold Proc.bind
    rcases m s ds with ⟨_ | _ | _ | _, s', ds'⟩ <;> rfl)
  (fun _ _ => rfl)
  (fun m f g => by
    funext s ds
    simp only [bind_eq]
    rcases m s ds with ⟨_ | _ | _ | _, s', ds'⟩ <;> rfl)

/-- Volatile reads and writes cannot fail, and a crash next to one is a crash at the step after. -/
def read (view : σ → α) : Proc σ ε α := fun s ds => (.ok (view s), s, ds)

def update (change : σ → σ) : Proc σ ε PUnit := fun s ds => (.ok ⟨⟩, change s, ds)

/-- One primitive step, which consumes one directive. -/
def step (act : Directive → σ → Outcome ε α × σ) : Proc σ ε α := fun s ds =>
  match ds with
  | [] => ((act ⟨.proceed, 0⟩ s).1, (act ⟨.proceed, 0⟩ s).2, [])
  | d :: rest => ((act d s).1, (act d s).2, rest)

/-- A primitive step that leaves the state alone unless it proceeds, and never panics. -/
def primitive (failure : ε) (act : ℕ → σ → Outcome ε α × σ) : Proc σ ε α :=
  step fun d s => match d.fate with
    | .proceed => act d.datum s
    | .refuse | .panic => (.error failure, s)
    | .die => (.died, s)

/-- A datum chosen by the environment. -/
def choose : Proc σ ε ℕ := step fun d s => match d.fate with
  | .die => (.died, s)
  | _ => (.ok d.datum, s)

/-- A call whose error value is inspected by its caller. Panics and crashes pass through. -/
def attempt (m : Proc σ ε α) : Proc σ δ (Except ε α) := fun s ds =>
  ((m s ds).1.attempt, (m s ds).2)

def catchUnwind (m : Proc σ ε α) : Proc σ ε Bool := fun s ds => ((m s ds).1.caught, (m s ds).2)

/-- A body and its cleanup, which also runs when the body unwinds and is told whether it did. -/
def ensure (m : Proc σ ε α) (cleanup : Bool → Proc σ ε PUnit) : Proc σ ε α := fun s ds =>
  match m s ds with
  | (.died, s', ds') => (.died, s', ds')
  | (o, s', ds') =>
    (o.after (cleanup o.unwinds s' ds').1, (cleanup o.unwinds s' ds').2)

def mapError (convert : ε → δ) (m : Proc σ ε α) : Proc σ δ α := fun s ds =>
  ((m s ds).1.mapError convert, (m s ds).2)

/-- Run a process on one component of a larger state. -/
def zoom (get : τ → σ) (set : σ → τ → τ) (m : Proc σ ε α) : Proc τ ε α := fun t ds =>
  ((m (get t) ds).1, set (m (get t) ds).2.1 t, (m (get t) ds).2.2)

end Proc

/-! ## What holds however the schedule turns out -/

section Holds

variable {σ τ : Type u} {ε δ : Type v} {α β : Type w}

/-- Under every schedule, the outcome of `m` from `s` and the state it leaves satisfy `Q`. -/
def Holds (m : Proc σ ε α) (s : σ) (Q : Outcome ε α → σ → Prop) : Prop :=
  ∀ ds : Schedule, Q (m s ds).1 (m s ds).2.1

/-- The condition that remains after the first part of a sequence. -/
@[reducible] def Outcome.Then (next : α → σ → Prop) (Q : Outcome ε β → σ → Prop) :
    Outcome ε α → σ → Prop
  | .ok value, s => next value s
  | .error failure, s => Q (.error failure) s
  | .panicked, s => Q .panicked s
  | .died, s => Q .died s

theorem Holds.mono {m : Proc σ ε α} {s : σ} {P Q : Outcome ε α → σ → Prop}
    (h : Holds m s P) (himp : ∀ o s', P o s' → Q o s') : Holds m s Q :=
  fun ds => himp _ _ (h ds)

theorem Holds.of_run {m : Proc σ ε α} {s s' : σ} {Q : Outcome ε α → σ → Prop} {o : Outcome ε α}
    {ds ds' : Schedule} (h : Holds m s Q) (hrun : m s ds = (o, s', ds')) : Q o s' := by
  have hm := h ds
  rwa [hrun] at hm

theorem Holds.and {m : Proc σ ε α} {s : σ} {P Q : Outcome ε α → σ → Prop}
    (hP : Holds m s P) (hQ : Holds m s Q) : Holds m s (fun o s' => P o s' ∧ Q o s') :=
  fun ds => ⟨hP ds, hQ ds⟩

theorem holds_pure {value : α} {s : σ} {Q : Outcome ε α → σ → Prop} (h : Q (.ok value) s) :
    Holds (pure value : Proc σ ε α) s Q := fun _ => h

theorem holds_throw {failure : ε} {s : σ} {Q : Outcome ε α → σ → Prop} (h : Q (.error failure) s) :
    Holds (Proc.throw failure) s Q := fun _ => h

theorem holds_read {view : σ → α} {s : σ} {Q : Outcome ε α → σ → Prop} (h : Q (.ok (view s)) s) :
    Holds (Proc.read view) s Q := fun _ => h

theorem holds_update {change : σ → σ} {s : σ} {Q : Outcome ε PUnit → σ → Prop}
    (h : Q (.ok ⟨⟩) (change s)) : Holds (Proc.update change) s Q := fun _ => h

/-- Sequencing: the second part is entered in whatever state the first part leaves. -/
theorem holds_bind {m : Proc σ ε α} {next : α → Proc σ ε β} {s : σ}
    {Q : Outcome ε β → σ → Prop}
    (h : Holds m s (Outcome.Then (fun value s' => Holds (next value) s' Q) Q)) :
    Holds (m >>= next) s Q := by
  intro ds
  have hm := h ds
  change Q (Proc.bind m next s ds).1 (Proc.bind m next s ds).2.1
  unfold Proc.bind
  rcases hrun : m s ds with ⟨o, s', ds'⟩
  rw [hrun] at hm
  cases o with
  | ok value => exact hm ds'
  | error failure => exact hm
  | panicked => exact hm
  | died => exact hm

theorem holds_ite {c : Prop} [Decidable c] {m m' : Proc σ ε α} {s : σ}
    {Q : Outcome ε α → σ → Prop} (htrue : c → Holds m s Q) (hfalse : ¬c → Holds m' s Q) :
    Holds (if c then m else m') s Q := by
  split
  · rename_i h
    exact htrue h
  · rename_i h
    exact hfalse h

theorem holds_step {act : Directive → σ → Outcome ε α × σ} {s : σ} {Q : Outcome ε α → σ → Prop}
    (h : ∀ d, Q (act d s).1 (act d s).2) : Holds (Proc.step act) s Q := by
  intro ds
  cases ds with
  | nil => exact h _
  | cons d rest => exact h d

theorem holds_primitive {failure : ε} {act : ℕ → σ → Outcome ε α × σ} {s : σ}
    {Q : Outcome ε α → σ → Prop} (hrun : ∀ n, Q (act n s).1 (act n s).2)
    (hrefuse : Q (.error failure) s) (hdie : Q .died s) :
    Holds (Proc.primitive failure act) s Q := by
  apply holds_step
  rintro ⟨fate, n⟩
  cases fate with
  | proceed => exact hrun n
  | refuse => exact hrefuse
  | panic => exact hrefuse
  | die => exact hdie

theorem holds_choose {s : σ} {Q : Outcome ε ℕ → σ → Prop} (hok : ∀ n, Q (.ok n) s)
    (hdie : Q .died s) : Holds Proc.choose s Q := by
  apply holds_step
  rintro ⟨fate, n⟩
  cases fate <;> first | exact hok n | exact hdie

theorem holds_attempt {m : Proc σ ε α} {s : σ} {Q : Outcome δ (Except ε α) → σ → Prop}
    (h : Holds m s (fun o s' => Q o.attempt s')) : Holds (Proc.attempt m) s Q := fun ds => h ds

theorem holds_catchUnwind {m : Proc σ ε α} {s : σ} {Q : Outcome ε Bool → σ → Prop}
    (h : Holds m s (fun o s' => Q o.caught s')) : Holds (Proc.catchUnwind m) s Q := fun ds => h ds

theorem holds_ensure {m : Proc σ ε α} {cleanup : Bool → Proc σ ε PUnit} {s : σ}
    {Q : Outcome ε α → σ → Prop}
    (h : Holds m s (fun o s' => match o with
      | .died => Q .died s'
      | o => Holds (cleanup o.unwinds) s' (fun c s'' => Q (o.after c) s''))) :
    Holds (Proc.ensure m cleanup) s Q := by
  intro ds
  have hm := h ds
  unfold Proc.ensure
  rcases hrun : m s ds with ⟨o, s', ds'⟩
  rw [hrun] at hm
  cases o with
  | ok value => exact hm ds'
  | error failure => exact hm ds'
  | panicked => exact hm ds'
  | died => exact hm

theorem holds_mapError {convert : ε → δ} {m : Proc σ ε α} {s : σ} {Q : Outcome δ α → σ → Prop}
    (h : Holds m s (fun o s' => Q (o.mapError convert) s')) :
    Holds (Proc.mapError convert m) s Q := fun ds => h ds

/-- A loop over a list keeps an invariant over the elements done so far. -/
theorem holds_foldlM {γ : Type u} {act : α → γ → Proc σ ε α} {xs : List γ} {a : α} {s : σ}
    {Q : Outcome ε α → σ → Prop} (Inv : List γ → α → σ → Prop) (hstart : Inv [] a s)
    (hstep : ∀ done x rest, xs = done ++ x :: rest → ∀ a s, Inv done a s →
      Holds (act a x) s (Outcome.Then (fun a' s' => Inv (done ++ [x]) a' s') Q))
    (hend : ∀ a s, Inv xs a s → Q (.ok a) s) : Holds (xs.foldlM act a) s Q := by
  have hrest : ∀ rest done a s, xs = done ++ rest → Inv done a s →
      Holds (rest.foldlM act a) s Q := by
    intro rest
    induction rest with
    | nil =>
      intro done a s hxs hinv
      rw [List.append_nil] at hxs
      subst hxs
      exact holds_pure (hend a s hinv)
    | cons x rest ih =>
      intro done a s hxs hinv
      rw [List.foldlM_cons]
      apply holds_bind
      refine (hstep done x rest hxs a s hinv).mono ?_
      intro o s' h
      cases o with
      | ok a' => exact ih (done ++ [x]) a' s' (by simpa using hxs) h
      | error failure => exact h
      | panicked => exact h
      | died => exact h
  exact hrest xs [] a s rfl hstart

theorem holds_forM {γ : Type u} {act : γ → Proc σ ε PUnit} {xs : List γ} {s : σ}
    {Q : Outcome ε PUnit → σ → Prop} (Inv : σ → Prop) (hstart : Inv s)
    (hstep : ∀ x ∈ xs, ∀ s, Inv s → Holds (act x) s (Outcome.Then (fun _ s' => Inv s') Q))
    (hend : ∀ s, Inv s → Q (.ok ⟨⟩) s) : Holds (xs.forM act) s Q := by
  induction xs generalizing s with
  | nil => exact holds_pure (hend s hstart)
  | cons x xs ih =>
    change Holds (do act x; xs.forM act) s Q
    apply holds_bind
    refine (hstep x List.mem_cons_self s hstart).mono ?_
    intro o s' h
    cases o with
    | ok _ => exact ih h fun y hy => hstep y (List.mem_cons_of_mem x hy)
    | error failure => exact h
    | panicked => exact h
    | died => exact h

/-- A process on one component is bounded by what holds of the component alone. -/
theorem holds_zoom {get : τ → σ} {set : σ → τ → τ} {m : Proc σ ε α} {t : τ}
    {Q : Outcome ε α → τ → Prop} (h : Holds m (get t) (fun o s' => Q o (set s' t))) :
    Holds (Proc.zoom get set m) t Q := fun ds => h ds

/-- A process that neither panics nor changes the state from `s`, whatever it answers. -/
def Quiet (m : Proc σ ε α) (s : σ) : Prop := Holds m s (fun o s' => s = s' ∧ o ≠ .panicked)

theorem holds_bind_quiet {m : Proc σ ε α} {next : α → Proc σ ε β} {s : σ}
    {Q : Outcome ε β → σ → Prop} (hm : Quiet m s) (hok : ∀ a, Holds (next a) s Q)
    (herror : ∀ e, Q (.error e) s) (hdie : Q .died s) : Holds (m >>= next) s Q := by
  refine holds_bind (hm.mono ?_)
  rintro o s' ⟨rfl, hpanic⟩
  cases o with
  | ok a => exact hok a
  | error e => exact herror e
  | panicked => exact absurd rfl hpanic
  | died => exact hdie

end Holds

end RgbLightningNode.Faulty
