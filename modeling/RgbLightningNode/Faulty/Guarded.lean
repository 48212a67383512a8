import RgbLightningNode.Faulty.Calm

/-!
# What a process yields, and that it does when undisturbed

One statement for both kinds of runs: under every schedule a process that returns has met its
postcondition and one that stops has kept the invariant; and where the schedule is known to be calm,
the process returns. A sequence is then described once, for its failures and for its success.
-/

namespace RgbLightningNode.Faulty

universe u v w

variable {σ : Type u} {ε δ : Type v} {α β γ : Type w} {calm : Prop}

/-- The process returns as `P` says, or stops as the invariant says, which knows the error. -/
def Outcome.Yields (Inv : Option ε → σ → Prop) (P : α → σ → Prop) : Outcome ε α → σ → Prop
  | .ok a, s => P a s
  | .error failure, s => Inv (some failure) s
  | .died, s => Inv none s
  | .panicked, _ => False

/-- Under every schedule, or under every calm one where `calm` holds, the process returns as `P`
says; where `calm` does not hold, it may also stop with the invariant. -/
def Guards (calm : Prop) (m : Proc σ ε α) (s : σ) (Inv : Option ε → σ → Prop) (P : α → σ → Prop) :
    Prop :=
  ∀ ds : Schedule, (calm → Calm ds) → (calm → Calm (m s ds).2.2) ∧
    (m s ds).1.Yields (fun o s' => ¬calm ∧ Inv o s') P (m s ds).2.1

variable {s : σ} {m : Proc σ ε α} {Inv : Option ε → σ → Prop} {P : α → σ → Prop}

theorem Guards.mono {P' : α → σ → Prop} {Inv' : Option ε → σ → Prop} (h : Guards calm m s Inv P)
    (hinv : ∀ o s', Inv o s' → Inv' o s') (hP : ∀ a s', P a s' → P' a s') :
    Guards calm m s Inv' P' := by
  intro ds hds
  obtain ⟨hrest, hm⟩ := h ds hds
  refine ⟨hrest, ?_⟩
  revert hm
  cases (m s ds).1 with
  | ok a => exact hP a _
  | error failure => exact And.imp_right (hinv (some failure) _)
  | panicked => exact id
  | died => exact And.imp_right (hinv none _)

theorem Guards.imp {P' : α → σ → Prop} (h : Guards calm m s Inv P) (hP : ∀ a s', P a s' → P' a s') :
    Guards calm m s Inv P' := h.mono (fun _ _ => id) hP

/-- A process that keeps the invariant under every schedule, and returns under every calm one. -/
theorem guards_of (h : Holds m s (Outcome.Yields Inv P))
    (hok : calm → Calmly m s (fun o _ => ∃ a, o = .ok a)) : Guards calm m s Inv P := by
  intro ds hds
  have hm := h ds
  by_cases hcalm : calm
  · obtain ⟨hrest, a, ha⟩ := hok hcalm ds (hds hcalm)
    rw [ha] at hm ⊢
    exact ⟨fun _ => hrest, hm⟩
  · refine ⟨fun hc => absurd hc hcalm, ?_⟩
    revert hm
    cases (m s ds).1 with
    | ok a => exact id
    | error _ => exact fun hinv => ⟨hcalm, hinv⟩
    | panicked => exact id
    | died => exact fun hinv => ⟨hcalm, hinv⟩

/-- Under every schedule. -/
theorem Guards.holds (h : Guards False m s Inv P) : Holds m s (Outcome.Yields Inv P) := by
  intro ds
  obtain ⟨-, hm⟩ := h ds False.elim
  revert hm
  cases (m s ds).1 with
  | ok a => exact id
  | error _ => exact And.right
  | panicked => exact id
  | died => exact And.right

/-- Under every calm schedule. -/
theorem Guards.calmly (h : Guards True m s Inv P) :
    Calmly m s (fun o s' => ∃ a, o = .ok a ∧ P a s') := by
  intro ds hds
  obtain ⟨hrest, hm⟩ := h ds fun _ => hds
  refine ⟨hrest trivial, ?_⟩
  revert hm
  cases (m s ds).1 with
  | ok a => exact fun ha => ⟨a, rfl, ha⟩
  | error _ => exact fun hm => absurd trivial hm.1
  | panicked => exact False.elim
  | died => exact fun hm => absurd trivial hm.1

theorem guards_pure {a : α} (h : P a s) : Guards calm (pure a : Proc σ ε α) s Inv P :=
  fun _ hds => ⟨hds, h⟩

theorem guards_bind {next : α → Proc σ ε β} {Q : β → σ → Prop} (hm : Guards calm m s Inv P)
    (hnext : ∀ a s', P a s' → Guards calm (next a) s' Inv Q) :
    Guards calm (m >>= next) s Inv Q := by
  intro ds hds
  obtain ⟨hrest, h⟩ := hm ds hds
  rw [Proc.bind_eq]
  rcases hrun : m s ds with ⟨o, s', ds'⟩
  rw [hrun] at h hrest
  cases o with
  | ok a => exact hnext a s' h ds' hrest
  | error _ => exact ⟨hrest, h⟩
  | panicked => exact h.elim
  | died => exact ⟨hrest, h⟩

/-- A loop over a list, with what holds once some of its members are done. -/
theorem guards_forM {act : γ → Proc σ ε PUnit} {xs : List γ} (Done : List γ → σ → Prop)
    (hstart : Done [] s) (hstep : ∀ done x rest s', xs = done ++ x :: rest → Done done s' →
      Guards calm (act x) s' Inv (fun _ => Done (done ++ [x]))) :
    Guards calm (xs.forM act) s Inv (fun _ => Done xs) := by
  have hrest : ∀ rest done s, xs = done ++ rest → Done done s →
      Guards calm (rest.forM act) s Inv (fun _ => Done xs) := by
    intro rest
    induction rest with
    | nil =>
      intro done s hxs hdone
      rw [List.append_nil] at hxs
      subst hxs
      exact guards_pure hdone
    | cons x rest ih =>
      intro done s hxs hdone
      change Guards calm (do act x; rest.forM act) s _ _
      refine guards_bind (hstep done x rest s hxs hdone) ?_
      intro _ s' hdone'
      exact ih (done ++ [x]) s' (by simpa using hxs) hdone'
  exact hrest xs [] s rfl hstart

/-- A body and its cleanup. What the body has met or kept is what the cleanup starts from. -/
theorem guards_ensure {cleanup : Bool → Proc σ ε PUnit} {Inv' : Option ε → σ → Prop}
    {Q : α → σ → Prop} (hm : Guards calm m s Inv P) (hdie : ∀ s', Inv none s' → Inv' none s')
    (hstop : ∀ failure s', Inv (some failure) s' →
      Holds (cleanup false) s' (Outcome.Yields Inv' fun _ => Inv' (some failure)))
    (hdone : ∀ a s', P a s' → Guards calm (cleanup false) s' Inv' (fun _ => Q a)) :
    Guards calm (Proc.ensure m cleanup) s Inv' Q := by
  intro ds hds
  obtain ⟨hrest, h⟩ := hm ds hds
  unfold Proc.ensure
  rcases hrun : m s ds with ⟨o, s', ds'⟩
  rw [hrun] at h hrest
  cases o with
  | ok a =>
    obtain ⟨hrest', hc⟩ := hdone a s' h ds' hrest
    refine ⟨hrest', ?_⟩
    change Outcome.Yields _ _ (Outcome.after _ (cleanup false s' ds').1) _
    revert hc
    cases (cleanup false s' ds').1 with
    | ok _ => exact id
    | error _ => exact id
    | panicked => exact id
    | died => exact id
  | error failure =>
    refine ⟨fun hcalm => absurd hcalm h.1, ?_⟩
    have hc := hstop failure s' h.2 ds'
    change Outcome.Yields _ _ (Outcome.after _ (cleanup false s' ds').1) _
    revert hc
    cases (cleanup false s' ds').1 with
    | ok _ => exact fun hc => ⟨h.1, hc⟩
    | error _ => exact fun hc => ⟨h.1, hc⟩
    | panicked => exact id
    | died => exact fun hc => ⟨h.1, hc⟩
  | panicked => exact h.elim
  | died => exact ⟨hrest, h.1, hdie s' h.2⟩

theorem guards_mapError {convert : ε → δ} {Inv : Option δ → σ → Prop}
    (h : Guards calm m s (fun o => Inv (o.map convert)) P) :
    Guards calm (Proc.mapError convert m) s Inv P := by
  intro ds hds
  obtain ⟨hrest, hm⟩ := h ds hds
  refine ⟨hrest, ?_⟩
  change Outcome.Yields _ _ ((m s ds).1.mapError convert) _
  revert hm
  cases (m s ds).1 <;> exact id

theorem guards_primitive {failure : ε} {act : ℕ → σ → Outcome ε α × σ}
    (hinv : ¬calm → ∀ o, Inv o s)
    (hrun : ∀ n, (act n s).1.Yields (fun o s' => ¬calm ∧ Inv o s') P (act n s).2) :
    Guards calm (Proc.primitive failure act) s Inv P := by
  intro ds hds
  cases ds with
  | nil => exact ⟨fun _ => calm_nil, hrun 0⟩
  | cons d rest =>
    obtain ⟨fate, n⟩ := d
    have hfate (hcalm : calm) : fate = .proceed := hds hcalm ⟨fate, n⟩ List.mem_cons_self
    have hstop (hne : fate ≠ .proceed) (o : Option ε) : ¬calm ∧ Inv o s :=
      ⟨fun hcalm => hne (hfate hcalm), hinv (fun hcalm => hne (hfate hcalm)) o⟩
    refine ⟨fun hcalm => (hds hcalm).tail, ?_⟩
    cases fate with
    | proceed => exact hrun n
    | refuse => exact hstop (by simp) _
    | panic => exact hstop (by simp) _
    | die => exact hstop (by simp) _

theorem guards_choose {P : ℕ → σ → Prop} (hinv : ¬calm → Inv none s) (h : ∀ n, P n s) :
    Guards calm (Proc.choose : Proc σ ε ℕ) s Inv P := by
  intro ds hds
  cases ds with
  | nil => exact ⟨fun _ => calm_nil, h 0⟩
  | cons d rest =>
    obtain ⟨fate, n⟩ := d
    refine ⟨fun hcalm => (hds hcalm).tail, ?_⟩
    cases fate with
    | proceed => exact h n
    | refuse => exact h n
    | panic => exact h n
    | die =>
      have hdisturbed : ¬calm := by
        intro hcalm
        have hfate := hds hcalm _ List.mem_cons_self
        cases hfate
      exact ⟨hdisturbed, hinv hdisturbed⟩

end RgbLightningNode.Faulty
