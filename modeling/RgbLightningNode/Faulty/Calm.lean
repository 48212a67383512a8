import RgbLightningNode.Faulty.Process

/-!
# Undisturbed processes

Under a calm schedule every step proceeds, and only its data are left to the environment. One
process is described by what holds at its end under every calm schedule, and two processes are
compared by what holds of both ends under every pair of calm schedules.
-/

namespace RgbLightningNode.Faulty

universe u v w

variable {σ : Type u} {ε δ : Type v} {α β γ : Type w}

def Calm (ds : Schedule) : Prop := ∀ d ∈ ds, d.fate = .proceed

theorem calm_nil : Calm [] := fun _ h => absurd h List.not_mem_nil

theorem Calm.tail {d : Directive} {ds : Schedule} (h : Calm (d :: ds)) : Calm ds :=
  fun d' hd' => h d' (List.mem_cons_of_mem d hd')

/-- Under every calm schedule, the outcome of `m` from `s` and the state it leaves satisfy `Q`. -/
def Calmly (m : Proc σ ε α) (s : σ) (Q : Outcome ε α → σ → Prop) : Prop :=
  ∀ ds : Schedule, Calm ds → Calm (m s ds).2.2 ∧ Q (m s ds).1 (m s ds).2.1

section Calmly

variable {s : σ}

theorem Calmly.mono {m : Proc σ ε α} {P Q : Outcome ε α → σ → Prop} (h : Calmly m s P)
    (himp : ∀ o s', P o s' → Q o s') : Calmly m s Q :=
  fun ds hds => ⟨(h ds hds).1, himp _ _ (h ds hds).2⟩

theorem Calmly.and {m : Proc σ ε α} {P : Outcome ε α → σ → Prop} {Q : Outcome ε α → σ → Prop}
    (h : Calmly m s P) (hQ : Holds m s Q) : Calmly m s (fun o s' => P o s' ∧ Q o s') :=
  fun ds hds => ⟨(h ds hds).1, (h ds hds).2, hQ ds⟩

theorem calmly_pure {value : α} {Q : Outcome ε α → σ → Prop} (h : Q (.ok value) s) :
    Calmly (pure value : Proc σ ε α) s Q := fun _ hds => ⟨hds, h⟩

theorem calmly_throw {failure : ε} {Q : Outcome ε α → σ → Prop} (h : Q (.error failure) s) :
    Calmly (Proc.throw failure) s Q := fun _ hds => ⟨hds, h⟩

theorem calmly_read {view : σ → α} {Q : Outcome ε α → σ → Prop} (h : Q (.ok (view s)) s) :
    Calmly (Proc.read view) s Q := fun _ hds => ⟨hds, h⟩

theorem calmly_bind {m : Proc σ ε α} {next : α → Proc σ ε β} {Q : Outcome ε β → σ → Prop}
    (h : Calmly m s (Outcome.Then (fun value s' => Calmly (next value) s' Q) Q)) :
    Calmly (m >>= next) s Q := by
  intro ds hds
  obtain ⟨hrest, hm⟩ := h ds hds
  change Calm (Proc.bind m next s ds).2.2 ∧
    Q (Proc.bind m next s ds).1 (Proc.bind m next s ds).2.1
  unfold Proc.bind
  rcases hrun : m s ds with ⟨o, s', ds'⟩
  rw [hrun] at hm hrest
  cases o with
  | ok value => exact hm ds' hrest
  | error failure => exact ⟨hrest, hm⟩
  | panicked => exact ⟨hrest, hm⟩
  | died => exact ⟨hrest, hm⟩

theorem calmly_step {act : Directive → σ → Outcome ε α × σ} {Q : Outcome ε α → σ → Prop}
    (h : ∀ n, Q (act ⟨.proceed, n⟩ s).1 (act ⟨.proceed, n⟩ s).2) : Calmly (Proc.step act) s Q := by
  intro ds hds
  cases ds with
  | nil => exact ⟨calm_nil, h 0⟩
  | cons d rest =>
    obtain ⟨fate, n⟩ := d
    have hfate : fate = .proceed := hds ⟨fate, n⟩ List.mem_cons_self
    subst hfate
    exact ⟨hds.tail, h n⟩

theorem calmly_primitive {failure : ε} {act : ℕ → σ → Outcome ε α × σ}
    {Q : Outcome ε α → σ → Prop} (h : ∀ n, Q (act n s).1 (act n s).2) :
    Calmly (Proc.primitive failure act) s Q := calmly_step h

theorem calmly_choose {Q : Outcome ε ℕ → σ → Prop} (h : ∀ n, Q (.ok n) s) :
    Calmly Proc.choose s Q := calmly_step h

theorem calmly_attempt {m : Proc σ ε α} {Q : Outcome δ (Except ε α) → σ → Prop}
    (h : Calmly m s (fun o s' => Q o.attempt s')) : Calmly (Proc.attempt m) s Q :=
  fun ds hds => h ds hds

theorem calmly_mapError {convert : ε → δ} {m : Proc σ ε α} {Q : Outcome δ α → σ → Prop}
    (h : Calmly m s (fun o s' => Q (o.mapError convert) s')) :
    Calmly (Proc.mapError convert m) s Q := fun ds hds => h ds hds

theorem calmly_forM {act : γ → Proc σ ε PUnit} {xs : List γ} {Q : Outcome ε PUnit → σ → Prop}
    (Inv : σ → Prop) (hstart : Inv s)
    (hstep : ∀ x ∈ xs, ∀ s, Inv s → Calmly (act x) s (fun o s' => o = .ok ⟨⟩ ∧ Inv s'))
    (hend : ∀ s, Inv s → Q (.ok ⟨⟩) s) : Calmly (xs.forM act) s Q := by
  induction xs generalizing s with
  | nil => exact calmly_pure (hend s hstart)
  | cons x xs ih =>
    change Calmly (do act x; xs.forM act) s Q
    apply calmly_bind
    refine (hstep x List.mem_cons_self s hstart).mono ?_
    rintro o s' ⟨rfl, h⟩
    exact ih h fun y hy => hstep y (List.mem_cons_of_mem x hy)

end Calmly

/-- The call ends with a value or an error. -/
def Outcome.Ends : Outcome ε α → Prop
  | .ok _ | .error _ => True
  | .panicked | .died => False

/-- Under every pair of calm schedules, both processes end with the same value or the same error,
and `Q` holds of it and of the two states they leave. -/
def Mimics (m : Proc σ ε α) (s : σ) (m' : Proc σ ε α) (s' : σ) (Q : Outcome ε α → σ → σ → Prop) :
    Prop :=
  ∀ ds ds' : Schedule, Calm ds → Calm ds' → (Calm (m s ds).2.2 ∧ Calm (m' s' ds').2.2) ∧
    (m s ds).1.Ends ∧ (m' s' ds').1 = (m s ds).1 ∧ Q (m s ds).1 (m s ds).2.1 (m' s' ds').2.1

/-- What remains after the first parts of two sequences. -/
@[reducible] def Outcome.Both (next : α → σ → σ → Prop) (Q : Outcome ε β → σ → σ → Prop) :
    Outcome ε α → σ → σ → Prop
  | .ok a, t, t' => next a t t'
  | .error failure, t, t' => Q (.error failure) t t'
  | .panicked, _, _ | .died, _, _ => True

section Mimics

variable {s s' : σ}

theorem Mimics.mono {m m' : Proc σ ε α} {P Q : Outcome ε α → σ → σ → Prop}
    (h : Mimics m s m' s' P) (himp : ∀ o t t', P o t t' → Q o t t') : Mimics m s m' s' Q := by
  intro ds ds' hds hds'
  obtain ⟨hrest, hends, hsame, hend⟩ := h ds ds' hds hds'
  exact ⟨hrest, hends, hsame, himp _ _ _ hend⟩

/-- What holds of each process alone holds of both ends. -/
theorem Mimics.and {m m' : Proc σ ε α} {P : Outcome ε α → σ → σ → Prop}
    {Q Q' : Outcome ε α → σ → Prop} (h : Mimics m s m' s' P) (hQ : Holds m s Q)
    (hQ' : Holds m' s' Q') :
    Mimics m s m' s' (fun o t t' => P o t t' ∧ Q o t ∧ Q' o t') := by
  intro ds ds' hds hds'
  obtain ⟨hrest, hends, hsame, hend⟩ := h ds ds' hds hds'
  exact ⟨hrest, hends, hsame, hend, hQ ds, hsame ▸ hQ' ds'⟩

/-- Two processes that end in one known way. -/
theorem mimics_of_calmly {m m' : Proc σ ε α} {o : Outcome ε α} {P P' : σ → Prop}
    {Q : Outcome ε α → σ → σ → Prop} (ho : o.Ends) (h : Calmly m s (fun o' t => o' = o ∧ P t))
    (h' : Calmly m' s' (fun o' t' => o' = o ∧ P' t')) (himp : ∀ t t', P t → P' t' → Q o t t') :
    Mimics m s m' s' Q := by
  intro ds ds' hds hds'
  obtain ⟨hrest, hm, hP⟩ := h ds hds
  obtain ⟨hrest', hm', hP'⟩ := h' ds' hds'
  rw [hm, hm']
  exact ⟨⟨hrest, hrest'⟩, ho, rfl, himp _ _ hP hP'⟩

theorem mimics_pure {value : α} {Q : Outcome ε α → σ → σ → Prop} (h : Q (.ok value) s s') :
    Mimics (pure value : Proc σ ε α) s (pure value) s' Q :=
  fun _ _ hds hds' => ⟨⟨hds, hds'⟩, trivial, rfl, h⟩

theorem mimics_throw {failure : ε} {Q : Outcome ε α → σ → σ → Prop}
    (h : Q (.error failure) s s') : Mimics (Proc.throw failure) s (Proc.throw failure) s' Q :=
  fun _ _ hds hds' => ⟨⟨hds, hds'⟩, trivial, rfl, h⟩

theorem mimics_bind {m m' : Proc σ ε α} {next next' : α → Proc σ ε β}
    {Q : Outcome ε β → σ → σ → Prop} (h : Mimics m s m' s'
      (Outcome.Both (fun a t t' => Mimics (next a) t (next' a) t' Q) Q)) :
    Mimics (m >>= next) s (m' >>= next') s' Q := by
  intro ds ds' hds hds'
  obtain ⟨⟨hrest, hrest'⟩, hends, hsame, hm⟩ := h ds ds' hds hds'
  change (Calm (Proc.bind m next s ds).2.2 ∧ Calm (Proc.bind m' next' s' ds').2.2) ∧
    (Proc.bind m next s ds).1.Ends ∧
    (Proc.bind m' next' s' ds').1 = (Proc.bind m next s ds).1 ∧
    Q (Proc.bind m next s ds).1 (Proc.bind m next s ds).2.1 (Proc.bind m' next' s' ds').2.1
  unfold Proc.bind
  rcases hrun : m s ds with ⟨o, t, rest⟩
  rcases hrun' : m' s' ds' with ⟨o', t', rest'⟩
  rw [hrun] at hm hrest hends hsame
  rw [hrun'] at hm hrest' hsame
  obtain rfl : o' = o := hsame
  cases o' with
  | ok value => exact hm rest rest' hrest hrest'
  | error failure => exact ⟨⟨hrest, hrest'⟩, trivial, rfl, hm⟩
  | panicked => exact hends.elim
  | died => exact hends.elim

/-- One part after another, with one relation between the two states. -/
theorem mimics_seq {m m' : Proc σ ε α} {next next' : α → Proc σ ε β} {R : σ → σ → Prop}
    (h : Mimics m s m' s' (fun _ => R))
    (hnext : ∀ a t t', R t t' → Mimics (next a) t (next' a) t' (fun _ => R)) :
    Mimics (m >>= next) s (m' >>= next') s' (fun _ => R) := by
  apply mimics_bind
  refine h.mono ?_
  intro o t t' hR
  cases o with
  | ok a => exact hnext a t t' hR
  | error _ => exact hR
  | panicked => trivial
  | died => trivial

/-- Two first parts that succeed, with values that need not be the same. -/
theorem mimics_bind_calmly {m m' : Proc σ ε α} {next next' : α → Proc σ ε β} {P R : α → σ → Prop}
    {Q : Outcome ε β → σ → σ → Prop} (h : Calmly m s (fun o t => ∃ a, o = .ok a ∧ P a t))
    (h' : Calmly m' s' (fun o t => ∃ a, o = .ok a ∧ R a t))
    (hnext : ∀ a t a' t', P a t → R a' t' → Mimics (next a) t (next' a') t' Q) :
    Mimics (m >>= next) s (m' >>= next') s' Q := by
  intro ds ds' hds hds'
  obtain ⟨hrest, a, hm, hP⟩ := h ds hds
  obtain ⟨hrest', a', hm', hP'⟩ := h' ds' hds'
  change (Calm (Proc.bind m next s ds).2.2 ∧ Calm (Proc.bind m' next' s' ds').2.2) ∧
    (Proc.bind m next s ds).1.Ends ∧
    (Proc.bind m' next' s' ds').1 = (Proc.bind m next s ds).1 ∧
    Q (Proc.bind m next s ds).1 (Proc.bind m next s ds).2.1 (Proc.bind m' next' s' ds').2.1
  unfold Proc.bind
  rcases hrun : m s ds with ⟨o, t, rest⟩
  rcases hrun' : m' s' ds' with ⟨o', t', rest'⟩
  rw [hrun] at hm hP hrest
  rw [hrun'] at hm' hP' hrest'
  obtain rfl : o = .ok a := hm
  obtain rfl : o' = .ok a' := hm'
  exact hnext a t a' t' hP hP' rest rest' hrest hrest'

theorem mimics_step {act act' : Directive → σ → Outcome ε α × σ} {Q : Outcome ε α → σ → σ → Prop}
    (h : ∀ n n', (act ⟨.proceed, n⟩ s).1.Ends ∧
      (act' ⟨.proceed, n'⟩ s').1 = (act ⟨.proceed, n⟩ s).1 ∧
      Q (act ⟨.proceed, n⟩ s).1 (act ⟨.proceed, n⟩ s).2 (act' ⟨.proceed, n'⟩ s').2) :
    Mimics (Proc.step act) s (Proc.step act') s' Q := by
  have hone : ∀ (act : Directive → σ → Outcome ε α × σ) (s : σ) (ds : Schedule), Calm ds →
      ∃ n rest, Calm rest ∧ Proc.step act s ds =
        ((act ⟨.proceed, n⟩ s).1, (act ⟨.proceed, n⟩ s).2, rest) := by
    intro act s ds hds
    cases ds with
    | nil => exact ⟨0, [], calm_nil, rfl⟩
    | cons d rest =>
      obtain ⟨fate, n⟩ := d
      have hfate : fate = .proceed := hds ⟨fate, n⟩ List.mem_cons_self
      subst hfate
      exact ⟨n, rest, hds.tail, rfl⟩
  intro ds ds' hds hds'
  obtain ⟨n, rest, hrest, hrun⟩ := hone act s ds hds
  obtain ⟨n', rest', hrest', hrun'⟩ := hone act' s' ds' hds'
  rw [hrun, hrun']
  exact ⟨⟨hrest, hrest'⟩, h n n'⟩

theorem mimics_primitive {failure failure' : ε} {act act' : ℕ → σ → Outcome ε α × σ}
    {Q : Outcome ε α → σ → σ → Prop} (h : ∀ n n', (act n s).1.Ends ∧
      (act' n' s').1 = (act n s).1 ∧ Q (act n s).1 (act n s).2 (act' n' s').2) :
    Mimics (Proc.primitive failure act) s (Proc.primitive failure' act') s' Q := mimics_step h

theorem mimics_attempt {m m' : Proc σ ε α} {Q : Outcome δ (Except ε α) → σ → σ → Prop}
    (h : Mimics m s m' s' (fun o t t' => Q o.attempt t t')) :
    Mimics (Proc.attempt m) s (Proc.attempt m') s' Q := by
  intro ds ds' hds hds'
  obtain ⟨hrest, hends, hsame, hend⟩ := h ds ds' hds hds'
  refine ⟨hrest, ?_, congrArg Outcome.attempt hsame, hend⟩
  change (m s ds).1.attempt.Ends
  cases hrun : (m s ds).1 <;> simp_all [Outcome.Ends, Outcome.attempt]

theorem mimics_mapError {convert : ε → δ} {m m' : Proc σ ε α} {Q : Outcome δ α → σ → σ → Prop}
    (h : Mimics m s m' s' (fun o t t' => Q (o.mapError convert) t t')) :
    Mimics (Proc.mapError convert m) s (Proc.mapError convert m') s' Q := by
  intro ds ds' hds hds'
  obtain ⟨hrest, hends, hsame, hend⟩ := h ds ds' hds hds'
  refine ⟨hrest, ?_, congrArg (Outcome.mapError convert) hsame, hend⟩
  change ((m s ds).1.mapError convert).Ends
  cases hrun : (m s ds).1 <;> simp_all [Outcome.Ends, Outcome.mapError]

/-- A cleanup that always succeeds does not change how a process ends. -/
theorem calmly_ensure {m : Proc σ ε α} {cleanup : Bool → Proc σ ε PUnit}
    {Q : Outcome ε α → σ → Prop} (h : Calmly m s (fun o t => o.Ends ∧
      Calmly (cleanup o.unwinds) t (fun c t' => c = .ok ⟨⟩ ∧ Q o t'))) :
    Calmly (Proc.ensure m cleanup) s Q := by
  intro ds hds
  obtain ⟨hrest, hends, hclean⟩ := h ds hds
  unfold Proc.ensure
  rcases hrun : m s ds with ⟨o, t, rest⟩
  rw [hrun] at hrest hends hclean
  obtain ⟨hrest', hok, hQ⟩ := hclean rest hrest
  change (cleanup o.unwinds t rest).1 = _ at hok
  cases o with
  | ok value =>
    refine ⟨hrest', ?_⟩
    change Q (Outcome.after _ (cleanup _ t rest).1) _
    rw [hok]
    exact hQ
  | error failure =>
    refine ⟨hrest', ?_⟩
    change Q (Outcome.after _ (cleanup _ t rest).1) _
    rw [hok]
    exact hQ
  | panicked => exact hends.elim
  | died => exact hends.elim

/-- The end of a body whose cleanup always succeeds. -/
theorem ensure_ends {m : Proc σ ε α} {cleanup : Bool → Proc σ ε PUnit} {t : σ}
    {ds rest : Schedule} {o : Outcome ε α} (hrun : m s ds = (o, t, rest)) (hrest : Calm rest)
    (hends : o.Ends) (hclean : ∀ b t, Calmly (cleanup b) t (fun c _ => c = .ok ⟨⟩)) :
    Calm (Proc.ensure m cleanup s ds).2.2 ∧ (Proc.ensure m cleanup s ds).1 = o := by
  obtain ⟨hrest', hok⟩ := hclean o.unwinds t rest hrest
  unfold Proc.ensure
  rw [hrun]
  cases o with
  | ok value => exact ⟨hrest', congrArg (Outcome.after _) hok⟩
  | error failure => exact ⟨hrest', congrArg (Outcome.after _) hok⟩
  | panicked => exact hends.elim
  | died => exact hends.elim

theorem mimics_ensure {m m' : Proc σ ε α} {cleanup cleanup' : Bool → Proc σ ε PUnit}
    (hclean : ∀ b t, Calmly (cleanup b) t (fun c _ => c = .ok ⟨⟩))
    (hclean' : ∀ b t, Calmly (cleanup' b) t (fun c _ => c = .ok ⟨⟩))
    (h : Mimics m s m' s' (fun _ _ _ => True)) :
    Mimics (Proc.ensure m cleanup) s (Proc.ensure m' cleanup') s' (fun _ _ _ => True) := by
  intro ds ds' hds hds'
  obtain ⟨⟨hrest, hrest'⟩, hends, hsame, _⟩ := h ds ds' hds hds'
  rcases hrun : m s ds with ⟨o, t, rest⟩
  rcases hrun' : m' s' ds' with ⟨o', t', rest'⟩
  rw [hrun] at hrest hsame hends
  rw [hrun'] at hrest' hsame
  obtain rfl : o' = o := hsame
  obtain ⟨hafter, ho⟩ := ensure_ends hrun hrest hends hclean
  obtain ⟨hafter', ho'⟩ := ensure_ends hrun' hrest' hends hclean'
  rw [ho, ho']
  exact ⟨⟨hafter, hafter'⟩, hends, rfl, trivial⟩

/-- Two loops over lists that correspond member by member. -/
theorem mimics_forM {ι : Type w} {act act' : γ → Proc σ ε PUnit} {view view' : ι → γ} {xs : List ι}
    {R : σ → σ → Prop} (hstart : R s s') (hstep : ∀ x ∈ xs, ∀ t t', R t t' →
      Mimics (act (view x)) t (act' (view' x)) t' (fun _ => R)) :
    Mimics ((xs.map view).forM act) s ((xs.map view').forM act') s' (fun _ => R) := by
  induction xs generalizing s s' with
  | nil => exact mimics_pure hstart
  | cons x xs ih =>
    change Mimics (do act (view x); (xs.map view).forM act) s
      (do act' (view' x); (xs.map view').forM act') s' _
    apply mimics_seq (hstep x List.mem_cons_self s s' hstart)
    exact fun _ t t' h => ih h fun y hy => hstep y (List.mem_cons_of_mem x hy)

theorem mimics_foldlM {act act' : α → γ → Proc σ ε α} {xs : List γ} {a : α} {R : σ → σ → Prop}
    (hstart : R s s') (hstep : ∀ x ∈ xs, ∀ a t t', R t t' →
      Mimics (act a x) t (act' a x) t' (fun _ => R)) :
    Mimics (xs.foldlM act a) s (xs.foldlM act' a) s' (fun _ => R) := by
  induction xs generalizing a s s' with
  | nil => exact mimics_pure hstart
  | cons x xs ih =>
    rw [List.foldlM_cons, List.foldlM_cons]
    apply mimics_seq (hstep x List.mem_cons_self a s s' hstart)
    exact fun _ t t' h => ih h fun y hy => hstep y (List.mem_cons_of_mem x hy)

end Mimics

end RgbLightningNode.Faulty
