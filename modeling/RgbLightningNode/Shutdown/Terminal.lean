import RgbLightningNode.Shutdown.StopNode

/-!
# All shutdown calls agree

The first execution that sees the token cancelled at its end caches its outcome, and every later
shutdown returns the cached value. The cached value speaks for the database pool as long as no
cancellation falls between the two reads of the token in one execution.
-/

namespace RgbLightningNode.Shutdown
open Transition

variable {i j : ℕ} {s s' : AppState} {p p' : Phase} {answer : Answer} {whole : Prop}

/-- Some execution has removed the session owners. -/
def AppState.Removed (s : AppState) : Prop := ∃ i, .ownersRemoved i ∈ s.log

namespace Phase

/-- The steps of an execution as far as cancellation and caching are concerned. -/
inductive Advance (i : ℕ) (s : AppState) : Phase → AppState → Phase → Prop where
  | lock (free : s.teardown = none) : Advance i s .lock { s with teardown := some i } .cached
  | reuse {outcome} (cancelled : s.cancelled = true) (cached : s.teardownOutcome = some outcome) :
      Advance i s .cached s (.leaving outcome)
  | start (fresh : s.cancelled = true → s.teardownOutcome = none) : Advance i s .cached s .owners
  | take : Advance i s .owners ({ s with session := ⟨none, none⟩ }.record (.ownersRemoved i))
      (.tasks (.take s.session))
  | work {p p' : Phase} (events : List Event) (before : p.Working) (after : p'.Working) :
      Advance i s p { s with log := events ++ s.log } p'
  | terminal {t} (cancelled : s.cancelled = true) : Advance i s (.database t) s (.closing t)
  | nonterminal {t} (running : s.cancelled = false) : Advance i s (.database t) s (.caching t)
  | close {t} (close : PoolClose) : Advance i s (.closing t)
      { s with poolClosed := s.poolClosed || close.isClosed } (.caching (t.note close.error?))
  | cache {t} (cancelled : s.cancelled = true) : Advance i s (.caching t)
      { s with teardownOutcome := some t.outcome } (.leaving t.outcome)
  | skip {t} (running : s.cancelled = false) : Advance i s (.caching t) s (.leaving t.outcome)
  | leave {outcome} : Advance i s (.leaving outcome) { s with teardown := none }
      (.returned (outcome.mapError .unexpected))

theorem Advance.idle_work (before : p.Working) (after : p'.Working) : Advance i s p s p' :=
  .work [] before after

theorem Advance.event_work (e : Event) (before : p.Working) (after : p'.Working) :
    Advance i s p (s.record e) p' :=
  .work [e] before after

theorem next_advance (h : p.next i s answer = some (s', p')) : Advance i s p s' p' := by
  cases p with
  | lock =>
    cases answer <;> simp only [next, Option.ite_none_right_eq_some, reduceCtorEq] at h
    obtain ⟨hfree, h⟩ := h
    cases h
    exact .lock hfree
  | cached =>
    cases answer <;> simp only [next, reduceCtorEq] at h
    split at h
    next hcancelled hcached =>
      cases h
      exact .reuse hcancelled hcached
    next hfresh =>
      cases h
      apply Advance.start
      intro hcancelled
      by_contra hcached
      obtain ⟨outcome, hcached⟩ := Option.ne_none_iff_exists'.mp hcached
      exact hfresh outcome hcancelled hcached
  | owners =>
    cases answer <;> simp only [next, reduceCtorEq] at h
    cases h
    exact .take
  | tasks t =>
    simp only [next] at h
    split at h <;> cases h
    · exact .idle_work trivial trivial
    · exact .event_work _ trivial trivial
  | background t =>
    simp only [next] at h
    split at h
    · cases h
      exact .idle_work trivial trivial
    · cases h
      exact .event_work _ trivial trivial
    · split at h <;> cases h
      · exact .event_work _ trivial trivial
      · exact .idle_work trivial trivial
    · cases h
  | aborting t =>
    cases answer <;> simp only [next, reduceCtorEq] at h
    cases h
    exact .event_work _ trivial trivial
  | stores t =>
    cases answer <;> simp only [next, reduceCtorEq] at h
    split at h <;> cases h
    · exact .event_work _ trivial trivial
    · exact .idle_work trivial trivial
  | completions t =>
    simp only [next] at h
    split at h <;> cases h
    · exact .idle_work trivial trivial
    · exact .event_work _ trivial trivial
  | managers t =>
    simp only [next] at h
    split at h <;> cases h
    · exact .idle_work trivial trivial
    · exact .idle_work trivial trivial
  | fence t =>
    cases answer <;> simp only [next, reduceCtorEq] at h
    split at h
    · split at h <;> cases h
      · exact .event_work _ trivial trivial
      · exact .event_work _ trivial trivial
    · cases h
      exact .idle_work trivial trivial
  | database t =>
    cases answer <;> simp only [next, reduceCtorEq] at h
    split at h
    next hcancelled =>
      cases h
      exact .terminal hcancelled
    next hrunning =>
      cases h
      exact .nonterminal (eq_false_of_ne_true hrunning)
  | closing t =>
    cases answer <;> simp only [next, reduceCtorEq] at h
    cases h
    exact .close _
  | caching t =>
    cases answer <;> simp only [next, reduceCtorEq] at h
    split at h
    next hcancelled =>
      cases h
      exact .cache hcancelled
    next hrunning =>
      cases h
      exact .skip (eq_false_of_ne_true hrunning)
  | leaving outcome =>
    cases answer <;> simp only [next, reduceCtorEq] at h
    cases h
    exact .leave
  | returned result => cases answer <;> simp [next] at h

/-- What is known of the shared state while an execution stands at a phase. What concerns the pool
is known only under `whole`, which stands for runs in which no cancellation splits an execution. -/
def Sound (whole : Prop) (terminal : Bool) (s : AppState) : Phase → Prop
  | .lock | .cached => True
  | .owners => s.teardownOutcome = none
  | .closing _ => s.teardownOutcome = none ∧ s.Removed ∧ s.cancelled = true
  | .caching t => s.teardownOutcome = none ∧ s.Removed ∧
      (whole → s.cancelled = true → t.cleanupErrors = [] → s.poolClosed = true)
  | .leaving outcome => terminal = true → s.teardownOutcome = some outcome
  | .returned result => terminal = true →
      ∃ outcome, s.teardownOutcome = some outcome ∧ result = outcome.mapError .unexpected
  | _ => s.teardownOutcome = none ∧ s.Removed

end Phase

/-- The part of the invariant about the shared state. -/
structure AppState.Sound (whole : Prop) (s : AppState) : Prop where
  fresh : s.cancelled = false → s.poolClosed = false ∧ s.teardownOutcome = none
  closed : whole → s.teardownOutcome = some (.ok ()) → s.poolClosed = true
  removed : s.teardownOutcome ≠ none → s.Removed

/-- The part of the invariant about call `i`. -/
def Call.Sound (whole : Prop) (i : ℕ) (s : AppState) : Call → Prop
  | .waiting => s.cancelled = true ∧ s.teardown ≠ some i
  | .stopping terminal phase => (terminal = true → s.cancelled = true) ∧
      (s.teardown = some i ↔ phase.Inside) ∧ phase.Sound whole terminal s
  | _ => s.teardown ≠ some i

/-- What a call relies on while other calls take steps. -/
structure Undisturbed (i : ℕ) (s s' : AppState) : Prop where
  holder : s'.teardown = some i ↔ s.teardown = some i
  cancelled : s'.cancelled = s.cancelled
  outcome : s'.teardownOutcome = s.teardownOutcome
  removed : s.Removed → s'.Removed
  closed : s.poolClosed = true → s'.poolClosed = true

theorem AppState.Removed.log (h : s.Removed) (events : List Event) :
    AppState.Removed { s with log := events ++ s.log } := by
  obtain ⟨k, hk⟩ := h
  exact ⟨k, List.mem_append_right events hk⟩

theorem Phase.Sound.undisturbed {terminal : Bool} (h : p.Sound whole terminal s)
    (hs : Undisturbed i s s') : p.Sound whole terminal s' := by
  cases p with
  | lock | cached => trivial
  | owners => exact hs.outcome.trans h
  | closing t => exact ⟨hs.outcome.trans h.1, hs.removed h.2.1, hs.cancelled.trans h.2.2⟩
  | caching t =>
    refine ⟨hs.outcome.trans h.1, hs.removed h.2.1, fun hwhole hcancelled herrors => ?_⟩
    rw [hs.cancelled] at hcancelled
    exact hs.closed (h.2.2 hwhole hcancelled herrors)
  | leaving outcome => exact fun hterminal => hs.outcome.trans (h hterminal)
  | returned result =>
    intro hterminal
    obtain ⟨outcome, hcached, hresult⟩ := h hterminal
    exact ⟨outcome, hs.outcome.trans hcached, hresult⟩
  | _ => exact ⟨hs.outcome.trans h.1, hs.removed h.2⟩

theorem Call.Sound.undisturbed {c : Call} (h : c.Sound whole i s) (hs : Undisturbed i s s') :
    c.Sound whole i s' := by
  cases c with
  | waiting => exact ⟨hs.cancelled.trans h.1, hs.holder.not.mpr h.2⟩
  | stopping terminal phase =>
    obtain ⟨hterminal, hholder, hphase⟩ := h
    refine ⟨fun ht => hs.cancelled.trans (hterminal ht), hs.holder.trans hholder, ?_⟩
    exact hphase.undisturbed hs
  | _ => exact hs.holder.not.mpr h

/-- A cancellation disturbs only an execution between its two reads of the token. -/
theorem Call.Sound.cancel {c : Call} (h : c.Sound whole i s)
    (hcaching : whole → ∀ terminal t, c = .stopping terminal (.caching t) →
      t.cleanupErrors = [] → s.cancelled = true) :
    c.Sound whole i { s with cancelled := true, attachedSigner := none } := by
  cases c with
  | waiting => exact ⟨rfl, h.2⟩
  | stopping terminal phase =>
    obtain ⟨_, hholder, hphase⟩ := h
    refine ⟨fun _ => rfl, hholder, ?_⟩
    cases phase with
    | closing t => exact ⟨hphase.1, hphase.2.1, rfl⟩
    | caching t =>
      refine ⟨hphase.1, hphase.2.1, fun hwhole _ herrors => ?_⟩
      exact hphase.2.2 hwhole (hcaching hwhole terminal t rfl herrors) herrors
    | _ => exact hphase
  | _ => exact h

/-- Only the holder of the teardown mutex caches, and no returned shutdown precedes it. -/
theorem Call.Sound.cache {c : Call} (h : c.Sound whole j s) (hheld : s.teardown = some i)
    (hj : j ≠ i) (hnone : s.teardownOutcome = none) (outcome : Except String Unit) :
    c.Sound whole j { s with teardownOutcome := some outcome } := by
  cases c with
  | stopping terminal phase =>
    obtain ⟨hterminal, hholder, hphase⟩ := h
    refine ⟨hterminal, hholder, ?_⟩
    have houtside : ¬phase.Inside := by
      rw [← hholder, hheld]
      exact fun hi => hj (Option.some.inj hi).symm
    cases phase with
    | lock => trivial
    | returned result =>
      intro ht
      obtain ⟨_, hcached, _⟩ := hphase ht
      rw [hnone] at hcached
      cases hcached
    | _ => exact absurd trivial houtside
  | _ => exact h

theorem Teardown.cleanupErrors_of_outcome {t : Teardown} (h : t.outcome = .ok ()) :
    t.cleanupErrors = [] := by
  by_cases hempty : t.cleanupErrors.isEmpty
  · exact List.isEmpty_iff.mp hempty
  · simp [Teardown.outcome, hempty] at h

theorem Teardown.cleanupErrors_of_note {t : Teardown} {error : Option String}
    (h : (t.note error).cleanupErrors = []) : error = none := by
  cases error with
  | none => rfl
  | some error => simp [Teardown.note, Teardown.push] at h

theorem PoolClose.isClosed_of_error {close : PoolClose} (h : close.error? = none) :
    close.isClosed = true := by
  cases close with
  | closed => rfl
  | failed error done => simp [PoolClose.error?] at h
  | taskFailed error done => simp [PoolClose.error?] at h

theorem Phase.Working.sound {terminal : Bool} (h : p.Working) :
    p.Sound whole terminal s ↔ s.teardownOutcome = none ∧ s.Removed := by
  cases p <;> first | exact Iff.rfl | exact h.elim

theorem Phase.Working.inside (h : p.Working) : p.Inside := by
  cases p <;> trivial

namespace Phase.Advance

variable {terminal : Bool}

theorem shared (h : Advance i s p s' p') (hs : s.Sound whole) (hp : p.Sound whole terminal s) :
    s'.Sound whole := by
  cases h with
  | take => exact ⟨hs.fresh, hs.closed, fun ho => (hs.removed ho).log [_]⟩
  | work events before after => exact ⟨hs.fresh, hs.closed, fun ho => (hs.removed ho).log events⟩
  | close close =>
    refine ⟨fun hrunning => ?_, fun _ hcached => ?_, hs.removed⟩
    · rw [show s.cancelled = true from hp.2.2] at hrunning
      cases hrunning
    · rw [show s.teardownOutcome = none from hp.1] at hcached
      cases hcached
  | cache cancelled =>
    refine ⟨fun hrunning => ?_, fun hwhole hcached => ?_, fun _ => hp.2.1⟩
    · rw [show s.cancelled = true from cancelled] at hrunning
      cases hrunning
    · have herrors := Teardown.cleanupErrors_of_outcome (Option.some.inj hcached)
      exact hp.2.2 hwhole cancelled herrors
  | _ => exact ⟨hs.fresh, hs.closed, hs.removed⟩

theorem holder (h : Advance i s p s' p') (hp : s.teardown = some i ↔ p.Inside) :
    s'.teardown = some i ↔ p'.Inside := by
  cases h with
  | lock free => exact iff_of_true rfl trivial
  | work events before after => exact iff_of_true (hp.mpr before.inside) after.inside
  | leave => exact iff_of_false nofun not_false
  | _ => exact iff_of_true (hp.mpr trivial) trivial

theorem own (h : Advance i s p s' p') (hs : s.Sound whole) (hterminal : terminal = true →
    s.cancelled = true) (hp : p.Sound whole terminal s) : p'.Sound whole terminal s' := by
  cases h with
  | lock free => trivial
  | reuse cancelled cached => exact fun _ => cached
  | start fresh =>
    by_cases hcancelled : s.cancelled = true
    · exact fresh hcancelled
    · exact (hs.fresh (eq_false_of_ne_true hcancelled)).2
  | take => exact ⟨hp, i, List.mem_cons_self⟩
  | work events before after =>
    rw [before.sound] at hp
    rw [after.sound]
    exact ⟨hp.1, hp.2.log events⟩
  | terminal cancelled => exact ⟨hp.1, hp.2, cancelled⟩
  | nonterminal running =>
    refine ⟨hp.1, hp.2, fun _ hcancelled => ?_⟩
    rw [running] at hcancelled
    cases hcancelled
  | close close =>
    refine ⟨hp.1, hp.2.1, fun _ _ herrors => ?_⟩
    have hclosed := PoolClose.isClosed_of_error (Teardown.cleanupErrors_of_note herrors)
    simp only [hclosed, Bool.or_true]
  | cache cancelled => exact fun _ => rfl
  | skip running =>
    intro ht
    rw [hterminal ht] at running
    cases running
  | leave => exact fun ht => ⟨_, hp ht, rfl⟩

/-- Every step of another call either caches an outcome or disturbs nobody. -/
theorem undisturbed (h : Advance i s p s' p') (hp : s.teardown = some i ↔ p.Inside)
    (hj : j ≠ i) : Undisturbed j s s' ∨
      ∃ t, p = .caching t ∧ s' = { s with teardownOutcome := some t.outcome } := by
  have hother : s.teardown = some i → s.teardown ≠ some j := by
    intro hi hj'
    exact hj (Option.some.inj (hj'.symm.trans hi))
  cases h with
  | lock free =>
    refine .inl ⟨iff_of_false ?_ (by simp [free]), rfl, rfl, id, id⟩
    exact fun hi => hj (Option.some.inj hi).symm
  | take => exact .inl ⟨Iff.rfl, rfl, rfl, fun hr => hr.log [_], id⟩
  | work events before after => exact .inl ⟨Iff.rfl, rfl, rfl, fun hr => hr.log events, id⟩
  | close close => exact .inl ⟨Iff.rfl, rfl, rfl, id, fun hc => by simp [hc]⟩
  | cache cancelled => exact .inr ⟨_, rfl, rfl⟩
  | leave =>
    exact .inl ⟨iff_of_false nofun (hother (hp.mpr trivial)), rfl, rfl, id, id⟩
  | _ => exact .inl ⟨Iff.rfl, rfl, rfl, id, id⟩

end Phase.Advance

namespace Call

inductive Advance (i : ℕ) (s : AppState) : Call → AppState → Call → Prop where
  | shutdown : Advance i s .idle s .marking
  | stopNode : Advance i s .idle s (.stopping false .lock)
  | attach (free : s.attachedSigner = none) :
      Advance i s .marking { s with attachedSigner := some (.call i) } .cancelling
  | cancel : Advance i s .cancelling { s with cancelled := true, attachedSigner := none } .waiting
  | sleep (changing : s.changingState = true) : Advance i s .waiting s .waiting
  | stop (settled : s.changingState = false) : Advance i s .waiting s (.stopping true .lock)
  | phase {terminal p s' p'} (advance : Phase.Advance i s p s' p') :
      Advance i s (.stopping terminal p) s' (.stopping terminal p')

variable {c c' : Call} {action : Action}

theorem next_advance (h : c.next i action s = some (s', c')) : Advance i s c s' c' := by
  cases c with
  | idle =>
    cases action with
    | shutdown => cases h; exact .shutdown
    | stopNode => cases h; exact .stopNode
    | resume answer => cases h
  | marking =>
    simp only [next] at h
    split at h
    · simp only [Option.ite_none_right_eq_some] at h
      obtain ⟨hfree, h⟩ := h
      cases h
      exact .attach hfree
    · cases h
  | cancelling =>
    simp only [next] at h
    split at h
    · cases h
      exact .cancel
    · cases h
  | waiting =>
    simp only [next] at h
    split at h
    · by_cases hchanging : s.changingState
      · rw [if_pos hchanging] at h
        cases h
        exact .sleep hchanging
      · rw [if_neg hchanging] at h
        cases h
        exact .stop (eq_false_of_ne_true hchanging)
    · cases h
  | stopping terminal phase =>
    simp only [next] at h
    split at h
    · simp only [Option.map_eq_some_iff, Prod.mk.injEq] at h
      obtain ⟨⟨u, p⟩, hphase, rfl, rfl⟩ := h
      exact .phase (Phase.next_advance hphase)
    · cases h

end Call

/-- A first cancellation between the two reads of the token in an execution that has recorded no
cleanup error. -/
def Splits (s : System) (move : Label) : Prop :=
  s.shared.cancelled = false ∧
    (∃ i, s.control i = .cancelling ∧ move = .thread i (.resume .ready)) ∧
    ∃ j terminal t, s.control j = .stopping terminal (.caching t) ∧ t.cleanupErrors = []

def Unsplit (s : System) (move : Label) : Prop := ¬Splits s move

theorem Undisturbed.refl (h : s'.teardown = s.teardown) (hcancelled : s'.cancelled = s.cancelled)
    (houtcome : s'.teardownOutcome = s.teardownOutcome) (hlog : s'.log = s.log)
    (hpool : s'.poolClosed = s.poolClosed) : Undisturbed i s s' := by
  refine ⟨by rw [h], hcancelled, houtcome, fun hr => ?_, fun hc => hpool.trans hc⟩
  obtain ⟨k, hk⟩ := hr
  exact ⟨k, hlog.symm ▸ hk⟩

theorem AppState.Sound.undisturbed (hs : s.Sound whole) (h : Undisturbed i s s')
    (hpool : s'.poolClosed = s.poolClosed) : s'.Sound whole := by
  refine ⟨fun hrunning => ?_, fun hwhole hcached => ?_, fun hcached => ?_⟩
  · rw [h.cancelled] at hrunning
    exact ⟨hpool.trans (hs.fresh hrunning).1, h.outcome.trans (hs.fresh hrunning).2⟩
  · rw [h.outcome] at hcached
    exact hpool.trans (hs.closed hwhole hcached)
  · rw [h.outcome] at hcached
    exact h.removed (hs.removed hcached)

theorem Environment.apply_undisturbed {e : Environment} (h : e.apply s = some s') :
    Undisturbed i s s' ∧ s'.poolClosed = s.poolClosed := by
  cases e with
  | publish session =>
    cases h
    exact ⟨.refl rfl rfl rfl rfl rfl, rfl⟩
  | changingState value =>
    cases h
    exact ⟨.refl rfl rfl rfl rfl rfl, rfl⟩
  | lockAttachedSigner =>
    simp only [Environment.apply, Option.ite_none_right_eq_some] at h
    obtain ⟨_, h⟩ := h
    cases h
    exact ⟨.refl rfl rfl rfl rfl rfl, rfl⟩
  | unlockAttachedSigner =>
    simp only [Environment.apply, Option.ite_none_right_eq_some] at h
    obtain ⟨_, h⟩ := h
    cases h
    exact ⟨.refl rfl rfl rfl rfl rfl, rfl⟩

namespace Call.Advance

variable {c c' d : Call}

theorem shared (h : Call.Advance i s c s' c') (hs : s.Sound whole) (hc : c.Sound whole i s) :
    s'.Sound whole := by
  cases h with
  | attach free => exact ⟨hs.fresh, hs.closed, hs.removed⟩
  | cancel => exact ⟨nofun, hs.closed, hs.removed⟩
  | phase advance => exact advance.shared hs hc.2.2
  | _ => exact hs

theorem own (h : Call.Advance i s c s' c') (hs : s.Sound whole) (hc : c.Sound whole i s) :
    c'.Sound whole i s' := by
  cases h with
  | shutdown => exact hc
  | stopNode => exact ⟨nofun, iff_of_false hc not_false, trivial⟩
  | attach free => exact hc
  | cancel => exact ⟨rfl, hc⟩
  | sleep changing => exact hc
  | stop settled => exact ⟨fun _ => hc.1, iff_of_false hc.2 not_false, trivial⟩
  | phase advance =>
    obtain ⟨hterminal, hholder, hphase⟩ := hc
    refine ⟨fun ht => ?_, advance.holder hholder, advance.own hs hterminal hphase⟩
    have hcancelled := hterminal ht
    cases advance with
    | _ => exact hcancelled

/-- A step of call `i` keeps what is known of call `j`, unless it splits the reads of `j`. -/
theorem other (h : Call.Advance i s c s' c') (hc : c.Sound whole i s) (hj : j ≠ i)
    (hd : d.Sound whole j s)
    (hsplit : c = .cancelling → whole → ∀ terminal t, d = .stopping terminal (.caching t) →
      t.cleanupErrors = [] → s.cancelled = true) : d.Sound whole j s' := by
  cases h with
  | attach free => exact hd.undisturbed (.refl rfl rfl rfl rfl rfl)
  | cancel => exact hd.cancel (hsplit rfl)
  | phase advance =>
    obtain ⟨_, hholder, hphase⟩ := hc
    rcases advance.undisturbed hholder hj with hs | ⟨t, rfl, rfl⟩
    · exact hd.undisturbed hs
    · exact hd.cache (hholder.mpr trivial) hj hphase.1 _
  | _ => exact hd

end Call.Advance

theorem program_preserves (whole : Prop) {A : System → Label → Prop}
    (hA : ∀ s move, A s move → whole → Unsplit s move) :
    program.Preserves A (AppState.Sound whole) (Call.Sound whole) where
  shared _ hs h := (Call.next_advance h).shared hs.shared (hs.control _)
  own _ hs h := (Call.next_advance h).own hs.shared (hs.control _)
  other {s i j action _ _} ha hs hj h := by
    refine (Call.next_advance h).other (hs.control i) hj (hs.control j) ?_
    intro hcancelling hwhole terminal t hcaching herrors
    by_contra hrunning
    apply hA s _ ha hwhole
    refine ⟨eq_false_of_ne_true hrunning, ⟨i, hcancelling, ?_⟩, j, terminal, t, hcaching, herrors⟩
    simp only [program, hcancelling] at h
    cases action with
    | resume answer => cases answer <;> first | rfl | cases h
    | _ => cases h
  environment _ hs h := by
    have hu := fun k => Environment.apply_undisturbed (i := k) h
    exact ⟨hs.shared.undisturbed (hu 0).1 (hu 0).2, fun j => (hs.control j).undisturbed (hu j).1⟩

section Runs

variable {s t u : System} {moves : List Label} {move : Label}

theorem Fresh.holds (h : Fresh s) :
    Program.Holds (AppState.Sound whole) (Call.Sound whole) s := by
  refine ⟨⟨fun _ => ⟨h.poolClosed, h.teardownOutcome⟩, ?_, ?_⟩, fun i => ?_⟩
  · simp [h.teardownOutcome]
  · simp [h.teardownOutcome]
  · rw [h.control i]
    simp [Call.Sound, h.teardown]

/-- What shutdown callers may rely on in every run. -/
structure Settled (s : System) : Prop where
  removed : ∀ {i result}, s.control i = .stopping true (.returned result) → s.shared.Removed
  agree : ∀ {i j result result'}, s.control i = .stopping true (.returned result) →
    s.control j = .stopping true (.returned result') → result = result'
  usable : ∀ {i result}, s.control i = .stopping false (.returned result) →
    s.shared.cancelled = false → s.shared.poolClosed = false

/-- Moreover, a shutdown that succeeds has closed the database pool. -/
structure Agreement (s : System) : Prop extends Settled s where
  closed : ∀ {i}, s.control i = .stopping true (.returned (.ok ())) → s.shared.poolClosed = true

theorem returned_cached {i : ℕ} {result : Except APIError Unit}
    (h : Program.Holds (AppState.Sound whole) (Call.Sound whole) s)
    (hi : s.control i = .stopping true (.returned result)) :
    ∃ outcome, s.shared.teardownOutcome = some outcome ∧
      result = outcome.mapError APIError.unexpected := by
  have hc := h.control i
  rw [hi] at hc
  exact hc.2.2 rfl

theorem settled_of_holds (h : Program.Holds (AppState.Sound whole) (Call.Sound whole) s) :
    Settled s where
  removed hi := by
    obtain ⟨outcome, ho, _⟩ := returned_cached h hi
    exact h.shared.removed (by simp [ho])
  agree hi hj := by
    obtain ⟨outcome, ho, hr⟩ := returned_cached h hi
    obtain ⟨outcome', ho', hr'⟩ := returned_cached h hj
    obtain rfl : outcome = outcome' := Option.some.inj (ho.symm.trans ho')
    exact hr.trans hr'.symm
  usable _ hrunning := (h.shared.fresh hrunning).1

theorem closed_of_holds (h : Program.Holds (AppState.Sound whole) (Call.Sound whole) s)
    (hwhole : whole) {i : ℕ} (hi : s.control i = .stopping true (.returned (.ok ()))) :
    s.shared.poolClosed = true := by
  obtain ⟨outcome, ho, hr⟩ := returned_cached h hi
  cases outcome with
  | error error => cases hr
  | ok _ => exact h.shared.closed hwhole ho

theorem holds_of_trace (hrun : Trace (program.Step Program.Unrestricted) s moves t)
    (hs : Fresh s) : Program.Holds (AppState.Sound False) (Call.Sound False) t :=
  (program_preserves False fun _ _ _ => False.elim).trace hrun hs.holds

/-- Without any condition shutdown callers agree and find the session owners removed. -/
theorem shutdown_settled (hrun : Trace (program.Step Program.Unrestricted) s moves t)
    (hs : Fresh s) : Settled t :=
  settled_of_holds (holds_of_trace hrun hs)

theorem Phase.Advance.cancelled {i : ℕ} {s s' : AppState} {p p' : Phase}
    (h : Phase.Advance i s p s' p') : s'.cancelled = s.cancelled := by
  cases h <;> rfl

/-- The token stays cancelled. -/
theorem cancelled_step (hstep : program.step s move = some t) (hs : s.shared.cancelled = true) :
    t.shared.cancelled = true := by
  cases move with
  | environment event =>
    obtain ⟨shared, hevent, rfl⟩ := Program.step_environment hstep
    exact (Environment.apply_undisturbed (i := 0) hevent).1.cancelled.trans hs
  | thread i action =>
    obtain ⟨shared, control, hnext, rfl⟩ := Program.step_thread hstep
    have hadvance : Call.Advance i s.shared (s.control i) shared control :=
      Call.next_advance hnext
    generalize s.control i = call at hadvance
    cases hadvance with
    | cancel => rfl
    | phase advance => exact advance.cancelled.trans hs
    | _ => exact hs

theorem Splits.cancels (h : Splits s move) (hstep : program.step s move = some t) :
    t.shared.cancelled = true := by
  obtain ⟨_, ⟨i, hcancelling, rfl⟩, _⟩ := h
  obtain ⟨shared, control, hnext, rfl⟩ := Program.step_thread hstep
  simp only [program, hcancelling, Call.next, Option.some.injEq, Prod.mk.injEq] at hnext
  obtain ⟨rfl, _⟩ := hnext
  rfl

/-- No execution is split before the token is cancelled. -/
theorem unsplit_before (hrun : Trace (program.Step Program.Unrestricted) s moves t)
    (ht : t.shared.cancelled = false) : Trace (program.Step Unsplit) s moves t := by
  induction hrun with
  | nil => exact .nil
  | @snoc u _ _ _ _ last ih =>
    have hu : u.shared.cancelled = false := by
      by_contra h
      have hcancelled := cancelled_step last.1 (eq_true_of_ne_false h)
      simp [ht] at hcancelled
    refine (ih hu).snoc ⟨last.1, fun hsplit => ?_⟩
    have hcancelled := hsplit.cancels last.1
    simp [ht] at hcancelled

/-- No execution is split after the token is cancelled. -/
theorem unsplit_after (hrun : Trace (program.Step Program.Unrestricted) s moves t)
    (hs : s.shared.cancelled = true) : Trace (program.Step Unsplit) s moves t := by
  refine (hrun.restrict (P := fun s => s.shared.cancelled = true) (A := fun _ => True)
    (fun _ hs hstep => ⟨⟨hstep.1, fun hsplit => ?_⟩, cancelled_step hstep.1 hs⟩) (by simp) hs).1
  simp [hsplit.1] at hs

def resume (i : ℕ) : Label := .thread i (.resume .ready)

/-- An execution that reads the cancelled token last caches its outcome and returns. -/
theorem run_caching (i : ℕ) (terminal : Bool) (body : Teardown)
    (hs : s.control i = .stopping terminal (.caching body))
    (hcancelled : s.shared.cancelled = true) :
    program.run s [resume i, resume i] = some
      ⟨{ s.shared with teardownOutcome := some body.outcome, teardown := none },
        Function.update s.control i
          (.stopping terminal (.returned (body.outcome.mapError .unexpected)))⟩ := by
  simp [Program.run, Program.step, program, resume, Call.next, Phase.next, hs, hcancelled]

/-- A waiting shutdown that finds a cached outcome returns it. -/
theorem run_waiting (i : ℕ) (outcome : Except String Unit) (hs : s.control i = .waiting)
    (hcancelled : s.shared.cancelled = true) (hfree : s.shared.teardown = none)
    (hcached : s.shared.teardownOutcome = some outcome) :
    program.run s [.environment (.changingState false), resume i, resume i, resume i, resume i] =
      some ⟨{ s.shared with changingState := false },
        Function.update s.control i
          (.stopping true (.returned (outcome.mapError .unexpected)))⟩ := by
  simp [Program.run, Program.step, program, resume, Environment.apply, Call.next, Phase.next, hs,
    hcancelled, hfree, hcached]

/-- The condition is exact: a cancellation that splits an execution is followed, in some
continuation, by a shutdown that succeeds while the pool is open. -/
theorem splits_reports_open_pool (hrun : Trace (program.Step Program.Unrestricted) s moves t)
    (hs : Fresh s) (hsplit : Splits t move) (hstep : program.step t move = some u) :
    ∃ more v i, Trace (program.Step Program.Unrestricted) u more v ∧
      v.control i = .stopping true (.returned (.ok ())) ∧ v.shared.poolClosed = false := by
  obtain ⟨hrunning, ⟨i, hcancelling, rfl⟩, j, terminal, body, hcaching, herrors⟩ := hsplit
  have hopen := ((holds_of_trace hrun hs).shared.fresh hrunning).1
  have hne : j ≠ i := by
    intro hji
    rw [hji, hcancelling] at hcaching
    cases hcaching
  have houtcome : body.outcome = .ok () := by simp [Teardown.outcome, herrors]
  have hu : u = ⟨{ t.shared with cancelled := true, attachedSigner := none },
      Function.update t.control i .waiting⟩ := by
    simpa [Program.step, program, Call.next, hcancelling] using hstep.symm
  have hfirst := run_caching (s := u) j terminal body (by simp [hu, hne, hcaching]) (by simp [hu])
  have hsecond := run_waiting i body.outcome
    (s := ⟨{ u.shared with teardownOutcome := some body.outcome, teardown := none },
      Function.update u.control j
        (.stopping terminal (.returned (body.outcome.mapError .unexpected)))⟩)
    (by simp [hu, hne.symm]) (by simp [hu]) rfl rfl
  refine ⟨_, _, i, (Program.trace_of_run hfirst).append (Program.trace_of_run hsecond), ?_, ?_⟩
  · rw [houtcome]
    exact Function.update_self i _ _
  · simp [hu, hopen]

/-- In a run in which no cancellation splits an execution, the agreed outcome also stands for a
closed database pool. -/
theorem shutdown_agreement (hrun : Trace (program.Step Unsplit) s moves t) (hs : Fresh s) :
    Agreement t := by
  have hpreserves := program_preserves True fun _ _ (h : Unsplit _ _) _ => h
  have hholds := hpreserves.trace hrun hs.holds
  exact { settled_of_holds hholds with closed := closed_of_holds hholds trivial }

end Runs

section Sample

/-- An unlocked node with every kind of session owner. -/
def sampleNode : System where
  shared :=
    { cancelled := false, attachedSigner := none, changingState := false, teardown := none
      teardownOutcome := none
      session := ⟨some ⟨true⟩, some ⟨true, some ⟨true⟩⟩⟩
      poolClosed := false
      log := [] }
  control _ := .idle

def reply (i : ℕ) (a : Answer) : Label := .thread i (.resume a)

/-- A `stop_node` execution without errors, up to and including its database check. -/
def teardownMoves (i : ℕ) : List Label :=
  [resume i, resume i, resume i, reply i (.joined (.ok ())), reply i (.exited .finished), resume i,
    reply i (.joined (.ok ())), resume i, resume i, resume i]

def cancelMoves (i : ℕ) : List Label := [.thread i .shutdown, resume i, resume i]

def closeMoves (i : ℕ) : List Label := [reply i (.pool .closed), resume i, resume i]

/-- The four steps of a waiting shutdown that finds a cached outcome. -/
def reuseMoves (i : ℕ) : List Label := [resume i, resume i, resume i, resume i]

theorem sampleNode_fresh : Fresh sampleNode := ⟨rfl, rfl, rfl, rfl, fun _ => rfl⟩

/-- A REST lock is at work when two shutdowns cancel the token, the first one before the lock checks
the database and the second one after: the lock closes the pool and both return its outcome. -/
theorem shutdown_agreement_sample :
    ∃ t, t.control 0 = .stopping false (.returned (.ok ())) ∧
      t.control 1 = .stopping true (.returned (.ok ())) ∧
      t.control 2 = .stopping true (.returned (.ok ())) ∧ Agreement t := by
  have hruns : ∃ u v t, program.run sampleNode (.thread 0 .stopNode ::
        (teardownMoves 0).dropLast ++ (cancelMoves 1).dropLast) = some u ∧
      program.step u (resume 1) = some v ∧
      program.run v (resume 0 :: cancelMoves 2 ++ closeMoves 0 ++ reuseMoves 1 ++ reuseMoves 2) =
        some t ∧
      (u.shared.cancelled = false ∧ ∀ j terminal b, u.control j ≠ .stopping terminal (.caching b)) ∧
      v.shared.cancelled = true ∧ t.control 0 = .stopping false (.returned (.ok ())) ∧
      t.control 1 = .stopping true (.returned (.ok ())) ∧
      t.control 2 = .stopping true (.returned (.ok ())) := by
    refine ⟨_, _, _, rfl, rfl, rfl, ⟨rfl, fun j terminal b hj => ?_⟩, rfl, rfl, rfl, rfl⟩
    by_cases h0 : j = 0 <;> by_cases h1 : j = 1 <;> simp_all [sampleNode]
  obtain ⟨u, v, t, hbefore, hcancel, hafter, ⟨hrunning, hcaching⟩, hcancelled, hreturned⟩ := hruns
  have hunsplit : Unsplit u (resume 1) := fun ⟨_, _, j, terminal, b, hj, _⟩ =>
    hcaching j terminal b hj
  have hrun := ((unsplit_before (Program.trace_of_run hbefore) hrunning).snoc
    ⟨hcancel, hunsplit⟩).append (unsplit_after (Program.trace_of_run hafter) hcancelled)
  exact ⟨t, hreturned.1, hreturned.2.1, hreturned.2.2, shutdown_agreement hrun sampleNode_fresh⟩

/-- A REST lock is past its database check when a shutdown cancels the token: the lock caches its
success, the shutdown returns it, and the pool stays open. -/
theorem split_shutdown_leaves_pool_open :
    ∃ t, Fresh sampleNode ∧
      Trace (program.Step Program.Unrestricted) sampleNode
        (.thread 0 .stopNode :: teardownMoves 0 ++ cancelMoves 1 ++
          [resume 1, resume 0, resume 0] ++
          [resume 1, resume 1, resume 1]) t ∧
      t.control 1 = .stopping true (.returned (.ok ())) ∧ t.shared.poolClosed = false ∧
      ¬Agreement t := by
  refine ⟨_, sampleNode_fresh, Program.trace_of_run rfl, rfl, rfl, fun h => ?_⟩
  have hclosed := h.closed (i := 1) rfl
  cases hclosed

end Sample

end RgbLightningNode.Shutdown
