import RgbLightningNode.Shutdown.Registries

/-!
# One execution of `stop_node`

The fence of a session is in the hands of the execution that took the session over. A step of the
node is seen here from one such execution: it is a step of another call, its own, or one of the
workers of its session.
-/

namespace RgbLightningNode.Shutdown
open Transition
open RgbLightningNode.Session (SessionTasks)

variable {φ : Type} {i j : ℕ}

namespace Event

/-- The execution that did it. -/
def execution : Event → ℕ
  | .ownersRemoved i | .tasksJoined i _ | .backgroundExited i _ | .monitorStoreStopped i
  | .vssStoresStopped i | .completionsJoined i _ | .fenceReleased i | .fenceRetained i => i

end Event

/-! ### One execution -/

/-- What concerns one execution of `stop_node`. -/
structure Execution (φ : Type) where
  log : List Event
  taken : Option Session
  registries : Registries φ
  call : Call

def Node.execution (s : Node φ) (i : ℕ) : Execution φ where
  log := s.system.shared.log
  taken := s.taken i
  registries := s.registries i
  call := s.system.control i

/-- What a step of the node does to execution `i`. -/
inductive Execution.Effect (i : ℕ) (x : Execution φ) : Execution φ → Prop where
  | others (events : List Event) (foreign : ∀ e ∈ events, e.execution ≠ i) :
      Effect i x { x with log := events ++ x.log }
  | own {action : Action} {s s' : AppState} {call : Call} (log : s.log = x.log)
      (next : x.call.next i action s = some (s', call)) (taken : x.call.phase ≠ some .owners)
      (alone : ∀ result, action ≠ .resume (.joined result)) :
      Effect i x { x with log := s'.log, call }
  | take {session : Session} {terminal : Bool} {tasks : SessionTasks ℕ φ}
      (call : x.call = .stopping terminal .owners)
      (closed : session.lightning.isSome = true → x.registries.tasks.close i = some tasks)
      (kept : session.lightning.isSome = false → tasks = x.registries.tasks) :
      Effect i x ⟨.ownersRemoved i :: x.log, some session, { x.registries with tasks },
        .stopping terminal (.tasks (.take session))⟩
  | registry {which : Registry} {label : Session.Label ℕ φ} {tasks : SessionTasks ℕ φ}
      (step : (x.registries.get which).Step label tasks)
      (allowed : label.outside = true ∨
        label = .join i ∧ x.call.phase.bind Phase.joins = some which) :
      Effect i x { x with registries := x.registries.set which tasks }
  | joined {which : Registry} {tasks : SessionTasks ℕ φ} {result : Except String Unit}
      {terminal : Bool} {phase phase' : Phase} {s s' : AppState}
      (call : x.call = .stopping terminal phase) (joins : phase.joins = some which)
      (reap : (x.registries.get which).Step .reap tasks)
      (returned : tasks.lastResult = some result) (log : s.log = x.log)
      (next : phase.next i s (.joined result) = some (s', phase')) :
      Effect i x ⟨s'.log, x.taken, x.registries.set which tasks, .stopping terminal phase'⟩

/-! ### What a call writes to the log -/

theorem Phase.next_log {s s' : AppState} {p p' : Phase} {answer : Answer}
    (h : p.next i s answer = some (s', p')) :
    ∃ events, s'.log = events ++ s.log ∧ ∀ e ∈ events, e.execution = i := by
  have hquiet : ∃ events, s.log = events ++ s.log ∧ ∀ e ∈ events, e.execution = i :=
    ⟨[], rfl, by simp⟩
  have hrecord (u : AppState) (e : Event) (hlog : u.log = s.log) (he : e.execution = i) :
      ∃ events, (u.record e).log = events ++ s.log ∧ ∀ e ∈ events, e.execution = i := by
    refine ⟨[e], ?_, by simpa using he⟩
    rw [AppState.record, hlog]
    rfl
  cases p with
  | lock =>
    cases answer <;> simp only [next, Option.ite_none_right_eq_some, reduceCtorEq] at h
    obtain ⟨_, h⟩ := h
    cases h
    exact hquiet
  | cached =>
    cases answer <;> simp only [next, reduceCtorEq] at h
    split at h <;> cases h <;> exact hquiet
  | owners =>
    cases answer <;> simp only [next, reduceCtorEq] at h
    cases h
    exact hrecord _ _ rfl rfl
  | tasks t =>
    simp only [next] at h
    split at h <;> cases h
    · exact hquiet
    · exact hrecord _ _ rfl rfl
  | background t =>
    simp only [next] at h
    split at h
    · cases h
      exact hquiet
    · cases h
      exact hrecord _ _ rfl rfl
    · split at h <;> cases h
      · exact hrecord _ _ rfl rfl
      · exact hquiet
    · cases h
  | aborting t =>
    cases answer <;> simp only [next, reduceCtorEq] at h
    cases h
    exact hrecord _ _ rfl rfl
  | stores t =>
    cases answer <;> simp only [next, reduceCtorEq] at h
    split at h <;> cases h
    · exact hrecord _ _ rfl rfl
    · exact hquiet
  | completions t =>
    simp only [next] at h
    split at h <;> cases h
    · exact hquiet
    · exact hrecord _ _ rfl rfl
  | managers t =>
    simp only [next] at h
    split at h <;> cases h <;> exact hquiet
  | fence t =>
    cases answer <;> simp only [next, reduceCtorEq] at h
    split at h
    · split at h <;> cases h <;> exact hrecord _ _ rfl rfl
    · cases h
      exact hquiet
  | database t =>
    cases answer <;> simp only [next, reduceCtorEq] at h
    split at h <;> cases h <;> exact hquiet
  | closing t =>
    cases answer <;> simp only [next, reduceCtorEq] at h
    cases h
    exact hquiet
  | caching t =>
    cases answer <;> simp only [next, reduceCtorEq] at h
    split at h <;> cases h <;> exact hquiet
  | leaving outcome =>
    cases answer <;> simp only [next, reduceCtorEq] at h
    cases h
    exact hquiet
  | returned result => cases answer <;> simp [next] at h

theorem Call.next_log {s s' : AppState} {c c' : Call} {action : Action}
    (h : c.next i action s = some (s', c')) :
    ∃ events, s'.log = events ++ s.log ∧ ∀ e ∈ events, e.execution = i := by
  have hquiet : ∃ events, s.log = events ++ s.log ∧ ∀ e ∈ events, e.execution = i :=
    ⟨[], rfl, by simp⟩
  cases c with
  | idle =>
    cases action <;> simp only [next, reduceCtorEq] at h <;> cases h <;> exact hquiet
  | marking =>
    simp only [next] at h
    split at h
    · split at h <;> cases h
      exact hquiet
    · cases h
  | cancelling =>
    simp only [next] at h
    split at h <;> cases h
    exact hquiet
  | waiting =>
    simp only [next] at h
    split at h
    · split at h <;> cases h <;> exact hquiet
    · cases h
  | stopping terminal phase =>
    simp only [next] at h
    split at h
    · obtain ⟨⟨s'', phase'⟩, hnext, heq⟩ := Option.map_eq_some_iff.mp h
      cases heq
      exact Phase.next_log hnext
    · cases h

theorem Environment.apply_log {s s' : AppState} {event : Environment}
    (h : event.apply s = some s') : s'.log = s.log := by
  cases event with
  | publish session =>
    cases h
    rfl
  | changingState value =>
    cases h
    rfl
  | lockAttachedSigner =>
    simp only [apply] at h
    split at h <;> cases h
    rfl
  | unlockAttachedSigner =>
    simp only [apply] at h
    split at h <;> cases h
    rfl

/-! ### What a step does to an execution -/

namespace Node

variable {s t : Node φ}

theorem advance_spec {action : Action} (h : s.advance (.thread j action) = some t) :
    ∃ s' call, (s.system.control j).next j action s.system.shared = some (s', call) ∧
      t = { s with system := ⟨s', Function.update s.system.control j call⟩ } := by
  obtain ⟨system, hstep, rfl⟩ := Option.map_eq_some_iff.mp h
  obtain ⟨s', call, hnext, rfl⟩ := Program.step_thread hstep
  exact ⟨s', call, hnext, rfl⟩

theorem execution_setRegistry (which : Registry) (r : SessionTasks ℕ φ) :
    (s.setRegistry j which r).execution i =
      if i = j then { s.execution i with registries := (s.registries i).set which r }
      else s.execution i := by
  by_cases hij : i = j
  · subst hij
    simp [execution, setRegistry]
  · simp [execution, setRegistry, hij]

/-- A step of another call. -/
theorem effect_of_other {s' : AppState} {call : Call} {action : Action} (hij : i ≠ j)
    (hnext : (s.system.control j).next j action s.system.shared = some (s', call)) :
    Execution.Effect i (s.execution i)
      (execution { s with system := ⟨s', Function.update s.system.control j call⟩ } i) := by
  obtain ⟨events, hlog, hevents⟩ := Call.next_log hnext
  have hothers := Execution.Effect.others (x := s.execution i) events
    fun e he heq => hij (heq.symm.trans (hevents e he))
  simpa [execution, hlog, hij] using hothers

theorem effect_of_advance {action : Action} (h : s.advance (.thread j action) = some t)
    (howners : (s.system.control j).phase ≠ some .owners)
    (halone : ∀ result, action ≠ .resume (.joined result)) :
    Execution.Effect i (s.execution i) (t.execution i) := by
  obtain ⟨s', call, hnext, rfl⟩ := advance_spec h
  by_cases hij : i = j
  · subst hij
    have hown := Execution.Effect.own (x := s.execution i) rfl hnext howners halone
    simpa [execution] using hown
  · exact effect_of_other hij hnext

theorem stopping_of_phase {c : Call} {phase : Phase} (h : c.phase = some phase) :
    ∃ terminal, c = .stopping terminal phase := by
  cases c with
  | stopping terminal phase' =>
    obtain rfl : phase' = phase := Option.some.inj h
    exact ⟨terminal, rfl⟩
  | _ => cases h

theorem resume_of_owners {c call : Call} {action : Action} {s s' : AppState}
    (h : c.phase = some .owners) (hnext : c.next j action s = some (s', call)) :
    action = .resume .ready := by
  obtain ⟨terminal, rfl⟩ := stopping_of_phase h
  cases action with
  | resume answer =>
    cases answer with
    | ready => rfl
    | _ => cases hnext
  | _ => cases hnext

/-- Taking the owners is one step of the call, with the tasks closed by then. -/
theorem takeOwners_spec {terminal : Bool} (hcall : s.system.control j = .stopping terminal .owners)
    (h : s.takeOwners j = some t) : ∃ tasks,
      (s.system.shared.session.lightning.isSome = true →
        (s.registries j).tasks.close j = some tasks) ∧
      (s.system.shared.session.lightning.isSome = false → tasks = (s.registries j).tasks) ∧
      t = { system := ⟨{ s.system.shared with session := ⟨none, none⟩ }.record (.ownersRemoved j),
              Function.update s.system.control j
                (.stopping terminal (.tasks (.take s.system.shared.session)))⟩
            taken := Function.update s.taken j (some s.system.shared.session)
            registries := Function.update s.registries j { s.registries j with tasks } } := by
  unfold takeOwners at h
  by_cases hlightning : s.system.shared.session.lightning.isSome = true
  · simp only [hlightning, if_true, Option.bind_eq_some_iff] at h
    obtain ⟨tasks, hclose, h⟩ := h
    obtain ⟨s', call, hnext, rfl⟩ := advance_spec h
    refine ⟨tasks, fun _ => hclose, fun hnone => ?_, ?_⟩
    · rw [hlightning] at hnone
      cases hnone
    · simp only [setRegistry, hcall, Call.next, Phase.next, Option.map_some, Option.some.injEq,
        Prod.mk.injEq] at hnext
      obtain ⟨rfl, rfl⟩ := hnext
      rfl
  · simp only [hlightning] at h
    obtain ⟨s', call, hnext, rfl⟩ := advance_spec h
    refine ⟨(s.registries j).tasks, fun hsome => absurd hsome hlightning, fun _ => rfl, ?_⟩
    simp only [hcall, Call.next, Phase.next, Option.map_some, Option.some.injEq,
      Prod.mk.injEq] at hnext
    obtain ⟨rfl, rfl⟩ := hnext
    rw [Function.update_eq_self]

theorem effect_of_takeOwners {terminal : Bool}
    (hcall : s.system.control j = .stopping terminal .owners) (h : s.takeOwners j = some t) :
    Execution.Effect i (s.execution i) (t.execution i) := by
  obtain ⟨tasks, hclosed, hkept, rfl⟩ := takeOwners_spec hcall h
  by_cases hij : i = j
  · subst hij
    have htake := Execution.Effect.take (x := s.execution i) hcall hclosed hkept
    simpa [execution, AppState.record] using htake
  · have hothers := Execution.Effect.others (x := s.execution i) [.ownersRemoved j] (i := i)
      (by simpa [Event.execution] using Ne.symm hij)
    simpa [execution, AppState.record, hij] using hothers

theorem effect_of_joined {which : Registry} {tasks : SessionTasks ℕ φ}
    {result : Except String Unit} (hjoins : s.joins j = some which)
    (hreap : (s.registry j which).reap = some tasks) (hreturned : tasks.lastResult = some result)
    (h : (s.setRegistry j which tasks).advance (.thread j (.resume (.joined result))) = some t) :
    Execution.Effect i (s.execution i) (t.execution i) := by
  obtain ⟨s', call, hnext, rfl⟩ := advance_spec h
  simp only [setRegistry] at hnext ⊢
  by_cases hij : i = j
  · subst hij
    cases hcontrol : s.system.control i with
    | stopping terminal phase =>
      rw [hcontrol] at hnext
      obtain ⟨⟨s'', phase'⟩, hphase, heq⟩ := Option.map_eq_some_iff.mp hnext
      cases heq
      have hphases : phase.joins = some which := by
        rwa [joins, hcontrol] at hjoins
      have hjoined := Execution.Effect.joined (x := s.execution i) hcontrol hphases hreap hreturned
        rfl hphase
      simpa [execution] using hjoined
    | _ =>
      rw [joins, hcontrol] at hjoins
      cases hjoins
  · simpa [execution, hij] using effect_of_other hij hnext

theorem effect_of_registry {which : Registry} {label : Session.Label ℕ φ} {tasks : SessionTasks ℕ φ}
    (hstep : (s.registry j which).Step label tasks)
    (hallowed : label.outside = true ∨ label = .join j ∧ s.joins j = some which) :
    Execution.Effect i (s.execution i) ((s.setRegistry j which tasks).execution i) := by
  rw [execution_setRegistry]
  split
  next hij =>
    subst hij
    exact .registry hstep hallowed
  next hij => exact .others [] (by simp)

theorem effect_of_step {label : NodeLabel φ} (h : s.Step label t) (i : ℕ) :
    Execution.Effect i (s.execution i) (t.execution i) := by
  cases label with
  | node label =>
    cases label with
    | environment event =>
      obtain ⟨system, hstep, rfl⟩ := Option.map_eq_some_iff.mp h
      obtain ⟨shared, hevent, rfl⟩ := Program.step_environment hstep
      have hlog := Environment.apply_log hevent
      have hothers := Execution.Effect.others (x := s.execution i) (i := i) [] (by simp)
      simpa [execution, hlog] using hothers
    | thread j action =>
      cases action with
      | shutdown =>
        refine effect_of_advance h (fun howners => ?_) nofun
        obtain ⟨_, _, hnext, _⟩ := advance_spec h
        cases (resume_of_owners howners hnext)
      | stopNode =>
        refine effect_of_advance h (fun howners => ?_) nofun
        obtain ⟨_, _, hnext, _⟩ := advance_spec h
        cases (resume_of_owners howners hnext)
      | resume answer =>
        change Node.step s (.node (.thread j (.resume answer))) = some t at h
        simp only [step] at h
        split at h
        next terminal _ hcontrol => exact effect_of_takeOwners hcontrol h
        next => cases h
        next hjoined howners =>
          refine effect_of_advance h (fun hphase => ?_) fun result heq => ?_
          · obtain ⟨_, _, hnext, _⟩ := advance_spec h
            obtain ⟨terminal, hcontrol⟩ := stopping_of_phase hphase
            cases resume_of_owners hphase hnext
            exact howners terminal hcontrol rfl
          · cases heq
            exact hjoined result rfl
  | join j =>
    obtain ⟨which, hjoins, h⟩ := Option.bind_eq_some_iff.mp h
    obtain ⟨tasks, hjoin, rfl⟩ := Option.map_eq_some_iff.mp h
    exact effect_of_registry (show SessionTasks.Step _ (.join j) tasks from hjoin)
      (.inr ⟨rfl, hjoins⟩)
  | joined j =>
    obtain ⟨which, hjoins, h⟩ := Option.bind_eq_some_iff.mp h
    obtain ⟨tasks, hreap, h⟩ := Option.bind_eq_some_iff.mp h
    obtain ⟨result, hresult, h⟩ := Option.bind_eq_some_iff.mp h
    exact effect_of_joined hjoins hreap hresult h
  | registry j which label =>
    change (if label.outside then _ else none) = some t at h
    split at h
    next houtside =>
      obtain ⟨tasks, hstep, rfl⟩ := Option.map_eq_some_iff.mp h
      exact effect_of_registry hstep (.inl houtside)
    next => cases h

end Node

end RgbLightningNode.Shutdown
