import RgbLightningNode.Shutdown.Executions
import RgbLightningNode.Shutdown.Rollback
import RgbLightningNode.Shutdown.Terminal

/-!
# The fence outlives the session

The VSS fence of a wallet may pass to another device only when nothing of the session can write any
more. What is known of an execution of `stop_node` depends on how many stages of the teardown lie
behind it; the fence comes after the last stage that waits for anything of the session.
-/

namespace RgbLightningNode.Shutdown
open Transition
open RgbLightningNode.Session (SessionTasks)

variable {φ : Type} {i : ℕ}

/-- The events that leave a cleanup error behind. -/
def Event.Fails : Event → Prop
  | .tasksJoined _ result | .completionsJoined _ result => result ≠ .ok ()
  | .backgroundExited _ exit => logBpShutdownResult exit ≠ none
  | _ => False

def Session.background (session : Session) : Bool := session.lightning.any (·.backgroundProcessor)

/-! ### The stages of a teardown -/

/-- What is known of an execution that took over `session`. Stage 1 lies behind the tasks, stage 2
behind the background processor, stage 4 behind the completions and stage 6 behind the fence. -/
structure Stage (i : ℕ) (log : List Event) (session : Session) (r : Registries φ) (stage : ℕ)
    (failed : Prop) : Prop where
  closed : session.lightning.isSome = true → r.tasks.registry.closed = true
  tasks : 1 ≤ stage → session.lightning.isSome = true →
    ∃ result, .tasksJoined i result ∈ log ∧ r.tasks.Joined result
  background : 2 ≤ stage → session.background = true → ∃ exit, .backgroundExited i exit ∈ log
  admitting : stage ≤ 2 → r.completions.registry.closed = false
  completions : 4 ≤ stage → session.lightning.isSome = true →
    ∃ result, .completionsJoined i result ∈ log ∧ r.completions.Joined result
  failed : ∀ e ∈ log, e.execution = i → e.Fails → failed
  fence : .fenceReleased i ∈ log → 6 ≤ stage ∧ ∀ e ∈ log, e.execution = i → ¬e.Fails

/-- An execution that has not taken over a session. -/
structure Untouched (i : ℕ) (log : List Event) (taken : Option Session) (r : Registries φ) :
    Prop where
  taken : taken = none
  log : ∀ e ∈ log, e.execution ≠ i
  tasks : r.tasks.registry.closed = false
  completions : r.completions.registry.closed = false

namespace Stage

variable {log : List Event} {session : Session} {r r' : Registries φ} {n m : ℕ}
    {failed failed' : Prop}

theorem weaken (h : Stage i log session r n failed) (hfailed : failed → failed') :
    Stage i log session r n failed' :=
  { h with failed := fun e he hi hfails => hfailed (h.failed e he hi hfails) }

/-- Other executions write about themselves only. -/
theorem others (h : Stage i log session r n failed) {events : List Event}
    (hforeign : ∀ e ∈ events, e.execution ≠ i) : Stage i (events ++ log) session r n failed where
  closed := h.closed
  tasks hn hsession := by
    obtain ⟨result, hmem, hjoined⟩ := h.tasks hn hsession
    exact ⟨result, List.mem_append_right _ hmem, hjoined⟩
  background hn hsession := by
    obtain ⟨exit, hmem⟩ := h.background hn hsession
    exact ⟨exit, List.mem_append_right _ hmem⟩
  admitting := h.admitting
  completions hn hsession := by
    obtain ⟨result, hmem, hjoined⟩ := h.completions hn hsession
    exact ⟨result, List.mem_append_right _ hmem, hjoined⟩
  failed e he hi hfails := by
    rcases List.mem_append.mp he with he | he
    · exact absurd hi (hforeign e he)
    · exact h.failed e he hi hfails
  fence hmem := by
    rcases List.mem_append.mp hmem with hmem | hmem
    · exact absurd rfl (hforeign _ hmem)
    · obtain ⟨hn, hclean⟩ := h.fence hmem
      refine ⟨hn, fun e he hi => ?_⟩
      rcases List.mem_append.mp he with he | he
      · exact absurd hi (hforeign e he)
      · exact hclean e he hi

/-- A step of a registry that closes nothing the execution relies on. -/
theorem registries (h : Stage i log session r n failed)
    (hclosed : r.tasks.registry.closed = true → r'.tasks.registry.closed = true)
    (htasks : r.tasks.log <:+ r'.tasks.log)
    (hcompletions : r.completions.log <:+ r'.completions.log)
    (hadmitting : n ≤ 2 → r'.completions.registry.closed = r.completions.registry.closed) :
    Stage i log session r' n failed :=
  { h with
    closed := fun hsession => hclosed (h.closed hsession)
    tasks := fun hn hsession => by
      obtain ⟨result, hmem, hjoined⟩ := h.tasks hn hsession
      exact ⟨result, hmem, hjoined.mono htasks⟩
    admitting := fun hn => (hadmitting hn).trans (h.admitting hn)
    completions := fun hn hsession => by
      obtain ⟨result, hmem, hjoined⟩ := h.completions hn hsession
      exact ⟨result, hmem, hjoined.mono hcompletions⟩ }

/-- A later stage that nothing of the session had to be waited for. -/
theorem skip (h : Stage i log session r n failed) (hn : n ≤ m)
    (htasks : n = 0 → session.lightning.isSome = false)
    (hbackground : n = 1 → session.background = false)
    (hcompletions : n = 3 → session.lightning.isSome = false)
    (hm : m ≤ n + 1) : Stage i log session r m failed where
  closed := h.closed
  tasks hm' hsession := by
    by_cases hzero : n = 0
    · rw [htasks hzero] at hsession
      cases hsession
    · exact h.tasks (by omega) hsession
  background hm' hsession := by
    by_cases hone : n = 1
    · rw [hbackground hone] at hsession
      cases hsession
    · exact h.background (by omega) hsession
  admitting hm' := h.admitting (by omega)
  completions hm' hsession := by
    by_cases hthree : n = 3
    · rw [hcompletions hthree] at hsession
      cases hsession
    · exact h.completions (by omega) hsession
  failed := h.failed
  fence hmem := ⟨(h.fence hmem).1.trans hn, (h.fence hmem).2⟩

/-- An event of the execution itself, at most the last of its stage, before the fence. -/
theorem event (h : Stage i log session r n failed) (e : Event) (hn : n ≤ m) (hm : m ≤ n + 1)
    (hfence : n < 6) (he : e ≠ .fenceReleased i) (hfailed : failed → failed')
    (hfails : e.Fails → failed')
    (htasks : n = 0 → m = 1 → session.lightning.isSome = true →
      ∃ result, e = .tasksJoined i result ∧ r.tasks.Joined result)
    (hbackground : n = 1 → m = 2 → session.background = true → ∃ exit, e = .backgroundExited i exit)
    (hcompletions : n = 3 → m = 4 → session.lightning.isSome = true →
      ∃ result, e = .completionsJoined i result ∧ r.completions.Joined result) :
    Stage i (e :: log) session r m failed' where
  closed := h.closed
  tasks hm' hsession := by
    by_cases hzero : n = 0
    · obtain ⟨result, rfl, hjoined⟩ := htasks hzero (by omega) hsession
      exact ⟨result, List.mem_cons_self, hjoined⟩
    · obtain ⟨result, hmem, hjoined⟩ := h.tasks (by omega) hsession
      exact ⟨result, List.mem_cons_of_mem _ hmem, hjoined⟩
  background hm' hsession := by
    by_cases hone : n = 1
    · obtain ⟨exit, rfl⟩ := hbackground hone (by omega) hsession
      exact ⟨exit, List.mem_cons_self⟩
    · obtain ⟨exit, hmem⟩ := h.background (by omega) hsession
      exact ⟨exit, List.mem_cons_of_mem _ hmem⟩
  admitting hm' := h.admitting (by omega)
  completions hm' hsession := by
    by_cases hthree : n = 3
    · obtain ⟨result, rfl, hjoined⟩ := hcompletions hthree (by omega) hsession
      exact ⟨result, List.mem_cons_self, hjoined⟩
    · obtain ⟨result, hmem, hjoined⟩ := h.completions (by omega) hsession
      exact ⟨result, List.mem_cons_of_mem _ hmem, hjoined⟩
  failed e' he' hi hfails' := by
    rcases List.mem_cons.mp he' with rfl | he'
    · exact hfails hfails'
    · exact hfailed (h.failed e' he' hi hfails')
  fence hmem := by
    rcases List.mem_cons.mp hmem with heq | hmem
    · exact absurd heq.symm he
    · have hlate := (h.fence hmem).1
      omega

/-- Releasing the fence, which no failure may precede. -/
theorem release (h : Stage i log session r 5 failed) (hclean : ¬failed) :
    Stage i (.fenceReleased i :: log) session r 6 failed where
  closed := h.closed
  tasks _ hsession := by
    obtain ⟨result, hmem, hjoined⟩ := h.tasks (by omega) hsession
    exact ⟨result, List.mem_cons_of_mem _ hmem, hjoined⟩
  background _ hsession := by
    obtain ⟨exit, hmem⟩ := h.background (by omega) hsession
    exact ⟨exit, List.mem_cons_of_mem _ hmem⟩
  admitting hm := by omega
  completions _ hsession := by
    obtain ⟨result, hmem, hjoined⟩ := h.completions (by omega) hsession
    exact ⟨result, List.mem_cons_of_mem _ hmem, hjoined⟩
  failed e he hi hfails := by
    rcases List.mem_cons.mp he with rfl | he
    · exact hfails.elim
    · exact h.failed e he hi hfails
  fence _ := by
    refine ⟨le_rfl, fun e he hi hfails => ?_⟩
    rcases List.mem_cons.mp he with rfl | he
    · exact hfails
    · exact hclean (h.failed e he hi hfails)

end Stage

/-! ### What an execution knows -/

section Known

variable (i : ℕ) (log : List Event) (taken : Option Session) (r : Registries φ)

/-- The execution took over a session and has some stages behind it. -/
def Past (stage : ℕ) (failed : Prop) : Prop :=
  ∃ session, taken = some session ∧ Stage i log session r stage failed

/-- The same as long as the execution still holds the Lightning owner. -/
def Holding (t : Teardown) (stage : ℕ) : Prop :=
  ∃ session, taken = some session ∧ t.lightning = session.lightning ∧
    Stage i log session r stage (t.cleanupErrors ≠ [])

def Phase.Known : Phase → Prop
  | .lock | .cached | .owners => Untouched i log taken r
  | .tasks t => Holding i log taken r t 0
  | .background t | .aborting t => Holding i log taken r t 1
  | .stores t => Holding i log taken r t 2
  | .completions t => Holding i log taken r t 3
  | .managers t => Holding i log taken r t 4
  | .fence t => Past i log taken r 5 (t.cleanupErrors ≠ [])
  | .database t | .closing t | .caching t => Past i log taken r 6 (t.cleanupErrors ≠ [])
  | .leaving outcome => Untouched i log taken r ∨ Past i log taken r 6 (outcome ≠ .ok ())
  | .returned result => Untouched i log taken r ∨ Past i log taken r 6 (result ≠ .ok ())

def Call.Known : Call → Prop
  | .stopping _ phase => phase.Known i log taken r
  | _ => Untouched i log taken r

end Known

/-- What holds of every execution of a reachable state. -/
structure Execution.Sound (i : ℕ) (x : Execution φ) : Prop where
  registries : x.registries.tasks.Sound ∧ x.registries.completions.Sound
  known : x.call.Known i x.log x.taken x.registries

section Steps

variable {log : List Event} {taken : Option Session} {r r' : Registries φ} {p p' : Phase}
  {s s' : AppState} {answer : Answer} {t : Teardown} {n : ℕ}

theorem Untouched.others (h : Untouched i log taken r) {events : List Event}
    (hforeign : ∀ e ∈ events, e.execution ≠ i) : Untouched i (events ++ log) taken r where
  taken := h.taken
  log e he := (List.mem_append.mp he).elim (hforeign e) (h.log e)
  tasks := h.tasks
  completions := h.completions

theorem Untouched.registries (h : Untouched i log taken r)
    (htasks : r'.tasks.registry.closed = r.tasks.registry.closed)
    (hcompletions : r'.completions.registry.closed = r.completions.registry.closed) :
    Untouched i log taken r' :=
  { h with
    tasks := htasks.trans h.tasks
    completions := hcompletions.trans h.completions }

/-- What an execution knows is kept by whatever keeps its stage and its not having begun. -/
theorem Phase.Known.map {log' : List Event} (h : p.Known i log taken r)
    (huntouched : p.joins = none → Untouched i log taken r → Untouched i log' taken r')
    (hstage : ∀ session n failed, (n ≤ 2 → p.joins ≠ some .completions) →
      Stage i log session r n failed → Stage i log' session r' n failed) :
    p.Known i log' taken r' := by
  have hpast {n : ℕ} {failed : Prop} (hn : n ≤ 2 → p.joins ≠ some .completions)
      (hp : Past i log taken r n failed) : Past i log' taken r' n failed := by
    obtain ⟨session, htaken, hs⟩ := hp
    exact ⟨session, htaken, hstage session n failed hn hs⟩
  have hholding {n : ℕ} {t : Teardown} (hn : n ≤ 2 → p.joins ≠ some .completions)
      (hp : Holding i log taken r t n) : Holding i log' taken r' t n := by
    obtain ⟨session, htaken, hlightning, hs⟩ := hp
    exact ⟨session, htaken, hlightning, hstage session n _ hn hs⟩
  cases p with
  | lock => exact huntouched rfl h
  | cached => exact huntouched rfl h
  | owners => exact huntouched rfl h
  | tasks t =>
    refine hholding (fun _ => ?_) h
    simp only [joins]
    split <;> simp
  | background t => exact hholding (fun _ => nofun) h
  | aborting t => exact hholding (fun _ => nofun) h
  | stores t => exact hholding (fun _ => nofun) h
  | completions t => exact hholding (fun hn => absurd hn (by simp)) h
  | managers t => exact hholding (fun _ => nofun) h
  | fence t => exact hpast (fun _ => nofun) h
  | database t => exact hpast (fun _ => nofun) h
  | closing t => exact hpast (fun _ => nofun) h
  | caching t => exact hpast (fun _ => nofun) h
  | leaving outcome => exact h.imp (huntouched rfl) (hpast fun _ => nofun)
  | returned result => exact h.imp (huntouched rfl) (hpast fun _ => nofun)

theorem Call.Known.map {c : Call} {log' : List Event} (h : c.Known i log taken r)
    (huntouched : c.phase.bind Phase.joins = none →
      Untouched i log taken r → Untouched i log' taken r')
    (hstage : ∀ session n failed, (n ≤ 2 → c.phase.bind Phase.joins ≠ some .completions) →
      Stage i log session r n failed → Stage i log' session r' n failed) :
    c.Known i log' taken r' := by
  cases c with
  | stopping terminal phase => exact Phase.Known.map h huntouched hstage
  | _ => exact huntouched rfl h

theorem Teardown.outcome_ne {t : Teardown} (h : t.cleanupErrors ≠ []) : t.outcome ≠ .ok () := by
  simpa [Teardown.outcome, List.isEmpty_iff] using h

theorem Teardown.note_ne {t : Teardown} {error : Option String}
    (h : t.cleanupErrors ≠ [] ∨ error ≠ none) : (t.note error).cleanupErrors ≠ [] := by
  cases error with
  | none => simpa [Teardown.note] using h
  | some error => simp [Teardown.note, Teardown.push]

theorem Teardown.noteResult_ne {t : Teardown} {result : Except String Unit}
    (h : t.cleanupErrors ≠ [] ∨ result ≠ .ok ()) : (t.noteResult result).cleanupErrors ≠ [] := by
  cases result with
  | ok => simpa [Teardown.noteResult] using h
  | error error => simp [Teardown.noteResult, Teardown.push]

theorem Teardown.note_lightning {t : Teardown} (error : Option String) :
    (t.note error).lightning = t.lightning := by
  cases error <;> rfl

theorem Teardown.noteResult_lightning {t : Teardown} (result : Except String Unit) :
    (t.noteResult result).lightning = t.lightning := by
  cases result <;> rfl

/-- How the wait for the background processor ends, before or after its retries were aborted. -/
theorem Holding.exited {exit : BpExit} (h : Holding i log taken r t 1) :
    Holding i (.backgroundExited i exit :: log) taken r (t.note (logBpShutdownResult exit)) 2 := by
  obtain ⟨session, htaken, hlightning, hstage⟩ := h
  refine ⟨session, htaken, (Teardown.note_lightning _).trans hlightning, ?_⟩
  exact hstage.event _ (by omega) (by omega) (by omega) nofun
    (fun herrors => Teardown.note_ne (.inl herrors)) (fun hfails => Teardown.note_ne (.inr hfails))
    nofun (fun _ _ _ => ⟨exit, rfl⟩) nofun

/-- An event that ends no stage. -/
theorem Stage.remark {session : Session} {failed : Prop} (h : Stage i log session r n failed)
    (hn : n < 6) (e : Event) (he : e ≠ .fenceReleased i) (hfails : ¬e.Fails) :
    Stage i (e :: log) session r n failed :=
  h.event e le_rfl (by omega) hn he id (fun hf => absurd hf hfails) (by omega) (by omega) (by omega)

/-- The steps in which an execution neither takes the owners nor waits for a registry. -/
theorem Phase.Known.next (h : p.Known i s.log taken r) (hnext : p.next i s answer = some (s', p'))
    (howners : p ≠ .owners) (halone : ∀ result, answer ≠ .joined result) :
    p'.Known i s'.log taken r := by
  cases p with
  | lock =>
    cases answer <;> simp only [Phase.next, Option.ite_none_right_eq_some, reduceCtorEq] at hnext
    obtain ⟨_, hnext⟩ := hnext
    cases hnext
    exact h
  | cached =>
    cases answer <;> simp only [Phase.next, reduceCtorEq] at hnext
    split at hnext <;> cases hnext
    · exact .inl h
    · exact h
  | owners => exact absurd rfl howners
  | tasks t =>
    obtain ⟨session, htaken, hlightning, hstage⟩ := h
    simp only [Phase.next] at hnext
    split at hnext <;> cases hnext
    next hnone =>
      refine ⟨session, htaken, hlightning,
        hstage.skip (by omega) (fun _ => ?_) (by simp) (by simp) (by omega)⟩
      rw [← hlightning, hnone]
      rfl
    next result _ => exact absurd rfl (halone result)
  | background t =>
    simp only [Phase.next] at hnext
    split at hnext
    next hnone =>
      cases hnext
      obtain ⟨session, htaken, hlightning, hstage⟩ := h
      refine ⟨session, htaken, hlightning,
        hstage.skip (by omega) (by simp) (fun _ => ?_) (by simp) (by omega)⟩
      rw [Session.background, ← hlightning]
      exact hnone
    next exit _ =>
      cases hnext
      exact h.exited
    next =>
      obtain ⟨session, htaken, hlightning, hstage⟩ := h
      split at hnext <;> cases hnext
      · exact ⟨session, htaken, hlightning, hstage.remark (by omega) _ (by simp) id⟩
      · exact ⟨session, htaken, hlightning, hstage⟩
    next => cases hnext
  | aborting t =>
    cases answer <;> simp only [Phase.next, reduceCtorEq] at hnext
    cases hnext
    exact h.exited
  | stores t =>
    cases answer <;> simp only [Phase.next, reduceCtorEq] at hnext
    obtain ⟨session, htaken, hlightning, hstage⟩ := h
    have hnew := hstage.skip (m := 3) (by omega) (by simp) (by simp) (by simp) (by omega)
    split at hnext <;> cases hnext
    · exact ⟨session, htaken, hlightning, hnew.remark (by omega) _ (by simp) id⟩
    · exact ⟨session, htaken, hlightning, hnew⟩
  | completions t =>
    obtain ⟨session, htaken, hlightning, hstage⟩ := h
    simp only [Phase.next] at hnext
    split at hnext <;> cases hnext
    next hnone =>
      refine ⟨session, htaken, hlightning,
        hstage.skip (by omega) (by simp) (by simp) (fun _ => ?_) (by omega)⟩
      rw [← hlightning, hnone]
      rfl
    next result _ => exact absurd rfl (halone result)
  | managers t =>
    obtain ⟨session, htaken, hlightning, hstage⟩ := h
    have hnew := hstage.skip (m := 5) (by omega) (by simp) (by simp) (by simp) (by omega)
    simp only [Phase.next] at hnext
    split at hnext <;> cases hnext
    · exact ⟨session, htaken, hnew⟩
    · exact ⟨session, htaken, hnew.weaken fun _ => by simp [Teardown.push]⟩
  | fence t =>
    cases answer <;> simp only [Phase.next, reduceCtorEq] at hnext
    obtain ⟨session, htaken, hstage⟩ := h
    have hnew := hstage.skip (m := 6) (by omega) (by simp) (by simp) (by simp) (by omega)
    split at hnext
    · split at hnext <;> cases hnext
      next herrors =>
        refine ⟨session, htaken, hstage.release fun hne => hne ?_⟩
        exact List.isEmpty_iff.mp herrors
      next => 
        refine ⟨session, htaken, hstage.event _ (by omega) (by omega) (by omega) (by simp) id
          (fun hf => hf.elim) (by simp) (by simp) (by simp)⟩
    · cases hnext
      exact ⟨session, htaken, hnew⟩
  | database t =>
    cases answer <;> simp only [Phase.next, reduceCtorEq] at hnext
    split at hnext <;> cases hnext <;> exact h
  | closing t =>
    cases answer <;> simp only [Phase.next, reduceCtorEq] at hnext
    cases hnext
    obtain ⟨session, htaken, hstage⟩ := h
    exact ⟨session, htaken, hstage.weaken fun herrors => Teardown.note_ne (.inl herrors)⟩
  | caching t =>
    cases answer <;> simp only [Phase.next, reduceCtorEq] at hnext
    obtain ⟨session, htaken, hstage⟩ := h
    have hnew : Past i s.log taken r 6 (t.outcome ≠ .ok ()) :=
      ⟨session, htaken, hstage.weaken Teardown.outcome_ne⟩
    split at hnext <;> cases hnext <;> exact .inr hnew
  | leaving outcome =>
    cases answer <;> simp only [Phase.next, reduceCtorEq] at hnext
    cases hnext
    refine h.imp_right fun hpast => ?_
    obtain ⟨session, htaken, hstage⟩ := hpast
    refine ⟨session, htaken, hstage.weaken fun hne => ?_⟩
    cases outcome with
    | ok => exact absurd rfl hne
    | error error => simp [Except.mapError]
  | returned result => cases answer <;> simp [Phase.next] at hnext

/-- The steps in which an execution has waited for a registry. -/
theorem Phase.Known.joined {which : Registry} {result : Except String Unit}
    (h : p.Known i s.log taken r) (hjoins : p.joins = some which)
    (hnext : p.next i s (.joined result) = some (s', p')) (hresult : (r.get which).Joined result) :
    p'.Known i s'.log taken r := by
  have hnote {t : Teardown} {session : Session} (hlightning : t.lightning = session.lightning) :
      (t.noteResult result).lightning = session.lightning :=
    (Teardown.noteResult_lightning result).trans hlightning
  cases p with
  | tasks t =>
    obtain ⟨session, htaken, hlightning, hstage⟩ := h
    simp only [Phase.joins, Option.ite_none_right_eq_some, Option.some.injEq] at hjoins
    obtain ⟨_, rfl⟩ := hjoins
    simp only [Phase.next] at hnext
    split at hnext
    next hready => cases hready
    next heq =>
      cases heq
      cases hnext
      refine ⟨session, htaken, hnote hlightning, ?_⟩
      exact hstage.event _ (by omega) (by omega) (by omega) (by simp)
        (fun herrors => Teardown.noteResult_ne (.inl herrors))
        (fun hfails => Teardown.noteResult_ne (.inr hfails))
        (fun _ _ _ => ⟨result, rfl, hresult⟩) (by simp) (by simp)
    next => cases hnext
  | completions t =>
    obtain ⟨session, htaken, hlightning, hstage⟩ := h
    simp only [Phase.joins, Option.ite_none_right_eq_some, Option.some.injEq] at hjoins
    obtain ⟨_, rfl⟩ := hjoins
    simp only [Phase.next] at hnext
    split at hnext
    next hready => cases hready
    next heq =>
      cases heq
      cases hnext
      refine ⟨session, htaken, hnote hlightning, ?_⟩
      exact hstage.event _ (by omega) (by omega) (by omega) (by simp)
        (fun herrors => Teardown.noteResult_ne (.inl herrors))
        (fun hfails => Teardown.noteResult_ne (.inr hfails)) (by simp) (by simp)
        (fun _ _ _ => ⟨result, rfl, hresult⟩)
    next => cases hnext
  | _ => cases hjoins

/-- The steps of a registry: of its workers and their callers, or of a join by its owner. -/
theorem Call.Known.registry {c : Call} {which : Registry} {label : Session.Label ℕ φ}
    {tasks : SessionTasks ℕ φ} (h : c.Known i log taken r) (hsound : (r.get which).Sound)
    (hstep : (r.get which).Step label tasks)
    (hallowed : label.outside = true ∨ c.phase.bind Phase.joins = some which) :
    c.Known i log taken (r.set which tasks) := by
  have heffect := hsound.guarded.effect hstep
  refine Call.Known.map h (fun hnone huntouched => ?_) fun session n failed hopen hstage => ?_
  · have houtside : label.outside = true := by
      rcases hallowed with houtside | hjoins
      · exact houtside
      · rw [hnone] at hjoins
        cases hjoins
    have hclosed := Session.SessionTasks.outside_closed hstep houtside
    cases which with
    | tasks => exact huntouched.registries hclosed rfl
    | completions => exact huntouched.registries rfl hclosed
  · cases which with
    | tasks =>
      exact hstage.registries heffect.closed_mono heffect.log_suffix List.suffix_rfl fun _ => rfl
    | completions =>
      refine hstage.registries id List.suffix_rfl heffect.log_suffix fun hn => ?_
      rcases hallowed with houtside | hjoins
      · exact Session.SessionTasks.outside_closed hstep houtside
      · exact absurd hjoins (hopen hn)

end Steps

namespace Execution

variable {x y : Execution φ}

theorem Sound.own {action : Action} {s s' : AppState} {call : Call} (h : x.Sound i)
    (hlog : s.log = x.log) (hnext : x.call.next i action s = some (s', call))
    (howners : x.call.phase ≠ some .owners) (halone : ∀ result, action ≠ .resume (.joined result)) :
    call.Known i s'.log x.taken x.registries := by
  have hknown := h.known
  rw [← hlog] at hknown
  cases hcall : x.call with
  | idle =>
    rw [hcall] at hnext hknown
    cases action <;> simp only [Call.next, reduceCtorEq] at hnext <;> cases hnext <;> exact hknown
  | marking =>
    rw [hcall] at hnext hknown
    simp only [Call.next] at hnext
    split at hnext
    · split at hnext <;> cases hnext
      exact hknown
    · cases hnext
  | cancelling =>
    rw [hcall] at hnext hknown
    simp only [Call.next] at hnext
    split at hnext <;> cases hnext
    exact hknown
  | waiting =>
    rw [hcall] at hnext hknown
    simp only [Call.next] at hnext
    split at hnext
    · split at hnext <;> cases hnext <;> exact hknown
    · cases hnext
  | stopping terminal phase =>
    rw [hcall] at hnext hknown howners
    cases action with
    | resume answer =>
      obtain ⟨⟨s'', phase'⟩, hphase, heq⟩ := Option.map_eq_some_iff.mp hnext
      cases heq
      refine Phase.Known.next hknown hphase (fun heq => howners (by rw [heq]; rfl)) ?_
      exact fun result heq => halone result (by rw [heq])
    | _ => cases hnext

theorem Sound.take {session : Session} {terminal : Bool} {tasks : SessionTasks ℕ φ} (h : x.Sound i)
    (hcall : x.call = .stopping terminal .owners)
    (hclosed : session.lightning.isSome = true → x.registries.tasks.close i = some tasks)
    (hkept : session.lightning.isSome = false → tasks = x.registries.tasks) :
    Sound i ⟨.ownersRemoved i :: x.log, some session, { x.registries with tasks },
      .stopping terminal (.tasks (.take session))⟩ := by
  have huntouched : Untouched i x.log x.taken x.registries := by
    have hknown := h.known
    rw [hcall] at hknown
    exact hknown
  have hnone : ∀ e ∈ .ownersRemoved i :: x.log, e.execution = i → ¬e.Fails := by
    intro e he hi
    rcases List.mem_cons.mp he with rfl | he
    · exact id
    · exact absurd hi (huntouched.log e he)
  have hstage : Stage i (.ownersRemoved i :: x.log) session { x.registries with tasks } 0
      ((Teardown.take session).cleanupErrors ≠ []) := by
    refine ⟨fun hsome => ?_, nofun, nofun, fun _ => huntouched.completions, nofun, ?_, ?_⟩
    · obtain ⟨u, hset, rfl⟩ := Option.map_eq_some_iff.mp (hclosed hsome)
      obtain ⟨_, rfl⟩ := Session.SessionTasks.setClosed_spec hset
      rfl
    · exact fun e he hi hfails => absurd hfails (hnone e he hi)
    · intro hmem
      rcases List.mem_cons.mp hmem with heq | hmem
      · cases heq
      · exact absurd rfl (huntouched.log _ hmem)
  have hsound : tasks.Sound := by
    cases hsome : session.lightning.isSome with
    | false => exact hkept hsome ▸ h.registries.1
    | true =>
      exact h.registries.1.step (show SessionTasks.Step _ (.close i) tasks from hclosed hsome)
  exact ⟨⟨hsound, h.registries.2⟩, session, rfl, rfl, hstage⟩

theorem Sound.step (h : x.Sound i) (heffect : Effect i x y) : y.Sound i := by
  cases heffect with
  | others events foreign =>
    refine ⟨h.registries, Call.Known.map h.known ?_ ?_⟩
    · exact fun _ huntouched => huntouched.others foreign
    · exact fun _ _ _ _ hstage => hstage.others foreign
  | own log next taken alone => exact ⟨h.registries, h.own log next taken alone⟩
  | take call closed kept => exact h.take call closed kept
  | @registry which label tasks step allowed =>
    have hsound := Registries.sound_get h.registries which
    refine ⟨Registries.sound_set h.registries (hsound.step step), ?_⟩
    exact h.known.registry hsound step (allowed.imp_right And.right)
  | @joined which tasks result terminal phase phase' s s' call joins reap returned log next =>
    have hsound := Registries.sound_get h.registries which
    refine ⟨Registries.sound_set h.registries (hsound.step reap), ?_⟩
    have hjoins : x.call.phase.bind Phase.joins = some which := by
      rw [call]
      exact joins
    have hknown := h.known.registry hsound reap (.inr hjoins)
    rw [call, ← log] at hknown
    refine Phase.Known.joined hknown joins next ?_
    rw [Registries.get_set]
    exact Session.SessionTasks.joined_of_lastResult returned

end Execution

/-! ### What becomes of a cleanup error -/

/-- A cleanup error was recorded and will be reported. -/
def Phase.Spoilt : Phase → Prop
  | .tasks t | .background t | .aborting t | .stores t | .completions t | .managers t | .fence t
  | .database t | .closing t | .caching t => t.cleanupErrors ≠ []
  | .leaving outcome => outcome ≠ .ok ()
  | .returned result => result ≠ .ok ()
  | _ => False

/-- An execution with a cleanup error that has not released the fence. -/
def Execution.Spoilt (i : ℕ) (x : Execution φ) : Prop :=
  .fenceReleased i ∉ x.log ∧ ∃ terminal phase, x.call = .stopping terminal phase ∧ phase.Spoilt

section Spoilt

variable {p p' : Phase} {s s' : AppState} {answer : Answer}

/-- A cleanup error stays, and while there is one the fence is not released. -/
theorem Phase.Spoilt.next (h : p.Spoilt) (hnext : p.next i s answer = some (s', p'))
    (hlog : .fenceReleased i ∉ s.log) : p'.Spoilt ∧ .fenceReleased i ∉ s'.log := by
  have hrecord (u : AppState) (e : Event) (hu : u.log = s.log) (he : e ≠ .fenceReleased i) :
      .fenceReleased i ∉ (u.record e).log := by
    rw [AppState.record, hu]
    simpa [he.symm] using hlog
  cases p with
  | lock => exact h.elim
  | cached => exact h.elim
  | owners => exact h.elim
  | tasks t =>
    simp only [Phase.next] at hnext
    split at hnext <;> cases hnext
    · exact ⟨h, hlog⟩
    · exact ⟨Teardown.noteResult_ne (.inl h), hrecord _ _ rfl (by simp)⟩
  | background t =>
    simp only [Phase.next] at hnext
    split at hnext
    · cases hnext
      exact ⟨h, hlog⟩
    · cases hnext
      exact ⟨Teardown.note_ne (.inl h), hrecord _ _ rfl (by simp)⟩
    · split at hnext <;> cases hnext
      · exact ⟨h, hrecord _ _ rfl (by simp)⟩
      · exact ⟨h, hlog⟩
    · cases hnext
  | aborting t =>
    cases answer <;> simp only [Phase.next, reduceCtorEq] at hnext
    cases hnext
    exact ⟨Teardown.note_ne (.inl h), hrecord _ _ rfl (by simp)⟩
  | stores t =>
    cases answer <;> simp only [Phase.next, reduceCtorEq] at hnext
    split at hnext <;> cases hnext
    · exact ⟨h, hrecord _ _ rfl (by simp)⟩
    · exact ⟨h, hlog⟩
  | completions t =>
    simp only [Phase.next] at hnext
    split at hnext <;> cases hnext
    · exact ⟨h, hlog⟩
    · exact ⟨Teardown.noteResult_ne (.inl h), hrecord _ _ rfl (by simp)⟩
  | managers t =>
    simp only [Phase.next] at hnext
    split at hnext <;> cases hnext
    · exact ⟨h, hlog⟩
    · exact ⟨by simp [Spoilt, Teardown.push], hlog⟩
  | fence t =>
    cases answer <;> simp only [Phase.next, reduceCtorEq] at hnext
    split at hnext
    · split at hnext
      next hnone => exact absurd (List.isEmpty_iff.mp hnone) h
      next =>
        cases hnext
        exact ⟨h, hrecord _ _ rfl (by simp)⟩
    · cases hnext
      exact ⟨h, hlog⟩
  | database t =>
    cases answer <;> simp only [Phase.next, reduceCtorEq] at hnext
    split at hnext <;> cases hnext <;> exact ⟨h, hlog⟩
  | closing t =>
    cases answer <;> simp only [Phase.next, reduceCtorEq] at hnext
    cases hnext
    exact ⟨Teardown.note_ne (.inl h), hlog⟩
  | caching t =>
    cases answer <;> simp only [Phase.next, reduceCtorEq] at hnext
    split at hnext <;> cases hnext <;> exact ⟨Teardown.outcome_ne h, hlog⟩
  | leaving outcome =>
    cases answer <;> simp only [Phase.next, reduceCtorEq] at hnext
    cases hnext
    refine ⟨fun hok => ?_, hlog⟩
    cases outcome with
    | ok => exact h rfl
    | error error => cases hok
  | returned result => cases answer <;> simp [Phase.next] at hnext

theorem Execution.Spoilt.step {x y : Execution φ} (h : x.Spoilt i) (heffect : Effect i x y) :
    y.Spoilt i := by
  obtain ⟨hlog, terminal, phase, hcall, hspoilt⟩ := h
  cases heffect with
  | others events foreign =>
    refine ⟨fun hmem => ?_, terminal, phase, hcall, hspoilt⟩
    rcases List.mem_append.mp hmem with hmem | hmem
    · exact foreign _ hmem rfl
    · exact hlog hmem
  | @own action s s' call log next taken alone =>
    rw [hcall] at next
    rw [← log] at hlog
    cases action with
    | resume answer =>
      obtain ⟨⟨s'', phase'⟩, hphase, heq⟩ := Option.map_eq_some_iff.mp next
      cases heq
      obtain ⟨hspoilt', hlog'⟩ := hspoilt.next hphase hlog
      exact ⟨hlog', terminal, phase', rfl, hspoilt'⟩
    | _ => cases next
  | take call closed kept =>
    rw [hcall] at call
    cases call
    exact hspoilt.elim
  | registry step allowed => exact ⟨hlog, terminal, phase, hcall, hspoilt⟩
  | joined call joins reap returned log next =>
    rw [hcall] at call
    cases call
    rw [← log] at hlog
    obtain ⟨hspoilt', hlog'⟩ := hspoilt.next next hlog
    exact ⟨hlog', terminal, _, rfl, hspoilt'⟩

end Spoilt

/-! ### The fence -/

/-- What an execution of `stop_node` has done with the fence of the session it took over. -/
structure Execution.Fenced (i : ℕ) (x : Execution φ) : Prop where
  released : .fenceReleased i ∈ x.log → ∃ session, x.taken = some session ∧
    (session.lightning.isSome = true → x.registries.tasks.Drained ∧
      x.registries.completions.Drained) ∧
    (session.background = true → .backgroundExited i .finished ∈ x.log)
  retained : ∀ e ∈ x.log, e.execution = i → e.Fails → .fenceReleased i ∉ x.log ∧
    ∀ terminal result, x.call = .stopping terminal (.returned result) → result ≠ .ok ()
  admitting : (∀ session, x.taken = some session →
      session.background = true ∧ ∀ exit, .backgroundExited i exit ∉ x.log) →
    (∀ caller future, .rejected caller future ∉ x.registries.completions.log) ∧
      ∀ caller future tasks,
        Session.TokioFutureSpawner.spawn (some x.registries.completions) caller future =
          some tasks →
        ∃ r : SessionTasks ℕ φ, tasks = some r ∧
          r.lock = some ⟨caller, future, x.registries.completions.registry.handles, []⟩

/-- An execution has taken over nothing or stands at some stage, and returns its failures. -/
theorem Call.Known.stage {c : Call} {log : List Event} {taken : Option Session} {r : Registries φ}
    (h : c.Known i log taken r) : Untouched i log taken r ∨ ∃ session stage failed,
      taken = some session ∧ Stage i log session r stage failed ∧
      ∀ terminal result, c = .stopping terminal (.returned result) → failed → result ≠ .ok () := by
  have hpast {n : ℕ} {failed : Prop} (hp : Past i log taken r n failed)
      (hresult : ∀ terminal result, c = .stopping terminal (.returned result) → failed →
        result ≠ .ok ()) :
      Untouched i log taken r ∨ ∃ session stage failed,
        taken = some session ∧ Stage i log session r stage failed ∧
        ∀ terminal result, c = .stopping terminal (.returned result) → failed →
          result ≠ .ok () := by
    obtain ⟨session, htaken, hstage⟩ := hp
    exact .inr ⟨session, n, failed, htaken, hstage, hresult⟩
  have hholding {n : ℕ} {t : Teardown} (hp : Holding i log taken r t n) :
      Past i log taken r n (t.cleanupErrors ≠ []) := by
    obtain ⟨session, htaken, _, hstage⟩ := hp
    exact ⟨session, htaken, hstage⟩
  cases c with
  | stopping terminal phase =>
    cases phase with
    | lock => exact .inl h
    | cached => exact .inl h
    | owners => exact .inl h
    | tasks t => exact hpast (hholding h) nofun
    | background t => exact hpast (hholding h) nofun
    | aborting t => exact hpast (hholding h) nofun
    | stores t => exact hpast (hholding h) nofun
    | completions t => exact hpast (hholding h) nofun
    | managers t => exact hpast (hholding h) nofun
    | fence t => exact hpast h nofun
    | database t => exact hpast h nofun
    | closing t => exact hpast h nofun
    | caching t => exact hpast h nofun
    | leaving outcome => exact h.elim .inl fun hp => hpast hp nofun
    | returned result =>
      refine h.elim .inl fun hp => hpast hp fun terminal' result' heq hfailed => ?_
      cases heq
      exact hfailed
  | _ => exact .inl h

theorem Stage.released {log : List Event} {session : Session} {r : Registries φ} {n : ℕ}
    {failed : Prop} (h : Stage i log session r n failed)
    (hsound : r.tasks.Sound ∧ r.completions.Sound) (hmem : .fenceReleased i ∈ log) :
    (session.lightning.isSome = true → r.tasks.Drained ∧ r.completions.Drained) ∧
      (session.background = true → .backgroundExited i .finished ∈ log) := by
  obtain ⟨hn, hclean⟩ := h.fence hmem
  refine ⟨fun hsome => ⟨?_, ?_⟩, fun hbackground => ?_⟩
  · obtain ⟨result, hevent, hjoined⟩ := h.tasks (by omega) hsome
    obtain rfl : result = .ok () := not_not.mp (hclean _ hevent rfl)
    exact hsound.1.drained hjoined
  · obtain ⟨result, hevent, hjoined⟩ := h.completions (by omega) hsome
    obtain rfl : result = .ok () := not_not.mp (hclean _ hevent rfl)
    exact hsound.2.drained hjoined
  · obtain ⟨exit, hevent⟩ := h.background (by omega) hbackground
    cases exit with
    | finished => exact hevent
    | failed error => exact absurd nofun (hclean _ hevent rfl)
    | panicked error => exact absurd nofun (hclean _ hevent rfl)

/-- An open registry has refused nothing and refuses nothing. -/
theorem admits_of_open {r : SessionTasks ℕ φ} (h : r.Sound) (hopen : r.registry.closed = false) :
    (∀ caller future, .rejected caller future ∉ r.log) ∧
      ∀ caller future tasks, Session.TokioFutureSpawner.spawn (some r) caller future = some tasks →
        ∃ r' : SessionTasks ℕ φ, tasks = some r' ∧
          r'.lock = some ⟨caller, future, r.registry.handles, []⟩ := by
  refine ⟨fun caller future hmem => ?_, fun caller future tasks hspawn => ?_⟩
  · rw [h.reported.closed _ hmem trivial] at hopen
    cases hopen
  · obtain ⟨r', hr', rfl⟩ := Option.map_eq_some_iff.mp hspawn
    simp only [SessionTasks.spawn, hopen] at hr'
    split at hr'
    · cases hr'
    · cases hr'
      exact ⟨_, rfl, rfl⟩

theorem Execution.Sound.fenced {x : Execution φ} (h : x.Sound i) : x.Fenced i := by
  refine ⟨fun hmem => ?_, fun e he hi hfails => ?_, fun hbefore => ?_⟩
  · rcases h.known.stage with huntouched | ⟨session, n, failed, htaken, hstage, _⟩
    · exact absurd rfl (huntouched.log _ hmem)
    · exact ⟨session, htaken, hstage.released h.registries hmem⟩
  · rcases h.known.stage with huntouched | ⟨session, n, failed, htaken, hstage, hreturned⟩
    · exact absurd hi (huntouched.log _ he)
    · refine ⟨fun hmem => (hstage.fence hmem).2 e he hi hfails, fun terminal result hcall => ?_⟩
      exact hreturned terminal result hcall (hstage.failed e he hi hfails)
  · refine admits_of_open h.registries.2 ?_
    rcases h.known.stage with huntouched | ⟨session, n, failed, htaken, hstage, _⟩
    · exact huntouched.completions
    · obtain ⟨hbackground, hrunning⟩ := hbefore session htaken
      refine hstage.admitting ?_
      by_contra hn
      obtain ⟨exit, hexit⟩ := hstage.background (by omega) hbackground
      exact hrunning exit hexit

/-! ### Runs -/

namespace Node

variable {s t u : Node φ} {labels more : List (NodeLabel φ)}

theorem Fresh.sound (h : s.Fresh) (i : ℕ) : (s.execution i).Sound i := by
  have hnew : s.registries i = ⟨.new, .new⟩ := h.registries i
  have huntouched : Untouched i s.system.shared.log (s.taken i) (s.registries i) := by
    refine ⟨h.taken i, fun e he => ?_, ?_, ?_⟩
    · rw [h.log] at he
      cases he
    · rw [hnew]
      rfl
    · rw [hnew]
      rfl
  refine ⟨?_, ?_⟩
  · rw [execution, hnew]
    exact ⟨Session.SessionTasks.sound_new, Session.SessionTasks.sound_new⟩
  · rw [execution, h.control i]
    exact huntouched

theorem sound_of_trace (hrun : Trace Step s labels t) (hs : s.Fresh) (i : ℕ) :
    (t.execution i).Sound i :=
  hrun.invariant (P := fun s => (s.execution i).Sound i)
    (fun h hstep => h.step (effect_of_step hstep i)) (hs.sound i)

theorem spoilt_of_trace (hrun : Trace Step t more u) (h : (t.execution i).Spoilt i) :
    (u.execution i).Spoilt i :=
  hrun.invariant (P := fun s => (s.execution i).Spoilt i)
    (fun h hstep => h.step (effect_of_step hstep i)) h

end Node

/-- Over every run of `start_lightning` and every run of the node: the fence is released only after
both registries of the session were closed and joined without failure and, in `stop_node`, the
background processor has finished; a failed wait or any other cleanup error retains the fence and is
returned; and as long as the background processor runs the completions refuse nothing. -/
theorem fence_outlives_session :
    (∀ (debug : Except String Unit → String) (fenceGuard : Option Bool)
      (labels : List (StartLightning.Label φ)) (s : StartLightning.State φ),
      Trace (StartLightning.State.Step debug) (StartLightning.init fenceGuard) labels s →
        s.Fenced) ∧
    ∀ (s t : Node φ) (labels : List (NodeLabel φ)), s.Fresh → Trace Node.Step s labels t →
      ∀ i, (t.execution i).Fenced i ∧
        ∀ (more : List (NodeLabel φ)) (u : Node φ), Trace Node.Step t more u →
          (∃ terminal phase, t.system.control i = .stopping terminal phase ∧ phase.Spoilt) →
          .fenceReleased i ∉ t.system.shared.log → .fenceReleased i ∉ u.system.shared.log ∧
            ∀ terminal result, u.system.control i = .stopping terminal (.returned result) →
              result ≠ .ok () := by
  refine ⟨fun debug fenceGuard labels s hrun => ?_, fun s t labels hs hrun i => ⟨?_, ?_⟩⟩
  · have hsound :=
      hrun.invariant (fun h hstep => h.step hstep) (StartLightning.init_sound fenceGuard)
    exact hsound.fenced
  · exact (Node.sound_of_trace hrun hs i).fenced
  · intro more u hmore hspoilt hlog
    obtain ⟨hlog', terminal', phase, hcall, hphase⟩ := Node.spoilt_of_trace hmore ⟨hlog, hspoilt⟩
    refine ⟨hlog', fun terminal result hreturned => ?_⟩
    have heq := hcall.symm.trans hreturned
    cases heq
    exact hphase

/-! A worker of the session ends while it is stopped, and one of a startup when that is given up. -/

def sampleSession : Node String := ⟨sampleNode, fun _ => none, fun _ => ⟨.new, .new⟩⟩

def joinLabels (i : ℕ) (which : Registry) : List (NodeLabel String) :=
  [.join i, .registry i which (.cancel i), .registry i which .take]

def sampleStop : List (NodeLabel String) :=
  [.registry 0 .tasks (.spawn 7 "sync"), .registry 0 .tasks .register, .node (.thread 0 .stopNode),
    .node (resume 0), .node (resume 0), .node (resume 0), .registry 0 .tasks (.cancel 0)] ++
  joinLabels 0 .tasks ++
  [.registry 0 .tasks (.finish 0 .finished), .registry 0 .tasks .await, .joined 0,
    .node (reply 0 (.exited .finished)), .node (resume 0)] ++
  joinLabels 0 .completions ++ [.joined 0, .node (resume 0), .node (resume 0)]

def sampleRollback : List (StartLightning.Label String) :=
  [.resume, .resume, .registry .completions (.spawn 3 "persist"), .registry .completions .register,
    .inner (.error (.unexpected "no chain source")), .join, .registry .tasks (.cancel 0),
    .registry .tasks .take, .joined, .resume, .join, .registry .completions (.cancel 0),
    .registry .completions .take, .registry .completions (.finish 0 .finished),
    .registry .completions .await, .joined, .resume]

theorem fence_outlives_session_sample :
    (∃ s : StartLightning.State String,
      s.phase = .returned (.error (.unexpected "no chain source")) ∧
      ∃ r, s.registries = some r ∧ r.tasks.Drained ∧ r.completions.Drained) ∧
    ∃ t : Node String, .fenceReleased 0 ∈ t.system.shared.log ∧ (t.registries 0).tasks.Drained ∧
      (t.registries 0).completions.Drained := by
  obtain ⟨s, hrun, hreleased, hphase⟩ : ∃ s : StartLightning.State String,
      (StartLightning.init (some true)).run (fun _ => "Err") sampleRollback = some s ∧
      .fenceReleased ∈ s.log ∧ s.phase = .returned (.error (.unexpected "no chain source")) :=
    ⟨_, rfl, List.mem_cons_self, rfl⟩
  obtain ⟨t, hstop, hstopped, htaken⟩ : ∃ t : Node String, sampleSession.run sampleStop = some t ∧
      .fenceReleased 0 ∈ t.system.shared.log ∧ t.taken 0 = some sampleNode.shared.session :=
    ⟨_, rfl, List.mem_cons_self, rfl⟩
  have hfresh : sampleSession.Fresh := ⟨rfl, fun _ => rfl, fun _ => rfl, fun _ => rfl⟩
  have hfenced := fence_outlives_session.1 _ _ _ _ (StartLightning.State.trace_of_run hrun)
  have hstopFenced := (fence_outlives_session.2 _ _ _ hfresh (Node.trace_of_run hstop) 0).1
  refine ⟨⟨s, hphase, (hfenced.released hreleased).1⟩, t, hstopped, ?_⟩
  obtain ⟨session, hsession, hdrained, _⟩ := hstopFenced.released hstopped
  obtain rfl : sampleNode.shared.session = session := Option.some.inj (htaken.symm.trans hsession)
  exact hdrained rfl

end RgbLightningNode.Shutdown
