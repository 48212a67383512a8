import Mathlib.Algebra.BigOperators.Group.Multiset.Basic
import Mathlib.Algebra.Order.Group.Multiset
import Mathlib.Data.Multiset.Range
import Mathlib.Tactic.Abel
import RgbLightningNode.Session.Tasks

/-!
# No worker and no failure is lost

Every handle is in the registry, with the spawn that looks at it, or with the join that waits for
it, until its worker has been seen to end. The errors of the workers seen so far and the recorded
failures are those still in hand and those that the joins have returned.
-/

namespace RgbLightningNode.Session
open Transition

variable {ι φ : Type}

/-! ### What is owned and what is owed -/

def Task.error (task : Task φ) : Multiset String :=
  match task.progress with
  | .panicked error => {error}
  | _ => 0

def panics (tasks : List (Task φ)) : Multiset String := (tasks.map Task.error).sum

def Event.recordedFailure : Event ι φ → Multiset String
  | .recorded failure => {failure}
  | _ => 0

def Event.returnedErrors : Event ι φ → Multiset String
  | .returned _ failures _ => failures
  | _ => 0

/-- The failures that were recorded. -/
def recorded (log : List (Event ι φ)) : Multiset String := (log.map Event.recordedFailure).sum

/-- The errors that the joins have returned. -/
def returned (log : List (Event ι φ)) : Multiset String := (log.map Event.returnedErrors).sum

/-- The futures that were accepted, in the order of their acceptance. -/
def acceptedFutures : List (Event ι φ) → List φ
  | [] => []
  | .accepted _ future :: log => acceptedFutures log ++ [future]
  | _ :: log => acceptedFutures log

def Ended (tasks : List (Task φ)) : Prop := ∀ task ∈ tasks, task.progress ≠ .running

/-- An event by which admission has been closed. -/
def Event.Closes : Event ι φ → Prop
  | .closed _ | .returned _ _ _ | .rejected _ _ => True
  | _ => False

/-- The handles that a `spawn` looks at. -/
@[simp] def lent : Option (Reaping ι φ) → Multiset ℕ
  | some reaping => (reaping.todo + reaping.pending : Multiset ℕ)
  | none => 0

/-- The handles that a `join` waits for. -/
@[simp] def awaited : Option (Joining ι) → Multiset ℕ
  | some (.draining _ handles _) => handles
  | _ => 0

/-- The failures that a `join` has found. -/
@[simp] def found : Option (Joining ι) → Multiset String
  | some (.draining _ _ failures) => failures
  | _ => 0

namespace SessionTasks

/-- The handles whose workers have not been seen to end. -/
def owned (s : SessionTasks ι φ) : Multiset ℕ :=
  s.registry.handles + lent s.lock + awaited s.joining

/-- The failures that no join has returned yet. -/
def inHand (s : SessionTasks ι φ) : Multiset String := s.registry.failures + found s.joining

def error (s : SessionTasks ι φ) (handle : ℕ) : Multiset String :=
  (s.tasks[handle]?.map Task.error).getD 0

/-! ### What a step does -/

/-- The lock is free once admission is closed, and a join has closed it and emptied the registry. -/
structure Guarded (s : SessionTasks ι φ) : Prop where
  idle : s.registry.closed = true → s.lock = none
  closed : s.joining ≠ none → s.registry.closed = true
  lent : s.lock ≠ none → s.registry.handles = []
  taken : ∀ caller handles failures, s.joining = some (.draining caller handles failures) →
    s.registry.handles = []

variable {s t : SessionTasks ι φ}

theorem setClosed_spec {caller : ι} (h : s.setClosed caller = some t) : s.lock = none ∧
    t = { s with registry := { s.registry with closed := true } }.record (.closed caller) := by
  unfold setClosed at h
  split at h
  · cases h
  · rename_i hlock
    cases h
    exact ⟨Option.not_isSome_iff_eq_none.mp hlock, rfl⟩

/-- A handle that is polled to its end belongs to a worker that has ended. -/
theorem note_spec {failures failures' : List String} {handle : ℕ}
    (h : (s.progress handle).bind (note failures) = some failures') :
    handle < s.tasks.length ∧ s.progress handle ≠ some .running ∧
      (failures' : Multiset String) = failures + s.error handle := by
  obtain ⟨progress, hprogress, hnote⟩ := Option.bind_eq_some_iff.mp h
  obtain ⟨task, htask, rfl⟩ := Option.map_eq_some_iff.mp hprogress
  have herror : s.error handle = task.error := by
    rw [error, htask]
    rfl
  refine ⟨(List.getElem?_eq_some_iff.mp htask).1, ?_, ?_⟩
  · rintro hrunning
    rw [hprogress] at hrunning
    rw [Option.some.inj hrunning] at hnote
    cases hnote
  · rw [herror, Task.error]
    cases htask : task.progress with
    | running =>
      rw [htask] at hnote
      cases hnote
    | finished =>
      rw [htask] at hnote
      cases hnote
      simp
    | panicked error =>
      rw [htask] at hnote
      cases hnote
      simp [← Multiset.coe_add]

/-- What a step does to the handles, the failures, the workers and the log. -/
inductive Effect (s t : SessionTasks ι φ) : Prop where
  | internal (owned : t.owned = s.owned) (inHand : t.inHand = s.inHand) (tasks : t.tasks = s.tasks)
      (log : t.log = s.log) (closed : t.registry.closed = s.registry.closed)
  | settle (handle : ℕ) (ended : s.progress handle ≠ some .running)
      (owned : s.owned = handle ::ₘ t.owned) (inHand : t.inHand = s.inHand + s.error handle)
      (tasks : t.tasks = s.tasks) (log : t.log = s.log)
      (closed : t.registry.closed = s.registry.closed)
  | accept (caller : ι) (future : φ) (before : s.registry.closed = false)
      (owned : t.owned = s.tasks.length ::ₘ s.owned) (inHand : t.inHand = s.inHand)
      (tasks : t.tasks = s.tasks ++ [⟨future, .running⟩])
      (log : t.log = .accepted caller future :: s.log) (closed : t.registry.closed = false)
  | reject (caller : ι) (future : φ) (owned : t.owned = s.owned) (inHand : t.inHand = s.inHand)
      (tasks : t.tasks = s.tasks) (log : t.log = .rejected caller future :: s.log)
      (closed : t.registry.closed = true)
  | record (failure : String) (owned : t.owned = s.owned) (inHand : t.inHand = failure ::ₘ s.inHand)
      (tasks : t.tasks = s.tasks) (log : t.log = .recorded failure :: s.log)
      (closed : t.registry.closed = s.registry.closed)
  | close (caller : ι) (owned : t.owned = s.owned) (inHand : t.inHand = s.inHand)
      (tasks : t.tasks = s.tasks) (log : t.log = .closed caller :: s.log)
      (closed : t.registry.closed = true)
  | return (caller : ι) (failures : List String) (drained : s.owned = 0) (owned : t.owned = 0)
      (all : (failures : Multiset String) = s.inHand) (inHand : t.inHand = 0)
      (tasks : t.tasks = s.tasks)
      (log : t.log = .returned caller failures (joinResult failures) :: s.log)
      (before : s.registry.closed = true) (closed : t.registry.closed = true)
  | finish (handle : ℕ) (future : φ) (progress : Progress) (ended : progress ≠ .running)
      (running : s.tasks[handle]? = some ⟨future, .running⟩) (owned : t.owned = s.owned)
      (inHand : t.inHand = s.inHand) (tasks : t.tasks = s.tasks.set handle ⟨future, progress⟩)
      (log : t.log = s.log) (closed : t.registry.closed = s.registry.closed)

/-! ### The accounts -/

theorem panics_eq (tasks : List (Task φ)) :
    panics tasks =
      ((Multiset.range tasks.length).map fun k => (tasks[k]?.map Task.error).getD 0).sum := by
  have hlist : tasks.map Task.error =
      (List.range tasks.length).map fun k => (tasks[k]?.map Task.error).getD 0 := by
    apply List.ext_getElem
    · simp
    · intro k hk hk'
      have hlt : k < tasks.length := by simpa using hk
      simp [hlt]
  rw [panics, hlist]
  rfl

theorem sum_map_update {m : Multiset ℕ} (hm : m.Nodup) {k : ℕ} (hk : k ∈ m)
    {f g : ℕ → Multiset String} (hother : ∀ j, j ≠ k → g j = f j) (hzero : f k = 0) :
    (m.map g).sum = (m.map f).sum + g k := by
  obtain ⟨rest, rfl⟩ := Multiset.exists_cons_of_mem hk
  obtain ⟨hnot, _⟩ := Multiset.nodup_cons.mp hm
  have hrest : rest.map g = rest.map f :=
    Multiset.map_congr rfl fun j hj => hother j fun heq => hnot (heq ▸ hj)
  rw [Multiset.map_cons, Multiset.map_cons, Multiset.sum_cons, Multiset.sum_cons, hrest, hzero]
  abel

/-- Every worker that runs is owned once, and every error is owed once. -/
structure Accounted (s : SessionTasks ι φ) : Prop where
  nodup : s.owned.Nodup
  lt : ∀ handle ∈ s.owned, handle < s.tasks.length
  running : ∀ handle, s.progress handle = some .running → handle ∈ s.owned
  balance : returned s.log + s.inHand + (s.owned.map s.error).sum = recorded s.log + panics s.tasks

theorem progress_congr (htasks : t.tasks = s.tasks) (handle : ℕ) :
    t.progress handle = s.progress handle := by
  rw [progress, progress, htasks]

theorem error_congr (htasks : t.tasks = s.tasks) : t.error = s.error := by
  funext handle
  rw [error, error, htasks]

/-- A step that leaves the handles and the workers alone. -/
theorem Accounted.keep (h : s.Accounted) (howned : t.owned = s.owned) (htasks : t.tasks = s.tasks)
    (hlog : ∀ X Y, returned s.log + s.inHand + X = recorded s.log + Y →
      returned t.log + t.inHand + X = recorded t.log + Y) : t.Accounted where
  nodup := by
    rw [howned]
    exact h.nodup
  lt := by
    rw [howned, htasks]
    exact h.lt
  running handle hprogress := by
    rw [howned]
    exact h.running handle (by rwa [progress_congr htasks] at hprogress)
  balance := by
    rw [howned, error_congr htasks, htasks]
    exact hlog _ _ h.balance

theorem Accounted.accept {caller : ι} {future : φ} (h : s.Accounted)
    (owned : t.owned = s.tasks.length ::ₘ s.owned) (inHand : t.inHand = s.inHand)
    (tasks : t.tasks = s.tasks ++ [⟨future, .running⟩])
    (log : t.log = .accepted caller future :: s.log) : t.Accounted := by
  have hold (k : ℕ) (hk : k < s.tasks.length) : t.tasks[k]? = s.tasks[k]? := by
    rw [tasks, List.getElem?_append_left hk]
  have hnew : t.error s.tasks.length = 0 := by
    simp [error, tasks, Task.error]
  have hother : s.owned.map t.error = s.owned.map s.error :=
    Multiset.map_congr rfl fun k hk => by rw [error, error, hold k (h.lt k hk)]
  refine ⟨?_, ?_, ?_, ?_⟩
  · rw [owned, Multiset.nodup_cons]
    exact ⟨fun hmem => absurd (h.lt _ hmem) (lt_irrefl _), h.nodup⟩
  · intro k hk
    rw [owned] at hk
    rw [tasks, List.length_append]
    rcases Multiset.mem_cons.mp hk with rfl | hk
    · simp
    · exact (h.lt k hk).trans (by simp)
  · intro k hprogress
    rw [owned, Multiset.mem_cons]
    by_cases hk : k < s.tasks.length
    · right
      apply h.running
      rwa [progress, hold k hk] at hprogress
    · left
      obtain ⟨task, htask, _⟩ := Option.map_eq_some_iff.mp hprogress
      have hlt := (List.getElem?_eq_some_iff.mp htask).1
      rw [tasks, List.length_append, List.length_singleton] at hlt
      omega
  · have hpanics : panics t.tasks = panics s.tasks := by
      simp [panics, tasks, Task.error]
    rw [owned, Multiset.map_cons, Multiset.sum_cons, hnew, hother, zero_add, hpanics, inHand, log]
    simpa [returned, recorded, Event.returnedErrors, Event.recordedFailure] using h.balance

theorem Accounted.finish {handle : ℕ} {future : φ} {progress : Progress} (h : s.Accounted)
    (running : s.tasks[handle]? = some ⟨future, .running⟩) (owned : t.owned = s.owned)
    (inHand : t.inHand = s.inHand)
    (tasks : t.tasks = s.tasks.set handle ⟨future, progress⟩) (log : t.log = s.log) :
    t.Accounted := by
  have hlt := (List.getElem?_eq_some_iff.mp running).1
  have hlength : t.tasks.length = s.tasks.length := by
    rw [tasks, List.length_set]
  have hother (k : ℕ) (hk : k ≠ handle) : t.tasks[k]? = s.tasks[k]? := by
    rw [tasks, List.getElem?_set_ne (Ne.symm hk)]
  have herror (k : ℕ) (hk : k ≠ handle) : t.error k = s.error k := by
    rw [error, error, hother k hk]
  have hzero : s.error handle = 0 := by
    rw [error, running]
    rfl
  have hmem : handle ∈ s.owned := by
    apply h.running
    rw [SessionTasks.progress, running]
    rfl
  refine ⟨by rw [owned]; exact h.nodup, ?_, ?_, ?_⟩
  · rw [owned, hlength]
    exact h.lt
  · intro k hprogress
    rw [owned]
    by_cases hk : k = handle
    · rw [hk]
      exact hmem
    · apply h.running
      rwa [SessionTasks.progress, hother k hk] at hprogress
  · have hpanics : panics t.tasks = panics s.tasks + t.error handle := by
      rw [panics_eq, panics_eq, hlength]
      exact sum_map_update (Multiset.nodup_range _) (Multiset.mem_range.mpr hlt) herror hzero
    rw [owned, log, inHand, hpanics, sum_map_update h.nodup hmem herror hzero, ← add_assoc,
      h.balance, add_assoc]

theorem Accounted.step (h : s.Accounted) (heffect : Effect s t) : t.Accounted := by
  cases heffect with
  | internal owned inHand tasks log closed =>
    refine h.keep owned tasks fun X Y hbalance => ?_
    rw [log, inHand, hbalance]
  | settle handle ended owned inHand tasks log closed =>
    obtain ⟨hnodup, hlt, hrunning, hbalance⟩ := h
    rw [owned] at hnodup hlt hrunning hbalance
    refine ⟨(Multiset.nodup_cons.mp hnodup).2, ?_, ?_, ?_⟩
    · intro k hk
      rw [tasks]
      exact hlt k (Multiset.mem_cons_of_mem hk)
    · intro k hprogress
      rw [progress_congr tasks] at hprogress
      rcases Multiset.mem_cons.mp (hrunning k hprogress) with rfl | hk
      · exact absurd hprogress ended
      · exact hk
    · rw [log, inHand, error_congr tasks, tasks, ← hbalance, Multiset.map_cons, Multiset.sum_cons]
      abel
  | accept caller future before owned inHand tasks log closed =>
    exact h.accept owned inHand tasks log
  | reject caller future owned inHand tasks log closed =>
    refine h.keep owned tasks fun X Y hbalance => ?_
    rw [log, inHand]
    simpa [returned, recorded, Event.returnedErrors, Event.recordedFailure] using hbalance
  | record failure owned inHand tasks log closed =>
    refine h.keep owned tasks fun X Y hbalance => ?_
    have hrecorded : recorded t.log = {failure} + recorded s.log := by
      simp [recorded, log, Event.recordedFailure]
    have hreturned : returned t.log = returned s.log := by
      simp [returned, log, Event.returnedErrors]
    calc returned t.log + t.inHand + X = {failure} + (returned s.log + s.inHand + X) := by
          rw [hreturned, inHand, ← Multiset.singleton_add]
          abel
      _ = {failure} + (recorded s.log + Y) := by rw [hbalance]
      _ = recorded t.log + Y := by rw [hrecorded, add_assoc]
  | close caller owned inHand tasks log closed =>
    refine h.keep owned tasks fun X Y hbalance => ?_
    rw [log, inHand]
    simpa [returned, recorded, Event.returnedErrors, Event.recordedFailure] using hbalance
  | «return» caller failures drained owned all inHand tasks log before closed =>
    refine h.keep (owned.trans drained.symm) tasks fun X Y hbalance => ?_
    have hreturned : returned t.log = s.inHand + returned s.log := by
      simp [returned, log, Event.returnedErrors, all]
    have hrecorded : recorded t.log = recorded s.log := by
      simp [recorded, log, Event.recordedFailure]
    rw [hreturned, hrecorded, inHand, ← hbalance]
    abel
  | finish handle future progress ended running owned inHand tasks log closed =>
    exact h.finish running owned inHand tasks log

/-! ### What the joins report -/

/-- What the log says about the future of admission and about the joins that have returned. -/
structure Reported (s : SessionTasks ι φ) : Prop where
  closed : ∀ e ∈ s.log, e.Closes → s.registry.closed = true
  late : ∀ later e rest, s.log = later ++ e :: rest → e.Closes →
    ∀ caller future, .accepted caller future ∉ later
  executed : s.tasks.map (·.future) = acceptedFutures s.log
  joins : ∀ later caller failures result rest,
    s.log = later ++ .returned caller failures result :: rest →
    Ended s.tasks ∧ result = joinResult failures ∧
      returned (.returned caller failures result :: rest : List (Event ι φ)) =
        recorded rest + panics s.tasks

/-- A step that logs something other than an acceptance. -/
theorem Reported.push {e : Event ι φ} (h : s.Reported) (tasks : t.tasks = s.tasks)
    (log : t.log = e :: s.log) (hkeeps : s.registry.closed = true → t.registry.closed = true)
    (hcloses : e.Closes → t.registry.closed = true)
    (haccepted : ∀ caller future, e ≠ .accepted caller future)
    (hjoin : ∀ caller failures result, e = .returned caller failures result →
      Ended t.tasks ∧ result = joinResult failures ∧
        returned (e :: s.log) = recorded s.log + panics t.tasks) : t.Reported where
  closed e' he' hcloses' := by
    rw [log] at he'
    rcases List.mem_cons.mp he' with rfl | he'
    · exact hcloses hcloses'
    · exact hkeeps (h.closed e' he' hcloses')
  late later e' rest hsplit hcloses' caller future hmem := by
    rw [log] at hsplit
    rcases List.cons_eq_append_iff.mp hsplit with ⟨rfl, _⟩ | ⟨later', rfl, hsplit'⟩
    · cases hmem
    · rcases List.mem_cons.mp hmem with heq | hmem
      · exact haccepted caller future heq.symm
      · exact h.late later' e' rest hsplit' hcloses' caller future hmem
  executed := by
    rw [tasks, log, h.executed]
    cases e with
    | accepted caller future => exact absurd rfl (haccepted caller future)
    | rejected => rfl
    | recorded => rfl
    | closed => rfl
    | returned => rfl
  joins later caller failures result rest hsplit := by
    rw [log] at hsplit
    rcases List.cons_eq_append_iff.mp hsplit with ⟨rfl, hfirst⟩ | ⟨later', rfl, hsplit'⟩
    · obtain ⟨rfl, rfl⟩ := List.cons.inj hfirst
      exact hjoin caller failures result rfl
    · rw [tasks]
      exact h.joins later' caller failures result rest hsplit'

/-- A step that logs nothing. -/
theorem Reported.quiet (h : s.Reported) (log : t.log = s.log)
    (closed : t.registry.closed = s.registry.closed)
    (futures : t.tasks.map (·.future) = s.tasks.map (·.future))
    (hkeep : Ended s.tasks → t.tasks = s.tasks) : t.Reported where
  closed e he hcloses := by
    rw [closed]
    exact h.closed e (log ▸ he) hcloses
  late later e rest hsplit := h.late later e rest (log ▸ hsplit)
  executed := by rw [futures, log, h.executed]
  joins later caller failures result rest hsplit := by
    obtain ⟨hended, hjoin⟩ := h.joins later caller failures result rest (log ▸ hsplit)
    rw [hkeep hended]
    exact ⟨hended, hjoin⟩

theorem Reported.accept {caller : ι} {future : φ} (h : s.Reported)
    (before : s.registry.closed = false) (tasks : t.tasks = s.tasks ++ [⟨future, .running⟩])
    (log : t.log = .accepted caller future :: s.log) : t.Reported := by
  -- While admission is open no event in the log has closed it.
  have hopen (e : Event ι φ) (he : e ∈ t.log) : ¬e.Closes := by
    intro hcloses
    rw [log] at he
    rcases List.mem_cons.mp he with rfl | he
    · exact hcloses
    · rw [h.closed e he hcloses] at before
      cases before
  refine ⟨fun e he hcloses => absurd hcloses (hopen e he), ?_, ?_, ?_⟩
  · intro later e rest hsplit hcloses
    exact absurd hcloses (hopen e (by simp [hsplit]))
  · rw [tasks, log, List.map_append, h.executed]
    rfl
  · intro later caller' failures result rest hsplit
    exact absurd trivial (hopen (.returned caller' failures result) (by simp [hsplit]))

theorem Reported.step (h : s.Reported) (haccounted : t.Accounted) (heffect : Effect s t) :
    t.Reported := by
  cases heffect with
  | internal owned inHand tasks log closed =>
    exact h.quiet log closed (by rw [tasks]) fun _ => tasks
  | settle handle ended owned inHand tasks log closed =>
    exact h.quiet log closed (by rw [tasks]) fun _ => tasks
  | accept caller future before owned inHand tasks log closed => exact h.accept before tasks log
  | reject caller future owned inHand tasks log closed =>
    refine h.push tasks log (fun _ => closed) (fun _ => closed) ?_ ?_
    · exact fun _ _ h => by cases h
    · exact fun _ _ _ h => by cases h
  | record failure owned inHand tasks log closed =>
    refine h.push tasks log (fun hclosed => by rw [closed, hclosed]) (fun h => h.elim) ?_ ?_
    · exact fun _ _ h => by cases h
    · exact fun _ _ _ h => by cases h
  | close caller owned inHand tasks log closed =>
    refine h.push tasks log (fun _ => closed) (fun _ => closed) ?_ ?_
    · exact fun _ _ h => by cases h
    · exact fun _ _ _ h => by cases h
  | «return» caller failures drained owned all inHand tasks log before closed =>
    refine h.push tasks log (fun _ => closed) (fun _ => closed) (fun _ _ h => by cases h) ?_
    intro caller' failures' result heq
    cases heq
    refine ⟨?_, rfl, ?_⟩
    · intro task htask hrunning
      obtain ⟨k, hk, rfl⟩ := List.getElem_of_mem htask
      have hmem :=
        haccounted.running k (by rw [progress, List.getElem?_eq_getElem hk]; simp [hrunning])
      rw [owned] at hmem
      exact absurd hmem (Multiset.notMem_zero k)
    · have hbalance := haccounted.balance
      rw [owned, inHand, log] at hbalance
      simpa [recorded, Event.recordedFailure] using hbalance
  | finish handle future progress ended running owned inHand tasks log closed =>
    refine h.quiet log closed ?_ ?_
    · have hlt := (List.getElem?_eq_some_iff.mp running).1
      apply List.ext_getElem?
      intro k
      rw [tasks, List.getElem?_map, List.getElem?_map]
      by_cases hk : k = handle
      · rw [hk, List.getElem?_set_self hlt, running]
        rfl
      · rw [List.getElem?_set_ne (Ne.symm hk)]
    · intro hended
      exact absurd rfl (hended _ (List.mem_of_getElem? running))

/-! ### Runs -/

/-- What holds of every state that a new registry can reach. -/
structure Sound (s : SessionTasks ι φ) : Prop where
  guarded : s.Guarded
  accounted : s.Accounted
  reported : s.Reported

theorem sound_new : Sound (.new : SessionTasks ι φ) where
  guarded := ⟨fun _ => rfl, fun h => absurd rfl h, fun _ => rfl, fun _ _ _ _ => rfl⟩
  accounted := {
    nodup := Multiset.nodup_zero
    lt := fun handle h => absurd h (Multiset.notMem_zero handle)
    running := fun handle h => by cases h
    balance := rfl }
  reported := {
    closed := fun e h => by cases h
    late := fun later e rest h => by
      have hlength := congrArg List.length h
      simp [new] at hlength
    executed := rfl
    joins := fun later caller failures result rest h => by
      have hlength := congrArg List.length h
      simp [new] at hlength }

variable [DecidableEq ι] {label : Label ι φ}

/-- Every step keeps the lock free once admission is closed. -/
theorem Guarded.step (h : s.Guarded) (hstep : Step s label t) : t.Guarded := by
  cases label with
  | spawn caller future =>
    change s.spawn caller future = some t at hstep
    unfold spawn at hstep
    split at hstep
    · cases hstep
    split at hstep
    · cases hstep
      exact ⟨h.idle, h.closed, h.lent, h.taken⟩
    · rename_i hopen
      cases hstep
      exact ⟨fun hclosed => absurd hclosed hopen, h.closed, fun _ => rfl, fun _ _ _ _ => rfl⟩
  | examine ready =>
    change s.examine ready = some t at hstep
    unfold examine at hstep
    split at hstep
    · rename_i caller future handle todo pending hlock
      have hopen : s.registry.closed ≠ true := by
        intro hclosed
        rw [h.idle hclosed] at hlock
        cases hlock
      split at hstep
      · obtain ⟨failures, _, rfl⟩ := Option.map_eq_some_iff.mp hstep
        exact ⟨fun hclosed => absurd hclosed hopen, h.closed, fun _ =>
          h.lent (by simp [hlock]), h.taken⟩
      · cases hstep
        exact ⟨fun hclosed => absurd hclosed hopen, h.closed, fun _ =>
          h.lent (by simp [hlock]), h.taken⟩
    · cases hstep
  | register =>
    change s.register = some t at hstep
    unfold register at hstep
    split at hstep
    · rename_i caller future pending hlock
      cases hstep
      refine ⟨fun _ => rfl, h.closed, fun hlock => absurd rfl hlock, ?_⟩
      intro caller' handles failures hjoining
      have hclosed := h.closed (by rw [show s.joining = _ from hjoining]; simp)
      rw [h.idle hclosed] at hlock
      cases hlock
    · cases hstep
  | recordFailure failure =>
    change s.recordFailure failure = some t at hstep
    unfold recordFailure at hstep
    split at hstep
    · cases hstep
    · cases hstep
      exact ⟨h.idle, h.closed, h.lent, h.taken⟩
  | close caller =>
    obtain ⟨u, hset, rfl⟩ := Option.map_eq_some_iff.mp hstep
    obtain ⟨hlock, rfl⟩ := setClosed_spec hset
    exact ⟨fun _ => hlock, fun _ => rfl, h.lent, h.taken⟩
  | cancel caller =>
    change s.cancel caller = some t at hstep
    unfold cancel at hstep
    split at hstep
    · cases hstep
      exact ⟨h.idle, h.closed, h.lent, h.taken⟩
    · split at hstep
      · rename_i hjoining
        cases hstep
        exact ⟨h.idle, fun _ => h.closed (by simp [hjoining]), h.lent, fun _ _ _ h => by cases h⟩
      · cases hstep
  | join caller =>
    change s.join caller = some t at hstep
    unfold join at hstep
    split at hstep
    · cases hstep
    obtain ⟨u, hset, rfl⟩ := Option.map_eq_some_iff.mp hstep
    obtain ⟨hlock, rfl⟩ := setClosed_spec hset
    exact ⟨fun _ => hlock, fun _ => rfl, h.lent, fun _ _ _ h => by cases h⟩
  | take =>
    change s.take = some t at hstep
    unfold take at hstep
    split at hstep
    · rename_i caller hjoining
      split at hstep
      · cases hstep
      · cases hstep
        exact ⟨h.idle, fun _ => h.closed (by simp [hjoining]), fun _ => rfl, fun _ _ _ _ => rfl⟩
    · cases hstep
  | await =>
    change s.await = some t at hstep
    unfold await at hstep
    split at hstep
    · rename_i caller handle handles failures hjoining
      obtain ⟨failures', _, rfl⟩ := Option.map_eq_some_iff.mp hstep
      exact ⟨h.idle, fun _ => h.closed (by simp [hjoining]), h.lent,
        fun _ _ _ _ => h.taken _ _ _ hjoining⟩
    · cases hstep
  | reap =>
    change s.reap = some t at hstep
    unfold reap at hstep
    split at hstep
    · split at hstep
      · cases hstep
      · cases hstep
        exact ⟨h.idle, fun h => absurd rfl h, h.lent, fun _ _ _ h => by cases h⟩
    · cases hstep
  | finish handle progress =>
    change s.finish handle progress = some t at hstep
    unfold finish at hstep
    split at hstep
    · split at hstep
      · cases hstep
      · cases hstep
        exact ⟨h.idle, h.closed, h.lent, h.taken⟩
    · cases hstep

theorem Guarded.effect (h : s.Guarded) (hstep : Step s label t) : Effect s t := by
  cases label with
  | spawn caller future =>
    change s.spawn caller future = some t at hstep
    unfold spawn at hstep
    split at hstep
    · cases hstep
    rename_i hlock
    have hlock := Option.not_isSome_iff_eq_none.mp hlock
    split at hstep
    · rename_i hclosed
      cases hstep
      exact .reject caller future rfl rfl rfl rfl hclosed
    · cases hstep
      refine .internal ?_ rfl rfl rfl rfl
      simp [owned, hlock]
  | examine ready =>
    change s.examine ready = some t at hstep
    unfold examine at hstep
    split at hstep
    · rename_i caller future handle todo pending hlock
      split at hstep
      · obtain ⟨failures, hnote, rfl⟩ := Option.map_eq_some_iff.mp hstep
        obtain ⟨_, hended, hfailures⟩ := note_spec hnote
        refine .settle handle hended ?_ ?_ rfl rfl rfl
        · simp [owned, hlock, ← Multiset.cons_coe]
        · simp only [inHand, hfailures]
          abel
      · cases hstep
        refine .internal ?_ rfl rfl rfl rfl
        simp only [owned, hlock, Session.lent, ← Multiset.coe_add, ← Multiset.cons_coe,
          ← Multiset.singleton_add, Multiset.coe_nil, add_zero]
        abel
    · cases hstep
  | register =>
    change s.register = some t at hstep
    unfold register at hstep
    split at hstep
    · rename_i caller future pending hlock
      cases hstep
      have hopen : s.registry.closed = false := by
        by_contra hclosed
        rw [h.idle (by simpa using hclosed)] at hlock
        cases hlock
      refine .accept caller future hopen ?_ rfl rfl rfl hopen
      simp only [owned, record, hlock, h.lent (by simp [hlock]), Session.lent, ← Multiset.coe_add,
        ← Multiset.cons_coe, ← Multiset.singleton_add, Multiset.coe_nil, add_zero, zero_add]
      abel
    · cases hstep
  | recordFailure failure =>
    change s.recordFailure failure = some t at hstep
    unfold recordFailure at hstep
    split at hstep
    · cases hstep
    · cases hstep
      refine .record failure rfl ?_ rfl rfl rfl
      simp only [inHand, record, ← Multiset.coe_add, ← Multiset.cons_coe, ← Multiset.singleton_add,
        Multiset.coe_nil, add_zero]
      abel
  | close caller =>
    obtain ⟨u, hset, rfl⟩ := Option.map_eq_some_iff.mp hstep
    obtain ⟨_, rfl⟩ := setClosed_spec hset
    exact .close caller rfl rfl rfl rfl rfl
  | cancel caller =>
    change s.cancel caller = some t at hstep
    unfold cancel at hstep
    split at hstep
    · cases hstep
      exact .internal rfl rfl rfl rfl rfl
    · split at hstep
      · rename_i hjoining
        cases hstep
        refine .internal ?_ ?_ rfl rfl rfl
        · simp [owned, hjoining]
        · simp [inHand, hjoining]
      · cases hstep
  | join caller =>
    change s.join caller = some t at hstep
    unfold join at hstep
    split at hstep
    · cases hstep
    rename_i hjoining
    have hjoining := Option.not_isSome_iff_eq_none.mp hjoining
    obtain ⟨u, hset, rfl⟩ := Option.map_eq_some_iff.mp hstep
    obtain ⟨_, rfl⟩ := setClosed_spec hset
    refine .close caller ?_ ?_ rfl rfl rfl
    · simp [owned, record, hjoining]
    · simp [inHand, record, hjoining]
  | take =>
    change s.take = some t at hstep
    unfold take at hstep
    split at hstep
    · rename_i caller hjoining
      split at hstep
      · cases hstep
      · cases hstep
        refine .internal ?_ ?_ rfl rfl rfl
        · simp [owned, hjoining, add_comm]
        · simp [inHand, hjoining]
    · cases hstep
  | await =>
    change s.await = some t at hstep
    unfold await at hstep
    split at hstep
    · rename_i caller handle handles failures hjoining
      obtain ⟨failures', hnote, rfl⟩ := Option.map_eq_some_iff.mp hstep
      obtain ⟨_, hended, hfailures⟩ := note_spec hnote
      refine .settle handle hended ?_ ?_ rfl rfl rfl
      · simp [owned, hjoining, ← Multiset.cons_coe]
      · simp only [inHand, hjoining, found, hfailures]
        abel
    · cases hstep
  | reap =>
    change s.reap = some t at hstep
    unfold reap at hstep
    split at hstep
    · rename_i caller failures hjoining
      have hclosed := h.closed (by simp [hjoining])
      split at hstep
      · cases hstep
      · cases hstep
        refine .return caller _ ?_ ?_ ?_ ?_ rfl rfl hclosed hclosed
        · simp [owned, hjoining, h.taken _ _ _ hjoining, h.idle hclosed]
        · simp [owned, record, h.taken _ _ _ hjoining, h.idle hclosed]
        · simp [inHand, hjoining, ← Multiset.coe_add, add_comm]
        · simp [inHand, record]
    · cases hstep
  | finish handle progress =>
    change s.finish handle progress = some t at hstep
    unfold finish at hstep
    split at hstep
    · rename_i future hrunning
      split at hstep
      · cases hstep
      · rename_i hended
        cases hstep
        exact .finish handle future progress hended hrunning rfl rfl rfl rfl rfl
    · cases hstep

theorem Sound.step (h : s.Sound) (hstep : Step s label t) : t.Sound := by
  have heffect := h.guarded.effect hstep
  have haccounted := h.accounted.step heffect
  exact ⟨h.guarded.step hstep, haccounted, h.reported.step haccounted heffect⟩

end SessionTasks

/-- Over every run of spawns, reports, closes and joins, with workers that end at any time and in
any way: nothing is accepted once admission was closed, a future that is refused goes back
unexecuted, and when a join returns every accepted worker has ended and the joins have returned the
errors of the workers and the recorded failures, each of them once. -/
theorem session_work_drained [DecidableEq ι] {labels : List (Label ι φ)} {s : SessionTasks ι φ}
    (hrun : Trace SessionTasks.Step .new labels s) :
    (∀ later e rest, s.log = later ++ e :: rest → e.Closes →
      ∀ caller future, .accepted caller future ∉ later) ∧
    s.tasks.map (·.future) = acceptedFutures s.log ∧
    (∀ caller future t, s.registry.closed = true → s.Step (.spawn caller future) t →
      t = s.record (.rejected caller future)) ∧
    ∀ later caller failures result rest,
      s.log = later ++ .returned caller failures result :: rest →
      Ended s.tasks ∧
      (result = .ok () ↔ failures = []) ∧
      (∀ text, result = .error text → text = "; ".intercalate failures) ∧
      returned (.returned caller failures result :: rest : List (Event ι φ)) =
        recorded rest + panics s.tasks := by
  have hsound := hrun.invariant (fun h hstep => h.step hstep) SessionTasks.sound_new
  refine ⟨hsound.reported.late, hsound.reported.executed, ?_, ?_⟩
  · intro caller future t hclosed hstep
    change s.spawn caller future = some t at hstep
    rw [SessionTasks.spawn, hsound.guarded.idle hclosed, if_neg (by simp), if_pos hclosed] at hstep
    exact (Option.some.inj hstep).symm
  · intro later caller failures result rest hlog
    obtain ⟨hended, rfl, hreturned⟩ := hsound.reported.joins later caller failures result rest hlog
    refine ⟨hended, ?_, ?_, hreturned⟩
    · cases failures <;> simp [joinResult]
    · intro text htext
      cases failures with
      | nil => cases htext
      | cons => exact (Except.error.inj htext).symm

/-- A worker that panics is reaped by the next spawn; the second one reports while it is drained. -/
def sampleLabels : List (Label ℕ String) := [
  .spawn 0 "first", .register, .finish 0 (.panicked "task 1 panicked"),
  .spawn 1 "second", .examine true, .register, .join 2, .spawn 1 "late", .cancel 2, .take,
  .recordFailure "late I/O failure", .finish 1 .finished, .await, .reap]

def sampleLog : List (Event ℕ String) := [
  .recorded "late I/O failure", .rejected 1 "late", .closed 2, .accepted 1 "second",
  .accepted 0 "first"]

theorem session_work_drained_sample : ∃ s : SessionTasks ℕ String,
    SessionTasks.new.run sampleLabels = some s ∧ Ended s.tasks ∧
      returned s.log = recorded sampleLog + panics s.tasks ∧
      s.log = .returned 2 ["task 1 panicked", "late I/O failure"]
        (.error "task 1 panicked; late I/O failure") :: sampleLog := by
  obtain ⟨s, hrun, hlog⟩ : ∃ s, SessionTasks.new.run sampleLabels = some s ∧
      s.log = .returned 2 ["task 1 panicked", "late I/O failure"]
        (.error "task 1 panicked; late I/O failure") :: sampleLog := ⟨_, rfl, rfl⟩
  obtain ⟨hended, _, _, hreturned⟩ :=
    (session_work_drained (SessionTasks.trace_of_run hrun)).2.2.2 [] _ _ _ _ hlog
  rw [← hlog] at hreturned
  exact ⟨s, hrun, hended, hreturned, hlog⟩

end RgbLightningNode.Session
