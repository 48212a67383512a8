import RgbLightningNode.Signer.NativeSigner

/-!
# Revocation of the signer is terminal

A reader holds the state in place and a closing thread holds readers off, so a shutdown that returns
has dropped the state with no operation left on it. The flag and the emptied state keep later
operations from starting.
-/

namespace RgbLightningNode.Signer
open Concurrency Transition

variable {B : Type} {i j : ℕ} {s s' : NativeExternalSigner B} {c c' d : Control B}

/-- What the log says about operation `i`, newest first. -/
def NativeExternalSigner.history (s : NativeExternalSigner B) (i : ℕ) : List (Event B) :=
  s.log.filter (·.operation = some i)

def Event.isDropped : Event B → Bool
  | .dropped _ => true
  | _ => false

def NativeExternalSigner.drops (s : NativeExternalSigner B) : ℕ := s.log.countP Event.isDropped

/-- The steps of one thread. -/
inductive Advance (i : ℕ) (s : NativeExternalSigner B) :
    Control B → NativeExternalSigner B → Control B → Prop where
  | operation {op} : Advance i s .idle s (.checking op)
  | shutdown : Advance i s .idle s .marking
  | turnAway {op} (flag : s.shuttingDown = true) : Advance i s (.checking op)
      (s.record (.observed i)) (.returned (.error unavailable))
  | queue {op} (flag : s.shuttingDown = false) : Advance i s (.checking op) s (.queued op)
  | acquire {op state} (shared : RwLock.Shared i s.state state) :
      Advance i s (.queued op) { s with state } (.acquired op)
  | poisoned {op} : Advance i s (.acquired op) s (.releasing (.error poisonedState))
  | sound {op} : Advance i s (.acquired op) s (.rechecking op)
  | turnBack {op} (flag : s.shuttingDown = true) : Advance i s (.rechecking op)
      (s.record (.observed i)) (.releasing (.error unavailable))
  | proceed {op} (flag : s.shuttingDown = false) : Advance i s (.rechecking op) s (.examining op)
  | gone {op} (content : s.state.content = none) :
      Advance i s (.examining op) s (.releasing (.error unavailable))
  | start {op state} (content : s.state.content = some state) :
      Advance i s (.examining op) (s.record (.started i)) (.executing op state)
  | finish {op state} (result : Except RlnError (Value B)) :
      Advance i s (.executing op state) (s.record (.finished i result)) (.releasing result)
  | panic {op state} : Advance i s (.executing op state) (s.record (.panicked i)) .unwinding
  | release {result} : Advance i s (.releasing result)
      { s with state := s.state.releaseRead i } (.returned result)
  | unwind : Advance i s .unwinding { s with state := s.state.releaseRead i } .panicked
  | mark : Advance i s .marking { s with shuttingDown := true } .closing
  | enter {state} (exclusive : RwLock.Exclusive i s.state state) :
      Advance i s .closing { s with state } .holding
  | take : Advance i s .holding { s with state := s.state.put none } (.dropping s.state.content)
  | empty : Advance i s (.dropping none) s .clearing
  | drop {state} : Advance i s (.dropping (some state)) (s.record (.dropped i)) .clearing
  | dropPanic {state} : Advance i s (.dropping (some state)) (s.record (.dropped i)) .unwindingClose
  | clear : Advance i s .clearing { s with state := s.state.clearPoison } .unlocking
  | close : Advance i s .unlocking { s with state := s.state.releaseWrite false } .closed
  | closePanic : Advance i s .unwindingClose
      { s with state := s.state.releaseWrite true } .panickedClose

variable {action : Action B} {answer : Answer B}

theorem withState_advance (h : c.withState i s answer = some (s', c')) : Advance i s c s' c' := by
  unfold Control.withState at h
  split at h
  · split at h
    next hflag => cases h; exact .turnAway hflag
    next hflag => cases h; exact .queue (eq_false_of_ne_true hflag)
  · simp only [Option.map_eq_some_iff, Prod.mk.injEq] at h
    obtain ⟨state, hread, rfl, rfl⟩ := h
    exact .acquire (RwLock.read_spec hread)
  · split at h <;> cases h
    · exact .poisoned
    · exact .sound
  · split at h
    next hflag => cases h; exact .turnBack hflag
    next hflag => cases h; exact .proceed (eq_false_of_ne_true hflag)
  · split at h
    next hcontent => cases h; exact .gone hcontent
    next hcontent => cases h; exact .start hcontent
  · cases h
    exact .panic
  · simp only [Option.map_eq_some_iff, Prod.mk.injEq] at h
    obtain ⟨result, _, rfl, rfl⟩ := h
    exact .finish result
  · cases h
    exact .release
  · cases h
    exact .unwind
  · cases h

theorem shutdown_advance (h : c.shutdown i s answer = some (s', c')) : Advance i s c s' c' := by
  unfold Control.shutdown at h
  split at h
  · cases h
    exact .mark
  · simp only [Option.map_eq_some_iff, Prod.mk.injEq] at h
    obtain ⟨state, hwrite, rfl, rfl⟩ := h
    exact .enter (RwLock.write_spec hwrite)
  · cases h
    exact .take
  · cases h
    exact .empty
  · cases h
    exact .drop
  · cases h
    exact .dropPanic
  · cases h
    exact .clear
  · cases h
    exact .close
  · cases h
    exact .closePanic
  · cases h

theorem next_advance (h : c.next i action s = some (s', c')) : Advance i s c s' c' := by
  unfold Control.next at h
  split at h
  · cases action with
    | withState op => cases h; exact .operation
    | shutdown => cases h; exact .shutdown
    | resume answer => cases h
  · cases action with
    | resume answer =>
      dsimp only at h
      cases hwith : c.withState i s answer with
      | none =>
        rw [hwith] at h
        exact shutdown_advance h
      | some r =>
        rw [hwith] at h
        cases h
        exact withState_advance hwith
    | _ => cases h

/-- How an operation can end: with its closure's result, or turned away. -/
def Answered (i : ℕ) (s : NativeExternalSigner B) (result : Except RlnError (Value B)) : Prop :=
  s.history i = [.finished i result, .started i] ∨
    s.history i = [.observed i] ∧ result = .error unavailable ∨
    s.history i = [] ∧ (result = .error unavailable ∨ result = .error poisonedState)

/-- The state has been dropped, once. -/
def NativeExternalSigner.Dropped (s : NativeExternalSigner B) : Prop :=
  s.state.content = none ∧ s.drops = 1

/-- What is known of the signer. -/
structure NativeExternalSigner.Sound (s : NativeExternalSigner B) : Prop where
  flagged : s.state.content = none → s.shuttingDown = true
  kept : s.state.content ≠ none → s.drops = 0
  gone : s.state.content = none → s.state.writer = none → s.drops = 1
  once : s.drops ≤ 1

/-- What is known of thread `i`. -/
def Control.Sound (i : ℕ) (s : NativeExternalSigner B) : Control B → Prop
  | .idle | .checking _ | .queued _ | .marking => s.state.Free i ∧ s.history i = []
  | .acquired _ | .rechecking _ | .examining _ => s.state.Reads i ∧ s.history i = []
  | .executing _ state =>
    s.state.Reads i ∧ s.state.content = some state ∧ s.history i = [.started i]
  | .releasing result => s.state.Reads i ∧ Answered i s result
  | .unwinding => s.state.Reads i ∧ s.history i = [.panicked i, .started i]
  | .returned result => s.state.Free i ∧ Answered i s result
  | .panicked => s.state.Free i ∧ s.history i = [.panicked i, .started i]
  | .closing => s.state.Free i ∧ s.history i = [] ∧ s.shuttingDown = true
  | .holding => s.state.Writes i ∧ s.history i = [] ∧ s.shuttingDown = true ∧
      (s.state.content = none → s.drops = 1)
  | .dropping taken => s.state.Writes i ∧ s.history i = [] ∧ s.state.content = none ∧
      s.drops = if taken.isSome then 0 else 1
  | .clearing | .unlocking | .unwindingClose =>
    s.state.Writes i ∧ s.history i = [] ∧ s.Dropped
  | .closed | .panickedClose => s.state.Free i ∧ s.history i = [] ∧ s.Dropped

/-- What a thread relies on while another thread takes a step. -/
structure Undisturbed (i : ℕ) (s s' : NativeExternalSigner B) : Prop where
  reads : s'.state.Reads i ↔ s.state.Reads i
  writes : s'.state.Writes i ↔ s.state.Writes i
  content : s'.state.content = s.state.content
  history : s'.history i = s.history i
  drops : s'.drops = s.drops
  flag : s.shuttingDown = true → s'.shuttingDown = true

theorem Undisturbed.free (h : Undisturbed i s s') : s'.state.Free i ↔ s.state.Free i := by
  rw [RwLock.Free, RwLock.Free, h.reads, h.writes]

theorem Answered.congr (result : Except RlnError (Value B)) (h : s'.history i = s.history i) :
    Answered i s' result ↔ Answered i s result := by
  rw [Answered, Answered, h]

theorem NativeExternalSigner.Dropped.congr (hcontent : s'.state.content = s.state.content)
    (hdrops : s'.drops = s.drops) : s'.Dropped ↔ s.Dropped := by
  rw [NativeExternalSigner.Dropped, NativeExternalSigner.Dropped, hcontent, hdrops]

theorem Control.Sound.undisturbed (h : c.Sound i s) (hs : Undisturbed i s s') : c.Sound i s' := by
  have hdropped := NativeExternalSigner.Dropped.congr hs.content hs.drops
  have hanswered := fun result => Answered.congr result hs.history
  cases c with
  | closing => exact ⟨hs.free.mpr h.1, hs.history.trans h.2.1, hs.flag h.2.2⟩
  | holding =>
    simp only [Control.Sound, hs.writes, hs.history, hs.content, hs.drops] at h ⊢
    exact ⟨h.1, h.2.1, hs.flag h.2.2.1, h.2.2.2⟩
  | _ =>
    simpa only [Control.Sound, hs.free, hs.reads, hs.writes, hs.history, hs.content, hs.drops,
      hdropped, hanswered] using h

@[simp] theorem history_record (e : Event B) :
    (s.record e).history i = if e.operation = some i then e :: s.history i else s.history i := by
  by_cases h : e.operation = some i
  · simp [NativeExternalSigner.history, NativeExternalSigner.record, h]
  · simp [NativeExternalSigner.history, NativeExternalSigner.record, h]

@[simp] theorem drops_record (e : Event B) :
    (s.record e).drops = s.drops + if e.isDropped then 1 else 0 :=
  List.countP_cons

@[simp] theorem state_record (e : Event B) : (s.record e).state = s.state := rfl

@[simp] theorem shuttingDown_record (e : Event B) :
    (s.record e).shuttingDown = s.shuttingDown := rfl

/-- A step of the state lock that keeps its content. -/
theorem undisturbed_lock {state : RwLock ℕ (Option NativeExternalSignerState)}
    (h : RwLock.Keeps i s.state state) (hcontent : state.content = s.state.content) (hj : j ≠ i) :
    Undisturbed j s { s with state } :=
  ⟨h.reads hj, h.writes hj, hcontent, rfl, rfl, id⟩

theorem undisturbed_record {e : Event B} (he : e.operation = some i) (hj : j ≠ i) :
    Undisturbed j s (s.record e) := by
  have hdrop : e.isDropped = false := by cases e <;> simp_all [Event.operation, Event.isDropped]
  refine ⟨Iff.rfl, Iff.rfl, rfl, ?_, ?_, id⟩
  · simp [he, hj.symm]
  · simp [hdrop]

/-- Taking the state disturbs nobody: whoever relies on it holds a guard. -/
theorem Control.Sound.take (h : d.Sound j s) (hw : s.state.Writes i) (hj : j ≠ i) :
    d.Sound j { s with state := s.state.put none } := by
  have hnot : ¬s.state.Writes j := fun h' => hj (h'.eq hw)
  have hread : ¬s.state.Reads j := hw.not_reads
  cases d with
  | executing op state => exact absurd h.1 hread
  | holding => exact absurd h.1 hnot
  | dropping taken => exact absurd h.1 hnot
  | clearing | unlocking | unwindingClose => exact absurd h.1 hnot
  | closed | panickedClose => exact ⟨h.1, h.2.1, rfl, h.2.2.2⟩
  | _ => exact h

/-- Dropping the state disturbs nobody: whoever relies on the count relies on an earlier drop. -/
theorem Control.Sound.drop (h : d.Sound j s) (hw : s.state.Writes i) (hj : j ≠ i)
    (hdrops : s.drops = 0) : d.Sound j (s.record (.dropped i)) := by
  have hnot : ¬s.state.Writes j := fun h' => hj (h'.eq hw)
  have hhistory : (s.record (.dropped i)).history j = s.history j := by
    simp [Event.operation]
  have hanswered := fun result => Answered.congr result hhistory
  cases d with
  | holding => exact absurd h.1 hnot
  | dropping taken => exact absurd h.1 hnot
  | clearing | unlocking | unwindingClose => exact absurd h.1 hnot
  | closed | panickedClose =>
    have hone := h.2.2.2
    rw [hdrops] at hone
    cases hone
  | _ => simpa only [Control.Sound, hhistory, hanswered, state_record, shuttingDown_record] using h

namespace Advance

theorem history_of_free (h : s.history i = []) (e : Event B) (he : e.operation = some i) :
    (s.record e).history i = [e] := by
  simp [he, h]

theorem shared (h : Advance i s c s' c') (hs : s.Sound) (hc : c.Sound i s) : s'.Sound := by
  cases h with
  | turnAway | turnBack | start | finish | panic =>
    refine ⟨hs.flagged, ?_, ?_, ?_⟩
    all_goals simp only [drops_record, state_record, Event.isDropped]
    · exact hs.kept
    · exact hs.gone
    · exact hs.once
  | acquire shared =>
    have hcontent := shared.content
    refine ⟨fun h => hs.flagged ?_, fun h => hs.kept ?_, fun h hw =>
      hs.gone ?_ shared.idle, hs.once⟩
    · exact hcontent.symm.trans h
    · rwa [← hcontent]
    · exact hcontent.symm.trans h
  | release => exact ⟨hs.flagged, hs.kept, hs.gone, hs.once⟩
  | unwind => exact ⟨hs.flagged, hs.kept, hs.gone, hs.once⟩
  | mark => exact ⟨fun _ => rfl, hs.kept, hs.gone, hs.once⟩
  | enter exclusive =>
    have hcontent := exclusive.content
    refine ⟨fun h => hs.flagged ?_, fun h => hs.kept ?_, fun _ hw => ?_, hs.once⟩
    · exact hcontent.symm.trans h
    · rwa [← hcontent]
    · cases hw.symm.trans exclusive.writes
  | take =>
    refine ⟨fun _ => hc.2.2.1, fun h => absurd rfl h, fun _ hw => ?_, hs.once⟩
    have hwriter : s.state.writer = some i := hc.1
    simp [RwLock.put, hwriter] at hw
  | drop | dropPanic =>
    obtain ⟨hwrites, _, hcontent, hdrops⟩ := hc
    have hone : (s.record (.dropped i)).drops = 1 := by
      simpa [Event.isDropped] using hdrops
    exact ⟨hs.flagged, fun h => absurd hcontent h, fun _ _ => hone, hone.le⟩
  | clear => exact ⟨hs.flagged, hs.kept, hs.gone, hs.once⟩
  | close | closePanic =>
    exact ⟨hs.flagged, hs.kept, fun _ _ => hc.2.2.2, hs.once⟩
  | _ => exact hs

theorem own (h : Advance i s c s' c') (hs : s.Sound) (hc : c.Sound i s) : c'.Sound i s' := by
  cases h with
  | operation | shutdown | queue | sound | proceed => exact hc
  | turnAway flag => exact ⟨hc.1, .inr (.inl ⟨history_of_free hc.2 _ rfl, rfl⟩)⟩
  | turnBack flag => exact ⟨hc.1, .inr (.inl ⟨history_of_free hc.2 _ rfl, rfl⟩)⟩
  | acquire shared => exact ⟨shared.reads, hc.2⟩
  | poisoned => exact ⟨hc.1, .inr (.inr ⟨hc.2, .inr rfl⟩)⟩
  | gone content => exact ⟨hc.1, .inr (.inr ⟨hc.2, .inl rfl⟩)⟩
  | start content => exact ⟨hc.1, content, history_of_free hc.2 _ rfl⟩
  | finish result => exact ⟨hc.1, .inl (by simp [hc.2.2, Event.operation])⟩
  | panic => exact ⟨hc.1, by simp [hc.2.2, Event.operation]⟩
  | release => exact ⟨RwLock.releaseRead_free hc.1, hc.2⟩
  | unwind => exact ⟨RwLock.releaseRead_free hc.1, hc.2⟩
  | mark => exact ⟨hc.1, hc.2, rfl⟩
  | enter exclusive =>
    refine ⟨exclusive.writes, hc.2.1, hc.2.2, fun h => hs.gone ?_ exclusive.idle⟩
    exact exclusive.content.symm.trans h
  | take =>
    obtain ⟨hwrites, hhistory, _, hgone⟩ := hc
    refine ⟨hwrites, hhistory, rfl, ?_⟩
    cases hcontent : s.state.content with
    | none => exact hgone hcontent
    | some state => exact hs.kept (by simp [hcontent])
  | empty => exact ⟨hc.1, hc.2.1, hc.2.2.1, hc.2.2.2⟩
  | drop | dropPanic =>
    obtain ⟨hwrites, hhistory, hcontent, hdrops⟩ := hc
    refine ⟨hwrites, by simpa [Event.operation] using hhistory, hcontent, ?_⟩
    simpa [Event.isDropped] using hdrops
  | clear => exact hc
  | close => exact ⟨RwLock.releaseWrite_free hc.1 _, hc.2⟩
  | closePanic => exact ⟨RwLock.releaseWrite_free hc.1 _, hc.2⟩

theorem other (h : Advance i s c s' c') (hc : c.Sound i s) (hd : d.Sound j s) (hj : j ≠ i) :
    d.Sound j s' := by
  cases h with
  | turnAway | turnBack | start | finish | panic =>
    exact hd.undisturbed (undisturbed_record rfl hj)
  | acquire shared => exact hd.undisturbed (undisturbed_lock shared.keeps shared.content hj)
  | release => exact hd.undisturbed (undisturbed_lock RwLock.releaseRead_keeps rfl hj)
  | unwind => exact hd.undisturbed (undisturbed_lock RwLock.releaseRead_keeps rfl hj)
  | mark => exact hd.undisturbed ⟨Iff.rfl, Iff.rfl, rfl, rfl, rfl, fun _ => rfl⟩
  | enter exclusive =>
    exact hd.undisturbed (undisturbed_lock exclusive.keeps exclusive.content hj)
  | take => exact hd.take hc.1 hj
  | drop | dropPanic => exact hd.drop hc.1 hj (by simpa using hc.2.2.2)
  | clear => exact hd.undisturbed (undisturbed_lock (RwLock.keeps_same rfl rfl) rfl hj)
  | close =>
    exact hd.undisturbed (undisturbed_lock (RwLock.releaseWrite_keeps hc.1 false) rfl hj)
  | closePanic =>
    exact hd.undisturbed (undisturbed_lock (RwLock.releaseWrite_keeps hc.1 true) rfl hj)
  | _ => exact hd

end Advance

theorem program_preserves : (program B).Preserves Program.Unrestricted
    NativeExternalSigner.Sound Control.Sound where
  shared _ hs h := (next_advance h).shared hs.shared (hs.control _)
  own _ hs h := (next_advance h).own hs.shared (hs.control _)
  other _ hs hj h := (next_advance h).other (hs.control _) (hs.control _) hj
  environment {s event σ'} _ hs h := by
    cases event with
    | poison =>
      simp only [program, Environment.apply, Option.ite_none_right_eq_some,
        Option.some.injEq] at h
      obtain ⟨_, rfl⟩ := h
      refine ⟨⟨hs.shared.flagged, hs.shared.kept, hs.shared.gone, hs.shared.once⟩, fun j => ?_⟩
      exact (hs.control j).undisturbed ⟨Iff.rfl, Iff.rfl, rfl, rfl, rfl, id⟩

theorem mem_history {e : Event B} (he : e.operation = some i) :
    e ∈ s.history i ↔ e ∈ s.log := by
  simp [NativeExternalSigner.history, he]

section Runs

variable {s t : System B} {moves more : List (Move ℕ (Action B) Environment)}
  {state : NativeExternalSignerState}

theorem fromBackend_holds :
    Program.Holds NativeExternalSigner.Sound Control.Sound (fromBackend (B := B) state) := by
  refine ⟨⟨nofun, fun _ => rfl, nofun, Nat.zero_le _⟩, fun i => ⟨⟨?_, nofun⟩, rfl⟩⟩
  exact Finset.notMem_empty i

/-- What callers of the signer may rely on. -/
structure Revoked (s : System B) : Prop where
  drained : ∀ {i}, s.control i = .closed → s.shared.Dropped ∧
    ∀ j op state, s.control j ≠ .executing op state
  uninterrupted : ∀ {j op state}, s.control j = .executing op state →
    s.shared.state.content = some state ∧ s.shared.drops = 0
  completed : ∀ {j}, .started j ∈ s.shared.log →
    (∃ op state, s.control j = .executing op state) ∨
    (∃ result, .finished j result ∈ s.shared.log ∧
      (s.control j = .releasing result ∨ s.control j = .returned result)) ∨
    .panicked j ∈ s.shared.log ∧ (s.control j = .unwinding ∨ s.control j = .panicked)
  observed : ∀ {j}, .observed j ∈ s.shared.log →
    s.control j = .releasing (.error unavailable) ∨ s.control j = .returned (.error unavailable)
  once : s.shared.drops ≤ 1

theorem Answered.finished {i : ℕ} {s : NativeExternalSigner B} {value : Value B}
    (h : Answered i s (.ok value)) : s.history i = [.finished i (.ok value), .started i] := by
  rcases h with h | ⟨_, h⟩ | ⟨_, h | h⟩
  · exact h
  · cases h
  · cases h
  · cases h

theorem Answered.of_started {i : ℕ} {s : NativeExternalSigner B}
    {result : Except RlnError (Value B)} (h : Answered i s result)
    (hi : .started i ∈ s.history i) : .finished i result ∈ s.history i := by
  rcases h with h | ⟨h, _⟩ | ⟨h, _⟩
  · simp [h]
  · simp [h] at hi
  · simp [h] at hi

theorem Answered.of_observed {i : ℕ} {s : NativeExternalSigner B}
    {result : Except RlnError (Value B)} (h : Answered i s result)
    (hi : .observed i ∈ s.history i) : result = .error unavailable := by
  rcases h with h | ⟨_, h⟩ | ⟨h, _⟩
  · simp [h] at hi
  · exact h
  · simp [h] at hi

/-- An operation that started is still executing, or has left with what its closure ended in. -/
theorem Control.Sound.completed {i : ℕ} {s : NativeExternalSigner B} {c : Control B}
    (h : c.Sound i s) (hi : .started i ∈ s.history i) :
    (∃ op state, c = .executing op state) ∨
    (∃ result, .finished i result ∈ s.history i ∧ (c = .releasing result ∨ c = .returned result)) ∨
    .panicked i ∈ s.history i ∧ (c = .unwinding ∨ c = .panicked) := by
  cases c with
  | executing op state => exact .inl ⟨op, state, rfl⟩
  | releasing result => exact .inr (.inl ⟨result, h.2.of_started hi, .inl rfl⟩)
  | returned result => exact .inr (.inl ⟨result, h.2.of_started hi, .inr rfl⟩)
  | unwinding => exact .inr (.inr ⟨by simp [h.2], .inl rfl⟩)
  | panicked => exact .inr (.inr ⟨by simp [h.2], .inr rfl⟩)
  | idle | checking | queued | marking | acquired | rechecking | examining => simp [h.2] at hi
  | _ => simp [h.2.1] at hi

theorem Control.Sound.observed {i : ℕ} {s : NativeExternalSigner B} {c : Control B}
    (h : c.Sound i s) (hi : .observed i ∈ s.history i) :
    c = .releasing (.error unavailable) ∨ c = .returned (.error unavailable) := by
  cases c with
  | executing op state => simp [h.2.2] at hi
  | releasing result => exact .inl (congrArg _ (h.2.of_observed hi))
  | returned result => exact .inr (congrArg _ (h.2.of_observed hi))
  | unwinding | panicked => simp [h.2] at hi
  | idle | checking | queued | marking | acquired | rechecking | examining => simp [h.2] at hi
  | _ => simp [h.2.1] at hi

theorem revoked_of_holds (h : Program.Holds NativeExternalSigner.Sound Control.Sound s) :
    Revoked s where
  drained {i} hi := by
    have hclosed := h.control i
    rw [hi] at hclosed
    refine ⟨hclosed.2.2, fun j op state hj => ?_⟩
    have hexecuting := h.control j
    rw [hj] at hexecuting
    cases hclosed.2.2.1.symm.trans hexecuting.2.1
  uninterrupted {j op state} hj := by
    have hexecuting := h.control j
    rw [hj] at hexecuting
    exact ⟨hexecuting.2.1, h.shared.kept (by simp [hexecuting.2.1])⟩
  completed {j} hj := by
    have hmem := fun {e} (he : e ∈ s.shared.history j) => (List.mem_filter.mp he).1
    rcases (h.control j).completed ((mem_history rfl).mpr hj) with hc | ⟨result, hr, hc⟩ | ⟨hp, hc⟩
    · exact .inl hc
    · exact .inr (.inl ⟨result, hmem hr, hc⟩)
    · exact .inr (.inr ⟨hmem hp, hc⟩)
  observed {j} hj := (h.control j).observed ((mem_history rfl).mpr hj)
  once := h.shared.once

theorem holds_of_trace (hrun : Trace ((program B).Step Program.Unrestricted) (fromBackend state)
    moves s) : Program.Holds NativeExternalSigner.Sound Control.Sound s :=
  program_preserves.trace hrun fromBackend_holds

/-- From a state in which the signer is gone no operation starts, and it stays gone. -/
structure Gone (s t : NativeExternalSigner B) : Prop where
  content : t.state.content = none
  log : s.log ⊆ t.log
  started : ∀ {j}, .started j ∈ t.log → .started j ∈ s.log

theorem Gone.record {s t : NativeExternalSigner B} (h : Gone s t) (e : Event B)
    (he : ∀ i, e ≠ .started i) : Gone s (t.record e) := by
  refine ⟨h.content, List.Subset.trans h.log (List.subset_cons_self _ _), fun {j} hj => ?_⟩
  rcases List.mem_cons.mp hj with hj | hj
  · exact absurd hj.symm (he j)
  · exact h.started hj

theorem Gone.lock {s t : NativeExternalSigner B} (h : Gone s t)
    {state : RwLock ℕ (Option NativeExternalSignerState)} (hcontent : state.content = none) :
    Gone s { t with state } :=
  ⟨hcontent, h.log, h.started⟩

theorem Advance.stays_gone {i : ℕ} {s t t' : NativeExternalSigner B} {c c' : Control B}
    (h : Advance i t c t' c') (hs : Gone s t) : Gone s t' := by
  cases h with
  | start content => cases hs.content.symm.trans content
  | acquire shared => exact hs.lock (shared.content.trans hs.content)
  | enter exclusive => exact hs.lock (exclusive.content.trans hs.content)
  | take => exact hs.lock rfl
  | release | unwind | clear | close | closePanic => exact hs.lock hs.content
  | turnAway | turnBack | finish | panic | drop | dropPanic => exact hs.record _ nofun
  | mark => exact ⟨hs.content, hs.log, hs.started⟩
  | _ => exact hs

theorem gone_trace (h : Trace ((program B).Step Program.Unrestricted) s moves t)
    (hs : s.shared.state.content = none) : Gone s.shared t.shared := by
  refine h.invariant (P := fun t => Gone s.shared t.shared) ?_ ⟨hs, List.Subset.refl _, id⟩
  intro u move v hu hstep
  cases move with
  | environment event =>
    obtain ⟨σ', hevent, rfl⟩ := Program.step_environment hstep.1
    cases event with
    | poison =>
      simp only [program, Environment.apply, Option.ite_none_right_eq_some,
        Option.some.injEq] at hevent
      obtain ⟨_, rfl⟩ := hevent
      exact hu.lock hu.content
  | thread i action =>
    obtain ⟨σ', c', hnext, rfl⟩ := Program.step_thread hstep.1
    exact (next_advance hnext).stays_gone hu

/-- Revocation drains the signer and is terminal: after any shutdown has returned no operation
starts, and one that succeeds had finished before. -/
theorem revocation_terminal
    (hfirst : Trace ((program B).Step Program.Unrestricted) (fromBackend state) moves s)
    (hrest : Trace ((program B).Step Program.Unrestricted) s more t) :
    Revoked t ∧ ∀ i, s.control i = .closed → ∀ j,
      (.started j ∈ t.shared.log → .started j ∈ s.shared.log) ∧
      ∀ value, t.control j = .returned (.ok value) → .finished j (.ok value) ∈ s.shared.log := by
  have hs := holds_of_trace hfirst
  have ht := holds_of_trace (hfirst.append hrest)
  refine ⟨revoked_of_holds ht, fun i hi j => ?_⟩
  obtain ⟨⟨hgone, _⟩, hdrained⟩ := (revoked_of_holds hs).drained hi
  have hend := gone_trace hrest hgone
  refine ⟨hend.started, fun value hj => ?_⟩
  have hreturned := ht.control j
  rw [hj] at hreturned
  have hhistory := hreturned.2.finished
  have hstarted : .started j ∈ t.shared.log := (mem_history (i := j) rfl).mp (by simp [hhistory])
  rcases (revoked_of_holds hs).completed (hend.started hstarted) with
    ⟨op, state, hexecuting⟩ | ⟨result, hresult, _⟩ | ⟨hpanicked, _⟩
  · exact absurd hexecuting (hdrained j op state)
  · have hmem := (mem_history (i := j) rfl).mpr (hend.log hresult)
    obtain rfl : result = .ok value := by simpa [hhistory] using hmem
    exact hresult
  · have hmem := (mem_history (i := j) rfl).mpr (hend.log hpanicked)
    simp [hhistory] at hmem

end Runs

section Sample

def resume (i : ℕ) : Move ℕ (Action Unit) Environment := .thread i (.resume .ready)

/-- A bootstrap is executing when a shutdown starts; a second operation is turned away; the
shutdown waits for the bootstrap and drops the state. -/
def drainMoves : List (Move ℕ (Action Unit) Environment) :=
  [.thread 0 (.withState .bootstrap), resume 0, resume 0, resume 0, resume 0, resume 0,
    .thread 1 .shutdown, resume 1,
    .thread 2 (.withState (.call [])), resume 2,
    .thread 0 (.resume (.backend (.ok (.bootstrap ())))), resume 0,
    resume 1, resume 1, resume 1, resume 1, resume 1]

def lateMoves : List (Move ℕ (Action Unit) Environment) :=
  [.thread 3 (.withState .messageSigningAddress), resume 3]

theorem revocation_terminal_sample :
    ∃ s t : System Unit, s.control 0 = .returned (.ok (.bootstrap ())) ∧ s.control 1 = .closed ∧
      t.control 3 = .returned (.error unavailable) ∧ Revoked t ∧
      (.started 3 ∈ t.shared.log → .started 3 ∈ s.shared.log) := by
  have hfirst : ∃ s, (program Unit).run (fromBackend ⟨⟨"address"⟩⟩) drainMoves = some s ∧
      s.control 0 = .returned (.ok (.bootstrap ())) ∧ s.control 1 = .closed ∧
      ∃ t, (program Unit).run s lateMoves = some t ∧
        t.control 3 = .returned (.error unavailable) := ⟨_, rfl, rfl, rfl, _, rfl, rfl⟩
  obtain ⟨s, hfirst, hreturned, hclosed, t, hrest, hlate⟩ := hfirst
  have hboth := revocation_terminal (Program.trace_of_run hfirst) (Program.trace_of_run hrest)
  exact ⟨s, t, hreturned, hclosed, hlate, hboth.1, (hboth.2 1 hclosed 3).1⟩

end Sample

end RgbLightningNode.Signer
