import RgbLightningNode.Handles.Teardown

/-!
# Teardown of a whole environment

The run of a signer's teardown callback, with the steps of any number of other environments in
between: what it has done when it is over, what a failed node leaves, and how long it takes.
-/

namespace RgbLightningNode.Handles
open Transition

variable {w : ℕ} {s s' : Addon w} {t u v : System w} {env a : ℕ} {id : BitVec w}
  {wr : Wrapper w} {c c' : Control w} {sc sc' : Scan w} {ok : Bool}

/-- The nodes of the start that are still ahead of the cursor. -/
def Scan.ahead (sc : Scan w) : ℕ := (sc.start.toFinset.filter (sc.cursor < ·)).card

def NodeCaller.ahead : NodeCaller w → ℕ
  | .scan sc => sc.ahead
  | _ => 0

/-- A bound on the steps until the thread is idle again. -/
def Control.rank : Control w → ℕ
  | .idle => 0
  | .registerNode _ => 14
  | .addNodeCallback _ => 13
  | .createNodeExternal _ => 12
  | .rollbackNode _ _ => 11
  | .stopNode _ caller => 7 * caller.ahead + 10
  | .freeNode _ caller => 7 * caller.ahead + 9
  | .nodeStopped _ caller => 7 * caller.ahead + 8
  | .unregisterNode _ caller => 7 * caller.ahead + 7
  | .releaseNode _ caller => 7 * caller.ahead + 6
  | .shutdownNode _ | .call _ | .shutdownSigner _ => 1
  | .registerSigner _ => 5
  | .addSignerCallback _ => 4
  | .createSignerExternal _ => 3
  | .rollbackSigner _ _ => 2
  | .discardSigner _ _ => 1
  | .freeSigner _ _ => 3
  | .unregisterSigner _ _ => 2
  | .releaseSigner _ _ => 1
  | .scan sc => 7 * sc.ahead + 5
  | .attempt sc _ => 7 * sc.ahead + 11
  | .revoke _ => 4

/-- Moving on takes a node of the start out of those ahead. -/
theorem Scan.Progress.ahead_lt {tried active : List (BitVec w)}
    (h : sc.Progress env s tried active) (hnext : s.nextNode env sc.cursor ≠ 0) :
    ({ sc with cursor := s.nextNode env sc.cursor } : Scan w).ahead < sc.ahead := by
  obtain ⟨hmem, hlt⟩ := s.nextNode_mem hnext
  apply Finset.card_lt_card
  rw [Finset.ssubset_iff_of_subset]
  · refine ⟨s.nextNode env sc.cursor, ?_, ?_⟩
    · rw [Finset.mem_filter, List.mem_toFinset, h.start]
      exact ⟨.inr ⟨hlt, hmem⟩, hlt⟩
    · rw [Finset.mem_filter]
      exact fun h => BitVec.lt_irrefl _ h.2
  · intro id hid
    rw [Finset.mem_filter] at hid ⊢
    exact ⟨hid.1, BitVec.lt_trans hlt hid.2⟩

theorem wrapNode_rank (h : c.wrapNode env s ok = some (s', c')) : c'.rank < c.rank := by
  cases c with
  | registerNode a | addNodeCallback a | createNodeExternal a =>
    obtain ⟨wr, _, h⟩ := Option.map_eq_some_iff.mp h
    split at h <;> cases h <;> simp [Control.rank, NodeCaller.ahead]
  | rollbackNode a failure =>
    cases h
    simp [Control.rank, NodeCaller.ahead]
  | _ => cases h

theorem stopNodes_rank (h : c.stopNodes s ok = some (s', c')) : c'.rank < c.rank := by
  cases c with
  | stopNode a caller | freeNode a caller =>
    obtain ⟨wr, _, h⟩ := Option.map_eq_some_iff.mp h
    (repeat' split at h) <;> cases h <;> simp [Control.rank]
  | nodeStopped a caller =>
    obtain ⟨wr, _, h⟩ := Option.map_eq_some_iff.mp h
    cases caller with
    | wrap failure =>
      cases h
      simp [Control.rank]
    | _ =>
      simp only at h
      split at h <;> cases h <;> simp [Control.rank, NodeCaller.ahead, Scan.ahead]
  | unregisterNode a caller =>
    cases h
    simp [Control.rank]
  | releaseNode a caller =>
    cases caller <;> cases h <;> simp [Control.rank, NodeCaller.ahead]
  | shutdownNode a =>
    obtain ⟨wr, _, h⟩ := Option.map_eq_some_iff.mp h
    split at h <;> cases h <;> simp [Control.rank]
  | _ => cases h

theorem callNative_rank (h : c.callNative s ok = some (s', c')) : c'.rank < c.rank := by
  cases c with
  | call targets =>
    simp only [Control.callNative] at h
    split at h <;> cases h <;> simp [Control.rank]
  | shutdownSigner a =>
    obtain ⟨wr, _, h⟩ := Option.map_eq_some_iff.mp h
    cases h
    simp [Control.rank]
  | _ => cases h

theorem wrapSigner_rank (h : c.wrapSigner env s ok = some (s', c')) : c'.rank < c.rank := by
  cases c with
  | registerSigner a | addSignerCallback a | createSignerExternal a =>
    obtain ⟨wr, _, h⟩ := Option.map_eq_some_iff.mp h
    split at h <;> cases h <;> simp [Control.rank]
  | rollbackSigner a failure =>
    cases h
    simp [Control.rank]
  | discardSigner a failure =>
    obtain ⟨wr, _, h⟩ := Option.map_eq_some_iff.mp h
    cases h
    simp [Control.rank]
  | _ => cases h

theorem freeSigners_rank (h : c.freeSigners s = some (s', c')) : c'.rank < c.rank := by
  cases c with
  | freeSigner a caller =>
    obtain ⟨wr, _, h⟩ := Option.map_eq_some_iff.mp h
    cases caller <;> cases h <;> simp [Control.rank]
  | unregisterSigner a caller | releaseSigner a caller =>
    cases h
    simp [Control.rank]
  | _ => cases h

theorem scanNodes_rank (h : c.scanNodes s ok = some (s', c')) (hc : c.Sound env s)
    (hscanned : c.Scanned env s) : c'.rank < c.rank := by
  cases c with
  | scan sc =>
    obtain ⟨rfl, _, wr, hwr⟩ := hc
    simp only [Control.scanNodes, hwr.own, Option.map_some] at h
    by_cases hnext : s.nextNode sc.env sc.cursor = 0
    · rw [if_pos hnext] at h
      split at h
      · cases h
        split <;> simp only [Control.rank] <;> omega
      · cases h
        simp [Control.rank]
    · rw [if_neg hnext] at h
      cases h
      have hahead := Scan.Progress.ahead_lt hscanned hnext
      simp only [Control.rank]
      omega
  | attempt sc id =>
    simp only [Control.scanNodes] at h
    split at h <;> cases h <;> simp [Control.rank, NodeCaller.ahead]
  | revoke sc =>
    obtain ⟨wr, _, h⟩ := Option.map_eq_some_iff.mp h
    cases h
    split <;> simp [Control.rank]
  | _ => cases h

theorem next_rank (h : c.next env (.resume ok) s = some (s', c')) (hc : c.Sound env s)
    (hscanned : c.Scanned env s) : c'.rank < c.rank := by
  unfold Control.next at h
  split at h
  · cases h
  · simp only [Option.or_eq_some_iff] at h
    rcases h with h | ⟨_, h | ⟨_, h | ⟨_, h | ⟨_, h | ⟨_, h⟩⟩⟩⟩⟩
    · exact wrapNode_rank h
    · exact stopNodes_rank h
    · exact callNative_rank h
    · exact wrapSigner_rank h
    · exact freeSigners_rank h
    · exact scanNodes_rank h hc hscanned

/-- A thread that is not idle can always go on, whatever the native call answers. -/
theorem next_enabled (hc : c.Sound env s) (hidle : c ≠ .idle) :
    ∃ r, c.next env (.resume ok) s = some r := by
  rw [← Option.isSome_iff_exists]
  cases c with
  | idle => exact absurd rfl hidle
  | scan sc =>
    obtain ⟨_, _, wr, hwr⟩ := hc
    simp only [Control.next, Control.wrapNode, Control.stopNodes, Control.callNative,
      Control.wrapSigner, Control.freeSigners, Control.scanNodes, hwr.own, Option.map_some,
      Option.none_or]
    (repeat' split) <;> rfl
  | revoke sc =>
    obtain ⟨_, _, wr, hwr, _⟩ := hc
    simp [Control.next, Control.wrapNode, Control.stopNodes, Control.callNative,
      Control.wrapSigner, Control.freeSigners, Control.scanNodes, hwr.own]
  | attempt sc id =>
    simp only [Control.next, Control.wrapNode, Control.stopNodes, Control.callNative,
      Control.wrapSigner, Control.freeSigners, Control.scanNodes, Option.none_or]
    split <;> rfl
  | call targets =>
    simp only [Control.next, Control.wrapNode, Control.stopNodes, Control.callNative,
      Option.none_or]
    split <;> rfl
  | rollbackNode | rollbackSigner | unregisterNode | unregisterSigner | releaseSigner =>
    simp [Control.next, Control.wrapNode, Control.stopNodes, Control.callNative,
      Control.wrapSigner, Control.freeSigners]
  | releaseNode a caller =>
    cases caller <;> simp [Control.next, Control.wrapNode, Control.stopNodes]
  | _ =>
    obtain ⟨wr, hwr, _⟩ := hc
    simp [Control.next, Control.wrapNode, Control.stopNodes, Control.callNative,
      Control.wrapSigner, Control.freeSigners, hwr.own]

/-- The scan a thread is in, until its loop ends. -/
def Control.scanning : Control w → Option (Scan w)
  | .scan sc | .attempt sc _ => some sc
  | .stopNode _ (.scan sc) | .freeNode _ (.scan sc) | .nodeStopped _ (.scan sc)
  | .unregisterNode _ (.scan sc) | .releaseNode _ (.scan sc) => some sc
  | _ => none

/-- The same callback, later. -/
structure Scan.Continued (sc sc' : Scan w) : Prop where
  signer : sc'.signer = sc.signer
  start : sc'.start = sc.start
  attempts : sc.attempts ⊆ sc'.attempts

theorem Scan.Continued.refl : sc.Continued sc := ⟨rfl, rfl, List.Subset.refl _⟩

theorem Scan.Continued.trans {sc'' : Scan w} (h : sc.Continued sc') (h' : sc'.Continued sc'') :
    sc.Continued sc'' :=
  ⟨h'.signer.trans h.signer, h'.start.trans h.start, List.Subset.trans h.attempts h'.attempts⟩

/-- The thread goes on with the scan, or its loop is over. -/
def Control.Goes (s : Addon w) (sc : Scan w) (c c' : Control w) : Prop :=
  (∃ sc', c'.scanning = some sc' ∧ sc.Continued sc') ∨
    c = .scan sc ∧ s.nextNode sc.env sc.cursor = 0 ∧ c'.scanning = none ∧
      (sc.stopped = false → c' = .idle)

theorem stopNodes_goes (h : c.stopNodes s ok = some (s', c')) (hscan : c.scanning = some sc) :
    c.Goes s sc c' := by
  cases c with
  | stopNode a caller =>
    cases caller with
    | scan sc =>
      cases hscan
      obtain ⟨wr, _, h⟩ := Option.map_eq_some_iff.mp h
      (repeat' split at h) <;> cases h <;> exact .inl ⟨sc, rfl, .refl⟩
    | _ => cases hscan
  | freeNode a caller =>
    cases caller with
    | scan sc =>
      cases hscan
      obtain ⟨wr, _, h⟩ := Option.map_eq_some_iff.mp h
      cases h
      exact .inl ⟨sc, rfl, .refl⟩
    | _ => cases hscan
  | nodeStopped a caller =>
    cases caller with
    | scan sc =>
      cases hscan
      obtain ⟨wr, _, h⟩ := Option.map_eq_some_iff.mp h
      simp only at h
      split at h <;> cases h <;> exact .inl ⟨_, rfl, rfl, rfl, List.subset_cons_self ..⟩
    | _ => cases hscan
  | unregisterNode a caller | releaseNode a caller =>
    cases caller with
    | scan sc =>
      cases hscan
      cases h
      exact .inl ⟨sc, rfl, .refl⟩
    | _ => cases hscan
  | shutdownNode a => cases hscan
  | _ => cases h

theorem scanNodes_goes (h : c.scanNodes s ok = some (s', c')) (hc : c.Sound env s)
    (hscan : c.scanning = some sc) : c.Goes s sc c' := by
  cases c with
  | scan sc =>
    cases hscan
    obtain ⟨_, _, wr, hwr⟩ := hc
    simp only [Control.scanNodes, hwr.own, Option.map_some] at h
    by_cases hnext : s.nextNode sc.env sc.cursor = 0
    · rw [if_pos hnext] at h
      refine .inr ⟨rfl, hnext, ?_⟩
      split at h
      next hstopped =>
        cases h
        refine ⟨?_, fun hfalse => ?_⟩
        · split <;> rfl
        · cases hstopped.symm.trans hfalse
      next =>
        cases h
        exact ⟨rfl, fun _ => rfl⟩
    · rw [if_neg hnext] at h
      cases h
      exact .inl ⟨_, rfl, rfl, rfl, List.Subset.refl _⟩
  | attempt sc id =>
    cases hscan
    simp only [Control.scanNodes] at h
    split at h <;> cases h <;> exact .inl ⟨sc, rfl, .refl⟩
  | revoke sc => cases hscan
  | _ => cases h

/-- In the loop a thread stops nodes or looks for the next one. -/
theorem scanning_cases (h : c.next env (.resume ok) s = some (s', c'))
    (hscan : c.scanning = some sc) :
    c.stopNodes s ok = some (s', c') ∨ c.scanNodes s ok = some (s', c') := by
  unfold Control.next at h
  split at h
  · cases h
  · simp only [Option.or_eq_some_iff] at h
    rcases h with h | ⟨_, h | ⟨_, h | ⟨_, h | ⟨_, h | ⟨_, h⟩⟩⟩⟩⟩
    · cases c with
      | registerNode | addNodeCallback | createNodeExternal | rollbackNode => cases hscan
      | _ => cases h
    · exact .inl h
    · cases c with
      | call | shutdownSigner => cases hscan
      | _ => cases h
    · cases c with
      | registerSigner | addSignerCallback | createSignerExternal | rollbackSigner
      | discardSigner => cases hscan
      | _ => cases h
    · cases c with
      | freeSigner | unregisterSigner | releaseSigner => cases hscan
      | _ => cases h
    · exact .inr h

theorem scanning_next (h : c.next env (.resume ok) s = some (s', c')) (hc : c.Sound env s)
    (hscan : c.scanning = some sc) : c.Goes s sc c' := by
  rcases scanning_cases h hscan with h | h
  · exact stopNodes_goes h hscan
  · exact scanNodes_goes h hc hscan

/-- Only a callback that begins starts a loop. -/
theorem scanning_none (h : c.next env (.resume ok) s = some (s', c'))
    (hnone : c.scanning = none) : c'.scanning = none := by
  unfold Control.next at h
  split at h
  · cases h
  simp only [Option.or_eq_some_iff] at h
  rcases h with h | ⟨_, h | ⟨_, h | ⟨_, h | ⟨_, h | ⟨_, h⟩⟩⟩⟩⟩
  · cases c with
    | registerNode | addNodeCallback | createNodeExternal =>
      obtain ⟨wr, _, h⟩ := Option.map_eq_some_iff.mp h
      split at h <;> cases h <;> rfl
    | rollbackNode =>
      cases h
      rfl
    | _ => cases h
  · cases c with
    | stopNode a caller | freeNode a caller =>
      obtain ⟨wr, _, h⟩ := Option.map_eq_some_iff.mp h
      cases caller with
      | scan sc => cases hnone
      | _ => (repeat' split at h) <;> cases h <;> rfl
    | nodeStopped a caller =>
      obtain ⟨wr, _, h⟩ := Option.map_eq_some_iff.mp h
      cases caller with
      | scan sc => cases hnone
      | wrap failure =>
        cases h
        rfl
      | teardown | finalizer | destroy =>
        simp only at h
        split at h <;> cases h <;> rfl
    | unregisterNode a caller | releaseNode a caller =>
      cases caller with
      | scan sc => cases hnone
      | wrap | teardown | finalizer | destroy =>
        cases h
        rfl
    | shutdownNode a =>
      obtain ⟨wr, _, h⟩ := Option.map_eq_some_iff.mp h
      split at h <;> cases h <;> rfl
    | _ => cases h
  · cases c with
    | call targets =>
      simp only [Control.callNative] at h
      split at h <;> cases h <;> rfl
    | shutdownSigner a =>
      obtain ⟨wr, _, h⟩ := Option.map_eq_some_iff.mp h
      cases h
      rfl
    | _ => cases h
  · cases c with
    | registerSigner | addSignerCallback | createSignerExternal =>
      obtain ⟨wr, _, h⟩ := Option.map_eq_some_iff.mp h
      split at h <;> cases h <;> rfl
    | discardSigner =>
      obtain ⟨wr, _, h⟩ := Option.map_eq_some_iff.mp h
      cases h
      rfl
    | rollbackSigner =>
      cases h
      rfl
    | _ => cases h
  · cases c with
    | freeSigner a caller =>
      obtain ⟨wr, _, h⟩ := Option.map_eq_some_iff.mp h
      cases caller <;> cases h <;> rfl
    | unregisterSigner | releaseSigner =>
      cases h
      rfl
    | _ => cases h
  · cases c with
    | scan sc | attempt sc id => cases hnone
    | revoke sc =>
      obtain ⟨wr, _, h⟩ := Option.map_eq_some_iff.mp h
      cases h
      split <;> rfl
    | _ => cases h

theorem scanning_off (hc : c.Sound env s) (hscan : c.scanning = some sc) : c.Off sc.signer := by
  cases c with
  | stopNode a caller | nodeStopped a caller =>
    cases caller with
    | scan sc =>
      cases hscan
      obtain ⟨wr, hwr, hcaller⟩ := hc
      exact (hcaller.2.ne hwr).symm
    | _ => cases hscan
  | freeNode a caller =>
    cases caller with
    | scan sc =>
      cases hscan
      obtain ⟨wr, hwr, hcaller, _⟩ := hc
      exact (hcaller.2.ne hwr).symm
    | _ => cases hscan
  | unregisterNode a caller =>
    cases caller with
    | scan sc =>
      cases hscan
      obtain ⟨wr, hwr, hsound, _⟩ := hc
      exact (Scan.Sound.ne hsound hwr).symm
    | _ => cases hscan
  | releaseNode a caller =>
    cases caller with
    | scan sc =>
      cases hscan
      obtain ⟨wr, hwr, _, _, hsound⟩ := hc
      exact (Scan.Sound.ne hsound hwr).symm
    | _ => cases hscan
  | shutdownNode a => cases hscan
  | _ => trivial

/-- The loop leaves the signer of its callback alone. -/
theorem scanning_undisturbed (h : c.next env (.resume ok) s = some (s', c')) (hs : s.Sound)
    (hc : c.Sound env s) (hscan : c.scanning = some sc) : Undisturbed (At sc.signer) s s' := by
  rcases scanning_cases h hscan with h | h
  · exact stopNodes_undisturbed h hs hc (scanning_off hc hscan)
  · cases c with
    | scan sc =>
      obtain ⟨_, _, wr, hwr⟩ := hc
      simp only [Control.scanNodes, hwr.own, Option.map_some] at h
      (repeat' split at h) <;> cases h <;> exact .refl
    | attempt sc id =>
      simp only [Control.scanNodes] at h
      split at h <;> cases h <;> exact .refl
    | revoke sc => cases hscan
    | _ => cases h

/-- The invariant of `program_scans`. -/
abbrev Ordered (t : System w) : Prop :=
  Program.Holds Addon.Sound (fun env s c => c.Sound env s ∧ c.Scanned env s) t

/-- A callback that began with the scan `sc₀` in `t` is in its loop and has left its signer
alone. -/
structure Looping (env : ℕ) (sc₀ : Scan w) (t u : System w) (sc : Scan w) : Prop where
  scanning : (u.control env).scanning = some sc
  continued : sc₀.Continued sc
  signer : Undisturbed (At sc₀.signer) t.shared u.shared

variable {sc₀ : Scan w} {move : Label w} {moves : List (Label w)} {action : Action w}

theorem Ordered.trace {A : System w → Label w → Prop} (hs : Ordered t)
    (hrun : Trace ((program w).Step A) t moves u) : Ordered u :=
  program_scans.trace (hrun.mono fun h => ⟨h.1, trivial⟩) hs

/-- Another environment's step does not disturb the wrapper. -/
theorem Undisturbed.step_other {kind : HandleKind} {b i : ℕ} (hs : Ordered u)
    (hkept : Undisturbed (At b) t.shared u.shared) (hwr : t.shared.Holds env kind b wr)
    (hi : i ≠ env) (hnext : (u.control i).next i action u.shared = some (s', c')) :
    Undisturbed (At b) t.shared s' := by
  have own : u.shared.heap b = some wr := (hkept.heap rfl).mpr hwr.own
  have heffects := (next_sound hnext hs.shared (hs.control i).1).1
  have hnew := heffects.undisturbed hs.shared (Ne.symm hi)
  exact hkept.trans (hnew.at ⟨own, hwr.env, hwr.kind⟩)

/-- The next step stays in the loop, or the loop has found no more nodes. -/
theorem Looping.step (h : Looping env sc₀ t u sc) (hs : Ordered u)
    (hwr : t.shared.Holds env .signer sc₀.signer wr)
    (hmove : (program w).Step (Continues env) u move v) :
    (∃ sc', Looping env sc₀ t v sc' ∧ sc.Continued sc') ∨
      u.control env = .scan sc ∧ u.shared.nextNode env sc.cursor = 0 ∧
        (v.control env).scanning = none ∧ Undisturbed (At sc₀.signer) t.shared v.shared ∧
          (sc.stopped = false → v.control env = .idle) := by
  obtain ⟨hmove, hA⟩ := hmove
  cases move with
  | environment event => exact nomatch event
  | thread i label =>
    obtain ⟨shared, control, hnext, rfl⟩ := Program.step_thread hmove
    by_cases hi : i = env
    · subst hi
      obtain ⟨ok, rfl⟩ := hA label rfl
      obtain ⟨hc, hscanned⟩ := hs.control i
      have hnew := scanning_undisturbed hnext hs.shared hc h.scanning
      rw [h.continued.signer] at hnew
      have hkept := h.signer.trans hnew
      rcases scanning_next hnext hc h.scanning with ⟨sc', hscan', hcontinued⟩ |
        ⟨hscan, hnone, hover, hidle⟩
      · refine .inl ⟨sc', ⟨?_, h.continued.trans hcontinued, hkept⟩, hcontinued⟩
        simpa using hscan'
      · rw [hscan] at hscanned
        rw [Scan.Progress.own hscanned] at hnone
        refine .inr ⟨hscan, hnone, ?_, hkept, fun hfalse => ?_⟩
        · simpa using hover
        · simpa using hidle hfalse
    · refine .inl ⟨sc, ⟨?_, h.continued, h.signer.step_other hs hwr hi hnext⟩, .refl⟩
      simpa [Ne.symm hi] using h.scanning

theorem step_scanning_none (hmove : (program w).Step (Continues env) u move v)
    (hnone : (u.control env).scanning = none) : (v.control env).scanning = none := by
  obtain ⟨hmove, hA⟩ := hmove
  cases move with
  | environment event => exact nomatch event
  | thread i label =>
    obtain ⟨shared, control, hnext, rfl⟩ := Program.step_thread hmove
    by_cases hi : i = env
    · subst hi
      obtain ⟨ok, rfl⟩ := hA label rfl
      simpa using scanning_none hnext hnone
    · simpa [Ne.symm hi] using hnone

/-- The scan has tried the nodes `ids` and no others, in increasing order, and finds no more. -/
def Exhausted (env : ℕ) (ids : List (BitVec w)) (u : System w) : Prop :=
  ∃ sc, u.control env = .scan sc ∧ u.shared.nextNode env sc.cursor = 0 ∧
    sc.ids.reverse.Pairwise (· < ·) ∧ ∀ id, id ∈ sc.ids ↔ id ∈ ids

/-- The loop ends only with all nodes of the start tried. -/
theorem loop_exhausted (ht : Ordered t) (hwr : t.shared.Holds env .signer sc₀.signer wr)
    (hscan : t.control env = .scan sc₀)
    (hrun : Trace ((program w).Step (Continues env)) t moves v) :
    (∃ sc, Looping env sc₀ t v sc) ∨ (v.control env).scanning = none ∧
      ∃ first rest u, moves = first ++ rest ∧
        Trace ((program w).Step (Continues env)) t first u ∧ Exhausted env sc₀.start u ∧
          Trace ((program w).Step (Continues env)) u rest v := by
  induction hrun with
  | nil =>
    exact .inl ⟨sc₀, by rw [hscan]; rfl, .refl, .refl⟩
  | @snoc u v first label before last ih =>
    rcases ih with ⟨sc, hloop⟩ | ⟨hnone, first', rest, u', rfl, hbefore, hexhausted, hrest⟩
    · rcases hloop.step (ht.trace before) hwr last with ⟨sc', hloop', _⟩ | ⟨hover, hnone, hnone', _⟩
      · exact .inl ⟨sc', hloop'⟩
      · refine .inr ⟨hnone', first, [label], u, rfl, before, ⟨sc, hover, hnone, ?_⟩, .single last⟩
        have hprogress := ((ht.trace before).control env).2
        rw [hover] at hprogress
        rw [List.pairwise_reverse, ← hloop.continued.start]
        exact ⟨hprogress.ordered, fun id => (hprogress.tried_all hnone).symm⟩
    · exact .inr ⟨step_scanning_none last hnone, first', rest ++ [label], u', List.append_assoc ..,
        hbefore, hexhausted, hrest.snoc last⟩

/-- After a failed attempt the callback never gets to its signer. -/
theorem failed_spares_signer (hwr : t.shared.Holds env .signer sc₀.signer wr)
    (hu : Ordered u) (hloop : Looping env sc₀ t u sc) (hfailed : (id, false) ∈ sc.attempts)
    (hrun : Trace ((program w).Step (Continues env)) u moves v) :
    Undisturbed (At sc₀.signer) t.shared v.shared := by
  suffices h : Ordered v ∧ Undisturbed (At sc₀.signer) t.shared v.shared ∧
      (v.control env = .idle ∨ ∃ sc, Looping env sc₀ t v sc ∧ (id, false) ∈ sc.attempts) from h.2.1
  refine hrun.invariant (P := fun s => Ordered s ∧
    Undisturbed (At sc₀.signer) t.shared s.shared ∧
      (s.control env = .idle ∨ ∃ sc, Looping env sc₀ t s sc ∧ (id, false) ∈ sc.attempts)) ?_
    ⟨hu, hloop.signer, .inr ⟨sc, hloop, hfailed⟩⟩
  rintro s move s' ⟨hs, hkept, hstate⟩ hmove
  refine ⟨hs.trace (.single hmove), ?_⟩
  rcases hstate with hidle | ⟨sc, hloop, hfailed⟩
  · obtain ⟨hmove, hA⟩ := hmove
    cases move with
    | environment event => exact nomatch event
    | thread i label =>
      obtain ⟨shared, control, hnext, rfl⟩ := Program.step_thread hmove
      by_cases hi : i = env
      · subst hi
        obtain ⟨ok, rfl⟩ := hA label rfl
        have hnext : (s.control i).next i (.resume ok) s.shared = some (shared, control) := hnext
        rw [hidle] at hnext
        cases hnext
      · exact ⟨hkept.step_other hs hwr hi hnext, .inl (by simpa [Ne.symm hi] using hidle)⟩
  · rcases hloop.step hs hwr hmove with ⟨sc', hloop', hcontinued⟩ | ⟨hover, _, _, hkept', hidle⟩
    · exact ⟨hloop'.signer, .inr ⟨sc', hloop', hcontinued.attempts hfailed⟩⟩
    · have hprogress := (hs.control env).2
      rw [hover] at hprogress
      have hstopped : sc.stopped = false := by
        apply eq_false_of_ne_true
        intro hall
        cases (Scan.Progress.stopped hprogress).mp hall _ hfailed
      exact ⟨hkept', .inl (hidle hstopped)⟩

/-- The thread of `env` makes the move. -/
def isMove (env : ℕ) : Label w → Bool
  | .thread i _ => i == env
  | .environment event => nomatch event

/-- An operation is over after a bounded number of steps of its own thread. -/
theorem continues_rank (ht : Ordered t)
    (hrun : Trace ((program w).Step (Continues env)) t moves u) :
    moves.countP (isMove env) + (u.control env).rank ≤ (t.control env).rank := by
  refine (hrun.countP_add_le (P := Ordered) (p := isMove env)
    (μ := fun s => (s.control env).rank) ?_ ht).2
  intro s move s' hs hmove
  refine ⟨hs.trace (.single hmove), ?_⟩
  obtain ⟨hmove, hA⟩ := hmove
  cases move with
  | environment event => exact nomatch event
  | thread i label =>
    obtain ⟨shared, control, hnext, rfl⟩ := Program.step_thread hmove
    by_cases hi : i = env
    · subst hi
      obtain ⟨ok, rfl⟩ := hA label rfl
      have hrank := next_rank hnext (hs.control i).1 (hs.control i).2
      simp only [isMove, beq_self_eq_true, if_true, Function.update_self]
      omega
    · simp [isMove, hi, Ne.symm hi]

/-- The teardown callback of a signer begins, with the scan `sc₀`. -/
structure Begins (env : ℕ) (callback : Callback w) (t t' : System w) (sc₀ : Scan w) : Prop where
  step : (program w).step t (.thread env (.teardown callback)) = some t'
  scan : t'.control env = .scan sc₀

theorem Begins.spec {callback : Callback w} {t' : System w} (h : Begins env callback t t' sc₀)
    (ht : Ordered t) : sc₀.start = t.shared.nodeIds env ∧
      ∃ wr, t'.shared.Holds env .signer sc₀.signer wr ∧ wr.id = callback.id := by
  obtain ⟨hstep, hscan⟩ := h
  obtain ⟨shared, control, hnext, rfl⟩ := Program.step_thread hstep
  obtain rfl : control = .scan sc₀ := by simpa using hscan
  replace hnext : (t.control env).next env (.teardown callback) t.shared =
      some (shared, .scan sc₀) := hnext
  unfold Control.next at hnext
  split at hnext
  · simp only [Control.begin, Option.ite_none_right_eq_some] at hnext
    obtain ⟨⟨hcb, rfl⟩, hnext⟩ := hnext
    split at hnext
    next => cases hnext
    next a ha =>
      obtain ⟨_, wr, hwr, hid⟩ := ht.shared.holds_of_callback hcb ha
      simp only [hwr.own, Option.map_some, Option.some.injEq, Prod.mk.injEq] at hnext
      obtain ⟨rfl, hcontrol⟩ := hnext
      cases hkind : callback.kind with
      | node =>
        rw [hkind] at hcontrol
        cases hcontrol
      | signer =>
        rw [hkind] at hcontrol
        obtain rfl := Control.scan.inj hcontrol
        refine ⟨congrArg t.shared.nodeIds hwr.env, { wr with teardownRegistered := false }, ?_, hid⟩
        exact ⟨Addon.write_heap_self .., hwr.env, hwr.kind.trans hkind⟩
  · cases hnext

/-- What holds of the teardown callbacks of signers in and from a state. -/
structure TeardownOrdered (t : System w) : Prop where
  nodesFirst : ∀ {env sc}, t.control env = .revoke sc → t.shared.nodeIds env = [] ∧
    ∀ {o}, .handed env .node (some o) ∈ t.shared.log →
      .nodeStopped (some o) true ∈ t.shared.log ∧ .freed .node (some o) ∈ t.shared.log
  retained : ∀ {env callback sc₀ sc id t' u v moves more}, Begins env callback t t' sc₀ →
    Trace ((program w).Step (Continues env)) t' moves u → (u.control env).scanning = some sc →
      (id, false) ∈ sc.attempts → Trace ((program w).Step (Continues env)) u more v →
        Undisturbed (At sc₀.signer) t'.shared v.shared ∧
          ∃ wr, v.shared.Holds env .signer sc₀.signer wr ∧ wr.id = callback.id
  isolated : ∀ {env other action u}, (program w).step t (.thread env action) = some u →
    other ≠ env → Undisturbed (InEnv other) t.shared u.shared
  attempted : ∀ {env callback sc₀ t' v moves}, Begins env callback t t' sc₀ →
    Trace ((program w).Step (Continues env)) t' moves v → (v.control env).scanning = none →
      ∃ first rest u, moves = first ++ rest ∧
        Trace ((program w).Step (Continues env)) t' first u ∧
          Exhausted env (t.shared.nodeIds env) u ∧
            Trace ((program w).Step (Continues env)) u rest v
  terminates : ∀ {env callback sc₀ t' u moves}, Begins env callback t t' sc₀ →
    Trace ((program w).Step (Continues env)) t' moves u →
      moves.countP (isMove env) ≤ 7 * (t.shared.nodeIds env).length + 5 ∧
        (u.control env ≠ .idle → ∀ ok, ∃ v, (program w).step u (.thread env (.resume ok)) = some v)

theorem Ordered.nodes_first (ht : Ordered t) (hrevoke : t.control env = .revoke sc) :
    t.shared.nodeIds env = [] ∧ ∀ {o}, .handed env .node (some o) ∈ t.shared.log →
      .nodeStopped (some o) true ∈ t.shared.log ∧ .freed .node (some o) ∈ t.shared.log := by
  have hscanned := (ht.control env).2
  rw [hrevoke] at hscanned
  have hnone := Scan.Complete.none_left hscanned
  refine ⟨hnone, fun hhanded => ?_⟩
  rcases ht.shared.kept hhanded with hdone | ⟨a, wr, hkept⟩
  · exact hdone
  · have hmem : wr.id ∈ t.shared.nodeIds env := by
      rw [Addon.mem_nodeIds]
      exact ⟨a, wr, hkept.registered, hkept.holds.own, hkept.holds.env, hkept.holds.kind, rfl⟩
    rw [hnone] at hmem
    cases hmem

theorem Ordered.retained {callback : Callback w} {t' : System w} {more : List (Label w)}
    (ht : Ordered t) (hbegins : Begins env callback t t' sc₀)
    (hrun : Trace ((program w).Step (Continues env)) t' moves u)
    (hscan : (u.control env).scanning = some sc) (hfailed : (id, false) ∈ sc.attempts)
    (hmore : Trace ((program w).Step (Continues env)) u more v) :
    Undisturbed (At sc₀.signer) t'.shared v.shared ∧
      ∃ wr, v.shared.Holds env .signer sc₀.signer wr ∧ wr.id = callback.id := by
  obtain ⟨_, wr, hwr, hid⟩ := hbegins.spec ht
  have ht' : Ordered t' := program_scans.step ht ⟨hbegins.step, trivial⟩
  rcases loop_exhausted ht' hwr hbegins.scan hrun with ⟨sc', hloop⟩ | ⟨hnone, _⟩
  · obtain rfl : sc' = sc := Option.some.inj (hloop.scanning.symm.trans hscan)
    have hkept := failed_spares_signer hwr (ht'.trace hrun) hloop hfailed hmore
    exact ⟨hkept, wr, ⟨(hkept.heap rfl).mpr hwr.own, hwr.env, hwr.kind⟩, hid⟩
  · cases hscan.symm.trans hnone

theorem Ordered.attempted {callback : Callback w} {t' : System w} (ht : Ordered t)
    (hbegins : Begins env callback t t' sc₀)
    (hrun : Trace ((program w).Step (Continues env)) t' moves v)
    (hnone : (v.control env).scanning = none) : ∃ first rest u, moves = first ++ rest ∧
      Trace ((program w).Step (Continues env)) t' first u ∧
        Exhausted env (t.shared.nodeIds env) u ∧
          Trace ((program w).Step (Continues env)) u rest v := by
  obtain ⟨hstart, wr, hwr, _⟩ := hbegins.spec ht
  have ht' : Ordered t' := program_scans.step ht ⟨hbegins.step, trivial⟩
  rcases loop_exhausted ht' hwr hbegins.scan hrun with ⟨sc, hloop⟩ | ⟨_, hover⟩
  · cases hloop.scanning.symm.trans hnone
  · rw [← hstart]
    exact hover

theorem Ordered.terminates {callback : Callback w} {t' : System w} (ht : Ordered t)
    (hbegins : Begins env callback t t' sc₀)
    (hrun : Trace ((program w).Step (Continues env)) t' moves u) :
    moves.countP (isMove env) ≤ 7 * (t.shared.nodeIds env).length + 5 ∧
      (u.control env ≠ .idle → ∀ ok, ∃ v,
        (program w).step u (.thread env (.resume ok)) = some v) := by
  have ht' : Ordered t' := program_scans.step ht ⟨hbegins.step, trivial⟩
  constructor
  · have hrank := continues_rank ht' hrun
    rw [hbegins.scan, Control.rank] at hrank
    have hahead : sc₀.ahead ≤ (t.shared.nodeIds env).length := by
      rw [← (hbegins.spec ht).1]
      exact (Finset.card_filter_le _ _).trans (List.toFinset_card_le _)
    omega
  · intro hidle ok
    obtain ⟨r, hr⟩ : ∃ r, (u.control env).next env (.resume ok) u.shared = some r :=
      next_enabled ((ht'.trace hrun).control env).1 hidle
    exact ⟨⟨r.1, Function.update u.control env r.2⟩, by simp [Program.step, program, hr]⟩

/-- Whatever the order of the callbacks and whatever fails, signers come after nodes. -/
theorem teardown_ordered
    (hrun : Trace ((program w).Step Program.Unrestricted) (initial w) moves t) :
    TeardownOrdered t := by
  have ht : Ordered t :=
    Ordered.trace ⟨initial_sound, fun _ => ⟨trivial, trivial⟩⟩ hrun
  exact {
    nodesFirst := ht.nodes_first
    retained := ht.retained
    isolated := fun {env other action u} hstep hne => by
      obtain ⟨shared, control, hnext, rfl⟩ := Program.step_thread hstep
      exact (next_sound hnext ht.shared (ht.control env).1).1.undisturbed ht.shared hne
    attempted := ht.attempted
    terminates := ht.terminates }

section Sample

/-- The callback of a signer goes through two nodes, while another environment puts a node of its
own at the address of the first. -/
def teardownMoves : List (Label 8) :=
  [.thread 1 (.wrapSigner (some 1)), .thread 1 (.resume true), .thread 1 (.resume true),
    .thread 1 (.resume true),
    .thread 1 (.wrapSdkNode (some 2)), .thread 1 (.resume true), .thread 1 (.resume true),
    .thread 1 (.resume true),
    .thread 1 (.wrapSdkNode (some 3)), .thread 1 (.resume true), .thread 1 (.resume true),
    .thread 1 (.resume true),
    .thread 1 (.teardown ⟨1, .signer, 1⟩), .thread 1 (.resume true), .thread 1 (.resume true),
    .thread 1 (.resume true), .thread 1 (.resume true), .thread 1 (.resume true),
    .thread 1 (.resume true), .thread 1 (.resume true),
    .thread 2 (.wrapSdkNode (some 2)), .thread 2 (.resume true), .thread 2 (.resume true),
    .thread 2 (.resume true),
    .thread 1 (.resume true), .thread 1 (.resume true), .thread 1 (.resume true),
    .thread 1 (.resume true), .thread 1 (.resume true), .thread 1 (.resume true),
    .thread 1 (.resume true), .thread 1 (.resume true)]

theorem teardown_ordered_sample : ∃ t : System 8,
    (program 8).run (initial 8) teardownMoves = some t ∧
      t.control 1 = .revoke ⟨1, 1, 3, true, [3, 2], [(3, true), (2, true)]⟩ ∧
        TeardownOrdered t := by
  refine ⟨_, rfl, rfl, ?_⟩
  exact @teardown_ordered 8 _ teardownMoves (Program.trace_of_run rfl)

end Sample

end RgbLightningNode.Handles
