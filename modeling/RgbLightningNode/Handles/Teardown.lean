import Mathlib.Data.Finset.Card
import Mathlib.Data.List.Pairwise
import RgbLightningNode.Handles.Generations

/-!
# The order of an environment's teardown

The callback of a signer goes through the nodes of its environment by increasing identity and frees
those that stop. It touches its own signer only when none is left, whatever the other callbacks did
before it and whatever other environments do meanwhile.
-/

namespace RgbLightningNode.Handles
open Transition

variable {w : ℕ} {s s' : Addon w} {t u : System w} {env other a b : ℕ} {id cursor : BitVec w}
  {kind : HandleKind} {wr wr' : Wrapper w} {c c' : Control w} {action : Action w} {sc : Scan w}

/-- The same nodes of the environment are registered. -/
def SameNodes (env : ℕ) (s s' : Addon w) : Prop := ∀ id, id ∈ s'.nodeIds env ↔ id ∈ s.nodeIds env

theorem SameNodes.of_undisturbed (h : Undisturbed (InEnv env) s s') : SameNodes env s s' := by
  intro id
  simp only [Addon.mem_nodeIds]
  constructor
  · rintro ⟨a, wr, hmem, hwr, henv, hkind, hid⟩
    have hwr := (h.heap henv).mp hwr
    exact ⟨a, wr, (h.handles hwr henv).mp hmem, hwr, henv, hkind, hid⟩
  · rintro ⟨a, wr, hmem, hwr, henv, hkind, hid⟩
    exact ⟨a, wr, (h.handles hwr henv).mpr hmem, (h.heap henv).mpr hwr, henv, hkind, hid⟩

/-- A registered wrapper changes, but not what the scan reads of it. -/
theorem SameNodes.of_update (own : s.heap a = some wr)
    (hheap : s'.heap = Function.update s.heap a (some wr')) (hhandles : s'.handles = s.handles)
    (hid : wr'.id = wr.id) (henv : wr'.env = wr.env) (hkind : wr'.kind = wr.kind) :
    SameNodes env s s' := by
  intro id
  simp only [Addon.mem_nodeIds, hheap, hhandles]
  constructor
  · rintro ⟨b, x, hmem, hx, hxenv, hxkind, hxid⟩
    rcases Addon.heap_write (s := s) hx with ⟨rfl, rfl⟩ | ⟨_, hx⟩
    · exact ⟨b, wr, hmem, own, henv ▸ hxenv, hkind ▸ hxkind, hid ▸ hxid⟩
    · exact ⟨b, x, hmem, hx, hxenv, hxkind, hxid⟩
  · rintro ⟨b, x, hmem, hx, hxenv, hxkind, hxid⟩
    by_cases hba : b = a
    · subst hba
      obtain rfl : x = wr := Option.some.inj (hx.symm.trans own)
      exact ⟨b, wr', hmem, Function.update_self .., henv.trans hxenv, hkind.trans hxkind,
        hid.trans hxid⟩
    · exact ⟨b, x, hmem, (Function.update_of_ne hba ..).trans hx, hxenv, hxkind, hxid⟩

theorem SameNodes.release (gone : a ∉ s.handles) : SameNodes env s (s.release a) := by
  intro id
  simp only [Addon.mem_nodeIds]
  constructor
  · rintro ⟨b, x, hmem, hx, hrest⟩
    exact ⟨b, x, hmem, (Addon.heap_release hx).2, hrest⟩
  · rintro ⟨b, x, hmem, hx, hrest⟩
    have hba : b ≠ a := fun h => gone (h ▸ hmem)
    exact ⟨b, x, hmem, (Addon.release_heap_of_ne _ hba).trans hx, hrest⟩

theorem SameNodes.unregister_signer (hwr : s.Holds env .signer a wr) :
    SameNodes env s (s.unregisterHandle a) := by
  intro id
  simp only [Addon.mem_nodeIds]
  constructor
  · rintro ⟨b, x, hmem, hrest⟩
    exact ⟨b, x, List.mem_of_mem_erase hmem, hrest⟩
  · rintro ⟨b, x, hmem, hx, henv, hkind, hid⟩
    refine ⟨b, x, (List.mem_erase_of_ne ?_).mpr hmem, hx, henv, hkind, hid⟩
    rintro rfl
    obtain rfl : x = wr := Option.some.inj (hx.symm.trans hwr.own)
    cases hwr.kind.symm.trans hkind

/-- The identity of an unregistered node is gone from the environment's nodes. -/
theorem mem_nodeIds_unregister (hs : s.Sound) (hmem : a ∈ s.handles)
    (hwr : s.Holds env .node a wr) :
    id ∈ (s.unregisterHandle a).nodeIds env ↔ id ∈ s.nodeIds env ∧ id ≠ wr.id := by
  simp only [Addon.mem_nodeIds, Addon.unregisterHandle, hs.nodup.mem_erase_iff]
  constructor
  · rintro ⟨b, x, ⟨hba, hb⟩, hx, hxenv, hxkind, rfl⟩
    exact ⟨⟨b, x, hb, hx, hxenv, hxkind, rfl⟩, fun h => hba (hs.distinct hb hmem hx hwr.own h)⟩
  · rintro ⟨⟨b, x, hb, hx, hxenv, hxkind, rfl⟩, hne⟩
    refine ⟨b, x, ⟨?_, hb⟩, hx, hxenv, hxkind, rfl⟩
    rintro rfl
    exact hne (congrArg Wrapper.id (Option.some.inj (hx.symm.trans hwr.own)))

theorem ne_zero_of_mem_nodeIds (hs : s.Sound) (h : id ∈ s.nodeIds env) : id ≠ 0 := by
  obtain ⟨a, wr, hmem, hwr, _, _, rfl⟩ := s.mem_nodeIds.mp h
  exact ((hs.wrapper hwr).issued hmem).1

/-- The identities attempted so far, newest first. -/
def Scan.ids (sc : Scan w) : List (BitVec w) := sc.attempts.map Prod.fst

/-- Where the scan is: the nodes tried so far, newest first, and the one it is working on. -/
structure Scan.Progress (env : ℕ) (s : Addon w) (sc : Scan w) (tried active : List (BitVec w)) :
    Prop where
  own : sc.env = env
  ordered : tried.Pairwise (· > ·)
  bounded : ∀ id ∈ tried, id ≤ sc.cursor
  start : ∀ id, id ∈ sc.start ↔ id ∈ tried ∨ sc.cursor < id ∧ id ∈ s.nodeIds env
  below : ∀ id ∈ s.nodeIds env, id ≤ sc.cursor → (id, false) ∈ sc.attempts ∨ id ∈ active
  stopped : sc.stopped = true ↔ ∀ attempt ∈ sc.attempts, attempt.2 = true

namespace Scan.Progress

variable {tried active : List (BitVec w)}

theorem congr (h : sc.Progress env s tried active) (hsame : SameNodes env s s') :
    sc.Progress env s' tried active where
  own := h.own
  ordered := h.ordered
  bounded := h.bounded
  start id := by
    rw [hsame]
    exact h.start id
  below id hid := h.below id ((hsame id).mp hid)
  stopped := h.stopped

/-- The scan starts with every node of the environment ahead of it. -/
theorem init (env : ℕ) (hs : s.Sound) (signer : ℕ) :
    (⟨signer, env, 0, true, s.nodeIds env, []⟩ : Scan w).Progress env s [] [] where
  own := rfl
  ordered := .nil
  bounded := nofun
  start id := by
    simp only [List.not_mem_nil, false_or]
    refine ⟨fun h => ⟨?_, h⟩, And.right⟩
    exact BitVec.lt_of_le_ne (BitVec.not_lt.mp BitVec.not_lt_zero)
      (ne_zero_of_mem_nodeIds hs h).symm
  below id hid hle := absurd (BitVec.le_zero_iff.mp hle) (ne_zero_of_mem_nodeIds hs hid)
  stopped := by simp

/-- The cursor moves to the next node. -/
theorem advance (h : sc.Progress env s tried []) (hnext : s.nextNode env sc.cursor ≠ 0) :
    ({ sc with cursor := s.nextNode env sc.cursor } : Scan w).Progress env s
      (s.nextNode env sc.cursor :: tried) [s.nextNode env sc.cursor] := by
  obtain ⟨hmem, hlt⟩ := s.nextNode_mem hnext
  have hbelow {x : BitVec w} (hx : x ∈ s.nodeIds env) (hcursor : sc.cursor < x) :
      s.nextNode env sc.cursor ≤ x := (s.nextNode_le hx hcursor).2
  refine ⟨h.own, List.pairwise_cons.mpr ⟨fun x hx => ?_, h.ordered⟩, ?_, fun x => ?_, ?_, h.stopped⟩
  · exact Nat.lt_of_le_of_lt (h.bounded x hx) hlt
  · intro x hx
    rcases List.mem_cons.mp hx with rfl | hx
    · exact BitVec.le_refl _
    · exact BitVec.le_of_lt (Nat.lt_of_le_of_lt (h.bounded x hx) hlt)
  · rw [h.start, List.mem_cons]
    constructor
    · rintro (hx | ⟨hcursor, hx⟩)
      · exact .inl (.inr hx)
      · by_cases heq : x = s.nextNode env sc.cursor
        · exact .inl (.inl heq)
        · exact .inr ⟨BitVec.lt_of_le_ne (hbelow hx hcursor) (Ne.symm heq), hx⟩
    · rintro ((rfl | hx) | ⟨hcursor, hx⟩)
      · exact .inr ⟨hlt, hmem⟩
      · exact .inl hx
      · exact .inr ⟨BitVec.lt_trans hlt hcursor, hx⟩
  · intro x hx hle
    by_cases hcursor : x ≤ sc.cursor
    · exact .inl ((h.below x hx hcursor).resolve_right nofun)
    · have hx' := hbelow hx (BitVec.not_le.mp hcursor)
      exact .inr (List.mem_singleton.mpr (BitVec.le_antisymm hle hx'))

/-- The outcome of an attempt is recorded. -/
theorem failed (h : sc.Progress env s (sc.cursor :: sc.ids) [sc.cursor]) :
    ({ sc with attempts := (sc.cursor, false) :: sc.attempts, stopped := false } :
      Scan w).Progress env s (sc.cursor :: sc.ids) [] where
  own := h.own
  ordered := h.ordered
  bounded := h.bounded
  start := h.start
  below id hid hle := by
    rcases h.below id hid hle with hfalse | hactive
    · exact .inl (List.mem_cons_of_mem _ hfalse)
    · rw [List.mem_singleton.mp hactive]
      exact .inl List.mem_cons_self
  stopped := by simp

theorem succeeded (h : sc.Progress env s (sc.cursor :: sc.ids) [sc.cursor]) :
    ({ sc with attempts := (sc.cursor, true) :: sc.attempts } : Scan w).Progress env s
      (sc.cursor :: sc.ids) [sc.cursor] where
  own := h.own
  ordered := h.ordered
  bounded := h.bounded
  start := h.start
  below id hid hle := (h.below id hid hle).imp_left (List.mem_cons_of_mem _)
  stopped := by simpa using h.stopped

theorem unregister (hs : s.Sound) (h : sc.Progress env s tried [sc.cursor]) (hmem : a ∈ s.handles)
    (hwr : s.Holds env .node a wr) (hid : wr.id = sc.cursor) :
    sc.Progress env (s.unregisterHandle a) tried [] where
  own := h.own
  ordered := h.ordered
  bounded := h.bounded
  start id := by
    rw [h.start, mem_nodeIds_unregister hs hmem hwr, hid]
    refine or_congr_right (and_congr_right fun hlt => (and_iff_left ?_).symm)
    rintro rfl
    exact BitVec.lt_irrefl _ hlt
  below id hid' hle := by
    obtain ⟨hid', hne⟩ := (mem_nodeIds_unregister hs hmem hwr).mp hid'
    refine .inl ((h.below id hid' hle).resolve_right fun hactive => hne ?_)
    exact (List.mem_singleton.mp hactive).trans hid.symm
  stopped := h.stopped

/-- When the scan finds no more nodes and all have stopped, none is left. -/
theorem nodeIds_eq_nil (h : sc.Progress env s tried []) (hnext : s.nextNode env sc.cursor = 0)
    (hstopped : sc.stopped = true) : s.nodeIds env = [] := by
  rw [List.eq_nil_iff_forall_not_mem]
  intro id hid
  by_cases hcursor : id ≤ sc.cursor
  · have hfalse := (h.below id hid hcursor).resolve_right nofun
    cases h.stopped.mp hstopped _ hfalse
  · exact (s.nextNode_le hid (BitVec.not_le.mp hcursor)).1 hnext

/-- It has then tried exactly the nodes that were there at the start. -/
theorem tried_all (h : sc.Progress env s tried active) (hnext : s.nextNode env sc.cursor = 0) :
    id ∈ sc.start ↔ id ∈ tried := by
  rw [h.start, or_iff_left]
  rintro ⟨hlt, hid⟩
  exact (s.nextNode_le hid hlt).1 hnext

end Scan.Progress

/-- The scan is over, all nodes have stopped and none is registered. -/
structure Scan.Complete (env : ℕ) (s : Addon w) (sc : Scan w) : Prop where
  progress : sc.Progress env s sc.ids []
  stopped : sc.stopped = true
  none_left : s.nodeIds env = []

theorem Scan.Complete.congr (h : sc.Complete env s) (hsame : SameNodes env s s') :
    sc.Complete env s' where
  progress := h.progress.congr hsame
  stopped := h.stopped
  none_left := by
    rw [List.eq_nil_iff_forall_not_mem]
    intro id hid
    rw [hsame, h.none_left] at hid
    cases hid

/-- A scan works on the registered node at the cursor. -/
def Scan.Works (env : ℕ) (s : Addon w) (a : ℕ) (sc : Scan w) : Prop :=
  ∃ wr, a ∈ s.handles ∧ s.Holds env .node a wr ∧ wr.id = sc.cursor

theorem Scan.Works.undisturbed (h : sc.Works env s a) (hs : Undisturbed (InEnv env) s s') :
    sc.Works env s' a := by
  obtain ⟨wr, hmem, hwr, hid⟩ := h
  exact ⟨wr, (hwr.mem_iff hs).mpr hmem, hwr.undisturbed hs, hid⟩

/-- What a thread in a signer's teardown callback knows of the nodes. -/
def Control.Scanned (env : ℕ) (s : Addon w) : Control w → Prop
  | .scan sc => sc.Progress env s sc.ids []
  | .attempt sc id => id = sc.cursor ∧ sc.Progress env s (sc.cursor :: sc.ids) [sc.cursor]
  | .stopNode a (.scan sc) | .freeNode a (.scan sc) | .nodeStopped a (.scan sc) =>
    sc.Works env s a ∧ sc.Progress env s (sc.cursor :: sc.ids) [sc.cursor]
  | .unregisterNode a (.scan sc) => sc.Works env s a ∧ sc.Progress env s sc.ids [sc.cursor]
  | .releaseNode _ (.scan sc) => sc.Progress env s sc.ids []
  | .revoke sc | .freeSigner _ (.teardown sc) | .unregisterSigner _ (.teardown sc)
  | .releaseSigner _ (.teardown sc) => sc.Complete env s
  | _ => True

theorem Control.Scanned.undisturbed (h : c.Scanned env s) (hs : Undisturbed (InEnv env) s s') :
    c.Scanned env s' := by
  have hsame := SameNodes.of_undisturbed hs
  cases c with
  | scan sc => exact Scan.Progress.congr h hsame
  | attempt sc id => exact ⟨h.1, h.2.congr hsame⟩
  | stopNode a caller | freeNode a caller | nodeStopped a caller | unregisterNode a caller =>
    cases caller with
    | scan sc => exact ⟨h.1.undisturbed hs, h.2.congr hsame⟩
    | _ => trivial
  | releaseNode a caller =>
    cases caller with
    | scan sc => exact Scan.Progress.congr h hsame
    | _ => trivial
  | revoke sc => exact Scan.Complete.congr h hsame
  | freeSigner a caller | unregisterSigner a caller | releaseSigner a caller =>
    cases caller with
    | teardown sc => exact Scan.Complete.congr h hsame
    | _ => trivial
  | _ => trivial

/-- Only the teardown callback of a signer starts a scan. -/
theorem begin_scanned (h : Control.begin env s action = some (s', c')) (hs : s.Sound) :
    c'.Scanned env s' := by
  cases action with
  | teardown callback =>
    simp only [Control.begin, Option.ite_none_right_eq_some] at h
    obtain ⟨⟨hcb, rfl⟩, h⟩ := h
    split at h
    next =>
      cases h
      trivial
    next a ha =>
      obtain ⟨hmem, wr, hwr, hid⟩ := hs.holds_of_callback hcb ha
      simp only [hwr.own, Option.map_some, Option.some.injEq, Prod.mk.injEq] at h
      obtain ⟨rfl, rfl⟩ := h
      have hsame :
        SameNodes callback.env s ({ s with callbacks := s.callbacks.erase callback }.write a
          { wr with teardownRegistered := false }) := .of_update hwr.own rfl rfl rfl rfl rfl
      cases callback.kind with
      | node => trivial
      | signer =>
        have hinit := (Scan.Progress.init callback.env hs a).congr hsame
        rw [← hwr.env] at hinit ⊢
        exact hinit
  | wrapSdkNode address | wrapSigner address =>
    cases address with
    | none =>
      cases h
      trivial
    | some a =>
      simp only [Control.begin, Option.ite_none_right_eq_some, Option.some.injEq,
        Prod.mk.injEq] at h
      obtain ⟨_, _, rfl⟩ := h
      trivial
  | signerDestructor data hint =>
    simp only [Control.begin] at h
    split at h
    · cases h
      trivial
    · obtain ⟨wr, _, h⟩ := Option.map_eq_some_iff.mp h
      cases h
      trivial
  | resume ok => cases h
  | _ =>
    simp only [Control.begin] at h
    (repeat' split at h) <;> cases h <;> trivial

theorem wrapNode_scanned {ok : Bool} (h : c.wrapNode env s ok = some (s', c')) :
    c'.Scanned env s' := by
  cases c with
  | registerNode a | addNodeCallback a | createNodeExternal a =>
    obtain ⟨wr, _, h⟩ := Option.map_eq_some_iff.mp h
    split at h <;> cases h <;> trivial
  | rollbackNode a failure =>
    cases h
    trivial
  | _ => cases h

theorem callNative_scanned {ok : Bool} (h : c.callNative s ok = some (s', c')) :
    c'.Scanned env s' := by
  cases c with
  | call targets =>
    simp only [Control.callNative] at h
    split at h <;> cases h <;> trivial
  | shutdownSigner a =>
    obtain ⟨wr, _, h⟩ := Option.map_eq_some_iff.mp h
    cases h
    trivial
  | _ => cases h

theorem wrapSigner_scanned {ok : Bool} (h : c.wrapSigner env s ok = some (s', c')) :
    c'.Scanned env s' := by
  cases c with
  | registerSigner a | addSignerCallback a | createSignerExternal a =>
    obtain ⟨wr, _, h⟩ := Option.map_eq_some_iff.mp h
    split at h <;> cases h <;> trivial
  | rollbackSigner a failure =>
    cases h
    trivial
  | discardSigner a failure =>
    obtain ⟨wr, _, h⟩ := Option.map_eq_some_iff.mp h
    cases h
    trivial
  | _ => cases h

theorem stopNodes_scanned {ok : Bool} (h : c.stopNodes s ok = some (s', c')) (hs : s.Sound)
    (hc : c.Sound env s) (hscanned : c.Scanned env s) : c'.Scanned env s' := by
  cases c with
  | stopNode a caller =>
    obtain ⟨wr, hwr, _⟩ := hc
    simp only [Control.stopNodes, hwr.own, Option.map_some, Option.some.injEq] at h
    cases caller with
    | scan sc =>
      obtain ⟨⟨wr', hmem, hwr', hid⟩, hprogress⟩ := hscanned
      obtain rfl : wr' = wr := Option.some.inj (hwr'.own.symm.trans hwr.own)
      split at h
      · cases h
        exact ⟨⟨wr', hmem, hwr', hid⟩, hprogress⟩
      split at h
      · cases h
        exact ⟨⟨wr', hmem, hwr', hid⟩, hprogress⟩
      split at h <;> cases h
      · refine ⟨⟨{ wr' with shutdownAttempted := true }, hmem, ?_, hid⟩, ?_⟩
        · exact ⟨Addon.write_heap_self .., hwr.env, hwr.kind⟩
        · exact hprogress.congr (.of_update hwr.own rfl rfl rfl rfl rfl)
      · exact ⟨⟨wr', hmem, ⟨hwr.own, hwr.env, hwr.kind⟩, hid⟩, hprogress.congr fun _ => Iff.rfl⟩
    | _ => (repeat' split at h) <;> cases h <;> trivial
  | freeNode a caller =>
    obtain ⟨wr, hwr, _⟩ := hc
    simp only [Control.stopNodes, hwr.own, Option.map_some, Option.some.injEq, Prod.mk.injEq] at h
    obtain ⟨rfl, rfl⟩ := h
    cases caller with
    | scan sc =>
      obtain ⟨⟨wr', hmem, hwr', hid⟩, hprogress⟩ := hscanned
      obtain rfl : wr' = wr := Option.some.inj (hwr'.own.symm.trans hwr.own)
      refine ⟨⟨{ wr' with object := none, freed := true }, hmem, ?_, hid⟩, ?_⟩
      · exact ⟨Addon.write_heap_self .., hwr.env, hwr.kind⟩
      · exact hprogress.congr (.of_update hwr.own rfl rfl rfl rfl rfl)
    | _ => trivial
  | nodeStopped a caller =>
    obtain ⟨wr, hwr, _⟩ := hc
    simp only [Control.stopNodes, hwr.own, Option.map_some, Option.some.injEq] at h
    cases caller with
    | scan sc =>
      obtain ⟨⟨wr', hmem, hwr', hid⟩, hprogress⟩ := hscanned
      obtain rfl : wr' = wr := Option.some.inj (hwr'.own.symm.trans hwr.own)
      simp only at h
      split at h
      next hfreed =>
        cases h
        rw [hfreed, hid]
        exact ⟨⟨wr', hmem, hwr', hid⟩, hprogress.succeeded⟩
      next hlive =>
        cases h
        rw [eq_false_of_ne_true hlive, hid]
        exact hprogress.failed
    | wrap failure =>
      cases h
      trivial
    | _ => (repeat' split at h) <;> cases h <;> trivial
  | unregisterNode a caller =>
    cases h
    cases caller with
    | scan sc =>
      obtain ⟨⟨wr, hmem, hwr, hid⟩, hprogress⟩ := hscanned
      exact hprogress.unregister hs hmem hwr hid
    | _ => trivial
  | releaseNode a caller =>
    obtain ⟨_, _, hgone, _⟩ := hc
    cases caller with
    | scan sc =>
      cases h
      exact Scan.Progress.congr hscanned (.release hgone)
    | wrap | teardown | finalizer | destroy =>
      cases h
      trivial
  | shutdownNode a =>
    obtain ⟨wr, hwr, _⟩ := hc
    simp only [Control.stopNodes, hwr.own, Option.map_some, Option.some.injEq] at h
    split at h <;> cases h <;> trivial
  | _ => cases h

/-- Revoking, freeing and unregistering a signer changes no node. -/
theorem freeSigners_scanned (h : c.freeSigners s = some (s', c')) (hc : c.Sound env s)
    (hscanned : c.Scanned env s) : c'.Scanned env s' := by
  cases c with
  | freeSigner a caller =>
    obtain ⟨wr, hwr, _⟩ := hc
    simp only [Control.freeSigners, hwr.own, Option.map_some, Option.some.injEq,
      Prod.mk.injEq] at h
    obtain ⟨rfl, rfl⟩ := h
    cases caller with
    | teardown sc =>
      refine Scan.Complete.congr hscanned ?_
      split
      · exact fun _ => Iff.rfl
      · exact .of_update hwr.own rfl rfl rfl rfl rfl
    | _ => trivial
  | unregisterSigner a caller =>
    obtain ⟨wr, hwr, _⟩ := hc
    cases h
    cases caller with
    | teardown sc => exact Scan.Complete.congr hscanned (.unregister_signer hwr)
    | _ => trivial
  | releaseSigner a caller =>
    cases h
    trivial
  | _ => cases h

theorem scanNodes_scanned {ok : Bool} (h : c.scanNodes s ok = some (s', c')) (hs : s.Sound)
    (hc : c.Sound env s) (hscanned : c.Scanned env s) : c'.Scanned env s' := by
  cases c with
  | scan sc =>
    obtain ⟨rfl, hmem, wr, hwr⟩ := hc
    simp only [Control.scanNodes, hwr.own, Option.map_some] at h
    by_cases hnext : s.nextNode sc.env sc.cursor = 0
    · rw [if_pos hnext] at h
      split at h
      next hstopped =>
        cases h
        have hcomplete : sc.Complete sc.env s :=
          ⟨hscanned, hstopped, Scan.Progress.nodeIds_eq_nil hscanned hnext hstopped⟩
        split <;> exact hcomplete
      next =>
        cases h
        trivial
    · rw [if_neg hnext] at h
      cases h
      exact ⟨rfl, Scan.Progress.advance hscanned hnext⟩
  | attempt sc id =>
    obtain ⟨_, a, wr, hmem, hwr, hid⟩ := hc
    obtain ⟨hcursor, hprogress⟩ := hscanned
    have hfind := hs.findTeardownHandle_self hmem hwr
    simp only [Control.scanNodes, ← hid, hfind, Option.some.injEq, Prod.mk.injEq] at h
    obtain ⟨rfl, rfl⟩ := h
    exact ⟨⟨wr, hmem, hwr, hid.trans hcursor⟩, hprogress⟩
  | revoke sc =>
    obtain ⟨_, _, wr, hwr, _⟩ := hc
    simp only [Control.scanNodes, hwr.own, Option.map_some, Option.some.injEq,
      Prod.mk.injEq] at h
    obtain ⟨rfl, rfl⟩ := h
    split
    · exact Scan.Complete.congr hscanned fun _ => Iff.rfl
    · trivial
  | _ => cases h

theorem next_scanned (h : c.next env action s = some (s', c')) (hs : s.Sound)
    (hc : c.Sound env s) (hscanned : c.Scanned env s) : c'.Scanned env s' := by
  unfold Control.next at h
  split at h
  · exact begin_scanned h hs
  · cases action with
    | resume ok =>
      simp only [Option.or_eq_some_iff] at h
      rcases h with h | ⟨_, h | ⟨_, h | ⟨_, h | ⟨_, h | ⟨_, h⟩⟩⟩⟩⟩
      · exact wrapNode_scanned h
      · exact stopNodes_scanned h hs hc hscanned
      · exact callNative_scanned h
      · exact wrapSigner_scanned h
      · exact freeSigners_scanned h hc hscanned
      · exact scanNodes_scanned h hs hc hscanned
    | _ => cases h

/-- The invariant of every thread, with what it knows of the nodes it goes through. -/
theorem program_scans : (program w).Preserves Program.Unrestricted Addon.Sound
    fun env s c => c.Sound env s ∧ c.Scanned env s where
  shared _ hs h := (next_sound h hs.shared (hs.control _).1).1.sound hs.shared
  own _ hs h := by
    obtain ⟨hc, hscanned⟩ := hs.control _
    exact ⟨(next_sound h hs.shared hc).2, next_scanned h hs.shared hc hscanned⟩
  other {s i j label _ _} _ hs hj h := by
    obtain ⟨hc, hscanned⟩ := hs.control j
    have heffects := (next_sound h hs.shared (hs.control i).1).1
    have hundisturbed := heffects.undisturbed hs.shared hj
    exact ⟨hc.undisturbed hundisturbed, hscanned.undisturbed hundisturbed⟩
  environment {_ event _} _ _ _ := nomatch event

end RgbLightningNode.Handles
