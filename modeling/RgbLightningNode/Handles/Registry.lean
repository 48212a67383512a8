import Mathlib.Data.BitVec
import Mathlib.Logic.Function.Basic
import Mathlib.Tactic.Common

/-!
# The handle registry

Every native node or signer handed to JavaScript has a wrapper on the C heap, linked into one list
for all environments. A wrapper is known by its address and by a generation identity that is never
used again; an address can be.
-/

namespace RgbLightningNode.Handles

inductive HandleKind where
  | node
  | signer
  deriving DecidableEq, Repr

/-- `SdkNodeRef` and `SignerRef` with their `HandleEntry`. Only nodes have `shutdown_attempted`; in
a signer's record it stays false. The native object is `none` when the pointer is null. -/
structure Wrapper (w : ℕ) where
  env : ℕ
  kind : HandleKind
  id : BitVec w
  object : Option ℕ
  freed : Bool
  shutdownAttempted : Bool
  teardownRegistered : Bool
  deriving DecidableEq, Repr

/-- An entry of libjs's list of environment teardown callbacks. -/
structure Callback (w : ℕ) where
  env : ℕ
  kind : HandleKind
  id : BitVec w
  deriving DecidableEq, Repr

/-- What the addon did with native objects, and the errors it threw itself. -/
inductive Event (w : ℕ) where
  | registered (object : Option ℕ) (id : BitVec w)
  | handed (env : ℕ) (kind : HandleKind) (object : Option ℕ)
  | called (object : Option ℕ)
  | nodeStopped (object : Option ℕ) (ok : Bool)
  | signerStopped (object : Option ℕ) (ok : Bool)
  | freed (kind : HandleKind) (object : Option ℕ)
  | threw (code : Option String) (message : String)
  deriving DecidableEq, Repr

/-- The memory of the process; `w` is the width of `uintptr_t`. -/
structure Addon (w : ℕ) where
  heap : ℕ → Option (Wrapper w)
  handles : List ℕ
  nextHandleId : BitVec w
  callbacks : List (Callback w)
  created : ℕ
  log : List (Event w)

namespace Addon

variable {w : ℕ} (s : Addon w)

def record (e : Event w) : Addon w := { s with log := e :: s.log }

def write (a : ℕ) (wr : Wrapper w) : Addon w :=
  { s with heap := Function.update s.heap a (some wr) }

/-- `free(ref)` of the wrapper itself. -/
def release (a : ℕ) : Addon w := { s with heap := Function.update s.heap a none }

def register (a : ℕ) (wr : Wrapper w) : Addon w :=
  { s with
    heap := Function.update s.heap a (some { wr with id := s.nextHandleId })
    handles := a :: s.handles
    nextHandleId := s.nextHandleId + 1
    log := .registered wr.object s.nextHandleId :: s.log }

/-- `register_handle`; the counter stays at zero after it has wrapped. -/
def registerHandle (a : ℕ) (wr : Wrapper w) : Option (Addon w) :=
  if s.nextHandleId = 0 then none else some (s.register a wr)

def findFinalizerHandle (env data : ℕ) (hint : BitVec w) (kind : HandleKind) : Option ℕ :=
  s.handles.find? fun a => a == data &&
    (s.heap a).any fun wr => wr.id == hint && wr.env == env && wr.kind == kind

def findTeardownHandle (id : BitVec w) (kind : HandleKind) : Option ℕ :=
  s.handles.find? fun a => (s.heap a).any fun wr => wr.id == id && wr.kind == kind

def ownsHandle (env data : ℕ) (kind : HandleKind) : Bool :=
  (s.handles.find? (· == data)).any fun a =>
    (s.heap a).any fun wr => wr.env == env && wr.kind == kind

def unregisterHandle (a : ℕ) : Addon w := { s with handles := s.handles.erase a }

/-- The smallest node identity of `env` above the cursor, or zero. -/
def nextNode (env : ℕ) (cursor : BitVec w) : BitVec w :=
  s.handles.foldl (fun id a =>
    match s.heap a with
    | none => id
    | some wr =>
      if wr.env = env ∧ wr.kind = .node ∧ cursor < wr.id ∧ (id = 0 ∨ wr.id < id) then wr.id
      else id) 0

/-- The identities of the registered nodes of `env`. -/
def nodeIds (env : ℕ) : List (BitVec w) :=
  s.handles.filterMap fun a => (s.heap a).bind fun wr =>
    if wr.env = env ∧ wr.kind = .node then some wr.id else none

@[simp] theorem write_heap_self (a : ℕ) (wr : Wrapper w) : (s.write a wr).heap a = some wr :=
  Function.update_self ..

@[simp] theorem write_heap_of_ne {a b : ℕ} (wr : Wrapper w) (h : b ≠ a) :
    (s.write a wr).heap b = s.heap b :=
  Function.update_of_ne h ..

@[simp] theorem release_heap_self (a : ℕ) : (s.release a).heap a = none := Function.update_self ..

@[simp] theorem release_heap_of_ne {a b : ℕ} (h : b ≠ a) : (s.release a).heap b = s.heap b :=
  Function.update_of_ne h ..

theorem mem_nodeIds {env : ℕ} {id : BitVec w} : id ∈ s.nodeIds env ↔
    ∃ a wr, a ∈ s.handles ∧ s.heap a = some wr ∧ wr.env = env ∧ wr.kind = .node ∧ wr.id = id := by
  simp only [nodeIds, List.mem_filterMap, Option.bind_eq_some_iff, Option.ite_none_right_eq_some,
    Option.some.injEq]
  constructor
  · rintro ⟨a, ha, wr, hwr, ⟨henv, hkind⟩, hid⟩
    exact ⟨a, wr, ha, hwr, henv, hkind, hid⟩
  · rintro ⟨a, wr, ha, hwr, henv, hkind, hid⟩
    exact ⟨a, ha, wr, hwr, ⟨henv, hkind⟩, hid⟩

/-- The scan keeps the smallest identity above the cursor seen so far; zero stands for none. -/
def smaller (cursor id candidate : BitVec w) : BitVec w :=
  if cursor < candidate ∧ (id = 0 ∨ candidate < id) then candidate else id

theorem nextNode_eq (env : ℕ) (cursor : BitVec w) :
    s.nextNode env cursor = (s.nodeIds env).foldl (smaller cursor) 0 := by
  rw [nextNode, nodeIds, List.foldl_filterMap]
  congr 1
  funext id a
  cases h : s.heap a with
  | none => rfl
  | some wr =>
    by_cases hnode : wr.env = env ∧ wr.kind = .node
    · simp [smaller, hnode]
    · simp only [Option.bind_some, if_neg hnode]
      rw [if_neg]
      exact fun h => hnode ⟨h.1, h.2.1⟩

theorem ne_zero_of_lt {cursor id : BitVec w} (h : cursor < id) : id ≠ 0 := by
  rintro rfl
  exact BitVec.not_lt_zero h

theorem smaller_le {cursor id candidate : BitVec w} (h : id ≠ 0) :
    smaller cursor id candidate ≠ 0 ∧ smaller cursor id candidate ≤ id := by
  rw [smaller]
  split
  next hlt => exact ⟨ne_zero_of_lt hlt.1, BitVec.le_of_lt (hlt.2.resolve_left h)⟩
  next => exact ⟨h, BitVec.le_refl _⟩

theorem smaller_le_candidate {cursor id candidate : BitVec w} (h : cursor < candidate) :
    smaller cursor id candidate ≠ 0 ∧ smaller cursor id candidate ≤ candidate := by
  rw [smaller]
  split
  next => exact ⟨ne_zero_of_lt h, BitVec.le_refl _⟩
  next hnot =>
    rw [not_and, not_or, BitVec.not_lt] at hnot
    exact hnot h

theorem foldl_smaller_le {cursor acc : BitVec w} (ids : List (BitVec w)) (h : acc ≠ 0) :
    ids.foldl (smaller cursor) acc ≠ 0 ∧ ids.foldl (smaller cursor) acc ≤ acc := by
  induction ids generalizing acc with
  | nil => exact ⟨h, BitVec.le_refl _⟩
  | cons first ids ih =>
    obtain ⟨hne, hle⟩ : smaller cursor acc first ≠ 0 ∧ smaller cursor acc first ≤ acc :=
      smaller_le h
    exact ⟨(ih hne).1, BitVec.le_trans (ih hne).2 hle⟩

theorem foldl_smaller_le_mem {cursor acc id : BitVec w} {ids : List (BitVec w)} (h : id ∈ ids)
    (hid : cursor < id) :
    ids.foldl (smaller cursor) acc ≠ 0 ∧ ids.foldl (smaller cursor) acc ≤ id := by
  induction ids generalizing acc with
  | nil => cases h
  | cons first ids ih =>
    rcases List.mem_cons.mp h with rfl | h
    · obtain ⟨hne, hle⟩ : smaller cursor acc id ≠ 0 ∧ smaller cursor acc id ≤ id :=
        smaller_le_candidate hid
      exact (foldl_smaller_le ids hne).imp_right fun hfold => BitVec.le_trans hfold hle
    · exact ih h

theorem foldl_smaller_mem {cursor acc : BitVec w} (ids : List (BitVec w)) :
    ids.foldl (smaller cursor) acc = acc ∨
      ids.foldl (smaller cursor) acc ∈ ids ∧ cursor < ids.foldl (smaller cursor) acc := by
  induction ids generalizing acc with
  | nil => exact .inl rfl
  | cons first ids ih =>
    have hrest := @ih (smaller cursor acc first)
    rw [List.foldl_cons]
    rcases hrest with h | ⟨hmem, hlt⟩
    · rw [h, smaller]
      split
      next htaken => exact .inr ⟨List.mem_cons_self, htaken.1⟩
      next => exact .inl rfl
    · exact .inr ⟨List.mem_cons_of_mem _ hmem, hlt⟩

/-- The scan finds a node above the cursor unless there is none. -/
theorem nextNode_mem {env : ℕ} {cursor : BitVec w} (h : s.nextNode env cursor ≠ 0) :
    s.nextNode env cursor ∈ s.nodeIds env ∧ cursor < s.nextNode env cursor := by
  rw [nextNode_eq] at h ⊢
  exact (foldl_smaller_mem _).resolve_left h

/-- It finds the smallest one. -/
theorem nextNode_le {env : ℕ} {cursor id : BitVec w} (h : id ∈ s.nodeIds env) (hid : cursor < id) :
    s.nextNode env cursor ≠ 0 ∧ s.nextNode env cursor ≤ id := by
  rw [nextNode_eq]
  exact foldl_smaller_le_mem h hid

end Addon

end RgbLightningNode.Handles
