import Mathlib.Data.Finset.Insert
import Mathlib.Data.Finset.Erase
import Mathlib.Tactic.Common

/-!
# A reader/writer lock with poisoning

The lock knows which threads hold a guard. A panic under the exclusive guard poisons it; a panic
under a shared guard does not.
-/

namespace RgbLightningNode.Concurrency

structure RwLock (ι α : Type) where
  content : α
  readers : Finset ι
  writer : Option ι
  poisoned : Bool
  exclusive : writer ≠ none → readers = ∅

namespace RwLock

variable {ι α : Type}

def new (content : α) : RwLock ι α := ⟨content, ∅, none, false, fun _ => rfl⟩

def Reads (l : RwLock ι α) (i : ι) : Prop := i ∈ l.readers

def Writes (l : RwLock ι α) (i : ι) : Prop := l.writer = some i

/-- Thread `i` holds no guard. -/
def Free (l : RwLock ι α) (i : ι) : Prop := ¬l.Reads i ∧ ¬l.Writes i

theorem Reads.writer {l : RwLock ι α} {i : ι} (h : l.Reads i) : l.writer = none := by
  by_contra hw
  simp [Reads, l.exclusive hw] at h

theorem Reads.not_writes {l : RwLock ι α} {i j : ι} (h : l.Reads i) : ¬l.Writes j := by
  simp [Writes, h.writer]

theorem Writes.not_reads {l : RwLock ι α} {i j : ι} (h : l.Writes i) : ¬l.Reads j :=
  fun hr => hr.not_writes h

theorem Writes.eq {l : RwLock ι α} {i j : ι} (h : l.Writes i) (h' : l.Writes j) : i = j :=
  Option.some.inj (h.symm.trans h')

/-- The change made by the holder of the exclusive guard. -/
def put (l : RwLock ι α) (content : α) : RwLock ι α := { l with content }

def clearPoison (l : RwLock ι α) : RwLock ι α := { l with poisoned := false }

def poison (l : RwLock ι α) : RwLock ι α := { l with poisoned := true }

def releaseWrite (l : RwLock ι α) (panicking : Bool) : RwLock ι α :=
  { l with writer := none, poisoned := l.poisoned || panicking, exclusive := by simp }

/-- What the other threads see of a lock operation of thread `i`. -/
structure Keeps (i : ι) (l l' : RwLock ι α) : Prop where
  reads : ∀ {j}, j ≠ i → (l'.Reads j ↔ l.Reads j)
  writes : ∀ {j}, j ≠ i → (l'.Writes j ↔ l.Writes j)

variable {l l' : RwLock ι α} {i : ι}

theorem keeps_same (hr : l'.readers = l.readers) (hw : l'.writer = l.writer) : Keeps i l l' :=
  ⟨fun _ => by rw [Reads, Reads, hr], fun _ => by rw [Writes, Writes, hw]⟩

theorem releaseWrite_free (h : l.Writes i) (panicking : Bool) :
    (l.releaseWrite panicking).Free i :=
  ⟨h.not_reads, by simp [Writes, releaseWrite]⟩

theorem releaseWrite_keeps (h : l.Writes i) (panicking : Bool) :
    Keeps i l (l.releaseWrite panicking) := by
  refine ⟨fun _ => Iff.rfl, fun hj => iff_of_false (by simp [Writes, releaseWrite]) ?_⟩
  exact fun hw => hj (h.eq hw).symm

variable [DecidableEq ι]

def read (l : RwLock ι α) (i : ι) : Option (RwLock ι α) :=
  if h : l.writer = none then
    some { l with readers := insert i l.readers, exclusive := fun hw => absurd h hw }
  else none

def write (l : RwLock ι α) (i : ι) : Option (RwLock ι α) :=
  if h : l.writer = none ∧ l.readers = ∅ then
    some { l with writer := some i, exclusive := fun _ => h.2 }
  else none

def releaseRead (l : RwLock ι α) (i : ι) : RwLock ι α :=
  { l with readers := l.readers.erase i, exclusive := fun hw => by simp [l.exclusive hw] }

/-- A shared guard is granted while nobody holds the exclusive one. -/
structure Shared (i : ι) (l l' : RwLock ι α) : Prop where
  content : l'.content = l.content
  poisoned : l'.poisoned = l.poisoned
  reads : l'.Reads i
  idle : l.writer = none
  keeps : Keeps i l l'

theorem read_spec (h : l.read i = some l') : Shared i l l' := by
  by_cases hw : l.writer = none
  · simp only [read, hw, dif_pos, Option.some.injEq] at h
    subst h
    refine ⟨rfl, rfl, Finset.mem_insert_self i _, hw, fun hj => ?_, fun _ => by simp [Writes, hw]⟩
    exact Finset.mem_insert.trans (or_iff_right hj)
  · simp [read, hw] at h

/-- The exclusive guard is granted while nobody holds any guard. -/
structure Exclusive (i : ι) (l l' : RwLock ι α) : Prop where
  content : l'.content = l.content
  poisoned : l'.poisoned = l.poisoned
  writes : l'.Writes i
  idle : l.writer = none
  drained : l.readers = ∅
  keeps : Keeps i l l'

theorem write_spec (h : l.write i = some l') : Exclusive i l l' := by
  by_cases hw : l.writer = none ∧ l.readers = ∅
  · simp only [write, hw, and_self, dif_pos, Option.some.injEq] at h
    subst h
    refine ⟨rfl, rfl, rfl, hw.1, hw.2, fun _ => by simp [Reads, hw.2], fun hj => ?_⟩
    exact iff_of_false (fun hi => hj (Option.some.inj hi).symm) (by simp [Writes, hw.1])
  · simp [write, hw] at h

theorem releaseRead_free (h : l.Reads i) : (l.releaseRead i).Free i :=
  ⟨by simp [Reads, releaseRead], h.not_writes⟩

theorem releaseRead_keeps : Keeps i l (l.releaseRead i) :=
  ⟨fun hj => by simp [Reads, releaseRead, hj], fun _ => Iff.rfl⟩

end RwLock

end RgbLightningNode.Concurrency
