import Mathlib.Data.Set.BooleanAlgebra
import Mathlib.Order.CompletePartialOrder
import RgbLightningNode.Faulty.Respects
import RgbLightningNode.FileSystem.Disk

/-!
# File operations that stay within a set of paths

Two trees look the same from a set of paths when they hold the same nodes there. Each operation on
paths of the set respects that relation.
-/

namespace RgbLightningNode.FileSystem
open Faulty

/-- The two trees hold the same nodes at the paths of `K`. -/
def Tree.AgreeOn (K : Set Path) (t t' : Tree) : Prop := ∀ q ∈ K, t'.node q = t.node q

/-- Paths directly below the root, whose parent always exists. -/
def Toplevel (K : Set Path) : Prop := ∀ q ∈ K, q.dropLast = []

namespace Tree.AgreeOn

variable {K : Set Path} {t t' : Tree} {p : Path}

theorem put (h : AgreeOn K t t') (p : Path) (n : Node) : AgreeOn K (t.put p n) (t'.put p n) := by
  intro q hq
  by_cases heq : q = p
  · rw [heq, put_node_self, put_node_self]
  · rw [put_node_of_ne _ _ heq, put_node_of_ne _ _ heq, h q hq]

theorem erase (h : AgreeOn K t t') (p : Path) : AgreeOn K (t.erase p) (t'.erase p) := by
  intro q hq
  by_cases heq : q = p
  · rw [heq, erase_node_self, erase_node_self]
  · rw [erase_node_of_ne _ heq, erase_node_of_ne _ heq, h q hq]

end Tree.AgreeOn

/-- A change off the paths of `K` cannot be seen from them. -/
theorem Tree.AgreeOff.agreeOn {S K : Set Path} {t t' : Tree} (h : t.AgreeOff S t')
    (hdisjoint : Disjoint S K) : t.AgreeOn K t' :=
  fun q hq => h q (Set.disjoint_right.mp hdisjoint hq)

section Operations

variable {K : Set Path} {p : Path}

theorem hasParent_of_toplevel {t : Tree} (h : p.dropLast = []) : t.hasParent p = true := by
  simp [Tree.hasParent, h]

theorem respects_symlinkMetadata (hp : p ∈ K) :
    Respects (Tree.AgreeOn K) (symlinkMetadata p) := by
  apply respects_primitive
  intro _ t t' h
  rw [h p hp]
  cases t.node p with
  | none => exact ⟨rfl, h⟩
  | some n => exact ⟨rfl, h⟩

theorem respects_readToEnd (hp : p ∈ K) : Respects (Tree.AgreeOn K) (readToEnd p) := by
  apply respects_primitive
  intro _ t t' h
  rw [h p hp]
  split
  · exact ⟨rfl, h⟩
  · exact ⟨rfl, h⟩
  · exact ⟨rfl, h⟩

theorem respects_pathExists (hp : p ∈ K) : Respects (Tree.AgreeOn K) (pathExists p) := by
  apply respects_step
  rintro ⟨fate, n⟩ t t' h
  cases fate with
  | proceed => exact ⟨by simp only [h p hp], h⟩
  | refuse => exact ⟨rfl, h⟩
  | panic => exact ⟨rfl, h⟩
  | die => exact ⟨rfl, h⟩

theorem respects_syncAll : Respects (Tree.AgreeOn K) (syncAll p) :=
  respects_primitive fun _ _ _ h => ⟨rfl, h⟩

theorem respects_createNew {mode : ℕ} (hp : p ∈ K) (htop : Toplevel K) :
    Respects (Tree.AgreeOn K) (createNew p mode) := by
  apply respects_primitive
  intro _ t t' h
  rw [h p hp, hasParent_of_toplevel (htop p hp), hasParent_of_toplevel (htop p hp)]
  split
  · exact ⟨rfl, h⟩
  · exact ⟨rfl, h.put p _⟩

theorem agreeOn_appendBytes {t t' : Tree} (h : t.AgreeOn K t') (hp : p ∈ K) (bytes : Bytes) :
    (appendBytes p bytes t).AgreeOn K (appendBytes p bytes t') := by
  unfold appendBytes
  rw [h p hp]
  split
  · exact h.put p _
  · exact h

theorem respects_writeAll {bytes : Bytes} (hp : p ∈ K) :
    Respects (Tree.AgreeOn K) (writeAll p bytes) := by
  apply respects_step
  rintro ⟨fate, n⟩ t t' h
  cases fate with
  | proceed => exact ⟨rfl, agreeOn_appendBytes h hp _⟩
  | refuse => exact ⟨rfl, agreeOn_appendBytes h hp _⟩
  | panic => exact ⟨rfl, agreeOn_appendBytes h hp _⟩
  | die => exact ⟨rfl, agreeOn_appendBytes h hp _⟩

theorem respects_rename {source target : Path} (hsource : source ∈ K) (htarget : target ∈ K) :
    Respects (Tree.AgreeOn K) (rename source target) := by
  apply respects_primitive
  intro _ t t' h
  rw [h source hsource, h target htarget]
  split
  · exact ⟨rfl, h⟩
  · exact ⟨rfl, (h.erase source).put target _⟩
  · exact ⟨rfl, h⟩

theorem respects_removeFile (hp : p ∈ K) : Respects (Tree.AgreeOn K) (removeFile p) := by
  apply respects_primitive
  intro _ t t' h
  rw [h p hp]
  split
  · exact ⟨rfl, h⟩
  · exact ⟨rfl, h⟩
  · exact ⟨rfl, h.erase p⟩

end Operations

end RgbLightningNode.FileSystem
