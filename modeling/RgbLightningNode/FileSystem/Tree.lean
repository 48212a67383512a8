import Mathlib.Data.Set.Insert
import Mathlib.Tactic.Common

/-!
# A tree of files

Paths are lists of names below a root directory that always exists. A tree carries, beside the
node at each path, a list of names that covers every occupied path, so that a directory can be
listed. Two trees are compared through their nodes only.
-/

namespace RgbLightningNode.FileSystem

abbrev Name := String
abbrev Path := List Name
abbrev Bytes := List UInt8

/-- The metadata that admission checks look at: permission bits, whether the effective user owns
the node, and the number of hard links. -/
structure Attr where
  mode : ℕ
  owned : Bool
  nlink : ℕ
  deriving DecidableEq, Repr

inductive Node where
  | file (bytes : Bytes) (attr : Attr)
  | dir (attr : Attr)
  | symlink
  | special
  deriving DecidableEq, Repr

namespace Node

def isFile : Node → Bool
  | .file _ _ => true
  | _ => false

def isDir : Node → Bool
  | .dir _ => true
  | _ => false

end Node

structure Tree where
  node : Path → Option Node
  names : List Path
  complete : ∀ p, (node p).isSome → p ∈ names

namespace Tree

def empty : Tree := ⟨fun _ => none, [], by simp⟩

def put (t : Tree) (p : Path) (n : Node) : Tree where
  node q := if q = p then some n else t.node q
  names := p :: t.names
  complete q := by
    by_cases h : q = p
    · simp [h]
    · simpa [h] using t.complete q

def erase (t : Tree) (p : Path) : Tree where
  node q := if q = p then none else t.node q
  names := t.names
  complete q := by
    by_cases h : q = p
    · simp [h]
    · simpa [h] using t.complete q

/-- Move the node at `source`, with everything below it, to `target`. -/
def move (t : Tree) (source target : Path) : Tree where
  node q := if target <+: q then t.node (source ++ q.drop target.length)
    else if source <+: q then none else t.node q
  names := t.names ++ t.names.map (fun q => target ++ q.drop source.length)
  complete q := by
    simp only [List.mem_append, List.mem_map]
    by_cases ht : target <+: q
    · simp only [ht, if_true]
      intro h
      obtain ⟨rest, rfl⟩ := ht
      rw [List.drop_left] at h
      exact Or.inr ⟨source ++ rest, t.complete _ h, by rw [List.drop_left]⟩
    · simp only [ht, if_false]
      split
      · simp
      · exact fun h => Or.inl (t.complete q h)

@[simp] theorem put_node_self (t : Tree) (p : Path) (n : Node) : (t.put p n).node p = some n := by
  simp [put]

theorem put_node_of_ne (t : Tree) {p q : Path} (n : Node) (h : q ≠ p) :
    (t.put p n).node q = t.node q := by
  simp [put, h]

@[simp] theorem erase_node_self (t : Tree) (p : Path) : (t.erase p).node p = none := by
  simp [erase]

theorem erase_node_of_ne (t : Tree) {p q : Path} (h : q ≠ p) :
    (t.erase p).node q = t.node q := by
  simp [erase, h]

/-- What a reader finds at a path. -/
inductive Look where
  | absent
  | file (bytes : Bytes)
  | other
  deriving DecidableEq, Repr

def look (t : Tree) (p : Path) : Look :=
  match t.node p with
  | none => .absent
  | some (.file bytes _) => .file bytes
  | some _ => .other

theorem look_eq_absent {t : Tree} {p : Path} : t.look p = .absent ↔ t.node p = none := by
  unfold look
  split <;> simp_all

theorem look_eq_file {t : Tree} {p : Path} {bytes : Bytes} :
    t.look p = .file bytes ↔ ∃ attr, t.node p = some (.file bytes attr) := by
  unfold look
  split <;> simp_all

theorem look_congr {t t' : Tree} {p : Path} (h : t'.node p = t.node p) : t'.look p = t.look p := by
  simp [look, h]

/-- The parent of a path is the root or a directory. -/
def hasParent (t : Tree) (p : Path) : Bool :=
  match p.dropLast with
  | [] => true
  | parent => match t.node parent with
    | some (.dir _) => true
    | _ => false

/-! ### Frames -/

/-- The second tree holds the same nodes as the first outside `S`. -/
def AgreeOff (S : Set Path) (t t' : Tree) : Prop := ∀ q, q ∉ S → t'.node q = t.node q

namespace AgreeOff

variable {S : Set Path} {t t' t'' : Tree}

theorem refl (S : Set Path) (t : Tree) : AgreeOff S t t := fun _ _ => rfl

theorem trans (h : AgreeOff S t t') (h' : AgreeOff S t' t'') : AgreeOff S t t'' :=
  fun q hq => (h' q hq).trans (h q hq)

theorem mono {S' : Set Path} (h : AgreeOff S t t') (hS : S ⊆ S') : AgreeOff S' t t' :=
  fun q hq => h q fun hq' => hq (hS hq')

theorem put {p : Path} (h : AgreeOff S t t') (hp : p ∈ S) (n : Node) :
    AgreeOff S t (t'.put p n) := by
  intro q hq
  rw [put_node_of_ne _ _ (by rintro rfl; exact hq hp), h q hq]

theorem erase {p : Path} (h : AgreeOff S t t') (hp : p ∈ S) : AgreeOff S t (t'.erase p) := by
  intro q hq
  rw [erase_node_of_ne _ (by rintro rfl; exact hq hp), h q hq]

theorem look {p : Path} (h : AgreeOff S t t') (hp : p ∉ S) : t'.look p = t.look p :=
  look_congr (h p hp)

end AgreeOff

end Tree

/-! ### Names with extensions -/

/-- Everything before the last dot, or the whole name when only its first character is a dot. -/
def fileStem (name : Name) : Name :=
  match ((name.toList.reverse.dropWhile (· ≠ '.')).drop 1).reverse with
  | [] => name
  | stem => String.ofList stem

def withExtension (p : Path) (extension : String) : Path :=
  match p.getLast? with
  | none => p
  | some name => p.dropLast ++ [fileStem name ++ "." ++ extension]

theorem fileStem_extension (stem extension : String) (hstem : stem ≠ "")
    (hdot : '.' ∉ extension.toList) : fileStem (stem ++ "." ++ extension) = stem := by
  have hkeep : ∀ c ∈ extension.toList.reverse, decide (c ≠ '.') = true := by
    intro c hc
    simp only [decide_eq_true_eq]
    rintro rfl
    exact hdot (List.mem_reverse.mp hc)
  have hback : (((stem ++ "." ++ extension).toList.reverse.dropWhile (· ≠ '.')).drop 1).reverse =
      stem.toList := by
    rw [String.toList_append, String.toList_append, List.reverse_append, List.reverse_append,
      List.dropWhile_append_of_pos hkeep]
    simp
  unfold fileStem
  rw [hback]
  split
  · rename_i h
    exact absurd (String.toList_inj.mp (by simpa using h)) hstem
  · exact String.ofList_toList

theorem withExtension_singleton (stem old new : String) (hstem : stem ≠ "")
    (hdot : '.' ∉ old.toList) :
    withExtension [stem ++ "." ++ old] new = [stem ++ "." ++ new] := by
  simp [withExtension, fileStem_extension stem old hstem hdot]

end RgbLightningNode.FileSystem
