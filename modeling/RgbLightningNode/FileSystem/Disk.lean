import RgbLightningNode.Faulty.Process
import RgbLightningNode.FileSystem.Tree

/-!
# Primitive file operations that may fail

Each operation is one step of a process over a tree. A refused operation reports an error and
leaves the tree alone, except that a refused or interrupted write may leave a prefix of its bytes
behind. A process crash does not undo what was already done to the tree.
-/

namespace RgbLightningNode.FileSystem
open Faulty

inductive IoError where
  | notFound
  | alreadyExists
  | other
  deriving DecidableEq, Repr

abbrev Io (α : Type) := Proc Tree IoError α

/-- The node at a path, without following a link. -/
def symlinkMetadata (p : Path) : Io Node :=
  .primitive .other fun _ t => match t.node p with
    | none => (.error .notFound, t)
    | some n => (.ok n, t)

def ownedAttr (mode : ℕ) : Attr := ⟨mode, true, 1⟩

/-- Exclusive creation of an empty file: an existing node of any kind is an error. -/
def createNew (p : Path) (mode : ℕ) : Io Unit :=
  .primitive .other fun _ t =>
    if (t.node p).isSome then (.error .alreadyExists, t)
    else if t.hasParent p then (.ok (), t.put p (.file [] (ownedAttr mode)))
    else (.error .notFound, t)

def appendBytes (p : Path) (bytes : Bytes) (t : Tree) : Tree :=
  match t.node p with
  | some (.file old attr) => t.put p (.file (old ++ bytes) attr)
  | _ => t

/-- Writing to the file opened at `p`. A write that does not complete leaves a prefix. -/
def writeAll (p : Path) (bytes : Bytes) : Io Unit :=
  .step fun d t => match d.fate with
    | .proceed => (.ok (), appendBytes p bytes t)
    | .refuse | .panic => (.error .other, appendBytes p (bytes.take d.datum) t)
    | .die => (.died, appendBytes p (bytes.take d.datum) t)

/-- Flushing a file or a directory to the medium. -/
def syncAll (_p : Path) : Io Unit := .primitive .other fun _ t => (.ok (), t)

/-- The atomic rename of a regular file, which replaces the target unless it is a directory. -/
def rename (source target : Path) : Io Unit :=
  .primitive .other fun _ t => match t.node source, t.node target with
    | some (.file _ _), some (.dir _) => (.error .other, t)
    | some (.file bytes attr), _ => (.ok (), (t.erase source).put target (.file bytes attr))
    | _, _ => (.error .notFound, t)

def removeFile (p : Path) : Io Unit :=
  .primitive .other fun _ t => match t.node p with
    | none => (.error .notFound, t)
    | some (.dir _) => (.error .other, t)
    | some _ => (.ok (), t.erase p)

def readToEnd (p : Path) : Io Bytes :=
  .primitive .other fun _ t => match t.node p with
    | some (.file bytes _) => (.ok bytes, t)
    | none => (.error .notFound, t)
    | some _ => (.error .other, t)

/-- Whether a path resolves to a node. A path whose metadata cannot be read counts as missing. -/
def pathExists (p : Path) : Io Bool :=
  .step fun d t => match d.fate with
    | .proceed => (.ok (match t.node p with
        | some (.file _ _) | some (.dir _) | some .special => true
        | some .symlink | none => false), t)
    | .refuse | .panic => (.ok false, t)
    | .die => (.died, t)

/-! ### What each operation can do -/

section Rules

variable {t : Tree} {p : Path}

theorem holds_symlinkMetadata {Q : Outcome IoError Node → Tree → Prop}
    (hnode : ∀ n, t.node p = some n → Q (.ok n) t)
    (habsent : t.node p = none → Q (.error .notFound) t)
    (hother : Q (.error .other) t) (hdie : Q .died t) : Holds (symlinkMetadata p) t Q := by
  refine holds_primitive (fun _ => ?_) hother hdie
  cases hn : t.node p with
  | none => exact habsent hn
  | some n => exact hnode n hn

theorem holds_createNew {mode : ℕ} {Q : Outcome IoError Unit → Tree → Prop}
    (hok : t.node p = none → t.hasParent p = true →
      Q (.ok ()) (t.put p (.file [] (ownedAttr mode))))
    (herror : ∀ e, Q (.error e) t) (hdie : Q .died t) : Holds (createNew p mode) t Q := by
  refine holds_primitive (fun _ => ?_) (herror _) hdie
  split
  · exact herror _
  · rename_i h
    split
    · rename_i hp
      exact hok (by simpa using h) hp
    · exact herror _

theorem holds_writeAll {bytes : Bytes} {Q : Outcome IoError Unit → Tree → Prop}
    (hok : Q (.ok ()) (appendBytes p bytes t))
    (herror : ∀ n, Q (.error .other) (appendBytes p (bytes.take n) t))
    (hdie : ∀ n, Q .died (appendBytes p (bytes.take n) t)) : Holds (writeAll p bytes) t Q := by
  apply holds_step
  rintro ⟨fate, n⟩
  cases fate with
  | proceed => exact hok
  | refuse => exact herror n
  | panic => exact herror n
  | die => exact hdie n

theorem holds_syncAll {Q : Outcome IoError Unit → Tree → Prop} (hok : Q (.ok ()) t)
    (herror : Q (.error .other) t) (hdie : Q .died t) : Holds (syncAll p) t Q :=
  holds_primitive (fun _ => hok) herror hdie

theorem holds_rename {source target : Path} {Q : Outcome IoError Unit → Tree → Prop}
    (hok : ∀ bytes attr, t.node source = some (.file bytes attr) →
      Q (.ok ()) ((t.erase source).put target (.file bytes attr)))
    (herror : ∀ e, Q (.error e) t) (hdie : Q .died t) : Holds (rename source target) t Q := by
  refine holds_primitive (fun _ => ?_) (herror _) hdie
  split
  · exact herror _
  · rename_i h _
    exact hok _ _ h
  · exact herror _

theorem holds_removeFile {Q : Outcome IoError Unit → Tree → Prop}
    (hok : t.node p ≠ none → Q (.ok ()) (t.erase p))
    (herror : ∀ e, Q (.error e) t) (hdie : Q .died t) : Holds (removeFile p) t Q := by
  refine holds_primitive (fun _ => ?_) (herror _) hdie
  split
  · exact herror _
  · exact herror _
  · rename_i h
    exact hok (by simp [h])

theorem holds_readToEnd {Q : Outcome IoError Bytes → Tree → Prop}
    (hok : ∀ bytes attr, t.node p = some (.file bytes attr) → Q (.ok bytes) t)
    (herror : ∀ e, Q (.error e) t) (hdie : Q .died t) : Holds (readToEnd p) t Q := by
  refine holds_primitive (fun _ => ?_) (herror _) hdie
  split
  · rename_i h
    exact hok _ _ h
  · exact herror _
  · exact herror _

theorem holds_pathExists {Q : Outcome IoError Bool → Tree → Prop}
    (hsome : t.node p ≠ none → Q (.ok true) t) (hfalse : Q (.ok false) t) (hdie : Q .died t) :
    Holds (pathExists p) t Q := by
  apply holds_step
  rintro ⟨fate, n⟩
  cases fate with
  | proceed =>
    cases hn : t.node p with
    | none => simpa [hn] using hfalse
    | some node => cases node <;> simp_all
  | refuse => exact hfalse
  | panic => exact hfalse
  | die => exact hdie

theorem appendBytes_file {bytes old : Bytes} {attr : Attr} (h : t.node p = some (.file old attr)) :
    appendBytes p bytes t = t.put p (.file (old ++ bytes) attr) := by
  simp [appendBytes, h]

theorem appendBytes_agreeOff {S : Set Path} {t₀ : Tree} (h : t₀.AgreeOff S t) (hp : p ∈ S)
    (bytes : Bytes) : t₀.AgreeOff S (appendBytes p bytes t) := by
  unfold appendBytes
  split
  · exact h.put hp _
  · exact h

end Rules

end RgbLightningNode.FileSystem
