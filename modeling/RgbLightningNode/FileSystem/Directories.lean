import Mathlib.Data.List.Induction
import RgbLightningNode.FileSystem.Disk

/-!
# Directories

Creation of directories with all missing parents, changes of permissions, and copies into a file,
with what each can do to a tree under every schedule.
-/

namespace RgbLightningNode.FileSystem
open Faulty

/-- The root and every directory node. -/
def Tree.isDirectory (t : Tree) (p : Path) : Bool :=
  match p with
  | [] => true
  | p => match t.node p with
    | some (.dir _) => true
    | _ => false

theorem Tree.hasParent_eq (t : Tree) (p : Path) : t.hasParent p = t.isDirectory p.dropLast := by
  unfold hasParent isDirectory
  cases p.dropLast <;> rfl

theorem Tree.isDirectory_iff {t : Tree} {p : Path} (hp : p ≠ []) :
    t.isDirectory p = true ↔ ∃ attr, t.node p = some (.dir attr) := by
  cases p with
  | nil => exact absurd rfl hp
  | cons name rest =>
    change (match t.node (name :: rest) with | some (.dir _) => true | _ => false) = true ↔ _
    split
    · rename_i attr h
      exact iff_of_true rfl ⟨attr, h⟩
    · rename_i h
      apply iff_of_false Bool.false_ne_true
      rintro ⟨attr, hdir⟩
      exact h attr hdir

/-- The path and everything above it, from the bottom up. -/
def ancestorsOf : List Name → List Path
  | [] => [[]]
  | name :: above => (name :: above).reverse :: ancestorsOf above

def ancestors (p : Path) : List Path := ancestorsOf p.reverse

theorem ancestors_concat (p : Path) (name : Name) :
    ancestors (p ++ [name]) = (p ++ [name]) :: ancestors p := by
  simp [ancestors, ancestorsOf]

theorem takeWhile_ancestors_self (p : Path) : (ancestors p).takeWhile (· ≠ p) = [] := by
  unfold ancestors
  cases hp : p.reverse with
  | nil => simp [ancestorsOf, List.reverse_eq_nil_iff.mp hp]
  | cons name above =>
    have hself : (name :: above).reverse = p := by rw [← hp, List.reverse_reverse]
    rw [ancestorsOf, hself]
    simp

/-- What is met on the way up from below `top` before `top` is reached. -/
theorem mem_takeWhile_ancestors {top rest q : Path}
    (h : q ∈ (ancestors (top ++ rest)).takeWhile (· ≠ top)) :
    ∃ some above, q = top ++ some ∧ some ≠ [] ∧ rest = some ++ above := by
  induction rest using List.reverseRecOn with
  | nil =>
    rw [List.append_nil, takeWhile_ancestors_self] at h
    cases h
  | append_singleton rest name ih =>
    have hne : top ++ (rest ++ [name]) ≠ top := by simp
    rw [← List.append_assoc, ancestors_concat, List.append_assoc,
      List.takeWhile_cons_of_pos (by simp)] at h
    rcases List.mem_cons.mp h with rfl | h
    · exact ⟨rest ++ [name], [], rfl, by simp, by simp⟩
    · obtain ⟨part, above, hq, hpart, hrest⟩ := ih h
      exact ⟨part, above ++ [name], hq, hpart, by rw [hrest, List.append_assoc]⟩

/-- Creation of one directory. The datum is what the mask of the process leaves of the mode. -/
def mkdir (p : Path) : Io Unit :=
  .primitive .other fun mask t =>
    if p = [] ∨ (t.node p).isSome then (.error .alreadyExists, t)
    else if t.hasParent p then (.ok (), t.put p (.dir (ownedAttr (0o777 &&& mask))))
    else (.error .notFound, t)

/-- Whether the path is a directory. A path whose metadata cannot be read is none. -/
def isDir (p : Path) : Io Bool :=
  .step fun d t => match d.fate with
    | .proceed => (.ok (t.isDirectory p), t)
    | .refuse | .panic => (.ok false, t)
    | .die => (.died, t)

/-- A directory that was there already is as good as one that was created. -/
def mkdirOrExists (p : Path) : Io Unit := do
  match ← .attempt (ε := IoError) (mkdir p) with
  | .ok _ => return ()
  | .error failure => if ← isDir p then return () else .throw failure

def createDirAllOf : List Name → Io Unit
  | [] => return ()
  | name :: above => do
    match ← .attempt (ε := IoError) (mkdir (name :: above).reverse) with
    | .ok _ => return ()
    | .error .notFound => do
      createDirAllOf above
      mkdirOrExists (name :: above).reverse
    | .error failure => if ← isDir (name :: above).reverse then return () else .throw failure

/-- Creation of a directory and of the parents that are missing. -/
def createDirAll (p : Path) : Io Unit := createDirAllOf p.reverse

def Node.withMode (mode : ℕ) : Node → Node
  | .file bytes attr => .file bytes { attr with mode }
  | .dir attr => .dir { attr with mode }
  | n => n

def setPermissions (p : Path) (mode : ℕ) : Io Unit :=
  .primitive .other fun _ t => match t.node p with
    | some n => (.ok (), t.put p (n.withMode mode))
    | none => (.error .notFound, t)

/-- What a reader yields up to a limit, and whether it then ends without an error. -/
structure Stream where
  bytes : Bytes
  ends : Bool

/-- A copy into the file at `p`. The bytes that were read before an error are written. -/
def copy (source : Stream) (p : Path) : Io ℕ := do
  writeAll p source.bytes
  if source.ends then return source.bytes.length else .throw .other

/-! ### What each operation can do -/

section Rules

variable {t : Tree} {p : Path}

theorem holds_mkdir {Q : Outcome IoError Unit → Tree → Prop}
    (hok : ∀ mode, p ≠ [] → t.node p = none → t.hasParent p = true →
      Q (.ok ()) (t.put p (.dir (ownedAttr mode))))
    (hexists : (p = [] ∨ t.node p ≠ none) → Q (.error .alreadyExists) t)
    (habsent : t.hasParent p = false → Q (.error .notFound) t)
    (hother : Q (.error .other) t) (hdie : Q .died t) : Holds (mkdir p) t Q := by
  refine holds_primitive ?_ hother hdie
  intro mask
  by_cases hp : p = [] ∨ (t.node p).isSome
  · rw [if_pos hp]
    exact hexists (hp.imp id Option.isSome_iff_ne_none.mp)
  rw [if_neg hp]
  rw [not_or, Option.not_isSome_iff_eq_none] at hp
  by_cases hparent : t.hasParent p = true
  · rw [if_pos hparent]
    exact hok _ hp.1 hp.2 hparent
  · rw [if_neg hparent]
    exact habsent (by simpa using hparent)

theorem holds_isDir {Q : Outcome IoError Bool → Tree → Prop}
    (htrue : t.isDirectory p = true → Q (.ok true) t) (hfalse : Q (.ok false) t)
    (hdie : Q .died t) : Holds (isDir p) t Q := by
  apply holds_step
  rintro ⟨fate, n⟩
  cases fate with
  | proceed =>
    cases hdir : t.isDirectory p with
    | false => simpa [hdir] using hfalse
    | true => simpa [hdir] using htrue hdir
  | refuse => exact hfalse
  | panic => exact hfalse
  | die => exact hdie

theorem holds_setPermissions {mode : ℕ} {Q : Outcome IoError Unit → Tree → Prop}
    (hok : ∀ n, t.node p = some n → Q (.ok ()) (t.put p (n.withMode mode)))
    (herror : ∀ e, Q (.error e) t) (hdie : Q .died t) : Holds (setPermissions p mode) t Q := by
  refine holds_primitive ?_ (herror _) hdie
  intro _
  cases hn : t.node p with
  | none => exact herror _
  | some n => exact hok n hn

/-- A copy leaves all it read, or a prefix. -/
theorem holds_copy {source : Stream} {Q : Outcome IoError ℕ → Tree → Prop}
    (hok : source.ends = true → Q (.ok source.bytes.length) (appendBytes p source.bytes t))
    (herror : ∀ n, Q (.error .other) (appendBytes p (source.bytes.take n) t))
    (hdie : ∀ n, Q .died (appendBytes p (source.bytes.take n) t)) :
    Holds (copy source p) t Q := by
  apply holds_bind
  refine holds_writeAll ?_ herror hdie
  by_cases hends : source.ends = true
  · simp only [Outcome.Then, hends, if_true]
    exact holds_pure (hok hends)
  · simp only [Outcome.Then, hends]
    apply holds_throw
    have h := herror source.bytes.length
    rwa [List.take_length] at h

end Rules

/-- No file that exists changes its contents, and every directory stays one. -/
structure Tree.Keeps (t t' : Tree) : Prop where
  files : ∀ q bytes, t.look q = .file bytes → t'.look q = .file bytes
  dirs : ∀ q, t.isDirectory q = true → t'.isDirectory q = true

/-- Neither a file nor a directory is at the path. -/
def Tree.Free (t : Tree) (p : Path) : Prop :=
  (∀ bytes, t.look p ≠ .file bytes) ∧ ∀ attr, t.node p ≠ some (.dir attr)

namespace Tree.Keeps

variable {t t' : Tree} {p : Path}

theorem refl (t : Tree) : t.Keeps t := ⟨fun _ _ h => h, fun _ h => h⟩

theorem free (h : t.Keeps t') (hnone : t'.node p = none) (hp : p ≠ []) : t.Free p := by
  constructor
  · intro bytes hfile
    have hlook := h.files p bytes hfile
    rw [look_eq_absent.mpr hnone] at hlook
    cases hlook
  · intro attr hdir
    obtain ⟨attr', hnode⟩ :=
      (isDirectory_iff hp).mp (h.dirs p ((isDirectory_iff hp).mpr ⟨attr, hdir⟩))
    rw [hnone] at hnode
    cases hnode

theorem put (h : t.Keeps t') (hp : t.Free p) (n : Node) : t.Keeps (t'.put p n) where
  files q bytes hq := by
    have hne : q ≠ p := by
      rintro rfl
      exact hp.1 bytes hq
    rw [look_congr (put_node_of_ne _ _ hne)]
    exact h.files q bytes hq
  dirs q hq := by
    by_cases hroot : q = []
    · rw [hroot]
      rfl
    have hne : q ≠ p := by
      rintro rfl
      obtain ⟨attr, hnode⟩ := (isDirectory_iff hroot).mp hq
      exact hp.2 attr hnode
    obtain ⟨attr, hnode⟩ := (isDirectory_iff hroot).mp (h.dirs q hq)
    exact (isDirectory_iff hroot).mpr ⟨attr, by rw [put_node_of_ne _ _ hne, hnode]⟩

theorem withMode (h : t.Keeps t') {n : Node} (hn : t'.node p = some n) (mode : ℕ) :
    t.Keeps (t'.put p (n.withMode mode)) where
  files q bytes hq := by
    by_cases hqp : q = p
    · subst hqp
      have hlook := h.files q bytes hq
      obtain ⟨attr, hfile⟩ := look_eq_file.mp hlook
      rw [hn] at hfile
      cases hfile
      exact look_eq_file.mpr ⟨_, put_node_self _ _ _⟩
    · rw [look_congr (put_node_of_ne _ _ hqp)]
      exact h.files q bytes hq
  dirs q hq := by
    by_cases hroot : q = []
    · rw [hroot]
      rfl
    obtain ⟨attr, hnode⟩ := (isDirectory_iff hroot).mp (h.dirs q hq)
    apply (isDirectory_iff hroot).mpr
    by_cases hqp : q = p
    · subst hqp
      rw [hn] at hnode
      cases hnode
      exact ⟨_, put_node_self _ _ _⟩
    · exact ⟨attr, by rw [put_node_of_ne _ _ hqp, hnode]⟩

theorem append (h : t.Keeps t') (hp : t.Free p) (bytes : Bytes) :
    t.Keeps (appendBytes p bytes t') := by
  unfold appendBytes
  split
  · exact h.put hp _
  · exact h

end Tree.Keeps

section Preserves

variable {Inv : Tree → Prop} {t : Tree} {p q : Path}

/-- New directories on the way to `p`, where nothing was, do not break the invariant. -/
def AdmitsDirectories (Inv : Tree → Prop) (p : Path) : Prop :=
  ∀ t q mode, Inv t → q ≠ [] → q <+: p → t.node q = none → Inv (t.put q (.dir (ownedAttr mode)))

theorem mkdir_preserves (hput : AdmitsDirectories Inv p) (hq : q <+: p) (h : Inv t) :
    Holds (mkdir q) t (fun o t' => Inv t' ∧ o ≠ .panicked) := by
  apply holds_mkdir
  · exact fun mode hne hnone _ => ⟨hput t q mode h hne hq hnone, by simp⟩
  · exact fun _ => ⟨h, by simp⟩
  · exact fun _ => ⟨h, by simp⟩
  · exact ⟨h, by simp⟩
  · exact ⟨h, by simp⟩

theorem checked_preserves (h : Inv t) (failure : IoError) :
    Holds (do if ← isDir q then return () else Proc.throw failure) t
      (fun o t' => Inv t' ∧ o ≠ .panicked) := by
  apply holds_bind
  exact holds_isDir (fun _ => holds_pure ⟨h, by simp⟩) (holds_throw ⟨h, by simp⟩) ⟨h, by simp⟩

theorem mkdirOrExists_preserves (hput : AdmitsDirectories Inv p) (hq : q <+: p) (h : Inv t) :
    Holds (mkdirOrExists q) t (fun o t' => Inv t' ∧ o ≠ .panicked) := by
  apply holds_bind
  apply holds_attempt
  refine (mkdir_preserves hput hq h).mono ?_
  rintro o t' ⟨h, hpanic⟩
  cases o with
  | ok _ => exact holds_pure ⟨h, by simp⟩
  | error failure => exact checked_preserves h failure
  | panicked => exact absurd rfl hpanic
  | died => exact ⟨h, by simp⟩

theorem createDirAll_preserves (hput : AdmitsDirectories Inv p) (h : Inv t) :
    Holds (createDirAll p) t (fun o t' => Inv t' ∧ o ≠ .panicked) := by
  have hall : ∀ names : List Name, names.reverse <+: p → ∀ t : Tree, Inv t →
      Holds (createDirAllOf names) t (fun o t' => Inv t' ∧ o ≠ .panicked) := by
    intro names
    induction names with
    | nil => exact fun _ t h => holds_pure ⟨h, by simp⟩
    | cons name above ih =>
      intro hnames t h
      have habove : above.reverse <+: p := by
        rw [List.reverse_cons] at hnames
        exact (List.prefix_append _ _).trans hnames
      apply holds_bind
      apply holds_attempt
      refine (mkdir_preserves hput hnames h).mono ?_
      rintro o t' ⟨h, hpanic⟩
      cases o with
      | ok _ => exact holds_pure ⟨h, by simp⟩
      | error failure =>
        cases failure with
        | notFound =>
          apply holds_bind
          refine (ih habove t' h).mono ?_
          rintro o t'' ⟨h, hpanic⟩
          cases o with
          | ok _ => exact mkdirOrExists_preserves hput hnames h
          | error _ => exact ⟨h, by simp⟩
          | panicked => exact absurd rfl hpanic
          | died => exact ⟨h, by simp⟩
        | alreadyExists => exact checked_preserves h _
        | other => exact checked_preserves h _
      | panicked => exact absurd rfl hpanic
      | died => exact ⟨h, by simp⟩
  have hp : p.reverse.reverse <+: p := by simp
  exact hall p.reverse hp t h

theorem createDirAll_keeps {t₀ : Tree} (h : t₀.Keeps t) :
    Holds (createDirAll p) t (fun _ t' => t₀.Keeps t') := by
  have hput : AdmitsDirectories t₀.Keeps p :=
    fun t q mode h hne _ hnone => h.put (h.free hnone hne) _
  exact (createDirAll_preserves hput h).mono fun _ _ h => h.1

end Preserves

/-- Nothing that was there has changed, and what is new are directories on the way to `p`. -/
structure Tree.Grown (p : Path) (t t' : Tree) : Prop where
  keeps : ∀ q, t.node q ≠ none → t'.node q = t.node q
  off : t.AgreeOff {q | q ≠ [] ∧ q <+: p} t'

theorem Tree.Grown.refl (p : Path) (t : Tree) : t.Grown p t := ⟨fun _ _ => rfl, .refl _ _⟩

theorem createDirAll_grown (p : Path) (t : Tree) :
    Holds (createDirAll p) t (fun o t' => t.Grown p t' ∧ o ≠ .panicked) := by
  apply createDirAll_preserves _ (.refl p t)
  rintro t' q mode ⟨hkeeps, hoff⟩ hne hq hnone
  refine ⟨fun r hr => ?_, hoff.put ⟨hne, hq⟩ _⟩
  have hrq : r ≠ q := by
    rintro rfl
    rw [hkeeps r hr] at hnone
    exact hr hnone
  rw [Tree.put_node_of_ne _ _ hrq, hkeeps r hr]

section Made

variable {t : Tree} {p : Path}

theorem checked_made (t : Tree) (failure : IoError) :
    Holds (do if ← isDir p then return () else Proc.throw failure) t
      (fun o t' => o = .ok () → t'.isDirectory p = true) := by
  apply holds_bind
  apply holds_isDir
  · exact fun hdir => holds_pure fun _ => hdir
  · exact holds_throw (by simp)
  · simp

theorem mkdirOrExists_made :
    Holds (mkdirOrExists p) t (fun o t' => o = .ok () → t'.isDirectory p = true) := by
  apply holds_bind
  apply holds_attempt
  apply holds_mkdir
  · intro mode hne _ _
    exact holds_pure fun _ => (Tree.isDirectory_iff hne).mpr ⟨_, Tree.put_node_self _ _ _⟩
  · exact fun _ => checked_made _ _
  · exact fun _ => checked_made _ _
  · exact checked_made _ _
  · simp

/-- A directory is there once it was created with all its parents. -/
theorem createDirAll_made :
    Holds (createDirAll p) t (fun o t' => o = .ok () → t'.isDirectory p = true) := by
  have hall : ∀ names : List Name, ∀ t : Tree, Holds (createDirAllOf names) t
      (fun o t' => o = .ok () → t'.isDirectory names.reverse = true) := by
    intro names
    cases names with
    | nil => exact fun t => holds_pure fun _ => rfl
    | cons name above =>
      intro t
      apply holds_bind
      apply holds_attempt
      apply holds_mkdir
      · intro mode hne _ _
        exact holds_pure fun _ => (Tree.isDirectory_iff hne).mpr ⟨_, Tree.put_node_self _ _ _⟩
      · exact fun _ => checked_made _ _
      · intro _
        apply holds_bind
        intro ds
        cases (createDirAllOf above t ds).1 with
        | ok _ => exact mkdirOrExists_made
        | error _ => exact fun h => by cases h
        | panicked => exact fun h => by cases h
        | died => exact fun h => by cases h
      · exact checked_made _ _
      · simp
  have h := hall p.reverse t
  rwa [List.reverse_reverse] at h

end Made

end RgbLightningNode.FileSystem
