import RgbLightningNode.Faulty.Calm
import RgbLightningNode.FileSystem.Directories

/-!
# Two working directories of the same shape

An undisturbed process that works below one directory cannot tell it from another one that holds
files and directories at the same places. Each operation below corresponding paths ends in the same
way and keeps the correspondence.
-/

namespace RgbLightningNode.FileSystem
open Faulty

/-- Whether a node is a file, and whether it is a directory. -/
def Node.shape (n : Node) : Bool × Bool := (n.isFile, n.isDir)

/-- A file, or a directory of the effective user. -/
def Node.Plain : Node → Prop
  | .file _ _ => True
  | .dir attr => attr.owned = true
  | _ => False

/-- A working directory, with what it holds and the tree around it. -/
structure Workdir (top : Path) (t₀ t : Tree) : Prop where
  off : t₀.AgreeOff {q | ∃ rest, rest ≠ [] ∧ q = top ++ rest} t
  dir : ∃ attr, t₀.node top = some (.dir attr) ∧ attr.owned = true
  plain : ∀ rest, rest ≠ [] → ∀ n, t.node (top ++ rest) = some n → n.Plain

namespace Workdir

variable {top : Path} {t₀ t : Tree}

theorem put (h : Workdir top t₀ t) {rest : Path} (hrest : rest ≠ []) {n : Node} (hn : n.Plain) :
    Workdir top t₀ (t.put (top ++ rest) n) where
  off := h.off.put ⟨rest, hrest, rfl⟩ n
  dir := h.dir
  plain rest' hrest' n' hn' := by
    by_cases heq : rest' = rest
    · subst heq
      rw [Tree.put_node_self] at hn'
      cases hn'
      exact hn
    · rw [Tree.put_node_of_ne _ _ (by simpa using heq)] at hn'
      exact h.plain rest' hrest' n' hn'

theorem top_node (h : Workdir top t₀ t) : t.node top = t₀.node top := by
  apply h.off
  rintro ⟨rest, hrest, heq⟩
  exact hrest (List.self_eq_append_right.mp heq)

end Workdir

/-- Two working directories that hold nodes of the same shapes at the same places. -/
structure Mirrored (top top' : Path) (t₀ t₀' t t' : Tree) : Prop where
  left : Workdir top t₀ t
  right : Workdir top' t₀' t'
  shapes : ∀ rest, rest ≠ [] →
    (t'.node (top' ++ rest)).map Node.shape = (t.node (top ++ rest)).map Node.shape

namespace Mirrored

variable {top top' : Path} {t₀ t₀' t t' : Tree} {rest : Path}

theorem put (h : Mirrored top top' t₀ t₀' t t') (hrest : rest ≠ []) {n n' : Node} (hn : n.Plain)
    (hn' : n'.Plain) (hshape : n'.shape = n.shape) :
    Mirrored top top' t₀ t₀' (t.put (top ++ rest) n) (t'.put (top' ++ rest) n') where
  left := h.left.put hrest hn
  right := h.right.put hrest hn'
  shapes place hplace := by
    by_cases heq : place = rest
    · subst heq
      simp [hshape]
    · rw [Tree.put_node_of_ne _ _ (by simpa using heq),
        Tree.put_node_of_ne _ _ (by simpa using heq), h.shapes place hplace]

theorem isSome (h : Mirrored top top' t₀ t₀' t t') (hrest : rest ≠ []) :
    (t'.node (top' ++ rest)).isSome = (t.node (top ++ rest)).isSome := by
  have hshape := congrArg Option.isSome (h.shapes rest hrest)
  rwa [Option.isSome_map, Option.isSome_map] at hshape

theorem isDirectory_top (h : Workdir top t₀ t) : t.isDirectory top = true := by
  by_cases htop : top = []
  · rw [htop]
    rfl
  · obtain ⟨attr, hnode, _⟩ := h.dir
    exact (Tree.isDirectory_iff htop).mpr ⟨attr, by rw [h.top_node, hnode]⟩

theorem isDirectory (h : Mirrored top top' t₀ t₀' t t') (rest : Path) :
    t'.isDirectory (top' ++ rest) = t.isDirectory (top ++ rest) := by
  by_cases hrest : rest = []
  · rw [hrest, List.append_nil, List.append_nil, isDirectory_top h.left, isDirectory_top h.right]
  · have hread (u : Tree) (p : Path) (hp : p ≠ []) : u.isDirectory p = true ↔
        (u.node p).map Node.shape = some (false, true) := by
      rw [Tree.isDirectory_iff hp]
      constructor
      · rintro ⟨attr, hnode⟩
        rw [hnode]
        rfl
      · intro hshape
        obtain ⟨n, hnode, hn⟩ := Option.map_eq_some_iff.mp hshape
        cases n with
        | dir attr => exact ⟨attr, hnode⟩
        | file bytes attr => cases hn
        | symlink => cases hn
        | special => cases hn
    rw [Bool.eq_iff_iff, hread _ _ (by simp [hrest]), hread _ _ (by simp [hrest]),
      h.shapes rest hrest]

theorem hasParent (h : Mirrored top top' t₀ t₀' t t') (hrest : rest ≠ []) :
    t'.hasParent (top' ++ rest) = t.hasParent (top ++ rest) := by
  rw [Tree.hasParent_eq, Tree.hasParent_eq, List.dropLast_append_of_ne_nil hrest,
    List.dropLast_append_of_ne_nil hrest, h.isDirectory]

theorem parent_of_child (h : Mirrored top top' t₀ t₀' t t') (name : Name) :
    t.hasParent (top ++ [name]) = true := by
  rw [Tree.hasParent_eq, List.dropLast_concat, isDirectory_top h.left]

end Mirrored

/-! ### The operations -/

section Operations

variable {top top' : Path} {t₀ t₀' t t' : Tree} {rest : Path}

theorem mimics_mkdir (h : Mirrored top top' t₀ t₀' t t') (hrest : rest ≠ []) :
    Mimics (mkdir (top ++ rest)) t (mkdir (top' ++ rest)) t' (fun o u u' =>
      Mirrored top top' t₀ t₀' u u' ∧
        (o = .error .notFound → t.hasParent (top ++ rest) = false)) := by
  apply mimics_primitive
  intro mask mask'
  have hne : top ++ rest ≠ [] := by simp [hrest]
  have hne' : top' ++ rest ≠ [] := by simp [hrest]
  simp only [hne, hne', h.isSome hrest, h.hasParent hrest, false_or]
  by_cases hsome : (t.node (top ++ rest)).isSome = true
  · rw [if_pos hsome, if_pos hsome]
    exact ⟨trivial, rfl, h, by simp⟩
  rw [if_neg hsome, if_neg hsome]
  by_cases hparent : t.hasParent (top ++ rest) = true
  · rw [if_pos hparent, if_pos hparent]
    exact ⟨trivial, rfl, h.put hrest rfl rfl rfl, by simp⟩
  · rw [if_neg hparent, if_neg hparent]
    exact ⟨trivial, rfl, h, fun _ => by simpa using hparent⟩

theorem mimics_isDir (h : Mirrored top top' t₀ t₀' t t') (rest : Path) :
    Mimics (isDir (top ++ rest)) t (isDir (top' ++ rest)) t'
      (fun _ => Mirrored top top' t₀ t₀') :=
  mimics_step fun _ _ => ⟨trivial, by simp [h.isDirectory], h⟩

theorem mimics_checked (h : Mirrored top top' t₀ t₀' t t') (rest : Path) (failure : IoError) :
    Mimics (do if ← isDir (top ++ rest) then return () else Proc.throw failure) t
      (do if ← isDir (top' ++ rest) then return () else Proc.throw failure) t'
      (fun _ => Mirrored top top' t₀ t₀') := by
  apply mimics_seq (mimics_isDir h rest)
  intro found u u' hu
  cases found with
  | true => exact mimics_pure hu
  | false => exact mimics_throw hu

theorem mimics_mkdirOrExists (h : Mirrored top top' t₀ t₀' t t') (hrest : rest ≠ []) :
    Mimics (mkdirOrExists (top ++ rest)) t (mkdirOrExists (top' ++ rest)) t'
      (fun _ => Mirrored top top' t₀ t₀') := by
  apply mimics_seq (mimics_attempt ((mimics_mkdir h hrest).mono fun _ _ _ h => h.1))
  intro made u u' hu
  cases made with
  | ok _ => exact mimics_pure hu
  | error failure => exact mimics_checked hu rest failure

theorem mimics_createDirAll (h : Mirrored top top' t₀ t₀' t t') (hrest : rest ≠ []) :
    Mimics (createDirAll (top ++ rest)) t (createDirAll (top' ++ rest)) t'
      (fun _ => Mirrored top top' t₀ t₀') := by
  -- from the bottom up, and never above the working directory
  have hall : ∀ (names : List Name) (t t' : Tree), names ≠ [] → Mirrored top top' t₀ t₀' t t' →
      Mimics (createDirAllOf (names ++ top.reverse)) t (createDirAllOf (names ++ top'.reverse)) t'
        (fun _ => Mirrored top top' t₀ t₀') := by
    intro names
    induction names with
    | nil => exact fun _ _ hnames => absurd rfl hnames
    | cons name above ih =>
      intro t t' _ h
      have hpath (top : Path) : (name :: (above ++ top.reverse)).reverse =
          top ++ (name :: above).reverse := by simp
      have hne : (name :: above).reverse ≠ [] := by simp
      rw [List.cons_append, List.cons_append, createDirAllOf, createDirAllOf, hpath top, hpath top']
      apply mimics_bind
      refine (mimics_attempt ((mimics_mkdir h hne).mono ?_) :
        Mimics _ _ _ _ (fun o u u' => Mirrored top top' t₀ t₀' u u' ∧
          (o = .ok (.error .notFound) → above ≠ [])))|>.mono ?_
      · rintro o u u' ⟨hu, hparent⟩
        refine ⟨hu, ?_⟩
        rintro ho rfl
        have hfalse := hparent (by cases o <;> simp_all [Outcome.attempt])
        rw [List.reverse_singleton, h.parent_of_child] at hfalse
        cases hfalse
      rintro o u u' ⟨hu, habove⟩
      cases o with
      | ok made =>
        cases made with
        | ok _ => exact mimics_pure hu
        | error failure =>
          cases failure with
          | notFound =>
            apply mimics_seq (ih u u' (habove rfl) hu)
            exact fun _ v v' hv => mimics_mkdirOrExists hv hne
          | alreadyExists => exact mimics_checked hu _ _
          | other => exact mimics_checked hu _ _
      | error _ => exact hu
      | panicked => trivial
      | died => trivial
  have hreverse := hall rest.reverse t t' (by simpa using hrest) h
  rwa [← List.reverse_append, ← List.reverse_append] at hreverse

theorem Node.shape_withMode (n : Node) (mode : ℕ) : (n.withMode mode).shape = n.shape := by
  cases n <;> rfl

theorem Node.Plain.withMode {n : Node} (h : n.Plain) (mode : ℕ) : (n.withMode mode).Plain := by
  cases n with
  | file bytes attr => trivial
  | dir attr => exact h
  | symlink => exact h.elim
  | special => exact h.elim

theorem mimics_setPermissions (h : Mirrored top top' t₀ t₀' t t') (hrest : rest ≠ []) (mode : ℕ) :
    Mimics (setPermissions (top ++ rest) mode) t (setPermissions (top' ++ rest) mode) t'
      (fun _ => Mirrored top top' t₀ t₀') := by
  apply mimics_primitive
  intro _ _
  have hshape := h.shapes rest hrest
  cases hn : t.node (top ++ rest) with
  | none =>
    rw [hn, Option.map_none, Option.map_eq_none_iff] at hshape
    rw [hshape]
    exact ⟨trivial, rfl, h⟩
  | some n =>
    rw [hn, Option.map_some, Option.map_eq_some_iff] at hshape
    obtain ⟨n', hn', hsame⟩ := hshape
    rw [hn']
    refine ⟨trivial, rfl, h.put hrest ?_ ?_ ?_⟩
    · exact (h.left.plain rest hrest n hn).withMode mode
    · exact (h.right.plain rest hrest n' hn').withMode mode
    · rw [Node.shape_withMode, Node.shape_withMode, hsame]

theorem mimics_createNew (h : Mirrored top top' t₀ t₀' t t') (hrest : rest ≠ []) (mode : ℕ) :
    Mimics (createNew (top ++ rest) mode) t (createNew (top' ++ rest) mode) t'
      (fun _ => Mirrored top top' t₀ t₀') := by
  apply mimics_primitive
  intro _ _
  simp only [h.isSome hrest, h.hasParent hrest]
  split
  · exact ⟨trivial, rfl, h⟩
  · split
    · exact ⟨trivial, rfl, h.put hrest trivial trivial rfl⟩
    · exact ⟨trivial, rfl, h⟩

/-- Two appends, of bytes that may differ. -/
theorem Mirrored.appendBytes (h : Mirrored top top' t₀ t₀' t t') (hrest : rest ≠ [])
    (bytes bytes' : Bytes) : Mirrored top top' t₀ t₀'
      (FileSystem.appendBytes (top ++ rest) bytes t)
      (FileSystem.appendBytes (top' ++ rest) bytes' t') := by
  have hshape := h.shapes rest hrest
  have hkeep {u : Tree} {p : Path} (bytes : Bytes)
    (hfile : ∀ old attr, u.node p ≠ some (.file old attr)) :
      FileSystem.appendBytes p bytes u = u := by
    unfold FileSystem.appendBytes
    split
    · rename_i heq
      exact absurd heq (hfile _ _)
    · rfl
  by_cases hfile : ∃ old attr, t.node (top ++ rest) = some (.file old attr)
  · obtain ⟨old, attr, hn⟩ := hfile
    rw [hn, Option.map_some, Option.map_eq_some_iff] at hshape
    obtain ⟨n', hn', hsame⟩ := hshape
    cases n' with
    | file old' attr' =>
      rw [appendBytes_file hn, appendBytes_file hn']
      exact h.put hrest trivial trivial rfl
    | dir _ => cases hsame
    | symlink => cases hsame
    | special => cases hsame
  · have hleft : ∀ old attr, t.node (top ++ rest) ≠ some (.file old attr) :=
      fun old attr hn => hfile ⟨old, attr, hn⟩
    have hright : ∀ old attr, t'.node (top' ++ rest) ≠ some (.file old attr) := by
      intro old attr hn'
      rw [hn', Option.map_some, eq_comm, Option.map_eq_some_iff] at hshape
      obtain ⟨n, hn, hsame⟩ := hshape
      cases n with
      | file old attr => exact hleft old attr hn
      | dir _ => cases hsame
      | symlink => cases hsame
      | special => cases hsame
    rw [hkeep _ hleft, hkeep _ hright]
    exact h

theorem mimics_writeAll (h : Mirrored top top' t₀ t₀' t t') (hrest : rest ≠ [])
    (bytes bytes' : Bytes) :
    Mimics (writeAll (top ++ rest) bytes) t (writeAll (top' ++ rest) bytes') t'
      (fun _ => Mirrored top top' t₀ t₀') :=
  mimics_step fun _ _ => ⟨trivial, rfl, h.appendBytes hrest bytes bytes'⟩

theorem mimics_copy (h : Mirrored top top' t₀ t₀' t t') (hrest : rest ≠ []) (source : Stream) :
    Mimics (copy source (top ++ rest)) t (copy source (top' ++ rest)) t'
      (fun _ => Mirrored top top' t₀ t₀') := by
  apply mimics_seq (mimics_writeAll h hrest _ _)
  intro _ u u' hu
  split
  · exact mimics_pure hu
  · exact mimics_throw hu

theorem mimics_syncAll {p p' : Path} {R : Tree → Tree → Prop} (h : R t t') :
    Mimics (syncAll p) t (syncAll p') t' (fun _ => R) :=
  mimics_primitive fun _ _ => ⟨trivial, rfl, h⟩

/-- Corresponding paths on the way up. -/
theorem takeWhile_ancestors_append (top rest : Path) :
    (ancestors (top ++ rest)).takeWhile (· ≠ top) =
      ((ancestors rest).takeWhile (· ≠ [])).map (top ++ ·) := by
  induction rest using List.reverseRecOn with
  | nil => rw [List.append_nil, takeWhile_ancestors_self, takeWhile_ancestors_self]; rfl
  | append_singleton rest name ih =>
    rw [← List.append_assoc, ancestors_concat, ancestors_concat,
      List.takeWhile_cons_of_pos (by simp), List.takeWhile_cons_of_pos (by simp), ih]
    simp

end Operations

end RgbLightningNode.FileSystem
