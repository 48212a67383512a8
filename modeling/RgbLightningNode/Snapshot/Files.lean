import RgbLightningNode.Error
import RgbLightningNode.FileSystem.Disk

/-!
# Durable policy files

`writeAtomic` replaces a small file through a temporary sibling and a rename, and tries to put the
previous contents back when the durability barrier after the rename fails. Whatever fails, and
wherever the machine dies, the target holds its previous or its new contents.
-/

namespace RgbLightningNode.Snapshot
open Faulty FileSystem

def error : APIError := .failedVssInit "VSS snapshot policy could not be committed"

/-- Every input or output error is reported as the one policy error. -/
def orError {α : Type} (m : Io α) : Proc Tree APIError α := .mapError (fun _ => error) m

def readBounded (path : Path) : Proc Tree APIError (Option Bytes) := do
  match ← .attempt (symlinkMetadata path) with
  | .error .notFound => return none
  | .error _ => .throw error
  | .ok (.file bytes _) =>
    if bytes.length > 4096 then .throw error
    else do
      let read ← orError (readToEnd path)
      if read.length > 4096 then .throw error else return some read
  | .ok _ => .throw error

def syncParent (path : Path) : Proc Tree APIError Unit := orError (syncAll path.dropLast)

def tmpPath (path : Path) (suffix : ℕ) : Path := withExtension path ("tmp-" ++ toString suffix)

/-- A target that exists and is no regular file is never replaced. Metadata that cannot be read
does not stop the replacement. -/
def checkTarget (path : Path) : Proc Tree APIError Unit := do
  match ← .attempt (symlinkMetadata path) with
  | .ok node => if node.isFile then return () else .throw error
  | .error _ => return ()

/-- The part of a replacement that ends with the rename. -/
def stageAndRename (path tmp : Path) (bytes : Bytes) : Proc Tree APIError Unit := do
  orError (createNew tmp 0o600)
  orError (writeAll tmp bytes)
  orError (syncAll tmp)
  checkTarget path
  syncParent path
  orError (rename tmp path)

/-- A failed replacement removes its temporary file, and ignores whether that works. -/
def discardTmp (tmp : Path) (result : Except APIError Unit) : Proc Tree APIError Unit :=
  match result with
  | .ok _ => return ()
  | .error _ => do
    let _ ← .attempt (ε := IoError) (removeFile tmp)
    return ()

/-- One replacement: its result, and whether the new file was already renamed into place. -/
def replaceOnce (path : Path) (bytes : Bytes) :
    Proc Tree APIError (Except APIError Unit × Bool) := do
  let suffix ← .choose
  let tmp := tmpPath path suffix
  let staged ← .attempt (stageAndRename path tmp bytes)
  let renamed := staged.isOk
  let result ← match staged with
    | .ok _ => .attempt (syncParent path)
    | .error failure => pure (.error failure)
  discardTmp tmp result
  return (result, renamed)

def rollback (path : Path) (old : Option Bytes) : Proc Tree APIError (Except APIError Unit) :=
  match old with
  | some previous => do return (← replaceOnce path previous).1
  | none => .attempt do
    orError (removeFile path)
    syncParent path

def writeAtomic (path : Path) (bytes : Bytes) : Proc Tree APIError Unit := do
  let old ← readBounded path
  let (result, renamed) ← replaceOnce path bytes
  match result with
  | .ok _ => return ()
  | .error failure => do
    if renamed then
      let _ ← rollback path old
    .throw failure

/-! ### What a replacement can leave behind -/

/-- The paths a replacement may touch: the target and its temporary siblings. -/
def footprint (path : Path) : Set Path := {q | q = path ∨ ∃ suffix, q = tmpPath path suffix}

theorem self_mem_footprint (path : Path) : path ∈ footprint path := Or.inl rfl

theorem tmp_mem_footprint (path : Path) (suffix : ℕ) : tmpPath path suffix ∈ footprint path :=
  Or.inr ⟨suffix, rfl⟩

/-- No temporary sibling is the target itself. -/
def TmpApart (path : Path) : Prop := ∀ suffix, tmpPath path suffix ≠ path

variable {path : Path} {t : Tree}

theorem readBounded_spec :
    Holds (readBounded path) t (fun o t' => t = t' ∧ match o with
      | .ok none => t.look path = .absent
      | .ok (some bytes) => t.look path = .file bytes ∧ bytes.length ≤ 4096
      | .error e => e = error
      | .panicked => False
      | .died => True) := by
  apply holds_bind
  apply holds_attempt
  refine holds_symlinkMetadata ?_ ?_ (holds_throw ⟨rfl, rfl⟩) ⟨rfl, trivial⟩
  · intro n hn
    cases n with
    | file bytes attr =>
      change Holds (if bytes.length > 4096 then Proc.throw error else _) t _
      split
      · exact holds_throw ⟨rfl, rfl⟩
      · apply holds_bind
        apply holds_mapError
        refine holds_readToEnd ?_ (fun e => ⟨rfl, rfl⟩) ⟨rfl, trivial⟩
        intro read attr' hread
        change Holds (if read.length > 4096 then Proc.throw error else _) t _
        split
        · exact holds_throw ⟨rfl, rfl⟩
        · exact holds_pure ⟨rfl, Tree.look_eq_file.mpr ⟨attr', hread⟩, by omega⟩
    | dir attr => exact holds_throw ⟨rfl, rfl⟩
    | symlink => exact holds_throw ⟨rfl, rfl⟩
    | special => exact holds_throw ⟨rfl, rfl⟩
  · intro habsent
    exact holds_pure ⟨rfl, Tree.look_eq_absent.mpr habsent⟩

theorem orError_syncAll_quiet (p : Path) (t : Tree) : Quiet (orError (syncAll p)) t :=
  holds_mapError (holds_syncAll ⟨rfl, nofun⟩ ⟨rfl, nofun⟩ ⟨rfl, nofun⟩)

theorem checkTarget_quiet (path : Path) (t : Tree) : Quiet (checkTarget path) t := by
  apply holds_bind
  apply holds_attempt
  refine holds_symlinkMetadata ?_ (fun _ => holds_pure ⟨rfl, nofun⟩)
    (holds_pure ⟨rfl, nofun⟩) ⟨rfl, nofun⟩
  intro node _
  cases node with
  | file bytes attr => exact holds_pure ⟨rfl, nofun⟩
  | dir attr => exact holds_throw ⟨rfl, nofun⟩
  | symlink => exact holds_throw ⟨rfl, nofun⟩
  | special => exact holds_throw ⟨rfl, nofun⟩

theorem stageAndRename_spec {tmp : Path} {bytes : Bytes} (hapart : tmp ≠ path) :
    Holds (stageAndRename path tmp bytes) t (fun o t' => match o with
      | .ok _ => t.AgreeOff {path, tmp} t' ∧ t'.look path = .file bytes ∧ t'.node tmp = none
      | .error _ => t.AgreeOff {tmp} t'
      | .panicked => False
      | .died => t.AgreeOff {tmp} t') := by
  have hsame : t.AgreeOff {tmp} t := .refl _ _
  have hmem : tmp ∈ ({tmp} : Set Path) := Set.mem_singleton tmp
  apply holds_bind
  apply holds_mapError
  refine holds_createNew ?_ (fun e => hsame) hsame
  intro _ _
  have hcreated := hsame.put hmem (.file [] (ownedAttr 0o600))
  change Holds _ _ _
  apply holds_bind
  apply holds_mapError
  refine holds_writeAll ?_ (fun n => appendBytes_agreeOff hcreated hmem _)
    (fun n => appendBytes_agreeOff hcreated hmem _)
  have hwritten := appendBytes_agreeOff hcreated hmem bytes
  have hnode : (appendBytes tmp bytes (t.put tmp (.file [] (ownedAttr 0o600)))).node tmp =
      some (.file bytes (ownedAttr 0o600)) := by
    rw [appendBytes_file (Tree.put_node_self _ _ _), Tree.put_node_self, List.nil_append]
  generalize appendBytes tmp bytes (t.put tmp (.file [] (ownedAttr 0o600))) = t₁ at hwritten hnode
  refine holds_bind_quiet (orError_syncAll_quiet tmp t₁) (fun _ => ?_) (fun _ => hwritten) hwritten
  refine holds_bind_quiet (checkTarget_quiet path t₁) (fun _ => ?_) (fun _ => hwritten) hwritten
  refine holds_bind_quiet (orError_syncAll_quiet _ t₁) (fun _ => ?_) (fun _ => hwritten) hwritten
  apply holds_mapError
  refine holds_rename ?_ (fun _ => hwritten) hwritten
  intro found attr hfound
  rw [hnode] at hfound
  obtain ⟨rfl, rfl⟩ : bytes = found ∧ ownedAttr 0o600 = attr := by simpa using hfound
  have hboth : t.AgreeOff {path, tmp} t₁ := hwritten.mono (by simp)
  refine ⟨(hboth.erase (by simp)).put (by simp) _, ?_, ?_⟩
  · exact Tree.look_eq_file.mpr ⟨_, Tree.put_node_self _ _ _⟩
  · rw [Tree.put_node_of_ne _ _ hapart, Tree.erase_node_self]

theorem discardTmp_spec (tmp : Path) (result : Except APIError Unit) :
    Holds (discardTmp tmp result) t (fun o t' =>
      t.AgreeOff {tmp} t' ∧ (o = .ok () ∨ o = .died)) := by
  have hsame : t.AgreeOff {tmp} t := .refl _ _
  cases result with
  | ok _ => exact holds_pure ⟨hsame, Or.inl rfl⟩
  | error e =>
    apply holds_bind
    apply holds_attempt
    refine holds_removeFile (fun _ => ?_) (fun _ => holds_pure ⟨hsame, Or.inl rfl⟩)
      ⟨hsame, Or.inr rfl⟩
    exact holds_pure ⟨hsame.erase (Set.mem_singleton tmp), Or.inl rfl⟩

/-- How one replacement can end: the flag tells whether the target already holds the new bytes. -/
def Replaced (path : Path) (bytes : Bytes) (t : Tree) :
    Outcome APIError (Except APIError Unit × Bool) → Tree → Prop := fun o t' =>
  t.AgreeOff (footprint path) t' ∧ match o with
    | .ok (.ok _, renamed) => renamed = true ∧ t'.look path = .file bytes
    | .ok (.error _, true) => t'.look path = .file bytes
    | .ok (.error _, false) => t'.node path = t.node path
    | .error _ => False
    | .panicked => False
    | .died => t'.node path = t.node path ∨ t'.look path = .file bytes

theorem replaceOnce_spec {bytes : Bytes} (hapart : TmpApart path) :
    Holds (replaceOnce path bytes) t (Replaced path bytes t) := by
  apply holds_bind
  refine holds_choose ?_ ⟨.refl _ _, Or.inl rfl⟩
  intro suffix
  have htmp := tmp_mem_footprint path suffix
  have hpair : ({path, tmpPath path suffix} : Set Path) ⊆ footprint path := by
    rintro q (rfl | rfl)
    · exact self_mem_footprint _
    · exact htmp
  have hone : ({tmpPath path suffix} : Set Path) ⊆ footprint path :=
    Set.singleton_subset_iff.mpr htmp
  have hpath : path ∉ ({tmpPath path suffix} : Set Path) := fun h => hapart suffix h.symm
  apply holds_bind
  apply holds_attempt
  refine (stageAndRename_spec (hapart suffix)).mono ?_
  intro o t' ho
  cases o with
  | ok _ =>
    obtain ⟨hoff, hlook, _⟩ := ho
    apply holds_bind
    apply holds_attempt
    refine (orError_syncAll_quiet _ t').mono ?_
    rintro result _ ⟨rfl, hpanic⟩
    have hfinish : ∀ result : Except APIError Unit, Holds
        (do discardTmp (tmpPath path suffix) result; return (result, true)) t'
        (Replaced path bytes t) := by
      intro result
      refine holds_bind ((discardTmp_spec _ result).mono ?_)
      rintro o t₃ ⟨hoff', rfl | rfl⟩
      · have hall := (hoff.mono hpair).trans (hoff'.mono hone)
        have hlook' := (hoff'.look hpath).trans hlook
        refine holds_pure ⟨hall, ?_⟩
        cases result with
        | ok _ => exact ⟨rfl, hlook'⟩
        | error e => exact hlook'
      · exact ⟨(hoff.mono hpair).trans (hoff'.mono hone), Or.inr ((hoff'.look hpath).trans hlook)⟩
    cases result with
    | ok a => exact hfinish (.ok a)
    | error e => exact hfinish (.error e)
    | panicked => exact absurd rfl hpanic
    | died => exact ⟨hoff.mono hpair, Or.inr hlook⟩
  | error e =>
    apply holds_bind
    refine holds_pure ?_
    refine holds_bind ((discardTmp_spec _ _).mono ?_)
    rintro o t₃ ⟨hoff', rfl | rfl⟩
    · exact holds_pure ⟨(ho.mono hone).trans (hoff'.mono hone),
        (hoff' _ hpath).trans (ho _ hpath)⟩
    · exact ⟨(ho.mono hone).trans (hoff'.mono hone), Or.inl ((hoff' _ hpath).trans (ho _ hpath))⟩
  | panicked => exact ho.elim
  | died => exact ⟨ho.mono hone, Or.inl (ho _ hpath)⟩

/-- The bytes a bounded read reported before the replacement, as a look at the target. -/
def lookOf : Option Bytes → Tree.Look
  | none => .absent
  | some bytes => .file bytes

/-- A rollback leaves the target as it finds it or with the previous contents. -/
theorem rollback_spec (hapart : TmpApart path) (old : Option Bytes) :
    Holds (rollback path old) t (fun o t' => t.AgreeOff (footprint path) t' ∧
      (t'.look path = t.look path ∨ t'.look path = lookOf old) ∧
      match o with
        | .ok _ | .died => True
        | .error _ | .panicked => False) := by
  have hsame : t.AgreeOff (footprint path) t := .refl _ _
  cases old with
  | none =>
    apply holds_attempt
    apply holds_bind
    apply holds_mapError
    refine holds_removeFile (fun _ => ?_) (fun _ => ⟨hsame, Or.inl rfl, trivial⟩)
      ⟨hsame, Or.inl rfl, trivial⟩
    have herased := hsame.erase (self_mem_footprint path)
    have habsent : (t.erase path).look path = .absent :=
      Tree.look_eq_absent.mpr (Tree.erase_node_self _ _)
    refine (orError_syncAll_quiet _ _).mono ?_
    rintro o t' ⟨rfl, hpanic⟩
    cases o with
    | panicked => exact absurd rfl hpanic
    | ok _ | error _ | died => exact ⟨herased, Or.inr habsent, trivial⟩
  | some previous =>
    apply holds_bind
    refine (replaceOnce_spec hapart).mono ?_
    rintro o t' ⟨hoff, ho⟩
    match o, ho with
    | .ok (.ok _, _), ho => exact holds_pure ⟨hoff, Or.inr ho.2, trivial⟩
    | .ok (.error _, true), ho => exact holds_pure ⟨hoff, Or.inr ho, trivial⟩
    | .ok (.error _, false), ho => exact holds_pure ⟨hoff, Or.inl (Tree.look_congr ho), trivial⟩
    | .error _, ho => exact ho.elim
    | .panicked, ho => exact ho.elim
    | .died, ho => exact ⟨hoff, ho.imp Tree.look_congr id, trivial⟩

/-- How an atomic write can end: an acknowledgement means the new contents, anything else the
previous or the new ones. Nothing but the target and its temporary siblings is touched. -/
def Written (path : Path) (bytes : Bytes) (t : Tree) : Outcome APIError Unit → Tree → Prop :=
  fun o t' => t.AgreeOff (footprint path) t' ∧ match o with
    | .ok _ => t'.look path = .file bytes
    | .error _ | .died => t'.look path = t.look path ∨ t'.look path = .file bytes
    | .panicked => False

theorem writeAtomic_spec {bytes : Bytes} (hapart : TmpApart path) :
    Holds (writeAtomic path bytes) t (Written path bytes t) := by
  have hsame : t.AgreeOff (footprint path) t := .refl _ _
  apply holds_bind
  refine readBounded_spec.mono ?_
  rintro o _ ⟨rfl, hread⟩
  cases o with
  | error e => exact ⟨hsame, Or.inl rfl⟩
  | panicked => exact hread.elim
  | died => exact ⟨hsame, Or.inl rfl⟩
  | ok old =>
    have hold : lookOf old = t.look path := by
      cases old with
      | none => exact hread.symm
      | some previous => exact hread.1.symm
    change Holds _ _ _
    apply holds_bind
    refine (replaceOnce_spec hapart).mono ?_
    rintro o t₁ ⟨hoff, ho⟩
    match o, ho with
    | .ok (.ok _, _), ho => exact holds_pure ⟨hoff, ho.2⟩
    | .ok (.error _, false), ho => exact holds_throw ⟨hoff, Or.inl (Tree.look_congr ho)⟩
    | .ok (.error e, true), ho =>
      change Holds _ _ _
      apply holds_bind
      refine (rollback_spec hapart old).mono ?_
      rintro o t₂ ⟨hoff₂, hlook, ho₂⟩
      have hall := hoff.trans hoff₂
      have hend : t₂.look path = t.look path ∨ t₂.look path = .file bytes := by
        rcases hlook with hlook | hlook
        · exact Or.inr (hlook.trans ho)
        · exact Or.inl (hlook.trans hold)
      cases o with
      | ok _ => exact holds_throw ⟨hall, hend⟩
      | error _ => exact ho₂.elim
      | panicked => exact ho₂.elim
      | died => exact ⟨hall, hend⟩
    | .error _, ho => exact ho.elim
    | .panicked, ho => exact ho.elim
    | .died, ho => exact ⟨hoff, ho.imp Tree.look_congr id⟩

end RgbLightningNode.Snapshot
