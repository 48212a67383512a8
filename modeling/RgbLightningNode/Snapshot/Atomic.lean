import RgbLightningNode.Snapshot.Names

/-!
# Atomic writes with rollback

A write answers with one policy error whatever went wrong. The observed versions below also report
which rename or removal was reached and which temporary file could not be removed. Without their
report they are the source's own functions, so what holds of a report holds of the write.
-/

namespace RgbLightningNode.Snapshot
open Faulty FileSystem

/-- What one replacement of the target did. A rollback that removes the target counts as one. -/
structure Replacement where
  result : Except APIError Unit
  renamed : Bool
  kept : List Path

def discardObserved (tmp : Path) (result : Except APIError Unit) :
    Proc Tree APIError (List Path) :=
  match result with
  | .ok _ => return []
  | .error _ => do
    match ← .attempt (ε := IoError) (removeFile tmp) with
    | .ok _ => return []
    | .error _ => return [tmp]

def replaceObserved (path : Path) (bytes : Bytes) : Proc Tree APIError Replacement := do
  let suffix ← .choose
  let tmp := tmpPath path suffix
  let staged ← .attempt (stageAndRename path tmp bytes)
  let result ← match staged with
    | .ok _ => .attempt (syncParent path)
    | .error failure => pure (.error failure)
  let kept ← discardObserved tmp result
  return ⟨result, staged.isOk, kept⟩

def rollbackObserved (path : Path) (old : Option Bytes) : Proc Tree APIError Replacement :=
  match old with
  | some previous => replaceObserved path previous
  | none => do
    match ← .attempt (orError (removeFile path)) with
    | .error failure => return ⟨.error failure, false, []⟩
    | .ok _ => return ⟨← .attempt (syncParent path), true, []⟩

structure Report where
  forward : Replacement
  back : Option Replacement

namespace Report

/-- The new file was renamed into place, and no rollback got as far as its own rename or
removal. -/
def stands (r : Report) : Bool :=
  r.forward.renamed && match r.back with
    | none => true
    | some back => !back.renamed

def kept (r : Report) : List Path :=
  r.forward.kept ++ match r.back with
    | none => []
    | some back => back.kept

def answer (r : Report) : Proc Tree APIError Unit :=
  match r.forward.result with
  | .ok _ => return ()
  | .error failure => .throw failure

end Report

def writeObserved (path : Path) (bytes : Bytes) : Proc Tree APIError Report := do
  let old ← readBounded path
  let forward ← replaceObserved path bytes
  match forward.result with
  | .ok _ => return ⟨forward, none⟩
  | .error _ =>
    if forward.renamed then return ⟨forward, some (← rollbackObserved path old)⟩
    else return ⟨forward, none⟩

/-! ### The report changes nothing -/

theorem discardTmp_eq (tmp : Path) (result : Except APIError Unit) :
    discardTmp tmp result = do
      let _ ← discardObserved tmp result
      return () := by
  cases result with
  | ok _ => rfl
  | error failure =>
    simp only [discardTmp, discardObserved, bind_assoc]
    congr 1
    funext removed
    cases removed <;> rfl

theorem replaceOnce_eq (path : Path) (bytes : Bytes) :
    replaceOnce path bytes = do
      let r ← replaceObserved path bytes
      return (r.result, r.renamed) := by
  simp only [replaceOnce, replaceObserved, discardTmp_eq, bind_assoc, pure_bind]
  congr 1
  funext suffix
  congr 1
  funext staged
  cases staged <;> simp only [bind_assoc, pure_bind]

theorem rollback_eq (path : Path) (old : Option Bytes) :
    rollback path old = do
      let r ← rollbackObserved path old
      return r.result := by
  cases old with
  | some previous => simp only [rollback, rollbackObserved, replaceOnce_eq, bind_assoc, pure_bind]
  | none =>
    funext t ds
    simp only [rollback, rollbackObserved, Proc.bind_eq, Proc.attempt]
    rcases orError (removeFile path) t ds with ⟨_ | _ | _ | _, t₁, ds₁⟩
    · simp only [Outcome.attempt, Proc.bind_eq, Proc.attempt]
      rcases syncParent path t₁ ds₁ with ⟨_ | _ | _ | _, t₂, ds₂⟩ <;> rfl
    · rfl
    · rfl
    · rfl

theorem writeAtomic_eq (path : Path) (bytes : Bytes) :
    writeAtomic path bytes = writeObserved path bytes >>= Report.answer := by
  simp only [writeAtomic, writeObserved, replaceOnce_eq, bind_assoc, pure_bind]
  congr 1
  funext old
  congr 1
  funext forward
  rcases forward with ⟨_ | _, renamed, kept⟩
  · cases renamed with
    | true => simp only [if_true, rollback_eq, bind_assoc, pure_bind, Report.answer]
    | false => rfl
  · rfl

/-- What holds of a process holds of the part of it that its last step converts. -/
theorem holds_of_convert {σ : Type} {ε α β : Type} {m : Proc σ ε α} {convert : α → β} {s : σ}
    {Q : Outcome ε β → σ → Prop}
    (h : Holds (do let a ← m; return convert a) s Q) : Holds m s (fun o s' => match o with
      | .ok a => Q (.ok (convert a)) s'
      | .error failure => Q (.error failure) s'
      | .panicked => Q .panicked s'
      | .died => Q .died s') := by
  intro ds
  have hrun := h ds
  rw [Proc.bind_eq] at hrun
  rcases hm : m s ds with ⟨_ | _ | _ | _, s', ds'⟩ <;> rwa [hm] at hrun

/-! ### What a report says -/

/-- A temporary sibling that is there afterwards was there before, or its removal failed. -/
def Tidied (path : Path) (kept : List Path) (t t' : Tree) : Prop :=
  ∀ suffix, t'.node (tmpPath path suffix) = none ∨
    t'.node (tmpPath path suffix) = t.node (tmpPath path suffix) ∨ tmpPath path suffix ∈ kept

variable {path : Path} {t : Tree} {bytes : Bytes}

theorem Tidied.trans {kept kept' : List Path} {t₁ t₂ : Tree} (h : Tidied path kept t t₁)
    (h' : Tidied path kept' t₁ t₂) : Tidied path (kept ++ kept') t t₂ := by
  intro suffix
  rcases h' suffix with hnone | hsame | hmem
  · exact Or.inl hnone
  · rw [hsame]
    exact (h suffix).imp_right (Or.imp_right (List.mem_append_left _))
  · exact Or.inr (Or.inr (List.mem_append_right _ hmem))

/-- Only the sibling that a replacement used can differ. -/
theorem Tidied.of_agreeOff {kept : List Path} {suffix : ℕ} {t' : Tree}
    (hapart : TmpApart path) (h : t.AgreeOff {path, tmpPath path suffix} t')
    (hused : t'.node (tmpPath path suffix) = none ∨ tmpPath path suffix ∈ kept) :
    Tidied path kept t t' := by
  intro other
  by_cases hother : tmpPath path other = tmpPath path suffix
  · rw [hother]
    exact hused.imp_right Or.inr
  · refine Or.inr (Or.inl (h _ ?_))
    simp [hapart other, hother]

theorem discardObserved_spec (tmp : Path) (result : Except APIError Unit)
    (hok : result.isOk → t.node tmp = none) :
    Holds (discardObserved tmp result) t (fun o t' => t.AgreeOff {tmp} t' ∧ match o with
      | .ok kept => t'.node tmp = none ∨ tmp ∈ kept
      | .error _ | .panicked => False
      | .died => True) := by
  have hsame : t.AgreeOff {tmp} t := .refl _ _
  cases result with
  | ok _ => exact holds_pure ⟨hsame, Or.inl (hok rfl)⟩
  | error failure =>
    apply holds_bind
    apply holds_attempt
    refine holds_removeFile (fun _ => ?_) (fun _ => ?_) ⟨hsame, trivial⟩
    · exact holds_pure ⟨hsame.erase (Set.mem_singleton tmp), Or.inl (Tree.erase_node_self _ _)⟩
    · exact holds_pure ⟨hsame, Or.inr (List.mem_singleton_self tmp)⟩

theorem replaceObserved_tidied (hapart : TmpApart path) :
    Holds (replaceObserved path bytes) t (fun o t' => match o with
      | .ok r => Tidied path r.kept t t'
      | .error _ | .panicked => False
      | .died => True) := by
  apply holds_bind
  refine holds_choose (fun suffix => ?_) trivial
  -- a discarded or renamed temporary file closes both branches in the same way
  have hfinish : ∀ (result : Except APIError Unit) (renamed : Bool) (t₁ : Tree),
      t.AgreeOff {path, tmpPath path suffix} t₁ →
      (result.isOk → t₁.node (tmpPath path suffix) = none) →
      Holds (do
        let kept ← discardObserved (tmpPath path suffix) result
        return (⟨result, renamed, kept⟩ : Replacement)) t₁ (fun o t' => match o with
          | .ok r => Tidied path r.kept t t'
          | .error _ | .panicked => False
          | .died => True) := by
    intro result renamed t₁ hoff hok
    apply holds_bind
    refine (discardObserved_spec _ result hok).mono ?_
    rintro o t₂ ⟨hdiscard, ho⟩
    cases o with
    | ok kept =>
      exact holds_pure (Tidied.of_agreeOff hapart (hoff.trans (hdiscard.mono (by simp))) ho)
    | error _ => exact ho
    | panicked => exact ho
    | died => trivial
  apply holds_bind
  apply holds_attempt
  refine (stageAndRename_spec (hapart suffix)).mono ?_
  intro o t₁ ho
  cases o with
  | ok _ =>
    obtain ⟨hoff, _, hnone⟩ := ho
    apply holds_bind
    apply holds_attempt
    refine (orError_syncAll_quiet _ t₁).mono ?_
    rintro result _ ⟨rfl, hpanic⟩
    cases result with
    | ok _ => exact hfinish _ _ t₁ hoff (fun _ => hnone)
    | error _ => exact hfinish _ _ t₁ hoff (fun _ => hnone)
    | panicked => exact absurd rfl hpanic
    | died => trivial
  | error failure => exact hfinish _ _ t₁ (ho.mono (by simp)) nofun
  | panicked => exact ho
  | died => trivial

theorem replaceObserved_spec (hapart : TmpApart path) :
    Holds (replaceObserved path bytes) t (fun o t' => t.AgreeOff (footprint path) t' ∧ match o with
      | .ok r => Tidied path r.kept t t' ∧ (r.result.isOk → r.renamed = true) ∧
          if r.renamed then t'.look path = .file bytes else t'.look path = t.look path
      | .error _ | .panicked => False
      | .died => t'.look path = t.look path ∨ t'.look path = .file bytes) := by
  have hreplaced : Holds (replaceOnce path bytes) t (Replaced path bytes t) :=
    replaceOnce_spec hapart
  rw [replaceOnce_eq] at hreplaced
  refine ((holds_of_convert hreplaced).and (replaceObserved_tidied hapart)).mono ?_
  rintro o t' ⟨ho, htidied⟩
  match o, ho, htidied with
  | .ok ⟨.ok _, true, kept⟩, ⟨hoff, ho⟩, htidied => exact ⟨hoff, htidied, fun _ => rfl, ho.2⟩
  | .ok ⟨.ok _, false, kept⟩, ⟨hoff, ho⟩, htidied => exact absurd ho.1 Bool.false_ne_true
  | .ok ⟨.error _, true, kept⟩, ⟨hoff, ho⟩, htidied => exact ⟨hoff, htidied, nofun, ho⟩
  | .ok ⟨.error _, false, kept⟩, ⟨hoff, ho⟩, htidied =>
    exact ⟨hoff, htidied, nofun, Tree.look_congr ho⟩
  | .died, ⟨hoff, ho⟩, htidied => exact ⟨hoff, ho.imp_left Tree.look_congr⟩

/-- A rollback that got as far as its rename or removal restores what the bounded read saw. -/
theorem rollbackObserved_spec (hapart : TmpApart path) (old : Option Bytes) :
    Holds (rollbackObserved path old) t (fun o t' => t.AgreeOff (footprint path) t' ∧ match o with
      | .ok r => Tidied path r.kept t t' ∧
          if r.renamed then t'.look path = lookOf old else t'.look path = t.look path
      | .error _ | .panicked => False
      | .died => t'.look path = t.look path ∨ t'.look path = lookOf old) := by
  have hsame : t.AgreeOff (footprint path) t := .refl _ _
  cases old with
  | some previous =>
    refine (replaceObserved_spec hapart).mono ?_
    rintro o t' ⟨hoff, ho⟩
    cases o with
    | ok r => exact ⟨hoff, ho.1, ho.2.2⟩
    | error _ => exact ho.elim
    | panicked => exact ho.elim
    | died => exact ⟨hoff, ho⟩
  | none =>
    have htidied : ∀ suffix, (t.erase path).node (tmpPath path suffix) =
        t.node (tmpPath path suffix) := fun suffix => Tree.erase_node_of_ne t (hapart suffix)
    have habsent : (t.erase path).look path = .absent :=
      Tree.look_eq_absent.mpr (Tree.erase_node_self _ _)
    have herased := hsame.erase (self_mem_footprint path)
    apply holds_bind
    apply holds_attempt
    apply holds_mapError
    refine holds_removeFile (fun _ => ?_) (fun _ => ?_) ⟨hsame, Or.inl rfl⟩
    · apply holds_bind
      apply holds_attempt
      refine (orError_syncAll_quiet _ _).mono ?_
      rintro o t' ⟨rfl, hpanic⟩
      cases o with
      | ok _ => exact holds_pure ⟨herased, fun suffix => Or.inr (Or.inl (htidied suffix)), habsent⟩
      | error _ =>
        exact holds_pure ⟨herased, fun suffix => Or.inr (Or.inl (htidied suffix)), habsent⟩
      | panicked => exact absurd rfl hpanic
      | died => exact ⟨herased, Or.inr habsent⟩
    · exact holds_pure ⟨hsame, fun _ => Or.inr (Or.inl rfl), rfl⟩

/-- How a write ends, seen through its report. A target that is neither absent nor a regular file
is not even attempted. -/
def Observed (path : Path) (bytes : Bytes) (t : Tree) : Outcome APIError Report → Tree → Prop :=
  fun o t' => t.AgreeOff (footprint path) t' ∧
    (t.look path = .other → t' = t ∧ ∀ r, o ≠ .ok r) ∧ match o with
    | .ok r => Tidied path r.kept t t' ∧ match r.forward.result with
      | .ok _ => t'.look path = .file bytes
      | .error _ => t'.look path = if r.stands then .file bytes else t.look path
    | .error _ => t' = t
    | .panicked => False
    | .died => t'.look path = t.look path ∨ t'.look path = .file bytes

theorem writeObserved_spec (hapart : TmpApart path) :
    Holds (writeObserved path bytes) t (Observed path bytes t) := by
  have hsame : t.AgreeOff (footprint path) t := .refl _ _
  apply holds_bind
  refine readBounded_spec.mono ?_
  rintro o _ ⟨rfl, hread⟩
  cases o with
  | error _ => exact ⟨hsame, fun _ => ⟨rfl, nofun⟩, rfl⟩
  | panicked => exact hread.elim
  | died => exact ⟨hsame, fun _ => ⟨rfl, nofun⟩, Or.inl rfl⟩
  | ok old =>
    have hold : t.look path = lookOf old := by
      cases old with
      | none => exact hread
      | some previous => exact hread.1
    have hregular : t.look path ≠ .other := by
      rw [hold]
      cases old <;> exact nofun
    change Holds _ _ _
    apply holds_bind
    refine (replaceObserved_spec hapart).mono ?_
    rintro o t₁ ⟨hoff, ho⟩
    match o, ho with
    | .ok ⟨.ok _, renamed, kept⟩, ⟨htidied, hrenamed, hlook⟩ =>
      rw [if_pos (hrenamed rfl)] at hlook
      refine holds_pure ⟨hoff, fun h => absurd h hregular, ?_, hlook⟩
      simpa [Report.kept] using htidied
    | .ok ⟨.error _, false, kept⟩, ⟨htidied, _, hlook⟩ =>
      refine holds_pure ⟨hoff, fun h => absurd h hregular, ?_, by simpa [Report.stands] using hlook⟩
      simpa [Report.kept] using htidied
    | .ok ⟨.error _, true, kept⟩, ⟨htidied, _, hlook⟩ =>
      change t₁.look path = .file bytes at hlook
      change Holds _ _ _
      apply holds_bind
      refine (rollbackObserved_spec hapart old).mono ?_
      rintro o t₂ ⟨hoff₂, ho⟩
      match o, ho with
      | .ok ⟨_, true, kept'⟩, ⟨htidied₂, hback⟩ =>
        exact holds_pure ⟨hoff.trans hoff₂, fun h => absurd h hregular, htidied.trans htidied₂,
          hback.trans hold.symm⟩
      | .ok ⟨_, false, kept'⟩, ⟨htidied₂, hback⟩ =>
        exact holds_pure ⟨hoff.trans hoff₂, fun h => absurd h hregular, htidied.trans htidied₂,
          hback.trans hlook⟩
      | .died, hback =>
        refine ⟨hoff.trans hoff₂, fun h => absurd h hregular, ?_⟩
        rcases hback with hback | hback
        · exact Or.inr (hback.trans hlook)
        · exact Or.inl (hback.trans hold.symm)
    | .died, ho => exact ⟨hoff, fun h => absurd h hregular, ho⟩

/-- Whatever fails, and wherever the machine dies, the target holds its previous or its new
contents, and an acknowledged write the new ones. The new contents outlive a failed write only where
the report says that they stand, and a temporary file only where its removal failed. -/
theorem writeAtomic_atomic (hapart : TmpApart path) (bytes : Bytes) (t : Tree) :
    writeAtomic path bytes = writeObserved path bytes >>= Report.answer ∧
      Holds (writeAtomic path bytes) t (Written path bytes t) ∧
      (t.look path = .other →
        Holds (writeAtomic path bytes) t (fun o t' => t' = t ∧ ∀ u, o ≠ .ok u)) ∧
      Holds (writeObserved path bytes) t (Observed path bytes t) := by
  have hobserved : Holds (writeObserved path bytes) t (Observed path bytes t) :=
    writeObserved_spec hapart
  refine ⟨writeAtomic_eq path bytes, writeAtomic_spec hapart, fun hother => ?_, hobserved⟩
  rw [writeAtomic_eq]
  apply holds_bind
  refine hobserved.mono ?_
  rintro o t' ⟨_, hrefused, _⟩
  obtain ⟨htree, hanswer⟩ := hrefused hother
  cases o with
  | ok r => exact absurd rfl (hanswer r)
  | error _ => exact ⟨htree, nofun⟩
  | panicked => exact ⟨htree, nofun⟩
  | died => exact ⟨htree, nofun⟩

def samplePath : Path := ["preference" ++ "." ++ "json"]

theorem samplePath_apart : TmpApart samplePath := by
  intro suffix h
  rw [samplePath, tmpPath_extension "preference" "json" (by decide) (by decide), extension_inj] at h
  exact tmp_ne suffix (by decide) h

def sampleTree : Tree := Tree.empty.put samplePath (.file [0x30] (ownedAttr 0o600))

/-- The rename of the new preference fails. -/
def failedRename : Schedule := List.replicate 8 ⟨.proceed, 5⟩ ++ [⟨.refuse, 0⟩]

/-- The barrier after the rename of the new preference fails, and then the rename of the old one
back over it. -/
def failedRollback : Schedule :=
  List.replicate 9 ⟨.proceed, 5⟩ ++ [⟨.refuse, 0⟩] ++ List.replicate 7 ⟨.proceed, 6⟩ ++
    [⟨.refuse, 0⟩]

/-- A directory that takes the place of a preference is left alone; a failed rename leaves the old
contents and no temporary file; and after a failed rollback the new contents stand, which the
report says. -/
theorem writeAtomic_atomic_sample :
    Holds (writeAtomic samplePath [0x31]) (Tree.empty.put samplePath (.dir (ownedAttr 0o700)))
      (fun o t' => t' = Tree.empty.put samplePath (.dir (ownedAttr 0o700)) ∧ ∀ u, o ≠ .ok u) ∧
    (writeObserved samplePath [0x31] sampleTree failedRename).2.1.look samplePath = .file [0x30] ∧
    Tidied samplePath [] sampleTree
      (writeObserved samplePath [0x31] sampleTree failedRename).2.1 ∧
    (writeObserved samplePath [0x31] sampleTree failedRollback).2.1.look samplePath =
      .file [0x31] := by
  have hrefused : (writeObserved samplePath [0x31] sampleTree failedRename).1 =
      .ok ⟨⟨.error error, false, []⟩, none⟩ := by rfl
  have hstands : (writeObserved samplePath [0x31] sampleTree failedRollback).1 =
      .ok ⟨⟨.error error, true, [tmpPath samplePath 5]⟩, some ⟨.error error, false, []⟩⟩ := by rfl
  obtain ⟨_, _, hdirectory, _⟩ := writeAtomic_atomic samplePath_apart [0x31]
    (Tree.empty.put samplePath (.dir (ownedAttr 0o700)))
  obtain ⟨_, _, _, hobserved⟩ := writeAtomic_atomic samplePath_apart [0x31] sampleTree
  have hrename := hobserved failedRename
  rw [hrefused] at hrename
  obtain ⟨_, _, htidied, hold⟩ := hrename
  have hrollback := hobserved failedRollback
  rw [hstands] at hrollback
  obtain ⟨_, _, _, hnew⟩ := hrollback
  exact ⟨hdirectory (by decide), hold, htidied, hnew⟩

end RgbLightningNode.Snapshot
