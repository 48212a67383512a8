import RgbLightningNode.FileSystem.Visible
import RgbLightningNode.Snapshot.Operations

/-!
# What a policy sees of its storage directory

The operations of a policy read and write its three files and their temporary siblings, and nothing
else of the directory: from two worlds that agree on these paths and on the flags they take the
same course.
-/

namespace RgbLightningNode.Snapshot
open Faulty FileSystem

section Files

variable {K : Set Path} {path tmp : Path} {bytes : Bytes}

theorem respects_readBounded (hpath : path ∈ K) :
    Respects (Tree.AgreeOn K) (readBounded path) := by
  refine respects_bind (respects_attempt (respects_symlinkMetadata hpath)) fun found => ?_
  match found with
  | .error .notFound => exact respects_pure _
  | .error .alreadyExists => exact respects_throw _
  | .error .other => exact respects_throw _
  | .ok (.file _ _) =>
    refine respects_ite (respects_throw _) ?_
    refine respects_bind (respects_mapError (respects_readToEnd hpath)) fun read => ?_
    exact respects_ite (respects_throw _) (respects_pure _)
  | .ok (.dir _) => exact respects_throw _
  | .ok .symlink => exact respects_throw _
  | .ok .special => exact respects_throw _

theorem respects_syncParent : Respects (Tree.AgreeOn K) (syncParent path) :=
  respects_mapError respects_syncAll

theorem respects_checkTarget (hpath : path ∈ K) :
    Respects (Tree.AgreeOn K) (checkTarget path) := by
  refine respects_bind (respects_attempt (respects_symlinkMetadata hpath)) fun found => ?_
  cases found with
  | ok node => exact respects_ite (respects_pure _) (respects_throw _)
  | error _ => exact respects_pure _

theorem respects_stageAndRename (hpath : path ∈ K) (htmp : tmp ∈ K) (htop : Toplevel K) :
    Respects (Tree.AgreeOn K) (stageAndRename path tmp bytes) := by
  refine respects_bind (respects_mapError (respects_createNew htmp htop)) fun _ => ?_
  refine respects_bind (respects_mapError (respects_writeAll htmp)) fun _ => ?_
  refine respects_bind (respects_mapError respects_syncAll) fun _ => ?_
  refine respects_bind (respects_checkTarget hpath) fun _ => ?_
  refine respects_bind respects_syncParent fun _ => ?_
  exact respects_mapError (respects_rename htmp hpath)

theorem respects_discardTmp (htmp : tmp ∈ K) (result : Except APIError Unit) :
    Respects (Tree.AgreeOn K) (discardTmp tmp result) := by
  cases result with
  | ok _ => exact respects_pure _
  | error _ =>
    exact respects_bind (respects_attempt (respects_removeFile htmp)) fun _ => respects_pure _

theorem respects_replaceOnce (hpath : footprint path ⊆ K) (htop : Toplevel K) :
    Respects (Tree.AgreeOn K) (replaceOnce path bytes) := by
  refine respects_bind respects_choose fun suffix => ?_
  have htmp := hpath (tmp_mem_footprint path suffix)
  refine respects_bind (respects_attempt (respects_stageAndRename
    (hpath (self_mem_footprint path)) htmp htop)) fun staged => ?_
  cases staged with
  | ok _ =>
    refine respects_bind (respects_attempt respects_syncParent) fun result => ?_
    exact respects_bind (respects_discardTmp htmp result) fun _ => respects_pure _
  | error failure =>
    refine respects_bind (respects_pure _) fun result => ?_
    exact respects_bind (respects_discardTmp htmp result) fun _ => respects_pure _

theorem respects_rollback (hpath : footprint path ⊆ K) (htop : Toplevel K) (old : Option Bytes) :
    Respects (Tree.AgreeOn K) (rollback path old) := by
  cases old with
  | some previous =>
    exact respects_bind (respects_replaceOnce hpath htop) fun _ => respects_pure _
  | none =>
    refine respects_attempt (respects_bind (respects_mapError (respects_removeFile
      (hpath (self_mem_footprint path)))) fun _ => ?_)
    exact respects_syncParent

theorem respects_writeAtomic (hpath : footprint path ⊆ K) (htop : Toplevel K) :
    Respects (Tree.AgreeOn K) (writeAtomic path bytes) := by
  refine respects_bind (respects_readBounded (hpath (self_mem_footprint path))) fun old => ?_
  refine respects_bind (respects_replaceOnce hpath htop) fun ⟨result, renamed⟩ => ?_
  cases result with
  | ok _ => exact respects_pure _
  | error failure =>
    refine respects_ite ?_ (respects_throw _)
    exact respects_bind (respects_rollback hpath htop old) fun _ => respects_throw _

end Files

variable {W : Type}

/-- The flags are the same, and so are the files at the paths of `K`. -/
structure SameView (K : Set Path) (w w' : World W) : Prop where
  flags : w'.flags = w.flags
  tree : w.tree.AgreeOn K w'.tree

section World

variable {K : Set Path}

theorem respects_onTree {ε α : Type} {m : Proc Tree ε α} (h : Respects (Tree.AgreeOn K) m) :
    Respects (SameView K) (onTree m : Proc (World W) ε α) :=
  respects_zoom h (fun _ _ hw => hw.tree) fun _ _ _ _ hw ht => ⟨hw.flags, ht⟩

theorem respects_note (e : Event W) : Respects (SameView K) (note e) :=
  respects_update fun _ _ hw => ⟨hw.flags, hw.tree⟩

theorem respects_setFlags (change : Flags → Flags) :
    Respects (SameView K) (setFlags change : Run W PUnit) :=
  respects_update fun _ _ hw => ⟨congrArg change hw.flags, hw.tree⟩

theorem respects_flags {α : Type} (view : Flags → α) :
    Respects (SameView K) (.read fun w => view w.flags : Run W α) :=
  respects_read fun _ _ hw => congrArg view hw.flags

theorem respects_okOrElse {α : Type} (x : Option α) :
    Respects (SameView K) (okOrElse x : Run W α) := by
  cases x with
  | some a => exact respects_pure a
  | none => exact respects_throw _

end World

namespace SnapshotPolicy

variable (p : SnapshotPolicy)

/-- The paths a policy reads or writes. -/
def files : Set Path :=
  footprint p.path ∪ footprint p.pendingPath ∪ footprint p.completionPath

theorem path_subset : footprint p.path ⊆ p.files := fun _ h => Or.inl (Or.inl h)

theorem pending_subset : footprint p.pendingPath ⊆ p.files := fun _ h => Or.inl (Or.inr h)

theorem completion_subset : footprint p.completionPath ⊆ p.files := fun _ h => Or.inr h

/-- The paths of a policy differ in their extension only. -/
theorem files_named {stem : String} (hstem : p.path = [stem ++ "." ++ "json"]) :
    ∀ q ∈ p.files, ∃ extension, q = [stem ++ "." ++ extension] := by
  obtain ⟨stem', _, hpath, hpending, hcompletion, htmp⟩ := p.tmp_names
  obtain rfl : stem = stem' := by
    rw [hpath] at hstem
    simpa [← String.toList_inj] using hstem.symm
  rintro q (((rfl | ⟨n, rfl⟩) | (rfl | ⟨n, rfl⟩)) | (rfl | ⟨n, rfl⟩))
  · exact ⟨_, hpath⟩
  · exact ⟨_, (htmp n).1⟩
  · exact ⟨_, hpending⟩
  · exact ⟨_, (htmp n).2.1⟩
  · exact ⟨_, hcompletion⟩
  · exact ⟨_, (htmp n).2.2⟩

theorem files_toplevel : Toplevel p.files := by
  intro q hq
  obtain ⟨stem, _, hpath⟩ := p.named
  obtain ⟨extension, rfl⟩ := p.files_named hpath q hq
  rfl

variable (serde : Serde)

theorem respects_pending : Respects (SameView p.files) (p.pending : Run W Bool) := by
  refine respects_bind (respects_flags _) fun unsaved => respects_ite (respects_pure _) ?_
  refine respects_bind (respects_attempt (respects_onTree (respects_symlinkMetadata
    (p.pending_subset (self_mem_footprint _))))) fun found => ?_
  match found with
  | .error .notFound => exact respects_pure _
  | .error .alreadyExists => exact respects_pure _
  | .error .other => exact respects_pure _
  | .ok _ => exact respects_pure _

theorem respects_readReceipt :
    Respects (SameView p.files) (p.readReceipt serde : Run W (Option Completion)) := by
  refine respects_bind (respects_onTree (respects_readBounded
    (p.completion_subset (self_mem_footprint _)))) fun found => ?_
  cases found with
  | none => exact respects_pure _
  | some bytes => exact respects_bind (respects_okOrElse _) fun _ => respects_pure _

theorem respects_metadata :
    Respects (SameView p.files) (p.metadata serde : Run W Metadata) := by
  refine respects_bind (respects_flags _) fun unknown => respects_ite (respects_throw _) ?_
  refine respects_bind (p.respects_readReceipt serde) fun receipt => ?_
  exact respects_bind (respects_flags _) fun enabled => respects_pure _

theorem respects_savedPreference :
    Respects (SameView p.files) (p.savedPreference serde : Run W (Option Bool)) := by
  refine respects_bind (respects_onTree (respects_readBounded
    (p.path_subset (self_mem_footprint _)))) fun found => ?_
  cases found with
  | none => exact respects_pure _
  | some bytes => exact respects_bind (respects_okOrElse _) fun _ => respects_pure _

theorem respects_readBack :
    Respects (SameView p.files) (p.readBack serde : Run W (Option PolicyFile)) := by
  refine respects_bind (respects_attempt (respects_onTree (respects_readBounded
    (p.path_subset (self_mem_footprint _))))) fun found => ?_
  match found with
  | .ok (some _) => exact respects_pure _
  | .ok none => exact respects_pure _
  | .error _ => exact respects_pure _

theorem respects_adopt (actual : Option PolicyFile) :
    Respects (SameView p.files) (adopt actual : Run W PUnit) := by
  cases actual with
  | none => exact respects_update fun _ _ hw => ⟨by simp only [hw.flags], hw.tree⟩
  | some saved => exact respects_update fun _ _ hw => ⟨by simp only [hw.flags], hw.tree⟩

theorem respects_commitEnabled (enabled : Bool) :
    Respects (SameView p.files) (p.commitEnabled serde enabled : Run W Unit) := by
  refine respects_bind (respects_note _) fun _ => respects_bind (respects_flags _) fun unknown => ?_
  refine respects_ite (respects_throw _) (respects_bind (respects_attempt (respects_onTree
    (respects_writeAtomic p.path_subset p.files_toplevel))) fun written => ?_)
  cases written with
  | ok _ => exact respects_bind (respects_setFlags _) fun _ => respects_note _
  | error failure =>
    refine respects_bind (p.respects_readBack serde) fun actual => ?_
    exact respects_bind (p.respects_adopt actual) fun _ => respects_throw _

theorem respects_load (initial : Bool) :
    Respects (SameView p.files) (p.load serde initial : Run W Unit) := by
  refine respects_bind (p.respects_savedPreference serde) fun saved => ?_
  refine respects_bind (respects_update fun _ _ hw => ⟨rfl, hw.tree⟩) fun _ => ?_
  refine respects_bind (respects_onTree (respects_mapError (respects_pathExists
    (p.path_subset (self_mem_footprint _))))) fun found => ?_
  exact respects_ite (respects_pure _) (p.respects_commitEnabled serde _)

end SnapshotPolicy

end RgbLightningNode.Snapshot
