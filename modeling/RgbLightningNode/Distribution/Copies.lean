import RgbLightningNode.Android.Replacement
import RgbLightningNode.Distribution.Packages
import RgbLightningNode.FileSystem.Making
import RgbLightningNode.Restore.Rerun

/-!
# Copies into a new directory

The steps that a distribution is put together from: a look at the tree, a new directory, and a copy
with the directories that it needs. Each is described once, for runs that may be cut short at any
step and for runs in which nothing fails.
-/

namespace RgbLightningNode.Distribution
open Faulty FileSystem
open Android (Failure system mkdtempSync openForWriting rmSync holds_rmSync mem_region_iff
  mem_temporary)
open Restore (Beneath freeName freeName_free removeDirAll taken taken_eq_false tempName)

/-! ### The steps -/

/-- A look at the tree. -/
def reading {α : Type} (view : Tree → Except Failure α) : Proc Tree Failure α :=
  .primitive (.system "read") fun _ t => match view t with
    | .ok a => (.ok a, t)
    | .error failure => (.error failure, t)

/-- `damage` is what a copy may turn the bytes into on its way. -/
def copyFile (damage : ℕ → Bytes → Bytes) (source destination : Path) : Proc Tree Failure Unit := do
  system "mkdir" (createDirAll destination.dropLast)
  let bytes ← system "copyfile" (readToEnd source)
  system "copyfile" (openForWriting destination)
  let n ← .choose
  system "copyfile" (writeAll destination (damage n bytes))

section Steps

variable {calm : Prop} {t u : Tree} {parent : Path} {name : Name}

theorem guards_reading {α : Type} {view : Tree → Except Failure α}
    {Inv : Option Failure → Tree → Prop} {P : α → Tree → Prop} (hinv : ¬calm → ∀ o, Inv o u)
    (hok : ∀ a, view u = .ok a → P a u)
    (hcalm : calm → ∃ a, view u = .ok a) : Guards calm (reading view) u Inv P := by
  refine guards_primitive hinv ?_
  intro _
  cases hview : view u with
  | ok a => exact hok a hview
  | error failure =>
    have hdisturbed : ¬calm := by
      intro hc
      obtain ⟨a, ha⟩ := hcalm hc
      rw [hview] at ha
      cases ha
    exact ⟨hdisturbed, hinv hdisturbed _⟩

/-- The new directory has a free name. -/
theorem guards_mkdtempSync {Inv : Option Failure → Tree → Prop} {stem : String}
    (hparent : t.isDirectory parent = true) (hinv : ∀ o, Inv o t) :
    Guards calm (mkdtempSync parent stem) t Inv (fun name u => (∃ k, name = tempName stem k) ∧
      taken t (parent ++ [name]) = false ∧
        u = t.put (parent ++ [name]) (.dir (ownedAttr 0o700))) := by
  refine guards_primitive (fun _ => hinv) ?_
  intro n
  obtain ⟨k, hname, hfree⟩ := freeName_free t parent stem n
  have hroom : t.hasParent (parent ++ [freeName t parent stem n]) = true := by
    rw [Tree.hasParent_eq, List.dropLast_concat, hparent]
  simp only [hfree, hroom, Bool.not_true, Bool.or_self, Bool.false_eq_true, if_false]
  exact ⟨⟨k, hname⟩, hfree, rfl⟩

theorem guards_readToEnd {Inv : Option Failure → Tree → Prop} {source : Path} {bytes : Bytes}
    (hlook : u.look source = .file bytes) (hinv : ∀ o, Inv o u) (call : String) :
    Guards calm (system call (readToEnd source)) u Inv (fun found v => v = u ∧ found = bytes) := by
  obtain ⟨attr, hnode⟩ := Tree.look_eq_file.mp hlook
  apply guards_mapError
  refine guards_primitive (fun _ _ => hinv _) ?_
  intro _
  rw [hnode]
  exact ⟨rfl, rfl⟩

/-! ### What has been copied -/

/-- The destinations of copies into the new directory: no one lies on the way to another one. -/
structure Planned (parent : Path) (name : Name) (destinations : List Path) : Prop where
  apart : ∀ p ∈ destinations, ∀ q ∈ destinations, ¬p <+: q.dropLast
  below : ∀ p ∈ destinations, p.dropLast ∈ Beneath (parent ++ [name])
  nonempty : destinations ≠ []

/-- The new directory holds `files`, at some of the destinations, and the directories on the way to
a destination. -/
structure Copying (parent : Path) (name : Name) (destinations : List Path) (t : Tree)
    (files : List (Path × Bytes)) (u : Tree) : Prop where
  filled : Filled parent name (fun _ => True) 0o644 t files u
  planned : ∀ f ∈ files, f.1 ∈ destinations
  within : ∀ q ∈ Beneath (parent ++ [name]), u.node q ≠ none →
    (∃ p ∈ destinations, q <+: p.dropLast) ∨ ∃ f ∈ files, f.1 = q

variable {destinations : List Path} {files : List (Path × Bytes)} {destination source : Path}
  {bytes : Bytes}

theorem Planned.mem (h : Planned parent name destinations) {p : Path} (hp : p ∈ destinations) :
    p ∈ Beneath (parent ++ [name]) := (h.below p hp).trans (List.dropLast_prefix p)

/-- Whatever lies between the parent and a place in the new directory is in it. -/
theorem beneath_of_between {p q : Path} (hp : p ∈ Beneath (parent ++ [name]))
    (hparent : parent <+: q)
    (hq : q <+: p) (hne : q ≠ parent) : q ∈ Beneath (parent ++ [name]) := by
  refine List.prefix_of_prefix_length_le hp hq ?_
  have hlength : parent.length ≠ q.length := fun heq => hne (hparent.eq_of_length heq).symm
  have hle := hparent.length_le
  rw [List.length_append, List.length_singleton]
  omega

theorem Copying.start (hplanned : Planned parent name destinations)
    (hparent : t.isDirectory parent = true) (hfree : taken t (parent ++ [name]) = false) :
    Copying parent name destinations t []
      (t.put (parent ++ [name]) (.dir (ownedAttr 0o700))) where
  filled := by
    have hfresh : ∀ q ∈ Region parent name (fun _ => True), t.node q = none :=
      fun q hq => taken_eq_false hfree (mem_region_iff.mp hq)
    have hmem : parent ++ [name] ∈ Region parent name (fun _ => True) := base_mem_region
    have hlook : ∀ bytes, t.look (parent ++ [name]) ≠ .file bytes := by
      intro bytes hfile
      rw [Tree.look_eq_absent.mpr (hfresh _ hmem)] at hfile
      cases hfile
    apply (Filled.start hparent hfresh).put_dir hmem rfl hlook
    rw [Tree.hasParent_eq, List.dropLast_concat, hparent]
  planned f hf := absurd hf List.not_mem_nil
  within q hq hnode := by
    left
    obtain ⟨p, hp⟩ := List.exists_mem_of_ne_nil _ hplanned.nonempty
    by_cases heq : q = parent ++ [name]
    · refine ⟨p, hp, ?_⟩
      rw [heq]
      exact hplanned.below p hp
    · rw [Tree.put_node_of_ne _ _ heq, taken_eq_false hfree hq] at hnode
      exact absurd rfl hnode

/-- What was there before is there still. -/
theorem Copying.look (h : Copying parent name destinations t files u)
    (hfree : taken t (parent ++ [name]) = false) (hlook : t.look source = .file bytes) :
    u.look source = .file bytes := by
  rw [h.filled.off.look, hlook]
  intro hmem
  rw [Tree.look_eq_absent.mpr (taken_eq_false hfree (mem_region_iff.mp hmem))] at hlook
  cases hlook

/-- A destination of which there is no copy yet has nothing at it. -/
theorem Copying.absent (h : Copying parent name destinations t files u)
    (hplanned : Planned parent name destinations) (hdestination : destination ∈ destinations)
    (hnew : ∀ f ∈ files, f.1 ≠ destination) : u.node destination = none := by
  by_contra hnode
  rcases h.within _ (hplanned.mem hdestination) hnode with ⟨p, hp, hpre⟩ | ⟨f, hf, heq⟩
  · exact hplanned.apart _ hdestination p hp hpre
  · exact hnew f hf heq

/-- There is nothing but directories on the way to a destination. -/
theorem Copying.clear (h : Copying parent name destinations t files u)
    (hplanned : Planned parent name destinations) (hdestination : destination ∈ destinations) :
    Clear u parent destination.dropLast := by
  intro q htop hq hne
  have hmem := beneath_of_between (hplanned.below _ hdestination) htop hq hne
  cases hnode : u.node q with
  | none => exact .inl rfl
  | some n =>
    right
    rcases h.filled.plain q (mem_region_iff.mpr hmem) n hnode with ⟨attr, rfl, -⟩ | ⟨bytes, rfl⟩
    · have hroot : q ≠ [] := ne_nil_of_mem_region (mem_region_iff.mpr hmem)
      exact (Tree.isDirectory_iff hroot).mpr ⟨attr, hnode⟩
    · have hlook := Tree.look_eq_file.mpr ⟨_, hnode⟩
      have hcopied := (h.filled.look_iff q (mem_region_iff.mpr hmem) bytes).mp hlook
      exact absurd hq (hplanned.apart q (h.planned _ hcopied) destination hdestination)

theorem Copying.dirs (h : Copying parent name destinations t files u)
    (hplanned : Planned parent name destinations) (hdestination : destination ∈ destinations) :
    Guards calm (system "mkdir" (createDirAll destination.dropLast)) u
      (fun _ v => ∃ files, Copying parent name destinations t files v)
      (fun _ v => Copying parent name destinations t files v ∧
        v.isDirectory destination.dropLast = true) := by
  have hbelow := hplanned.below _ hdestination
  apply guards_mapError
  apply guards_of
  · refine ((h.filled.createDirAll (mem_region_iff.mpr hbelow)).and
      (createDirAll_grown destination.dropLast u)).mono ?_
    rintro o v ⟨⟨hfilled, hdir⟩, hgrown, hpanic⟩
    have hcopying : Copying parent name destinations t files v := by
      refine ⟨hfilled, h.planned, fun q hq hnode => ?_⟩
      by_cases hway : q ≠ [] ∧ q <+: destination.dropLast
      · exact .inl ⟨destination, hdestination, hway.2⟩
      · rw [hgrown.off q hway] at hnode
        exact h.within q hq hnode
    cases o with
    | ok _ => exact ⟨hcopying, hdir⟩
    | error _ => exact ⟨files, hcopying⟩
    | panicked => exact absurd rfl hpanic
    | died => exact ⟨files, hcopying⟩
  · intro _
    refine (createDirAll_calmly h.filled.top_dir ((List.prefix_append _ _).trans hbelow)
      (h.clear hplanned hdestination)).mono ?_
    rintro o v ⟨rfl, -⟩
    exact ⟨_, rfl⟩

theorem Copying.open (h : Copying parent name destinations t files u)
    (hplanned : Planned parent name destinations) (hdestination : destination ∈ destinations)
    (hnew : ∀ f ∈ files, f.1 ≠ destination)
    (hdir : u.isDirectory destination.dropLast = true) (call : String) :
    Guards calm (system call (openForWriting destination)) u
      (fun _ v => ∃ files, Copying parent name destinations t files v)
      (fun _ v => Copying parent name destinations t (files ++ [(destination, [])]) v) := by
  have hnone := h.absent hplanned hdestination hnew
  have hparent : u.hasParent destination = true := by rw [Tree.hasParent_eq, hdir]
  have hmem := mem_region_iff.mpr (hplanned.mem hdestination)
  apply guards_mapError
  refine guards_primitive (fun _ _ => ⟨files, h⟩) ?_
  intro _
  rw [hnone]
  simp only [hparent, if_true]
  refine ⟨h.filled.create hmem hnone hparent, ?_, ?_⟩
  · intro f hf
    rcases List.mem_append.mp hf with hf | hf
    · exact h.planned f hf
    · rw [List.mem_singleton.mp hf]
      exact hdestination
  · intro q hq hnode
    by_cases heq : q = destination
    · exact .inr ⟨(destination, []), by simp, heq.symm⟩
    · rw [Tree.put_node_of_ne _ _ heq] at hnode
      rcases h.within q hq hnode with hway | ⟨f, hf, hfq⟩
      · exact .inl hway
      · exact .inr ⟨f, List.mem_append_left _ hf, hfq⟩

/-- Bytes that are appended to the last copy. -/
theorem Copying.append (h : Copying parent name destinations t (files ++ [(destination, [])]) u)
    (bytes : Bytes) : Copying parent name destinations t (files ++ [(destination, bytes)])
      (appendBytes destination bytes u) := by
  have hlast : (destination, ([] : Bytes)) ∈ files ++ [(destination, [])] := by simp
  have hnode := h.filled.node_of_look (h.filled.inside _ hlast) (h.filled.file_mem hlast)
  have hsame (b : Bytes) (q : Path) :
      (∃ f ∈ files ++ [(destination, b)], f.1 = q) ↔ (∃ f ∈ files, f.1 = q) ∨ destination = q := by
    simp [or_and_right, exists_or]
  refine ⟨h.filled.append, fun f hf => ?_, fun q hq hq' => ?_⟩
  · rcases List.mem_append.mp hf with hf | hf
    · exact h.planned f (List.mem_append_left _ hf)
    · rw [List.mem_singleton.mp hf]
      exact h.planned (destination, []) hlast
  · rw [hsame]
    by_cases heq : q = destination
    · exact .inr (.inr heq.symm)
    · rw [appendBytes_file hnode, Tree.put_node_of_ne _ _ heq] at hq'
      have hold := h.within q hq hq'
      rwa [hsame] at hold

theorem Copying.write (h : Copying parent name destinations t (files ++ [(destination, [])]) u)
    (call : String) (bytes : Bytes) : Guards calm (system call (writeAll destination bytes)) u
      (fun _ v => ∃ files, Copying parent name destinations t files v)
      (fun _ v => Copying parent name destinations t (files ++ [(destination, bytes)]) v) := by
  apply guards_mapError
  apply guards_of
  · exact holds_writeAll (h.append bytes) (fun n => ⟨_, h.append (bytes.take n)⟩)
      fun n => ⟨_, h.append (bytes.take n)⟩
  · exact fun _ => calmly_step fun _ => ⟨_, rfl⟩

theorem Copying.copyFile {damage : ℕ → Bytes → Bytes}
    (h : Copying parent name destinations t files u) (hplanned : Planned parent name destinations)
    (hfree : taken t (parent ++ [name]) = false) (hdestination : destination ∈ destinations)
    (hnew : ∀ f ∈ files, f.1 ≠ destination) (hlook : t.look source = .file bytes) :
    Guards calm (Distribution.copyFile damage source destination) u
      (fun _ v => ∃ files, Copying parent name destinations t files v)
      (fun _ v => ∃ n, Copying parent name destinations t
        (files ++ [(destination, damage n bytes)]) v) := by
  refine guards_bind (h.dirs hplanned hdestination) ?_
  rintro _ u₁ ⟨h₁, hdir⟩
  refine guards_bind (guards_readToEnd (h₁.look hfree hlook) (fun _ => ⟨files, h₁⟩) _) ?_
  rintro _ _ ⟨rfl, rfl⟩
  refine guards_bind (h₁.open hplanned hdestination hnew hdir _) ?_
  intro _ u₂ h₂
  refine guards_bind (guards_choose (P := fun _ v => v = u₂) (fun _ => ⟨_, h₂⟩) fun _ => rfl) ?_
  rintro n _ rfl
  exact (h₂.write _ _).imp fun _ _ h => ⟨n, h⟩

end Steps

end RgbLightningNode.Distribution
