import Mathlib.Algebra.GroupWithZero.Nat
import Mathlib.Algebra.Order.BigOperators.Group.Finset
import RgbLightningNode.FileSystem.Directories

/-!
# Filling a directory

A process that fills a new directory creates other directories and files of one mode below it, and
appends to the files it created. The invariant says what the directory holds at any point, with
the list of the files that were created and their contents so far.
-/

namespace RgbLightningNode.FileSystem
open Faulty

/-- The directory `base` in `top` and what can be reached below it through admitted names. -/
def Region (top : Path) (base : Name) (ok : Name → Prop) : Set Path :=
  {q | ∃ rest, q = top ++ base :: rest ∧ ∀ name ∈ rest, ok name}

section Region

variable {top : Path} {base : Name} {ok : Name → Prop}

theorem mem_region {rest : Path} (h : ∀ name ∈ rest, ok name) :
    top ++ base :: rest ∈ Region top base ok := ⟨rest, rfl, h⟩

theorem base_mem_region : top ++ [base] ∈ Region top base ok :=
  mem_region fun _ h => absurd h List.not_mem_nil

theorem top_notMem_region : top ∉ Region top base ok := by
  rintro ⟨rest, h, _⟩
  have hlength := congrArg List.length h
  simp at hlength

theorem ne_nil_of_mem_region {q : Path} (h : q ∈ Region top base ok) : q ≠ [] := by
  obtain ⟨rest, rfl, _⟩ := h
  simp

/-- The region is closed upwards, down to its base. -/
theorem dropLast_mem_region {q : Path} (h : q ∈ Region top base ok) (hq : q ≠ top ++ [base]) :
    q.dropLast ∈ Region top base ok := by
  obtain ⟨rest, rfl, hrest⟩ := h
  have hne : rest ≠ [] := by
    rintro rfl
    exact hq rfl
  rw [List.dropLast_append_of_ne_nil (by simp), List.dropLast_cons_of_ne_nil hne]
  exact mem_region fun name hname => hrest name (List.mem_of_mem_dropLast hname)

/-- Everything met on the way up to `top` is in the region as well. -/
theorem mem_region_of_ancestor {q p : Path} (hp : p ∈ Region top base ok)
    (hq : q ∈ (ancestors p).takeWhile (· ≠ top)) : q ∈ Region top base ok ∧ q <+: p := by
  obtain ⟨rest, rfl, hrest⟩ := hp
  obtain ⟨part, above, rfl, hpart, hsplit⟩ := mem_takeWhile_ancestors hq
  cases part with
  | nil => exact absurd rfl hpart
  | cons first part =>
    obtain ⟨rfl, rfl⟩ : base = first ∧ rest = part ++ above := by simpa using hsplit
    refine ⟨mem_region fun name hname => hrest name (List.mem_append_left _ hname), ?_⟩
    exact ⟨above, by simp⟩

end Region

theorem Tree.isDirectory_put {t : Tree} {p q : Path} {n : Node} (h : t.isDirectory q = true)
    (hp : q ≠ p ∨ ∃ attr, n = .dir attr) : (t.put p n).isDirectory q = true := by
  by_cases hq : q = []
  · rw [hq]
    rfl
  obtain ⟨attr, hnode⟩ := (isDirectory_iff hq).mp h
  apply (isDirectory_iff hq).mpr
  by_cases hqp : q = p
  · rcases hp with hp | ⟨attr', rfl⟩
    · exact absurd hqp hp
    · exact ⟨attr', by rw [hqp, put_node_self]⟩
  · exact ⟨attr, by rw [put_node_of_ne _ _ hqp, hnode]⟩

/-- What the directory `base` in `top` holds when exactly `files` have been created below it. -/
structure Filled (top : Path) (base : Name) (ok : Name → Prop) (mode : ℕ) (t₀ : Tree)
    (files : List (Path × Bytes)) (t : Tree) : Prop where
  off : t₀.AgreeOff (Region top base ok) t
  top_dir : t.isDirectory top = true
  look_iff : ∀ q ∈ Region top base ok, ∀ bytes, t.look q = .file bytes ↔ (q, bytes) ∈ files
  plain : ∀ q ∈ Region top base ok, ∀ n, t.node q = some n →
    (∃ attr, n = .dir attr ∧ attr.owned = true) ∨ ∃ bytes, n = .file bytes (ownedAttr mode)
  rooted : ∀ q ∈ Region top base ok, t.node q ≠ none → t.hasParent q = true
  nodup : (files.map Prod.fst).Nodup
  inside : ∀ f ∈ files, f.1 ∈ Region top base ok

namespace Filled

variable {top : Path} {base : Name} {ok : Name → Prop} {mode : ℕ} {t₀ t : Tree}
  {files : List (Path × Bytes)} {p : Path}

theorem start (htop : t₀.isDirectory top = true)
    (hfresh : ∀ q ∈ Region top base ok, t₀.node q = none) :
    Filled top base ok mode t₀ [] t₀ where
  off := .refl _ _
  top_dir := htop
  look_iff q hq bytes := by
    rw [Tree.look_eq_absent.mpr (hfresh q hq)]
    simp
  plain q hq n hn := by
    rw [hfresh q hq] at hn
    cases hn
  rooted q hq hn := absurd (hfresh q hq) hn
  nodup := List.nodup_nil
  inside f hf := absurd hf List.not_mem_nil

theorem node_of_look (h : Filled top base ok mode t₀ files t) {bytes : Bytes}
    (hp : p ∈ Region top base ok) (hlook : t.look p = .file bytes) :
    t.node p = some (.file bytes (ownedAttr mode)) := by
  obtain ⟨attr, hnode⟩ := Tree.look_eq_file.mp hlook
  rcases h.plain p hp _ hnode with ⟨attr', hdir, _⟩ | ⟨bytes', hfile⟩
  · cases hdir
  · cases hfile
    exact hnode

theorem file_mem (h : Filled top base ok mode t₀ files t) {f : Path × Bytes} (hf : f ∈ files) :
    t.look f.1 = .file f.2 := (h.look_iff f.1 (h.inside f hf) f.2).mpr hf

/-- A directory takes the place of nothing, or of a directory. -/
theorem put_dir (h : Filled top base ok mode t₀ files t) (hp : p ∈ Region top base ok) {attr : Attr}
    (howned : attr.owned = true) (hlook : ∀ bytes, t.look p ≠ .file bytes)
    (hparent : t.hasParent p = true) :
    Filled top base ok mode t₀ files (t.put p (.dir attr)) where
  off := h.off.put hp _
  top_dir := Tree.isDirectory_put h.top_dir (Or.inr ⟨attr, rfl⟩)
  look_iff q hq bytes := by
    by_cases hqp : q = p
    · subst hqp
      have hnew : (t.put q (.dir attr)).look q = .other := by simp [Tree.look]
      rw [hnew]
      exact iff_of_false (fun h => by cases h) fun hmem =>
        hlook bytes ((h.look_iff q hq bytes).mpr hmem)
    · rw [Tree.look_congr (Tree.put_node_of_ne _ _ hqp)]
      exact h.look_iff q hq bytes
  plain q hq n hn := by
    by_cases hqp : q = p
    · subst hqp
      rw [Tree.put_node_self] at hn
      cases hn
      exact Or.inl ⟨attr, rfl, howned⟩
    · rw [Tree.put_node_of_ne _ _ hqp] at hn
      exact h.plain q hq n hn
  rooted q hq hn := by
    rw [Tree.hasParent_eq]
    apply Tree.isDirectory_put _ (Or.inr ⟨attr, rfl⟩)
    rw [← Tree.hasParent_eq]
    by_cases hqp : q = p
    · rwa [hqp]
    · rw [Tree.put_node_of_ne _ _ hqp] at hn
      exact h.rooted q hq hn
  nodup := h.nodup
  inside := h.inside

/-- A file takes the place of nothing, or of the file that was created last. -/
theorem put_file (h : Filled top base ok mode t₀ files t) {old : List (Path × Bytes)}
    {bytes : Bytes} (hp : p ∈ Region top base ok) (hparent : t.hasParent p = true)
    (hdir : t.isDirectory p = false) (hfiles : ∀ f, f ∈ old ↔ f ∈ files ∧ f.1 ≠ p)
    (hnodup : (old.map Prod.fst).Nodup) :
    Filled top base ok mode t₀ (old ++ [(p, bytes)])
      (t.put p (.file bytes (ownedAttr mode))) where
  off := h.off.put hp _
  top_dir := by
    apply Tree.isDirectory_put h.top_dir
    left
    rintro rfl
    exact top_notMem_region hp
  look_iff q hq bytes' := by
    have hnotin : ∀ b, (p, b) ∉ old := fun b hb => ((hfiles _).mp hb).2 rfl
    by_cases hqp : q = p
    · subst hqp
      have hnew : (t.put q (.file bytes (ownedAttr mode))).look q = .file bytes := by
        simp [Tree.look]
      rw [hnew]
      simp [hnotin, eq_comm]
    · rw [Tree.look_congr (Tree.put_node_of_ne _ _ hqp), h.look_iff q hq bytes']
      simp [hfiles, hqp]
  plain q hq n hn := by
    by_cases hqp : q = p
    · subst hqp
      rw [Tree.put_node_self] at hn
      cases hn
      exact Or.inr ⟨bytes, rfl⟩
    · rw [Tree.put_node_of_ne _ _ hqp] at hn
      exact h.plain q hq n hn
  rooted q hq hn := by
    have hkeep : t.hasParent q = true := by
      by_cases hqp : q = p
      · rwa [hqp]
      · rw [Tree.put_node_of_ne _ _ hqp] at hn
        exact h.rooted q hq hn
    rw [Tree.hasParent_eq] at hkeep ⊢
    apply Tree.isDirectory_put hkeep
    left
    rintro rfl
    rw [hdir] at hkeep
    cases hkeep
  nodup := by
    rw [List.map_append, List.nodup_append]
    refine ⟨hnodup, List.nodup_singleton p, ?_⟩
    rintro q hq r hr rfl
    obtain ⟨f, hf, rfl⟩ := List.mem_map.mp hq
    exact ((hfiles f).mp hf).2 (by simpa using hr)
  inside f hf := by
    rcases List.mem_append.mp hf with hf | hf
    · exact h.inside f ((hfiles f).mp hf).1
    · rw [List.mem_singleton.mp hf]
      exact hp

theorem create (h : Filled top base ok mode t₀ files t) (hp : p ∈ Region top base ok)
    (hnone : t.node p = none) (hparent : t.hasParent p = true) :
    Filled top base ok mode t₀ (files ++ [(p, [])]) (t.put p (.file [] (ownedAttr mode))) := by
  have hdir : t.isDirectory p = false := by
    apply Bool.eq_false_iff.mpr
    intro hdir
    obtain ⟨attr, hnode⟩ := (Tree.isDirectory_iff (ne_nil_of_mem_region hp)).mp hdir
    rw [hnone] at hnode
    cases hnode
  apply h.put_file hp hparent hdir _ h.nodup
  intro f
  refine ⟨fun hf => ⟨hf, ?_⟩, And.left⟩
  rintro rfl
  have hlook := h.file_mem hf
  rw [Tree.look_eq_absent.mpr hnone] at hlook
  cases hlook

theorem append {old bytes : Bytes} (h : Filled top base ok mode t₀ (files ++ [(p, old)]) t) :
    Filled top base ok mode t₀ (files ++ [(p, old ++ bytes)]) (appendBytes p bytes t) := by
  have hmem : (p, old) ∈ files ++ [(p, old)] := by simp
  have hp : p ∈ Region top base ok := h.inside _ hmem
  have hnode := h.node_of_look hp (h.file_mem hmem)
  have hnodup := h.nodup
  rw [List.map_append, List.nodup_append] at hnodup
  have hapart : ∀ f ∈ files, f.1 ≠ p := by
    intro f hf
    exact hnodup.2.2 f.1 (List.mem_map_of_mem hf) p (by simp)
  have hdir : t.isDirectory p = false := by
    apply Bool.eq_false_iff.mpr
    intro hdir
    obtain ⟨attr, hnode'⟩ := (Tree.isDirectory_iff (ne_nil_of_mem_region hp)).mp hdir
    rw [hnode] at hnode'
    cases hnode'
  rw [appendBytes_file hnode]
  apply h.put_file hp (h.rooted p hp (by rw [hnode]; simp)) hdir _ hnodup.1
  intro f
  refine ⟨fun hf => ⟨List.mem_append_left _ hf, hapart f hf⟩, ?_⟩
  rintro ⟨hf, hne⟩
  rcases List.mem_append.mp hf with hf | hf
  · exact hf
  · rw [List.mem_singleton.mp hf] at hne
    exact absurd rfl hne

/-- A directory of the region lies in directories, down from `top`. -/
theorem isDirectory_of_prefix (h : Filled top base ok mode t₀ files t) {q : Path}
    (hp : p ∈ Region top base ok) (hdir : t.isDirectory p = true) (hq : q ∈ Region top base ok)
    (hqp : q <+: p) : t.isDirectory q = true := by
  obtain ⟨rest, rfl⟩ := hqp
  induction rest using List.reverseRecOn with
  | nil => rwa [List.append_nil] at hdir
  | append_singleton rest name ih =>
    have hne : q ++ (rest ++ [name]) ≠ top ++ [base] := by
      intro heq
      obtain ⟨below, rfl, _⟩ := hq
      have hlength := congrArg List.length heq
      simp at hlength
    have habove := dropLast_mem_region hp hne
    obtain ⟨attr, hnode⟩ := (Tree.isDirectory_iff (ne_nil_of_mem_region hp)).mp hdir
    have hparent := h.rooted _ hp (by rw [hnode]; simp)
    rw [Tree.hasParent_eq] at hparent
    rw [← List.append_assoc, List.dropLast_concat] at hparent habove
    exact ih habove hparent

/-! ### The operations -/

theorem mkdir (h : Filled top base ok mode t₀ files t) (hp : p ∈ Region top base ok) :
    Holds (FileSystem.mkdir p) t (fun o t' => Filled top base ok mode t₀ files t' ∧ match o with
      | .ok _ => t'.isDirectory p = true
      | .error .notFound => t'.hasParent p = false
      | .error _ | .died => True
      | .panicked => False) := by
  apply holds_mkdir
  · intro bits hne hnone hparent
    have hlook : ∀ bytes, t.look p ≠ .file bytes := by
      intro bytes hfile
      rw [Tree.look_eq_absent.mpr hnone] at hfile
      cases hfile
    refine ⟨h.put_dir hp rfl hlook hparent, ?_⟩
    exact (Tree.isDirectory_iff hne).mpr ⟨_, Tree.put_node_self _ _ _⟩
  · exact fun _ => ⟨h, trivial⟩
  · exact fun hparent => ⟨h, hparent⟩
  · exact ⟨h, trivial⟩
  · exact ⟨h, trivial⟩

/-- How a step that is meant to leave a directory at `p` can end. -/
def Made (top : Path) (base : Name) (ok : Name → Prop) (mode : ℕ) (t₀ : Tree)
    (files : List (Path × Bytes)) (p : Path) : Outcome IoError Unit → Tree → Prop := fun o t =>
  Filled top base ok mode t₀ files t ∧ match o with
    | .ok _ => t.isDirectory p = true
    | .error _ | .died => True
    | .panicked => False

theorem checked (h : Filled top base ok mode t₀ files t) (failure : IoError) :
    Holds (do if ← isDir p then return () else Proc.throw failure) t
      (Made top base ok mode t₀ files p) := by
  apply holds_bind
  apply holds_isDir
  · exact fun hdir => holds_pure ⟨h, hdir⟩
  · exact holds_throw ⟨h, trivial⟩
  · exact ⟨h, trivial⟩

theorem mkdirOrExists (h : Filled top base ok mode t₀ files t) (hp : p ∈ Region top base ok) :
    Holds (FileSystem.mkdirOrExists p) t (Made top base ok mode t₀ files p) := by
  apply holds_bind
  apply holds_attempt
  refine (h.mkdir hp).mono ?_
  intro o t' ho
  cases o with
  | ok _ => exact holds_pure ho
  | error failure => exact ho.1.checked failure
  | panicked => exact ho.2.elim
  | died => exact ho

theorem createDirAll (h : Filled top base ok mode t₀ files t) (hp : p ∈ Region top base ok) :
    Holds (FileSystem.createDirAll p) t (Made top base ok mode t₀ files p) := by
  have hall : ∀ (names : List Name) (t : Tree), names.reverse ∈ Region top base ok →
      Filled top base ok mode t₀ files t →
      Holds (createDirAllOf names) t (Made top base ok mode t₀ files names.reverse) := by
    intro names
    induction names with
    | nil => exact fun t hnames _ => absurd rfl (ne_nil_of_mem_region hnames)
    | cons name above ih =>
      intro t hnames h
      apply holds_bind
      apply holds_attempt
      refine (h.mkdir hnames).mono ?_
      rintro o t' ⟨h, ho⟩
      cases o with
      | ok _ => exact holds_pure ⟨h, ho⟩
      | error failure =>
        cases failure with
        | notFound =>
          -- the parent is missing, so the path is not the base: its parent is `top`
          have hne : (name :: above).reverse ≠ top ++ [base] := by
            intro heq
            change t'.hasParent _ = false at ho
            rw [heq, Tree.hasParent_eq, List.dropLast_concat, h.top_dir] at ho
            cases ho
          have habove : above.reverse ∈ Region top base ok := by
            have hparent := dropLast_mem_region hnames hne
            rwa [List.reverse_cons, List.dropLast_concat] at hparent
          apply holds_bind
          refine (ih t' habove h).mono ?_
          rintro o t'' ⟨h, ho⟩
          cases o with
          | ok _ => exact h.mkdirOrExists hnames
          | error _ => exact ⟨h, trivial⟩
          | panicked => exact ho.elim
          | died => exact ⟨h, trivial⟩
        | alreadyExists => exact h.checked _
        | other => exact h.checked _
      | panicked => exact ho.elim
      | died => exact ⟨h, trivial⟩
  have h := hall p.reverse t (by rwa [List.reverse_reverse]) h
  rwa [List.reverse_reverse] at h

/-- A change of the permissions of a directory. -/
theorem setPermissions (h : Filled top base ok mode t₀ files t) (hp : p ∈ Region top base ok)
    (hdir : t.isDirectory p = true) (bits : ℕ) :
    Holds (FileSystem.setPermissions p bits) t (fun o t' =>
      Filled top base ok mode t₀ files t' ∧
        (∀ q, t.isDirectory q = true → t'.isDirectory q = true) ∧
      o ≠ .panicked) := by
  have hsame : ∀ q, t.isDirectory q = true → t.isDirectory q = true := fun _ h => h
  apply holds_setPermissions
  · intro n hn
    obtain ⟨attr, hnode⟩ := (Tree.isDirectory_iff (ne_nil_of_mem_region hp)).mp hdir
    rw [hnode] at hn
    cases hn
    have howned : attr.owned = true := by
      rcases h.plain p hp _ hnode with ⟨attr', heq, howned⟩ | ⟨bytes, heq⟩
      · cases heq
        exact howned
      · cases heq
    refine ⟨h.put_dir hp howned ?_ (h.rooted p hp (by rw [hnode]; simp)), ?_, by simp⟩
    · intro bytes hfile
      obtain ⟨attr', hfile⟩ := Tree.look_eq_file.mp hfile
      rw [hnode] at hfile
      cases hfile
    · exact fun q hq => Tree.isDirectory_put hq (Or.inr ⟨_, rfl⟩)
  · exact fun e => ⟨h, hsame, by simp⟩
  · exact ⟨h, hsame, by simp⟩

theorem createNew (h : Filled top base ok mode t₀ files t) (hp : p ∈ Region top base ok) :
    Holds (FileSystem.createNew p mode) t (fun o t' => match o with
      | .ok _ => Filled top base ok mode t₀ (files ++ [(p, [])]) t'
      | .error _ | .died => Filled top base ok mode t₀ files t'
      | .panicked => False) := by
  apply holds_createNew
  · exact fun hnone hparent => h.create hp hnone hparent
  · exact fun _ => h
  · exact h

/-- A copy into the file that was created last. -/
theorem copy (h : Filled top base ok mode t₀ (files ++ [(p, [])]) t) (source : Stream) :
    Holds (FileSystem.copy source p) t (fun o t' => match o with
      | .ok count => count = source.bytes.length ∧
          Filled top base ok mode t₀ (files ++ [(p, source.bytes)]) t'
      | .error _ | .died =>
          ∃ n, Filled top base ok mode t₀ (files ++ [(p, source.bytes.take n)]) t'
      | .panicked => False) := by
  apply holds_copy
  · exact fun _ => ⟨rfl, h.append⟩
  · exact fun n => ⟨n, h.append⟩
  · exact fun n => ⟨n, h.append⟩

end Filled

/-! ### Volumes -/

def Tree.fileSize (t : Tree) (p : Path) : ℕ :=
  match t.look p with
  | .file bytes => bytes.length
  | _ => 0

open scoped Classical in
/-- The bytes in all files below a directory. -/
noncomputable def Tree.volume (t : Tree) (top : Path) : ℕ :=
  ∑ q ∈ t.names.toFinset with top <+: q ∧ q ≠ top, t.fileSize q

/-- A new directory grows by the files that were created in it. -/
theorem Filled.volume_le {top : Path} {base : Name} {ok : Name → Prop} {mode : ℕ} {t₀ t : Tree}
    {files : List (Path × Bytes)} (h : Filled top base ok mode t₀ files t)
    (hfresh : ∀ q, top <+: q → q ≠ top → t₀.node q = none) :
    t.volume top ≤ (files.map fun f => f.2.length).sum := by
  classical
  have hsize : ∀ f ∈ files, t.fileSize f.1 = f.2.length := by
    intro f hf
    unfold Tree.fileSize
    rw [h.file_mem hf]
  have hsum : ∑ q ∈ (files.map Prod.fst).toFinset, t.fileSize q =
      (files.map fun f => f.2.length).sum := by
    rw [List.sum_toFinset _ h.nodup, List.map_map]
    exact congrArg List.sum (List.map_congr_left hsize)
  rw [← hsum]
  apply Finset.sum_le_sum_of_ne_zero
  intro q hq hne
  obtain ⟨_, hbelow, hproper⟩ := Finset.mem_filter.mp hq
  have hlook : ∃ bytes, t.look q = .file bytes := by
    unfold Tree.fileSize at hne
    cases hcase : t.look q with
    | file bytes => exact ⟨bytes, rfl⟩
    | absent => simp [hcase] at hne
    | other => simp [hcase] at hne
  obtain ⟨bytes, hlook⟩ := hlook
  have hmem : q ∈ Region top base ok := by
    by_contra hout
    rw [h.off.look hout, Tree.look_eq_absent.mpr (hfresh q hbelow hproper)] at hlook
    cases hlook
  rw [List.mem_toFinset]
  exact List.mem_map_of_mem ((h.look_iff q hmem bytes).mp hlook)

end RgbLightningNode.FileSystem
