import RgbLightningNode.Distribution.Admission
import RgbLightningNode.Distribution.Copies

/-!
# The installation of the prebuilds

`hydrateDistribution` copies the prebuilds of all payloads into a new directory, checks the copies
there, and moves them to their places one by one. A run may fail or end at any step.
-/

namespace RgbLightningNode.Distribution
open Faulty FileSystem Json Number
open Android (Failure system mkdtempSync rmSync holds_rmSync mem_region_iff)
open Restore (Beneath taken taken_eq_false tempName)

/-! ### The source -/

def stagingStem : String := ".native-install-"

def stagingDirectory (root : Path) (name : Name) : Path := root ++ ["prebuilds"] ++ [name]

section Source

variable (host : Host) (damage : ℕ → Bytes → Bytes)

/-- The copies: the manifest, and the prebuilds of every payload. -/
def stage (root staging : Path) (sources : List Source) : Proc Tree Failure Unit := do
  copyFile damage (root ++ [manifestName]) (staging ++ [manifestName])
  sources.forM fun source => source.payload.targets.forM fun target =>
    copyFile damage (prebuildFile source.root target) (prebuildFile staging target)

/-- One staged prebuild is moved to its place. -/
def install (root staging : Path) (target : Name) : Proc Tree Failure Unit := do
  system "mkdir" (createDirAll (prebuildFile root target).dropLast)
  system "rename" (rename (prebuildFile staging target) (prebuildFile root target))

def hydrateDistribution (root : Path) : Proc Tree Failure (List Name) := do
  let (config, sources) ← reading (accept host root)
  let name ← mkdtempSync (root ++ ["prebuilds"]) stagingStem
  let staging := stagingDirectory root name
  .ensure (do
    stage damage root staging sources
    reading (verifyPackedPrebuilds host staging (some config) payloadTargets)
    payloadTargets.forM (install root staging)) fun _ => rmSync staging
  reading (verifyPackedPrebuilds host root (some config) config.targets)
  return config.targets

end Source

/-! ### The copies -/

section Stage

variable {calm : Prop} {host : Host} {damage : ℕ → Bytes → Bytes} {t u : Tree} {root : Path}
  {name : Name}

/-- Where the copies go. -/
def stagedFiles (root : Path) (name : Name) : List Path :=
  (stagingDirectory root name ++ [manifestName]) ::
    payloadTargets.map (prebuildFile (stagingDirectory root name))

theorem prebuildFile_dropLast (root : Path) (target : Name) :
    (prebuildFile root target).dropLast = prebuildDirectory root target := by
  simp [prebuildFile, prebuildDirectory, List.dropLast_append_of_ne_nil]

theorem planned (root : Path) (name : Name) :
    Planned (root ++ ["prebuilds"]) name (stagedFiles root name) where
  apart p hp q hq := by
    have hlast : (stagingDirectory root name ++ [manifestName]).dropLast =
        stagingDirectory root name :=
      List.dropLast_concat
    rcases List.mem_cons.mp hp with rfl | hp
    · rcases List.mem_cons.mp hq with rfl | hq
      · rw [hlast]
        exact fun hpre => Android.dropLast_ne_concat _ _ hpre
      · obtain ⟨target, -, rfl⟩ := List.mem_map.mp hq
        rw [prebuildFile_dropLast, prebuildDirectory, List.prefix_append_right_inj,
          List.cons_prefix_cons]
        exact fun h => absurd h.1 (by decide)
    · obtain ⟨target, -, rfl⟩ := List.mem_map.mp hp
      intro hpre
      have hlength := hpre.length_le
      rcases List.mem_cons.mp hq with rfl | hq
      · rw [hlast] at hlength
        simp [prebuildFile] at hlength
      · obtain ⟨target', -, rfl⟩ := List.mem_map.mp hq
        rw [prebuildFile_dropLast] at hlength
        simp [prebuildFile, prebuildDirectory] at hlength
  below p hp := by
    rcases List.mem_cons.mp hp with rfl | hp
    · rw [List.dropLast_concat]
      exact List.prefix_rfl
    · obtain ⟨target, -, rfl⟩ := List.mem_map.mp hp
      rw [prebuildFile_dropLast]
      exact List.prefix_append _ _
  nonempty := List.cons_ne_nil _ _

/-- What has not been moved or removed yet. -/
def Scratch (root : Path) (name : Name) (t u : Tree) : Prop :=
  ∃ files, Copying (root ++ ["prebuilds"]) name (stagedFiles root name) t files u

/-- The prebuild of a target, as the package of a payload has it. -/
def Delivered (sources : List Source) (t : Tree) (target : Name) (bytes : Bytes) : Prop :=
  ∃ source ∈ sources, target ∈ source.payload.targets ∧
    t.look (prebuildFile source.root target) = .file bytes

/-- What has been copied so far: the manifest, and the prebuilds of some targets. -/
structure Staged (damage : ℕ → Bytes → Bytes) (root : Path) (name : Name) (sources : List Source)
    (t : Tree) (manifest : Bytes) (done : List Name) (u : Tree) : Prop where
  copying : ∃ files, Copying (root ++ ["prebuilds"]) name (stagedFiles root name) t files u ∧
    ∀ f ∈ files, f.1 = stagingDirectory root name ++ [manifestName] ∨
      ∃ target ∈ done, f.1 = prebuildFile (stagingDirectory root name) target
  manifest : ∃ n, u.look (stagingDirectory root name ++ [manifestName]) = .file (damage n manifest)
  copies : ∀ target ∈ done, target ∈ payloadTargets ∧ ∃ bytes n, Delivered sources t target bytes ∧
    u.look (prebuildFile (stagingDirectory root name) target) = .file (damage n bytes)

variable {sources : List Source} {manifest : Bytes} {done : List Name}

/-- One more copy leaves the others alone. -/
theorem copying_keeps {files : List (Path × Bytes)} {p q : Path} {bytes bytes' : Bytes} {v : Tree}
    (h : Copying (root ++ ["prebuilds"]) name (stagedFiles root name) t files u)
    (h' : Copying (root ++ ["prebuilds"]) name (stagedFiles root name) t (files ++ [(p, bytes)]) v)
    (hq : q ∈ stagedFiles root name) (hlook : u.look q = .file bytes') :
    v.look q = .file bytes' := by
  have hmem := mem_region_iff.mpr ((planned root name).mem hq)
  have hold := (h.filled.look_iff q hmem bytes').mp hlook
  exact (h'.filled.look_iff q hmem bytes').mpr (List.mem_append_left _ hold)

theorem mem_stagedFiles {target : Name} (htarget : target ∈ payloadTargets) :
    prebuildFile (stagingDirectory root name) target ∈ stagedFiles root name :=
  List.mem_cons_of_mem _ (List.mem_map_of_mem htarget)

theorem Staged.copyFile {source : Source} {target : Name}
    (h : Staged damage root name sources t manifest done u)
    (hfree : taken t (stagingDirectory root name) = false) (htarget : target ∈ payloadTargets)
    (hnew : target ∉ done) (hsource : source ∈ sources) (hof : target ∈ source.payload.targets)
    (hlook : ∃ bytes, t.look (prebuildFile source.root target) = .file bytes) :
    Guards calm (Distribution.copyFile damage (prebuildFile source.root target)
        (prebuildFile (stagingDirectory root name) target)) u
      (fun _ => Scratch root name t)
      (fun _ => Staged damage root name sources t manifest (done ++ [target])) := by
  obtain ⟨bytes, hlook⟩ := hlook
  obtain ⟨files, hcopying, hfiles⟩ := h.copying
  obtain ⟨k, hmanifest⟩ := h.manifest
  have hfresh : ∀ f ∈ files, f.1 ≠ prebuildFile (stagingDirectory root name) target := by
    intro f hf heq
    rcases hfiles f hf with hf | ⟨target', htarget', hf⟩
    · rw [hf] at heq
      exact absurd (List.append_cancel_left heq) (by simp)
    · rw [hf] at heq
      rw [(prebuildFile_inj heq).2] at htarget'
      exact hnew htarget'
  refine (hcopying.copyFile (planned root name) hfree (mem_stagedFiles htarget) hfresh hlook).imp ?_
  rintro _ v ⟨n, hv⟩
  have hlast : v.look (prebuildFile (stagingDirectory root name) target) = .file (damage n bytes) :=
    hv.filled.file_mem (List.mem_append_right _ List.mem_cons_self)
  refine ⟨⟨_, hv, ?_⟩, ⟨k, ?_⟩, ?_⟩
  · intro f hf
    rcases List.mem_append.mp hf with hf | hf
    · rcases hfiles f hf with hf | ⟨target', htarget', hf⟩
      · exact .inl hf
      · exact .inr ⟨target', List.mem_append_left _ htarget', hf⟩
    · rw [List.mem_singleton.mp hf]
      exact .inr ⟨target, by simp, rfl⟩
  · exact copying_keeps hcopying hv List.mem_cons_self hmanifest
  · intro target' htarget'
    rcases List.mem_append.mp htarget' with htarget' | htarget'
    · obtain ⟨hmem, old, m, hdelivered, hold⟩ := h.copies target' htarget'
      exact ⟨hmem, old, m, hdelivered, copying_keeps hcopying hv (mem_stagedFiles hmem) hold⟩
    · rw [List.mem_singleton.mp htarget']
      exact ⟨htarget, bytes, n, ⟨source, hsource, hof, hlook⟩, hlast⟩

theorem payloadTargets_eq (h : sources.map Source.payload = payloads) :
    payloadTargets = sources.flatMap fun source => source.payload.targets := by
  rw [payloadTargets, ← h, List.flatMap_map]

theorem payloadTargets_nodup : payloadTargets.Nodup := by decide

theorem guards_stage {config : Config} {found : Option (Value Double)} {bytes : Bytes}
    (h : Admitted host root config sources found t)
    (hmanifest : t.look (root ++ [manifestName]) = .file bytes)
    (hfree : taken t (stagingDirectory root name) = false)
    (hu : u = t.put (stagingDirectory root name) (.dir (ownedAttr 0o700))) :
    Guards calm (stage damage root (stagingDirectory root name) sources) u
      (fun _ => Scratch root name t)
      (fun _ => Staged damage root name sources t bytes payloadTargets) := by
  have hstart : Copying (root ++ ["prebuilds"]) name (stagedFiles root name) t [] u := by
    rw [hu]
    exact .start (planned root name) h.prebuilds hfree
  refine guards_bind (P := fun _ => Staged damage root name sources t bytes []) ?_ ?_
  · refine (hstart.copyFile (planned root name) hfree List.mem_cons_self (by simp) hmanifest).imp ?_
    rintro _ v ⟨n, hv⟩
    refine ⟨⟨_, hv, fun f hf => .inl ?_⟩, ⟨n, hv.filled.file_mem List.mem_cons_self⟩, ?_⟩
    · rw [List.mem_singleton.mp hf]
    · exact fun _ h => absurd h List.not_mem_nil
  intro _ u₁ h₁
  have htargets := payloadTargets_eq h.payloads_eq
  refine (guards_forM (fun sources' => Staged damage root name sources t bytes
    (sources'.flatMap fun source => source.payload.targets)) h₁ ?_).imp ?_
  · intro before source after v hsources hv
    have hsource : source ∈ sources := by simp [hsources]
    refine (guards_forM (fun targets => Staged damage root name sources t bytes
      ((before.flatMap fun source => source.payload.targets) ++ targets))
        (by simpa using hv) ?_).imp ?_
    · intro done target rest w hof hw
      have hmem : target ∈ source.payload.targets := by simp [hof]
      have hall : target ∈ payloadTargets := by
        rw [htargets]
        exact List.mem_flatMap.mpr ⟨source, hsource, hmem⟩
      have hnew : target ∉ (before.flatMap fun source => source.payload.targets) ++ done := by
        intro hbefore
        have hsplit : payloadTargets =
          ((before.flatMap fun source => source.payload.targets) ++ done) ++
            target :: (rest ++ after.flatMap fun source => source.payload.targets) := by
          rw [htargets, hsources]
          simp [hof]
        have hnodup := payloadTargets_nodup
        rw [hsplit, List.nodup_append] at hnodup
        exact hnodup.2.2 target hbefore target List.mem_cons_self rfl
      obtain ⟨bytes, hlook, -⟩ := h.copies source hsource target hmem
      refine (hw.copyFile hfree hall hnew hsource hmem ⟨bytes, hlook⟩).mono (fun _ _ => id) ?_
      intro _ v hv
      rwa [List.append_assoc] at hv
    · intro _ w hw
      simpa using hw
  · intro _ v hv
    rwa [← htargets] at hv

end Stage

/-! ### The moves -/

section Install

variable {calm : Prop} {t u v : Tree} {root : Path} {name target : Name}
    {contents : Name → Tree.Look}
  {done : List Name}

/-- The places of the prebuilds, with their directories. -/
def Places (root : Path) : Set Path :=
  {q | ∃ target ∈ payloadTargets, q = prebuildFile root target ∨ q = prebuildDirectory root target}

/-- The prebuilds of some targets are in their places, and the other places are as they were. -/
structure Installed (root : Path) (name : Name) (contents : Name → Tree.Look) (t : Tree)
    (done : List Name) (u : Tree) : Prop where
  placed : ∀ target ∈ done, u.look (prebuildFile root target) = contents target
  waiting : ∀ target ∈ payloadTargets, target ∉ done →
    u.node (prebuildFile root target) = t.node (prebuildFile root target)
  dirs : ∀ target ∈ payloadTargets,
    u.node (prebuildDirectory root target) = t.node (prebuildDirectory root target) ∨
      t.node (prebuildDirectory root target) = none ∧
        ∃ attr, u.node (prebuildDirectory root target) = some (.dir attr)
  off : t.AgreeOff (Places root ∪ Beneath (stagingDirectory root name)) u

/-- No target has a name under which prebuilds are staged. -/
theorem name_notMem (hname : ∃ k, name = tempName stagingStem k) : name ∉ payloadTargets := by
  obtain ⟨k, rfl⟩ := hname
  have hall : ∀ target ∈ payloadTargets, target.toList.head? ≠ some '.' := by decide
  intro hmem
  apply hall _ hmem
  rw [tempName, String.toList_append]
  rfl

theorem notMem_staging (hname : ∃ k, name = tempName stagingStem k)
    (htarget : target ∈ payloadTargets) (rest : Path) :
    root ++ "prebuilds" :: target :: rest ∉ Beneath (stagingDirectory root name) := by
  intro hmem
  change root ++ ["prebuilds"] ++ [name] <+: _ at hmem
  rw [List.append_assoc, List.prefix_append_right_inj] at hmem
  simp only [List.cons_append, List.nil_append, List.cons_prefix_cons, List.nil_prefix, and_true,
    true_and] at hmem
  rw [hmem] at hname
  exact name_notMem hname htarget

/-- What is copied lies beside the prebuilds. -/
theorem staged_ne (hname : ∃ k, name = tempName stagingStem k) (htarget : target ∈ payloadTargets)
    (target' : Name) (rest : Path) :
    prebuildFile (stagingDirectory root name) target' ≠ root ++ "prebuilds" :: target :: rest := by
  have hout := @notMem_staging root name target hname htarget rest
  intro heq
  apply hout
  rw [← heq]
  exact List.prefix_append _ _

theorem prebuilds_notMem :
    root ++ ["prebuilds"] ∉ Places root ∪ Beneath (stagingDirectory root name) := by
  rintro (⟨target, -, hmem | hmem⟩ | hmem)
  · cases List.append_cancel_left hmem
  · cases List.append_cancel_left hmem
  · exact Android.dropLast_ne_concat _ _ hmem

theorem prebuildDirectory_ne_file (target target' : Name) :
    prebuildFile root target ≠ prebuildDirectory root target' := by
  intro h
  cases List.append_cancel_left h

theorem prebuildDirectory_inj {target target' : Name}
    (h : prebuildDirectory root target = prebuildDirectory root target') : target = target' := by
  simpa using List.append_cancel_left h

theorem Installed.beside (h : Installed root name contents t done u)
    (hname : ∃ k, name = tempName stagingStem k) (hdone : done ⊆ payloadTargets)
    (hoff : u.AgreeOff (Beneath (stagingDirectory root name)) v) :
    Installed root name contents t done v where
  placed target htarget := by
    have hkept := hoff.look (notMem_staging hname (hdone htarget) [addonFile])
    exact hkept.trans (h.placed target htarget)
  waiting target htarget hnew := by
    rw [prebuildFile, hoff _ (notMem_staging hname htarget _)]
    exact h.waiting target htarget hnew
  dirs target htarget := by
    rw [prebuildDirectory, hoff _ (notMem_staging hname htarget _)]
    exact h.dirs target htarget
  off := h.off.trans (hoff.mono Set.subset_union_right)

theorem Installed.made (h : Installed root name contents t done u)
    (htarget : target ∈ payloadTargets)
    (hmade : u.Made (prebuildDirectory root target) v) : Installed root name contents t done v := by
  have hfile (target' : Name) : v.node (prebuildFile root target') =
      u.node (prebuildFile root target') :=
    hmade.off _ (prebuildDirectory_ne_file target' target)
  refine ⟨?_, ?_, ?_, ?_⟩
  · intro target' htarget'
    rw [Tree.look_congr (hfile target'), h.placed target' htarget']
  · intro target' htarget' hnew
    rw [hfile, h.waiting target' htarget' hnew]
  · intro target' htarget'
    by_cases heq : target' = target
    · subst heq
      rcases hmade with rfl | ⟨hnone, attr, rfl⟩
      · exact h.dirs target' htarget'
      · right
        rcases h.dirs target' htarget' with hsame | ⟨-, attr', hdir⟩
        · exact ⟨by rw [← hsame, hnone], attr, Tree.put_node_self _ _ _⟩
        · rw [hnone] at hdir
          cases hdir
    · have hne : prebuildDirectory root target' ∉ ({prebuildDirectory root target} : Set Path) :=
        fun hmem => heq (prebuildDirectory_inj hmem)
      rw [hmade.off _ hne]
      exact h.dirs target' htarget'
  · refine h.off.trans (hmade.off.mono ?_)
    rintro q rfl
    exact .inl ⟨target, htarget, .inr rfl⟩

theorem Installed.moved (h : Installed root name contents t done u)
    (hname : ∃ k, name = tempName stagingStem k) (htarget : target ∈ payloadTargets)
    (hdone : done ⊆ payloadTargets) (hnew : target ∉ done) {bytes : Bytes} {attr : Attr}
    (hcontents : contents target = .file bytes) :
    Installed root name contents t (done ++ [target])
      ((u.erase (prebuildFile (stagingDirectory root name) target)).put (prebuildFile root target)
        (.file bytes attr)) := by
  have hstaged : prebuildFile (stagingDirectory root name) target ∈
      Beneath (stagingDirectory root name) := List.prefix_append _ _
  have herased : Installed root name contents t done
      (u.erase (prebuildFile (stagingDirectory root name) target)) :=
    h.beside hname hdone ((Tree.AgreeOff.refl _ _).erase hstaged)
  have hfile {target' : Name} (hne : target' ≠ target) :
      prebuildFile root target' ≠ prebuildFile root target :=
        fun heq => hne (prebuildFile_inj heq).2
  refine ⟨?_, ?_, ?_, ?_⟩
  · intro target' htarget'
    rcases List.mem_append.mp htarget' with hold | hlast
    · have hne : target' ≠ target := by
        rintro rfl
        exact hnew hold
      rw [Tree.look_congr (Tree.put_node_of_ne _ _ (hfile hne)), herased.placed target' hold]
    · rw [List.mem_singleton.mp hlast, hcontents]
      exact Tree.look_eq_file.mpr ⟨attr, Tree.put_node_self _ _ _⟩
  · intro target' htarget' hnew'
    rw [List.mem_append, not_or, List.mem_singleton] at hnew'
    rw [Tree.put_node_of_ne _ _ (hfile hnew'.2), herased.waiting target' htarget' hnew'.1]
  · intro target' htarget'
    rw [Tree.put_node_of_ne _ _ (prebuildDirectory_ne_file target target').symm]
    exact herased.dirs target' htarget'
  · exact herased.off.put (.inl ⟨target, htarget, .inl rfl⟩) _

theorem guards_rename {source destination : Path} {bytes : Bytes} {attr : Attr}
    (hsource : u.node source = some (.file bytes attr))
    (hdestination : ∀ attr, u.node destination ≠ some (.dir attr)) (call : String) :
    Guards calm (system call (rename source destination)) u (fun _ v => v = u)
      (fun _ v => v = (u.erase source).put destination (.file bytes attr)) := by
  apply guards_mapError
  refine guards_primitive (fun _ _ => rfl) ?_
  intro _
  rw [hsource]
  cases hnode : u.node destination with
  | none => rfl
  | some n =>
    cases n with
    | dir attr => exact absurd hnode (hdestination attr)
    | file _ _ => rfl
    | symlink => rfl
    | special => rfl

/-- What the places of an admitted distribution hold before a run. -/
theorem places_of_admitted (hplace : prebuildPath root target true t = .ok ()) :
    (t.node (prebuildDirectory root target) = none ∨
      t.isDirectory (prebuildDirectory root target) = true) ∧
      ∀ attr, t.node (prebuildFile root target) ≠ some (.dir attr) := by
  obtain ⟨-, hdir, hfile⟩ := prebuildPath_ok.mp hplace
  constructor
  · rcases directory_ok.mp hdir with ⟨attr, hnode⟩ | ⟨-, hnone⟩
    · exact .inr ((Tree.isDirectory_iff (by simp [prebuildDirectory])).mpr ⟨attr, hnode⟩)
    · exact .inl hnone
  · intro attr hnode
    rcases hfile with ⟨-, hnone⟩ | ⟨bytes, hlook⟩
    · rw [hnone] at hnode
      cases hnode
    · obtain ⟨_, hfile⟩ := Tree.look_eq_file.mp hlook
      rw [hfile] at hnode
      cases hnode

theorem guards_install (h : Installed root name contents t done u)
    (hname : ∃ k, name = tempName stagingStem k) (htarget : target ∈ payloadTargets)
    (hdone : done ⊆ payloadTargets) (hnew : target ∉ done)
    (hprebuilds : t.isDirectory (root ++ ["prebuilds"]) = true)
    (hplace : prebuildPath root target true t = .ok ()) {bytes : Bytes}
    (hstaged : u.look (prebuildFile (stagingDirectory root name) target) = .file bytes)
    (hcontents : contents target = .file bytes) :
    Guards calm (install root (stagingDirectory root name) target) u
      (fun _ => Installed root name contents t done)
      (fun _ v => Installed root name contents t (done ++ [target]) v ∧
        ∀ target', target' ≠ target →
        v.look (prebuildFile (stagingDirectory root name) target') =
          u.look (prebuildFile (stagingDirectory root name) target')) := by
  obtain ⟨hdir, hfile⟩ := places_of_admitted hplace
  have hparent : u.isDirectory (root ++ ["prebuilds"]) = true := by
    rw [Tree.isDirectory_iff (by simp)] at hprebuilds ⊢
    rwa [h.off _ prebuilds_notMem]
  have hroom : u.node (prebuildDirectory root target) = none ∨
      u.isDirectory (prebuildDirectory root target) = true := by
    have hne : prebuildDirectory root target ≠ [] := by simp [prebuildDirectory]
    rcases h.dirs target htarget with hsame | ⟨-, hmade⟩
    · rw [Tree.isDirectory_iff hne] at hdir ⊢
      rwa [hsame]
    · exact .inr ((Tree.isDirectory_iff hne).mpr hmade)
  have hchild : root ++ ["prebuilds"] ++ [target] = prebuildDirectory root target := by
    simp [prebuildDirectory]
  rw [← hchild] at hroom
  have hmkdir : Guards calm _ u _ _ := createDirAll_child hparent fun _ => hroom
  rw [hchild, ← prebuildFile_dropLast] at hmkdir
  refine guards_bind (guards_mapError (hmkdir.mono ?_ fun _ _ => id)) ?_
  · intro _ v hmade
    rw [prebuildFile_dropLast] at hmade
    exact h.made htarget hmade
  rintro _ v ⟨hmade, -⟩
  rw [prebuildFile_dropLast] at hmade
  have hv := h.made htarget hmade
  have hkept (target' : Name) : v.look (prebuildFile (stagingDirectory root name) target') =
      u.look (prebuildFile (stagingDirectory root name) target') := by
    apply hmade.off.look
    exact staged_ne hname htarget target' []
  obtain ⟨attr, hnode⟩ := Tree.look_eq_file.mp ((hkept target).trans hstaged)
  have hfree : ∀ attr, v.node (prebuildFile root target) ≠ some (.dir attr) := by
    intro attr
    rw [hv.waiting target htarget hnew]
    exact hfile attr
  refine (guards_rename hnode hfree _).mono ?_ ?_
  · rintro _ _ rfl
    exact hv
  · rintro _ w rfl
    refine ⟨hv.moved hname htarget hdone hnew hcontents, fun target' hne => ?_⟩
    have hplaced : prebuildFile (stagingDirectory root name) target' ≠ prebuildFile root target :=
      staged_ne hname htarget target' [addonFile]
    have hstaged' : prebuildFile (stagingDirectory root name) target' ≠
        prebuildFile (stagingDirectory root name) target := fun heq => hne (prebuildFile_inj heq).2
    rw [Tree.look_congr (Tree.put_node_of_ne _ _ hplaced),
      Tree.look_congr (Tree.erase_node_of_ne _ hstaged'), hkept]

end Install

/-! ### Whole runs -/

section Run

variable {calm : Prop} {host : Host} {damage : ℕ → Bytes → Bytes} {t u v : Tree} {root : Path}
  {name : Name} {sources : List Source} {config : Config} {manifest : Option (Value Double)}
  {bytes : Bytes} {contents : Name → Tree.Look} {done : List Name}

/-- Every staged prebuild is a copy of the one in its package, and the staged manifest has its
hash. -/
def Checked (host : Host) (damage : ℕ → Bytes → Bytes) (sources : List Source) (t : Tree)
    (manifestBytes : Bytes) (contents : Name → Tree.Look) : Prop :=
  ∃ n manifest, manifestOf host (some (damage n manifestBytes)) = .ok manifest ∧
    ∀ target ∈ payloadTargets, ∃ bytes k, Delivered sources t target bytes ∧
      contents target = .file (damage k bytes) ∧ Recorded host manifest target (damage k bytes)

/-- What the moves start from. -/
structure Ready (host : Host) (damage : ℕ → Bytes → Bytes) (root : Path) (name : Name)
    (sources : List Source) (t : Tree) (manifestBytes : Bytes) (u : Tree) : Prop where
  installed : ∀ contents, Installed root name contents t [] u
  checked : Checked host damage sources t manifestBytes fun target =>
    u.look (prebuildFile (stagingDirectory root name) target)

/-- While the copies are made, the places are as they were. -/
theorem Scratch.installed (h : Scratch root name t u) (hname : ∃ k, name = tempName stagingStem k)
    (contents : Name → Tree.Look) : Installed root name contents t [] u := by
  obtain ⟨files, h⟩ := h
  have hoff : t.AgreeOff (Beneath (stagingDirectory root name)) u :=
    h.filled.off.mono fun q hq => mem_region_iff.mp hq
  refine ⟨fun _ h => absurd h List.not_mem_nil, ?_, ?_, hoff.mono Set.subset_union_right⟩
  · exact fun target htarget _ => hoff _ (notMem_staging hname htarget _)
  · exact fun target htarget => .inl (hoff _ (notMem_staging hname htarget _))

theorem Staged.scratch (h : Staged damage root name sources t bytes done u) :
    Scratch root name t u := by
  obtain ⟨files, hcopying, -⟩ := h.copying
  exact ⟨files, hcopying⟩

theorem guards_verify (h : Staged damage root name sources t bytes payloadTargets u)
    (hadmitted : Admitted host root config sources manifest t)
    (hmanifest : t.look (root ++ [manifestName]) = .file bytes)
    (hname : ∃ k, name = tempName stagingStem k)
    (hcalm : calm → ∀ n bytes, damage n bytes = bytes) :
    Guards calm (reading (verifyPackedPrebuilds host (stagingDirectory root name) (some config)
      payloadTargets)) u (fun _ => Scratch root name t)
      (fun _ => Ready host damage root name sources t bytes) := by
  obtain ⟨n, hstaged⟩ := h.manifest
  have hread : readManifest host (stagingDirectory root name) u = _ := readManifest_of_file hstaged
  refine guards_reading (fun _ _ => h.scratch) ?_ ?_
  · intro _ hok
    obtain ⟨found, hfound, -, hall⟩ := verifyPackedPrebuilds_ok.mp hok
    rw [hread] at hfound
    refine ⟨h.scratch.installed hname, n, found, hfound, fun target htarget => ?_⟩
    obtain ⟨-, source, k, hdelivered, hlook⟩ := h.copies target htarget
    exact ⟨source, k, hdelivered, hlook, (verifyPrebuild_of_file hlook).mp (hall target htarget)⟩
  · intro hc
    obtain ⟨bytes', hlook', hof⟩ := hadmitted.file
    rw [hmanifest] at hlook'
    cases hlook'
    refine ⟨(), verifyPackedPrebuilds_ok.mpr ⟨manifest, ?_, hadmitted.identity, ?_⟩⟩
    · rw [hread, hcalm hc, hof]
    · intro target htarget
      obtain ⟨-, copied, k, ⟨source, hsource, hmem, hdelivered⟩, hlook⟩ := h.copies target htarget
      obtain ⟨recorded, hrecorded, hhash⟩ := hadmitted.copies source hsource target hmem
      rw [hdelivered] at hrecorded
      cases hrecorded
      rw [hcalm hc] at hlook
      exact (verifyPrebuild_of_file hlook).mpr hhash

/-- The prebuilds of the first targets are in their places; none is before all have been checked. -/
structure Partial (host : Host) (damage : ℕ → Bytes → Bytes) (root : Path) (name : Name)
    (sources : List Source) (t : Tree) (manifestBytes : Bytes) (done : List Name) (u : Tree) :
    Prop where
  first : done <+: payloadTargets
  installed : ∃ contents, Installed root name contents t done u ∧
    (done = [] ∧ t.AgreeOff (Beneath (stagingDirectory root name)) u ∨
      Checked host damage sources t manifestBytes contents)

theorem Scratch.unplaced (h : Scratch root name t u) (hname : ∃ k, name = tempName stagingStem k) :
    Partial host damage root name sources t bytes [] u := by
  refine ⟨List.nil_prefix, fun _ => .absent, h.installed hname _, .inl ⟨rfl, ?_⟩⟩
  obtain ⟨files, h⟩ := h
  exact h.filled.off.mono fun q hq => mem_region_iff.mp hq

/-- The body of the run, from the new directory on. -/
theorem guards_body (hadmitted : Admitted host root config sources manifest t)
    (hmanifest : t.look (root ++ [manifestName]) = .file bytes)
    (hfree : taken t (stagingDirectory root name) = false)
    (hname : ∃ k, name = tempName stagingStem k)
    (hu : u = t.put (stagingDirectory root name) (.dir (ownedAttr 0o700)))
    (hcalm : calm → ∀ n bytes, damage n bytes = bytes) :
    Guards calm (do
      stage damage root (stagingDirectory root name) sources
      reading (verifyPackedPrebuilds host (stagingDirectory root name) (some config) payloadTargets)
      payloadTargets.forM (install root (stagingDirectory root name))) u
      (fun _ v => ∃ done, Partial host damage root name sources t bytes done v)
      (fun _ => Partial host damage root name sources t bytes payloadTargets) := by
  refine guards_bind ((guards_stage hadmitted hmanifest hfree hu).mono ?_ fun _ _ h => h) ?_
  · exact fun _ v h => ⟨[], h.unplaced hname⟩
  intro _ v hv
  refine guards_bind ((guards_verify hv hadmitted hmanifest hname hcalm).mono ?_ fun _ _ h => h) ?_
  · exact fun _ v h => ⟨[], h.unplaced hname⟩
  intro _ w hw
  have hchecked := hw.checked
  obtain ⟨n, found, hfound, hall⟩ := hw.checked
  refine (guards_forM (fun done x => done <+: payloadTargets ∧ Installed root name
    (fun target => w.look (prebuildFile (stagingDirectory root name) target)) t done x ∧
    ∀ target ∈ payloadTargets, target ∉ done →
      x.look (prebuildFile (stagingDirectory root name) target) =
        w.look (prebuildFile (stagingDirectory root name) target)) ?_ ?_).imp ?_
  · exact ⟨List.nil_prefix, hw.installed _, fun _ _ _ => rfl⟩
  · rintro done target rest x hsplit ⟨hfirst, hinstalled, hstaged⟩
    have htarget : target ∈ payloadTargets := by simp [hsplit]
    have hnew : target ∉ done := by
      intro hmem
      have hnodup := payloadTargets_nodup
      rw [hsplit, List.nodup_append] at hnodup
      exact hnodup.2.2 target hmem target List.mem_cons_self rfl
    obtain ⟨copied, k, -, hcontents, -⟩ := hall target htarget
    refine (guards_install hinstalled hname htarget hfirst.subset hnew hadmitted.prebuilds
      (hadmitted.places target htarget) ?_ hcontents).mono ?_ ?_
    · exact (hstaged target htarget hnew).trans hcontents
    · exact fun _ y hy => ⟨done, hfirst, _, hy, .inr hchecked⟩
    · rintro _ y ⟨hy, hkept⟩
      refine ⟨⟨rest, by simp [hsplit]⟩, hy, fun target' htarget' hnew' => ?_⟩
      rw [List.mem_append, not_or, List.mem_singleton] at hnew'
      rw [hkept target' hnew'.2, hstaged target' htarget' hnew'.1]
  · rintro _ x ⟨-, hinstalled, -⟩
    exact ⟨List.prefix_rfl, _, hinstalled, .inr hchecked⟩

theorem guards_rmSync {p : Path} : Guards calm (rmSync p) u
    (fun o v => u.AgreeOff (Beneath p) v ∧ (o = none ∨ o = some (.system "rm")))
    (fun _ v => u.AgreeOff (Beneath p) v ∧ ∀ q ∈ Beneath p, v.node q = none) := by
  apply guards_of
  · refine (holds_rmSync u p).mono ?_
    rintro o v ⟨hoff, ho⟩
    cases o with
    | ok _ => exact ⟨hoff, ho⟩
    | error failure => exact ⟨hoff, .inr (congrArg some ho)⟩
    | panicked => exact ho
    | died => exact ⟨hoff, .inl rfl⟩
  · intro _
    apply calmly_mapError
    exact calmly_step fun _ => ⟨_, rfl⟩

theorem Partial.beside (h : Partial host damage root name sources t bytes done u)
    (hname : ∃ k, name = tempName stagingStem k)
    (hoff : u.AgreeOff (Beneath (stagingDirectory root name)) v) :
    Partial host damage root name sources t bytes done v := by
  obtain ⟨contents, hinstalled, hchecked⟩ := h.installed
  refine ⟨h.first, contents, hinstalled.beside hname h.first.subset hoff, hchecked.imp_left ?_⟩
  exact fun hnone => ⟨hnone.1, hnone.2.trans hoff⟩

/-- What a run with admitted packages leaves, at whatever step it ends. -/
structure Leaves (host : Host) (damage : ℕ → Bytes → Bytes) (root : Path) (t : Tree)
    (config : Config) (name : Name) (done : List Name) (u : Tree) : Prop where
  free : taken t (stagingDirectory root name) = false
  name_eq : ∃ k, name = tempName stagingStem k
  admitted : ∃ sources manifest bytes, accept host root t = .ok (config, sources) ∧
    Admitted host root config sources manifest t ∧ t.look (root ++ [manifestName]) = .file bytes ∧
    Partial host damage root name sources t bytes done u

/-- The new directory is gone. -/
def Cleared (root : Path) (name : Name) (u : Tree) : Prop :=
  ∀ q ∈ Beneath (stagingDirectory root name), u.node q = none

/-- Every target of the configuration has a payload, or the package has its prebuild already. -/
def Covered (host : Host) (root : Path) (config : Config) (manifest : Option (Value Double))
    (t : Tree) : Prop :=
  ∀ target ∈ config.targets, target ∈ payloadTargets ∨
    verifyPrebuild host root manifest target t = .ok ()

theorem Leaves.beside (h : Leaves host damage root t config name done u)
    (hoff : u.AgreeOff (Beneath (stagingDirectory root name)) v) :
    Leaves host damage root t config name done v := by
  obtain ⟨sources, manifest, bytes, haccept, hadmitted, hlook, hpartial⟩ := h.admitted
  exact ⟨h.free, h.name_eq, sources, manifest, bytes, haccept, hadmitted, hlook,
    hpartial.beside h.name_eq hoff⟩

/-- Whatever was there is there still, off the destinations. -/
theorem Leaves.kept (h : Leaves host damage root t config name done u) :
    t.KeptOff (destinations root) u := by
  obtain ⟨_, _, _, -, -, -, hpartial⟩ := h.admitted
  obtain ⟨contents, hinstalled, -⟩ := hpartial.installed
  intro q hq hnode
  by_cases hplace : ∃ target ∈ payloadTargets, q = prebuildDirectory root target
  · obtain ⟨target, htarget, rfl⟩ := hplace
    exact (hinstalled.dirs target htarget).resolve_right fun hmade => hnode hmade.1
  · apply hinstalled.off
    rintro (⟨target, htarget, hfile | hdir⟩ | hstaged)
    · exact hq ⟨target, htarget, hfile⟩
    · exact hplace ⟨target, htarget, hdir⟩
    · exact hnode (taken_eq_false h.free hstaged)

/-- With all prebuilds in their places, every covered target is verified. -/
theorem Leaves.verified (h : Leaves host damage root t config name payloadTargets u)
    (hdamage : ∀ n bytes, damage n bytes = bytes) (hcovered : ∀ sources manifest,
      Admitted host root config sources manifest t → Covered host root config manifest t) :
    verifyPackedPrebuilds host root (some config) config.targets u = .ok () := by
  obtain ⟨sources, manifest, bytes, -, hadmitted, hlook, hpartial⟩ := h.admitted
  obtain ⟨contents, hinstalled, hchecked⟩ := hpartial.installed
  obtain ⟨n, found, hfound, hall⟩ := hchecked.resolve_left fun h => absurd h.1 (by decide)
  obtain ⟨bytes', hlook', hof⟩ := hadmitted.file
  rw [hlook] at hlook'
  cases hlook'
  rw [hdamage, hof] at hfound
  cases hfound
  refine verifyPackedPrebuilds_ok.mpr ⟨manifest, ?_, hadmitted.identity, fun target htarget => ?_⟩
  · rw [readManifest_stays h.kept hlook, readManifest_of_file hlook, hof]
  by_cases hpayload : target ∈ payloadTargets
  · obtain ⟨copied, k, -, hcontents, hrecorded⟩ := hall target hpayload
    have hplaced := hinstalled.placed target hpayload
    rw [hcontents] at hplaced
    exact (verifyPrebuild_of_file hplaced).mpr hrecorded
  · have hthere := (hcovered sources manifest hadmitted target htarget).resolve_left hpayload
    exact verifyPrebuild_stays h.kept (.inr hpayload) _ _ hthere

/-- How a run can end. -/
theorem guards_hydrateDistribution (hcalm : calm → (∀ n bytes, damage n bytes = bytes) ∧
      ∃ config sources, accept host root t = .ok (config, sources) ∧ ∀ sources manifest,
        Admitted host root config sources manifest t → Covered host root config manifest t) :
    Guards calm (hydrateDistribution host damage root) t
      (fun o u => u = t ∨ ∃ config name done, Leaves host damage root t config name done u ∧
        (o ≠ none → o ≠ some (.system "rm") → Cleared root name u))
      (fun targets u => ∃ config name, Leaves host damage root t config name payloadTargets u ∧
        Cleared root name u ∧ targets = config.targets ∧
        verifyPackedPrebuilds host root (some config) config.targets u = .ok ()) := by
  refine guards_bind (P := fun found u => t = u ∧ accept host root t = .ok found) ?_ ?_
  · refine guards_reading (fun _ _ => .inl rfl) (fun _ hok => ⟨rfl, hok⟩) fun hc => ?_
    obtain ⟨-, config, sources, hok, -⟩ := hcalm hc
    exact ⟨_, hok⟩
  rintro ⟨config, sources⟩ _ ⟨rfl, haccept⟩
  obtain ⟨manifest, hadmitted⟩ := admitted_of_accept haccept
  obtain ⟨bytes, hlook, -⟩ := hadmitted.file
  refine guards_bind (guards_mkdtempSync hadmitted.prebuilds fun _ => .inl rfl) ?_
  rintro name u ⟨hname, hfree, hu⟩
  have hleaves {done : List Name} {v : Tree}
      (h : Partial host damage root name sources t bytes done v) :
      Leaves host damage root t config name done v :=
    ⟨hfree, hname, sources, manifest, bytes, haccept, hadmitted, hlook, h⟩
  refine guards_bind (P := fun _ v => Leaves host damage root t config name payloadTargets v ∧
    Cleared root name v) ?_ ?_
  · refine guards_ensure (guards_body hadmitted hlook hfree hname hu fun hc =>
      (hcalm hc).1) ?_ ?_ ?_
    · rintro v ⟨done, h⟩
      exact .inr ⟨config, name, done, hleaves h, fun hne => absurd rfl hne⟩
    · rintro failure v ⟨done, h⟩
      have hremoved : Guards False (rmSync (stagingDirectory root name)) v _ _ := guards_rmSync
      refine hremoved.holds.mono ?_
      rintro o w ho
      cases o with
      | ok _ => exact .inr ⟨config, name, done, (hleaves h).beside ho.1, fun _ _ => ho.2⟩
      | error failure =>
        refine .inr ⟨config, name, done, (hleaves h).beside ho.1, fun _ hne => ?_⟩
        exact absurd (ho.2.resolve_left (by simp)) hne
      | panicked => exact ho
      | died => exact .inr ⟨config, name, done, (hleaves h).beside ho.1, fun hne => absurd rfl hne⟩
    · intro _ v h
      refine guards_rmSync.mono ?_ ?_
      · rintro o w ⟨hoff, ho⟩
        refine .inr ⟨config, name, payloadTargets, (hleaves h).beside hoff, fun hdied hne => ?_⟩
        exact absurd ho (not_or.mpr ⟨hdied, hne⟩)
      · rintro _ w ⟨hoff, hgone⟩
        exact ⟨(hleaves h).beside hoff, hgone⟩
  rintro _ v ⟨h, hcleared⟩
  refine guards_bind (P := fun _ w => w = v ∧
    verifyPackedPrebuilds host root (some config) config.targets v = .ok ()) ?_ ?_
  · refine guards_reading ?_ (fun _ hok => ⟨rfl, hok⟩) fun hc => ?_
    · exact fun _ o => .inr ⟨config, name, payloadTargets, h, fun _ _ => hcleared⟩
    · obtain ⟨hdamage, config', sources', haccept', hcovered⟩ := hcalm hc
      rw [haccept] at haccept'
      cases haccept'
      exact ⟨(), h.verified hdamage hcovered⟩
  rintro _ _ ⟨rfl, hverified⟩
  exact guards_pure ⟨config, name, h, hcleared, rfl, hverified⟩

/-- A run ends with the targets, with an error, or with the machine. -/
theorem hydrate_outcome (host : Host) (damage : ℕ → Bytes → Bytes) (root : Path) (t : Tree) :
    Holds (hydrateDistribution host damage root) t (Outcome.Yields
      (fun o u => u = t ∨ ∃ config name done, Leaves host damage root t config name done u ∧
        (o ≠ none → o ≠ some (.system "rm") → Cleared root name u))
      (fun targets u => ∃ config name, Leaves host damage root t config name payloadTargets u ∧
        Cleared root name u ∧ targets = config.targets ∧
        verifyPackedPrebuilds host root (some config) config.targets u = .ok ())) :=
  (guards_hydrateDistribution False.elim).holds

end Run

/-! ### What is installed -/

section Outcomes

variable {host : Host} {damage : ℕ → Bytes → Bytes} {t u : Tree} {root : Path} {name : Name}
  {config : Config} {done : List Name}

/-- The prebuilds of the first targets have the hashes of the manifest, the others are as they were,
and nothing else has changed but directories that were made and a new one for the copies. -/
structure Consistent (host : Host) (root : Path) (t : Tree) (done : List Name) (u : Tree) :
    Prop where
  first : done <+: payloadTargets
  recorded : ∃ manifest, readManifest host root t = .ok manifest ∧ ∀ target ∈ done, ∃ bytes,
    u.look (prebuildFile root target) = .file bytes ∧ Recorded host manifest target bytes
  waiting : ∀ target ∈ payloadTargets, target ∉ done →
    u.node (prebuildFile root target) = t.node (prebuildFile root target)
  kept : t.KeptOff (destinations root) u
  off : ∃ name, taken t (stagingDirectory root name) = false ∧
    t.AgreeOff (Places root ∪ Beneath (stagingDirectory root name)) u

/-- The manifest is copied as it is. -/
def ManifestKept (damage : ℕ → Bytes → Bytes) (root : Path) (t : Tree) : Prop :=
  ∀ bytes, t.look (root ++ [manifestName]) = .file bytes → ∀ n, damage n bytes = bytes

theorem Leaves.checked (h : Leaves host damage root t config name done u)
    (hmanifest : ManifestKept damage root t) : ∃ sources manifest contents,
      accept host root t = .ok (config, sources) ∧ readManifest host root t = .ok manifest ∧
      done <+: payloadTargets ∧ Installed root name contents t done u ∧
      (done = [] ∧ t.AgreeOff (Beneath (stagingDirectory root name)) u ∨
        ∀ target ∈ payloadTargets, ∃ bytes k, Delivered sources t target bytes ∧
          contents target = .file (damage k bytes) ∧
            Recorded host manifest target (damage k bytes)) := by
  obtain ⟨sources, manifest, bytes, haccept, hadmitted, hlook, hpartial⟩ := h.admitted
  obtain ⟨contents, hinstalled, hchecked⟩ := hpartial.installed
  obtain ⟨bytes', hlook', hof⟩ := hadmitted.file
  rw [hlook] at hlook'
  cases hlook'
  have hread : readManifest host root t = .ok manifest := by rw [readManifest_of_file hlook, hof]
  refine ⟨sources, manifest, contents, haccept, hread, hpartial.first, hinstalled,
    hchecked.imp_right ?_⟩
  rintro ⟨n, found, hfound, hall⟩
  rw [hmanifest bytes hlook, hof] at hfound
  cases hfound
  exact hall

theorem Leaves.consistent (h : Leaves host damage root t config name done u)
    (hmanifest : ManifestKept damage root t) : Consistent host root t done u := by
  obtain ⟨sources, manifest, contents, -, hread, hfirst, hinstalled, hchecked⟩ :=
    h.checked hmanifest
  refine ⟨hfirst, ⟨manifest, hread, fun target htarget => ?_⟩, hinstalled.waiting, h.kept,
    name, h.free, hinstalled.off⟩
  rcases hchecked with ⟨rfl, -⟩ | hall
  · exact absurd htarget List.not_mem_nil
  · obtain ⟨bytes, k, -, hcontents, hrecorded⟩ := hall target (hfirst.subset htarget)
    exact ⟨_, by rw [hinstalled.placed target htarget, hcontents], hrecorded⟩

/-- Without the new directory only the places have changed. -/
theorem Leaves.cleared (h : Leaves host damage root t config name done u)
    (hcleared : Cleared root name u) {S : Set Path}
    (hoff : t.AgreeOff (S ∪ Beneath (stagingDirectory root name)) u) : t.AgreeOff S u := by
  intro q hq
  by_cases hstaged : q ∈ Beneath (stagingDirectory root name)
  · rw [hcleared q hstaged, taken_eq_false h.free hstaged]
  · exact hoff q fun hmem => hmem.elim hq hstaged

/-- However a run ends, every prebuild is the old one or has the hash of the manifest; without a
failed removal nothing is left but what was installed; and a run that returns has verified all. -/
theorem hydrate_consistent (hmanifest : ManifestKept damage root t) :
    Holds (hydrateDistribution host damage root) t (fun o u => o ≠ .panicked ∧
      (u = t ∧ (∀ targets, o ≠ .ok targets) ∨ ∃ done, Consistent host root t done u ∧
        (o ≠ .died → o ≠ .error (.system "rm") → t.AgreeOff (Places root) u) ∧
        ∀ targets, o = .ok targets → done = payloadTargets ∧ ∃ config sources,
          accept host root t = .ok (config, sources) ∧ targets = config.targets ∧
          verifyPackedPrebuilds host root (some config) targets u = .ok ())) := by
  have hplaces {config : Config} {name : Name} {done : List Name} {u : Tree}
      (h : Leaves host damage root t config name done u) (hcleared : Cleared root name u) :
      t.AgreeOff (Places root) u := by
    obtain ⟨_, _, _, -, -, -, hinstalled, -⟩ := h.checked hmanifest
    exact h.cleared hcleared hinstalled.off
  refine (hydrate_outcome host damage root t).mono ?_
  intro o u ho
  cases o with
  | ok targets =>
    obtain ⟨config, name, h, hcleared, rfl, hverified⟩ := ho
    obtain ⟨sources, _, _, haccept, -⟩ := h.checked hmanifest
    refine ⟨by simp,
      .inr ⟨payloadTargets, h.consistent hmanifest, fun _ _ => hplaces h hcleared, ?_⟩⟩
    rintro _ ⟨⟩
    exact ⟨rfl, config, sources, haccept, rfl, hverified⟩
  | error failure =>
    refine ⟨by simp, ?_⟩
    rcases ho with rfl | ⟨config, name, done, h, hcleared⟩
    · exact .inl ⟨rfl, by simp⟩
    · refine .inr ⟨done, h.consistent hmanifest, fun _ hne =>
        hplaces h (hcleared (by simp) ?_), by simp⟩
      exact fun heq => hne (congrArg Outcome.error (Option.some.inj heq))
  | panicked => exact ho.elim
  | died =>
    refine ⟨by simp, ?_⟩
    rcases ho with rfl | ⟨config, name, done, h, -⟩
    · exact .inl ⟨rfl, by simp⟩
    · exact .inr ⟨done, h.consistent hmanifest, fun hne => absurd rfl hne, by simp⟩

theorem hydrate_consistent_sample :
    accept sampleHost sampleRoot sampleTree = .ok (sampleConfig, sampleSources) ∧
    Holds (hydrateDistribution sampleHost (fun _ bytes => bytes) sampleRoot) sampleTree
      (fun o u => o ≠ .panicked ∧
        (u = sampleTree ∧ (∀ targets, o ≠ .ok targets) ∨
          ∃ done, Consistent sampleHost sampleRoot sampleTree done u ∧
            (o ≠ .died → o ≠ .error (.system "rm") → sampleTree.AgreeOff (Places sampleRoot) u) ∧
            ∀ targets, o = .ok targets → done = payloadTargets ∧ ∃ config sources,
              accept sampleHost sampleRoot sampleTree = .ok (config, sources) ∧
              targets = config.targets ∧
              verifyPackedPrebuilds sampleHost sampleRoot (some config) targets u = .ok ())) :=
  ⟨accept_sample, hydrate_consistent fun _ _ _ => rfl⟩

/-- One payload whose copies never have the recorded hash keeps all of them out. -/
theorem hydrate_all_or_nothing (hmanifest : ManifestKept damage root t)
    (hcorrupted : ∃ target ∈ payloadTargets, ∀ config sources manifest bytes,
      accept host root t = .ok (config, sources) → readManifest host root t = .ok manifest →
      Delivered sources t target bytes → ∀ n, ¬Recorded host manifest target (damage n bytes)) :
    Holds (hydrateDistribution host damage root) t (fun o u => (∀ targets, o ≠ .ok targets) ∧
      (∃ name, taken t (stagingDirectory root name) = false ∧
        t.AgreeOff (Beneath (stagingDirectory root name)) u) ∧
      (o ≠ .died → o ≠ .error (.system "rm") → ∀ q, u.node q = t.node q)) := by
  obtain ⟨target, htarget, hcorrupted⟩ := hcorrupted
  have hnothing {config : Config} {name : Name} {done : List Name} {u : Tree}
      (h : Leaves host damage root t config name done u) :
      done = [] ∧ t.AgreeOff (Beneath (stagingDirectory root name)) u := by
    obtain ⟨sources, manifest, contents, haccept, hread, -, -, hchecked⟩ := h.checked hmanifest
    refine hchecked.resolve_right fun hall => ?_
    obtain ⟨bytes, k, hdelivered, -, hrecorded⟩ := hall target htarget
    exact hcorrupted config sources manifest bytes haccept hread hdelivered k hrecorded
  have hfree (t : Tree) : ∃ name, taken t (stagingDirectory root name) = false := by
    obtain ⟨_, -, hfree⟩ := Restore.freeName_free t (root ++ ["prebuilds"]) stagingStem 0
    exact ⟨_, hfree⟩
  refine (hydrate_outcome host damage root t).mono ?_
  intro o u ho
  cases o with
  | ok targets =>
    obtain ⟨config, name, h, -⟩ := ho
    exact absurd (hnothing h).1 (by decide)
  | error failure =>
    refine ⟨by simp, ?_⟩
    rcases ho with rfl | ⟨config, name, done, h, hcleared⟩
    · obtain ⟨name, hfree⟩ := hfree u
      exact ⟨⟨name, hfree, .refl _ _⟩, fun _ _ _ => rfl⟩
    · refine ⟨⟨name, h.free, (hnothing h).2⟩, fun _ hne q => ?_⟩
      have hgone := hcleared (by simp) fun heq => hne (congrArg Outcome.error (Option.some.inj heq))
      exact h.cleared hgone (S := ∅) ((hnothing h).2.mono Set.subset_union_right) q
        (Set.notMem_empty q)
  | panicked => exact ho.elim
  | died =>
    refine ⟨by simp, ?_, fun hne => absurd rfl hne⟩
    rcases ho with rfl | ⟨config, name, done, h, -⟩
    · obtain ⟨name, hfree⟩ := hfree u
      exact ⟨name, hfree, .refl _ _⟩
    · exact ⟨name, h.free, (hnothing h).2⟩

/-- Copies of the addon that lose all its bytes. -/
def emptied (_ : ℕ) (bytes : Bytes) : Bytes := if bytes = addonBytes then [] else bytes

theorem manifestKept_emptied : ManifestKept emptied sampleRoot sampleTree := by
  have hnode : sampleTree.node (sampleRoot ++ [manifestName]) =
      some (fileNode (jsonBytes (object manifestEntries))) :=
    node_package mem_ownerSample (by simp [Sample.entries, ownerSample])
  intro bytes hlook n
  obtain ⟨attr, hfile⟩ := Tree.look_eq_file.mp hlook
  rw [hnode, Option.some.injEq, fileNode, Node.file.injEq] at hfile
  rw [← hfile.1]
  exact if_neg (jsonBytes_ne_addon _)

theorem delivered_sample {target : Name} {bytes : Bytes}
    (h : Delivered sampleSources sampleTree target bytes) : bytes = addonBytes := by
  obtain ⟨source, hsource, htarget, hlook⟩ := h
  obtain ⟨payload, hpayload, rfl⟩ := List.mem_map.mp hsource
  obtain ⟨attr, hfile⟩ := Tree.look_eq_file.mp hlook
  have hnode := (directory_sample (mem_payloadSample hpayload) htarget).2
  dsimp only [payloadSample] at hfile hnode
  rw [hnode, Option.some.injEq, fileNode, Node.file.injEq] at hfile
  exact hfile.1.symm

theorem hydrate_all_or_nothing_sample :
    accept sampleHost sampleRoot sampleTree = .ok (sampleConfig, sampleSources) ∧
    Holds (hydrateDistribution sampleHost emptied sampleRoot) sampleTree
      (fun o u => (∀ targets, o ≠ .ok targets) ∧
        (∃ name, taken sampleTree (stagingDirectory sampleRoot name) = false ∧
          sampleTree.AgreeOff (Beneath (stagingDirectory sampleRoot name)) u) ∧
        (o ≠ .died → o ≠ .error (.system "rm") → ∀ q, u.node q = sampleTree.node q)) := by
  refine ⟨accept_sample, hydrate_all_or_nothing manifestKept_emptied ⟨"ios-arm64", by decide, ?_⟩⟩
  intro config sources manifest bytes haccept _ hdelivered n hrecorded
  rw [accept_sample] at haccept
  cases haccept
  rw [delivered_sample hdelivered] at hrecorded
  exact hrecorded.1 (if_pos rfl)

end Outcomes

end RgbLightningNode.Distribution
