import RgbLightningNode.Distribution.Hydration

/-!
# Runs after interrupted runs

Whatever runs have left, cut short or with damaged copies, the distribution is admitted as before,
so that one run in which nothing fails installs every prebuild.
-/

namespace RgbLightningNode.Distribution
open Faulty FileSystem Json Number
open Android (Failure)
open Provenance (fail)
open Restore (Beneath taken taken_eq_false)

/-! ### Admission stays -/

section Stays

variable {host : Host} {t u : Tree} {root payloadRoot : Path} {config : Option Config}
  {payload : Payload}

theorem readPackage_stays (h : t.KeptOff (destinations root) u) :
    Stays t u (readPackage host payloadRoot) := by
  have hp : payloadRoot ++ ["package.json"] ∉ destinations root := notMem_of_last (by decide)
  refine stays_bind (regularFile_stays h hp) fun _ _ => ?_
  exact stays_bind (readJson_stays h hp) fun _ _ => stays_const _

theorem ownerMetadata_stays (h : t.KeptOff (destinations root) u) :
    Stays t u (ownerMetadata host root) :=
  stays_bind (readPackage_stays h) fun _ _ => stays_const _

theorem sameFile_stays (h : t.KeptOff (destinations root) u) {file : Name}
    (hfile : file ≠ addonFile)
    (kind : String) : Stays t u (sameFile host root payloadRoot payload file kind) := by
  refine stays_bind (regularFile_stays h (notMem_of_last hfile)) fun _ _ => ?_
  refine stays_bind (regularFile_stays h (notMem_of_last hfile)) fun _ _ => ?_
  refine stays_bind (readFileSync_stays h (notMem_of_last hfile)) fun _ _ => ?_
  exact stays_bind (readFileSync_stays h (notMem_of_last hfile)) fun _ _ => stays_const _

/-- The prebuilds of a package other than the owner, or of targets without a payload. -/
theorem verifyPackedPrebuilds_stays (h : t.KeptOff (destinations root) u) {targets : List Name}
    (hnew : ∀ target ∈ targets, payloadRoot ≠ root ∨ target ∉ payloadTargets) {bytes : Bytes}
    (hlook : t.look (payloadRoot ++ [manifestName]) = .file bytes) :
    Stays t u (verifyPackedPrebuilds host payloadRoot config targets) := by
  rintro ⟨⟩ hok
  obtain ⟨manifest, hread, hidentity, hall⟩ := verifyPackedPrebuilds_ok.mp hok
  refine verifyPackedPrebuilds_ok.mpr ⟨manifest, ?_, hidentity, fun target htarget => ?_⟩
  · rw [readManifest_stays h hlook, hread]
  · exact verifyPrebuild_stays h (hnew target htarget) _ _ (hall target htarget)

theorem addonFile_notMem (hpayload : payload ∈ payloads) : addonFile ∉ payload.targets := by
  have hall : ∀ payload ∈ payloads, addonFile ∉ payload.targets := by decide
  exact hall payload hpayload

theorem validatePayload_stays (h : t.KeptOff (destinations root) u)
    (hpayload : payload ∈ payloads) :
    Stays t u (validatePayload host root payloadRoot config payload) := by
  rintro ⟨⟩ hok
  obtain ⟨hmetadata, hvalid⟩ := valid_of_validatePayload hok
  have hne := root_ne_of_metadata hpayload hmetadata
  obtain ⟨bytes, -, htheirs⟩ := hvalid.manifest
  have hstays : Stays t u (validatePayload host root payloadRoot config payload) := by
    refine stays_bind ?_ fun _ _ => ?_
    · refine stays_bind (ownerMetadata_stays h) fun _ _ => ?_
      refine stays_bind (readPackage_stays h) fun _ _ => stays_const _
    refine stays_bind (sameFile_stays h (by decide) _) fun _ _ => ?_
    refine stays_bind (sameFile_stays h (by decide) _) fun _ _ => ?_
    refine stays_bind (stays_forM fun target htarget => ?_) fun _ _ => ?_
    · refine prebuildPath_stays h (.inl hne) ?_
      rintro rfl
      exact addonFile_notMem hpayload htarget
    · exact verifyPackedPrebuilds_stays h (fun _ _ => .inl hne) htheirs
  exact hstays _ hok

theorem accept_stays (h : t.KeptOff (destinations root) u)
    (hplaces : ∀ target ∈ payloadTargets, prebuildPath root target true u = .ok ()) :
    Stays t u (accept host root) := by
  rintro ⟨config, sources⟩ hok
  obtain ⟨manifest, hadmitted⟩ := admitted_of_accept hok
  obtain ⟨bytes, hlook, -⟩ := hadmitted.file
  have hwrapper : ∀ target ∈ wrapperTargets, root ≠ root ∨ target ∉ payloadTargets := by
    intro target htarget
    rw [List.mem_singleton.mp htarget]
    exact .inr (by decide)
  have hstays : Stays t u (accept host root) := by
    refine stays_bind (readOverlayConfig_stays h fun q hq => below_of_destination hq) fun _ _ => ?_
    refine stays_bind (ownerMetadata_stays h) fun _ _ => ?_
    refine stays_bind (stays_const _) fun sources hsources => ?_
    have heq := map_of_mapM hsources fun _ _ => resolvePayload_ok
    refine stays_bind (stays_forM fun source hsource => ?_) fun _ _ => ?_
    · refine validatePayload_stays h ?_
      rw [← heq]
      exact List.mem_map_of_mem hsource
    refine stays_bind (stays_forM fun target htarget => ?_) fun _ _ => ?_
    · refine prebuildPath_stays h (hwrapper target htarget) ?_
      rw [List.mem_singleton.mp htarget]
      decide
    refine stays_bind (verifyPackedPrebuilds_stays h hwrapper hlook) fun _ _ => ?_
    exact stays_bind (fun _ _ => forM_eq_ok.mpr hplaces) fun _ _ => stays_const _
  exact hstays _ hok

end Stays

/-! ### Runs one after another -/

section Runs

variable {host : Host} {root : Path} {t u : Tree} {config : Config} {sources : List Source}

/-- What runs can make of a tree, each of which ends as it may. -/
inductive Reached (host : Host) (root : Path) (t : Tree) : Tree → Prop
  | start : Reached host root t t
  | run {u : Tree} (h : Reached host root t u) (damage : ℕ → Bytes → Bytes) (ds : Schedule) :
    Reached host root t (hydrateDistribution host damage root u ds).2.1

/-- Nothing is lost off the destinations, and the destinations are free or hold files. -/
structure Sound (root : Path) (t u : Tree) : Prop where
  kept : t.KeptOff (destinations root) u
  places : ∀ target ∈ payloadTargets, prebuildPath root target true u = .ok ()

theorem Leaves.places {damage : ℕ → Bytes → Bytes} {name : Name} {done : List Name}
    (h : Leaves host damage root t config name done u) :
    ∀ target ∈ payloadTargets, prebuildPath root target true u = .ok () := by
  intro target htarget
  obtain ⟨sources, manifest, bytes, -, hadmitted, -, hpartial⟩ := h.admitted
  obtain ⟨contents, hinstalled, hchecked⟩ := hpartial.installed
  obtain ⟨-, hdir, hfile⟩ := prebuildPath_ok.mp (hadmitted.places target htarget)
  refine prebuildPath_ok.mpr ⟨?_, ?_, ?_⟩
  · obtain ⟨attr, hnode⟩ := (Tree.isDirectory_iff (by simp)).mp hadmitted.prebuilds
    exact directory_ok.mpr (.inl ⟨attr, by rw [hinstalled.off _ prebuilds_notMem, hnode]⟩)
  · rcases hinstalled.dirs target htarget with hsame | ⟨-, hmade⟩
    · rw [directory_ok] at hdir ⊢
      rwa [hsame]
    · exact directory_ok.mpr (.inl hmade)
  · by_cases hplaced : target ∈ done
    · rcases hchecked with ⟨rfl, -⟩ | ⟨n, found, -, hall⟩
      · exact absurd hplaced List.not_mem_nil
      · obtain ⟨copied, k, -, hcontents, -⟩ := hall target htarget
        exact .inr ⟨_, by rw [hinstalled.placed target hplaced, hcontents]⟩
    · have hwaiting := hinstalled.waiting target htarget hplaced
      rw [hwaiting, Tree.look_congr hwaiting]
      exact hfile

/-- One more run, however it ends. -/
theorem Sound.run (h : Sound root t u) (damage : ℕ → Bytes → Bytes) (ds : Schedule) :
    Sound root t (hydrateDistribution host damage root u ds).2.1 := by
  have hrun := hydrate_outcome host damage root u ds
  have hleaves {config : Config} {name : Name} {done : List Name} {v : Tree}
      (hv : Leaves host damage root u config name done v) : Sound root t v :=
    ⟨h.kept.trans hv.kept, hv.places⟩
  generalize (hydrateDistribution host damage root u ds).2.1 = v at hrun
  generalize (hydrateDistribution host damage root u ds).1 = o at hrun
  cases o with
  | ok targets =>
    obtain ⟨config, name, hv, -⟩ := hrun
    exact hleaves hv
  | error failure =>
    rcases hrun with rfl | ⟨config, name, done, hv, -⟩
    · exact h
    · exact hleaves hv
  | panicked => exact hrun.elim
  | died =>
    rcases hrun with rfl | ⟨config, name, done, hv, -⟩
    · exact h
    · exact hleaves hv

theorem Reached.sound (h : Reached host root t u)
    (hplaces : ∀ target ∈ payloadTargets, prebuildPath root target true t = .ok ()) :
    Sound root t u := by
  induction h with
  | start => exact ⟨.refl _ _, hplaces⟩
  | run _ damage ds ih => exact ih.run damage ds

/-- The prebuild in a package is the one that was there. -/
theorem Sound.delivered (h : Sound root t u) {manifest : Option (Value Double)}
    (hadmitted : Admitted host root config sources manifest t) {target : Name} {bytes : Bytes}
    (hdelivered : Delivered sources u target bytes) : Delivered sources t target bytes := by
  obtain ⟨source, hsource, htarget, hlook⟩ := hdelivered
  obtain ⟨old, hold, -⟩ := hadmitted.copies source hsource target htarget
  obtain ⟨attr, hnode⟩ := Tree.look_eq_file.mp hold
  refine ⟨source, hsource, htarget, ?_⟩
  have hne : prebuildFile source.root target ∉ destinations root :=
    prebuildFile_notMem (.inl (hadmitted.roots source hsource))
  rw [← hlook, Tree.look_congr (h.kept _ hne (by simp [hnode]))]

theorem Sound.covered (h : Sound root t u) {bytes : Bytes}
    (hlook : t.look (root ++ [manifestName]) = .file bytes)
    (hcovered : ∀ manifest, readManifest host root t = .ok manifest →
      Covered host root config manifest t)
    {manifest : Option (Value Double)} (hadmitted : Admitted host root config sources manifest u) :
    Covered host root config manifest u := by
  obtain ⟨bytes', hlook', hof⟩ := hadmitted.file
  have hread : readManifest host root t = .ok manifest := by
    rw [← readManifest_stays h.kept hlook, readManifest_of_file hlook', hof]
  intro target htarget
  by_cases hpayload : target ∈ payloadTargets
  · exact .inl hpayload
  · have hthere := (hcovered manifest hread target htarget).resolve_left hpayload
    exact .inr (verifyPrebuild_stays h.kept (.inr hpayload) _ _ hthere)

/-- After any runs, a run in which nothing fails returns, and the prebuilds of all payloads are in
their places. -/
theorem hydrate_recovers (haccept : accept host root t = .ok (config, sources))
    (hcovered : ∀ manifest, readManifest host root t = .ok manifest →
      Covered host root config manifest t)
    (hreached : Reached host root t u) :
    Calmly (hydrateDistribution host (fun _ bytes => bytes) root) u (fun o v =>
      o = .ok config.targets ∧ Consistent host root u payloadTargets v ∧
      t.KeptOff (destinations root) v ∧ u.AgreeOff (Places root) v ∧
      ∀ target ∈ payloadTargets, ∃ bytes, Delivered sources t target bytes ∧
        v.look (prebuildFile root target) = .file bytes) := by
  obtain ⟨manifest, hadmitted⟩ := admitted_of_accept haccept
  obtain ⟨bytes, hlook, -⟩ := hadmitted.file
  have hsound := hreached.sound hadmitted.places
  have haccept' := accept_stays hsound.kept hsound.places _ haccept
  have hguards : Guards True (hydrateDistribution host (fun _ bytes => bytes) root) u _ _ :=
    guards_hydrateDistribution fun _ => ⟨fun _ _ => rfl, config, sources, haccept',
      fun _ _ h => hsound.covered hlook hcovered h⟩
  refine hguards.calmly.mono ?_
  rintro o v ⟨targets, rfl, config', name, h, hcleared, rfl, -⟩
  have hkept : ManifestKept (fun _ bytes => bytes) root u := fun _ _ _ => rfl
  obtain ⟨sources', manifest', contents, haccept'', -, -, hinstalled, hchecked⟩ := h.checked hkept
  rw [haccept'] at haccept''
  cases haccept''
  refine ⟨rfl, h.consistent hkept, hsound.kept.trans h.kept, h.cleared hcleared hinstalled.off, ?_⟩
  intro target htarget
  have hall := hchecked.resolve_left fun hnone => absurd hnone.1 (by decide)
  obtain ⟨copied, k, hdelivered, hcontents, -⟩ := hall target htarget
  exact ⟨copied, hsound.delivered hadmitted hdelivered,
    by rw [hinstalled.placed target htarget, hcontents]⟩

/-- After a run that died at once. -/
theorem hydrate_recovers_sample :
    Calmly (hydrateDistribution sampleHost (fun _ bytes => bytes) sampleRoot)
      (hydrateDistribution sampleHost emptied sampleRoot sampleTree [⟨.die, 0⟩]).2.1 (fun o v =>
        o = .ok sampleConfig.targets ∧
        Consistent sampleHost sampleRoot
          (hydrateDistribution sampleHost emptied sampleRoot sampleTree [⟨.die, 0⟩]).2.1
            payloadTargets v ∧
        sampleTree.KeptOff (destinations sampleRoot) v ∧
        (hydrateDistribution sampleHost emptied sampleRoot sampleTree [⟨.die, 0⟩]).2.1.AgreeOff
          (Places sampleRoot) v ∧
        ∀ target ∈ payloadTargets, ∃ bytes, Delivered sampleSources sampleTree target bytes ∧
          v.look (prebuildFile sampleRoot target) = .file bytes) := by
  refine hydrate_recovers accept_sample ?_ (.run .start _ _)
  intro manifest hread target htarget
  have hsample : readManifest sampleHost sampleRoot sampleTree =
      .ok (some (object manifestEntries)) :=
    readManifest_sample ownerSample mem_ownerSample
  rw [hsample, Except.ok.injEq] at hread
  subst hread
  rcases List.mem_append.mp htarget with hwrapper | hpayload
  · have hfile := Tree.look_eq_file.mpr ⟨_, (directory_sample mem_ownerSample hwrapper).2⟩
    exact .inr ((verifyPrebuild_of_file hfile).mpr (recorded_sample htarget))
  · exact .inl hpayload

end Runs

end RgbLightningNode.Distribution
