import RgbLightningNode.Android.Restaging
import RgbLightningNode.Distribution.Packages

/-!
# What is known of an admitted distribution

Before the first write every package, every payload and every destination has been checked. What
follows from the checks is collected here, and that they succeed again once more payloads are in
their places.
-/

namespace RgbLightningNode.Distribution
open Faulty FileSystem Json Number
open Android (Failure fileText utf8Text)
open Provenance (fail isText manifestMatchesIdentity overlayIdentity parseManifest release sameField
  wrapperFiles)

/-! ### Paths -/

section Paths

variable {t : Tree} {root p : Path} {target : Name} {allowMissing : Bool}

theorem regularFile_ok : regularFile p t = .ok () ↔ ∃ bytes, t.look p = .file bytes := by
  simp only [Tree.look_eq_file]
  unfold regularFile
  cases hnode : t.node p with
  | none => simp
  | some n => cases n <;> simp [Node.isFile]

theorem directory_ok : directory p allowMissing t = .ok () ↔
    (∃ attr, t.node p = some (.dir attr)) ∨ allowMissing = true ∧ t.node p = none := by
  unfold directory
  cases hnode : t.node p with
  | none => simp
  | some n => cases n <;> simp

/-- The prebuild is a file in directories, or is missing where it may be. -/
theorem prebuildPath_ok : prebuildPath root target allowMissing t = .ok () ↔
    directory (root ++ ["prebuilds"]) allowMissing t = .ok () ∧
      directory (prebuildDirectory root target) allowMissing t = .ok () ∧
      (allowMissing = true ∧ t.node (prebuildFile root target) = none ∨
        ∃ bytes, t.look (prebuildFile root target) = .file bytes) := by
  have hlast : (if !allowMissing || (t.node (prebuildFile root target)).isSome then
      regularFile (prebuildFile root target) t else return ()) = Except.ok () ↔
      (allowMissing = true ∧ t.node (prebuildFile root target) = none ∨
        ∃ bytes, t.look (prebuildFile root target) = .file bytes) := by
    rw [← regularFile_ok]
    cases hnode : t.node (prebuildFile root target) with
    | none =>
      cases allowMissing with
      | true => exact iff_of_true rfl (.inl ⟨rfl, rfl⟩)
      | false => simp
    | some n => simp
  constructor
  · intro h
    obtain ⟨_, hprebuilds, h⟩ := bind_eq_ok.mp h
    obtain ⟨_, hdirectory, h⟩ := bind_eq_ok.mp h
    exact ⟨hprebuilds, hdirectory, hlast.mp h⟩
  · rintro ⟨hprebuilds, hdirectory, h⟩
    exact bind_eq_ok.mpr ⟨_, hprebuilds, bind_eq_ok.mpr ⟨_, hdirectory, hlast.mpr h⟩⟩

end Paths

/-! ### Manifests -/

section Manifests

variable {host : Host} {t : Tree} {root payloadRoot : Path} {config : Option Config}
  {manifest : Option (Value Double)} {target : Name} {bytes : Bytes}

theorem manifestOf_parse {v : Value Double} (h : parse (host.decode bytes) = some v) :
    manifestOf host (some bytes) = .ok (some v) := by
  obtain ⟨raw, hraw, rfl⟩ := Option.map_eq_some_iff.mp h
  rw [manifestOf, Option.map_some, parseManifest, Option.bind_some, hraw]

theorem readManifest_of_file (h : t.look (root ++ [manifestName]) = .file bytes) :
    readManifest host root t = manifestOf host (some bytes) := by
  obtain ⟨attr, hnode⟩ := Tree.look_eq_file.mp h
  have hexists : existsSync host t (root ++ [manifestName]) = true := by
    rw [existsSync, hnode]
  have hread : readFileSync host t (root ++ [manifestName]) = .ok bytes := by
    rw [readFileSync, hnode]
  rw [readManifest, if_pos hexists, hread]
  rfl

theorem verifyPrebuild_of_file (h : t.look (prebuildFile root target) = .file bytes) :
    verifyPrebuild host root manifest target t = .ok () ↔ Recorded host manifest target bytes := by
  obtain ⟨attr, hnode⟩ := Tree.look_eq_file.mp h
  have hexists : existsSync host t (prebuildFile root target) = true := by
    rw [existsSync, hnode]
  have hread : readFileSync host t (prebuildFile root target) = .ok bytes := by
    rw [readFileSync, hnode]
  rw [verifyPrebuild, hexists, hread]
  change require (Recorded host manifest target bytes) _ = _ ↔ _
  rw [require_eq_ok, decide_eq_true_eq]

theorem verifyPackedPrebuilds_ok {targets : List Name} :
    verifyPackedPrebuilds host root config targets t = .ok () ↔
      ∃ manifest, readManifest host root t = .ok manifest ∧
        verifyIdentity config manifest = .ok () ∧
        ∀ target ∈ targets, verifyPrebuild host root manifest target t = .ok () := by
  constructor
  · intro h
    obtain ⟨manifest, hread, h⟩ := bind_eq_ok.mp h
    obtain ⟨_, hidentity, h⟩ := bind_eq_ok.mp h
    exact ⟨manifest, hread, hidentity, forM_eq_ok.mp h⟩
  · rintro ⟨manifest, hread, hidentity, h⟩
    exact bind_eq_ok.mpr ⟨_, hread, bind_eq_ok.mpr ⟨_, hidentity, forM_eq_ok.mpr h⟩⟩

theorem sameFile_ok {payload : Payload} {file : Name} {kind : String}
    (h : sameFile host root payloadRoot payload file kind t = .ok ()) :
    ∃ bytes, t.look (root ++ [file]) = .file bytes ∧
      t.look (payloadRoot ++ [file]) = .file bytes := by
  obtain ⟨_, hours, h⟩ := bind_eq_ok.mp h
  obtain ⟨_, htheirs, h⟩ := bind_eq_ok.mp h
  obtain ⟨bytes, hours⟩ := regularFile_ok.mp hours
  obtain ⟨bytes', htheirs⟩ := regularFile_ok.mp htheirs
  have hread {p : Path} {bytes : Bytes} (hlook : t.look p = .file bytes) :
      readFileSync host t p = .ok bytes := by
    obtain ⟨attr, hnode⟩ := Tree.look_eq_file.mp hlook
    rw [readFileSync, hnode]
  rw [hread hours, hread htheirs] at h
  change require (bytes = bytes') _ = _ at h
  rw [require_eq_ok, decide_eq_true_eq] at h
  exact ⟨bytes, hours, by rw [h, htheirs]⟩

end Manifests

/-! ### Payloads -/

section Payloads

variable {host : Host} {t : Tree} {root payloadRoot : Path} {config : Option Config}
  {payload : Payload}

theorem isText_inj {v : Option (Value Double)} {text text' : Units} (h : isText v text = true)
    (h' : isText v text' = true) : text = text' := by
  cases v with
  | none => cases h
  | some v => cases v <;> simp_all [isText]

theorem ownerVersion_name {owner : Value Double} {version : Units}
    (h : ownerVersion owner = some version) :
    isText (fieldOf (some owner) (units "name")) (units ownerName) = true := by
  unfold ownerVersion at h
  split at h
  · split at h
    · rename_i hall
      exact hall.1
    · cases h
  · cases h

theorem ownerMetadata_ok {owner : Value Double × Units}
    (h : ownerMetadata host root t = .ok owner) :
    readPackage host root t = .ok owner.1 ∧ ownerVersion owner.1 = some owner.2 := by
  obtain ⟨package, hread, h⟩ := bind_eq_ok.mp h
  cases hversion : ownerVersion package with
  | none =>
    rw [hversion] at h
    cases h
  | some version =>
    rw [hversion] at h
    cases h
    exact ⟨hread, hversion⟩

theorem name_ne (hpayload : payload ∈ payloads) : units payload.name ≠ units ownerName := by
  have hall : ∀ payload ∈ payloads, units payload.name ≠ units ownerName := by decide
  exact hall payload hpayload

/-- A payload is not installed in the package that owns it. -/
theorem root_ne_of_metadata (hpayload : payload ∈ payloads)
    (h : payloadMetadata host root payloadRoot payload t = .ok ()) : payloadRoot ≠ root := by
  rintro rfl
  obtain ⟨owner, howner, h⟩ := bind_eq_ok.mp h
  obtain ⟨package, hread, h⟩ := bind_eq_ok.mp h
  obtain ⟨_, hidentity, -⟩ := bind_eq_ok.mp h
  obtain ⟨hread', hversion⟩ := ownerMetadata_ok howner
  rw [hread'] at hread
  cases hread
  rw [require_eq_ok, hasIdentity] at hidentity
  simp only [Bool.and_eq_true] at hidentity
  exact name_ne hpayload (isText_inj hidentity.1.1.1.1 (ownerVersion_name hversion))

/-- What has been checked of a payload. -/
structure Valid (host : Host) (root payloadRoot : Path) (config : Option Config) (payload : Payload)
    (t : Tree) : Prop where
  manifest : ∃ bytes, t.look (root ++ [manifestName]) = .file bytes ∧
    t.look (payloadRoot ++ [manifestName]) = .file bytes
  prebuild : ∀ target ∈ payload.targets, prebuildPath payloadRoot target false t = .ok ()
  packed : verifyPackedPrebuilds host payloadRoot config payload.targets t = .ok ()

theorem valid_of_validatePayload
    (h : validatePayload host root payloadRoot config payload t = .ok ()) :
    payloadMetadata host root payloadRoot payload t = .ok () ∧
      Valid host root payloadRoot config payload t := by
  obtain ⟨_, hmetadata, h⟩ := bind_eq_ok.mp h
  obtain ⟨_, hmanifest, h⟩ := bind_eq_ok.mp h
  obtain ⟨_, -, h⟩ := bind_eq_ok.mp h
  obtain ⟨_, hprebuild, hpacked⟩ := bind_eq_ok.mp h
  exact ⟨hmetadata, sameFile_ok hmanifest, forM_eq_ok.mp hprebuild, hpacked⟩

theorem Valid.copies (h : Valid host root payloadRoot config payload t)
    {manifest : Option (Value Double)} (hread : readManifest host root t = .ok manifest)
    {target : Name} (htarget : target ∈ payload.targets) :
    ∃ bytes, t.look (prebuildFile payloadRoot target) = .file bytes ∧
      Recorded host manifest target bytes := by
  obtain ⟨bytes, hours, htheirs⟩ := h.manifest
  obtain ⟨manifest', hread', -, hall⟩ := verifyPackedPrebuilds_ok.mp h.packed
  rw [readManifest_of_file hours] at hread
  rw [readManifest_of_file htheirs, hread] at hread'
  cases hread'
  obtain ⟨-, -, hfile⟩ := prebuildPath_ok.mp (h.prebuild target htarget)
  obtain ⟨bytes, hlook⟩ := hfile.resolve_left fun h => by cases h.1
  exact ⟨bytes, hlook, (verifyPrebuild_of_file hlook).mp (hall target htarget)⟩

end Payloads

/-! ### Admission -/

section Admission

variable {host : Host} {t u : Tree} {root : Path} {sources : List Source}

/-- What is known once everything has been admitted. -/
structure Admitted (host : Host) (root : Path) (config : Config) (sources : List Source)
    (manifest : Option (Value Double)) (t : Tree) : Prop where
  file : ∃ bytes, t.look (root ++ [manifestName]) = .file bytes ∧
    manifestOf host (some bytes) = .ok manifest
  identity : verifyIdentity (some config) manifest = .ok ()
  payloads_eq : sources.map Source.payload = payloads
  roots : ∀ source ∈ sources, source.root ≠ root
  copies : ∀ source ∈ sources, ∀ target ∈ source.payload.targets, ∃ bytes,
    t.look (prebuildFile source.root target) = .file bytes ∧ Recorded host manifest target bytes
  prebuilds : t.isDirectory (root ++ ["prebuilds"]) = true
  wrapper : ∀ target ∈ wrapperTargets, verifyPrebuild host root manifest target t = .ok ()
  places : ∀ target ∈ payloadTargets, prebuildPath root target true t = .ok ()

theorem map_of_mapM {ε α β : Type} {f : α → Except ε β} {g : β → α} {xs : List α} {ys : List β}
    (h : xs.mapM f = .ok ys) (hf : ∀ x y, f x = .ok y → g y = x) : ys.map g = xs := by
  induction xs generalizing ys with
  | nil =>
    cases h
    rfl
  | cons x xs ih =>
    rw [List.mapM_cons] at h
    obtain ⟨y, hy, h⟩ := bind_eq_ok.mp h
    obtain ⟨rest, hrest, h⟩ := bind_eq_ok.mp h
    cases h
    rw [List.map_cons, hf x y hy, ih hrest]

theorem resolvePayload_ok {payload : Payload} {source : Source}
    (h : resolvePayload host root payload = .ok source) : source.payload = payload := by
  unfold resolvePayload at h
  split at h
  · cases h
    rfl
  · cases h

theorem admitted_of_accept {config : Config} (h : accept host root t = .ok (config, sources)) :
    ∃ manifest, Admitted host root config sources manifest t := by
  obtain ⟨found, -, h⟩ := bind_eq_ok.mp h
  obtain ⟨_, -, h⟩ := bind_eq_ok.mp h
  obtain ⟨resolved, hresolved, h⟩ := bind_eq_ok.mp h
  obtain ⟨_, hvalid, h⟩ := bind_eq_ok.mp h
  obtain ⟨_, hpaths, h⟩ := bind_eq_ok.mp h
  obtain ⟨_, hwrapper, h⟩ := bind_eq_ok.mp h
  obtain ⟨_, hplaces, h⟩ := bind_eq_ok.mp h
  obtain rfl : found = some config := by
    cases found with
    | none => cases h
    | some found =>
      cases h
      rfl
  cases h
  have heq := map_of_mapM hresolved fun _ _ => resolvePayload_ok
  have hmem {source : Source} (hsource : source ∈ sources) : source.payload ∈ payloads := by
    rw [← heq]
    exact List.mem_map_of_mem hsource
  have hall (source : Source) (hsource : source ∈ sources) :=
    valid_of_validatePayload (forM_eq_ok.mp hvalid source hsource)
  have hone : ∃ source, source ∈ sources := by
    apply List.exists_mem_of_ne_nil
    rintro rfl
    cases heq
  obtain ⟨first, hfirst⟩ := hone
  obtain ⟨bytes, hours, -⟩ := (hall first hfirst).2.manifest
  obtain ⟨manifest, hread, hidentity, hprebuild⟩ := verifyPackedPrebuilds_ok.mp hwrapper
  have hmanifest := hread
  rw [readManifest_of_file hours] at hmanifest
  refine ⟨manifest, ⟨bytes, hours, hmanifest⟩, hidentity, heq, ?_, ?_, ?_, hprebuild,
    forM_eq_ok.mp hplaces⟩
  · exact fun source hsource => root_ne_of_metadata (hmem hsource) (hall source hsource).1
  · exact fun source hsource target htarget => (hall source hsource).2.copies hread htarget
  · have hpath := forM_eq_ok.mp hpaths "darwin-arm64" (by decide)
    obtain ⟨hdir, -⟩ := prebuildPath_ok.mp hpath
    obtain ⟨attr, hnode⟩ := (directory_ok.mp hdir).resolve_right fun h => by cases h.1
    exact (Tree.isDirectory_iff (by simp)).mpr ⟨attr, hnode⟩

end Admission

/-! ### What stays admitted -/

section Kept

variable {host : Host} {t u : Tree} {root payloadRoot p : Path} {target : Name}

/-- Where the prebuilds of the payloads are installed. -/
def destinations (root : Path) : Set Path :=
  {q | ∃ target ∈ payloadTargets, q = prebuildFile root target}

theorem prebuildFile_inj {root root' : Path} {target target' : Name}
    (h : prebuildFile root target = prebuildFile root' target') : root = root' ∧
      target = target' := by
  obtain ⟨hroot, hrest⟩ := List.append_inj' h rfl
  exact ⟨hroot, by simpa using hrest⟩

theorem below_of_destination {q : Path} (h : q ∈ destinations root) :
    root ++ ["prebuilds"] <+: q := by
  obtain ⟨target, -, rfl⟩ := h
  rw [prebuildFile, List.prefix_append_right_inj]
  exact List.prefix_append ["prebuilds"] [target, addonFile]

/-- A destination ends in the name of an addon. -/
theorem notMem_of_last {file : Name} (hfile : file ≠ addonFile) :
    p ++ [file] ∉ destinations root := by
  rintro ⟨target, -, h⟩
  have hlast := congrArg List.getLast? h
  rw [List.getLast?_concat, prebuildFile, List.getLast?_append] at hlast
  exact hfile (Option.some.inj hlast)

theorem prebuildFile_notMem (h : payloadRoot ≠ root ∨ target ∉ payloadTargets) :
    prebuildFile payloadRoot target ∉ destinations root := by
  rintro ⟨target', htarget', heq⟩
  obtain ⟨hroot, rfl⟩ := prebuildFile_inj heq
  rcases h with h | h
  · exact h hroot
  · exact h htarget'

theorem regularFile_stays (h : t.KeptOff (destinations root) u) (hp : p ∉ destinations root) :
    Stays t u (regularFile p) := by
  rintro ⟨⟩ hfile
  obtain ⟨bytes, hlook⟩ := regularFile_ok.mp hfile
  obtain ⟨attr, hnode⟩ := Tree.look_eq_file.mp hlook
  exact regularFile_ok.mpr
    ⟨bytes, Tree.look_eq_file.mpr ⟨attr, by rw [h p hp (by simp [hnode]), hnode]⟩⟩

theorem directory_stays (h : t.KeptOff (destinations root) u) (hp : p ∉ destinations root) :
    Stays t u (directory p false) := by
  rintro ⟨⟩ hdir
  obtain ⟨attr, hnode⟩ := (directory_ok.mp hdir).resolve_right fun h => by cases h.1
  exact directory_ok.mpr (.inl ⟨attr, by rw [h p hp (by simp [hnode]), hnode]⟩)

theorem prebuildPath_stays (h : t.KeptOff (destinations root) u)
    (hnew : payloadRoot ≠ root ∨ target ∉ payloadTargets) (htarget : target ≠ addonFile) :
    Stays t u (prebuildPath payloadRoot target false) := by
  rintro ⟨⟩ hpath
  obtain ⟨hprebuilds, hdir, hfile⟩ := prebuildPath_ok.mp hpath
  refine prebuildPath_ok.mpr ⟨?_, ?_, ?_⟩
  · exact directory_stays h (notMem_of_last (by decide)) _ hprebuilds
  · refine directory_stays h ?_ _ hdir
    have hlast : prebuildDirectory payloadRoot target =
        payloadRoot ++ ["prebuilds"] ++ [target] := by
      simp [prebuildDirectory]
    rw [hlast]
    exact notMem_of_last htarget
  · have hregular := regularFile_ok.mpr (hfile.resolve_left fun h => by cases h.1)
    exact .inr (regularFile_ok.mp (regularFile_stays h (prebuildFile_notMem hnew) _ hregular))

theorem readManifest_stays (h : t.KeptOff (destinations root) u) {bytes : Bytes}
    (hlook : t.look (payloadRoot ++ [manifestName]) = .file bytes) :
    readManifest host payloadRoot u = readManifest host payloadRoot t := by
  obtain ⟨attr, hnode⟩ := Tree.look_eq_file.mp hlook
  have hlook' : u.look (payloadRoot ++ [manifestName]) = .file bytes := by
    refine Tree.look_eq_file.mpr ⟨attr, ?_⟩
    rw [h _ (notMem_of_last (by decide)) (by simp [hnode]), hnode]
  rw [readManifest_of_file hlook, readManifest_of_file hlook']

theorem verifyPrebuild_stays (h : t.KeptOff (destinations root) u)
    (hnew : payloadRoot ≠ root ∨ target ∉ payloadTargets) (manifest : Option (Value Double)) :
    Stays t u (verifyPrebuild host payloadRoot manifest target) := by
  intro _ hverify
  have hp := prebuildFile_notMem hnew
  obtain ⟨_, hexists, hread⟩ := bind_eq_ok.mp hverify
  rw [require_eq_ok] at hexists
  have hrest : Stays t u (fun t => do
      let bytes ← readFileSync host t (prebuildFile payloadRoot target)
      require (Recorded host manifest target bytes)
        (fail ("packed prebuild hash does not match for " ++ target))) :=
    stays_bind (readFileSync_stays h hp) fun _ _ => stays_const _
  exact bind_eq_ok.mpr ⟨(), require_eq_ok.mpr (existsSync_stays h hp hexists), hrest _ hread⟩

end Kept

/-! ### A distribution that is admitted -/

section Sample

theorem lookup_of_mem {α β : Type} [BEq α] [LawfulBEq α] {entries : List (α × β)} {a : α} {b : β}
    (hnodup : (entries.map Prod.fst).Nodup) (h : (a, b) ∈ entries) : entries.lookup a = some b := by
  induction entries with
  | nil => cases h
  | cons entry entries ih =>
    obtain ⟨a', b'⟩ := entry
    rw [List.map_cons, List.nodup_cons] at hnodup
    rcases List.mem_cons.mp h with heq | hmem
    · cases heq
      rw [List.lookup_cons_self]
    · have hne : (a == a') = false := by
        rw [beq_eq_false_iff_ne]
        rintro rfl
        exact hnodup.1 (List.mem_map.mpr ⟨_, hmem, rfl⟩)
      rw [List.lookup_cons, hne]
      exact ih hnodup.2 hmem

def samplePatch : List Char := "diff --git a/src/lib.rs b/src/lib.rs\n".toList

def addonBytes : Bytes := [1, 2]

/-- What is hashed for files that hold one byte each. -/
def sampleStream (files : List String) : Bytes :=
  Provenance.wrapperStream files fun file =>
    ((files.map fun file => (file, [1])).lookup file).getD []

/-- The SHA-256 digests of the bytes that are hashed, the last one that of an empty file. -/
def sampleSha256 (bytes : Bytes) : String :=
  if bytes = addonBytes then "a12871fee210fb8619291eaea194581cbd2531e4b23759d225f6806923f63222"
  else if bytes = Text.encodeUtf8 samplePatch then
    "5a3bf8026112a51129fa16a048090f16edf6b6b46b2283424ef724207ce04c83"
  else if bytes = sampleStream wrapperFiles then
    "51313894855a641a02e691cbc6bc21075bb3bfc465ff65f311e39228a607fdef"
  else if bytes = sampleStream (recipeFiles.map ("/".intercalate ·)) then
    "8185d7ee434681402e9568d92791554f27fc39b8b2ded259040c7ba93aa70981"
  else "e3b0c44298fc1c149afbf4c8996fb92427ae41e4649b934ca495991b7852b855"

def sampleHost : Host where
  sha256 := sampleSha256
  decode := utf8Text.decode
  behind _ := none
  modules root name := some (root ++ ["node_modules", name])
  debug := false

def sampleTargets : List Name := wrapperTargets ++ payloadTargets

def overlayEntries : Entries :=
  release.map (fun entry => (entry.1, some (str entry.2))) ++ [
    ("repository", some (str "https://github.com/UTEXO-Protocol/rgb-lightning-node.git")),
    ("patch", some (str "patches/a.patch")),
    ("patchSha256", some (str (sampleSha256 (Text.encodeUtf8 samplePatch)))),
    ("iosDeploymentTarget", some (str "13.0")),
    ("androidNdkVersion", some (str "27.0.1")),
    ("androidApiLevel", some (.number (.natural 21))),
    ("cargoNdkVersion", some (str "3.5.4")),
    ("bindgenCliVersion", some (str "0.71.1")),
    ("targets", some (.array (sampleTargets.map str)))]

def sampleField : Fields := fun key => getMember (definedMembers overlayEntries) (units key)

def ownerPackage : Value Double := object [
  ("name", some (str ownerName)), ("version", some (str "0.17.0")),
  ("dependencies", some (object (payloads.map fun payload => (payload.name, some (str "0.17.0"))))),
  ("utexoNativeOverlay", some (object overlayEntries))]

def payloadPackage (payload : Payload) : Value Double := object [
  ("name", some (str payload.name)), ("version", some (str "0.17.0")),
  ("utexoNativePayload", some (payloadIdentity payload)), ("exports", some payloadExports),
  ("utexoNativeOverlay", some (object overlayEntries))]

def sampleDigest (files : List String) : String := sampleSha256 (sampleStream files)

def sampleConfig : Config :=
  complete sampleHost sampleField sampleTargets (sampleDigest wrapperFiles)
  (sampleDigest (recipeFiles.map ("/".intercalate ·)))

def artifactEntries : Entries := sampleTargets.map fun target =>
  (target, some (object [("prebuildSha256", some (str (sampleSha256 addonBytes)))]))

def manifestEntries : Entries :=
  overlayIdentity sampleConfig.overlay ++ [("artifacts", some (object artifactEntries))]

def jsonBytes (v : Value Double) : Bytes := utf8Text.encode (jsonLines v ++ [0x0A])

def directoryNode : Node := .dir (ownedAttr 0o755)

def fileNode (bytes : Bytes) : Node := .file bytes (ownedAttr 0o644)

structure Sample where
  root : Path
  package : Value Double
  targets : List Name

/-- Its own description, the manifest and the contract that all have, and its prebuilds. -/
def Sample.entries (sample : Sample) : List (Path × Node) :=
  [(sample.root ++ ["package.json"], fileNode (jsonBytes sample.package)),
    (sample.root ++ [manifestName], fileNode (jsonBytes (object manifestEntries))),
    (sample.root ++ [runtimeContractName],
      fileNode (jsonBytes (runtimeIdentity sampleField (sampleDigest wrapperFiles)))),
    (sample.root ++ ["prebuilds"], directoryNode)] ++
  sample.targets.flatMap fun target =>
    [(prebuildDirectory sample.root target, directoryNode),
      (prebuildFile sample.root target, fileNode addonBytes)]

def sampleRoot : Path := ["package"]

def payloadRoot (payload : Payload) : Path := sampleRoot ++ ["node_modules", payload.name]

def ownerSample : Sample := ⟨sampleRoot, ownerPackage, wrapperTargets⟩

def payloadSample (payload : Payload) : Sample :=
  ⟨payloadRoot payload, payloadPackage payload, payload.targets⟩

def samples : List Sample := ownerSample :: payloads.map payloadSample

def sampleFiles : List (Path × Node) :=
  samples.flatMap Sample.entries ++
    (sampleRoot ++ ["patches", "a.patch"], fileNode (Text.encodeUtf8 samplePatch)) ::
    (wrapperFiles.map (fun file => [file]) ++ recipeFiles).map fun file =>
      (sampleRoot ++ file, fileNode [1])

def sampleTree : Tree where
  node p := sampleFiles.lookup p
  names := sampleFiles.map Prod.fst
  complete p h := by
    obtain ⟨n, hn⟩ := Option.isSome_iff_exists.mp h
    obtain ⟨front, back, hsplit, -⟩ := List.lookup_eq_some_iff.mp hn
    rw [hsplit]
    simp

/-! What its texts are read as -/

theorem keyed_overlay : Keyed overlayEntries := by
  refine keyed_of_names ["rlnVersion", "ref", "commit", "lightningCommit", "rustToolchain",
    "cffiLockSha256", "repository", "patch", "patchSha256", "iosDeploymentTarget",
    "androidNdkVersion", "androidApiLevel", "cargoNdkVersion", "bindgenCliVersion", "targets"]
    rfl (by decide) ?_
  simp only [List.forall_mem_cons]
  repeat' apply And.intro
  all_goals first | exact ⟨_, _, rfl, by decide, by decide⟩ | simp

theorem keyed_manifest : Keyed manifestEntries := by
  have hnames : manifestEntries.map Prod.fst = Provenance.identityKeys ++ ["artifacts"] := by
    rw [manifestEntries, List.map_append, Provenance.overlayIdentity_keys, List.map_singleton]
  refine keyed_of_names _ hnames (by decide) ?_
  simp only [Provenance.identityKeys, List.cons_append, List.nil_append, List.forall_mem_cons]
  repeat' apply And.intro
  all_goals first | exact ⟨_, _, rfl, by decide, by decide⟩ | simp

theorem keyed_artifacts : Keyed artifactEntries := by
  refine keyed_of_names sampleTargets rfl (by decide) ?_
  simp only [sampleTargets, wrapperTargets, payloadTargets, payloads, List.flatMap_cons,
    List.flatMap_nil, List.cons_append, List.nil_append, List.append_nil, List.forall_mem_cons]
  repeat' apply And.intro
  all_goals first | exact ⟨_, _, rfl, by decide, by decide⟩ | simp

theorem keyed_owner : Keyed [("name", some (str ownerName)), ("version", some (str "0.17.0")),
    ("dependencies",
      some (object (payloads.map fun payload => (payload.name, some (str "0.17.0"))))),
    ("utexoNativeOverlay", some (object overlayEntries))] := by
  refine keyed_of_names ["name", "version", "dependencies", "utexoNativeOverlay"] rfl
    (by decide) ?_
  simp only [List.forall_mem_cons]
  repeat' apply And.intro
  all_goals first | exact ⟨_, _, rfl, by decide, by decide⟩ | simp

theorem keyed_dependencies :
    Keyed (payloads.map fun payload => (payload.name, some (str "0.17.0"))) := by
  have howner : IsKey ownerName := ⟨_, _, rfl, by decide, by decide⟩
  refine keyed_of_names
    [ownerName ++ "-ios", ownerName ++ "-android-arm", ownerName ++ "-android-x64"]
    rfl (by decide) ?_
  simp only [List.forall_mem_cons]
  exact ⟨howner.append (by decide), howner.append (by decide), howner.append (by decide), by simp⟩

theorem keyed_payload (payload : Payload) : Keyed [("name", some (str payload.name)),
    ("version", some (str "0.17.0")), ("utexoNativePayload", some (payloadIdentity payload)),
    ("exports", some payloadExports), ("utexoNativeOverlay", some (object overlayEntries))] := by
  refine keyed_of_names
    ["name", "version", "utexoNativePayload", "exports", "utexoNativeOverlay"] rfl
    (by decide) ?_
  simp only [List.forall_mem_cons]
  repeat' apply And.intro
  all_goals first | exact ⟨_, _, rfl, by decide, by decide⟩ | simp

theorem ordinary_overlay : (object overlayEntries).Ordinary := by
  refine keyed_overlay.ordinary ?_
  simp only [overlayEntries, List.forall_mem_append, List.forall_mem_cons, List.forall_mem_map,
    Option.mem_def]
  refine ⟨fun _ _ => ordinary_str _, ordinary_str _, ordinary_str _, ordinary_str _, ordinary_str _,
    ordinary_str _, ?_, ordinary_str _, ordinary_str _, ?_, by simp⟩
  · rintro _ ⟨⟩
    exact ordinary_natural (by decide)
  · rintro _ ⟨⟩
    exact ordinary_strs

theorem ordinary_field (key : String) : ∀ v, sampleField key = some v → v.Ordinary := by
  intro v hv
  have hordinary := ordinary_overlay
  rw [object, Value.Ordinary, ordinaryMembers_iff] at hordinary
  rw [sampleField, getMember, Option.map_eq_some_iff] at hv
  obtain ⟨m, hm, rfl⟩ := hv
  exact hordinary.2 m (List.mem_of_find?_eq_some hm)

theorem ordinary_owner : ownerPackage.Ordinary := by
  have hdependencies :
      (object (payloads.map fun payload => (payload.name, some (str "0.17.0")))).Ordinary := by
    refine keyed_dependencies.ordinary ?_
    simp only [List.forall_mem_map, Option.mem_def]
    exact fun _ _ => ordinary_str _
  refine keyed_owner.ordinary ?_
  simp only [List.forall_mem_cons, Option.mem_def]
  exact ⟨ordinary_str _, ordinary_str _, ordinary_some hdependencies,
    ordinary_some ordinary_overlay, by simp⟩

theorem ordinary_payloadIdentity (payload : Payload) : (payloadIdentity payload).Ordinary := by
  have hkeyed :
    Keyed [("schemaVersion", some (.number (.natural 1))), ("owner", some (str ownerName)),
      ("targets", some (.array (payload.targets.map str)))] := by
    refine keyed_of_names ["schemaVersion", "owner", "targets"] rfl (by decide) ?_
    simp only [List.forall_mem_cons]
    repeat' apply And.intro
    all_goals first | exact ⟨_, _, rfl, by decide, by decide⟩ | simp
  refine hkeyed.ordinary ?_
  simp only [List.forall_mem_cons, Option.mem_def]
  exact ⟨ordinary_some (ordinary_natural (by decide)), ordinary_str _, ordinary_some ordinary_strs,
    by simp⟩

theorem ordinary_exports : payloadExports.Ordinary := by
  have hkeyed : Keyed [("./package.json", some (str "./package.json"))] := by
    refine keyed_of_names ["./package.json"] rfl (by decide) ?_
    simp only [List.forall_mem_cons]
    exact ⟨⟨_, _, rfl, by decide, by decide⟩, by simp⟩
  refine hkeyed.ordinary ?_
  simp only [List.forall_mem_cons, Option.mem_def]
  exact ⟨ordinary_str _, by simp⟩

theorem ordinary_payload (payload : Payload) : (payloadPackage payload).Ordinary := by
  refine (keyed_payload payload).ordinary ?_
  simp only [List.forall_mem_cons, Option.mem_def]
  exact ⟨ordinary_str _, ordinary_str _, ordinary_some (ordinary_payloadIdentity payload),
    ordinary_some ordinary_exports, ordinary_some ordinary_overlay, by simp⟩

theorem ordinary_contract (wrapper : String) : (runtimeIdentity sampleField wrapper).Ordinary := by
  refine Keyed.ordinary ?_ ?_
  · refine keyed_of_names ["abi_version", "rln_version", "rln_commit", "lightning_commit",
      "adapter_sha256", "wrapper_sha256", "lock_sha256"] rfl (by decide) ?_
    simp only [List.forall_mem_cons]
    repeat' apply And.intro
    all_goals first | exact ⟨_, _, rfl, by decide, by decide⟩ | simp
  · simp only [List.forall_mem_cons, Option.mem_def]
    exact ⟨ordinary_some (ordinary_natural (by decide)), ordinary_field _, ordinary_field _,
      ordinary_field _, ordinary_field _, ordinary_str _, ordinary_field _, by simp⟩

theorem ordinary_manifest : (object manifestEntries).Ordinary := by
  have hartifacts : (object artifactEntries).Ordinary := by
    refine keyed_artifacts.ordinary ?_
    simp only [artifactEntries, List.forall_mem_map, Option.mem_def]
    intro _ _
    refine ordinary_some (Keyed.ordinary ?_ ?_)
    · refine keyed_of_names ["prebuildSha256"] rfl (by decide) ?_
      simp only [List.forall_mem_cons]
      exact ⟨⟨_, _, rfl, by decide, by decide⟩, by simp⟩
    · simp only [List.forall_mem_cons, Option.mem_def]
      exact ⟨ordinary_str _, by simp⟩
  refine keyed_manifest.ordinary ?_
  simp only [manifestEntries, overlayIdentity, sampleConfig, complete, List.forall_mem_append,
    List.forall_mem_cons, Option.mem_def]
  refine ⟨⟨ordinary_some (ordinary_natural (n := 2) (by decide)), ordinary_field _,
    ordinary_field _, ordinary_field _, ordinary_field _, ordinary_field _, ordinary_field _,
    ordinary_str _, ordinary_str _, ordinary_field _, ordinary_str _, ordinary_field _,
    ordinary_field _, ordinary_field _, ordinary_field _, ordinary_field _, ordinary_field _,
    ordinary_some ordinary_strs, by simp⟩, ordinary_some hartifacts, by simp⟩

/-! What is there -/

theorem node_sample {p : Path} {n : Node} (h : (p, n) ∈ sampleFiles) :
    sampleTree.node p = some n := by
  have hnodup : (sampleFiles.map Prod.fst).Nodup := by decide +kernel
  exact lookup_of_mem hnodup h

theorem node_package {sample : Sample} (hsample : sample ∈ samples) {p : Path} {n : Node}
    (h : (p, n) ∈ sample.entries) : sampleTree.node p = some n :=
  node_sample (List.mem_append_left _ (List.mem_flatMap.mpr ⟨sample, hsample, h⟩))

theorem mem_ownerSample : ownerSample ∈ samples := List.mem_cons_self

theorem mem_payloadSample {payload : Payload} (h : payload ∈ payloads) :
    payloadSample payload ∈ samples :=
  List.mem_cons_of_mem _ (List.mem_map_of_mem h)

theorem read_sample {p : Path} {bytes : Bytes} (h : sampleTree.node p = some (fileNode bytes)) :
    readFileSync sampleHost sampleTree p = .ok bytes := by
  rw [readFileSync, h]
  rfl

theorem regular_sample {p : Path} {bytes : Bytes} (h : sampleTree.node p = some (fileNode bytes)) :
    regularFile p sampleTree = .ok () :=
  regularFile_ok.mpr ⟨bytes, Tree.look_eq_file.mpr ⟨_, h⟩⟩

theorem parse_sample {v : Value Double} (hv : v.Ordinary) :
    parse (sampleHost.decode (jsonBytes v)) = some v := by
  have hdecode : sampleHost.decode (jsonBytes v) = jsonLines v ++ [0x0A] := utf8Text.decode_encode v
  rw [hdecode, parse_jsonLines hv]

theorem json_sample {p : Path} {v : Value Double} (hv : v.Ordinary)
    (h : sampleTree.node p = some (fileNode (jsonBytes v))) :
    readJson sampleHost sampleTree p = .ok v := by
  refine ok_bind (read_sample h) ?_
  rw [parse_sample hv]
  rfl

/-- What is printed does not end like the addon. -/
theorem jsonBytes_ne_addon (v : Value Double) : jsonBytes v ≠ addonBytes := by
  intro heq
  have hdecode : utf8Text.decode (jsonBytes v) = jsonLines v ++ [0x0A] := utf8Text.decode_encode v
  have haddon : utf8Text.decode addonBytes = [1, 2] := by decide
  rw [heq, haddon] at hdecode
  have hlast := congrArg List.getLast? hdecode
  rw [List.getLast?_concat] at hlast
  exact absurd hlast (by decide)

theorem hashWrapper_sample (files : List Path)
    (h : files ⊆ wrapperFiles.map (fun file => [file]) ++ recipeFiles) :
    hashWrapper sampleHost sampleTree sampleRoot files =
      .ok (sampleDigest (files.map ("/".intercalate ·))) := by
  refine ok_bind
    (mapM_eq_pure (g := fun file => ("/".intercalate file, [1])) fun file hfile => ?_) ?_
  · have hmem : (sampleRoot ++ file, fileNode [1]) ∈ sampleFiles :=
      List.mem_append_right _ (List.mem_cons_of_mem _ (List.mem_map_of_mem (h hfile)))
    exact ok_bind (read_sample (node_sample hmem)) rfl
  · simp only [sampleDigest, sampleStream, List.map_map]
    rfl

/-! What is checked -/

theorem tests_ofList {test : List Char → Bool} {cs : List Char} (hcs : Short cs)
    (h : test cs = true) : tests test (some (str (String.ofList cs))) = true := by
  rw [tests, Option.map_some, str, stringOf, Option.bind_some, decode_ofList hcs]
  exact h

theorem sampleSha256_text (bytes : Bytes) :
    ∃ cs, sampleSha256 bytes = String.ofList cs ∧ Short cs ∧ isLowerHex 64 cs = true := by
  unfold sampleSha256
  split_ifs <;> exact ⟨_, rfl, by decide, by decide⟩

theorem isText_str (s : String) : isText (some (str s)) (units s) = true := by
  simp [isText, str]

theorem field_sample (key : String) {v : Value Double} (h : (key, some v) ∈ overlayEntries) :
    sampleField key = some v :=
  keyed_overlay.get h

theorem field_patch : sampleField "patch" = some (str "patches/a.patch") :=
  field_sample _ (by simp [overlayEntries])

theorem field_patchSha256 :
    sampleField "patchSha256" = some (str (sampleSha256 (Text.encodeUtf8 samplePatch))) :=
  field_sample _ (List.mem_append_right _ (.tail _ (.tail _ (.head _))))

theorem checkTexts_sample : checkTexts sampleField = .ok () := by
  have hlevel : isApiLevel (sampleField "androidApiLevel") = true := by
    have hnatural := Double.isNatural_natural (show 21 ≤ Double.maxSafeInteger by decide)
    have hinteger : (Double.natural 21).isInteger = true := by
      rw [Double.natural, nearest_eq false ⟨((21 : ℕ) : ℚ), representable_natCast (by decide)⟩]
      simp [Double.isInteger, Rat.isInt]
    rw [field_sample _ (v := .number (.natural 21)) (by simp [overlayEntries]), isApiLevel,
      hinteger, (Double.le_natural_iff hnatural).mpr le_rfl]
    rfl
  have hrepository : tests (· = "https://github.com/UTEXO-Protocol/rgb-lightning-node.git".toList)
      (sampleField "repository") = true := by
    rw [field_sample _ (List.mem_append_right _ (.head _)), String.toList_ofList]
    exact tests_ofList (by decide) (by decide)
  have hpin : samePin sampleField = true := by
    rw [samePin, field_sample "ref" (v := str Provenance.releaseCommit)
      (by simp [overlayEntries, release]), field_sample "commit"
      (v := str Provenance.releaseCommit) (by simp [overlayEntries, release])]
    simp [str, Value.strictEqual]
  have hcommit : tests (isLowerHex 40) (sampleField "commit") = true := by
    rw [field_sample _ (v := str Provenance.releaseCommit) (by simp [overlayEntries, release])]
    exact tests_ofList (by decide) (by decide)
  have hpatch : tests isPatchPath (sampleField "patch") = true := by
    rw [field_patch]
    exact tests_ofList (by decide) (by decide)
  have hdigest : tests (isLowerHex 64) (sampleField "patchSha256") = true := by
    obtain ⟨cs, hcs, hshort, hhex⟩ := sampleSha256_text (Text.encodeUtf8 samplePatch)
    rw [field_patchSha256, hcs]
    exact tests_ofList hshort hhex
  have hrust : tests (isDotted 3) (sampleField "rustToolchain") = true := by
    rw [field_sample _ (v := str "1.94.0") (by simp [overlayEntries, release])]
    exact tests_ofList (by decide) (by decide)
  have hios : tests (isDotted 2) (sampleField "iosDeploymentTarget") = true := by
    rw [field_sample _ (v := str "13.0") (by simp [overlayEntries])]
    exact tests_ofList (by decide) (by decide)
  have hndk : tests (isDotted 3) (sampleField "androidNdkVersion") = true := by
    rw [field_sample _ (v := str "27.0.1") (by simp [overlayEntries])]
    exact tests_ofList (by decide) (by decide)
  have hcargo : tests (isDotted 3) (sampleField "cargoNdkVersion") = true := by
    rw [field_sample _ (v := str "3.5.4") (by simp [overlayEntries])]
    exact tests_ofList (by decide) (by decide)
  have hbindgen : tests (isDotted 3) (sampleField "bindgenCliVersion") = true := by
    rw [field_sample _ (v := str "0.71.1") (by simp [overlayEntries])]
    exact tests_ofList (by decide) (by decide)
  refine ok_bind (require_of hrepository)
    (ok_bind (require_of ?_) (ok_bind (require_of hcommit) ?_))
  · rw [hpin, Bool.or_true]
  refine ok_bind (require_of hpatch) (ok_bind (require_of hdigest) (ok_bind (require_of hrust) ?_))
  refine ok_bind (require_of hios) (ok_bind (require_of hndk) (ok_bind (require_of hlevel) ?_))
  exact ok_bind (require_of hcargo) (require_of hbindgen)

theorem asText_ofList {cs : List Char} (h : Short cs) :
    (asText (str (String.ofList cs))).map String.ofList = some (String.ofList cs) := by
  rw [str, asText, decode_ofList h]
  rfl

theorem asText_key {s : String} (h : IsKey s) : (asText (str s)).map String.ofList = some s := by
  obtain ⟨c, cs, rfl, hshort, -⟩ := h
  exact asText_ofList hshort

theorem configTargets_sample : configTargets (sampleField "targets") = .ok sampleTargets := by
  have hnames : (sampleTargets.map str).mapM (fun item => (asText item).map String.ofList) =
      some sampleTargets := by
    rw [List.mapM_map]
    refine (mapM_eq_pure (g := fun target => target) fun target htarget => ?_).trans ?_
    · exact asText_key (keyed_artifacts.keys target htarget)
    · rw [List.map_id']
      rfl
  have hlisted : sampleTargets.Nodup ∧ sampleTargets ⊆ supportedTargets := by decide
  rw [field_sample _ (v := .array (sampleTargets.map str)) (by simp [overlayEntries])]
  generalize sampleTargets.map str = items at hnames
  cases items with
  | nil => cases hnames
  | cons item items =>
    rw [configTargets, hnames]
    exact if_pos hlisted

theorem verifyAdapter_of_read {host : Host} {t : Tree} {field : Fields} {patch : Path}
    {bytes : Bytes} (hread : readFileSync host t patch = .ok bytes)
    (hvalid : Provenance.validateAdapter ⟨release.filterMap fun entry =>
        (((field entry.1).bind asText).map String.ofList).map (entry.1, ·),
      (((field "patchSha256").bind asText).map String.ofList).getD "",
      (decodeUtf16 (host.decode bytes)).getD [], host.sha256 bytes⟩ = .ok ()) :
    verifyAdapter host field patch t = .ok () := by
  refine ok_bind hread ?_
  dsimp only
  rw [hvalid]
  rfl

theorem verifyAdapter_sample {patch : Path}
    (h : sampleTree.node patch = some (fileNode (Text.encodeUtf8 samplePatch))) :
    verifyAdapter sampleHost sampleField patch sampleTree = .ok () := by
  have hdecode : sampleHost.decode (Text.encodeUtf8 samplePatch) = encodeUtf16 samplePatch := by
    simp only [sampleHost, utf8Text, Text.decodeUtf8_encodeUtf8]
  have hhash : sampleHost.sha256 (Text.encodeUtf8 samplePatch) =
      sampleSha256 (Text.encodeUtf8 samplePatch) :=
    rfl
  have hdigest : (((sampleField "patchSha256").bind asText).map String.ofList).getD "" =
      sampleSha256 (Text.encodeUtf8 samplePatch) := by
    obtain ⟨cs, hcs, hshort, -⟩ := sampleSha256_text (Text.encodeUtf8 samplePatch)
    rw [field_patchSha256, Option.bind_some, hcs, asText_ofList hshort, Option.getD_some]
  have hfields : (release.filterMap fun entry =>
      (((sampleField entry.1).bind asText).map String.ofList).map (entry.1, ·)) = release := by
    have htexts : ∀ entry ∈ release, ∃ cs, entry.2 = String.ofList cs ∧ Short cs := by
      simp only [release, List.forall_mem_cons]
      repeat' apply And.intro
      all_goals first | exact ⟨_, rfl, by decide⟩ | simp
    refine (List.filterMap_congr fun entry hentry => ?_).trans List.filterMap_some
    obtain ⟨cs, hcs, hshort⟩ := htexts entry hentry
    rw [field_sample _ (List.mem_append_left _ (List.mem_map_of_mem hentry)), Option.bind_some, hcs,
      asText_ofList hshort, Option.map_some, ← hcs]
  have hidentity : (release.find? fun entry => release.lookup entry.1 ≠ some entry.2) = none := by
    have hnodup : (release.map Prod.fst).Nodup := by decide
    rw [List.find?_eq_none]
    intro entry hentry
    simp [lookup_of_mem hnodup hentry]
  have hmatches : Provenance.matchAll samplePatch =
      [("src/lib.rs".toList, "src/lib.rs".toList)] := by
    have hpatch : samplePatch = _ := String.toList_ofList
    have hfile : "src/lib.rs".toList = _ := String.toList_ofList
    rw [hpatch, hfile]
    decide +kernel
  have hallowed : Provenance.isAllowed ("src/lib.rs".toList, "src/lib.rs".toList) = true := by
    have hmem : "src/lib.rs" ∈ Provenance.allowedFiles := by decide
    rw [Provenance.isAllowed, decide_eq_true rfl, Bool.true_and, List.any_eq_true]
    exact ⟨_, hmem, decide_eq_true rfl⟩
  have hvalid : Provenance.validateAdapter ⟨release, sampleSha256 (Text.encodeUtf8 samplePatch),
      samplePatch, sampleSha256 (Text.encodeUtf8 samplePatch)⟩ = .ok () := by
    rw [Provenance.validateAdapter, hidentity]
    dsimp only
    rw [hmatches, List.all_cons, hallowed]
    simp
  refine verifyAdapter_of_read (read_sample h) ?_
  rw [hdigest, hfields, hdecode, decodeUtf16_encodeUtf16, Option.getD_some, hhash, hvalid]

theorem verifyRuntimeContract_sample :
    verifyRuntimeContract sampleHost sampleRoot sampleField sampleTree =
    .ok (sampleDigest wrapperFiles) := by
  have hnode : sampleTree.node (sampleRoot ++ [runtimeContractName]) =
      some (fileNode (jsonBytes (runtimeIdentity sampleField (sampleDigest wrapperFiles)))) :=
    node_package mem_ownerSample (by simp [Sample.entries, ownerSample])
  have hnames : (wrapperFiles.map fun file => [file]).map ("/".intercalate ·) = wrapperFiles := rfl
  have hdigest := hashWrapper_sample (wrapperFiles.map fun file => [file])
    (List.subset_append_left _ _)
  rw [hnames] at hdigest
  refine ok_bind hdigest (ok_bind (json_sample (ordinary_contract _) hnode) ?_)
  exact ok_bind (require_of (decide_eq_true rfl)) rfl

theorem verifyConfig_sample : verifyConfig sampleHost sampleRoot sampleField sampleTargets
    (sampleRoot ++ ["patches", "a.patch"]) sampleTree = .ok sampleConfig := by
  have hnode : sampleTree.node (sampleRoot ++ ["patches", "a.patch"]) =
      some (fileNode (Text.encodeUtf8 samplePatch)) :=
    node_sample (List.mem_append_right _ List.mem_cons_self)
  have hexists : ((sampleRoot ++ ["patches"]).isPrefixOf (sampleRoot ++ ["patches", "a.patch"]) &&
      existsSync sampleHost sampleTree (sampleRoot ++ ["patches", "a.patch"])) = true := by
    rw [existsSync, hnode]
    decide
  have hdigest : isText (sampleField "patchSha256")
      (units (sampleSha256 (Text.encodeUtf8 samplePatch))) = true := by
    rw [field_patchSha256]
    simp [isText, str]
  refine ok_bind (require_of hexists) (ok_bind (ok_bind (read_sample hnode) rfl) ?_)
  refine ok_bind (require_of hdigest) (ok_bind (verifyAdapter_sample hnode) ?_)
  refine ok_bind verifyRuntimeContract_sample (ok_bind (hashWrapper_sample _ ?_) rfl)
  exact List.subset_append_right _ _

theorem overlayFields_object {members overlay : List (Units × Value Double)}
    (h : getMember members (units "utexoNativeOverlay") = some (.object overlay))
    (hall : ∀ key ∈ configFields, (getMember overlay (units key)).isSome = true) :
    overlayFields (.object members) = .ok (some fun key => getMember overlay (units key)) := by
  have hfound : fieldOf (some (.object members)) (units "utexoNativeOverlay") =
      some (.object overlay) := h
  have hnone : (configFields.find? fun key => (getMember overlay (units key)).isNone) = none := by
    rw [List.find?_eq_none]
    intro key hkey
    rw [← Option.not_isSome, hall key hkey]
    simp
  rw [overlayFields, hfound]
  · dsimp only
    rw [hnone]
  · exact fun h => by cases h

theorem get_overlay {entries : Entries} (h : Keyed entries)
    (hmem : ("utexoNativeOverlay", some (object overlayEntries)) ∈ entries) :
    fieldOf (some (object entries)) (units "utexoNativeOverlay") =
      some (.object (definedMembers overlayEntries)) :=
  h.get hmem

theorem readOverlayConfig_sample :
    readOverlayConfig sampleHost sampleRoot sampleTree = .ok (some sampleConfig) := by
  have hnode : sampleTree.node (sampleRoot ++ ["package.json"]) =
      some (fileNode (jsonBytes ownerPackage)) :=
    node_package mem_ownerSample (by simp [Sample.entries, ownerSample])
  have hall : ∀ key ∈ configFields, (sampleField key).isSome = true := by
    have hnames : configFields ⊆ overlayEntries.map Prod.fst := by decide
    have hsome : ∀ entry ∈ overlayEntries, entry.2.isSome = true := by
      simp only [overlayEntries, List.forall_mem_append, List.forall_mem_map, List.forall_mem_cons]
      simp
    intro key hkey
    obtain ⟨entry, hentry, rfl⟩ := List.mem_map.mp (hnames hkey)
    have hget : sampleField entry.1 = entry.2 := keyed_overlay.get hentry
    rw [hget, hsome entry hentry]
  have hfields : overlayFields ownerPackage = .ok (some sampleField) :=
    overlayFields_object (get_overlay keyed_owner (by simp)) hall
  have hpatch : patchPath sampleRoot sampleField = .ok (sampleRoot ++ ["patches", "a.patch"]) := by
    have htext : asText (str "patches/a.patch") = some "patches/a.patch".toList := by
      rw [String.toList_ofList]
      exact decode_ofList (by decide)
    rw [patchPath, field_patch, Option.bind_some, htext, String.toList_ofList]
    decide
  refine ok_bind (json_sample ordinary_owner hnode) (ok_bind hfields (ok_bind checkTexts_sample ?_))
  refine ok_bind configTargets_sample (ok_bind hpatch ?_)
  rw [verifyConfig_sample]
  rfl

theorem readManifest_sample (sample : Sample) (hsample : sample ∈ samples) :
    readManifest sampleHost sample.root sampleTree = .ok (some (object manifestEntries)) := by
  have hnode : sampleTree.node (sample.root ++ [manifestName]) =
      some (fileNode (jsonBytes (object manifestEntries))) :=
    node_package hsample (by simp [Sample.entries])
  rw [readManifest_of_file (Tree.look_eq_file.mpr ⟨_, hnode⟩)]
  exact manifestOf_parse (parse_sample ordinary_manifest)

theorem verifyIdentity_sample :
    verifyIdentity (some sampleConfig) (some (object manifestEntries)) = .ok () := by
  have hall :
    (overlayIdentity sampleConfig.overlay).all (sameField (some (object manifestEntries))) =
      true := by
    rw [List.all_eq_true]
    intro entry hentry
    have hget : fieldOf (some (object manifestEntries)) (units entry.1) = entry.2 :=
      keyed_manifest.get (List.mem_append_left _ hentry)
    rw [sameField, hget]
    exact decide_eq_true rfl
  refine require_of ?_
  rw [Provenance.manifestMatchesIdentity, hall]
  rfl

theorem recorded_sample {target : Name} (h : target ∈ sampleTargets) :
    Recorded sampleHost (some (object manifestEntries)) target addonBytes := by
  have hartifacts : fieldOf (some (object manifestEntries)) (units "artifacts") =
      some (object artifactEntries) :=
    keyed_manifest.get (List.mem_append_right _ (List.mem_singleton.mpr rfl))
  have htarget : fieldOf (some (object artifactEntries)) (units target) =
      some (object [("prebuildSha256", some (str (sampleSha256 addonBytes)))]) :=
    keyed_artifacts.get (List.mem_map_of_mem h)
  refine ⟨by decide, ?_⟩
  rw [recordedHash, hartifacts, htarget]
  simp [fieldOf, object, definedMembers, getMember, isText, str, sampleHost]

theorem directory_sample {sample : Sample} (hsample : sample ∈ samples) {target : Name}
    (htarget : target ∈ sample.targets) :
    sampleTree.node (prebuildDirectory sample.root target) = some directoryNode ∧
      sampleTree.node (prebuildFile sample.root target) = some (fileNode addonBytes) := by
  have hmem {p : Path} {n : Node}
    (h : (p, n) ∈ [(prebuildDirectory sample.root target, directoryNode),
      (prebuildFile sample.root target, fileNode addonBytes)]) : sampleTree.node p = some n :=
    node_package hsample (List.mem_append_right _ (List.mem_flatMap.mpr ⟨target, htarget, h⟩))
  exact ⟨hmem (by simp), hmem (by simp)⟩

theorem verifyPackedPrebuilds_sample (sample : Sample) (hsample : sample ∈ samples)
    (htargets : sample.targets ⊆ sampleTargets) :
    verifyPackedPrebuilds sampleHost sample.root (some sampleConfig) sample.targets sampleTree =
      .ok () := by
  refine verifyPackedPrebuilds_ok.mpr
    ⟨_, readManifest_sample sample hsample, verifyIdentity_sample, ?_⟩
  intro target htarget
  have hfile := Tree.look_eq_file.mpr ⟨_, (directory_sample hsample htarget).2⟩
  exact (verifyPrebuild_of_file hfile).mpr (recorded_sample (htargets htarget))

theorem prebuildPath_sample (sample : Sample) (hsample : sample ∈ samples) {target : Name}
    (htarget : target ∈ sample.targets) :
    prebuildPath sample.root target false sampleTree = .ok () := by
  have hprebuilds : sampleTree.node (sample.root ++ ["prebuilds"]) = some directoryNode :=
    node_package hsample (by simp [Sample.entries])
  obtain ⟨hdirectory, hfile⟩ := directory_sample hsample htarget
  exact prebuildPath_ok.mpr ⟨directory_ok.mpr (.inl ⟨_, hprebuilds⟩),
    directory_ok.mpr (.inl ⟨_, hdirectory⟩), .inr (regularFile_ok.mp (regular_sample hfile))⟩

theorem sameFile_sample {payload : Payload} (hpayload : payload ∈ payloads) {file : Name}
    {kind : String} (bytes : Bytes)
    (h : ∀ sample ∈ samples, (sample.root ++ [file], fileNode bytes) ∈ sample.entries) :
    sameFile sampleHost sampleRoot (payloadRoot payload) payload file kind sampleTree = .ok () := by
  have hours := node_package mem_ownerSample (h _ mem_ownerSample)
  have htheirs := node_package (mem_payloadSample hpayload) (h _ (mem_payloadSample hpayload))
  refine ok_bind (regular_sample hours) (ok_bind (regular_sample htheirs) ?_)
  refine ok_bind (read_sample hours) (ok_bind (read_sample htheirs) ?_)
  exact require_of (decide_eq_true rfl)

theorem readPackage_sample (sample : Sample) (hsample : sample ∈ samples)
    {members : List (Units × Value Double)} (hpackage : sample.package = .object members)
    (hordinary : sample.package.Ordinary) :
    readPackage sampleHost sample.root sampleTree = .ok sample.package := by
  have hnode : sampleTree.node (sample.root ++ ["package.json"]) =
      some (fileNode (jsonBytes sample.package)) :=
    node_package hsample (by simp [Sample.entries])
  refine ok_bind (regular_sample hnode) (ok_bind (json_sample hordinary hnode) ?_)
  rw [hpackage]
  rfl

theorem ownerMetadata_sample :
    ownerMetadata sampleHost sampleRoot sampleTree = .ok (ownerPackage, units "0.17.0") := by
  have hread : readPackage sampleHost sampleRoot sampleTree = .ok ownerPackage :=
    readPackage_sample ownerSample mem_ownerSample rfl ordinary_owner
  have hversion : fieldOf (some ownerPackage) (units "version") = some (.string (units "0.17.0")) :=
    keyed_owner.get (by simp [str])
  have hname : fieldOf (some ownerPackage) (units "name") = some (str ownerName) :=
    keyed_owner.get (by simp)
  have hdependencies : fieldOf (some ownerPackage) (units "dependencies") =
      some (object (payloads.map fun payload => (payload.name, some (str "0.17.0")))) :=
    keyed_owner.get (by simp)
  have hpackage : (decodeUtf16 (units "0.17.0")).any isPackageVersion = true := by
    rw [decode_ofList (by decide)]
    decide
  have hrequired : payloads.all (requires ownerPackage (units "0.17.0")) = true := by
    rw [List.all_eq_true]
    intro payload hpayload
    have hnames : ∀ payload ∈ payloads, IsKey payload.name := by
      simpa using keyed_dependencies.keys
    have hget :
      fieldOf (some (object (payloads.map fun payload => (payload.name, some (str "0.17.0")))))
        (units payload.name) = some (str "0.17.0") :=
      keyed_dependencies.get (List.mem_map_of_mem hpayload)
    have hkinds : ∀ key ∈ ["optionalDependencies", "peerDependencies", "devDependencies"],
        fieldOf (some ownerPackage) (units key) = none := by
      have hkeys : ∀ key ∈ ["optionalDependencies", "peerDependencies", "devDependencies"],
          IsKey key := by
        simp only [List.forall_mem_cons]
        repeat' apply And.intro
        all_goals first | exact ⟨_, _, rfl, by decide, by decide⟩ | simp
      have hnew : ∀ key ∈ ["optionalDependencies", "peerDependencies", "devDependencies"],
          key ∉ ["name", "version", "dependencies", "utexoNativeOverlay"] := by decide
      exact fun key hkey => keyed_owner.absent (hkeys key hkey) (hnew key hkey)
    rw [requires, hdependencies, hget, isText_str, Bool.true_and, List.all_eq_true]
    intro key hkey
    rw [hkinds key hkey]
    rfl
  have howner : ownerVersion ownerPackage = some (units "0.17.0") := by
    rw [ownerVersion, hversion, hname]
    exact if_pos ⟨isText_str _, hpackage, hrequired⟩
  refine ok_bind hread ?_
  rw [howner]
  rfl

theorem hasIdentity_sample (payload : Payload) :
    hasIdentity (payloadPackage payload) (units "0.17.0") payload = true := by
  have hkeyed := keyed_payload payload
  have hname : fieldOf (some (payloadPackage payload)) (units "name") = some (str payload.name) :=
    hkeyed.get (by simp)
  have hversion : fieldOf (some (payloadPackage payload)) (units "version") = some (str "0.17.0") :=
    hkeyed.get (by simp)
  have hidentity : fieldOf (some (payloadPackage payload)) (units "utexoNativePayload") =
      some (payloadIdentity payload) :=
    hkeyed.get (by simp)
  have hexports : fieldOf (some (payloadPackage payload)) (units "exports") = some payloadExports :=
    hkeyed.get (by simp)
  have hforbidden : forbiddenFields.all
      (fun key => (fieldOf (some (payloadPackage payload)) (units key)).isNone) = true := by
    have hkeys : ∀ key ∈ forbiddenFields, IsKey key := by
      simp only [forbiddenFields, List.forall_mem_cons]
      repeat' apply And.intro
      all_goals first | exact ⟨_, _, rfl, by decide, by decide⟩ | simp
    have hnew : ∀ key ∈ forbiddenFields, key ∉ ["name", "version", "utexoNativePayload", "exports",
        "utexoNativeOverlay"] := by decide
    rw [List.all_eq_true]
    intro key hkey
    have habsent : fieldOf (some (payloadPackage payload)) (units key) = none :=
      hkeyed.absent (hkeys key hkey) (hnew key hkey)
    rw [habsent]
    rfl
  simp only [hasIdentity, hname, hversion, hidentity, hexports, hforbidden, deepEqualField,
    isText_str, deepEqual_self _ (ordinary_payloadIdentity payload),
    deepEqual_self _ ordinary_exports]
  rfl

theorem validatePayload_sample {payload : Payload} (hpayload : payload ∈ payloads) :
    validatePayload sampleHost sampleRoot (payloadRoot payload)
      (some sampleConfig) payload sampleTree =
      .ok () := by
  have hmem := mem_payloadSample hpayload
  have htargets : ∀ payload ∈ payloads, payload.targets ⊆ sampleTargets := by decide
  have hread : readPackage sampleHost (payloadRoot payload) sampleTree =
      .ok (payloadPackage payload) :=
    readPackage_sample (payloadSample payload) hmem rfl (ordinary_payload payload)
  have hours : fieldOf (some ownerPackage) (units "utexoNativeOverlay") =
      some (object overlayEntries) :=
    keyed_owner.get (by simp)
  have htheirs : fieldOf (some (payloadPackage payload)) (units "utexoNativeOverlay") =
      some (object overlayEntries) :=
    (keyed_payload payload).get (by simp)
  have hmanifest {kind : String} : sameFile sampleHost sampleRoot (payloadRoot payload) payload
      manifestName kind sampleTree = .ok () :=
    sameFile_sample hpayload (jsonBytes (object manifestEntries))
      fun sample _ => by simp [Sample.entries]
  have hcontract {kind : String} : sameFile sampleHost sampleRoot (payloadRoot payload) payload
      runtimeContractName kind sampleTree = .ok () :=
    sameFile_sample hpayload
      (jsonBytes (runtimeIdentity sampleField (sampleDigest wrapperFiles)))
      fun sample _ => by simp [Sample.entries]
  have hmetadata : payloadMetadata sampleHost sampleRoot (payloadRoot payload) payload sampleTree =
      .ok () := by
    refine ok_bind ownerMetadata_sample (ok_bind hread ?_)
    refine ok_bind (require_of (hasIdentity_sample payload)) (require_of ?_)
    rw [hours, htheirs, deepEqualField, deepEqual_self _ ordinary_overlay]
  have hprebuild : payload.targets.forM (fun target =>
      prebuildPath (payloadRoot payload) target false sampleTree) = .ok () :=
    forM_eq_ok.mpr fun target htarget => prebuildPath_sample (payloadSample payload) hmem htarget
  refine ok_bind hmetadata (ok_bind hmanifest (ok_bind hcontract (ok_bind hprebuild ?_)))
  exact verifyPackedPrebuilds_sample (payloadSample payload) hmem (htargets payload hpayload)

def sampleSources : List Source := payloads.map fun payload => ⟨payload, payloadRoot payload⟩

theorem accept_sample :
    accept sampleHost sampleRoot sampleTree = .ok (sampleConfig, sampleSources) := by
  have hresolved : payloads.mapM (resolvePayload sampleHost sampleRoot) =
      .ok sampleSources :=
    mapM_eq_pure fun payload _ => rfl
  have hpayloads :
    sampleSources.forM (fun source => validatePayload sampleHost sampleRoot source.root
      (some sampleConfig) source.payload sampleTree) = .ok () := by
    refine forM_eq_ok.mpr fun source hsource => ?_
    obtain ⟨payload, hpayload, rfl⟩ := List.mem_map.mp hsource
    exact validatePayload_sample hpayload
  have hwrapper :
    wrapperTargets.forM (fun target => prebuildPath sampleRoot target false sampleTree) =
      .ok () :=
    forM_eq_ok.mpr fun target htarget =>
      prebuildPath_sample ownerSample mem_ownerSample htarget
  have hpacked :
    verifyPackedPrebuilds sampleHost sampleRoot (some sampleConfig) wrapperTargets sampleTree =
      .ok () :=
    verifyPackedPrebuilds_sample ownerSample mem_ownerSample (by decide)
  have hplaces :
    payloadTargets.forM (fun target => prebuildPath sampleRoot target true sampleTree) =
      .ok () := by
    have habsent : ∀ target ∈ payloadTargets,
        sampleTree.node (prebuildDirectory sampleRoot target) = none ∧
          sampleTree.node (prebuildFile sampleRoot target) = none := by
      decide +kernel
    have hprebuilds : sampleTree.node (sampleRoot ++ ["prebuilds"]) = some directoryNode :=
      node_package mem_ownerSample (by simp [Sample.entries, ownerSample])
    refine forM_eq_ok.mpr fun target htarget => prebuildPath_ok.mpr ?_
    exact ⟨directory_ok.mpr (.inl ⟨_, hprebuilds⟩),
      directory_ok.mpr (.inr ⟨rfl, (habsent target htarget).1⟩),
      .inl ⟨rfl, (habsent target htarget).2⟩⟩
  refine ok_bind readOverlayConfig_sample (ok_bind ownerMetadata_sample (ok_bind hresolved ?_))
  exact ok_bind hpayloads (ok_bind hwrapper (ok_bind hpacked (ok_bind hplaces rfl)))

end Sample

end RgbLightningNode.Distribution
