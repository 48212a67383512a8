import RgbLightningNode.Provenance.Symbols
import RgbLightningNode.Json.Objects

/-!
# The artifact manifest

The manifest beside the artifacts says from which configuration they were built and what they hash
to. Writing for another configuration starts it afresh; writing for the same one adds to it.
-/

namespace RgbLightningNode.Provenance
open Number Json
open Faulty (bind_eq_ok map_eq_ok)

/-! ### The source -/

/-- A configuration, field by field; a field may be absent. -/
structure OverlayConfig where
  repository : Option (Value Double)
  ref : Option (Value Double)
  commit : Option (Value Double)
  lightningCommit : Option (Value Double)
  patchSha256 : Option (Value Double)
  cffiLockSha256 : Option (Value Double)
  wrapperSha256 : Option (Value Double)
  prebuildRecipeSha256 : Option (Value Double)
  rustToolchain : Option (Value Double)
  buildProfile : Option (Value Double)
  iosDeploymentTarget : Option (Value Double)
  androidNdkVersion : Option (Value Double)
  androidApiLevel : Option (Value Double)
  cargoNdkVersion : Option (Value Double)
  bindgenCliVersion : Option (Value Double)
  bareHeadersVersion : Option (Value Double)
  targets : List (Value Double)

def artifactManifestSchema : Double := nearest false 2

def overlayIdentity (config : OverlayConfig) : Entries := [
  ("schemaVersion", some (.number artifactManifestSchema)),
  ("repository", config.repository),
  ("ref", config.ref),
  ("commit", config.commit),
  ("lightningCommit", config.lightningCommit),
  ("patchSha256", config.patchSha256),
  ("cffiLockSha256", config.cffiLockSha256),
  ("wrapperSha256", config.wrapperSha256),
  ("prebuildRecipeSha256", config.prebuildRecipeSha256),
  ("rustToolchain", config.rustToolchain),
  ("buildProfile", config.buildProfile),
  ("iosDeploymentTarget", config.iosDeploymentTarget),
  ("androidNdkVersion", config.androidNdkVersion),
  ("androidApiLevel", config.androidApiLevel),
  ("cargoNdkVersion", config.cargoNdkVersion),
  ("bindgenCliVersion", config.bindgenCliVersion),
  ("bareHeadersVersion", config.bareHeadersVersion),
  ("targets", some (.array config.targets))]

/-- The name of a target. `__proto__` is the one name under which an object keeps no field. -/
structure Target where
  name : List Char
  isField : name ≠ "__proto__".toList
  deriving DecidableEq

def Target.key (target : Target) : Units := encodeUtf16 target.name

abbrev Files := ArtifactKind → Target → Option (List UInt8)

/-- A package directory: the artifacts and the text of the manifest. -/
structure Package where
  files : Files
  manifest : Option Units

/-- What a manifest says, of which there is a text if the file can be read. -/
def parseManifest (text : Option Units) : Except String (Value Double) :=
  match text.bind jsonParse with
  | some manifest => .ok manifest
  | none => .error (fail "native artifact overlay provenance is invalid")

def readManifest (package : Package) : Except String (Option (Value Double)) :=
  match package.manifest with
  | none => .ok none
  | some text => (parseManifest (some text)).map some

/-- The manifest has a field with the value that is expected there, printed to compare. -/
def sameField (manifest : Option (Value Double)) (entry : String × Option (Value Double)) : Bool :=
  jsonStringify (fieldOf manifest (units entry.1)) = jsonStringify entry.2

def manifestMatchesIdentity (manifest : Option (Value Double)) (config : OverlayConfig) : Bool :=
  !falsy manifest && (overlayIdentity config).all (sameField manifest)

def readFileSync (files : Files) (kind : ArtifactKind) (target : Target) :
    Except String (List UInt8) :=
  match files kind target with
  | some bytes => .ok bytes
  | none => .error "ENOENT"

/-- The hash of a file, of which `contents` is what reading it ends with. -/
def hashFile {ε η : Type} (sha256 : List UInt8 → η) (contents : Except ε (List UInt8)) :
    Except ε η := do
  let bytes ← contents
  return sha256 bytes

section Hash
variable (sha256 : List UInt8 → Units)

/-- The loop over the targets. -/
def recordTargets (files : Files) : List Target → List (Units × Value Double) →
    Except String (List (Units × Value Double))
  | [], artifacts => .ok artifacts
  | target :: targets, artifacts =>
    (hashFile sha256 (readFileSync files .library target)).bind fun library =>
      (hashFile sha256 (readFileSync files .prebuild target)).bind fun prebuild =>
        recordTargets files targets (setMember target.key
          (.object [(units "librarySha256", .string library),
            (units "prebuildSha256", .string prebuild)])
          artifacts)

/-- `{ ...value }`, of what a manifest has under `artifacts`. -/
def spread : Option (Value Double) → List (Units × Value Double)
  | some (.object members) => members
  | _ => []

def writeArtifactManifest (package : Package) (config : OverlayConfig) (targets : List Target) :
    Except String Package :=
  (readManifest package).bind fun current =>
    let kept := if manifestMatchesIdentity current config then
      spread (fieldOf current (units "artifacts")) else []
    (recordTargets sha256 package.files targets kept).map fun artifacts =>
      let manifest := Value.object (definedMembers
        (overlayIdentity config ++ [("artifacts", some (.object artifacts))]))
      { package with manifest := some (jsonLines manifest ++ [0x0A]) }

/-- `value === text` -/
def isText (v : Option (Value Double)) (text : Units) : Bool :=
  match v with
  | some (.string s) => s = text
  | _ => false

def verifyTargets (manifest : Option (Value Double)) (files : Files) :
    List Target → Except String Unit
  | [] => .ok ()
  | target :: targets =>
    let recorded := fieldOf (fieldOf manifest (units "artifacts")) target.key
    let error := fail ("native artifact hashes do not match overlay provenance for " ++
      String.ofList target.name)
    if falsy recorded then .error error
    else (hashFile sha256 (readFileSync files .library target)).bind fun library =>
      if !isText (fieldOf recorded (units "librarySha256")) library then .error error
      else (hashFile sha256 (readFileSync files .prebuild target)).bind fun prebuild =>
        if !isText (fieldOf recorded (units "prebuildSha256")) prebuild then .error error
        else verifyTargets manifest files targets

def verifyArtifactManifest (package : Package) (config : OverlayConfig) (targets : List Target) :
    Except String Unit :=
  (readManifest package).bind fun manifest =>
    if falsy manifest then .error (fail "native artifacts are missing overlay provenance")
    else match (overlayIdentity config).find? fun entry => !sameField manifest entry with
      | some (key, _) => .error (fail ("native artifact overlay provenance does not match " ++ key))
      | none => verifyTargets sha256 manifest package.files targets

/-! ### Histories -/

/-- A call that wrote the manifest, with the files that it found. -/
structure Write where
  config : OverlayConfig
  targets : List Target
  files : Files

/-- What a package directory goes through, with the calls that wrote the manifest, the last one
first. Files change at will; a call that fails changes nothing. -/
inductive Run (start : Files) : Package → List Write → Prop
  | start : Run start ⟨start, none⟩ []
  | change {package : Package} {writes : List Write} (files : Files)
    (h : Run start package writes) :
    Run start { package with files := files } writes
  | write {package package' : Package} {writes : List Write} {config : OverlayConfig}
    {targets : List Target} (h : Run start package writes)
    (hwrite : writeArtifactManifest sha256 package config targets = .ok package') :
    Run start package' (⟨config, targets, package.files⟩ :: writes)

/-- Two configurations print the same identity. -/
def SameIdentity (config config' : OverlayConfig) : Prop :=
  (overlayIdentity config).map (fun entry => jsonStringify entry.2) =
    (overlayIdentity config').map fun entry => jsonStringify entry.2

instance (config config' : OverlayConfig) : Decidable (SameIdentity config config') := by
  unfold SameIdentity
  infer_instance

/-- The calls since the identity last changed, the last one first. -/
def sinceChange : List Write → List Write
  | [] => []
  | write :: writes =>
    write :: writes.takeWhile fun earlier => SameIdentity earlier.config write.config

/-- The last call for a target since the identity changed. -/
def latest (writes : List Write) (target : Target) : Option Write :=
  (sinceChange writes).find? fun write => target ∈ write.targets

/-- A call comes before the earlier ones, which count as long as the identity is the same. -/
theorem latest_cons (write : Write) (writes : List Write) (target : Target) :
    latest (write :: writes) target =
      if target ∈ write.targets then some write
      else match writes with
        | [] => none
        | earlier :: _ =>
          if SameIdentity earlier.config write.config then latest writes target else none := by
  by_cases hmem : target ∈ write.targets
  · simp [latest, sinceChange, hmem]
  · cases writes with
    | nil => simp [latest, sinceChange, hmem]
    | cons earlier writes =>
      by_cases hsame : SameIdentity earlier.config write.config
      · have hrest : (fun w : Write => decide (SameIdentity w.config write.config)) =
            fun w => decide (SameIdentity w.config earlier.config) := by
          funext w
          exact decide_eq_decide.mpr ⟨fun h => Eq.trans h hsame.symm, fun h => Eq.trans h hsame⟩
        have hself : SameIdentity earlier.config earlier.config := rfl
        simp [latest, sinceChange, hmem, hsame, hrest, hself]
      · simp [latest, sinceChange, hmem, hsame]

/-! ### Members and what is read back of them -/

theorem Target.key_inj {target target' : Target} (h : target.key = target'.key) :
    target = target' := by
  cases target
  cases target'
  simp only [Target.key] at h
  simp only [Target.mk.injEq]
  exact encodeUtf16_inj h

/-! ### What a write records -/

/-- What is recorded for the files of a target, if both are there. -/
def artifactRecord (files : Files) (target : Target) : Option (Value Double) :=
  (files .library target).bind fun library => (files .prebuild target).map fun prebuild =>
    .object [(units "librarySha256", .string (sha256 library)),
      (units "prebuildSha256", .string (sha256 prebuild))]

theorem reread_artifactRecord {files : Files} {target : Target} {v : Value Double}
    (h : artifactRecord sha256 files target = some v) : reread v = v := by
  obtain ⟨library, -, h⟩ := Option.bind_eq_some_iff.mp h
  obtain ⟨prebuild, -, rfl⟩ := Option.map_eq_some_iff.mp h
  rfl

theorem hashFile_ok {files : Files} {kind : ArtifactKind} {target : Target} {hash : Units} :
    hashFile sha256 (readFileSync files kind target) = .ok hash ↔
      ∃ bytes, files kind target = some bytes ∧ hash = sha256 bytes := by
  refine bind_eq_ok.trans ?_
  unfold readFileSync
  cases files kind target <;> simp [pure, Except.pure, eq_comm]

theorem recordTargets_get {files : Files} {targets : List Target}
    {artifacts artifacts' : List (Units × Value Double)}
    (h : recordTargets sha256 files targets artifacts = .ok artifacts') (target : Target) :
    getMember artifacts' target.key = if target ∈ targets then artifactRecord sha256 files target
      else getMember artifacts target.key := by
  induction targets generalizing artifacts with
  | nil =>
    cases h
    simp
  | cons first targets ih =>
    obtain ⟨_, hlibrary, h⟩ := bind_eq_ok.mp h
    obtain ⟨_, hprebuild, h⟩ := bind_eq_ok.mp h
    obtain ⟨library, hl, rfl⟩ := (hashFile_ok sha256).mp hlibrary
    obtain ⟨prebuild, hp, rfl⟩ := (hashFile_ok sha256).mp hprebuild
    rw [ih h, getMember_setMember]
    by_cases hfirst : target = first
    · subst hfirst
      simp [artifactRecord, hl, hp]
    · have hkey : target.key ≠ first.key := fun heq => hfirst (Target.key_inj heq)
      simp [hfirst, hkey]

/-- Nothing but a missing file keeps the loop from its end. -/
theorem recordTargets_ok {files : Files} {targets : List Target}
    (h : ∀ target ∈ targets, (artifactRecord sha256 files target).isSome)
    (artifacts : List (Units × Value Double)) :
    ∃ artifacts', recordTargets sha256 files targets artifacts = .ok artifacts' := by
  induction targets generalizing artifacts with
  | nil => exact ⟨artifacts, rfl⟩
  | cons first targets ih =>
    obtain ⟨hfirst, hrest⟩ := List.forall_mem_cons.mp h
    obtain ⟨record, hrecord⟩ := Option.isSome_iff_exists.mp hfirst
    obtain ⟨library, hl, hrecord⟩ := Option.bind_eq_some_iff.mp hrecord
    obtain ⟨prebuild, hp, -⟩ := Option.map_eq_some_iff.mp hrecord
    obtain ⟨artifacts', hartifacts⟩ := ih hrest _
    refine ⟨artifacts', bind_eq_ok.mpr ⟨_, (hashFile_ok sha256).mpr ⟨library, hl, rfl⟩, ?_⟩⟩
    exact bind_eq_ok.mpr ⟨_, (hashFile_ok sha256).mpr ⟨prebuild, hp, rfl⟩, hartifacts⟩

theorem recordTargets_files {files : Files} {targets : List Target}
    {artifacts artifacts' : List (Units × Value Double)}
    (h : recordTargets sha256 files targets artifacts = .ok artifacts') :
    ∀ target ∈ targets, (artifactRecord sha256 files target).isSome := by
  induction targets generalizing artifacts with
  | nil => simp
  | cons first targets ih =>
    obtain ⟨_, hlibrary, h⟩ := bind_eq_ok.mp h
    obtain ⟨_, hprebuild, h⟩ := bind_eq_ok.mp h
    obtain ⟨library, hl, rfl⟩ := (hashFile_ok sha256).mp hlibrary
    obtain ⟨prebuild, hp, rfl⟩ := (hashFile_ok sha256).mp hprebuild
    exact List.forall_mem_cons.mpr ⟨by simp [artifactRecord, hl, hp], ih h⟩

/-- The text of every field of an identity. -/
def identityTexts (config : OverlayConfig) : List (Option Units) :=
  (overlayIdentity config).map fun entry => jsonStringify entry.2

def identityKeys : List String := ["schemaVersion", "repository", "ref", "commit",
  "lightningCommit", "patchSha256", "cffiLockSha256", "wrapperSha256", "prebuildRecipeSha256",
  "rustToolchain", "buildProfile", "iosDeploymentTarget", "androidNdkVersion", "androidApiLevel",
  "cargoNdkVersion", "bindgenCliVersion", "bareHeadersVersion", "targets"]

theorem overlayIdentity_keys (config : OverlayConfig) :
    (overlayIdentity config).map Prod.fst = identityKeys := rfl

/-- The text of every field that a manifest has. -/
def manifestTexts (manifest : Option (Value Double)) : List (Option Units) :=
  identityKeys.map fun key => jsonStringify (fieldOf manifest (units key))

theorem all_sameField (manifest : Option (Value Double)) (config : OverlayConfig) :
    (∀ entry ∈ overlayIdentity config, sameField manifest entry = true) ↔
      manifestTexts manifest = identityTexts config := by
  rw [manifestTexts, ← overlayIdentity_keys config, List.map_map, identityTexts, List.map_inj_left]
  simp [sameField]

/-- What a manifest says once the calls `writes` wrote it, the last one first. -/
structure Records (manifest : Option (Value Double)) (writes : List Write) : Prop where
  object : ∃ members, manifest = some (.object members)
  identity : ∀ write ∈ writes.head?, manifestTexts manifest = identityTexts write.config
  artifacts : ∃ members, fieldOf manifest (units "artifacts") = some (.object members)
  recorded : ∀ target, fieldOf (fieldOf manifest (units "artifacts")) target.key =
    (latest writes target).bind fun write => artifactRecord sha256 write.files target

/-- The manifest of a call, before it is printed. -/
def manifestMembers (config : OverlayConfig) (artifacts : List (Units × Value Double)) :
    List (Units × Value Double) :=
  definedMembers (overlayIdentity config ++ [("artifacts", some (.object artifacts))])

theorem getMember_manifest (config : OverlayConfig) (artifacts : List (Units × Value Double))
    {entry : String × Option (Value Double)}
    (h : entry ∈ overlayIdentity config ++ [("artifacts", some (Value.object artifacts))]) :
    getMember (manifestMembers config artifacts) (units entry.1) = entry.2 := by
  refine getMember_definedMembers ?_ h
  have hkeys : ((overlayIdentity config ++ [("artifacts", some (Value.object artifacts))]).map
      fun entry => units entry.1) = (identityKeys ++ ["artifacts"]).map units := rfl
  rw [hkeys]
  decide

/-- A manifest that was read back has the identity of its call and the artifacts it recorded. -/
theorem manifestTexts_reread (config : OverlayConfig) (artifacts : List (Units × Value Double)) :
    manifestTexts (some (reread (.object (manifestMembers config artifacts)))) =
      identityTexts config := by
  rw [← all_sameField]
  intro entry hentry
  have hget := getMember_manifest config artifacts (List.mem_append_left _ hentry)
  rw [sameField, fieldOf_reread, hget, jsonStringify_reread, decide_eq_true rfl]

theorem artifacts_reread (config : OverlayConfig) (artifacts : List (Units × Value Double)) :
    fieldOf (some (reread (.object (manifestMembers config artifacts)))) (units "artifacts") =
      some (reread (.object artifacts)) := by
  have hentry : ("artifacts", some (Value.object artifacts)) ∈
      overlayIdentity config ++ [("artifacts", some (Value.object artifacts))] :=
    List.mem_append_right _ (List.mem_singleton.mpr rfl)
  have hget := getMember_manifest config artifacts hentry
  rw [fieldOf_reread, hget]
  rfl

/-- A call keeps what is recorded for the same identity, and nothing else. -/
theorem kept_get {manifest : Option (Value Double)} {earlier : Write} {writes : List Write}
    (h : Records sha256 manifest (earlier :: writes)) (config : OverlayConfig) (target : Target) :
    getMember (if manifestMatchesIdentity manifest config then
      spread (fieldOf manifest (units "artifacts")) else []) target.key =
      if SameIdentity earlier.config config then
        (latest (earlier :: writes) target).bind fun write =>
          artifactRecord sha256 write.files target
      else none := by
  obtain ⟨members, rfl⟩ := h.object
  obtain ⟨artifacts, hartifacts⟩ := h.artifacts
  have hidentity : manifestTexts (some (.object members)) = identityTexts earlier.config :=
    h.identity earlier rfl
  have hmatch : manifestMatchesIdentity (some (.object members)) config = true ↔
      SameIdentity earlier.config config := by
    have htruthy : falsy (some (.object members)) = false := rfl
    rw [manifestMatchesIdentity, htruthy, Bool.not_false, Bool.true_and, List.all_eq_true,
      all_sameField, hidentity]
    rfl
  have hrecorded := h.recorded target
  rw [hartifacts] at hrecorded
  by_cases hsame : SameIdentity earlier.config config
  · rw [if_pos (hmatch.mpr hsame), if_pos hsame, hartifacts, ← hrecorded]
    rfl
  · rw [if_neg (fun hm => hsame (hmatch.mp hm)), if_neg hsame]
    rfl

theorem reread_recorded {files : Files} {target : Target} :
    (artifactRecord sha256 files target).map reread = artifactRecord sha256 files target := by
  cases h : artifactRecord sha256 files target with
  | none => rfl
  | some v => rw [Option.map_some, reread_artifactRecord sha256 h]

/-- What the manifest says after each step of a history. -/
theorem Run.records {start : Files} {package : Package} {writes : List Write}
    (h : Run sha256 start package writes) : ∃ manifest, readManifest package = .ok manifest ∧
      (writes = [] → manifest = none) ∧ (writes ≠ [] → Records sha256 manifest writes) := by
  induction h with
  | start => exact ⟨none, rfl, fun _ => rfl, fun hne => absurd rfl hne⟩
  | change files h ih => exact ih
  | @write package package' writes config targets h hwrite ih =>
    obtain ⟨current, hread, hnone, hrecords⟩ := ih
    rw [writeArtifactManifest, hread] at hwrite
    obtain ⟨artifacts, hartifacts, rfl⟩ := map_eq_ok.mp hwrite
    refine ⟨some (reread (.object (manifestMembers config artifacts))), ?_, by simp, fun _ => ?_⟩
    · simp only [readManifest]
      rw [parseManifest, Option.bind_some, jsonParse_lines]
      rfl
    · refine ⟨⟨_, rfl⟩, ?_, ⟨_, artifacts_reread config artifacts⟩, fun target => ?_⟩
      · rintro write hwrite
        cases hwrite
        exact manifestTexts_reread config artifacts
      · rw [artifacts_reread, fieldOf_reread, recordTargets_get sha256 hartifacts target,
          latest_cons]
        by_cases htarget : target ∈ targets
        · rw [if_pos htarget, if_pos htarget, reread_recorded]
          rfl
        · rw [if_neg htarget, if_neg htarget]
          cases writes with
          | nil =>
            rw [hnone rfl]
            rfl
          | cons earlier writes =>
            rw [kept_get sha256 (hrecords (by simp)) config target]
            dsimp only
            by_cases hsame : SameIdentity earlier.config config
            · rw [if_pos hsame, if_pos hsame]
              cases latest (earlier :: writes) target with
              | none => rfl
              | some write => exact reread_recorded sha256
            · rw [if_neg hsame, if_neg hsame]
              rfl

/-- In every history a call can write the manifest, if the files of its targets are there. -/
theorem Run.next {start files : Files} {package : Package} {writes : List Write}
    (h : Run sha256 start package writes) (hpackage : package.files = files)
    (config : OverlayConfig) {targets : List Target}
    (hfiles : ∀ target ∈ targets, (artifactRecord sha256 files target).isSome) :
    ∃ package', Run sha256 start package' (⟨config, targets, files⟩ :: writes) ∧
      package'.files = files := by
  subst hpackage
  obtain ⟨manifest, hread, -⟩ := h.records
  obtain ⟨artifacts, hartifacts⟩ := recordTargets_ok sha256 hfiles
    (if manifestMatchesIdentity manifest config then
      spread (fieldOf manifest (units "artifacts")) else [])
  have hwrite : writeArtifactManifest sha256 package config targets = .ok _ :=
    bind_eq_ok.mpr ⟨manifest, hread, map_eq_ok.mpr ⟨artifacts, hartifacts, rfl⟩⟩
  exact ⟨_, .write h hwrite, rfl⟩

/-! ### What a verification finds -/

theorem isText_of_falsy {recorded : Option (Value Double)} (h : falsy recorded = true)
    (key text : Units) : isText (fieldOf recorded key) text = false := by
  cases recorded with
  | none => rfl
  | some v =>
    cases v with
    | object members => cases h
    | _ => rfl

theorem hashFile_of_some {files : Files} {kind : ArtifactKind} {target : Target}
    {bytes : List UInt8} (h : files kind target = some bytes) :
    hashFile sha256 (readFileSync files kind target) = .ok (sha256 bytes) := by
  rw [readFileSync, h]
  rfl

theorem hashFile_of_none {files : Files} {kind : ArtifactKind} {target : Target}
    (h : files kind target = none) :
    hashFile sha256 (readFileSync files kind target) = .error "ENOENT" := by
  rw [readFileSync, h]
  rfl

theorem verifyTargets_ok_iff {manifest : Option (Value Double)} {files : Files}
    {targets : List Target} : verifyTargets sha256 manifest files targets = .ok () ↔
      ∀ target ∈ targets, ∃ library prebuild, files .library target = some library ∧
        files .prebuild target = some prebuild ∧
        isText (fieldOf (fieldOf (fieldOf manifest (units "artifacts")) target.key)
          (units "librarySha256")) (sha256 library) = true ∧
        isText (fieldOf (fieldOf (fieldOf manifest (units "artifacts")) target.key)
          (units "prebuildSha256")) (sha256 prebuild) = true := by
  induction targets with
  | nil => simp [verifyTargets]
  | cons target targets ih =>
    rw [List.forall_mem_cons, ← ih, verifyTargets]
    generalize fieldOf (fieldOf manifest (units "artifacts")) target.key = recorded
    cases htruthy : falsy recorded with
    | true => simp [isText_of_falsy htruthy]
    | false =>
      cases hl : files .library target with
      | none => simp [hashFile_of_none sha256 hl, Except.bind]
      | some library =>
        cases hp : files .prebuild target with
        | none =>
          by_cases htext : isText (fieldOf recorded (units "librarySha256")) (sha256 library) <;>
            simp [hashFile_of_some sha256 hl, hashFile_of_none sha256 hp, Except.bind, htext]
        | some prebuild =>
          by_cases htext : isText (fieldOf recorded (units "librarySha256")) (sha256 library) <;>
            by_cases htext' : isText (fieldOf recorded (units "prebuildSha256"))
              (sha256 prebuild) <;>
              simp [hashFile_of_some sha256 hl, hashFile_of_some sha256 hp, Except.bind, htext,
                htext']

/-- The contents that the files of a history had when a call read them, and have now. -/
def contentsOf (files : Files) (writes : List Write) : Set (List UInt8) :=
  {bytes | ∃ kind target, files kind target = some bytes ∨
    ∃ write ∈ writes, write.files kind target = some bytes}

theorem latest_mem {writes : List Write} {target : Target} {write : Write}
    (h : latest writes target = some write) : write ∈ writes ∧ target ∈ write.targets := by
  have htarget := List.find?_some h
  have hmem := List.mem_of_find?_eq_some h
  refine ⟨?_, by simpa using htarget⟩
  cases writes with
  | nil => cases hmem
  | cons first writes =>
    rcases List.mem_cons.mp hmem with rfl | hmem
    · exact List.mem_cons_self
    · exact List.mem_cons_of_mem _ ((List.takeWhile_prefix _).subset hmem)

/-- A call that wrote the manifest found the files of its targets. -/
theorem Run.files_found {start : Files} {package : Package} {writes : List Write}
    (h : Run sha256 start package writes) : ∀ write ∈ writes, ∀ target ∈ write.targets,
      (artifactRecord sha256 write.files target).isSome := by
  induction h with
  | start => simp
  | change files h ih => exact ih
  | write h hwrite ih =>
    obtain ⟨_, -, hwrite⟩ := bind_eq_ok.mp hwrite
    obtain ⟨_, hartifacts, -⟩ := map_eq_ok.mp hwrite
    exact List.forall_mem_cons.mpr ⟨recordTargets_files sha256 hartifacts, ih⟩

/-- A record is that of the files which are there now, if they have not changed. -/
theorem record_matches {files files' : Files} {target : Target} {S : Set (List UInt8)}
    (hinj : Set.InjOn sha256 S) (hfiles : ∀ kind bytes, files kind target = some bytes → bytes ∈ S)
    (hfiles' : ∀ kind bytes, files' kind target = some bytes → bytes ∈ S)
    (hfound : (artifactRecord sha256 files target).isSome) :
    (∃ library prebuild, files' .library target = some library ∧
      files' .prebuild target = some prebuild ∧
      isText (fieldOf (artifactRecord sha256 files target) (units "librarySha256"))
        (sha256 library) =
        true ∧
      isText (fieldOf (artifactRecord sha256 files target) (units "prebuildSha256"))
        (sha256 prebuild) = true) ↔ ∀ kind, files' kind target = files kind target := by
  obtain ⟨record, hrecord⟩ := Option.isSome_iff_exists.mp hfound
  obtain ⟨library, hl, hrest⟩ := Option.bind_eq_some_iff.mp hrecord
  obtain ⟨prebuild, hp, rfl⟩ := Option.map_eq_some_iff.mp hrest
  have hlibrary : fieldOf (artifactRecord sha256 files target) (units "librarySha256") =
      some (.string (sha256 library)) := by rw [hrecord]; rfl
  have hprebuild : fieldOf (artifactRecord sha256 files target) (units "prebuildSha256") =
      some (.string (sha256 prebuild)) := by rw [hrecord]; rfl
  simp only [hlibrary, hprebuild, isText, decide_eq_true_eq]
  constructor
  · rintro ⟨library', prebuild', hl', hp', hhash, hhash'⟩ kind
    cases kind with
    | library => rw [hl', hl, hinj (hfiles _ _ hl) (hfiles' _ _ hl') hhash]
    | prebuild => rw [hp', hp, hinj (hfiles _ _ hp) (hfiles' _ _ hp') hhash']
  · intro hsame
    exact ⟨library, prebuild, by rw [hsame, hl], by rw [hsame, hp], rfl, rfl⟩

theorem verify_ok_iff {package : Package} {manifest : Option (Value Double)} {earlier : Write}
    {writes : List Write} (hread : readManifest package = .ok manifest)
    (h : Records sha256 manifest (earlier :: writes)) (config : OverlayConfig)
    (targets : List Target) : verifyArtifactManifest sha256 package config targets = .ok () ↔
      SameIdentity config earlier.config ∧
        verifyTargets sha256 manifest package.files targets = .ok () := by
  obtain ⟨members, rfl⟩ := h.object
  have hidentity : manifestTexts (some (.object members)) = identityTexts earlier.config :=
    h.identity earlier rfl
  have hmatch : SameIdentity config earlier.config ↔
      ∀ entry ∈ overlayIdentity config, sameField (some (.object members)) entry = true := by
    rw [all_sameField, hidentity, eq_comm]
    rfl
  have htruthy : falsy (some (.object members)) = false := rfl
  rw [verifyArtifactManifest, hread, hmatch, Except.bind, htruthy, if_neg Bool.false_ne_true]
  split
  · next key value hfound =>
    have hmem := List.mem_of_find?_eq_some hfound
    have hdiffers := List.find?_some hfound
    simp only [reduceCtorEq, false_iff, not_and]
    intro hall
    rw [hall _ hmem] at hdiffers
    cases hdiffers
  · next hnone =>
    have hall : ∀ entry ∈ overlayIdentity config,
        sameField (some (.object members)) entry = true := by simpa using hnone
    exact ⟨fun hok => ⟨hall, hok⟩, fun hok => hok.2⟩

theorem manifest_history {start : Files} {package : Package} {writes : List Write}
    (h : Run sha256 start package writes) :
    (∀ write earlier, writes = write :: earlier → ∃ manifest, readManifest package = .ok manifest ∧
      (∀ entry ∈ overlayIdentity write.config,
        jsonStringify (fieldOf manifest (units entry.1)) = jsonStringify entry.2) ∧
      ∀ target, fieldOf (fieldOf manifest (units "artifacts")) target.key =
        (latest writes target).bind fun write => artifactRecord sha256 write.files target) ∧
      ∀ (config : OverlayConfig) (targets : List Target),
        Set.InjOn sha256 (contentsOf package.files writes) →
          (verifyArtifactManifest sha256 package config targets = .ok () ↔
            ∃ write earlier, writes = write :: earlier ∧ SameIdentity config write.config ∧
              ∀ target ∈ targets, ∃ written, latest writes target = some written ∧
                ∀ kind, package.files kind target = written.files kind target) := by
  obtain ⟨manifest, hread, hnone, hrecords⟩ := h.records
  refine ⟨?_, fun config targets hinj => ?_⟩
  · rintro write earlier rfl
    have hr := hrecords (by simp)
    refine ⟨manifest, hread, ?_, hr.recorded⟩
    have hall := (all_sameField manifest write.config).mpr (hr.identity write rfl)
    exact fun entry hentry => of_decide_eq_true (hall entry hentry)
  · cases writes with
    | nil =>
      obtain rfl := hnone rfl
      rw [verifyArtifactManifest, hread]
      simp [Except.bind, falsy]
    | cons write earlier =>
      have hr := hrecords (by simp)
      have hfiles : ∀ target, (∃ library prebuild, package.files .library target = some library ∧
          package.files .prebuild target = some prebuild ∧
          isText (fieldOf (fieldOf (fieldOf manifest (units "artifacts")) target.key)
            (units "librarySha256")) (sha256 library) = true ∧
          isText (fieldOf (fieldOf (fieldOf manifest (units "artifacts")) target.key)
            (units "prebuildSha256")) (sha256 prebuild) = true) ↔
          ∃ written, latest (write :: earlier) target = some written ∧
            ∀ kind, package.files kind target = written.files kind target := by
        intro target
        rw [hr.recorded target]
        cases hlatest : latest (write :: earlier) target with
        | none => simp [fieldOf, isText]
        | some written =>
          obtain ⟨hmem, htarget⟩ := latest_mem hlatest
          have hfound := h.files_found sha256 written hmem target htarget
          simp only [Option.bind_some, Option.some.injEq, exists_eq_left']
          exact record_matches sha256 hinj
            (fun kind bytes hb => ⟨kind, target, .inr ⟨written, hmem, hb⟩⟩)
            (fun kind bytes hb => ⟨kind, target, .inl hb⟩) hfound
      rw [verify_ok_iff sha256 hread hr, verifyTargets_ok_iff]
      simp only [hfiles]
      constructor
      · rintro ⟨hsame, hall⟩
        exact ⟨write, earlier, rfl, hsame, hall⟩
      · rintro ⟨_, _, heq, hsame, hall⟩
        cases heq
        exact ⟨hsame, hall⟩

end Hash

/-! ### Two builds of one release, and a debug build -/

def darwin : Target := ⟨"darwin-arm64".toList, by decide⟩

def ios : Target := ⟨"ios-arm64".toList, by decide⟩

def sampleFiles : Files := fun kind target => match kind with
  | .library => some (if target = darwin then [1] else [3])
  | .prebuild => some (if target = darwin then [2] else [4])

def sampleSha256 (bytes : List UInt8) : Units :=
  if bytes = [1] then units "4bf5122f344554c53bde2ebb8cd2b7e3d1600ad631c385a5d7cce23c7785459a"
  else if bytes = [2] then
    units "dbc1b4c900ffe48d575b5da5c638040125f65db0fe3e24494b76ea986457d986"
  else if bytes = [3] then
    units "084fed08b978af4d7d196a7446a86b58009e636b611db16211b65a9aadff29c5"
  else units "e52d9c508c502347344d8c07ad91cbd6068afc75ff6292f062a09ca381c89e71"

def sampleConfig : OverlayConfig where
  repository := some (.string (units "rgb-lightning-node"))
  ref := none
  commit := some (.string (units "ecc69f2"))
  lightningCommit := none
  patchSha256 := none
  cffiLockSha256 := none
  wrapperSha256 := none
  prebuildRecipeSha256 := none
  rustToolchain := none
  buildProfile := some (.string (units "release"))
  iosDeploymentTarget := none
  androidNdkVersion := none
  androidApiLevel := none
  cargoNdkVersion := none
  bindgenCliVersion := none
  bareHeadersVersion := none
  targets := [.string (units "darwin-arm64"), .string (units "ios-arm64")]

def debugConfig : OverlayConfig :=
  { sampleConfig with buildProfile := some (.string (units "debug")) }

theorem debugConfig_differs : ¬SameIdentity debugConfig sampleConfig := by
  intro h
  have hprofile := congrArg (fun texts => texts[10]?) h
  revert hprofile
  decide

theorem sampleSha256_injOn {files : Files} {writes : List Write} (hfiles : files = sampleFiles)
    (hwrites : ∀ write ∈ writes, write.files = sampleFiles) :
    Set.InjOn sampleSha256 (contentsOf files writes) := by
  have hcontents : contentsOf files writes ⊆ {bytes | bytes ∈ [[1], [2], [3], [4]]} := by
    rintro bytes ⟨kind, target, hbytes⟩
    have hsome : sampleFiles kind target = some bytes := by
      rcases hbytes with hbytes | ⟨write, hmem, hbytes⟩
      · rwa [← hfiles]
      · rwa [← hwrites write hmem]
    cases kind <;> by_cases htarget : target = darwin <;>
      simp [sampleFiles, htarget] at hsome <;> simp [← hsome]
  have hinj : ∀ a ∈ [[1], [2], [3], [4]], ∀ b ∈ [[1], [2], [3], [4]],
      sampleSha256 a = sampleSha256 b → a = b := by decide
  exact fun a ha b hb heq => hinj a (hcontents ha) b (hcontents hb) heq

def firstWrite : Write := ⟨sampleConfig, [darwin], sampleFiles⟩

def secondWrite : Write := ⟨sampleConfig, [ios], sampleFiles⟩

def debugWrite : Write := ⟨debugConfig, [darwin], sampleFiles⟩

theorem sample_runs : ∃ released debugged, released.files = sampleFiles ∧
    debugged.files = sampleFiles ∧
    Run sampleSha256 sampleFiles released [secondWrite, firstWrite] ∧
    Run sampleSha256 sampleFiles debugged [debugWrite, secondWrite, firstWrite] := by
  have hfound (targets : List Target) :
      ∀ target ∈ targets, (artifactRecord sampleSha256 sampleFiles target).isSome := fun _ _ => rfl
  have hstart : Run sampleSha256 sampleFiles ⟨sampleFiles, none⟩ [] := .start
  obtain ⟨first, hfirst, hfiles⟩ := hstart.next sampleSha256 rfl sampleConfig (hfound [darwin])
  obtain ⟨second, hsecond, hfiles'⟩ := hfirst.next sampleSha256 hfiles sampleConfig (hfound [ios])
  obtain ⟨third, hthird, hfiles''⟩ :=
    hsecond.next sampleSha256 hfiles' debugConfig (hfound [darwin])
  exact ⟨second, third, hfiles', hfiles'', hsecond, hthird⟩

theorem latest_release : latest [secondWrite, firstWrite] darwin = some firstWrite ∧
    latest [secondWrite, firstWrite] ios = some secondWrite := by
  have hsame : SameIdentity firstWrite.config secondWrite.config := rfl
  have hother : ios ≠ darwin := by decide
  constructor
  · rw [latest_cons, if_neg (by simp [secondWrite, hother.symm])]
    dsimp only
    rw [if_pos hsame, latest_cons, if_pos (by simp [firstWrite])]
  · rw [latest_cons, if_pos (by simp [secondWrite])]

theorem latest_debug : latest [debugWrite, secondWrite, firstWrite] darwin = some debugWrite ∧
    latest [debugWrite, secondWrite, firstWrite] ios = none := by
  have hdiffers : ¬SameIdentity secondWrite.config debugWrite.config :=
    fun h => debugConfig_differs h.symm
  have hother : ios ≠ darwin := by decide
  constructor
  · rw [latest_cons, if_pos (by simp [debugWrite])]
  · rw [latest_cons, if_neg (by simp [debugWrite, hother])]
    dsimp only
    rw [if_neg hdiffers]

/-- What two release builds have recorded for one target each is verified for both; the debug build
of one of them leaves nothing of it. -/
theorem manifest_history_sample : ∃ released debugged,
    Run sampleSha256 sampleFiles released [secondWrite, firstWrite] ∧
    Run sampleSha256 sampleFiles debugged [debugWrite, secondWrite, firstWrite] ∧
    verifyArtifactManifest sampleSha256 released sampleConfig [darwin, ios] = .ok () ∧
    verifyArtifactManifest sampleSha256 debugged debugConfig [darwin] = .ok () ∧
    verifyArtifactManifest sampleSha256 debugged debugConfig [ios] ≠ .ok () ∧
    verifyArtifactManifest sampleSha256 debugged sampleConfig [darwin] ≠ .ok () := by
  obtain ⟨released, debugged, hfiles, hfiles', hrun, hrun'⟩ := sample_runs
  have hverify (config : OverlayConfig) (targets : List Target) :=
    (manifest_history sampleSha256 hrun).2 config targets
      (sampleSha256_injOn hfiles (by simp [firstWrite, secondWrite]))
  have hverify' (config : OverlayConfig) (targets : List Target) :=
    (manifest_history sampleSha256 hrun').2 config targets
      (sampleSha256_injOn hfiles' (by simp [firstWrite, secondWrite, debugWrite]))
  refine ⟨released, debugged, hrun, hrun', (hverify _ _).mpr ⟨_, _, rfl, rfl, ?_⟩,
    (hverify' _ _).mpr ⟨_, _, rfl, rfl, ?_⟩, fun hok => ?_, fun hok => ?_⟩
  · intro target htarget
    rcases List.mem_cons.mp htarget with rfl | htarget
    · exact ⟨firstWrite, latest_release.1, fun kind => by rw [hfiles]; rfl⟩
    · rw [List.mem_singleton.mp htarget]
      exact ⟨secondWrite, latest_release.2, fun kind => by rw [hfiles]; rfl⟩
  · intro target htarget
    rw [List.mem_singleton.mp htarget]
    exact ⟨debugWrite, latest_debug.1, fun kind => by rw [hfiles']; rfl⟩
  · obtain ⟨_, _, heq, -, hall⟩ := (hverify' _ _).mp hok
    obtain ⟨written, hlatest, -⟩ := hall ios List.mem_cons_self
    rw [latest_debug.2] at hlatest
    cases hlatest
  · obtain ⟨_, _, heq, hsame, -⟩ := (hverify' _ _).mp hok
    cases heq
    exact debugConfig_differs hsame.symm

end RgbLightningNode.Provenance
