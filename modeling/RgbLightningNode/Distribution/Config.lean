import RgbLightningNode.Android.StageCopies
import RgbLightningNode.FileSystem.Reads
import RgbLightningNode.Json.Objects
import RgbLightningNode.Provenance.Adapter
import RgbLightningNode.Provenance.Fingerprint
import RgbLightningNode.Provenance.Manifest

/-!
# The configuration of a package

What a package says about its native artifacts, read from its tree and checked field by field. The
checks change nothing, so each is a function of the tree.
-/

namespace RgbLightningNode.Distribution
open FileSystem Json Number
open Android (Failure fileText)
open Provenance (OverlayConfig fail hashFile isText release validateAdapter wrapperFiles
  wrapperSha256)

/-! ### What is read -/

/-- What a run finds outside of the tree of files. -/
structure Host where
  sha256 : Bytes → String
  /-- The text of a file that is read as UTF-8. -/
  decode : Bytes → Units
  /-- The contents that a link leads to. No run writes them. -/
  behind : Path → Option Bytes
  /-- Where a package is installed, as it is resolved from a directory. -/
  modules : Path → String → Option Path
  /-- `RLN_BARE_DEBUG` asks for the debug profile. -/
  debug : Bool

def require (condition : Bool) (message : String) : Except Failure Unit :=
  if condition then .ok () else .error (.message message)

@[simp] theorem require_eq_ok {condition : Bool} {message : String} {u : Unit} :
    require condition message = .ok u ↔ condition = true := by
  cases condition <;> simp [require]

theorem require_of {condition : Bool} {message : String} (h : condition = true) :
    require condition message = .ok () := require_eq_ok.mpr h

section Reads

variable (host : Host) (t : Tree)

def readFileSync (p : Path) : Except Failure Bytes :=
  match t.node p with
  | some (.file bytes _) => .ok bytes
  | some .symlink => match host.behind p with
    | some bytes => .ok bytes
    | none => .error (.system "open")
  | _ => .error (.system "open")

def existsSync (p : Path) : Bool :=
  match t.node p with
  | none => false
  | some .symlink => (host.behind p).isSome
  | some _ => true

/-- `JSON.parse(fs.readFileSync(file, 'utf8'))` -/
def readJson (p : Path) : Except Failure (Value Double) := do
  let bytes ← readFileSync host t p
  match parse (host.decode bytes) with
  | some v => return v
  | none => .error (.system "JSON.parse")

/-- `contract.wrapperSha256(root, files)`, which reads every file. -/
def hashWrapper (root : Path) (files : List Path) : Except Failure String := do
  let contents ← files.mapM fun file => do
    let bytes ← readFileSync host t (root ++ file)
    return ("/".intercalate file, bytes)
  return wrapperSha256 host.sha256 (contents.map Prod.fst) fun file =>
    (contents.lookup file).getD []

end Reads

/-! ### Texts -/

def isNumber (cs : List Char) : Bool := !cs.isEmpty && cs.all Char.isDigit

/-- As many numbers as `count`, with dots between them. -/
def isDotted (count : ℕ) (cs : List Char) : Bool :=
  (cs.splitOn '.').length = count && (cs.splitOn '.').all isNumber

def isLowerHex (count : ℕ) (cs : List Char) : Bool :=
  cs.length = count && cs.all fun c => c.isDigit || ('a' ≤ c && c ≤ 'f')

/-- `^v[0-9]+\.[0-9]+\.[0-9]+-beta\.[0-9]+$` -/
def isBetaTag : List Char → Bool
  | 'v' :: rest => match rest.splitOn '-' with
    | [version, beta] => isDotted 3 version && match beta.splitOn '.' with
      | [word, number] => word = "beta".toList && isNumber number
      | _ => false
    | _ => false
  | _ => false

/-- `^patches\/[0-9A-Za-z._-]+\.patch$` -/
def isPatchPath (cs : List Char) : Bool :=
  match cs.splitOn '/' with
  | [directory, file] => directory = "patches".toList && ".patch".toList.length < file.length &&
    ".patch".toList.isSuffixOf file && file.all fun c =>
      c.isAlphanum || c = '.' || c = '_' || c = '-'
  | _ => false

mutual

/-- The string that an expression is tested against. -/
def stringOf : Value Double → Units
  | .null => units "null"
  | .bool b => units (if b then "true" else "false")
  | .number n => match n.toToken with
    | some token => tokenText token
    | none => units "Infinity"
  | .string s => s
  | .array items => joined items
  | .object _ => units "[object Object]"

/-- `items.join(',')` -/
def joined : List (Value Double) → Units
  | [] => []
  | [.null] => []
  | [v] => stringOf v
  | .null :: rest => 0x2C :: joined rest
  | v :: rest => stringOf v ++ 0x2C :: joined rest

end

def tests (test : List Char → Bool) (v : Option (Value Double)) : Bool :=
  ((v.map stringOf).bind decodeUtf16).any test

/-- A string of characters. -/
def asText : Value Double → Option (List Char)
  | .string s => decodeUtf16 s
  | _ => none

/-! ### The checks -/

def supportedTargets : List Name := ["darwin-arm64", "darwin-x64", "ios-arm64",
  "ios-arm64-simulator", "ios-x64-simulator", "android-arm64", "android-arm", "android-x64"]

/-- A configuration as it is used: what it has for the identity of the artifacts, and its
targets. -/
structure Config where
  overlay : OverlayConfig
  targets : List Name

/-- The fields of a configuration, each of which may be absent. -/
abbrev Fields := String → Option (Value Double)

def configFields : List String := ["repository", "ref", "commit", "patch", "patchSha256",
  "rustToolchain", "iosDeploymentTarget", "androidNdkVersion", "androidApiLevel", "cargoNdkVersion",
  "bindgenCliVersion", "targets"]

def checkField (condition : Bool) (message : String) : Except Failure Unit :=
  require condition (fail ("utexoNativeOverlay." ++ message))

def isApiLevel : Option (Value Double) → Bool
  | some (.number n) => n.isInteger && (Double.natural 21).le n
  | _ => false

/-- `config.ref === config.commit` -/
def samePin (field : Fields) : Bool :=
  match field "ref", field "commit" with
  | some r, some c => r.strictEqual c
  | _, _ => false

def checkTexts (field : Fields) : Except Failure Unit := do
  checkField (tests (· = "https://github.com/UTEXO-Protocol/rgb-lightning-node.git".toList)
    (field "repository")) "repository is not approved"
  checkField (tests isBetaTag (field "ref") || samePin field)
    "ref must be an exact beta tag or the pinned commit"
  checkField (tests (isLowerHex 40) (field "commit")) "commit must be a full Git commit"
  checkField (tests isPatchPath (field "patch")) "patch must be a package-local patch"
  checkField (tests (isLowerHex 64) (field "patchSha256")) "patchSha256 must be a SHA-256 digest"
  checkField (tests (isDotted 3) (field "rustToolchain"))
    "rustToolchain must be an exact toolchain version"
  checkField (tests (isDotted 2) (field "iosDeploymentTarget"))
    "iosDeploymentTarget must be an exact iOS version"
  checkField (tests (isDotted 3) (field "androidNdkVersion"))
    "androidNdkVersion must be an exact SDK NDK revision"
  checkField (isApiLevel (field "androidApiLevel"))
    "androidApiLevel must be an Android API integer of at least 21"
  checkField
    (tests (isDotted 3) (field "cargoNdkVersion")) "cargoNdkVersion must be an exact version"
  checkField (tests (isDotted 3) (field "bindgenCliVersion"))
    "bindgenCliVersion must be an exact version"

/-- The targets, each of them supported and listed once. -/
def configTargets (v : Option (Value Double)) : Except Failure (List Name) :=
  match v with
  | some (.array (item :: items)) =>
    match (item :: items).mapM fun item => (asText item).map String.ofList with
    | some targets =>
      if targets.Nodup ∧ targets ⊆ supportedTargets then .ok targets
      else .error (.message (fail
        "utexoNativeOverlay.targets contains a duplicate or unsupported target"))
    | none => .error (.message (fail
        "utexoNativeOverlay.targets contains a duplicate or unsupported target"))
  | _ => .error (.message (fail "utexoNativeOverlay.targets must be a non-empty array"))

/-- `path.resolve(packageRoot, config.patch)`, of a patch that passed its check -/
def patchPath (root : Path) (field : Fields) : Except Failure Path :=
  match (field "patch").bind asText with
  | some cs => .ok (root ++ (cs.splitOn '/').map String.ofList)
  | none => .error (.system "path.resolve")

/-- `runtimeIdentity`, without what is `undefined` -/
def runtimeIdentity (field : Fields) (wrapper : String) : Value Double :=
  .object (definedMembers [
    ("abi_version", some (.number (.natural 1))),
    ("rln_version", field "rlnVersion"),
    ("rln_commit", field "commit"),
    ("lightning_commit", field "lightningCommit"),
    ("adapter_sha256", field "patchSha256"),
    ("wrapper_sha256", some (.string (units wrapper))),
    ("lock_sha256", field "cffiLockSha256")])

def runtimeContractName : Name := "runtime-contract.json"

def recipeFiles : List Path :=
  [["scripts", "native-overlay.js"], ["scripts", "build-cffi.sh"],
    ["scripts", "build-prebuilds.sh"]]

section Checks

variable (host : Host)

def verifyRuntimeContract (root : Path) (field : Fields) (t : Tree) : Except Failure String := do
  let wrapper ← hashWrapper host t root (wrapperFiles.map fun file => [file])
  let actual ← readJson host t (root ++ [runtimeContractName])
  require (jsonStringify (some actual) = jsonStringify (some (runtimeIdentity field wrapper)))
    ("Runtime contract is stale; regenerate with node scripts/runtime-contract.js " ++
      "and review before building")
  return wrapper

/-- The adapter that the configuration names, as it is checked against the release. -/
def verifyAdapter (field : Fields) (patch : Path) (t : Tree) : Except Failure Unit := do
  let bytes ← readFileSync host t patch
  let text (key : String) := ((field key).bind asText).map String.ofList
  let fields := release.filterMap fun entry => (text entry.1).map (entry.1, ·)
  let patch := (decodeUtf16 (host.decode bytes)).getD []
  match validateAdapter ⟨fields, (text "patchSha256").getD "", patch, host.sha256 bytes⟩ with
  | .ok _ => return ()
  | .error message => .error (.message message)

/-- The configuration with what is added to it. -/
def complete (field : Fields) (targets : List Name) (wrapper recipe : String) : Config where
  overlay := {
    repository := field "repository"
    ref := field "ref"
    commit := field "commit"
    lightningCommit := field "lightningCommit"
    patchSha256 := field "patchSha256"
    cffiLockSha256 := field "cffiLockSha256"
    wrapperSha256 := some (.string (units wrapper))
    prebuildRecipeSha256 := some (.string (units recipe))
    rustToolchain := field "rustToolchain"
    buildProfile := some (.string (units (if host.debug then "debug" else "release")))
    iosDeploymentTarget := field "iosDeploymentTarget"
    androidNdkVersion := field "androidNdkVersion"
    androidApiLevel := field "androidApiLevel"
    cargoNdkVersion := field "cargoNdkVersion"
    bindgenCliVersion := field "bindgenCliVersion"
    bareHeadersVersion := field "bareHeadersVersion"
    targets := targets.map fun target => .string (units target) }
  targets

/-- The part of `readOverlayConfig` that looks at the other files of the package. -/
def verifyConfig (root : Path) (field : Fields) (targets : List Name) (patch : Path) (t : Tree) :
    Except Failure Config := do
  require ((root ++ ["patches"]).isPrefixOf patch && existsSync host t patch)
    (fail "utexoNativeOverlay.patch does not resolve to a package patch")
  let digest ← hashFile host.sha256 (readFileSync host t patch)
  require (isText (field "patchSha256") (units digest))
    (fail "native overlay patch checksum does not match package metadata")
  verifyAdapter host field patch t
  let wrapper ← verifyRuntimeContract host root field t
  let recipe ← hashWrapper host t root recipeFiles
  return complete host field targets wrapper recipe

/-- The object under `utexoNativeOverlay`. A package without one has no configuration. -/
def overlayFields : Value Double → Except Failure (Option Fields)
  | .null => .error (.system "TypeError")
  | package => match fieldOf (some package) (units "utexoNativeOverlay") with
    | none => .ok none
    | some (.object members) =>
      let field : Fields := fun key => getMember members (units key)
      match configFields.find? fun key => (field key).isNone with
      | some key => .error (.message (fail ("utexoNativeOverlay." ++ key ++ " is required")))
      | none => .ok (some field)
    | some _ => .error (.message (fail "utexoNativeOverlay must be an object"))

def readOverlayConfig (root : Path) (t : Tree) : Except Failure (Option Config) := do
  let package ← readJson host t (root ++ ["package.json"])
  match ← overlayFields package with
  | none => return none
  | some field => do
    checkTexts field
    let targets ← configTargets (field "targets")
    let patch ← patchPath root field
    some <$> verifyConfig host root field targets patch t

end Checks

/-! ### What has been read is read again -/

section Kept

variable {host : Host} {S : Set Path} {t u : Tree} {root p : Path}

theorem readFileSync_stays (h : t.KeptOff S u) (hp : p ∉ S) :
    Stays t u (readFileSync host · p) := by
  intro bytes hread
  change readFileSync host t p = .ok bytes at hread
  change readFileSync host u p = .ok bytes
  unfold readFileSync at hread ⊢
  have hnode : t.node p ≠ none := by
    intro hnone
    rw [hnone] at hread
    cases hread
  rwa [h p hp hnode]

theorem existsSync_stays (h : t.KeptOff S u) (hp : p ∉ S) (hexists : existsSync host t p = true) :
    existsSync host u p = true := by
  unfold existsSync at hexists ⊢
  have hnode : t.node p ≠ none := by
    intro hnone
    rw [hnone] at hexists
    cases hexists
  rwa [h p hp hnode]

theorem readJson_stays (h : t.KeptOff S u) (hp : p ∉ S) : Stays t u (readJson host · p) :=
  stays_bind (readFileSync_stays h hp) fun _ _ => stays_const _

theorem hashFile_stays (h : t.KeptOff S u) (hp : p ∉ S) :
    Stays t u fun t => hashFile host.sha256 (readFileSync host t p) :=
  stays_bind (readFileSync_stays h hp) fun _ _ => stays_const _

theorem hashWrapper_stays (h : t.KeptOff S u) {files : List Path}
    (hfiles : ∀ file ∈ files, root ++ file ∉ S) : Stays t u (hashWrapper host · root files) := by
  refine stays_bind (stays_mapM fun file hfile => ?_) fun _ _ => stays_const _
  exact stays_bind (readFileSync_stays h (hfiles file hfile)) fun _ _ => stays_const _

/-- A place that is not below the prebuilds of the package. -/
theorem notMem_of_below {name : Name} {rest : Path}
    (hbelow : ∀ q ∈ S, root ++ ["prebuilds"] <+: q) (hname : name ≠ "prebuilds") :
    root ++ name :: rest ∉ S := by
  intro hmem
  have hpre := hbelow _ hmem
  rw [List.prefix_append_right_inj, List.cons_prefix_cons] at hpre
  exact hname hpre.1.symm

theorem verifyConfig_stays (h : t.KeptOff S u) (hbelow : ∀ q ∈ S, root ++ ["prebuilds"] <+: q)
    (field : Fields) (targets : List Name) (patch : Path) :
    Stays t u (verifyConfig host root field targets patch) := by
  intro config hconfig
  have hresolved : (root ++ ["patches"]).isPrefixOf patch = true ∧
      existsSync host t patch = true := by
    by_contra hnot
    rw [← Bool.and_eq_true, Bool.not_eq_true] at hnot
    unfold verifyConfig at hconfig
    rw [hnot] at hconfig
    cases hconfig
  have hpatch : patch ∉ S := by
    obtain ⟨rest, rfl⟩ := List.isPrefixOf_iff_prefix.mp hresolved.1
    rw [List.append_assoc]
    exact notMem_of_below hbelow (by decide)
  have hwrapper : ∀ file ∈ wrapperFiles.map fun file => [file], root ++ file ∉ S := by
    intro file hfile
    obtain ⟨name, hname, rfl⟩ := List.mem_map.mp hfile
    refine notMem_of_below hbelow ?_
    rintro rfl
    revert hname
    decide
  have hrecipe : ∀ file ∈ recipeFiles, root ++ file ∉ S := by
    intro file hfile
    have hscripts : ∃ name, file = ["scripts", name] := by
      simp only [recipeFiles, List.mem_cons, List.not_mem_nil, or_false] at hfile
      rcases hfile with rfl | rfl | rfl <;> exact ⟨_, rfl⟩
    obtain ⟨name, rfl⟩ := hscripts
    exact notMem_of_below hbelow (by decide)
  have hstays : Stays t u fun t => do
      let digest ← hashFile host.sha256 (readFileSync host t patch)
      require (isText (field "patchSha256") (units digest))
        (fail "native overlay patch checksum does not match package metadata")
      verifyAdapter host field patch t
      let wrapper ← verifyRuntimeContract host root field t
      let recipe ← hashWrapper host t root recipeFiles
      return complete host field targets wrapper recipe := by
    refine stays_bind (hashFile_stays h hpatch) fun digest _ => ?_
    refine stays_bind (stays_const _) fun _ _ => ?_
    refine stays_bind (stays_bind (readFileSync_stays h hpatch) fun _ _ =>
      stays_const _) fun _ _ => ?_
    refine stays_bind ?_ fun wrapper _ => ?_
    · refine stays_bind (hashWrapper_stays h hwrapper) fun _ _ => ?_
      exact stays_bind (readJson_stays h (notMem_of_below hbelow (by decide))) fun _ _ =>
        stays_const _
    exact stays_bind (hashWrapper_stays h hrecipe) fun _ _ => stays_const _
  unfold verifyConfig at hconfig ⊢
  rw [hresolved.1, hresolved.2] at hconfig
  rw [hresolved.1, existsSync_stays h hpatch hresolved.2]
  exact hstays config hconfig

theorem readOverlayConfig_stays (h : t.KeptOff S u)
    (hbelow : ∀ q ∈ S, root ++ ["prebuilds"] <+: q) : Stays t u (readOverlayConfig host root) := by
  refine stays_bind (readJson_stays h (notMem_of_below hbelow (by decide))) fun package _ => ?_
  refine stays_bind (stays_const _) fun fields _ => ?_
  cases fields with
  | none => exact stays_const _
  | some field =>
    refine stays_bind (stays_const _) fun _ _ => ?_
    refine stays_bind (stays_const _) fun targets _ => ?_
    refine stays_bind (stays_const _) fun patch _ => ?_
    exact stays_bind (verifyConfig_stays h hbelow field targets patch) fun _ _ => stays_const _

end Kept

end RgbLightningNode.Distribution
