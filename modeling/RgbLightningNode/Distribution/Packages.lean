import RgbLightningNode.Distribution.Config

/-!
# The packages of a distribution

What the wrapper and the packages with the native payloads have to hold before a byte of them is
copied.
-/

namespace RgbLightningNode.Distribution
open FileSystem Json Number
open Android (Failure fileText)
open Provenance (fail isText manifestMatchesIdentity parseManifest)

/-! ### Names -/

/-- `OWNER_NAME` -/
def ownerName : String := "@utexo/rgb-lightning-node-bare"

/-- `MANIFEST` -/
def manifestName : Name := ".utexo-native-overlay.json"

structure Payload where
  name : String
  directory : Path
  targets : List Name

/-- `PAYLOADS` -/
def payloads : List Payload := [
  ⟨ownerName ++ "-ios", ["native", "ios"],
    ["ios-arm64", "ios-arm64-simulator", "ios-x64-simulator"]⟩,
  ⟨ownerName ++ "-android-arm", ["native", "android-arm"], ["android-arm", "android-arm64"]⟩,
  ⟨ownerName ++ "-android-x64", ["native", "android-x64"], ["android-x64"]⟩]

/-- `PAYLOAD_TARGETS` -/
def payloadTargets : List Name := payloads.flatMap Payload.targets

/-- `WRAPPER_TARGETS` -/
def wrapperTargets : List Name := ["darwin-arm64"]

def addonFile : Name := "utexo__rgb-lightning-node-bare.bare"

def prebuildDirectory (root : Path) (target : Name) : Path := root ++ ["prebuilds", target]

/-- `artifactPaths(root, target).prebuild` -/
def prebuildFile (root : Path) (target : Name) : Path := root ++ ["prebuilds", target, addonFile]

/-! ### Paths -/

def regularFile (p : Path) (t : Tree) : Except Failure Unit :=
  match t.node p with
  | none => .error (.system "lstat")
  | some n => require n.isFile ("Native distribution contains a non-regular file: " ++ fileText p)

def directory (p : Path) (allowMissing : Bool) (t : Tree) : Except Failure Unit :=
  match t.node p with
  | some (.dir _) => .ok ()
  | none =>
    require allowMissing ("Native distribution contains a non-directory path: " ++ fileText p)
  | some _ =>
    .error (.message ("Native distribution contains a non-directory path: " ++ fileText p))

def prebuildPath (root : Path) (target : Name) (allowMissing : Bool) (t : Tree) :
    Except Failure Unit := do
  directory (root ++ ["prebuilds"]) allowMissing t
  directory (prebuildDirectory root target) allowMissing t
  if !allowMissing || (t.node (prebuildFile root target)).isSome then
    regularFile (prebuildFile root target) t
  else return ()

section Host

variable (host : Host)

/-! ### Packed prebuilds -/

/-- What a manifest with these contents says, if it can be read. -/
def manifestOf (contents : Option Bytes) : Except Failure (Option (Value Double)) :=
  match parseManifest (contents.map host.decode) with
  | .ok manifest => .ok (some manifest.built)
  | .error message => .error (.message message)

/-- Nothing without a manifest. -/
def readManifest (root : Path) (t : Tree) : Except Failure (Option (Value Double)) :=
  if existsSync host t (root ++ [manifestName]) then
    manifestOf host (readFileSync host t (root ++ [manifestName])).toOption
  else .ok none

/-- What a manifest has for the prebuild of a target. -/
def recordedHash (manifest : Option (Value Double)) (target : Name) : Option (Value Double) :=
  fieldOf (fieldOf (fieldOf manifest (units "artifacts")) (units target)) (units "prebuildSha256")

/-- The bytes are there, and the manifest has their hash. -/
def Recorded (manifest : Option (Value Double)) (target : Name) (bytes : Bytes) : Prop :=
  bytes ≠ [] ∧ isText (recordedHash manifest target) (units (host.sha256 bytes)) = true

instance decidableRecorded (manifest : Option (Value Double)) (target : Name) (bytes : Bytes) :
    Decidable (Recorded host manifest target bytes) :=
  inferInstanceAs (Decidable (_ ∧ _))

def verifyPrebuild (root : Path) (manifest : Option (Value Double)) (target : Name) (t : Tree) :
    Except Failure Unit := do
  let message := fail ("packed prebuild hash does not match for " ++ target)
  require (existsSync host t (prebuildFile root target)) message
  let bytes ← readFileSync host t (prebuildFile root target)
  require (Recorded host manifest target bytes) message

/-- The manifest is that of the configuration. -/
def verifyIdentity (config : Option Config) (manifest : Option (Value Double)) :
    Except Failure Unit :=
  match config with
  | some config => require (manifestMatchesIdentity manifest config.overlay)
      (fail "packed prebuild identity does not match")
  | none =>
    if falsy manifest then .error (.message (fail "packed prebuild identity does not match"))
    else .error (.system "TypeError")

def verifyPackedPrebuilds (root : Path) (config : Option Config) (targets : List Name) (t : Tree) :
    Except Failure Unit := do
  let manifest ← readManifest host root t
  verifyIdentity config manifest
  targets.forM fun target => verifyPrebuild host root manifest target t

/-! ### The owner and its payloads -/

/-- `^\d+\.\d+\.\d+(?:-[0-9A-Za-z.-]+)?$` -/
def isPackageVersion (cs : List Char) : Bool :=
  isDotted 3 (cs.takeWhile (· ≠ '-')) && match cs.dropWhile (· ≠ '-') with
    | [] => true
    | _ :: label => !label.isEmpty && label.all fun c => c.isAlphanum || c = '.' || c = '-'

/-- A text that is read as an object. -/
def readPackage (root : Path) (t : Tree) : Except Failure (Value Double) := do
  regularFile (root ++ ["package.json"]) t
  let package ← readJson host t (root ++ ["package.json"])
  match package with
  | .null => .error (.system "TypeError")
  | package => return package

/-- The payload is a required dependency in exactly this version, and no other kind of one. -/
def requires (owner : Value Double) (version : Units) (payload : Payload) : Bool :=
  isText (fieldOf (fieldOf (some owner) (units "dependencies")) (units payload.name)) version &&
    ["optionalDependencies", "peerDependencies", "devDependencies"].all fun key =>
      (fieldOf (fieldOf (some owner) (units key)) (units payload.name)).isNone

/-- The version of an owner whose payloads are as they have to be. -/
def ownerVersion (owner : Value Double) : Option Units :=
  match fieldOf (some owner) (units "version") with
  | some (.string version) =>
    if isText (fieldOf (some owner) (units "name")) (units ownerName) = true ∧
        (decodeUtf16 version).any isPackageVersion = true ∧
        payloads.all (requires owner version) = true then some version
    else none
  | _ => none

/-- The owner, with its version. -/
def ownerMetadata (root : Path) (t : Tree) : Except Failure (Value Double × Units) := do
  let owner ← readPackage host root t
  match ownerVersion owner with
  | some version => return (owner, version)
  | none => .error (.message "Native payloads must be required exact-version dependencies")

def forbiddenFields : List String := ["scripts", "dependencies", "devDependencies",
  "optionalDependencies", "peerDependencies", "peerDependenciesMeta", "bundledDependencies",
  "bundleDependencies", "bin", "addon", "main", "os", "cpu", "libc", "workspaces"]

def deepEqualField : Option (Value Double) → Option (Value Double) → Bool
  | none, none => true
  | some v, some v' => v.deepEqual v'
  | _, _ => false

/-- `{ schemaVersion: 1, owner: OWNER_NAME, targets: [...descriptor.targets] }` -/
def payloadIdentity (payload : Payload) : Value Double := .object [
  (units "schemaVersion", .number (.natural 1)), (units "owner", .string (units ownerName)),
  (units "targets", .array (payload.targets.map fun target => .string (units target)))]

def payloadExports : Value Double :=
  .object [(units "./package.json", .string (units "./package.json"))]

/-- What the package of a payload says of itself. -/
def hasIdentity (package : Value Double) (version : Units) (payload : Payload) : Bool :=
  let field (key : String) := fieldOf (some package) (units key)
  isText (field "name") (units payload.name) && isText (field "version") version &&
    deepEqualField (field "utexoNativePayload") (some (payloadIdentity payload)) &&
    forbiddenFields.all (fun key => (field key).isNone) &&
    deepEqualField (field "exports") (some payloadExports)

def payloadMetadata (root payloadRoot : Path) (payload : Payload) (t : Tree) :
    Except Failure Unit := do
  let (owner, version) ← ownerMetadata host root t
  let package ← readPackage host payloadRoot t
  require (hasIdentity package version payload)
    ("Unexpected native payload package identity or execution policy: " ++ payload.name)
  require (deepEqualField (fieldOf (some package) (units "utexoNativeOverlay"))
      (fieldOf (some owner) (units "utexoNativeOverlay")))
    ("Native payload release graph does not match the owner: " ++ payload.name)

/-- The file of a payload is that of the owner, byte for byte. -/
def sameFile (root payloadRoot : Path) (payload : Payload) (file : Name) (kind : String)
    (t : Tree) : Except Failure Unit := do
  regularFile (root ++ [file]) t
  regularFile (payloadRoot ++ [file]) t
  let ours ← readFileSync host t (root ++ [file])
  let theirs ← readFileSync host t (payloadRoot ++ [file])
  require (ours = theirs)
    ("Native payload " ++ kind ++ " does not match the owner: " ++ payload.name)

def validatePayload (root payloadRoot : Path) (config : Option Config) (payload : Payload)
    (t : Tree) : Except Failure Unit := do
  payloadMetadata host root payloadRoot payload t
  sameFile host root payloadRoot payload manifestName "provenance" t
  sameFile host root payloadRoot payload runtimeContractName "runtime contract" t
  payload.targets.forM fun target => prebuildPath payloadRoot target false t
  verifyPackedPrebuilds host payloadRoot config payload.targets t

/-- A payload with the directory in which it is installed. -/
structure Source where
  payload : Payload
  root : Path

def resolvePayload (root : Path) (payload : Payload) : Except Failure Source :=
  match host.modules root payload.name with
  | some payloadRoot => .ok ⟨payload, payloadRoot⟩
  | none => .error (.message ("Required native prebuild package is missing: " ++ payload.name ++
      "; reinstall dependencies and run npm run hydrate-native"))

/-- The part of `hydrateDistribution` before its first write. -/
def accept (root : Path) (t : Tree) : Except Failure (Config × List Source) := do
  let config ← readOverlayConfig host root t
  let _ ← ownerMetadata host root t
  let sources ← payloads.mapM (resolvePayload host root)
  sources.forM fun source => validatePayload host root source.root config source.payload t
  wrapperTargets.forM fun target => prebuildPath root target false t
  verifyPackedPrebuilds host root config wrapperTargets t
  payloadTargets.forM fun target => prebuildPath root target true t
  match config with
  | some config => return (config, sources)
  | none => .error (.system "TypeError")

end Host

end RgbLightningNode.Distribution
