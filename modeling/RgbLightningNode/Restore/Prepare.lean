import RgbLightningNode.Restore.Receipt

/-!
# The preparation of a restore

`prepare` reads the remote archive into a staging directory beside the wallet directory, writes the
receipt and the restore marker there, and moves the whole into place with one rename that replaces
nothing. The staging directory goes away when the call returns; a crash leaves it behind.
-/

namespace RgbLightningNode.Restore
open Faulty FileSystem Text

/-! ### The node's configuration -/

/-- The persisted descriptor of an external signer. -/
structure KeySource where
  mode : String
  masterFingerprint : String
  nodeId : String
  accountXpubVanilla : String
  accountXpubColored : String

def keySourcePath (base : Path) : Path := base ++ ["key_source.json"]

/-- The upstream reader of the descriptor and the parsers of its texts. The reader writes nothing
and looks at the descriptor's file only, without which it finds no descriptor. -/
structure SignerCrate where
  readKeySourceFile : Tree → Path → Option (Option KeySource)
  externalSignerMode : String
  parsePublicKey : String → Bool
  parseXpub : String → Bool
  deriveVssIdentity : KeySource → Except APIError Unit
  publicKey_text : ∀ s, parsePublicKey s = true → keyText s = true
  readKeySourceFile_congr : ∀ t t' base,
    t'.node (keySourcePath base) = t.node (keySourcePath base) →
    readKeySourceFile t' base = readKeySourceFile t base
  readKeySourceFile_absent : ∀ t base,
    t.node (keySourcePath base) = none → readKeySourceFile t base = some none

/-- The static state that a restore reads. The network is the lower-case name of the configured
one. -/
structure StaticState where
  vssUrl : Option String
  storageDirPath : Path
  network : String

variable {crates : Crates} (signer : SignerCrate) (configured : StaticState)

def ofExcept {α : Type} : Except APIError α → Proc Tree APIError α
  | .ok a => return a
  | .error failure => .throw failure

/-- The context of a descriptor whose texts all parse. -/
def Context.fromSource (base : Path) (endpoint : String) (source : KeySource) :
    Except APIError (Context crates) :=
  if h : (source.mode == signer.externalSignerMode && validFp source.masterFingerprint &&
      signer.parsePublicKey source.nodeId && signer.parseXpub source.accountXpubVanilla &&
      signer.parseXpub source.accountXpubColored) = true then
    match signer.deriveVssIdentity source with
    | .error failure => .error failure
    | .ok _ => .ok {
        base
        network := configured.network
        nodeId := source.nodeId
        fp := source.masterFingerprint
        vanilla := source.accountXpubVanilla
        colored := source.accountXpubColored
        endpoint
        endpointHash := crates.digest (utf8 endpoint)
        targetHash := crates.digest (encodeUtf8 (pathText (base ++ [source.masterFingerprint])))
        fp_valid := by simp_all
        nodeId_text := signer.publicKey_text _ (by simp_all)
        endpointHash_eq := rfl
        targetHash_eq := rfl }
  else .error (error "VSS_RESTORE_INVALID_IDENTITY")

/-- The descriptor, or none. A file that cannot be read or parsed is an error. -/
def readKeySourceFile (base : Path) : Proc Tree APIError (Option KeySource) :=
  .primitive (error "VSS_RESTORE_INVALID_IDENTITY") fun _ t =>
    match signer.readKeySourceFile t base with
    | some found => (.ok found, t)
    | none => (.error (error "VSS_RESTORE_INVALID_IDENTITY"), t)

/-- Paths of the tree are canonical. -/
def canonicalize (p : Path) : Io Path := .primitive .other fun _ t => (.ok p, t)

def Context.new : Proc Tree APIError (Context crates) :=
  match configured.vssUrl with
  | none => .throw (error "VSS_RESTORE_NOT_CONFIGURED")
  | some endpoint => do
    let metadata ← orError "VSS_RESTORE_INVALID_TARGET" (symlinkMetadata configured.storageDirPath)
    if !metadata.isDir then .throw (error "VSS_RESTORE_INVALID_TARGET")
    else do
      let base ← orError "VSS_RESTORE_INVALID_TARGET" (canonicalize configured.storageDirPath)
      match ← readKeySourceFile signer base with
      | none => .throw (error "VSS_RESTORE_EXTERNAL_SIGNER_REQUIRED")
      | some source => ofExcept (Context.fromSource signer configured base endpoint source)

/-! ### The environment -/

/-- The answers of the remote store. Any of them may differ from one call to the next. -/
structure Remote where
  version : ℕ → Option Int64
  download : ℕ → Bytes

variable (remote : Remote)

def getBackupVersion : Proc Tree APIError (Option Int64) :=
  .primitive (error "VSS_RESTORE_REMOTE_READ_FAILED") fun n t => (.ok (remote.version n), t)

def downloadBackup : Proc Tree APIError Bytes :=
  .primitive (error "VSS_RESTORE_DOWNLOAD_FAILED") fun n t => (.ok (remote.download n), t)

def newClient : Proc Tree APIError Unit :=
  .primitive (error "VSS_RESTORE_REMOTE_READ_FAILED") fun _ t => (.ok (), t)

/-- The node is neither cancelled nor changing its state. -/
def checkState : Proc Tree APIError Unit :=
  .primitive (error "VSS_RESTORE_NODE_UNAVAILABLE") fun _ t => (.ok (), t)

def requireLocked : Proc Tree APIError Unit :=
  .primitive (error "VSS_RESTORE_REQUIRES_LOCKED") fun _ t => (.ok (), t)

/-! ### Directories and temporary names -/

/-- The names in a directory. -/
def children (t : Tree) (p : Path) : List Name :=
  (t.names.filter fun q => decide (q ≠ [] ∧ q.dropLast = p) && (t.node q).isSome).filterMap
    List.getLast?

def readDir (p : Path) : Io (List Name) := .primitive .other fun _ t => (.ok (children t p), t)

/-- Reading the next entry of an open directory. -/
def nextEntry : Io Unit := .primitive .other fun _ t => (.ok (), t)

def tempName (stem : String) (suffix : ℕ) : Name := stem ++ toString suffix

/-- Something is at the path or below it. -/
def taken (t : Tree) (p : Path) : Bool := t.names.any fun q => p.isPrefixOf q && (t.node q).isSome

/-- The first free name from a random one on. -/
def freeName (t : Tree) (base : Path) (stem : String) (n : ℕ) : Name :=
  tempName stem ((((List.range (t.names.length + 1)).map (n + ·)).find? fun k =>
    !taken t (base ++ [tempName stem k])).getD n)

/-- Exclusive creation of a node under a random name. -/
def createTemp (base : Path) (stem : String) (node : Node) : Proc Tree APIError Path :=
  .primitive (error "VSS_RESTORE_LOCAL_WRITE_FAILED") fun n t =>
    let p := base ++ [freeName t base stem n]
    if taken t p || !t.hasParent p then (.error (error "VSS_RESTORE_LOCAL_WRITE_FAILED"), t)
    else (.ok p, t.put p node)

def tempdirIn (base : Path) : Proc Tree APIError Path :=
  createTemp base ".vss-restore-" (.dir (ownedAttr 0o700))

def tempfileIn (base : Path) : Proc Tree APIError Path :=
  createTemp base ".vss-receipt-key-" (.file [] (ownedAttr 0o600))

/-- Some nodes go away. -/
def eraseSome (t : Tree) (gone : List Path) : Tree where
  node q := if q ∈ gone then none else t.node q
  names := t.names
  complete q := by
    by_cases h : q ∈ gone
    · simp [h]
    · simpa [h] using t.complete q

theorem eraseSome_off {t : Tree} {gone : List Path} {S : Set Path} (h : ∀ q ∈ gone, q ∈ S) :
    t.AgreeOff S (eraseSome t gone) :=
  fun q hq => if_neg fun hmem => hq (h q hmem)

/-- The paths from `p` on, of which some may have gone already. -/
def pathsBelow (t : Tree) (p : Path) : List Path := t.names.filter fun q => p.isPrefixOf q

theorem mem_pathsBelow {t : Tree} {p q : Path} :
    q ∈ pathsBelow t p ↔ q ∈ t.names ∧ p <+: q := by
  rw [pathsBelow, List.mem_filter, List.isPrefixOf_iff_prefix]

/-- Any choice of these paths, each of which goes after all that is below it. -/
def goneBelow (below : List Path) (choice : ℕ) : List Path :=
  below.filter fun q => below.all fun r => !q.isPrefixOf r || choice.testBit (below.idxOf r)

/-- Removal of a directory with everything below it, in any order, which may stop half-way. -/
def removeDirAll (p : Path) : Io Unit :=
  .step fun d t =>
    match d.fate with
    | .proceed => (.ok (), eraseSome t (pathsBelow t p))
    | .refuse | .panic => (.error .other, eraseSome t (goneBelow (pathsBelow t p) d.datum))
    | .die => (.died, eraseSome t (goneBelow (pathsBelow t p) d.datum))

theorem pathsBelow_off (t : Tree) (p : Path) :
    t.AgreeOff {q | p <+: q} (eraseSome t (pathsBelow t p)) :=
  eraseSome_off fun _ hq => (mem_pathsBelow.mp hq).2

theorem goneBelow_off (t : Tree) (p : Path) (choice : ℕ) :
    t.AgreeOff {q | p <+: q} (eraseSome t (goneBelow (pathsBelow t p) choice)) :=
  eraseSome_off fun _ hq => (mem_pathsBelow.mp (List.mem_filter.mp hq).1).2

/-- A step of a destructor, whose error is ignored. -/
def discard (m : Io Unit) : Proc Tree APIError PUnit := do
  let _ ← .attempt (ε := IoError) m
  return ⟨⟩

def metadataOk (p : Path) : Proc Tree APIError Bool := do
  let found ← .attempt (ε := IoError) (symlinkMetadata p)
  return found.isOk

/-- The atomic rename that replaces nothing. -/
def promote (source target : Path) : Proc Tree APIError Unit :=
  .primitive (error "VSS_RESTORE_TARGET_CONFLICT") fun _ t =>
    if (t.node source).isNone || (t.node target).isSome || !t.hasParent target then
      (.error (error "VSS_RESTORE_TARGET_CONFLICT"), t)
    else (.ok (), t.move source target)

/-- Writing a whole file: creation or truncation, then the bytes. -/
def createOrTruncate (p : Path) : Io Unit :=
  .primitive .other fun mask t => match t.node p with
    | some (.file _ attr) => (.ok (), t.put p (.file [] attr))
    | some _ => (.error .other, t)
    | none =>
      if t.hasParent p then (.ok (), t.put p (.file [] (ownedAttr (0o666 &&& mask))))
      else (.error .notFound, t)

def writeFile (p : Path) (bytes : Bytes) : Io Unit := do
  createOrTruncate p
  writeAll p bytes

/-! ### The receipt key -/

variable (ctx : Context crates)

/-- Thirty-two random bytes. -/
def randomKey (seed : ℕ) : Bytes := (List.range 32).map fun i => .ofNat (seed / 256 ^ i)

/-- The new key is written and synced under its temporary name before it is moved into place. -/
def createKey (temp : Path) : Proc Tree APIError Bytes := do
  let seed ← .choose
  let key := randomKey seed
  orError "VSS_RESTORE_LOCAL_WRITE_FAILED" (writeAll temp key)
  orError "VSS_RESTORE_LOCAL_WRITE_FAILED" (syncAll temp)
  match ← .attempt (ε := APIError) (promote temp ctx.keyPath) with
  | .ok _ => do
    orError "VSS_RESTORE_LOCAL_WRITE_FAILED" (syncAll ctx.base)
    return key
  | .error failure => if ← metadataOk ctx.keyPath then readKey ctx else .throw failure

def receiptKey : Proc Tree APIError Bytes := do
  if ← metadataOk ctx.keyPath then readKey ctx
  else do
    let temp ← tempfileIn ctx.base
    .ensure (createKey ctx temp) fun _ => discard (removeFile temp)

/-! ### Preparation -/

def markerName : Name := ".vss_restored"

def rejectOtherWallets : Proc Tree APIError PUnit := do
  let names ← orError "VSS_RESTORE_INVALID_TARGET" (readDir ctx.base)
  names.forM fun name => do
    orError "VSS_RESTORE_INVALID_TARGET" nextEntry
    if validFp name then .throw (error "VSS_RESTORE_TARGET_CONFLICT") else return ⟨⟩

def receiptFields (version : Int64) (manifestHash : String) : Fields where
  schemaVersion := 1
  network := ctx.network
  nodeId := ctx.nodeId
  masterFingerprint := ctx.fp
  version := version
  endpointSha256 := ctx.endpointHash
  targetSha256 := ctx.targetHash
  manifestIdentitySha256 := manifestHash

def writeReceipt (path : Path) (receipt : Receipt) : Proc Tree APIError Unit := do
  orError "VSS_RESTORE_LOCAL_WRITE_FAILED" (createNew path 0o600)
  orError "VSS_RESTORE_LOCAL_WRITE_FAILED" (writeAll path (encodeReceipt receipt))
  orError "VSS_RESTORE_LOCAL_WRITE_FAILED" (syncAll path)

def writeMarker (path : Path) : Proc Tree APIError Unit := do
  orError "VSS_RESTORE_LOCAL_WRITE_FAILED" (writeFile path [])
  orError "VSS_RESTORE_LOCAL_WRITE_FAILED" (setPermissions path 0o600)

/-- Everything at a path and below it. -/
def below (t : Tree) (p : Path) : List Path :=
  (t.names.filter fun q => p.isPrefixOf q && (t.node q).isSome).dedup

def syncTree (root : Path) : Proc Tree APIError PUnit := do
  let paths ← .read (below · root)
  paths.forM fun path => do
    let node ← orError "VSS_RESTORE_LOCAL_WRITE_FAILED" (symlinkMetadata path)
    if node.isDir || node.isFile then orError "VSS_RESTORE_LOCAL_WRITE_FAILED" (syncAll path)
    else .throw (error "VSS_RESTORE_INVALID_ARCHIVE_PATH")

/-- The storage directory is still the one that was opened. -/
def checkBase : Proc Tree APIError Unit :=
  .primitive (error "VSS_RESTORE_TARGET_CONFLICT") fun _ t => match t.node ctx.base with
    | some (.dir _) => (.ok (), t)
    | _ => (.error (error "VSS_RESTORE_TARGET_CONFLICT"), t)

/-- What is written into the staged wallet directory before it is promoted. -/
def stageReceipt (restored : Path) (receipt : Receipt) : Proc Tree APIError Unit := do
  openDirectory restored
  writeReceipt (restored ++ [receiptName]) receipt
  writeMarker (restored ++ [markerName])
  syncTree restored
  orError "VSS_RESTORE_LOCAL_WRITE_FAILED" (syncAll restored)

def finish (stage : Path) (version : Int64) (manifestHash : String) (key : Bytes) :
    Proc Tree APIError String := do
  let fields := receiptFields ctx version manifestHash
  stageReceipt (stage ++ [ctx.fp]) ⟨fields, @mac crates key fields⟩
  openDirectory stage
  checkState
  checkBase ctx
  promote (stage ++ [ctx.fp]) ctx.wallet
  orError "VSS_RESTORE_LOCAL_WRITE_FAILED" (syncAll ctx.base)
  return crates.toText (ctx.result (some version))

/-- The part of a preparation that works in the staging directory. -/
def restore (zip : ZipReader) (bytes : Bytes) (stage : Path) (version : Int64)
    (manifestHash : String) : Proc Tree APIError String := do
  extract ctx zip bytes stage
  let after ← getBackupVersion remote
  if after ≠ some version then .throw (error "VSS_RESTORE_VERSION_CHANGED")
  else do
    checkState
    let key ← receiptKey ctx
    finish ctx stage version manifestHash key

/-- A preparation whose wallet directory is absent. -/
def fetch (zip : ZipReader) : Proc Tree APIError String := do
  rejectOtherWallets ctx
  newClient
  match ← getBackupVersion remote with
  | none => return crates.toText (ctx.result none)
  | some version =>
    if version ≤ 0 then .throw (error "VSS_RESTORE_INVALID_VERSION")
    else do
      let bytes ← downloadBackup remote
      let manifestHash ← ofExcept (archivePlan ctx zip bytes)
      let stage ← tempdirIn ctx.base
      .ensure (restore remote ctx zip bytes stage version manifestHash) fun _ =>
        discard (removeDirAll stage)

def prepareIn (zip : ZipReader) (serde : ReceiptSerde) : Proc Tree APIError String := do
  openDirectory ctx.base
  if ← metadataOk ctx.wallet then do
    let fields ← loadReceipt ctx serde
    return crates.toText (ctx.result (some fields.version))
  else fetch remote ctx zip

variable (crates) in
def prepare (zip : ZipReader) (serde : ReceiptSerde) : Proc Tree APIError String := do
  checkState
  checkState
  requireLocked
  let ctx ← @Context.new crates signer configured
  prepareIn remote ctx zip serde

end RgbLightningNode.Restore
