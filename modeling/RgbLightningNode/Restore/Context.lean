import RgbLightningNode.Error
import RgbLightningNode.FileSystem.Directories
import RgbLightningNode.Text.Json

/-!
# What a restore is prepared for

The identity, the endpoint and the directory that a restored wallet must belong to, the limits on
its archive, and the identity that a wallet manifest states.
-/

namespace RgbLightningNode.Restore
open Faulty FileSystem Text

def receiptName : Name := ".utexo-vss-restore-v1.json"
def keyName : Name := ".utexo-vss-restore-key-v1"
def maxCompressed : ℕ := 128 * 1024 * 1024
def maxInflated : ℕ := 512 * 1024 * 1024
def maxEntries : ℕ := 25000
def maxManifest : ℕ := 65536
def maxReceipt : ℕ := 4096

def error (code : String) : APIError := .failedVssInit code

/-! ### JSON values -/

/-- A number is kept as the parser kept it: two integer forms, or a text with a fraction or an
exponent, which equals no integer. -/
inductive JsonNumber where
  | posInt (n : UInt64)
  | negInt (n : Int64)
  | float (text : String)
  deriving DecidableEq

inductive JsonValue where
  | null
  | bool (value : Bool)
  | number (value : JsonNumber)
  | string (value : String)
  | array (values : List JsonValue)
  | object (members : List (String × JsonValue))

namespace JsonValue

/-- A missing member, and any member of what is no object, is null. -/
def get (value : JsonValue) (name : String) : JsonValue :=
  match value with
  | .object members => ((members.find? (·.1 == name)).map (·.2)).getD .null
  | _ => .null

def eqInt (value : JsonValue) (i : ℤ) : Bool :=
  match value with
  | .number (.posInt n) => (n.toNat : ℤ) == i
  | .number (.negInt n) => n.toInt == i
  | _ => false

def eqString (value : JsonValue) (s : String) : Bool :=
  match value with
  | .string s' => s' == s
  | _ => false

end JsonValue

/-! ### Hashes and serializers of other crates -/

/-- Two lower-case digits for each byte. -/
def hex (bytes : Bytes) : List Char :=
  bytes.flatMap fun b => [hexDigit (b.toNat / 16), hexDigit (b.toNat % 16)]

theorem hex_length (bytes : Bytes) : (hex bytes).length = 2 * bytes.length := by
  induction bytes with
  | nil => rfl
  | cons b bytes ih =>
    change (hex bytes).length + 1 + 1 = 2 * (bytes.length + 1)
    omega

/-- The hashes, and the reader and printer of untyped JSON. -/
structure Crates where
  sha256 : Bytes → Bytes
  sha256_length : ∀ bytes, (sha256 bytes).length = 32
  hmac : Bytes → Bytes → Bytes
  hmac_length : ∀ key bytes, (hmac key bytes).length = 32
  fromSlice : Bytes → Option JsonValue
  toText : JsonValue → String

variable {crates : Crates}

def Crates.digest (crates : Crates) (bytes : Bytes) : String :=
  String.ofList (hex (crates.sha256 bytes))

def utf8 (s : String) : Bytes := encodeUtf8 s.toList

/-! ### The context -/

def lowerHex (c : Char) : Bool := c.isDigit || ('a' ≤ c && c ≤ 'f')

def validFp (s : String) : Bool := s.toList.length == 8 && s.toList.all lowerHex

/-- The text of an absolute path. -/
def pathText (p : Path) : List Char := p.flatMap fun name => '/' :: name.toList

/-- The texts of a public key: the digits of 33 or 65 bytes. -/
def keyText (s : String) : Bool :=
  (s.toList.length == 66 || s.toList.length == 130) &&
    s.toList.all fun c => lowerHex c || ('A' ≤ c && c ≤ 'F')

/-- A context whose fingerprint and node id were checked, and whose hashes are those of its
endpoint and of its directory. -/
structure Context (crates : Crates) where
  base : Path
  network : String
  nodeId : String
  fp : String
  vanilla : String
  colored : String
  endpoint : String
  endpointHash : String
  targetHash : String
  fp_valid : validFp fp = true
  nodeId_text : keyText nodeId = true
  endpointHash_eq : endpointHash = crates.digest (utf8 endpoint)
  targetHash_eq : targetHash = crates.digest (encodeUtf8 (pathText (base ++ [fp])))

namespace Context

/-- The answer to the caller, with the version that was restored, if any. -/
def result (ctx : Context crates) (version : Option Int64) : JsonValue := .object [
  ("restored", .bool version.isSome),
  ("status", .string (if version.isSome then "restored" else "not_found")),
  ("network", .string ctx.network),
  ("node_id", .string ctx.nodeId),
  ("master_fingerprint", .string ctx.fp),
  ("version", match version with
    | none => .null
    | some v => .number (if 0 ≤ v then .posInt v.toUInt64 else .negInt v))]

end Context

/-! ### The identity of a manifest -/

def expectedNetwork (network : String) : Option String :=
  match network with
  | "mainnet" => some "Mainnet"
  | "testnet" => some "Testnet"
  | "testnet4" => some "Testnet4"
  | "signet" => some "Signet"
  | "regtest" => some "Regtest"
  | _ => none

/-- What the digest of an identity covers. -/
def identityOf (value : JsonValue) : JsonValue := .array [
  value.get "version",
  value.get "bitcoin_network",
  value.get "master_fingerprint",
  value.get "account_xpub_vanilla",
  value.get "account_xpub_colored",
  value.get "vanilla_keychain",
  value.get "witness_version"]

def manifestIdentity (bytes : Bytes) (ctx : Context crates) : Except APIError String :=
  match crates.fromSlice bytes with
  | none => .error (error "VSS_RESTORE_INVALID_MANIFEST")
  | some value =>
    match expectedNetwork ctx.network with
    | none => .error (error "VSS_RESTORE_IDENTITY_MISMATCH")
    | some expected =>
      if !(value.get "version").eqInt 1 || !(value.get "bitcoin_network").eqString expected then
        .error (error "VSS_RESTORE_IDENTITY_MISMATCH")
      else if !(value.get "master_fingerprint").eqString ctx.fp ||
          !(value.get "account_xpub_vanilla").eqString ctx.vanilla ||
          !(value.get "account_xpub_colored").eqString ctx.colored then
        .error (error "VSS_RESTORE_IDENTITY_MISMATCH")
      else .ok (crates.digest (utf8 (crates.toText (identityOf value))))

end RgbLightningNode.Restore
