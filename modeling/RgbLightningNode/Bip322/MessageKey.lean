import RgbLightningNode.Bip322.Transactions
import RgbLightningNode.Text.Base64

/-!
# Signing and verifying messages

The key of an address signs a message by spending the virtual payment to the script of the address.
The verifier takes an address and a proof from anybody; it reads the proof itself before it lets a
script decide.
-/

namespace RgbLightningNode.Bip322
open Text

inductive Network where
  | bitcoin
  | testnet
  | testnet4
  | signet
  | regtest
  deriving DecidableEq, Repr

inductive ChildNumber where
  | normal (index : ℕ)
  | hardened (index : ℕ)
  deriving DecidableEq, Repr

/-- What is used of the crates for addresses, keys, signatures, hashes and Base64. -/
structure Crates where
  Address : Type
  Xpriv : Type
  SecretKey : Type
  Keypair : Type
  XOnlyPublicKey : Type
  SchnorrSignature : Type
  PublicKey : Type
  EcdsaSignature : Type
  ecdsaEq : DecidableEq EcdsaSignature
  sha256 : Bytes → Bytes
  encodeBase64 : Bytes → List Char
  decodeBase64 : List Char → Option Bytes
  addressFromStr : String → Option Address
  isValidForNetwork : Address → Network → Bool
  scriptPubkey : Address → Bytes
  p2tr : XOnlyPublicKey → Network → Address
  p2wpkh : PublicKey → Network → Address
  newMaster : Network → Bytes → Option Xpriv
  derivePriv : Xpriv → List ChildNumber → Option Xpriv
  xpub : Xpriv → String
  privateKey : Xpriv → SecretKey
  keypair : SecretKey → Keypair
  xOnlyPublicKey : Keypair → XOnlyPublicKey
  tapTweak : Keypair → Keypair
  keyFromSlice : Bytes → Option XOnlyPublicKey
  computeTxid : Transaction → Bytes
  serializeWitness : List Bytes → Bytes
  taprootKeySpendSignatureHash : Transaction → ℕ → List TxOut → TapSighashType → Option Bytes
  p2wpkhSignatureHash : Transaction → ℕ → Bytes → ℕ → Option Bytes
  signSchnorr : Bytes → Keypair → Bytes → SchnorrSignature
  schnorrBytes : SchnorrSignature → Bytes
  schnorrFromSlice : Bytes → Option SchnorrSignature
  verifySchnorr : SchnorrSignature → Bytes → XOnlyPublicKey → Bool
  publicKeyFromSlice : Bytes → Option PublicKey
  ecdsaFromDer : Bytes → Option EcdsaSignature
  normalizeS : EcdsaSignature → EcdsaSignature
  ecdsaDer : EcdsaSignature → Bytes
  verifyEcdsa : Bytes → EcdsaSignature → PublicKey → Bool

def maxMessageBytes : ℕ := 4096

def maxSignatureChars : ℕ := 4096

def invalid : String := "invalid BIP-322 request or unsupported signature"

def validateMessage (message : String) : Except String Unit :=
  if maxMessageBytes < (encodeUtf8 message.toList).length then .error invalid else .ok ()

def isAsciiGraphic (b : UInt8) : Bool := 0x21 ≤ b && b ≤ 0x7E

variable (crates : Crates)

def parseAddress (value : String) (network : Network) : Except String crates.Address :=
  let bytes := encodeUtf8 value.toList
  if 128 < bytes.length ∨ bytes.any fun b => !isAsciiGraphic b then .error invalid
  else match crates.addressFromStr value with
    | none => .error invalid
    | some address =>
      if crates.isValidForNetwork address network then .ok address else .error invalid

def Crates.virtualTransactions (message : String) (address : crates.Address) :
    Transaction × Transaction :=
  Bip322.virtualTransactions crates.sha256 crates.computeTxid message (crates.scriptPubkey address)

/-! ### Signing -/

structure MessageKey where
  secret : crates.SecretKey
  accountXpub : String
  address : crates.Address
  network : Network

namespace MessageKey

def accountPath (network : Network) : List ChildNumber :=
  [.hardened 86, .hardened (if network = .bitcoin then 0 else 1), .hardened 0]

def fromSeed (seed : Bytes) (network : Network) : Except String (MessageKey crates) :=
  match crates.newMaster network seed with
  | none => .error invalid
  | some master =>
    match crates.derivePriv master (accountPath network) with
    | none => .error invalid
    | some account =>
      match crates.derivePriv account [.normal 0, .normal 0] with
      | none => .error invalid
      | some child =>
        let secret := crates.privateKey child
        let internalKey := crates.xOnlyPublicKey (crates.keypair secret)
        .ok ⟨secret, crates.xpub account, crates.p2tr internalKey network, network⟩

variable {crates}

/-- `auxiliary` is what the randomness of the system answers. -/
def sign (key : MessageKey crates) (message requestedAddress : String) (auxiliary : Option Bytes) :
    Except String String := do
  validateMessage message
  let address ← parseAddress crates requestedAddress key.network
  if crates.scriptPubkey address ≠ crates.scriptPubkey key.address then
    .error "BIP-322 address is not the wallet signing address"
  else
    let (spent, signed) := crates.virtualTransactions message address
    match crates.taprootKeySpendSignatureHash signed 0 spent.output .default with
    | none => .error invalid
    | some sighash =>
      match auxiliary with
      | none => .error "BIP-322 secure randomness is unavailable"
      | some auxiliary =>
        let tweaked := crates.tapTweak (crates.keypair key.secret)
        let signature := crates.schnorrBytes (crates.signSchnorr sighash tweaked auxiliary)
        .ok (.ofList ("smp".toList ++ crates.encodeBase64 (crates.serializeWitness [signature])))

end MessageKey

/-! ### Verifying -/

/-- The items of a witness of `count` items from `offset` on, and where they end. -/
def readItems (raw : Bytes) : ℕ → ℕ → Option (List Bytes × ℕ)
  | 0, offset => some ([], offset)
  | count + 1, offset =>
    match raw[offset]? with
    | none => none
    | some n =>
      if 73 < n.toNat then none
      else
        let start := offset + 1
        let stop := start + n.toNat
        if raw.length < stop then none
        else (readItems raw count stop).map fun (items, offset) =>
          ((raw.drop start).take n.toNat :: items, offset)

def readWitness (raw : Bytes) : Option (List Bytes) :=
  let count : Option ℕ := match raw.head? with
    | some 1 => some 1
    | some 2 => some 2
    | _ => none
  count.bind fun count => (readItems raw count 1).bind fun (items, offset) =>
    if offset ≠ raw.length ∨ crates.serializeWitness items ≠ raw then none else some items

/-- Proofs from before the prefix was introduced are accepted, but never made. -/
def readProof (signature : List Char) : Option (List Bytes) :=
  let encoded := (signature.dropPrefix? "smp".toList).getD signature
  (crates.decodeBase64 encoded).bind fun raw =>
    if crates.encodeBase64 raw ≠ encoded ∨ 256 < raw.length then none else readWitness crates raw

def verifyP2tr (message : String) (address : crates.Address) (witness : List Bytes) :
    Except String Bool :=
  let script := crates.scriptPubkey address
  let (spent, signed) := crates.virtualTransactions message address
  match witness with
  | [item] =>
    let sighashType : Option TapSighashType :=
      if item.length = 64 then some .default
      else if item.length = 65 ∧ item[64]? = some 1 then some .all
      else none
    match sighashType, crates.schnorrFromSlice (item.take 64) with
    | some sighashType, some signature =>
      match crates.keyFromSlice (script.drop 2) with
      | none => .error invalid
      | some key =>
        match crates.taprootKeySpendSignatureHash signed 0 spent.output sighashType with
        | none => .error invalid
        | some hash => .ok (crates.verifySchnorr signature hash key)
    | _, _ => .ok false
  | _ => .ok false

def verifyP2wpkh (message : String) (address : crates.Address) (network : Network)
    (witness : List Bytes) : Except String Bool :=
  let _ := crates.ecdsaEq
  let script := crates.scriptPubkey address
  let signed := (crates.virtualTransactions message address).2
  match witness with
  | [item, publicKey] =>
    if item.length < 9 ∨ 73 < item.length ∨ item.getLast? ≠ some 1 ∨ publicKey.length ≠ 33 ∨
        ¬(publicKey[0]? = some 2 ∨ publicKey[0]? = some 3) then .ok false
    else match crates.publicKeyFromSlice publicKey with
      | none => .ok false
      | some key =>
        if crates.scriptPubkey (crates.p2wpkh key network) ≠ script then .ok false
        else match crates.ecdsaFromDer item.dropLast with
          | none => .ok false
          | some signature =>
            if crates.normalizeS signature ≠ signature ∨
              crates.ecdsaDer signature ≠ item.dropLast then
              .ok false
            else match crates.p2wpkhSignatureHash signed 0 script 0 with
              | none => .error invalid
              | some hash => .ok (crates.verifyEcdsa hash signature key)
  | _ => .ok false

def verify (message address signature : String) (network : Network) : Except String Bool := do
  validateMessage message
  let address ← parseAddress crates address network
  if maxSignatureChars < (encodeUtf8 signature.toList).length ∨
      signature.toList.any fun c => 128 ≤ c.toNat then
    .error invalid
  else match readProof crates signature.toList with
    | none => .ok false
    | some witness =>
      let script := crates.scriptPubkey address
      if isP2tr script then verifyP2tr crates message address witness
      else if isP2wpkh script then verifyP2wpkh crates message address network witness
      else .error "unsupported BIP-322 address type; requires P2TR key-path or P2WPKH"

end RgbLightningNode.Bip322
