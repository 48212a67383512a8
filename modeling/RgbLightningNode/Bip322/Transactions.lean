import Mathlib.Algebra.Group.Nat.Defs
import RgbLightningNode.Text.Utf8

/-!
# The virtual transactions

A message is committed to by a transaction that spends nothing and pays nothing to the script of the
address, and proved by a second transaction that spends this payment. Both are hashed like any other
transaction; neither is ever sent.
-/

namespace RgbLightningNode.Bip322
open Text

abbrev Bytes := List UInt8

/-- The lowest `width` bytes of a number, least significant first. -/
def littleEndian (width n : ℕ) : Bytes := (List.range width).map fun k => .ofNat (n / 256 ^ k % 256)

def compactSize (n : ℕ) : Bytes :=
  if n < 0xFD then [.ofNat n]
  else if n < 0x10000 then 0xFD :: littleEndian 2 n
  else if n < 0x100000000 then 0xFE :: littleEndian 4 n
  else 0xFF :: littleEndian 8 n

/-! ### Scripts -/

def opPushBytes0 : UInt8 := 0x00

def opPushNumber1 : UInt8 := 0x51

def opReturn : UInt8 := 0x6A

/-- `Builder::push_slice`. -/
def pushSlice (data : Bytes) : Bytes :=
  if data.length < 0x4C then .ofNat data.length :: data
  else if data.length < 0x100 then 0x4C :: littleEndian 1 data.length ++ data
  else if data.length < 0x10000 then 0x4D :: littleEndian 2 data.length ++ data
  else 0x4E :: littleEndian 4 data.length ++ data

def isP2tr (script : Bytes) : Bool :=
  script.length == 34 && script[0]? == some opPushNumber1 && script[1]? == some 32

def isP2wpkh (script : Bytes) : Bool :=
  script.length == 22 && script[0]? == some opPushBytes0 && script[1]? == some 20

/-! ### Transactions -/

structure OutPoint where
  txid : Bytes
  vout : ℕ
  deriving DecidableEq, Repr

def OutPoint.null : OutPoint := ⟨List.replicate 32 0, 0xFFFFFFFF⟩

structure TxIn where
  previousOutput : OutPoint
  scriptSig : Bytes
  sequence : ℕ
  witness : List Bytes
  deriving DecidableEq, Repr

structure TxOut where
  value : ℕ
  scriptPubkey : Bytes
  deriving DecidableEq, Repr

structure Transaction where
  version : ℕ
  lockTime : ℕ
  input : List TxIn
  output : List TxOut
  deriving DecidableEq, Repr

def OutPoint.encode (p : OutPoint) : Bytes := p.txid ++ littleEndian 4 p.vout

def TxIn.encode (i : TxIn) : Bytes :=
  i.previousOutput.encode ++ (compactSize i.scriptSig.length ++ (i.scriptSig ++
    littleEndian 4 i.sequence))

def encodeScript (script : Bytes) : Bytes := compactSize script.length ++ script

def TxOut.encode (o : TxOut) : Bytes := littleEndian 8 o.value ++ encodeScript o.scriptPubkey

/-- The consensus encoding without witnesses, which the transaction id is the hash of. -/
def Transaction.encode (tx : Transaction) : Bytes :=
  littleEndian 4 tx.version ++ (compactSize tx.input.length ++ (tx.input.flatMap TxIn.encode ++
    (compactSize tx.output.length ++
      (tx.output.flatMap TxOut.encode ++ littleEndian 4 tx.lockTime))))

inductive TapSighashType where
  | default
  | all
  deriving DecidableEq, Repr

def TapSighashType.byte : TapSighashType → UInt8
  | .default => 0
  | .all => 1

section Hashes

variable (sha256 : Bytes → Bytes)

/-- A hash whose use is part of what is hashed. -/
def taggedHash (tag : String) (bytes : Bytes) : Bytes :=
  let tag := sha256 (encodeUtf8 tag.toList)
  sha256 (tag ++ (tag ++ bytes))

/-- What a key-path signature over all inputs and outputs commits to. -/
def keySpendMessage (tx : Transaction) (index : ℕ) (prevouts : List TxOut)
    (sighashType : TapSighashType) : Bytes :=
  0 :: sighashType.byte :: (littleEndian 4 tx.version ++ (littleEndian 4 tx.lockTime ++
    (sha256 (tx.input.flatMap (·.previousOutput.encode)) ++
    (sha256 (prevouts.flatMap fun o => littleEndian 8 o.value) ++
    (sha256 (prevouts.flatMap fun o => encodeScript o.scriptPubkey) ++
    (sha256 (tx.input.flatMap fun i => littleEndian 4 i.sequence) ++
    (sha256 (tx.output.flatMap TxOut.encode) ++ 0 :: littleEndian 4 index)))))))

def messageHash (message : String) : Bytes :=
  let tag := sha256 (encodeUtf8 "BIP0322-signed-message".toList)
  sha256 (tag ++ (tag ++ encodeUtf8 message.toList))

end Hashes

variable (sha256 : Bytes → Bytes) (computeTxid : Transaction → Bytes)

def toSpend (message : String) (script : Bytes) : Transaction where
  version := 0
  lockTime := 0
  input := [{
    previousOutput := .null
    scriptSig := opPushBytes0 :: pushSlice (messageHash sha256 message)
    sequence := 0
    witness := [] }]
  output := [⟨0, script⟩]

def toSign (spent : Transaction) : Transaction where
  version := 0
  lockTime := 0
  input := [{
    previousOutput := ⟨computeTxid spent, 0⟩
    scriptSig := []
    sequence := 0
    witness := [] }]
  output := [⟨0, [opReturn]⟩]

def virtualTransactions (message : String) (script : Bytes) : Transaction × Transaction :=
  let spent := toSpend sha256 message script
  (spent, toSign computeTxid spent)

end RgbLightningNode.Bip322
