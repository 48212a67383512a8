import Mathlib.Data.Set.Function
import Mathlib.Logic.Equiv.Basic
import RgbLightningNode.Bip322.MessageKey

/-!
# A proof stands for one message and one script

What the signer writes the verifier reads back, for every spelling of the address. The digest that
is signed commits to the message through the first virtual transaction and to the script through the
spent output, so an ideal signature verifies for nothing else.
-/

namespace RgbLightningNode.Bip322
open Text

variable {crates : Crates}

/-! ### What is assumed -/

/-- The documented behaviour of the crates. -/
structure Crates.Lawful (crates : Crates) : Prop where
  sha256_length : ∀ bytes, (crates.sha256 bytes).length = 32
  encodeBase64 : ∀ bytes, crates.encodeBase64 bytes = Text.encodeBase64 bytes
  decodeBase64 : ∀ bytes, crates.decodeBase64 (Text.encodeBase64 bytes) = some bytes
  computeTxid : ∀ tx, crates.computeTxid tx = crates.sha256 (crates.sha256 tx.encode)
  serializeWitness : ∀ items, crates.serializeWitness items =
    compactSize items.length ++ items.flatMap fun item => compactSize item.length ++ item
  signatureHash : ∀ tx index prevouts sighashType, index < tx.input.length →
    prevouts.length = tx.input.length →
    crates.taprootKeySpendSignatureHash tx index prevouts sighashType = some (taggedHash
      crates.sha256 "TapSighash" (keySpendMessage crates.sha256 tx index prevouts sighashType))
  p2tr : ∀ pair network, ∃ key, key.length = 32 ∧
    crates.scriptPubkey (crates.p2tr (crates.xOnlyPublicKey pair) network) =
      opPushNumber1 :: 32 :: key ∧
    crates.keyFromSlice key = some (crates.xOnlyPublicKey (crates.tapTweak pair))
  schnorr_length : ∀ signature, (crates.schnorrBytes signature).length = 64
  schnorr_slice : ∀ signature, crates.schnorrFromSlice (crates.schnorrBytes signature) =
    some signature

/-- A signature verifies for the digest and the key that it was made for, and for no other. -/
def Crates.IdealSchnorr (crates : Crates) : Prop := ∀ (digest digest' : Bytes) pair auxiliary key,
  digest.length = 32 → digest'.length = 32 →
  (crates.verifySchnorr (crates.signSchnorr digest pair auxiliary) digest' key = true ↔
    digest' = digest ∧ key = crates.xOnlyPublicKey pair)

section Hashes

variable (crates) (message : String) (script : Bytes)

def spentFor : Transaction := toSpend crates.sha256 message script

def signedFor : Transaction := toSign crates.computeTxid (spentFor crates message script)

/-- The digest that a key-path signature is made for. -/
def digestFor : Bytes :=
  taggedHash crates.sha256 "TapSighash" (keySpendMessage crates.sha256
    (signedFor crates message script) 0 (spentFor crates message script).output .default)

def tagged (tag : String) (bytes : Bytes) : Bytes :=
  let tag := crates.sha256 (encodeUtf8 tag.toList)
  tag ++ (tag ++ bytes)

/-- The hashes on the way from a message and a script to the digest. -/
inductive Stage where
  | message
  | spent
  | txid
  | prevouts
  | scripts
  | sighash
  deriving DecidableEq, Repr

/-- What is hashed at each stage. -/
def hashInput : Stage → Bytes
  | .message => tagged crates "BIP0322-signed-message" (encodeUtf8 message.toList)
  | .spent => (spentFor crates message script).encode
  | .txid => crates.sha256 (spentFor crates message script).encode
  | .prevouts => (signedFor crates message script).input.flatMap (·.previousOutput.encode)
  | .scripts => (spentFor crates message script).output.flatMap fun o => encodeScript o.scriptPubkey
  | .sighash => tagged crates "TapSighash" (keySpendMessage crates.sha256
      (signedFor crates message script) 0 (spentFor crates message script).output .default)

/-- No two texts that are hashed for two messages and scripts have one hash. -/
def CollisionFree (message' : String) (script' : Bytes) : Prop :=
  Set.InjOn crates.sha256
    (Set.range (hashInput crates message script) ∪ Set.range (hashInput crates message' script'))

end Hashes

/-! ### The digest determines the message and the script -/

theorem littleEndian_length (width n : ℕ) : (littleEndian width n).length = width := by
  simp [littleEndian]

theorem compactSize_length (n : ℕ) : (compactSize n).length =
    if n < 0xFD then 1 else if n < 0x10000 then 3 else if n < 0x100000000 then 5 else 9 := by
  unfold compactSize
  split
  · rfl
  · split
    · simp [littleEndian_length]
    · split <;> simp [littleEndian_length]

/-- A script is found again behind its length. -/
theorem encodeScript_inj {script script' : Bytes} (h : encodeScript script = encodeScript script') :
    script = script' := by
  have hlength := congrArg List.length h
  simp only [encodeScript, List.length_append, compactSize_length] at hlength
  have heq : script.length = script'.length := by
    split_ifs at hlength <;> omega
  exact (List.append_inj h (by rw [heq])).2

theorem encodeUtf8_inj {cs cs' : List Char} (h : encodeUtf8 cs = encodeUtf8 cs') : cs = cs' := by
  have hdecode := congrArg decodeUtf8 h
  rwa [decodeUtf8_encodeUtf8, decodeUtf8_encodeUtf8, Option.some.injEq] at hdecode

theorem string_of_utf8 {s s' : String} (h : encodeUtf8 s.toList = encodeUtf8 s'.toList) : s = s' :=
  String.toList_inj.mp (encodeUtf8_inj h)

section Injectivity

variable {message message' : String} {script script' : Bytes} {bytes bytes' : Bytes}

theorem pushSlice_hash (h : bytes.length = 32) : pushSlice bytes = 32 :: bytes := by
  rw [pushSlice, h]
  rfl

theorem tagged_inj {tag : String} (h : tagged crates tag bytes = tagged crates tag bytes') :
    bytes = bytes' :=
  List.append_cancel_left (List.append_cancel_left h)

/-- The first virtual transaction reveals the hash of the message. -/
theorem messageHash_of_encode (hl : crates.Lawful)
    (h : (spentFor crates message script).encode = (spentFor crates message' script').encode) :
    messageHash crates.sha256 message = messageHash crates.sha256 message' := by
  have hpush (m : String) : pushSlice (messageHash crates.sha256 m) =
      32 :: messageHash crates.sha256 m := pushSlice_hash (hl.sha256_length _)
  have hlength (m : String) : (messageHash crates.sha256 m).length = 32 := hl.sha256_length _
  simp only [spentFor, toSpend, Transaction.encode, List.flatMap_cons, List.flatMap_nil,
    List.append_nil, TxIn.encode, hpush, List.length_cons, hlength, List.append_assoc,
    List.cons_append] at h
  have hscript := List.append_cancel_left (List.append_cancel_left
    (List.append_cancel_left (List.append_cancel_left h)))
  simp only [List.cons.injEq, true_and] at hscript
  exact (List.append_inj hscript (by rw [hlength, hlength])).1

theorem keySpendMessage_inj (hl : crates.Lawful)
    (h : keySpendMessage crates.sha256 (signedFor crates message script) 0
        (spentFor crates message script).output .default =
      keySpendMessage crates.sha256 (signedFor crates message' script') 0
        (spentFor crates message' script').output .default) :
    crates.sha256 ((signedFor crates message script).input.flatMap (·.previousOutput.encode)) =
        crates.sha256
          ((signedFor crates message' script').input.flatMap (·.previousOutput.encode)) ∧
      crates.sha256 ((spentFor crates message script).output.flatMap
          fun o => encodeScript o.scriptPubkey) =
        crates.sha256 ((spentFor crates message' script').output.flatMap
          fun o => encodeScript o.scriptPubkey) := by
  have hlength (a b : Bytes) : (crates.sha256 a).length = (crates.sha256 b).length := by
    rw [hl.sha256_length, hl.sha256_length]
  simp only [keySpendMessage, List.cons.injEq, true_and] at h
  have hfields := List.append_cancel_left (List.append_cancel_left h)
  obtain ⟨hprevouts, hrest⟩ := List.append_inj hfields (hlength _ _)
  obtain ⟨_, hrest⟩ := List.append_inj hrest (hlength _ _)
  exact ⟨hprevouts, (List.append_inj hrest (hlength _ _)).1⟩

/-- Equal digests stand for one message and one script. -/
theorem digestFor_inj (hl : crates.Lawful)
    (hfree : CollisionFree crates message script message' script')
    (h : digestFor crates message script = digestFor crates message' script') :
    message = message' ∧ script = script' := by
  have hinj (stage : Stage) (heq : crates.sha256 (hashInput crates message script stage) =
      crates.sha256 (hashInput crates message' script' stage)) :
      hashInput crates message script stage = hashInput crates message' script' stage :=
    hfree (.inl ⟨stage, rfl⟩) (.inr ⟨stage, rfl⟩) heq
  obtain ⟨hprevouts, hscripts⟩ := keySpendMessage_inj hl (tagged_inj (hinj .sighash h))
  have houtpoint := hinj .prevouts hprevouts
  have hscript := hinj .scripts hscripts
  simp only [hashInput, signedFor, toSign, List.flatMap_cons, List.flatMap_nil, List.append_nil,
    OutPoint.encode] at houtpoint
  have htxid := List.append_cancel_right houtpoint
  rw [hl.computeTxid, hl.computeTxid] at htxid
  have hencode := hinj .spent (hinj .txid htxid)
  have hmessage := hinj .message (messageHash_of_encode hl hencode)
  refine ⟨string_of_utf8 (tagged_inj hmessage), encodeScript_inj ?_⟩
  simpa [hashInput, spentFor, toSpend] using hscript

end Injectivity

theorem digestFor_length (hl : crates.Lawful) (message : String) (script : Bytes) :
    (digestFor crates message script).length = 32 :=
  hl.sha256_length _

/-! ### What is written is read back -/

section Proofs

variable {message address : String} {network : Network} {parsed : crates.Address}
  {item : Bytes} {signature : crates.SchnorrSignature}

/-- A proof with one item of 64 bytes, without the prefix. -/
def proofDigits (item : Bytes) : List Char := Text.encodeBase64 (1 :: 64 :: item)

theorem serializeWitness_single (hl : crates.Lawful) (hitem : item.length = 64) :
    crates.serializeWitness [item] = 1 :: 64 :: item := by
  rw [hl.serializeWitness]
  simp [compactSize, hitem]

theorem proofDigits_length (hitem : item.length = 64) : (proofDigits item).length = 88 := by
  rw [proofDigits, Text.encodeBase64_length]
  simp [hitem]

theorem dropPrefix_proofDigits (hitem : item.length = 64) :
    (proofDigits item).dropPrefix? "smp".toList = none := by
  cases item with
  | nil => cases hitem
  | cons b rest =>
    have hdigits : proofDigits (b :: rest) = 'A' :: (proofDigits (b :: rest)).tail := by
      simp [proofDigits, Text.encodeBase64, Text.base64Digit]
    rw [hdigits]
    rfl

theorem readItems_single (hitem : item.length = 64) :
    readItems (1 :: 64 :: item) 1 1 = some ([item], 66) := by
  have hlength : (1 :: 64 :: item : Bytes).length = 66 := by simp [hitem]
  have htake : ((1 :: 64 :: item : Bytes).drop 2).take 64 = item := List.take_of_length_le hitem.le
  simp only [readItems, List.getElem?_cons_succ, List.getElem?_cons_zero, hlength]
  exact congrArg (fun item => some ([item], 66)) htake

theorem readProof_digits (hl : crates.Lawful) (hitem : item.length = 64) (digits : List Char)
    (hdigits : digits = "smp".toList ++ proofDigits item ∨ digits = proofDigits item) :
    readProof crates digits = some [item] := by
  have hencoded : (digits.dropPrefix? "smp".toList).getD digits = proofDigits item := by
    rcases hdigits with rfl | rfl
    · simp [List.dropPrefix?]
    · rw [dropPrefix_proofDigits hitem]
      rfl
  have hwitness : readWitness crates (1 :: 64 :: item) = some [item] := by
    simp [readWitness, readItems_single hitem, serializeWitness_single hl hitem, hitem]
  rw [readProof, hencoded]
  simp only [proofDigits, hl.decodeBase64, hl.encodeBase64, Option.bind_some]
  rw [if_neg (by simp [hitem]), hwitness]

theorem encodeUtf8_ascii {cs : List Char} (h : ∀ c ∈ cs, c.toNat < 128) :
    (encodeUtf8 cs).length = cs.length := by
  induction cs with
  | nil => rfl
  | cons c cs ih =>
    obtain ⟨hc, hcs⟩ := List.forall_mem_cons.mp h
    have hchar : encodeChar c = [.ofNat c.toNat] := by simp [encodeChar, hc]
    change (encodeChar c ++ encodeUtf8 cs).length = _
    rw [hchar, List.length_append, ih hcs, List.length_singleton, List.length_cons, Nat.add_comm]

/-- Short texts of ASCII pass the checks on the characters of a signature. -/
theorem ascii_admitted {digits : List Char} (hascii : ∀ c ∈ digits, c.toNat < 128)
    (hlength : digits.length ≤ maxSignatureChars) :
    ¬(maxSignatureChars < (encodeUtf8 digits).length ∨
      (digits.any fun c => 128 ≤ c.toNat) = true) := by
  rintro (hlong | hany)
  · rw [encodeUtf8_ascii hascii] at hlong
    omega
  · obtain ⟨c, hc, hlarge⟩ := List.any_eq_true.mp hany
    have hsmall := hascii c hc
    have hbound := of_decide_eq_true hlarge
    omega

theorem proof_admitted (hitem : item.length = 64) (digits : List Char)
    (hdigits : digits = "smp".toList ++ proofDigits item ∨ digits = proofDigits item) :
    ¬(maxSignatureChars < (encodeUtf8 digits).length ∨
      (digits.any fun c => 128 ≤ c.toNat) = true) := by
  have hproof := Text.encodeBase64_ascii (1 :: 64 :: item)
  have hlength := proofDigits_length hitem
  rcases hdigits with rfl | rfl
  · refine ascii_admitted (fun c hc => ?_) ?_
    · rcases List.mem_append.mp hc with hc | hc
      · have hprefix : ∀ c ∈ "smp".toList, c.toNat < 128 := forall_of_all (by decide)
        exact hprefix c hc
      · exact hproof c hc
    · rw [List.length_append, hlength]
      decide
  · refine ascii_admitted hproof ?_
    rw [hlength]
    decide

theorem signatureHash_eq (hl : crates.Lawful) (m : String) (a : crates.Address) :
    crates.taprootKeySpendSignatureHash (crates.virtualTransactions m a).2 0
      (crates.virtualTransactions m a).1.output .default =
    some (digestFor crates m (crates.scriptPubkey a)) :=
  hl.signatureHash _ _ _ _ (Nat.lt_succ_self 0) rfl

/-- The answer that the script of a taproot address gives for a signature. -/
def keySpend (crates : Crates) (message : String) (script : Bytes)
    (signature : crates.SchnorrSignature) : Except String Bool :=
  match crates.keyFromSlice (script.drop 2) with
  | none => .error invalid
  | some key => .ok (crates.verifySchnorr signature (digestFor crates message script) key)

theorem verifyP2tr_single (hl : crates.Lawful) :
    verifyP2tr crates message parsed [crates.schnorrBytes signature] =
      keySpend crates message (crates.scriptPubkey parsed) signature := by
  have hitem := hl.schnorr_length signature
  have htake : (crates.schnorrBytes signature).take 64 = crates.schnorrBytes signature :=
    List.take_of_length_le hitem.le
  simp only [verifyP2tr, keySpend, hitem, if_true, htake, hl.schnorr_slice]
  cases crates.keyFromSlice ((crates.scriptPubkey parsed).drop 2) with
  | none => rfl
  | some key => simp only [signatureHash_eq hl]

/-- What the verifier makes of a proof, once it has accepted the message and the address. -/
theorem verify_proof (hl : crates.Lawful) (hmessage : validateMessage message = .ok ())
    (haddress : parseAddress crates address network = .ok parsed) (digits : List Char)
    (hdigits : digits = "smp".toList ++ proofDigits (crates.schnorrBytes signature) ∨
      digits = proofDigits (crates.schnorrBytes signature)) :
    verify crates message address (.ofList digits) network =
      if isP2tr (crates.scriptPubkey parsed) then
        keySpend crates message (crates.scriptPubkey parsed) signature
      else if isP2wpkh (crates.scriptPubkey parsed) then .ok false
      else .error "unsupported BIP-322 address type; requires P2TR key-path or P2WPKH" := by
  have hitem := hl.schnorr_length signature
  have hadmitted := proof_admitted hitem digits hdigits
  rw [← verifyP2tr_single hl]
  simp only [verify, hmessage, haddress, String.toList_ofList,
    readProof_digits hl hitem digits hdigits]
  exact if_neg hadmitted

/-- A verifier that accepts a proof was asked about the message and the script it was made for. -/
theorem of_verify_proof (hl : crates.Lawful) (hs : crates.IdealSchnorr) {signed : String}
    {script auxiliary : Bytes} {pair : crates.Keypair}
    (hsignature : signature = crates.signSchnorr (digestFor crates signed script) pair auxiliary)
    (haddress : parseAddress crates address network = .ok parsed) (digits : List Char)
    (hdigits : digits = "smp".toList ++ proofDigits (crates.schnorrBytes signature) ∨
      digits = proofDigits (crates.schnorrBytes signature))
    (hverify : verify crates message address (.ofList digits) network = .ok true) :
    digestFor crates message (crates.scriptPubkey parsed) = digestFor crates signed script := by
  have hmessage : validateMessage message = .ok () := by
    cases hvalid : validateMessage message with
    | ok => rfl
    | error error =>
      rw [verify, hvalid] at hverify
      cases hverify
  rw [verify_proof hl hmessage haddress digits hdigits] at hverify
  split at hverify
  · unfold keySpend at hverify
    split at hverify
    · cases hverify
    · rw [Except.ok.injEq, hsignature] at hverify
      exact ((hs _ _ _ _ _ (digestFor_length hl _ _) (digestFor_length hl _ _)).mp hverify).1
  · split at hverify <;> cases hverify

variable {key : MessageKey crates} {seed auxiliary : Bytes}

/-- The address of a message key pays to the tweaked key that it signs with. -/
theorem fromSeed_script (hl : crates.Lawful)
    (hkey : MessageKey.fromSeed crates seed network = .ok key) :
    key.network = network ∧ ∃ output, output.length = 32 ∧
      crates.scriptPubkey key.address = opPushNumber1 :: 32 :: output ∧
      crates.keyFromSlice output =
        some (crates.xOnlyPublicKey (crates.tapTweak (crates.keypair key.secret))) := by
  unfold MessageKey.fromSeed at hkey
  split at hkey
  · cases hkey
  split at hkey
  · cases hkey
  split at hkey
  · cases hkey
  cases hkey
  exact ⟨rfl, hl.p2tr _ _⟩

theorem sign_eq (hl : crates.Lawful) (hmessage : validateMessage message = .ok ())
    (haddress : parseAddress crates address key.network = .ok parsed)
    (hscript : crates.scriptPubkey parsed = crates.scriptPubkey key.address) :
    key.sign message address (some auxiliary) =
      .ok (.ofList ("smp".toList ++ proofDigits (crates.schnorrBytes
        (crates.signSchnorr (digestFor crates message (crates.scriptPubkey parsed))
          (crates.tapTweak (crates.keypair key.secret)) auxiliary)))) := by
  simp only [MessageKey.sign, hmessage, haddress]
  refine (if_neg (not_not.mpr hscript)).trans ?_
  simp only [signatureHash_eq hl, hl.encodeBase64, proofDigits,
    serializeWitness_single hl (hl.schnorr_length _)]

end Proofs

/-- A message key signs every admitted message under every spelling of its address, with a proof
that is the Base64 text of a witness of one item of 64 bytes behind `smp`. The proof verifies, with
or without its prefix, for this message and address, and for no other message and for no address
with another script on any network. -/
theorem sign_verify_bind (hl : crates.Lawful) (hs : crates.IdealSchnorr)
    {seed auxiliary : Bytes} {network : Network} {key : MessageKey crates}
    {message address : String}
    {parsed : crates.Address} (hkey : MessageKey.fromSeed crates seed network = .ok key)
    (hmessage : (encodeUtf8 message.toList).length ≤ maxMessageBytes)
    (haddress : parseAddress crates address network = .ok parsed)
    (hscript : crates.scriptPubkey parsed = crates.scriptPubkey key.address) :
    ∃ item : Bytes, item.length = 64 ∧
      key.sign message address (some auxiliary) = .ok (.ofList ("smp".toList ++ proofDigits item)) ∧
      ∀ digits, digits = "smp".toList ++ proofDigits item ∨ digits = proofDigits item →
        verify crates message address (.ofList digits) network = .ok true ∧
        ∀ message' address' network' parsed', parseAddress crates address' network' = .ok parsed' →
          CollisionFree crates message (crates.scriptPubkey parsed) message'
            (crates.scriptPubkey parsed') →
          message' ≠ message ∨ crates.scriptPubkey parsed' ≠ crates.scriptPubkey parsed →
          verify crates message' address' (.ofList digits) network' ≠ .ok true := by
  have hvalid : validateMessage message = .ok () := if_neg (Nat.not_lt.mpr hmessage)
  obtain ⟨hnetwork, output, hlength, houtput, hslice⟩ := fromSeed_script hl hkey
  have hparsed : parseAddress crates address key.network = .ok parsed := by rwa [hnetwork]
  refine ⟨_, hl.schnorr_length _, sign_eq hl hvalid hparsed hscript, fun digits hdigits => ⟨?_, ?_⟩⟩
  · have hp2tr : isP2tr (crates.scriptPubkey parsed) = true := by
      rw [hscript, houtput]
      simp [isP2tr, hlength]
    have hkeySlice : crates.keyFromSlice ((crates.scriptPubkey parsed).drop 2) =
        some (crates.xOnlyPublicKey (crates.tapTweak (crates.keypair key.secret))) := by
      rw [hscript, houtput]
      exact hslice
    rw [verify_proof hl hvalid haddress digits hdigits, if_pos hp2tr, keySpend, hkeySlice]
    have hdigest := digestFor_length hl message (crates.scriptPubkey parsed)
    exact congrArg Except.ok ((hs _ _ _ _ _ hdigest hdigest).mpr ⟨rfl, rfl⟩)
  · intro message' address' network' parsed' haddress' hfree hother hverify
    have hdigest := of_verify_proof hl hs rfl haddress' digits hdigits hverify
    obtain ⟨hsame, hscripts⟩ := digestFor_inj hl hfree hdigest.symm
    rcases hother with hne | hne
    · exact hne hsame.symm
    · exact hne hscripts.symm

/-! ### A wallet of seed `01…01` on regtest -/

section Sample

def bigEndian (width n : ℕ) : Bytes :=
  (List.range width).map fun k => .ofNat (n / 256 ^ (width - 1 - k) % 256)

theorem bigEndian_length (width n : ℕ) : (bigEndian width n).length = width := by
  simp [bigEndian]

/-- What SHA-256 answers for the texts that are hashed below. -/
def sampleDigests : List (Bytes × ℕ) := [
  (bigEndian 22 0x424950303332322d7369676e65642d6d657373616765,
    0x746584a1872fa10041554effa038d6124942dd79b4e58a4cda184e13dbe62c49),
  (bigEndian 32 0x746584a1872fa10041554effa038d6124942dd79b4e58a4cda184e13dbe62c49 ++
    bigEndian 32 0x746584a1872fa10041554effa038d6124942dd79b4e58a4cda184e13dbe62c49 ++
    bigEndian 1 0x78,
    0x4624f69d6c682f91b0ca0fabb7020a39a7035c006a8c81837dcfa4d9537d34dd),
  (bigEndian 32 0x0000000001000000000000000000000000000000000000000000000000000000 ++
    bigEndian 32 0x0000000000ffffffff2200204624f69d6c682f91b0ca0fabb7020a39a7035c00 ++
    bigEndian 32 0x6a8c81837dcfa4d9537d34dd0000000001000000000000000022512087d3047f ++
    bigEndian 32 0xe4e55c0907a5f8df32329eb68076cbcaed9a2a012c81ea9bdf370d6900000000,
    0xa9319eb4b256b2d023bfd4b17384fa3045640c75cfe3b3d7a9a4cf9b6666af23),
  (bigEndian 32 0xa9319eb4b256b2d023bfd4b17384fa3045640c75cfe3b3d7a9a4cf9b6666af23,
    0xd17099878fa7571d79e292256e51910036ffe9e68b299a04de5a593a83580e22),
  (bigEndian 32 0xd17099878fa7571d79e292256e51910036ffe9e68b299a04de5a593a83580e22 ++
    bigEndian 4 0x00000000,
    0x5f74cf6daea51945d19bbd614e63e876385a0b8587d6efce866e1d583d8fa15c),
  (bigEndian 8 0x0000000000000000,
    0xaf5570f5a1810b7af78caf4bc70a660f0df51e42baf91d4de5b2328de0e83dfc),
  (bigEndian 32 0x22512087d3047fe4e55c0907a5f8df32329eb68076cbcaed9a2a012c81ea9bdf ++
    bigEndian 3 0x370d69,
    0x7adc401c61d5c1690f5807f501117a2ad35b572da567b0ec20915604e274c3c5),
  (bigEndian 4 0x00000000,
    0xdf3f619804a92fdb4057192dc43dd748ea778adc52bc498ce80524c014b81119),
  (bigEndian 10 0x0000000000000000016a,
    0xcd496407aff71ffb5742f4f51efeac926c9f84eb51c391b5f2049bd74d9b4a02),
  (bigEndian 10 0x54617053696768617368,
    0xf40a48df4b2a70c8b4924bf2654661ed3d95fd66a313eb87237597c628e4a031),
  (bigEndian 32 0xf40a48df4b2a70c8b4924bf2654661ed3d95fd66a313eb87237597c628e4a031 ++
    bigEndian 32 0xf40a48df4b2a70c8b4924bf2654661ed3d95fd66a313eb87237597c628e4a031 ++
    bigEndian 32 0x000000000000000000005f74cf6daea51945d19bbd614e63e876385a0b8587d6 ++
    bigEndian 32 0xefce866e1d583d8fa15caf5570f5a1810b7af78caf4bc70a660f0df51e42baf9 ++
    bigEndian 32 0x1d4de5b2328de0e83dfc7adc401c61d5c1690f5807f501117a2ad35b572da567 ++
    bigEndian 32 0xb0ec20915604e274c3c5df3f619804a92fdb4057192dc43dd748ea778adc52bc ++
    bigEndian 32 0x498ce80524c014b81119cd496407aff71ffb5742f4f51efeac926c9f84eb51c3 ++
    bigEndian 15 0x91b5f2049bd74d9b4a020000000000,
    0x4a07af93da283ecfa44f7ca0e2b6e38ff72e056c3e722f66ea1fce10d9491b3b),
  (bigEndian 32 0x746584a1872fa10041554effa038d6124942dd79b4e58a4cda184e13dbe62c49 ++
    bigEndian 32 0x746584a1872fa10041554effa038d6124942dd79b4e58a4cda184e13dbe62c49 ++
    bigEndian 2 0x7821,
    0x9b25eb12565f8f470d2a312784034791cd77dae70740949bed0db64cbf23bcfa),
  (bigEndian 32 0x0000000001000000000000000000000000000000000000000000000000000000 ++
    bigEndian 32 0x0000000000ffffffff2200209b25eb12565f8f470d2a312784034791cd77dae7 ++
    bigEndian 32 0x0740949bed0db64cbf23bcfa0000000001000000000000000022512087d3047f ++
    bigEndian 32 0xe4e55c0907a5f8df32329eb68076cbcaed9a2a012c81ea9bdf370d6900000000,
    0x94e2956dd3274995721958ce5fba88aa2bda09aff58d222afe11ee25d7981069),
  (bigEndian 32 0x94e2956dd3274995721958ce5fba88aa2bda09aff58d222afe11ee25d7981069,
    0xb6aa7afb40b6aadc899685e0c232fd9ac645ced458ecf0513b4bf0d05eb72541),
  (bigEndian 32 0xb6aa7afb40b6aadc899685e0c232fd9ac645ced458ecf0513b4bf0d05eb72541 ++
    bigEndian 4 0x00000000,
    0x89cfea2af7a6edf9103cd3d12b06b18c470a39e4cc118c413f896b7786916b40),
  (bigEndian 32 0xf40a48df4b2a70c8b4924bf2654661ed3d95fd66a313eb87237597c628e4a031 ++
    bigEndian 32 0xf40a48df4b2a70c8b4924bf2654661ed3d95fd66a313eb87237597c628e4a031 ++
    bigEndian 32 0x0000000000000000000089cfea2af7a6edf9103cd3d12b06b18c470a39e4cc11 ++
    bigEndian 32 0x8c413f896b7786916b40af5570f5a1810b7af78caf4bc70a660f0df51e42baf9 ++
    bigEndian 32 0x1d4de5b2328de0e83dfc7adc401c61d5c1690f5807f501117a2ad35b572da567 ++
    bigEndian 32 0xb0ec20915604e274c3c5df3f619804a92fdb4057192dc43dd748ea778adc52bc ++
    bigEndian 32 0x498ce80524c014b81119cd496407aff71ffb5742f4f51efeac926c9f84eb51c3 ++
    bigEndian 15 0x91b5f2049bd74d9b4a020000000000,
    0x7aa9bcfc229de23d68ce83b64356c944a41bd737144dffd020e14b176affdea0)]

def sampleSha256 (bytes : Bytes) : Bytes :=
  match sampleDigests.find? (·.1 = bytes) with
  | some (_, digest) => bigEndian 32 digest
  | none => List.replicate 32 0

def sampleInternalKey : {b : Bytes // b.length = 32} :=
  ⟨bigEndian 32 0xbf17af65bed8cc20e82b0f1aa6aafe53bfa70f2e17cfa46ab421ede27b7b3178,
    bigEndian_length _ _⟩

def sampleOutputKey : {b : Bytes // b.length = 32} :=
  ⟨bigEndian 32 0x87d3047fe4e55c0907a5f8df32329eb68076cbcaed9a2a012c81ea9bdf370d69,
    bigEndian_length _ _⟩

def sampleScript : Bytes := opPushNumber1 :: 32 :: sampleOutputKey.1

def sampleAddress : String := "bcrt1pslfsgllyu4wqjpa9lr0nyv57k6q8dj72akdz5qfvs84fhhehp45ssu7yl6"

def sampleSighash : {b : Bytes // b.length = 32} :=
  ⟨bigEndian 32 0x4a07af93da283ecfa44f7ca0e2b6e38ff72e056c3e722f66ea1fce10d9491b3b,
    bigEndian_length _ _⟩

def sampleSignature : {b : Bytes // b.length = 64} :=
  ⟨bigEndian 32 0x940ed8f2067c076ce72231dcc4c69db5476bf8e80d1d04a30dbd8b3866400605 ++
    bigEndian 32 0x72402fbf58a86e658d60503bd6dec2359685df13f679cdc0740bfb0ed7c46a64,
    by simp [bigEndian_length]⟩

/-- The signature of the sample, and for any other digest or key the two of them. -/
def sampleSign (digest key : {b : Bytes // b.length = 32}) : {b : Bytes // b.length = 64} :=
  let joined (digest key : {b : Bytes // b.length = 32}) : {b : Bytes // b.length = 64} :=
    ⟨digest.1 ++ key.1, by rw [List.length_append, digest.2, key.2]⟩
  Equiv.swap (joined sampleSighash sampleOutputKey) sampleSignature (joined digest key)

def sampleCrates : Crates where
  Address := Bytes
  Xpriv := List ChildNumber
  SecretKey := List ChildNumber
  -- Whether the pair is tweaked.
  Keypair := Bool
  XOnlyPublicKey := {b : Bytes // b.length = 32}
  SchnorrSignature := {b : Bytes // b.length = 64}
  PublicKey := Bytes
  EcdsaSignature := Bytes
  ecdsaEq := inferInstance
  sha256 := sampleSha256
  encodeBase64 := Text.encodeBase64
  decodeBase64 := Text.decodeBase64
  addressFromStr value := if value = sampleAddress then some sampleScript else none
  isValidForNetwork _ network := network = .regtest
  scriptPubkey := id
  p2tr _ _ := sampleScript
  p2wpkh _ _ := []
  newMaster _ seed := if seed = List.replicate 32 1 then some [] else none
  derivePriv key path := some (key ++ path)
  xpub _ := "tpubDDbBZ6nxNvbeBeodf2JnUjRqPzQaLZLgV585T2uxFWFX4NLBkxK2hHNMwPxt" ++
    "NoBqbCHwSNci6sgqZzU4h6MydLLw2n9Z2uQhREMzha3YHVH"
  privateKey key := key
  keypair _ := false
  xOnlyPublicKey tweaked := if tweaked then sampleOutputKey else sampleInternalKey
  tapTweak _ := true
  keyFromSlice bytes := if h : bytes.length = 32 then some ⟨bytes, h⟩ else none
  computeTxid tx := sampleSha256 (sampleSha256 tx.encode)
  serializeWitness items :=
    compactSize items.length ++ items.flatMap fun item => compactSize item.length ++ item
  taprootKeySpendSignatureHash tx index prevouts sighashType :=
    if index < tx.input.length ∧ prevouts.length = tx.input.length then
      some (taggedHash sampleSha256 "TapSighash"
        (keySpendMessage sampleSha256 tx index prevouts sighashType))
    else none
  p2wpkhSignatureHash _ _ _ _ := none
  signSchnorr digest pair _ :=
    if h : digest.length = 32 then
      sampleSign ⟨digest, h⟩ (if pair then sampleOutputKey else sampleInternalKey)
    else sampleSignature
  schnorrBytes signature := signature.1
  schnorrFromSlice bytes := if h : bytes.length = 64 then some ⟨bytes, h⟩ else none
  verifySchnorr signature digest key :=
    if h : digest.length = 32 then signature = sampleSign ⟨digest, h⟩ key else false
  publicKeyFromSlice _ := none
  ecdsaFromDer _ := none
  normalizeS := id
  ecdsaDer := id
  verifyEcdsa _ _ _ := false

theorem sampleSha256_length (bytes : Bytes) : (sampleSha256 bytes).length = 32 := by
  unfold sampleSha256
  split
  · exact bigEndian_length _ _
  · rfl

theorem sampleCrates_lawful : sampleCrates.Lawful where
  sha256_length := sampleSha256_length
  encodeBase64 _ := rfl
  decodeBase64 := Text.decodeBase64_encodeBase64
  computeTxid _ := rfl
  serializeWitness _ := rfl
  signatureHash _ _ _ _ hindex hprevouts := if_pos ⟨hindex, hprevouts⟩
  p2tr _ _ := ⟨sampleOutputKey.1, sampleOutputKey.2, rfl, by
    simp [sampleCrates, sampleOutputKey.2]⟩
  schnorr_length signature := signature.2
  schnorr_slice signature := dif_pos signature.2

theorem sampleSign_inj {digest digest' key key' : {b : Bytes // b.length = 32}}
    (h : sampleSign digest key = sampleSign digest' key') : digest' = digest ∧ key' = key := by
  have hjoined := Subtype.ext_iff.mp ((Equiv.swap _ _).injective h)
  obtain ⟨hdigest, hkey⟩ := List.append_inj hjoined (by rw [digest.2, digest'.2])
  exact ⟨Subtype.ext hdigest.symm, Subtype.ext hkey.symm⟩

theorem sampleCrates_ideal : sampleCrates.IdealSchnorr := by
  intro digest digest' pair auxiliary key hdigest hdigest'
  simp only [sampleCrates, dif_pos hdigest, dif_pos hdigest', decide_eq_true_eq]
  constructor
  · intro h
    obtain ⟨hsame, hkey⟩ := sampleSign_inj h
    exact ⟨Subtype.ext_iff.mp hsame, hkey⟩
  · rintro ⟨rfl, rfl⟩
    rfl

set_option maxRecDepth 1024 in
/-- No two texts of the table have one hash. -/
theorem sampleSha256_injOn :
    Set.InjOn sampleSha256 {bytes | bytes ∈ sampleDigests.map Prod.fst} := by
  have hpairs : ∀ a ∈ sampleDigests.map Prod.fst, ∀ b ∈ sampleDigests.map Prod.fst,
      sampleSha256 a = sampleSha256 b → a = b := by decide
  exact fun a ha b hb => hpairs a ha b hb

set_option maxRecDepth 1024 in
theorem sample_hashInput (stage : Stage) :
    hashInput sampleCrates "x" sampleScript stage ∈ sampleDigests.map Prod.fst ∧
      hashInput sampleCrates "x!" sampleScript stage ∈ sampleDigests.map Prod.fst := by
  cases stage <;> decide

theorem sample_collisionFree : CollisionFree sampleCrates "x" sampleScript "x!" sampleScript := by
  refine sampleSha256_injOn.mono ?_
  rintro _ (⟨stage, rfl⟩ | ⟨stage, rfl⟩)
  · exact (sample_hashInput stage).1
  · exact (sample_hashInput stage).2

def sampleKey : MessageKey sampleCrates where
  secret := MessageKey.accountPath .regtest ++ [.normal 0, .normal 0]
  accountXpub := sampleCrates.xpub (MessageKey.accountPath .regtest)
  address := sampleScript
  network := .regtest

theorem sampleKey_fromSeed :
    MessageKey.fromSeed sampleCrates (List.replicate 32 1) .regtest = .ok sampleKey := rfl

theorem sampleAddress_parses :
    parseAddress sampleCrates sampleAddress .regtest = .ok sampleScript := by
  have hgraphic : ¬(128 < (encodeUtf8 sampleAddress.toList).length ∨
      (encodeUtf8 sampleAddress.toList).any fun b => !isAsciiGraphic b) := by decide
  unfold parseAddress
  rw [if_neg hgraphic]
  rfl

end Sample

theorem sign_verify_bind_sample : ∃ item : Bytes, item.length = 64 ∧
    sampleKey.sign "x" sampleAddress (some (List.replicate 32 0)) =
      .ok (.ofList ("smp".toList ++ proofDigits item)) ∧
    verify sampleCrates "x" sampleAddress (.ofList ("smp".toList ++ proofDigits item)) .regtest =
      .ok true ∧
    verify sampleCrates "x!" sampleAddress (.ofList (proofDigits item)) .regtest ≠ .ok true := by
  obtain ⟨item, hlength, hsign, hverify⟩ := @sign_verify_bind sampleCrates sampleCrates_lawful
    sampleCrates_ideal _ (List.replicate 32 0) .regtest sampleKey "x" _ _ sampleKey_fromSeed
    (by decide) sampleAddress_parses rfl
  exact ⟨item, hlength, hsign, (hverify _ (.inl rfl)).1,
    (hverify _ (.inr rfl)).2 "x!" sampleAddress .regtest sampleScript sampleAddress_parses
      sample_collisionFree (.inl (by decide))⟩

end RgbLightningNode.Bip322
