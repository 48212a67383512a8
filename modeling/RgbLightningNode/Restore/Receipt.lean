import RgbLightningNode.Faulty.Calm
import RgbLightningNode.Restore.Extract

/-!
# The local receipt of a restore

A receipt binds a restored directory to the network, the identity, the endpoint and the path it was
prepared for, by a code under a key that never leaves the storage directory. Reading it back checks
every one of them, the code, and the manifest that is on disk.
-/

namespace RgbLightningNode.Restore
open Faulty FileSystem Text

/-! ### The records and their text -/

structure Fields where
  schemaVersion : UInt8
  network : String
  nodeId : String
  masterFingerprint : String
  version : Int64
  endpointSha256 : String
  targetSha256 : String
  manifestIdentitySha256 : String
  deriving DecidableEq

structure Receipt where
  fields : Fields
  mac : String
  deriving DecidableEq

/-- The compact text of the fields, before some other text. -/
def printFieldsThen (f : Fields) (rest : List Char) : List Char :=
  "\x7b\"schema_version\":".toList ++ (printNat f.schemaVersion.toNat ++
    (",\"network\":".toList ++ (printString f.network ++
    (",\"node_id\":".toList ++ (printString f.nodeId ++
    (",\"master_fingerprint\":".toList ++ (printString f.masterFingerprint ++
    (",\"version\":".toList ++ (printInt f.version.toInt ++
    (",\"endpoint_sha256\":".toList ++ (printString f.endpointSha256 ++
    (",\"target_sha256\":".toList ++ (printString f.targetSha256 ++
    (",\"manifest_identity_sha256\":".toList ++ (printString f.manifestIdentitySha256 ++
    ("\x7d".toList ++ rest))))))))))))))))

def printReceipt (r : Receipt) : List Char :=
  "\x7b\"fields\":".toList ++ printFieldsThen r.fields
    (",\"mac\":".toList ++ (printString r.mac ++ "\x7d".toList))

def encodeFields (f : Fields) : Bytes := encodeUtf8 (printFieldsThen f [])

def encodeReceipt (r : Receipt) : Bytes := encodeUtf8 (printReceipt r)

def readFields : Reader Fields :=
  (readLiteral "\x7b\"schema_version\":").andThen fun _ => readNat.andThen fun schemaVersion =>
  (readLiteral ",\"network\":").andThen fun _ => readString.andThen fun network =>
  (readLiteral ",\"node_id\":").andThen fun _ => readString.andThen fun nodeId =>
  (readLiteral ",\"master_fingerprint\":").andThen fun _ => readString.andThen fun fp =>
  (readLiteral ",\"version\":").andThen fun _ => readInt.andThen fun version =>
  (readLiteral ",\"endpoint_sha256\":").andThen fun _ => readString.andThen fun endpoint =>
  (readLiteral ",\"target_sha256\":").andThen fun _ => readString.andThen fun target =>
  (readLiteral ",\"manifest_identity_sha256\":").andThen fun _ => readString.andThen fun identity =>
  (readLiteral "\x7d").andThen fun _ =>
    .pure ⟨.ofNat schemaVersion, network, nodeId, fp, .ofInt version, endpoint, target, identity⟩

def readReceipt : Reader Receipt :=
  (readLiteral "\x7b\"fields\":").andThen fun _ => readFields.andThen fun fields =>
  (readLiteral ",\"mac\":").andThen fun _ => readString.andThen fun mac =>
  (readLiteral "\x7d").andThen fun _ => .pure ⟨fields, mac⟩

theorem readFields_print (f : Fields) (rest : List Char) :
    readFields (printFieldsThen f rest) = some (f, rest) := by
  have hcomma : ∀ (text : String) (more : List Char), text.toList.head? = some ',' →
      DigitsEnd (text.toList ++ more) := by
    intro text more htext c hc
    rw [List.head?_append, htext] at hc
    cases hc
    rfl
  unfold readFields printFieldsThen
  rw [Reader.andThen_eq (readLiteral_append _ _),
    Reader.andThen_eq (readNat_print _ (hcomma _ _ (by decide))),
    Reader.andThen_eq (readLiteral_append _ _), Reader.andThen_eq (readString_print _ _),
    Reader.andThen_eq (readLiteral_append _ _), Reader.andThen_eq (readString_print _ _),
    Reader.andThen_eq (readLiteral_append _ _), Reader.andThen_eq (readString_print _ _),
    Reader.andThen_eq (readLiteral_append _ _),
    Reader.andThen_eq (readInt_print _ (hcomma _ _ (by decide))),
    Reader.andThen_eq (readLiteral_append _ _), Reader.andThen_eq (readString_print _ _),
    Reader.andThen_eq (readLiteral_append _ _), Reader.andThen_eq (readString_print _ _),
    Reader.andThen_eq (readLiteral_append _ _), Reader.andThen_eq (readString_print _ _),
    Reader.andThen_eq (readLiteral_append _ _), UInt8.ofNat_toNat, Int64.ofInt_toInt]
  rfl

theorem readReceipt_print (r : Receipt) : readReceipt (printReceipt r) = some (r, []) := by
  have hend : readLiteral "\x7d" "\x7d".toList = some ((), []) := by
    rw [← List.append_nil "\x7d".toList]
    exact readLiteral_append "\x7d" []
  unfold readReceipt printReceipt
  rw [Reader.andThen_eq (readLiteral_append _ _), Reader.andThen_eq (readFields_print _ _),
    Reader.andThen_eq (readLiteral_append _ _), Reader.andThen_eq (readString_print _ _),
    Reader.andThen_eq hend]
  rfl

theorem encodeFields_inj {f g : Fields} (h : encodeFields f = encodeFields g) : f = g := by
  have htext : printFieldsThen f [] = printFieldsThen g [] := by
    have hdecode := congrArg decodeUtf8 h
    rw [encodeFields, encodeFields, decodeUtf8_encodeUtf8, decodeUtf8_encodeUtf8] at hdecode
    exact Option.some.inj hdecode
  have hread := congrArg readFields htext
  rw [readFields_print, readFields_print] at hread
  exact (Prod.mk.inj (Option.some.inj hread)).1

/-- The reader of receipts, which takes at least the compact text. -/
structure ReceiptSerde where
  decode : Bytes → Option Receipt
  decode_encode : ∀ r, decode (encodeReceipt r) = some r

def compactReceipts : ReceiptSerde where
  decode bytes := (decodeUtf8 bytes).bind readReceipt.all
  decode_encode r := by
    simp [encodeReceipt, decodeUtf8_encodeUtf8, Reader.all, readReceipt_print]

/-! ### How long a receipt is -/

/-- A character that is printed as it is, in one byte. -/
def Unescaped (c : Char) : Prop := shortEscape c = none ∧ 0x20 ≤ c.toNat ∧ c.toNat < 0x80

instance : DecidablePred Unescaped := fun _ => inferInstanceAs (Decidable (_ ∧ _))

/-- A text of such characters that is not too long. -/
def Fits (s : String) (n : ℕ) : Prop := s.toList.length ≤ n ∧ ∀ c ∈ s.toList, Unescaped c

/-- A printed text of at most this many bytes. -/
def Spans (cs : List Char) (n : ℕ) : Prop := cs.length ≤ n ∧ ∀ c ∈ cs, c.toNat < 0x80

theorem Spans.append {cs ds : List Char} {m n : ℕ} (h : Spans cs m) (h' : Spans ds n) :
    Spans (cs ++ ds) (m + n) := by
  constructor
  · rw [List.length_append]
    exact Nat.add_le_add h.1 h'.1
  · intro c hc
    exact (List.mem_append.mp hc).elim (h.2 c) (h'.2 c)

theorem spans_literal (text : String) (n : ℕ)
    (h : (decide (text.toList.length ≤ n) && text.toList.all fun c => decide (c.toNat < 0x80)) =
      true) :
    Spans text.toList n := by
  rw [Bool.and_eq_true, List.all_eq_true] at h
  exact ⟨of_decide_eq_true h.1, fun c hc => of_decide_eq_true (h.2 c hc)⟩

theorem encodeUtf8_length {cs : List Char} (h : ∀ c ∈ cs, c.toNat < 0x80) :
    (encodeUtf8 cs).length = cs.length := by
  induction cs with
  | nil => rfl
  | cons c cs ih =>
    have hc : encodeChar c = [.ofNat c.toNat] := by
      simp [encodeChar, h c List.mem_cons_self]
    change (encodeChar c ++ encodeUtf8 cs).length = _
    rw [hc, List.length_append, ih fun d hd => h d (List.mem_cons_of_mem c hd), List.length_cons,
      Nat.add_comm]
    rfl

theorem spans_printString {s : String} {n : ℕ} (h : Fits s n) : Spans (printString s) (n + 2) := by
  have hsame : ∀ cs : List Char, (∀ c ∈ cs, Unescaped c) → cs.flatMap escapeChar = cs := by
    intro cs hcs
    induction cs with
    | nil => rfl
    | cons c cs ih =>
      obtain ⟨hshort, hlow, _⟩ := hcs c List.mem_cons_self
      have hplain : escapeChar c = [c] := by
        unfold escapeChar
        rw [hshort]
        exact if_neg (by omega)
      rw [List.flatMap_cons, hplain, ih fun d hd => hcs d (List.mem_cons_of_mem c hd)]
      rfl
  have hprint : printString s = '"' :: s.toList ++ ['"'] := by rw [printString, hsame _ h.2]
  rw [hprint]
  constructor
  · have hlength := h.1
    simp only [List.cons_append, List.length_cons, List.length_append, List.length_nil]
    omega
  · intro c hc
    rcases List.mem_append.mp hc with hc | hc
    · rcases List.mem_cons.mp hc with rfl | hc
      · decide
      · exact (h.2 c hc).2.2
    · rw [List.mem_singleton.mp hc]
      decide

theorem spans_printNat {n : ℕ} (h : n < 10 ^ 20) : Spans (printNat n) 20 := by
  constructor
  · exact (Nat.length_toDigits_le_iff (by omega) (by omega)).mpr h
  · intro c hc
    have hdigit : c.isDigit = true := Nat.isDigit_of_mem_toDigits (by omega) (by omega) hc
    simp only [Char.isDigit, Bool.and_eq_true, decide_eq_true_eq] at hdigit
    exact Nat.lt_of_le_of_lt (UInt32.le_iff_toNat_le.mp hdigit.2) (by decide)

theorem spans_printInt (v : Int64) : Spans (printInt v.toInt) 21 := by
  have hlow := v.le_toInt
  have hhigh := v.toInt_lt
  cases hv : v.toInt with
  | ofNat n =>
    rw [hv] at hhigh
    have hn := spans_printNat (n := n) (by simp only [Int.ofNat_eq_natCast] at hhigh; omega)
    exact ⟨hn.1.trans (by omega), hn.2⟩
  | negSucc n =>
    rw [hv] at hlow
    have hn := spans_printNat (n := n + 1) (by omega)
    constructor
    · exact Nat.succ_le_succ hn.1
    · intro c hc
      rcases List.mem_cons.mp hc with rfl | hc
      · decide
      · exact hn.2 c hc

/-- Fields whose texts have the lengths that a prepared receipt gives them. -/
structure Bounded (f : Fields) : Prop where
  network : Fits f.network 16
  nodeId : Fits f.nodeId 130
  fingerprint : Fits f.masterFingerprint 8
  endpoint : Fits f.endpointSha256 64
  target : Fits f.targetSha256 64
  identity : Fits f.manifestIdentitySha256 64

theorem spans_printFieldsThen {f : Fields} (h : Bounded f) {rest : List Char} {n : ℕ}
    (hrest : Spans rest n) : Spans (printFieldsThen f rest) (800 + n) := by
  have hschema := spans_printNat (n := f.schemaVersion.toNat)
    (f.schemaVersion.toNat_lt.trans (by decide))
  have hspans := (spans_literal "\x7b\"schema_version\":" 40 (by decide)).append (hschema.append
    ((spans_literal ",\"network\":" 40 (by decide)).append ((spans_printString h.network).append
    ((spans_literal ",\"node_id\":" 40 (by decide)).append ((spans_printString h.nodeId).append
    ((spans_literal ",\"master_fingerprint\":" 40 (by decide)).append
    ((spans_printString h.fingerprint).append
    ((spans_literal ",\"version\":" 40 (by decide)).append ((spans_printInt f.version).append
    ((spans_literal ",\"endpoint_sha256\":" 40 (by decide)).append
    ((spans_printString h.endpoint).append
    ((spans_literal ",\"target_sha256\":" 40 (by decide)).append
    ((spans_printString h.target).append
    ((spans_literal ",\"manifest_identity_sha256\":" 40 (by decide)).append
    ((spans_printString h.identity).append
    ((spans_literal "\x7d" 40 (by decide)).append hrest))))))))))))))))
  exact ⟨hspans.1.trans (by omega), hspans.2⟩

theorem encodeReceipt_length {r : Receipt} (h : Bounded r.fields) (hmac : Fits r.mac 64) :
    (encodeReceipt r).length ≤ maxReceipt := by
  have hspans : Spans (printReceipt r) _ := (spans_literal "\x7b\"fields\":" 40 (by decide)).append
    (spans_printFieldsThen h
    ((spans_literal ",\"mac\":" 40 (by decide)).append ((spans_printString hmac).append
    (spans_literal "\x7d" 40 (by decide)))))
  rw [encodeReceipt, encodeUtf8_length hspans.2]
  exact hspans.1.trans (by decide)

theorem hexDigit_unescaped : ∀ d < 16, Unescaped (hexDigit d) := by
  decide

theorem digest_fits {crates : Crates} (bytes : Bytes) : Fits (crates.digest bytes) 64 := by
  unfold Fits Crates.digest
  rw [String.toList_ofList, hex_length, crates.sha256_length]
  refine ⟨le_refl _, ?_⟩
  intro c hc
  obtain ⟨b, _, hb⟩ := List.mem_flatMap.mp hc
  have hbyte := b.toNat_lt
  rcases List.mem_cons.mp hb with rfl | hb
  · exact hexDigit_unescaped _ (by omega)
  · rw [List.mem_singleton.mp hb]
    exact hexDigit_unescaped _ (by omega)

/-! ### The code -/

variable {crates : Crates}

def mac (key : Bytes) (fields : Fields) : String :=
  String.ofList (hex (crates.hmac key (encodeFields fields)))

/-- Two codes are compared in constant time: lengths first, then all bytes. -/
def macDiffers (a b : String) : Bool :=
  (utf8 a).length != (utf8 b).length ||
    ((utf8 a).zip (utf8 b)).foldl (fun n p => n ||| (p.1 ^^^ p.2)) 0 != 0

theorem foldl_or_eq_zero {pairs : List (UInt8 × UInt8)} {n : UInt8} :
    pairs.foldl (fun n p => n ||| (p.1 ^^^ p.2)) n = 0 ↔ n = 0 ∧ ∀ p ∈ pairs, p.1 = p.2 := by
  induction pairs generalizing n with
  | nil => simp
  | cons p pairs ih =>
    rw [List.foldl_cons, ih, UInt8.or_eq_zero_iff, UInt8.xor_eq_zero_iff, List.forall_mem_cons,
      and_assoc]

theorem eq_of_zip {as bs : Bytes} (hlength : as.length = bs.length)
    (h : ∀ p ∈ as.zip bs, p.1 = p.2) : as = bs := by
  apply List.ext_getElem hlength
  intro i ha hb
  have hi : i < (as.zip bs).length := by
    rw [List.length_zip]
    omega
  have hp := h _ (List.getElem_mem hi)
  rwa [List.getElem_zip] at hp

theorem utf8_inj {a b : String} (h : utf8 a = utf8 b) : a = b := by
  have hdecode := congrArg decodeUtf8 h
  rw [utf8, utf8, decodeUtf8_encodeUtf8, decodeUtf8_encodeUtf8] at hdecode
  exact String.toList_inj.mp (Option.some.inj hdecode)

theorem macDiffers_eq_false {a b : String} : macDiffers a b = false ↔ a = b := by
  unfold macDiffers
  rw [Bool.or_eq_false_iff, bne_eq_false_iff_eq, bne_eq_false_iff_eq, foldl_or_eq_zero]
  constructor
  · rintro ⟨hlength, _, hall⟩
    exact utf8_inj (eq_of_zip hlength hall)
  · rintro rfl
    refine ⟨rfl, rfl, ?_⟩
    intro p hp
    obtain ⟨i, hi, rfl⟩ := List.getElem_of_mem hp
    rw [List.getElem_zip]

/-! ### Reading -/

/-- Opening for reading without following a link. -/
def openNoFollow (p : Path) : Io Node :=
  .primitive .other fun _ t => match t.node p with
    | none => (.error .notFound, t)
    | some .symlink => (.error .other, t)
    | some n => (.ok n, t)

/-- Owned by the effective user, readable and writable by it alone, with one link. -/
def privateNode : Node → Bool
  | .file _ attr | .dir attr => attr.owned && attr.mode &&& 0o777 == 0o600 && attr.nlink == 1
  | _ => false

def privateRead (path : Path) (maximum : ℕ) : Proc Tree APIError Bytes := do
  let _ ← orError "VSS_RESTORE_INVALID_RECEIPT" (openNoFollow path)
  let metadata ← orError "VSS_RESTORE_INVALID_RECEIPT" (symlinkMetadata path)
  if !privateNode metadata then .throw (error "VSS_RESTORE_INVALID_RECEIPT")
  else match metadata with
    | .file content _ =>
      if content.length > maximum then .throw (error "VSS_RESTORE_INVALID_RECEIPT")
      else do
        let bytes ← orError "VSS_RESTORE_INVALID_RECEIPT" (readToEnd path)
        if (bytes.take (maximum + 1)).length > maximum then
          .throw (error "VSS_RESTORE_INVALID_RECEIPT")
        else return bytes.take (maximum + 1)
    | _ => .throw (error "VSS_RESTORE_INVALID_RECEIPT")

variable (ctx : Context crates)

def Context.keyPath (ctx : Context crates) : Path := ctx.base ++ [keyName]
def Context.wallet (ctx : Context crates) : Path := ctx.base ++ [ctx.fp]

def readKey : Proc Tree APIError Bytes := do
  let key ← privateRead ctx.keyPath 32
  if key.length ≠ 32 then .throw (error "VSS_RESTORE_INVALID_RECEIPT") else return key

/-- A directory of the effective user, opened without following a link. -/
def openDirectory (path : Path) : Proc Tree APIError Unit := do
  let _ ← orError "VSS_RESTORE_INVALID_TARGET" (openNoFollow path)
  let metadata ← orError "VSS_RESTORE_INVALID_TARGET" (symlinkMetadata path)
  match metadata with
  | .dir attr => if attr.owned then return () else .throw (error "VSS_RESTORE_INVALID_TARGET")
  | _ => .throw (error "VSS_RESTORE_INVALID_TARGET")

/-- The fields are not those of a receipt for this context. -/
def mismatched (f : Fields) : Bool :=
  f.schemaVersion != 1 || decide (f.version ≤ 0) || f.network != ctx.network ||
    f.nodeId != ctx.nodeId || f.masterFingerprint != ctx.fp ||
    f.endpointSha256 != ctx.endpointHash || f.targetSha256 != ctx.targetHash

/-- The last check of a receipt: the manifest on disk states the recorded identity. -/
def checkManifest (f : Fields) : Proc Tree APIError Fields := do
  let manifest ← privateRead (ctx.wallet ++ ["wallet_manifest.json"]) maxManifest
  match manifestIdentity manifest ctx with
  | .error failure => .throw failure
  | .ok identity =>
    if identity ≠ f.manifestIdentitySha256 then .throw (error "VSS_RESTORE_IDENTITY_MISMATCH")
    else return f

def loadReceipt (serde : ReceiptSerde) : Proc Tree APIError Fields := do
  openDirectory ctx.wallet
  let bytes ← privateRead (ctx.wallet ++ [receiptName]) maxReceipt
  match serde.decode bytes with
  | none => .throw (error "VSS_RESTORE_INVALID_RECEIPT")
  | some receipt =>
    if mismatched ctx receipt.fields then .throw (error "VSS_RESTORE_INVALID_RECEIPT")
    else do
      let key ← readKey ctx
      if macDiffers receipt.mac (@mac crates key receipt.fields) then
        .throw (error "VSS_RESTORE_INVALID_RECEIPT")
      else checkManifest ctx receipt.fields

/-! ### What reading finds -/

section Reading

variable {t : Tree} {p : Path}

/-- A private file that is not too long. -/
def PrivateFile (t : Tree) (p : Path) (maximum : ℕ) (content : Bytes) : Prop :=
  ∃ attr, t.node p = some (.file content attr) ∧ privateNode (.file content attr) = true ∧
    content.length ≤ maximum

theorem holds_openNoFollow {Q : Outcome IoError Node → Tree → Prop}
    (hok : ∀ n, t.node p = some n → Q (.ok n) t) (herror : ∀ e, Q (.error e) t)
    (hdie : Q .died t) : Holds (openNoFollow p) t Q := by
  refine holds_primitive ?_ (herror _) hdie
  intro _
  cases hn : t.node p with
  | none => exact herror _
  | some n =>
    cases n with
    | symlink => exact herror _
    | file bytes attr => exact hok _ hn
    | dir attr => exact hok _ hn
    | special => exact hok _ hn

theorem privateRead_spec (maximum : ℕ) : Holds (privateRead p maximum) t (fun o t' => t = t' ∧
    o ≠ .panicked ∧ ∀ content, o = .ok content → PrivateFile t p maximum content) := by
  have hfail : ∀ e : APIError, t = t ∧ (Outcome.error e : Outcome APIError Bytes) ≠ .panicked ∧
      ∀ content, (Outcome.error e : Outcome APIError Bytes) = .ok content →
        PrivateFile t p maximum content :=
    fun e => ⟨rfl, by simp, fun content h => by cases h⟩
  have hdead : t = t ∧ (Outcome.died : Outcome APIError Bytes) ≠ .panicked ∧
      ∀ content, (Outcome.died : Outcome APIError Bytes) = .ok content →
        PrivateFile t p maximum content :=
    ⟨rfl, by simp, fun content h => by cases h⟩
  apply holds_bind
  apply holds_mapError
  apply holds_openNoFollow
  · intro _ _
    apply holds_bind
    apply holds_mapError
    apply holds_symlinkMetadata
    · intro n hn
      apply holds_ite
      · exact fun _ => holds_throw (hfail _)
      intro hprivate
      cases n with
      | file content attr =>
        apply holds_ite
        · exact fun _ => holds_throw (hfail _)
        intro hlength
        apply holds_bind
        apply holds_mapError
        apply holds_readToEnd
        · intro read attr' hread
          rw [hn] at hread
          cases hread
          apply holds_ite
          · exact fun _ => holds_throw (hfail _)
          intro _
          apply holds_pure
          refine ⟨rfl, by simp, ?_⟩
          intro found hfound
          have hwhole : content.take (maximum + 1) = content :=
            List.take_of_length_le (by omega)
          cases hfound
          rw [hwhole]
          exact ⟨attr, hn, by simpa using hprivate, by omega⟩
        · exact fun _ => hfail _
        · exact hdead
      | dir attr => exact holds_throw (hfail _)
      | symlink => exact holds_throw (hfail _)
      | special => exact holds_throw (hfail _)
    · exact fun _ => hfail _
    · exact hfail _
    · exact hdead
  · exact fun _ => hfail _
  · exact hdead

/-- A private file is read when nothing fails. -/
theorem privateRead_calm {maximum : ℕ} {content : Bytes} (h : PrivateFile t p maximum content) :
    Calmly (privateRead p maximum) t (fun o t' => o = .ok content ∧ t = t') := by
  obtain ⟨attr, hnode, hprivate, hlength⟩ := h
  apply calmly_bind
  apply calmly_mapError
  apply calmly_primitive
  intro _
  rw [hnode]
  apply calmly_bind
  apply calmly_mapError
  apply calmly_primitive
  intro _
  rw [hnode]
  change Calmly (if !privateNode (.file content attr) then _ else _) t _
  rw [hprivate]
  change Calmly (if content.length > maximum then _ else _) t _
  rw [if_neg (by omega)]
  apply calmly_bind
  apply calmly_mapError
  apply calmly_primitive
  intro _
  rw [hnode]
  have hwhole : content.take (maximum + 1) = content := List.take_of_length_le (by omega)
  change Calmly (if (content.take (maximum + 1)).length > maximum then _ else _) t _
  rw [hwhole, if_neg (by omega)]
  exact calmly_pure ⟨rfl, rfl⟩

theorem openDirectory_spec : Holds (openDirectory p) t (fun o t' => t = t' ∧ o ≠ .panicked ∧
    (o = .ok () → ∃ attr, t.node p = some (.dir attr) ∧ attr.owned = true)) := by
  apply holds_bind
  apply holds_mapError
  apply holds_openNoFollow
  · intro _ _
    apply holds_bind
    apply holds_mapError
    apply holds_symlinkMetadata
    · intro n hn
      cases n with
      | dir attr =>
        change Holds (if attr.owned then _ else _) t _
        by_cases howned : attr.owned = true
        · rw [if_pos howned]
          exact holds_pure ⟨rfl, by simp, fun _ => ⟨attr, hn, howned⟩⟩
        · rw [if_neg howned]
          exact holds_throw ⟨rfl, by simp, by simp⟩
      | file bytes attr => exact holds_throw ⟨rfl, by simp, by simp⟩
      | symlink => exact holds_throw ⟨rfl, by simp, by simp⟩
      | special => exact holds_throw ⟨rfl, by simp, by simp⟩
    · exact fun _ => ⟨rfl, by simp, by simp⟩
    · exact ⟨rfl, by simp, by simp⟩
    · exact ⟨rfl, by simp, by simp⟩
  · exact fun _ => ⟨rfl, by simp, by simp⟩
  · exact ⟨rfl, by simp, by simp⟩

theorem openDirectory_calm {attr : Attr} (h : t.node p = some (.dir attr))
    (howned : attr.owned = true) :
    Calmly (openDirectory p) t (fun o t' => o = .ok () ∧ t = t') := by
  apply calmly_bind
  apply calmly_mapError
  apply calmly_primitive
  intro _
  rw [h]
  apply calmly_bind
  apply calmly_mapError
  apply calmly_primitive
  intro _
  rw [h]
  change Calmly (if attr.owned then _ else _) t _
  rw [if_pos howned]
  exact calmly_pure ⟨rfl, rfl⟩

end Reading

/-! ### What a receipt is good for -/

variable {ctx} {t : Tree} {serde : ReceiptSerde}

variable (ctx) in
/-- The key of the storage directory. -/
def KeyFile (t : Tree) (key : Bytes) : Prop := PrivateFile t ctx.keyPath 32 key ∧ key.length = 32

variable (ctx serde) in
/-- The wallet directory holds a receipt with these fields that verifies. -/
structure Verified (t : Tree) (f : Fields) : Prop where
  dir : ∃ attr, t.node ctx.wallet = some (.dir attr) ∧ attr.owned = true
  matched : mismatched ctx f = false
  receipt : ∃ key bytes code, KeyFile ctx t key ∧
    PrivateFile t (ctx.wallet ++ [receiptName]) maxReceipt bytes ∧
    serde.decode bytes = some ⟨f, code⟩ ∧ code = @mac crates key f
  manifest : ∃ content, PrivateFile t (ctx.wallet ++ ["wallet_manifest.json"]) maxManifest content ∧
    manifestIdentity content ctx = .ok f.manifestIdentitySha256

theorem readKey_spec : Holds (readKey ctx) t (fun o t' => t = t' ∧ o ≠ .panicked ∧
    ∀ key, o = .ok key → KeyFile ctx t key) := by
  apply holds_bind
  refine (privateRead_spec 32).mono ?_
  rintro o _ ⟨rfl, hpanic, hread⟩
  cases o with
  | ok key =>
    apply holds_ite
    · exact fun _ => holds_throw ⟨rfl, by simp, fun key h => by cases h⟩
    · intro hlength
      apply holds_pure
      refine ⟨rfl, by simp, ?_⟩
      intro key' hkey
      cases hkey
      exact ⟨hread key rfl, not_not.mp hlength⟩
  | error e => exact ⟨rfl, by simp, fun key h => by cases h⟩
  | panicked => exact absurd rfl hpanic
  | died => exact ⟨rfl, by simp, fun key h => by cases h⟩

theorem readKey_calm {key : Bytes} (h : KeyFile ctx t key) :
    Calmly (readKey ctx) t (fun o t' => o = .ok key ∧ t = t') := by
  apply calmly_bind
  refine (privateRead_calm h.1).mono ?_
  rintro _ _ ⟨rfl, rfl⟩
  change Calmly (if key.length ≠ 32 then _ else _) t _
  rw [if_neg (not_not.mpr h.2)]
  exact calmly_pure ⟨rfl, rfl⟩

theorem checkManifest_spec (f : Fields) : Holds (checkManifest ctx f) t (fun o t' =>
    t = t' ∧ o ≠ .panicked ∧ ∀ f', o = .ok f' → f' = f ∧
      ∃ content, PrivateFile t (ctx.wallet ++ ["wallet_manifest.json"]) maxManifest content ∧
        manifestIdentity content ctx = .ok f.manifestIdentitySha256) := by
  apply holds_bind
  refine (privateRead_spec maxManifest).mono ?_
  rintro o _ ⟨rfl, hpanic, hread⟩
  cases o with
  | ok content =>
    change Holds (match manifestIdentity content ctx with | .error _ => _ | .ok _ => _) t _
    cases hid : manifestIdentity content ctx with
    | error failure => exact holds_throw ⟨rfl, by simp, fun f h => by cases h⟩
    | ok identity =>
      apply holds_ite
      · exact fun _ => holds_throw ⟨rfl, by simp, fun f h => by cases h⟩
      · intro hsame
        apply holds_pure
        refine ⟨rfl, by simp, ?_⟩
        intro f' hf
        cases hf
        exact ⟨rfl, content, hread content rfl, by rw [hid, not_not.mp hsame]⟩
  | error e => exact ⟨rfl, by simp, fun f h => by cases h⟩
  | panicked => exact absurd rfl hpanic
  | died => exact ⟨rfl, by simp, fun f h => by cases h⟩

/-- Loading a receipt changes nothing, and what it accepts verifies. -/
theorem loadReceipt_spec : Holds (loadReceipt ctx serde) t (fun o t' =>
    t = t' ∧ o ≠ .panicked ∧ ∀ f, o = .ok f → Verified ctx serde t f) := by
  have hfail : ∀ e : APIError, t = t ∧ (Outcome.error e : Outcome APIError Fields) ≠ .panicked ∧
      ∀ f, (Outcome.error e : Outcome APIError Fields) = .ok f → Verified ctx serde t f :=
    fun e => ⟨rfl, by simp, fun f h => by cases h⟩
  have hdead : t = t ∧ (Outcome.died : Outcome APIError Fields) ≠ .panicked ∧
      ∀ f, (Outcome.died : Outcome APIError Fields) = .ok f → Verified ctx serde t f :=
    ⟨rfl, by simp, fun f h => by cases h⟩
  apply holds_bind
  refine openDirectory_spec.mono ?_
  rintro o _ ⟨rfl, hpanic, hdir⟩
  cases o with
  | error e => exact hfail e
  | panicked => exact absurd rfl hpanic
  | died => exact hdead
  | ok _ =>
  apply holds_bind
  refine (privateRead_spec maxReceipt).mono ?_
  rintro o _ ⟨rfl, hpanic, hreceipt⟩
  cases o with
  | error e => exact hfail e
  | panicked => exact absurd rfl hpanic
  | died => exact hdead
  | ok bytes =>
  change Holds (match serde.decode bytes with | none => _ | some _ => _) t _
  cases hdecode : serde.decode bytes with
  | none => exact holds_throw (hfail _)
  | some receipt =>
  obtain ⟨fields, code⟩ := receipt
  apply holds_ite
  · exact fun _ => holds_throw (hfail _)
  intro hmatched
  apply holds_bind
  refine readKey_spec.mono ?_
  rintro o _ ⟨rfl, hpanic, hkey⟩
  cases o with
  | error e => exact hfail e
  | panicked => exact absurd rfl hpanic
  | died => exact hdead
  | ok key =>
  apply holds_ite
  · exact fun _ => holds_throw (hfail _)
  intro hmac
  refine (checkManifest_spec fields).mono ?_
  rintro o _ ⟨rfl, hpanic, hmanifest⟩
  refine ⟨rfl, hpanic, ?_⟩
  intro f hf
  obtain ⟨rfl, hcontent⟩ := hmanifest f hf
  exact ⟨hdir rfl, by simpa using hmatched, ⟨key, bytes, code, hkey key rfl, hreceipt bytes rfl,
    hdecode, macDiffers_eq_false.mp (by simpa using hmac)⟩, hcontent⟩

/-- What verifies is accepted when nothing fails. -/
theorem loadReceipt_calm {f : Fields} (h : Verified ctx serde t f) :
    Calmly (loadReceipt ctx serde) t (fun o t' => o = .ok f ∧ t = t') := by
  obtain ⟨⟨attr, hdir, howned⟩, hmatched, ⟨key, bytes, code, hkey, hbytes, hdecode, hcode⟩,
    ⟨content, hcontent, hid⟩⟩ := h
  apply calmly_bind
  refine (openDirectory_calm hdir howned).mono ?_
  rintro _ _ ⟨rfl, rfl⟩
  apply calmly_bind
  refine (privateRead_calm hbytes).mono ?_
  rintro _ _ ⟨rfl, rfl⟩
  change Calmly (match serde.decode bytes with | none => _ | some _ => _) t _
  rw [hdecode]
  change Calmly (if mismatched ctx f then _ else _) t _
  rw [if_neg (by simp [hmatched])]
  apply calmly_bind
  refine (readKey_calm hkey).mono ?_
  rintro _ _ ⟨rfl, rfl⟩
  change Calmly (if macDiffers code (@mac crates key f) then _ else _) t _
  rw [if_neg (by simp [macDiffers_eq_false.mpr hcode])]
  apply calmly_bind
  refine (privateRead_calm hcontent).mono ?_
  rintro _ _ ⟨rfl, rfl⟩
  change Calmly (match manifestIdentity content ctx with | .error _ => _ | .ok _ => _) t _
  rw [hid]
  change Calmly (if f.manifestIdentitySha256 ≠ f.manifestIdentitySha256 then _ else _) t _
  rw [if_neg (not_not.mpr rfl)]
  exact calmly_pure ⟨rfl, rfl⟩

end RgbLightningNode.Restore
