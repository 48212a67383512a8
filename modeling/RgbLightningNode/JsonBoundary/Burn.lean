import RgbLightningNode.JsonBoundary.Numbers

/-!
# Burn requests

An amount is given as a number or in digits. What passes the checks reaches the native side with
exactly the digits of the number that the caller meant.
-/

namespace RgbLightningNode.JsonBoundary
open Number Json

/-- A value of the language, as far as a request is asked about it. -/
inductive JsValue where
  | undefined
  | null
  | boolean (b : Bool)
  | number (d : Double)
  | string (s : Units)
  | bigint (i : ℤ)
  | symbol
  | function
  | object
  deriving DecidableEq

abbrev Fields := List (Units × JsValue)

inductive Request where
  /-- A plain object and its own fields. -/
  | object (fields : Fields)
  | array
  /-- `null`, `undefined` or a value that is no object. -/
  | primitive

def Fields.get (fields : Fields) (key : String) : JsValue :=
  ((fields.find? (·.1 = units key)).map Prod.snd).getD .undefined

def typeError (message : Units) : JsError := ⟨"TypeError", message, none⟩

def rangeError (message : Units) : JsError := ⟨"RangeError", message, none⟩

def burnKeys : List Units :=
  ["asset_id", "amount", "burn_recipient", "fee_rate", "min_confirmations"].map units

/-- The test for `/^(0|[1-9][0-9]*)$/`. -/
def isDecimalText (s : Units) : Bool :=
  s = [0x30] || (!s.isEmpty && s.head? ≠ some 0x30 && s.all fun u => (unitDigit u).isSome)

def isHexUnit (u : UInt16) : Bool :=
  (0x30 ≤ u && u ≤ 0x39) || (0x61 ≤ u && u ≤ 0x66) || (0x41 ≤ u && u ≤ 0x46)

/-- `BigInt(value)`, as far as it is asked for numbers and digits. -/
def bigIntOf : JsValue → Option ℤ
  | .number d => match d.value with
    | some q => if q.isInt then some q.num else none
    | none => none
  | .string s => if isIntegerText s then some (bigInt s) else none
  | _ => none

/-- `String(value)`, where it is asked for. -/
def stringOf : JsValue → Units
  | .number d => match d.toToken with
    | some token => tokenText token
    | none => units "NaN"
  | .string s => s
  | _ => []

/-- `new LosslessNumber(text)`. -/
def losslessNumber (text : Units) : Except JsError Token :=
  match readToken text with
  | some (token, []) => .ok token
  | _ => .error ⟨"Error", units "Invalid number", none⟩

def checkedValue : JsValue → Except JsError Unit
  | .number d => (checkedNumber d).map fun _ => ()
  | _ => .ok ()

def isUnsigned : JsValue → Bool
  | .number d => d.isSafeInteger && (match d.value with
    | some q => decide (0 ≤ q)
    | none => false)
  | .string s => isDecimalText s
  | _ => false

def uint64 (value : JsValue) (field : String) : Except JsError Token :=
  let error := rangeError (units ("burn." ++ field ++ " must be an unsigned 64-bit integer"))
  match checkedValue value with
  | .error e => .error e
  | .ok _ =>
    -- `BigInt` is not reached for a value that it would throw for.
    if !isUnsigned value then .error error
    else match bigIntOf value with
      | none => .error ⟨"SyntaxError", units "Cannot convert to a BigInt", none⟩
      | some i =>
        if 18446744073709551615 < i then .error error else losslessNumber (stringOf value)

def isUInt8 : JsValue → Bool
  | .number d => d.isInteger && (match d.value with
    | some q => decide (0 ≤ q ∧ q ≤ 255)
    | none => false)
  | _ => false

def isRecipient : JsValue → Bool
  | .undefined => true
  | .null => true
  | .string s => s.length = 64 && s.all isHexUnit
  | _ => false

/-- What the serializer makes of a field; an undefined one is left out. -/
def member (key : String) : JsValue → List (Units × Value Token)
  | .null => [(units key, .null)]
  | .boolean b => [(units key, .bool b)]
  | .number d => match d.toToken with
    | some token => [(units key, .number token)]
    | none => [(units key, .null)]
  | .string s => [(units key, .string s)]
  | _ => []

def burnRequest (request : Request) : Except JsError Units :=
  match request with
  | .primitive => .error (typeError (units "burn request must be an object"))
  | .array => .error (typeError (units "burn request must be an object"))
  | .object fields =>
    match fields.find? fun f => !burnKeys.contains f.1 with
    | some (key, _) => .error (typeError (units "Unknown burn request field: " ++ key))
    | none =>
      if !(match fields.get "asset_id" with
        | .string s => !s.isEmpty
        | _ => false) then
        .error (typeError (units "burn.asset_id must be a non-empty string"))
      else if !isUInt8 (fields.get "min_confirmations") then
        .error (rangeError (units "burn.min_confirmations must be an unsigned 8-bit integer"))
      else if !isRecipient (fields.get "burn_recipient") then
        .error (typeError (units "burn.burn_recipient must encode exactly 32 bytes as hex"))
      else
        match uint64 (fields.get "amount") "amount" with
        | .error e => .error e
        | .ok amount =>
          match uint64 (fields.get "fee_rate") "fee_rate" with
          | .error e => .error e
          | .ok feeRate =>
            .ok (Value.object (member "asset_id" (fields.get "asset_id") ++
              ((units "amount", .number amount) ::
                (member "burn_recipient" (fields.get "burn_recipient") ++
                  ((units "fee_rate", .number feeRate) ::
                    member "min_confirmations" (fields.get "min_confirmations")))))).text

/-- The request of a caller, and the texts that the native call was given. -/
structure Session where
  request : Request
  submitted : List Units

/-- `SdkNode.burn`. -/
def burn (lossless : Lossless) (native : Units → Except JsError Units) (s : Session) :
    Except JsError (Value Double) × Session :=
  match burnRequest s.request with
  | .error e => (.error e, s)
  | .ok text =>
    let s := { s with submitted := s.submitted ++ [text] }
    match native text with
    | .error e => (.error e, s)
    | .ok answer => (parse lossless answer, s)

/-! ### Amounts -/

/-- An amount: a safe integer, or the digits of a number of 64 bits. -/
def Amount (v : JsValue) (n : ℕ) : Prop :=
  (∃ d, v = .number d ∧ d.value = some (n : ℚ) ∧ n ≤ Double.maxSafeInteger) ∨
    (v = .string ((decimal n).map digitUnit) ∧ n < 2 ^ 64)

theorem digitUnit_unitDigit {u : UInt16} {d : Digit} (h : unitDigit u = some d) :
    digitUnit d = u := by
  unfold unitDigit at h
  split_ifs at h with hrange
  cases h
  have hu : 48 + (u.toNat - 48) = u.toNat := by omega
  simp only [digitUnit, hu, UInt16.ofNat_toNat]

theorem exists_digits {s : Units} (h : (s.all fun u => (unitDigit u).isSome) = true) :
    ∃ digits : List Digit, s = digits.map digitUnit := by
  induction s with
  | nil => exact ⟨[], rfl⟩
  | cons u s ih =>
    simp only [List.all_cons, Bool.and_eq_true] at h
    obtain ⟨d, hd⟩ := Option.isSome_iff_exists.mp h.1
    obtain ⟨digits, rfl⟩ := ih h.2
    exact ⟨d :: digits, by rw [List.map_cons, digitUnit_unitDigit hd]⟩

theorem isDecimalText_iff {s : Units} :
    isDecimalText s = true ↔ ∃ n, s = (decimal n).map digitUnit := by
  constructor
  · intro h
    simp only [isDecimalText, Bool.or_eq_true, Bool.and_eq_true, decide_eq_true_eq] at h
    rcases h with rfl | ⟨⟨hne, hhead⟩, hdigits⟩
    · exact ⟨0, rfl⟩
    · obtain ⟨digits, rfl⟩ := exists_digits hdigits
      cases digits with
      | nil => cases hne
      | cons d digits =>
        have hd : d ≠ 0 := by
          rintro rfl
          exact hhead rfl
        exact ⟨digitsValue (d :: digits), by rw [decimal_digitsValue hd]⟩
  · rintro ⟨n, rfl⟩
    by_cases hzero : n = 0
    · subst hzero
      rfl
    · have hhead := decimal_head hzero
      cases hdigits : decimal n with
      | nil => exact absurd hdigits (decimal_ne_nil n)
      | cons d digits =>
        simp only [hdigits, List.head_cons] at hhead
        have hne : ∀ d : Digit, d ≠ 0 → digitUnit d ≠ 0x30 := by decide
        simp [isDecimalText, hne d hhead, unitDigit_digitUnit]

theorem losslessNumber_digits (n : ℕ) :
    losslessNumber ((decimal n).map digitUnit) = .ok (.integer false n) := by
  have hread := readToken_append (.integer false n) (show TokenEnd [] by simp [TokenEnd])
  rw [List.append_nil, tokenText_integer] at hread
  rw [losslessNumber, hread]

theorem bigInt_digits (n : ℕ) :
    isIntegerText ((decimal n).map digitUnit) = true ∧ bigInt ((decimal n).map digitUnit) = n := by
  rw [← tokenText_integer]
  exact ⟨(isIntegerText_iff _).mpr ⟨rfl, rfl⟩, bigInt_token ⟨rfl, rfl⟩⟩

/-- A safe integer that is not negative is a natural number. -/
theorem isUnsigned_number {d : Double} (h : isUnsigned (.number d) = true) :
    ∃ n : ℕ, d.value = some (n : ℚ) ∧ n ≤ Double.maxSafeInteger := by
  cases d with
  | nan => cases h
  | infinity negative => cases h
  | finite negative magnitude =>
    simp only [isUnsigned, Double.isSafeInteger, Double.value, Bool.and_eq_true,
      decide_eq_true_eq] at h
    obtain ⟨⟨hint, hsafe⟩, hsign⟩ := h
    obtain ⟨n, hn⟩ :=
      exists_int.mp (show (Double.finite negative magnitude).isInteger = true from hint)
    rw [hn] at hsafe hsign
    have hsmall : n ≤ Double.maxSafeInteger := by exact_mod_cast hsafe
    cases negative with
    | false => exact ⟨n, by simp [Double.value, hn], hsmall⟩
    | true =>
      have hzero : n = 0 := by
        rw [if_pos rfl] at hsign
        have hle : (n : ℚ) ≤ 0 := by linarith
        exact_mod_cast le_antisymm hle (Nat.cast_nonneg n)
      exact ⟨0, by simp [Double.value, hn, hzero], Nat.zero_le _⟩

theorem stringOf_number {d : Double} {n : ℕ} (hn : n ≤ Double.maxSafeInteger)
    (h : d.value = some (n : ℚ)) : stringOf (.number d) = (decimal n).map digitUnit := by
  rw [stringOf, toToken_natCast hn h]
  exact tokenText_integer n

theorem safe_of_value {d : Double} {n : ℕ} (h : d.value = some (n : ℚ))
    (hn : n ≤ Double.maxSafeInteger) : ¬Unsafe d ∧ isUnsigned (.number d) = true := by
  have hsafe : ¬Unsafe d := by
    rintro (hnone | ⟨i, hi, hlarge⟩)
    · rw [h] at hnone
      cases hnone
    · rw [h, Option.some.injEq] at hi
      have hi' : (n : ℤ) = i := by exact_mod_cast hi
      omega
  refine ⟨hsafe, ?_⟩
  cases d with
  | nan => cases h
  | infinity negative => cases h
  | finite negative magnitude =>
    have hmagnitude : magnitude.1 = n := magnitude_eq (i := n) (by exact_mod_cast h)
    have hint : (Double.finite negative magnitude).isInteger = true :=
      exists_int.mpr ⟨n, hmagnitude⟩
    have hrange := mt unsafe_iff.mpr hsafe
    rw [hint] at hrange
    have hsafe' : (Double.finite negative magnitude).isSafeInteger = true := by
      simpa [Double.isFinite] using hrange
    simp [isUnsigned, hsafe', h]

/-- The native side is given the digits of the amount, and nothing if there is none. -/
theorem uint64_iff {v : JsValue} {field : String} {token : Token} :
    uint64 v field = .ok token ↔ ∃ n, Amount v n ∧ token = .integer false n := by
  constructor
  · intro h
    unfold uint64 at h
    dsimp only at h
    split at h
    · cases h
    · split_ifs at h with hunsigned
      rw [Bool.not_eq_true, Bool.not_eq_false'] at hunsigned
      cases v with
      | number d =>
        obtain ⟨n, hvalue, hsmall⟩ := isUnsigned_number hunsigned
        refine ⟨n, .inl ⟨d, rfl, hvalue, hsmall⟩, ?_⟩
        split at h
        · cases h
        · split_ifs at h
          rw [stringOf_number hsmall hvalue, losslessNumber_digits] at h
          cases h
          rfl
      | string s =>
        obtain ⟨n, rfl⟩ := isDecimalText_iff.mp hunsigned
        obtain ⟨htext, hvalue⟩ := bigInt_digits n
        simp only [bigIntOf, htext, hvalue, if_true] at h
        split_ifs at h with hlarge
        rw [stringOf, losslessNumber_digits] at h
        cases h
        exact ⟨n, .inr ⟨rfl, by omega⟩, rfl⟩
      | _ => cases hunsigned
  · rintro ⟨n, hamount, rfl⟩
    unfold uint64
    rcases hamount with ⟨d, rfl, hvalue, hsmall⟩ | ⟨rfl, hlt⟩
    · obtain ⟨hsafe, hunsigned⟩ := safe_of_value hvalue hsmall
      have hchecked : checkedValue (.number d) = .ok () := by
        rcases checkedNumber_eq d with ⟨_, hinexact⟩ | ⟨hok, _⟩
        · exact absurd hinexact hsafe
        · rw [checkedValue, hok]
          rfl
      have hbig : bigIntOf (.number d) = some (n : ℤ) := by
        simp [bigIntOf, hvalue, Rat.isInt]
      have hbound : ¬(18446744073709551615 : ℤ) < n := by
        rw [Double.maxSafeInteger] at hsmall
        omega
      simp only [hchecked, hunsigned, hbig, hbound, stringOf_number hsmall hvalue,
        losslessNumber_digits, Bool.not_true, if_false]
      rfl
    · obtain ⟨htext, hvalue⟩ := bigInt_digits n
      have hunsigned : isUnsigned (.string ((decimal n).map digitUnit)) = true :=
        isDecimalText_iff.mpr ⟨n, rfl⟩
      have hbig : bigIntOf (.string ((decimal n).map digitUnit)) = some (n : ℤ) := by
        rw [bigIntOf, if_pos htext, hvalue]
      have hbound : ¬(18446744073709551615 : ℤ) < n := by omega
      simp only [checkedValue, hunsigned, hbig, hbound, stringOf, losslessNumber_digits,
        Bool.not_true, if_false]
      rfl

/-! ### Requests -/

/-- The requests that may be submitted. -/
structure Admissible (fields : Fields) : Prop where
  keys : ∀ f ∈ fields, f.1 ∈ burnKeys
  assetId : ∃ s, s ≠ [] ∧ fields.get "asset_id" = .string s
  amount : ∃ n, Amount (fields.get "amount") n
  feeRate : ∃ n, Amount (fields.get "fee_rate") n
  minConfirmations : ∃ n ≤ 255, ∃ d, fields.get "min_confirmations" = .number d ∧
    d.value = some ((n : ℕ) : ℚ)
  burnRecipient : fields.get "burn_recipient" = .undefined ∨ fields.get "burn_recipient" = .null ∨
    ∃ s : Units, s.length = 64 ∧ (∀ u ∈ s, isHexUnit u = true) ∧
      fields.get "burn_recipient" = .string s

theorem isUInt8_iff {v : JsValue} :
    isUInt8 v = true ↔ ∃ n ≤ 255, ∃ d, v = .number d ∧ d.value = some ((n : ℕ) : ℚ) := by
  constructor
  · intro h
    cases v with
    | number d =>
      cases d with
      | nan => cases h
      | infinity negative => cases h
      | finite negative magnitude =>
        obtain ⟨hint, hrange⟩ := Bool.and_eq_true_iff.mp h
        obtain ⟨n, hn⟩ := exists_int.mp hint
        have hvalue := value_natCast negative hn
        rw [hvalue, decide_eq_true_eq] at hrange
        obtain ⟨hsign, hsmall⟩ := hrange
        norm_cast at hsign hsmall
        obtain ⟨k, hk⟩ := Int.eq_ofNat_of_zero_le hsign
        refine ⟨k, by omega, _, rfl, ?_⟩
        rw [hvalue, hk]
        norm_cast
    | _ => cases h
  · rintro ⟨n, hn, d, rfl, hvalue⟩
    obtain ⟨hsafe, hunsigned⟩ := safe_of_value hvalue (by rw [Double.maxSafeInteger]; omega)
    have hint : d.isInteger = true := by
      cases d with
      | finite negative magnitude =>
        exact (Bool.and_eq_true_iff.mp (Bool.and_eq_true_iff.mp hunsigned).1).1
      | _ => cases hvalue
    have hbound : (0 : ℚ) ≤ n ∧ (n : ℚ) ≤ 255 := ⟨Nat.cast_nonneg n, by exact_mod_cast hn⟩
    simp [isUInt8, hint, hvalue, hbound]

theorem isRecipient_iff {v : JsValue} : isRecipient v = true ↔ v = .undefined ∨ v = .null ∨
    ∃ s : Units, s.length = 64 ∧ (∀ u ∈ s, isHexUnit u = true) ∧ v = .string s := by
  cases v <;> simp [isRecipient]

theorem isAssetId_iff {v : JsValue} : (match v with
    | .string s => !s.isEmpty
    | _ => false) = true ↔ ∃ s, s ≠ [] ∧ v = .string s := by
  cases v <;> simp

theorem unknownKey_iff {fields : Fields} :
    fields.find? (fun f => !burnKeys.contains f.1) = none ↔ ∀ f ∈ fields, f.1 ∈ burnKeys := by
  simp [List.find?_eq_none]

/-- The text of an accepted request. -/
def burnTree (fields : Fields) (amount feeRate : ℕ) : Value Token :=
  .object (member "asset_id" (fields.get "asset_id") ++
    ((units "amount", .number (.integer false amount)) ::
      (member "burn_recipient" (fields.get "burn_recipient") ++
        ((units "fee_rate", .number (.integer false feeRate)) ::
          member "min_confirmations" (fields.get "min_confirmations")))))

theorem burnRequest_iff {fields : Fields} {text : Units} :
    burnRequest (.object fields) = .ok text ↔ Admissible fields ∧ ∃ amount feeRate,
      Amount (fields.get "amount") amount ∧ Amount (fields.get "fee_rate") feeRate ∧
        text = (burnTree fields amount feeRate).text := by
  constructor
  · intro h
    unfold burnRequest at h
    dsimp only at h
    split at h
    · cases h
    · rename_i hkeys
      split_ifs at h with hasset hconfirmations hrecipient
      split at h
      · cases h
      · rename_i amount hamount
        split at h
        · cases h
        · rename_i feeRate hfeeRate
          cases h
          simp only [Bool.not_eq_true', Bool.not_eq_false] at hasset hconfirmations hrecipient
          obtain ⟨n, hn, rfl⟩ := uint64_iff.mp hamount
          obtain ⟨m, hm, rfl⟩ := uint64_iff.mp hfeeRate
          exact ⟨⟨unknownKey_iff.mp hkeys, isAssetId_iff.mp hasset, ⟨n, hn⟩, ⟨m, hm⟩,
            isUInt8_iff.mp hconfirmations, isRecipient_iff.mp hrecipient⟩, n, m, hn, hm, rfl⟩
  · rintro ⟨hadmissible, n, m, hn, hm, rfl⟩
    unfold burnRequest
    dsimp only
    rw [unknownKey_iff.mpr hadmissible.keys, isAssetId_iff.mpr hadmissible.assetId,
      isUInt8_iff.mpr hadmissible.minConfirmations, isRecipient_iff.mpr hadmissible.burnRecipient,
      uint64_iff.mpr ⟨n, hn, rfl⟩, uint64_iff.mpr ⟨m, hm, rfl⟩]
    rfl

theorem digits_inj {m n : ℕ} (h : (decimal m).map digitUnit = (decimal n).map digitUnit) :
    m = n := by
  have hread (k : ℕ) : (readDigits ((decimal k).map digitUnit ++ [])).1 = decimal k := by
    rw [readDigits_append _ (by simp)]
  rw [← digitsValue_decimal m, ← digitsValue_decimal n, ← hread m, ← hread n, h]

theorem Amount.unique {v : JsValue} {m n : ℕ} (hm : Amount v m) (hn : Amount v n) : m = n := by
  rcases hm with ⟨d, rfl, hm, _⟩ | ⟨rfl, _⟩ <;> rcases hn with ⟨d', hd, hn, _⟩ | ⟨hs, _⟩
  · cases hd
    rw [hm, Option.some.injEq] at hn
    exact_mod_cast hn
  · cases hs
  · cases hd
  · exact digits_inj (JsValue.string.inj hs)

/-- A burn request is submitted exactly if it is admissible. Its text then has the amounts as the
tokens of the numbers that were meant, and everything else as it was given; the request stays as it
is. Nothing reaches the native call otherwise. -/
theorem burn_exact (lossless : Lossless) (native : Units → Except JsError Units) (fields : Fields)
    (submitted : List Units) :
    ((∃ text, burnRequest (.object fields) = .ok text) ↔ Admissible fields) ∧
    (burn lossless native ⟨.object fields, submitted⟩).2.request = .object fields ∧
    (∀ e, burnRequest (.object fields) = .error e →
      burn lossless native ⟨.object fields, submitted⟩ = (.error e, ⟨.object fields, submitted⟩)) ∧
    ∀ text, burnRequest (.object fields) = .ok text →
      (burn lossless native ⟨.object fields, submitted⟩).2.submitted = submitted ++ [text] ∧
      ∃ tree, readText text = some tree ∧
        (∀ s, fields.get "asset_id" = .string s → tree.field "asset_id" = some (.string s)) ∧
        (∀ n, Amount (fields.get "amount") n →
          tree.field "amount" = some (.number (.integer false n))) ∧
        (∀ n, Amount (fields.get "fee_rate") n →
          tree.field "fee_rate" = some (.number (.integer false n))) ∧
        (∀ d n, fields.get "min_confirmations" = .number d → d.value = some ((n : ℕ) : ℚ) →
          tree.field "min_confirmations" = some (.number (.integer false n))) ∧
        tree.field "burn_recipient" = match fields.get "burn_recipient" with
          | .string s => some (.string s)
          | .null => some .null
          | _ => none := by
  refine ⟨?_, ?_, fun e he => ?_, fun text htext => ⟨?_, ?_⟩⟩
  · constructor
    · rintro ⟨text, htext⟩
      exact (burnRequest_iff.mp htext).1
    · intro h
      obtain ⟨n, hn⟩ := h.amount
      obtain ⟨m, hm⟩ := h.feeRate
      exact ⟨_, burnRequest_iff.mpr ⟨h, n, m, hn, hm, rfl⟩⟩
  · unfold burn
    split
    · rfl
    · dsimp only
      split <;> rfl
  · rw [burn, he]
  · rw [burn, htext]
    dsimp only
    split <;> rfl
  · obtain ⟨hadmissible, n, m, hn, hm, rfl⟩ := burnRequest_iff.mp htext
    refine ⟨burnTree fields n m, readText_text _, ?_⟩
    obtain ⟨s, _, hasset⟩ := hadmissible.assetId
    obtain ⟨k, hk, d, hconfirmations, hvalue⟩ := hadmissible.minConfirmations
    have htoken := toToken_natCast (by rw [Double.maxSafeInteger]; omega) hvalue
    have htree : burnTree fields n m = .object ((units "asset_id", .string s) ::
        (units "amount", .number (.integer false n)) ::
          (member "burn_recipient" (fields.get "burn_recipient") ++
            [(units "fee_rate", .number (.integer false m)),
              (units "min_confirmations", .number (.integer false k))])) := by
      simp [burnTree, hasset, hconfirmations, member, htoken]
    have hfee : (burnTree fields n m).field "fee_rate" = some (.number (.integer false m)) ∧
        (burnTree fields n m).field "min_confirmations" = some (.number (.integer false k)) ∧
        (burnTree fields n m).field "burn_recipient" = match fields.get "burn_recipient" with
          | .string s => some (.string s)
          | .null => some .null
          | _ => none := by
      rw [htree]
      rcases hadmissible.burnRecipient with h | h | ⟨r, _, _, h⟩ <;> rw [h] <;>
        exact ⟨rfl, rfl, rfl⟩
    refine ⟨fun s' hs' => ?_, fun n' hn' => ?_, fun m' hm' => ?_, fun d' k' hd' hk' => ?_, hfee.2.2⟩
    · cases hasset.symm.trans hs'
      rw [htree]
      rfl
    · cases hn.unique hn'
      rw [htree]
      rfl
    · cases hm.unique hm'
      exact hfee.1
    · cases hconfirmations.symm.trans hd'
      rw [hvalue, Option.some.injEq] at hk'
      have hsame : k = k' := by exact_mod_cast hk'
      rw [← hsame]
      exact hfee.2.1

/-- The request of the largest amount. -/
def sampleFields : Fields := [
  (units "asset_id", .string (units "rgb:test")),
  (units "amount", .string (units "18446744073709551615")),
  (units "fee_rate", .string (units "1")),
  (units "min_confirmations", .number (.finite false ⟨0, 0, 0, by norm_num⟩))]

theorem burn_exact_sample : ∃ text tree, burnRequest (.object sampleFields) = .ok text ∧
    readText text = some tree ∧
    tree.field "amount" = some (.number (.integer false 18446744073709551615)) := by
  have hamount : Amount (sampleFields.get "amount") 18446744073709551615 :=
    .inr ⟨by decide, by norm_num⟩
  have hfee : Amount (sampleFields.get "fee_rate") 1 := .inr ⟨by decide, by norm_num⟩
  have hadmissible : Admissible sampleFields :=
    ⟨by decide, ⟨units "rgb:test", by decide, rfl⟩, ⟨_, hamount⟩, ⟨_, hfee⟩,
      ⟨0, by omega, _, rfl, by simp [Double.value]⟩, .inl rfl⟩
  obtain ⟨hiff, _, _, htext⟩ := burn_exact losslessJson (fun _ => .ok []) sampleFields []
  obtain ⟨text, hok⟩ := hiff.mpr hadmissible
  obtain ⟨_, tree, hread, _, htoken, _⟩ := htext text hok
  exact ⟨text, tree, hok, hread, htoken _ hamount⟩

end RgbLightningNode.JsonBoundary
