import RgbLightningNode.Json.Values

/-!
# Numbers at the JSON boundary

The texts of the native side have integers of 64 bits. The boundary decides about a number on its
token or on the double it was rounded to, and never hands on a rounded integer.
-/

namespace RgbLightningNode.JsonBoundary
open Number Json
open Faulty (map_eq_ok)

structure JsError where
  name : String
  message : Units
  code : Option String
  deriving DecidableEq, Repr

def unsafeNumber : JsError where
  name := "RangeError"
  message := units "Native JSON number exceeds the supported exact JavaScript range"
  code := some "ERR_RLN_UNSAFE_NUMBER"

/-- The tokenizer of the lossless parser, which reads back every text that was written. -/
structure Lossless where
  read : Units → Except JsError (Value Token)
  read_text : ∀ v : Value Token, v.Distinct → read v.text = .ok v

def checkedNumber (d : Double) : Except JsError Double :=
  if !d.isFinite || (d.isInteger && !d.isSafeInteger) then .error unsafeNumber else .ok d

/-- The test for `/^-?\d+$/`. -/
def isIntegerText (token : Units) : Bool :=
  let digits := if token.head? = some 0x2D then token.tail else token
  !digits.isEmpty && digits.all fun u => (unitDigit u).isSome

def bigInt (token : Units) : ℤ :=
  if token.head? = some 0x2D then -digitsValue (readDigits token.tail).1
  else digitsValue (readDigits token).1

def bigIntToString (i : ℤ) : Units :=
  (if i < 0 then [0x2D] else []) ++ (decimal i.natAbs).map digitUnit

def parseNumber (token : Token) : Except JsError (Value Double) :=
  let number := token.toDouble
  if isIntegerText (tokenText token) && !number.isSafeInteger then
    .ok (.string (bigIntToString (bigInt (tokenText token))))
  else (checkedNumber number).map .number

def parse (lossless : Lossless) (text : Units) : Except JsError (Value Double) :=
  (lossless.read text).bind (·.traverse parseNumber)

/-- `JSON.stringify` writes what is no number as `null`. -/
def printNumber (d : Double) : Except JsError (Value Token) :=
  (checkedNumber d).map fun d => match d.toToken with
    | some token => .number token
    | none => .null

def stringify (v : Value Double) : Except JsError Units := (v.traverse printNumber).map Value.text

/-! ### One number -/

/-- A double that may be the rounding of another integer, or of none at all. -/
def Unsafe (d : Double) : Prop :=
  d.value = none ∨ ∃ i : ℤ, d.value = some (i : ℚ) ∧ Double.maxSafeInteger < i.natAbs

/-- The number that an integer token denotes. -/
def tokenInt (token : Token) : ℤ := if token.negative then -token.whole else token.whole

def IsIntegerToken (token : Token) : Prop := token.fraction = none ∧ token.exponent = none

/-- A finite double is an integer if its magnitude is one. -/
theorem exists_int {negative : Bool} {magnitude : {q : ℚ // Representable q}} :
    (Double.finite negative magnitude).isInteger = true ↔
      ∃ n : ℕ, magnitude.1 = n := by
  rw [Double.isInteger]
  constructor
  · intro h
    refine ⟨magnitude.1.num.toNat, ?_⟩
    have hnum : 0 ≤ magnitude.1.num := Rat.num_nonneg.mpr magnitude.2.nonneg
    have hcast : ((magnitude.1.num.toNat : ℤ) : ℚ) = magnitude.1.num := by
      rw [Int.toNat_of_nonneg hnum]
    rw [← Int.cast_natCast, hcast]
    exact (Rat.coe_int_num_of_den_eq_one (by simpa [Rat.isInt] using h)).symm
  · rintro ⟨n, hn⟩
    rw [hn]
    simp [Rat.isInt]

theorem magnitude_eq {negative : Bool} {magnitude : {q : ℚ // Representable q}} {i : ℤ}
    (h : (Double.finite negative magnitude).value = some (i : ℚ)) : magnitude.1 = i.natAbs := by
  have hnonneg := magnitude.2.nonneg
  have habs : magnitude.1 = |(i : ℚ)| := by
    simp only [Double.value, Option.some.injEq] at h
    cases negative with
    | true => rw [← h, if_pos rfl, abs_neg, abs_of_nonneg hnonneg]
    | false => rw [← h, if_neg (by simp), abs_of_nonneg hnonneg]
  rw [habs, Nat.cast_natAbs, Int.cast_abs]

theorem value_natCast (negative : Bool) {magnitude : {q : ℚ // Representable q}} {n : ℕ}
    (h : magnitude.1 = n) : (Double.finite negative magnitude).value =
      some ((if negative then -(n : ℤ) else n : ℤ) : ℚ) := by
  cases negative <;> simp [Double.value, h]

theorem unsafe_iff {d : Double} :
    Unsafe d ↔ (!d.isFinite || (d.isInteger && !d.isSafeInteger)) = true := by
  cases d with
  | nan => simp [Unsafe, Double.value, Double.isFinite]
  | infinity negative => simp [Unsafe, Double.value, Double.isFinite]
  | finite negative magnitude =>
    constructor
    · rintro (hnone | ⟨i, hi, hlarge⟩)
      · cases hnone
      · have hmagnitude := magnitude_eq hi
        have hbound : ¬(i.natAbs : ℚ) ≤ Double.maxSafeInteger := by
          exact_mod_cast not_le.mpr hlarge
        have hinexact : (Double.finite negative magnitude).isSafeInteger = false := by
          rw [Double.isSafeInteger, hmagnitude, decide_eq_false hbound, Bool.and_false]
        rw [exists_int.mpr ⟨_, hmagnitude⟩, hinexact]
        rfl
    · intro h
      simp only [Double.isFinite, Bool.not_true, Bool.false_or, Bool.and_eq_true] at h
      obtain ⟨n, hn⟩ := exists_int.mp h.1
      refine .inr ⟨_, value_natCast negative hn, ?_⟩
      have hlarge := h.2
      simp only [Double.isSafeInteger, hn, Bool.not_eq_true', Bool.and_eq_false_iff,
        decide_eq_false_iff_not, not_le] at hlarge
      have hn' : Double.maxSafeInteger < n := by
        rcases hlarge with hint | hlarge
        · simp [Rat.isInt] at hint
        · exact_mod_cast hlarge
      cases negative <;> simpa using hn'

theorem checkedNumber_eq (d : Double) :
    checkedNumber d = .error unsafeNumber ∧ Unsafe d ∨ checkedNumber d = .ok d ∧ ¬Unsafe d := by
  unfold checkedNumber
  by_cases h : Unsafe d
  · exact .inl ⟨if_pos (unsafe_iff.mp h), h⟩
  · exact .inr ⟨if_neg (mt unsafe_iff.mpr h), h⟩

/-- The text of a number behind its sign. -/
def unsignedText (token : Token) : Units :=
  (decimal token.whole).map digitUnit ++
    (fractionText token.fraction ++ exponentText token.exponent)

theorem tokenText_sign (token : Token) :
    ((tokenText token).head? = some 0x2D ↔ token.negative = true) ∧
      (if (tokenText token).head? = some 0x2D then (tokenText token).tail else tokenText token) =
        unsignedText token := by
  cases hnegative : token.negative with
  | true => simp [tokenText, hnegative, unsignedText]
  | false =>
    have htext : tokenText token = unsignedText token := by
      simp [tokenText, hnegative, unsignedText]
    have hhead : (unsignedText token).head? ≠ some 0x2D := by
      obtain ⟨d, hd⟩ := head_digits (decimal_ne_nil token.whole)
        (fractionText token.fraction ++ exponentText token.exponent)
      rw [unsignedText, hd]
      exact fun h => digitUnit_ne (by decide) d (Option.some.inj h)
    rw [htext, if_neg hhead]
    simp [hhead]

theorem isIntegerText_iff (token : Token) :
    isIntegerText (tokenText token) = true ↔ IsIntegerToken token := by
  have hdigits : ((decimal token.whole).map digitUnit).all (fun u => (unitDigit u).isSome) =
      true := by
    simp [unitDigit_digitUnit]
  have hne : (unsignedText token).isEmpty = false := by
    simp [unsignedText, decimal_ne_nil]
  have hfraction : (fractionText token.fraction).all (fun u => (unitDigit u).isSome) = true ↔
      token.fraction = none := by
    cases token.fraction with
    | none => simp [fractionText]
    | some digits =>
      simp only [fractionText, List.all_cons, reduceCtorEq, iff_false]
      exact Bool.false_ne_true
  have hexponent : (exponentText token.exponent).all (fun u => (unitDigit u).isSome) = true ↔
      token.exponent = none := by
    cases token.exponent with
    | none => simp [exponentText]
    | some e =>
      simp only [exponentText, List.all_cons, reduceCtorEq, iff_false]
      cases e.upper <;> exact Bool.false_ne_true
  unfold isIntegerText
  dsimp only
  rw [(tokenText_sign token).2, hne, IsIntegerToken, unsignedText, List.all_append, List.all_append,
    hdigits, ← hfraction, ← hexponent]
  simp

theorem bigInt_token {token : Token} (h : IsIntegerToken token) :
    bigInt (tokenText token) = tokenInt token := by
  have hbody : unsignedText token = (decimal token.whole).map digitUnit ++ [] := by
    simp [unsignedText, h.1, h.2, fractionText, exponentText]
  have hread : readDigits ((decimal token.whole).map digitUnit ++ []) = (decimal token.whole, []) :=
    readDigits_append _ (by simp)
  obtain ⟨hsign, htext⟩ := tokenText_sign token
  unfold bigInt tokenInt
  split_ifs at htext ⊢ with hhead hnegative hnegative
  · rw [htext, hbody, hread, digitsValue_decimal]
  · exact absurd (hsign.mp hhead) hnegative
  · exact absurd (hsign.mpr hnegative) hhead
  · rw [htext, hbody, hread, digitsValue_decimal]

/-! ### Parsing and printing one number -/

theorem toDouble_integer {token : Token} (h : IsIntegerToken token) :
    token.toDouble = nearest token.negative token.whole := by
  obtain ⟨negative, whole, fraction, exponent⟩ := token
  obtain ⟨rfl, rfl⟩ := h
  rw [Token.toDouble, show (⟨negative, whole, none, none⟩ : Token) =
    .integer negative whole from rfl, Token.integer_magnitude]
  rfl

theorem isInteger_nearest {negative : Bool} {n : ℕ} (h : (nearest negative n).isFinite = true) :
    (nearest negative n).isInteger = true := by
  unfold nearest at h ⊢
  split_ifs at h ⊢
  · exact roundMagnitude_natCast n
  · cases h

/-- Nothing is written in digits that is not read back from the double. -/
theorem parseNumber_safe {token : Token} (h : ¬Unsafe token.toDouble) :
    parseNumber token = .ok (.number token.toDouble) := by
  have hsafe : (isIntegerText (tokenText token) && !token.toDouble.isSafeInteger) = false := by
    by_cases hint : IsIntegerToken token
    · have hrange := mt unsafe_iff.mpr h
      rw [Bool.not_eq_true, Bool.or_eq_false_iff, Bool.not_eq_false'] at hrange
      obtain ⟨hfinite, hinteger⟩ := hrange
      rw [toDouble_integer hint] at hfinite hinteger ⊢
      rw [isInteger_nearest hfinite, Bool.true_and] at hinteger
      rw [hinteger, Bool.and_false]
    · rw [Bool.eq_false_iff.mpr (mt (isIntegerText_iff token).mp hint), Bool.false_and]
  have hchecked : checkedNumber token.toDouble = .ok token.toDouble := by
    rcases checkedNumber_eq token.toDouble with ⟨_, hinexact⟩ | ⟨hok, _⟩
    · exact absurd hinexact h
    · exact hok
  simp only [parseNumber, hsafe, hchecked, Bool.false_eq_true, if_false]
  rfl

theorem natAbs_tokenInt (token : Token) : (tokenInt token).natAbs = token.whole := by
  unfold tokenInt
  split_ifs <;> simp

/-- An integer token becomes the number that it denotes, or its digits. -/
theorem parseNumber_integer {token : Token} (h : IsIntegerToken token) :
    (token.whole ≤ Double.maxSafeInteger ∧ ∃ d, parseNumber token = .ok (.number d) ∧
        d.value = some (tokenInt token : ℚ)) ∨
      (Double.maxSafeInteger < token.whole ∧
        parseNumber token = .ok (.string (bigIntToString (tokenInt token)))) := by
  have hdouble := toDouble_integer h
  rcases nearest_natCast token.negative token.whole with ⟨hrep, hsafe, heq⟩ | ⟨hlarge, hinexact⟩
  · have hvalue : token.toDouble.value = some (tokenInt token : ℚ) := by
      rw [hdouble, heq]
      exact value_natCast token.negative rfl
    refine .inl ⟨hsafe, _, parseNumber_safe ?_, hvalue⟩
    rintro (hnone | ⟨i, hi, hlarge⟩)
    · rw [hvalue] at hnone
      cases hnone
    · rw [hvalue, Option.some.injEq, Int.cast_inj] at hi
      rw [← hi, natAbs_tokenInt] at hlarge
      omega
  · refine .inr ⟨hlarge, ?_⟩
    simp only [parseNumber, hdouble, hinexact, (isIntegerText_iff token).mpr h, bigInt_token h]
    rfl

theorem parseNumber_other {token : Token} (h : ¬IsIntegerToken token) :
    parseNumber token = (checkedNumber token.toDouble).map .number := by
  simp [parseNumber, Bool.eq_false_iff.mpr (mt (isIntegerText_iff token).mp h)]

theorem parseNumber_error {token : Token} :
    (∃ e, parseNumber token = .error e) ↔ ¬IsIntegerToken token ∧ Unsafe token.toDouble := by
  constructor
  · rintro ⟨e, he⟩
    by_cases hint : IsIntegerToken token
    · rcases parseNumber_integer hint with ⟨_, d, hd, _⟩ | ⟨_, hd⟩ <;>
        rw [hd] at he <;> cases he
    · refine ⟨hint, ?_⟩
      by_contra hsafe
      rw [parseNumber_safe hsafe] at he
      cases he
  · rintro ⟨hint, hinexact⟩
    rcases checkedNumber_eq token.toDouble with ⟨herror, _⟩ | ⟨_, hsafe⟩
    · exact ⟨unsafeNumber, by rw [parseNumber_other hint, herror]; rfl⟩
    · exact absurd hinexact hsafe

theorem unsafe_unsignedZero (d : Double) : Unsafe d.unsignedZero ↔ Unsafe d := by
  rw [unsafe_iff, unsafe_iff]
  cases d <;> rfl

theorem printNumber_error {d : Double} : (∃ e, printNumber d = .error e) ↔ Unsafe d := by
  unfold printNumber
  rcases checkedNumber_eq d with ⟨herror, hinexact⟩ | ⟨hok, hsafe⟩
  · simpa [herror, Except.map] using hinexact
  · simpa [hok, Except.map] using hsafe

/-- What a number is written as is a number token, which is read back. -/
theorem printNumber_ok {d : Double} {x : Value Token} (h : printNumber d = .ok x) :
    (∃ token, x = .number token) ∧ x.traverse parseNumber = .ok (.number d.unsignedZero) := by
  rcases checkedNumber_eq d with ⟨herror, _⟩ | ⟨hok, hsafe⟩
  · rw [printNumber, herror] at h
    cases h
  · rw [printNumber, hok] at h
    cases d with
    | nan => exact absurd (.inl rfl) hsafe
    | infinity negative => exact absurd (.inl rfl) hsafe
    | finite negative magnitude =>
      obtain ⟨token, htoken⟩ : ∃ token, (Double.finite negative magnitude).toToken = some token :=
        ⟨_, rfl⟩
      have hdouble := toDouble_toToken htoken
      rw [Except.map, htoken] at h
      cases h
      refine ⟨⟨token, rfl⟩, ?_⟩
      rw [Value.traverse, parseNumber_safe, hdouble]
      rw [hdouble, unsafe_unsignedZero]
      exact hsafe

/-! ### Whole texts -/

theorem printNumber_distinct {v : Value Double} {w : Value Token} (hv : v.Distinct)
    (h : v.traverse printNumber = .ok w) : w.Distinct := by
  refine hv.traverse ?_ ?_ h
  · intro d members hd
    obtain ⟨⟨token, htoken⟩, _⟩ := printNumber_ok hd
    cases htoken
  · intro d items hd
    obtain ⟨⟨token, htoken⟩, _⟩ := printNumber_ok hd
    cases htoken

/-- At every position of every text an integer token becomes the number that it denotes or, beyond
the safe range, its digits, and parsing fails exactly for another token that is rounded to an
integer beyond the safe range or to no number. Writing fails exactly for such a number, and what is
written is read back, up to the sign of a zero. -/
theorem numbers_exact (lossless : Lossless) :
    (∀ text tree, lossless.read text = .ok tree →
      ((∃ e, parse lossless text = .error e) ↔ ∃ path token, tree.at path = some (.number token) ∧
        ¬IsIntegerToken token ∧ Unsafe token.toDouble) ∧
      ∀ v, parse lossless text = .ok v → ∀ path token, tree.at path = some (.number token) →
        (IsIntegerToken token → (tokenInt token).natAbs ≤ Double.maxSafeInteger →
          ∃ d, v.at path = some (.number d) ∧ d.value = some (tokenInt token : ℚ)) ∧
        (IsIntegerToken token → Double.maxSafeInteger < (tokenInt token).natAbs →
          v.at path = some (.string (bigIntToString (tokenInt token)))) ∧
        (¬IsIntegerToken token → v.at path = some (.number token.toDouble))) ∧
    ∀ v : Value Double, v.Distinct →
      ((∃ e, stringify v = .error e) ↔ ∃ path d, v.at path = some (.number d) ∧ Unsafe d) ∧
      ∀ text, stringify v = .ok text → parse lossless text = .ok (v.map Double.unsignedZero) := by
  refine ⟨fun text tree htree => ?_, fun v hv => ⟨?_, fun text htext => ?_⟩⟩
  · have hparse : parse lossless text = tree.traverse parseNumber := by rw [parse, htree]; rfl
    rw [hparse]
    refine ⟨?_, fun v hv path token htoken => ?_⟩
    · rw [traverse_error_iff]
      constructor
      · rintro ⟨path, token, e, hat, he⟩
        obtain ⟨hint, hinexact⟩ := parseNumber_error.mp ⟨e, he⟩
        exact ⟨path, token, hat, hint, hinexact⟩
      · rintro ⟨path, token, hat, hint, hinexact⟩
        obtain ⟨e, he⟩ := parseNumber_error.mpr ⟨hint, hinexact⟩
        exact ⟨path, token, e, hat, he⟩
    · obtain ⟨x, hx, hat⟩ := traverse_at hv htoken
      rw [natAbs_tokenInt]
      refine ⟨fun hint hsmall => ?_, fun hint hlarge => ?_, fun hother => ?_⟩
      · rcases parseNumber_integer hint with ⟨_, d, hd, hvalue⟩ | ⟨hlarge, _⟩
        · cases hx.symm.trans hd
          exact ⟨d, hat, hvalue⟩
        · omega
      · rcases parseNumber_integer hint with ⟨hsmall, _⟩ | ⟨_, hd⟩
        · omega
        · cases hx.symm.trans hd
          exact hat
      · have hsafe : ¬Unsafe token.toDouble := by
          intro hinexact
          obtain ⟨e, he⟩ := parseNumber_error.mpr ⟨hother, hinexact⟩
          rw [hx] at he
          cases he
        cases hx.symm.trans (parseNumber_safe hsafe)
        exact hat
  · have hstringify : (∃ e, stringify v = .error e) ↔ ∃ e, v.traverse printNumber = .error e := by
      unfold stringify
      simp only [map_eq_error]
    rw [hstringify, traverse_error_iff]
    constructor
    · rintro ⟨path, d, e, hat, he⟩
      exact ⟨path, d, hat, printNumber_error.mp ⟨e, he⟩⟩
    · rintro ⟨path, d, hat, hinexact⟩
      obtain ⟨e, he⟩ := printNumber_error.mpr hinexact
      exact ⟨path, d, e, hat, he⟩
  · obtain ⟨w, hw, rfl⟩ := map_eq_ok.mp htext
    rw [parse, lossless.read_text w (printNumber_distinct hv hw)]
    exact traverse_traverse (fun d x hd => (printNumber_ok hd).2) v hw

/-- A tokenizer for the texts of the language. -/
def losslessJson : Lossless where
  read text := match readText text with
    | some v => .ok v
    | none => .error ⟨"SyntaxError", units "Unexpected end or character in JSON", none⟩
  read_text v _ := by rw [readText_text]

theorem numbers_exact_sample : ∃ v, parse losslessJson (units "[9007199254740993]") = .ok v ∧
    v.at [.item 0] = some (.string (units "9007199254740993")) := by
  have hread : losslessJson.read (units "[9007199254740993]") =
      .ok (.array [.number (.integer false 9007199254740993)]) := rfl
  obtain ⟨herror, hok⟩ := (numbers_exact losslessJson).1 _ _ hread
  cases hparse : parse losslessJson (units "[9007199254740993]") with
  | ok v => exact ⟨v, rfl, (hok v hparse [.item 0] _ rfl).2.1 ⟨rfl, rfl⟩ (by decide)⟩
  | error e =>
    obtain ⟨path, token, hat, hother, _⟩ := herror.mp ⟨e, hparse⟩
    rcases path with _ | ⟨_ | _, path⟩
    · cases hat
    · rename_i i
      rcases i with _ | i
      · rcases path with _ | ⟨step, path⟩
        · cases hat
          exact absurd ⟨rfl, rfl⟩ hother
        · simp [Value.at] at hat
      · simp [Value.at] at hat
    · cases hat

end RgbLightningNode.JsonBoundary
