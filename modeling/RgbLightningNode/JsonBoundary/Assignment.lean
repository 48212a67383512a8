import RgbLightningNode.JsonBoundary.Numbers
import RgbLightningNode.Text.Json

/-!
# Decoded assignments

The native side parses the debug text of an assignment and hands it on as a tagged object. The
number in it crosses two languages and three spellings.
-/

namespace RgbLightningNode.JsonBoundary
open Number Json

/-! ### The native side -/

inductive JsonDecodedRgbAssignment where
  | fungible (amount : UInt64)
  | nonFungible
  | inflationRight (amount : UInt64)
  | any
  deriving DecidableEq, Repr

/-- The one case of the native error that the parser returns. -/
inductive Error where
  | stringParse (details : String)
  deriving DecidableEq, Repr

def checkedU64 (n : ℕ) : Option ℕ := if n < 2 ^ 64 then some n else none

/-- The digits of a number behind those that make up `acc`. -/
def parseDigits (acc : ℕ) : List Char → Option ℕ
  | [] => some acc
  | c :: rest =>
    if c.isDigit then
      (checkedU64 (acc * 10)).bind fun shifted =>
        (checkedU64 (shifted + (c.toNat - 48))).bind fun acc => parseDigits acc rest
    else none

/-- `str::parse::<u64>`. -/
def parseU64 (value : List Char) : Option UInt64 :=
  match value with
  | [] => none
  | ['+'] => none
  | '+' :: digits => (parseDigits 0 digits).map UInt64.ofNat
  | digits => (parseDigits 0 digits).map UInt64.ofNat

def stripSuffix (value : List Char) (c : Char) : Option (List Char) :=
  if value.getLast? = some c then some value.dropLast else none

/-- The loop over the constructors with an amount. -/
def parseAmount (value : List Char) :
    List (String × (UInt64 → JsonDecodedRgbAssignment)) → Except Error JsonDecodedRgbAssignment
  | [] => .error (.stringParse "unknown decoded RGB assignment")
  | (name, constructor) :: rest =>
    match (value.dropPrefix? name.toList).bind (stripSuffix · ')') with
    | none => parseAmount value rest
    | some amount =>
      match (if amount ≠ [] ∧ amount.all Char.isDigit then parseU64 amount else none) with
      | some amount => .ok (constructor amount)
      | none => .error (.stringParse "invalid decoded RGB assignment amount")

def parseDecodedRgbAssignment (value : List Char) : Except Error JsonDecodedRgbAssignment :=
  if value = "Any".toList then .ok .any
  else if value = "NonFungible".toList then .ok .nonFungible
  else parseAmount value [("Fungible(", .fungible), ("InflationRight(", .inflationRight)]

namespace JsonDecodedRgbAssignment

/-- The debug text. -/
def debug : JsonDecodedRgbAssignment → List Char
  | fungible amount => "Fungible(".toList ++ (Text.printNat amount.toNat ++ [')'])
  | nonFungible => "NonFungible".toList
  | inflationRight amount => "InflationRight(".toList ++ (Text.printNat amount.toNat ++ [')'])
  | any => "Any".toList

def tag : JsonDecodedRgbAssignment → String
  | fungible _ => "Fungible"
  | nonFungible => "NonFungible"
  | inflationRight _ => "InflationRight"
  | any => "Any"

def amount? : JsonDecodedRgbAssignment → Option UInt64
  | fungible amount => some amount
  | inflationRight amount => some amount
  | _ => none

/-- The serialized value, `type` beside `value`. -/
def toJson (a : JsonDecodedRgbAssignment) : Value Token :=
  .object ((units "type", .string (units a.tag)) ::
    match a.amount? with
    | none => []
    | some amount => [(units "value", .number (.integer false amount.toNat))])

end JsonDecodedRgbAssignment

/-! ### What the parser accepts -/

/-- A name with a parenthesis, the digits of an amount and the other parenthesis. -/
def AmountText (name : String) (value : List Char) (amount : UInt64) : Prop :=
  ∃ digits, value = name.toList ++ (digits ++ [')']) ∧ digits ≠ [] ∧
    (∀ c ∈ digits, c.isDigit = true) ∧ Nat.ofDigitChars 10 digits 0 = amount.toNat

/-- The texts for an assignment. -/
def Spells (value : List Char) : JsonDecodedRgbAssignment → Prop
  | .any => value = "Any".toList
  | .nonFungible => value = "NonFungible".toList
  | .fungible amount => AmountText "Fungible(" value amount
  | .inflationRight amount => AmountText "InflationRight(" value amount

theorem ofDigitChars_le (acc : ℕ) (digits : List Char) : acc ≤ Nat.ofDigitChars 10 digits acc := by
  rw [Nat.ofDigitChars_eq_ofDigitChars_zero]
  have hpow : 1 ≤ 10 ^ digits.length := Nat.one_le_two_pow.trans (Nat.pow_le_pow_left (by decide) _)
  calc acc ≤ 10 ^ digits.length * acc := Nat.le_mul_of_pos_left acc hpow
    _ ≤ _ := Nat.le_add_right _ _

/-- The checked loop computes the value of the digits, unless that is too large. -/
theorem parseDigits_eq {digits : List Char} (h : ∀ c ∈ digits, c.isDigit = true) (acc : ℕ)
    (hacc : acc < 2 ^ 64) : parseDigits acc digits =
      if Nat.ofDigitChars 10 digits acc < 2 ^ 64 then some (Nat.ofDigitChars 10 digits acc)
        else none := by
  induction digits generalizing acc with
  | nil =>
    rw [Nat.ofDigitChars_nil, if_pos hacc]
    rfl
  | cons c digits ih =>
    obtain ⟨hc, hdigits⟩ := List.forall_mem_cons.mp h
    have hgrow := ofDigitChars_le (10 * acc + (c.toNat - 48)) digits
    have hnext : Nat.ofDigitChars 10 (c :: digits) acc =
        Nat.ofDigitChars 10 digits (10 * acc + (c.toNat - 48)) := Nat.ofDigitChars_cons
    rw [parseDigits, if_pos hc, hnext]
    by_cases hsmall : 10 * acc + (c.toNat - 48) < 2 ^ 64
    · have hshift : acc * 10 < 2 ^ 64 := by omega
      have hsum : acc * 10 + (c.toNat - 48) < 2 ^ 64 := by omega
      simp only [checkedU64, if_pos hshift, if_pos hsum, Option.bind_some]
      rw [ih hdigits _ hsum, Nat.mul_comm acc 10]
    · rw [if_neg (by omega)]
      unfold checkedU64
      split_ifs with hshift
      · rw [Option.bind_some, if_neg (by omega)]
        rfl
      · rfl

/-- Digits without a sign. -/
theorem parseU64_eq {digits : List Char} (hne : digits ≠ []) (h : ∀ c ∈ digits, c.isDigit = true) :
    parseU64 digits = if Nat.ofDigitChars 10 digits 0 < 2 ^ 64 then
      some (.ofNat (Nat.ofDigitChars 10 digits 0)) else none := by
  have hparse : parseU64 digits = (parseDigits 0 digits).map UInt64.ofNat := by
    unfold parseU64
    split
    · exact absurd rfl hne
    · exact absurd (h '+' (by simp)) (by decide)
    · exact absurd (h '+' (by simp)) (by decide)
    · rfl
  rw [hparse, parseDigits_eq h 0 (by norm_num)]
  split_ifs <;> rfl

theorem strip_eq {value amount : List Char} {name : String} :
    (value.dropPrefix? name.toList).bind (stripSuffix · ')') = some amount ↔
      value = name.toList ++ (amount ++ [')']) := by
  constructor
  · intro h
    obtain ⟨rest, hrest, hamount⟩ := Option.bind_eq_some_iff.mp h
    unfold stripSuffix at hamount
    split_ifs at hamount with hlast
    cases hamount
    rw [Text.dropPrefix_eq_some.mp hrest, List.dropLast_append_getLast? ')' hlast]
  · rintro rfl
    rw [Text.dropPrefix_eq_some.mpr rfl, Option.bind_some]
    simp [stripSuffix]

/-- The checks on the digits of an amount, and their value. -/
theorem amount_eq {digits : List Char} {amount : UInt64} :
    (if digits ≠ [] ∧ digits.all Char.isDigit then parseU64 digits else none) = some amount ↔
      digits ≠ [] ∧ (∀ c ∈ digits, c.isDigit = true) ∧
        Nat.ofDigitChars 10 digits 0 = amount.toNat := by
  constructor
  · intro h
    split_ifs at h with hform
    have hdigits := List.all_eq_true.mp hform.2
    rw [parseU64_eq hform.1 hdigits] at h
    split_ifs at h with hsmall
    cases h
    exact ⟨hform.1, hdigits, (UInt64.toNat_ofNat_of_lt' hsmall).symm⟩
  · rintro ⟨hne, hdigits, hvalue⟩
    have hsmall : Nat.ofDigitChars 10 digits 0 < 2 ^ 64 := hvalue ▸ amount.toNat_lt
    rw [if_pos ⟨hne, List.all_eq_true.mpr hdigits⟩, parseU64_eq hne hdigits, if_pos hsmall, hvalue,
      UInt64.ofNat_toNat]

/-- One round of the loop: what starts and ends like an amount is one, or fails. -/
theorem parseAmount_cons {value : List Char} {name : String}
    {constructor : UInt64 → JsonDecodedRgbAssignment}
    {rest : List (String × (UInt64 → JsonDecodedRgbAssignment))} {a : JsonDecodedRgbAssignment} :
    parseAmount value ((name, constructor) :: rest) = .ok a ↔
      (∃ amount, AmountText name value amount ∧ constructor amount = a) ∨
        (∀ digits, value ≠ name.toList ++ (digits ++ [')'])) ∧ parseAmount value rest = .ok a := by
  rw [parseAmount]
  cases hstrip : (value.dropPrefix? name.toList).bind (stripSuffix · ')') with
  | none =>
    have hother : ∀ digits, value ≠ name.toList ++ (digits ++ [')']) := by
      intro digits hvalue
      rw [strip_eq.mpr hvalue] at hstrip
      cases hstrip
    refine ⟨fun h => .inr ⟨hother, h⟩, ?_⟩
    rintro (⟨_, ⟨digits, hvalue, _⟩, _⟩ | ⟨_, h⟩)
    · exact absurd hvalue (hother digits)
    · exact h
  | some digits =>
    have hvalue := strip_eq.mp hstrip
    dsimp only
    constructor
    · intro h
      split at h
      · rename_i amount hamount
        cases h
        exact .inl ⟨amount, ⟨digits, hvalue, amount_eq.mp hamount⟩, rfl⟩
      · cases h
    · rintro (⟨amount, ⟨digits', hvalue', hamount⟩, rfl⟩ | ⟨hother, _⟩)
      · rw [hvalue, List.append_cancel_left_eq, List.append_cancel_right_eq] at hvalue'
        subst hvalue'
        rw [amount_eq.mpr hamount]
      · exact absurd hvalue (hother digits)

/-- The parser returns what a text spells, and nothing for any other text. -/
theorem parse_iff {value : List Char} {a : JsonDecodedRgbAssignment} :
    parseDecodedRgbAssignment value = .ok a ↔ Spells value a := by
  have hbare (name : String) (hname : name = "Fungible(" ∨ name = "InflationRight(")
      (digits : List Char) : name.toList ++ (digits ++ [')']) ≠ "Any".toList ∧
        name.toList ++ (digits ++ [')']) ≠ "NonFungible".toList := by
    rcases hname with rfl | rfl <;> simp
  have hdistinct (digits digits' : List Char) :
      "InflationRight(".toList ++ (digits ++ [')']) ≠ "Fungible(".toList ++ (digits' ++ [')']) := by
    simp
  unfold parseDecodedRgbAssignment
  split_ifs with h h'
  · subst h
    cases a with
    | any => simp [Spells]
    | nonFungible => simp [Spells]
    | fungible amount =>
      refine ⟨nofun, ?_⟩
      rintro ⟨digits, hvalue, _⟩
      exact absurd hvalue.symm (hbare _ (.inl rfl) digits).1
    | inflationRight amount =>
      refine ⟨nofun, ?_⟩
      rintro ⟨digits, hvalue, _⟩
      exact absurd hvalue.symm (hbare _ (.inr rfl) digits).1
  · subst h'
    cases a with
    | any => simp [Spells]
    | nonFungible => simp [Spells]
    | fungible amount =>
      refine ⟨nofun, ?_⟩
      rintro ⟨digits, hvalue, _⟩
      exact absurd hvalue.symm (hbare _ (.inl rfl) digits).2
    | inflationRight amount =>
      refine ⟨nofun, ?_⟩
      rintro ⟨digits, hvalue, _⟩
      exact absurd hvalue.symm (hbare _ (.inr rfl) digits).2
  · rw [parseAmount_cons, parseAmount_cons]
    constructor
    · rintro (⟨amount, htext, rfl⟩ | ⟨_, ⟨amount, htext, rfl⟩ | ⟨_, h⟩⟩)
      · exact htext
      · exact htext
      · cases h
    · intro hspells
      cases a with
      | any => exact absurd hspells h
      | nonFungible => exact absurd hspells h'
      | fungible amount => exact .inl ⟨amount, hspells, rfl⟩
      | inflationRight amount =>
        refine .inr ⟨fun digits' hvalue' => ?_, .inl ⟨amount, hspells, rfl⟩⟩
        obtain ⟨digits, hvalue, _⟩ := hspells
        exact hdistinct digits digits' (hvalue.symm.trans hvalue')

theorem debug_spells (a : JsonDecodedRgbAssignment) : Spells a.debug a := by
  have htext (name : String) (amount : UInt64) :
      AmountText name (name.toList ++ (Text.printNat amount.toNat ++ [')'])) amount := by
    refine ⟨_, rfl, Nat.toDigits_ne_nil, fun c hc => ?_, Nat.ofDigitChars_ten_toDigits⟩
    exact Nat.isDigit_of_mem_toDigits (by omega) (by omega) hc
  cases a with
  | fungible amount => exact htext _ amount
  | inflationRight amount => exact htext _ amount
  | nonFungible => rfl
  | any => rfl

/-! ### To JavaScript -/

theorem toJson_distinct (a : JsonDecodedRgbAssignment) : a.toJson.Distinct := by
  refine Value.Distinct.flat ?_ ?_ <;> cases a.amount? <;>
    simp [Value.isScalar, units]

/-- An amount is parsed like every integer. -/
theorem parseNumber_amount (n : ℕ) :
    (n ≤ Double.maxSafeInteger ∧ ∃ d, parseNumber (.integer false n) = .ok (.number d) ∧
        d.value = some (n : ℚ)) ∨
      (Double.maxSafeInteger < n ∧
        parseNumber (.integer false n) = .ok (.string ((decimal n).map digitUnit))) := by
  rcases parseNumber_integer (show IsIntegerToken (.integer false n) from ⟨rfl, rfl⟩) with
    ⟨hsmall, d, hd, hvalue⟩ | ⟨hlarge, hd⟩
  · exact .inl ⟨hsmall, d, hd, by simpa [tokenInt, Token.integer] using hvalue⟩
  · refine .inr ⟨hlarge, ?_⟩
    rw [hd]
    simp [tokenInt, Token.integer, bigIntToString]

/-- Every assignment comes back from its debug text, and its tagged object is parsed to its name
and, where it has one, its amount: a number in the safe range and its digits beyond it. Any other
text is refused. -/
theorem assignment_exact (lossless : Lossless) :
    (∀ a : JsonDecodedRgbAssignment, parseDecodedRgbAssignment a.debug = .ok a ∧
      ∃ v, parse lossless a.toJson.text = .ok v ∧
        v.field "type" = some (.string (units a.tag)) ∧
        (a.amount? = none → v.field "value" = none) ∧
        ∀ amount, a.amount? = some amount →
          (amount.toNat ≤ Double.maxSafeInteger →
            ∃ d, v.field "value" = some (.number d) ∧ d.value = some (amount.toNat : ℚ)) ∧
          (Double.maxSafeInteger < amount.toNat →
            v.field "value" = some (.string ((decimal amount.toNat).map digitUnit)))) ∧
    (∀ value a, parseDecodedRgbAssignment value = .ok a → Spells value a) ∧
    ∀ value, (∀ a, ¬Spells value a) → ∃ e, parseDecodedRgbAssignment value = .error e := by
  refine ⟨fun a => ⟨parse_iff.mpr (debug_spells a), ?_⟩, fun value a =>
    parse_iff.mp, fun value hnone => ?_⟩
  · rw [parse, lossless.read_text _ (toJson_distinct a)]
    have htype : units "value" ≠ units "type" := by decide
    unfold JsonDecodedRgbAssignment.toJson
    cases hamount : a.amount? with
    | none =>
      refine ⟨_, rfl, by simp [Value.field], fun _ => by simp [Value.field, htype.symm], (by simp)⟩
    | some amount =>
      rcases parseNumber_amount amount.toNat with ⟨hsmall, d, hd, hvalue⟩ | ⟨hlarge, hd⟩
      · refine ⟨.object [(units "type", .string (units a.tag)), (units "value", .number d)], ?_,
          by simp [Value.field], (by simp), ?_⟩
        · simp [Except.bind, Except.map, Value.traverse, traverseMembers, hd]
        · rintro _ ⟨⟩
          exact ⟨fun _ => ⟨d, by simp [Value.field, htype.symm], hvalue⟩, fun hlarge => by omega⟩
      · refine ⟨.object [(units "type", .string (units a.tag)),
          (units "value", .string ((decimal amount.toNat).map digitUnit))], ?_,
          by simp [Value.field], (by simp), ?_⟩
        · simp [Except.bind, Except.map, Value.traverse, traverseMembers, hd]
        · rintro _ ⟨⟩
          exact ⟨fun hsmall => by omega, fun _ => by simp [Value.field, htype.symm]⟩
  · cases h : parseDecodedRgbAssignment value with
    | ok a => exact absurd (parse_iff.mp h) (hnone a)
    | error e => exact ⟨e, rfl⟩

theorem assignment_exact_sample :
    parseDecodedRgbAssignment "Fungible(18446744073709551615)".toList =
      .ok (.fungible 18446744073709551615) ∧
    ∃ v, parse losslessJson (units "\x7b\"type\":\"Fungible\",\"value\":18446744073709551615\x7d") =
      .ok v ∧
      v.field "value" = some (.string (units "18446744073709551615")) := by
  obtain ⟨hparse, v, hv, _, _, hamount⟩ :=
    (assignment_exact losslessJson).1 (.fungible 18446744073709551615)
  have htext : (JsonDecodedRgbAssignment.fungible 18446744073709551615).toJson.text =
      units "\x7b\"type\":\"Fungible\",\"value\":18446744073709551615\x7d" := by decide
  have hdebug : (JsonDecodedRgbAssignment.fungible 18446744073709551615).debug =
      "Fungible(18446744073709551615)".toList := by decide
  have hdigits : (decimal 18446744073709551615).map digitUnit = units "18446744073709551615" := by
    decide
  rw [htext] at hv
  rw [hdebug] at hparse
  refine ⟨hparse, v, hv, ?_⟩
  rw [← hdigits]
  exact (hamount _ rfl).2 (by decide)

end RgbLightningNode.JsonBoundary
