import Mathlib.Data.Nat.Digits.Lemmas
import RgbLightningNode.Number.Binary64

/-!
# Numbers and their decimal texts

The numbers of JavaScript, the number tokens of JSON, and the two conversions between them: a token
is rounded to the nearest double, and a double is written with as few digits as lead back to it.
-/

namespace RgbLightningNode.Number

/-- A number; a zero keeps its sign. -/
inductive Double where
  | nan
  | infinity (negative : Bool)
  | finite (negative : Bool) (magnitude : {q : ℚ // Representable q})
  deriving DecidableEq

namespace Double

def maxSafeInteger : ℕ := 2 ^ 53 - 1

def isFinite : Double → Bool
  | finite _ _ => true
  | _ => false

def isInteger : Double → Bool
  | finite _ magnitude => magnitude.1.isInt
  | _ => false

def isSafeInteger : Double → Bool
  | finite _ magnitude => magnitude.1.isInt && magnitude.1 ≤ maxSafeInteger
  | _ => false

/-- The rational number that a double is, if it is one. -/
def value : Double → Option ℚ
  | finite negative magnitude => some (if negative then -magnitude.1 else magnitude.1)
  | _ => none

/-- A double up to the sign of a zero. -/
def unsignedZero : Double → Double
  | finite negative magnitude => finite (negative && magnitude.1 != 0) magnitude
  | d => d

end Double

/-- The nearest double of a signed magnitude. -/
def nearest (negative : Bool) (q : ℚ) : Double :=
  if h : roundMagnitude q < 2 ^ 1024 then
    .finite negative ⟨roundMagnitude q, roundMagnitude_representable h⟩
  else .infinity negative

theorem nearest_eq (negative : Bool) (q : {q : ℚ // Representable q}) :
    nearest negative q.1 = .finite negative q := by
  simp [nearest, roundMagnitude_eq q.2, q.2.lt]

/-! ### Digits -/

abbrev Digit := Fin 10

def digitsValue (digits : List Digit) : ℕ := Nat.ofDigits 10 (digits.map Fin.val).reverse

/-- The digits of a number, without leading zeros. -/
def decimal (n : ℕ) : List Digit :=
  if n = 0 then [0] else ((Nat.digits 10 n).map (Fin.ofNat 10)).reverse

theorem decimal_ne_nil (n : ℕ) : decimal n ≠ [] := by
  unfold decimal
  split_ifs with h
  · simp
  · simpa [Nat.digits_eq_nil_iff_eq_zero] using h

theorem map_digits (n : ℕ) :
    ((Nat.digits 10 n).map (Fin.ofNat 10)).map Fin.val = Nat.digits 10 n := by
  rw [List.map_map]
  refine (List.map_congr_left fun d hd => ?_).trans (List.map_id _)
  exact Nat.mod_eq_of_lt (Nat.digits_lt_base (by norm_num) hd)

theorem digitsValue_decimal (n : ℕ) : digitsValue (decimal n) = n := by
  unfold decimal digitsValue
  split_ifs with h
  · simp [h]
  · rw [List.map_reverse, List.reverse_reverse, map_digits, Nat.ofDigits_digits]

/-- A number of more than one digit does not start with a zero. -/
theorem decimal_head {n : ℕ} (h : n ≠ 0) : (decimal n).head (decimal_ne_nil n) ≠ 0 := by
  have hdigits : Nat.digits 10 n ≠ [] := Nat.digits_ne_nil_iff_ne_zero.mpr h
  have hlast := Nat.getLast_digit_ne_zero 10 h
  have hlt : (Nat.digits 10 n).getLast hdigits < 10 :=
    Nat.digits_lt_base (by norm_num) (List.getLast_mem hdigits)
  simp only [decimal, if_neg h, List.head_reverse, List.getLast_map]
  intro hzero
  have hval := congrArg Fin.val hzero
  rw [Fin.val_ofNat, Nat.mod_eq_of_lt hlt] at hval
  exact hlast hval

/-- Digits without leading zeros are those of their value. -/
theorem decimal_digitsValue {d : Digit} {digits : List Digit} (hd : d ≠ 0) :
    decimal (digitsValue (d :: digits)) = d :: digits := by
  have hdigits : Nat.digits 10 (digitsValue (d :: digits)) =
      ((d :: digits).map Fin.val).reverse := by
    refine Nat.digits_ofDigits 10 (by norm_num) _ (fun n hn => ?_) fun hne => ?_
    · obtain ⟨k, _, rfl⟩ := List.mem_map.mp (List.mem_reverse.mp hn)
      exact k.isLt
    · simpa [List.getLast_reverse] using fun h => hd (Fin.ext h)
  have hne : digitsValue (d :: digits) ≠ 0 := by
    intro hzero
    rw [hzero] at hdigits
    simp at hdigits
  rw [decimal, if_neg hne, hdigits, ← List.map_reverse, List.reverse_reverse, List.map_map]
  refine (List.map_congr_left fun k _ => ?_).trans (List.map_id _)
  exact Fin.ext (Nat.mod_eq_of_lt k.isLt)

theorem digitsValue_append (front back : List Digit) :
    digitsValue (front ++ back) = digitsValue front * 10 ^ back.length + digitsValue back := by
  simp [digitsValue, Nat.ofDigits_append, Nat.mul_comm, Nat.add_comm]

theorem digitsValue_zeros (k : ℕ) : digitsValue (List.replicate k 0) = 0 := by
  simp [digitsValue]

/-! ### Tokens -/

structure Exponent where
  upper : Bool
  /-- A sign that is written, and whether it is a minus. -/
  sign : Option Bool
  digits : List Digit
  digits_ne_nil : digits ≠ []
  deriving DecidableEq

/-- A number token of JSON. The part before the point has no leading zeros. -/
structure Token where
  negative : Bool
  whole : ℕ
  /-- The digits behind the point, if there is one. -/
  fraction : Option {digits : List Digit // digits ≠ []}
  exponent : Option Exponent
  deriving DecidableEq

namespace Token

def exponentValue (t : Token) : ℤ :=
  match t.exponent with
  | none => 0
  | some e => if e.sign = some true then -digitsValue e.digits else digitsValue e.digits

def fractionValue (t : Token) : ℚ :=
  match t.fraction with
  | none => 0
  | some digits => digitsValue digits / 10 ^ digits.1.length

def magnitude (t : Token) : ℚ := (t.whole + t.fractionValue) * 10 ^ t.exponentValue

/-- `Number(token)`. -/
def toDouble (t : Token) : Double := nearest t.negative t.magnitude

def integer (negative : Bool) (n : ℕ) : Token := ⟨negative, n, none, none⟩

theorem integer_magnitude (negative : Bool) (n : ℕ) : (integer negative n).magnitude = n := by
  simp [magnitude, integer, fractionValue, exponentValue]

end Token

/-! ### Writing -/

/-- The position of the point behind the first digit of a magnitude. -/
def pointAfter (q : ℚ) : ℤ := Int.log 10 q + 1

/-- A number of `k` digits in front of the last one which is rounded to the magnitude, and the
nearer one if there are two. -/
def digitsAt (q : ℚ) (k : ℕ) : Option ℕ :=
  let scale : ℚ := 10 ^ (pointAfter q - k)
  let low := ⌊q / scale⌋₊
  let high := low + 1
  if roundMagnitude (low * scale) = q then
    if roundMagnitude (high * scale) = q ∧ high * scale - q < q - low * scale then some high
    else some low
  else if roundMagnitude (high * scale) = q then some high
  else none

theorem roundMagnitude_digitsAt {q : ℚ} {k s : ℕ} (h : digitsAt q k = some s) :
    roundMagnitude (s * 10 ^ (pointAfter q - k)) = q := by
  unfold digitsAt at h
  dsimp only at h
  split_ifs at h with hlow hhigh hhigh
  · cases h
    exact_mod_cast hhigh.1
  · cases h
    exact hlow
  · cases h
    exact_mod_cast hhigh

/-- The digits that a magnitude has are enough. -/
theorem digitsAt_of_exact {q : ℚ} {k n : ℕ} (hq : Representable q)
    (h : q = n * 10 ^ (pointAfter q - k)) : digitsAt q k = some n := by
  have hfloor : ⌊q / 10 ^ (pointAfter q - k)⌋₊ = n := by
    rw [(div_eq_iff (by positivity)).mpr h, Nat.floor_natCast]
  have hexact : roundMagnitude (n * 10 ^ (pointAfter q - k)) = q := by
    rw [← h, roundMagnitude_eq hq]
  unfold digitsAt
  dsimp only
  rw [hfloor, if_pos hexact, if_neg]
  rintro ⟨_, hnearer⟩
  rw [← h, sub_self, sub_neg] at hnearer
  have hgrow : q < (n + 1 : ℕ) * 10 ^ (pointAfter q - k) := by
    conv_lhs => rw [h]
    push_cast
    have hscale : (0 : ℚ) < 10 ^ (pointAfter q - k) := by positivity
    linarith
  exact absurd hnearer hgrow.not_gt

/-- Every magnitude has finitely many digits. -/
theorem exists_digitsAt {q : ℚ} (hq : Representable q) : ∃ k, (digitsAt q k).isSome := by
  obtain ⟨m, e, _, he, _, heq⟩ := id hq
  -- So many places behind the point that two to the exponent has no more.
  obtain ⟨places, hplaces, hpoint⟩ : ∃ places : ℕ, 1074 ≤ places ∧ 0 ≤ pointAfter q + places :=
    ⟨1074 + (pointAfter q).natAbs, by omega, by omega⟩
  obtain ⟨k, hk⟩ := Int.eq_ofNat_of_zero_le hpoint
  obtain ⟨twos, htwos⟩ : ∃ twos : ℕ, e + places = twos :=
    Int.eq_ofNat_of_zero_le (by omega)
  refine ⟨k, Option.isSome_iff_exists.mpr ⟨m * 2 ^ twos * 5 ^ places, digitsAt_of_exact hq ?_⟩⟩
  have hscale : pointAfter q - k = -places := by omega
  have hten : (10 : ℚ) ^ (-places : ℤ) = (2 ^ places)⁻¹ * (5 ^ places)⁻¹ := by
    rw [zpow_neg, zpow_natCast, ← mul_inv, ← mul_pow]
    norm_num
  have hpow : (2 : ℚ) ^ twos = 2 ^ e * 2 ^ places := by
    rw [← zpow_natCast, ← htwos, zpow_add₀ (by norm_num), zpow_natCast]
  rw [hscale, hten, heq]
  push_cast
  rw [hpow]
  field_simp

/-- The least number of digits that lead back to a magnitude, and those digits. -/
def shortest (q : {q : ℚ // Representable q}) : ℕ × ℕ :=
  let k := Nat.find (exists_digitsAt q.2)
  ((digitsAt q.1 k).get (Nat.find_spec (exists_digitsAt q.2)), k)

theorem shortest_spec (q : {q : ℚ // Representable q}) :
    roundMagnitude ((shortest q).1 * 10 ^ (pointAfter q.1 - (shortest q).2)) = q.1 :=
  roundMagnitude_digitsAt (Option.some_get _).symm

/-- The token for digits with the point behind the first `point` of them. -/
def layout (negative : Bool) (digits : List Digit) (hdigits : digits ≠ []) (point : ℤ) : Token :=
  if hwhole : digits.length ≤ point ∧ point ≤ 21 then
    .integer negative (digitsValue (digits ++ List.replicate (point - digits.length).toNat 0))
  else if hinside : 0 < point ∧ point ≤ 21 then
    ⟨negative, digitsValue (digits.take point.toNat),
      some ⟨digits.drop point.toNat, by rw [Ne, List.drop_eq_nil_iff]; omega⟩, none⟩
  else if -6 < point ∧ point ≤ 0 then
    ⟨negative, 0, some ⟨List.replicate (-point).toNat 0 ++ digits, by simp [hdigits]⟩, none⟩
  else
    { negative
      whole := digitsValue (digits.take 1)
      fraction := if h : digits.drop 1 = [] then none else some ⟨_, h⟩
      exponent := some {
        upper := false
        sign := some (point - 1 < 0)
        digits := decimal (point - 1).natAbs
        digits_ne_nil := decimal_ne_nil _ } }

namespace Double

/-- The number token that a finite double is written as. -/
def toToken : Double → Option Token
  | finite negative magnitude => some (
    if magnitude.1 = 0 then .integer false 0
    else
      let (digits, k) := shortest magnitude
      layout negative (decimal digits) (decimal_ne_nil digits)
        (pointAfter magnitude.1 - k + (decimal digits).length))
  | _ => none

end Double

theorem point_value (front back : List Digit) :
    (digitsValue front + digitsValue back / 10 ^ back.length : ℚ) =
    digitsValue (front ++ back) / 10 ^ back.length := by
  rw [digitsValue_append]
  push_cast
  field_simp

theorem exponentValue_written (negative : Bool) (whole : ℕ)
    (fraction : Option {digits : List Digit // digits ≠ []}) (e : ℤ) :
    Token.exponentValue ⟨negative, whole, fraction,
      some ⟨false, some (e < 0), decimal e.natAbs, decimal_ne_nil _⟩⟩ = e := by
  by_cases he : e < 0
  · simp only [Token.exponentValue, he, decide_true, if_true, digitsValue_decimal]
    omega
  · simp only [Token.exponentValue, he, decide_false, Option.some.injEq, Bool.false_eq_true,
      if_false, digitsValue_decimal]
    omega

theorem layout_negative (negative : Bool) {digits : List Digit} (hdigits : digits ≠ [])
    (point : ℤ) :
    (layout negative digits hdigits point).negative = negative := by
  unfold layout
  split_ifs <;> rfl

theorem layout_magnitude (negative : Bool) {digits : List Digit} (hdigits : digits ≠ [])
    (point : ℤ) :
    (layout negative digits hdigits point).magnitude =
      digitsValue digits * 10 ^ (point - digits.length) := by
  unfold layout
  split_ifs with hwhole hinside hsmall
  · obtain ⟨zeros, hzeros⟩ := Int.eq_ofNat_of_zero_le (sub_nonneg.mpr hwhole.1)
    rw [Token.integer_magnitude, hzeros, digitsValue_append, digitsValue_zeros]
    simp
  · have hlength : point - digits.length = -((digits.drop point.toNat).length : ℤ) := by
      rw [List.length_drop]
      omega
    simp only [Token.magnitude, Token.fractionValue, Token.exponentValue]
    rw [point_value, List.take_append_drop, hlength, zpow_neg, zpow_natCast, zpow_zero, mul_one,
      div_eq_mul_inv]
  · have hlength : point - digits.length =
        -((List.replicate (-point).toNat (0 : Digit) ++ digits).length : ℤ) := by
      rw [List.length_append, List.length_replicate]
      omega
    simp only [Token.magnitude, Token.fractionValue, Token.exponentValue]
    rw [hlength, zpow_neg, zpow_natCast, digitsValue_append, digitsValue_zeros]
    simp [div_eq_mul_inv]
  · rename_i hsingle
    have hlength : digits.length = 1 := by
      have hpos := List.length_pos_iff.mpr hdigits
      have hnil : digits.length ≤ 1 := List.drop_eq_nil_iff.mp hsingle
      omega
    rw [Token.magnitude, exponentValue_written, hlength, List.take_of_length_le hlength.le]
    simp [Token.fractionValue]
  · rename_i hmany
    have hlength : point - digits.length = point - 1 - ((digits.drop 1).length : ℤ) := by
      have hpos := List.length_pos_iff.mpr hdigits
      rw [List.length_drop]
      omega
    rw [Token.magnitude, exponentValue_written]
    simp only [Token.fractionValue]
    rw [point_value, List.take_append_drop, hlength, zpow_sub₀ (by norm_num) (point - 1),
      zpow_natCast]
    ring

/-- What is written is read back, up to the sign of a zero. -/
theorem toDouble_toToken {d : Double} {t : Token} (h : d.toToken = some t) :
    t.toDouble = d.unsignedZero := by
  cases d with
  | nan => cases h
  | infinity negative => cases h
  | finite negative magnitude =>
    simp only [Double.toToken, Option.some.injEq] at h
    have hbound := magnitude.2.lt
    by_cases hzero : magnitude.1 = 0
    · rw [if_pos hzero] at h
      subst h
      rw [Token.toDouble, Token.integer_magnitude, Nat.cast_zero, ← hzero, nearest_eq _ magnitude]
      simp [Double.unsignedZero, Token.integer, hzero]
    · rw [if_neg hzero] at h
      subst h
      rw [Token.toDouble, layout_negative, layout_magnitude, digitsValue_decimal,
        add_sub_cancel_right]
      simp [nearest, shortest_spec, hbound, Double.unsignedZero, hzero]

/-! ### Integers -/

theorem roundMagnitude_natCast (n : ℕ) : (roundMagnitude n).isInt = true := by
  have hnat (m : ℕ) : (m : ℚ).isInt = true := by simp [Rat.isInt]
  rcases lt_or_ge n (2 ^ 53) with hsmall | hlarge
  · rw [roundMagnitude_eq (representable_natCast hsmall)]
    exact hnat n
  · obtain ⟨places, hplaces⟩ := Int.eq_ofNat_of_zero_le
      (le_of_lt (lastPlace_pos (show (2 : ℚ) ^ 53 ≤ n by exact_mod_cast hlarge)))
    have heq : roundMagnitude n = (roundEven (n / 2 ^ lastPlace n) * 2 ^ places : ℕ) := by
      rw [roundMagnitude, hplaces]
      push_cast
      rw [zpow_natCast]
    rw [heq]
    exact hnat _

/-- A natural number is rounded to a safe integer only if it is one, and then to itself. -/
theorem nearest_natCast (negative : Bool) (n : ℕ) :
    (∃ h, n ≤ Double.maxSafeInteger ∧ nearest negative n = .finite negative ⟨n, h⟩) ∨
      (Double.maxSafeInteger < n ∧ (nearest negative n).isSafeInteger = false) := by
  rcases lt_or_ge n (2 ^ 53) with hsmall | hlarge
  · exact .inl ⟨representable_natCast hsmall, Nat.le_sub_one_of_lt hsmall,
      nearest_eq negative ⟨n, representable_natCast hsmall⟩⟩
  · refine .inr ⟨by rw [Double.maxSafeInteger]; omega, ?_⟩
    have hround : (2 : ℚ) ^ 53 ≤ roundMagnitude n := le_roundMagnitude (by exact_mod_cast hlarge)
    unfold nearest
    split_ifs
    · simp only [Double.isSafeInteger, Bool.and_eq_false_iff, decide_eq_false_iff_not, not_le]
      refine .inr (lt_of_lt_of_le ?_ hround)
      norm_num [Double.maxSafeInteger]
    · rfl

theorem eq_of_roundMagnitude {m n : ℕ} (hn : n < 2 ^ 53) (h : roundMagnitude m = n) : m = n := by
  rcases lt_or_ge m (2 ^ 53) with hsmall | hlarge
  · rw [roundMagnitude_eq (representable_natCast hsmall)] at h
    exact_mod_cast h
  · have hround : (2 : ℚ) ^ 53 ≤ roundMagnitude m := le_roundMagnitude (by exact_mod_cast hlarge)
    rw [h] at hround
    exact absurd (by exact_mod_cast hround) (not_le.mpr hn)

/-- The shortest digits of a safe integer are its own, without the zeros at their end. -/
theorem shortest_natCast {n : ℕ} (hn : n < 2 ^ 53) :
    ∃ zeros : ℕ, pointAfter n - (shortest ⟨n, representable_natCast hn⟩).2 = zeros ∧
      (shortest ⟨n, representable_natCast hn⟩).1 * 10 ^ zeros = n := by
  have hpoint : pointAfter n = (Nat.log 10 n + 1 : ℕ) := by
    rw [pointAfter, Int.log_natCast]
    norm_cast
  have hexact : digitsAt n (Nat.log 10 n + 1) = some n :=
    digitsAt_of_exact (representable_natCast hn) (by rw [hpoint, sub_self, zpow_zero, mul_one])
  have hle : (shortest ⟨n, representable_natCast hn⟩).2 ≤ Nat.log 10 n + 1 :=
    Nat.find_min' _ (Option.isSome_iff_exists.mpr ⟨n, hexact⟩)
  obtain ⟨zeros, hzeros⟩ := Nat.le.dest hle
  have hdiff : pointAfter n - (shortest ⟨n, representable_natCast hn⟩).2 = zeros := by
    rw [hpoint]
    omega
  refine ⟨zeros, hdiff, eq_of_roundMagnitude hn ?_⟩
  have hround := shortest_spec ⟨n, representable_natCast hn⟩
  rw [hdiff, zpow_natCast] at hround
  exact_mod_cast hround

theorem decimal_length {n : ℕ} (h : n ≠ 0) : 10 ^ (decimal n).length ≤ 10 * n := by
  simpa [decimal, h] using Nat.base_pow_length_digits_le 10 n (by norm_num) h

/-- A safe integer is written with all of its digits. -/
theorem toToken_natCast {d : Double} {n : ℕ} (hn : n ≤ Double.maxSafeInteger)
    (h : d.value = some (n : ℚ)) : d.toToken = some (.integer false n) := by
  have hbits : n < 2 ^ 53 := by
    rw [Double.maxSafeInteger] at hn
    omega
  cases d with
  | nan => cases h
  | infinity negative => cases h
  | finite negative magnitude =>
    obtain ⟨q, hq⟩ := magnitude
    simp only [Double.value, Option.some.injEq] at h
    rcases Nat.eq_zero_or_pos n with rfl | hpos
    · have hzero : q = 0 := by cases negative <;> simpa using h
      simp [Double.toToken, hzero]
    · have hnonneg := hq.nonneg
      have hn : (0 : ℚ) < n := by exact_mod_cast hpos
      obtain rfl : negative = false := by
        by_contra hnegative
        rw [Bool.not_eq_false] at hnegative
        rw [hnegative, if_pos rfl] at h
        linarith
      obtain rfl : q = n := by simpa using h
      obtain ⟨zeros, hzeros, hdigits⟩ := shortest_natCast hbits
      generalize hshort : shortest ⟨n, hq⟩ = digits at hzeros hdigits
      have hne : digits.1 ≠ 0 := by
        rintro heq
        rw [heq, Nat.zero_mul] at hdigits
        omega
      have hpoint : zeros + (decimal digits.1).length ≤ 21 := by
        have hlength := decimal_length hne
        have hbound : 10 ^ (zeros + (decimal digits.1).length) < 10 ^ 17 := by
          calc 10 ^ (zeros + (decimal digits.1).length)
              = 10 ^ zeros * 10 ^ (decimal digits.1).length := Nat.pow_add _ _ _
            _ ≤ 10 ^ zeros * (10 * digits.1) := Nat.mul_le_mul_left _ hlength
            _ = 10 * (digits.1 * 10 ^ zeros) := by ring
            _ < 10 ^ 17 := by
              rw [hdigits]
              omega
        have hexp := (Nat.pow_lt_pow_iff_right (by norm_num)).mp hbound
        omega
      have hplain : (decimal digits.1).length ≤ (zeros : ℤ) + (decimal digits.1).length ∧
          (zeros : ℤ) + (decimal digits.1).length ≤ 21 := by omega
      have hwhole : digitsValue (decimal digits.1 ++ List.replicate zeros 0) = n := by
        rw [digitsValue_append, digitsValue_decimal, digitsValue_zeros, List.length_replicate,
          hdigits, Nat.add_zero]
      simp only [Double.toToken, hshort, if_neg hn.ne', hzeros, layout, dif_pos hplain,
        add_sub_cancel_right, Int.toNat_natCast, hwhole]

end RgbLightningNode.Number
