import Mathlib.Algebra.Order.Floor.Semifield
import RgbLightningNode.Number.Decimal

/-!
# Arithmetic of numbers

JavaScript's operators on numbers: the exact operation on rational numbers, rounded once, with the
infinities and what is no number apart. Safe natural numbers are added, compared and divided like
natural numbers, as long as the result is safe as well.
-/

namespace RgbLightningNode.Number

/-- The rational number of a sign and a magnitude. -/
def signed (negative : Bool) (q : ℚ) : ℚ := if negative then -q else q

namespace Double

def natural (n : ℕ) : Double := nearest false n

/-- The nearest double of an exact result. A result of zero has the sign `negative`. -/
def rounded (negative : Bool) (q : ℚ) : Double := nearest (if q = 0 then negative else q < 0) |q|

def add : Double → Double → Double
  | finite s x, finite t y => rounded (s && t) (signed s x.1 + signed t y.1)
  | infinity s, infinity t => if s = t then infinity s else nan
  | infinity s, finite _ _ => infinity s
  | finite _ _, infinity t => infinity t
  | _, _ => nan

def neg : Double → Double
  | finite s x => finite (!s) x
  | infinity s => infinity (!s)
  | nan => nan

def sub (x y : Double) : Double := x.add y.neg

def mul : Double → Double → Double
  | finite s x, finite t y => rounded (s ^^ t) (signed s x.1 * signed t y.1)
  | finite s x, infinity t => if x.1 = 0 then nan else infinity (s ^^ t)
  | infinity s, finite t y => if y.1 = 0 then nan else infinity (s ^^ t)
  | infinity s, infinity t => infinity (s ^^ t)
  | _, _ => nan

def div : Double → Double → Double
  | finite s x, finite t y =>
    if y.1 ≠ 0 then rounded (s ^^ t) (signed s x.1 / signed t y.1)
    else if x.1 = 0 then nan else infinity (s ^^ t)
  | finite s _, infinity t => rounded (s ^^ t) 0
  | infinity s, finite t _ => infinity (s ^^ t)
  | _, _ => nan

/-- `Math.floor`. -/
def floor : Double → Double
  | finite s x => rounded s ⌊signed s x.1⌋
  | d => d

/-- The remainder `%`, which has the sign of its left operand. -/
def rem : Double → Double → Double
  | finite s x, finite _ y =>
    if y.1 = 0 then nan else rounded s (signed s (x.1 - ⌊x.1 / y.1⌋₊ * y.1))
  | finite s x, infinity _ => finite s x
  | _, _ => nan

def lt : Double → Double → Bool
  | finite s x, finite t y => signed s x.1 < signed t y.1
  | infinity s, infinity t => s && !t
  | infinity s, finite _ _ => s
  | finite _ _, infinity t => !t
  | _, _ => false

def le : Double → Double → Bool
  | finite s x, finite t y => signed s x.1 ≤ signed t y.1
  | infinity s, infinity t => s || !t
  | infinity s, finite _ _ => s
  | finite _ _, infinity t => !t
  | _, _ => false

def isZero (d : Double) : Bool := d.value = some 0

/-- The bitwise `&` with a mask below the sign bit. -/
def bitAnd (d : Double) (mask : ℕ) : ℕ :=
  match d with
  | finite s x => ((if s then -⌊x.1⌋ else ⌊x.1⌋) % 2 ^ 32).toNat &&& mask
  | _ => 0

/-! ### Safe natural numbers -/

/-- A safe integer that is not negative, as a natural number. -/
def IsNatural (d : Double) (n : ℕ) : Prop := d.value = some (n : ℚ) ∧ n ≤ maxSafeInteger

/-- The natural number that a double is, if it is a safe one. -/
def toNatural (d : Double) : Option ℕ :=
  if d.isSafeInteger && (natural 0).le d then d.value.map fun q => ⌊q⌋₊ else none

variable {x y : Double} {m n k : ℕ}

theorem signed_eq_value (s : Bool) (q : {q : ℚ // Representable q}) :
    (finite s q).value = some (signed s q.1) := rfl

theorem IsNatural.unique (hm : IsNatural x m) (hn : IsNatural x n) : m = n := by
  have hvalue := hm.1.symm.trans hn.1
  exact_mod_cast Option.some.inj hvalue

theorem IsNatural.exists_finite (h : IsNatural x n) :
    ∃ s q, x = finite s q ∧ signed s q.1 = n ∧ q.1 = n := by
  cases x with
  | nan => cases h.1
  | infinity _ => cases h.1
  | finite s q =>
    have hvalue : signed s q.1 = n := Option.some.inj h.1
    refine ⟨s, q, rfl, hvalue, ?_⟩
    have hq := q.2.nonneg
    cases s with
    | false => exact hvalue
    | true =>
      have hneg : -q.1 = (n : ℚ) := hvalue
      have hn : (0 : ℚ) ≤ n := n.cast_nonneg
      linarith

theorem value_rounded (s : Bool) {q : ℚ} (h : Representable |q|) :
    (rounded s q).value = some q := by
  rw [rounded, nearest_eq _ ⟨|q|, h⟩, signed_eq_value, signed]
  by_cases hzero : q = 0
  · simp [hzero]
  · rcases lt_or_gt_of_ne hzero with hneg | hpos
    · simp [hzero, hneg, abs_of_neg hneg]
    · simp [hzero, not_lt.mpr hpos.le, abs_of_pos hpos]

theorem lt_of_le_safe (h : n ≤ maxSafeInteger) : n < 2 ^ 53 := by
  rw [maxSafeInteger] at h
  omega

theorem representable_safe (h : n ≤ maxSafeInteger) : Representable |(n : ℚ)| := by
  rw [abs_of_nonneg n.cast_nonneg]
  exact representable_natCast (lt_of_le_safe h)

/-- The rounding of a natural number is safe only if the number is, and then exact. -/
theorem isNatural_rounded_iff (s : Bool) : IsNatural (rounded s n) k ↔
    k = n ∧ n ≤ maxSafeInteger := by
  constructor
  · intro h
    have hn : n ≤ maxSafeInteger := by
      by_contra hlarge
      have hpos : (n : ℚ) ≠ 0 := by
        rintro hzero
        rw [Nat.cast_eq_zero.mp hzero] at hlarge
        exact hlarge (Nat.zero_le _)
      have hround : rounded s n = nearest false n := by
        simp [rounded, hpos, not_lt.mpr (n.cast_nonneg : (0 : ℚ) ≤ n)]
      rcases nearest_natCast false n with ⟨-, hsafe, -⟩ | ⟨-, hinexact⟩
      · exact hlarge hsafe
      · obtain ⟨t, q, hfinite, -, hq⟩ := h.exists_finite
        rw [← hround, hfinite] at hinexact
        simp [isSafeInteger, hq, Rat.isInt] at hinexact
        exact absurd h.2 (not_le.mpr hinexact)
    exact ⟨h.unique ⟨value_rounded s (representable_safe hn), hn⟩, hn⟩
  · rintro ⟨rfl, hn⟩
    exact ⟨value_rounded s (representable_safe hn), hn⟩

theorem isNatural_natural (h : n ≤ maxSafeInteger) : IsNatural (natural n) n := by
  refine ⟨?_, h⟩
  rw [natural, nearest_eq false ⟨n, representable_natCast (lt_of_le_safe h)⟩]
  rfl

/-- An integer that is not negative, by its sign and its magnitude. -/
theorem exists_natCast {s : Bool} {q : ℚ} (hq : 0 ≤ q) (hint : q.isInt = true)
    (hnonneg : 0 ≤ signed s q) : ∃ m : ℕ, q = m ∧ signed s q = m := by
  obtain ⟨m, hm⟩ : ∃ m : ℕ, q = m := by
    refine ⟨q.num.toNat, ?_⟩
    have hnum : ((q.num.toNat : ℤ) : ℚ) = q.num := by
      rw [Int.toNat_of_nonneg (Rat.num_nonneg.mpr hq)]
    rw [← Int.cast_natCast, hnum]
    exact Rat.eq_num_of_isInt hint
  refine ⟨m, hm, ?_⟩
  cases s with
  | false => exact hm
  | true =>
    change 0 ≤ -q at hnonneg
    change -q = m
    linarith

theorem toNatural_eq_some : x.toNatural = some n ↔ IsNatural x n := by
  obtain ⟨t, z, hz, hvalue, -⟩ := (isNatural_natural (Nat.zero_le maxSafeInteger)).exists_finite
  cases x with
  | nan => simp [toNatural, isSafeInteger, IsNatural, value]
  | infinity _ => simp [toNatural, isSafeInteger, IsNatural, value]
  | finite s q =>
    constructor
    · intro h
      simp only [toNatural, hz, le, hvalue, Nat.cast_zero] at h
      split at h
      · rename_i hsafe
        simp only [isSafeInteger, Bool.and_eq_true, decide_eq_true_eq] at hsafe
        obtain ⟨⟨hint, hmax⟩, hnonneg⟩ := hsafe
        obtain ⟨m, hm, hsigned⟩ := exists_natCast q.2.nonneg hint hnonneg
        rw [signed_eq_value, Option.map_some, Option.some.injEq, hsigned, Nat.floor_natCast] at h
        subst h
        rw [hm] at hmax
        exact ⟨congrArg some hsigned, by exact_mod_cast hmax⟩
      · cases h
    · intro h
      obtain ⟨s', q', heq, hsigned, hmagnitude⟩ := h.exists_finite
      obtain ⟨rfl, rfl⟩ := finite.inj heq
      have hmax : (n : ℚ) ≤ maxSafeInteger := by exact_mod_cast h.2
      have hnonneg : 0 ≤ signed s q.1 := by
        rw [hsigned]
        exact n.cast_nonneg
      have hsafe : (finite s q).isSafeInteger = true := by
        simp [isSafeInteger, hmagnitude, hmax, Rat.isInt]
      simp [toNatural, hz, le, hvalue, hnonneg, hsafe, h.1]

/-- The check of the validators for a number of bytes or an address. -/
theorem exists_natural_iff :
    (x.isSafeInteger && (natural 0).le x) = true ↔ ∃ n, IsNatural x n := by
  constructor
  · intro h
    have hnatural : x.toNatural = x.value.map fun q => ⌊q⌋₊ := if_pos h
    cases x with
    | nan => cases h
    | infinity _ => cases h
    | finite s q => exact ⟨_, toNatural_eq_some.mp hnatural⟩
  · rintro ⟨n, hn⟩
    by_contra h
    have hnone : x.toNatural = none := if_neg h
    rw [toNatural_eq_some.mpr hn] at hnone
    cases hnone

/-- A sum of safe natural numbers is safe only if it is exact. -/
theorem isNatural_add_iff (hx : IsNatural x m) (hy : IsNatural y n) :
    IsNatural (x.add y) k ↔ k = m + n ∧ m + n ≤ maxSafeInteger := by
  obtain ⟨s, q, rfl, hq, -⟩ := hx.exists_finite
  obtain ⟨t, r, rfl, hr, -⟩ := hy.exists_finite
  rw [add, hq, hr, ← Nat.cast_add]
  exact isNatural_rounded_iff _

theorem lt_iff (hx : IsNatural x m) (hy : IsNatural y n) : x.lt y = true ↔ m < n := by
  obtain ⟨s, q, rfl, hq, -⟩ := hx.exists_finite
  obtain ⟨t, r, rfl, hr, -⟩ := hy.exists_finite
  rw [lt, hq, hr, decide_eq_true_eq, Nat.cast_lt]

theorem le_iff (hx : IsNatural x m) (hy : IsNatural y n) : x.le y = true ↔ m ≤ n := by
  obtain ⟨s, q, rfl, hq, -⟩ := hx.exists_finite
  obtain ⟨t, r, rfl, hr, -⟩ := hy.exists_finite
  rw [le, hq, hr, decide_eq_true_eq, Nat.cast_le]

/-- A safe natural number compares exactly with any other one, rounded or not. -/
theorem le_natural_iff (hx : IsNatural x m) : x.le (natural n) = true ↔ m ≤ n := by
  rcases Nat.lt_or_ge maxSafeInteger n with hlarge | hsafe
  · have hle : m ≤ n := hx.2.trans hlarge.le
    have hround : (2 : ℚ) ^ 53 ≤ roundMagnitude n := by
      refine le_roundMagnitude ?_
      rw [maxSafeInteger] at hlarge
      exact_mod_cast Nat.le_of_pred_lt hlarge
    obtain ⟨s, q, rfl, hq, -⟩ := hx.exists_finite
    have hm : (m : ℚ) ≤ 2 ^ 53 := by exact_mod_cast (lt_of_le_safe hx.2).le
    unfold natural nearest
    split
    · have hright : signed false (roundMagnitude n) = roundMagnitude n := rfl
      rw [le, hq, hright, decide_eq_true_eq]
      exact ⟨fun _ => hle, fun _ => hm.trans hround⟩
    · simp [le, hle]
  · exact le_iff hx (isNatural_natural hsafe)

/-- Order is total on what is compared with a safe natural number. -/
theorem natural_lt_iff (hx : IsNatural x m) : (natural n).lt x = true ↔ n < m := by
  have hle : x.le (natural n) = true ↔ m ≤ n := le_natural_iff hx
  obtain ⟨s, q, rfl, -, -⟩ := hx.exists_finite
  have hnot : (natural n).lt (finite s q) = !(finite s q).le (natural n) := by
    unfold natural nearest
    split
    · rw [lt, le, ← decide_not]
      exact decide_eq_decide.mpr not_le.symm
    · rfl
  rw [hnot, Bool.not_eq_true', ← Bool.not_eq_true, hle, not_le]

/-- A safe integer that is not below a natural number is one itself. -/
theorem exists_natural (hx : x.isSafeInteger = true) (hn : n ≤ maxSafeInteger)
    (hlt : x.lt (natural n) = false) : ∃ m, IsNatural x m ∧ n ≤ m := by
  obtain ⟨t, z, hz, hvalue, -⟩ := (isNatural_natural hn).exists_finite
  cases x with
  | nan => cases hx
  | infinity _ => cases hx
  | finite s q =>
    simp only [isSafeInteger, Bool.and_eq_true, decide_eq_true_eq] at hx
    rw [hz, lt, hvalue, decide_eq_false_iff_not, not_lt] at hlt
    obtain ⟨m, hm, hsigned⟩ := exists_natCast q.2.nonneg hx.1 (n.cast_nonneg.trans hlt)
    rw [hm] at hx
    rw [hsigned] at hlt
    exact ⟨m, ⟨congrArg some hsigned, by exact_mod_cast hx.2⟩, by exact_mod_cast hlt⟩

theorem IsNatural.isSafeInteger (hx : IsNatural x m) : x.isSafeInteger = true := by
  obtain ⟨s, q, rfl, -, hq⟩ := hx.exists_finite
  have hmax : (m : ℚ) ≤ maxSafeInteger := by exact_mod_cast hx.2
  simp [Double.isSafeInteger, hq, hmax, Rat.isInt]

theorem isSafeInteger_add_iff (hx : IsNatural x m) (hy : IsNatural y n) :
    (x.add y).isSafeInteger = true ↔ m + n ≤ maxSafeInteger := by
  constructor
  · intro h
    obtain ⟨s, q, rfl, hq, -⟩ := hx.exists_finite
    obtain ⟨t, r, rfl, hr, -⟩ := hy.exists_finite
    rw [add, hq, hr, ← Nat.cast_add, rounded, abs_of_nonneg (Nat.cast_nonneg _)] at h
    rcases nearest_natCast _ (m + n) with ⟨-, hsafe, -⟩ | ⟨-, hinexact⟩
    · exact hsafe
    · rw [hinexact] at h
      cases h
  · exact fun h => ((isNatural_add_iff hx hy).mpr ⟨rfl, h⟩).isSafeInteger

theorem isZero_iff (hx : IsNatural x m) : x.isZero = true ↔ m = 0 := by
  simp [isZero, hx.1]

/-- The difference of safe natural numbers is exact, also below zero. -/
theorem value_sub (hx : IsNatural x m) (hy : IsNatural y n) :
    (x.sub y).value = some (((m : ℤ) - n : ℤ) : ℚ) := by
  obtain ⟨s, q, rfl, hq, -⟩ := hx.exists_finite
  obtain ⟨t, r, rfl, hr, -⟩ := hy.exists_finite
  have hneg : signed (!t) r.1 = -(n : ℚ) := by
    rw [← hr]
    cases t <;> simp [signed]
  rw [sub, neg, add, hq, hneg, ← sub_eq_add_neg]
  have hcast : (m : ℚ) - n = (((m : ℤ) - n : ℤ) : ℚ) := by push_cast; rfl
  rw [hcast]
  refine value_rounded _ ?_
  rw [← Int.cast_abs, Int.abs_eq_natAbs, Int.cast_natCast]
  refine representable_natCast (lt_of_le_of_lt ?_ (lt_of_le_safe (max_le hx.2 hy.2)))
  omega

/-- Whether a remainder is zero, for an integer of safe magnitude. -/
theorem isZero_rem_iff {i : ℤ} (hx : x.value = some (i : ℚ)) (hi : i.natAbs ≤ maxSafeInteger)
    (hy : IsNatural y n) (hn : 0 < n) : (x.rem y).isZero = true ↔ n ∣ i.natAbs := by
  cases x with
  | nan => cases hx
  | infinity _ => cases hx
  | finite s q =>
    obtain ⟨t, r, rfl, -, hr⟩ := hy.exists_finite
    have hq : q.1 = (i.natAbs : ℚ) := by
      have hvalue : signed s q.1 = i := Option.some.inj hx
      have habs : |signed s q.1| = q.1 := by
        cases s <;> simp [signed, abs_of_nonneg q.2.nonneg]
      rw [← habs, hvalue, ← Int.cast_abs, Int.abs_eq_natAbs, Int.cast_natCast]
    have hne : (r.1 : ℚ) ≠ 0 := by
      rw [hr]
      exact_mod_cast hn.ne'
    have hrest : q.1 - ⌊q.1 / r.1⌋₊ * r.1 = (i.natAbs % n : ℕ) := by
      rw [hq, hr, Nat.floor_div_eq_div]
      have hdivision := Nat.div_add_mod i.natAbs n
      have hcast : (n : ℚ) * (i.natAbs / n : ℕ) + (i.natAbs % n : ℕ) = i.natAbs := by
        exact_mod_cast hdivision
      linarith
    have hmod : i.natAbs % n ≤ maxSafeInteger := (Nat.mod_le _ _).trans hi
    rw [rem, if_neg hne, hrest, isZero, value_rounded, decide_eq_true_eq, Option.some.injEq]
    · rw [Nat.dvd_iff_mod_eq_zero]
      cases s <;> simp [signed]
    · cases s <;> simpa [signed] using representable_natCast (lt_of_le_safe hmod)

theorem isZero_rem_natural_iff (hx : IsNatural x m) (hy : IsNatural y n) (hn : 0 < n) :
    (x.rem y).isZero = true ↔ n ∣ m := by
  have hcast : x.value = some (((m : ℤ) : ℚ)) := by rw [hx.1, Int.cast_natCast]
  simpa using isZero_rem_iff hcast (by simpa using hx.2) hy hn

/-- Two safe natural numbers are congruent if the remainder of their difference is zero. -/
theorem isZero_rem_sub_iff {p : ℕ} {z : Double} (hx : IsNatural x m) (hy : IsNatural y n)
    (hz : IsNatural z p) (hp : 0 < p) : ((x.sub y).rem z).isZero = true ↔ m ≡ n [MOD p] := by
  have hbound : ((m : ℤ) - n).natAbs ≤ maxSafeInteger := by
    have hm := hx.2
    have hn := hy.2
    omega
  rw [isZero_rem_iff (value_sub hx hy) hbound hz hp, ← Int.natCast_dvd, Nat.modEq_iff_dvd,
    ← dvd_neg, neg_sub]

theorem exists_finite_of_value {v : ℚ} (h : x.value = some v) :
    ∃ s q, x = finite s q ∧ signed s q.1 = v := by
  cases x with
  | nan => cases h
  | infinity _ => cases h
  | finite s q => exact ⟨s, q, rfl, Option.some.inj h⟩

/-- Rounding down to a multiple of a power of two is exact. -/
theorem isNatural_roundDown (hx : IsNatural x m) (hy : IsNatural y (2 ^ k)) :
    IsNatural ((x.div y).floor.mul y) (m / 2 ^ k * 2 ^ k) := by
  have hquotient : Representable |(m : ℚ) / (2 ^ k : ℕ)| := by
    have hexponent : 2 ^ k < 2 ^ 53 := lt_of_le_safe hy.2
    have hk : k < 53 := (Nat.pow_lt_pow_iff_right (by norm_num)).mp hexponent
    rw [abs_of_nonneg (by positivity)]
    refine ⟨m, -k, lt_of_le_safe hx.2, by omega, by omega, ?_⟩
    rw [zpow_neg, zpow_natCast, div_eq_mul_inv, Nat.cast_pow, Nat.cast_ofNat]
  have hfloor : ⌊(m : ℚ) / (2 ^ k : ℕ)⌋ = ((m / 2 ^ k : ℕ) : ℤ) := by
    rw [← Int.natCast_floor_eq_floor (by positivity), Nat.floor_div_eq_div]
  have hdown : m / 2 ^ k * 2 ^ k ≤ maxSafeInteger := (Nat.div_mul_le_self m (2 ^ k)).trans hx.2
  have hsmall : m / 2 ^ k ≤ maxSafeInteger := (Nat.div_le_self m (2 ^ k)).trans hx.2
  obtain ⟨s, q, rfl, hq, -⟩ := hx.exists_finite
  obtain ⟨t, r, rfl, hr, hr'⟩ := hy.exists_finite
  have hpow : r.1 ≠ 0 := by
    rw [hr']
    positivity
  obtain ⟨s₁, q₁, hdiv, hq₁⟩ := exists_finite_of_value (value_rounded (s ^^ t) hquotient)
  rw [div, if_pos hpow, hq, hr, hdiv, floor, hq₁, hfloor, Int.cast_natCast]
  obtain ⟨s₂, q₂, hround, hq₂⟩ :=
    exists_finite_of_value (value_rounded s₁ (representable_safe hsmall))
  rw [hround, mul, hq₂, hr, ← Nat.cast_mul]
  exact (isNatural_rounded_iff _).mpr ⟨rfl, hdown⟩

/-- The lower bits of a safe natural number. -/
theorem bitAnd_eq {mask : ℕ} (hx : IsNatural x m) (hmask : mask < 2 ^ 32) :
    x.bitAnd mask = m &&& mask := by
  obtain ⟨s, q, rfl, hq, hq'⟩ := hx.exists_finite
  have htruncated : (if s then -⌊q.1⌋ else ⌊q.1⌋) = (m : ℤ) := by
    rw [hq', Int.floor_natCast]
    cases s with
    | false => rfl
    | true =>
      have hneg : -(m : ℚ) = m := hq' ▸ hq
      have hneg' : -(m : ℤ) = m := by exact_mod_cast hneg
      exact hneg'
  have hword : ((m : ℤ) % 2 ^ 32).toNat = m % 2 ^ 32 := by omega
  have hle : m &&& mask < 2 ^ 32 := Nat.and_le_right.trans_lt hmask
  rw [bitAnd, htruncated, hword]
  nth_rewrite 1 [← Nat.mod_eq_of_lt hmask]
  rw [← Nat.and_mod_two_pow, Nat.mod_eq_of_lt hle]

end Double

end RgbLightningNode.Number
