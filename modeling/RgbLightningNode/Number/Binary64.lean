import Mathlib.Data.Int.Log
import Mathlib.Algebra.Order.Field.Power
import Mathlib.Data.Rat.Floor
import Mathlib.Tactic.Linarith
import Mathlib.Tactic.Positivity
import Mathlib.Tactic.Ring
import Mathlib.Tactic.NormNum

/-!
# Doubles

The finite magnitudes of the binary64 format as rational numbers, and rounding to the nearest one
with ties to an even significand. A magnitude that the format has is its own rounding, and rounding
does not cross a power of two.
-/

namespace RgbLightningNode.Number

/-- The magnitudes that the format has. -/
def Representable (q : ℚ) : Prop :=
  ∃ (significand : ℕ) (exponent : ℤ), significand < 2 ^ 53 ∧ -1074 ≤ exponent ∧ exponent ≤ 971 ∧
    q = significand * 2 ^ exponent

theorem Representable.lt {q : ℚ} (h : Representable q) : q < 2 ^ 1024 := by
  obtain ⟨m, e, hm, _, he, rfl⟩ := h
  calc (m * 2 ^ e : ℚ) < 2 ^ 53 * 2 ^ (971 : ℤ) := by
        refine mul_lt_mul (by exact_mod_cast hm) ?_ (by positivity) (by positivity)
        exact zpow_le_zpow_right₀ (by norm_num) he
    _ = 2 ^ 1024 := by rw [← Nat.cast_ofNat (n := 971), zpow_natCast, ← pow_add]

theorem Representable.nonneg {q : ℚ} (h : Representable q) : 0 ≤ q := by
  obtain ⟨m, e, _, _, _, rfl⟩ := h
  positivity

/-- The natural numbers of 53 bits are magnitudes of the format. -/
theorem representable_natCast {n : ℕ} (h : n < 2 ^ 53) : Representable n :=
  ⟨n, 0, h, by norm_num, by norm_num, by simp⟩

/-- The nearest natural number, and the even one of two. -/
def roundEven (q : ℚ) : ℕ :=
  let below := ⌊q⌋₊
  let rest := q - below
  if rest < 1 / 2 then below
  else if 1 / 2 < rest then below + 1
  else if below % 2 = 0 then below
  else below + 1

/-- The exponent of the last bit that a magnitude is rounded to. -/
def lastPlace (q : ℚ) : ℤ := max (-1074) (Int.log 2 q - 52)

/-- Rounding without a bound on the exponent. -/
def roundMagnitude (q : ℚ) : ℚ := roundEven (q / 2 ^ lastPlace q) * 2 ^ lastPlace q

/-! ### Rounding to a natural number -/

theorem le_roundEven {n : ℕ} {q : ℚ} (h : n ≤ q) : n ≤ roundEven q := by
  have hbelow : n ≤ ⌊q⌋₊ := Nat.le_floor h
  unfold roundEven
  dsimp only
  split_ifs <;> omega

theorem roundEven_natCast (n : ℕ) : roundEven n = n := by
  simp [roundEven]

theorem roundEven_le {n : ℕ} {q : ℚ} (h : q ≤ n) : roundEven q ≤ n := by
  have hbelow : ⌊q⌋₊ ≤ n := Nat.floor_le_of_le h
  rcases hbelow.lt_or_eq with hlt | heq
  · unfold roundEven
    dsimp only
    split_ifs <;> omega
  · have hrest : q - (⌊q⌋₊ : ℚ) < 1 / 2 := by
      rw [heq]
      linarith
    simp only [roundEven, if_pos hrest]
    exact hbelow

/-! ### The last place -/

theorem lt_lastPlace (q : ℚ) : q < 2 ^ (lastPlace q + 53) := by
  have hlog : q < 2 ^ (Int.log 2 q + 1) := Int.lt_zpow_succ_log_self (by norm_num) q
  refine hlog.trans_le (zpow_le_zpow_right₀ (by norm_num) ?_)
  have hmax : Int.log 2 q - 52 ≤ lastPlace q := le_max_right _ _
  omega

theorem lastPlace_le {q : ℚ} (hq : 0 < q) (hplace : lastPlace q ≠ -1074) :
    2 ^ (lastPlace q + 52) ≤ q := by
  have heq : lastPlace q + 52 = Int.log 2 q := by
    unfold lastPlace at hplace ⊢
    omega
  rw [heq]
  exact Int.zpow_log_le_self (by norm_num) hq

/-- A magnitude in units of the last place. -/
theorem div_lastPlace_le (q : ℚ) : q / 2 ^ lastPlace q ≤ (2 ^ 53 : ℕ) := by
  rw [div_le_iff₀ (by positivity)]
  have hlt := lt_lastPlace q
  rw [zpow_add₀ (by norm_num), mul_comm] at hlt
  exact_mod_cast hlt.le

theorem le_div_lastPlace {q : ℚ} (hq : 0 < q) (hplace : lastPlace q ≠ -1074) :
    (2 ^ 52 : ℕ) ≤ q / 2 ^ lastPlace q := by
  rw [le_div_iff₀ (by positivity)]
  have hle := lastPlace_le hq hplace
  rw [zpow_add₀ (by norm_num), mul_comm] at hle
  exact_mod_cast hle

theorem lastPlace_le_exponent {m : ℕ} {e : ℤ} (hm : m < 2 ^ 53) (he : -1074 ≤ e)
    (hpos : (0 : ℚ) < m * 2 ^ e) : lastPlace (m * 2 ^ e : ℚ) ≤ e := by
  by_contra hlt
  have hplace : lastPlace (m * 2 ^ e : ℚ) ≠ -1074 := by omega
  have hle := lastPlace_le hpos hplace
  have hbound : (m * 2 ^ e : ℚ) < 2 ^ (e + 53) := by
    rw [zpow_add₀ (by norm_num), mul_comm]
    gcongr
    exact_mod_cast hm
  have hexp := (zpow_lt_zpow_iff_right₀ (by norm_num : (1 : ℚ) < 2)).mp (hle.trans_lt hbound)
  omega

/-! ### Rounding -/

/-- A magnitude of the format is its own rounding. -/
theorem roundMagnitude_eq {q : ℚ} (h : Representable q) : roundMagnitude q = q := by
  obtain ⟨m, e, hm, he, _, rfl⟩ := h
  rcases Nat.eq_zero_or_pos m with rfl | hpos
  · simp [roundMagnitude, roundEven]
  · have hq : (0 : ℚ) < m * 2 ^ e := by positivity
    have hle := lastPlace_le_exponent hm he hq
    obtain ⟨k, hk⟩ := Int.le.dest hle
    have hunits : (m * 2 ^ e : ℚ) / 2 ^ lastPlace (m * 2 ^ e : ℚ) = (m * 2 ^ k : ℕ) := by
      rw [div_eq_iff (by positivity), Nat.cast_mul, mul_assoc]
      congr 1
      rw [Nat.cast_pow, Nat.cast_ofNat, ← zpow_natCast, ← zpow_add₀ (by norm_num), add_comm, hk]
    rw [roundMagnitude, hunits, roundEven_natCast, ← hunits, div_mul_cancel₀ _ (by positivity)]

theorem roundMagnitude_representable {q : ℚ} (h : roundMagnitude q < 2 ^ 1024) :
    Representable (roundMagnitude q) := by
  have hle : roundEven (q / 2 ^ lastPlace q) ≤ 2 ^ 53 := roundEven_le (div_lastPlace_le q)
  have hplace : -1074 ≤ lastPlace q := le_max_left _ _
  unfold roundMagnitude at h ⊢
  generalize hm : roundEven (q / 2 ^ lastPlace q) = m at h hle ⊢
  have hexp {a : ℕ} (ha : 2 ^ a ≤ m) : (a : ℤ) + lastPlace q < 1024 := by
    have hpow : (2 : ℚ) ^ ((a : ℤ) + lastPlace q) < 2 ^ (1024 : ℤ) := by
      refine lt_of_le_of_lt ?_ h
      rw [zpow_add₀ (by norm_num), zpow_natCast]
      gcongr
      exact_mod_cast ha
    exact (zpow_lt_zpow_iff_right₀ (by norm_num)).mp hpow
  rcases hle.lt_or_eq with hlt | rfl
  · rcases Nat.eq_zero_or_pos m with rfl | hpos
    · exact ⟨0, 0, by norm_num, by norm_num, by norm_num, by simp⟩
    · refine ⟨m, lastPlace q, hlt, hplace, ?_, rfl⟩
      by_cases hmin : lastPlace q = -1074
      · omega
      · have hq : 0 < q := by
          by_contra hneg
          have hzero : roundEven (q / 2 ^ lastPlace q) ≤ 0 := by
            refine roundEven_le ?_
            rw [Nat.cast_zero]
            exact div_nonpos_of_nonpos_of_nonneg (not_lt.mp hneg) (by positivity)
          omega
        have hlarge : 2 ^ 52 ≤ m := hm ▸ le_roundEven (le_div_lastPlace hq hmin)
        have hbound := hexp hlarge
        omega
  · have hbound := hexp (le_refl (2 ^ 53))
    refine ⟨2 ^ 52, lastPlace q + 1, by norm_num, by omega, by omega, ?_⟩
    rw [zpow_add₀ (by norm_num)]
    push_cast
    ring

theorem lastPlace_pos {q : ℚ} (h : 2 ^ 53 ≤ q) : 0 < lastPlace q := by
  have hlt : (2 : ℚ) ^ (53 : ℤ) < 2 ^ (lastPlace q + 53) := lt_of_le_of_lt h (lt_lastPlace q)
  have hexp := (zpow_lt_zpow_iff_right₀ (by norm_num : (1 : ℚ) < 2)).mp hlt
  omega

/-- What needs more than 53 bits is not rounded to fewer. -/
theorem le_roundMagnitude {q : ℚ} (h : 2 ^ 53 ≤ q) : 2 ^ 53 ≤ roundMagnitude q := by
  have hpos : 0 < q := lt_of_lt_of_le (by norm_num) h
  have hplace : 1 ≤ lastPlace q := lastPlace_pos h
  have hunits : 2 ^ 52 ≤ roundEven (q / 2 ^ lastPlace q) :=
    le_roundEven (le_div_lastPlace hpos (by omega))
  have htwo : (2 : ℚ) ≤ 2 ^ lastPlace q := by
    simpa using zpow_le_zpow_right₀ (by norm_num : (1 : ℚ) ≤ 2) hplace
  calc (2 : ℚ) ^ 53 = (2 ^ 52 : ℕ) * 2 := by norm_num
    _ ≤ roundEven (q / 2 ^ lastPlace q) * 2 ^ lastPlace q := by
      gcongr

end RgbLightningNode.Number
