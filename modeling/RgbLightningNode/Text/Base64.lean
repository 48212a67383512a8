import Mathlib.Tactic.Common

/-!
# Base64

The standard alphabet with padding. The decoder takes what the encoder writes and nothing else, so
every byte string has exactly one text.
-/

namespace RgbLightningNode.Text

/-- The digit for a value of six bits. -/
def base64Digit (n : ℕ) : Char :=
  if n < 26 then .ofNat (65 + n)
  else if n < 52 then .ofNat (97 + (n - 26))
  else if n < 62 then .ofNat (48 + (n - 52))
  else if n = 62 then '+'
  else '/'

def base64Value (c : Char) : Option ℕ :=
  let n := c.toNat
  if 65 ≤ n ∧ n < 91 then some (n - 65)
  else if 97 ≤ n ∧ n < 123 then some (n - 97 + 26)
  else if 48 ≤ n ∧ n < 58 then some (n - 48 + 52)
  else if n = 43 then some 62
  else if n = 47 then some 63
  else none

def encodeBase64 : List UInt8 → List Char
  | [] => []
  | [a] => [base64Digit (a.toNat / 4), base64Digit (a.toNat % 4 * 16), '=', '=']
  | [a, b] => [base64Digit (a.toNat / 4), base64Digit (a.toNat % 4 * 16 + b.toNat / 16),
      base64Digit (b.toNat % 16 * 4), '=']
  | a :: b :: c :: rest =>
    base64Digit (a.toNat / 4) :: base64Digit (a.toNat % 4 * 16 + b.toNat / 16) ::
      base64Digit (b.toNat % 16 * 4 + c.toNat / 64) :: base64Digit (c.toNat % 64) ::
      encodeBase64 rest

/-- The last group of four digits may be padded; the bits that padding cuts off are zero. -/
def decodeBase64 : List Char → Option (List UInt8)
  | [] => some []
  | [w, x, '=', '='] =>
    (base64Value w).bind fun w => (base64Value x).bind fun x =>
      if x % 16 = 0 then some [.ofNat (w * 4 + x / 16)] else none
  | [w, x, y, '='] =>
    (base64Value w).bind fun w => (base64Value x).bind fun x => (base64Value y).bind fun y =>
      if y % 4 = 0 then some [.ofNat (w * 4 + x / 16), .ofNat (x % 16 * 16 + y / 4)] else none
  | w :: x :: y :: z :: rest =>
    (base64Value w).bind fun w => (base64Value x).bind fun x => (base64Value y).bind fun y =>
      (base64Value z).bind fun z => (decodeBase64 rest).map fun bytes =>
        .ofNat (w * 4 + x / 16) :: .ofNat (x % 16 * 16 + y / 4) :: .ofNat (y % 4 * 64 + z) :: bytes
  | _ => none

theorem base64_digit {n : ℕ} (h : n < 64) : base64Value (base64Digit n) = some n ∧
    (base64Digit n).toNat < 128 ∧ base64Digit n ≠ '=' := by
  have hall : ∀ k : Fin 64, base64Value (base64Digit k) = some k.val ∧
      (base64Digit k).toNat < 128 ∧ base64Digit k ≠ '=' := by decide
  exact hall ⟨n, h⟩

theorem base64Value_digit {n : ℕ} (h : n < 64) : base64Value (base64Digit n) = some n :=
  (base64_digit h).1

theorem ofNat_toNat_eq {a : UInt8} {n : ℕ} (h : n = a.toNat) : UInt8.ofNat n = a := by
  rw [h, UInt8.ofNat_toNat]

theorem decodeBase64_encodeBase64 (bytes : List UInt8) :
    decodeBase64 (encodeBase64 bytes) = some bytes := by
  induction bytes using encodeBase64.induct with
  | case1 => rfl
  | case2 a =>
    have ha := a.toNat_lt
    simp only [encodeBase64, decodeBase64]
    rw [base64Value_digit (by omega), base64Value_digit (by omega)]
    simp only [Option.bind_some]
    rw [if_pos (by omega), ofNat_toNat_eq (show _ = a.toNat by omega)]
  | case3 a b =>
    have ha := a.toNat_lt
    have hb := b.toNat_lt
    have hpad : base64Digit (b.toNat % 16 * 4) ≠ '=' := (base64_digit (by omega)).2.2
    simp only [encodeBase64]
    rw [decodeBase64]
    · rw [base64Value_digit (by omega), base64Value_digit (by omega), base64Value_digit (by omega)]
      simp only [Option.bind_some]
      rw [if_pos (by omega), ofNat_toNat_eq (show _ = a.toNat by omega),
        ofNat_toNat_eq (show _ = b.toNat by omega)]
    · exact fun h => hpad h
  | case4 a b c rest ih =>
    have ha := a.toNat_lt
    have hb := b.toNat_lt
    have hc := c.toNat_lt
    have hpad : base64Digit (c.toNat % 64) ≠ '=' := (base64_digit (by omega)).2.2
    simp only [encodeBase64]
    rw [decodeBase64]
    · rw [base64Value_digit (by omega), base64Value_digit (by omega), base64Value_digit (by omega),
        base64Value_digit (by omega), ih]
      simp only [Option.bind_some, Option.map_some]
      rw [ofNat_toNat_eq (show _ = a.toNat by omega), ofNat_toNat_eq (show _ = b.toNat by omega),
        ofNat_toNat_eq (show _ = c.toNat by omega)]
    · exact fun _ h _ => hpad h
    · exact fun h _ => hpad h

theorem encodeBase64_length (bytes : List UInt8) :
    (encodeBase64 bytes).length = (bytes.length + 2) / 3 * 4 := by
  induction bytes using encodeBase64.induct with
  | case1 => rfl
  | case2 a => simp [encodeBase64]
  | case3 a b => simp [encodeBase64]
  | case4 a b c rest ih =>
    simp only [encodeBase64, List.length_cons, ih]
    omega

theorem encodeBase64_ascii (bytes : List UInt8) : ∀ c ∈ encodeBase64 bytes, c.toNat < 128 := by
  have hdigit {n : ℕ} (h : n < 64) : (base64Digit n).toNat < 128 := (base64_digit h).2.1
  induction bytes using encodeBase64.induct with
  | case1 => simp [encodeBase64]
  | case2 a =>
    have ha := a.toNat_lt
    simp only [encodeBase64, List.forall_mem_cons]
    exact ⟨hdigit (by omega), hdigit (by omega), by decide, by decide, by simp⟩
  | case3 a b =>
    have ha := a.toNat_lt
    have hb := b.toNat_lt
    simp only [encodeBase64, List.forall_mem_cons]
    exact ⟨hdigit (by omega), hdigit (by omega), hdigit (by omega), by decide, by simp⟩
  | case4 a b c rest ih =>
    have ha := a.toNat_lt
    have hb := b.toNat_lt
    have hc := c.toNat_lt
    simp only [encodeBase64, List.forall_mem_cons]
    exact ⟨hdigit (by omega), hdigit (by omega), hdigit (by omega), hdigit (by omega), ih⟩

end RgbLightningNode.Text
