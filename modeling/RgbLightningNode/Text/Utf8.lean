import Mathlib.Data.List.Basic
import Mathlib.Tactic.Common

/-!
# UTF-8

A strict decoder, one byte at a time: overlong forms, surrogates and values above the last code
point are refused. Decoding what was encoded gives the text back.
-/

namespace RgbLightningNode.Text

theorem forall_of_all {cs : List Char} {p : Char → Prop} [DecidablePred p]
    (h : (cs.all fun c => decide (p c)) = true) : ∀ c ∈ cs, p c :=
  fun c hc => of_decide_eq_true (List.all_eq_true.mp h c hc)

theorem dropPrefix_eq_some {cs front rest : List Char} :
    cs.dropPrefix? front = some rest ↔ cs = front ++ rest := by
  simp [List.dropPrefix?_eq_some_iff]

def encodeChar (c : Char) : List UInt8 :=
  let n := c.toNat
  if n < 0x80 then [.ofNat n]
  else if n < 0x800 then [.ofNat (0xC0 + n / 64), .ofNat (0x80 + n % 64)]
  else if n < 0x10000 then
    [.ofNat (0xE0 + n / 4096), .ofNat (0x80 + n / 64 % 64), .ofNat (0x80 + n % 64)]
  else [.ofNat (0xF0 + n / 262144), .ofNat (0x80 + n / 4096 % 64), .ofNat (0x80 + n / 64 % 64),
    .ofNat (0x80 + n % 64)]

def encodeUtf8 (cs : List Char) : List UInt8 := cs.flatMap encodeChar

/-- `owed` continuation bytes are still due for a character whose leading bits are `acc` and whose
code point must be at least `least`. -/
def decodeFrom (owed least acc : ℕ) : List UInt8 → Option (List Char)
  | [] => if owed = 0 then some [] else none
  | b :: rest =>
    let n := b.toNat
    match owed with
    | 0 =>
      if n < 0x80 then (decodeFrom 0 0 0 rest).map (Char.ofNat n :: ·)
      else if n < 0xC0 then none
      else if n < 0xE0 then decodeFrom 1 0x80 (n - 0xC0) rest
      else if n < 0xF0 then decodeFrom 2 0x800 (n - 0xE0) rest
      else if n < 0xF8 then decodeFrom 3 0x10000 (n - 0xF0) rest
      else none
    | 1 =>
      if 0x80 ≤ n ∧ n < 0xC0 ∧ least ≤ acc * 64 + (n - 0x80) ∧
        (acc * 64 + (n - 0x80)).isValidChar then
        (decodeFrom 0 0 0 rest).map (Char.ofNat (acc * 64 + (n - 0x80)) :: ·)
      else none
    | owed + 2 =>
      if 0x80 ≤ n ∧ n < 0xC0 then decodeFrom (owed + 1) least (acc * 64 + (n - 0x80)) rest else none

def decodeUtf8 (bytes : List UInt8) : Option (List Char) := decodeFrom 0 0 0 bytes

theorem toNat_byte {n : ℕ} (h : n < 256) : (UInt8.ofNat n).toNat = n := by
  simpa using Nat.mod_eq_of_lt h

theorem toNat_ofNat {n : ℕ} (h : n.isValidChar) : (Char.ofNat n).toNat = n := by
  rw [Char.ofNat, dif_pos h]
  rfl

theorem decodeFrom_continue (owed least acc : ℕ) {d : ℕ} (hd : d < 64) (rest : List UInt8) :
    decodeFrom (owed + 2) least acc (.ofNat (0x80 + d) :: rest) =
      decodeFrom (owed + 1) least (acc * 64 + d) rest := by
  rw [decodeFrom, toNat_byte (by omega)]
  simp [show 128 + d < 192 by omega]

theorem decodeFrom_last {least acc d : ℕ} {c : Char} (hd : d < 64) (hc : acc * 64 + d = c.toNat)
    (hleast : least ≤ c.toNat) (rest : List UInt8) :
    decodeFrom 1 least acc (.ofNat (0x80 + d) :: rest) =
      (decodeFrom 0 0 0 rest).map (c :: ·) := by
  have hvalid : c.toNat.isValidChar := c.valid
  rw [decodeFrom, toNat_byte (by omega)]
  simp [show 128 + d < 192 by omega, hc, hleast, hvalid]

theorem decodeFrom_encodeChar (c : Char) (rest : List UInt8) :
    decodeFrom 0 0 0 (encodeChar c ++ rest) = (decodeFrom 0 0 0 rest).map (c :: ·) := by
  have hbound : c.toNat < 0x110000 := by
    have hvalid : c.toNat.isValidChar := c.valid
    rcases hvalid with h | h <;> omega
  by_cases h₁ : c.toNat < 0x80
  · simp only [encodeChar, h₁, if_true, List.cons_append, List.nil_append]
    rw [decodeFrom, toNat_byte (by omega)]
    simp [h₁]
  by_cases h₂ : c.toNat < 0x800
  · simp only [encodeChar, h₁, h₂, if_true, if_false, List.cons_append, List.nil_append]
    rw [decodeFrom, toNat_byte (by omega)]
    simp only [show ¬192 + c.toNat / 64 < 0x80 by omega, show ¬192 + c.toNat / 64 < 0xC0 by omega,
      show 192 + c.toNat / 64 < 0xE0 by omega, if_true, if_false, Nat.add_sub_cancel_left]
    exact decodeFrom_last (by omega) (by omega) (by omega) rest
  by_cases h₃ : c.toNat < 0x10000
  · simp only [encodeChar, h₁, h₂, h₃, if_true, if_false, List.cons_append, List.nil_append]
    rw [decodeFrom, toNat_byte (by omega)]
    simp only [show ¬224 + c.toNat / 4096 < 0x80 by omega,
      show ¬224 + c.toNat / 4096 < 0xC0 by omega, show ¬224 + c.toNat / 4096 < 0xE0 by omega,
      show 224 + c.toNat / 4096 < 0xF0 by omega, if_true, if_false, Nat.add_sub_cancel_left]
    rw [decodeFrom_continue 0 _ _ (by omega)]
    exact decodeFrom_last (by omega) (by omega) (by omega) rest
  · simp only [encodeChar, h₁, h₂, h₃, if_false, List.cons_append, List.nil_append]
    rw [decodeFrom, toNat_byte (by omega)]
    simp only [show ¬240 + c.toNat / 262144 < 0x80 by omega,
      show ¬240 + c.toNat / 262144 < 0xC0 by omega, show ¬240 + c.toNat / 262144 < 0xE0 by omega,
      show ¬240 + c.toNat / 262144 < 0xF0 by omega, show 240 + c.toNat / 262144 < 0xF8 by omega,
      if_true, if_false, Nat.add_sub_cancel_left]
    rw [decodeFrom_continue 1 _ _ (by omega), decodeFrom_continue 0 _ _ (by omega)]
    exact decodeFrom_last (by omega) (by omega) (by omega) rest

theorem decodeUtf8_encodeUtf8 (cs : List Char) : decodeUtf8 (encodeUtf8 cs) = some cs := by
  induction cs with
  | nil => rfl
  | cons c cs ih =>
    change decodeFrom 0 0 0 (encodeChar c ++ encodeUtf8 cs) = _
    rw [decodeFrom_encodeChar]
    simpa [decodeUtf8] using congrArg (Option.map (c :: ·)) ih

end RgbLightningNode.Text
