import RgbLightningNode.Text.Utf8
import Mathlib.Data.Int.Notation

/-!
# Compact JSON records

Printers for the scalars of a compact JSON text, and readers that take a printed scalar off the
front of a text. Each reader gives back what its printer was given, and leaves the rest alone.
-/

namespace RgbLightningNode.Text

/-- A reader takes a value off the front of a text. -/
abbrev Reader (α : Type) := List Char → Option (α × List Char)

namespace Reader

variable {α β : Type}

def pure (a : α) : Reader α := fun cs => some (a, cs)

def andThen (r : Reader α) (next : α → Reader β) : Reader β := fun cs =>
  (r cs).bind fun taken => next taken.1 taken.2

theorem andThen_eq {r : Reader α} {next : α → Reader β} {cs rest : List Char} {a : α}
    (h : r cs = some (a, rest)) : r.andThen next cs = next a rest := by
  simp [andThen, h]

/-- A text that is read to its end. -/
def all (r : Reader α) (cs : List Char) : Option α :=
  match r cs with
  | some (a, []) => some a
  | _ => none

end Reader

/-! ### Fixed text -/

def readLiteral (text : String) : Reader Unit := fun cs =>
  if text.toList.isPrefixOf cs then some ((), cs.drop text.toList.length) else none

@[simp] theorem readLiteral_append (text : String) (rest : List Char) :
    readLiteral text (text.toList ++ rest) = some ((), rest) := by
  simp [readLiteral]

/-! ### Booleans -/

def printBool (b : Bool) : List Char := if b then "true".toList else "false".toList

def readBool : Reader Bool := fun cs => match readLiteral "true" cs with
  | some (_, rest) => some (true, rest)
  | none => (readLiteral "false" cs).map fun r => (false, r.2)

@[simp] theorem readBool_print (b : Bool) (rest : List Char) :
    readBool (printBool b ++ rest) = some (b, rest) := by
  cases b with
  | true => rfl
  | false => rfl

/-! ### Numbers -/

/-- The text ends here or goes on with something that is not a digit. -/
def DigitsEnd (rest : List Char) : Prop := ∀ c ∈ rest.head?, c.isDigit = false

def printNat (n : ℕ) : List Char := Nat.toDigits 10 n

def readNat : Reader ℕ := fun cs =>
  match cs.takeWhile Char.isDigit with
  | [] => none
  | digits => some (Nat.ofDigitChars 10 digits 0, cs.dropWhile Char.isDigit)

theorem span_digits {digits rest : List Char} (hdigits : ∀ c ∈ digits, c.isDigit = true)
    (hrest : DigitsEnd rest) : (digits ++ rest).takeWhile Char.isDigit = digits ∧
      (digits ++ rest).dropWhile Char.isDigit = rest := by
  rw [List.takeWhile_append_of_pos hdigits, List.dropWhile_append_of_pos hdigits]
  cases rest with
  | nil => simp
  | cons c rest =>
    have hc : c.isDigit = false := hrest c (by simp)
    simp [hc]

theorem readNat_print (n : ℕ) {rest : List Char} (hrest : DigitsEnd rest) :
    readNat (printNat n ++ rest) = some (n, rest) := by
  have hdigits : ∀ c ∈ Nat.toDigits 10 n, c.isDigit = true := fun c hc =>
    Nat.isDigit_of_mem_toDigits (by omega) (by omega) hc
  obtain ⟨htake, hdrop⟩ := span_digits hdigits hrest
  unfold readNat printNat
  rw [htake, hdrop]
  split
  · rename_i h
    exact absurd h Nat.toDigits_ne_nil
  · simp

def printInt : ℤ → List Char
  | .ofNat n => printNat n
  | .negSucc n => '-' :: printNat (n + 1)

def readInt : Reader ℤ := fun cs => match cs with
  | '-' :: rest => (readNat rest).map fun r => (-r.1, r.2)
  | _ => (readNat cs).map fun r => (r.1, r.2)

theorem readInt_print (i : ℤ) {rest : List Char} (hrest : DigitsEnd rest) :
    readInt (printInt i ++ rest) = some (i, rest) := by
  cases i with
  | negSucc n => simp [printInt, readInt, readNat_print (n + 1) hrest, Int.negSucc_eq]
  | ofNat n =>
    unfold readInt printInt
    split
    · rename_i more h
      have hdash : '-' ∈ printNat n := by
        cases hn : printNat n with
        | nil => exact absurd hn Nat.toDigits_ne_nil
        | cons c digits => simp_all
      exact absurd (Nat.isDigit_of_mem_toDigits (by omega) (by omega) hdash) (by decide)
    · simp [readNat_print n hrest]

/-! ### Strings -/

def hexDigit (d : ℕ) : Char := Nat.digitChar d

def hexValue (c : Char) : Option ℕ :=
  if '0' ≤ c ∧ c ≤ '9' then some (c.toNat - 48)
  else if 'a' ≤ c ∧ c ≤ 'f' then some (c.toNat - 87)
  else none

theorem hexValue_hexDigit : ∀ d < 16, hexValue (hexDigit d) = some d := by decide

/-- The letter after the backslash of a short escape. -/
def shortEscape (c : Char) : Option Char :=
  if c = '"' then some '"' else if c = '\\' then some '\\' else if c = '\x08' then some 'b'
  else if c = '\x0c' then some 'f' else if c = '\n' then some 'n' else if c = '\r' then some 'r'
  else if c = '\t' then some 't' else none

def shortUnescape (e : Char) : Option Char :=
  if e = '"' then some '"' else if e = '\\' then some '\\' else if e = 'b' then some '\x08'
  else if e = 'f' then some '\x0c' else if e = 'n' then some '\n' else if e = 'r' then some '\r'
  else if e = 't' then some '\t' else none

def escapeChar (c : Char) : List Char :=
  match shortEscape c with
  | some e => ['\\', e]
  | none =>
    if c.toNat < 0x20 then ['\\', 'u', '0', '0', hexDigit (c.toNat / 16), hexDigit (c.toNat % 16)]
    else [c]

def printString (s : String) : List Char := '"' :: s.toList.flatMap escapeChar ++ ['"']

def unescape : Reader (List Char)
  | [] => none
  | c :: rest =>
    if c = '"' then some ([], rest)
    else if c = '\\' then
      match rest with
      | 'u' :: '0' :: '0' :: a :: b :: more => do
        let high ← hexValue a
        let low ← hexValue b
        (unescape more).map fun r => (Char.ofNat (16 * high + low) :: r.1, r.2)
      | e :: more => do
        let c ← shortUnescape e
        (unescape more).map fun r => (c :: r.1, r.2)
      | [] => none
    else (unescape rest).map fun r => (c :: r.1, r.2)

def readString : Reader String := fun cs => match cs with
  | '"' :: rest => (unescape rest).map fun r => (String.ofList r.1, r.2)
  | _ => none

theorem shortUnescape_shortEscape {c e : Char} (h : shortEscape c = some e) :
    shortUnescape e = some c ∧ e ≠ 'u' := by
  unfold shortEscape at h
  repeat' split at h
  all_goals simp_all
  all_goals subst h
  all_goals decide

theorem unescape_escapeChar (c : Char) (rest : List Char) :
    unescape (escapeChar c ++ rest) = (unescape rest).map fun r => (c :: r.1, r.2) := by
  unfold escapeChar
  cases hshort : shortEscape c with
  | some e =>
    obtain ⟨hback, hu⟩ := shortUnescape_shortEscape hshort
    simp only [List.cons_append, List.nil_append]
    rw [unescape.eq_def]
    simp [hback, hu]
  | none =>
    simp only
    split
    · rename_i hcontrol
      have hvalue : 16 * (c.toNat / 16) + c.toNat % 16 = c.toNat := by omega
      rw [List.cons_append, unescape.eq_def]
      simp [hexValue_hexDigit (c.toNat / 16) (by omega),
        hexValue_hexDigit (c.toNat % 16) (by omega), hvalue]
    · have hquote : c ≠ '"' := by
        rintro rfl
        simp [shortEscape] at hshort
      have hslash : c ≠ '\\' := by
        rintro rfl
        simp [shortEscape] at hshort
      rw [List.cons_append, unescape.eq_def]
      simp [hquote, hslash]

theorem readString_print (s : String) (rest : List Char) :
    readString (printString s ++ rest) = some (s, rest) := by
  have hchars : ∀ cs : List Char, unescape (cs.flatMap escapeChar ++ '"' :: rest) =
      some (cs, rest) := by
    intro cs
    induction cs with
    | nil =>
      rw [unescape.eq_def]
      simp
    | cons c cs ih =>
      rw [List.flatMap_cons, List.append_assoc, unescape_escapeChar, ih]
      rfl
  simp [readString, printString, hchars]

end RgbLightningNode.Text
