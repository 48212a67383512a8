import RgbLightningNode.Number.Decimal

/-!
# The scalars of a JSON text

A text is a sequence of UTF-16 code units. A string may hold any units: half of a surrogate pair is
written as an escape. Each reader takes what the printer wrote off the front of a text.
-/

namespace RgbLightningNode.Json
open Number

abbrev Units := List UInt16

/-- The units of a text in ASCII. -/
def units (s : String) : Units := s.toList.map fun c => .ofNat c.toNat

/-! ### Strings -/

def isHigh (u : UInt16) : Bool := 0xD800 ≤ u && u ≤ 0xDBFF

def isLow (u : UInt16) : Bool := 0xDC00 ≤ u && u ≤ 0xDFFF

def hexUnit (n : ℕ) : UInt16 := if n < 10 then .ofNat (48 + n) else .ofNat (87 + n)

def hexValue (u : UInt16) : Option ℕ :=
  let n := u.toNat
  if 48 ≤ n ∧ n < 58 then some (n - 48)
  else if 97 ≤ n ∧ n < 103 then some (n - 87)
  else if 65 ≤ n ∧ n < 71 then some (n - 55)
  else none

/-- A code unit in four hexadecimal digits. -/
def unicodeEscape (u : UInt16) : Units :=
  let n := u.toNat
  [0x5C, 0x75, hexUnit (n / 4096), hexUnit (n / 256 % 16), hexUnit (n / 16 % 16), hexUnit (n % 16)]

def shortEscape (u : UInt16) : Option UInt16 :=
  if u = 0x08 then some 0x62
  else if u = 0x09 then some 0x74
  else if u = 0x0A then some 0x6E
  else if u = 0x0C then some 0x66
  else if u = 0x0D then some 0x72
  else if u = 0x22 then some 0x22
  else if u = 0x5C then some 0x5C
  else none

def shortUnescape (e : UInt16) : Option UInt16 :=
  if e = 0x62 then some 0x08
  else if e = 0x74 then some 0x09
  else if e = 0x6E then some 0x0A
  else if e = 0x66 then some 0x0C
  else if e = 0x72 then some 0x0D
  else if e = 0x22 ∨ e = 0x5C ∨ e = 0x2F then some e
  else none

/-- A code unit that is no half of a pair in the string it stands in. -/
def escapeUnit (u : UInt16) : Units :=
  match shortEscape u with
  | some e => [0x5C, e]
  | none => if u < 0x20 ∨ isHigh u ∨ isLow u then unicodeEscape u else [u]

def escape : Units → Units
  | [] => []
  | [u] => escapeUnit u
  | u :: v :: rest =>
    if isHigh u && isLow v then u :: v :: escape rest else escapeUnit u ++ escape (v :: rest)

/-- What a string is written as. -/
def quote (s : Units) : Units := 0x22 :: (escape s ++ [0x22])

/-- The string behind an opening quote, and what follows its closing quote. -/
def unescape : Units → Option (Units × Units)
  | [] => none
  | u :: rest =>
    if u = 0x22 then some ([], rest)
    else if u = 0x5C then
      match rest with
      | [] => none
      | e :: rest =>
        if e = 0x75 then
          match rest with
          | a :: b :: c :: d :: rest =>
            (hexValue a).bind fun a => (hexValue b).bind fun b => (hexValue c).bind fun c =>
              (hexValue d).bind fun d => (unescape rest).map fun (s, rest) =>
                (.ofNat (((a * 16 + b) * 16 + c) * 16 + d) :: s, rest)
          | _ => none
        else (shortUnescape e).bind fun u => (unescape rest).map fun (s, rest) => (u :: s, rest)
    else if u < 0x20 then none
    else (unescape rest).map fun (s, rest) => (u :: s, rest)

theorem hexValue_hexUnit {n : ℕ} (h : n < 16) : hexValue (hexUnit n) = some n := by
  have hall : ∀ k : Fin 16, hexValue (hexUnit k) = some k.val := by decide
  exact hall ⟨n, h⟩

theorem shortUnescape_shortEscape {u e : UInt16} (h : shortEscape u = some e) :
    shortUnescape e = some u ∧ e ≠ 0x75 := by
  unfold shortEscape at h
  split_ifs at h with h1 h2 h3 h4 h5 h6 h7 <;> cases h
  all_goals
    subst_vars
    decide

/-- A unit that stands for itself. -/
theorem unescape_plain {u : UInt16} (hquote : u ≠ 0x22) (hescape : u ≠ 0x5C) (hcontrol : ¬u < 0x20)
    (rest : Units) : unescape (u :: rest) = (unescape rest).map fun (s, rest) =>
    (u :: s, rest) := by
  rw [unescape.eq_def]
  simp [hquote, hescape, hcontrol]

theorem unescape_short {u e : UInt16} (h : shortEscape u = some e) (rest : Units) :
    unescape (0x5C :: e :: rest) = (unescape rest).map fun (s, rest) => (u :: s, rest) := by
  obtain ⟨hshort, hne⟩ := shortUnescape_shortEscape h
  rw [unescape.eq_def]
  simp [hne, hshort]

theorem unescape_unicode (u : UInt16) (rest : Units) :
    unescape (unicodeEscape u ++ rest) = (unescape rest).map fun (s, rest) => (u :: s, rest) := by
  have hu := u.toNat_lt
  have hvalue : ((u.toNat / 4096 * 16 + u.toNat / 256 % 16) * 16 + u.toNat / 16 % 16) * 16 +
      u.toNat % 16 = u.toNat := by omega
  have hdigits := hexValue_hexUnit (show u.toNat / 4096 < 16 by omega)
  have hdigits' {k : ℕ} := hexValue_hexUnit (show k % 16 < 16 by omega)
  rw [unicodeEscape, unescape.eq_def]
  simp only [List.cons_append, List.nil_append, hdigits, hdigits', Option.bind_some, hvalue,
    UInt16.ofNat_toNat]
  rfl

theorem unescape_escapeUnit (u : UInt16) (rest : Units) :
    unescape (escapeUnit u ++ rest) = (unescape rest).map fun (s, rest) => (u :: s, rest) := by
  unfold escapeUnit
  cases h : shortEscape u with
  | some e => exact unescape_short h rest
  | none =>
    dsimp only
    split_ifs with hcontrol
    · exact unescape_unicode u rest
    · have hquote : u ≠ 0x22 ∧ u ≠ 0x5C := by
        constructor <;> rintro rfl <;> revert h <;> decide
      exact unescape_plain hquote.1 hquote.2 (fun hlt => hcontrol (.inl hlt)) rest

theorem unescape_half {u : UInt16} (h : isHigh u = true ∨ isLow u = true) (rest : Units) :
    unescape (u :: rest) = (unescape rest).map fun (s, rest) => (u :: s, rest) := by
  have hlarge : 0xD800 ≤ u.toNat := by
    simp only [isHigh, isLow, Bool.and_eq_true, decide_eq_true_eq, UInt16.le_iff_toNat_le] at h
    simp at h
    omega
  refine unescape_plain ?_ ?_ ?_ rest
  · rintro rfl
    simp at hlarge
  · rintro rfl
    simp at hlarge
  · rw [UInt16.lt_iff_toNat_lt]
    simp
    omega

theorem unescape_quote (rest : Units) : unescape (0x22 :: rest) = some ([], rest) := by
  rw [unescape.eq_def]
  rfl

/-- A string is read back up to its closing quote. -/
theorem unescape_escape (s rest : Units) :
    unescape (escape s ++ 0x22 :: rest) = some (s, rest) := by
  induction s using escape.induct with
  | case1 => exact unescape_quote rest
  | case2 u => simp [escape, unescape_escapeUnit, unescape_quote]
  | case3 u v s hpair ih =>
    obtain ⟨hhigh, hlow⟩ := Bool.and_eq_true_iff.mp hpair
    simp only [escape, hpair, if_true, List.cons_append]
    rw [unescape_half (.inl hhigh), unescape_half (.inr hlow), ih]
    rfl
  | case4 u v s hpair ih =>
    simp only [escape, hpair, Bool.false_eq_true, if_false, List.append_assoc]
    rw [unescape_escapeUnit, ih]
    rfl

/-! ### Numbers -/

def digitUnit (d : Digit) : UInt16 := .ofNat (48 + d.val)

def unitDigit (u : UInt16) : Option Digit :=
  if h : 48 ≤ u.toNat ∧ u.toNat < 58 then some ⟨u.toNat - 48, by omega⟩ else none

def signText : Option Bool → Units
  | none => []
  | some minus => [if minus then 0x2D else 0x2B]

def fractionText : Option {digits : List Digit // digits ≠ []} → Units
  | none => []
  | some digits => 0x2E :: digits.1.map digitUnit

def exponentText : Option Exponent → Units
  | none => []
  | some e => (if e.upper then 0x45 else 0x65) :: (signText e.sign ++ e.digits.map digitUnit)

def tokenText (t : Token) : Units :=
  (if t.negative then [0x2D] else []) ++ ((decimal t.whole).map digitUnit ++
    (fractionText t.fraction ++ exponentText t.exponent))

def readDigits : Units → List Digit × Units
  | [] => ([], [])
  | u :: rest =>
    match unitDigit u with
    | none => ([], u :: rest)
    | some d => (d :: (readDigits rest).1, (readDigits rest).2)

/-- The digits before the point: a zero, or digits that do not start with one. -/
def readWhole : Units → Option (ℕ × Units)
  | [] => none
  | u :: rest =>
    (unitDigit u).map fun d =>
      if d.val = 0 then (0, rest)
      else (digitsValue (d :: (readDigits rest).1), (readDigits rest).2)

def readFraction (cs : Units) : Option (Option {digits : List Digit // digits ≠ []} × Units) :=
  if cs.head? = some 0x2E then
    if h : (readDigits cs.tail).1 = [] then none
    else some (some ⟨(readDigits cs.tail).1, h⟩, (readDigits cs.tail).2)
  else some (none, cs)

def readSign (cs : Units) : Option Bool × Units :=
  if cs.head? = some 0x2D then (some true, cs.tail)
  else if cs.head? = some 0x2B then (some false, cs.tail)
  else (none, cs)

def readExponent (cs : Units) : Option (Option Exponent × Units) :=
  if cs.head? = some 0x45 ∨ cs.head? = some 0x65 then
    let sign := readSign cs.tail
    if h : (readDigits sign.2).1 = [] then none
    else some (some ⟨cs.head? = some 0x45, sign.1, (readDigits sign.2).1, h⟩, (readDigits sign.2).2)
  else some (none, cs)

def readToken (cs : Units) : Option (Token × Units) :=
  let negative := cs.head? = some 0x2D
  (readWhole (if negative then cs.tail else cs)).bind fun (whole, cs) =>
    (readFraction cs).bind fun (fraction, cs) =>
      (readExponent cs).map fun (exponent, cs) => (⟨negative, whole, fraction, exponent⟩, cs)

/-- What follows a number does not continue it. -/
def TokenEnd (rest : Units) : Prop :=
  ∀ u ∈ rest.head?, unitDigit u = none ∧ u ≠ 0x2E ∧ u ≠ 0x45 ∧ u ≠ 0x65

theorem tokenText_integer (n : ℕ) : tokenText (.integer false n) = (decimal n).map digitUnit := by
  simp [tokenText, Token.integer, fractionText, exponentText]

theorem unitDigit_digitUnit (d : Digit) : unitDigit (digitUnit d) = some d := by
  revert d
  decide

theorem readDigits_append (digits : List Digit) {rest : Units}
    (hrest : ∀ u ∈ rest.head?, unitDigit u = none) :
    readDigits (digits.map digitUnit ++ rest) = (digits, rest) := by
  induction digits with
  | nil =>
    cases rest with
    | nil => rfl
    | cons u rest => simp [readDigits, hrest u rfl]
  | cons d digits ih => simp [readDigits, unitDigit_digitUnit, ih]

theorem readWhole_append (n : ℕ) {rest : Units} (hrest : ∀ u ∈ rest.head?, unitDigit u = none) :
    readWhole ((decimal n).map digitUnit ++ rest) = some (n, rest) := by
  by_cases hzero : n = 0
  · subst hzero
    rfl
  · have hhead := decimal_head hzero
    have hvalue := digitsValue_decimal n
    cases hdigits : decimal n with
    | nil => exact absurd hdigits (decimal_ne_nil n)
    | cons d digits =>
      simp only [hdigits, List.head_cons] at hhead hvalue
      simp [readWhole, unitDigit_digitUnit, hhead, readDigits_append digits hrest, hvalue]

theorem head_digits {digits : List Digit} (h : digits ≠ []) (rest : Units) :
    ∃ d, (digits.map digitUnit ++ rest).head? = some (digitUnit d) := by
  cases digits with
  | nil => exact absurd rfl h
  | cons d digits => exact ⟨d, rfl⟩

theorem digitUnit_ne {u : UInt16} (h : unitDigit u = none) (d : Digit) : digitUnit d ≠ u := by
  rintro rfl
  rw [unitDigit_digitUnit] at h
  cases h

theorem readSign_append (sign : Option Bool) {digits : List Digit} (hdigits : digits ≠ [])
    (rest : Units) : readSign (signText sign ++ (digits.map digitUnit ++ rest)) =
      (sign, digits.map digitUnit ++ rest) := by
  obtain ⟨d, hd⟩ := head_digits hdigits rest
  cases sign with
  | none =>
    have hminus := digitUnit_ne (u := 0x2D) (by decide) d
    have hplus := digitUnit_ne (u := 0x2B) (by decide) d
    simp [readSign, signText, hd, hminus, hplus]
  | some minus => cases minus <;> rfl

theorem readExponent_append (exponent : Option Exponent) {rest : Units} (hrest : TokenEnd rest) :
    readExponent (exponentText exponent ++ rest) = some (exponent, rest) := by
  have hdigits : ∀ u ∈ rest.head?, unitDigit u = none := fun u hu => (hrest u hu).1
  cases exponent with
  | none =>
    have hhead : ¬(rest.head? = some 0x45 ∨ rest.head? = some 0x65) := by
      rintro (h | h)
      · exact (hrest _ h).2.2.1 rfl
      · exact (hrest _ h).2.2.2 rfl
    simp [readExponent, exponentText, hhead]
  | some e =>
    obtain ⟨upper, sign, digits, hne⟩ := e
    cases upper <;>
      simp [readExponent, exponentText, readSign_append sign hne,
        readDigits_append digits hdigits, hne]

theorem readFraction_append (fraction : Option {digits : List Digit // digits ≠ []}) {rest : Units}
    (hrest : ∀ u ∈ rest.head?, unitDigit u = none ∧ u ≠ 0x2E) :
    readFraction (fractionText fraction ++ rest) = some (fraction, rest) := by
  cases fraction with
  | none =>
    have hhead : rest.head? ≠ some 0x2E := fun h => (hrest _ h).2 rfl
    simp [readFraction, fractionText, hhead]
  | some digits =>
    obtain ⟨digits, hne⟩ := digits
    simp [readFraction, fractionText, readDigits_append digits fun u hu => (hrest u hu).1, hne]

/-- A number is read back if nothing continues it. -/
theorem readToken_append (t : Token) {rest : Units} (hrest : TokenEnd rest) :
    readToken (tokenText t ++ rest) = some (t, rest) := by
  obtain ⟨negative, whole, fraction, exponent⟩ := t
  have hexponent : ∀ u ∈ (exponentText exponent ++ rest).head?, unitDigit u = none ∧ u ≠ 0x2E := by
    cases exponent with
    | none => exact fun u hu => ⟨(hrest u hu).1, (hrest u hu).2.1⟩
    | some e => cases hupper : e.upper <;> simp [exponentText, hupper] <;> decide
  have hfraction : ∀ u ∈ (fractionText fraction ++ (exponentText exponent ++ rest)).head?,
      unitDigit u = none := by
    cases fraction with
    | none => exact fun u hu => (hexponent u hu).1
    | some digits => simp [fractionText]; decide
  have hminus : ((decimal whole).map digitUnit ++
      (fractionText fraction ++ (exponentText exponent ++ rest))).head? ≠ some 0x2D := by
    obtain ⟨d, hd⟩ := head_digits (decimal_ne_nil whole)
      (fractionText fraction ++ (exponentText exponent ++ rest))
    rw [hd]
    exact fun h => digitUnit_ne (by decide) d (Option.some.inj h)
  have hparts := readWhole_append whole hfraction
  cases negative with
  | true =>
    simp [readToken, tokenText, hparts, readFraction_append fraction hexponent,
      readExponent_append exponent hrest]
  | false =>
    have htext : tokenText ⟨false, whole, fraction, exponent⟩ ++ rest =
      (decimal whole).map digitUnit ++
        (fractionText fraction ++ (exponentText exponent ++ rest)) := by simp [tokenText]
    rw [htext, readToken]
    simp only [hminus, decide_false, if_false, hparts, Option.bind_some,
      readFraction_append fraction hexponent, readExponent_append exponent hrest, Option.map_some]

end RgbLightningNode.Json
