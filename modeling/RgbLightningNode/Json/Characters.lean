import RgbLightningNode.Json.Values
import RgbLightningNode.Text.Utf8

/-!
# Texts of characters

A sequence of code units spells a text of characters exactly if its surrogates come in pairs. Of
such a text every escape is a text of characters again, at most six times as long in bytes.
-/

namespace RgbLightningNode.Json
open Text

def encodeUtf16Char (c : Char) : Units :=
  let n := c.toNat
  if n < 0x10000 then [.ofNat n]
  else [.ofNat (0xD800 + (n - 0x10000) / 1024), .ofNat (0xDC00 + (n - 0x10000) % 1024)]

def encodeUtf16 (cs : List Char) : Units := cs.flatMap encodeUtf16Char

/-- The code point of a surrogate pair. -/
def pairValue (high low : UInt16) : ℕ :=
  0x10000 + (high.toNat - 0xD800) * 1024 + (low.toNat - 0xDC00)

def decodeUtf16 : Units → Option (List Char)
  | [] => some []
  | u :: rest =>
    if isHigh u then
      match rest with
      | [] => none
      | v :: rest =>
        if isLow v then (decodeUtf16 rest).map (Char.ofNat (pairValue u v) :: ·) else none
    else if isLow u then none
    else (decodeUtf16 rest).map (Char.ofNat u.toNat :: ·)

theorem encodeUtf16_cons (c : Char) (cs : List Char) :
    encodeUtf16 (c :: cs) = encodeUtf16Char c ++ encodeUtf16 cs := rfl

theorem encodeUtf16_append (cs cs' : List Char) :
    encodeUtf16 (cs ++ cs') = encodeUtf16 cs ++ encodeUtf16 cs' := List.flatMap_append

theorem isHigh_iff {u : UInt16} : isHigh u = true ↔ 0xD800 ≤ u.toNat ∧ u.toNat ≤ 0xDBFF := by
  simp [isHigh, UInt16.le_iff_toNat_le]

theorem isLow_iff {u : UInt16} : isLow u = true ↔ 0xDC00 ≤ u.toNat ∧ u.toNat ≤ 0xDFFF := by
  simp [isLow, UInt16.le_iff_toNat_le]

theorem toNat_unit {n : ℕ} (h : n < 65536) : (UInt16.ofNat n).toNat = n := by
  simpa using Nat.mod_eq_of_lt h

/-- A character outside the surrogates and up to the last plane. -/
theorem char_range (c : Char) : (c.toNat < 0xD800 ∨ 0xDFFF < c.toNat) ∧ c.toNat < 0x110000 := by
  have h := c.valid
  simp only [UInt32.isValidChar, Nat.isValidChar] at h
  change c.toNat < 0xD800 ∨ 0xDFFF < c.toNat ∧ c.toNat < 0x110000 at h
  omega

/-- A character is one unit that is no surrogate, or a pair. -/
theorem encodeUtf16Char_cases (c : Char) :
    (∃ u, encodeUtf16Char c = [u] ∧ isHigh u = false ∧ isLow u = false ∧ u.toNat = c.toNat) ∨
      ∃ u v, encodeUtf16Char c = [u, v] ∧ isHigh u = true ∧ isLow v = true ∧
        pairValue u v = c.toNat := by
  have hrange := char_range c
  by_cases h : c.toNat < 0x10000
  · have hunit := toNat_unit h
    refine .inl ⟨.ofNat c.toNat, by simp [encodeUtf16Char, h], ?_, ?_, hunit⟩
    · rw [Bool.eq_false_iff, ne_eq, isHigh_iff, hunit]
      omega
    · rw [Bool.eq_false_iff, ne_eq, isLow_iff, hunit]
      omega
  · obtain ⟨a, ha⟩ : ∃ a, 0xD800 + (c.toNat - 0x10000) / 1024 = a := ⟨_, rfl⟩
    obtain ⟨b, hb⟩ : ∃ b, 0xDC00 + (c.toNat - 0x10000) % 1024 = b := ⟨_, rfl⟩
    have hhigh := toNat_unit (show a < 65536 by omega)
    have hlow := toNat_unit (show b < 65536 by omega)
    refine .inr
      ⟨.ofNat a, .ofNat b, by simp only [encodeUtf16Char, h, if_false, ha, hb], ?_, ?_, ?_⟩
    · rw [isHigh_iff, hhigh]
      omega
    · rw [isLow_iff, hlow]
      omega
    · have hpair : pairValue (.ofNat a) (.ofNat b) = 0x10000 + (a - 0xD800) * 1024 + (b - 0xDC00) :=
        congrArg₂ (fun a b => 0x10000 + (a - 0xD800) * 1024 + (b - 0xDC00)) hhigh hlow
      omega

theorem decodeUtf16_encodeUtf16 (cs : List Char) : decodeUtf16 (encodeUtf16 cs) = some cs := by
  induction cs with
  | nil => rfl
  | cons c cs ih =>
    rw [encodeUtf16_cons]
    rcases encodeUtf16Char_cases c with ⟨u, hu, hhigh, hlow, hvalue⟩ |
      ⟨u, v, huv, hhigh, hlow, hvalue⟩
    · rw [hu, List.singleton_append, decodeUtf16.eq_def]
      simp [hhigh, hlow, ih, hvalue, Char.ofNat_toNat]
    · rw [huv, List.cons_append, List.singleton_append, decodeUtf16.eq_def]
      simp [hhigh, hlow, ih, hvalue, Char.ofNat_toNat]

theorem encodeUtf16_inj {cs cs' : List Char} (h : encodeUtf16 cs = encodeUtf16 cs') : cs = cs' := by
  have hdecoded := congrArg decodeUtf16 h
  simpa only [decodeUtf16_encodeUtf16, Option.some.injEq] using hdecoded

/-- A unit that is no surrogate is a character. -/
theorem encodeUtf16_unit {u : UInt16} (hhigh : isHigh u = false) (hlow : isLow u = false) :
    (Char.ofNat u.toNat).toNat = u.toNat ∧ encodeUtf16Char (Char.ofNat u.toNat) = [u] := by
  rw [Bool.eq_false_iff, ne_eq, isHigh_iff] at hhigh
  rw [Bool.eq_false_iff, ne_eq, isLow_iff] at hlow
  have hlt := u.toNat_lt
  have hvalue := toNat_ofNat (n := u.toNat) (by
    rw [Nat.isValidChar]
    omega)
  refine ⟨hvalue, ?_⟩
  simp only [encodeUtf16Char, hvalue]
  rw [if_pos (by omega), UInt16.ofNat_toNat]

theorem encodeUtf16_pair {u v : UInt16} (hhigh : isHigh u = true) (hlow : isLow v = true) :
    (Char.ofNat (pairValue u v)).toNat = pairValue u v ∧
      encodeUtf16Char (Char.ofNat (pairValue u v)) = [u, v] := by
  rw [isHigh_iff] at hhigh
  rw [isLow_iff] at hlow
  have hpair : pairValue u v = 0x10000 + (u.toNat - 0xD800) * 1024 + (v.toNat - 0xDC00) := rfl
  have hvalue := toNat_ofNat (n := pairValue u v) (by
    rw [Nat.isValidChar]
    omega)
  refine ⟨hvalue, ?_⟩
  have hu : 0xD800 + (pairValue u v - 0x10000) / 1024 = u.toNat := by omega
  have hv : 0xDC00 + (pairValue u v - 0x10000) % 1024 = v.toNat := by omega
  simp only [encodeUtf16Char, hvalue]
  rw [if_neg (by omega), hu, hv, UInt16.ofNat_toNat, UInt16.ofNat_toNat]

theorem encodeUtf16_decodeUtf16 {s : Units} {cs : List Char} (h : decodeUtf16 s = some cs) :
    encodeUtf16 cs = s := by
  fun_induction decodeUtf16 s generalizing cs with
  | case1 =>
    cases h
    rfl
  | case2 u hhigh => cases h
  | case3 u hhigh v rest hlow ih =>
    obtain ⟨cs', hcs', rfl⟩ := Option.map_eq_some_iff.mp h
    rw [encodeUtf16_cons, (encodeUtf16_pair hhigh hlow).2, ih hcs']
    rfl
  | case4 u hhigh v rest hlow => cases h
  | case5 u rest hhigh hlow => cases h
  | case6 u rest hhigh hlow ih =>
    obtain ⟨cs', hcs', rfl⟩ := Option.map_eq_some_iff.mp h
    rw [encodeUtf16_cons, (encodeUtf16_unit (by simpa using hhigh) (by simpa using hlow)).2,
      ih hcs']
    rfl

theorem decodeUtf16_iff {s : Units} {cs : List Char} : decodeUtf16 s = some cs ↔
    s = encodeUtf16 cs :=
  ⟨fun h => (encodeUtf16_decodeUtf16 h).symm, fun h => h ▸ decodeUtf16_encodeUtf16 cs⟩

/-! ### Escapes -/

def charEscape (c : Char) : List Char :=
  if c.toNat < 0x80 then (escapeUnit (.ofNat c.toNat)).map fun u => Char.ofNat u.toNat else [c]

theorem ascii_cases {p : Char → Prop} (h : ∀ n < 128, p (Char.ofNat n)) {c : Char}
    (hc : c.toNat < 128) : p c := by
  have hp := h c.toNat hc
  rwa [Char.ofNat_toNat] at hp

/-- A unit that is no surrogate is escaped by itself. -/
theorem escape_cons {u : UInt16} (h : isHigh u = false) (rest : Units) :
    escape (u :: rest) = escapeUnit u ++ escape rest := by
  cases rest with
  | nil => simp [escape]
  | cons v rest => simp [escape, h]

theorem escapeUnit_char {c : Char} {u : UInt16} (hu : encodeUtf16Char c = [u])
    (hhigh : isHigh u = false) (hlow : isLow u = false) :
    escapeUnit u = encodeUtf16 (charEscape c) := by
  by_cases h : c.toNat < 128
  · have hall : ∀ n < 128, escapeUnit (.ofNat (Char.ofNat n).toNat) =
        encodeUtf16 (charEscape (Char.ofNat n)) := by decide
    have hc : u = .ofNat c.toNat := by
      rw [encodeUtf16Char, if_pos (by omega)] at hu
      exact (List.singleton_inj.mp hu).symm
    rw [hc]
    exact ascii_cases (p := fun c =>
      escapeUnit (.ofNat c.toNat) = encodeUtf16 (charEscape c)) hall h
  · have hvalue : u.toNat = c.toNat := by
      rcases encodeUtf16Char_cases c with ⟨u', hu', -, -, hvalue⟩ | ⟨u', v', huv, -⟩
      · rw [hu, List.singleton_inj] at hu'
        rw [hu', hvalue]
      · rw [hu] at huv
        cases huv
    have hlarge : ¬u < 0x20 := by
      rw [UInt16.lt_iff_toNat_lt]
      simp
      omega
    have hshort : shortEscape u = none := by
      unfold shortEscape
      split_ifs with h1 h2 h3 h4 h5 h6 h7
      all_goals first
        | rfl
        | (subst_vars; simp at hvalue; omega)
    simp [escapeUnit, hshort, hlarge, hhigh, hlow, charEscape, h, encodeUtf16, hu]

theorem escape_encodeUtf16 (cs : List Char) :
    escape (encodeUtf16 cs) = encodeUtf16 (cs.flatMap charEscape) := by
  induction cs with
  | nil => rfl
  | cons c cs ih =>
    rw [encodeUtf16_cons, List.flatMap_cons, encodeUtf16_append, ← ih]
    rcases encodeUtf16Char_cases c with ⟨u, hu, hhigh, hlow, -⟩ | ⟨u, v, huv, hhigh, hlow, -⟩
    · rw [hu, List.singleton_append, escape_cons hhigh, escapeUnit_char hu hhigh hlow]
    · have hlarge : ¬c.toNat < 0x80 := by
        intro hc
        rw [encodeUtf16Char, if_pos (by omega)] at huv
        cases huv
      rw [huv, charEscape, if_neg hlarge]
      simp [escape, hhigh, hlow, encodeUtf16, huv]

theorem encodeChar_length_pos (c : Char) : 0 < (encodeChar c).length := by
  simp only [encodeChar]
  split_ifs <;> simp

/-- The longest escape has six characters. -/
theorem charEscape_length (c : Char) :
    (encodeUtf8 (charEscape c)).length ≤ 6 * (encodeChar c).length := by
  by_cases h : c.toNat < 128
  · have hall : ∀ n < 128, (encodeUtf8 (charEscape (Char.ofNat n))).length ≤
        6 * (encodeChar (Char.ofNat n)).length := by decide
    exact ascii_cases
      (p := fun c => (encodeUtf8 (charEscape c)).length ≤ 6 * (encodeChar c).length) hall h
  · have hpos := encodeChar_length_pos c
    simp [charEscape, h, encodeUtf8]
    omega

theorem charEscape_nonzero (c : Char) : ∀ e ∈ charEscape c, e ≠ Char.ofNat 0 := by
  by_cases h : c.toNat < 128
  · have hall : ∀ n < 128, (charEscape (Char.ofNat n)).all (· != Char.ofNat 0) = true := by decide
    have hc := ascii_cases (p := fun c => (charEscape c).all (· != Char.ofNat 0) = true) hall h
    simpa using hc
  · intro e he
    rw [charEscape, if_neg h, List.mem_singleton] at he
    rintro rfl
    exact h (he ▸ by decide)

/-- Printable ASCII, the quote and the backslash aside. -/
def IsPlain (c : Char) : Prop := 0x20 ≤ c.toNat ∧ c.toNat ≤ 0x7E ∧ c ≠ '"' ∧ c ≠ '\\'

instance : DecidablePred IsPlain := fun c => by
  unfold IsPlain
  infer_instance

theorem charEscape_plain {c : Char} (h : IsPlain c) : charEscape c = [c] := by
  have hall : ∀ n < 128, IsPlain (Char.ofNat n) → charEscape (Char.ofNat n) = [Char.ofNat n] := by
    decide
  have hlt : c.toNat < 128 := by
    have hle := h.2.1
    omega
  exact ascii_cases (p := fun c => IsPlain c → charEscape c = [c]) hall hlt h

/-! ### Objects of strings -/

def quoteChars (cs : List Char) : List Char := '"' :: (cs.flatMap charEscape ++ ['"'])

/-- The rest of an object, behind one of its members. -/
def restChars : List (List Char × List Char) → List Char
  | [] => ['\x7d']
  | (key, s) :: members => ',' :: (quoteChars key ++ ':' :: (quoteChars s ++ restChars members))

def objectChars : List (List Char × List Char) → List Char
  | [] => ['\x7b', '\x7d']
  | (key, s) :: members => '\x7b' :: (quoteChars key ++ ':' :: (quoteChars s ++ restChars members))

def stringMembers {ν : Type} (members : List (List Char × List Char)) : List (Units × Value ν) :=
  members.map fun m => (encodeUtf16 m.1, .string (encodeUtf16 m.2))

theorem stringMembers_cons {ν : Type} (m : List Char × List Char)
    (members : List (List Char × List Char)) :
    (stringMembers (m :: members) : List (Units × Value ν)) =
      (encodeUtf16 m.1, .string (encodeUtf16 m.2)) :: stringMembers members := rfl

theorem quote_encodeUtf16 (cs : List Char) :
    quote (encodeUtf16 cs) = encodeUtf16 (quoteChars cs) := by
  rw [quote, escape_encodeUtf16, quoteChars, encodeUtf16_cons, encodeUtf16_append]
  rfl

theorem membersText_strings (members : List (List Char × List Char)) :
    membersText (stringMembers members) = encodeUtf16 (restChars members) := by
  induction members with
  | nil => rfl
  | cons m members ih =>
    rw [stringMembers_cons, membersText, Value.text, ih, quote_encodeUtf16, quote_encodeUtf16,
      restChars, encodeUtf16_cons, encodeUtf16_append, encodeUtf16_cons, encodeUtf16_append]
    rfl

theorem text_strings (members : List (List Char × List Char)) :
    (Value.object (stringMembers members)).text = encodeUtf16 (objectChars members) := by
  cases members with
  | nil => rfl
  | cons m members =>
    rw [stringMembers_cons, Value.text, Value.text, membersText_strings, quote_encodeUtf16,
      quote_encodeUtf16, objectChars, encodeUtf16_cons, encodeUtf16_append, encodeUtf16_cons,
      encodeUtf16_append]
    rfl

theorem encodeUtf8_cons (c : Char) (cs : List Char) :
    encodeUtf8 (c :: cs) = encodeChar c ++ encodeUtf8 cs := rfl

theorem encodeUtf8_append (cs cs' : List Char) :
    encodeUtf8 (cs ++ cs') = encodeUtf8 cs ++ encodeUtf8 cs' := List.flatMap_append

theorem escape_length (cs : List Char) :
    (encodeUtf8 (cs.flatMap charEscape)).length ≤ 6 * (encodeUtf8 cs).length := by
  induction cs with
  | nil => exact Nat.le_refl _
  | cons c cs ih =>
    have hc := charEscape_length c
    rw [List.flatMap_cons, encodeUtf8_append, encodeUtf8_cons, List.length_append,
      List.length_append]
    omega

theorem escape_plain {cs : List Char} (h : ∀ c ∈ cs, IsPlain c) : cs.flatMap charEscape = cs := by
  induction cs with
  | nil => rfl
  | cons c cs ih =>
    rw [List.flatMap_cons, charEscape_plain (h c (by simp)),
      ih fun c' hc' => h c' (List.mem_cons_of_mem _ hc'), List.singleton_append]

theorem quoteChars_length (cs : List Char) : (encodeUtf8 (quoteChars cs)).length =
    (encodeUtf8 (cs.flatMap charEscape)).length + 2 := by
  rw [quoteChars, encodeUtf8_cons, encodeUtf8_append]
  simp [encodeUtf8, encodeChar]

theorem restChars_length (members : List (List Char × List Char)) :
    (encodeUtf8 (restChars members)).length = (members.map fun m =>
      (encodeUtf8 (quoteChars m.1)).length + (encodeUtf8 (quoteChars m.2)).length + 2).sum + 1 := by
  induction members with
  | nil => rfl
  | cons m members ih =>
    have hcomma : (encodeChar ',').length = 1 := rfl
    have hcolon : (encodeChar ':').length = 1 := rfl
    rw [restChars, encodeUtf8_cons, encodeUtf8_append, encodeUtf8_cons, encodeUtf8_append]
    simp only [List.length_append, ih, List.map_cons, List.sum_cons, hcomma, hcolon]
    omega

/-- An object takes as many bytes as its members, each with a comma and a colon, and the two
braces, less the comma before the first. -/
theorem objectChars_length {members : List (List Char × List Char)} (hne : members ≠ []) :
    (encodeUtf8 (objectChars members)).length = (members.map fun m =>
      (encodeUtf8 (quoteChars m.1)).length + (encodeUtf8 (quoteChars m.2)).length + 2).sum + 1 := by
  cases members with
  | nil => exact absurd rfl hne
  | cons m members =>
    have hbrace : (encodeChar '\x7b').length = (encodeChar ',').length := rfl
    rw [← restChars_length, objectChars, restChars, encodeUtf8_cons, encodeUtf8_cons,
      List.length_append, List.length_append, hbrace]

theorem zero_notMem_encodeChar {c : Char} (h : c ≠ Char.ofNat 0) : 0 ∉ encodeChar c := by
  have hrange := char_range c
  have hbyte : ∀ n, 0 < n → n < 256 → (0 : UInt8) ≠ .ofNat n := by
    intro n hpos hlt heq
    have hn := congrArg UInt8.toNat heq
    rw [toNat_byte hlt] at hn
    exact absurd hn (by change 0 ≠ n; omega)
  have hpos : 0 < c.toNat := by
    refine Nat.pos_of_ne_zero fun hzero => h ?_
    rw [← hzero, Char.ofNat_toNat]
  simp only [encodeChar]
  split_ifs with h1 h2 h3 <;> simp only [List.mem_cons, List.not_mem_nil, or_false, not_or]
  · exact hbyte _ hpos (by omega)
  · exact ⟨hbyte _ (by omega) (by omega), hbyte _ (by omega) (by omega)⟩
  · exact ⟨hbyte _ (by omega) (by omega), hbyte _ (by omega) (by omega),
      hbyte _ (by omega) (by omega)⟩
  · exact ⟨hbyte _ (by omega) (by omega), hbyte _ (by omega) (by omega),
      hbyte _ (by omega) (by omega), hbyte _ (by omega) (by omega)⟩

theorem quoteChars_nonzero (cs : List Char) : ∀ c ∈ quoteChars cs, c ≠ Char.ofNat 0 := by
  intro c hc
  simp only [quoteChars, List.mem_cons, List.mem_append, List.mem_flatMap, List.not_mem_nil,
    or_false] at hc
  rcases hc with rfl | ⟨c', -, hc⟩ | rfl
  · decide
  · exact charEscape_nonzero c' c hc
  · decide

theorem restChars_nonzero (members : List (List Char × List Char)) :
    ∀ c ∈ restChars members, c ≠ Char.ofNat 0 := by
  induction members with
  | nil =>
    intro c hc
    rw [List.mem_singleton.mp hc]
    decide
  | cons m members ih =>
    intro c hc
    simp only [restChars, List.mem_cons, List.mem_append] at hc
    rcases hc with rfl | hc | rfl | hc | hc
    · decide
    · exact quoteChars_nonzero _ c hc
    · decide
    · exact quoteChars_nonzero _ c hc
    · exact ih c hc

theorem objectChars_nonzero (members : List (List Char × List Char)) :
    (0 : UInt8) ∉ encodeUtf8 (objectChars members) := by
  intro hmem
  obtain ⟨c, hc, hzero⟩ := List.mem_flatMap.mp hmem
  refine zero_notMem_encodeChar ?_ hzero
  cases members with
  | nil =>
    have hall : (objectChars []).all (· != Char.ofNat 0) = true := by decide
    simpa using List.all_eq_true.mp hall c hc
  | cons m members =>
    rcases List.mem_cons.mp hc with rfl | hc
    · decide
    · exact restChars_nonzero (m :: members) c (List.mem_cons_of_mem _ hc)

end RgbLightningNode.Json
