import RgbLightningNode.Json.Values

/-!
# Printed values

A program prints a value over several lines, its numbers as their shortest decimals, and reads back
one that prints the same.
-/

namespace RgbLightningNode.Json
open Number

/-! ### Values of a program -/

mutual

/-- The value that is printed: a number that is not finite is `null` there. -/
def Value.printed : Value Double → Value Token
  | .null => .null
  | .bool b => .bool b
  | .number d => match d.toToken with
    | some token => .number token
    | none => .null
  | .string s => .string s
  | .array items => .array (printedItems items)
  | .object members => .object (printedMembers members)

def printedItems : List (Value Double) → List (Value Token)
  | [] => []
  | v :: items => v.printed :: printedItems items

def printedMembers : List (Units × Value Double) → List (Units × Value Token)
  | [] => []
  | (key, v) :: members => (key, v.printed) :: printedMembers members

end

theorem toToken_toDouble {d : Double} {t : Token} (h : d.toToken = some t) :
    t.toDouble.toToken = some t := by
  rw [toDouble_toToken h]
  cases d with
  | nan => cases h
  | infinity negative => cases h
  | finite negative magnitude =>
    by_cases hzero : magnitude.1 = 0
    · simpa [Double.unsignedZero, Double.toToken, hzero] using h
    · have hne : (magnitude.1 != 0) = true := by simpa using hzero
      rw [Double.unsignedZero, hne, Bool.and_true]
      exact h

mutual

theorem printed_map_printed : ∀ v : Value Double, (v.printed.map Token.toDouble).printed = v.printed
  | .null | .bool _ | .string _ => rfl
  | .number d => by
    cases h : d.toToken with
    | none => simp [Value.printed, h, Value.map]
    | some t => simp [Value.printed, h, Value.map, toToken_toDouble h]
  | .array items => by
    rw [Value.printed, Value.map, Value.printed, printedItems_mapItems items]
  | .object members => by
    rw [Value.printed, Value.map, Value.printed, printedMembers_mapMembers members]

theorem printedItems_mapItems : ∀ items : List (Value Double),
    printedItems (mapItems Token.toDouble (printedItems items)) = printedItems items
  | [] => rfl
  | v :: items => by
    rw [printedItems, mapItems, printedItems, printed_map_printed v, printedItems_mapItems items]

theorem printedMembers_mapMembers : ∀ members : List (Units × Value Double),
    printedMembers (mapMembers Token.toDouble (printedMembers members)) = printedMembers members
  | [] => rfl
  | (key, v) :: members => by
    rw [printedMembers, mapMembers, printedMembers, printed_map_printed v,
      printedMembers_mapMembers members]

end

/-! ### Lines -/

/-- A line break and the indentation of the next line. -/
def newLine (depth : ℕ) : Units := 0x0A :: List.replicate (2 * depth) 0x20

mutual

def Value.pretty (depth : ℕ) : Value Token → Units
  | .null => Value.text .null
  | .bool b => Value.text (.bool b)
  | .number t => tokenText t
  | .string s => quote s
  | .array [] => [0x5B, 0x5D]
  | .array (v :: items) =>
    0x5B :: (newLine (depth + 1) ++ (v.pretty (depth + 1) ++ prettyItems depth items))
  | .object [] => [0x7B, 0x7D]
  | .object ((key, v) :: members) =>
    0x7B :: (newLine (depth + 1) ++
      (quote key ++ 0x3A :: 0x20 :: (v.pretty (depth + 1) ++ prettyMembers depth members)))

def prettyItems (depth : ℕ) : List (Value Token) → Units
  | [] => newLine depth ++ [0x5D]
  | v :: items => 0x2C :: (newLine (depth + 1) ++ (v.pretty (depth + 1) ++ prettyItems depth items))

def prettyMembers (depth : ℕ) : List (Units × Value Token) → Units
  | [] => newLine depth ++ [0x7D]
  | (key, v) :: members =>
    0x2C :: (newLine (depth + 1) ++
      (quote key ++ 0x3A :: 0x20 :: (v.pretty (depth + 1) ++ prettyMembers depth members)))

end

theorem skip_spaces {gap : Units} (h : gap.all isSpace = true) (rest : Units) :
    skip (gap ++ rest) = skip rest := by
  induction gap with
  | nil => rfl
  | cons u gap ih =>
    simp only [List.all_cons, Bool.and_eq_true] at h
    rw [List.cons_append, skip, if_pos h.1, ih h.2]

theorem newLine_spaces (depth : ℕ) : (newLine depth).all isSpace = true := by
  simp [newLine, isSpace]

theorem expect_newLine (u : UInt16) (depth : ℕ) (rest : Units) :
    expect u (newLine depth ++ rest) = expect u rest := by
  rw [expect, skip_spaces (newLine_spaces depth), expect]

theorem readValue_spaces {gap : Units} (h : gap.all isSpace = true) (fuel : ℕ) (rest : Units) :
    readValue fuel (gap ++ rest) = readValue fuel rest := by
  cases fuel with
  | zero => rfl
  | succ fuel => simp only [readValue, skip_spaces h]

theorem readMember_newLine (fuel depth : ℕ) (rest : Units) :
    readMember fuel (newLine depth ++ rest) = readMember fuel rest := by
  cases fuel with
  | zero => rfl
  | succ fuel => simp only [readMember, expect_newLine]

/-- No printed value starts with a space or with the end of an array. -/
theorem pretty_start (v : Value Token) (depth : ℕ) :
    ∃ u rest, v.pretty depth = u :: rest ∧ isSpace u = false ∧ u ≠ 0x5D := by
  cases v with
  | null => exact text_start .null
  | bool b => exact text_start (.bool b)
  | number t => exact text_start (.number t)
  | string s => exact text_start (.string s)
  | array items => cases items <;> exact ⟨_, _, by rw [Value.pretty], by decide⟩
  | object members =>
    rcases members with _ | ⟨⟨key, v⟩, members⟩ <;> exact ⟨_, _, by rw [Value.pretty], by decide⟩

theorem expect_pretty (v : Value Token) (depth : ℕ) (rest : Units) :
    expect 0x5D (v.pretty depth ++ rest) = none := by
  obtain ⟨u, text, htext, hspace, hend⟩ := pretty_start v depth
  rw [htext]
  exact expect_other hspace hend _

theorem readMember_pretty {v : Value Token} (key : Units) {fuel depth : ℕ} (hfuel : 0 < fuel)
    {rest : Units} (hv : readValue (fuel - 1) (v.pretty depth ++ rest) = some (v, rest)) :
    readMember fuel (quote key ++ 0x3A :: 0x20 :: (v.pretty depth ++ rest)) =
      some ((key, v), rest) := by
  obtain ⟨fuel, rfl⟩ := Nat.exists_eq_succ_of_ne_zero hfuel.ne'
  simp only [Nat.succ_eq_add_one, Nat.add_sub_cancel] at hv
  have hspace := @readValue_spaces [0x20] (by decide) fuel (v.pretty depth ++ rest)
  rw [List.singleton_append, hv] at hspace
  simp only [readMember, quote, List.cons_append, List.append_assoc, List.nil_append]
  rw [expect_cons (by decide), Option.bind_some, unescape_escape, Option.bind_some,
    expect_cons (by decide), Option.bind_some, hspace]
  rfl

theorem tokenEnd_prettyItems (depth : ℕ) (items : List (Value Token)) (rest : Units) :
    TokenEnd (prettyItems depth items ++ rest) := by
  cases items with
  | nil => exact tokenEnd_cons (by decide) _
  | cons v items => exact tokenEnd_cons (by decide) _

theorem tokenEnd_prettyMembers (depth : ℕ) (members : List (Units × Value Token)) (rest : Units) :
    TokenEnd (prettyMembers depth members ++ rest) := by
  cases members with
  | nil => exact tokenEnd_cons (by decide) _
  | cons member members => exact tokenEnd_cons (by decide) _

mutual

theorem readValue_pretty : ∀ (v : Value Token) (depth fuel : ℕ) (rest : Units),
    (v.pretty depth).length ≤ fuel → TokenEnd rest →
      readValue fuel (v.pretty depth ++ rest) = some (v, rest)
  | .null, _, fuel, rest, hfuel, hrest => readValue_text .null fuel rest hfuel hrest
  | .bool b, _, fuel, rest, hfuel, hrest => readValue_text (.bool b) fuel rest hfuel hrest
  | .number t, _, fuel, rest, hfuel, hrest => readValue_text (.number t) fuel rest hfuel hrest
  | .string s, _, fuel, rest, hfuel, hrest => readValue_text (.string s) fuel rest hfuel hrest
  | .array [], _, fuel, rest, hfuel, hrest => readValue_text (.array []) fuel rest hfuel hrest
  | .object [], _, fuel, rest, hfuel, hrest => readValue_text (.object []) fuel rest hfuel hrest
  | .array (_ :: _), _, 0, _, hfuel, _ | .object (_ :: _), _, 0, _, hfuel, _ => by
    simp [Value.pretty] at hfuel
  | .array (v :: items), depth, fuel + 1, rest, hfuel, _ => by
    simp only [Value.pretty, List.length_cons, List.length_append] at hfuel
    have hv := readValue_pretty v (depth + 1) fuel (prettyItems depth items ++ rest) (by omega)
      (tokenEnd_prettyItems depth items rest)
    have hitems := readItems_pretty items depth fuel rest (by omega)
    have hopen := expect_pretty v (depth + 1) (prettyItems depth items ++ rest)
    have hline := readValue_spaces (newLine_spaces (depth + 1)) fuel
      (v.pretty (depth + 1) ++ (prettyItems depth items ++ rest))
    simp [Value.pretty, readValue, skip, isSpace, expect_newLine, hopen, hline, hv, hitems]
  | .object ((key, v) :: members), depth, fuel + 1, rest, hfuel, _ => by
    simp only [Value.pretty, quote, List.length_cons, List.length_append] at hfuel
    have hv := readValue_pretty v (depth + 1) (fuel - 1) (prettyMembers depth members ++ rest)
      (by omega) (tokenEnd_prettyMembers depth members rest)
    have hmember := readMember_pretty key (show 0 < fuel by omega) hv
    have hmembers := readMembers_pretty members depth fuel rest (by omega)
    have hopen : expect 0x7D (quote key ++ 0x3A :: 0x20 :: (v.pretty (depth + 1) ++
        (prettyMembers depth members ++ rest))) = none :=
      expect_other (by decide) (by decide) _
    simp [Value.pretty, readValue, skip, isSpace, expect_newLine, hopen, readMember_newLine,
      hmember, hmembers]

theorem readItems_pretty : ∀ (items : List (Value Token)) (depth fuel : ℕ) (rest : Units),
    (prettyItems depth items).length ≤ fuel →
      readItems fuel (prettyItems depth items ++ rest) = some (items, rest)
  | [], _, 0, _, hfuel | _ :: _, _, 0, _, hfuel => by simp [prettyItems, newLine] at hfuel
  | [], depth, fuel + 1, rest, _ => by
    simp [prettyItems, readItems, expect_newLine, expect_cons (show isSpace 0x5D = false by decide)]
  | v :: items, depth, fuel + 1, rest, hfuel => by
    simp only [prettyItems, List.length_cons, List.length_append] at hfuel
    have hv := readValue_pretty v (depth + 1) fuel (prettyItems depth items ++ rest) (by omega)
      (tokenEnd_prettyItems depth items rest)
    have hitems := readItems_pretty items depth fuel rest (by omega)
    have hline := readValue_spaces (newLine_spaces (depth + 1)) fuel
      (v.pretty (depth + 1) ++ (prettyItems depth items ++ rest))
    simp [prettyItems, readItems, expect, skip, isSpace, hline, hv, hitems]

theorem readMembers_pretty :
    ∀ (members : List (Units × Value Token)) (depth fuel : ℕ) (rest : Units),
      (prettyMembers depth members).length ≤ fuel →
      readMembers fuel (prettyMembers depth members ++ rest) = some (members, rest)
  | [], _, 0, _, hfuel | (_, _) :: _, _, 0, _, hfuel => by simp [prettyMembers, newLine] at hfuel
  | [], depth, fuel + 1, rest, _ => by
    simp [prettyMembers, readMembers, expect_newLine,
      expect_cons (show isSpace 0x7D = false by decide)]
  | (key, v) :: members, depth, fuel + 1, rest, hfuel => by
    simp only [prettyMembers, quote, List.length_cons, List.length_append] at hfuel
    have hv := readValue_pretty v (depth + 1) (fuel - 1) (prettyMembers depth members ++ rest)
      (by omega) (tokenEnd_prettyMembers depth members rest)
    have hmember := readMember_pretty key (show 0 < fuel by omega) hv
    have hmembers := readMembers_pretty members depth fuel rest (by omega)
    simp [prettyMembers, readMembers, expect, skip, isSpace, readMember_newLine, hmember, hmembers]

end

/-! ### The functions of the language -/

/-- `JSON.stringify`, of `undefined` as well. -/
def jsonStringify (v : Option (Value Double)) : Option Units := v.map fun v => v.printed.text

/-- `JSON.stringify` with two spaces for each level. -/
def jsonLines (v : Value Double) : Units := v.printed.pretty 0

/-- `JSON.parse`, of a text in which no key is there twice. -/
def jsonParse (text : Units) : Option (Value Double) := (readText text).map (·.map Token.toDouble)

/-- A text of several lines, with the end of its last one, is read as a value that prints the
same. -/
theorem jsonParse_lines (v : Value Double) :
    jsonParse (jsonLines v ++ [0x0A]) = some (v.printed.map Token.toDouble) := by
  have hread := readValue_pretty v.printed 0 ((v.printed.pretty 0 ++ [0x0A]).length + 1) [0x0A]
    (by simp; omega) (tokenEnd_cons (by decide) [])
  rw [jsonParse, jsonLines, readText, hread]
  rfl

end RgbLightningNode.Json
