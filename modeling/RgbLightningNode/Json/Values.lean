import RgbLightningNode.Faulty.Checks
import RgbLightningNode.Json.Scalars

/-!
# Values and their texts

A value is what a JSON text says, with its numbers left open: tokens in a text, doubles in a
program. A text is written without spaces and may be read with them. Replacing the numbers of a
value fails exactly if it fails for one of them, and leaves everything else where it stands.
-/

namespace RgbLightningNode.Json
open Number
open Faulty (bind_eq_ok map_eq_ok)

inductive Value (ν : Type) where
  | null
  | bool (b : Bool)
  | number (n : ν)
  | string (s : Units)
  | array (items : List (Value ν))
  | object (members : List (Units × Value ν))

/-! ### Writing -/

mutual

def Value.text : Value Token → Units
  | .null => units "null"
  | .bool b => units (if b then "true" else "false")
  | .number t => tokenText t
  | .string s => quote s
  | .array [] => [0x5B, 0x5D]
  | .array (v :: items) => 0x5B :: (v.text ++ itemsText items)
  | .object [] => [0x7B, 0x7D]
  | .object ((key, v) :: members) => 0x7B :: (quote key ++ 0x3A :: (v.text ++ membersText members))

/-- The rest of an array, behind one of its items. -/
def itemsText : List (Value Token) → Units
  | [] => [0x5D]
  | v :: items => 0x2C :: (v.text ++ itemsText items)

def membersText : List (Units × Value Token) → Units
  | [] => [0x7D]
  | (key, v) :: members => 0x2C :: (quote key ++ 0x3A :: (v.text ++ membersText members))

end

/-! ### Reading -/

def isSpace (u : UInt16) : Bool := u == 0x20 || u == 0x09 || u == 0x0A || u == 0x0D

def skip : Units → Units
  | [] => []
  | u :: rest => if isSpace u then skip rest else u :: rest

/-- A given unit, spaces aside. -/
def expect (u : UInt16) (cs : Units) : Option Units :=
  if (skip cs).head? = some u then some (skip cs).tail else none

def readKeyword (cs : Units) : Option (Value Token × Units) :=
  if (units "null").isPrefixOf cs then some (.null, cs.drop 4)
  else if (units "true").isPrefixOf cs then some (.bool true, cs.drop 4)
  else if (units "false").isPrefixOf cs then some (.bool false, cs.drop 5)
  else none

mutual

def readValue : ℕ → Units → Option (Value Token × Units)
  | 0, _ => none
  | fuel + 1, cs =>
    let cs := skip cs
    if cs.head? = some 0x7B then
      match expect 0x7D cs.tail with
      | some rest => some (.object [], rest)
      | none => (readMember fuel cs.tail).bind fun (member, rest) =>
        (readMembers fuel rest).map fun (members, rest) => (.object (member :: members), rest)
    else if cs.head? = some 0x5B then
      match expect 0x5D cs.tail with
      | some rest => some (.array [], rest)
      | none => (readValue fuel cs.tail).bind fun (v, rest) =>
        (readItems fuel rest).map fun (items, rest) => (.array (v :: items), rest)
    else if cs.head? = some 0x22 then
      (unescape cs.tail).map fun (s, rest) => (.string s, rest)
    else
      match readKeyword cs with
      | some read => some read
      | none => (readToken cs).map fun (t, rest) => (.number t, rest)

/-- The rest of an array, behind one of its items. -/
def readItems : ℕ → Units → Option (List (Value Token) × Units)
  | 0, _ => none
  | fuel + 1, cs =>
    match expect 0x5D cs with
    | some rest => some ([], rest)
    | none => (expect 0x2C cs).bind fun cs => (readValue fuel cs).bind fun (v, rest) =>
      (readItems fuel rest).map fun (items, rest) => (v :: items, rest)

def readMember : ℕ → Units → Option ((Units × Value Token) × Units)
  | 0, _ => none
  | fuel + 1, cs =>
    (expect 0x22 cs).bind fun cs => (unescape cs).bind fun (key, cs) =>
      (expect 0x3A cs).bind fun cs => (readValue fuel cs).map fun (v, rest) => ((key, v), rest)

def readMembers : ℕ → Units → Option (List (Units × Value Token) × Units)
  | 0, _ => none
  | fuel + 1, cs =>
    match expect 0x7D cs with
    | some rest => some ([], rest)
    | none => (expect 0x2C cs).bind fun cs => (readMember fuel cs).bind fun (member, rest) =>
      (readMembers fuel rest).map fun (members, rest) => (member :: members, rest)

end

/-- A text that holds one value. -/
def readText (cs : Units) : Option (Value Token) :=
  (readValue (cs.length + 1) cs).bind fun (v, rest) => if skip rest = [] then some v else none

/-! ### What is written is read -/

theorem expect_cons {u : UInt16} (h : isSpace u = false) (rest : Units) :
    expect u (u :: rest) = some rest := by
  simp [expect, skip, h]

theorem expect_other {u v : UInt16} (h : isSpace v = false) (hne : v ≠ u) (rest : Units) :
    expect u (v :: rest) = none := by
  simp [expect, skip, h, hne]

theorem tokenEnd_cons {u : UInt16} (h : unitDigit u = none ∧ u ≠ 0x2E ∧ u ≠ 0x45 ∧ u ≠ 0x65)
    (rest : Units) : TokenEnd (u :: rest) := by
  intro v hv
  cases hv
  exact h

theorem digitUnit_start (d : Digit) : isSpace (digitUnit d) = false ∧ digitUnit d ≠ 0x5D ∧
    digitUnit d ≠ 0x7B ∧ digitUnit d ≠ 0x5B ∧ digitUnit d ≠ 0x22 ∧ digitUnit d ≠ 0x6E ∧
    digitUnit d ≠ 0x74 ∧ digitUnit d ≠ 0x66 := by
  revert d
  decide

/-- The first unit of a number is none that another value starts with. -/
theorem tokenText_start (t : Token) : ∃ u rest, tokenText t = u :: rest ∧ isSpace u = false ∧
    u ≠ 0x5D ∧ u ≠ 0x7B ∧ u ≠ 0x5B ∧ u ≠ 0x22 ∧ u ≠ 0x6E ∧ u ≠ 0x74 ∧ u ≠ 0x66 := by
  cases hnegative : t.negative with
  | true => exact ⟨0x2D, _, by simp only [tokenText, hnegative, if_true]; rfl, by decide⟩
  | false =>
    cases hdigits : decimal t.whole with
    | nil => exact absurd hdigits (decimal_ne_nil _)
    | cons d digits =>
      refine ⟨digitUnit d,
        digits.map digitUnit ++ (fractionText t.fraction ++ exponentText t.exponent), ?_,
        digitUnit_start d⟩
      simp [tokenText, hnegative, hdigits]

theorem skip_cons {u : UInt16} (h : isSpace u = false) (rest : Units) :
    skip (u :: rest) = u :: rest := by
  simp [skip, h]

/-- No value starts with a space or with the end of an array. -/
theorem text_start (v : Value Token) :
    ∃ u rest, v.text = u :: rest ∧ isSpace u = false ∧ u ≠ 0x5D := by
  cases v with
  | null => exact ⟨0x6E, _, rfl, by decide⟩
  | bool b => cases b <;> exact ⟨_, _, rfl, by decide⟩
  | number t =>
    obtain ⟨u, rest, htext, hspace, hend, _⟩ := tokenText_start t
    exact ⟨u, rest, by rw [Value.text, htext], hspace, hend⟩
  | string s => exact ⟨0x22, _, rfl, by decide⟩
  | array items => cases items <;> exact ⟨_, _, by rw [Value.text], by decide⟩
  | object members =>
    rcases members with _ | ⟨⟨key, v⟩, members⟩ <;> exact ⟨_, _, by rw [Value.text], by decide⟩

theorem readValue_number (t : Token) {fuel : ℕ} (hfuel : 0 < fuel) {rest : Units}
    (hrest : TokenEnd rest) :
    readValue fuel (tokenText t ++ rest) = some (.number t, rest) := by
  obtain ⟨fuel, rfl⟩ := Nat.exists_eq_succ_of_ne_zero hfuel.ne'
  obtain ⟨u, text, htext, hspace, _, hobject, harray, hstring, hn, ht, hf⟩ := tokenText_start t
  have hkeyword : readKeyword (u :: (text ++ rest)) = none := by
    simp [readKeyword, units, List.isPrefixOf, hn.symm, ht.symm, hf.symm]
  have htoken := readToken_append t hrest
  rw [htext, List.cons_append] at htoken ⊢
  rw [readValue]
  simp only [skip_cons hspace, List.head?_cons, Option.some.injEq, hobject, harray, hstring,
    if_false, hkeyword, htoken, Option.map_some]

theorem readMember_text {v : Value Token} (key : Units) {fuel : ℕ} (hfuel : 0 < fuel) {rest : Units}
    (hv : readValue (fuel - 1) (v.text ++ rest) = some (v, rest)) :
    readMember fuel (quote key ++ 0x3A :: (v.text ++ rest)) = some ((key, v), rest) := by
  obtain ⟨fuel, rfl⟩ := Nat.exists_eq_succ_of_ne_zero hfuel.ne'
  simp only [Nat.succ_eq_add_one, Nat.add_sub_cancel] at hv
  simp only [readMember, quote, List.cons_append, List.append_assoc,
    List.nil_append]
  rw [expect_cons (by decide), Option.bind_some, unescape_escape, Option.bind_some,
    expect_cons (by decide), Option.bind_some, hv]
  rfl

theorem tokenEnd_items (items : List (Value Token)) (rest : Units) :
    TokenEnd (itemsText items ++ rest) := by
  cases items with
  | nil => exact tokenEnd_cons (by decide) _
  | cons v items => exact tokenEnd_cons (by decide) _

theorem tokenEnd_members (members : List (Units × Value Token)) (rest : Units) :
    TokenEnd (membersText members ++ rest) := by
  cases members with
  | nil => exact tokenEnd_cons (by decide) _
  | cons member members => exact tokenEnd_cons (by decide) _

/-- An array with an item is no empty array. -/
theorem expect_value (v : Value Token) (rest : Units) : expect 0x5D (v.text ++ rest) = none := by
  obtain ⟨u, text, htext, hspace, hend⟩ := text_start v
  rw [htext]
  exact expect_other hspace hend _

mutual

/-- A value is read with as much fuel as its text is long. -/
theorem readValue_text : ∀ (v : Value Token) (fuel : ℕ) (rest : Units), v.text.length ≤ fuel →
    TokenEnd rest → readValue fuel (v.text ++ rest) = some (v, rest)
  | .null, _ + 1, _, _, _ => rfl
  | .bool true, _ + 1, _, _, _ => rfl
  | .bool false, _ + 1, _, _, _ => rfl
  | .null, 0, _, hfuel, _ | .bool true, 0, _, hfuel, _ | .bool false, 0, _, hfuel, _
  | .string _, 0, _, hfuel, _ | .array [], 0, _, hfuel, _ | .array (_ :: _), 0, _, hfuel, _
  | .object [], 0, _, hfuel, _ | .object (_ :: _), 0, _, hfuel, _ => by
    simp [Value.text, quote, units] at hfuel
  | .number t, fuel, rest, hfuel, hrest => by
    obtain ⟨u, text, htext, _⟩ := tokenText_start t
    rw [Value.text, htext, List.length_cons] at hfuel
    exact readValue_number t (by omega) hrest
  | .string s, fuel + 1, rest, _, _ => by
    have hstring := unescape_escape s rest
    simp [Value.text, quote, readValue, skip, isSpace, hstring]
  | .array [], fuel + 1, rest, _, _ => rfl
  | .array (v :: items), fuel + 1, rest, hfuel, _ => by
    simp only [Value.text, List.length_cons, List.length_append] at hfuel
    have hv :=
      readValue_text v fuel (itemsText items ++ rest) (by omega) (tokenEnd_items items rest)
    have hitems := readItems_text items fuel rest (by omega)
    have hopen := expect_value v (itemsText items ++ rest)
    simp [Value.text, readValue, skip, isSpace, hopen, hv, hitems]
  | .object [], fuel + 1, rest, _, _ => rfl
  | .object ((key, v) :: members), fuel + 1, rest, hfuel, _ => by
    simp only [Value.text, quote, List.length_cons, List.length_append] at hfuel
    have hv := readValue_text v (fuel - 1) (membersText members ++ rest) (by omega)
      (tokenEnd_members members rest)
    have hmember := readMember_text key (show 0 < fuel by omega) hv
    have hmembers := readMembers_text members fuel rest (by omega)
    have hopen : expect 0x7D (quote key ++ 0x3A :: (v.text ++ (membersText members ++ rest))) =
        none :=
      expect_other (by decide) (by decide) _
    simp [Value.text, readValue, skip, isSpace, hopen, hmember, hmembers]

theorem readItems_text : ∀ (items : List (Value Token)) (fuel : ℕ) (rest : Units),
    (itemsText items).length ≤ fuel → readItems fuel (itemsText items ++ rest) = some (items, rest)
  | [], 0, _, hfuel | _ :: _, 0, _, hfuel => by simp [itemsText] at hfuel
  | [], _ + 1, _, _ => rfl
  | v :: items, fuel + 1, rest, hfuel => by
    simp only [itemsText, List.length_cons, List.length_append] at hfuel
    have hv :=
      readValue_text v fuel (itemsText items ++ rest) (by omega) (tokenEnd_items items rest)
    have hitems := readItems_text items fuel rest (by omega)
    simp [itemsText, readItems, expect, skip, isSpace, hv, hitems]

theorem readMembers_text : ∀ (members : List (Units × Value Token)) (fuel : ℕ) (rest : Units),
    (membersText members).length ≤ fuel →
      readMembers fuel (membersText members ++ rest) = some (members, rest)
  | [], 0, _, hfuel | (_, _) :: _, 0, _, hfuel => by simp [membersText] at hfuel
  | [], _ + 1, _, _ => rfl
  | (key, v) :: members, fuel + 1, rest, hfuel => by
    simp only [membersText, quote, List.length_cons, List.length_append] at hfuel
    have hv := readValue_text v (fuel - 1) (membersText members ++ rest) (by omega)
      (tokenEnd_members members rest)
    have hmember := readMember_text key (show 0 < fuel by omega) hv
    have hmembers := readMembers_text members fuel rest (by omega)
    simp [membersText, readMembers, expect, skip, isSpace, hmember, hmembers]

end

theorem readText_text (v : Value Token) : readText v.text = some v := by
  have hv := readValue_text v (v.text.length + 1) [] (by omega) (by simp [TokenEnd])
  rw [List.append_nil] at hv
  simp [readText, hv, skip]

/-! ### Positions -/

/-- A step from an array or an object to a value in it. -/
inductive Step where
  | item (i : ℕ)
  | member (i : ℕ)
  deriving DecidableEq, Repr

variable {ν μ ξ ε : Type}

/-- The value at a position. -/
def Value.at : Value ν → List Step → Option (Value ν)
  | v, [] => some v
  | .array items, .item i :: path => items[i]?.bind (·.at path)
  | .object members, .member i :: path => members[i]?.bind (·.2.at path)
  | _, _ :: _ => none

/-- What every object of a program is: no key of it is there twice. -/
def Value.Distinct (v : Value ν) : Prop :=
  ∀ path members, v.at path = some (.object members) → (members.map Prod.fst).Nodup

def Value.isScalar : Value ν → Bool
  | .array _ => false
  | .object _ => false
  | _ => true

theorem Value.Distinct.flat {members : List (Units × Value ν)}
    (hkeys : (members.map Prod.fst).Nodup) (hscalar : ∀ m ∈ members, m.2.isScalar = true) :
    (Value.object members).Distinct := by
  intro path members' hat
  rcases path with _ | ⟨_ | i, path⟩
  · cases hat
    exact hkeys
  · cases hat
  · obtain ⟨m, hm, hat⟩ := Option.bind_eq_some_iff.mp hat
    have hflat := hscalar m (List.mem_of_getElem? hm)
    cases path with
    | nil =>
      cases hvalue : m.2 <;> simp [hvalue, Value.at, Value.isScalar] at hat hflat
    | cons step path =>
      cases hvalue : m.2 <;> simp [hvalue, Value.at, Value.isScalar] at hat hflat

/-- The value of a field, the first one of its name. -/
def Value.field (v : Value ν) (key : String) : Option (Value ν) :=
  match v with
  | .object members => (members.find? (·.1 = units key)).map Prod.snd
  | _ => none

/-! ### Replacing the numbers -/

mutual

def Value.traverse (f : ν → Except ε (Value μ)) : Value ν → Except ε (Value μ)
  | .null => .ok .null
  | .bool b => .ok (.bool b)
  | .number n => f n
  | .string s => .ok (.string s)
  | .array items => (traverseItems f items).map .array
  | .object members => (traverseMembers f members).map .object

def traverseItems (f : ν → Except ε (Value μ)) : List (Value ν) → Except ε (List (Value μ))
  | [] => .ok []
  | v :: items => (v.traverse f).bind fun v => (traverseItems f items).map (v :: ·)

def traverseMembers (f : ν → Except ε (Value μ)) :
    List (Units × Value ν) → Except ε (List (Units × Value μ))
  | [] => .ok []
  | (key, v) :: members => (v.traverse f).bind fun v =>
    (traverseMembers f members).map ((key, v) :: ·)

end

mutual

def Value.map (h : ν → μ) : Value ν → Value μ
  | .null => .null
  | .bool b => .bool b
  | .number n => .number (h n)
  | .string s => .string s
  | .array items => .array (mapItems h items)
  | .object members => .object (mapMembers h members)

def mapItems (h : ν → μ) : List (Value ν) → List (Value μ)
  | [] => []
  | v :: items => v.map h :: mapItems h items

def mapMembers (h : ν → μ) : List (Units × Value ν) → List (Units × Value μ)
  | [] => []
  | (key, v) :: members => (key, v.map h) :: mapMembers h members

end

section Traverse

variable {f : ν → Except ε (Value μ)}

theorem bind_eq_error {α β : Type} {x : Except ε α} {next : α → Except ε β} {e : ε} :
    x.bind next = .error e ↔ x = .error e ∨ ∃ a, x = .ok a ∧ next a = .error e := by
  cases x <;> simp [Except.bind]

theorem map_eq_error {α β : Type} {x : Except ε α} {h : α → β} {e : ε} :
    x.map h = .error e ↔ x = .error e := by
  cases x <;> simp [Except.map]

theorem traverseItems_get {items : List (Value ν)} {items' : List (Value μ)}
    (h : traverseItems f items = .ok items') (i : ℕ) :
    (∀ v, items[i]? = some v → ∃ w, items'[i]? = some w ∧ v.traverse f = .ok w) ∧
      (items[i]? = none → items'[i]? = none) := by
  induction items generalizing items' i with
  | nil =>
    cases h
    simp
  | cons v items ih =>
    obtain ⟨w, hw, hrest⟩ := bind_eq_ok.mp h
    obtain ⟨rest, hitems, rfl⟩ := map_eq_ok.mp hrest
    cases i with
    | zero => simpa using hw
    | succ i => simpa using ih hitems i

theorem traverseMembers_get {members : List (Units × Value ν)} {members' : List (Units × Value μ)}
    (h : traverseMembers f members = .ok members') :
    members'.map Prod.fst = members.map Prod.fst ∧ ∀ i : ℕ,
      (∀ m, members[i]? = some m → ∃ m', members'[i]? = some m' ∧ m.2.traverse f = .ok m'.2) ∧
        (members[i]? = none → members'[i]? = none) := by
  induction members generalizing members' with
  | nil =>
    cases h
    simp
  | cons member members ih =>
    obtain ⟨key, v⟩ := member
    obtain ⟨w, hw, hrest⟩ := bind_eq_ok.mp h
    obtain ⟨rest, hmembers, rfl⟩ := map_eq_ok.mp hrest
    obtain ⟨hkeys, hget⟩ := ih hmembers
    refine ⟨by simp [hkeys], fun i => ?_⟩
    cases i with
    | zero => simpa using hw
    | succ i => simpa using hget i

/-- Where a number was stands what it was replaced by. -/
theorem traverse_at {v : Value ν} {w : Value μ} (h : v.traverse f = .ok w) {path : List Step}
    {n : ν} (hn : v.at path = some (.number n)) : ∃ x, f n = .ok x ∧ w.at path = some x := by
  induction path generalizing v w with
  | nil =>
    simp only [Value.at, Option.some.injEq] at hn
    subst hn
    exact ⟨w, h, by cases w <;> rfl⟩
  | cons step path ih =>
    cases v with
    | array items =>
      cases step with
      | member i => cases hn
      | item i =>
        obtain ⟨v, hv, hn⟩ := Option.bind_eq_some_iff.mp hn
        obtain ⟨items', hitems, rfl⟩ := map_eq_ok.mp h
        obtain ⟨w, hw, htraverse⟩ := (traverseItems_get hitems i).1 v hv
        obtain ⟨x, hx, hat⟩ := ih htraverse hn
        exact ⟨x, hx, by simp [Value.at, hw, hat]⟩
    | object members =>
      cases step with
      | item i => cases hn
      | member i =>
        obtain ⟨m, hm, hn⟩ := Option.bind_eq_some_iff.mp hn
        obtain ⟨members', hmembers, rfl⟩ := map_eq_ok.mp h
        obtain ⟨m', hm', htraverse⟩ := ((traverseMembers_get hmembers).2 i).1 m hm
        obtain ⟨x, hx, hat⟩ := ih htraverse hn
        exact ⟨x, hx, by simp [Value.at, hm', hat]⟩
    | _ => simp [Value.at] at hn

/-- An object comes from an object with the same keys, unless a number was replaced by one. -/
theorem traverse_object {v : Value ν} {w : Value μ}
    (hleaf : ∀ n members, f n ≠ .ok (.object members))
    (harray : ∀ n items, f n ≠ .ok (.array items)) (h : v.traverse f = .ok w) {path : List Step}
    {members' : List (Units × Value μ)} (hat : w.at path = some (.object members')) :
    ∃ members, v.at path = some (.object members) ∧
      members'.map Prod.fst = members.map Prod.fst := by
  induction path generalizing v w with
  | nil =>
    simp only [Value.at, Option.some.injEq] at hat
    subst hat
    cases v with
    | object members =>
      obtain ⟨_, hmembers, heq⟩ := map_eq_ok.mp h
      cases heq
      exact ⟨members, rfl, (traverseMembers_get hmembers).1⟩
    | array items =>
      obtain ⟨_, _, heq⟩ := map_eq_ok.mp h
      cases heq
    | number n => exact absurd h (hleaf n members')
    | _ => cases h
  | cons step path ih =>
    cases v with
    | array items =>
      obtain ⟨items', hitems, rfl⟩ := map_eq_ok.mp h
      cases step with
      | member i => cases hat
      | item i =>
        obtain ⟨w, hw, hat⟩ := Option.bind_eq_some_iff.mp hat
        cases hv : items[i]? with
        | none =>
          rw [(traverseItems_get hitems i).2 hv] at hw
          cases hw
        | some v =>
          obtain ⟨w', hw', htraverse⟩ := (traverseItems_get hitems i).1 v hv
          cases hw.symm.trans hw'
          obtain ⟨members, hmembers, hkeys⟩ := ih htraverse hat
          exact ⟨members, by simp [Value.at, hv, hmembers], hkeys⟩
    | object members =>
      obtain ⟨members', hmembers, rfl⟩ := map_eq_ok.mp h
      cases step with
      | item i => cases hat
      | member i =>
        obtain ⟨m', hm', hat⟩ := Option.bind_eq_some_iff.mp hat
        cases hm : members[i]? with
        | none =>
          rw [((traverseMembers_get hmembers).2 i).2 hm] at hm'
          cases hm'
        | some m =>
          obtain ⟨m'', hm'', htraverse⟩ := ((traverseMembers_get hmembers).2 i).1 m hm
          cases hm'.symm.trans hm''
          obtain ⟨members, hmembers, hkeys⟩ := ih htraverse hat
          exact ⟨members, by simp [Value.at, hm, hmembers], hkeys⟩
    | number n =>
      cases w with
      | array items => exact absurd h (harray n items)
      | object members => exact absurd h (hleaf n members)
      | _ => simp [Value.at] at hat
    | _ =>
      cases h
      simp [Value.at] at hat

mutual

/-- What fails, fails for a number. -/
theorem traverse_error : ∀ (v : Value ν) {e : ε}, v.traverse f = .error e →
    ∃ (path : List Step) (n : ν), v.at path = some (.number n) ∧ f n = .error e
  | .null, _, h | .bool _, _, h | .string _, _, h => by cases h
  | .number n, _, h => ⟨[], n, rfl, h⟩
  | .array items, _, h => by
    obtain ⟨i, v, path, n, hv, hat, hn⟩ := traverseItems_error items (map_eq_error.mp h)
    exact ⟨.item i :: path, n, by simp [Value.at, hv, hat], hn⟩
  | .object members, _, h => by
    obtain ⟨i, m, path, n, hm, hat, hn⟩ := traverseMembers_error members (map_eq_error.mp h)
    exact ⟨.member i :: path, n, by simp [Value.at, hm, hat], hn⟩

theorem traverseItems_error : ∀ (items : List (Value ν)) {e : ε}, traverseItems f items = .error e →
    ∃ (i : ℕ) (v : Value ν) (path : List Step) (n : ν), items[i]? = some v ∧
      v.at path = some (.number n) ∧ f n = .error e
  | [], _, h => by cases h
  | v :: items, _, h => by
    rcases bind_eq_error.mp h with h | ⟨_, _, h⟩
    · obtain ⟨path, n, hat, hn⟩ := traverse_error v h
      exact ⟨0, v, path, n, rfl, hat, hn⟩
    · obtain ⟨i, v, path, n, hv, hat, hn⟩ := traverseItems_error items (map_eq_error.mp h)
      exact ⟨i + 1, v, path, n, hv, hat, hn⟩

theorem traverseMembers_error : ∀ (members : List (Units × Value ν)) {e : ε},
    traverseMembers f members = .error e →
    ∃ (i : ℕ) (m : Units × Value ν) (path : List Step) (n : ν), members[i]? = some m ∧
      m.2.at path = some (.number n) ∧ f n = .error e
  | [], _, h => by cases h
  | (key, v) :: members, _, h => by
    rcases bind_eq_error.mp h with h | ⟨_, _, h⟩
    · obtain ⟨path, n, hat, hn⟩ := traverse_error v h
      exact ⟨0, (key, v), path, n, rfl, hat, hn⟩
    · obtain ⟨i, m, path, n, hm, hat, hn⟩ :=
        traverseMembers_error members (map_eq_error.mp h)
      exact ⟨i + 1, m, path, n, hm, hat, hn⟩

end

theorem traverse_error_iff {v : Value ν} : (∃ e, v.traverse f = .error e) ↔
    ∃ path n e, v.at path = some (.number n) ∧ f n = .error e := by
  constructor
  · rintro ⟨e, h⟩
    obtain ⟨path, n, hat, hn⟩ := traverse_error v h
    exact ⟨path, n, e, hat, hn⟩
  · rintro ⟨path, n, e, hat, hn⟩
    cases h : v.traverse f with
    | error e => exact ⟨e, rfl⟩
    | ok w =>
      obtain ⟨x, hx, _⟩ := traverse_at h hat
      rw [hn] at hx
      cases hx

/-- Keys stay distinct. -/
theorem Value.Distinct.traverse {v : Value ν} {w : Value μ} (hv : v.Distinct)
    (hleaf : ∀ n members, f n ≠ .ok (.object members))
    (harray : ∀ n items, f n ≠ .ok (.array items)) (h : v.traverse f = .ok w) : w.Distinct := by
  intro path members' hat
  obtain ⟨members, hmembers, hkeys⟩ := traverse_object hleaf harray h hat
  rw [hkeys]
  exact hv path members hmembers

section Back

variable {g : μ → Except ε (Value ξ)} {back : ν → ξ}

mutual

/-- Replacing numbers twice, when the second replacement knows what to make of the first. -/
theorem traverse_traverse (hback : ∀ n x, f n = .ok x → x.traverse g = .ok (.number (back n))) :
    ∀ (v : Value ν) {w : Value μ}, v.traverse f = .ok w → w.traverse g = .ok (v.map back)
  | .null, _, h | .bool _, _, h | .string _, _, h => by
    cases h
    rfl
  | .number n, _, h => hback n _ h
  | .array items, _, h => by
    obtain ⟨items', hitems, rfl⟩ := map_eq_ok.mp h
    rw [Value.traverse, traverseItems_traverseItems hback items hitems, Value.map]
    rfl
  | .object members, _, h => by
    obtain ⟨members', hmembers, rfl⟩ := map_eq_ok.mp h
    rw [Value.traverse, traverseMembers_traverseMembers hback members hmembers, Value.map]
    rfl

theorem traverseItems_traverseItems
    (hback : ∀ n x, f n = .ok x → x.traverse g = .ok (.number (back n))) :
    ∀ (items : List (Value ν)) {items' : List (Value μ)}, traverseItems f items = .ok items' →
      traverseItems g items' = .ok (mapItems back items)
  | [], _, h => by
    cases h
    rfl
  | v :: items, _, h => by
    obtain ⟨w, hw, hrest⟩ := bind_eq_ok.mp h
    obtain ⟨rest, hitems, rfl⟩ := map_eq_ok.mp hrest
    rw [traverseItems, traverse_traverse hback v hw, traverseItems_traverseItems hback items hitems]
    rfl

theorem traverseMembers_traverseMembers
    (hback : ∀ n x, f n = .ok x → x.traverse g = .ok (.number (back n))) :
    ∀ (members : List (Units × Value ν)) {members' : List (Units × Value μ)},
      traverseMembers f members = .ok members' →
      traverseMembers g members' = .ok (mapMembers back members)
  | [], _, h => by
    cases h
    rfl
  | (key, v) :: members, _, h => by
    obtain ⟨w, hw, hrest⟩ := bind_eq_ok.mp h
    obtain ⟨rest, hmembers, rfl⟩ := map_eq_ok.mp hrest
    rw [traverseMembers, traverse_traverse hback v hw,
      traverseMembers_traverseMembers hback members hmembers]
    rfl

end

end Back

end Traverse

end RgbLightningNode.Json
