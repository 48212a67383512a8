import RgbLightningNode.Json.Characters
import RgbLightningNode.Json.Pretty
import RgbLightningNode.Number.Arithmetic

/-!
# Objects as a script sees them

The fields of an object, what a script builds from a text, compares in depth, or makes a string of.
Of the members with one key the last one counts, and the keys that are array indices come first.
-/

namespace RgbLightningNode.Json
open Number

/-! ### Fields -/

/-- Fields with their values; a field may be absent. -/
abbrev Entries := List (String × Option (Value Double))

def getMember (members : List (Units × Value Double)) (key : Units) : Option (Value Double) :=
  (members.find? (·.1 = key)).map Prod.snd

/-- The number that a key is, if it is one that an array has. -/
def arrayIndex (key : Units) : Option ℕ :=
  match key.mapM unitDigit with
  | none => none
  | some digits =>
    let n := digitsValue digits
    if digits ≠ [] ∧ (digits.length = 1 ∨ digits.head?.map Fin.val ≠ some 0) ∧ n < 2 ^ 32 - 1 then
      some n
    else none

/-- Array indices come first, in their own order. -/
def comesBefore (key key' : Units) : Bool :=
  match arrayIndex key, arrayIndex key' with
  | some i, some j => i < j
  | some _, none => true
  | none, _ => false

/-- An assignment to a field of an object. -/
def setMember (key : Units) (v : Value Double) :
    List (Units × Value Double) → List (Units × Value Double)
  | [] => [(key, v)]
  | (k, w) :: members =>
    if k = key then (key, v) :: members
    else if comesBefore key k then (key, v) :: (k, w) :: members
    else (k, w) :: setMember key v members

/-- A field of a value that is read as an object. -/
def fieldOf (v : Option (Value Double)) (key : Units) : Option (Value Double) :=
  match v with
  | some (.object members) => getMember members key
  | _ => none

/-- What counts as `false` in a condition. -/
def falsy : Option (Value Double) → Bool
  | none => true
  | some .null => true
  | some (.bool b) => !b
  | some (.number .nan) => true
  | some (.number (.finite _ magnitude)) => magnitude.1 = 0
  | some (.string s) => s.isEmpty
  | some _ => false

/-- The members that are not `undefined`. -/
def definedMembers (entries : Entries) : List (Units × Value Double) :=
  entries.filterMap fun entry => entry.2.map (units entry.1, ·)

theorem getMember_setMember (members : List (Units × Value Double)) (key key' : Units)
    (v : Value Double) : getMember (setMember key v members) key' =
      if key' = key then some v else getMember members key' := by
  induction members with
  | nil => by_cases h : key = key' <;> simp [setMember, getMember, h, eq_comm]
  | cons m members ih =>
    obtain ⟨k, w⟩ := m
    unfold setMember
    split
    · next hk =>
      subst hk
      by_cases h : k = key'
      · simp [getMember, h]
      · simp [getMember, h, Ne.symm h]
    split
    · by_cases h : key = key'
      · simp [getMember, h]
      · simp [getMember, h, Ne.symm h]
    · next hk _ =>
      by_cases h : k = key'
      · simp [getMember, h, (h ▸ hk : key' ≠ key)]
      · simpa [getMember, h] using ih

theorem setMember_new {key : Units} {v : Value Double} {members : List (Units × Value Double)}
    (h : key ∉ members.map Prod.fst) (hkey : arrayIndex key = none) :
    setMember key v members = members ++ [(key, v)] := by
  have hlast (k : Units) : comesBefore key k = false := by rw [comesBefore, hkey]
  induction members with
  | nil => rfl
  | cons m members ih =>
    obtain ⟨k, w⟩ := m
    rw [List.map_cons, List.mem_cons, not_or] at h
    rw [setMember, if_neg (Ne.symm h.1), hlast, if_neg Bool.false_ne_true, ih h.2, List.cons_append]

theorem getMember_eq_some {members : List (Units × Value Double)} {key : Units} {v : Value Double}
    (h : (members.map Prod.fst).Nodup) : getMember members key = some v ↔ (key, v) ∈ members := by
  induction members with
  | nil => simp [getMember]
  | cons m members ih =>
    obtain ⟨k, w⟩ := m
    rw [List.map_cons, List.nodup_cons] at h
    by_cases hk : k = key
    · subst hk
      have hnotin : (k, v) ∉ members := fun hmem => h.1 (List.mem_map.mpr ⟨_, hmem, rfl⟩)
      simp [getMember, hnotin, eq_comm]
    · have hrest := ih h.2
      rw [getMember] at hrest
      simp [getMember, hk, Ne.symm hk, hrest]

/-- Where no key is there twice, its first member is its last one. -/
theorem getMember_reverse {members : List (Units × Value Double)}
    (h : (members.map Prod.fst).Nodup) (key : Units) :
    getMember members.reverse key = getMember members key := by
  have hreverse : (members.reverse.map Prod.fst).Nodup := by
    rw [List.map_reverse]
    exact List.nodup_reverse.mpr h
  apply Option.ext
  intro v
  rw [getMember_eq_some h, getMember_eq_some hreverse, List.mem_reverse]

/-- An entry is found under its key, if no other one has it. -/
theorem getMember_definedMembers {entries : Entries}
    (hkeys : (entries.map fun entry => units entry.1).Nodup)
    {entry : String × Option (Value Double)}
    (h : entry ∈ entries) : getMember (definedMembers entries) (units entry.1) = entry.2 := by
  induction entries with
  | nil => cases h
  | cons first entries ih =>
    rw [List.map_cons, List.nodup_cons] at hkeys
    have hcons : definedMembers (first :: entries) =
        (first.2.map (units first.1, ·)).toList ++ definedMembers entries := by
      cases hfirst : first.2 <;> simp [definedMembers, hfirst]
    rw [hcons]
    rcases List.mem_cons.mp h with rfl | h
    · cases hentry : entry.2 with
      | some v => simp [getMember]
      | none =>
        have habsent : getMember (definedMembers entries) (units entry.1) = none := by
          simp only [getMember, Option.map_eq_none_iff, List.find?_eq_none]
          intro m hm heq
          obtain ⟨other, hother, hvalue⟩ := List.mem_filterMap.mp hm
          obtain ⟨v, -, rfl⟩ := Option.map_eq_some_iff.mp hvalue
          refine hkeys.1 ?_
          simp only [decide_eq_true_eq] at heq
          rw [← heq]
          exact List.mem_map_of_mem hother
        simpa using habsent
    · have hne : units first.1 ≠ units entry.1 := fun heq => hkeys.1 (heq ▸ List.mem_map_of_mem h)
      rw [← ih hkeys.2 h]
      cases first.2 <;> simp [getMember, hne]

/-! ### What a text keeps of a value -/

/-- A value as it is read back after it was printed. -/
def reread (v : Value Double) : Value Double := v.printed.map Token.toDouble

theorem jsonStringify_reread (v : Option (Value Double)) :
    jsonStringify (v.map reread) = jsonStringify v := by
  cases v with
  | none => rfl
  | some v => simp only [jsonStringify, reread, Option.map_some, printed_map_printed]

theorem getMember_reread (members : List (Units × Value Double)) (key : Units) :
    getMember (mapMembers Token.toDouble (printedMembers members)) key =
      (getMember members key).map reread := by
  induction members with
  | nil => rfl
  | cons m members ih =>
    obtain ⟨k, v⟩ := m
    by_cases hk : k = key
    · simp [printedMembers, mapMembers, getMember, hk, reread]
    · simpa [printedMembers, mapMembers, getMember, hk] using ih

theorem fieldOf_reread (members : List (Units × Value Double)) (key : Units) :
    fieldOf (some (reread (.object members))) key = (getMember members key).map reread := by
  have hobject : reread (.object members) =
      .object (mapMembers Token.toDouble (printedMembers members)) := by
    rw [reread, Value.printed, Value.map]
  rw [hobject]
  exact getMember_reread members key

theorem reread_natural {n : ℕ} (h : n ≤ Double.maxSafeInteger) :
    reread (.number (Double.natural n)) = .number (Double.natural n) := by
  have hrepresentable := representable_natCast (Double.lt_of_le_safe h)
  have hnatural : Double.natural n = .finite false ⟨n, hrepresentable⟩ :=
    nearest_eq false ⟨n, hrepresentable⟩
  have htoken : (Double.natural n).toToken = some (.integer false n) :=
    toToken_natCast h (Double.isNatural_natural h).1
  rw [reread, Value.printed, htoken, Value.map, toDouble_toToken htoken, hnatural]
  rfl

theorem reread_items (items : List (Value Double)) :
    reread (.array items) = .array (items.map reread) := by
  rw [reread, Value.printed, Value.map]
  congr 1
  induction items with
  | nil => rfl
  | cons v items ih =>
    rw [printedItems, mapItems, ih]
    rfl

/-! ### Values that are built from a text -/

mutual

/-- The value that is built from a text. -/
def Value.built : Value Double → Value Double
  | .array items => .array (builtItems items)
  | .object members => .object (builtMembers [] members)
  | .null => .null
  | .bool b => .bool b
  | .number n => .number n
  | .string s => .string s

def builtItems : List (Value Double) → List (Value Double)
  | [] => []
  | v :: items => v.built :: builtItems items

def builtMembers (sofar : List (Units × Value Double)) :
    List (Units × Value Double) → List (Units × Value Double)
  | [] => sofar
  | (key, v) :: members => builtMembers (setMember key v.built sofar) members

end

/-- `JSON.parse` -/
def parse (text : Units) : Option (Value Double) := (jsonParse text).map Value.built

mutual

/-- `isDeepStrictEqual` -/
def Value.deepEqual : Value Double → Value Double → Bool
  | .null, .null => true
  | .bool a, .bool b => a = b
  | .number m, .number n => m = n
  | .string s, .string s' => s = s'
  | .array items, .array items' => deepEqualItems items items'
  | .object members, .object members' =>
    members.length = members'.length && deepEqualMembers members members'
  | _, _ => false

def deepEqualItems : List (Value Double) → List (Value Double) → Bool
  | [], [] => true
  | v :: items, v' :: items' => v.deepEqual v' && deepEqualItems items items'
  | _, _ => false

/-- Every member is found under its key. -/
def deepEqualMembers : List (Units × Value Double) → List (Units × Value Double) → Bool
  | [], _ => true
  | (key, v) :: members, members' =>
    (match getMember members' key with
      | some v' => v.deepEqual v'
      | none => false) && deepEqualMembers members members'

end

/-- `===` -/
def Value.strictEqual : Value Double → Value Double → Bool
  | .null, .null => true
  | .bool a, .bool b => a = b
  | .number m, .number n => m ≠ .nan && m.unsignedZero = n.unsignedZero
  | .string s, .string s' => s = s'
  | _, _ => false

/-! ### Values that a text keeps -/

mutual

/-- The numbers are finite and no negative zero, and the keys of an object differ and are no array
indices. -/
def Value.Ordinary : Value Double → Prop
  | .number n => n.isFinite = true ∧ n.unsignedZero = n
  | .array items => OrdinaryItems items
  | .object members => ((members.map Prod.fst).Nodup ∧ ∀ m ∈ members, arrayIndex m.1 = none) ∧
    OrdinaryMembers members
  | .null | .bool _ | .string _ => True

def OrdinaryItems : List (Value Double) → Prop
  | [] => True
  | v :: items => v.Ordinary ∧ OrdinaryItems items

def OrdinaryMembers : List (Units × Value Double) → Prop
  | [] => True
  | (_, v) :: members => v.Ordinary ∧ OrdinaryMembers members

end

mutual

theorem reread_ordinary : ∀ v : Value Double, v.Ordinary → reread v = v
  | .null, _ => rfl
  | .bool _, _ => rfl
  | .string _, _ => rfl
  | .number n, h => by
    cases n with
    | nan => cases h.1
    | infinity _ => cases h.1
    | finite negative magnitude =>
      obtain ⟨token, htoken⟩ : ∃ token, (Double.finite negative magnitude).toToken = some token :=
        ⟨_, rfl⟩
      rw [reread, Value.printed, htoken, Value.map, toDouble_toToken htoken, h.2]
  | .array items, h => by
    rw [Value.Ordinary] at h
    rw [reread, Value.printed, Value.map, rereadItems_ordinary items h]
  | .object members, h => by
    rw [Value.Ordinary] at h
    rw [reread, Value.printed, Value.map, rereadMembers_ordinary members h.2]

theorem rereadItems_ordinary : ∀ items : List (Value Double), OrdinaryItems items →
    mapItems Token.toDouble (printedItems items) = items
  | [], _ => rfl
  | v :: items, h => by
    have hv := reread_ordinary v h.1
    rw [reread] at hv
    rw [printedItems, mapItems, hv, rereadItems_ordinary items h.2]

theorem rereadMembers_ordinary : ∀ members : List (Units × Value Double), OrdinaryMembers members →
    mapMembers Token.toDouble (printedMembers members) = members
  | [], _ => rfl
  | (key, v) :: members, h => by
    have hv := reread_ordinary v h.1
    rw [reread] at hv
    rw [printedMembers, mapMembers, hv, rereadMembers_ordinary members h.2]

end

mutual

theorem built_ordinary : ∀ v : Value Double, v.Ordinary → v.built = v
  | .null, _ => rfl
  | .bool _, _ => rfl
  | .string _, _ => rfl
  | .number _, _ => rfl
  | .array items, h => by
    rw [Value.Ordinary] at h
    rw [Value.built, builtItems_ordinary items h]
  | .object members, h => by
    rw [Value.Ordinary] at h
    rw [Value.built, builtMembers_ordinary members [] (by simpa using h.1.1) h.1.2 h.2,
      List.nil_append]

theorem builtItems_ordinary : ∀ items : List (Value Double), OrdinaryItems items →
    builtItems items = items
  | [], _ => rfl
  | v :: items, h => by
    rw [builtItems, built_ordinary v h.1, builtItems_ordinary items h.2]

theorem builtMembers_ordinary : ∀ (members sofar : List (Units × Value Double)),
    ((sofar ++ members).map Prod.fst).Nodup → (∀ m ∈ members, arrayIndex m.1 = none) →
    OrdinaryMembers members → builtMembers sofar members = sofar ++ members
  | [], sofar, _, _, _ => by rw [builtMembers, List.append_nil]
  | (key, v) :: members, sofar, hnodup, hkeys, h => by
    have hnew : key ∉ sofar.map Prod.fst := by
      rw [List.map_append, List.map_cons, List.nodup_append] at hnodup
      exact fun hmem => hnodup.2.2 key hmem key List.mem_cons_self rfl
    have hsplit : sofar ++ [(key, v)] ++ members = sofar ++ (key, v) :: members := by simp
    obtain ⟨hkey, hkeys⟩ := List.forall_mem_cons.mp hkeys
    rw [builtMembers, built_ordinary v h.1, setMember_new hnew hkey,
      builtMembers_ordinary members _ (by rwa [hsplit]) hkeys h.2, hsplit]

end

/-- What was written of such a value is read as the value. -/
theorem parse_jsonLines {v : Value Double} (h : v.Ordinary) :
    parse (jsonLines v ++ [0x0A]) = some v := by
  have hv := reread_ordinary v h
  rw [reread] at hv
  rw [parse, jsonParse_lines, Option.map_some, hv, built_ordinary v h]

mutual

/-- A value is deeply equal to itself. -/
theorem deepEqual_self : ∀ v : Value Double, v.Ordinary → v.deepEqual v = true
  | .null, _ => rfl
  | .bool _, _ => by simp [Value.deepEqual]
  | .string _, _ => by simp [Value.deepEqual]
  | .number _, _ => by simp [Value.deepEqual]
  | .array items, h => by
    rw [Value.Ordinary] at h
    rw [Value.deepEqual, deepEqualItems_self items h]
  | .object members, h => by
    rw [Value.Ordinary] at h
    rw [Value.deepEqual, decide_eq_true rfl, Bool.true_and]
    exact deepEqualMembers_self members members h.1.1 h.2 fun _ hm => hm

theorem deepEqualItems_self : ∀ items : List (Value Double), OrdinaryItems items →
    deepEqualItems items items = true
  | [], _ => rfl
  | v :: items, h => by
    rw [deepEqualItems, deepEqual_self v h.1, deepEqualItems_self items h.2]
    rfl

theorem deepEqualMembers_self : ∀ members all : List (Units × Value Double),
    (all.map Prod.fst).Nodup → OrdinaryMembers members → (∀ m ∈ members, m ∈ all) →
    deepEqualMembers members all = true
  | [], _, _, _, _ => rfl
  | (key, v) :: members, all, hnodup, h, hsub => by
    have hget : getMember all key = some v := 
      (getMember_eq_some hnodup).mpr (hsub _ List.mem_cons_self)
    rw [deepEqualMembers, hget, deepEqualMembers_self members all hnodup h.2
      fun m hm => hsub m (List.mem_cons_of_mem _ hm)]
    simpa using deepEqual_self v h.1

end

/-! ### Objects by the names of their fields -/

theorem ordinaryItems_iff {items : List (Value Double)} :
    OrdinaryItems items ↔ ∀ v ∈ items, v.Ordinary := by
  induction items with
  | nil => simp [OrdinaryItems]
  | cons v items ih => rw [OrdinaryItems, ih, List.forall_mem_cons]

theorem ordinaryMembers_iff {members : List (Units × Value Double)} :
    OrdinaryMembers members ↔ ∀ m ∈ members, m.2.Ordinary := by
  induction members with
  | nil => simp [OrdinaryMembers]
  | cons m members ih => rw [OrdinaryMembers, ih, List.forall_mem_cons]

theorem ordinary_natural {n : ℕ} (h : n ≤ Double.maxSafeInteger) :
    (Value.number (Double.natural n)).Ordinary := by
  have hnatural : Double.natural n =
      .finite false ⟨n, representable_natCast (Double.lt_of_le_safe h)⟩ :=
    nearest_eq false ⟨n, _⟩
  rw [Value.Ordinary, hnatural]
  exact ⟨rfl, rfl⟩

theorem ordinary_array {items : List (Value Double)} (h : ∀ v ∈ items, v.Ordinary) :
    (Value.array items).Ordinary := by
  rw [Value.Ordinary]
  exact ordinaryItems_iff.mpr h

def str (s : String) : Value Double := .string (units s)

/-- The object with the fields that have a value. -/
def object (entries : Entries) : Value Double := .object (definedMembers entries)

/-- Characters that are one code unit each. -/
def Short (cs : List Char) : Prop := ∀ c ∈ cs, c.toNat < 0xD800

instance decidableShort (cs : List Char) : Decidable (Short cs) :=
  List.decidableBAll _ _

theorem decode_ofList {cs : List Char} (h : Short cs) :
    decodeUtf16 (units (String.ofList cs)) = some cs := by
  rw [decodeUtf16_iff, units, String.toList_ofList, encodeUtf16, List.map_eq_flatMap]
  refine List.flatMap_congr fun c hc => ?_
  rw [encodeUtf16Char, if_pos (by have := h c hc; omega)]

/-- A key of an object, which is no index of an array. -/
def IsKey (s : String) : Prop :=
  ∃ c cs, s = String.ofList (c :: cs) ∧ Short (c :: cs) ∧ unitDigit (.ofNat c.toNat) = none

theorem IsKey.arrayIndex_eq {s : String} (h : IsKey s) : arrayIndex (units s) = none := by
  obtain ⟨c, cs, rfl, -, hdigit⟩ := h
  rw [arrayIndex, units, String.toList_ofList, List.map_cons, List.mapM_cons, hdigit]
  rfl

theorem IsKey.inj {s s' : String} (h : IsKey s) (h' : IsKey s') (heq : units s = units s') :
    s = s' := by
  obtain ⟨c, cs, rfl, hshort, -⟩ := h
  obtain ⟨c', cs', rfl, hshort', -⟩ := h'
  have hdecoded := congrArg decodeUtf16 heq
  rw [decode_ofList hshort, decode_ofList hshort', Option.some.injEq] at hdecoded
  rw [hdecoded]

theorem IsKey.append {s : String} (h : IsKey s) {cs : List Char} (hcs : Short cs) :
    IsKey (s ++ String.ofList cs) := by
  obtain ⟨c, front, rfl, hshort, hdigit⟩ := h
  refine ⟨c, front ++ cs, ?_, ?_, hdigit⟩
  · rw [← String.ofList_append, List.cons_append]
  · exact List.forall_mem_append.mpr ⟨hshort, hcs⟩

structure Keyed (entries : Entries) : Prop where
  names : (entries.map Prod.fst).Nodup
  keys : ∀ name ∈ entries.map Prod.fst, IsKey name

theorem Keyed.nodup {entries : Entries} (h : Keyed entries) :
    (entries.map fun entry => units entry.1).Nodup := by
  have hmap : (entries.map fun entry => units entry.1) = (entries.map Prod.fst).map units := by
    rw [List.map_map]
    rfl
  rw [hmap]
  exact h.names.map_on fun key hkey key' hkey' heq => (h.keys key hkey).inj (h.keys key' hkey') heq

theorem Keyed.get {entries : Entries} (h : Keyed entries) {key : String} {v : Option (Value Double)}
    (hmem : (key, v) ∈ entries) : getMember (definedMembers entries) (units key) = v :=
  getMember_definedMembers h.nodup hmem

theorem keys_definedMembers (entries : Entries) : ((definedMembers entries).map Prod.fst).Sublist
    (entries.map fun entry => units entry.1) := by
  induction entries with
  | nil => exact .slnil
  | cons entry entries ih =>
    obtain ⟨key, v⟩ := entry
    cases v with
    | none => exact .cons _ ih
    | some v => exact .cons_cons _ ih

theorem Keyed.absent {entries : Entries} (h : Keyed entries) {key : String} (hkey : IsKey key)
    (hnew : key ∉ entries.map Prod.fst) :
    getMember (definedMembers entries) (units key) = none := by
  rw [getMember, Option.map_eq_none_iff, List.find?_eq_none]
  intro m hm heq
  obtain ⟨entry, hentry, hunits⟩ :=
    List.mem_map.mp ((keys_definedMembers entries).subset (List.mem_map_of_mem hm))
  have hmem : entry.1 ∈ entries.map Prod.fst := List.mem_map_of_mem hentry
  rw [of_decide_eq_true heq] at hunits
  rw [(h.keys _ hmem).inj hkey hunits] at hmem
  exact hnew hmem

theorem Keyed.ordinary {entries : Entries} (h : Keyed entries)
    (hall : ∀ entry ∈ entries, ∀ v ∈ entry.2, v.Ordinary) : (object entries).Ordinary := by
  have hkeys := keys_definedMembers entries
  rw [object, Value.Ordinary, ordinaryMembers_iff]
  refine ⟨⟨hkeys.nodup h.nodup, fun m hm => ?_⟩, fun m hm => ?_⟩
  · obtain ⟨entry, hentry, heq⟩ := List.mem_map.mp (hkeys.subset (List.mem_map_of_mem hm))
    rw [← heq]
    exact (h.keys _ (List.mem_map_of_mem hentry)).arrayIndex_eq
  · obtain ⟨entry, hentry, hm⟩ := List.mem_filterMap.mp hm
    obtain ⟨v, hv, rfl⟩ := Option.map_eq_some_iff.mp hm
    exact hall entry hentry v hv

theorem keyed_of_names {entries : Entries} (names : List String) (h : entries.map Prod.fst = names)
    (hnodup : names.Nodup) (hkeys : ∀ name ∈ names, IsKey name) : Keyed entries :=
  ⟨h ▸ hnodup, h ▸ hkeys⟩

theorem ordinary_str (s : String) : ∀ v, some (str s) = some v → v.Ordinary := by
  rintro _ ⟨⟩
  trivial

theorem ordinary_strs {names : List String} : (Value.array (names.map str)).Ordinary := by
  refine ordinary_array fun v hv => ?_
  obtain ⟨s, -, rfl⟩ := List.mem_map.mp hv
  exact ordinary_str s _ rfl

theorem ordinary_some {v : Value Double} (h : v.Ordinary) : ∀ w, some v = some w → w.Ordinary := by
  rintro _ ⟨⟩
  exact h

end RgbLightningNode.Json
