import Mathlib.Data.String.Basic
import RgbLightningNode.Order.Sorting
import RgbLightningNode.Restore.Context
import RgbLightningNode.Snapshot.History
import RgbLightningNode.Text.Json

/-!
# The view that a sync is compared by

A sync counts as a change of the wallet when the public views of the wallet before and after it
differ. An indexer may list the same items in another order, so every array of a view is sorted by
the texts of its items first.
-/

namespace RgbLightningNode.Snapshot
open Faulty RgbLightningNode.Order Restore

/-! ### Values -/

/-- What holds of a value follows from what holds of the values directly below it. -/
theorem jsonValue_induction {P : JsonValue → Prop} (null : P .null) (bool : ∀ b, P (.bool b))
    (number : ∀ n, P (.number n)) (string : ∀ s, P (.string s))
    (array : ∀ items, (∀ v ∈ items, P v) → P (.array items))
    (object : ∀ members : List (String × JsonValue), (∀ m ∈ members, P m.2) → P (.object members)) :
    ∀ v, P v :=
  @JsonValue.rec P (fun items => ∀ v ∈ items, P v) (fun members => ∀ m ∈ members, P m.2)
    (fun m => P m.2) null bool number string array object
    (fun _ h => absurd h List.not_mem_nil) (fun _ _ hv hitems =>
      List.forall_mem_cons.mpr ⟨hv, hitems⟩)
    (fun _ h => absurd h List.not_mem_nil)
    (fun _ _ hm hmembers => List.forall_mem_cons.mpr ⟨hm, hmembers⟩) fun _ _ hv => hv

mutual

/-- The comparison of two values. -/
def sameValue : JsonValue → JsonValue → Bool
  | .null, .null => true
  | .bool b, .bool b' => b == b'
  | .number n, .number n' => n == n'
  | .string s, .string s' => s == s'
  | .array items, .array items' => sameItems items items'
  | .object members, .object members' => sameMembers members members'
  | _, _ => false

def sameItems : List JsonValue → List JsonValue → Bool
  | [], [] => true
  | v :: items, v' :: items' => sameValue v v' && sameItems items items'
  | _, _ => false

def sameMembers : List (String × JsonValue) → List (String × JsonValue) → Bool
  | [], [] => true
  | (key, v) :: members, (key', v') :: members' =>
    key == key' && sameValue v v' && sameMembers members members'
  | _, _ => false

end

theorem sameValue_iff (v w : JsonValue) : sameValue v w = true ↔ v = w := by
  induction v using jsonValue_induction generalizing w with
  | null => cases w <;> simp [sameValue]
  | bool b => cases w <;> simp [sameValue]
  | number n => cases w <;> simp [sameValue]
  | string s => cases w <;> simp [sameValue]
  | array items ih =>
    have hitems : ∀ items', sameItems items items' = true ↔ items = items' := by
      induction items with
      | nil => intro items'; cases items' <;> simp [sameItems]
      | cons v items ihs =>
        intro items'
        cases items' with
        | nil => simp [sameItems]
        | cons v' items' =>
          simp [sameItems, ih v List.mem_cons_self,
            ihs fun w hw => ih w (List.mem_cons_of_mem v hw)]
    cases w <;> simp [sameValue, hitems]
  | object members ih =>
    have hmembers : ∀ members', sameMembers members members' = true ↔ members = members' := by
      induction members with
      | nil => intro members'; cases members' <;> simp [sameMembers]
      | cons m members ihs =>
        intro members'
        cases members' with
        | nil => simp [sameMembers]
        | cons m' members' =>
          obtain ⟨key, v⟩ := m
          obtain ⟨key', v'⟩ := m'
          simp [sameMembers, ih _ List.mem_cons_self,
            ihs fun w hw => ih w (List.mem_cons_of_mem _ hw), and_assoc]
    cases w <;> simp [sameValue, hmembers]

instance : DecidableEq JsonValue := fun v w => decidable_of_iff _ (sameValue_iff v w)

/-! ### The source -/

section Canonical

-- the text of a value, which the sort compares
variable (toText : JsonValue → String)

mutual

def canonical : JsonValue → JsonValue
  | .array items => .array (sortBy toText (canonicalItems items))
  | .object map => .object (canonicalMembers map)
  | value => value

def canonicalItems : List JsonValue → List JsonValue
  | [] => []
  | item :: items => canonical item :: canonicalItems items

def canonicalMembers : List (String × JsonValue) → List (String × JsonValue)
  | [] => []
  | (key, item) :: members => (key, canonical item) :: canonicalMembers members

end

mutual

/-- The values whose texts are compared on the way. -/
def compared : JsonValue → List JsonValue
  | .array items => comparedItems items ++ canonicalItems toText items
  | .object members => comparedMembers members
  | _ => []

def comparedItems : List JsonValue → List JsonValue
  | [] => []
  | v :: items => compared v ++ comparedItems items

def comparedMembers : List (String × JsonValue) → List JsonValue
  | [] => []
  | (_, v) :: members => compared v ++ comparedMembers members

end

end Canonical

/-- The public views of a wallet, as they are serialized. -/
structure Views (W : Type) where
  balance : W → JsonValue
  transactions : W → JsonValue
  unspents : W → JsonValue

namespace Views

variable {W : Type} (views : Views W) (toText : JsonValue → String)

/-- A tuple is serialized as an array. -/
def state (wallet : W) : JsonValue :=
  .array [views.balance wallet, views.transactions wallet, views.unspents wallet]

def syncSnapshotInner (wallet : W) : JsonValue := canonical toText (views.state wallet)

end Views

/-! ### Values up to the order of their arrays -/

mutual

/-- Every object has its members in the order of their keys, as its map keeps them. -/
def Keyed : JsonValue → Prop
  | .array items => KeyedItems items
  | .object members => SortedKeys members ∧ KeyedMembers members
  | _ => True

def KeyedItems : List JsonValue → Prop
  | [] => True
  | v :: items => Keyed v ∧ KeyedItems items

def KeyedMembers : List (String × JsonValue) → Prop
  | [] => True
  | (_, v) :: members => Keyed v ∧ KeyedMembers members

end

mutual

/-- The values are equal up to the order of the items of their arrays at every depth. The members
of two objects are compared by their keys. -/
def Reordered : JsonValue → JsonValue → Prop
  | .array items, w => ∃ items' ordered : List JsonValue,
      w = .array items' ∧ ordered.Perm items' ∧ ReorderedItems items ordered
  | .object members, w => ∃ members', w = .object members' ∧
      (∀ key, key ∈ members.map Prod.fst ↔ key ∈ members'.map Prod.fst) ∧
        ReorderedMembers members members'
  | v, w => v = w

def ReorderedItems : List JsonValue → List JsonValue → Prop
  | [], ordered => ordered = []
  | v :: items, ordered => ∃ v' rest, ordered = v' :: rest ∧ Reordered v v' ∧
    ReorderedItems items rest

def ReorderedMembers : List (String × JsonValue) → List (String × JsonValue) → Prop
  | [], _ => True
  | (key, v) :: members, members' =>
    (∃ v', (key, v') ∈ members' ∧ Reordered v v') ∧ ReorderedMembers members members'

end

theorem keyedItems_iff {items : List JsonValue} : KeyedItems items ↔ ∀ v ∈ items, Keyed v := by
  induction items with
  | nil => simp [KeyedItems]
  | cons v items ih => rw [KeyedItems, ih, List.forall_mem_cons]

theorem keyedMembers_iff {members : List (String × JsonValue)} :
    KeyedMembers members ↔ ∀ m ∈ members, Keyed m.2 := by
  induction members with
  | nil => simp [KeyedMembers]
  | cons m members ih => rw [KeyedMembers, ih, List.forall_mem_cons]

theorem reorderedItems_iff {items ordered : List JsonValue} :
    ReorderedItems items ordered ↔ List.Forall₂ Reordered items ordered := by
  induction items generalizing ordered with
  | nil => rw [ReorderedItems, List.forall₂_nil_left_iff]
  | cons v items ih =>
    rw [ReorderedItems, List.forall₂_cons_left_iff]
    constructor
    · rintro ⟨v', rest, rfl, hv, hrest⟩
      exact ⟨v', rest, hv, ih.mp hrest, rfl⟩
    · rintro ⟨v', rest, hv, hrest, rfl⟩
      exact ⟨v', rest, rfl, hv, ih.mpr hrest⟩

theorem reorderedMembers_iff {members members' : List (String × JsonValue)} :
    ReorderedMembers members members' ↔
      ∀ m ∈ members, ∃ v', (m.1, v') ∈ members' ∧ Reordered m.2 v' := by
  induction members with
  | nil => simp [ReorderedMembers]
  | cons m members ih => rw [ReorderedMembers, ih, List.forall_mem_cons]

/-! ### What the canonical form keeps -/

section Canonical

variable (toText : JsonValue → String)

theorem canonicalItems_eq (items : List JsonValue) :
    canonicalItems toText items = items.map (canonical toText) := by
  induction items with
  | nil => rfl
  | cons v items ih => rw [canonicalItems, ih, List.map_cons]

theorem canonicalMembers_eq (members : List (String × JsonValue)) :
    canonicalMembers toText members = members.map fun m => (m.1, canonical toText m.2) := by
  induction members with
  | nil => rfl
  | cons m members ih => rw [canonicalMembers, ih, List.map_cons]

theorem canonical_array (items : List JsonValue) : canonical toText (.array items) =
    .array (sortBy toText (items.map (canonical toText))) := by
  rw [canonical, canonicalItems_eq]

theorem canonical_object (members : List (String × JsonValue)) :
    canonical toText (.object members) =
      .object (members.map fun m => (m.1, canonical toText m.2)) := by
  rw [canonical, canonicalMembers_eq]

theorem mem_comparedItems {items : List JsonValue} {u : JsonValue} :
    u ∈ comparedItems toText items ↔ ∃ v ∈ items, u ∈ compared toText v := by
  induction items with
  | nil => simp [comparedItems]
  | cons v items ih => simp [comparedItems, ih]

theorem mem_comparedMembers {members : List (String × JsonValue)} {u : JsonValue} :
    u ∈ comparedMembers toText members ↔ ∃ m ∈ members, u ∈ compared toText m.2 := by
  induction members with
  | nil => simp [comparedMembers]
  | cons m members ih => simp [comparedMembers, ih]

theorem mem_compared_array {items : List JsonValue} {u : JsonValue} :
    u ∈ compared toText (.array items) ↔
      (∃ v ∈ items, u ∈ compared toText v) ∨ u ∈ items.map (canonical toText) := by
  rw [compared, List.mem_append, mem_comparedItems, canonicalItems_eq]

theorem mem_compared_object {members : List (String × JsonValue)} {u : JsonValue} :
    u ∈ compared toText (.object members) ↔ ∃ m ∈ members, u ∈ compared toText m.2 := by
  rw [compared, mem_comparedMembers]

/-- The canonical form is its own canonical form. -/
theorem canonical_canonical (v : JsonValue) :
    canonical toText (canonical toText v) = canonical toText v := by
  induction v using jsonValue_induction with
  | null => rfl
  | bool b => rfl
  | number n => rfl
  | string s => rfl
  | array items ih =>
    have hitems : (sortBy toText (items.map (canonical toText))).map (canonical toText) =
        sortBy toText (items.map (canonical toText)) := by
      conv_rhs => rw [← List.map_id (sortBy toText (items.map (canonical toText)))]
      apply List.map_congr_left
      intro u hu
      obtain ⟨v, hv, rfl⟩ := List.mem_map.mp ((mem_sortBy toText).mp hu)
      exact ih v hv
    rw [canonical_array, canonical_array, hitems, sortBy_sortBy]
  | object members ih =>
    rw [canonical_object, canonical_object, List.map_map]
    congr 1
    apply List.map_congr_left
    intro m hm
    simp only [Function.comp_apply, ih m hm]

theorem sortedKeys_canonical {members : List (String × JsonValue)} (h : SortedKeys members) :
    SortedKeys (members.map fun m => (m.1, canonical toText m.2)) :=
  List.pairwise_map.mpr h

end Canonical

section Invariant

variable {toText : JsonValue → String}

/-- The texts tell the values apart that are compared on the way to the two canonical forms. -/
def Separates (toText : JsonValue → String) (a b : JsonValue) : Prop :=
  Set.InjOn toText {u | u ∈ compared toText a ∨ u ∈ compared toText b}

theorem Separates.mono {a b a' b' : JsonValue} (h : Separates toText a b)
    (ha : ∀ u ∈ compared toText a', u ∈ compared toText a)
    (hb : ∀ u ∈ compared toText b', u ∈ compared toText b) : Separates toText a' b' :=
  Set.InjOn.mono (fun u hu => hu.imp (ha u) (hb u)) h

theorem Separates.item {items items' : List JsonValue} {v v' : JsonValue}
    (h : Separates toText (.array items) (.array items')) (hv : v ∈ items) (hv' : v' ∈ items') :
    Separates toText v v' :=
  h.mono (fun _ hu => (mem_compared_array toText).mpr (Or.inl ⟨v, hv, hu⟩))
    fun _ hu => (mem_compared_array toText).mpr (Or.inl ⟨v', hv', hu⟩)

theorem Separates.member {members members' : List (String × JsonValue)} {m m' : String × JsonValue}
    (h : Separates toText (.object members) (.object members')) (hm : m ∈ members)
    (hm' : m' ∈ members') : Separates toText m.2 m'.2 :=
  h.mono (fun _ hu => (mem_compared_object toText).mpr ⟨m, hm, hu⟩)
    fun _ hu => (mem_compared_object toText).mpr ⟨m', hm', hu⟩

/-- Two arrays have the same canonical form exactly if one can be rearranged to match the other
item by item. -/
theorem canonical_array_eq_iff {items items' : List JsonValue}
    (hsep : Separates toText (.array items) (.array items')) :
    canonical toText (.array items) = canonical toText (.array items') ↔
      ∃ ordered : List JsonValue, ordered.Perm items' ∧
        items.map (canonical toText) = ordered.map (canonical toText) := by
  rw [canonical_array, canonical_array, JsonValue.array.injEq]
  apply sortBy_map_eq_iff
  refine Set.InjOn.mono ?_ hsep
  intro u hu
  exact Or.inl ((mem_compared_array toText).mpr (Or.inr hu))

/-- Two objects have the same canonical form exactly if they have the same keys and each member has
the same canonical form as the one under its key. -/
theorem canonical_object_eq_iff {members members' : List (String × JsonValue)}
    (h : SortedKeys members) (h' : SortedKeys members') :
    canonical toText (.object members) = canonical toText (.object members') ↔
      (∀ key, key ∈ members.map Prod.fst ↔ key ∈ members'.map Prod.fst) ∧
        ∀ m ∈ members, ∃ v', (m.1, v') ∈ members' ∧
          canonical toText m.2 = canonical toText v' := by
  rw [canonical_object, canonical_object, JsonValue.object.injEq]
  constructor
  · intro heq
    refine ⟨fun key => ?_, fun m hm => ?_⟩
    · have hkeys := congrArg (List.map Prod.fst) heq
      simp only [List.map_map, Function.comp_def] at hkeys
      rw [hkeys]
    · have hmem : (m.1, canonical toText m.2) ∈
          members'.map fun m => (m.1, canonical toText m.2) := heq ▸ List.mem_map_of_mem hm
      obtain ⟨m', hm', hpair⟩ := List.mem_map.mp hmem
      obtain ⟨hkey, hvalue⟩ := Prod.mk.inj hpair
      exact ⟨m'.2, hkey ▸ hm', hvalue.symm⟩
  · rintro ⟨hkeys, hmembers⟩
    apply (sortedKeys_canonical toText h).eq_of_mem_iff (sortedKeys_canonical toText h')
    intro pair
    constructor
    · intro hpair
      obtain ⟨m, hm, rfl⟩ := List.mem_map.mp hpair
      obtain ⟨v', hv', hvalue⟩ := hmembers m hm
      exact List.mem_map.mpr ⟨(m.1, v'), hv', by rw [hvalue]⟩
    · intro hpair
      obtain ⟨m', hm', rfl⟩ := List.mem_map.mp hpair
      obtain ⟨m, hm, hkey⟩ := List.mem_map.mp ((hkeys m'.1).mpr (List.mem_map_of_mem hm'))
      obtain ⟨v', hv', hvalue⟩ := hmembers m hm
      have hsame : v' = m'.2 := h'.eq_of_mem hv' (hkey ▸ hm')
      exact List.mem_map.mpr ⟨m, hm, by rw [hvalue, hsame, hkey]⟩

/-- Two values have the same canonical form exactly if they are equal up to the order of the items
of their arrays. -/
theorem canonical_eq_iff {a b : JsonValue} (ha : Keyed a) (hb : Keyed b)
    (hsep : Separates toText a b) : canonical toText a = canonical toText b ↔ Reordered a b := by
  induction a using jsonValue_induction generalizing b with
  | null => cases b <;> simp [canonical, Reordered]
  | bool c => cases b <;> simp [canonical, Reordered]
  | number n => cases b <;> simp [canonical, Reordered]
  | string s => cases b <;> simp [canonical, Reordered]
  | array items ih =>
    cases b with
    | array items' =>
      simp only [Keyed, keyedItems_iff] at ha hb
      have hstep : ∀ ordered : List JsonValue, ordered.Perm items' →
          (items.map (canonical toText) = ordered.map (canonical toText) ↔
            ReorderedItems items ordered) := by
        intro ordered hperm
        rw [map_eq_map_iff_forall₂, reorderedItems_iff]
        apply forall₂_congr_mem
        intro v hv v' hv'
        have hmem : v' ∈ items' := hperm.mem_iff.mp hv'
        exact ih v hv (ha v hv) (hb v' hmem) (hsep.item hv hmem)
      rw [canonical_array_eq_iff hsep]
      simp only [Reordered, JsonValue.array.injEq]
      constructor
      · rintro ⟨ordered, hperm, hsame⟩
        exact ⟨items', ordered, rfl, hperm, (hstep ordered hperm).mp hsame⟩
      · rintro ⟨_, ordered, rfl, hperm, hmatch⟩
        exact ⟨ordered, hperm, (hstep ordered hperm).mpr hmatch⟩
    | _ => simp [canonical, Reordered]
  | object members ih =>
    cases b with
    | object members' =>
      obtain ⟨hsorted, hbelow⟩ := ha
      obtain ⟨hsorted', hbelow'⟩ := hb
      rw [keyedMembers_iff] at hbelow hbelow'
      rw [canonical_object_eq_iff hsorted hsorted']
      have hmembers : ∀ m ∈ members, ∀ v', (m.1, v') ∈ members' →
          (canonical toText m.2 = canonical toText v' ↔ Reordered m.2 v') :=
        fun m hm v' hv' => ih m hm (hbelow m hm) (hbelow' _ hv') (hsep.member hm hv')
      simp only [Reordered, JsonValue.object.injEq, reorderedMembers_iff]
      constructor
      · rintro ⟨hkeys, hsame⟩
        refine ⟨members', rfl, hkeys, fun m hm => ?_⟩
        obtain ⟨v', hv', hvalue⟩ := hsame m hm
        exact ⟨v', hv', (hmembers m hm v' hv').mp hvalue⟩
      · rintro ⟨_, rfl, hkeys, hmatch⟩
        refine ⟨hkeys, fun m hm => ?_⟩
        obtain ⟨v', hv', hvalue⟩ := hmatch m hm
        exact ⟨v', hv', (hmembers m hm v' hv').mpr hvalue⟩
    | _ => simp [canonical, Reordered]

end Invariant

/-! ### What a guard makes of it -/

section Guard

variable {W : Type} (views : Views W) (toText : JsonValue → String) (p : SnapshotPolicy)

/-- The guard of a sync that began with the contents `before` and found no earlier intent. -/
def syncGuard (mutated : Bool) (before : W) : RgbWalletGuard JsonValue :=
  ⟨mutated, some (some (views.syncSnapshotInner toText before), false)⟩

/-- The guard takes its own intent back. -/
def takeBack (mutated : Bool) : Run W Bool := do
  return !(← tried p.clearUnchangedIntent).isOk && mutated

/-- A guard that reads the views again compares the two canonical forms. -/
theorem settle_syncGuard (mutated : Bool) (before : W) (w : World W) (n : ℕ) (ds : Schedule) :
    (syncGuard views toText mutated before).settle (views.syncSnapshotInner toText) p false w
        (⟨.proceed, n⟩ :: ds) =
      if views.syncSnapshotInner toText w.wallet = views.syncSnapshotInner toText before then
        takeBack p mutated w ds
      else (.ok mutated, w, ds) := by
  have hread : syncSnapshot (views.syncSnapshotInner toText) w (⟨.proceed, n⟩ :: ds) =
      (.ok (some (views.syncSnapshotInner toText w.wallet)), w, ds) := rfl
  change (do
    if (← syncSnapshot (views.syncSnapshotInner toText)) =
        some (views.syncSnapshotInner toText before) then takeBack p mutated
    else return mutated : Run W Bool) w (⟨.proceed, n⟩ :: ds) = _
  rw [Proc.bind_of_ok hread]
  by_cases hsame : views.syncSnapshotInner toText w.wallet = views.syncSnapshotInner toText before
  · rw [if_pos hsame, if_pos (congrArg some hsame)]
  · rw [if_neg hsame, if_neg fun h => hsame (Option.some.inj h)]
    rfl

/-- The canonical form tells two values apart exactly if they differ by more than the order of the
items of their arrays, and has itself as its canonical form. So a sync whose views can be read
takes its intent back if they were only reordered, and stays a change if they were not. -/
theorem syncView_complete :
    (∀ a b : JsonValue, Keyed a → Keyed b → Separates toText a b →
      (canonical toText a = canonical toText b ↔ Reordered a b)) ∧
    (∀ v : JsonValue, canonical toText (canonical toText v) = canonical toText v) ∧
    ∀ (mutated : Bool) (before : W) (w : World W) (n : ℕ) (ds : Schedule),
      Keyed (views.state before) → Keyed (views.state w.wallet) →
      Separates toText (views.state w.wallet) (views.state before) →
      (Reordered (views.state w.wallet) (views.state before) →
        (syncGuard views toText mutated before).settle (views.syncSnapshotInner toText) p false w
          (⟨.proceed, n⟩ :: ds) = takeBack p mutated w ds) ∧
      (¬Reordered (views.state w.wallet) (views.state before) →
        (syncGuard views toText mutated before).settle (views.syncSnapshotInner toText) p false w
          (⟨.proceed, n⟩ :: ds) = (.ok mutated, w, ds)) := by
  refine ⟨fun a b ha hb hsep => canonical_eq_iff ha hb hsep, canonical_canonical toText, ?_⟩
  intro mutated before w n ds hbefore hafter hsep
  have hview := canonical_eq_iff hafter hbefore hsep
  rw [settle_syncGuard]
  constructor
  · intro h
    exact if_pos (hview.mpr h)
  · intro h
    exact if_neg fun hsame => h (hview.mp hsame)

end Guard

/-! ### A compact printer -/

mutual

def compact : JsonValue → List Char
  | .null => "null".toList
  | .bool b => Text.printBool b
  | .number (.posInt n) => Text.printNat n.toNat
  | .number (.negInt n) => Text.printInt n.toInt
  | .number (.float text) => text.toList
  | .string s => Text.printString s
  | .array [] => ['[', ']']
  | .array (v :: items) => '[' :: (compact v ++ compactItems items)
  | .object [] => ['\x7b', '\x7d']
  | .object ((key, v) :: members) =>
    '\x7b' :: (Text.printString key ++ ':' :: (compact v ++ compactMembers members))

def compactItems : List JsonValue → List Char
  | [] => [']']
  | v :: items => ',' :: (compact v ++ compactItems items)

def compactMembers : List (String × JsonValue) → List Char
  | [] => ['\x7d']
  | (key, v) :: members =>
    ',' :: (Text.printString key ++ ':' :: (compact v ++ compactMembers members))

end

def compactText (v : JsonValue) : String := String.ofList (compact v)

/-- A wallet is the list of its transaction names, which is all that is listed. -/
def sampleViews : Views (List String) where
  balance wallet := .object [("settled", .number (.posInt (.ofNat wallet.length)))]
  transactions wallet := .array (wallet.map .string)
  unspents _ := .array []

/-- The world after a sync that lists the same transactions the other way round. -/
def sampleListed : World (List String) where
  tree := .empty
  flags := ⟨true, false, false, true⟩
  remote := ⟨none, none⟩
  wallet := ["b2", "a1"]
  log := []

theorem sampleViews_keyed (wallet : List String) : Keyed (sampleViews.state wallet) := by
  have hnames : ∀ v ∈ wallet.map JsonValue.string, Keyed v := by
    intro v hv
    obtain ⟨s, _, rfl⟩ := List.mem_map.mp hv
    trivial
  simpa [Views.state, sampleViews, Keyed, KeyedItems, KeyedMembers, SortedKeys] using
    keyedItems_iff.mpr hnames

theorem sampleViews_separated :
    Separates compactText (sampleViews.state ["b2", "a1"]) (sampleViews.state ["a1", "b2"]) := by
  have hall : ∀ u ∈ compared compactText (sampleViews.state ["b2", "a1"]) ++
        compared compactText (sampleViews.state ["a1", "b2"]),
      ∀ v ∈ compared compactText (sampleViews.state ["b2", "a1"]) ++
        compared compactText (sampleViews.state ["a1", "b2"]),
      compactText u = compactText v → u = v := by
    decide
  intro u hu v hv
  exact hall u (List.mem_append.mpr hu) v (List.mem_append.mpr hv)

theorem syncView_complete_sample :
    (syncGuard sampleViews compactText true ["a1", "b2"]).settle
      (sampleViews.syncSnapshotInner compactText) sample false sampleListed [⟨.proceed, 0⟩] =
      takeBack sample true sampleListed [] := by
  obtain ⟨hcomplete, -, hsettle⟩ := syncView_complete sampleViews compactText sample
  have hkeyed := sampleViews_keyed ["a1", "b2"]
  have hkeyed' := sampleViews_keyed ["b2", "a1"]
  have hreordered := (hcomplete _ _ hkeyed' hkeyed sampleViews_separated).mp (by decide)
  exact (hsettle true ["a1", "b2"] sampleListed 0 [] hkeyed hkeyed' sampleViews_separated).1
    hreordered

end RgbLightningNode.Snapshot
