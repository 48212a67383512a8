import Mathlib.Algebra.Ring.Nat
import Mathlib.Data.Nat.Digits.Defs
import RgbLightningNode.Android.Metadata

/-!
# The two decoders of the dynamic segment

The staging scripts read the dynamic segment into a table, and the validator of linked artifacts
looks for one flag in it. Both decode the bytes that the metadata points at, up to the first
DT_NULL entry.
-/

namespace RgbLightningNode.Android
open Number

/-! ### Files and buffers -/

/-- The position or the length that a checked number stands for. -/
def position (d : Double) : ℕ := d.toNatural.getD 0

/-- The bytes that `fs.readSync` reads at a position, at most `size` of them. -/
def readSync (contents : List UInt8) (size offset : ℕ) : List UInt8 :=
  (contents.drop offset).take size

def littleEndian (bytes : List UInt8) : ℕ := Nat.ofDigits 256 (bytes.map UInt8.toNat)

/-- `readUInt32LE` and `readBigUInt64LE`, by the number of bytes they read. -/
def readUIntLE (bytes : List UInt8) (start width : ℕ) : Except String ℕ :=
  if start + width ≤ bytes.length then .ok (littleEndian ((bytes.drop start).take width))
  else .error "ERR_OUT_OF_RANGE"

/-- The values of a counter that starts at zero and grows by `stride` below `size`. -/
def positions (size stride : ℕ) : List ℕ :=
  (List.range ((size + stride - 1) / stride)).map (· * stride)

/-! ### The table of the staging scripts -/

/-- The values of each tag, the tags in the order of their first entries. -/
abbrev Table := List (ℕ × List ℕ)

namespace Table

def get (table : Table) (tag : ℕ) : Option (List ℕ) := table.lookup tag

def push : Table → ℕ → ℕ → Table
  | [], tag, value => [(tag, [value])]
  | (key, values) :: table, tag, value =>
    if key = tag then (key, values ++ [value]) :: table else (key, values) :: push table tag value

def pushAll (table : Table) (es : List (ℕ × ℕ)) : Table :=
  es.foldl (fun table e => table.push e.1 e.2) table

theorem get_push (table : Table) (tag value key : ℕ) : (table.push tag value).get key =
    if key = tag then some ((table.get tag).getD [] ++ [value]) else table.get key := by
  induction table with
  | nil =>
    by_cases hkey : key = tag
    · simp [push, get, hkey]
    · simp [push, get, List.lookup_cons, beq_eq_false_iff_ne.mpr hkey, hkey]
  | cons row table ih =>
    obtain ⟨other, values⟩ := row
    simp only [get] at ih ⊢
    by_cases hother : other = tag
    · by_cases hkey : key = tag
      · simp [push, hother, hkey]
      · simp [push, hother, hkey, List.lookup_cons, beq_eq_false_iff_ne.mpr hkey]
    · by_cases hkey : key = other
      · simp [push, hkey, hother]
      · have htag : (tag == other) = false := by simpa using Ne.symm hother
        simp only [push, if_neg hother, List.lookup_cons, beq_eq_false_iff_ne.mpr hkey, ih, htag]

end Table

def readEntries (bytes : List UInt8) (width : ℕ) : List ℕ → Table → Except String Table
  | [], _ => .error "Android staging: dynamic segment lacks DT_NULL"
  | start :: rest, entries => do
    let tag ← readUIntLE bytes start width
    let value ← readUIntLE bytes (start + width) width
    if tag = 0 then return entries
    else readEntries bytes width rest (entries.push tag value)

def readDynamic (contents : List UInt8) (elf : Elf) : Except String Table :=
  match elf.programHeaders.map fun headers => ofType headers "PT_DYNAMIC" with
  | some [header] => do
    let offset := header.offset
    let size := header.fileSize
    ensure (elf.addressSize = some "32bit" || elf.addressSize = some "64bit")
      "unsupported ELF address size"
    let width := if elf.addressSize = some "64bit" then 8 else 4
    ensure (integer offset && integer size && (Double.natural 0).lt size &&
        size.le (Double.natural (1024 * 1024)) &&
        (size.rem (Double.natural (width * 2))).isZero && integer (offset.add size) &&
        (offset.add size).le (Double.natural contents.length)) "invalid dynamic bounds"
    let bytes := readSync contents (position size) (position offset)
    ensure (bytes.length = position size) "truncated dynamic segment"
    readEntries bytes width (positions (position size) (width * 2)) []
  | _ => .error "Android staging: expected one dynamic segment"

/-! ### The validator of linked artifacts -/

def flags1 : ℕ := 0x6ffffffb

/-- One round of the loop, before it goes on with the flags found so far. -/
def scanEntry (tag value : ℕ) (flags : Option ℕ) (next : Option ℕ → Except String Unit) :
    Except String Unit :=
  if tag = 0 then
    match flags with
    | some flags =>
      if flags &&& 8 = 0 then .error "Android Rust addon requires DF_1_NODELETE" else .ok ()
    | none => .error "Android Rust addon requires DF_1_NODELETE"
  else if tag = flags1 then
    match flags with
    | some _ => .error "Duplicate Android ELF DT_FLAGS_1"
    | none => next (some value)
  else next flags

def scanEntries (bytes : List UInt8) (size64 : Bool) : List ℕ → Option ℕ → Except String Unit
  | [], _ => .error "Android ELF dynamic segment lacks DT_NULL"
  | start :: rest, flags => do
    let tag ← if size64 then readUIntLE bytes start 8 else readUIntLE bytes start 4
    let value ← if size64 then readUIntLE bytes (start + 8) 8 else readUIntLE bytes (start + 4) 4
    scanEntry tag value flags fun flags => scanEntries bytes size64 rest flags

def validateAndroidLifetime (output : Output) (contents : List UInt8) : Except String Unit :=
  match output with
  | some [elf] =>
    let size64 := elf.addressSize = some "64bit"
    let size32 := elf.addressSize = some "32bit"
    match elf.programHeaders.map fun headers => ofType headers "PT_DYNAMIC" with
    | some [header] =>
      let offset := header.offset
      let size := header.fileSize
      let width := if size64 then 16 else 8
      let ident := readSync contents 16 0
      if ¬ size64 ∧ ¬ size32 then .error "Missing Android ELF dynamic segment"
      else if !offset.isSafeInteger || offset.lt (Double.natural 16) || !size.isSafeInteger ||
          size.lt (Double.natural width) || (Double.natural (1024 * 1024)).lt size ||
          !(size.rem (Double.natural width)).isZero || !(offset.add size).isSafeInteger then
        .error "Invalid Android ELF dynamic bounds"
      else if (Double.natural contents.length).lt (offset.add size) then
        .error "Truncated Android ELF dynamic segment"
      else if ident.length ≠ 16 ∨ littleEndian (ident.take 4).reverse ≠ 0x7f454c46 ∨
          ident[4]? ≠ some (if size64 then 2 else 1) ∨ ident[5]? ≠ some 1 then
        .error "Invalid Android ELF encoding"
      else
        let bytes := readSync contents (position size) (position offset)
        if bytes.length ≠ position size then .error "Truncated Android ELF dynamic segment"
        else scanEntries bytes size64 (positions bytes.length width) none
    | _ => .error "Missing Android ELF dynamic segment"
  | _ => .error "Invalid Android ELF metadata"

/-! ### The entries of a segment -/

def entryAt (contents : List UInt8) (width start : ℕ) : ℕ × ℕ :=
  (littleEndian ((contents.drop start).take width),
    littleEndian ((contents.drop (start + width)).take width))

/-- The tags and values of a segment. -/
def entries (contents : List UInt8) (width offset size : ℕ) : List (ℕ × ℕ) :=
  (positions size (width * 2)).map fun start => entryAt contents width (offset + start)

/-- The entries that precede the first DT_NULL. -/
def live (es : List (ℕ × ℕ)) : List (ℕ × ℕ) := es.takeWhile fun e => e.1 ≠ 0

def Terminated (es : List (ℕ × ℕ)) : Prop := ∃ e ∈ es, e.1 = 0

instance (es : List (ℕ × ℕ)) : Decidable (Terminated es) :=
  inferInstanceAs (Decidable (∃ e ∈ es, e.1 = 0))

def valuesOf (tag : ℕ) (es : List (ℕ × ℕ)) : List ℕ := (es.filter fun e => e.1 = tag).map Prod.snd

/-- Collecting decoded entries. -/
def collect : List (ℕ × ℕ) → Table → Except String Table
  | [], _ => .error "Android staging: dynamic segment lacks DT_NULL"
  | (tag, value) :: es, table =>
    if tag = 0 then .ok table else collect es (table.push tag value)

/-- Scanning decoded entries. -/
def scan : List (ℕ × ℕ) → Option ℕ → Except String Unit
  | [], _ => .error "Android ELF dynamic segment lacks DT_NULL"
  | (tag, value) :: es, flags => scanEntry tag value flags fun flags => scan es flags

theorem valuesOf_cons (tag : ℕ) (e : ℕ × ℕ) (es : List (ℕ × ℕ)) :
    valuesOf tag (e :: es) = if e.1 = tag then e.2 :: valuesOf tag es else valuesOf tag es := by
  by_cases h : e.1 = tag <;> simp [valuesOf, h]

theorem live_cons (e : ℕ × ℕ) (es : List (ℕ × ℕ)) :
    live (e :: es) = if e.1 = 0 then [] else e :: live es := by
  by_cases h : e.1 = 0 <;> simp [live, h]

theorem terminated_cons (e : ℕ × ℕ) (es : List (ℕ × ℕ)) :
    Terminated (e :: es) ↔ e.1 = 0 ∨ Terminated es := by
  simp [Terminated]

theorem Table.get_pushAll (table : Table) (es : List (ℕ × ℕ)) (tag : ℕ) :
    (table.pushAll es).get tag = if valuesOf tag es = [] then table.get tag
      else some ((table.get tag).getD [] ++ valuesOf tag es) := by
  induction es generalizing table with
  | nil => rfl
  | cons e es ih =>
    have hnext : table.pushAll (e :: es) = (table.push e.1 e.2).pushAll es := rfl
    rw [hnext, ih, get_push, valuesOf_cons]
    by_cases htag : tag = e.1
    · subst htag
      by_cases hvalues : valuesOf e.1 es = [] <;> simp [hvalues]
    · simp only [if_neg htag, if_neg (Ne.symm htag)]

theorem collect_eq_ok {es : List (ℕ × ℕ)} {table table' : Table} :
    collect es table = .ok table' ↔ Terminated es ∧ table' = table.pushAll (live es) := by
  induction es generalizing table with
  | nil => simp [collect, Terminated]
  | cons e es ih =>
    obtain ⟨tag, value⟩ := e
    rw [collect, terminated_cons, live_cons]
    by_cases htag : tag = 0
    · simp [htag, Table.pushAll, eq_comm]
    · rw [if_neg htag, if_neg htag, ih, or_iff_right htag]
      rfl

/-- A scan accepts one value of the flags with the retention bit. -/
theorem scan_eq_ok {es : List (ℕ × ℕ)} {flags : Option ℕ} : scan es flags = .ok () ↔
    Terminated es ∧ ∃ v, flags.toList ++ valuesOf flags1 (live es) = [v] ∧ v &&& 8 ≠ 0 := by
  induction es generalizing flags with
  | nil => simp [scan, Terminated]
  | cons e es ih =>
    obtain ⟨tag, value⟩ := e
    rw [scan, terminated_cons, live_cons]
    by_cases htag : tag = 0
    · cases flags with
      | none => simp [scanEntry, htag, valuesOf]
      | some flags => by_cases hbit : flags &&& 8 = 0 <;> simp [scanEntry, htag, valuesOf, hbit]
    · rw [if_neg htag, or_iff_right htag, valuesOf_cons]
      by_cases hflags : tag = flags1
      · rw [if_pos hflags]
        cases flags with
        | none => simp [scanEntry, hflags, flags1, ih]
        | some flags => simp [scanEntry, hflags, flags1]
      · simp only [scanEntry, if_neg htag, if_neg hflags, ih]

/-- What stands behind the first DT_NULL. -/
theorem Terminated.split {es : List (ℕ × ℕ)} (h : Terminated es) :
    ∃ value rest, es = live es ++ (0, value) :: rest := by
  induction es with
  | nil =>
    obtain ⟨e, he, -⟩ := h
    cases he
  | cons e es ih =>
    obtain ⟨tag, value⟩ := e
    rw [live_cons]
    by_cases htag : tag = 0
    · exact ⟨value, es, by simp [htag]⟩
    · obtain ⟨value', rest, hrest⟩ := ih (((terminated_cons _ _).mp h).resolve_left htag)
      refine ⟨value', rest, ?_⟩
      rw [if_neg htag, List.cons_append, ← hrest]

theorem collect_stops (front rest rest' : List (ℕ × ℕ)) (value value' : ℕ) (table : Table) :
    collect (front ++ (0, value) :: rest) table =
      collect (front ++ (0, value') :: rest') table := by
  induction front generalizing table with
  | nil => rfl
  | cons e front ih =>
    simp only [List.cons_append, collect, ih]

theorem scan_stops (front rest rest' : List (ℕ × ℕ)) (value value' : ℕ) (flags : Option ℕ) :
    scan (front ++ (0, value) :: rest) flags = scan (front ++ (0, value') :: rest') flags := by
  induction front generalizing flags with
  | nil => rfl
  | cons e front ih =>
    simp only [List.cons_append, scan, ih]

/-- Entries that agree up to the first DT_NULL are collected and scanned alike. -/
theorem Terminated.influence {es es' : List (ℕ × ℕ)} (h : Terminated es)
    (hsame : es'.take ((live es).length + 1) = es.take ((live es).length + 1)) :
    collect es' [] = collect es [] ∧ scan es' none = scan es none := by
  obtain ⟨value, rest, hsplit⟩ := h.split
  generalize live es = front at hsplit hsame
  have hfront : es.take (front.length + 1) = front ++ [(0, value)] := by
    rw [hsplit, List.append_cons]
    exact List.take_left' (by simp)
  have hsplit' : es' = front ++ (0, value) :: es'.drop (front.length + 1) := by
    conv_lhs => rw [← List.take_append_drop (front.length + 1) es', hsame, hfront]
    exact (List.append_cons _ _ _).symm
  rw [hsplit', hsplit]
  exact ⟨collect_stops _ _ _ _ _ _, scan_stops _ _ _ _ _ _⟩

theorem Table.get_single {es : List (ℕ × ℕ)} {tag value : ℕ} :
    (Table.pushAll [] es).get tag = some [value] ↔ valuesOf tag es = [value] := by
  rw [get_pushAll]
  by_cases h : valuesOf tag es = [] <;> simp [h, get]

section Decoding

variable {contents : List UInt8} {width offset size : ℕ}

theorem mem_positions {stride start : ℕ} (hstride : 0 < stride) (hwhole : stride ∣ size)
    (h : start ∈ positions size stride) : start + stride ≤ size := by
  obtain ⟨count, rfl⟩ := hwhole
  obtain ⟨i, hi, rfl⟩ := List.mem_map.mp h
  rw [List.mem_range, Nat.add_sub_assoc hstride, Nat.mul_add_div hstride,
    Nat.div_eq_of_lt (Nat.sub_lt hstride Nat.one_pos), Nat.add_zero] at hi
  calc i * stride + stride = stride * (i + 1) := by ring
    _ ≤ stride * count := Nat.mul_le_mul_left _ hi

theorem length_readSync (h : offset + size ≤ contents.length) :
    (readSync contents size offset).length = size := by
  rw [readSync, List.length_take, List.length_drop]
  omega

theorem readUIntLE_readSync (h : offset + size ≤ contents.length) {start : ℕ}
    (hstart : start + width ≤ size) : readUIntLE (readSync contents size offset) start width =
      .ok (littleEndian ((contents.drop (offset + start)).take width)) := by
  rw [readUIntLE, if_pos (by rw [length_readSync h]; exact hstart), readSync, List.drop_take,
    List.take_take, List.drop_drop, Nat.min_eq_left (by omega)]

/-- The bytes of a segment in whole entries are all readable. -/
theorem readEntries_eq (hwidth : 0 < width) (h : offset + size ≤ contents.length)
    (hwhole : width * 2 ∣ size) (table : Table) :
    readEntries (readSync contents size offset) width (positions size (width * 2)) table =
      collect (entries contents width offset size) table := by
  have hstarts : ∀ start ∈ positions size (width * 2), start + width * 2 ≤ size :=
    fun start hstart => mem_positions (by omega) hwhole hstart
  unfold entries
  generalize positions size (width * 2) = starts at hstarts
  induction starts generalizing table with
  | nil => rfl
  | cons start starts ih =>
    obtain ⟨hstart, hrest⟩ := List.forall_mem_cons.mp hstarts
    rw [readEntries, readUIntLE_readSync h (by omega), readUIntLE_readSync h (by omega),
      List.map_cons, entryAt, collect, ← Nat.add_assoc]
    change (if _ then _ else _) = _
    split
    · rfl
    · exact ih _ hrest

theorem scanEntries_eq {size64 : Bool} (hwidth : width = if size64 then 8 else 4)
    (h : offset + size ≤ contents.length) (hwhole : width * 2 ∣ size) (flags : Option ℕ) :
    scanEntries (readSync contents size offset) size64 (positions size (width * 2)) flags =
      scan (entries contents width offset size) flags := by
  have hpos : 0 < width := by
    rw [hwidth]
    split <;> omega
  have hstarts : ∀ start ∈ positions size (width * 2), start + width * 2 ≤ size :=
    fun start hstart => mem_positions (by omega) hwhole hstart
  unfold entries
  generalize positions size (width * 2) = starts at hstarts
  induction starts generalizing flags with
  | nil => rfl
  | cons start starts ih =>
    obtain ⟨hstart, hrest⟩ := List.forall_mem_cons.mp hstarts
    have htag := @readUIntLE_readSync contents width offset size h start (by omega)
    have hvalue := @readUIntLE_readSync contents width offset size h (start + width) (by omega)
    have hread : scanEntries (readSync contents size offset) size64 (start :: starts) flags =
        (do
          let tag ← readUIntLE (readSync contents size offset) start width
          let value ← readUIntLE (readSync contents size offset) (start + width) width
          scanEntry tag value flags fun flags =>
            scanEntries (readSync contents size offset) size64 starts flags) := by
      rw [hwidth]
      cases size64 <;> rfl
    have hnext := funext fun flags => ih flags hrest
    rw [hread, htag, hvalue, List.map_cons, entryAt, scan, ← Nat.add_assoc]
    exact congrArg (scanEntry _ _ flags) hnext

end Decoding

/-! ### Both decoders -/

/-- Metadata that names one dynamic segment in a file of words of `width` bytes. -/
structure Names (elf : Elf) (header : ProgramHeader) (width : ℕ) : Prop where
  one : elf.programHeaders.map (fun headers => ofType headers "PT_DYNAMIC") = some [header]
  word : elf.addressSize = some "64bit" ∧ width = 8 ∨ elf.addressSize = some "32bit" ∧ width = 4
  start : (Double.natural 16).le header.offset = true

/-- The identification of a little-endian file of words of `width` bytes. -/
structure HasIdent (contents : List UInt8) (width : ℕ) : Prop where
  length : 16 ≤ contents.length
  magic : contents.take 4 = [0x7f, 0x45, 0x4c, 0x46]
  wordClass : contents[4]? = some (if width = 8 then 2 else 1)
  encoding : contents[5]? = some 1

/-- What the bounds of a segment have to be in a file of a given length. -/
structure Located (header : ProgramHeader) (width length offset size : ℕ) : Prop where
  offset_eq : header.offset.value = some (offset : ℚ)
  size_eq : header.fileSize.value = some (size : ℚ)
  nonempty : 0 < size
  bounded : size ≤ 1024 * 1024
  whole : width * 2 ∣ size
  inside : offset + size ≤ length

section Validators

variable {contents : List UInt8} {elf : Elf} {header : ProgramHeader} {width offset size : ℕ}

theorem Names.width_pos (h : Names elf header width) : 0 < width := by
  rcases h.word with ⟨-, rfl⟩ | ⟨-, rfl⟩ <;> norm_num

theorem Names.width_le (h : Names elf header width) : width ≤ 8 := by
  rcases h.word with ⟨-, rfl⟩ | ⟨-, rfl⟩ <;> norm_num

theorem Located.natural {length : ℕ} (h : Located header width length offset size)
    (hexact : offset + size ≤ Double.maxSafeInteger) :
    header.offset.IsNatural offset ∧ header.fileSize.IsNatural size :=
  ⟨⟨h.offset_eq, by omega⟩, ⟨h.size_eq, by omega⟩⟩

theorem Located.unique {length offset' size' : ℕ} (h : Located header width length offset size)
    (h' : Located header width length offset' size') : offset = offset' ∧ size = size' :=
  ⟨by exact_mod_cast Option.some.inj (h.offset_eq.symm.trans h'.offset_eq),
    by exact_mod_cast Option.some.inj (h.size_eq.symm.trans h'.size_eq)⟩

theorem small_safe {n : ℕ} (h : n ≤ 1024 * 1024) : n ≤ Double.maxSafeInteger := by
  rw [Double.maxSafeInteger]
  omega

theorem Names.offset_le (h : Names elf header width) (hoffset : header.offset.IsNatural offset) :
    16 ≤ offset :=
  (Double.le_iff (Double.isNatural_natural (small_safe (by norm_num))) hoffset).mp h.start

theorem Names.stride (h : Names elf header width) :
    (Double.natural (width * 2)).IsNatural (width * 2) ∧ 0 < width * 2 := by
  have hle := h.width_le
  have hpos := h.width_pos
  exact ⟨Double.isNatural_natural (small_safe (by omega)), by omega⟩

/-- The bounds that the staging scripts admit. -/
theorem dynamicBounds_iff (h : Names elf header width) :
    (integer header.offset && integer header.fileSize &&
      (Double.natural 0).lt header.fileSize &&
      header.fileSize.le (Double.natural (1024 * 1024)) &&
      (header.fileSize.rem (Double.natural (width * 2))).isZero &&
      integer (header.offset.add header.fileSize) &&
      (header.offset.add header.fileSize).le (Double.natural contents.length)) = true ↔
    ∃ offset size, Located header width contents.length offset size ∧
      offset + size ≤ Double.maxSafeInteger := by
  obtain ⟨hstride, hpos⟩ := h.stride
  simp only [Bool.and_eq_true, integer_iff]
  constructor
  · rintro ⟨⟨⟨⟨⟨⟨⟨offset, hoffset⟩, ⟨size, hsize⟩⟩, hnonempty⟩, hbounded⟩, hwhole⟩, ⟨k, hk⟩⟩,
      hinside⟩
    have hsum := (Double.isNatural_add_iff hoffset hsize).mp hk
    rw [Double.natural_lt_iff hsize] at hnonempty
    rw [Double.le_natural_iff hsize] at hbounded
    rw [Double.isZero_rem_natural_iff hsize hstride hpos] at hwhole
    rw [Double.le_natural_iff hk, hsum.1] at hinside
    exact ⟨offset, size, ⟨hoffset.1, hsize.1, hnonempty, hbounded, hwhole, hinside⟩, hsum.2⟩
  · rintro ⟨offset, size, hlocated, hexact⟩
    obtain ⟨hoffset, hsize⟩ := hlocated.natural hexact
    have hsum := (Double.isNatural_add_iff hoffset hsize).mpr ⟨rfl, hexact⟩
    exact ⟨⟨⟨⟨⟨⟨⟨offset, hoffset⟩, ⟨size, hsize⟩⟩,
      (Double.natural_lt_iff hsize).mpr hlocated.nonempty⟩,
      (Double.le_natural_iff hsize).mpr hlocated.bounded⟩,
      (Double.isZero_rem_natural_iff hsize hstride hpos).mpr hlocated.whole⟩, ⟨_, hsum⟩⟩,
      (Double.le_natural_iff hsum).mpr hlocated.inside⟩

/-- The bounds that the validator of linked artifacts admits are the same. -/
theorem lifetimeBounds_iff (h : Names elf header width) :
    ((!header.offset.isSafeInteger || header.offset.lt (Double.natural 16) ||
        !header.fileSize.isSafeInteger || header.fileSize.lt (Double.natural (width * 2)) ||
        (Double.natural (1024 * 1024)).lt header.fileSize ||
        !(header.fileSize.rem (Double.natural (width * 2))).isZero ||
        !(header.offset.add header.fileSize).isSafeInteger) = false ∧
      (Double.natural contents.length).lt (header.offset.add header.fileSize) = false) ↔
    ∃ offset size, Located header width contents.length offset size ∧
      offset + size ≤ Double.maxSafeInteger := by
  obtain ⟨hstride, hpos⟩ := h.stride
  have hsixteen : (Double.natural 16).IsNatural 16 :=
    Double.isNatural_natural (small_safe (by omega))
  simp only [Bool.or_eq_false_iff, Bool.not_eq_false']
  constructor
  · rintro ⟨⟨⟨⟨⟨⟨⟨hoffset, hstart⟩, hsize⟩, hnonempty⟩, hbounded⟩, hwhole⟩, hexact⟩, hinside⟩
    obtain ⟨offset, hoffset, -⟩ := Double.exists_natural hoffset hsixteen.2 hstart
    obtain ⟨size, hsize, hle⟩ := Double.exists_natural hsize hstride.2 hnonempty
    rw [Double.isSafeInteger_add_iff hoffset hsize] at hexact
    have hsum := (Double.isNatural_add_iff hoffset hsize).mpr ⟨rfl, hexact⟩
    rw [← Bool.not_eq_true, Double.natural_lt_iff hsize, not_lt] at hbounded
    rw [Double.isZero_rem_natural_iff hsize hstride hpos] at hwhole
    rw [← Bool.not_eq_true, Double.natural_lt_iff hsum, not_lt] at hinside
    exact ⟨offset, size, ⟨hoffset.1, hsize.1, by omega, hbounded, hwhole, hinside⟩, hexact⟩
  · rintro ⟨offset, size, hlocated, hexact⟩
    obtain ⟨hoffset, hsize⟩ := hlocated.natural hexact
    have hsum := (Double.isNatural_add_iff hoffset hsize).mpr ⟨rfl, hexact⟩
    have hstart := (Double.le_iff hsixteen hoffset).mp h.start
    have hle : width * 2 ≤ size := Nat.le_of_dvd hlocated.nonempty hlocated.whole
    refine ⟨⟨⟨⟨⟨⟨⟨hoffset.isSafeInteger, ?_⟩, hsize.isSafeInteger⟩, ?_⟩, ?_⟩, ?_⟩, ?_⟩, ?_⟩
    · rw [← Bool.not_eq_true, Double.lt_iff hoffset hsixteen]
      omega
    · rw [← Bool.not_eq_true, Double.lt_iff hsize hstride]
      omega
    · rw [← Bool.not_eq_true, Double.natural_lt_iff hsize, not_lt]
      exact hlocated.bounded
    · exact (Double.isZero_rem_natural_iff hsize hstride hpos).mpr hlocated.whole
    · exact (Double.isSafeInteger_add_iff hoffset hsize).mpr hexact
    · rw [← Bool.not_eq_true, Double.natural_lt_iff hsum, not_lt]
      exact hlocated.inside

theorem position_eq {d : Double} {n : ℕ} (h : d.IsNatural n) : position d = n := by
  rw [position, Double.toNatural_eq_some.mpr h, Option.getD_some]

theorem ensure_bind {condition : Bool} {message : String} {α : Type} {next : Except String α}
    (h : condition = true) : (do ensure condition message; next) = next := by
  rw [ensure, if_pos h]
  rfl

theorem ensure_bind_error {condition : Bool} {message : String} {α : Type} {next : Except String α}
    (h : ¬ condition = true) :
    (do ensure condition message; next) = .error ("Android staging: " ++ message) := by
  rw [ensure, if_neg h]
  rfl

theorem Names.word_eq (h : Names elf header width) :
    (elf.addressSize = some "32bit" || elf.addressSize = some "64bit") = true ∧
      (if elf.addressSize = some "64bit" then 8 else 4) = width := by
  rcases h.word with ⟨hsize, rfl⟩ | ⟨hsize, rfl⟩ <;> simp [hsize]

theorem Names.readDynamic_located (h : Names elf header width)
    (hlocated : Located header width contents.length offset size)
    (hexact : offset + size ≤ Double.maxSafeInteger) :
    readDynamic contents elf = collect (entries contents width offset size) [] := by
  obtain ⟨hoffset, hsize⟩ := hlocated.natural hexact
  have hbounds := (dynamicBounds_iff h).mpr ⟨offset, size, hlocated, hexact⟩
  have hlength := length_readSync hlocated.inside
  unfold readDynamic
  simp only [h.one, h.word_eq.2]
  rw [ensure_bind h.word_eq.1, ensure_bind hbounds, position_eq hoffset, position_eq hsize,
    ensure_bind (by simpa using hlength)]
  exact readEntries_eq h.width_pos hlocated.inside hlocated.whole []

theorem Names.readDynamic_unlocated (h : Names elf header width)
    (hnone : ¬ ∃ offset size, Located header width contents.length offset size ∧
      offset + size ≤ Double.maxSafeInteger) :
    readDynamic contents elf = .error "Android staging: invalid dynamic bounds" := by
  unfold readDynamic
  simp only [h.one, h.word_eq.2]
  rw [ensure_bind h.word_eq.1, ensure_bind_error (mt (dynamicBounds_iff h).mp hnone)]
  rfl

theorem HasIdent.checked (hident : HasIdent contents width) :
    (readSync contents 16 0).length = 16 ∧
      littleEndian ((readSync contents 16 0).take 4).reverse = 0x7f454c46 ∧
      (readSync contents 16 0)[4]? = some (if width = 8 then 2 else 1) ∧
      (readSync contents 16 0)[5]? = some 1 := by
  refine ⟨length_readSync (by simpa using hident.length), ?_, ?_, ?_⟩
  · rw [readSync, List.drop_zero, List.take_take, Nat.min_eq_left (by norm_num), hident.magic]
    decide
  · rw [readSync, List.drop_zero, List.getElem?_take_of_lt (by norm_num), hident.wordClass]
  · rw [readSync, List.drop_zero, List.getElem?_take_of_lt (by norm_num), hident.encoding]

theorem Names.size64_iff (h : Names elf header width) :
    (elf.addressSize = some "64bit" ↔ width = 8) ∧
      ¬ (¬ width = 8 ∧ ¬ elf.addressSize = some "32bit") ∧
      (if width = 8 then 16 else 8) = width * 2 ∧ width = if decide (width = 8) then 8 else 4 := by
  rcases h.word with ⟨hsize, rfl⟩ | ⟨hsize, rfl⟩ <;> simp [hsize]

theorem Names.lifetime_located (h : Names elf header width) (hident : HasIdent contents width)
    (hlocated : Located header width contents.length offset size)
    (hexact : offset + size ≤ Double.maxSafeInteger) :
    validateAndroidLifetime (some [elf]) contents =
      scan (entries contents width offset size) none := by
  obtain ⟨hoffset, hsize⟩ := hlocated.natural hexact
  obtain ⟨hbounds, hinside⟩ := (lifetimeBounds_iff h).mpr ⟨offset, size, hlocated, hexact⟩
  obtain ⟨h64, hword, hstride, hwidth⟩ := h.size64_iff
  obtain ⟨hident₁, hident₂, hident₃, hident₄⟩ := hident.checked
  have hlength := length_readSync hlocated.inside
  unfold validateAndroidLifetime
  simp only [h.one, h64, hstride, position_eq hoffset, position_eq hsize, hlength]
  rw [if_neg hword, if_neg (by rw [hbounds]; exact Bool.false_ne_true),
    if_neg (by rw [hinside]; exact Bool.false_ne_true), if_neg, if_neg (not_not.mpr rfl)]
  · exact scanEntries_eq hwidth hlocated.inside hlocated.whole none
  · rintro (hwrong | hwrong | hwrong | hwrong)
    · exact hwrong hident₁
    · exact hwrong hident₂
    · exact hwrong hident₃
    · exact hwrong hident₄

/-- The verdict on a segment that is not located in the file rests on the length of the file. -/
theorem Names.lifetime_unlocated (h : Names elf header width)
    (hnone : ¬ ∃ offset size, Located header width contents.length offset size ∧
      offset + size ≤ Double.maxSafeInteger) :
    ∃ message, ∀ contents' : List UInt8, contents'.length = contents.length →
      validateAndroidLifetime (some [elf]) contents' = .error message := by
  obtain ⟨h64, hword, hstride, hwidth⟩ := h.size64_iff
  have hrefused := mt (lifetimeBounds_iff h).mp hnone
  unfold validateAndroidLifetime
  simp only [h.one, h64, hstride, if_neg hword]
  by_cases hbounds : (!header.offset.isSafeInteger || header.offset.lt (Double.natural 16) ||
      !header.fileSize.isSafeInteger || header.fileSize.lt (Double.natural (width * 2)) ||
      (Double.natural (1024 * 1024)).lt header.fileSize ||
      !(header.fileSize.rem (Double.natural (width * 2))).isZero ||
      !(header.offset.add header.fileSize).isSafeInteger) = true
  · exact ⟨_, fun _ _ => if_pos hbounds⟩
  · have hinside : (Double.natural contents.length).lt (header.offset.add header.fileSize) =
        true := by
      by_contra hinside
      exact hrefused ⟨Bool.not_eq_true _ ▸ hbounds, Bool.not_eq_true _ ▸ hinside⟩
    refine ⟨"Truncated Android ELF dynamic segment", fun contents' hlength => ?_⟩
    rw [if_neg hbounds, hlength, if_pos hinside]

/-- A table and a verdict exist only for a segment that is located and terminated. -/
theorem Names.readDynamic_ok_iff (h : Names elf header width) {table : Table} :
    readDynamic contents elf = .ok table ↔ ∃ offset size,
      (Located header width contents.length offset size ∧ offset + size ≤ Double.maxSafeInteger) ∧
        Terminated (entries contents width offset size) ∧
        table = Table.pushAll [] (live (entries contents width offset size)) := by
  by_cases hnone : ∃ offset size, Located header width contents.length offset size ∧
      offset + size ≤ Double.maxSafeInteger
  · obtain ⟨offset, size, hlocated, hexact⟩ := hnone
    rw [h.readDynamic_located hlocated hexact, collect_eq_ok]
    constructor
    · exact fun htable => ⟨offset, size, ⟨hlocated, hexact⟩, htable⟩
    · rintro ⟨offset', size', ⟨hlocated', -⟩, htable⟩
      obtain ⟨rfl, rfl⟩ := hlocated.unique hlocated'
      exact htable
  · rw [h.readDynamic_unlocated hnone]
    constructor
    · exact nofun
    · rintro ⟨offset, size, hlocated, -⟩
      exact absurd ⟨offset, size, hlocated⟩ hnone

theorem take_congr {contents' : List UInt8} {n count : ℕ} (h : contents'.take n = contents.take n)
    (hcount : count ≤ n) : contents'.take count = contents.take count := by
  have htake := congrArg (List.take count) h
  rwa [List.take_take, List.take_take, Nat.min_eq_left hcount] at htake

theorem HasIdent.of_take {contents' : List UInt8} (hident : HasIdent contents width)
    (hlength : contents'.length = contents.length) (h : contents'.take 16 = contents.take 16) :
    HasIdent contents' width := by
  have hget : ∀ i < 16, contents'[i]? = contents[i]? := by
    intro i hi
    rw [← List.getElem?_take_of_lt hi, h, List.getElem?_take_of_lt hi]
  have hfour : contents'.take 4 = contents.take 4 := take_congr h (by norm_num)
  exact ⟨hlength ▸ hident.length, hfour.trans hident.magic,
    (hget 4 (by norm_num)).trans hident.wordClass, (hget 5 (by norm_num)).trans hident.encoding⟩

theorem entryAt_congr {contents' : List UInt8} {n start : ℕ}
    (h : contents'.take n = contents.take n) (hstart : start + width * 2 ≤ n) :
    entryAt contents' width start = entryAt contents width start := by
  have hslice : ∀ first, first + width ≤ n →
      (contents'.drop first).take width = (contents.drop first).take width := by
    intro first hfrom
    have hdrop := congrArg (fun bytes => (bytes.drop first).take width) h
    simpa only [List.drop_take, List.take_take, Nat.min_eq_left (by omega : width ≤ n - first)]
      using hdrop
  rw [entryAt, entryAt, hslice start (by omega), hslice (start + width) (by omega)]

/-- The entries up to the first DT_NULL are decoded from the bytes up to its end. -/
theorem entries_congr {contents' : List UInt8} {count : ℕ}
    (h : contents'.take (offset + count * (width * 2)) =
      contents.take (offset + count * (width * 2))) :
    (entries contents' width offset size).take count =
      (entries contents width offset size).take count := by
  unfold entries
  rw [← List.map_take, ← List.map_take]
  apply List.map_congr_left
  intro start hstart
  rw [positions, ← List.map_take, List.take_range] at hstart
  obtain ⟨i, hi, rfl⟩ := List.mem_map.mp hstart
  have hcount : i + 1 ≤ count := (List.mem_range.mp hi).trans_le (Nat.min_le_left _ _)
  refine entryAt_congr h ?_
  have hle := Nat.mul_le_mul_right (width * 2) hcount
  rw [Nat.add_mul, Nat.one_mul] at hle
  omega

/-- Both decoders accept by the same bounds, and read the same entries: those before the first
DT_NULL, and nothing behind it. The end of a segment is a safe integer in every file whose length is
one. -/
theorem decoders_agree (h : Names elf header width) (hident : HasIdent contents width) :
    ((∃ table, readDynamic contents elf = .ok table) ↔
      ∃ offset size, Located header width contents.length offset size ∧
        offset + size ≤ Double.maxSafeInteger ∧
        Terminated (entries contents width offset size)) ∧
    (contents.length ≤ Double.maxSafeInteger →
      ((∃ table, readDynamic contents elf = .ok table) ↔
        ∃ offset size, Located header width contents.length offset size ∧
          Terminated (entries contents width offset size))) ∧
    (∀ table offset size, readDynamic contents elf = .ok table →
      Located header width contents.length offset size → ∀ tag,
        let values := valuesOf tag (live (entries contents width offset size))
        table.get tag = if values = [] then none else some values) ∧
    (validateAndroidLifetime (some [elf]) contents = .ok () ↔
      ∃ table flags, readDynamic contents elf = .ok table ∧ table.get flags1 = some [flags] ∧
        flags &&& 8 ≠ 0) ∧
    ∀ contents' offset size, Located header width contents.length offset size →
      Terminated (entries contents width offset size) → contents'.length = contents.length →
        ∀ count, count = (live (entries contents width offset size)).length + 1 →
          contents'.take (offset + count * (width * 2)) =
              contents.take (offset + count * (width * 2)) →
            readDynamic contents' elf = readDynamic contents elf ∧
              validateAndroidLifetime (some [elf]) contents' =
                validateAndroidLifetime (some [elf]) contents := by
  refine ⟨?_, fun hsafe => ?_, ?_, ?_, ?_⟩
  · simp only [h.readDynamic_ok_iff]
    constructor
    · rintro ⟨_, offset, size, ⟨hlocated, hexact⟩, hterminated, -⟩
      exact ⟨offset, size, hlocated, hexact, hterminated⟩
    · rintro ⟨offset, size, hlocated, hexact, hterminated⟩
      exact ⟨_, offset, size, ⟨hlocated, hexact⟩, hterminated, rfl⟩
  · simp only [h.readDynamic_ok_iff]
    constructor
    · rintro ⟨_, offset, size, ⟨hlocated, -⟩, hterminated, -⟩
      exact ⟨offset, size, hlocated, hterminated⟩
    · rintro ⟨offset, size, hlocated, hterminated⟩
      exact ⟨_, offset, size, ⟨hlocated, hlocated.inside.trans hsafe⟩, hterminated, rfl⟩
  · intro table offset size htable hlocated tag
    obtain ⟨offset', size', ⟨hlocated', -⟩, -, rfl⟩ := h.readDynamic_ok_iff.mp htable
    obtain ⟨rfl, rfl⟩ := hlocated.unique hlocated'
    simpa [Table.get] using Table.get_pushAll [] (live (entries contents width offset size)) tag
  · by_cases hnone : ∃ offset size, Located header width contents.length offset size ∧
        offset + size ≤ Double.maxSafeInteger
    · obtain ⟨offset, size, hlocated, hexact⟩ := hnone
      rw [h.lifetime_located hident hlocated hexact, scan_eq_ok]
      simp only [h.readDynamic_located hlocated hexact, collect_eq_ok]
      constructor
      · rintro ⟨hterminated, flags, hflags, hbit⟩
        exact ⟨_, flags, ⟨hterminated, rfl⟩, Table.get_single.mpr hflags, hbit⟩
      · rintro ⟨_, flags, ⟨hterminated, rfl⟩, hflags, hbit⟩
        exact ⟨hterminated, flags, Table.get_single.mp hflags, hbit⟩
    · obtain ⟨message, hmessage⟩ := h.lifetime_unlocated hnone
      rw [hmessage contents rfl, h.readDynamic_unlocated hnone]
      simp
  · rintro contents' offset size hlocated hterminated hlength _ rfl hsame
    have hlocated' : Located header width contents'.length offset size := hlength ▸ hlocated
    by_cases hexact : offset + size ≤ Double.maxSafeInteger
    · have hstart := h.offset_le (hlocated.natural hexact).1
      have hident' := hident.of_take hlength (take_congr hsame (by omega))
      rw [h.readDynamic_located hlocated hexact, h.readDynamic_located hlocated' hexact,
        h.lifetime_located hident hlocated hexact, h.lifetime_located hident' hlocated' hexact]
      exact hterminated.influence (entries_congr hsame)
    · have hnone : ¬ ∃ offset size, Located header width contents.length offset size ∧
          offset + size ≤ Double.maxSafeInteger := by
        rintro ⟨offset', size', hother, hother'⟩
        obtain ⟨rfl, rfl⟩ := hlocated.unique hother
        exact hexact hother'
      obtain ⟨message, hmessage⟩ := h.lifetime_unlocated hnone
      rw [hmessage contents rfl, hmessage contents' hlength, h.readDynamic_unlocated hnone]
      exact ⟨h.readDynamic_unlocated (hlength ▸ hnone), rfl⟩

end Validators

/-- The identification of a file of 64 bits, one entry with both flags, a DT_NULL, and what
follows. -/
def sampleFile (behind : List UInt8) : List UInt8 :=
  [0x7f, 0x45, 0x4c, 0x46, 2, 1, 0, 0, 0, 0, 0, 0, 0, 0, 0, 0] ++
    [0xfb, 0xff, 0xff, 0x6f, 0, 0, 0, 0] ++ [9, 0, 0, 0, 0, 0, 0, 0] ++ List.replicate 16 0 ++
      behind

def sampleHeader : ProgramHeader where
  type := some "PT_DYNAMIC"
  offset := .natural 16
  virtualAddress := .natural 16
  fileSize := .natural 48
  memSize := .natural 48
  alignment := .natural 8
  flags := .natural 6

def sampleElf : Elf where
  arch := some "aarch64"
  addressSize := some "64bit"
  dataEncoding := some "LittleEndian"
  type := some "SharedObject (0x3)"
  programHeaders := some [sampleHeader]
  sections := some []

theorem sample_natural {n : ℕ} (h : n ≤ 1024 * 1024) : (Double.natural n).IsNatural n :=
  Double.isNatural_natural (small_safe h)

theorem sampleElf_names : Names sampleElf sampleHeader 8 where
  one := rfl
  word := .inl ⟨rfl, rfl⟩
  start := (Double.le_iff (sample_natural (by norm_num)) (sample_natural (by norm_num))).mpr le_rfl

/-- Sixteen bytes that could be one more entry. -/
def sampleTrailer : List UInt8 := [0xfb, 0xff, 0xff, 0x6f, 0, 0, 0, 0] ++ List.replicate 8 0

theorem sampleFile_ident : HasIdent (sampleFile sampleTrailer) 8 := by
  constructor <;> decide

theorem sample_located : Located sampleHeader 8 (sampleFile sampleTrailer).length 16 48 where
  offset_eq := (sample_natural (by norm_num)).1
  size_eq := (sample_natural (by norm_num)).1
  nonempty := by norm_num
  bounded := by norm_num
  whole := by norm_num
  inside := by decide

/-- Both decoders find the flag that the library is not unloaded, whatever follows the DT_NULL. -/
theorem decoders_agree_sample :
    (∃ table, readDynamic (sampleFile sampleTrailer) sampleElf = .ok table ∧
      table.get flags1 = some [9]) ∧
    validateAndroidLifetime (some [sampleElf]) (sampleFile sampleTrailer) = .ok () ∧
    validateAndroidLifetime (some [sampleElf]) (sampleFile (List.replicate 16 0xff)) = .ok () := by
  obtain ⟨-, haccepts, hget, hlifetime, hbehind⟩ := decoders_agree sampleElf_names sampleFile_ident
  obtain ⟨table, htable⟩ :=
    (haccepts (small_safe (by decide))).mpr ⟨16, 48, sample_located, by decide⟩
  have hflags : table.get flags1 = some [9] :=
    (hget table 16 48 htable sample_located flags1).trans (by decide)
  have haccepted := hlifetime.mpr ⟨table, 9, htable, hflags, by decide⟩
  refine ⟨⟨table, htable, hflags⟩, haccepted, ?_⟩
  rw [← haccepted]
  exact (hbehind (sampleFile (List.replicate 16 0xff)) 16 48 sample_located (by decide) rfl 2
    (by decide) (by decide)).2

end RgbLightningNode.Android
