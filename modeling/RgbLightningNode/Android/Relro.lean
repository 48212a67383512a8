import Mathlib.Data.Set.BooleanAlgebra
import Mathlib.Order.CompletePartialOrder
import Mathlib.Order.Interval.Set.Defs
import RgbLightningNode.Android.Layout

/-!
# What the loader makes read-only

The loader makes whole pages read-only, of its own page size. The checks look at one page size, and
round only the start of the range. Because its end is aligned, what they accept is sound for every
page size that divides the checked one.
-/

namespace RgbLightningNode.Android
open Faulty Number

/-- An address and a size that are added exactly, as the bounds of a range. -/
structure Extent (address size : Double) (start stop : ℕ) : Prop where
  address_eq : address.IsNatural start
  size_eq : size.IsNatural (stop - start)
  le : start ≤ stop
  sum_eq : (address.add size).IsNatural stop

section Extents

variable {address size : Double} {start stop lo hi : ℕ} {r : ProgramHeader}

theorem extent_of_add {n : ℕ} (haddress : address.IsNatural start) (hsize : size.IsNatural n)
    (hsum : (address.add size).IsNatural stop) : Extent address size start stop := by
  obtain ⟨rfl, -⟩ := (Double.isNatural_add_iff haddress hsize).mp hsum
  exact ⟨haddress, by rwa [Nat.add_sub_cancel_left], Nat.le_add_right _ _, hsum⟩

theorem extent_iff : (integer address = true ∧ integer size = true ∧
    integer (address.add size) = true) ↔ ∃ start stop, Extent address size start stop := by
  simp only [integer_iff]
  constructor
  · rintro ⟨⟨start, haddress⟩, ⟨n, hsize⟩, stop, hsum⟩
    exact ⟨start, stop, extent_of_add haddress hsize hsum⟩
  · rintro ⟨start, stop, h⟩
    exact ⟨⟨_, h.address_eq⟩, ⟨_, h.size_eq⟩, _, h.sum_eq⟩

theorem Extent.unique {start' stop' : ℕ} (h : Extent address size start stop)
    (h' : Extent address size start' stop') : start = start' ∧ stop = stop' :=
  ⟨h.address_eq.unique h'.address_eq, h.sum_eq.unique h'.sum_eq⟩

theorem valid_iff : valid address size = true ↔
    ∃ start stop, Extent address size start stop ∧ start < stop := by
  have hsplit : valid address size = true ↔ (integer address = true ∧ integer size = true ∧
      integer (address.add size) = true) ∧ (Double.natural 0).lt size = true := by
    simp only [valid, Bool.and_eq_true]
    tauto
  rw [hsplit, extent_iff]
  constructor
  · rintro ⟨⟨start, stop, h⟩, hpos⟩
    rw [Double.natural_lt_iff h.size_eq] at hpos
    exact ⟨start, stop, h, by omega⟩
  · rintro ⟨start, stop, h, hlt⟩
    exact ⟨⟨start, stop, h⟩, (Double.natural_lt_iff h.size_eq).mpr (by omega)⟩

theorem contains_iff (hr : Extent r.virtualAddress r.memSize lo hi) :
    contains r address size = true ↔
      ∃ start stop, Extent address size start stop ∧ start < stop ∧ lo ≤ start ∧ stop ≤ hi := by
  simp only [contains, Bool.and_eq_true, valid_iff]
  constructor
  · rintro ⟨⟨⟨start, stop, h, hlt⟩, hlo⟩, hhi⟩
    rw [Double.le_iff hr.address_eq h.address_eq] at hlo
    rw [Double.le_iff h.sum_eq hr.sum_eq] at hhi
    exact ⟨start, stop, h, hlt, hlo, hhi⟩
  · rintro ⟨start, stop, h, hlt, hlo, hhi⟩
    exact ⟨⟨⟨start, stop, h, hlt⟩, (Double.le_iff hr.address_eq h.address_eq).mpr hlo⟩,
      (Double.le_iff h.sum_eq hr.sum_eq).mpr hhi⟩

end Extents

/-! ### The checked headers and sections -/

/-- A section with exact bounds that lies in the range `lo` to `hi` if it belongs there, and apart
from it and from the page that it starts in if it stays writable. -/
structure SectionSafe (page lo hi : ℕ) (s : Section) (start stop flags : ℕ) : Prop where
  extent : Extent s.address s.size start stop
  flags_eq : s.flags.IsNatural flags
  inside : start < stop → flags &&& 2 ≠ 0 → isProtected s.name = true → lo ≤ start ∧ stop ≤ hi
  apart : start < stop → flags &&& 2 ≠ 0 → isProtected s.name = false → flags &&& 1 ≠ 0 →
    hi ≤ start ∨ stop ≤ lo / page * page

theorem SectionSafe.unique {page lo hi start stop flags start' stop' flags' : ℕ} {s : Section}
    (h : SectionSafe page lo hi s start' stop' flags')
    (hextent : Extent s.address s.size start stop)
    (hflags : s.flags.IsNatural flags) : SectionSafe page lo hi s start stop flags := by
  obtain ⟨rfl, rfl⟩ := hextent.unique h.extent
  obtain rfl := hflags.unique h.flags_eq
  exact h

theorem checkSection_ok_iff {r : ProgramHeader} {s : Section} {lo hi k : ℕ}
    (hr : Extent r.virtualAddress r.memSize lo hi) (hk : 2 ^ k ≤ Double.maxSafeInteger) :
    checkSection r (Double.natural (2 ^ k)) s = .ok () ↔
      ∃ start stop flags, SectionSafe (2 ^ k) lo hi s start stop flags := by
  have hdown := Double.isNatural_roundDown hr.address_eq (Double.isNatural_natural hk)
  by_cases hbounds : (integer s.address = true ∧ integer s.size = true ∧
      integer (s.address.add s.size) = true) ∧ integer s.flags = true
  · obtain ⟨⟨haddress, hsize, hsum⟩, hinteger⟩ := hbounds
    obtain ⟨start, stop, h⟩ := extent_iff.mp ⟨haddress, hsize, hsum⟩
    obtain ⟨flags, hflags⟩ := integer_iff.mp hinteger
    have hsafe : (∃ start stop flags, SectionSafe (2 ^ k) lo hi s start stop flags) ↔
        SectionSafe (2 ^ k) lo hi s start stop flags :=
      ⟨fun ⟨_, _, _, hother⟩ => hother.unique h hflags, fun hsafe => ⟨_, _, _, hsafe⟩⟩
    have hle := h.le
    have hzero : s.size.isZero = true ↔ ¬ start < stop := by
      rw [Double.isZero_iff h.size_eq]
      omega
    rw [hsafe, checkSection, Double.bitAnd_eq hflags (by norm_num),
      Double.bitAnd_eq hflags (by norm_num)]
    simp only [haddress, hsize, hsum, hinteger, Bool.not_true, Bool.or_self, Bool.false_eq_true,
      if_false]
    by_cases hskip : (s.size.isZero || decide (flags &&& 2 = 0)) = true
    · rw [if_pos hskip]
      simp only [Bool.or_eq_true, hzero, decide_eq_true_eq] at hskip
      refine ⟨fun _ => ⟨h, hflags, ?_, ?_⟩, fun _ => rfl⟩
      · intro hlt hallocated
        exact absurd hskip (not_or.mpr ⟨not_not.mpr hlt, hallocated⟩)
      · intro hlt hallocated
        exact absurd hskip (not_or.mpr ⟨not_not.mpr hlt, hallocated⟩)
    · rw [if_neg hskip]
      simp only [Bool.or_eq_true, hzero, decide_eq_true_eq, not_or, not_not] at hskip
      obtain ⟨hlt, hallocated⟩ := hskip
      by_cases hname : isProtected s.name = true
      · have hinside : contains r s.address s.size = true ↔ lo ≤ start ∧ stop ≤ hi := by
          rw [contains_iff hr]
          constructor
          · rintro ⟨start', stop', h', -, hrange⟩
            obtain ⟨rfl, rfl⟩ := h.unique h'
            exact hrange
          · exact fun hrange => ⟨start, stop, h, hlt, hrange⟩
        simp only [hname, Bool.true_and, Bool.not_true, Bool.false_and, Bool.false_eq_true,
          if_false]
        by_cases hcontained : contains r s.address s.size = true
        · simp only [hcontained, Bool.not_true, Bool.false_eq_true, if_false, true_iff]
          exact ⟨h, hflags, fun _ _ _ => hinside.mp hcontained, fun _ _ hother => by
            rw [hname] at hother
            cases hother⟩
        · simp only [hcontained, Bool.not_false, if_true, reduceCtorEq, false_iff]
          exact fun hother => hcontained (hinside.mpr (hother.inside hlt hallocated hname))
      · have hapart : (decide (flags &&& 1 ≠ 0) &&
            s.address.lt (r.virtualAddress.add r.memSize) &&
            ((r.virtualAddress.div (Double.natural (2 ^ k))).floor.mul (Double.natural (2 ^ k))).lt
              (s.address.add s.size)) = true ↔
            flags &&& 1 ≠ 0 ∧ start < hi ∧ lo / 2 ^ k * 2 ^ k < stop := by
          rw [Bool.and_eq_true, Bool.and_eq_true, decide_eq_true_eq,
            Double.lt_iff h.address_eq hr.sum_eq, Double.lt_iff hdown h.sum_eq, and_assoc]
        rw [Bool.not_eq_true] at hname
        simp only [hname, Bool.false_and, Bool.not_false, Bool.true_and, Bool.false_eq_true,
          if_false]
        split
        · rename_i hmutable
          obtain ⟨hwritable, hbelow, habove⟩ := hapart.mp hmutable
          simp only [reduceCtorEq, false_iff]
          intro hother
          have hdisjoint := hother.apart hlt hallocated hname hwritable
          omega
        · rename_i hconstant
          simp only [true_iff]
          refine ⟨h, hflags, fun _ _ hother => ?_, fun _ _ _ hwritable => ?_⟩
          · rw [hname] at hother
            cases hother
          · by_contra hoverlap
            push Not at hoverlap
            exact hconstant (hapart.mpr ⟨hwritable, hoverlap⟩)
  · have hrefused : checkSection r (Double.natural (2 ^ k)) s ≠ .ok () := by
      have hcondition : (!integer s.address || !integer s.size || !integer (s.address.add s.size) ||
          !integer s.flags) = true := by
        by_contra hall
        simp only [Bool.or_eq_true, Bool.not_eq_true', not_or, Bool.not_eq_false] at hall
        exact hbounds ⟨⟨hall.1.1.1, hall.1.1.2, hall.1.2⟩, hall.2⟩
      rw [checkSection]
      simp only [hcondition, if_true, ne_eq, reduceCtorEq, not_false_eq_true]
    refine ⟨fun h => absurd h hrefused, ?_⟩
    rintro ⟨start, stop, flags, h⟩
    exact absurd ⟨extent_iff.mpr ⟨_, _, h.extent⟩, integer_iff.mpr ⟨_, h.flags_eq⟩⟩ hbounds

/-- What the checks of one page size say about the headers and sections of a file. -/
structure Protection (elf : Elf) (page : ℕ) (headers : List ProgramHeader) (sections : List Section)
    (r dynamic : ProgramHeader) (lo hi : ℕ) : Prop where
  headers_eq : elf.programHeaders = some headers
  sections_eq : elf.sections = some sections
  relro : ofType headers "PT_GNU_RELRO" = [r]
  dynamic_eq : ofType headers "PT_DYNAMIC" = [dynamic]
  extent : Extent r.virtualAddress r.memSize lo hi
  nonempty : lo < hi
  load : ∃ load ∈ ofType headers "PT_LOAD", ∃ start stop,
    Extent load.virtualAddress load.memSize start stop ∧ start ≤ lo ∧ hi ≤ stop
  inside : ∃ start stop, Extent dynamic.virtualAddress dynamic.memSize start stop ∧
    start < stop ∧ lo ≤ start ∧ stop ≤ hi
  named : (∃ s ∈ sections, s.name = some ".dynamic") ∧ ∃ s ∈ sections, s.name = some ".got"
  safe : ∀ s ∈ sections, ∃ start stop flags, SectionSafe page lo hi s start stop flags

theorem page_eq {page : ℕ} (h : page ∈ [4096, 16384]) :
    ∃ k, page = 2 ^ k ∧ 2 ^ k ≤ Double.maxSafeInteger := by
  rcases List.mem_cons.mp h with rfl | h
  · exact ⟨12, by norm_num, by norm_num [Double.maxSafeInteger]⟩
  · obtain rfl := List.mem_singleton.mp h
    exact ⟨14, by norm_num, by norm_num [Double.maxSafeInteger]⟩

theorem load_iff {r load : ProgramHeader} {lo hi : ℕ}
    (hr : Extent r.virtualAddress r.memSize lo hi) (hlt : lo < hi) :
    (valid load.virtualAddress load.memSize && load.virtualAddress.le r.virtualAddress &&
      (r.virtualAddress.add r.memSize).le (load.virtualAddress.add load.memSize)) = true ↔
      ∃ start stop, Extent load.virtualAddress load.memSize start stop ∧ start ≤ lo ∧
        hi ≤ stop := by
  simp only [Bool.and_eq_true, valid_iff]
  constructor
  · rintro ⟨⟨⟨start, stop, h, -⟩, hlo⟩, hhi⟩
    rw [Double.le_iff h.address_eq hr.address_eq] at hlo
    rw [Double.le_iff hr.sum_eq h.sum_eq] at hhi
    exact ⟨start, stop, h, hlo, hhi⟩
  · rintro ⟨start, stop, h, hlo, hhi⟩
    exact ⟨⟨⟨start, stop, h, by omega⟩, (Double.le_iff h.address_eq hr.address_eq).mpr hlo⟩,
      (Double.le_iff hr.sum_eq h.sum_eq).mpr hhi⟩

theorem named_iff {sections : List Section} {name : String} :
    sections.any (fun s => s.name = some name) = true ↔ ∃ s ∈ sections, s.name = some name := by
  simp

theorem validateAndroidProtection_ok_iff {elf : Elf} {page : ℕ} :
    validateAndroidProtection (some [elf]) page = .ok () ↔ page ∈ [4096, 16384] ∧
      ∃ headers sections r dynamic lo hi, Protection elf page headers sections r dynamic lo hi := by
  constructor
  · intro h
    rw [validateAndroidProtection, refuse_eq_ok, not_not] at h
    obtain ⟨hpage, h⟩ := h
    obtain ⟨k, rfl, hsafe⟩ := page_eq hpage
    split at h
    · rename_i headers sections hheaders hsections
      split at h
      · rename_i r dynamic hrelro hdynamic
        simp only [refuse_eq_ok, Bool.not_eq_true', Bool.not_eq_false, Bool.or_eq_true,
          not_or] at h
        obtain ⟨hvalid, hload, hinside, hnamed, hchecked⟩ := h
        obtain ⟨lo, hi, hr, hlt⟩ := valid_iff.mp hvalid
        obtain ⟨load, hmem, hload⟩ := List.any_eq_true.mp hload
        rw [forM_eq_ok] at hchecked
        exact ⟨hpage, headers, sections, r, dynamic, lo, hi, hheaders, hsections, hrelro,
          hdynamic, hr, hlt, ⟨load, hmem, (load_iff hr hlt).mp hload⟩, (contains_iff hr).mp hinside,
          ⟨named_iff.mp hnamed.1, named_iff.mp hnamed.2⟩,
          fun s hs => (checkSection_ok_iff hr hsafe).mp (hchecked s hs)⟩
      · cases h
    · cases h
  · rintro ⟨hpage, headers, sections, r, dynamic, lo, hi, h⟩
    obtain ⟨k, rfl, hsafe⟩ := page_eq hpage
    obtain ⟨load, hmem, hload⟩ := h.load
    have hloads : ((ofType headers "PT_LOAD").any fun load =>
        valid load.virtualAddress load.memSize && load.virtualAddress.le r.virtualAddress &&
          (r.virtualAddress.add r.memSize).le (load.virtualAddress.add load.memSize)) = true :=
      List.any_eq_true.mpr ⟨load, hmem, (load_iff h.extent h.nonempty).mpr hload⟩
    simp only [validateAndroidProtection, h.headers_eq, h.sections_eq, h.relro, h.dynamic_eq,
      refuse_eq_ok, Bool.not_eq_true', Bool.not_eq_false, Bool.or_eq_true, not_or, not_not]
    exact ⟨hpage, valid_iff.mpr ⟨lo, hi, h.extent, h.nonempty⟩, hloads,
      (contains_iff h.extent).mpr h.inside,
      ⟨named_iff.mpr h.named.1, named_iff.mpr h.named.2⟩,
      forM_eq_ok.mpr fun s hs => (checkSection_ok_iff h.extent hsafe).mpr (h.safe s hs)⟩

/-! ### Alignment -/

/-- The alignment of the segments to pages of one size. -/
structure Aligned (page : ℕ) (headers : List ProgramHeader) (hi : ℕ) : Prop where
  congruent : ∀ load ∈ ofType headers "PT_LOAD", ∃ address offset,
    load.virtualAddress.IsNatural address ∧ load.offset.IsNatural offset ∧
      address ≡ offset [MOD page]
  stop : page ∣ hi

theorem natural_page {page : ℕ} (h : page ≤ 16384) : (Double.natural page).IsNatural page :=
  Double.isNatural_natural (small_safe (by omega))

theorem checkLoad_ok_iff {load : ProgramHeader} : checkLoad load = .ok () ↔
    (∃ alignment, load.alignment.IsNatural alignment ∧ 16384 ≤ alignment) ∧
      ∃ address offset, load.virtualAddress.IsNatural address ∧ load.offset.IsNatural offset ∧
        address ≡ offset [MOD 16384] := by
  rw [checkLoad, refuse_eq_ok]
  simp only [Bool.or_eq_true, Bool.not_eq_true', not_or, Bool.not_eq_false, and_true]
  constructor
  · rintro ⟨⟨⟨⟨halignment, hlarge⟩, haddress⟩, hoffset⟩, hrem⟩
    obtain ⟨alignment, halignment⟩ := integer_iff.mp halignment
    obtain ⟨address, haddress⟩ := integer_iff.mp haddress
    obtain ⟨offset, hoffset⟩ := integer_iff.mp hoffset
    rw [Double.lt_iff halignment (natural_page le_rfl), not_lt] at hlarge
    exact ⟨⟨alignment, halignment, hlarge⟩, address, offset, haddress, hoffset,
      (Double.isZero_rem_sub_iff haddress hoffset (natural_page le_rfl) (by norm_num)).mp hrem⟩
  · rintro ⟨⟨alignment, halignment, hlarge⟩, address, offset, haddress, hoffset, hmod⟩
    refine ⟨⟨⟨⟨integer_iff.mpr ⟨_, halignment⟩, ?_⟩, integer_iff.mpr ⟨_, haddress⟩⟩,
      integer_iff.mpr ⟨_, hoffset⟩⟩, ?_⟩
    · rw [Double.lt_iff halignment (natural_page le_rfl), not_lt]
      exact hlarge
    · exact (Double.isZero_rem_sub_iff haddress hoffset (natural_page le_rfl)
        (by norm_num)).mpr hmod

theorem checkRelroEnd_ok_iff {r : ProgramHeader} : checkRelroEnd r = .ok () ↔
    ∃ lo hi, Extent r.virtualAddress r.memSize lo hi ∧ 16384 ∣ hi := by
  rw [checkRelroEnd, refuse_eq_ok]
  simp only [Bool.or_eq_true, Bool.not_eq_true', not_or, Bool.not_eq_false, and_true]
  constructor
  · rintro ⟨⟨⟨haddress, hsize⟩, hsum⟩, hrem⟩
    obtain ⟨lo, hi, h⟩ := extent_iff.mp ⟨haddress, hsize, hsum⟩
    exact ⟨lo, hi, h,
      (Double.isZero_rem_natural_iff h.sum_eq (natural_page le_rfl) (by norm_num)).mp hrem⟩
  · rintro ⟨lo, hi, h, hdvd⟩
    obtain ⟨haddress, hsize, hsum⟩ := extent_iff.mpr ⟨lo, hi, h⟩
    exact ⟨⟨⟨haddress, hsize⟩, hsum⟩,
      (Double.isZero_rem_natural_iff h.sum_eq (natural_page le_rfl) (by norm_num)).mpr hdvd⟩

/-- What the gate of linked libraries accepts, beside the protection. -/
theorem validateAndroidElf_ok_iff {elf : Elf} {target : String} :
    validateAndroidElf (some [elf]) target = .ok () ↔ ∃ arch headers,
      expectedArch target = some arch ∧ elf.arch = some arch ∧ elf.addressSize = some "64bit" ∧
      elf.programHeaders = some headers ∧ ofType headers "PT_LOAD" ≠ [] ∧
      ofType headers "PT_GNU_RELRO" ≠ [] ∧
      (∀ load ∈ ofType headers "PT_LOAD", checkLoad load = .ok ()) ∧
      ∀ r ∈ ofType headers "PT_GNU_RELRO", checkRelroEnd r = .ok () := by
  unfold validateAndroidElf
  cases harch : expectedArch target with
  | none => simp
  | some arch =>
    simp only [refuse_eq_ok]
    cases hheaders : elf.programHeaders with
    | none => simp
    | some headers =>
      simp only [refuse_eq_ok, bind_eq_ok, forM_eq_ok, exists_const, Option.some.injEq]
      constructor
      · rintro ⟨hidentity, hsome, hloads, hrelros⟩
        simp only [not_or, not_not] at hidentity
        simp only [Bool.or_eq_true, List.isEmpty_iff, not_or] at hsome
        exact ⟨arch, headers, rfl, hidentity.1, hidentity.2, rfl, hsome.1, hsome.2, hloads, hrelros⟩
      · rintro ⟨_, _, rfl, hsame, hbits, rfl, hsome, hsome', hloads, hrelros⟩
        refine ⟨?_, ?_, hloads, hrelros⟩
        · simp only [not_or, not_not]
          exact ⟨hsame, hbits⟩
        · simp only [Bool.or_eq_true, List.isEmpty_iff, not_or]
          exact ⟨hsome, hsome'⟩

theorem aligned_of_linked {elf : Elf} {target : String} {headers : List ProgramHeader}
    {sections : List Section} {r dynamic : ProgramHeader} {lo hi : ℕ}
    (h : validateAndroidElf (some [elf]) target = .ok ())
    (hprotection : Protection elf 16384 headers sections r dynamic lo hi) :
    Aligned 16384 headers hi := by
  obtain ⟨_, headers', -, -, -, hheaders, -, -, hloads, hrelros⟩ := validateAndroidElf_ok_iff.mp h
  obtain rfl : headers' = headers := by
    have hsame := hheaders.symm.trans hprotection.headers_eq
    exact Option.some.inj hsame
  refine ⟨fun load hload => (checkLoad_ok_iff.mp (hloads load hload)).2, ?_⟩
  have hr : r ∈ ofType headers' "PT_GNU_RELRO" := by simp [hprotection.relro]
  obtain ⟨lo', hi', hextent, hdvd⟩ := checkRelroEnd_ok_iff.mp (hrelros r hr)
  obtain ⟨-, rfl⟩ := hprotection.extent.unique hextent
  exact hdvd

/-! ### Metadata that was printed and parsed -/

theorem isNatural_reparsed {d : Double} {n : ℕ} : (reparsed d).IsNatural n ↔ d.IsNatural n := by
  cases d with
  | nan => rfl
  | infinity negative => simp [reparsed, Double.toToken, Double.IsNatural, Double.value]
  | finite negative q =>
    have htoken : ∃ t, (Double.finite negative q).toToken = some t := ⟨_, rfl⟩
    obtain ⟨t, ht⟩ := htoken
    have hvalue : (Double.finite negative q).unsignedZero.value =
        (Double.finite negative q).value := by
      by_cases hzero : q.1 = 0 <;> simp [Double.unsignedZero, Double.value, hzero]
    simp only [reparsed, ht, toDouble_toToken ht, Double.IsNatural, hvalue]

theorem extent_reparsed {address size : Double} {start stop : ℕ}
    (h : Extent (reparsed address) (reparsed size) start stop) :
    Extent address size start stop := by
  have haddress := isNatural_reparsed.mp h.address_eq
  have hsize := isNatural_reparsed.mp h.size_eq
  have hsum := (Double.isNatural_add_iff h.address_eq h.size_eq).mp h.sum_eq
  exact ⟨haddress, hsize, h.le, (Double.isNatural_add_iff haddress hsize).mpr hsum⟩

theorem ofType_reparsed (headers : List ProgramHeader) (name : String) :
    ofType (headers.map ProgramHeader.reparsed) name =
      (ofType headers name).map ProgramHeader.reparsed := by
  rw [ofType, List.filter_map]
  rfl

theorem Protection.of_reparsed {elf : Elf} {page : ℕ} {headers' : List ProgramHeader}
    {sections' : List Section} {r' dynamic' : ProgramHeader} {lo hi : ℕ}
    (h : Protection elf.reparsed page headers' sections' r' dynamic' lo hi) :
    ∃ headers sections r dynamic, Protection elf page headers sections r dynamic lo hi := by
  obtain ⟨headers, hheaders, rfl⟩ := Option.map_eq_some_iff.mp h.headers_eq
  obtain ⟨sections, hsections, rfl⟩ := Option.map_eq_some_iff.mp h.sections_eq
  have hrelro := h.relro
  have hdynamic := h.dynamic_eq
  rw [ofType_reparsed, List.map_eq_singleton_iff] at hrelro hdynamic
  obtain ⟨r, hr, rfl⟩ := hrelro
  obtain ⟨dynamic, hd, rfl⟩ := hdynamic
  refine ⟨headers, sections, r, dynamic, hheaders, hsections, hr, hd, extent_reparsed h.extent,
    h.nonempty, ?_, ?_, ?_, ?_⟩
  · obtain ⟨load, hmem, start, stop, hextent, hrange⟩ := h.load
    rw [ofType_reparsed] at hmem
    obtain ⟨load, hload, rfl⟩ := List.mem_map.mp hmem
    exact ⟨load, hload, start, stop, extent_reparsed hextent, hrange⟩
  · obtain ⟨start, stop, hextent, hrange⟩ := h.inside
    exact ⟨start, stop, extent_reparsed hextent, hrange⟩
  · obtain ⟨⟨p, hp, hname⟩, q, hq, hname'⟩ := h.named
    obtain ⟨s, hs, rfl⟩ := List.mem_map.mp hp
    obtain ⟨s', hs', rfl⟩ := List.mem_map.mp hq
    exact ⟨⟨s, hs, hname⟩, s', hs', hname'⟩
  · intro s hs
    obtain ⟨start, stop, flags, hsafe⟩ := h.safe _ (List.mem_map_of_mem hs)
    exact ⟨start, stop, flags, extent_reparsed hsafe.extent, isNatural_reparsed.mp hsafe.flags_eq,
      hsafe.inside, hsafe.apart⟩

theorem checkHeader_ok {header : ProgramHeader} (h : checkHeader header = .ok ()) :
    (∃ start stop, Extent header.virtualAddress header.memSize start stop) ∧
      ∃ offset, header.offset.IsNatural offset := by
  simp only [checkHeader, bind_eq_ok, ensure_eq_ok, exists_const, Bool.and_eq_true] at h
  obtain ⟨haddress, hsize, hoffset, -, -, hsum, -⟩ := h
  exact ⟨extent_iff.mp ⟨haddress, hsize, hsum⟩, integer_iff.mp hoffset⟩

theorem Abi.page_mem (abi : Abi) : abi.page ≤ 16384 ∧ 0 < abi.page := by
  cases abi <;> simp [Abi.page]

/-- What the staging scripts accept. Their protection is that of the metadata itself. -/
theorem validateLayout_ok {elf : Elf} {table : Table} {abi : Abi} {contents : List UInt8}
    (h : validateLayout elf table abi contents = .ok ()) :
    ∃ headers sections r dynamic lo hi,
      Protection elf abi.page headers sections r dynamic lo hi ∧ Aligned abi.page headers hi ∧
        ∀ header ∈ headers, ∃ start stop,
          Extent header.virtualAddress header.memSize start stop := by
  unfold validateLayout at h
  obtain ⟨_, -, h⟩ := bind_eq_ok.mp h
  dsimp only at h
  split at h
  · rename_i relro hrelro
    simp only [bind_eq_ok, forM_eq_ok, ensure_eq_ok, exists_const] at h
    obtain ⟨-, _, -, hheaders, hloads, hend, _, hprotection, -⟩ := h
    obtain ⟨-, _, _, _, _, lo, hi, hreparsed⟩ := validateAndroidProtection_ok_iff.mp hprotection
    obtain ⟨headers, sections, r, dynamic, hprotection⟩ := hreparsed.of_reparsed
    rw [hprotection.headers_eq, Option.getD_some] at hrelro hheaders hloads
    obtain rfl : r = relro := by simpa [hprotection.relro] using hrelro
    have hextents := fun header hheader => (checkHeader_ok (hheaders header hheader)).1
    obtain ⟨hle, hpos⟩ := abi.page_mem
    refine ⟨headers, sections, r, dynamic, lo, hi, hprotection, ⟨?_, ?_⟩, hextents⟩
    · intro load hload
      obtain ⟨⟨address, _, hextent⟩, offset, hoffset⟩ :=
        checkHeader_ok (hheaders load (mem_ofType.mp hload).1)
      have hpage := hloads load hload
      simp only [checkPage, bind_eq_ok, ensure_eq_ok, exists_const, Bool.and_eq_true] at hpage
      exact ⟨address, offset, hextent.address_eq, hoffset,
        (Double.isZero_rem_sub_iff hextent.address_eq hoffset (natural_page hle) hpos).mp hpage.1.2⟩
    · rw [Bool.and_eq_true] at hend
      exact (Double.isZero_rem_natural_iff hprotection.extent.sum_eq (natural_page hle) hpos).mp
        hend.2
  · cases h

/-! ### Soundness -/

def ProgramHeader.range (header : ProgramHeader) : Set ℕ :=
  Set.Ico (position header.virtualAddress)
    (position header.virtualAddress + position header.memSize)

def Section.range (s : Section) : Set ℕ :=
  Set.Ico (position s.address) (position s.address + position s.size)

def Section.Flagged (s : Section) (mask : ℕ) : Prop := position s.flags &&& mask ≠ 0

/-- The pages of `d` bytes that a loader makes read-only. -/
def madeReadOnly (r : ProgramHeader) (d : ℕ) : Set ℕ :=
  Set.Ico (position r.virtualAddress / d * d)
    ((position r.virtualAddress + position r.memSize + d - 1) / d * d)

/-- The read-only pages hold what belongs there and nothing else that is writable. -/
structure Sound (headers : List ProgramHeader) (sections : List Section) (r dynamic : ProgramHeader)
    (d : ℕ) : Prop where
  dynamic_inside : dynamic.range ⊆ madeReadOnly r d
  inside : ∀ s ∈ sections, s.Flagged 2 → isProtected s.name = true → s.range ⊆ madeReadOnly r d
  apart : ∀ s ∈ sections, s.Flagged 2 → s.Flagged 1 → isProtected s.name = false →
    Disjoint s.range (madeReadOnly r d)
  loaded : ∃ load ∈ ofType headers "PT_LOAD", r.range ⊆ load.range
  congruent : ∀ load ∈ ofType headers "PT_LOAD",
    position load.virtualAddress ≡ position load.offset [MOD d]

theorem Extent.position_eq {address size : Double} {start stop : ℕ}
    (h : Extent address size start stop) :
    position address = start ∧ position address + position size = stop := by
  have hle := h.le
  rw [Android.position_eq h.address_eq, Android.position_eq h.size_eq]
  omega

theorem roundUp_eq {d hi : ℕ} (hpos : 0 < d) (h : d ∣ hi) : (hi + d - 1) / d * d = hi := by
  obtain ⟨count, rfl⟩ := h
  rw [Nat.add_sub_assoc hpos, Nat.mul_add_div hpos, Nat.div_eq_of_lt (Nat.sub_lt hpos Nat.one_pos),
    Nat.add_zero, Nat.mul_comm]

theorem Protection.sound {elf : Elf} {page d : ℕ} {headers : List ProgramHeader}
    {sections : List Section} {r dynamic : ProgramHeader} {lo hi : ℕ} (hpage : 0 < page)
    (h : Protection elf page headers sections r dynamic lo hi) (haligned : Aligned page headers hi)
    (hd : d ∣ page) : Sound headers sections r dynamic d := by
  have hpos : 0 < d := Nat.pos_of_dvd_of_pos hd hpage
  obtain ⟨hlo, hhi⟩ := h.extent.position_eq
  have hstop : (hi + d - 1) / d * d = hi := roundUp_eq hpos (hd.trans haligned.stop)
  have hpages : madeReadOnly r d = Set.Ico (lo / d * d) hi := by
    rw [madeReadOnly, hhi, hlo, hstop]
  have hdown : lo / d * d ≤ lo := Nat.div_mul_le_self lo d
  have hfiner : lo / page * page ≤ lo / d * d := by
    obtain ⟨count, rfl⟩ := hd
    have hle : lo / (d * count) * (d * count) ≤ lo := Nat.div_mul_le_self _ _
    have hmultiple : lo / (d * count) * count ≤ lo / d := by
      rw [Nat.le_div_iff_mul_le hpos]
      linarith
    calc lo / (d * count) * (d * count) = lo / (d * count) * count * d := by ring
      _ ≤ lo / d * d := Nat.mul_le_mul_right d hmultiple
  constructor
  · obtain ⟨start, stop, hextent, -, hstart, hstop⟩ := h.inside
    obtain ⟨heq, heq'⟩ := hextent.position_eq
    rw [hpages, ProgramHeader.range, heq', heq]
    exact Set.Ico_subset_Ico (hdown.trans hstart) hstop
  · intro s hs hallocated hname
    obtain ⟨start, stop, flags, hsafe⟩ := h.safe s hs
    obtain ⟨heq, heq'⟩ := hsafe.extent.position_eq
    rw [Section.Flagged, position_eq hsafe.flags_eq] at hallocated
    rw [hpages, Section.range, heq', heq]
    intro a ha
    have hrange := hsafe.inside (ha.1.trans_lt ha.2) hallocated hname
    exact ⟨hdown.trans (hrange.1.trans ha.1), ha.2.trans_le hrange.2⟩
  · intro s hs hallocated hwritable hname
    obtain ⟨start, stop, flags, hsafe⟩ := h.safe s hs
    obtain ⟨heq, heq'⟩ := hsafe.extent.position_eq
    rw [Section.Flagged, position_eq hsafe.flags_eq] at hallocated hwritable
    rw [hpages, Section.range, heq', heq, Set.disjoint_left]
    intro a ha hread
    have hrange := hsafe.apart (ha.1.trans_lt ha.2) hallocated hname hwritable
    have hstart := ha.1
    have hend := ha.2
    have hbelow := hread.1
    have habove := hread.2
    omega
  · obtain ⟨load, hload, start, stop, hextent, hstart, hend⟩ := h.load
    obtain ⟨heq, heq'⟩ := hextent.position_eq
    refine ⟨load, hload, ?_⟩
    rw [ProgramHeader.range, ProgramHeader.range, hhi, hlo, heq', heq]
    exact Set.Ico_subset_Ico hstart hend
  · intro load hload
    obtain ⟨address, offset, haddress, hoffset, hmod⟩ := haligned.congruent load hload
    rw [position_eq haddress, position_eq hoffset]
    exact hmod.of_dvd hd

/-- The sums and roundings that the verdict rests on, as exact natural numbers. -/
structure Exact (headers : List ProgramHeader) (sections : List Section) (r dynamic : ProgramHeader)
    (page d : ℕ) : Prop where
  relro : (r.virtualAddress.add r.memSize).IsNatural
    (position r.virtualAddress + position r.memSize)
  down : ((r.virtualAddress.div (Double.natural page)).floor.mul (Double.natural page)).IsNatural
    (position r.virtualAddress / page * page)
  up : (position r.virtualAddress + position r.memSize + d - 1) / d * d ≤ Double.maxSafeInteger
  dynamic_sum : (dynamic.virtualAddress.add dynamic.memSize).IsNatural
    (position dynamic.virtualAddress + position dynamic.memSize)
  section_sum : ∀ s ∈ sections,
    (s.address.add s.size).IsNatural (position s.address + position s.size)
  difference : ∀ load ∈ ofType headers "PT_LOAD", (load.virtualAddress.sub load.offset).value =
    some (((position load.virtualAddress : ℤ) - position load.offset : ℤ) : ℚ)
  loaded : ∃ load ∈ ofType headers "PT_LOAD", r.range ⊆ load.range ∧
    (load.virtualAddress.add load.memSize).IsNatural
      (position load.virtualAddress + position load.memSize)

theorem Extent.sum_position {address size : Double} {start stop : ℕ}
    (h : Extent address size start stop) :
    (address.add size).IsNatural (position address + position size) := by
  rw [h.position_eq.2]
  exact h.sum_eq

theorem Protection.exact {elf : Elf} {page d : ℕ} {headers : List ProgramHeader}
    {sections : List Section} {r dynamic : ProgramHeader} {lo hi : ℕ}
    (hpage : page ∈ [4096, 16384])
    (h : Protection elf page headers sections r dynamic lo hi) (haligned : Aligned page headers hi)
    (hd : d ∣ page) : Exact headers sections r dynamic page d := by
  obtain ⟨k, rfl, hsafe⟩ := page_eq hpage
  have hpos : 0 < d := Nat.pos_of_dvd_of_pos hd (by positivity)
  constructor
  · exact h.extent.sum_position
  · rw [h.extent.position_eq.1]
    exact Double.isNatural_roundDown h.extent.address_eq (Double.isNatural_natural hsafe)
  · rw [h.extent.position_eq.2, roundUp_eq hpos (hd.trans haligned.stop)]
    exact h.extent.sum_eq.2
  · obtain ⟨start, stop, hextent, -⟩ := h.inside
    exact hextent.sum_position
  · intro s hs
    obtain ⟨start, stop, flags, hchecked⟩ := h.safe s hs
    exact hchecked.extent.sum_position
  · intro load hload
    obtain ⟨address, offset, haddress, hoffset, -⟩ := haligned.congruent load hload
    rw [position_eq haddress, position_eq hoffset]
    exact Double.value_sub haddress hoffset
  · obtain ⟨load, hload, start, stop, hextent, hstart, hend⟩ := h.load
    refine ⟨load, hload, ?_, hextent.sum_position⟩
    rw [ProgramHeader.range, ProgramHeader.range, h.extent.position_eq.2, h.extent.position_eq.1,
      hextent.position_eq.2, hextent.position_eq.1]
    exact Set.Ico_subset_Ico hstart hend

/-- The metadata that the gate of linked libraries accepts. -/
def Linked (elf : Elf) : Prop := ∃ target, validateAndroidElf (some [elf]) target = .ok () ∧
  validateAndroidProtection (some [elf]) 16384 = .ok ()

/-- The metadata that the staging scripts accept for an ABI of this page size. -/
def Staged (elf : Elf) (page : ℕ) : Prop := ∃ table abi contents, page = Abi.page abi ∧
  validateLayout elf table abi contents = .ok ()

theorem checkLinked_linked {target : String} {elf : Elf} {contents : List UInt8}
    (h : checkLinked target (some [elf]) contents = .ok ()) : Linked elf := by
  unfold checkLinked at h
  split at h
  · cases h
  obtain ⟨_, helf, h⟩ := bind_eq_ok.mp h
  obtain ⟨_, -, hprotection⟩ := bind_eq_ok.mp h
  exact ⟨target, helf, hprotection⟩

theorem relro_sound {elf : Elf} {page d : ℕ} (h : Linked elf ∧ page = 16384 ∨ Staged elf page)
    (hd : d ∣ page) : ∃ headers sections r dynamic, elf.programHeaders = some headers ∧
      elf.sections = some sections ∧ ofType headers "PT_GNU_RELRO" = [r] ∧
      ofType headers "PT_DYNAMIC" = [dynamic] ∧ Sound headers sections r dynamic d ∧
      Exact headers sections r dynamic page d ∧
      (Staged elf page → ∀ header ∈ headers, (header.virtualAddress.add header.memSize).IsNatural
        (position header.virtualAddress + position header.memSize)) := by
  have hstaged : Staged elf page → ∃ headers, elf.programHeaders = some headers ∧
      ∀ header ∈ headers, (header.virtualAddress.add header.memSize).IsNatural
        (position header.virtualAddress + position header.memSize) := by
    rintro ⟨table, abi, contents, -, hlayout⟩
    obtain ⟨headers, _, _, _, _, _, hprotection, -, hextents⟩ := validateLayout_ok hlayout
    refine ⟨headers, hprotection.headers_eq, fun header hheader => ?_⟩
    obtain ⟨start, stop, hextent⟩ := hextents header hheader
    exact hextent.sum_position
  have hchecked : page ∈ [4096, 16384] ∧ ∃ headers sections r dynamic lo hi,
      Protection elf page headers sections r dynamic lo hi ∧ Aligned page headers hi := by
    rcases h with ⟨⟨target, helf, hprotection⟩, rfl⟩ | ⟨table, abi, contents, rfl, hlayout⟩
    · obtain ⟨hpage, headers, sections, r, dynamic, lo, hi, hprotection⟩ :=
        validateAndroidProtection_ok_iff.mp hprotection
      exact ⟨hpage, headers, sections, r, dynamic, lo, hi, hprotection,
        aligned_of_linked helf hprotection⟩
    · obtain ⟨headers, sections, r, dynamic, lo, hi, hprotection, haligned, -⟩ :=
        validateLayout_ok hlayout
      exact ⟨by cases abi <;> simp [Abi.page], headers, sections, r, dynamic, lo, hi, hprotection,
        haligned⟩
  obtain ⟨hpage, headers, sections, r, dynamic, lo, hi, hprotection, haligned⟩ := hchecked
  have hpos : 0 < page := by
    rcases List.mem_cons.mp hpage with rfl | hpage
    · norm_num
    · rw [List.mem_singleton.mp hpage]
      norm_num
  refine ⟨headers, sections, r, dynamic, hprotection.headers_eq, hprotection.sections_eq,
    hprotection.relro, hprotection.dynamic_eq, hprotection.sound hpos haligned hd,
    hprotection.exact hpage haligned hd, fun hs => ?_⟩
  obtain ⟨headers', hheaders, hsums⟩ := hstaged hs
  obtain rfl : headers' = headers := Option.some.inj (hheaders.symm.trans hprotection.headers_eq)
  exact hsums

/-! ### A linked library with a segment that ends beyond the safe integers -/

def sampleSegment (type : String) (address size : ℕ) : ProgramHeader where
  type := some type
  offset := .natural address
  virtualAddress := .natural address
  fileSize := .natural size
  memSize := .natural size
  alignment := .natural 16384
  flags := .natural 6

def sampleSection (name : String) (address size : ℕ) : Section where
  name := some name
  address := .natural address
  size := .natural size
  flags := .natural 3

/-- A segment whose address and size are safe integers, and whose end is none. -/
def endlessLoad : ProgramHeader := sampleSegment "PT_LOAD" (2 ^ 53 - 16384) 16384

def sampleLinked : Elf where
  arch := some "aarch64"
  addressSize := some "64bit"
  dataEncoding := some "LittleEndian"
  type := some "SharedObject (0x3)"
  programHeaders := some [endlessLoad, sampleSegment "PT_LOAD" 16384 16384,
    sampleSegment "PT_GNU_RELRO" 16384 16384, sampleSegment "PT_DYNAMIC" 16384 128]
  sections := some [sampleSection ".dynamic" 16384 128, sampleSection ".got" 16512 128,
    sampleSection ".data" 32768 128]

theorem extent_natural {start size : ℕ} (h : start + size ≤ Double.maxSafeInteger) :
    Extent (.natural start) (.natural size) start (start + size) := by
  have hstart : (Double.natural start).IsNatural start := Double.isNatural_natural (by omega)
  have hsize : (Double.natural size).IsNatural size := Double.isNatural_natural (by omega)
  exact extent_of_add hstart hsize ((Double.isNatural_add_iff hstart hsize).mpr ⟨rfl, h⟩)

theorem checkLoad_sample {type : String} {address size : ℕ} (h : address ≤ Double.maxSafeInteger) :
    checkLoad (sampleSegment type address size) = .ok () :=
  checkLoad_ok_iff.mpr ⟨⟨16384, natural_page le_rfl, le_rfl⟩, address, address,
    Double.isNatural_natural h, Double.isNatural_natural h, Nat.ModEq.refl _⟩

theorem sectionSafe_sample {name : String} {address size : ℕ} (hsmall : address + size ≤ 65536)
    (hinside : isProtected (some name) = true → 16384 ≤ address ∧ address + size ≤ 32768)
    (hapart : isProtected (some name) = false → 32768 ≤ address) :
    ∃ start stop flags,
      SectionSafe 16384 16384 32768 (sampleSection name address size) start stop flags :=
  ⟨address, address + size, 3, extent_natural (small_safe (by omega)), natural_page (by norm_num),
    fun _ _ hname => hinside hname, fun _ _ hname _ => Or.inl (hapart hname)⟩

theorem sampleLinked_accepted : Linked sampleLinked := by
  have hextent : Extent (.natural 16384) (.natural 16384) 16384 32768 :=
    extent_natural (small_safe (by norm_num))
  refine ⟨"android-arm64", validateAndroidElf_ok_iff.mpr ⟨"aarch64", _, rfl, rfl, rfl, rfl, ?_⟩,
    validateAndroidProtection_ok_iff.mpr ⟨by decide, _, _, sampleSegment "PT_GNU_RELRO" 16384 16384,
      sampleSegment "PT_DYNAMIC" 16384 128, 16384, 32768, rfl, rfl, rfl, rfl, hextent, by norm_num,
      ⟨sampleSegment "PT_LOAD" 16384 16384, ?_, 16384, 32768, hextent, le_rfl, le_rfl⟩,
      ⟨16384, 16512, extent_natural (small_safe (by norm_num)), by norm_num⟩, ?_, ?_⟩⟩
  · refine ⟨nofun, nofun, ?_, ?_⟩
    · intro load hload
      have hmem : load ∈ [endlessLoad, sampleSegment "PT_LOAD" 16384 16384] := hload
      rcases List.mem_cons.mp hmem with rfl | hmem
      · exact checkLoad_sample (by norm_num [Double.maxSafeInteger])
      · rw [List.mem_singleton.mp hmem]
        exact checkLoad_sample (small_safe (by norm_num))
    · intro r hr
      have hmem : r ∈ [sampleSegment "PT_GNU_RELRO" 16384 16384] := hr
      rw [List.mem_singleton.mp hmem]
      exact checkRelroEnd_ok_iff.mpr ⟨16384, 32768, hextent, by norm_num⟩
  · exact mem_ofType.mpr ⟨by simp, rfl⟩
  · exact ⟨⟨sampleSection ".dynamic" 16384 128, by simp, rfl⟩,
      sampleSection ".got" 16512 128, by simp, rfl⟩
  · intro s hs
    have hnames : isProtected (some ".dynamic") = true ∧ isProtected (some ".got") = true ∧
        isProtected (some ".data") = false := by decide
    simp only [List.mem_cons, List.not_mem_nil, or_false] at hs
    rcases hs with rfl | rfl | rfl
    · exact sectionSafe_sample (by norm_num) (fun _ => by norm_num) (by simp [hnames.1])
    · exact sectionSafe_sample (by norm_num) (fun _ => by norm_num) (by simp [hnames.2.1])
    · exact sectionSafe_sample (by norm_num) (by simp [hnames.2.2]) (fun _ => le_rfl)

theorem relro_sound_sample : ∃ headers sections r dynamic,
    sampleLinked.programHeaders = some headers ∧ Sound headers sections r dynamic 4096 := by
  obtain ⟨headers, sections, r, dynamic, hheaders, -, -, -, hsound, -⟩ :=
    relro_sound (.inl ⟨sampleLinked_accepted, rfl⟩) (by norm_num : 4096 ∣ 16384)
  exact ⟨headers, sections, r, dynamic, hheaders, hsound⟩

/-- The search for the segment around the range adds up the bounds of one that it passes over, and
leaves the safe integers. -/
theorem passed_load_overflows : Linked sampleLinked ∧
    ofType (sampleLinked.programHeaders.getD []) "PT_LOAD" =
      [endlessLoad, sampleSegment "PT_LOAD" 16384 16384] ∧
    integer endlessLoad.virtualAddress = true ∧ integer endlessLoad.memSize = true ∧
    (endlessLoad.virtualAddress.add endlessLoad.memSize).isSafeInteger = false := by
  have haddress : endlessLoad.virtualAddress.IsNatural (2 ^ 53 - 16384) :=
    Double.isNatural_natural (by norm_num [Double.maxSafeInteger])
  have hsize : endlessLoad.memSize.IsNatural 16384 := natural_page le_rfl
  refine ⟨sampleLinked_accepted, rfl, integer_iff.mpr ⟨_, haddress⟩, integer_iff.mpr ⟨_, hsize⟩, ?_⟩
  rw [← Bool.not_eq_true, Double.isSafeInteger_add_iff haddress hsize]
  norm_num [Double.maxSafeInteger]

end RgbLightningNode.Android
