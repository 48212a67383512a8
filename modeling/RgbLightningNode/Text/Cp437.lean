import Mathlib.Data.List.Forall2
import Mathlib.Data.List.GetD
import Mathlib.Data.List.DropRight
import RgbLightningNode.Text.Utf8

/-!
# Code page 437 beside UTF-8

The bytes of one name can be read in two ways. The two texts have the same ASCII characters in the
same places, and between them only other characters: what splits or compares a name by ASCII
characters alone cannot tell the readings apart.
-/

namespace RgbLightningNode.Text

/-- The code points of the upper half of the code page. -/
def cp437High : List ℕ := [
  0xC7, 0xFC, 0xE9, 0xE2, 0xE4, 0xE0, 0xE5, 0xE7, 0xEA, 0xEB, 0xE8, 0xEF,
  0xEE, 0xEC, 0xC4, 0xC5, 0xC9, 0xE6, 0xC6, 0xF4, 0xF6, 0xF2, 0xFB, 0xF9,
  0xFF, 0xD6, 0xDC, 0xA2, 0xA3, 0xA5, 0x20A7, 0x192, 0xE1, 0xED, 0xF3, 0xFA,
  0xF1, 0xD1, 0xAA, 0xBA, 0xBF, 0x2310, 0xAC, 0xBD, 0xBC, 0xA1, 0xAB, 0xBB,
  0x2591, 0x2592, 0x2593, 0x2502, 0x2524, 0x2561, 0x2562, 0x2556, 0x2555, 0x2563, 0x2551, 0x2557,
  0x255D, 0x255C, 0x255B, 0x2510, 0x2514, 0x2534, 0x252C, 0x251C, 0x2500, 0x253C, 0x255E, 0x255F,
  0x255A, 0x2554, 0x2569, 0x2566, 0x2560, 0x2550, 0x256C, 0x2567, 0x2568, 0x2564, 0x2565, 0x2559,
  0x2558, 0x2552, 0x2553, 0x256B, 0x256A, 0x2518, 0x250C, 0x2588, 0x2584, 0x258C, 0x2590, 0x2580,
  0x3B1, 0xDF, 0x393, 0x3C0, 0x3A3, 0x3C3, 0xB5, 0x3C4, 0x3A6, 0x398, 0x3A9, 0x3B4,
  0x221E, 0x3C6, 0x3B5, 0x2229, 0x2261, 0xB1, 0x2265, 0x2264, 0x2320, 0x2321, 0xF7, 0x2248,
  0xB0, 0x2219, 0xB7, 0x221A, 0x207F, 0xB2, 0x25A0, 0xA0]

def cp437Char (b : UInt8) : Char :=
  if b.toNat < 0x80 then Char.ofNat b.toNat else Char.ofNat (cp437High.getD (b.toNat - 0x80) 0xA0)

def decodeCp437 (bytes : List UInt8) : List Char := bytes.map cp437Char

set_option maxRecDepth 1024 in
theorem cp437High_valid : ∀ n ∈ cp437High, 0x80 ≤ n ∧ n.isValidChar := by
  decide

theorem cp437Char_ascii {b : UInt8} (h : b.toNat < 0x80) : cp437Char b = Char.ofNat b.toNat :=
  if_pos h

theorem cp437Char_high {b : UInt8} (h : 0x80 ≤ b.toNat) : 0x80 ≤ (cp437Char b).toNat := by
  have hbound : b.toNat - 0x80 < cp437High.length := by
    have hb := b.toNat_lt
    change b.toNat - 0x80 < 128
    omega
  obtain ⟨hlow, hvalid⟩ := cp437High_valid _ (List.getElem_mem hbound)
  rw [cp437Char, if_neg (by omega), List.getD_eq_getElem _ _ hbound, toNat_ofNat hvalid]
  exact hlow

/-- The second text has the ASCII characters of the first, and writes each of its other characters
with one or more that are not ASCII either. -/
inductive Spells : List Char → List Char → Prop
  | nil : Spells [] []
  | ascii {c : Char} {cs ks : List Char} (hc : c.toNat < 0x80) (rest : Spells cs ks) :
      Spells (c :: cs) (c :: ks)
  | other {c : Char} {cs ks run : List Char} (hc : 0x80 ≤ c.toNat) (hne : run ≠ [])
      (hrun : ∀ k ∈ run, 0x80 ≤ k.toNat) (rest : Spells cs ks) : Spells (c :: cs) (run ++ ks)

namespace Spells

variable {cs ks cs' ks' : List Char} {a : Char}

theorem refl (cs : List Char) : Spells cs cs := by
  induction cs with
  | nil => exact .nil
  | cons c cs ih =>
    by_cases hc : c.toNat < 0x80
    · exact .ascii hc ih
    · have hc : 0x80 ≤ c.toNat := by omega
      exact @Spells.other c _ _ [c] hc (by simp) (by simpa using hc) ih

theorem append (h : Spells cs ks) (h' : Spells cs' ks') : Spells (cs ++ cs') (ks ++ ks') := by
  induction h with
  | nil => exact h'
  | ascii hc _ ih => exact .ascii hc ih
  | other hc hne hrun _ ih =>
    rw [List.append_assoc]
    exact .other hc hne hrun ih

theorem reverse (h : Spells cs ks) : Spells cs.reverse ks.reverse := by
  induction h with
  | nil => exact .nil
  | ascii hc _ ih =>
    rw [List.reverse_cons, List.reverse_cons]
    exact ih.append (.ascii hc .nil)
  | @other c cs ks run hc hne hrun _ ih =>
    rw [List.reverse_cons, List.reverse_append]
    have hlast : Spells [c] run.reverse := by
      have h := @Spells.other c _ _ run.reverse hc (by simpa using hne) (by simpa using hrun) .nil
      rwa [List.append_nil] at h
    exact ih.append hlast

/-- An ASCII character occurs in both or in neither. -/
theorem mem_iff (h : Spells cs ks) (ha : a.toNat < 0x80) : a ∈ ks ↔ a ∈ cs := by
  induction h with
  | nil => rfl
  | ascii _ _ ih => rw [List.mem_cons, List.mem_cons, ih]
  | other hc _ hrun _ ih =>
    rw [List.mem_append, List.mem_cons, ih]
    refine or_congr_left (iff_of_false (fun hmem => ?_) ?_)
    · have hhigh := hrun a hmem
      omega
    · rintro rfl
      omega

theorem eq_nil_iff (h : Spells cs ks) : ks = [] ↔ cs = [] := by
  cases h with
  | nil => rfl
  | ascii _ _ => simp
  | other _ hne _ _ => simp [hne]

theorem dropWhile (h : Spells cs ks) (ha : a.toNat < 0x80) :
    Spells (cs.dropWhile (· == a)) (ks.dropWhile (· == a)) := by
  induction h with
  | nil => exact .nil
  | @ascii c cs ks hc rest ih =>
    by_cases hca : c = a
    · simpa [hca] using ih
    · simpa [hca] using Spells.ascii hc rest
  | @other c cs ks run hc hne hrun rest ih =>
    have hca : c ≠ a := by
      rintro rfl
      omega
    have hkeep : (run ++ ks).dropWhile (· == a) = run ++ ks := by
      obtain ⟨k, run, rfl⟩ := List.exists_cons_of_ne_nil hne
      have hk : 0x80 ≤ k.toNat := hrun k List.mem_cons_self
      have hka : k ≠ a := by
        rintro rfl
        omega
      simp [hka]
    rw [hkeep]
    simpa [hca] using Spells.other hc hne hrun rest

theorem rdropWhile (h : Spells cs ks) (ha : a.toNat < 0x80) :
    Spells (cs.rdropWhile (· == a)) (ks.rdropWhile (· == a)) :=
  (h.reverse.dropWhile ha).reverse

/-- Between the separators the texts correspond piece by piece. -/
theorem splitOn (h : Spells cs ks) (ha : a.toNat < 0x80) :
    List.Forall₂ Spells (cs.splitOn a) (ks.splitOn a) := by
  have hhead {xs ys : List (List Char)} {c run : List Char} (h : List.Forall₂ Spells xs ys)
      (hrun : Spells c run) :
      List.Forall₂ Spells (xs.modifyHead (c ++ ·)) (ys.modifyHead (run ++ ·)) := by
    cases h with
    | nil => exact .nil
    | cons hfirst hrest => exact .cons (hrun.append hfirst) hrest
  have hsplit {run ks : List Char} (hrun : ∀ k ∈ run, k ≠ a) :
      (run ++ ks).splitOn a = (ks.splitOn a).modifyHead (run ++ ·) := by
    induction run with
    | nil =>
      change ks.splitOn a = (ks.splitOn a).modifyHead id
      rw [List.modifyHead_id]
      rfl
    | cons k run ih =>
      have hk : k ≠ a := hrun k List.mem_cons_self
      have ih := ih fun k hk => hrun k (List.mem_cons_of_mem _ hk)
      rw [List.cons_append, List.splitOn_cons_eq_if_modifyHead, if_neg (by simpa using hk), ih,
        List.modifyHead_modifyHead]
      rfl
  induction h with
  | nil => exact .cons .nil .nil
  | @ascii c cs ks hc rest ih =>
    rw [List.splitOn_cons_eq_if_modifyHead, List.splitOn_cons_eq_if_modifyHead]
    by_cases hca : (c == a) = true
    · rw [if_pos hca, if_pos hca]
      exact .cons .nil ih
    · rw [if_neg hca, if_neg hca]
      exact @hhead _ _ [c] [c] ih (.ascii hc .nil)
  | @other c cs ks run hc hne hrun rest ih =>
    have hca : c ≠ a := by
      rintro rfl
      omega
    have hruna : ∀ k ∈ run, k ≠ a := by
      rintro k hk rfl
      have hhigh := hrun k hk
      omega
    have hpiece : Spells [c] run := by
      simpa using Spells.other hc hne hrun .nil
    rw [hsplit hruna, List.splitOn_cons_eq_if_modifyHead, if_neg (by simpa using hca)]
    exact hhead (c := [c]) ih hpiece

/-- An ASCII text is spelt only by itself. -/
theorem eq_iff (h : Spells cs ks) {text : List Char} (htext : ∀ c ∈ text, c.toNat < 0x80) :
    ks = text ↔ cs = text := by
  induction h generalizing text with
  | nil => rfl
  | ascii _ _ ih =>
    cases text with
    | nil => simp
    | cons d text =>
      rw [List.cons_eq_cons, List.cons_eq_cons,
        ih fun c hc => htext c (List.mem_cons_of_mem _ hc)]
  | @other c cs ks run hc hne hrun _ _ =>
    obtain ⟨k, run, rfl⟩ := List.exists_cons_of_ne_nil hne
    refine iff_of_false ?_ ?_
    · rintro rfl
      have hlow := htext k List.mem_cons_self
      have hhigh := hrun k List.mem_cons_self
      omega
    · rintro rfl
      have hlow := htext c List.mem_cons_self
      omega

end Spells

/-- The second clause is about a character whose leading bytes were read before these. -/
theorem spells_decodeFrom {bytes : List UInt8} {cs : List Char} {owed least acc : ℕ}
    (h : decodeFrom owed least acc bytes = some cs) :
    (owed = 0 → Spells cs (decodeCp437 bytes)) ∧
    (owed ≠ 0 → 0x80 ≤ least → ∃ c cs' run ks, cs = c :: cs' ∧ 0x80 ≤ c.toNat ∧
      decodeCp437 bytes = run ++ ks ∧ (∀ k ∈ run, 0x80 ≤ k.toNat) ∧ Spells cs' ks) := by
  induction bytes generalizing cs owed least acc with
  | nil =>
    cases owed with
    | zero =>
      have hcs : [] = cs := by simpa [decodeFrom] using h
      subst hcs
      exact ⟨fun _ => .nil, fun h => absurd rfl h⟩
    | succ owed => simp [decodeFrom] at h
  | cons b rest ih =>
    have hlead {owed least acc : ℕ} (howed : owed ≠ 0) (hleast : 0x80 ≤ least)
        (hb : 0x80 ≤ b.toNat) (h : decodeFrom owed least acc rest = some cs) :
        Spells cs (decodeCp437 (b :: rest)) := by
      obtain ⟨c, cs', run, ks, rfl, hc, hrest, hrun, hspells⟩ := (ih h).2 howed hleast
      have hall : ∀ k ∈ cp437Char b :: run, 0x80 ≤ k.toNat := by
        intro k hk
        rcases List.mem_cons.mp hk with rfl | hk
        · exact cp437Char_high hb
        · exact hrun k hk
      have h := Spells.other hc (List.cons_ne_nil _ _) hall hspells
      rwa [List.cons_append, ← hrest] at h
    obtain _ | _ | owed := owed
    · refine ⟨fun _ => ?_, fun h => absurd rfl h⟩
      rw [decodeFrom] at h
      split at h
      · rename_i hlow
        obtain ⟨cs', hrest, rfl⟩ := Option.map_eq_some_iff.mp h
        have hascii : (Char.ofNat b.toNat).toNat < 0x80 := by
          rw [toNat_ofNat (Or.inl (by omega))]
          exact hlow
        change Spells _ (cp437Char b :: decodeCp437 rest)
        rw [cp437Char_ascii hlow]
        exact .ascii hascii ((ih hrest).1 rfl)
      · rename_i hhigh
        split at h
        · cases h
        split at h
        · exact hlead (Nat.succ_ne_zero _) (by omega) (by omega) h
        split at h
        · exact hlead (Nat.succ_ne_zero _) (by omega) (by omega) h
        split at h
        · exact hlead (Nat.succ_ne_zero _) (by omega) (by omega) h
        · cases h
    · refine ⟨fun h => absurd h (Nat.succ_ne_zero _), fun _ hleast => ?_⟩
      rw [decodeFrom] at h
      split at h
      · rename_i hb
        obtain ⟨cs', hrest, rfl⟩ := Option.map_eq_some_iff.mp h
        refine ⟨_, cs', [cp437Char b], decodeCp437 rest, rfl, ?_, rfl, ?_, (ih hrest).1 rfl⟩
        · rw [toNat_ofNat hb.2.2.2]
          exact hleast.trans hb.2.2.1
        · intro k hk
          rw [List.mem_singleton.mp hk]
          exact cp437Char_high hb.1
      · cases h
    · refine ⟨fun h => absurd h (Nat.succ_ne_zero _), fun _ hleast => ?_⟩
      rw [decodeFrom] at h
      split at h
      · rename_i hb
        obtain ⟨c, cs', run, ks, hcs, hc, hrest, hrun, hspells⟩ :=
          (ih h).2 (Nat.succ_ne_zero owed) hleast
        refine ⟨c, cs', cp437Char b :: run, ks, hcs, hc, ?_, ?_, hspells⟩
        · rw [List.cons_append, ← hrest]
          rfl
        · intro k hk
          rcases List.mem_cons.mp hk with rfl | hk
          · exact cp437Char_high hb.1
          · exact hrun k hk
      · cases h

/-- A name that is valid UTF-8 is spelt by its reading in the code page. -/
theorem spells_decodeCp437 {bytes : List UInt8} {cs : List Char} (h : decodeUtf8 bytes = some cs) :
    Spells cs (decodeCp437 bytes) := (spells_decodeFrom h).1 rfl

end RgbLightningNode.Text
