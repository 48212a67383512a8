import RgbLightningNode.Restore.Containment
import RgbLightningNode.Restore.Prepare

/-!
# Leftovers of a preparation

A preparation works under new temporary names, and creates the receipt key under such a name before
it is moved into place. What a crash leaves of that is no wallet directory and no half of a key.
-/

namespace RgbLightningNode.Restore
open Faulty FileSystem Text

variable {crates : Crates} {ctx : Context crates}

/-! ### Temporary names -/

theorem taken_eq_false {t : Tree} {p : Path} (h : taken t p = false) {q : Path} (hq : p <+: q) :
    t.node q = none := by
  by_contra hnode
  have hsome : (t.node q).isSome = true := Option.isSome_iff_ne_none.mpr hnode
  have htaken : taken t p = true := by
    apply List.any_eq_true.mpr
    exact ⟨q, t.complete q hsome, by simp [hq, hsome]⟩
  rw [h] at htaken
  cases htaken

theorem tempName_inj {stem : String} {m n : ℕ} (h : tempName stem m = tempName stem n) : m = n := by
  unfold tempName at h
  have htext : printNat m = printNat n := by
    simpa [← String.toList_inj, printNat] using h
  have hread (k : ℕ) : readNat (printNat k) = some (k, []) := by
    have hprint := @readNat_print k [] (fun c hc => by cases hc)
    rwa [List.append_nil] at hprint
  have hsame := hread m
  rw [htext, hread n] at hsame
  exact (Prod.mk.inj (Option.some.inj hsame)).1.symm

/-- The names of staging directories and of keys that are not in place yet. -/
def Scratch (name : Name) : Prop :=
  ∃ k, name = tempName ".vss-restore-" k ∨ name = tempName ".vss-receipt-key-" k

theorem tempName_head (stem : String) (k : ℕ) (h : stem.toList ≠ []) :
    (tempName stem k).toList.head? = stem.toList.head? := by
  unfold tempName
  rw [String.toList_append, List.head?_append_of_ne_nil _ h]

theorem tempName_ne {stem : String} {k : ℕ} {name : Name}
    (h : stem.toList.isPrefixOf name.toList = false) : tempName stem k ≠ name := by
  rintro rfl
  unfold tempName at h
  rw [String.toList_append] at h
  have hinitial :=
    List.isPrefixOf_iff_prefix.mpr (List.prefix_append stem.toList (toString k).toList)
  rw [h] at hinitial
  cases hinitial

theorem Scratch.ne_key {name : Name} (h : Scratch name) : name ≠ keyName := by
  obtain ⟨k, rfl | rfl⟩ := h
  · exact tempName_ne (by decide)
  · exact tempName_ne (by decide)

theorem Scratch.invalid {name : Name} (h : Scratch name) : validFp name = false := by
  have hdot : name.toList.head? = some '.' := by
    obtain ⟨k, rfl | rfl⟩ := h
    · rw [tempName_head _ _ (by decide)]
      rfl
    · rw [tempName_head _ _ (by decide)]
      rfl
  apply Bool.eq_false_iff.mpr
  intro hvalid
  simp only [validFp, Bool.and_eq_true, List.all_eq_true] at hvalid
  exact absurd (hvalid.2 '.' (List.mem_of_head? hdot)) (by decide)

theorem stage_ne_temp (k k' : ℕ) :
    tempName ".vss-restore-" k ≠ tempName ".vss-receipt-key-" k' := by
  intro h
  have hthird := congrArg (fun name => name.toList[7]?) h
  simp [tempName] at hthird

theorem createTemp_spec {s : Tree} {base : Path} {stem : String} {node : Node} :
    Holds (createTemp base stem node) s (fun o s' => match o with
      | .ok p => ∃ k, p = base ++ [tempName stem k] ∧ taken s p = false ∧
          s.hasParent p = true ∧ s' = s.put p node
      | .error _ | .died => s' = s
      | .panicked => False) := by
  refine holds_primitive ?_ rfl rfl
  intro n
  by_cases hfree : (taken s (base ++ [freeName s base stem n]) ||
      !s.hasParent (base ++ [freeName s base stem n])) = true
  · simp only [hfree, if_true]
  · simp only [hfree]
    rw [Bool.not_eq_true, Bool.or_eq_false_iff] at hfree
    exact ⟨_, rfl, hfree.1, by simpa using hfree.2, rfl⟩

/-! ### Frames -/

def Beneath (p : Path) : Set Path := {q | p <+: q}

variable (ctx) in
/-- The new temporary names, with everything below them. -/
def Scratched (t : Tree) : Set Path :=
  {q | ∃ name rest, q = ctx.base ++ name :: rest ∧ Scratch name ∧
    t.node (ctx.base ++ [name]) = none}

variable (ctx) in
/-- A receipt key where there was none. -/
def NewKey (t : Tree) : Set Path := {q | ctx.keyPath <+: q ∧ t.node ctx.keyPath = none}

variable (ctx) in
/-- The key is what it was, or a whole new one where there was none. -/
def KeyState (t s : Tree) : Prop :=
  s.node ctx.keyPath = t.node ctx.keyPath ∨ (t.node ctx.keyPath = none ∧
    ∃ key, key.length = 32 ∧ s.node ctx.keyPath = some (.file key (ownedAttr 0o600)))

theorem KeyState.congr {t s s' : Tree} (h : KeyState ctx t s)
    (hsame : s'.node ctx.keyPath = s.node ctx.keyPath) : KeyState ctx t s' := by
  unfold KeyState
  rw [hsame]
  exact h

variable (ctx) in
/-- The tree differs from an earlier one by leftovers of preparations: temporary names that were
free, and a receipt key where there was none. -/
structure Leftovers (t s : Tree) : Prop where
  off : t.AgreeOff (Scratched ctx t ∪ NewKey ctx t) s
  key : KeyState ctx t s

theorem notMem_scratched {t : Tree} {name : Name} {rest : Path} (hname : ¬Scratch name) :
    ctx.base ++ name :: rest ∉ Scratched ctx t := by
  rintro ⟨name', rest', heq, hscratch, _⟩
  have hcons := List.cons.inj (List.append_cancel_left heq)
  rw [hcons.1] at hname
  exact hname hscratch

theorem key_notMem_scratched {t : Tree} : ctx.keyPath ∉ Scratched ctx t :=
  notMem_scratched fun hscratch => hscratch.ne_key rfl

theorem notMem_newKey {t : Tree} {name : Name} {rest : Path} (hname : name ≠ keyName) :
    ctx.base ++ name :: rest ∉ NewKey ctx t := by
  rintro ⟨⟨more, heq⟩, _⟩
  rw [Context.keyPath, List.append_assoc] at heq
  exact hname (List.cons.inj (List.append_cancel_left heq)).1.symm

namespace Leftovers

variable {t s s' : Tree}

theorem refl (t : Tree) : Leftovers ctx t t := ⟨.refl _ _, Or.inl rfl⟩

/-- Only temporary names change. -/
theorem scratch (h : Leftovers ctx t s) (hoff : s.AgreeOff (Scratched ctx t) s') :
    Leftovers ctx t s' where
  off := h.off.trans (hoff.mono Set.subset_union_left)
  key := h.key.congr (hoff _ key_notMem_scratched)

/-- A name that is free now was free before. -/
theorem free (h : Leftovers ctx t s) {name : Name} (hscratch : Scratch name)
    (hfree : s.node (ctx.base ++ [name]) = none) : t.node (ctx.base ++ [name]) = none := by
  by_contra hnode
  have hout : ctx.base ++ [name] ∉ Scratched ctx t ∪ NewKey ctx t := by
    rintro (⟨name', rest, heq, _, hnone⟩ | hkey)
    · obtain ⟨rfl, rfl⟩ : name = name' ∧ [] = rest := by simpa using List.append_cancel_left heq
      exact hnode hnone
    · exact notMem_newKey hscratch.ne_key hkey
  exact hnode (by rw [← h.off _ hout, hfree])

theorem no_key (h : Leftovers ctx t s) (hnone : s.node ctx.keyPath = none) :
    t.node ctx.keyPath = none := by
  rcases h.key with hsame | ⟨hfree, _⟩
  · rw [← hsame, hnone]
  · exact hfree

end Leftovers

theorem beneath_scratched {t : Tree} {name : Name} (hscratch : Scratch name)
    (hnone : t.node (ctx.base ++ [name]) = none) :
    Beneath (ctx.base ++ [name]) ⊆ Scratched ctx t := by
  rintro q ⟨rest, rfl⟩
  exact ⟨name, rest, by simp, hscratch, hnone⟩

/-! ### The receipt key -/

theorem discard_removeFile_spec {s : Tree} {p : Path} :
    Holds (discard (removeFile p)) s (fun o s' => s.AgreeOff {p} s' ∧
      match o with
        | .ok _ | .died => True
        | .error _ | .panicked => False) := by
  have hsame : s.AgreeOff {p} s := .refl _ _
  apply holds_bind
  apply holds_attempt
  apply holds_removeFile
  · exact fun _ => holds_pure ⟨hsame.erase (Set.mem_singleton p), trivial⟩
  · exact fun _ => holds_pure ⟨hsame, trivial⟩
  · exact ⟨hsame, trivial⟩

theorem metadataOk_spec {s : Tree} {p : Path} : Holds (metadataOk p) s (fun o s' => s = s' ∧
    match o with
      | .ok true => s.node p ≠ none
      | .ok false | .died => True
      | .error _ | .panicked => False) := by
  apply holds_bind
  apply holds_attempt
  apply holds_symlinkMetadata
  · intro n hn
    refine holds_pure ⟨rfl, ?_⟩
    change s.node p ≠ none
    rw [hn]
    simp
  · exact fun _ => holds_pure ⟨rfl, trivial⟩
  · exact holds_pure ⟨rfl, trivial⟩
  · exact ⟨rfl, trivial⟩

theorem randomKey_length (seed : ℕ) : (randomKey seed).length = 32 := by
  simp [randomKey]

variable (ctx) in
/-- What creating the key can change. -/
def KeyPaths (k : ℕ) : Set Path :=
  Beneath (ctx.base ++ [tempName ".vss-receipt-key-" k]) ∪ Beneath ctx.keyPath

theorem keyFile_of_node {s : Tree} {key : Bytes} (hlength : key.length = 32)
    (hnode : s.node ctx.keyPath = some (.file key (ownedAttr 0o600))) : KeyFile ctx s key :=
  ⟨⟨_, hnode, rfl, by omega⟩, hlength⟩

theorem holds_promote {s : Tree} {source target : Path} {Q : Outcome APIError Unit → Tree → Prop}
    (hok : s.node source ≠ none → s.node target = none → Q (.ok ()) (s.move source target))
    (herror : Q (.error (error "VSS_RESTORE_TARGET_CONFLICT")) s) (hdie : Q .died s) :
    Holds (promote source target) s Q := by
  refine holds_primitive ?_ herror hdie
  intro _
  by_cases hblocked : ((s.node source).isNone || (s.node target).isSome ||
      !s.hasParent target) = true
  · simp only [hblocked, if_true]
    exact herror
  · simp only [hblocked]
    rw [Bool.not_eq_true, Bool.or_eq_false_iff, Bool.or_eq_false_iff] at hblocked
    apply hok
    · rw [← Option.isSome_iff_ne_none]
      simpa using hblocked.1.1
    · simpa using hblocked.1.2

theorem move_agreeOff (s : Tree) (source target : Path) :
    s.AgreeOff (Beneath source ∪ Beneath target) (s.move source target) := by
  intro q hq
  rw [Set.mem_union, not_or] at hq
  have hsource : ¬source <+: q := hq.1
  have htarget : ¬target <+: q := hq.2
  simp [Tree.move, hsource, htarget]

theorem move_node (s : Tree) (source target rest : Path) :
    (s.move source target).node (target ++ rest) = s.node (source ++ rest) := by
  simp [Tree.move]

/-- Everything the key's creation changes is a leftover. -/
theorem keyPaths_subset {t : Tree} {k : ℕ}
    (hfree : t.node (ctx.base ++ [tempName ".vss-receipt-key-" k]) = none)
    (hkey : t.node ctx.keyPath = none) :
    KeyPaths ctx k ⊆ Scratched ctx t ∪ NewKey ctx t := by
  rintro q (hq | hq)
  · exact Or.inl (beneath_scratched ⟨k, Or.inr rfl⟩ hfree hq)
  · exact Or.inr ⟨hq, hkey⟩

variable (ctx) in
/-- How the creation of the key can end, once its temporary file has a name. -/
def KeyMade (t s : Tree) (k : ℕ) : Outcome APIError Bytes → Tree → Prop := fun o s' =>
  Leftovers ctx t s' ∧ s.AgreeOff (KeyPaths ctx k) s' ∧ match o with
    | .ok key => KeyFile ctx s' key
    | .error _ | .died => True
    | .panicked => False

theorem createKey_spec {t s s₀ : Tree} {k : ℕ} (h : Leftovers ctx t s)
    (hoff : s₀.AgreeOff (KeyPaths ctx k) s)
    (hfree : t.node (ctx.base ++ [tempName ".vss-receipt-key-" k]) = none)
    (hnode : s.node (ctx.base ++ [tempName ".vss-receipt-key-" k]) =
      some (.file [] (ownedAttr 0o600))) :
    Holds (createKey ctx (ctx.base ++ [tempName ".vss-receipt-key-" k])) s
      (KeyMade ctx t s₀ k) := by
  have hscratch : Scratch (tempName ".vss-receipt-key-" k) := ⟨k, Or.inr rfl⟩
  set temp := ctx.base ++ [tempName ".vss-receipt-key-" k] with htemp
  have hmem : temp ∈ Scratched ctx t := beneath_scratched hscratch hfree List.prefix_rfl
  have hwrite (bytes : Bytes) : Leftovers ctx t (appendBytes temp bytes s) ∧
      s₀.AgreeOff (KeyPaths ctx k) (appendBytes temp bytes s) := by
    refine ⟨h.scratch (appendBytes_agreeOff (.refl _ _) hmem bytes), ?_⟩
    exact appendBytes_agreeOff hoff (Or.inl List.prefix_rfl) bytes
  apply holds_bind
  refine holds_choose ?_ ⟨h, hoff, trivial⟩
  intro seed
  apply holds_bind
  apply holds_mapError
  apply holds_writeAll
  · obtain ⟨h₁, hoff₁⟩ := hwrite (randomKey seed)
    have hnode₁ : (appendBytes temp (randomKey seed) s).node temp =
        some (.file (randomKey seed) (ownedAttr 0o600)) := by
      rw [appendBytes_file hnode, Tree.put_node_self, List.nil_append]
    generalize appendBytes temp (randomKey seed) s = s₁ at h₁ hoff₁ hnode₁
    apply holds_bind
    apply holds_mapError
    apply holds_syncAll
    · apply holds_bind
      apply holds_attempt
      apply holds_promote
      · intro _ hnone
        have hkey := h₁.no_key hnone
        have hmoved : s₁.AgreeOff (KeyPaths ctx k) (s₁.move temp ctx.keyPath) :=
          move_agreeOff s₁ temp ctx.keyPath
        have hplaced : (s₁.move temp ctx.keyPath).node ctx.keyPath =
            some (.file (randomKey seed) (ownedAttr 0o600)) := by
          have hnode := move_node s₁ temp ctx.keyPath []
          rwa [List.append_nil, List.append_nil, hnode₁] at hnode
        have hleft : Leftovers ctx t (s₁.move temp ctx.keyPath) :=
          ⟨h₁.off.trans (hmoved.mono (keyPaths_subset hfree hkey)),
            Or.inr ⟨hkey, _, randomKey_length seed, hplaced⟩⟩
        apply holds_bind
        apply holds_mapError
        apply holds_syncAll
        · apply holds_pure
          exact ⟨hleft, hoff₁.trans hmoved, keyFile_of_node (randomKey_length seed) hplaced⟩
        · exact ⟨hleft, hoff₁.trans hmoved, trivial⟩
        · exact ⟨hleft, hoff₁.trans hmoved, trivial⟩
      · apply holds_bind
        refine metadataOk_spec.mono ?_
        rintro o _ ⟨rfl, ho⟩
        cases o with
        | ok found =>
          cases found with
          | true =>
            refine readKey_spec.mono ?_
            rintro o _ ⟨rfl, hpanic, hkey⟩
            refine ⟨h₁, hoff₁, ?_⟩
            cases o with
            | ok key => exact hkey key rfl
            | error _ => trivial
            | panicked => exact absurd rfl hpanic
            | died => trivial
          | false => exact holds_throw ⟨h₁, hoff₁, trivial⟩
        | error _ => exact ho.elim
        | panicked => exact ho.elim
        | died => exact ⟨h₁, hoff₁, trivial⟩
      · exact ⟨h₁, hoff₁, trivial⟩
    · exact ⟨h₁, hoff₁, trivial⟩
    · exact ⟨h₁, hoff₁, trivial⟩
  · exact fun n => ⟨(hwrite _).1, (hwrite _).2, trivial⟩
  · exact fun n => ⟨(hwrite _).1, (hwrite _).2, trivial⟩

/-- The key is there when it is handed out, and nothing but it and a temporary name has changed. -/
theorem receiptKey_spec {t s : Tree} (h : Leftovers ctx t s) :
    Holds (receiptKey ctx) s (fun o s' => ∃ k, KeyMade ctx t s k o s') := by
  apply holds_bind
  refine metadataOk_spec.mono ?_
  rintro o _ ⟨rfl, ho⟩
  cases o with
  | ok found =>
    cases found with
    | true =>
      refine readKey_spec.mono ?_
      rintro o _ ⟨rfl, hpanic, hkey⟩
      refine ⟨0, h, .refl _ _, ?_⟩
      cases o with
      | ok key => exact hkey key rfl
      | error _ => trivial
      | panicked => exact absurd rfl hpanic
      | died => trivial
    | false =>
      apply holds_bind
      refine createTemp_spec.mono ?_
      intro o s' ho
      cases o with
      | ok temp =>
        obtain ⟨k, rfl, hfree, _, rfl⟩ := ho
        have hnone := h.free ⟨k, Or.inr rfl⟩ (taken_eq_false hfree List.prefix_rfl)
        have hscratched := @beneath_scratched crates ctx _ _ ⟨k, Or.inr rfl⟩ hnone
        have hput := (Tree.AgreeOff.refl (Beneath (ctx.base ++ [tempName ".vss-receipt-key-" k]))
          s).put List.prefix_rfl (.file [] (ownedAttr 0o600))
        apply holds_ensure
        refine (createKey_spec (h.scratch (hput.mono hscratched))
          (hput.mono Set.subset_union_left) hnone (Tree.put_node_self _ _ _)).mono ?_
        rintro o s₁ ⟨h₁, hoff₁, ho₁⟩
        have hclean (o : Outcome APIError Bytes) (ho : match o with
            | .ok key => KeyFile ctx s₁ key
            | .error _ | .died => True
            | .panicked => False) :
            Holds (discard (removeFile (ctx.base ++ [tempName ".vss-receipt-key-" k]))) s₁
              (fun c s₂ => ∃ k, KeyMade ctx t s k (o.after c) s₂) := by
          refine discard_removeFile_spec.mono ?_
          rintro c s₂ ⟨hoff₂, hc⟩
          have hone : ({ctx.base ++ [tempName ".vss-receipt-key-" k]} : Set Path) ⊆
              Beneath (ctx.base ++ [tempName ".vss-receipt-key-" k]) := by
            rintro q rfl
            exact List.prefix_rfl
          have h₂ := h₁.scratch (hoff₂.mono (hone.trans hscratched))
          have hall := hoff₁.trans (hoff₂.mono (hone.trans Set.subset_union_left))
          have hkey (key : Bytes) (hkey : KeyFile ctx s₁ key) : KeyFile ctx s₂ key := by
            obtain ⟨⟨attr, hnode, hrest⟩, hlength⟩ := hkey
            refine ⟨⟨attr, ?_, hrest⟩, hlength⟩
            rw [hoff₂ _ ?_, hnode]
            intro heq
            have hname : [keyName] = [tempName ".vss-receipt-key-" k] :=
              List.append_cancel_left heq
            exact Scratch.ne_key ⟨k, Or.inr rfl⟩ (List.cons.inj hname).1.symm
          cases c with
          | ok _ =>
            refine ⟨k, h₂, hall, ?_⟩
            cases o with
            | ok key => exact hkey key ho
            | error _ => trivial
            | panicked => exact ho
            | died => trivial
          | error _ => exact hc.elim
          | panicked => exact hc.elim
          | died => exact ⟨k, h₂, hall, trivial⟩
        cases o with
        | ok key => exact hclean (.ok key) ho₁
        | error failure => exact hclean (.error failure) trivial
        | panicked => exact ho₁.elim
        | died => exact ⟨k, h₁, hoff₁, trivial⟩
      | error _ =>
        obtain rfl := ho
        exact ⟨0, h, .refl _ _, trivial⟩
      | panicked => exact ho.elim
      | died =>
        obtain rfl := ho
        exact ⟨0, h, .refl _ _, trivial⟩
  | error _ => exact ho.elim
  | panicked => exact ho.elim
  | died => exact ⟨0, h, .refl _ _, trivial⟩

end RgbLightningNode.Restore
