import RgbLightningNode.FileSystem.Mirror
import RgbLightningNode.Restore.Preparation

/-!
# A preparation after an interrupted one

Where no wallet directory was promoted, a preparation that nothing disturbs ends as it would have
ended without the leftovers of earlier ones, as long as the remote store answers the same.
-/

namespace RgbLightningNode.Restore
open Faulty FileSystem Text

variable {crates : Crates} {ctx : Context crates}

/-! ### The extraction -/

section Extraction

variable {stage stage' : Path} {t₀ t₀' t t' : Tree} {e : Entry}

theorem mimics_orError {α : Type} {code : String} {m m' : Io α} {R : Tree → Tree → Prop}
    (h : Mimics m t m' t' (fun _ => R)) :
    Mimics (orError code m) t (orError code m') t' (fun _ => R) := mimics_mapError h

theorem mimics_privateDirectory (h : Mirrored stage stage' t₀ t₀' t t') {rest : Path}
    (hrest : rest ≠ []) :
    Mimics (privateDirectory stage (stage ++ rest)) t (privateDirectory stage' (stage' ++ rest)) t'
      (fun _ => Mirrored stage stage' t₀ t₀') := by
  apply mimics_seq (mimics_orError (mimics_createDirAll h hrest))
  intro _ u u' hu
  rw [takeWhile_ancestors_append, takeWhile_ancestors_append]
  refine mimics_forM hu ?_
  intro place hplace v v' hv
  have hne : place ≠ [] := by simpa using List.mem_takeWhile_imp hplace
  exact mimics_orError (mimics_setPermissions hv hne _)

theorem mimics_extractFile (h : Mirrored stage stage' t₀ t₀' t t') {rest : Path}
    (hrest : rest ≠ []) (total : UInt64) :
    Mimics (extractFile (stage ++ rest) total e) t (extractFile (stage' ++ rest) total e) t'
      (fun _ => Mirrored stage stage' t₀ t₀') := by
  apply mimics_seq (mimics_orError (mimics_createNew h hrest _))
  intro _ u u' hu
  apply mimics_seq (mimics_orError (mimics_copy hu hrest _))
  intro count v v' hv
  split
  · exact mimics_throw hv
  · split
    · exact mimics_throw hv
    · apply mimics_seq (mimics_orError (mimics_syncAll hv))
      exact fun _ w w' hw => mimics_pure hw

theorem mimics_extractEntry (h : Mirrored stage stage' t₀ t₀' t t') {rest : List (List Char)}
    (hplaced : Placed ctx e rest) (total : UInt64) :
    Mimics (extractEntry ctx stage total (some e)) t (extractEntry ctx stage' total (some e)) t'
      (fun _ => Mirrored stage stage' t₀ t₀') := by
  set place := ctx.fp :: rest.map String.ofList with hplace
  have hjoin (stage : Path) : join stage (cleanName e.name) = stage ++ place :=
    hplaced.below.join_eq
  by_cases hreceipt : cleanName e.name = inWallet ctx receiptName
  · simp only [extractEntry, hreceipt, if_true]
    exact mimics_pure h
  cases hdir : e.isDir with
  | true =>
    simp only [extractEntry, hreceipt, hjoin, hdir, if_true, if_false]
    change Mimics (do privateDirectory stage (stage ++ place); pure total) t
      (do privateDirectory stage' (stage' ++ place); pure total) t' _
    exact mimics_seq (mimics_privateDirectory h (by simp [hplace])) fun _ u u' hu => mimics_pure hu
  | false =>
    have hrest : rest.map String.ofList ≠ [] := by
      intro hnil
      rw [hplaced.base (List.map_eq_nil_iff.mp hnil)] at hdir
      cases hdir
    have hparent (stage : Path) :
        parent (stage ++ place) = (pure (stage ++ place.dropLast) : Proc Tree APIError Path) := by
      unfold parent
      rw [if_neg (by simp [hplace]), List.dropLast_append_of_ne_nil (by simp [hplace])]
    have hne : place.dropLast ≠ [] := by
      rw [hplace, List.dropLast_cons_of_ne_nil hrest]
      simp
    simp only [extractEntry, hreceipt, hjoin, hdir, hparent, if_false, Bool.false_eq_true]
    change Mimics
      (do privateDirectory stage (stage ++ place.dropLast); extractFile (stage ++ place) total e) t
      (do privateDirectory stage' (stage' ++ place.dropLast)
          extractFile (stage' ++ place) total e) t' _
    exact mimics_seq (mimics_privateDirectory h hne)
      fun _ u u' hu => mimics_extractFile hu (by simp [hplace]) total

theorem mimics_extract {zip : ZipReader} {bytes : Bytes} {identity : String}
    (hplan : archivePlan ctx zip bytes = .ok identity)
    (h : Mirrored stage stage' t₀ t₀' t t') :
    Mimics (extract ctx zip bytes stage) t (extract ctx zip bytes stage') t'
      (fun _ => Mirrored stage stage' t₀ t₀') := by
  obtain ⟨entries, hzip, hsound⟩ := archivePlan_sound hplan
  unfold extract
  rw [hzip]
  refine mimics_seq (mimics_foldlM h ?_) fun _ u u' hu => mimics_pure hu
  intro entry hentry total u u' hu
  obtain ⟨e, he, rfl⟩ := List.mem_map.mp hentry
  obtain ⟨rest, hplaced⟩ := hsound.placed e he
  exact mimics_extractEntry hu hplaced total

end Extraction

/-! ### Reading -/

section Reading

variable {t t' : Tree} {p : Path}

/-- What opening a directory comes to. -/
def directoryOutcome : Option Node → Outcome APIError Unit
  | some (.dir attr) => if attr.owned then .ok () else .error (error "VSS_RESTORE_INVALID_TARGET")
  | _ => .error (error "VSS_RESTORE_INVALID_TARGET")

/-- The second half of opening a directory, on whatever the first half found there. -/
theorem checkedDirectory_calmly {n : Node} (hn : t.node p = some n) : Calmly (do
    let metadata ← orError "VSS_RESTORE_INVALID_TARGET" (symlinkMetadata p)
    match metadata with
    | .dir attr => if attr.owned then return () else .throw (error "VSS_RESTORE_INVALID_TARGET")
    | _ => .throw (error "VSS_RESTORE_INVALID_TARGET")) t (fun o t' =>
      o = directoryOutcome (some n) ∧ t = t') := by
  apply calmly_bind
  apply calmly_mapError
  apply calmly_primitive
  intro _
  rw [hn]
  cases n with
  | dir attr =>
    change Calmly (if attr.owned then _ else _) t _
    cases howned : attr.owned with
    | true => exact calmly_pure ⟨by simp [directoryOutcome, howned], rfl⟩
    | false => exact calmly_throw ⟨by simp [directoryOutcome, howned], rfl⟩
  | file _ _ => exact calmly_throw ⟨rfl, rfl⟩
  | symlink => exact calmly_throw ⟨rfl, rfl⟩
  | special => exact calmly_throw ⟨rfl, rfl⟩

theorem openDirectory_calmly : Calmly (openDirectory p) t (fun o t' =>
    o = directoryOutcome (t.node p) ∧ t = t') := by
  apply calmly_bind
  apply calmly_mapError
  apply calmly_primitive
  intro _
  cases hn : t.node p with
  | none => exact ⟨rfl, rfl⟩
  | some n =>
  have hmetadata := checkedDirectory_calmly hn
  cases n with
  | symlink => exact ⟨rfl, rfl⟩
  | file _ _ => exact hmetadata
  | dir _ => exact hmetadata
  | special => exact hmetadata

theorem directoryOutcome_ends (n : Option Node) : (directoryOutcome n).Ends := by
  unfold directoryOutcome
  split
  · split <;> trivial
  · trivial

theorem mimics_openDirectory {p' : Path} {R : Tree → Tree → Prop}
    (hsame : directoryOutcome (t'.node p') = directoryOutcome (t.node p)) (hR : R t t') :
    Mimics (openDirectory p) t (openDirectory p') t' (fun _ => R) := by
  have h' : Calmly (openDirectory p') t' (fun o u => o = directoryOutcome (t.node p) ∧ t' = u) := by
    rw [← hsame]
    exact openDirectory_calmly
  refine mimics_of_calmly (directoryOutcome_ends _) openDirectory_calmly h' ?_
  rintro _ _ rfl rfl
  exact hR

theorem metadataOk_calmly : Calmly (metadataOk p) t (fun o t' =>
    o = .ok (t.node p).isSome ∧ t = t') := by
  apply calmly_bind
  apply calmly_attempt
  apply calmly_primitive
  intro _
  cases t.node p <;> exact calmly_pure ⟨rfl, rfl⟩

theorem mimics_metadataOk {p' : Path} {R : Tree → Tree → Prop}
    (hsame : (t'.node p').isSome = (t.node p).isSome) (hR : R t t') :
    Mimics (metadataOk p) t (metadataOk p') t'
      (fun o u u' => o = .ok (t.node p).isSome ∧ R u u') := by
  have h' : Calmly (metadataOk p') t' (fun o u => o = .ok (t.node p).isSome ∧ t' = u) := by
    rw [← hsame]
    exact metadataOk_calmly
  refine mimics_of_calmly (o := .ok (t.node p).isSome) trivial metadataOk_calmly h' ?_
  rintro _ _ rfl rfl
  exact ⟨rfl, hR⟩

/-- Neither tree changes. -/
abbrev Unchanged {α : Type} (t t' : Tree) : Outcome APIError α → Tree → Tree → Prop :=
  fun _ u u' => t = u ∧ t' = u'

theorem mimics_symlinkMetadata (hsame : t'.node p = t.node p) (code : String) :
    Mimics (orError code (symlinkMetadata p)) t (orError code (symlinkMetadata p)) t'
      (Unchanged t t') := by
  apply mimics_mapError
  apply mimics_primitive
  intro _ _
  rw [hsame]
  cases t.node p <;> exact ⟨trivial, rfl, rfl, rfl⟩

theorem mimics_openNoFollow (hsame : t'.node p = t.node p) (code : String) :
    Mimics (orError code (openNoFollow p)) t (orError code (openNoFollow p)) t'
      (Unchanged t t') := by
  apply mimics_mapError
  apply mimics_primitive
  intro _ _
  rw [hsame]
  cases t.node p with
  | none => exact ⟨trivial, rfl, rfl, rfl⟩
  | some n => cases n <;> exact ⟨trivial, rfl, rfl, rfl⟩

theorem mimics_readToEnd (hsame : t'.node p = t.node p) :
    Mimics (readToEnd p) t (readToEnd p) t' (fun _ u u' => t = u ∧ t' = u') := by
  apply mimics_primitive
  intro _ _
  rw [hsame]
  cases t.node p with
  | none => exact ⟨trivial, rfl, rfl, rfl⟩
  | some n => cases n <;> exact ⟨trivial, rfl, rfl, rfl⟩

theorem mimics_privateRead (hsame : t'.node p = t.node p) (maximum : ℕ) :
    Mimics (privateRead p maximum) t (privateRead p maximum) t' (Unchanged t t') := by
  apply mimics_seq (mimics_openNoFollow hsame _)
  rintro _ _ _ ⟨rfl, rfl⟩
  apply mimics_seq (mimics_symlinkMetadata hsame _)
  rintro n _ _ ⟨rfl, rfl⟩
  split
  · exact mimics_throw ⟨rfl, rfl⟩
  cases n with
  | file content attr =>
    change Mimics (if content.length > maximum then _ else _) t
      (if content.length > maximum then _ else _) t' _
    split
    · exact mimics_throw ⟨rfl, rfl⟩
    apply mimics_seq (mimics_orError (mimics_readToEnd hsame))
    rintro bytes _ _ ⟨rfl, rfl⟩
    split
    · exact mimics_throw ⟨rfl, rfl⟩
    · exact mimics_pure ⟨rfl, rfl⟩
  | dir _ => exact mimics_throw ⟨rfl, rfl⟩
  | symlink => exact mimics_throw ⟨rfl, rfl⟩
  | special => exact mimics_throw ⟨rfl, rfl⟩

theorem mimics_readKey (hsame : t'.node ctx.keyPath = t.node ctx.keyPath) :
    Mimics (readKey ctx) t (readKey ctx) t' (Unchanged t t') := by
  apply mimics_seq (mimics_privateRead hsame 32)
  rintro key _ _ ⟨rfl, rfl⟩
  split
  · exact mimics_throw ⟨rfl, rfl⟩
  · exact mimics_pure ⟨rfl, rfl⟩

/-- A receipt is loaded from one tree in one way. -/
theorem mimics_loadReceipt (serde : ReceiptSerde) :
    Mimics (loadReceipt ctx serde) t (loadReceipt ctx serde) t (Unchanged t t) := by
  apply mimics_seq (mimics_openDirectory rfl ⟨rfl, rfl⟩)
  rintro _ u _ ⟨rfl, rfl⟩
  apply mimics_seq (mimics_privateRead rfl maxReceipt)
  rintro bytes _ _ ⟨rfl, rfl⟩
  split
  · exact mimics_throw ⟨rfl, rfl⟩
  split
  · exact mimics_throw ⟨rfl, rfl⟩
  apply mimics_seq (mimics_readKey rfl)
  rintro key _ _ ⟨rfl, rfl⟩
  split
  · exact mimics_throw ⟨rfl, rfl⟩
  apply mimics_seq (mimics_privateRead rfl maxManifest)
  rintro content _ _ ⟨rfl, rfl⟩
  split
  · exact mimics_throw ⟨rfl, rfl⟩
  split
  · exact mimics_throw ⟨rfl, rfl⟩
  · exact mimics_pure ⟨rfl, rfl⟩

end Reading

/-! ### Temporary names -/

section Temporary

variable {t : Tree} {base : Path} {stem : String}

/-- Among more names than the tree has nodes, one is free. -/
theorem exists_free (t : Tree) (base : Path) (stem : String) (n : ℕ) :
    ∃ k ∈ (List.range (t.names.length + 1)).map (n + ·),
      taken t (base ++ [tempName stem k]) = false := by
  by_contra hnone
  push Not at hnone
  have htaken : ∀ i < t.names.length + 1, ∃ q ∈ t.names, base ++ [tempName stem (n + i)] <+: q := by
    intro i hi
    have h := hnone (n + i) (List.mem_map_of_mem (List.mem_range.mpr hi))
    rw [ne_eq, Bool.not_eq_false, taken, List.any_eq_true] at h
    obtain ⟨q, hq, hpre⟩ := h
    rw [Bool.and_eq_true, List.isPrefixOf_iff_prefix] at hpre
    exact ⟨q, hq, hpre.1⟩
  choose! place hmem hinitial using htaken
  have hinj : ∀ i < t.names.length + 1, ∀ j < t.names.length + 1, place i = place j → i = j := by
    intro i hi j hj hij
    have hlast := hinitial i hi
    rw [hij] at hlast
    have hsame := List.prefix_of_prefix_length_le hlast (hinitial j hj) (by simp)
    have heq := List.append_cancel_left (hsame.eq_of_length (by simp))
    have hname := tempName_inj (List.cons.inj heq).1
    omega
  have hnodup : ((List.range (t.names.length + 1)).map place).Nodup := by
    apply List.Nodup.map_on _ List.nodup_range
    exact fun i hi j hj => hinj i (List.mem_range.mp hi) j (List.mem_range.mp hj)
  have hsubset : (List.range (t.names.length + 1)).map place ⊆ t.names := by
    intro q hq
    obtain ⟨i, hi, rfl⟩ := List.mem_map.mp hq
    exact hmem i (List.mem_range.mp hi)
  have hlength := (hnodup.subperm hsubset).length_le
  rw [List.length_map, List.length_range] at hlength
  omega

theorem freeName_free (t : Tree) (base : Path) (stem : String) (n : ℕ) :
    ∃ k, freeName t base stem n = tempName stem k ∧
      taken t (base ++ [freeName t base stem n]) = false := by
  obtain ⟨k, hk, hfree⟩ := exists_free t base stem n
  unfold freeName
  cases hfind : ((List.range (t.names.length + 1)).map (n + ·)).find? fun k =>
      !taken t (base ++ [tempName stem k]) with
  | none =>
    have hall := List.find?_eq_none.mp hfind k hk
    rw [hfree] at hall
    exact absurd rfl hall
  | some j =>
    refine ⟨j, rfl, ?_⟩
    simpa using List.find?_some hfind

theorem createTemp_calmly {node : Node} (hbase : t.isDirectory base = true) :
    Calmly (createTemp base stem node) t (fun o t' => ∃ p, o = .ok p ∧
      ∃ k, p = base ++ [tempName stem k] ∧ taken t p = false ∧ t' = t.put p node) := by
  apply calmly_primitive
  intro n
  obtain ⟨k, hname, hfree⟩ := freeName_free t base stem n
  have hparent : t.hasParent (base ++ [freeName t base stem n]) = true := by
    rw [Tree.hasParent_eq, List.dropLast_concat, hbase]
  simp only [hfree, hparent, Bool.not_true, Bool.or_self, Bool.false_eq_true, if_false]
  exact ⟨_, rfl, k, by rw [hname], hfree, rfl⟩

end Temporary

/-! ### The receipt key -/

section Key

variable {t t' : Tree}

theorem createKey_calmly {temp : Path} {bytes : Bytes} {attr : Attr}
    (hbase : t.isDirectory ctx.base = true) (htemp : t.node temp = some (.file bytes attr))
    (hne : ctx.base ≠ temp) (hkey : t.node ctx.keyPath = none) :
    Calmly (createKey ctx temp) t (fun o _ => ∃ key, o = .ok key) := by
  apply calmly_bind
  apply calmly_choose
  intro seed
  apply calmly_bind
  apply calmly_mapError
  apply calmly_step
  intro _
  have hwritten : appendBytes temp (randomKey seed) t =
      t.put temp (.file (bytes ++ randomKey seed) attr) :=
    appendBytes_file htemp
  apply calmly_bind
  apply calmly_mapError
  apply calmly_primitive
  intro _
  apply calmly_bind
  apply calmly_attempt
  apply calmly_primitive
  intro _
  have hkeytemp : ctx.keyPath ≠ temp := by
    rintro rfl
    rw [hkey] at htemp
    cases htemp
  have hparent : (appendBytes temp (randomKey seed) t).hasParent ctx.keyPath = true := by
    rw [Tree.hasParent_eq, Context.keyPath, List.dropLast_concat, hwritten]
    exact Tree.isDirectory_put hbase (Or.inl hne)
  have hnode : ((appendBytes temp (randomKey seed) t).node temp).isNone = false := by
    rw [hwritten, Tree.put_node_self]
    rfl
  have hnone : ((appendBytes temp (randomKey seed) t).node ctx.keyPath).isSome = false := by
    rw [hwritten, Tree.put_node_of_ne _ _ hkeytemp, hkey]
    rfl
  simp only [hnode, hnone, hparent, Bool.not_true, Bool.or_self, Bool.false_eq_true, if_false]
  apply calmly_bind
  apply calmly_mapError
  apply calmly_primitive
  intro _
  exact calmly_pure ⟨_, rfl⟩

theorem discard_calmly {m : Io Unit} {t : Tree} (h : Calmly m t (fun o _ => o.Ends)) :
    Calmly (discard m) t (fun o _ => o = .ok ⟨⟩) := by
  apply calmly_bind
  apply calmly_attempt
  refine h.mono ?_
  intro o t' ho
  cases o with
  | ok _ => exact calmly_pure rfl
  | error _ => exact calmly_pure rfl
  | panicked => exact ho.elim
  | died => exact ho.elim

/-- A key that is missing is created, and a whole one is read. -/
theorem receiptKey_calmly (hbase : t.isDirectory ctx.base = true)
    (hkey : t.node ctx.keyPath = none ∨ ∃ key, KeyFile ctx t key) :
    Calmly (receiptKey ctx) t (fun o _ => ∃ key, o = .ok key) := by
  apply calmly_bind
  refine metadataOk_calmly.mono ?_
  rintro _ _ ⟨rfl, rfl⟩
  rcases hkey with hnone | ⟨key, hkey⟩
  · rw [hnone]
    apply calmly_bind
    refine (createTemp_calmly hbase).mono ?_
    rintro _ _ ⟨temp, rfl, k, htemp, hfree, rfl⟩
    have hne : ctx.base ≠ temp := by simp [htemp]
    have hkeytemp : ctx.keyPath ≠ temp := by
      rw [htemp]
      intro heq
      have hnames := List.append_cancel_left heq
      exact Scratch.ne_key ⟨k, Or.inr rfl⟩ (List.cons.inj hnames).1.symm
    apply calmly_ensure
    refine (createKey_calmly (Tree.isDirectory_put hbase (Or.inl hne))
      (Tree.put_node_self _ _ _) hne ?_).mono ?_
    · rw [Tree.put_node_of_ne _ _ hkeytemp, hnone]
    · rintro _ s ⟨key, rfl⟩
      refine ⟨trivial, (discard_calmly ?_).mono fun _ _ h => ⟨h, key, rfl⟩⟩
      apply calmly_primitive
      intro _
      split <;> trivial
  · obtain ⟨⟨attr, hnode, _⟩, _⟩ := id hkey
    rw [hnode]
    refine (readKey_calm hkey).mono ?_
    rintro _ _ ⟨rfl, rfl⟩
    exact ⟨key, rfl⟩

end Key

/-! ### The last part -/

section Finish

variable {stage stage' : Path} {t₀ t₀' t t' : Tree}

theorem mimics_writeReceipt (h : Mirrored stage stage' t₀ t₀' t t') {rest : Path}
    (hrest : rest ≠ []) (receipt receipt' : Receipt) :
    Mimics (writeReceipt (stage ++ rest) receipt) t (writeReceipt (stage' ++ rest) receipt') t'
      (fun _ => Mirrored stage stage' t₀ t₀') := by
  apply mimics_seq (mimics_orError (mimics_createNew h hrest _))
  intro _ u u' hu
  apply mimics_seq (mimics_orError (mimics_writeAll hu hrest _ _))
  exact fun _ v v' hv => mimics_orError (mimics_syncAll hv)

theorem mimics_createOrTruncate (h : Mirrored stage stage' t₀ t₀' t t') {rest : Path}
    (hrest : rest ≠ []) :
    Mimics (createOrTruncate (stage ++ rest)) t (createOrTruncate (stage' ++ rest)) t'
      (fun _ => Mirrored stage stage' t₀ t₀') := by
  apply mimics_primitive
  intro mask mask'
  have hshape := h.shapes rest hrest
  cases hn : t.node (stage ++ rest) with
  | none =>
    rw [hn, Option.map_none, Option.map_eq_none_iff] at hshape
    rw [hshape, h.hasParent hrest]
    cases t.hasParent (stage ++ rest) with
    | true => exact ⟨trivial, rfl, h.put hrest trivial trivial rfl⟩
    | false => exact ⟨trivial, rfl, h⟩
  | some n =>
    rw [hn, Option.map_some, Option.map_eq_some_iff] at hshape
    obtain ⟨n', hn', hsame⟩ := hshape
    rw [hn']
    cases n with
    | file bytes attr =>
      cases n' with
      | file bytes' attr' => exact ⟨trivial, rfl, h.put hrest trivial trivial rfl⟩
      | dir _ => cases hsame
      | symlink => cases hsame
      | special => cases hsame
    | dir attr =>
      cases n' with
      | file _ _ => cases hsame
      | dir _ => exact ⟨trivial, rfl, h⟩
      | symlink => exact ⟨trivial, rfl, h⟩
      | special => exact ⟨trivial, rfl, h⟩
    | symlink => exact (h.left.plain rest hrest _ hn).elim
    | special => exact (h.left.plain rest hrest _ hn).elim

theorem mimics_writeMarker (h : Mirrored stage stage' t₀ t₀' t t') {rest : Path}
    (hrest : rest ≠ []) :
    Mimics (writeMarker (stage ++ rest)) t (writeMarker (stage' ++ rest)) t'
      (fun _ => Mirrored stage stage' t₀ t₀') := by
  have hwrite : Mimics (writeFile (stage ++ rest) []) t (writeFile (stage' ++ rest) []) t'
      (fun _ => Mirrored stage stage' t₀ t₀') :=
    mimics_seq (mimics_createOrTruncate h hrest) fun _ u u' hu => mimics_writeAll hu hrest _ _
  apply mimics_seq (mimics_orError hwrite)
  exact fun _ u u' hu => mimics_orError (mimics_setPermissions hu hrest _)

/-- A tree of files and directories can be synced. -/
theorem syncTree_calmly {root : Path}
    (h : ∀ q, root <+: q → ∀ n, t.node q = some n → n.isDir = true ∨ n.isFile = true) :
    Calmly (syncTree root) t (fun o u => o = .ok ⟨⟩ ∧ t = u) := by
  apply calmly_bind
  apply calmly_read
  refine calmly_forM (fun u => t = u) rfl ?_ (fun _ hu => ⟨rfl, hu⟩)
  rintro q hq _ rfl
  unfold below at hq
  rw [List.mem_dedup, List.mem_filter, Bool.and_eq_true, List.isPrefixOf_iff_prefix,
    Option.isSome_iff_exists] at hq
  obtain ⟨_, hinitial, n, hn⟩ := hq
  apply calmly_bind
  apply calmly_mapError
  apply calmly_primitive
  intro _
  rw [hn]
  change Calmly (if (n.isDir || n.isFile) = true then _ else _) t _
  rw [if_pos (by simpa using h q hinitial n hn)]
  apply calmly_mapError
  apply calmly_primitive
  exact fun _ => ⟨rfl, rfl⟩

theorem syncTree_workdir (h : Workdir stage t₀ t) (name : Name) :
    Calmly (syncTree (stage ++ [name])) t (fun o u => o = .ok ⟨⟩ ∧ t = u) := by
  apply syncTree_calmly
  rintro q ⟨rest, rfl⟩ n hn
  rw [List.append_assoc] at hn
  have hplain := h.plain ([name] ++ rest) (by simp) n hn
  cases n with
  | file _ _ => exact Or.inr rfl
  | dir _ => exact Or.inl rfl
  | symlink => exact hplain.elim
  | special => exact hplain.elim

theorem mimics_stageReceipt (h : Mirrored stage stage' t₀ t₀' t t') (name : Name)
    (receipt receipt' : Receipt) :
    Mimics (stageReceipt (stage ++ [name]) receipt) t (stageReceipt (stage' ++ [name]) receipt') t'
      (fun _ => Mirrored stage stage' t₀ t₀') := by
  unfold stageReceipt
  rw [List.append_assoc, List.append_assoc, List.append_assoc, List.append_assoc]
  have hdir : directoryOutcome (t'.node (stage' ++ [name])) =
      directoryOutcome (t.node (stage ++ [name])) := by
    have hshape := h.shapes [name] (by simp)
    have hleft := h.left.plain [name] (by simp)
    have hright := h.right.plain [name] (by simp)
    cases hn : t.node (stage ++ [name]) with
    | none =>
      rw [hn, Option.map_none, Option.map_eq_none_iff] at hshape
      rw [hshape]
    | some n =>
      rw [hn, Option.map_some, Option.map_eq_some_iff] at hshape
      obtain ⟨n', hn', hsame⟩ := hshape
      have hplain := hleft n hn
      have hplain' := hright n' hn'
      rw [hn']
      cases n <;> cases n' <;> simp_all [Node.shape, Node.isFile, Node.isDir, Node.Plain,
        directoryOutcome]
  apply mimics_seq (mimics_openDirectory hdir h)
  intro _ u u' hu
  apply mimics_seq (mimics_writeReceipt hu (by simp) _ _)
  intro _ v v' hv
  apply mimics_seq (mimics_writeMarker hv (by simp))
  intro _ w w' hw
  have hsync : Mimics (syncTree (stage ++ [name])) w (syncTree (stage' ++ [name])) w'
      (fun _ => Mirrored stage stage' t₀ t₀') := by
    refine mimics_of_calmly (o := .ok ⟨⟩) trivial (syncTree_workdir hw.left name)
      (syncTree_workdir hw.right name) ?_
    rintro _ _ rfl rfl
    exact hw
  exact mimics_seq hsync fun _ x x' hx => mimics_orError (mimics_syncAll hx)

variable (ctx) in
/-- What a preparation relies on around its working directory. -/
structure Around (stage : Path) (t₀ : Tree) : Prop where
  scratch : ∃ k, stage = ctx.base ++ [tempName ".vss-restore-" k]
  base : ∃ attr, t₀.node ctx.base = some (.dir attr)
  wallet : t₀.node ctx.wallet = none

theorem Around.base_notMem (h : Around ctx stage t₀) :
    ctx.base ∉ {q | ∃ rest, rest ≠ [] ∧ q = stage ++ rest} := by
  obtain ⟨k, rfl⟩ := h.scratch
  rintro ⟨rest, _, heq⟩
  have hlength := congrArg List.length heq
  simp at hlength

theorem Around.wallet_notMem (h : Around ctx stage t₀) :
    ctx.wallet ∉ {q | ∃ rest, rest ≠ [] ∧ q = stage ++ rest} := by
  obtain ⟨k, rfl⟩ := h.scratch
  rintro ⟨rest, hrest, heq⟩
  rw [Context.wallet, List.append_assoc] at heq
  exact hrest (List.cons.inj (List.append_cancel_left heq)).2.symm

theorem Around.base_dir (h : Around ctx stage t₀) (hw : Workdir stage t₀ t) :
    ∃ attr, t.node ctx.base = some (.dir attr) := by
  obtain ⟨attr, hnode⟩ := h.base
  exact ⟨attr, by rw [hw.off _ h.base_notMem, hnode]⟩

theorem isDirectory_of_node {p : Path} (h : ∃ attr, t.node p = some (.dir attr)) :
    t.isDirectory p = true := by
  by_cases hp : p = []
  · rw [hp]
    rfl
  · exact (Tree.isDirectory_iff hp).mpr h

theorem checkBase_calmly (h : ∃ attr, t.node ctx.base = some (.dir attr)) :
    Calmly (checkBase ctx) t (fun o u => o = .ok () ∧ t = u) := by
  obtain ⟨attr, hnode⟩ := h
  apply calmly_primitive
  intro _
  rw [hnode]
  exact ⟨rfl, rfl⟩

theorem calmly_ok {α : Type} {m : Proc Tree APIError α} {a : α}
    (h : Calmly m t (fun o u => o = .ok a ∧ t = u)) :
    Calmly m t (fun o u => ∃ b, o = .ok b ∧ t = u) :=
  h.mono fun _ _ h => ⟨a, h⟩

theorem checkState_calmly (t : Tree) : Calmly checkState t (fun o u => o = .ok () ∧ t = u) :=
  calmly_primitive fun _ => ⟨rfl, rfl⟩

theorem mimics_finish (h : Mirrored stage stage' t₀ t₀' t t') (haround : Around ctx stage t₀)
    (haround' : Around ctx stage' t₀') (version : Int64) (identity : String) (key key' : Bytes) :
    Mimics (finish ctx stage version identity key) t (finish ctx stage' version identity key') t'
      (fun _ _ _ => True) := by
  apply mimics_bind
  refine (mimics_stageReceipt h ctx.fp _ _).mono ?_
  intro o u u' hu
  cases o with
  | error _ => trivial
  | panicked => trivial
  | died => trivial
  | ok _ =>
  have hopen : directoryOutcome (u'.node stage') = directoryOutcome (u.node stage) := by
    obtain ⟨attr, hnode, howned⟩ := hu.left.dir
    obtain ⟨attr', hnode', howned'⟩ := hu.right.dir
    rw [hu.left.top_node, hu.right.top_node, hnode, hnode']
    simp [directoryOutcome, howned, howned']
  apply mimics_bind
  refine (mimics_openDirectory (R := fun v v' => u = v ∧ u' = v') hopen ⟨rfl, rfl⟩).mono ?_
  rintro o _ _ ⟨rfl, rfl⟩
  cases o with
  | error _ => trivial
  | panicked => trivial
  | died => trivial
  | ok _ =>
  apply mimics_bind_calmly (calmly_ok (checkState_calmly u)) (calmly_ok (checkState_calmly u'))
  rintro _ _ _ _ rfl rfl
  have hbase := haround.base_dir hu.left
  have hbase' := haround'.base_dir hu.right
  apply mimics_bind_calmly (calmly_ok (checkBase_calmly hbase))
    (calmly_ok (checkBase_calmly hbase'))
  rintro _ _ _ _ rfl rfl
  apply mimics_bind
  have hpromote : Mimics (promote (stage ++ [ctx.fp]) ctx.wallet) u
      (promote (stage' ++ [ctx.fp]) ctx.wallet) u' (fun _ _ _ => True) := by
    apply mimics_primitive
    intro _ _
    have hparent {v : Tree} (hv : ∃ attr, v.node ctx.base = some (.dir attr)) :
        v.hasParent ctx.wallet = true := by
      rw [Tree.hasParent_eq, Context.wallet, List.dropLast_concat, isDirectory_of_node hv]
    have hwallet : u.node ctx.wallet = none := by
      rw [hu.left.off _ haround.wallet_notMem, haround.wallet]
    have hwallet' : u'.node ctx.wallet = none := by
      rw [hu.right.off _ haround'.wallet_notMem, haround'.wallet]
    have hsome : (u'.node (stage' ++ [ctx.fp])).isSome = (u.node (stage ++ [ctx.fp])).isSome :=
      hu.isSome (by simp)
    have hnone : (u'.node (stage' ++ [ctx.fp])).isNone = (u.node (stage ++ [ctx.fp])).isNone := by
      rw [← Option.not_isSome, ← Option.not_isSome, hsome]
    rw [hwallet, hwallet', hparent hbase, hparent hbase', hnone]
    split <;> exact ⟨trivial, rfl, trivial⟩
  refine hpromote.mono ?_
  intro o v v' _
  cases o with
  | error _ => trivial
  | panicked => trivial
  | died => trivial
  | ok _ =>
  exact mimics_seq (mimics_orError (mimics_syncAll (R := fun _ _ => True) trivial))
    fun _ _ _ _ => mimics_pure trivial

end Finish

/-! ### The part in the staging directory -/

/-- A remote store that always answers the same. -/
def Remote.steady (version : Option Int64) (bytes : Bytes) : Remote :=
  ⟨fun _ => version, fun _ => bytes⟩

section Restore

variable {stage stage' : Path} {t t' s s' u u' : Tree} {found : Option Int64} {bytes : Bytes}
  {zip : ZipReader}

theorem base_notMem_keyPaths {k : ℕ} : ctx.base ∉ KeyPaths ctx k := by
  rintro (⟨rest, heq⟩ | ⟨rest, heq⟩)
  · have hlength := congrArg List.length heq
    simp at hlength
  · have hlength := congrArg List.length heq
    simp [Context.keyPath] at hlength

theorem wallet_notMem_keyPaths {k : ℕ} : ctx.wallet ∉ KeyPaths ctx k := by
  rintro (⟨rest, heq⟩ | ⟨rest, heq⟩)
  · rw [Context.wallet, List.append_assoc] at heq
    exact fp_not_scratch ⟨k, Or.inr (List.cons.inj (List.append_cancel_left heq)).1.symm⟩
  · rw [Context.wallet, Context.keyPath, List.append_assoc] at heq
    exact fp_ne (by decide) (List.cons.inj (List.append_cancel_left heq)).1.symm

/-- The key's creation leaves the working directory and what is around it alone. -/
theorem Around.afterKey {k : ℕ} (haround : Around ctx stage t) (h : Workdir stage t u)
    (hoff : u.AgreeOff (KeyPaths ctx k) s) : Around ctx stage s ∧ Workdir stage s s ∧
      ∀ rest, s.node (stage ++ rest) = u.node (stage ++ rest) := by
  obtain ⟨j, rfl⟩ := haround.scratch
  have hsame (rest : Path) := hoff _ (@stage_notMem_keyPaths crates ctx j k rest)
  obtain ⟨attr, hnode, howned⟩ := h.dir
  refine ⟨⟨⟨j, rfl⟩, ?_, ?_⟩, ⟨.refl _ _, ⟨attr, ?_, howned⟩, ?_⟩, hsame⟩
  · obtain ⟨attr, hbase⟩ := haround.base_dir h
    exact ⟨attr, by rw [hoff _ base_notMem_keyPaths, hbase]⟩
  · rw [hoff _ wallet_notMem_keyPaths, h.off _ haround.wallet_notMem, haround.wallet]
  · have htop := hsame []
    rw [List.append_nil] at htop
    rw [htop, h.top_node, hnode]
  · intro rest hrest n hn
    rw [hsame] at hn
    exact h.plain rest hrest n hn

/-- A working directory is not where the key is. -/
theorem Around.key_node (haround : Around ctx stage t) (h : Workdir stage t u) :
    u.node ctx.keyPath = t.node ctx.keyPath := by
  apply h.off
  obtain ⟨k, rfl⟩ := haround.scratch
  rintro ⟨rest, hrest, heq⟩
  rw [Context.keyPath, List.append_assoc] at heq
  exact hrest (List.cons.inj (List.append_cancel_left heq)).2.symm

variable (ctx) in
/-- The same key, or none in the first tree and a whole one at most in the second. -/
def KeysAgree (t t' : Tree) : Prop := t'.node ctx.keyPath = t.node ctx.keyPath ∨
  t.node ctx.keyPath = none ∧ ∃ key, KeyFile ctx t' key

theorem Leftovers.keysAgree (h : Leftovers ctx t t') : KeysAgree ctx t t' := by
  rcases h.key with hsame | ⟨hnone, key, hlength, hnode⟩
  · exact Or.inl hsame
  · exact Or.inr ⟨hnone, key, keyFile_of_node hlength hnode⟩

theorem mimics_fromKey (h : Mirrored stage stage' t t' u u') (haround : Around ctx stage t)
    (haround' : Around ctx stage' t') (hkeys : KeysAgree ctx t t') (version : Int64)
    (identity : String) :
    Mimics (do let key ← receiptKey ctx; finish ctx stage version identity key) u
      (do let key ← receiptKey ctx; finish ctx stage' version identity key) u'
      (fun _ _ _ => True) := by
  have hkey := haround.key_node h.left
  have hkey' := haround'.key_node h.right
  have hnext {k k' : ℕ} {v v' : Tree} (hv : u.AgreeOff (KeyPaths ctx k) v)
      (hv' : u'.AgreeOff (KeyPaths ctx k') v') (key key' : Bytes) :
      Mimics (finish ctx stage version identity key) v (finish ctx stage' version identity key') v'
        (fun _ _ _ => True) := by
    obtain ⟨hnew, hdir, hsame⟩ := haround.afterKey h.left hv
    obtain ⟨hnew', hdir', hsame'⟩ := haround'.afterKey h.right hv'
    refine mimics_finish ⟨hdir, hdir', ?_⟩ hnew hnew' version identity key key'
    intro rest hrest
    rw [hsame, hsame', h.shapes rest hrest]
  have hcreate (hnone : u.node ctx.keyPath = none)
      (hwhole : u'.node ctx.keyPath = none ∨ ∃ key, KeyFile ctx u' key) :
      Mimics (do let key ← receiptKey ctx; finish ctx stage version identity key) u
        (do let key ← receiptKey ctx; finish ctx stage' version identity key) u'
        (fun _ _ _ => True) := by
    have hrun {v : Tree} (hbase : ∃ attr, v.node ctx.base = some (.dir attr))
        (hv : v.node ctx.keyPath = none ∨ ∃ key, KeyFile ctx v key) :
        Calmly (receiptKey ctx) v (fun o w => ∃ key, o = .ok key ∧
          ∃ k, v.AgreeOff (KeyPaths ctx k) w) := by
      refine ((receiptKey_calmly (isDirectory_of_node hbase) hv).and
        (receiptKey_spec (.refl v))).mono ?_
      rintro _ w ⟨⟨key, rfl⟩, k, _, hoff, _⟩
      exact ⟨key, rfl, k, hoff⟩
    apply mimics_bind_calmly (hrun (haround.base_dir h.left) (Or.inl hnone))
      (hrun (haround'.base_dir h.right) hwhole)
    rintro key v key' v' ⟨k, hv⟩ ⟨k', hv'⟩
    exact hnext hv hv' key key'
  rcases hkeys with hsame | ⟨hnone, key, hwhole⟩
  · cases hnode : u.node ctx.keyPath with
    | none => exact hcreate hnode (Or.inl (by rw [hkey', hsame, ← hkey, hnode]))
    | some n =>
      have hsame' : u'.node ctx.keyPath = u.node ctx.keyPath := by rw [hkey', hsame, hkey]
      apply mimics_bind
      have hread :
          Mimics (receiptKey ctx) u (receiptKey ctx) u' (fun _ v v' => u = v ∧ u' = v') := by
        apply mimics_bind
        refine (mimics_metadataOk (R := fun v v' => u = v ∧ u' = v') (by rw [hsame'])
          ⟨rfl, rfl⟩).mono ?_
        rintro _ _ _ ⟨rfl, rfl, rfl⟩
        rw [hnode]
        exact mimics_readKey hsame'
      refine hread.mono ?_
      rintro o _ _ ⟨rfl, rfl⟩
      cases o with
      | ok key => exact hnext (.refl (KeyPaths ctx 0) u) (.refl (KeyPaths ctx 0) u') key key
      | error _ => trivial
      | panicked => trivial
      | died => trivial
  · refine hcreate (by rw [hkey, hnone]) (Or.inr ⟨key, keyFile_congr hwhole hkey'⟩)

theorem getBackupVersion_calmly (found : Option Int64) (bytes : Bytes) (t : Tree) :
    Calmly (getBackupVersion (.steady found bytes)) t (fun o u => o = .ok found ∧ t = u) :=
  calmly_primitive fun _ => ⟨rfl, rfl⟩

theorem mimics_restore {identity : String} (hplan : archivePlan ctx zip bytes = .ok identity)
    (h : Mirrored stage stage' t t' t t') (haround : Around ctx stage t)
    (haround' : Around ctx stage' t') (hkeys : KeysAgree ctx t t') (version : Int64) :
    Mimics (restore (.steady found bytes) ctx zip bytes stage version identity) t
      (restore (.steady found bytes) ctx zip bytes stage' version identity) t'
      (fun _ _ _ => True) := by
  apply mimics_bind
  refine (mimics_extract hplan h).mono ?_
  intro o u u' hu
  cases o with
  | error _ => trivial
  | panicked => trivial
  | died => trivial
  | ok _ =>
  apply mimics_bind_calmly (P := fun a v => found = a ∧ u = v) (R := fun a v => found = a ∧ u' = v)
    ((getBackupVersion_calmly found bytes u).mono fun _ _ h => ⟨found, h.1, rfl, h.2⟩)
    ((getBackupVersion_calmly found bytes u').mono fun _ _ h => ⟨found, h.1, rfl, h.2⟩)
  rintro _ _ _ _ ⟨rfl, rfl⟩ ⟨rfl, rfl⟩
  split
  · exact mimics_throw trivial
  apply mimics_bind_calmly (calmly_ok (checkState_calmly u)) (calmly_ok (checkState_calmly u'))
  rintro _ _ _ _ rfl rfl
  exact mimics_fromKey hu haround haround' hkeys version identity

end Restore

/-! ### The whole preparation -/

section Whole

variable {t t' : Tree} {found : Option Int64} {bytes : Bytes} {zip : ZipReader}
  {serde : ReceiptSerde}

/-- Whether some wallet directory is listed decides. -/
theorem rejectOtherWallets_calmly (t : Tree) : Calmly (rejectOtherWallets ctx) t (fun o u =>
    (o = if (children t ctx.base).any validFp then .error (error "VSS_RESTORE_TARGET_CONFLICT")
      else .ok ⟨⟩) ∧ t = u) := by
  apply calmly_bind
  apply calmly_mapError
  apply calmly_primitive
  intro _
  have hall : ∀ names : List Name, Calmly (names.forM fun name => do
      orError "VSS_RESTORE_INVALID_TARGET" nextEntry
      if validFp name then .throw (error "VSS_RESTORE_TARGET_CONFLICT") else return PUnit.unit) t
      (fun o u => (o = if names.any validFp then .error (error "VSS_RESTORE_TARGET_CONFLICT")
        else .ok ⟨⟩) ∧ t = u) := by
    intro names
    induction names with
    | nil => exact calmly_pure ⟨rfl, rfl⟩
    | cons name names ih =>
      apply calmly_bind
      apply calmly_bind
      apply calmly_mapError
      apply calmly_primitive
      intro _
      cases hname : validFp name with
      | true => exact calmly_throw ⟨by simp [hname], rfl⟩
      | false =>
        apply calmly_pure
        simpa [hname] using ih
  exact hall _

theorem any_children_iff : (children t ctx.base).any validFp = true ↔
    ∃ name, validFp name = true ∧ t.node (ctx.base ++ [name]) ≠ none := by
  rw [List.any_eq_true]
  constructor
  · rintro ⟨name, hname, hvalid⟩
    exact ⟨name, hvalid, mem_children.mp hname⟩
  · rintro ⟨name, hvalid, hnode⟩
    exact ⟨name, mem_children.mpr hnode, hvalid⟩

/-- What is neither a temporary name nor the key is as it was. -/
theorem Leftovers.other (h : Leftovers ctx t t') {name : Name} (hscratch : ¬Scratch name)
    (hkey : name ≠ keyName) (rest : Path) :
    t'.node (ctx.base ++ name :: rest) = t.node (ctx.base ++ name :: rest) := by
  apply h.off
  rintro (hmem | hmem)
  · exact notMem_scratched hscratch hmem
  · exact notMem_newKey hkey hmem

theorem Leftovers.any_children (h : Leftovers ctx t t') :
    (children t' ctx.base).any validFp = (children t ctx.base).any validFp := by
  rw [Bool.eq_iff_iff, any_children_iff, any_children_iff]
  have hsame (name : Name) (hvalid : validFp name = true) :
      t'.node (ctx.base ++ [name]) = t.node (ctx.base ++ [name]) := by
    apply h.other
    · intro hscratch
      rw [hscratch.invalid] at hvalid
      cases hvalid
    · rintro rfl
      exact absurd hvalid (by decide)
  constructor
  · rintro ⟨name, hvalid, hnode⟩
    exact ⟨name, hvalid, by rwa [← hsame name hvalid]⟩
  · rintro ⟨name, hvalid, hnode⟩
    exact ⟨name, hvalid, by rwa [hsame name hvalid]⟩

/-- The storage directory itself is outside everything that is left over. -/
theorem Leftovers.outside (h : Leftovers ctx t t') {q : Path}
    (hq : ¬∃ name rest, q = ctx.base ++ name :: rest) :
    t'.node q = t.node q := by
  apply h.off
  rintro (⟨name, rest, rfl, _⟩ | ⟨⟨rest, rfl⟩, _⟩)
  · exact hq ⟨name, rest, rfl⟩
  · exact hq ⟨keyName, rest, by simp [Context.keyPath]⟩

theorem Leftovers.base (h : Leftovers ctx t t') : t'.node ctx.base = t.node ctx.base := by
  apply h.outside
  rintro ⟨name, rest, heq⟩
  have hlength := congrArg List.length heq
  simp at hlength

/-- A new staging directory, and what is around it. -/
theorem around_of_temp {u : Tree} {k : ℕ} {attr : Attr} (howned : attr.owned = true)
    (hbase : ∃ attr, t.node ctx.base = some (.dir attr)) (hwallet : t.node ctx.wallet = none)
    (hfree : taken t (ctx.base ++ [tempName ".vss-restore-" k]) = false)
    (hu : u = t.put (ctx.base ++ [tempName ".vss-restore-" k]) (.dir attr)) :
    Around ctx (ctx.base ++ [tempName ".vss-restore-" k]) u ∧
      Workdir (ctx.base ++ [tempName ".vss-restore-" k]) u u ∧
      (∀ rest, rest ≠ [] → u.node (ctx.base ++ [tempName ".vss-restore-" k] ++ rest) = none) ∧
      u.node ctx.keyPath = t.node ctx.keyPath := by
  subst hu
  have hempty (rest : Path) (hrest : rest ≠ []) : (t.put (ctx.base ++ [tempName ".vss-restore-" k])
      (.dir attr)).node (ctx.base ++ [tempName ".vss-restore-" k] ++ rest) = none := by
    rw [Tree.put_node_of_ne _ _ (by simpa using hrest)]
    exact taken_eq_false hfree (List.prefix_append _ _)
  have hother {name : Name} (hname : name ≠ tempName ".vss-restore-" k) :
      (t.put (ctx.base ++ [tempName ".vss-restore-" k]) (.dir attr)).node (ctx.base ++ [name]) =
        t.node (ctx.base ++ [name]) :=
    Tree.put_node_of_ne _ _ (by simpa using hname)
  refine ⟨⟨⟨k, rfl⟩, ?_, ?_⟩, ⟨.refl _ _, ⟨attr, Tree.put_node_self _ _ _, howned⟩, ?_⟩, hempty, ?_⟩
  · obtain ⟨attr', hnode⟩ := hbase
    exact ⟨attr', by rw [Tree.put_node_of_ne _ _ (by simp), hnode]⟩
  · exact (hother fun heq => fp_not_scratch ⟨k, Or.inl heq⟩).trans hwallet
  · intro rest hrest n hn
    rw [hempty rest hrest] at hn
    cases hn
  · exact hother (Ne.symm (Scratch.ne_key ⟨k, Or.inl rfl⟩))

theorem mimics_fetch (h : Leftovers ctx t t') (hbase : ∃ attr, t.node ctx.base = some (.dir attr))
    (hwallet : t.node ctx.wallet = none) :
    Mimics (fetch (.steady found bytes) ctx zip) t (fetch (.steady found bytes) ctx zip) t'
      (fun _ _ _ => True) := by
  have hbase' : ∃ attr, t'.node ctx.base = some (.dir attr) := by rwa [h.base]
  have hwallet' : t'.node ctx.wallet = none := by rw [h.wallet, hwallet]
  have hreject := @rejectOtherWallets_calmly crates ctx t'
  rw [h.any_children] at hreject
  apply mimics_bind
  have hlisted : Mimics (rejectOtherWallets ctx) t (rejectOtherWallets ctx) t'
      (fun _ u u' => t = u ∧ t' = u') := by
    refine mimics_of_calmly ?_ (rejectOtherWallets_calmly t) hreject fun _ _ h h' => ⟨h, h'⟩
    split <;> trivial
  refine hlisted.mono ?_
  rintro o _ _ ⟨rfl, rfl⟩
  cases o with
  | error _ => trivial
  | panicked => trivial
  | died => trivial
  | ok _ =>
  have hclient (u : Tree) : Calmly newClient u (fun o v => o = .ok () ∧ u = v) :=
    calmly_primitive fun _ => ⟨rfl, rfl⟩
  apply mimics_bind_calmly (calmly_ok (hclient t)) (calmly_ok (hclient t'))
  rintro _ _ _ _ rfl rfl
  apply mimics_bind_calmly (P := fun a v => found = a ∧ t = v) (R := fun a v => found = a ∧ t' = v)
    ((getBackupVersion_calmly found bytes t).mono fun _ _ h => ⟨found, h.1, rfl, h.2⟩)
    ((getBackupVersion_calmly found bytes t').mono fun _ _ h => ⟨found, h.1, rfl, h.2⟩)
  rintro _ _ _ _ ⟨rfl, rfl⟩ ⟨rfl, rfl⟩
  cases found with
  | none => exact mimics_pure trivial
  | some version =>
  change Mimics (if version ≤ 0 then _ else _) t (if version ≤ 0 then _ else _) t' _
  split
  · exact mimics_throw trivial
  have hdownload (u : Tree) : Calmly (downloadBackup (.steady (some version) bytes)) u
      (fun o v => ∃ b, o = .ok b ∧ bytes = b ∧ u = v) :=
    calmly_primitive fun _ => ⟨bytes, rfl, rfl, rfl⟩
  apply mimics_bind_calmly (hdownload t) (hdownload t')
  rintro _ _ _ _ ⟨rfl, rfl⟩ ⟨rfl, rfl⟩
  cases hplan : archivePlan ctx zip bytes with
  | error failure => exact mimics_throw trivial
  | ok identity =>
  change Mimics (do
    let stage ← tempdirIn ctx.base
    .ensure (restore (.steady (some version) bytes) ctx zip bytes stage version identity) fun _ =>
      discard (removeDirAll stage)) t (do
    let stage ← tempdirIn ctx.base
    .ensure (restore (.steady (some version) bytes) ctx zip bytes stage version identity) fun _ =>
      discard (removeDirAll stage)) t' _
  apply mimics_bind_calmly (createTemp_calmly (isDirectory_of_node hbase))
    (createTemp_calmly (isDirectory_of_node hbase'))
  rintro stage u stage' u' ⟨k, rfl, hfree, hu⟩ ⟨k', rfl, hfree', hu'⟩
  obtain ⟨haround, hdir, hempty, hkey⟩ := around_of_temp rfl hbase hwallet hfree hu
  obtain ⟨haround', hdir', hempty', hkey'⟩ :=
    around_of_temp rfl hbase' hwallet' hfree' hu'
  have hclean (stage : Path) : ∀ (b : Bool) (v : Tree),
      Calmly ((fun _ => discard (removeDirAll stage)) b) v (fun c _ => c = .ok ⟨⟩) :=
    fun _ v => discard_calmly (calmly_step fun _ => trivial)
  refine mimics_ensure (hclean _) (hclean _)
    (mimics_restore hplan ⟨hdir, hdir', ?_⟩ haround haround' ?_ version)
  · intro rest hrest
    rw [hempty rest hrest, hempty' rest hrest]
  · rcases h.keysAgree with hsame | ⟨hnone, key, hwhole⟩
    · exact Or.inl (by rw [hkey', hsame, hkey])
    · exact Or.inr ⟨by rw [hkey, hnone], key, keyFile_congr hwhole hkey'⟩

theorem mimics_prepareIn (h : Leftovers ctx t t') (hpresent : t.node ctx.wallet ≠ none → t' = t) :
    Mimics (prepareIn (.steady found bytes) ctx zip serde) t
      (prepareIn (.steady found bytes) ctx zip serde) t' (fun _ _ _ => True) := by
  apply mimics_bind
  refine ((mimics_openDirectory (R := fun u u' => t = u ∧ t' = u') (by rw [h.base])
    ⟨rfl, rfl⟩).and openDirectory_spec (Holds.mono openDirectory_spec fun _ _ _ => trivial)).mono ?_
  rintro o _ _ ⟨⟨rfl, rfl⟩, ⟨_, _, hdir⟩, _⟩
  cases o with
  | error _ => trivial
  | panicked => trivial
  | died => trivial
  | ok _ =>
  apply mimics_bind
  refine (mimics_metadataOk (R := fun u u' => t = u ∧ t' = u') (by rw [h.wallet])
    ⟨rfl, rfl⟩).mono ?_
  rintro _ _ _ ⟨rfl, rfl, rfl⟩
  cases hwallet : t.node ctx.wallet with
  | none =>
    obtain ⟨attr, hnode, _⟩ := hdir rfl
    exact mimics_fetch h ⟨attr, hnode⟩ hwallet
  | some n =>
    obtain rfl := hpresent (by rw [hwallet]; simp)
    refine (mimics_seq (mimics_loadReceipt serde) ?_).mono fun _ _ _ _ => trivial
    rintro fields _ _ ⟨rfl, rfl⟩
    exact mimics_pure ⟨rfl, rfl⟩

variable {signer : SignerCrate} {configured : StaticState}

theorem mimics_readKeySourceFile {base : Path}
    (hsame : t'.node (keySourcePath base) = t.node (keySourcePath base)) :
    Mimics (readKeySourceFile signer base) t (readKeySourceFile signer base) t'
      (Unchanged t t') := by
  refine mimics_primitive fun _ _ => ?_
  rw [signer.readKeySourceFile_congr t t' base hsame]
  cases signer.readKeySourceFile t base with
  | none => exact ⟨trivial, rfl, rfl, rfl⟩
  | some found => exact ⟨trivial, rfl, rfl, rfl⟩

theorem mimics_contextNew
    (hdir : t'.node configured.storageDirPath = t.node configured.storageDirPath)
    (hsource : t'.node (keySourcePath configured.storageDirPath) =
      t.node (keySourcePath configured.storageDirPath)) :
    Mimics (@Context.new crates signer configured) t
      (@Context.new crates signer configured) t' (Unchanged t t') := by
  unfold Context.new
  cases configured.vssUrl with
  | none => exact mimics_throw ⟨rfl, rfl⟩
  | some endpoint =>
  apply mimics_seq (mimics_symlinkMetadata hdir _)
  rintro metadata _ _ ⟨rfl, rfl⟩
  split
  · exact mimics_throw ⟨rfl, rfl⟩
  have hcanonical : Mimics (orError "VSS_RESTORE_INVALID_TARGET"
      (canonicalize configured.storageDirPath)) t (orError "VSS_RESTORE_INVALID_TARGET"
      (canonicalize configured.storageDirPath)) t'
      (fun o u u' => o = .ok configured.storageDirPath ∧ t = u ∧ t' = u') :=
    mimics_mapError (mimics_primitive fun _ _ => ⟨trivial, rfl, rfl, rfl, rfl⟩)
  apply mimics_bind
  refine hcanonical.mono ?_
  rintro _ _ _ ⟨rfl, rfl, rfl⟩
  apply mimics_seq (mimics_readKeySourceFile hsource)
  rintro source _ _ ⟨rfl, rfl⟩
  cases source with
  | none => exact mimics_throw ⟨rfl, rfl⟩
  | some source =>
    change Mimics (ofExcept (Context.fromSource signer configured configured.storageDirPath
      endpoint source)) t (ofExcept (Context.fromSource signer configured configured.storageDirPath
      endpoint source)) t' _
    cases @Context.fromSource crates signer configured configured.storageDirPath endpoint
        source with
    | error failure => exact mimics_throw ⟨rfl, rfl⟩
    | ok ctx => exact mimics_pure ⟨rfl, rfl⟩

/-- A preparation that nothing disturbs does not depend on leftovers of earlier ones. -/
theorem mimics_prepare (hdir : t'.node configured.storageDirPath = t.node configured.storageDirPath)
    (hsource : t'.node (keySourcePath configured.storageDirPath) =
      t.node (keySourcePath configured.storageDirPath))
    (hleft : ∀ ctx, Configured crates signer configured t ctx → Leftovers ctx t t' ∧
      (t.node ctx.wallet ≠ none → t' = t)) :
    Mimics (prepare crates signer configured (.steady found bytes) zip serde) t
      (prepare crates signer configured (.steady found bytes) zip serde) t'
      (fun _ _ _ => True) := by
  apply mimics_bind_calmly (calmly_ok (checkState_calmly t)) (calmly_ok (checkState_calmly t'))
  rintro _ _ _ _ rfl rfl
  apply mimics_bind_calmly (calmly_ok (checkState_calmly t)) (calmly_ok (checkState_calmly t'))
  rintro _ _ _ _ rfl rfl
  have hlocked (u : Tree) : Calmly requireLocked u (fun o v => o = .ok () ∧ u = v) :=
    calmly_primitive fun _ => ⟨rfl, rfl⟩
  apply mimics_bind_calmly (calmly_ok (hlocked t)) (calmly_ok (hlocked t'))
  rintro _ _ _ _ rfl rfl
  apply mimics_bind
  refine ((mimics_contextNew hdir hsource).and contextNew_spec
    (Holds.mono contextNew_spec fun _ _ _ => trivial)).mono ?_
  rintro o _ _ ⟨⟨rfl, rfl⟩, ⟨_, _, hctx⟩, _⟩
  cases o with
  | error _ => trivial
  | panicked => trivial
  | died => trivial
  | ok ctx =>
    obtain ⟨hleft, hpresent⟩ := hleft ctx (hctx ctx rfl)
    exact mimics_prepareIn hleft hpresent

end Whole

end RgbLightningNode.Restore
