import RgbLightningNode.FileSystem.Filling
import RgbLightningNode.Restore.Archive

/-!
# The extraction of an admitted archive

`extract` reads the archive a second time and writes below a staging directory. An entry that the
plan admitted has its place strictly below the wallet directory there, so whatever fails and
wherever the process dies, nothing else changes.
-/

namespace RgbLightningNode.Restore
open Faulty FileSystem Text

/-- Every input or output error of a step is reported under one code. -/
def orError {α : Type} (code : String) (m : Io α) : Proc Tree APIError α :=
  .mapError (fun _ => error code) m

/-- One component of a relative path, as the operating system resolves it. -/
def joinStep (p : Path) (part : List Char) : Path :=
  if part = [] ∨ part = ['.'] then p
  else if part = ['.', '.'] then p.dropLast
  else p ++ [String.ofList part]

/-- A name below a directory. An absolute name starts again from the root. -/
def join (stage : Path) (name : List Char) : Path :=
  (parts name).foldl joinStep (if name.head? = some '/' then [] else stage)

def parent (p : Path) : Proc Tree APIError Path :=
  if p = [] then .throw (error "VSS_RESTORE_INVALID_ARCHIVE_PATH") else return p.dropLast

/-- A directory with all its parents, private up to the staging directory. -/
def privateDirectory (stage directory : Path) : Proc Tree APIError PUnit := do
  orError "VSS_RESTORE_LOCAL_WRITE_FAILED" (createDirAll directory)
  ((ancestors directory).takeWhile (· ≠ stage)).forM fun path =>
    orError "VSS_RESTORE_LOCAL_WRITE_FAILED" (setPermissions path 0o700)

def extractFile (target : Path) (total : UInt64) (e : Entry) : Proc Tree APIError UInt64 := do
  orError "VSS_RESTORE_INVALID_ARCHIVE_PATH" (createNew target 0o600)
  let declared := e.size.toNat
  let count ← orError "VSS_RESTORE_INVALID_ARCHIVE" (copy (e.take (declared + 1)) target)
  match checkedAdd total (.ofNat count) with
  | none => .throw (error "VSS_RESTORE_ARCHIVE_LIMIT")
  | some total =>
    if count ≠ declared ∨ total.toNat > maxInflated then .throw (error "VSS_RESTORE_ARCHIVE_LIMIT")
    else do
      orError "VSS_RESTORE_LOCAL_WRITE_FAILED" (syncAll target)
      return total

variable {crates : Crates} (ctx : Context crates)

def extractEntry (stage : Path) (total : UInt64) (entry : Option Entry) :
    Proc Tree APIError UInt64 :=
  match entry with
  | none => .throw (error "VSS_RESTORE_INVALID_ARCHIVE")
  | some e =>
    if cleanName e.name = inWallet ctx receiptName then return total
    else do
      let target := join stage (cleanName e.name)
      let directory ← if e.isDir then pure target else parent target
      privateDirectory stage directory
      if e.isDir then return total else extractFile target total e

def extract (zip : ZipReader) (bytes : Bytes) (stage : Path) : Proc Tree APIError Unit :=
  match zip bytes with
  | none => .throw (error "VSS_RESTORE_INVALID_ARCHIVE")
  | some entries => do
    let _ ← entries.foldlM (extractEntry ctx stage) 0
    return ()

/-! ### Where an entry goes -/

/-- Names that the extraction may create below the wallet directory. -/
def Unreserved (name : Name) : Prop := name ≠ keyName ∧ name ≠ receiptName

/-- The archive's files: neither directories nor the receipt that is left out. -/
def Entry.isData (e : Entry) : Bool :=
  !e.isDir && decide (cleanName e.name ≠ inWallet ctx receiptName)

/-- The files that the extraction of some entries leaves, with their contents. -/
def created (stage : Path) (entries : List Entry) : List (Path × Bytes) :=
  (entries.filter (Entry.isData ctx)).map fun e => (join stage (cleanName e.name), e.content)

variable {ctx} {stage : Path} {e : Entry} {rest : List (List Char)}

theorem foldl_joinStep {names : List (List Char)} (h : ∀ part ∈ names, Plain part) (p : Path) :
    names.foldl joinStep p = p ++ names.map String.ofList := by
  induction names generalizing p with
  | nil => simp
  | cons part names ih =>
    obtain ⟨hempty, hdot, hdots⟩ := h part List.mem_cons_self
    rw [List.foldl_cons, ih fun q hq => h q (List.mem_cons_of_mem part hq)]
    simp [joinStep, hempty, hdot, hdots]

theorem Below.head {clean : List Char} (h : Below ctx clean rest) : clean.head? ≠ some '/' := by
  intro hhead
  obtain ⟨tail, rfl⟩ : ∃ tail, clean = '/' :: tail := by
    cases clean with
    | nil => cases hhead
    | cons c tail =>
      cases hhead
      exact ⟨tail, rfl⟩
  have hsplit := h.split
  unfold parts at hsplit
  rw [List.splitOn_cons_eq_if_modifyHead, if_pos (beq_self_eq_true '/')] at hsplit
  exact h.fp_plain.1 (List.cons.inj hsplit).1.symm

theorem Below.join_eq {clean : List Char} (h : Below ctx clean rest) :
    join stage clean = stage ++ ctx.fp :: rest.map String.ofList := by
  have hall : ∀ part ∈ ctx.fp.toList :: rest, Plain part := by
    intro part hpart
    rcases List.mem_cons.mp hpart with rfl | hpart
    · exact h.fp_plain
    · exact h.plain part hpart
  rw [join, if_neg h.head, h.split, foldl_joinStep hall]
  simp

theorem Below.unreserved {clean : List Char} (h : Below ctx clean rest)
    (hreceipt : clean ≠ inWallet ctx receiptName) :
    ∀ name ∈ rest.map String.ofList, Unreserved name := by
  intro name hname
  obtain ⟨part, hpart, rfl⟩ := List.mem_map.mp hname
  constructor
  · intro heq
    apply h.no_key
    rwa [← heq, String.toList_ofList]
  · intro heq
    apply hreceipt
    apply (h.eq_inWallet (by decide)).mpr
    apply h.receipt
    rwa [← heq, String.toList_ofList]

theorem Placed.target_mem (h : Placed ctx e rest)
    (hreceipt : cleanName e.name ≠ inWallet ctx receiptName) :
    join stage (cleanName e.name) ∈ Region stage ctx.fp Unreserved := by
  rw [h.below.join_eq]
  exact mem_region (h.below.unreserved hreceipt)

theorem Placed.parent_mem (h : Placed ctx e rest)
    (hreceipt : cleanName e.name ≠ inWallet ctx receiptName) (hfile : e.isDir = false) :
    (join stage (cleanName e.name)).dropLast ∈ Region stage ctx.fp Unreserved := by
  apply dropLast_mem_region (h.target_mem hreceipt)
  rw [h.below.join_eq]
  intro heq
  have hrest : rest = [] := by simpa using heq
  rw [h.base hrest] at hfile
  cases hfile

/-! ### What the steps can do -/

variable {t₀ t : Tree} {files : List (Path × Bytes)}

variable (ctx) in
/-- The staging directory holds exactly these files, and the tree is otherwise as before. -/
abbrev Staged (stage : Path) (t₀ : Tree) (files : List (Path × Bytes)) (t : Tree) : Prop :=
  Filled stage ctx.fp Unreserved 0o600 t₀ files t

theorem privateDirectory_spec (h : Staged ctx stage t₀ files t) {directory : Path}
    (hdir : directory ∈ Region stage ctx.fp Unreserved) :
    Holds (privateDirectory stage directory) t (fun o t' =>
      Staged ctx stage t₀ files t' ∧ o ≠ .panicked) := by
  apply holds_bind
  apply holds_mapError
  refine (h.createDirAll hdir).mono ?_
  rintro o t' ⟨h, ho⟩
  cases o with
  | ok _ =>
    refine holds_forM (fun t => Staged ctx stage t₀ files t ∧ t.isDirectory directory = true)
      ⟨h, ho⟩ ?_ ?_
    · rintro path hpath t₁ ⟨h₁, hdir₁⟩
      obtain ⟨hmem, hinitial⟩ := mem_region_of_ancestor hdir hpath
      apply holds_mapError
      refine (h₁.setPermissions hmem (h₁.isDirectory_of_prefix hdir hdir₁ hmem hinitial) _).mono ?_
      rintro o t₂ ⟨h₂, hkeep, hpanic⟩
      cases o with
      | ok _ => exact ⟨h₂, hkeep directory hdir₁⟩
      | error _ => exact ⟨h₂, by simp⟩
      | panicked => exact absurd rfl hpanic
      | died => exact ⟨h₂, by simp⟩
    · exact fun t₁ h₁ => ⟨h₁.1, by simp⟩
  | error _ => exact ⟨h, by simp⟩
  | panicked => exact ho.elim
  | died => exact ⟨h, by simp⟩

/-- What an entry can leave behind when its extraction does not succeed. -/
def Leftover (stage : Path) (e : Entry) (part : List (Path × Bytes)) : Prop :=
  part = [] ∨ Entry.isData ctx e = true ∧ ∃ n,
    part = [(join stage (cleanName e.name), (e.take (e.size.toNat + 1)).bytes.take n)]

variable (ctx) in
/-- How the extraction of one entry can end. -/
def Extracted (stage : Path) (t₀ : Tree) (files : List (Path × Bytes)) (total : UInt64)
    (e : Entry) : Outcome APIError UInt64 → Tree → Prop := fun o t => match o with
  | .ok total' => Staged ctx stage t₀ (files ++ created ctx stage [e]) t ∧
      (Entry.isData ctx e = true → e.content.length = e.size.toNat) ∧
      total'.toNat = total.toNat + ((created ctx stage [e]).map fun f => f.2.length).sum
  | .error _ | .died => ∃ part, @Leftover crates ctx stage e part ∧
      Staged ctx stage t₀ (files ++ part) t
  | .panicked => False

theorem take_full {e : Entry} (h : (e.take (e.size.toNat + 1)).bytes.length = e.size.toNat) :
    (e.take (e.size.toNat + 1)).bytes = e.content ∧ e.content.length = e.size.toNat := by
  change (e.content.take (e.size.toNat + 1)).length = _ at h
  rw [List.length_take] at h
  have hlength : e.content.length = e.size.toNat := by omega
  exact ⟨List.take_of_length_le (by omega), hlength⟩

theorem extractFile_spec (h : Staged ctx stage t₀ files t) (hplaced : Placed ctx e rest)
    (hdata : Entry.isData ctx e = true) (total : UInt64) :
    Holds (extractFile (join stage (cleanName e.name)) total e) t
      (Extracted ctx stage t₀ files total e) := by
  have hreceipt : cleanName e.name ≠ inWallet ctx receiptName := by
    simp only [Entry.isData, Bool.and_eq_true, decide_eq_true_eq] at hdata
    exact hdata.2
  have hcreated : created ctx stage [e] = [(join stage (cleanName e.name), e.content)] := by
    simp [created, hdata]
  apply holds_bind
  apply holds_mapError
  refine (h.createNew (hplaced.target_mem hreceipt)).mono ?_
  intro o t₁ h₁
  cases o with
  | ok _ =>
    apply holds_bind
    apply holds_mapError
    refine (h₁.copy (e.take (e.size.toNat + 1))).mono ?_
    intro o t₂ h₂
    cases o with
    | ok count =>
      obtain ⟨rfl, h₂⟩ := h₂
      -- the whole of what was read, when an entry is given up after its copy
      have hwhole : ∃ part, @Leftover crates ctx stage e part ∧
          Staged ctx stage t₀ (files ++ part) t₂ := by
        refine ⟨_, Or.inr ⟨hdata, (e.take (e.size.toNat + 1)).bytes.length, rfl⟩, ?_⟩
        rwa [List.take_length]
      have hlimit : Extracted ctx stage t₀ files total e
        (.error (error "VSS_RESTORE_ARCHIVE_LIMIT")) t₂ := hwhole
      change Holds (match checkedAdd total _ with | none => _ | some total => _) t₂ _
      cases hsum : checkedAdd total (.ofNat (e.take (e.size.toNat + 1)).bytes.length) with
      | none => exact holds_throw hlimit
      | some total' =>
        apply holds_ite
        · exact fun _ => holds_throw hlimit
        · intro hfits
          rw [not_or, not_not] at hfits
          obtain ⟨hbytes, hlength⟩ := take_full hfits.1
          apply holds_bind
          apply holds_mapError
          apply holds_syncAll
          · apply holds_pure
            refine ⟨?_, fun _ => hlength, ?_⟩
            · rw [hcreated, ← hbytes]
              exact h₂
            · rw [checkedAdd_eq hsum, hcreated, hbytes]
              have hword : (UInt64.ofNat e.content.length).toNat = e.content.length := by
                rw [hlength, UInt64.ofNat_toNat]
              simp [hword]
          · exact hwhole
          · exact hwhole
    | error _ =>
      obtain ⟨n, h₂⟩ := h₂
      exact ⟨_, Or.inr ⟨hdata, n, rfl⟩, h₂⟩
    | panicked => exact h₂.elim
    | died =>
      obtain ⟨n, h₂⟩ := h₂
      exact ⟨_, Or.inr ⟨hdata, n, rfl⟩, h₂⟩
  | error _ => exact ⟨[], Or.inl rfl, by rwa [List.append_nil]⟩
  | panicked => exact h₁.elim
  | died => exact ⟨[], Or.inl rfl, by rwa [List.append_nil]⟩

theorem extractEntry_spec (h : Staged ctx stage t₀ files t) (hplaced : Placed ctx e rest)
    (total : UInt64) : Holds (extractEntry ctx stage total (some e)) t
      (Extracted ctx stage t₀ files total e) := by
  have hskip : Entry.isData ctx e = false → ∀ t, Staged ctx stage t₀ files t →
      Extracted ctx stage t₀ files total e (.ok total) t := by
    intro hdata t h
    have hcreated : created ctx stage [e] = [] := by simp [created, hdata]
    refine ⟨by rwa [hcreated, List.append_nil], ?_, by simp [hcreated]⟩
    rw [hdata]
    exact fun hfalse => by cases hfalse
  have hnothing : ∀ t, Staged ctx stage t₀ files t → ∃ part, @Leftover crates ctx stage e part ∧
      Staged ctx stage t₀ (files ++ part) t :=
    fun t h => ⟨[], Or.inl rfl, by rwa [List.append_nil]⟩
  apply holds_ite
  · intro hreceipt
    exact holds_pure (hskip (by simp [Entry.isData, hreceipt]) t h)
  intro hreceipt
  cases hdir : e.isDir with
  | true =>
    have hdata : Entry.isData ctx e = false := by simp [Entry.isData, hdir]
    apply holds_bind
    apply holds_pure
    apply holds_bind
    refine (privateDirectory_spec h (hplaced.target_mem hreceipt)).mono ?_
    rintro o t₁ ⟨h₁, hpanic⟩
    cases o with
    | ok _ => exact holds_pure (hskip hdata t₁ h₁)
    | error _ => exact hnothing t₁ h₁
    | panicked => exact absurd rfl hpanic
    | died => exact hnothing t₁ h₁
  | false =>
    have hdata : Entry.isData ctx e = true := by simp [Entry.isData, hdir, hreceipt]
    apply holds_bind
    apply holds_ite
    · intro hnil
      exact absurd hnil (ne_nil_of_mem_region (hplaced.target_mem hreceipt))
    intro _
    apply holds_pure
    apply holds_bind
    refine (privateDirectory_spec h (hplaced.parent_mem hreceipt hdir)).mono ?_
    rintro o t₁ ⟨h₁, hpanic⟩
    cases o with
    | ok _ => exact extractFile_spec h₁ hplaced hdata total
    | error _ => exact hnothing t₁ h₁
    | panicked => exact absurd rfl hpanic
    | died => exact hnothing t₁ h₁

/-! ### The whole extraction -/

theorem created_append (entries more : List Entry) :
    created ctx stage (entries ++ more) = created ctx stage entries ++ created ctx stage more := by
  simp [created]

theorem mem_created {f : Path × Bytes} {entries : List Entry} :
    f ∈ created ctx stage entries ↔ ∃ e ∈ entries, Entry.isData ctx e = true ∧
      f = (join stage (cleanName e.name), e.content) := by
  unfold created
  rw [List.mem_map]
  constructor
  · rintro ⟨e, he, rfl⟩
    exact ⟨e, (List.mem_filter.mp he).1, (List.mem_filter.mp he).2, rfl⟩
  · rintro ⟨e, he, hdata, rfl⟩
    exact ⟨e, List.mem_filter.mpr ⟨he, hdata⟩, rfl⟩

/-- Every file comes from one entry, and holds a prefix of its contents. -/
def FromEntries (stage : Path) (entries : List Entry) (files : List (Path × Bytes)) : Prop :=
  ∀ f ∈ files, ∃ e ∈ entries, Entry.isData ctx e = true ∧
    f.1 = join stage (cleanName e.name) ∧ f.2 <+: e.content

/-- Declared sizes bound what the data entries hold. -/
theorem created_volume_le (stage : Path) {entries : List Entry}
    (h : ∀ e ∈ entries, Entry.isData ctx e = true → e.content.length = e.size.toNat) :
    ((created ctx stage entries).map fun f => f.2.length).sum ≤
      (entries.map (·.size.toNat)).sum := by
  induction entries with
  | nil => exact le_refl _
  | cons e entries ih =>
    have ih := ih fun e' he' => h e' (List.mem_cons_of_mem e he')
    have hcons : created ctx stage (e :: entries) =
        created ctx stage [e] ++ created ctx stage entries := created_append [e] entries
    rw [hcons, List.map_append, List.sum_append, List.map_cons, List.sum_cons]
    have hone : ((created ctx stage [e]).map fun f => f.2.length).sum ≤ e.size.toNat := by
      cases hdata : Entry.isData ctx e with
      | false => simp [created, hdata]
      | true => simp [created, hdata, h e List.mem_cons_self hdata]
    omega

theorem leftover_volume_le {part : List (Path × Bytes)} (h : @Leftover crates ctx stage e part) :
    (part.map fun f => f.2.length).sum ≤ e.size.toNat + 1 := by
  rcases h with rfl | ⟨_, n, rfl⟩
  · simp
  · have hlength : ((e.content.take (e.size.toNat + 1)).take n).length ≤ e.size.toNat + 1 := by
      rw [List.length_take, List.length_take]
      omega
    simp only [List.map_cons, List.map_nil, List.sum_cons, List.sum_nil]
    exact hlength

/-- How an extraction can end. -/
def Contained (stage : Path) (t₀ : Tree) (entries : List Entry) :
    Outcome APIError Unit → Tree → Prop := fun o t =>
  (∃ files, Staged ctx stage t₀ files t ∧ @FromEntries crates ctx stage entries files ∧
    (files.map fun f => f.2.length).sum ≤ maxInflated + 1) ∧
  match o with
  | .ok _ => Staged ctx stage t₀ (created ctx stage entries) t ∧
      ∀ e ∈ entries, Entry.isData ctx e = true → e.content.length = e.size.toNat
  | .error _ | .died => True
  | .panicked => False

theorem created_fromEntries {entries all : List Entry} (h : ∀ e ∈ entries, e ∈ all) :
    @FromEntries crates ctx stage all (created ctx stage entries) := by
  intro f hf
  obtain ⟨e, he, hdata, rfl⟩ := mem_created.mp hf
  exact ⟨e, h e he, hdata, rfl, List.prefix_rfl⟩

theorem leftover_fromEntries {entries : List Entry} (he : e ∈ entries)
    {part : List (Path × Bytes)} (h : @Leftover crates ctx stage e part) :
    @FromEntries crates ctx stage entries part := by
  intro f hf
  rcases h with rfl | ⟨hdata, n, rfl⟩
  · cases hf
  · rw [List.mem_singleton.mp hf]
    exact ⟨e, he, hdata, rfl, (List.take_prefix n _).trans (List.take_prefix _ e.content)⟩

/-- Nothing of the wallet directory is there yet. -/
structure Fresh (stage : Path) (t : Tree) : Prop where
  dir : t.isDirectory stage = true
  empty : ∀ q, stage <+: q → q ≠ stage → t.node q = none

theorem Fresh.staged (h : Fresh stage t) : Staged ctx stage t [] t := by
  apply Filled.start h.dir
  rintro q ⟨rest, rfl, _⟩
  exact h.empty _ (List.prefix_append _ _) (by simp)

theorem extract_spec {zip : ZipReader} {bytes : Bytes} {entries : List Entry} {identity : String}
    (hzip : zip bytes = some (entries.map some)) (hsound : Sound ctx entries identity)
    (hfresh : Fresh stage t) :
    Holds (extract ctx zip bytes stage) t (@Contained crates ctx stage t entries) := by
  unfold extract
  rw [hzip]
  apply holds_bind
  refine holds_foldlM (fun done total t' => ∃ es, done = es.map some ∧ es <+: entries ∧
    Staged ctx stage t (created ctx stage es) t' ∧
    ∀ e ∈ es, Entry.isData ctx e = true → e.content.length = e.size.toNat) ?_ ?_ ?_
  · exact ⟨[], rfl, List.nil_prefix, hfresh.staged, fun e he => absurd he List.not_mem_nil⟩
  · rintro _ entry rest hsplit total t' ⟨es, rfl, _, hstaged, hsizes⟩
    obtain ⟨before, after, rfl, hbefore, hafter⟩ := List.map_eq_append_iff.mp hsplit
    have hes : es = before := List.map_injective_iff.mpr (Option.some_injective _) hbefore.symm
    subst hes
    obtain ⟨e, after, rfl, rfl, rfl⟩ := List.map_eq_cons_iff.mp hafter
    obtain ⟨place, hplaced⟩ := hsound.placed e (by simp)
    refine (extractEntry_spec hstaged hplaced total).mono ?_
    intro o t'' ho
    have hbound := hsound.bounded
    rw [List.map_append, List.sum_append, List.map_cons, List.sum_cons] at hbound
    have hdone := created_volume_le stage hsizes
    have hpart {part : List (Path × Bytes)} (hleft : @Leftover crates ctx stage e part)
        (hstaged : Staged ctx stage t (created ctx stage es ++ part) t'') :
        ∃ files, Staged ctx stage t files t'' ∧
          @FromEntries crates ctx stage (es ++ e :: after) files ∧
          (files.map fun f => f.2.length).sum ≤ maxInflated + 1 := by
      refine ⟨_, hstaged, ?_, ?_⟩
      · intro f hf
        rcases List.mem_append.mp hf with hf | hf
        · exact created_fromEntries (fun e he => List.mem_append_left _ he) f hf
        · exact leftover_fromEntries (by simp) hleft f hf
      · have hlast := leftover_volume_le hleft
        rw [List.map_append, List.sum_append]
        omega
    cases o with
    | ok total' =>
      refine ⟨es ++ [e], by simp, ⟨after, by simp⟩, ?_, ?_⟩
      · rw [created_append]
        exact ho.1
      · intro e' he'
        rcases List.mem_append.mp he' with he' | he'
        · exact hsizes e' he'
        · rw [List.mem_singleton.mp he']
          exact ho.2.1
    | error _ =>
      obtain ⟨part, hleft, hstaged⟩ := ho
      exact ⟨hpart hleft hstaged, trivial⟩
    | panicked => exact ho.elim
    | died =>
      obtain ⟨part, hleft, hstaged⟩ := ho
      exact ⟨hpart hleft hstaged, trivial⟩
  · rintro total t' ⟨es, hes, _, hstaged, hsizes⟩
    have hes : entries = es := List.map_injective_iff.mpr (Option.some_injective _) hes
    subst hes
    apply holds_pure
    refine ⟨⟨_, hstaged, created_fromEntries fun e he => he, ?_⟩, hstaged, hsizes⟩
    have hvolume := created_volume_le stage hsizes
    have hbound := hsound.bounded
    omega

end RgbLightningNode.Restore
