import Mathlib.Algebra.GroupWithZero.Nat
import RgbLightningNode.Restore.Context
import RgbLightningNode.Text.Cp437

/-!
# The admission of an archive

`archivePlan` reads every entry of an archive before anything is extracted. It looks at the raw
names, while the extraction uses the decoded ones; both have the same separators and the same
ASCII components, so what is admitted of one holds of the other.
-/

namespace RgbLightningNode.Restore
open FileSystem Text

/-! ### The zip reader -/

/-- One entry as the zip reader hands it out. Its name is the raw name read as UTF-8 or in the old
code page, and it is a directory if the name ends in a separator; `intact` tells whether reading
past the last byte reports no error. -/
structure Entry where
  nameRaw : Bytes
  name : List Char
  isDir : Bool
  size : UInt64
  compressedSize : UInt64
  unixMode : Option UInt32
  enclosed : Bool
  content : Bytes
  intact : Bool
  decoded : ∀ cs, decodeUtf8 nameRaw = some cs → name = cs ∨ name = decodeCp437 nameRaw
  directory : isDir = true ↔ name.getLast? = some '/' ∨ name.getLast? = some '\\'

namespace Entry

/-- The reader of the entry, stopped after some bytes. -/
def take (e : Entry) (limit : ℕ) : Stream :=
  ⟨e.content.take limit, e.intact || decide (limit ≤ e.content.length)⟩

end Entry

/-- The entries of an archive, some of which may be unreadable. -/
abbrev ZipReader := Bytes → Option (List (Option Entry))

/-! ### Arithmetic that stays in its word -/

def checkedAdd (a b : UInt64) : Option UInt64 :=
  if a.toNat + b.toNat < 2 ^ 64 then some (a + b) else none

def saturatingMul (a b : UInt64) : UInt64 :=
  if a.toNat * b.toNat < 2 ^ 64 then a * b else .ofNat (2 ^ 64 - 1)

theorem checkedAdd_eq {a b c : UInt64} (h : checkedAdd a b = some c) :
    c.toNat = a.toNat + b.toNat := by
  unfold checkedAdd at h
  split at h
  · rename_i hlt
    cases h
    rw [UInt64.toNat_add, Nat.mod_eq_of_lt hlt]
  · cases h

/-! ### Names -/

/-- A name without its trailing separators. -/
def cleanName (name : List Char) : List Char := name.rdropWhile (· == '/')

def parts (name : List Char) : List (List Char) := name.splitOn '/'

variable {crates : Crates} (ctx : Context crates)

/-- A path below the wallet directory, as the archive writes it. -/
def inWallet (name : Name) : List Char := ctx.fp.toList ++ '/' :: name.toList

def pathRejected (paths : List (List Char)) (name : List Char) (e : Entry) : Bool :=
  ['/', '/'].isSuffixOf name || name.contains '\\' || name.contains '\x00' ||
  name.head? == some '/' ||
  (parts (cleanName name)).any (fun p => p == [] || p == ['.'] || p == ['.', '.']) ||
  (parts (cleanName name)).head? != some ctx.fp.toList ||
  paths.contains (cleanName name) || !e.enclosed

def kindRejected (clean : List Char) (e : Entry) : Bool :=
  (clean == ctx.fp.toList && !e.isDir) || (e.isDir && e.size != 0)

def modeRejected (e : Entry) : Bool :=
  let mode := e.unixMode.getD 0 &&& 0o170000
  !([0, 0o040000, 0o100000].contains mode) || (e.isDir && mode == 0o100000) ||
    (!e.isDir && mode == 0o040000)

def reservedRejected (clean : List Char) : Bool :=
  (parts clean).any (· == keyName.toList) ||
    ((parts clean).any (· == receiptName.toList) && clean != inWallet ctx receiptName)

/-! ### The plan -/

structure Plan where
  paths : List (List Char)
  total : UInt64
  manifest : Option String

def planManifest (clean : List Char) (e : Entry) (manifest : Option String) :
    Except APIError (Option String) :=
  if clean == inWallet ctx "wallet_manifest.json" then
    if e.isDir || e.size.toNat > maxManifest then .error (error "VSS_RESTORE_INVALID_MANIFEST")
    else
      let data := e.take (maxManifest + 1)
      if !data.ends then .error (error "VSS_RESTORE_INVALID_ARCHIVE")
      else (manifestIdentity data.bytes ctx).map some
  else .ok manifest

/-- The checks of one entry whose raw name is valid UTF-8. -/
def planNamed (plan : Plan) (name : List Char) (e : Entry) : Except APIError Plan :=
  let clean := cleanName name
  if pathRejected ctx plan.paths name e then .error (error "VSS_RESTORE_INVALID_ARCHIVE_PATH")
  else if kindRejected ctx clean e then .error (error "VSS_RESTORE_INVALID_ARCHIVE_PATH")
  else if modeRejected e then .error (error "VSS_RESTORE_INVALID_ARCHIVE_PATH")
  else if reservedRejected ctx clean then .error (error "VSS_RESTORE_INVALID_ARCHIVE_PATH")
  else match checkedAdd plan.total e.size with
    | none => .error (error "VSS_RESTORE_ARCHIVE_LIMIT")
    | some total =>
      if total.toNat > maxInflated || e.size > saturatingMul (max e.compressedSize 1) 2000 then
        .error (error "VSS_RESTORE_ARCHIVE_LIMIT")
      else (planManifest ctx clean e plan.manifest).map fun manifest =>
        ⟨clean :: plan.paths, total, manifest⟩

def planEntry (plan : Plan) (entry : Option Entry) : Except APIError Plan :=
  match entry with
  | none => .error (error "VSS_RESTORE_INVALID_ARCHIVE")
  | some e => match decodeUtf8 e.nameRaw with
    | none => .error (error "VSS_RESTORE_INVALID_ARCHIVE")
    | some name => planNamed ctx plan name e

def archivePlan (zip : ZipReader) (bytes : Bytes) : Except APIError String :=
  if bytes.length > maxCompressed then .error (error "VSS_RESTORE_ARCHIVE_LIMIT")
  else match zip bytes with
    | none => .error (error "VSS_RESTORE_INVALID_ARCHIVE")
    | some entries =>
      if entries.length = 0 || entries.length > maxEntries then
        .error (error "VSS_RESTORE_ARCHIVE_LIMIT")
      else match entries.foldlM (planEntry ctx) ⟨[], 0, none⟩ with
        | .error failure => .error failure
        | .ok plan => match plan.manifest with
          | none => .error (error "VSS_RESTORE_INVALID_MANIFEST")
          | some identity => .ok identity

/-! ### What is admitted -/

/-- A component that names something in the directory it stands in. -/
def Plain (part : List Char) : Prop := part ≠ [] ∧ part ≠ ['.'] ∧ part ≠ ['.', '.']

/-- Where an admitted name lies below the wallet directory. -/
structure Below (clean : List Char) (rest : List (List Char)) : Prop where
  split : parts clean = ctx.fp.toList :: rest
  fp_plain : Plain ctx.fp.toList
  plain : ∀ part ∈ rest, Plain part
  no_key : keyName.toList ∉ rest
  receipt : receiptName.toList ∈ rest → rest = [receiptName.toList]

/-- An entry that the plan lets through, with its raw name. -/
structure Admitted (name : List Char) (e : Entry) : Prop where
  raw : decodeUtf8 e.nameRaw = some name
  below : ∃ rest, Below ctx (cleanName name) rest ∧ (rest = [] → e.isDir = true)
  no_backslash : '\\' ∉ name
  dir_empty : e.isDir = true → e.size = 0

variable {ctx}

theorem parts_eq {clean clean' : List Char} (h : parts clean = parts clean') : clean = clean' := by
  calc clean = ['/'].intercalate (parts clean) := (List.intercalate_splitOn '/').symm
    _ = ['/'].intercalate (parts clean') := congrArg _ h
    _ = clean' := List.intercalate_splitOn '/'

theorem fp_separator : '/' ∉ ctx.fp.toList := by
  intro hmem
  have hvalid := ctx.fp_valid
  simp only [validFp, Bool.and_eq_true, List.all_eq_true] at hvalid
  exact absurd (hvalid.2 '/' hmem) (by decide)

theorem parts_inWallet {name : Name} (h : '/' ∉ name.toList) :
    parts (inWallet ctx name) = [ctx.fp.toList, name.toList] := by
  have hsplit := @List.splitOn_intercalate Char [ctx.fp.toList, name.toList] _ _ '/'
    (by simpa using ⟨fp_separator, h⟩) (by simp)
  simpa [parts, inWallet] using hsplit

theorem Below.eq_inWallet {clean : List Char} {rest : List (List Char)} (h : Below ctx clean rest)
    {name : Name} (hname : '/' ∉ name.toList) :
    clean = inWallet ctx name ↔ rest = [name.toList] := by
  constructor
  · intro heq
    have hsplit := h.split
    rw [heq, parts_inWallet hname] at hsplit
    exact (List.cons.inj hsplit).2.symm
  · intro hrest
    apply parts_eq
    rw [h.split, hrest, parts_inWallet hname]

theorem below_of_accepted {paths : List (List Char)} {name : List Char} {e : Entry}
    (hpath : pathRejected ctx paths name e = false)
    (hreserved : reservedRejected ctx (cleanName name) = false) :
    ∃ rest, Below ctx (cleanName name) rest := by
  simp only [pathRejected, Bool.or_eq_false_iff, List.any_eq_false, Bool.or_eq_true, beq_iff_eq,
    bne_eq_false_iff_eq] at hpath
  obtain ⟨⟨⟨⟨_, hplain⟩, hhead⟩, _⟩, _⟩ := hpath
  simp only [reservedRejected, Bool.or_eq_false_iff, Bool.and_eq_false_iff, List.any_eq_false,
    beq_iff_eq, bne_eq_false_iff_eq] at hreserved
  obtain ⟨hkey, hreceipt⟩ := hreserved
  cases hsplit : parts (cleanName name) with
  | nil =>
    rw [hsplit] at hhead
    cases hhead
  | cons first rest =>
    rw [hsplit] at hhead hplain hkey hreceipt
    cases hhead
    have hall : ∀ part ∈ ctx.fp.toList :: rest, Plain part := by
      intro part hpart
      have hnot := hplain part hpart
      rw [not_or, not_or] at hnot
      exact ⟨hnot.1.1, hnot.1.2, hnot.2⟩
    refine ⟨rest, hsplit, hall _ List.mem_cons_self,
      fun part hpart => hall part (List.mem_cons_of_mem _ hpart), ?_, ?_⟩
    · intro hmem
      exact hkey keyName.toList (List.mem_cons_of_mem _ hmem) rfl
    · intro hmem
      rcases hreceipt with hnone | htop
      · exact absurd rfl (hnone receiptName.toList (List.mem_cons_of_mem _ hmem))
      · rw [htop, parts_inWallet (by decide)] at hsplit
        exact (List.cons.inj hsplit).2.symm

/-- What one entry adds to the plan. -/
structure Planned (plan : Plan) (name : List Char) (e : Entry) (plan' : Plan) : Prop where
  admitted : Admitted ctx name e
  fresh : cleanName name ∉ plan.paths
  paths : plan'.paths = cleanName name :: plan.paths
  total : plan'.total.toNat = plan.total.toNat + e.size.toNat
  bounded : plan'.total.toNat ≤ maxInflated
  manifest : planManifest ctx (cleanName name) e plan.manifest = .ok plan'.manifest

theorem planNamed_spec {plan plan' : Plan} {name : List Char} {e : Entry}
    (hraw : decodeUtf8 e.nameRaw = some name) (h : planNamed ctx plan name e = .ok plan') :
    @Planned crates ctx plan name e plan' := by
  unfold planNamed at h
  simp only at h
  split at h
  · cases h
  rename_i hpath
  split at h
  · cases h
  rename_i hkind
  split at h
  · cases h
  split at h
  · cases h
  rename_i hreserved
  split at h
  · cases h
  rename_i total htotal
  split at h
  · cases h
  rename_i hlimit
  rw [Bool.not_eq_true] at hpath hreserved hkind hlimit
  obtain ⟨rest, hbelow⟩ := below_of_accepted hpath hreserved
  simp only [kindRejected, Bool.or_eq_false_iff, Bool.and_eq_false_iff] at hkind
  simp only [pathRejected, Bool.or_eq_false_iff] at hpath
  cases hmanifest : planManifest ctx (cleanName name) e plan.manifest with
  | error failure =>
    rw [hmanifest] at h
    cases h
  | ok manifest =>
    rw [hmanifest] at h
    cases h
    refine ⟨⟨hraw, ⟨rest, hbelow, ?_⟩, ?_, ?_⟩, ?_, rfl, checkedAdd_eq htotal, ?_, hmanifest⟩
    · intro hrest
      have hbase : cleanName name = ctx.fp.toList := by
        apply parts_eq
        rw [hbelow.split, hrest]
        have hsplit := @List.splitOn_intercalate Char [ctx.fp.toList] _ _ '/'
          (by simpa using fp_separator) (by simp)
        simpa [parts] using hsplit.symm
      simpa [hbase] using hkind.1
    · simpa using hpath.1.1.1.1.1.1.2
    · intro hdir
      simpa [hdir] using hkind.2
    · simpa using hpath.1.2
    · simp only [Bool.or_eq_false_iff, decide_eq_false_iff_not] at hlimit
      exact Nat.le_of_not_lt hlimit.1

theorem planEntry_spec {plan plan' : Plan} {entry : Option Entry}
    (h : planEntry ctx plan entry = .ok plan') :
    ∃ e name, entry = some e ∧ @Planned crates ctx plan name e plan' := by
  unfold planEntry at h
  split at h
  · cases h
  rename_i e
  split at h
  · cases h
  rename_i name hraw
  exact ⟨e, name, rfl, planNamed_spec hraw h⟩

/-! ### From the raw names to the decoded ones -/

theorem exists_spelt {xs ys : List (List Char)} (h : List.Forall₂ Spells xs ys) {y : List Char}
    (hy : y ∈ ys) : ∃ x ∈ xs, Spells x y := by
  induction h with
  | nil => cases hy
  | @cons x y' xs ys hxy _ ih =>
    rcases List.mem_cons.mp hy with rfl | hy
    · exact ⟨x, List.mem_cons_self, hxy⟩
    · obtain ⟨x', hx', hspells⟩ := ih hy
      exact ⟨x', List.mem_cons_of_mem _ hx', hspells⟩

theorem Plain.spelt {part part' : List Char} (h : Plain part) (hspells : Spells part part') :
    Plain part' := by
  have hdot : ∀ c ∈ ['.'], c.toNat < 0x80 := forall_of_all (by decide)
  have hdots : ∀ c ∈ ['.', '.'], c.toNat < 0x80 := forall_of_all (by decide)
  exact ⟨mt hspells.eq_nil_iff.mp h.1, mt (hspells.eq_iff hdot).mp h.2.1,
    mt (hspells.eq_iff hdots).mp h.2.2⟩

theorem fp_ascii : ∀ c ∈ ctx.fp.toList, c.toNat < 0x80 := by
  intro c hc
  have hvalid := ctx.fp_valid
  simp only [validFp, Bool.and_eq_true, List.all_eq_true] at hvalid
  have hhex := hvalid.2 c hc
  simp only [lowerHex, Bool.or_eq_true, Bool.and_eq_true, decide_eq_true_eq, Char.isDigit] at hhex
  rcases hhex with ⟨_, h⟩ | ⟨_, h⟩
  · exact Nat.lt_of_le_of_lt (UInt32.le_iff_toNat_le.mp h) (by decide)
  · exact Nat.lt_of_le_of_lt (UInt32.le_iff_toNat_le.mp h) (by decide)

theorem spells_clean {name name' : List Char} (h : Spells name name') :
    Spells (cleanName name) (cleanName name') := h.rdropWhile (by decide)

theorem Below.spelt {name name' : List Char} {rest : List (List Char)}
    (h : Below ctx (cleanName name) rest) (hspells : Spells name name') :
    ∃ rest', Below ctx (cleanName name') rest' ∧ (rest' = [] → rest = []) := by
  have hparts : List.Forall₂ Spells (parts (cleanName name)) (parts (cleanName name')) :=
    (spells_clean hspells).splitOn (by decide)
  rw [h.split] at hparts
  cases hsplit : parts (cleanName name') with
  | nil =>
    rw [hsplit] at hparts
    cases hparts
  | cons first rest' =>
    rw [hsplit] at hparts
    obtain ⟨hfirst, hrest⟩ := List.forall₂_cons.mp hparts
    have hfp : first = ctx.fp.toList := (hfirst.eq_iff fp_ascii).mpr rfl
    have hname (text : Name) (htext : ∀ c ∈ text.toList, c.toNat < 0x80)
        (hmem : text.toList ∈ rest') : text.toList ∈ rest := by
      obtain ⟨part, hpart, hspelt⟩ := exists_spelt hrest hmem
      rwa [(hspelt.eq_iff htext).mp rfl] at hpart
    refine ⟨rest', ⟨by rw [hsplit, hfp], h.fp_plain, ?_, ?_, ?_⟩, ?_⟩
    · intro part' hpart'
      obtain ⟨part, hpart, hspelt⟩ := exists_spelt hrest hpart'
      exact (h.plain part hpart).spelt hspelt
    · exact fun hmem => h.no_key (hname keyName (forall_of_all (by decide)) hmem)
    · intro hmem
      have htop := h.receipt (hname receiptName (forall_of_all (by decide)) hmem)
      rw [htop] at hrest
      cases hrest with
      | cons hone hnil =>
        cases hnil
        rw [(hone.eq_iff (forall_of_all (by decide))).mpr rfl]
    · rintro rfl
      cases hrest
      rfl

variable (ctx) in
/-- Where the extraction puts an admitted entry. -/
structure Placed (e : Entry) (rest : List (List Char)) : Prop where
  below : Below ctx (cleanName e.name) rest
  base : rest = [] → e.isDir = true
  dir_iff : e.isDir = true ↔ e.name.getLast? = some '/'
  dir_empty : e.isDir = true → e.size = 0

theorem Admitted.spells {name : List Char} {e : Entry} (h : Admitted ctx name e) :
    Spells name e.name := by
  rcases e.decoded name h.raw with heq | heq
  · rw [heq]
    exact .refl name
  · rw [heq]
    exact spells_decodeCp437 h.raw

theorem Admitted.placed {name : List Char} {e : Entry} (h : Admitted ctx name e) :
    ∃ rest, Placed ctx e rest := by
  obtain ⟨rest, hbelow, hbase⟩ := h.below
  obtain ⟨rest', hbelow', hempty⟩ := hbelow.spelt h.spells
  have hslash : '\\' ∉ e.name := fun hmem => h.no_backslash ((h.spells.mem_iff (by decide)).mp hmem)
  refine ⟨rest', hbelow', fun hrest => hbase (hempty hrest), ?_, h.dir_empty⟩
  rw [e.directory]
  constructor
  · rintro (hlast | hlast)
    · exact hlast
    · exact absurd (List.mem_of_getLast? hlast) hslash
  · exact Or.inl

theorem Admitted.clean_iff {name : List Char} {e : Entry} (h : Admitted ctx name e) {text : Name}
    (htext : ∀ c ∈ text.toList, c.toNat < 0x80) :
    cleanName name = inWallet ctx text ↔ cleanName e.name = inWallet ctx text := by
  have hall : ∀ c ∈ inWallet ctx text, c.toNat < 0x80 := by
    intro c hc
    rcases List.mem_append.mp hc with hc | hc
    · exact fp_ascii c hc
    · rcases List.mem_cons.mp hc with rfl | hc
      · decide
      · exact htext c hc
  exact ((spells_clean h.spells).eq_iff hall).symm

/-! ### The whole archive -/

variable (ctx) in
/-- The entry states the identity of the wallet. -/
structure States (e : Entry) (identity : String) : Prop where
  name : cleanName e.name = inWallet ctx "wallet_manifest.json"
  file : e.isDir = false
  size : e.size.toNat ≤ maxManifest
  identity : manifestIdentity (e.take (maxManifest + 1)).bytes ctx = .ok identity

variable (ctx) in
/-- What the plan knows about the entries it has read. -/
structure Surveyed (entries : List Entry) (plan : Plan) : Prop where
  placed : ∀ e ∈ entries, ∃ rest, Placed ctx e rest
  total : plan.total.toNat = (entries.map (·.size.toNat)).sum
  bounded : plan.total.toNat ≤ maxInflated
  manifest : ∀ identity, plan.manifest = some identity → ∃ e ∈ entries, States ctx e identity

theorem Surveyed.step {entries : List Entry} {plan plan' : Plan} {name : List Char} {e : Entry}
    (h : Surveyed ctx entries plan) (hplan : @Planned crates ctx plan name e plan') :
    Surveyed ctx (entries ++ [e]) plan' where
  placed e' he' := by
    rcases List.mem_append.mp he' with he' | he'
    · exact h.placed e' he'
    · rw [List.mem_singleton.mp he']
      exact hplan.admitted.placed
  total := by
    rw [hplan.total, h.total]
    simp
  bounded := hplan.bounded
  manifest identity hidentity := by
    have hmanifest := hplan.manifest
    unfold planManifest at hmanifest
    split at hmanifest
    · rename_i hname
      split at hmanifest
      · cases hmanifest
      rename_i hfile
      simp only at hmanifest
      split at hmanifest
      · cases hmanifest
      cases hid : manifestIdentity (e.take (maxManifest + 1)).bytes ctx with
      | error failure =>
        rw [hid] at hmanifest
        cases hmanifest
      | ok identity' =>
        rw [hid] at hmanifest
        have heq : identity' = identity := by
          have hsome : some identity' = plan'.manifest := by simpa [Except.map] using hmanifest
          rw [hidentity] at hsome
          exact Option.some.inj hsome
        simp only [Bool.or_eq_true, decide_eq_true_eq, not_or, Bool.not_eq_true] at hfile
        refine ⟨e, by simp, ?_, hfile.1, Nat.le_of_not_lt hfile.2, by rw [hid, heq]⟩
        exact (hplan.admitted.clean_iff (forall_of_all (by decide))).mp (by simpa using hname)
    · have heq : plan.manifest = some identity := by
        rw [← hidentity]
        simpa using hmanifest
      obtain ⟨e', he', hstates⟩ := h.manifest identity heq
      exact ⟨e', List.mem_append_left _ he', hstates⟩

theorem survey {entries : List (Option Entry)} {before : List Entry} {plan plan' : Plan}
    (hbefore : Surveyed ctx before plan) (h : entries.foldlM (planEntry ctx) plan = .ok plan') :
    ∃ es, entries = es.map some ∧ Surveyed ctx (before ++ es) plan' := by
  induction entries generalizing before plan with
  | nil =>
    cases h
    exact ⟨[], rfl, by rwa [List.append_nil]⟩
  | cons entry entries ih =>
    rw [List.foldlM_cons] at h
    cases hfirst : planEntry ctx plan entry with
    | error failure =>
      rw [hfirst] at h
      cases h
    | ok next =>
      rw [hfirst] at h
      obtain ⟨e, name, rfl, hplan⟩ := planEntry_spec hfirst
      obtain ⟨es, rfl, hes⟩ := ih (hbefore.step hplan) h
      exact ⟨e :: es, rfl, by simpa using hes⟩

variable (ctx) in
/-- An archive whose entries all have their place, with the identity that its manifest states. -/
structure Sound (entries : List Entry) (identity : String) : Prop where
  placed : ∀ e ∈ entries, ∃ rest, Placed ctx e rest
  bounded : (entries.map (·.size.toNat)).sum ≤ maxInflated
  states : ∃ e ∈ entries, States ctx e identity

theorem archivePlan_sound {zip : ZipReader} {bytes : Bytes} {identity : String}
    (h : archivePlan ctx zip bytes = .ok identity) :
    ∃ entries : List Entry, zip bytes = some (entries.map some) ∧ Sound ctx entries identity := by
  unfold archivePlan at h
  split at h
  · cases h
  split at h
  · cases h
  rename_i entries hzip
  split at h
  · cases h
  split at h
  · cases h
  rename_i plan hplan
  split at h
  · cases h
  rename_i found hfound
  cases h
  have hstart : Surveyed ctx [] ⟨[], 0, none⟩ :=
    ⟨fun e he => absurd he List.not_mem_nil, rfl, by decide, fun identity h => by cases h⟩
  obtain ⟨es, rfl, hes⟩ := survey hstart hplan
  refine ⟨es, hzip, hes.placed, ?_, hes.manifest _ hfound⟩
  have hbounded := hes.bounded
  rwa [hes.total] at hbounded

end RgbLightningNode.Restore
