import RgbLightningNode.Restore.Receipt

/-!
# Containment of the extraction

Whatever fails, and wherever the process dies, the extraction of an admitted archive changes nothing
outside the wallet directory of its staging directory, and a successful one leaves exactly the
files of the archive.
-/

namespace RgbLightningNode.Restore
open Faulty FileSystem Text

variable {crates : Crates} {ctx : Context crates} {stage : Path} {t : Tree}

/-! ### Existing files are kept -/

section Keeps

variable {t₀ : Tree}

theorem privateDirectory_keeps (h : t₀.Keeps t) (directory : Path) :
    Holds (privateDirectory stage directory) t (fun _ t' => t₀.Keeps t') := by
  apply holds_bind
  apply holds_mapError
  refine (createDirAll_keeps h).mono ?_
  intro o t₁ h₁
  cases o with
  | ok _ =>
    refine holds_forM (fun t => t₀.Keeps t) h₁ ?_ (fun _ h => h)
    intro path _ t₂ h₂
    apply holds_mapError
    apply holds_setPermissions
    · exact fun n hn => h₂.withMode hn _
    · exact fun _ => h₂
    · exact h₂
  | error _ => exact h₁
  | panicked => exact h₁
  | died => exact h₁

theorem extractFile_keeps (h : t₀.Keeps t) {target : Path} (hne : target ≠ []) (total : UInt64)
    (e : Entry) :
    Holds (extractFile target total e) t (fun _ t' => t₀.Keeps t') := by
  apply holds_bind
  apply holds_mapError
  apply holds_createNew
  · intro hnone _
    have hfree := h.free hnone hne
    have hnew := h.put hfree (.file [] (ownedAttr 0o600))
    apply holds_bind
    apply holds_mapError
    apply holds_copy
    · intro _
      have hcopied := hnew.append hfree (e.take (e.size.toNat + 1)).bytes
      dsimp only [Outcome.Then]
      cases checkedAdd total (.ofNat (e.take (e.size.toNat + 1)).bytes.length) with
      | none => exact holds_throw hcopied
      | some total' =>
        apply holds_ite
        · exact fun _ => holds_throw hcopied
        · intro _
          apply holds_bind
          apply holds_mapError
          apply holds_syncAll
          · exact holds_pure hcopied
          · exact hcopied
          · exact hcopied
    · exact fun n => hnew.append hfree _
    · exact fun n => hnew.append hfree _
  · exact fun _ => h
  · exact h

/-- Whatever a tree holds, the extraction of an entry leaves its files as they are. -/
theorem extractEntry_keeps (h : t₀.Keeps t) (total : UInt64) (entry : Option Entry) :
    Holds (extractEntry ctx stage total entry) t (fun _ t' => t₀.Keeps t') := by
  cases entry with
  | none => exact holds_throw h
  | some e =>
    apply holds_ite
    · exact fun _ => holds_pure h
    intro _
    have hrest (directory : Path) (hne : e.isDir = true ∨ join stage (cleanName e.name) ≠ []) :
        Holds (do
        privateDirectory stage directory
        if e.isDir then return total
        else extractFile (join stage (cleanName e.name)) total e) t (fun _ t' => t₀.Keeps t') := by
      apply holds_bind
      refine (privateDirectory_keeps h directory).mono ?_
      intro o t₁ h₁
      cases o with
      | ok _ =>
        apply holds_ite
        · exact fun _ => holds_pure h₁
        · exact fun hfile => extractFile_keeps h₁ (hne.resolve_left hfile) total e
      | error _ => exact h₁
      | panicked => exact h₁
      | died => exact h₁
    apply holds_ite
    · intro hdir
      apply holds_bind
      exact holds_pure (hrest _ (Or.inl hdir))
    · intro _
      apply holds_bind
      apply holds_ite
      · exact fun _ => holds_throw h
      · exact fun hne => holds_pure (hrest _ (Or.inr hne))

theorem extractEntries_keeps (t : Tree) (total : UInt64) (entries : List (Option Entry)) :
    Holds (entries.foldlM (extractEntry ctx stage) total) t (fun _ t' => t.Keeps t') := by
  refine holds_foldlM (fun _ _ t' => t.Keeps t') (.refl t) ?_ (fun _ _ h => h)
  intro done entry rest _ total t' h
  refine (extractEntry_keeps h total entry).mono ?_
  intro o t'' h
  cases o with
  | ok _ => exact h
  | error _ => exact h
  | panicked => exact h
  | died => exact h

end Keeps

/-! ### Directories of the archive -/

section Dirs

variable (ctx) in
/-- The directories that an archive lists have been created. -/
def Housed (stage : Path) (entries : List (Option Entry)) (t : Tree) : Prop :=
  ∀ e, some e ∈ entries → e.isDir = true → cleanName e.name ≠ inWallet ctx receiptName →
    t.isDirectory (join stage (cleanName e.name)) = true

theorem privateDirectory_made (directory : Path) : Holds (privateDirectory stage directory) t
    (fun o t' => o = .ok ⟨⟩ → t'.isDirectory directory = true) := by
  apply holds_bind
  apply holds_mapError
  refine createDirAll_made.mono ?_
  intro o t₁ ho
  cases o with
  | ok _ =>
    refine holds_forM (fun t => t.isDirectory directory = true) (ho rfl) ?_ (fun _ h _ => h)
    intro path _ t₂ h₂
    apply holds_mapError
    apply holds_setPermissions
    · intro n hn
      exact ((Tree.Keeps.refl t₂).withMode hn 0o700).dirs _ h₂
    · exact fun _ h => by cases h
    · exact fun h => by cases h
  | error _ => exact fun h => by cases h
  | panicked => exact fun h => by cases h
  | died => exact fun h => by cases h

theorem extractEntry_made (total : UInt64) (entry : Option Entry) :
    Holds (extractEntry ctx stage total entry) t
      (fun o t' => (∃ total', o = .ok total') → Housed ctx stage [entry] t') := by
  cases entry with
  | none => exact holds_throw fun h => by simp at h
  | some e =>
    apply holds_ite
    · intro hreceipt
      apply holds_pure
      intro _ e' he' _ hother
      cases List.mem_singleton.mp he'
      exact absurd hreceipt hother
    intro _
    by_cases hdir : e.isDir = true
    · simp only [hdir, if_true]
      apply holds_bind
      apply holds_pure
      apply holds_bind
      refine (privateDirectory_made _).mono ?_
      intro o t₁ hmade
      cases o with
      | ok _ =>
        apply holds_pure
        intro _ e' he' _ _
        cases List.mem_singleton.mp he'
        exact hmade rfl
      | error _ => exact fun h => by simp at h
      | panicked => exact fun h => by simp at h
      | died => exact fun h => by simp at h
    · intro ds _ e' he' hdir'
      cases List.mem_singleton.mp he'
      exact absurd hdir' hdir

theorem extractEntries_housed (t : Tree) (total : UInt64) (entries : List (Option Entry)) :
    Holds (entries.foldlM (extractEntry ctx stage) total) t
      (fun o t' => (∃ total', o = .ok total') → Housed ctx stage entries t') := by
  refine holds_foldlM (fun done _ t' => Housed ctx stage done t') ?_ ?_ (fun _ _ h _ => h)
  · exact fun e he => absurd he List.not_mem_nil
  intro done entry rest _ total t' h
  refine ((extractEntry_made total entry).and (extractEntry_keeps (.refl t') total entry)).mono ?_
  rintro o t'' ⟨hmade, hkeeps⟩
  cases o with
  | ok total' =>
    intro e he hdir hreceipt
    rcases List.mem_append.mp he with he | he
    · exact hkeeps.dirs _ (h e he hdir hreceipt)
    · exact hmade ⟨total', rfl⟩ e he hdir hreceipt
  | error _ => exact fun h => by simp at h
  | panicked => exact fun h => by simp at h
  | died => exact fun h => by simp at h

/-- A successful extraction has created the directories of its archive. -/
theorem extract_housed {zip : ZipReader} {bytes : Bytes} {entries : List Entry}
    (hzip : zip bytes = some (entries.map some)) : Holds (extract ctx zip bytes stage) t
      (fun o t' => o = .ok () → Housed ctx stage (entries.map some) t') := by
  unfold extract
  rw [hzip]
  apply holds_bind
  refine (extractEntries_housed t 0 _).mono ?_
  intro o t' h
  cases o with
  | ok total => exact holds_pure fun _ => h ⟨total, rfl⟩
  | error _ => exact fun h => by cases h
  | panicked => exact fun h => by cases h
  | died => exact fun h => by cases h

end Dirs

/-! ### Containment -/

variable (ctx) in
/-- What an extraction never does, however far it gets. -/
structure Confined (stage : Path) (t t' : Tree) : Prop where
  /-- Nothing is created, changed or given other permissions but at the wallet directory of the
  stage and below it. -/
  off : t.AgreeOff {q | stage ++ [ctx.fp] <+: q} t'
  keeps : t.Keeps t'
  no_symlink : ∀ q, stage <+: q → q ≠ stage → t'.node q ≠ some .symlink
  no_key : ∀ rest, keyName ∈ rest → t'.node (stage ++ rest) = none
  no_receipt : t'.node (stage ++ [ctx.fp, receiptName]) = none
  volume : t'.volume stage ≤ maxInflated + 1

variable (ctx) in
/-- What a successful extraction leaves. -/
structure Complete (stage : Path) (entries : List Entry) (identity : String) (t' : Tree) :
    Prop where
  /-- The files are the archive's, without its directories and the receipt at its top. -/
  files : ∀ q content, stage <+: q → q ≠ stage → (t'.look q = .file content ↔
    ∃ e ∈ entries, e.isDir = false ∧ cleanName e.name ≠ inWallet ctx receiptName ∧
      q = join stage (cleanName e.name) ∧ content = e.content)
  distinct : ((entries.filter (Entry.isData ctx)).map fun e => join stage (cleanName e.name)).Nodup
  sizes : ∀ e ∈ entries, e.isDir = false → cleanName e.name ≠ inWallet ctx receiptName →
    e.content.length = e.size.toNat
  manifest : ∃ content, t'.look (stage ++ [ctx.fp, "wallet_manifest.json"]) = .file content ∧
    manifestIdentity content ctx = .ok identity

theorem region_below {q : Path} (h : q ∈ Region stage ctx.fp Unreserved) :
    stage ++ [ctx.fp] <+: q := by
  obtain ⟨rest, rfl, _⟩ := h
  exact ⟨rest, by simp⟩

theorem confined_of_staged {files : List (Path × Bytes)} {t' : Tree}
    (hfresh : Fresh stage t) (h : Staged ctx stage t files t') (hkeeps : t.Keeps t')
    (hvolume : (files.map fun f => f.2.length).sum ≤ maxInflated + 1) :
    Confined ctx stage t t' := by
  have houtside : ∀ q, stage <+: q → q ≠ stage → q ∉ Region stage ctx.fp Unreserved →
      t'.node q = none := by
    intro q hbelow hproper hout
    rw [h.off q hout]
    exact hfresh.empty q hbelow hproper
  refine ⟨h.off.mono fun q hq => region_below hq, hkeeps, ?_, ?_, ?_, ?_⟩
  · intro q hbelow hproper hnode
    by_cases hq : q ∈ Region stage ctx.fp Unreserved
    · rcases h.plain q hq _ hnode with ⟨attr, hdir, _⟩ | ⟨bytes, hfile⟩
      · cases hdir
      · cases hfile
    · rw [houtside q hbelow hproper hq] at hnode
      cases hnode
  · intro rest hkey
    apply houtside _ (List.prefix_append _ _)
    · intro heq
      have hnil : rest = [] := by simpa using heq
      rw [hnil] at hkey
      cases hkey
    · rintro ⟨below, heq, hnames⟩
      have hrest : rest = ctx.fp :: below := List.append_cancel_left heq
      rw [hrest] at hkey
      rcases List.mem_cons.mp hkey with hfp | hkey
      · have hvalid := ctx.fp_valid
        rw [← hfp] at hvalid
        exact absurd hvalid (by decide)
      · exact (hnames _ hkey).1 rfl
  · apply houtside _ (List.prefix_append _ _) (by simp)
    rintro ⟨below, heq, hnames⟩
    have hbelow : [receiptName] = below := by
      have hcons := List.append_cancel_left heq
      exact (List.cons.inj hcons).2
    exact (hnames receiptName (by rw [← hbelow]; exact List.mem_singleton_self _)).2 rfl
  · exact (h.volume_le hfresh.empty).trans hvolume

theorem isData_iff {e : Entry} : Entry.isData ctx e = true ↔
    e.isDir = false ∧ cleanName e.name ≠ inWallet ctx receiptName := by
  simp [Entry.isData]

theorem complete_of_staged {entries : List Entry} {identity : String} {t' : Tree}
    (hfresh : Fresh stage t) (hsound : Sound ctx entries identity)
    (h : Staged ctx stage t (created ctx stage entries) t')
    (hsizes : ∀ e ∈ entries, Entry.isData ctx e = true → e.content.length = e.size.toNat) :
    Complete ctx stage entries identity t' where
  files q content hbelow hproper := by
    have hmem : (q, content) ∈ created ctx stage entries ↔ ∃ e ∈ entries, e.isDir = false ∧
        cleanName e.name ≠ inWallet ctx receiptName ∧ q = join stage (cleanName e.name) ∧
        content = e.content := by
      simp only [mem_created, isData_iff, Prod.mk.injEq, and_assoc]
    rw [← hmem]
    by_cases hq : q ∈ Region stage ctx.fp Unreserved
    · exact h.look_iff q hq content
    · have hnone : t'.node q = none := by
        rw [h.off q hq]
        exact hfresh.empty q hbelow hproper
      rw [Tree.look_eq_absent.mpr hnone]
      exact iff_of_false (fun h => by cases h) fun hfile => hq (h.inside _ hfile)
  distinct := by
    have hnodup := h.nodup
    rwa [created, List.map_map] at hnodup
  sizes e he hfile hreceipt := hsizes e he (isData_iff.mpr ⟨hfile, hreceipt⟩)
  manifest := by
    obtain ⟨e, he, hstates⟩ := hsound.states
    obtain ⟨rest, hplaced⟩ := hsound.placed e he
    have hrest : rest = ["wallet_manifest.json".toList] :=
      (hplaced.below.eq_inWallet (by decide)).mp hstates.name
    have hreceipt : cleanName e.name ≠ inWallet ctx receiptName := by
      rw [ne_eq, hplaced.below.eq_inWallet (by decide), hrest]
      decide
    have hdata := isData_iff.mpr ⟨hstates.file, hreceipt⟩
    have htarget : join stage (cleanName e.name) = stage ++ [ctx.fp, "wallet_manifest.json"] := by
      rw [hplaced.below.join_eq, hrest]
      simp
    have hfile := h.file_mem (mem_created.mpr ⟨e, he, hdata, rfl⟩)
    have hwhole : (e.take (maxManifest + 1)).bytes = e.content := by
      apply List.take_of_length_le
      have hlength := hsizes e he hdata
      have hsize := hstates.size
      omega
    refine ⟨e.content, by rw [← htarget]; exact hfile, ?_⟩
    rw [← hwhole]
    exact hstates.identity

/-- Admission of an archive implies that its extraction into a fresh directory is contained, under
every schedule of failures and crashes, and that a successful extraction is complete. -/
theorem admission_contains {zip : ZipReader} {bytes : Bytes} {identity : String}
    (hplan : archivePlan ctx zip bytes = .ok identity) (hfresh : Fresh stage t) :
    Holds (extract ctx zip bytes stage) t (fun o t' =>
      Confined ctx stage t t' ∧ o ≠ .panicked ∧
      (o = .ok () → ∃ entries : List Entry, zip bytes = some (entries.map some) ∧
        Complete ctx stage entries identity t')) ∧
    ∀ (total : UInt64) (rest : List (Option Entry)) (t₁ : Tree),
      Holds (rest.foldlM (extractEntry ctx stage) total) t₁ (fun _ t₂ => t₁.Keeps t₂) := by
  obtain ⟨entries, hzip, hsound⟩ := archivePlan_sound hplan
  have hkeeps : Holds (extract ctx zip bytes stage) t (fun _ t' => t.Keeps t') := by
    unfold extract
    rw [hzip]
    apply holds_bind
    refine (extractEntries_keeps t 0 _).mono ?_
    intro o t' h
    cases o with
    | ok _ => exact holds_pure h
    | error _ => exact h
    | panicked => exact h
    | died => exact h
  refine ⟨?_, fun total rest t₁ => extractEntries_keeps t₁ total rest⟩
  refine ((extract_spec hzip hsound hfresh).and hkeeps).mono ?_
  rintro o t' ⟨⟨⟨files, hstaged, _, hvolume⟩, ho⟩, hkept⟩
  refine ⟨confined_of_staged hfresh hstaged hkept hvolume, ?_, ?_⟩
  · rintro rfl
    exact ho
  · rintro rfl
    exact ⟨entries, hzip, complete_of_staged hfresh hsound ho.1 ho.2⟩

/-! ### An archive of one manifest -/

def sampleManifest : Bytes := utf8 ("\x7b\"version\":1,\"bitcoin_network\":\"Signet\"," ++
  "\"master_fingerprint\":\"a1b2c3d4\",\"account_xpub_vanilla\":\"v\"," ++
  "\"account_xpub_colored\":\"c\",\"vanilla_keychain\":0,\"witness_version\":\"Taproot\"\x7d")

def sampleManifestValue : JsonValue := .object [
  ("version", .number (.posInt 1)), ("bitcoin_network", .string "Signet"),
  ("master_fingerprint", .string "a1b2c3d4"), ("account_xpub_vanilla", .string "v"),
  ("account_xpub_colored", .string "c"), ("vanilla_keychain", .number (.posInt 0)),
  ("witness_version", .string "Taproot")]

def sampleIdentityText : String := "[1,\"Signet\",\"a1b2c3d4\",\"v\",\"c\",0,\"Taproot\"]"

/-- The fields of a receipt for the sample manifest, under version seven. -/
def sampleFields : Fields where
  schemaVersion := 1
  network := "signet"
  nodeId := "020202020202020202020202020202020202020202020202020202020202020202"
  masterFingerprint := "a1b2c3d4"
  version := 7
  endpointSha256 := "fc491a05e1bc11232894d4e0459394179be460bb28ac8a09b40900131beb2ad0"
  targetSha256 := "9a649f2b2d3c35063a29c4e016e505ecd57dbe267174ebcb7bd5a26216e35f0d"
  manifestIdentitySha256 := "c7ec8dda3cf89dad8ea6c5886c6f854070ec2929c262285ce88f175494bc64a8"

def sampleAnswer : String := "\x7b\"master_fingerprint\":\"a1b2c3d4\",\"network\":\"signet\"," ++
  "\"node_id\":\"020202020202020202020202020202020202020202020202020202020202020202\"," ++
  "\"restored\":true,\"status\":\"restored\",\"version\":7\x7d"

/-- The digests of the texts that the sample hashes. -/
def sampleSha256 (bytes : Bytes) : Bytes :=
  if bytes = utf8 sampleIdentityText then
    [199, 236, 141, 218, 60, 248, 157, 173, 142, 166, 197, 136, 108, 111, 133, 64, 112, 236, 41,
     41, 194, 98, 40, 92, 232, 143, 23, 84, 148, 188, 100, 168]
  else if bytes = utf8 "https://example.invalid/vss" then
    [252, 73, 26, 5, 225, 188, 17, 35, 40, 148, 212, 224, 69, 147, 148, 23, 155, 228, 96, 187,
     40, 172, 138, 9, 180, 9, 0, 19, 27, 235, 42, 208]
  else if bytes = utf8 "/w/a1b2c3d4" then
    [154, 100, 159, 43, 45, 60, 53, 6, 58, 41, 196, 224, 22, 229, 5, 236, 213, 125, 190, 38, 113,
     116, 235, 203, 123, 213, 162, 98, 22, 227, 95, 13]
  else List.replicate 32 0

def sampleCrates : Crates where
  sha256 := sampleSha256
  sha256_length bytes := by
    unfold sampleSha256
    split_ifs <;> rfl
  hmac key bytes :=
    if key = List.replicate 32 0 ∧ bytes = encodeFields sampleFields then
      [128, 184, 106, 145, 165, 66, 188, 0, 93, 38, 43, 64, 58, 252, 116, 120, 184, 5, 207, 93, 55,
       229, 252, 92, 102, 75, 18, 181, 44, 90, 154, 178]
    else List.replicate 32 0
  hmac_length key bytes := by
    split_ifs <;> rfl
  fromSlice bytes := if bytes = sampleManifest then some sampleManifestValue else none
  toText
    | .object (("restored", .bool true) :: _) => sampleAnswer
    | _ => sampleIdentityText

def sampleContext : Context sampleCrates where
  base := ["w"]
  network := "signet"
  nodeId := "020202020202020202020202020202020202020202020202020202020202020202"
  fp := "a1b2c3d4"
  vanilla := "v"
  colored := "c"
  endpoint := "https://example.invalid/vss"
  endpointHash := "fc491a05e1bc11232894d4e0459394179be460bb28ac8a09b40900131beb2ad0"
  targetHash := "9a649f2b2d3c35063a29c4e016e505ecd57dbe267174ebcb7bd5a26216e35f0d"
  fp_valid := by decide
  nodeId_text := by decide
  endpointHash_eq := by decide
  targetHash_eq := by decide

/-- A stored archive of the wallet directory and its manifest. -/
def sampleArchive : Bytes :=
  [80, 75, 3, 4, 20, 0, 0, 0, 0, 0, 0, 0, 33, 0, 0, 0, 0, 0, 0, 0, 0, 0, 0, 0, 0, 0, 9, 0, 0, 0,
   97, 49, 98, 50, 99, 51, 100, 52, 47, 80, 75, 3, 4, 20, 0, 0, 0, 0, 0, 0, 0, 33, 0, 178, 63,
   149, 240, 175, 0, 0, 0, 175, 0, 0, 0, 29, 0, 0, 0, 97, 49, 98, 50, 99, 51, 100, 52, 47, 119,
   97, 108, 108, 101, 116, 95, 109, 97, 110, 105, 102, 101, 115, 116, 46, 106, 115, 111, 110,
   123, 34, 118, 101, 114, 115, 105, 111, 110, 34, 58, 49, 44, 34, 98, 105, 116, 99, 111, 105,
   110, 95, 110, 101, 116, 119, 111, 114, 107, 34, 58, 34, 83, 105, 103, 110, 101, 116, 34, 44,
   34, 109, 97, 115, 116, 101, 114, 95, 102, 105, 110, 103, 101, 114, 112, 114, 105, 110, 116,
   34, 58, 34, 97, 49, 98, 50, 99, 51, 100, 52, 34, 44, 34, 97, 99, 99, 111, 117, 110, 116, 95,
   120, 112, 117, 98, 95, 118, 97, 110, 105, 108, 108, 97, 34, 58, 34, 118, 34, 44, 34, 97, 99,
   99, 111, 117, 110, 116, 95, 120, 112, 117, 98, 95, 99, 111, 108, 111, 114, 101, 100, 34, 58,
   34, 99, 34, 44, 34, 118, 97, 110, 105, 108, 108, 97, 95, 107, 101, 121, 99, 104, 97, 105, 110,
   34, 58, 48, 44, 34, 119, 105, 116, 110, 101, 115, 115, 95, 118, 101, 114, 115, 105, 111, 110,
   34, 58, 34, 84, 97, 112, 114, 111, 111, 116, 34, 125, 80, 75, 1, 2, 20, 3, 20, 0, 0, 0, 0, 0,
   0, 0, 33, 0, 0, 0, 0, 0, 0, 0, 0, 0, 0, 0, 0, 0, 9, 0, 0, 0, 0, 0, 0, 0, 0, 0, 16, 0, 237, 65,
   0, 0, 0, 0, 97, 49, 98, 50, 99, 51, 100, 52, 47, 80, 75, 1, 2, 20, 3, 20, 0, 0, 0, 0, 0, 0, 0,
   33, 0, 178, 63, 149, 240, 175, 0, 0, 0, 175, 0, 0, 0, 29, 0, 0, 0, 0, 0, 0, 0, 0, 0, 0, 0,
   128, 129, 39, 0, 0, 0, 97, 49, 98, 50, 99, 51, 100, 52, 47, 119, 97, 108, 108, 101, 116, 95,
   109, 97, 110, 105, 102, 101, 115, 116, 46, 106, 115, 111, 110, 80, 75, 5, 6, 0, 0, 0, 0, 2, 0,
   2, 0, 130, 0, 0, 0, 17, 1, 0, 0, 0, 0]

def sampleEntry (name : String) (mode : UInt32) (content : Bytes) : Entry where
  nameRaw := utf8 name
  name := name.toList
  isDir := name.toList.getLast? == some '/' || name.toList.getLast? == some '\\'
  size := .ofNat content.length
  compressedSize := .ofNat content.length
  unixMode := some mode
  enclosed := true
  content := content
  intact := true
  decoded cs hcs := by
    rw [utf8, decodeUtf8_encodeUtf8] at hcs
    exact Or.inl (Option.some.inj hcs)
  directory := by rw [Bool.or_eq_true, beq_iff_eq, beq_iff_eq]

def sampleEntries : List Entry :=
  [sampleEntry "a1b2c3d4/" 0o040755 [],
    sampleEntry "a1b2c3d4/wallet_manifest.json" 0o100600 sampleManifest]

def sampleZip : ZipReader := fun bytes =>
  if bytes = sampleArchive then some (sampleEntries.map some) else none

def sampleIdentity : String := "c7ec8dda3cf89dad8ea6c5886c6f854070ec2929c262285ce88f175494bc64a8"

/-- A storage directory with an empty staging directory. -/
def sampleStage : Tree :=
  (Tree.empty.put ["w"] (.dir (ownedAttr 0o700))).put ["w", ".vss-restore-0"]
    (.dir (ownedAttr 0o700))

theorem sampleStage_fresh : Fresh ["w", ".vss-restore-0"] sampleStage where
  dir := by decide
  empty q hbelow hproper := by
    have hbase : q ≠ ["w"] := by
      rintro rfl
      exact absurd hbelow (by decide)
    rw [sampleStage, Tree.put_node_of_ne _ _ hproper, Tree.put_node_of_ne _ _ hbase]
    rfl

theorem sample_admitted :
    archivePlan sampleContext sampleZip sampleArchive = .ok sampleIdentity := by
  decide +kernel

theorem admission_contains_sample :
    (extract sampleContext sampleZip sampleArchive ["w", ".vss-restore-0"] sampleStage []).1 =
      .ok () ∧
    Holds (extract sampleContext sampleZip sampleArchive ["w", ".vss-restore-0"]) sampleStage
      (fun _ t' => Confined sampleContext ["w", ".vss-restore-0"] sampleStage t') :=
  ⟨by decide +kernel, (admission_contains sample_admitted sampleStage_fresh).1.mono
    fun _ _ h => h.1⟩

end RgbLightningNode.Restore
