import RgbLightningNode.Provenance.Symbols
import RgbLightningNode.Text.Utf8

/-!
# The native adapter

The patch over the released sources is admitted by the files it names. They are read from its text
by an expression that takes no name with a space and none that is written in quotes.
-/

namespace RgbLightningNode.Provenance
open Text

/-! ### The text of a difference -/

/-- What every header starts with. -/
def diffGit : List Char := "diff --git ".toList

/-- A line behind a header: of a hunk, or of what is said about a file before its hunks. -/
structure DiffLine where
  text : List Char
  oneLine : '\n' ∉ text
  noHeader : ¬ diffGit <+: text

/-- A changed file, under its old and its new path. -/
structure Change where
  old : List UInt8
  new : List UInt8
  lines : List DiffLine

def byteChar (b : UInt8) : Char := Char.ofNat b.toNat

/-- A byte for which a path is written in quotes. -/
def isQuoted (b : UInt8) : Bool := b < 0x20 || b = 0x22 || b = 0x5C || 0x7F ≤ b

def octal (n : ℕ) : Char := Char.ofNat (48 + n)

def quoteByte (b : UInt8) : List Char :=
  if b = 0x07 then ['\\', 'a']
  else if b = 0x08 then ['\\', 'b']
  else if b = 0x09 then ['\\', 't']
  else if b = 0x0A then ['\\', 'n']
  else if b = 0x0B then ['\\', 'v']
  else if b = 0x0C then ['\\', 'f']
  else if b = 0x0D then ['\\', 'r']
  else if b = 0x22 ∨ b = 0x5C then ['\\', byteChar b]
  else if isQuoted b then
    ['\\', octal (b.toNat / 64), octal (b.toNat / 8 % 8), octal (b.toNat % 8)]
  else [byteChar b]

/-- A path behind the letter of its side. -/
def sidePath (side : Char) (path : List UInt8) : List Char :=
  if path.any isQuoted then '"' :: side :: '/' :: (path.flatMap quoteByte ++ ['"'])
  else side :: '/' :: path.map byteChar

def Change.header (change : Change) : List Char :=
  diffGit ++ (sidePath 'a' change.old ++ ' ' :: sidePath 'b' change.new)

def Change.text (change : Change) : List Char :=
  change.header ++ '\n' :: change.lines.flatMap fun line => line.text ++ ['\n']

/-- What `git diff --binary` prints. -/
def gitDiff (changes : List Change) : List Char := changes.flatMap Change.text

/-! ### The source -/

def releaseCommit : String := "ecc69f20308231400561f6f060fea88acfa40cc4"

def releaseLightningCommit : String := "79b9eb5166546c62692d3a672986f385c7fe047d"

def releaseCffiLockSha256 : String :=
  "5fcdc9ad9179d3230e48973cdfa514a863d13a837752027febf8ea04713bbeb5"

def release : List (String × String) := [
  ("rlnVersion", "0.17.0-beta.3"),
  ("ref", releaseCommit),
  ("commit", releaseCommit),
  ("lightningCommit", releaseLightningCommit),
  ("rustToolchain", "1.94.0"),
  ("cffiLockSha256", releaseCffiLockSha256)]

def allowedFiles : List String :=
  ["bindings/c-ffi/Cargo.lock", "bindings/c-ffi/Cargo.toml", "bindings/c-ffi/build.rs",
    "bindings/c-ffi/rln.h", "bindings/c-ffi/rln.hpp", "bindings/c-ffi/src/api.rs",
    "bindings/c-ffi/src/json_types.rs", "bindings/c-ffi/src/lib.rs", "bindings/c-ffi/src/utils.rs",
    "bindings/rgb_lightning_node.udl", "src/ldk.rs", "src/lib.rs", "src/rgb.rs",
    "src/vss_snapshot_policy.rs", "src/uniffi_api/types.rs", "src/ldk_chain_backend/block_sync.rs",
    "src/ldk_chain_backend/transaction_sync.rs", "src/main.rs", "src/mainnet_startup_tests.rs",
    "src/mainnet_tests.rs", "src/mainnet_vss_tests.rs", "src/node.rs", "src/routes.rs",
    "src/sdk/mod.rs", "src/test/auth_db_persistence.rs", "src/test_utils.rs",
    "src/uniffi_api/mod.rs", "src/uniffi_api/native_signer.rs", "src/uniffi_api/bip322.rs",
    "src/uniffi_api/vss_restore.rs", "src/signer/external.rs", "src/uniffi_api/tests.rs",
    "src/utils.rs"]

/-- A configuration with the patch that it names: its text and the hash of its file. -/
structure AdapterConfig where
  fields : List (String × String)
  patchSha256 : String
  patch : List Char
  patchDigest : String

/-- What ends a line for `^` and `$` under the flag `m`. -/
def isLineEnd (c : Char) : Bool :=
  c = '\n' || c = '\r' || c = Char.ofNat 0x2028 || c = Char.ofNat 0x2029

/-- A line that `diff --git a\/(\S+) b\/(\S+)` matches as a whole, with the two names. -/
def headerNames (line : List Char) : Option (List Char × List Char) :=
  (line.dropPrefix? (diffGit ++ ['a', '/'])).bind fun rest =>
    let a := rest.takeWhile fun c => !isSpace c
    ((rest.drop a.length).dropPrefix? [' ', 'b', '/']).bind fun b =>
      if a ≠ [] ∧ b ≠ [] ∧ b.all (fun c => !isSpace c) then some (a, b) else none

def matchAll (text : List Char) : List (List Char × List Char) :=
  (text.splitOnP isLineEnd).filterMap headerNames

def isAllowed (names : List Char × List Char) : Bool :=
  names.1 = names.2 && allowedFiles.any fun file => file.toList = names.1

def validateAdapter (config : AdapterConfig) : Except String Unit :=
  match release.find? fun entry => config.fields.lookup entry.1 ≠ some entry.2 with
  | some (key, _) => .error ("Native release identity mismatch: " ++ key)
  | none =>
    let changes := matchAll config.patch
    if changes.isEmpty || !changes.all isAllowed then
      .error "Native adapter changes files outside the approved release/import allowlist"
    else if config.patchDigest ≠ config.patchSha256 then .error "Native adapter checksum mismatch"
    else .ok ()

/-- A checkout: what the commands print about it, and the files changed against its revision. -/
structure Checkout where
  head : List Char
  untracked : List Char
  lightningHead : List Char
  lightningStatus : List Char
  changes : List Change
  lockDigest : String

/-- `apply` is the command that applies a patch. -/
def prepareSource (apply : Checkout → List Char → Except String Checkout) (root : Checkout)
    (config : AdapterConfig) (applyIfClean : Bool) : Except String Checkout :=
  match validateAdapter config with
  | .error e => .error e
  | .ok () =>
    if trim root.head ≠ releaseCommit.toList then .error "Unexpected RLN revision"
    else if trim root.untracked ≠ [] then .error "Untracked files in native source"
    else if trim root.lightningHead ≠ releaseLightningCommit.toList ∨
        trim root.lightningStatus ≠ [] then
      .error "Unexpected or modified rust-lightning submodule"
    else
      let diff := gitDiff root.changes
      let applied := if diff = [] ∧ applyIfClean then apply root config.patch
        else if diff ≠ config.patch then
          .error "Native source has changes beyond the exact approved adapter"
        else .ok root
      match applied with
      | .error e => .error e
      | .ok root =>
        if gitDiff root.changes ≠ config.patch then .error "Applied native adapter is not exact"
        else if root.lockDigest ≠ releaseCffiLockSha256 then .error "Unexpected C-FFI lock graph"
        else .ok root

def verifyPreparedSource (apply : Checkout → List Char → Except String Checkout) (root : Checkout)
    (config : AdapterConfig) : Except String Checkout :=
  prepareSource apply root config false

/-! ### Which headers are read -/

/-- A path that is written as it is and has no space. -/
def Readable (path : List UInt8) : Prop := path ≠ [] ∧ ∀ b ∈ path, isQuoted b = false ∧ b ≠ 0x20

def Change.Readable (change : Change) : Prop :=
  Provenance.Readable change.old ∧ Provenance.Readable change.new

/-- A path that the allowlist names. -/
def Listed (path : List UInt8) : Prop := ∃ file ∈ allowedFiles, path = encodeUtf8 file.toList

def Change.Listed (change : Change) : Prop :=
  Provenance.Listed change.old ∧ Provenance.Listed change.new

/-- The headers that are found inside of the lines of a change, behind a line end of another
kind. -/
def Change.embedded (change : Change) : List (List Char × List Char) :=
  change.lines.flatMap fun line => matchAll line.text

theorem byte_cases {p : UInt8 → Prop} (h : ∀ n < 256, p (.ofNat n)) (b : UInt8) : p b := by
  have hp := h b.toNat b.toNat_lt
  rwa [UInt8.ofNat_toNat] at hp

set_option maxRecDepth 1024 in
theorem quoteByte_lineEnd (b : UInt8) : ∀ c ∈ quoteByte b, isLineEnd c = false := by
  have hall : ∀ n < 256, (quoteByte (.ofNat n)).all (fun c => !isLineEnd c) = true := by
    decide
  have hb := byte_cases (p := fun b => (quoteByte b).all (fun c => !isLineEnd c) = true) hall b
  simpa using hb

set_option maxRecDepth 1024 in
theorem byteChar_unquoted {b : UInt8} (h : isQuoted b = false) :
    isLineEnd (byteChar b) = false ∧ (isSpace (byteChar b) = true ↔ b = 0x20) ∧
      (byteChar b = ' ' ↔ b = 0x20) := by
  have hall : ∀ n < 256, isQuoted (.ofNat n) = false → isLineEnd (byteChar (.ofNat n)) = false ∧
      (isSpace (byteChar (.ofNat n)) = true ↔ UInt8.ofNat n = 0x20) ∧
      (byteChar (.ofNat n) = ' ' ↔ UInt8.ofNat n = 0x20) := by decide
  exact byte_cases (p := fun b => isQuoted b = false → isLineEnd (byteChar b) = false ∧
    (isSpace (byteChar b) = true ↔ b = 0x20) ∧ (byteChar b = ' ' ↔ b = 0x20)) hall b h

theorem byteChar_inj {b b' : UInt8} (h : byteChar b = byteChar b') : b = b' := by
  have hback (b : UInt8) : (byteChar b).toNat = b.toNat :=
    toNat_ofNat (.inl (b.toNat_lt.trans (by decide)))
  have hnat := congrArg Char.toNat h
  rw [hback, hback] at hnat
  exact UInt8.toNat_inj.mp hnat

theorem unquoted_of_any {path : List UInt8} (h : path.any isQuoted = false) :
    ∀ b ∈ path, isQuoted b = false := by
  simpa using h

/-- A line of the text is matched apart from the others. -/
theorem matchAll_cons_line (line rest : List Char) :
    matchAll (line ++ '\n' :: rest) = matchAll line ++ matchAll rest := by
  rw [matchAll, List.splitOnP_append_cons line rest (by decide), List.filterMap_append]
  rfl

theorem matchAll_lines (lines : List DiffLine) (rest : List Char) :
    matchAll ((lines.flatMap fun line => line.text ++ ['\n']) ++ rest) =
      (lines.flatMap fun line => matchAll line.text) ++ matchAll rest := by
  induction lines with
  | nil => rfl
  | cons line lines ih =>
    rw [List.flatMap_cons, List.flatMap_cons, List.append_assoc, List.append_assoc,
      List.singleton_append, matchAll_cons_line, ih, List.append_assoc]

theorem sidePath_lineEnd {side : Char} (hside : isLineEnd side = false) (path : List UInt8) :
    ∀ c ∈ sidePath side path, isLineEnd c = false := by
  intro c hc
  unfold sidePath at hc
  split at hc
  · simp only [List.mem_cons, List.mem_append, List.mem_flatMap, List.not_mem_nil, or_false] at hc
    rcases hc with rfl | rfl | rfl | ⟨b, -, hc⟩ | rfl
    · decide
    · exact hside
    · decide
    · exact quoteByte_lineEnd b c hc
    · decide
  · next hquoted =>
    simp only [List.mem_cons, List.mem_map] at hc
    rcases hc with rfl | rfl | ⟨b, hb, rfl⟩
    · exact hside
    · decide
    · exact (byteChar_unquoted (unquoted_of_any (by simpa using hquoted) b hb)).1

theorem matchAll_header (change : Change) :
    matchAll change.header = (headerNames change.header).toList := by
  have hstart : ∀ c ∈ diffGit, isLineEnd c = false := by
    have hall : diffGit.all (fun c => !isLineEnd c) = true := by decide
    intro c hc
    simpa using List.all_eq_true.mp hall c hc
  have hclean : ∀ c ∈ change.header, isLineEnd c = false := by
    intro c hc
    rcases List.mem_append.mp hc with hc | hc
    · exact hstart c hc
    · rcases List.mem_append.mp hc with hc | hc
      · exact sidePath_lineEnd (by decide) _ c hc
      · rcases List.mem_cons.mp hc with rfl | hc
        · decide
        · exact sidePath_lineEnd (by decide) _ c hc
  rw [matchAll, List.splitOnP_eq_singleton hclean, List.filterMap_cons, List.filterMap_nil]
  cases headerNames change.header <;> rfl

theorem matchAll_gitDiff (changes : List Change) : matchAll (gitDiff changes) =
    changes.flatMap fun change => (headerNames change.header).toList ++ change.embedded := by
  induction changes with
  | nil => rfl
  | cons change changes ih =>
    have htext : gitDiff (change :: changes) = change.header ++ '\n' ::
        ((change.lines.flatMap fun line => line.text ++ ['\n']) ++ gitDiff changes) := by
      simp only [gitDiff, Change.text, List.flatMap_cons, List.append_assoc, List.cons_append]
    rw [htext, matchAll_cons_line, matchAll_lines, matchAll_header, ih, List.flatMap_cons,
      List.append_assoc]
    rfl

/-- One space only separates the names of a header that is read. -/
theorem headerNames_eq_some {line a b : List Char} (h : headerNames line = some (a, b)) :
    line = diffGit ++ ['a', '/'] ++ (a ++ ([' ', 'b', '/'] ++ b)) ∧ a ≠ [] ∧ b ≠ [] ∧
      (∀ c ∈ a, isSpace c = false) ∧ ∀ c ∈ b, isSpace c = false := by
  obtain ⟨rest, hrest, h⟩ := Option.bind_eq_some_iff.mp h
  obtain ⟨b', hb', h⟩ := Option.bind_eq_some_iff.mp h
  split_ifs at h with hnames
  cases h
  rw [dropPrefix_eq_some] at hrest hb'
  obtain ⟨behind, hbehind⟩ := List.takeWhile_prefix (p := fun c => !isSpace c) (l := rest)
  have hdrop := @List.drop_left _ (rest.takeWhile fun c => !isSpace c) behind
  rw [hbehind] at hdrop
  refine ⟨by rw [hrest, ← hb', hdrop, hbehind], hnames.1, hnames.2.1, fun c hc => ?_, ?_⟩
  · simpa using List.mem_takeWhile_imp hc
  · simpa using hnames.2.2

theorem sidePath_unquoted {side : Char} {path : List UInt8} (h : path.any isQuoted = false) :
    sidePath side path = side :: '/' :: path.map byteChar := by
  rw [sidePath, if_neg (by simp [h])]

theorem Readable.unquoted {path : List UInt8} (h : Readable path) : path.any isQuoted = false := by
  simpa using fun b hb => (h.2 b hb).1

theorem Readable.nonspace {path : List UInt8} (h : Readable path) :
    ∀ c ∈ path.map byteChar, isSpace c = false := by
  intro c hc
  obtain ⟨b, hb, rfl⟩ := List.mem_map.mp hc
  rw [Bool.eq_false_iff, ne_eq, (byteChar_unquoted (h.2 b hb).1).2.1]
  exact (h.2 b hb).2

/-- The names of a readable change are read from its header. -/
theorem headerNames_of_readable {change : Change} (h : change.Readable) :
    headerNames change.header = some (change.old.map byteChar, change.new.map byteChar) := by
  obtain ⟨hold, hnew⟩ := h
  have hheader : change.header = diffGit ++ ['a', '/'] ++
      (change.old.map byteChar ++ ([' ', 'b', '/'] ++ change.new.map byteChar)) := by
    rw [Change.header, sidePath_unquoted hold.unquoted, sidePath_unquoted hnew.unquoted]
    simp
  have hfront : ((change.old.map byteChar ++ ([' ', 'b', '/'] ++ change.new.map byteChar)).takeWhile
      fun c => !isSpace c) = change.old.map byteChar := by
    rw [List.takeWhile_append_of_pos fun c hc => by simp [hold.nonspace c hc]]
    have hspace : isSpace ' ' = true := by decide
    simp [hspace]
  rw [headerNames, dropPrefix_eq_some.mpr hheader, Option.bind_some]
  simp only [hfront, List.drop_left]
  rw [dropPrefix_eq_some.mpr rfl, Option.bind_some, if_pos]
  have hclean : (change.new.map byteChar).all (fun c => !isSpace c) = true :=
    List.all_eq_true.mpr fun c hc => by simp [hnew.nonspace c hc]
  exact ⟨by simpa using hold.1, by simpa using hnew.1, hclean⟩

/-- Only the headers of readable changes are read. -/
theorem readable_of_headerNames {change : Change} {names : List Char × List Char}
    (h : headerNames change.header = some names) : change.Readable := by
  obtain ⟨hline, ha, hb, hspace, hspace'⟩ := headerNames_eq_some h
  have hrest : sidePath 'a' change.old ++ ' ' :: sidePath 'b' change.new =
      'a' :: '/' :: (names.1 ++ ' ' :: 'b' :: '/' :: names.2) := by
    rw [Change.header, List.append_assoc] at hline
    exact List.append_cancel_left hline
  have hold : change.old.any isQuoted = false := by
    by_contra hquoted
    rw [Bool.not_eq_false] at hquoted
    rw [sidePath, if_pos hquoted] at hrest
    have hhead := congrArg List.head? hrest
    simp at hhead
  rw [sidePath_unquoted hold] at hrest
  have hsplit := (List.cons.inj (List.cons.inj hrest).2).2
  have hblank : isSpace ' ' = true := by decide
  have hone : ' ' ∉ names.1 := fun hmem => by simp [hspace _ hmem] at hblank
  have htwo : ' ' ∉ 'b' :: '/' :: names.2 := by
    simp only [List.mem_cons, not_or]
    exact ⟨by decide, by decide, fun hmem => by simp [hspace' _ hmem] at hblank⟩
  obtain ⟨hleft, -, hright⟩ := (List.append_cons_inj_of_notMem hone htwo).mp hsplit.symm
  have hnew : change.new.any isQuoted = false := by
    by_contra hquoted
    rw [Bool.not_eq_false] at hquoted
    rw [sidePath, if_pos hquoted] at hright
    have hhead := congrArg List.head? hright
    simp at hhead
  rw [sidePath_unquoted hnew] at hright
  have hnames := (List.cons.inj (List.cons.inj hright).2).2
  have hclean {path : List UInt8} (hpath : path.any isQuoted = false)
      (hchars : ∀ c ∈ path.map byteChar, isSpace c = false) :
      ∀ b ∈ path, isQuoted b = false ∧ b ≠ 0x20 := by
    intro b hmem
    have hunquoted := unquoted_of_any hpath b hmem
    refine ⟨hunquoted, fun heq => ?_⟩
    have htrue := (byteChar_unquoted hunquoted).2.1.mpr heq
    rw [hchars _ (List.mem_map_of_mem hmem)] at htrue
    cases htrue
  refine ⟨⟨?_, hclean hold (hleft ▸ hspace)⟩, ?_, hclean hnew (hnames ▸ hspace')⟩
  · rintro hempty
    rw [hempty] at hleft
    exact ha hleft
  · rintro hempty
    rw [hempty] at hnames
    exact hb hnames

/-! ### What is admitted -/

/-- A change to an unlisted path whose header is not read, among headers that pass. -/
def Escapes (changes : List Change) : Prop :=
  (∃ change ∈ changes, ¬ change.Listed) ∧
    (∀ change ∈ changes, change.Readable → change.old = change.new ∧ Listed change.old) ∧
    (∀ names ∈ changes.flatMap Change.embedded, isAllowed names = true) ∧
    ((∃ change ∈ changes, change.Readable) ∨ changes.flatMap Change.embedded ≠ [])

theorem map_byteChar_eq {path : List UInt8} {file : String} (hfile : file ∈ allowedFiles) :
    file.toList = path.map byteChar ↔ path = encodeUtf8 file.toList := by
  have hall : ∀ file ∈ allowedFiles, (encodeUtf8 file.toList).map byteChar = file.toList := by
    decide
  constructor
  · intro h
    rw [← hall file hfile] at h
    exact (List.map_injective_iff.mpr (fun _ _ => byteChar_inj) h).symm
  · rintro rfl
    exact (hall file hfile).symm

theorem isAllowed_iff (change : Change) :
    isAllowed (change.old.map byteChar, change.new.map byteChar) = true ↔
      change.old = change.new ∧ Listed change.old := by
  rw [isAllowed, Bool.and_eq_true, decide_eq_true_eq, List.any_eq_true,
    (List.map_injective_iff.mpr fun _ _ => byteChar_inj).eq_iff]
  refine and_congr_right fun _ => exists_congr fun file => and_congr_right fun hfile => ?_
  rw [decide_eq_true_eq, map_byteChar_eq hfile]

theorem headerNames_header_iff (change : Change) {names : List Char × List Char} :
    headerNames change.header = some names ↔
      change.Readable ∧ names = (change.old.map byteChar, change.new.map byteChar) := by
  constructor
  · intro h
    have hreadable := readable_of_headerNames h
    rw [headerNames_of_readable hreadable, Option.some.injEq] at h
    exact ⟨hreadable, h.symm⟩
  · rintro ⟨hreadable, rfl⟩
    exact headerNames_of_readable hreadable

theorem mem_matchAll {changes : List Change} {names : List Char × List Char} :
    names ∈ matchAll (gitDiff changes) ↔ (∃ change ∈ changes, change.Readable ∧
      names = (change.old.map byteChar, change.new.map byteChar)) ∨
        names ∈ changes.flatMap Change.embedded := by
  simp only [matchAll_gitDiff, List.mem_flatMap, List.mem_append, Option.mem_toList,
    headerNames_header_iff, and_or_left, exists_or]

/-- What the patch of the changes is asked for. -/
theorem matches_allowed_iff (changes : List Change) :
    ((matchAll (gitDiff changes)).isEmpty || !(matchAll (gitDiff changes)).all isAllowed) = false ↔
      (∀ change ∈ changes, change.Readable → change.old = change.new ∧ Listed change.old) ∧
        (∀ names ∈ changes.flatMap Change.embedded, isAllowed names = true) ∧
        ((∃ change ∈ changes, change.Readable) ∨ changes.flatMap Change.embedded ≠ []) := by
  have hexists (l : List (List Char × List Char)) : l ≠ [] ↔ ∃ names, names ∈ l :=
    ⟨List.exists_mem_of_ne_nil l, fun ⟨_, hnames⟩ => List.ne_nil_of_mem hnames⟩
  have hnonempty : (matchAll (gitDiff changes)).isEmpty = false ↔
      (∃ change ∈ changes, change.Readable) ∨ changes.flatMap Change.embedded ≠ [] := by
    rw [← Bool.not_eq_true, List.isEmpty_iff, ← ne_eq, hexists, hexists]
    simp only [mem_matchAll, exists_or]
    refine or_congr_left ?_
    constructor
    · rintro ⟨_, change, hchange, hreadable, -⟩
      exact ⟨change, hchange, hreadable⟩
    · rintro ⟨change, hchange, hreadable⟩
      exact ⟨_, change, hchange, hreadable, rfl⟩
  have hall : (matchAll (gitDiff changes)).all isAllowed = true ↔
      (∀ change ∈ changes, change.Readable → change.old = change.new ∧ Listed change.old) ∧
        ∀ names ∈ changes.flatMap Change.embedded, isAllowed names = true := by
    rw [List.all_eq_true]
    constructor
    · intro h
      refine ⟨fun change hchange hreadable => ?_, fun names hnames =>
        h names (mem_matchAll.mpr (.inr hnames))⟩
      rw [← isAllowed_iff]
      exact h _ (mem_matchAll.mpr (.inl ⟨change, hchange, hreadable, rfl⟩))
    · rintro ⟨hread, hembedded⟩ names hnames
      rcases mem_matchAll.mp hnames with ⟨change, hchange, hreadable, rfl⟩ | hnames
      · exact (isAllowed_iff change).mpr (hread change hchange hreadable)
      · exact hembedded names hnames
  rw [Bool.or_eq_false_iff, Bool.not_eq_false', hnonempty, hall]
  exact ⟨fun ⟨hsome, hread, hembedded⟩ => ⟨hread, hembedded, hsome⟩,
    fun ⟨hread, hembedded, hsome⟩ => ⟨hsome, hread, hembedded⟩⟩

theorem validateAdapter_ok_iff {config : AdapterConfig} {changes : List Change}
    (hpatch : config.patch = gitDiff changes) : validateAdapter config = .ok () ↔
      (∀ entry ∈ release, config.fields.lookup entry.1 = some entry.2) ∧
        ((matchAll (gitDiff changes)).isEmpty || !(matchAll (gitDiff changes)).all isAllowed) =
          false ∧
        config.patchDigest = config.patchSha256 := by
  unfold validateAdapter
  rw [hpatch]
  split
  · next key value hfound =>
    have hmem := List.mem_of_find?_eq_some hfound
    have hdiffers := List.find?_some hfound
    simp only [reduceCtorEq, false_iff, not_and]
    intro hall
    simp [hall _ hmem] at hdiffers
  · next hnone =>
    have hall : ∀ entry ∈ release, config.fields.lookup entry.1 = some entry.2 := by
      simpa using hnone
    dsimp only
    split
    · next hbad => simp [hbad]
    · next hgood =>
      rw [Bool.not_eq_true] at hgood
      split
      · next hdigest => simp [hdigest]
      · next hdigest =>
        simp only [true_iff]
        exact ⟨hall, hgood, not_not.mp hdigest⟩

theorem prepareSource_ok {apply : Checkout → List Char → Except String Checkout}
    {root root' : Checkout} {config : AdapterConfig} {applyIfClean : Bool}
    (h : prepareSource apply root config applyIfClean = .ok root') :
    validateAdapter config = .ok () ∧ gitDiff root'.changes = config.patch := by
  unfold prepareSource at h
  split at h
  · cases h
  · next hvalid =>
    refine ⟨hvalid, ?_⟩
    split at h
    · cases h
    split at h
    · cases h
    split at h
    · cases h
    dsimp only at h
    split at h
    · cases h
    · split at h
      · cases h
      · next hexact =>
        split at h
        · cases h
        · cases h
          exact not_not.mp hexact

/-- The checkout and the configuration pass every other check, and the patch is what is applied. -/
structure Matching (root : Checkout) (config : AdapterConfig) : Prop where
  identity : ∀ entry ∈ release, config.fields.lookup entry.1 = some entry.2
  checksum : config.patchDigest = config.patchSha256
  revision : trim root.head = releaseCommit.toList
  untracked : trim root.untracked = []
  lightning : trim root.lightningHead = releaseLightningCommit.toList ∧
    trim root.lightningStatus = []
  applied : gitDiff root.changes = config.patch
  lock : root.lockDigest = releaseCffiLockSha256

theorem verifyPreparedSource_ok_iff (apply : Checkout → List Char → Except String Checkout)
    {root : Checkout} {config : AdapterConfig} (h : Matching root config) :
    verifyPreparedSource apply root config = .ok root ↔ validateAdapter config = .ok () := by
  constructor
  · exact fun hok => (prepareSource_ok hok).1
  · intro hvalid
    unfold verifyPreparedSource prepareSource
    simp [hvalid, h.revision, h.untracked, h.lightning, h.applied, h.lock]

theorem adapter_covers (apply : Checkout → List Char → Except String Checkout) :
    (∀ root config applyIfClean root', prepareSource apply root config applyIfClean = .ok root' →
      ¬ Escapes root'.changes → ∀ change ∈ root'.changes, change.Listed) ∧
      ∀ root config, Matching root config →
        ((verifyPreparedSource apply root config = .ok root →
          ∀ change ∈ root.changes, change.Listed) ↔ ¬ Escapes root.changes) := by
  constructor
  · intro root config applyIfClean root' hok hcaught
    obtain ⟨hvalid, hexact⟩ := prepareSource_ok hok
    have hmatches := ((validateAdapter_ok_iff hexact.symm).mp hvalid).2.1
    by_contra hunlisted
    push Not at hunlisted
    exact hcaught ⟨hunlisted, (matches_allowed_iff _).mp hmatches⟩
  · intro root config h
    rw [verifyPreparedSource_ok_iff apply h, validateAdapter_ok_iff h.applied.symm,
      matches_allowed_iff]
    constructor
    · rintro hlisted ⟨⟨change, hchange, hunlisted⟩, hread⟩
      exact hunlisted (hlisted ⟨h.identity, hread, h.checksum⟩ change hchange)
    · rintro hcaught ⟨-, hread, -⟩
      by_contra hunlisted
      push Not at hunlisted
      exact hcaught ⟨hunlisted, hread⟩

/-- A line taken out and another one put in its place. -/
def sampleChange (path : String) : Change where
  old := encodeUtf8 path.toList
  new := encodeUtf8 path.toList
  lines := [⟨"@@ -1 +1 @@".toList, by decide, by decide⟩, ⟨"-x".toList, by decide, by decide⟩,
    ⟨"+y".toList, by decide, by decide⟩]

def sampleCheckout (changes : List Change) : Checkout where
  head := releaseCommit.toList ++ ['\n']
  untracked := []
  lightningHead := releaseLightningCommit.toList ++ ['\n']
  lightningStatus := []
  changes := changes
  lockDigest := releaseCffiLockSha256

def sampleAdapter (changes : List Change) : AdapterConfig where
  fields := release
  patchSha256 := "7f83b165"
  patch := gitDiff changes
  patchDigest := "7f83b165"

theorem sample_matching (changes : List Change) :
    Matching (sampleCheckout changes) (sampleAdapter changes) where
  identity := (by decide : ∀ entry ∈ release, release.lookup entry.1 = some entry.2)
  checksum := rfl
  revision := (by decide : trim (releaseCommit.toList ++ ['\n']) = releaseCommit.toList)
  untracked := rfl
  lightning := ⟨(by decide :
    trim (releaseLightningCommit.toList ++ ['\n']) = releaseLightningCommit.toList), rfl⟩
  applied := rfl
  lock := rfl

theorem sample_listed {file : String} (hfile : file ∈ allowedFiles) : (sampleChange file).Listed :=
  ⟨⟨file, hfile, rfl⟩, ⟨file, hfile, rfl⟩⟩

/-- An adapter that changes every file of the allowlist is accepted, and no file but these. -/
theorem adapter_covers_sample :
    verifyPreparedSource (fun root _ => .ok root) (sampleCheckout (allowedFiles.map sampleChange))
        (sampleAdapter (allowedFiles.map sampleChange)) =
      .ok (sampleCheckout (allowedFiles.map sampleChange)) ∧
      ∀ change ∈ allowedFiles.map sampleChange, change.Listed := by
  have hmatching := sample_matching (allowedFiles.map sampleChange)
  have hlisted : ∀ change ∈ allowedFiles.map sampleChange,
      change.old = change.new ∧ change.Listed := by
    intro change hchange
    obtain ⟨file, hfile, rfl⟩ := List.mem_map.mp hchange
    exact ⟨rfl, sample_listed hfile⟩
  have hembedded : (allowedFiles.map sampleChange).flatMap Change.embedded = [] := by
    have hlines : ∀ file, (sampleChange file).embedded = [] := fun _ => rfl
    simp [List.flatMap_eq_nil_iff, hlines]
  have hreadable : (sampleChange "src/lib.rs").Readable := by
    have hall : (encodeUtf8 "src/lib.rs".toList).all (fun b => !isQuoted b && b ≠ 0x20) = true := by
      decide
    have hpath : Provenance.Readable (encodeUtf8 "src/lib.rs".toList) :=
      ⟨by decide, fun b hb => by simpa using List.all_eq_true.mp hall b hb⟩
    exact ⟨hpath, hpath⟩
  have hmatches := (matches_allowed_iff (allowedFiles.map sampleChange)).mpr
    ⟨fun change hchange _ => ⟨(hlisted change hchange).1, (hlisted change hchange).2.1⟩,
      by simp [hembedded], Or.inl ⟨_, List.mem_map_of_mem (by decide), hreadable⟩⟩
  have hok := (verifyPreparedSource_ok_iff (fun root _ => .ok root) hmatching).mpr
    ((validateAdapter_ok_iff hmatching.applied.symm).mpr
      ⟨hmatching.identity, hmatches, hmatching.checksum⟩)
  refine ⟨hok, ((adapter_covers fun root _ => .ok root).2 _ _ hmatching).mpr ?_ hok⟩
  rintro ⟨⟨change, hchange, hunlisted⟩, -⟩
  exact hunlisted (hlisted change hchange).2

/-- The header of a path with a space is not read, and the file is not asked for. -/
theorem adapter_escapes :
    verifyPreparedSource (fun root _ => .ok root)
        (sampleCheckout [sampleChange "src/lib.rs", sampleChange "src/new file.rs"])
        (sampleAdapter [sampleChange "src/lib.rs", sampleChange "src/new file.rs"]) =
      .ok (sampleCheckout [sampleChange "src/lib.rs", sampleChange "src/new file.rs"]) ∧
      ¬ (sampleChange "src/new file.rs").Listed := by
  refine ⟨(verifyPreparedSource_ok_iff _ (sample_matching _)).mpr (by decide), ?_⟩
  have hunlisted : ∀ file ∈ allowedFiles, encodeUtf8 "src/new file.rs".toList ≠
      encodeUtf8 file.toList := by decide
  rintro ⟨⟨file, hfile, heq⟩, -⟩
  exact hunlisted file hfile heq

end RgbLightningNode.Provenance
