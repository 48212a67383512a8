import RgbLightningNode.Android.Layout
import RgbLightningNode.Json.Objects
import RgbLightningNode.Restore.Preparation

/-!
# Staging the Android addons

What is copied where, which output directory may be replaced, and the replacement itself. Looking at
the inputs changes nothing, so the plan and the check of the old output are functions of the tree;
the replacement is a process whose every step may fail or be the last one executed.
-/

namespace RgbLightningNode.Android
open Faulty FileSystem Json Number
open Restore (children freeName mem_children pathText removeDirAll taken)

/-- `NAME` -/
def addonName : String := "utexo__rgb-lightning-node-bare"

/-- `PACKAGE` -/
def packageName : String := "@utexo/rgb-lightning-node-bare"

/-- `REPORT` -/
def reportName : Name := "utexo-android-staging.json"

def fileText (p : Path) : String := String.ofList (pathText p)

def text (s : String) : Units := encodeUtf16 s.toList

/-- The names in a directory, each of them once. -/
def readdirSync (t : Tree) (p : Path) : List Name := (children t p).dedup

theorem mem_readdirSync {t : Tree} {p : Path} {name : Name} :
    name ∈ readdirSync t p ↔ t.node (p ++ [name]) ≠ none := by
  rw [readdirSync, List.mem_dedup, mem_children]

/-- Whatever is in a tree is in a directory of it. -/
def Rooted (t : Tree) : Prop := ∀ q, t.node q ≠ none → t.hasParent q = true

theorem Rooted.above {t : Tree} (h : Rooted t) {p rest : Path} (hp : p ≠ []) (hrest : rest ≠ [])
    (hnode : t.node (p ++ rest) ≠ none) : ∃ attr, t.node p = some (.dir attr) := by
  induction rest using List.reverseRecOn with
  | nil => exact absurd rfl hrest
  | append_singleton rest name ih =>
    have hparent := h _ hnode
    rw [Tree.hasParent_eq, ← List.append_assoc, List.dropLast_concat,
      Tree.isDirectory_iff (by simp [hp])] at hparent
    by_cases hempty : rest = []
    · rwa [hempty, List.append_nil] at hparent
    · obtain ⟨attr, hdir⟩ := hparent
      exact ih hempty (by rw [hdir]; simp)

/-- How strings become the bytes of a file. What `JSON.stringify` returns is well formed, so it is
read back as it was written. -/
structure Utf8 where
  encode : Units → Bytes
  decode : Bytes → Units
  decode_encode : ∀ v : Value Double,
    decode (encode (jsonLines v ++ [0x0A])) = jsonLines v ++ [0x0A]

/-! ### Looks at a path -/

section Looks

variable (t : Tree)

/-- What the system call raises on a path where nothing is, with the names on the way in reverse. A
file on the way is no directory; that a link is one cannot be ruled out. -/
def absence : List Name → String
  | [] => "ENOENT"
  | name :: above =>
    match t.node (name :: above).reverse with
    | some (.file _ _) | some .special => "ENOTDIR"
    | some _ => "ENOENT"
    | none => absence above

def lstatSync (p : Path) : Except String Unit :=
  if p = [] ∨ t.node p ≠ none then .ok () else .error (absence t p.reverse)

def directory (dir : Path) : Except String Unit := do
  lstatSync t dir
  ensure (t.isDirectory dir) ("expected non-symlink directory: " ++ fileText dir)

variable {t}

@[simp] theorem lstatSync_eq_ok {p : Path} {u : Unit} :
    lstatSync t p = .ok u ↔ p = [] ∨ t.node p ≠ none := by
  unfold lstatSync
  by_cases h : p = [] ∨ t.node p ≠ none
  · rw [if_pos h]
    exact iff_of_true rfl h
  · rw [if_neg h]
    exact iff_of_false (fun heq => by cases heq) h

@[simp] theorem directory_eq_ok {dir : Path} {u : Unit} :
    directory t dir = .ok u ↔ t.isDirectory dir = true := by
  refine bind_eq_ok.trans ?_
  simp only [lstatSync_eq_ok, ensure_eq_ok, exists_const, and_iff_right_iff_imp,
    or_iff_not_imp_left]
  intro hdir hroot
  obtain ⟨attr, hnode⟩ := (Tree.isDirectory_iff hroot).mp hdir
  rw [hnode]
  simp

end Looks

/-! ### The plan -/

structure Original where
  abi : Abi
  source : Path
  sha256 : String
  runtimeSha256 : String

structure Verified where
  originals : List Original
  filename : Name
  version : String
  commit : String
  patchSha256 : String
  wrapperSha256 : String

structure Copy where
  source : Path
  relative : Path
  sha256 : String

/-- What is read of a linked library. Without a list of needed libraries nothing can be looked
up. -/
structure Inspected where
  elf : Elf
  loadName : Option String
  neededLibraries : Option (List String)

/-- `(?:\.\d+)*` -/
def isVersion (cs : List Char) : Bool :=
  match cs.splitOn '.' with
  | [] :: parts => parts.all fun part => !part.isEmpty && part.all Char.isDigit
  | _ => false

/-- `^lib[^/\\]+\.so(?:\.\d+)*$` -/
def isLibraryName (name : Name) : Bool :=
  match name.toList with
  | 'l' :: 'i' :: 'b' :: rest => (List.range rest.length).any fun i =>
      0 < i && (rest.take i).all (fun c => c != '/' && c != '\\') &&
        match (rest.drop i).dropPrefix? ".so".toList with
        | some version => isVersion version
        | none => false
  | _ => false

def isAddon (name : Name) : Bool := ("lib" ++ addonName).toList.isPrefixOf name.toList

def includesAddon (s : String) : Bool := decide (addonName.toList <:+: s.toList)

section Plan

variable (sha256 : Bytes → String) (inspect : Bytes → Except String Inspected) (t : Tree)

/-- The checks of a linked library other than the addon. -/
def checkOther (abi : Abi) (name : Name) (bytes : Bytes) : Except String Unit := do
  let found ← inspect bytes
  validateIdentity found.elf abi
  ensure (!found.loadName.any includesAddon) ("duplicate RLN SONAME: " ++ name)
  match found.neededLibraries with
  | none => .error "TypeError"
  | some needed => ensure (!needed.any includesAddon) ("incoming native RLN dependency: " ++ name)

/-- The loop over the entries of one directory. -/
def planEntries (filename : Name) (original : Original) (dir : Path) :
    Bool → List Name → Except String (List Copy)
  | found, [] => do
    ensure found ("bare-link did not produce " ++ filename ++ " for " ++ original.abi.name)
    return []
  | found, name :: names =>
    match t.node (dir ++ [name]), isLibraryName name with
    | some (.file bytes _), true =>
      if isAddon name then do
        ensure (!found && name = filename) ("stale/duplicate RLN addon: " ++ name)
        let copies ← planEntries filename original dir true names
        return ⟨original.source, [original.abi.name, name], original.sha256⟩ :: copies
      else do
        checkOther inspect original.abi name bytes
        let copies ← planEntries filename original dir found names
        return ⟨dir ++ [name], [original.abi.name, name], sha256 bytes⟩ :: copies
    | _, _ => .error ("Android staging: unexpected linked artifact: " ++ name)

def planOriginals (filename : Name) (linked : Path) : List Original → Except String (List Copy)
  | [] => .ok []
  | original :: originals => do
    let dir := linked ++ [original.abi.name]
    directory t dir
    let copies ← planEntries sha256 inspect t filename original dir false (readdirSync t dir)
    let rest ← planOriginals filename linked originals
    return copies ++ rest

def planCopies (verified : Verified) (linked : Path) : Except String (List Copy) :=
  planOriginals sha256 inspect t verified.filename linked verified.originals

/-- The copy that is planned for an entry of the linked directory `dir`. -/
structure Planned (filename : Name) (original : Original) (dir : Path) (name : Name)
    (copy : Copy) : Prop where
  library : isLibraryName name = true
  relative : copy.relative = [original.abi.name, name]
  addon : isAddon name = true →
    name = filename ∧ copy.source = original.source ∧ copy.sha256 = original.sha256
  other : isAddon name = false → copy.source = dir ++ [name]
  entry : ∃ bytes, t.look (dir ++ [name]) = .file bytes ∧
    (isAddon name = false → copy.sha256 = sha256 bytes)

variable {sha256 inspect t} {filename : Name} {original : Original} {linked : Path}

theorem planEntries_ok {dir : Path} {names : List Name} {found : Bool} {copies : List Copy}
    (h : planEntries sha256 inspect t filename original dir found names = .ok copies) :
    (∀ name ∈ names, ∃ copy ∈ copies, Planned sha256 t filename original dir name copy) ∧
      ∀ copy ∈ copies, ∃ name ∈ names, Planned sha256 t filename original dir name copy := by
  induction names generalizing found copies with
  | nil =>
    rw [planEntries] at h
    cases found with
    | false => cases h
    | true =>
      cases h
      exact ⟨by simp, by simp⟩
  | cons name names ih =>
    -- one more entry, with its copy in front of the others
    have hcons {copy : Copy} {copies : List Copy}
        (hcopy : Planned sha256 t filename original dir name copy)
        (hrest :
          (∀ name ∈ names, ∃ copy ∈ copies, Planned sha256 t filename original dir name copy) ∧
          ∀ copy ∈ copies, ∃ name ∈ names, Planned sha256 t filename original dir name copy) :
        (∀ n ∈ name :: names, ∃ c ∈ copy :: copies, Planned sha256 t filename original dir n c) ∧
          ∀ c ∈ copy :: copies, ∃ n ∈ name :: names,
            Planned sha256 t filename original dir n c := by
      simp only [List.exists_mem_cons_iff, List.forall_mem_cons]
      exact ⟨⟨.inl hcopy, fun n hn => .inr (hrest.1 n hn)⟩, .inl hcopy,
        fun c hc => .inr (hrest.2 c hc)⟩
    rw [planEntries] at h
    split at h
    · next bytes attr hnode hlibrary =>
      have hlook := Tree.look_eq_file.mpr ⟨attr, hnode⟩
      split at h
      · next haddon =>
        obtain ⟨_, hensure, h⟩ := bind_eq_ok.mp h
        obtain ⟨rest, hrest, h⟩ := bind_eq_ok.mp h
        cases h
        rw [ensure_eq_ok, Bool.and_eq_true, decide_eq_true_eq] at hensure
        refine hcons ⟨hlibrary, rfl, fun _ => ⟨hensure.2, rfl, rfl⟩, fun hother => ?_, bytes, hlook,
          fun hother => ?_⟩ (ih hrest)
        · rw [haddon] at hother
          cases hother
        · rw [haddon] at hother
          cases hother
      · next haddon =>
        obtain ⟨_, hcheck, h⟩ := bind_eq_ok.mp h
        obtain ⟨rest, hrest, h⟩ := bind_eq_ok.mp h
        cases h
        exact hcons ⟨hlibrary, rfl, fun ha => absurd ha haddon, fun _ => rfl, bytes, hlook,
          fun _ => rfl⟩ (ih hrest)
    · cases h

theorem planOriginals_ok {originals : List Original} {copies : List Copy}
    (h : planOriginals sha256 inspect t filename linked originals = .ok copies) :
    (∀ original ∈ originals, t.isDirectory (linked ++ [original.abi.name]) = true ∧
      ∀ name ∈ readdirSync t (linked ++ [original.abi.name]), ∃ copy ∈ copies,
        Planned sha256 t filename original (linked ++ [original.abi.name]) name copy) ∧
    ∀ copy ∈ copies, ∃ original ∈ originals,
      ∃ name ∈ readdirSync t (linked ++ [original.abi.name]),
        Planned sha256 t filename original (linked ++ [original.abi.name]) name copy := by
  induction originals generalizing copies with
  | nil =>
    cases h
    exact ⟨by simp, by simp⟩
  | cons original originals ih =>
    rw [planOriginals] at h
    obtain ⟨_, hdir, h⟩ := bind_eq_ok.mp h
    obtain ⟨first, hfirst, h⟩ := bind_eq_ok.mp h
    obtain ⟨rest, hrest, h⟩ := bind_eq_ok.mp h
    cases h
    rw [directory_eq_ok] at hdir
    have hentries := planEntries_ok hfirst
    obtain ⟨hall, hback⟩ := ih hrest
    constructor
    · intro o ho
      rcases List.mem_cons.mp ho with rfl | ho
      · refine ⟨hdir, fun name hname => ?_⟩
        obtain ⟨copy, hcopy, hplanned⟩ := hentries.1 name hname
        exact ⟨copy, List.mem_append_left _ hcopy, hplanned⟩
      · refine ⟨(hall o ho).1, fun name hname => ?_⟩
        obtain ⟨copy, hcopy, hplanned⟩ := (hall o ho).2 name hname
        exact ⟨copy, List.mem_append_right _ hcopy, hplanned⟩
    · intro copy hcopy
      rcases List.mem_append.mp hcopy with hcopy | hcopy
      · obtain ⟨name, hname, hplanned⟩ := hentries.2 copy hcopy
        exact ⟨original, List.mem_cons_self, name, hname, hplanned⟩
      · obtain ⟨o, ho, hplanned⟩ := hback copy hcopy
        exact ⟨o, List.mem_cons_of_mem _ ho, hplanned⟩

end Plan

/-! ### The old output -/

/-- `path.dirname`, of a path with `/` -/
def dirname : Units → Units
  | [] => text "."
  | first :: rest =>
    match (rest.reverse.dropWhile (· == 0x2F)).dropWhile (· != 0x2F) with
    | [] => if first = 0x2F then [0x2F] else text "."
    | _ :: before => if first = 0x2F ∧ before = [] then [0x2F, 0x2F] else first :: before.reverse

/-- `path.relative`, of a path below the output -/
def relativeText (rest : Path) : Units := text ("/".intercalate rest)

/-- A field of a parsed object. The last of the members with one key is the one that counts. -/
def lastField (v : Value Double) (key : String) : Option (Value Double) :=
  match v with
  | .object members => getMember members.reverse (text key)
  | _ => none

/-- `item.path`, which is to be a string -/
def itemPath (item : Value Double) : Except String Units :=
  match lastField item "path" with
  | some (.string path) => .ok path
  | _ => .error "TypeError"

/-- The paths that a report lists, if it is one of this package. -/
def listedPaths (report : Value Double) : Except String (List Units) :=
  match report, lastField report "schemaVersion", lastField report "package",
    lastField report "files" with
  | .null, _, _, _ => .error "TypeError"
  | _, some (.number version), some (.string package), some (.array files) => do
    ensure (version = .natural 1 && package = text packageName)
      "refusing to replace an unowned output directory"
    files.mapM itemPath
  | _, _, _, _ => .error "Android staging: refusing to replace an unowned output directory"

def expectedTexts (paths : List Units) : List Units :=
  text reportName :: (paths ++ paths.map dirname)

section Walk

variable (t : Tree) (output : Path) (expected : List Units)

/-- The walk of the output, no deeper than `fuel` directories. -/
def walk : ℕ → Path → Except String Unit
  | 0, _ => .ok ()
  | fuel + 1, below => (readdirSync t (output ++ below)).forM fun name =>
    let rest := below ++ [name]
    do
      ensure (expected.contains (relativeText rest) && t.node (output ++ rest) != some .symlink)
        "unowned file in staging output"
      match t.node (output ++ rest) with
      | some (.dir _) => walk fuel rest
      | some (.file _ _) => .ok ()
      | _ => ensure false ("expected regular non-symlink file: " ++ fileText (output ++ rest))

/-- A directory or a regular file. -/
def IsPlain : Option Node → Prop
  | some (.dir _) | some (.file _ _) => True
  | _ => False

/-- Everything below the output is expected there, and is a directory or a regular file. -/
def Owned : Prop :=
  ∀ rest, rest ≠ [] → t.node (output ++ rest) ≠ none →
    relativeText rest ∈ expected ∧ IsPlain (t.node (output ++ rest))

variable {t output expected}

theorem walk_ok_iff {fuel : ℕ} {below : Path} : walk t output expected (fuel + 1) below = .ok () ↔
    ∀ name, t.node (output ++ (below ++ [name])) ≠ none →
      relativeText (below ++ [name]) ∈ expected ∧ IsPlain (t.node (output ++ (below ++ [name]))) ∧
      ((∃ attr, t.node (output ++ (below ++ [name])) = some (.dir attr)) →
        walk t output expected fuel (below ++ [name]) = .ok ()) := by
  rw [walk, forM_eq_ok]
  simp only [mem_readdirSync, List.append_assoc]
  refine forall_congr' fun name => imp_congr_right fun hnode => ?_
  rw [bind_eq_ok]
  simp only [ensure_eq_ok, exists_const]
  cases hn : t.node (output ++ (below ++ [name])) with
  | none => exact absurd hn hnode
  | some n => cases n <;> simp [IsPlain]

theorem Owned.walk (h : Owned t output expected) (fuel : ℕ) (below : Path) :
    walk t output expected fuel below = .ok () := by
  induction fuel generalizing below with
  | zero => rfl
  | succ fuel ih =>
    rw [walk_ok_iff]
    intro name hnode
    obtain ⟨hmem, hplain⟩ := h (below ++ [name]) (by simp) hnode
    exact ⟨hmem, hplain, fun _ => ih _⟩

/-- As deep as the walk goes, it has seen everything. -/
theorem walk_sound (hrooted : Rooted t) {fuel : ℕ} {below rest : Path}
    (h : Android.walk t output expected fuel below = .ok ()) (hrest : rest ≠ [])
    (hfuel : rest.length ≤ fuel) (hnode : t.node (output ++ (below ++ rest)) ≠ none) :
    relativeText (below ++ rest) ∈ expected ∧ IsPlain (t.node (output ++ (below ++ rest))) := by
  induction fuel generalizing below rest with
  | zero => exact absurd (List.length_eq_zero_iff.mp (by omega)) hrest
  | succ fuel ih =>
    cases rest with
    | nil => exact absurd rfl hrest
    | cons name rest =>
      rw [walk_ok_iff] at h
      by_cases hlast : rest = []
      · subst hlast
        obtain ⟨hmem, hplain, -⟩ := h name hnode
        exact ⟨hmem, hplain⟩
      · have hsplit : below ++ name :: rest = below ++ [name] ++ rest := by simp
        rw [hsplit, ← List.append_assoc] at hnode
        have hdir := hrooted.above (by simp) hlast hnode
        obtain ⟨attr, hdir⟩ := hdir
        obtain ⟨-, -, hwalk⟩ := h name (by rw [hdir]; simp)
        rw [hsplit]
        apply ih (hwalk ⟨attr, hdir⟩) hlast (by simpa using hfuel)
        rwa [List.append_assoc] at hnode

end Walk

def treeDepth (t : Tree) : ℕ := (t.names.map List.length).foldr max 0

/-- The way up to the first path that exists. -/
def nearestOf (t : Tree) : List Name → Except String Path
  | [] => .ok []
  | name :: above =>
    match lstatSync t (name :: above).reverse with
    | .ok _ => .ok (name :: above).reverse
    | .error code => if code = "ENOENT" then nearestOf t above else .error code

/-- The root directory's own text ends in a separator, which no other path goes on with. -/
def overlaps (output root : Path) : Bool :=
  output = root || (root ≠ [] && root.isPrefixOf output) || (output ≠ [] && output.isPrefixOf root)

def checkRoot (t : Tree) (output root : Path) : Except String Unit := do
  lstatSync t root
  ensure (!overlaps output root) "output overlaps an input/package directory"

/-- The check of what is there already. -/
def checkOutput (utf8 : Utf8) (t : Tree) (output : Path) : Except String Unit := do
  lstatSync t (output ++ [reportName])
  match t.node (output ++ [reportName]) with
  | some (.file bytes _) =>
    match jsonParse (utf8.decode bytes) with
    | none => .error "SyntaxError"
    | some report => do
      let paths ← listedPaths report
      walk t output (expectedTexts paths) (treeDepth t + 1) []
  | _ => ensure false ("expected regular non-symlink file: " ++ fileText (output ++ [reportName]))

/-- A tree is addressed by its real paths, so the output is where it was asked for. -/
def ownedOutput (utf8 : Utf8) (t : Tree) (output : Path) (protectedRoots : List Path) :
    Except String Path := do
  let current ← nearestOf t output.reverse
  directory t current
  protectedRoots.forM (checkRoot t output)
  if current = output then
    checkOutput utf8 t output
    return output
  else return output

/-! ### What is accepted -/

theorem nearestOf_length {t : Tree} {names : List Name} {p : Path}
    (h : nearestOf t names = .ok p) : p.length ≤ names.length := by
  induction names with
  | nil =>
    cases h
    rfl
  | cons name above ih =>
    unfold nearestOf at h
    split at h
    · cases h
      rw [List.length_reverse]
    · split at h
      · exact (ih h).trans (Nat.le_succ _)
      · cases h

theorem nearestOf_eq {t : Tree} {output : Path} :
    nearestOf t output.reverse = .ok output ↔ output = [] ∨ t.node output ≠ none := by
  cases hnames : output.reverse with
  | nil => simp [List.reverse_eq_nil_iff.mp hnames, nearestOf]
  | cons name above =>
    have houtput : (name :: above).reverse = output := by rw [← hnames, List.reverse_reverse]
    rw [nearestOf, houtput, ← lstatSync_eq_ok (u := ())]
    cases hlook : lstatSync t output with
    | ok u => exact iff_of_true rfl rfl
    | error code =>
      refine iff_of_false (fun h => ?_) fun h => by cases h
      have habove : nearestOf t above = .ok output := by
        dsimp only at h
        split at h
        · exact h
        · cases h
      have hlength := nearestOf_length habove
      have hsame : output.length = above.length + 1 := by rw [← houtput]; simp
      omega

theorem le_treeDepth {t : Tree} {q : Path} (h : t.node q ≠ none) : q.length ≤ treeDepth t := by
  have hmem : q.length ∈ t.names.map List.length :=
    List.mem_map_of_mem (t.complete q (Option.isSome_iff_ne_none.mpr h))
  unfold treeDepth
  generalize t.names.map List.length = lengths at hmem
  induction lengths with
  | nil => cases hmem
  | cons n lengths ih =>
    rw [List.foldr_cons]
    rcases List.mem_cons.mp hmem with rfl | hmem
    · exact le_max_left _ _
    · exact (ih hmem).trans (le_max_right _ _)

/-- The report of a directory, with the paths that it lists. -/
def Lists (utf8 : Utf8) (t : Tree) (output : Path) (paths : List Units) : Prop :=
  ∃ bytes report, t.look (output ++ [reportName]) = .file bytes ∧
    jsonParse (utf8.decode bytes) = some report ∧ listedPaths report = .ok paths

theorem Owned.checkOutput {utf8 : Utf8} {t : Tree} {output : Path} {paths : List Units}
    (howned : Owned t output (expectedTexts paths)) (hlists : Lists utf8 t output paths) :
    Android.checkOutput utf8 t output = .ok () := by
  obtain ⟨bytes, report, hlook, hreport, hpaths⟩ := hlists
  obtain ⟨attr, hnode⟩ := Tree.look_eq_file.mp hlook
  refine bind_eq_ok.mpr ⟨(), lstatSync_eq_ok.mpr (.inr (by rw [hnode]; simp)), ?_⟩
  rw [hnode]
  simp only [hreport]
  exact bind_eq_ok.mpr ⟨paths, hpaths, howned.walk _ _⟩

theorem checkOutput_ok_iff {utf8 : Utf8} {t : Tree} {output : Path} (hrooted : Rooted t) :
    checkOutput utf8 t output = .ok () ↔
      ∃ paths, Lists utf8 t output paths ∧ Owned t output (expectedTexts paths) := by
  constructor
  · intro h
    obtain ⟨_, -, h⟩ := bind_eq_ok.mp h
    split at h
    · next bytes attr hnode =>
      split at h
      · cases h
      · next report hreport =>
        obtain ⟨paths, hpaths, hwalk⟩ := bind_eq_ok.mp h
        refine ⟨paths, ⟨bytes, report, Tree.look_eq_file.mpr ⟨attr, hnode⟩, hreport, hpaths⟩, ?_⟩
        intro rest hrest hnode
        have hdepth := le_treeDepth hnode
        rw [List.length_append] at hdepth
        exact walk_sound hrooted hwalk hrest (by omega) hnode
    · cases h
  · rintro ⟨paths, hlists, howned⟩
    exact howned.checkOutput hlists

theorem ownedOutput_ok_iff {utf8 : Utf8} {t : Tree} {output out : Path} {roots : List Path} :
    ownedOutput utf8 t output roots = .ok out ↔
      out = output ∧
        (∃ current, nearestOf t output.reverse = .ok current ∧ t.isDirectory current = true) ∧
        (∀ root ∈ roots, checkRoot t output root = .ok ()) ∧
        (output = [] ∨ t.node output ≠ none → checkOutput utf8 t output = .ok ()) := by
  rw [← nearestOf_eq, ← forM_eq_ok (u := ())]
  constructor
  · intro h
    obtain ⟨current, hnearest, h⟩ := bind_eq_ok.mp h
    obtain ⟨_, hdir, h⟩ := bind_eq_ok.mp h
    obtain ⟨_, hroots, h⟩ := bind_eq_ok.mp h
    rw [directory_eq_ok] at hdir
    by_cases hcurrent : current = output
    · rw [if_pos hcurrent] at h
      obtain ⟨_, hcheck, h⟩ := bind_eq_ok.mp h
      cases h
      exact ⟨rfl, ⟨current, hnearest, hdir⟩, hroots, fun _ => hcheck⟩
    · rw [if_neg hcurrent] at h
      cases h
      refine ⟨rfl, ⟨current, hnearest, hdir⟩, hroots, fun hc => absurd ?_ hcurrent⟩
      rw [hnearest] at hc
      cases hc
      rfl
  · rintro ⟨rfl, ⟨current, hnearest, hdir⟩, hroots, hcheck⟩
    refine bind_eq_ok.mpr ⟨current, hnearest, bind_eq_ok.mpr ⟨(), directory_eq_ok.mpr hdir,
      bind_eq_ok.mpr ⟨(), hroots, ?_⟩⟩⟩
    by_cases hcurrent : current = out
    · rw [if_pos hcurrent]
      rw [hcurrent] at hnearest
      exact bind_eq_ok.mpr ⟨(), hcheck hnearest, rfl⟩
    · rw [if_neg hcurrent]
      rfl

theorem overlaps_eq_false {output root : Path} : overlaps output root = false ↔
    root ≠ output ∧ (root = [] ∨ ¬root <+: output) ∧ (output = [] ∨ ¬output <+: root) := by
  have hprefix (p q : Path) :
      (decide (p ≠ []) && p.isPrefixOf q) = false ↔ p = [] ∨ ¬p <+: q := by
    rw [Bool.and_eq_false_iff, decide_eq_false_iff_not, not_not, ← Bool.not_eq_true,
      List.isPrefixOf_iff_prefix]
  rw [overlaps, Bool.or_eq_false_iff, Bool.or_eq_false_iff, hprefix, hprefix,
    decide_eq_false_iff_not, and_assoc, eq_comm]

theorem checkRoot_ok_iff {t : Tree} {output root : Path} : checkRoot t output root = .ok () ↔
    (root = [] ∨ t.node root ≠ none) ∧ root ≠ output ∧ (root = [] ∨ ¬root <+: output) ∧
      (output = [] ∨ ¬output <+: root) := by
  rw [← overlaps_eq_false]
  refine bind_eq_ok.trans ?_
  simp only [lstatSync_eq_ok, ensure_eq_ok, exists_const, Bool.not_eq_true']

end RgbLightningNode.Android
