import RgbLightningNode.Android.Staging

/-!
# The replacement of the staged output

The copies are made and checked in a new directory beside the output, which then takes the place of
the output with two renames. A failed rename is taken back, and the old output goes away last.
-/

namespace RgbLightningNode.Android
open Faulty FileSystem Json Number
open Restore (freeName taken removeDirAll)

/-- An error of a check, or of a system call. -/
inductive Failure where
  | message (text : String)
  | system (call : String)
  deriving DecidableEq, Repr

def system {α : Type} (call : String) (m : Io α) : Proc Tree Failure α :=
  .mapError (fun _ => .system call) m

def check (condition : Bool) (message : String) : Proc Tree Failure Unit :=
  if condition then return () else .throw (.message ("Android staging: " ++ message))

def regular (p : Path) : Proc Tree Failure Unit := do
  let found ← system "lstat" (symlinkMetadata p)
  check found.isFile ("expected regular non-symlink file: " ++ fileText p)

/-! ### The copies -/

section Copies

-- the hash of a file's bytes, and what a copy of them may turn into on its way
variable (sha256 : Bytes → String) (damage : ℕ → Bytes → Bytes)

def sha256File (p : Path) : Proc Tree Failure String := do
  regular p
  let bytes ← system "read" (readToEnd p)
  return sha256 bytes

/-- An exclusive copy. The mode that the source has plays no part. -/
def copyFileSync (source target : Path) : Proc Tree Failure Unit := do
  let bytes ← system "copyfile" (readToEnd source)
  system "copyfile" (createNew target 0o644)
  let n ← .choose
  system "copyfile" (writeAll target (damage n bytes))

/-- Neither absolute nor with a part `..`, whichever way the parts are separated. -/
def isSafe (relative : Path) : Bool :=
  let cs := ("/".intercalate relative).toList
  cs.head? != some '/' && !(cs.splitOnP fun c => c = '\\' || c = '/').contains ['.', '.']

/-- The body of the loop over the copies. -/
def stageCopy (temporary : Path) (copy : Copy) : Proc Tree Failure Unit := do
  check (isSafe copy.relative) "unsafe output filename"
  let target := temporary ++ copy.relative
  system "mkdir" (createDirAll target.dropLast)
  regular copy.source
  copyFileSync damage copy.source target
  let changed := "source changed or copy corrupted: " ++ "/".intercalate copy.relative
  let written ← sha256File sha256 target
  check (written = copy.sha256) changed
  let source ← sha256File sha256 copy.source
  check (source = copy.sha256) changed

end Copies

/-! ### The report -/

def bareKitVersion : String := "0.15.5"

def embeddedBare : String := "1.33.4"

def originalItem (original : Original) : Value Double := Value.object [
  (text "abi", .string (text original.abi.name)),
  (text "sha256", .string (text original.sha256)),
  (text "runtimeSha256", .string (text original.runtimeSha256))]

/-- The report of `run`, before the files are added. -/
def reportMembers (verified : Verified) : List (Units × Value Double) := [
  (text "schemaVersion", .number (Double.natural 1)),
  (text "package", .string (text packageName)),
  (text "version", .string (text verified.version)),
  (text "bareKit", .string (text bareKitVersion)),
  (text "embeddedBare", .string (text embeddedBare)),
  (text "rlnCommit", .string (text verified.commit)),
  (text "adapterSha256", .string (text verified.patchSha256)),
  (text "wrapperSha256", .string (text verified.wrapperSha256)),
  (text "originals", .array (verified.originals.map originalItem)),
  (text "scope", .string (text
    "Byte-preserving packaging verification; application runtime qualification is separate."))]

def fileItem (copy : Copy) : Value Double := Value.object [
  (text "path", .string (relativeText copy.relative)), (text "sha256", .string (text copy.sha256))]

def reportText (report : List (Units × Value Double)) (copies : List Copy) : Units :=
  jsonLines (.object (setMember (text "files") (.array (copies.map fileItem)) report)) ++ [0x0A]

/-- The file is created, or truncated if it is there. -/
def openForWriting (p : Path) : Io Unit :=
  .primitive .other fun _ t => match t.node p with
    | some (.file _ attr) => (.ok (), t.put p (.file [] attr))
    | some _ => (.error .other, t)
    | none =>
      if t.hasParent p then (.ok (), t.put p (.file [] (ownedAttr 0o644)))
        else (.error .notFound, t)

def writeFileSync (p : Path) (bytes : Bytes) : Proc Tree Failure Unit := do
  system "open" (openForWriting p)
  system "write" (writeAll p bytes)

/-! ### The renames -/

section Links

-- whether the link at a path leads anywhere, which the tree does not tell
variable (leads : Tree → Path → Bool)

def present (t : Tree) (p : Path) : Bool :=
  t.isDirectory p || match t.node p with
    | some (.file _ _) | some .special => true
    | some .symlink => leads t p
    | _ => false

/-- Whether something is at a path, which is told without an error. -/
def existsSync (p : Path) : Proc Tree Failure Bool :=
  .step fun d t => match d.fate with
    | .die => (.died, t)
    | _ => (.ok (present leads t p), t)

end Links

/-- A directory takes the place of nothing or of an empty directory, and anything else the place of
nothing or of what is no directory. -/
def renamable (t : Tree) (source target : Path) : Bool :=
  source ≠ [] && target ≠ [] && t.hasParent target && match t.node source with
    | none => false
    | some (.dir _) => !source.isPrefixOf target && match t.node target with
      | none => true
      | some (.dir _) => (readdirSync t target).isEmpty
      | some _ => false
    | some _ => !t.isDirectory target

def renamed (source target : Path) (t : Tree) : Outcome Failure Unit × Tree :=
  if renamable t source target then (.ok (), t.move source target)
  else (.error (.system "rename"), t)

def renameSync (source target : Path) : Proc Tree Failure Unit :=
  .primitive (.system "rename") fun _ => renamed source target

/-- The rename that puts the old output back, which fails only if the tree does not allow it. -/
def renameBack (source target : Path) : Proc Tree Failure Unit :=
  .step fun d t => match d.fate with
    | .die => (.died, t)
    | _ => renamed source target t

/-- The staged directory takes the place of the output, or the old output is put back. -/
def replace (leads : Tree → Path → Bool) (temporary backup output : Path) :
    Proc Tree Failure Unit := do
  if ← existsSync leads output then renameSync output backup
  match ← .attempt (renameSync temporary output) with
  | .ok _ => return ()
  | .error failure => do
    if ← existsSync leads backup then renameBack backup output
    .throw failure

def rmSync (p : Path) : Proc Tree Failure Unit := system "rm" (removeDirAll p)

/-- A new directory under a random name. -/
def mkdtempSync (parent : Path) (stem : String) : Proc Tree Failure Name :=
  .primitive (.system "mkdtemp") fun n t =>
    let name := freeName t parent stem n
    if taken t (parent ++ [name]) || !t.hasParent (parent ++ [name]) then
      (.error (.system "mkdtemp"), t)
    else (.ok name, t.put (parent ++ [name]) (.dir (ownedAttr 0o700)))

def stem : String := ".utexo-android-"

/-- The name under which the output is staged. -/
def draw (output : Path) : Proc Tree Failure Name := do
  system "mkdir" (createDirAll output.dropLast)
  mkdtempSync output.dropLast stem

def backupName (name : Name) : Name := name ++ ".previous"

section Stage

variable (sha256 : Bytes → String) (damage : ℕ → Bytes → Bytes) (leads : Tree → Path → Bool)
  (utf8 : Utf8)

/-- Everything that is staged, in the directory that was made for it. -/
def fill (temporary : Path) (copies : List Copy) (report : List (Units × Value Double)) :
    Proc Tree Failure Unit := do
  copies.forM (stageCopy sha256 damage temporary)
  writeFileSync (temporary ++ [reportName]) (utf8.encode (reportText report copies))

def stageCopies (output : Path) (copies : List Copy) (report : List (Units × Value Double)) :
    Proc Tree Failure Unit := do
  let name ← draw output
  let temporary := output.dropLast ++ [name]
  let backup := output.dropLast ++ [backupName name]
  .ensure (do
    fill sha256 damage utf8 temporary copies report
    replace leads temporary backup output
    rmSync backup) fun _ => rmSync temporary

end Stage

/-! ### What has been staged -/

section Filling

/-- The files to stage, and everything on the way to them. -/
def Targets (temporary : Path) (copies : List Copy) : Set Path :=
  {q | q <+: temporary ++ [reportName] ∨ ∃ copy ∈ copies, q <+: temporary ++ copy.relative}

/-- The new directory holds `files`, and nothing that is not on the way to a target. -/
structure Filling (parent : Path) (name : Name) (copies : List Copy) (t : Tree)
    (files : List (Path × Bytes)) (u : Tree) : Prop where
  filled : Filled parent name (fun _ => True) 0o644 t files u
  within : t.AgreeOff (Targets (parent ++ [name]) copies) u

/-- A step ends as `P` says, or with whatever has been staged so far. -/
def Stages {α : Type} (parent : Path) (name : Name) (copies : List Copy) (t : Tree)
    (P : α → Tree → Prop) : Outcome Failure α → Tree → Prop
  | .ok a, u => P a u
  | .error _, u | .died, u => ∃ files, Filling parent name copies t files u
  | .panicked, _ => False

variable {parent : Path} {name : Name} {copies : List Copy} {t u : Tree}
  {files : List (Path × Bytes)} {rest : Path} {α β : Type}

theorem holds_stages_bind {m : Proc Tree Failure α} {next : α → Proc Tree Failure β}
    {P : α → Tree → Prop} {Q : β → Tree → Prop} (hm : Holds m u (Stages parent name copies t P))
    (hnext : ∀ a u', P a u' → Holds (next a) u' (Stages parent name copies t Q)) :
    Holds (m >>= next) u (Stages parent name copies t Q) := by
  apply holds_bind
  refine hm.mono ?_
  intro o u' h
  cases o with
  | ok a => exact hnext a u' h
  | error _ => exact h
  | panicked => exact h
  | died => exact h

theorem mem_temporary (rest : Path) :
    parent ++ [name] ++ rest ∈ Region parent name (fun _ => True) :=
  ⟨rest, by simp, fun _ _ => trivial⟩

theorem Filling.dirs (h : Filling parent name copies t files u) {p : Path}
    (hp : parent ++ [name] ++ p ∈ Targets (parent ++ [name]) copies) :
    Holds (system "mkdir" (createDirAll (parent ++ [name] ++ p))) u (Stages parent name copies t
      fun _ u' => Filling parent name copies t files u' ∧
        u'.isDirectory (parent ++ [name] ++ p) = true) := by
  have hput : AdmitsDirectories (t.AgreeOff (Targets (parent ++ [name]) copies))
      (parent ++ [name] ++ p) := by
    intro v q mode hoff _ hq _
    refine hoff.put ?_ _
    rcases hp with hp | ⟨copy, hcopy, hp⟩
    · exact .inl (hq.trans hp)
    · exact .inr ⟨copy, hcopy, hq.trans hp⟩
  apply holds_mapError
  refine ((h.filled.createDirAll (mem_temporary p)).and
    (createDirAll_preserves hput h.within)).mono ?_
  rintro o u' ⟨⟨hfilled, hdir⟩, hwithin, hpanic⟩
  cases o with
  | ok _ => exact ⟨⟨hfilled, hwithin⟩, hdir⟩
  | error _ => exact ⟨files, hfilled, hwithin⟩
  | panicked => exact absurd rfl hpanic
  | died => exact ⟨files, hfilled, hwithin⟩

theorem Filling.check (h : Filling parent name copies t files u) (condition : Bool)
    (message : String) : Holds (check condition message) u (Stages parent name copies t
      fun _ u' => u' = u ∧ condition = true) := by
  cases condition with
  | true => exact holds_pure ⟨rfl, rfl⟩
  | false => exact holds_throw ⟨files, h⟩

theorem Filling.regular (h : Filling parent name copies t files u) (p : Path) :
    Holds (regular p) u (Stages parent name copies t fun _ u' => u' = u) := by
  apply holds_bind
  apply holds_mapError
  apply holds_symlinkMetadata
  · intro n _
    refine (h.check n.isFile _).mono ?_
    intro o u' ho
    cases o with
    | ok _ => exact ho.1
    | error _ => exact ho
    | panicked => exact ho
    | died => exact ho
  · exact fun _ => ⟨files, h⟩
  · exact ⟨files, h⟩
  · exact ⟨files, h⟩

theorem Filling.read (h : Filling parent name copies t files u) {p : Path} {bytes : Bytes}
    (hlook : u.look p = .file bytes) (call : String) : Holds (system call (readToEnd p)) u
      (Stages parent name copies t fun found u' => u' = u ∧ found = bytes) := by
  apply holds_mapError
  apply holds_readToEnd
  · intro found attr hnode
    refine ⟨rfl, ?_⟩
    rw [Tree.look_eq_file.mpr ⟨attr, hnode⟩] at hlook
    cases hlook
    rfl
  · exact fun _ => ⟨files, h⟩
  · exact ⟨files, h⟩

variable {sha256 : Bytes → String} {damage : ℕ → Bytes → Bytes}

theorem Filling.hash (h : Filling parent name copies t files u) {p : Path} {bytes : Bytes}
    (hlook : u.look p = .file bytes) : Holds (sha256File sha256 p) u
      (Stages parent name copies t fun hash u' => u' = u ∧ hash = sha256 bytes) := by
  refine holds_stages_bind (h.regular p) ?_
  rintro _ _ rfl
  refine holds_stages_bind (h.read hlook _) ?_
  rintro _ _ ⟨rfl, rfl⟩
  exact holds_pure ⟨rfl, rfl⟩

/-- Whatever is in a file that was there before is there still. -/
theorem Filling.look (h : Filling parent name copies t files u)
    (hfresh : ∀ q ∈ Region parent name (fun _ => True), t.node q = none) {p : Path} {bytes : Bytes}
    (hlook : t.look p = .file bytes) : u.look p = .file bytes := by
  rw [h.filled.off.look, hlook]
  intro hp
  rw [Tree.look_eq_absent.mpr (hfresh p hp)] at hlook
  cases hlook

/-- A new file, with some bytes that are to be appended to it. -/
theorem Filling.append
    (h : Filling parent name copies t (files ++ [(parent ++ [name] ++ rest, [])]) u)
    (hrest : parent ++ [name] ++ rest ∈ Targets (parent ++ [name]) copies) (bytes : Bytes) :
    Filling parent name copies t (files ++ [(parent ++ [name] ++ rest, bytes)])
      (appendBytes (parent ++ [name] ++ rest) bytes u) :=
  ⟨h.filled.append, appendBytes_agreeOff h.within hrest bytes⟩

theorem Filling.write
    (h : Filling parent name copies t (files ++ [(parent ++ [name] ++ rest, [])]) u)
    (hrest : parent ++ [name] ++ rest ∈ Targets (parent ++ [name]) copies) (call : String)
    (bytes : Bytes) : Holds (system call (writeAll (parent ++ [name] ++ rest) bytes)) u
      (Stages parent name copies t fun _ u' =>
        Filling parent name copies t (files ++ [(parent ++ [name] ++ rest, bytes)]) u') := by
  apply holds_mapError
  apply holds_writeAll
  · exact h.append hrest bytes
  · exact fun n => ⟨_, h.append hrest (bytes.take n)⟩
  · exact fun n => ⟨_, h.append hrest (bytes.take n)⟩

theorem Filling.copy (h : Filling parent name copies t files u) {source rest : Path} {bytes : Bytes}
    (hlook : u.look source = .file bytes)
    (hrest : parent ++ [name] ++ rest ∈ Targets (parent ++ [name]) copies) :
    Holds (copyFileSync damage source (parent ++ [name] ++ rest)) u
      (Stages parent name copies t fun _ u' => ∃ n, Filling parent name copies t
        (files ++ [(parent ++ [name] ++ rest, damage n bytes)]) u') := by
  refine holds_stages_bind (h.read hlook _) ?_
  rintro _ _ ⟨rfl, rfl⟩
  refine holds_stages_bind (P := fun _ u' => Filling parent name copies t
    (files ++ [(parent ++ [name] ++ rest, [])]) u') ?_ ?_
  · apply holds_mapError
    apply holds_createNew
    · exact fun hnone hparent => ⟨h.filled.create (mem_temporary rest) hnone hparent,
        h.within.put hrest _⟩
    · exact fun _ => ⟨files, h⟩
    · exact ⟨files, h⟩
  intro _ u' h'
  apply holds_bind
  apply holds_choose
  · intro n
    refine (h'.write hrest _ _).mono ?_
    intro o u'' ho
    cases o with
    | ok _ => exact ⟨n, ho⟩
    | error _ => exact ho
    | panicked => exact ho
    | died => exact ho
  · exact ⟨_, h'⟩

/-- A copy that passes its checks has the bytes of its source, if damage changes the hash. -/
theorem Filling.stageCopy (h : Filling parent name copies t files u)
    (hfresh : ∀ q ∈ Region parent name (fun _ => True), t.node q = none) {copy : Copy}
    (hcopy : copy ∈ copies) (hrelative : copy.relative ≠ []) {bytes : Bytes}
    (hlook : t.look copy.source = .file bytes) (hsha256 : sha256 bytes = copy.sha256)
    (hdamage : ∀ n, sha256 (damage n bytes) = sha256 bytes → damage n bytes = bytes) :
    Holds (Android.stageCopy sha256 damage (parent ++ [name]) copy) u
      (Stages parent name copies t fun _ u' => Filling parent name copies t
        (files ++ [(parent ++ [name] ++ copy.relative, bytes)]) u') := by
  have htarget : parent ++ [name] ++ copy.relative ∈ Targets (parent ++ [name]) copies :=
    .inr ⟨copy, hcopy, List.prefix_rfl⟩
  have hdir : parent ++ [name] ++ copy.relative.dropLast ∈ Targets (parent ++ [name]) copies := by
    refine .inr ⟨copy, hcopy, ?_⟩
    exact (List.prefix_append_right_inj _).mpr (List.dropLast_prefix _)
  refine holds_stages_bind (h.check _ _) ?_
  rintro _ _ ⟨rfl, _⟩
  have hdirs := h.dirs hdir
  rw [← List.dropLast_append_of_ne_nil hrelative] at hdirs
  refine holds_stages_bind hdirs ?_
  rintro _ u₁ ⟨h₁, _⟩
  refine holds_stages_bind (h₁.regular _) ?_
  rintro _ _ rfl
  refine holds_stages_bind (h₁.copy (h₁.look hfresh hlook) htarget) ?_
  rintro _ u₂ ⟨n, h₂⟩
  have hwritten : u₂.look (parent ++ [name] ++ copy.relative) = .file (damage n bytes) :=
    h₂.filled.file_mem (f := (_, damage n bytes)) (by simp)
  refine holds_stages_bind (h₂.hash hwritten) ?_
  rintro _ _ ⟨rfl, rfl⟩
  refine holds_stages_bind (h₂.check _ _) ?_
  rintro _ _ ⟨rfl, hsame⟩
  rw [decide_eq_true_eq, ← hsha256] at hsame
  rw [hdamage n hsame] at h₂
  refine holds_stages_bind (h₂.hash (h₂.look hfresh hlook)) ?_
  rintro _ _ ⟨rfl, rfl⟩
  refine (h₂.check _ _).mono ?_
  intro o u₃ ho
  cases o with
  | ok _ => rwa [ho.1]
  | error _ => exact ho
  | panicked => exact ho
  | died => exact ho

/-- What a copy is planned for: its source is a file with the hash it has in the plan. -/
structure Ready (sha256 : Bytes → String) (t : Tree) (copy : Copy) : Prop where
  source : ∃ bytes, t.look copy.source = .file bytes ∧ sha256 bytes = copy.sha256
  nonempty : copy.relative ≠ []
  not_report : copy.relative ≠ [reportName]

def fileBytes (t : Tree) (p : Path) : Bytes :=
  match t.look p with
  | .file bytes => bytes
  | _ => []

theorem fileBytes_eq {p : Path} {bytes : Bytes} (h : t.look p = .file bytes) :
    fileBytes t p = bytes := by
  rw [fileBytes, h]

def stagedFiles (temporary : Path) (t : Tree) (copies : List Copy) : List (Path × Bytes) :=
  copies.map fun copy => (temporary ++ copy.relative, fileBytes t copy.source)

theorem Filling.stageAll (h : Filling parent name copies t files u)
    (hfresh : ∀ q ∈ Region parent name (fun _ => True), t.node q = none)
    (hdamage : ∀ n bytes, sha256 (damage n bytes) = sha256 bytes → damage n bytes = bytes)
    {todo : List Copy} (hsub : todo ⊆ copies) (hready : ∀ copy ∈ todo, Ready sha256 t copy) :
    Holds (todo.forM (Android.stageCopy sha256 damage (parent ++ [name]))) u
      (Stages parent name copies t fun _ u' => Filling parent name copies t
        (files ++ stagedFiles (parent ++ [name]) t todo) u') := by
  induction todo generalizing files u with
  | nil =>
    apply holds_pure
    change Filling parent name copies t (files ++ []) u
    rwa [List.append_nil]
  | cons copy todo ih =>
    obtain ⟨⟨bytes, hlook, hsha256⟩, hrelative, _⟩ := hready copy List.mem_cons_self
    have hone := h.stageCopy hfresh (hsub List.mem_cons_self) hrelative hlook hsha256
      fun n => hdamage n bytes
    change Holds (do Android.stageCopy sha256 damage (parent ++ [name]) copy; todo.forM _) u _
    refine holds_stages_bind hone ?_
    rintro _ u' h'
    have hrest := ih h' (fun c hc => hsub (List.mem_cons_of_mem _ hc))
      fun c hc => hready c (List.mem_cons_of_mem _ hc)
    rwa [List.append_assoc, List.singleton_append, ← fileBytes_eq hlook] at hrest

theorem Filling.openForWriting (h : Filling parent name copies t files u)
    (hrest : parent ++ [name] ++ rest ∈ Targets (parent ++ [name]) copies)
    (hnew : ∀ f ∈ files, f.1 ≠ parent ++ [name] ++ rest) (call : String) :
    Holds (system call (Android.openForWriting (parent ++ [name] ++ rest))) u
      (Stages parent name copies t fun _ u' =>
        Filling parent name copies t (files ++ [(parent ++ [name] ++ rest, [])]) u') := by
  apply holds_mapError
  refine holds_primitive ?_ ⟨files, h⟩ ⟨files, h⟩
  intro _
  cases hnode : u.node (parent ++ [name] ++ rest) with
  | none =>
    by_cases hparent : u.hasParent (parent ++ [name] ++ rest) = true
    · simp only [hparent, if_true]
      exact ⟨h.filled.create (mem_temporary rest) hnode hparent, h.within.put hrest _⟩
    · simp only [hparent]
      exact ⟨files, h⟩
  | some n =>
    cases n with
    | file bytes attr =>
      have hmem := (h.filled.look_iff _ (mem_temporary rest) bytes).mp
        (Tree.look_eq_file.mpr ⟨attr, hnode⟩)
      exact absurd rfl (hnew _ hmem)
    | dir _ => exact ⟨files, h⟩
    | symlink => exact ⟨files, h⟩
    | special => exact ⟨files, h⟩

variable {utf8 : Utf8} {report : List (Units × Value Double)}

/-- Everything that the new directory holds in the end. -/
def allFiles (utf8 : Utf8) (temporary : Path) (t : Tree) (copies : List Copy)
    (report : List (Units × Value Double)) : List (Path × Bytes) :=
  stagedFiles temporary t copies ++
    [(temporary ++ [reportName], utf8.encode (reportText report copies))]

theorem Filling.fill (h : Filling parent name copies t [] u)
    (hfresh : ∀ q ∈ Region parent name (fun _ => True), t.node q = none)
    (hdamage : ∀ n bytes, sha256 (damage n bytes) = sha256 bytes → damage n bytes = bytes)
    (hready : ∀ copy ∈ copies, Ready sha256 t copy) :
    Holds (Android.fill sha256 damage utf8 (parent ++ [name]) copies report) u
      (Stages parent name copies t fun _ u' => Filling parent name copies t
        (allFiles utf8 (parent ++ [name]) t copies report) u') := by
  have hreport : parent ++ [name] ++ [reportName] ∈ Targets (parent ++ [name]) copies :=
    .inl List.prefix_rfl
  refine holds_stages_bind (h.stageAll hfresh hdamage (List.Subset.refl _) hready) ?_
  rintro _ u₁ h₁
  rw [List.nil_append] at h₁
  refine holds_stages_bind (h₁.openForWriting hreport ?_ _) ?_
  · intro f hf heq
    obtain ⟨copy, hcopy, rfl⟩ := List.mem_map.mp hf
    exact (hready copy hcopy).not_report (List.append_cancel_left heq)
  · rintro _ u₂ h₂
    exact h₂.write hreport _ _

end Filling

end RgbLightningNode.Android
