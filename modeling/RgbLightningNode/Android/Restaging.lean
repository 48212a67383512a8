import RgbLightningNode.Android.Replacement

/-!
# Staging is exact, restorable and repeatable

What a finished run has put at the output, read against the plan: each linked entry has its file,
the report lists them, and the next run accepts the output as its own.
-/

namespace RgbLightningNode.Android
open Faulty FileSystem Json Number
open Restore (Beneath taken taken_eq_false)

/-! ### Texts of paths -/

theorem text_append (s s' : String) : text (s ++ s') = text s ++ text s' := by
  rw [text, String.toList_append, encodeUtf16_append]
  rfl

theorem text_inj {s s' : String} (h : text s = text s') : s = s' :=
  String.toList_inj.mp (encodeUtf16_inj h)

theorem slash_mem_text {s : String} (h : 0x2F ∈ text s) : '/' ∈ s.toList := by
  obtain ⟨c, hc, hu⟩ := List.mem_flatMap.mp h
  rcases encodeUtf16Char_cases c with ⟨u, hone, _, _, hnat⟩ | ⟨high, low, hpair, hhigh, hlow, _⟩
  · rw [hone, List.mem_singleton] at hu
    subst hu
    have hslash : c = '/' := Char.toNat_inj.mp hnat.symm
    rwa [← hslash]
  · rw [hpair, List.mem_cons, List.mem_singleton] at hu
    rcases hu with rfl | rfl
    · cases hhigh
    · cases hlow

theorem mem_intercalate {α : Type} {x a : α} {parts : List (List α)}
    (h : a ∈ [x].intercalate parts) : a = x ∨ ∃ part ∈ parts, a ∈ part := by
  induction parts with
  | nil => cases h
  | cons part parts ih =>
    cases parts with
    | nil =>
      rw [List.intercalate_singleton] at h
      exact .inr ⟨part, List.mem_cons_self, h⟩
    | cons next parts =>
      rw [List.intercalate_cons_cons, List.mem_append, List.mem_append, List.mem_singleton] at h
      rcases h with (h | h) | h
      · exact .inr ⟨part, List.mem_cons_self, h⟩
      · exact .inl h
      · refine (ih h).imp id ?_
        rintro ⟨part', hpart, ha⟩
        exact ⟨part', List.mem_cons_of_mem _ hpart, ha⟩

theorem isVersion_slash {cs : List Char} (h : isVersion cs = true) : '/' ∉ cs := by
  intro hmem
  rw [isVersion] at h
  split at h
  · next parts hparts =>
    have hjoined : List.intercalate ['.'] (cs.splitOn '.') = cs := List.intercalate_splitOn '.'
    rw [← hjoined, hparts] at hmem
    rw [List.all_eq_true] at h
    rcases mem_intercalate hmem with hdot | ⟨part, hpart, hslash⟩
    · cases hdot
    · rcases List.mem_cons.mp hpart with rfl | hpart
      · cases hslash
      · have hall := h part hpart
        rw [Bool.and_eq_true, List.all_eq_true] at hall
        cases hall.2 '/' hslash
  · cases h

/-- The name of a library is not empty, and has no separator. -/
theorem isLibraryName_slash {name : Name} (h : isLibraryName name = true) :
    name.toList ≠ [] ∧ '/' ∉ name.toList := by
  rw [isLibraryName] at h
  split at h
  · next rest hname =>
    refine ⟨by rw [hname]; simp, ?_⟩
    obtain ⟨i, _, hi⟩ := List.any_eq_true.mp h
    rw [Bool.and_eq_true, Bool.and_eq_true, List.all_eq_true] at hi
    have hrest : '/' ∉ rest := by
      rw [← List.take_append_drop i rest, List.mem_append, not_or]
      constructor
      · intro hslash
        simpa using hi.1.2 '/' hslash
      · have htail := hi.2
        split at htail
        · next version hversion =>
          rw [Text.dropPrefix_eq_some.mp hversion, List.mem_append, not_or]
          refine ⟨?_, isVersion_slash htail⟩
          have hso : ".so" = String.ofList ['.', 's', 'o'] := rfl
          rw [hso, String.toList_ofList]
          simp
        · cases htail
    rw [hname]
    simp [hrest]
  · cases h

/-- The text of a path that names a file in a directory. -/
theorem relativeText_pair (dir name : Name) :
    relativeText [dir, name] = text dir ++ 0x2F :: text name := by
  have hslash : text "/" = [0x2F] := by decide
  rw [relativeText, String.intercalate_cons_cons, String.intercalate_singleton, text_append,
    text_append, hslash, List.append_assoc, List.singleton_append]

theorem relativeText_singleton (name : Name) : relativeText [name] = text name := by
  rw [relativeText, String.intercalate_singleton]

/-- The directory of a file, if neither name has a separator. -/
theorem dirname_pair {first : UInt16} {dir name : Units} (hfirst : first ≠ 0x2F) (hname : name ≠ [])
    (hslash : 0x2F ∉ name) : dirname (first :: dir ++ 0x2F :: name) = first :: dir := by
  have hkeep : ∀ u ∈ name.reverse, (u != 0x2F) = true := by
    intro u hu
    rw [bne_iff_ne]
    rintro rfl
    exact hslash (List.mem_reverse.mp hu)
  have hlast : (dir ++ 0x2F :: name).reverse.dropWhile (· == 0x2F) =
      name.reverse ++ 0x2F :: dir.reverse := by
    rw [List.reverse_append, List.reverse_cons, List.append_assoc, List.singleton_append]
    obtain ⟨u, rest, hreverse⟩ := List.exists_cons_of_ne_nil (List.reverse_ne_nil_iff.mpr hname)
    have hu := hkeep u (by rw [hreverse]; exact List.mem_cons_self)
    rw [hreverse, List.cons_append, List.dropWhile_cons_of_neg]
    simpa using hu
  rw [List.cons_append, dirname, hlast, List.dropWhile_append_of_pos hkeep]
  simp [hfirst]

theorem dirname_relativeText (abi : Abi) {name : Name} (h : isLibraryName name = true) :
    dirname (relativeText [abi.name, name]) = text abi.name := by
  obtain ⟨hname, hslash⟩ := isLibraryName_slash h
  have habi : ∃ first dir, text abi.name = first :: dir ∧ first ≠ 0x2F := by
    cases abi with
    | arm64V8a => exact ⟨_, _, rfl, by decide⟩
    | armeabiV7a => exact ⟨_, _, rfl, by decide⟩
    | x86_64 => exact ⟨_, _, rfl, by decide⟩
  obtain ⟨first, dir, htext, hfirst⟩ := habi
  rw [relativeText_pair, htext]
  apply dirname_pair hfirst _ fun h => hslash (slash_mem_text h)
  intro hempty
  have hnil : text "" = [] := rfl
  rw [← hnil] at hempty
  rw [text_inj hempty] at hname
  exact hname rfl

/-! ### The report, read back -/

theorem rereadMembers_keys (members : List (Units × Value Double)) :
    (mapMembers Token.toDouble (printedMembers members)).map Prod.fst = members.map Prod.fst := by
  induction members with
  | nil => rfl
  | cons m members ih => simpa [printedMembers, mapMembers] using ih

theorem lastField_reread {members : List (Units × Value Double)}
    (h : (members.map Prod.fst).Nodup) (key : String) :
    lastField (reread (.object members)) key = (getMember members (text key)).map reread := by
  have hobject : reread (.object members) =
      .object (mapMembers Token.toDouble (printedMembers members)) := by
    rw [reread, Value.printed, Value.map]
  have hkeys := rereadMembers_keys members
  rw [hobject, lastField, getMember_reverse (by rwa [hkeys]), getMember_reread]

def reportKeys : List String :=
  ["schemaVersion", "package", "version", "bareKit", "embeddedBare", "rlnCommit", "adapterSha256",
    "wrapperSha256", "originals", "scope"]

theorem text_notMem {key : String} {keys : List String} (h : key ∉ keys) :
    text key ∉ keys.map text := by
  intro hmem
  obtain ⟨k, hk, heq⟩ := List.mem_map.mp hmem
  rw [text_inj heq] at hk
  exact h hk

/-- The whole report, with the list of the files. -/
def fullReport (verified : Verified) (copies : List Copy) : List (Units × Value Double) :=
  setMember (text "files") (.array (copies.map fileItem)) (reportMembers verified)

theorem fullReport_nodup (verified : Verified) (copies : List Copy) :
    ((fullReport verified copies).map Prod.fst).Nodup := by
  have hkeys : (reportMembers verified).map Prod.fst = reportKeys.map text := rfl
  have hfiles : text "files" ∉ (reportMembers verified).map Prod.fst := by
    rw [hkeys]
    exact text_notMem (by simp [reportKeys])
  rw [fullReport, setMember_new hfiles rfl, List.map_append, hkeys, List.nodup_append]
  refine ⟨List.Nodup.map (fun _ _ => text_inj) (by simp [reportKeys]), List.nodup_singleton _, ?_⟩
  rintro key hkey _ hlast rfl
  rw [List.map_singleton, List.mem_singleton] at hlast
  rw [hlast, ← hkeys] at hkey
  exact hfiles hkey

theorem getMember_fullReport (verified : Verified) (copies : List Copy) {key : String}
    (hkey : key ≠ "files") : getMember (fullReport verified copies) (text key) =
      getMember (reportMembers verified) (text key) := by
  rw [fullReport, getMember_setMember, if_neg fun h => hkey (text_inj h)]

theorem itemPath_reread (copy : Copy) :
    itemPath (reread (fileItem copy)) = .ok (relativeText copy.relative) := by
  have hne : text "path" ≠ text "sha256" := fun h => absurd (text_inj h) (by simp)
  have hfield : lastField (reread (fileItem copy)) "path" =
      some (.string (relativeText copy.relative)) := by
    rw [fileItem, lastField_reread (by simp [hne])]
    simp [getMember, reread, Value.printed, Value.map]
  rw [itemPath, hfield]

theorem mapM_itemPath (copies : List Copy) :
    ((copies.map fileItem).map reread).mapM itemPath =
      .ok (copies.map fun copy => relativeText copy.relative) := by
  induction copies with
  | nil => rfl
  | cons copy copies ih =>
    rw [List.map_cons, List.map_cons, List.mapM_cons, itemPath_reread, ih]
    rfl

theorem listedPaths_report (verified : Verified) (copies : List Copy) :
    listedPaths (reread (.object (fullReport verified copies))) =
      .ok (copies.map fun copy => relativeText copy.relative) := by
  have hnodup := fullReport_nodup verified copies
  have hfiles : lastField (reread (.object (fullReport verified copies))) "files" =
      some (.array ((copies.map fileItem).map reread)) := by
    rw [lastField_reread hnodup, fullReport, getMember_setMember, if_pos rfl,
      Option.map_some, reread_items]
  have hversion : lastField (reread (.object (fullReport verified copies))) "schemaVersion" =
      some (.number (Double.natural 1)) := by
    have hget : getMember (reportMembers verified) (text "schemaVersion") =
        some (.number (Double.natural 1)) := by
      simp [getMember, reportMembers]
    rw [lastField_reread hnodup, getMember_fullReport _ _ (by simp), hget, Option.map_some,
      reread_natural (by decide)]
  have hpackage : lastField (reread (.object (fullReport verified copies))) "package" =
      some (.string (text packageName)) := by
    have hne : text "schemaVersion" ≠ text "package" := fun h => absurd (text_inj h) (by simp)
    have hget : getMember (reportMembers verified) (text "package") =
        some (.string (text packageName)) := by
      simp [getMember, reportMembers, hne]
    rw [lastField_reread hnodup, getMember_fullReport _ _ (by simp), hget]
    rfl
  obtain ⟨members, hobject⟩ : ∃ members, reread (.object (fullReport verified copies)) =
      Value.object members := ⟨_, by rw [reread, Value.printed, Value.map]⟩
  rw [hobject] at hfiles hversion hpackage ⊢
  simp only [listedPaths, hversion, hpackage, hfiles, decide_true, Bool.and_self]
  exact bind_eq_ok.mpr ⟨(), rfl, mapM_itemPath copies⟩

/-! ### What a run puts at the output -/

section Complete

variable {sha256 : Bytes → String} {inspect : Bytes → Except String Inspected} {utf8 : Utf8}
  {t t₁ u v : Tree} {verified : Verified} {linked output : Path} {name : Name} {copies : List Copy}
  {roots : List Path}

/-- The hashes of the originals are those of their files. -/
def Hashed (sha256 : Bytes → String) (t : Tree) (verified : Verified) : Prop :=
  ∀ original ∈ verified.originals,
    ∃ bytes, t.look original.source = .file bytes ∧ sha256 bytes = original.sha256

theorem abi_ne_report (abi : Abi) : abi.name ≠ reportName := by
  cases abi <;> simp [Abi.name, reportName]

theorem Planned.ready {filename : Name} {original : Original} {dir : Path} {copy : Copy}
    (h : Planned sha256 t filename original dir name copy)
    (hverified : ∃ bytes, t.look original.source = .file bytes ∧ sha256 bytes = original.sha256) :
    Ready sha256 t copy where
  source := by
    cases haddon : isAddon name with
    | true =>
      obtain ⟨-, hsource, hsha256⟩ := h.addon haddon
      rwa [hsource, hsha256]
    | false =>
      obtain ⟨bytes, hlook, hsha256⟩ := h.entry
      rw [h.other haddon]
      exact ⟨bytes, hlook, (hsha256 haddon).symm⟩
  nonempty := by
    rw [h.relative]
    simp
  not_report := by
    rw [h.relative]
    simp

theorem plan_ready (hplan : planCopies sha256 inspect t verified linked = .ok copies)
    (hverified : Hashed sha256 t verified) : ∀ copy ∈ copies, Ready sha256 t copy := by
  intro copy hcopy
  obtain ⟨original, horiginal, name, -, hplanned⟩ := (planOriginals_ok hplan).2 copy hcopy
  exact hplanned.ready (hverified original horiginal)

theorem Drawn.look (h : Drawn t output name t₁ u) {p : Path} {bytes : Bytes}
    (hlook : t.look p = .file bytes) : t₁.look p = .file bytes := by
  rw [Tree.look_congr (h.grown.keeps p _), hlook]
  intro hnone
  rw [Tree.look_eq_absent.mpr hnone] at hlook
  cases hlook

theorem Ready.drawn {copy : Copy} (h : Ready sha256 t copy) (hdrawn : Drawn t output name t₁ u) :
    Ready sha256 t₁ copy where
  source := by
    obtain ⟨bytes, hlook, hsha256⟩ := h.source
    exact ⟨bytes, hdrawn.look hlook, hsha256⟩
  nonempty := h.nonempty
  not_report := h.not_report

/-- A staged copy has the bytes of its source. -/
theorem New.look_copy {report : List (Units × Value Double)} (hdrawn : Drawn t output name t₁ u)
    (h : New utf8 t₁ output name copies report v) {copy : Copy} (hcopy : copy ∈ copies)
    {bytes : Bytes} (hlook : t.look copy.source = .file bytes) :
    v.look (output ++ copy.relative) = .file bytes := by
  rw [h.files, ← fileBytes_eq (hdrawn.look hlook)]
  exact List.mem_append_left _ (List.mem_map.mpr ⟨copy, hcopy, rfl⟩)

theorem New.look_report {report : List (Units × Value Double)}
    (h : New utf8 t₁ output name copies report v) :
    v.look (output ++ [reportName]) = .file (utf8.encode (reportText report copies)) := by
  rw [h.files]
  exact List.mem_append_right _ (List.mem_singleton.mpr rfl)

/-- The output holds a file for each linked entry and the report, and nothing else. -/
structure Complete (utf8 : Utf8) (t : Tree) (verified : Verified) (linked output : Path)
    (copies : List Copy) (v : Tree) : Prop where
  entries : ∀ original ∈ verified.originals,
    ∀ name ∈ readdirSync t (linked ++ [original.abi.name]), ∃ bytes,
      v.look (output ++ [original.abi.name, name]) = .file bytes ∧
      t.look (if isAddon name then original.source
        else linked ++ [original.abi.name] ++ [name]) = .file bytes
  report : v.look (output ++ [reportName]) =
    .file (utf8.encode (reportText (reportMembers verified) copies))
  only : ∀ rest, v.node (output ++ rest) ≠ none → rest = [] ∨ rest = [reportName] ∨
    ∃ original ∈ verified.originals,
      (rest = [original.abi.name] ∧ v.isDirectory (output ++ rest) = true) ∨
      ∃ name ∈ readdirSync t (linked ++ [original.abi.name]), rest = [original.abi.name, name]
  dir : v.isDirectory output = true
  apart : (copies.map Copy.relative).Nodup

theorem prefix_singleton {rest : Path} {first : Name} (h : rest <+: [first]) :
    rest = [] ∨ rest = [first] := by
  cases rest with
  | nil => exact .inl rfl
  | cons a rest =>
    rw [List.cons_prefix_cons, List.prefix_nil] at h
    rw [h.1, h.2]
    exact .inr rfl

theorem prefix_pair {rest : Path} {first second : Name} (h : rest <+: [first, second]) :
    rest = [] ∨ rest = [first] ∨ rest = [first, second] := by
  cases rest with
  | nil => exact .inl rfl
  | cons a rest =>
    rw [List.cons_prefix_cons] at h
    rw [h.1]
    rcases prefix_singleton h.2 with hrest | hrest
    · rw [hrest]
      exact .inr (.inl rfl)
    · rw [hrest]
      exact .inr (.inr rfl)

/-- What stands at the output and is no file is a directory. -/
theorem New.isDirectory {report : List (Units × Value Double)}
    (h : New utf8 t₁ output name copies report v) {rest : Path}
    (hnode : v.node (output ++ rest) ≠ none)
    (hfile : ∀ f ∈ newFiles utf8 t₁ copies report, f.1 ≠ rest) :
    v.isDirectory (output ++ rest) = true := by
  have hplain := h.plain rest hnode
  apply (Tree.isDirectory_iff (by simp [h.output_ne])).mpr
  cases hn : v.node (output ++ rest) with
  | none => exact absurd hn hnode
  | some n =>
    rw [hn] at hplain
    cases n with
    | dir attr => exact ⟨attr, rfl⟩
    | file bytes attr =>
      have hmem := (h.files rest bytes).mp (Tree.look_eq_file.mpr ⟨attr, hn⟩)
      exact absurd rfl (hfile _ hmem)
    | symlink => exact hplain.elim
    | special => exact hplain.elim

theorem New.complete (hdrawn : Drawn t output name t₁ u)
    (hplan : planCopies sha256 inspect t verified linked = .ok copies)
    (hverified : Hashed sha256 t verified)
    (h : New utf8 t₁ output name copies (reportMembers verified) v) :
    Complete utf8 t verified linked output copies v where
  entries original horiginal name hname := by
    obtain ⟨copy, hcopy, hplanned⟩ := ((planOriginals_ok hplan).1 original horiginal).2 name hname
    obtain ⟨bytes, hlook, hsha256⟩ := (hplanned.ready (hverified original horiginal)).source
    refine ⟨bytes, ?_, ?_⟩
    · rw [← hplanned.relative]
      exact h.look_copy hdrawn hcopy hlook
    · cases haddon : isAddon name with
      | true =>
        rw [if_pos rfl, ← (hplanned.addon haddon).2.1, hlook]
      | false =>
        rw [if_neg Bool.false_ne_true, ← hplanned.other haddon, hlook]
  report := h.look_report
  only rest hnode := by
    rcases h.within rest hnode with hreport | ⟨copy, hcopy, hpre⟩
    · exact (prefix_singleton hreport).imp id Or.inl
    · obtain ⟨original, horiginal, name, hname, hplanned⟩ := (planOriginals_ok hplan).2 copy hcopy
      rw [hplanned.relative] at hpre
      rcases prefix_pair hpre with hnil | hdir | hfile
      · exact .inl hnil
      · refine .inr (.inr ⟨original, horiginal, .inl ⟨hdir, h.isDirectory hnode ?_⟩⟩)
        intro f hf
        rw [hdir]
        rcases List.mem_append.mp hf with hf | hf
        · obtain ⟨copy', hcopy', rfl⟩ := List.mem_map.mp hf
          obtain ⟨original', -, name', -, hplanned'⟩ := (planOriginals_ok hplan).2 copy' hcopy'
          simp [hplanned'.relative]
        · rw [List.mem_singleton.mp hf]
          simp [Ne.symm (abi_ne_report original.abi)]
      · exact .inr (.inr ⟨original, horiginal, .inr ⟨name, hname, hfile⟩⟩)
  dir := (Tree.isDirectory_iff h.output_ne).mpr h.dir
  apart := h.nodup

/-- What was there, and not at the output, is there still. -/
theorem New.survives {report : List (Units × Value Double)} (hdrawn : Drawn t output name t₁ u)
    (hclear : Clear t output name) (h : New utf8 t₁ output name copies report v) {q : Path}
    (hnode : t.node q ≠ none) (hq : ¬output <+: q) : v.node q = t.node q := by
  rw [h.off, hdrawn.grown.keeps q hnode]
  rintro ((htemporary | houtput) | hbackup)
  · exact hnode (hdrawn.fresh htemporary).2
  · exact hq houtput
  · exact hnode (taken_eq_false hclear.backup hbackup)

/-- The next run accepts what this one has put at the output. -/
theorem New.owned (hplan : planCopies sha256 inspect t verified linked = .ok copies)
    (h : New utf8 t₁ output name copies (reportMembers verified) v) :
    Owned v output (expectedTexts (copies.map fun copy => relativeText copy.relative)) := by
  intro rest hrest hnode
  refine ⟨?_, h.plain rest hnode⟩
  rw [expectedTexts]
  rcases h.within rest hnode with hreport | ⟨copy, hcopy, hpre⟩
  · rw [(prefix_singleton hreport).resolve_left hrest, relativeText_singleton]
    exact List.mem_cons_self
  · obtain ⟨original, -, name, -, hplanned⟩ := (planOriginals_ok hplan).2 copy hcopy
    have hmem : relativeText copy.relative ∈ copies.map fun copy => relativeText copy.relative :=
      List.mem_map.mpr ⟨copy, hcopy, rfl⟩
    apply List.mem_cons_of_mem
    rw [List.mem_append]
    rw [hplanned.relative] at hpre hmem
    rcases (prefix_pair hpre).resolve_left hrest with hdir | hfile
    · have hdirname := dirname_relativeText original.abi hplanned.library
      right
      rw [hdir, relativeText_singleton, ← hdirname]
      exact List.mem_map_of_mem hmem
    · left
      rwa [hfile]

theorem New.lists (h : New utf8 t₁ output name copies (reportMembers verified) v) :
    Lists utf8 v output (copies.map fun copy => relativeText copy.relative) := by
  refine ⟨_, reread (.object (fullReport verified copies)), h.look_report, ?_,
    listedPaths_report verified copies⟩
  rw [reportText, utf8.decode_encode, jsonParse_lines]
  rfl

theorem New.accepted (hdrawn : Drawn t output name t₁ u) (hclear : Clear t output name)
    (hplan : planCopies sha256 inspect t verified linked = .ok copies)
    (howned : ownedOutput utf8 t output roots = .ok output)
    (h : New utf8 t₁ output name copies (reportMembers verified) v) :
    ownedOutput utf8 v output roots = .ok output := by
  obtain ⟨-, -, hroots, -⟩ := ownedOutput_ok_iff.mp howned
  have hdir := (Tree.isDirectory_iff h.output_ne).mpr h.dir
  obtain ⟨attr, hnode⟩ := h.dir
  have hnearest : nearestOf v output.reverse = .ok output :=
    nearestOf_eq.mpr (.inr (by rw [hnode]; simp))
  refine ownedOutput_ok_iff.mpr
    ⟨rfl, ⟨output, hnearest, hdir⟩, fun root hroot => ?_, fun _ => ?_⟩
  · obtain ⟨hexists, hne, hinside, houtside⟩ := checkRoot_ok_iff.mp (hroots root hroot)
    refine checkRoot_ok_iff.mpr ⟨hexists.imp id fun hnode => ?_, hne, hinside, houtside⟩
    rwa [h.survives hdrawn hclear hnode (houtside.resolve_left h.output_ne)]
  · exact (h.owned hplan).checkOutput h.lists

/-! ### The linker's output -/

/-- A linked directory holds nothing but the files that were planned for. -/
theorem linked_cases (hrooted : Rooted t)
    (hplan : planCopies sha256 inspect t verified linked = .ok copies) {original : Original}
    (horiginal : original ∈ verified.originals) {rest : Path}
    (hnode : t.node (linked ++ [original.abi.name] ++ rest) ≠ none) :
    rest = [] ∨ ∃ name bytes, rest = [name] ∧ isLibraryName name = true ∧
      t.look (linked ++ [original.abi.name] ++ [name]) = .file bytes := by
  cases rest with
  | nil => exact .inl rfl
  | cons name rest =>
    have hfile (hname : t.node (linked ++ [original.abi.name] ++ [name]) ≠ none) :
        isLibraryName name = true ∧ ∃ bytes,
          t.look (linked ++ [original.abi.name] ++ [name]) = .file bytes := by
      obtain ⟨copy, -, hplanned⟩ :=
        ((planOriginals_ok hplan).1 original horiginal).2 name (mem_readdirSync.mpr hname)
      obtain ⟨bytes, hlook, -⟩ := hplanned.entry
      exact ⟨hplanned.library, bytes, hlook⟩
    by_cases hrest : rest = []
    · subst hrest
      obtain ⟨hlibrary, bytes, hlook⟩ := hfile hnode
      exact .inr ⟨name, bytes, rfl, hlibrary, hlook⟩
    · have hsplit : linked ++ [original.abi.name] ++ name :: rest =
          linked ++ [original.abi.name] ++ [name] ++ rest := by simp
      rw [hsplit] at hnode
      obtain ⟨attr, hdir⟩ := hrooted.above (by simp) hrest hnode
      obtain ⟨-, bytes, hlook⟩ := hfile (by rw [hdir]; simp)
      obtain ⟨attr', hfile⟩ := Tree.look_eq_file.mp hlook
      rw [hdir] at hfile
      cases hfile

theorem report_no_library : isLibraryName reportName = false := by decide

theorem ownedOutput_plain (howned : ownedOutput utf8 t output roots = .ok output)
    (houtput : output ≠ []) : t.node output = none ∨ ∃ attr, t.node output = some (.dir attr) := by
  obtain ⟨-, ⟨current, hnearest, hdir⟩, -, -⟩ := ownedOutput_ok_iff.mp howned
  by_cases hnode : t.node output = none
  · exact .inl hnode
  · rw [nearestOf_eq.mpr (.inr hnode)] at hnearest
    cases hnearest
    exact .inr ((Tree.isDirectory_iff houtput).mp hdir)

/-- The linked files stay as they are, wherever the output is. -/
theorem New.linked_kept {report : List (Units × Value Double)} (hrooted : Rooted t)
    (hdrawn : Drawn t output name t₁ u) (hclear : Clear t output name)
    (hplan : planCopies sha256 inspect t verified linked = .ok copies)
    (howned : ownedOutput utf8 t output roots = .ok output) (hlinked : linked ∈ roots)
    (h : New utf8 t₁ output name copies report v) {original : Original}
    (horiginal : original ∈ verified.originals) {rest : Path}
    (hnode : t.node (linked ++ [original.abi.name] ++ rest) ≠ none) :
    v.node (linked ++ [original.abi.name] ++ rest) =
      t.node (linked ++ [original.abi.name] ++ rest) := by
  obtain ⟨-, -, hroots, hcheck⟩ := ownedOutput_ok_iff.mp howned
  obtain ⟨-, -, -, houtside⟩ := checkRoot_ok_iff.mp (hroots linked hlinked)
  -- an output that is a linked directory would have a report, which cannot be linked
  have hdir : ¬output <+: linked ++ [original.abi.name] := by
    intro hpre
    rcases List.prefix_concat_iff.mp hpre with heq | hpre
    · have hexists : t.node output ≠ none := by
        have hdirectory := ((planOriginals_ok hplan).1 original horiginal).1
        obtain ⟨attr, hdir⟩ := (Tree.isDirectory_iff (by simp)).mp hdirectory
        rw [heq, hdir]
        simp
      obtain ⟨_, ⟨_, _, hlook, _⟩, _⟩ := (checkOutput_ok_iff hrooted).mp (hcheck (.inr hexists))
      obtain ⟨attr, hfile⟩ := Tree.look_eq_file.mp hlook
      rw [heq] at hfile
      have hreport : t.node (linked ++ [original.abi.name] ++ [reportName]) ≠ none := by
        rw [hfile]
        simp
      rcases linked_cases hrooted hplan horiginal hreport with hnil | ⟨_, _, hname, hlibrary, _⟩
      · cases hnil
      · rw [← (List.cons.inj hname).1, report_no_library] at hlibrary
        cases hlibrary
    · exact houtside.resolve_left h.output_ne hpre
  apply h.survives hdrawn hclear hnode
  intro hpre
  rcases linked_cases hrooted hplan horiginal hnode with rfl | ⟨name, bytes, rfl, _, hlook⟩
  · rw [List.append_nil] at hpre
    exact hdir hpre
  · rcases List.prefix_concat_iff.mp hpre with heq | hpre
    · obtain ⟨attr, hfile⟩ := Tree.look_eq_file.mp hlook
      rw [← heq] at hfile
      rcases ownedOutput_plain howned h.output_ne with hnone | ⟨attr', hdirectory⟩
      · rw [hnone] at hfile
        cases hfile
      · rw [hdirectory] at hfile
        cases hfile
    · exact hdir hpre

/-- A new place in the directory of the output is not in a directory apart from the output. -/
theorem apart_of_free {output linked : Path} {name : Name}
    (hexists : t.node linked ≠ none) (hapart : ¬linked <+: output)
    (hfree : ∀ q ∈ Beneath (output.dropLast ++ [name]), t.node q = none) {q : Path}
    (hq : linked <+: q) : q ∉ Beneath (output.dropLast ++ [name]) := by
  intro hplace
  rcases List.prefix_or_prefix_of_prefix hq hplace with hpre | hpre
  · rcases List.prefix_concat_iff.mp hpre with heq | hpre
    · exact hexists (hfree linked (by rw [heq]; exact List.prefix_rfl))
    · exact hapart (hpre.trans (List.dropLast_prefix _))
  · exact hexists (hfree linked hpre)

/-- Nothing changes in the linked directory, unless it is the root. -/
theorem New.linked_same {report : List (Units × Value Double)} (hdrawn : Drawn t output name t₁ u)
    (hclear : Clear t output name) (howned : ownedOutput utf8 t output roots = .ok output)
    (hlinked : linked ∈ roots) (h : New utf8 t₁ output name copies report v) (hroot : linked ≠ [])
    {q : Path} (hq : linked <+: q) : v.node q = t.node q := by
  obtain ⟨-, -, hroots, -⟩ := ownedOutput_ok_iff.mp howned
  obtain ⟨hexists, -, hinside, houtside⟩ := checkRoot_ok_iff.mp (hroots linked hlinked)
  have hnode := hexists.resolve_left hroot
  have hapart := hinside.resolve_left hroot
  rw [h.off, hdrawn.grown.off]
  · rintro ⟨-, hpre⟩
    exact hapart ((hq.trans hpre).trans (List.dropLast_prefix _))
  · rintro ((htemporary | houtput) | hbackup)
    · exact apart_of_free hnode hapart (fun _ h => (hdrawn.fresh h).2) hq htemporary
    · rcases List.prefix_or_prefix_of_prefix hq houtput with hpre | hpre
      · exact hapart hpre
      · exact houtside.resolve_left h.output_ne hpre
    · exact apart_of_free hnode hapart (fun _ h => taken_eq_false hclear.backup h) hq hbackup

end Complete

/-! ### Whole runs -/

section Runs

variable {sha256 : Bytes → String} {damage : ℕ → Bytes → Bytes} {leads : Tree → Path → Bool}
  {inspect : Bytes → Except String Inspected} {utf8 : Utf8}
  {t t₁ u v : Tree} {verified : Verified} {linked output : Path} {name : Name} {copies : List Copy}
  {roots : List Path}

/-- The old output is at `place`, whole. To the root directory something may have been added. -/
def OldAt (t v : Tree) (output place : Path) : Prop :=
  ∀ rest, output ≠ [] ∨ t.node (output ++ rest) ≠ none →
    v.node (place ++ rest) = t.node (output ++ rest)

theorem unmoved_old (hdrawn : Drawn t output name t₁ u) (hne : output.dropLast ++ [name] ≠ output)
    (h : t₁.AgreeOff (Beneath (output.dropLast ++ [name])) v) : OldAt t v output output := by
  intro rest hrest
  rw [h, grown_same hdrawn.grown]
  intro htemporary
  by_cases hroot : output = []
  · exact hrest.resolve_left (absurd hroot) (hdrawn.fresh htemporary).2
  · exact beside (length_output hroot name).symm hne htemporary (List.prefix_append _ _)

/-- A new name is not that of a directory which is there. -/
theorem Drawn.apart (h : Drawn t output name t₁ u) (hold : t.isDirectory output = true) :
    output.dropLast ++ [name] ≠ output := by
  intro heq
  have hroot : output ≠ [] := by
    rw [← heq]
    simp
  obtain ⟨attr, hnode⟩ := (Tree.isDirectory_iff hroot).mp hold
  rw [← heq, (h.fresh List.prefix_rfl).2] at hnode
  cases hnode

theorem Aside.old (hdrawn : Drawn t output name t₁ u) (hold : t.isDirectory output = true)
    (h : Aside t₁ output name v) : OldAt t v output (output.dropLast ++ [backupName name]) := by
  intro rest _
  rw [h.2 (hdrawn.apart hold) rest, grown_same hdrawn.grown]

/-- What a run guarantees at its end and, as it may die at any step, at every moment before. -/
structure Restorable (utf8 : Utf8) (t : Tree) (verified : Verified) (linked output : Path)
    (copies : List Copy) (roots : List Path) (ds : Schedule) (o : Outcome Failure Unit) (v : Tree) :
    Prop where
  whole : t.isDirectory output = true → OldAt t v output output ∨
    (∃ name, (draw output t ds).1 = .ok name ∧
      OldAt t v output (output.dropLast ++ [backupName name])) ∨
    Complete utf8 t verified linked output copies v
  ended : match o with
    | .ok _ => Complete utf8 t verified linked output copies v ∧
        (∀ original ∈ verified.originals, ∀ rest,
          t.node (linked ++ [original.abi.name] ++ rest) ≠ none →
          v.node (linked ++ [original.abi.name] ++ rest) =
            t.node (linked ++ [original.abi.name] ++ rest)) ∧
        (linked ≠ [] → ∀ q, linked <+: q → v.node q = t.node q) ∧
        ownedOutput utf8 v output roots = .ok output
    | .error failure =>
        (failure ≠ .system "rm" → ∀ rest, v.node (output ++ rest) = t.node (output ++ rest)) ∧
        ((∀ name, (draw output t ds).1 = .ok name → output.dropLast ++ [name] ≠ output) →
          OldAt t v output output ∨ Complete utf8 t verified linked output copies v)
    | .died => True
    | .panicked => False

theorem Finished.restorable {o : Outcome Failure Unit} {ds : Schedule} (hrooted : Rooted t)
    (hdrawn : Drawn t output name t₁ u) (hclear : Clear t output name)
    (hname : (draw output t ds).1 = .ok name)
    (hplan : planCopies sha256 inspect t verified linked = .ok copies)
    (hverified : Hashed sha256 t verified)
    (howned : ownedOutput utf8 t output roots = .ok output) (hlinked : linked ∈ roots)
    (h : Finished utf8 t₁ output name copies (reportMembers verified) o v) :
    Restorable utf8 t verified linked output copies roots ds o v where
  whole hold := by
    rcases h.1 with hunmoved | haside | hnew
    · exact .inl (unmoved_old hdrawn (hdrawn.apart hold) hunmoved)
    · exact .inr (.inl ⟨name, hname, haside.old hdrawn hold⟩)
    · exact .inr (.inr (hnew.complete hdrawn hplan hverified))
  ended := by
    have hended := h.2
    cases o with
    | ok _ =>
      have hnew : New utf8 t₁ output name copies (reportMembers verified) v := hended
      refine ⟨hnew.complete hdrawn hplan hverified, ?_, ?_, ?_⟩
      · intro original horiginal rest hnode
        exact hnew.linked_kept hrooted hdrawn hclear hplan howned hlinked horiginal hnode
      · exact fun hroot q hq => hnew.linked_same hdrawn hclear howned hlinked hroot hq
      · exact hnew.accepted hdrawn hclear hplan howned
    | error failure =>
      refine ⟨fun hne rest => ?_, fun hname' => hended.2.imp ?_ ?_⟩
      · rw [hended.1 hne, grown_same hdrawn.grown]
      · exact unmoved_old hdrawn (hname' name hname)
      · exact fun hnew => hnew.complete hdrawn hplan hverified
    | panicked => exact hended
    | died => trivial

/-- A run that draws no name leaves the output alone. -/
theorem grown_restorable {o : Outcome Failure Unit} {ds : Schedule}
    (h : t.Grown output.dropLast v) (ho : (∃ failure, o = .error failure) ∨ o = .died) :
    Restorable utf8 t verified linked output copies roots ds o v where
  whole _ := .inl fun rest _ => grown_same h rest
  ended := by
    rcases ho with ⟨failure, rfl⟩ | rfl
    · exact ⟨fun _ => grown_same h, fun _ => .inl fun rest _ => grown_same h rest⟩
    · trivial

theorem stageCopies_restorable (hrooted : Rooted t)
    (hplan : planCopies sha256 inspect t verified linked = .ok copies)
    (hverified : Hashed sha256 t verified)
    (howned : ownedOutput utf8 t output roots = .ok output) (hlinked : linked ∈ roots)
    (hdamage : ∀ n bytes, sha256 (damage n bytes) = sha256 bytes → damage n bytes = bytes)
    (ds : Schedule) (hclear : ∀ name, (draw output t ds).1 = .ok name → Clear t output name) :
    Restorable utf8 t verified linked output copies roots ds
      (stageCopies sha256 damage leads utf8 output copies (reportMembers verified) t ds).1
      (stageCopies sha256 damage leads utf8 output copies (reportMembers verified) t ds).2.1 := by
  have hdraw := draw_spec t output ds
  rw [stageCopies, Proc.bind_eq]
  rcases hrun : draw output t ds with ⟨o, u, rest⟩
  rw [hrun] at hdraw
  cases o with
  | ok name =>
    obtain ⟨t₁, hdrawn⟩ := hdraw
    have hname : (draw output t ds).1 = .ok name := by rw [hrun]
    have hready : ∀ copy ∈ copies, Ready sha256 t₁ copy :=
      fun copy hcopy => (plan_ready hplan hverified copy hcopy).drawn hdrawn
    have hfinished : Holds _ _ (Finished utf8 t₁ output name copies (reportMembers verified)) :=
      finished_spec leads hdrawn (hclear name hname) (ownedOutput_plain howned) hdamage hready
    exact (hfinished rest).restorable hrooted hdrawn
      (hclear name hname) hname hplan hverified howned
      hlinked
  | error failure => exact grown_restorable hdraw (.inl ⟨failure, rfl⟩)
  | panicked => exact hdraw.elim
  | died => exact grown_restorable hdraw (.inr rfl)

/-- Whatever stands at an output is the report, or listed there, or the directory of what is listed,
and no link. -/
def Known (utf8 : Utf8) (t : Tree) (output : Path) : Prop :=
  ∃ paths, Lists utf8 t output paths ∧ ∀ rest, rest ≠ [] → t.node (output ++ rest) ≠ none →
    (relativeText rest = text reportName ∨ relativeText rest ∈ paths ∨
      ∃ path ∈ paths, relativeText rest = dirname path) ∧
    t.node (output ++ rest) ≠ some .symlink

theorem known_of_accepted (hrooted : Rooted t)
    (howned : ownedOutput utf8 t output roots = .ok output)
    (hexists : output = [] ∨ t.node output ≠ none) : Known utf8 t output := by
  obtain ⟨-, -, -, hcheck⟩ := ownedOutput_ok_iff.mp howned
  obtain ⟨paths, hlists, howned⟩ := (checkOutput_ok_iff hrooted).mp (hcheck hexists)
  refine ⟨paths, hlists, fun rest hrest hnode => ?_⟩
  obtain ⟨hmem, hplain⟩ := howned rest hrest hnode
  constructor
  · rw [expectedTexts, List.mem_cons, List.mem_append, List.mem_map] at hmem
    rcases hmem with hreport | hlisted | ⟨path, hpath, hdir⟩
    · exact .inl hreport
    · exact .inr (.inl hlisted)
    · exact .inr (.inr ⟨path, hpath, hdir.symm⟩)
  · intro hlink
    rw [hlink] at hplain
    exact hplain

/-- Unless something is at the backup path, or the output is there, a run ends with exactly what was
planned at the output or leaves it as it was, at every moment one of the two is whole, and only an
output of known files is ever replaced. -/
theorem staging_restorable (hrooted : Rooted t)
    (hplan : planCopies sha256 inspect t verified linked = .ok copies)
    (hverified : Hashed sha256 t verified)
    (howned : ownedOutput utf8 t output roots = .ok output) (hlinked : linked ∈ roots)
    (hdamage : ∀ n bytes, sha256 (damage n bytes) = sha256 bytes → damage n bytes = bytes) :
    (∀ ds, (∀ name, (draw output t ds).1 = .ok name → Clear t output name) →
      Restorable utf8 t verified linked output copies roots ds
        (stageCopies sha256 damage leads utf8 output copies (reportMembers verified) t ds).1
        (stageCopies sha256 damage leads utf8 output copies (reportMembers verified) t ds).2.1) ∧
    ∀ (t : Tree) (output : Path) (roots : List Path), Rooted t →
      ownedOutput utf8 t output roots = .ok output → output = [] ∨ t.node output ≠ none →
      Known utf8 t output :=
  ⟨stageCopies_restorable hrooted hplan hverified howned hlinked hdamage,
    fun _ _ _ => known_of_accepted⟩

end Runs

/-! ### A linked addon -/

/-- The code units of what is no text of characters. -/
def fromPairs : Bytes → Units
  | high :: low :: bytes => .ofNat (high.toNat * 256 + low.toNat) :: fromPairs bytes
  | _ => []

def toPairs (u : Units) : Bytes :=
  u.flatMap fun unit => [.ofNat (unit.toNat / 256), .ofNat (unit.toNat % 256)]

theorem fromPairs_toPairs (u : Units) : fromPairs (toPairs u) = u := by
  induction u with
  | nil => rfl
  | cons unit u ih =>
    have hbound : unit.toNat < 65536 := unit.toNat_lt
    have hhigh : (UInt8.ofNat (unit.toNat / 256)).toNat = unit.toNat / 256 :=
      Text.toNat_byte (by omega)
    have hlow : (UInt8.ofNat (unit.toNat % 256)).toNat = unit.toNat % 256 :=
      Text.toNat_byte (by omega)
    have hwhole : unit.toNat / 256 * 256 + unit.toNat % 256 = unit.toNat := by omega
    change UInt16.ofNat _ :: fromPairs (toPairs u) = _
    rw [ih, hhigh, hlow, hwhole, UInt16.ofNat_toNat]

/-- UTF-8, and something else for what is no text of characters. -/
def utf8Text : Utf8 where
  encode u := match decodeUtf16 u with
    | some cs => Text.encodeUtf8 cs
    | none => 0xFF :: toPairs u
  decode bytes := match Text.decodeUtf8 bytes with
    | some cs => encodeUtf16 cs
    | none => fromPairs (bytes.drop 1)
  decode_encode v := by
    generalize jsonLines v ++ [0x0A] = u
    cases hu : decodeUtf16 u with
    | some cs =>
      simp only [Text.decodeUtf8_encodeUtf8]
      exact (decodeUtf16_iff.mp hu).symm
    | none =>
      have hnone : Text.decodeUtf8 (0xFF :: toPairs u) = none := by
        simp [Text.decodeUtf8, Text.decodeFrom]
      simp only [hnone, List.drop_one, List.tail_cons]
      exact fromPairs_toPairs u

/-- The addon of one ABI. -/
def addonVerified : Verified where
  originals := [⟨.x86_64, ["root", "addon.bare"],
    "4bf5122f344554c53bde2ebb8cd2b7e3d1600ad631c385a5d7cce23c7785459a",
    "4a2973706aebaa0a1155888c98389b7902c374f981ef6e5d752a12a2574b2f14"⟩]
  filename := "libutexo__rgb-lightning-node-bare.0.17.0.so"
  version := "0.17.0"
  commit := "22"
  patchSha256 := "33"
  wrapperSha256 := "44"

def addonTree : Tree :=
  ((((Tree.empty.put ["root"] (.dir (ownedAttr 0o755))).put ["root", "addon.bare"]
    (.file [1] (ownedAttr 0o644))).put ["linked"] (.dir (ownedAttr 0o755))).put ["linked", "x86_64"]
    (.dir (ownedAttr 0o755))).put ["linked", "x86_64", addonVerified.filename]
    (.file [2] (ownedAttr 0o644))

def addonCopy : Copy := ⟨["root", "addon.bare"], ["x86_64", addonVerified.filename],
  "4bf5122f344554c53bde2ebb8cd2b7e3d1600ad631c385a5d7cce23c7785459a"⟩

def helperCopy : Copy := ⟨["linked", "x86_64", "libhelper.so"], ["x86_64", "libhelper.so"],
  "084fed08b978af4d7d196a7446a86b58009e636b611db16211b65a9aadff29c5"⟩

/-- The output of an earlier run, which the addon alone was linked for, and a library linked
since. -/
def relinkedTree : Tree :=
  ((((addonTree.put ["out"] (.dir (ownedAttr 0o700))).put ["out", "x86_64"]
    (.dir (ownedAttr 0o777))).put ["out", "x86_64", addonVerified.filename]
    (.file [1] (ownedAttr 0o644))).put ["out", reportName]
    (.file (utf8Text.encode (reportText (reportMembers addonVerified) [addonCopy]))
      (ownedAttr 0o644))).put
    ["linked", "x86_64", "libhelper.so"] (.file [3] (ownedAttr 0o644))

def addonSha256 (bytes : Bytes) : String :=
  if bytes = [1] then "4bf5122f344554c53bde2ebb8cd2b7e3d1600ad631c385a5d7cce23c7785459a"
  else if bytes = [3] then "084fed08b978af4d7d196a7446a86b58009e636b611db16211b65a9aadff29c5"
  else "dbc1b4c900ffe48d575b5da5c638040125f65db0fe3e24494b76ea986457d986"

/-- The library that is linked beside the addon. -/
def helperElf : Elf where
  arch := some "x86_64"
  addressSize := some "64bit"
  dataEncoding := some "LittleEndian"
  type := some "SharedObject (0x3)"
  programHeaders := none
  sections := none

def addonInspect (bytes : Bytes) : Except String Inspected :=
  if bytes = [3] then .ok ⟨helperElf, some "libhelper.so", some ["libc.so"]⟩
  else .error "llvm-readobj"

theorem rooted_of_names {t : Tree}
    (h : ∀ q ∈ t.names, (t.node q).isSome = true → t.hasParent q = true) : Rooted t :=
  fun q hq =>
    h q (t.complete q (Option.isSome_iff_ne_none.mpr hq)) (Option.isSome_iff_ne_none.mpr hq)

def addonRun (t : Tree) (output : Path) (copies : List Copy) (ds : Schedule) :
    Outcome Failure Unit × Tree × Schedule :=
  stageCopies addonSha256 (fun _ bytes => bytes) (fun _ _ => false) utf8Text output copies
    (reportMembers addonVerified) t ds

def addonRoots : List Path := [["root"], ["linked"]]

/-- The step after the first `n` is the first one that fails. -/
def failingAfter (n : ℕ) : Schedule := List.replicate n ⟨.proceed, 0⟩ ++ [⟨.refuse, 0⟩]

theorem relinked_rooted : Rooted relinkedTree := rooted_of_names (by decide)

theorem relinked_hashed : Hashed addonSha256 relinkedTree addonVerified := by
  intro original horiginal
  rw [List.mem_singleton.mp horiginal]
  exact ⟨[1], by decide, rfl⟩

theorem relinked_plan : planCopies addonSha256 addonInspect relinkedTree addonVerified ["linked"] =
    .ok [helperCopy, addonCopy] := rfl

theorem relinked_known : Owned relinkedTree ["out"]
    (expectedTexts ([addonCopy].map fun copy => relativeText copy.relative)) := by
  intro rest hrest hnode
  have hmem := relinkedTree.complete (["out"] ++ rest) (Option.isSome_iff_ne_none.mpr hnode)
  have hplaces : rest = [reportName] ∨ rest = ["x86_64", addonVerified.filename] ∨
      rest = ["x86_64"] := by
    simpa [relinkedTree, addonTree, Tree.put, Tree.empty, hrest] using hmem
  have hlibrary : isLibraryName addonVerified.filename = true := by decide
  rcases hplaces with rfl | rfl | rfl
  · rw [relativeText_singleton]
    exact ⟨List.mem_cons_self, trivial⟩
  · exact ⟨List.mem_cons_of_mem _ (List.mem_append_left _ List.mem_cons_self), trivial⟩
  · refine ⟨List.mem_cons_of_mem _ (List.mem_append_right _ ?_), trivial⟩
    have hdirectory := dirname_relativeText .x86_64 hlibrary
    rw [relativeText_singleton]
    exact List.mem_map.mpr ⟨_, List.mem_cons_self, hdirectory⟩

theorem relinked_owned : ownedOutput utf8Text relinkedTree ["out"] addonRoots = .ok ["out"] := by
  have hlists : Lists utf8Text relinkedTree ["out"]
      ([addonCopy].map fun copy => relativeText copy.relative) := by
    refine ⟨_, reread (.object (fullReport addonVerified [addonCopy])), rfl, ?_,
      listedPaths_report addonVerified [addonCopy]⟩
    rw [reportText, utf8Text.decode_encode, jsonParse_lines]
    rfl
  refine ownedOutput_ok_iff.mpr ⟨rfl, ⟨["out"], rfl, rfl⟩, ?_, fun _ =>
    relinked_known.checkOutput hlists⟩
  rintro root hroot
  rcases List.mem_cons.mp hroot with rfl | hroot
  · rfl
  · rw [List.mem_singleton.mp hroot]
    rfl

theorem relinked_clear (ds : Schedule) (hdraw : (draw ["out"] relinkedTree ds).1 =
    .ok (Restore.tempName stem 0)) (name : Name) (h : (draw ["out"] relinkedTree ds).1 = .ok name) :
    Clear relinkedTree ["out"] name := by
  rw [hdraw] at h
  cases h
  exact ⟨by decide, by decide⟩

/-- Both libraries take the place of the addon that was staged before, and a promotion that fails
brings it back. -/
theorem staging_restorable_addon :
    ((addonRun relinkedTree ["out"] [helperCopy, addonCopy] []).1 = .ok () ∧
      Restorable utf8Text relinkedTree addonVerified ["linked"] ["out"] [helperCopy, addonCopy]
        addonRoots [] (addonRun relinkedTree ["out"] [helperCopy, addonCopy] []).1
        (addonRun relinkedTree ["out"] [helperCopy, addonCopy] []).2.1) ∧
    (addonRun relinkedTree ["out"] [helperCopy, addonCopy] (failingAfter 26)).1 =
      .error (.system "rename") ∧
    Restorable utf8Text relinkedTree addonVerified ["linked"] ["out"] [helperCopy, addonCopy]
      addonRoots (failingAfter 26)
      (addonRun relinkedTree ["out"] [helperCopy, addonCopy] (failingAfter 26)).1
      (addonRun relinkedTree ["out"] [helperCopy, addonCopy] (failingAfter 26)).2.1 := by
  have hrestorable (ds : Schedule)
      (hdraw : (draw ["out"] relinkedTree ds).1 = .ok (Restore.tempName stem 0)) :
      Restorable utf8Text relinkedTree addonVerified ["linked"] ["out"] [helperCopy, addonCopy]
        addonRoots ds (addonRun relinkedTree ["out"] [helperCopy, addonCopy] ds).1
        (addonRun relinkedTree ["out"] [helperCopy, addonCopy] ds).2.1 :=
    (staging_restorable relinked_rooted relinked_plan relinked_hashed relinked_owned
      (by simp [addonRoots]) fun _ _ _ => rfl).1 ds (relinked_clear ds hdraw)
  exact ⟨⟨by decide, hrestorable [] rfl⟩, by decide, hrestorable (failingAfter 26) rfl⟩

/-! ### What an interrupted run has left behind -/

/-- A directory at the backup path that the next run draws. -/
def leftoverTree : Tree :=
  addonTree.put [backupName (Restore.tempName stem 0)] (.dir (ownedAttr 0o755))

theorem leftover_rooted : Rooted leftoverTree := rooted_of_names (by decide)

theorem leftover_hashed : Hashed addonSha256 leftoverTree addonVerified := by
  intro original horiginal
  rw [List.mem_singleton.mp horiginal]
  exact ⟨[1], by decide, rfl⟩

/-- The leftover takes the place of an output that was absent; and an output that has the name of
the backup path is removed by the run that has put it there. -/
theorem staging_restores_leftover :
    (Rooted leftoverTree ∧ Hashed addonSha256 leftoverTree addonVerified ∧
      planCopies addonSha256 addonInspect leftoverTree addonVerified ["linked"] = .ok [addonCopy] ∧
      ownedOutput utf8Text leftoverTree ["out"] addonRoots = .ok ["out"]) ∧
    leftoverTree.node ["out"] = none ∧
    (addonRun leftoverTree ["out"] [addonCopy] (failingAfter 14)).1 = .error (.system "rename") ∧
    (addonRun leftoverTree ["out"] [addonCopy] (failingAfter 14)).2.1.node ["out"] ≠ none ∧
    (addonRun addonTree [backupName (Restore.tempName stem 0)] [addonCopy] []).1 = .ok () ∧
    (addonRun addonTree [backupName (Restore.tempName stem 0)] [addonCopy] []).2.1.node
      [backupName (Restore.tempName stem 0)] = none :=
  ⟨⟨leftover_rooted, leftover_hashed, rfl, rfl⟩, by decide, by decide, by decide, by decide,
    by decide⟩

end RgbLightningNode.Android
