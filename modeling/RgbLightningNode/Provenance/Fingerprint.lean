import RgbLightningNode.Text.Framing
import RgbLightningNode.Json.Characters

/-!
# The wrapper fingerprint

One hash over the names and the contents of the sources, each ended by a zero byte. No length is
hashed, so contents that hold such bytes and the name of the next file can be cut in two ways.
-/

namespace RgbLightningNode.Provenance
open Text Json

def wrapperFiles : List String :=
  ["index.js", "index.d.ts", "json-boundary.js", "binding.js", "binding.cc", "rln.h",
    "CMakeLists.txt"]

/-- `[...files].sort()`: by code units. -/
def sortFiles (files : List String) : List String :=
  files.insertionSort fun a b => ¬ encodeUtf16 b.toList < encodeUtf16 a.toList

/-- What one file adds to the hash. -/
def fileStream (contents : String → List UInt8) (file : String) : List UInt8 :=
  encodeUtf8 (file.toList ++ ['\x00']) ++ (contents file ++ encodeUtf8 ['\x00'])

def wrapperStream (files : List String) (contents : String → List UInt8) : List UInt8 :=
  (sortFiles files).flatMap (fileStream contents)

def wrapperSha256 {Digest : Type} (sha256 : List UInt8 → Digest) (files : List String)
    (contents : String → List UInt8) : Digest := sha256 (wrapperStream files contents)

/-- A name with the zero byte of the file before it. -/
def nameFrame (file : String) : List UInt8 := 0 :: (encodeUtf8 file.toList ++ [0])

/-- Of two files that follow each other, the name of the second stands in one place only. -/
def Framed (files : List String) (contents : String → List UInt8) : Prop :=
  ∀ file next, [file, next] <:+: sortFiles files →
    Once (nameFrame next) (contents file) (contents next)

theorem mem_sortFiles {files : List String} {file : String} :
    file ∈ sortFiles files ↔ file ∈ files :=
  (List.perm_insertionSort _ files).mem_iff

theorem sortFiles_nodup {files : List String} (h : files.Nodup) : (sortFiles files).Nodup :=
  (List.perm_insertionSort _ files).nodup_iff.mpr h

section Stream
variable (contents : String → List UInt8)

def pieces (files : List String) : List (List UInt8 × List UInt8) :=
  files.map fun file => (nameFrame file, contents file)

theorem fileStream_eq (file : String) :
    fileStream contents file = encodeUtf8 file.toList ++ 0 :: (contents file ++ [0]) := by
  have hzero : encodeUtf8 ['\x00'] = [0] := rfl
  rw [fileStream, encodeUtf8_append, hzero, List.append_assoc, List.singleton_append]

/-- The stream is the name of the first file and then the contents with the names between them. -/
theorem flatMap_fileStream (file : String) (files : List String) :
    (file :: files).flatMap (fileStream contents) = encodeUtf8 file.toList ++
      0 :: (framed (contents file) (pieces contents files) ++ [0]) := by
  induction files generalizing file with
  | nil => simp [fileStream_eq, pieces, framed]
  | cons next files ih =>
    rw [List.flatMap_cons, ih, fileStream_eq]
    simp [pieces, framed, nameFrame]

end Stream

variable {files : List String} {contents contents' : String → List UInt8}

theorem unambiguous_pieces {file : String} {files : List String}
    (h : ∀ a b, [a, b] <:+: file :: files → Once (nameFrame b) (contents a) (contents b)) :
    Unambiguous (contents file) (pieces contents files) := by
  induction files generalizing file with
  | nil => trivial
  | cons next files ih =>
    refine ⟨h file next ⟨[], files, rfl⟩, ih fun a b hab => h a b ?_⟩
    exact List.infix_cons hab

theorem contents_of_stream (h : Framed files contents)
    (heq : wrapperStream files contents' = wrapperStream files contents) :
    ∀ file ∈ files, contents' file = contents file := by
  intro file hfile
  rw [← mem_sortFiles] at hfile
  rw [Framed] at h
  rw [wrapperStream, wrapperStream] at heq
  cases hsorted : sortFiles files with
  | nil =>
    rw [hsorted] at hfile
    cases hfile
  | cons first rest =>
    rw [hsorted] at h heq hfile
    rw [flatMap_fileStream, flatMap_fileStream] at heq
    have hframed := (List.append_cancel_right (List.cons.inj (List.append_cancel_left heq)).2).symm
    have hnames : (pieces contents rest).map Prod.fst = (pieces contents' rest).map Prod.fst := by
      simp [pieces]
    obtain ⟨hfirst, hrest⟩ := framed_injective (unambiguous_pieces h) hnames hframed
    rcases List.mem_cons.mp hfile with rfl | hfile
    · exact hfirst.symm
    · have hpair := List.map_inj_left.mp hrest file hfile
      exact (Prod.mk.inj hpair).2.symm

/-- Two files whose contents are cut elsewhere. -/
def recut (contents : String → List UInt8) (file next : String) (front back : List UInt8) :
    String → List UInt8 :=
  fun other => if other = file then front else if other = next then back else contents other

theorem stream_recut {file next : String} {front back : List UInt8} (hdistinct : files.Nodup)
    (hnext : [file, next] <:+: sortFiles files)
    (hcut : contents file ++ (nameFrame next ++ contents next) =
      front ++ (nameFrame next ++ back)) :
    wrapperStream files (recut contents file next front back) = wrapperStream files contents := by
  obtain ⟨before, after, hsorted⟩ := hnext
  have hnodup := sortFiles_nodup hdistinct
  rw [← hsorted] at hnodup
  have hother : ∀ other ∈ before ++ after, fileStream (recut contents file next front back) other =
      fileStream contents other := by
    intro other hmem
    have hne : other ≠ file ∧ other ≠ next := by
      constructor <;> rintro rfl <;> simp [List.nodup_append] at hnodup hmem <;> grind
    rw [fileStream_eq, fileStream_eq, recut, if_neg hne.1, if_neg hne.2]
  have hfile : recut contents file next front back file = front := if_pos rfl
  have hback : recut contents file next front back next = back := by
    have hne : next ≠ file := by
      rintro rfl
      simp [List.nodup_append] at hnodup
    rw [recut, if_neg hne, if_pos rfl]
  have hpair : [file, next].flatMap (fileStream (recut contents file next front back)) =
      [file, next].flatMap (fileStream contents) := by
    rw [flatMap_fileStream, flatMap_fileStream, hfile]
    simp only [pieces, framed, List.map_cons, List.map_nil, hback, ← hcut]
  rw [wrapperStream, wrapperStream, ← hsorted]
  simp only [List.flatMap_append, hpair]
  rw [List.flatMap_congr fun other hmem => hother other (List.mem_append_left _ hmem),
    List.flatMap_congr fun other hmem => hother other (List.mem_append_right _ hmem)]

theorem takeWhile_zero {front rest : List UInt8} (h : 0 ∉ front) :
    (front ++ 0 :: rest).takeWhile (· ≠ 0) = front := by
  have hall : ∀ b ∈ front, decide (b ≠ 0) = true := by
    intro b hb
    rw [decide_eq_true_eq]
    rintro rfl
    exact h hb
  rw [List.takeWhile_append_of_pos hall]
  simp

/-- Without further zero bytes the frame is found at the first one. -/
theorem once_of_nonzero {file : String} {piece next : List UInt8} (hpiece : 0 ∉ piece)
    (hnext : 0 ∉ next) : Once (nameFrame file) piece next := by
  intro front back h
  have hcount := congrArg (List.count 0) h
  rw [List.count_append, List.count_append, List.count_append, List.count_append,
    List.count_eq_zero.mpr hpiece, List.count_eq_zero.mpr hnext] at hcount
  have hfront : 0 ∉ front := List.count_eq_zero.mp (by omega)
  have hstart := congrArg (List.takeWhile (· ≠ 0)) h
  simp only [nameFrame, List.cons_append] at hstart
  rw [takeWhile_zero hpiece, takeWhile_zero hfront] at hstart
  exact hstart.symm

theorem framed_of_nonzero (h : ∀ file ∈ files, 0 ∉ contents file) : Framed files contents := by
  intro file next hpair
  have hmem : ∀ other ∈ [file, next], other ∈ files := fun other hother =>
    mem_sortFiles.mp (hpair.subset hother)
  exact once_of_nonzero (h file (hmem file (by simp))) (h next (hmem next (by simp)))

theorem wrapperStream_binds (hdistinct : files.Nodup) (contents : String → List UInt8) :
    ((∀ contents', wrapperStream files contents' = wrapperStream files contents →
        ∀ file ∈ files, contents' file = contents file) ↔ Framed files contents) ∧
      ((∀ file ∈ files, 0 ∉ contents file) → Framed files contents) ∧
      ∀ (Digest : Type) (sha256 : List UInt8 → Digest) (contents' : String → List UInt8),
        Set.InjOn sha256 {wrapperStream files contents', wrapperStream files contents} →
          Framed files contents →
            wrapperSha256 sha256 files contents' = wrapperSha256 sha256 files contents →
              ∀ file ∈ files, contents' file = contents file := by
  refine ⟨⟨fun h file next hnext front back hcut => ?_, fun h contents' =>
    contents_of_stream h⟩, framed_of_nonzero, fun Digest sha256 contents' hinj h heq => ?_⟩
  · have hfile : file ∈ files := mem_sortFiles.mp (hnext.subset (by simp))
    have hsame := h _ (stream_recut hdistinct hnext hcut) file hfile
    rwa [recut, if_pos rfl] at hsame
  · exact contents_of_stream h (hinj (Set.mem_insert _ _) (by simp) heq)

theorem wrapperStream_binds_sample : Framed wrapperFiles (fun _ => [0x78]) :=
  (@wrapperStream_binds wrapperFiles (by decide) fun _ => [0x78]).2.1 (by decide)

/-- The text of a native source with the name of the next one in it. -/
def leftContents (file : String) : List UInt8 :=
  if file = "binding.cc" then encodeUtf8 "x\x00binding.js\x00y".toList
  else if file = "binding.js" then encodeUtf8 "z".toList else []

def rightContents (file : String) : List UInt8 :=
  if file = "binding.cc" then encodeUtf8 "x".toList
  else if file = "binding.js" then encodeUtf8 "y\x00binding.js\x00z".toList else []

theorem wrapperStream_ambiguous : wrapperFiles.Nodup ∧
    wrapperStream wrapperFiles leftContents = wrapperStream wrapperFiles rightContents ∧
    leftContents "binding.cc" ≠ rightContents "binding.cc" := by decide

end RgbLightningNode.Provenance
