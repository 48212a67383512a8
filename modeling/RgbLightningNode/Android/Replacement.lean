import RgbLightningNode.Android.StageCopies

/-!
# The old output or the new one

The two renames of a replacement, with what each leaves where. At every moment the old output is in
its place or beside it, or the new one is in its place; and unless the removal of something fails,
the new one is in its place exactly if the call returns.
-/

namespace RgbLightningNode.Android
open Faulty FileSystem Json Number
open Restore (Beneath freeName goneBelow_off mem_pathsBelow move_agreeOff move_node pathsBelow
  pathsBelow_off taken taken_eq_false tempName)

/-! ### Paths side by side -/

/-- Two paths of one length have nothing below them in common. -/
theorem beside {p q r : Path} (hlength : p.length = q.length) (hne : p ≠ q) (hp : p <+: r) :
    ¬q <+: r := by
  intro hq
  exact hne ((List.prefix_of_prefix_length_le hp hq hlength.le).eq_of_length hlength)

theorem length_output {output : Path} (houtput : output ≠ []) (name : Name) :
    output.length = (output.dropLast ++ [name]).length := by
  have hpos := List.length_pos_iff.mpr houtput
  rw [List.length_append, List.length_dropLast, List.length_singleton]
  omega

theorem dropLast_ne_concat (p : Path) (name : Name) {rest : Path} :
    ¬p ++ name :: rest <+: p := by
  intro h
  have hlength := h.length_le
  simp at hlength

theorem backupName_ne (name : Name) : backupName name ≠ name := by
  intro h
  have hlength := congrArg String.length h
  simp [backupName, String.length_append] at hlength

/-! ### What each operation can do -/

section Rules

variable {leads : Tree → Path → Bool} {u : Tree} {source target p : Path}

theorem holds_existsSync {Q : Outcome Failure Bool → Tree → Prop} 
    (hok : Q (.ok (present leads u p)) u) (hdie : Q .died u) : Holds (existsSync leads p) u Q := by
  apply holds_step
  rintro ⟨fate, n⟩
  cases fate with
  | proceed => exact hok
  | refuse => exact hok
  | panic => exact hok
  | die => exact hdie

theorem holds_renameSync {Q : Outcome Failure Unit → Tree → Prop}
    (hok : renamable u source target = true → Q (.ok ()) (u.move source target))
    (herror : Q (.error (.system "rename")) u) (hdie : Q .died u) :
    Holds (renameSync source target) u Q := by
  refine holds_primitive ?_ herror hdie
  intro _
  unfold renamed
  by_cases h : renamable u source target = true
  · rw [if_pos h]
    exact hok h
  · rw [if_neg h]
    exact herror

theorem holds_renameBack {Q : Outcome Failure Unit → Tree → Prop}
    (h : renamable u source target = true) (hok : Q (.ok ()) (u.move source target))
    (hdie : Q .died u) : Holds (renameBack source target) u Q := by
  have hrun : Q (renamed source target u).1 (renamed source target u).2 := by
    rw [renamed, if_pos h]
    exact hok
  apply holds_step
  rintro ⟨fate, n⟩
  cases fate with
  | proceed => exact hrun
  | refuse => exact hrun
  | panic => exact hrun
  | die => exact hdie

theorem holds_rmSync (u : Tree) (p : Path) : Holds (rmSync p) u (fun o u' =>
    u.AgreeOff (Beneath p) u' ∧ match o with
      | .ok _ => ∀ q ∈ Beneath p, u'.node q = none
      | .error failure => failure = .system "rm"
      | .died => True
      | .panicked => False) := by
  apply holds_mapError
  apply holds_step
  rintro ⟨fate, n⟩
  cases fate with
  | proceed =>
    refine ⟨pathsBelow_off u p, fun q hq => ?_⟩
    change (if q ∈ pathsBelow u p then none else u.node q) = none
    by_cases hsome : (u.node q).isSome = true
    · rw [if_pos (mem_pathsBelow.mpr ⟨u.complete q hsome, hq⟩)]
    · rw [Option.not_isSome_iff_eq_none.mp hsome, ite_self]
  | refuse => exact ⟨goneBelow_off u p n, rfl⟩
  | panic => exact ⟨goneBelow_off u p n, rfl⟩
  | die => exact ⟨goneBelow_off u p n, trivial⟩

end Rules

/-! ### The new directory -/

section Draw

variable {t : Tree} {output : Path}

/-- A new directory has a free name, beside an output whose directory was made where missing. -/
structure Drawn (t : Tree) (output : Path) (name : Name) (t₁ u : Tree) : Prop where
  grown : t.Grown output.dropLast t₁
  parent : t₁.isDirectory output.dropLast = true
  free : taken t₁ (output.dropLast ++ [name]) = false
  made : u = t₁.put (output.dropLast ++ [name]) (.dir (ownedAttr 0o700))
  name_eq : ∃ k, name = tempName stem k

theorem draw_spec (t : Tree) (output : Path) : Holds (draw output) t (fun o u => match o with
    | .ok name => ∃ t₁, Drawn t output name t₁ u
    | .error _ | .died => t.Grown output.dropLast u
    | .panicked => False) := by
  apply holds_bind
  apply holds_mapError
  refine ((createDirAll_grown output.dropLast t).and createDirAll_made).mono ?_
  rintro o t₁ ⟨⟨hgrown, hpanic⟩, hmade⟩
  cases o with
  | ok _ =>
    refine holds_primitive ?_ hgrown hgrown
    intro n
    by_cases hblocked : (taken t₁ (output.dropLast ++ [freeName t₁ output.dropLast stem n]) ||
        !t₁.hasParent (output.dropLast ++ [freeName t₁ output.dropLast stem n])) = true
    · simp only [hblocked, if_true]
      exact hgrown
    · simp only [hblocked]
      rw [Bool.not_eq_true, Bool.or_eq_false_iff] at hblocked
      exact ⟨t₁, hgrown, hmade rfl, hblocked.1, rfl, _, rfl⟩
  | error _ => exact hgrown
  | panicked => exact absurd rfl hpanic
  | died => exact hgrown

variable {name : Name} {t₁ u : Tree}

theorem mem_region_iff {parent q : Path} :
    q ∈ Region parent name (fun _ => True) ↔ q ∈ Beneath (parent ++ [name]) := by
  constructor
  · rintro ⟨rest, rfl, _⟩
    exact ⟨rest, by simp⟩
  · rintro ⟨rest, rfl⟩
    exact mem_temporary rest

/-- Nothing was there before, at the new name or below it. -/
theorem Drawn.fresh (h : Drawn t output name t₁ u) {q : Path}
    (hq : q ∈ Beneath (output.dropLast ++ [name])) : t₁.node q = none ∧ t.node q = none := by
  have hnone : t₁.node q = none := taken_eq_false h.free hq
  refine ⟨hnone, ?_⟩
  by_contra hne
  rw [h.grown.keeps q hne] at hnone
  exact hne hnone

/-- Making the directory of the output leaves the output itself alone. -/
theorem grown_same (h : t.Grown output.dropLast t₁) (rest : Path) :
    t₁.node (output ++ rest) = t.node (output ++ rest) := by
  apply h.off
  rintro ⟨hne, hpre⟩
  have hlength := hpre.length_le
  rw [List.length_append, List.length_dropLast] at hlength
  have hzero : output.length = 0 ∧ rest.length = 0 := by omega
  rw [List.length_eq_zero_iff.mp hzero.1, List.length_eq_zero_iff.mp hzero.2] at hne
  exact hne rfl

theorem Drawn.filling (h : Drawn t output name t₁ u) (copies : List Copy) :
    Filling output.dropLast name copies t₁ [] u := by
  have hmem : output.dropLast ++ [name] ∈ Region output.dropLast name (fun _ => True) :=
    base_mem_region
  have hlook : ∀ bytes, t₁.look (output.dropLast ++ [name]) ≠ .file bytes := by
    intro bytes hfile
    rw [Tree.look_eq_absent.mpr (h.fresh List.prefix_rfl).1] at hfile
    cases hfile
  have hparent : t₁.hasParent (output.dropLast ++ [name]) = true := by
    rw [Tree.hasParent_eq, List.dropLast_concat, h.parent]
  have hstart : Filled output.dropLast name (fun _ => True) 0o644 t₁ [] t₁ :=
    .start h.parent fun q hq => (h.fresh (mem_region_iff.mp hq)).1
  rw [h.made]
  refine ⟨hstart.put_dir hmem rfl hlook hparent, (Tree.AgreeOff.refl _ _).put ?_ _⟩
  exact .inl (List.prefix_append _ _)

end Draw

/-! ### The two renames -/

theorem move_node_of_apart {u : Tree} {source target q : Path} (hsource : ¬source <+: q)
    (htarget : ¬target <+: q) : (u.move source target).node q = u.node q :=
  move_agreeOff u source target q fun h => h.elim hsource htarget

theorem move_node_source {u : Tree} {source target q : Path} (hsource : source <+: q)
    (htarget : ¬target <+: q) : (u.move source target).node q = none := by
  simp [Tree.move, hsource, htarget]

/-- What can be moved is neither the root nor nothing. -/
theorem renamable_source {u : Tree} {source target : Path} (h : renamable u source target = true) :
    source ≠ [] ∧ target ≠ [] ∧ u.node source ≠ none := by
  simp only [renamable, Bool.and_eq_true, decide_eq_true_eq] at h
  refine ⟨h.1.1.1, h.1.1.2, ?_⟩
  intro hnone
  rw [hnone] at h
  cases h.2

/-- A directory can be moved to a free place in a directory that it does not contain. -/
theorem renamable_dir {u : Tree} {source target : Path} {attr : Attr} (hsource : source ≠ [])
    (htarget : target ≠ []) (hparent : u.hasParent target = true)
    (hdir : u.node source = some (.dir attr)) (hapart : ¬source <+: target)
    (hfree : u.node target = none) : renamable u source target = true := by
  have hpre : source.isPrefixOf target = false := by
    rw [← Bool.not_eq_true, List.isPrefixOf_iff_prefix]
    exact hapart
  simp [renamable, hsource, htarget, hparent, hdir, hpre, hfree]

section Replace

/-- The new directory stands where the output is to be, and only the three places have changed. -/
structure Replaced (u : Tree) (temporary backup output : Path) (v : Tree) : Prop where
  output_ne : output ≠ []
  apart : temporary ≠ output
  moved : ∀ rest, v.node (output ++ rest) = u.node (temporary ++ rest)
  off : u.AgreeOff (Beneath temporary ∪ Beneath output ∪ Beneath backup) v

/-- The old output stands at its backup path. -/
structure SetAside (u : Tree) (backup output : Path) (v : Tree) : Prop where
  output_ne : output ≠ []
  moved : ∀ rest, v.node (backup ++ rest) = u.node (output ++ rest)

/-- The places of a replacement: one directory holds them, and nothing is at the backup path. -/
structure Places (u : Tree) (name : Name) (output : Path) : Prop where
  parent : u.isDirectory output.dropLast = true
  temporary : ∃ attr, u.node (output.dropLast ++ [name]) = some (.dir attr)
  backup : ∀ q ∈ Beneath (output.dropLast ++ [backupName name]), u.node q = none
  backup_ne : output.dropLast ++ [backupName name] ≠ output
  output : output ≠ [] → u.node output = none ∨ ∃ attr, u.node output = some (.dir attr)

variable {leads : Tree → Path → Bool} {u : Tree} {name : Name} {output : Path}

theorem present_eq_false
    (h : output ≠ [] → u.node output = none ∨ ∃ attr, u.node output = some (.dir attr)) :
    present leads u output = false ↔ output ≠ [] ∧ u.node output = none := by
  by_cases hroot : output = []
  · simp [present, hroot, Tree.isDirectory]
  · rw [present, Bool.or_eq_false_iff, ← Bool.not_eq_true, Tree.isDirectory_iff hroot]
    rcases h hroot with hnone | ⟨attr, hdir⟩
    · simp [hnone, hroot]
    · simp [hdir]

variable (u name output) in
/-- What a replacement leaves, however it ends. -/
def Replacing : Outcome Failure Unit → Tree → Prop := fun o v => match o with
  | .ok _ => Replaced u (output.dropLast ++ [name]) (output.dropLast ++ [backupName name]) output v
  | .error _ => ∀ q, v.node q = u.node q
  | .died => (∀ q, v.node q = u.node q) ∨
      SetAside u (output.dropLast ++ [backupName name]) output v
  | .panicked => False

/-- Nothing was at the output. -/
theorem replace_absent (h : Places u name output) (houtput : output ≠ [])
    (hnone : u.node output = none) : Holds (do
      match ← .attempt (ε := Failure) (renameSync (output.dropLast ++ [name]) output) with
      | .ok _ => return ()
      | .error failure => do
        if ← existsSync leads (output.dropLast ++ [backupName name]) then
          renameBack (output.dropLast ++ [backupName name]) output
        .throw failure) u (Replacing u name output) := by
  have hapart : output.dropLast ++ [name] ≠ output := by
    intro heq
    obtain ⟨attr, hdir⟩ := h.temporary
    rw [heq, hnone] at hdir
    cases hdir
  have hfree : present leads u (output.dropLast ++ [backupName name]) = false := by
    have hbackup := h.backup _ List.prefix_rfl
    exact (present_eq_false fun _ => .inl hbackup).mpr ⟨by simp, hbackup⟩
  apply holds_bind
  apply holds_attempt
  apply holds_renameSync
  · intro _
    refine holds_pure ⟨houtput, hapart, move_node u _ _, ?_⟩
    exact (move_agreeOff u _ _).mono Set.subset_union_left
  · apply holds_bind
    apply holds_existsSync
    · rw [hfree]
      exact holds_throw fun _ => rfl
    · exact .inl fun _ => rfl
  · exact .inl fun _ => rfl

/-- Putting back what was set aside leaves everything as it was. -/
theorem put_back (h : Places u name output) (houtput : output ≠ []) (q : Path) :
    ((u.move output (output.dropLast ++ [backupName name])).move
      (output.dropLast ++ [backupName name]) output).node q = u.node q := by
  have hlength := length_output houtput (backupName name)
  by_cases hq : output <+: q
  · obtain ⟨rest, rfl⟩ := hq
    rw [move_node, move_node]
  · by_cases hbackup : output.dropLast ++ [backupName name] <+: q
    · rw [move_node_source hbackup hq, h.backup q hbackup]
    · rw [move_node_of_apart hbackup hq, move_node_of_apart hq hbackup]

/-- The old output was set aside. -/
theorem replace_present (h : Places u name output) (houtput : output ≠ [])
    (hnode : u.node output ≠ none) : Holds (do
      match ← .attempt (ε := Failure) (renameSync (output.dropLast ++ [name]) output) with
      | .ok _ => return ()
      | .error failure => do
        if ← existsSync leads (output.dropLast ++ [backupName name]) then
          renameBack (output.dropLast ++ [backupName name]) output
        .throw failure) (u.move output (output.dropLast ++ [backupName name]))
      (Replacing u name output) := by
  have hbackup := length_output houtput (backupName name)
  have htemporary := length_output houtput name
  have hsiblings : output.dropLast ++ [backupName name] ≠ output.dropLast ++ [name] := by
    intro heq
    exact backupName_ne name (List.cons.inj (List.append_cancel_left heq)).1
  have haside : SetAside u (output.dropLast ++ [backupName name]) output
      (u.move output (output.dropLast ++ [backupName name])) := ⟨houtput, move_node u _ _⟩
  obtain ⟨attr, hdir⟩ := (h.output houtput).resolve_left hnode
  have hgone : (u.move output (output.dropLast ++ [backupName name])).node output = none :=
    move_node_source List.prefix_rfl
      (beside hbackup h.backup_ne.symm List.prefix_rfl)
  have hplaced : (u.move output (output.dropLast ++ [backupName name])).node
      (output.dropLast ++ [backupName name]) = some (.dir attr) := by
    have hmoved := move_node u output (output.dropLast ++ [backupName name]) []
    rwa [List.append_nil, List.append_nil, hdir] at hmoved
  apply holds_bind
  apply holds_attempt
  apply holds_renameSync
  · intro hrenamable
    have hapart : output.dropLast ++ [name] ≠ output := by
      intro heq
      have hsource := (renamable_source hrenamable).2.2
      rw [heq, hgone] at hsource
      exact hsource rfl
    refine holds_pure ⟨houtput, hapart, fun rest => ?_, ?_⟩
    · rw [move_node]
      apply move_node_of_apart
      · exact beside htemporary.symm hapart (List.prefix_append _ _)
      · exact beside (by simp) hsiblings.symm (List.prefix_append _ _)
    · refine (move_agreeOff u _ _).mono ?_ |>.trans ((move_agreeOff _ _ _).mono ?_)
      · exact Set.union_subset_union_left _ Set.subset_union_right
      · exact Set.subset_union_left
  · apply holds_bind
    apply holds_existsSync
    · have hpresent : present leads (u.move output (output.dropLast ++ [backupName name]))
          (output.dropLast ++ [backupName name]) = true := by
        rw [← Bool.not_eq_false, present_eq_false fun _ => .inr ⟨attr, hplaced⟩, hplaced]
        simp
      have hparent : (u.move output (output.dropLast ++ [backupName name])).hasParent output =
          true := by
        rw [Tree.hasParent_eq]
        by_cases hroot : output.dropLast = []
        · rw [hroot]
          rfl
        · obtain ⟨attr', hparent⟩ := (Tree.isDirectory_iff hroot).mp h.parent
          refine (Tree.isDirectory_iff hroot).mpr ⟨attr', ?_⟩
          rw [move_node_of_apart _ (dropLast_ne_concat _ _), hparent]
          intro hpre
          have hle := hpre.length_le
          rw [hbackup, List.length_append, List.length_singleton] at hle
          omega
      have hback : renamable (u.move output (output.dropLast ++ [backupName name]))
          (output.dropLast ++ [backupName name]) output = true := by
        apply renamable_dir (by simp) houtput hparent hplaced _ hgone
        exact fun hpre => h.backup_ne (hpre.eq_of_length hbackup.symm)
      rw [hpresent]
      apply holds_bind
      refine holds_renameBack hback ?_ ?_
      · exact holds_throw (put_back h houtput)
      · exact .inr haside
    · exact .inr haside
  · exact .inr haside

theorem replace_spec (h : Places u name output) : Holds (replace leads (output.dropLast ++ [name])
    (output.dropLast ++ [backupName name]) output) u (Replacing u name output) := by
  apply holds_bind
  apply holds_existsSync
  · cases hpresent : present leads u output with
    | false =>
      obtain ⟨houtput, hnone⟩ := (present_eq_false h.output).mp hpresent
      exact replace_absent h houtput hnone
    | true =>
      apply holds_bind
      apply holds_renameSync
      · intro hrenamable
        obtain ⟨houtput, _, hnode⟩ := renamable_source hrenamable
        exact replace_present h houtput hnode
      · exact fun _ => rfl
      · exact .inl fun _ => rfl
  · exact .inl fun _ => rfl

end Replace

/-! ### A whole run -/

section Run

variable {sha256 : Bytes → String} {damage : ℕ → Bytes → Bytes} {leads : Tree → Path → Bool}
  {utf8 : Utf8}
  {t t₁ u v v' : Tree} {output : Path} {name : Name} {copies : List Copy}
  {report : List (Units × Value Double)}

/-- What the new output holds, by its path below the output. -/
def newFiles (utf8 : Utf8) (t : Tree) (copies : List Copy) (report : List (Units × Value Double)) :
    List (Path × Bytes) := allFiles utf8 [] t copies report

theorem mem_allFiles {temporary rest : Path} {bytes : Bytes} :
    (temporary ++ rest, bytes) ∈ allFiles utf8 temporary t copies report ↔
      (rest, bytes) ∈ newFiles utf8 t copies report := by
  simp [newFiles, allFiles, stagedFiles]

/-- Where anything may have changed. -/
def Touched (output : Path) (name : Name) : Set Path :=
  Beneath (output.dropLast ++ [name]) ∪ Beneath output ∪
    Beneath (output.dropLast ++ [backupName name])

/-- The new output is in its place, with the files that were planned and the way to them. -/
structure New (utf8 : Utf8) (t₁ : Tree) (output : Path) (name : Name) (copies : List Copy)
    (report : List (Units × Value Double)) (v : Tree) : Prop where
  output_ne : output ≠ []
  temporary_ne : output.dropLast ++ [name] ≠ output
  backup_ne : output.dropLast ++ [backupName name] ≠ output
  files : ∀ rest bytes, v.look (output ++ rest) = .file bytes ↔
    (rest, bytes) ∈ newFiles utf8 t₁ copies report
  plain : ∀ rest, v.node (output ++ rest) ≠ none → IsPlain (v.node (output ++ rest))
  dir : ∃ attr, v.node output = some (.dir attr)
  within : ∀ rest, v.node (output ++ rest) ≠ none →
    rest <+: [reportName] ∨ ∃ copy ∈ copies, rest <+: copy.relative
  nodup : (copies.map Copy.relative).Nodup
  off : t₁.AgreeOff (Touched output name) v

/-- Removals beside the output do not reach it. -/
theorem New.beside (h : New utf8 t₁ output name copies report v) {beside : Name}
    (hbeside : beside = name ∨ beside = backupName name)
    (hoff : v.AgreeOff (Beneath (output.dropLast ++ [beside])) v') :
    New utf8 t₁ output name copies report v' := by
  have hne : output.dropLast ++ [beside] ≠ output := by
    rcases hbeside with rfl | rfl
    · exact h.temporary_ne
    · exact h.backup_ne
  have hlength := length_output h.output_ne beside
  have hsame (rest : Path) : v'.node (output ++ rest) = v.node (output ++ rest) :=
    hoff _ (Android.beside hlength hne.symm (List.prefix_append _ _))
  have htouched : Beneath (output.dropLast ++ [beside]) ⊆ Touched output name := by
    rcases hbeside with rfl | rfl
    · exact fun q hq => .inl (.inl hq)
    · exact fun q hq => .inr hq
  have hdir := hsame []
  rw [List.append_nil] at hdir
  exact {
    h with
    files := fun rest bytes => by rw [Tree.look_congr (hsame rest), h.files]
    plain := fun rest => by
      rw [hsame rest]
      exact h.plain rest
    dir := by
      rw [hdir]
      exact h.dir
    within := fun rest => by
      rw [hsame rest]
      exact h.within rest
    off := h.off.trans (hoff.mono htouched) }

theorem look_moved {p q : Path} (h : v'.node p = v.node q) : v'.look p = v.look q := by
  simp [Tree.look, h]

/-- The directory that holds the report. -/
theorem Filling.temporary {parent : Path} (h : Filling parent name copies t₁
    (allFiles utf8 (parent ++ [name]) t₁ copies report) v) :
    ∃ attr, v.node (parent ++ [name]) = some (.dir attr) := by
  have hreport : (parent ++ [name] ++ [reportName], utf8.encode (reportText report copies)) ∈
      allFiles utf8 (parent ++ [name]) t₁ copies report := by
    simp [allFiles]
  obtain ⟨attr, hnode⟩ := Tree.look_eq_file.mp (h.filled.file_mem hreport)
  have hparent := h.filled.rooted _ (mem_temporary _) (by rw [hnode]; simp)
  rwa [Tree.hasParent_eq, List.dropLast_concat, Tree.isDirectory_iff (by simp)] at hparent

/-- What was staged is the new output once it was moved into place. -/
theorem Replaced.new (hdrawn : Drawn t output name t₁ u)
    (hbackup : output.dropLast ++ [backupName name] ≠ output)
    (hfilling : Filling output.dropLast name copies t₁
      (allFiles utf8 (output.dropLast ++ [name]) t₁ copies report) v)
    (h : Replaced v (output.dropLast ++ [name]) (output.dropLast ++ [backupName name]) output v') :
    New utf8 t₁ output name copies report v' where
  output_ne := h.output_ne
  temporary_ne := h.apart
  backup_ne := hbackup
  files rest bytes := by
    rw [look_moved (h.moved rest), hfilling.filled.look_iff _ (mem_temporary rest),
      mem_allFiles]
  plain rest hnode := by
    rw [h.moved] at hnode ⊢
    obtain ⟨n, hn⟩ := Option.ne_none_iff_exists'.mp hnode
    rw [hn]
    rcases hfilling.filled.plain _ (mem_temporary rest) n hn with ⟨attr, rfl, _⟩ | ⟨bytes, rfl⟩
    · trivial
    · trivial
  dir := by
    obtain ⟨attr, hdir⟩ := hfilling.temporary
    have hmoved := h.moved []
    rw [List.append_nil, List.append_nil, hdir] at hmoved
    exact ⟨attr, hmoved⟩
  within rest hnode := by
    rw [h.moved] at hnode
    by_contra hout
    rw [hfilling.within, (hdrawn.fresh (List.prefix_append _ _)).1] at hnode
    · exact hnode rfl
    · rintro (hpre | ⟨copy, hcopy, hpre⟩)
      · exact hout (.inl ((List.prefix_append_right_inj _).mp hpre))
      · exact hout (.inr ⟨copy, hcopy, (List.prefix_append_right_inj _).mp hpre⟩)
  nodup := by
    have hnodup := hfilling.filled.nodup
    rw [allFiles, List.map_append, List.nodup_append] at hnodup
    have hmap : (stagedFiles (output.dropLast ++ [name]) t₁ copies).map Prod.fst =
        (copies.map Copy.relative).map (output.dropLast ++ [name] ++ ·) := by
      simp [stagedFiles, Function.comp_def]
    rw [hmap] at hnodup
    exact hnodup.1.of_map _
  off := by
    refine (hfilling.filled.off.mono ?_).trans h.off
    exact fun q hq => .inl (.inl (mem_region_iff.mp hq))

/-- Nothing stands at the backup path, which is not the output itself. -/
structure Clear (t : Tree) (output : Path) (name : Name) : Prop where
  backup : taken t (output.dropLast ++ [backupName name]) = false
  backup_ne : output.dropLast ++ [backupName name] ≠ output

theorem Filling.unmoved {parent : Path} {files : List (Path × Bytes)}
    (h : Filling parent name copies t₁ files v) : t₁.AgreeOff (Beneath (parent ++ [name])) v :=
  h.filled.off.mono fun _ hq => mem_region_iff.mp hq

theorem Filling.places (hdrawn : Drawn t output name t₁ u) (hclear : Clear t output name)
    (hplain : output ≠ [] → t.node output = none ∨ ∃ attr, t.node output = some (.dir attr))
    (h : Filling output.dropLast name copies t₁
      (allFiles utf8 (output.dropLast ++ [name]) t₁ copies report) v) : Places v name output where
  parent := h.filled.top_dir
  temporary := h.temporary
  backup q hq := by
    have hapart : q ∉ Beneath (output.dropLast ++ [name]) := by
      apply Android.beside (by simp) _ hq
      intro heq
      exact backupName_ne name (List.cons.inj (List.append_cancel_left heq)).1
    rw [h.unmoved q hapart, hdrawn.grown.off q, taken_eq_false hclear.backup hq]
    rintro ⟨_, hpre⟩
    exact dropLast_ne_concat _ _ (hq.trans hpre)
  backup_ne := hclear.backup_ne
  output houtput := by
    by_cases heq : output.dropLast ++ [name] = output
    · rw [← heq]
      exact .inr (by simpa using h.temporary)
    · have hapart : output ∉ Beneath (output.dropLast ++ [name]) := by
        intro hpre
        exact heq (hpre.eq_of_length (length_output houtput name).symm)
      have hsame := grown_same hdrawn.grown []
      rw [List.append_nil] at hsame
      rw [h.unmoved output hapart, hsame]
      exact hplain houtput

/-- The old output stands at its backup path. -/
def Aside (t₁ : Tree) (output : Path) (name : Name) (v : Tree) : Prop :=
  output ≠ [] ∧ (output.dropLast ++ [name] ≠ output →
    ∀ rest, v.node (output.dropLast ++ [backupName name] ++ rest) = t₁.node (output ++ rest))

variable (utf8 t₁ output name copies report) in
/-- What a run leaves before its own directory is removed. -/
def Worked : Outcome Failure Unit → Tree → Prop := fun o v => match o with
  | .ok _ => New utf8 t₁ output name copies report v
  | .error failure => t₁.AgreeOff (Beneath (output.dropLast ++ [name])) v ∨
      failure = .system "rm" ∧ New utf8 t₁ output name copies report v
  | .died => t₁.AgreeOff (Beneath (output.dropLast ++ [name])) v ∨ Aside t₁ output name v ∨
      New utf8 t₁ output name copies report v
  | .panicked => False

theorem work_spec (hdrawn : Drawn t output name t₁ u) (hclear : Clear t output name)
    (hplain : output ≠ [] → t.node output = none ∨ ∃ attr, t.node output = some (.dir attr))
    (hdamage : ∀ n bytes, sha256 (damage n bytes) = sha256 bytes → damage n bytes = bytes)
    (hready : ∀ copy ∈ copies, Ready sha256 t₁ copy) :
    Holds (do
      fill sha256 damage utf8 (output.dropLast ++ [name]) copies report
      replace leads (output.dropLast ++ [name]) (output.dropLast ++ [backupName name]) output
      rmSync (output.dropLast ++ [backupName name])) u
      (Worked utf8 t₁ output name copies report) := by
  have hfresh : ∀ q ∈ Region output.dropLast name (fun _ => True), t₁.node q = none :=
    fun q hq => (hdrawn.fresh (mem_region_iff.mp hq)).1
  apply holds_bind
  refine ((hdrawn.filling copies).fill hfresh hdamage hready).mono ?_
  intro o w hw
  cases o with
  | error _ =>
    obtain ⟨files, hw⟩ := hw
    exact .inl hw.unmoved
  | panicked => exact hw.elim
  | died =>
    obtain ⟨files, hw⟩ := hw
    exact .inl hw.unmoved
  | ok _ =>
    have hsame {v : Tree} (hv : ∀ q, v.node q = w.node q) :
        t₁.AgreeOff (Beneath (output.dropLast ++ [name])) v :=
      fun q hq => (hv q).trans (hw.unmoved q hq)
    apply holds_bind
    refine (replace_spec (hw.places hdrawn hclear hplain)).mono ?_
    intro o v hv
    cases o with
    | error _ => exact .inl (hsame hv)
    | panicked => exact hv.elim
    | died =>
      rcases hv with hv | ⟨houtput, hmoved⟩
      · exact .inl (hsame hv)
      · refine .inr (.inl ⟨houtput, fun hne rest => ?_⟩)
        have hapart := Android.beside (length_output houtput name) hne.symm
          (List.prefix_append output rest)
        rw [hmoved, hw.unmoved _ hapart]
    | ok _ =>
      have hnew := hv.new hdrawn hclear.backup_ne hw
      refine (holds_rmSync _ _).mono ?_
      rintro o v' ⟨hoff, ho⟩
      have hnew' := hnew.beside (.inr rfl) hoff
      cases o with
      | ok _ => exact hnew'
      | error failure => exact .inr ⟨ho, hnew'⟩
      | panicked => exact ho
      | died => exact .inr (.inr hnew')

variable (utf8 t₁ output name copies report) in
/-- How a run ends, and what holds at its every step. -/
def Finished : Outcome Failure Unit → Tree → Prop := fun o v =>
  (t₁.AgreeOff (Beneath (output.dropLast ++ [name])) v ∨ Aside t₁ output name v ∨
    New utf8 t₁ output name copies report v) ∧ match o with
  | .ok _ => New utf8 t₁ output name copies report v
  | .error failure => (failure ≠ .system "rm" → ∀ q, v.node q = t₁.node q) ∧
      (t₁.AgreeOff (Beneath (output.dropLast ++ [name])) v ∨
        New utf8 t₁ output name copies report v)
  | .died => True
  | .panicked => False

variable (leads) in
theorem finished_spec (hdrawn : Drawn t output name t₁ u) (hclear : Clear t output name)
    (hplain : output ≠ [] → t.node output = none ∨ ∃ attr, t.node output = some (.dir attr))
    (hdamage : ∀ n bytes, sha256 (damage n bytes) = sha256 bytes → damage n bytes = bytes)
    (hready : ∀ copy ∈ copies, Ready sha256 t₁ copy) :
    Holds (.ensure (do
      fill sha256 damage utf8 (output.dropLast ++ [name]) copies report
      replace leads (output.dropLast ++ [name]) (output.dropLast ++ [backupName name]) output
      rmSync (output.dropLast ++ [backupName name])) fun _ => rmSync (output.dropLast ++ [name])) u
      (Finished utf8 t₁ output name copies report) := by
  -- the cleanup of a run that has put the new output into its place
  have hcleanNew (o : Outcome Failure Unit) (v : Tree)
      (hnew : New utf8 t₁ output name copies report v)
      (ho : o = .ok () ∨ o = .error (.system "rm")) :
      Holds (rmSync (output.dropLast ++ [name])) v
        (fun c v' => Finished utf8 t₁ output name copies report (o.after c) v') := by
    refine (holds_rmSync _ _).mono ?_
    rintro c v' ⟨hoff, hc⟩
    have hnew' := hnew.beside (.inl rfl) hoff
    refine ⟨.inr (.inr hnew'), ?_⟩
    cases c with
    | ok _ =>
      rcases ho with rfl | rfl
      · exact hnew'
      · exact ⟨fun hne => absurd rfl hne, .inr hnew'⟩
    | error failure => exact ⟨fun hne => absurd hc hne, .inr hnew'⟩
    | panicked => exact hc
    | died => trivial
  apply holds_ensure
  refine (work_spec hdrawn hclear hplain hdamage hready).mono ?_
  intro o v hv
  cases o with
  | ok _ => exact hcleanNew _ v hv (.inl rfl)
  | error failure =>
    rcases hv with hv | ⟨rfl, hnew⟩
    · refine (holds_rmSync _ _).mono ?_
      rintro c v' ⟨hoff, hc⟩
      have hunmoved := hv.trans hoff
      refine ⟨.inl hunmoved, ?_⟩
      cases c with
      | ok _ =>
        refine ⟨fun _ q => ?_, .inl hunmoved⟩
        by_cases hq : q ∈ Beneath (output.dropLast ++ [name])
        · rw [hc q hq, (hdrawn.fresh hq).1]
        · exact hunmoved q hq
      | error failure' => exact ⟨fun hne => absurd hc hne, .inl hunmoved⟩
      | panicked => exact hc
      | died => trivial
    · exact hcleanNew _ v hnew (.inr rfl)
  | panicked => exact hv.elim
  | died => exact ⟨hv, trivial⟩

end Run

end RgbLightningNode.Android
