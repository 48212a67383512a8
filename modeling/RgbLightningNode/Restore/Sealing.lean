import RgbLightningNode.Restore.Leftovers

/-!
# Sealing a staged wallet directory

What a wallet directory holds is described by its files and their contents, wherever it lies. The
extraction fills it, the receipt and the marker are added, and nothing else is in it.
-/

namespace RgbLightningNode.Restore
open Faulty FileSystem Text

variable {crates : Crates} {ctx : Context crates}

/-! ### A wallet directory and its contents -/

/-- What a wallet directory holds, by paths below it: the files with their contents, and directories
that must be there. -/
structure Contents where
  file : Path → Bytes → Prop
  dir : Path → Prop

/-- One file more. -/
def Contents.with (contents : Contents) (place : Path) (bytes : Bytes) : Contents where
  file rest content := if rest = place then content = bytes else contents.file rest content
  dir := contents.dir

theorem Contents.with_with (contents : Contents) (place : Path) (bytes bytes' : Bytes) :
    (contents.with place bytes).with place bytes' = contents.with place bytes' := by
  unfold Contents.with
  congr 1
  funext rest content
  by_cases hrest : rest = place
  · simp only [if_pos hrest]
  · simp only [if_neg hrest]

variable (ctx) in
/-- The wallet directory in `top` holds exactly these files, all private but for the mode that a
marker gets when it is created, and otherwise directories only. -/
structure Holding (top : Path) (contents : Contents) (s : Tree) : Prop where
  dir : ∃ attr, s.node (top ++ [ctx.fp]) = some (.dir attr) ∧ attr.owned = true
  files : ∀ rest content,
    s.look (top ++ ctx.fp :: rest) = .file content ↔ contents.file rest content
  dirs : ∀ rest, contents.dir rest → ∃ attr, s.node (top ++ ctx.fp :: rest) = some (.dir attr)
  plain : ∀ rest n, s.node (top ++ ctx.fp :: rest) = some n →
    (∃ attr, n = .dir attr ∧ attr.owned = true) ∨
      ∃ bytes attr, n = .file bytes attr ∧ (rest ≠ [markerName] → attr = ownedAttr 0o600)

namespace Holding

variable {top : Path} {contents : Contents} {s s' : Tree}

theorem congr {top' : Path} (h : Holding ctx top contents s)
    (hsame : ∀ rest, s'.node (top' ++ ctx.fp :: rest) = s.node (top ++ ctx.fp :: rest)) :
    Holding ctx top' contents s' where
  dir := by
    obtain ⟨attr, hnode, howned⟩ := h.dir
    exact ⟨attr, by rw [hsame [], hnode], howned⟩
  files rest content := by
    rw [← h.files rest content]
    unfold Tree.look
    rw [hsame rest]
  dirs rest hrest := by
    rw [hsame rest]
    exact h.dirs rest hrest
  plain rest n hn := h.plain rest n (by rw [← hsame rest, hn])

theorem below_ne (rest : Path) (hrest : rest ≠ []) : top ++ [ctx.fp] ≠ top ++ ctx.fp :: rest := by
  simp [Ne.symm hrest]

theorem put_file (h : Holding ctx top contents s) (place : Path) (bytes : Bytes) (attr : Attr)
    (hplace : place ≠ []) (hdir : ∀ attr, s.node (top ++ ctx.fp :: place) ≠ some (.dir attr))
    (hattr : place ≠ [markerName] → attr = ownedAttr 0o600) :
    Holding ctx top (contents.with place bytes)
      (s.put (top ++ ctx.fp :: place) (.file bytes attr)) where
  dir := by
    obtain ⟨attr', hnode, howned⟩ := h.dir
    exact ⟨attr', by rw [Tree.put_node_of_ne _ _ (below_ne place hplace), hnode], howned⟩
  files rest content := by
    unfold Contents.with
    by_cases hrest : rest = place
    · subst hrest
      simp [Tree.look, eq_comm]
    · have hne : top ++ ctx.fp :: rest ≠ top ++ ctx.fp :: place := by simpa using hrest
      simp only [Tree.look_congr (Tree.put_node_of_ne _ _ hne), if_neg hrest]
      exact h.files rest content
  dirs rest hrest := by
    obtain ⟨attr', hnode⟩ := h.dirs rest hrest
    have hne : rest ≠ place := by
      rintro rfl
      exact hdir attr' hnode
    exact ⟨attr', by rw [Tree.put_node_of_ne _ _ (by simpa using hne), hnode]⟩
  plain rest n hn := by
    by_cases hrest : rest = place
    · subst hrest
      rw [Tree.put_node_self] at hn
      cases hn
      exact Or.inr ⟨bytes, attr, rfl, hattr⟩
    · have hne : top ++ ctx.fp :: rest ≠ top ++ ctx.fp :: place := by simpa using hrest
      rw [Tree.put_node_of_ne _ _ hne] at hn
      exact h.plain rest n hn

theorem file_node (h : Holding ctx top contents s) {rest : Path} {content : Bytes}
    (hcontent : contents.file rest content) : ∃ attr, s.node (top ++ ctx.fp :: rest) =
      some (.file content attr) ∧ (rest ≠ [markerName] → attr = ownedAttr 0o600) := by
  obtain ⟨attr, hnode⟩ := Tree.look_eq_file.mp ((h.files rest content).mpr hcontent)
  rcases h.plain rest _ hnode with ⟨attr', hdir, _⟩ | ⟨bytes, attr', hfile, hattr⟩
  · cases hdir
  · cases hfile
    exact ⟨attr, hnode, hattr⟩

end Holding

variable (ctx) in
/-- The files and the directories of an archive, without the receipt at its top. -/
def archiveContents (entries : List Entry) : Contents where
  file rest content := ∃ e ∈ entries, Entry.isData ctx e = true ∧
    join [] (cleanName e.name) = ctx.fp :: rest ∧ content = e.content
  dir rest := ∃ e ∈ entries, e.isDir = true ∧ cleanName e.name ≠ inWallet ctx receiptName ∧
    join [] (cleanName e.name) = ctx.fp :: rest

/-- What the extraction leaves in a new staging directory. -/
theorem holding_of_staged {stage : Path} {t₀ s : Tree} {entries : List Entry} {identity : String}
    (hfresh : Fresh stage t₀) (hsound : Sound ctx entries identity)
    (h : Staged ctx stage t₀ (created ctx stage entries) s)
    (hhoused : Housed ctx stage (entries.map some) s) :
    Holding ctx stage (archiveContents ctx entries) s := by
  have hjoin : ∀ e ∈ entries, ∃ rest, join stage (cleanName e.name) = stage ++ ctx.fp :: rest ∧
      join [] (cleanName e.name) = ctx.fp :: rest := by
    intro e he
    obtain ⟨rest, hplaced⟩ := hsound.placed e he
    exact ⟨_, hplaced.below.join_eq, hplaced.below.join_eq⟩
  have hmem : ∀ rest content, (stage ++ ctx.fp :: rest, content) ∈ created ctx stage entries ↔
      (archiveContents ctx entries).file rest content := by
    intro rest content
    rw [mem_created]
    constructor
    · rintro ⟨e, he, hdata, heq⟩
      obtain ⟨rest', hstage, hroot⟩ := hjoin e he
      rw [Prod.mk.injEq, hstage] at heq
      have hrest : rest = rest' := by simpa using heq.1
      exact ⟨e, he, hdata, by rw [hroot, hrest], heq.2⟩
    · rintro ⟨e, he, hdata, hroot, hcontent⟩
      obtain ⟨rest', hstage, hroot'⟩ := hjoin e he
      rw [hroot'] at hroot
      refine ⟨e, he, hdata, ?_⟩
      rw [hstage, hroot, hcontent]
  refine ⟨?_, ?_, ?_, ?_⟩
  · obtain ⟨e, he, hstates⟩ := hsound.states
    obtain ⟨rest, hplaced⟩ := hsound.placed e he
    have hrest : rest = ["wallet_manifest.json".toList] :=
      (hplaced.below.eq_inWallet (by decide)).mp hstates.name
    have hreceipt : cleanName e.name ≠ inWallet ctx receiptName := by
      rw [ne_eq, hplaced.below.eq_inWallet (by decide), hrest]
      decide
    have htarget : join stage (cleanName e.name) =
        stage ++ [ctx.fp] ++ ["wallet_manifest.json"] := by
      rw [hplaced.below.join_eq, hrest]
      simp
    have hregion : join stage (cleanName e.name) ∈ Region stage ctx.fp Unreserved :=
      hplaced.target_mem hreceipt
    have hfile := h.file_mem (mem_created.mpr
      ⟨e, he, isData_iff.mpr ⟨hstates.file, hreceipt⟩, rfl⟩)
    have hoccupied : s.node (join stage (cleanName e.name)) ≠ none := by
      intro hnone
      rw [Tree.look_eq_absent.mpr hnone] at hfile
      cases hfile
    have hparent := h.rooted _ hregion hoccupied
    rw [Tree.hasParent_eq, htarget, List.dropLast_concat] at hparent
    obtain ⟨attr, hnode⟩ := (Tree.isDirectory_iff (by simp)).mp hparent
    refine ⟨attr, hnode, ?_⟩
    rcases h.plain _ base_mem_region _ hnode with ⟨attr', heq, howned⟩ | ⟨bytes, heq⟩
    · cases heq
      exact howned
    · cases heq
  · intro rest content
    rw [← hmem]
    by_cases hq : stage ++ ctx.fp :: rest ∈ Region stage ctx.fp Unreserved
    · exact h.look_iff _ hq content
    · have hnone : s.node (stage ++ ctx.fp :: rest) = none := by
        rw [h.off _ hq]
        exact hfresh.empty _ (List.prefix_append _ _) (by simp)
      rw [Tree.look_eq_absent.mpr hnone]
      exact iff_of_false (fun h => by cases h) fun hfile => hq (h.inside _ hfile)
  · rintro rest ⟨e, he, hdir, hreceipt, hroot⟩
    obtain ⟨rest', hstage, hroot'⟩ := hjoin e he
    rw [hroot'] at hroot
    have hmade := hhoused e (List.mem_map_of_mem he) hdir hreceipt
    rw [hstage, hroot] at hmade
    exact (Tree.isDirectory_iff (by simp)).mp hmade
  · intro rest n hn
    by_cases hq : stage ++ ctx.fp :: rest ∈ Region stage ctx.fp Unreserved
    · rcases h.plain _ hq n hn with hdir | ⟨bytes, hfile⟩
      · exact Or.inl hdir
      · exact Or.inr ⟨bytes, _, hfile, fun _ => rfl⟩
    · rw [h.off _ hq, hfresh.empty _ (List.prefix_append _ _) (by simp)] at hn
      cases hn

/-! ### Sealing the staged directory -/

section Seal

variable {top : Path} {contents : Contents} {s : Tree}

/-- A step below a directory that keeps to it, and what it leaves when it succeeds. -/
def Keeping {α : Type} (top : Path) (s : Tree) (good : α → Tree → Prop) :
    Outcome APIError α → Tree → Prop := fun o s' =>
  s.AgreeOff (Beneath top) s' ∧ match o with
    | .ok a => good a s'
    | .error _ | .died => True
    | .panicked => False

theorem Keeping.fail {α : Type} {good : α → Tree → Prop} {e : APIError} :
    Keeping top s good (.error e) s := ⟨.refl _ _, trivial⟩

theorem Keeping.dead {α : Type} {good : α → Tree → Prop} : Keeping top s good .died s :=
  ⟨.refl _ _, trivial⟩

/-- One step after another below the same directory. -/
theorem keeping_bind {α β : Type} {m : Proc Tree APIError α} {next : α → Proc Tree APIError β}
    {mid : α → Tree → Prop} {good : β → Tree → Prop} (hm : Holds m s (Keeping top s mid))
    (hnext : ∀ a s', mid a s' → Holds (next a) s' (Keeping top s' good)) :
    Holds (m >>= next) s (Keeping top s good) := by
  apply holds_bind
  refine hm.mono ?_
  rintro o s' ⟨hoff, ho⟩
  cases o with
  | ok a =>
    refine (hnext a s' ho).mono ?_
    rintro o s'' ⟨hoff', ho'⟩
    exact ⟨hoff.trans hoff', ho'⟩
  | error _ => exact ⟨hoff, trivial⟩
  | panicked => exact ho.elim
  | died => exact ⟨hoff, trivial⟩

theorem mem_beneath (rest : Path) : top ++ rest ∈ Beneath top := List.prefix_append _ _

theorem writeReceipt_spec (h : Holding ctx top contents s) (receipt : Receipt) :
    Holds (writeReceipt (top ++ [ctx.fp] ++ [receiptName]) receipt) s (Keeping top s fun _ s' =>
      Holding ctx top (contents.with [receiptName] (encodeReceipt receipt)) s') := by
  have hpath : top ++ [ctx.fp] ++ [receiptName] = top ++ ctx.fp :: [receiptName] := by simp
  rw [hpath]
  have hoff : s.AgreeOff (Beneath top) s := .refl _ _
  have hmem := @mem_beneath top (ctx.fp :: [receiptName])
  apply holds_bind
  apply holds_mapError
  apply holds_createNew
  · intro hnone _
    have hnew := h.put_file [receiptName] [] (ownedAttr 0o600) (by simp)
      (by simp [hnone]) (fun _ => rfl)
    have hoff₁ := hoff.put hmem (.file [] (ownedAttr 0o600))
    apply holds_bind
    apply holds_mapError
    apply holds_writeAll
    · have hwritten : appendBytes (top ++ ctx.fp :: [receiptName]) (encodeReceipt receipt)
          (s.put (top ++ ctx.fp :: [receiptName]) (.file [] (ownedAttr 0o600))) =
          (s.put (top ++ ctx.fp :: [receiptName]) (.file [] (ownedAttr 0o600))).put
            (top ++ ctx.fp :: [receiptName]) (.file (encodeReceipt receipt) (ownedAttr 0o600)) :=
        appendBytes_file (Tree.put_node_self _ _ _)
      have hoff₂ := appendBytes_agreeOff hoff₁ hmem (encodeReceipt receipt)
      have hdone : Holding ctx top (contents.with [receiptName] (encodeReceipt receipt))
          (appendBytes (top ++ ctx.fp :: [receiptName]) (encodeReceipt receipt)
            (s.put (top ++ ctx.fp :: [receiptName]) (.file [] (ownedAttr 0o600)))) := by
        have htwice := hnew.put_file [receiptName] (encodeReceipt receipt) (ownedAttr 0o600)
          (by simp) (by simp) (fun _ => rfl)
        rw [Contents.with_with] at htwice
        rwa [hwritten]
      apply holds_mapError
      apply holds_syncAll
      · exact ⟨hoff₂, hdone⟩
      · exact ⟨hoff₂, trivial⟩
      · exact ⟨hoff₂, trivial⟩
    · exact fun n => ⟨appendBytes_agreeOff hoff₁ hmem _, trivial⟩
    · exact fun n => ⟨appendBytes_agreeOff hoff₁ hmem _, trivial⟩
  · exact fun _ => .fail
  · exact .dead

/-- The empty file, however it came about. -/
theorem writeFile_marker_spec (h : Holding ctx top contents s) :
    Holds (writeFile (top ++ ctx.fp :: [markerName]) []) s (fun o s' =>
      s.AgreeOff (Beneath top) s' ∧ match o with
        | .ok _ => Holding ctx top (contents.with [markerName] []) s' ∧
            ∃ attr, s'.node (top ++ ctx.fp :: [markerName]) = some (.file [] attr)
        | .error _ | .died => True
        | .panicked => False) := by
  set marker := top ++ ctx.fp :: [markerName] with hmarker
  have hmem : marker ∈ Beneath top := mem_beneath _
  have hfilled (attr : Attr) (hdir : ∀ attr, s.node marker ≠ some (.dir attr)) :
      Holds (writeAll marker []) (s.put marker (.file [] attr))
      (fun o s' => s.AgreeOff (Beneath top) s' ∧ match o with
        | .ok _ => Holding ctx top (contents.with [markerName] []) s' ∧
            ∃ attr, s'.node marker = some (.file [] attr)
        | .error _ | .died => True
        | .panicked => False) := by
    have hoff : s.AgreeOff (Beneath top) (s.put marker (.file [] attr)) :=
      (Tree.AgreeOff.refl _ s).put hmem _
    have hempty : Holding ctx top (contents.with [markerName] []) (s.put marker (.file [] attr)) :=
      h.put_file _ _ _ (by simp) hdir fun hne => absurd rfl hne
    apply holds_writeAll
    · rw [appendBytes_file (Tree.put_node_self _ _ _), List.append_nil]
      have htwice := hempty.put_file [markerName] [] attr (by simp)
        (by simp [hmarker]) fun hne => absurd rfl hne
      rw [Contents.with_with] at htwice
      exact ⟨hoff.put hmem _, htwice, attr, Tree.put_node_self _ _ _⟩
    · exact fun n => ⟨appendBytes_agreeOff hoff hmem _, trivial⟩
    · exact fun n => ⟨appendBytes_agreeOff hoff hmem _, trivial⟩
  apply holds_bind
  refine holds_primitive ?_ ⟨.refl _ _, trivial⟩ ⟨.refl _ _, trivial⟩
  intro mask
  split
  · rename_i bytes attr hnode
    exact hfilled attr (by simp [hnode])
  · exact ⟨.refl _ _, trivial⟩
  · rename_i hnode
    split
    · exact hfilled _ (by simp [hnode])
    · exact ⟨.refl _ _, trivial⟩

theorem writeMarker_spec (h : Holding ctx top contents s) :
    Holds (writeMarker (top ++ [ctx.fp] ++ [markerName])) s (Keeping top s fun _ s' =>
      Holding ctx top (contents.with [markerName] []) s') := by
  have hpath : top ++ [ctx.fp] ++ [markerName] = top ++ ctx.fp :: [markerName] := by simp
  have hmem := @mem_beneath top (ctx.fp :: [markerName])
  rw [hpath]
  apply holds_bind
  apply holds_mapError
  refine (writeFile_marker_spec h).mono ?_
  rintro o s₁ ⟨hoff, ho⟩
  cases o with
  | ok _ =>
    obtain ⟨hholding, attr, hnode⟩ := ho
    apply holds_mapError
    apply holds_setPermissions
    · intro n hn
      rw [hnode] at hn
      cases hn
      have hset := hholding.put_file [markerName] [] { attr with mode := 0o600 }
        (by simp) (by simp [hnode]) fun hne => absurd rfl hne
      rw [Contents.with_with] at hset
      exact ⟨hoff.put hmem _, hset⟩
    · exact fun _ => ⟨hoff, trivial⟩
    · exact ⟨hoff, trivial⟩
  | error _ => exact ⟨hoff, trivial⟩
  | panicked => exact ho.elim
  | died => exact ⟨hoff, trivial⟩

theorem syncTree_spec (root : Path) : Holds (syncTree root) s (fun o s' => s = s' ∧
    o ≠ .panicked) := by
  apply holds_bind
  apply holds_read
  refine holds_forM (fun s' => s = s') rfl ?_ ?_
  · rintro path _ _ rfl
    apply holds_bind
    apply holds_mapError
    apply holds_symlinkMetadata
    · intro n _
      apply holds_ite
      · intro _
        apply holds_mapError
        apply holds_syncAll
        · rfl
        · exact ⟨rfl, by simp⟩
        · exact ⟨rfl, by simp⟩
      · exact fun _ => holds_throw ⟨rfl, by simp⟩
    · exact fun _ => ⟨rfl, by simp⟩
    · exact ⟨rfl, by simp⟩
    · exact ⟨rfl, by simp⟩
  · rintro _ rfl
    exact ⟨rfl, by simp⟩

/-- A step that changes nothing keeps what holds. -/
theorem keeping_of_quiet {α : Type} {m : Proc Tree APIError α} {good : Tree → Prop}
    (hm : Quiet m s) (h : good s) : Holds m s (Keeping top s fun _ s' => good s') := by
  refine hm.mono ?_
  rintro o _ ⟨rfl, hpanic⟩
  cases o with
  | ok _ => exact ⟨.refl _ _, h⟩
  | error _ => exact .fail
  | panicked => exact absurd rfl hpanic
  | died => exact .dead

theorem openDirectory_quiet (p : Path) (s : Tree) : Quiet (openDirectory p) s :=
  openDirectory_spec.mono fun _ _ h => ⟨h.1, h.2.1⟩

theorem syncAll_quiet (code : String) (p : Path) (s : Tree) : Quiet (orError code (syncAll p)) s :=
  holds_mapError (holds_syncAll ⟨rfl, by simp⟩ ⟨rfl, by simp⟩ ⟨rfl, by simp⟩)

/-- The contents of a sealed wallet directory. -/
def Contents.sealed (contents : Contents) (receipt : Receipt) : Contents :=
  (contents.with [receiptName] (encodeReceipt receipt)).with [markerName] []

theorem stageReceipt_spec (h : Holding ctx top contents s) (receipt : Receipt) :
    Holds (stageReceipt (top ++ [ctx.fp]) receipt) s (Keeping top s fun _ s' =>
      Holding ctx top (contents.sealed receipt) s') := by
  apply keeping_bind (keeping_of_quiet (openDirectory_quiet _ s) h)
  intro _ s₁ h₁
  apply keeping_bind (writeReceipt_spec h₁ receipt)
  intro _ s₂ h₂
  apply keeping_bind (writeMarker_spec h₂)
  intro _ s₃ h₃
  apply keeping_bind (keeping_of_quiet (syncTree_spec _) h₃)
  intro _ s₄ h₄
  exact keeping_of_quiet (syncAll_quiet _ _ s₄) h₄

end Seal

end RgbLightningNode.Restore
