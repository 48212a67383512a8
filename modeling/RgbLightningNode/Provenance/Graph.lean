import Mathlib.Data.List.Perm.Subperm
import Mathlib.Data.List.Nodup
import Mathlib.Tactic.Common

/-!
# The gate on the Cargo graph

Every package that comes from a Git source must be one of the pinned ones. The gate counts the Git
packages and looks each of them up, which tells a missing one from a repeated one only when no name
occurs twice.
-/

namespace RgbLightningNode.Provenance

/-! ### The source -/

/-- A package of the Cargo metadata. A package of the workspace has no source. -/
structure CargoPackage where
  name : String
  source : Option String
  manifestPath : String
  deriving DecidableEq, Repr

def gitSources : List (String × String) := [
  ("musig2", "git+https://github.com/arik-so/rust-musig2" ++
    "?rev=6f95a05718cbb44d8fe3fa6021aea8117aa38d50#6f95a05718cbb44d8fe3fa6021aea8117aa38d50"),
  ("rgb-consensus", "git+https://github.com/UTEXO-Protocol/rgb-consensus-s-bfa" ++
    "?rev=2faf6118b2f5fe30dd90dd5244d5a7dc32bcd757#2faf6118b2f5fe30dd90dd5244d5a7dc32bcd757"),
  ("rgb-invoicing", "git+https://github.com/UTEXO-Protocol/rgb-ops-s-bfa" ++
    "?rev=773766b5ca7a9e705ec68c2f9ed0917f505cd6e3#773766b5ca7a9e705ec68c2f9ed0917f505cd6e3"),
  ("rgb-lib", "git+https://github.com/UTEXO-Protocol/rgb-lib.git" ++
    "?tag=v0.3.0-beta.50-bfa#1b951af0c8233308c919975552487be19ad2a930"),
  ("rgb-lib-migration", "git+https://github.com/UTEXO-Protocol/rgb-lib.git" ++
    "?tag=v0.3.0-beta.50-bfa#1b951af0c8233308c919975552487be19ad2a930"),
  ("rgb-ops", "git+https://github.com/UTEXO-Protocol/rgb-ops-s-bfa" ++
    "?rev=773766b5ca7a9e705ec68c2f9ed0917f505cd6e3#773766b5ca7a9e705ec68c2f9ed0917f505cd6e3"),
  ("rgb-schemas", "git+https://github.com/UTEXO-Protocol/rgb-schemas-s-bfa" ++
    "?rev=238dfe7a89db998107fd87d919bf2757a2746d7f#238dfe7a89db998107fd87d919bf2757a2746d7f"),
  ("signer-external", "git+https://github.com/UTEXO-Protocol/rln-external-signer.git" ++
    "?branch=main#0fb005ec4b927ddbe13e1646d247b5bb11e8ffed"),
  ("vls-core", "git+https://github.com/UTEXO-Protocol/vls-core.git" ++
    "?branch=feat/rgb-compatibility#45c72edfd58620849eb486925439a76526b415ae"),
  ("vls-protocol-signer", "git+https://github.com/UTEXO-Protocol/vls-protocol-signer.git" ++
    "?branch=feat/rgb-compatibility#dddd336fcdf84c4febdd7af8363bda8d1721d893"),
  ("vss-client-ng", "git+https://github.com/lightningdevkit/vss-client" ++
    "?rev=ad63805047561dcf3117cd992ad6d8bc3881adef#ad63805047561dcf3117cd992ad6d8bc3881adef")]

/-- `GIT_SOURCES[name]` -/
def gitSource (name : String) : Option String :=
  (gitSources.find? fun entry => entry.1 = name).map Prod.snd

/-- Paths as the file system resolves and joins them. Resolving one that is not there throws. -/
structure Paths where
  realpathSync : String → Except String String
  join : String → String → String

/-- `source?.startsWith('git+')` -/
def CargoPackage.isGit (p : CargoPackage) : Bool :=
  match p.source with
  | some source => "git+".toList.isPrefixOf source.toList
  | none => false

def CargoPackage.isSync (p : CargoPackage) : Bool := p.name = "lightning-transaction-sync"

def syncError : String := "Transaction sync must use the released submodule implementation"

/-- The submodule implementation, below the root of the sources. -/
def releasedSync : String := "rust-lightning/lightning-transaction-sync/Cargo.toml"

def verifySync (paths : Paths) (packages : List CargoPackage) (sourceRoot : String) :
    Except String Unit :=
  match packages.filter CargoPackage.isSync with
  | [sync] =>
    if sync.source ≠ none then .error syncError
    else (paths.realpathSync sync.manifestPath).bind fun found =>
      (paths.realpathSync (paths.join sourceRoot releasedSync)).bind fun released =>
        if found ≠ released then .error syncError else .ok ()
  | _ => .error syncError

def verifyGraph (paths : Paths) (packages : List CargoPackage) (sourceRoot : String) :
    Except String Unit :=
  let git := packages.filter CargoPackage.isGit
  if git.length ≠ gitSources.length ∨ git.any (fun p => p.source ≠ gitSource p.name) then
    .error "Unapproved native Git dependency graph"
  else verifySync paths packages sourceRoot

/-! ### What the gate admits -/

/-- The names and the sources of the Git packages. -/
def gitPairs (packages : List CargoPackage) : List (String × Option String) :=
  (packages.filter CargoPackage.isGit).map fun p => (p.name, p.source)

def pinnedPairs : List (String × Option String) := gitSources.map fun e => (e.1, some e.2)

/-- The Git packages are the pinned ones, each of them once. -/
def Exact (packages : List CargoPackage) : Prop := (gitPairs packages).Perm pinnedPairs

/-- There is one transaction-sync package, and it is the one of the submodule. -/
def Synced (paths : Paths) (packages : List CargoPackage) (sourceRoot : String) : Prop :=
  ∃ sync released, packages.filter CargoPackage.isSync = [sync] ∧ sync.source = none ∧
    paths.realpathSync sync.manifestPath = .ok released ∧
    paths.realpathSync (paths.join sourceRoot releasedSync) = .ok released

/-- As many Git packages as pinned ones, each of them pinned under its name. -/
structure Approved (packages : List CargoPackage) : Prop where
  count : (packages.filter CargoPackage.isGit).length = gitSources.length
  pinned : ∀ p ∈ packages.filter CargoPackage.isGit, p.source = gitSource p.name

theorem verifySync_ok_iff (paths : Paths) (packages : List CargoPackage) (sourceRoot : String) :
    verifySync paths packages sourceRoot = .ok () ↔ Synced paths packages sourceRoot := by
  constructor
  · intro h
    unfold verifySync at h
    split at h
    · rename_i sync hsync
      by_cases hsource : sync.source = none
      · rw [if_neg (not_not_intro hsource)] at h
        cases hfound : paths.realpathSync sync.manifestPath with
        | error e =>
          rw [hfound] at h
          cases h
        | ok found =>
          cases hreleased : paths.realpathSync (paths.join sourceRoot releasedSync) with
          | error e =>
            rw [hfound, hreleased] at h
            cases h
          | ok released =>
            rw [hfound, hreleased] at h
            by_cases hsame : found = released
            · exact ⟨sync, released, hsync, hsource, hsame ▸ hfound, hreleased⟩
            · simp [Except.bind, hsame] at h
      · rw [if_pos hsource] at h
        cases h
    · cases h
  · rintro ⟨sync, released, hsync, hsource, hfound, hreleased⟩
    unfold verifySync
    rw [hsync]
    simp [hsource, hfound, hreleased, Except.bind]

theorem verifyGraph_ok_iff (paths : Paths) (packages : List CargoPackage) (sourceRoot : String) :
    verifyGraph paths packages sourceRoot = .ok () ↔
      Approved packages ∧ Synced paths packages sourceRoot := by
  have hrefused : ((packages.filter CargoPackage.isGit).length ≠ gitSources.length ∨
      (packages.filter CargoPackage.isGit).any (fun p => p.source ≠ gitSource p.name)) ↔
        ¬Approved packages := by
    constructor
    · rintro (hcount | hother) ⟨hlength, hpinned⟩
      · exact hcount hlength
      · obtain ⟨p, hp, hne⟩ := List.any_eq_true.mp hother
        exact of_decide_eq_true hne (hpinned p hp)
    · intro h
      by_contra hneither
      obtain ⟨hcount, hall⟩ := not_or.mp hneither
      refine h ⟨not_not.mp hcount, fun p hp => ?_⟩
      by_contra hne
      exact hall (List.any_eq_true.mpr ⟨p, hp, decide_eq_true hne⟩)
  unfold verifyGraph
  by_cases happroved : Approved packages
  · simp only [hrefused, happroved, not_true_eq_false, if_false, true_and]
    exact verifySync_ok_iff paths packages sourceRoot
  · simp only [hrefused, happroved, not_false_eq_true, if_true, false_and, reduceCtorEq]

/-! ### When the count and the lookups are exact -/

/-- A list of pairs with different keys that lies within another one and is as long is the other
one, up to its order. -/
theorem perm_of_distinct_keys {α β : Type} {pairs all : List (α × β)}
    (hkeys : (pairs.map Prod.fst).Nodup) (hsubset : pairs ⊆ all)
    (hlength : all.length ≤ pairs.length) : pairs.Perm all :=
  (List.subperm_of_subset hkeys.of_map hsubset).perm_of_length_le hlength

theorem gitSources_keys : (gitSources.map Prod.fst).Nodup := by decide

theorem gitSource_eq_some {name source : String} :
    gitSource name = some source ↔ (name, source) ∈ gitSources := by
  constructor
  · intro h
    obtain ⟨⟨key, value⟩, hfound, rfl⟩ := Option.map_eq_some_iff.mp h
    obtain rfl : key = name := by simpa using List.find?_some hfound
    exact List.mem_of_find?_eq_some hfound
  · intro h
    unfold gitSource
    cases hfound : gitSources.find? (fun entry => entry.1 = name) with
    | none => simpa using List.find?_eq_none.mp hfound _ h
    | some entry =>
      have hname : entry.1 = name := by simpa using List.find?_some hfound
      have hmem := List.mem_of_find?_eq_some hfound
      have hsame := List.inj_on_of_nodup_map gitSources_keys hmem h hname
      rw [hsame]
      rfl

theorem mem_pinnedPairs {name : String} {source : Option String} :
    (name, source) ∈ pinnedPairs ↔ source ≠ none ∧ source = gitSource name := by
  cases source with
  | none => simp [pinnedPairs]
  | some source => simp [pinnedPairs, eq_comm, ← gitSource_eq_some]

/-- The name of no Git package occurs twice. -/
def Distinct (packages : List CargoPackage) : Prop :=
  ((packages.filter CargoPackage.isGit).map CargoPackage.name).Nodup

theorem gitPairs_keys (packages : List CargoPackage) : (gitPairs packages).map Prod.fst =
    (packages.filter CargoPackage.isGit).map CargoPackage.name := by
  simp [gitPairs, Function.comp_def]

theorem Exact.approved {packages : List CargoPackage} (h : Exact packages) : Approved packages where
  count := by simpa [gitPairs, pinnedPairs] using h.length_eq
  pinned p hp := by
    have hpair : (p.name, p.source) ∈ gitPairs packages := List.mem_map_of_mem hp
    exact (mem_pinnedPairs.mp (h.mem_iff.mp hpair)).2

theorem Exact.distinct {packages : List CargoPackage} (h : Exact packages) : Distinct packages := by
  have hkeys := h.map Prod.fst
  rw [gitPairs_keys] at hkeys
  refine hkeys.nodup_iff.mpr ?_
  simpa [pinnedPairs, Function.comp_def] using gitSources_keys

theorem isGit_source {p : CargoPackage} (h : p.isGit = true) : p.source ≠ none := by
  intro hnone
  simp [CargoPackage.isGit, hnone] at h

theorem Approved.exact {packages : List CargoPackage} (h : Approved packages)
    (hdistinct : Distinct packages) : Exact packages := by
  apply perm_of_distinct_keys
  · rwa [gitPairs_keys]
  · intro pair hpair
    obtain ⟨p, hp, rfl⟩ := List.mem_map.mp hpair
    exact mem_pinnedPairs.mpr ⟨isGit_source (List.mem_filter.mp hp).2, h.pinned p hp⟩
  · simp [gitPairs, pinnedPairs, h.count]

/-- The gate admits only an exact graph, and every exact graph with the released transaction sync,
unless it admits a list in which the name of a Git package occurs twice. -/
theorem graph_exact_iff (paths : Paths) (packages : List CargoPackage) (sourceRoot : String) :
    ((verifyGraph paths packages sourceRoot = .ok () → Exact packages) ∧
      (Exact packages → Synced paths packages sourceRoot →
        verifyGraph paths packages sourceRoot = .ok ())) ↔
    ¬(Approved packages ∧ Synced paths packages sourceRoot ∧ ¬Distinct packages) := by
  rw [verifyGraph_ok_iff]
  constructor
  · rintro ⟨hadmitted, -⟩ ⟨happroved, hsynced, hrepeated⟩
    exact hrepeated (hadmitted ⟨happroved, hsynced⟩).distinct
  · intro h
    refine ⟨fun ⟨happroved, hsynced⟩ => ?_, fun hexact hsynced => ⟨hexact.approved, hsynced⟩⟩
    by_cases hdistinct : Distinct packages
    · exact happroved.exact hdistinct
    · exact absurd ⟨happroved, hsynced, hdistinct⟩ h

/-- Every path is its own real path. -/
def samplePaths : Paths where
  realpathSync := .ok
  join root rest := root ++ "/" ++ rest

def samplePackage (entry : String × String) : CargoPackage :=
  ⟨entry.1, some entry.2, "/registry/" ++ entry.1 ++ "/Cargo.toml"⟩

/-- The client of the remote store is missing, and one package is there in two directories. -/
def repeatedGraph : List CargoPackage :=
  ⟨"lightning-transaction-sync", none,
    "/rln/rust-lightning/lightning-transaction-sync/Cargo.toml"⟩ ::
    ⟨"rgb-ops", gitSource "rgb-ops", "/registry/rgb-ops/legacy/Cargo.toml"⟩ ::
      (gitSources.filter fun entry => entry.1 ≠ "vss-client-ng").map samplePackage

/-- For a source that starts with a literal, which is the text of its characters by definition. -/
theorem isGit_literal {p : CargoPackage} {repository rest : String} {text : List Char}
    (hsource : p.source = some (repository ++ rest)) (h : repository = String.ofList text)
    (hstart : ['g', 'i', 't', '+'].isPrefixOf text = true) : p.isGit = true := by
  subst h
  rw [CargoPackage.isGit, hsource]
  simp only [String.toList_append, String.toList_ofList]
  exact List.isPrefixOf_iff_prefix.mpr
    ((List.isPrefixOf_iff_prefix.mp hstart).trans (List.prefix_append text rest.toList))

set_option maxRecDepth 1024 in
theorem samplePackage_isGit : ∀ entry ∈ gitSources, (samplePackage entry).isGit = true := by
  unfold gitSources
  repeat refine List.forall_mem_cons.mpr ⟨isGit_literal rfl rfl rfl, ?_⟩
  simp

theorem gitSource_of_mem : ∀ entry ∈ gitSources, gitSource entry.1 = some entry.2 :=
  fun _ hentry => gitSource_eq_some.mpr hentry

/-- The Git packages of the graph. -/
theorem repeatedGraph_git : repeatedGraph.filter CargoPackage.isGit =
    ⟨"rgb-ops", gitSource "rgb-ops", "/registry/rgb-ops/legacy/Cargo.toml"⟩ ::
      (gitSources.filter fun entry => entry.1 ≠ "vss-client-ng").map samplePackage := by
  have hname : "rgb-ops" ∈ gitSources.map Prod.fst := by decide
  obtain ⟨⟨_, source⟩, hops, rfl⟩ := List.mem_map.mp hname
  have hlegacy : CargoPackage.isGit ⟨"rgb-ops", gitSource "rgb-ops",
      "/registry/rgb-ops/legacy/Cargo.toml"⟩ = true := by
    rw [gitSource_of_mem _ hops]
    exact samplePackage_isGit _ hops
  have hpinned : ∀ p ∈ (gitSources.filter fun entry => entry.1 ≠ "vss-client-ng").map samplePackage,
      p.isGit = true := by
    intro p hp
    obtain ⟨entry, hentry, rfl⟩ := List.mem_map.mp hp
    exact samplePackage_isGit entry (List.mem_of_mem_filter hentry)
  rw [repeatedGraph, List.filter_cons_of_neg (by simp [CargoPackage.isGit]),
    List.filter_cons_of_pos hlegacy, List.filter_eq_self.mpr hpinned]

theorem repeatedGraph_approved : Approved repeatedGraph where
  count := by
    rw [repeatedGraph_git]
    rfl
  pinned p hp := by
    rw [repeatedGraph_git] at hp
    rcases List.mem_cons.mp hp with rfl | hp
    · rfl
    · obtain ⟨entry, hentry, rfl⟩ := List.mem_map.mp hp
      exact (gitSource_of_mem entry (List.mem_of_mem_filter hentry)).symm

theorem repeatedGraph_synced : Synced samplePaths repeatedGraph "/rln" := by
  refine ⟨⟨"lightning-transaction-sync", none,
    "/rln/rust-lightning/lightning-transaction-sync/Cargo.toml"⟩, _, ?_, rfl, rfl, ?_⟩
  · rfl
  · simp [samplePaths, releasedSync]

theorem repeatedGraph_admitted :
    verifyGraph samplePaths repeatedGraph "/rln" = .ok () ∧ ¬Exact repeatedGraph := by
  refine ⟨(verifyGraph_ok_iff _ _ _).mpr ⟨repeatedGraph_approved, repeatedGraph_synced⟩, ?_⟩
  intro h
  have hdistinct := h.distinct
  rw [Distinct, repeatedGraph_git, List.map_cons, List.nodup_cons] at hdistinct
  apply hdistinct.1
  decide

end RgbLightningNode.Provenance
