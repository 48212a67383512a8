import RgbLightningNode.Snapshot.Views
import RgbLightningNode.Snapshot.History
import RgbLightningNode.Snapshot.Serde
import RgbLightningNode.Text.Lines

/-!
# Two scopes in one storage directory

The file names of a policy carry the hash of its scope, so the policies of two scopes share no
path. Whatever one of them does, under every failure and with every temporary name, the other reads
what it would have read without it.
-/

namespace RgbLightningNode.Snapshot
open Faulty FileSystem

/-! ### Endpoints -/

inductive AppError where
  | invalidVssConfig (message : String)
  deriving DecidableEq, Repr

/-- The characters with the Unicode property White_Space. -/
def isWhitespace (c : Char) : Bool :=
  (9 ≤ c.toNat && c.toNat ≤ 13) || (8192 ≤ c.toNat && c.toNat ≤ 8202) ||
    [32, 133, 160, 5760, 8232, 8233, 8239, 8287, 12288].contains c.toNat

/-- The parts of a parsed endpoint that its check looks at. -/
structure Url where
  scheme : String
  host : Option String
  username : String
  password : Option String
  query : Option String
  fragment : Option String

/-- The parser of endpoints, and the loopback addresses among the host texts. -/
structure Reqwest where
  parse : String → Option Url
  isLoopback : String → Bool

def invalid : AppError := .invalidVssConfig <|
  "VSS URL must be an absolute HTTPS endpoint (HTTP requires loopback or explicit permission), " ++
    "without credentials, query, fragment or whitespace"

def validateVssUrl (reqwest : Reqwest) (url : String) (allowHttp : Bool) : Except AppError Unit :=
  if url = "" || url.toList.any isWhitespace || url.toList.contains '\\' then .error invalid
  else match reqwest.parse url with
    | none => .error invalid
    | some endpoint => match endpoint.host with
      | none => .error invalid
      | some host =>
        if endpoint.username ≠ "" || endpoint.password.isSome || endpoint.query.isSome ||
            endpoint.fragment.isSome then .error invalid
        else
          let loopback := ["localhost", "[::1]", "::1"].contains host || reqwest.isLoopback host
          if endpoint.scheme = "https" then .ok ()
          else if endpoint.scheme = "http" && (loopback || allowHttp) then .ok ()
          else .error invalid

/-- An endpoint on one line, as `validateVssUrl` leaves no other. -/
def OneWord (url : String) : Prop := url.toList.any isWhitespace = false

instance (url : String) : Decidable (OneWord url) := inferInstanceAs (Decidable (_ = _))

theorem validateVssUrl_oneWord {reqwest : Reqwest} {url : String} {allowHttp : Bool}
    (h : validateVssUrl reqwest url allowHttp = .ok ()) : OneWord url := by
  unfold validateVssUrl at h
  split at h
  · cases h
  · rename_i hchecked
    simp only [Bool.or_eq_true, not_or, Bool.not_eq_true] at hchecked
    exact hchecked.1.2

theorem newline_notMem {url : String} (h : OneWord url) : '\n' ∉ url.toList := by
  intro hmem
  have hspace : url.toList.any isWhitespace = true :=
    List.any_eq_true.mpr ⟨'\n', hmem, by decide⟩
  rw [h] at hspace
  cases hspace

/-! ### Names of scopes -/

/-- The networks of the wallet library, under the names it displays. -/
structure Networks (Network : Type) where
  display : Network → String
  distinct : Function.Injective fun network => (display network).toLower
  oneLine : ∀ network, '\n' ∉ (display network).toLower.toList

def Networks.scope {Network : Type} (networks : Networks Network) (network : Network)
    (url nodeId : String) : Scope :=
  ⟨(networks.display network).toLower, url, nodeId⟩

/-- Two scopes whose first two lines are lines have the same text only when they are the same. -/
theorem Scope.text_inj {s s' : Scope} (hnetwork : '\n' ∉ s.network.toList)
    (hnetwork' : '\n' ∉ s'.network.toList) (hurl : '\n' ∉ s.url.toList)
    (hurl' : '\n' ∉ s'.url.toList) (h : s.text = s'.text) : s = s' := by
  have hlines : s.network.toList ++ '\n' :: (s.url.toList ++ '\n' :: s.nodeId.toList) =
      s'.network.toList ++ '\n' :: (s'.url.toList ++ '\n' :: s'.nodeId.toList) := by
    simpa [Scope.text, ← String.toList_inj] using h
  obtain ⟨hfirst, hrest⟩ := Text.append_cons_inj hnetwork hnetwork' hlines
  obtain ⟨hsecond, hthird⟩ := Text.append_cons_inj hurl hurl' hrest
  obtain ⟨network, url, nodeId⟩ := s
  obtain ⟨network', url', nodeId'⟩ := s'
  rw [String.toList_inj] at hfirst hsecond hthird
  simp only at hfirst hsecond hthird
  rw [hfirst, hsecond, hthird]

/-- A hash that prints hexadecimal digests. -/
def Hexadecimal (sha256 : String → String) : Prop :=
  ∀ text, ∀ c ∈ (sha256 text).toList, c ∈ "0123456789abcdef".toList

theorem Hexadecimal.dot_notMem {sha256 : String → String} (h : Hexadecimal sha256)
    (text : String) : '.' ∉ (sha256 text).toList := by
  intro hdot
  exact absurd (h text '.' hdot) (by decide)

variable {W : Type}

/-- Policies with different digests have no path in common. -/
theorem files_disjoint {sha256 : String → String} (hhex : Hexadecimal sha256) {s s' : Scope}
    (hdigest : sha256 s.text ≠ sha256 s'.text) :
    Disjoint (s.policy sha256).files (s'.policy sha256).files := by
  rw [Set.disjoint_left]
  intro q hq hq'
  obtain ⟨extension, hname⟩ := (s.policy sha256).files_named rfl q hq
  obtain ⟨extension', hname'⟩ := (s'.policy sha256).files_named rfl q hq'
  have hsame : (sha256 s.text).toList ++ '.' :: extension.toList =
      (sha256 s'.text).toList ++ '.' :: extension'.toList := by
    simpa [← String.toList_inj] using hname.symm.trans hname'
  obtain ⟨hstem, -⟩ := Text.append_cons_inj (hhex.dot_notMem _) (hhex.dot_notMem _) hsame
  exact hdigest (String.toList_inj.mp hstem)

/-! ### What a sequence of operations leaves alone -/

inductive Operation where
  | load (initial : Bool)
  | commitEnabled (enabled : Bool)
  | beforeMutation
  | clearUnchangedIntent
  | backup
  | afterMutation (panicking : Bool)
  | pending
  | metadata
  deriving DecidableEq, Repr

/-- One operation, with the wallet and the remote archive it finds and the schedule it runs
under. -/
structure Turn (W : Type) where
  operation : Operation
  wallet : W
  remote : Remote W
  schedule : Schedule

namespace SnapshotPolicy

variable (serde : Serde) (p : SnapshotPolicy)

def operation : Operation → Run W Unit
  | .load initial => p.load serde initial
  | .commitEnabled enabled => p.commitEnabled serde enabled
  | .beforeMutation => p.beforeMutation
  | .clearUnchangedIntent => p.clearUnchangedIntent
  | .backup => unread (p.backup serde)
  | .afterMutation panicking => p.afterMutation serde panicking
  | .pending => unread p.pending
  | .metadata => unread (p.metadata serde)

def turn (w : World W) (t : Turn W) : World W :=
  (p.operation serde t.operation { w with wallet := t.wallet, remote := t.remote } t.schedule).2.1

def turns (ts : List (Turn W)) (w : World W) : World W := ts.foldl (p.turn serde) w

theorem backup_subset :
    footprint p.pendingPath ∪ footprint p.completionPath ⊆ p.files :=
  Set.union_subset p.pending_subset p.completion_subset

/-- Every operation stays within the files of its policy. -/
theorem operation_frame (o : Operation) (w : World W) :
    Holds (p.operation serde o) w (fun _ w' => w.tree.AgreeOff p.files w'.tree) := by
  have hsame : w.tree.AgreeOff p.files w.tree := .refl _ _
  cases o with
  | load initial =>
    refine (load_spec p serde w initial).mono ?_
    rintro _ w' (⟨rfl, -, -⟩ | ⟨enabled, -, ⟨rfl, -, -⟩ | hcommitted⟩)
    · exact hsame
    · exact hsame
    · exact hcommitted.preferenceOnly.1.tree.mono p.path_subset
  | commitEnabled enabled =>
    refine (commitEnabled_spec p serde w enabled).mono ?_
    intro _ w' hcommitted
    exact hcommitted.preferenceOnly.1.tree.mono p.path_subset
  | beforeMutation =>
    refine (beforeMutation_spec p w).mono ?_
    intro outcome w' h
    cases outcome with
    | ok _ =>
      obtain ⟨t, hoff, ⟨-, rfl⟩ | ⟨-, rfl⟩⟩ := h
      · exact hoff.mono p.pending_subset
      · exact hoff.mono p.pending_subset
    | died =>
      obtain ⟨t, hoff, -, rfl⟩ := h
      exact hoff.mono p.pending_subset
    | error _ => exact h.elim
    | panicked => exact h.elim
  | clearUnchangedIntent =>
    have herased := hsame.erase (p.pending_subset (self_mem_footprint p.pendingPath))
    refine (clearUnchangedIntent_spec p w).mono ?_
    intro outcome w' h
    cases outcome with
    | ok _ =>
      subst h
      exact herased
    | error _ =>
      rcases h with rfl | rfl
      · exact hsame
      · exact herased
    | died =>
      rcases h with rfl | rfl
      · exact hsame
      · exact herased
    | panicked => exact h.elim
  | backup =>
    refine holds_unread ((backup_spec p serde w).mono ?_)
    intro _ w' h
    exact h.1.tree.mono p.backup_subset
  | afterMutation panicking =>
    refine (afterMutation_spec p serde w panicking).mono ?_
    rintro _ w' ⟨-, ⟨-, rfl⟩ | ⟨-, -, -, hend⟩⟩
    · exact hsame
    · exact hend.1.tree.mono p.backup_subset
  | pending =>
    refine holds_unread ((pending_spec p w).mono ?_)
    rintro _ _ ⟨rfl, -⟩
    exact hsame
  | metadata =>
    refine holds_unread ((metadata_spec p serde w).mono ?_)
    rintro _ _ ⟨rfl, -⟩
    exact hsame

theorem turn_frame (t : Turn W) (w : World W) :
    w.tree.AgreeOff p.files (p.turn serde w t).tree :=
  operation_frame serde p t.operation { w with wallet := t.wallet, remote := t.remote } t.schedule

theorem turns_frame (ts : List (Turn W)) (w : World W) :
    w.tree.AgreeOff p.files (p.turns serde ts w).tree := by
  induction ts generalizing w with
  | nil => exact .refl _ _
  | cons t ts ih => exact (p.turn_frame serde t w).trans (ih (p.turn serde w t))

/-- What a policy stores, and what it answers and loads with flags of its own, is the same in both
worlds. -/
structure Undisturbed (w w' : World W) : Prop where
  stored : ∀ q ∈ p.files, w'.tree.node q = w.tree.node q
  pending : ∀ flags ds,
    (p.pending { w' with flags := flags } ds).1 = (p.pending { w with flags := flags } ds).1
  metadata : ∀ flags ds, (p.metadata serde { w' with flags := flags } ds).1 =
    (p.metadata serde { w with flags := flags } ds).1
  reloaded : ∀ flags initial ds,
    (p.load serde initial { w' with flags := flags } ds).1 =
        (p.load serde initial { w with flags := flags } ds).1 ∧
      (p.load serde initial { w' with flags := flags } ds).2.1.flags =
        (p.load serde initial { w with flags := flags } ds).2.1.flags

theorem undisturbed_of_agreeOn {w w' : World W} (h : w.tree.AgreeOn p.files w'.tree) :
    p.Undisturbed serde w w' := by
  have hview : ∀ flags : Flags, SameView p.files { w with flags := flags }
      { w' with flags := flags } := fun _ => ⟨rfl, h⟩
  refine ⟨h, fun flags ds => ?_, fun flags ds => ?_, fun flags initial ds => ?_⟩
  · exact (p.respects_pending _ _ ds (hview flags)).outcome
  · exact (p.respects_metadata serde _ _ ds (hview flags)).outcome
  · have hload := p.respects_load serde initial _ _ ds (hview flags)
    exact ⟨hload.outcome, hload.related.flags⟩

/-- Two policies in one storage directory whose network, endpoint or node differ do not interfere:
no sequence of operations on the first changes what the second stores, reports or loads. By
`validateVssUrl_oneWord` every endpoint of a checked configuration is on one line. -/
theorem scopes_isolated {Network : Type} (networks : Networks Network)
    {sha256 : String → String} (hhex : Hexadecimal sha256) (serde : Serde)
    {network network' : Network} {url url' nodeId nodeId' : String}
    (hurl : OneWord url) (hurl' : OneWord url')
    (hne : (network, url, nodeId) ≠ (network', url', nodeId'))
    (hinj : Set.InjOn sha256
      {(networks.scope network url nodeId).text, (networks.scope network' url' nodeId').text})
    (ts : List (Turn W)) (w : World W) :
    ((networks.scope network' url' nodeId').policy sha256).Undisturbed serde w
      (((networks.scope network url nodeId).policy sha256).turns serde ts w) := by
  have htexts : (networks.scope network url nodeId).text ≠
      (networks.scope network' url' nodeId').text := by
    intro htext
    have hscope := Scope.text_inj (networks.oneLine network) (networks.oneLine network')
      (newline_notMem hurl) (newline_notMem hurl') htext
    simp only [Networks.scope, Scope.mk.injEq] at hscope
    obtain ⟨hname, rfl, rfl⟩ := hscope
    exact hne (by rw [networks.distinct hname])
  have hdigest := fun h => htexts (hinj (Set.mem_insert _ _) (Set.mem_insert_of_mem _ rfl) h)
  exact undisturbed_of_agreeOn serde _
    ((turns_frame serde _ ts w).agreeOn (files_disjoint hhex hdigest))

inductive SampleNetwork where
  | regtest
  | signet
  deriving DecidableEq

def SampleNetwork.display : SampleNetwork → String
  | .regtest => "Regtest"
  | .signet => "Signet"

theorem SampleNetwork.toList_toLower (network : SampleNetwork) :
    network.display.toLower.toList = network.display.toList.map Char.toLower :=
  String.toList_map

def sampleNetworks : Networks SampleNetwork where
  display := SampleNetwork.display
  distinct a b h := by
    have hlists := congrArg String.toList h
    simp only [SampleNetwork.toList_toLower] at hlists
    revert hlists
    cases a <;> cases b <;> decide
  oneLine network := by
    rw [SampleNetwork.toList_toLower]
    cases network <;> decide

/-- The digests of the two sample scopes. -/
def sampleSha256 (text : String) : String :=
  if text = "regtest\nhttps://example.com/vss\none" then
    "af9c0b538ba83439f8f30f258168f8414e5d9d5505aaad82a9ca50f15a6a9eeb"
  else "711cb49957f166c876f8ad779a27682cd2cba9a9c19c52a8c1a1b33ebc486368"

theorem sampleSha256_hexadecimal : Hexadecimal sampleSha256 := by
  intro text c hc
  unfold sampleSha256 at hc
  split at hc
  · exact List.all_eq_true.mp (by decide :
      "af9c0b538ba83439f8f30f258168f8414e5d9d5505aaad82a9ca50f15a6a9eeb".toList.all
        fun c => "0123456789abcdef".toList.contains c) c hc |> List.contains_iff_mem.mp
  · exact List.all_eq_true.mp (by decide :
      "711cb49957f166c876f8ad779a27682cd2cba9a9c19c52a8c1a1b33ebc486368".toList.all
        fun c => "0123456789abcdef".toList.contains c) c hc |> List.contains_iff_mem.mp

/-- What the parser makes of the sample endpoint. -/
def sampleReqwest : Reqwest where
  parse url :=
    if url = "https://example.com/vss" then some ⟨"https", some "example.com", "", none, none, none⟩
    else none
  isLoopback host := host = "127.0.0.1"

theorem sample_oneWord : OneWord "https://example.com/vss" := by
  have hvalid : validateVssUrl sampleReqwest "https://example.com/vss" false = .ok () := by decide
  exact validateVssUrl_oneWord hvalid

def sampleOperations : List (Turn ℕ) := [
  ⟨.load true, 0, ⟨none, none⟩, []⟩,
  ⟨.beforeMutation, 7, ⟨none, none⟩, []⟩,
  ⟨.commitEnabled false, 7, ⟨none, none⟩, [⟨.proceed, 0⟩, ⟨.proceed, 5⟩, ⟨.die, 0⟩]⟩]

theorem sample_text (network : SampleNetwork) (name : String)
    (hname : network.display.toList.map Char.toLower = name.toList) :
    (sampleNetworks.scope network "https://example.com/vss" "one").text =
      name ++ "\nhttps://example.com/vss\none" := by
  have hlower : network.display.toLower = name :=
    String.toList_inj.mp ((SampleNetwork.toList_toLower network).trans hname)
  simp [Networks.scope, Scope.text, sampleNetworks, hlower, ← String.toList_inj]

theorem scopes_isolated_sample : Undisturbed jsonSerde
    ((sampleNetworks.scope .signet "https://example.com/vss" "one").policy sampleSha256) sampleStart
    (((sampleNetworks.scope .regtest "https://example.com/vss" "one").policy sampleSha256).turns
      jsonSerde sampleOperations sampleStart) := by
  refine scopes_isolated sampleNetworks sampleSha256_hexadecimal jsonSerde sample_oneWord
    sample_oneWord (by simp) ?_ sampleOperations sampleStart
  rw [sample_text .regtest "regtest" (by decide), sample_text .signet "signet" (by decide)]
  have hdistinct : sampleSha256 ("regtest" ++ "\nhttps://example.com/vss\none") ≠
      sampleSha256 ("signet" ++ "\nhttps://example.com/vss\none") := by decide
  rintro a (rfl | rfl) b (rfl | rfl) hdigest
  · rfl
  · exact absurd hdigest hdistinct
  · exact absurd hdigest.symm hdistinct
  · rfl

end SnapshotPolicy

end RgbLightningNode.Snapshot
