import RgbLightningNode.Restore.AllOrNothing

/-!
# What a receipt binds

A receipt that a preparation wrote loads again with its version for as long as the promoted files
and the key stay. A receipt that loads was made with the local key, for this network, identity,
endpoint and path, by a preparation that had staged its version; the code is computed before the
promotion, so that preparation need not have got any further.
-/

namespace RgbLightningNode.Restore
open Faulty FileSystem Text

variable {crates : Crates}

/-! ### The answer about a restored wallet -/

section Info

variable (ctx : Context crates)

/-- Whether a path is there. A path that cannot be inspected counts as missing. -/
def isThere (p : Path) : Proc Tree APIError Bool := do
  let found ← .attempt (ε := IoError) (pathExists p)
  return found.toOption.getD false

/-- The result of a restore, and whether the restored wallet has been unlocked since. -/
def Context.unlockedResult (version : Int64) (unlocked : Bool) : JsonValue :=
  match ctx.result (some version) with
  | .object members => .object (members ++ [("unlocked", .bool unlocked)])
  | value => value

/-- The wallet is unlocked, and the unlock has taken the restore marker away. -/
def isUnlocked (unlocked : Bool) : Proc Tree APIError Bool :=
  if unlocked then do
    let marked ← isThere (ctx.wallet ++ [markerName])
    return !marked
  else return false

def infoIn (unlocked : Bool) (serde : ReceiptSerde) : Proc Tree APIError String := do
  if !(← isThere ctx.wallet) then return "null"
  else if !(← isThere (ctx.wallet ++ [receiptName])) then return "null"
  else do
    let fields ← loadReceipt ctx serde
    let unlocked ← isUnlocked ctx unlocked
    return crates.toText (ctx.unlockedResult fields.version unlocked)

end Info

variable (crates) in
def info (signer : SignerCrate) (configured : StaticState) (unlocked : Bool)
    (serde : ReceiptSerde) : Proc Tree APIError String := do
  checkState
  checkState
  let ctx ← @Context.new crates signer configured
  infoIn ctx unlocked serde

variable {ctx : Context crates} {t s s' : Tree} {remote : Remote} {zip : ZipReader}
  {serde : ReceiptSerde} {signer : SignerCrate} {configured : StaticState}

/-! ### A receipt loads again -/

section Reload

variable (ctx) in
/-- The promoted files, the key and the storage directory are what they were. -/
def Untouched (s s' : Tree) : Prop :=
  s'.node ctx.base = s.node ctx.base ∧ s'.node ctx.keyPath = s.node ctx.keyPath ∧
    ∀ rest, s'.node (ctx.wallet ++ rest) = s.node (ctx.wallet ++ rest)

theorem untouched_refl (ctx : Context crates) (s : Tree) : Untouched ctx s s :=
  ⟨rfl, rfl, fun _ => rfl⟩

theorem privateFile_congr {p : Path} {maximum : ℕ} {content : Bytes}
    (h : PrivateFile s p maximum content) (hsame : s'.node p = s.node p) :
    PrivateFile s' p maximum content := by
  obtain ⟨attr, hnode, hrest⟩ := h
  exact ⟨attr, by rw [hsame, hnode], hrest⟩

theorem Verified.untouched {f : Fields} (h : Verified ctx serde s f) (hsame : Untouched ctx s s') :
    Verified ctx serde s' f := by
  obtain ⟨_, hkeyPath, hwallet⟩ := hsame
  obtain ⟨hdir, hmatched, ⟨key, bytes, code, hkey, hbytes, hdecode, hcode⟩, content, hcontent,
    hid⟩ := h
  have htop := hwallet []
  rw [List.append_nil] at htop
  exact ⟨by rw [htop]; exact hdir, hmatched,
    ⟨key, bytes, code, keyFile_congr hkey hkeyPath, privateFile_congr hbytes (hwallet _), hdecode,
      hcode⟩, content, privateFile_congr hcontent (hwallet _), hid⟩

theorem isThere_quiet (p : Path) (s : Tree) : Quiet (isThere p) s := by
  apply holds_bind
  apply holds_attempt
  apply holds_pathExists
  · exact fun _ => holds_pure ⟨rfl, by simp⟩
  · exact holds_pure ⟨rfl, by simp⟩
  · exact ⟨rfl, by simp⟩

theorem isThere_calmly {p : Path} (s : Tree) :
    Calmly (isThere p) s (fun o u => (∃ found, o = .ok found ∧
      ((∃ n, s.node p = some n ∧ n ≠ .symlink) → found = true)) ∧ s = u) := by
  apply calmly_bind
  apply calmly_attempt
  apply calmly_step
  intro _
  apply calmly_pure
  refine ⟨⟨_, rfl, ?_⟩, rfl⟩
  rintro ⟨n, hn, hlink⟩
  rw [hn]
  cases n with
  | symlink => exact absurd rfl hlink
  | file _ _ => rfl
  | dir _ => rfl
  | special => rfl

theorem isUnlocked_quiet (unlocked : Bool) (s : Tree) : Quiet (isUnlocked ctx unlocked) s := by
  cases unlocked with
  | false => exact holds_pure ⟨rfl, by simp⟩
  | true =>
    exact holds_bind_quiet (isThere_quiet _ s) (fun _ => holds_pure ⟨rfl, by simp⟩)
      (fun _ => ⟨rfl, by simp⟩) ⟨rfl, by simp⟩

theorem loadReceipt_quiet (s : Tree) : Quiet (loadReceipt ctx serde) s :=
  loadReceipt_spec.mono fun _ _ h => ⟨h.1, h.2.1⟩

theorem infoIn_quiet (unlocked : Bool) (s : Tree) : Quiet (infoIn ctx unlocked serde) s := by
  have hfail (e : APIError) : s = s ∧ (Outcome.error e : Outcome APIError String) ≠ .panicked :=
    ⟨rfl, by simp⟩
  have hdead : s = s ∧ (Outcome.died : Outcome APIError String) ≠ .panicked := ⟨rfl, by simp⟩
  refine holds_bind_quiet (isThere_quiet _ s) ?_ hfail hdead
  intro _
  apply holds_ite
  · exact fun _ => holds_pure ⟨rfl, by simp⟩
  intro _
  refine holds_bind_quiet (isThere_quiet _ s) ?_ hfail hdead
  intro _
  apply holds_ite
  · exact fun _ => holds_pure ⟨rfl, by simp⟩
  intro _
  refine holds_bind_quiet (loadReceipt_quiet s) ?_ hfail hdead
  intro _
  refine holds_bind_quiet (isUnlocked_quiet _ s) ?_ hfail hdead
  exact fun _ => holds_pure ⟨rfl, by simp⟩

theorem info_quiet (unlocked : Bool) (s : Tree) :
    Quiet (info crates signer configured unlocked serde) s := by
  have hfail (e : APIError) : s = s ∧ (Outcome.error e : Outcome APIError String) ≠ .panicked :=
    ⟨rfl, by simp⟩
  have hdead : s = s ∧ (Outcome.died : Outcome APIError String) ≠ .panicked := ⟨rfl, by simp⟩
  refine holds_bind_quiet (checkState_quiet s) ?_ hfail hdead
  intro _
  refine holds_bind_quiet (checkState_quiet s) ?_ hfail hdead
  intro _
  refine holds_bind_quiet (contextNew_spec.mono fun _ _ h => ⟨h.1, h.2.1⟩) ?_ hfail hdead
  exact fun ctx => infoIn_quiet unlocked s

/-- The information about a wallet whose receipt verifies. -/
theorem infoIn_calmly {f : Fields} (h : Verified ctx serde s f) (unlocked : Bool) :
    Calmly (infoIn ctx unlocked serde) s (fun o u =>
      (∃ open_, o = .ok (crates.toText (ctx.unlockedResult f.version open_))) ∧ s = u) := by
  obtain ⟨attr, hdir, _⟩ := h.dir
  obtain ⟨_, _, _, _, ⟨attr', hreceipt, _⟩, _⟩ := h.receipt
  apply calmly_bind
  refine (isThere_calmly s).mono ?_
  rintro _ _ ⟨⟨found, rfl, hfound⟩, rfl⟩
  obtain rfl := hfound ⟨_, hdir, by simp⟩
  apply calmly_bind
  refine (isThere_calmly s).mono ?_
  rintro _ _ ⟨⟨found, rfl, hfound⟩, rfl⟩
  obtain rfl := hfound ⟨_, hreceipt, by simp⟩
  apply calmly_bind
  refine (loadReceipt_calm h).mono ?_
  rintro _ _ ⟨rfl, rfl⟩
  have hunlocked :
      Calmly (isUnlocked ctx unlocked) s (fun o u => (∃ open_, o = .ok open_) ∧ s = u) := by
    cases unlocked with
    | false => exact calmly_pure ⟨⟨false, rfl⟩, rfl⟩
    | true =>
      apply calmly_bind
      refine (isThere_calmly s).mono ?_
      rintro _ _ ⟨⟨found, rfl, _⟩, rfl⟩
      exact calmly_pure ⟨⟨_, rfl⟩, rfl⟩
  apply calmly_bind
  refine hunlocked.mono ?_
  rintro _ _ ⟨⟨open_, rfl⟩, rfl⟩
  exact calmly_pure ⟨⟨open_, rfl⟩, rfl⟩

variable (ctx serde) in
/-- The receipt loads with a version, and a preparation and the information answer with it. None of
them writes anything. -/
structure Reloads (version : Int64) (s : Tree) : Prop where
  loads : Calmly (loadReceipt ctx serde) s (fun o _ => ∃ f, o = .ok f ∧ f.version = version)
  prepares : ∀ signer configured remote zip, Configured crates signer configured s ctx →
    Calmly (prepare crates signer configured remote zip serde) s (fun o _ =>
      o = .ok (crates.toText (ctx.result (some version))))
  informs : ∀ signer configured unlocked, Configured crates signer configured s ctx →
    Calmly (info crates signer configured unlocked serde) s (fun o _ =>
      ∃ open_, o = .ok (crates.toText (ctx.unlockedResult version open_)))
  load_quiet : Quiet (loadReceipt ctx serde) s
  prepare_quiet : ∀ signer configured remote zip, Configured crates signer configured s ctx →
    Quiet (prepare crates signer configured remote zip serde) s
  info_quiet : ∀ signer configured unlocked, Quiet (info crates signer configured unlocked serde) s

theorem Verified.reloads {f : Fields} (h : Verified ctx serde s f)
    (hbase : ∃ attr, s.node ctx.base = some (.dir attr) ∧ attr.owned = true) :
    Reloads ctx serde f.version s where
  loads := (loadReceipt_calm h).mono fun _ _ h => ⟨f, h.1, rfl⟩
  prepares signer configured remote zip hconf := by
    obtain ⟨attr, hwallet, _⟩ := h.dir
    have hload : Calmly (loadReceipt ctx serde) s
        (fun o u => (∃ f', o = .ok f' ∧ f'.version = f.version) ∧ s = u) :=
      (loadReceipt_calm h).mono fun _ _ h => ⟨⟨f, h.1, rfl⟩, h.2⟩
    exact (prepare_present hconf hbase hwallet hload).mono fun _ _ h => h.1
  informs signer configured unlocked hconf := by
    apply calmly_bind
    apply calmly_primitive
    intro _
    apply calmly_bind
    apply calmly_primitive
    intro _
    apply calmly_bind
    refine (contextNew_calmly hconf).mono ?_
    rintro _ _ ⟨rfl, rfl⟩
    exact (infoIn_calmly h unlocked).mono fun _ _ h => h.1
  load_quiet := loadReceipt_quiet s
  prepare_quiet signer configured remote zip hconf := by
    refine prepare_spec.mono ?_
    rintro o u ⟨rfl | ⟨ctx', hconf', hprepared⟩, hpanic⟩
    · exact ⟨rfl, hpanic⟩
    · obtain rfl := hconf.unique hconf'
      obtain ⟨attr, hwallet, _⟩ := h.dir
      exact ⟨(hprepared.present (by rw [hwallet]; simp)).symm, hpanic⟩
  info_quiet signer configured unlocked := info_quiet unlocked s

end Reload

/-! ### Who wrote a receipt -/

/-- One preparation, under its configuration and its environment. -/
structure Run (crates : Crates) where
  signer : SignerCrate
  configured : StaticState
  remote : Remote
  zip : ZipReader
  serde : ReceiptSerde
  tree : Tree
  schedule : Schedule

/-- What a preparation has when it computes the code of its receipt. -/
structure Coding (crates : Crates) where
  ctx : Context crates
  staging : Staging
  key : Bytes

def Coding.fields (c : Coding crates) : Fields :=
  receiptFields c.ctx c.staging.version c.staging.identity

def Coding.receipt (c : Coding crates) : Receipt := ⟨c.fields, @mac crates c.key c.fields⟩

variable (crates remote zip signer configured) in
/-- A preparation up to the code of its receipt, or none where it answers without computing one. -/
def coding : Proc Tree APIError (Option (Coding crates)) := do
  checkState
  checkState
  requireLocked
  let ctx ← @Context.new crates signer configured
  openDirectory ctx.base
  if ← metadataOk ctx.wallet then return none
  else match ← openStage ctx remote zip with
    | none => return none
    | some st => do
      let key ← fillStage ctx remote zip st
      return some ⟨ctx, st, key⟩

namespace Run

def prepares (r : Run crates) : Outcome APIError String × Tree × Schedule :=
  prepare crates r.signer r.configured r.remote r.zip r.serde r.tree r.schedule

/-- The preparation reaches the code of its receipt with this tree and schedule. -/
def Codes (r : Run crates) (c : Coding crates) (s : Tree) (rest : Schedule) : Prop :=
  coding crates r.remote r.zip r.signer r.configured r.tree r.schedule = (.ok (some c), s, rest)

/-- What a preparation still does when it computes the code. -/
def remainder (c : Coding crates) : Proc Tree APIError String :=
  .ensure (finish c.ctx c.staging.stage c.staging.version c.staging.identity c.key) fun _ =>
    discard (removeDirAll c.staging.stage)

/-- The preparation had admitted the archive of its version and holds the whole of it in its staging
directory; what is left of it computes the code of these fields under this key. -/
structure Stages (r : Run crates) (c : Coding crates) (s : Tree) (rest : Schedule) : Prop where
  configured : Configured crates r.signer r.configured r.tree c.ctx
  absent : r.tree.node c.ctx.wallet = none
  opened : ∃ s₀, Opened c.ctx r.remote r.zip r.tree s₀ c.staging
  staged : Keyed c.ctx r.zip r.tree s c.staging c.key
  goes_on : r.prepares = remainder c s rest

/-- The preparation puts a wallet directory where there was none. -/
def Promotes (r : Run crates) (c : Coding crates) : Prop :=
  r.tree.node c.ctx.wallet = none ∧ r.prepares.2.1.node c.ctx.wallet ≠ none

end Run

theorem ensure_of_ok {α : Type} {m : Proc Tree APIError α} {next : α → Proc Tree APIError String}
    {cleanup : Bool → Proc Tree APIError PUnit} {a : α} {ds ds' : Schedule}
    (h : m t ds = (.ok a, s, ds')) :
    Proc.ensure (m >>= next) cleanup t ds = Proc.ensure (next a) cleanup s ds' := by
  unfold Proc.ensure
  rw [Proc.bind_of_ok h]

theorem Run.Codes.stages {r : Run crates} {c : Coding crates} {rest : Schedule}
    (h : r.Codes c s rest) : r.Stages c s rest := by
  obtain ⟨_, t₁, ds₁, hstate, h⟩ := Proc.ok_of_bind h
  obtain ⟨rfl, _⟩ := (checkState_quiet _).of_run hstate
  obtain ⟨_, t₂, ds₂, hstate', h⟩ := Proc.ok_of_bind h
  obtain ⟨rfl, _⟩ := (checkState_quiet _).of_run hstate'
  obtain ⟨_, t₃, ds₃, hlocked, h⟩ := Proc.ok_of_bind h
  obtain ⟨rfl, _⟩ := (requireLocked_quiet _).of_run hlocked
  obtain ⟨ctx, t₄, ds₄, hctx, h⟩ := Proc.ok_of_bind h
  obtain ⟨rfl, _, hconf⟩ := contextNew_spec.of_run hctx
  obtain ⟨_, t₅, ds₅, hopen, h⟩ := Proc.ok_of_bind h
  obtain ⟨rfl, _⟩ := (openDirectory_quiet _ _).of_run hopen
  obtain ⟨found, t₆, ds₆, hfound, h⟩ := Proc.ok_of_bind h
  obtain ⟨rfl, _⟩ := metadataOk_spec.of_run hfound
  cases found with
  | true => cases h
  | false =>
  obtain ⟨opened, t₇, ds₇, hopened, h⟩ := Proc.ok_of_bind h
  have hst := openStage_spec.of_run hopened
  cases opened with
  | none => cases h
  | some st =>
  obtain ⟨key, t₈, ds₈, hkey, h⟩ := Proc.ok_of_bind h
  obtain ⟨_, hkeyed⟩ := (fillStage_spec hst).of_run hkey
  cases h
  refine ⟨hconf _ rfl, ?_, ⟨_, hst⟩, hkeyed, ?_⟩
  · obtain ⟨_, _, _, hreject, _⟩ := Proc.ok_of_bind hopened
    obtain ⟨_, _, hnone⟩ := rejectOtherWallets_spec.of_run hreject
    exact hnone rfl ctx.fp ctx.fp_valid
  · unfold Run.prepares prepare prepareIn
    rw [Proc.bind_of_ok hstate, Proc.bind_of_ok hstate', Proc.bind_of_ok hlocked,
      Proc.bind_of_ok hctx, Proc.bind_of_ok hopen, Proc.bind_of_ok hfound, fetch_eq]
    change ((openStage ctx r.remote r.zip >>= _) : Proc Tree APIError String) _ _ = _
    rw [Proc.bind_of_ok hopened]
    change Proc.ensure
      (restore r.remote ctx r.zip st.bytes st.stage st.version st.identity) _ _ _ = _
    rw [restore_eq, ensure_of_ok hkey]
    rfl

/-! ### What a digest determines -/

theorem hexDigit_inj : ∀ d < 16, ∀ d' < 16, hexDigit d = hexDigit d' → d = d' := by
  decide

theorem hex_inj {as bs : Bytes} (h : hex as = hex bs) : as = bs := by
  induction as generalizing bs with
  | nil =>
    cases bs with
    | nil => rfl
    | cons b bs => cases h
  | cons a as ih =>
    cases bs with
    | nil => cases h
    | cons b bs =>
      have ha := a.toNat_lt
      have hb := b.toNat_lt
      change hexDigit (a.toNat / 16) :: hexDigit (a.toNat % 16) :: hex as =
        hexDigit (b.toNat / 16) :: hexDigit (b.toNat % 16) :: hex bs at h
      obtain ⟨hhigh, h⟩ := List.cons.inj h
      obtain ⟨hlow, hrest⟩ := List.cons.inj h
      have hhigh := hexDigit_inj _ (by omega) _ (by omega) hhigh
      have hlow := hexDigit_inj _ (by omega) _ (by omega) hlow
      rw [ih hrest, UInt8.toNat_inj.mp (show a.toNat = b.toNat by omega)]

theorem sha256_of_digest {bytes bytes' : Bytes} (h : crates.digest bytes = crates.digest bytes') :
    crates.sha256 bytes = crates.sha256 bytes' :=
  hex_inj (String.ofList_injective h)

/-- The texts that are hashed for a context. -/
def hashed (ctx : Context crates) : Set Bytes :=
  {utf8 ctx.endpoint, encodeUtf8 (pathText ctx.wallet)}

section Binding

variable (H : Set (Run crates))

/-- No two texts that are hashed for the contexts of the history or for this one have one hash. -/
def CollisionFree (ctx : Context crates) : Prop :=
  Set.InjOn crates.sha256 (hashed ctx ∪
    {bytes | ∃ r ∈ H, ∃ c s rest, r.Codes c s rest ∧ bytes ∈ hashed c.ctx})

/-- The receipt on disk verifies under the key on disk only if some preparation of the history has
computed its code, for these bytes under this key. -/
def Unforged (ctx : Context crates) (serde : ReceiptSerde) (t : Tree) : Prop :=
  ∀ key bytes receipt, t.look ctx.keyPath = .file key →
    t.look (ctx.wallet ++ [receiptName]) = .file bytes → serde.decode bytes = some receipt →
    receipt.mac = @mac crates key receipt.fields →
    ∃ r ∈ H, ∃ c s rest, r.Codes c s rest ∧ c.key = key ∧
      encodeFields c.fields = encodeFields receipt.fields

/-- Another context has the same network, identity, endpoint and target path. -/
structure SameTarget (ctx ctx' : Context crates) : Prop where
  network : ctx'.network = ctx.network
  nodeId : ctx'.nodeId = ctx.nodeId
  fp : ctx'.fp = ctx.fp
  endpoint : ctx'.endpoint = ctx.endpoint
  path : pathText ctx'.wallet = pathText ctx.wallet

/-- What is known of the receipt that has loaded with these fields and of the preparation that
computed its code. -/
structure Bound (ctx : Context crates) (t : Tree) (f : Fields) (c : Coding crates) : Prop where
  key : t.look ctx.keyPath = .file c.key
  fields : f = c.fields
  target : SameTarget ctx c.ctx
  manifest : ∃ content, t.look (ctx.wallet ++ ["wallet_manifest.json"]) = .file content ∧
    manifestIdentity content ctx = .ok c.staging.identity

end Binding

/-- Every receipt that loads was made by a preparation that got this far. -/
def Binds (reached : ∀ {crates : Crates}, Run crates → Coding crates → Tree → Schedule → Prop) :
    Prop :=
  ∀ (crates : Crates) (H : Set (Run crates)) (ctx : Context crates) (serde : ReceiptSerde)
    (t : Tree), CollisionFree H ctx → Unforged H ctx serde t →
    Holds (loadReceipt ctx serde) t (fun o _ => ∀ f, o = .ok f →
      ∃ r ∈ H, ∃ c s rest, r.Codes c s rest ∧ Bound ctx t f c ∧ reached r c s rest)

theorem PrivateFile.look {p : Path} {maximum : ℕ} {content : Bytes}
    (h : PrivateFile t p maximum content) : t.look p = .file content := by
  obtain ⟨attr, hnode, _⟩ := h
  exact Tree.look_eq_file.mpr ⟨attr, hnode⟩

theorem sameTarget_of_matched {H : Set (Run crates)} {r : Run crates} {c : Coding crates}
    {rest : Schedule} (hfree : CollisionFree H ctx) (hr : r ∈ H) (hcodes : r.Codes c s rest)
    (hmatched : mismatched ctx c.fields = false) : SameTarget ctx c.ctx := by
  simp only [mismatched, Coding.fields, receiptFields, Bool.or_eq_false_iff, bne_eq_false_iff_eq]
    at hmatched
  obtain ⟨⟨⟨⟨⟨_, hnetwork⟩, hnode⟩, hfp⟩, hendpoint⟩, htarget⟩ := hmatched
  have hmem {bytes : Bytes} (h : bytes ∈ hashed c.ctx) :
      bytes ∈ hashed ctx ∪ {bytes | ∃ r ∈ H, ∃ c s rest, r.Codes c s rest ∧ bytes ∈ hashed c.ctx} :=
    Or.inr ⟨r, hr, c, s, rest, hcodes, h⟩
  rw [c.ctx.endpointHash_eq, ctx.endpointHash_eq] at hendpoint
  rw [c.ctx.targetHash_eq, ctx.targetHash_eq] at htarget
  refine ⟨hnetwork, hnode, hfp, ?_, ?_⟩
  · exact utf8_inj (hfree (hmem (Or.inl rfl)) (Or.inl (Or.inl rfl)) (sha256_of_digest hendpoint))
  · have hbytes := hfree (hmem (Or.inr rfl)) (Or.inl (Or.inr rfl)) (sha256_of_digest htarget)
    have hdecode := congrArg decodeUtf8 hbytes
    rw [decodeUtf8_encodeUtf8, decodeUtf8_encodeUtf8] at hdecode
    exact Option.some.inj hdecode

theorem binds_stages : Binds Run.Stages := by
  intro crates H ctx serde t hfree hunforged
  refine loadReceipt_spec.mono ?_
  rintro o _ ⟨rfl, _, hverified⟩ f rfl
  obtain ⟨_, hmatched, ⟨key, bytes, code, hkey, hbytes, hdecode, hcode⟩, content, hcontent, hid⟩ :=
    hverified f rfl
  obtain ⟨r, hr, c, s, rest, hcodes, rfl, hfields⟩ :=
    hunforged key bytes ⟨f, code⟩ hkey.1.look hbytes.look hdecode hcode
  obtain rfl := encodeFields_inj hfields
  exact ⟨r, hr, c, s, rest, hcodes,
    ⟨hkey.1.look, rfl, sameTarget_of_matched hfree hr hcodes hmatched, content, hcontent.look, hid⟩,
    hcodes.stages⟩

/-- What a preparation answers with a version can be loaded again. -/
theorem prepare_reloads : Holds (prepare crates signer configured remote zip serde) t (fun o s =>
    ∀ text, o = .ok text → ∃ ctx, Configured crates signer configured t ctx ∧
      ((text = crates.toText (ctx.result none) ∧ s = t) ∨
        ∃ version, text = crates.toText (ctx.result (some version)) ∧
          ∀ s', Untouched ctx s s' → Reloads ctx serde version s')) := by
  refine prepare_answered.mono ?_
  intro o s h text htext
  obtain ⟨ctx, hconf, hanswered⟩ := h text htext
  refine ⟨ctx, hconf, hanswered.imp id ?_⟩
  rintro ⟨version, hanswer, hbefore, howned⟩
  have hverified : ∃ f, Verified ctx serde s f ∧ f.version = version := by
    rcases hbefore with hpromoted | ⟨rfl, hverified⟩
    · obtain ⟨identity, hverified⟩ := hpromoted.verified serde
      exact ⟨_, hverified, rfl⟩
    · exact hverified
  obtain ⟨f, hverified, rfl⟩ := hverified
  obtain ⟨attr, hbase, howned⟩ := howned
  refine ⟨f.version, hanswer, ?_⟩
  intro s' hsame
  exact (hverified.untouched hsame).reloads ⟨attr, by rw [hsame.1, hbase], howned⟩

/-! ### A preparation that dies before its promotion -/

section Crash

variable {r : Run crates} {c : Coding crates} {rest : Schedule}

theorem Run.Codes.unique {c' : Coding crates} {rest' : Schedule} (h : r.Codes c s rest)
    (h' : r.Codes c' s' rest') : c' = c := by
  have heq := h.symm.trans h'
  cases heq
  rfl

/-- The receipt and the key of a sealed directory are those of the preparation. -/
theorem Run.Codes.unforged {contents : Contents} (h : r.Codes c s rest)
    (hsealed : Sealed c.ctx r.tree (contents.sealed c.receipt) c.key s') :
    Unforged {r} c.ctx serde s' := by
  intro key bytes receipt hkey hbytes hdecode _
  obtain ⟨attr, hnode, _⟩ := hsealed.holding.file_node sealed_receipt
  have hpath : c.ctx.base ++ c.ctx.fp :: [receiptName] = c.ctx.wallet ++ [receiptName] := by
    simp [Context.wallet]
  rw [hpath] at hnode
  rw [hsealed.keyFile.1.look] at hkey
  rw [Tree.look_eq_file.mpr ⟨attr, hnode⟩] at hbytes
  cases hkey
  cases hbytes
  rw [serde.decode_encode] at hdecode
  cases hdecode
  exact ⟨r, rfl, c, s, rest, h, rfl, rfl⟩

/-- A preparation that goes on to promote its directory leaves a receipt that loads. -/
theorem Run.Stages.verified {entries : List Entry} (serde : ReceiptSerde) (h : r.Stages c s rest)
    (hzip : r.zip c.staging.bytes = some (entries.map some))
    (hsizes : ∀ e ∈ entries, Entry.isData c.ctx e = true → e.content.length = e.size.toNat)
    (hsealed : Sealed c.ctx r.tree ((archiveContents c.ctx entries).sealed c.receipt) c.key s') :
    ∃ f, Verified c.ctx serde s' f := by
  obtain ⟨s₀, hopened⟩ := h.opened
  obtain ⟨n, hn⟩ := hopened.bytes
  have hpromoted : Promoted c.ctx r.remote r.zip r.tree c.staging.version s' := by
    refine ⟨hopened.positive, hopened.seen, n, c.staging.identity, entries, c.key, ?_, ?_, hsizes,
      hsealed⟩
    · rw [hn, hopened.plan]
    · rw [hn, hzip]
  obtain ⟨identity, hverified⟩ := hpromoted.verified serde
  exact ⟨_, hverified⟩

/-- A staged directory with its receipt, moved into place by hand. -/
theorem Run.Stages.sealed_moved {entries : List Entry} {rest₁ : Schedule} (h : r.Stages c s rest)
    (hholding : Holding c.ctx c.staging.stage (archiveContents c.ctx entries) s)
    (hrun : stageReceipt (c.staging.stage ++ [c.ctx.fp]) c.receipt s rest = (.ok (), s', rest₁)) :
    s'.node c.ctx.wallet = none ∧
      Sealed c.ctx r.tree ((archiveContents c.ctx entries).sealed c.receipt) c.key
        (s'.move (c.staging.stage ++ [c.ctx.fp]) c.ctx.wallet) := by
  obtain ⟨s₀, hopened⟩ := h.opened
  have hscratched := hopened.scratched
  obtain ⟨hoff, hsealed⟩ := (stageReceipt_spec hholding c.receipt).of_run hrun
  have hleft := h.staged.leftovers.scratch (hoff.mono hscratched)
  have hkey :=
    keyFile_congr h.staged.keyFile (hoff _ fun hq => key_notMem_scratched (hscratched hq))
  have hnone := hleft.wallet.trans h.absent
  exact ⟨hnone, sealed_of_move hleft hscratched hsealed hkey hnone⟩

/-- A preparation that dies with its receipt staged ends with the staged tree. -/
theorem Run.Stages.dies (h : r.Stages c s rest)
    (hrun : stageReceipt (c.staging.stage ++ [c.ctx.fp]) c.receipt s rest =
      (.ok (), s', [⟨.die, 0⟩])) : r.prepares.2.1 = s' := by
  have hfinish : finish c.ctx c.staging.stage c.staging.version c.staging.identity c.key s rest =
      (.died, s', []) := (Proc.bind_of_ok hrun).trans rfl
  rw [h.goes_on, Run.remainder, Proc.ensure, hfinish]

end Crash

def sampleRun (schedule : Schedule) : Run sampleCrates where
  signer := sampleSigner
  configured := sampleConfigured
  remote := sampleRemote
  zip := sampleZip
  serde := compactReceipts
  tree := sampleHome
  schedule := schedule

/-- The run dies right after it has synced the staged directory. -/
def sampleCrash : Schedule := List.replicate 50 ⟨.proceed, 0⟩ ++ [⟨.die, 0⟩]

/-- The run computes the code of a receipt, stages the receipt, and has this much of its schedule
left. -/
def sampleLeft (schedule : Schedule) : Option Schedule :=
  match coding sampleCrates (sampleRun schedule).remote sampleZip sampleSigner
      (sampleRun schedule).configured sampleHome schedule with
  | (.ok (some c), s, rest) =>
    match stageReceipt (c.staging.stage ++ [c.ctx.fp]) c.receipt s rest with
    | (.ok _, _, left) => some left
    | _ => none
  | _ => none

theorem stages_of_sampleLeft {schedule left : Schedule} (h : sampleLeft schedule = some left) :
    ∃ c s rest s', (sampleRun schedule).Codes c s rest ∧
      stageReceipt (c.staging.stage ++ [c.ctx.fp]) c.receipt s rest = (.ok (), s', left) := by
  unfold sampleLeft at h
  split at h
  · rename_i c s rest hcodes
    split at h
    · rename_i s' left' hrun
      cases h
      exact ⟨c, s, rest, s', hcodes, hrun⟩
    · cases h
  · cases h

theorem sample_hashed {schedule rest : Schedule} {c : Coding sampleCrates} {s : Tree}
    (h : (sampleRun schedule).Codes c s rest) :
    hashed c.ctx =
      {utf8 "https://example.invalid/vss", encodeUtf8 (pathText ["w", "a1b2c3d4"])} := by
  obtain ⟨endpoint, source, hurl, hsource, hctx⟩ := h.stages.configured.source
  obtain ⟨hbase, hendpoint, hfp⟩ := fromSource_spec hctx
  cases hurl
  cases hsource
  rw [hashed, hendpoint, Context.wallet, hbase, hfp]
  rfl

theorem sample_collisionFree {schedule rest : Schedule} {c : Coding sampleCrates} {s : Tree}
    (h : (sampleRun schedule).Codes c s rest) : CollisionFree {sampleRun schedule} c.ctx := by
  have hsub : hashed c.ctx ∪ {bytes | ∃ r ∈ ({sampleRun schedule} : Set (Run sampleCrates)),
      ∃ c s rest, r.Codes c s rest ∧ bytes ∈ hashed c.ctx} ⊆ hashed c.ctx := by
    rintro bytes (hbytes | ⟨r, rfl, c', s', rest', hcodes, hbytes⟩)
    · exact hbytes
    · rwa [h.unique hcodes] at hbytes
  have hne : sampleCrates.sha256 (utf8 "https://example.invalid/vss") ≠
      sampleCrates.sha256 (encodeUtf8 (pathText ["w", "a1b2c3d4"])) := by
    decide
  apply Set.InjOn.mono hsub
  rw [sample_hashed h]
  rintro a (rfl | rfl) b (rfl | rfl) hab
  · rfl
  · exact absurd hab hne
  · exact absurd hab.symm hne
  · rfl

/-- A preparation may have computed the code of a receipt and never have promoted it. -/
theorem binds_without_promotion : ¬Binds fun r c _ _ => r.Promotes c := by
  intro h
  have hleft : sampleLeft sampleCrash = some [⟨.die, 0⟩] := by decide +kernel
  obtain ⟨c, s, rest, s', hcodes, hrun⟩ := stages_of_sampleLeft hleft
  obtain ⟨entries, hzip, hsizes, hholding⟩ := hcodes.stages.staged.whole
  obtain ⟨hnone, hsealed⟩ := hcodes.stages.sealed_moved hholding hrun
  obtain ⟨f, hverified⟩ := hcodes.stages.verified compactReceipts hzip hsizes hsealed
  have hload := (loadReceipt_calm hverified [] calm_nil).2.1
  obtain ⟨r, rfl, c', s'', rest', hcodes', _, hpromotes⟩ := h sampleCrates {sampleRun sampleCrash}
    c.ctx compactReceipts _ (sample_collisionFree hcodes) (hcodes.unforged hsealed) [] f hload
  obtain rfl := hcodes.unique hcodes'
  apply hpromotes.2
  rw [hcodes.stages.dies hrun]
  exact hnone

/-- A preparation that answers with a version has left a receipt that loads with it, without writing
anything, for as long as what it promoted stays; and a receipt that loads was made with the local
key by a preparation that had staged its version for this target, and fits the manifest on disk. -/
theorem receipts_bind :
    (∀ (crates : Crates) (signer : SignerCrate) (configured : StaticState) (remote : Remote)
        (zip : ZipReader) (serde : ReceiptSerde) (t : Tree),
      Holds (prepare crates signer configured remote zip serde) t (fun o s => ∀ text, o = .ok text →
        ∃ ctx, Configured crates signer configured t ctx ∧
          ((text = crates.toText (ctx.result none) ∧ s = t) ∨
            ∃ version, text = crates.toText (ctx.result (some version)) ∧
              ∀ s', Untouched ctx s s' → Reloads ctx serde version s'))) ∧
    Binds Run.Stages :=
  ⟨fun _ _ _ _ _ _ _ => prepare_reloads, binds_stages⟩

/-- The sample run restores version seven and answers so again; and its receipt binds. -/
theorem receipts_bind_sample :
    (∃ (ctx : Context sampleCrates) (version : Int64),
      sampleAnswer = sampleCrates.toText (ctx.result (some version)) ∧
      Reloads ctx compactReceipts version (sampleRun []).prepares.2.1) ∧
    ∃ (ctx : Context sampleCrates) (t : Tree) (f : Fields),
      (loadReceipt ctx compactReceipts t []).1 = .ok f ∧ ∃ c s rest, (sampleRun []).Codes c s rest ∧
        Bound ctx t f c ∧ (sampleRun []).Stages c s rest := by
  have hleft : sampleLeft [] = some [] := by decide +kernel
  obtain ⟨c, s, rest, s', hcodes, hrun⟩ := stages_of_sampleLeft hleft
  obtain ⟨entries, hzip, hsizes, hholding⟩ := hcodes.stages.staged.whole
  obtain ⟨_, hsealed⟩ := hcodes.stages.sealed_moved hholding hrun
  obtain ⟨f, hverified⟩ := hcodes.stages.verified compactReceipts hzip hsizes hsealed
  have hload := (loadReceipt_calm hverified [] calm_nil).2.1
  obtain ⟨r, rfl, h⟩ := receipts_bind.2 sampleCrates {sampleRun []} c.ctx compactReceipts _
    (sample_collisionFree hcodes) (hcodes.unforged hsealed) [] f hload
  refine ⟨?_, c.ctx, _, f, hload, h⟩
  obtain ⟨ctx, _, hcase⟩ := receipts_bind.1 sampleCrates (sampleRun []).signer
    (sampleRun []).configured (sampleRun []).remote (sampleRun []).zip (sampleRun []).serde
    (sampleRun []).tree (sampleRun []).schedule sampleAnswer sample_answers
  rcases hcase with ⟨hnone, _⟩ | ⟨version, htext, hreloads⟩
  · change sampleAnswer = sampleIdentityText at hnone
    exact absurd hnone (by decide)
  · unfold Run.prepares
    exact ⟨ctx, version, htext, hreloads _ (untouched_refl _ _)⟩

end RgbLightningNode.Restore
