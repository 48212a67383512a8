import RgbLightningNode.Restore.Rerun

/-!
# All or nothing

Wherever a preparation stops, the storage directory either lacks the restored wallet or holds all
of it, nothing else in it is touched, and the next preparation is not in the way of anything.
-/

namespace RgbLightningNode.Restore
open Faulty FileSystem Text

variable {crates : Crates} {ctx : Context crates} {t t' : Tree}

/-! ### The key after its creation -/

section Key

variable {stage : Path}

/-- A present key is what it was. -/
def KeepsKey (ctx : Context crates) (t t' : Tree) : Prop :=
  t.node ctx.keyPath ≠ none → t'.node ctx.keyPath = t.node ctx.keyPath

theorem keepsKey_of_off {S : Set Path} (h : t.AgreeOff S t') (hkey : ctx.keyPath ∉ S) :
    KeepsKey ctx t t' := fun _ => h _ hkey

theorem writeReceipt_off (p : Path) (receipt : Receipt) :
    Holds (writeReceipt p receipt) t (fun _ t' => t.AgreeOff {p} t') := by
  have hmem : p ∈ ({p} : Set Path) := rfl
  have hsame : t.AgreeOff {p} t := .refl _ _
  apply holds_bind
  apply holds_mapError
  apply holds_createNew
  · intro _ _
    have hnew := hsame.put hmem (.file [] (ownedAttr 0o600))
    apply holds_bind
    apply holds_mapError
    apply holds_writeAll
    · have hwritten := appendBytes_agreeOff hnew hmem (encodeReceipt receipt)
      apply holds_mapError
      exact holds_syncAll hwritten hwritten hwritten
    · exact fun n => appendBytes_agreeOff hnew hmem _
    · exact fun n => appendBytes_agreeOff hnew hmem _
  · exact fun _ => hsame
  · exact hsame

theorem writeMarker_off (p : Path) :
    Holds (writeMarker p) t (fun _ t' => t.AgreeOff {p} t') := by
  have hmem : p ∈ ({p} : Set Path) := rfl
  have hsame : t.AgreeOff {p} t := .refl _ _
  have hset {t₁ : Tree} (h₁ : t.AgreeOff {p} t₁) : Holds (orError
      "VSS_RESTORE_LOCAL_WRITE_FAILED" (setPermissions p 0o600)) t₁ (fun _ t' =>
        t.AgreeOff {p} t') := by
    apply holds_mapError
    exact holds_setPermissions (fun n _ => h₁.put hmem _) (fun _ => h₁) h₁
  have hfill {t₁ : Tree} (h₁ : t.AgreeOff {p} t₁) :
      Holds (writeAll p []) t₁ (fun _ t' => t.AgreeOff {p} t') :=
    holds_writeAll (appendBytes_agreeOff h₁ hmem _) (fun n => appendBytes_agreeOff h₁ hmem _)
      (fun n => appendBytes_agreeOff h₁ hmem _)
  have hwrite : Holds (writeFile p []) t (fun _ t' => t.AgreeOff {p} t') := by
    apply holds_bind
    refine holds_primitive ?_ hsame hsame
    intro mask
    split
    · exact hfill (hsame.put hmem _)
    · exact hsame
    · split
      · exact hfill (hsame.put hmem _)
      · exact hsame
  apply holds_bind
  apply holds_mapError
  refine hwrite.mono ?_
  intro o t₁ h₁
  cases o with
  | ok _ => exact hset h₁
  | error _ => exact h₁
  | panicked => exact h₁
  | died => exact h₁

theorem keepsKey_trans {t₁ t₂ t₃ : Tree} (h : KeepsKey ctx t₁ t₂) (h' : KeepsKey ctx t₂ t₃) :
    KeepsKey ctx t₁ t₃ := by
  intro hkey
  have hsame := h hkey
  rw [h' (by rwa [hsame]), hsame]

/-- One part after another, none of which changes a present key. -/
theorem keepsKey_bind {α β : Type} {m : Proc Tree APIError α} {next : α → Proc Tree APIError β}
    (hm : Holds m t (fun _ => KeepsKey ctx t))
    (hnext : ∀ a t', Holds (next a) t' (fun _ => KeepsKey ctx t')) :
    Holds (m >>= next) t (fun _ => KeepsKey ctx t) := by
  apply holds_bind
  refine hm.mono ?_
  intro o t' h
  cases o with
  | ok a => exact (hnext a t').mono fun _ _ h' => keepsKey_trans h h'
  | error _ => exact h
  | panicked => exact h
  | died => exact h

theorem keepsKey_of_quiet {α : Type} {m : Proc Tree APIError α} (h : Quiet m t) :
    Holds m t (fun _ => KeepsKey ctx t) := by
  refine h.mono ?_
  rintro _ _ ⟨rfl, _⟩ _
  rfl

/-- From the creation of the key on, nothing changes it. -/
theorem finish_keepsKey {k : ℕ} (version : Int64) (identity : String) (key : Bytes) (t : Tree) :
    Holds (.ensure (finish ctx (ctx.base ++ [tempName ".vss-restore-" k]) version identity key)
      fun _ => discard (removeDirAll (ctx.base ++ [tempName ".vss-restore-" k]))) t
      (fun _ => KeepsKey ctx t) := by
  have hname : keyName ≠ tempName ".vss-restore-" k := (Scratch.ne_key ⟨k, Or.inl rfl⟩).symm
  have hbelow (rest : Path) : ctx.keyPath ≠ ctx.base ++ [tempName ".vss-restore-" k] ++ rest := by
    intro heq
    rw [Context.keyPath, List.append_assoc] at heq
    exact hname (List.cons.inj (List.append_cancel_left heq)).1
  have hpath {p : Path} (hp : ctx.keyPath ≠ p) : ctx.keyPath ∉ ({p} : Set Path) := hp
  have hbeneath (rest : Path) :
      ctx.keyPath ∉ Beneath (ctx.base ++ [tempName ".vss-restore-" k] ++ rest) := by
    rintro ⟨more, heq⟩
    rw [List.append_assoc] at heq
    exact hbelow _ heq.symm
  have hstage (receipt : Receipt) (t : Tree) :
      Holds (stageReceipt (ctx.base ++ [tempName ".vss-restore-" k] ++ [ctx.fp]) receipt) t
        (fun _ => KeepsKey ctx t) := by
    apply keepsKey_bind (keepsKey_of_quiet (openDirectory_quiet _ t))
    intro _ t
    apply keepsKey_bind ((writeReceipt_off _ receipt).mono fun _ _ h =>
      keepsKey_of_off h (hpath (by rw [List.append_assoc]; exact hbelow _)))
    intro _ t
    apply keepsKey_bind ((writeMarker_off _).mono fun _ _ h =>
      keepsKey_of_off h (hpath (by rw [List.append_assoc]; exact hbelow _)))
    intro _ t
    apply keepsKey_bind (keepsKey_of_quiet (syncTree_spec _))
    exact fun _ t => keepsKey_of_quiet (syncAll_quiet _ _ t)
  have hfinish :
    Holds (finish ctx (ctx.base ++ [tempName ".vss-restore-" k]) version identity key) t
      (fun _ => KeepsKey ctx t) := by
    apply keepsKey_bind (hstage _ t)
    intro _ t
    apply keepsKey_bind (keepsKey_of_quiet (openDirectory_quiet _ t))
    intro _ t
    apply keepsKey_bind (keepsKey_of_quiet (checkState_quiet t))
    intro _ t
    apply keepsKey_bind (keepsKey_of_quiet (checkBase_quiet t))
    intro _ t
    have hpromote :
      Holds (promote (ctx.base ++ [tempName ".vss-restore-" k] ++ [ctx.fp]) ctx.wallet)
        t (fun _ => KeepsKey ctx t) := by
      apply holds_promote
      · intro _ _
        apply keepsKey_of_off (move_agreeOff _ _ _)
        rintro (hq | hq)
        · exact hbeneath [ctx.fp] hq
        · exact key_notMem_wallet hq
      · exact fun _ => rfl
      · exact fun _ => rfl
    apply keepsKey_bind hpromote
    intro _ t
    apply keepsKey_bind (keepsKey_of_quiet (syncAll_quiet _ _ t))
    exact fun _ t => holds_pure fun _ => rfl
  apply holds_ensure
  refine hfinish.mono ?_
  intro o t₁ h₁
  have hclean (o : Outcome APIError String) :
      Holds (discard (removeDirAll (ctx.base ++ [tempName ".vss-restore-" k]))) t₁
        (fun _ => KeepsKey ctx t) := by
    refine (removeDirAll_spec _).mono ?_
    rintro c t₂ ⟨hoff, _⟩
    refine keepsKey_trans h₁ (keepsKey_of_off hoff ?_)
    have hself := hbeneath []
    rwa [List.append_nil] at hself
  cases o with
  | ok text => exact hclean (.ok text)
  | error failure => exact hclean (.error failure)
  | panicked => exact hclean .panicked
  | died => exact h₁

end Key

/-! ### What a preparation leaves of a storage directory -/

variable (ctx) in
/-- Nothing that was there has changed but the receipt key and the wallet directory. -/
structure Undamaged (t t' : Tree) : Prop where
  outside : ∀ q, (¬∃ name rest, q = ctx.base ++ name :: rest) → t'.node q = t.node q
  entries : ∀ name, name ≠ ctx.fp → t.node (ctx.base ++ [name]) ≠ none →
    ∀ rest, t'.node (ctx.base ++ name :: rest) = t.node (ctx.base ++ name :: rest)

/-- Everything outside new temporary names, a new key and the wallet directory is undamaged. -/
theorem undamaged_of_off (h : t.AgreeOff (Scratched ctx t ∪ NewKey ctx t ∪ Beneath ctx.wallet) t') :
    Undamaged ctx t t' where
  outside q hq := by
    apply h
    rintro ((⟨name, rest, rfl, _⟩ | ⟨⟨rest, rfl⟩, _⟩) | ⟨rest, rfl⟩)
    · exact hq ⟨name, rest, rfl⟩
    · exact hq ⟨keyName, rest, by simp [Context.keyPath]⟩
    · exact hq ⟨ctx.fp, rest, by simp [Context.wallet]⟩
  entries name hname hnode rest := by
    apply h
    rintro ((⟨name', rest', heq, _, hnone⟩ | ⟨⟨rest', heq⟩, hnone⟩) | ⟨rest', heq⟩)
    · obtain ⟨rfl, _⟩ := List.cons.inj (List.append_cancel_left heq)
      exact hnode hnone
    · rw [Context.keyPath, List.append_assoc] at heq
      obtain ⟨rfl, _⟩ := List.cons.inj (List.append_cancel_left heq)
      exact hnode hnone
    · rw [Context.wallet, List.append_assoc] at heq
      exact hname (List.cons.inj (List.append_cancel_left heq)).1.symm

variable (ctx) in
/-- The wallet directory is new and holds the whole archive of a remote version, less its receipt
and its marker, with the receipt of this preparation and an empty marker. -/
structure Installed (remote : Remote) (zip : ZipReader) (serde : ReceiptSerde) (t : Tree)
    (version : Int64) (t' : Tree) : Prop where
  absent : t.node ctx.wallet = none
  present : ∃ attr, t'.node ctx.wallet = some (.dir attr) ∧ attr.owned = true
  seen : 0 < version ∧ ∃ n, remote.version n = some version
  archive : ∃ n identity, archivePlan ctx zip (remote.download n) = .ok identity ∧
    ∃ entries : List Entry, zip (remote.download n) = some (entries.map some) ∧
    (∀ e ∈ entries, Entry.isData ctx e = true → e.content.length = e.size.toNat) ∧
    (∀ e ∈ entries, e.isDir = true → cleanName e.name ≠ inWallet ctx receiptName →
      t'.isDirectory (join ctx.base (cleanName e.name)) = true) ∧
    ∃ receipt : Receipt, ∀ rest content, t'.look (ctx.wallet ++ rest) = .file content ↔
      if rest = [markerName] then content = []
      else if rest = [receiptName] then content = encodeReceipt receipt
      else ∃ e ∈ entries, Entry.isData ctx e = true ∧
        join ctx.base (cleanName e.name) = ctx.wallet ++ rest ∧ content = e.content
  accepted : Calmly (loadReceipt ctx serde) t' (fun o s =>
    (∃ f, o = .ok f ∧ f.version = version) ∧ t' = s)

variable {remote : Remote} {zip : ZipReader} {serde : ReceiptSerde}

theorem Promoted.installed {version : Int64} (h : Promoted ctx remote zip t version t') :
    Installed ctx remote zip serde t version t' := by
  obtain ⟨identity', hverified⟩ := h.verified serde
  obtain ⟨n, identity, entries, key, hplan, hzip, hsizes, hsealed⟩ := h.complete
  obtain ⟨entries', hzip', hsound⟩ := archivePlan_sound hplan
  have hsame : entries' = entries := by
    rw [hzip] at hzip'
    exact (List.map_injective_iff.mpr (Option.some_injective _) (Option.some.inj hzip')).symm
  subst hsame
  have hpath (rest : Path) : ctx.wallet ++ rest = ctx.base ++ ctx.fp :: rest := by
    simp [Context.wallet]
  have hjoin {e : Entry} (he : e ∈ entries') (rest : Path) :
      join ctx.base (cleanName e.name) = ctx.base ++ ctx.fp :: rest ↔
        join [] (cleanName e.name) = ctx.fp :: rest := by
    obtain ⟨place, hplaced⟩ := hsound.placed e he
    rw [hplaced.below.join_eq, hplaced.below.join_eq]
    simp
  refine ⟨hsealed.absent, hsealed.holding.dir, ⟨h.positive, h.seen⟩, ⟨n, identity, hplan, entries',
    hzip, hsizes, ?_, ⟨receiptFields ctx version identity,
      @mac crates key (receiptFields ctx version identity)⟩, ?_⟩, ?_⟩
  · intro e he hdir hreceipt
    obtain ⟨place, hplaced⟩ := hsound.placed e he
    rw [hplaced.below.join_eq]
    apply (Tree.isDirectory_iff (by simp)).mpr
    exact hsealed.holding.dirs _ ⟨e, he, hdir, hreceipt, hplaced.below.join_eq⟩
  · intro rest content
    rw [hpath, hsealed.holding.files rest content]
    simp only [Contents.sealed, Contents.with, archiveContents]
    split
    · exact Iff.rfl
    split
    · exact Iff.rfl
    refine exists_congr fun e => and_congr_right fun he => and_congr_right fun _ =>
      and_congr_left fun _ => ?_
    exact (hjoin he rest).symm
  · refine (loadReceipt_calm hverified).mono ?_
    rintro _ _ ⟨rfl, rfl⟩
    exact ⟨⟨_, rfl, rfl⟩, rfl⟩

/-! ### The next preparation -/

variable {signer : SignerCrate} {configured : StaticState}

theorem contextNew_calmly (h : Configured crates signer configured t ctx) :
    Calmly (@Context.new crates signer configured) t (fun o u => o = .ok ctx ∧ t = u) := by
  obtain ⟨attr, hdir⟩ := h.dir
  obtain ⟨endpoint, source, hurl, hsource, hctx⟩ := h.source
  unfold Context.new
  rw [hurl]
  apply calmly_bind
  apply calmly_mapError
  apply calmly_primitive
  intro _
  rw [hdir]
  change Calmly (_ >>= _) t _
  apply calmly_bind
  apply calmly_mapError
  apply calmly_primitive
  intro _
  apply calmly_bind
  apply calmly_primitive
  intro _
  rw [hsource]
  change Calmly (ofExcept (Context.fromSource signer configured configured.storageDirPath
    endpoint source)) t _
  rw [hctx]
  exact calmly_pure ⟨rfl, rfl⟩

/-- There is one context at most. -/
theorem Configured.unique {ctx' : Context crates} (h : Configured crates signer configured t ctx)
    (h' : Configured crates signer configured t ctx') : ctx' = ctx := by
  have hrun := (contextNew_calmly h [] calm_nil).2.1
  rw [(contextNew_calmly h' [] calm_nil).2.1] at hrun
  exact Outcome.ok.inj hrun

/-- The descriptor and the storage directory are among what is undamaged. -/
theorem Undamaged.configured_nodes (h : Undamaged ctx t t')
    (hconf : Configured crates signer configured t ctx) :
    t'.node configured.storageDirPath = t.node configured.storageDirPath ∧
      t'.node (keySourcePath configured.storageDirPath) =
        t.node (keySourcePath configured.storageDirPath) := by
  rw [← hconf.base_eq]
  constructor
  · apply h.outside
    rintro ⟨name, rest, heq⟩
    have hlength := congrArg List.length heq
    simp at hlength
  · apply h.entries "key_source.json" (Ne.symm (fp_ne (by decide)))
    intro hnone
    obtain ⟨_, source, _, hsource, _⟩ := hconf.source
    rw [← hconf.base_eq, signer.readKeySourceFile_absent t ctx.base hnone] at hsource
    cases hsource

theorem Undamaged.carries (h : Undamaged ctx t t')
    (hconf : Configured crates signer configured t ctx) :
    Configured crates signer configured t' ctx := by
  obtain ⟨hdir, hsource⟩ := h.configured_nodes hconf
  refine ⟨by rw [hdir]; exact hconf.dir, ?_⟩
  rw [signer.readKeySourceFile_congr t t' _ hsource]
  exact hconf.source

/-- Where the wallet directory is there and its receipt loads, a preparation answers its version. -/
theorem prepare_present {version : Int64} {attr : Attr}
    (hconf : Configured crates signer configured t' ctx)
    (howned : ∃ attr, t'.node ctx.base = some (.dir attr) ∧ attr.owned = true)
    (hwallet : t'.node ctx.wallet = some (.dir attr))
    (hload : Calmly (loadReceipt ctx serde) t'
      (fun o s => (∃ f, o = .ok f ∧ f.version = version) ∧ t' = s)) :
    Calmly (prepare crates signer configured remote zip serde) t' (fun o s =>
      o = .ok (crates.toText (ctx.result (some version))) ∧ t' = s) := by
  apply calmly_bind
  apply calmly_primitive
  intro _
  apply calmly_bind
  apply calmly_primitive
  intro _
  apply calmly_bind
  apply calmly_primitive
  intro _
  apply calmly_bind
  refine (contextNew_calmly hconf).mono ?_
  rintro _ _ ⟨rfl, rfl⟩
  apply calmly_bind
  obtain ⟨attr, hbase, howned⟩ := howned
  refine (openDirectory_calm hbase howned).mono ?_
  rintro _ _ ⟨rfl, rfl⟩
  apply calmly_bind
  refine metadataOk_calmly.mono ?_
  rintro _ _ ⟨rfl, rfl⟩
  rw [hwallet]
  apply calmly_bind
  refine hload.mono ?_
  rintro _ _ ⟨⟨f, rfl, rfl⟩, rfl⟩
  exact calmly_pure ⟨rfl, rfl⟩

/-- The next preparation answers with the version that was promoted. -/
theorem Installed.answers {version : Int64} (h : Installed ctx remote zip serde t version t')
    (hconf : Configured crates signer configured t' ctx)
    (howned : ∃ attr, t'.node ctx.base = some (.dir attr) ∧ attr.owned = true) (remote' : Remote) :
    Calmly (prepare crates signer configured remote' zip serde) t' (fun o s =>
      o = .ok (crates.toText (ctx.result (some version))) ∧ t' = s) := by
  obtain ⟨attr, hwallet, _⟩ := h.present
  exact prepare_present hconf howned hwallet h.accepted

variable (crates signer configured remote zip serde) in
/-- How the next preparation goes on. -/
structure Resumes (t t' : Tree) : Prop where
  /-- What was promoted is answered, whatever the remote store holds by then. -/
  promoted : ∀ ctx version, Configured crates signer configured t ctx →
    Installed ctx remote zip serde t version t' → ∀ remote',
    Calmly (prepare crates signer configured remote' zip serde) t' (fun o s =>
      o = .ok (crates.toText (ctx.result (some version))) ∧ t' = s)
  /-- Otherwise it ends as from the tree before the interrupted one. -/
  restarted : (∀ ctx version, Configured crates signer configured t ctx →
    ¬Installed ctx remote zip serde t version t') → ∀ found bytes,
    Mimics (prepare crates signer configured (.steady found bytes) zip serde) t
      (prepare crates signer configured (.steady found bytes) zip serde) t' (fun _ _ _ => True)

theorem resumes_refl (t : Tree) : Resumes crates remote zip serde signer configured t t where
  promoted ctx version _ hinstalled _ := by
    obtain ⟨attr, hnode, _⟩ := hinstalled.present
    rw [hinstalled.absent] at hnode
    cases hnode
  restarted _ found bytes := mimics_prepare rfl rfl fun ctx _ => ⟨.refl t, fun _ => rfl⟩

theorem Prepared.undamaged (h : Prepared ctx remote zip t t') : Undamaged ctx t t' := by
  apply undamaged_of_off
  rcases h.ends with hleft | ⟨version, hpromoted⟩
  · exact hleft.off.mono Set.subset_union_left
  · obtain ⟨_, _, _, _, _, _, _, hsealed⟩ := hpromoted.complete
    exact hsealed.off

theorem Prepared.key_state (h : Prepared ctx remote zip t t') : KeyState ctx t t' := by
  rcases h.ends with hleft | ⟨version, hpromoted⟩
  · exact hleft.key
  · obtain ⟨_, _, _, _, _, _, _, hsealed⟩ := hpromoted.complete
    exact hsealed.key_state

/-- The wallet directory is as it was, or it has been installed. -/
theorem Prepared.wallet (h : Prepared ctx remote zip t t') :
    (∀ rest, t'.node (ctx.wallet ++ rest) = t.node (ctx.wallet ++ rest)) ∨
      ∃ version, Installed ctx remote zip serde t version t' := by
  rcases h.ends with hleft | ⟨version, hpromoted⟩
  · left
    intro rest
    rw [Context.wallet, List.append_assoc]
    exact hleft.other fp_not_scratch (fp_ne (by decide)) rest
  · exact Or.inr ⟨version, hpromoted.installed⟩

theorem Prepared.resumes (h : Prepared ctx remote zip t t')
    (hconf : Configured crates signer configured t ctx) :
    Resumes crates remote zip serde signer configured t t' where
  promoted ctx' version hconf' hinstalled remote' := by
    obtain rfl := hconf.unique hconf'
    refine hinstalled.answers (h.undamaged.carries hconf) ?_ remote'
    rcases h.owned with hsame | ⟨attr, hbase, howned⟩
    · obtain ⟨attr, hnode, _⟩ := hinstalled.present
      rw [hsame, hinstalled.absent] at hnode
      cases hnode
    · refine ⟨attr, ?_, howned⟩
      rw [h.undamaged.outside, hbase]
      rintro ⟨name, rest, heq⟩
      have hlength := congrArg List.length heq
      simp at hlength
  restarted hnone found bytes := by
    obtain ⟨hdir, hsource⟩ := h.undamaged.configured_nodes hconf
    refine mimics_prepare hdir hsource ?_
    intro ctx' hconf'
    obtain rfl := hconf.unique hconf'
    refine ⟨?_, h.present⟩
    rcases h.ends with hleft | ⟨version, hpromoted⟩
    · exact hleft
    · exact absurd hpromoted.installed (hnone ctx' version hconf)

/-! ### What is answered -/

variable (ctx remote zip serde) in
/-- What an answer stands for: no remote version was there and nothing has changed, or its version
was promoted, by this preparation or before it. -/
def Answered (t : Tree) (text : String) (t' : Tree) : Prop :=
  (text = crates.toText (ctx.result none) ∧ t' = t) ∨
    ∃ version, text = crates.toText (ctx.result (some version)) ∧
      (Promoted ctx remote zip t version t' ∨
        t' = t ∧ ∃ f, Verified ctx serde t f ∧ f.version = version) ∧
      ∃ attr, t'.node ctx.base = some (.dir attr) ∧ attr.owned = true

theorem prepareIn_answered : Holds (prepareIn remote ctx zip serde) t (fun o t' =>
    ∀ text, o = .ok text → Answered ctx remote zip serde t text t') := by
  apply holds_bind
  refine openDirectory_spec.mono ?_
  rintro o _ ⟨rfl, _, hdir⟩
  cases o with
  | error _ => exact fun _ h => by cases h
  | panicked => exact fun _ h => by cases h
  | died => exact fun _ h => by cases h
  | ok _ =>
  obtain ⟨attr, hbase, howned⟩ := hdir rfl
  apply holds_bind
  refine metadataOk_spec.mono ?_
  rintro o _ ⟨rfl, _⟩
  cases o with
  | error _ => exact fun _ h => by cases h
  | panicked => exact fun _ h => by cases h
  | died => exact fun _ h => by cases h
  | ok found =>
  cases found with
  | true =>
    apply holds_bind
    refine loadReceipt_spec.mono ?_
    rintro o _ ⟨rfl, _, hverified⟩
    cases o with
    | ok f =>
      apply holds_pure
      rintro _ ⟨⟩
      exact Or.inr ⟨f.version, rfl, Or.inr ⟨rfl, f, hverified f rfl, rfl⟩, attr, hbase, howned⟩
    | error _ => exact fun _ h => by cases h
    | panicked => exact fun _ h => by cases h
    | died => exact fun _ h => by cases h
  | false =>
    refine fetch_spec.mono ?_
    rintro o t' ⟨_, ho⟩ text rfl
    rcases ho with hnone | ⟨version, htext, hpromoted⟩
    · exact Or.inl hnone
    · refine Or.inr ⟨version, htext, Or.inl hpromoted, attr, ?_, howned⟩
      obtain ⟨_, _, _, _, _, _, _, hsealed⟩ := hpromoted.complete
      rw [(undamaged_of_off hsealed.off).outside, hbase]
      rintro ⟨name, rest, heq⟩
      have hlength := congrArg List.length heq
      simp at hlength

theorem requireLocked_quiet (t : Tree) : Quiet requireLocked t :=
  holds_primitive (fun _ => ⟨rfl, by simp⟩) ⟨rfl, by simp⟩ ⟨rfl, by simp⟩

theorem prepare_answered : Holds (prepare crates signer configured remote zip serde) t (fun o t' =>
    ∀ text, o = .ok text → ∃ ctx, Configured crates signer configured t ctx ∧
      Answered ctx remote zip serde t text t') := by
  refine holds_bind_quiet (checkState_quiet t) ?_ (fun _ _ h => by cases h) (fun _ h => by cases h)
  intro _
  refine holds_bind_quiet (checkState_quiet t) ?_ (fun _ _ h => by cases h) (fun _ h => by cases h)
  intro _
  refine holds_bind_quiet (requireLocked_quiet t) ?_ (fun _ _ h => by cases h)
    (fun _ h => by cases h)
  intro _
  apply holds_bind
  refine contextNew_spec.mono ?_
  rintro o _ ⟨rfl, _, hctx⟩
  cases o with
  | error _ => exact fun _ h => by cases h
  | panicked => exact fun _ h => by cases h
  | died => exact fun _ h => by cases h
  | ok ctx => exact prepareIn_answered.mono fun _ _ h text htext =>
    ⟨ctx, hctx ctx rfl, h text htext⟩

/-- Wherever a preparation stops, the wallet directory is as it was or newly holds the whole archive
with a receipt that verifies, no other entry of the storage directory has changed, a key that was
there is the same one, an answer with a version is about a wallet directory that is newly there or
was there with this version, and the next preparation answers what was promoted or starts again. -/
theorem prepare_all_or_nothing :
    Holds (prepare crates signer configured remote zip serde) t (fun o t' =>
      o ≠ .panicked ∧
      (t' = t ∨ ∃ ctx, Configured crates signer configured t ctx ∧ Undamaged ctx t t' ∧
        KeyState ctx t t' ∧ ((∀ rest, t'.node (ctx.wallet ++ rest) = t.node (ctx.wallet ++ rest)) ∨
          ∃ version, Installed ctx remote zip serde t version t')) ∧
      (∀ text, o = .ok text → ∃ ctx, Configured crates signer configured t ctx ∧
        ((text = crates.toText (ctx.result none) ∧ t' = t) ∨
          ∃ version, text = crates.toText (ctx.result (some version)) ∧
            (Installed ctx remote zip serde t version t' ∨ t' = t ∧ t.node ctx.wallet ≠ none ∧
              Calmly (loadReceipt ctx serde) t (fun o s =>
                (∃ f, o = .ok f ∧ f.version = version) ∧ t = s)))) ∧
      Resumes crates remote zip serde signer configured t t') ∧
    -- from its creation on, the rest of the preparation keeps a new key as well
    ∀ (ctx : Context crates) (k : ℕ) (version : Int64) (identity : String) (key : Bytes) (t : Tree),
      Holds (.ensure (finish ctx (ctx.base ++ [tempName ".vss-restore-" k]) version identity key)
        fun _ => discard (removeDirAll (ctx.base ++ [tempName ".vss-restore-" k]))) t
        (fun _ => KeepsKey ctx t) := by
  refine ⟨?_, fun ctx k version identity key t => finish_keepsKey version identity key t⟩
  refine (prepare_spec.and prepare_answered).mono ?_
  rintro o t' ⟨⟨hends, hpanic⟩, hanswered⟩
  have hanswer : ∀ text, o = .ok text → ∃ ctx, Configured crates signer configured t ctx ∧
      ((text = crates.toText (ctx.result none) ∧ t' = t) ∨
        ∃ version, text = crates.toText (ctx.result (some version)) ∧
          (Installed ctx remote zip serde t version t' ∨ t' = t ∧ t.node ctx.wallet ≠ none ∧
            Calmly (loadReceipt ctx serde) t (fun o s =>
              (∃ f, o = .ok f ∧ f.version = version) ∧ t = s))) := by
    intro text htext
    obtain ⟨ctx, hconf, hnone | ⟨version, hversion, hbefore, _⟩⟩ := hanswered text htext
    · exact ⟨ctx, hconf, Or.inl hnone⟩
    refine ⟨ctx, hconf, Or.inr ⟨version, hversion, ?_⟩⟩
    rcases hbefore with hpromoted | ⟨rfl, f, hverified, rfl⟩
    · exact Or.inl hpromoted.installed
    · obtain ⟨attr, hdir, _⟩ := hverified.dir
      refine Or.inr ⟨rfl, by rw [hdir]; simp, (loadReceipt_calm hverified).mono ?_⟩
      rintro _ _ ⟨rfl, rfl⟩
      exact ⟨⟨f, rfl, rfl⟩, rfl⟩
  rcases hends with rfl | ⟨ctx, hconf, hprepared⟩
  · exact ⟨hpanic, Or.inl rfl, hanswer, resumes_refl t'⟩
  · exact ⟨hpanic, Or.inr ⟨ctx, hconf, hprepared.undamaged, hprepared.key_state, hprepared.wallet⟩,
      hanswer, hprepared.resumes hconf⟩

/-! ### A preparation that succeeds -/

def sampleSource : KeySource where
  mode := "external_signer"
  masterFingerprint := "a1b2c3d4"
  nodeId := "020202020202020202020202020202020202020202020202020202020202020202"
  accountXpubVanilla := "v"
  accountXpubColored := "c"

def sampleSigner : SignerCrate where
  readKeySourceFile t base := match t.node (keySourcePath base) with
    | none => some none
    | some (.file _ _) => some (some sampleSource)
    | some _ => none
  externalSignerMode := "external_signer"
  parsePublicKey := keyText
  parseXpub _ := true
  deriveVssIdentity _ := .ok ()
  publicKey_text _ h := h
  readKeySourceFile_congr t t' base h := by rw [h]
  readKeySourceFile_absent t base h := by rw [h]

/-- A storage directory with a descriptor. -/
def sampleHome : Tree :=
  (Tree.empty.put ["w"] (.dir (ownedAttr 0o700))).put ["w", "key_source.json"]
    (.file [] (ownedAttr 0o600))

def sampleConfigured : StaticState := ⟨some "https://example.invalid/vss", ["w"], "signet"⟩

def sampleRemote : Remote := ⟨fun _ => some 7, fun _ => sampleArchive⟩

theorem sample_answers : (prepare sampleCrates sampleSigner sampleConfigured sampleRemote sampleZip
    compactReceipts sampleHome []).1 = .ok sampleAnswer := by
  decide +kernel

/-- The preparation of version seven puts its wallet directory in place. -/
theorem prepare_all_or_nothing_sample :
    ∃ (ctx : Context sampleCrates) (version : Int64),
      sampleAnswer = sampleCrates.toText (ctx.result (some version)) ∧
      Installed ctx sampleRemote sampleZip compactReceipts sampleHome version
        (prepare sampleCrates sampleSigner sampleConfigured sampleRemote sampleZip compactReceipts
          sampleHome []).2.1 := by
  have hends : Holds (prepare sampleCrates sampleSigner sampleConfigured sampleRemote sampleZip
      compactReceipts) sampleHome _ := prepare_all_or_nothing.1
  obtain ⟨_, _, hanswer, _⟩ := hends []
  obtain ⟨ctx, hconf, ⟨hnone, _⟩ | ⟨version, hversion, hinstalled | ⟨_, hwallet, _⟩⟩⟩ :=
    hanswer sampleAnswer sample_answers
  · change sampleAnswer = sampleIdentityText at hnone
    exact absurd hnone (by decide)
  · exact ⟨ctx, version, hversion, hinstalled⟩
  · obtain ⟨endpoint, source, hurl, hsource, hctx⟩ := hconf.source
    obtain ⟨hbase, _, hfp⟩ := fromSource_spec hctx
    cases hsource
    rw [Context.wallet, hbase, hfp] at hwallet
    exact absurd rfl hwallet

end RgbLightningNode.Restore
