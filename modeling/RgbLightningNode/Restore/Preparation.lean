import RgbLightningNode.Restore.Sealing

/-!
# What a preparation can leave behind

Until the promotion a preparation touches only new temporary names and a new receipt key. The
promotion moves a complete wallet directory into place. A crash or a failure at any step therefore
leaves either the one or the other.
-/

namespace RgbLightningNode.Restore
open Faulty FileSystem Text

variable {crates : Crates} {ctx : Context crates}

/-! ### The promotion -/

variable (ctx) in
/-- A wallet directory with these contents has been moved to where there was none. -/
structure Sealed (t : Tree) (contents : Contents) (key : Bytes) (s : Tree) : Prop where
  absent : t.node ctx.wallet = none
  off : t.AgreeOff (Scratched ctx t ∪ NewKey ctx t ∪ Beneath ctx.wallet) s
  key_state : KeyState ctx t s
  keyFile : KeyFile ctx s key
  holding : Holding ctx ctx.base contents s

section Finish

variable {t s s' : Tree} {contents : Contents} {key : Bytes} {stage : Path}

theorem fp_ne {name : Name} (hname : validFp name = false) : ctx.fp ≠ name := by
  rintro rfl
  rw [ctx.fp_valid] at hname
  cases hname

theorem fp_not_scratch : ¬Scratch ctx.fp := fun hscratch => fp_ne hscratch.invalid rfl

theorem wallet_notMem : ctx.wallet ∉ Scratched ctx t ∪ NewKey ctx t := by
  rintro (hscratch | hkey)
  · exact notMem_scratched fp_not_scratch hscratch
  · exact notMem_newKey (fp_ne (by decide)) hkey

theorem Leftovers.wallet (h : Leftovers ctx t s) : s.node ctx.wallet = t.node ctx.wallet :=
  h.off _ wallet_notMem

theorem keyFile_congr (h : KeyFile ctx s key) (hsame : s'.node ctx.keyPath = s.node ctx.keyPath) :
    KeyFile ctx s' key := by
  obtain ⟨⟨attr, hnode, hrest⟩, hlength⟩ := h
  exact ⟨⟨attr, by rw [hsame, hnode], hrest⟩, hlength⟩

theorem key_notMem_wallet : ctx.keyPath ∉ Beneath ctx.wallet := by
  rintro ⟨rest, heq⟩
  rw [Context.wallet, List.append_assoc] at heq
  exact fp_ne (by decide) (List.cons.inj (List.append_cancel_left heq)).1

namespace Sealed

/-- Only temporary names change. -/
theorem scratch (h : Sealed ctx t contents key s) (hoff : s.AgreeOff (Scratched ctx t) s') :
    Sealed ctx t contents key s' where
  absent := h.absent
  off := h.off.trans (hoff.mono fun _ hq => Or.inl (Or.inl hq))
  key_state := h.key_state.congr (hoff _ key_notMem_scratched)
  keyFile := keyFile_congr h.keyFile (hoff _ key_notMem_scratched)
  holding := h.holding.congr fun _ => hoff _ (notMem_scratched fp_not_scratch)

end Sealed

/-- The rename moves the sealed directory to where there was none. -/
theorem sealed_of_move (h : Leftovers ctx t s) (hstage : Beneath stage ⊆ Scratched ctx t)
    (hholding : Holding ctx stage contents s) (hkey : KeyFile ctx s key)
    (hnone : s.node ctx.wallet = none) :
    Sealed ctx t contents key (s.move (stage ++ [ctx.fp]) ctx.wallet) := by
  have hmoved := move_agreeOff s (stage ++ [ctx.fp]) ctx.wallet
  have hsub : Beneath (stage ++ [ctx.fp]) ⊆ Scratched ctx t := by
    rintro q ⟨rest, rfl⟩
    exact hstage ⟨ctx.fp :: rest, by simp⟩
  have hsame : (s.move (stage ++ [ctx.fp]) ctx.wallet).node ctx.keyPath = s.node ctx.keyPath := by
    apply hmoved
    rintro (hq | hq)
    · exact key_notMem_scratched (hsub hq)
    · exact key_notMem_wallet hq
  refine ⟨?_, ?_, ?_, keyFile_congr hkey hsame, ?_⟩
  · rw [← h.wallet, hnone]
  · apply (h.off.mono Set.subset_union_left).trans
    apply hmoved.mono
    rintro q (hq | hq)
    · exact Or.inl (Or.inl (hsub hq))
    · exact Or.inr hq
  · exact h.key.congr hsame
  · apply hholding.congr
    intro rest
    have hnode := move_node s (stage ++ [ctx.fp]) ctx.wallet rest
    rw [Context.wallet, List.append_assoc, List.append_assoc] at hnode
    exact hnode

/-- How the last part of a preparation can end. -/
def Finished (ctx : Context crates) (t : Tree) (contents : Contents) (key : Bytes)
    (version : Int64) : Outcome APIError String → Tree → Prop := fun o s =>
  (Leftovers ctx t s ∨ Sealed ctx t contents key s) ∧ match o with
    | .ok text => text = crates.toText (ctx.result (some version)) ∧ Sealed ctx t contents key s
    | .error _ | .died => True
    | .panicked => False

theorem checkState_quiet (s : Tree) : Quiet checkState s :=
  holds_primitive (fun _ => ⟨rfl, by simp⟩) ⟨rfl, by simp⟩ ⟨rfl, by simp⟩

theorem checkBase_quiet (s : Tree) : Quiet (checkBase ctx) s := by
  refine holds_primitive ?_ ⟨rfl, by simp⟩ ⟨rfl, by simp⟩
  intro _
  split <;> exact ⟨rfl, by simp⟩

theorem finish_spec (h : Leftovers ctx t s) (hstage : Beneath stage ⊆ Scratched ctx t)
    (hholding : Holding ctx stage contents s) (hkey : KeyFile ctx s key) (version : Int64)
    (manifestHash : String) :
    Holds (finish ctx stage version manifestHash key) s (Finished ctx t
      (contents.sealed ⟨receiptFields ctx version manifestHash,
        @mac crates key (receiptFields ctx version manifestHash)⟩) key version) := by
  apply holds_bind
  refine (stageReceipt_spec hholding _).mono ?_
  rintro o s₁ ⟨hoff, ho⟩
  have h₁ := h.scratch (hoff.mono hstage)
  cases o with
  | error _ => exact ⟨Or.inl h₁, trivial⟩
  | panicked => exact ho.elim
  | died => exact ⟨Or.inl h₁, trivial⟩
  | ok _ =>
  have hkey₁ := keyFile_congr hkey (hoff _ fun hq => key_notMem_scratched (hstage hq))
  refine holds_bind_quiet (openDirectory_quiet _ s₁) ?_ (fun _ => ⟨Or.inl h₁, trivial⟩)
    ⟨Or.inl h₁, trivial⟩
  intro _
  refine holds_bind_quiet (checkState_quiet s₁) ?_ (fun _ => ⟨Or.inl h₁, trivial⟩)
    ⟨Or.inl h₁, trivial⟩
  intro _
  refine holds_bind_quiet (checkBase_quiet s₁) ?_ (fun _ => ⟨Or.inl h₁, trivial⟩)
    ⟨Or.inl h₁, trivial⟩
  intro _
  apply holds_bind
  apply holds_promote
  · intro _ hnone
    have hsealed := sealed_of_move h₁ hstage ho hkey₁ hnone
    refine holds_bind_quiet (syncAll_quiet _ _ _) ?_ (fun _ => ⟨Or.inr hsealed, trivial⟩)
      ⟨Or.inr hsealed, trivial⟩
    intro _
    exact holds_pure ⟨Or.inr hsealed, rfl, hsealed⟩
  · exact ⟨Or.inl h₁, trivial⟩
  · exact ⟨Or.inl h₁, trivial⟩

end Finish

/-! ### The whole preparation -/

variable {remote : Remote} {zip : ZipReader}

variable (ctx remote zip) in
/-- A preparation has put the whole archive of a version in place, with its receipt and marker. -/
structure Promoted (t : Tree) (version : Int64) (s : Tree) : Prop where
  positive : 0 < version
  seen : ∃ n, remote.version n = some version
  complete : ∃ n identity entries key,
    archivePlan ctx zip (remote.download n) = .ok identity ∧
    zip (remote.download n) = some (entries.map some) ∧
    (∀ e ∈ entries, Entry.isData ctx e = true → e.content.length = e.size.toNat) ∧
    Sealed ctx t ((archiveContents ctx entries).sealed ⟨receiptFields ctx version identity,
      @mac crates key (receiptFields ctx version identity)⟩) key s

theorem Promoted.scratch {t s s' : Tree} {version : Int64} (h : Promoted ctx remote zip t version s)
    (hoff : s.AgreeOff (Scratched ctx t) s') : Promoted ctx remote zip t version s' := by
  obtain ⟨n, identity, entries, key, hplan, hzip, hsizes, hsealed⟩ := h.complete
  exact ⟨h.positive, h.seen, n, identity, entries, key, hplan, hzip, hsizes, hsealed.scratch hoff⟩

variable (ctx remote zip) in
/-- How a preparation can end that found no wallet directory. -/
def Fetched (t : Tree) : Outcome APIError String → Tree → Prop := fun o s =>
  (Leftovers ctx t s ∨ ∃ version, Promoted ctx remote zip t version s) ∧ match o with
    | .ok text => (text = crates.toText (ctx.result none) ∧ s = t) ∨
        ∃ version, text = crates.toText (ctx.result (some version)) ∧
          Promoted ctx remote zip t version s
    | .error _ | .died => True
    | .panicked => False

section Fetch

variable {t s : Tree}

theorem getBackupVersion_quiet (s : Tree) : Quiet (getBackupVersion remote) s :=
  holds_primitive (fun _ => ⟨rfl, by simp⟩) ⟨rfl, by simp⟩ ⟨rfl, by simp⟩

/-! ### The parts before and after the code of the receipt -/

theorem stage_notMem_keyPaths {k k' : ℕ} (rest : Path) :
    ctx.base ++ [tempName ".vss-restore-" k] ++ rest ∉ KeyPaths ctx k' := by
  rintro (⟨more, heq⟩ | ⟨more, heq⟩)
  · rw [List.append_assoc, List.append_assoc] at heq
    exact stage_ne_temp k k' (List.cons.inj (List.append_cancel_left heq)).1.symm
  · rw [Context.keyPath, List.append_assoc, List.append_assoc] at heq
    exact Scratch.ne_key ⟨k, Or.inl rfl⟩ (List.cons.inj (List.append_cancel_left heq)).1.symm

/-- What is known once the staging directory is open. -/
structure Staging where
  version : Int64
  bytes : Bytes
  identity : String
  stage : Path

variable (remote ctx zip) in
/-- A preparation up to its staging directory, or none where the remote store has no backup. -/
def openStage : Proc Tree APIError (Option Staging) := do
  rejectOtherWallets ctx
  newClient
  match ← getBackupVersion remote with
  | none => return none
  | some version =>
    if version ≤ 0 then .throw (error "VSS_RESTORE_INVALID_VERSION")
    else do
      let bytes ← downloadBackup remote
      let identity ← ofExcept (archivePlan ctx zip bytes)
      let stage ← tempdirIn ctx.base
      return some ⟨version, bytes, identity, stage⟩

variable (remote ctx zip) in
/-- The work in the staging directory up to the receipt key. -/
def fillStage (st : Staging) : Proc Tree APIError Bytes := do
  extract ctx zip st.bytes st.stage
  let after ← getBackupVersion remote
  if after ≠ some st.version then .throw (error "VSS_RESTORE_VERSION_CHANGED")
  else do
    checkState
    receiptKey ctx

theorem fetch_eq : fetch remote ctx zip = (do
    match ← openStage ctx remote zip with
    | none => return crates.toText (ctx.result none)
    | some st =>
      .ensure (restore remote ctx zip st.bytes st.stage st.version st.identity) fun _ =>
        discard (removeDirAll st.stage)) := by
  unfold fetch openStage
  simp only [bind_assoc]
  refine bind_congr fun _ => bind_congr fun _ => bind_congr fun found => ?_
  cases found with
  | none => rfl
  | some version =>
    by_cases hpositive : version ≤ 0
    · simp only [hpositive, if_true]
      rfl
    · simp only [hpositive, if_false, bind_assoc, pure_bind]

theorem restore_eq (st : Staging) :
    restore remote ctx zip st.bytes st.stage st.version st.identity =
    (do
      let key ← fillStage ctx remote zip st
      finish ctx st.stage st.version st.identity key) := by
  unfold restore fillStage
  simp only [bind_assoc]
  refine bind_congr fun _ => bind_congr fun after => ?_
  by_cases hsame : after ≠ some st.version
  · rw [if_pos hsame, if_pos hsame]
    rfl
  · rw [if_neg hsame, if_neg hsame]
    simp only [bind_assoc]

variable (remote ctx zip) in
/-- A staging directory for an admitted archive of a version that the remote store has. -/
structure Opened (t s : Tree) (st : Staging) : Prop where
  positive : 0 < st.version
  seen : ∃ n, remote.version n = some st.version
  bytes : ∃ n, remote.download n = st.bytes
  plan : archivePlan ctx zip st.bytes = .ok st.identity
  leftovers : Leftovers ctx t s
  fresh : Fresh st.stage s
  stage : ∃ k, st.stage = ctx.base ++ [tempName ".vss-restore-" k]
  free : t.node st.stage = none

theorem Opened.scratched {st : Staging} (h : Opened ctx remote zip t s st) :
    Beneath st.stage ⊆ Scratched ctx t := by
  obtain ⟨k, hstage⟩ := h.stage
  have hfree := h.free
  rw [hstage] at hfree ⊢
  exact beneath_scratched ⟨k, Or.inl rfl⟩ hfree

variable (ctx zip) in
/-- The staging directory holds the whole archive, and the key is there. -/
structure Keyed (t s : Tree) (st : Staging) (key : Bytes) : Prop where
  leftovers : Leftovers ctx t s
  keyFile : KeyFile ctx s key
  whole : ∃ entries : List Entry, zip st.bytes = some (entries.map some) ∧
    (∀ e ∈ entries, Entry.isData ctx e = true → e.content.length = e.size.toNat) ∧
    Holding ctx st.stage (archiveContents ctx entries) s

theorem fillStage_spec {st : Staging} (h : Opened ctx remote zip t s st) :
    Holds (fillStage ctx remote zip st) s (fun o s' => Leftovers ctx t s' ∧ match o with
      | .ok key => Keyed ctx zip t s' st key
      | .error _ | .died => True
      | .panicked => False) := by
  obtain ⟨entries, hzip, hsound⟩ := archivePlan_sound h.plan
  obtain ⟨k, hstage⟩ := h.stage
  have hregion : Region st.stage ctx.fp Unreserved ⊆ Beneath st.stage := by
    rintro q ⟨rest, rfl, _⟩
    exact List.prefix_append _ _
  apply holds_bind
  refine ((extract_spec hzip hsound h.fresh).and (extract_housed hzip)).mono ?_
  rintro o s₁ ⟨⟨⟨files, hstaged, _⟩, ho⟩, hhoused⟩
  have h₁ := h.leftovers.scratch ((hstaged.off.mono hregion).mono h.scratched)
  cases o with
  | error _ => exact ⟨h₁, trivial⟩
  | panicked => exact ho.elim
  | died => exact ⟨h₁, trivial⟩
  | ok _ =>
  have hholding := holding_of_staged h.fresh hsound ho.1 (hhoused rfl)
  refine holds_bind_quiet (getBackupVersion_quiet s₁) ?_ (fun _ => ⟨h₁, trivial⟩) ⟨h₁, trivial⟩
  intro after
  apply holds_ite
  · exact fun _ => holds_throw ⟨h₁, trivial⟩
  intro _
  refine holds_bind_quiet (checkState_quiet s₁) ?_ (fun _ => ⟨h₁, trivial⟩) ⟨h₁, trivial⟩
  intro _
  refine (receiptKey_spec h₁).mono ?_
  rintro o s₂ ⟨k', h₂, hoff₂, hkey⟩
  refine ⟨h₂, ?_⟩
  cases o with
  | error _ => trivial
  | panicked => exact hkey
  | died => trivial
  | ok key =>
    refine ⟨h₂, hkey, entries, hzip, ho.2, hholding.congr fun rest => hoff₂ _ ?_⟩
    have hapart := @stage_notMem_keyPaths crates ctx k k' (ctx.fp :: rest)
    rwa [hstage]

theorem restore_spec {st : Staging} (h : Opened ctx remote zip t s st) :
    Holds (restore remote ctx zip st.bytes st.stage st.version st.identity) s (fun o s' =>
      (Leftovers ctx t s' ∨ ∃ version, Promoted ctx remote zip t version s') ∧ match o with
        | .ok text => text = crates.toText (ctx.result (some st.version)) ∧
            Promoted ctx remote zip t st.version s'
        | .error _ | .died => True
        | .panicked => False) := by
  rw [restore_eq]
  apply holds_bind
  refine (fillStage_spec h).mono ?_
  rintro o s₁ ⟨h₁, ho⟩
  cases o with
  | error _ => exact ⟨Or.inl h₁, trivial⟩
  | panicked => exact ho.elim
  | died => exact ⟨Or.inl h₁, trivial⟩
  | ok key =>
  obtain ⟨entries, hzip, hsizes, hholding⟩ := ho.whole
  obtain ⟨n, hn⟩ := h.bytes
  refine (finish_spec h₁ h.scratched hholding ho.keyFile st.version st.identity).mono ?_
  rintro o s₂ ⟨hend, ho₂⟩
  have hpromoted (hsealed : Sealed ctx t ((archiveContents ctx entries).sealed
      ⟨receiptFields ctx st.version st.identity,
        @mac crates key (receiptFields ctx st.version st.identity)⟩) key s₂) :
      Promoted ctx remote zip t st.version s₂ := by
    refine ⟨h.positive, h.seen, n, st.identity, entries, key, ?_, ?_, hsizes, hsealed⟩
    · rw [hn, h.plan]
    · rw [hn, hzip]
  refine ⟨hend.imp id fun hsealed => ⟨st.version, hpromoted hsealed⟩, ?_⟩
  cases o with
  | ok text => exact ⟨ho₂.1, hpromoted ho₂.2⟩
  | error _ => trivial
  | panicked => exact ho₂
  | died => trivial

theorem removeDirAll_spec (p : Path) : Holds (discard (removeDirAll p)) s (fun o s' =>
    s.AgreeOff (Beneath p) s' ∧ match o with
      | .ok _ | .died => True
      | .error _ | .panicked => False) := by
  apply holds_bind
  apply holds_attempt
  apply holds_step
  rintro ⟨fate, n⟩
  cases fate with
  | proceed => exact holds_pure ⟨pathsBelow_off s p, trivial⟩
  | refuse => exact holds_pure ⟨goneBelow_off s p n, trivial⟩
  | panic => exact holds_pure ⟨goneBelow_off s p n, trivial⟩
  | die => exact ⟨goneBelow_off s p n, trivial⟩

theorem rejectOtherWallets_quiet (s : Tree) : Quiet (rejectOtherWallets ctx) s := by
  apply holds_bind
  apply holds_mapError
  refine holds_primitive ?_ ⟨rfl, by simp⟩ ⟨rfl, by simp⟩
  intro _
  refine holds_forM (fun s' => s = s') rfl ?_ ?_
  · rintro name _ _ rfl
    apply holds_bind
    apply holds_mapError
    refine holds_primitive ?_ ⟨rfl, by simp⟩ ⟨rfl, by simp⟩
    intro _
    apply holds_ite
    · exact fun _ => holds_throw ⟨rfl, by simp⟩
    · exact fun _ => holds_pure rfl
  · rintro _ rfl
    exact ⟨rfl, by simp⟩

theorem newClient_quiet (s : Tree) : Quiet newClient s :=
  holds_primitive (fun _ => ⟨rfl, by simp⟩) ⟨rfl, by simp⟩ ⟨rfl, by simp⟩

/-- A new staging directory. -/
theorem fresh_of_untaken {stage : Path} {attr : Attr} (hfree : taken t stage = false)
    (hne : stage ≠ []) : Fresh stage (t.put stage (.dir attr)) where
  dir := (Tree.isDirectory_iff hne).mpr ⟨attr, Tree.put_node_self _ _ _⟩
  empty q hbelow hproper := by
    rw [Tree.put_node_of_ne _ _ hproper]
    exact taken_eq_false hfree hbelow

theorem openStage_spec : Holds (openStage ctx remote zip) t (fun o s => match o with
    | .ok (some st) => Opened ctx remote zip t s st
    | .ok none | .error _ | .died => t = s
    | .panicked => False) := by
  refine holds_bind_quiet (rejectOtherWallets_quiet t) ?_ (fun _ => rfl) rfl
  intro _
  refine holds_bind_quiet (newClient_quiet t) ?_ (fun _ => rfl) rfl
  intro _
  apply holds_bind
  refine holds_primitive ?_ rfl rfl
  intro m
  change Holds (match remote.version m with | none => _ | some version => _) t _
  cases hversion : remote.version m with
  | none => exact holds_pure rfl
  | some version =>
  apply holds_ite
  · exact fun _ => holds_throw rfl
  intro hpositive
  apply holds_bind
  refine holds_primitive ?_ rfl rfl
  intro n
  apply holds_bind
  change Holds (ofExcept (archivePlan ctx zip (remote.download n))) t _
  cases hplan : archivePlan ctx zip (remote.download n) with
  | error failure => exact holds_throw rfl
  | ok identity =>
  apply holds_pure
  apply holds_bind
  refine createTemp_spec.mono ?_
  intro o s ho
  cases o with
  | error _ => exact ho.symm
  | panicked => exact ho.elim
  | died => exact ho.symm
  | ok stage =>
  obtain ⟨k, hstage, hfree, _, rfl⟩ := ho
  have hnone : t.node stage = none := taken_eq_false hfree List.prefix_rfl
  have hscratched : Beneath stage ⊆ Scratched ctx t := by
    rw [hstage] at hnone ⊢
    exact beneath_scratched ⟨k, Or.inl rfl⟩ hnone
  have hcreated := (Leftovers.refl t).scratch
    (((Tree.AgreeOff.refl (Beneath stage) t).put List.prefix_rfl (.dir (ownedAttr 0o700))).mono
      hscratched)
  have hne : stage ≠ [] := by
    rw [hstage]
    simp
  exact holds_pure ⟨Int64.not_le.mp hpositive, ⟨m, hversion⟩, ⟨n, rfl⟩, hplan, hcreated,
    fresh_of_untaken hfree hne, ⟨k, hstage⟩, hnone⟩

theorem fetch_spec : Holds (fetch remote ctx zip) t (Fetched ctx remote zip t) := by
  have hrefl : Leftovers ctx t t := .refl t
  rw [fetch_eq]
  apply holds_bind
  refine openStage_spec.mono ?_
  intro o s ho
  cases o with
  | error _ =>
    obtain rfl := ho
    exact ⟨Or.inl hrefl, trivial⟩
  | panicked => exact ho.elim
  | died =>
    obtain rfl := ho
    exact ⟨Or.inl hrefl, trivial⟩
  | ok opened =>
  cases opened with
  | none =>
    obtain rfl := ho
    exact holds_pure ⟨Or.inl hrefl, Or.inl ⟨rfl, rfl⟩⟩
  | some st =>
  have hscratched := ho.scratched
  apply holds_ensure
  refine (restore_spec ho).mono ?_
  rintro o s₁ ⟨hend, ho⟩
  have hclean (o : Outcome APIError String) (hkeep : ∀ s₂, s₁.AgreeOff (Beneath st.stage) s₂ →
      Fetched ctx remote zip t o s₂) (hdied : ∀ s₂, s₁.AgreeOff (Beneath st.stage) s₂ →
      Fetched ctx remote zip t .died s₂) :
      Holds (discard (removeDirAll st.stage)) s₁
        (fun c s₂ => Fetched ctx remote zip t (o.after c) s₂) := by
    refine (removeDirAll_spec st.stage).mono ?_
    rintro c s₂ ⟨hoff, hc⟩
    cases c with
    | ok _ => exact hkeep s₂ hoff
    | error _ => exact hc.elim
    | panicked => exact hc.elim
    | died => exact hdied s₂ hoff
  have hafter {s₂ : Tree} (hoff : s₁.AgreeOff (Beneath st.stage) s₂) :
      Leftovers ctx t s₂ ∨ ∃ version, Promoted ctx remote zip t version s₂ := by
    rcases hend with hleft | ⟨v, hv⟩
    · exact Or.inl (hleft.scratch (hoff.mono hscratched))
    · exact Or.inr ⟨v, hv.scratch (hoff.mono hscratched)⟩
  cases o with
  | ok text =>
    apply hclean
    · intro s₂ hoff
      exact ⟨hafter hoff, Or.inr ⟨st.version, ho.1, ho.2.scratch (hoff.mono hscratched)⟩⟩
    · exact fun s₂ hoff => ⟨hafter hoff, trivial⟩
  | error _ =>
    apply hclean
    · exact fun s₂ hoff => ⟨hafter hoff, trivial⟩
    · exact fun s₂ hoff => ⟨hafter hoff, trivial⟩
  | panicked => exact ho.elim
  | died => exact ⟨hend, trivial⟩

end Fetch

/-! ### The receipt of a promoted directory -/

section Verified

variable {t s : Tree} {version : Int64} {serde : ReceiptSerde}

theorem unescaped_of_hex {c : Char} (h : (lowerHex c || ('A' ≤ c && c ≤ 'F')) = true) :
    Unescaped c := by
  have hall : ∀ n < 0x80, (lowerHex (Char.ofNat n) || ('A' ≤ Char.ofNat n && Char.ofNat n ≤ 'F')) =
      true → shortEscape (Char.ofNat n) = none ∧ 0x20 ≤ (Char.ofNat n).toNat ∧
        (Char.ofNat n).toNat < 0x80 := by
    decide
  have hlow : c.toNat < 0x80 := by
    simp only [lowerHex, Char.isDigit, Bool.or_eq_true, Bool.and_eq_true, decide_eq_true_eq] at h
    rcases h with (⟨_, h⟩ | ⟨_, h⟩) | ⟨_, h⟩
    · exact Nat.lt_of_le_of_lt (UInt32.le_iff_toNat_le.mp h) (by decide)
    · exact Nat.lt_of_le_of_lt (UInt32.le_iff_toNat_le.mp h) (by decide)
    · exact Nat.lt_of_le_of_lt (UInt32.le_iff_toNat_le.mp h) (by decide)
  have hc := hall c.toNat hlow
  rw [Char.ofNat_toNat] at hc
  exact hc h

theorem nodeId_fits : Fits ctx.nodeId 130 := by
  have htext := ctx.nodeId_text
  simp only [keyText, Bool.and_eq_true, Bool.or_eq_true, beq_iff_eq, List.all_eq_true] at htext
  obtain ⟨hlength, hall⟩ := htext
  exact ⟨by omega, fun c hc => unescaped_of_hex (by simpa using hall c hc)⟩

theorem fp_fits : Fits ctx.fp 8 := by
  have hvalid := ctx.fp_valid
  simp only [validFp, Bool.and_eq_true, beq_iff_eq, List.all_eq_true] at hvalid
  exact ⟨by omega, fun c hc => unescaped_of_hex (by simp [hvalid.2 c hc])⟩

theorem network_fits {content : Bytes} {identity : String}
    (h : manifestIdentity content ctx = .ok identity) : Fits ctx.network 16 := by
  unfold manifestIdentity at h
  split at h
  · cases h
  split at h
  · cases h
  rename_i expected hexpected
  unfold expectedNetwork at hexpected
  split at hexpected
  · rename_i hnetwork
    rw [hnetwork]
    exact ⟨by decide, forall_of_all (by decide)⟩
  · rename_i hnetwork
    rw [hnetwork]
    exact ⟨by decide, forall_of_all (by decide)⟩
  · rename_i hnetwork
    rw [hnetwork]
    exact ⟨by decide, forall_of_all (by decide)⟩
  · rename_i hnetwork
    rw [hnetwork]
    exact ⟨by decide, forall_of_all (by decide)⟩
  · rename_i hnetwork
    rw [hnetwork]
    exact ⟨by decide, forall_of_all (by decide)⟩
  · cases hexpected

theorem identity_fits {content : Bytes} {identity : String}
    (h : manifestIdentity content ctx = .ok identity) : Fits identity 64 := by
  unfold manifestIdentity at h
  split at h
  · cases h
  split at h
  · cases h
  split at h
  · cases h
  split at h
  · cases h
  cases h
  exact digest_fits _

theorem receiptFields_bounded {content : Bytes} {identity : String}
    (h : manifestIdentity content ctx = .ok identity) (version : Int64) :
    Bounded (receiptFields ctx version identity) where
  network := network_fits h
  nodeId := nodeId_fits
  fingerprint := fp_fits
  endpoint := by
    change Fits ctx.endpointHash 64
    rw [ctx.endpointHash_eq]
    exact digest_fits _
  target := by
    change Fits ctx.targetHash 64
    rw [ctx.targetHash_eq]
    exact digest_fits _
  identity := identity_fits h

theorem mac_fits (key : Bytes) (f : Fields) : Fits (@mac crates key f) 64 := by
  unfold Fits mac
  rw [String.toList_ofList, hex_length, crates.hmac_length]
  refine ⟨le_refl _, ?_⟩
  intro c hc
  obtain ⟨b, _, hb⟩ := List.mem_flatMap.mp hc
  have hbyte := b.toNat_lt
  rcases List.mem_cons.mp hb with rfl | hb
  · exact hexDigit_unescaped _ (by omega)
  · rw [List.mem_singleton.mp hb]
    exact hexDigit_unescaped _ (by omega)

theorem mismatched_receiptFields (hpositive : 0 < version) (identity : String) :
    mismatched ctx (receiptFields ctx version identity) = false := by
  have hversion : ¬version ≤ 0 := Int64.not_le.mpr hpositive
  simp [mismatched, receiptFields, hversion]

/-- The contents that the receipt and the marker leave alone. -/
theorem sealed_of_other {contents : Contents} {receipt : Receipt} {rest : Path} {content : Bytes}
    (hreceipt : rest ≠ [receiptName]) (hmarker : rest ≠ [markerName]) :
    (contents.sealed receipt).file rest content ↔ contents.file rest content := by
  simp [Contents.sealed, Contents.with, hreceipt, hmarker]

theorem sealed_receipt {contents : Contents} {receipt : Receipt} :
    (contents.sealed receipt).file [receiptName] (encodeReceipt receipt) := by
  simp [Contents.sealed, Contents.with, show receiptName ≠ markerName by decide]

/-- The manifest that the plan read is one of the archive's files. -/
theorem archive_manifest {entries : List Entry} {identity : String}
    (hsound : Sound ctx entries identity)
    (hsizes : ∀ e ∈ entries, Entry.isData ctx e = true → e.content.length = e.size.toNat) :
    ∃ content, (archiveContents ctx entries).file ["wallet_manifest.json"] content ∧
      content.length ≤ maxManifest ∧ manifestIdentity content ctx = .ok identity := by
  obtain ⟨e, he, hstates⟩ := hsound.states
  obtain ⟨rest, hplaced⟩ := hsound.placed e he
  have hrest : rest = ["wallet_manifest.json".toList] :=
    (hplaced.below.eq_inWallet (by decide)).mp hstates.name
  have hreceipt : cleanName e.name ≠ inWallet ctx receiptName := by
    rw [ne_eq, hplaced.below.eq_inWallet (by decide), hrest]
    decide
  have hdata := isData_iff.mpr ⟨hstates.file, hreceipt⟩
  have hlength := hsizes e he hdata
  have hsize := hstates.size
  refine ⟨e.content, ⟨e, he, hdata, ?_, rfl⟩, by omega, ?_⟩
  · rw [hplaced.below.join_eq, hrest]
    simp
  · have hwhole : (e.take (maxManifest + 1)).bytes = e.content :=
      List.take_of_length_le (by omega)
    rw [← hwhole]
    exact hstates.identity

/-- A promoted directory holds a receipt of its version that verifies. -/
theorem Promoted.verified (serde : ReceiptSerde) (h : Promoted ctx remote zip t version s) :
    ∃ identity, Verified ctx serde s (receiptFields ctx version identity) := by
  obtain ⟨n, identity, entries, key, hplan, hzip, hsizes, hsealed⟩ := h.complete
  obtain ⟨entries', hzip', hsound⟩ := archivePlan_sound hplan
  have hsame : entries' = entries := by
    rw [hzip] at hzip'
    exact (List.map_injective_iff.mpr (Option.some_injective _) (Option.some.inj hzip')).symm
  subst hsame
  obtain ⟨content, hcontent, hlength, hidentity⟩ := archive_manifest hsound hsizes
  have hpath (name : Name) : ctx.base ++ ctx.fp :: [name] = ctx.wallet ++ [name] := by
    simp [Context.wallet]
  refine ⟨identity, hsealed.holding.dir, mismatched_receiptFields h.positive identity, ?_, ?_⟩
  · obtain ⟨attr, hnode, hattr⟩ := hsealed.holding.file_node sealed_receipt
    rw [hpath] at hnode
    refine ⟨key, _, _, hsealed.keyFile, ⟨attr, hnode, ?_, ?_⟩, serde.decode_encode _, rfl⟩
    · rw [hattr (by decide)]
      rfl
    · exact encodeReceipt_length (receiptFields_bounded hidentity version) (mac_fits key _)
  · obtain ⟨attr, hnode, hattr⟩ := hsealed.holding.file_node
      ((sealed_of_other (by decide) (by decide)).mpr hcontent)
    rw [hpath] at hnode
    refine ⟨content, ⟨attr, hnode, ?_, hlength⟩, hidentity⟩
    rw [hattr (by decide)]
    rfl

end Verified

/-! ### From the configuration on -/

section Prepare

variable {signer : SignerCrate} {configured : StaticState} {t : Tree} {serde : ReceiptSerde}

variable (crates signer configured) in
/-- The context that the configuration and the descriptor on disk give. -/
structure Configured (t : Tree) (ctx : Context crates) : Prop where
  dir : ∃ attr, t.node configured.storageDirPath = some (.dir attr)
  source : ∃ endpoint source, configured.vssUrl = some endpoint ∧
    signer.readKeySourceFile t configured.storageDirPath = some (some source) ∧
    Context.fromSource signer configured configured.storageDirPath endpoint source = .ok ctx

theorem fromSource_spec {base : Path} {endpoint : String} {source : KeySource}
    (h : Context.fromSource signer configured base endpoint source = .ok ctx) :
    ctx.base = base ∧ ctx.endpoint = endpoint ∧ ctx.fp = source.masterFingerprint := by
  unfold Context.fromSource at h
  split at h
  · split at h
    · cases h
    · cases h
      exact ⟨rfl, rfl, rfl⟩
  · cases h

theorem Configured.base_eq (h : Configured crates signer configured t ctx) :
    ctx.base = configured.storageDirPath := by
  obtain ⟨endpoint, source, _, _, hctx⟩ := h.source
  exact (fromSource_spec hctx).1

theorem contextNew_spec : Holds (@Context.new crates signer configured) t (fun o t' =>
    t = t' ∧ o ≠ .panicked ∧ ∀ ctx, o = .ok ctx → Configured crates signer configured t ctx) := by
  have hfail : ∀ e : APIError, t = t ∧
      (Outcome.error e : Outcome APIError (Context crates)) ≠ .panicked ∧
      ∀ ctx, (Outcome.error e : Outcome APIError (Context crates)) = .ok ctx →
        Configured crates signer configured t ctx :=
    fun e => ⟨rfl, by simp, fun ctx h => by cases h⟩
  have hdead : t = t ∧ (Outcome.died : Outcome APIError (Context crates)) ≠ .panicked ∧
      ∀ ctx, (Outcome.died : Outcome APIError (Context crates)) = .ok ctx →
        Configured crates signer configured t ctx :=
    ⟨rfl, by simp, fun ctx h => by cases h⟩
  unfold Context.new
  cases hurl : configured.vssUrl with
  | none => exact holds_throw (hfail _)
  | some endpoint =>
  apply holds_bind
  apply holds_mapError
  apply holds_symlinkMetadata
  · intro n hn
    apply holds_ite
    · exact fun _ => holds_throw (hfail _)
    intro hdir
    have hattr : ∃ attr, t.node configured.storageDirPath = some (.dir attr) := by
      cases n with
      | dir attr => exact ⟨attr, hn⟩
      | file bytes attr => exact absurd rfl hdir
      | symlink => exact absurd rfl hdir
      | special => exact absurd rfl hdir
    apply holds_bind
    apply holds_mapError
    refine holds_primitive ?_ (hfail _) hdead
    intro _
    apply holds_bind
    refine holds_primitive ?_ (hfail _) hdead
    intro _
    cases hsource : signer.readKeySourceFile t configured.storageDirPath with
    | none => exact hfail _
    | some found =>
      cases found with
      | none => exact holds_throw (hfail _)
      | some source =>
        change Holds (ofExcept (Context.fromSource signer configured configured.storageDirPath
          endpoint source)) t _
        cases hctx : @Context.fromSource crates signer configured
            configured.storageDirPath endpoint source with
        | error failure => exact holds_throw (hfail _)
        | ok ctx =>
          apply holds_pure
          refine ⟨rfl, by simp, ?_⟩
          intro ctx' heq
          cases heq
          exact ⟨hattr, endpoint, source, hurl, hsource, hctx⟩
  · exact fun _ => hfail _
  · exact hfail _
  · exact hdead

theorem mem_children {p : Path} {name : Name} :
    name ∈ children t p ↔ t.node (p ++ [name]) ≠ none := by
  unfold children
  rw [List.mem_filterMap]
  constructor
  · rintro ⟨q, hq, hlast⟩
    rw [List.mem_filter, Bool.and_eq_true, decide_eq_true_eq] at hq
    obtain ⟨_, ⟨hne, rfl⟩, hsome⟩ := hq
    rw [List.dropLast_append_getLast? _ hlast]
    exact Option.isSome_iff_ne_none.mp hsome
  · intro hnode
    have hsome := Option.isSome_iff_ne_none.mpr hnode
    refine ⟨p ++ [name], ?_, by simp⟩
    rw [List.mem_filter, Bool.and_eq_true, decide_eq_true_eq]
    exact ⟨t.complete _ hsome, ⟨by simp, by simp⟩, hsome⟩

/-- A preparation goes on only where no wallet directory is listed. -/
theorem rejectOtherWallets_spec : Holds (rejectOtherWallets ctx) t (fun o s' => t = s' ∧
    o ≠ .panicked ∧ (o = .ok ⟨⟩ → ∀ name, validFp name = true →
      t.node (ctx.base ++ [name]) = none)) := by
  have hall : ∀ names : List Name, Holds (names.forM fun name => do
      orError "VSS_RESTORE_INVALID_TARGET" nextEntry
      if validFp name then .throw (error "VSS_RESTORE_TARGET_CONFLICT") else return ⟨⟩) t
      (fun o s' => t = s' ∧ o ≠ .panicked ∧
        (o = .ok PUnit.unit → ∀ name ∈ names, validFp name = false)) := by
    intro names
    induction names with
    | nil => exact holds_pure ⟨rfl, by simp, fun _ name h => absurd h List.not_mem_nil⟩
    | cons first names ih =>
      apply holds_bind
      apply holds_bind
      apply holds_mapError
      refine holds_primitive ?_ ⟨rfl, by simp, by simp⟩ ⟨rfl, by simp, by simp⟩
      intro _
      apply holds_ite
      · exact fun _ => holds_throw ⟨rfl, by simp, by simp⟩
      · intro hfirst
        apply holds_pure
        refine ih.mono ?_
        rintro o _ ⟨rfl, hpanic, hrest⟩
        refine ⟨rfl, hpanic, ?_⟩
        intro hok name hname
        rcases List.mem_cons.mp hname with rfl | hname
        · simpa using hfirst
        · exact hrest hok name hname
  apply holds_bind
  apply holds_mapError
  refine holds_primitive ?_ ⟨rfl, by simp, by simp⟩ ⟨rfl, by simp, by simp⟩
  intro _
  refine (hall (children t ctx.base)).mono ?_
  rintro o _ ⟨rfl, hpanic, hnames⟩
  refine ⟨rfl, hpanic, ?_⟩
  intro hok name hvalid
  by_contra hnode
  have hinvalid := hnames hok name (mem_children.mpr hnode)
  rw [hvalid] at hinvalid
  cases hinvalid

/-- Where a wallet directory is, nothing changes. -/
theorem fetch_present (hwallet : t.node ctx.wallet ≠ none) :
    Holds (fetch remote ctx zip) t (fun _ s => s = t) := by
  apply holds_bind
  refine rejectOtherWallets_spec.mono ?_
  rintro o _ ⟨rfl, _, hnone⟩
  cases o with
  | ok _ => exact absurd (hnone rfl ctx.fp ctx.fp_valid) hwallet
  | error _ => rfl
  | panicked => rfl
  | died => rfl

variable (ctx remote zip) in
/-- How a preparation in a storage directory can end. -/
structure Prepared (t s : Tree) : Prop where
  ends : Leftovers ctx t s ∨ ∃ version, Promoted ctx remote zip t version s
  present : t.node ctx.wallet ≠ none → s = t
  owned : s = t ∨ ∃ attr, t.node ctx.base = some (.dir attr) ∧ attr.owned = true

theorem prepareIn_spec : Holds (prepareIn remote ctx zip serde) t (fun o s =>
    Prepared ctx remote zip t s ∧ o ≠ .panicked) := by
  have hsame : Prepared ctx remote zip t t := ⟨Or.inl (.refl t), fun _ => rfl, Or.inl rfl⟩
  apply holds_bind
  refine openDirectory_spec.mono ?_
  rintro o _ ⟨rfl, hpanic, hdir⟩
  cases o with
  | error _ => exact ⟨hsame, by simp⟩
  | panicked => exact absurd rfl hpanic
  | died => exact ⟨hsame, by simp⟩
  | ok _ =>
  have hdir := hdir rfl
  apply holds_bind
  refine metadataOk_spec.mono ?_
  rintro o _ ⟨rfl, ho⟩
  cases o with
  | error _ => exact ho.elim
  | panicked => exact ho.elim
  | died => exact ⟨hsame, by simp⟩
  | ok found =>
  cases found with
  | true =>
    apply holds_bind
    refine loadReceipt_spec.mono ?_
    rintro o _ ⟨rfl, hpanic, _⟩
    cases o with
    | ok f => exact holds_pure ⟨hsame, by simp⟩
    | error _ => exact ⟨hsame, by simp⟩
    | panicked => exact absurd rfl hpanic
    | died => exact ⟨hsame, by simp⟩
  | false =>
    have hpresent :
        Holds (fetch remote ctx zip) t (fun _ s => t.node ctx.wallet ≠ none → s = t) := by
      by_cases hwallet : t.node ctx.wallet = none
      · exact fun ds h => absurd hwallet h
      · exact (fetch_present hwallet).mono fun _ _ h _ => h
    refine (fetch_spec.and hpresent).mono ?_
    rintro o s ⟨⟨hends, ho⟩, hwallet⟩
    refine ⟨⟨hends, hwallet, Or.inr hdir⟩, ?_⟩
    rintro rfl
    exact ho

/-- A preparation changes nothing, or is one in the storage directory of its context. -/
theorem prepare_spec : Holds (prepare crates signer configured remote zip serde) t (fun o s =>
    (s = t ∨ ∃ ctx, Configured crates signer configured t ctx ∧ Prepared ctx remote zip t s) ∧
    o ≠ .panicked) := by
  refine holds_bind_quiet (checkState_quiet t) ?_ (fun _ => ⟨Or.inl rfl, by simp⟩)
    ⟨Or.inl rfl, by simp⟩
  intro _
  refine holds_bind_quiet (checkState_quiet t) ?_ (fun _ => ⟨Or.inl rfl, by simp⟩)
    ⟨Or.inl rfl, by simp⟩
  intro _
  apply holds_bind
  refine holds_primitive ?_ ⟨Or.inl rfl, by simp⟩ ⟨Or.inl rfl, by simp⟩
  intro _
  apply holds_bind
  refine contextNew_spec.mono ?_
  rintro o _ ⟨rfl, hpanic, hctx⟩
  cases o with
  | ok ctx =>
    refine prepareIn_spec.mono ?_
    rintro o s ⟨hprepared, hpanic⟩
    exact ⟨Or.inr ⟨ctx, hctx ctx rfl, hprepared⟩, hpanic⟩
  | error _ => exact ⟨Or.inl rfl, by simp⟩
  | panicked => exact absurd rfl hpanic
  | died => exact ⟨Or.inl rfl, by simp⟩

end Prepare

end RgbLightningNode.Restore
