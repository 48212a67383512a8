import RgbLightningNode.Text.Lines
import Mathlib.Data.List.DropRight

/-!
# Symbols of the built artifacts

What a symbol reader prints is cut into lines, trimmed and joined again, and every symbol of the
contract is looked for in the joined text. A symbol that is absent goes unnoticed where a longer
exported name contains it.
-/

namespace RgbLightningNode.Provenance
open Text

def librarySymbols : List String :=
  ["rln_address", "rln_asset_balance", "rln_asset_link_create", "rln_asset_metadata",
    "rln_binding_build_info", "rln_btc_balance", "rln_burn", "rln_cancel_hodl_invoice",
    "rln_check_indexer_url", "rln_check_proxy_endpoint", "rln_claim_hodl_invoice",
    "rln_close_channel", "rln_connect_peer", "rln_create_utxos", "rln_decode_ln_invoice",
    "rln_decode_rgb_invoice", "rln_disconnect_peer", "rln_estimate_fee", "rln_fail_transfers",
    "rln_free_string", "rln_get_asset_media", "rln_get_channel_id", "rln_get_consignment",
    "rln_get_consignment_path", "rln_get_payment", "rln_get_swap", "rln_inflate",
    "rln_import_rgb_contract", "rln_import_rgb_transfer_consignment", "rln_invoice_status",
    "rln_issue_asset_cfa", "rln_issue_asset_ifa", "rln_issue_asset_nia", "rln_issue_asset_uda",
    "rln_keysend", "rln_list_assets", "rln_list_channels", "rln_list_payments", "rln_list_peers",
    "rln_list_swaps", "rln_list_transactions", "rln_list_transfers", "rln_list_unspents",
    "rln_ln_invoice", "rln_maker_execute", "rln_maker_init", "rln_native_external_signer_bootstrap",
    "rln_native_external_signer_new", "rln_native_external_signer_new_with_storage",
    "rln_native_external_signer_shutdown", "rln_network_info", "rln_node_info", "rln_open_channel",
    "rln_post_asset_media", "rln_refresh_transfers", "rln_rgb_invoice", "rln_rotate_address",
    "rln_sdk_initialize", "rln_sdk_node_apay_new", "rln_sdk_node_apay_new_with_address",
    "rln_sdk_node_attach_native_external_signer", "rln_sdk_node_detach_external_signer",
    "rln_sdk_node_init", "rln_sdk_node_init_with_external_signer",
    "rln_sdk_node_init_with_native_external_signer", "rln_sdk_node_new", "rln_sdk_node_shutdown",
    "rln_sdk_node_unlock", "rln_sdk_node_unlock_with_attached_external_signer",
    "rln_sdk_node_unlock_with_native_external_signer", "rln_sdk_node_vss_backup",
    "rln_sdk_node_vss_backup_info", "rln_sdk_node_vss_backup_metadata",
    "rln_sdk_node_set_vss_automatic_backup_enabled", "rln_sdk_node_prepare_vss_restore",
    "rln_sdk_node_vss_restore_info", "rln_sdk_node_vss_clear_fence", "rln_sdk_shutdown",
    "rln_send_btc", "rln_send_onion_message", "rln_send_payment", "rln_send_rgb",
    "rln_sign_message", "rln_get_message_signing_address", "rln_sign_message_bip322",
    "rln_verify_message_bip322", "rln_verify_message_bip322_offline", "rln_sync", "rln_taker",
    "rln_uniffi_healthcheck", "rln_uniffi_is_initialized", "rln_verify_message"]

def prebuildSymbols : List String := "bare_register_module_v0" :: librarySymbols

inductive ArtifactKind where
  | library
  | prebuild
  deriving DecidableEq

def ArtifactKind.name : ArtifactKind → String
  | library => "library"
  | prebuild => "prebuild"

def requiredSymbols : ArtifactKind → List String
  | .library => librarySymbols
  | .prebuild => prebuildSymbols

/-- White space and line terminators of the language. -/
def isSpace (c : Char) : Bool :=
  let n := c.toNat
  (9 ≤ n && n ≤ 13) || n = 0x20 || n = 0xA0 || n = 0x1680 || (0x2000 ≤ n && n ≤ 0x200A) ||
    n = 0x2028 || n = 0x2029 || n = 0x202F || n = 0x205F || n = 0x3000 || n = 0xFEFF

def trim (line : List Char) : List Char := (line.dropWhile isSpace).rdropWhile isSpace

/-- `replace(/^_/, '')` -/
def dropUnderscore : List Char → List Char
  | '_' :: rest => rest
  | line => line

def symbolLines (output : List Char) : List (List Char) :=
  ((output.splitOn '\n').map fun line => dropUnderscore (trim line)).filter fun line =>
    !line.isEmpty

def normalizedSymbols (output : List Char) : List Char := ['\n'].intercalate (symbolLines output)

def fail (message : String) : String := "[rgb-lightning-node-bare] " ++ message

/-- The part of `verifyArtifacts` that looks at the symbols of one artifact. -/
def verifySymbols (kind : ArtifactKind) (target : String) (symbols : List Char) :
    Except String Unit :=
  match (requiredSymbols kind).find? fun symbol => !decide (symbol.toList <:+: symbols) with
  | some symbol =>
    .error (fail (kind.name ++ " artifact for " ++ target ++ " is missing " ++ symbol))
  | none => .ok ()

/-- A line of the output is this symbol, with or without the leading underscore. -/
def Exports (output name : List Char) : Prop :=
  ∃ line ∈ output.splitOn '\n', trim line = name ∨ trim line = '_' :: name

/-- Required symbols are absent, and each of them is contained in an exported one. -/
def Masked (kind : ArtifactKind) (output : List Char) : Prop :=
  (∃ symbol ∈ requiredSymbols kind, ¬ Exports output symbol.toList) ∧
    ∀ symbol ∈ requiredSymbols kind, ¬ Exports output symbol.toList →
      ∃ name, Exports output name ∧ symbol.toList <:+: name

/-- The shape that every required symbol has. -/
def IsSymbol (name : List Char) : Prop :=
  name ≠ [] ∧ name.head? ≠ some '_' ∧ ∀ c ∈ name, isSpace c = false

instance (name : List Char) : Decidable (IsSymbol name) :=
  decidable_of_iff (name ≠ [] ∧ name.head? ≠ some '_' ∧ name.all (fun c => !isSpace c) = true)
    (by simp [IsSymbol])

/-- For a literal, which is the text of its characters by definition. -/
theorem isSymbol_literal {symbol : String} {name : List Char} (h : symbol = String.ofList name)
    (hname : IsSymbol name) : IsSymbol symbol.toList := by
  rw [h, String.toList_ofList]
  exact hname

theorem required_isSymbol (kind : ArtifactKind) :
    ∀ symbol ∈ requiredSymbols kind, IsSymbol symbol.toList := by
  have hlibrary : ∀ symbol ∈ librarySymbols, IsSymbol symbol.toList := by
    unfold librarySymbols
    repeat refine List.forall_mem_cons.mpr ⟨isSymbol_literal rfl (by decide), ?_⟩
    simp
  cases kind with
  | library => exact hlibrary
  | prebuild => exact List.forall_mem_cons.mpr ⟨isSymbol_literal rfl (by decide), hlibrary⟩

theorem newline_notMem {name : List Char} (h : ∀ c ∈ name, isSpace c = false) : '\n' ∉ name := by
  intro hmem
  have hspace := h _ hmem
  revert hspace
  decide

theorem infix_dropUnderscore {part line : List Char} (h : part.head? ≠ some '_') :
    part <:+: dropUnderscore line ↔ part <:+: line := by
  unfold dropUnderscore
  split
  · next rest =>
    rw [List.infix_cons_iff, or_iff_right_of_imp]
    intro hstart
    cases part with
    | nil => exact List.nil_infix
    | cons c part =>
      have hc : c = '_' := (List.cons_prefix_cons.mp hstart).1
      exact absurd (by simp [hc]) h
  · exact Iff.rfl

/-- A symbol occurs in the joined text exactly if it is part of an exported one. -/
theorem infix_normalizedSymbols {output part : List Char} (h : IsSymbol part) :
    part <:+: normalizedSymbols output ↔ ∃ name, Exports output name ∧ part <:+: name := by
  have hlines : part <:+: normalizedSymbols output ↔
      ∃ line ∈ symbolLines output, part <:+: line := by
    by_cases hempty : symbolLines output = []
    · simp [normalizedSymbols, hempty, h.1]
    · exact infix_intercalate_iff (newline_notMem h.2.2) hempty
  rw [hlines]
  constructor
  · rintro ⟨line, hline, hpart⟩
    simp only [symbolLines, List.mem_filter, List.mem_map] at hline
    obtain ⟨⟨raw, hraw, rfl⟩, -⟩ := hline
    exact ⟨trim raw, ⟨raw, hraw, Or.inl rfl⟩, (infix_dropUnderscore h.2.1).mp hpart⟩
  · rintro ⟨name, ⟨raw, hraw, htrim⟩, hpart⟩
    have hwhole : part <:+: trim raw := by
      rcases htrim with htrim | htrim
      · rwa [htrim]
      · rw [htrim]
        exact List.infix_cons hpart
    have hkept : part <:+: dropUnderscore (trim raw) := (infix_dropUnderscore h.2.1).mpr hwhole
    refine ⟨_, ?_, hkept⟩
    have hne : dropUnderscore (trim raw) ≠ [] := fun e => h.1 (List.eq_nil_of_infix_nil (e ▸ hkept))
    simp only [symbolLines, List.mem_filter, List.mem_map]
    exact ⟨⟨raw, hraw, rfl⟩, by simpa using hne⟩

theorem verifySymbols_ok_iff (kind : ArtifactKind) (target : String) (output : List Char) :
    verifySymbols kind target (normalizedSymbols output) = .ok () ↔
      ∀ symbol ∈ requiredSymbols kind, ∃ name, Exports output name ∧ symbol.toList <:+: name := by
  have hfind : verifySymbols kind target (normalizedSymbols output) = .ok () ↔
      ∀ symbol ∈ requiredSymbols kind, symbol.toList <:+: normalizedSymbols output := by
    unfold verifySymbols
    split
    · next symbol hfound =>
      have hmem := List.mem_of_find?_eq_some hfound
      have habsent := List.find?_some hfound
      simp only [Bool.not_eq_true', decide_eq_false_iff_not] at habsent
      simp only [reduceCtorEq, false_iff, not_forall]
      exact ⟨symbol, hmem, habsent⟩
    · next hnone => simpa using hnone
  rw [hfind]
  exact forall₂_congr fun symbol hmem =>
    infix_normalizedSymbols (required_isSymbol kind symbol hmem)

theorem symbols_required (kind : ArtifactKind) (target : String) (output : List Char) :
    (verifySymbols kind target (normalizedSymbols output) = .ok () ↔
      ∀ symbol ∈ requiredSymbols kind, Exports output symbol.toList) ↔ ¬ Masked kind output := by
  rw [verifySymbols_ok_iff]
  constructor
  · rintro hexact ⟨⟨symbol, hmem, habsent⟩, hcovered⟩
    refine habsent (hexact.mp (fun other hother => ?_) symbol hmem)
    by_cases hpresent : Exports output other.toList
    · exact ⟨_, hpresent, List.infix_rfl⟩
    · exact hcovered other hother hpresent
  · intro hunmasked
    constructor
    · intro hfound symbol hmem
      by_contra habsent
      exact hunmasked ⟨⟨symbol, hmem, habsent⟩, fun other hother _ => hfound other hother⟩
    · exact fun hall symbol hmem => ⟨_, hall symbol hmem, List.infix_rfl⟩

section Printed

/-- A reader prints one name a line. -/
def printed (names : List (List Char)) : List Char := names.flatMap (· ++ ['\n'])

theorem trim_of_clean {name : List Char} (h : ∀ c ∈ name, isSpace c = false) :
    trim name = name := by
  have hfront : name.dropWhile isSpace = name := by
    cases name with
    | nil => rfl
    | cons c name => simp [h c (by simp)]
  have hback : name.rdropWhile isSpace = name :=
    List.rdropWhile_eq_self_iff.mpr fun hne => by simp [h _ (List.getLast_mem hne)]
  rw [trim, hfront, hback]

theorem splitOn_printed {names : List (List Char)} (h : ∀ name ∈ names, '\n' ∉ name) :
    (printed names).splitOn '\n' = names ++ [[]] := by
  induction names with
  | nil => rfl
  | cons name names ih =>
    have hname : '\n' ∉ name := h name (by simp)
    have hnames := ih fun other hother => h other (List.mem_cons_of_mem _ hother)
    have hprinted : printed (name :: names) = name ++ '\n' :: printed names := by simp [printed]
    rw [hprinted, List.splitOn_append_cons_self_of_not_mem hname, hnames, List.cons_append]

theorem exports_printed {names : List (List Char)} {name : List Char} (hname : name ≠ [])
    (h : ∀ n ∈ names, ∀ c ∈ n, isSpace c = false) :
    Exports (printed names) name ↔ name ∈ names ∨ '_' :: name ∈ names := by
  have hsplit := @splitOn_printed names fun n hn =>
    newline_notMem (h n hn)
  simp only [Exports, hsplit, List.mem_append, List.mem_singleton]
  constructor
  · rintro ⟨line, hline | rfl, htrim⟩
    · rw [trim_of_clean (h line hline)] at htrim
      rcases htrim with rfl | rfl
      · exact Or.inl hline
      · exact Or.inr hline
    · exact absurd htrim (by simp [trim, Ne.symm hname])
  · rintro (hmem | hmem)
    · exact ⟨name, Or.inl hmem, Or.inl (trim_of_clean (h _ hmem))⟩
    · exact ⟨_, Or.inl hmem, Or.inr (trim_of_clean (h _ hmem))⟩

/-- What is printed for a library that lacks one of the symbols. -/
def unsigned : List (List Char) :=
  (librarySymbols.erase "rln_sign_message").map fun symbol => '_' :: symbol.toList

theorem unsigned_clean : ∀ name ∈ unsigned, ∀ c ∈ name, isSpace c = false := by
  intro name hname
  obtain ⟨symbol, hsymbol, rfl⟩ := List.mem_map.mp hname
  have hclean := (required_isSymbol .library symbol (List.mem_of_mem_erase hsymbol)).2.2
  exact List.forall_mem_cons.mpr ⟨by decide, hclean⟩

theorem exports_unsigned {symbol : String} (h : symbol ∈ librarySymbols.erase "rln_sign_message") :
    Exports (printed unsigned) symbol.toList :=
  (exports_printed (required_isSymbol .library symbol (List.mem_of_mem_erase h)).1
    unsigned_clean).mpr (Or.inr (List.mem_map_of_mem h))

/-- The longer of two names stands for the shorter one, which is absent. -/
theorem symbols_not_required :
    verifySymbols .library "darwin-arm64" (normalizedSymbols (printed unsigned)) = .ok () ∧
      "rln_sign_message" ∈ requiredSymbols .library ∧
      ¬ Exports (printed unsigned) "rln_sign_message".toList := by
  refine ⟨(verifySymbols_ok_iff _ _ _).mpr fun symbol hsymbol => ?_, by decide, ?_⟩
  · by_cases h : symbol = "rln_sign_message"
    · refine ⟨"rln_sign_message_bip322".toList, exports_unsigned (by decide), ?_⟩
      rw [h]
      decide
    · exact ⟨_, exports_unsigned ((List.mem_erase_of_ne h).mpr hsymbol), List.infix_rfl⟩
  · rw [exports_printed (by decide) unsigned_clean]
    rintro (hplain | hmarked)
    · obtain ⟨symbol, -, hsymbol⟩ := List.mem_map.mp hplain
      have hhead := congrArg List.head? hsymbol
      simp at hhead
    · obtain ⟨symbol, hmem, hsymbol⟩ := List.mem_map.mp hmarked
      have heq : symbol = "rln_sign_message" := String.toList_inj.mp (List.cons.inj hsymbol).2
      have habsent : "rln_sign_message" ∉ librarySymbols.erase "rln_sign_message" := by
        simp [librarySymbols]
      exact habsent (heq ▸ hmem)

end Printed
end RgbLightningNode.Provenance
