import RgbLightningNode.Bip322.Binding

/-!
# One text for each proof

The verifier reads the proof with offsets of its own. It never reads outside of the bytes, and what
it accepts is the encoding of a witness stack and nothing else, so a signature cannot be respelled.
-/

namespace RgbLightningNode.Bip322
open Text

variable {crates : Crates}

/-! ### Reading with bounds -/

/-- What becomes of reading a proof: a slice outside of the bytes would stop the process. -/
inductive Decoding (α : Type) where
  | outOfBounds
  | rejected
  | done (value : α)
  deriving DecidableEq, Repr

namespace Decoding

variable {α β : Type}

def andThen (d : Decoding α) (next : α → Decoding β) : Decoding β :=
  match d with
  | outOfBounds => outOfBounds
  | rejected => rejected
  | done value => next value

def ofOption : Option α → Decoding α
  | none => rejected
  | some value => done value

theorem ofOption_eq_done {o : Option α} {value : α} : ofOption o = done value ↔ o = some value := by
  cases o <;> simp [ofOption]

theorem ofOption_ne (o : Option α) : ofOption o ≠ outOfBounds := by
  cases o <;> simp [ofOption]

end Decoding

/-- `&raw[start..stop]`. -/
def slice (raw : Bytes) (start stop : ℕ) : Decoding Bytes :=
  if start ≤ stop ∧ stop ≤ raw.length then .done ((raw.drop start).take (stop - start))
  else .outOfBounds

def decodeItems (raw : Bytes) : ℕ → ℕ → Decoding (List Bytes × ℕ)
  | 0, offset => .done ([], offset)
  | count + 1, offset =>
    match raw[offset]? with
    | none => .rejected
    | some n =>
      if 73 < n.toNat then .rejected
      else
        let start := offset + 1
        let stop := start + n.toNat
        if raw.length < stop then .rejected
        else (slice raw start stop).andThen fun item =>
          (decodeItems raw count stop).andThen fun (items, offset) => .done (item :: items, offset)

def witnessCount (raw : Bytes) : Option ℕ :=
  match raw.head? with
  | some 1 => some 1
  | some 2 => some 2
  | _ => none

/-- The first half of `verify`, up to the checks that belong to a script. -/
def decodeProof (crates : Crates) (signature : List Char) : Decoding (List Bytes) :=
  let encoded := (signature.dropPrefix? "smp".toList).getD signature
  match crates.decodeBase64 encoded with
  | none => .rejected
  | some raw =>
    if crates.encodeBase64 raw ≠ encoded ∨ 256 < raw.length then .rejected
    else match witnessCount raw with
      | none => .rejected
      | some count => (decodeItems raw count 1).andThen fun (items, offset) =>
        if offset ≠ raw.length ∨ crates.serializeWitness items ≠ raw then .rejected else .done items

theorem decodeItems_eq (raw : Bytes) (count offset : ℕ) :
    decodeItems raw count offset = .ofOption (readItems raw count offset) := by
  induction count generalizing offset with
  | zero => rfl
  | succ count ih =>
    simp only [decodeItems, readItems]
    cases raw[offset]? with
    | none => rfl
    | some n =>
      simp only
      split_ifs with hlong hend
      · rfl
      · rfl
      · have hslice : slice raw (offset + 1) (offset + 1 + n.toNat) =
            .done ((raw.drop (offset + 1)).take n.toNat) := by
          rw [slice, if_pos ⟨by omega, by omega⟩, Nat.add_sub_cancel_left]
        rw [hslice, ih]
        cases readItems raw count (offset + 1 + n.toNat) <;> rfl

theorem readWitness_eq (raw : Bytes) : readWitness crates raw =
    (witnessCount raw).bind fun count => (readItems raw count 1).bind fun (items, offset) =>
      if offset ≠ raw.length ∨ crates.serializeWitness items ≠ raw then none else some items :=
  rfl

theorem decodeProof_eq (signature : List Char) :
    decodeProof crates signature = .ofOption (readProof crates signature) := by
  simp only [decodeProof, readProof]
  cases crates.decodeBase64 ((signature.dropPrefix? "smp".toList).getD signature) with
  | none => rfl
  | some raw =>
    simp only [Option.bind_some]
    split_ifs with hrefused
    · rfl
    · rw [readWitness_eq]
      cases witnessCount raw with
      | none => rfl
      | some count =>
        simp only [Option.bind_some, decodeItems_eq]
        cases readItems raw count 1 with
        | none => rfl
        | some read =>
          simp only [Decoding.ofOption, Decoding.andThen, Option.bind_some]
          split_ifs <;> rfl

/-! ### The language of the proofs -/

def encodeItems (items : List Bytes) : Bytes :=
  items.flatMap fun item => compactSize item.length ++ item

/-- The consensus encoding of a witness stack. -/
def encodeWitness (items : List Bytes) : Bytes := compactSize items.length ++ encodeItems items

/-- The stacks that the supported scripts can need. -/
structure ShortStack (items : List Bytes) : Prop where
  count : items.length = 1 ∨ items.length = 2
  short : ∀ item ∈ items, item.length ≤ 73

/-- The text of a stack, without the prefix. -/
def proofText (items : List Bytes) : List Char := Text.encodeBase64 (encodeWitness items)

theorem compactSize_small {n : ℕ} (h : n < 0xFD) : compactSize n = [.ofNat n] := if_pos h

theorem encodeItems_cons {item : Bytes} (hitem : item.length ≤ 73) (items : List Bytes) :
    encodeItems (item :: items) = .ofNat item.length :: (item ++ encodeItems items) := by
  simp [encodeItems, compactSize_small (show item.length < 0xFD by omega)]

/-- What is read are the items whose encoding stands between the offsets. -/
theorem readItems_sound {raw : Bytes} {count offset stop : ℕ} {items : List Bytes}
    (h : readItems raw count offset = some (items, stop)) :
    items.length = count ∧ (∀ item ∈ items, item.length ≤ 73) ∧
      raw.drop offset = encodeItems items ++ raw.drop stop := by
  induction count generalizing offset items with
  | zero =>
    cases h
    exact ⟨rfl, by simp, by simp [encodeItems]⟩
  | succ count ih =>
    simp only [readItems] at h
    cases hn : raw[offset]? with
    | none => simp [hn] at h
    | some n =>
      simp only [hn] at h
      split_ifs at h with hlong hend
      obtain ⟨⟨rest, _⟩, hrest, heq⟩ := Option.map_eq_some_iff.mp h
      cases heq
      obtain ⟨hcount, hshort, hdrop⟩ := ih hrest
      obtain ⟨hoffset, hbyte⟩ := List.getElem?_eq_some_iff.mp hn
      have hlength : ((raw.drop (offset + 1)).take n.toNat).length = n.toNat := by
        rw [List.length_take, List.length_drop]
        omega
      have hsplit : raw.drop (offset + 1) = (raw.drop (offset + 1)).take n.toNat ++
          raw.drop (offset + 1 + n.toNat) := by
        have hparts := (List.take_append_drop n.toNat (raw.drop (offset + 1))).symm
        rwa [List.drop_drop] at hparts
      refine ⟨by rw [List.length_cons, hcount], ?_, ?_⟩
      · exact List.forall_mem_cons.mpr ⟨by omega, hshort⟩
      · rw [encodeItems_cons (by omega), hlength, UInt8.ofNat_toNat, List.cons_append,
          List.append_assoc, ← hdrop, ← hsplit, List.drop_eq_getElem_cons hoffset, hbyte]

theorem readItems_encode {items : List Bytes} (hshort : ∀ item ∈ items, item.length ≤ 73)
    (front rest : Bytes) :
    readItems (front ++ (encodeItems items ++ rest)) items.length front.length =
      some (items, front.length + (encodeItems items).length) := by
  induction items generalizing front with
  | nil => rfl
  | cons item items ih =>
    obtain ⟨hitem, hitems⟩ := List.forall_mem_cons.mp hshort
    have hn : (UInt8.ofNat item.length).toNat = item.length := toNat_byte (by omega)
    have hraw : front ++ (encodeItems (item :: items) ++ rest) =
        (front ++ .ofNat item.length :: item) ++ (encodeItems items ++ rest) := by
      simp [encodeItems_cons hitem]
    have hfront : (front ++ .ofNat item.length :: item).length =
        front.length + 1 + item.length := by
      simp [Nat.add_assoc, Nat.add_comm 1]
    have hbyte : (front ++ (encodeItems (item :: items) ++ rest))[front.length]? =
        some (.ofNat item.length) := by
      simp [encodeItems_cons hitem]
    have hitem' : ((front ++ (encodeItems (item :: items) ++ rest)).drop (front.length + 1)).take
        item.length = item := by
      rw [← List.drop_drop, List.drop_left, encodeItems_cons hitem]
      simp
    have hnext := ih hitems (front ++ .ofNat item.length :: item)
    rw [← hraw, hfront] at hnext
    simp only [List.length_cons, readItems, hbyte, hn, hitem', hnext, Option.map_some]
    rw [if_neg (by omega), if_neg]
    · simp only [encodeItems_cons hitem, List.length_cons, List.length_append]
      simp only [Option.some.injEq, Prod.mk.injEq, true_and]
      omega
    · rw [hraw, List.length_append, hfront]
      omega

theorem serializeWitness_eq (hl : crates.Lawful) (items : List Bytes) :
    crates.serializeWitness items = encodeWitness items :=
  hl.serializeWitness items

theorem encodeWitness_short {items : List Bytes} (h : ShortStack items) :
    encodeWitness items = .ofNat items.length :: encodeItems items := by
  rw [encodeWitness, compactSize_small (by rcases h.count with h | h <;> omega)]
  rfl

/-- What was read of the whole bytes encodes to them. -/
theorem readItems_whole {raw : Bytes} {count : ℕ} {items : List Bytes}
    (hcount : count = 1 ∨ count = 2) (hhead : raw.head? = some (.ofNat count))
    (h : readItems raw count 1 = some (items, raw.length)) :
    ShortStack items ∧ encodeWitness items = raw := by
  obtain ⟨rfl, hshort, hdrop⟩ := readItems_sound h
  rw [List.drop_length, List.append_nil] at hdrop
  have hstack : ShortStack items := ⟨hcount, hshort⟩
  cases raw with
  | nil => cases hhead
  | cons b rest =>
    simp only [List.head?_cons, Option.some.injEq] at hhead
    rw [List.drop_succ_cons, List.drop_zero] at hdrop
    exact ⟨hstack, by rw [encodeWitness_short hstack, hhead, hdrop]⟩

theorem witnessCount_eq {raw : Bytes} {count : ℕ} (h : witnessCount raw = some count) :
    (count = 1 ∨ count = 2) ∧ raw.head? = some (.ofNat count) := by
  unfold witnessCount at h
  split at h
  · cases h
    exact ⟨.inl rfl, ‹_›⟩
  · cases h
    exact ⟨.inr rfl, ‹_›⟩
  · cases h

theorem readWitness_iff (hl : crates.Lawful) {raw : Bytes} {items : List Bytes} :
    readWitness crates raw = some items ↔ ShortStack items ∧ encodeWitness items = raw := by
  rw [readWitness_eq]
  constructor
  · intro h
    obtain ⟨count, hcount, hitems⟩ := Option.bind_eq_some_iff.mp h
    obtain ⟨⟨read, offset⟩, hread, hwhole⟩ := Option.bind_eq_some_iff.mp hitems
    simp only at hwhole
    split_ifs at hwhole with hpart
    cases hwhole
    have hoffset : offset = raw.length := not_not.mp fun hne => hpart (.inl hne)
    rw [hoffset] at hread
    obtain ⟨hknown, hhead⟩ := witnessCount_eq hcount
    exact readItems_whole hknown hhead hread
  · rintro ⟨hstack, rfl⟩
    have hcount : witnessCount (encodeWitness items) = some items.length := by
      rw [encodeWitness_short hstack]
      rcases hstack.count with h | h <;> rw [h] <;> rfl
    have hitems := readItems_encode hstack.short [.ofNat items.length] []
    have hlength : (encodeWitness items).length = 1 + (encodeItems items).length := by
      rw [encodeWitness_short hstack, List.length_cons, Nat.add_comm]
    rw [List.append_nil, List.singleton_append, ← encodeWitness_short hstack, List.length_singleton,
      ← hlength] at hitems
    simp [hcount, hitems, serializeWitness_eq hl]

/-- The text of a stack starts with the digit for its count, which no prefix does. -/
theorem proofText_head {items : List Bytes} (h : ShortStack items) :
    (proofText items).head? = some 'A' := by
  have hdigit : base64Digit (items.length % 256 / 4) = 'A' := by
    rcases h.count with h | h <;> rw [h] <;> rfl
  rw [proofText, encodeWitness_short h]
  cases encodeItems items with
  | nil => simp [Text.encodeBase64, hdigit]
  | cons a rest =>
    cases rest with
    | nil => simp [Text.encodeBase64, hdigit]
    | cons b rest => simp [Text.encodeBase64, hdigit]

theorem proofText_unprefixed {items : List Bytes} (h : ShortStack items) :
    ¬"smp".toList <+: proofText items := by
  rintro ⟨rest, hrest⟩
  have hhead := proofText_head h
  rw [← hrest] at hhead
  cases hhead

theorem dropPrefix_proofText {items : List Bytes} (h : ShortStack items) :
    (proofText items).dropPrefix? "smp".toList = none := by
  cases hdrop : (proofText items).dropPrefix? "smp".toList with
  | none => rfl
  | some rest => exact absurd ⟨rest, (dropPrefix_eq_some.mp hdrop).symm⟩ (proofText_unprefixed h)

/-- A text is read exactly when it is the text of a short stack, with or without the prefix. -/
theorem readProof_iff (hl : crates.Lawful) {signature : List Char} {items : List Bytes} :
    readProof crates signature = some items ↔
      ShortStack items ∧ (encodeWitness items).length ≤ 256 ∧
      (signature = "smp".toList ++ proofText items ∨ signature = proofText items) := by
  constructor
  · intro h
    obtain ⟨raw, _, hread⟩ := Option.bind_eq_some_iff.mp h
    split_ifs at hread with hrefused
    obtain ⟨hcanonical, hsize⟩ := not_or.mp hrefused
    obtain ⟨hstack, rfl⟩ := (readWitness_iff hl).mp hread
    have hencoded := not_not.mp hcanonical
    rw [hl.encodeBase64] at hencoded
    refine ⟨hstack, Nat.not_lt.mp hsize, ?_⟩
    cases hdrop : signature.dropPrefix? "smp".toList with
    | none =>
      rw [hdrop] at hencoded
      exact .inr hencoded.symm
    | some rest =>
      rw [hdrop] at hencoded
      rw [dropPrefix_eq_some.mp hdrop]
      exact .inl (congrArg _ hencoded.symm)
  · rintro ⟨hstack, hsize, htext⟩
    have hencoded : (signature.dropPrefix? "smp".toList).getD signature = proofText items := by
      rcases htext with rfl | rfl
      · simp [List.dropPrefix?]
      · rw [dropPrefix_proofText hstack]
        rfl
    rw [readProof, hencoded, proofText, hl.decodeBase64, Option.bind_some, hl.encodeBase64,
      if_neg (by simp [hsize])]
    exact (readWitness_iff hl).mpr ⟨hstack, rfl⟩

/-! ### Nothing else is accepted -/

/-- The second half of `verify`. -/
def scriptChecks (crates : Crates) (message : String) (address : crates.Address) (network : Network)
    (witness : List Bytes) : Except String Bool :=
  let script := crates.scriptPubkey address
  if isP2tr script then verifyP2tr crates message address witness
  else if isP2wpkh script then verifyP2wpkh crates message address network witness
  else .error "unsupported BIP-322 address type; requires P2TR key-path or P2WPKH"

/-- What a proof says: the signature as numbers, and what the script does not settle. -/
inductive Carried (crates : Crates) where
  | keyPath (signature : crates.SchnorrSignature) (sighashType : TapSighashType)
  | witnessKey (signature : crates.EcdsaSignature) (publicKey : crates.PublicKey)

def carried (crates : Crates) : List Bytes → Option (Carried crates)
  | [item] => (crates.schnorrFromSlice (item.take 64)).map fun signature =>
    .keyPath signature (if item.length = 64 then .default else .all)
  | [item, publicKey] => (crates.ecdsaFromDer item.dropLast).bind fun signature =>
    (crates.publicKeyFromSlice publicKey).map fun key => .witnessKey signature key
  | _ => none

/-- The documented behaviour of the two parsers with texts of one length. -/
structure Crates.ParsesOnce (crates : Crates) : Prop where
  schnorr : ∀ bytes signature, crates.schnorrFromSlice bytes = some signature →
    crates.schnorrBytes signature = bytes
  publicKey : ∀ (bytes bytes' : Bytes) key, bytes.length = 33 → bytes'.length = 33 →
    crates.publicKeyFromSlice bytes = some key → crates.publicKeyFromSlice bytes' = some key →
    bytes = bytes'

section Accepted

variable {message : String} {address : crates.Address} {network : Network} {witness : List Bytes}

/-- How the kind of the digest is written behind a signature. -/
def sighashSuffix : TapSighashType → Bytes
  | .default => []
  | .all => [1]

theorem drop_last {bytes : Bytes} {n : ℕ} {b : UInt8} (hlength : bytes.length = n + 1)
    (hlast : bytes[n]? = some b) : bytes.drop n = [b] := by
  obtain ⟨hn, hbyte⟩ := List.getElem?_eq_some_iff.mp hlast
  rw [List.drop_eq_getElem_cons hn, hbyte, List.drop_eq_nil_of_le hlength.le]

theorem verifyP2tr_true (hp : crates.ParsesOnce)
    (h : verifyP2tr crates message address witness = .ok true) :
    ∃ signature sighashType, carried crates witness = some (.keyPath signature sighashType) ∧
      witness = [crates.schnorrBytes signature ++ sighashSuffix sighashType] := by
  unfold verifyP2tr at h
  simp only at h
  split at h
  · rename_i item
    split at h
    · rename_i sighashType signature hkind hslice
      have hbytes := hp.schnorr _ _ hslice
      split_ifs at hkind with hshort hlong
      · cases hkind
        refine ⟨signature, .default, by simp [carried, hslice, hshort], ?_⟩
        rw [hbytes, sighashSuffix, List.append_nil, List.take_of_length_le hshort.le]
      · cases hkind
        have hlast : item.drop 64 = [1] := drop_last hlong.1 hlong.2
        refine ⟨signature, .all, by simp [carried, hslice, hshort], ?_⟩
        rw [hbytes, sighashSuffix, ← hlast, List.take_append_drop]
    · cases h
  · cases h

theorem verifyP2wpkh_true (h : verifyP2wpkh crates message address network witness = .ok true) :
    ∃ signature publicKey key, carried crates witness = some (.witnessKey signature key) ∧
      publicKey.length = 33 ∧ crates.publicKeyFromSlice publicKey = some key ∧
      witness = [crates.ecdsaDer signature ++ [1], publicKey] := by
  unfold verifyP2wpkh at h
  simp only at h
  split at h
  · rename_i item publicKey
    split at h
    · cases h
    · rename_i hform
      simp only [not_or, not_not] at hform
      split at h
      · cases h
      · rename_i key hkey
        split at h
        · cases h
        · split at h
          · cases h
          · rename_i signature hder
            split at h
            · cases h
            · rename_i hcanonical
              obtain ⟨_, _, hlast, hlength, _⟩ := hform
              obtain ⟨_, hserialized⟩ := not_or.mp hcanonical
              refine ⟨signature, publicKey, key, by simp [carried, hder, hkey], hlength, hkey, ?_⟩
              rw [not_not.mp hserialized, List.dropLast_append_getLast? 1 hlast]
  · cases h

/-- An accepted witness is determined by what it carries. -/
theorem scriptChecks_unique (hp : crates.ParsesOnce) {witness' : List Bytes}
    (h : scriptChecks crates message address network witness = .ok true)
    (h' : scriptChecks crates message address network witness' = .ok true)
    (hcarried : carried crates witness = carried crates witness') : witness = witness' := by
  simp only [scriptChecks] at h h'
  split_ifs at h h' with hp2tr hp2wpkh
  · obtain ⟨signature, sighashType, hsome, rfl⟩ := verifyP2tr_true hp h
    obtain ⟨signature', sighashType', hsome', rfl⟩ := verifyP2tr_true hp h'
    rw [hsome, hsome'] at hcarried
    cases hcarried
    rfl
  · obtain ⟨signature, publicKey, key, hsome, hlength, hkey, rfl⟩ := verifyP2wpkh_true h
    obtain ⟨signature', publicKey', key', hsome', hlength', hkey', rfl⟩ := verifyP2wpkh_true h'
    rw [hsome, hsome'] at hcarried
    cases hcarried
    rw [hp.publicKey publicKey publicKey' key hlength hlength' hkey hkey']

theorem verify_decoded {text : String} {signature : List Char}
    (hmessage : validateMessage message = .ok ())
    (haddress : parseAddress crates text network = .ok address)
    (hsize : signature.length ≤ maxSignatureChars) (hascii : ∀ c ∈ signature, c.toNat < 128) :
    verify crates message text (.ofList signature) network =
      match decodeProof crates signature with
      | .done witness => scriptChecks crates message address network witness
      | _ => .ok false := by
  simp only [verify, hmessage, haddress, String.toList_ofList, decodeProof_eq]
  refine (if_neg (ascii_admitted hascii hsize)).trans ?_
  cases readProof crates signature <;> rfl

/-- What an accepted text went through. -/
theorem of_verify {text : String} {signature : List Char}
    (h : verify crates message text (.ofList signature) network = .ok true) :
    ∃ address witness, parseAddress crates text network = .ok address ∧
      readProof crates signature = some witness ∧
      scriptChecks crates message address network witness = .ok true := by
  unfold verify at h
  cases hmessage : validateMessage message with
  | error error =>
    rw [hmessage] at h
    cases h
  | ok =>
    cases haddress : parseAddress crates text network with
    | error error =>
      rw [hmessage, haddress] at h
      cases h
    | ok address =>
      simp only [hmessage, haddress, String.toList_ofList, bind, Except.bind] at h
      split at h
      · cases h
      · cases hread : readProof crates signature with
        | none =>
          rw [hread] at h
          cases h
        | some witness =>
          rw [hread] at h
          exact ⟨address, witness, rfl, rfl, h⟩

end Accepted

/-- On every text of at most 4096 ASCII characters the decoding never reads outside of the bytes,
and it reaches the checks of a script exactly for the canonical text of a stack of one or two items
of at most 73 bytes, with or without the prefix, which it recovers. Bytes whose items were read
encode again to themselves. No text without the prefix starts with it, and two accepted texts that
carry the same signature, kind and key differ at most by the prefix. -/
theorem decodes_canonical (hl : crates.Lawful) (hp : crates.ParsesOnce) :
    (∀ signature : List Char, signature.length ≤ maxSignatureChars →
      (∀ c ∈ signature, c.toNat < 128) →
      decodeProof crates signature ≠ .outOfBounds ∧
      (∀ items, decodeProof crates signature = .done items ↔
        ShortStack items ∧ (crates.serializeWitness items).length ≤ 256 ∧
          (signature = "smp".toList ++ proofText items ∨ signature = proofText items)) ∧
      (∀ message text address network, validateMessage message = .ok () →
        parseAddress crates text network = .ok address →
        verify crates message text (.ofList signature) network =
          match decodeProof crates signature with
          | .done witness => scriptChecks crates message address network witness
          | _ => .ok false)) ∧
    (∀ raw count items, witnessCount raw = some count →
      decodeItems raw count 1 = .done (items, raw.length) → crates.serializeWitness items = raw) ∧
    (∀ items, ShortStack items → ¬"smp".toList <+: proofText items) ∧
    ∀ message text network (signature signature' : List Char),
      verify crates message text (.ofList signature) network = .ok true →
      verify crates message text (.ofList signature') network = .ok true →
      (readProof crates signature).bind (carried crates) =
        (readProof crates signature').bind (carried crates) →
      signature = signature' ∨ signature = "smp".toList ++ signature' ∨
        signature' = "smp".toList ++ signature := by
  refine ⟨fun signature hsize hascii => ⟨?_, ?_, ?_⟩, ?_, fun _ => proofText_unprefixed, ?_⟩
  · rw [decodeProof_eq]
    exact Decoding.ofOption_ne _
  · intro items
    rw [decodeProof_eq, Decoding.ofOption_eq_done, serializeWitness_eq hl]
    exact readProof_iff hl
  · intro message text address network hmessage haddress
    exact verify_decoded hmessage haddress hsize hascii
  · intro raw count items hcount hitems
    rw [decodeItems_eq, Decoding.ofOption_eq_done] at hitems
    rw [serializeWitness_eq hl]
    obtain ⟨hknown, hhead⟩ := witnessCount_eq hcount
    exact (readItems_whole hknown hhead hitems).2
  · intro message text network signature signature' h h' hcarried
    obtain ⟨address, witness, haddress, hread, hchecks⟩ := of_verify h
    obtain ⟨address', witness', haddress', hread', hchecks'⟩ := of_verify h'
    cases haddress.symm.trans haddress'
    rw [hread, hread', Option.bind_some, Option.bind_some] at hcarried
    obtain rfl := scriptChecks_unique hp hchecks hchecks' hcarried
    obtain ⟨_, _, htext⟩ := (readProof_iff hl).mp hread
    obtain ⟨_, _, htext'⟩ := (readProof_iff hl).mp hread'
    -- Both are the text of one witness.
    rcases htext with rfl | rfl <;> rcases htext' with rfl | rfl
    · exact .inl rfl
    · exact .inr (.inl rfl)
    · exact .inr (.inr rfl)
    · exact .inl rfl

theorem sampleCrates_parsesOnce : sampleCrates.ParsesOnce where
  schnorr bytes signature h := by
    obtain ⟨_, hsome⟩ := Option.dite_none_right_eq_some.mp h
    cases hsome
    rfl
  publicKey _ _ _ _ _ h _ := nomatch h

/-- The proof of the message `x` by the wallet of the sample. -/
def sampleProof : String :=
  "smpAUCUDtjyBnwHbOciMdzExp21R2v46A0dBKMNvYs4ZkAGBXJAL79YqG5ljWBQO9bewj" ++
  "WWhd8T9nnNwHQL+w7XxGpk"

theorem sampleProof_eq :
    sampleProof.toList = "smp".toList ++ proofText [sampleSignature.1] := by decide

theorem decodes_canonical_sample :
    decodeProof sampleCrates sampleProof.toList = .done [sampleSignature.1] ∧
      decodeProof sampleCrates ("smp".toList ++ sampleProof.toList) ≠
        .done [sampleSignature.1] := by
  have hlength : sampleSignature.1.length = 64 := sampleSignature.2
  have hstack : ShortStack [sampleSignature.1] := ⟨.inl rfl, by simp [hlength]⟩
  have hsize : (encodeWitness [sampleSignature.1]).length ≤ 256 := by
    rw [encodeWitness_short hstack, encodeItems_cons (by omega)]
    simp [encodeItems, hlength]
  have hproof (signature : List Char) (hshort : signature.length ≤ maxSignatureChars)
      (hascii : ∀ c ∈ signature, c.toNat < 128) :=
    ((decodes_canonical sampleCrates_lawful sampleCrates_parsesOnce).1 signature hshort hascii).2.1
      [sampleSignature.1]
  constructor
  · refine (hproof _ (by decide) (forall_of_all (by decide))).mpr ⟨hstack, hsize, .inl ?_⟩
    exact sampleProof_eq
  · intro hdone
    obtain ⟨_, _, htext⟩ :=
      (hproof _ (by decide) (forall_of_all (by decide))).mp hdone
    rw [sampleProof_eq] at htext
    rcases htext with htext | htext
    · exact proofText_unprefixed hstack ⟨_, List.append_cancel_left htext⟩
    · exact proofText_unprefixed hstack ⟨_, htext⟩

end RgbLightningNode.Bip322
