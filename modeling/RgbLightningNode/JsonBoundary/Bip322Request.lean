import RgbLightningNode.JsonBoundary.Burn
import RgbLightningNode.Json.Characters
import RgbLightningNode.Bip322.MessageKey

/-!
# BIP-322 requests

A request crosses two languages as a text. Its fields are checked on their code units, the text on
its bytes, and the message once more where it is signed. The three limits fit together: what passes
the first passes the others.
-/

namespace RgbLightningNode.JsonBoundary
open Number Json Text
open Faulty (bind_eq_ok map_eq_ok)

/-! ### The script side -/

def unpairedSurrogate : JsError :=
  typeError (units "BIP-322 input contains an unpaired UTF-16 surrogate")

def bip322Maximum (key : Units) : ℕ :=
  if key = units "message" ∨ key = units "signature" then 4096
  else if key = units "address" then 128 else 16

/-- The test at the end of a turn. -/
def checkBytes (key : Units) (bytes : ℕ) : Except JsError Unit :=
  if bip322Maximum key < bytes then
    .error (rangeError (units "BIP-322 " ++ key ++ units " exceeds its byte limit"))
  else .ok ()

/-- The loop over the code units; `bytes` are counted before it. -/
def countBytes (key : Units) (bytes : ℕ) : Units → Except JsError Unit
  | [] => .ok ()
  | unit :: rest =>
    if isHigh unit then
      match rest with
      -- The code unit past the end is no number, and no surrogate.
      | [] => .error unpairedSurrogate
      | next :: rest =>
        if isLow next then
          (checkBytes key (bytes + 4)).bind fun _ => countBytes key (bytes + 4) rest
        else .error unpairedSurrogate
    else if isLow unit then .error unpairedSurrogate
    else
      let bytes := bytes + if unit < 0x80 then 1 else if unit < 0x800 then 2 else 3
      (checkBytes key bytes).bind fun _ => countBytes key bytes rest

def bip322Fields : Fields → Except JsError (List (Units × Value Double))
  | [] => .ok []
  | (key, .string s) :: rest =>
    (countBytes key 0 s).bind fun _ => (bip322Fields rest).map ((key, .string s) :: ·)
  | (key, _) :: _ => .error (typeError (units "BIP-322 " ++ key ++ units " must be a string"))

def bip322Request (request : Fields) : Except JsError Units :=
  (bip322Fields request).bind fun members => stringify (.object members)

/-- The calls that make a request, with their arguments. -/
inductive Bip322Call where
  | signMessage (message address : JsValue)
  | verifyMessage (message address signature : JsValue)
  | verifyMessageOffline (message address signature network : JsValue)

def Bip322Call.request : Bip322Call → Fields
  | signMessage message address => [(units "message", message), (units "address", address)]
  | verifyMessage message address signature =>
    [(units "message", message), (units "address", address), (units "signature", signature)]
  | verifyMessageOffline message address signature network =>
    [(units "message", message), (units "address", address), (units "signature", signature),
      (units "network", network)]

/-! ### The native side -/

/-- How a string is handed to native code: a text of characters in UTF-8. -/
structure Engine where
  utf8 : Units → List UInt8
  utf8_encodeUtf16 : ∀ cs : List Char, utf8 (encodeUtf16 cs) = encodeUtf8 cs

def argumentError (message : String) : JsError :=
  ⟨"TypeError", units message, some "ERR_RLN_ARGUMENT"⟩

/-- `CStringArg`: the buffer of an argument, with the byte that ends it. -/
def cStringArg (engine : Engine) : JsValue → Except JsError (List UInt8)
  | .string s =>
    let value := engine.utf8 s
    if 0 ∈ value then .error (argumentError "String argument contains a NUL byte")
    else .ok (value ++ [0])
  | _ => .error (argumentError "Expected a string argument")

inductive RequestError where
  | stringParse (details : String)
  /-- The text is no JSON, or none of the expected shape. -/
  | serdeJson
  deriving DecidableEq, Repr

/-- The reader of objects whose members are strings: where the grammar finds one, so does it. -/
structure SerdeJson where
  members : List UInt8 → Option (List (List Char × List Char))
  members_text : ∀ cs ms, readText (encodeUtf16 cs) = some (.object (stringMembers ms)) →
    members (encodeUtf8 cs) = some ms

/-- The fields of a structure that denies unknown ones, in its own order. -/
def readStruct (names : List String) (members : List (List Char × List Char)) :
    Option (List String) :=
  if (∀ m ∈ members, m.1 ∈ names.map String.toList) ∧ (members.map Prod.fst).Nodup then
    names.mapM fun name => (members.find? (·.1 = name.toList)).map fun m => String.ofList m.2
  else none

/-- `to_bytes` of the C string at a pointer. -/
def toBytes (buffer : List UInt8) : List UInt8 := buffer.takeWhile (· ≠ 0)

def parseBip322Req {τ : Type} (serde : SerdeJson)
    (fromMembers : List (List Char × List Char) → Option τ)
    (ptr : Option (List UInt8)) : Except RequestError τ :=
  match ptr with
  | none => .error (.stringParse "missing BIP-322 request")
  | some buffer =>
    let bytes := toBytes buffer
    if 32768 < bytes.length then .error (.stringParse "BIP-322 request exceeds limit")
    else match (serde.members bytes).bind fromMembers with
      | some request => .ok request
      | none => .error .serdeJson

structure Bip322SignRequest where
  message : String
  address : String

structure Bip322VerifyRequest where
  message : String
  address : String
  signature : String

structure Bip322VerifyOfflineRequest where
  message : String
  address : String
  signature : String
  network : String

def Bip322SignRequest.fromMembers (members : List (List Char × List Char)) :
    Option Bip322SignRequest :=
  match readStruct ["message", "address"] members with
  | some [message, address] => some ⟨message, address⟩
  | _ => none

def Bip322VerifyRequest.fromMembers (members : List (List Char × List Char)) :
    Option Bip322VerifyRequest :=
  match readStruct ["message", "address", "signature"] members with
  | some [message, address, signature] => some ⟨message, address, signature⟩
  | _ => none

def Bip322VerifyOfflineRequest.fromMembers (members : List (List Char × List Char)) :
    Option Bip322VerifyOfflineRequest :=
  match readStruct ["message", "address", "signature", "network"] members with
  | some [message, address, signature, network] => some ⟨message, address, signature, network⟩
  | _ => none

/-- What the native functions go on with. -/
inductive NativeRequest where
  | signMessage (request : Bip322SignRequest)
  | verifyMessage (request : Bip322VerifyRequest)
  | verifyMessageOffline (request : Bip322VerifyOfflineRequest)

def Bip322Call.parse (call : Bip322Call) (serde : SerdeJson) (ptr : Option (List UInt8)) :
    Except RequestError NativeRequest :=
  match call with
  | signMessage _ _ => (parseBip322Req serde Bip322SignRequest.fromMembers ptr).map .signMessage
  | verifyMessage _ _ _ =>
    (parseBip322Req serde Bip322VerifyRequest.fromMembers ptr).map .verifyMessage
  | verifyMessageOffline _ _ _ _ =>
    (parseBip322Req serde Bip322VerifyOfflineRequest.fromMembers ptr).map .verifyMessageOffline

/-- The native side of a call: the request that the text of the script side is read as. -/
def Bip322Call.native (call : Bip322Call) (engine : Engine) (serde : SerdeJson) (text : Units) :
    Except JsError (Except RequestError NativeRequest) :=
  (cStringArg engine (.string text)).map fun buffer => call.parse serde (some buffer)

/-! ### The counter -/

/-- The counter adds up the bytes that a character takes. -/
theorem encodeChar_length_unit {u : UInt16} (hhigh : isHigh u = false) (hlow : isLow u = false) :
    (encodeChar (Char.ofNat u.toNat)).length =
      if u < 0x80 then 1 else if u < 0x800 then 2 else 3 := by
  have hlt := u.toNat_lt
  have hone : u < 0x80 ↔ u.toNat < 0x80 := UInt16.lt_iff_toNat_lt
  have htwo : u < 0x800 ↔ u.toNat < 0x800 := UInt16.lt_iff_toNat_lt
  simp only [encodeChar, (encodeUtf16_unit hhigh hlow).1, hone, htwo]
  split_ifs with h1 h2
  · rfl
  · rfl
  · rfl

theorem encodeChar_length_pair {u v : UInt16} (hhigh : isHigh u = true) (hlow : isLow v = true) :
    (encodeChar (Char.ofNat (pairValue u v))).length = 4 := by
  have hpair : 0x10000 ≤ pairValue u v := by
    unfold pairValue
    exact Nat.le_trans (Nat.le_add_right _ _) (Nat.le_add_right _ _)
  simp only [encodeChar, (encodeUtf16_pair hhigh hlow).1]
  rw [if_neg (by omega), if_neg (by omega), if_neg (by omega)]
  rfl

theorem checkBytes_bind {key : Units} {bytes : ℕ} {next : Unit → Except JsError Unit} :
    (checkBytes key bytes).bind next = .ok () ↔ bytes ≤ bip322Maximum key ∧ next () = .ok () := by
  unfold checkBytes
  split_ifs with h
  · simp [Except.bind, Nat.not_le.mpr h]
  · simp [Except.bind, Nat.not_lt.mp h]

/-- One turn counts one character. -/
theorem turn_iff {key : Units} {bytes n : ℕ} {c : Char} {rest : Units}
    (hn : (encodeChar c).length = n)
    (ih : bytes + n ≤ bip322Maximum key → (countBytes key (bytes + n) rest = .ok () ↔
      ∃ cs, decodeUtf16 rest = some cs ∧
        bytes + n + (encodeUtf8 cs).length ≤ bip322Maximum key)) :
    ((checkBytes key (bytes + n)).bind fun _ => countBytes key (bytes + n) rest) = .ok () ↔
      ∃ cs, (decodeUtf16 rest).map (c :: ·) = some cs ∧
        bytes + (encodeUtf8 cs).length ≤ bip322Maximum key := by
  have hlength (cs : List Char) : (encodeUtf8 (c :: cs)).length = n + (encodeUtf8 cs).length := by
    rw [encodeUtf8_cons, List.length_append, hn]
  rw [checkBytes_bind]
  constructor
  · rintro ⟨hle, hrest⟩
    obtain ⟨cs, hcs, hbound⟩ := (ih hle).mp hrest
    refine ⟨c :: cs, by rw [hcs, Option.map_some], ?_⟩
    rw [hlength]
    omega
  · rintro ⟨_, hmap, hbound⟩
    obtain ⟨cs, hcs, rfl⟩ := Option.map_eq_some_iff.mp hmap
    rw [hlength] at hbound
    have hle : bytes + n ≤ bip322Maximum key := by omega
    exact ⟨hle, (ih hle).mpr ⟨cs, hcs, by omega⟩⟩

theorem countBytes_iff {key : Units} {bytes : ℕ} (hbytes : bytes ≤ bip322Maximum key) (s : Units) :
    countBytes key bytes s = .ok () ↔
      ∃ cs, decodeUtf16 s = some cs ∧ bytes + (encodeUtf8 cs).length ≤ bip322Maximum key := by
  fun_induction countBytes key bytes s with
  | case1 bytes => simp [decodeUtf16, encodeUtf8, hbytes]
  | case2 bytes u hhigh => simp [decodeUtf16, hhigh]
  | case3 bytes u hhigh v rest hlow ih =>
    rw [decodeUtf16.eq_def]
    simp only [hhigh, hlow, if_true]
    exact turn_iff (encodeChar_length_pair hhigh hlow) fun hle => ih hle
  | case4 bytes u hhigh v rest hlow => simp [decodeUtf16, hhigh, hlow]
  | case5 bytes u rest hhigh hlow =>
    rw [decodeUtf16.eq_def]
    simp [hhigh, hlow]
  | case6 bytes u rest hhigh hlow bytes' ih =>
    rw [decodeUtf16.eq_def]
    simp only [hhigh, hlow]
    exact turn_iff (encodeChar_length_unit (by simpa using hhigh) (by simpa using hlow)) fun hle =>
      ih hle

/-! ### Whole requests -/

/-- A field that passes the checks. -/
def Admitted (field : Units × JsValue) : Prop :=
  ∃ cs, field.2 = .string (encodeUtf16 cs) ∧ (encodeUtf8 cs).length ≤ bip322Maximum field.1

/-- A field with its text. -/
def stringField (m : Units × List Char) : Units × JsValue := (m.1, .string (encodeUtf16 m.2))

def stringMember {ν : Type} (m : Units × List Char) : Units × Value ν :=
  (m.1, .string (encodeUtf16 m.2))

theorem bip322Fields_iff (request : Fields) {members : List (Units × Value Double)} :
    bip322Fields request = .ok members ↔ ∃ ms : List (Units × List Char),
      request = ms.map stringField ∧ members = ms.map stringMember ∧
        ∀ m ∈ ms, (encodeUtf8 m.2).length ≤ bip322Maximum m.1 := by
  induction request generalizing members with
  | nil =>
    constructor
    · intro h
      cases h
      exact ⟨[], rfl, rfl, by simp⟩
    · rintro ⟨ms, hms, rfl, -⟩
      rw [List.map_eq_nil_iff.mp hms.symm]
      rfl
  | cons field request ih =>
    obtain ⟨key, value⟩ := field
    constructor
    · intro h
      cases value with
      | string s =>
        obtain ⟨_, hcount, h⟩ := bind_eq_ok.mp h
        obtain ⟨rest, hrest, rfl⟩ := map_eq_ok.mp h
        obtain ⟨cs, hcs, hbound⟩ := (countBytes_iff (Nat.zero_le _) s).mp hcount
        obtain ⟨ms, rfl, rfl, hms⟩ := ih.mp hrest
        rw [decodeUtf16_iff] at hcs
        refine ⟨(key, cs) :: ms, by rw [hcs]; rfl, by rw [hcs]; rfl, ?_⟩
        exact List.forall_mem_cons.mpr ⟨by simpa using hbound, hms⟩
      | _ => cases h
    · rintro ⟨ms, hms, rfl, hbounds⟩
      cases ms with
      | nil => cases hms
      | cons m ms =>
        obtain ⟨hfield, hrest⟩ := List.cons.inj hms
        cases hfield
        have hcount : countBytes m.1 0 (encodeUtf16 m.2) = .ok () :=
          (countBytes_iff (Nat.zero_le _) _).mpr
            ⟨m.2, decodeUtf16_encodeUtf16 m.2, by simpa using hbounds m (by simp)⟩
        have hmembers :=
          ih.mpr ⟨ms, hrest, rfl, fun m' hm' => hbounds m' (List.mem_cons_of_mem _ hm')⟩
        rw [bip322Fields, hcount, hmembers]
        rfl

theorem traverse_strings {ν μ ε : Type} (f : ν → Except ε (Value μ))
    (ms : List (Units × List Char)) :
    (Value.object (ms.map stringMember)).traverse f = .ok (.object (ms.map stringMember)) := by
  have hmembers : traverseMembers f (ms.map stringMember) = .ok (ms.map stringMember) := by
    induction ms with
    | nil => rfl
    | cons m ms ih =>
      rw [List.map_cons, stringMember, traverseMembers, ih]
      rfl
  rw [Value.traverse, hmembers]
  rfl

theorem bip322Request_iff {request : Fields} {text : Units} :
    bip322Request request = .ok text ↔ ∃ ms : List (Units × List Char),
      request = ms.map stringField ∧ text = (Value.object (ms.map stringMember)).text ∧
        ∀ m ∈ ms, (encodeUtf8 m.2).length ≤ bip322Maximum m.1 := by
  refine bind_eq_ok.trans ?_
  constructor
  · rintro ⟨members, hmembers, htext⟩
    obtain ⟨ms, hrequest, rfl, hbounds⟩ := (bip322Fields_iff request).mp hmembers
    rw [stringify, traverse_strings] at htext
    cases htext
    exact ⟨ms, hrequest, rfl, hbounds⟩
  · rintro ⟨ms, hrequest, rfl, hbounds⟩
    refine ⟨_, (bip322Fields_iff request).mpr ⟨ms, hrequest, rfl, hbounds⟩, ?_⟩
    rw [stringify, traverse_strings]
    rfl

theorem bip322Request_accepts_iff (request : Fields) :
    (∃ text, bip322Request request = .ok text) ↔ ∀ field ∈ request, Admitted field := by
  constructor
  · rintro ⟨text, htext⟩ field hfield
    obtain ⟨ms, rfl, -, hbounds⟩ := bip322Request_iff.mp htext
    obtain ⟨m, hm, rfl⟩ := List.mem_map.mp hfield
    exact ⟨m.2, rfl, hbounds m hm⟩
  · intro h
    have hms : ∃ ms : List (Units × List Char), request = ms.map stringField ∧
        ∀ m ∈ ms, (encodeUtf8 m.2).length ≤ bip322Maximum m.1 := by
      induction request with
      | nil => exact ⟨[], rfl, by simp⟩
      | cons field request ih =>
        obtain ⟨cs, hvalue, hbound⟩ := h field (by simp)
        obtain ⟨ms, rfl, hbounds⟩ := ih fun other hother => h other (List.mem_cons_of_mem _ hother)
        refine ⟨(field.1, cs) :: ms, ?_, List.forall_mem_cons.mpr ⟨hbound, hbounds⟩⟩
        rw [List.map_cons, stringField, ← hvalue]
    obtain ⟨ms, hrequest, hbounds⟩ := hms
    exact ⟨_, bip322Request_iff.mpr ⟨ms, hrequest, rfl, hbounds⟩⟩

/-! ### Across the boundary -/

/-- A string of the native side, as the script side holds it. -/
def textValue (s : String) : JsValue := .string (encodeUtf16 s.toList)

/-- The call whose arguments a native request holds. -/
def NativeRequest.call : NativeRequest → Bip322Call
  | signMessage r => .signMessage (textValue r.message) (textValue r.address)
  | verifyMessage r =>
    .verifyMessage (textValue r.message) (textValue r.address) (textValue r.signature)
  | verifyMessageOffline r =>
    .verifyMessageOffline (textValue r.message) (textValue r.address) (textValue r.signature)
      (textValue r.network)

def NativeRequest.message : NativeRequest → String
  | signMessage r => r.message
  | verifyMessage r => r.message
  | verifyMessageOffline r => r.message

def NativeRequest.members : NativeRequest → List (List Char × List Char)
  | signMessage r => [("message".toList, r.message.toList), ("address".toList, r.address.toList)]
  | verifyMessage r =>
    [("message".toList, r.message.toList), ("address".toList, r.address.toList),
      ("signature".toList, r.signature.toList)]
  | verifyMessageOffline r =>
    [("message".toList, r.message.toList), ("address".toList, r.address.toList),
      ("signature".toList, r.signature.toList), ("network".toList, r.network.toList)]

def Bip322Call.signature : Bip322Call → Option JsValue
  | signMessage _ _ => none
  | verifyMessage _ _ signature => some signature
  | verifyMessageOffline _ _ signature _ => some signature

/-- No character of the signature is escaped. -/
def Bip322Call.PlainSignature (call : Bip322Call) : Prop :=
  ∀ cs, call.signature = some (.string (encodeUtf16 cs)) → ∀ c ∈ cs, IsPlain c

theorem units_message : units "message" = encodeUtf16 "message".toList := by decide

theorem units_address : units "address" = encodeUtf16 "address".toList := by decide

theorem units_signature : units "signature" = encodeUtf16 "signature".toList := by decide

theorem units_network : units "network" = encodeUtf16 "network".toList := by decide

/-- The first of the fields, and the fields behind it. -/
theorem stringField_cons {key : String} {value : JsValue} {fields : Fields}
    {ms : List (Units × List Char)} (h : (units key, value) :: fields = ms.map stringField) :
    ∃ s : String, ∃ rest, ms = (units key, s.toList) :: rest ∧ value = textValue s ∧
      fields = rest.map stringField := by
  obtain ⟨⟨key', cs⟩, rest, rfl, hm, hrest⟩ := List.map_eq_cons_iff.mp h.symm
  obtain ⟨hkey, hvalue⟩ := Prod.mk.inj hm
  refine ⟨String.ofList cs, rest, ?_, ?_, hrest.symm⟩
  · rw [String.toList_ofList, ← hkey]
  · rw [textValue, String.toList_ofList, ← hvalue]

/-- The fields of a call are the members of a native request. -/
theorem exists_native {call : Bip322Call} {ms : List (Units × List Char)}
    (h : call.request = ms.map stringField) : ∃ r : NativeRequest, r.call = call ∧
      ms = r.members.map fun m => (encodeUtf16 m.1, m.2) := by
  cases call with
  | signMessage message address =>
    obtain ⟨m, ms, rfl, rfl, h1⟩ := stringField_cons h
    obtain ⟨a, ms, rfl, rfl, h2⟩ := stringField_cons h1
    rw [List.map_eq_nil_iff.mp h2.symm, units_message, units_address]
    exact ⟨.signMessage ⟨m, a⟩, rfl, rfl⟩
  | verifyMessage message address signature =>
    obtain ⟨m, ms, rfl, rfl, h1⟩ := stringField_cons h
    obtain ⟨a, ms, rfl, rfl, h2⟩ := stringField_cons h1
    obtain ⟨s, ms, rfl, rfl, h3⟩ := stringField_cons h2
    rw [List.map_eq_nil_iff.mp h3.symm, units_message, units_address, units_signature]
    exact ⟨.verifyMessage ⟨m, a, s⟩, rfl, rfl⟩
  | verifyMessageOffline message address signature network =>
    obtain ⟨m, ms, rfl, rfl, h1⟩ := stringField_cons h
    obtain ⟨a, ms, rfl, rfl, h2⟩ := stringField_cons h1
    obtain ⟨s, ms, rfl, rfl, h3⟩ := stringField_cons h2
    obtain ⟨n, ms, rfl, rfl, h4⟩ := stringField_cons h3
    rw [List.map_eq_nil_iff.mp h4.symm, units_message, units_address, units_signature,
      units_network]
    exact ⟨.verifyMessageOffline ⟨m, a, s, n⟩, rfl, rfl⟩

/-- What an accepted request is written as. -/
theorem text_of_request {call : Bip322Call} {text : Units}
    (h : bip322Request call.request = .ok text) : ∃ r : NativeRequest, r.call = call ∧
      text = encodeUtf16 (objectChars r.members) ∧
      ∀ m ∈ r.members, (encodeUtf8 m.2).length ≤ bip322Maximum (encodeUtf16 m.1) := by
  obtain ⟨ms, hrequest, rfl, hbounds⟩ := bip322Request_iff.mp h
  obtain ⟨r, hcall, rfl⟩ := exists_native hrequest
  refine ⟨r, hcall, ?_, fun m hm => hbounds _ (List.mem_map_of_mem hm)⟩
  rw [← text_strings, List.map_map]
  rfl

/-- A member takes at most six bytes for each byte of its value. -/
theorem member_length {key value : List Char} (hkey : ∀ c ∈ key, IsPlain c) :
    (encodeUtf8 (quoteChars key)).length + (encodeUtf8 (quoteChars value)).length + 2 ≤
      (encodeUtf8 key).length + 6 * (encodeUtf8 value).length + 6 := by
  have hvalue := escape_length value
  rw [quoteChars_length, quoteChars_length, escape_plain hkey]
  omega

/-- A member whose value needs no escape takes no more than it says. -/
theorem member_length_plain {key value : List Char} (hkey : ∀ c ∈ key, IsPlain c)
    (hvalue : ∀ c ∈ value, IsPlain c) :
    (encodeUtf8 (quoteChars key)).length + (encodeUtf8 (quoteChars value)).length + 2 =
      (encodeUtf8 key).length + (encodeUtf8 value).length + 6 := by
  rw [quoteChars_length, quoteChars_length, escape_plain hkey, escape_plain hvalue]
  omega

theorem NativeRequest.length_le {r : NativeRequest}
    (hbounds : ∀ m ∈ r.members, (encodeUtf8 m.2).length ≤ bip322Maximum (encodeUtf16 m.1))
    (hplain : r.call.PlainSignature) : (encodeUtf8 (objectChars r.members)).length ≤ 32768 := by
  have hkeys : ∀ key ∈ ["message", "address", "signature", "network"],
      (∀ c ∈ key.toList, IsPlain c) ∧ (encodeUtf8 key.toList).length ≤ 9 := by
    have hall : ∀ key ∈ ["message", "address", "signature", "network"],
        key.toList.all (fun c => IsPlain c) = true ∧ (encodeUtf8 key.toList).length ≤ 9 := by decide
    simpa only [List.all_eq_true, decide_eq_true_eq] using hall
  have hmember (key : String) (hkey : key ∈ ["message", "address", "signature", "network"])
      {value : String} {limit : ℕ} (hvalue : (encodeUtf8 value.toList).length ≤ limit) :
      (encodeUtf8 (quoteChars key.toList)).length +
        (encodeUtf8 (quoteChars value.toList)).length + 2 ≤
        15 + 6 * limit := by
    have hlength := @member_length _ value.toList (hkeys key hkey).1
    have hshort := (hkeys key hkey).2
    omega
  have hsignature {value : String} (hvalue : (encodeUtf8 value.toList).length ≤ 4096)
      (hclean : ∀ c ∈ value.toList, IsPlain c) :
      (encodeUtf8 (quoteChars "signature".toList)).length +
        (encodeUtf8 (quoteChars value.toList)).length + 2 ≤ 15 + 4096 := by
    have hlength := member_length_plain (hkeys "signature" (by decide)).1 hclean
    have hshort := (hkeys "signature" (by decide)).2
    omega
  have hmaximum : bip322Maximum (encodeUtf16 "message".toList) = 4096 ∧
      bip322Maximum (encodeUtf16 "address".toList) = 128 ∧
      bip322Maximum (encodeUtf16 "signature".toList) = 4096 ∧
      bip322Maximum (encodeUtf16 "network".toList) = 16 := by decide
  obtain ⟨hmessage, haddress, hsign, hnetwork⟩ := hmaximum
  cases r with
  | signMessage r =>
    simp only [members, List.forall_mem_cons, hmessage, haddress] at hbounds
    have hm := hmember "message" (by decide) hbounds.1
    have ha := hmember "address" (by decide) hbounds.2.1
    rw [objectChars_length (by simp [members])]
    simp only [members, List.map_cons, List.map_nil, List.sum_cons, List.sum_nil]
    omega
  | verifyMessage r =>
    simp only [members, List.forall_mem_cons, hmessage, haddress, hsign] at hbounds
    have hm := hmember "message" (by decide) hbounds.1
    have ha := hmember "address" (by decide) hbounds.2.1
    have hs := hsignature hbounds.2.2.1 (hplain _ rfl)
    rw [objectChars_length (by simp [members])]
    simp only [members, List.map_cons, List.map_nil, List.sum_cons, List.sum_nil]
    omega
  | verifyMessageOffline r =>
    simp only [members, List.forall_mem_cons, hmessage, haddress, hsign, hnetwork] at hbounds
    have hm := hmember "message" (by decide) hbounds.1
    have ha := hmember "address" (by decide) hbounds.2.1
    have hs := hsignature hbounds.2.2.1 (hplain _ rfl)
    have hn := hmember "network" (by decide) hbounds.2.2.2.1
    rw [objectChars_length (by simp [members])]
    simp only [members, List.map_cons, List.map_nil, List.sum_cons, List.sum_nil]
    omega

/-- The members of a structure, one for each of its names. -/
theorem find_member {names values : List String} (hdistinct : names.Nodup) {name value : String}
    (h : (name, value) ∈ names.zip values) :
    ((names.map String.toList).zip (values.map String.toList)).find? (·.1 = name.toList) =
      some (name.toList, value.toList) := by
  induction names generalizing values with
  | nil => cases h
  | cons other names ih =>
    cases values with
    | nil => cases h
    | cons other' values =>
      obtain ⟨hother, hdistinct⟩ := List.nodup_cons.mp hdistinct
      rcases List.mem_cons.mp h with heq | h
      · obtain ⟨rfl, rfl⟩ := Prod.mk.inj heq
        simp
      · have hne : other ≠ name := by
          rintro rfl
          exact hother (List.of_mem_zip h).1
        have hkey : decide (other.toList = name.toList) = false := by simp [String.toList_inj, hne]
        rw [List.map_cons, List.map_cons, List.zip_cons_cons, List.find?_cons, hkey]
        exact ih hdistinct h

theorem mapM_eq_some {α β : Type} {f : α → Option β} {names : List α} {values : List β}
    (hlength : names.length = values.length) (h : ∀ p ∈ names.zip values, f p.1 = some p.2) :
    names.mapM f = some values := by
  induction names generalizing values with
  | nil =>
    cases values with
    | nil => rfl
    | cons value values => cases hlength
  | cons name names ih =>
    cases values with
    | nil => cases hlength
    | cons value values =>
      have hrest := ih (by simpa using hlength) fun p hp => h p (List.mem_cons_of_mem _ hp)
      have hfirst := h (name, value) List.mem_cons_self
      simp only at hfirst
      simp [hfirst, hrest]

theorem readStruct_eq (names values : List String) (hdistinct : names.Nodup)
    (hlength : names.length = values.length) :
    readStruct names ((names.map String.toList).zip (values.map String.toList)) = some values := by
  have hkeys : ((names.map String.toList).zip (values.map String.toList)).map Prod.fst =
      names.map String.toList := List.map_fst_zip (by simp [hlength])
  have hinj : Function.Injective String.toList := fun _ _ => String.toList_inj.mp
  rw [readStruct, if_pos]
  · refine mapM_eq_some hlength fun p hp => ?_
    rw [find_member hdistinct hp, Option.map_some, String.ofList_toList]
  · rw [hkeys]
    exact ⟨fun m hm => (List.of_mem_zip hm).1, hdistinct.map hinj⟩

theorem parse_members {call : Bip322Call} {r : NativeRequest} (hcall : r.call = call)
    (serde : SerdeJson) {buffer : List UInt8} (hshort : (toBytes buffer).length ≤ 32768)
    (hread : serde.members (toBytes buffer) = some r.members) :
    call.parse serde (some buffer) = .ok r := by
  subst hcall
  have hbound : ¬ 32768 < (toBytes buffer).length := Nat.not_lt.mpr hshort
  cases r with
  | signMessage r =>
    have hfields : readStruct ["message", "address"] (NativeRequest.signMessage r).members =
        some [r.message, r.address] :=
      readStruct_eq ["message", "address"] [r.message, r.address] (by decide) rfl
    simp only [NativeRequest.call, Bip322Call.parse, parseBip322Req, hread, hbound, if_false,
      Option.bind_some, Bip322SignRequest.fromMembers, hfields]
    rfl
  | verifyMessage r =>
    have hfields : readStruct ["message", "address", "signature"]
        (NativeRequest.verifyMessage r).members = some [r.message, r.address, r.signature] :=
      readStruct_eq ["message", "address", "signature"] [r.message, r.address, r.signature]
        (by decide) rfl
    simp only [NativeRequest.call, Bip322Call.parse, parseBip322Req, hread, hbound, if_false,
      Option.bind_some, Bip322VerifyRequest.fromMembers, hfields]
    rfl
  | verifyMessageOffline r =>
    have hfields : readStruct ["message", "address", "signature", "network"]
        (NativeRequest.verifyMessageOffline r).members =
          some [r.message, r.address, r.signature, r.network] :=
      readStruct_eq ["message", "address", "signature", "network"]
        [r.message, r.address, r.signature, r.network] (by decide) rfl
    simp only [NativeRequest.call, Bip322Call.parse, parseBip322Req, hread, hbound, if_false,
      Option.bind_some, Bip322VerifyOfflineRequest.fromMembers, hfields]
    rfl

theorem toBytes_append {bytes : List UInt8} (h : 0 ∉ bytes) : toBytes (bytes ++ [0]) = bytes := by
  have hall : ∀ b ∈ bytes, (b ≠ 0) = true := by
    intro b hb
    simp only [ne_eq, eq_iff_iff, iff_true]
    rintro rfl
    exact h hb
  rw [toBytes, List.takeWhile_append_of_pos (by simpa using hall)]
  simp

theorem bip322_boundary (engine : Engine) (serde : SerdeJson) :
    (∀ request : Fields, (∃ text, bip322Request request = .ok text) ↔
      ∀ field ∈ request, ∃ cs, field.2 = .string (encodeUtf16 cs) ∧
        (encodeUtf8 cs).length ≤ bip322Maximum field.1) ∧
      ∀ (call : Bip322Call) (text : Units), bip322Request call.request = .ok text →
        call.PlainSignature → 0 ∉ engine.utf8 text ∧ (engine.utf8 text).length ≤ 32768 ∧
          ∃ r : NativeRequest, call.native engine serde text = .ok (.ok r) ∧ r.call = call ∧
            Bip322.validateMessage r.message = .ok () := by
  refine ⟨bip322Request_accepts_iff, fun call text htext hplain => ?_⟩
  obtain ⟨r, rfl, rfl, hbounds⟩ := text_of_request htext
  have hclean := objectChars_nonzero r.members
  have hshort := NativeRequest.length_le hbounds hplain
  rw [Bip322Call.native, cStringArg, engine.utf8_encodeUtf16]
  refine ⟨hclean, hshort, r, ?_, rfl, ?_⟩
  · have hbytes := toBytes_append hclean
    have hread : serde.members (toBytes (encodeUtf8 (objectChars r.members) ++ [0])) =
        some r.members := by
      rw [hbytes]
      exact serde.members_text _ _ (by rw [← text_strings]; exact readText_text _)
    rw [if_neg hclean, Except.map, parse_members rfl serde (by rw [hbytes]; exact hshort) hread]
  · have hmessage : (encodeUtf8 r.message.toList).length ≤ 4096 := by
      cases r <;> exact hbounds _ (List.mem_cons_self ..)
    exact if_neg (Nat.not_lt.mpr hmessage)

def strictEngine : Engine where
  utf8 s := (decodeUtf16 s).elim [] encodeUtf8
  utf8_encodeUtf16 cs := by rw [decodeUtf16_encodeUtf16]; rfl

/-- A member of an object of strings. -/
def readMemberStrings : Units × Value Token → Option (List Char × List Char)
  | (key, .string s) => (decodeUtf16 key).bind fun key => (decodeUtf16 s).map (key, ·)
  | _ => none

theorem readMemberStrings_strings (ms : List (List Char × List Char)) :
    (stringMembers ms).mapM readMemberStrings = some ms := by
  induction ms with
  | nil => rfl
  | cons m ms ih =>
    rw [stringMembers_cons, List.mapM_cons, ih, readMemberStrings, decodeUtf16_encodeUtf16,
      Option.bind_some, decodeUtf16_encodeUtf16]
    rfl

/-- The reader that keeps to the grammar. -/
def grammarSerde : SerdeJson where
  members bytes := (decodeUtf8 bytes).bind fun cs => (readText (encodeUtf16 cs)).bind fun
    | .object members => members.mapM readMemberStrings
    | _ => none
  members_text cs ms h := by
    rw [decodeUtf8_encodeUtf8, Option.bind_some, h, Option.bind_some]
    exact readMemberStrings_strings ms

theorem bip322_boundary_sample : ∃ text,
    bip322Request (Bip322Call.signMessage (textValue "\x00\"😄") (textValue "bcrt1ptest")).request =
      .ok text ∧
    (strictEngine.utf8 text).length ≤ 32768 ∧ ∃ r : NativeRequest,
      (Bip322Call.signMessage (textValue "\x00\"😄") (textValue "bcrt1ptest")).native strictEngine
        grammarSerde text = .ok (.ok r) ∧
      r.call = .signMessage (textValue "\x00\"😄") (textValue "bcrt1ptest") := by
  obtain ⟨haccepts, hcross⟩ := bip322_boundary strictEngine grammarSerde
  obtain ⟨text, htext⟩ := (haccepts (Bip322Call.signMessage (textValue "\x00\"😄")
      (textValue "bcrt1ptest")).request).mpr (by
    simp only [Bip322Call.request, List.forall_mem_cons]
    exact ⟨⟨_, rfl, by decide⟩, ⟨_, rfl, by decide⟩, by simp⟩)
  obtain ⟨-, hshort, r, hnative, hcall, -⟩ := hcross _ text htext (by
    intro cs hcs
    cases hcs)
  exact ⟨text, htext, hshort, r, hnative, hcall⟩

end RgbLightningNode.JsonBoundary
