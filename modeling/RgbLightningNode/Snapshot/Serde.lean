import RgbLightningNode.Snapshot.Policy
import RgbLightningNode.Text.Json

/-!
# The JSON of the policy files

The compact JSON records that a policy writes, with readers that take the printed form back. They
are one choice of the serializer that the operations are parameterized by.
-/

namespace RgbLightningNode.Snapshot
open Text

def printScope (s : Scope) : List Char :=
  ",\"network\":".toList ++ (printString s.network ++ (",\"vss_url\":".toList ++
    (printString s.url ++ (",\"node_id\":".toList ++ (printString s.nodeId ++ "\x7d".toList)))))

def readScope : Reader Scope :=
  (readLiteral ",\"network\":").andThen fun _ => readString.andThen fun network =>
  (readLiteral ",\"vss_url\":").andThen fun _ => readString.andThen fun url =>
  (readLiteral ",\"node_id\":").andThen fun _ => readString.andThen fun nodeId =>
  (readLiteral "\x7d").andThen fun _ => .pure ⟨network, url, nodeId⟩

theorem readScope_print (s : Scope) : readScope (printScope s) = some (s, []) := by
  have hend : readLiteral "\x7d" "\x7d".toList = some ((), []) := by
    rw [← List.append_nil "\x7d".toList]
    exact readLiteral_append "\x7d" []
  unfold readScope printScope
  rw [Reader.andThen_eq (readLiteral_append _ _), Reader.andThen_eq (readString_print _ _),
    Reader.andThen_eq (readLiteral_append _ _), Reader.andThen_eq (readString_print _ _),
    Reader.andThen_eq (readLiteral_append _ _), Reader.andThen_eq (readString_print _ _),
    Reader.andThen_eq hend]
  rfl

def printPolicyFile (f : PolicyFile) : List Char :=
  "\x7b\"schema_version\":".toList ++ (printNat f.schemaVersion.toNat ++
    (",\"automatic_backup_enabled\":".toList ++ (printBool f.automaticBackupEnabled ++
      printScope f.scope)))

def readPolicyFile : Reader PolicyFile :=
  (readLiteral "\x7b\"schema_version\":").andThen fun _ => readNat.andThen fun version =>
  (readLiteral ",\"automatic_backup_enabled\":").andThen fun _ => readBool.andThen fun enabled =>
  readScope.andThen fun scope => .pure ⟨.ofNat version, enabled, scope⟩

def printCompletion (r : Completion) : List Char :=
  "\x7b\"version\":".toList ++ (printInt r.version.toInt ++
    (",\"completed_at_ms\":".toList ++ (printNat r.completedAtMs.toNat ++ printScope r.scope)))

def readCompletion : Reader Completion :=
  (readLiteral "\x7b\"version\":").andThen fun _ => readInt.andThen fun version =>
  (readLiteral ",\"completed_at_ms\":").andThen fun _ => readNat.andThen fun ms =>
  readScope.andThen fun scope => .pure ⟨.ofInt version, .ofNat ms, scope⟩

theorem digitsEnd_comma (rest : List Char) : DigitsEnd (',' :: rest) := by
  simp [DigitsEnd]

theorem readPolicyFile_print (f : PolicyFile) :
    readPolicyFile (printPolicyFile f) = some (f, []) := by
  have hcomma : ∀ rest, DigitsEnd (",\"automatic_backup_enabled\":".toList ++ rest) := fun _ =>
    digitsEnd_comma _
  unfold readPolicyFile printPolicyFile
  rw [Reader.andThen_eq (readLiteral_append _ _), Reader.andThen_eq (readNat_print _ (hcomma _)),
    Reader.andThen_eq (readLiteral_append _ _), Reader.andThen_eq (readBool_print _ _),
    Reader.andThen_eq (readScope_print _), UInt32.ofNat_toNat]
  rfl

theorem readCompletion_print (r : Completion) :
    readCompletion (printCompletion r) = some (r, []) := by
  have hcomma : ∀ rest, DigitsEnd (",\"completed_at_ms\":".toList ++ rest) := fun _ =>
    digitsEnd_comma _
  have hscope : DigitsEnd (printScope r.scope) := digitsEnd_comma _
  unfold readCompletion printCompletion
  rw [Reader.andThen_eq (readLiteral_append _ _), Reader.andThen_eq (readInt_print _ (hcomma _)),
    Reader.andThen_eq (readLiteral_append _ _), Reader.andThen_eq (readNat_print _ hscope),
    Reader.andThen_eq (readScope_print _), Int64.ofInt_toInt, UInt64.ofNat_toNat]
  rfl

/-- A codec from a printer and a reader of its texts. -/
def codecOf {α : Type} (print : α → List Char) (read : Reader α)
    (h : ∀ a, read (print a) = some (a, [])) : Codec α where
  encode a := encodeUtf8 (print a)
  decode bytes := (decodeUtf8 bytes).bind read.all
  decode_encode a := by simp [decodeUtf8_encodeUtf8, Reader.all, h]

def jsonSerde : Serde where
  policyFile := codecOf printPolicyFile readPolicyFile readPolicyFile_print
  completion := codecOf printCompletion readCompletion readCompletion_print

end RgbLightningNode.Snapshot
