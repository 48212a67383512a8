import RgbLightningNode.Faulty.Checks
import RgbLightningNode.Number.Arithmetic

/-!
# ELF metadata

What LLVM prints about a shared object, as the validators of Android artifacts read it. A field
that holds no number is `nan`: each check of a number refuses both in the same way.
-/

namespace RgbLightningNode.Android
open Number

structure ProgramHeader where
  type : Option String
  offset : Double
  virtualAddress : Double
  fileSize : Double
  memSize : Double
  alignment : Double
  flags : Double

structure Section where
  name : Option String
  address : Double
  size : Double
  flags : Double

structure Elf where
  arch : Option String
  addressSize : Option String
  dataEncoding : Option String
  type : Option String
  programHeaders : Option (List ProgramHeader)
  sections : Option (List Section)

/-- The parsed output of LLVM, if it is an array. -/
abbrev Output := Option (List Elf)

def integer (d : Double) : Bool := d.isSafeInteger && (Double.natural 0).le d

theorem integer_iff {d : Double} : integer d = true ↔ ∃ n, d.IsNatural n :=
  Double.exists_natural_iff

def ensure (condition : Bool) (message : String) : Except String Unit :=
  if condition then .ok () else .error ("Android staging: " ++ message)

def ofType (headers : List ProgramHeader) (name : String) : List ProgramHeader :=
  headers.filter fun header => header.type = some name

@[simp] theorem ensure_eq_ok {condition : Bool} {message : String} {u : Unit} :
    ensure condition message = .ok u ↔ condition = true := by
  cases condition <;> simp [ensure]

theorem refuse_eq_ok {c : Prop} [Decidable c] {message : String} {next : Except String Unit} :
    (if c then .error message else next) = .ok () ↔ ¬ c ∧ next = .ok () := by
  by_cases h : c <;> simp [h]

theorem mem_ofType {headers : List ProgramHeader} {name : String} {header : ProgramHeader} :
    header ∈ ofType headers name ↔ header ∈ headers ∧ header.type = some name := by
  simp [ofType]

end RgbLightningNode.Android
