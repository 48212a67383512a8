import RgbLightningNode.Android.Dynamic

/-!
# The layout checks of Android artifacts

The gate of linked libraries checks the alignment of the segments and, apart from it, what the
loader makes read-only after relocation. The staging scripts check both for each ABI, the second on
the metadata as they print and parse it again.
-/

namespace RgbLightningNode.Android
open Number

/-! ### The gate of linked libraries -/

def expectedArch (target : String) : Option String :=
  if target = "android-arm64" then some "aarch64"
  else if target = "android-x64" then some "x86_64"
  else none

def checkLoad (header : ProgramHeader) : Except String Unit :=
  if !integer header.alignment || header.alignment.lt (Double.natural 16384) ||
      !integer header.virtualAddress || !integer header.offset ||
      !((header.virtualAddress.sub header.offset).rem (Double.natural 16384)).isZero then
    .error "Android ELF LOAD segment is not 16 KiB aligned"
  else .ok ()

def checkRelroEnd (header : ProgramHeader) : Except String Unit :=
  let stop := header.virtualAddress.add header.memSize
  if !integer header.virtualAddress || !integer header.memSize || !integer stop ||
      !(stop.rem (Double.natural 16384)).isZero then
    .error "Android ELF RELRO end is not 16 KiB aligned"
  else .ok ()

def validateAndroidElf (output : Output) (target : String) : Except String Unit :=
  match output, expectedArch target with
  | some [elf], some arch =>
    if elf.arch ≠ some arch ∨ elf.addressSize ≠ some "64bit" then
      .error ("Invalid Android ELF identity for " ++ target)
    else match elf.programHeaders with
      | none => .error "Missing Android ELF program headers"
      | some headers =>
        let loads := ofType headers "PT_LOAD"
        let relros := ofType headers "PT_GNU_RELRO"
        if loads.isEmpty || relros.isEmpty then
          .error "Android ELF requires LOAD and RELRO segments"
        else do
          loads.forM checkLoad
          relros.forM checkRelroEnd
  | _, _ => .error ("Invalid Android ELF identity for " ++ target)

/-! ### What the loader makes read-only -/

def valid (address size : Double) : Bool :=
  integer address && integer size && (Double.natural 0).lt size && integer (address.add size)

def contains (r : ProgramHeader) (address size : Double) : Bool :=
  valid address size && r.virtualAddress.le address &&
    (address.add size).le (r.virtualAddress.add r.memSize)

def isLineTerminator (c : Char) : Bool :=
  c = '\n' || c = '\r' || c = Char.ofNat 0x2028 || c = Char.ofNat 0x2029

def protectedNames : List String :=
  [".dynamic", ".got", ".got.plt", ".data.rel.ro", ".init_array", ".fini_array", ".relro_padding"]

/-- The pattern of the sections that belong into the range. Behind `.data.rel.ro.` stands any
line. -/
def isProtected : Option String → Bool
  | none => false
  | some name => protectedNames.contains name ||
      (".data.rel.ro.".toList.isPrefixOf name.toList &&
        (name.toList.drop 13).all fun c => !isLineTerminator c)

def checkSection (r : ProgramHeader) (page : Double) (s : Section) : Except String Unit :=
  let start := (r.virtualAddress.div page).floor.mul page
  let stop := r.virtualAddress.add r.memSize
  if !integer s.address || !integer s.size || !integer (s.address.add s.size) ||
      !integer s.flags then .error "Invalid Android ELF section bounds"
  else if s.size.isZero || s.flags.bitAnd 2 = 0 then .ok ()
  else if isProtected s.name && !contains r s.address s.size then
    .error (s.name.getD "" ++ " escaped RELRO")
  else if !isProtected s.name && s.flags.bitAnd 1 ≠ 0 && s.address.lt stop &&
      start.lt (s.address.add s.size) then
    .error ("Android RELRO protects mutable " ++ s.name.getD "undefined")
  else .ok ()

def validateAndroidProtection (output : Output) (pageSize : ℕ) : Except String Unit :=
  if pageSize ∉ [4096, 16384] then .error "Unsupported Android page size"
  else match output with
  | some [elf] =>
    match elf.programHeaders, elf.sections with
    | some headers, some sections =>
      match ofType headers "PT_GNU_RELRO", ofType headers "PT_DYNAMIC" with
      | [r], [dynamic] =>
        if !valid r.virtualAddress r.memSize then .error "Invalid Android RELRO bounds"
        else if !(ofType headers "PT_LOAD").any fun load =>
            valid load.virtualAddress load.memSize && load.virtualAddress.le r.virtualAddress &&
              (r.virtualAddress.add r.memSize).le (load.virtualAddress.add load.memSize) then
          .error "Android RELRO is outside LOAD"
        else if !contains r dynamic.virtualAddress dynamic.memSize then
          .error "Android DYNAMIC escaped RELRO"
        else if !sections.any (fun s => s.name = some ".dynamic") ||
            !sections.any (fun s => s.name = some ".got") then
          .error "Missing protected Android ELF sections"
        else sections.forM (checkSection r (Double.natural pageSize))
      | _, _ => .error "Expected one Android RELRO and DYNAMIC segment"
    | _, _ => .error "Missing Android ELF sections or headers"
  | _ => .error "Invalid Android ELF metadata"

/-- The checks of a linked library, on what LLVM prints about it and on its own bytes. -/
def checkLinked (target : String) (output : Output) (contents : List UInt8) : Except String Unit :=
  if target ∉ ["android-arm64", "android-x64"] then
    .error "Usage: check-android-linked.js android-arm64|android-x64 /absolute/path/to/linked.so"
  else do
    validateAndroidElf output target
    validateAndroidLifetime output contents
    validateAndroidProtection output 16384

/-! ### The staging scripts -/

inductive Abi where
  | arm64V8a
  | armeabiV7a
  | x86_64
  deriving DecidableEq, Repr

namespace Abi

def name : Abi → String
  | arm64V8a => "arm64-v8a"
  | armeabiV7a => "armeabi-v7a"
  | x86_64 => "x86_64"

def arch : Abi → String
  | arm64V8a => "aarch64"
  | armeabiV7a => "arm"
  | x86_64 => "x86_64"

def bits : Abi → String
  | arm64V8a | x86_64 => "64bit"
  | armeabiV7a => "32bit"

def page : Abi → ℕ
  | arm64V8a | x86_64 => 16384
  | armeabiV7a => 4096

end Abi

def validateIdentity (elf : Elf) (abi : Abi) : Except String Unit :=
  ensure (elf.arch = some abi.arch && elf.addressSize = some abi.bits &&
    elf.dataEncoding = some "LittleEndian" && elf.type = some "SharedObject (0x3)")
    ("ELF ABI mismatch for " ++ abi.name)

def checkStack (headers : List ProgramHeader) : Except String Unit :=
  match ofType headers "PT_GNU_STACK" with
  | [stack] => ensure (integer stack.flags && stack.flags.bitAnd 1 = 0)
      "executable or missing GNU_STACK"
  | _ => ensure false "executable or missing GNU_STACK"

def checkHeader (header : ProgramHeader) : Except String Unit := do
  ensure (integer header.virtualAddress) "invalid program header VirtualAddress"
  ensure (integer header.memSize) "invalid program header MemSize"
  ensure (integer header.offset) "invalid program header Offset"
  ensure (integer header.fileSize) "invalid program header FileSize"
  ensure (integer header.alignment) "invalid program header Alignment"
  ensure (integer (header.virtualAddress.add header.memSize) && integer header.flags)
    "invalid program header bounds/flags"

def checkPage (page : ℕ) (load : ProgramHeader) : Except String Unit := do
  ensure ((Double.natural page).le load.alignment &&
      (load.alignment.rem (Double.natural page)).isZero &&
      ((load.virtualAddress.sub load.offset).rem (Double.natural page)).isZero)
    ("LOAD is not " ++ toString page ++ "-byte aligned")
  ensure (load.flags.bitAnd 3 ≠ 3) "writable executable LOAD"

def dynamicFlag (table : Table) (tag mask : ℕ) : Except String Bool := do
  let values := (table.get tag).getD []
  ensure (values.length ≤ 1) "duplicate dynamic flags"
  return values.any fun value => value &&& mask ≠ 0

def checkDynamic (table : Table) : Except String Unit := do
  let flags ← dynamicFlag table 30 8
  let now ← if flags then pure true else dynamicFlag table flags1 1
  ensure (now || (table.get 24).isSome) "BIND_NOW is required"
  let text ← if (table.get 22).isSome then pure true else dynamicFlag table 30 4
  ensure (!text) "text relocations are forbidden"
  ensure ((table.get 15).isNone && (table.get 29).isNone) "unexpected RPATH/RUNPATH"

/-- A number that is printed into a JSON text and parsed again. -/
def reparsed (d : Double) : Double :=
  match d.toToken with
  | some token => token.toDouble
  | none => .nan

def ProgramHeader.reparsed (header : ProgramHeader) : ProgramHeader where
  type := header.type
  offset := Android.reparsed header.offset
  virtualAddress := Android.reparsed header.virtualAddress
  fileSize := Android.reparsed header.fileSize
  memSize := Android.reparsed header.memSize
  alignment := Android.reparsed header.alignment
  flags := Android.reparsed header.flags

def Section.reparsed (s : Section) : Section where
  name := s.name
  address := Android.reparsed s.address
  size := Android.reparsed s.size
  flags := Android.reparsed s.flags

def Elf.reparsed (elf : Elf) : Elf :=
  { elf with
    programHeaders := elf.programHeaders.map fun headers => headers.map ProgramHeader.reparsed
    sections := elf.sections.map fun sections => sections.map Section.reparsed }

/-- `table` is what `readDynamic` has stored beside the metadata. -/
def validateLayout (elf : Elf) (table : Table) (abi : Abi) (contents : List UInt8) :
    Except String Unit := do
  validateIdentity elf abi
  let headers := elf.programHeaders.getD []
  let loads := ofType headers "PT_LOAD"
  match ofType headers "PT_GNU_RELRO" with
  | [relro] => do
    ensure (!loads.isEmpty) "missing LOAD/RELRO"
    checkStack headers
    headers.forM checkHeader
    loads.forM (checkPage abi.page)
    ensure ((Double.natural 0).lt relro.memSize &&
        ((relro.virtualAddress.add relro.memSize).rem (Double.natural abi.page)).isZero)
      "RELRO end is not page aligned"
    let output : Output := some [elf.reparsed]
    validateAndroidProtection output abi.page
    validateAndroidLifetime output contents
    checkDynamic table
  | _ => ensure false "missing LOAD/RELRO"

end RgbLightningNode.Android
