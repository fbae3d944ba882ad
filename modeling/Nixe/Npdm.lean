/-
**Process descriptor metadata.**

The metadata of a program, `main.npdm`, has an access control part (`ACI0`) with what the program
asks for, and a signed descriptor (`ACID`) with what it may have: file system access, services and
kernel capabilities.  The loader rejects the file if `ACI0` asks for more than `ACID` allows.

Offsets in error messages are those of the source, which are relative to the part at hand for some
checks and to the file for others.

Main definitions:

* `parseServices`, `parseKernelCapabilities`, `parseAciFilesystem`, `parseAcidFilesystem` — the
  formats;
* `capabilityAuthorized`, `validateFilesystem`, `validateServices` — the comparison of the two
  parts;
* `parseNpdm` — the loader.
-/

import Nixe.Checked
import Nixe.Parsing

set_option autoImplicit false

namespace Nixe.NpdmLoader

open Outcome (rejectIf orReject orPanic)
open Parsing (slice? leU32 leU64 leWords trailingOnes)

/-- `LoadError::invalid`, for `NPDM`: a component, an offset and a reason. -/
structure LoadError where
  component : String
  offset : ℕ
  reason : String
deriving DecidableEq, Repr

abbrev Result (α : Type) : Type := Outcome LoadError α

def invalidAt (component : String) (offset : ℕ) (reason : String) : LoadError :=
  { component, offset, reason }

/-! ### Reads -/

/-- `start..stop`. -/
structure Range where
  start : ℕ
  stop : ℕ
deriving DecidableEq, Repr

variable (bytes data : List UInt8) (word : UInt32) (range : Range)

/-- `&bytes[range]`. -/
def region : Result (List UInt8) :=
  orPanic (slice? bytes range.start range.stop) "range out of bounds"

/-- `bytes[index]`. -/
def byteAt (index : ℕ) : Result UInt8 :=
  orPanic bytes[index]? "index out of bounds"

def readU32 (offset : ℕ) (component : String) : Result UInt32 := do
  let value ← orReject (slice? bytes offset (offset + 4))
    (invalidAt component offset "u32 field is truncated")
  return leU32 value

def readU64 (offset : ℕ) (component : String) : Result UInt64 := do
  let value ← orReject (slice? bytes offset (offset + 8))
    (invalidAt component offset "u64 field is truncated")
  return leU64 value

def requireZero (start stop : ℕ) (component : String) : Result Unit :=
  rejectIf ((slice? bytes start stop).all fun values => values.any fun value => value != 0)
    (invalidAt component start "reserved bytes are nonzero")

def subregion (base : ℕ) (offset size : UInt32) (minimum : ℕ)
    (component : String) : Result Range := do
  let start ← orReject (checkedAdd base offset.toNat) (invalidAt component base "offset overflows")
  let stop ← orReject (checkedAdd start size.toNat) (invalidAt component start "size overflows")
  rejectIf (size.toNat < minimum) (invalidAt component start "region is smaller than its header")
  rejectIf (stop > bytes.length) (invalidAt component start "region is outside its parent")
  return { start, stop }

def localSubregion (base offsetAt sizeAt minimum : ℕ) (component : String) : Result Range := do
  let offset ← readU32 data offsetAt component
  let size ← readU32 data sizeAt component
  let part ← subregion data 0 offset size minimum component
  return { start := base + part.start, stop := base + part.stop }

def ensureDisjoint (a b : Range) (component : String) : Result Unit :=
  rejectIf (a.start < b.stop && b.start < a.stop)
    (invalidAt component (max a.start b.start) "declared regions overlap")

def Range.isEmpty : Bool := !(range.start < range.stop)

/-- The inner loop of `ensure_subregions_disjoint`. -/
def ensureDisjointFrom (a : Range) (component : String) : List Range → Result Unit
  | [] => return ()
  | b :: ranges => do
      if !a.isEmpty && !b.isEmpty then ensureDisjoint a b component
      ensureDisjointFrom a component ranges

def ensureSubregionsDisjoint (component : String) : List Range → Result Unit
  | [] => return ()
  | a :: ranges => do
      ensureDisjointFrom a component ranges
      ensureSubregionsDisjoint component ranges

/-- `align_up`, for a power of two. -/
def alignUp (value alignment : ℕ) : Option ℕ :=
  (checkedAdd value (alignment - 1)).map fun v => v / alignment * alignment

/-! ### File system access -/

structure FileSystemPermissions where
  raw : UInt64
deriving DecidableEq, Repr

def FileSystemPermissions.contains (self other : FileSystemPermissions) : Bool :=
  self.raw &&& other.raw == other.raw

inductive SaveDataOwnerAccess where
  | read
  | write
  | readWrite
deriving DecidableEq, Repr

structure SaveDataOwnerId where
  id : UInt64
  access : SaveDataOwnerAccess
deriving DecidableEq, Repr

structure FileSystemAccess where
  version : UInt8
  permissions : FileSystemPermissions
  contentOwnerIds : List UInt64
  saveDataOwnerIds : List SaveDataOwnerId
  contentOwnerRange : Option (UInt64 × UInt64)
  saveDataOwnerRange : Option (UInt64 × UInt64)
deriving DecidableEq, Repr

/-- The accessibility of an entry, in the table of an owner list. -/
def ownerAccess (value : UInt8) (offset : ℕ) : Result SaveDataOwnerAccess :=
  match value.toNat with
  | 1 => return .read
  | 2 => return .write
  | 3 => return .readWrite
  | _ => .err (invalidAt "ACI0 FAH" offset "invalid save-data accessibility")

/-- The accessibility table of an owner list, if it has one, and where the ids start. -/
def ownerTables (info : List UInt8) (offset count : ℕ) (hasAccess : Bool) :
    Result (Option (List UInt8) × ℕ) :=
  if hasAccess then do
    let afterAccess ← orReject (checkedAdd 4 count)
      (invalidAt "ACI0 FAH" offset "owner table overflows")
    let idsOffset ← orReject (alignUp afterAccess 4)
      (invalidAt "ACI0 FAH" offset "owner table overflows")
    let accesses ← orReject (slice? info 4 afterAccess)
      (invalidAt "ACI0 FAH" offset "accessibility table is truncated")
    return (some accesses, idsOffset)
  else return (none, 4)

/-- One entry of an owner list. -/
def ownerEntry (ids : List UInt8) (accesses : Option (List UInt8)) (offset index : ℕ) :
    Result (UInt64 × Option SaveDataOwnerAccess) := do
  let id ← region ids { start := index * 8, stop := index * 8 + 8 }
  match accesses with
  | none => return (leU64 id, none)
  | some values => do
      let value ← byteAt values index
      let access ← ownerAccess value (offset + 4 + index)
      return (leU64 id, some access)

def parseOwnerInfo (base offsetAt sizeAt : ℕ) (hasAccess : Bool) :
    Result (List (UInt64 × Option SaveDataOwnerAccess)) := do
  let offset := (← readU32 data offsetAt "ACI0 FAH").toNat
  let size := (← readU32 data sizeAt "ACI0 FAH").toNat
  if size = 0 then return []
  else do
    let stop ← orReject (checkedAdd offset size)
      (invalidAt "ACI0 FAH" (base + offsetAt) "owner range overflows")
    let info ← orReject (slice? data offset stop)
      (invalidAt "ACI0 FAH" (base + offsetAt) "owner range is outside FAH")
    rejectIf (info.length < 4) (invalidAt "ACI0 FAH" (base + offset) "owner table is truncated")
    let count := (leU32 (info.take 4)).toNat
    rejectIf (count > 0x10000)
      (invalidAt "ACI0 FAH" (base + offset) "owner count exceeds safety limit")
    let (accesses, idsOffset) ← ownerTables info (base + offset) count hasAccess
    let idsSize ← orReject (checkedMul count 8)
      (invalidAt "ACI0 FAH" (base + offset) "owner IDs overflow")
    let ids ← orReject (slice? info idsOffset (idsOffset + idsSize))
      (invalidAt "ACI0 FAH" (base + offset) "owner ID table is truncated")
    (List.range count).mapM (ownerEntry ids accesses (base + offset))

def parseAciFilesystem : Result FileSystemAccess := do
  let data ← region bytes range
  let version ← byteAt data 0
  rejectIf (version == 0) (invalidAt "ACI0 FAH" range.start "version must be nonzero")
  requireZero data 1 4 "ACI0 FAH"
  let permissions ← readU64 data 4 "ACI0 FAH"
  let content ← parseOwnerInfo data range.start 0x0c 0x10 false
  let saveRaw ← parseOwnerInfo data range.start 0x14 0x18 true
  let saveDataOwnerIds ← saveRaw.mapM fun (entry : UInt64 × Option SaveDataOwnerAccess) =>
    (return { id := entry.1, access := ← orPanic entry.2 "save entries have access" } :
      Result SaveDataOwnerId)
  return { version, permissions := ⟨permissions⟩, contentOwnerIds := content.map Prod.fst,
           saveDataOwnerIds, contentOwnerRange := none, saveDataOwnerRange := none }

/-- `count` ids, from `cursor` on. -/
def readIds (cursor count : ℕ) : Result (List UInt64) :=
  (List.range count).mapM fun index => readU64 data (cursor + 8 * index) "ACID FAC"

def parseAcidFilesystem : Result FileSystemAccess := do
  let data ← region bytes range
  let version ← byteAt data 0
  rejectIf (version == 0) (invalidAt "ACID FAC" range.start "version must be nonzero")
  let padding ← byteAt data 3
  rejectIf (padding != 0) (invalidAt "ACID FAC" (range.start + 3) "padding is nonzero")
  let contentCount := (← byteAt data 1).toNat
  let saveCount := (← byteAt data 2).toNat
  let tables ← orReject (checkedMul (contentCount + saveCount) 8)
    (invalidAt "ACID FAC" range.start "owner table size overflows")
  let required ← orReject (checkedAdd 0x2c tables)
    (invalidAt "ACID FAC" range.start "owner table size overflows")
  rejectIf (required > data.length)
    (invalidAt "ACID FAC" range.start "owner tables are truncated")
  let contentMin ← readU64 data 0x0c "ACID FAC"
  let contentMax ← readU64 data 0x14 "ACID FAC"
  let saveMin ← readU64 data 0x1c "ACID FAC"
  let saveMax ← readU64 data 0x24 "ACID FAC"
  rejectIf (contentMin > contentMax || saveMin > saveMax)
    (invalidAt "ACID FAC" (range.start + 0x0c) "owner authorization range is reversed")
  let contentOwnerIds ← readIds data 0x2c contentCount
  let saveIds ← readIds data (0x2c + 8 * contentCount) saveCount
  let permissions ← readU64 data 4 "ACID FAC"
  return { version, permissions := ⟨permissions⟩, contentOwnerIds,
           saveDataOwnerIds := saveIds.map fun id => { id, access := .readWrite },
           contentOwnerRange := some (contentMin, contentMax),
           saveDataOwnerRange := some (saveMin, saveMax) }

/-! ### Services -/

inductive ServiceAccessMode where
  | client
  | host
deriving DecidableEq, Repr

structure ServiceAccess where
  name : List UInt8
  mode : ServiceAccessMode
deriving DecidableEq, Repr

abbrev ServiceAccessControl : Type := List ServiceAccess

/-- `b'*'`. -/
def wildcard : UInt8 := 0x2a

/-- A pattern that ends in a wildcard matches what starts like it; any other matches itself. -/
def serviceMatches (pattern name : List UInt8) : Bool :=
  if pattern.getLast? = some wildcard then pattern.dropLast.isPrefixOf name else pattern == name

def ServiceAccessControl.allows (services : ServiceAccessControl) (name : List UInt8)
    (mode : ServiceAccessMode) : Bool :=
  services.any fun entry => entry.mode == mode && serviceMatches entry.name name

/-- The loop of `parse_services`; every turn takes two bytes at least. -/
def parseServicesFrom (data : List UInt8) (base : ℕ) (allowWildcards : Bool) (component : String) :
    ℕ → ℕ → Result ServiceAccessControl
  | 0, cursor => if cursor < data.length then .panic "the loop does not end" else return []
  | fuel + 1, cursor =>
    if cursor < data.length then do
      let control ← byteAt data cursor
      let length := (control &&& 7).toNat + 1
      rejectIf (control &&& 0x78 != 0)
        (invalidAt component (base + cursor) "reserved service control bits are set")
      let stop ← orReject (checkedAdd cursor (1 + length))
        (invalidAt component (base + cursor) "entry length overflows")
      let name ← orReject (slice? data (cursor + 1) stop)
        (invalidAt component (base + cursor) "service entry is truncated")
      rejectIf (name.contains 0)
        (invalidAt component (base + cursor + 1) "service name contains NUL")
      rejectIf (name.contains wildcard && (!allowWildcards || name.getLast? != some wildcard ||
          name.dropLast.contains wildcard))
        (invalidAt component (base + cursor + 1) "invalid service wildcard")
      let mode := if control &&& 0x80 != 0 then .host else .client
      let entries ← parseServicesFrom data base allowWildcards component fuel stop
      return { name, mode } :: entries
    else return []

def parseServices (allowWildcards : Bool) (component : String) : Result ServiceAccessControl := do
  let data ← region bytes range
  parseServicesFrom data range.start allowWildcards component data.length 0

/-! ### Kernel capabilities -/

inductive ProgramType where
  | system
  | application
  | applet
deriving DecidableEq, Repr

inductive KernelMemoryPermission where
  | readWrite
  | readOnly
deriving DecidableEq, Repr

inductive KernelMemoryRegion where
  | io
  | static
deriving DecidableEq, Repr

structure KernelMemoryMapping where
  address : ℕ
  size : ℕ
  permission : KernelMemoryPermission
  region : KernelMemoryRegion
deriving DecidableEq, Repr

structure KernelVersion where
  major : ℕ
  minor : ℕ
deriving DecidableEq, Repr

/-- The derived order: by `major`, then by `minor`. -/
def KernelVersion.atMost (r a : KernelVersion) : Bool :=
  r.major < a.major || (r.major == a.major && r.minor ≤ a.minor)

inductive KernelCapability where
  | threadInfo (lowestPriority highestPriority minCore maxCore : ℕ)
  | systemCalls (index : ℕ) (mask : UInt32)
  | memoryMap (mapping : KernelMemoryMapping)
  | ioMemoryMap (address : ℕ)
  | memoryRegions (regions : Vector (ℕ × Bool) 3)
  | interrupts (numbers : Vector (Option ℕ) 2)
  | programType (type : ProgramType)
  | kernelVersion (version : KernelVersion)
  | handleTableSize (size : ℕ)
  | debugFlags (allowDebug forceDebugProd forceDebug : Bool)
deriving DecidableEq, Repr

abbrev KernelCapabilities : Type := List KernelCapability

/-- The bits of a word from `shift` on, under a mask. -/
def field (shift : UInt32) (mask : UInt32) : ℕ := ((word >>> shift) &&& mask).toNat

def flag (bit : ℕ) : Bool := word.toBitVec.getLsbD bit

/-- What the loop remembers: the descriptors that may come once, by tag, and the indices of the
system call masks. -/
structure Seen where
  singletons : List ℕ := []
  syscallIndices : List ℕ := []

def checkSingleton (seen : Seen) (tag : ℕ) (component : String) (offset : ℕ) : Result Seen := do
  rejectIf (seen.singletons.contains tag)
    (invalidAt component offset "duplicate singleton capability")
  return { seen with singletons := tag :: seen.singletons }

def parseThreadInfo (component : String) (offset : ℕ) : Result KernelCapability := do
  let low := field word 4 0x3f
  let high := field word 10 0x3f
  let minCore := field word 16 0xff
  let maxCore := field word 24 0xff
  rejectIf (high > low || minCore > maxCore)
    (invalidAt component offset "thread priority/core range is reversed")
  return .threadInfo low high minCore maxCore

/-- A memory map is a pair of words. -/
def parseMemoryMap (next : Option UInt32) (component : String) (offset : ℕ) :
    Result KernelCapability := do
  let second ← orReject next (invalidAt component offset "memory-map continuation is missing")
  rejectIf (second == 0xffffffff || trailingOnes second != 6)
    (invalidAt component (offset + 4) "invalid memory-map continuation")
  rejectIf (second &&& 0x78000000 != 0)
    (invalidAt component (offset + 4) "reserved memory-map bits are set")
  let address := field word 7 0x00ffffff * 0x1000
  let size := field second 7 0x000fffff * 0x1000
  rejectIf (size == 0 || (checkedAdd address size).isNone)
    (invalidAt component offset "invalid memory-map range")
  return .memoryMap
    { address, size
      permission := if flag word 31 then .readOnly else .readWrite
      region := if flag second 31 then .static else .io }

def parseMemoryRegions (component : String) (offset : ℕ) : Result KernelCapability := do
  let regions := #v[(field word 11 0x3f, flag word 17), (field word 18 0x3f, flag word 24),
    (field word 25 0x3f, flag word 31)]
  rejectIf (regions.any fun region => region.1 > 3)
    (invalidAt component offset "unknown kernel memory-region type")
  return .memoryRegions regions

def parseProgramType (component : String) (offset : ℕ) : Result KernelCapability := do
  rejectIf (word &&& 0xfff80000 != 0)
    (invalidAt component offset "reserved miscellaneous-parameter bits are set")
  match field word 14 7 with
  | 0 => return .programType .system
  | 1 => return .programType .application
  | 2 => return .programType .applet
  | _ => .err (invalidAt component offset "unknown program type")

def parseHandleTableSize (component : String) (offset : ℕ) : Result KernelCapability := do
  rejectIf (word &&& 0xfc000000 != 0)
    (invalidAt component offset "reserved handle-table bits are set")
  return .handleTableSize (field word 16 0x3ff)

def parseDebugFlags (component : String) (offset : ℕ) : Result KernelCapability := do
  rejectIf (word &&& 0xfff00000 != 0)
    (invalidAt component offset "reserved debug-flag bits are set")
  return .debugFlags (flag word 17) (flag word 18) (flag word 19)

/-- One descriptor, which `trailing_ones` tells apart, with what the loop then remembers. -/
def parseCapability (seen : Seen) (word : UInt32) (next : Option UInt32) (component : String)
    (offset : ℕ) : Result (KernelCapability × Seen) :=
  let once (parse : UInt32 → String → ℕ → Result KernelCapability) :
      Result (KernelCapability × Seen) := do
    let seen ← checkSingleton seen (trailingOnes word) component offset
    let capability ← parse word component offset
    return (capability, seen)
  match trailingOnes word with
  | 3 => once parseThreadInfo
  | 4 => do
      let index := field word 29 7
      rejectIf (seen.syscallIndices.contains index)
        (invalidAt component offset "duplicate syscall-mask index")
      return (.systemCalls index ((word >>> 5) &&& 0x00ffffff),
        { seen with syscallIndices := index :: seen.syscallIndices })
  | 6 => do
      let capability ← parseMemoryMap word next component offset
      return (capability, seen)
  | 7 => return (.ioMemoryMap (field word 8 0x00ffffff * 0x1000), seen)
  | 10 => once parseMemoryRegions
  | 11 => return (.interrupts (#v[field word 12 0x3ff, field word 22 0x3ff].map fun value =>
    if value ≠ 0x3ff then some value else none), seen)
  | 13 => once parseProgramType
  | 14 => once fun word _ _ =>
    return .kernelVersion { minor := field word 15 0xf, major := field word 19 0x1fff }
  | 15 => once parseHandleTableSize
  | 16 => once parseDebugFlags
  | tag => .err (invalidAt component offset
      ("unsupported capability descriptor tag " ++ toString tag))

/-- The loop of `parse_kernel_capabilities`: `cursor` words are behind.  A memory map takes two
words; a word of ones is skipped. -/
def parseCapabilitiesFrom (base : ℕ) (component : String) :
    List UInt32 → ℕ → Seen → Result KernelCapabilities
  | [], _, _ => return []
  | word :: words, cursor, seen =>
    if word = 0xffffffff then parseCapabilitiesFrom base component words (cursor + 1) seen
    else do
      let (capability, seen) ←
        parseCapability seen word words.head? component (base + cursor * 4)
      let entries ← if trailingOnes word = 6 then
          match words with
          | [] => pure []
          | _ :: words => parseCapabilitiesFrom base component words (cursor + 2) seen
        else parseCapabilitiesFrom base component words (cursor + 1) seen
      return capability :: entries

def parseKernelCapabilities (component : String) : Result KernelCapabilities := do
  let data ← region bytes range
  rejectIf (data.length % 4 != 0)
    (invalidAt component range.start "capability stream is not word aligned")
  parseCapabilitiesFrom range.start component (leWords data) 0 {}

/-! ### Authorization -/

/-- Whether one capability covers another. -/
def KernelCapability.covers : KernelCapability → KernelCapability → Bool
  | .threadInfo al ah amin amax, .threadInfo rl rh rmin rmax =>
    rl ≤ al && rh ≥ ah && rmin ≥ amin && rmax ≤ amax
  | .systemCalls ai am, .systemCalls ri rm => ri == ai && rm &&& ~~~am == 0
  | .memoryMap a, .memoryMap r =>
    r.permission == a.permission && r.region == a.region && r.address ≥ a.address &&
      (checkedAdd r.address r.size).any fun stop => stop ≤ a.address + a.size
  | .ioMemoryMap a, .ioMemoryMap r => r == a
  | .memoryRegions a, .memoryRegions r => (r.zip a).all fun x => x.1.1 == 0 || x.1 == x.2
  | .interrupts a, .interrupts r =>
    (r.toList.filterMap id).all fun number => a.contains (some number)
  | .programType a, .programType r => r == a
  | .kernelVersion a, .kernelVersion r => r.atMost a
  | .handleTableSize a, .handleTableSize r => r ≤ a
  | .debugFlags ad ap af, .debugFlags rd rp rf => (!rd || ad) && (!rp || ap) && (!rf || af)
  | _, _ => false

def capabilityAuthorized (requested : KernelCapability) (allowed : KernelCapabilities) : Bool :=
  allowed.any fun candidate => candidate.covers requested

def KernelCapabilities.authorizedBy (capabilities ceiling : KernelCapabilities) : Bool :=
  capabilities.all fun requested => capabilityAuthorized requested ceiling

def ownerAuthorized (id : UInt64) (explicit : List UInt64) (range : Option (UInt64 × UInt64)) :
    Bool :=
  explicit.contains id || range.any fun bounds => id ≥ bounds.1 && id ≤ bounds.2

def validateFilesystem (requested allowed : FileSystemAccess) (offset : ℕ) : Result Unit := do
  rejectIf (!allowed.permissions.contains requested.permissions)
    (invalidAt "ACI0 FAH" offset "requested filesystem permissions exceed ACID authorization")
  rejectIf (requested.contentOwnerIds.any fun id =>
      !ownerAuthorized id allowed.contentOwnerIds allowed.contentOwnerRange)
    (invalidAt "ACI0 FAH" offset "content-owner ID exceeds ACID authorization")
  rejectIf (requested.saveDataOwnerIds.any fun owner =>
      !ownerAuthorized owner.id (allowed.saveDataOwnerIds.map SaveDataOwnerId.id)
        allowed.saveDataOwnerRange)
    (invalidAt "ACI0 FAH" offset "save-data-owner ID exceeds ACID authorization")

def validateServices (requested allowed : ServiceAccessControl) (offset : ℕ) : Result Unit :=
  rejectIf (requested.any fun entry => !allowed.allows entry.name entry.mode)
    (invalidAt "ACI0 SAC" offset "requested service access exceeds ACID authorization")

/-! ### The loader -/

structure Aci0 where
  programId : UInt64
  filesystem : FileSystemAccess
  services : ServiceAccessControl
  kernel : KernelCapabilities

structure Acid where
  signature : List UInt8
  publicKey : List UInt8
  version : UInt8
  unknown209 : UInt8
  flags : UInt32
  programIdMin : UInt64
  programIdMax : UInt64
  filesystem : FileSystemAccess
  services : ServiceAccessControl
  kernel : KernelCapabilities

def metaSize : ℕ := 0x80
def aci0HeaderSize : ℕ := 0x40
def acidHeaderSize : ℕ := 0x240
def maxNpdmSize : ℕ := 16 * 1024 * 1024

def parseAci0 : Result Aci0 := do
  let data ← region bytes range
  rejectIf (slice? data 0 4 != some "ACI0".toUTF8.toList)
    (invalidAt "ACI0" range.start "expected ACI0 magic")
  requireZero data 4 0x10 "ACI0"
  requireZero data 0x18 0x20 "ACI0"
  requireZero data 0x38 0x40 "ACI0"
  let fs ← localSubregion data range.start 0x20 0x24 0x1c "ACI0 FAH"
  let sac ← localSubregion data range.start 0x28 0x2c 0 "ACI0 SAC"
  let kac ← localSubregion data range.start 0x30 0x34 0 "ACI0 KAC"
  ensureSubregionsDisjoint "ACI0" [fs, sac, kac]
  let programId ← readU64 data 0x10 "ACI0"
  let filesystem ← parseAciFilesystem bytes fs
  let services ← parseServices bytes sac false "ACI0 SAC"
  let kernel ← parseKernelCapabilities bytes kac "ACI0 KAC"
  return { programId, filesystem, services, kernel }

def parseAcid : Result Acid := do
  let data ← region bytes range
  rejectIf (slice? data 0x200 0x204 != some "ACID".toUTF8.toList)
    (invalidAt "ACID" (range.start + 0x200) "expected ACID magic")
  requireZero data 0x20a 0x20c "ACID"
  requireZero data 0x238 0x240 "ACID"
  let signedSize := (← readU32 data 0x204 "ACID").toNat
  let signedEnd ← orReject (checkedAdd 0x100 signedSize)
    (invalidAt "ACID" (range.start + 0x204) "signed size overflows")
  rejectIf (signedEnd > data.length || signedEnd < acidHeaderSize)
    (invalidAt "ACID" (range.start + 0x204) "signed region is outside ACID")
  let rawFlags ← readU32 data 0x20c "ACID"
  rejectIf (rawFlags &&& 0xffffff00 != 0)
    (invalidAt "ACID" (range.start + 0x20c) "unknown ACID flag bits")
  rejectIf (field rawFlags 2 0xf > 3)
    (invalidAt "ACID" (range.start + 0x20c) "unknown ACID memory region")
  let min ← readU64 data 0x210 "ACID"
  let max ← readU64 data 0x218 "ACID"
  rejectIf (min > max) (invalidAt "ACID" (range.start + 0x210) "program ID range is reversed")
  let fs ← localSubregion data range.start 0x220 0x224 0x2c "ACID FAC"
  let sac ← localSubregion data range.start 0x228 0x22c 0 "ACID SAC"
  let kac ← localSubregion data range.start 0x230 0x234 0 "ACID KAC"
  ensureSubregionsDisjoint "ACID" [fs, sac, kac]
  let signature ← region data ⟨0, 0x100⟩
  let publicKey ← region data ⟨0x100, 0x200⟩
  let version ← byteAt data 0x208
  let unknown209 ← byteAt data 0x209
  let filesystem ← parseAcidFilesystem bytes fs
  let services ← parseServices bytes sac true "ACID SAC"
  let kernel ← parseKernelCapabilities bytes kac "ACID KAC"
  return { signature, publicKey, version, unknown209, flags := rawFlags, programIdMin := min,
           programIdMax := max, filesystem, services, kernel }

structure EffectiveNpdmPolicy where
  filesystem : FileSystemAccess
  services : ServiceAccessControl
  kernelCapabilities : KernelCapabilities

structure Npdm where
  signatureKeyGeneration : UInt32
  flags : UInt8
  mainThreadPriority : UInt8
  defaultCpuCore : UInt8
  systemResourceSize : UInt32
  version : UInt32
  mainThreadStackSize : UInt32
  name : List UInt8
  productCode : List UInt8
  programId : UInt64
  acidVersion : UInt8
  acidUnknown209 : UInt8
  acidFlags : UInt32
  programIdRange : UInt64 × UInt64
  acidSignature : List UInt8
  acidPublicKey : List UInt8
  requestedFilesystem : FileSystemAccess
  authorizedFilesystem : FileSystemAccess
  requestedServices : ServiceAccessControl
  authorizedServices : ServiceAccessControl
  requestedKernelCapabilities : KernelCapabilities
  authorizedKernelCapabilities : KernelCapabilities
  effective : EffectiveNpdmPolicy

/-- What the header says, with the places of the two parts. -/
structure Meta where
  flags : UInt8
  priority : UInt8
  stackSize : UInt32
  systemResourceSize : UInt32
  aci : Range
  acid : Range

/-- The checks of `parse_npdm` on the header. -/
def parseMeta : Result Meta := do
  rejectIf (bytes.length < metaSize) (invalidAt "META" 0 "header is truncated")
  rejectIf (bytes.length > maxNpdmSize)
    (invalidAt "META" 0 "file exceeds the 16 MiB safety limit")
  rejectIf (slice? bytes 0 4 != some "META".toUTF8.toList)
    (invalidAt "META" 0 "expected META magic")
  requireZero bytes 0x08 0x0c "META"
  requireZero bytes 0x0d 0x0e "META"
  requireZero bytes 0x10 0x14 "META"
  requireZero bytes 0x40 0x70 "META"
  let flags ← byteAt bytes 0x0c
  rejectIf ((flags >>> 1) &&& 7 > 3) (invalidAt "META" 0x0c "unknown process flag bits")
  let priority ← byteAt bytes 0x0e
  rejectIf (priority > 0x3f) (invalidAt "META" 0x0e "main-thread priority exceeds 0x3f")
  let stackSize ← readU32 bytes 0x1c "META"
  rejectIf (stackSize &&& 0xfff != 0)
    (invalidAt "META" 0x1c "main-thread stack size is not page aligned")
  let systemResourceSize ← readU32 bytes 0x14 "META"
  rejectIf (systemResourceSize > 0x1fe00000 || systemResourceSize &&& 0xfff != 0)
    (invalidAt "META" 0x14 "invalid system-resource size")
  let aciOffset ← readU32 bytes 0x70 "META"
  let aciSize ← readU32 bytes 0x74 "META"
  let aci ← subregion bytes 0 aciOffset aciSize aci0HeaderSize "ACI0"
  let acidOffset ← readU32 bytes 0x78 "META"
  let acidSize ← readU32 bytes 0x7c "META"
  let acid ← subregion bytes 0 acidOffset acidSize acidHeaderSize "ACID"
  ensureDisjoint aci acid "META"
  return { flags, priority, stackSize, systemResourceSize, aci, acid }

/-- The checks of `parse_npdm` on the two parts; `offset` is where `ACI0` starts. -/
def authorize (aci : Aci0) (acid : Acid) (offset : ℕ) : Result Unit := do
  rejectIf (aci.programId < acid.programIdMin || aci.programId > acid.programIdMax)
    (invalidAt "ACI0" (offset + 0x10) "program ID is outside the ACID authorization range")
  validateFilesystem aci.filesystem acid.filesystem offset
  validateServices aci.services acid.services offset
  rejectIf (!KernelCapabilities.authorizedBy aci.kernel acid.kernel)
    (invalidAt "ACI0 KAC" offset "requested kernel capabilities exceed ACID authorization")

def parseNpdm : Result Npdm := do
  let header ← parseMeta bytes
  let aci ← parseAci0 bytes header.aci
  let acid ← parseAcid bytes header.acid
  authorize aci acid header.aci.start
  let name ← region bytes ⟨0x20, 0x30⟩
  let productCode ← region bytes ⟨0x30, 0x40⟩
  let signatureKeyGeneration ← readU32 bytes 4 "META"
  let defaultCpuCore ← byteAt bytes 0x0f
  let version ← readU32 bytes 0x18 "META"
  return {
    signatureKeyGeneration
    flags := header.flags
    mainThreadPriority := header.priority
    defaultCpuCore
    systemResourceSize := header.systemResourceSize
    version
    mainThreadStackSize := header.stackSize
    name
    productCode
    programId := aci.programId
    acidVersion := acid.version
    acidUnknown209 := acid.unknown209
    acidFlags := acid.flags
    programIdRange := (acid.programIdMin, acid.programIdMax)
    acidSignature := acid.signature
    acidPublicKey := acid.publicKey
    requestedFilesystem := aci.filesystem
    authorizedFilesystem := acid.filesystem
    requestedServices := aci.services
    authorizedServices := acid.services
    requestedKernelCapabilities := aci.kernel
    authorizedKernelCapabilities := acid.kernel
    effective :=
      { filesystem := aci.filesystem
        services := aci.services
        kernelCapabilities := aci.kernel } }

end Nixe.NpdmLoader
