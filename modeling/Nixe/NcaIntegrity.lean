/-
**Integrity of the sections of an NCA.**

A section of an NCA carries hashes of its own content.  In a PFS0 section a table of block hashes
covers the data, and the header has the hash of the table; in a RomFS section up to six levels of
hashes (IVFC) lead from the header to the data.  The header gives the layout, which
`parse_integrity_layout` checks, and `validate` compares every block with its hash.

The hash function is a parameter.  A validation keeps a log of the hashes that it looks up and of
the byte strings that it hashes; the log is read by the theorems only.

Main definitions:

* `parseIntegrityLayout` — the layout that a header describes;
* `validateHashLayer`, `validate` — the comparison;
* `IntegrityLayout.payload?` — where the data of the section is.
-/

import Nixe.CallLog
import Nixe.Checked
import Nixe.LoaderStorage

set_option autoImplicit false

namespace Nixe.NcaIntegrity

open Call (okOr expect ofOutcome emit)
open Loader (LoadError)
open Outcome (rejectIf orReject orPanic)
open Parsing (slice? leNat)

/-- `LoadError::invalid("NCA", reason)`. -/
def ncaError (reason : String) : LoadError := .invalid "NCA" reason

/-! ### Layouts -/

/-- What a section holds. -/
inductive NcaSectionType where
  | pfs0
  | romFs
  | bktr
  | unknown (partitionType fileSystemType : UInt8)
deriving DecidableEq, Repr

/-- A table of block hashes, covered by the hash in the header. -/
structure Sha256Layout where
  masterHash : List UInt8
  hashTableOffset : ℕ
  hashTableSize : ℕ
  dataOffset : ℕ
  dataSize : ℕ
  blockSize : ℕ
deriving DecidableEq, Repr

/-- One level of hashes, or the data below them. -/
structure IvfcLevel where
  offset : ℕ
  size : ℕ
  blockSize : ℕ
deriving DecidableEq, Repr

/-- Levels of hashes, of which the first is covered by the hashes in the header. -/
structure IvfcLayout where
  masterHashes : List (List UInt8)
  levels : List IvfcLevel
deriving DecidableEq, Repr

/-- The integrity data that a section advertises. -/
inductive IntegrityLayout where
  | none
  | hierarchicalSha256 (layout : Sha256Layout)
  | ivfc (layout : IvfcLayout)
  | bktr (layout : IvfcLayout)
deriving DecidableEq, Repr

/-- The bounds of the payload, in a section with a layout of hashes (`payload_storage`). -/
def IntegrityLayout.payload? : IntegrityLayout → Option (ℕ × ℕ)
  | .hierarchicalSha256 layout => some (layout.dataOffset, layout.dataSize)
  | .ivfc layout => layout.levels.getLast?.map fun level => (level.offset, level.size)
  | .none => Option.none
  | .bktr _ => Option.none

/-! ### Headers -/

/-- `FS_HEADER_SIZE`. -/
abbrev FsHeader := Vector UInt8 0x200

def maxIntegrityBlockSize : ℕ := 64 * 1024 * 1024

variable (fsHeader : FsHeader)

/-- `fs_header[offset..offset + size]`. -/
def field (offset size : ℕ) : List UInt8 :=
  (fsHeader.toList.drop offset).take size

def readU32 (offset : ℕ) : ℕ := leNat (field fsHeader offset 4)

def readU64 (offset : ℕ) : ℕ := leNat (field fsHeader offset 8)

/-- `n.is_power_of_two()`. -/
def isPowerOfTwo (n : ℕ) : Bool := n != 0 && n &&& (n - 1) == 0

def validateBlockSize (blockSize : ℕ) : Outcome LoadError Unit :=
  rejectIf (!(0x20 ≤ blockSize && blockSize ≤ maxIntegrityBlockSize) || !isPowerOfTwo blockSize)
    (ncaError ("invalid integrity block size 0x" ++ String.ofList (Nat.toDigits 16 blockSize)))

def validateSubrange (offset size containerSize : ℕ) (name : String) : Outcome LoadError Unit := do
  let stop ← orReject (checkedAdd offset size) (ncaError (name ++ " range overflows"))
  rejectIf (stop > containerSize) (ncaError (name ++ " range points outside its section"))

def parseSha256Layout (sectionSize : ℕ) : Outcome LoadError Sha256Layout := do
  let masterHash := field fsHeader 0x08 0x20
  let blockSize := readU32 fsHeader 0x28
  let hashTableOffset := readU64 fsHeader 0x30
  let hashTableSize := readU64 fsHeader 0x38
  let dataOffset := readU64 fsHeader 0x40
  let dataSize := readU64 fsHeader 0x48
  validateBlockSize blockSize
  validateSubrange hashTableOffset hashTableSize sectionSize "hash table"
  validateSubrange dataOffset dataSize sectionSize "PFS0 data"
  let requiredHashes ← orReject (checkedMul (divCeil dataSize blockSize) 0x20)
    (ncaError "PFS0 hash table size overflows")
  rejectIf (requiredHashes > hashTableSize) (ncaError "PFS0 hash table is too small for its data")
  return { masterHash, hashTableOffset, hashTableSize, dataOffset, dataSize, blockSize }

/-- One turn of the loop over the levels of the header. -/
def parseIvfcLevel (sectionSize index : ℕ) : Outcome LoadError IvfcLevel := do
  let start := 0x18 + index * 0x18
  let offset := readU64 fsHeader start
  let size := readU64 fsHeader (start + 8)
  let exponent := readU32 fsHeader (start + 0x10)
  let blockSize ← orReject (checkedShlOne exponent) (ncaError "IVFC block size exponent is invalid")
  validateBlockSize blockSize
  validateSubrange offset size sectionSize "IVFC level"
  return { offset, size, blockSize }

/-- The loop over the levels of the header: `count` of them, from `index` on. -/
def parseIvfcLevels (fsHeader : FsHeader) (sectionSize : ℕ) :
    ℕ → ℕ → Outcome LoadError (List IvfcLevel)
  | 0, _ => .ok []
  | count + 1, index => do
      let level ← parseIvfcLevel fsHeader sectionSize index
      let levels ← parseIvfcLevels fsHeader sectionSize count (index + 1)
      return level :: levels

/-- The loop that compares each level with the level above it; `index` is the number of the level
above. -/
def checkHashTables : ℕ → List IvfcLevel → Outcome LoadError Unit
  | index, above :: level :: levels => do
      let required ← orReject (checkedMul (divCeil level.size level.blockSize) 0x20)
        (ncaError "IVFC hash count overflows")
      rejectIf (required > above.size)
        (ncaError ("IVFC level " ++ toString index ++ " hash table is truncated"))
      checkHashTables (index + 1) (level :: levels)
  | _, _ => .ok ()

/-- `bytes.chunks_exact(0x20)`, for `count` chunks. -/
def hashChunks : ℕ → List UInt8 → List (List UInt8)
  | 0, _ => []
  | count + 1, bytes => bytes.take 0x20 :: hashChunks count (bytes.drop 0x20)

def parseIvfcLayout (sectionSize : ℕ) : Outcome LoadError IvfcLayout := do
  rejectIf (field fsHeader 0x08 4 != [0x49, 0x56, 0x46, 0x43])
    (ncaError "RomFS IVFC magic is invalid")
  let masterHashSize := readU32 fsHeader 0x10
  let levelCountWithMaster := readU32 fsHeader 0x14
  rejectIf (!(2 ≤ levelCountWithMaster && levelCountWithMaster ≤ 7))
    (ncaError ("unsupported IVFC level count " ++ toString levelCountWithMaster))
  let levelCount := levelCountWithMaster - 1
  rejectIf (masterHashSize == 0 || masterHashSize > 0x20 || masterHashSize % 0x20 != 0)
    (ncaError "IVFC master hash table has an invalid size")
  let levels ← parseIvfcLevels fsHeader sectionSize levelCount 0
  let masterHashCount := masterHashSize / 0x20
  -- `levels[0]`: there is at least one level
  let first ← orPanic levels.head? "index out of bounds"
  rejectIf (divCeil first.size first.blockSize > masterHashCount)
    (ncaError "IVFC master hash table is too small for level zero")
  checkHashTables 0 levels
  return { masterHashes := hashChunks masterHashCount (field fsHeader 0xC8 masterHashSize), levels }

def parseIvfcLayoutUnbounded : Outcome LoadError IvfcLayout :=
  parseIvfcLayout fsHeader u64Max

def parseIntegrityLayout (sectionType : NcaSectionType) (fsHeader : FsHeader) (sectionSize : ℕ) :
    Outcome LoadError IntegrityLayout := do
  match sectionType with
  | .pfs0 => return .hierarchicalSha256 (← parseSha256Layout fsHeader sectionSize)
  | .romFs => return .ivfc (← parseIvfcLayout fsHeader sectionSize)
  | .bktr => return .bktr (← parseIvfcLayoutUnbounded fsHeader)
  | .unknown _ _ => return .none

/-! ### Reports -/

inductive IntegrityCheckKind where
  | fsHeader
  | hierarchicalSha256Master
  | hierarchicalSha256Data
  | ivfcLevel (index : ℕ)
  | bktrVirtualImage
deriving DecidableEq, Repr

inductive IntegrityStatus where
  | valid
  | invalid
  | unchecked
deriving DecidableEq, Repr

structure IntegrityCheck where
  kind : IntegrityCheckKind
  status : IntegrityStatus
deriving DecidableEq, Repr

structure IntegrityReport where
  sectionIndex : ℕ
  checks : List IntegrityCheck
deriving DecidableEq, Repr

/-- Every check was performed and passed. -/
def IntegrityReport.isValid (report : IntegrityReport) : Bool :=
  !report.checks.isEmpty && report.checks.all fun check => check.status == .valid

def status (valid : Bool) : IntegrityStatus := if valid then .valid else .invalid

/-! ### Validation -/

/-- What a validation did: looking up a hash of the header, reading the hash of a block of a layer
in the section, and hashing a byte string. -/
inductive Event where
  | masterHash (index : ℕ)
  | storedHash (layer offset : ℕ)
  | hashed (input : List UInt8)
deriving DecidableEq, Repr

/-- A part of a validation. -/
abbrev Validation := Call (List Event) LoadError

/-- Where the hashes of the blocks of a layer are. -/
inductive ExpectedHashes where
  | inline (hashes : List (List UInt8))
  | storage (offset : ℕ)
deriving DecidableEq, Repr

/-- `storage.read_at(offset, buffer)`, for a buffer of `size` bytes. -/
def readAt (storage : List UInt8) (offset size : ℕ) : Outcome LoadError (List UInt8) :=
  orReject (slice? storage offset (offset + size)) (.storage .outOfBounds)

def hashBufferSize : ℕ := 1024 * 1024

/-- The loop that feeds the hash with `size` bytes from `offset` on, of which `consumed` are done.
It makes at most as many turns as there are bytes. -/
def readChunks (storage : List UInt8) (offset size : ℕ) : ℕ → ℕ → Outcome LoadError (List UInt8)
  | 0, consumed => if consumed < size then .panic "out of turns" else .ok []
  | turns + 1, consumed =>
    if consumed < size then do
      let chunkSize := min (size - consumed) hashBufferSize
      let position ← orReject (checkedAdd offset consumed) (ncaError "hash read offset overflows")
      let chunk ← readAt storage position chunkSize
      let rest ← readChunks storage offset size turns (consumed + chunkSize)
      return chunk ++ rest
    else .ok []

/-- The bytes that are hashed: `size` bytes from `offset` on, and zeros up to the padded size. -/
def paddedRange (storage : List UInt8) (offset size : ℕ) (paddedSize : Option ℕ) :
    Outcome LoadError (List UInt8) := do
  let bytes ← readChunks storage offset size size 0
  match paddedSize with
  | none => return bytes
  | some padded =>
    rejectIf (padded < size) (ncaError "integrity padded size is smaller than its data")
    return bytes ++ List.replicate (padded - size) 0

section Hash

variable (sha256 : List UInt8 → Vector UInt8 32)

variable (storage : List UInt8)

def hashPaddedRange (offset size : ℕ) (paddedSize : Option ℕ) : Validation (List UInt8) := do
  let input ← ofOutcome (paddedRange storage offset size paddedSize)
  emit (.hashed input)
  return (sha256 input).toList

def hashRange (offset size : ℕ) : Validation (List UInt8) :=
  hashPaddedRange sha256 storage offset size none

/-- The hash that block `blockIndex` of layer `layer` should have. -/
def expectedHash (layer : ℕ) (expectedHashes : ExpectedHashes)
    (blockIndex : ℕ) : Validation (List UInt8) :=
  match expectedHashes with
  | .inline hashes => do
      emit (.masterHash blockIndex)
      okOr hashes[blockIndex]? (ncaError "master hash table is truncated")
  | .storage offset => do
      let relative ← okOr (checkedMul blockIndex 0x20) (ncaError "hash offset overflows")
      let hashOffset ← okOr (checkedAdd offset relative) (ncaError "hash offset overflows")
      emit (.storedHash layer hashOffset)
      ofOutcome (readAt storage hashOffset 0x20)

/-- The loop over the blocks of a layer, of which `left` are left, from `blockIndex` on. -/
def validateBlocks (storage : List UInt8) (layer dataOffset dataSize blockSize : ℕ)
    (padLastBlock : Bool) (expectedHashes : ExpectedHashes) : ℕ → ℕ → Validation Bool
  | 0, _ => return true
  | left + 1, blockIndex => do
      let relativeOffset ← okOr (checkedMul blockIndex blockSize)
        (ncaError "integrity block offset overflows")
      let offset ← okOr (checkedAdd dataOffset relativeOffset)
        (ncaError "integrity data offset overflows")
      let remaining := dataSize - relativeOffset
      let readSize := min remaining blockSize
      let actual ← hashPaddedRange sha256 storage offset readSize
        (if padLastBlock then some blockSize else none)
      let expected ← expectedHash storage layer expectedHashes blockIndex
      if actual ≠ expected then return false
      else
        validateBlocks storage layer dataOffset dataSize blockSize padLastBlock expectedHashes
          left (blockIndex + 1)

/-- All blocks of a layer have the hashes that they should have.  The number of the layer is for
the log. -/
def validateHashLayer (layer dataOffset dataSize blockSize : ℕ)
    (padLastBlock : Bool) (expectedHashes : ExpectedHashes) : Validation Bool :=
  validateBlocks sha256 storage layer dataOffset dataSize blockSize padLastBlock expectedHashes
    (divCeil dataSize blockSize) 0

/-- The loop over the levels of an IVFC layout, from level `index` on. -/
def validateLevels (storage : List UInt8) :
    ℕ → ExpectedHashes → List IvfcLevel → Validation (List IntegrityCheck)
  | _, _, [] => return []
  | index, expected, level :: levels => do
      let valid ← validateHashLayer sha256 storage index level.offset level.size level.blockSize
        true expected
      let kind ← expect (if index ≤ 255 then some (IntegrityCheckKind.ivfcLevel index) else none)
        "IVFC has at most six levels"
      let checks ← validateLevels storage (index + 1) (.storage level.offset) levels
      return { kind, status := status valid } :: checks

/-- The checks of a layout.  The hash table of a PFS0 section is layer 0 and its data layer 1. -/
def validateLayout : IntegrityLayout → Validation (List IntegrityCheck)
  | .none => return []
  | .bktr _ => return [{ kind := .bktrVirtualImage, status := .unchecked }]
  | .hierarchicalSha256 layout => do
      let actualMaster ← hashRange sha256 storage layout.hashTableOffset layout.hashTableSize
      let valid ← validateHashLayer sha256 storage 1 layout.dataOffset layout.dataSize
        layout.blockSize false (.storage layout.hashTableOffset)
      return [
        { kind := .hierarchicalSha256Master, status := status (actualMaster == layout.masterHash) },
        { kind := .hierarchicalSha256Data, status := status valid }]
  | .ivfc layout => validateLevels sha256 storage 0 (.inline layout.masterHashes) layout.levels

def validate (sectionIndex : ℕ) (headerHashValid : Bool) (storage : List UInt8)
    (layout : IntegrityLayout) : Validation IntegrityReport := do
  let checks ← validateLayout sha256 storage layout
  return {
    sectionIndex
    checks := { kind := .fsHeader, status := status headerHashValid } :: checks }

end Hash

end Nixe.NcaIntegrity
