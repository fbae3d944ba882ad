/-
**Compressed NCAs.**

An NCZ is an NCA whose content after the first `0x4000` bytes is compressed, with the sections of
the NCA that are encrypted stored as plaintext.  It is either one Zstandard stream (*solid*) or a
table of blocks, each of them a stream or, if it has the size of the plaintext, raw.  The loader
gives out the original NCA as a storage: the content is decompressed when it is asked for, block by
block or forward from where the stream stands, the sections are encrypted again, and the result is
kept in a temporary file.

Zstandard and AES are parameters: a function from the compressed bytes to what a decoder gives, and
one from a key and a block to a block.  The file system is assumed to work.

Main definitions:

* `applyCtrAt` — AES in counter mode, at a position of the NCA;
* `parseNcz` — the loader;
* `reconstructSections` — encryption of decompressed bytes;
* `readAt` — reads, with what they leave in the cache.
-/

import Nixe.Checked
import Nixe.CallLog
import Nixe.FileImage
import Nixe.LoaderStorage

set_option autoImplicit false

namespace Nixe.Ncz

open FileImage (writeAt)
open Loader (LoadError StorageError)
open Outcome (rejectIf orReject orPanic)
open Parsing (slice? leNat)
open Call

/-! ### AES in counter mode -/

def aesBlockSize : ℕ := 0x10

/-- `value.to_be_bytes()` for `u64`. -/
def beBytes (value : ℕ) : List UInt8 :=
  (List.range 8).map fun i => UInt8.ofNat (value / 256 ^ (7 - i))

/-- The block that is encrypted for the keystream. -/
def counterBlock (counterPrefix : List UInt8) (blockNumber : ℕ) : List UInt8 :=
  counterPrefix ++ beBytes blockNumber

/-- `data.iter_mut().zip(key)` with `^=`: bytes without a partner stay. -/
def xorBytes (data keyBytes : List UInt8) : List UInt8 :=
  data.mapIdx fun i byte => byte ^^^ keyBytes.getD i 0

section Aes

variable (aes : List UInt8 → List UInt8 → Vector UInt8 16)

/-- The blocks of one batch, of which there are at most `turns`. -/
def xorBlocks (key counterPrefix : List UInt8) : ℕ → ℕ → List UInt8 → List UInt8
  | 0, _, batch => batch
  | turns + 1, blockNumber, batch =>
    xorBytes (batch.take aesBlockSize) (aes key (counterBlock counterPrefix blockNumber)).toList ++
      xorBlocks key counterPrefix turns (blockNumber + 1) (batch.drop aesBlockSize)

/-- The batches of eight blocks, of which there are at most `turns`. -/
def xorBatches (key counterPrefix : List UInt8) : ℕ → ℕ → List UInt8 → List UInt8
  | 0, _, data => data
  | turns + 1, blockNumber, data =>
    let batch := data.take (8 * aesBlockSize)
    xorBlocks aes key counterPrefix 8 blockNumber batch ++
      xorBatches key counterPrefix turns (blockNumber + divCeil batch.length aesBlockSize)
        (data.drop (8 * aesBlockSize))

def applyCtrBlocks (key counterPrefix : List UInt8) (blockNumber : ℕ) (data : List UInt8) :
    List UInt8 :=
  xorBatches aes key counterPrefix data.length blockNumber data

def applyCtrAt (key counterPrefix : List UInt8) (absoluteOffset : ℕ) (data : List UInt8) :
    List UInt8 :=
  let within := absoluteOffset % aesBlockSize
  let blockNumber := absoluteOffset / aesBlockSize
  if within ≠ 0 then
    let count := min (aesBlockSize - within) data.length
    let block := aes key (counterBlock counterPrefix blockNumber)
    xorBytes (data.take count) (block.toList.drop within) ++
      applyCtrBlocks aes key counterPrefix (blockNumber + 1) (data.drop count)
  else applyCtrBlocks aes key counterPrefix blockNumber data

end Aes

/-! ### Sections -/

/-- `PREFIX_SIZE`: what is stored as it is. -/
@[irreducible] def prefixSize : ℕ := 0x4000

/-- How one section of the NCA is rebuilt. -/
structure NczSection where
  offset : ℕ
  size : ℕ
  cryptoType : ℕ
  cryptoKey : List UInt8
  cryptoCounter : List UInt8
deriving DecidableEq, Repr

def NczSection.isAesCtr (sec : NczSection) : Bool := sec.cryptoType == 3 || sec.cryptoType == 4

/-- The position is in the section. -/
def NczSection.contains (sec : NczSection) (position : ℕ) : Bool :=
  position ≥ sec.offset && position < sec.offset + sec.size

def invalidData (reason : String) : StorageError := .invalidData reason

section Aes

variable (aes : List UInt8 → List UInt8 → Vector UInt8 16)

/-- The loop over the sections that the bytes lie in.  `data` is what is left, from `position` on;
each turn does at least one byte. -/
def reconstructFrom (sections : List NczSection) :
    ℕ → ℕ → List UInt8 → Outcome StorageError (List UInt8)
  | _, _, [] => .ok []
  | 0, _, _ :: _ => .panic "out of turns"
  | turns + 1, position, byte :: bytes => do
      let data := byte :: bytes
      let sec ← orReject (sections.find? fun sec => sec.contains position)
        (invalidData "decompressed bytes are outside NCZ sections")
      let partLength := min (position + data.length) (sec.offset + sec.size) - position
      let part := data.take partLength
      let encrypted :=
        if sec.isAesCtr then applyCtrAt aes sec.cryptoKey (sec.cryptoCounter.take 8) position part
        else part
      let rest ← reconstructFrom sections turns (position + partLength) (data.drop partLength)
      return encrypted ++ rest

def reconstructSections (sections : List NczSection) (offset : ℕ) (data : List UInt8) :
    Outcome StorageError (List UInt8) := do
  let _ ← orReject (checkedAdd offset data.length) .outOfBounds
  reconstructFrom aes sections data.length offset data

end Aes

/-! ### Parsing -/

def sectionHeaderSize : ℕ := 0x10

def sectionSize : ℕ := 0x40

def blockHeaderSize : ℕ := 0x18

def maxSectionCount : ℕ := 65536

def maxBlockCount : ℕ := 4 * 1024 * 1024

def maxMetadataSize : ℕ := 64 * 1024 * 1024

/-- `LoadError::invalid("NCZ", reason)`. -/
def nczError (reason : String) : LoadError := .invalid "NCZ" reason

variable (bytes storage : List UInt8)

def readMetadata (offset size : ℕ) (what : String) : Outcome LoadError (List UInt8) :=
  orReject (slice? storage offset (offset + size)) (nczError (what ++ " is truncated"))

/-- `bytes[offset..offset + size]`, for constant bounds in a record that has been read whole. -/
def field (offset size : ℕ) : List UInt8 := (bytes.drop offset).take size

def readU32 (offset : ℕ) : ℕ := leNat (field bytes offset 4)

def readU64 (offset : ℕ) : ℕ := leNat (field bytes offset 8)

/-- `b"NCZSECTN"`. -/
def sectionMagic : List UInt8 := [0x4E, 0x43, 0x5A, 0x53, 0x45, 0x43, 0x54, 0x4E]

/-- `b"NCZBLOCK"`. -/
def blockMagic : List UInt8 := [0x4E, 0x43, 0x5A, 0x42, 0x4C, 0x4F, 0x43, 0x4B]

/-- One record of the section table, with the end of its section. -/
def parseSection (table : List UInt8) (index : ℕ) (expectedOffset : Option ℕ) :
    Outcome LoadError (NczSection × ℕ) := do
  let bytes := field table (index * sectionSize) sectionSize
  let offset := readU64 bytes 0
  let size := readU64 bytes 8
  let cryptoType := readU64 bytes 16
  let padding := readU64 bytes 24
  rejectIf (padding != 0) (nczError ("section " ++ toString index ++ " has non-zero padding"))
  let invalidOffset := match expectedOffset with
    | none => decide (offset < prefixSize)
    | some expected => offset != expected
  rejectIf (size == 0 || invalidOffset)
    (nczError ("section " ++ toString index ++ " is empty, overlapping, or leaves a gap"))
  rejectIf (!(cryptoType == 1 || cryptoType == 3 || cryptoType == 4))
    (nczError ("section " ++ toString index ++ " uses unsupported crypto type " ++
      toString cryptoType))
  let stop ← orReject (checkedAdd offset size) (nczError "logical NCA size overflows")
  return ({ offset, size, cryptoType, cryptoKey := field bytes 32 16
            cryptoCounter := field bytes 48 16 }, stop)

/-- The loop over the section table: `count` records from `index` on, with the end of the last
section. -/
def parseSections (table : List UInt8) :
    ℕ → ℕ → Option ℕ → Outcome LoadError (List NczSection × Option ℕ)
  | 0, _, expectedOffset => .ok ([], expectedOffset)
  | count + 1, index, expectedOffset => do
      let (sec, stop) ← parseSection table index expectedOffset
      let (sections, last) ← parseSections table count (index + 1) (some stop)
      return (sec :: sections, last)

/-- The sections, and the bytes between the prefix and the first of them. -/
def reconstructionSections (sections : List NczSection) (first : NczSection) : List NczSection :=
  if first.offset > prefixSize then
    { offset := prefixSize
      size := first.offset - prefixSize
      cryptoType := 1
      cryptoKey := List.replicate 16 0
      cryptoCounter := List.replicate 16 0 } :: sections
  else sections

/-- `NCZBLOCK`: where the blocks are. -/
structure BlockLayout where
  blockSize : ℕ
  decompressedSize : ℕ
  compressedSizes : List ℕ
  compressedOffsets : List ℕ
deriving DecidableEq, Repr

/-- The size of the plaintext of a block. -/
def BlockLayout.expectedSize (layout : BlockLayout) (index : ℕ) : ℕ :=
  min layout.blockSize (layout.decompressedSize - index * layout.blockSize)

/-- The loop over the block table: `count` entries from `index` on, with the sizes and the offsets
of the blocks and the end of the last one. -/
def parseBlockTable (table : List UInt8) (blockSize decompressedSize sourceLength : ℕ) :
    ℕ → ℕ → ℕ → Outcome LoadError (List ℕ × List ℕ × ℕ)
  | 0, _, sourceOffset => .ok ([], [], sourceOffset)
  | count + 1, index, sourceOffset => do
      let expected := min blockSize (decompressedSize - index * blockSize)
      let size := readU32 table (index * 4)
      rejectIf (size == 0 || size > expected)
        (nczError ("compressed size for block " ++ toString index ++ " is invalid"))
      let next ← orReject (checkedAdd sourceOffset size)
        (nczError "compressed block offsets overflow")
      rejectIf (next > sourceLength) (nczError "compressed block is truncated")
      let (sizes, offsets, last) ←
        parseBlockTable table blockSize decompressedSize sourceLength count (index + 1) next
      return (size :: sizes, sourceOffset :: offsets, last)

def parseBlockLayout (metadataEnd logicalTailSize : ℕ) : Outcome LoadError BlockLayout := do
  let header ← readMetadata storage metadataEnd blockHeaderSize "block header"
  rejectIf (header.getD 8 0 != 2 || header.getD 9 0 != 1 || header.getD 10 0 != 0)
    (nczError "unsupported NCZBLOCK version, compression type, or reserved field")
  let exponent := (header.getD 11 0).toNat
  rejectIf (!(14 ≤ exponent && exponent ≤ 32)) (nczError "NCZBLOCK exponent is outside 14..=32")
  let blockSize ← orReject (checkedShlOne exponent) (nczError "NCZBLOCK size overflows")
  let blockCount := readU32 header 12
  let decompressedSize := readU64 header 16
  rejectIf (blockCount == 0 || blockCount > maxBlockCount)
    (nczError "NCZBLOCK count is outside the safety limit")
  rejectIf (decompressedSize != logicalTailSize)
    (nczError "NCZBLOCK decompressed size does not match sections")
  rejectIf (blockCount != divCeil decompressedSize blockSize)
    (nczError "NCZBLOCK count does not match decompressed size")
  let tableSize ← orReject (checkedMul blockCount 4) (nczError "NCZBLOCK table size overflows")
  let dataOffset ← orReject ((checkedAdd metadataEnd blockHeaderSize).bind (checkedAdd · tableSize))
    (nczError "NCZBLOCK metadata size overflows")
  rejectIf (dataOffset - prefixSize > maxMetadataSize || dataOffset > storage.length)
    (nczError "NCZBLOCK table is truncated or excessive")
  let table ← readMetadata storage (metadataEnd + blockHeaderSize) tableSize "block table"
  let (compressedSizes, compressedOffsets, last) ←
    parseBlockTable table blockSize decompressedSize storage.length blockCount 0 dataOffset
  rejectIf (last != storage.length) (nczError "trailing data follows NCZ blocks")
  return { blockSize, decompressedSize, compressedSizes, compressedOffsets }

/-! ### The cache -/

/-- What a Zstandard decoder gives for a compressed input: the bytes that it produces, and then
either the end of the frame, with the number of bytes of the input that it consumed, or an error. -/
structure ZstdStream where
  output : List UInt8
  ending : Except String ℕ

/-- A decoder that has given out the first `position` bytes. -/
structure Decoder where
  stream : ZstdStream
  position : ℕ

/-- `decoder.read_exact(output)`, for an output of `count` bytes at `position`. -/
def ZstdStream.readExact (stream : ZstdStream) (position count : ℕ) :
    Outcome String (List UInt8) :=
  if position + count ≤ stream.output.length then
    .ok ((stream.output.drop position).take count)
  else match stream.ending with
    | .error error => .err error
    | .ok _ => .err "failed to fill whole buffer"

/-- `decoder.read(&mut [0; 1])`, at `position`: the number of bytes read, with the number of bytes
of the input that are consumed if it is the end of the frame. -/
def ZstdStream.readExtra (stream : ZstdStream) (position : ℕ) : Outcome String (ℕ × ℕ) :=
  if position < stream.output.length then .ok (1, 0)
  else match stream.ending with
    | .error error => .err error
    | .ok consumed => .ok (0, consumed)

/-- `map_err(|error| invalid_data(format!("{context}: {error}")))`. -/
def inContext {α : Type} (context : String) : Outcome String α → Outcome StorageError α
  | .ok a => .ok a
  | .err error => .err (invalidData (context ++ ": " ++ error))
  | .panic message => .panic message

inductive CacheMode where
  | block (layout : BlockLayout) (valid : List Bool)
  | solid (compressedOffset compressedEnd decompressedEnd : ℕ) (decoder : Option Decoder)

structure CacheState where
  file : Option (List UInt8)
  terminalError : Option String
  mode : CacheMode

/-- The storage of the rebuilt NCA, without the state of its cache. -/
structure NczCachedStorage where
  source : List UInt8
  logicalSize : ℕ
  sections : List NczSection

/-- The metadata of an NCZ, and the storage of the NCA with the initial state of its cache. -/
structure NczArchive where
  sections : List NczSection
  logicalSize : ℕ
  ncaStorage : NczCachedStorage
  state : CacheState

/-- The first bytes of the content, if there are enough of them. -/
def readMagic (metadataEnd : ℕ) : Outcome LoadError (List UInt8) :=
  if storage.length - metadataEnd ≥ 8 then
    readMetadata storage metadataEnd 8 "compression header"
  else .ok []

def parseMode (metadataEnd logicalTailSize : ℕ) : Outcome LoadError CacheMode := do
  let magic ← readMagic storage metadataEnd
  if magic = blockMagic then do
    let layout ← parseBlockLayout storage metadataEnd logicalTailSize
    return .block layout (List.replicate layout.compressedSizes.length false)
  else do
    rejectIf (metadataEnd == storage.length) (nczError "solid Zstandard stream is missing")
    return .solid metadataEnd storage.length 0 none

/-- The section table, with the end of the metadata. -/
def parseSectionTable : Outcome LoadError (List UInt8 × ℕ × ℕ) := do
  rejectIf (storage.length < prefixSize + sectionHeaderSize) (nczError "header is truncated")
  let header ← readMetadata storage prefixSize sectionHeaderSize "section header"
  rejectIf (header.take 8 != sectionMagic) (nczError "expected NCZSECTN magic")
  let sectionCount := readU64 header 8
  rejectIf (sectionCount == 0 || sectionCount > maxSectionCount)
    (nczError "section count is outside the safety limit")
  let sectionsSize ← orReject (checkedMul sectionCount sectionSize)
    (nczError "section table size overflows")
  let metadataEnd ← orReject
    ((checkedAdd prefixSize sectionHeaderSize).bind (checkedAdd · sectionsSize))
    (nczError "section metadata size overflows")
  rejectIf (metadataEnd - prefixSize > maxMetadataSize || metadataEnd > storage.length)
    (nczError "section metadata is truncated or excessive")
  let table ← readMetadata storage (prefixSize + sectionHeaderSize) sectionsSize "section table"
  return (table, sectionCount, metadataEnd)

def parseNcz : Outcome LoadError NczArchive := do
  let (table, sectionCount, metadataEnd) ← parseSectionTable storage
  let (sections, last) ← parseSections table sectionCount 0 none
  let logicalSize ← orPanic last "non-empty section table"
  let first ← orPanic sections.head? "index out of bounds"
  let mode ← parseMode storage metadataEnd (logicalSize - prefixSize)
  return {
    sections
    logicalSize
    ncaStorage :=
      { source := storage, logicalSize, sections := reconstructionSections sections first }
    state := { file := none, terminalError := none, mode } }

/-! ### Filling the cache -/

def solidBufferSize : ℕ := 1024 * 1024

/-- `source.read_at(offset, buffer)`, for a buffer of `size` bytes. -/
def readSource (source : List UInt8) (offset size : ℕ) : Outcome StorageError (List UInt8) :=
  orReject (slice? source offset (offset + size)) .outOfBounds

section Cache

variable (zstd : List UInt8 → ZstdStream) (aes : List UInt8 → List UInt8 → Vector UInt8 16)

variable (storage : NczCachedStorage)

/-- What a decoder gives for the bytes of the source from `start` to `stop`. -/
def NczCachedStorage.streamAt (start stop : ℕ) : ZstdStream :=
  zstd (field storage.source start (stop - start))

/-- Encryption of a chunk and its write to the file, for every kind of content. -/
def storeChunk (sections : List NczSection) (logicalOffset : ℕ) (output : List UInt8) :
    Call (List UInt8) StorageError Unit := do
  let bytes ← ofOutcome (reconstructSections aes sections logicalOffset output)
  update fun file => writeAt 0 file logicalOffset bytes

/-- The loop over the chunks of a block, of which `produced` bytes are done; `fetch` is where the
chunks come from. -/
def fillChunks (sections : List NczSection) (fetch : ℕ → ℕ → Outcome StorageError (List UInt8))
    (logicalOffset size : ℕ) : ℕ → ℕ → Call (List UInt8) StorageError Unit
  | 0, produced => ofOutcome (if produced < size then .panic "out of turns" else .ok ())
  | turns + 1, produced =>
    if produced < size then do
      let count := min (size - produced) solidBufferSize
      let output ← ofOutcome (fetch produced count)
      storeChunk aes sections (logicalOffset + produced) output
      fillChunks sections fetch logicalOffset size turns (produced + count)
    else return ()

def copyRawBlock (sourceOffset logicalOffset size : ℕ) : Call (List UInt8) StorageError Unit :=
  fillChunks aes storage.sections
    (fun produced count => readSource storage.source (sourceOffset + produced) count)
    logicalOffset size size 0

def decodeBlock (sourceOffset compressedSize logicalOffset expectedSize index : ℕ) :
    Call (List UInt8) StorageError Unit := do
  let sourceEnd ← okOr (checkedAdd sourceOffset compressedSize) .outOfBounds
  let stream := storage.streamAt zstd sourceOffset sourceEnd
  fillChunks aes storage.sections
    (fun produced count =>
      inContext ("cannot decode NCZ block " ++ toString index) (stream.readExact produced count))
    logicalOffset expectedSize expectedSize 0
  let (extra, consumed) ← ofOutcome
    (inContext ("cannot finish NCZ block " ++ toString index) (stream.readExtra expectedSize))
  failIf (extra != 0)
    (invalidData ("NCZ block " ++ toString index ++ " produces more data than declared"))
  failIf (sourceOffset + consumed != sourceEnd)
    (invalidData ("NCZ block " ++ toString index ++ " contains trailing data"))

/-- The file, and which blocks are in it. -/
structure BlockCache where
  file : List UInt8
  valid : List Bool

/-- A call on the file. -/
def onFile {α : Type} (c : Call (List UInt8) StorageError α) : Call BlockCache StorageError α :=
  fun cache => ((c cache.file).1, { cache with file := (c cache.file).2 })

variable (layout : BlockLayout)

/-- The content of a block, raw or compressed, is brought into the file. -/
def fillBlock
    (index sourceOffset compressedSize logicalOffset : ℕ) : Call (List UInt8) StorageError Unit :=
  if compressedSize = layout.expectedSize index then
    copyRawBlock aes storage sourceOffset logicalOffset (layout.expectedSize index)
  else
    decodeBlock zstd aes storage sourceOffset compressedSize logicalOffset
      (layout.expectedSize index) index

/-- One turn of the loop over blocks. -/
def ensureBlock (index : ℕ) : Call BlockCache StorageError Unit := do
  let cache ← read
  let cached ← expect cache.valid[index]? "index out of bounds"
  if cached then return ()
  else do
    let blockTailOffset ← okOr (checkedMul index layout.blockSize) .outOfBounds
    let compressedSize ← expect layout.compressedSizes[index]? "index out of bounds"
    let sourceOffset ← expect layout.compressedOffsets[index]? "index out of bounds"
    let logicalOffset ← okOr (checkedAdd prefixSize blockTailOffset) .outOfBounds
    onFile (fillBlock zstd aes storage layout index sourceOffset compressedSize logicalOffset)
    update fun cache => { cache with valid := cache.valid.set index true }

/-- The loop over blocks: `count` of them from `index` on. -/
def ensureBlocksFrom (storage : NczCachedStorage) (layout : BlockLayout) :
    ℕ → ℕ → Call BlockCache StorageError Unit
  | 0, _ => return ()
  | count + 1, index => do
      ensureBlock zstd aes storage layout index
      ensureBlocksFrom storage layout count (index + 1)

/-- `a.checked_sub(b)`. -/
def checkedSub (a b : ℕ) : Option ℕ := if b ≤ a then some (a - b) else none

def ensureBlocks (start stop : ℕ) : Call BlockCache StorageError Unit := do
  let tailStart ← okOr (checkedSub start prefixSize) .outOfBounds
  let tailEnd ← okOr (checkedSub stop prefixSize) .outOfBounds
  let first := tailStart / layout.blockSize
  let last := (tailEnd - 1) / layout.blockSize
  ensureBlocksFrom zstd aes storage layout (last + 1 - first) first

/-- The file, how far the stream is decoded, and the decoder if it is open. -/
structure SolidCache where
  file : List UInt8
  decompressedEnd : ℕ
  decoder : Option Decoder

/-- One turn of the loop of the solid mode, for `wanted` bytes. -/
def decodeSolidChunk (wanted : ℕ) : Call SolidCache StorageError Unit := do
  let cache ← read
  let decoder ← expect cache.decoder "solid decoder initialized"
  let output ← ofOutcome
    (inContext "cannot decode NCZ stream" (decoder.stream.readExact decoder.position wanted))
  update fun cache =>
    { cache with decoder := some { decoder with position := decoder.position + wanted } }
  let logicalOffset ← okOr (checkedAdd prefixSize cache.decompressedEnd) .outOfBounds
  let bytes ← ofOutcome (reconstructSections aes storage.sections logicalOffset output)
  update fun cache => { cache with
    file := writeAt 0 cache.file logicalOffset bytes
    decompressedEnd := cache.decompressedEnd + wanted }

/-- The loop of the solid mode, up to `requestedTailEnd`. -/
def decodeSolid (storage : NczCachedStorage) (requestedTailEnd : ℕ) :
    ℕ → Call SolidCache StorageError Unit
  | 0 => do
      let cache ← read
      ofOutcome (if cache.decompressedEnd < requestedTailEnd then .panic "out of turns" else .ok ())
  | turns + 1 => do
      let cache ← read
      if cache.decompressedEnd < requestedTailEnd then do
        let remaining := storage.logicalSize - prefixSize - cache.decompressedEnd
        let wanted := min (min remaining (requestedTailEnd - cache.decompressedEnd)) solidBufferSize
        decodeSolidChunk aes storage wanted
        decodeSolid storage requestedTailEnd turns
      else return ()

/-- The check at the end of the stream. -/
def finishSolid (compressedOffset compressedEnd : ℕ) : Call SolidCache StorageError Unit := do
  let cache ← read
  let decoder ← expect cache.decoder "solid decoder initialized"
  let (extra, consumed) ← ofOutcome
    (inContext "cannot finish NCZ stream" (decoder.stream.readExtra decoder.position))
  failIf (extra != 0) (invalidData "NCZ stream produces more data than declared")
  update fun cache => { cache with decoder := none }
  failIf (compressedOffset + consumed != compressedEnd)
    (invalidData "trailing data follows the NCZ stream")

/-- `decoder.is_none()`: a decoder at the start of the stream. -/
def openDecoder (compressedOffset compressedEnd : ℕ) : Call SolidCache StorageError Unit :=
  update fun cache =>
    { cache with
      decoder := some (cache.decoder.getD
        { stream := storage.streamAt zstd compressedOffset compressedEnd, position := 0 }) }

def ensureSolid (compressedOffset compressedEnd requestedEnd : ℕ) :
    Call SolidCache StorageError Unit := do
  let cache ← read
  -- the end of the cached bytes, which the caller computes for its log
  let _ ← okOr (checkedAdd prefixSize cache.decompressedEnd) .outOfBounds
  let requestedTailEnd ← okOr (checkedSub requestedEnd prefixSize) .outOfBounds
  if cache.decompressedEnd ≥ requestedTailEnd then return ()
  else do
    openDecoder zstd storage compressedOffset compressedEnd
    decodeSolid aes storage requestedTailEnd requestedTailEnd
    let cache ← read
    if cache.decompressedEnd = storage.logicalSize - prefixSize then
      finishSolid compressedOffset compressedEnd
    else return ()

/-- The bytes from `start` to `stop` of the NCA are in the file, or there is an error. -/
def ensureCached (start stop : ℕ) : Call CacheState StorageError Unit :=
  fun state =>
    let file := state.file.getD []
    match state.mode with
    | .block layout valid =>
      let (outcome, cache) := ensureBlocks zstd aes storage layout start stop { file, valid }
      (outcome, { state with file := some cache.file, mode := .block layout cache.valid })
    | .solid compressedOffset compressedEnd decompressedEnd decoder =>
      let (outcome, cache) := ensureSolid zstd aes storage compressedOffset compressedEnd stop
        { file, decompressedEnd, decoder }
      (outcome, { state with
        file := some cache.file
        mode := .solid compressedOffset compressedEnd cache.decompressedEnd cache.decoder })

/-- An error is remembered, and is the answer to all later reads that need the cache. -/
def ensureOrRemember (start stop : ℕ) : Call CacheState StorageError Unit := fun state =>
  match ensureCached zstd aes storage start stop state with
  | (.err error, state') =>
    (.err (invalidData error.text), { state' with terminalError := some error.text })
  | (.ok u, state') => (.ok u, state')
  | (.panic message, state') => (.panic message, state')

/-- The part of a read that is served from the cache. -/
def readTail (start stop : ℕ) : Call CacheState StorageError (List UInt8) := do
  let state ← read
  failWith (state.terminalError.map invalidData)
  ensureOrRemember zstd aes storage start stop
  let state ← read
  let file ← okOr state.file (invalidData "NCZ cache was not initialized")
  okOr (slice? file start stop) (.io "failed to fill whole buffer")

/-- The part of a read that is served from the source. -/
def readHead (offset stop : ℕ) : Outcome StorageError (List UInt8) :=
  if offset < prefixSize then readSource storage.source offset (min stop prefixSize - offset)
  else .ok []

/-- `read_at(offset, buffer)`, for a buffer of `length` bytes. -/
def readAt (offset length : ℕ) : Call CacheState StorageError (List UInt8) := do
  let stop ← okOr (checkedAdd offset length) .outOfBounds
  failIf (stop > storage.logicalSize) .outOfBounds
  if length = 0 then return []
  else do
    let head ← ofOutcome (readHead storage offset stop)
    if head.length = length then return head
    else do
      let tail ← readTail zstd aes storage (max offset prefixSize) stop
      return head ++ tail

end Cache

end Nixe.Ncz
