/-
**The cache of a compressed NCA.**

The storage of the rebuilt NCA is one image: the prefix as it is stored, and then the decompressed
bytes, each encrypted as its section says.  The cache holds parts of the image — the blocks that
are marked as valid, or the bytes before the point that the stream has reached — and is filled
with further parts when they are asked for.  Where the content does not decompress to what the
metadata declares, which the parser does not check, filling the cache fails.

Main definitions:

* `Content` — how the content is stored;
* `NczCachedStorage.image` — **the rebuilt NCA**;
* `Decodes` — a byte of the content decompresses as the metadata declares;
* `BlocksValid`, `SolidValid` — what the file holds, in the two modes.

Main results:

* `fillChunks_spec` — the loop that fills the file with a block;
* `ensureBlocks_spec`, `ensureSolid_spec` — **what is asked for is in the file, or a byte of it does
  not decode**.
-/

import Nixe.NczSections

set_option autoImplicit false

namespace Nixe.Ncz

open FileImage Option Call
open Loader (StorageError)
open Parsing (slice?)
open List hiding Vector

/-! ### The image -/

/-- How the content is stored: in blocks, or as the stream between two offsets of the source. -/
inductive Content where
  | block (layout : BlockLayout)
  | solid (compressedOffset compressedEnd : ℕ)
deriving DecidableEq

/-- What the cache does not change. -/
def CacheMode.content : CacheMode → Content
  | .block layout _ => .block layout
  | .solid compressedOffset compressedEnd _ _ => .solid compressedOffset compressedEnd

section Image

variable (zstd : List UInt8 → ZstdStream) (aes : List UInt8 → List UInt8 → Vector UInt8 16)

variable (storage : NczCachedStorage)

/-- The compressed bytes of a block, decoded. -/
def NczCachedStorage.blockStream (layout : BlockLayout) (index : ℕ) : ZstdStream :=
  storage.streamAt zstd (layout.compressedOffsets.getD index 0)
    (layout.compressedOffsets.getD index 0 + layout.compressedSizes.getD index 0)

/-- A decompressed byte, by its position behind the prefix. -/
def NczCachedStorage.plainByte : Content → ℕ → UInt8
  | .block layout, position =>
    let index := position / layout.blockSize
    let within := position % layout.blockSize
    if layout.compressedSizes.getD index 0 = layout.expectedSize index then
      storage.source.getD (layout.compressedOffsets.getD index 0 + within) 0
    else (storage.blockStream zstd layout index).output.getD within 0
  | .solid compressedOffset compressedEnd, position =>
    (storage.streamAt zstd compressedOffset compressedEnd).output.getD position 0

/-- **The rebuilt NCA**: the prefix of the source, and the decompressed bytes, encrypted once each
as their sections say. -/
def NczCachedStorage.image (content : Content) (position : ℕ) : UInt8 :=
  if position < prefixSize then storage.source.getD position 0
  else cryptByte aes storage.sections position
    (storage.plainByte zstd content (position - prefixSize))

/-- A block is stored raw, or its stream is one of a block of the expected size, with nothing left
of the input. -/
def BlockDecodes (layout : BlockLayout) (index : ℕ) : Prop :=
  layout.compressedSizes.getD index 0 ≠ layout.expectedSize index →
    (storage.blockStream zstd layout index).output.length = layout.expectedSize index ∧
      (storage.blockStream zstd layout index).ending = .ok (layout.compressedSizes.getD index 0)

/-- The byte at a position behind the prefix can be had: its block decodes, or the stream gets to
it.  The last byte of the NCA is only given out at the end of the stream, with nothing left of the
input. -/
def Decodes : Content → ℕ → Prop
  | .block layout, position => BlockDecodes zstd storage layout (position / layout.blockSize)
  | .solid compressedOffset compressedEnd, position =>
    position < (storage.streamAt zstd compressedOffset compressedEnd).output.length ∧
      (position + 1 = storage.logicalSize - prefixSize →
        (storage.streamAt zstd compressedOffset compressedEnd).output.length = position + 1 ∧
          (storage.streamAt zstd compressedOffset compressedEnd).ending =
            .ok (compressedEnd - compressedOffset))

end Image

/-! ### Chunks -/

variable {fetch : ℕ → ℕ → Outcome StorageError (List UInt8)} {bytes : List UInt8}

section Chunks

variable {zstd : List UInt8 → ZstdStream} {aes : List UInt8 → List UInt8 → Vector UInt8 16}
  {image plain : ℕ → UInt8} {start logicalSize : ℕ} {sections : List NczSection}

theorem take_drop_eq_window {first count : ℕ} (hbound : first + count ≤ bytes.length)
    (himage : ∀ i < count, image (start + i) = bytes.getD (first + i) 0) :
    (bytes.drop first).take count = window image start count := by
  refine eq_window (by rw [length_take, length_drop]; omega) fun i hi => ?_
  have hlt : first + i < bytes.length := by omega
  rw [getElem?_take_of_lt hi, getElem?_drop, himage i hi, getD_eq_getElem?_getD,
    getElem?_eq_getElem hlt, getD_some]

theorem slice?_eq_window {first stop : ℕ} (hle : first ≤ stop) (hbound : stop ≤ bytes.length)
    (himage : ∀ i < stop - first, image (start + i) = bytes.getD (first + i) 0) :
    slice? bytes first stop = some (window image start (stop - first)) := by
  rw [slice?, if_pos ⟨hle, hbound⟩, drop_take]
  exact congrArg some (take_drop_eq_window (by omega) himage)

/-- A chunk of plaintext is written as a chunk of the image. -/
theorem reconstructSections_window (hcontiguous : Contiguous prefixSize sections logicalSize)
    (hmax : logicalSize ≤ u64Max)
    (himage : ∀ i, prefixSize ≤ i → i < logicalSize → image i = cryptByte aes sections i (plain i))
    {offset count : ℕ} (hle : prefixSize ≤ offset) (hstop : offset + count ≤ logicalSize) :
    reconstructSections aes sections offset (window plain offset count) =
      .ok (window image offset count) := by
  rw [reconstructSections_eq hcontiguous hmax hle (by simpa using hstop), mapAt_window]
  refine congrArg Outcome.ok (eq_window (by simp) fun i hi => ?_)
  rw [getElem?_window hi, himage _ (by omega) (by omega)]

/-- What `fetch` gives for the bytes of a block: bytes of the plaintext, or an error if `Bad`. -/
def Fetches (plain : ℕ → UInt8) (start size : ℕ) (Bad : Prop)
    (fetch : ℕ → ℕ → Outcome StorageError (List UInt8)) : Prop :=
  ∀ produced count, produced + count ≤ size →
    fetch produced count = .ok (window plain (start + produced) count) ∨
      (∃ error, fetch produced count = .err error) ∧ Bad

/-- **The loop that fills the file with a block.** -/
theorem fillChunks_spec (hcontiguous : Contiguous prefixSize sections logicalSize)
    (hmax : logicalSize ≤ u64Max)
    (himage : ∀ i, prefixSize ≤ i → i < logicalSize → image i = cryptByte aes sections i (plain i))
    {size : ℕ} {Bad : Prop} (hstart : prefixSize ≤ start) (hstop : start + size ≤ logicalSize)
    (hfetch : Fetches plain start size Bad fetch) :
    ∀ (turns produced : ℕ) (file : List UInt8), produced ≤ size → size ≤ produced + turns →
      Ensures (fillChunks aes sections fetch start size turns produced) file
        (fun _ file' => Grows image file file' ∧
          Holds image file' (start + produced) (start + size)) (fun _ _ => Bad) := by
  intro turns
  induction turns with
  | zero =>
    intro produced file hle hturns
    obtain rfl : produced = size := by omega
    unfold fillChunks
    rw [if_neg (lt_irrefl _)]
    exact ⟨.refl, holds_empty⟩
  | succ turns ih =>
    intro produced file hle hturns
    unfold fillChunks
    split
    · next hlt =>
        have hbuffer : 0 < solidBufferSize := by decide
        dsimp only
        have hcount : 0 < min (size - produced) solidBufferSize := by omega
        have hcount' : min (size - produced) solidBufferSize ≤ size - produced :=
          min_le_left _ _
        generalize min (size - produced) solidBufferSize = count at hcount hcount'
        rcases hfetch produced count (by omega) with heq | ⟨⟨error, heq⟩, hbad⟩
        · rw [heq]
          have hrebuilt : reconstructSections aes sections (start + produced)
              (window plain (start + produced) count) =
              .ok (window image (start + produced) count) :=
            reconstructSections_window hcontiguous hmax himage (by omega) (by omega)
          have hstep := ih (produced + count) (writeAt 0 file (start + produced)
            (window image (start + produced) count)) (by omega) (by omega)
          have hholds := holds_writeAt 0 image file (start + produced) count
          refine .bind ?_
          refine .bind ?_
          unfold storeChunk
          rw [hrebuilt]
          refine hstep.mono ?_
          rintro _ file' ⟨hgrows, hrest⟩
          refine ⟨(grows_writeAt _ _ _ _ _).trans hgrows, ?_⟩
          rw [← add_assoc] at hrest
          exact (hholds.of_grows hgrows).append hrest
        · rw [heq]
          exact hbad
    · obtain rfl : produced = size := by omega
      exact ⟨.refl, holds_empty⟩

end Chunks

/-! ### Blocks -/

section Blocks

variable {zstd : List UInt8 → ZstdStream} {aes : List UInt8 → List UInt8 → Vector UInt8 16}
  {storage : NczCachedStorage} {layout : BlockLayout} {index size : ℕ} {Bad : Prop}
  {cache : BlockCache}

theorem image_eq_cryptByte {content : Content} {position : ℕ} (h : prefixSize ≤ position) :
    storage.image zstd aes content position = cryptByte aes storage.sections position
      (storage.plainByte zstd content (position - prefixSize)) := by
  rw [NczCachedStorage.image, if_neg (by omega)]

/-- The bytes of a block that is stored raw, and of one that is compressed. -/
theorem plainByte_block {produced i : ℕ} (hwithin : produced + i < layout.blockSize)
    (hsize : layout.compressedSizes[index]? = some size) :
    storage.plainByte zstd (.block layout)
        (prefixSize + index * layout.blockSize + produced + i - prefixSize) =
      if size = layout.expectedSize index then
        storage.source.getD (layout.compressedOffsets.getD index 0 + (produced + i)) 0
      else (storage.blockStream zstd layout index).output.getD (produced + i) 0 := by
  have hpos : 0 < layout.blockSize := by omega
  have hdiv : (index * layout.blockSize + (produced + i)) / layout.blockSize = index := by
    rw [add_comm, Nat.add_mul_div_right _ _ hpos, Nat.div_eq_of_lt hwithin, zero_add]
  have hmod : (index * layout.blockSize + (produced + i)) % layout.blockSize = produced + i := by
    rw [add_comm, Nat.add_mul_mod_self_right, Nat.mod_eq_of_lt hwithin]
  rw [add_assoc, add_assoc, Nat.add_sub_cancel_left]
  simp [NczCachedStorage.plainByte, hdiv, hmod, hsize]

theorem fetches_raw {offset : ℕ} (hsize : layout.compressedSizes[index]? = some size)
    (hoffset : layout.compressedOffsets[index]? = some offset)
    (hbound : offset + size ≤ storage.source.length) (hraw : size = layout.expectedSize index) :
    Fetches (fun i => storage.plainByte zstd (.block layout) (i - prefixSize))
      (prefixSize + index * layout.blockSize) (layout.expectedSize index) Bad
      (fun produced count => readSource storage.source (offset + produced) count) := by
  intro produced count hcount
  have hexpected : layout.expectedSize index ≤ layout.blockSize := min_le_left _ _
  left
  have hslice : slice? storage.source (offset + produced) (offset + produced + count) =
      some (window (fun i => storage.plainByte zstd (.block layout) (i - prefixSize))
        (prefixSize + index * layout.blockSize + produced)
        (offset + produced + count - (offset + produced))) := by
    refine slice?_eq_window (by omega) (by omega) fun i hi => ?_
    have hoffsetD : layout.compressedOffsets.getD index 0 = offset := by simp [hoffset]
    rw [plainByte_block (by omega) hsize, if_pos hraw, hoffsetD, add_assoc]
  rw [Nat.add_sub_cancel_left] at hslice
  exact Outcome.orReject_eq_ok.2 hslice

/-- A read from a stream gives the next bytes, or fails at the end of the stream. -/
theorem ZstdStream.readExact_cases (stream : ZstdStream) {position count : ℕ} :
    (position + count ≤ stream.output.length ∧
      stream.readExact position count = .ok ((stream.output.drop position).take count)) ∨
    stream.output.length < position + count ∧
      ∃ error, stream.readExact position count = .err error := by
  unfold ZstdStream.readExact
  by_cases hle : position + count ≤ stream.output.length
  · exact .inl ⟨hle, if_pos hle⟩
  · refine .inr ⟨by omega, ?_⟩
    rw [if_neg hle]
    cases stream.ending with
    | error | ok => exact ⟨_, rfl⟩

/-- A compressed block is read from its stream, which fails if the block does not decode. -/
theorem fetches_decoded {context : String} (hsize : layout.compressedSizes[index]? = some size)
    (hcompressed : size ≠ layout.expectedSize index) :
    Fetches (fun i => storage.plainByte zstd (.block layout) (i - prefixSize))
      (prefixSize + index * layout.blockSize) (layout.expectedSize index)
      (¬ (storage.blockStream zstd layout index).output.length = layout.expectedSize index)
      (fun produced count => inContext context
        ((storage.blockStream zstd layout index).readExact produced count)) := by
  intro produced count hcount
  have hexpected : layout.expectedSize index ≤ layout.blockSize := min_le_left _ _
  rcases (storage.blockStream zstd layout index).readExact_cases with
    ⟨hle, heq⟩ | ⟨hlt, error, heq⟩
  · left
    dsimp only
    rw [heq]
    refine congrArg Outcome.ok (take_drop_eq_window hle fun i hi => ?_)
    rw [plainByte_block (by omega) hsize, if_neg hcompressed]
  · right
    dsimp only
    rw [heq]
    exact ⟨⟨_, rfl⟩, by omega⟩

/-- The end of a stream: nothing more is produced and nothing is left, or an error. -/
theorem readExtra_spec {σ : Type} {stream : ZstdStream} {position start : ℕ} {context : String}
    {more trailing : StorageError} {s : σ} : Ensures (do
        let (extra, consumed) ← ofOutcome (inContext context (stream.readExtra position))
        failIf (extra != 0) more
        failIf (start + consumed != start + size) trailing : Call σ StorageError Unit) s
      (fun _ s' => s' = s ∧ stream.ending = .ok size) fun _ _ =>
        ¬ (stream.output.length ≤ position ∧ stream.ending = .ok size) := by
  unfold ZstdStream.readExtra
  split
  · next hlt =>
      rintro ⟨hle, -⟩
      omega
  · cases stream.ending with
    | error =>
      rintro ⟨-, heq⟩
      cases heq
    | ok consumed =>
      change Ensures (failIf (start + consumed != start + size) trailing) s _ _
      by_cases hconsumed : consumed = size
      · rw [show (start + consumed != start + size) = false by simp [hconsumed]]
        exact ⟨rfl, congrArg Except.ok hconsumed⟩
      · rw [show (start + consumed != start + size) = true by simpa using hconsumed]
        rintro ⟨-, heq⟩
        exact hconsumed (Except.ok.inj heq)

theorem BlockLayout.WellFormed.stop_le (hlayout : layout.WellFormed storage)
    (hindex : index < layout.compressedSizes.length) :
    prefixSize + index * layout.blockSize + layout.expectedSize index ≤ storage.logicalSize := by
  rw [hlayout.length_eq] at hindex
  have hlt := mul_lt_of_lt_divCeil hindex
  have hexpected : layout.expectedSize index ≤
      layout.decompressedSize - index * layout.blockSize := min_le_right _ _
  have hsize := hlayout.decompressedSize_eq
  omega

section

variable (hstorage : storage.WellFormed)
  (hlayout : layout.WellFormed storage)
  (hindex : index < layout.compressedSizes.length)
include hstorage hlayout hindex

theorem fillBlockChunks_spec
    (hfetch : Fetches (fun i => storage.plainByte zstd (.block layout) (i - prefixSize))
      (prefixSize + index * layout.blockSize) (layout.expectedSize index) Bad fetch)
    {file : List UInt8} :
    Ensures (fillChunks aes storage.sections fetch (prefixSize + index * layout.blockSize)
        (layout.expectedSize index) (layout.expectedSize index) 0) file
      (fun _ file' => Grows (storage.image zstd aes (.block layout)) file file' ∧
        Holds (storage.image zstd aes (.block layout)) file' (prefixSize + index * layout.blockSize)
          (prefixSize + index * layout.blockSize + layout.expectedSize index)) fun _ _ => Bad :=
  fillChunks_spec hstorage.contiguous hstorage.size_le
    (fun _ hi _ => image_eq_cryptByte hi) (Nat.le_add_right _ _)
    (hlayout.stop_le hindex) hfetch _ 0 file (Nat.zero_le _) (Nat.le_add_left _ _)

/-- **A block is brought into the file**, or it does not decode. -/
theorem fillBlock_spec {offset : ℕ} (hsize : layout.compressedSizes[index]? = some size)
    (hoffset : layout.compressedOffsets[index]? = some offset)
    (hbound : offset + size ≤ storage.source.length) (hmax : offset + size ≤ u64Max)
    {file : List UInt8} : Ensures (fillBlock zstd aes storage layout index offset size
        (prefixSize + index * layout.blockSize)) file
      (fun _ file' => Grows (storage.image zstd aes (.block layout)) file file' ∧
        Holds (storage.image zstd aes (.block layout)) file' (prefixSize + index * layout.blockSize)
          (prefixSize + index * layout.blockSize + layout.expectedSize index))
      fun _ _ => ¬ BlockDecodes zstd storage layout index := by
  have hsizeD : layout.compressedSizes.getD index 0 = size := by simp [hsize]
  have hoffsetD : layout.compressedOffsets.getD index 0 = offset := by simp [hoffset]
  unfold fillBlock
  split
  · next hraw =>
      exact fillBlockChunks_spec hstorage hlayout hindex (fetches_raw hsize hoffset hbound hraw)
  · next hcompressed =>
      have hstream : storage.streamAt zstd offset (offset + size) =
          storage.blockStream zstd layout index := by
        rw [NczCachedStorage.blockStream, hsizeD, hoffsetD]
      have hdecodes : BlockDecodes zstd storage layout index →
          (storage.blockStream zstd layout index).output.length = layout.expectedSize index ∧
            (storage.blockStream zstd layout index).ending = .ok size := by
        rw [BlockDecodes, hsizeD]
        exact fun hblock => hblock hcompressed
      refine .okOr_some (checkedAdd_eq_some.2 ⟨rfl, hmax⟩) ?_
      rw [hstream]
      refine .bind ?_
      refine (fillBlockChunks_spec hstorage hlayout hindex
        (fetches_decoded hsize hcompressed)).imp ?_ ?_
      · intro _ file' hfile
        refine readExtra_spec.imp ?_ ?_
        · rintro _ _ ⟨rfl, -⟩
          exact hfile
        · intro _ _ hbad hblock
          obtain ⟨hlength, hending⟩ := hdecodes hblock
          exact hbad ⟨le_of_eq hlength, hending⟩
      · intro _ _ hbad hblock
        exact hbad (hdecodes hblock).1

end

/-- The blocks that are marked as valid are in the file. -/
structure BlocksValid (image : ℕ → UInt8) (layout : BlockLayout) (cache : BlockCache) : Prop where
  length_eq : cache.valid.length = layout.compressedSizes.length
  holds : ∀ index : ℕ, cache.valid[index]? = some true →
    Holds image cache.file (prefixSize + index * layout.blockSize)
      (prefixSize + index * layout.blockSize + layout.expectedSize index)

theorem onFile_spec {c : Call (List UInt8) StorageError Unit} {Q : Unit → List UInt8 → Prop}
    {Q' : Unit → BlockCache → Prop} (h : Ensures c cache.file Q fun _ _ => Bad)
    (hQ : ∀ u file, Q u file → Q' u { cache with file }) :
    Ensures (onFile c) cache Q' fun _ _ => Bad := by
  unfold Ensures at h ⊢
  unfold onFile
  rcases hc : c cache.file with ⟨out, file⟩
  rw [hc] at h
  cases out with
  | ok u => exact hQ u file h
  | err | panic => exact h

/-- **One turn of the loop over blocks**: the block is valid afterwards, and so are the blocks that
were valid before. -/
theorem ensureBlock_spec (hstorage : storage.WellFormed) (hlayout : layout.WellFormed storage)
    (hindex : index < layout.compressedSizes.length)
    (hcache : BlocksValid (storage.image zstd aes (.block layout)) layout cache) :
    Ensures (ensureBlock zstd aes storage layout index) cache
      (fun _ cache' => BlocksValid (storage.image zstd aes (.block layout)) layout cache' ∧
        cache'.valid[index]? = some true ∧
        ∀ i : ℕ, cache.valid[i]? = some true → cache'.valid[i]? = some true)
      fun _ _ => ¬ BlockDecodes zstd storage layout index := by
  obtain ⟨cached, hcached⟩ : ∃ cached, cache.valid[index]? = some cached :=
    ⟨_, getElem?_eq_getElem (by rw [hcache.length_eq]; exact hindex)⟩
  obtain ⟨size, offset, hsize, hoffset, hbound, hmax⟩ :=
    hlayout.entry index (by rw [← hlayout.length_eq]; exact hindex)
  have hstop := hlayout.stop_le hindex
  have hle := hstorage.size_le
  refine .read ?_
  rw [hcached]
  refine .expect ?_
  cases cached with
  | true => exact ⟨hcache, hcached, fun _ h => h⟩
  | false =>
    refine .okOr_some (checkedMul_eq_some.2 ⟨rfl, by omega⟩) ?_
    rw [hsize, hoffset]
    refine .okOr_some (checkedAdd_eq_some.2 ⟨rfl, by omega⟩) ?_
    refine .bind (onFile_spec (fillBlock_spec hstorage hlayout hindex hsize hoffset hbound hmax) ?_)
    rintro _ file' ⟨hgrows, hholds⟩
    have hset : ∀ i, (cache.valid.set index true)[i]? = some true ↔
        i = index ∨ cache.valid[i]? = some true := by
      intro i
      have hlt : index < cache.valid.length := by rw [hcache.length_eq]; exact hindex
      by_cases hi : index = i
      · subst hi
        simp [hlt]
      · simp [hi, Ne.symm hi]
    refine ⟨⟨?_, ?_⟩, (hset index).2 (.inl rfl), fun i hi => (hset i).2 (.inr hi)⟩
    · rw [length_set]
      exact hcache.length_eq
    · intro i hi
      rcases (hset i).1 hi with rfl | hi
      · exact hholds
      · exact (hcache.holds i hi).of_grows hgrows

theorem ensureBlocksFrom_spec (hstorage : storage.WellFormed)
    (hlayout : layout.WellFormed storage) :
    ∀ (count index : ℕ) (cache : BlockCache), index + count ≤ layout.compressedSizes.length →
      BlocksValid (storage.image zstd aes (.block layout)) layout cache →
      Ensures (ensureBlocksFrom zstd aes storage layout count index) cache
        (fun _ cache' => BlocksValid (storage.image zstd aes (.block layout)) layout cache' ∧
          (∀ i, index ≤ i → i < index + count → cache'.valid[i]? = some true) ∧
          ∀ i : ℕ, cache.valid[i]? = some true → cache'.valid[i]? = some true)
        fun _ _ => ∃ i, index ≤ i ∧ i < index + count ∧ ¬ BlockDecodes zstd storage layout i := by
  intro count
  induction count with
  | zero =>
    intro index cache _ hcache
    exact ⟨hcache, fun i hle hlt => absurd hlt (by omega), fun _ h => h⟩
  | succ count ih =>
    intro index cache hbound hcache
    refine .bind ((ensureBlock_spec hstorage hlayout (by omega) hcache).imp ?_
      fun _ _ hbad => ⟨index, le_rfl, by omega, hbad⟩)
    rintro _ cache₁ ⟨hcache₁, hvalid, hkept⟩
    refine (ih _ cache₁ (by omega) hcache₁).imp ?_ ?_
    · rintro _ cache₂ ⟨hcache₂, hrange, hkept'⟩
      refine ⟨hcache₂, ?_, fun i hi => hkept' i (hkept i hi)⟩
      intro i hle hlt
      rcases eq_or_lt_of_le hle with rfl | hgt
      · exact hkept' _ hvalid
      · exact hrange i (by omega) (by omega)
    · rintro _ _ ⟨i, hle, hlt, hbad⟩
      exact ⟨i, by omega, by omega, hbad⟩

theorem checkedSub_of_le {a b : ℕ} (h : b ≤ a) : checkedSub a b = some (a - b) := if_pos h

/-- **Block mode**: what is asked for is in the file, or a byte of it does not decode. -/
theorem ensureBlocks_spec (hstorage : storage.WellFormed) (hlayout : layout.WellFormed storage)
    {start stop : ℕ} (hstart : prefixSize ≤ start) (hlt : start < stop)
    (hstop : stop ≤ storage.logicalSize)
    (hcache : BlocksValid (storage.image zstd aes (.block layout)) layout cache) :
    Ensures (ensureBlocks zstd aes storage layout start stop) cache
      (fun _ cache' => BlocksValid (storage.image zstd aes (.block layout)) layout cache' ∧
        Holds (storage.image zstd aes (.block layout)) cache'.file start stop)
      fun _ _ => ∃ i, start ≤ i ∧ i < stop ∧
        ¬ Decodes zstd storage (.block layout) (i - prefixSize) := by
  have hsize := hlayout.decompressedSize_eq
  have hpos := hlayout.blockSize_pos
  refine .okOr_some (checkedSub_of_le hstart) ?_
  refine .okOr_some (checkedSub_of_le (by omega)) ?_
  have hlast : (stop - prefixSize - 1) / layout.blockSize < layout.compressedSizes.length := by
    rw [hlayout.length_eq]
    exact div_lt_divCeil (by omega)
  have hfirst : (start - prefixSize) / layout.blockSize ≤
      (stop - prefixSize - 1) / layout.blockSize := Nat.div_le_div_right (by omega)
  refine (ensureBlocksFrom_spec hstorage hlayout _ _ cache (by omega) hcache).imp ?_ ?_
  · rintro _ cache' ⟨hcache', hrange, -⟩
    refine ⟨hcache', ?_⟩
    -- each byte is in one of the blocks
    intro i hle hi
    have hblock := Nat.div_add_mod' (i - prefixSize) layout.blockSize
    have hmod := Nat.mod_lt (i - prefixSize) hpos
    have hge : (start - prefixSize) / layout.blockSize ≤ (i - prefixSize) / layout.blockSize :=
      Nat.div_le_div_right (by omega)
    have hle' : (i - prefixSize) / layout.blockSize ≤ (stop - prefixSize - 1) / layout.blockSize :=
      Nat.div_le_div_right (by omega)
    have hvalid := hrange _ hge (by omega)
    refine hcache'.holds _ hvalid i (by omega) ?_
    unfold BlockLayout.expectedSize
    omega
  · -- each block has a byte that is asked for
    rintro _ _ ⟨index, hle, hlt, hbad⟩
    have hbefore := (Nat.div_lt_iff_lt_mul hpos).1 (Nat.lt_succ_of_le hle)
    have hafter := (Nat.le_div_iff_mul_le hpos).1
      (show index ≤ (stop - prefixSize - 1) / layout.blockSize by omega)
    rw [Nat.succ_mul] at hbefore
    refine ⟨max start (prefixSize + index * layout.blockSize), le_max_left _ _, by omega, ?_⟩
    have hindex : (max start (prefixSize + index * layout.blockSize) - prefixSize) /
        layout.blockSize = index :=
      Nat.div_eq_of_lt_le (by omega) (by rw [Nat.succ_mul]; omega)
    rwa [Decodes, hindex]

end Blocks

/-! ### The stream -/

section Solid

variable {zstd : List UInt8 → ZstdStream} {aes : List UInt8 → List UInt8 → Vector UInt8 16}
  {storage : NczCachedStorage} {compressedOffset compressedEnd : ℕ} {cache : SolidCache}

/-- The bytes before the point that the stream has reached are in the file; the decoder, if it is
open, stands at that point. -/
structure SolidValid (image : ℕ → UInt8) (stream : ZstdStream) (tailSize : ℕ)
    (cache : SolidCache) : Prop where
  end_le : cache.decompressedEnd ≤ tailSize
  holds : Holds image cache.file prefixSize (prefixSize + cache.decompressedEnd)
  decoder : ∀ decoder, cache.decoder = some decoder →
    decoder.stream = stream ∧ decoder.position = cache.decompressedEnd
  closed : cache.decoder = none → cache.decompressedEnd = 0 ∨ cache.decompressedEnd = tailSize

/-- The cache of a storage with a stream. -/
abbrev SolidCached (zstd : List UInt8 → ZstdStream)
    (aes : List UInt8 → List UInt8 → Vector UInt8 16) (storage : NczCachedStorage)
    (compressedOffset compressedEnd : ℕ) : SolidCache → Prop :=
  SolidValid (storage.image zstd aes (.solid compressedOffset compressedEnd))
    (storage.streamAt zstd compressedOffset compressedEnd) (storage.logicalSize - prefixSize)

/-- **One turn of the loop**: the decoder goes forward, and what it gives is in the file. -/
theorem decodeSolidChunk_spec (hstorage : storage.WellFormed) {wanted : ℕ}
    (hcache : SolidCached zstd aes storage compressedOffset compressedEnd cache)
    (hopen : cache.decoder ≠ none)
    (hwanted : cache.decompressedEnd + wanted ≤ storage.logicalSize - prefixSize) :
    Ensures (decodeSolidChunk aes storage wanted) cache
      (fun _ cache' => SolidCached zstd aes storage compressedOffset compressedEnd cache' ∧
        cache'.decoder ≠ none ∧ cache'.decompressedEnd = cache.decompressedEnd + wanted)
      fun _ _ => (storage.streamAt zstd compressedOffset compressedEnd).output.length <
        cache.decompressedEnd + wanted := by
  obtain ⟨decoder, hdecoder⟩ := ne_none_iff_exists'.1 hopen
  obtain ⟨hstream, hposition⟩ := hcache.decoder decoder hdecoder
  have hprefix := hstorage.contiguous.le
  have hmax := hstorage.size_le
  refine .read ?_
  rw [hdecoder]
  refine .expect ?_
  rw [hstream, hposition]
  rcases (storage.streamAt zstd compressedOffset compressedEnd).readExact_cases with
    ⟨hle, heq⟩ | ⟨hlt, error, heq⟩
  · rw [heq]
    refine .bind (.update (.okOr_some (checkedAdd_eq_some.2 ⟨rfl, by omega⟩) ?_))
    -- the chunk, before and after encryption
    have hplain : ((storage.streamAt zstd compressedOffset compressedEnd).output.drop
          cache.decompressedEnd).take wanted =
        window (fun i => storage.plainByte zstd (.solid compressedOffset compressedEnd)
          (i - prefixSize)) (prefixSize + cache.decompressedEnd) wanted := by
      refine take_drop_eq_window hle fun i hi => ?_
      rw [add_assoc, Nat.add_sub_cancel_left]
      rfl
    rw [hplain, reconstructSections_window hstorage.contiguous hmax
      (fun i hi _ => image_eq_cryptByte hi) (by omega)
      (by omega)]
    have hgrows := grows_writeAt 0
      (storage.image zstd aes (.solid compressedOffset compressedEnd)) cache.file
      (prefixSize + cache.decompressedEnd) wanted
    refine ⟨⟨hwanted, ?_, ?_, ?_⟩, some_ne_none _, rfl⟩
    · have hchunk := holds_writeAt 0
        (storage.image zstd aes (.solid compressedOffset compressedEnd)) cache.file
        (prefixSize + cache.decompressedEnd) wanted
      rw [add_assoc] at hchunk
      exact (hcache.holds.of_grows hgrows).append hchunk
    · intro decoder' hdecoder'
      cases hdecoder'
      exact ⟨rfl, rfl⟩
    · intro hnone
      cases hnone
  · rw [heq]
    exact hlt

theorem decodeSolid_spec (hstorage : storage.WellFormed) {requestedTailEnd : ℕ}
    (hrequested : requestedTailEnd ≤ storage.logicalSize - prefixSize) :
    ∀ (turns : ℕ) (cache : SolidCache),
      SolidCached zstd aes storage compressedOffset compressedEnd cache → cache.decoder ≠ none →
      cache.decompressedEnd ≤ requestedTailEnd →
      requestedTailEnd ≤ cache.decompressedEnd + turns →
      Ensures (decodeSolid aes storage requestedTailEnd turns) cache
        (fun _ cache' => SolidCached zstd aes storage compressedOffset compressedEnd cache' ∧
          cache'.decoder ≠ none ∧ cache'.decompressedEnd = requestedTailEnd)
        fun _ _ => (storage.streamAt zstd compressedOffset compressedEnd).output.length <
          requestedTailEnd := by
  intro turns
  induction turns with
  | zero =>
    intro cache hcache hopen hle hturns
    have heq : cache.decompressedEnd = requestedTailEnd := by omega
    refine .read ?_
    rw [if_neg (by omega)]
    exact ⟨hcache, hopen, heq⟩
  | succ turns ih =>
    intro cache hcache hopen hle hturns
    refine .read ?_
    split
    · next hlt =>
        have hbuffer : 0 < solidBufferSize := by decide
        obtain ⟨wanted, hwanted⟩ : ∃ wanted, wanted =
            min (min (storage.logicalSize - prefixSize - cache.decompressedEnd)
              (requestedTailEnd - cache.decompressedEnd)) solidBufferSize := ⟨_, rfl⟩
        refine .bind ((decodeSolidChunk_spec hstorage hcache hopen (by omega)).imp ?_
          fun _ _ hshort => by omega)
        rintro _ cache' ⟨hcache', hopen', hend'⟩
        exact ih cache' hcache' hopen' (by omega) (by omega)
    · exact ⟨hcache, hopen, by omega⟩

/-- The end of the stream closes the decoder, or something is left. -/
theorem finishSolid_spec (hoffset : compressedOffset ≤ compressedEnd)
    (hcache : SolidCached zstd aes storage compressedOffset compressedEnd cache)
    (hopen : cache.decoder ≠ none)
    (hend : cache.decompressedEnd = storage.logicalSize - prefixSize) :
    Ensures (finishSolid compressedOffset compressedEnd) cache
      (fun _ cache' => SolidCached zstd aes storage compressedOffset compressedEnd cache' ∧
        cache'.decompressedEnd = cache.decompressedEnd)
      fun _ _ => ¬ ((storage.streamAt zstd compressedOffset compressedEnd).output.length =
          storage.logicalSize - prefixSize ∧
        (storage.streamAt zstd compressedOffset compressedEnd).ending =
          .ok (compressedEnd - compressedOffset)) := by
  obtain ⟨decoder, hdecoder⟩ := ne_none_iff_exists'.1 hopen
  obtain ⟨hstream, hposition⟩ := hcache.decoder decoder hdecoder
  refine .read ?_
  rw [hdecoder]
  refine .expect ?_
  rw [hstream, hend]
  unfold ZstdStream.readExtra
  split
  · next hlt =>
      rintro ⟨hlength, -⟩
      omega
  · cases (storage.streamAt zstd compressedOffset compressedEnd).ending with
    | error =>
      rintro ⟨-, heq⟩
      cases heq
    | ok consumed =>
      change Ensures (failIf (compressedOffset + consumed != compressedEnd)
        (invalidData "trailing data follows the NCZ stream")) { cache with decoder := none } _ _
      by_cases hconsumed : compressedOffset + consumed = compressedEnd
      · rw [show (compressedOffset + consumed != compressedEnd) = false by simpa using hconsumed]
        refine ⟨⟨hcache.end_le, hcache.holds, ?_, fun _ => .inr hend⟩, hend⟩
        intro decoder' hdecoder'
        cases hdecoder'
      · rw [show (compressedOffset + consumed != compressedEnd) = true by simpa using hconsumed]
        rintro ⟨-, heq⟩
        have := Except.ok.inj heq
        omega

/-- **Solid mode**: what is asked for is in the file, or the last byte of it does not decode. -/
theorem ensureSolid_spec (hstorage : storage.WellFormed)
    (hoffset : compressedOffset ≤ compressedEnd) {stop : ℕ} (hlt : prefixSize < stop)
    (hstop : stop ≤ storage.logicalSize)
    (hcache : SolidCached zstd aes storage compressedOffset compressedEnd cache) :
    Ensures (ensureSolid zstd aes storage compressedOffset compressedEnd stop) cache
      (fun _ cache' => SolidCached zstd aes storage compressedOffset compressedEnd cache' ∧
        stop ≤ prefixSize + cache'.decompressedEnd)
      fun _ _ => ¬ Decodes zstd storage (.solid compressedOffset compressedEnd)
        (stop - 1 - prefixSize) := by
  have hmax := hstorage.size_le
  have hend := hcache.end_le
  refine .okOr_some (checkedAdd_eq_some.2 ⟨rfl, by omega⟩) ?_
  refine .okOr_some (checkedSub_of_le hlt.le) ?_
  by_cases hdone : stop - prefixSize ≤ cache.decompressedEnd
  · rw [if_pos hdone]
    exact ⟨hcache, by omega⟩
  · rw [if_neg hdone]
    have hopened : SolidCached zstd aes storage compressedOffset compressedEnd
        { cache with decoder := some (cache.decoder.getD
            { stream := storage.streamAt zstd compressedOffset compressedEnd
              position := 0 }) } := by
      refine ⟨hcache.end_le, hcache.holds, ?_, nofun⟩
      intro decoder hdecoder
      cases hdecoder
      cases hold : cache.decoder with
      | some old => exact hcache.decoder old hold
      | none =>
        refine ⟨rfl, ?_⟩
        rcases hcache.closed hold with h | h
        · exact h.symm
        · omega
    refine .update (.bind ((decodeSolid_spec hstorage (by omega) _ _ hopened
      (some_ne_none _) (by dsimp only; omega) (Nat.le_add_left _ _)).imp ?_
        fun _ _ hshort hdecodes => absurd hdecodes.1 (by omega)))
    rintro _ cache' ⟨hcache', hopen', hend'⟩
    refine .read ?_
    by_cases hall : cache'.decompressedEnd = storage.logicalSize - prefixSize
    · rw [if_pos hall]
      refine (finishSolid_spec hoffset hcache' hopen' hall).imp ?_ fun _ _ hleft hdecodes => ?_
      · rintro _ cache'' ⟨hcache'', hend''⟩
        exact ⟨hcache'', by omega⟩
      · obtain ⟨hlength, hending⟩ := hdecodes.2 (by omega)
        exact hleft ⟨by omega, hending⟩
    · rw [if_neg hall]
      exact ⟨hcache', by omega⟩

end Solid

end Nixe.Ncz
