/-
**Encryption of the sections of an NCZ.**

Decompressed bytes come in chunks of any size, and a chunk may lie in several sections.  Encryption
is nevertheless a function of the position and the byte: the keystream of counter mode is given by
the position, and each position lies in one section, because the parser accepts only sections that
follow each other without gaps.

Main definitions:

* `ctrByte` — one byte in counter mode;
* `Contiguous` — the sections fill a range;
* `cryptByte` — one byte of the NCA.

Main results:

* `applyCtrAt_eq` — counter mode is bytewise;
* `reconstructSections_eq` — **so is the encryption of the sections**;
* `parseNcz_facts` — what the parser checks.
-/

import Nixe.Ncz

set_option autoImplicit false

namespace Nixe.Ncz

open FileImage (mapAt mapAt_split mapAt_congr)
open Outcome (bind_eq_ok rejectIf_eq_ok orReject_eq_ok orPanic_eq_ok)
open List hiding Vector

/-! ### Counter mode -/

section Aes

variable (aes : List UInt8 → List UInt8 → Vector UInt8 16) {key counterPrefix data : List UInt8}

/-- The byte at a position, in counter mode. -/
def ctrByte (key counterPrefix : List UInt8) (position : ℕ) (byte : UInt8) : UInt8 :=
  byte ^^^ (aes key (counterBlock counterPrefix (position / aesBlockSize))).toList.getD
    (position % aesBlockSize) 0

variable {aes}

/-- Bytes of one block, from position `within` of the block on. -/
theorem xorBytes_eq {blockNumber within : ℕ} (h : within + data.length ≤ aesBlockSize) :
    xorBytes data ((aes key (counterBlock counterPrefix blockNumber)).toList.drop within) =
      mapAt (ctrByte aes key counterPrefix) (aesBlockSize * blockNumber + within) data := by
  unfold aesBlockSize at h
  refine ext_getElem (by simp [xorBytes]) fun i h₁ h₂ => ?_
  have hi : i < data.length := by simpa using h₂
  have hdiv : (0x10 * blockNumber + within + i) / 0x10 = blockNumber := by omega
  have hmod : (0x10 * blockNumber + within + i) % 0x10 = within + i := by omega
  simp [xorBytes, mapAt, ctrByte, aesBlockSize, hdiv, hmod]

theorem xorBlocks_eq : ∀ (turns blockNumber : ℕ) (data : List UInt8),
    data.length ≤ aesBlockSize * turns →
    xorBlocks aes key counterPrefix turns blockNumber data =
      mapAt (ctrByte aes key counterPrefix) (aesBlockSize * blockNumber) data := by
  intro turns
  induction turns with
  | zero =>
    intro blockNumber data h
    obtain rfl := eq_nil_of_length_eq_zero (Nat.le_zero.1 h)
    rfl
  | succ turns ih =>
    intro blockNumber data h
    have htake : (data.take aesBlockSize).length ≤ aesBlockSize := by
      rw [length_take]
      omega
    have hblock : xorBytes (data.take aesBlockSize)
          ((aes key (counterBlock counterPrefix blockNumber)).toList.drop 0) =
        mapAt (ctrByte aes key counterPrefix) (aesBlockSize * blockNumber + 0)
          (data.take aesBlockSize) := xorBytes_eq (by omega)
    rw [drop_zero, add_zero] at hblock
    rw [xorBlocks, hblock, ih _ _ (by rw [length_drop]; rw [Nat.mul_succ] at h; omega)]
    by_cases hfull : aesBlockSize ≤ data.length
    · rw [mapAt_split _ hfull, Nat.mul_succ]
    · rw [take_of_length_le (by omega), drop_eq_nil_of_le (by omega),
        FileImage.mapAt_nil, append_nil]

theorem xorBatches_eq : ∀ (turns blockNumber : ℕ) (data : List UInt8), data.length ≤ turns →
    xorBatches aes key counterPrefix turns blockNumber data =
      mapAt (ctrByte aes key counterPrefix) (aesBlockSize * blockNumber) data := by
  intro turns
  induction turns with
  | zero =>
    intro blockNumber data h
    obtain rfl := eq_nil_of_length_eq_zero (Nat.le_zero.1 h)
    rfl
  | succ turns ih =>
    intro blockNumber data h
    have hbatch : 0 < 8 * aesBlockSize := by decide
    have htake : (data.take (8 * aesBlockSize)).length ≤ aesBlockSize * 8 := by
      rw [length_take]
      omega
    rw [xorBatches, xorBlocks_eq _ _ _ htake]
    by_cases hfull : 8 * aesBlockSize ≤ data.length
    · have hcount : divCeil (data.take (8 * aesBlockSize)).length aesBlockSize = 8 := by
        rw [length_take_of_le hfull]
        decide
      rw [hcount, ih _ _ (by rw [length_drop]; omega), mapAt_split _ hfull,
        mul_add, mul_comm aesBlockSize 8]
    · rw [take_of_length_le (by omega), drop_eq_nil_of_le (by omega),
        ih _ _ (Nat.zero_le _), FileImage.mapAt_nil, append_nil]

/-- **Counter mode is bytewise**, whatever the position of the first byte in its block is. -/
theorem applyCtrAt_eq {absoluteOffset : ℕ} : applyCtrAt aes key counterPrefix absoluteOffset data =
      mapAt (ctrByte aes key counterPrefix) absoluteOffset data := by
  have hsplit := Nat.div_add_mod absoluteOffset aesBlockSize
  have hmod : absoluteOffset % aesBlockSize < aesBlockSize := Nat.mod_lt _ (by decide)
  unfold applyCtrAt applyCtrBlocks
  dsimp only
  split
  · have hcount : min (aesBlockSize - absoluteOffset % aesBlockSize) data.length ≤ data.length :=
      min_le_right _ _
    rw [xorBytes_eq (by rw [length_take]; omega), hsplit, xorBatches_eq _ _ _ le_rfl,
      mapAt_split _ hcount]
    rcases le_total (aesBlockSize - absoluteOffset % aesBlockSize) data.length with hle | hle
    · rw [Nat.mul_succ]
      congr 2
      omega
    · rw [min_eq_right hle, drop_length, FileImage.mapAt_nil, FileImage.mapAt_nil]
  · next hzero =>
      rw [xorBatches_eq _ _ _ le_rfl]
      congr 1
      omega

end Aes

/-! ### Sections without gaps -/

/-- The sections follow each other from `start` to `stop`. -/
def Contiguous : ℕ → List NczSection → ℕ → Prop
  | start, [], stop => start = stop
  | start, sec :: sections, stop =>
    sec.offset = start ∧ 0 < sec.size ∧ Contiguous (start + sec.size) sections stop

variable {sections : List NczSection} {sec first : NczSection} {position metadataEnd : ℕ}
  {table : List UInt8} {storage : NczCachedStorage} {archive : NczArchive}

theorem Contiguous.le : ∀ {start stop : ℕ}, Contiguous start sections stop → start ≤ stop := by
  induction sections with
  | nil =>
    intro start stop h
    exact le_of_eq h
  | cons sec sections ih =>
    intro start stop h
    have := ih h.2.2
    omega

theorem NczSection.contains_iff :
    sec.contains position = true ↔ sec.offset ≤ position ∧ position < sec.offset + sec.size := by
  simp [NczSection.contains]

theorem Contiguous.bounds : ∀ {start stop : ℕ}, Contiguous start sections stop → ∀ sec ∈ sections,
      start ≤ sec.offset ∧ sec.offset + sec.size ≤ stop := by
  induction sections with
  | nil => simp
  | cons first sections ih =>
    intro start stop h sec hsec
    obtain ⟨hoffset, -, hrest⟩ := h
    rcases mem_cons.1 hsec with rfl | hsec
    · have := hrest.le
      omega
    · have := ih hrest sec hsec
      omega

/-- The search finds the section of a position. -/
theorem Contiguous.find_eq : ∀ {start stop : ℕ},
    Contiguous start sections stop → ∀ sec ∈ sections, ∀ position, sec.contains position = true →
      sections.find? (fun sec => sec.contains position) = some sec := by
  induction sections with
  | nil => simp
  | cons first sections ih =>
    intro start stop h sec hsec position hcontains
    obtain ⟨hoffset, -, hrest⟩ := h
    rcases mem_cons.1 hsec with rfl | hsec
    · exact find?_cons_of_pos hcontains
    · rw [find?_cons_of_neg, ih hrest sec hsec position hcontains]
      have hbounds := hrest.bounds sec hsec
      rw [NczSection.contains_iff] at hcontains ⊢
      omega

theorem Contiguous.exists_contains : ∀ {start stop : ℕ},
    Contiguous start sections stop → ∀ position, start ≤ position → position < stop →
      ∃ sec ∈ sections, sec.contains position = true := by
  induction sections with
  | nil =>
    intro start stop h position hle hlt
    have : start = stop := h
    omega
  | cons first sections ih =>
    intro start stop h position hle hlt
    obtain ⟨hoffset, -, hrest⟩ := h
    by_cases hin : position < start + first.size
    · exact ⟨first, mem_cons_self, NczSection.contains_iff.2 (by omega)⟩
    · obtain ⟨sec, hsec, hcontains⟩ := ih hrest position (by omega) hlt
      exact ⟨sec, mem_cons_of_mem _ hsec, hcontains⟩

/-! ### Encryption -/

section Aes

variable (aes : List UInt8 → List UInt8 → Vector UInt8 16) {start stop : ℕ}

/-- A byte in a section. -/
def NczSection.cryptByte (sec : NczSection) (position : ℕ) (byte : UInt8) : UInt8 :=
  if sec.isAesCtr then ctrByte aes sec.cryptoKey (sec.cryptoCounter.take 8) position byte else byte

/-- A byte of the NCA: encrypted as its section says. -/
def cryptByte (sections : List NczSection) (position : ℕ) (byte : UInt8) : UInt8 :=
  match sections.find? fun sec => sec.contains position with
  | some sec => sec.cryptByte aes position byte
  | none => byte

variable {aes}

theorem Contiguous.cryptByte_eq (h : Contiguous start sections stop) (hsec : sec ∈ sections)
    (hcontains : sec.contains position = true) :
    cryptByte aes sections position = sec.cryptByte aes position := by
  funext byte
  rw [cryptByte, h.find_eq sec hsec position hcontains]

theorem encryptPart_eq (sec : NczSection) (position : ℕ) (part : List UInt8) : (if sec.isAesCtr then
        applyCtrAt aes sec.cryptoKey (sec.cryptoCounter.take 8) position part
      else part) = mapAt (sec.cryptByte aes) position part := by
  have hfun : (sec.cryptByte aes) = fun i byte =>
      if sec.isAesCtr then ctrByte aes sec.cryptoKey _ i byte else byte :=
    rfl
  rw [hfun]
  split
  · exact applyCtrAt_eq
  · exact ext_getElem (by simp) fun i _ _ => by simp [mapAt]

theorem reconstructFrom_eq (h : Contiguous start sections stop) :
    ∀ (turns position : ℕ) (data : List UInt8), data.length ≤ turns → start ≤ position →
      position + data.length ≤ stop →
      reconstructFrom aes sections turns position data =
        .ok (mapAt (cryptByte aes sections) position data) := by
  intro turns
  induction turns with
  | zero =>
    intro position data hturns _ _
    obtain rfl := eq_nil_of_length_eq_zero (Nat.le_zero.1 hturns)
    rfl
  | succ turns ih =>
    intro position data hturns hle hstop
    cases data with
    | nil => rfl
    | cons byte bytes =>
      rw [length_cons] at hturns hstop
      obtain ⟨sec, hsec, hcontains⟩ := h.exists_contains position hle (by omega)
      have hbounds := NczSection.contains_iff.1 hcontains
      unfold reconstructFrom
      rw [h.find_eq sec hsec position hcontains]
      -- the part of the data in the section
      obtain ⟨partLength, hdef⟩ : ∃ n,
          n = min (position + (byte :: bytes).length) (sec.offset + sec.size) - position :=
        ⟨_, rfl⟩
      simp only [Outcome.orReject, bind, pure, ← hdef]
      rw [length_cons] at hdef
      have hpart : partLength ≤ (byte :: bytes).length := by
        rw [length_cons]
        omega
      have hencrypted : (if sec.isAesCtr then
            applyCtrAt aes sec.cryptoKey (sec.cryptoCounter.take 8) position
              ((byte :: bytes).take partLength)
          else (byte :: bytes).take partLength) =
          mapAt (cryptByte aes sections) position ((byte :: bytes).take partLength) := by
        rw [encryptPart_eq]
        refine mapAt_congr fun i hi hi' => ?_
        rw [length_take_of_le hpart] at hi'
        exact (h.cryptByte_eq hsec (NczSection.contains_iff.2 (by omega))).symm
      have hrest := ih (position + partLength) ((byte :: bytes).drop partLength)
        (by rw [length_drop, length_cons]; omega) (by omega)
        (by rw [length_drop, length_cons]; omega)
      rw [hencrypted, hrest]
      exact congrArg Outcome.ok (mapAt_split _ hpart).symm

/-- **Encryption is bytewise**, for bytes that lie in the sections. -/
theorem reconstructSections_eq (h : Contiguous start sections stop) (hmax : stop ≤ u64Max)
    {offset : ℕ} {data : List UInt8} (hle : start ≤ offset) (hstop : offset + data.length ≤ stop) :
    reconstructSections aes sections offset data =
      .ok (mapAt (cryptByte aes sections) offset data) := by
  have hadd : checkedAdd offset data.length = some (offset + data.length) :=
    checkedAdd_eq_some.2 ⟨rfl, by omega⟩
  unfold reconstructSections
  rw [hadd]
  exact reconstructFrom_eq h _ _ _ le_rfl hle hstop

end Aes

/-! ### What the parser checks -/

theorem parseSection_facts {index stop : ℕ} {expectedOffset : Option ℕ}
    (h : parseSection table index expectedOffset = .ok (sec, stop)) :
    0 < sec.size ∧ stop = sec.offset + sec.size ∧ stop ≤ u64Max ∧ (match expectedOffset with
        | none => prefixSize ≤ sec.offset
        | some expected => sec.offset = expected) := by
  obtain ⟨_, -, h⟩ := bind_eq_ok.1 h
  obtain ⟨_, hcheck, h⟩ := bind_eq_ok.1 h
  obtain ⟨_, -, h⟩ := bind_eq_ok.1 h
  obtain ⟨_, hstop, h⟩ := bind_eq_ok.1 h
  cases h
  obtain ⟨hstop, hmax⟩ := checkedAdd_eq_some.1 (orReject_eq_ok.1 hstop)
  obtain ⟨hsize, hoffset⟩ := Bool.or_eq_false_iff.1 (rejectIf_eq_ok.1 hcheck)
  refine ⟨pos_of_ne_zero (by simpa using hsize), hstop.symm, hmax, ?_⟩
  cases expectedOffset with
  | none | some => simpa using hoffset

theorem parseSections_contiguous :
    ∀ (count index expected : ℕ) (sections : List NczSection) (last : Option ℕ), expected ≤ u64Max →
      parseSections table count index (some expected) = .ok (sections, last) →
      ∃ stop, last = some stop ∧ stop ≤ u64Max ∧ Contiguous expected sections stop := by
  intro count
  induction count with
  | zero =>
    intro index expected sections last hmax h
    cases h
    exact ⟨expected, rfl, hmax, rfl⟩
  | succ count ih =>
    intro index expected sections last hmax h
    obtain ⟨⟨sec, next⟩, hsec, h⟩ := bind_eq_ok.1 h
    obtain ⟨⟨rest, last'⟩, hrest, h⟩ := bind_eq_ok.1 h
    cases h
    obtain ⟨hsize, rfl, hnext, hoffset⟩ := parseSection_facts hsec
    obtain ⟨stop, rfl, hstop, hcontiguous⟩ := ih _ _ _ _ hnext hrest
    exact ⟨stop, rfl, hstop, hoffset, hsize, hoffset ▸ hcontiguous⟩

/-- The sections of a table, from the first one on. -/
theorem parseSections_facts {count logicalSize : ℕ}
    (h : parseSections table count 0 none = .ok (sections, some logicalSize))
    (hfirst : sections.head? = some first) : prefixSize ≤ first.offset ∧ logicalSize ≤ u64Max ∧
      Contiguous first.offset sections logicalSize := by
  cases count with
  | zero => cases h
  | succ =>
    obtain ⟨⟨sec, next⟩, hsec, h⟩ := bind_eq_ok.1 h
    obtain ⟨⟨rest, last⟩, hrest, h⟩ := bind_eq_ok.1 h
    cases h
    cases hfirst
    obtain ⟨hsize, rfl, hnext, hoffset⟩ := parseSection_facts hsec
    obtain ⟨stop, hlast, hstop, hcontiguous⟩ := parseSections_contiguous _ _ _ _ _ hnext hrest
    cases hlast
    exact ⟨hoffset, hstop, rfl, hsize, hcontiguous⟩

/-- With the bytes before the first section, the sections start after the prefix. -/
theorem reconstructionSections_contiguous {stop : ℕ}
    (hle : prefixSize ≤ first.offset) (h : Contiguous first.offset sections stop) :
    Contiguous prefixSize (reconstructionSections sections first) stop := by
  unfold reconstructionSections
  split
  · refine ⟨rfl, by dsimp only; omega, ?_⟩
    rwa [Nat.add_sub_cancel' hle]
  · rwa [show prefixSize = first.offset by omega]

/-- The storage has its sections and its prefix. -/
structure NczCachedStorage.WellFormed (storage : NczCachedStorage) : Prop where
  contiguous : Contiguous prefixSize storage.sections storage.logicalSize
  size_le : storage.logicalSize ≤ u64Max
  prefix_le : prefixSize ≤ storage.source.length

/-- The table has an entry for each block, with bytes of the source. -/
structure BlockLayout.WellFormed (storage : NczCachedStorage) (layout : BlockLayout) : Prop where
  blockSize_pos : 0 < layout.blockSize
  decompressedSize_eq : layout.decompressedSize = storage.logicalSize - prefixSize
  length_eq : layout.compressedSizes.length = divCeil layout.decompressedSize layout.blockSize
  entry : ∀ index < divCeil layout.decompressedSize layout.blockSize, ∃ size offset,
    layout.compressedSizes[index]? = some size ∧ layout.compressedOffsets[index]? = some offset ∧
      offset + size ≤ storage.source.length ∧ offset + size ≤ u64Max

theorem parseBlockTable_facts {blockSize decompressedSize sourceLength : ℕ} :
    ∀ (count index sourceOffset : ℕ) (sizes offsets : List ℕ) (last : ℕ),
      parseBlockTable table blockSize decompressedSize sourceLength count index sourceOffset =
        .ok (sizes, offsets, last) →
      sizes.length = count ∧ ∀ i < count, ∃ size offset,
        sizes[i]? = some size ∧ offsets[i]? = some offset ∧
          offset + size ≤ sourceLength ∧ offset + size ≤ u64Max := by
  intro count
  induction count with
  | zero =>
    intro index sourceOffset sizes offsets last h
    cases h
    exact ⟨rfl, fun i hi => absurd hi (Nat.not_lt_zero i)⟩
  | succ count ih =>
    intro index sourceOffset sizes offsets last h
    obtain ⟨_, -, h⟩ := bind_eq_ok.1 h
    obtain ⟨next, hnext, h⟩ := bind_eq_ok.1 h
    obtain ⟨_, hbound, h⟩ := bind_eq_ok.1 h
    obtain ⟨⟨sizes', offsets', last'⟩, hrest, h⟩ := bind_eq_ok.1 h
    cases h
    obtain ⟨rfl, hmax⟩ := checkedAdd_eq_some.1 (orReject_eq_ok.1 hnext)
    obtain ⟨hlength, hentries⟩ := ih _ _ _ _ _ hrest
    refine ⟨congrArg _ hlength, ?_⟩
    intro i hi
    cases i with
    | zero => exact ⟨_, _, rfl, rfl, by simpa using rejectIf_eq_ok.1 hbound, hmax⟩
    | succ i => exact hentries i (by omega)

theorem parseBlockLayout_facts {layout : BlockLayout}
    (h : parseBlockLayout storage.source metadataEnd (storage.logicalSize - prefixSize) =
      .ok layout) : layout.WellFormed storage := by
  obtain ⟨header, -, h⟩ := bind_eq_ok.1 h
  obtain ⟨_, -, h⟩ := bind_eq_ok.1 h
  obtain ⟨_, -, h⟩ := bind_eq_ok.1 h
  obtain ⟨blockSize, hblockSize, h⟩ := bind_eq_ok.1 h
  obtain ⟨_, -, h⟩ := bind_eq_ok.1 h
  obtain ⟨_, hsize, h⟩ := bind_eq_ok.1 h
  obtain ⟨_, hcount, h⟩ := bind_eq_ok.1 h
  obtain ⟨tableSize, -, h⟩ := bind_eq_ok.1 h
  obtain ⟨dataOffset, -, h⟩ := bind_eq_ok.1 h
  obtain ⟨_, -, h⟩ := bind_eq_ok.1 h
  obtain ⟨table, -, h⟩ := bind_eq_ok.1 h
  obtain ⟨⟨sizes, offsets, last⟩, htable, h⟩ := bind_eq_ok.1 h
  obtain ⟨_, -, h⟩ := bind_eq_ok.1 h
  cases h
  obtain ⟨hlength, hentries⟩ := parseBlockTable_facts _ _ _ _ _ _ htable
  have hsize : readU64 header 16 = storage.logicalSize - prefixSize := by
    simpa using rejectIf_eq_ok.1 hsize
  have hcount : readU32 header 12 = divCeil (readU64 header 16) blockSize := by
    simpa using rejectIf_eq_ok.1 hcount
  refine ⟨?_, hsize, by rw [hlength, hcount], ?_⟩
  · have hshl := orReject_eq_ok.1 hblockSize
    unfold checkedShlOne at hshl
    split at hshl
    · cases hshl
      positivity
    · cases hshl
  · rw [← hcount]
    exact hentries

/-- The cache of a new storage. -/
def CacheMode.Initial (storage : NczCachedStorage) : CacheMode → Prop
  | .block layout valid =>
    layout.WellFormed storage ∧ valid = replicate layout.compressedSizes.length false
  | .solid compressedOffset compressedEnd decompressedEnd decoder =>
    compressedOffset ≤ compressedEnd ∧ decompressedEnd = 0 ∧ decoder = none

theorem parseMode_facts {mode : CacheMode} (hmetadata : metadataEnd ≤ storage.source.length)
    (h : parseMode storage.source metadataEnd (storage.logicalSize - prefixSize) = .ok mode) :
    mode.Initial storage := by
  obtain ⟨magic, -, h⟩ := bind_eq_ok.1 h
  split at h
  · obtain ⟨layout, hlayout, h⟩ := bind_eq_ok.1 h
    cases h
    exact ⟨parseBlockLayout_facts hlayout, rfl⟩
  · obtain ⟨_, -, h⟩ := bind_eq_ok.1 h
    cases h
    exact ⟨hmetadata, rfl, rfl⟩

variable {storage : List UInt8}

theorem parseSectionTable_facts {sectionCount : ℕ}
    (h : parseSectionTable storage = .ok (table, sectionCount, metadataEnd)) :
    prefixSize ≤ storage.length ∧ metadataEnd ≤ storage.length := by
  obtain ⟨_, hlength, h⟩ := bind_eq_ok.1 h
  obtain ⟨header, -, h⟩ := bind_eq_ok.1 h
  obtain ⟨_, -, h⟩ := bind_eq_ok.1 h
  obtain ⟨_, -, h⟩ := bind_eq_ok.1 h
  obtain ⟨_, -, h⟩ := bind_eq_ok.1 h
  obtain ⟨_, -, h⟩ := bind_eq_ok.1 h
  obtain ⟨_, hmetadata, h⟩ := bind_eq_ok.1 h
  obtain ⟨_, -, h⟩ := bind_eq_ok.1 h
  cases h
  have hlength := rejectIf_eq_ok.1 hlength
  have hmetadata := (Bool.or_eq_false_iff.1 (rejectIf_eq_ok.1 hmetadata)).2
  rw [decide_eq_false_iff_not] at hlength hmetadata
  omega

/-- **What the parser checks.** -/
structure NczArchive.WellFormed (storage : List UInt8) (archive : NczArchive) : Prop where
  source_eq : archive.ncaStorage.source = storage
  size_eq : archive.ncaStorage.logicalSize = archive.logicalSize
  sections : ∃ first, prefixSize ≤ first.offset ∧
    Contiguous first.offset archive.sections archive.logicalSize ∧
    archive.ncaStorage.sections = reconstructionSections archive.sections first
  storage : archive.ncaStorage.WellFormed
  file_eq : archive.state.file = none
  terminalError_eq : archive.state.terminalError = none
  mode : archive.state.mode.Initial archive.ncaStorage

theorem parseNcz_facts (h : parseNcz storage = .ok archive) : archive.WellFormed storage := by
  obtain ⟨⟨table, sectionCount, metadataEnd⟩, htable, h⟩ := bind_eq_ok.1 h
  obtain ⟨⟨sections, last⟩, hsections, h⟩ := bind_eq_ok.1 h
  obtain ⟨logicalSize, hlast, h⟩ := bind_eq_ok.1 h
  obtain ⟨first, hfirst, h⟩ := bind_eq_ok.1 h
  obtain ⟨mode, hmode, h⟩ := bind_eq_ok.1 h
  cases h
  obtain rfl := orPanic_eq_ok.1 hlast
  obtain ⟨hheader, hmetadata⟩ := parseSectionTable_facts htable
  obtain ⟨hle, hmax, hcontiguous⟩ := parseSections_facts hsections (orPanic_eq_ok.1 hfirst)
  exact {
    source_eq := rfl
    size_eq := rfl
    sections := ⟨first, hle, hcontiguous, rfl⟩
    storage := ⟨reconstructionSections_contiguous hle hcontiguous, hmax, hheader⟩
    file_eq := rfl
    terminalError_eq := rfl
    mode := @parseMode_facts _ _ _ hmetadata hmode }

/-- **Each byte is encrypted as its section of the header says**, and bytes before the first
section are not. -/
theorem NczArchive.WellFormed.cryptByte_eq (h : archive.WellFormed storage)
    {aes : List UInt8 → List UInt8 → Vector UInt8 16} :
    (∀ sec ∈ archive.sections, sec.contains position = true →
      cryptByte aes archive.ncaStorage.sections position = sec.cryptByte aes position) ∧
    ((∀ sec ∈ archive.sections, sec.contains position = false) →
      cryptByte aes archive.ncaStorage.sections position = id) := by
  obtain ⟨first, hle, hcontiguous, hsections⟩ := h.sections
  refine ⟨?_, ?_⟩
  · intro sec hsec hcontains
    refine h.storage.contiguous.cryptByte_eq ?_ hcontains
    rw [hsections]
    unfold reconstructionSections
    split
    · exact mem_cons_of_mem _ hsec
    · exact hsec
  · intro hnone
    have hrest : archive.sections.find? (fun sec => sec.contains position) = none :=
      find?_eq_none.2 fun sec hsec => by simp [hnone sec hsec]
    funext byte
    rw [hsections, cryptByte]
    split
    · next sec heq =>
        unfold reconstructionSections at heq
        split at heq
        · rw [find?_cons] at heq
          split at heq
          · cases heq
            rfl
          · rw [hrest] at heq
            cases heq
        · rw [hrest] at heq
          cases heq
    · rfl

end Nixe.Ncz
