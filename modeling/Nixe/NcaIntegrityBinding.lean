/-
**Validated content is bound to its header.**

Two sections that are valid under one header agree on their data, unless two of the byte strings
that the validations hash are different and have the same hash.  The argument goes down the
layers: the hashes of a layer are looked up in the layer above, on which the two sections agree
already, so that block by block the same hash is expected of both.  This needs that no lookup leaves
the layer above, which is what the checks of the header are for.

Main definitions:

* `AgreeOn` — two storages have the same bytes in a range;
* `HashesFit` — the hashes of each level fit in the level above;
* `Event.InLayerAbove` — a lookup stays in the layer above.

Main results:

* `validateHashLayer_agree` — one layer of two validations;
* `validated_data_agree` — **validated content is bound to its header, and no hash is looked up
  outside of the layer above**.
-/

import Nixe.NcaIntegrity

set_option autoImplicit false

namespace Nixe.NcaIntegrity

open Call (Emits)
open Loader (LoadError)
open Outcome (bind_eq_ok rejectIf_eq_ok orReject_eq_ok orPanic_eq_ok)
open Parsing (slice? length_of_slice?)
open Call (bind_eq_ok okOr_eq_ok)
open List hiding Vector

/-! ### Reading from a storage -/

variable {storage bytes storage₁ storage₂ : List UInt8}
  {offset size blockSize dataOffset dataSize sectionSize : ℕ} {layout : IntegrityLayout}
  {padLastBlock : Bool} {checks : List IntegrityCheck} {fsHeader : FsHeader}
  {sectionType : NcaSectionType}

theorem readAt_eq_ok (h : readAt storage offset size = .ok bytes) :
    (storage.drop offset).take size = bytes ∧ bytes.length = size := by
  have hslice := orReject_eq_ok.1 h
  refine ⟨?_, ?_⟩
  · unfold slice? at hslice
    split at hslice
    · cases hslice
      rw [drop_take, Nat.add_sub_cancel_left]
    · cases hslice
  · have hlen := (length_of_slice? hslice).1
    omega

/-- The loop reads the range in order, whatever the size of the buffer is. -/
theorem readChunks_eq_ok : ∀ (turns consumed : ℕ) (bytes : List UInt8), consumed ≤ size →
      readChunks storage offset size turns consumed = .ok bytes →
      (storage.drop (offset + consumed)).take (size - consumed) = bytes ∧
        bytes.length = size - consumed := by
  intro turns
  induction turns with
  | zero =>
    intro consumed bytes hle h
    unfold readChunks at h
    split at h
    · cases h
    · obtain rfl : size = consumed := by omega
      cases h
      simp
  | succ turns ih =>
    intro consumed bytes hle h
    unfold readChunks at h
    split at h
    · next hlt =>
        obtain ⟨position, hposition, h⟩ := bind_eq_ok.1 h
        obtain ⟨rfl, -⟩ := checkedAdd_eq_some.1 (orReject_eq_ok.1 hposition)
        obtain ⟨chunk, hchunk, h⟩ := bind_eq_ok.1 h
        obtain ⟨rest, hrest, h⟩ := bind_eq_ok.1 h
        cases h
        have hchunkSize : min (size - consumed) hashBufferSize ≤ size - consumed :=
          min_le_left _ _
        obtain ⟨hchunk, hchunkLength⟩ := readAt_eq_ok hchunk
        obtain ⟨hrest, hrestLength⟩ := ih _ _ (by omega) hrest
        generalize min (size - consumed) hashBufferSize = chunkSize at *
        refine ⟨?_, by rw [length_append]; omega⟩
        rw [show size - consumed = chunkSize + (size - (consumed + chunkSize)) by omega,
          take_add, hchunk, drop_drop, add_assoc, hrest]
    · obtain rfl : size = consumed := by omega
      cases h
      simp

/-- What is hashed: the range, and a padding that depends on the sizes only. -/
theorem paddedRange_eq_ok {input : List UInt8} {paddedSize : Option ℕ}
    (h : paddedRange storage offset size paddedSize = .ok input) :
    ∃ bytes, (storage.drop offset).take size = bytes ∧ bytes.length = size ∧
      input = bytes ++ replicate (paddedSize.getD size - size) 0 := by
  obtain ⟨bytes, hbytes, h⟩ := bind_eq_ok.1 h
  obtain ⟨hrange, hlength⟩ := readChunks_eq_ok size 0 bytes (Nat.zero_le _) hbytes
  refine ⟨bytes, by simpa using hrange, by simpa using hlength, ?_⟩
  cases paddedSize with
  | none =>
    cases h
    simp
  | some =>
    obtain ⟨_, -, h⟩ := bind_eq_ok.1 h
    cases h
    rfl

/-! ### Agreement of two storages -/

/-- The two storages have the same bytes in a range. -/
def AgreeOn (storage₁ storage₂ : List UInt8) (offset size : ℕ) : Prop :=
  ∀ i, offset ≤ i → i < offset + size → ∃ byte, storage₁[i]? = some byte ∧ storage₂[i]? = some byte

theorem AgreeOn.of_take_eq
    (h₁ : (storage₁.drop offset).take size = bytes) (h₂ : (storage₂.drop offset).take size = bytes)
    (hlength : bytes.length = size) : AgreeOn storage₁ storage₂ offset size := by
  have hat : ∀ (storage : List UInt8) i, (storage.drop offset).take size = bytes →
      offset ≤ i → i < offset + size → storage[i]? = bytes[i - offset]? := by
    intro storage i heq hle hlt
    rw [← heq, getElem?_take_of_lt (by omega), getElem?_drop, Nat.add_sub_cancel' hle]
  intro i hle hlt
  have hi : i - offset < bytes.length := by omega
  refine ⟨bytes[i - offset], ?_, ?_⟩
  · rw [hat storage₁ i h₁ hle hlt, getElem?_eq_getElem hi]
  · rw [hat storage₂ i h₂ hle hlt, getElem?_eq_getElem hi]

/-- Reads in the common range give the same bytes. -/
theorem AgreeOn.readAt_eq {bytes₁ bytes₂ : List UInt8} {start length : ℕ}
    (h : AgreeOn storage₁ storage₂ offset size) (hle : offset ≤ start)
    (hstop : start + length ≤ offset + size) (h₁ : readAt storage₁ start length = .ok bytes₁)
    (h₂ : readAt storage₂ start length = .ok bytes₂) : bytes₁ = bytes₂ := by
  obtain ⟨rfl, -⟩ := readAt_eq_ok h₁
  obtain ⟨rfl, -⟩ := readAt_eq_ok h₂
  refine ext_getElem? fun i => ?_
  by_cases hi : i < length
  · obtain ⟨byte, hbyte₁, hbyte₂⟩ := h (start + i) (by omega) (by omega)
    rw [getElem?_take_of_lt hi, getElem?_take_of_lt hi, getElem?_drop,
      getElem?_drop, hbyte₁, hbyte₂]
  · rw [getElem?_take_eq_none (by omega), getElem?_take_eq_none (by omega)]

/-! ### One layer -/

section Hash

variable {sha256 : List UInt8 → Vector UInt8 32} {P : Event → Prop} {paddedSize : Option ℕ}
  {log log' log₁ log₂ log₁' log₂' : List Event} {hash : List UInt8} {layer blockIndex : ℕ}
  {expectedHashes : ExpectedHashes} {table : Sha256Layout}

theorem emits_hashPaddedRange (hP : ∀ input, P (.hashed input)) :
    Emits P (hashPaddedRange sha256 storage offset size paddedSize) :=
  .ofOutcome fun _ _ => .bind (.emit (hP _)) fun _ => .pure

theorem hashPaddedRange_eq_ok
    (h : hashPaddedRange sha256 storage offset size paddedSize log = (.ok hash, log')) :
    ∃ input, paddedRange storage offset size paddedSize = .ok input ∧
      (sha256 input).toList = hash ∧ Event.hashed input ∈ log' := by
  obtain ⟨input, _, hinput, h⟩ := bind_eq_ok.1 h
  obtain ⟨_, _, hemit, h⟩ := bind_eq_ok.1 h
  obtain rfl := Call.emit_eq_ok.1 hemit
  cases h
  exact ⟨input, (Call.ofOutcome_eq_ok.1 hinput).1, rfl, mem_cons_self⟩

/-- The lookup of the hash of a block, without the log. -/
def expectedHash? (storage : List UInt8) : ExpectedHashes → ℕ → Outcome LoadError (List UInt8)
  | .inline hashes, blockIndex =>
    Outcome.orReject hashes[blockIndex]? (ncaError "master hash table is truncated")
  | .storage offset, blockIndex => readAt storage (offset + blockIndex * 0x20) 0x20

theorem expectedHash_eq_ok
    (h : expectedHash storage layer expectedHashes blockIndex log = (.ok hash, log')) :
    expectedHash? storage expectedHashes blockIndex = .ok hash := by
  cases expectedHashes with
  | inline =>
    exact orReject_eq_ok.2 (okOr_eq_ok.1 h).1
  | storage =>
    obtain ⟨relative, _, hrelative, h⟩ := bind_eq_ok.1 h
    obtain ⟨hashOffset, _, hhashOffset, h⟩ := bind_eq_ok.1 h
    obtain ⟨rfl, -⟩ := checkedMul_eq_some.1 (okOr_eq_ok.1 hrelative).1
    obtain ⟨rfl, -⟩ := checkedAdd_eq_some.1 (okOr_eq_ok.1 hhashOffset).1
    exact (Call.ofOutcome_eq_ok.1 h).1

/-- The lookups of a layer are those of its blocks. -/
theorem emits_expectedHash
    (hinline : ∀ hashes, expectedHashes = .inline hashes → P (.masterHash blockIndex))
    (hstorage : ∀ offset, expectedHashes = .storage offset →
      P (.storedHash layer (offset + blockIndex * 0x20))) :
    Emits P (expectedHash storage layer expectedHashes blockIndex) := by
  cases expectedHashes with
  | inline hashes =>
    refine .bind (.emit (hinline _ rfl)) fun _ => .of_same fun _ => ?_
    cases hashes[blockIndex]? <;> rfl
  | storage =>
    refine .okOr fun relative hrelative => .okOr fun hashOffset hhashOffset => ?_
    obtain ⟨rfl, -⟩ := checkedMul_eq_some.1 hrelative
    obtain ⟨rfl, -⟩ := checkedAdd_eq_some.1 hhashOffset
    exact .bind (.emit (hstorage _ rfl)) fun _ => .of_same fun _ => rfl

section Layer

variable {storage : List UInt8} {layer dataOffset dataSize blockSize : ℕ} {padLastBlock : Bool}
  {expectedHashes : ExpectedHashes}

theorem emits_validateBlocks (hP : ∀ input, P (.hashed input)) :
    ∀ left blockIndex, (∀ i, i < blockIndex + left → ∀ hashes, expectedHashes = .inline hashes →
        P (.masterHash i)) →
      (∀ i, i < blockIndex + left → ∀ offset, expectedHashes = .storage offset →
        P (.storedHash layer (offset + i * 0x20))) →
      Emits P (validateBlocks sha256 storage layer dataOffset dataSize blockSize padLastBlock
        expectedHashes left blockIndex) := by
  intro left
  induction left with
  | zero => exact fun _ _ _ => .pure
  | succ left ih =>
    intro blockIndex hinline hstorage
    refine .okOr fun relativeOffset _ => .okOr fun offset _ => ?_
    refine .bind (emits_hashPaddedRange hP) fun actual => ?_
    refine .bind (emits_expectedHash (hinline _ (by omega)) (hstorage _ (by omega)))
      fun expected => ?_
    split
    · exact .pure
    · exact ih _ (fun i hi => hinline i (by omega)) fun i hi => hstorage i (by omega)

theorem emits_any {left : ℕ} :
    Emits (fun _ => True) (validateBlocks sha256 storage layer dataOffset dataSize blockSize
      padLastBlock expectedHashes left blockIndex) :=
  emits_validateBlocks (fun _ => trivial) _ _ (fun _ _ _ _ => trivial) fun _ _ _ _ => trivial

/-- The blocks of a layer that passes have the hashes that are expected of them. -/
theorem validateBlocks_eq_true : ∀ (left blockIndex : ℕ) (log log' : List Event),
      validateBlocks sha256 storage layer dataOffset dataSize blockSize padLastBlock
        expectedHashes left blockIndex log = (.ok true, log') →
      ∀ i, blockIndex ≤ i → i < blockIndex + left → ∃ input,
        paddedRange storage (dataOffset + i * blockSize) (min (dataSize - i * blockSize) blockSize)
          (if padLastBlock then some blockSize else none) = .ok input ∧
        Event.hashed input ∈ log' ∧
        expectedHash? storage expectedHashes i = .ok (sha256 input).toList := by
  intro left
  induction left with
  | zero =>
    omega
  | succ left ih =>
    intro blockIndex log log' h i hle hlt
    obtain ⟨relativeOffset, _, hrelative, h⟩ := bind_eq_ok.1 h
    obtain ⟨rfl, -⟩ := checkedMul_eq_some.1 (okOr_eq_ok.1 hrelative).1
    obtain ⟨offset, _, hoffset, h⟩ := bind_eq_ok.1 h
    obtain ⟨rfl, -⟩ := checkedAdd_eq_some.1 (okOr_eq_ok.1 hoffset).1
    obtain ⟨actual, log₁, hactual, h⟩ := bind_eq_ok.1 h
    obtain ⟨expected, log₂, hexpected, hrest⟩ := bind_eq_ok.1 h
    split at hrest
    · cases hrest
    · next heq =>
        rcases lt_or_eq_of_le hle with hnext | rfl
        · exact ih _ _ _ hrest i hnext (by omega)
        · obtain ⟨input, hinput, rfl, hlog⟩ := hashPaddedRange_eq_ok hactual
          obtain rfl : (sha256 input).toList = expected := not_not.1 heq
          refine ⟨input, hinput, ?_, expectedHash_eq_ok hexpected⟩
          -- what follows the hashing does not remove it from the log
          have hlookup : Emits (fun _ => True)
              (expectedHash storage layer expectedHashes blockIndex) :=
            emits_expectedHash (fun _ _ => trivial) fun _ _ => trivial
          exact emits_any.kept hrest (hlookup.kept hexpected hlog)

end Layer

/-- No two different byte strings of the two logs have the same hash. -/
def NoCollision (sha256 : List UInt8 → Vector UInt8 32) (log₁ log₂ : List Event) : Prop :=
  ∀ input₁ input₂, Event.hashed input₁ ∈ log₁ → Event.hashed input₂ ∈ log₂ →
    sha256 input₁ = sha256 input₂ → input₁ = input₂

theorem NoCollision.mono (h : NoCollision sha256 log₁' log₂') (h₁ : ∀ event ∈ log₁, event ∈ log₁')
    (h₂ : ∀ event ∈ log₂, event ∈ log₂') :
    NoCollision sha256 log₁ log₂ := fun input₁ input₂ hin₁ hin₂ heq =>
  h input₁ input₂ (h₁ _ hin₁) (h₂ _ hin₂) heq

/-- Byte strings with the same hash, hashed over ranges of the same size, are the same. -/
theorem NoCollision.agree (h : NoCollision sha256 log₁ log₂) {input₁ input₂ : List UInt8}
    (h₁ : paddedRange storage₁ offset size paddedSize = .ok input₁)
    (h₂ : paddedRange storage₂ offset size paddedSize = .ok input₂)
    (hlog₁ : Event.hashed input₁ ∈ log₁) (hlog₂ : Event.hashed input₂ ∈ log₂)
    (hhash : sha256 input₁ = sha256 input₂) : AgreeOn storage₁ storage₂ offset size := by
  obtain ⟨bytes₁, hbytes₁, hlength₁, rfl⟩ := paddedRange_eq_ok h₁
  obtain ⟨bytes₂, hbytes₂, hlength₂, rfl⟩ := paddedRange_eq_ok h₂
  obtain rfl := append_cancel_right (h _ _ hlog₁ hlog₂ hhash)
  exact .of_take_eq hbytes₁ hbytes₂ hlength₁

/-- **One layer of two validations**: if the same hashes are expected, the layers are the same. -/
theorem validateHashLayer_agree (hblockSize : 0 < blockSize)
    (h₁ : validateHashLayer sha256 storage₁ layer dataOffset dataSize blockSize padLastBlock
      expectedHashes log₁ = (.ok true, log₁'))
    (h₂ : validateHashLayer sha256 storage₂ layer dataOffset dataSize blockSize padLastBlock
      expectedHashes log₂ = (.ok true, log₂'))
    (hinj : NoCollision sha256 log₁' log₂')
    (hsame : ∀ i < divCeil dataSize blockSize, ∀ hash₁ hash₂,
      expectedHash? storage₁ expectedHashes i = .ok hash₁ →
      expectedHash? storage₂ expectedHashes i = .ok hash₂ → hash₁ = hash₂) :
    AgreeOn storage₁ storage₂ dataOffset dataSize := by
  intro i hle hlt
  -- the block of the byte
  have hblock : (i - dataOffset) / blockSize < divCeil dataSize blockSize :=
    div_lt_divCeil (by omega)
  have hsplit := Nat.div_add_mod' (i - dataOffset) blockSize
  have hmod := Nat.mod_lt (i - dataOffset) hblockSize
  generalize (i - dataOffset) / blockSize = block at hblock hsplit
  obtain ⟨input₁, hinput₁, hlog₁, hhash₁⟩ :=
    validateBlocks_eq_true _ _ _ _ h₁ block (Nat.zero_le _) (by omega)
  obtain ⟨input₂, hinput₂, hlog₂, hhash₂⟩ :=
    validateBlocks_eq_true _ _ _ _ h₂ block (Nat.zero_le _) (by omega)
  have hhash : sha256 input₁ = sha256 input₂ :=
    Vector.toList_inj.1 (hsame block hblock _ _ hhash₁ hhash₂)
  exact hinj.agree hinput₁ hinput₂ hlog₁ hlog₂ hhash i (by omega) (by omega)

/-! ### The layers of a layout -/

/-- The hashes of each level fit in the level above, of which there are `bytes` bytes. -/
def HashesFit : ℕ → List IvfcLevel → Prop
  | _, [] => True
  | bytes, level :: levels =>
    0 < level.blockSize ∧ divCeil level.size level.blockSize * 0x20 ≤ bytes ∧
      HashesFit level.size levels

/-- A layer, by its number: for a PFS0 section the hash table and the data, for a RomFS section the
levels. -/
def IntegrityLayout.layer? : IntegrityLayout → ℕ → Option (ℕ × ℕ)
  | .hierarchicalSha256 layout, 0 => some (layout.hashTableOffset, layout.hashTableSize)
  | .hierarchicalSha256 layout, 1 => some (layout.dataOffset, layout.dataSize)
  | .ivfc layout, index => layout.levels[index]?.map fun level => (level.offset, level.size)
  | _, _ => Option.none

/-- A lookup stays in the layer above: the hashes of the header, or the region of the layer above
in the section. -/
def Event.InLayerAbove (layout : IntegrityLayout) : Event → Prop
  | .masterHash index => ∃ ivfc, layout = .ivfc ivfc ∧ index < ivfc.masterHashes.length
  | .storedHash layer offset => ∃ above start size, layer = above + 1 ∧
      layout.layer? above = some (start, size) ∧ start ≤ offset ∧ offset + 0x20 ≤ start + size
  | .hashed _ => True

/-- What the checks of the header give. -/
def IntegrityLayout.WellFormed : IntegrityLayout → Prop
  | .hierarchicalSha256 layout => 0 < layout.blockSize ∧
      divCeil layout.dataSize layout.blockSize * 0x20 ≤ layout.hashTableSize
  | .ivfc layout => layout.levels ≠ [] ∧
      HashesFit (layout.masterHashes.length * 0x20) layout.levels
  | .none => True
  | .bktr _ => True

theorem emits_validateHashLayer (hP : ∀ input, P (.hashed input))
    (hinline : ∀ i < divCeil dataSize blockSize, ∀ hashes, expectedHashes = .inline hashes →
      P (.masterHash i))
    (hstorage : ∀ i < divCeil dataSize blockSize, ∀ offset, expectedHashes = .storage offset →
      P (.storedHash layer (offset + i * 0x20))) :
    Emits P (validateHashLayer sha256 storage layer dataOffset dataSize blockSize padLastBlock
      expectedHashes) :=
  emits_validateBlocks hP _ _ (fun i hi => hinline i (by omega)) fun i hi => hstorage i (by omega)

/-- The levels look their hashes up in the level above. -/
theorem emits_validateLevels {ivfc : IvfcLayout} :
    ∀ (levels : List IvfcLevel) (index : ℕ) (expected : ExpectedHashes) (bytes : ℕ),
      HashesFit bytes levels →
      (∀ i, ivfc.levels[index + i]? = levels[i]?) →
      (∀ hashes, expected = .inline hashes → bytes = ivfc.masterHashes.length * 0x20) →
      (∀ offset, expected = .storage offset → ∃ above, index = above + 1 ∧
        (IntegrityLayout.ivfc ivfc).layer? above = some (offset, bytes)) →
      Emits (Event.InLayerAbove (.ivfc ivfc))
        (validateLevels sha256 storage index expected levels) := by
  intro levels
  induction levels with
  | nil => exact fun _ _ _ _ _ _ _ => .pure
  | cons level levels ih =>
    intro index expected bytes hfit hlevels hinline hstorage
    obtain ⟨hblockSize, hhashes, hfit⟩ := hfit
    refine .bind (emits_validateHashLayer (fun _ => trivial) ?_ ?_) fun valid => ?_
    · intro i hi hashes heq
      have hbytes := hinline hashes heq
      exact ⟨ivfc, rfl, by omega⟩
    · intro i hi offset heq
      obtain ⟨above, habove, hlayer⟩ := hstorage offset heq
      exact ⟨above, offset, bytes, habove, hlayer, by omega, by omega⟩
    · refine .expect fun kind _ => .bind ?_ fun checks => .pure
      refine ih _ _ level.size hfit ?_ ?_ ?_
      · intro i
        rw [add_assoc, add_comm 1 i, hlevels _, getElem?_cons_succ]
      · intro hashes heq
        cases heq
      · intro offset heq
        cases heq
        refine ⟨index, rfl, ?_⟩
        have hlevel := hlevels 0
        rw [add_zero, getElem?_cons_zero] at hlevel
        simp [IntegrityLayout.layer?, hlevel]

/-- **No hash is looked up outside of the layer above.** -/
theorem emits_validate {sectionIndex : ℕ} {headerHashValid : Bool} (hlayout : layout.WellFormed) :
    Emits (Event.InLayerAbove layout)
      (validate sha256 sectionIndex headerHashValid storage layout) := by
  refine .bind ?_ fun checks => .pure
  cases layout with
  | none | bktr => exact .pure
  | hierarchicalSha256 =>
    obtain ⟨hblockSize, hhashes⟩ := hlayout
    refine .bind (emits_hashPaddedRange fun _ => trivial) fun actualMaster => ?_
    refine .bind (emits_validateHashLayer (fun _ => trivial) ?_ ?_) fun valid => .pure
    · intro i hi hashes heq
      cases heq
    · intro i hi offset heq
      cases heq
      exact ⟨0, _, _, rfl, rfl, by omega, by omega⟩
  | ivfc =>
    refine emits_validateLevels _ _ _ _ hlayout.2 (fun i => by rw [zero_add])
      (fun hashes _ => rfl) fun offset heq => ?_
    cases heq

/-! ### Two validations -/

theorem status_eq_valid {b : Bool} : status b = .valid ↔ b = true := by
  cases b <;> simp [status]

def AllValid (checks : List IntegrityCheck) : Prop := ∀ check ∈ checks, check.status = .valid

theorem IntegrityReport.allValid_of_isValid {report : IntegrityReport}
    (h : report.isValid = true) : AllValid report.checks := by
  unfold IntegrityReport.isValid at h
  rw [Bool.and_eq_true, all_eq_true] at h
  exact fun check hcheck => beq_iff_eq.1 (h.2 check hcheck)

theorem keeps_validateLevels : ∀ (levels : List IvfcLevel) (index : ℕ) (expected : ExpectedHashes),
      Emits (fun _ => True) (validateLevels sha256 storage index expected levels) := by
  intro levels
  induction levels with
  | nil => exact fun _ _ => .pure
  | cons level levels ih =>
    intro index expected
    exact .bind emits_any fun valid => .expect fun kind _ => .bind (ih _ _) fun _ => .pure

/-- A validation of levels that returns has validated the first level and the others. -/
theorem validateLevels_cons_eq_ok {index : ℕ} {expected : ExpectedHashes} {level : IvfcLevel}
    {levels : List IvfcLevel}
    (h : validateLevels sha256 storage index expected (level :: levels) log = (.ok checks, log')) :
    ∃ valid kind rest mid,
      validateHashLayer sha256 storage index level.offset level.size level.blockSize true expected
        log = (.ok valid, mid) ∧
      validateLevels sha256 storage (index + 1) (.storage level.offset) levels mid =
        (.ok rest, log') ∧
      checks = { kind, status := status valid } :: rest := by
  obtain ⟨valid, mid, hlayer, h⟩ := bind_eq_ok.1 h
  obtain ⟨kind, mid', hkind, h⟩ := bind_eq_ok.1 h
  obtain ⟨rest, _, hrest, hpure⟩ := bind_eq_ok.1 h
  cases hpure
  have hmid : mid' = mid := (Call.expect_eq_ok.1 hkind).2
  exact ⟨valid, kind, rest, mid, hlayer, hmid ▸ hrest, rfl⟩

/-- **The levels of two validations**: if the hashes of the first level agree, every level does. -/
theorem validateLevels_agree :
    ∀ (levels : List IvfcLevel) (index : ℕ) (expected : ExpectedHashes) (bytes : ℕ)
      (log₁ log₁' log₂ log₂' : List Event) (checks₁ checks₂ : List IntegrityCheck),
      HashesFit bytes levels →
      validateLevels sha256 storage₁ index expected levels log₁ = (.ok checks₁, log₁') →
      validateLevels sha256 storage₂ index expected levels log₂ = (.ok checks₂, log₂') →
      AllValid checks₁ → AllValid checks₂ → NoCollision sha256 log₁' log₂' →
      (∀ i, (i + 1) * 0x20 ≤ bytes → ∀ hash₁ hash₂, expectedHash? storage₁ expected i = .ok hash₁ →
        expectedHash? storage₂ expected i = .ok hash₂ → hash₁ = hash₂) →
      ∀ level ∈ levels, AgreeOn storage₁ storage₂ level.offset level.size := by
  intro levels
  induction levels with
  | nil => simp
  | cons first levels ih =>
    intro index expected bytes log₁ log₁' log₂ log₂' checks₁ checks₂ hfit h₁ h₂ hvalid₁ hvalid₂
      hinj hsame
    obtain ⟨hblockSize, hhashes, hfit⟩ := hfit
    obtain ⟨valid₁, kind₁, rest₁, mid₁, hlayer₁, hrest₁, rfl⟩ := validateLevels_cons_eq_ok h₁
    obtain ⟨valid₂, kind₂, rest₂, mid₂, hlayer₂, hrest₂, rfl⟩ := validateLevels_cons_eq_ok h₂
    obtain rfl : valid₁ = true := status_eq_valid.1 (hvalid₁ _ mem_cons_self)
    obtain rfl : valid₂ = true := status_eq_valid.1 (hvalid₂ _ mem_cons_self)
    have hagree : AgreeOn storage₁ storage₂ first.offset first.size :=
      validateHashLayer_agree hblockSize hlayer₁ hlayer₂
        (hinj.mono (fun _ => (keeps_validateLevels _ _ _).kept hrest₁)
          fun _ => (keeps_validateLevels _ _ _).kept hrest₂)
        fun i hi => hsame i (by omega)
    intro level hlevel
    rcases mem_cons.1 hlevel with rfl | hlevel
    · exact hagree
    · refine ih _ _ first.size _ _ _ _ _ _ hfit hrest₁ hrest₂
        (fun check hcheck => hvalid₁ check (mem_cons_of_mem _ hcheck))
        (fun check hcheck => hvalid₂ check (mem_cons_of_mem _ hcheck)) hinj ?_ level hlevel
      intro i hi hash₁ hash₂ hhash₁ hhash₂
      exact hagree.readAt_eq (by omega) (by omega) hhash₁ hhash₂

/-- A section with a valid hash table: the table has the hash of the header, and the data passes. -/
theorem validateTable_eq_ok
    (h : validateLayout sha256 storage (.hierarchicalSha256 table) log = (.ok checks, log'))
    (hall : AllValid checks) : ∃ input,
      paddedRange storage table.hashTableOffset table.hashTableSize none = .ok input ∧
      (sha256 input).toList = table.masterHash ∧ Event.hashed input ∈ log' ∧
      ∃ mid, validateHashLayer sha256 storage 1 table.dataOffset table.dataSize table.blockSize
        false (.storage table.hashTableOffset) mid = (.ok true, log') := by
  obtain ⟨master, mid, hmaster, h⟩ := bind_eq_ok.1 h
  obtain ⟨valid, _, hlayer, hpure⟩ := bind_eq_ok.1 h
  cases hpure
  obtain ⟨input, hinput, rfl, hlog⟩ := hashPaddedRange_eq_ok hmaster
  obtain rfl : valid = true :=
    status_eq_valid.1 (hall _ (mem_cons_of_mem _ mem_cons_self))
  have heq := status_eq_valid.1 (hall _ mem_cons_self)
  exact ⟨input, hinput, beq_iff_eq.1 heq, emits_any.kept hlayer hlog, mid, hlayer⟩

/-- The hash in the header binds the hash table, and the hash table binds the data. -/
theorem validateTable_agree {checks₁ checks₂ : List IntegrityCheck}
    (hlayout : (IntegrityLayout.hierarchicalSha256 table).WellFormed)
    (h₁ : validateLayout sha256 storage₁ (.hierarchicalSha256 table) log₁ = (.ok checks₁, log₁'))
    (h₂ : validateLayout sha256 storage₂ (.hierarchicalSha256 table) log₂ = (.ok checks₂, log₂'))
    (hall₁ : AllValid checks₁) (hall₂ : AllValid checks₂) (hinj : NoCollision sha256 log₁' log₂') :
    AgreeOn storage₁ storage₂ table.dataOffset table.dataSize := by
  obtain ⟨hblockSize, hhashes⟩ := hlayout
  obtain ⟨input₁, hinput₁, hmaster₁, hlog₁, mid₁, hlayer₁⟩ := validateTable_eq_ok h₁ hall₁
  obtain ⟨input₂, hinput₂, hmaster₂, hlog₂, mid₂, hlayer₂⟩ := validateTable_eq_ok h₂ hall₂
  have htable : AgreeOn storage₁ storage₂ table.hashTableOffset table.hashTableSize :=
    hinj.agree hinput₁ hinput₂ hlog₁ hlog₂ (Vector.toList_inj.1 (hmaster₁.trans hmaster₂.symm))
  refine validateHashLayer_agree hblockSize hlayer₁ hlayer₂ hinj ?_
  intro i hi hash₁ hash₂ hhash₁ hhash₂
  exact htable.readAt_eq (by omega) (by omega) hhash₁ hhash₂

/-- **Two validations under one layout agree on the payload.** -/
theorem validate_agree (hlayout : layout.WellFormed) {index₁ index₂ : ℕ}
    {headerHashValid₁ headerHashValid₂ : Bool} {report₁ report₂ : IntegrityReport}
    (h₁ : validate sha256 index₁ headerHashValid₁ storage₁ layout [] = (.ok report₁, log₁))
    (h₂ : validate sha256 index₂ headerHashValid₂ storage₂ layout [] = (.ok report₂, log₂))
    (hvalid₁ : report₁.isValid = true) (hvalid₂ : report₂.isValid = true)
    (hinj : NoCollision sha256 log₁ log₂) (hpayload : layout.payload? = some (offset, size)) :
    AgreeOn storage₁ storage₂ offset size := by
  obtain ⟨checks₁, _, hrun₁, hpure⟩ := bind_eq_ok.1 h₁
  cases hpure
  obtain ⟨checks₂, _, hrun₂, hpure⟩ := bind_eq_ok.1 h₂
  cases hpure
  have hall₁ : AllValid checks₁ := fun check hcheck =>
    IntegrityReport.allValid_of_isValid hvalid₁ check (mem_cons_of_mem _ hcheck)
  have hall₂ : AllValid checks₂ := fun check hcheck =>
    IntegrityReport.allValid_of_isValid hvalid₂ check (mem_cons_of_mem _ hcheck)
  cases layout with
  | none | bktr => cases hpayload
  | hierarchicalSha256 =>
    cases hpayload
    exact validateTable_agree hlayout hrun₁ hrun₂ hall₁ hall₂ hinj
  | ivfc =>
    obtain ⟨last, hlast, hbounds⟩ := Option.map_eq_some_iff.1 hpayload
    cases hbounds
    refine validateLevels_agree _ _ _ _ _ _ _ _ _ _ hlayout.2 hrun₁ hrun₂ hall₁ hall₂ hinj ?_ last
      (mem_of_getLast? hlast)
    -- the hashes of the header are those of both
    intro i _ hash₁ hash₂ hhash₁ hhash₂
    exact Outcome.ok.inj (hhash₁.symm.trans hhash₂)

end Hash

/-! ### Headers -/

theorem blockSize_pos {u : Unit} (h : validateBlockSize blockSize = .ok u) : 0 < blockSize := by
  have hcheck := rejectIf_eq_ok.1 h
  simp only [Bool.or_eq_false_iff, Bool.not_eq_false', Bool.and_eq_true, decide_eq_true_eq]
    at hcheck
  omega

theorem parseSha256Layout_wellFormed {layout : Sha256Layout}
    (h : parseSha256Layout fsHeader sectionSize = .ok layout) :
    (IntegrityLayout.hierarchicalSha256 layout).WellFormed := by
  obtain ⟨_, hblockSize, h⟩ := bind_eq_ok.1 h
  obtain ⟨_, -, h⟩ := bind_eq_ok.1 h
  obtain ⟨_, -, h⟩ := bind_eq_ok.1 h
  obtain ⟨required, hrequired, h⟩ := bind_eq_ok.1 h
  obtain ⟨rfl, -⟩ := checkedMul_eq_some.1 (orReject_eq_ok.1 hrequired)
  obtain ⟨_, hfits, h⟩ := bind_eq_ok.1 h
  cases h
  exact ⟨blockSize_pos hblockSize, by simpa using rejectIf_eq_ok.1 hfits⟩

theorem parseIvfcLevels_blockSize : ∀ (count index : ℕ) (levels : List IvfcLevel),
      parseIvfcLevels fsHeader sectionSize count index = .ok levels →
      ∀ level ∈ levels, 0 < level.blockSize := by
  intro count
  induction count with
  | zero =>
    intro index levels h
    cases h
    simp
  | succ count ih =>
    intro index levels h
    obtain ⟨first, hfirst, h⟩ := bind_eq_ok.1 h
    obtain ⟨rest, hrest, h⟩ := bind_eq_ok.1 h
    cases h
    intro level hlevel
    rcases mem_cons.1 hlevel with rfl | hlevel
    · obtain ⟨blockSize, -, hfirst⟩ := bind_eq_ok.1 hfirst
      obtain ⟨_, hblockSize, hfirst⟩ := bind_eq_ok.1 hfirst
      obtain ⟨_, -, hfirst⟩ := bind_eq_ok.1 hfirst
      cases hfirst
      exact blockSize_pos hblockSize
    · exact ih _ _ hrest level hlevel

theorem checkHashTables_fit :
    ∀ (levels : List IvfcLevel) (index : ℕ) (above : IvfcLevel) (u : Unit),
      (∀ level ∈ levels, 0 < level.blockSize) →
      checkHashTables index (above :: levels) = .ok u → HashesFit above.size levels := by
  intro levels
  induction levels with
  | nil => exact fun _ _ _ _ _ => trivial
  | cons level levels ih =>
    intro index above u hblockSize h
    obtain ⟨required, hrequired, h⟩ := bind_eq_ok.1 h
    obtain ⟨rfl, -⟩ := checkedMul_eq_some.1 (orReject_eq_ok.1 hrequired)
    obtain ⟨_, hfits, h⟩ := bind_eq_ok.1 h
    refine ⟨hblockSize level mem_cons_self, by simpa using rejectIf_eq_ok.1 hfits, ?_⟩
    exact ih _ _ _ (fun other hother => hblockSize other (mem_cons_of_mem _ hother)) h

theorem length_hashChunks : ∀ (count : ℕ) (bytes : List UInt8),
    (hashChunks count bytes).length = count := by
  intro count
  induction count with
  | zero => exact fun _ => rfl
  | succ count ih => exact fun bytes => congrArg _ (ih _)

theorem parseIvfcLayout_wellFormed {layout : IvfcLayout}
    (h : parseIvfcLayout fsHeader sectionSize = .ok layout) :
    (IntegrityLayout.ivfc layout).WellFormed := by
  obtain ⟨_, -, h⟩ := bind_eq_ok.1 h
  obtain ⟨_, -, h⟩ := bind_eq_ok.1 h
  obtain ⟨_, -, h⟩ := bind_eq_ok.1 h
  obtain ⟨levels, hlevels, h⟩ := bind_eq_ok.1 h
  obtain ⟨first, hfirst, h⟩ := bind_eq_ok.1 h
  obtain ⟨_, hmaster, h⟩ := bind_eq_ok.1 h
  obtain ⟨_, htables, h⟩ := bind_eq_ok.1 h
  cases h
  have hblockSize := parseIvfcLevels_blockSize _ _ _ hlevels
  obtain ⟨rest, rfl⟩ : ∃ rest, levels = first :: rest :=
    head?_eq_some_iff.1 (orPanic_eq_ok.1 hfirst)
  refine ⟨cons_ne_nil _ _, hblockSize _ mem_cons_self, ?_, ?_⟩
  · have hcount := rejectIf_eq_ok.1 hmaster
    rw [decide_eq_false_iff_not, not_lt] at hcount
    rw [length_hashChunks]
    exact Nat.mul_le_mul_right _ hcount
  · exact checkHashTables_fit _ _ _ _
      (fun level hlevel => hblockSize level (mem_cons_of_mem _ hlevel)) htables

/-- **What the checks of the header give.** -/
theorem parseIntegrityLayout_wellFormed
    (h : parseIntegrityLayout sectionType fsHeader sectionSize = .ok layout) :
    layout.WellFormed := by
  cases sectionType with
  | pfs0 =>
    obtain ⟨table, htable, h⟩ := bind_eq_ok.1 h
    cases h
    exact parseSha256Layout_wellFormed htable
  | romFs =>
    obtain ⟨ivfc, hivfc, h⟩ := bind_eq_ok.1 h
    cases h
    exact parseIvfcLayout_wellFormed hivfc
  | bktr =>
    obtain ⟨ivfc, -, h⟩ := bind_eq_ok.1 h
    cases h
    trivial
  | unknown =>
    cases h
    trivial

/-- A PFS0 or RomFS section has a payload below its hashes. -/
theorem exists_payload (h : parseIntegrityLayout sectionType fsHeader sectionSize = .ok layout)
    (htype : sectionType = .pfs0 ∨ sectionType = .romFs) :
    ∃ offset size, layout.payload? = some (offset, size) := by
  have hwell := parseIntegrityLayout_wellFormed h
  rcases htype with rfl | rfl
  · obtain ⟨table, -, h⟩ := bind_eq_ok.1 h
    cases h
    exact ⟨_, _, rfl⟩
  · obtain ⟨ivfc, -, h⟩ := bind_eq_ok.1 h
    cases h
    obtain ⟨last, hlast⟩ : ∃ last, ivfc.levels.getLast? = some last :=
      ⟨_, getLast?_eq_some_getLast hwell.1⟩
    exact ⟨last.offset, last.size, by simp [IntegrityLayout.payload?, hlast]⟩

/-- **Validated content is bound to its header.**  Take a header that is accepted as that of a PFS0
or of a RomFS section.  The section has a payload, on every byte of which two storages agree that
are valid under the header, if no two different byte strings that the two validations hash have the
same hash.  And a validation, however it ends, looks no hash up outside of the layer above the
layer that it validates. -/
theorem validated_data_agree (sha256 : List UInt8 → Vector UInt8 32) (sectionType : NcaSectionType)
    (htype : sectionType = .pfs0 ∨ sectionType = .romFs) (fsHeader : FsHeader) (sectionSize : ℕ)
    (layout : IntegrityLayout)
    (hparse : parseIntegrityLayout sectionType fsHeader sectionSize = .ok layout) :
    (∃ offset size, layout.payload? = some (offset, size) ∧
      ∀ (sectionIndex₁ sectionIndex₂ : ℕ) (headerHashValid₁ headerHashValid₂ : Bool)
        (storage₁ storage₂ : List UInt8) (report₁ report₂ : IntegrityReport)
        (log₁ log₂ : List Event),
        validate sha256 sectionIndex₁ headerHashValid₁ storage₁ layout [] = (.ok report₁, log₁) →
        validate sha256 sectionIndex₂ headerHashValid₂ storage₂ layout [] = (.ok report₂, log₂) →
        report₁.isValid = true → report₂.isValid = true → NoCollision sha256 log₁ log₂ →
        AgreeOn storage₁ storage₂ offset size) ∧
    ∀ (sectionIndex : ℕ) (headerHashValid : Bool) (storage : List UInt8),
      ∀ event ∈ (validate sha256 sectionIndex headerHashValid storage layout []).2,
        event.InLayerAbove layout := by
  have hwell := parseIntegrityLayout_wellFormed hparse
  refine ⟨?_, ?_⟩
  · obtain ⟨offset, size, hpayload⟩ := exists_payload hparse htype
    refine ⟨offset, size, hpayload, ?_⟩
    intro index₁ index₂ valid₁ valid₂ storage₁ storage₂ report₁ report₂ log₁ log₂ h₁ h₂ hvalid₁
      hvalid₂ hinj
    exact validate_agree hwell h₁ h₂ hvalid₁ hvalid₂ hinj hpayload
  · intro sectionIndex headerHashValid storage event hevent
    exact (emits_validate hwell).of_mem hevent

/-! ### A section with a hash table of one hash -/

/-- The SHA-256 hash of 32 bytes that are 5. -/
def dataHash : Vector UInt8 32 := #v[
  0xf8, 0x49, 0xd6, 0x73, 0x25, 0xfa, 0xcf, 0x04, 0x17, 0x7b, 0xc6, 0x63, 0xb2, 0xdc, 0x54, 0x40,
  0x51, 0x83, 0x1c, 0x58, 0x9e, 0xf5, 0x81, 0xd4, 0x12, 0xf2, 0xeb, 0xa4, 0x48, 0x34, 0xe7, 0x7c]

/-- The SHA-256 hash of `dataHash`. -/
def tableHash : Vector UInt8 32 := #v[
  0xbe, 0x32, 0x46, 0xb4, 0x6e, 0xb9, 0xc8, 0x31, 0xad, 0x5d, 0x18, 0x27, 0xc1, 0x15, 0xbe, 0x0c,
  0x8f, 0xd6, 0x50, 0x2e, 0x81, 0x15, 0x6b, 0x69, 0x5a, 0x52, 0x2d, 0xf5, 0xa6, 0xe4, 0xe9, 0x9c]

/-- SHA-256 on the two inputs that are hashed. -/
def sampleHash (input : List UInt8) : Vector UInt8 32 :=
  if input = replicate 0x20 5 then dataHash
  else if input = dataHash.toList then tableHash
  else Vector.replicate 32 0

/-- The hash of the table, blocks of `0x20` bytes, the table at 0 and the data at `0x20`. -/
def sampleHeader : FsHeader := Vector.ofFn fun i =>
  if 0x08 ≤ i.val ∧ i.val < 0x28 then tableHash.toList.getD (i.val - 0x08) 0
  else if i.val = 0x28 ∨ i.val = 0x38 ∨ i.val = 0x40 ∨ i.val = 0x48 then 0x20
  else 0

def sampleLayout : IntegrityLayout := .hierarchicalSha256 {
  masterHash := tableHash.toList
  hashTableOffset := 0
  hashTableSize := 0x20
  dataOffset := 0x20
  dataSize := 0x20
  blockSize := 0x20 }

/-- The table, the data, and a byte that no hash covers. -/
def sampleStorage (byte : UInt8) : List UInt8 :=
  dataHash.toList ++ replicate 0x20 5 ++ [byte]

def sampleReport : IntegrityReport where
  sectionIndex := 0
  checks := [
    { kind := .fsHeader, status := .valid },
    { kind := .hierarchicalSha256Master, status := .valid },
    { kind := .hierarchicalSha256Data, status := .valid }]

def sampleLog : List Event := [
  .storedHash 1 0,
  .hashed (replicate 0x20 5),
  .hashed dataHash.toList]

theorem noCollision_sample : NoCollision sampleHash sampleLog sampleLog := by
  intro input₁ input₂ h₁ h₂ heq
  have hdiff : sampleHash (replicate 0x20 5) ≠ sampleHash dataHash.toList := by
    decide +kernel
  simp only [sampleLog, mem_cons, not_mem_nil, or_false, reduceCtorEq, false_or,
    Event.hashed.injEq] at h₁ h₂
  rcases h₁ with rfl | rfl <;> rcases h₂ with rfl | rfl
  · rfl
  · exact absurd heq hdiff
  · exact absurd heq.symm hdiff
  · rfl

/-- Two different sections that are valid under the header of the sample have the same data. -/
theorem validated_data_agree_sample :
    parseIntegrityLayout .pfs0 sampleHeader 0x41 = .ok sampleLayout ∧
      sampleStorage 0 ≠ sampleStorage 1 ∧ sampleReport.isValid = true ∧
      AgreeOn (sampleStorage 0) (sampleStorage 1) 0x20 0x20 := by
  have hparse : parseIntegrityLayout .pfs0 sampleHeader 0x41 = .ok sampleLayout := by
    decide +kernel
  have hrun₀ : validate sampleHash 0 true (sampleStorage 0) sampleLayout [] =
      (.ok sampleReport, sampleLog) := by decide +kernel
  have hrun₁ : validate sampleHash 0 true (sampleStorage 1) sampleLayout [] =
      (.ok sampleReport, sampleLog) := by decide +kernel
  refine ⟨hparse, by decide, by decide, ?_⟩
  obtain ⟨⟨offset, size, hpayload, hagree⟩, -⟩ :=
    validated_data_agree sampleHash .pfs0 (.inl rfl) sampleHeader 0x41 sampleLayout hparse
  cases hpayload
  exact hagree 0 0 true true _ _ _ _ _ _ hrun₀ hrun₁ (by decide) (by decide) noCollision_sample

end Nixe.NcaIntegrity
