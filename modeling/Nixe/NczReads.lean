/-
**Reads from a compressed NCA.**

A read takes what is before `0x4000` from the source and the rest from the cache, which only ever
holds parts of one image; so it returns the bytes of the image whatever was read before.  A read
that asks for a byte that does not decompress as the metadata declares fails, and with it all later
reads behind the prefix.

Main definitions:

* `Spoiled` — a read that asks for a byte that does not decode;
* `Cached`, `Explained` — the cache holds parts of the image, or there has been a spoiled read;
* `machine` — the storage, as a machine that answers reads.

Main results:

* `readAt_spec` — one read;
* `reads_return_image` — **reads return slices of one image**, up to the first spoiled one;
* `corrupt_content_accepted` — the parser accepts content that does not decompress.
-/

import Nixe.Machine
import Nixe.NczCache

set_option autoImplicit false

namespace Nixe.Ncz

open Call (Ensures)
open FileImage Option
open Loader (StorageError)
open Outcome (orReject_eq_ok)
open Parsing (slice?)
open List hiding Vector

/-! ### Reads -/

section Reads

variable (zstd : List UInt8 → ZstdStream) (aes : List UInt8 → List UInt8 → Vector UInt8 16)
  (storage : NczCachedStorage) {content : Content} {state : CacheState}

/-- What the file holds, in the two modes. -/
def CachedMode (file : List UInt8) : Content → CacheMode → Prop
  | .block layout, .block layout' valid => layout' = layout ∧ layout.WellFormed storage ∧
      BlocksValid (storage.image zstd aes (.block layout)) layout { file, valid }
  | .solid compressedOffset compressedEnd, .solid offset stop decompressedEnd decoder =>
    offset = compressedOffset ∧ stop = compressedEnd ∧ compressedOffset ≤ compressedEnd ∧
      SolidCached zstd aes storage compressedOffset compressedEnd
        { file, decompressedEnd, decoder }
  | _, _ => False

/-- **The cache holds parts of the image**, and no error was met. -/
def Cached (content : Content) (state : CacheState) : Prop :=
  state.terminalError = none ∧
    CachedMode zstd aes storage (state.file.getD []) content state.mode

/-- A byte of the range does not decode. -/
def Undecodable (content : Content) (start stop : ℕ) : Prop :=
  ∃ i, start ≤ i ∧ i < stop ∧ ¬ Decodes zstd storage content (i - prefixSize)

/-- A read in the range of the NCA asks for a byte behind the prefix that does not decode. -/
def Spoiled (content : Content) (request : ℕ × ℕ) : Prop :=
  request.1 + request.2 ≤ storage.logicalSize ∧
    Undecodable zstd storage content (max request.1 prefixSize) (request.1 + request.2)

/-- The cache holds parts of the image, or one of the reads so far was spoiled. -/
def Explained (content : Content) (asked : List (ℕ × ℕ)) (state : CacheState) : Prop :=
  Cached zstd aes storage content state ∨
    state.terminalError ≠ none ∧ ∃ request ∈ asked, Spoiled zstd storage content request

variable {zstd aes storage} {asked : List (ℕ × ℕ)}

theorem Explained.append (h : Explained zstd aes storage content asked state)
    {more : List (ℕ × ℕ)} : Explained zstd aes storage content (asked ++ more) state :=
  h.imp_right fun ⟨herror, request, hrequest, hspoiled⟩ =>
    ⟨herror, request, mem_append_left _ hrequest, hspoiled⟩

section

variable (hstorage : storage.WellFormed)
include hstorage

/-- What is asked for is in the file, or a byte of it does not decode and the error is kept. -/
theorem ensureOrRemember_spec (hstate : Cached zstd aes storage content state) {start stop : ℕ}
    (hstart : prefixSize ≤ start) (hlt : start < stop) (hstop : stop ≤ storage.logicalSize) :
    Ensures (ensureOrRemember zstd aes storage start stop) state
      (fun _ state' => Cached zstd aes storage content state' ∧
        ∃ file, state'.file = some file ∧ Holds (storage.image zstd aes content) file start stop)
      fun error state' => (∃ reason, error = .invalidData reason) ∧
        state'.terminalError ≠ none ∧ Undecodable zstd storage content start stop := by
  obtain ⟨hnone, hmode⟩ := hstate
  cases hm : state.mode with
  | block layout valid =>
    cases content with
    | solid => exact absurd hmode (by rw [hm]; exact id)
    | block =>
      rw [hm] at hmode
      obtain ⟨rfl, hlayout, hcache⟩ := hmode
      have hspec := ensureBlocks_spec hstorage hlayout hstart hlt hstop hcache
      unfold Ensures at hspec ⊢
      unfold ensureOrRemember ensureCached
      simp only [hm]
      rcases hrun : ensureBlocks zstd aes storage layout start stop
        { file := state.file.getD [], valid } with ⟨outcome, cache⟩
      rw [hrun] at hspec
      cases outcome with
      | ok => exact ⟨⟨hnone, rfl, hlayout, hspec.1⟩, _, rfl, hspec.2⟩
      | err => exact ⟨⟨_, rfl⟩, some_ne_none _, hspec⟩
      | panic => exact hspec
  | solid offset stop' decompressedEnd decoder =>
    cases content with
    | block => exact absurd hmode (by rw [hm]; exact id)
    | solid =>
      rw [hm] at hmode
      obtain ⟨rfl, rfl, hoffset, hcache⟩ := hmode
      have hspec := ensureSolid_spec hstorage hoffset (by omega) hstop hcache
      unfold Ensures at hspec ⊢
      unfold ensureOrRemember ensureCached
      simp only [hm]
      rcases hrun : ensureSolid zstd aes storage offset stop' stop
        { file := state.file.getD [], decompressedEnd, decoder } with ⟨outcome, cache⟩
      rw [hrun] at hspec
      cases outcome with
      | ok =>
        refine ⟨⟨hnone, rfl, rfl, hoffset, hspec.1⟩, _, rfl, ?_⟩
        exact fun i hi hi' => hspec.1.holds i (by omega) (lt_of_lt_of_le hi' hspec.2)
      | err => exact ⟨⟨_, rfl⟩, some_ne_none _, stop - 1, by omega, by omega, hspec⟩
      | panic => exact hspec

/-- The part of a read that is served from the cache. -/
theorem readTail_spec (hstate : Explained zstd aes storage content asked state) {start stop : ℕ}
    (hstart : prefixSize ≤ start) (hlt : start < stop) (hstop : stop ≤ storage.logicalSize) :
    Ensures (readTail zstd aes storage start stop) state
      (fun bytes state' => Cached zstd aes storage content state' ∧
        bytes = window (storage.image zstd aes content) start (stop - start))
      fun error state' => (∃ reason, error = .invalidData reason) ∧ state'.terminalError ≠ none ∧
        ((∃ request ∈ asked, Spoiled zstd storage content request) ∨
          Undecodable zstd storage content start stop) := by
  refine .read ?_
  rcases hstate with hcached | ⟨herror, hspoiled⟩
  · rw [hcached.1]
    change Ensures (ensureOrRemember zstd aes storage start stop >>= _) state _ _
    refine .bind ((ensureOrRemember_spec hstorage hcached hstart hlt hstop).imp ?_ ?_)
    · rintro _ state' ⟨hcached', file, hfile, hholds⟩
      refine .read (.okOr_some hfile ?_)
      obtain ⟨hbound, hread⟩ : start + (stop - start) ≤ file.length ∧
          (file.drop start).take (stop - start) =
            window (storage.image zstd aes content) start (stop - start) :=
        hholds.take_drop le_rfl (by omega) (by omega)
      rw [slice?, if_pos ⟨le_of_lt hlt, by omega⟩, drop_take, hread]
      exact ⟨hcached', rfl⟩
    · rintro error state' ⟨hreason, herror, hbad⟩
      exact ⟨hreason, herror, .inr hbad⟩
  · obtain ⟨reason, hreason⟩ := ne_none_iff_exists'.1 herror
    rw [hreason]
    exact ⟨⟨reason, rfl⟩, herror, .inl hspoiled⟩

/-- The part of a read that is served from the source. -/
theorem readHead_eq {offset stop : ℕ} (hle : offset ≤ stop) :
    readHead storage offset stop = .ok (window (storage.image zstd aes content) offset
      (min stop prefixSize - offset)) := by
  unfold readHead
  split
  · next hlt =>
      have hbound := hstorage.prefix_le
      have hslice : slice? storage.source offset (offset + (min stop prefixSize - offset)) =
          some (window (storage.image zstd aes content) offset
            (offset + (min stop prefixSize - offset) - offset)) := by
        refine slice?_eq_window (by omega) (by omega) fun i hi => ?_
        rw [NczCachedStorage.image, if_pos (by omega)]
      rw [Nat.add_sub_cancel_left] at hslice
      exact orReject_eq_ok.2 hslice
  · rw [show min stop prefixSize - offset = 0 by omega]
    rfl

/-- **One read**: it returns a slice of the image; or it leaves the NCA; or it goes behind the
prefix and is spoiled or comes after a spoiled one. -/
theorem readAt_spec (hstate : Explained zstd aes storage content asked state) (offset length : ℕ) :
    Ensures (readAt zstd aes storage offset length) state
      (fun bytes state' =>
        Explained zstd aes storage content (asked ++ [(offset, length)]) state' ∧
          bytes = window (storage.image zstd aes content) offset length)
      fun error state' =>
        Explained zstd aes storage content (asked ++ [(offset, length)]) state' ∧
          (storage.logicalSize < offset + length ∨
            (∃ reason, error = .invalidData reason) ∧ 0 < length ∧ prefixSize < offset + length ∧
              ∃ request ∈ asked ++ [(offset, length)], Spoiled zstd storage content request) := by
  have hmax := hstorage.size_le
  refine .okOr (fun stop hadd => ?_) ?_
  swap
  · intro hnone
    have := checkedAdd_eq_none.1 hnone
    exact ⟨hstate.append, .inl (by omega)⟩
  · obtain ⟨rfl, -⟩ := checkedAdd_eq_some.1 hadd
    refine .failIf (fun hbound => ?_) ?_
    swap
    · intro hout
      exact ⟨hstate.append, .inl (by simpa using hout)⟩
    · have hbound : offset + length ≤ storage.logicalSize := by simpa using hbound
      by_cases hempty : length = 0
      · rw [hempty]
        exact ⟨hstate.append, rfl⟩
      · rw [if_neg hempty, readHead_eq hstorage (Nat.le_add_right offset length)]
        change Ensures (if _ then _ else _) state _ _
        rw [length_window]
        by_cases hall : min (offset + length) prefixSize - offset = length
        · rw [if_pos hall, hall]
          exact ⟨hstate.append, rfl⟩
        · rw [if_neg hall]
          refine .bind ((readTail_spec hstorage hstate (le_max_right _ _) (by omega)
            hbound).imp ?_ ?_)
          · rintro bytes state' ⟨hstate', rfl⟩
            exact ⟨.inl hstate', window_cut (by omega)⟩
          · rintro error state' ⟨hreason, herror, hcause⟩
            have hspoiled : ∃ request ∈ asked ++ [(offset, length)],
                Spoiled zstd storage content request := by
              rcases hcause with ⟨request, hrequest, hspoiled⟩ | hbad
              · exact ⟨request, mem_append_left _ hrequest, hspoiled⟩
              · exact ⟨_, mem_append_right _ (mem_singleton_self _), hbound, hbad⟩
            exact ⟨.inr ⟨herror, hspoiled⟩, .inr ⟨hreason, by omega, by omega, hspoiled⟩⟩

end

/-- The cache of a new storage is consistent. -/
theorem CacheMode.Initial.cachedMode {mode : CacheMode} (h : mode.Initial storage) :
    CachedMode zstd aes storage [] mode.content mode := by
  cases mode with
  | block =>
    obtain ⟨hlayout, rfl⟩ := h
    refine ⟨rfl, hlayout, by simp, ?_⟩
    intro index hindex
    rw [getElem?_replicate] at hindex
    split at hindex
    · cases hindex
    · cases hindex
  | solid compressedOffset compressedEnd decompressedEnd decoder =>
    obtain ⟨hoffset, rfl, rfl⟩ := h
    refine ⟨rfl, rfl, hoffset, Nat.zero_le _, holds_empty, ?_, fun _ => .inl rfl⟩
    intro decoder hdecoder
    cases hdecoder

end Reads

/-! ### Sequences of reads -/

/-- The storage of the NCA, as a machine: a read at an offset, of a length. -/
def machine (zstd : List UInt8 → ZstdStream) (aes : List UInt8 → List UInt8 → Vector UInt8 16)
    (storage : NczCachedStorage) :
    Machine CacheState (ℕ × ℕ) (Outcome StorageError (List UInt8)) where
  step state request := readAt zstd aes storage request.1 request.2 state

section Runs

variable {zstd : List UInt8 → ZstdStream} {aes : List UInt8 → List UInt8 → Vector UInt8 16}
  {storage : NczCachedStorage} {content : Content}

/-- After any reads the cache holds parts of the image, or one of them was spoiled. -/
theorem run_explained (hstorage : storage.WellFormed) :
    ∀ (earlier asked : List (ℕ × ℕ)) (state : CacheState),
      Explained zstd aes storage content asked state →
      Explained zstd aes storage content (asked ++ earlier)
        ((machine zstd aes storage).run state earlier) := by
  intro earlier
  induction earlier with
  | nil =>
    intro asked state hstate
    exact hstate.append
  | cons request earlier ih =>
    intro asked state hstate
    have hnext : Explained zstd aes storage content (asked ++ [request])
        ((machine zstd aes storage).step state request).2 :=
      (readAt_spec hstorage hstate request.1 request.2).state (fun _ _ h => h.1) fun _ _ h => h.1
    simpa using ih _ _ hnext

end Runs

/-- The answer to a read after earlier ones. -/
def answerAfter (zstd : List UInt8 → ZstdStream)
    (aes : List UInt8 → List UInt8 → Vector UInt8 16) (archive : NczArchive)
    (earlier : List (ℕ × ℕ)) (request : ℕ × ℕ) : Outcome StorageError (List UInt8) :=
  ((machine zstd aes archive.ncaStorage).step
    ((machine zstd aes archive.ncaStorage).run archive.state earlier) request).1

/-- **A compressed NCA is one immutable image.**  For every NCZ that the parser accepts there is one
byte string, of the size of the NCA: the prefix of the source, and then the decompressed bytes, each
of them encrypted once as its section says; bytes outside of the sections are not encrypted.
Whatever was read before, each read in the range of the NCA returns the corresponding slice of it.
A read fails only if it goes behind the prefix, and it or an earlier read asked for a byte that does
not decompress as the metadata declares. -/
theorem reads_return_image (zstd : List UInt8 → ZstdStream)
    (aes : List UInt8 → List UInt8 → Vector UInt8 16) (source : List UInt8) (archive : NczArchive)
    (hparse : parseNcz source = .ok archive) :
    ∃ image : List UInt8, image.length = archive.logicalSize ∧
      (∀ i < prefixSize, image[i]? = source[i]?) ∧
      (∀ i, prefixSize ≤ i → i < archive.logicalSize →
        (∀ sec ∈ archive.sections, sec.contains i = true → image[i]? = some (sec.cryptByte aes i
            (archive.ncaStorage.plainByte zstd archive.state.mode.content (i - prefixSize)))) ∧
        ((∀ sec ∈ archive.sections, sec.contains i = false) → image[i]? = some
            (archive.ncaStorage.plainByte zstd archive.state.mode.content (i - prefixSize)))) ∧
      ∀ (earlier : List (ℕ × ℕ)) (offset length : ℕ), offset + length ≤ archive.logicalSize →
        answerAfter zstd aes archive earlier (offset, length) =
            .ok ((image.drop offset).take length) ∨
          (∃ reason, answerAfter zstd aes archive earlier (offset, length) =
              .err (.invalidData reason)) ∧
            0 < length ∧ prefixSize < offset + length ∧
              ∃ request ∈ earlier ++ [(offset, length)],
                Spoiled zstd archive.ncaStorage archive.state.mode.content request := by
  have hfacts := parseNcz_facts hparse
  obtain ⟨rfl, hsize⟩ : archive.ncaStorage.source = source ∧
      archive.ncaStorage.logicalSize = archive.logicalSize := ⟨hfacts.source_eq, hfacts.size_eq⟩
  have hprefix := hfacts.storage.contiguous.le
  have hsource := hfacts.storage.prefix_le
  refine ⟨window (archive.ncaStorage.image zstd aes archive.state.mode.content) 0
    archive.logicalSize, length_window, ?_, ?_, ?_⟩
  · intro i hi
    rw [getElem?_window (by omega), zero_add, NczCachedStorage.image, if_pos hi,
      getD_eq_getElem?_getD, getElem?_eq_getElem (by omega), getD_some]
  · intro i hle hlt
    obtain ⟨hin, hout⟩ := hfacts.cryptByte_eq
    rw [getElem?_window hlt, zero_add, image_eq_cryptByte hle]
    refine ⟨fun sec hsec hcontains => ?_, fun hnone => ?_⟩
    · rw [hin sec hsec hcontains]
    · rw [hout hnone]
      rfl
  · intro earlier offset length hbound
    have hinitial : Explained zstd aes archive.ncaStorage archive.state.mode.content []
        archive.state := by
      refine .inl ⟨hfacts.terminalError_eq, ?_⟩
      rw [hfacts.file_eq]
      exact hfacts.mode.cachedMode
    have hslice : ((window (archive.ncaStorage.image zstd aes archive.state.mode.content) 0
          archive.logicalSize).drop offset).take length =
        window (archive.ncaStorage.image zstd aes archive.state.mode.content) offset length := by
      refine take_drop_eq_window (by rw [length_window]; exact hbound) fun i hi => ?_
      rw [getD_eq_getElem?_getD, getElem?_window (by omega), zero_add, getD_some]
    rw [hslice]
    rcases (readAt_spec hfacts.storage (run_explained hfacts.storage earlier [] _ hinitial) offset
      length).ok_or_err with ⟨bytes, hrun, -, rfl⟩ | ⟨error, hrun, -, hout⟩
    · exact .inl hrun
    · rcases hout with hout | ⟨⟨reason, rfl⟩, hcause⟩
      · omega
      · exact .inr ⟨⟨reason, hrun⟩, hcause⟩

/-! ### An NCZ with a block and two sections -/

/-- The key and the counter of the example vectors for AES-128 in counter mode. -/
def sampleKey : List UInt8 :=
  [0x2b, 0x7e, 0x15, 0x16, 0x28, 0xae, 0xd2, 0xa6, 0xab, 0xf7, 0x15, 0x88, 0x09, 0xcf, 0x4f, 0x3c]

def sampleCounter : List UInt8 :=
  [0xf0, 0xf1, 0xf2, 0xf3, 0xf4, 0xf5, 0xf6, 0xf7, 0xf8, 0xf9, 0xfa, 0xfb, 0xfc, 0xfd, 0xfe, 0xff]

/-- The two sections: 32 bytes in counter mode, and 32 bytes that are not encrypted. -/
def sampleSections : List NczSection :=
  [⟨0x4000, 0x20, 3, sampleKey, sampleCounter⟩,
    ⟨0x4020, 0x20, 1, replicate 16 0, replicate 16 0⟩]

/-- A Zstandard frame of 64 times the letter `A`, in one block of run-length type. -/
def sampleFrame : List UInt8 := [0x28, 0xb5, 0x2f, 0xfd, 0x20, 0x40, 0x03, 0x02, 0x00, 0x41]

/-- `value.to_le_bytes()` for `u64`. -/
def leBytes (value : ℕ) : List UInt8 := (beBytes value).reverse

/-- What follows the prefix: the section table, the header and the table of the blocks, and the
frame. -/
def sampleBody : List UInt8 :=
  sectionMagic ++ leBytes sampleSections.length ++
    (sampleSections.flatMap fun sec => leBytes sec.offset ++ leBytes sec.size ++
      leBytes sec.cryptoType ++ leBytes 0 ++ sec.cryptoKey ++ sec.cryptoCounter) ++
    blockMagic ++ [2, 1, 0, 14] ++ [1, 0, 0, 0] ++ leBytes 0x40 ++ [10, 0, 0, 0] ++ sampleFrame

def sampleSource : List UInt8 := replicate prefixSize 0 ++ sampleBody

def sampleLayout : BlockLayout where
  blockSize := 0x4000
  decompressedSize := 0x40
  compressedSizes := [10]
  compressedOffsets := [0x40ac]

/-- What a decoder gives for the frame. -/
def sampleZstd (input : List UInt8) : ZstdStream :=
  if input = sampleFrame then ⟨replicate 0x40 0x41, .ok sampleFrame.length⟩
  else ⟨[], .error "Unknown frame descriptor"⟩

/-- AES-128 on the two blocks of the section. -/
def sampleAes (key block : List UInt8) : Vector UInt8 16 :=
  if key = sampleKey ∧ block = counterBlock (sampleCounter.take 8) 0x400 then
    #v[0x0f, 0xb3, 0x11, 0x28, 0xe6, 0x9a, 0xb9, 0x21,
      0x54, 0x06, 0xa4, 0xb8, 0x61, 0x8b, 0xfd, 0x8a]
  else if key = sampleKey ∧ block = counterBlock (sampleCounter.take 8) 0x401 then
    #v[0xb0, 0x42, 0x79, 0x7b, 0x90, 0x00, 0xfe, 0x60,
      0x8b, 0x47, 0x35, 0x38, 0xec, 0x17, 0x7c, 0x90]
  else Vector.replicate 16 0

/-- Content that does not decompress. -/
def corruptStream (_ : List UInt8) : ZstdStream where
  output := []
  ending := .error "corrupt"

/-- The sample is accepted, and a read behind the prefix fails if its block does not decompress. -/
theorem parseNcz_sample : ∃ archive, parseNcz sampleSource = .ok archive ∧
    archive.sections = sampleSections ∧ archive.logicalSize = 0x4040 ∧
      archive.state.mode.content = .block sampleLayout ∧
        (answerAfter corruptStream sampleAes archive [] (0x4000, 1)).value = none := by
  have hparsed : ((parseNcz sampleSource).value.map fun archive =>
      (archive.sections, archive.logicalSize, archive.state.mode.content,
        (answerAfter corruptStream sampleAes archive [] (0x4000, 1)).value)) =
        some (sampleSections, 0x4040, .block sampleLayout, none) := by
    decide +kernel
  obtain ⟨archive, hvalue, hfacts⟩ := map_eq_some_iff.1 hparsed
  simp only [Prod.mk.injEq] at hfacts
  exact ⟨archive, Outcome.value_eq_some.1 hvalue, hfacts⟩

/-- The block of the sample decodes to its 64 letters. -/
theorem blockStream_sample {storage : NczCachedStorage} (hsource : storage.source = sampleSource) :
    storage.blockStream sampleZstd sampleLayout 0 =
      ⟨replicate 0x40 0x41, .ok sampleFrame.length⟩ := by
  have hframe : field sampleSource 0x40ac 10 = sampleFrame := by decide +kernel
  unfold NczCachedStorage.blockStream NczCachedStorage.streamAt
  rw [hsource]
  exact (congrArg sampleZstd hframe).trans (if_pos rfl)

/-- Every read from the sample succeeds, whatever was read before; its first letter is encrypted,
that of the second section is not. -/
theorem reads_return_image_sample :
    ∃ archive, parseNcz sampleSource = .ok archive ∧ ∃ image : List UInt8,
      image.length = 0x4040 ∧ image[0x4000]? = some 0x4e ∧ image[0x4020]? = some 0x41 ∧
        ∀ (earlier : List (ℕ × ℕ)) (offset length : ℕ), offset + length ≤ 0x4040 →
          answerAfter sampleZstd sampleAes archive earlier (offset, length) =
            .ok ((image.drop offset).take length) := by
  obtain ⟨archive, hparse, hsections, hsize, hcontent, -⟩ := parseNcz_sample
  have hfacts := parseNcz_facts hparse
  have hstream := blockStream_sample hfacts.source_eq
  obtain ⟨image, hlength, -, hbytes, hreads⟩ :=
    reads_return_image sampleZstd sampleAes sampleSource archive hparse
  have hprefix : prefixSize = 0x4000 := by
    unfold prefixSize
    rfl
  rw [hsections, hsize, hcontent, hprefix] at hbytes
  rw [hsize, hcontent] at hreads
  have hplain : ∀ i < 0x40, archive.ncaStorage.plainByte sampleZstd (.block sampleLayout) i =
      0x41 := by
    intro i hi
    have hindex : i / sampleLayout.blockSize = 0 := Nat.div_eq_of_lt (hi.trans (by decide))
    have hwithin : i % sampleLayout.blockSize = i := Nat.mod_eq_of_lt (hi.trans (by decide))
    simp only [NczCachedStorage.plainByte, hindex, hwithin, hstream]
    rw [if_neg (by decide), getD_eq_getElem?_getD, getElem?_replicate, if_pos hi]
    rfl
  refine ⟨archive, hparse, image, hlength.trans hsize, ?_, ?_,
    fun earlier offset length hbound => ?_⟩
  · rw [(hbytes 0x4000 (by omega) (by omega)).1 _ mem_cons_self (by decide), hplain _ (by omega)]
    decide +kernel
  · rw [(hbytes 0x4020 (by omega) (by omega)).1 _ (mem_cons_of_mem _ mem_cons_self) (by decide),
      hplain _ (by omega)]
    decide +kernel
  · rcases hreads earlier offset length hbound with
      hok | ⟨-, -, -, request, -, hrange, i, hle, hlt, hbad⟩
    · exact hok
    · refine absurd (fun _ => ?_) hbad
      have hindex : (i - prefixSize) / sampleLayout.blockSize = 0 :=
        Nat.div_eq_of_lt
          (lt_of_lt_of_le (by have := hfacts.size_eq; omega) (show 0x40 ≤ _ by decide))
      rw [hindex, hstream]
      decide

/-- **The parser accepts content that does not decompress**: no image is returned by all reads. -/
theorem corrupt_content_accepted :
    ∃ archive, parseNcz sampleSource = .ok archive ∧ ¬ ∃ image : List UInt8,
      ∀ (earlier : List (ℕ × ℕ)) (offset length : ℕ), offset + length ≤ archive.logicalSize →
        answerAfter corruptStream sampleAes archive earlier (offset, length) =
          .ok ((image.drop offset).take length) := by
  obtain ⟨archive, hparse, -, hsize, -, hfail⟩ := parseNcz_sample
  refine ⟨archive, hparse, ?_⟩
  rintro ⟨image, hreads⟩
  rw [hreads [] 0x4000 1 (by omega)] at hfail
  cases hfail

end Nixe.Ncz
