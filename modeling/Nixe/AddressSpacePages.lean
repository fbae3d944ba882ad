/-
**The calls of the address space on the page table.**

What a GPU sees of an address space is a page table: for each address, the byte of retained memory
behind it with its permissions and attributes, or nothing.  The table of mappings is a compressed
form of this partial function, and cutting a mapping must not be visible in it.

Main definitions:

* `Translation`, `translate` — the page table;
* `PageEntry`, `entry` — the page table with the mapping that each byte belongs to;
* `Shows` — the entry that a set of mappings has at an address.

Main results:

* `remains_shows`, `modified_shows` — cutting is invisible;
* `remapped_shows` — the page table after a list of remap entries;
* `calls_refine_page_table` — **the refinement**.
-/

import Nixe.AddressSpaceRuns

set_option autoImplicit false

namespace Nixe.AddressSpace

open Intervals List MaxwellGpuMapping
open Intervals.Ranged (lo hi)

/-! ### The page table -/

/-- What the GPU finds behind an address. -/
structure Translation where
  allocation : ℕ
  backing : CanonicalBackingRange
  backingByte : ℕ
  permissions : MemoryPermissions
  kind : ℕ
  cacheable : Bool
deriving DecidableEq, Repr

/-- A byte of the page table, with the mapping it belongs to and the offset under which the guest
unmaps that mapping. -/
structure PageEntry where
  id : ℕ
  unmapOffset : GpuVirtualAddress
  translation : Translation
deriving DecidableEq, Repr

/-- The entry that a mapping has at an address of its range. -/
def MaxwellGpuMapping.entryAt (m : MaxwellGpuMapping) (a : ℕ) : PageEntry where
  id := m.id
  unmapOffset := m.unmapOffset
  translation :=
    { allocation := m.allocation
      backing := m.backing
      backingByte := m.backingOffset + (a - m.offset)
      permissions := m.permissions
      kind := m.kind
      cacheable := m.cacheable }

/-- The entry with other attributes. -/
def PageEntry.recolour (e : PageEntry) (kind : ℕ) (cacheable : Bool) : PageEntry :=
  { e with translation := { e.translation with kind, cacheable } }

variable (s : MaxwellGpuAddressSpace) {a start stop generation kind pageSize : ℕ} {e : PageEntry}
  {m : MaxwellGpuMapping} {S : Set MaxwellGpuMapping} {cacheable : Bool}
  {request : MaxwellSparseRemapRequest} {requests : List MaxwellSparseRemapRequest}

def entry (a : ℕ) : Option PageEntry :=
  (at? s.mappings a).map fun m => m.entryAt a

def translate (a : ℕ) : Option Translation :=
  (entry s a).map PageEntry.translation

/-- The mapping that an address belongs to. -/
def owner (a : ℕ) : Option ℕ := (entry s a).map PageEntry.id

/-- The byte that a remap entry with a source asks for. -/
def MaxwellSparseMapping.translation (source : MaxwellSparseMapping) (offset a : ℕ) :
    Translation where
  allocation := source.allocation
  backing := source.backing
  backingByte := source.backingOffset + (a - offset)
  permissions := source.permissions
  kind := source.kind
  cacheable := source.cacheable

/-- The byte that a request for a mapping at an offset asks for. -/
def MaxwellMapRequest.translation (request : MaxwellMapRequest) (offset a : ℕ) : Translation where
  allocation := request.allocation
  backing := request.backing
  backingByte := request.backingOffset + (a - offset)
  permissions := request.permissions
  kind := request.kind
  cacheable := request.cacheable

/-! ### Sets of mappings -/

/-- One of the mappings has the entry at the address. -/
def Shows (S : Set MaxwellGpuMapping) (a : ℕ) (e : PageEntry) : Prop :=
  ∃ m ∈ S, Covers m a ∧ m.entryAt a = e

theorem entry_eq_some {s : MaxwellGpuAddressSpace} (hs : Sound s.mappings) :
    entry s a = some e ↔ Shows (live s.mappings) a e := by
  simp [entry, hs.at?_eq_some, Shows, and_assoc]

/-- The page table is determined by what the mappings show. -/
theorem entry_eq {t : MaxwellGpuAddressSpace} (ht : Sound t.mappings) {o : Option PageEntry}
    (h : ∀ e, Shows (live t.mappings) a e ↔ o = some e) : entry t a = o := by
  ext e
  rw [entry_eq_some ht, h e]

theorem shows_insert : Shows (insert m S) a e ↔ (Covers m a ∧ m.entryAt a = e) ∨ Shows S a e := by
  constructor
  · rintro ⟨w, rfl | hw, hwa, he⟩
    · exact .inl ⟨hwa, he⟩
    · exact .inr ⟨w, hw, hwa, he⟩
  · rintro (⟨hma, he⟩ | ⟨w, hw, hwa, he⟩)
    · exact ⟨m, .inl rfl, hma, he⟩
    · exact ⟨w, .inr hw, hwa, he⟩

/-- A piece shows the bytes of the mapping it was cut from. -/
theorem MaxwellGpuMapping.entryAt_slice (hlo : lo m ≤ start) (ha : start ≤ a) :
    (m.slice start stop generation).entryAt a = m.entryAt a := by
  have hsum : start - m.offset + (a - start) = a - m.offset := by
    rw [lo_eq] at hlo
    omega
  simp [entryAt, slice, add_assoc, hsum]

theorem MaxwellGpuMapping.covers_slice :
    Covers (m.slice start stop generation) a ↔ start ≤ a ∧ a < stop := by
  unfold Covers
  rw [lo_slice, hi_slice]
  omega

theorem MaxwellGpuMapping.entryAt_recoloured (ha : max (lo m) start ≤ a) :
    (m.recoloured start stop kind cacheable generation).entryAt a =
      (m.entryAt a).recolour kind cacheable := by
  have hsum : max (lo m) start - m.offset + (a - max (lo m) start) = a - m.offset := by
    rw [lo_eq] at *
    omega
  simp [entryAt, recoloured, slice, PageEntry.recolour, add_assoc, hsum]

theorem MaxwellGpuMapping.covers_recoloured :
    Covers (m.recoloured start stop kind cacheable generation) a ↔
      max (lo m) start ≤ a ∧ a < min (hi m) stop := by
  unfold Covers
  rw [lo_recoloured, hi_recoloured]
  omega

/-- **Cutting out a range is invisible elsewhere.** -/
theorem remains_shows (hstart : start < hi m) (hstop : lo m < stop) :
    (∃ w ∈ m.remains start stop generation, Covers w a ∧ w.entryAt a = e) ↔
      (Covers m a ∧ m.entryAt a = e) ∧ ¬ (start ≤ a ∧ a < stop) := by
  constructor
  · rintro ⟨w, hw, hwa, rfl⟩
    rw [remains, mem_append] at hw
    rcases hw with hw | hw <;> split at hw
    · obtain rfl := mem_singleton.1 hw
      rw [covers_slice] at hwa
      refine ⟨⟨⟨hwa.1, hwa.2.trans hstart⟩, ?_⟩, by omega⟩
      exact (entryAt_slice le_rfl hwa.1).symm
    · simp at hw
    · obtain rfl := mem_singleton.1 hw
      rw [covers_slice] at hwa
      refine ⟨⟨⟨hstop.le.trans hwa.1, hwa.2⟩, ?_⟩, by omega⟩
      exact (entryAt_slice hstop.le hwa.1).symm
    · simp at hw
  · rintro ⟨⟨⟨hlo, hhi⟩, rfl⟩, hout⟩
    by_cases hleft : a < start
    · refine ⟨m.slice (lo m) start generation, ?_, ?_, ?_⟩
      · simp [remains, hlo.trans_lt hleft]
      · exact covers_slice.2 ⟨hlo, hleft⟩
      · exact entryAt_slice le_rfl hlo
    · have hright : stop ≤ a := by omega
      refine ⟨m.slice stop (hi m) generation, ?_, ?_, ?_⟩
      · simp [remains, hright.trans_lt hhi]
      · exact covers_slice.2 ⟨hright, hhi⟩
      · exact entryAt_slice hstop.le hright

/-- **Changing attributes is invisible outside of the range**, and changes nothing else in it. -/
theorem modified_shows (hproper : lo m < hi m) (hstart : start < hi m) (hstop : lo m < stop) :
    (∃ w ∈ m.modified start stop kind cacheable generation, Covers w a ∧ w.entryAt a = e) ↔
      Covers m a ∧ e = if start ≤ a ∧ a < stop then (m.entryAt a).recolour kind cacheable
        else m.entryAt a := by
  constructor
  · rintro ⟨w, hw, hwa, rfl⟩
    rw [modified, mem_append, mem_append] at hw
    rcases hw with (hw | hw) | hw
    · split at hw
      · obtain rfl := mem_singleton.1 hw
        rw [covers_slice] at hwa
        rw [if_neg (by omega)]
        exact ⟨⟨hwa.1, by omega⟩, entryAt_slice le_rfl hwa.1⟩
      · simp at hw
    · obtain rfl := mem_singleton.1 hw
      rw [covers_recoloured] at hwa
      rw [if_pos (by omega)]
      exact ⟨⟨by omega, by omega⟩, entryAt_recoloured hwa.1⟩
    · split at hw
      · obtain rfl := mem_singleton.1 hw
        rw [covers_slice] at hwa
        rw [if_neg (by omega)]
        exact ⟨⟨by omega, hwa.2⟩, entryAt_slice (by omega) hwa.1⟩
      · simp at hw
  · rintro ⟨⟨hlo, hhi⟩, rfl⟩
    by_cases hleft : a < max (lo m) start
    · refine ⟨m.slice (lo m) (max (lo m) start) generation, ?_, ?_, ?_⟩
      · simp [modified, hlo.trans_lt hleft]
      · exact covers_slice.2 ⟨hlo, hleft⟩
      · rw [if_neg (by omega)]
        exact entryAt_slice le_rfl hlo
    · by_cases hright : min (hi m) stop ≤ a
      · refine ⟨m.slice (min (hi m) stop) (hi m) generation, ?_, ?_, ?_⟩
        · simp [modified, hright.trans_lt hhi]
        · exact covers_slice.2 ⟨hright, hhi⟩
        · rw [if_neg (by omega)]
          exact entryAt_slice (by omega) hright
      · refine ⟨m.recoloured start stop kind cacheable generation, ?_, ?_, ?_⟩
        · simp [modified]
        · exact covers_recoloured.2 ⟨by omega, by omega⟩
        · rw [if_pos (by omega)]
          exact entryAt_recoloured (by omega)

/-- A remap entry takes its addresses away, and no others. -/
theorem punched_shows :
    Shows (punched generation request S) a e ↔ Shows S a e ∧ ¬ Covers request a := by
  constructor
  · rintro ⟨w, ⟨hw, hout⟩ | ⟨m, hm, hover, hw⟩, hwa, he⟩
    · refine ⟨⟨w, hw, hwa, he⟩, ?_⟩
      unfold Covers at *
      omega
    · obtain ⟨hma, hout⟩ := (remains_shows hover.1 hover.2).1 ⟨w, hw, hwa, he⟩
      exact ⟨⟨m, hm, hma⟩, hout⟩
  · rintro ⟨⟨m, hm, hma⟩, hout⟩
    by_cases hover : lo request < hi m ∧ lo m < hi request
    · obtain ⟨w, hw, hwa⟩ := (remains_shows hover.1 hover.2).2 ⟨hma, hout⟩
      exact ⟨w, .inr ⟨m, hm, hover, hw⟩, hwa⟩
    · exact ⟨m, .inl ⟨hm, hover⟩, hma⟩

/-- The mappings that a list of remap entries installs. -/
def installed (pageSize generation : ℕ) : ℕ → List MaxwellSparseRemapRequest →
    List MaxwellGpuMapping
  | _, [] => []
  | mappingId, request :: requests =>
    match request.mapping with
    | none => installed pageSize generation mappingId requests
    | some source => remapMapping pageSize generation mappingId request source ::
        installed pageSize generation (mappingId + 1) requests

/-- Each entry with a source installs a mapping, and nothing else is installed. -/
theorem mem_installed : ∀ {mappingId : ℕ},
    m ∈ installed pageSize generation mappingId requests → ∃ request ∈ requests, ∃ source,
      request.mapping = some source ∧ m = remapMapping pageSize generation m.id request source ∧
      mappingId ≤ m.id := by
  induction requests with
  | nil => intro mappingId hm; simp [installed] at hm
  | cons request requests ih =>
    intro mappingId hm
    rcases hsource : request.mapping with _ | source
    · rw [installed, hsource] at hm
      obtain ⟨q, hq, hrest⟩ := ih hm
      exact ⟨q, by simp [hq], hrest⟩
    · rw [installed, hsource] at hm
      rcases mem_cons.1 hm with rfl | hm
      · exact ⟨request, by simp, source, hsource, rfl, le_rfl⟩
      · obtain ⟨q, hq, source', hsource', heq, hle⟩ := ih hm
        exact ⟨q, by simp [hq], source', hsource', heq, by omega⟩

theorem exists_installed {source : MaxwellSparseMapping} (hsource : request.mapping = some source) :
    ∀ (mappingId : ℕ), request ∈ requests →
    ∃ newId, remapMapping pageSize generation newId request source ∈
      installed pageSize generation mappingId requests := by
  induction requests with
  | nil => intro mappingId hmem; simp at hmem
  | cons q requests ih =>
    intro mappingId hmem
    rcases mem_cons.1 hmem with rfl | hmem
    · exact ⟨mappingId, by simp [installed, hsource]⟩
    · rcases hq : q.mapping with _ | source'
      · obtain ⟨newId, hnew⟩ := ih mappingId hmem
        exact ⟨newId, by simpa [installed, hq] using hnew⟩
      · obtain ⟨newId, hnew⟩ := ih (mappingId + 1) hmem
        exact ⟨newId, by simp [installed, hq, hnew]⟩

/-- **The page table after a list of remap entries.**  The new mappings show their bytes; where no
entry covers an address, it shows what it showed before. -/
theorem remapped_shows : ∀ {S : Set MaxwellGpuMapping} {mappingId : ℕ}, requests.Pairwise Apart →
      (Shows (remapped pageSize generation S mappingId requests) a e ↔
        (∃ m ∈ installed pageSize generation mappingId requests, Covers m a ∧ m.entryAt a = e) ∨
        Shows S a e ∧ ∀ request ∈ requests, ¬ Covers request a) := by
  induction requests with
  | nil => simp [remapped, installed]
  | cons request requests ih =>
    intro S mappingId hpairs
    obtain ⟨hhead, hpairs⟩ := pairwise_cons.1 hpairs
    -- the entries do not overlap, so that a later one does not undo this one
    have honly : Covers request a → ∀ q ∈ requests, ¬ Covers q a := fun hr q hq =>
      (hhead q hq).not_covers hr
    rcases hsource : request.mapping with _ | source
    · rw [remapped, hsource, ih hpairs, punched_shows, installed, hsource, and_assoc]
      simp only [forall_mem_cons]
    · have hcovers : ∀ {i : ℕ}, Covers (remapMapping pageSize generation i request source) a ↔
          Covers request a := Iff.rfl
      rw [remapped, hsource, ih hpairs, shows_insert, punched_shows, installed, hsource]
      simp only [exists_mem_cons_iff, forall_mem_cons, hcovers]
      constructor
      · rintro (hnew | ⟨⟨hr, he⟩ | ⟨hold, hr⟩, hrest⟩)
        · exact .inl (.inr hnew)
        · exact .inl (.inl ⟨hr, he⟩)
        · exact .inr ⟨hold, hr, hrest⟩
      · rintro ((⟨hr, he⟩ | hnew) | ⟨hold, hr, hrest⟩)
        · exact .inr ⟨.inl ⟨hr, he⟩, honly hr⟩
        · exact .inl hnew
        · exact .inr ⟨.inr ⟨hold, hr⟩, hrest⟩

/-! ### The refinement -/

/-- What the calls that change mappings do to the page table of the address space. -/
structure RefinesPageTable (s : MaxwellGpuAddressSpace) : Prop where
  /-- A remap changes the addresses of its entries, to the bytes of their sources or to nothing. -/
  remapSparse : ∀ requests t, remapSparse requests s = (.ok (), t) →
    (∀ request ∈ requests, ∀ a, Covers request a →
      translate t a = request.mapping.map fun source => source.translation request.offset a) ∧
    ∀ a, (∀ request ∈ requests, ¬ Covers request a) → entry t a = entry s a
  /-- A modification changes attributes of one mapping, in the range that was asked for. -/
  modifyMapping : ∀ unmapOffset withinMapping size kind cacheable t,
    modifyMapping unmapOffset withinMapping size kind cacheable s = (.ok (), t) →
    ∃ id, namedBy s unmapOffset = some id ∧
      (∀ a, unmapOffset + withinMapping ≤ a → a < unmapOffset + withinMapping + size →
        owner s a = some id ∧
          entry t a = (entry s a).map fun e => e.recolour kind cacheable) ∧
      ∀ a, a < unmapOffset + withinMapping ∨ unmapOffset + withinMapping + size ≤ a →
        entry t a = entry s a
  /-- A new mapping appears where nothing was mapped, under an id that was not in use. -/
  map : ∀ request m t, map request s = (.ok m, t) →
    (∀ a, owner s a ≠ some m.id) ∧
    (∀ a, Covers m a → entry s a = none ∧ owner t a = some m.id ∧
      translate t a = some (request.translation m.offset a)) ∧
    ∀ a, ¬ Covers m a → entry t a = entry s a
  /-- An unmap removes the bytes of one id, or nothing if the offset names no mapping. -/
  unmap : ∀ offset removed t, unmap offset s = (.ok removed, t) →
    (namedBy s offset = none ∧ removed = [] ∧ t = s) ∨
    ∃ id, namedBy s offset = some id ∧ (∀ m, m ∈ removed ↔ m ∈ live s.mappings ∧ m.id = id) ∧
      (∀ a, owner s a = some id → entry t a = none) ∧
      ∀ a, owner s a ≠ some id → entry t a = entry s a

section Refinement

variable {s t : MaxwellGpuAddressSpace}

section

variable (hs : WellFormed s) {unmapOffset withinMapping : ℕ}
include hs

theorem owner_eq_some {id : ℕ} :
    owner s a = some id ↔ ∃ m ∈ live s.mappings, Covers m a ∧ m.id = id := by
  rw [owner, Option.map_eq_some_iff]
  constructor
  · rintro ⟨e, he, rfl⟩
    obtain ⟨m, hm, hma, rfl⟩ := (entry_eq_some hs.mappings).1 he
    exact ⟨m, hm, hma, rfl⟩
  · rintro ⟨m, hm, hma, rfl⟩
    exact ⟨m.entryAt a, (entry_eq_some hs.mappings).2 ⟨m, hm, hma, rfl⟩, rfl⟩

theorem remap_refines
    (h : Effect s (.remapSparse requests) .done t) : (∀ request ∈ requests, ∀ a, Covers request a →
      translate t a = request.mapping.map fun source => source.translation request.offset a) ∧
    ∀ a, (∀ request ∈ requests, ¬ Covers request a) → entry t a = entry s a := by
  cases h with
  | @remapped _ _ pageSize hvalid hapart ht =>
    have hshows : ∀ a e, Shows (live t.mappings) a e ↔
        (∃ m ∈ installed pageSize (s.mappingGeneration + 1) s.nextMappingId requests,
          Covers m a ∧ m.entryAt a = e) ∨
        Shows (live s.mappings) a e ∧ ∀ request ∈ requests, ¬ Covers request a := by
      intro a e
      rw [ht.mappings_eq]
      exact remapped_shows hapart
    refine ⟨?_, ?_⟩
    · intro request hrequest a ha
      rcases hsource : request.mapping with _ | source
      · have hnone : entry t a = none := by
          refine entry_eq ht.sound_mappings fun e => ?_
          rw [hshows]
          refine iff_of_false ?_ (by simp)
          rintro (⟨m, hm, hma, _⟩ | ⟨_, hout⟩)
          · obtain ⟨q, hq, source, hqsource, heq, _⟩ := mem_installed hm
            have hqa : Covers q a := by
              rw [heq] at hma
              exact hma
            have hne : request ≠ q := by
              rintro rfl
              simp [hsource] at hqsource
            exact (hapart.forall hrequest hq hne).not_covers ha hqa
          · exact hout request hrequest ha
        simp [translate, hnone]
      · obtain ⟨newId, hnew⟩ := exists_installed hsource
          s.nextMappingId hrequest
        have hsome := (entry_eq_some ht.sound_mappings).2
          ((hshows a _).2 (Or.inl ⟨_, hnew, ha, rfl⟩))
        rw [translate, hsome]
        rfl
    · intro a hout
      refine entry_eq ht.sound_mappings fun e => ?_
      rw [hshows, entry_eq_some hs.mappings]
      constructor
      · rintro (⟨m, hm, hma, _⟩ | ⟨hold, _⟩)
        · obtain ⟨q, hq, source, _, heq, _⟩ := mem_installed hm
          rw [heq] at hma
          exact absurd hma (hout q hq)
        · exact hold
      · intro hold
        exact .inr ⟨hold, hout⟩

/-- A modification recolours the range in the page table. -/
theorem modify_shows {size : ℕ}
    (h : Effect s (.modifyMapping unmapOffset withinMapping size kind cacheable) .done t) (a : ℕ) :
    entry t a = (entry s a).map fun e =>
      if unmapOffset + withinMapping ≤ a ∧ a < unmapOffset + withinMapping + size then
        e.recolour kind cacheable else e := by
  cases h with
  | @modified _ _ _ _ id _ _ hid hsize hcovered ht =>
    refine entry_eq ht.sound_mappings fun e => ?_
    simp only [Option.map_eq_some_iff, entry_eq_some hs.mappings]
    rw [ht.mappings_eq]
    constructor
    · rintro ⟨w, ⟨hw, hout⟩ | ⟨m, hm, ⟨_, hstart, hstop⟩, hw⟩, hwa, he⟩
      · -- a mapping that stays as it is does not meet the range
        refine ⟨w.entryAt a, ⟨w, hw, hwa, rfl⟩, ?_⟩
        rw [if_neg, he]
        rintro ⟨hlo, hhi⟩
        obtain ⟨m, hm, hmid, hma⟩ := hcovered a hlo hhi
        obtain rfl := hs.mappings.tiled.eq_of_covers hw hm hwa hma
        exact hout ⟨hmid, hlo.trans_lt hwa.2, hwa.1.trans_lt hhi⟩
      · have hproper := hs.mappings.tiled.proper m hm
        obtain ⟨hma, rfl⟩ := (modified_shows hproper hstart hstop).1 ⟨w, hw, hwa, he⟩
        exact ⟨m.entryAt a, ⟨m, hm, hma, rfl⟩, rfl⟩
    · rintro ⟨_, ⟨m, hm, hma, rfl⟩, rfl⟩
      by_cases hchange : m.id = id ∧ unmapOffset + withinMapping < hi m ∧
          lo m < unmapOffset + withinMapping + size
      · have hproper := hs.mappings.tiled.proper m hm
        obtain ⟨w, hw, hwa, he⟩ := (modified_shows hproper hchange.2.1 hchange.2.2).2 ⟨hma, rfl⟩
        exact ⟨w, .inr ⟨m, hm, hchange, hw⟩, hwa, he⟩
      · refine ⟨m, .inl ⟨hm, hchange⟩, hma, ?_⟩
        rw [if_neg]
        rintro ⟨hlo, hhi⟩
        obtain ⟨m', hm', hmid, hma'⟩ := hcovered a hlo hhi
        obtain rfl := hs.mappings.tiled.eq_of_covers hm hm' hma hma'
        exact hchange ⟨hmid, hlo.trans_lt hma.2, hma.1.trans_lt hhi⟩

theorem modify_refines {size : ℕ}
    (h : Effect s (.modifyMapping unmapOffset withinMapping size kind cacheable) .done t) :
    ∃ id, namedBy s unmapOffset = some id ∧
      (∀ a, unmapOffset + withinMapping ≤ a → a < unmapOffset + withinMapping + size →
        owner s a = some id ∧ entry t a = (entry s a).map fun e => e.recolour kind cacheable) ∧
      ∀ a, a < unmapOffset + withinMapping ∨ unmapOffset + withinMapping + size ≤ a →
        entry t a = entry s a := by
  have hshows := modify_shows hs h
  cases h with
  | @modified _ _ _ _ id _ _ hid hsize hcovered ht =>
    refine ⟨id, hid, ?_, ?_⟩
    · intro a hlo hhi
      obtain ⟨m, hm, hmid, hma⟩ := hcovered a hlo hhi
      refine ⟨(owner_eq_some hs).2 ⟨m, hm, hma, hmid⟩, ?_⟩
      simp [hshows a, hlo, hhi]
    · intro a hout
      have hnot : ¬ (unmapOffset + withinMapping ≤ a ∧ a < unmapOffset + withinMapping + size) := by
        omega
      simp [hshows a, hnot]

theorem map_refines {request : MaxwellMapRequest}
    (h : Effect s (.map request) (.mapped m) t) : (∀ a, owner s a ≠ some m.id) ∧
    (∀ a, Covers m a → entry s a = none ∧ owner t a = some m.id ∧
      translate t a = some (request.translation m.offset a)) ∧
    ∀ a, ¬ Covers m a → entry t a = entry s a := by
  cases h with
  | mapped hm ht =>
    have hshows : ∀ a e, Shows (live t.mappings) a e ↔
        (Covers m a ∧ m.entryAt a = e) ∨ Shows (live s.mappings) a e := by
      intro a e
      rw [ht.mappings_eq]
      exact shows_insert
    refine ⟨?_, ?_, ?_⟩
    · intro a howner
      obtain ⟨w, hw, _, hid⟩ := (owner_eq_some hs).1 howner
      have hnamed := (hs.valid w hw).named
      rw [hid, hm.id_eq] at hnamed
      exact lt_irrefl _ hnamed
    · intro a ha
      have hnone : entry s a = none := by
        refine entry_eq hs.mappings fun e => iff_of_false ?_ (by simp)
        rintro ⟨w, hw, hwa, _⟩
        exact (hm.apart w hw).not_covers ha hwa
      have hsome : entry t a = some (m.entryAt a) :=
        (entry_eq_some ht.sound_mappings).2 ((hshows a _).2 (.inl ⟨ha, rfl⟩))
      refine ⟨hnone, by rw [owner, hsome]; rfl, ?_⟩
      obtain ⟨h₁, h₂, h₃, h₄, h₅, h₆, h₇⟩ := hm.request_eq
      simp [translate, hsome, entryAt, MaxwellMapRequest.translation, h₁, h₂, h₃, h₅, h₆, h₇]
    · intro a ha
      refine entry_eq ht.sound_mappings fun e => ?_
      rw [hshows, entry_eq_some hs.mappings]
      simp [ha]

theorem unmap_refines {offset : ℕ} {removed : List MaxwellGpuMapping}
    (h : Effect s (.unmap offset) (.unmapped removed) t) :
    (namedBy s offset = none ∧ removed = [] ∧ t = s) ∨
    ∃ id, namedBy s offset = some id ∧ (∀ m, m ∈ removed ↔ m ∈ live s.mappings ∧ m.id = id) ∧
      (∀ a, owner s a = some id → entry t a = none) ∧
      ∀ a, owner s a ≠ some id → entry t a = entry s a := by
  cases h with
  | ignored hnone => exact .inl ⟨hnone, rfl, rfl⟩
  | @unmapped _ id _ _ hid hremoved ht =>
    have hshows : ∀ a e, Shows (live t.mappings) a e ↔
        Shows (live s.mappings) a e ∧ owner s a ≠ some id := by
      intro a e
      rw [ht.mappings_eq]
      constructor
      · rintro ⟨m, ⟨hm, hne⟩, hma, he⟩
        refine ⟨⟨m, hm, hma, he⟩, ?_⟩
        intro howner
        obtain ⟨w, hw, hwa, hwid⟩ := (owner_eq_some hs).1 howner
        obtain rfl := hs.mappings.tiled.eq_of_covers hm hw hma hwa
        exact hne hwid
      · rintro ⟨⟨m, hm, hma, he⟩, hne⟩
        refine ⟨m, ⟨hm, ?_⟩, hma, he⟩
        intro hmid
        exact hne ((owner_eq_some hs).2 ⟨m, hm, hma, hmid⟩)
    refine .inr ⟨id, hid, hremoved, ?_, ?_⟩
    · intro a howner
      refine entry_eq ht.sound_mappings fun e => iff_of_false ?_ (by simp)
      rw [hshows]
      exact fun hold => hold.2 howner
    · intro a hne
      refine entry_eq ht.sound_mappings fun e => ?_
      rw [hshows, entry_eq_some hs.mappings]
      exact and_iff_left hne

end

end Refinement

/-- **The calls refine the page table**, from every address space that can be reached. -/
theorem calls_refine_page_table (id : ℕ) (profile : MaxwellGpuProfile) (cs : List Command) :
    RefinesPageTable (machine.run (.new id profile) cs) := by
  have hs := run_wellFormed id profile cs
  refine ⟨?_, ?_, ?_, ?_⟩
  · intro requests t hrun
    exact remap_refines hs ((remapSparse_ensures hs).of_ok hrun)
  · intro unmapOffset withinMapping size kind cacheable t hrun
    exact modify_refines hs ((modifyMapping_ensures hs).of_ok hrun)
  · intro request m t hrun
    exact map_refines hs ((map_ensures hs).of_ok hrun)
  · intro offset removed t hrun
    exact unmap_refines hs ((unmap_ensures hs).of_ok hrun)

end Nixe.AddressSpace
