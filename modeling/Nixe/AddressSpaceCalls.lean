/-
**What the calls of the address space do.**

Behind the tables an address space is a set of reservations and a set of mappings.  Every call is
described once, by what it does to these sets; an error leaves the address space as it was.

Main definitions:

* `WellFormed` — the invariant of an address space;
* `Becomes` — the sets and counters of an address space after a call;
* `remapped` — the set of mappings after a list of remap entries;
* `Effect` — **the effect of each call that succeeds**.

Main results:

* `call_ensures` — **a call has its effect or is without effect**, and does not panic.
-/

import Nixe.AddressSpaceTables

set_option autoImplicit false

namespace Nixe.AddressSpace

open Std (TreeMap)
open Call (except_bind_eq_ok)
open Intervals List MaxwellGpuMapping
open Intervals.Ranged (lo hi)

/-! ### The invariant -/

/-- The range of the mapping lies in a reservation, or outside of all of them. -/
def Placed (s : MaxwellGpuAddressSpace) (m : MaxwellGpuMapping) : Prop :=
  (∃ r ∈ live s.reservations, Within m r) ∨ ∀ r ∈ live s.reservations, Apart m r

/-- What holds of each mapping of an address space. -/
structure Valid (s : MaxwellGpuAddressSpace) (m : MaxwellGpuMapping) : Prop where
  bounded : hi m ≤ u64Max
  backed : m.backingOffset + m.size ≤ m.backing.size
  named : m.id < s.nextMappingId
  dated : m.generation ≤ s.mappingGeneration
  placed : Placed s m

structure WellFormed (s : MaxwellGpuAddressSpace) : Prop where
  mappings : Sound s.mappings
  reservations : Sound s.reservations
  valid : ∀ m ∈ live s.mappings, Valid s m
  bounded : ∀ r ∈ live s.reservations, hi r ≤ u64Max
  pages : ∀ regions, s.regions = some regions →
    regions.1.pageSize.isPowerOfTwo ∧ regions.2.pageSize.isPowerOfTwo

/-! ### Effects -/

/-- The address space after a call: its reservations, its mappings and its counters. -/
structure Becomes (s t : MaxwellGpuAddressSpace) (reservations : Set MaxwellVaReservation)
    (mappings : Set MaxwellGpuMapping) (nextMappingId mappingGeneration : ℕ) : Prop where
  same : t.id = s.id ∧ t.profile = s.profile ∧ t.regions = s.regions
  sound_reservations : Sound t.reservations
  reservations_eq : live t.reservations = reservations
  sound_mappings : Sound t.mappings
  mappings_eq : live t.mappings = mappings
  nextMappingId_eq : t.nextMappingId = nextMappingId
  mappingGeneration_eq : t.mappingGeneration = mappingGeneration

/-- The mappings without the addresses of the remap entry. -/
def punched (generation : ℕ) (request : MaxwellSparseRemapRequest) (S : Set MaxwellGpuMapping) :
    Set MaxwellGpuMapping :=
  carve S (fun m => lo request < hi m ∧ lo m < hi request)
    (remains (lo request) (hi request) generation)

/-- The mappings after a list of remap entries. -/
def remapped (pageSize generation : ℕ) : Set MaxwellGpuMapping → ℕ →
    List MaxwellSparseRemapRequest → Set MaxwellGpuMapping
  | S, _, [] => S
  | S, mappingId, request :: requests =>
    match request.mapping with
    | none => remapped pageSize generation (punched generation request S) mappingId requests
    | some source => remapped pageSize generation
        (insert (remapMapping pageSize generation mappingId request source)
          (punched generation request S)) (mappingId + 1) requests

/-- The number of mappings that a list of remap entries installs. -/
def sourceCount (requests : List MaxwellSparseRemapRequest) : ℕ :=
  requests.countP fun request => request.mapping.isSome

/-- What is checked of a remap entry. -/
structure Remappable (s : MaxwellGpuAddressSpace) (request : MaxwellSparseRemapRequest) : Prop where
  proper : lo request < hi request
  bounded : hi request ≤ u64Max
  reserved : ∃ r ∈ live s.reservations, Within request r
  backed : ∀ source, request.mapping = some source →
    source.backingOffset + request.size ≤ source.backing.size

/-- What is checked of a new mapping, and what it has from the request. -/
structure Mappable (s : MaxwellGpuAddressSpace) (request : MaxwellMapRequest)
    (m : MaxwellGpuMapping) : Prop where
  proper : lo m < hi m
  bounded : hi m ≤ u64Max
  apart : ∀ m' ∈ live s.mappings, Apart m m'
  placed : Placed s m
  backed : m.backingOffset + m.size ≤ m.backing.size
  id_eq : m.id = s.nextMappingId
  generation_eq : m.generation = s.mappingGeneration + 1
  unmapOffset_eq : m.unmapOffset = m.offset
  request_eq : m.allocation = request.allocation ∧ m.backing = request.backing ∧
    m.backingOffset = request.backingOffset ∧ m.size = request.size ∧
    m.permissions = request.permissions ∧ m.kind = request.kind ∧ m.cacheable = request.cacheable
  fixed_eq : ∀ offset, request.fixedOffset = some offset → m.offset = offset

/-- **The effect of each call that succeeds.** -/
inductive Effect (s : MaxwellGpuAddressSpace) :
    Command → Response → MaxwellGpuAddressSpace → Prop where
  | initialized {request : MaxwellAddressSpaceInitialization}
      {regions : MaxwellVaRegion × MaxwellVaRegion}
      (hpow : regions.1.pageSize.isPowerOfTwo ∧ regions.2.pageSize.isPowerOfTwo) :
      Effect s (.initializeSpace request) .done { s with regions := some regions }
  | reserved {pages pageSize flags alignOrOffset : ℕ} {r : MaxwellVaReservation}
      {t : MaxwellGpuAddressSpace} (hproper : lo r < hi r) (hbounded : hi r ≤ u64Max)
      (hfree : Free s (lo r) (hi r))
      (ht : Becomes s t (insert r (live s.reservations)) (live s.mappings) s.nextMappingId
        s.mappingGeneration) :
      Effect s (.reserve pages pageSize flags alignOrOffset) (.reservation r) t
  | freed {offset pages pageSize : ℕ} {r : MaxwellVaReservation} {t : MaxwellGpuAddressSpace}
      {generation : ℕ} (hr : r ∈ live s.reservations) (hoffset : lo r = offset)
      (hgeneration : generation = s.mappingGeneration ∧ (∀ m ∈ live s.mappings, ¬ Within m r) ∨
        generation = s.mappingGeneration + 1)
      (ht : Becomes s t {r' ∈ live s.reservations | r' ≠ r} {m ∈ live s.mappings | ¬ Within m r}
        s.nextMappingId generation) :
      Effect s (.free offset pages pageSize) (.reservation r) t
  | mapped {request : MaxwellMapRequest} {m : MaxwellGpuMapping} {t : MaxwellGpuAddressSpace}
      (hm : Mappable s request m)
      (ht : Becomes s t (live s.reservations) (insert m (live s.mappings)) (s.nextMappingId + 1)
        (s.mappingGeneration + 1)) :
      Effect s (.map request) (.mapped m) t
  | ignored {offset : ℕ} (hnone : namedBy s offset = none) :
      Effect s (.unmap offset) (.unmapped []) s
  | unmapped {offset id : ℕ} {removed : List MaxwellGpuMapping} {t : MaxwellGpuAddressSpace}
      (hid : namedBy s offset = some id)
      (hremoved : ∀ m, m ∈ removed ↔ m ∈ live s.mappings ∧ m.id = id)
      (ht : Becomes s t (live s.reservations) {m ∈ live s.mappings | m.id ≠ id} s.nextMappingId
        (s.mappingGeneration + 1)) :
      Effect s (.unmap offset) (.unmapped removed) t
  | remapped {requests : List MaxwellSparseRemapRequest} {t : MaxwellGpuAddressSpace}
      {pageSize : ℕ} (hvalid : ∀ request ∈ requests, Remappable s request)
      (hapart : requests.Pairwise Apart)
      (ht : Becomes s t (live s.reservations)
        (AddressSpace.remapped pageSize (s.mappingGeneration + 1) (live s.mappings)
          s.nextMappingId requests) (s.nextMappingId + sourceCount requests)
        (s.mappingGeneration + 1)) :
      Effect s (.remapSparse requests) .done t
  | modified {unmapOffset withinMapping size kind id : ℕ} {cacheable : Bool}
      {t : MaxwellGpuAddressSpace} (hid : namedBy s unmapOffset = some id) (hsize : 0 < size)
      (hcovered : ∀ x, unmapOffset + withinMapping ≤ x → x < unmapOffset + withinMapping + size →
        ∃ m ∈ live s.mappings, m.id = id ∧ Covers m x)
      (ht : Becomes s t (live s.reservations)
        (carve (live s.mappings)
          (fun m => m.id = id ∧ unmapOffset + withinMapping < hi m ∧
            lo m < unmapOffset + withinMapping + size)
          (modified (unmapOffset + withinMapping)
            (unmapOffset + withinMapping + size) kind cacheable (s.mappingGeneration + 1)))
        s.nextMappingId (s.mappingGeneration + 1)) :
      Effect s (.modifyMapping unmapOffset withinMapping size kind cacheable) .done t

/-! ### Reserving and freeing -/

variable {E : MaxwellAddressSpaceError → MaxwellGpuAddressSpace → Prop}
  {requests : List MaxwellSparseRemapRequest} {request : MaxwellSparseRemapRequest} (generation : ℕ)

section Calls

variable {s : MaxwellGpuAddressSpace} {pageSize size alignOrOffset offset : ℕ}
  {region : MaxwellVaRegion} {m : MaxwellGpuMapping}

/-- The page size of a region is a power of two. -/
theorem WellFormed.pageSize_pow (hs : WellFormed s) {regions : MaxwellVaRegion × MaxwellVaRegion}
    (hregions : s.regions = some regions) (h : regionOf regions pageSize = some region) :
    pageSize.isPowerOfTwo := by
  obtain ⟨hsmall, hbig⟩ := hs.pages regions hregions
  have hmem := mem_of_find?_eq_some h
  have hsize : region.pageSize = pageSize := by simpa using find?_some h
  rcases mem_cons.1 hmem with rfl | hmem
  · exact hsize ▸ hsmall
  · obtain rfl := mem_singleton.1 hmem
    exact hsize ▸ hbig

theorem regions_bind {α : Type} {f : MaxwellVaRegion × MaxwellVaRegion → AddressSpaceCall α}
    {Q : α → MaxwellGpuAddressSpace → Prop} (hE : E .notInitialized s)
    (h : ∀ rs, s.regions = some rs → (f rs).Ensures s Q E) : (regions >>= f).Ensures s Q E := by
  refine .bind (.read ?_)
  rcases hregions : s.regions with _ | rs
  · exact hE
  · exact h rs hregions

theorem address_ensures {value : ℕ} :
    (address value).Ensures s (fun a t => t = s ∧ a = value) (fun _ t => t = s) := by
  refine .read ?_
  rcases haddress : newAddress value s.profile.addressBits with e | a
  · exact rfl
  · exact ⟨rfl, newAddress_eq_ok haddress⟩

theorem address_bind {α : Type} {value : ℕ} {f : GpuVirtualAddress → AddressSpaceCall α}
    {Q : α → MaxwellGpuAddressSpace → Prop} (hE : ∀ e, E e s) (h : (f value).Ensures s Q E) :
    (address value >>= f).Ensures s Q E := by
  refine .bind (address_ensures.imp ?_ ?_)
  · rintro a t ⟨rfl, rfl⟩
    exact h
  · rintro e t rfl
    exact hE e

theorem initializeSpace_ensures {request : MaxwellAddressSpaceInitialization} :
    (initializeSpace request).Ensures s
      (fun _ t => Effect s (.initializeSpace request) .done t) (fun _ t => t = s) := by
  refine .read (.failIf fun _ => ?_)
  refine .failIf fun hbig => ?_
  simp only [Bool.or_eq_false_iff, Bool.not_eq_false', decide_eq_true_eq] at hbig
  refine .ofExcept fun _ _ => ?_
  refine address_bind (fun _ => rfl) (address_bind (fun _ => rfl) ?_)
  exact .initialized ⟨s.profile.smallPageSize_pow, hbig.1⟩

theorem reserveOffset_ensures {fixed : Bool} :
    (reserveOffset region pageSize size alignOrOffset fixed).Ensures s
      (fun offset t => t = s ∧ offset + size ≤ u64Max ∧ Free s offset (offset + size))
      (fun _ t => t = s) := by
  unfold reserveOffset
  split
  · refine .failIf fun _ => ?_
    refine .okOr fun stop hstop => ?_
    obtain ⟨rfl, hle⟩ := checkedAdd_eq_some.1 hstop
    refine .ofExcept fun inside _ => ?_
    refine .failIf fun _ => ?_
    refine .read (.ofExcept fun overlaps hoverlaps => ?_)
    refine .failIf fun hfree => ?_
    subst hfree
    obtain ⟨hrs, hms⟩ := overlapsOccupied_eq_false hoverlaps
    exact .pure ⟨rfl, hle, hrs, hms⟩
  · refine .failIf fun halign => ?_
    simp only [Bool.or_eq_false_iff, Bool.not_eq_false', decide_eq_true_eq] at halign
    refine .bind ((findFirstFit_ensures halign.1).imp ?_ fun _ _ h => h.1)
    rintro found t ⟨rfl, hbound, hfound⟩
    cases found with
    | none => exact rfl
    | some => exact ⟨rfl, hfound.1.2.2.1.trans hbound, hfound.1.2.2.2⟩

theorem reserve_ensures (hs : WellFormed s) {pages flags : ℕ} :
    (reserve pages pageSize flags alignOrOffset).Ensures s
      (fun r t => Effect s (.reserve pages pageSize flags alignOrOffset) (.reservation r) t)
      (fun _ t => t = s) := by
  refine regions_bind rfl fun regions hregions => ?_
  refine .failIf fun hpages => ?_
  refine .failIf fun _ => ?_
  refine .okOr fun region hregion => ?_
  refine .failIf fun _ => ?_
  refine .okOr fun size hsize => ?_
  obtain ⟨rfl, -⟩ := checkedMul_eq_some.1 hsize
  refine .seq reserveOffset_ensures ?_
  rintro offset t ⟨rfl, hle, hfree⟩
  refine address_bind (fun _ => rfl) (.update (.pure ?_))
  have hpos : 0 < pages * pageSize := by
    have hpages' : pages ≠ 0 := by simpa using hpages
    exact mul_pos (pos_of_ne_zero hpages')
      (Nat.pos_of_isPowerOfTwo (hs.pageSize_pow hregions hregion))
  have hproper : offset < offset + pages * pageSize := by omega
  obtain ⟨hsound, hlive⟩ := hs.reservations.insert
    (v := (⟨offset, pages, pageSize, flags &&& allocSpaceSparse != 0⟩ : MaxwellVaReservation))
    hproper (fun r hr => (hfree.reservations r hr).symm)
  exact .reserved hproper hle hfree ⟨⟨rfl, rfl, rfl⟩, hsound, hlive, hs.mappings, rfl, rfl, rfl⟩

/-- The mappings that `free` collects are those within the reservation. -/
theorem mem_mappingsInside (hs : WellFormed s) {r : MaxwellVaReservation}
    (hm : m ∈ live s.mappings) : lo m ∈ mappingsInside s (lo r) (hi r) ↔ Within m r := by
  rw [mappingsInside, hs.mappings.mem_keysWhere hm, stopIsOkAnd_eq (hs.valid m hm).bounded]
  simp [Within, lo_eq]

/-- Mappings are removed in a new generation, or there are no generations left. -/
theorem removeMappings_ensures (hs : WellFormed s) {keys : List ℕ} : (removeMappings keys).Ensures s
      (fun _ t => t.reservations = s.reservations ∧
        Becomes s t (live s.reservations) {m ∈ live s.mappings | lo m ∉ keys} s.nextMappingId
          (s.mappingGeneration + 1)) (fun _ t => t = s) := by
  refine .bind (.read (.ofExcept fun generation hgeneration => ?_))
  obtain ⟨rfl, -⟩ := checkedAdd_eq_some.1 (orError_eq_ok.1 hgeneration)
  obtain ⟨hsound, hlive⟩ := Sound.eraseAll hs.mappings
  exact ⟨rfl, ⟨rfl, rfl, rfl⟩, hs.reservations, rfl, hsound, hlive, rfl, rfl⟩

theorem free_ensures (hs : WellFormed s) {offset pages : ℕ} : (free offset pages pageSize).Ensures s
      (fun r t => Effect s (.free offset pages pageSize) (.reservation r) t)
      (fun _ t => t = s) := by
  refine regions_bind rfl fun _ _ => .read ?_
  refine .okOr fun r hr => ?_
  have hlo : lo r = offset := hs.reservations.keyed offset r hr
  subst hlo
  refine .failIf fun _ => ?_
  refine .ofExcept fun stop hstop => ?_
  obtain ⟨rfl, -⟩ := MaxwellVaReservation.stop_eq_ok.1 hstop
  obtain ⟨hsound, hlive⟩ := hs.reservations.erase
  have hothers : live (s.reservations.erase (lo r)) = {r' ∈ live s.reservations | r' ≠ r} := by
    rw [hlive]
    ext r'
    simp only [Set.mem_ofPred_eq, and_congr_right_iff]
    intro hr'
    refine not_congr ⟨fun heq => ?_, fun heq => heq ▸ rfl⟩
    exact hs.reservations.tiled.eq_of_lo hr' ⟨_, hr⟩ heq
  by_cases hempty : (mappingsInside s (lo r) (hi r)).isEmpty
  · have hnone : ∀ m ∈ live s.mappings, ¬ Within m r := by
      intro m hm hwithin
      have hmem := (mem_mappingsInside hs hm).2 hwithin
      rw [isEmpty_iff.1 hempty] at hmem
      simp at hmem
    have hall : {m ∈ live s.mappings | ¬ Within m r} = live s.mappings := by
      ext m
      simpa using hnone m
    rw [if_pos hempty]
    refine .freed ⟨_, hr⟩ rfl (.inl ⟨rfl, hnone⟩) ?_
    exact ⟨⟨rfl, rfl, rfl⟩, hsound, hothers, hs.mappings, hall.symm, rfl, rfl⟩
  · rw [if_neg hempty]
    refine .seq (removeMappings_ensures hs) ?_
    rintro _ t ⟨hsame, ht⟩
    refine .update (.pure (.freed ⟨_, hr⟩ rfl (.inr rfl) ?_))
    refine ⟨ht.same, ?_, ?_, ht.sound_mappings, ?_, ht.nextMappingId_eq, ht.mappingGeneration_eq⟩
    · simpa only [hsame] using hsound
    · simpa only [hsame] using hothers
    · rw [ht.mappings_eq]
      ext m
      simp only [Set.mem_ofPred_eq, and_congr_right_iff]
      intro hm
      exact not_congr (mem_mappingsInside hs hm)

/-! ### Mapping and unmapping -/

theorem validateBacking_eq_ok {backing : CanonicalBackingRange}
    {permissions : MemoryPermissions} {u : Unit}
    (h : validateBacking backing offset size permissions = .ok u) :
    0 < size ∧ offset + size ≤ backing.size := by
  obtain ⟨_, hsize, h⟩ := except_bind_eq_ok.1 h
  obtain ⟨stop, hstop, h⟩ := except_bind_eq_ok.1 h
  obtain ⟨_, hle, h⟩ := except_bind_eq_ok.1 h
  obtain ⟨rfl, -⟩ := checkedAdd_eq_some.1 (orError_eq_ok.1 hstop)
  rw [throwIf_eq_ok] at hsize hle
  simp only [beq_eq_false_iff_ne, ne_eq] at hsize
  simp only [decide_eq_false_iff_not, not_lt] at hle
  exact ⟨pos_of_ne_zero hsize, hle⟩

/-- Where a new mapping of a size can be. -/
structure Room (s : MaxwellGpuAddressSpace) (request : MaxwellMapRequest) (offset : ℕ) : Prop where
  bounded : offset + request.size ≤ u64Max
  apart : ∀ m ∈ live s.mappings, hi m ≤ offset ∨ offset + request.size ≤ lo m
  placed : (∃ r ∈ live s.reservations, lo r ≤ offset ∧ offset + request.size ≤ hi r) ∨
    ∀ r ∈ live s.reservations, hi r ≤ offset ∨ offset + request.size ≤ lo r
  fixed : ∀ o, request.fixedOffset = some o → offset = o

theorem mapOffset_ensures {request : MaxwellMapRequest} (hpow : pageSize.isPowerOfTwo) :
    (mapOffset region pageSize request).Ensures s (fun offset t => t = s ∧ Room s request offset)
      (fun _ t => t = s) := by
  unfold mapOffset
  split
  · next offset hfixed =>
      refine .failIf fun _ => ?_
      refine .okOr fun stop hstop => ?_
      obtain ⟨rfl, hle⟩ := checkedAdd_eq_some.1 hstop
      refine .read (.ofExcept fun found hfound => ?_)
      refine .okOr fun r hr => ?_
      subst hr
      obtain ⟨hr, hlo, hhi⟩ := reservationContaining_eq_some hfound
      refine .read (.ofExcept fun overlaps hoverlaps => ?_)
      refine .failIf fun hnone => ?_
      subst hnone
      refine .debugAssert (decide_eq_true hlo) (.pure ⟨rfl, hle, ?_, .inl ⟨r, hr, hlo, hhi⟩, ?_⟩)
      · exact overlapsMapping_eq_false hoverlaps
      · intro o ho
        rw [hfixed] at ho
        exact Option.some.inj ho
  · next hfixed =>
      refine .bind ((findFirstFit_ensures hpow).imp ?_ fun _ _ h => h.1)
      rintro found t ⟨rfl, hbound, hfound⟩
      refine .okOr fun offset hoffset => ?_
      subst hoffset
      obtain ⟨-, -, hle, hfree⟩ := hfound.1
      refine address_ensures.mono ?_
      rintro a t ⟨rfl, rfl⟩
      exact ⟨rfl, hle.trans hbound, hfree.mappings, .inr hfree.reservations, by simp [hfixed]⟩

theorem Mappable.effect (hs : WellFormed s) {request : MaxwellMapRequest}
    (hm : Mappable s request m) :
    Effect s (.map request) (.mapped m)
      { s with mappings := s.mappings.insert m.offset m, nextMappingId := s.nextMappingId + 1,
               mappingGeneration := s.mappingGeneration + 1 } := by
  obtain ⟨hsound, hlive⟩ := hs.mappings.insert hm.proper hm.apart
  exact .mapped hm ⟨⟨rfl, rfl, rfl⟩, hs.reservations, rfl, hsound, hlive, rfl, rfl⟩

theorem map_ensures (hs : WellFormed s) {request : MaxwellMapRequest} :
    (map request).Ensures s (fun m t => Effect s (.map request) (.mapped m) t)
      (fun _ t => t = s) := by
  refine regions_bind rfl fun regions hregions => ?_
  refine .ofExcept fun _ hbacking => ?_
  obtain ⟨hpos, hbacked⟩ := validateBacking_eq_ok hbacking
  refine .ofExcept fun _ _ => ?_
  refine .failIf fun _ => ?_
  refine .okOr fun region hregion => ?_
  refine .failIf fun _ => ?_
  refine .seq (mapOffset_ensures (hs.pageSize_pow hregions hregion)) ?_
  rintro offset t ⟨rfl, hroom⟩
  refine .read (.ofExcept fun generation hgeneration => ?_)
  obtain ⟨rfl, -⟩ := checkedAdd_eq_some.1 (orError_eq_ok.1 hgeneration)
  refine .ofExcept fun ids hids => ?_
  obtain ⟨next, hnext, hids⟩ := except_bind_eq_ok.1 hids
  obtain ⟨rfl, -⟩ := checkedAdd_eq_some.1 (orError_eq_ok.1 hnext)
  cases hids
  refine .okOr fun stop _ => ?_
  refine .ofExcept fun found _ => ?_
  refine .update (.pure (Mappable.effect hs ?_))
  have hproper : offset < offset + request.size := Nat.lt_add_of_pos_right hpos
  exact ⟨hproper, hroom.bounded, fun m hm => (hroom.apart m hm).symm,
    hroom.placed.imp id fun h r hr => (h r hr).symm, hbacked, rfl, rfl, rfl,
    ⟨rfl, rfl, rfl, rfl, rfl, rfl, rfl⟩, hroom.fixed⟩

/-- The mapping that an unmap offset names is the one of a piece with that offset. -/
theorem namedBy_eq_some {id : ℕ} (h : namedBy s offset = some id) :
    ∃ m ∈ live s.mappings, m.unmapOffset = offset ∧ m.id = id := by
  obtain ⟨m, hfind, hid⟩ := Option.map_eq_some_iff.1 h
  exact ⟨m, mem_valuesOf.1 (mem_of_find?_eq_some hfind), by simpa using find?_some hfind, hid⟩

theorem namedBy_eq_none :
    namedBy s offset = none ↔ ∀ m ∈ live s.mappings, m.unmapOffset ≠ offset := by
  simp [namedBy, mem_valuesOf]

theorem unmap_ensures (hs : WellFormed s) :
    (unmap offset).Ensures s (fun removed t => Effect s (.unmap offset) (.unmapped removed) t)
      (fun _ t => t = s) := by
  refine regions_bind rfl fun _ _ => .read ?_
  rcases hid : namedBy s offset with _ | id
  · exact .pure (.ignored hid)
  refine .seq (removeMappings_ensures hs) ?_
  rintro _ t ⟨_, ht⟩
  have hkey : ∀ m ∈ live s.mappings,
      lo m ∈ keysWhere s.mappings (fun mapping => mapping.id == id) ↔ m.id = id := by
    intro m hm
    rw [hs.mappings.mem_keysWhere hm, beq_iff_eq]
  refine .pure (.unmapped hid ?_ ?_)
  · intro m
    rw [mem_filterMap]
    constructor
    · rintro ⟨k, hk, hm⟩
      have hlive : m ∈ live s.mappings := ⟨k, hm⟩
      rw [← hs.mappings.keyed k m hm] at hk
      exact ⟨hlive, (hkey m hlive).1 hk⟩
    · rintro ⟨hm, hid'⟩
      exact ⟨lo m, (hkey m hm).2 hid', hs.mappings.mem_live.1 hm⟩
  · have hlive : {m ∈ live s.mappings | m.id ≠ id} = {m ∈ live s.mappings |
        lo m ∉ keysWhere s.mappings (fun mapping => mapping.id == id)} := by
      ext m
      simp only [Set.mem_ofPred_eq, and_congr_right_iff]
      intro hm
      exact not_congr (hkey m hm).symm
    rw [hlive]
    exact ht

/-! ### Remapping -/

theorem validateSparseRemapRequest_eq_ok {stop : ℕ}
    (h : validateSparseRemapRequest s request pageSize = .ok stop) :
    stop = hi request ∧ Remappable s request := by
  obtain ⟨_, hsize, h⟩ := except_bind_eq_ok.1 h
  obtain ⟨_, _, h⟩ := except_bind_eq_ok.1 h
  obtain ⟨e, he, h⟩ := except_bind_eq_ok.1 h
  obtain ⟨found, hfound, h⟩ := except_bind_eq_ok.1 h
  obtain ⟨r, hr, h⟩ := except_bind_eq_ok.1 h
  obtain ⟨_, _, h⟩ := except_bind_eq_ok.1 h
  obtain ⟨hstop, hle⟩ := checkedAdd_eq_some.1 (orError_eq_ok.1 he)
  rw [orError_eq_ok.1 hr] at hfound
  rw [← hstop] at hfound hle
  obtain ⟨hr, hrange⟩ := reservationContaining_eq_some hfound
  have hne : request.size ≠ 0 := by simpa using hsize
  have hproper : lo request < hi request := Nat.lt_add_of_pos_right (pos_of_ne_zero hne)
  rcases hsource : request.mapping with _ | source
  · simp only [hsource] at h
    cases h
    exact ⟨hstop.symm, hproper, hle, ⟨r, hr, hrange⟩, by simp [hsource]⟩
  · simp only [hsource] at h
    obtain ⟨_, _, h⟩ := except_bind_eq_ok.1 h
    obtain ⟨_, hbacking, h⟩ := except_bind_eq_ok.1 h
    obtain ⟨_, _, h⟩ := except_bind_eq_ok.1 h
    cases h
    refine ⟨hstop.symm, hproper, hle, ⟨r, hr, hrange⟩, ?_⟩
    intro source' hsource'
    obtain rfl : source = source' := by simpa [hsource] using hsource'
    exact (validateBacking_eq_ok hbacking).2

/-- The entries of a remap that passes the checks do not overlap. -/
theorem validateRequests_eq_ok {u : Unit} :
    ∀ {spans : List (ℕ × ℕ)}, validateRequests s pageSize spans requests = .ok u →
      (∀ request ∈ requests, Remappable s request) ∧ requests.Pairwise Apart ∧
      ∀ request ∈ requests, ∀ span ∈ spans, span.2 ≤ lo request ∨ hi request ≤ span.1 := by
  induction requests with
  | nil => simp
  | cons request requests ih =>
    intro spans h
    obtain ⟨stop, hstop, h⟩ := except_bind_eq_ok.1 h
    obtain ⟨_, hspans, h⟩ := except_bind_eq_ok.1 h
    obtain ⟨rfl, hrequest⟩ := validateSparseRemapRequest_eq_ok hstop
    obtain ⟨hvalid, hpairs, hrest⟩ := ih h
    refine ⟨?_, pairwise_cons.2 ⟨?_, hpairs⟩, ?_⟩
    · intro q hq
      rcases mem_cons.1 hq with rfl | hq
      · exact hrequest
      · exact hvalid q hq
    · intro q hq
      exact hrest q hq (request.offset, hi request) (by simp)
    · intro q hq span hspan
      rcases mem_cons.1 hq with rfl | hq
      · have hspan' : q.offset < span.2 → hi q ≤ span.1 := by
          simpa using any_eq_false.1 (throwIf_eq_ok.1 hspans) span hspan
        rcases lt_or_ge q.offset span.2 with hlt | hge
        · exact .inr (hspan' hlt)
        · exact .inl hge
      · exact hrest q hq span (by simp [hspan])

/-- Cutting keeps the mappings within the words. -/
theorem punched_bounded {S : Set MaxwellGpuMapping} (hproper : lo request < hi request)
    (h : ∀ m ∈ S, hi m ≤ u64Max) : ∀ m ∈ punched generation request S, hi m ≤ u64Max := by
  rintro w (⟨hw, _⟩ | ⟨m, hm, hover, hw⟩)
  · exact h w hw
  · have hparts := remains_parts generation hproper.le hover.1 hover.2
    exact (hparts.within w hw).2.trans (h m hm)

/-- No piece that is left overlaps the entry. -/
theorem punched_apart (request : MaxwellSparseRemapRequest) (S : Set MaxwellGpuMapping) :
    ∀ m ∈ punched generation request S, Apart request m := by
  rintro w (⟨_, hout⟩ | ⟨m, hm, hover, hw⟩)
  · unfold Apart
    omega
  · rw [remains, mem_append] at hw
    rcases hw with hw | hw <;> split at hw
    · obtain rfl := mem_singleton.1 hw
      right
      rw [hi_slice]
      omega
    · simp at hw
    · obtain rfl := mem_singleton.1 hw
      left
      rfl
    · simp at hw

/-- The loop over the entries computes the set of mappings after them. -/
theorem applyRequests_eq_ok {generation addressBits : ℕ} :
    ∀ {mappings mappings' : TreeMap ℕ MaxwellGpuMapping} {mappingId : ℕ}, Sound mappings →
      (∀ m ∈ live mappings, hi m ≤ u64Max) →
      (∀ request ∈ requests, lo request < hi request ∧ hi request ≤ u64Max) →
      applyRequests pageSize generation addressBits mappings mappingId requests = .ok mappings' →
      Sound mappings' ∧
        live mappings' = remapped pageSize generation (live mappings) mappingId requests := by
  induction requests with
  | nil =>
    intro mappings mappings' mappingId h _ _ hrun
    cases hrun
    exact ⟨h, rfl⟩
  | cons request requests ih =>
    intro mappings mappings' mappingId h hbound hrequests hrun
    obtain ⟨hproper, hle⟩ := hrequests request (by simp)
    have hrest : ∀ q ∈ requests, lo q < hi q ∧ hi q ≤ u64Max := fun q hq =>
      hrequests q (by simp [hq])
    obtain ⟨stop, hstop, hrun⟩ := except_bind_eq_ok.1 hrun
    obtain ⟨rfl, -⟩ := checkedAdd_eq_some.1 (orError_eq_ok.1 hstop)
    obtain ⟨mappings₁, hcut, hrun⟩ := except_bind_eq_ok.1 hrun
    obtain ⟨hsound₁, hlive₁⟩ := replaceMappingRange_carves h hbound hproper.le hcut
    replace hlive₁ : live mappings₁ = punched generation request _ := hlive₁
    have hbound₁ := punched_bounded generation hproper hbound
    rw [← hlive₁] at hbound₁
    rcases hsource : request.mapping with _ | source
    · simp only [hsource] at hrun
      obtain ⟨hsound, hlive⟩ := ih hsound₁ hbound₁ hrest hrun
      refine ⟨hsound, ?_⟩
      rw [hlive, hlive₁, remapped, hsource]
    · simp only [hsource] at hrun
      obtain ⟨nextId, hnext, hrun⟩ := except_bind_eq_ok.1 hrun
      obtain ⟨rfl, -⟩ := checkedAdd_eq_some.1 (orError_eq_ok.1 hnext)
      have hapart := punched_apart generation request (live mappings)
      rw [← hlive₁] at hapart
      obtain ⟨hsound₂, hlive₂⟩ := hsound₁.insert
        (v := remapMapping pageSize generation mappingId request source) hproper hapart
      have hbound₂ : ∀ m ∈ live (mappings₁.insert request.offset
          (remapMapping pageSize generation mappingId request source)), hi m ≤ u64Max := by
        intro m hm
        rw [show request.offset = lo (remapMapping pageSize generation mappingId request source)
          from rfl, hlive₂] at hm
        rcases hm with rfl | hm
        · exact hle
        · exact hbound₁ m hm
      obtain ⟨hsound, hlive⟩ := ih hsound₂ hbound₂ hrest hrun
      refine ⟨hsound, ?_⟩
      rw [hlive, remapped, hsource, hlive₂, hlive₁]

theorem remapSparse_ensures (hs : WellFormed s) :
    (remapSparse requests).Ensures s (fun _ t => Effect s (.remapSparse requests) .done t)
      (fun _ t => t = s) := by
  refine regions_bind rfl fun regions _ => ?_
  refine .failIf fun _ => .read ?_
  refine .ofExcept fun _ hvalidate => ?_
  obtain ⟨hvalid, hapart, -⟩ := validateRequests_eq_ok hvalidate
  refine .ofExcept fun generation hgeneration => ?_
  obtain ⟨rfl, -⟩ := checkedAdd_eq_some.1 (orError_eq_ok.1 hgeneration)
  refine .okOr fun next hnext => ?_
  obtain ⟨rfl, -⟩ := checkedAdd_eq_some.1 hnext
  refine .ofExcept fun mappings hrun => ?_
  obtain ⟨hsound, hlive⟩ := applyRequests_eq_ok hs.mappings (fun m hm => (hs.valid m hm).bounded)
    (fun request hr => ⟨(hvalid request hr).proper, (hvalid request hr).bounded⟩) hrun
  exact .remapped hvalid hapart ⟨⟨rfl, rfl, rfl⟩, hs.reservations, rfl, hsound, hlive, rfl, rfl⟩

theorem modifyMapping_ensures (hs : WellFormed s) {unmapOffset withinMapping kind : ℕ}
    {cacheable : Bool} :
    (modifyMapping unmapOffset withinMapping size kind cacheable).Ensures s
      (fun _ t => Effect s (.modifyMapping unmapOffset withinMapping size kind cacheable) .done t)
      (fun _ t => t = s) := by
  refine regions_bind rfl fun regions _ => ?_
  refine .ofExcept fun _ _ => ?_
  refine .failIf fun hsize => .read ?_
  replace hsize : 0 < size := pos_of_ne_zero (by simpa using hsize)
  refine .okOr fun id hid => ?_
  refine .okOr fun start hstart => ?_
  obtain ⟨rfl, -⟩ := checkedAdd_eq_some.1 hstart
  refine .okOr fun stop hstop => ?_
  obtain ⟨rfl, -⟩ := checkedAdd_eq_some.1 hstop
  refine .okOr fun pageSize _ => ?_
  refine .failIf fun _ => ?_
  refine .ofExcept fun covered hcovered => ?_
  refine .failIf fun hall => ?_
  obtain rfl : covered = unmapOffset + withinMapping + size := by simpa using hall
  refine .ofExcept fun generation hgeneration => ?_
  obtain ⟨rfl, -⟩ := checkedAdd_eq_some.1 (orError_eq_ok.1 hgeneration)
  refine .ofExcept fun mappings hrun => ?_
  obtain ⟨hsound, hlive⟩ := modifyLoop_carves hs.mappings (fun m hm => (hs.valid m hm).bounded)
    (by omega) hrun
  refine .modified hid hsize ?_ ⟨⟨rfl, rfl, rfl⟩, hs.reservations, rfl, hsound, hlive, rfl, rfl⟩
  intro x hx hx'
  obtain ⟨m, hm, hmx⟩ := coverFrom_covers hcovered x hx hx'
  rw [mem_filter, beq_iff_eq, mem_valuesOf] at hm
  exact ⟨m, hm.1, hm.2, hmx⟩

/-- **A call has its effect or is without effect.**  It never panics. -/
theorem call_ensures (hs : WellFormed s) {c : Command} :
    (call c).Ensures s (fun out t => Effect s c out t) (fun _ t => t = s) := by
  cases c with
  | initializeSpace =>
    exact .seq initializeSpace_ensures fun _ _ h => h
  | reserve =>
    exact .seq (reserve_ensures hs) fun _ _ h => h
  | free =>
    exact .seq (free_ensures hs) fun _ _ h => h
  | map => exact .seq (map_ensures hs) fun _ _ h => h
  | unmap => exact .seq (unmap_ensures hs) fun _ _ h => h
  | remapSparse =>
    exact .seq (remapSparse_ensures hs) fun _ _ h => h
  | modifyMapping =>
    exact .seq (modifyMapping_ensures hs) fun _ _ h => h

end Calls

end Nixe.AddressSpace
