/-
**When an unmap offset names one mapping.**

The guest addresses a mapping by the offset at which it was created, and a piece keeps this offset
when the mapping is cut.  After the head of a mapping has been cut away, a new mapping can begin at
the same offset while the rest of the old one lives on; from then on the offset stands for two
mappings, and unmapping it removes only one of them.

Main definitions:

* `UniqueNames` — pieces with one unmap offset belong to one mapping;
* `OffsetsName` — the same, with what it means for the calls that use the offset;
* `Fresh` — a call does not reuse an offset that still names a mapping.

Main results:

* `Effect.uniqueNames_iff` — one call;
* `offsets_name_iff` — **the exact condition on a run**;
* `headRemap_splits_name` — a run that violates it.
-/

import Nixe.AddressSpacePages

set_option autoImplicit false

namespace Nixe.AddressSpace

open Intervals PageEntry
open Intervals.Ranged (lo)

variable (s : MaxwellGpuAddressSpace)

/-- Pieces with the same unmap offset belong to the same mapping. -/
def UniqueNames : Prop :=
  ∀ m ∈ live s.mappings, ∀ m' ∈ live s.mappings, m.unmapOffset = m'.unmapOffset → m.id = m'.id

/-- An unmap offset names one mapping: its pieces are those with the offset, all of them go when the
offset is unmapped, and a modification addresses them. -/
structure OffsetsName (s : MaxwellGpuAddressSpace) : Prop where
  unique : UniqueNames s
  unmapped : ∀ offset removed t, unmap offset s = (.ok removed, t) →
    ∀ m ∈ live t.mappings, m.unmapOffset ≠ offset
  modified : ∀ unmapOffset withinMapping size kind cacheable t,
    modifyMapping unmapOffset withinMapping size kind cacheable s = (.ok (), t) →
    ∀ m ∈ live s.mappings, m.unmapOffset = unmapOffset →
      ∀ a, unmapOffset + withinMapping ≤ a → a < unmapOffset + withinMapping + size →
        owner s a = some m.id

/-- The call does not begin a mapping at an offset that names another one: no piece has the offset
of a new mapping, unless a remap takes all of the piece away at the same time. -/
def Fresh : Command → Response → Prop
  | .map _, .mapped m => ∀ p ∈ live s.mappings, p.unmapOffset ≠ m.offset
  | .remapSparse requests, .done => ∀ request ∈ requests, request.mapping.isSome →
      ∀ p ∈ live s.mappings, p.unmapOffset = request.offset →
        ∀ a, Covers p a → ∃ q ∈ requests, Covers q a
  | _, _ => True

/-- The call, if it succeeds, is fresh. -/
def NamesFresh (c : Command) : Prop :=
  ∀ out, (machine.step s c).1 = .ok out → Fresh s c out

section Names

variable {s t : MaxwellGpuAddressSpace} {pageSize generation : ℕ}
  {requests : List MaxwellSparseRemapRequest}

/-- Names stay unique when every mapping belongs to an old one. -/
theorem UniqueNames.of_old (h : UniqueNames s) (hold : ∀ w ∈ live t.mappings, ∃ m ∈ live s.mappings,
      w.id = m.id ∧ w.unmapOffset = m.unmapOffset) : UniqueNames t := by
  intro w hw w' hw' heq
  obtain ⟨m, hm, hid, hoffset⟩ := hold w hw
  obtain ⟨m', hm', hid', hoffset'⟩ := hold w' hw'
  rw [hid, hid']
  exact h m hm m' hm' (by rw [← hoffset, ← hoffset', heq])

/-- The new mappings of a remap do not overlap. -/
theorem installed_pairwise : ∀ {mappingId : ℕ}, requests.Pairwise Apart →
      (installed pageSize generation mappingId requests).Pairwise Apart := by
  induction requests with
  | nil => intro mappingId _; exact .nil
  | cons request requests ih =>
    intro mappingId hpairs
    obtain ⟨hhead, hpairs⟩ := List.pairwise_cons.1 hpairs
    rcases hsource : request.mapping with _ | source
    · rw [installed, hsource]
      exact ih hpairs
    · rw [installed, hsource]
      refine List.pairwise_cons.2 ⟨?_, ih hpairs⟩
      intro m hm
      obtain ⟨q, hq, source', _, heq, _⟩ := mem_installed hm
      rw [heq]
      exact hhead q hq

/-- New mappings at the same offset are the same. -/
theorem installed_unique {mappingId : ℕ} (hvalid : ∀ request ∈ requests, Remappable s request)
    (hapart : requests.Pairwise Apart) {m m' : MaxwellGpuMapping}
    (hm : m ∈ installed pageSize generation mappingId requests)
    (hm' : m' ∈ installed pageSize generation mappingId requests)
    (heq : m.unmapOffset = m'.unmapOffset) : m = m' := by
  by_contra hne
  have hmm := (installed_pairwise hapart).forall hm hm' hne
  obtain ⟨q, hq, source, _, hmq, _⟩ := mem_installed hm
  obtain ⟨q', hq', source', _, hmq', _⟩ := mem_installed hm'
  have hproper := (hvalid q hq).proper
  have hproper' := (hvalid q' hq').proper
  have hlo : lo q = lo q' := by
    rw [hmq, hmq'] at heq
    exact heq
  rw [hmq, hmq'] at hmm
  have hqq : Apart q q' := hmm
  unfold Apart at hqq
  omega

/-- A mapping after a remap is a new one, or belongs to an old one of which some address stayed. -/
theorem remapped_origin (hapart : requests.Pairwise Apart)
    (ht : live t.mappings = remapped pageSize generation (live s.mappings) s.nextMappingId requests)
    (hsound : Sound t.mappings) {w : MaxwellGpuMapping} (hw : w ∈ live t.mappings) :
    (∃ m ∈ installed pageSize generation s.nextMappingId requests,
      w.id = m.id ∧ w.unmapOffset = m.unmapOffset) ∨
    ∃ m ∈ live s.mappings, w.id = m.id ∧ w.unmapOffset = m.unmapOffset ∧
      ∃ a, Covers m a ∧ ∀ request ∈ requests, ¬ Covers request a := by
  have hshows : Shows (live t.mappings) (lo w) (w.entryAt (lo w)) :=
    ⟨w, hw, ⟨le_rfl, hsound.tiled.proper w hw⟩, rfl⟩
  rw [ht, remapped_shows hapart] at hshows
  rcases hshows with ⟨m, hm, _, he⟩ | ⟨⟨m, hm, hma, he⟩, hout⟩
  · exact .inl ⟨m, hm, congrArg PageEntry.id he.symm, congrArg unmapOffset he.symm⟩
  · exact .inr ⟨m, hm, congrArg PageEntry.id he.symm, congrArg unmapOffset he.symm,
      lo w, hma, hout⟩

/-- A remap keeps names unique exactly if it is fresh. -/
theorem remap_uniqueNames_iff (hs : WellFormed s) (hu : UniqueNames s)
    (hvalid : ∀ request ∈ requests, Remappable s request) (hapart : requests.Pairwise Apart)
    (hsound : Sound t.mappings)
    (ht : live t.mappings = remapped pageSize (s.mappingGeneration + 1) (live s.mappings)
      s.nextMappingId requests) : UniqueNames t ↔ Fresh s (.remapSparse requests) .done := by
  constructor
  · intro hnames request hrequest hsome p hp hoffset a hpa
    by_contra hout
    obtain ⟨source, hsource⟩ := Option.isSome_iff_exists.1 hsome
    obtain ⟨newId, hnew⟩ := exists_installed hsource s.nextMappingId hrequest
    -- the rest of the piece and the new mapping are both there, with the same unmap offset
    have hrest : Shows (live t.mappings) a (p.entryAt a) := by
      rw [ht, remapped_shows hapart]
      exact .inr ⟨⟨p, hp, hpa, rfl⟩, fun q hq hqa => hout ⟨q, hq, hqa⟩⟩
    have hfirst : Shows (live t.mappings) request.offset
        ((remapMapping pageSize (s.mappingGeneration + 1) newId request source).entryAt
          request.offset) := by
      rw [ht, remapped_shows hapart]
      exact .inl ⟨_, hnew, ⟨le_rfl, (hvalid request hrequest).proper⟩, rfl⟩
    obtain ⟨w, hw, _, he⟩ := hrest
    obtain ⟨w', hw', _, he'⟩ := hfirst
    have hid := hnames w hw w' hw' (by
      have h₁ : w.unmapOffset = p.unmapOffset := congrArg unmapOffset he
      have h₂ : w'.unmapOffset = request.offset := congrArg unmapOffset he'
      rw [h₁, h₂, hoffset])
    have h₁ : w.id = p.id := congrArg PageEntry.id he
    have h₂ : w'.id = newId := congrArg PageEntry.id he'
    obtain ⟨_, _, _, _, _, hle⟩ := mem_installed hnew
    have hle' : s.nextMappingId ≤ newId := hle
    have hlt := (hs.valid p hp).named
    omega
  · intro hfresh w hw w' hw' heq
    -- an old mapping and a new one do not share an offset
    have hcross : ∀ m ∈ installed pageSize (s.mappingGeneration + 1) s.nextMappingId requests,
        ∀ p ∈ live s.mappings, p.unmapOffset = m.unmapOffset →
          ∀ a, Covers p a → ¬ ∀ request ∈ requests, ¬ Covers request a := by
      intro m hm p hp hoffset a hpa hout
      obtain ⟨q, hq, source, hsource, hmq, _⟩ := mem_installed hm
      have hoffset' : p.unmapOffset = q.offset := by
        rw [hoffset, hmq]
        rfl
      obtain ⟨q', hq', hq'a⟩ := hfresh q hq (by simp [hsource]) p hp hoffset' a hpa
      exact hout q' hq' hq'a
    rcases remapped_origin hapart ht hsound hw with
      ⟨m, hm, hid, ho⟩ | ⟨m, hm, hid, ho, a, hma, hout⟩ <;>
      rcases remapped_origin hapart ht hsound hw' with
        ⟨m', hm', hid', ho'⟩ | ⟨m', hm', hid', ho', a', hma', hout'⟩
    · rw [hid, hid', installed_unique hvalid hapart hm hm' (by rw [← ho, ← ho', heq])]
    · exact absurd hout' (hcross m hm m' hm' (by rw [← ho, ← ho', heq]) a' hma')
    · exact absurd hout (hcross m' hm' m hm (by rw [← ho, ← ho', heq]) a hma)
    · rw [hid, hid']
      exact hu m hm m' hm' (by rw [← ho, ← ho', heq])

/-- A call keeps names unique exactly if it is fresh. -/
theorem Effect.uniqueNames_iff (hs : WellFormed s) (hu : UniqueNames s) {c : Command}
    {out : Response} (h : Effect s c out t) : UniqueNames t ↔ Fresh s c out := by
  cases h with
  | initialized | ignored => exact iff_of_true hu trivial
  | reserved hproper hbounded hfree ht =>
    refine iff_of_true (hu.of_old ?_) trivial
    rw [ht.mappings_eq]
    exact fun m hm => ⟨m, hm, rfl, rfl⟩
  | freed hr hoffset hgeneration ht | unmapped hid hremoved ht =>
    refine iff_of_true (hu.of_old ?_) trivial
    rw [ht.mappings_eq]
    exact fun m hm => ⟨m, hm.1, rfl, rfl⟩
  | @mapped request m _ hm ht =>
    constructor
    · intro hnames p hp hoffset
      have hid := hnames p (by rw [ht.mappings_eq]; exact Or.inr hp) m
        (by rw [ht.mappings_eq]; exact Or.inl rfl) (hoffset.trans hm.unmapOffset_eq.symm)
      have hlt := (hs.valid p hp).named
      rw [hid, hm.id_eq] at hlt
      exact lt_irrefl _ hlt
    · intro hfresh w hw w' hw' heq
      rw [ht.mappings_eq] at hw hw'
      rcases hw with rfl | hw <;> rcases hw' with rfl | hw'
      · rfl
      · exact absurd (heq.symm.trans hm.unmapOffset_eq) (hfresh w' hw')
      · exact absurd (heq.trans hm.unmapOffset_eq) (hfresh w hw)
      · exact hu w hw w' hw' heq
  | remapped hvalid hapart ht =>
    exact remap_uniqueNames_iff hs hu hvalid hapart ht.sound_mappings ht.mappings_eq
  | modified hid hsize hcovered ht =>
    refine iff_of_true (hu.of_old ?_) trivial
    rw [ht.mappings_eq]
    rintro w (⟨hw, _⟩ | ⟨m, hm, ⟨_, hstart, hstop⟩, hw⟩)
    · exact ⟨w, hw, rfl, rfl⟩
    · have hproper := hs.mappings.tiled.proper m hm
      have hpiece := MaxwellGpuMapping.modified_piece hproper (by omega) hstart hstop hw
      exact ⟨m, hm, hpiece.id_eq, hpiece.unmapOffset_eq⟩

/-- What unique names mean for the calls that use them. -/
theorem UniqueNames.offsetsName (hs : WellFormed s) (hu : UniqueNames s) : OffsetsName s := by
  refine ⟨hu, ?_, ?_⟩
  · intro offset removed t hrun m hm hoffset
    cases (unmap_ensures hs).of_ok hrun with
    | ignored hnone => exact namedBy_eq_none.1 hnone m hm hoffset
    | unmapped hid hremoved ht =>
      rw [ht.mappings_eq] at hm
      obtain ⟨p, hp, hpo, hpid⟩ := namedBy_eq_some hid
      exact hm.2 ((hu m hm.1 p hp (hoffset.trans hpo.symm)).trans hpid)
  · intro unmapOffset withinMapping size kind cacheable t hrun m hm hoffset a hlo hhi
    obtain ⟨id, hid, hrange, _⟩ :=
      modify_refines hs ((modifyMapping_ensures hs).of_ok hrun)
    obtain ⟨p, hp, hpo, hpid⟩ := namedBy_eq_some hid
    rw [(hrange a hlo hhi).1, hu m hm p hp (hoffset.trans hpo.symm), hpid]

end Names

/-- **The exact condition on a run.**  Unmap offsets name one mapping each, in every state of the
run, exactly if every call of the run is fresh. -/
theorem offsets_name_iff (id : ℕ) (profile : MaxwellGpuProfile) (cs : List Command) :
    (∀ ds, ds <+: cs → OffsetsName (machine.run (.new id profile) ds)) ↔
      machine.Guarded NamesFresh (.new id profile) cs := by
  have hiff := Machine.good_iff_guarded (M := machine) (I := fun s => WellFormed s ∧ OffsetsName s)
    (O := fun _ => True) (G := NamesFresh) (fun s hs => hs.2) ?_ ?_ cs
    (.new id profile) ⟨new_wellFormed, UniqueNames.offsetsName new_wellFormed
      (by intro m hm; simp [MaxwellGpuAddressSpace.new, live] at hm)⟩
  · simpa using hiff
  · rintro s c ⟨hs, hnames⟩ hfresh
    refine ⟨trivial, step_wellFormed hs, ?_⟩
    rcases step_cases hs c with ⟨out, hout, h⟩ | ⟨_, _, h⟩
    · exact UniqueNames.offsetsName (step_wellFormed hs)
        ((h.uniqueNames_iff hs hnames.unique).2 (hfresh out hout))
    · rw [h]
      exact hnames
  · rintro s c ⟨hs, hnames⟩ _ hnext out hout
    rcases step_cases hs c with ⟨out', hout', h⟩ | ⟨e, he, _⟩
    · obtain rfl : out' = out := by
        rw [hout'] at hout
        exact Outcome.ok.inj hout
      exact (h.uniqueNames_iff hs hnames.unique).1 hnext.unique
    · rw [he] at hout
      cases hout

/-- A sparse reservation of four big pages, a mapping of the first three, and another mapping in
place of the first one. -/
def headRemap : List Command :=
  let backing : CanonicalBackingRange :=
    { segments := [{ page := 0, offset := 0, size := 0x60000, permissions := .readWrite,
                     mappingGeneration := 0 }], size := 0x60000 }
  let source : MaxwellSparseMapping :=
    { allocation := 1, backing, backingOffset := 0, kind := 0, cacheable := true,
      permissions := .readWrite }
  [.initializeSpace { bigPageSize := 0, vaRangeStart := 0, vaRangeEnd := 0, vaRangeSplit := 0 },
    .reserve 4 0x20000 (allocSpaceFixed ||| allocSpaceSparse) defaultVaSplit,
    .remapSparse [{ offset := defaultVaSplit, size := 0x60000, mapping := some source }],
    .remapSparse [{ offset := defaultVaSplit, size := 0x20000,
                    mapping := some { source with allocation := 2 } }]]

/-- **Replacing the head of a mapping gives its unmap offset to two mappings**, and unmapping the
offset then leaves the rest of the old mapping behind. -/
theorem headRemap_splits_name : ¬ OffsetsName (machine.run (.new 1 switch1Gm20bProfile) headRemap) ∧
    ((valuesOf (machine.run (.new 1 switch1Gm20bProfile)
      (headRemap ++ [.unmap defaultVaSplit])).mappings).map fun m => (m.id, m.unmapOffset)) =
        [(1, defaultVaSplit)] := by
  refine ⟨?_, by decide +kernel⟩
  intro hnames
  have htwo : ∃ m ∈ valuesOf (machine.run (.new 1 switch1Gm20bProfile) headRemap).mappings,
      ∃ m' ∈ valuesOf (machine.run (.new 1 switch1Gm20bProfile) headRemap).mappings,
        m.unmapOffset = m'.unmapOffset ∧ m.id ≠ m'.id := by decide +kernel
  obtain ⟨m, hm, m', hm', hoffset, hne⟩ := htwo
  exact hne (hnames.unique m (mem_valuesOf.1 hm) m' (mem_valuesOf.1 hm') hoffset)

end Nixe.AddressSpace
