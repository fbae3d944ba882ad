/-
**Every address space that can be reached is consistent.**

The invariant of an address space is kept by the effect of each call, and so by every sequence of
calls, whatever the arguments are and whether or not the calls succeed.

Main definitions:

* `Piece` — what a piece has in common with the mapping it was cut from;
* `Consistent` — the two tables agree with each other and with the counters.

Main results:

* `remapped_forall` — what all mappings have after a list of remap entries;
* `Effect.wellFormed` — the invariant is kept by one call;
* `spaces_stay_consistent` — **consistency in every run**;
* `first_fit_exact` — **the search by first fit is exact**.
-/

import Nixe.AddressSpaceCalls

set_option autoImplicit false

namespace Nixe.AddressSpace

open Intervals List
open Intervals.Ranged (lo hi)
open MaxwellGpuMapping (hi_eq lo_eq)

/-! ### Pieces -/

/-- `w` was cut from `m`: it lies in the range of `m`, belongs to the same mapping, and shows the
same bytes there.  The generation is the new one. -/
structure Piece (generation : ℕ) (m w : MaxwellGpuMapping) : Prop where
  within : Within w m
  proper : lo w < hi w
  id_eq : w.id = m.id
  unmapOffset_eq : w.unmapOffset = m.unmapOffset
  backing_eq : w.backing = m.backing
  backingOffset_eq : w.backingOffset = m.backingOffset + (lo w - lo m)
  generation_eq : w.generation = generation

variable {m w : MaxwellGpuMapping} {start stop generation : ℕ}

theorem MaxwellGpuMapping.slice_piece (generation : ℕ) (hlo : lo m ≤ start)
    (hlt : start < stop) (hhi : stop ≤ hi m) :
    Piece generation m (m.slice start stop generation) := by
  have hstop : start + (stop - start) = stop := by omega
  refine ⟨⟨hlo, ?_⟩, ?_, rfl, rfl, rfl, rfl, rfl⟩
  · rw [hi_slice, hstop]
    exact hhi
  · rw [hi_slice, hstop]
    exact hlt

theorem MaxwellGpuMapping.remains_piece (hstart : start < hi m)
    (hstop : lo m < stop) (hw : w ∈ m.remains start stop generation) : Piece generation m w := by
  rw [remains, mem_append] at hw
  rcases hw with hw | hw <;> split at hw
  · next hlt =>
      obtain rfl := mem_singleton.1 hw
      exact m.slice_piece generation le_rfl hlt hstart.le
  · simp at hw
  · next hlt =>
      obtain rfl := mem_singleton.1 hw
      exact m.slice_piece generation hstop.le hlt le_rfl
  · simp at hw

theorem MaxwellGpuMapping.modified_piece {kind : ℕ} {cacheable : Bool}
    (hproper : lo m < hi m) (hlt : start < stop) (hstart : start < hi m) (hstop : lo m < stop)
    (hw : w ∈ m.modified start stop kind cacheable generation) : Piece generation m w := by
  have hmiddle : max (lo m) start < min (hi m) stop :=
    lt_min (max_lt hproper hstart) (max_lt hstop hlt)
  rw [modified, mem_append, mem_append] at hw
  rcases hw with (hw | hw) | hw
  · split at hw
    · next hleft =>
        obtain rfl := mem_singleton.1 hw
        exact m.slice_piece generation le_rfl hleft (hmiddle.le.trans (min_le_left ..))
    · simp at hw
  · obtain rfl := mem_singleton.1 hw
    have hpiece := m.slice_piece generation (le_max_left _ start) hmiddle (min_le_left ..)
    exact ⟨hpiece.within, hpiece.proper, rfl, rfl, rfl, rfl, rfl⟩
  · split at hw
    · next hright =>
        obtain rfl := mem_singleton.1 hw
        exact m.slice_piece generation ((le_max_left ..).trans hmiddle.le) hright le_rfl
    · simp at hw

/-- **What all mappings have after a list of remap entries.**  It is enough that the old mappings
have it, that pieces inherit it and that new mappings have it. -/
theorem remapped_forall {P : MaxwellGpuMapping → Prop} {pageSize : ℕ}
    (hpiece : ∀ m w, P m → Piece generation m w → P w) {requests : List MaxwellSparseRemapRequest} :
    ∀ {S : Set MaxwellGpuMapping} {mappingId : ℕ}, (∀ m ∈ S, P m) →
      (∀ request ∈ requests, ∀ source, request.mapping = some source → ∀ newId, mappingId ≤ newId →
        newId < mappingId + sourceCount requests →
        P (remapMapping pageSize generation newId request source)) →
      ∀ m ∈ remapped pageSize generation S mappingId requests, P m := by
  induction requests with
  | nil => intro S mappingId hS _; exact hS
  | cons request requests ih =>
    intro S mappingId hS hnew
    have hpunched : ∀ m ∈ punched generation request S, P m := by
      rintro w (⟨hw, _⟩ | ⟨m, hm, hover, hw⟩)
      · exact hS w hw
      · exact hpiece m w (hS m hm) (MaxwellGpuMapping.remains_piece hover.1 hover.2 hw)
    rcases hsource : request.mapping with _ | source
    · have hcount : sourceCount (request :: requests) = sourceCount requests := by
        simp [sourceCount, hsource]
      rw [remapped, hsource]
      refine ih hpunched fun q hq source hs newId hle hlt => ?_
      exact hnew q (by simp [hq]) source hs newId hle (by omega)
    · have hcount : sourceCount (request :: requests) = sourceCount requests + 1 := by
        simp [sourceCount, hsource]
      rw [remapped, hsource]
      refine ih ?_ fun q hq source hs newId hle hlt => ?_
      · rintro m (rfl | hm)
        · exact hnew request (by simp) source hsource mappingId le_rfl (by omega)
        · exact hpunched m hm
      · exact hnew q (by simp [hq]) source hs newId (by omega) (by omega)

/-! ### The invariant is kept -/

section Step

variable {s t : MaxwellGpuAddressSpace} {c : Command}

/-- A mapping stays valid while the reservations stay. -/
theorem Valid.mono (h : Valid s m) (hreservations : live t.reservations = live s.reservations)
    (hnext : s.nextMappingId ≤ t.nextMappingId)
    (hgeneration : s.mappingGeneration ≤ t.mappingGeneration) : Valid t m := by
  refine ⟨h.bounded, h.backed, h.named.trans_le hnext, h.dated.trans hgeneration, ?_⟩
  unfold Placed
  rw [hreservations]
  exact h.placed

theorem Valid.piece (h : Valid t m) (hw : Piece t.mappingGeneration m w) : Valid t w := by
  obtain ⟨hlo, hhi⟩ := hw.within
  refine ⟨hhi.trans h.bounded, ?_, hw.id_eq ▸ h.named, hw.generation_eq.le, ?_⟩
  · have hbacked := h.backed
    rw [hw.backing_eq, hw.backingOffset_eq]
    rw [hi_eq, hi_eq] at hhi
    rw [lo_eq, lo_eq] at *
    omega
  · rcases h.placed with ⟨r, hr, hin⟩ | hout
    · exact .inl ⟨r, hr, hin.1.trans hlo, hhi.trans hin.2⟩
    · exact .inr fun r hr => (hout r hr).mono hw.within

theorem Becomes.wellFormed (hs : WellFormed s) {R : Set MaxwellVaReservation}
    {M : Set MaxwellGpuMapping} {next : ℕ} (ht : Becomes s t R M next generation)
    (hR : ∀ r ∈ R, hi r ≤ u64Max) (hM : ∀ m ∈ M, Valid t m) : WellFormed t := by
  refine ⟨ht.sound_mappings, ht.sound_reservations, ?_, ?_, ?_⟩
  · rw [ht.mappings_eq]
    exact hM
  · rw [ht.reservations_eq]
    exact hR
  · rw [ht.same.2.2]
    exact hs.pages

/-- **The invariant is kept by one call.** -/
theorem Effect.wellFormed (hs : WellFormed s) {out : Response}
    (h : Effect s c out t) : WellFormed t := by
  cases h with
  | initialized hpow =>
    refine ⟨hs.mappings, hs.reservations, fun m hm => (hs.valid m hm).mono rfl le_rfl le_rfl,
      hs.bounded, ?_⟩
    rintro regions ⟨⟩
    exact hpow
  | reserved hproper hbounded hfree ht =>
    refine ht.wellFormed hs ?_ ?_
    · rintro r (rfl | hr)
      · exact hbounded
      · exact hs.bounded r hr
    · intro m hm
      have hvalid := hs.valid m hm
      refine ⟨hvalid.bounded, hvalid.backed, ht.nextMappingId_eq ▸ hvalid.named,
        ht.mappingGeneration_eq ▸ hvalid.dated, ?_⟩
      unfold Placed
      rw [ht.reservations_eq]
      rcases hvalid.placed with ⟨r, hr, hin⟩ | hout
      · exact .inl ⟨r, .inr hr, hin⟩
      · refine .inr ?_
        rintro r (rfl | hr)
        · exact hfree.mappings m hm
        · exact hout r hr
  | freed hr hoffset hgeneration ht =>
    refine ht.wellFormed hs (fun r hr => hs.bounded r hr.1) ?_
    rintro m ⟨hm, hout⟩
    have hvalid := hs.valid m hm
    refine ⟨hvalid.bounded, hvalid.backed, ht.nextMappingId_eq ▸ hvalid.named, ?_, ?_⟩
    · have hdated := hvalid.dated
      rw [ht.mappingGeneration_eq]
      omega
    · unfold Placed
      rw [ht.reservations_eq]
      rcases hvalid.placed with ⟨r, hr', hin⟩ | hout'
      · refine .inl ⟨r, ⟨hr', ?_⟩, hin⟩
        rintro rfl
        exact hout hin
      · exact .inr fun r hr => hout' r hr.1
  | mapped hm ht =>
    refine ht.wellFormed hs hs.bounded ?_
    rintro m (rfl | hm')
    · refine ⟨hm.bounded, hm.backed, ?_, ?_, ?_⟩
      · rw [hm.id_eq, ht.nextMappingId_eq]
        omega
      · rw [hm.generation_eq, ht.mappingGeneration_eq]
      · unfold Placed
        rw [ht.reservations_eq]
        exact hm.placed
    · refine (hs.valid m hm').mono ht.reservations_eq ?_ ?_
      · rw [ht.nextMappingId_eq]
        omega
      · rw [ht.mappingGeneration_eq]
        omega
  | ignored => exact hs
  | unmapped hid hremoved ht =>
    refine ht.wellFormed hs hs.bounded ?_
    rintro m ⟨hm, _⟩
    refine (hs.valid m hm).mono ht.reservations_eq ht.nextMappingId_eq.ge ?_
    rw [ht.mappingGeneration_eq]
    omega
  | remapped hvalid hapart ht =>
    refine ht.wellFormed hs hs.bounded ?_
    rw [← ht.mappingGeneration_eq]
    refine remapped_forall (fun m w hm => hm.piece) ?_ ?_
    · intro m hm
      refine (hs.valid m hm).mono ht.reservations_eq ?_ ?_
      · rw [ht.nextMappingId_eq]
        omega
      · rw [ht.mappingGeneration_eq]
        omega
    · intro request hr source hsource newId _ hlt
      obtain ⟨r, hreserved, hin⟩ := (hvalid request hr).reserved
      refine ⟨(hvalid request hr).bounded, (hvalid request hr).backed source hsource, ?_, le_rfl,
        Or.inl ⟨r, ?_, hin⟩⟩
      · rw [ht.nextMappingId_eq]
        exact hlt
      · rw [ht.reservations_eq]
        exact hreserved
  | modified hid hsize hcovered ht =>
    refine ht.wellFormed hs hs.bounded ?_
    have hmono : ∀ m ∈ live s.mappings, Valid t m := by
      intro m hm
      refine (hs.valid m hm).mono ht.reservations_eq ht.nextMappingId_eq.ge ?_
      rw [ht.mappingGeneration_eq]
      omega
    rw [← ht.mappingGeneration_eq]
    rintro w (⟨hw, _⟩ | ⟨m, hm, ⟨_, hstart, hstop⟩, hw⟩)
    · exact hmono w hw
    · have hproper := hs.mappings.tiled.proper m hm
      exact (hmono m hm).piece (MaxwellGpuMapping.modified_piece hproper (by omega) hstart hstop hw)

/-- The generation of the address space does not go back. -/
theorem Effect.generation_le {out : Response} (h : Effect s c out t) :
    s.mappingGeneration ≤ t.mappingGeneration := by
  cases h with
  | initialized | ignored => exact le_rfl
  | reserved hproper hbounded hfree ht => exact ht.mappingGeneration_eq.ge
  | freed hr hoffset hgeneration ht =>
    rw [ht.mappingGeneration_eq]
    omega
  | mapped hm ht | unmapped hid hremoved ht | remapped hvalid hapart ht
  | modified hid hsize hcovered ht => exact ht.mappingGeneration_eq ▸ Nat.le_succ _

/-- What a call can do to the address space: an effect, or nothing. -/
theorem step_cases (hs : WellFormed s) (c : Command) :
    (∃ out, (machine.step s c).1 = .ok out ∧ Effect s c out (machine.step s c).2) ∨
      ∃ e, (machine.step s c).1 = .err e ∧ (machine.step s c).2 = s :=
  (call_ensures hs).ok_or_err

theorem step_wellFormed (hs : WellFormed s) : WellFormed (machine.step s c).2 := by
  rcases step_cases hs c with ⟨out, _, h⟩ | ⟨_, _, h⟩
  · exact h.wellFormed hs
  · rw [h]
    exact hs

end Step

/-! ### Runs -/

theorem new_wellFormed {id : ℕ} {profile : MaxwellGpuProfile} :
    WellFormed (MaxwellGpuAddressSpace.new id profile) := by
  refine ⟨sound_empty, sound_empty, ?_, ?_, ?_⟩ <;> simp [MaxwellGpuAddressSpace.new, live]

theorem run_wellFormed (id : ℕ) (profile : MaxwellGpuProfile) (cs : List Command) :
    WellFormed (machine.run (.new id profile) cs) :=
  Machine.run_invariant_all (fun _ _ => step_wellFormed) cs _ new_wellFormed

def MaxwellGpuMapping.span (m : MaxwellGpuMapping) : Set ℕ := Set.Ico m.offset (m.offset + m.size)

def MaxwellVaReservation.span (r : MaxwellVaReservation) : Set ℕ :=
  Set.Ico r.offset (r.offset + r.pages * r.pageSize)

/-- The two tables of an address space agree with each other and with the counters. -/
structure Consistent (s : MaxwellGpuAddressSpace) : Prop where
  keyed : ∀ (k : ℕ) (m : MaxwellGpuMapping), s.mappings[k]? = some m → m.offset = k
  nonempty : ∀ m ∈ live s.mappings, 0 < m.size
  bounded : ∀ m ∈ live s.mappings, m.offset + m.size ≤ u64Max
  disjoint : (live s.mappings).PairwiseDisjoint MaxwellGpuMapping.span
  reservations_keyed : ∀ (k : ℕ) (r : MaxwellVaReservation), s.reservations[k]? = some r →
    r.offset = k
  reservations_disjoint : (live s.reservations).PairwiseDisjoint MaxwellVaReservation.span
  placed : ∀ m ∈ live s.mappings, (∃! r, r ∈ live s.reservations ∧ m.span ⊆ r.span) ∨
    ∀ r ∈ live s.reservations, Disjoint m.span r.span
  backed : ∀ m ∈ live s.mappings, m.backingOffset + m.size ≤ m.backing.size
  named : ∀ m ∈ live s.mappings, m.id < s.nextMappingId
  dated : ∀ m ∈ live s.mappings, m.generation ≤ s.mappingGeneration

theorem WellFormed.consistent {s : MaxwellGpuAddressSpace} (hs : WellFormed s) : Consistent s where
  keyed := hs.mappings.keyed
  nonempty m hm := by
    have hproper := hs.mappings.tiled.proper m hm
    rw [lo_eq, hi_eq] at hproper
    omega
  bounded m hm := (hs.valid m hm).bounded
  disjoint m hm m' hm' hne := (hs.mappings.tiled.apart m hm m' hm' hne).disjoint
  reservations_keyed := hs.reservations.keyed
  reservations_disjoint r hr r' hr' hne := (hs.reservations.tiled.apart r hr r' hr' hne).disjoint
  placed m hm := by
    rcases (hs.valid m hm).placed with ⟨r, hr, hin⟩ | hout
    · have hproper := hs.mappings.tiled.proper m hm
      refine .inl ⟨r, ⟨hr, Set.Ico_subset_Ico hin.1 hin.2⟩, ?_⟩
      rintro r' ⟨hr', hin'⟩
      -- both reservations cover the start of the mapping
      have hstart : lo m ∈ r'.span := hin' ⟨le_rfl, hproper⟩
      exact hs.reservations.tiled.eq_of_covers hr' hr ⟨hstart.1, hstart.2⟩
        ⟨hin.1, hproper.trans_le hin.2⟩
    · exact .inr fun r hr => (hout r hr).disjoint
  backed m hm := (hs.valid m hm).backed
  named m hm := (hs.valid m hm).named
  dated m hm := (hs.valid m hm).dated

/-- **Consistency in every run.**  After any calls with any arguments the address space is
consistent; a further call does not panic, does not take the generation back, and changes nothing if
it returns an error. -/
theorem spaces_stay_consistent (id : ℕ) (profile : MaxwellGpuProfile) (cs : List Command) :
    Consistent (machine.run (.new id profile) cs) ∧
    ∀ c, (machine.step (machine.run (.new id profile) cs) c).1.isPanic = false ∧
      (machine.run (.new id profile) cs).mappingGeneration ≤
        (machine.step (machine.run (.new id profile) cs) c).2.mappingGeneration ∧
      ∀ e, (machine.step (machine.run (.new id profile) cs) c).1 = .err e →
        (machine.step (machine.run (.new id profile) cs) c).2 =
          machine.run (.new id profile) cs := by
  have hs := run_wellFormed id profile cs
  refine ⟨hs.consistent, fun c => ?_⟩
  rcases step_cases hs c with ⟨out, hout, h⟩ | ⟨e, he, h⟩
  · rw [hout]
    exact ⟨rfl, h.generation_le, nofun⟩
  · rw [he, h]
    exact ⟨rfl, le_rfl, fun _ _ => rfl⟩

/-! ### First fit -/

/-- **The search by first fit is exact.**  In every address space that can be reached it ends, and
changes nothing.  Unless a sum leaves the range of a word, it finds the least aligned address at
which a window of the region meets no reservation and no mapping, and nothing only if there is
none. -/
theorem first_fit_exact (id : ℕ) (profile : MaxwellGpuProfile) (cs : List Command)
    (region : MaxwellVaRegion) (size alignment : ℕ) (hpow : alignment.isPowerOfTwo) :
    (findFirstFit region size alignment).Ensures (machine.run (.new id profile) cs)
      (fun found s => s = machine.run (.new id profile) cs ∧
        (∀ a, found = some a ↔ IsLeast (fits s region size alignment) a) ∧
        (found = none ↔ fits s region size alignment = ∅))
      (fun _ s => s = machine.run (.new id profile) cs ∧ ¬ NoOverflow s region size alignment) := by
  refine (findFirstFit_ensures hpow).imp ?_ ?_
  · rintro found _ ⟨rfl, -, hfound⟩
    refine ⟨rfl, fun a => ?_, ?_⟩
    · cases found with
      | some =>
        refine ⟨fun h => Option.some.inj h ▸ hfound, fun h => ?_⟩
        rw [hfound.unique h]
      | none =>
        refine ⟨nofun, fun h => ?_⟩
        exact absurd h.1 (hfound ▸ Set.notMem_empty a)
    · cases found with
      | some b => exact ⟨nofun, fun h => absurd hfound.1 (h ▸ Set.notMem_empty b)⟩
      | none => exact iff_of_true rfl hfound
  · rintro _ _ ⟨rfl, hover⟩
    exact ⟨rfl, hover⟩

/-- The first big page is reserved, and the second one is mapped. -/
def twoPagesTaken : List Command :=
  [.initializeSpace { bigPageSize := 0, vaRangeStart := 0, vaRangeEnd := 0, vaRangeSplit := 0 },
    .reserve 1 0x20000 0 0,
    .map { allocation := 1
           backing := { segments := [{ page := 0, offset := 0, size := 0x20000,
                                       permissions := .readWrite, mappingGeneration := 0 }]
                        size := 0x20000 }
           backingOffset := 0, size := 0x20000, allocationAlignment := 0x20000
           pageSize := 0x20000, kind := 0, cacheable := true, permissions := .readWrite
           fixedOffset := none }]

/-- The search jumps over the reservation and over the mapping. -/
theorem first_fit_exact_occupied : let s := machine.run (.new 1 switch1Gm20bProfile) twoPagesTaken
    (s.reservations.keys, s.mappings.keys) = ([defaultVaSplit], [defaultVaSplit + 0x20000]) ∧
      IsLeast (fits s ⟨defaultVaSplit, 0x20000, 16⟩ 0x20000 0x20000)
        (defaultVaSplit + 0x40000) := by
  intro s
  have hrun : (findFirstFit ⟨defaultVaSplit, 0x20000, 16⟩ 0x20000 0x20000 s).1 =
      .ok (some (defaultVaSplit + 0x40000)) := by decide +kernel
  have hexact := first_fit_exact 1 switch1Gm20bProfile twoPagesTaken
    ⟨defaultVaSplit, 0x20000, 16⟩ 0x20000 0x20000 ⟨17, rfl⟩
  exact ⟨by decide +kernel, ((hexact.of_ok (Prod.ext hrun rfl)).2.1 _).1 rfl⟩

end Nixe.AddressSpace
