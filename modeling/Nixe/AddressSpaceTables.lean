/-
**What the helpers of the address space do to the tables of ranges.**

The calls of the address space are built from searches through its two tables, from checks of
arguments, and from two loops that cut mappings.  Each of them has its specification here, in the
terms of the ranges of the table.

Main definitions:

* `MaxwellGpuMapping.slice` — a piece of a mapping, in a new generation;
* `MaxwellGpuMapping.remains` — what a mapping keeps when a range is taken away;
* `MaxwellGpuMapping.modified` — the pieces of a mapping that changes its attributes in a range.

Main results:

* `findFirstFit_ensures` — **the search by first fit ends**, with the least address that fits;
* `replaceMappingRange_carves`, `modifyLoop_carves` — the two loops carve the set of mappings;
* `coverFrom_covers` — a range that passes the coverage loop has no gap.
-/

import Nixe.AddressSpace

set_option autoImplicit false

namespace Nixe.AddressSpace

open Std (TreeMap)
open Call (except_bind_eq_ok)
open Intervals List MaxwellGpuMapping
open Intervals.Ranged (lo hi)

attribute [local simp] Except.pure Except.mapError

/-! ### Computations that succeed -/

variable {e : MaxwellAddressSpaceError} {addressBits value alignment kind generation : ℕ}
  {r : MaxwellVaReservation} {mappings mappings' : TreeMap ℕ MaxwellGpuMapping} {cacheable : Bool}

@[simp] theorem orError_eq_ok {α : Type} {o : Option α} {a : α} :
    orError o e = .ok a ↔ o = some a := by
  cases o <;> simp [orError]

@[simp] theorem throwIf_eq_ok {b : Bool} {u : Unit} : throwIf b e = .ok u ↔ b = false := by
  cases b <;> simp [throwIf]

theorem newAddress_eq_ok {a : ℕ} (h : newAddress value addressBits = .ok a) : a = value := by
  unfold newAddress tryNew at h
  split at h
  · simp at h
  · split at h
    · simp at h
    · simpa [eq_comm] using h

variable (m : MaxwellGpuMapping)

theorem MaxwellGpuMapping.lo_eq : lo m = m.offset := rfl

theorem MaxwellGpuMapping.hi_eq : hi m = m.offset + m.size := rfl

theorem MaxwellVaReservation.lo_eq (r : MaxwellVaReservation) : lo r = r.offset := rfl

variable {e : ℕ} {m : MaxwellGpuMapping}

@[simp] theorem MaxwellGpuMapping.stop_eq_ok : m.stop = .ok e ↔ hi m = e ∧ e ≤ u64Max := by
  rw [stop, orError_eq_ok, checkedAdd_eq_some, hi_eq]

instance : Ranged MaxwellVaRegion where
  lo r := r.offset
  hi r := r.offset + r.pages * r.pageSize

theorem MaxwellVaRegion.stop_eq_ok {r : MaxwellVaRegion} :
    r.stop = .ok e ↔ hi r = e ∧ e ≤ u64Max := by
  have hhi : hi r = r.offset + r.pages * r.pageSize := rfl
  rw [MaxwellVaRegion.stop, orError_eq_ok, Option.bind_eq_some_iff]
  constructor
  · rintro ⟨size, hsize, hend⟩
    obtain ⟨rfl, -⟩ := checkedMul_eq_some.1 hsize
    exact checkedAdd_eq_some.1 hend
  · rintro ⟨rfl, hle⟩
    exact ⟨r.pages * r.pageSize, by simp; omega, by simp; omega⟩

@[simp] theorem MaxwellVaReservation.stop_eq_ok : r.stop = .ok e ↔ hi r = e ∧ e ≤ u64Max :=
  MaxwellVaRegion.stop_eq_ok (r := ⟨r.offset, r.pageSize, r.pages⟩)

/-! ### Searches -/

theorem overlapsAny_eq_false {V : Type} {offset : V → ℕ} {stop : V → Checked ℕ} {a b : ℕ} :
    ∀ {vs : List V}, overlapsAny offset stop a b vs = .ok false →
      ∀ v ∈ vs, ∃ e, stop v = .ok e ∧ (e ≤ a ∨ b ≤ offset v) := by
  intro vs
  induction vs with
  | nil => intro _ v hv; simp at hv
  | cons w vs ih =>
    intro h v hv
    obtain ⟨e, he, h⟩ := except_bind_eq_ok.1 h
    split at h
    · simp [pure] at h
    · next hout =>
        rcases mem_cons.1 hv with rfl | hv
        · refine ⟨e, he, ?_⟩
          simp only [Bool.and_eq_true, decide_eq_true_eq, not_and] at hout
          omega
        · exact ih h v hv

section Space

variable {s : MaxwellGpuAddressSpace} {start stop : ℕ}

theorem overlapsMapping_eq_false (h : s.overlapsMapping start stop = .ok false) :
    ∀ m ∈ live s.mappings, hi m ≤ start ∨ stop ≤ lo m := by
  intro m hm
  obtain ⟨e, he, hout⟩ := overlapsAny_eq_false h m (mem_valuesOf.2 hm)
  rw [stop_eq_ok] at he
  rwa [he.1]

theorem overlapsReservation_eq_false (h : s.overlapsReservation start stop = .ok false) :
    ∀ r ∈ live s.reservations, hi r ≤ start ∨ stop ≤ lo r := by
  intro r hr
  obtain ⟨e, he, hout⟩ := overlapsAny_eq_false h r (mem_valuesOf.2 hr)
  rw [MaxwellVaReservation.stop_eq_ok] at he
  rwa [he.1]

theorem overlapsOccupied_eq_false (h : s.overlapsOccupied start stop = .ok false) :
    (∀ r ∈ live s.reservations, hi r ≤ start ∨ stop ≤ lo r) ∧
      ∀ m ∈ live s.mappings, hi m ≤ start ∨ stop ≤ lo m := by
  obtain ⟨b, hb, h⟩ := except_bind_eq_ok.1 h
  cases b with
  | true => simp [pure] at h
  | false => exact ⟨overlapsReservation_eq_false hb, overlapsMapping_eq_false h⟩

theorem firstContaining_eq_some : ∀ {rs : List MaxwellVaReservation},
      MaxwellGpuAddressSpace.firstContaining start stop rs = .ok (some r) →
      r ∈ rs ∧ lo r ≤ start ∧ stop ≤ hi r := by
  intro rs
  induction rs with
  | nil => intro h; simp [MaxwellGpuAddressSpace.firstContaining] at h
  | cons q rs ih =>
    intro h
    have hrest : MaxwellGpuAddressSpace.firstContaining start stop rs = .ok (some r) →
        r ∈ q :: rs ∧ lo r ≤ start ∧ stop ≤ hi r := fun h =>
      ⟨mem_cons_of_mem _ (ih h).1, (ih h).2⟩
    unfold MaxwellGpuAddressSpace.firstContaining at h
    split at h
    · next hlo =>
        obtain ⟨e, he, h⟩ := except_bind_eq_ok.1 h
        rw [MaxwellVaReservation.stop_eq_ok] at he
        split at h
        · next hhi =>
            obtain rfl : q = r := by simpa [pure] using h
            exact ⟨mem_cons_self .., hlo, he.1 ▸ hhi⟩
        · exact hrest h
    · exact hrest h

theorem reservationContaining_eq_some (h : s.reservationContaining start stop = .ok (some r)) :
    r ∈ live s.reservations ∧ lo r ≤ start ∧ stop ≤ hi r := by
  obtain ⟨hmem, hrange⟩ := firstContaining_eq_some h
  exact ⟨mem_valuesOf.1 hmem, hrange⟩

theorem mapM_eq_ok {α β : Type} {f : α → Checked β} {g : α → β} {p : α → Prop}
    (hf : ∀ a b, f a = .ok b ↔ p a ∧ g a = b) {as : List α} {bs : List β} :
    as.mapM f = .ok bs ↔ (∀ a ∈ as, p a) ∧ as.map g = bs := by
  induction as generalizing bs with
  | nil => simp [pure]
  | cons a as ih =>
    simp only [mapM_cons, except_bind_eq_ok, hf, ih]
    simp [pure, and_assoc]

/-- The ranges of the two tables. -/
def occupied (s : MaxwellGpuAddressSpace) : List (ℕ × ℕ) :=
  (valuesOf s.reservations).map (fun r => (lo r, hi r)) ++
    (valuesOf s.mappings).map fun m => (lo m, hi m)

theorem forall_occupied {P : ℕ × ℕ → Prop} : (∀ x ∈ occupied s, P x) ↔
    (∀ r ∈ live s.reservations, P (lo r, hi r)) ∧ ∀ m ∈ live s.mappings, P (lo m, hi m) := by
  simp only [occupied, forall_mem_append, forall_mem_map, mem_valuesOf]

theorem occupiedRanges_eq_ok {ranges : List (ℕ × ℕ)} : s.occupiedRanges = .ok ranges ↔
    (∀ x ∈ occupied s, x.2 ≤ u64Max) ∧ occupied s = ranges := by
  have hr : ∀ (r : MaxwellVaReservation) b, (do return (r.offset, ← r.stop) : Checked _) = .ok b ↔
      hi r ≤ u64Max ∧ (lo r, hi r) = b := by
    intro r b
    simp only [except_bind_eq_ok, MaxwellVaReservation.stop_eq_ok]
    simp [pure, MaxwellVaReservation.lo_eq]
  have hm : ∀ (m : MaxwellGpuMapping) b, (do return (m.offset, ← m.stop) : Checked _) = .ok b ↔
      hi m ≤ u64Max ∧ (lo m, hi m) = b := by
    intro m b
    simp only [except_bind_eq_ok, stop_eq_ok]
    simp [pure, lo_eq]
  simp only [MaxwellGpuAddressSpace.occupiedRanges, except_bind_eq_ok, mapM_eq_ok hr, mapM_eq_ok hm]
  rw [forall_occupied]
  simp [pure, and_assoc, mem_valuesOf, occupied]

end Space

/-! ### The search by first fit -/

section Overlap

variable {candidate candidateEnd : ℕ} {ranges : List (ℕ × ℕ)}

/-- The fold of `overlappingEnd`, from any accumulator: the end of an overlapping range, if there
is one. -/
theorem overlappingEnd_fold {P : ℕ → Prop} : ∀ (ranges : List (ℕ × ℕ)) (acc : Option ℕ),
    (∀ e ∈ acc, P e) → (∀ x ∈ ranges, candidate < x.2 → x.1 < candidateEnd → P x.2) →
      match ranges.foldl (fun acc range =>
          if candidate < range.2 && range.1 < candidateEnd then
            some (acc.elim range.2 (max · range.2)) else acc) acc with
      | none => acc = none ∧ ∀ x ∈ ranges, x.2 ≤ candidate ∨ candidateEnd ≤ x.1
      | some e => P e := by
  intro ranges
  induction ranges with
  | nil =>
    intro acc hacc _
    cases acc with
    | none => simp
    | some e => exact hacc e rfl
  | cons range ranges ih =>
    intro acc hacc hranges
    rw [foldl_cons]
    have hrest := fun x hx => hranges x (mem_cons_of_mem range hx)
    by_cases hover : candidate < range.2 ∧ range.1 < candidateEnd
    · have hend := hranges range (mem_cons_self ..) hover.1 hover.2
      have hnext : ∀ e ∈ some (acc.elim range.2 (max · range.2)), P e := by
        intro e he
        obtain rfl := Option.mem_some_iff.1 he
        cases acc with
        | none => exact hend
        | some d =>
          rw [Option.elim_some]
          rcases max_choice d range.2 with hmax | hmax <;> rw [hmax]
          · exact hacc d rfl
          · exact hend
      have hfold := ih _ hnext hrest
      simp only [hover, decide_true, Bool.and_self, if_true]
      revert hfold
      split
      · rintro ⟨hnone, _⟩
        cases hnone
      · exact id
    · have hfold := ih acc hacc hrest
      rw [if_neg (by simpa using hover)]
      revert hfold
      split
      · rintro ⟨hnone, hall⟩
        exact ⟨hnone, forall_mem_cons.2 ⟨by omega, hall⟩⟩
      · exact id

theorem overlappingEnd_eq_none (h : overlappingEnd ranges candidate candidateEnd = none) :
    ∀ x ∈ ranges, x.2 ≤ candidate ∨ candidateEnd ≤ x.1 := by
  have hfold := overlappingEnd_fold (P := fun _ => True) ranges none (by simp)
    fun x _ (_ : candidate < x.2) (_ : x.1 < candidateEnd) => trivial
  rw [overlappingEnd] at h
  rw [h] at hfold
  exact hfold.2

theorem overlappingEnd_eq_some (h : overlappingEnd ranges candidate candidateEnd = some e) :
    ∃ x ∈ ranges, x.2 = e ∧ candidate < x.2 ∧ x.1 < candidateEnd := by
  have hfold := overlappingEnd_fold
    (P := fun e => ∃ x ∈ ranges, x.2 = e ∧ candidate < x.2 ∧ x.1 < candidateEnd) ranges none
    (by simp) fun x hx hlt hover => ⟨x, hx, rfl, hlt, hover⟩
  rw [overlappingEnd] at h
  rwa [h] at hfold

end Overlap

theorem alignUp_ne_error {error : MaxwellAddressSpaceError}
    (h : value + (alignment - 1) ≤ u64Max) : alignUp value alignment ≠ .error error := by
  rw [alignUp, checkedAdd_eq_some.2 ⟨rfl, h⟩]
  nofun

theorem alignUp_spec {aligned : ℕ} (hpow : alignment.isPowerOfTwo)
    (h : alignUp value alignment = .ok aligned) :
    IsLeast {a | alignment ∣ a ∧ value ≤ a} aligned ∧ aligned ≤ value + (alignment - 1) := by
  obtain ⟨k, rfl⟩ := hpow
  rw [alignUp, orError_eq_ok, Option.map_eq_some_iff] at h
  obtain ⟨sum, hsum, rfl⟩ := h
  rw [checkedAdd_eq_some] at hsum
  rw [and_not_two_pow_sub_one hsum.2]
  have hdiv := Nat.div_add_mod sum (2 ^ k)
  refine ⟨⟨⟨dvd_mul_right .., by omega⟩, ?_⟩, by omega⟩
  rintro a ⟨⟨q, rfl⟩, hle⟩
  refine Nat.mul_le_mul_left _ (Nat.lt_succ_iff.1 (Nat.div_lt_of_lt_mul ?_))
  rw [Nat.mul_succ]
  omega

/-- A range that no reservation and no mapping occupies. -/
structure Free (s : MaxwellGpuAddressSpace) (start stop : ℕ) : Prop where
  reservations : ∀ r ∈ live s.reservations, hi r ≤ start ∨ stop ≤ lo r
  mappings : ∀ m ∈ live s.mappings, hi m ≤ start ∨ stop ≤ lo m

/-- The addresses at which a window of the region starts that nothing occupies. -/
def fits (s : MaxwellGpuAddressSpace) (region : MaxwellVaRegion) (size alignment : ℕ) : Set ℕ :=
  {a | alignment ∣ a ∧ lo region ≤ a ∧ a + size ≤ hi region ∧ Free s a (a + size)}

/-- No sum that the search may form leaves the range of a word. -/
structure NoOverflow (s : MaxwellGpuAddressSpace) (region : MaxwellVaRegion)
    (size alignment : ℕ) : Prop where
  stop : hi region ≤ u64Max
  start : lo region + (alignment - 1) + size ≤ u64Max
  occupied : ∀ x ∈ occupied s, x.2 + (alignment - 1) + size ≤ u64Max

section Search

variable {s : MaxwellGpuAddressSpace} {region : MaxwellVaRegion} {size start stop : ℕ}

theorem free_iff :
    Free s start stop ↔ ∀ x ∈ occupied s, x.2 ≤ start ∨ stop ≤ x.1 :=
  ⟨fun h => forall_occupied.2 ⟨h.1, h.2⟩,
    fun h => ⟨(forall_occupied.1 h).1, (forall_occupied.1 h).2⟩⟩

/-- What the search answers. -/
def FirstFit (s : MaxwellGpuAddressSpace) (region : MaxwellVaRegion) (size alignment : ℕ) :
    Option ℕ → Prop
  | some a => IsLeast (fits s region size alignment) a
  | none => fits s region size alignment = ∅

/-- The loop tries increasing candidates, each of which starts before the end of the region; so the
fuel does not run out.  No window before the candidate fits: one that did would overlap the range
that the candidate was moved past. -/
theorem firstFitFrom_ensures (hpow : alignment.isPowerOfTwo) {regionEnd : ℕ}
    (hregion : region.stop = .ok regionEnd) : ∀ (fuel candidate : ℕ), 0 < fuel →
      regionEnd + 2 ≤ fuel + candidate → alignment ∣ candidate → lo region ≤ candidate →
      (∀ a ∈ fits s region size alignment, candidate ≤ a) →
      (NoOverflow s region size alignment → candidate + size ≤ u64Max) →
      (firstFitFrom regionEnd size alignment fuel candidate).Ensures s
        (fun found t => t = s ∧ FirstFit s region size alignment found)
        (fun _ t => t = s ∧ ¬ NoOverflow s region size alignment) := by
  obtain ⟨hregionEnd, -⟩ := MaxwellVaRegion.stop_eq_ok.1 hregion
  intro fuel
  induction fuel with
  | zero => omega
  | succ fuel ih =>
    intro candidate _ hbound haligned hstart hleast hrange
    refine .okOr (fun candidateEnd hend => ?_) fun hend => ⟨rfl, fun hno => ?_⟩
    swap
    · have hle := hrange hno
      have hlt := checkedAdd_eq_none.1 hend
      omega
    obtain ⟨rfl, -⟩ := checkedAdd_eq_some.1 hend
    by_cases hout : regionEnd < candidate + size
    · rw [if_pos hout]
      refine .pure ⟨rfl, Set.eq_empty_of_forall_notMem fun a ha => ?_⟩
      have hle := hleast a ha
      have hin := ha.2.2.1
      omega
    rw [if_neg hout]
    refine .read (.ofExcept (fun ranges hranges => ?_) fun e he => ⟨rfl, fun hno => ?_⟩)
    swap
    · rw [occupiedRanges_eq_ok.2 ⟨fun x hx => ?_, rfl⟩] at he
      · cases he
      · have hle := hno.occupied x hx
        omega
    obtain ⟨-, rfl⟩ := occupiedRanges_eq_ok.1 hranges
    rcases hover : overlappingEnd (occupied s) candidate (candidate + size) with _ | stop
    · have hfree := free_iff.2 (overlappingEnd_eq_none hover)
      exact .pure ⟨rfl, ⟨haligned, hstart, by omega, hfree⟩, hleast⟩
    obtain ⟨x, hx, rfl, hlt, hbefore⟩ := overlappingEnd_eq_some hover
    refine .ofExcept (fun next hnext => ?_) fun _ he => ⟨rfl, fun hno => ?_⟩
    swap
    · have hle := hno.occupied x hx
      exact alignUp_ne_error (by omega) he
    · obtain ⟨⟨⟨hdvd, hle⟩, hnextLeast⟩, hupper⟩ := alignUp_spec hpow hnext
      refine ih next (by omega) (by omega) hdvd (by omega) (fun a ha => ?_) fun hno => ?_
      · refine hnextLeast ⟨ha.1, ?_⟩
        have hpast := hleast a ha
        rcases free_iff.1 ha.2.2.2 x hx with hafter | hbefore'
        · exact hafter
        · omega
      · have hle := hno.occupied x hx
        omega

/-- **The search by first fit ends**, with the least address that fits. -/
theorem findFirstFit_ensures (hpow : alignment.isPowerOfTwo) :
    (findFirstFit region size alignment).Ensures s
      (fun found t => t = s ∧ hi region ≤ u64Max ∧ FirstFit s region size alignment found)
      (fun _ t => t = s ∧ ¬ NoOverflow s region size alignment) := by
  refine .ofExcept (fun regionEnd hregion => ?_) fun _ he => ⟨rfl, fun hno => ?_⟩
  swap
  · rw [MaxwellVaRegion.stop_eq_ok.2 ⟨rfl, hno.stop⟩] at he
    cases he
  refine .ofExcept (fun candidate hcandidate => ?_) fun _ he => ⟨rfl, fun hno => ?_⟩
  swap
  · exact alignUp_ne_error ((Nat.le_add_right ..).trans hno.start) he
  · obtain ⟨⟨⟨hdvd, hle⟩, hleast⟩, hupper⟩ := alignUp_spec hpow hcandidate
    refine (firstFitFrom_ensures hpow hregion _ candidate (by omega) (by omega) hdvd hle
      (fun a ha => hleast ⟨ha.1, ha.2.1⟩) fun hno => ?_).mono fun found t h => ?_
    · exact (Nat.add_le_add_right hupper size).trans hno.start
    · obtain ⟨rfl, hbounded⟩ := MaxwellVaRegion.stop_eq_ok.1 hregion
      exact ⟨h.1, hbounded, h.2⟩

end Search

/-! ### Cutting -/

namespace MaxwellGpuMapping

/-- The piece of a mapping between two addresses, in a new generation. -/
def slice (m : MaxwellGpuMapping) (start stop generation : ℕ) : MaxwellGpuMapping :=
  { m with offset := start, size := stop - start,
           backingOffset := m.backingOffset + (start - m.offset), generation }

/-- What is left of a mapping when the addresses from `start` to `stop` are taken away. -/
def remains (start stop generation : ℕ) (m : MaxwellGpuMapping) : List MaxwellGpuMapping :=
  (if lo m < start then [m.slice (lo m) start generation] else []) ++
    if stop < hi m then [m.slice stop (hi m) generation] else []

/-- The piece of a mapping between `start` and `stop`, with new attributes. -/
def recoloured (start stop kind : ℕ) (cacheable : Bool) (generation : ℕ) (m : MaxwellGpuMapping) :
    MaxwellGpuMapping :=
  { m.slice (max (lo m) start) (min (hi m) stop) generation with kind, cacheable }

/-- The pieces of a mapping whose attributes change between `start` and `stop`. -/
def modified (start stop kind : ℕ) (cacheable : Bool) (generation : ℕ) (m : MaxwellGpuMapping) :
    List MaxwellGpuMapping :=
  (if lo m < max (lo m) start then [m.slice (lo m) (max (lo m) start) generation] else []) ++
    [m.recoloured start stop kind cacheable generation] ++
      if min (hi m) stop < hi m then [m.slice (min (hi m) stop) (hi m) generation] else []

theorem slice_lo (start generation : ℕ) :
    { m with size := start - m.offset, generation } = m.slice (lo m) start generation := by
  simp [slice, lo_eq]

@[simp] theorem lo_slice (start stop generation : ℕ) :
    lo (m.slice start stop generation) = start := rfl

theorem hi_slice (start stop generation : ℕ) :
    hi (m.slice start stop generation) = start + (stop - start) := rfl

@[simp] theorem lo_recoloured (start stop kind : ℕ) (cacheable : Bool) (generation : ℕ) :
    lo (m.recoloured start stop kind cacheable generation) = max (lo m) start := rfl

theorem hi_recoloured (start stop kind : ℕ) (cacheable : Bool) (generation : ℕ) :
    hi (m.recoloured start stop kind cacheable generation) =
      max (lo m) start + (min (hi m) stop - max (lo m) start) := rfl

variable {start stop : ℕ}

/-- The pieces that remain of a mapping are parts of it. -/
theorem remains_parts (generation : ℕ) (hle : start ≤ stop) (hstart : start < hi m)
    (hstop : lo m < stop) : Parts m (m.remains start stop generation) := by
  by_cases hl : lo m < start <;> by_cases hr : stop < hi m <;> refine ⟨?_, ?_, ?_⟩ <;>
    simp [remains, hl, hr, Within, Apart, hi_slice] <;> omega

theorem modified_parts {cacheable : Bool} {generation : ℕ} (hproper : lo m < hi m)
    (hle : start < stop) (hstart : start < hi m) (hstop : lo m < stop) :
    Parts m (m.modified start stop kind cacheable generation) := by
  by_cases hl : lo m < start <;> by_cases hr : stop < hi m <;> refine ⟨?_, ?_, ?_⟩ <;>
    simp [modified, hl, hr, Within, Apart, hi_slice, hi_recoloured] <;> omega

end MaxwellGpuMapping

variable {stop start : ℕ}

/-- One round of the loop puts what remains of a mapping in its place. -/
theorem replaceOne_eq {k : ℕ} (hk : mappings[k]? = some m)
    (h : replaceOne start stop generation addressBits mappings k = .ok mappings') :
    mappings' = substitute mappings k (m.remains start stop generation) := by
  obtain ⟨mapping, hmapping, h⟩ := except_bind_eq_ok.1 h
  obtain rfl : m = mapping := by simpa [hk] using hmapping
  obtain ⟨mappingEnd, hend, h⟩ := except_bind_eq_ok.1 h
  obtain ⟨rfl, -⟩ := stop_eq_ok.1 hend
  rw [remains, substitute_append, foldl_insert_ite, substitute, foldl_insert_ite]
  simp only [slice_lo] at h
  split at h
  · next hright =>
      obtain ⟨offset, hoffset, h⟩ := except_bind_eq_ok.1 h
      obtain rfl := newAddress_eq_ok hoffset
      obtain ⟨backingOffset, hbacking, h⟩ := except_bind_eq_ok.1 h
      obtain ⟨rfl, -⟩ := checkedAdd_eq_some.1 (orError_eq_ok.1 hbacking)
      cases h
      rw [if_pos hright]
      rfl
  · next hright =>
      cases h
      rw [if_neg hright]
      rfl

theorem modifyOne_eq {k : ℕ} (hk : mappings[k]? = some m)
    (h : modifyOne start stop kind cacheable generation addressBits mappings k = .ok mappings') :
    mappings' = substitute mappings k (m.modified start stop kind cacheable generation) := by
  obtain ⟨mapping, hmapping, h⟩ := except_bind_eq_ok.1 h
  obtain rfl : m = mapping := by simpa [hk] using hmapping
  obtain ⟨mappingEnd, hend, h⟩ := except_bind_eq_ok.1 h
  obtain ⟨rfl, -⟩ := stop_eq_ok.1 hend
  obtain ⟨changedOffset, hoffset, h⟩ := except_bind_eq_ok.1 h
  obtain rfl := newAddress_eq_ok hoffset
  obtain ⟨changedBacking, hbacking, h⟩ := except_bind_eq_ok.1 h
  obtain ⟨rfl, -⟩ := checkedAdd_eq_some.1 (orError_eq_ok.1 hbacking)
  rw [modified, substitute_append, substitute_append, foldl_insert_ite,
    substitute, foldl_insert_ite]
  simp only [slice_lo] at h
  split at h
  · next hright =>
      obtain ⟨rightOffset, hoffset', h⟩ := except_bind_eq_ok.1 h
      obtain rfl := newAddress_eq_ok hoffset'
      obtain ⟨rightBacking, hbacking', h⟩ := except_bind_eq_ok.1 h
      obtain ⟨rfl, -⟩ := checkedAdd_eq_some.1 (orError_eq_ok.1 hbacking')
      cases h
      rw [if_pos hright]
      rfl
  · next hright =>
      cases h
      rw [if_neg hright]
      rfl

/-- `is_ok_and` on the end of a mapping that ends within the words. -/
theorem MaxwellGpuMapping.stopIsOkAnd_eq (h : hi m ≤ u64Max) (p : ℕ → Bool) :
    m.stopIsOkAnd p = p (hi m) := by
  have hstop : m.stop = .ok (hi m) := stop_eq_ok.2 ⟨rfl, h⟩
  rw [stopIsOkAnd, hstop]

/-- A loop over the selected mappings that puts parts in their place carves the set of mappings. -/
theorem carves (h : Sound mappings) {p : MaxwellGpuMapping → Bool} {P : MaxwellGpuMapping → Prop}
    (hp : ∀ m ∈ live mappings, p m = true ↔ P m) {f : MaxwellGpuMapping → List MaxwellGpuMapping}
    (hparts : ∀ m ∈ live mappings, P m → Parts m (f m))
    {step : TreeMap ℕ MaxwellGpuMapping → ℕ → Checked (TreeMap ℕ MaxwellGpuMapping)}
    (hstep : ∀ m k v m', m[k]? = some v → step m k = .ok m' → m' = substitute m k (f v))
    (hrun : (keysWhere mappings p).foldlM step mappings = Except.ok mappings') :
    Sound mappings' ∧ live mappings' = carve (live mappings) P f := by
  have hfound : ∀ k ∈ keysWhere mappings p, ∃ v, mappings[k]? = some v := by
    intro k hk
    obtain ⟨v, hv, _⟩ := mem_keysWhere.1 hk
    exact ⟨v, hv⟩
  have hkey : ∀ m ∈ live mappings, lo m ∈ keysWhere mappings p ↔ P m := fun m hm =>
    (h.mem_keysWhere hm).trans (hp m hm)
  obtain ⟨hsound, hlive⟩ := Sound.foldlM_substitute hstep h
    (keysWhere_nodup _) hfound (fun m hm hk => hparts m hm ((hkey m hm).1 hk)) hrun
  refine ⟨hsound, ?_⟩
  rw [hlive]
  ext w
  constructor
  · rintro (⟨hw, hk⟩ | ⟨m, hm, hk, hw⟩)
    · exact .inl ⟨hw, fun hP => hk ((hkey w hw).2 hP)⟩
    · exact .inr ⟨m, hm, (hkey m hm).1 hk, hw⟩
  · rintro (⟨hw, hP⟩ | ⟨m, hm, hP, hw⟩)
    · exact .inl ⟨hw, fun hk => hP ((hkey w hw).1 hk)⟩
    · exact .inr ⟨m, hm, (hkey m hm).2 hP, hw⟩

/-- The range loses what is mapped in it; the mappings that overlap it keep the rest. -/
theorem replaceMappingRange_carves (h : Sound mappings)
    (hbound : ∀ m ∈ live mappings, hi m ≤ u64Max) (hle : start ≤ stop)
    (hrun : replaceMappingRange mappings start stop generation addressBits = .ok mappings') :
    Sound mappings' ∧ live mappings' = carve (live mappings)
      (fun m => start < hi m ∧ lo m < stop) (remains start stop generation) := by
  refine carves h (fun m hm => ?_) (fun m _ hm => ?_) (fun _ _ _ _ => replaceOne_eq) hrun
  · rw [stopIsOkAnd_eq (hbound m hm)]
    simp [lo_eq]
  · exact remains_parts generation hle hm.1 hm.2

/-- The pieces of one mapping get new attributes in the range. -/
theorem modifyLoop_carves {id : ℕ} (h : Sound mappings)
    (hbound : ∀ m ∈ live mappings, hi m ≤ u64Max) (hlt : start < stop)
    (hrun : (keysWhere mappings fun mapping : MaxwellGpuMapping =>
        mapping.stopIsOkAnd fun mappingEnd =>
          mapping.id == id && start < mappingEnd && mapping.offset < stop).foldlM
      (modifyOne start stop kind cacheable generation addressBits) mappings = Except.ok mappings') :
    Sound mappings' ∧ live mappings' = carve (live mappings)
      (fun m => m.id = id ∧ start < hi m ∧ lo m < stop)
      (modified start stop kind cacheable generation) := by
  refine carves h (fun m hm => ?_) (fun m hm hP => ?_) (fun _ _ _ _ => modifyOne_eq) hrun
  · rw [stopIsOkAnd_eq (hbound m hm)]
    simp [lo_eq, and_assoc]
  · exact modified_parts (h.tiled.proper m hm) hlt
      hP.2.1 hP.2.2

/-- A range that passes the coverage loop has no gap. -/
theorem coverFrom_covers {group : List MaxwellGpuMapping} : ∀ {covered : ℕ},
    coverFrom stop covered group = .ok stop →
    ∀ x, covered ≤ x → x < stop → ∃ m ∈ group, Covers m x := by
  induction group with
  | nil =>
    intro covered h x hx hstop
    obtain rfl : covered = stop := by simpa [coverFrom] using h
    omega
  | cons m group ih =>
    intro covered h x hx hstop
    have hrest : ∀ {c : ℕ}, coverFrom stop c group = .ok stop → c ≤ x →
        ∃ n ∈ m :: group, Covers n x := by
      intro c hc hcx
      obtain ⟨n, hn, hnx⟩ := ih hc x hcx hstop
      exact ⟨n, mem_cons_of_mem _ hn, hnx⟩
    obtain ⟨e, he, h⟩ := except_bind_eq_ok.1 h
    obtain ⟨rfl, -⟩ := stop_eq_ok.1 he
    split at h
    · exact hrest h hx
    · split at h
      · cases h
      · next hskip hgap =>
          -- the piece begins before the gap, and covers the range as far as it reaches
          have hlo : lo m ≤ covered := not_lt.1 hgap
          by_cases hin : x < hi m
          · exact ⟨m, mem_cons_self .., hlo.trans hx, hin⟩
          · split at h
            · next hfull =>
                have hmin : min (hi m) stop = stop := by simpa using hfull
                omega
            · exact hrest h (by omega)

end Nixe.AddressSpace
