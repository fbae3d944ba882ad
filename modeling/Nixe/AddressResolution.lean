/-
**Resolving GPU ranges, and reading through what was resolved.**

A range of GPU addresses is resolved into segments, each with a copy of the mapping it goes through.
When the range is read, the copies are first compared with the mappings that are there now: same
offset, same size, same id and same generation.  The comparison leaves out most of the mapping.  It
is enough because a generation is never used for two changes: over any history, the offset and the
generation determine the mapping.

Main definitions:

* `resolveMaximal`, `resolveRange` — resolution;
* `checkCurrent`, `readResolvedWith` — the check, and the read;
* `Segments` — the segments are the mappings that overlap the range;
* `SameMappings` — two address spaces have the same mappings in a range.

Main results:

* `resolveRange_ensures` — what resolution returns;
* `run_old_or_new` — a mapping with an old generation is an old mapping;
* `no_stale_reads` — **no stale reads**;
* `restamped_read_refused` — a mapping that has only been given a new generation.
-/

import Nixe.AddressSpaceNames

set_option autoImplicit false

namespace Nixe.AddressSpace

open Call (read update failIf okOr ofExcept expect)
open Intervals List Option MaxwellGpuMapping
open Intervals.Ranged (lo hi)

/-! ### Resolution -/

structure MaxwellResolvedMapping where
  gpuOffset : ℕ
  size : ℕ
  backingOffset : ℕ
  mapping : MaxwellGpuMapping
deriving DecidableEq, Repr

structure MaxwellResolvedRange where
  addressSpace : ℕ
  offset : GpuVirtualAddress
  size : ℕ
  permissions : MemoryPermissions
  segments : List MaxwellResolvedMapping
deriving DecidableEq, Repr

/-- `MaxwellGpuAccessError`; the type of the errors of the retained memory is a parameter. -/
inductive MaxwellGpuAccessError (ε : Type) where
  | notInitialized
  | emptyRange
  | invalidPermissions
  | arithmeticOverflow
  | wrongAddressSpace (expected actual : ℕ)
  | address (error : GpuVirtualAddressError)
  | unmappedAddress (address : GpuVirtualAddress)
  | permissionDenied (address : GpuVirtualAddress) (required available : MemoryPermissions)
  | outputSizeMismatch (expected actual : ℕ)
  | staleMapping (mapping generation : ℕ)
  | backing (error : ε)
deriving DecidableEq, Repr

section

variable {ε : Type}

abbrev AccessCall (ε α : Type) : Type := Call MaxwellGpuAddressSpace (MaxwellGpuAccessError ε) α

/-- `GpuVirtualAddress::checked_add`. -/
def addressAdd (address byteOffset addressBits : ℕ) : Except GpuVirtualAddressError ℕ :=
  if !validAddressWidth addressBits then .error (.invalidAddressWidth addressBits)
  else if !fitsAddressWidth address addressBits then
    .error (.addressOutOfRange address addressBits)
  else match checkedAdd address byteOffset with
    | none => .error .arithmeticOverflow
    | some value => tryNew value addressBits

variable (offset : GpuVirtualAddress)

def validateResolutionRequest (permissions : MemoryPermissions) : AccessCall ε Unit := do
  let s ← read
  failIf s.regions.isNone .notInitialized
  let _ ← ofExcept ((tryNew offset s.profile.addressBits).mapError .address)
  failIf (permissions == .none) .invalidPermissions

def resolveMaximal (permissions : MemoryPermissions) : AccessCall ε MaxwellResolvedMapping := do
  validateResolutionRequest offset permissions
  let s ← read
  let mapping ← okOr (((floor? s.mappings offset).map Prod.snd).filter fun mapping =>
    mapping.stopIsOkAnd fun mappingEnd => offset < mappingEnd) (.unmappedAddress offset)
  failIf (!mapping.permissions.contains permissions)
    (.permissionDenied offset permissions mapping.permissions)
  let withinMapping ←
    okOr (if mapping.offset ≤ offset then some (offset - mapping.offset) else none)
    .arithmeticOverflow
  let size ←
    okOr (if withinMapping ≤ mapping.size then some (mapping.size - withinMapping) else none)
    .arithmeticOverflow
  let backingOffset ← okOr (checkedAdd mapping.backingOffset withinMapping) .arithmeticOverflow
  return { gpuOffset := offset, size, backingOffset, mapping }

/-- The cursor moves on while something remains. -/
def advance (cursor : GpuVirtualAddress) (size remaining : ℕ) : AccessCall ε GpuVirtualAddress :=
  if remaining = 0 then pure cursor
  else do
    let s ← read
    ofExcept ((addressAdd cursor size s.profile.addressBits).mapError .address)

/-- The loop of `resolve_range`.  The fuel bounds the number of segments; a loop that used it up
would not end. -/
def resolveFrom (permissions : MemoryPermissions) : ℕ → ℕ → GpuVirtualAddress →
    AccessCall ε (List MaxwellResolvedMapping)
  | 0, remaining, _ => if remaining = 0 then return [] else expect none "the loop does not end"
  | fuel + 1, remaining, cursor =>
    if remaining = 0 then return []
    else do
      let segment ← resolveMaximal cursor permissions
      let size := min segment.size remaining
      let next ← advance cursor size (remaining - size)
      let segments ← resolveFrom permissions fuel (remaining - size) next
      return { segment with size } :: segments

def resolveRange (size : ℕ) (permissions : MemoryPermissions) :
    AccessCall ε MaxwellResolvedRange := do
  validateResolutionRequest offset permissions
  failIf (size == 0) .emptyRange
  let s ← read
  let _ ← ofExcept ((addressAdd offset (size - 1) s.profile.addressBits).mapError .address)
  let segments ← resolveFrom permissions size size offset
  return { addressSpace := s.id, offset, size, permissions, segments }

/-! ### Reading -/

/-- Reports whether a retained mapping still names the active generation. -/
def retainedMappingIsCurrent (s : MaxwellGpuAddressSpace) (retained : MaxwellGpuMapping) : Bool :=
  s.mappings[retained.offset]?.any fun mapping =>
    mapping.id == retained.id && mapping.generation == retained.generation &&
      mapping.offset == retained.offset && mapping.size == retained.size

/-- The staleness check of `read_resolved_with`. -/
def checkCurrent (s : MaxwellGpuAddressSpace) :
    List MaxwellResolvedMapping → Except (MaxwellGpuAccessError ε) Unit
  | [] => .ok ()
  | segment :: segments =>
    if retainedMappingIsCurrent s segment.mapping then checkCurrent s segments
    else .error (.staleMapping segment.mapping.id segment.mapping.generation)

/-- How bytes of retained memory are read: from an offset, into a slice of the output. -/
abbrev Reader (ε : Type) : Type :=
  CanonicalBackingRange → ℕ → List UInt8 → Except ε Unit × List UInt8

/-- The copy loop of `read_resolved_with`, on the output. -/
def copySegments (reader : Reader ε) :
    List MaxwellResolvedMapping → ℕ → Call (List UInt8) (MaxwellGpuAccessError ε) Unit
  | [], _ => return ()
  | segment :: segments, copied => do
      let output ← read
      let copiedEnd := copied + segment.size
      let (result, slice) := reader segment.mapping.backing segment.backingOffset
        ((output.take copiedEnd).drop copied)
      update fun output => output.take copied ++ slice ++ output.drop copiedEnd
      ofExcept (result.mapError .backing)
      copySegments reader segments copiedEnd

/-- `read_resolved_with`; `read_resolved` and `read_resolved_words` pass two readers. -/
def readResolvedWith (s : MaxwellGpuAddressSpace) (reader : Reader ε)
    (resolved : MaxwellResolvedRange) : Call (List UInt8) (MaxwellGpuAccessError ε) Unit := do
  let output ← read
  failIf (resolved.addressSpace != s.id) (.wrongAddressSpace resolved.addressSpace s.id)
  failIf (!resolved.permissions.contains .read)
    (.permissionDenied resolved.offset .read resolved.permissions)
  failIf (output.length != resolved.size) (.outputSizeMismatch resolved.size output.length)
  ofExcept (checkCurrent s resolved.segments)
  copySegments reader resolved.segments 0

end

/-! ### What resolution returns -/

variable {segment : MaxwellResolvedMapping} {m : MaxwellGpuMapping}
  {permissions : MemoryPermissions} {ds : List Command} {resolved : MaxwellResolvedRange}
  {output : List UInt8}

section Resolution

variable {ε : Type} {s : MaxwellGpuAddressSpace} {offset : ℕ}

/-- A segment goes through a mapping of the address space, from the byte of its address on. -/
structure Through (s : MaxwellGpuAddressSpace) (segment : MaxwellResolvedMapping) : Prop where
  live : segment.mapping ∈ live s.mappings
  covers : Covers segment.mapping segment.gpuOffset
  nonempty : 0 < segment.size
  within : segment.gpuOffset + segment.size ≤ hi segment.mapping
  backingOffset_eq : segment.backingOffset =
    segment.mapping.backingOffset + (segment.gpuOffset - lo segment.mapping)

/-- The segments lead through the mappings of a range, without a gap. -/
structure Segments (s : MaxwellGpuAddressSpace) (start stop : ℕ)
    (segments : List MaxwellResolvedMapping) : Prop where
  through : ∀ segment ∈ segments, Through s segment
  inside : ∀ segment ∈ segments,
    start ≤ segment.gpuOffset ∧ segment.gpuOffset + segment.size ≤ stop
  covered : ∀ a, start ≤ a → a < stop → ∃ segment ∈ segments,
    segment.gpuOffset ≤ a ∧ a < segment.gpuOffset + segment.size

theorem validateResolutionRequest_bind {α : Type} {f : Unit → AccessCall ε α}
    {Q : α → MaxwellGpuAddressSpace → Prop}
    {E : MaxwellGpuAccessError ε → MaxwellGpuAddressSpace → Prop} (hE : ∀ e, E e s)
    (h : (f ()).Ensures s Q E) :
    (validateResolutionRequest offset permissions >>= f).Ensures s Q E := by
  refine .bind (.read (.failIf (fun _ => ?_) fun _ => hE _))
  refine .ofExcept (fun _ _ => ?_) fun _ _ => hE _
  unfold failIf Call.Ensures
  split <;> rename_i heq <;> split at heq <;> cases heq
  · exact h
  · exact hE _

theorem MaxwellGpuMapping.of_stopIsOkAnd {p : ℕ → Bool} (h : m.stopIsOkAnd p = true) :
    p (hi m) = true := by
  unfold stopIsOkAnd at h
  split at h
  · next e he =>
      obtain ⟨rfl, -⟩ := stop_eq_ok.1 he
      exact h
  · cases h

theorem resolveMaximal_ensures (hs : WellFormed s) :
    (resolveMaximal offset permissions : AccessCall ε _).Ensures s
      (fun segment t => t = s ∧ segment.gpuOffset = offset ∧ Through s segment ∧
        segment.gpuOffset + segment.size = hi segment.mapping) (fun _ t => t = s) := by
  refine validateResolutionRequest_bind (fun _ => rfl) (.read ?_)
  refine .okOr fun m hm => ?_
  obtain ⟨hfloor, hstop⟩ := filter_eq_some_iff.1 hm
  have hat : at? s.mappings offset = some m := by
    rw [← hs.mappings.floor?_eq, filter_eq_some_iff]
    exact ⟨hfloor, of_stopIsOkAnd hstop⟩
  obtain ⟨hlive, hlo, hhi⟩ := hs.mappings.at?_eq_some.1 hat
  refine .failIf fun _ => ?_
  refine .okOr fun within hwithin => ?_
  obtain rfl : offset - m.offset = within := by
    split at hwithin <;> simp_all
  refine .okOr fun size hsize => ?_
  obtain rfl : m.size - (offset - m.offset) = size := by
    split at hsize <;> simp_all
  refine .okOr fun backingOffset hbacking => ?_
  obtain ⟨rfl, -⟩ := checkedAdd_eq_some.1 hbacking
  rw [lo_eq] at hlo
  rw [hi_eq] at hhi
  have hend : offset + (m.size - (offset - m.offset)) = m.offset + m.size := by omega
  have hpos : 0 < m.size - (offset - m.offset) := by omega
  exact .pure ⟨rfl, rfl, ⟨hlive, ⟨hlo, hhi⟩, hpos, hend.le, rfl⟩, hend⟩

theorem addressAdd_eq_ok {address byteOffset addressBits sum : ℕ}
    (h : addressAdd address byteOffset addressBits = .ok sum) : sum = address + byteOffset := by
  unfold addressAdd at h
  split at h
  · cases h
  · split at h
    · cases h
    · split at h
      · cases h
      · next value hvalue =>
          obtain ⟨rfl, -⟩ := checkedAdd_eq_some.1 hvalue
          have hnew : newAddress (address + byteOffset) addressBits = .ok sum := by
            rw [newAddress, h]
            rfl
          exact newAddress_eq_ok hnew

theorem advance_ensures {cursor size remaining : ℕ} :
    (advance cursor size remaining : AccessCall ε _).Ensures s
      (fun next t => t = s ∧ (remaining ≠ 0 → next = cursor + size)) (fun _ t => t = s) := by
  unfold advance
  split
  · next hzero => exact ⟨rfl, (absurd hzero)⟩
  · refine .read ?_
    rcases hadd : addressAdd cursor size s.profile.addressBits with e | next
    · exact rfl
    · exact ⟨rfl, fun _ => addressAdd_eq_ok hadd⟩

theorem Segments.nil {start : ℕ} : Segments s start (start + 0) [] :=
  ⟨by simp, by simp, by omega⟩

/-- A segment is put before the segments of the rest of the range. -/
theorem Segments.cons {next remaining : ℕ} {segments : List MaxwellResolvedMapping}
    (hthrough : Through s segment) (hpos : 0 < remaining)
    (hrest : Segments s next (next + (remaining - min segment.size remaining)) segments)
    (hnext : remaining - min segment.size remaining ≠ 0 →
      next = segment.gpuOffset + min segment.size remaining) :
    Segments s segment.gpuOffset (segment.gpuOffset + remaining)
      ({ segment with size := min segment.size remaining } :: segments) := by
  have hmin : 0 < min segment.size remaining := lt_min hthrough.nonempty hpos
  have hsize : min segment.size remaining ≤ segment.size := min_le_left ..
  have hremaining : min segment.size remaining ≤ remaining := min_le_right ..
  have hwithin := hthrough.within
  generalize min segment.size remaining = n at *
  refine ⟨?_, ?_, ?_⟩
  · intro q hq
    rcases mem_cons.1 hq with rfl | hq
    · have hend : segment.gpuOffset + n ≤ hi segment.mapping := by omega
      exact ⟨hthrough.live, hthrough.covers, hmin, hend, hthrough.backingOffset_eq⟩
    · exact hrest.through q hq
  · intro q hq
    rcases mem_cons.1 hq with rfl | hq
    · exact ⟨le_rfl, Nat.add_le_add_left hremaining _⟩
    · have hinside := hrest.inside q hq
      have hnonempty := (hrest.through q hq).nonempty
      omega
  · intro a hlo hhi
    by_cases hfirst : a < segment.gpuOffset + n
    · exact ⟨_, mem_cons_self .., hlo, hfirst⟩
    · obtain ⟨q, hq, hqa⟩ := hrest.covered a (by omega) (by omega)
      exact ⟨q, mem_cons_of_mem _ hq, hqa⟩

/-- Every round takes a byte at least, so that the fuel does not run out. -/
theorem resolveFrom_ensures (hs : WellFormed s) : ∀ (fuel remaining cursor : ℕ), remaining ≤ fuel →
      (resolveFrom permissions fuel remaining cursor : AccessCall ε _).Ensures s
        (fun segments t => t = s ∧ Segments s cursor (cursor + remaining) segments)
        (fun _ t => t = s) := by
  intro fuel
  induction fuel with
  | zero =>
    intro remaining cursor hle
    obtain rfl : remaining = 0 := by omega
    exact ⟨rfl, .nil⟩
  | succ fuel ih =>
    intro remaining cursor hle
    unfold resolveFrom
    split
    · next hzero =>
        subst hzero
        exact ⟨rfl, .nil⟩
    · next hne =>
        refine .seq (resolveMaximal_ensures hs) ?_
        rintro segment t ⟨rfl, rfl, hthrough, hend⟩
        have hpos := hthrough.nonempty
        refine .seq advance_ensures ?_
        rintro next t ⟨rfl, hnext⟩
        refine .seq (ih _ next (by omega)) ?_
        rintro segments t ⟨rfl, hrest⟩
        exact .pure ⟨rfl, hrest.cons hthrough (by omega) hnext⟩

/-- **What resolution returns**: the segments of the range. -/
theorem resolveRange_ensures (hs : WellFormed s) {size : ℕ} :
    (resolveRange offset size permissions : AccessCall ε _).Ensures s
      (fun resolved t => t = s ∧ resolved.addressSpace = s.id ∧ resolved.permissions = permissions ∧
        resolved.size = size ∧ offset < offset + size ∧
        Segments s offset (offset + size) resolved.segments) (fun _ t => t = s) := by
  refine validateResolutionRequest_bind (fun _ => rfl) ?_
  refine .failIf fun hsize => .read ?_
  refine .ofExcept fun _ _ => ?_
  refine .seq (resolveFrom_ensures hs size size offset le_rfl) ?_
  rintro segments t ⟨rfl, hsegments⟩
  have hpositive : 0 < size := pos_of_ne_zero (by simpa using hsize)
  exact .pure ⟨rfl, rfl, rfl, rfl, by omega, hsegments⟩

end Resolution

/-! ### Generations over histories -/

variable {ε : Type}

section Histories

variable {s t : MaxwellGpuAddressSpace} {start stop : ℕ} {segments : List MaxwellResolvedMapping}

/-- After a call, a mapping is as it was before or has a new generation. -/
theorem Effect.old_or_new (hs : WellFormed s) {c : Command} {out : Response}
    (h : Effect s c out t) :
    ∀ m ∈ live t.mappings, m ∈ live s.mappings ∨ s.mappingGeneration < m.generation := by
  cases h with
  | initialized | ignored => exact fun m => .inl
  | reserved hproper hbounded hfree ht =>
    rw [ht.mappings_eq]
    exact fun m => .inl
  | freed hr hoffset hgeneration ht | unmapped hid hremoved ht =>
    rw [ht.mappings_eq]
    exact fun m hm => .inl hm.1
  | mapped hm ht =>
    rw [ht.mappings_eq]
    rintro m (rfl | hold)
    · rw [hm.generation_eq]
      omega
    · exact .inl hold
  | remapped hvalid hapart ht =>
    rw [ht.mappings_eq]
    refine remapped_forall ?_ (fun m => .inl) ?_
    · intro m w _ hpiece
      rw [hpiece.generation_eq]
      omega
    · intro request _ source _ newId _ _
      exact .inr (Nat.lt_succ_self _)
  | modified hid hsize hcovered ht =>
    rw [ht.mappings_eq]
    rintro w (⟨hw, _⟩ | ⟨m, hm, ⟨_, hstart, hstop⟩, hw⟩)
    · exact .inl hw
    · have hproper := hs.mappings.tiled.proper m hm
      rw [(modified_piece hproper (by omega) hstart hstop hw).generation_eq]
      omega

/-- **A mapping with an old generation is an old mapping**, after any further calls. -/
theorem run_old_or_new (hs : WellFormed s) :
    WellFormed (machine.run s ds) ∧ s.mappingGeneration ≤ (machine.run s ds).mappingGeneration ∧
    ∀ m ∈ live (machine.run s ds).mappings, m.generation ≤ s.mappingGeneration →
      m ∈ live s.mappings := by
  refine Machine.run_invariant_all (I := fun t => WellFormed t ∧
    s.mappingGeneration ≤ t.mappingGeneration ∧
    ∀ m ∈ live t.mappings, m.generation ≤ s.mappingGeneration → m ∈ live s.mappings) ?_ ds s
    ⟨hs, le_rfl, fun m hm _ => hm⟩
  rintro t c ⟨ht, hle, hold⟩
  rcases step_cases ht c with ⟨out, _, h⟩ | ⟨_, _, h⟩
  · refine ⟨h.wellFormed ht, hle.trans h.generation_le, ?_⟩
    intro m hm hm'
    rcases h.old_or_new ht m hm with hm | hnew
    · exact hold m hm hm'
    · omega
  · rw [h]
    exact ⟨ht, hle, hold⟩

/-- The same mappings, with the same generations, overlap the range. -/
def SameMappings (s t : MaxwellGpuAddressSpace) (start stop : ℕ) : Prop :=
  ∀ m : MaxwellGpuMapping, start < hi m → lo m < stop →
    (m ∈ live t.mappings ↔ m ∈ live s.mappings)

/-- The mapping that a segment goes through covers the addresses of the segment. -/
theorem Through.covers_of_mem (h : Through s segment) {a : ℕ} (hlo : segment.gpuOffset ≤ a)
    (hhi : a < segment.gpuOffset + segment.size) : Covers segment.mapping a :=
  ⟨h.covers.1.trans hlo, hhi.trans_le h.within⟩

/-- The mappings of a resolved range are those of its segments. -/
theorem Segments.exists_segment (hs : WellFormed s) (h : Segments s start stop segments)
    (hlt : start < stop) (hm : m ∈ live s.mappings) (hstart : start < hi m) (hstop : lo m < stop) :
    ∃ segment ∈ segments, segment.mapping = m := by
  have hproper := hs.mappings.tiled.proper m hm
  obtain ⟨segment, hmem, hlo, hhi⟩ := h.covered (max start (lo m)) (by omega) (by omega)
  have hcovers := (h.through segment hmem).covers_of_mem hlo hhi
  exact ⟨segment, hmem, hs.mappings.tiled.eq_of_covers (h.through segment hmem).live hm hcovers
    ⟨by omega, by omega⟩⟩

/-- If the mappings of the segments are there, they are all that overlaps the range. -/
theorem Segments.sameMappings (hs : WellFormed s) (ht : WellFormed t)
    (h : Segments s start stop segments) (hlt : start < stop)
    (hkept : ∀ segment ∈ segments, segment.mapping ∈ live t.mappings) :
    SameMappings s t start stop := by
  intro m hstart hstop
  constructor
  · intro hm
    have hproper := ht.mappings.tiled.proper m hm
    obtain ⟨segment, hmem, hlo, hhi⟩ := h.covered (max start (lo m)) (by omega) (by omega)
    have hcovers := (h.through segment hmem).covers_of_mem hlo hhi
    have heq := ht.mappings.tiled.eq_of_covers (hkept segment hmem) hm hcovers ⟨by omega, by omega⟩
    exact heq ▸ (h.through segment hmem).live
  · intro hm
    obtain ⟨segment, hmem, rfl⟩ := h.exists_segment hs hlt hm hstart hstop
    exact hkept segment hmem

theorem checkCurrent_eq_ok :
    (checkCurrent s segments : Except (MaxwellGpuAccessError ε) Unit) = .ok () ↔
      ∀ segment ∈ segments, retainedMappingIsCurrent s segment.mapping = true := by
  induction segments with
  | nil => simp [checkCurrent]
  | cons segment segments ih =>
    unfold checkCurrent
    split
    · next hcurrent => simp [ih, hcurrent]
    · next hstale => simp [hstale]

/-- A retained mapping is current exactly if it is still there, after any further calls. -/
theorem current_iff (hs : WellFormed s) (hm : m ∈ live s.mappings) :
    retainedMappingIsCurrent (machine.run s ds) m = true ↔
      m ∈ live (machine.run s ds).mappings := by
  obtain ⟨ht, -, hold⟩ := run_old_or_new hs
  constructor
  · intro hcurrent
    obtain ⟨m', hfound, heq⟩ := (any_eq_true _ _).1 hcurrent
    simp only [Bool.and_eq_true, beq_iff_eq] at heq
    obtain ⟨⟨⟨-, hgeneration⟩, hoffset⟩, -⟩ := heq
    have hm' : m' ∈ live (machine.run s ds).mappings := ⟨m.offset, hfound⟩
    -- generations only grow, so `m'` is as old as `m`; in the old state, they start alike
    have hle : m'.generation ≤ s.mappingGeneration := hgeneration ▸ (hs.valid m hm).dated
    exact hs.mappings.tiled.eq_of_lo (hold m' hm' hle) hm hoffset ▸ hm'
  · intro hm'
    have hfound : (machine.run s ds).mappings[m.offset]? = some m := ht.mappings.mem_live.1 hm'
    simp [retainedMappingIsCurrent, hfound]

theorem Effect.id_eq {c : Command} {out : Response} (h : Effect s c out t) : t.id = s.id := by
  cases h with
  | initialized => rfl
  | reserved _ _ _ ht | freed _ _ _ ht | mapped _ ht | unmapped _ _ ht | remapped _ _ ht
  | modified _ _ _ ht => exact ht.same.1
  | ignored => rfl

/-- The identity of an address space does not change. -/
theorem run_id (hs : WellFormed s) : (machine.run s ds).id = s.id := by
  refine (Machine.run_invariant_all (I := fun t => WellFormed t ∧ t.id = s.id) ?_ ds s ⟨hs, rfl⟩).2
  rintro t c ⟨ht, hid⟩
  refine ⟨step_wellFormed ht, ?_⟩
  rcases step_cases ht c with ⟨out, _, h⟩ | ⟨_, _, h⟩
  · exact h.id_eq.trans hid
  · rw [h]
    exact hid

/-- The staleness check passes exactly if nothing changed in the range. -/
theorem Segments.checkCurrent_iff (hs : WellFormed s) (h : Segments s start stop segments)
    (hlt : start < stop) (ds : List Command) :
    (checkCurrent (machine.run s ds) segments : Except (MaxwellGpuAccessError ε) Unit) = .ok () ↔
      SameMappings s (machine.run s ds) start stop := by
  rw [checkCurrent_eq_ok]
  constructor
  · intro hcurrent
    refine h.sameMappings hs (run_old_or_new hs).1 hlt fun segment hmem => ?_
    exact (current_iff hs (h.through segment hmem).live).1 (hcurrent segment hmem)
  · intro hsame segment hmem
    have hthrough := h.through segment hmem
    have hinside := h.inside segment hmem
    have hnonempty := hthrough.nonempty
    have hcovers := hthrough.covers
    refine (current_iff hs hthrough.live).2 ((hsame segment.mapping ?_ ?_).2 hthrough.live)
    · exact hinside.1.trans_lt hcovers.2
    · exact hcovers.1.trans_lt (by omega)

/-- What did not change in the end did not change in between. -/
theorem SameMappings.of_isPrefix (hs : WellFormed s) (h : Segments s start stop segments)
    (hlt : start < stop) {es : List Command} (hes : es <+: ds)
    (hsame : SameMappings s (machine.run s ds) start stop) :
    SameMappings s (machine.run s es) start stop := by
  obtain ⟨fs, rfl⟩ := hes
  obtain ⟨ht, hle, -⟩ := run_old_or_new hs
  refine h.sameMappings hs ht hlt fun segment hmem => ?_
  have hthrough := h.through segment hmem
  have hinside := h.inside segment hmem
  have hnonempty := hthrough.nonempty
  have hlast := (hsame segment.mapping (hinside.1.trans_lt hthrough.covers.2)
    (hthrough.covers.1.trans_lt (by omega))).2 hthrough.live
  rw [Machine.run_append] at hlast
  exact (run_old_or_new ht).2.2 _ hlast ((hs.valid _ hthrough.live).dated.trans hle)

/-- A segment leads to the bytes that the addresses translate to. -/
theorem Through.translate_eq (h : Through s segment) (ht : WellFormed t)
    (hkept : segment.mapping ∈ Intervals.live t.mappings) {j : ℕ} (hj : j < segment.size) :
    translate t (segment.gpuOffset + j) =
      some { (segment.mapping.entryAt segment.gpuOffset).translation with
        backingByte := segment.backingOffset + j } := by
  have hcovers := h.covers_of_mem (Nat.le_add_right _ j) (Nat.add_lt_add_left hj _)
  have hentry := (entry_eq_some ht.mappings).2 ⟨segment.mapping, hkept, hcovers, rfl⟩
  have hbyte := h.backingOffset_eq
  have hlo : lo segment.mapping ≤ segment.gpuOffset := h.covers.1
  rw [translate, hentry, map_some, some.injEq]
  simp only [entryAt, hbyte, Translation.mk.injEq, true_and, and_true]
  change segment.mapping.backingOffset + (segment.gpuOffset + j - lo segment.mapping) = _
  omega

end Histories

/-! ### The theorem -/

variable {s : MaxwellGpuAddressSpace} (reader : Reader ε)

/-- A read whose staleness check fails leaves the output as it was. -/
theorem readResolvedWith_stale
    (h : (checkCurrent s resolved.segments : Except (MaxwellGpuAccessError ε) Unit) ≠ .ok ()) :
    ∃ e, readResolvedWith s reader resolved output = (.err e, output) := by
  have hensures : (readResolvedWith s reader resolved).Ensures output (fun _ _ => False)
      (fun _ t => t = output) := by
    refine .read (.failIf fun _ => ?_)
    refine .failIf fun _ => .failIf fun _ => ?_
    exact .ofExcept fun _ hok => absurd hok h
  rcases hensures.ok_or_err with ⟨_, _, hfalse⟩ | ⟨e, he, houtput⟩
  · exact hfalse.elim
  · exact ⟨e, Prod.ext he houtput⟩

/-- A read whose staleness check passes copies the segments. -/
theorem readResolvedWith_current (hid : resolved.addressSpace = s.id)
    (hread : resolved.permissions.contains .read = true) (hlength : output.length = resolved.size)
    (h : (checkCurrent s resolved.segments : Except (MaxwellGpuAccessError ε) Unit) = .ok ()) :
    readResolvedWith s reader resolved output = copySegments reader resolved.segments 0 output := by
  simp [readResolvedWith, hid, hread, hlength, h]

/-- **No stale reads.**  A range is resolved in a state of the address space, and further calls are
made.  The staleness check of a read then passes exactly if the mappings of the range are the ones
that were there when it was resolved and no call has given them new generations.  If it passes, they
were there all the time, the segments lead to the bytes that the addresses translate to, and the
read copies the segments; if it does not, nothing is read. -/
theorem no_stale_reads {ε : Type} (id : ℕ) (profile : MaxwellGpuProfile) (cs ds : List Command)
    (offset size : ℕ) (permissions : MemoryPermissions) (resolved : MaxwellResolvedRange)
    (h : ((resolveRange offset size permissions : AccessCall ε MaxwellResolvedRange)
      (machine.run (.new id profile) cs)).1 = .ok resolved) :
    let s₀ := machine.run (.new id profile) cs
    let s₁ := machine.run s₀ ds
    let unchanged := SameMappings s₀ s₁ offset (offset + size)
    ((checkCurrent s₁ resolved.segments : Except (MaxwellGpuAccessError ε) Unit) = .ok () ↔
      unchanged) ∧
    (unchanged → (∀ es, es <+: ds → SameMappings s₀ (machine.run s₀ es) offset (offset + size)) ∧
      (∀ segment ∈ resolved.segments, ∀ j < segment.size, translate s₁ (segment.gpuOffset + j) =
          some { (segment.mapping.entryAt segment.gpuOffset).translation with
            backingByte := segment.backingOffset + j }) ∧
      ∀ (reader : Reader ε) output, permissions.contains .read = true →
        output.length = size → readResolvedWith s₁ reader resolved output =
          copySegments reader resolved.segments 0 output) ∧
    (¬ unchanged → ∀ (reader : Reader ε) output,
      ∃ e, readResolvedWith s₁ reader resolved output = (.err e, output)) := by
  intro s₀ s₁ unchanged
  have hs : WellFormed s₀ := run_wellFormed id profile cs
  obtain ⟨ht, -⟩ := run_old_or_new hs
  obtain ⟨-, hid, hpermissions, hsize, hlt, hsegments⟩ :=
    (resolveRange_ensures hs).of_ok (Prod.ext h rfl)
  have hiff := hsegments.checkCurrent_iff (ε := ε) hs hlt ds
  refine ⟨hiff, ?_, ?_⟩
  · intro hsame
    refine ⟨fun es => hsame.of_isPrefix hs hsegments hlt, ?_, ?_⟩
    · intro segment hmem j hj
      have hthrough := hsegments.through segment hmem
      refine hthrough.translate_eq ht ?_ hj
      exact (current_iff hs hthrough.live).1 (checkCurrent_eq_ok.1 (hiff.2 hsame) segment hmem)
    · intro reader output hread hlength
      exact readResolvedWith_current reader (hid.trans (run_id hs).symm)
        (by rwa [hpermissions]) (hlength.trans hsize.symm) (hiff.2 hsame)
  · intro hchanged reader output
    exact readResolvedWith_stale reader fun hok => hchanged (hiff.1 hok)

/-- A range is resolved in a state, and stale in another. -/
theorem exists_stale (s₀ s₁ : MaxwellGpuAddressSpace) (offset size : ℕ)
    (permissions : MemoryPermissions)
    (h : (((resolveRange offset size permissions : AccessCall ε MaxwellResolvedRange)
      s₀).1.value.any fun resolved =>
        (checkCurrent s₁ resolved.segments : Except (MaxwellGpuAccessError ε) Unit).isOk.not) =
      true) :
    ∃ resolved, ((resolveRange offset size permissions : AccessCall ε MaxwellResolvedRange)
      s₀).1 = .ok resolved ∧
      (checkCurrent s₁ resolved.segments : Except (MaxwellGpuAccessError ε) Unit) ≠ .ok () := by
  obtain ⟨resolved, hvalue, hstale⟩ := (any_eq_true _ _).1 h
  refine ⟨resolved, Outcome.value_eq_some.1 hvalue, fun hcurrent => ?_⟩
  rw [hcurrent] at hstale
  cases hstale

/-- A page is resolved, and then its mapping is created anew, at the same address, with the same
size and backing; a read of the resolved page is refused. -/
theorem no_stale_reads_after_remap : let s₀ := machine.run (.new 1 switch1Gm20bProfile) headRemap
    let s₁ := machine.run s₀ [headRemap.getLast (by decide)]
    ∃ resolved, ((resolveRange defaultVaSplit 0x1000 .read : AccessCall Empty MaxwellResolvedRange)
      s₀).1 = .ok resolved ∧
      ∀ (reader : Reader Empty) output,
        ∃ e, readResolvedWith s₁ reader resolved output = (.err e, output) := by
  intro s₀ s₁
  obtain ⟨resolved, hok, hstale⟩ :=
    exists_stale (ε := Empty) s₀ s₁ defaultVaSplit 0x1000 .read (by decide +kernel)
  obtain ⟨hiff, -, hchanged⟩ := no_stale_reads 1 switch1Gm20bProfile headRemap
    [headRemap.getLast (by decide)] defaultVaSplit 0x1000 .read resolved hok
  exact ⟨resolved, hok, hchanged fun hsame => hstale (hiff.2 hsame)⟩

/-- A mapping of three big pages is modified as a whole, to the kind and the caching it has. -/
def restamp : Command := .modifyMapping defaultVaSplit 0 0x60000 0 true

/-- **A new generation is a change**: the modification leaves everything of the mapping but its
generation, and a read of a page that was resolved before is refused. -/
theorem restamped_read_refused :
    let s₀ := machine.run (.new 1 switch1Gm20bProfile) headRemap.dropLast
    let s₁ := machine.run s₀ [restamp]
    (valuesOf s₁.mappings).map (fun m => { m with generation := 0 }) =
      (valuesOf s₀.mappings).map (fun m => { m with generation := 0 }) ∧
    ∃ resolved, ((resolveRange defaultVaSplit 0x1000 .read : AccessCall Empty MaxwellResolvedRange)
      s₀).1 = .ok resolved ∧
      ∀ (reader : Reader Empty) output,
        ∃ e, readResolvedWith s₁ reader resolved output = (.err e, output) := by
  intro s₀ s₁
  obtain ⟨resolved, hok, hstale⟩ :=
    exists_stale (ε := Empty) s₀ s₁ defaultVaSplit 0x1000 .read (by decide +kernel)
  exact ⟨by decide +kernel, resolved, hok, fun reader _ => readResolvedWith_stale reader hstale⟩

end Nixe.AddressSpace
