/-
**The GPU address space.**

A Maxwell GPU address space consists of two regions of virtual addresses, one for each page size.
The guest reserves ranges of addresses, maps retained memory into reservations or by first fit,
replaces big pages of sparse reservations, and changes attributes of parts of mappings.  A mapping
that is cut lives on in pieces, which keep its identity and the offset under which the guest unmaps
it; every change gives the mappings it touches a new generation.

Main definitions:

* `MaxwellGpuMapping`, `MaxwellVaReservation`, `MaxwellGpuAddressSpace` — the data;
* `reserve`, `free`, `map`, `unmap`, `remapSparse`, `modifyMapping` — the calls;
* `replaceMappingRange`, `modifyOne` — the two ways in which mappings are cut;
* `machine` — any sequence of calls on one address space.
-/

import Nixe.Machine
import Nixe.Call
import Nixe.Checked
import Nixe.Intervals

set_option autoImplicit false

namespace Nixe.AddressSpace

open Std (TreeMap)
open Call (read update failIf okOr ofExcept expect debugAssert)
open Intervals

/-! ### Addresses, permissions and retained memory -/

abbrev GpuVirtualAddress : Type := ℕ

inductive GpuVirtualAddressError where
  | invalidAddressWidth (bits : ℕ)
  | addressOutOfRange (value bits : ℕ)
  | arithmeticOverflow
deriving DecidableEq, Repr

def validAddressWidth (addressBits : ℕ) : Bool := 0 < addressBits && addressBits ≤ 64

def fitsAddressWidth (value addressBits : ℕ) : Bool :=
  addressBits == 64 || value < 1 <<< addressBits

def tryNew (value addressBits : ℕ) : Except GpuVirtualAddressError GpuVirtualAddress :=
  if !validAddressWidth addressBits then .error (.invalidAddressWidth addressBits)
  else if !fitsAddressWidth value addressBits then .error (.addressOutOfRange value addressBits)
  else .ok value

/-- A set of access rights: bit 0 reads, bit 1 writes, bit 2 executes. -/
structure MemoryPermissions where
  bits : ℕ
deriving DecidableEq, Repr

def MemoryPermissions.none : MemoryPermissions := ⟨0⟩

def MemoryPermissions.read : MemoryPermissions := ⟨1 <<< 0⟩

def MemoryPermissions.readWrite : MemoryPermissions := ⟨1 <<< 0 ||| 1 <<< 1⟩

def MemoryPermissions.contains (p permission : MemoryPermissions) : Bool :=
  p.bits &&& permission.bits == permission.bits

structure CanonicalBackingSegment where
  page : ℕ
  offset : ℕ
  size : ℕ
  permissions : MemoryPermissions
  mappingGeneration : ℕ
deriving DecidableEq, Repr

/-- A logical range of bytes, represented by the page segments that retain it. -/
structure CanonicalBackingRange where
  segments : List CanonicalBackingSegment
  size : ℕ
deriving DecidableEq, Repr

/-- The part of a validated GPU profile that the address space reads. -/
structure MaxwellGpuProfile where
  addressBits : ℕ
  smallPageSize : ℕ
  bigPageSize : ℕ
  availableBigPageSizes : ℕ
  addressBits_valid : validAddressWidth addressBits = true
  smallPageSize_pow : smallPageSize.isPowerOfTwo
  bigPageSize_pow : bigPageSize.isPowerOfTwo
  bigPageSize_available : availableBigPageSizes &&& bigPageSize ≠ 0

def switch1Gm20bProfile : MaxwellGpuProfile where
  addressBits := 0x28
  smallPageSize := 0x1000
  bigPageSize := 0x20000
  availableBigPageSizes := 0x30000
  addressBits_valid := by decide
  smallPageSize_pow := ⟨12, rfl⟩
  bigPageSize_pow := ⟨17, rfl⟩
  bigPageSize_available := by decide

/-! ### The data of an address space -/

inductive GenerationKind where
  | content
  | mapping
deriving DecidableEq, Repr

inductive MaxwellAddressSpaceError where
  | alreadyInitialized
  | notInitialized
  | invalidBigPageSize (pageSize : ℕ)
  | invalidGeometry
  | invalidPageCount
  | invalidPageSize (pageSize : ℕ)
  | invalidReservationFlags (flags : ℕ)
  | invalidAlignment (alignment : ℕ)
  | misalignedAddress (address alignment : ℕ)
  | outsideVaRegion
  | outsideReservation
  | overlappingReservation
  | overlappingMapping
  | overlappingRemapEntries
  | unknownReservation
  | reservationShapeMismatch
  | sparseSmallPagesUnsupported
  | nonSparseReservation
  | emptyRemap
  | emptyMapping
  | unknownMapping
  | partialMapping
  | invalidBackingRange
  | invalidMappingPermissions
  | invalidKind (kind : ℕ)
  | misalignedBackingRange (offset size alignment : ℕ)
  | insufficientAddressSpace
  | mappingIdentityExhausted
  | arithmeticOverflow
  | address (error : GpuVirtualAddressError)
  | generationExhausted (kind : GenerationKind)
deriving DecidableEq, Repr

structure MaxwellAddressSpaceInitialization where
  bigPageSize : ℕ
  vaRangeStart : ℕ
  vaRangeEnd : ℕ
  vaRangeSplit : ℕ
deriving DecidableEq, Repr

structure MaxwellVaRegion where
  offset : GpuVirtualAddress
  pageSize : ℕ
  pages : ℕ
deriving DecidableEq, Repr

structure MaxwellVaReservation where
  offset : GpuVirtualAddress
  pages : ℕ
  pageSize : ℕ
  sparse : Bool
deriving DecidableEq, Repr

structure MaxwellMapRequest where
  allocation : ℕ
  backing : CanonicalBackingRange
  backingOffset : ℕ
  size : ℕ
  allocationAlignment : ℕ
  pageSize : ℕ
  kind : ℕ
  cacheable : Bool
  permissions : MemoryPermissions
  fixedOffset : Option GpuVirtualAddress
deriving DecidableEq, Repr

structure MaxwellSparseMapping where
  allocation : ℕ
  backing : CanonicalBackingRange
  backingOffset : ℕ
  kind : ℕ
  cacheable : Bool
  permissions : MemoryPermissions
deriving DecidableEq, Repr

structure MaxwellSparseRemapRequest where
  offset : GpuVirtualAddress
  size : ℕ
  mapping : Option MaxwellSparseMapping
deriving DecidableEq, Repr

/-- A mapping, or a piece of a mapping that was cut. -/
structure MaxwellGpuMapping where
  id : ℕ
  unmapOffset : GpuVirtualAddress
  offset : GpuVirtualAddress
  size : ℕ
  allocation : ℕ
  backing : CanonicalBackingRange
  backingOffset : ℕ
  permissions : MemoryPermissions
  pageSize : ℕ
  kind : ℕ
  cacheable : Bool
  generation : ℕ
  fixed : Bool
  sparse : Bool
deriving DecidableEq, Repr

structure MaxwellGpuAddressSpace where
  id : ℕ
  profile : MaxwellGpuProfile
  regions : Option (MaxwellVaRegion × MaxwellVaRegion)
  reservations : TreeMap ℕ MaxwellVaReservation
  mappings : TreeMap ℕ MaxwellGpuMapping
  nextMappingId : ℕ
  mappingGeneration : ℕ

def MaxwellGpuAddressSpace.new (id : ℕ) (profile : MaxwellGpuProfile) : MaxwellGpuAddressSpace where
  id
  profile
  regions := none
  reservations := ∅
  mappings := ∅
  nextMappingId := 1
  mappingGeneration := 0

instance : Ranged MaxwellVaReservation where
  lo r := r.offset
  hi r := r.offset + r.pages * r.pageSize

instance : Ranged MaxwellGpuMapping where
  lo m := m.offset
  hi m := m.offset + m.size

instance : Ranged MaxwellSparseRemapRequest where
  lo r := r.offset
  hi r := r.offset + r.size

abbrev AddressSpaceCall (α : Type) : Type :=
  Call MaxwellGpuAddressSpace MaxwellAddressSpaceError α

abbrev Checked (α : Type) : Type := Except MaxwellAddressSpaceError α

/-- `o.ok_or(e)`. -/
def orError {α : Type} (o : Option α) (e : MaxwellAddressSpaceError) : Checked α :=
  match o with
  | some a => .ok a
  | none => .error e

/-- `if b { return Err(e); }`. -/
def throwIf (b : Bool) (e : MaxwellAddressSpaceError) : Checked Unit :=
  if b then .error e else .ok ()

/-- `try_new(..).map_err(Address)`. -/
def newAddress (value addressBits : ℕ) : Checked GpuVirtualAddress :=
  (tryNew value addressBits).mapError .address

/-- `MaxwellVaRegion::end`. -/
def MaxwellVaRegion.stop (r : MaxwellVaRegion) : Checked ℕ :=
  orError ((checkedMul r.pages r.pageSize).bind fun size => checkedAdd r.offset size)
    .arithmeticOverflow

def MaxwellVaRegion.contains (r : MaxwellVaRegion) (start stop : ℕ) : Checked Bool :=
  if r.offset ≤ start then do return decide (stop ≤ (← r.stop)) else .ok false

/-- `MaxwellVaReservation::end`. -/
def MaxwellVaReservation.stop (r : MaxwellVaReservation) : Checked ℕ :=
  orError ((checkedMul r.pages r.pageSize).bind fun size => checkedAdd r.offset size)
    .arithmeticOverflow

/-- `MaxwellGpuMapping::end`. -/
def MaxwellGpuMapping.stop (m : MaxwellGpuMapping) : Checked ℕ :=
  orError (checkedAdd m.offset m.size) .arithmeticOverflow

/-- `mapping.end().is_ok_and(p)`. -/
def MaxwellGpuMapping.stopIsOkAnd (m : MaxwellGpuMapping) (p : ℕ → Bool) : Bool :=
  match m.stop with
  | .ok mappingEnd => p mappingEnd
  | .error _ => false

/-! ### Searches -/

/-- The loop of `overlaps_reservation` and `overlaps_mapping`. -/
def overlapsAny {V : Type} (offset : V → ℕ) (stop : V → Checked ℕ) (start finish : ℕ) :
    List V → Checked Bool
  | [] => .ok false
  | v :: vs => do
      if start < (← stop v) && offset v < finish then return true
      overlapsAny offset stop start finish vs

namespace MaxwellGpuAddressSpace

variable (s : MaxwellGpuAddressSpace)

def overlapsReservation (start stop : ℕ) : Checked Bool :=
  overlapsAny MaxwellVaReservation.offset MaxwellVaReservation.stop start stop
    (valuesOf s.reservations)

def overlapsMapping (start stop : ℕ) : Checked Bool :=
  overlapsAny MaxwellGpuMapping.offset MaxwellGpuMapping.stop start stop (valuesOf s.mappings)

def overlapsOccupied (start stop : ℕ) : Checked Bool := do
  if ← s.overlapsReservation start stop then return true
  s.overlapsMapping start stop

/-- The loop of `reservation_containing`. -/
def firstContaining (start stop : ℕ) :
    List MaxwellVaReservation → Checked (Option MaxwellVaReservation)
  | [] => .ok none
  | r :: rs => do
      if r.offset ≤ start then
        if stop ≤ (← r.stop) then return some r
      firstContaining start stop rs

def reservationContaining (start stop : ℕ) : Checked (Option MaxwellVaReservation) :=
  firstContaining start stop (valuesOf s.reservations)

def occupiedRanges : Checked (List (ℕ × ℕ)) := do
  let reservations ← (valuesOf s.reservations).mapM fun r => do return (r.offset, ← r.stop)
  let mappings ← (valuesOf s.mappings).mapM fun m => do return (m.offset, ← m.stop)
  return reservations ++ mappings

def nextMappingGeneration : Checked ℕ :=
  orError (checkedAdd s.mappingGeneration 1) (.generationExhausted .mapping)

def nextMappingIdentity : Checked (ℕ × ℕ) := do
  let next ← orError (checkedAdd s.nextMappingId 1) .mappingIdentityExhausted
  return (s.nextMappingId, next)

end MaxwellGpuAddressSpace

def alignUp (value alignment : ℕ) : Checked ℕ :=
  orError ((checkedAdd value (alignment - 1)).map fun aligned =>
    aligned &&& (u64Max ^^^ (alignment - 1))) .arithmeticOverflow

/-- The end of the occupied ranges that overlap the candidate. -/
def overlappingEnd (occupied : List (ℕ × ℕ)) (candidate candidateEnd : ℕ) : Option ℕ :=
  occupied.foldl (fun acc range =>
    if candidate < range.2 && range.1 < candidateEnd then some (acc.elim range.2 (max · range.2))
    else acc) none

/-- The loop of `find_first_fit`.  The fuel bounds the number of candidates; a loop that used it up
would not end. -/
def firstFitFrom (regionEnd size alignment : ℕ) : ℕ → ℕ → AddressSpaceCall (Option ℕ)
  | 0, _ => expect none "the search does not end"
  | fuel + 1, candidate => do
      let candidateEnd ← okOr (checkedAdd candidate size) .arithmeticOverflow
      if regionEnd < candidateEnd then return none
      let occupied ← ofExcept (← read).occupiedRanges
      match overlappingEnd occupied candidate candidateEnd with
      | none => return some candidate
      | some stop =>
        let next ← ofExcept (alignUp stop alignment)
        firstFitFrom regionEnd size alignment fuel next

def findFirstFit (region : MaxwellVaRegion) (size alignment : ℕ) :
    AddressSpaceCall (Option ℕ) := do
  let regionEnd ← ofExcept region.stop
  let candidate ← ofExcept (alignUp region.offset alignment)
  firstFitFrom regionEnd size alignment (regionEnd + 2) candidate

/-! ### Validation -/

def invalidPteKind : ℕ := 0xff

def validateKind (kind : ℕ) : Checked Unit :=
  throwIf (kind == invalidPteKind) (.invalidKind kind)

def validateBacking (backing : CanonicalBackingRange) (offset size : ℕ)
    (permissions : MemoryPermissions) : Checked Unit := do
  throwIf (size == 0) .emptyMapping
  let stop ← orError (checkedAdd offset size) .arithmeticOverflow
  throwIf (backing.size < stop) .invalidBackingRange
  throwIf (permissions == .none ||
    backing.segments.any fun segment => !segment.permissions.contains permissions)
    .invalidMappingPermissions

def validateGeometry (profile : MaxwellGpuProfile)
    (start split stop smallPageSize bigPageSize : ℕ) :
    Checked Unit := do
  throwIf (split ≤ start || stop ≤ split || start % smallPageSize != 0 ||
    split % smallPageSize != 0 || split % bigPageSize != 0 || stop % bigPageSize != 0)
    .invalidGeometry
  -- the shift overflows, and there is no limit, when the width is that of a word
  throwIf (profile.addressBits < 64 && 1 <<< profile.addressBits < stop) .invalidGeometry

def validateSparseRemapRequest (s : MaxwellGpuAddressSpace) (request : MaxwellSparseRemapRequest)
    (pageSize : ℕ) : Checked ℕ := do
  throwIf (request.size == 0) .emptyMapping
  throwIf (request.offset % pageSize != 0 || request.size % pageSize != 0)
    (.misalignedAddress request.offset pageSize)
  let stop ← orError (checkedAdd request.offset request.size) .arithmeticOverflow
  let reservation ← orError (← s.reservationContaining request.offset stop) .outsideReservation
  throwIf (!reservation.sparse) .nonSparseReservation
  match request.mapping with
  | none => return stop
  | some mapping =>
    validateKind mapping.kind
    validateBacking mapping.backing mapping.backingOffset request.size mapping.permissions
    throwIf (mapping.backingOffset % pageSize != 0)
      (.misalignedBackingRange mapping.backingOffset request.size pageSize)
    return stop

/-- The first loop of `remap_sparse`: each request is valid, and overlaps none before it. -/
def validateRequests (s : MaxwellGpuAddressSpace) (pageSize : ℕ) :
    List (ℕ × ℕ) → List MaxwellSparseRemapRequest → Checked Unit
  | _, [] => .ok ()
  | spans, request :: requests => do
      let stop ← validateSparseRemapRequest s request pageSize
      throwIf (spans.any fun span => request.offset < span.2 && span.1 < stop)
        .overlappingRemapEntries
      validateRequests s pageSize (spans ++ [(request.offset, stop)]) requests

/-! ### Cutting -/

/-- One round of the loop of `replace_mapping_range`: a mapping loses what lies in the range. -/
def replaceOne (start stop generation addressBits : ℕ) (mappings : TreeMap ℕ MaxwellGpuMapping)
    (offset : ℕ) : Checked (TreeMap ℕ MaxwellGpuMapping) := do
  let mapping ← orError mappings[offset]? .arithmeticOverflow
  let mappings := mappings.erase offset
  let mappingEnd ← mapping.stop
  let mappings :=
    if mapping.offset < start then
      mappings.insert mapping.offset { mapping with size := start - mapping.offset, generation }
    else mappings
  if stop < mappingEnd then
    let consumed := stop - mapping.offset
    let rightOffset ← newAddress stop addressBits
    let backingOffset ← orError (checkedAdd mapping.backingOffset consumed) .arithmeticOverflow
    return mappings.insert rightOffset
      { mapping with offset := rightOffset, size := mappingEnd - stop, backingOffset, generation }
  return mappings

def replaceMappingRange (mappings : TreeMap ℕ MaxwellGpuMapping)
    (start stop generation addressBits : ℕ) : Checked (TreeMap ℕ MaxwellGpuMapping) :=
  (keysWhere mappings fun mapping => mapping.stopIsOkAnd fun mappingEnd =>
    start < mappingEnd && mapping.offset < stop).foldlM
      (replaceOne start stop generation addressBits) mappings

/-- The mapping that a remap entry with a source installs. -/
def remapMapping (pageSize generation mappingId : ℕ) (request : MaxwellSparseRemapRequest)
    (source : MaxwellSparseMapping) : MaxwellGpuMapping where
  id := mappingId
  unmapOffset := request.offset
  offset := request.offset
  size := request.size
  allocation := source.allocation
  backing := source.backing
  backingOffset := source.backingOffset
  permissions := source.permissions
  pageSize
  kind := source.kind
  cacheable := source.cacheable
  generation
  fixed := true
  sparse := true

/-- The second loop of `remap_sparse`, on a copy of the mappings. -/
def applyRequests (pageSize generation addressBits : ℕ) :
    TreeMap ℕ MaxwellGpuMapping → ℕ → List MaxwellSparseRemapRequest →
      Checked (TreeMap ℕ MaxwellGpuMapping)
  | mappings, _, [] => .ok mappings
  | mappings, mappingId, request :: requests => do
      let stop ← orError (checkedAdd request.offset request.size) .arithmeticOverflow
      let mappings ← replaceMappingRange mappings request.offset stop generation addressBits
      match request.mapping with
      | none => applyRequests pageSize generation addressBits mappings mappingId requests
      | some source =>
        let nextId ← orError (checkedAdd mappingId 1) .mappingIdentityExhausted
        applyRequests pageSize generation addressBits
          (mappings.insert request.offset
            (remapMapping pageSize generation mappingId request source)) nextId requests

/-- The coverage loop of `modify_mapping`: how far the pieces of the group reach without a gap. -/
def coverFrom (stop : ℕ) : ℕ → List MaxwellGpuMapping → Checked ℕ
  | covered, [] => .ok covered
  | covered, mapping :: group => do
      let mappingEnd ← mapping.stop
      if mappingEnd ≤ covered || stop ≤ mapping.offset then coverFrom stop covered group
      else if covered < mapping.offset then .error .partialMapping
      else if min mappingEnd stop == stop then return stop
      else coverFrom stop (min mappingEnd stop) group

/-- One round of the last loop of `modify_mapping`: the part of a piece that lies in the range gets
the new attributes. -/
def modifyOne (start stop kind : ℕ) (cacheable : Bool) (generation addressBits : ℕ)
    (mappings : TreeMap ℕ MaxwellGpuMapping) (offset : ℕ) :
    Checked (TreeMap ℕ MaxwellGpuMapping) := do
  let mapping ← orError mappings[offset]? .unknownMapping
  let mappings := mappings.erase offset
  let mappingStart := mapping.offset
  let mappingEnd ← mapping.stop
  let changedStart := max mappingStart start
  let changedEnd := min mappingEnd stop
  let mappings :=
    if mappingStart < changedStart then
      mappings.insert mapping.offset
        { mapping with size := changedStart - mappingStart, generation }
    else mappings
  let changedOffset ← newAddress changedStart addressBits
  let changedBacking ← orError (checkedAdd mapping.backingOffset (changedStart - mappingStart))
    .arithmeticOverflow
  let mappings := mappings.insert changedOffset
    { mapping with offset := changedOffset, backingOffset := changedBacking,
                   size := changedEnd - changedStart, kind, cacheable, generation }
  if changedEnd < mappingEnd then
    let rightOffset ← newAddress changedEnd addressBits
    let rightBacking ← orError (checkedAdd mapping.backingOffset (changedEnd - mappingStart))
      .arithmeticOverflow
    return mappings.insert rightOffset
      { mapping with offset := rightOffset, backingOffset := rightBacking,
                     size := mappingEnd - changedEnd, generation }
  return mappings

/-! ### Calls -/

def allocSpaceFixed : ℕ := 1 <<< 0

def allocSpaceSparse : ℕ := 1 <<< 1

def allocSpaceKnownFlags : ℕ := allocSpaceFixed ||| allocSpaceSparse

def defaultVaStartShift : ℕ := 10

def defaultVaSplit : ℕ := 1 <<< 34

def defaultVaEnd : ℕ := 1 <<< 37

def regions : AddressSpaceCall (MaxwellVaRegion × MaxwellVaRegion) := do
  okOr (← read).regions .notInitialized

def address (value : ℕ) : AddressSpaceCall GpuVirtualAddress := do
  ofExcept (newAddress value (← read).profile.addressBits)

def advanceMappingGeneration : AddressSpaceCall Unit := do
  let generation ← ofExcept (← read).nextMappingGeneration
  update fun s => { s with mappingGeneration := generation }

/-- `regions.into_iter().find(|region| region.page_size == page_size)`. -/
def regionOf (regions : MaxwellVaRegion × MaxwellVaRegion) (pageSize : ℕ) :
    Option MaxwellVaRegion :=
  [regions.1, regions.2].find? fun region => region.pageSize == pageSize

def initializeSpace (request : MaxwellAddressSpaceInitialization) : AddressSpaceCall Unit := do
  let s ← read
  failIf s.regions.isSome .alreadyInitialized
  let bigPageSize := if request.bigPageSize == 0 then s.profile.bigPageSize else request.bigPageSize
  failIf (!decide bigPageSize.isPowerOfTwo || s.profile.availableBigPageSizes &&& bigPageSize == 0)
    (.invalidBigPageSize bigPageSize)
  let explicitGeometry :=
    request.vaRangeStart != 0 || request.vaRangeEnd != 0 || request.vaRangeSplit != 0
  let (start, split, stop) :=
    if explicitGeometry then (request.vaRangeStart, request.vaRangeSplit, request.vaRangeEnd)
    else (bigPageSize <<< defaultVaStartShift, defaultVaSplit, defaultVaEnd)
  let smallPageSize := s.profile.smallPageSize
  ofExcept (validateGeometry s.profile start split stop smallPageSize bigPageSize)
  let smallOffset ← address start
  let bigOffset ← address split
  update fun s => { s with
    regions := some
      ({ offset := smallOffset, pageSize := smallPageSize
         pages := (split - start) / smallPageSize },
        { offset := bigOffset, pageSize := bigPageSize, pages := (stop - split) / bigPageSize }) }

/-- The offset of a new reservation: the one asked for, or the first fit. -/
def reserveOffset (region : MaxwellVaRegion) (pageSize size alignOrOffset : ℕ) (fixed : Bool) :
    AddressSpaceCall ℕ :=
  if fixed then do
    failIf (alignOrOffset &&& (pageSize - 1) != 0) (.misalignedAddress alignOrOffset pageSize)
    let stop ← okOr (checkedAdd alignOrOffset size) .arithmeticOverflow
    let inside ← ofExcept (region.contains alignOrOffset stop)
    failIf (!inside) .outsideVaRegion
    let overlaps ← ofExcept ((← read).overlapsOccupied alignOrOffset stop)
    failIf overlaps .overlappingReservation
    return alignOrOffset
  else do
    let alignment := max alignOrOffset pageSize
    failIf (!decide alignment.isPowerOfTwo || alignment % pageSize != 0)
      (.invalidAlignment alignment)
    okOr (← findFirstFit region size alignment) .insufficientAddressSpace

def reserve (pages pageSize flags alignOrOffset : ℕ) : AddressSpaceCall MaxwellVaReservation := do
  let regions ← regions
  failIf (pages == 0) .invalidPageCount
  failIf (flags &&& ((2 ^ 32 - 1) ^^^ allocSpaceKnownFlags) != 0) (.invalidReservationFlags flags)
  let region ← okOr (regionOf regions pageSize) (.invalidPageSize pageSize)
  let sparse := flags &&& allocSpaceSparse != 0
  failIf (sparse && pageSize != regions.2.pageSize) .sparseSmallPagesUnsupported
  let size ← okOr (checkedMul pages pageSize) .arithmeticOverflow
  let fixed := flags &&& allocSpaceFixed != 0
  let offset ← reserveOffset region pageSize size alignOrOffset fixed
  let offset ← address offset
  let reservation : MaxwellVaReservation := { offset, pages, pageSize, sparse }
  update fun s => { s with reservations := s.reservations.insert offset reservation }
  return reservation

/-- The mappings that lie in a reservation, as `free` collects them. -/
def mappingsInside (s : MaxwellGpuAddressSpace) (start stop : ℕ) : List ℕ :=
  keysWhere s.mappings fun mapping =>
    start ≤ mapping.offset && mapping.stopIsOkAnd fun mappingEnd => mappingEnd ≤ stop

/-- The mappings under the keys are gone, in a new generation. -/
def removeMappings (keys : List ℕ) : AddressSpaceCall Unit := do
  advanceMappingGeneration
  update fun s => { s with mappings := keys.foldl (fun mappings k => mappings.erase k) s.mappings }

def free (offset : GpuVirtualAddress) (pages pageSize : ℕ) :
    AddressSpaceCall MaxwellVaReservation := do
  let _ ← regions
  let s ← read
  let reservation ← okOr s.reservations[offset]? .unknownReservation
  failIf (reservation.pages != pages || reservation.pageSize != pageSize) .reservationShapeMismatch
  let reservationEnd ← ofExcept reservation.stop
  let keys := mappingsInside s offset reservationEnd
  if keys.isEmpty then pure () else removeMappings keys
  update fun s => { s with reservations := s.reservations.erase offset }
  return reservation

/-- The page size of a mapping: the one asked for, or the big one if everything is aligned to it. -/
def mapPageSize (regions : MaxwellVaRegion × MaxwellVaRegion) (request : MaxwellMapRequest) : ℕ :=
  if request.pageSize == 0 then
    let bigPageSize := regions.2.pageSize
    if bigPageSize ≤ request.allocationAlignment && request.backingOffset % bigPageSize == 0 &&
        request.size % bigPageSize == 0 then bigPageSize
    else regions.1.pageSize
  else request.pageSize

/-- The offset of a new mapping: the one asked for, or the first fit. -/
def mapOffset (region : MaxwellVaRegion) (pageSize : ℕ) (request : MaxwellMapRequest) :
    AddressSpaceCall GpuVirtualAddress :=
  match request.fixedOffset with
  | some offset => do
      failIf (offset % pageSize != 0) (.misalignedAddress offset pageSize)
      let stop ← okOr (checkedAdd offset request.size) .arithmeticOverflow
      let reservation ← ofExcept ((← read).reservationContaining offset stop)
      let reservation ← okOr reservation .outsideReservation
      let overlaps ← ofExcept ((← read).overlapsMapping offset stop)
      failIf overlaps .overlappingMapping
      debugAssert (reservation.offset ≤ offset) "reservation.offset.get() <= offset.get()"
      return offset
  | none => do
      let offset ← okOr (← findFirstFit region request.size pageSize) .insufficientAddressSpace
      address offset

def map (request : MaxwellMapRequest) : AddressSpaceCall MaxwellGpuMapping := do
  let regions ← regions
  ofExcept (validateBacking request.backing request.backingOffset request.size request.permissions)
  ofExcept (validateKind request.kind)
  failIf (request.allocationAlignment == 0 || !decide request.allocationAlignment.isPowerOfTwo)
    (.invalidAlignment request.allocationAlignment)
  let pageSize := mapPageSize regions request
  let region ← okOr (regionOf regions pageSize) (.invalidPageSize pageSize)
  failIf (request.backingOffset % pageSize != 0 || request.size % pageSize != 0)
    (.misalignedBackingRange request.backingOffset request.size pageSize)
  let offset ← mapOffset region pageSize request
  let s ← read
  let generation ← ofExcept s.nextMappingGeneration
  let (id, nextMappingId) ← ofExcept s.nextMappingIdentity
  let stop ← okOr (checkedAdd offset request.size) .arithmeticOverflow
  let reservation ← ofExcept (s.reservationContaining offset stop)
  let mapping : MaxwellGpuMapping :=
    { id, unmapOffset := offset, offset, size := request.size, allocation := request.allocation,
      backing := request.backing, backingOffset := request.backingOffset,
      permissions := request.permissions, pageSize, kind := request.kind,
      cacheable := request.cacheable, generation, fixed := request.fixedOffset.isSome,
      sparse := reservation.elim false MaxwellVaReservation.sparse }
  update fun s => { s with
    mappings := s.mappings.insert offset mapping
    nextMappingId
    mappingGeneration := generation }
  return mapping

/-- The id of the mapping that an unmap offset names: that of the first piece with the offset. -/
def namedBy (s : MaxwellGpuAddressSpace) (unmapOffset : GpuVirtualAddress) : Option ℕ :=
  ((valuesOf s.mappings).find? fun mapping => mapping.unmapOffset == unmapOffset).map
    MaxwellGpuMapping.id

def unmap (offset : GpuVirtualAddress) : AddressSpaceCall (List MaxwellGpuMapping) := do
  let _ ← regions
  let s ← read
  match namedBy s offset with
  | none => return []
  | some id =>
    let removed := keysWhere s.mappings fun mapping => mapping.id == id
    removeMappings removed
    return removed.filterMap fun k => s.mappings[k]?

def remapSparse (requests : List MaxwellSparseRemapRequest) : AddressSpaceCall Unit := do
  let regions ← regions
  let pageSize := regions.2.pageSize
  failIf requests.isEmpty .emptyRemap
  let s ← read
  ofExcept (validateRequests s pageSize [] requests)
  let generation ← ofExcept s.nextMappingGeneration
  let newMappingCount := requests.countP fun request => request.mapping.isSome
  let nextMappingId ← okOr (checkedAdd s.nextMappingId newMappingCount) .mappingIdentityExhausted
  let mappings ← ofExcept (applyRequests pageSize generation s.profile.addressBits s.mappings
    s.nextMappingId requests)
  update fun s => { s with mappings, nextMappingId, mappingGeneration := generation }

def modifyMapping (unmapOffset : GpuVirtualAddress) (withinMapping size kind : ℕ)
    (cacheable : Bool) : AddressSpaceCall Unit := do
  let _ ← regions
  ofExcept (validateKind kind)
  failIf (size == 0) .emptyMapping
  let s ← read
  let id ← okOr (namedBy s unmapOffset) .unknownMapping
  let start ← okOr (checkedAdd unmapOffset withinMapping) .arithmeticOverflow
  let stop ← okOr (checkedAdd start size) .arithmeticOverflow
  let group := (valuesOf s.mappings).filter fun mapping => mapping.id == id
  let pageSize ← okOr (group.head?.map MaxwellGpuMapping.pageSize) .unknownMapping
  failIf (start % pageSize != 0 || size % pageSize != 0) (.misalignedAddress start pageSize)
  let covered ← ofExcept (coverFrom stop start group)
  failIf (covered != stop) .partialMapping
  let generation ← ofExcept s.nextMappingGeneration
  let affected := keysWhere s.mappings fun mapping => mapping.stopIsOkAnd fun mappingEnd =>
    mapping.id == id && start < mappingEnd && mapping.offset < stop
  let mappings ← ofExcept (affected.foldlM
    (modifyOne start stop kind cacheable generation s.profile.addressBits) s.mappings)
  update fun s => { s with mappings, mappingGeneration := generation }

/-! ### The machine -/

inductive Command where
  | initializeSpace (request : MaxwellAddressSpaceInitialization)
  | reserve (pages pageSize flags alignOrOffset : ℕ)
  | free (offset : GpuVirtualAddress) (pages pageSize : ℕ)
  | map (request : MaxwellMapRequest)
  | unmap (offset : GpuVirtualAddress)
  | remapSparse (requests : List MaxwellSparseRemapRequest)
  | modifyMapping (unmapOffset : GpuVirtualAddress) (withinMapping size kind : ℕ) (cacheable : Bool)
deriving DecidableEq, Repr

inductive Response where
  | done
  | reservation (reservation : MaxwellVaReservation)
  | mapped (mapping : MaxwellGpuMapping)
  | unmapped (mappings : List MaxwellGpuMapping)
deriving DecidableEq, Repr

def call : Command → AddressSpaceCall Response
  | .initializeSpace request => do initializeSpace request; return .done
  | .reserve pages pageSize flags alignOrOffset =>
    .reservation <$> reserve pages pageSize flags alignOrOffset
  | .free offset pages pageSize => .reservation <$> free offset pages pageSize
  | .map request => .mapped <$> map request
  | .unmap offset => .unmapped <$> unmap offset
  | .remapSparse requests => do remapSparse requests; return .done
  | .modifyMapping unmapOffset withinMapping size kind cacheable => do
      modifyMapping unmapOffset withinMapping size kind cacheable
      return .done

/-- Any calls on one address space, one after the other. -/
def machine : Machine MaxwellGpuAddressSpace Command
    (Outcome MaxwellAddressSpaceError Response) where
  step s c := call c s

end Nixe.AddressSpace
