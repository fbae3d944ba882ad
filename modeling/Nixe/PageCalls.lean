/-
**The calls on canonical pages and ranges.**

The interface of the memory crate as programs over the atomic operations of
`Nixe.PageVisibility`: the ways the CPU writes, the preparation and publication of device
accesses, the readback of device bytes, and the residency check of a range.

Main definitions:

* `writePreflighted`, `tryWriteHostRegions`, `commit` — CPU writes;
* `prepareDeviceInputs`, `publishDevicePages`, `invalidateDevicePages` — device accesses;
* `publishDeviceWrites` — a batch of device writes;
* `ensureCpuVisibleWith` — the readback of a page;
* `prepareWrite`, `prepareCpuWrite`, `read`, `atomicCompareExchange` — CPU accesses that wait for
  a readback;
* `residentAccessReady` — the check of a range for residency;
* `Call`, `threadOf`, `system` — the threads and the system they run in.
-/
import Nixe.PageVisibility

set_option autoImplicit false

namespace Nixe.Memory

open Interleaving

/-! ### CPU writes -/

variable (T : Topology)

def ensureBacking : Thread (Except CanonicalPageError Unit) := do
  let failed ← hostFails
  return if failed then .error .hostMemory else .ok ()

variable (access : ℕ × DeviceAccessDeclaration)
  (accesses : List (ℕ × DeviceAccessDeclaration)) (ordered : Bool) (p : ℕ)

def checkedEnd (offset size : ℕ) : Except CanonicalPageError Unit :=
  if offset + size ≤ T.size p then .ok () else .error .invalidRange

/-- The bytes of a write are stored if the page has the generation expected. -/
def copyAtGeneration (offset : ℕ) (bytes : List UInt8) (expected : ℕ) :
    Thread (Except CanonicalPageError Unit) := do
  let page ← readPage p
  if page.generation = expected then do
    onPage p (.copyBytes offset bytes)
    return .ok ()
  else return .error (.staleGeneration expected page.generation)

/-- Run with a page locked, without another look at who owns it; the body requires the CPU's
authority. -/
def authorized {α : Type} (p : ℕ) (body : Thread α) : Thread α :=
  locked p do
    act (.mark (.authority p))
    body

def writePreflighted (offset : ℕ) (bytes : List UInt8) (expected next : ℕ) :
    Thread (Except CanonicalPageError Unit) :=
  attempt (.done (checkedEnd T p offset bytes.length)) fun _ =>
  attempt ensureBacking fun _ =>
  if checkedAdd expected 1 = some next then
    authorized p <|
      attempt (prepareCpuWriteLocked p) fun _ =>
      attempt (copyAtGeneration p offset bytes expected) fun _ => do
        onPage p (.setGeneration next)
        return .ok ()
  else return .error .invalidGenerationTransition

def writeFragmentPreflighted (offset : ℕ) (bytes : List UInt8) (generation : ℕ) :
    Thread (Except CanonicalPageError Unit) :=
  attempt (.done (checkedEnd T p offset bytes.length)) fun _ =>
  attempt ensureBacking fun _ =>
  authorized p <|
    attempt (prepareCpuWriteLocked p) fun _ => copyAtGeneration p offset bytes generation

def cpuVisibleLocked : Thread (Except CanonicalPageError Bool) := do
  let page ← readPage p
  return match page.visibility with
    | .clean | .cpuNewer => .ok true
    | .gpuNewer _ => .ok false
    | .conflicting => .error (.visibility .conflictingAccess)
    | .invalid => .error (.visibility .invalidState)

/-- `try_cpu_access`, then `prepare_write` and `write_prepared` under its guard. -/
def cpuAccessWrite (offset : ℕ) (bytes : List UInt8) : Thread (Except CanonicalPageError Bool) :=
  locked p <|
    attempt (cpuVisibleLocked p) fun visible =>
    if visible then
      attempt ensureBacking fun _ =>
      attempt (prepareCpuWriteLocked p) fun _ =>
      attempt (.done (checkedEnd T p offset bytes.length)) fun _ => do
        onPage p (.copyBytes offset bytes)
        return .ok true
    else return .ok false

/-- `try_cpu_access`, then `write_host_scalar` under its guard; whether the bytes are one atomic
span and the page is not executable is answered by the environment. -/
def writeHostScalar (offset : ℕ) (bytes : List UInt8) : Thread (Except CanonicalPageError Bool) :=
  locked p <|
    attempt (cpuVisibleLocked p) fun visible =>
    if visible then
      attempt (.done (checkedEnd T p offset bytes.length)) fun _ => do
        let unfit ← hostFails
        if unfit then return .ok false
        else do
          let page ← readPage p
          match checkedAdd page.generation 1 with
          | none => return .error (.visibility .generationExhausted)
          | some next =>
            attempt ensureBacking fun _ =>
            attempt (asPageError (takeFromClean p)) fun _ =>
            attempt (advanceCpuDirtyEpoch p) fun _ => do
              onPage p (.copyBytes offset bytes)
              onPage p (.setGeneration next)
              return .ok true
    else return .ok false

/-- `CanonicalHostWriteOutcome`. -/
inductive HostWriteOutcome
  | complete
  | cpuVisibility (p : ℕ)
  | executable
  deriving DecidableEq

/-- One region of a host write. -/
structure HostWrite where
  page : ℕ
  offset : ℕ
  bytes : List UInt8

/-- How a host write ends early: with an outcome or with an error. -/
abbrev HostWriteExit := Except CanonicalWriteBatchError HostWriteOutcome

/-- The first check of a page: it is the CPU's, and not executable. -/
def hostWriteVisible : Thread (Except HostWriteExit Unit) := do
  let visible ← asBatchError (cpuVisibleLocked p)
  let executable ← hostFails
  return match visible with
    | .error e => .error (.error e)
    | .ok false => .error (.ok (.cpuVisibility p))
    | .ok true => if executable then .error (.ok .executable) else .ok ()

/-- The page has a next generation. -/
def hostWriteGeneration : Thread (Except HostWriteExit Unit) := do
  let page ← readPage p
  return if checkedAdd page.generation 1 = none then .error (.error .generationExhausted)
    else .ok ()

/-- The page can change hands and tell its observers. -/
def hostWriteEpochs : Thread (Except HostWriteExit Unit) := do
  let page ← readPage p
  return if page.visibility = .clean ∧ page.visibilityEpoch = u64Max then
      .error (.error .visibilityEpochExhausted)
    else if page.armed ∧ page.dirtyEpoch = u64Max then
      .error (.error (.page .cpuDirtyEpochExhausted))
    else .ok ()

/-- A batch error ends a host write. -/
def asHostExit {α : Type} (x : Thread (Except CanonicalPageError α)) :
    Thread (Except HostWriteExit α) :=
  x.bind fun result => .done (result.mapError fun e => .error (.page e))

/-- The page becomes the CPU's and its observers are told. -/
def hostWriteTaken : Thread (Except HostWriteExit Unit) :=
  attempt (asHostExit (asPageError (takeFromClean p))) fun _ =>
  asHostExit (advanceCpuDirtyEpoch p)

/-- The bytes of a region are stored; a host failure gives up every page of the batch. -/
def hostWriteStored (all : List ℕ) (w : HostWrite) : Thread (Except HostWriteExit Unit) := do
  let failed ← hostFails
  if failed then do
    forEach (fun q => ignore (publishVisibility q .invalid)) all
    return .error (.error (.page .hostMemory))
  else do
    onPage w.page (.copyBytes w.offset w.bytes)
    return .ok ()

def nextGeneration : Thread Unit := do
  let page ← readPage p
  onPage p (.setGeneration (page.generation + 1))

/-- The pages a host write touches, each once and in order. -/
def hostWritePages (writes : List HostWrite) : List ℕ :=
  ((writes.filter fun w => !w.bytes.isEmpty).map HostWrite.page).mergeSort.dedup

variable (ps : List ℕ)

/-- `try_write_host_regions` under the locks of its pages. -/
def hostWriteLocked (writes : List HostWrite) : Thread (Except HostWriteExit Unit) :=
  attempt (tryEach hostWriteVisible ps) fun _ =>
  attempt (tryEach hostWriteGeneration ps) fun _ =>
  attempt (tryEach hostWriteEpochs ps) fun _ =>
  attempt (tryEach hostWriteTaken ps) fun _ =>
  attempt (tryEach (hostWriteStored ps) (writes.filter fun w => !w.bytes.isEmpty)) fun _ => do
    forEach nextGeneration ps
    return .ok ()

def tryWriteHostRegions (writes : List HostWrite) : Thread HostWriteExit := do
  let result ← attempt
    (tryEach (fun w => asHostExit (.done (checkedEnd T w.page w.offset w.bytes.length))) writes)
    fun _ => lockedAll (hostWritePages writes) (hostWriteLocked (hostWritePages writes) writes)
  return match result with
    | .error exit => exit
    | .ok _ => .ok .complete

/-- One page of a write batch. -/
structure PendingWrite where
  page : ℕ
  expectedGeneration : ℕ
  expectedVisibilityEpoch : ℕ
  expectedDirtyEpoch : ℕ
  ranges : List (ℕ × List UInt8)

/-- The check of one page in `commit_inner`. -/
def commitAdmitted (w : PendingWrite) : Thread (Except CanonicalWriteBatchError Unit) := do
  let page ← readPage w.page
  return if (!ordered && (page.generation != w.expectedGeneration ||
        page.visibilityEpoch != w.expectedVisibilityEpoch ||
        page.dirtyEpoch != w.expectedDirtyEpoch)) || !page.visibility.cpuVisible then
      .error .concurrentMutation
    else if checkedAdd page.generation 1 = none then .error .generationExhausted
    else if checkedAdd page.visibilityEpoch 1 = none then .error .visibilityEpochExhausted
    else if page.armed ∧ page.dirtyEpoch = u64Max then .error (.page .cpuDirtyEpochExhausted)
    else .ok ()

/-- The bytes of one range of a write batch; an ordered store may fail in the host. -/
def commitRange (p : ℕ) (range : ℕ × List UInt8) :
    Thread (Except CanonicalWriteBatchError Unit) := do
  let failed ← hostFails
  if ordered && failed then return .error (.page .hostMemory)
  else do
    onPage p (.copyBytes range.1 range.2)
    return .ok ()

/-- The aliases of a page that was clean and unobserved are opened again. -/
def reopenAliases (page : Page) : Thread (Except CanonicalWriteBatchError Unit) :=
  if ordered && page.visibility = .clean && !page.armed then do
    let failed ← hostFails
    return if failed then .error (.page (.visibility .hostMemory)) else .ok ()
  else return .ok ()

/-- The publication of one page in `commit_inner`: here the hint is withdrawn before the
observers are notified. -/
def commitPage (w : PendingWrite) : Thread (Except CanonicalWriteBatchError Unit) := do
  let page ← readPage w.page
  onPage w.page (.storeHint .unavailable)
  detachOwner page.visibility
  notifyVisibilitySummaries w.page
  onPage w.page (.setVisibility .cpuNewer page.visibilityEpoch)
  attempt (asBatchError (advanceCpuDirtyEpoch w.page)) fun _ =>
    attempt (tryEach (commitRange ordered w.page) w.ranges) fun _ => do
      onPage w.page (.setGeneration (page.generation + 1))
      onPage w.page (.setVisibility .cpuNewer (page.visibilityEpoch + 1))
      onPage w.page (.storeHint .cpuNewer)
      reopenAliases ordered page

/-- The publication of a write batch, with the pages locked. -/
def commitLocked (writes : List PendingWrite) : Thread (Except CanonicalWriteBatchError Unit) :=
  attempt (tryEach (commitAdmitted ordered) writes) fun _ => tryEach (commitPage ordered) writes

/-- `ProtectedPageSet::finish`: pages whose aliases cannot be restored are given up. -/
def finishProtected : Thread (Except CanonicalWriteBatchError Unit) := do
  let failed ← hostFails
  if failed then do
    forEach (fun p => ignore (publishVisibility p .invalid)) ps
    return .error (.page (.visibility .hostMemory))
  else return .ok ()

/-- `ProtectedPageSet::with_write`: the aliases are revoked around the access. -/
def withProtected (body : Thread (Except CanonicalWriteBatchError Unit)) :
    Thread (Except CanonicalWriteBatchError Unit) :=
  attempt (tryEach (fun p => asBatchError (attempt (cpuVisibleLocked p) fun _ => return .ok ())) ps)
    fun _ => do
      let failed ← hostFails
      if failed then do
        ignore (finishProtected ps)
        return .error (.page (.visibility .hostMemory))
      else do
        let result ← body
        attempt (finishProtected ps) fun _ => return result

/-- `commit_inner`. -/
def commit (writes : List PendingWrite) : Thread (Except CanonicalWriteBatchError Unit) :=
  lockedAll (writes.map PendingWrite.page) <|
    if ordered then commitLocked ordered writes
    else withProtected (writes.map PendingWrite.page) (commitLocked ordered writes)

/-! ### Device accesses -/

/-- The owner record of a page serves a declaration of the same device, up to `point`. -/
def ownedBefore (visibility : PageVisibility) (device point : ℕ) : Thread Bool :=
  match visibility with
  | .gpuNewer previous => do
      let owner ← ownerPoint previous
      return decide (owner.1 = device ∧ owner.2 ≤ point)
  | _ => pure false

/-- The check of one page in `prepare_device_inputs`. -/
def prepareAdmitted : Thread (Except VisibilityError Unit) := do
  let page ← readPage access.1
  match page.visibility with
  | .clean => return .ok ()
  | .cpuNewer =>
    return if page.visibilityEpoch = u64Max then .error .visibilityEpochExhausted else .ok ()
  | .invalid => return .error .invalidState
  | .conflicting => return .error .conflictingAccess
  | .gpuNewer o => do
      let served ← ownedBefore (.gpuNewer o) access.2.device access.2.deviceVisibleAt
      if served then return .ok () else declareConflict access.1

/-- `arm_cpu_page_states`. -/
def armCpuPages : Thread (Except VisibilityError Unit) := do
  let failed ← hostFails
  if failed then return .error .hostMemory
  else do
    forEach (fun p => onPage p (.setArmed true)) ps
    return .ok ()

def cacheCpuBaseline : Thread (Except VisibilityError Unit) := do
  let failed ← hostFails
  return if failed then .error .coordinator else .ok ()

/-- One page of `prepare_device_inputs` after the checks. -/
def prepareInput : Thread (Except VisibilityError Unit) := do
  let page ← readPage access.1
  attempt (if access.2.kind.writes && page.visibility.cpuVisible then cacheCpuBaseline
    else return .ok ()) fun _ =>
    if page.visibility = .cpuNewer then setVisibility access.1 .clean else return .ok ()

/-- A page that no device owns is given up after a failed preparation. -/
def invalidateUnlessOwned : Thread Unit := do
  let page ← readPage p
  if page.visibility.gpuOwned then pure () else ignore (publishVisibility p .invalid)

/-- `prepare_device_inputs` under the locks of its pages. -/
def prepareLocked : Thread (Except VisibilityError Unit) :=
  attempt (tryEach prepareAdmitted accesses) fun _ => do
    let result ← attempt (armCpuPages (accesses.map Prod.fst)) fun _ =>
      tryEach prepareInput accesses
    match result with
    | .ok _ => return .ok ()
    | .error e => do
        forEach invalidateUnlessOwned (accesses.map Prod.fst)
        return .error e

/-- The end of a call on behalf of a device. -/
def settled {α : Type} (x : Thread α) : Thread α := do
  let result ← x
  act (.mark .settles)
  return result

/-- The point an access is prepared for. -/
def declarePrepare : Thread Unit :=
  act (.mark (.prepares access.2.device access.2.deviceVisibleAt))

def prepareDeviceInputs : Thread (Except VisibilityError Unit) :=
  settled do
    forEach declarePrepare accesses
    lockedAll (accesses.map Prod.fst) (prepareLocked accesses)

/-- A page, the declaration of its writer, and the owner record it is to get. -/
abbrev PageWrite := ℕ × DeviceAccessDeclaration × ℕ

variable (r : ℕ) (w : PageWrite)

/-- `attach_resident_device_owner` under the lock of its page. -/
def attachLocked : Thread (Except VisibilityError Bool) := do
  let page ← readPage w.1
  let owner ← ownerPoint w.2.2
  let served ← ownedBefore page.visibility w.2.1.device owner.2
  if served then attempt (publishVisibility w.1 (.gpuNewer w.2.2)) fun _ => return .ok true
  else return .ok false

def attachResidentDeviceOwner : Thread (Except VisibilityError Bool) :=
  locked w.1 (attachLocked w)

/-- The check of one page in `publish_device_pages`. -/
def publishAdmitted : Thread (Except VisibilityError Unit) := do
  let page ← readPage w.1
  match page.visibility with
  | .clean | .cpuNewer => return .ok ()
  | .invalid => return .error .invalidState
  | .conflicting => declareConflict w.1
  | .gpuNewer o => do
      let owner ← ownerPoint w.2.2
      let served ← ownedBefore (.gpuNewer o) w.2.1.device owner.2
      if served then return .ok () else declareConflict w.1

/-- The CPU bytes of a page are kept before a device takes it. -/
def keepBaseline : Thread (Except VisibilityError Unit) := do
  let page ← readPage w.1
  if page.visibility.cpuVisible then cacheCpuBaseline else return .ok ()

variable (writes : List PageWrite)

/-- The checks of `publish_device_pages`, the revocation of the aliases and the baselines. -/
def publishPrepared : Thread (Except VisibilityError Unit) :=
  attempt (tryEach publishAdmitted writes) fun _ => do
    let failed ← hostFails
    if failed then return .error .hostMemory else tryEach keepBaseline writes

/-- The pages of a batch get their owner records. -/
def publishOwners : Thread (Except VisibilityError Bool) :=
  attempt (tryEach (fun w => setVisibility w.1 (.gpuNewer w.2.2)) writes) fun _ => return .ok true

/-- `publish_device_pages` under the locks of its pages; whether a page is executable is
answered by the environment. -/
def publishLocked (exclusive : Bool) : Thread (Except VisibilityError Bool) := do
  let executable ← hostFails
  if !exclusive && executable then return .ok false
  else do
    let result ← publishPrepared writes
    match result with
    | .error e => do
        forEach (fun w => ignore (publishVisibility w.1 .invalid)) writes
        return .error e
    | .ok _ => publishOwners writes

def publishDevicePages (exclusive : Bool) : Thread (Except VisibilityError Bool) :=
  lockedAll (writes.map Prod.fst) (publishLocked writes exclusive)

/-- Invalidate the pages of a batch; the first error is reported at the end. -/
def invalidateEach : List ℕ → Except VisibilityError Unit → Thread (Except VisibilityError Unit)
  | [], first => return first
  | p :: ps, first => do
      let result ← setVisibility p .invalid
      invalidateEach ps (match first with
        | .error e => .error e
        | .ok _ => result)

def invalidateDevicePages : Thread (Except VisibilityError Unit) :=
  lockedAll ps do
    let failed ← hostFails
    invalidateEach ps (if failed then .error .hostMemory else .ok ())

/-! ### Batches of device writes -/

variable (declaration : DeviceAccessDeclaration)

/-- `RangeDeviceOwner::advance` on the record of a locked layout. -/
def advanceLayout : Thread Bool :=
  perform (Op.layout r (.advance declaration))

def advanceDeviceOwner : Thread Bool := do
  act (.lockLayout r)
  let advanced ← advanceLayout r declaration
  act (.unlockLayout r)
  return advanced

/-- Insert a page into the batch, ordered by page; the owner record it had is answered. -/
def insertWrite (w : PageWrite) : List PageWrite → Option ℕ × List PageWrite
  | [] => (none, [w])
  | x :: xs =>
    if w.1 < x.1 then (none, w :: x :: xs)
    else if w.1 = x.1 then (some x.2.2, w :: xs)
    else ((insertWrite w xs).1, x :: (insertWrite w xs).2)

/-- The owner record a page had in the batch is detached. -/
def detachDisplaced : Option ℕ → Thread Unit
  | none => pure ()
  | some o => act (.detach o)

/-- The pages of a range enter the batch with its new owner record. -/
def enterPages (declaration : DeviceAccessDeclaration) (o : ℕ) :
    List ℕ → List PageWrite → Thread (List PageWrite)
  | [], writes => return writes
  | p :: ps, writes => do
      detachDisplaced (insertWrite (p, declaration, o) writes).1
      enterPages declaration o ps (insertWrite (p, declaration, o) writes).2

def newOwner (device point : ℕ) : Thread ℕ := perform (Op.newOwner device point)

/-- The ranges of a batch: a layout seen before is passed over, an owner record that can be
advanced is advanced, and every other range gets a new record for all of its pages. -/
def collectRanges : List (ℕ × DeviceAccessDeclaration) → List ℕ → List (ℕ × ℕ) →
    List PageWrite → Thread (List (ℕ × ℕ) × List PageWrite)
  | [], _, owners, writes => return (owners, writes)
  | (r, declaration) :: rest, layouts, owners, writes =>
    if r ∈ layouts then collectRanges rest layouts owners writes
    else do
      let advanced ← advanceDeviceOwner r declaration
      if advanced then collectRanges rest (r :: layouts) owners writes
      else do
        let o ← newOwner declaration.device (declaration.cpuVisibleAt.getD 0)
        let writes ← enterPages declaration o (T.pages r) writes
        collectRanges rest (r :: layouts) (owners ++ [(r, o)]) writes

/-- Attach the new records where a device owns the page already; the other pages are left. -/
def attachPages : List PageWrite → List PageWrite →
    Thread (Except VisibilityError (List PageWrite))
  | [], left => return .ok left
  | w :: ws, left =>
    attempt (attachResidentDeviceOwner w) fun attached =>
      attachPages ws (if attached then left else left ++ [w])

/-- The pages no device owns, first under shared and then under exclusive admission. -/
def publishLeft (left : List PageWrite) : Thread (Except VisibilityError Unit) :=
  if left.isEmpty then return .ok ()
  else
    attempt (publishDevicePages left false) fun published =>
      if published then return .ok ()
      else attempt (publishDevicePages left true) fun _ => return .ok ()

/-- The layout gets its new owner record. -/
def installOwner (entry : ℕ × ℕ) : Thread Unit := do
  act (.lockLayout entry.1)
  act (.layout entry.1 (.setOwner entry.2))
  act (.unlockLayout entry.1)

/-- All declarations of a batch write, for one device and at one point. -/
def batchCompatible : List (ℕ × DeviceAccessDeclaration) → Option (ℕ × ℕ × ℕ) →
    Except VisibilityError Unit
  | [], _ => .ok ()
  | (_, declaration) :: rest, boundary =>
    match declaration.cpuVisibleAt with
    | none => .error .declarationDoesNotWrite
    | some point =>
      if boundary.any (· != (declaration.device, declaration.deviceVisibleAt, point)) then
        .error .incompatibleDeclarations
      else batchCompatible rest (some (declaration.device, declaration.deviceVisibleAt, point))

/-- The point a write is published for. -/
def declarePublish : Thread Unit :=
  act (.mark (.publishes access.2.device (access.2.cpuVisibleAt.getD 0)))

/-- The batch proper of `publish_device_writes`. -/
def publishBatch : Thread (Except VisibilityError Unit) :=
  attempt (.done (batchCompatible accesses none)) fun _ => do
    forEach declarePublish accesses
    let collected ← collectRanges T accesses [] [] []
    attempt (attachPages collected.2 []) fun left =>
      attempt (publishLeft left) fun _ => do
        forEach installOwner collected.1
        return .ok ()

def publishDeviceWrites : Thread (Except VisibilityError Unit) :=
  match accesses with
  | [] => return .ok ()
  | [(r, declaration)] =>
    if declaration.kind.writes then settled do
      declarePublish (r, declaration)
      let advanced ← advanceDeviceOwner r declaration
      if advanced then return .ok () else publishBatch T [(r, declaration)]
    else return .error .declarationDoesNotWrite
  | accesses => settled (publishBatch T accesses)

/-! ### Readback -/

/-- What the caller of `ensure_cpu_visible_with` is told of a page no device owns. -/
def visibleOrError : PageVisibility → Except VisibilityError Unit
  | .conflicting => .error .conflictingAccess
  | .invalid => .error .invalidState
  | _ => .ok ()

/-- What a readback remembers while its callback runs. -/
structure ReadbackToken where
  owner : ℕ
  point : ℕ
  epoch : ℕ
  nextGeneration : ℕ

/-- How the first critical section ends: with the result of the call, or with the token. -/
abbrev ReadbackBegun := Except (Except VisibilityError Unit) ReadbackToken

/-- The page has no next generation. -/
def exhaustGeneration : Thread ReadbackBegun :=
  (publishVisibility p .invalid).bind fun result => .done (.error (match result with
    | .error e => .error e
    | .ok _ => .error .generationExhausted))

def beginLocked : Thread ReadbackBegun := do
  let page ← readPage p
  match page.visibility with
  | .gpuNewer o =>
    match checkedAdd page.generation 1 with
    | none => exhaustGeneration p
    | some next => do
        let owner ← ownerPoint o
        return .ok ⟨o, owner.2, page.visibilityEpoch, next⟩
  | visibility => return .error (visibleOrError visibility)

/-- The page is given up because the writeback failed. -/
def abandonReadback (error : VisibilityError) : Thread (Except VisibilityError Unit) :=
  attempt (publishVisibility p .invalid) fun _ => return .error error

/-- The error of `publish_cpu_dirty` as a visibility error. -/
def dirtyError : CanonicalPageError → VisibilityError
  | .visibility e => e
  | _ => .cpuDirtyEpochExhausted

/-- The stored bytes of a readback are published. -/
def publishReadback : Thread (Except VisibilityError Unit) :=
  attempt ((publishCpuDirty p).bind fun result => .done (result.mapError dirtyError)) fun _ =>
    attempt (publishVisibility p .clean) fun _ => do
      let failed ← hostFails
      return if failed then .error .coordinator else .ok ()

/-- The bytes of a readback are stored and published, with the owner detached. -/
def storeReadback (p : ℕ) (token : ReadbackToken) (bytes : List UInt8) :
    Thread (Except VisibilityError Unit) := do
  onPage p (.storeReadback token.owner token.point bytes)
  onPage p (.setGeneration token.nextGeneration)
  let result ← publishReadback p
  act (.mark (.readbackReturns p token.owner token.point result))
  return result

def detachAt (o expected : ℕ) : Thread Bool := perform (Op.detachAt o expected)

variable (token : ReadbackToken)

/-- What is done with the writeback once the owner is detached at the point it was for. -/
def useWriteback : Option (List UInt8) → Thread (Except VisibilityError Unit)
  | none => abandonReadback p .coordinator
  | some bytes =>
    if bytes.length = T.size p then storeReadback p token bytes
    else abandonReadback p (.incorrectWritebackSize (T.size p) bytes.length)

/-- The second critical section: the result of the call, or nothing if it has to start
again. -/
def finishLocked (writeback : Option (List UInt8)) :
    Thread (Option (Except VisibilityError Unit)) := do
  let page ← readPage p
  if page.visibilityEpoch ≠ token.epoch then
    return if page.visibility.gpuOwned then none else some (visibleOrError page.visibility)
  else do
    let detached ← detachAt token.owner token.point
    if detached then (useWriteback T p token writeback).bind fun result => return some result
    else return none

/-- The coordinator returns. -/
def writeback : Thread (Option (List UInt8)) := perform Op.writeback

/-- The callback of a readback, between its two critical sections. -/
def awaitWriteback : Thread (Option (List UInt8)) := do
  act (.mark (.request p token.owner token.point))
  writeback

/-- `ensure_cpu_visible_with`.  `rounds` bounds the rounds of its loop; there is no result
while it has to go on. -/
def ensureCpuVisibleWith (p : ℕ) : ℕ → Thread (Option (Except VisibilityError Unit))
  | 0 => return none
  | rounds + 1 => do
      let begun ← locked p (beginLocked p)
      match begun with
      | .error result => return some result
      | .ok token => do
          let writeback ← awaitWriteback p token
          let result ← locked p (finishLocked T p token writeback)
          match result with
          | some result => return some result
          | none => ensureCpuVisibleWith p rounds

/-! ### CPU accesses that wait for a readback -/

/-- `prepare_cpu_access`: the readback of a page; there is no result while it has to go on. -/
def prepareCpuAccess (rounds : ℕ) : Thread (Except (Option CanonicalPageError) Unit) :=
  (ensureCpuVisibleWith T p rounds).bind fun result => .done (match result with
    | none => .error none
    | some (.error e) => .error (some (.visibility e))
    | some (.ok _) => .ok ())

/-- A call that goes on after a readback fails with the errors of a page. -/
def thenLocked {α : Type} (x : Thread (Except CanonicalPageError α)) :
    Thread (Except (Option CanonicalPageError) α) :=
  x.bind fun result => .done (result.mapError some)

def prepareWrite (rounds : ℕ) : Thread (Except (Option CanonicalPageError) Unit) :=
  attempt (prepareCpuAccess T p rounds) fun _ =>
  attempt (thenLocked ensureBacking) fun _ =>
  authorized p (thenLocked (asPageError (requireCpuAuthority p)))

/-- `prepare_cpu_write`, which is all of `resolve_direct_write_fault`. -/
def prepareCpuWrite (rounds : ℕ) : Thread (Except (Option CanonicalPageError) Unit) :=
  attempt (prepareCpuAccess T p rounds) fun _ =>
  attempt (thenLocked ensureBacking) fun _ =>
  authorized p (thenLocked (prepareCpuWriteLocked p))

/-- Some bytes of a page. -/
def Page.slice (page : Page) (offset size : ℕ) : List UInt8 := (page.bytes.drop offset).take size

/-- One round of `read`: the bytes, or nothing if a device owns the page. -/
def readLocked (offset size : ℕ) : Thread (Except CanonicalPageError (Option (List UInt8))) :=
  locked p <|
    attempt (cpuVisibleLocked p) fun visible => do
      let page ← readPage p
      return .ok (if visible then some (page.slice offset size) else none)

/-- A call that is repeated after a readback while a device owns the page. -/
def retrying {α : Type} (p : ℕ) (x : Thread (Except CanonicalPageError (Option α))) :
    ℕ → Thread (Except (Option CanonicalPageError) α)
  | 0 => return .error none
  | rounds + 1 =>
    attempt (thenLocked x) fun result => match result with
      | some a => return .ok a
      | none => attempt (prepareCpuAccess T p rounds) fun _ => retrying p x rounds

def read (offset size rounds : ℕ) : Thread (Except (Option CanonicalPageError) (List UInt8)) :=
  attempt (thenLocked (.done (checkedEnd T p offset size))) fun _ =>
  retrying T p (readLocked p offset size) rounds

/-- The hardware comparison and exchange. -/
def exchangeBytes (offset : ℕ) (expected replacement : List UInt8) :
    Thread (Except CanonicalPageError (Option (List UInt8 × Bool))) := do
  let page ← readPage p
  if page.slice offset expected.length = expected then do
    onPage p (.copyBytes offset replacement)
    return .ok (some (expected, true))
  else return .ok (some (page.slice offset expected.length, false))

/-- `try_atomic_compare_exchange` under the lock of the page. -/
def exchangeLocked (offset : ℕ) (expected replacement : List UInt8) :
    Thread (Except CanonicalPageError (Option (List UInt8 × Bool))) :=
  attempt (cpuVisibleLocked p) fun visible =>
  if visible then do
    let page ← readPage p
    if page.armed ∨ page.visibility ≠ .cpuNewer then
      if page.slice offset expected.length = expected then
        attempt (prepareCpuWriteLocked p) fun _ => exchangeBytes p offset expected replacement
      else return .ok (some (page.slice offset expected.length, false))
    else exchangeBytes p offset expected replacement
  else return .ok none

def tryAtomicCompareExchange (offset : ℕ) (expected replacement : List UInt8) :
    Thread (Except CanonicalPageError (Option (List UInt8 × Bool))) :=
  attempt (.done (checkedEnd T p offset expected.length)) fun _ =>
  attempt ensureBacking fun _ => locked p (exchangeLocked p offset expected replacement)

def atomicCompareExchange (offset : ℕ) (expected replacement : List UInt8) (rounds : ℕ) :
    Thread (Except (Option CanonicalPageError) (List UInt8 × Bool)) :=
  retrying T p (tryAtomicCompareExchange T p offset expected replacement) rounds

/-- `try_exclusive_store`; whether the reservation is still the one of the load is answered by
the environment. -/
def tryExclusiveStore (offset : ℕ) (bytes : List UInt8) :
    Thread (Except CanonicalPageError (Option Bool)) :=
  attempt (.done (checkedEnd T p offset bytes.length)) fun _ =>
  locked p do
    let lost ← hostFails
    if lost then return .ok (some false)
    else
      attempt (cpuVisibleLocked p) fun visible =>
      if visible then
        attempt (prepareCpuWriteLocked p) fun _ => do
          onPage p (.copyBytes offset bytes)
          return .ok (some true)
      else return .ok none

/-! ### Residency checks -/

/-- `VisibilityState`: a device-owned page with the device and point of its record. -/
inductive VisibilityState
  | clean
  | cpuNewer
  | gpuNewer (device visibleAt : ℕ)
  | conflicting
  | invalid
  deriving DecidableEq

def visibilitySnapshot : PageVisibility → Thread VisibilityState
  | .clean => return .clean
  | .cpuNewer => return .cpuNewer
  | .conflicting => return .conflicting
  | .invalid => return .invalid
  | .gpuNewer o => do
      let owner ← ownerPoint o
      return .gpuNewer owner.1 owner.2

/-- The visibility of a page behind its mutex. -/
def snapshotLocked : Thread VisibilityState := do
  let page ← readPage p
  visibilitySnapshot page.visibility

/-- The hint of a page, read without its mutex. -/
def loadHint (p : ℕ) : Thread CpuVisibilityHint := perform (Op.loadHint p)

/-- `visibility_state`: the hint answers for the CPU's states, the mutex for the others. -/
def visibilityState : Thread VisibilityState := do
  let hint ← loadHint p
  match hint with
  | .clean => return .clean
  | .cpuNewer => return .cpuNewer
  | .unavailable => locked p (snapshotLocked p)

def observeVisibilitySummary (summary : ℕ) : Thread Unit :=
  locked p (onPage p (.subscribe summary))

/-- The physical coverage of a range: its pages in order. -/
def coverage : List ℕ := ps.mergeSort

def newSummary : Thread ℕ := perform Op.newSummary

/-- A new summary; all pages are subscribed before it is published. -/
def createSummary : Thread ℕ := do
  let summary ← newSummary
  forEach (fun p => observeVisibilitySummary p summary) (coverage ps)
  act (.insertSummary (coverage ps) summary)
  act .unlockInterner
  return summary

/-- The summary the interner has for a coverage. -/
def findSummary (covered : List ℕ) : Thread (Option ℕ) := perform (Op.findSummary covered)

/-- The summary of a set of pages. -/
def internSummary : Thread ℕ := do
  act .lockInterner
  let known ← findSummary (coverage ps)
  match known with
  | some summary => do
      act .unlockInterner
      return summary
  | none => createSummary ps

/-- Enter the once-cell of a layout. -/
def beginSummary (r : ℕ) : Thread (Option ℕ) := perform (Op.beginSummary r)

/-- `visibility_summary`: the once-cell of the layout. -/
def visibilitySummary : Thread ℕ := do
  let known ← beginSummary r
  match known with
  | some summary => return summary
  | none => do
      let summary ← internSummary (T.pages r)
      act (.finishSummary r summary)
      return summary

/-- The device and the point of the record of a locked layout. -/
def layoutPoint : Thread (Option (ℕ × ℕ)) := perform (Op.layout r .point)

/-- The fracture of the record of a locked layout. -/
def layoutFractured : Thread Bool := perform (Op.layout r .fractured)

/-- The record of a locked layout serves the declaration, and is not fractured. -/
def currentLocked : Thread Bool := do
  let owner ← layoutPoint r
  if owner.any (fun o => o.1 = declaration.device ∧ o.2 ≤ declaration.deviceVisibleAt) then do
    let fractured ← layoutFractured r
    return !fractured
  else return false

/-- `is_current_for` of the owner record of a layout. -/
def ownerCurrentFor : Thread Bool := do
  act (.lockLayout r)
  let current ← currentLocked r declaration
  act (.unlockLayout r)
  return current

/-- The walk over the pages: whether all of them are ready, and whether all are clean. -/
def scanPages (declaration : DeviceAccessDeclaration) : List ℕ → Bool → Thread (Bool × Bool)
  | [], allClean => return (true, allClean)
  | p :: ps, allClean => do
      let visibility ← visibilityState p
      match visibility with
      | .clean =>
        if declaration.kind.writes then return (false, allClean)
        else scanPages declaration ps allClean
      | .gpuNewer device visibleAt =>
        if device = declaration.device ∧ visibleAt ≤ declaration.deviceVisibleAt then
          scanPages declaration ps false
        else return (false, false)
      | _ => return (false, allClean)

def loadSummary (summary : ℕ) : Thread ℕ := perform (Op.loadSummary summary)

/-- The epoch of an all-clean walk is remembered if the summary has not moved. -/
def rememberClean (summary epoch : ℕ) (allClean : Bool) : Thread Unit :=
  if allClean ∧ epoch ≠ u64Max then do
    let again ← loadSummary summary
    if again = epoch then act (.storeCleanEpoch r epoch) else pure ()
  else pure ()

/-- The epoch at which the pages of a range were last seen clean. -/
def loadCleanEpoch (r : ℕ) : Thread ℕ := perform (Op.loadCleanEpoch r)

/-- The cached answer of a range. -/
def cleanReadCached (epoch : ℕ) : Thread Bool :=
  if epoch ≠ u64Max then do
    let cached ← loadCleanEpoch r
    return decide (cached = epoch)
  else pure false

/-- The answer of a walk, remembered where it may be. -/
def scanReady (summary epoch : ℕ) (declaration : DeviceAccessDeclaration) : Thread Bool := do
  let scanned ← scanPages declaration (T.pages r) true
  if scanned.1 then do
    rememberClean r summary epoch scanned.2
    return true
  else return false

/-- `resident_access_ready` for a read declaration, once the owner record has not answered. -/
def readReady : Thread Bool := do
  let summary ← visibilitySummary T r
  let epoch ← loadSummary summary
  let hit ← cleanReadCached r epoch
  if hit then do
    act (.mark (.cleanReadHit r))
    return true
  else scanReady T r summary epoch declaration

def residentAccessReady : Thread Bool := do
  act (.mark (.enter r))
  let current ← ownerCurrentFor r declaration
  if current then do
    act (.mark (.ownerHit r declaration))
    return true
  else if declaration.kind.writes then do
    let scanned ← scanPages declaration (T.pages r) true
    return scanned.1
  else readReady T r declaration

/-! ### Calls -/

inductive Call
  | ensureCpuVisibleWith (p rounds : ℕ)
  | writePreflighted (p offset : ℕ) (bytes : List UInt8) (expected next : ℕ)
  | writeFragmentPreflighted (p offset : ℕ) (bytes : List UInt8) (generation : ℕ)
  | cpuAccessWrite (p offset : ℕ) (bytes : List UInt8)
  | writeHostScalar (p offset : ℕ) (bytes : List UInt8)
  | tryWriteHostRegions (writes : List HostWrite)
  | commit (ordered : Bool) (writes : List PendingWrite)
  | prepareDeviceInputs (accesses : List (ℕ × DeviceAccessDeclaration))
  | publishDeviceWrites (accesses : List (ℕ × DeviceAccessDeclaration))
  | invalidateDevicePages (pages : List ℕ)
  | residentAccessReady (r : ℕ) (declaration : DeviceAccessDeclaration)
  | prepareWrite (p rounds : ℕ)
  | prepareCpuWrite (p rounds : ℕ)
  | read (p offset size rounds : ℕ)
  | atomicCompareExchange (p offset : ℕ) (expected replacement : List UInt8) (rounds : ℕ)
  | tryExclusiveStore (p offset : ℕ) (bytes : List UInt8)

/-- A CPU access that waits for a readback, as call number `k` of its thread; it has no result
while it has to go on. -/
def waiting {α : Type} (k p rounds : ℕ) (x : Thread (Except (Option CanonicalPageError) α)) :
    Thread Unit := do
  act (.mark (.waits k p rounds))
  let result ← x
  act (.mark (.ends k p rounds (result.map fun _ => ())))

/-- The program of call number `k` of a thread, its result dropped. -/
def Call.program (k : ℕ) : Call → Thread Unit
  | .ensureCpuVisibleWith p rounds => ignore (Memory.ensureCpuVisibleWith T p rounds)
  | .writePreflighted p offset bytes expected next =>
    ignore (Memory.writePreflighted T p offset bytes expected next)
  | .writeFragmentPreflighted p offset bytes generation =>
    ignore (Memory.writeFragmentPreflighted T p offset bytes generation)
  | .cpuAccessWrite p offset bytes => ignore (Memory.cpuAccessWrite T p offset bytes)
  | .writeHostScalar p offset bytes => ignore (Memory.writeHostScalar T p offset bytes)
  | .tryWriteHostRegions writes => ignore (Memory.tryWriteHostRegions T writes)
  | .commit ordered writes => ignore (Memory.commit ordered writes)
  | .prepareDeviceInputs accesses => ignore (Memory.prepareDeviceInputs accesses)
  | .publishDeviceWrites accesses => ignore (Memory.publishDeviceWrites T accesses)
  | .invalidateDevicePages pages => ignore (Memory.invalidateDevicePages pages)
  | .residentAccessReady r declaration => ignore (Memory.residentAccessReady T r declaration)
  | .prepareWrite p rounds => waiting k p rounds (Memory.prepareWrite T p rounds)
  | .prepareCpuWrite p rounds => waiting k p rounds (Memory.prepareCpuWrite T p rounds)
  | .read p offset size rounds => waiting k p rounds (Memory.read T p offset size rounds)
  | .atomicCompareExchange p offset expected replacement rounds =>
    waiting k p rounds (Memory.atomicCompareExchange T p offset expected replacement rounds)
  | .tryExclusiveStore p offset bytes => ignore (Memory.tryExclusiveStore T p offset bytes)

/-- A thread makes its calls one after another. -/
def threadOf (calls : List Call) : Thread Unit :=
  forEach (fun call => call.1.program T call.2) calls.zipIdx

/-- A page as it is created. -/
def zeroedPage (size : ℕ) : Page where
  lock := none
  visibility := .cpuNewer
  visibilityEpoch := 0
  armed := false
  summaries := []
  hint := .cpuNewer
  generation := 0
  dirtyEpoch := 0
  bytes := List.replicate size 0

/-- The memory at the start, whatever the environment is going to answer. -/
def fresh (environment : ℕ → Answer) : Shared where
  pages p := zeroedPage (T.size p)
  owners := []
  layouts _ := ⟨none, none, none, none, u64Max⟩
  counters := []
  internerLock := none
  interner := []
  environment := environment

/-- The system of a topology and an environment. -/
def system (environment : ℕ → Answer) : System Shared Resp where
  start := fresh T environment
  exec := exec

end Nixe.Memory
