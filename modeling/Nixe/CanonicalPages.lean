/-
**Calls on canonical pages.**

Device preparations and publications, protected accesses, host writes and write batches lock several
pages at once, in the order of their identities, and keep all of them locked to their end.  With the
methods of single pages they make a machine whose steps are the critical sections of the program.

A call that releases its pages and takes them again is several calls here: a readback, and a commit
that finds code among its pages.

Main definitions:

* `armCpuPageStates`, `withAccess` — observers and protected accesses;
* `tryWriteHostRegions`, `commitInner` — writes of the host;
* `prepareDeviceInputs`, `publishDevicePages`, `invalidateDevicePages` — devices;
* `Command`, `machine` — the calls, and their runs.
-/
import Nixe.CallLog
import Nixe.CanonicalPage
import Nixe.Machine

set_option autoImplicit false

namespace Nixe.CanonicalPages

open Memory Call

/-! ### Several pages -/

abbrev Pages := ℕ → CanonicalPageState

/-- A method on the states of several pages. -/
abbrev PagesCall (ε α : Type) := Call Pages ε α

/-- What a call asks of the host: whether it applies the batches of protections, and those for a
single page, and whether it has 16-byte atomics. -/
structure Host where
  batch : ℕ → Bool
  page : ℕ → ℕ → Bool
  wide : Bool

/-- A method of one of the pages. -/
def onPage {ε α : Type} (p : ℕ) (method : PageCall ε α) : PagesCall ε α := fun pages =>
  ((method (pages p)).1, Function.update pages p (method (pages p)).2)

/-- A loop that ends with the first error. -/
def forEach {ε ι : Type} (items : List ι) (body : ι → PagesCall ε Unit) : PagesCall ε Unit :=
  match items with
  | [] => pure ()
  | item :: items => do
      body item
      forEach items body

/-- `let _ = page.publish_visibility(state, Invalid)` for every page. -/
def invalidateAll {ε : Type} (host : Host) (ps : List ℕ) : PagesCall ε Unit :=
  forEach ps fun p => onPage p (ignore (publishVisibility (host.page p 0) .invalid))

/-- `DirectProtectionBatch`: the protections of all pages are applied together. -/
def protectAll {ε : Type} (host : Bool) (refused : ε) (ps : List ℕ)
    (protection : CanonicalPageState → CanonicalPageState) : PagesCall ε Unit :=
  if host then update fun pages p => if p ∈ ps then protection (pages p) else pages p
  else fail refused

/-! ### Observers and protected accesses -/

/-- The page is neither conflicting nor invalid. -/
def usable : PageCall CanonicalPageError Unit := do
  let _ ← cpuVisibleLocked
  pure ()

variable (host : Host) (page : CanonicalPageState)

/-- What arming does to the aliases of a page. -/
def CanonicalPageState.protectArmed : CanonicalPageState :=
  if page.cpuDirtyObserverArmed then page
  else page.protect (allowed page.visibility.cpuVisible false)

/-- The observers of some pages are armed. -/
def armAll {ε : Type} (ps : List ℕ) : PagesCall ε Unit :=
  update fun pages p =>
    if p ∈ ps then { pages p with cpuDirtyObserverArmed := true } else pages p

/-- `arm_cpu_page_states`, which is all that `observe_cpu_pages` does to the pages. -/
def armCpuPageStates (ps : List ℕ) : PagesCall CanonicalPageError Unit := do
  forEach ps fun p => onPage p usable
  protectAll (host.batch 0) (.visibility .hostMemory) ps CanonicalPageState.protectArmed
  armAll ps

/-- What a protected access needs of the aliases of a page. -/
def CanonicalPageState.protectAccess (write : Bool) (page : CanonicalPageState) :
    CanonicalPageState :=
  if write && page.visibility.cpuVisible then page.protect fun _ => .none
  else if !write && !page.cpuDirtyObserverArmed && page.visibility == .cpuNewer then
    page.protect (allowed true false)
  else page

/-- Whether a page has writable aliases that a reader has to revoke. -/
def CanonicalPageState.needsProtection : Bool :=
  !page.cpuDirtyObserverArmed && page.visibility == .cpuNewer &&
    page.directAliases.any fun a => a.maximumProtection == .readWrite

/-- What the end of a protected access gives back. -/
def CanonicalPageState.restore : CanonicalPageState :=
  if page.visibility.cpuVisible then
    page.protect (allowed true
      !(page.cpuDirtyObserverArmed || page.visibility == .clean))
  else page

def finish (ps : List ℕ) : PagesCall CanonicalPageError Unit :=
  handle (protectAll (host.batch 1) (CanonicalPageError.visibility .hostMemory) ps
      CanonicalPageState.restore)
    (fun e => do
      invalidateAll host ps
      fail e)
    pure

def withAccess {α : Type} (host : Host) (write : Bool) (ps : List ℕ)
    (access : PagesCall CanonicalPageError α) : PagesCall CanonicalPageError α := do
  forEach ps fun p => onPage p usable
  let pages ← read
  if write || ps.any fun p => (pages p).needsProtection then
    handle (protectAll (host.batch 0) (CanonicalPageError.visibility .hostMemory) ps
        (CanonicalPageState.protectAccess write))
      (fun e => do
        ignore (finish host ps)
        fail e)
      fun _ => afterwards access (finish host ps)
  else access

/-- A protected read of the pages `ps`; the reader goes on to observe those of them that are in
`observed`. -/
def protectedRead (ps observed : List ℕ) : PagesCall CanonicalPageError Unit :=
  withAccess host false ps (armAll (observed.filter (· ∈ ps)))

/-! ### Writes of the CPU and of the host -/

/-- Bytes for a page: `CanonicalHostWrite`, or the part of a store that lies on the page. -/
structure PageWrite where
  page : ℕ
  offset : ℕ
  bytes : List UInt8

/-- The pages of some writes; an empty write locks no page. -/
def writtenPages (writes : List PageWrite) : List ℕ :=
  ((writes.filter fun w => !w.bytes.isEmpty).map PageWrite.page).dedup

/-- Every page of an access is the CPU's; the access is given up without an error if a device has to
give a page back first. -/
def accessible : PageCall (Option CanonicalPageError) Unit := do
  let visible ← mapErr some cpuVisibleLocked
  failIf (!visible) none

/-- A checked store of the CPU through `CanonicalCpuAccess`: all pages are prepared before the first
byte is written. -/
def cpuAccessWrite (writes : List PageWrite) : PagesCall (Option CanonicalPageError) Unit := do
  forEach (writtenPages writes) fun p => onPage p accessible
  forEach (writtenPages writes) fun p =>
    onPage p (mapErr some (prepareCpuWriteLocked (host.page p)))
  forEach writes fun w => onPage w.page (mapErr some (writePrepared w.offset w.bytes))

/-- The generation that a write to an allocation gives a page. -/
def nextGeneration : PageCall CanonicalPageError Unit := do
  let page ← read
  let next ← okOr (checkedAdd page.contentGeneration 1) (.visibility .generationExhausted)
  update fun page => { page with contentGeneration := next }

/-- The write of an allocation over several pages, with its execution gate held exclusively. -/
def writeAllocation (writes : List PageWrite) : PagesCall CanonicalPageError Unit := do
  forEach writes fun w => onPage w.page (checkedEnd w.offset w.bytes.length)
  forEach (writtenPages writes) fun p => onPage p (do
    let page ← read
    let _ ← okOr (checkedAdd page.contentGeneration 1) (.visibility .generationExhausted))
  forEach (writtenPages writes) fun p => onPage p (prepareCpuWriteLocked (host.page p))
  forEach writes fun w => onPage w.page (update (·.copyBytes w.offset w.bytes))
  forEach (writtenPages writes) fun p => onPage p nextGeneration

/-- The first check of a page in `try_write_host_regions`. -/
def hostWriteVisible (executable : Bool) (p : ℕ) : PageCall HostWriteExit Unit := do
  let visible ← mapErr (fun e => .error (.page e)) cpuVisibleLocked
  failIf (!visible) (.ok (.cpuVisibility p))
  failIf executable (.ok .executable)

/-- The counters of a page that a host write advances. -/
def hostWriteAdmitted : PageCall HostWriteExit Unit := do
  let page ← read
  let _ ← okOr (checkedAdd page.contentGeneration 1) (.error .generationExhausted)
  failIf (page.visibility = .clean ∧ page.visibilityEpoch = u64Max)
    (.error .visibilityEpochExhausted)
  failIf (page.cpuDirtyObserverArmed ∧ page.cpuDirtyEpoch = u64Max)
    (.error (.page .cpuDirtyEpochExhausted))

/-- The page of a host write becomes the CPU's and its observers are told. -/
def hostWriteTaken (host : ℕ → Bool) : PageCall HostWriteExit Unit :=
  mapErr (fun e => .error (.page e)) do
    mapErr CanonicalPageError.visibility (takeFromClean (host 0))
    advanceCpuDirtyEpoch (host 1)

/-- `try_write_host_regions`; `executable` are the pages with code.  The word stores do not fail on
a range inside the page. -/
def tryWriteHostRegions (executable : ℕ → Bool) (writes : List PageWrite) :
    PagesCall HostWriteExit Unit := do
  forEach writes fun w => onPage w.page
    (mapErr (fun e => .error (.page e)) (checkedEnd w.offset w.bytes.length))
  forEach (writtenPages writes) fun p => onPage p (hostWriteVisible (executable p) p)
  forEach (writtenPages writes) fun p => onPage p hostWriteAdmitted
  forEach (writtenPages writes) fun p => onPage p (hostWriteTaken (host.page p))
  forEach writes fun w => onPage w.page (update (·.storeOrderedBytes w.offset w.bytes))
  forEach (writtenPages writes) fun p => onPage p (update fun page =>
    { page with contentGeneration := page.contentGeneration + 1 })

/-! ### Write batches -/

/-- `PendingCanonicalPageWrite`: what a write batch holds of a page. -/
structure PendingWrite where
  expectedGeneration : ℕ
  expectedVisibilityEpoch : ℕ
  expectedDirtyEpoch : ℕ
  bytes : List UInt8
  dirtyRanges : List (ℕ × ℕ)
  deriving DecidableEq, Repr

/-- What a batch expects has a successor. -/
def commitPreflight (pending : PendingWrite) : PageCall CanonicalWriteBatchError Unit := do
  let _ ← okOr (checkedAdd pending.expectedGeneration 1) .generationExhausted
  let _ ← okOr (checkedAdd pending.expectedVisibilityEpoch 1) .visibilityEpochExhausted

/-- The check of one page in `commit_inner`. -/
def commitAdmitted (ordered : Bool) (pending : PendingWrite) :
    PageCall CanonicalWriteBatchError Unit := do
  let page ← read
  failIf ((!ordered && (page.contentGeneration != pending.expectedGeneration ||
    page.visibilityEpoch != pending.expectedVisibilityEpoch ||
    page.cpuDirtyEpoch != pending.expectedDirtyEpoch)) || !page.visibility.cpuVisible)
    .concurrentMutation
  let _ ← okOr (checkedAdd page.contentGeneration 1) .generationExhausted
  let _ ← okOr (checkedAdd page.visibilityEpoch 1) .visibilityEpochExhausted
  failIf (page.cpuDirtyObserverArmed ∧ page.cpuDirtyEpoch = u64Max)
    (.page .cpuDirtyEpochExhausted)

/-- The bytes that a commit gives a page: the ranges that were staged, or the whole page. -/
def PendingWrite.publish (pending : PendingWrite) (ordered : Bool) (page : CanonicalPageState) :
    CanonicalPageState :=
  if ordered then
    pending.dirtyRanges.foldl (fun page range => page.storeOrderedBytes range.1
      ((pending.bytes.drop range.1).take (range.2 - range.1))) page
  else page.copyBytes 0 pending.bytes

/-- The publication of one page in `commit_inner`; the word stores of an ordered commit do not fail
on a range inside the page. -/
def commitPage (host : ℕ → Bool) (ordered : Bool) (pending : PendingWrite) :
    PageCall CanonicalWriteBatchError Unit := do
  let page ← read
  update fun page => { page with visibility := .cpuNewer }
  mapErr CanonicalWriteBatchError.page (advanceCpuDirtyEpoch (host 0))
  update (pending.publish ordered)
  update fun page => { page with
    contentGeneration := page.contentGeneration + 1
    visibilityEpoch := page.visibilityEpoch + 1 }
  if ordered && page.visibility == .clean && !page.cpuDirtyObserverArmed then
    mapErr (fun e => CanonicalWriteBatchError.page (.visibility e))
      (publishDirectAliasProtection (host 1))
  else pure ()

/-- The closure `publish` of `commit_inner`: whether the batch was published. -/
def commitPublish (ordered exclusive : Bool) (executable : ℕ → Bool)
    (pending : ℕ → PendingWrite) (ps : List ℕ) : PagesCall CanonicalWriteBatchError Bool :=
  if !exclusive && ps.any executable then pure false
  else do
    forEach ps fun p => onPage p (commitAdmitted ordered (pending p))
    forEach ps fun p => onPage p (commitPage (host.page p) ordered (pending p))
    pure true

/-- One round of `commit_inner`; with code among the pages there is a second, exclusive one. -/
def commitInner (ordered exclusive : Bool) (executable : ℕ → Bool)
    (pending : ℕ → PendingWrite) (ps : List ℕ) : PagesCall CanonicalWriteBatchError Bool := do
  forEach ps fun p => onPage p (commitPreflight (pending p))
  if ordered then commitPublish host ordered exclusive executable pending ps
  else do
    let published ← mapErr CanonicalWriteBatchError.read (withAccess host true ps
      (outcome (commitPublish host ordered exclusive executable pending ps)))
    ofOutcome published

/-! ### Devices -/

/-- The check of one page in `prepare_device_inputs`. -/
def prepareAdmitted (host served : Bool) : PageCall VisibilityError Unit := do
  let page ← read
  match page.visibility with
  | .clean => pure ()
  | .cpuNewer => failIf (page.visibilityEpoch = u64Max) .visibilityEpochExhausted
  | .invalid => fail .invalidState
  | .conflicting => fail .conflictingAccess
  | .gpuNewer _ =>
    if served then pure ()
    else do
      publishVisibility host .conflicting
      fail .conflictingAccess

/-- One page of `prepare_device_inputs` after the checks; `cached` says whether the coordinator
kept the baseline. -/
def prepareInput (writes cached : Bool) : PageCall VisibilityError Unit := do
  let page ← read
  failIf (writes && page.visibility.cpuVisible && !cached) .coordinator
  if page.visibility = .cpuNewer then setVisibility .clean else pure ()

/-- A page that no device owns is given up after a failed preparation. -/
def invalidateUnlessOwned (host : Bool) : PageCall VisibilityError Unit := do
  let page ← read
  if page.visibility.gpuOwned then pure ()
  else ignore (publishVisibility host .invalid)

def prepareDeviceInputs (served writes cached : ℕ → Bool) (ps : List ℕ) :
    PagesCall VisibilityError Unit := do
  forEach ps fun p => onPage p (prepareAdmitted (host.page p 0) (served p))
  handle (do
      mapErr dirtyError (armCpuPageStates host ps)
      forEach ps fun p => onPage p (prepareInput (writes p) (cached p)))
    (fun e => do
      forEach ps fun p => onPage p (invalidateUnlessOwned (host.page p 1))
      fail e)
    pure

/-- The check of one page in `publish_device_pages`. -/
def publishAdmitted (host served : Bool) : PageCall VisibilityError Unit := do
  let page ← read
  match page.visibility with
  | .clean | .cpuNewer => pure ()
  | .invalid => fail .invalidState
  | .conflicting => do
      publishVisibility host .conflicting
      fail .conflictingAccess
  | .gpuNewer _ =>
    if served then pure ()
    else do
      publishVisibility host .conflicting
      fail .conflictingAccess

/-- The aliases of a page that a device is going to own. -/
def CanonicalPageState.revoke : CanonicalPageState :=
  if page.visibility.cpuVisible then page.protect fun _ => .none else page

/-- The CPU bytes of a page are kept before a device takes it. -/
def keepBaseline (cached : Bool) : PageCall VisibilityError Unit := do
  let page ← read
  failIf (page.visibility.cpuVisible && !cached) .coordinator

/-- The checks of `publish_device_pages`, the revocation of the aliases and the baselines. -/
def publishPrepared (served cached : ℕ → Bool) (ps : List ℕ) : PagesCall VisibilityError Unit := do
  forEach ps fun p => onPage p (publishAdmitted (host.page p 1) (served p))
  protectAll (host.batch 0) .hostMemory ps CanonicalPageState.revoke
  forEach ps fun p => onPage p (keepBaseline (cached p))

/-- `publish_device_pages`: whether the pages were published. -/
def publishDevicePages (served cached executable : ℕ → Bool) (exclusive : Bool)
    (owner : ℕ → ℕ) (ps : List ℕ) : PagesCall VisibilityError Bool :=
  if !exclusive && ps.any executable then pure false
  else
    handle (publishPrepared host served cached ps)
      (fun e => do
        invalidateAll host ps
        fail e)
      fun _ => do
        forEach ps fun p => onPage p (setVisibility (.gpuNewer (owner p)))
        pure true

/-- The aliases of a page that is invalidated. -/
def CanonicalPageState.revokeUnlessOwned : CanonicalPageState :=
  if page.visibility.gpuOwned then page else page.protect fun _ => .none

/-- The pages become invalid one by one; the first error is returned at the end. -/
def invalidateEach : List ℕ → Outcome VisibilityError Unit → PagesCall VisibilityError Unit
  | [], .err e => fail e
  | [], _ => pure ()
  | p :: ps, first => do
      let result ← outcome (onPage p (setVisibility .invalid))
      invalidateEach ps (match first with
        | .err e => .err e
        | _ => result)

def invalidateDevicePages (ps : List ℕ) : PagesCall VisibilityError Unit := do
  let revoked ← outcome
    (protectAll (host.batch 0) VisibilityError.hostMemory ps CanonicalPageState.revokeUnlessOwned)
  invalidateEach ps revoked

/-! ### Runs -/

/-- The calls; the pages of a call are distinct, as the callers order them. -/
inductive Command
  | nativeStore (p arena guestAddress offset : ℕ) (bytes : List UInt8)
  | prepareWrite (p : ℕ)
  | prepareCpuWrite (p : ℕ)
  | cpuAccessWrite (writes : List PageWrite)
  | writeHostScalar (p : ℕ) (executable : Bool) (offset : ℕ) (bytes : List UInt8)
  | writePreflighted (p offset : ℕ) (bytes : List UInt8) (expected next : ℕ)
  | writeFragmentPreflighted (p offset : ℕ) (bytes : List UInt8) (generation : ℕ)
  | writeAllocation (writes : List PageWrite)
  | tryAtomicCompareExchange (p offset : ℕ) (expected replacement : List UInt8)
  | enableExclusiveAccess (p identity : ℕ)
  | exclusiveLoad (p identity offset size : ℕ)
  | tryExclusiveStore (p offset : ℕ) (identity : Option ℕ) (version : ℕ)
      (replacement : List UInt8)
  | registerDirectAlias (p arena guestAddress : ℕ) (maximum : DirectProtection)
  | unregisterDirectAlias (p arena guestAddress : ℕ)
  | beginReadback (p : ℕ)
  | finishReadback (p epoch nextGeneration : ℕ) (detached : Bool)
      (writeback : Option (List UInt8))
  | attachResidentDeviceOwner (p : ℕ) (served : Bool) (owner : ℕ)
  | observeCpuPages (ps : List ℕ)
  | protectedRead (ps observed : List ℕ)
  | tryWriteHostRegions (executable : ℕ → Bool) (writes : List PageWrite)
  | commit (ordered exclusive : Bool) (executable : ℕ → Bool) (pending : ℕ → PendingWrite)
      (ps : List ℕ)
  | prepareDeviceInputs (served writes cached : ℕ → Bool) (ps : List ℕ)
  | publishDevicePages (served cached executable : ℕ → Bool) (exclusive : Bool) (owner : ℕ → ℕ)
      (ps : List ℕ)
  | invalidateDevicePages (ps : List ℕ)

/-- What a call on the pages leaves behind. -/
def left {ε α : Type} (c : PagesCall ε α) (pages : Pages) : Pages := (c pages).2

def Command.run : Command → Pages → Pages
  | .nativeStore p arena guestAddress offset bytes =>
    left (onPage p (CanonicalPages.nativeStore arena guestAddress offset bytes))
  | .prepareWrite p => left (onPage p (requireCpuAuthority (host.page p 0)))
  | .prepareCpuWrite p => left (onPage p (prepareCpuWriteLocked (host.page p)))
  | .cpuAccessWrite writes => left (CanonicalPages.cpuAccessWrite host writes)
  | .writeHostScalar p executable offset bytes =>
    left (onPage p (whenVisible
      (CanonicalPages.writeHostScalar (host.page p) host.wide executable offset bytes)))
  | .writePreflighted p offset bytes expected next =>
    left (onPage p (CanonicalPages.writePreflighted (host.page p) offset bytes expected next))
  | .writeFragmentPreflighted p offset bytes generation =>
    left (onPage p
      (CanonicalPages.writeFragmentPreflighted (host.page p) offset bytes generation))
  | .writeAllocation writes => left (CanonicalPages.writeAllocation host writes)
  | .tryAtomicCompareExchange p offset expected replacement =>
    left (onPage p (CanonicalPages.tryAtomicCompareExchange (host.page p) host.wide offset
      expected replacement))
  | .enableExclusiveAccess p identity =>
    left (onPage p (CanonicalPages.enableExclusiveAccess identity))
  | .exclusiveLoad p identity offset size =>
    left (onPage p (CanonicalPages.exclusiveLoad host.wide identity offset size))
  | .tryExclusiveStore p offset identity version replacement =>
    left (onPage p (CanonicalPages.tryExclusiveStore (host.page p) host.wide offset identity
      version replacement))
  | .registerDirectAlias p arena guestAddress maximum =>
    left (onPage p
      (CanonicalPages.registerDirectAlias (host.page p 0) arena guestAddress maximum))
  | .unregisterDirectAlias p arena guestAddress =>
    left (onPage p (CanonicalPages.unregisterDirectAlias arena guestAddress))
  | .beginReadback p => left (onPage p (CanonicalPages.beginReadback (host.page p 0)))
  | .finishReadback p epoch nextGeneration detached writeback =>
    left (onPage p (CanonicalPages.finishReadback (host.page p) epoch nextGeneration detached
      writeback))
  | .attachResidentDeviceOwner p served owner =>
    left (onPage p (CanonicalPages.attachResidentDeviceOwner (host.page p 0) served owner))
  | .observeCpuPages ps => left (armCpuPageStates host ps)
  | .protectedRead ps observed => left (CanonicalPages.protectedRead host ps observed)
  | .tryWriteHostRegions executable writes =>
    left (CanonicalPages.tryWriteHostRegions host executable writes)
  | .commit ordered exclusive executable pending ps =>
    left (commitInner host ordered exclusive executable pending ps)
  | .prepareDeviceInputs served writes cached ps =>
    left (CanonicalPages.prepareDeviceInputs host served writes cached ps)
  | .publishDevicePages served cached executable exclusive owner ps =>
    left (CanonicalPages.publishDevicePages host served cached executable exclusive owner ps)
  | .invalidateDevicePages ps => left (CanonicalPages.invalidateDevicePages host ps)

/-- The pages a call works on. -/
def Command.pages : Command → List ℕ
  | .cpuAccessWrite writes | .writeAllocation writes | .tryWriteHostRegions _ writes =>
    writtenPages writes
  | .observeCpuPages ps | .protectedRead ps _ | .commit _ _ _ _ ps
  | .prepareDeviceInputs _ _ _ ps | .publishDevicePages _ _ _ _ _ ps
  | .invalidateDevicePages ps => ps
  | .nativeStore p _ _ _ _ | .prepareWrite p | .prepareCpuWrite p | .writeHostScalar p _ _ _
  | .writePreflighted p _ _ _ _ | .writeFragmentPreflighted p _ _ _
  | .tryAtomicCompareExchange p _ _ _ | .enableExclusiveAccess p _ | .exclusiveLoad p _ _ _
  | .tryExclusiveStore p _ _ _ _ | .registerDirectAlias p _ _ _ | .unregisterDirectAlias p _ _
  | .beginReadback p | .finishReadback p _ _ _ _ | .attachResidentDeviceOwner p _ _ => [p]

/-- The calls with the answers of the host, one after another. -/
def machine : Machine Pages (Host × Command) Unit where
  step pages c := ((), c.2.run c.1 pages)

def start (bytes : ℕ → List UInt8) (generation : ℕ → ℕ) : Pages := fun p =>
  created (bytes p) (generation p)

end Nixe.CanonicalPages
