/-
**A canonical page.**

The RAM of the guest consists of canonical pages.  Behind the mutex of a page stand the visibility
of its bytes, the armed observer of CPU writes and the direct aliases: host mappings through which
guest code reads and writes natively, and whose protection decides what faults into the tracking
code.  This module models every method under the mutex of one page that changes its state, its
counters, its bytes, its reservation table or the protection of its aliases.

Nothing but a native store touches the page without the mutex, so the methods are atomic here.  What
a method learns from elsewhere — the answers of the host to protection requests, the comparison of
owner records, the coordinator, whether the page holds code — are its arguments.

Main definitions:

* `CanonicalDirectAlias`, `ReservationPage`, `CanonicalPageState` — the state of a page;
* `publishVisibility`, `publishCpuDirty`, `prepareCpuWriteLocked` — visibility and dirty tracking;
* `exclusiveLoad`, `tryExclusiveStore`, `tryAtomicCompareExchange`, `cpuAccessWrite`, … — accesses;
* `beginReadback`, `finishReadback` — the two critical sections of a readback.
-/
import Nixe.Call
import Nixe.PageCalls

set_option autoImplicit false

namespace Nixe.CanonicalPages

open Memory Call

/-! ### The state of a page -/

inductive DirectProtection
  | none
  | read
  | readWrite
  deriving DecidableEq, Repr

/-- `CanonicalDirectAlias`, with the protection the host has in force for it.  The mapping layer
registers an address of an arena at one page at a time. -/
structure CanonicalDirectAlias where
  arena : ℕ
  guestAddress : ℕ
  maximumProtection : DirectProtection
  protection : DirectProtection
  deriving DecidableEq, Repr

def reservationGranule : ℕ := 64

def directPageSize : ℕ := 4096

/-- `ReservationPage`: one version for each granule.  A version that cannot be advanced stops the
program, so the versions are not bounded here. -/
structure ReservationPage where
  identity : ℕ
  words : List ℕ
  deriving DecidableEq, Repr

def ReservationPage.new (identity : ℕ) : ReservationPage where
  identity := identity
  words := List.replicate (directPageSize / reservationGranule) 2

variable (host : Bool) (table : ReservationPage)

/-- The version of the granule of an offset. -/
def ReservationPage.version (offset : ℕ) : ℕ :=
  table.words.getD (offset / reservationGranule) 0

/-- The granules `first ≤ i < last` are locked and released as written. -/
def ReservationPage.written (first last : ℕ) : ReservationPage :=
  { table with words := table.words.mapIdx fun i version =>
      if first ≤ i ∧ i < last then version + 2 else version }

def ReservationPage.invalidate : ReservationPage :=
  { table with words := table.words.map (· + 2) }

/-- `CanonicalPageState`, the counters and bytes of the page, and its reservation table if there is
one.  `stores` is history: the stores that took effect, oldest first. -/
structure CanonicalPageState where
  visibility : PageVisibility
  visibilityEpoch : ℕ
  cpuDirtyObserverArmed : Bool
  cpuDirtyEpoch : ℕ
  contentGeneration : ℕ
  directAliases : List CanonicalDirectAlias
  bytes : List UInt8
  reservations : Option ReservationPage
  stores : List (ℕ × List UInt8)
  deriving DecidableEq, Repr

/-- A method on the state of one page. -/
abbrev PageCall (ε α : Type) := Call CanonicalPageState ε α

/-- The protection of every alias is what `protection` makes of its maximum. -/
def CanonicalPageState.protect (page : CanonicalPageState)
    (protection : DirectProtection → DirectProtection) : CanonicalPageState :=
  { page with directAliases := page.directAliases.map fun a =>
      { a with protection := protection a.maximumProtection } }

/-- The protection that goes with a page the CPU sees or not, and may write or not. -/
def allowed (cpuVisible writeEnabled : Bool) (maximum : DirectProtection) : DirectProtection :=
  match cpuVisible, maximum with
  | false, _ => .none
  | true, .readWrite => if writeEnabled then .readWrite else .read
  | true, protection => protection

/-! ### Bytes -/

/-- `atomic_cpu_span`; `wide` says whether the host has 16-byte atomics. -/
def atomicCpuSpan (wide : Bool) (offset size : ℕ) : Bool :=
  (size == 1 || size == 2 || size == 4 || size == 8 || size == 16 && wide) && offset % size == 0

def hostWordWidth (offset remaining : ℕ) : ℕ :=
  ([8, 4, 2, 1].find? fun size => size ≤ remaining ∧ offset % size = 0).getD 1

/-- `copy_bytes` and `write_cpu_bytes`: the monitors of all granules that are touched are held while
the bytes are stored, and released as written. -/
def CanonicalPageState.copyBytes (page : CanonicalPageState) (offset : ℕ) (bytes : List UInt8) :
    CanonicalPageState :=
  if bytes.isEmpty then page
  else { page with
    bytes := overwrite page.bytes offset bytes
    reservations := page.reservations.map fun table =>
      table.written (offset / reservationGranule)
        ((offset + bytes.length + (reservationGranule - 1)) / reservationGranule)
    stores := page.stores ++ [(offset, bytes)] }

/-- `store_ordered_bytes`, with at most `fuel` words. -/
def CanonicalPageState.storeWords (page : CanonicalPageState) :
    ℕ → ℕ → List UInt8 → CanonicalPageState
  | 0, _, _ => page
  | fuel + 1, offset, bytes =>
    if bytes.isEmpty then page
    else
      (page.copyBytes offset (bytes.take (hostWordWidth offset bytes.length))).storeWords fuel
        (offset + hostWordWidth offset bytes.length)
        (bytes.drop (hostWordWidth offset bytes.length))

/-- `store_ordered_bytes`; a word is at least a byte. -/
def CanonicalPageState.storeOrderedBytes (page : CanonicalPageState) (offset : ℕ)
    (bytes : List UInt8) : CanonicalPageState :=
  page.storeWords bytes.length offset bytes

/-- The bytes of a span. -/
def CanonicalPageState.slice (page : CanonicalPageState) (offset size : ℕ) : List UInt8 :=
  (page.bytes.drop offset).take size

def checkedEnd (offset size : ℕ) : PageCall CanonicalPageError Unit := do
  let page ← read
  failIf (page.bytes.length < offset + size) .invalidRange

/-! ### Visibility -/

/-- `publish_direct_aliases`: the host applies the protections or refuses; a refusal poisons the
arena, which closes all its aliases for good, and is not followed up here. -/
def publishDirectAliases (protection : DirectProtection → DirectProtection) :
    PageCall VisibilityError Unit :=
  if host then update (·.protect protection) else fail .hostMemory

def publishDirectAliasProtectionFor (cpuVisible cpuWritable : Bool) :
    PageCall VisibilityError Unit := do
  let page ← read
  publishDirectAliases host
    (allowed cpuVisible (cpuVisible && cpuWritable && !page.cpuDirtyObserverArmed))

def publishDirectAliasProtection : PageCall VisibilityError Unit := do
  let page ← read
  publishDirectAliasProtectionFor host page.visibility.cpuVisible (page.visibility == .cpuNewer)

/-- The reservations of a page that leaves the CPU. -/
def CanonicalPageState.leaving (page : CanonicalPageState) (visibility : PageVisibility) :
    CanonicalPageState :=
  if visibility.cpuVisible then page
  else { page with reservations := page.reservations.map ReservationPage.invalidate }

def setVisibility (visibility : PageVisibility) : PageCall VisibilityError Unit := do
  update (·.leaving visibility)
  let page ← read
  match checkedAdd page.visibilityEpoch 1 with
  | none => do
      update fun page => { page with visibility := .invalid }
      fail .visibilityEpochExhausted
  | some nextEpoch =>
    update fun page =>
      { page with visibility := visibility, visibilityEpoch := nextEpoch }

/-- `publish_visibility`: the aliases first, unless they are revoked and stay so. -/
def publishVisibility (visibility : PageVisibility) : PageCall VisibilityError Unit := do
  let page ← read
  if page.visibility.gpuOwned && !visibility.cpuVisible then setVisibility visibility
  else
    handle (publishDirectAliasProtectionFor host visibility.cpuVisible
        (visibility == .cpuNewer)) (fun e => do setVisibility .invalid; fail e)
      fun _ => setVisibility visibility

/-- The page is given up without an epoch of its own. -/
def giveUp {α ε : Type} (e : ε) : PageCall ε α := do
  update fun page => { page with visibility := .invalid }
  fail e

def revokeDirectAccess : PageCall VisibilityError Unit := do
  let page ← read
  handle (if page.visibility.gpuOwned then pure () else publishDirectAliases host fun _ => .none)
    giveUp fun _ =>
      match checkedAdd page.visibilityEpoch 1 with
      | none => giveUp .visibilityEpochExhausted
      | some nextEpoch => update fun page => { page with visibilityEpoch := nextEpoch }

/-! ### CPU writes -/

def advanceCpuDirtyEpoch : PageCall CanonicalPageError Unit := do
  let page ← read
  if page.cpuDirtyObserverArmed then
    match checkedAdd page.cpuDirtyEpoch 1 with
    | none => do
        mapErr CanonicalPageError.visibility (revokeDirectAccess host)
        giveUp .cpuDirtyEpochExhausted
    | some next => update fun page => { page with cpuDirtyEpoch := next }
  else pure ()

def publishCpuDirty (host : ℕ → Bool) : PageCall CanonicalPageError Unit := do
  let page ← read
  if page.cpuDirtyObserverArmed then do
    advanceCpuDirtyEpoch (host 0)
    update fun page => { page with cpuDirtyObserverArmed := false }
    mapErr CanonicalPageError.visibility (publishDirectAliasProtection (host 1))
  else pure ()

def requireCpuAuthority : PageCall VisibilityError Unit := do
  let page ← read
  match page.visibility with
  | .clean | .cpuNewer => pure ()
  | .gpuNewer _ | .conflicting => do
      publishVisibility host .conflicting
      fail .conflictingAccess
  | .invalid => fail .invalidState

/-- A clean page becomes the CPU's. -/
def takeFromClean : PageCall VisibilityError Unit := do
  let page ← read
  if page.visibility = .clean then publishVisibility host .cpuNewer else pure ()

def prepareCpuWriteLocked (host : ℕ → Bool) : PageCall CanonicalPageError Unit := do
  mapErr CanonicalPageError.visibility (requireCpuAuthority (host 0))
  mapErr CanonicalPageError.visibility (takeFromClean (host 0))
  publishCpuDirty fun n => host (n + 1)

def cpuVisibleLocked : PageCall CanonicalPageError Bool := do
  let page ← read
  match page.visibility with
  | .clean | .cpuNewer => pure true
  | .gpuNewer _ => pure false
  | .conflicting => fail (.visibility .conflictingAccess)
  | .invalid => fail (.visibility .invalidState)

/-- The body runs under the mutex if the CPU sees the page; otherwise the page is read back first,
without the mutex, and the access tried again. -/
def whenVisible {α : Type} (body : PageCall CanonicalPageError α) :
    PageCall CanonicalPageError (Option α) := do
  let visible ← cpuVisibleLocked
  if visible then do
    let result ← body
    pure (some result)
  else pure none

def writePrepared (offset : ℕ) (bytes : List UInt8) : PageCall CanonicalPageError Unit := do
  checkedEnd offset bytes.length
  update (·.copyBytes offset bytes)

/-- `CanonicalCpuAccess::write_host_scalar`: whether the scalar was written; `executable` says
whether the page holds code. -/
def writeHostScalar (host : ℕ → Bool) (wide executable : Bool) (offset : ℕ)
    (bytes : List UInt8) : PageCall CanonicalPageError Bool := do
  checkedEnd offset bytes.length
  if !atomicCpuSpan wide offset bytes.length || executable then pure false
  else do
    let page ← read
    let next ← okOr (checkedAdd page.contentGeneration 1) (.visibility .generationExhausted)
    mapErr CanonicalPageError.visibility (takeFromClean (host 0))
    advanceCpuDirtyEpoch (host 1)
    writePrepared offset bytes
    update fun page => { page with contentGeneration := next }
    pure true

def writePreflighted (host : ℕ → Bool) (offset : ℕ) (bytes : List UInt8) (expected next : ℕ) :
    PageCall CanonicalPageError Unit := do
  checkedEnd offset bytes.length
  failIf (checkedAdd expected 1 ≠ some next) .invalidGenerationTransition
  prepareCpuWriteLocked host
  let page ← read
  failIf (page.contentGeneration ≠ expected) (.staleGeneration expected page.contentGeneration)
  update fun page => { page.copyBytes offset bytes with contentGeneration := next }

def writeFragmentPreflighted (host : ℕ → Bool) (offset : ℕ) (bytes : List UInt8)
    (generation : ℕ) : PageCall CanonicalPageError Unit := do
  checkedEnd offset bytes.length
  prepareCpuWriteLocked host
  let page ← read
  failIf (page.contentGeneration ≠ generation)
    (.staleGeneration generation page.contentGeneration)
  update (·.copyBytes offset bytes)

/-- `try_atomic_compare_exchange`: the value found, and whether it was replaced. -/
def tryAtomicCompareExchange (host : ℕ → Bool) (wide : Bool) (offset : ℕ)
    (expected replacement : List UInt8) :
    PageCall CanonicalPageError (Option (List UInt8 × Bool)) := do
  checkedEnd offset expected.length
  whenVisible do
    failIf (!atomicCpuSpan wide offset expected.length) (.visibility .hostMemory)
    let page ← read
    let observed := page.slice offset expected.length
    if observed = expected then do
      if page.cpuDirtyObserverArmed || page.visibility != .cpuNewer then prepareCpuWriteLocked host
      else pure ()
      update (·.copyBytes offset replacement)
      pure (observed, true)
    else pure (observed, false)

/-- A store of guest code through an alias: it takes effect if the alias is writable, and faults
otherwise. -/
def nativeStore (arena guestAddress offset : ℕ) (bytes : List UInt8) :
    PageCall CanonicalPageError Unit := do
  let page ← read
  if page.directAliases.any (fun a => a.arena == arena && a.guestAddress == guestAddress &&
      a.protection == .readWrite) && offset + bytes.length ≤ page.bytes.length then
    update (·.copyBytes offset bytes)
  else pure ()

/-! ### Exclusive accesses -/

/-- `enable_exclusive_access`; `identity` is the next identity of a reservation table. -/
def enableExclusiveAccess (identity : ℕ) : PageCall CanonicalPageError Unit := do
  let page ← read
  failIf (directPageSize < page.bytes.length) .invalidSize
  if page.reservations.isSome then pure ()
  else update fun page => { page with reservations := some (.new identity) }

/-- `exclusive_load`: the bytes and the version of their granule. -/
def exclusiveLoad (wide : Bool) (identity offset size : ℕ) :
    PageCall CanonicalPageError (Option (List UInt8 × ℕ)) := do
  failIf (!atomicCpuSpan wide offset size) .invalidSize
  checkedEnd offset size
  enableExclusiveAccess identity
  whenVisible do
    let page ← read
    let table ← expect page.reservations "called `Option::unwrap()` on a `None` value"
    pure (page.slice offset size, table.version offset)

/-- `try_exclusive_store`.  It holds the monitor of the granule; if the host refuses to open a clean
page, the program waits for that monitor in `set_visibility` and does not return, where the error is
returned here. -/
def tryExclusiveStore (host : ℕ → Bool) (wide : Bool) (offset : ℕ) (identity : Option ℕ)
    (version : ℕ) (replacement : List UInt8) : PageCall CanonicalPageError (Option Bool) := do
  checkedEnd offset replacement.length
  failIf (!atomicCpuSpan wide offset replacement.length) .invalidSize
  let page ← read
  match page.reservations with
  | none => pure (some false)
  | some table =>
    if identity.any (· ≠ table.identity) then pure (some false)
    else if table.version offset ≠ version then pure (some false)
    else
      whenVisible do
        prepareCpuWriteLocked host
        update (·.copyBytes offset replacement)
        pure true

/-! ### Aliases -/

/-- The aliases of a page except the one at an address. -/
def CanonicalPageState.otherAliases (page : CanonicalPageState) (arena guestAddress : ℕ) :
    List CanonicalDirectAlias :=
  page.directAliases.filter fun a => (a.arena, a.guestAddress) ≠ (arena, guestAddress)

/-- `register_direct_alias`.  No guest code runs in the arena until the alias is published. -/
def registerDirectAlias (arena guestAddress : ℕ)
    (maximum : DirectProtection) : PageCall VisibilityError Unit := do
  update fun page => { page with
    directAliases :=
      page.otherAliases arena guestAddress ++ [⟨arena, guestAddress, maximum, .none⟩] }
  publishDirectAliasProtection host

def unregisterDirectAlias (arena guestAddress : ℕ) : PageCall VisibilityError Unit :=
  update fun page => { page with directAliases := page.otherAliases arena guestAddress }

/-! ### Readback and device ownership -/

/-- The first critical section of `ensure_cpu_visible_with`. -/
def beginReadback : PageCall VisibilityError Unit := do
  let page ← read
  match page.visibility with
  | .clean | .cpuNewer => pure ()
  | .conflicting => fail .conflictingAccess
  | .invalid => fail .invalidState
  | .gpuNewer _ =>
    match checkedAdd page.contentGeneration 1 with
    | none => do
        publishVisibility host .invalid
        fail .generationExhausted
    | some _ => pure ()

/-- The second critical section of `ensure_cpu_visible_with`; `epoch` and `nextGeneration` were
taken in the first one, `detached` is what `detach_at` says and `writeback` what the coordinator
returned, `none` for an error. -/
def finishReadback (host : ℕ → Bool) (epoch nextGeneration : ℕ) (detached : Bool)
    (writeback : Option (List UInt8)) : PageCall VisibilityError Unit := do
  let page ← read
  if page.visibilityEpoch ≠ epoch then
    match page.visibility with
    | .conflicting => fail .conflictingAccess
    | .invalid => fail .invalidState
    | _ => pure ()
  else if !detached then pure ()
  else
    match writeback with
    | none => do
        publishVisibility (host 0) .invalid
        fail .coordinator
    | some bytes =>
      if bytes.length ≠ page.bytes.length then do
        publishVisibility (host 0) .invalid
        fail (.incorrectWritebackSize page.bytes.length bytes.length)
      else do
        update (·.copyBytes 0 bytes)
        update fun page => { page with contentGeneration := nextGeneration }
        mapErr dirtyError (publishCpuDirty host)
        publishVisibility (host 2) .clean

/-- `attach_resident_device_owner`; `served` says whether the owner record of the page serves the
declaration. -/
def attachResidentDeviceOwner (served : Bool) (owner : ℕ) : PageCall VisibilityError Bool := do
  let page ← read
  if page.visibility.gpuOwned && served then do
    publishVisibility host (.gpuNewer owner)
    pure true
  else pure false

/-- A page as it is created. -/
def created (bytes : List UInt8) (generation : ℕ) : CanonicalPageState where
  visibility := .cpuNewer
  visibilityEpoch := 0
  cpuDirtyObserverArmed := false
  cpuDirtyEpoch := 0
  contentGeneration := generation
  directAliases := []
  bytes := bytes
  reservations := none
  stores := []

end Nixe.CanonicalPages
