/-
**Who owns the bytes of a page.**

A canonical page of guest memory is shared by the CPU and by devices.  Its visibility says whose
bytes are newest, and every call is a transition of it: a device publishes a write, the CPU reads
the bytes back, the CPU writes, a page is invalidated.  The calls run on many threads.  Each page
has a mutex over its state; what is read without it (a hint of the visibility, the point of an owner
record, the epoch of a summary) is atomic.

Three shortcuts avoid walking the pages of a range.  A range layout keeps the owner record of its
last publication, whose point is advanced for the whole range at once.  A readback runs its device
callback without any lock and checks three tokens afterwards.  A range remembers the summary epoch
at which all of its pages were last seen clean.

The model keeps the code's atomic operations: `Op` lists them, `exec` says what each one does, and
the calls, in `Nixe.PageCalls`, are programs over them.  An operation on what a mutex protects can
only be performed by the thread that holds it.  Host and driver failures and the bytes a device
returns are answers of the environment, an arbitrary stream.

Main definitions:

* `Shared`, `Op`, `exec` — the shared memory and its atomic operations;
* `setVisibility`, `publishVisibility` — a visibility transition of a locked page;
* `advanceCpuDirtyEpoch`, `prepareCpuWriteLocked` — what precedes a CPU write.
-/
import Nixe.Checked
import Nixe.Interleaving

set_option autoImplicit false

namespace Nixe.Memory

open Interleaving

/-! ### Declarations and errors -/

inductive DeviceAccessKind
  | read
  | write
  | readWrite
  deriving DecidableEq, Repr

/-- `kind.writes()`. -/
def DeviceAccessKind.writes : DeviceAccessKind → Bool
  | .read => false
  | .write | .readWrite => true

/-- `DeviceAccessDeclaration`: a write says when the CPU may see it, a read does not, and
the CPU sees it no earlier than the device. -/
structure DeviceAccessDeclaration where
  device : ℕ
  kind : DeviceAccessKind
  deviceVisibleAt : ℕ
  cpuVisibleAt : Option ℕ
  writes_iff : kind.writes = cpuVisibleAt.isSome
  ordered : ∀ point ∈ cpuVisibleAt, deviceVisibleAt ≤ point

def DeviceAccessDeclaration.read (device visibleAt : ℕ) : DeviceAccessDeclaration :=
  ⟨device, .read, visibleAt, none, rfl, by simp⟩

/-- `DeviceAccessDeclaration::write` at a single point. -/
def DeviceAccessDeclaration.write (device point : ℕ) : DeviceAccessDeclaration :=
  ⟨device, .write, point, some point, rfl, by simp⟩

inductive VisibilityError
  | incompatibleDeclarations
  | declarationDoesNotWrite
  | conflictingAccess
  | invalidState
  | coordinator
  | resourceExhausted
  | incorrectWritebackSize (expected observed : ℕ)
  | generationExhausted
  | hostMemory
  | visibilityEpochExhausted
  | cpuDirtyEpochExhausted
  deriving DecidableEq, Repr

/-- `CanonicalPageError`, as far as the calls below return it. -/
inductive CanonicalPageError
  | invalidRange
  | invalidSize
  | hostMemory
  | staleGeneration (expected observed : ℕ)
  | invalidGenerationTransition
  | cpuDirtyEpochExhausted
  | visibility (error : VisibilityError)
  deriving DecidableEq, Repr

/-- `CanonicalWriteBatchError`, as far as the calls below return it. -/
inductive CanonicalWriteBatchError
  | read (error : CanonicalPageError)
  | page (error : CanonicalPageError)
  | generationExhausted
  | visibilityEpochExhausted
  | concurrentMutation
  deriving DecidableEq, Repr

/-! ### The shared memory -/

/-- `PageVisibility`; an owner record is named by its number. -/
inductive PageVisibility
  | clean
  | cpuNewer
  | gpuNewer (owner : ℕ)
  | conflicting
  | invalid
  deriving DecidableEq, Repr

/-- `matches!(visibility, Clean | CpuNewer)`. -/
def PageVisibility.cpuVisible : PageVisibility → Bool
  | .clean | .cpuNewer => true
  | _ => false

/-- `matches!(visibility, GpuNewer { .. })`. -/
def PageVisibility.gpuOwned : PageVisibility → Bool
  | .gpuNewer _ => true
  | _ => false

inductive CpuVisibilityHint
  | unavailable
  | clean
  | cpuNewer
  deriving DecidableEq, Repr

def CpuVisibilityHint.forState : PageVisibility → CpuVisibilityHint
  | .clean => .clean
  | .cpuNewer => .cpuNewer
  | _ => .unavailable

/-- A page: its mutex, the state under it, and the atomics beside it. -/
structure Page where
  lock : Option ℕ
  visibility : PageVisibility
  visibilityEpoch : ℕ
  armed : Bool
  summaries : List ℕ
  hint : CpuVisibilityHint
  generation : ℕ
  dirtyEpoch : ℕ
  bytes : List UInt8
  deriving DecidableEq, Repr

structure RangeDeviceOwner where
  device : ℕ
  point : ℕ
  fractured : Bool
  deriving DecidableEq, Repr

/-- The part of a range layout that changes: the owner record behind its mutex, the summary
behind its once-cell, and the cached clean-read epoch. -/
structure Layout where
  lock : Option ℕ
  owner : Option ℕ
  initialising : Option ℕ
  summary : Option ℕ
  cleanReadEpoch : ℕ
  deriving DecidableEq, Repr

/-- What the host, the driver and the devices answer. -/
structure Answer where
  fails : Bool
  writeback : Option (List UInt8)

/-- The shared memory.  `counters` are the visibility summaries; `interner` names the
summary of each set of pages. -/
structure Shared where
  pages : ℕ → Page
  owners : List RangeDeviceOwner
  layouts : ℕ → Layout
  counters : List ℕ
  internerLock : Option ℕ
  interner : List (List ℕ × ℕ)
  environment : ℕ → Answer

/-- What does not change: the pages of each range layout and the size of each page. -/
structure Topology where
  pages : ℕ → List ℕ
  size : ℕ → ℕ

/-! ### Atomic operations -/

/-- Operations on the state of a page whose mutex the thread holds. -/
inductive PageAct
  | read
  | setVisibility (visibility : PageVisibility) (epoch : ℕ)
  | setArmed (armed : Bool)
  | subscribe (summary : ℕ)
  | storeHint (hint : CpuVisibilityHint)
  | setGeneration (generation : ℕ)
  | setDirtyEpoch (epoch : ℕ)
  | copyBytes (offset : ℕ) (bytes : List UInt8)
  | storeReadback (owner point : ℕ) (bytes : List UInt8)

/-- Operations on the owner record of a layout whose owner mutex the thread holds. -/
inductive LayoutAct
  | point
  | fractured
  | advance (declaration : DeviceAccessDeclaration)
  | setOwner (owner : ℕ)

/-- Places in the calls that the statements refer to; they change nothing. -/
inductive Mark
  | enter (r : ℕ)
  | cleanReadHit (r : ℕ)
  | request (p owner point : ℕ)
  | readbackReturns (p owner point : ℕ) (result : Except VisibilityError Unit)
  | ownerHit (r : ℕ) (declaration : DeviceAccessDeclaration)
  | waits (call p rounds : ℕ)
  | ends (call p rounds : ℕ) (result : Except (Option CanonicalPageError) Unit)
  | authority (p : ℕ)
  | prepares (device point : ℕ)
  | publishes (device point : ℕ)
  | settles

inductive Op
  | lockPage (p : ℕ)
  | unlockPage (p : ℕ)
  | page (p : ℕ) (act : PageAct)
  | loadHint (p : ℕ)
  | bump (p summary : ℕ)
  | newOwner (device point : ℕ)
  | ownerPoint (owner : ℕ)
  | detach (owner : ℕ)
  | detachAt (owner expected : ℕ)
  | lockLayout (r : ℕ)
  | unlockLayout (r : ℕ)
  | layout (r : ℕ) (act : LayoutAct)
  | beginSummary (r : ℕ)
  | finishSummary (r summary : ℕ)
  | loadCleanEpoch (r : ℕ)
  | storeCleanEpoch (r epoch : ℕ)
  | lockInterner
  | unlockInterner
  | findSummary (coverage : List ℕ)
  | newSummary
  | insertSummary (coverage : List ℕ) (summary : ℕ)
  | loadSummary (summary : ℕ)
  | hostFails
  | writeback
  | mark (m : Mark)

/-- The answer of an operation on a page. -/
@[reducible] def PageAct.Resp : PageAct → Type
  | .read => Page
  | _ => Unit

/-- The answer of an operation on a layout. -/
@[reducible] def LayoutAct.Resp : LayoutAct → Type
  | .point => Option (ℕ × ℕ)
  | .fractured | .advance _ => Bool
  | .setOwner _ => Unit

@[reducible] def Resp : Op → Type
  | .page _ act => act.Resp
  | .layout _ act => act.Resp
  | .loadHint _ => CpuVisibilityHint
  | .newOwner _ _ | .newSummary | .loadCleanEpoch _ | .loadSummary _ => ℕ
  | .ownerPoint _ => ℕ × ℕ
  | .detachAt _ _ | .hostFails => Bool
  | .beginSummary _ | .findSummary _ => Option ℕ
  | .writeback => Option (List UInt8)
  | _ => Unit

/-- Overwrite bytes of a page from `offset` on. -/
def overwrite (old : List UInt8) (offset : ℕ) (bytes : List UInt8) : List UInt8 :=
  old.take offset ++ bytes ++ old.drop (offset + bytes.length)

/-- What an operation does to a locked page. -/
def PageAct.run (page : Page) : (act : PageAct) → act.Resp × Page
  | .read => (page, page)
  | .setVisibility visibility epoch =>
    ((), { page with visibility := visibility, visibilityEpoch := epoch })
  | .setArmed armed => ((), { page with armed := armed })
  | .subscribe summary => ((), { page with summaries := page.summaries ++ [summary] })
  | .storeHint hint => ((), { page with hint := hint })
  | .setGeneration generation => ((), { page with generation := generation })
  | .setDirtyEpoch epoch => ((), { page with dirtyEpoch := epoch })
  | .copyBytes offset bytes => ((), { page with bytes := overwrite page.bytes offset bytes })
  | .storeReadback _ _ bytes => ((), { page with bytes := overwrite page.bytes 0 bytes })

/-- `RangeDeviceOwner::advance`: an equal point does not advance. -/
def RangeDeviceOwner.advance (owner : RangeDeviceOwner) (declaration : DeviceAccessDeclaration) :
    Option RangeDeviceOwner :=
  match declaration.cpuVisibleAt with
  | none => none
  | some point =>
    if owner.fractured ∨ owner.device ≠ declaration.device ∨ point ≤ owner.point then none
    else some { owner with point := point }

/-- `value.saturating_add(1)`. -/
def saturatingSucc (n : ℕ) : ℕ := if n < u64Max then n + 1 else n

/-- `Mutex::lock`: the thread waits while another one holds it. -/
def acquire (lock : Option ℕ) (i : ℕ) : Option (Option ℕ) :=
  match lock with
  | none => some (some i)
  | some _ => none

namespace Shared

variable (s : Shared)

def setPage (p : ℕ) (page : Page) : Shared :=
  { s with pages := Function.update s.pages p page }

def setLayout (r : ℕ) (layout : Layout) : Shared :=
  { s with layouts := Function.update s.layouts r layout }

def setOwner (o : ℕ) (owner : RangeDeviceOwner) : Shared :=
  { s with owners := s.owners.set o owner }

/-- The environment gives its next answer. -/
def answered : Shared := { s with environment := fun n => s.environment (n + 1) }

def owner? (o : ℕ) : Option RangeDeviceOwner := s.owners[o]?

end Shared

/-- What an operation does to the owner record of a locked layout.  The record's own mutex is
held from the check of `advance` to its store, and the mutex of the layout all along. -/
def LayoutAct.run (s : Shared) (r : ℕ) : (act : LayoutAct) → Option (act.Resp × Shared)
  | .setOwner o => some ((), s.setLayout r { s.layouts r with owner := some o })
  | .point =>
    match (s.layouts r).owner with
    | none => some (none, s)
    | some o => (s.owner? o).map fun owner => (some (owner.device, owner.point), s)
  | .fractured =>
    match (s.layouts r).owner with
    | none => some (true, s)
    | some o => (s.owner? o).map fun owner => (owner.fractured, s)
  | .advance declaration =>
    match (s.layouts r).owner with
    | none => some (false, s)
    | some o => (s.owner? o).map fun owner =>
      match owner.advance declaration with
      | none => (false, s)
      | some advanced => (true, s.setOwner o advanced)

/-- The atomic operations of thread `i`. -/
def exec (i : ℕ) (op : Op) (s : Shared) : Option (Resp op × Shared) :=
  match op with
  | .lockPage p =>
    (acquire (s.pages p).lock i).map fun lock =>
      ((), s.setPage p { s.pages p with lock := lock })
  | .unlockPage p =>
    if (s.pages p).lock = some i then some ((), s.setPage p { s.pages p with lock := none })
    else none
  | .page p act =>
    if (s.pages p).lock = some i then
      some ((act.run (s.pages p)).1, s.setPage p (act.run (s.pages p)).2)
    else none
  | .loadHint p => some ((s.pages p).hint, s)
  | .bump p summary =>
    if (s.pages p).lock = some i then
      some ((), { s with counters := s.counters.modify summary saturatingSucc })
    else none
  | .newOwner device point =>
    some (s.owners.length, { s with owners := s.owners ++ [⟨device, point, false⟩] })
  | .ownerPoint o => (s.owner? o).map fun owner => ((owner.device, owner.point), s)
  | .detach o => (s.owner? o).map fun owner => ((), s.setOwner o { owner with fractured := true })
  | .detachAt o expected => (s.owner? o).map fun owner =>
    if owner.point = expected then (true, s.setOwner o { owner with fractured := true })
    else (false, s)
  | .lockLayout r =>
    (acquire (s.layouts r).lock i).map fun lock =>
      ((), s.setLayout r { s.layouts r with lock := lock })
  | .unlockLayout r =>
    if (s.layouts r).lock = some i then
      some ((), s.setLayout r { s.layouts r with lock := none })
    else none
  | .layout r act => if (s.layouts r).lock = some i then act.run s r else none
  | .beginSummary r =>
    match (s.layouts r).summary with
    | some summary => some (some summary, s)
    | none =>
      (acquire (s.layouts r).initialising i).map fun initialising =>
        (none, s.setLayout r { s.layouts r with initialising := initialising })
  | .finishSummary r summary =>
    if (s.layouts r).initialising = some i then
      some ((), s.setLayout r
        { s.layouts r with initialising := none, summary := some summary })
    else none
  | .loadCleanEpoch r => some ((s.layouts r).cleanReadEpoch, s)
  | .storeCleanEpoch r epoch =>
    some ((), s.setLayout r { s.layouts r with cleanReadEpoch := epoch })
  | .lockInterner =>
    (acquire s.internerLock i).map fun lock => ((), { s with internerLock := lock })
  | .unlockInterner =>
    if s.internerLock = some i then some ((), { s with internerLock := none }) else none
  | .findSummary coverage =>
    if s.internerLock = some i then some (s.interner.lookup coverage, s) else none
  | .newSummary => some (s.counters.length, { s with counters := s.counters ++ [0] })
  | .insertSummary coverage summary =>
    if s.internerLock = some i then
      some ((), { s with interner := (coverage, summary) :: s.interner })
    else none
  | .loadSummary summary => s.counters[summary]?.map fun n => (n, s)
  | .hostFails => some ((s.environment 0).fails, s.answered)
  | .writeback => some ((s.environment 0).writeback, s.answered)
  | .mark _ => some ((), s)

/-! ### Transitions of a locked page -/

/-- The programs of a thread. -/
abbrev Thread (α : Type) := Prog Resp α

def act (op : Op) : Thread (Resp op) := perform op

variable (p : ℕ)

def onPage (change : PageAct) : Thread change.Resp := perform (Op.page p change)

def readPage : Thread Page := perform (Op.page p .read)

/-- A host or driver operation that may fail. -/
def hostFails : Thread Bool := perform Op.hostFails

/-- The device and the point of an owner record. -/
def ownerPoint (o : ℕ) : Thread (ℕ × ℕ) := perform (Op.ownerPoint o)

/-- Report a visibility error as a page error. -/
def asPageError {α : Type} (x : Thread (Except VisibilityError α)) :
    Thread (Except CanonicalPageError α) :=
  x.bind fun result => .done (result.mapError CanonicalPageError.visibility)

/-- Report a page error as a batch error. -/
def asBatchError {α : Type} (x : Thread (Except CanonicalPageError α)) :
    Thread (Except CanonicalWriteBatchError α) :=
  x.bind fun result => .done (result.mapError CanonicalWriteBatchError.page)

/-- Run a program and drop its result. -/
def ignore {α : Type} (x : Thread α) : Thread Unit := x.bind fun _ => .done ()

def notifyVisibilitySummaries : Thread Unit := do
  let page ← readPage p
  forEach (fun summary => act (.bump p summary)) page.summaries

def detachOwner : PageVisibility → Thread Unit
  | .gpuNewer o => act (.detach o)
  | _ => pure ()

/-- The owner record is detached unless the page stays with it. -/
def detachUnlessKept (old new : PageVisibility) : Thread Unit :=
  if old.gpuOwned ∧ old = new then pure () else detachOwner old

def setVisibility (p : ℕ) (visibility : PageVisibility) :
    Thread (Except VisibilityError Unit) := do
  notifyVisibilitySummaries p
  let page ← readPage p
  detachUnlessKept page.visibility visibility
  onPage p (.storeHint .unavailable)
  match checkedAdd page.visibilityEpoch 1 with
  | none => do
      detachOwner page.visibility
      onPage p (.setVisibility .invalid page.visibilityEpoch)
      return .error .visibilityEpochExhausted
  | some nextEpoch => do
      onPage p (.setVisibility visibility nextEpoch)
      onPage p (.storeHint (CpuVisibilityHint.forState visibility))
      return .ok ()

/-- The protection of the host aliases is changed unless they are revoked and stay so; the
host may refuse. -/
def aliasProtectionFails (old new : PageVisibility) : Thread Bool :=
  if old.gpuOwned && !new.cpuVisible then pure false else hostFails

def publishVisibility (visibility : PageVisibility) : Thread (Except VisibilityError Unit) := do
  let page ← readPage p
  let failed ← aliasProtectionFails page.visibility visibility
  if failed then attempt (setVisibility p .invalid) fun _ => return .error .hostMemory
  else setVisibility p visibility

/-- The page is given up: its hint is withdrawn, its owner detached, its observers notified. -/
def giveUp (page : Page) (epoch : ℕ) : Thread Unit := do
  onPage p (.storeHint .unavailable)
  detachOwner page.visibility
  notifyVisibilitySummaries p
  onPage p (.setVisibility .invalid epoch)

/-- `revoke_direct_access`; the next epoch is stored by the caller, under the same lock. -/
def revokeDirectAccess (page : Page) : Thread (Except VisibilityError ℕ) := do
  let failed ← aliasProtectionFails page.visibility .invalid
  if failed then do
    giveUp p page page.visibilityEpoch
    return .error .hostMemory
  else do
    onPage p (.storeHint .unavailable)
    match checkedAdd page.visibilityEpoch 1 with
    | none => do
        giveUp p page page.visibilityEpoch
        return .error .visibilityEpochExhausted
    | some nextEpoch => return .ok nextEpoch

def advanceCpuDirtyEpoch : Thread (Except CanonicalPageError Unit) := do
  let page ← readPage p
  if page.armed then
    match checkedAdd page.dirtyEpoch 1 with
    | none =>
      attempt (asPageError (revokeDirectAccess p page)) fun nextEpoch => do
        giveUp p page nextEpoch
        return .error .cpuDirtyEpochExhausted
    | some next => do
        onPage p (.setDirtyEpoch next)
        return .ok ()
  else return .ok ()

def publishCpuDirty : Thread (Except CanonicalPageError Unit) := do
  let page ← readPage p
  if page.armed then
    attempt (advanceCpuDirtyEpoch p) fun _ => do
      onPage p (.setArmed false)
      let failed ← hostFails
      return if failed then .error (.visibility .hostMemory) else .ok ()
  else return .ok ()

/-- The page is claimed by two parties. -/
def declareConflict : Thread (Except VisibilityError Unit) :=
  attempt (publishVisibility p .conflicting) fun _ => return .error .conflictingAccess

def requireCpuAuthority : Thread (Except VisibilityError Unit) := do
  let page ← readPage p
  match page.visibility with
  | .clean | .cpuNewer => return .ok ()
  | .gpuNewer _ | .conflicting => declareConflict p
  | .invalid => return .error .invalidState

/-- A clean page becomes the CPU's before it is written. -/
def takeFromClean : Thread (Except VisibilityError Unit) := do
  let page ← readPage p
  if page.visibility = .clean then publishVisibility p .cpuNewer else return .ok ()

def prepareCpuWriteLocked : Thread (Except CanonicalPageError Unit) :=
  attempt (asPageError (requireCpuAuthority p)) fun _ =>
  attempt (asPageError (takeFromClean p)) fun _ =>
  publishCpuDirty p

def locked {α : Type} (p : ℕ) (body : Thread α) : Thread α := do
  act (.lockPage p)
  let result ← body
  act (.unlockPage p)
  return result

def lockedAll {α : Type} (ps : List ℕ) (body : Thread α) : Thread α := do
  forEach (fun p => act (.lockPage p)) ps
  let result ← body
  forEach (fun p => act (.unlockPage p)) ps
  return result

end Nixe.Memory
