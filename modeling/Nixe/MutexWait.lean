/-
**The mutex and condition variable calls of the kernel.**

A guest mutex is a word of guest memory: zero, or the handle of its owner, with bit 30 set while
there are waiters.  Uncontended it is taken and released by guest code alone; the four system calls
are for the contended case.  `arbitrate_lock` queues the caller behind the owner named by the word,
`arbitrate_unlock` hands the mutex to the next waiter, `wait_process_wide_key_atomic` releases a
mutex and waits for a condition, and `signal_process_wide_key` moves condition waiters to the mutex
that each of them has to reacquire.

A call that suspends its thread is issued again, with the same registers, when the thread resumes;
until then the thread runs no other code.  Between the calls other threads write guest memory,
mappings and handles change, time passes, priorities change, timers expire, threads are terminated.

Main definitions:

* `Process` — the state;
* `arbitrateLock`, `arbitrateUnlock`, `waitProcessWideKeyAtomic`, `signalProcessWideKey` — the
  calls;
* `machine` — the interleavings of calls, retries, expiries and terminations.
-/

import Nixe.AddressWait
import Mathlib.Data.List.Destutter
import Mathlib.Data.Int.Init

set_option autoImplicit false

namespace Nixe.MutexWait

open Std (TreeMap)
open Call (read update expect failIf)
open PriorityWait (GuestThreadId)
open AddressWait (AddressWaitRegistry AddressWaitCompletion)

inductive DataAccessFaultReason where
  | unmapped
  | readPermissionDenied
  | writePermissionDenied
  | misaligned (requiredAlignment : ℕ)
  | addressOverflow
  | valueSizeMismatch
  | invalidAtomicAccess
  | atomicRegionUnsupported
  | mixedRegions
  | contentGenerationExhausted
  | hostBacking (message : String)
  | device (message : String)
  | injected (message : String)
deriving DecidableEq, Repr

structure DataAccessFault where
  address : ℕ
  reason : DataAccessFaultReason
deriving DecidableEq, Repr

/-- `process_wide_key_fault_is_internal`. -/
def DataAccessFault.isInternal (fault : DataAccessFault) : Bool :=
  match fault.reason with
  | .contentGenerationExhausted | .hostBacking _ => true
  | _ => false

inductive HorizonKernelResult where
  | success
  | invalidAddress
  | invalidHandle
  | invalidState
  | invalidCurrentMemory
  | timedOut
deriving DecidableEq, Repr

inductive HorizonSvcFault where
  | guestMemory (immediate : ℕ) (fault : DataAccessFault)
  | internalRuntime (operation : String)
deriving DecidableEq, Repr

/-- How a call ends when it does not end in a fault: the thread goes on, with a result in its first
register if there is one, or it is suspended and issues the call again. -/
inductive ExceptionDispatchOutcome where
  | resume (result : Option HorizonKernelResult)
  | suspend
deriving DecidableEq, Repr

/-- A call, with the registers it reads. -/
inductive Svc where
  | arbitrateLock (x0 x1 x2 : ℕ)
  | arbitrateUnlock (x0 : ℕ)
  | waitProcessWideKeyAtomic (x0 x1 x2 x3 : ℕ)
  | signalProcessWideKey (x0 x1 : ℕ)
deriving DecidableEq, Repr

inductive Mode where
  | running
  | suspended (svc : Svc)
  | exited
deriving DecidableEq, Repr

/-- Guest memory, as far as word accesses see it. -/
structure Memory where
  word : ℕ → ℕ
  readFault : ℕ → Option DataAccessFault
  writeFault : ℕ → Option DataAccessFault
  exchangeFault : ℕ → Option DataAccessFault

/-- What the calls use of a process and of the dispatcher.

`interference` lists what other cores store into the word of a compare-and-exchange just before it,
one entry for each exchange.  `named` is a history variable: the recorded owner of the address was
taken from a handle that the guest supplied. -/
structure Process where
  waits : AddressWaitRegistry
  memory : Memory
  interference : List ℕ
  handles : ℕ → Option GuestThreadId
  pendingRuntimeRequests : TreeMap GuestThreadId (List ℕ)
  virtualTimeNs : ℕ
  waitDeadlines : TreeMap GuestThreadId ℕ
  modes : GuestThreadId → Mode
  named : ℕ → Bool

abbrev SvcCall (α : Type) : Type := Call Process HorizonSvcFault α

/-! ### Guest memory -/

variable (address : ℕ)

def readProcessWideKeyWord : SvcCall (Except DataAccessFault ℕ) := do
  let memory := (← read).memory
  match memory.readFault address with
  | some fault => return .error fault
  | none => return .ok (memory.word address)

def Memory.store (memory : Memory) (address value : ℕ) : Memory :=
  { memory with word := Function.update memory.word address value }

def writeProcessWideKeyWord (value : ℕ) : SvcCall (Except DataAccessFault Unit) := do
  match (← read).memory.writeFault address with
  | some fault => return .error fault
  | none =>
    update fun s => { s with memory := s.memory.store address value }
    return .ok ()

/-- What another core stores before an exchange at the address. -/
def interfere : SvcCall Unit := update fun s =>
  match s.interference with
  | [] => s
  | value :: rest => { s with memory := s.memory.store address value, interference := rest }

/-- The word is replaced if it is the expected one; the result is the word that was there. -/
def compareExchange (expected replacement : ℕ) : SvcCall (Except DataAccessFault ℕ) := do
  interfere address
  let memory := (← read).memory
  match memory.exchangeFault address with
  | some fault => return .error fault
  | none =>
    let observed := memory.word address
    if observed = expected then
      update fun s => { s with memory := s.memory.store address replacement }
    return .ok observed

/-! ### Helpers of the calls -/

def mutexWaiters : ℕ := 2 ^ 30

/-- `x as u32`, for the value of a register. -/
def asU32 (x : ℕ) : ℕ := x % 2 ^ 32

-- no proof looks into the two signed conversions, and unfolding them into unary numbers is costly

/-- `x as i64`. -/
@[irreducible]
def asI64 (x : ℕ) : ℤ := (x : ℤ).bmod (2 ^ 64)

/-- `x as u32 as i32`. -/
@[irreducible]
def asI32 (x : ℕ) : ℤ := (x : ℤ).bmod (2 ^ 32)

/-- `registry.f(..)` for a method that cannot panic. -/
def updateWaits (f : AddressWaitRegistry → AddressWaitRegistry) : SvcCall Unit :=
  update fun s => { s with waits := f s.waits }

/-- A method of the registry that can panic. -/
def onWaits {ε α : Type} (c : AddressWait.RegistryCall α) : Call Process ε α :=
  Call.zoom Process.waits (fun s r => { s with waits := r }) c

/-- `set_owner`, with the owner taken from a handle of the guest or not. -/
def setOwner (named : Bool) (address : ℕ) (thread : GuestThreadId) : SvcCall Unit :=
  update fun s =>
    { s with
      waits := s.waits.setOwner address thread
      named := Function.update s.named address named }

def addressWaitResult : AddressWaitCompletion → HorizonKernelResult
  | .success => .success
  | .invalidOwner => .invalidState
  | .timedOut => .timedOut
  | .invalidMemory => .invalidCurrentMemory

variable (thread : GuestThreadId)

/-- `queue_runtime_request`: a thread has at most one request. -/
def synchronizeMutexWaits (addresses : List ℕ) : SvcCall Unit := do
  let busy := (← read).pendingRuntimeRequests.contains thread
  update fun s =>
    { s with pendingRuntimeRequests := s.pendingRuntimeRequests.insert thread addresses }
  failIf busy (.internalRuntime "mutex priority handoff")

def mutexMemoryFault (immediate : ℕ) (fault : DataAccessFault) :
    SvcCall ExceptionDispatchOutcome := do
  failIf fault.isInternal (.guestMemory immediate fault)
  return .resume (some .invalidCurrentMemory)

/-- `if let Err(fault) = written && process_wide_key_fault_is_internal(&fault)`. -/
def failInternal (immediate : ℕ) (written : Except DataAccessFault Unit) : SvcCall Unit :=
  match written with
  | .error fault => failIf fault.isInternal (.guestMemory immediate fault)
  | .ok () => return ()

def finishWait : SvcCall Unit :=
  update fun s => { s with waitDeadlines := s.waitDeadlines.erase thread }

def saturatingAdd (a b : ℕ) : ℕ := min (a + b) (2 ^ 64 - 1)

/-- `wait_expired`; the deadline is fixed when it is first asked for. -/
def waitExpired (timeout : ℤ) : SvcCall Bool := do
  if timeout = 0 then return true
  if timeout < 0 then return false
  let now := (← read).virtualTimeNs
  let deadline := (← read).waitDeadlines[thread]?.getD (saturatingAdd now timeout.toNat)
  update fun s => { s with waitDeadlines := s.waitDeadlines.insert thread deadline }
  return decide (deadline ≤ now)

/-- The completion of a wait of the thread at the address that is over; the waiter is removed. -/
def takeCompletion : SvcCall (Option AddressWaitCompletion) := do
  let waits := (← read).waits
  if waits.isSignalled address thread then
    let completion ← expect (waits.completion address thread)
      "called `Option::unwrap()` on a `None` value"
    updateWaits fun r => r.remove address thread
    return some completion
  else
    return none

/-- The mutex goes to the next waiter if the caller is its recorded owner, and is free otherwise. -/
def handoffMutex (mutex : ℕ) (reportWriteFailureToWaiter : Bool) :
    SvcCall (Except DataAccessFault Unit) := do
  let waits := (← read).waits
  let ownsWaiters := waits.owner mutex == some thread
  let next := if ownsWaiters then waits.nextWaiter mutex else none
  let value := match next with
    | none => 0
    | some (_, tag) => tag ||| if waits.unsignalledCount mutex > 1 then mutexWaiters else 0
  let written ← writeProcessWideKeyWord mutex value
  if ownsWaiters then
    updateWaits fun r => r.removeOwner mutex
  match next with
  | none => return written
  | some (waiter, _) =>
    setOwner false mutex waiter
    let completion : AddressWaitCompletion := match written with
      | .error _ => if reportWriteFailureToWaiter then .invalidMemory else .success
      | .ok () => .success
    updateWaits fun r => r.signalResult mutex waiter completion
    return written

/-- The loop of `update_condition_mutex`.  It goes on only when another core wrote the word. -/
def exchangeLoop (mutex tag : ℕ) : ℕ → ℕ → SvcCall (Except DataAccessFault ℕ)
  | 0, _ => fun s => (.panic "the loop of update_condition_mutex goes on", s)
  | fuel + 1, previous => do
      let value := if previous = 0 then tag else previous ||| mutexWaiters
      match ← compareExchange mutex previous value with
      | .error fault => return .error fault
      | .ok observed =>
        if observed = previous then return .ok previous
        exchangeLoop mutex tag fuel observed

def updateConditionMutex (mutex tag : ℕ) : SvcCall (Except DataAccessFault ℕ) := do
  match ← readProcessWideKeyWord mutex with
  | .error fault => return .error fault
  | .ok previous =>
    let interference := (← read).interference
    exchangeLoop mutex tag (interference.length + 1) previous

/-! ### The calls -/

/-- `if waiting { .. }` of `wait_process_wide_key_atomic`: the waiter goes on waiting until its time
is over. -/
def continueWait (mutex key : ℕ) (timeout : ℤ) : SvcCall ExceptionDispatchOutcome := do
  if ← waitExpired thread timeout then
    updateWaits fun r => r.remove key thread
    updateWaits fun r => r.remove mutex thread
    finishWait thread
    synchronizeMutexWaits thread [mutex]
    return .resume (some .timedOut)
  else
    return .suspend

/-- The rest of `wait_process_wide_key_atomic`: the mutex is released, and the wait begins. -/
def beginWait (mutex key tag : ℕ) (timeout : ℤ) : SvcCall ExceptionDispatchOutcome := do
  let written ← writeProcessWideKeyWord key 1
  failInternal 0x1c written
  let released ← handoffMutex thread mutex false
  synchronizeMutexWaits thread [mutex]
  match released with
  | .error fault => mutexMemoryFault 0x1c fault
  | .ok () =>
    if timeout = 0 then return .resume (some .timedOut)
    updateWaits fun r => r.enqueueCondition key thread tag mutex
    let _ ← waitExpired thread timeout
    return .suspend

def waitProcessWideKeyAtomic (x0 x1 x2 x3 : ℕ) : SvcCall ExceptionDispatchOutcome := do
  let mutex := x0
  let key := x1 - x1 % 4
  let tag := asU32 x2
  let timeout := asI64 x3
  if mutex % 4 ≠ 0 then return .resume (some .invalidAddress)
  match ← takeCompletion key thread with
  | some completion =>
    finishWait thread
    return .resume (some (addressWaitResult completion))
  | none =>
  match ← takeCompletion mutex thread with
  | some completion =>
    finishWait thread
    return .resume (some (addressWaitResult completion))
  | none =>
  let waits := (← read).waits
  if waits.contains key thread || waits.contains mutex thread then
    continueWait thread mutex key timeout
  else
    beginWait thread mutex key tag timeout

/-- The loop of `signal_process_wide_key`, with the mutexes whose waiters or owners changed. -/
def signalConditions (key : ℕ) : ℕ → SvcCall (List ℕ)
  | 0 => return []
  | limit + 1 => do
      match (← read).waits.nextCondition key with
      | none => return []
      | some (thread, tag, mutex) =>
        match ← updateConditionMutex mutex tag with
        | .ok 0 =>
          setOwner false mutex thread
          updateWaits fun r => r.signalResult key thread .success
          let changed ← signalConditions key limit
          return mutex :: changed
        | .ok previous =>
          match (← read).handles (previous &&& (2 ^ 32 - 1 - mutexWaiters)) with
          | some owner =>
            setOwner true mutex owner
            onWaits (AddressWait.moveWaiter key mutex thread)
            let changed ← signalConditions key limit
            return mutex :: changed
          | none =>
            updateWaits fun r => r.signalResult key thread .invalidOwner
            signalConditions key limit
        | .error fault =>
          failIf fault.isInternal (.guestMemory 0x1d fault)
          updateWaits fun r => r.signalResult key thread .invalidMemory
          signalConditions key limit

def signalProcessWideKey (x0 x1 : ℕ) : SvcCall ExceptionDispatchOutcome := do
  let key := x0 - x0 % 4
  let count := asI32 x1
  let limit := if count ≤ 0 then 2 ^ 64 - 1 else count.toNat
  let changed ← signalConditions key limit
  if ((← read).waits.nextCondition key).isNone then
    let written ← writeProcessWideKeyWord key 0
    failInternal 0x1d written
  let changed := (changed.mergeSort (· ≤ ·)).destutter (· ≠ ·)
  if changed.isEmpty then
    return .resume none
  else
    synchronizeMutexWaits thread changed
    return .resume none

def arbitrateLock (x0 x1 x2 : ℕ) : SvcCall ExceptionDispatchOutcome := do
  let ownerHandle := asU32 x0
  let mutex := x1
  let tag := asU32 x2
  if mutex % 4 ≠ 0 then return .resume (some .invalidAddress)
  match ← takeCompletion mutex thread with
  | some completion => return .resume (some (addressWaitResult completion))
  | none =>
  if (← read).waits.contains mutex thread then return .suspend
  match ← readProcessWideKeyWord mutex with
  | .error fault => mutexMemoryFault 0x1a fault
  | .ok observed =>
    if observed ≠ ownerHandle ||| mutexWaiters then return .resume (some .success)
    match (← read).handles ownerHandle with
    | none => return .resume (some .invalidHandle)
    | some owner =>
      setOwner true mutex owner
      updateWaits fun r => r.enqueue mutex thread tag
      synchronizeMutexWaits thread [mutex]
      return .suspend

def arbitrateUnlock (x0 : ℕ) : SvcCall ExceptionDispatchOutcome := do
  let mutex := x0
  if mutex % 4 ≠ 0 then return .resume (some .invalidAddress)
  let released ← handoffMutex thread mutex true
  synchronizeMutexWaits thread [mutex]
  match released with
  | .error fault => mutexMemoryFault 0x1b fault
  | .ok () => return .resume (some .success)

def Svc.call : Svc → SvcCall ExceptionDispatchOutcome
  | .arbitrateLock x0 x1 x2 => MutexWait.arbitrateLock thread x0 x1 x2
  | .arbitrateUnlock x0 => MutexWait.arbitrateUnlock thread x0
  | .waitProcessWideKeyAtomic x0 x1 x2 x3 =>
    MutexWait.waitProcessWideKeyAtomic thread x0 x1 x2 x3
  | .signalProcessWideKey x0 x1 => MutexWait.signalProcessWideKey thread x0 x1

/-! ### Interleavings -/

/-- What the rest of the system may change at any time. -/
structure World where
  memory : Memory
  interference : List ℕ
  handles : ℕ → Option GuestThreadId
  virtualTimeNs : ℕ

inductive Command where
  /-- A running thread issues a call. -/
  | issue (thread : GuestThreadId) (svc : Svc)
  /-- A suspended thread resumes, for whatever reason, and issues its call again. -/
  | retry (thread : GuestThreadId)
  /-- A timer of the thread expires. -/
  | expire (thread : GuestThreadId)
  | terminate (thread : GuestThreadId)
  /-- The runtime request of the thread was carried out. -/
  | finishRequest (thread : GuestThreadId)
  | refreshPriorities (priority : GuestThreadId → ℤ)
  | changePriority (thread : GuestThreadId) (priority : ℤ)
  /-- A call of address arbitration, on the queue that the registry also owns. -/
  | arbitrateAddress (operation : PriorityWait.Operation)
  | world (world : World)

inductive Answer where
  | done
  | ignored
  | dispatched (outcome : ExceptionDispatchOutcome)
  | faulted (fault : HorizonSvcFault)
deriving DecidableEq, Repr

abbrev ProcessCall (α : Type) : Type := Call Process Empty α

def setMode (mode : Mode) : ProcessCall Unit :=
  update fun s => { s with modes := Function.update s.modes thread mode }

def exitThread : ProcessCall Unit := do
  onWaits (AddressWait.releaseThread thread)
  setMode thread .exited

/-- A call of a thread, with what the coordinator makes of its end: a fault ends the thread. -/
def dispatch (svc : Svc) : ProcessCall Answer := fun s =>
  match svc.call thread s with
  | (.ok (.resume result), s') =>
    (do setMode thread .running; return .dispatched (.resume result) : ProcessCall Answer) s'
  | (.ok .suspend, s') =>
    (do setMode thread (.suspended svc); return .dispatched .suspend : ProcessCall Answer) s'
  | (.err fault, s') => (do exitThread thread; return .faulted fault : ProcessCall Answer) s'
  | (.panic message, s') => (.panic message, s')

def apply : Command → ProcessCall Answer
  | .issue thread svc => do
      match (← read).modes thread with
      | .running => dispatch thread svc
      | _ => return .ignored
  | .retry thread => do
      match (← read).modes thread with
      | .suspended svc => dispatch thread svc
      | _ => return .ignored
  | .expire thread => do
      update fun s => { s with waits := s.waits.expireThreadWait thread }
      return .done
  | .terminate thread => do
      exitThread thread
      return .done
  | .finishRequest thread => do
      update fun s => { s with pendingRuntimeRequests := s.pendingRuntimeRequests.erase thread }
      return .done
  | .refreshPriorities priority => do
      update fun s => { s with waits := s.waits.refreshMutexPriorities priority }
      return .done
  | .changePriority thread priority => do
      onWaits (AddressWait.changePriority thread priority)
      return .done
  | .arbitrateAddress operation => do
      let _ ← onWaits (AddressWait.priorityWait (PriorityWait.apply operation))
      return .done
  | .world world => do
      update fun s =>
        { s with
          memory := world.memory
          interference := world.interference
          handles := world.handles
          virtualTimeNs := world.virtualTimeNs }
      return .done

def machine : Machine Process Command (Outcome Empty Answer) where
  step s command := apply command s

/-- A process before any of its threads has made a call. -/
def Process.initial (world : World) : Process where
  waits := .empty
  memory := world.memory
  interference := world.interference
  handles := world.handles
  pendingRuntimeRequests := ∅
  virtualTimeNs := world.virtualTimeNs
  waitDeadlines := ∅
  modes := fun _ => .running
  named := fun _ => false

end Nixe.MutexWait
