/-
**The registry of mutex and condition waits of a process.**

`AddressWaitRegistry` keeps one queue of waiters for each address and a recorded owner for each
mutex.  A condition waiter carries the address of the mutex it has to reacquire; a mutex waiter does
not.  A waiter stays in its queue after it was signalled, until its thread has run again and taken
the completion.  Its event, which is created with it, is modelled as a flag.  The queue of address
arbitration, which the registry also owns, is the one of `Nixe.PriorityWait`.

Main definitions:

* `AddressWaiter`, `AddressWaitRegistry` — the data;
* `AddressWaitRegistry.nextWaiter`, `AddressWaitRegistry.nextCondition` — who is woken next;
* `AddressWaitRegistry.signalResult`, `AddressWaitRegistry.expireThreadWait`, `moveWaiter`,
  `releaseThread` — the ways a wait ends or moves.
-/

import Nixe.PriorityWait

set_option autoImplicit false

namespace Nixe.AddressWait

open Std (TreeMap)
open Call (read update expect)
open PriorityWait (GuestThreadId PriorityAddressWaitQueue)

inductive AddressWaitCompletion where
  | success
  | invalidOwner
  | invalidMemory
  | timedOut
deriving DecidableEq, Repr

structure AddressWaiter where
  thread : GuestThreadId
  value : ℕ
  lockAddress : Option ℕ
  priority : ℤ
  completion : AddressWaitCompletion
  signalled : Bool
deriving DecidableEq, Repr

variable (waiter : AddressWaiter)

/-- `lock_address.is_none() && !readable.is_signalled()`: the waiter waits for a mutex. -/
def AddressWaiter.pending : Bool :=
  waiter.lockAddress.isNone && !waiter.signalled

/-- `lock_address.is_some() && !readable.is_signalled()`: the waiter waits for a condition. -/
def AddressWaiter.waitsForCondition : Bool :=
  waiter.lockAddress.isSome && !waiter.signalled

structure AddressWaitRegistry where
  waiters : TreeMap ℕ (List AddressWaiter)
  owners : TreeMap ℕ GuestThreadId
  priorityWaits : PriorityAddressWaitQueue

/-- `AddressWaitRegistry::default()`. -/
def AddressWaitRegistry.empty : AddressWaitRegistry where
  waiters := ∅
  owners := ∅
  priorityWaits := .empty

/-- The first waiter of the least priority: `min_by_key(|(order, waiter)| (waiter.priority, order))`
over the waiters in the order of their queue. -/
def minByPriority : List AddressWaiter → Option AddressWaiter
  | [] => none
  | waiter :: rest =>
    match minByPriority rest with
    | none => some waiter
    | some other => if other.priority < waiter.priority then some other else some waiter

/-- Changing the first waiter of a thread. -/
def updateThread (thread : GuestThreadId) (f : AddressWaiter → AddressWaiter) :
    List AddressWaiter → List AddressWaiter
  | [] => []
  | waiter :: rest =>
    if waiter.thread = thread then f waiter :: rest else waiter :: updateThread thread f rest

/-- `waiter.completion = result; waiter.writable.signal();`. -/
def AddressWaiter.signal (result : AddressWaitCompletion) : AddressWaiter :=
  { waiter with completion := result, signalled := true }

namespace AddressWaitRegistry

variable (r : AddressWaitRegistry) (address : ℕ) (thread : GuestThreadId)

/-- The queue at an address, empty if there is none. -/
def queue : List AddressWaiter :=
  r.waiters[address]?.getD []

/-- Writing back a queue that is dropped when it is empty. -/
def setQueue (waiters : List AddressWaiter) : AddressWaitRegistry :=
  { r with
    waiters :=
      if waiters.isEmpty then r.waiters.erase address else r.waiters.insert address waiters }

def contains : Bool :=
  (r.queue address).any fun waiter => waiter.thread == thread

/-- `entry(address).or_default().push_back(..)`. -/
def enqueueWithLock (value : ℕ) (lockAddress : Option ℕ) : AddressWaitRegistry :=
  { r with
    waiters := r.waiters.insert address (r.queue address ++
      [{ thread, value, lockAddress, priority := 2 ^ 31 - 1, completion := .success,
         signalled := false }]) }

def enqueue (value : ℕ) : AddressWaitRegistry :=
  r.enqueueWithLock address thread value none

def enqueueCondition (value lock : ℕ) : AddressWaitRegistry :=
  r.enqueueWithLock address thread value (some lock)

/-- The first waiter of a thread at an address. -/
def find : Option AddressWaiter :=
  (r.queue address).find? fun waiter => waiter.thread == thread

def isSignalled : Bool :=
  (r.find address thread).any AddressWaiter.signalled

def completion : Option AddressWaitCompletion :=
  (r.find address thread).map AddressWaiter.completion

def remove : AddressWaitRegistry :=
  match r.waiters[address]? with
  | none => r
  | some waiters =>
    match waiters.findIdx? fun waiter => waiter.thread == thread with
    | some index => r.setQueue address (waiters.eraseIdx index)
    | none => r.setQueue address waiters

def refreshMutexPriorities (priority : GuestThreadId → ℤ) : AddressWaitRegistry :=
  { r with
    waiters := r.waiters.map fun _ waiters =>
      waiters.map fun waiter => { waiter with priority := priority waiter.thread } }

def unsignalledCount : ℕ :=
  ((r.queue address).filter AddressWaiter.pending).length

/-- Current effective priority first, then the order of the queue. -/
def nextWaiter : Option (GuestThreadId × ℕ) :=
  (minByPriority ((r.queue address).filter AddressWaiter.pending)).map fun waiter =>
    (waiter.thread, waiter.value)

/-- As `next_waiter`, among the condition waiters; `lock_address.unwrap()` cannot fail after the
filter, which is why the lock comes out of the option here. -/
def nextCondition : Option (GuestThreadId × ℕ × ℕ) :=
  (minByPriority ((r.queue address).filter AddressWaiter.waitsForCondition)).bind fun waiter =>
    waiter.lockAddress.map fun lock => (waiter.thread, waiter.value, lock)

def signalResult (result : AddressWaitCompletion) : AddressWaitRegistry :=
  match r.waiters[address]? with
  | none => r
  | some waiters =>
    { r with
      waiters := r.waiters.insert address
        (updateThread thread (fun waiter => waiter.signal result) waiters) }

/-- The queues are searched in the order of their addresses. -/
def expireThreadWait : AddressWaitRegistry :=
  match r.waiters.toList.find? fun entry =>
      (entry.2.find? fun waiter => waiter.thread == thread).any fun waiter =>
        !waiter.signalled with
  | none => r
  | some (address, _) => r.signalResult address thread .timedOut

def owner : Option GuestThreadId := r.owners[address]?

def setOwner : AddressWaitRegistry :=
  { r with owners := r.owners.insert address thread }

def removeOwner : AddressWaitRegistry :=
  { r with owners := r.owners.erase address }

end AddressWaitRegistry

/-! ### Methods that can panic -/

abbrev RegistryCall (α : Type) : Type := Call AddressWaitRegistry Empty α

/-- An operation on the queue of address arbitration. -/
def priorityWait {α : Type} (c : PriorityWait.WaitCall α) : RegistryCall α :=
  Call.zoom AddressWaitRegistry.priorityWaits (fun r q => { r with priorityWaits := q }) c

def moveWaiter (source target : ℕ) (thread : GuestThreadId) : RegistryCall Unit := do
  let waiters ← expect (← read).waiters[source]? "registered condition waiter"
  let index ← expect (waiters.findIdx? fun waiter => waiter.thread == thread)
    "called `Option::unwrap()` on a `None` value"
  let waiter ← expect waiters[index]? "called `Option::unwrap()` on a `None` value"
  update fun r => r.setQueue source (waiters.eraseIdx index)
  update fun r =>
    { r with
      waiters := r.waiters.insert target (r.queue target ++ [{ waiter with lockAddress := none }]) }

def changePriority (thread : GuestThreadId) (priority : ℤ) : RegistryCall Unit := do
  priorityWait (PriorityWait.changePriority thread priority)
  update fun r =>
    { r with
      waiters := r.waiters.map fun _ waiters =>
        waiters.map fun waiter =>
          if waiter.thread = thread then { waiter with priority } else waiter }

/-- `while let Some((waiter, _)) = self.next_waiter(address) { self.signal_result(..) }`.  A loop
that is not over when its fuel is, ends in a panic. -/
def cancelWaiters (address : ℕ) : ℕ → RegistryCall Unit
  | 0 => fun r => (.panic "the loop of release_thread goes on", r)
  | fuel + 1 => do
      match (← read).nextWaiter address with
      | none => return ()
      | some (waiter, _) =>
        update fun r => r.signalResult address waiter .invalidOwner
        cancelWaiters address fuel

/-- The owned addresses, one after the other. -/
def cancelOwned : List ℕ → RegistryCall Unit
  | [] => return ()
  | address :: owned => do
      update fun r => r.removeOwner address
      -- one round for each waiter, and one more to leave the loop
      let rounds := ((← read).queue address).length + 1
      cancelWaiters address rounds
      cancelOwned owned

def releaseThread (thread : GuestThreadId) : RegistryCall Unit := do
  priorityWait (PriorityWait.remove thread)
  update fun r => r.waiters.keys.foldl (fun r address => r.remove address thread) r
  let owned := ((← read).owners.toList.filter fun entry => entry.2 == thread).map Prod.fst
  cancelOwned owned

end Nixe.AddressWait
