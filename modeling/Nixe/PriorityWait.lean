/-
**Priority-ordered address waits.**

`PriorityAddressWaitQueue` keeps the waiters of a process in queues filed under an address and a
priority, and repeats what it knows about them in three indexes: the position of each waiting
thread, the set of deadlines, and the results of the waits that are over.  A wait comes with an
event, which is signalled when the wait completes; the events are numbered here in the order of
their creation, and the calls of `signal` are recorded in a log.

Main definitions:

* `PriorityAddressWaitQueue` — the queue with its indexes, and the events;
* `removeActive`, `complete` — the two halves of ending a wait;
* `enqueue`, `signal`, `expire`, `changePriority`, `takeResult`, `remove` — the operations, and
  `machine`, which runs lists of them.
-/

import Nixe.Machine
import Nixe.Call
import Nixe.Buckets

set_option autoImplicit false

namespace Nixe.PriorityWait

open Std (TreeMap TreeSet)
open Call (read update expect)

abbrev GuestThreadId : Type := ℕ
abbrev EventId : Type := ℕ

inductive AddressWaitResult where
  | signalled
  | timedOut
deriving DecidableEq, Repr

structure Waiter where
  thread : GuestThreadId
  deadline : Option ℕ
  event : EventId
deriving DecidableEq, Repr

/-- An element of the ordered set of deadlines: earlier deadlines first, then smaller threads. -/
structure DeadlineKey where
  deadline : ℕ
  thread : GuestThreadId
deriving DecidableEq, Repr

instance : Ord DeadlineKey where
  compare := compareLex (compareOn DeadlineKey.deadline) (compareOn DeadlineKey.thread)

instance : Std.TransOrd DeadlineKey :=
  inferInstanceAs (Std.TransCmp
    (compareLex (compareOn DeadlineKey.deadline) (compareOn DeadlineKey.thread)))

instance : Std.LawfulEqOrd DeadlineKey where
  eq_of_compare {a b} h := by
    have h' :
        compareLex (compareOn DeadlineKey.deadline) (compareOn DeadlineKey.thread) a b = .eq :=
      h
    simp only [compareLex, compareOn, Ordering.then_eq_eq, Std.compare_eq_iff_eq] at h'
    obtain ⟨hd, ht⟩ := h'
    cases a; cases b; simp_all

/-- The event objects: how many were created, and which were signalled, the latest last. -/
structure Events where
  next : EventId
  signalled : List EventId
deriving DecidableEq, Repr

structure PriorityAddressWaitQueue where
  queues : Buckets ℕ ℤ Waiter
  positions : TreeMap GuestThreadId (ℕ × ℤ)
  deadlines : TreeSet DeadlineKey
  completed : TreeMap GuestThreadId AddressWaitResult
  events : Events

/-- `PriorityAddressWaitQueue::default()`. -/
def PriorityAddressWaitQueue.empty : PriorityAddressWaitQueue where
  queues := ∅
  positions := ∅
  deadlines := ∅
  completed := ∅
  events := ⟨0, []⟩

/-- The operations return no error. -/
abbrev WaitCall (α : Type) : Type := Call PriorityAddressWaitQueue Empty α

/-- `if let Some(deadline) = waiter.deadline { self.deadlines.remove(&(deadline, thread)); }`. -/
def removeDeadline (deadline : Option ℕ) (thread : GuestThreadId) : WaitCall Unit :=
  Call.ifSome deadline fun deadline =>
    update fun s => { s with deadlines := s.deadlines.erase ⟨deadline, thread⟩ }

/-- `if let Some(deadline) = deadline { self.deadlines.insert((deadline, thread)); }`. -/
def insertDeadline (deadline : Option ℕ) (thread : GuestThreadId) : WaitCall Unit :=
  Call.ifSome deadline fun deadline =>
    update fun s => { s with deadlines := s.deadlines.insert ⟨deadline, thread⟩ }

/-- `WritableEventObject::signal`. -/
def signalEvent (event : EventId) : WaitCall Unit :=
  update fun s => { s with events := { s.events with signalled := s.events.signalled ++ [event] } }

def complete (waiter : Waiter) (result : AddressWaitResult) : WaitCall Unit := do
  removeDeadline waiter.deadline waiter.thread
  update fun s => { s with completed := s.completed.insert waiter.thread result }
  signalEvent waiter.event

variable (thread : GuestThreadId)

def removeActive : WaitCall (Option Waiter) := do
  match (← read).positions[thread]? with
  | none => return none
  | some (address, priority) =>
    update fun s => { s with positions := s.positions.erase thread }
    let priorities ← expect (← read).queues[address]? "position owns an address queue"
    let queue ← expect priorities[priority]? "position owns a priority queue"
    let index ← expect (queue.findIdx? fun waiter => waiter.thread == thread)
      "position owns a waiter"
    let waiter ← expect queue[index]? "waiter index exists"
    update fun s =>
      { s with queues := s.queues.put address priorities priority (queue.eraseIdx index) }
    removeDeadline waiter.deadline thread
    return some waiter

def contains (s : PriorityAddressWaitQueue) (thread : GuestThreadId) : Bool :=
  s.positions.contains thread || s.completed.contains thread

/-- The event of the new wait, or `none` if the thread already has one. -/
def enqueue (address : ℕ) (thread : GuestThreadId) (priority : ℤ) (deadline : Option ℕ) :
    WaitCall (Option EventId) := do
  let s ← read
  if contains s thread then
    return none
  else
    let event := s.events.next
    update fun s => { s with events := { s.events with next := event + 1 } }
    update fun s => { s with queues := s.queues.push address priority ⟨thread, deadline, event⟩ }
    update fun s => { s with positions := s.positions.insert thread (address, priority) }
    insertDeadline deadline thread
    return some event

def takeResult : WaitCall (Option AddressWaitResult) := do
  let s ← read
  update fun s => { s with completed := s.completed.erase thread }
  return s.completed[thread]?

/-- One round of the loop of `signal`; the answer is `false` where the source breaks out. -/
def signalOne (address : ℕ) : WaitCall Bool := do
  match (← read).queues[address]? with
  | none => return false
  | some priorities =>
    -- `first_entry` is the entry with the least priority
    let (priority, queue) ← expect priorities.toList.head? "address queue is nonempty"
    let waiter ← expect queue.head? "priority queue is nonempty"
    update fun s => { s with queues := s.queues.put address priorities priority queue.tail }
    update fun s => { s with positions := s.positions.erase waiter.thread }
    complete waiter .signalled
    return true

def signal (address : ℕ) : ℕ → WaitCall Unit
  | 0 => return ()
  | count + 1 => do
      if ← signalOne address then signal address count else return ()

/-- The loop of `expire`.  The source has no bound on the rounds; here a loop that is not over when
its fuel is, ends in a panic. -/
def expireLoop (now : ℕ) : ℕ → WaitCall Unit
  | 0 => fun s => (.panic "the loop of expire goes on", s)
  | fuel + 1 => do
      match (← read).deadlines.toList.head? with
      | none => return ()
      | some ⟨deadline, thread⟩ =>
        if deadline > now then
          return ()
        else
          let waiter ← expect (← removeActive thread) "deadline owns an active wait"
          complete waiter .timedOut
          expireLoop now fuel

/-- There is a round for each deadline and one more, which leaves the loop. -/
def expire (now : ℕ) : WaitCall Unit := do
  let rounds := (← read).deadlines.size + 1
  expireLoop now rounds

def changePriority (priority : ℤ) : WaitCall Unit := do
  match (← read).positions[thread]? with
  | none => return ()
  | some (address, oldPriority) =>
    if oldPriority = priority then
      return ()
    else
      let waiter ← expect (← removeActive thread) "position owns an active wait"
      insertDeadline waiter.deadline thread
      update fun s => { s with queues := s.queues.push address priority waiter }
      update fun s => { s with positions := s.positions.insert thread (address, priority) }

def remove : WaitCall Unit := do
  let _ ← removeActive thread
  update fun s => { s with completed := s.completed.erase thread }

/-! ### The operations as commands -/

inductive Operation where
  | enqueue (address : ℕ) (thread : GuestThreadId) (priority : ℤ) (deadline : Option ℕ)
  | signal (address count : ℕ)
  | expire (now : ℕ)
  | changePriority (thread : GuestThreadId) (priority : ℤ)
  | takeResult (thread : GuestThreadId)
  | remove (thread : GuestThreadId)
deriving DecidableEq

inductive Answer where
  | unit
  | event (event : Option EventId)
  | result (result : Option AddressWaitResult)
deriving DecidableEq, Repr

def apply : Operation → WaitCall Answer
  | .enqueue address thread priority deadline => do
      return .event (← enqueue address thread priority deadline)
  | .signal address count => do
      signal address count
      return .unit
  | .expire now => do
      expire now
      return .unit
  | .changePriority thread priority => do
      changePriority thread priority
      return .unit
  | .takeResult thread => do
      return .result (← takeResult thread)
  | .remove thread => do
      remove thread
      return .unit

def machine : Machine PriorityAddressWaitQueue Operation (Outcome Empty Answer) where
  step s operation := apply operation s

end Nixe.PriorityWait
