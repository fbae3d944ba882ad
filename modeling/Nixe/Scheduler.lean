/-
**The guest thread scheduler.**

`crates/scheduler` owns the guest threads of the machine: which of them are ready, which virtual CPU
runs which thread, and which of them wait.  A thread runs under a *lease* of a virtual CPU and waits
under a *wake token*; both are handed to the caller and come back as arguments of later commands.
This module is the scheduler as the crate computes it: the lifecycle table (`lifecycle.rs`), the
topology (`topology.rs`) and `SchedulerState::apply` with its fourteen commands (`scheduler.rs`).

Main definitions:

* `transitionThread` — the table of thread lifecycles;
* `MachineSchedulerProfile`, `CoreSet` — topology and affinity;
* `SchedulerState`, `apply` — the state and its commands;
* `machine` — the scheduler as a machine, for statements about runs.
-/

import Nixe.Call
import Nixe.Checked
import Nixe.Machine
import Mathlib.Tactic

set_option autoImplicit false

namespace Nixe.Scheduler

open Std (TreeMap TreeSet)
open Call (read update failIf failWith ifSome okOr expect debugAssert)

/-! ### Identities -/

abbrev ProcessId := ℕ
abbrev GuestThreadId := ℕ
abbrev VirtualCpuId := ℕ
abbrev SchedulerSequence := ℕ
abbrev WakeGeneration := ℕ
abbrev LeaseGeneration := ℕ

/-! ### Lifecycles -/

inductive ThreadLifecycle where
  | created
  | ready
  | running
  | waiting
  | preempted
  | suspended
  | terminating
  | exited
  | faulted
deriving DecidableEq, Repr

inductive LifecycleTransitionError (S : Type) where
  | duplicate (state : S)
  | illegal (current target : S)
deriving DecidableEq, Repr

/-- The table of `transition_thread`. -/
def transitionAllowed : ThreadLifecycle → ThreadLifecycle → Bool
  | .created, .ready => true
  | .created, .terminating => true
  | .ready, .running => true
  | .ready, .terminating => true
  | .ready, .suspended => true
  | .running, .ready => true
  | .running, .waiting => true
  | .running, .preempted => true
  | .running, .terminating => true
  | .running, .faulted => true
  | .waiting, .ready => true
  | .waiting, .terminating => true
  | .waiting, .faulted => true
  | .preempted, .ready => true
  | .preempted, .running => true
  | .preempted, .terminating => true
  | .suspended, .ready => true
  | .suspended, .terminating => true
  | .terminating, .exited => true
  | _, _ => false

variable (id : GuestThreadId) (state target : ThreadLifecycle)

/-- The lifecycle after a transition to `target`. -/
def transitionThread : Except (LifecycleTransitionError ThreadLifecycle) ThreadLifecycle :=
  if state = target then .error (.duplicate target)
  else if transitionAllowed state target then .ok target
  else .error (.illegal state target)

/-! ### Topology -/

structure PriorityRange where
  highest : ℤ
  lowest : ℤ
  highest_le_lowest : highest ≤ lowest
deriving DecidableEq

def PriorityRange.contains (range : PriorityRange) (priority : ℤ) : Bool :=
  decide (range.highest ≤ priority) && decide (priority ≤ range.lowest)

structure VirtualCpuDescriptor where
  id : VirtualCpuId
  cluster : ℕ
deriving DecidableEq

/-- A checked topology: at least one virtual CPU, in increasing order of identity and without
duplicates, and a non-zero timeslice.  These are the values that `MachineSchedulerProfile::new`
returns. -/
structure MachineSchedulerProfile where
  vcpus : List VirtualCpuDescriptor
  priorities : PriorityRange
  defaultTimesliceInstructions : ℕ
  vcpus_ne_nil : vcpus ≠ []
  vcpus_sorted : vcpus.Pairwise fun a b => a.id < b.id
  timeslice_ne_zero : defaultTimesliceInstructions ≠ 0
deriving DecidableEq

/-- The binary search on the sorted identities finds exactly those that occur. -/
def MachineSchedulerProfile.contains (profile : MachineSchedulerProfile) (id : VirtualCpuId) :
    Bool :=
  profile.vcpus.any fun descriptor => descriptor.id == id

/-- A non-empty set of virtual CPUs in increasing order.  `CoreSet::new` checks the set against one
profile, but nothing ties it to the profile of the scheduler it is later passed to. -/
structure CoreSet where
  cores : List VirtualCpuId
  cores_ne_nil : cores ≠ []
  cores_sorted : cores.Pairwise (· < ·)
deriving DecidableEq

def CoreSet.contains (set : CoreSet) (id : VirtualCpuId) : Bool := decide (id ∈ set.cores)

/-! ### Threads, leases and commands -/

structure ScheduledThreadConfig where
  process : ProcessId
  thread : GuestThreadId
  basePriority : ℤ
  effectivePriority : ℤ
  idealVcpu : Option VirtualCpuId
  affinity : CoreSet
deriving DecidableEq

structure Lease where
  process : ProcessId
  thread : GuestThreadId
  vcpu : VirtualCpuId
  generation : LeaseGeneration
deriving DecidableEq, Repr

structure WakeToken where
  thread : GuestThreadId
  generation : WakeGeneration
deriving DecidableEq, Repr

inductive Readiness where
  | ready
  | pending
deriving DecidableEq, Repr

inductive Completion where
  | ready
  | preempted
  | waiting
  | exited
  | faulted
deriving DecidableEq, Repr

inductive MigrationEffect where
  | none
  | clearOldLocalExclusive (oldVcpu : VirtualCpuId)
deriving DecidableEq, Repr

inductive SchedulerCommand where
  | register (config : ScheduledThreadConfig)
  | unregister (thread : GuestThreadId)
  | makeReady (thread : GuestThreadId)
  | selectNext
  | select (vcpu : VirtualCpuId)
  | complete (lease : Lease) (outcome : Completion)
  | registerWait (thread : GuestThreadId) (readiness : Readiness)
  | wake (token : WakeToken)
  | cancelWait (token : WakeToken)
  | terminate (thread : GuestThreadId) (faulted : Bool)
  | migrate (thread : GuestThreadId) (idealVcpu : Option VirtualCpuId) (affinity : CoreSet)
  | setPriority (thread : GuestThreadId) (priority : ℤ)
  | setEffectivePriority (thread : GuestThreadId) (priority : ℤ)
  | setActivity (thread : GuestThreadId) (paused : Bool)
deriving DecidableEq

inductive SchedulerDecision where
  | registered (thread : GuestThreadId)
  | unregistered (thread : GuestThreadId)
  | enqueued (thread : GuestThreadId) (sequence : SchedulerSequence)
  | selected (lease : Option Lease)
  | completed (thread : GuestThreadId)
  | waitRegistered (token : WakeToken)
  | readyImmediately (thread : GuestThreadId)
  | woken (thread : GuestThreadId)
  | waitCancelled (thread : GuestThreadId)
  | terminated (thread : GuestThreadId)
  | migrated (thread : GuestThreadId) (effect : MigrationEffect)
  | priorityChanged (thread : GuestThreadId)
  | activityChanged (thread : GuestThreadId)
deriving DecidableEq, Repr

inductive SchedulerError where
  | duplicateThread (thread : GuestThreadId)
  | unknownThread (thread : GuestThreadId)
  | unknownVirtualCpu (vcpu : VirtualCpuId)
  | invalidPriority (priority : ℤ)
  | idealOutsideAffinity (thread : GuestThreadId) (ideal : VirtualCpuId)
  | invalidThreadState (thread : GuestThreadId) (state : ThreadLifecycle)
  | threadLeased (thread : GuestThreadId)
  | virtualCpuBusy (vcpu : VirtualCpuId)
  | staleLease (lease : Lease)
  | duplicateWait (thread : GuestThreadId)
  | staleWake (token : WakeToken)
  | sequenceExhausted
  | leaseGenerationExhausted
  | wakeGenerationExhausted
deriving DecidableEq, Repr

/-- The place of a thread in the ready set: lower priorities first, then earlier sequences. -/
structure ReadyKey where
  priority : ℤ
  sequence : SchedulerSequence
  thread : GuestThreadId
deriving DecidableEq, Repr

instance : Ord ReadyKey where
  compare := compareLex (compareOn ReadyKey.priority)
    (compareLex (compareOn ReadyKey.sequence) (compareOn ReadyKey.thread))

instance : Std.TransOrd ReadyKey :=
  inferInstanceAs (Std.TransCmp (compareLex (compareOn ReadyKey.priority)
    (compareLex (compareOn ReadyKey.sequence) (compareOn ReadyKey.thread))))

instance : Std.LawfulEqOrd ReadyKey where
  eq_of_compare {a b} h := by
    have h' : compareLex (compareOn ReadyKey.priority)
        (compareLex (compareOn ReadyKey.sequence) (compareOn ReadyKey.thread)) a b = .eq := h
    simp only [compareLex, compareOn, Ordering.then_eq_eq, Std.compare_eq_iff_eq] at h'
    obtain ⟨hp, hs, ht⟩ := h'
    cases a; cases b; simp_all

structure ScheduledThread where
  config : ScheduledThreadConfig
  lifecycle : ThreadLifecycle
  readyKey : Option ReadyKey
  activeLease : Option Lease
  activeWait : Option WakeToken
  lastVcpu : Option VirtualCpuId
deriving DecidableEq

structure VirtualCpuSlot where
  lease : Option Lease
deriving DecidableEq

structure SchedulerState where
  profile : MachineSchedulerProfile
  threads : TreeMap GuestThreadId ScheduledThread
  ready : TreeSet ReadyKey
  vcpus : TreeMap VirtualCpuId VirtualCpuSlot
  nextSequence : ℕ
  nextLeaseGeneration : ℕ
  nextWakeGeneration : ℕ

/-- `SchedulerState::new`: no thread, and one idle slot for each virtual CPU of the profile. -/
def SchedulerState.new (profile : MachineSchedulerProfile) : SchedulerState where
  profile := profile
  threads := ∅
  ready := ∅
  vcpus := TreeMap.ofList
    (profile.vcpus.map fun descriptor => (descriptor.id, VirtualCpuSlot.mk none))
  nextSequence := 1
  nextLeaseGeneration := 1
  nextWakeGeneration := 1

def SchedulerState.leaseForVcpu (s : SchedulerState) (id : VirtualCpuId) : Option Lease :=
  s.vcpus[id]?.bind VirtualCpuSlot.lease

/-- The virtual CPU exists and is idle. -/
def SchedulerState.idle (s : SchedulerState) (id : VirtualCpuId) : Bool :=
  s.vcpus[id]?.any fun slot => slot.lease.isNone

/-! ### Statements the commands are made of -/

abbrev SchedulerCall (α : Type) : Type := Call SchedulerState SchedulerError α

/-- Overwriting the record of a registered thread. -/
def setThread (thread : ScheduledThread) : SchedulerCall Unit :=
  update fun s => { s with threads := s.threads.insert id thread }

/-- Overwriting the lease of a virtual CPU. -/
def setSlot (id : VirtualCpuId) (lease : Option Lease) : SchedulerCall Unit :=
  update fun s => { s with vcpus := s.vcpus.insert id ⟨lease⟩ }

/-- `self.ready.insert(key)`, with the answer whether the key is new. -/
def insertReady (key : ReadyKey) : SchedulerCall Bool := do
  let s ← read
  update fun s => { s with ready := s.ready.insert key }
  return !s.ready.contains key

/-- `self.ready.remove(&key)`, with the answer whether the key was there. -/
def removeReady (key : ReadyKey) : SchedulerCall Bool := do
  let s ← read
  update fun s => { s with ready := s.ready.erase key }
  return s.ready.contains key

/-- `if let Some(key) = key { self.ready.remove(&key); }`. -/
def removeReadyKey (key : Option ReadyKey) : SchedulerCall Unit :=
  ifSome key fun key => do
    let _ ← removeReady key

def allocateSequence : SchedulerCall SchedulerSequence := do
  let value := (← read).nextSequence
  let next ← okOr (checkedAdd value 1) .sequenceExhausted
  update fun s => { s with nextSequence := next }
  return value

def allocateLeaseGeneration : SchedulerCall LeaseGeneration := do
  let value := (← read).nextLeaseGeneration
  let next ← okOr (checkedAdd value 1) .leaseGenerationExhausted
  update fun s => { s with nextLeaseGeneration := next }
  return value

def allocateWakeGeneration : SchedulerCall WakeGeneration := do
  let value := (← read).nextWakeGeneration
  let next ← okOr (checkedAdd value 1) .wakeGenerationExhausted
  update fun s => { s with nextWakeGeneration := next }
  return value

/-- Filing a thread under a key made of its current effective priority. -/
def enqueueExistingWithSequence (sequence : SchedulerSequence) : SchedulerCall Unit := do
  let thread ← expect (← read).threads[id]? "thread exists"
  let key : ReadyKey := ⟨thread.config.effectivePriority, sequence, id⟩
  setThread id { thread with readyKey := some key }
  let inserted ← insertReady key
  debugAssert inserted "inserted"

/-- `transition_thread(&mut thread.lifecycle, target).expect(message)` for a registered thread. -/
def expectTransition (message : String) : SchedulerCall ThreadLifecycle :=
  expect (transitionThread state target).toOption message

/-- `transition_thread(..).map_err(|_| InvalidThreadState { .. })?`. -/
def tryTransition : SchedulerCall ThreadLifecycle :=
  okOr (transitionThread state target).toOption (.invalidThreadState id state)

/-! ### The commands -/

def validatePolicy (config : ScheduledThreadConfig) : SchedulerCall Unit := do
  let profile := (← read).profile
  failWith ((config.affinity.cores.find? fun vcpu => !profile.contains vcpu).map
    .unknownVirtualCpu)
  failIf (!profile.priorities.contains config.basePriority) (.invalidPriority config.basePriority)
  failIf (!profile.priorities.contains config.effectivePriority)
    (.invalidPriority config.effectivePriority)
  failWith ((config.idealVcpu.filter fun ideal => !config.affinity.contains ideal).map
    (.idealOutsideAffinity config.thread))

def register (config : ScheduledThreadConfig) : SchedulerCall SchedulerDecision := do
  failIf ((← read).threads.contains config.thread) (.duplicateThread config.thread)
  validatePolicy config
  setThread config.thread
    { config, lifecycle := .created, readyKey := none, activeLease := none, activeWait := none,
      lastVcpu := none }
  return .registered config.thread

def unregister : SchedulerCall SchedulerDecision := do
  let thread ← okOr (← read).threads[id]? (.unknownThread id)
  failIf thread.activeLease.isSome (.threadLeased id)
  removeReadyKey thread.readyKey
  update fun s => { s with threads := s.threads.erase id }
  return .unregistered id

def makeReady : SchedulerCall SchedulerDecision := do
  let thread ← okOr (← read).threads[id]? (.unknownThread id)
  let lifecycle ← tryTransition id thread.lifecycle .ready
  let sequence ← allocateSequence
  let thread ← expect (← read).threads[id]? "thread was validated"
  let key : ReadyKey := ⟨thread.config.effectivePriority, sequence, id⟩
  setThread id { thread with lifecycle, readyKey := some key }
  let inserted ← insertReady key
  debugAssert inserted "inserted"
  return .enqueued id sequence

def select (vcpu : VirtualCpuId) : SchedulerCall SchedulerDecision := do
  let slot ← okOr (← read).vcpus[vcpu]? (.unknownVirtualCpu vcpu)
  failIf slot.lease.isSome (.virtualCpuBusy vcpu)
  let s ← read
  let some key := s.ready.toList.find? fun key =>
      s.threads[key.thread]?.any fun thread => thread.config.affinity.contains vcpu
    | return .selected none
  let generation ← allocateLeaseGeneration
  let removed ← removeReady key
  debugAssert removed "removed"
  let thread ← expect (← read).threads[key.thread]? "ready key is live"
  let lifecycle ← expectTransition thread.lifecycle .running "only ready threads are queued"
  let lease : Lease := ⟨thread.config.process, key.thread, vcpu, generation⟩
  setThread key.thread { thread with lifecycle, readyKey := none, activeLease := some lease }
  let _ ← expect (← read).vcpus[vcpu]? "vCPU was validated"
  setSlot vcpu (some lease)
  return .selected (some lease)

def selectNext : SchedulerCall SchedulerDecision := do
  let s ← read
  let some key := s.ready.toList.find? fun key =>
      s.threads[key.thread]?.any fun thread => thread.config.affinity.cores.any s.idle
    | return .selected none
  let thread ← expect s.threads[key.thread]? "ready key is live"
  let ideal := thread.config.idealVcpu.filter s.idle
  let local' := thread.lastVcpu.filter fun vcpu =>
    thread.config.affinity.contains vcpu && s.idle vcpu
  let target := (ideal <|> local') <|> thread.config.affinity.cores.find? s.idle
  let vcpu ← expect target "a ready thread was proven to have an idle eligible vCPU"
  select vcpu

/-- The lifecycle that a completed thread ends in. -/
def completedLifecycle : Completion → SchedulerCall ThreadLifecycle
  | .ready => expectTransition state .ready "running thread can become ready"
  | .preempted => do
      let state ← expectTransition state .preempted "running thread can be preempted"
      expectTransition state .ready "preempted thread can become ready"
  | .waiting => expectTransition state .waiting "running thread can wait"
  | .exited => do
      let state ← expectTransition state .terminating "running thread can terminate"
      expectTransition state .exited "terminating thread can exit"
  | .faulted => expectTransition state .faulted "running thread can fault"

/-- The completed thread goes back into the ready set. -/
def Completion.requeues : Completion → Bool
  | .ready => true
  | .preempted => true
  | _ => false

/-- `matches!(outcome, Ready | Preempted).then(|| self.allocate_sequence()).transpose()?`. -/
def completionSequence (outcome : Completion) : SchedulerCall (Option SchedulerSequence) :=
  if outcome.requeues then do
    let sequence ← allocateSequence
    return some sequence
  else
    return none

def complete (lease : Lease) (outcome : Completion) : SchedulerCall SchedulerDecision := do
  let thread ← okOr (← read).threads[lease.thread]? (.unknownThread lease.thread)
  failIf (thread.activeLease != some lease) (.staleLease lease)
  failIf ((← read).leaseForVcpu lease.vcpu != some lease) (.staleLease lease)
  let readySequence ← completionSequence outcome
  let _ ← expect (← read).vcpus[lease.vcpu]? "lease vCPU exists"
  setSlot lease.vcpu none
  let thread ← expect (← read).threads[lease.thread]? "lease thread exists"
  let thread := { thread with activeLease := none, lastVcpu := some lease.vcpu }
  setThread lease.thread thread
  let lifecycle ← completedLifecycle thread.lifecycle outcome
  setThread lease.thread { thread with lifecycle }
  ifSome readySequence (enqueueExistingWithSequence lease.thread)
  return .completed lease.thread

def registerWait (readiness : Readiness) : SchedulerCall SchedulerDecision := do
  let thread ← okOr (← read).threads[id]? (.unknownThread id)
  failIf (thread.lifecycle != .waiting) (.invalidThreadState id thread.lifecycle)
  failIf thread.activeWait.isSome (.duplicateWait id)
  if readiness = .ready then
    let sequence ← allocateSequence
    let thread ← expect (← read).threads[id]? "thread exists"
    let lifecycle ← expectTransition thread.lifecycle .ready "a waiting thread can become ready"
    setThread id { thread with lifecycle }
    enqueueExistingWithSequence id sequence
    return .readyImmediately id
  let token : WakeToken := ⟨id, ← allocateWakeGeneration⟩
  let thread ← expect (← read).threads[id]? "thread exists"
  setThread id { thread with activeWait := some token }
  return .waitRegistered token

def finishWait (token : WakeToken) (cancelled : Bool) : SchedulerCall SchedulerDecision := do
  let thread ← okOr (← read).threads[token.thread]? (.unknownThread token.thread)
  failIf (thread.activeWait != some token) (.staleWake token)
  let sequence ← allocateSequence
  let thread ← expect (← read).threads[token.thread]? "wait token thread exists"
  let thread := { thread with activeWait := none }
  setThread token.thread thread
  let lifecycle ← expectTransition thread.lifecycle .ready "a registered waiter is waiting"
  setThread token.thread { thread with lifecycle }
  enqueueExistingWithSequence token.thread sequence
  return if cancelled then .waitCancelled token.thread else .woken token.thread

def migrate (idealVcpu : Option VirtualCpuId) (affinity : CoreSet) :
    SchedulerCall SchedulerDecision := do
  failWith ((idealVcpu.filter fun ideal => !affinity.contains ideal).map
    (.idealOutsideAffinity id))
  let profile := (← read).profile
  failWith ((affinity.cores.find? fun vcpu => !profile.contains vcpu).map .unknownVirtualCpu)
  let thread ← okOr (← read).threads[id]? (.unknownThread id)
  failIf thread.activeLease.isSome (.threadLeased id)
  let effect := match thread.lastVcpu with
    | some oldVcpu =>
      if affinity.contains oldVcpu then MigrationEffect.none else .clearOldLocalExclusive oldVcpu
    | none => .none
  setThread id { thread with config := { thread.config with idealVcpu, affinity } }
  return .migrated id effect

/-- The body shared by `set_priority` and `set_effective_priority`, which differ in the fields of
the configuration that they write. -/
def changePriority (priority : ℤ)
    (write : ScheduledThreadConfig → ScheduledThreadConfig) : SchedulerCall SchedulerDecision := do
  failIf (!(← read).profile.priorities.contains priority) (.invalidPriority priority)
  let thread ← okOr (← read).threads[id]? (.unknownThread id)
  let oldKey := thread.readyKey
  removeReadyKey oldKey
  let thread ← expect (← read).threads[id]? "thread was validated"
  let thread := { thread with config := write thread.config }
  setThread id thread
  ifSome oldKey fun oldKey => do
    let key := { oldKey with priority }
    setThread id { thread with readyKey := some key }
    let inserted ← insertReady key
    debugAssert inserted "inserted"
  return .priorityChanged id

def setPriority (priority : ℤ) : SchedulerCall SchedulerDecision :=
  changePriority id priority fun config =>
    { config with basePriority := priority, effectivePriority := priority }

def setEffectivePriority (priority : ℤ) : SchedulerCall SchedulerDecision :=
  changePriority id priority fun config => { config with effectivePriority := priority }

def setActivity (paused : Bool) : SchedulerCall SchedulerDecision := do
  let thread ← okOr (← read).threads[id]? (.unknownThread id)
  failIf (thread.activeLease.isSome || (paused && thread.lifecycle == .suspended)
    || (!paused && thread.lifecycle == .ready)) (.invalidThreadState id thread.lifecycle)
  failIf (paused && thread.lifecycle != .ready) (.invalidThreadState id thread.lifecycle)
  failIf (!paused && thread.lifecycle != .suspended) (.invalidThreadState id thread.lifecycle)
  let oldKey := thread.readyKey
  if paused then
    removeReadyKey oldKey
    let thread ← expect (← read).threads[id]? "thread was validated"
    let thread := { thread with readyKey := none }
    setThread id thread
    let lifecycle ← expectTransition thread.lifecycle .suspended
      "a validated ready thread can be suspended"
    setThread id { thread with lifecycle }
  else
    let sequence ← allocateSequence
    let thread ← expect (← read).threads[id]? "thread was validated"
    let lifecycle ← expectTransition thread.lifecycle .ready
      "a validated suspended thread can become ready"
    setThread id { thread with lifecycle }
    enqueueExistingWithSequence id sequence
  return .activityChanged id

def terminate (faulted : Bool) : SchedulerCall SchedulerDecision := do
  let thread ← okOr (← read).threads[id]? (.unknownThread id)
  failIf thread.activeLease.isSome (.threadLeased id)
  failIf (thread.lifecycle == .exited || thread.lifecycle == .faulted)
    (.invalidThreadState id thread.lifecycle)
  let lifecycle ←
    if faulted then
      tryTransition id thread.lifecycle .faulted
    else do
      let lifecycle ← tryTransition id thread.lifecycle .terminating
      expectTransition lifecycle .exited "a terminating thread can exit"
  removeReadyKey thread.readyKey
  let thread ← expect (← read).threads[id]? "thread was validated"
  setThread id { thread with readyKey := none, activeWait := none, lifecycle }
  return .terminated id

def apply : SchedulerCommand → SchedulerCall SchedulerDecision
  | .register config => register config
  | .unregister thread => unregister thread
  | .makeReady thread => makeReady thread
  | .selectNext => selectNext
  | .select vcpu => select vcpu
  | .complete lease outcome => complete lease outcome
  | .registerWait thread readiness => registerWait thread readiness
  | .wake token => finishWait token false
  | .cancelWait token => finishWait token true
  | .terminate thread faulted => terminate thread faulted
  | .migrate thread idealVcpu affinity => migrate thread idealVcpu affinity
  | .setPriority thread priority => setPriority thread priority
  | .setEffectivePriority thread priority => setEffectivePriority thread priority
  | .setActivity thread paused => setActivity thread paused

/-- The scheduler as a machine: a command is answered by the outcome of `apply`.  A run does not
stop at a panic; it goes on with the state in which the panic left the scheduler. -/
def machine :
    Machine SchedulerState SchedulerCommand (Outcome SchedulerError SchedulerDecision) where
  step s command := apply command s

end Nixe.Scheduler
