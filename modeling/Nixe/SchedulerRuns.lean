/-
**Which runs of the scheduler are consistent.**

`MakeReady` looks only at the lifecycle of the thread it is given.  The transition table lets a
running and a waiting thread become ready, so the command also accepts a thread that still holds a
lease or a wait token, and keeps both.  Every other command keeps the scheduler consistent.

Main definitions:

* `Consistent` — ready set, slots, leases and wait tokens agree with the lifecycles;
* `Permitted` — a `MakeReady` that is accepted names a thread that holds nothing.

Main results:

* `keeps_apply` — a permitted command keeps the invariant and does not panic;
* `run_consistent_iff` — **a run is consistent in all its states and free of panics iff all its
  commands are permitted**;
* `makeReady_breaks_runs` — two short runs with a forbidden `MakeReady`.
-/

import Nixe.SchedulerCommands

set_option autoImplicit false

namespace Nixe.Scheduler

open Std (TreeMap)
open SchedulerState

/-- What the fields of the scheduler say about each other. -/
structure Consistent (s : SchedulerState) : Prop where
  /-- The ready set is the set of the keys of the registered threads. -/
  ready_iff : ∀ k, k ∈ s.ready ↔
    ∃ (id : GuestThreadId) (t : ScheduledThread), s.threads[id]? = some t ∧ t.readyKey = some k
  key_iff : ∀ (id : GuestThreadId) (t : ScheduledThread), s.threads[id]? = some t →
    (t.readyKey.isSome ↔ t.lifecycle = .ready)
  key_priority : ∀ (id : GuestThreadId) (t : ScheduledThread) (k : ReadyKey),
    s.threads[id]? = some t → t.readyKey = some k → k.priority = t.config.effectivePriority
  /-- The slots and the leases of the threads are inverse to each other. -/
  slot_iff : ∀ v L, s.leaseForVcpu v = some L ↔
    ∃ t : ScheduledThread, s.threads[L.thread]? = some t ∧ t.activeLease = some L ∧ L.vcpu = v
  lease_slot : ∀ (id : GuestThreadId) (t : ScheduledThread) (L : Lease),
    s.threads[id]? = some t → t.activeLease = some L →
      L.thread = id ∧ s.leaseForVcpu L.vcpu = some L
  lease_iff : ∀ (id : GuestThreadId) (t : ScheduledThread), s.threads[id]? = some t →
    (t.activeLease.isSome ↔ t.lifecycle = .running)
  wait_waiting : ∀ (id : GuestThreadId) (t : ScheduledThread), s.threads[id]? = some t →
    t.activeWait.isSome → t.lifecycle = .waiting

variable {s : SchedulerState} {id : GuestThreadId}

theorem Inv.consistent (hs : Inv s) : Consistent s := by
  have hlease : ∀ id t L, s.threads[id]? = some t → t.activeLease = some L →
      L.thread = id ∧ s.leaseForVcpu L.vcpu = some L := by
    intro id t L ht hL
    have hid := (hs.threadOk id t ht).lease_thread L hL
    refine ⟨hid, (hs.slot_iff _ _).2 ⟨?_, rfl⟩⟩
    rw [hid, leaseOf_of ht, hL]
  refine ⟨?_, fun id t ht => (hs.threadOk id t ht).key_iff,
    fun id t k ht => (hs.threadOk id t ht).key_priority k, ?_, hlease,
    fun id t ht => (hs.threadOk id t ht).lease_iff,
    fun id t ht => (hs.threadOk id t ht).wait_waiting⟩
  · intro k
    constructor
    · intro hk
      obtain ⟨t, ht, hkey, -⟩ := hs.exists_of_mem_ready hk
      exact ⟨k.thread, t, ht, hkey⟩
    · rintro ⟨id, t, ht, hkey⟩
      rw [hs.ready_iff, (hs.threadOk id t ht).key_thread k hkey, keyOf_of ht, hkey]
  · intro v L
    constructor
    · intro h
      obtain ⟨hL, hv⟩ := (hs.slot_iff v L).1 h
      obtain ⟨t, ht, hlease⟩ := Option.bind_eq_some_iff.1 hL
      exact ⟨t, ht, hlease, hv⟩
    · rintro ⟨t, ht, hL, rfl⟩
      exact (hlease _ t L ht hL).2

variable (profile : MachineSchedulerProfile)

theorem leaseForVcpu_new (v : VirtualCpuId) : (new profile).leaseForVcpu v = none := by
  unfold leaseForVcpu new
  by_cases hv : ∃ descriptor ∈ profile.vcpus, descriptor.id = v
  · obtain ⟨descriptor, hmem, rfl⟩ := hv
    have hdistinct : (profile.vcpus.map fun d => (d.id, VirtualCpuSlot.mk none)).Pairwise
        fun a b => ¬ compare a.1 b.1 = .eq := by
      rw [List.pairwise_map]
      refine profile.vcpus_sorted.imp ?_
      intro a b hlt heq
      exact absurd (Std.LawfulEqOrd.eq_of_compare heq) hlt.ne
    rw [TreeMap.getElem?_ofList_of_mem Std.ReflOrd.compare_self hdistinct
      (List.mem_map.2 ⟨descriptor, hmem, rfl⟩)]
    rfl
  · rw [TreeMap.getElem?_ofList_of_contains_eq_false]
    · rfl
    · simpa using hv

theorem inv_new : Inv (new profile) := by
  refine ⟨?_, ?_, ?_⟩
  · intro id t ht
    simp [new] at ht
  · simp [new, keyOf]
  · intro v L
    rw [leaseForVcpu_new]
    simp [new, leaseOf]

/-- The condition on the commands: unless the sequence numbers are used up, so that `MakeReady` is
rejected, it is only given a thread that holds neither a lease nor a wait token. -/
def Permitted (s : SchedulerState) : SchedulerCommand → Prop
  | .makeReady id => s.nextSequence < u64Max → ∀ t : ScheduledThread, s.threads[id]? = some t →
      t.activeLease = none ∧ t.activeWait = none
  | _ => True

/-- Without a sequence number `MakeReady` is rejected, whatever the thread holds. -/
theorem keeps_makeReady_exhausted (h : u64Max ≤ s.nextSequence) : Keeps (makeReady id) s := by
  have hq : checkedAdd s.nextSequence 1 = none := by
    rw [checkedAdd_eq_none]
    omega
  unfold Keeps makeReady tryTransition
  rcases ht : s.threads[id]? with _ | t
  · simp [Call.Ensures, ht]
  rcases hl : (transitionThread t.lifecycle .ready).toOption with _ | l
  · simp [Call.Ensures, ht, hl]
  · simp [Call.Ensures, ht, hl, allocateSequence_err hq]

/-- **One step.**  A permitted command does not panic, keeps the invariant, and changes nothing
when it is rejected. -/
theorem keeps_apply (hs : Inv s) {command : SchedulerCommand} (hc : Permitted s command) :
    Keeps (apply command) s := by
  cases command with
  | register config => exact keeps_register hs config
  | unregister => exact keeps_unregister hs
  | makeReady =>
    by_cases hq : s.nextSequence < u64Max
    · exact keeps_makeReady hs (hc hq)
    · exact keeps_makeReady_exhausted (by omega)
  | selectNext => exact keeps_selectNext hs
  | select vcpu => exact keeps_select hs vcpu
  | complete lease outcome => exact keeps_complete hs lease outcome
  | registerWait => exact keeps_registerWait hs
  | wake => exact keeps_finishWait hs
  | cancelWait => exact keeps_finishWait hs
  | terminate => exact keeps_terminate hs
  | migrate => exact keeps_migrate hs
  | setPriority => exact keeps_setPriority hs
  | setEffectivePriority => exact keeps_setEffectivePriority hs
  | setActivity => exact keeps_setActivity hs

/-- A `MakeReady` that is not permitted is accepted, and the thread keeps what it holds. -/
theorem makeReady_of_not_permitted (hs : Inv s) (h : ¬ Permitted s (.makeReady id)) :
    ∃ t : ScheduledThread, (makeReady id s).2.threads[id]? = some t ∧ t.lifecycle = .ready ∧
      (t.activeLease.isSome ∨ t.activeWait.isSome) := by
  simp only [Permitted, not_forall] at h
  obtain ⟨hq, t, ht, hheld⟩ := h
  have hheld' : t.activeLease.isSome ∨ t.activeWait.isSome := by
    rcases hl : t.activeLease with _ | L
    · rcases hw : t.activeWait with _ | w
      · exact absurd ⟨hl, hw⟩ hheld
      · simp
    · simp
  -- what the thread holds says that it is running or waiting, and both may become ready
  have hok := hs.threadOk id t ht
  have hlc : t.lifecycle = .running ∨ t.lifecycle = .waiting :=
    hheld'.imp hok.lease_iff.1 hok.wait_waiting
  have hl : (transitionThread t.lifecycle .ready).toOption = some .ready := by
    rcases hlc with h | h <;> rw [h] <;> rfl
  have hseq : checkedAdd s.nextSequence 1 = some (s.nextSequence + 1) := by
    rw [checkedAdd_eq_some]
    omega
  have hc := hs.not_contains_ready ht (by rcases hlc with h | h <;> simp [h])
    t.config.effectivePriority s.nextSequence
  refine ⟨{ t with
    lifecycle := .ready
    readyKey := some ⟨t.config.effectivePriority, s.nextSequence, id⟩ }, ?_, rfl, hheld'⟩
  simp [makeReady, tryTransition, ht, hl, allocateSequence_ok hseq, setThread, insertReady, hc]

/-- **The condition is exact.**  A run of the scheduler is consistent in every state it passes
through, and none of its commands panics, iff no accepted `MakeReady` names a thread that holds a
lease or a wait token. -/
theorem run_consistent_iff (profile : MachineSchedulerProfile) (commands : List SchedulerCommand) :
    ((∀ done, done <+: commands → Consistent (machine.run (.new profile) done)) ∧
      ∀ e ∈ machine.trace (.new profile) commands, e.2.isPanic = false) ↔
    machine.Guarded Permitted (.new profile) commands := by
  refine Machine.good_iff_guarded (O := fun o => Outcome.isPanic o = false)
    (fun s hs => hs.consistent) ?_ ?_ commands _ (inv_new profile)
  · intro s command hs hc
    have hkeep := keeps_apply hs hc
    exact ⟨hkeep.not_panic, hkeep.state (fun _ _ h => h) fun _ _ h => h ▸ hs⟩
  · intro s command hs _ hcons
    by_contra hnot
    cases command with
    | makeReady id =>
      obtain ⟨t, ht, hready, hheld⟩ := makeReady_of_not_permitted hs hnot
      rcases hheld with h | h
      · have := (hcons.lease_iff id t ht).1 h
        simp [hready] at this
      · have := hcons.wait_waiting id t ht h
        simp [hready] at this
    | _ => exact hnot trivial

/-! ### The two runs that break it -/

/-- One virtual CPU, and the priorities 0 to 63. -/
def soloProfile : MachineSchedulerProfile where
  vcpus := [⟨0, 0⟩]
  priorities := ⟨0, 63, by decide⟩
  defaultTimesliceInstructions := 1
  vcpus_ne_nil := by decide
  vcpus_sorted := by decide
  timeslice_ne_zero := by decide

/-- A thread of process 1 that may run on that virtual CPU. -/
def soloThread : ScheduledThreadConfig := ⟨1, 1, 10, 10, none, ⟨[0], by decide, by decide⟩⟩

/-- The thread gets a lease and is made ready while it runs. -/
def leasedRun : List SchedulerCommand :=
  [.register soloThread, .makeReady 1, .select 0, .makeReady 1]

/-- The thread waits for a token, is made ready, and then the token is used. -/
def waitingRun : List SchedulerCommand :=
  [.register soloThread, .makeReady 1, .select 0, .complete ⟨1, 1, 0, 1⟩ .waiting,
    .registerWait 1 .pending, .makeReady 1, .wake ⟨1, 1⟩]

/-- After the first run a ready thread holds a lease; the second one ends in a panic. -/
theorem makeReady_breaks_runs : ¬ Consistent (machine.run (.new soloProfile) leasedRun) ∧
    (machine.trace (.new soloProfile) waitingRun).getLast?.map Prod.snd =
      some (.panic "a registered waiter is waiting") := by
  refine ⟨?_, by decide⟩
  intro h
  have hthread : ∃ t, (machine.run (.new soloProfile) leasedRun).threads[1]? = some t ∧
      t.activeLease.isSome ∧ t.lifecycle = .ready := by decide
  obtain ⟨t, ht, hl, hlc⟩ := hthread
  have := (h.lease_iff 1 t ht).1 hl
  simp [hlc] at this

end Nixe.Scheduler
