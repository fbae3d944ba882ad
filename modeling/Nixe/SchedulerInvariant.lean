/-
**The invariant of the scheduler.**

The ready set repeats the keys of the threads, and the slots of the virtual CPUs repeat their
leases.  The invariant says that the copies agree.  It is stated for one thread at a time
(`ThreadOk`) and for the two shared structures, and the lemmas of this file say which changes of
*one* thread it survives, so that a command never has to look at the threads it does not name.

Main definitions:

* `ThreadOk` — key, lease and wait token agree with the lifecycle;
* `Inv` — all threads are well formed, and the ready set and the slots are what the threads say.

Main results:

* `Inv.replace` — **the frame rule**: one thread changes, all others keep what they hold;
* `Inv.rewrite`, `Inv.touch`, `Inv.enqueue`, `Inv.grant`, `Inv.release`, `Inv.retire` — its
  instances for the changes that the commands make.
-/

import Nixe.Scheduler

set_option autoImplicit false

namespace Nixe.Scheduler

open Std (TreeMap TreeSet)
open SchedulerState

/-! ### What a thread holds -/

namespace SchedulerState

/-- The ready key of a registered thread. -/
def keyOf (s : SchedulerState) (id : GuestThreadId) : Option ReadyKey :=
  s.threads[id]?.bind ScheduledThread.readyKey

def leaseOf (s : SchedulerState) (id : GuestThreadId) : Option Lease :=
  s.threads[id]?.bind ScheduledThread.activeLease

variable {s : SchedulerState} {id : GuestThreadId} {t : ScheduledThread}

theorem keyOf_of (h : s.threads[id]? = some t) : s.keyOf id = t.readyKey := by
  simp [keyOf, h]

theorem leaseOf_of (h : s.threads[id]? = some t) : s.leaseOf id = t.activeLease := by
  simp [leaseOf, h]

end SchedulerState

/-- What the invariant says about one registered thread. -/
structure ThreadOk (id : GuestThreadId) (t : ScheduledThread) : Prop where
  key_iff : t.readyKey.isSome ↔ t.lifecycle = .ready
  key_thread : ∀ k, t.readyKey = some k → k.thread = id
  key_priority : ∀ k, t.readyKey = some k → k.priority = t.config.effectivePriority
  lease_iff : t.activeLease.isSome ↔ t.lifecycle = .running
  lease_thread : ∀ L, t.activeLease = some L → L.thread = id
  wait_waiting : t.activeWait.isSome → t.lifecycle = .waiting

namespace ThreadOk

variable {id : GuestThreadId} {t : ScheduledThread}

theorem readyKey_none (h : ThreadOk id t) (hl : t.lifecycle ≠ .ready) : t.readyKey = none := by
  have := mt h.key_iff.1 hl
  simpa using this

theorem activeLease_none (h : ThreadOk id t) (hl : t.lifecycle ≠ .running) :
    t.activeLease = none := by
  have := mt h.lease_iff.1 hl
  simpa using this

theorem activeWait_none (h : ThreadOk id t) (hl : t.lifecycle ≠ .waiting) :
    t.activeWait = none := by
  have := mt h.wait_waiting hl
  simpa using this

end ThreadOk

/-! ### The invariant -/

/-- The inductive invariant: every thread is well formed, the ready set and the slots are what the
threads say they are. -/
structure Inv (s : SchedulerState) : Prop where
  threadOk : ∀ id t, s.threads[id]? = some t → ThreadOk id t
  ready_iff : ∀ k, k ∈ s.ready ↔ s.keyOf k.thread = some k
  slot_iff : ∀ v L, s.leaseForVcpu v = some L ↔ s.leaseOf L.thread = some L ∧ L.vcpu = v

variable {s s' : SchedulerState} {id : GuestThreadId} {t : ScheduledThread} {l : Option Lease}
  {lease : Lease}

/-- A key of the ready set belongs to a registered thread that is ready. -/
theorem Inv.exists_of_mem_ready (hs : Inv s) {k : ReadyKey} (hk : k ∈ s.ready) :
    ∃ t, s.threads[k.thread]? = some t ∧ t.readyKey = some k ∧ t.lifecycle = .ready := by
  obtain ⟨t, ht, hkey⟩ := Option.bind_eq_some_iff.1 ((hs.ready_iff k).1 hk)
  exact ⟨t, ht, hkey, (hs.threadOk _ t ht).key_iff.1 (by simp [hkey])⟩

/-- A thread that is not ready has no key in the ready set, so the assertion of every insertion
holds. -/
theorem Inv.not_contains_ready (hs : Inv s) (ht : s.threads[id]? = some t)
    (hl : t.lifecycle ≠ .ready) (p : ℤ) (n : SchedulerSequence) :
    s.ready.contains ⟨p, n, id⟩ = false := by
  rw [Bool.eq_false_iff, ne_eq, TreeSet.contains_iff_mem, hs.ready_iff,
    keyOf_of ht, (hs.threadOk id t ht).readyKey_none hl]
  simp

/-! ### One thread changes -/

/-- One thread is replaced by `o` (removed, if `o` is `none`), the others keep their keys and
leases. -/
theorem Inv.replace (hs : Inv s) (id : GuestThreadId) (o : Option ScheduledThread)
    (hthreads : ∀ i, s'.threads[i]? = if id = i then o else s.threads[i]?)
    (hok : ∀ t, o = some t → ThreadOk id t) (hready : ∀ k, k ∈ s'.ready ↔
      if id = k.thread then o.bind ScheduledThread.readyKey = some k else k ∈ s.ready)
    (hslot : ∀ v L, s'.leaseForVcpu v = some L ↔
      if id = L.thread then o.bind ScheduledThread.activeLease = some L ∧ L.vcpu = v
      else s.leaseForVcpu v = some L) : Inv s' := by
  refine ⟨?_, ?_, ?_⟩
  · intro i t ht
    rw [hthreads i] at ht
    by_cases hi : id = i
    · subst hi
      rw [if_pos rfl] at ht
      exact hok t ht
    · rw [if_neg hi] at ht
      exact hs.threadOk i t ht
  · intro k
    rw [hready k, keyOf, hthreads]
    by_cases hk : id = k.thread
    · simp [hk]
    · rw [if_neg hk, if_neg hk, hs.ready_iff k, keyOf]
  · intro v L
    rw [hslot v L, leaseOf, hthreads]
    by_cases hL : id = L.thread
    · simp [hL]
    · rw [if_neg hL, if_neg hL, hs.slot_iff v L, leaseOf]

/-- The ready set after the key of one thread was taken out and a new one put in. -/
theorem Inv.mem_ready_replace (hs : Inv s) (id : GuestThreadId) (new : Option ReadyKey)
    (hnew : ∀ k, new = some k → k.thread = id) (k : ReadyKey) :
    (k ∈ s.ready ∧ s.keyOf id ≠ some k) ∨ new = some k ↔
      if id = k.thread then new = some k else k ∈ s.ready := by
  by_cases hk : id = k.thread
  · rw [if_pos hk, hs.ready_iff k, ← hk]
    tauto
  · rw [if_neg hk]
    have h₁ : new ≠ some k := fun h => hk (hnew k h).symm
    have h₂ : s.keyOf id ≠ some k := by
      intro h
      obtain ⟨t, ht, hkey⟩ := Option.bind_eq_some_iff.1 h
      exact hk ((hs.threadOk id t ht).key_thread k hkey).symm
    tauto

theorem mem_ready_removed (o : Option ReadyKey) (ready : TreeSet ReadyKey) (k : ReadyKey) :
    k ∈ o.elim ready ready.erase ↔ k ∈ ready ∧ o ≠ some k := by
  cases o with
  | none => simp
  | some => simp [and_comm]

/-- The slots, when the leases do not change. -/
theorem Inv.slot_keep (hs : Inv s) (hl : s.leaseOf id = l) (v : VirtualCpuId)
    (L : Lease) : s.leaseForVcpu v = some L ↔
      if id = L.thread then l = some L ∧ L.vcpu = v else s.leaseForVcpu v = some L := by
  by_cases hL : id = L.thread
  · rw [if_pos hL, hs.slot_iff v L, ← hL, hl]
  · rw [if_neg hL]

/-- A registered thread is rewritten; its lease stays, and the ready set follows its key. -/
theorem Inv.rewrite (hs : Inv s) (ht : s.threads[id]? = some t) (t' : ScheduledThread)
    (hok : ThreadOk id t') (hlease : t'.activeLease = t.activeLease) (hvcpus : s'.vcpus = s.vcpus)
    (hthreads : ∀ i, s'.threads[i]? = if id = i then some t' else s.threads[i]?)
    (hready : ∀ k, k ∈ s'.ready ↔ (k ∈ s.ready ∧ t.readyKey ≠ some k) ∨ t'.readyKey = some k) :
    Inv s' := by
  refine hs.replace id _ hthreads ?_ ?_ ?_
  · rintro u ⟨rfl⟩
    exact hok
  · intro k
    rw [hready k, ← keyOf_of ht]
    exact hs.mem_ready_replace id _ hok.key_thread k
  · intro v L
    rw [leaseForVcpu, hvcpus]
    exact hs.slot_keep ((leaseOf_of ht).trans hlease.symm) v L

/-- A thread is rewritten without a change to its key or its lease. -/
theorem Inv.touch (hs : Inv s) (ht : s.threads[id]? = some t) (t' : ScheduledThread)
    (hok : ThreadOk id t') (hkey : t'.readyKey = t.readyKey)
    (hlease : t'.activeLease = t.activeLease)
    (hthreads : ∀ i, s'.threads[i]? = if id = i then some t' else s.threads[i]?)
    (hready : s'.ready = s.ready) (hvcpus : s'.vcpus = s.vcpus) : Inv s' := by
  refine hs.rewrite ht t' hok hlease hvcpus hthreads ?_
  intro k
  have hmem : t.readyKey = some k → k ∈ s.ready := by
    intro h
    have hk : k.thread = id := (hs.threadOk id t ht).key_thread k h
    rw [hs.ready_iff, hk, keyOf_of ht, h]
  rw [hready, hkey]
  tauto

/-- A thread without a key and without a lease becomes ready under a fresh sequence.  The thread
may have been rewritten before it is filed. -/
theorem Inv.enqueue (hs : Inv s) (ht : s.threads[id]? = some t) (hne : t.lifecycle ≠ .ready)
    (hrun : t.lifecycle ≠ .running) (n : SchedulerSequence)
    (hthreads : ∀ i, s'.threads[i]? = if id = i then some { t with
        lifecycle := .ready
        activeWait := none
        readyKey := some ⟨t.config.effectivePriority, n, id⟩ } else s.threads[i]?)
    (hready : ∀ k, k ∈ s'.ready ↔ ⟨t.config.effectivePriority, n, id⟩ = k ∨ k ∈ s.ready)
    (hvcpus : s'.vcpus = s.vcpus) : Inv s' := by
  have hok := hs.threadOk id t ht
  have hlease := hok.activeLease_none hrun
  refine hs.rewrite ht { t with
      lifecycle := .ready
      activeWait := none
      readyKey := some _ } ?_ rfl hvcpus hthreads ?_
  · exact ⟨by simp, by simp, by simp, by simp [hlease], by simp [hlease], by simp⟩
  · intro k
    rw [hready k]
    simp [hok.readyKey_none hne, or_comm]

/-- The lifecycle in which `terminate` leaves a thread. -/
def terminated (faulted : Bool) : ThreadLifecycle :=
  if faulted then .faulted else .exited

/-- A thread that leaves for good: its key is withdrawn and its wait, if any, forgotten. -/
theorem Inv.retire (hs : Inv s) (ht : s.threads[id]? = some t) (hl : t.activeLease = none)
    (faulted : Bool) (hthreads : ∀ i, s'.threads[i]? = if id = i then
      some { t with
        lifecycle := terminated faulted
        readyKey := none
        activeWait := none }
      else s.threads[i]?) (hready : s'.ready = t.readyKey.elim s.ready s.ready.erase)
    (hvcpus : s'.vcpus = s.vcpus) : Inv s' := by
  refine hs.rewrite ht
    { t with lifecycle := terminated faulted, readyKey := none, activeWait := none }
    ?_ rfl hvcpus hthreads ?_
  · cases faulted <;> exact ⟨by simp [terminated], by simp, by simp, by simp [hl, terminated],
      by simp [hl], by simp⟩
  · rw [hready]
    simp [mem_ready_removed]

/-! ### A lease is granted or given back -/

theorem leaseForVcpu_insert {vcpu : VirtualCpuId}
    (h : s'.vcpus = s.vcpus.insert vcpu ⟨l⟩) (v : VirtualCpuId) :
    s'.leaseForVcpu v = if vcpu = v then l else s.leaseForVcpu v := by
  rw [leaseForVcpu, h, TreeMap.getElem?_insert]
  by_cases hv : vcpu = v <;> simp [hv, leaseForVcpu]

/-- The slots after a lease was granted to its thread or given back by it: the virtual CPU and
the thread agree on it before, and hold the same one afterwards. -/
theorem Inv.slot_set {new : Option Lease} (hs : Inv s)
    (hslot : s.leaseForVcpu lease.vcpu = s.leaseOf lease.thread)
    (hold : ∀ L, s.leaseOf lease.thread = some L → lease = L)
    (hnew : ∀ L, new = some L → lease = L) (v : VirtualCpuId) (L : Lease) :
    (if lease.vcpu = v then new else s.leaseForVcpu v) = some L ↔
      if lease.thread = L.thread then new = some L ∧ L.vcpu = v
      else s.leaseForVcpu v = some L := by
  by_cases hL : lease.thread = L.thread
  · rw [if_pos hL]
    by_cases hv : lease.vcpu = v
    · rw [if_pos hv]
      exact ⟨fun h => ⟨h, hnew L h ▸ hv⟩, And.left⟩
    · rw [if_neg hv, hs.slot_iff, ← hL]
      exact ⟨fun h => absurd (hold L h.1 ▸ h.2) hv, fun h => absurd (hnew L h.1 ▸ h.2) hv⟩
  · rw [if_neg hL]
    by_cases hv : lease.vcpu = v
    · rw [if_pos hv, ← hv, hslot]
      exact ⟨fun h => absurd (hnew L h ▸ rfl) hL, fun h => absurd (hold L h ▸ rfl) hL⟩
    · rw [if_neg hv]

/-- A ready thread leaves the ready set and gets an idle virtual CPU. -/
theorem Inv.grant (hs : Inv s) (lease : Lease) (ht : s.threads[lease.thread]? = some t)
    (hready : t.lifecycle = .ready) (hidle : s.leaseForVcpu lease.vcpu = none)
    (hthreads : ∀ i, s'.threads[i]? = if lease.thread = i then
      some { t with lifecycle := .running, readyKey := none, activeLease := some lease }
      else s.threads[i]?) (hkeys : s'.ready = t.readyKey.elim s.ready s.ready.erase)
    (hvcpus : s'.vcpus = s.vcpus.insert lease.vcpu ⟨some lease⟩) : Inv s' := by
  have hok := hs.threadOk _ t ht
  have hlease := hok.activeLease_none (by simp [hready])
  have hwait := hok.activeWait_none (by simp [hready])
  refine hs.replace lease.thread (some
    { t with lifecycle := .running, readyKey := none, activeLease := some lease })
    hthreads ?_ ?_ ?_
  · rintro u ⟨rfl⟩
    exact ⟨by simp, by simp, by simp, by simp, by simp, by simp [hwait]⟩
  · intro k
    have := hs.mem_ready_replace lease.thread none (by simp) k
    simpa [hkeys, mem_ready_removed, keyOf_of ht] using this
  · intro v L
    rw [leaseForVcpu_insert hvcpus]
    have hnone : s.leaseOf lease.thread = none := by rw [leaseOf_of ht, hlease]
    exact hs.slot_set (hidle.trans hnone.symm) (by simp [hnone]) (by simp) v L

theorem Inv.release (hs : Inv s) (hlease : s.leaseOf lease.thread = some lease)
    (hkey : s.keyOf lease.thread = none) (t' : ScheduledThread) (hok : ThreadOk lease.thread t')
    (hnone : t'.activeLease = none)
    (hthreads : ∀ i, s'.threads[i]? = if lease.thread = i then some t' else s.threads[i]?)
    (hvcpus : s'.vcpus = s.vcpus.insert lease.vcpu ⟨none⟩)
    (hready : ∀ k, k ∈ s'.ready ↔ k ∈ s.ready ∨ t'.readyKey = some k) : Inv s' := by
  refine hs.replace lease.thread _ hthreads ?_ ?_ ?_
  · rintro u ⟨rfl⟩
    exact hok
  · intro k
    rw [hready k]
    simpa [hkey] using hs.mem_ready_replace lease.thread _ hok.key_thread k
  · intro v L
    rw [leaseForVcpu_insert hvcpus]
    have hslot := (hs.slot_iff _ _).2 ⟨hlease, rfl⟩
    rw [Option.bind_some, hnone]
    exact hs.slot_set (hslot.trans hlease.symm) (by simp [hlease]) (by simp) v L

end Nixe.Scheduler
