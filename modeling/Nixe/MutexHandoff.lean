/-
**The hand-off of a mutex is exact.**

`handoff_mutex` counts the pending waiters, chooses one and signals it in three separate scans of
a queue that also holds condition waiters and waiters that were signalled before.  The three scans
agree: the first pending waiter of the least priority is chosen and signalled, and no other.

The word that is written is the tag of the chosen waiter with the waiters bit added if others
remain.  The tag is whatever the guest passed in a register, so that the bit can be there without
waiters.

Main results:

* `handoff_exact` — **the word, the owner and the queue after a hand-off**;
* `handoff_tagged` — a tag that has the waiters bit itself.
-/
import Nixe.MutexWaitRuns

set_option autoImplicit false

namespace Nixe.MutexWait

open PriorityWait (GuestThreadId)
open AddressWait (AddressWaiter AddressWaitRegistry minByPriority_eq_some)
open List Call AddressWait.AddressWaiter AddressWait.AddressWaitRegistry

/-- The waiters that wait for the mutex itself, in the order of the queue. -/
def pendingWaiters (r : AddressWaitRegistry) (mutex : ℕ) : List AddressWaiter :=
  (r.queue mutex).filter pending

/-- Signalling the waiter of one thread leaves the other pending waiters, in their order. -/
theorem filter_pending_signalFor {q before after : List AddressWaiter} {w : AddressWaiter}
    (hnodup : (q.map thread).Nodup)
    (hq : q.filter pending = before ++ w :: after) :
    (q.map (signalFor w.thread .success)).filter pending = before ++ after := by
  have hkept : (q.map (signalFor w.thread .success)).filter pending =
      (q.filter pending).filter fun v => v.thread != w.thread := by
    rw [filter_map, filter_filter]
    conv_rhs => rw [← map_id (filter _ q)]
    have hpred : ∀ v, (pending ∘
        signalFor w.thread .success) v = (v.thread != w.thread && v.pending) := by
      intro v
      by_cases hv : v.thread = w.thread <;> simp [signalFor, signal, pending, hv]
    rw [filter_congr fun v _ => hpred v]
    refine map_congr_left fun v hv => ?_
    have hne := (mem_filter.1 hv).2
    simp only [Bool.and_eq_true, bne_iff_ne] at hne
    simp [signalFor, hne.1]
  have hothers : ∀ v ∈ before ++ after, (v.thread != w.thread) = true := by
    have hsub : ((before ++ w :: after).map thread).Nodup :=
      hnodup.sublist ((hq ▸ filter_sublist).map _)
    have hw := nodup_middle.1 (by simpa using hsub)
    rw [← map_append, nodup_cons] at hw
    intro v hv
    rw [bne_iff_ne]
    intro heq
    exact hw.1 (heq ▸ mem_map_of_mem hv)
  rw [hkept, hq, filter_append, filter_cons_of_neg (by simp),
    ← filter_append, filter_eq_self.2 hothers]

/-- **The hand-off.**  In every state that an interleaving leads to, if the caller is the recorded
owner of the mutex and the word can be written: without a pending waiter the word becomes zero and
the mutex has no owner.  Otherwise the first pending waiter of the least priority becomes the owner;
the word is its tag, with the waiters bit added iff there are others; it is the only waiter that
changes, and is signalled with `Success`; the others stay pending in their order. -/
theorem handoff_exact (world : World) (commands : List Command) (thread : GuestThreadId)
    (mutex : ℕ) (report : Bool)
    (howner : (machine.run (.initial world) commands).waits.owner mutex = some thread)
    (hwrite : (machine.run (.initial world) commands).memory.writeFault mutex = none) :
    let s := machine.run (.initial world) commands
    Call.Ensures (handoffMutex thread mutex report) s (fun written s' =>
      written = .ok () ∧ (∀ a, a ≠ mutex → s'.waits.queue a = s.waits.queue a) ∧
      ((pendingWaiters s.waits mutex = [] ∧ s'.memory.word mutex = 0 ∧
          s'.waits.owner mutex = none ∧ s'.waits.queue mutex = s.waits.queue mutex) ∨
        ∃ before w after, pendingWaiters s.waits mutex = before ++ w :: after ∧
          (∀ v ∈ before, w.priority < v.priority) ∧ (∀ v ∈ after, w.priority ≤ v.priority) ∧
          s'.memory.word mutex =
            (w.value ||| if 1 < (pendingWaiters s.waits mutex).length then 2 ^ 30 else 0) ∧
          s'.waits.owner mutex = some w.thread ∧
          s'.waits.queue mutex = (s.waits.queue mutex).map (fun v =>
            if v.thread = w.thread then { v with completion := .success, signalled := true }
            else v) ∧
          pendingWaiters s'.waits mutex = before ++ after)) fun _ _ => False := by
  intro s
  have hs : Inv s := Machine.run_invariant_all (I := Inv) (fun _ command hs => inv_step hs)
    commands _ inv_initial
  obtain ⟨place, hfiled, -⟩ := hs
  have howner' : s.waits.owner mutex = some thread := howner
  have hwrite' : s.memory.writeFault mutex = none := hwrite
  have hcount : s.waits.unsignalledCount mutex = (pendingWaiters s.waits mutex).length := rfl
  rcases hmin : AddressWait.minByPriority (pendingWaiters s.waits mutex) with _ | w
  · have hnext : s.waits.nextWaiter mutex = none := by
      rw [nextWaiter, ← pendingWaiters, hmin, Option.map_none]
    have hnone := AddressWait.minByPriority_eq_none.1 hmin
    simp only [Call.Ensures, handoffMutex, bind_run, read_run, howner', hnext,
      beq_self_eq_true, if_true, writeProcessWideKeyWord, hwrite', update_run, pure_run,
      updateWaits]
    refine ⟨trivial, fun _ _ => rfl, .inl ⟨hnone, ?_, ?_, rfl⟩⟩
    · simp [Memory.store]
    · rw [owner_removeOwner, if_pos rfl]
  · have hnext : s.waits.nextWaiter mutex = some (w.thread, w.value) := by
      rw [nextWaiter, ← pendingWaiters, hmin, Option.map_some]
    obtain ⟨before, after, hsplit, hbefore, hafter⟩ := minByPriority_eq_some hmin
    have hqueue := queue_signalResult
      (r := (s.waits.removeOwner mutex).setOwner mutex w.thread) hfiled.distinct mutex w.thread
      .success
    simp only [Call.Ensures, handoffMutex, bind_run, read_run, howner', hnext,
      beq_self_eq_true, if_true, writeProcessWideKeyWord, hwrite', update_run, pure_run,
      updateWaits, setOwner]
    refine ⟨trivial, fun a ha => ?_,
      .inr ⟨before, w, after, hsplit, hbefore, hafter, ?_, ?_, ?_, ?_⟩⟩
    · rw [hqueue, if_neg (Ne.symm ha), map_id]
      rfl
    · simp [Memory.store, hcount, mutexWaiters]
    · rw [owner, owners_signalResult,
        ← owner, owner_setOwner, if_pos rfl]
    · rw [hqueue, if_pos rfl]
      rfl
    · rw [pendingWaiters, hqueue, if_pos rfl]
      exact filter_pending_signalFor (hfiled.distinct mutex) hsplit

/-- A memory without faults in which the mutex at 0 is owned by the handle 1, with waiters; the
handle names thread 1. -/
def heldWorld : World where
  memory := ⟨fun _ => 1 ||| 2 ^ 30, fun _ => none, fun _ => none, fun _ => none⟩
  interference := []
  handles := fun handle => if handle = 1 then some 1 else none
  virtualTimeNs := 0

/-- Thread 2 waits with the tag 2, and thread 1 hands the mutex over. -/
theorem handoff_exact_held :
    (machine.run (.initial heldWorld) [.issue 2 (.arbitrateLock 1 0 2)]).waits.owner 0 = some 1 ∧
    (handoffMutex 1 0 true
      (machine.run (.initial heldWorld) [.issue 2 (.arbitrateLock 1 0 2)])).1 = .ok (.ok ()) := by
  have howner : (machine.run (.initial heldWorld)
      [.issue 2 (.arbitrateLock 1 0 2)]).waits.owner 0 = some 1 := by decide +kernel
  refine ⟨howner, ?_⟩
  rcases (handoff_exact heldWorld [.issue 2 (.arbitrateLock 1 0 2)] 1 0 true howner
    (by decide +kernel)).ok_or_err with ⟨written, hok, hwritten, -⟩ | ⟨_, -, h⟩
  · rw [hok, hwritten]
  · exact h.elim

/-- Thread 2 waits alone, with a tag that has the waiters bit: the bit is set in the word although
nobody else waits. -/
theorem handoff_tagged :
    let s := machine.run (.initial heldWorld) [.issue 2 (.arbitrateLock 1 0 (2 ^ 30 + 2))]
    s.waits.owner 0 = some 1 ∧ (pendingWaiters s.waits 0).length = 1 ∧
      ((handoffMutex 1 0 true s).2.memory.word 0).testBit 30 = true := by
  decide +kernel

end Nixe.MutexWait
