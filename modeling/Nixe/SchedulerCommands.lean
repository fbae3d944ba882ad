/-
**The commands of the scheduler keep its invariant.**

A command either is rejected and leaves the state as it was, or ends in a state in which the
invariant holds again; in neither case does one of its `expect` calls or assertions fire.  A proof
runs the command symbolically, one check of the source after the other, and ends with the lemma on
the one thread that changed.  `MakeReady` is the only command that needs a hypothesis.

Main definitions:

* `Keeps` — no panic, the invariant afterwards, and no change on an error.

Main results:

* `keeps_makeReady` — for a thread that holds neither a lease nor a wait token;
* `keeps_select`, `keeps_complete`, … — for any arguments.
-/

import Nixe.SchedulerInvariant

set_option autoImplicit false

namespace Nixe.Scheduler

open Std (TreeMap TreeSet)
open SchedulerState (keyOf_of leaseOf_of)

/-! ### The statements that the commands share -/

/-- A command that meets the invariant: it does not panic, keeps the invariant, and leaves the
state alone when it is rejected. -/
def Keeps (c : SchedulerCall SchedulerDecision) (s : SchedulerState) : Prop :=
  Call.Ensures c s (fun _ s' => Inv s') (fun _ s' => s' = s)

theorem transitionThread_ready {l l' : ThreadLifecycle}
    (h : (transitionThread l .ready).toOption = some l') : l ≠ .ready ∧ l' = .ready := by
  cases l <;> cases l' <;> simp_all [transitionThread, transitionAllowed, Except.toOption]

@[simp] theorem removeReadyKey_run (o : Option ReadyKey) (s : SchedulerState) :
    removeReadyKey o s = (.ok (), { s with ready := o.elim s.ready s.ready.erase }) := by
  cases o <;> simp [removeReadyKey, removeReady]

variable {s : SchedulerState} {id : GuestThreadId}

theorem allocateSequence_ok {n : ℕ} (h : checkedAdd s.nextSequence 1 = some n) :
    allocateSequence s = (.ok s.nextSequence, { s with nextSequence := n }) := by
  simp [allocateSequence, h]

theorem allocateSequence_err (h : checkedAdd s.nextSequence 1 = none) :
    allocateSequence s = (.err .sequenceExhausted, s) := by
  simp [allocateSequence, h]

theorem validatePolicy_cases (config : ScheduledThreadConfig) (s : SchedulerState) :
    validatePolicy config s = (.ok (), s) ∨ ∃ e, validatePolicy config s = (.err e, s) := by
  simp only [validatePolicy, Call.bind_run, Call.read_run]
  rcases config.affinity.cores.find? fun vcpu => !s.profile.contains vcpu with _ | v
  · rcases s.profile.priorities.contains config.basePriority with _ | _
    · exact .inr ⟨_, rfl⟩
    rcases s.profile.priorities.contains config.effectivePriority with _ | _
    · exact .inr ⟨_, rfl⟩
    rcases config.idealVcpu.filter fun ideal => !config.affinity.contains ideal with _ | i
    · exact .inl rfl
    · exact .inr ⟨_, rfl⟩
  · exact .inr ⟨_, rfl⟩

/-! ### The commands -/

attribute [local simp] Call.Ensures TreeMap.getElem?_insert setThread setSlot insertReady
  expectTransition enqueueExistingWithSequence transitionAllowed beq_eq_decide

theorem keeps_register (hs : Inv s) (config : ScheduledThreadConfig) :
    Keeps (register config) s := by
  unfold Keeps register
  rcases hc : s.threads.contains config.thread with _ | _
  · rcases validatePolicy_cases config s with hv | ⟨e, hv⟩
    · have hnone : s.threads[config.thread]? = none :=
        TreeMap.getElem?_eq_none_of_contains_eq_false hc
      simp [hc, hv]
      refine hs.replace config.thread (some ⟨config, .created, none, none, none, none⟩)
        (fun i => by simp) ?_ ?_ ?_
      · rintro t ⟨rfl⟩
        exact ⟨by simp, by simp, by simp, by simp, by simp, by simp⟩
      · intro k
        have := hs.mem_ready_replace config.thread none (by simp) k
        simpa [SchedulerState.keyOf, hnone] using this
      · exact hs.slot_keep (by simp [SchedulerState.leaseOf, hnone])
    · simp [hc, hv]
  · simp [hc]

theorem keeps_unregister (hs : Inv s) : Keeps (unregister id) s := by
  unfold Keeps unregister
  rcases ht : s.threads[id]? with _ | t
  · simp [ht]
  rcases hl : t.activeLease with _ | L
  · simp [ht, hl]
    refine hs.replace id none (fun i => by simp [TreeMap.getElem?_erase]) (by simp) ?_ ?_
    · intro k
      have := hs.mem_ready_replace id none (by simp) k
      simpa [mem_ready_removed, keyOf_of ht] using this
    · exact hs.slot_keep (by rw [leaseOf_of ht, hl]; rfl)
  · simp [ht, hl]

theorem keeps_makeReady (hs : Inv s)
    (hfree : ∀ t, s.threads[id]? = some t → t.activeLease = none ∧ t.activeWait = none) :
    Keeps (makeReady id) s := by
  unfold Keeps makeReady tryTransition allocateSequence
  rcases ht : s.threads[id]? with _ | t
  · simp [ht]
  rcases hl : (transitionThread t.lifecycle .ready).toOption with _ | l
  · simp [ht, hl]
  rcases hq : checkedAdd s.nextSequence 1 with _ | n
  · simp [ht, hl, hq]
  obtain ⟨hne, rfl⟩ := transitionThread_ready hl
  obtain ⟨hlease, hwait⟩ := hfree t ht
  have hrun : t.lifecycle ≠ .running := by
    intro h
    simpa [hlease] using (hs.threadOk id t ht).lease_iff.2 h
  simp [ht, hl, hq, hs.not_contains_ready ht hne]
  exact hs.enqueue ht hne hrun s.nextSequence (fun i => by simp [hwait]) (by simp) rfl

theorem keeps_select (hs : Inv s) (vcpu : VirtualCpuId) : Keeps (select vcpu) s := by
  unfold Keeps select
  rcases hv : s.vcpus[vcpu]? with _ | slot
  · simp [hv]
  rcases hl : slot.lease with _ | L
  swap
  · simp [hv, hl]
  rcases hk : s.ready.toList.find? fun key =>
      s.threads[key.thread]?.any fun thread => thread.config.affinity.contains vcpu with _ | k
  · simp [hv, hl, hk, hs]
  rcases hg : checkedAdd s.nextLeaseGeneration 1 with _ | n
  · simp [hv, hl, hk, allocateLeaseGeneration, hg]
  have hmem : k ∈ s.ready := by simpa using List.mem_of_find?_eq_some hk
  have hc : s.ready.contains k = true := by simpa using hmem
  obtain ⟨t, ht, hkey, hready⟩ := hs.exists_of_mem_ready hmem
  simp [hv, hl, hk, allocateLeaseGeneration, hg, removeReady, hc, ht, hready, transitionThread,
    Except.toOption]
  exact hs.grant ⟨t.config.process, k.thread, vcpu, s.nextLeaseGeneration⟩ ht hready
    (by simp [SchedulerState.leaseForVcpu, hv, hl]) (fun i => by simp)
    (by simp [hkey]) rfl

theorem keeps_selectNext (hs : Inv s) : Keeps selectNext s := by
  unfold Keeps selectNext
  rcases hk : s.ready.toList.find? fun key =>
      s.threads[key.thread]?.any fun thread => thread.config.affinity.cores.any s.idle with _ | k
  · simp [hk, hs]
  have hmem : k ∈ s.ready := by simpa using List.mem_of_find?_eq_some hk
  obtain ⟨t, ht, -, -⟩ := hs.exists_of_mem_ready hmem
  have hany : t.config.affinity.cores.any s.idle = true := by
    have := List.find?_some hk
    simpa [ht] using this
  -- the last alternative of the target is the first idle core, which exists
  have hfind : (t.config.affinity.cores.find? s.idle).isSome := by
    simpa using hany
  obtain ⟨v, hv⟩ := Option.isSome_iff_exists.1 (show ((Option.or (Option.or
      (t.config.idealVcpu.filter s.idle)
      (t.lastVcpu.filter fun vcpu => t.config.affinity.contains vcpu && s.idle vcpu))
      (t.config.affinity.cores.find? s.idle)).isSome) by simp [hfind])
  have hsel := keeps_select hs v
  unfold Keeps Call.Ensures at hsel
  simpa [hk, ht, hv] using hsel

/-- The lifecycle of a running thread that completes. -/
def Completion.lifecycle : Completion → ThreadLifecycle
  | .ready => .ready
  | .preempted => .ready
  | .waiting => .waiting
  | .exited => .exited
  | .faulted => .faulted

theorem completedLifecycle_running (outcome : Completion) (s : SchedulerState) :
    completedLifecycle .running outcome s = (.ok outcome.lifecycle, s) := by
  cases outcome <;> rfl

theorem completionSequence_cases (outcome : Completion) (s : SchedulerState) :
    (outcome.lifecycle ≠ .ready ∧ completionSequence outcome s = (.ok none, s)) ∨
    (outcome.lifecycle = .ready ∧ ∃ n, completionSequence outcome s =
      (.ok (some s.nextSequence), { s with nextSequence := n })) ∨
    completionSequence outcome s = (.err .sequenceExhausted, s) := by
  have halloc : (∃ n, allocateSequence s = (.ok s.nextSequence, { s with nextSequence := n })) ∨
      allocateSequence s = (.err .sequenceExhausted, s) := by
    rcases hq : checkedAdd s.nextSequence 1 with _ | n
    · exact .inr (allocateSequence_err hq)
    · exact .inl ⟨n, allocateSequence_ok hq⟩
  rcases halloc with ⟨n, h⟩ | h <;> cases outcome <;>
    simp [completionSequence, Completion.requeues, Completion.lifecycle, h]

section

variable (hs : Inv s) {priority : ℤ}
include hs

theorem keeps_complete (lease : Lease) (outcome : Completion) :
    Keeps (complete lease outcome) s := by
  unfold Keeps complete
  rcases ht : s.threads[lease.thread]? with _ | t
  · simp [ht]
  rcases hl : t.activeLease != some lease with _ | _
  swap
  · simp [ht, hl]
  have hl' : t.activeLease = some lease := by simpa using hl
  have hlease : s.leaseOf lease.thread = some lease := by rw [leaseOf_of ht, hl']
  have hslot : s.leaseForVcpu lease.vcpu = some lease := (hs.slot_iff _ _).2 ⟨hlease, rfl⟩
  obtain ⟨slot, hv, -⟩ := Option.bind_eq_some_iff.1 hslot
  have hok := hs.threadOk _ t ht
  have hrun : t.lifecycle = .running := hok.lease_iff.1 (by simp [hl'])
  have hkey := hok.readyKey_none (by simp [hrun])
  have hwait := hok.activeWait_none (by simp [hrun])
  have hkeyOf : s.keyOf lease.thread = none := by rw [keyOf_of ht, hkey]
  rcases completionSequence_cases outcome s with ⟨hne, hq⟩ | ⟨heq, n, hq⟩ | hq
  · simp [ht, hl, hslot, hq, hv, hrun, completedLifecycle_running]
    refine hs.release hlease hkeyOf
      { t with activeLease := none, lastVcpu := some lease.vcpu, lifecycle := outcome.lifecycle }
      ?_ rfl ?_ rfl ?_
    · exact ⟨by simp [hkey, hne], by simp [hkey], by simp [hkey],
        by cases outcome <;> simp [Completion.lifecycle], by simp, by simp [hwait]⟩
    · intro i
      by_cases hi : lease.thread = i <;> simp [hi]
    · simp [hkey]
  · have hc := hs.not_contains_ready ht (by simp [hrun]) t.config.effectivePriority s.nextSequence
    simp [ht, hl, hslot, hq, hv, hrun, completedLifecycle_running, hc]
    refine hs.release hlease hkeyOf { t with
        activeLease := none
        lastVcpu := some lease.vcpu
        lifecycle := outcome.lifecycle
        readyKey := some ⟨t.config.effectivePriority, s.nextSequence, lease.thread⟩ }
      ?_ rfl ?_ rfl ?_
    · exact ⟨by simp [heq], by simp, by simp, by simp [heq], by simp, by simp [hwait]⟩
    · intro i
      by_cases hi : lease.thread = i <;> simp [hi]
    · simp [or_comm]
  · simp [ht, hl, hslot, hq]

theorem keeps_registerWait {readiness : Readiness} : Keeps (registerWait id readiness) s := by
  unfold Keeps registerWait
  rcases ht : s.threads[id]? with _ | t
  · simp [ht]
  rcases hl : t.lifecycle != .waiting with _ | _
  swap
  · simp [ht, hl]
  have hl' : t.lifecycle = .waiting := by simpa using hl
  rcases hw : t.activeWait with _ | w
  swap
  · simp [ht, hl, hw]
  have hok := hs.threadOk id t ht
  cases readiness with
  | ready =>
    rcases hq : checkedAdd s.nextSequence 1 with _ | n
    · simp [ht, hl, hw, allocateSequence_err hq]
    have hc := hs.not_contains_ready ht (by simp [hl']) t.config.effectivePriority s.nextSequence
    simp [ht, hw, allocateSequence_ok hq, hl', transitionThread, Except.toOption, hc]
    refine hs.enqueue ht (by simp [hl']) (by simp [hl']) s.nextSequence ?_ (by simp) rfl
    intro i
    by_cases hi : id = i <;> simp [hi]
  | pending =>
    rcases hg : checkedAdd s.nextWakeGeneration 1 with _ | n
    · simp [ht, hl, hw, allocateWakeGeneration, hg]
    simp [ht, hl, hw, allocateWakeGeneration, hg]
    exact hs.touch ht { t with activeWait := some ⟨id, s.nextWakeGeneration⟩ }
      ⟨hok.key_iff, hok.key_thread, hok.key_priority, hok.lease_iff, hok.lease_thread,
        fun _ => hl'⟩ rfl rfl (fun i => by simp) rfl rfl

theorem keeps_finishWait {token : WakeToken} {cancelled : Bool} :
    Keeps (finishWait token cancelled) s := by
  unfold Keeps finishWait
  rcases ht : s.threads[token.thread]? with _ | t
  · simp [ht]
  rcases hw : t.activeWait != some token with _ | _
  swap
  · simp [ht, hw]
  have hw' : t.activeWait = some token := by simpa using hw
  have hl : t.lifecycle = .waiting := (hs.threadOk _ t ht).wait_waiting (by simp [hw'])
  rcases hq : checkedAdd s.nextSequence 1 with _ | n
  · simp [ht, hw, allocateSequence_err hq]
  have hc := hs.not_contains_ready ht (by simp [hl]) t.config.effectivePriority s.nextSequence
  simp [ht, hw, allocateSequence_ok hq, hl, transitionThread, Except.toOption, hc]
  refine hs.enqueue ht (by simp [hl]) (by simp [hl]) s.nextSequence ?_ (by simp) rfl
  intro i
  by_cases hi : token.thread = i <;> simp [hi]

theorem keeps_migrate {idealVcpu : Option VirtualCpuId} {affinity : CoreSet} :
    Keeps (migrate id idealVcpu affinity) s := by
  unfold Keeps migrate
  rcases idealVcpu.filter fun ideal => !affinity.contains ideal with _ | i
  swap
  · simp
  rcases hv : affinity.cores.find? fun vcpu => !s.profile.contains vcpu with _ | v
  swap
  · simp [hv]
  rcases ht : s.threads[id]? with _ | t
  · simp [hv, ht]
  rcases hl : t.activeLease with _ | L
  swap
  · simp [hv, ht, hl]
  have hok := hs.threadOk id t ht
  simp [hv, ht, hl]
  exact hs.touch ht { t with config := { t.config with idealVcpu, affinity } }
    ⟨hok.key_iff, hok.key_thread, hok.key_priority, hok.lease_iff, hok.lease_thread,
      hok.wait_waiting⟩ rfl rfl (fun i => by simp [hl]) rfl rfl

/-- The old key is the only one of its thread, so the thread can be filed under another priority. -/
theorem Inv.not_contains_rekeyed {t : ScheduledThread} (ht : s.threads[id]? = some t) {k : ReadyKey}
    (hk : t.readyKey = some k) (priority : ℤ) :
    (s.ready.erase k).contains { k with priority } = false := by
  rw [Bool.eq_false_iff, ne_eq, TreeSet.contains_iff_mem, TreeSet.mem_erase, hs.ready_iff]
  simp [(hs.threadOk id t ht).key_thread k hk, keyOf_of ht, hk]

theorem keeps_changePriority {write : ScheduledThreadConfig → ScheduledThreadConfig}
    (hwrite : ∀ config, (write config).effectivePriority = priority) :
    Keeps (changePriority id priority write) s := by
  unfold Keeps changePriority
  rcases hp : s.profile.priorities.contains priority with _ | _
  · simp [hp]
  rcases ht : s.threads[id]? with _ | t
  · simp [hp, ht]
  have hok := hs.threadOk id t ht
  rcases hk : t.readyKey with _ | k
  · simp [hp, ht, hk]
    exact hs.touch ht { t with config := write t.config }
      ⟨hok.key_iff, hok.key_thread, by simp [hk], hok.lease_iff, hok.lease_thread,
        hok.wait_waiting⟩ rfl rfl (fun i => by simp [hk]) rfl rfl
  · have hthread : k.thread = id := hok.key_thread k hk
    have hc := hs.not_contains_rekeyed ht hk priority
    simp [hp, ht, hk, hc]
    refine hs.rewrite ht
      { t with config := write t.config, readyKey := some { k with priority } } ?_ rfl rfl ?_ ?_
    · exact ⟨by simpa [hk] using hok.key_iff, by simp [hthread], by simp [hwrite], hok.lease_iff,
        hok.lease_thread, hok.wait_waiting⟩
    · intro i
      by_cases hi : id = i <;> simp [hi]
    · simp [hk, or_comm, and_comm]

theorem keeps_setPriority : Keeps (setPriority id priority) s := by
  exact keeps_changePriority hs fun _ => rfl

theorem keeps_setEffectivePriority : Keeps (setEffectivePriority id priority) s := by
  exact keeps_changePriority hs fun _ => rfl

theorem keeps_setActivity {paused : Bool} : Keeps (setActivity id paused) s := by
  unfold Keeps setActivity
  rcases ht : s.threads[id]? with _ | t
  · simp [ht]
  have hok := hs.threadOk id t ht
  rcases hl : t.activeLease with _ | L
  swap
  · simp [ht, hl]
  cases paused with
  | true =>
    by_cases hr : t.lifecycle = .ready
    swap
    · by_cases hsus : t.lifecycle = .suspended <;>
        simp [ht, hl, hr, hsus, bne]
    simp [ht, hl, hr]
    refine hs.rewrite ht { t with readyKey := none, lifecycle := .suspended } ?_ rfl rfl ?_ ?_
    · have hwait := hok.activeWait_none (by simp [hr])
      exact ⟨by simp, by simp, by simp, by simp [hl], by simp [hl], by simp [hwait]⟩
    · intro i
      by_cases hi : id = i <;> simp [hi, hl]
    · simp [mem_ready_removed]
  | false =>
    by_cases hsus : t.lifecycle = .suspended
    swap
    · by_cases hr : t.lifecycle = .ready <;>
        simp [ht, hl, hr, hsus, bne]
    rcases hq : checkedAdd s.nextSequence 1 with _ | n
    · simp [ht, hl, hsus, allocateSequence_err hq]
    have hc := hs.not_contains_ready ht (by simp [hsus]) t.config.effectivePriority s.nextSequence
    have hwait := hok.activeWait_none (by simp [hsus])
    simp [ht, hl, hsus, allocateSequence_ok hq, transitionThread, Except.toOption, hc]
    refine hs.enqueue ht (by simp [hsus]) (by simp [hsus]) s.nextSequence ?_ (by simp) rfl
    intro i
    by_cases hi : id = i <;> simp [hi, hl, hwait]

theorem keeps_terminate {faulted : Bool} : Keeps (terminate id faulted) s := by
  unfold Keeps terminate
  rcases ht : s.threads[id]? with _ | t
  · simp [ht]
  rcases hl : t.activeLease with _ | L
  swap
  · simp [ht, hl]
  have hmove : ∀ s', s'.vcpus = s.vcpus → s'.ready = t.readyKey.elim s.ready s.ready.erase →
      s'.threads = s.threads.insert id
        { t with lifecycle := terminated faulted, readyKey := none, activeWait := none } →
      Inv s' := by
    intro s' hvcpus hready hthreads
    refine hs.retire ht hl faulted ?_ hready hvcpus
    intro i
    by_cases hi : id = i <;> simp [hthreads]
  simp only [hl] at hmove
  cases faulted <;> cases hlc : t.lifecycle <;>
    simp [ht, hl, hlc, tryTransition, transitionThread, Except.toOption] <;>
    exact hmove _ rfl rfl rfl

end

end Nixe.Scheduler
