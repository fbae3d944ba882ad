/-
**What the scheduler answers.**

A command that is refused has changed nothing, in whatever state it was given.  And `SelectNext`
takes the first thread of the ready order that has an idle virtual CPU, on the virtual CPU that the
thread prefers: the inner `Select` looks for a thread again, by core, and finds the same one.  It
never fails, since each lease uses up a sequence number that some thread was made ready under, so
the sequence numbers run out before the lease generations do.

A thread that holds a lease can be made ready; when it exits, its key stays in the ready set, and
`SelectNext` panics.  The placement is therefore shown for the runs without such a `MakeReady`.

Main definitions:

* `Ordered` — an ideal core lies in the affinity, and leases and ready threads are no more than the
  sequences;
* `Candidate`, `Preferred` — what `SelectNext` may choose from, and the core it should take.

Main results:

* `refused_unchanged` — **an error leaves the whole state as it was**;
* `selectNext_places` — **placement is by priority, then by age, and conserves work**;
* `exited_stays_queued` — the run in which it panics.
-/
import Nixe.SchedulerRuns
import Nixe.SchedulerTokens

set_option autoImplicit false

namespace Nixe.Scheduler

open Std (TreeMap TreeSet)
open List Option Call Unfailing SchedulerState Std.TreeSet

/-! ### Refused commands -/

variable {write : ScheduledThreadConfig → ScheduledThreadConfig} {outcome : Completion}
  {idealVcpu : Option VirtualCpuId} {config : ScheduledThreadConfig} {readiness : Readiness}

section Refused

theorem reads_read : Reads (read : SchedulerCall SchedulerState) := fun _ => rfl

variable (id : GuestThreadId) {token : WakeToken} {cancelled : Bool}

theorem unfailing_insertReady {key : ReadyKey} : Unfailing (insertReady key) :=
  fun _ _ h => nomatch h

theorem unfailing_removeReadyKey {key : Option ReadyKey} : Unfailing (removeReadyKey key) :=
  .ifSome fun _ _ _ h => nomatch h

theorem unfailing_enqueue {sequence : SchedulerSequence} :
    Unfailing (enqueueExistingWithSequence id sequence) :=
  .read fun _ => .expect fun _ => .update
    (.bind unfailing_insertReady fun _ => unfailing_debugAssert)

/-- A counter moves when it is read, unless it is at its limit. -/
theorem atomic_allocateSequence : Atomic allocateSequence :=
  .read fun _ => .okOr fun _ => atomic (.update .pure)

theorem atomic_register : Atomic (register config) := by
  refine .read fun _ => .failIf (.check ?_ fun _ => atomic (.update .pure))
  exact reads_read.bind fun _ => reads_failWith.bind fun _ =>
    reads_failIf.bind fun _ => reads_failIf.bind fun _ => reads_failWith

theorem atomic_unregister : Atomic (unregister id) :=
  .read fun _ => .okOr fun _ => .failIf
    (atomic (.bind unfailing_removeReadyKey fun _ => .update .pure))

theorem atomic_makeReady : Atomic (makeReady id) :=
  .read fun _ => .okOr fun _ => .okOr fun _ => .commit atomic_allocateSequence fun _ =>
    .read fun _ => .expect fun _ => .update (.bind unfailing_insertReady fun _ =>
    .bind unfailing_debugAssert fun _ => .pure)

theorem atomic_select {vcpu : VirtualCpuId} : Atomic (select vcpu) := by
  refine .read fun _ => .okOr fun _ => .failIf (.read fun s => ?_)
  split
  · refine .commit (.read fun _ => .okOr fun _ => atomic (.update .pure)) fun _ => ?_
    exact .bind (fun _ _ h => nomatch h) fun _ => .bind unfailing_debugAssert fun _ =>
      .read fun _ => .expect fun _ => .expect fun _ => .update (.read fun _ => .expect fun _ =>
      .update .pure)
  · exact pure.atomic

theorem atomic_selectNext : Atomic selectNext := by
  refine .read fun s => ?_
  split
  · exact .check Call.reads_expect fun _ => .check reads_expect fun vcpu => atomic_select
  · exact pure.atomic

theorem unfailing_completedLifecycle {state : ThreadLifecycle} :
    Unfailing (completedLifecycle state outcome) := by
  cases outcome with
  | ready | waiting | faulted => exact unfailing_expect
  | preempted | exited => exact .expect fun _ => unfailing_expect

theorem atomic_complete {lease : Lease} : Atomic (complete lease outcome) := by
  refine .read fun _ => .okOr fun _ => .failIf (.read fun _ => .failIf (.commit ?_ fun _ => ?_))
  · unfold completionSequence
    split
    · exact .commit atomic_allocateSequence fun _ => .pure
    · exact pure.atomic
  · exact .read fun _ => .expect fun _ => .update (.read fun _ => .expect fun _ =>
      .update (.bind unfailing_completedLifecycle fun _ => .update
      (.bind (.ifSome fun _ => unfailing_enqueue _) fun _ => .pure)))

theorem atomic_registerWait : Atomic (registerWait id readiness) := by
  refine .read fun _ => .okOr fun _ => .failIf (.failIf ?_)
  split
  · exact .commit atomic_allocateSequence fun _ => .read fun _ => .expect fun _ =>
      .expect fun _ => .update (.bind (unfailing_enqueue _) fun _ => .pure)
  · exact .commit (.read fun _ => .okOr fun _ => atomic (.update .pure)) fun _ =>
      .read fun _ => .expect fun _ => .update .pure

theorem atomic_finishWait : Atomic (finishWait token cancelled) :=
  .read fun _ => .okOr fun _ => .failIf (.commit atomic_allocateSequence fun _ =>
    .read fun _ => .expect fun _ => .update (.expect fun _ => .update
    (.bind (unfailing_enqueue _) fun _ => .pure)))

theorem atomic_migrate {affinity : CoreSet} : Atomic (migrate id idealVcpu affinity) :=
  .check reads_failWith fun _ => .read fun _ => .check reads_failWith fun _ =>
    .read fun _ => .okOr fun _ => .failIf (atomic (.update .pure))

variable (priority : ℤ)

theorem atomic_changePriority : Atomic (changePriority id priority write) :=
  .read fun _ => .failIf (.read fun _ => .okOr fun _ => Unfailing.atomic
    (.bind unfailing_removeReadyKey fun _ => .read fun _ => .expect fun _ => .update
      (.bind (.ifSome fun _ => .update (.bind unfailing_insertReady fun _ =>
        unfailing_debugAssert)) fun _ => .pure)))

theorem atomic_setPriority : Atomic (setPriority id priority) := by
  exact atomic_changePriority id priority

theorem atomic_setEffectivePriority : Atomic (setEffectivePriority id priority) := by
  exact atomic_changePriority id priority

theorem atomic_setActivity {paused : Bool} : Atomic (setActivity id paused) := by
  refine .read fun _ => .okOr fun _ => .failIf (.failIf (.failIf ?_))
  split
  · exact atomic (.bind unfailing_removeReadyKey fun _ => .read fun _ =>
      .expect fun _ => .update (.expect fun _ => .update .pure))
  · exact .commit atomic_allocateSequence fun _ => .read fun _ => .expect fun _ =>
      .expect fun _ => .update (.bind (unfailing_enqueue _) fun _ => .pure)

theorem atomic_terminate {faulted : Bool} : Atomic (terminate id faulted) := by
  refine .read fun _ => .okOr fun _ => .failIf (.failIf ?_)
  have hrest : ∀ key lifecycle, Unfailing (do
      removeReadyKey key
      let thread ← expect (← read).threads[id]? "thread was validated"
      setThread id { thread with readyKey := none, activeWait := none, lifecycle }
      pure (SchedulerDecision.terminated id)) := fun _ _ =>
    .bind unfailing_removeReadyKey fun _ => .read fun _ => .expect fun _ => .update .pure
  cases faulted with
  | true => exact .okOr fun _ => (hrest _ _).atomic
  | false => exact .okOr fun _ => .check reads_expect fun _ => (hrest _ _).atomic

end Refused

/-- **Refused commands change nothing.**  Whatever the state, a command that returns an error leaves
the threads, the ready set, the slots and the three counters as they were. -/
theorem refused_unchanged (s : SchedulerState) (command : SchedulerCommand) (e : SchedulerError)
    (hrefused : (apply command s).1 = .err e) : (apply command s).2 = s := by
  have hatomic : Atomic (apply command) := by
    cases command with
    | register => exact atomic_register
    | unregister id => exact atomic_unregister id
    | makeReady id => exact atomic_makeReady id
    | selectNext => exact atomic_selectNext
    | select => exact atomic_select
    | complete => exact atomic_complete
    | registerWait id => exact atomic_registerWait id
    | wake => exact atomic_finishWait
    | cancelWait => exact atomic_finishWait
    | terminate id => exact atomic_terminate id
    | migrate id => exact atomic_migrate id
    | setPriority id priority => exact atomic_setPriority id priority
    | setEffectivePriority id priority => exact atomic_setEffectivePriority id priority
    | setActivity id => exact atomic_setActivity id
  exact hatomic s e hrefused

/-- The sequence numbers are used up, and a thread is to become ready. -/
theorem refused_unchanged_exhausted :
    let s := { machine.run (.new soloProfile) [.register soloThread] with nextSequence := u64Max }
    (apply (.makeReady 1) s).1 = .err .sequenceExhausted ∧ (apply (.makeReady 1) s).2 = s := by
  have hrefused : (apply (.makeReady 1)
      { machine.run (.new soloProfile) [.register soloThread] with nextSequence := u64Max }).1 =
        .err .sequenceExhausted := by decide +kernel
  exact ⟨hrefused, refused_unchanged _ _ _ hrefused⟩

/-! ### The order of the counters -/

/-- The ideal core of a thread is one it may run on. -/
def ScheduledThreadConfig.IdealAllowed (config : ScheduledThreadConfig) : Prop :=
  ∀ v, config.idealVcpu = some v → v ∈ config.affinity.cores

/-- Ideal cores lie in the affinities, and every lease that was handed out and every ready thread
accounts for a sequence number of its own. -/
structure Ordered (s : SchedulerState) : Prop where
  ideal : ∀ (id : GuestThreadId) (t : ScheduledThread), s.threads[id]? = some t →
    t.config.IdealAllowed
  counted : s.nextLeaseGeneration + s.ready.size ≤ s.nextSequence
  sequence_le : s.nextSequence ≤ u64Max

attribute [local simp] TreeMap.getElem?_insert setThread setSlot insertReady allocateSequence
  allocateLeaseGeneration expectTransition enqueueExistingWithSequence

section Ordered

variable {s : SchedulerState} {id : GuestThreadId} {t t' : ScheduledThread}
  {p : MachineSchedulerProfile} {m : TreeMap GuestThreadId ScheduledThread} {r : TreeSet ReadyKey}
  {v : TreeMap VirtualCpuId VirtualCpuSlot} {n nl nw : ℕ} {priority : ℤ}

theorem ordered_new {profile : MachineSchedulerProfile} : Ordered (.new profile) :=
  ⟨by simp [new], by simp [new], by simp [new, u64Max]⟩

section

variable (ho : Ordered s) {k : ReadyKey}
include ho

/-- One thread is written, with an ideal core that it may run on. -/
theorem Ordered.put (hideal : t'.config.IdealAllowed)
    (hm : ∀ i, id ≠ i → m[i]? = s.threads[i]?) (hcount : nl + r.size ≤ n) (hn : n ≤ u64Max) :
    Ordered ⟨p, m.insert id t', r, v, n, nl, nw⟩ := by
  refine ⟨?_, hcount, hn⟩
  intro i u hu
  by_cases hi : id = i
  · subst hi
    rw [TreeMap.getElem?_insert_self, some.injEq] at hu
    exact hu ▸ hideal
  · rw [TreeMap.getElem?_insert, if_neg (by simpa using hi), hm i hi] at hu
    exact ho.ideal i u hu

theorem Ordered.same_threads :
    Ordered ⟨p, s.threads, r, v, n, nl, nw⟩ ↔ nl + r.size ≤ n ∧ n ≤ u64Max :=
  ⟨fun h => ⟨h.counted, h.sequence_le⟩, fun h => ⟨ho.ideal, h.1, h.2⟩⟩

/-- A key is filed under a sequence number that was taken for it. -/
theorem Ordered.counted_insert :
    s.nextLeaseGeneration + (s.ready.insert k).size ≤ s.nextSequence + 1 := by
  have hsize := size_insert_le (t := s.ready) (k := k)
  have hcount := ho.counted
  omega

theorem Ordered.counted_removed (o : Option ReadyKey) :
    s.nextLeaseGeneration + (o.elim s.ready s.ready.erase).size ≤ s.nextSequence := by
  have hcount := ho.counted
  cases o with
  | none => exact hcount
  | some k =>
    have hsize := size_erase_le (t := s.ready) (k := k)
    simp only [elim_some]
    omega

/-- A key that is taken out makes room for a lease, or for another key. -/
theorem Ordered.counted_erase (hk : k ∈ s.ready) :
    s.nextLeaseGeneration + 1 + (s.ready.erase k).size ≤ s.nextSequence := by
  have hsize := size_erase (t := s.ready) (k := k)
  have hpos : s.ready.size ≠ 0 := by
    intro hzero
    have hempty : s.ready.isEmpty = true := by simp [isEmpty_eq_size_eq_zero, hzero]
    exact not_mem_of_isEmpty hempty hk
  have hcount := ho.counted
  rw [if_pos (by simpa using hk)] at hsize
  omega

theorem ordered_register : Spec (register config) s fun _ s' => Ordered s' := by
  simp [register, validatePolicy, ho]
  intro hnew hcores hbase heff hideal
  refine ho.put ?_ (fun _ _ => rfl) ho.counted ho.sequence_le
  intro v hv
  simpa [CoreSet.contains] using hideal v hv

theorem ordered_unregister : Spec (unregister id) s fun _ s' => Ordered s' := by
  simp [unregister, ho]
  intro t ht hl
  refine ⟨?_, ho.counted_removed _, ho.sequence_le⟩
  intro i u hu
  simp only [TreeMap.getElem?_erase] at hu
  split at hu
  · cases hu
  · exact ho.ideal i u hu

theorem ordered_makeReady : Spec (makeReady id) s fun _ s' => Ordered s' := by
  have hslack := Nat.le_succ_of_le ho.counted
  rcases ht : s.threads[id]? with _ | t
  · simp [makeReady, ht, ho]
  simp +contextual [makeReady, ht, tryTransition, ho, ho.same_threads, hslack]
  intro l hl hseq
  constructor <;> intro _ <;>
    exact ho.put (ho.ideal id t ht) (fun _ _ => rfl) ho.counted_insert hseq

theorem ordered_select {vcpu : VirtualCpuId} : Spec (select vcpu) s fun _ s' => Ordered s' := by
  rcases hv : s.vcpus[vcpu]? with _ | slot
  · simp [select, hv, ho]
  rcases hk : s.ready.toList.find? fun key =>
      s.threads[key.thread]?.any fun thread => thread.config.affinity.contains vcpu with _ | k
  · simp [select, hk, ho]
  have hmem : k ∈ s.ready := by simpa using mem_of_find?_eq_some hk
  have hcount := ho.counted_erase hmem
  rcases ht : s.threads[k.thread]? with _ | t
  · simp [select, hk, ht, ho, removeReady, ho.same_threads, hcount, ho.sequence_le]
  simp [select, hv, hk, ht, ho, removeReady, ho.same_threads, hcount, ho.sequence_le]
  intro hidle hgen hmem l hl
  constructor
  · exact ho.put (ho.ideal _ t ht) (fun _ _ => rfl) hcount ho.sequence_le
  · exact fun _ => ho.put (ho.ideal _ t ht) (fun _ _ => rfl) hcount ho.sequence_le

theorem ordered_selectNext : Spec selectNext s fun _ s' => Ordered s' := by
  rcases hk : s.ready.toList.find? fun key =>
      s.threads[key.thread]?.any fun thread => thread.config.affinity.cores.any s.idle with _ | k
  · simp [selectNext, hk, ho]
  simp [selectNext, hk, ho]
  intro t ht v hv
  exact ordered_select ho

/-- Filing a rewritten thread under a sequence that was taken for it. -/
theorem Ordered.file (ht : s.threads[id]? = some t)
    (hconfig : t'.config = t.config) (hm : ∀ i, id ≠ i → m[i]? = s.threads[i]?)
    (hn : s.nextSequence < u64Max) :
    Ordered ⟨p, m.insert id t', s.ready.insert k, v, s.nextSequence + 1, s.nextLeaseGeneration,
      nw⟩ := by
  refine ho.put ?_ hm ho.counted_insert hn
  rw [hconfig]
  exact ho.ideal id t ht

theorem ordered_complete {lease : Lease} :
    Spec (complete lease outcome) s fun _ s' => Ordered s' := by
  have hslack := Nat.le_succ_of_le ho.counted
  rcases ht : s.threads[lease.thread]? with _ | t
  · simp [complete, ht, ho]
  simp [complete, ht, ho, completionSequence]
  intro hl hslot
  obtain ⟨slot, hv, -⟩ := bind_eq_some_iff.1 hslot
  cases hr : outcome.requeues with
  | false =>
    simp [ht, hv, ho.same_threads, ho.counted, ho.sequence_le]
    refine spec_completedLifecycle _ fun out => ?_
    cases out <;> exact ho.put (ho.ideal _ t ht)
      (fun i hi => by simp [hi]) ho.counted ho.sequence_le
  | true =>
    simp +contextual [ht, hv, ho, ho.same_threads, hslack]
    intro hseq
    refine spec_completedLifecycle _ fun out => ?_
    cases out with
    | ok =>
      simp
      constructor <;> intro _ <;> exact ho.file ht rfl (fun i hi => by simp [hi]) hseq
    | err | panic => exact ho.put (ho.ideal _ t ht) (fun _ _ => rfl) hslack hseq

theorem ordered_registerWait : Spec (registerWait id readiness) s fun _ s' => Ordered s' := by
  have hslack := Nat.le_succ_of_le ho.counted
  rcases ht : s.threads[id]? with _ | t
  · simp [registerWait, ht, ho]
  cases readiness with
  | ready =>
    simp +contextual [registerWait, ht, ho, ho.same_threads, hslack]
    intro hwaiting hnone hseq l hl
    constructor <;> intro _ <;> exact ho.file ht rfl (fun i hi => by simp [hi]) hseq
  | pending =>
    simp [registerWait, ht, allocateWakeGeneration, ho.same_threads, ho.counted, ho.sequence_le]
    intro hwaiting hnone hgen
    exact ho.put (ho.ideal _ t ht) (fun _ _ => rfl) ho.counted ho.sequence_le

theorem ordered_finishWait {token : WakeToken} {cancelled : Bool} :
    Spec (finishWait token cancelled) s fun _ s' => Ordered s' := by
  have hslack := Nat.le_succ_of_le ho.counted
  rcases ht : s.threads[token.thread]? with _ | t
  · simp [finishWait, ht, ho]
  simp +contextual [finishWait, ht, ho, ho.same_threads, hslack]
  intro hw hseq
  refine ⟨fun l hl => ⟨fun _ => ?_, fun _ => ?_⟩, fun _ => ?_⟩
  · exact ho.file ht rfl (fun i hi => by simp [hi]) hseq
  · exact ho.file ht rfl (fun i hi => by simp [hi]) hseq
  · exact ho.put (ho.ideal _ t ht) (fun _ _ => rfl) hslack hseq

theorem ordered_migrate {affinity : CoreSet} :
    Spec (migrate id idealVcpu affinity) s fun _ s' => Ordered s' := by
  rcases ht : s.threads[id]? with _ | t
  · simp [migrate, ht, ho]
  simp [migrate, ht, ho]
  intro hideal hcores hl
  refine ho.put ?_ (fun _ _ => rfl) ho.counted ho.sequence_le
  intro v hv
  simpa [CoreSet.contains] using hideal v hv

end

/-- The new key of a thread takes the place of its old one. -/
theorem ordered_changePriority (hs : Inv s) (ho : Ordered s)
    (hwrite : ∀ config : ScheduledThreadConfig, config.IdealAllowed → (write config).IdealAllowed) :
    Spec (changePriority id priority write) s fun _ s' => Ordered s' := by
  rcases ht : s.threads[id]? with _ | t
  · simp [changePriority, ht, ho]
  have hideal := hwrite _ (ho.ideal id t ht)
  rcases hk : t.readyKey with _ | k
  · simp [changePriority, ht, hk, ho]
    exact fun _ => ho.put hideal (fun _ _ => rfl) ho.counted ho.sequence_le
  · have hmem : k ∈ s.ready := by
      rw [hs.ready_iff, (hs.threadOk id t ht).key_thread k hk, keyOf_of ht, hk]
    have hcount : s.nextLeaseGeneration + ((s.ready.erase k).insert { k with priority }).size ≤
        s.nextSequence := by
      have hsize := size_insert_le (t := s.ready.erase k) (k := { k with priority })
      have herase := ho.counted_erase hmem
      omega
    have hold : s.nextLeaseGeneration + (s.ready.erase k).size ≤ s.nextSequence :=
      ho.counted_removed (some k)
    simp [changePriority, ht, hk, ho, ho.same_threads, ho.sequence_le, hold]
    intro hp
    refine ⟨fun _ => ?_, fun _ _ => ?_⟩ <;>
      exact ho.put hideal (fun i hi => by simp [hi]) hcount ho.sequence_le

theorem ordered_setPriority (hs : Inv s) (ho : Ordered s) :
    Spec (setPriority id priority) s fun _ s' => Ordered s' := by
  exact ordered_changePriority hs ho fun _ h => h

theorem ordered_setEffectivePriority (hs : Inv s) (ho : Ordered s) :
    Spec (setEffectivePriority id priority) s fun _ s' => Ordered s' := by
  exact ordered_changePriority hs ho fun _ h => h

theorem ordered_setActivity (ho : Ordered s) {paused : Bool} :
    Spec (setActivity id paused) s fun _ s' => Ordered s' := by
  have hslack := Nat.le_succ_of_le ho.counted
  rcases ht : s.threads[id]? with _ | t
  · simp [setActivity, ht, ho]
  cases paused with
  | true =>
    have hold := ho.counted_removed t.readyKey
    simp [setActivity, ht, ho, ho.same_threads, hold, ho.sequence_le]
    intro hl hne hready
    refine ⟨fun l hl => ?_, fun _ => ?_⟩ <;>
      exact ho.put (ho.ideal _ t ht) (fun i hi => by simp [hi]) hold ho.sequence_le
  | false =>
    simp +contextual [setActivity, ht, ho, ho.same_threads, hslack]
    intro hl hne hsuspended hseq l hl
    constructor <;> intro _ <;> exact ho.file ht rfl (fun i hi => by simp [hi]) hseq

theorem ordered_terminate (ho : Ordered s) {faulted : Bool} :
    Spec (terminate id faulted) s fun _ s' => Ordered s' := by
  rcases ht : s.threads[id]? with _ | t
  · simp [terminate, ht, ho]
  have hold := ho.counted_removed t.readyKey
  cases faulted <;>
    simp [terminate, ht, tryTransition, ho, ho.same_threads, hold, ho.sequence_le] <;>
    intros <;>
    exact ho.put (ho.ideal _ t ht) (fun _ _ => rfl) hold ho.sequence_le

/-- **One step** keeps the counters in order. -/
theorem ordered_apply (hs : Inv s) (ho : Ordered s) {command : SchedulerCommand} :
    Ordered (apply command s).2 := by
  cases command with
  | register => exact ordered_register ho
  | unregister => exact ordered_unregister ho
  | makeReady => exact ordered_makeReady ho
  | selectNext => exact ordered_selectNext ho
  | select => exact ordered_select ho
  | complete => exact ordered_complete ho
  | registerWait => exact ordered_registerWait ho
  | wake => exact ordered_finishWait ho
  | cancelWait => exact ordered_finishWait ho
  | terminate => exact ordered_terminate ho
  | migrate => exact ordered_migrate ho
  | setPriority => exact ordered_setPriority hs ho
  | setEffectivePriority => exact ordered_setEffectivePriority hs ho
  | setActivity => exact ordered_setActivity ho

end Ordered

/-! ### Placement -/

/-- A ready thread that could run now: some core of its affinity is idle. -/
structure Candidate (s : SchedulerState) (id : GuestThreadId) (t : ScheduledThread) : Prop where
  registered : s.threads[id]? = some t
  ready : t.lifecycle = .ready
  idle : ∃ v ∈ t.config.affinity.cores, s.idle v

/-- The place of a thread in the order: its priority, the sequence it was filed under, its
identity. -/
def rank (id : GuestThreadId) (t : ScheduledThread) : Option (ℤ ×ₗ ℕ ×ₗ ℕ) :=
  t.readyKey.map fun key => toLex (t.config.effectivePriority, toLex (key.sequence, id))

/-- The core for a thread: an idle core of the affinity, namely the ideal one if it is idle, else
the last one if it is idle and allowed, else the smallest. -/
structure Preferred (s : SchedulerState) (t : ScheduledThread) (v : VirtualCpuId) : Prop where
  allowed : v ∈ t.config.affinity.cores
  idle : s.idle v
  ideal : ∀ i, t.config.idealVcpu = some i → s.idle i → v = i
  last : (∀ i, t.config.idealVcpu = some i → ¬ s.idle i) → ∀ l, t.lastVcpu = some l →
    l ∈ t.config.affinity.cores → s.idle l → v = l
  smallest : (∀ i, t.config.idealVcpu = some i → ¬ s.idle i) →
    (∀ l, t.lastVcpu = some l → l ∈ t.config.affinity.cores → ¬ s.idle l) →
    ∀ w ∈ t.config.affinity.cores, s.idle w → v ≤ w

section Placement

variable {s : SchedulerState} {t : ScheduledThread} {k : ReadyKey} {id : GuestThreadId}

/-- Two searches of one list agree if the narrower test accepts what the wider one found. -/
theorem find?_narrow {α : Type} {p q : α → Bool} {l : List α} {a : α} (h : l.find? p = some a)
    (ha : q a) (himp : ∀ b, q b → p b) : l.find? q = some a := by
  rw [find?_eq_some_iff_append] at h ⊢
  obtain ⟨-, before, after, rfl, hbefore⟩ := h
  refine ⟨ha, before, after, rfl, fun b hb => ?_⟩
  have hp := hbefore b hb
  by_contra hq
  simp [himp b (by simpa using hq)] at hp

/-- The three alternatives of the target, in the order of the preference. -/
theorem exists_preferred (hideal : t.config.IdealAllowed)
    (hidle : ∃ v ∈ t.config.affinity.cores, s.idle v) :
    ∃ v, ((t.config.idealVcpu.filter s.idle).or (t.lastVcpu.filter fun vcpu =>
      t.config.affinity.contains vcpu && s.idle vcpu)).or
        (t.config.affinity.cores.find? s.idle) = some v ∧ Preferred s t v := by
  rcases hi : t.config.idealVcpu.filter s.idle with _ | i
  · have hnone : ∀ i, t.config.idealVcpu = some i → ¬ s.idle i := by
      simpa [filter_eq_none_iff] using hi
    rcases hl : t.lastVcpu.filter fun vcpu => t.config.affinity.contains vcpu && s.idle vcpu
      with _ | l
    · have hlast : ∀ l, t.lastVcpu = some l → l ∈ t.config.affinity.cores → ¬ s.idle l := by
        simpa [filter_eq_none_iff, CoreSet.contains] using hl
      obtain ⟨v, hv⟩ := isSome_iff_exists.1 (find?_isSome.2 hidle)
      obtain ⟨hvidle, before, after, hcores, hbefore⟩ := find?_eq_some_iff_append.1 hv
      refine ⟨v, by simp [hv], mem_of_find?_eq_some hv, hvidle,
        fun i hi h => absurd h (hnone i hi), fun _ l hl hmem h => absurd h (hlast l hl hmem), ?_⟩
      -- the affinity is in increasing order, and nothing before the first idle core is idle
      intro _ _ w hw hwidle
      have hsorted := t.config.affinity.cores_sorted
      rw [hcores] at hw hsorted
      rcases mem_append.1 hw with hw | hw
      · have hbusy := hbefore w hw
        simp [hwidle] at hbusy
      · rcases mem_cons.1 hw with rfl | hw
        · exact le_rfl
        · exact ((pairwise_cons.1 (pairwise_append.1 hsorted).2.1).1 w hw).le
    · obtain ⟨hlast, hgood⟩ := filter_eq_some_iff.1 hl
      simp only [CoreSet.contains, Bool.and_eq_true, decide_eq_true_eq] at hgood
      refine ⟨l, by simp, hgood.1, hgood.2, fun i hi h => absurd h (hnone i hi), ?_, ?_⟩
      · intro _ l' hl' _ _
        exact some.inj (hlast.symm.trans hl')
      · exact fun _ h => absurd hgood.2 (h l hlast hgood.1)
  · obtain ⟨hconfig, hidle⟩ := filter_eq_some_iff.1 hi
    refine ⟨i, by simp, hideal i hconfig, hidle, ?_, ?_, ?_⟩
    · intro j hj _
      exact some.inj (hconfig.symm.trans hj)
    · exact fun h => absurd hidle (h i hconfig)
    · exact fun h => absurd hidle (h i hconfig)

/-- The scan of `SelectNext` meets exactly the candidates. -/
theorem Inv.candidate_iff (hs : Inv s) (ht : s.threads[k.thread]? = some t)
    (hk : t.readyKey = some k) : Candidate s k.thread t ↔ (s.threads[k.thread]?.any fun thread =>
      thread.config.affinity.cores.any s.idle) = true := by
  have hready := (hs.threadOk _ t ht).key_iff.1 (by simp [hk])
  constructor
  · intro h
    simpa [ht] using h.idle
  · intro h
    exact ⟨ht, hready, by simpa [ht] using h⟩

/-- A candidate has a key in the ready set, made of its priority and its identity. -/
theorem Inv.key_of_candidate (hs : Inv s) (hc : Candidate s id t) :
    ∃ k ∈ s.ready, k.thread = id ∧ t.readyKey = some k := by
  have hok := hs.threadOk id t hc.registered
  obtain ⟨k, hk⟩ := isSome_iff_exists.1 (hok.key_iff.2 hc.ready)
  refine ⟨k, ?_, hok.key_thread k hk, hk⟩
  rw [hs.ready_iff, hok.key_thread k hk, keyOf_of hc.registered, hk]

theorem Inv.rank_of_key (hs : Inv s) (ht : s.threads[id]? = some t)
    (hk : t.readyKey = some k) :
    rank id t = some (toLex (k.priority, toLex (k.sequence, k.thread))) := by
  have hok := hs.threadOk id t ht
  simp [rank, hk, hok.key_priority k hk, hok.key_thread k hk]

/-- The order of the ready set is the order of the ranks. -/
theorem toLex_le_of_compare {a b : ReadyKey} (h : compare a b = .lt) :
    toLex (a.priority, toLex (a.sequence, a.thread)) ≤
      toLex (b.priority, toLex (b.sequence, b.thread)) := by
  have h' : compareLex (compareOn ReadyKey.priority)
    (compareLex (compareOn ReadyKey.sequence) (compareOn ReadyKey.thread)) a b = .lt := h
  simp only [compareLex, compareOn, Ordering.then_eq_lt, compare_lt_iff_lt, compare_eq_iff_eq] at h'
  rw [Prod.Lex.toLex_le_toLex, Prod.Lex.toLex_le_toLex]
  rcases h' with h | ⟨hp, h | ⟨hq, h⟩⟩
  · exact .inl h
  · exact .inr ⟨hp, .inl h⟩
  · exact .inr ⟨hp, .inr ⟨hq, h.le⟩⟩

/-- The answer leases the core to the thread, under the next generation. -/
def Leased (s : SchedulerState) (t : ScheduledThread) (id : GuestThreadId) (v : VirtualCpuId)
    (out : Outcome SchedulerError SchedulerDecision) (s' : SchedulerState) : Prop :=
  out = .ok (.selected (some ⟨t.config.process, id, v, s.nextLeaseGeneration⟩)) ∧
    s'.leaseOf id = some ⟨t.config.process, id, v, s.nextLeaseGeneration⟩ ∧
    s'.leaseForVcpu v = some ⟨t.config.process, id, v, s.nextLeaseGeneration⟩

/-- What the inner `Select` does with the core that was chosen for the first candidate. -/
theorem select_run (hs : Inv s) (ho : Ordered s) {v : VirtualCpuId}
    (ht : s.threads[k.thread]? = some t) (hmem : k ∈ s.ready) (hidle : s.idle v)
    (hfind : (s.ready.toList.find? fun key => s.threads[key.thread]?.any fun thread =>
      thread.config.affinity.contains v) = some k) :
    Spec (select v) s (Leased s t k.thread v) := by
  obtain ⟨slot, hslot, hfree⟩ := (any_eq_true _ _).1 hidle
  obtain ⟨t', ht', -, hready⟩ := hs.exists_of_mem_ready hmem
  obtain rfl : t = t' := some.inj (ht.symm.trans ht')
  have hgen : checkedAdd s.nextLeaseGeneration 1 = some (s.nextLeaseGeneration + 1) := by
    rw [checkedAdd_eq_some]
    have hcount := ho.counted_erase hmem
    have hle := ho.sequence_le
    omega
  have hlease : slot.lease = none := by simpa using hfree
  have hin : s.ready.contains k = true := by simpa using hmem
  simp [Spec, Leased, select, hslot, hlease, hfind, hgen, removeReady, hin, ht, hready,
    transitionThread, transitionAllowed, Except.toOption, leaseOf, leaseForVcpu]

/-- `SelectNext` in a consistent state whose counters are in order. -/
theorem selectNext_run (hs : Inv s) (ho : Ordered s) :
    ((apply .selectNext s).1 = .ok (.selected none) ↔ ¬ ∃ id t, Candidate s id t) ∧
    ((∃ id t, Candidate s id t) → ∃ id t r v, Candidate s id t ∧ rank id t = some r ∧
      (∀ id' t', Candidate s id' t' → ∃ r', rank id' t' = some r' ∧ r ≤ r') ∧ Preferred s t v ∧
      Spec (apply .selectNext) s (Leased s t id v)) := by
  rcases hk : s.ready.toList.find? fun key =>
      s.threads[key.thread]?.any fun thread => thread.config.affinity.cores.any s.idle with _ | k
  · have hnone : ¬ ∃ id t, Candidate s id t := by
      rintro ⟨id, t, hc⟩
      obtain ⟨k, hmem, rfl, hkey⟩ := hs.key_of_candidate hc
      have := find?_eq_none.1 hk k (by simpa using hmem)
      exact this ((hs.candidate_iff hc.registered hkey).1 hc)
    refine ⟨⟨fun _ => hnone, fun _ => ?_⟩, fun h => absurd h hnone⟩
    simp [apply, selectNext, hk]
  · obtain ⟨hfound, before, after, hlist, hbefore⟩ := find?_eq_some_iff_append.1 hk
    have hmem : k ∈ s.ready := by simpa using mem_of_find?_eq_some hk
    obtain ⟨t, ht, hkey, hready⟩ := hs.exists_of_mem_ready hmem
    have hc : Candidate s k.thread t := (hs.candidate_iff ht hkey).2 hfound
    obtain ⟨v, htarget, hv⟩ := exists_preferred (ho.ideal _ t ht) hc.idle
    -- the core is idle, so a thread that may run on it is a candidate
    have hwider : ∀ key : ReadyKey, (s.threads[key.thread]?.any fun thread =>
        thread.config.affinity.contains v) → s.threads[key.thread]?.any fun thread =>
        thread.config.affinity.cores.any s.idle := by
      intro key hkey
      obtain ⟨u, hu, hcontains⟩ := (any_eq_true _ _).1 hkey
      rw [hu, any_some, List.any_eq_true]
      exact ⟨v, by simpa [CoreSet.contains] using hcontains, hv.idle⟩
    have hsel := select_run hs ho ht hmem hv.idle (find?_narrow hk
      (by simpa [ht, CoreSet.contains] using hv.allowed) hwider)
    have hrun : Spec (apply .selectNext) s (Leased s t k.thread v) := by
      simpa [Spec, apply, selectNext, hk, ht, htarget] using hsel
    refine ⟨?_, fun _ => ⟨k.thread, t, _, v, hc, hs.rank_of_key ht hkey, ?_, hv, hrun⟩⟩
    · rw [hrun.1]
      simp only [Outcome.ok.injEq, SchedulerDecision.selected.injEq, reduceCtorEq, false_iff,
        not_not]
      exact ⟨_, t, hc⟩
    · intro id' t' hc'
      obtain ⟨k', hmem', rfl, hkey'⟩ := hs.key_of_candidate hc'
      refine ⟨_, hs.rank_of_key hc'.registered hkey', ?_⟩
      -- the scan stopped at `k`, and goes by the order of the set
      have hin : k' ∈ before ++ k :: after := by
        rw [← hlist]
        simpa using hmem'
      have hsorted := ordered_toList (t := s.ready)
      rw [hlist] at hsorted
      rcases mem_append.1 hin with hin | hin
      · have := hbefore k' hin
        simp [(hs.candidate_iff hc'.registered hkey').1 hc'] at this
      · rcases mem_cons.1 hin with rfl | hin
        · exact le_rfl
        · exact toLex_le_of_compare
            ((pairwise_cons.1 (pairwise_append.1 hsorted).2.1).1 k' hin)

end Placement

/-- **Placement.**  In every state of a run in which no thread is made ready while it holds a lease
or a wait token, `SelectNext` answers `None` iff there is no candidate.  Otherwise it leases the
candidate of the least rank, on the core that this candidate prefers. -/
theorem selectNext_places (profile : MachineSchedulerProfile) (commands : List SchedulerCommand)
    (hpermitted : machine.Guarded Permitted (.new profile) commands) :
    let s := machine.run (.new profile) commands
    ((apply .selectNext s).1 = .ok (.selected none) ↔ ¬ ∃ id t, Candidate s id t) ∧
    ((∃ id t, Candidate s id t) → ∃ id t r v, Candidate s id t ∧ rank id t = some r ∧
      (∀ id' t', Candidate s id' t' → ∃ r', rank id' t' = some r' ∧ r ≤ r') ∧ Preferred s t v ∧
      Spec (apply .selectNext) s (Leased s t id v)) := by
  have hinv : Inv (machine.run (.new profile) commands) ∧
      Ordered (machine.run (.new profile) commands) := by
    refine Machine.run_invariant (I := fun s => Inv s ∧ Ordered s) ?_ commands _
      ⟨inv_new profile, ordered_new⟩ hpermitted
    intro s command ⟨hs, ho⟩ hc
    exact ⟨(keeps_apply hs hc).state (fun _ _ h => h) fun _ _ h => h ▸ hs, ordered_apply hs ho⟩
  exact selectNext_run hinv.1 hinv.2

def duoProfile : MachineSchedulerProfile :=
  { soloProfile with
    vcpus := [⟨0, 0⟩, ⟨1, 1⟩]
    vcpus_ne_nil := by decide
    vcpus_sorted := by decide }

def duoThread (id : GuestThreadId) (priority : ℤ) (ideal : Option VirtualCpuId) :
    ScheduledThreadConfig :=
  ⟨1, id, priority, priority, ideal, ⟨[0, 1], by decide, by decide⟩⟩

/-- Two threads become ready; the second one goes first, and would run on the second CPU. -/
def duoRun : List SchedulerCommand :=
  [.register (duoThread 1 20 none), .register (duoThread 2 10 (some 1)), .makeReady 1, .makeReady 2]

theorem permitted_of_all {s : SchedulerState} {id : GuestThreadId} (h : (s.threads[id]?.all fun t =>
      t.activeLease.isNone && t.activeWait.isNone) = true) : Permitted s (.makeReady id) := by
  intro _ t ht
  rw [ht] at h
  simpa using h

/-- `SelectNext` leaves the first thread, and places the second one on the second CPU. -/
theorem selectNext_places_duo : let s := machine.run (.new duoProfile) duoRun
    machine.Guarded Permitted (.new duoProfile) duoRun ∧ (∃ t, Candidate s 1 t) ∧
      ∃ t r, Candidate s 2 t ∧ rank 2 t = some r ∧ Preferred s t 1 ∧
        ∀ id' t', Candidate s id' t' → ∃ r', rank id' t' = some r' ∧ r ≤ r' := by
  intro s
  have hpermitted : machine.Guarded Permitted (.new duoProfile) duoRun :=
    ⟨trivial, trivial, permitted_of_all (by decide), permitted_of_all (by decide), trivial⟩
  have hfirst : Candidate s 1 ⟨duoThread 1 20 none, .ready, some ⟨20, 1, 1⟩, none, none, none⟩ :=
    ⟨by decide, rfl, 0, by decide, by decide⟩
  obtain ⟨id, t, r, v, hcandidate, hrank, hleast, hpreferred, hanswer, -⟩ :=
    (selectNext_places duoProfile duoRun hpermitted).2 ⟨1, _, hfirst⟩
  have hplaced : (apply .selectNext s).1 = .ok (.selected (some ⟨1, 2, 1, 1⟩)) := by decide
  have hsame := hplaced.symm.trans hanswer
  simp only [Outcome.ok.injEq, SchedulerDecision.selected.injEq, Option.some.injEq,
    Lease.mk.injEq] at hsame
  obtain ⟨-, rfl, rfl, -⟩ := hsame
  exact ⟨hpermitted, ⟨_, hfirst⟩, t, r, hcandidate, hrank, hpreferred, hleast⟩

/-- A thread is made ready while it runs, and exits.  Its key stays in the ready set, so that the
next `SelectNext` panics. -/
theorem exited_stays_queued :
    (machine.trace (.new soloProfile) [.register soloThread, .makeReady 1, .select 0, .makeReady 1,
      .complete ⟨1, 1, 0, 1⟩ .exited, .selectNext]).getLast?.map Prod.snd =
      some (.panic "only ready threads are queued") := by
  decide

end Nixe.Scheduler
