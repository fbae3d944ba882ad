/-
**Priority inheritance.**

A thread that waits for a mutex donates its priority to the owner of the mutex.  The coordinator
keeps the donations of all processes in one set and recomputes the effective priorities from the
base priorities after every change (`RuntimeCoordinator::recompute_effective_priorities` in
`crates/runtime/src/coordinator/thread.rs`): the donations are relaxed round after round, in the
order of the set, and the results are handed to the scheduler and to the wait queues.

Main definitions:

* `RuntimeCoordinator`, `recomputeEffectivePriorities`;
* `Live`, `Donates` — the live threads and the graph;
* `WellFormed` — the parts of the coordinator refer to each other.

Main results:

* `relaxRounds_eq_settle` — the loop over the map is the loop of `Nixe/Relaxation.lean`;
* `inherits_least` — **every live thread gets the least base priority that reaches it**.
-/
import Mathlib
import Nixe.AddressWait
import Nixe.PriorityWaitInvariant
import Nixe.Relaxation
import Nixe.SchedulerRuns

set_option autoImplicit false

namespace Nixe.Coordinator

open Std (TreeMap)
open AddressWait (AddressWaitRegistry)
open List Option Std.TreeMap Call Prod Relaxation Scheduler

/-! ### The coordinator -/

structure PriorityDonation where
  owner : GuestThreadId
  waiter : GuestThreadId
  key : ℕ
deriving DecidableEq, Repr

/-- A process: the identities of its threads in increasing order, its address waits, and the
virtual CPUs that were asked for a safepoint. -/
structure GuestProcess where
  threads : List GuestThreadId
  addressWaits : AddressWaitRegistry
  safepoints : List VirtualCpuId

/-- The donations are listed in the order of their set. -/
structure RuntimeCoordinator where
  scheduler : SchedulerState
  processes : TreeMap ProcessId GuestProcess
  priorityDonations : List PriorityDonation

abbrev CoordinatorCall (α : Type) : Type := Call RuntimeCoordinator SchedulerError α

variable (donations : List PriorityDonation) (s : SchedulerState) {m : TreeMap GuestThreadId ℤ}
  {c : RuntimeCoordinator}

/-- `active_leases`, in the order of the virtual CPUs. -/
def activeLeases : List Lease := s.vcpus.toList.filterMap fun slot => slot.2.lease

/-- `self.scheduler.apply(command)?`. -/
def schedulerApply (command : SchedulerCommand) : CoordinatorCall SchedulerDecision := fun c =>
  ((apply command c.scheduler).1,
    { c with scheduler := (apply command c.scheduler).2 })

def preemptRunningThread (thread : GuestThreadId) : CoordinatorCall Unit := do
  match (activeLeases (← read).scheduler).find? fun lease => lease.thread == thread with
  | none => return ()
  | some lease =>
    let process ← expect (← read).processes[lease.process]? "no entry found for key"
    update fun c =>
      { c with
        processes := c.processes.insert lease.process
          { process with safepoints := process.safepoints ++ [lease.vcpu] } }

/-- `!matches!(view.lifecycle, Exited | Faulted)`. -/
def isLive (thread : ScheduledThread) : Bool :=
  thread.lifecycle != .exited && thread.lifecycle != .faulted

/-- The base priorities of the live threads among those of the processes. -/
def collectPriorities (s : SchedulerState) :
    List GuestThreadId → TreeMap GuestThreadId ℤ → Except SchedulerError (TreeMap GuestThreadId ℤ)
  | [], priorities => .ok priorities
  | thread :: rest, priorities =>
    match s.threads[thread]? with
    | none => .error (.unknownThread thread)
    | some view =>
      collectPriorities s rest
        (if isLive view then priorities.insert thread view.config.basePriority else priorities)

variable (state : TreeMap GuestThreadId ℤ × Bool)

/-- The body of the inner loop. -/
def relaxDonation (donation : PriorityDonation) : TreeMap GuestThreadId ℤ × Bool :=
  match state.1[donation.waiter]?, state.1[donation.owner]? with
  | some waiter, some owner =>
    if waiter < owner then (state.1.insert donation.owner waiter, true) else state
  | _, _ => state

/-- The outer loop, with its bound on the rounds. -/
def relaxRounds (donations : List PriorityDonation) :
    ℕ → TreeMap GuestThreadId ℤ → TreeMap GuestThreadId ℤ
  | 0, priorities => priorities
  | rounds + 1, priorities =>
    let (priorities, changed) := donations.foldl relaxDonation (priorities, false)
    if changed then relaxRounds donations rounds priorities else priorities

/-- The body of the last loop. -/
def assignPriority (thread : GuestThreadId) (priority : ℤ) : CoordinatorCall Unit := do
  let view ← okOr (← read).scheduler.threads[thread]? (.unknownThread thread)
  if view.config.effectivePriority ≠ priority then
    let _ ← schedulerApply (.setEffectivePriority thread priority)
    preemptRunningThread thread
    let view ← expect (← read).scheduler.threads[thread]? "thread exists"
    let process ← expect (← read).processes[view.config.process]? "thread owns a process"
    zoom (fun _ => process.addressWaits)
      (fun c waits =>
        { c with
          processes := c.processes.insert view.config.process
            { process with addressWaits := waits } })
      (AddressWait.changePriority thread priority)

def assignPriorities : List (GuestThreadId × ℤ) → CoordinatorCall Unit
  | [] => return ()
  | (thread, priority) :: rest => do
      assignPriority thread priority
      assignPriorities rest

/-- The threads of all processes, in the order of the two nested loops. -/
def RuntimeCoordinator.threads (c : RuntimeCoordinator) : List GuestThreadId :=
  c.processes.toList.flatMap fun entry => entry.2.threads

def recomputeEffectivePriorities : CoordinatorCall Unit := do
  let c ← read
  let priorities ← ofExcept (collectPriorities c.scheduler c.threads ∅)
  let priorities := relaxRounds c.priorityDonations priorities.size priorities
  assignPriorities priorities.toList

/-! ### The rounds -/

def values (m : TreeMap GuestThreadId ℤ) : GuestThreadId → Option ℤ := fun v => m[v]?

/-- The edges of the donation graph. -/
def donationEdges : List (GuestThreadId × GuestThreadId) :=
  donations.map fun donation => (donation.waiter, donation.owner)

theorem values_relaxDonation {donation : PriorityDonation} :
    values (relaxDonation state donation).1 =
        relaxEdge (values state.1) (donation.waiter, donation.owner) ∧
      (state.2 = true → (relaxDonation state donation).2 = true) ∧
      ((relaxDonation state donation).2 = false → relaxDonation state donation = state) := by
  unfold relaxDonation relaxEdge values
  split
  · rename_i waiter owner hw ho
    simp only [hw, ho]
    split
    · refine ⟨?_, by simp, by simp⟩
      funext v
      rw [TreeMap.getElem?_insert]
      by_cases hv : donation.owner = v
      · subst hv
        simp
      · rw [Function.update_of_ne (Ne.symm hv), if_neg (by simpa using hv)]
    · exact ⟨rfl, fun h => h, fun _ => rfl⟩
  · refine ⟨?_, fun h => h, fun _ => rfl⟩
    split
    · rename_i hnot _ _ _ _ hw ho
      exact absurd ho (hnot _ _ hw)
    · rfl

/-- A round over the map is a round of the library; the flag stays down only if nothing changes. -/
theorem values_round : values (donations.foldl relaxDonation state).1 =
        round (donationEdges donations) (values state.1) ∧
      ((donations.foldl relaxDonation state).2 = false →
        donations.foldl relaxDonation state = state) := by
  induction donations generalizing state with
  | nil => exact ⟨rfl, fun _ => rfl⟩
  | cons donation donations ih =>
    obtain ⟨hvalues, -, hsame⟩ := values_relaxDonation state
    obtain ⟨hround, hquiet⟩ := ih _
    refine ⟨?_, fun h => ?_⟩
    · rw [foldl_cons, hround, hvalues]
      rfl
    · rw [foldl_cons] at h ⊢
      have hrest := hquiet h
      rw [hrest] at h ⊢
      exact hsame h

theorem values_relaxRounds_fixed {donations : List PriorityDonation} {n : ℕ}
    (hfix : round (donationEdges donations) (values m) = values m) :
    values (relaxRounds donations n m) = values m := by
  induction n generalizing m with
  | zero => rfl
  | succ n ih =>
    have hround := (values_round donations (m, false)).1.trans hfix
    rw [relaxRounds]
    dsimp only
    split
    · rw [ih (by rw [hround]; exact hfix), hround]
    · exact hround

/-- **The loop of the source is the loop of the library.** -/
theorem relaxRounds_eq_settle (n : ℕ) (m : TreeMap GuestThreadId ℤ) :
    values (relaxRounds donations n m) = settle (donationEdges donations) n (values m) := by
  induction n generalizing m with
  | zero => rfl
  | succ n ih =>
    obtain ⟨hround, hquiet⟩ := values_round donations _
    rw [relaxRounds, settle]
    dsimp only
    split
    · split
      · -- the flag may be up although nothing changes in the end
        rename_i hfix
        rw [values_relaxRounds_fixed (by rw [hround]; simp [hfix]), hround, hfix]
      · rw [ih, hround]
    · rename_i hflag
      have hsame := hquiet (by simpa using hflag)
      have hfix : round (donationEdges donations) (values m) = values m := by
        rw [← hround, hsame]
      rw [if_pos hfix, hsame]

/-! ### The live threads -/

/-- A thread of some process, with its record in the scheduler, that has not come to its end. -/
structure Live (c : RuntimeCoordinator) (id : GuestThreadId) (t : ScheduledThread) : Prop where
  listed : id ∈ c.threads
  registered : c.scheduler.threads[id]? = some t
  live : isLive t

/-- A donation between live threads. -/
def Donates (c : RuntimeCoordinator) (waiter owner : GuestThreadId) : Prop :=
  (∃ donation ∈ c.priorityDonations, donation.waiter = waiter ∧ donation.owner = owner) ∧
    (∃ t, Live c waiter t) ∧ ∃ t, Live c owner t

/-- The base priority of a live thread. -/
def liveBase (id : GuestThreadId) : Option ℤ :=
  (s.threads[id]?.filter isLive).map fun t => t.config.basePriority

theorem collectPriorities_ok {ids : List GuestThreadId}
    (m : TreeMap GuestThreadId ℤ) (hids : ∀ id ∈ ids, (s.threads[id]?).isSome) :
    ∃ m', collectPriorities s ids m = .ok m' ∧
      ∀ id, m'[id]? = if id ∈ ids then (liveBase s id).or m[id]? else m[id]? := by
  induction ids generalizing m with
  | nil => exact ⟨m, rfl, by simp⟩
  | cons thread ids ih =>
    obtain ⟨view, hview⟩ := isSome_iff_exists.1 (hids thread mem_cons_self)
    obtain ⟨m', hm', hlookup⟩ := ih _ fun id hid => hids id (mem_cons_of_mem _ hid)
    refine ⟨m', by rw [collectPriorities, hview]; exact hm', fun id => ?_⟩
    rw [hlookup]
    by_cases hid : thread = id
    · subst hid
      by_cases hlive : isLive view <;> simp [liveBase, hview, hlive, Option.filter]
    · have hsame : (if isLive view then m.insert thread view.config.basePriority else m)[id]? =
          m[id]? := by
        split
        · rw [TreeMap.getElem?_insert, if_neg (by simpa using hid)]
        · rfl
      simp [hsame, Ne.symm hid]

/-! ### Handing the priorities out -/

/-- The scheduler takes a priority in range, and changes only the thread it names. -/
theorem setEffectivePriority_run {s : SchedulerState} (hs : Scheduler.Inv s) {id : GuestThreadId}
    {t : ScheduledThread} (ht : s.threads[id]? = some t) {p : ℤ}
    (hp : s.profile.priorities.contains p) :
    ∃ (s' : SchedulerState) (key : Option Scheduler.ReadyKey),
      apply (.setEffectivePriority id p) s = (.ok (.priorityChanged id), s') ∧
      Scheduler.Inv s' ∧ s'.profile = s.profile ∧ s'.vcpus = s.vcpus ∧
      ∀ i, s'.threads[i]? = if id = i then
        some { t with config := { t.config with effectivePriority := p }, readyKey := key }
        else s.threads[i]? := by
  have hinv : Scheduler.Inv (setEffectivePriority id p s).2 :=
    (keeps_setEffectivePriority hs).state (fun _ _ h => h) fun _ _ h => h ▸ hs
  rcases hk : t.readyKey with _ | k
  · refine ⟨_, none, Prod.ext ?_ rfl, hinv, ?_⟩ <;>
      simp [apply, setEffectivePriority, changePriority, hp, ht, hk, setThread,
        TreeMap.getElem?_insert]
  · have hc := hs.not_contains_rekeyed ht hk p
    refine ⟨_, some { k with priority := p }, Prod.ext ?_ rfl, hinv, ?_⟩ <;>
      simp [apply, setEffectivePriority, changePriority, hp, ht, hk, setThread, insertReady, hc]
    intro i
    by_cases hi : id = i <;> simp [TreeMap.getElem?_insert, hi]

/-- The parts of the coordinator refer to each other: every thread of a process is registered, and
has a base priority in range; processes of threads and of leases exist; scheduler and wait queues
satisfy their invariants. -/
structure WellFormed (c : RuntimeCoordinator) : Prop where
  scheduler : Scheduler.Inv c.scheduler
  registered : ∀ id ∈ c.threads, (c.scheduler.threads[id]?).isSome
  ranged : ∀ (id : GuestThreadId) (t : ScheduledThread), c.scheduler.threads[id]? = some t →
    c.scheduler.profile.priorities.contains t.config.basePriority
  owned : ∀ (id : GuestThreadId) (t : ScheduledThread), c.scheduler.threads[id]? = some t →
    t.config.process ∈ c.processes
  leased : ∀ lease ∈ activeLeases c.scheduler, lease.process ∈ c.processes
  waits : ∀ (id : ProcessId) (process : GuestProcess), c.processes[id]? = some process →
    PriorityWait.Inv process.addressWaits.priorityWaits

/-- What of a thread does not depend on its effective priority. -/
def core (t : ScheduledThread) : ThreadLifecycle × ℤ × ProcessId :=
  (t.lifecycle, t.config.basePriority, t.config.process)

/-- What a priority that is handed out leaves alone. -/
structure Kept (c c' : RuntimeCoordinator) : Prop where
  profile : c'.scheduler.profile = c.scheduler.profile
  vcpus : c'.scheduler.vcpus = c.scheduler.vcpus
  threads : ∀ i : GuestThreadId,
    c'.scheduler.threads[i]?.map core = c.scheduler.threads[i]?.map core
  processes : ∀ i : ProcessId, c'.processes[i]?.map GuestProcess.threads =
    c.processes[i]?.map GuestProcess.threads

section Assign

variable {c c' c'' : RuntimeCoordinator} {id : GuestThreadId} {i : ProcessId}

theorem Kept.refl : Kept c c := ⟨rfl, rfl, fun _ => rfl, fun _ => rfl⟩

theorem Kept.trans (h : Kept c c') (h' : Kept c' c'') : Kept c c'' :=
  ⟨h'.profile.trans h.profile, h'.vcpus.trans h.vcpus, fun i => (h'.threads i).trans (h.threads i),
    fun i => (h'.processes i).trans (h.processes i)⟩

theorem mem_threads : id ∈ c.threads ↔ ∃ (i : ProcessId) (ids : List GuestThreadId),
      c.processes[i]?.map GuestProcess.threads = some ids ∧ id ∈ ids := by
  simp only [RuntimeCoordinator.threads, mem_flatMap, Prod.exists,
    mem_toList_iff_getElem?_eq_some, map_eq_some_iff]
  constructor
  · rintro ⟨i, process, hi, hid⟩
    exact ⟨i, _, ⟨process, hi, rfl⟩, hid⟩
  · rintro ⟨i, ids, ⟨process, hi, rfl⟩, hid⟩
    exact ⟨i, process, hi, hid⟩

theorem mem_processes : i ∈ c.processes ↔ (c.processes[i]?.map GuestProcess.threads).isSome := by
  rw [isSome_map, isSome_getElem?_iff_mem]

theorem Kept.thread (h : Kept c c') {t' : ScheduledThread}
    (ht : c'.scheduler.threads[id]? = some t') : ∃ t, c.scheduler.threads[id]? = some t ∧
      t'.lifecycle = t.lifecycle ∧ t'.config.basePriority = t.config.basePriority ∧
      t'.config.process = t.config.process := by
  have hsame := h.threads id
  rw [ht] at hsame
  obtain ⟨t, ht, heq⟩ := map_eq_some_iff.1 hsame.symm
  simp only [core, Prod.mk.injEq] at heq
  exact ⟨t, ht, heq.1.symm, heq.2.1.symm, heq.2.2.symm⟩

theorem WellFormed.kept (hc : WellFormed c) (h : Kept c c') (hinv : Scheduler.Inv c'.scheduler)
    (hwaits : ∀ (id : ProcessId) (process : GuestProcess), c'.processes[id]? = some process →
      PriorityWait.Inv process.addressWaits.priorityWaits) : WellFormed c' := by
  refine ⟨hinv, ?_, ?_, ?_, ?_, hwaits⟩
  · intro id hid
    have hid' : id ∈ c.threads := by
      simp only [mem_threads, h.processes] at hid ⊢
      exact hid
    have hsome := congrArg isSome (h.threads id)
    rw [isSome_map, isSome_map] at hsome
    rw [hsome]
    exact hc.registered id hid'
  · intro id t' ht'
    obtain ⟨t, ht, -, hbase, -⟩ := h.thread ht'
    rw [h.profile, hbase]
    exact hc.ranged id t ht
  · intro id t' ht'
    obtain ⟨t, ht, -, -, hprocess⟩ := h.thread ht'
    rw [hprocess, mem_processes, h.processes, ← mem_processes]
    exact hc.owned id t ht
  · intro lease hlease
    rw [activeLeases, h.vcpus] at hlease
    rw [mem_processes, h.processes, ← mem_processes]
    exact hc.leased lease hlease

/-- A process is written back with the threads it had. -/
theorem kept_process {process process' : GuestProcess} (hi : c.processes[i]? = some process)
    (hthreads : process'.threads = process.threads) :
    Kept c { c with processes := c.processes.insert i process' } := by
  refine ⟨rfl, rfl, fun _ => rfl, fun j => ?_⟩
  simp only [TreeMap.getElem?_insert]
  split
  · rename_i hij
    obtain rfl : i = j := by simpa using hij
    rw [hi, map_some, map_some, hthreads]
  · rfl

theorem WellFormed.process (hc : WellFormed c) {process process' : GuestProcess}
    (hi : c.processes[i]? = some process) (hthreads : process'.threads = process.threads)
    (hwaits : PriorityWait.Inv process'.addressWaits.priorityWaits) :
    WellFormed { c with processes := c.processes.insert i process' } := by
  refine hc.kept (kept_process hi hthreads) hc.scheduler fun j other hj => ?_
  simp only [TreeMap.getElem?_insert] at hj
  split at hj
  · cases hj
    exact hwaits
  · exact hc.waits j other hj

theorem preemptRunningThread_ensures (hc : WellFormed c) {thread : GuestThreadId} :
    Call.Ensures (preemptRunningThread thread) c
      (fun _ c' => WellFormed c' ∧ Kept c c' ∧ c'.scheduler = c.scheduler) fun _ _ => False := by
  refine .read ?_
  cases hfind : (activeLeases c.scheduler).find? fun lease => lease.thread == thread with
  | none => exact ⟨hc, .refl, rfl⟩
  | some lease =>
    have hmem := hc.leased lease (mem_of_find?_eq_some hfind)
    obtain ⟨process, hprocess⟩ := isSome_iff_exists.1 (isSome_getElem?_iff_mem.2 hmem)
    simp only [Call.Ensures, bind_run, read_run, hprocess, expect_some, update_run]
    have hwaits := hc.waits _ process hprocess
    exact ⟨hc.process hprocess rfl hwaits, kept_process hprocess rfl, trivial⟩

/-- The effective priority of a registered thread. -/
def effective (c : RuntimeCoordinator) (id : GuestThreadId) : Option ℤ :=
  c.scheduler.threads[id]?.map fun t => t.config.effectivePriority

/-- One thread gets its priority; the others keep theirs. -/
theorem assignPriority_ensures (hc : WellFormed c) {p : ℤ} (hid : (c.scheduler.threads[id]?).isSome)
    (hp : c.scheduler.profile.priorities.contains p) : Call.Ensures (assignPriority id p) c
      (fun _ c' => WellFormed c' ∧ Kept c c' ∧ effective c' id = some p ∧
        ∀ i, i ≠ id → effective c' i = effective c i) fun _ _ => False := by
  obtain ⟨t, ht⟩ := isSome_iff_exists.1 hid
  refine .read (.okOr_some ht ?_)
  by_cases heff : t.config.effectivePriority = p
  · rw [if_neg (by simpa using heff)]
    exact ⟨hc, .refl, by simp [effective, ht, heff], fun _ _ => rfl⟩
  rw [if_pos heff]
  obtain ⟨s', key, hrun, hinv, hprofile, hvcpus, hthreads⟩ :=
    setEffectivePriority_run hc.scheduler ht hp
  -- the scheduler first, then the running thread, then the queues of the process
  have hkept₁ : Kept c { c with scheduler := s' } := by
    refine ⟨hprofile, hvcpus, fun i => ?_, fun _ => rfl⟩
    simp only [hthreads]
    split
    · rename_i hi
      rw [← hi, ht]
      rfl
    · rfl
  have hc₁ := hc.kept hkept₁ hinv hc.waits
  have happly : Call.Ensures (schedulerApply (.setEffectivePriority id p)) c
      (fun _ c₁ => c₁ = { c with scheduler := s' }) fun _ _ => False := by
    simp [Call.Ensures, schedulerApply, hrun]
  refine .seq happly ?_
  rintro _ _ rfl
  refine .seq (preemptRunningThread_ensures hc₁) ?_
  rintro _ c₂ ⟨hc₂, hkept₂, hsched⟩
  have ht₂ := hthreads id
  rw [if_pos rfl] at ht₂
  obtain ⟨process, hprocess⟩ := isSome_iff_exists.1
    (isSome_getElem?_iff_mem.2 (hc₂.owned id _ (by rw [hsched]; exact ht₂)))
  refine .read ?_
  rw [hsched, ht₂]
  refine .expect (.read ?_)
  rw [hprocess]
  refine .expect (.zoom ?_)
  refine .bind (.zoom ((PriorityWait.changePriority_ensures (hc₂.waits _ _ hprocess)).mono ?_))
  rintro _ queue ⟨hqueue, -, -, -⟩
  refine ⟨hc₂.process hprocess rfl hqueue, (hkept₁.trans hkept₂).trans (kept_process hprocess rfl),
    ?_, ?_⟩
  · simp [effective, hsched, ht₂]
  · intro i hi
    simp [effective, hsched, hthreads, Ne.symm hi]

/-- **The last loop**: every entry is handed out, and no other thread changes its priority. -/
theorem assignPriorities_ensures {entries : List (GuestThreadId × ℤ)} (hc : WellFormed c)
    (hnodup : (entries.map fst).Nodup)
    (hids : ∀ e ∈ entries, (c.scheduler.threads[e.1]?).isSome ∧
      c.scheduler.profile.priorities.contains e.2) :
    Call.Ensures (assignPriorities entries) c
      (fun _ c' => Kept c c' ∧ (∀ e ∈ entries, effective c' e.1 = some e.2) ∧
        ∀ i, i ∉ entries.map fst → effective c' i = effective c i) fun _ _ => False := by
  induction entries generalizing c with
  | nil => exact ⟨.refl, by simp, fun _ _ => rfl⟩
  | cons entry entries ih =>
    obtain ⟨id, p⟩ := entry
    rw [map_cons, nodup_cons] at hnodup
    obtain ⟨hid, hp⟩ := hids _ mem_cons_self
    refine .seq (assignPriority_ensures hc hid hp) ?_
    rintro _ c₁ ⟨hc₁, hkept, hassigned, hothers⟩
    have hids₁ : ∀ e ∈ entries, (c₁.scheduler.threads[e.1]?).isSome ∧
        c₁.scheduler.profile.priorities.contains e.2 := by
      intro e he
      have hsome := congrArg isSome (hkept.threads e.1)
      rw [isSome_map, isSome_map] at hsome
      rw [hsome, hkept.profile]
      exact hids e (mem_cons_of_mem _ he)
    refine (ih hc₁ hnodup.2 hids₁).mono ?_
    rintro _ c₂ ⟨hkept₂, hassigned₂, hothers₂⟩
    refine ⟨hkept.trans hkept₂, ?_, ?_⟩
    · intro e he
      rcases mem_cons.1 he with rfl | he
      · rw [hothers₂ _ hnodup.1, hassigned]
      · exact hassigned₂ e he
    · intro i hi
      simp only [map_cons, mem_cons, not_or] at hi
      rw [hothers₂ i hi.2, hothers i hi.1]

end Assign

/-! ### The fixpoint -/

theorem values_eq_some_iff
    (hm : ∀ id : GuestThreadId, m[id]? = if id ∈ c.threads then liveBase c.scheduler id else none)
    {id : GuestThreadId} {p : ℤ} :
    values m id = some p ↔ ∃ t, Live c id t ∧ t.config.basePriority = p := by
  rw [values, hm]
  constructor
  · intro h
    split at h
    · rename_i hid
      obtain ⟨t, ht, hp⟩ := map_eq_some_iff.1 h
      obtain ⟨ht, hlive⟩ := filter_eq_some_iff.1 ht
      exact ⟨t, ⟨hid, ht, hlive⟩, hp⟩
    · cases h
  · rintro ⟨t, ⟨hid, ht, hlive⟩, hp⟩
    simp [hid, liveBase, ht, hlive, hp]

theorem linked_eq_donates
    (hm : ∀ id : GuestThreadId, m[id]? = if id ∈ c.threads then liveBase c.scheduler id else none) :
    Relaxation.Linked (donationEdges c.priorityDonations) (values m) = Donates c := by
  have hsome : ∀ id, (values m id).isSome ↔ ∃ t, Live c id t := by
    intro id
    rw [isSome_iff_exists]
    simp only [values_eq_some_iff hm]
    exact ⟨fun ⟨_, t, ht, _⟩ => ⟨t, ht⟩, fun ⟨t, ht⟩ => ⟨_, t, ht, rfl⟩⟩
  funext a b
  simp [Relaxation.Linked, Donates, hsome, donationEdges]

/-- **Priority inheritance.**  The call succeeds, and afterwards the effective priority of every
live thread is the least base priority of the live threads that reach it through donations between
live threads, its own included.  Lifecycles and base priorities stay as they are. -/
theorem inherits_least (c : RuntimeCoordinator) (hc : WellFormed c) :
    Call.Ensures recomputeEffectivePriorities c
      (fun _ c' => ∀ id t, Live c id t → ∃ t', c'.scheduler.threads[id]? = some t' ∧
        t'.lifecycle = t.lifecycle ∧ t'.config.basePriority = t.config.basePriority ∧
        IsLeast {p | ∃ u v, Live c u v ∧ v.config.basePriority = p ∧
          Relation.ReflTransGen (Donates c) u id} t'.config.effectivePriority)
      fun _ _ => False := by
  obtain ⟨m, hcollect, hlookup⟩ := collectPriorities_ok c.scheduler ∅ hc.registered
  have hm : ∀ id, m[id]? = if id ∈ c.threads then liveBase c.scheduler id else none := by
    simpa using hlookup
  have hkeys : ∀ v, (values m v).isSome ↔ v ∈ m.keys.toFinset := by
    intro v
    rw [List.mem_toFinset, TreeMap.mem_keys, values, isSome_getElem?_iff_mem]
  have hcard : m.keys.toFinset.card = m.size := by
    rw [toFinset_card_of_nodup nodup_keys, length_keys]
  set relaxed := relaxRounds c.priorityDonations m.size m with hrelaxed
  have hsettle : values relaxed =
      settle (donationEdges c.priorityDonations) m.keys.toFinset.card (values m) := by
    rw [hcard, relaxRounds_eq_settle]
  have hleast : ∀ id t, Live c id t → ∃ q, relaxed[id]? = some q ∧
      IsLeast {p | ∃ u v, Live c u v ∧ v.config.basePriority = p ∧
        Relation.ReflTransGen (Donates c) u id} q := by
    intro id t ht
    have hsome : (values m id).isSome := by
      rw [(values_eq_some_iff hm).2 ⟨t, ht, rfl⟩]
      rfl
    obtain ⟨q, hq, hleast⟩ := settle_isLeast hkeys ((hkeys id).1 hsome)
    rw [← hsettle] at hq
    rw [linked_eq_donates hm] at hleast
    refine ⟨q, hq, ?_, ?_⟩
    · obtain ⟨u, hu, hreach⟩ := hleast.1
      obtain ⟨v, hv, hbase⟩ := (values_eq_some_iff hm).1 hu
      exact ⟨u, v, hv, hbase, hreach⟩
    · rintro p ⟨u, v, hv, hbase, hreach⟩
      exact hleast.2 ⟨u, (values_eq_some_iff hm).2 ⟨v, hv, hbase⟩, hreach⟩
  have hentries : ∀ e ∈ relaxed.toList, (c.scheduler.threads[e.1]?).isSome ∧
      c.scheduler.profile.priorities.contains e.2 := by
    rintro ⟨id, q⟩ he
    have hq : relaxed[id]? = some q := mem_toList_iff_getElem?_eq_some.1 he
    have hsome : (values m id).isSome := by
      rw [← (lower_settle _ _ _ id).1, ← hsettle, values, hq]
      rfl
    obtain ⟨p, hp⟩ := isSome_iff_exists.1 hsome
    obtain ⟨t, ht, -⟩ := (values_eq_some_iff hm).1 hp
    obtain ⟨q', hq', ⟨u, v, hu, hbase, -⟩, -⟩ := hleast id t ht
    rw [hq, some.injEq] at hq'
    refine ⟨by rw [ht.registered]; rfl, ?_⟩
    rw [hq', ← hbase]
    exact hc.ranged u v hu.registered
  have hassign := assignPriorities_ensures hc
    (by rw [map_fst_toList_eq_keys]; exact nodup_keys) hentries
  refine .read (.ofExcept (fun m' hm' => ?_) fun e he => ?_)
  swap
  · rw [hcollect] at he
    cases he
  · rw [hcollect, Except.ok.injEq] at hm'
    subst hm'
    refine hassign.mono ?_
    rintro _ c' ⟨hkept, hgiven, -⟩ id t ht
    obtain ⟨q, hq, hmin⟩ := hleast id t ht
    have heff := hgiven _ (mem_toList_iff_getElem?_eq_some.2 hq)
    obtain ⟨t', ht', heq⟩ := map_eq_some_iff.1 heff
    obtain ⟨t₀, ht₀, hlifecycle, hbase, -⟩ := hkept.thread ht'
    obtain rfl : t = t₀ := some.inj (ht.registered.symm.trans ht₀)
    exact ⟨t', ht', hlifecycle, hbase, heq ▸ hmin⟩

/-- One process with the two threads 1 and 2 on one virtual CPU. -/
def pairCoordinator : RuntimeCoordinator where
  scheduler := machine.run (.new soloProfile)
    [.register ⟨7, 1, 30, 30, none, soloThread.affinity⟩,
      .register ⟨7, 2, 20, 20, none, soloThread.affinity⟩]
  processes := (∅ : TreeMap ProcessId GuestProcess).insert 7 ⟨[1, 2], .empty, []⟩
  priorityDonations := [⟨1, 2, 4096⟩]

/-- Thread 2 waits for thread 1, and the priorities are recomputed. -/
theorem inherits_least_pair : WellFormed pairCoordinator ∧
    (recomputeEffectivePriorities pairCoordinator).1 = .ok () := by
  have hthread : ∀ id t, pairCoordinator.scheduler.threads[id]? = some t →
      (id, t) ∈ pairCoordinator.scheduler.threads.toList := fun _ _ h =>
    mem_toList_iff_getElem?_eq_some.2 h
  have hall : ∀ e ∈ pairCoordinator.scheduler.threads.toList,
      pairCoordinator.scheduler.profile.priorities.contains e.2.config.basePriority ∧
      pairCoordinator.processes.contains e.2.config.process := by decide
  have hwell : WellFormed pairCoordinator := by
    refine ⟨?_, by decide, fun id t h => (hall _ (hthread id t h)).1,
      fun id t h => (hall _ (hthread id t h)).2, by decide, ?_⟩
    · refine Machine.run_invariant (G := Scheduler.Permitted) (fun s command hs hc => ?_) _ _
        (inv_new _) ⟨trivial, trivial, trivial⟩
      exact (keeps_apply hs hc).state (fun _ _ h => h) fun _ _ h => h ▸ hs
    · intro id process h
      simp only [pairCoordinator, TreeMap.getElem?_insert] at h
      split at h
      · cases h
        exact PriorityWait.inv_empty
      · simp at h
  refine ⟨hwell, ?_⟩
  rcases (inherits_least pairCoordinator hwell).ok_or_err with ⟨_, hok, -⟩ | ⟨_, -, h⟩
  · exact hok
  · exact h.elim

end Nixe.Coordinator
