/-
**The order in which address waiters are woken.**

The order of the waiters is implicit in nested maps of queues that five operations edit.  Here it is
related to a *record* of the history, a list that says of every pending wait where it waits, at
which priority, and when it entered that priority.  A wait that changes its priority enters anew.

Main definitions:

* `Entry`, `history` — the record of a run;
* `ordered` — the entries of an address by priority, then by time;
* `waiting` — the waiters of an address as the nested maps hold them.

Main results:

* `Recorded.waiting_eq` — the nested maps hold the waiters in the order of the record;
* `recorded_step` — every operation keeps the record;
* `signal_wakes_first` — **`signal` completes the first waiters of the record**.
-/
import Nixe.PriorityWaitRuns
import Mathlib.Data.List.Sort

set_option autoImplicit false

namespace Nixe.PriorityWait

open Std (TreeMap TreeSet)
open List Option Std.TreeMap Call PriorityAddressWaitQueue

/-! ### The record -/

/-- A pending wait: where, at which priority, since when. -/
structure Entry where
  address : ℕ
  priority : ℤ
  entered : ℕ
  waiter : Waiter
deriving DecidableEq, Repr

/-- Lower priorities come first, then earlier entries. -/
def Entry.before (x y : Entry) : Bool :=
  decide (x.priority < y.priority ∨ x.priority = y.priority ∧ x.entered ≤ y.entered)

/-- The waits of an address in their order. -/
def ordered (entries : List Entry) (address : ℕ) : List Entry :=
  (entries.filter fun e => e.address = address).mergeSort Entry.before

/-- What an operation that is answered at the time `clock` does to the record. -/
def record (clock : ℕ) (entries : List Entry) : Operation × Outcome Empty Answer → List Entry
  | (.enqueue address thread priority deadline, .ok (.event (some event))) =>
    entries ++ [⟨address, priority, clock, ⟨thread, deadline, event⟩⟩]
  | (.signal address count, _) =>
    let first := (ordered entries address).take count
    entries.filter fun e => e ∉ first
  | (.expire now, _) => entries.filter fun e => e.waiter.deadline.all fun deadline => now < deadline
  | (.changePriority thread priority, _) =>
    match entries.find? fun e => e.waiter.thread == thread with
    | none => entries
    | some e =>
      if e.priority = priority then
        entries
      else
        (entries.filter fun e => e.waiter.thread != thread) ++
          [{ e with priority, entered := clock }]
  | (.remove thread, _) => entries.filter fun e => e.waiter.thread != thread
  | _ => entries

/-- The record of a trace that begins at the time `clock`. -/
def historyFrom (clock : ℕ) (entries : List Entry) :
    List (Operation × Outcome Empty Answer) → List Entry
  | [] => entries
  | event :: events => historyFrom (clock + 1) (record clock entries event) events

def history (events : List (Operation × Outcome Empty Answer)) : List Entry :=
  historyFrom 0 [] events

variable (s : PriorityAddressWaitQueue)

/-- The waiters of an address in the order of the nested maps. -/
def waiting (address : ℕ) : List Waiter :=
  (s.queues[address]?.getD ∅).toList.flatMap Prod.snd

def waitingCount (address : ℕ) : ℕ :=
  match s.queues[address]? with
  | none => 0
  | some priorities => (priorities.toList.map fun entry => entry.2.length).sum

theorem waitingCount_eq (address : ℕ) : waitingCount s address = (waiting s address).length := by
  unfold waitingCount waiting
  rcases s.queues[address]? with _ | priorities
  · rfl
  · simp

/-- The record describes the queues, in the order of time. -/
structure Recorded (clock : ℕ) (entries : List Entry) (s : PriorityAddressWaitQueue) : Prop where
  buckets : ∀ a p, s.queues.bucket a p =
    (entries.filter fun e => e.address = a ∧ e.priority = p).map Entry.waiter
  entered : entries.Pairwise fun x y => x.entered < y.entered
  past : ∀ e ∈ entries, e.entered < clock

section Order

variable {entries : List Entry} {clock : ℕ} {s s' : PriorityAddressWaitQueue} {x y e : Entry}

theorem before_iff : x.before y = true ↔
    x.priority < y.priority ∨ x.priority = y.priority ∧ x.entered ≤ y.entered := by
  simp [Entry.before]

theorem before_trans (x y z : Entry) (hxy : x.before y) (hyz : y.before z) : x.before z := by
  simp only [before_iff] at *
  omega

theorem before_total (x y : Entry) : (x.before y || y.before x) = true := by
  simp only [Bool.or_eq_true, before_iff]
  omega

theorem eq_of_entered (h : entries.Pairwise fun x y => x.entered < y.entered)
    (hx : x ∈ entries) (hy : y ∈ entries) (heq : x.entered = y.entered) : x = y := by
  have hnodup : (entries.map Entry.entered).Nodup :=
    pairwise_map.2 (h.imp fun hlt => hlt.ne)
  exact inj_on_of_nodup_map hnodup hx hy heq

/-- **The order is unique**: a sorted list of the entries of an address is `ordered`. -/
theorem eq_ordered (h : entries.Pairwise fun x y => x.entered < y.entered) {address : ℕ}
    {l : List Entry} (hsorted : l.Pairwise fun x y => x.before y)
    (hperm : l.Perm (entries.filter fun e => e.address = address)) :
    l = ordered entries address := by
  have hperm' : l.Perm (ordered entries address) := hperm.trans (mergeSort_perm _ _).symm
  refine hperm'.eq_of_pairwise (fun x y hx hy hxy hyx => ?_) hsorted
    (pairwise_mergeSort before_trans before_total _)
  have hx' := (mem_filter.1 (hperm.mem_iff.1 hx)).1
  have hy' := (mem_filter.1 ((hperm'.trans (mergeSort_perm _ _)).mem_iff.1
    (hperm'.symm.mem_iff.1 hy))).1
  simp only [before_iff] at hxy hyx
  exact eq_of_entered h hx' hy' (by omega)

theorem mem_ordered {address : ℕ} :
    e ∈ ordered entries address ↔ e ∈ entries ∧ e.address = address := by
  rw [ordered, (mergeSort_perm _ _).mem_iff, mem_filter, decide_eq_true_eq]

theorem nodup_ordered (h : entries.Pairwise fun x y => x.entered < y.entered) (address : ℕ) :
    (ordered entries address).Nodup := by
  refine (mergeSort_perm _ _).nodup_iff.2 (.filter _ ?_)
  exact h.imp fun hlt => by rintro rfl; exact hlt.false

/-- Filtering the first elements out leaves the others. -/
theorem filter_notMem_take {l : List Entry} (h : l.Nodup) (n : ℕ) :
    l.filter (fun e => e ∉ l.take n) = l.drop n := by
  have hdisjoint : ∀ e ∈ l.take n, e ∉ l.drop n := disjoint_take_drop h le_rfl
  conv_lhs =>
    enter [2]
    rw [← take_append_drop n l]
  rw [filter_append, filter_eq_nil_iff.2 (by simp), nil_append, filter_eq_self]
  intro e he
  simpa using fun hmem => hdisjoint e hmem he

/-- Taking entries out of the record takes them out of the order. -/
theorem ordered_filter (h : entries.Pairwise fun x y => x.entered < y.entered) (address : ℕ)
    (keep : Entry → Bool) :
    ordered (entries.filter keep) address = (ordered entries address).filter keep := by
  refine (eq_ordered (h.filter keep) ?_ ?_).symm
  · exact (pairwise_mergeSort before_trans before_total _).filter keep
  · refine ((mergeSort_perm _ _).filter keep).trans (.of_eq ?_)
    rw [filter_comm]

section Recorded

variable (h : Recorded clock entries s)
include h

/-- **The nested maps hold the waiters in the order of the record.** -/
theorem Recorded.waiting_eq (address : ℕ) :
    waiting s address = (ordered entries address).map Entry.waiter := by
  set keys := (s.queues[address]?.getD ∅).keys with hkeys
  -- the same concatenation, of entries
  set l := keys.flatMap fun p =>
    entries.filter fun e => e.address = address ∧ e.priority = p with hl
  have hwaiting : waiting s address = l.map Entry.waiter := by
    rw [map_flatMap, hkeys, ← map_fst_toList_eq_keys, flatMap_map]
    refine flatMap_congr fun entry hentry => ?_
    rw [← h.buckets, Buckets.bucket, mem_toList_iff_getElem?_eq_some.1 hentry]
    rfl
  rw [hwaiting, show l = ordered entries address from eq_ordered h.entered ?_ ?_]
  · -- priorities increase from one queue to the next, times within a queue
    rw [pairwise_flatMap]
    refine ⟨fun p _ => ?_, ?_⟩
    · refine (h.entered.filter _).imp_of_mem fun hx hy hlt => ?_
      have hx' := (mem_filter.1 hx).2
      have hy' := (mem_filter.1 hy).2
      simp only [decide_eq_true_eq] at hx' hy'
      exact before_iff.2 (.inr ⟨hx'.2.trans hy'.2.symm, hlt.le⟩)
    · refine (ordered_keys).imp fun hlt x hx y hy => ?_
      have hx' := (mem_filter.1 hx).2
      have hy' := (mem_filter.1 hy).2
      simp only [decide_eq_true_eq] at hx' hy'
      rw [compare_lt_iff_lt] at hlt
      exact before_iff.2 (.inl (by rw [hx'.2, hy'.2]; exact hlt))
  · have hnodup : entries.Nodup := h.entered.imp fun hlt => by rintro rfl; exact hlt.false
    refine (perm_ext_iff_of_nodup ?_ (hnodup.filter _)).2 fun e => ?_
    · rw [nodup_flatMap]
      refine ⟨fun p _ => hnodup.filter _, nodup_keys.imp fun hne x hx hy => hne ?_⟩
      simp only [mem_filter, decide_eq_true_eq] at hx hy
      exact hx.2.2.symm.trans hy.2.2
    · simp only [hl, mem_flatMap, mem_filter, decide_eq_true_eq]
      refine ⟨by rintro ⟨_, _, he⟩; exact ⟨he.1, he.2.1⟩,
        fun he => ⟨e.priority, ?_, he.1, he.2, rfl⟩⟩
      -- the queue of the entry is not empty, so its priority is a key
      have hmem : e.waiter ∈ s.queues.bucket address e.priority := by
        rw [h.buckets]
        exact mem_map_of_mem (mem_filter.2 ⟨he.1, by simpa using he.2⟩)
      rw [TreeMap.mem_keys, ← isSome_getElem?_iff_mem]
      by_contra hnone
      rw [not_isSome_iff_eq_none] at hnone
      simp [Buckets.bucket, hnone] at hmem

/-- The waiter of an entry is that of its thread. -/
theorem Recorded.waiterOf_eq (hs : Inv s)
    (he : e ∈ entries) : s.waiterOf e.waiter.thread = some e.waiter := by
  refine hs.filed.lookup_of_mem (a := e.address) (p := e.priority) ?_
  rw [h.buckets]
  exact mem_map_of_mem (mem_filter.2 ⟨he, by simp⟩)

theorem Recorded.thread_inj (hs : Inv s)
    (hx : x ∈ entries) (hy : y ∈ entries) (heq : x.waiter.thread = y.waiter.thread) : x = y := by
  have hfiled : ∀ e ∈ entries, e ∈ (entries.filter fun e' =>
      e'.address = e.address ∧ e'.priority = e.priority) ∧
      s.positions[e.waiter.thread]? = some (e.address, e.priority) := by
    intro e he
    have hmem : e ∈ entries.filter fun e' => e'.address = e.address ∧ e'.priority = e.priority :=
      mem_filter.2 ⟨he, by simp⟩
    refine ⟨hmem, hs.filed.position_of_mem ?_⟩
    rw [h.buckets]
    exact mem_map_of_mem hmem
  obtain ⟨hx', hpx⟩ := hfiled x hx
  obtain ⟨hy', hpy⟩ := hfiled y hy
  rw [heq, hpy, some.injEq, Prod.mk.injEq] at hpx
  rw [hpx.1, hpx.2] at hy'
  have hnodup := hs.filed.placed.nodup (x.address, x.priority)
  simp only [h.buckets, List.map_map] at hnodup
  exact inj_on_of_nodup_map hnodup hx' hy' heq

theorem Recorded.drop {t : GuestThreadId}
    (hb : ∀ a p, s'.queues.bucket a p = (s.queues.bucket a p).filter fun v => v.thread != t) :
    Recorded clock (entries.filter fun e => e.waiter.thread != t) s' := by
  refine ⟨fun a p => ?_, h.entered.filter _, fun e he => h.past e (mem_filter.1 he).1⟩
  rw [hb, h.buckets, List.filter_map, filter_comm]
  rfl

theorem Recorded.push (he : e.entered = clock)
    (hq : s'.queues = s.queues.push e.address e.priority e.waiter) :
    Recorded (clock + 1) (entries ++ [e]) s' := by
  refine ⟨fun a p => ?_, ?_, ?_⟩
  · rw [hq, Buckets.push_eq_store, Buckets.bucket_store, filter_append, map_append,
      ← h.buckets]
    by_cases hap : e.address = a ∧ e.priority = p
    · simp [hap]
    · simp [hap]
  · rw [pairwise_append]
    refine ⟨h.entered, pairwise_singleton _ _, fun x hx y hy => ?_⟩
    rw [mem_singleton.1 hy, he]
    exact h.past x hx
  · intro x hx
    rcases mem_append.1 hx with hx | hx
    · exact Nat.lt_succ_of_lt (h.past x hx)
    · rw [mem_singleton.1 hx, he]
      exact Nat.lt_succ_self _

theorem Recorded.later (hq : s'.queues = s.queues) : Recorded (clock + 1) entries s' :=
  ⟨fun a p => by rw [hq]; exact h.buckets a p, h.entered,
    fun e he => Nat.lt_succ_of_lt (h.past e he)⟩

end Recorded

/-! ### The operations -/

/-- What `signal` does: the first entries of the address are completed, one after the other. -/
structure Woken (address count clock : ℕ) (entries : List Entry)
    (s s' : PriorityAddressWaitQueue) : Prop where
  recorded : Recorded clock (entries.filter fun e => e ∉ (ordered entries address).take count) s'
  signalled : s'.events.signalled =
    s.events.signalled ++ ((ordered entries address).take count).map fun e => e.waiter.event
  completed : ∀ t, s'.completed[t]? =
    if t ∈ ((ordered entries address).take count).map fun e => e.waiter.thread
    then some .signalled else s.completed[t]?

/-- One round takes the first entry of the address. -/
theorem signalOne_recorded (h : Recorded clock entries s) (hs : Inv s) (address : ℕ) :
    (signalOne address s = (.ok false, s) ∧ ordered entries address = []) ∨
    ∃ e rest s', signalOne address s = (.ok true, s') ∧ ordered entries address = e :: rest ∧
      Inv s' ∧ Recorded clock (entries.filter (· ≠ e)) s' ∧
      Finished e.waiter.thread e.waiter .signalled s s' := by
  have hwaiting := h.waiting_eq address
  rcases signalOne_cases hs address with ⟨hrun, hnone⟩ | ⟨w, s', hrun, hfirst, hw, hfin⟩
  · left
    have hempty : waiting s address = [] := by
      rw [waiting, hnone]
      rfl
    rw [hempty] at hwaiting
    exact ⟨hrun, map_eq_nil_iff.1 hwaiting.symm⟩
  · right
    obtain ⟨priorities, p, rest, others, hqueue, hlist⟩ := hfirst
    have hhead : waiting s address = w :: (rest ++ others.flatMap Prod.snd) := by
      simp [waiting, hqueue, hlist]
    rw [hhead] at hwaiting
    obtain ⟨e, later, hordered, rfl, -⟩ := map_eq_cons_iff.1 hwaiting.symm
    have he : e ∈ entries := (mem_ordered.1 (hordered ▸ mem_cons_self)).1
    refine ⟨e, later, s', hrun, hordered, hs.finish hw hfin, ?_, hfin⟩
    have hdrop := h.drop hfin.buckets
    rwa [filter_congr fun x hx => ?_] at hdrop
    rw [Bool.eq_iff_iff, bne_iff_ne, decide_eq_true_eq]
    exact ⟨fun hne heq => hne (heq ▸ rfl), fun hne heq => hne (h.thread_inj hs hx he heq)⟩

/-- **`signal` completes the first entries of the address.** -/
theorem signal_recorded (address count : ℕ) : ∀ {entries : List Entry}
    {s : PriorityAddressWaitQueue}, Recorded clock entries s → Inv s →
    Call.Ensures (signal address count) s
      (fun _ s' => Woken address count clock entries s s') fun _ _ => False := by
  induction count with
  | zero =>
    intro entries s h hs
    exact ⟨by simpa using h, by simp, by simp⟩
  | succ count ih =>
    intro entries s h hs
    rcases signalOne_recorded h hs address with ⟨hrun, hnil⟩ | ⟨e, rest, s₁, hrun, hcons, hs₁, h₁,
      hfin⟩
    · simp only [Call.Ensures, signal, bind_run, hrun]
      exact ⟨by simpa [hnil] using h, by simp [hnil], by simp [hnil]⟩
    · simp only [Call.Ensures, signal, bind_run, hrun, if_true]
      refine (ih h₁ hs₁).mono ?_
      rintro _ s' ⟨hrec, hsig, hcomp⟩
      -- without its first entry, the order begins with the next one
      have hnodup : (e :: rest).Nodup := hcons ▸ nodup_ordered h.entered address
      have hrest : ordered (entries.filter (· ≠ e)) address = rest := by
        rw [ordered_filter h.entered, hcons, filter_cons_of_neg (by simp), filter_eq_self]
        rintro x hx
        simpa using fun heq : x = e => (nodup_cons.1 hnodup).1 (heq ▸ hx)
      rw [hrest] at hrec hsig hcomp
      refine ⟨?_, ?_, ?_⟩
      · simpa [hcons, take_succ_cons, Bool.and_comm] using hrec
      · rw [hsig, hfin.signalled, hcons]
        simp
      · intro t
        rw [hcomp t, hfin.completed, hcons, take_succ_cons, map_cons, TreeMap.getElem?_insert]
        by_cases ht : e.waiter.thread = t
        · simp [ht]
        · simp [ht, Ne.symm ht]

theorem deadline_le_of_head {k k' : DeadlineKey} (hhead : s.deadlines.toList.head? = some k)
    (hk' : k' ∈ s.deadlines) : k.deadline ≤ k'.deadline := by
  have hlist := eq_cons_of_mem_head? hhead
  have hsorted := TreeSet.ordered_toList (t := s.deadlines)
  have hmem := TreeSet.mem_toList.2 hk'
  rw [hlist] at hsorted hmem
  rcases mem_cons.1 hmem with rfl | hmem
  · exact le_rfl
  · have hlt :
        compareLex (compareOn DeadlineKey.deadline) (compareOn DeadlineKey.thread) k k' = .lt :=
      (pairwise_cons.1 hsorted).1 k' hmem
    simp only [compareLex, compareOn, Ordering.then_eq_lt, compare_lt_iff_lt,
      compare_eq_iff_eq] at hlt
    omega

/-- **`expire` ends the waits whose time has come.** -/
theorem expireLoop_recorded {now : ℕ} : ∀ (fuel : ℕ) {entries : List Entry}
    {s : PriorityAddressWaitQueue}, Recorded clock entries s → Inv s → s.deadlines.size < fuel →
    Call.Ensures (expireLoop now fuel) s (fun _ s' => Recorded clock
        (entries.filter fun e => e.waiter.deadline.all fun deadline => now < deadline) s')
      fun _ _ => False := by
  intro fuel
  induction fuel with
  | zero => omega
  | succ fuel ih =>
    intro entries s h hs hfuel
    have hset : ∀ e ∈ entries, ∀ d, e.waiter.deadline = some d →
        (⟨d, e.waiter.thread⟩ : DeadlineKey) ∈ s.deadlines := by
      intro e he d hd
      rw [hs.deadline_iff, h.waiterOf_eq hs he]
      exact hd
    have hdone : (∀ k ∈ s.deadlines, now < k.deadline) → entries.filter
        (fun e => e.waiter.deadline.all fun deadline => now < deadline) = entries := by
      intro hall
      rw [filter_eq_self]
      intro e he
      rw [Option.all_eq_true]
      intro d hd
      simpa using hall _ (hset e he d hd)
    rcases hhead : s.deadlines.toList.head? with _ | k
    · have hempty : ∀ k ∈ s.deadlines, now < k.deadline := by
        intro k hk
        have := TreeSet.mem_toList.2 hk
        rw [head?_eq_none_iff.1 hhead] at this
        cases this
      simpa [Call.Ensures, expireLoop, hhead, hdone hempty] using h
    by_cases hnow : k.deadline > now
    · have hall : ∀ k' ∈ s.deadlines, now < k'.deadline := fun k' hk' =>
        lt_of_lt_of_le hnow (deadline_le_of_head hhead hk')
      simpa [Call.Ensures, expireLoop, hhead, hnow, hdone hall] using h
    have hk : k ∈ s.deadlines := TreeSet.mem_toList.1 (mem_of_head? hhead)
    obtain ⟨w, s₁, s₂, hw, hremove, hcomplete, hfin, hsize⟩ := expire_round hs hk
    have hrest := ih (h.drop hfin.buckets) (hs.finish hw hfin) (by omega)
    rw [Call.Ensures]
    simp only [expireLoop, bind_run, read_run, hhead, hnow, if_false, hremove,
      expect_some, hcomplete]
    refine hrest.mono fun _ s' h' => ?_
    -- the wait that was ended does not pass the test either
    rwa [List.filter_filter, filter_congr fun e he => ?_] at h'
    by_cases ht : e.waiter.thread = k.thread
    · have hdead := (hs.deadline_iff k).1 hk
      rw [← ht, h.waiterOf_eq hs he, bind_some] at hdead
      simp [hdead, hnow]
    · simp [ht]

/-- **`change_priority` lets a wait enter anew**, unless it has the priority already. -/
theorem changePriority_recorded (h : Recorded clock entries s) (hs : Inv s)
    {thread : GuestThreadId} {priority : ℤ} {out : Outcome Empty Answer} :
    Call.Ensures (changePriority thread priority) s (fun _ s' => Recorded (clock + 1)
        (record clock entries (.changePriority thread priority, out)) s') fun _ _ => False := by
  unfold changePriority
  rcases hpos : s.positions[thread]? with _ | ⟨address, oldPriority⟩
  · have hnone : entries.find? (fun e => e.waiter.thread == thread) = none := by
      rw [find?_eq_none]
      intro e he heq
      have hw := h.waiterOf_eq hs he
      rw [beq_iff_eq.1 heq, waiterOf, lookup_of_none hpos] at hw
      cases hw
    simpa [Call.Ensures, hpos, record, hnone] using h.later rfl
  obtain ⟨w, hw⟩ : ∃ w, s.waiterOf thread = some w := hs.filed.exists_waiter hpos
  -- the entry of the thread
  obtain ⟨e, hfind, he, rfl, rfl, rfl, rfl⟩ :
      ∃ e, entries.find? (fun e => e.waiter.thread == thread)
      = some e ∧ e ∈ entries ∧ e.waiter.thread = thread ∧ e.waiter = w ∧ e.address = address ∧
      e.priority = oldPriority := by
    rw [waiterOf, lookup_of_some hpos] at hw
    have hmem := mem_of_find?_eq_some hw
    rw [h.buckets] at hmem
    obtain ⟨e, he, hew⟩ := mem_map.1 hmem
    obtain ⟨he, hap⟩ := mem_filter.1 he
    simp only [decide_eq_true_eq] at hap
    have hthread : e.waiter.thread = thread := hew ▸ lookup_thread (lookup_of_some hpos ▸ hw)
    have hsome : (entries.find? fun e => e.waiter.thread == thread).isSome :=
      find?_isSome.2 ⟨e, he, beq_iff_eq.2 hthread⟩
    obtain ⟨e', he'⟩ := isSome_iff_exists.1 hsome
    have hthread' := find?_some he'
    obtain rfl : e' = e := h.thread_inj hs (mem_of_find?_eq_some he') he
      ((beq_iff_eq.1 hthread').trans hthread.symm)
    exact ⟨e', he', he, hthread, hew, hap.1, hap.2⟩
  by_cases hp : e.priority = priority
  · simpa [Call.Ensures, hpos, hp, record, hfind] using h.later rfl
  obtain ⟨s₁, hrun, hdrop⟩ := removeActive_some hs hw
  simp only [Call.Ensures, bind_run, read_run, hpos, hp, if_false, hrun,
    expect_some, insertDeadline_run, update_run, record, hfind]
  exact (h.drop hdrop.buckets).push rfl rfl

/-- **One step**: every operation keeps the record. -/
theorem recorded_step (h : Recorded clock entries s) (hs : Inv s) {operation : Operation} :
    Recorded (clock + 1) (record clock entries (operation, (apply operation s).1))
      (apply operation s).2 := by
  cases operation with
  | enqueue address thread =>
    rcases hc : contains s thread with _ | _
    · simp only [apply, enqueue, bind_run, read_run, hc, update_run,
        insertDeadline_run, pure_run, Bool.false_eq_true, if_false]
      exact h.push rfl rfl
    · simp only [apply, enqueue, bind_run, read_run, hc, if_true, pure_run]
      exact h.later rfl
  | signal address count =>
    have hrun : Call.Ensures (apply (.signal address count)) s (fun _ s' => Recorded _
        (entries.filter fun e => e ∉ (ordered entries address).take count) s')
        fun _ _ => False :=
      .seq (signal_recorded address count h hs) fun _ _ h' => h'.recorded.later rfl
    exact hrun.state (fun _ _ h' => h') fun _ _ h' => h'.elim
  | expire now =>
    have hrun : Call.Ensures (apply (.expire now)) s (fun _ s' => Recorded _
        (entries.filter fun e => e.waiter.deadline.all fun deadline => now < deadline) s')
        fun _ _ => False :=
      .seq (expireLoop_recorded _ h hs (Nat.lt_succ_self _)) fun _ _ h' => h'.later rfl
    exact hrun.state (fun _ _ h' => h') fun _ _ h' => h'.elim
  | changePriority thread priority =>
    have hrun : ∀ out, Call.Ensures (apply (.changePriority thread priority)) s
        (fun _ s' => Recorded _
          (record clock entries (.changePriority thread priority, out)) s') fun _ _ => False :=
      fun out => .seq (changePriority_recorded h hs) fun _ _ h' => h'
    exact (hrun _).state (fun _ _ h' => h') fun _ _ h' => h'.elim
  | takeResult => exact h.later rfl
  | remove thread =>
    simp only [apply, remove, bind_run, record]
    rcases hw : s.waiterOf thread with _ | w
    · rw [removeActive_none (hs.position_none hw)]
      rw [filter_eq_self.2 fun e he => ?_]
      · exact h.later rfl
      · rw [bne_iff_ne]
        rintro rfl
        rw [h.waiterOf_eq hs he] at hw
        cases hw
    · obtain ⟨s₁, hrun, hdrop⟩ := removeActive_some hs hw
      rw [hrun]
      exact (h.drop hdrop.buckets).later rfl

end Order

/-- **Whole runs.**  The record of a run describes the queues it leaves behind. -/
theorem recorded_run (operations : List Operation) : ∀ (clock : ℕ) (entries : List Entry)
    (s : PriorityAddressWaitQueue), Recorded clock entries s → Inv s →
    Recorded (clock + operations.length)
      (historyFrom clock entries (machine.trace s operations)) (machine.run s operations) := by
  induction operations with
  | nil => exact fun _ _ _ h _ => h
  | cons operation operations ih =>
    intro clock entries s h hs
    have hrest := ih _ _ _ (recorded_step h hs) (effect_step hs operation).inv
    rwa [add_right_comm, add_assoc, ← length_cons] at hrest

/-- **Signals wake by priority, then by age.**  After any history, `signal` completes the first
`min count waiting_count` waits of the address in the order of the record, and signals their events
in that order.  The others of the address keep their order, and so do the waits of other
addresses. -/
theorem signal_wakes_first (operations : List Operation) (address count : ℕ) :
    let s := machine.run .empty operations
    let entries := history (machine.trace .empty operations)
    let n := min count (waitingCount s address)
    let first := (ordered entries address).take n
    (∀ a, waiting s a = (ordered entries a).map Entry.waiter) ∧
    Call.Ensures (signal address count) s (fun _ s' =>
      first.length = n ∧
      (∀ t, s'.completed[t]? = if t ∈ first.map fun e => e.waiter.thread
        then some .signalled else s.completed[t]?) ∧
      s'.events.signalled = s.events.signalled ++ first.map (fun e => e.waiter.event) ∧
      waiting s' address = ((ordered entries address).drop n).map Entry.waiter ∧
      ∀ a, a ≠ address → waiting s' a = waiting s a) fun _ _ => False := by
  intro s entries n first
  have hempty : Recorded 0 [] .empty :=
    ⟨fun a p => by simp [PriorityAddressWaitQueue.empty], .nil, by simp⟩
  have hrec : Recorded (0 + operations.length) entries s :=
    recorded_run operations 0 [] .empty hempty inv_empty
  have hwaiting := hrec.waiting_eq
  have hcount : waitingCount s address = (ordered entries address).length := by
    rw [waitingCount_eq, hwaiting, length_map]
  have htake : (ordered entries address).take count = first := by
    simp only [first, n, hcount]
    rcases le_total count (ordered entries address).length with hle | hle
    · rw [min_eq_left hle]
    · rw [min_eq_right hle, take_of_length_le hle, take_length]
  refine ⟨hwaiting, (signal_recorded address count hrec (inv_run operations)).mono ?_⟩
  rintro _ s' ⟨hrec', hsig, hcomp⟩
  rw [htake] at hrec' hsig hcomp
  refine ⟨by simp [first, n, hcount], hcomp, hsig, ?_, fun a ha => ?_⟩
  · rw [hrec'.waiting_eq, ordered_filter hrec.entered]
    exact congrArg _ (filter_notMem_take (nodup_ordered hrec.entered address) n)
  · rw [hrec'.waiting_eq, ordered_filter hrec.entered, hwaiting, filter_eq_self.2]
    intro e he
    simp only [decide_eq_true_eq]
    intro hfirst
    exact ha ((mem_ordered.1 he).2.symm.trans (mem_ordered.1 (mem_of_mem_take hfirst)).2)

end Nixe.PriorityWait
