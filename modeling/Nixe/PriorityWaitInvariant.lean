/-
**The indexes of the priority wait queue agree.**

The agreement of queues and positions is a placement: a thread occurs once in the queue that its
position names and in no other (`Filed`).  Under it the queue has a simple reading, a partial map
from threads to waiters (`lookup`), and the other indexes are described through that map.  Each
operation is then a change of the map at one thread, or a loop of such changes.

Main definitions:

* `Filed`, `lookup` — queues that match positions, and the waiter of a thread;
* `Inv` — the invariant of the queue;
* `Ends` — some waits are completed with a given result, the others are untouched.

Main results:

* `removeActive_some` — `remove_active` never fails on a waiting thread;
* `enqueue_ensures`, `signal_ensures`, `expire_ensures`, `changePriority_ensures`, `remove_ensures`
  — **the operations keep the invariant and do not panic**; in particular the loop of `expire` ends.
-/

import Nixe.PriorityWait
import Nixe.Placement

set_option autoImplicit false

namespace Nixe.PriorityWait

open Std (TreeMap TreeSet)
open List Option Std.TreeMap Call Buckets PriorityAddressWaitQueue

/-! ### Queues and positions -/

section Filed

variable {queues : Buckets ℕ ℤ Waiter} {positions : TreeMap GuestThreadId (ℕ × ℤ)}
  {t : GuestThreadId} {a : ℕ} {p : ℤ} {w : Waiter}

/-- A thread occurs once in the queue that its position names, and in no other queue. -/
structure Filed (queues : Buckets ℕ ℤ Waiter) (positions : TreeMap GuestThreadId (ℕ × ℤ)) :
    Prop where
  placed : Placed Waiter.thread (fun i : ℕ × ℤ => queues.bucket i.1 i.2) fun t => positions[t]?
  tidy : queues.Tidy

/-- The waiter of a thread, at the position of the thread. -/
def lookup (queues : Buckets ℕ ℤ Waiter) (positions : TreeMap GuestThreadId (ℕ × ℤ))
    (t : GuestThreadId) : Option Waiter :=
  positions[t]?.bind fun position =>
    (queues.bucket position.1 position.2).find? fun waiter => waiter.thread == t

theorem lookup_of_none (h : positions[t]? = none) : lookup queues positions t = none := by
  simp [lookup, h]

theorem lookup_of_some (h : positions[t]? = some (a, p)) : lookup queues positions t =
      (queues.bucket a p).find? fun waiter => waiter.thread == t := by
  simp [lookup, h]

theorem lookup_thread (h : lookup queues positions t = some w) : w.thread = t := by
  obtain ⟨position, -, hw⟩ := bind_eq_some_iff.1 h
  simpa using find?_some hw

section Filed

variable (h : Filed queues positions)
include h

/-- A waiter in a queue is the waiter of its thread, whose position is that queue. -/
theorem Filed.position_of_mem (hw : w ∈ queues.bucket a p) : positions[w.thread]? = some (a, p) :=
  h.placed.place_of_mem hw

theorem Filed.lookup_of_mem (hw : w ∈ queues.bucket a p) :
    lookup queues positions w.thread = some w := by
  rw [lookup_of_some (h.position_of_mem hw)]
  exact h.placed.find?_of_mem (i := (a, p)) hw

theorem Filed.exists_waiter (ht : positions[t]? = some (a, p)) :
    ∃ w, lookup queues positions t = some w := by
  obtain ⟨w, hw, rfl⟩ := h.placed.exists_mem ht
  exact ⟨w, h.lookup_of_mem hw⟩

/-- Appending the waiter of a thread that was not waiting. -/
theorem Filed.push (a : ℕ) (p : ℤ) (w : Waiter) (hnone : positions[w.thread]? = none) :
    Filed (queues.push a p w) (positions.insert w.thread (a, p)) := by
  rw [push_eq_store]
  refine ⟨h.placed.push (a, p) w hnone ?_ ?_, h.tidy.store⟩
  · simp [bucket_store]
  · simp [TreeMap.getElem?_insert]

theorem Filed.take (ht : positions[t]? = some (a, p)) :
    Filed (queues.store a p ((queues.bucket a p).eraseP fun waiter => waiter.thread == t))
      (positions.erase t) := by
  refine ⟨h.placed.take ht ?_ ?_, h.tidy.store⟩
  · simp [bucket_store]
  · simp [getElem?_erase]

/-- Taking out the waiter of a thread filters the thread out of every queue. -/
theorem Filed.bucket_take (ht : positions[t]? = some (a, p)) (a' : ℕ)
    (p' : ℤ) :
    (queues.store a p ((queues.bucket a p).eraseP fun waiter => waiter.thread == t)).bucket a' p' =
      (queues.bucket a' p').filter fun waiter => waiter.thread != t := by
  rw [bucket_store]
  split
  · rename_i hb
    obtain ⟨rfl, rfl⟩ := hb
    exact Placed.eraseP_eq_filter (h.placed.nodup (a, p)) t
  · rename_i hb
    refine (filter_eq_self.2 fun w hw => ?_).symm
    have hpos := h.position_of_mem hw
    simp only [bne_iff_ne, ne_eq]
    rintro rfl
    rw [ht, some.injEq, Prod.mk.injEq] at hpos
    exact hb hpos

/-- The waiter of a thread is the waiter with that thread, in whatever queue it is. -/
theorem Filed.lookup_iff :
    lookup queues positions t = some w ↔ w.thread = t ∧ ∃ a p, w ∈ queues.bucket a p := by
  constructor
  · intro hw
    refine ⟨lookup_thread hw, ?_⟩
    obtain ⟨position, -, hfind⟩ := bind_eq_some_iff.1 hw
    exact ⟨position.1, position.2, mem_of_find?_eq_some hfind⟩
  · rintro ⟨rfl, a, p, hw⟩
    exact h.lookup_of_mem hw

theorem Filed.lookup_push (hnone : positions[w.thread]? = none) :
    lookup (queues.push a p w) (positions.insert w.thread (a, p)) t =
      if w.thread = t then some w else lookup queues positions t := by
  have h' := h.push a p w hnone
  have hbucket : ∀ a' p', (queues.push a p w).bucket a' p' =
      if a = a' ∧ p = p' then queues.bucket a p ++ [w] else queues.bucket a' p' := by
    intro a' p'
    rw [push_eq_store, bucket_store]
  by_cases ht : w.thread = t
  · subst ht
    rw [if_pos rfl]
    refine h'.lookup_of_mem (a := a) (p := p) ?_
    simp [hbucket]
  · rw [if_neg ht]
    ext w'
    rw [h'.lookup_iff, h.lookup_iff]
    refine and_congr_right fun hw' => exists_congr fun a' => exists_congr fun p' => ?_
    rw [hbucket]
    by_cases hb : a = a' ∧ p = p'
    · obtain ⟨rfl, rfl⟩ := hb
      have hne : w' ≠ w := fun he => ht (he ▸ hw')
      simp [hne]
    · rw [if_neg hb]

theorem Filed.lookup_take (ht : positions[t]? = some (a, p))
    (i : GuestThreadId) :
    lookup (queues.store a p ((queues.bucket a p).eraseP fun waiter => waiter.thread == t))
      (positions.erase t) i = if t = i then none else lookup queues positions i := by
  have h' := h.take ht
  by_cases hi : t = i
  · subst hi
    rw [if_pos rfl]
    exact lookup_of_none (by simp)
  · rw [if_neg hi]
    ext w
    rw [h'.lookup_iff, h.lookup_iff]
    refine and_congr_right fun hw => exists_congr fun a' => exists_congr fun p' => ?_
    rw [bucket_store]
    by_cases hb : a = a' ∧ p = p'
    · obtain ⟨rfl, rfl⟩ := hb
      rw [if_pos ⟨rfl, rfl⟩, mem_eraseP_of_neg]
      simpa [hw] using fun he => hi he.symm
    · rw [if_neg hb]

end Filed

end Filed

/-! ### The invariant -/

def PriorityAddressWaitQueue.waiterOf (s : PriorityAddressWaitQueue) (t : GuestThreadId) :
    Option Waiter :=
  lookup s.queues s.positions t

structure Inv (s : PriorityAddressWaitQueue) : Prop where
  filed : Filed s.queues s.positions
  deadline_iff : ∀ k, k ∈ s.deadlines ↔
    (s.waiterOf k.thread).bind Waiter.deadline = some k.deadline
  disjoint : ∀ t, (s.waiterOf t).isSome → s.completed[t]? = none
  event_lt : ∀ t w, s.waiterOf t = some w → w.event < s.events.next
  event_silent : ∀ t w, s.waiterOf t = some w → w.event ∉ s.events.signalled
  event_inj : ∀ t w t' w', s.waiterOf t = some w → s.waiterOf t' = some w' →
    w.event = w'.event → t = t'
  signalled_lt : ∀ e ∈ s.events.signalled, e < s.events.next
  signalled_nodup : s.events.signalled.Nodup

theorem waiterOf_empty (t : GuestThreadId) : empty.waiterOf t = none :=
  lookup_of_none (by simp [PriorityAddressWaitQueue.empty])

attribute [local simp] waiterOf_empty

theorem inv_empty : Inv .empty := by
  refine ⟨⟨?_, tidy_empty⟩, ?_, ?_, ?_, ?_, ?_, ?_, ?_⟩
  · intro t i
    simp [PriorityAddressWaitQueue.empty]
  · intro k
    rw [waiterOf_empty]
    simp [PriorityAddressWaitQueue.empty]
  · simp
  · simp
  · simp
  · simp
  · simp [PriorityAddressWaitQueue.empty]
  · simp [PriorityAddressWaitQueue.empty]

variable {s s' : PriorityAddressWaitQueue} {t thread : GuestThreadId} {w : Waiter}
  {r : AddressWaitResult}

/-- A thread with a pending wait has a position, and its waiter is in the queue at that position. -/
theorem position_of_waiter (hw : s.waiterOf t = some w) : ∃ a p, s.positions[t]? = some (a, p) ∧
      (s.queues.bucket a p).find? (fun waiter => waiter.thread == t) = some w := by
  obtain ⟨⟨a, p⟩, hpos, hfind⟩ := bind_eq_some_iff.1 hw
  exact ⟨a, p, hpos, hfind⟩

/-- A thread without a pending wait has no position. -/
theorem Inv.position_none (hs : Inv s) (h : s.waiterOf t = none) : s.positions[t]? = none := by
  rcases hp : s.positions[t]? with _ | ⟨a, p⟩
  · rfl
  · obtain ⟨w, hw⟩ := hs.filed.exists_waiter hp
    rw [waiterOf, hw] at h
    cases h

/-! ### Ending a wait -/

/-- The wait of the thread `t` was taken out of the queues, and nothing else has changed. -/
structure Dropped (t : GuestThreadId) (w : Waiter) (s s' : PriorityAddressWaitQueue) : Prop where
  filed : Filed s'.queues s'.positions
  buckets : ∀ a p, s'.queues.bucket a p = (s.queues.bucket a p).filter fun v => v.thread != t
  positions : s'.positions = s.positions.erase t
  view : ∀ i, s'.waiterOf i = if t = i then none else s.waiterOf i
  deadlines : s'.deadlines = w.deadline.elim s.deadlines fun d => s.deadlines.erase ⟨d, t⟩
  completed : s'.completed = s.completed
  events : s'.events = s.events

/-- The deadline of a waiter, taken out of the set of deadlines. -/
theorem Inv.mem_deadlines_drop (hs : Inv s) (hw : s.waiterOf t = some w) (k : DeadlineKey) :
    k ∈ w.deadline.elim s.deadlines (fun d => s.deadlines.erase ⟨d, t⟩) ↔
      k ∈ s.deadlines ∧ k.thread ≠ t := by
  have hk : k ∈ s.deadlines → k.thread = t → w.deadline = some k.deadline := by
    intro hmem ht
    have := (hs.deadline_iff k).1 hmem
    rwa [ht, hw] at this
  rcases hd : w.deadline with _ | d
  · refine ⟨fun hmem => ⟨hmem, fun ht => ?_⟩, And.left⟩
    simpa [hd] using hk hmem ht
  · simp only [elim_some, TreeSet.mem_erase, ne_eq, Std.compare_eq_iff_eq]
    constructor
    · rintro ⟨hne, hmem⟩
      refine ⟨hmem, fun ht => hne ?_⟩
      cases k
      simp_all
    · rintro ⟨hmem, hne⟩
      exact ⟨fun he => hne (by rw [← he]), hmem⟩

/-- The wait of one thread is over: what is left was there before, and its events are still to
come. -/
theorem Inv.without (hs : Inv s) (hfiled : Filed s'.queues s'.positions)
    (hview : ∀ i, s'.waiterOf i = if t = i then none else s.waiterOf i)
    (hdeadlines : ∀ k, k ∈ s'.deadlines ↔ k ∈ s.deadlines ∧ k.thread ≠ t)
    (hcompleted : ∀ i, t ≠ i → s'.completed[i]? = s.completed[i]?)
    (hnext : s'.events.next = s.events.next)
    (hsilent : ∀ i v, t ≠ i → s.waiterOf i = some v → v.event ∉ s'.events.signalled)
    (hlt : ∀ e ∈ s'.events.signalled, e < s.events.next) (hnodup : s'.events.signalled.Nodup) :
    Inv s' := by
  have hleft : ∀ i v, s'.waiterOf i = some v → t ≠ i ∧ s.waiterOf i = some v := by
    intro i v hv
    rw [hview] at hv
    by_cases hi : t = i
    · simp [hi] at hv
    · exact ⟨hi, by simpa [hi] using hv⟩
  refine ⟨hfiled, ?_, ?_, ?_, ?_, ?_, by rwa [hnext], hnodup⟩
  · intro k
    rw [hdeadlines, hs.deadline_iff, hview]
    by_cases hk : t = k.thread
    · simp [hk]
    · have hk' : k.thread ≠ t := fun he => hk he.symm
      simp [hk, hk']
  · intro i hi
    obtain ⟨v, hv⟩ := isSome_iff_exists.1 hi
    obtain ⟨hne, hold⟩ := hleft i v hv
    rw [hcompleted i hne]
    exact hs.disjoint i (by simp [hold])
  · intro i v hv
    rw [hnext]
    exact hs.event_lt i v (hleft i v hv).2
  · intro i v hv
    exact hsilent i v (hleft i v hv).1 (hleft i v hv).2
  · intro i v i' v' hv hv'
    exact hs.event_inj i v i' v' (hleft i v hv).2 (hleft i' v' hv').2

theorem Inv.drop (hs : Inv s) (hw : s.waiterOf t = some w) (h : Dropped t w s s') : Inv s' := by
  refine hs.without h.filed h.view (fun k => ?_) (fun i _ => by rw [h.completed])
    (by rw [h.events]) (fun i v _ hv => ?_) ?_ ?_
  · rw [h.deadlines, hs.mem_deadlines_drop hw]
  · rw [h.events]
    exact hs.event_silent i v hv
  · rw [h.events]
    exact hs.signalled_lt
  · rw [h.events]
    exact hs.signalled_nodup

theorem removeActive_none (h : s.positions[t]? = none) : removeActive t s = (.ok none, s) := by
  simp [removeActive, h]

variable (deadline : Option ℕ)

theorem removeDeadline_run (t : GuestThreadId) (s : PriorityAddressWaitQueue) :
    removeDeadline deadline t s = (.ok (), { s with
      deadlines := deadline.elim s.deadlines fun d => s.deadlines.erase ⟨d, t⟩ }) := by
  cases deadline <;> rfl

/-- `remove_active` finds the waiter of a waiting thread, and takes it out. -/
theorem removeActive_some (hs : Inv s) (hw : s.waiterOf t = some w) :
    ∃ s', removeActive t s = (.ok (some w), s') ∧ Dropped t w s s' := by
  obtain ⟨a, p, hpos, hfind⟩ := position_of_waiter hw
  -- the queue exists because the waiter is in it
  obtain ⟨priorities, ha⟩ : ∃ priorities, s.queues[a]? = some priorities := by
    rcases ha : s.queues[a]? with _ | priorities
    · simp [bucket, ha] at hfind
    · exact ⟨priorities, rfl⟩
  have hbucket := bucket_of ha p
  obtain ⟨q, hq⟩ : ∃ q, priorities[p]? = some q := by
    rcases hq : priorities[p]? with _ | q
    · simp [hbucket, hq] at hfind
    · exact ⟨q, rfl⟩
  rw [hq, getD_some] at hbucket
  rw [hbucket] at hfind
  obtain ⟨index, hindex, hget⟩ := bind_eq_some_iff.1 (find?_eq_bind_findIdx?_getElem? ▸ hfind)
  have herase : q.eraseIdx index = q.eraseP fun waiter => waiter.thread == t := by
    rw [eraseP_eq_eraseIdx, hindex]
  refine ⟨{ s with
    queues := s.queues.store a p (q.eraseP fun waiter => waiter.thread == t)
    positions := s.positions.erase t
    deadlines := w.deadline.elim s.deadlines fun d => s.deadlines.erase ⟨d, t⟩ }, ?_, ?_⟩
  · simp [removeActive, hpos, ha, hq, hindex, hget, removeDeadline_run, herase,
      put_eq_store ha]
  · rw [← hbucket]
    exact ⟨hs.filed.take hpos, hs.filed.bucket_take hpos, rfl, hs.filed.lookup_take hpos, rfl, rfl,
      rfl⟩

/-- The wait of the thread `t` was completed with the result `r`. -/
structure Finished (t : GuestThreadId) (w : Waiter) (r : AddressWaitResult)
    (s s' : PriorityAddressWaitQueue) : Prop where
  filed : Filed s'.queues s'.positions
  buckets : ∀ a p, s'.queues.bucket a p = (s.queues.bucket a p).filter fun v => v.thread != t
  view : ∀ i, s'.waiterOf i = if t = i then none else s.waiterOf i
  deadlines : ∀ k, k ∈ s'.deadlines ↔ k ∈ s.deadlines ∧ k.thread ≠ t
  completed : s'.completed = s.completed.insert t r
  next : s'.events.next = s.events.next
  signalled : s'.events.signalled = s.events.signalled ++ [w.event]

theorem Inv.finish (hs : Inv s) (hw : s.waiterOf t = some w) (h : Finished t w r s s') :
    Inv s' := by
  refine hs.without h.filed h.view h.deadlines (fun i hne => ?_) h.next (fun i v hne hv => ?_) ?_ ?_
  · rw [h.completed, TreeMap.getElem?_insert]
    simp [hne]
  · rw [h.signalled, mem_append, mem_singleton]
    rintro (hmem | heq)
    · exact hs.event_silent i v hv hmem
    · exact hne (hs.event_inj t w i v hw hv heq.symm)
  · intro e he
    rw [h.signalled, mem_append, mem_singleton] at he
    rcases he with he | rfl
    · exact hs.signalled_lt e he
    · exact hs.event_lt t w hw
  · rw [h.signalled, nodup_append]
    refine ⟨hs.signalled_nodup, by simp, ?_⟩
    intro e he e' he'
    rw [mem_singleton] at he'
    rintro rfl
    exact hs.event_silent t w hw (he' ▸ he)

/-- **What a loop that completes waits does.**  Each wait is left alone, or completed with the
result `r`; the events of the completed waits, and no others, are signalled. -/
structure Ends (r : AddressWaitResult) (s s' : PriorityAddressWaitQueue) : Prop where
  next : s'.events.next = s.events.next
  fate : ∀ t, (s'.waiterOf t = s.waiterOf t ∧ s'.completed[t]? = s.completed[t]?) ∨
    ∃ w, s.waiterOf t = some w ∧ s'.waiterOf t = none ∧ s'.completed[t]? = some r ∧
      w.event ∈ s'.events.signalled
  log : ∃ ended, s'.events.signalled = s.events.signalled ++ ended ∧
    ∀ e ∈ ended, ∃ t w, s.waiterOf t = some w ∧ w.event = e ∧ s'.waiterOf t = none

theorem Ends.refl (r : AddressWaitResult) (s : PriorityAddressWaitQueue) : Ends r s s :=
  ⟨rfl, fun _ => .inl ⟨rfl, rfl⟩, [], by simp, by simp⟩

theorem Ends.trans {s'' : PriorityAddressWaitQueue} (h : Ends r s s') (h' : Ends r s' s'') :
    Ends r s s'' := by
  obtain ⟨ended, hended, hmem⟩ := h.log
  obtain ⟨ended', hended', hmem'⟩ := h'.log
  refine ⟨h'.next.trans h.next, ?_, ended ++ ended', by rw [hended', hended, append_assoc], ?_⟩
  · intro t
    rcases h.fate t with ⟨hw, hc⟩ | ⟨w, hw, hnone, hc, he⟩
    · rcases h'.fate t with ⟨hw', hc'⟩ | ⟨w, hw', hrest⟩
      · exact .inl ⟨hw'.trans hw, hc'.trans hc⟩
      · exact .inr ⟨w, hw ▸ hw', hrest⟩
    · -- a wait that is over is not touched again
      rcases h'.fate t with ⟨hw', hc'⟩ | ⟨w', hw', -⟩
      · refine .inr ⟨w, hw, hw'.trans hnone, hc'.trans hc, ?_⟩
        rw [hended']
        exact mem_append_left _ he
      · rw [hnone] at hw'
        cases hw'
  · intro e he
    rcases mem_append.1 he with he | he
    · obtain ⟨t, w, hw, hwe, hnone⟩ := hmem e he
      refine ⟨t, w, hw, hwe, ?_⟩
      rcases h'.fate t with ⟨hw', -⟩ | ⟨w', hw', -⟩
      · exact hw'.trans hnone
      · rw [hnone] at hw'
        cases hw'
    · obtain ⟨t, w, hw, hwe, hnone⟩ := hmem' e he
      refine ⟨t, w, ?_, hwe, hnone⟩
      rcases h.fate t with ⟨hw', -⟩ | ⟨w', -, hnone', -⟩
      · exact hw' ▸ hw
      · rw [hnone'] at hw
        cases hw

theorem Finished.ends (h : Finished t w r s s') (hw : s.waiterOf t = some w) : Ends r s s' := by
  refine ⟨h.next, ?_, [w.event], h.signalled, ?_⟩
  · intro i
    by_cases hi : t = i
    · subst hi
      refine .inr ⟨w, hw, by simp [h.view], by simp [h.completed], by simp [h.signalled]⟩
    · exact .inl ⟨by simp [h.view, hi], by simp [h.completed, TreeMap.getElem?_insert, hi]⟩
  · intro e he
    exact ⟨t, w, hw, (mem_singleton.1 he).symm, by simp [h.view]⟩

theorem complete_run :
    complete w r s = (.ok (), { s with
      deadlines := w.deadline.elim s.deadlines fun d => s.deadlines.erase ⟨d, w.thread⟩
      completed := s.completed.insert w.thread r
      events := { s.events with signalled := s.events.signalled ++ [w.event] } }) := by
  simp [complete, removeDeadline_run, signalEvent]

/-! ### `signal` -/

/-- One round of `signal`: there is no waiter at the address, or the first one of the least priority
is completed. -/
theorem signalOne_cases (hs : Inv s) (address : ℕ) :
    (signalOne address s = (.ok false, s) ∧ s.queues[address]? = none) ∨
    ∃ w s', signalOne address s = (.ok true, s') ∧
      (∃ priorities p rest others, s.queues[address]? = some priorities ∧
        priorities.toList = (p, w :: rest) :: others) ∧
      s.waiterOf w.thread = some w ∧ Finished w.thread w .signalled s s' := by
  rcases ha : s.queues[address]? with _ | priorities
  · simp [signalOne, ha]
  right
  -- the structure is tidy, so there is a first priority and a first waiter
  obtain ⟨⟨p, q⟩, hhead⟩ : ∃ entry, priorities.toList.head? = some entry := by
    have hne := hs.filed.tidy.inner address priorities ha
    rcases hl : priorities.toList with _ | ⟨entry, rest⟩
    · rw [← isEmpty_toList, hl] at hne
      cases hne
    · exact ⟨entry, rfl⟩
  have hq : priorities[p]? = some q := by
    rw [← mem_toList_iff_getElem?_eq_some]
    exact mem_of_head? hhead
  obtain ⟨w, rest, rfl⟩ : ∃ w rest, q = w :: rest :=
    exists_cons_of_ne_nil (hs.filed.tidy.bucket address priorities p q ha hq)
  have hbucket : s.queues.bucket address p = w :: rest := by
    rw [bucket_of ha, hq, getD_some]
  have hmem : w ∈ s.queues.bucket address p := by simp [hbucket]
  have hw : s.waiterOf w.thread = some w := hs.filed.lookup_of_mem hmem
  have hpos := hs.filed.position_of_mem hmem
  have hrest : rest = (s.queues.bucket address p).eraseP fun v => v.thread == w.thread := by
    simp [hbucket]
  refine ⟨w, { s with
    queues := s.queues.store address p rest
    positions := s.positions.erase w.thread
    deadlines := w.deadline.elim s.deadlines fun d => s.deadlines.erase ⟨d, w.thread⟩
    completed := s.completed.insert w.thread .signalled
    events := { s.events with signalled := s.events.signalled ++ [w.event] } }, ?_, ?_, hw, ?_⟩
  · simp [signalOne, ha, hhead, complete_run, put_eq_store ha]
  · exact ⟨priorities, p, rest, _, rfl, eq_cons_of_mem_head? hhead⟩
  · rw [hrest]
    exact ⟨hs.filed.take hpos, hs.filed.bucket_take hpos, hs.filed.lookup_take hpos,
      hs.mem_deadlines_drop hw, rfl, rfl, rfl⟩

attribute [local simp] Call.Ensures

/-- **`signal` keeps the invariant**, does not panic, and completes waits with `Signalled`. -/
theorem signal_ensures (address count : ℕ) : ∀ s : PriorityAddressWaitQueue, Inv s →
    Call.Ensures (signal address count) s (fun _ s' => Inv s' ∧ Ends .signalled s s')
      fun _ _ => False := by
  induction count with
  | zero =>
    intro s hs
    exact ⟨hs, .refl _ s⟩
  | succ count ih =>
    intro s hs
    rcases signalOne_cases hs address with ⟨h, -⟩ | ⟨w, s', h, -, hw, hfin⟩
    · simpa [signal, h] using ⟨hs, Ends.refl .signalled s⟩
    · have hrest := ih s' (hs.finish hw hfin)
      have hends := hfin.ends hw
      rw [Call.Ensures]
      simp only [signal, bind_run, h, if_true]
      exact hrest.mono fun _ _ h' => ⟨h'.1, hends.trans h'.2⟩

/-! ### `expire` -/

/-- The first deadline belongs to a pending wait, which one round of `expire` completes; one
deadline less is left. -/
theorem expire_round (hs : Inv s) {k : DeadlineKey} (hk : k ∈ s.deadlines) :
    ∃ w s₁ s₂, s.waiterOf k.thread = some w ∧
      removeActive k.thread s = (.ok (some w), s₁) ∧ complete w .timedOut s₁ = (.ok (), s₂) ∧
      Finished k.thread w .timedOut s s₂ ∧ s₂.deadlines.size < s.deadlines.size := by
  obtain ⟨w, hw, hd⟩ := bind_eq_some_iff.1 ((hs.deadline_iff k).1 hk)
  obtain ⟨s₁, hrun, hdrop⟩ := removeActive_some hs hw
  have hthread : w.thread = k.thread := lookup_thread hw
  have hdead : s₁.deadlines = s.deadlines.erase k := by
    rw [hdrop.deadlines, hd]
    rfl
  have hmem : ∀ k', k' ∈ s.deadlines.erase k ↔ k' ∈ s.deadlines ∧ k'.thread ≠ k.thread := by
    intro k'
    simpa [hd] using hs.mem_deadlines_drop hw k'
  refine ⟨w, s₁, _, hw, hrun, complete_run, ?_, ?_⟩
  · refine ⟨hdrop.filed, hdrop.buckets, hdrop.view, ?_, ?_, ?_, ?_⟩
    · -- the deadline is erased a second time, which changes nothing
      intro k'
      simp only [hd, hthread, elim_some, hdead, ← hmem k']
      rw [TreeSet.mem_erase]
      refine and_iff_right_of_imp fun hk' heq => ?_
      exact ((hmem k').1 hk').2 (by rw [← Std.LawfulEqOrd.eq_of_compare heq])
    · simp [hthread, hdrop.completed]
    · simp [hdrop.events]
    · simp [hdrop.events]
  · simp only [hd, hthread, elim_some, hdead]
    have hpos : 0 < s.deadlines.size := by
      rw [← TreeSet.length_toList]
      exact length_pos_of_mem (TreeSet.mem_toList.2 hk)
    have hone : (s.deadlines.erase k).size = s.deadlines.size - 1 := by
      rw [TreeSet.size_erase, if_pos (TreeSet.contains_iff_mem.2 hk)]
    have htwo := TreeSet.size_erase_le (t := s.deadlines.erase k) (k := k)
    have hk' : (⟨k.deadline, k.thread⟩ : DeadlineKey) = k := rfl
    rw [hk']
    omega

/-- With a round for each deadline and one more, the loop of `expire` ends by itself. -/
theorem expireLoop_ensures {now : ℕ} : ∀ (fuel : ℕ) (s : PriorityAddressWaitQueue), Inv s →
    s.deadlines.size < fuel →
    Call.Ensures (expireLoop now fuel) s (fun _ s' => Inv s' ∧ Ends .timedOut s s')
      fun _ _ => False := by
  intro fuel
  induction fuel with
  | zero => omega
  | succ fuel ih =>
    intro s hs hfuel
    rcases hhead : s.deadlines.toList.head? with _ | k
    · simpa [expireLoop, hhead] using ⟨hs, Ends.refl .timedOut s⟩
    by_cases hnow : k.deadline > now
    · simpa [expireLoop, hhead, hnow] using ⟨hs, Ends.refl .timedOut s⟩
    have hk : k ∈ s.deadlines := TreeSet.mem_toList.1 (mem_of_head? hhead)
    obtain ⟨w, s₁, s₂, hw, hremove, hcomplete, hfin, hsize⟩ := expire_round hs hk
    have hrest := ih s₂ (hs.finish hw hfin) (by omega)
    have hends := hfin.ends hw
    rw [Call.Ensures]
    simp only [expireLoop, bind_run, read_run, hhead, hnow, if_false, hremove,
      expect_some, hcomplete]
    exact hrest.mono fun _ _ h => ⟨h.1, hends.trans h.2⟩

theorem expire_ensures (hs : Inv s) {now : ℕ} :
    Call.Ensures (expire now) s (fun _ s' => Inv s' ∧ Ends .timedOut s s') fun _ _ => False :=
  expireLoop_ensures _ s hs (Nat.lt_succ_self _)

/-! ### A new wait, and a wait that moves -/

/-- A wait is added under an event that no pending wait and no entry of the log has. -/
theorem Inv.add (hs : Inv s) (s' : PriorityAddressWaitQueue) {a : ℕ} {p : ℤ} (w : Waiter)
    (hnone : s.waiterOf w.thread = none) (hfree : s.completed[w.thread]? = none)
    (hlt : w.event < s'.events.next) (hsilent : w.event ∉ s.events.signalled)
    (hnew : ∀ t v, s.waiterOf t = some v → v.event ≠ w.event)
    (hqueues : s'.queues = s.queues.push a p w)
    (hpositions : s'.positions = s.positions.insert w.thread (a, p))
    (hdead : ∀ k, k ∈ s'.deadlines ↔ k ∈ s.deadlines ∨
      k.thread = w.thread ∧ w.deadline = some k.deadline) (hcompleted : s'.completed = s.completed)
    (hn : s.events.next ≤ s'.events.next) (hlog : s'.events.signalled = s.events.signalled) :
    Inv s' ∧ ∀ i, s'.waiterOf i = if w.thread = i then some w else s.waiterOf i := by
  have hpos := hs.position_none hnone
  have hview : ∀ i, s'.waiterOf i = if w.thread = i then some w else s.waiterOf i := by
    intro i
    rw [waiterOf, hqueues, hpositions]
    exact hs.filed.lookup_push hpos
  -- a wait of the new state is the new one or an old one of another thread
  have hcases : ∀ i v, s'.waiterOf i = some v →
      (w.thread = i ∧ w = v) ∨ (w.thread ≠ i ∧ s.waiterOf i = some v) := by
    intro i v hv
    rw [hview] at hv
    by_cases hi : w.thread = i
    · exact .inl ⟨hi, by simpa [hi] using hv⟩
    · exact .inr ⟨hi, by simpa [hi] using hv⟩
  refine ⟨⟨?_, ?_, ?_, ?_, ?_, ?_, ?_, ?_⟩, hview⟩
  · rw [hqueues, hpositions]
    exact hs.filed.push a p w hpos
  · intro k
    rw [hdead, hs.deadline_iff, hview]
    by_cases hk : w.thread = k.thread
    · simp [← hk, hnone]
    · have hk' : k.thread ≠ w.thread := fun he => hk he.symm
      simp [hk, hk']
  · intro i hi
    obtain ⟨v, hv⟩ := isSome_iff_exists.1 hi
    rw [hcompleted]
    rcases hcases i v hv with ⟨rfl, -⟩ | ⟨-, hold⟩
    · exact hfree
    · exact hs.disjoint i (by simp [hold])
  · intro i v hv
    rcases hcases i v hv with ⟨-, rfl⟩ | ⟨-, hold⟩
    · exact hlt
    · exact lt_of_lt_of_le (hs.event_lt i v hold) hn
  · intro i v hv
    rw [hlog]
    rcases hcases i v hv with ⟨-, rfl⟩ | ⟨-, hold⟩
    · exact hsilent
    · exact hs.event_silent i v hold
  · intro i v i' v' hv hv' he
    rcases hcases i v hv with ⟨hi, rfl⟩ | ⟨-, hold⟩ <;>
      rcases hcases i' v' hv' with ⟨hi', rfl⟩ | ⟨-, hold'⟩
    · exact hi.symm.trans hi'
    · exact absurd he.symm (hnew i' v' hold')
    · exact absurd he (hnew i v hold)
    · exact hs.event_inj i v i' v' hold hold' he
  · intro e he
    rw [hlog] at he
    exact lt_of_lt_of_le (hs.signalled_lt e he) hn
  · rw [hlog]
    exact hs.signalled_nodup

theorem insertDeadline_run (t : GuestThreadId) (s : PriorityAddressWaitQueue) :
    insertDeadline deadline t s = (.ok (), { s with
      deadlines := deadline.elim s.deadlines fun d => s.deadlines.insert ⟨d, t⟩ }) := by
  cases deadline <;> rfl

theorem mem_deadlines_insert (t : GuestThreadId)
    (deadlines : TreeSet DeadlineKey) (k : DeadlineKey) :
    k ∈ deadline.elim deadlines (fun d => deadlines.insert ⟨d, t⟩) ↔
      k ∈ deadlines ∨ k.thread = t ∧ deadline = some k.deadline := by
  cases deadline with
  | none => simp
  | some =>
    obtain ⟨kd, kt⟩ := k
    simp only [elim_some, TreeSet.mem_insert, Std.compare_eq_iff_eq, DeadlineKey.mk.injEq,
      some.injEq]
    tauto

theorem enqueue_ensures (hs : Inv s) {address : ℕ} {priority : ℤ} {deadline : Option ℕ} :
    Call.Ensures (enqueue address thread priority deadline) s (fun answer s' => Inv s' ∧
        ((answer = none ∧ s' = s) ∨ (answer = some s.events.next ∧ s.waiterOf thread = none ∧
            s'.events = ⟨s.events.next + 1, s.events.signalled⟩ ∧
            s'.completed = s.completed ∧
            ∀ i, s'.waiterOf i =
              if thread = i then some ⟨thread, deadline, s.events.next⟩ else s.waiterOf i)))
      fun _ _ => False := by
  unfold enqueue
  rcases hc : contains s thread with _ | _
  swap
  · simp [hc, hs]
  obtain ⟨hpos, hfree⟩ : s.positions.contains thread = false ∧
      s.completed.contains thread = false := by
    simpa [contains] using hc
  have hnone : s.waiterOf thread = none :=
    lookup_of_none (getElem?_eq_none_of_contains_eq_false hpos)
  simp [hc, insertDeadline_run, hnone]
  exact hs.add _ ⟨thread, deadline, s.events.next⟩ hnone
    (getElem?_eq_none_of_contains_eq_false hfree) (Nat.lt_succ_self _)
    (fun he => (hs.signalled_lt _ he).false) (fun t v hv => (hs.event_lt t v hv).ne) rfl rfl
    (mem_deadlines_insert deadline thread s.deadlines) rfl (Nat.le_succ _) rfl

/-- `change_priority` moves a wait to another queue, and changes nothing of it. -/
theorem changePriority_ensures (hs : Inv s) {priority : ℤ} :
    Call.Ensures (changePriority thread priority) s
      (fun _ s' => Inv s' ∧ (∀ i, s'.waiterOf i = s.waiterOf i) ∧ s'.completed = s.completed ∧
        s'.events = s.events)
      fun _ _ => False := by
  unfold changePriority
  rcases hpos : s.positions[thread]? with _ | ⟨address, oldPriority⟩
  · simp [hpos, hs]
  by_cases hp : oldPriority = priority
  · simp [hpos, hp, hs]
  obtain ⟨w, hw⟩ : ∃ w, s.waiterOf thread = some w := hs.filed.exists_waiter hpos
  obtain ⟨s₁, hrun, hdrop⟩ := removeActive_some hs hw
  obtain rfl : w.thread = thread := lookup_thread hw
  have hgone : s₁.waiterOf w.thread = none := by simp [hdrop.view]
  have hfree : s₁.completed[w.thread]? = none := by
    rw [hdrop.completed]
    exact hs.disjoint w.thread (by simp [hw])
  have hother : ∀ t v, s₁.waiterOf t = some v → v.event ≠ w.event := by
    intro t v hv he
    rw [hdrop.view] at hv
    by_cases ht : w.thread = t
    · simp [ht] at hv
    · rw [if_neg ht] at hv
      exact ht (hs.event_inj _ w t v hw hv he.symm)
  simp only [Call.Ensures, bind_run, read_run, hpos, hp, if_false, hrun,
    expect_some, insertDeadline_run, update_run]
  obtain ⟨hinv, hview⟩ := (hs.drop hw hdrop).add { s₁ with
      queues := s₁.queues.push address priority w
      positions := s₁.positions.insert w.thread _
      deadlines := w.deadline.elim s₁.deadlines fun d => s₁.deadlines.insert _ }
    w hgone hfree
    (by rw [hdrop.events]; exact hs.event_lt _ w hw)
    (by rw [hdrop.events]; exact hs.event_silent _ w hw) hother rfl rfl
    (mem_deadlines_insert w.deadline w.thread s₁.deadlines) rfl le_rfl rfl
  refine ⟨hinv, ?_, hdrop.completed, hdrop.events⟩
  intro i
  rw [hview i, hdrop.view i]
  by_cases hi : w.thread = i
  · simp [← hi, hw]
  · simp [hi]

theorem Inv.forget (hs : Inv s) : Inv { s with completed := s.completed.erase thread } := by
  refine ⟨hs.filed, hs.deadline_iff, ?_, hs.event_lt, hs.event_silent, hs.event_inj,
    hs.signalled_lt, hs.signalled_nodup⟩
  intro i hi
  have hnone := hs.disjoint i hi
  by_cases ht : thread = i <;> simp [getElem?_erase, hnone]

/-- `remove` ends a wait without completing it, or forgets the result of one. -/
theorem remove_ensures (hs : Inv s) : Call.Ensures (remove thread) s
      (fun _ s' => Inv s' ∧ (∀ i, s'.waiterOf i = if thread = i then none else s.waiterOf i) ∧
        s'.completed = s.completed.erase thread ∧ s'.events = s.events)
      fun _ _ => False := by
  unfold remove
  rcases hw : s.waiterOf thread with _ | w
  · simp only [Call.Ensures, bind_run, removeActive_none (hs.position_none hw),
      update_run]
    refine ⟨hs.forget, ?_, trivial, trivial⟩
    intro i
    by_cases hi : thread = i
    · subst hi
      rw [if_pos rfl]
      exact hw
    · rw [if_neg hi]
      rfl
  · obtain ⟨s₁, hrun, hdrop⟩ := removeActive_some hs hw
    simp only [Call.Ensures, bind_run, hrun, update_run]
    exact ⟨(hs.drop hw hdrop).forget, hdrop.view, by rw [hdrop.completed], hdrop.events⟩

end Nixe.PriorityWait
