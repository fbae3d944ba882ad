/-
**What the registry of address waits does to its queues.**

Every method of the registry is described here by the queues it leaves behind: a queue grows at its
end, loses the waiter of one thread, or has some of its waiters changed in place.  When no thread
occurs twice in a queue, "the first waiter of the thread" is simply the waiter of the thread, and
the methods become maps and filters.

Main definitions:

* `AddressWaitRegistry.Distinct` — no queue has two waiters of one thread;
* `AddressWaiter.cancel` — what the end of the owner does to a waiter.

Main results:

* `AddressWaitRegistry.queue_remove`, `AddressWaitRegistry.queue_signalResult` — filters and maps;
* `cancelWaiters_ensures` — the loop of `release_thread` ends, and signals exactly the pending
  waiters;
* `releaseThread_ensures` — **the end of a thread**, as one formula.
-/

import Nixe.AddressWait
import Nixe.Placement
import Nixe.PriorityWaitInvariant

set_option autoImplicit false

namespace Nixe.AddressWait

open Std (TreeMap)
open PriorityWait (GuestThreadId)
open List Std.TreeMap AddressWaiter AddressWaitRegistry

/-! ### Choosing a waiter -/

variable {l : List AddressWaiter} {w : AddressWaiter}

/-- **The choice**: no waiter before the chosen one has a priority as low, and none after it has a
lower one. -/
theorem minByPriority_eq_some (h : minByPriority l = some w) :
    ∃ before after, l = before ++ w :: after ∧
      (∀ v ∈ before, w.priority < v.priority) ∧ ∀ v ∈ after, w.priority ≤ v.priority := by
  induction l generalizing w with
  | nil => cases h
  | cons v rest ih =>
    rw [minByPriority] at h
    rcases hr : minByPriority rest with _ | u
    · rw [hr] at h
      obtain rfl : v = w := by simpa using h
      cases rest with
      | nil => exact ⟨[], [], rfl, by simp, by simp⟩
      | cons =>
        rw [minByPriority] at hr
        split at hr <;> [skip; split at hr] <;> cases hr
    · rw [hr] at h
      obtain ⟨before, after, rfl, hbefore, hafter⟩ := ih hr
      dsimp only at h
      split at h
      · obtain rfl : u = w := by simpa using h
        refine ⟨v :: before, after, rfl, ?_, hafter⟩
        rintro x hx
        rcases mem_cons.1 hx with rfl | hx
        · assumption
        · exact hbefore x hx
      · obtain rfl : v = w := by simpa using h
        refine ⟨[], _, rfl, by simp, fun x hx => ?_⟩
        rcases mem_append.1 hx with hx | hx
        · have := hbefore x hx
          omega
        · rcases mem_cons.1 hx with rfl | hx
          · omega
          · have := hafter x hx
            omega

theorem minByPriority_mem (h : minByPriority l = some w) : w ∈ l := by
  obtain ⟨before, after, rfl, -, -⟩ := minByPriority_eq_some h
  simp

theorem minByPriority_eq_none : minByPriority l = none ↔ l = [] := by
  cases l with
  | nil => simp [minByPriority]
  | cons v rest =>
    rw [minByPriority]
    rcases minByPriority rest with _ | u
    · simp
    · dsimp only
      split <;> simp

namespace AddressWaitRegistry

variable {r : AddressWaitRegistry} {a v : ℕ} {t : GuestThreadId}

theorem nextWaiter_eq_some (h : r.nextWaiter a = some (t, v)) :
    ∃ w ∈ r.queue a, w.pending = true ∧ w.thread = t := by
  obtain ⟨w, hw, heq⟩ := Option.map_eq_some_iff.1 h
  obtain ⟨hmem, hpending⟩ := mem_filter.1 (minByPriority_mem hw)
  exact ⟨w, hmem, hpending, congrArg Prod.fst heq⟩

theorem nextWaiter_eq_none : r.nextWaiter a = none ↔ ∀ w ∈ r.queue a, w.pending = false := by
  rw [nextWaiter, Option.map_eq_none_iff, minByPriority_eq_none]
  simp

theorem nextCondition_eq_some {t lock : ℕ} (h : r.nextCondition a = some (t, v, lock)) :
    ∃ w ∈ r.queue a, w.thread = t ∧ w.lockAddress = some lock ∧ w.signalled = false := by
  obtain ⟨w, hw, h⟩ := Option.bind_eq_some_iff.1 h
  obtain ⟨hmem, hcondition⟩ := mem_filter.1 (minByPriority_mem hw)
  obtain ⟨lock', hlock, heq⟩ := Option.map_eq_some_iff.1 h
  obtain ⟨rfl, -, rfl⟩ := heq
  refine ⟨w, hmem, rfl, hlock, ?_⟩
  simpa [waitsForCondition, hlock] using hcondition

/-! ### Queues after one method -/

@[simp] theorem queue_empty (a : ℕ) : empty.queue a = [] := by
  simp [queue, empty]

@[simp] theorem queue_setQueue (a : ℕ) (q : List AddressWaiter) (b : ℕ) :
    (r.setQueue a q).queue b = if a = b then q else r.queue b := by
  unfold setQueue queue
  by_cases hq : q = []
  · subst hq
    by_cases hab : a = b <;> simp [getElem?_erase, hab]
  · by_cases hab : a = b <;> simp [TreeMap.getElem?_insert, hq, hab]

theorem queue_insert (a : ℕ) (q : List AddressWaiter) (b : ℕ) :
    queue { r with waiters := r.waiters.insert a q } b = if a = b then q else r.queue b := by
  unfold queue
  by_cases hab : a = b <;> simp [TreeMap.getElem?_insert, hab]

theorem queue_enqueueWithLock {t : ℕ} {lock : Option ℕ} (b : ℕ) :
    (r.enqueueWithLock a t v lock).queue b = if a = b then
      r.queue a ++ [⟨t, v, lock, 2 ^ 31 - 1, .success, false⟩] else r.queue b :=
  queue_insert a _ b

/-- Changing the waiters of all queues in place. -/
theorem queue_map {f : AddressWaiter → AddressWaiter} (b : ℕ) :
    queue { r with waiters := r.waiters.map fun _ waiters => waiters.map f } b =
      (r.queue b).map f := by
  unfold queue
  rw [TreeMap.getElem?_map]
  rcases r.waiters[b]? with _ | q <;> simp

@[simp] theorem queue_setOwner (a t b : ℕ) : (r.setOwner a t).queue b = r.queue b := rfl

@[simp] theorem queue_removeOwner (a b : ℕ) : (r.removeOwner a).queue b = r.queue b := rfl

theorem owner_setOwner {t b : ℕ} :
    (r.setOwner a t).owner b = if a = b then some t else r.owner b := by
  by_cases hab : a = b <;> simp [owner, setOwner, TreeMap.getElem?_insert]

theorem owner_removeOwner (a b : ℕ) :
    (r.removeOwner a).owner b = if a = b then none else r.owner b := by
  by_cases hab : a = b <;> simp [owner, removeOwner, getElem?_erase]

/-! ### One waiter for each thread -/

/-- No queue has two waiters of one thread. -/
def Distinct (r : AddressWaitRegistry) : Prop :=
  ∀ a, ((r.queue a).map thread).Nodup

end AddressWaitRegistry

theorem updateThread_eq_map {q : List AddressWaiter} (h : (q.map thread).Nodup)
    (t : GuestThreadId) (f : AddressWaiter → AddressWaiter) :
    updateThread t f q = q.map fun w => if w.thread = t then f w else w := by
  induction q with
  | nil => rfl
  | cons w rest ih =>
    rw [map_cons, nodup_cons] at h
    by_cases hw : w.thread = t
    · have hrest : rest.map (fun v => if v.thread = t then f v else v) = rest := by
        nth_rewrite 2 [← map_id rest]
        refine map_congr_left ?_
        intro v hv
        rw [if_neg, id]
        rintro rfl
        exact h.1 (hw ▸ mem_map_of_mem hv)
      rw [updateThread, if_pos hw, map_cons, if_pos hw, hrest]
    · rw [updateThread, if_neg hw, map_cons, if_neg hw, ih h.2]

variable (t : GuestThreadId) (result : AddressWaitCompletion)

/-- Signalling the waiter of a thread. -/
def AddressWaiter.signalFor (w : AddressWaiter) : AddressWaiter :=
  if w.thread = t then w.signal result else w

@[simp] theorem AddressWaiter.signalFor_thread (w : AddressWaiter) :
    (w.signalFor t result).thread = w.thread := by
  unfold signalFor signal
  split <;> rfl

@[simp] theorem AddressWaiter.signalFor_lockAddress (w : AddressWaiter) :
    (w.signalFor t result).lockAddress = w.lockAddress := by
  unfold signalFor signal
  split <;> rfl

variable {t : GuestThreadId}

/-- Of the pending waiters, those of other threads stay pending. -/
theorem AddressWaiter.signalFor_pending {result : AddressWaitCompletion}
    (h : (w.signalFor t result).pending = true) : w.pending = true ∧ w.thread ≠ t := by
  unfold signalFor signal at h
  split at h
  · simp [pending] at h
  · exact ⟨h, by assumption⟩

namespace AddressWaitRegistry

variable {r : AddressWaitRegistry}

variable (a : ℕ) (t : GuestThreadId)

theorem queue_remove (b : ℕ) : (r.remove a t).queue b =
      if a = b then (r.queue a).eraseP (fun w => w.thread == t) else r.queue b := by
  unfold remove
  rcases hq : r.waiters[a]? with _ | q
  · by_cases hab : a = b
    · subst hab
      simp [queue, hq]
    · simp [hab]
  · have hqueue : r.queue a = q := by simp [queue, hq]
    rw [eraseP_eq_eraseIdx, hqueue]
    dsimp only
    split
    · rename_i index hindex
      rw [queue_setQueue, hindex]
    · rename_i hindex
      rw [queue_setQueue, hindex]

theorem queue_signalResult (h : r.Distinct) (a : ℕ) (t : GuestThreadId)
    (result : AddressWaitCompletion) (b : ℕ) :
    (r.signalResult a t result).queue b =
      (r.queue b).map (if a = b then signalFor t result else id) := by
  unfold signalResult
  rcases hq : r.waiters[a]? with _ | q
  · by_cases hab : a = b
    · subst hab
      simp [queue, hq]
    · simp [hab]
  · have hqueue : r.queue a = q := by simp [queue, hq]
    rw [queue_insert, updateThread_eq_map (hqueue ▸ h a)]
    by_cases hab : a = b
    · subst hab
      rw [if_pos rfl, if_pos rfl, hqueue]
      rfl
    · rw [if_neg hab, if_neg hab, map_id]

@[simp] theorem owners_signalResult (t : ℕ) (result : AddressWaitCompletion) :
    (r.signalResult a t result).owners = r.owners := by
  unfold signalResult
  split <;> rfl

@[simp] theorem priorityWaits_signalResult (t : ℕ) (result : AddressWaitCompletion) :
    (r.signalResult a t result).priorityWaits = r.priorityWaits := by
  unfold signalResult
  split <;> rfl

@[simp] theorem owners_remove : (r.remove a t).owners = r.owners := by
  unfold remove
  rcases r.waiters[a]? with _ | q
  · rfl
  · dsimp only
    split <;> rfl

@[simp] theorem priorityWaits_remove : (r.remove a t).priorityWaits = r.priorityWaits := by
  unfold remove
  rcases r.waiters[a]? with _ | q
  · rfl
  · dsimp only
    split <;> rfl

/-- An expiring timer signals one waiter of the thread, or does nothing. -/
theorem expireThreadWait_cases :
    r.expireThreadWait t = r ∨ ∃ a, r.expireThreadWait t = r.signalResult a t .timedOut := by
  unfold expireThreadWait
  split
  · exact .inl rfl
  · exact .inr ⟨_, rfl⟩

theorem Distinct.signalResult (h : r.Distinct) (a t : ℕ) (result : AddressWaitCompletion) :
    (r.signalResult a t result).Distinct := by
  intro b
  rw [queue_signalResult h, map_map]
  convert h b using 2
  funext w
  by_cases hab : a = b <;> simp [hab]

end AddressWaitRegistry

/-! ### The end of a thread -/

/-- What the end of the owner does to a waiter. -/
def AddressWaiter.cancel (w : AddressWaiter) : AddressWaiter :=
  if w.pending then w.signal .invalidOwner else w

@[simp] theorem AddressWaiter.cancel_thread (w : AddressWaiter) : w.cancel.thread = w.thread := by
  unfold cancel signal
  split <;> rfl

@[simp] theorem AddressWaiter.cancel_lockAddress (w : AddressWaiter) :
    w.cancel.lockAddress = w.lockAddress := by
  unfold cancel signal
  split <;> rfl

@[simp] theorem AddressWaiter.cancel_pending (w : AddressWaiter) : w.cancel.pending = false := by
  unfold cancel
  split
  · simp [signal, pending]
  · simpa using ‹¬ w.pending = true›

/-- Signalling a pending waiter is a part of cancelling it. -/
theorem AddressWaiter.cancel_signalFor (h : w.thread = t → w.pending = true) :
    (w.signalFor t .invalidOwner).cancel = w.cancel := by
  by_cases ht : w.thread = t
  · have hcancel : w.cancel = w.signal .invalidOwner := if_pos (h ht)
    rw [hcancel, signalFor, if_pos ht]
    exact if_neg (by simp [signal, pending])
  · rw [signalFor, if_neg ht]

variable {r : AddressWaitRegistry}

variable {a : ℕ}

theorem unsignalledCount_signalResult (h : r.Distinct) (hw : w ∈ r.queue a)
    (hpending : w.pending = true) (result : AddressWaitCompletion) :
    (r.signalResult a w.thread result).unsignalledCount a < r.unsignalledCount a := by
  unfold unsignalledCount
  rw [queue_signalResult h, if_pos rfl, ← countP_eq_length_filter,
    ← countP_eq_length_filter, countP_map]
  -- the waiters that are pending afterwards, and at least the one that was signalled
  set still : AddressWaiter → Bool := pending ∘ signalFor w.thread result
  have hwas : ∀ v ∈ (r.queue a).filter still, v.pending = true := fun v hv =>
    (signalFor_pending (mem_filter.1 hv).2).1
  have hone : 0 < ((r.queue a).filter fun v => !still v).countP pending := by
    refine countP_pos_iff.2 ⟨w, mem_filter.2 ⟨hw, ?_⟩, hpending⟩
    simp [still, signalFor, signal, pending]
  rw [countP_eq_countP_filter_add _ pending still,
    countP_eq_length.2 hwas, ← countP_eq_length_filter]
  omega

/-- The loop over the waiters of an address ends, with every pending waiter signalled and nothing
else changed. -/
theorem cancelWaiters_ensures : ∀ (fuel : ℕ) (r : AddressWaitRegistry), r.Distinct →
    r.unsignalledCount a < fuel →
    Call.Ensures (cancelWaiters a fuel) r (fun _ r' =>
        (∀ b, r'.queue b = if a = b then (r.queue a).map cancel else r.queue b) ∧
        r'.owners = r.owners ∧ r'.priorityWaits = r.priorityWaits)
      fun _ _ => False := by
  intro fuel
  induction fuel with
  | zero => omega
  | succ fuel ih =>
    intro r hr hlt
    refine .read ?_
    rcases hnext : r.nextWaiter a with _ | ⟨t, v⟩
    · refine .pure ⟨?_, rfl, rfl⟩
      intro b
      by_cases hab : a = b
      · subst hab
        have hall := nextWaiter_eq_none.1 hnext
        rw [if_pos rfl]
        nth_rewrite 1 [← map_id (r.queue a)]
        refine map_congr_left ?_
        intro w hw
        simp [cancel, hall w hw]
      · rw [if_neg hab]
    · obtain ⟨w, hw, hpending, rfl⟩ := nextWaiter_eq_some hnext
      have hless := unsignalledCount_signalResult hr hw hpending .invalidOwner
      refine .update ((ih _ (hr.signalResult a w.thread .invalidOwner) (by omega)).mono ?_)
      rintro - r' ⟨hqueue, howners, hwaits⟩
      refine ⟨?_, by simpa using howners, by simpa using hwaits⟩
      intro b
      rw [hqueue, queue_signalResult hr, queue_signalResult hr, if_pos rfl, map_map]
      by_cases hab : a = b
      · rw [if_pos hab, if_pos hab]
        refine map_congr_left ?_
        intro v hv
        -- the only waiter of the thread is the pending one
        refine cancel_signalFor fun hthread => ?_
        rw [inj_on_of_nodup_map (hr a) hv hw hthread]
        exact hpending
      · rw [if_neg hab, if_neg hab, if_neg hab, map_id]

theorem AddressWaitRegistry.Distinct.of_threads {r' : AddressWaitRegistry} (h : r.Distinct)
    (hthreads : ∀ a, ((r'.queue a).map thread).Sublist ((r.queue a).map thread)) : r'.Distinct :=
  fun a => (h a).sublist (hthreads a)

theorem unsignalledCount_le :
    r.unsignalledCount a ≤ (r.queue a).length :=
  length_filter_le ..

theorem cancelOwned_ensures : ∀ (owned : List ℕ) (r : AddressWaitRegistry), r.Distinct →
    Call.Ensures (cancelOwned owned) r (fun _ r' =>
        (∀ b, r'.queue b = if b ∈ owned then (r.queue b).map cancel else r.queue b) ∧
        (∀ b, r'.owner b = if b ∈ owned then none else r.owner b) ∧
        r'.priorityWaits = r.priorityWaits)
      fun _ _ => False := by
  intro owned
  induction owned with
  | nil =>
    intro r _
    exact .pure ⟨by simp, by simp, rfl⟩
  | cons a owned ih =>
    intro r hr
    refine .update (.read (.seq (cancelWaiters_ensures _ _ hr
      (Nat.lt_succ_of_le unsignalledCount_le)) ?_))
    rintro - r₁ ⟨hqueue₁, howners₁, hwaits₁⟩
    have hr₁ : r₁.Distinct := by
      refine hr.of_threads fun b => ?_
      rw [hqueue₁]
      split
      · subst b
        have hcancel : thread ∘ cancel = thread :=
          funext cancel_thread
        rw [map_map, hcancel]
        exact .refl _
      · exact .refl _
    refine (ih r₁ hr₁).mono ?_
    rintro - r' ⟨hqueue, howner, hwaits⟩
    refine ⟨?_, ?_, hwaits.trans hwaits₁⟩
    · intro b
      rw [hqueue, hqueue₁]
      by_cases hab : a = b
      · subst hab
        by_cases hmem : a ∈ owned
        · -- cancelling twice is cancelling once
          rw [if_pos hmem, if_pos rfl, if_pos (mem_cons_self ..), map_map]
          refine map_congr_left ?_
          intro w _
          exact if_neg (by simp)
        · simp [hmem]
      · simp [hab, Ne.symm hab]
    · intro b
      have hone : r₁.owner b = (r.removeOwner a).owner b := by
        simp [owner, howners₁]
      rw [howner, hone, owner_removeOwner]
      by_cases hab : a = b
      · simp [hab]
      · simp [hab, Ne.symm hab]

/-- Removing a thread at every address of a list. -/
theorem foldl_remove : ∀ (addresses : List ℕ) (r : AddressWaitRegistry), r.Distinct →
    let r' := addresses.foldl (fun r a => r.remove a t) r
    (∀ b, r'.queue b =
      if b ∈ addresses then (r.queue b).filter (fun w => w.thread != t) else r.queue b) ∧
    r'.owners = r.owners ∧ r'.priorityWaits = r.priorityWaits := by
  intro addresses
  induction addresses with
  | nil => simp
  | cons a addresses ih =>
    intro r hr
    have hqueue₁ : ∀ b, (r.remove a t).queue b =
        if a = b then (r.queue a).filter (fun w => w.thread != t) else r.queue b := by
      intro b
      rw [queue_remove, Placed.eraseP_eq_filter (hr a)]
    have hr₁ : (r.remove a t).Distinct := by
      refine hr.of_threads fun b => ?_
      rw [hqueue₁]
      split
      · subst b
        exact filter_sublist.map _
      · exact .refl _
    obtain ⟨hqueue, howners, hwaits⟩ := ih _ hr₁
    refine ⟨?_, by simpa using howners, by simpa using hwaits⟩
    intro b
    rw [foldl_cons, hqueue, hqueue₁]
    by_cases hab : a = b
    · subst hab
      by_cases hmem : a ∈ addresses <;> simp
    · simp [hab, Ne.symm hab]

/-- **The end of a thread**: its waiters are gone, nothing is recorded as owned by it, and every
waiter that was pending at an address of its is signalled with `InvalidOwner`. -/
theorem releaseThread_ensures (hr : r.Distinct) (hwaits : PriorityWait.Inv r.priorityWaits)
    : Call.Ensures (releaseThread t) r (fun _ r' =>
        (∀ b, r'.queue b = ((r.queue b).filter fun w => w.thread != t).map
          fun w => if r.owner b = some t then w.cancel else w) ∧
        (∀ b, r'.owner b = if r.owner b = some t then none else r.owner b) ∧
        PriorityWait.Inv r'.priorityWaits)
      fun _ _ => False := by
  refine .bind (.zoom ((PriorityWait.remove_ensures hwaits).mono ?_))
  rintro - q ⟨hq, -⟩
  set r₀ : AddressWaitRegistry := { r with priorityWaits := q }
  obtain ⟨hqueue₁, howners₁, hwaits₁⟩ := foldl_remove r₀.waiters.keys r₀ hr
  set r₁ := r₀.waiters.keys.foldl _ r₀
  have hqueue₁ : ∀ b, r₁.queue b = (r.queue b).filter fun w => w.thread != t := by
    intro b
    rw [hqueue₁]
    by_cases hmem : b ∈ r₀.waiters.keys
    · rw [if_pos hmem]
      rfl
    · -- there is no queue at the address
      have hnone : r.queue b = [] := by
        have : r.waiters[b]? = none :=
          getElem?_eq_none (by simpa [r₀, mem_keys] using hmem)
        simp [queue, this]
      rw [if_neg hmem]
      show r.queue b = _
      simp [hnone]
  have hr₁ : r₁.Distinct := by
    refine hr.of_threads fun b => ?_
    rw [hqueue₁]
    exact filter_sublist.map _
  have howned : ∀ b, b ∈ (r₁.owners.toList.filter fun entry => entry.2 == t).map Prod.fst ↔
      r.owner b = some t := by
    rw [howners₁]
    simp [owner, r₀]
  refine .update (.read ((cancelOwned_ensures _ r₁ hr₁).mono ?_))
  rintro - r' ⟨hqueue, howner, hwaits'⟩
  refine ⟨?_, ?_, by rw [hwaits', hwaits₁]; exact hq⟩
  · intro b
    rw [hqueue, hqueue₁]
    by_cases hb : r.owner b = some t
    · rw [if_pos ((howned b).2 hb)]
      simp [hb]
    · rw [if_neg (fun hmem => hb ((howned b).1 hmem))]
      simp [hb]
  · intro b
    have hsame : r₁.owner b = r.owner b := by
      simp only [owner, howners₁]
      rfl
    rw [howner, hsame]
    by_cases hb : r.owner b = some t
    · rw [if_pos ((howned b).2 hb), if_pos hb]
    · rw [if_neg (fun hmem => hb ((howned b).1 hmem)), if_neg hb]

end Nixe.AddressWait
