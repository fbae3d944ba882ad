/-
**No waiter is queued twice, and none waits for nobody.**

Each thread has at most one waiter in all queues together, in one of the queues that the call it is
suspended in can use; and an address with a pending waiter has a recorded owner, which is another
thread unless the guest said otherwise.

While a call runs, its thread counts as suspended in it: the waiter it creates is then already
explained, and the mode of the thread is set from the outcome of the call at its end.

Main definitions:

* `Svc.WaitsAt` — where the waiter of a suspended call can be;
* `Filed` — **the invariant** of the registry;
* `Frame` — a step that concerns neither the waiters nor the modes.

Main results:

* `Filed.map`, `Filed.push`, `Filed.remove` — changes that keep the invariant;
* `updateConditionMutex_ensures` — the exchange loop ends;
* `handoffMutex_ensures` — the owner of a mutex hands it to a pending waiter.
-/

import Nixe.MutexWait
import Nixe.AddressWaitQueues

set_option autoImplicit false

namespace Nixe.MutexWait

open Std (TreeMap)
open PriorityWait (GuestThreadId)
open AddressWait (AddressWaiter AddressWaitRegistry AddressWaitCompletion)
open List Function AddressWait.AddressWaitRegistry

/-- Where the waiter of a thread that is suspended in the call can be: at the mutex, or with the
address of the mutex at the key of a condition. -/
def Svc.WaitsAt : Svc → ℕ → Option ℕ → Prop
  | .arbitrateLock _ mutex _, address, lock => mutex % 4 = 0 ∧ address = mutex ∧ lock = none
  | .waitProcessWideKeyAtomic mutex key _ _, address, lock => mutex % 4 = 0 ∧
      ((address = key - key % 4 ∧ lock = some mutex) ∨ (address = mutex ∧ lock = none))
  | _, _, _ => False

/-- **The invariant of the registry**, for threads that are suspended in the calls `calls`, with the
waiter of each thread at the address `place`. -/
structure Filed (r : AddressWaitRegistry) (named : ℕ → Bool) (calls : GuestThreadId → Option Svc)
    (place : GuestThreadId → Option ℕ) : Prop where
  placed : Placed AddressWaiter.thread r.queue place
  entry : ∀ a w, w ∈ r.queue a →
    ∃ svc, calls w.thread = some svc ∧ svc.WaitsAt a w.lockAddress
  owned : ∀ a w, w ∈ r.queue a → w.pending = true →
    ∃ o, r.owner a = some o ∧ (o = w.thread → named a = true)
  arbitration : PriorityWait.Inv r.priorityWaits

namespace Filed

variable {r r' : AddressWaitRegistry} {named named' : ℕ → Bool}
  {calls calls' : GuestThreadId → Option Svc} {place : GuestThreadId → Option ℕ}
  {t : GuestThreadId} {a : ℕ}

variable (h : Filed r named calls place)
include h

theorem distinct : r.Distinct := h.placed.nodup

/-- The waiter of a thread is where the call of the thread waits. -/
theorem waitsAt (ht : place t = some a) {svc : Svc}
    (hsvc : calls t = some svc) : ∃ w ∈ r.queue a, w.thread = t ∧ svc.WaitsAt a w.lockAddress := by
  obtain ⟨w, hw, rfl⟩ := h.placed.exists_mem ht
  obtain ⟨svc', hsvc', hat⟩ := h.entry a w hw
  rw [hsvc] at hsvc'
  cases hsvc'
  exact ⟨w, hw, rfl, hat⟩

theorem place_eq_none
    (hcall : ∀ svc ∈ calls t, ∀ a lock, ¬ svc.WaitsAt a lock) : place t = none := by
  by_contra hne
  obtain ⟨a, ha⟩ := Option.ne_none_iff_exists'.1 hne
  obtain ⟨w, hw, rfl⟩ := h.placed.exists_mem ha
  obtain ⟨svc, hsvc, hat⟩ := h.entry a w hw
  exact hcall svc hsvc a _ hat

/-- A thread without a waiter may be in any call. -/
theorem withCalls (ht : place t = none)
    (hcalls : ∀ u, u ≠ t → calls' u = calls u) : Filed r named calls' place := by
  refine ⟨h.placed, ?_, h.owned, h.arbitration⟩
  intro a w hw
  have hne : w.thread ≠ t := by
    rintro rfl
    rw [h.placed.place_of_mem hw] at ht
    cases ht
  rw [hcalls _ hne]
  exact h.entry a w hw

/-- The waiters change in place: they keep their threads and what they wait for. -/
theorem map {f : ℕ → AddressWaiter → AddressWaiter}
    (hqueue : ∀ a, r'.queue a = (r.queue a).map (f a))
    (hf : ∀ a w, (f a w).thread = w.thread ∧ (f a w).lockAddress = w.lockAddress)
    (howned : ∀ a w, w ∈ r'.queue a → w.pending = true →
      ∃ o, r'.owner a = some o ∧ (o = w.thread → named' a = true))
    (harbitration : PriorityWait.Inv r'.priorityWaits) : Filed r' named' calls place := by
  refine ⟨h.placed.rewrite ?_, ?_, howned, harbitration⟩
  · intro a
    rw [hqueue, map_map]
    refine map_congr_left ?_
    intro w _
    exact (hf a w).1
  · intro a w' hw'
    rw [hqueue] at hw'
    obtain ⟨w, hw, rfl⟩ := mem_map.1 hw'
    rw [(hf a w).1, (hf a w).2]
    exact h.entry a w hw

attribute [local simp] Function.update_apply

/-- A waiter of a thread that has none is appended. -/
theorem push (a : ℕ) (w : AddressWaiter) (hnone : place w.thread = none)
    (hqueue : ∀ b, r'.queue b = if a = b then r.queue a ++ [w] else r.queue b)
    (hentry : ∃ svc, calls w.thread = some svc ∧ svc.WaitsAt a w.lockAddress)
    (hnew : w.pending = true → ∃ o, r'.owner a = some o ∧ (o = w.thread → named a = true))
    (howner : ∀ b, r'.owner b = r.owner b) (harbitration : r'.priorityWaits = r.priorityWaits) :
    Filed r' named calls (update place w.thread (some a)) := by
  have hmem : ∀ b v, v ∈ r'.queue b → v ∈ r.queue b ∨ (b = a ∧ v = w) := by
    intro b v hv
    rw [hqueue] at hv
    split at hv
    · subst b
      simpa using hv
    · exact .inl hv
  refine ⟨h.placed.push a w hnone hqueue ?_, ?_, ?_, harbitration ▸ h.arbitration⟩
  · simp [eq_comm]
  · intro b v hv
    rcases hmem b v hv with hold | ⟨rfl, rfl⟩
    · exact h.entry b v hold
    · exact hentry
  · intro b v hv hpending
    rcases hmem b v hv with hold | ⟨rfl, rfl⟩
    · rw [howner]
      exact h.owned b v hold hpending
    · exact hnew hpending

theorem take (ht : place t = some a) (hqueue : ∀ b, r'.queue b =
      if a = b then (r.queue a).eraseP (fun w => w.thread == t) else r.queue b)
    (howner : ∀ b, r'.owner b = r.owner b) (harbitration : r'.priorityWaits = r.priorityWaits) :
    Filed r' named calls (update place t none) := by
  have hmem : ∀ b w, w ∈ r'.queue b → w ∈ r.queue b := by
    intro b w hw
    rw [hqueue] at hw
    split at hw
    · subst b
      exact mem_of_mem_eraseP hw
    · exact hw
  refine ⟨h.placed.take ht hqueue ?_, ?_, ?_, harbitration ▸ h.arbitration⟩
  · simp [eq_comm]
  · intro b w hw
    exact h.entry b w (hmem b w hw)
  · intro b w hw hpending
    rw [howner]
    exact h.owned b w (hmem b w hw) hpending

/-- Removing the waiter of a thread at an address, whether it is there or not. -/
theorem remove (a : ℕ) (t : GuestThreadId) :
    Filed (r.remove a t) named calls (if place t = some a then update place t none else place) := by
  have howner : ∀ b, (r.remove a t).owner b = r.owner b := by
    intro b
    simp [owner]
  split
  · exact h.take ‹_› (r.queue_remove a t) howner (r.priorityWaits_remove a t)
  · -- no waiter of the thread in the queue
    have hqueue : ∀ b, (r.remove a t).queue b = r.queue b := by
      intro b
      rw [queue_remove]
      split
      · subst b
        refine eraseP_of_forall_not ?_
        intro w hw hwt
        obtain rfl : w.thread = t := by simpa using hwt
        exact absurd (h.placed.place_of_mem hw) ‹_›
      · rfl
    refine ⟨?_, ?_, ?_, by simpa using h.arbitration⟩
    · exact h.placed.rewrite fun b => by rw [hqueue]
    · intro b w hw
      exact h.entry b w (hqueue b ▸ hw)
    · intro b w hw hpending
      rw [howner]
      exact h.owned b w (hqueue b ▸ hw) hpending

theorem signalResult (a : ℕ) (t : GuestThreadId)
    (result : AddressWaitCompletion) : Filed (r.signalResult a t result) named calls place := by
  have hqueue := queue_signalResult h.distinct a t result
  refine h.map hqueue ?_ ?_ (by simpa using h.arbitration)
  · intro b w
    split <;> simp
  · intro b w' hw' hpending
    rw [hqueue] at hw'
    obtain ⟨w, hw, rfl⟩ := mem_map.1 hw'
    have howner : (r.signalResult a t result).owner b = r.owner b := by
      simp [owner]
    rw [howner]
    split at hpending
    · rename_i hab
      simpa [hab] using h.owned b w hw (AddressWaiter.signalFor_pending hpending).1
    · rename_i hab
      simpa [hab] using h.owned b w hw hpending

theorem name (a : ℕ) (t : GuestThreadId) :
    Filed (r.setOwner a t) (update named a true) calls place := by
  refine ⟨h.placed, h.entry, ?_, h.arbitration⟩
  intro b w hw hpending
  rw [owner_setOwner]
  by_cases hab : a = b
  · subst hab
    exact ⟨t, by simp, by simp⟩
  · simpa [hab, Ne.symm hab] using h.owned b w hw hpending

/-- An owner that waits for nothing at its address. -/
theorem grant (a : ℕ) (t : GuestThreadId) (ht : ∀ w ∈ r.queue a, w.pending = true → w.thread ≠ t) :
    Filed (r.setOwner a t) (update named a false) calls place := by
  refine ⟨h.placed, h.entry, ?_, h.arbitration⟩
  intro b w hw hpending
  rw [owner_setOwner]
  by_cases hab : a = b
  · subst hab
    exact ⟨t, by simp, fun heq => absurd heq.symm (ht w hw hpending)⟩
  · simpa [hab, Ne.symm hab] using h.owned b w hw hpending

/-- A thread becomes the owner of an address, and its waiter there is signalled. -/
theorem handoff {result : AddressWaitCompletion} :
    Filed (((r.removeOwner a).setOwner a t).signalResult a t result)
      (update named a false) calls place := by
  have hqueue := queue_signalResult (r := (r.removeOwner a).setOwner a t) h.distinct a t result
  have harbitration : PriorityWait.Inv ((r.removeOwner a).setOwner a t).priorityWaits :=
    h.arbitration
  refine h.map hqueue ?_ ?_ (by simpa using harbitration)
  · intro b v
    split <;> simp
  · intro b v' hv' hpending
    rw [hqueue] at hv'
    obtain ⟨v, hv, rfl⟩ := mem_map.1 hv'
    have howner : (((r.removeOwner a).setOwner a t).signalResult a t result).owner b =
        if a = b then some t else r.owner b := by
      simp only [owner, owners_signalResult]
      by_cases hab : a = b <;> simp [AddressWaitRegistry.setOwner, removeOwner,
          TreeMap.getElem?_insert, TreeMap.getElem?_erase, hab]
    rw [howner]
    by_cases hab : a = b
    · subst hab
      rw [if_pos rfl] at hpending ⊢
      have hne := (AddressWaiter.signalFor_pending hpending).2
      exact ⟨_, rfl, fun heq => absurd heq.symm (by simpa using hne)⟩
    · rw [if_neg hab] at hpending ⊢
      simpa [hab, Ne.symm hab] using h.owned b v hv hpending

/-- An address without pending waiters needs no owner. -/
theorem disown (ha : ∀ w ∈ r.queue a, w.pending = false) :
    Filed (r.removeOwner a) named calls place := by
  refine ⟨h.placed, h.entry, ?_, h.arbitration⟩
  intro b w hw hpending
  rw [owner_removeOwner]
  by_cases hab : a = b
  · subst hab
    have := ha w hw
    simp [hpending] at this
  · simpa [hab] using h.owned b w hw hpending

end Filed

/-! ### Helpers of the calls -/

/-- A step that concerns neither the waiters nor the modes of the threads. -/
structure Frame (s s' : Process) : Prop where
  waits : s'.waits = s.waits
  named : s'.named = s.named
  modes : s'.modes = s.modes

variable (s : Process) {E : HorizonSvcFault → Process → Prop} {r : AddressWaitRegistry}
  {named : ℕ → Bool} {calls : GuestThreadId → Option Svc} {place : GuestThreadId → Option ℕ}
  {a : ℕ} {t : GuestThreadId}

theorem Frame.refl : Frame s s := ⟨rfl, rfl, rfl⟩

theorem Frame.trans {s s₁ s₂ : Process} (h₁ : Frame s s₁) (h₂ : Frame s₁ s₂) : Frame s s₂ :=
  ⟨h₂.waits.trans h₁.waits, h₂.named.trans h₁.named, h₂.modes.trans h₁.modes⟩

theorem Filed.frame {s s' : Process} {calls : GuestThreadId → Option Svc}
    {place : GuestThreadId → Option ℕ} (h : Filed s.waits s.named calls place)
    (hframe : Frame s s') : Filed s'.waits s'.named calls place := by
  rw [hframe.waits, hframe.named]
  exact h

variable (address : ℕ)

theorem readProcessWideKeyWord_ensures :
    Call.Ensures (readProcessWideKeyWord address) s (fun _ s' => s' = s) E := by
  refine .read ?_
  dsimp only
  split <;> exact .pure rfl

theorem writeProcessWideKeyWord_ensures {value : ℕ} :
    Call.Ensures (writeProcessWideKeyWord address value) s (fun _ s' => Frame s s') E := by
  refine .read ?_
  split
  · exact .pure (.refl s)
  · exact .update (.pure ⟨rfl, rfl, rfl⟩)

/-- An exchange fails, or it finds the expected word, or another core interfered. -/
theorem compareExchange_ensures {expected replacement : ℕ} :
    Call.Ensures (compareExchange address expected replacement) s
      (fun observed s' => Frame s s' ∧ ∀ word, observed = .ok word → word ≠ expected →
        s'.memory.word address = word ∧ s'.interference.length = s.interference.length - 1 ∧
          (s.interference = [] → word = s.memory.word address)) E := by
  refine .update (.read ?_)
  rcases hi : s.interference with _ | ⟨value, rest⟩
  · dsimp only
    split
    · exact .pure ⟨.refl s, by simp⟩
    · split
      · exact .update (.pure ⟨⟨rfl, rfl, rfl⟩, by simp_all⟩)
      · exact .pure ⟨.refl s, by simp_all⟩
  · dsimp only
    split
    · exact .pure ⟨⟨rfl, rfl, rfl⟩, by simp⟩
    · split
      · exact .update (.pure ⟨⟨rfl, rfl, rfl⟩, by simp_all⟩)
      · exact .pure ⟨⟨rfl, rfl, rfl⟩, by simp_all⟩

/-- The loop ends: a round that fails used up one interference, and without interference the word is
the one that was read. -/
theorem exchangeLoop_ensures {mutex tag : ℕ} : ∀ (fuel previous : ℕ) (s : Process),
    s.interference.length < fuel → s.memory.word mutex = previous →
    Call.Ensures (exchangeLoop mutex tag fuel previous) s (fun _ s' => Frame s s') E := by
  intro fuel
  induction fuel with
  | zero => omega
  | succ fuel ih =>
    intro previous s hlt hword
    refine .seq (compareExchange_ensures s mutex) ?_
    rintro observed s₁ ⟨hframe, hround⟩
    cases observed with
    | error => exact .pure hframe
    | ok word =>
      by_cases hw : word = previous
      · simp only [hw, if_true]
        exact .pure hframe
      · obtain ⟨hword₁, hlength, hempty⟩ := hround word rfl hw
        simp only [hw, if_false]
        have hne : s.interference ≠ [] := fun h => hw ((hempty h).trans hword)
        have hpos := length_pos_of_ne_nil hne
        exact (ih word s₁ (by omega) hword₁).mono fun _ _ h => hframe.trans h

theorem updateConditionMutex_ensures {mutex tag : ℕ} :
    Call.Ensures (updateConditionMutex mutex tag) s (fun _ s' => Frame s s') E := by
  refine .bind (.read ?_)
  dsimp only
  split
  · exact .pure (.pure (.refl s))
  · exact exchangeLoop_ensures _ _ s (Nat.lt_succ_self _) rfl

variable (thread : GuestThreadId)

theorem synchronizeMutexWaits_ensures (addresses : List ℕ) :
    Call.Ensures (synchronizeMutexWaits thread addresses) s (fun _ s' => Frame s s')
      fun _ s' => Frame s s' := by
  refine .read (.update ?_)
  cases s.pendingRuntimeRequests.contains thread <;> exact ⟨rfl, rfl, rfl⟩

theorem failIf_ensures {b : Bool} {fault : HorizonSvcFault} (hE : ∀ fault, E fault s) :
    Call.Ensures (Call.failIf b fault) s (fun _ s' => s' = s) E := by
  cases b with
  | true => exact hE fault
  | false => rfl

theorem failInternal_ensures {immediate : ℕ} {written : Except DataAccessFault Unit}
    (hE : ∀ fault, E fault s) :
    Call.Ensures (failInternal immediate written) s (fun _ s' => s' = s) E := by
  unfold failInternal
  split
  · exact failIf_ensures s hE
  · exact .pure rfl

theorem mutexMemoryFault_ensures {immediate : ℕ} {fault : DataAccessFault}
    (hE : ∀ fault, E fault s) : Call.Ensures (mutexMemoryFault immediate fault) s
      (fun outcome s' => outcome = .resume (some .invalidCurrentMemory) ∧ s' = s) E := by
  refine .seq (failIf_ensures s hE) ?_
  rintro - s' rfl
  exact .pure ⟨rfl, rfl⟩

theorem waitExpired_ensures (timeout : ℤ) :
    Call.Ensures (waitExpired thread timeout) s (fun _ s' => Frame s s') E := by
  unfold waitExpired
  split
  · exact .pure (.refl s)
  · split
    · exact .pure (.refl s)
    · exact .read (.read (.update (.pure ⟨rfl, rfl, rfl⟩)))

/-- The completion is taken, and with it the waiter; or the thread has no signalled waiter. -/
theorem takeCompletion_ensures : Call.Ensures (takeCompletion address thread) s
      (fun completion s' => (completion = none ∧ s' = s) ∨
        (completion.isSome ∧ s.waits.isSignalled address thread = true ∧
          s' = { s with waits := s.waits.remove address thread }))
      E := by
  refine .read ?_
  dsimp only
  split
  · rename_i hsignalled
    obtain ⟨w, hw⟩ : ∃ w, s.waits.find address thread = some w := by
      rcases hfind : s.waits.find address thread with _ | w
      · simp [isSignalled, hfind] at hsignalled
      · exact ⟨w, rfl⟩
    have hcompletion : s.waits.completion address thread = some w.completion := by
      simp [completion, hw]
    rw [hcompletion]
    exact .expect (.update (.pure (.inr ⟨rfl, hsignalled, rfl⟩)))
  · exact .pure (.inl ⟨rfl, rfl⟩)

theorem Filed.place_of_find (h : Filed r named calls place) {w : AddressWaiter}
    (hw : r.find a t = some w) : place t = some a := by
  have hthread : w.thread = t := by simpa using find?_some hw
  rw [← hthread]
  exact h.placed.place_of_mem (mem_of_find?_eq_some hw)

theorem Filed.place_of_isSignalled (h : Filed r named calls place) (hs : r.isSignalled a t = true) :
    place t = some a := by
  rcases hfind : r.find a t with _ | w
  · simp [isSignalled, hfind] at hs
  · exact h.place_of_find hfind

theorem Filed.contains_iff (h : Filed r named calls place) :
    r.contains a t = true ↔ place t = some a := by
  unfold AddressWaitRegistry.contains
  rw [any_eq_true]
  constructor
  · rintro ⟨w, hw, hthread⟩
    obtain rfl : w.thread = t := by simpa using hthread
    exact h.placed.place_of_mem hw
  · intro ht
    obtain ⟨w, hw, rfl⟩ := h.placed.exists_mem ht
    exact ⟨w, hw, by simp⟩

/-- A pending waiter of the address, if there is one, was signalled. -/
def Wakes (m : ℕ) (s s' : Process) : Prop :=
  (∃ w ∈ s.waits.queue m, w.pending = true) →
    ∃ w ∈ s.waits.queue m, w.pending = true ∧
      ∃ v ∈ s'.waits.queue m, v.thread = w.thread ∧ v.signalled = true

/-- **The handoff** keeps the invariant and the places, and wakes a waiter if the caller is the
recorded owner. -/
theorem handoffMutex_ensures {s : Process} (h : Filed s.waits s.named calls place)
    {thread : GuestThreadId} {mutex : ℕ} {report : Bool} :
    Call.Ensures (handoffMutex thread mutex report) s
      (fun _ s' => Filed s'.waits s'.named calls place ∧ s'.modes = s.modes ∧
        (s.waits.owner mutex = some thread → Wakes mutex s s'))
      E := by
  refine .read (.seq (writeProcessWideKeyWord_ensures s mutex) ?_)
  rintro written s₁ ⟨hwaits, hnamed, hmodes⟩
  by_cases howns : s.waits.owner mutex = some thread
  · rcases hnext : s.waits.nextWaiter mutex with _ | ⟨waiter, tag⟩
    · -- nobody waits
      have hnone := nextWaiter_eq_none.1 hnext
      simp only [howns, beq_self_eq_true, if_true]
      refine .update (.pure ⟨?_, hmodes, ?_⟩)
      · simp only [hwaits, hnamed]
        exact h.disown hnone
      · rintro - ⟨w, hw, hpending⟩
        simp [hnone w hw] at hpending
    · obtain ⟨w, hw, hpending, rfl⟩ := nextWaiter_eq_some hnext
      simp only [howns, beq_self_eq_true, if_true]
      refine .update (.update (.update (.pure ?_)))
      simp only [hwaits, hnamed, hmodes]
      refine ⟨h.handoff, trivial, fun _ _ => ⟨w, hw, hpending, ?_⟩⟩
      have hqueue := queue_signalResult
        (r := (s.waits.removeOwner mutex).setOwner mutex w.thread) h.distinct mutex w.thread
      rw [hqueue]
      refine ⟨_, mem_map_of_mem hw, by simp, ?_⟩
      simp [AddressWaiter.signalFor, AddressWaiter.signal]
  · have hne : (s.waits.owner mutex == some thread) = false := by simpa using howns
    simp only [hne, Bool.false_eq_true, if_false]
    refine .pure ⟨?_, hmodes, fun h => absurd h howns⟩
    rw [hwaits, hnamed]
    exact h

end Nixe.MutexWait
