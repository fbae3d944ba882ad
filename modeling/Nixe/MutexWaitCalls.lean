/-
**The mutex and condition variable calls, one by one.**

A specification for each call of `Nixe.MutexWait`.  Each keeps the invariant of the registry, leaves
the threads that have a waiter with one, and ends in agreement with the waiter of its own thread:
the thread goes on when it has none, and is suspended when it has one.

Main definitions:

* `After` — what a call makes of the places of the waiters;
* `Settled` — the outcome of a call, and the waiter of its thread;
* `Svc.Unlocks` — the call gives up a mutex.

Main results:

* `arbitrateLock_ensures`, `arbitrateUnlock_ensures`, `waitProcessWideKeyAtomic_ensures`,
  `signalProcessWideKey_ensures` — the four calls;
* `call_ensures`, `call_wakes` — **any call**.
-/

import Nixe.MutexWaitInvariant

set_option autoImplicit false

namespace Nixe.MutexWait

open PriorityWait (GuestThreadId)
open AddressWait (AddressWaiter AddressWaitRegistry)
open List Option Function AddressWait.AddressWaitRegistry

section Calls

variable (calls : GuestThreadId → Option Svc) (t : GuestThreadId)
  (place : GuestThreadId → Option ℕ) {s s' s'' : Process} {P : Option ℕ → Prop}
  {m x0 x1 mutex key : ℕ} {svc : Svc}

/-- The invariant holds again; every other thread that had a waiter has one, and the place of the
caller is as `P` says. -/
def After (s s' : Process) (P : Option ℕ → Prop) : Prop :=
  ∃ place', Filed s'.waits s'.named calls place' ∧ s'.modes = s.modes ∧
    (∀ u, u ≠ t → (place' u = none ↔ place u = none)) ∧ P (place' t)

/-- What the outcome of a call says about the waiter of its thread. -/
def Settled : ExceptionDispatchOutcome → Option ℕ → Prop
  | .resume _, at? => at? = none
  | .suspend, at? => at? ≠ none

/-- The call ends in agreement with the waiter of its thread, unless it faults. -/
abbrev Settles (c : SvcCall ExceptionDispatchOutcome) (s : Process) : Prop :=
  c.Ensures s (fun outcome s' => After calls t place s s' (Settled outcome))
    fun _ s' => After calls t place s s' fun _ => True

/-- The same threads have waiters. -/
def Kept (s s' : Process) : Prop :=
  ∃ place', Filed s'.waits s'.named calls place' ∧ s'.modes = s.modes ∧
    ∀ u, place' u = none ↔ place u = none

variable {calls t place}

theorem After.frame (h : After calls t place s s' P) (hframe : Frame s' s'') :
    After calls t place s s'' P := by
  obtain ⟨place', hfiled, hmodes, hothers, hP⟩ := h
  exact ⟨place', hfiled.frame hframe, hframe.modes.trans hmodes, hothers, hP⟩

theorem After.of_frame (h : Filed s.waits s.named calls place) (hframe : Frame s s')
    (hP : P (place t)) : After calls t place s s' P :=
  .frame ⟨place, h, rfl, fun _ _ => .rfl, hP⟩ hframe

/-- Nothing is promised about the place of the caller. -/
theorem After.weaken (h : After calls t place s s' P) : After calls t place s s' fun _ => True := by
  obtain ⟨place', hfiled, hmodes, hothers, -⟩ := h
  exact ⟨place', hfiled, hmodes, hothers, trivial⟩

/-- The caller, which had no waiter, now has one. -/
theorem After.pushed {a : ℕ} (h : Filed s'.waits s'.named calls (update place t (some a)))
    (hmodes : s'.modes = s.modes) (hP : P (some a)) : After calls t place s s' P := by
  refine ⟨_, h, hmodes, ?_, by simpa using hP⟩
  intro u hu
  simp [hu]

theorem After.remove (h : Filed s.waits s.named calls place) {a : ℕ} (ht : place t = some a) :
    After calls t place s { s with waits := s.waits.remove a t } (· = none) := by
  refine ⟨_, h.remove a t, rfl, ?_, ?_⟩
  · intro u hu
    simp [ht, hu]
  · simp [ht]

theorem Wakes.of_subset {s' : Process} (h : Wakes m s s')
    (hsub : ∀ v ∈ s'.waits.queue m, v ∈ s''.waits.queue m) : Wakes m s s'' := by
  intro hpending
  obtain ⟨w, hw, hwp, v, hv, hthread⟩ := h hpending
  exact ⟨w, hw, hwp, v, hsub v hv, hthread⟩

theorem Wakes.frame (h : Wakes m s s') (hframe : Frame s' s'') : Wakes m s s'' :=
  h.of_subset fun _ hv => hframe.waits ▸ hv

section Waits

variable (h : Filed s.waits s.named calls place)
include h

theorem arbitrateUnlock_ensures (ht : place t = none) :
    Call.Ensures (arbitrateUnlock t x0) s
      (fun outcome s' => After calls t place s s' (Settled outcome) ∧
        (x0 % 4 = 0 → s.waits.owner x0 = some t → Wakes x0 s s'))
      (fun _ s' => After calls t place s s' (fun _ => True) ∧
        (s.waits.owner x0 = some t → Wakes x0 s s')) := by
  unfold arbitrateUnlock
  by_cases halign : x0 % 4 = 0
  · simp only [halign, ne_eq, not_true, if_false]
    refine .seq (handoffMutex_ensures h) ?_
    rintro released s₁ ⟨hfiled, hmodes, hwakes⟩
    have hafter : ∀ s' P, Frame s₁ s' → P (place t) → After calls t place s s' P :=
      fun s' P hframe hP => .frame ⟨place, hfiled, hmodes, fun _ _ => .rfl, hP⟩ hframe
    have hwakes' : ∀ s', Frame s₁ s' → s.waits.owner x0 = some t → Wakes x0 s s' :=
      fun s' hframe howner => (hwakes howner).frame hframe
    refine .bind ((synchronizeMutexWaits_ensures s₁ t [x0]).imp ?_ ?_)
    · rintro - s₂ hframe
      cases released with
      | error =>
        refine (mutexMemoryFault_ensures s₂
          fun _ => ⟨hafter s₂ _ hframe trivial, hwakes' s₂ hframe⟩).mono ?_
        rintro outcome s₃ ⟨rfl, rfl⟩
        exact ⟨hafter s₃ _ hframe ht, fun _ => hwakes' s₃ hframe⟩
      | ok => exact .pure ⟨hafter s₂ _ hframe ht, fun _ => hwakes' s₂ hframe⟩
    · intro fault s₂ hframe
      exact ⟨hafter s₂ _ hframe trivial, hwakes' s₂ hframe⟩
  · simp only [halign, ne_eq, not_false_iff, if_true]
    exact .pure ⟨.of_frame h (.refl s) ht, fun hzero => absurd hzero (by simp)⟩

theorem arbitrateLock_ensures {x2 : ℕ} (hcall : calls t = some (.arbitrateLock x0 x1 x2)) :
    Settles calls t place (arbitrateLock t x0 x1 x2) s := by
  unfold arbitrateLock setOwner updateWaits
  by_cases halign : x1 % 4 = 0
  · simp only [halign, ne_eq, not_true, if_false]
    refine .seq (takeCompletion_ensures s x1 t) ?_
    rintro completion s₁ (⟨rfl, rfl⟩ | ⟨hsome, hsignalled, rfl⟩)
    · refine .read ?_
      by_cases hcontains : s₁.waits.contains x1 t = true
      · simp only [hcontains, if_true]
        exact .pure (.of_frame h (.refl s₁) (by simp [Settled, h.contains_iff.1 hcontains]))
      · -- the caller has no waiter yet
        have hnone : place t = none := by
          by_contra hne
          obtain ⟨a, ha⟩ := ne_none_iff_exists'.1 hne
          obtain ⟨w, -, -, -, rfl, -⟩ := h.waitsAt ha hcall
          exact hcontains (h.contains_iff.2 ha)
        simp only [hcontains]
        refine .seq (readProcessWideKeyWord_ensures s₁ x1) ?_
        rintro word s₂ rfl
        have hresume : ∀ result, After calls t place s₂ s₂ (Settled (.resume result)) :=
          fun result => .of_frame h (.refl s₂) hnone
        cases word with
        | error =>
          refine (mutexMemoryFault_ensures s₂ fun _ => (hresume none).weaken).mono ?_
          rintro outcome s₃ ⟨rfl, rfl⟩
          exact hresume _
        | ok observed =>
          by_cases hobserved : observed = asU32 x0 ||| mutexWaiters
          · simp only [hobserved, not_true, if_false]
            refine .read ?_
            rcases s₂.handles (asU32 x0) with _ | owner
            · exact .pure (hresume _)
            · refine .update (.update ?_)
              have hpushed := (h.name x1 owner).push x1 ⟨t, asU32 x2, none, _, _, _⟩ hnone
                queue_enqueueWithLock
                ⟨_, hcall, halign, rfl, rfl⟩
                (fun _ => ⟨owner, owner_setOwner.trans (if_pos rfl), by simp⟩) (fun _ => rfl) rfl
              refine .bind ((synchronizeMutexWaits_ensures _ t [x1]).imp ?_ ?_)
              · rintro - s₃ hframe
                refine .pure (.frame ?_ hframe)
                exact .pushed hpushed rfl (some_ne_none _)
              · intro fault s₃ hframe
                refine .frame ?_ hframe
                exact .pushed hpushed rfl trivial
          · simp only [hobserved, not_false_iff, if_true]
            exact .pure (hresume _)
    · cases completion with
      | none => cases hsome
      | some => exact .pure (.remove h (h.place_of_isSignalled hsignalled))
  · simp only [halign, ne_eq, not_false_iff, if_true]
    exact .pure (.of_frame h (.refl s) (h.place_eq_none (by simp [hcall, Svc.WaitsAt, halign])))

/-- The waiter gives up, wherever it is, or stays. -/
theorem continueWait_ensures (hplace : place t = some key ∨ place t = some mutex) {timeout : ℤ} :
    Settles calls t place (continueWait t mutex key timeout) s := by
  refine .seq (waitExpired_ensures s t timeout) ?_
  intro expired s₁ hframe
  cases expired with
  | false =>
    refine .pure (.of_frame h hframe ?_)
    rcases hplace with hp | hp <;> simp [Settled, hp]
  | true =>
    have hafter : After calls t place s
        { s₁ with waits := (s₁.waits.remove key t).remove mutex t } (· = none) := by
      have hfiled := (h.remove key t).remove mutex t
      rw [← hframe.waits, ← hframe.named] at hfiled
      refine ⟨_, hfiled, hframe.modes, ?_, ?_⟩
      · intro u hu
        split_ifs <;> simp [hu]
      · rcases hplace with hp | hp
        · simp [hp]
        · by_cases hk : mutex = key <;> simp [hp, hk]
    refine .update (.update (.update (.bind ((synchronizeMutexWaits_ensures _ t [mutex]).imp
      ?_ ?_))))
    · rintro - s₂ hframe₂
      exact .pure (hafter.frame ⟨hframe₂.waits, hframe₂.named, hframe₂.modes⟩)
    · intro fault s₂ hframe₂
      exact hafter.weaken.frame ⟨hframe₂.waits, hframe₂.named, hframe₂.modes⟩

/-- The mutex goes to a waiter, or to nobody, and the caller waits for the condition. -/
theorem beginWait_ensures (ht : place t = none) (hcall : calls t = some svc)
    (hat : svc.WaitsAt key (some mutex)) {tag : ℕ} {timeout : ℤ} :
    Call.Ensures (beginWait t mutex key tag timeout) s
      (fun outcome s' => After calls t place s s' (Settled outcome) ∧
        (s.waits.owner mutex = some t → Wakes mutex s s'))
      (fun _ s' => After calls t place s s' (fun _ => True) ∧
        (s.waits.owner mutex = some t → Wakes mutex s s' ∨ s'.waits = s.waits)) := by
  refine .seq (writeProcessWideKeyWord_ensures s key) ?_
  intro written s₁ hframe₁
  refine .seq (failInternal_ensures s₁ fun _ =>
    ⟨.of_frame h hframe₁ trivial, fun _ => Or.inr hframe₁.waits⟩) ?_
  rintro - s₁ rfl
  refine .seq (handoffMutex_ensures (h.frame hframe₁)) ?_
  rintro released s₂ ⟨h₂, hmodes₂, hwakes₂⟩
  have hwakes : ∀ s', (∀ v ∈ s₂.waits.queue mutex, v ∈ s'.waits.queue mutex) →
      s.waits.owner mutex = some t → Wakes mutex s s' := by
    intro s' hsub howner
    rw [hframe₁.waits] at hwakes₂
    have := (hwakes₂ howner).of_subset hsub
    unfold Wakes at this ⊢
    rwa [hframe₁.waits] at this
  have hafter : ∀ s' P, Frame s₂ s' → P (place t) → After calls t place s s' P :=
    fun s' P hframe hP => .frame
      ⟨place, h₂, hmodes₂.trans hframe₁.modes, fun _ _ => Iff.rfl, hP⟩ hframe
  refine .bind ((synchronizeMutexWaits_ensures s₂ t [mutex]).imp ?_ ?_)
  · rintro - s₃ hframe₃
    have hwakes₃ := hwakes s₃ fun v hv => hframe₃.waits ▸ hv
    cases released with
    | error =>
      refine (mutexMemoryFault_ensures s₃ fun _ =>
        ⟨hafter s₃ _ hframe₃ trivial, fun howner => Or.inl (hwakes₃ howner)⟩).mono ?_
      rintro outcome s₄ ⟨rfl, rfl⟩
      exact ⟨hafter s₄ _ hframe₃ ht, hwakes₃⟩
    | ok =>
      by_cases htimeout : timeout = 0
      · simp only [htimeout, if_true]
        exact .pure ⟨hafter s₃ _ hframe₃ ht, hwakes₃⟩
      · simp only [htimeout, if_false]
        have hpushed := (h₂.frame hframe₃).push key ⟨t, tag, some mutex, _, _, _⟩ ht
          queue_enqueueWithLock ⟨svc, hcall, hat⟩
          (fun hpending => by simp [AddressWaiter.pending] at hpending) (fun _ => rfl) rfl
        refine .update (.seq (waitExpired_ensures _ t timeout) ?_)
        intro expired s₄ hframe₄
        refine .pure ⟨.frame ?_ hframe₄, hwakes s₄ ?_⟩
        · exact .pushed hpushed (hframe₃.modes.trans (hmodes₂.trans hframe₁.modes))
            (some_ne_none _)
        · intro v hv
          rw [hframe₄.waits]
          show v ∈ (s₃.waits.enqueueWithLock key t tag (some mutex)).queue mutex
          rw [queue_enqueueWithLock]
          rw [← hframe₃.waits] at hv
          split
          · rename_i hkey
            exact mem_append_left _ (hkey ▸ hv)
          · exact hv
  · intro fault s₃ hframe₃
    exact ⟨hafter s₃ _ hframe₃ trivial,
      fun howner => Or.inl (hwakes s₃ (fun v hv => hframe₃.waits ▸ hv) howner)⟩

/-- A suspended waiter has its turn again: it takes its completion, or gives up, or goes on
waiting. -/
theorem waitProcessWideKeyAtomic_ensures
    {x2 x3 : ℕ} (hcall : calls t = some (.waitProcessWideKeyAtomic x0 x1 x2 x3)) :
    Call.Ensures (waitProcessWideKeyAtomic t x0 x1 x2 x3) s
      (fun outcome s' => After calls t place s s' (Settled outcome) ∧
        (x0 % 4 = 0 → place t = none → s.waits.owner x0 = some t → Wakes x0 s s'))
      (fun _ s' => After calls t place s s' (fun _ => True) ∧
        (place t = none → s.waits.owner x0 = some t → Wakes x0 s s' ∨ s'.waits = s.waits)) := by
  unfold waitProcessWideKeyAtomic finishWait
  by_cases halign : x0 % 4 = 0
  swap
  · simp only [halign, ne_eq, not_false_iff, if_true]
    have hnone := h.place_eq_none (t := t) (by simp [hcall, Svc.WaitsAt, halign])
    exact .pure ⟨.of_frame h (.refl s) hnone, fun hzero => absurd hzero (by simp)⟩
  simp only [halign, ne_eq, not_true, if_false]
  -- a completion at either address ends the wait
  have htaken : ∀ a result,
      s.waits.isSignalled a t = true → ∀ s', Frame { s with waits := s.waits.remove a t } s' →
      After calls t place s s' (Settled (.resume result)) ∧
        (True → place t = none → s.waits.owner x0 = some t → Wakes x0 s s') := by
    intro a result hsignalled s' hframe
    have ha := h.place_of_isSignalled hsignalled
    refine ⟨(After.remove h ha).frame hframe, fun _ hnone => ?_⟩
    rw [ha] at hnone
    cases hnone
  refine .seq (takeCompletion_ensures s _ t) ?_
  rintro completion s₁ (⟨rfl, rfl⟩ | ⟨hsome, hsignalled, rfl⟩)
  swap
  · cases completion with
    | none => cases hsome
    | some => exact .update (.pure (htaken _ _ hsignalled _ ⟨rfl, rfl, rfl⟩))
  refine .seq (takeCompletion_ensures s₁ x0 t) ?_
  rintro completion s₂ (⟨rfl, rfl⟩ | ⟨hsome, hsignalled, rfl⟩)
  swap
  · cases completion with
    | none => cases hsome
    | some => exact .update (.pure (htaken _ _ hsignalled _ ⟨rfl, rfl, rfl⟩))
  refine .read ?_
  split
  · rename_i hcontains
    have hplace : place t = some (x1 - x1 % 4) ∨ place t = some x0 :=
      ((Bool.or_eq_true ..).mp hcontains).imp h.contains_iff.1 h.contains_iff.1
    have hwaits : place t ≠ none := by
      rcases hplace with hp | hp <;> simp [hp]
    exact (continueWait_ensures h hplace).imp
      (fun outcome s' hafter => ⟨hafter, fun _ hnone => absurd hnone hwaits⟩)
      fun fault s' hafter => ⟨hafter, fun hnone => absurd hnone hwaits⟩
  · rename_i hcontains
    have hnone : place t = none := by
      by_contra hne
      obtain ⟨a, ha⟩ := ne_none_iff_exists'.1 hne
      obtain ⟨w, -, -, -, ⟨rfl, -⟩ | ⟨rfl, -⟩⟩ := h.waitsAt ha hcall
      · simp [h.contains_iff.2 ha] at hcontains
      · simp [h.contains_iff.2 ha] at hcontains
    exact (beginWait_ensures h hnone hcall ⟨halign, .inl ⟨rfl, rfl⟩⟩).imp
      (fun outcome s' hpost => ⟨hpost.1, fun _ _ => hpost.2⟩)
      fun fault s' hpost => ⟨hpost.1, fun _ => hpost.2⟩

end Waits

/-- A condition waiter goes to the queue of its mutex, whose owner is known. -/
theorem moveWaiter_ensures {r : AddressWaitRegistry} {named : ℕ → Bool}
    (h : Filed r named calls place) {w : AddressWaiter} (hw : w ∈ r.queue key)
    (hlock : w.lockAddress = some mutex)
    (howner : ∃ o, r.owner mutex = some o ∧ (o = w.thread → named mutex = true)) :
    Call.Ensures (AddressWait.moveWaiter key mutex w.thread) r
      (fun _ r' => Filed r' named calls (update place w.thread (some mutex)))
      fun _ _ => False := by
  obtain ⟨q, hq⟩ : ∃ q, r.waiters[key]? = some q := by
    rcases hq : r.waiters[key]? with _ | q
    · simp [queue, hq] at hw
    · exact ⟨q, rfl⟩
  have hqueue : r.queue key = q := by simp [queue, hq]
  obtain ⟨i, hi⟩ : ∃ i, q.findIdx? (fun v => v.thread == w.thread) = some i := by
    rw [← isSome_iff_exists, findIdx?_isSome, List.any_eq_true]
    exact ⟨w, hqueue ▸ hw, by simp⟩
  obtain ⟨hlt, hthread, -⟩ := findIdx?_eq_some_iff_getElem.1 hi
  -- the waiter that is found is the one that was chosen
  have hfound : q[i]? = some w := by
    rw [getElem?_eq_getElem hlt]
    refine congrArg some (h.placed.eq_of_mem (i := key) ?_ hw (by simpa using hthread)).2
    rw [hqueue]
    exact getElem_mem hlt
  refine .read ?_
  rw [hq]
  refine .expect ?_
  rw [hi]
  refine .expect ?_
  rw [hfound]
  have hplace := h.placed.place_of_mem hw
  have htaken : Filed (r.setQueue key (q.eraseIdx i)) named calls (update place w.thread none) := by
    refine h.take hplace ?_ (fun _ => rfl) rfl
    intro b
    rw [queue_setQueue, eraseP_eq_eraseIdx, hqueue, hi]
  obtain ⟨svc, hsvc, hat⟩ := h.entry key w hw
  have hat' : svc.WaitsAt mutex none := by
    rw [hlock] at hat
    cases svc with
    | arbitrateLock => simp [Svc.WaitsAt] at hat
    | arbitrateUnlock | signalProcessWideKey => exact hat
    | waitProcessWideKeyAtomic =>
      rcases hat with ⟨halign, ⟨-, hmutex⟩ | ⟨-, hnone⟩⟩
      · exact ⟨halign, .inr ⟨(some.inj hmutex), rfl⟩⟩
      · cases hnone
  have hpushed := htaken.push mutex { w with lockAddress := none } (by simp)
    (queue_insert mutex _) ⟨svc, hsvc, hat'⟩ (fun _ => howner) (fun _ => rfl) rfl
  rw [update_idem] at hpushed
  exact hpushed

/-- Condition waiters are signalled, or moved to their mutexes; none is lost. -/
theorem signalConditions_ensures : ∀ (limit : ℕ) (s : Process)
    (place : GuestThreadId → Option ℕ), Filed s.waits s.named calls place →
    Call.Ensures (signalConditions key limit) s (fun _ s' => Kept calls place s s')
      fun _ s' => Kept calls place s s' := by
  intro limit
  induction limit with
  | zero =>
    intro s place h
    exact .pure ⟨place, h, rfl, fun _ => .rfl⟩
  | succ limit ih =>
    intro s place h
    refine .read ?_
    rcases hnext : s.waits.nextCondition key with _ | ⟨thread, tag, mutex⟩
    · exact .pure ⟨place, h, rfl, fun _ => .rfl⟩
    obtain ⟨w, hw, rfl, hlock, -⟩ := nextCondition_eq_some hnext
    -- the rest of the loop, from a state with the same threads in the queues
    have hrest : ∀ s₁ place₁, Filed s₁.waits s₁.named calls place₁ → s₁.modes = s.modes →
        (∀ u, place₁ u = none ↔ place u = none) →
        Call.Ensures (signalConditions key limit) s₁ (fun _ => Kept calls place s)
          fun _ s' => Kept calls place s s' := by
      intro s₁ place₁ h₁ hmodes hsame
      refine (ih s₁ place₁ h₁).imp ?_ ?_ <;>
      · rintro - s' ⟨place', hfiled, hmodes', hsame'⟩
        exact ⟨place', hfiled, hmodes'.trans hmodes, fun u => (hsame' u).trans (hsame u)⟩
    refine .seq (updateConditionMutex_ensures s) ?_
    intro previous s₁ hframe
    have h₁ := h.frame hframe
    have hw₁ : w ∈ s₁.waits.queue key := hframe.waits ▸ hw
    match previous with
    | .ok 0 =>
      -- a condition waiter is not pending, so the new owner does not wait for itself
      have hgrant := h₁.grant mutex w.thread (by
        intro v hv hpending hthread
        obtain ⟨-, rfl⟩ := h₁.placed.eq_of_mem hv hw₁ hthread
        simp [AddressWaiter.pending, hlock] at hpending)
      refine .update (.update (.seq (hrest _ place ?_ ?_ ?_) fun _ _ hpost => .pure hpost))
      · exact hgrant.signalResult key w.thread .success
      · exact hframe.modes
      · exact fun _ => .rfl
    | .ok (n + 1) =>
      refine .read ?_
      rcases s₁.handles ((n + 1) &&& (2 ^ 32 - 1 - mutexWaiters)) with _ | owner
      · refine .update (hrest _ place ?_ ?_ fun _ => .rfl)
        · exact h₁.signalResult key w.thread .invalidOwner
        · exact hframe.modes
      · refine .update (.bind (.zoom ((moveWaiter_ensures (h₁.name mutex owner) hw₁ hlock
          ⟨owner, owner_setOwner.trans (if_pos rfl), by simp⟩).mono ?_)))
        intro _ r' hmoved
        refine .seq (hrest _ _ hmoved ?_ ?_) fun _ _ hpost => .pure hpost
        · exact hframe.modes
        · intro u
          have hplace := h₁.placed.place_of_mem hw₁
          by_cases hu : u = w.thread
          · subst hu
            simp [hplace]
          · simp [hu]
    | .error fault =>
      refine .seq (failIf_ensures s₁ fun _ =>
        ⟨place, h₁, hframe.modes, fun _ => Iff.rfl⟩) ?_
      rintro - s₂ rfl
      refine .update (hrest _ place ?_ ?_ fun _ => .rfl)
      · exact h₁.signalResult key w.thread .invalidMemory
      · exact hframe.modes

theorem signalProcessWideKey_ensures (h : Filed s.waits s.named calls place) (ht : place t = none) :
    Settles calls t place (signalProcessWideKey t x0 x1) s := by
  refine .bind ((signalConditions_ensures _ s place h).imp ?_ ?_)
  · rintro changed s₁ ⟨place', h₁, hmodes, hsame⟩
    have hafter : After calls t place s s₁ (· = none) :=
      ⟨place', h₁, hmodes, fun u _ => hsame u, (hsame t).2 ht⟩
    -- what follows concerns the key word and the priorities
    have hfinish : ∀ s₂, Frame s₁ s₂ → Call.Ensures
        (if ((changed.mergeSort (· ≤ ·)).destutter (· ≠ ·)).isEmpty then
          return .resume none
        else do
          synchronizeMutexWaits t ((changed.mergeSort (· ≤ ·)).destutter (· ≠ ·))
          return .resume none) s₂
        (fun outcome s' => After calls t place s s' (Settled outcome))
        fun _ s' => After calls t place s s' fun _ => True := by
      intro s₂ hframe
      split
      · exact .pure (hafter.frame hframe)
      · exact .bind ((synchronizeMutexWaits_ensures s₂ t _).imp
          (fun _ s₃ hframe₃ => .pure (hafter.frame (hframe.trans hframe₃)))
          fun _ s₃ hframe₃ => hafter.weaken.frame (hframe.trans hframe₃))
    refine .read ?_
    split
    · refine .seq (writeProcessWideKeyWord_ensures s₁ _) ?_
      intro written s₂ hframe
      refine .seq (failInternal_ensures s₂ fun _ =>
        hafter.weaken.frame hframe) ?_
      rintro - s₃ rfl
      exact hfinish s₃ hframe
    · exact hfinish s₁ (.refl s₁)
  · rintro fault s₁ ⟨place', h₁, hmodes, hsame⟩
    exact ⟨place', h₁, hmodes, fun u _ => hsame u, trivial⟩

/-- **One call** of a thread.  A thread that goes on has no waiter; a suspended one has. -/
theorem call_ensures (h : Filed s.waits s.named calls place) (hcall : calls t = some svc) :
    Settles calls t place (svc.call t) s := by
  cases svc with
  | arbitrateLock => exact arbitrateLock_ensures h hcall
  | arbitrateUnlock =>
    exact (arbitrateUnlock_ensures h (h.place_eq_none (by simp [hcall, Svc.WaitsAt]))).imp
      (fun _ _ h => h.1) fun _ _ h => h.1
  | waitProcessWideKeyAtomic =>
    exact (waitProcessWideKeyAtomic_ensures h hcall).imp (fun _ _ h => h.1) fun _ _ h => h.1
  | signalProcessWideKey =>
    exact signalProcessWideKey_ensures h (h.place_eq_none (by simp [hcall, Svc.WaitsAt]))

def Svc.Unlocks : Svc → ℕ → Prop
  | .arbitrateUnlock x0, m => x0 = m
  | .waitProcessWideKeyAtomic x0 _ _ _, m => x0 = m
  | _, _ => False

/-- A call with which the recorded owner gives up a mutex wakes a waiter, or fails before it has
changed anything. -/
theorem call_wakes (h : Filed s.waits s.named calls place)
    (hcall : calls t = some svc) (ht : place t = none) (hm : m % 4 = 0)
    (hunlocks : svc.Unlocks m) (howner : s.waits.owner m = some t) :
    Call.Ensures (svc.call t) s (fun _ s' => Wakes m s s')
      fun _ s' => Wakes m s s' ∨ s'.waits = s.waits := by
  cases svc with
  | arbitrateLock | signalProcessWideKey => exact hunlocks.elim
  | arbitrateUnlock x0 =>
    obtain rfl : x0 = m := hunlocks
    exact (arbitrateUnlock_ensures h ht).imp (fun _ _ h => h.2 hm howner)
      fun _ _ h => Or.inl (h.2 howner)
  | waitProcessWideKeyAtomic x0 =>
    obtain rfl : x0 = m := hunlocks
    exact (waitProcessWideKeyAtomic_ensures h hcall).imp
      (fun _ _ h => h.2 hm ht howner) fun _ _ h => h.2 ht howner

end Calls

end Nixe.MutexWait
