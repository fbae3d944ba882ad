/-
**A wait is completed at most once.**

The runs of the priority wait queue.  A wait is identified by the event that `enqueue` returned for
it.  From then on it is pending until an operation completes it, and signals its event, or removes
it; what happens later to its thread has no effect on the wait any more.

Main definitions:

* `Represented` — how the queues, the positions, the deadlines and the results describe the same
  waits;
* `Fate` — what an operation can do to a pending wait.

Main results:

* `effect_apply` — one operation, from a state with the invariant;
* `waits_complete_once` — **every run**: the representation, the absence of panics, and the life of
  each wait.
-/

import Nixe.PriorityWaitInvariant

set_option autoImplicit false

namespace Nixe.PriorityWait

/-- The representation: one waiter in one queue for each position, one deadline for each waiter
that has one, nothing empty, and no thread that both waits and has a result. -/
structure Represented (s : PriorityAddressWaitQueue) : Prop where
  position_iff : ∀ t a p, ((s.queues.bucket a p).map Waiter.thread).count t =
    if s.positions[t]? = some (a, p) then 1 else 0
  deadline_iff : ∀ k, k ∈ s.deadlines ↔ ∃ a p, ∃ w ∈ s.queues.bucket a p,
    w.thread = k.thread ∧ w.deadline = some k.deadline
  tidy : s.queues.Tidy
  disjoint : ∀ t, t ∈ s.positions → t ∉ s.completed

variable {s s' : PriorityAddressWaitQueue} {operation : Operation} {thread : GuestThreadId}
  {e : EventId}

theorem Inv.represented (hs : Inv s) : Represented s := by
  refine ⟨fun t a p => hs.filed.placed t (a, p), ?_, hs.filed.tidy, ?_⟩
  · intro k
    rw [hs.deadline_iff, Option.bind_eq_some_iff]
    constructor
    · rintro ⟨w, hw, hd⟩
      obtain ⟨ht, a, p, hmem⟩ := hs.filed.lookup_iff.1 hw
      exact ⟨a, p, w, hmem, ht, hd⟩
    · rintro ⟨a, p, w, hmem, ht, hd⟩
      exact ⟨w, hs.filed.lookup_iff.2 ⟨ht, a, p, hmem⟩, hd⟩
  · intro t ht hc
    obtain ⟨⟨a, p⟩, hpos⟩ : ∃ position, s.positions[t]? = some position :=
      Option.isSome_iff_exists.1 (by simpa using ht)
    obtain ⟨w, hw⟩ := hs.filed.exists_waiter hpos
    have := hs.disjoint t (by rw [PriorityAddressWaitQueue.waiterOf, hw]; rfl)
    simp at this
    exact this hc

/-- Some thread waits for the event. -/
def PriorityAddressWaitQueue.Pending (s : PriorityAddressWaitQueue) (e : EventId) : Prop :=
  ∃ t w, s.waiterOf t = some w ∧ w.event = e

/-- The result that an operation gives to the waits it completes. -/
def Operation.result : Operation → Option AddressWaitResult
  | .signal .. => some .signalled
  | .expire _ => some .timedOut
  | _ => none

/-- What becomes of the wait `w` of the thread `t`: it goes on, or it is completed and its event
signalled, or it is removed. -/
def Fate (operation : Operation) (s' : PriorityAddressWaitQueue) (t : GuestThreadId)
    (w : Waiter) : Prop :=
  (s'.waiterOf t = some w ∧ s'.completed[t]? = none ∧ w.event ∉ s'.events.signalled) ∨
  (∃ r, operation.result = some r ∧ s'.waiterOf t = none ∧ s'.completed[t]? = some r ∧
    w.event ∈ s'.events.signalled) ∨
  (operation = .remove t ∧ s'.waiterOf t = none ∧ s'.completed[t]? = none ∧
    w.event ∉ s'.events.signalled)

/-- **Everything an operation can do with waits.** -/
structure Effect (operation : Operation) (s s' : PriorityAddressWaitQueue) : Prop where
  inv : Inv s'
  next : s.events.next ≤ s'.events.next
  fate : ∀ t w, s.waiterOf t = some w → Fate operation s' t w
  fresh : ∀ t w, s'.waiterOf t = some w → s.waiterOf t = some w ∨ s.events.next ≤ w.event
  log : ∃ ended, s'.events.signalled = s.events.signalled ++ ended ∧
    ∀ e ∈ ended, s.Pending e

/-- An operation that leaves the events alone and keeps the waits. -/
theorem Effect.of_same (hs' : Inv s') (hview : ∀ i, s'.waiterOf i = s.waiterOf i)
    (hevents : s'.events = s.events) : Effect operation s s' := by
  refine ⟨hs', by rw [hevents], ?_, ?_, [], by simp [hevents], by simp⟩
  · intro t w hw
    rw [← hview t] at hw
    exact .inl ⟨hw, hs'.disjoint t (by simp [hw]), hs'.event_silent t w hw⟩
  · intro t w hw
    exact .inl (hview t ▸ hw)

theorem Ends.effect {r : AddressWaitResult} (h : Ends r s s') (hs' : Inv s')
    (hr : operation.result = some r) : Effect operation s s' := by
  refine ⟨hs', h.next.ge, ?_, ?_, ?_⟩
  · intro t w hw
    rcases h.fate t with ⟨hsame, -⟩ | ⟨v, hv, hnone, hc, he⟩
    · rw [← hsame] at hw
      exact .inl ⟨hw, hs'.disjoint t (by simp [hw]), hs'.event_silent t w hw⟩
    · obtain rfl : w = v := by
        rw [hw] at hv
        exact Option.some.inj hv
      exact .inr (.inl ⟨r, hr, hnone, hc, he⟩)
  · intro t w hw
    rcases h.fate t with ⟨hsame, -⟩ | ⟨v, -, hnone, -⟩
    · exact .inl (hsame ▸ hw)
    · rw [hnone] at hw
      cases hw
  · obtain ⟨ended, hlog, hmem⟩ := h.log
    refine ⟨ended, hlog, ?_⟩
    intro e he
    obtain ⟨t, w, hw, hwe, -⟩ := hmem e he
    exact ⟨t, w, hw, hwe⟩

/-- A new wait has the next event, and every old one goes on. -/
theorem effect_enqueue (hs : Inv s) (address : ℕ) (thread : GuestThreadId) (priority : ℤ)
    (deadline : Option ℕ) : Call.Ensures (enqueue address thread priority deadline) s
      (fun answer s' => Effect (.enqueue address thread priority deadline) s s' ∧
        ∀ e, answer = some e → e = s.events.next ∧ s'.events.next = e + 1 ∧
          s'.waiterOf thread = some ⟨thread, deadline, e⟩)
      fun _ _ => False := by
  refine (enqueue_ensures hs).mono ?_
  rintro answer s' ⟨hs', ⟨rfl, rfl⟩ | ⟨rfl, hnone, hevents, hcompleted, hview⟩⟩
  · exact ⟨.of_same hs' (fun _ => rfl) rfl, by simp⟩
  · refine ⟨⟨hs', by simp [hevents], ?_, ?_, [], by simp [hevents], by simp⟩, ?_⟩
    · intro t w hw
      have hne : thread ≠ t := by
        rintro rfl
        rw [hnone] at hw
        cases hw
      have hw' : s'.waiterOf t = some w := by rw [hview, if_neg hne, hw]
      exact .inl ⟨hw', hs'.disjoint t (by simp [hw']), hs'.event_silent t w hw'⟩
    · intro t w hw
      rw [hview] at hw
      by_cases ht : thread = t
      · rw [if_pos ht] at hw
        cases hw
        exact .inr le_rfl
      · rw [if_neg ht] at hw
        exact .inl hw
    · rintro e ⟨rfl⟩
      exact ⟨rfl, by simp [hevents], by simp [hview]⟩

theorem effect_remove (hs : Inv s) :
    Call.Ensures (remove thread) s (fun _ s' => Effect (.remove thread) s s') fun _ _ => False := by
  refine (remove_ensures hs).mono ?_
  rintro - s' ⟨hs', hview, hcompleted, hevents⟩
  refine ⟨hs', by rw [hevents], ?_, ?_, [], by simp [hevents], by simp⟩
  · intro t w hw
    by_cases ht : thread = t
    · subst ht
      refine .inr (.inr ⟨rfl, by simp [hview], by simp [hcompleted], ?_⟩)
      rw [hevents]
      exact hs.event_silent thread w hw
    · have hw' : s'.waiterOf t = some w := by rw [hview, if_neg ht, hw]
      exact .inl ⟨hw', hs'.disjoint t (by simp [hw']), hs'.event_silent t w hw'⟩
  · intro t w hw
    rw [hview] at hw
    by_cases ht : thread = t
    · simp [ht] at hw
    · rw [if_neg ht] at hw
      exact .inl hw

/-- **One operation**: it does not panic, and has the effect described by `Effect`. -/
theorem effect_apply (hs : Inv s) (operation : Operation) :
    Call.Ensures (apply operation) s (fun _ s' => Effect operation s s') fun _ _ => False := by
  cases operation with
  | enqueue address thread priority deadline =>
    exact .seq (effect_enqueue hs address thread priority deadline) fun _ _ h => h.1
  | signal address count =>
    exact .seq (signal_ensures address count s hs) fun _ _ h => h.2.effect h.1 rfl
  | expire =>
    exact .seq (expire_ensures hs) fun _ _ h => h.2.effect h.1 rfl
  | changePriority =>
    exact .seq (changePriority_ensures hs) fun _ _ h => .of_same h.1 h.2.1 h.2.2.2
  | takeResult => exact .of_same hs.forget (fun _ => rfl) rfl
  | remove => exact .seq (effect_remove hs) fun _ _ h => h

theorem effect_step (hs : Inv s) (operation : Operation) :
    Effect operation s (machine.step s operation).2 :=
  (effect_apply hs operation).state (fun _ _ h => h) fun _ _ h => h.elim

/-- The event that `enqueue` returns is new, and the thread waits for it. -/
theorem enqueue_answer (hs : Inv s) {address : ℕ} {priority : ℤ} {deadline : Option ℕ}
    (he : (machine.step s (.enqueue address thread priority deadline)).1 = .ok (.event (some e))) :
    s.events.next ≤ e ∧
      (machine.step s (.enqueue address thread priority deadline)).2.waiterOf thread =
        some ⟨thread, deadline, e⟩ := by
  have henq := effect_enqueue hs address thread priority deadline
  simp only [machine, apply, Call.bind_run] at he ⊢
  rcases hrun : enqueue address thread priority deadline s with ⟨out, s'⟩
  rw [Call.Ensures, hrun] at henq
  rw [hrun] at he
  cases out with
  | ok answer =>
    obtain rfl : answer = some e := by simpa using he
    obtain ⟨rfl, -, hw⟩ := henq.2 e rfl
    exact ⟨le_rfl, hw⟩
  | err | panic => exact henq.elim

/-! ### Whole runs -/

/-- A wait that is over: its event was created, and nobody waits for it. -/
theorem over_step (hs : Inv s) (hlt : e < s.events.next) (hover : ¬ s.Pending e) :
    e < (machine.step s operation).2.events.next ∧ ¬ (machine.step s operation).2.Pending e ∧
      (e ∈ (machine.step s operation).2.events.signalled ↔ e ∈ s.events.signalled) := by
  have heff := effect_step hs operation
  refine ⟨lt_of_lt_of_le hlt heff.next, ?_, ?_⟩
  · rintro ⟨t, w, hw, rfl⟩
    rcases heff.fresh t w hw with hold | hnew
    · exact hover ⟨t, w, hold, rfl⟩
    · exact absurd hlt (not_lt.2 hnew)
  · obtain ⟨ended, hlog, hmem⟩ := heff.log
    rw [hlog, List.mem_append]
    refine ⟨fun h => h.elim id fun he => absurd (hmem e he) hover, .inl⟩

theorem inv_run (operations : List Operation) : Inv (machine.run .empty operations) :=
  Machine.run_invariant_all (I := Inv) (fun _ operation hs => (effect_step hs operation).inv)
    operations _ inv_empty

theorem over_run {later : List Operation} : ∀ s : PriorityAddressWaitQueue, Inv s →
    e < s.events.next → ¬ s.Pending e →
    ¬ (machine.run s later).Pending e ∧
      (e ∈ (machine.run s later).events.signalled ↔ e ∈ s.events.signalled) := by
  induction later with
  | nil => intro s _ _ hover; exact ⟨hover, .rfl⟩
  | cons operation later ih =>
    intro s hs hlt hover
    obtain ⟨hlt', hover', hiff⟩ := over_step hs hlt hover
    obtain ⟨h₁, h₂⟩ := ih _ (effect_step hs operation).inv hlt' hover'
    exact ⟨h₁, h₂.trans hiff⟩

/-- **Every wait is completed at most once.**  In every state that a list of operations leads to,
the indexes describe the same waits, and no operation on the way panicked.  The next operation
leaves a pending wait as it is, or completes it with `Signalled` or `TimedOut` and signals its
event, or is its removal; it signals no other event.  A wait that is over stays over, and its event
is signalled then if it was signalled before.  No event is signalled twice, and `enqueue` returns an
event that no earlier wait had. -/
theorem waits_complete_once (operations : List Operation) : let s := machine.run .empty operations
    (Represented s ∧ ∀ entry ∈ machine.trace .empty operations, entry.2.isPanic = false) ∧
    (∀ operation t w, s.waiterOf t = some w → Fate operation (machine.step s operation).2 t w) ∧
    (∀ operation e, e ∈ (machine.step s operation).2.events.signalled →
      e ∈ s.events.signalled ∨ s.Pending e) ∧
    (∀ e, e < s.events.next → ¬ s.Pending e → ∀ later, ¬ (machine.run s later).Pending e ∧
        (e ∈ (machine.run s later).events.signalled ↔ e ∈ s.events.signalled)) ∧
    s.events.signalled.Nodup ∧
    (∀ address thread priority deadline e,
      (machine.step s (.enqueue address thread priority deadline)).1 = .ok (.event (some e)) →
      s.events.next ≤ e ∧
        (machine.step s (.enqueue address thread priority deadline)).2.waiterOf thread =
          some ⟨thread, deadline, e⟩) := by
  have hs := inv_run operations
  refine ⟨⟨hs.represented, ?_⟩, ?_, ?_, ?_, hs.signalled_nodup, ?_⟩
  · exact Machine.trace_forall (I := Inv) (fun _ operation hs => (effect_step hs operation).inv)
      (fun _ operation hs => (effect_apply hs operation).not_panic) operations _ inv_empty
  · intro operation t w hw
    exact (effect_step hs operation).fate t w hw
  · intro operation e he
    obtain ⟨ended, hlog, hmem⟩ := (effect_step hs operation).log
    rw [hlog, List.mem_append] at he
    exact he.imp id (hmem e)
  · intro e hlt hover later
    exact over_run _ hs hlt hover
  · intro address thread priority deadline e he
    exact enqueue_answer hs he

end Nixe.PriorityWait
