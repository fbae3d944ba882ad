/-
**No interleaving strands a waiter.**

Every interleaving of calls, retries, expiring timers, terminations and changes of the world around
them.  The calls are those of `Nixe.MutexWaitCalls`; here the modes of the threads come in, and the
end of a thread.

Main definitions:

* `Released` — what the end of a thread does to the waiters;
* `Inv` — the invariant of the process.

Main results:

* `apply_ensures` — **one command** keeps the invariant, without a panic;
* `issue_wakes` — an unlock by the recorded owner wakes a waiter;
* `waiters_never_stranded` — **every run**;
* `terminate_exact` — the end of a thread.
-/

import Nixe.MutexWaitCalls
import Nixe.PriorityWaitRuns

set_option autoImplicit false

namespace Nixe.MutexWait

open PriorityWait (GuestThreadId)
open AddressWait (AddressWaiter AddressWaitRegistry)
open List Function Process AddressWait.AddressWaiter

/-! ### The end of a thread -/

/-- What the end of a thread does to the waiters. -/
structure Released (t : GuestThreadId) (r r' : AddressWaitRegistry) : Prop where
  queue : ∀ a, r'.queue a = ((r.queue a).filter fun w => w.thread != t).map
    fun w => if r.owner a = some t then w.cancel else w
  owner : ∀ a, r'.owner a = if r.owner a = some t then none else r.owner a
  arbitration : PriorityWait.Inv r'.priorityWaits

variable {t : GuestThreadId} {r r' : AddressWaitRegistry} {a : ℕ} {w : AddressWaiter}
  {named : ℕ → Bool} {calls : GuestThreadId → Option Svc}
  {place place' : GuestThreadId → Option ℕ} {s s' : Process} {svc : Svc}

/-- A waiter of another thread is still there, cancelled if the thread was the owner. -/
theorem Released.mem (h : Released t r r') (hw : w ∈ r.queue a) (hne : w.thread ≠ t) :
    (if r.owner a = some t then w.cancel else w) ∈ r'.queue a := by
  rw [h.queue]
  exact mem_map_of_mem (mem_filter.2 ⟨hw, by simpa using hne⟩)

theorem Filed.release (h : Filed r named calls place) (hr : Released t r r') :
    Filed r' named calls (update place t none) := by
  have hthread : ∀ a (w : AddressWaiter),
      (if r.owner a = some t then w.cancel else w).thread = w.thread := by
    intro a w
    split <;> simp
  refine ⟨?_, ?_, ?_, hr.arbitration⟩
  · have hdropped : Placed thread
        (fun a => (r.queue a).filter fun w => w.thread != t) (update place t none) := by
      refine h.placed.drop (fun _ => rfl) ?_
      simp [update_apply, eq_comm]
    refine hdropped.rewrite fun a => ?_
    rw [hr.queue, map_map]
    exact map_congr_left fun w _ => hthread a w
  · intro a w' hw'
    rw [hr.queue] at hw'
    obtain ⟨w, hw, rfl⟩ := mem_map.1 hw'
    have hlock : (if r.owner a = some t then w.cancel else w).lockAddress = w.lockAddress := by
      split <;> simp
    rw [hthread, hlock]
    exact h.entry a w (mem_of_mem_filter hw)
  · intro a w' hw' hpending
    rw [hr.queue] at hw'
    obtain ⟨w, hw, rfl⟩ := mem_map.1 hw'
    by_cases howner : r.owner a = some t
    · simp [howner] at hpending
    · rw [if_neg howner] at hpending ⊢
      rw [hr.owner, if_neg howner]
      exact h.owned a w (mem_of_mem_filter hw) hpending

theorem exitThread_ensures (h : Filed s.waits s.named calls place) :
    Call.Ensures (exitThread t) s (fun _ s' => Released t s.waits s'.waits ∧ s'.named = s.named ∧
        s'.modes = update s.modes t .exited)
      fun _ _ => False := by
  refine .bind (.zoom ((AddressWait.releaseThread_ensures h.distinct h.arbitration).mono ?_))
  rintro - r' ⟨hqueue, howner, harbitration⟩
  exact ⟨⟨hqueue, howner, harbitration⟩, rfl, rfl⟩

/-! ### Whole runs -/

/-- The call that a thread is suspended in. -/
def Process.callOf (s : Process) (t : GuestThreadId) : Option Svc :=
  match s.modes t with
  | .suspended svc => some svc
  | _ => none

/-- **The invariant of a process**: the registry is in order for the calls that the threads are
suspended in, and every suspended thread has a waiter. -/
def Inv (s : Process) : Prop :=
  ∃ place, Filed s.waits s.named s.callOf place ∧ ∀ t, s.callOf t ≠ none → place t ≠ none

theorem inv_initial {world : World} : Inv (.initial world) := by
  refine ⟨fun _ => none, ⟨?_, ?_, ?_, PriorityWait.inv_empty⟩, ?_⟩
  · intro t a
    simp [initial]
  · intro a w hw
    simp [initial] at hw
  · intro a w hw
    simp [initial] at hw
  · intro t ht
    exact absurd rfl ht

/-- The waiters change in place, or not at all. -/
theorem Inv.of_filed (h : Inv s) (hmodes : s'.modes = s.modes)
    (hfiled : ∀ place, Filed s.waits s.named s.callOf place →
      Filed s'.waits s'.named s.callOf place) : Inv s' := by
  obtain ⟨place, hplace, hwaits⟩ := h
  have hcalls : s'.callOf = s.callOf := by
    funext t
    simp [callOf, hmodes]
  refine ⟨place, ?_, ?_⟩
  · rw [hcalls]
    exact hfiled place hplace
  · rw [hcalls]
    exact hwaits

/-- A thread that gets a new mode: it is suspended if and only if it has a waiter. -/
theorem Inv.of_mode {mode : Mode} (hmodes : s'.modes = update s.modes t mode)
    (hcalls : ∀ u, u ≠ t → calls u = s.callOf u) (hwaits : ∀ u, s.callOf u ≠ none → place u ≠ none)
    (hothers : ∀ u, u ≠ t → (place' u = none ↔ place u = none))
    (hfiled : Filed s'.waits s'.named calls place')
    (hmode : (s'.callOf t = calls t ∧ place' t ≠ none) ∨ (s'.callOf t = none ∧ place' t = none)) :
    Inv s' := by
  have hsame : ∀ u, u ≠ t → s'.callOf u = s.callOf u := by
    intro u hu
    simp [callOf, hmodes, update_of_ne hu]
  refine ⟨place', ?_, ?_⟩
  · rcases hmode with ⟨hcall, -⟩ | ⟨-, hnone⟩
    · have heq : s'.callOf = calls := by
        funext u
        by_cases hu : u = t
        · rw [hu, hcall]
        · rw [hsame u hu, hcalls u hu]
      rw [heq]
      exact hfiled
    · exact hfiled.withCalls hnone fun u hu => (hsame u hu).trans (hcalls u hu).symm
  · intro u hu
    by_cases hut : u = t
    · subst hut
      rcases hmode with ⟨-, hplace⟩ | ⟨hcall, -⟩
      · exact hplace
      · exact absurd hcall hu
    · rw [hsame u hut] at hu
      exact fun hnone => hwaits u hu ((hothers u hut).1 hnone)

theorem exitThread_inv {s₀ : Process} (hfiled : Filed s.waits s.named calls place')
    (hmodes : s.modes = s₀.modes) (hcalls : ∀ u, u ≠ t → calls u = s₀.callOf u)
    (hwaits : ∀ u, s₀.callOf u ≠ none → place u ≠ none)
    (hothers : ∀ u, u ≠ t → (place' u = none ↔ place u = none)) : Call.Ensures (exitThread t) s
      (fun _ s' => Inv s' ∧ Released t s.waits s'.waits) fun _ _ => False := by
  refine (exitThread_ensures hfiled).mono ?_
  rintro - s' ⟨hreleased, hnamed, hmodes'⟩
  refine ⟨.of_mode (hmodes ▸ hmodes') hcalls hwaits ?_ (hnamed ▸ hfiled.release hreleased)
    (Or.inr ⟨?_, by simp⟩), hreleased⟩
  · intro u hu
    simpa [hu] using hothers u hu
  · simp [callOf, hmodes']

/-- A thread that runs, or is suspended in the call, can be taken to be in the call. -/
theorem Filed.enter (h : Filed s.waits s.named s.callOf place)
    (hmode : s.modes t = .running ∨ s.modes t = .suspended svc) :
    Filed s.waits s.named (update s.callOf t (some svc)) place := by
  rcases hmode with hmode | hmode
  · refine h.withCalls (h.place_eq_none ?_) fun u hu => update_of_ne hu ..
    simp [callOf, hmode]
  · have hcall : s.callOf t = some svc := by simp [callOf, hmode]
    rw [← hcall, update_eq_self]
    exact h

theorem dispatch_ensures (hs : Inv s) (hmode : s.modes t = .running ∨ s.modes t = .suspended svc) :
    Call.Ensures (dispatch t svc) s (fun _ s' => Inv s') fun _ _ => False := by
  obtain ⟨place, hfiled, hwaits⟩ := hs
  have hcalls : ∀ u, u ≠ t → update s.callOf t (some svc) u = s.callOf u :=
    fun u hu => update_of_ne hu ..
  have hcall := call_ensures (hfiled.enter hmode) (update_self ..)
  unfold Call.Ensures dispatch
  unfold Settles Call.Ensures at hcall
  rcases hrun : svc.call t s with ⟨out, s₁⟩
  rw [hrun] at hcall
  match out with
  | .ok (.resume result) =>
    obtain ⟨place', hfiled', hmodes, hothers, hnone⟩ := hcall
    exact .of_mode (by rw [← hmodes]) hcalls hwaits hothers hfiled'
      (Or.inr ⟨by simp [callOf], hnone⟩)
  | .ok .suspend =>
    obtain ⟨place', hfiled', hmodes, hothers, hplace⟩ := hcall
    exact .of_mode (by rw [← hmodes]) hcalls hwaits hothers hfiled'
      (Or.inl ⟨by simp [callOf], hplace⟩)
  | .err fault =>
    obtain ⟨place', hfiled', hmodes, hothers, -⟩ := hcall
    exact Call.Ensures.seq (exitThread_inv hfiled' hmodes hcalls hwaits hothers)
      fun _ _ h => .pure h.1
  | .panic message => exact hcall.elim

theorem Filed.setPriorities (h : Filed r named calls place) {f : AddressWaiter → AddressWaiter}
    (hqueue : ∀ a, r'.queue a = (r.queue a).map f)
    (hf : ∀ w, (f w).thread = w.thread ∧ (f w).lockAddress = w.lockAddress ∧
      (f w).signalled = w.signalled) (howners : r'.owners = r.owners)
    (harbitration : PriorityWait.Inv r'.priorityWaits) : Filed r' named calls place := by
  refine h.map hqueue (fun _ w => ⟨(hf w).1, (hf w).2.1⟩) ?_ harbitration
  intro a w' hw' hpending
  rw [hqueue] at hw'
  obtain ⟨w, hw, rfl⟩ := mem_map.1 hw'
  have hsame : (f w).pending = w.pending := by
    simp [pending, (hf w).2.1, (hf w).2.2]
  rw [hsame] at hpending
  rw [(hf w).1]
  simpa only [AddressWaitRegistry.owner, howners] using h.owned a w hw hpending

theorem changePriority_ensures (hs : Inv s) {t : GuestThreadId} {priority : ℤ} :
    Call.Ensures (onWaits (AddressWait.changePriority t priority) : ProcessCall Unit) s
      (fun _ s' => Inv s') fun _ _ => False := by
  obtain ⟨_, hfiled, _⟩ := id hs
  refine .zoom (.bind (.zoom ((PriorityWait.changePriority_ensures hfiled.arbitration).mono ?_)))
  rintro - q ⟨hq, -⟩
  refine hs.of_filed rfl fun place hplace => ?_
  refine hplace.setPriorities AddressWaitRegistry.queue_map ?_ rfl hq
  intro w
  split <;> simp

/-- **One command.** -/
theorem apply_ensures (hs : Inv s) {command : Command} :
    Call.Ensures (apply command) s (fun _ s' => Inv s') fun _ _ => False := by
  cases command with
  | issue t =>
    refine .read ?_
    rcases hmode : s.modes t with _ | svc' | _
    · exact dispatch_ensures hs (.inl hmode)
    · exact .pure hs
    · exact .pure hs
  | retry t =>
    refine .read ?_
    rcases hmode : s.modes t with _ | svc' | _
    · exact .pure hs
    · exact dispatch_ensures hs (.inr hmode)
    · exact .pure hs
  | expire t =>
    refine .update (.pure (hs.of_filed rfl fun place hplace => ?_))
    rcases s.waits.expireThreadWait_cases t with heq | ⟨a, heq⟩
    · simpa only [heq] using hplace
    · simpa only [heq] using hplace.signalResult a t .timedOut
  | terminate =>
    obtain ⟨place, hfiled, hwaits⟩ := hs
    exact .seq (exitThread_inv hfiled rfl (fun _ _ => rfl) hwaits fun _ _ => .rfl)
      fun _ _ h => .pure h.1
  | finishRequest | world => exact .update (.pure (hs.of_filed rfl fun _ => id))
  | refreshPriorities =>
    refine .update (.pure (hs.of_filed rfl fun place hplace => ?_))
    exact hplace.setPriorities AddressWaitRegistry.queue_map (fun w => ⟨rfl, rfl, rfl⟩) rfl
      hplace.arbitration
  | changePriority =>
    exact .seq (changePriority_ensures hs) fun _ _ h => .pure h
  | arbitrateAddress operation =>
    obtain ⟨_, hfiled, _⟩ := id hs
    refine .bind (.zoom (.zoom ((PriorityWait.effect_apply hfiled.arbitration operation).mono ?_)))
    intro answer q heffect
    refine .pure (hs.of_filed rfl fun place hplace => ?_)
    exact ⟨hplace.placed, hplace.entry, hplace.owned, heffect.inv⟩

theorem inv_step (hs : Inv s) {command : Command} : Inv (machine.step s command).2 :=
  (apply_ensures hs).state (fun _ _ h => h) fun _ _ h => h.elim

/-! ### Waking -/

/-- The end of a thread leaves a signalled waiter of another thread signalled. -/
theorem Wakes.released {m : ℕ} {s₁ : Process} (h : Wakes m s s₁) (hr : Released t s₁.waits s'.waits)
    (ht : ∀ w ∈ s.waits.queue m, w.thread ≠ t) : Wakes m s s' := by
  intro hpending
  obtain ⟨w, hw, hwp, v, hv, hthread, hsignalled⟩ := h hpending
  refine ⟨w, hw, hwp, _, hr.mem hv (hthread ▸ ht w hw), ?_, ?_⟩
  · split <;> simp [hthread]
  · split
    · simp [cancel, pending, hsignalled]
    · exact hsignalled

/-- The end of the owner wakes every waiter of another thread. -/
theorem Released.wakes (h : Released t r r') (hw : w ∈ r.queue a) (hpending : w.pending = true)
    (howner : r.owner a = some t) (hne : w.thread ≠ t) :
    ∃ v ∈ r'.queue a, v.thread = w.thread ∧ v.signalled = true ∧ v.completion = .invalidOwner := by
  have hmem := h.mem hw hne
  rw [if_pos howner] at hmem
  refine ⟨_, hmem, by simp, ?_, ?_⟩ <;>
  simp [cancel, hpending, signal]

/-- A pending waiter is at an aligned address. -/
theorem Filed.aligned (h : Filed r named calls place) (hw : w ∈ r.queue a)
    (hpending : w.pending = true) : a % 4 = 0 := by
  obtain ⟨svc, -, hat⟩ := h.entry a w hw
  have hlock : w.lockAddress = none := by
    simp only [pending, Bool.and_eq_true, Option.isNone_iff_eq_none] at hpending
    exact hpending.1
  rw [hlock] at hat
  cases svc with
  | arbitrateLock =>
    obtain ⟨halign, rfl, -⟩ := hat
    exact halign
  | arbitrateUnlock | signalProcessWideKey => exact hat.elim
  | waitProcessWideKeyAtomic =>
    obtain ⟨halign, ⟨-, hnone⟩ | ⟨rfl, -⟩⟩ := hat
    · cases hnone
    · exact halign

/-- **An unlock by the recorded owner wakes a waiter**, even if it ends in a fault. -/
theorem issue_wakes (hs : Inv s) {m : ℕ} (hmode : s.modes t = .running) (hunlocks : svc.Unlocks m)
    (howner : s.waits.owner m = some t) : Wakes m s (machine.step s (.issue t svc)).2 := by
  intro hpending
  obtain ⟨place, hfiled, hwaits⟩ := id hs
  obtain ⟨w, hw, hwp⟩ := id hpending
  have hnone : place t = none := hfiled.place_eq_none (by simp [callOf, hmode])
  have hothers : ∀ v ∈ s.waits.queue m, v.thread ≠ t := by
    rintro v hv rfl
    rw [hfiled.placed.place_of_mem hv] at hnone
    cases hnone
  have hentered : Filed s.waits s.named (update s.callOf t (some svc)) place :=
    hfiled.enter (.inl hmode)
  have hcall := call_wakes hentered (update_self ..) hnone (hfiled.aligned hw hwp) hunlocks howner
  have hafter := call_ensures hentered (update_self ..)
  have hstep : machine.step s (.issue t svc) = dispatch t svc s := by
    simp [machine, apply, hmode]
  rw [hstep]
  unfold dispatch
  unfold Settles at hafter
  unfold Call.Ensures at hcall hafter
  rcases hrun : svc.call t s with ⟨out, s₁⟩
  rw [hrun] at hcall hafter
  match out with
  | .ok (.resume result) | .ok .suspend => exact hcall hpending
  | .err fault =>
    obtain ⟨place', hfiled', hmodes, hothers', -⟩ := hafter
    -- the fault ends the thread
    have hexit : Call.Ensures (do exitThread t; return .faulted fault : ProcessCall Answer) s₁
        (fun _ s' => Released t s₁.waits s'.waits) fun _ _ => False :=
      .seq (exitThread_ensures hfiled') fun _ _ h => .pure h.1
    refine (hexit.state (P := (Wakes m s)) ?_ fun _ _ h => h.elim) hpending
    intro answer s' hreleased
    rcases hcall with hwakes | hsame
    · exact hwakes.released hreleased hothers
    · rw [hsame] at hreleased
      intro
      obtain ⟨v, hv, hthread, hsignalled, -⟩ :=
        hreleased.wakes hw hwp howner (hothers w hw)
      exact ⟨w, hw, hwp, v, hv, hthread, hsignalled⟩
  | .panic message => exact hcall.elim

theorem terminate_releases (hs : Inv s) (t : GuestThreadId) :
    Released t s.waits (machine.step s (.terminate t)).2.waits := by
  obtain ⟨place, hfiled, -⟩ := hs
  have hexit : Call.Ensures (apply (.terminate t)) s
      (fun _ s' => Released t s.waits s'.waits) fun _ _ => False :=
    .seq (exitThread_ensures hfiled) fun _ _ h => .pure h.1
  exact hexit.state (fun _ _ h => h) fun _ _ h => h.elim

/-- **No waiter is stranded.**  In every state that an interleaving leads to, without a panic or an
endless loop on the way: a thread has at most one waiter; a suspended thread has one, at an address
where its call waits; and an address with a pending waiter has a recorded owner, which is another
thread unless the guest itself named it.  The next call with which a recorded owner gives up its
mutex signals a pending waiter, and the end of a recorded owner signals all of them but its own. -/
theorem waiters_never_stranded (world : World) (commands : List Command) :
    let s := machine.run (.initial world) commands
    (∀ entry ∈ machine.trace (.initial world) commands, entry.2.isPanic = false) ∧
    (∀ a, ((s.waits.queue a).map thread).Nodup) ∧
    (∀ a b w v, w ∈ s.waits.queue a → v ∈ s.waits.queue b → w.thread = v.thread → a = b) ∧
    (∀ t svc, s.modes t = .suspended svc →
      ∃ a, ∃ w ∈ s.waits.queue a, w.thread = t ∧ svc.WaitsAt a w.lockAddress) ∧
    (∀ a w, w ∈ s.waits.queue a → w.pending = true →
      ∃ o, s.waits.owner a = some o ∧ (o = w.thread → s.named a = true)) ∧
    (∀ m t svc, s.modes t = .running → svc.Unlocks m → s.waits.owner m = some t →
      Wakes m s (machine.step s (.issue t svc)).2) ∧
    (∀ t, (∀ a, (machine.step s (.terminate t)).2.waits.owner a ≠ some t) ∧
      ∀ a w, w ∈ s.waits.queue a → w.pending = true → s.waits.owner a = some t → w.thread ≠ t →
        ∃ v ∈ (machine.step s (.terminate t)).2.waits.queue a,
          v.thread = w.thread ∧ v.signalled = true ∧ v.completion = .invalidOwner) := by
  have hs : Inv (machine.run (.initial world) commands) :=
    Machine.run_invariant_all (I := Inv) (fun _ command hs => inv_step hs) commands _ inv_initial
  obtain ⟨place, hfiled, hwaits⟩ := id hs
  refine ⟨?_, hfiled.distinct, ?_, ?_, hfiled.owned, ?_, ?_⟩
  · exact Machine.trace_forall (I := Inv) (fun _ command hs => inv_step hs)
      (fun _ command hs => (apply_ensures hs).not_panic) commands _ inv_initial
  · intro a b w v hw hv hthread
    exact (hfiled.placed.eq_of_mem hw hv hthread).1
  · intro t svc hmode
    have hcall : (machine.run (.initial world) commands).callOf t = some svc := by
      simp [callOf, hmode]
    obtain ⟨a, ha⟩ := Option.ne_none_iff_exists'.1 (hwaits t (by simp [hcall]))
    obtain ⟨w, hw, hthread, hat⟩ := hfiled.waitsAt ha hcall
    exact ⟨a, w, hw, hthread, hat⟩
  · intro m t svc hmode hunlocks howner
    exact issue_wakes hs hmode hunlocks howner
  · intro t
    have hreleased := terminate_releases hs t
    refine ⟨?_, ?_⟩
    · intro a
      rw [hreleased.owner]
      split
      · simp
      · assumption
    · intro a w hw hpending howner hne
      exact hreleased.wakes hw hpending howner hne

end Nixe.MutexWait
