/-
**Leases and wake tokens are single-use.**

A lease or a wake token names a thread and a generation.  Generations are handed out by two counters
that only grow, and a token that a thread has lost is never given to it again.  Both facts are about
every command in every state, the states after a panic included.

Main definitions:

* `Advance` — the counters grow, and what a thread holds afterwards it held before or got under a
  generation that was new in between;
* `issuedLease`, `issuedToken`, `acceptedLease`, `acceptedToken` — what one entry of a trace hands
  out and takes back.

Main results:

* `effect_apply` — **one step**: everything a command can do with leases and tokens;
* `tokens_single_use` — over whole runs, generations are never repeated and every lease and token is
  accepted at most once.
-/

import Nixe.SchedulerCommands

set_option autoImplicit false

namespace Nixe.Scheduler

open Std (TreeMap TreeSet)
open Call (Spec)
open Option Std.TreeMap SchedulerState

/-! ### How the tokens of a state may change -/

variable (s : SchedulerState) {outcome : Completion}
  {out : Outcome SchedulerError SchedulerDecision} {command : SchedulerCommand}
  {s' : SchedulerState}

/-- The wake token of a registered thread. -/
def SchedulerState.waitOf (id : GuestThreadId) : Option WakeToken :=
  s.threads[id]?.bind ScheduledThread.activeWait

/-- From `s` to `s'` the counters do not go back, and every lease and token of `s'` was already
there or has a generation that was handed out in between. -/
structure Advance (s s' : SchedulerState) : Prop where
  lease_next : s.nextLeaseGeneration ≤ s'.nextLeaseGeneration
  wait_next : s.nextWakeGeneration ≤ s'.nextWakeGeneration
  lease : ∀ id L, s'.leaseOf id = some L → s.leaseOf id = some L ∨
    s.nextLeaseGeneration ≤ L.generation ∧ L.generation < s'.nextLeaseGeneration
  wait : ∀ id w, s'.waitOf id = some w → s.waitOf id = some w ∨
    s.nextWakeGeneration ≤ w.generation ∧ w.generation < s'.nextWakeGeneration

@[simp] theorem Advance.refl : Advance s s :=
  ⟨le_rfl, le_rfl, fun _ _ => .inl, fun _ _ => .inl⟩

section Changes

variable {s : SchedulerState} {p : MachineSchedulerProfile}
  {m : TreeMap GuestThreadId ScheduledThread} {r : TreeSet ReadyKey}
  {v : TreeMap VirtualCpuId VirtualCpuSlot} {n nl nw : ℕ}

attribute [local simp] TreeMap.getElem?_insert

/-- One thread is rewritten: its lease and its token are old, gone, or fresh. -/
theorem Advance.rewrite {id : GuestThreadId} {t t' : ScheduledThread} (ht : s.threads[id]? = some t)
    (hlease : ∀ L, t'.activeLease = some L → t.activeLease = some L ∨
      s.nextLeaseGeneration ≤ L.generation ∧ L.generation < nl := by simp +contextual)
    (hwait : ∀ w, t'.activeWait = some w → t.activeWait = some w ∨
      s.nextWakeGeneration ≤ w.generation ∧ w.generation < nw := by simp +contextual)
    (hnl : s.nextLeaseGeneration ≤ nl := by simp) (hnw : s.nextWakeGeneration ≤ nw := by simp)
    (hm : ∀ i, id ≠ i → m[i]? = s.threads[i]? := by simp +contextual) :
    Advance s ⟨p, m.insert id t', r, v, n, nl, nw⟩ := by
  refine ⟨hnl, hnw, ?_, ?_⟩
  · intro i L hL
    by_cases hi : id = i
    · subst hi
      simp only [leaseOf, getElem?_insert_self, bind_some] at hL
      simpa [leaseOf, ht] using hlease L hL
    · left
      simpa [leaseOf, hi, hm i hi] using hL
  · intro i w hw
    by_cases hi : id = i
    · subst hi
      simp only [waitOf, getElem?_insert_self, bind_some] at hw
      simpa [waitOf, ht] using hwait w hw
    · left
      simpa [waitOf, hi, hm i hi] using hw

theorem Advance.of_subset
    (hlease : ∀ i L, (m[i]?.bind ScheduledThread.activeLease) = some L → s.leaseOf i = some L)
    (hwait : ∀ i w, (m[i]?.bind ScheduledThread.activeWait) = some w → s.waitOf i = some w)
    (hnl : s.nextLeaseGeneration ≤ nl) (hnw : s.nextWakeGeneration ≤ nw) :
    Advance s ⟨p, m, r, v, n, nl, nw⟩ :=
  ⟨hnl, hnw, fun i L h => .inl (hlease i L h), fun i w h => .inl (hwait i w h)⟩

@[simp] theorem Advance.same_threads : Advance s ⟨p, s.threads, r, v, n, nl, nw⟩ ↔
      s.nextLeaseGeneration ≤ nl ∧ s.nextWakeGeneration ≤ nw :=
  ⟨fun h => ⟨h.lease_next, h.wait_next⟩,
    fun h => Advance.of_subset (fun _ _ h => h) (fun _ _ h => h) h.1 h.2⟩

end Changes

/-! ### What a trace hands out and takes back -/

def SchedulerDecision.lease : SchedulerDecision → Option Lease
  | .selected lease => lease
  | _ => none

def SchedulerDecision.token : SchedulerDecision → Option WakeToken
  | .waitRegistered token => some token
  | _ => none

/-- An entry of a trace: a command and its answer. -/
abbrev Event : Type := SchedulerCommand × Outcome SchedulerError SchedulerDecision

/-- The lease that `Select` or `SelectNext` returned. -/
def issuedLease (e : Event) : Option Lease := e.2.value.bind SchedulerDecision.lease

/-- The token that `RegisterWait` returned. -/
def issuedToken (e : Event) : Option WakeToken := e.2.value.bind SchedulerDecision.token

/-- The lease that `Complete` accepted. -/
def acceptedLease : Event → Option Lease
  | (.complete lease _, .ok _) => some lease
  | _ => none

/-- The token that `Wake` or `CancelWait` accepted. -/
def acceptedToken : Event → Option WakeToken
  | (.wake token, .ok _) => some token
  | (.cancelWait token, .ok _) => some token
  | _ => none

/-- **Everything a command can do with leases and tokens.** -/
structure Effect (s : SchedulerState) (command : SchedulerCommand)
    (out : Outcome SchedulerError SchedulerDecision) (s' : SchedulerState) : Prop where
  advance : Advance s s'
  leaseIssued : ∀ L, issuedLease (command, out) = some L →
    L.generation = s.nextLeaseGeneration ∧ L.generation < s'.nextLeaseGeneration
  tokenIssued : ∀ w, issuedToken (command, out) = some w →
    w.generation = s.nextWakeGeneration ∧ w.generation < s'.nextWakeGeneration
  leaseAccepted : ∀ L, acceptedLease (command, out) = some L →
    s.leaseOf L.thread = some L ∧ s'.leaseOf L.thread = none
  tokenAccepted : ∀ w, acceptedToken (command, out) = some w →
    s.waitOf w.thread = some w ∧ s'.waitOf w.thread = none

/-! ### The commands -/

section Commands

variable (s : SchedulerState) (id : GuestThreadId)

/-- The answer hands out neither a lease nor a token. -/
def Quiet (out : Outcome SchedulerError SchedulerDecision) : Prop :=
  ∀ d, out = .ok d → d.lease = none ∧ d.token = none

attribute [local simp] TreeMap.getElem?_insert setThread insertReady allocateSequence
  expectTransition enqueueExistingWithSequence Quiet SchedulerDecision.lease SchedulerDecision.token

theorem spec_register {config : ScheduledThreadConfig} :
    Spec (register config) s fun out s' => Advance s s' ∧ Quiet out := by
  simp [register, validatePolicy]
  intros
  refine .of_subset ?_ ?_ le_rfl le_rfl <;> intro i <;> by_cases hi : config.thread = i <;>
    simp [leaseOf, waitOf, hi]

theorem spec_unregister : Spec (unregister id) s fun out s' => Advance s s' ∧ Quiet out := by
  simp [unregister, removeReadyKey, removeReady]
  intro t ht hl
  refine ⟨fun k hk => ?_, fun hk => ?_⟩ <;>
    refine .of_subset ?_ ?_ le_rfl le_rfl <;> intro i <;> by_cases hi : id = i <;>
    simp [leaseOf, waitOf, getElem?_erase, hi]

theorem spec_makeReady : Spec (makeReady id) s fun out s' => Advance s s' ∧ Quiet out := by
  rcases ht : s.threads[id]? with _ | t
  · simp [makeReady, ht]
  simp [makeReady, ht, tryTransition]
  intro l hl hseq
  constructor <;> intro _ <;> exact .rewrite ht

theorem spec_select {vcpu : VirtualCpuId} :
    Spec (select vcpu) s fun out s' => Advance s s' ∧ ∀ d, out = .ok d → d.token = none ∧
      ∀ L, d.lease = some L →
        L.generation = s.nextLeaseGeneration ∧ L.generation < s'.nextLeaseGeneration := by
  rcases hv : s.vcpus[vcpu]? with _ | slot
  · simp [select, hv]
  rcases hk : s.ready.toList.find? fun key =>
      s.threads[key.thread]?.any fun thread => thread.config.affinity.contains vcpu with _ | k
  · simp [select, hk]
  rcases ht : s.threads[k.thread]? with _ | t
  · simp [select, hk, ht, allocateLeaseGeneration, removeReady]
  simp [select, hv, hk, ht, allocateLeaseGeneration, removeReady, setSlot]
  intro hidle hgen hmem l hl
  constructor <;> intros <;> exact .rewrite ht

theorem spec_selectNext :
    Spec selectNext s fun out s' => Advance s s' ∧ ∀ d, out = .ok d → d.token = none ∧
      ∀ L, d.lease = some L →
        L.generation = s.nextLeaseGeneration ∧ L.generation < s'.nextLeaseGeneration := by
  rcases hk : s.ready.toList.find? fun key =>
      s.threads[key.thread]?.any fun thread => thread.config.affinity.cores.any s.idle with _ | k
  · simp [selectNext, hk]
  simp [selectNext, hk]
  intro t ht v hv
  exact spec_select s

/-- A requeued thread takes a sequence number; nothing else of the state changes. -/
theorem spec_completionSequence
    {Q : Outcome SchedulerError (Option SchedulerSequence) → SchedulerState → Prop}
    (h : ∀ out n, Q out { s with nextSequence := n }) : Spec (completionSequence outcome) s Q := by
  cases outcome <;> simp [completionSequence, Completion.requeues] <;>
    first | exact ⟨fun _ => h _ _, fun _ => h _ s.nextSequence⟩ | exact h _ s.nextSequence

/-- The transitions of a completed thread are computed before anything is written. -/
theorem spec_completedLifecycle {Q : Outcome SchedulerError ThreadLifecycle → SchedulerState → Prop}
    {state : ThreadLifecycle} (h : ∀ out, Q out s) :
    Spec (completedLifecycle state outcome) s Q := by
  cases outcome <;> simp [completedLifecycle, h]

theorem spec_complete {lease : Lease} :
    Spec (complete lease outcome) s fun out s' => Advance s s' ∧ Quiet out ∧
      ∀ d, out = .ok d → s.leaseOf lease.thread = some lease ∧ s'.leaseOf lease.thread = none := by
  rcases ht : s.threads[lease.thread]? with _ | t
  · simp [complete, ht]
  simp [complete, ht]
  intro hl hslot
  refine spec_completionSequence s fun out n => ?_
  cases out with
  | err => simp
  | panic => simp
  | ok =>
    simp [setSlot, ht]
    intro slot hv
    -- from here on the thread has no lease, whatever else happens
    refine spec_completedLifecycle _ fun out => ?_
    cases out with
    | err | panic =>
      simpa using .rewrite ht
    | ok =>
      simp [leaseOf, ht, hl]
      refine ⟨fun k hk => ⟨fun _ => ?_, fun _ => ?_⟩, fun _ => ?_⟩ <;> exact .rewrite ht

theorem spec_registerWait {readiness : Readiness} :
    Spec (registerWait id readiness) s fun out s' => Advance s s' ∧ ∀ d, out = .ok d →
      d.lease = none ∧ ∀ w, d.token = some w →
        w.generation = s.nextWakeGeneration ∧ w.generation < s'.nextWakeGeneration := by
  rcases ht : s.threads[id]? with _ | t
  · simp [registerWait, ht]
  cases readiness with
  | ready =>
    simp [registerWait, ht]
    intro hwaiting hnone hseq l hl
    constructor <;> intro _ <;> exact .rewrite ht
  | pending =>
    simp [registerWait, ht, allocateWakeGeneration]
    intro hwaiting hnone hgen
    exact .rewrite ht

theorem spec_finishWait {token : WakeToken} {cancelled : Bool} :
    Spec (finishWait token cancelled) s fun out s' => Advance s s' ∧ Quiet out ∧
      ∀ d, out = .ok d → s.waitOf token.thread = some token ∧ s'.waitOf token.thread = none := by
  rcases ht : s.threads[token.thread]? with _ | t
  · simp [finishWait, ht]
  cases cancelled <;> simp +contextual [finishWait, ht, waitOf] <;> intro hw hseq <;>
    refine ⟨fun l hl => ⟨fun _ => ?_, fun _ => ?_⟩, fun _ => ?_⟩ <;>
    exact .rewrite ht

theorem spec_migrate {idealVcpu : Option VirtualCpuId} {affinity : CoreSet} :
    Spec (migrate id idealVcpu affinity) s fun out s' => Advance s s' ∧ Quiet out := by
  rcases ht : s.threads[id]? with _ | t
  · simp [migrate, ht]
  simp [migrate, ht]
  intros
  exact .rewrite ht

@[simp] theorem spec_removeReadyKey (key : Option ReadyKey)
    (Q : Outcome SchedulerError Unit → SchedulerState → Prop) :
    Spec (removeReadyKey key) s Q ↔
      Q (.ok ()) { s with ready := key.elim s.ready s.ready.erase } := by
  rw [Spec, removeReadyKey_run]

variable (priority : ℤ)

theorem spec_changePriority {write : ScheduledThreadConfig → ScheduledThreadConfig} :
    Spec (changePriority id priority write) s fun out s' => Advance s s' ∧ Quiet out := by
  rcases ht : s.threads[id]? with _ | t
  · simp [changePriority, ht]
  simp [changePriority, ht]
  intro hp
  refine ⟨fun k hk => ⟨fun _ => ?_, fun _ => ?_⟩, fun _ => ?_⟩ <;> exact .rewrite ht

theorem spec_setPriority :
    Spec (setPriority id priority) s fun out s' => Advance s s' ∧ Quiet out := by
  exact spec_changePriority s id priority

theorem spec_setEffectivePriority :
    Spec (setEffectivePriority id priority) s fun out s' => Advance s s' ∧ Quiet out := by
  exact spec_changePriority s id priority

theorem spec_setActivity {paused : Bool} :
    Spec (setActivity id paused) s fun out s' => Advance s s' ∧ Quiet out := by
  rcases ht : s.threads[id]? with _ | t
  · simp [setActivity, ht]
  cases paused with
  | true =>
    simp [setActivity, ht]
    intro hl hne hready
    refine ⟨fun l hl => ?_, fun _ => ?_⟩ <;> exact .rewrite ht
  | false =>
    simp [setActivity, ht]
    intro hl hne hsuspended hseq l hl
    constructor <;> intro _ <;> exact .rewrite ht

theorem spec_terminate {faulted : Bool} :
    Spec (terminate id faulted) s fun out s' => Advance s s' ∧ Quiet out := by
  rcases ht : s.threads[id]? with _ | t
  · simp [terminate, ht]
  cases faulted <;>
    simp [terminate, ht, tryTransition] <;>
    intros <;>
    exact .rewrite ht

end Commands

/-- The effect of a command, from what it answers when it is accepted. -/
theorem Effect.of_answer {s : SchedulerState} (hadv : Advance s s') (hd : ∀ d, out = .ok d →
      (∀ L, d.lease = some L →
        L.generation = s.nextLeaseGeneration ∧ L.generation < s'.nextLeaseGeneration) ∧
      (∀ w, d.token = some w →
        w.generation = s.nextWakeGeneration ∧ w.generation < s'.nextWakeGeneration) ∧
      (∀ L, acceptedLease (command, .ok d) = some L →
        s.leaseOf L.thread = some L ∧ s'.leaseOf L.thread = none) ∧
      ∀ w, acceptedToken (command, .ok d) = some w →
        s.waitOf w.thread = some w ∧ s'.waitOf w.thread = none) :
    Effect s command out s' := by
  cases out with
  | ok d =>
    obtain ⟨h₁, h₂, h₃, h₄⟩ := hd d rfl
    exact ⟨hadv, h₁, h₂, h₃, h₄⟩
  | err | panic =>
    refine ⟨hadv, ?_, ?_, ?_, ?_⟩ <;> intro x hx <;>
      simp [issuedLease, issuedToken, acceptedLease, acceptedToken, Outcome.value] at hx

/-- The effect of a command that neither hands out nor accepts anything. -/
theorem Effect.of_quiet {s : SchedulerState} (h : Advance s s' ∧ Quiet out)
    (hl : ∀ d, acceptedLease (command, .ok d) = none := by exact fun _ => rfl)
    (hw : ∀ d, acceptedToken (command, .ok d) = none := by exact fun _ => rfl) :
    Effect s command out s' := by
  refine .of_answer h.1 fun d hd => ?_
  obtain ⟨h₁, h₂⟩ := h.2 d hd
  exact ⟨by simp [h₁], by simp [h₂], by simp [hl d], by simp [hw d]⟩

/-- **One step**: every command, with any arguments and in any state, has the effect described by
`Effect`. -/
theorem effect_apply (command : SchedulerCommand) : Spec (apply command) s (Effect s command) := by
  cases command with
  | register => exact .of_quiet (spec_register s)
  | unregister id => exact .of_quiet (spec_unregister s id)
  | makeReady id => exact .of_quiet (spec_makeReady s id)
  | selectNext =>
    obtain ⟨hadv, hd⟩ := spec_selectNext s
    refine .of_answer hadv fun d hout => ?_
    exact ⟨(hd d hout).2, by simp [(hd d hout).1], by simp [acceptedLease], by simp [acceptedToken]⟩
  | select =>
    obtain ⟨hadv, hd⟩ := spec_select s
    refine .of_answer hadv fun d hout => ?_
    exact ⟨(hd d hout).2, by simp [(hd d hout).1], by simp [acceptedLease], by simp [acceptedToken]⟩
  | complete =>
    obtain ⟨hadv, hquiet, hd⟩ := spec_complete s
    refine .of_answer hadv fun d hout => ?_
    obtain ⟨h₁, h₂⟩ := hquiet d hout
    exact ⟨by simp [h₁], by simp [h₂], by rintro L ⟨rfl⟩; exact hd d hout, by simp [acceptedToken]⟩
  | registerWait id =>
    obtain ⟨hadv, hd⟩ := spec_registerWait s id
    refine .of_answer hadv fun d hout => ?_
    exact ⟨by simp [(hd d hout).1], (hd d hout).2, by simp [acceptedLease], by simp [acceptedToken]⟩
  | wake | cancelWait =>
    obtain ⟨hadv, hquiet, hd⟩ := spec_finishWait s
    refine .of_answer hadv fun d hout => ?_
    obtain ⟨h₁, h₂⟩ := hquiet d hout
    exact ⟨by simp [h₁], by simp [h₂], by simp [acceptedLease], by rintro w ⟨rfl⟩; exact hd d hout⟩
  | terminate id => exact .of_quiet (spec_terminate s id)
  | migrate id => exact .of_quiet (spec_migrate s id)
  | setPriority id priority => exact .of_quiet (spec_setPriority s id priority)
  | setEffectivePriority id priority => exact .of_quiet (spec_setEffectivePriority s id priority)
  | setActivity id => exact .of_quiet (spec_setActivity s id)

/-! ### Whole runs -/

/-- Every lease and token in the state has been handed out. -/
structure Issued (s : SchedulerState) : Prop where
  lease : ∀ id L, s.leaseOf id = some L → L.generation < s.nextLeaseGeneration
  wait : ∀ id w, s.waitOf id = some w → w.generation < s.nextWakeGeneration

theorem Issued.advance {s : SchedulerState} (hs : Issued s) (h : Advance s s') : Issued s' := by
  constructor
  · intro id L hL
    rcases h.lease id L hL with hold | ⟨-, hnew⟩
    · exact lt_of_lt_of_le (hs.lease id L hold) h.lease_next
    · exact hnew
  · intro id w hw
    rcases h.wait id w hw with hold | ⟨-, hnew⟩
    · exact lt_of_lt_of_le (hs.wait id w hold) h.wait_next
    · exact hnew

theorem issued_new (profile : MachineSchedulerProfile) : Issued (.new profile) := by
  constructor <;> intro id x hx <;> simp [new, leaseOf, waitOf] at hx

variable (command : SchedulerCommand)

theorem issued_step (hs : Issued s) : Issued (machine.step s command).2 :=
  hs.advance (effect_apply s command).advance

/-- A lease that its thread does not hold, with a generation that is used up, is gone for good. -/
theorem lease_gone {s : SchedulerState} {L : Lease}
    (h : L.generation < s.nextLeaseGeneration ∧ s.leaseOf L.thread ≠ some L) :
    L.generation < (machine.step s command).2.nextLeaseGeneration ∧
      (machine.step s command).2.leaseOf L.thread ≠ some L := by
  have hadv := (effect_apply s command).advance
  refine ⟨lt_of_lt_of_le h.1 hadv.lease_next, fun hL => ?_⟩
  rcases hadv.lease _ L hL with hold | ⟨hge, -⟩
  · exact h.2 hold
  · exact absurd h.1 (not_lt.2 hge)

theorem token_gone {s : SchedulerState} {w : WakeToken}
    (h : w.generation < s.nextWakeGeneration ∧ s.waitOf w.thread ≠ some w) :
    w.generation < (machine.step s command).2.nextWakeGeneration ∧
      (machine.step s command).2.waitOf w.thread ≠ some w := by
  have hadv := (effect_apply s command).advance
  refine ⟨lt_of_lt_of_le h.1 hadv.wait_next, fun hw => ?_⟩
  rcases hadv.wait _ w hw with hold | ⟨hge, -⟩
  · exact h.2 hold
  · exact absurd h.1 (not_lt.2 hge)

/-- **Leases and tokens are single-use.**  In every run the generations of the leases handed out are
distinct, and so are those of the wake tokens; no lease is accepted twice by `Complete`, and no
token twice by `Wake` and `CancelWait` together. -/
theorem tokens_single_use (profile : MachineSchedulerProfile) (commands : List SchedulerCommand) :
    let trace := machine.trace (.new profile) commands
    ((trace.filterMap issuedLease).map Lease.generation).Nodup ∧
    ((trace.filterMap issuedToken).map WakeToken.generation).Nodup ∧
    (trace.filterMap acceptedLease).Nodup ∧
    (trace.filterMap acceptedToken).Nodup := by
  have hnew := issued_new profile
  refine ⟨?_, ?_, ?_, ?_⟩
  · -- a generation is spent as soon as the counter has passed it
    rw [List.map_filterMap]
    refine Machine.trace_nodup (fun g s => g < s.nextLeaseGeneration) issued_step
      ?_ ?_ ?_ commands _ hnew
    · intro s command g _ hg
      obtain ⟨L, hL, rfl⟩ := map_eq_some_iff.1 hg
      exact ((effect_apply s command).leaseIssued L hL).2
    · intro s command g _ hlt
      exact lt_of_lt_of_le hlt (effect_apply s command).advance.lease_next
    · intro s command g _ hg hlt
      obtain ⟨L, hL, rfl⟩ := map_eq_some_iff.1 hg
      exact absurd ((effect_apply s command).leaseIssued L hL).1 hlt.ne
  · rw [List.map_filterMap]
    refine Machine.trace_nodup (fun g s => g < s.nextWakeGeneration) issued_step
      ?_ ?_ ?_ commands _ hnew
    · intro s command g _ hg
      obtain ⟨w, hw, rfl⟩ := map_eq_some_iff.1 hg
      exact ((effect_apply s command).tokenIssued w hw).2
    · intro s command g _ hlt
      exact lt_of_lt_of_le hlt (effect_apply s command).advance.wait_next
    · intro s command g _ hg hlt
      obtain ⟨w, hw, rfl⟩ := map_eq_some_iff.1 hg
      exact absurd ((effect_apply s command).tokenIssued w hw).1 hlt.ne
  · -- a lease is spent when its thread has lost it
    refine Machine.trace_nodup
      (fun L s => L.generation < s.nextLeaseGeneration ∧ s.leaseOf L.thread ≠ some L) issued_step
      ?_ (fun s command L _ => lease_gone command) ?_ commands _ hnew
    · intro s command L hs hL
      obtain ⟨hheld, hlost⟩ := (effect_apply s command).leaseAccepted L hL
      refine ⟨?_, by simp [machine, hlost]⟩
      exact lt_of_lt_of_le (hs.lease _ L hheld) (effect_apply s command).advance.lease_next
    · intro s command L _ hL hspent
      exact hspent.2 ((effect_apply s command).leaseAccepted L hL).1
  · refine Machine.trace_nodup
      (fun w s => w.generation < s.nextWakeGeneration ∧ s.waitOf w.thread ≠ some w) issued_step
      ?_ (fun s command w _ => token_gone command) ?_ commands _ hnew
    · intro s command w hs hw
      obtain ⟨hheld, hlost⟩ := (effect_apply s command).tokenAccepted w hw
      refine ⟨?_, by simp [machine, hlost]⟩
      exact lt_of_lt_of_le (hs.wait _ w hheld) (effect_apply s command).advance.wait_next
    · intro s command w _ hw hspent
      exact hspent.2 ((effect_apply s command).tokenAccepted w hw).1

end Nixe.Scheduler
