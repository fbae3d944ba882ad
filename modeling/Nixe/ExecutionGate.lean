/-
**The execution gate.**

CPU slices run under shared guards, mapping and ownership transitions under an exclusive one.  An
exclusive request first closes admission, in one critical section, and then waits in another until
the shared guards have been dropped; both kinds of waiting use one condition variable, and the
guards notify it only under the conditions under which somebody can be waiting.

The model takes each critical section of the mutex as one action.  A caller is a number with a
phase: it calls, tests its condition behind the mutex, sleeps on the condition variable, is woken by
a notification or for no reason, and holds and drops its guard.  A thread that makes several calls,
or that holds several guards, is several callers.

Main definitions:

* `Gate`, `Phase`, `Action` — the state of the gate, its callers, and what they do;
* `machine` — the gate as a machine;
* `Able` — the caller is awake and its next test lets it through.

Main results:

* `Inv`, `inv_step` — the invariant of the gate;
* `execution_gate_correct` — **mutual exclusion, epochs, closed admission and no lost wake-up**,
  unless the drop of a committed guard panics;
* `exhausted_gate_stays_closed` — what happens at the exhaustion.
-/
import Nixe.Checked
import Nixe.Machine

set_option autoImplicit false

namespace Nixe.ExecutionGate

open Bool Machine

/-! ### The gate and its callers -/

inductive Phase
  | idle
  /-- In `acquire_shared`, about to test whether a transition is pending. -/
  | enteringShared
  | waitingShared
  | shared (epoch : ℕ)
  /-- In `close_admission`, about to test whether a transition is pending. -/
  | enteringExclusive
  | waitingExclusive
  /-- In `wait_shared`, about to test whether shared guards are left. -/
  | draining
  | waitingDrain
  | exclusive (committed : Bool)
  | released
  /-- `acquire_shared` panicked: no further shared guard can be counted. -/
  | panicked
  /-- The drop of the exclusive guard panicked: there is no further epoch. -/
  | dropPanicked
  deriving DecidableEq, Repr

/-- `ExecutionGateState`, with the phases of the callers. -/
structure Gate where
  activeShared : ℕ
  transitionPending : Bool
  epoch : ℕ
  phase : ℕ → Phase

def new : Gate := ⟨0, false, 1, fun _ => .idle⟩

/-- A caller passes to another phase. -/
def Gate.setPhase (g : Gate) (i : ℕ) (p : Phase) : Gate :=
  { g with phase := Function.update g.phase i p }

/-- A sleeping caller is woken: it will test its condition again. -/
def Phase.woken : Phase → Phase
  | .waitingShared => .enteringShared
  | .waitingExclusive => .enteringExclusive
  | .waitingDrain => .draining
  | p => p

def Gate.notifyAll (g : Gate) : Gate := { g with phase := fun i => (g.phase i).woken }

/-- What a caller does: call, take the mutex and test the condition it is at, wake up without
a notification, `commit`, and drop its guard. -/
inductive Action
  | acquireShared (i : ℕ)
  | acquireExclusive (i : ℕ)
  | test (i : ℕ)
  | wake (i : ℕ)
  | commit (i : ℕ)
  | drop (i : ℕ)
  deriving DecidableEq, Repr

inductive Outcome
  | nothing
  | blocked
  /-- A shared guard was returned. -/
  | admitted (epoch : ℕ)
  /-- Admission was closed. -/
  | closed
  /-- The exclusive guard was returned. -/
  | granted
  | released
  /-- The exclusive guard was dropped. -/
  | ended (committed : Bool)
  | panicked
  deriving DecidableEq, Repr

/-- The test of the condition a caller is at. -/
def test (g : Gate) (i : ℕ) : Outcome × Gate :=
  match g.phase i with
  | .enteringShared =>
    if g.transitionPending then (.blocked, g.setPhase i .waitingShared)
    else match checkedAdd g.activeShared 1 with
      | none => (.panicked, g.setPhase i .panicked)
      | some active =>
        (.admitted g.epoch, { g with activeShared := active }.setPhase i (.shared g.epoch))
  | .enteringExclusive =>
    if g.transitionPending then (.blocked, g.setPhase i .waitingExclusive)
    else (.closed, { g with transitionPending := true }.setPhase i .draining)
  | .draining =>
    if g.activeShared ≠ 0 then (.blocked, g.setPhase i .waitingDrain)
    else (.granted, g.setPhase i (.exclusive false))
  | _ => (.nothing, g)

/-- The last reader notifies if a transition is pending. -/
def Gate.notifyIfDrained (g : Gate) : Gate :=
  if g.activeShared = 0 ∧ g.transitionPending then g.notifyAll else g

def dropShared (g : Gate) (i : ℕ) : Outcome × Gate :=
  if g.activeShared = 0 then (.panicked, g.setPhase i .panicked)
  else
    (.released,
      ({ g with activeShared := g.activeShared - 1 }.setPhase i .released).notifyIfDrained)

def dropExclusive (g : Gate) (i : ℕ) (committed : Bool) : Outcome × Gate :=
  match (if committed then checkedAdd g.epoch 1 else some g.epoch) with
  | none => (.panicked, g.setPhase i .dropPanicked)
  | some epoch =>
    (.ended committed,
      ({ g with epoch := epoch, transitionPending := false }.setPhase i .released).notifyAll)

/-- One action of a caller; it has no effect in a phase that does not provide for it. -/
def step (g : Gate) : Action → Outcome × Gate
  | .acquireShared i =>
    if g.phase i = .idle then (.nothing, g.setPhase i .enteringShared) else (.nothing, g)
  | .acquireExclusive i =>
    if g.phase i = .idle then (.nothing, g.setPhase i .enteringExclusive) else (.nothing, g)
  | .test i => test g i
  | .wake i => (.nothing, g.setPhase i (g.phase i).woken)
  | .commit i =>
    match g.phase i with
    | .exclusive _ => (.nothing, g.setPhase i (.exclusive true))
    | _ => (.nothing, g)
  | .drop i =>
    match g.phase i with
    | .shared _ => dropShared g i
    | .exclusive committed => dropExclusive g i committed
    | _ => (.nothing, g)

def machine : Machine Gate Action Outcome := ⟨step⟩

/-! ### What an action can do -/

/-- The effects of the actions, with the conditions under which they occur. -/
inductive Moves (g : Gate) : Action → Outcome → Gate → Prop
  | same {a : Action} : Moves g a .nothing g
  | callShared {i : ℕ} : g.phase i = .idle →
      Moves g (.acquireShared i) .nothing (g.setPhase i .enteringShared)
  | callExclusive {i : ℕ} : g.phase i = .idle →
      Moves g (.acquireExclusive i) .nothing (g.setPhase i .enteringExclusive)
  | sleepShared {i : ℕ} : g.phase i = .enteringShared → g.transitionPending = true →
      Moves g (.test i) .blocked (g.setPhase i .waitingShared)
  | sleepExclusive {i : ℕ} : g.phase i = .enteringExclusive → g.transitionPending = true →
      Moves g (.test i) .blocked (g.setPhase i .waitingExclusive)
  | sleepDrain {i : ℕ} : g.phase i = .draining → g.activeShared ≠ 0 →
      Moves g (.test i) .blocked (g.setPhase i .waitingDrain)
  | panic {i : ℕ} : g.phase i = .enteringShared → g.transitionPending = false →
      Moves g (.test i) .panicked (g.setPhase i .panicked)
  | enter {i : ℕ} : g.phase i = .enteringShared → g.transitionPending = false →
      Moves g (.test i) (.admitted g.epoch)
        ({ g with activeShared := g.activeShared + 1 }.setPhase i (.shared g.epoch))
  | close {i : ℕ} : g.phase i = .enteringExclusive → g.transitionPending = false →
      Moves g (.test i) .closed ({ g with transitionPending := true }.setPhase i .draining)
  | grant {i : ℕ} : g.phase i = .draining → g.activeShared = 0 →
      Moves g (.test i) .granted (g.setPhase i (.exclusive false))
  | wake {i : ℕ} : Moves g (.wake i) .nothing (g.setPhase i (g.phase i).woken)
  | commit {i : ℕ} {committed : Bool} : g.phase i = .exclusive committed →
      Moves g (.commit i) .nothing (g.setPhase i (.exclusive true))
  | dropEmpty {i e : ℕ} : g.phase i = .shared e → g.activeShared = 0 →
      Moves g (.drop i) .panicked (g.setPhase i .panicked)
  | release {i e : ℕ} : g.phase i = .shared e → g.activeShared ≠ 0 →
      Moves g (.drop i) .released
        ({ g with activeShared := g.activeShared - 1 }.setPhase i .released).notifyIfDrained
  | exhaust {i : ℕ} : g.phase i = .exclusive true →
      Moves g (.drop i) .panicked (g.setPhase i .dropPanicked)
  | finish {i : ℕ} {committed : Bool} : g.phase i = .exclusive committed →
      Moves g (.drop i) (.ended committed)
        ({ g with epoch := if committed then g.epoch + 1 else g.epoch,
                  transitionPending := false }.setPhase i .released).notifyAll

variable {g : Gate} {i j e k : ℕ} {a : Action} {p : Phase} {c : Bool}

theorem moves_test : Moves g (.test i) (test g i).1 (test g i).2 := by
  unfold test
  split
  · rename_i hphase
    split
    · exact .sleepShared hphase ‹_›
    · rename_i hpending
      have hopen : g.transitionPending = false := eq_false_of_not_eq_true hpending
      cases hactive : checkedAdd g.activeShared 1 with
      | none => exact .panic hphase hopen
      | some =>
        obtain ⟨rfl, -⟩ := checkedAdd_eq_some.1 hactive
        exact .enter hphase hopen
  · rename_i hphase
    split
    · exact .sleepExclusive hphase ‹_›
    · rename_i hpending
      exact .close hphase (eq_false_of_not_eq_true hpending)
  · rename_i hphase
    split
    · exact .sleepDrain hphase ‹_›
    · rename_i hactive
      exact .grant hphase (not_not.1 hactive)
  · exact .same

theorem moves_drop : Moves g (.drop i) (step g (.drop i)).1 (step g (.drop i)).2 := by
  simp only [step]
  split
  · rename_i e hphase
    unfold dropShared
    split
    · exact .dropEmpty hphase ‹_›
    · exact .release hphase ‹_›
  · rename_i committed hphase
    unfold dropExclusive
    cases committed with
    | false => exact .finish hphase
    | true =>
      cases hepoch : checkedAdd g.epoch 1 with
      | none => exact .exhaust hphase
      | some =>
        obtain ⟨rfl, -⟩ := checkedAdd_eq_some.1 hepoch
        exact .finish hphase
  · exact .same

/-- **Every action has one of the effects.** -/
theorem moves_step (g : Gate) (a : Action) :
    Moves g a (machine.step g a).1 (machine.step g a).2 := by
  cases a with
  | acquireShared =>
    simp only [machine, step]
    split
    · exact .callShared ‹_›
    · exact .same
  | acquireExclusive =>
    simp only [machine, step]
    split
    · exact .callExclusive ‹_›
    · exact .same
  | test => exact moves_test
  | wake => exact .wake
  | commit =>
    simp only [machine, step]
    split
    · exact .commit ‹_›
    · exact .same
  | drop => exact moves_drop

theorem moves_of_step {g' : Gate} {o : Outcome} (h : machine.step g a = (o, g')) :
    Moves g a o g' := by
  have hmove := moves_step g a
  rwa [h] at hmove

attribute [local simp] Gate.setPhase Gate.notifyAll

/-! ### The invariant -/

/-- The caller has closed admission and has not opened it again. -/
def Phase.closing : Phase → Bool
  | .draining | .waitingDrain | .exclusive _ | .dropPanicked => true
  | _ => false

/-- The shared guards have been drained for the caller. -/
def Phase.drained : Phase → Bool
  | .exclusive _ | .dropPanicked => true
  | _ => false

/-- The caller sleeps until no transition is pending. -/
def Phase.sleepsAdmission : Phase → Bool
  | .waitingShared | .waitingExclusive => true
  | _ => false

def Phase.isShared : Phase → Bool
  | .shared _ => true
  | _ => false

/-- What holds of the gate and its callers, whoever sleeps. -/
structure Core (g : Gate) : Prop where
  counted : ∃ S : Finset ℕ, (∀ i, i ∈ S ↔ (g.phase i).isShared = true) ∧ S.card = g.activeShared
  sharedEpoch : ∀ i e, g.phase i = .shared e → e = g.epoch
  closing : g.transitionPending = true ↔ ∃ i, (g.phase i).closing = true
  unique : ∀ i j, (g.phase i).closing = true → (g.phase j).closing = true → i = j
  drained : ∀ i, (g.phase i).drained = true → g.activeShared = 0

/-- **The invariant of the gate**: who sleeps has a reason to. -/
structure Inv (g : Gate) : Prop extends Core g where
  sleeping : ∀ i, (g.phase i).sleepsAdmission = true → g.transitionPending = true
  sleepingDrain : ∀ i, g.phase i = .waitingDrain → g.activeShared ≠ 0

theorem inv_new : Inv new where
  counted := ⟨∅, by simp [new, Phase.isShared], rfl⟩
  sharedEpoch i e h := by cases h
  closing := by simp [new, Phase.closing]
  unique i j h := by cases h
  drained i h := by cases h
  sleeping i h := by cases h
  sleepingDrain i h := by cases h

@[simp] theorem setPhase_phase (g : Gate) (i j : ℕ) (p : Phase) :
    (g.setPhase i p).phase j = if j = i then p else g.phase j := by
  simp [Function.update_apply]

/-- What holds of a phase afterwards holds of the new phase, or held of another caller's. -/
theorem setPhase_cases (Q : Phase → Prop) (h : Q ((g.setPhase i p).phase j)) :
    Q p ∨ (j ≠ i ∧ Q (g.phase j)) := by
  rw [setPhase_phase] at h
  split at h
  · exact .inl h
  · exact .inr ⟨‹_›, h⟩

/-- What does not hold of the new phase held of another caller's. -/
theorem setPhase_old (Q : Phase → Prop) (h : Q ((g.setPhase i p).phase j)) (hp : ¬ Q p) :
    j ≠ i ∧ Q (g.phase j) :=
  (setPhase_cases Q h).resolve_left hp

@[simp] theorem setPhase_transitionPending (g : Gate) (i : ℕ) (p : Phase) :
    (g.setPhase i p).transitionPending = g.transitionPending := rfl

theorem woken_isShared (p : Phase) : p.woken.isShared = p.isShared := by cases p <;> rfl

theorem woken_closing (p : Phase) : p.woken.closing = p.closing := by cases p <;> rfl

theorem woken_drained (p : Phase) : p.woken.drained = p.drained := by cases p <;> rfl

theorem woken_sleepsAdmission (p : Phase) : p.woken.sleepsAdmission = false := by cases p <;> rfl

theorem woken_ne_waitingDrain : p.woken ≠ .waitingDrain := by
  cases p <;> simp [Phase.woken]

theorem woken_eq_shared : p.woken = .shared e ↔ p = .shared e := by
  cases p <;> simp [Phase.woken]

/-- **After a notification nobody sleeps.** -/
theorem Core.notifyAll (hg : Core g) : Inv g.notifyAll where
  counted := by simpa [woken_isShared] using hg.counted
  sharedEpoch i e h := hg.sharedEpoch i e (woken_eq_shared.1 h)
  closing := by simpa [woken_closing] using hg.closing
  unique := by simpa [woken_closing] using hg.unique
  drained := by simpa [woken_drained] using hg.drained
  sleeping i h := by
    have h : (g.phase i).woken.sleepsAdmission = true := h
    rw [woken_sleepsAdmission] at h
    cases h
  sleepingDrain i h := absurd h woken_ne_waitingDrain

/-- A caller passes to another phase without a guard of its own changing hands. -/
theorem Inv.setPhase (hg : Inv g) {q : Phase} (hphase : g.phase i = q) (hold : q.isShared = false)
    (hnew : p.isShared = false) (hclosing : p.closing = q.closing)
    (hdrained : p.drained = true → g.activeShared = 0)
    (hsleeping : p.sleepsAdmission = true → g.transitionPending = true)
    (hdrain : p = .waitingDrain → g.activeShared ≠ 0) : Inv (g.setPhase i p) := by
  subst hphase
  have hphase : ∀ j, ((g.setPhase i p).phase j).closing = (g.phase j).closing := by
    intro j
    rw [setPhase_phase]
    split
    · rename_i hj
      rw [hj, hclosing]
    · rfl
  refine ⟨⟨?_, fun j e h => ?_, ?_, fun j k hj hk => ?_, fun j h => ?_⟩, fun j h => ?_,
    fun j h => ?_⟩
  · obtain ⟨S, hS, hcard⟩ := hg.counted
    refine ⟨S, fun j => ?_, hcard⟩
    rw [hS j, setPhase_phase]
    split
    · rename_i hj
      rw [hj, hold, hnew]
    · rfl
  · refine hg.sharedEpoch j e (setPhase_old (· = .shared e) h ?_).2
    rintro rfl
    cases hnew
  · rw [setPhase_transitionPending, hg.closing]
    simp only [hphase]
  · rw [hphase] at hj hk
    exact hg.unique j k hj hk
  · exact (setPhase_cases (·.drained = true) h).elim hdrained fun h => hg.drained j h.2
  · exact (setPhase_cases (·.sleepsAdmission = true) h).elim hsleeping fun h => hg.sleeping j h.2
  · exact (setPhase_cases (· = .waitingDrain) h).elim hdrain fun h => hg.sleepingDrain j h.2

/-- While a transition is not pending nobody is closing, and nobody sleeps for admission. -/
theorem Core.not_closing (hg : Core g) (hpending : g.transitionPending = false) (i : ℕ) :
    ¬ (g.phase i).closing = true := by
  intro h
  rw [hg.closing.2 ⟨i, h⟩] at hpending
  cases hpending

theorem closing_of_drained (h : p.drained = true) : p.closing = true := by
  cases p <;> first | rfl | cases h

theorem Inv.enter (hg : Inv g) (hphase : g.phase i = .enteringShared)
    (hpending : g.transitionPending = false) :
    Inv ({ g with activeShared := g.activeShared + 1 }.setPhase i (.shared g.epoch)) := by
  obtain ⟨S, hS, hcard⟩ := hg.counted
  have hi : i ∉ S := by
    rw [hS, hphase]
    simp [Phase.isShared]
  have hopen := hg.not_closing hpending
  refine ⟨⟨⟨insert i S, fun j => ?_, ?_⟩, fun j e h => ?_, ?_, fun j k hj hk => ?_, fun j h => ?_⟩,
    fun j h => ?_, fun j h => ?_⟩
  · rw [setPhase_phase]
    split <;> simp_all [Phase.isShared]
  · rw [Finset.card_insert_of_notMem hi, hcard]
    rfl
  · rw [setPhase_phase] at h
    split at h
    · cases h
      rfl
    · exact hg.sharedEpoch j e h
  · rw [hpending]
    refine ⟨nofun, ?_⟩
    rintro ⟨j, hj⟩
    exact absurd (setPhase_old (·.closing = true) hj nofun).2 (hopen j)
  · exact absurd (setPhase_old (·.closing = true) hj nofun).2 (hopen j)
  · have hdrained := (setPhase_old (·.drained = true) h nofun).2
    exact absurd (closing_of_drained hdrained) (hopen j)
  · exact hg.sleeping j (setPhase_old (·.sleepsAdmission = true) h nofun).2
  · exact Nat.succ_ne_zero _

theorem Inv.close (hg : Inv g) (hphase : g.phase i = .enteringExclusive)
    (hpending : g.transitionPending = false) :
    Inv ({ g with transitionPending := true }.setPhase i .draining) := by
  have hopen := hg.not_closing hpending
  have honly : ∀ j, ((({ g with transitionPending := true } : Gate).setPhase i .draining).phase
      j).closing = true → j = i := by
    intro j hj
    by_contra hne
    rw [setPhase_phase, if_neg hne] at hj
    exact hopen j hj
  refine ⟨⟨?_, fun j e h => ?_, ?_, fun j k hj hk => ?_, fun j h => ?_⟩, fun j _ => rfl,
    fun j h => ?_⟩
  · obtain ⟨S, hS, hcard⟩ := hg.counted
    refine ⟨S, fun j => ?_, hcard⟩
    rw [hS j, setPhase_phase]
    split
    · rename_i hj
      rw [hj, hphase]
      simp [Phase.isShared]
    · rfl
  · exact hg.sharedEpoch j e (setPhase_old (· = .shared e) h nofun).2
  · exact ⟨fun _ => ⟨i, by simp [Phase.closing]⟩, fun _ => rfl⟩
  · rw [honly j hj, honly k hk]
  · exact hg.drained j (setPhase_old (·.drained = true) h nofun).2
  · exact hg.sleepingDrain j (setPhase_old (· = .waitingDrain) h nofun).2

theorem Inv.release (hg : Inv g) (hphase : g.phase i = .shared e) (hactive : g.activeShared ≠ 0) :
    Inv ({ g with activeShared := g.activeShared - 1 }.setPhase i .released).notifyIfDrained := by
  have hcore : Core ({ g with activeShared := g.activeShared - 1 }.setPhase i .released) := by
    refine ⟨?_, fun j e h => ?_, ?_, fun j k hj hk => ?_, fun j h => ?_⟩
    · obtain ⟨S, hS, hcard⟩ := hg.counted
      have hi : i ∈ S := by
        rw [hS, hphase]
        rfl
      refine ⟨S.erase i, fun j => ?_, ?_⟩
      · rw [setPhase_phase]
        split <;> simp_all [Phase.isShared]
      · rw [Finset.card_erase_of_mem hi, hcard]
        rfl
    · exact hg.sharedEpoch j e (setPhase_old (· = .shared e) h nofun).2
    · refine hg.closing.trans ⟨?_, ?_⟩
      · rintro ⟨j, hj⟩
        refine ⟨j, ?_⟩
        rw [setPhase_phase, if_neg]
        · exact hj
        · rintro rfl
          rw [hphase] at hj
          cases hj
      · rintro ⟨j, hj⟩
        exact ⟨j, (setPhase_old (·.closing = true) hj nofun).2⟩
    · exact hg.unique j k (setPhase_old (·.closing = true) hj nofun).2
        (setPhase_old (·.closing = true) hk nofun).2
    · exact absurd (hg.drained j (setPhase_old (·.drained = true) h nofun).2) hactive
  unfold Gate.notifyIfDrained
  split
  · exact hcore.notifyAll
  · rename_i hlast
    refine ⟨hcore, fun j h => ?_, fun j h hzero => ?_⟩
    · exact hg.sleeping j (setPhase_old (·.sleepsAdmission = true) h nofun).2
    · -- a sleeper in `wait_shared` means a pending transition, so the last reader notifies
      have hsleeps := (setPhase_old (· = .waitingDrain) h nofun).2
      exact hlast ⟨hzero, hg.closing.2 ⟨j, by rw [hsleeps]; rfl⟩⟩

theorem Inv.finish (hg : Inv g) {committed : Bool} (hphase : g.phase i = .exclusive committed)
    {epoch : ℕ} :
    Inv ({ g with epoch := epoch, transitionPending := false }.setPhase i .released).notifyAll := by
  have hzero : g.activeShared = 0 := hg.drained i (by rw [hphase]; rfl)
  obtain ⟨S, hS, hcard⟩ := hg.counted
  have hempty : S = ∅ := Finset.card_eq_zero.1 (hcard.trans hzero)
  have hnone : ∀ j, (g.phase j).isShared = false := by
    intro j
    by_contra h
    have hj := (hS j).2 (eq_true_of_not_eq_false h)
    rw [hempty] at hj
    cases hj
  have hopen : ∀ j, ((({ g with epoch := epoch, transitionPending := false } : Gate).setPhase i
      .released).phase j).closing = false := by
    intro j
    rw [setPhase_phase]
    split
    · rfl
    · rename_i hj
      by_contra h
      exact hj (hg.unique j i (eq_true_of_not_eq_false h) (by rw [hphase]; rfl))
  refine Core.notifyAll ⟨⟨S, fun j => ?_, hcard⟩, fun j e h => ?_, ?_, fun j k hj => ?_,
    fun j h => hzero⟩
  · rw [hS, setPhase_phase]
    split
    · rw [hnone j]
      rfl
    · rfl
  · have hshared := hnone j
    rw [(setPhase_old (· = .shared e) h nofun).2] at hshared
    cases hshared
  · refine ⟨nofun, ?_⟩
    rintro ⟨j, hj⟩
    rw [hopen j] at hj
    cases hj
  · rw [hopen j] at hj
    cases hj

theorem setPhase_self (g : Gate) (i : ℕ) : g.setPhase i (g.phase i) = g := by
  simp

theorem Core.active_ne_zero (hg : Core g) (hphase : g.phase i = .shared e) :
    g.activeShared ≠ 0 := by
  intro hzero
  obtain ⟨S, hS, hcard⟩ := hg.counted
  have hi : i ∈ S := (hS i).2 (by rw [hphase]; rfl)
  rw [Finset.card_eq_zero.1 (hcard.trans hzero)] at hi
  cases hi

/-- Where shared guards are counted, somebody holds one. -/
theorem Core.exists_shared (hg : Core g) (hactive : g.activeShared ≠ 0) :
    ∃ i, (g.phase i).isShared = true := by
  obtain ⟨S, hS, hcard⟩ := hg.counted
  obtain ⟨i, hi⟩ := Finset.card_pos.1 (by omega : 0 < S.card)
  exact ⟨i, (hS i).1 hi⟩

/-- **Every action keeps the invariant.** -/
theorem inv_step (g : Gate) (a : Action) (hg : Inv g) : Inv (machine.step g a).2 := by
  rcases hstep : machine.step g a with ⟨o, g'⟩
  cases moves_of_step hstep with
  | same => exact hg
  | callShared h | callExclusive h | panic h =>
    exact hg.setPhase h rfl rfl rfl nofun nofun nofun
  | sleepShared h hpending | sleepExclusive h hpending =>
    exact hg.setPhase h rfl rfl rfl nofun (fun _ => hpending) nofun
  | sleepDrain h hactive => exact hg.setPhase h rfl rfl rfl nofun nofun fun _ => hactive
  | enter h hpending => exact hg.enter h hpending
  | close h hpending => exact hg.close h hpending
  | grant h hactive => exact hg.setPhase h rfl rfl rfl (fun _ => hactive) nofun nofun
  | @wake i =>
    cases hphase : g.phase i with
    | shared e =>
      have hsame : (Phase.shared e).woken = g.phase i := hphase.symm
      rw [hsame, setPhase_self]
      exact hg
    | exclusive | dropPanicked =>
      exact hg.setPhase hphase rfl rfl rfl
        (fun _ => hg.drained i (by rw [hphase]; rfl)) nofun nofun
    | _ => exact hg.setPhase hphase rfl rfl rfl nofun nofun nofun
  | commit h | exhaust h =>
    exact hg.setPhase h rfl rfl rfl (fun _ => hg.drained _ (by rw [h]; rfl)) nofun nofun
  | dropEmpty h hactive => exact absurd hactive (hg.active_ne_zero h)
  | release h hactive => exact hg.release h hactive
  | finish h => exact hg.finish h

theorem inv_run (actions : List Action) : Inv (machine.run new actions) :=
  run_invariant_all inv_step actions new inv_new

/-! ### Exclusion, epochs and admission -/

/-- **An exclusive guard is alone.** -/
theorem Inv.exclusive_alone (hg : Inv g) (hi : g.phase i = .exclusive c) (hj : j ≠ i) :
    (∀ e, g.phase j ≠ .shared e) ∧ ∀ c', g.phase j ≠ .exclusive c' := by
  refine ⟨fun e h => ?_, fun c' h => ?_⟩
  · exact hg.active_ne_zero h (hg.drained i (by rw [hi]; rfl))
  · exact hj (hg.unique j i (by rw [h]; rfl) (by rw [hi]; rfl))

/-- The epoch moves by one when a committed transition ends, and otherwise not at all. -/
theorem epoch_step (g : Gate) (a : Action) : (machine.step g a).2.epoch =
    g.epoch + if (machine.step g a).1 = .ended true then 1 else 0 := by
  rcases hstep : machine.step g a with ⟨o, g'⟩
  cases moves_of_step hstep with
  | finish =>
    rename_i committed _
    cases committed <;> rfl
  | release =>
    unfold Gate.notifyIfDrained
    split <;> rfl
  | _ => rfl

/-- No transition ends while a shared guard is held. -/
theorem Inv.not_ended (hg : Inv g) (hi : g.phase i = .shared e) (a : Action) (c : Bool) :
    (machine.step g a).1 ≠ .ended c := by
  intro hended
  rcases hstep : machine.step g a with ⟨o, g'⟩
  rw [hstep] at hended
  subst hended
  cases moves_of_step hstep with
  | finish h => exact hg.active_ne_zero hi (hg.drained _ (by rw [h]; rfl))

/-- **The epoch counts the committed transitions.** -/
theorem epoch_run (actions : List Action) : (machine.run new actions).epoch =
    1 + ((machine.trace new actions).filter fun entry => entry.2 = .ended true).length := by
  have hcount := trace_run_invariant (M := machine) (J := fun history g => g.epoch =
      1 + (history.filter fun entry => entry.2 = .ended true).length)
    (fun history g a h => ?_) actions [] new rfl
  · simpa using hcount
  · rw [epoch_step, h]
    split
    · rename_i hended
      simp [hended]
      omega
    · rename_i hended
      simp [hended]

/-- **Closed admission**: nobody is admitted, and only the end of the transition opens it. -/
theorem pending_step (hpending : g.transitionPending = true) (a : Action) :
    (∀ e, (machine.step g a).1 ≠ .admitted e) ∧
      ((machine.step g a).2.transitionPending = true ∨ ∃ c, (machine.step g a).1 = .ended c) := by
  rcases hstep : machine.step g a with ⟨o, g'⟩
  cases moves_of_step hstep with
  | enter _ hopen | close _ hopen =>
    rw [hpending] at hopen
    cases hopen
  | finish => exact ⟨nofun, .inr ⟨_, rfl⟩⟩
  | release =>
    refine ⟨nofun, .inl ?_⟩
    unfold Gate.notifyIfDrained
    split <;> exact hpending
  | _ => exact ⟨nofun, .inl hpending⟩

/-! ### Wake-ups -/

/-- The caller sleeps on the condition variable. -/
def Phase.asleep : Phase → Bool
  | .waitingShared | .waitingExclusive | .waitingDrain => true
  | _ => false

/-- The caller is in a call, awake. -/
def Phase.awake : Phase → Bool
  | .enteringShared | .enteringExclusive | .draining => true
  | _ => false

def Phase.guarded : Phase → Bool
  | .shared _ | .exclusive _ => true
  | _ => false

/-- The call gets on. -/
def Outcome.proceeds : Outcome → Bool
  | .admitted _ | .closed | .granted => true
  | _ => false

/-- The caller is awake and its next test lets it through. -/
def Able (g : Gate) (i : ℕ) : Prop := (machine.step g (.test i)).1.proceeds = true

/-- The caller is in `wait_shared`. -/
def Phase.drains : Phase → Bool
  | .draining | .waitingDrain => true
  | _ => false

/-- The caller is in `acquire_shared` or in `close_admission`. -/
def Phase.seeks : Phase → Bool
  | .enteringShared | .waitingShared | .enteringExclusive | .waitingExclusive => true
  | _ => false

theorem able_draining (hphase : g.phase i = .draining) (hactive : g.activeShared = 0) :
    Able g i := by
  simp [Able, machine, step, test, hphase, hactive, Outcome.proceeds]

theorem closing_of_drains (h : p.drains = true) : p.closing = true := by
  cases p <;> first | rfl | cases h

theorem woken_drains (p : Phase) : p.woken.drains = p.drains := by cases p <;> rfl

theorem woken_seeks (p : Phase) : p.woken.seeks = p.seeks := by cases p <;> rfl

def Action.caller : Action → ℕ
  | .acquireShared i | .acquireExclusive i | .test i | .wake i | .commit i | .drop i => i

/-- An action of another caller leaves the phase or wakes the caller. -/
theorem phase_other (hk : k ≠ a.caller) : (machine.step g a).2.phase k = g.phase k ∨
      (machine.step g a).2.phase k = (g.phase k).woken := by
  rcases hstep : machine.step g a with ⟨o, g'⟩
  cases moves_of_step hstep with
  | same => exact .inl rfl
  | release =>
    unfold Gate.notifyIfDrained
    split
    · exact .inr (congrArg Phase.woken ((setPhase_phase _ _ _ _).trans (if_neg hk)))
    · exact .inl ((setPhase_phase _ _ _ _).trans (if_neg hk))
  | finish => exact .inr (congrArg Phase.woken ((setPhase_phase _ _ _ _).trans (if_neg hk)))
  | _ => exact .inl ((setPhase_phase _ _ _ _).trans (if_neg hk))

theorem wake_phase (g : Gate) (k : ℕ) : (machine.step g (.wake k)).2.phase k = (g.phase k).woken :=
  (setPhase_phase _ _ _ _).trans (if_pos rfl)

/-- A class of phases that notifications respect, and that a caller leaves by its own actions
only where the hypothesis says so. -/
theorem class_step {K : Phase → Prop} (hwoken : ∀ p, K p → K p.woken) (hk : K (g.phase k))
    (hown : ∀ o g', Moves g a o g' → a.caller = k → a ≠ .wake k → K (g'.phase k)) :
    K ((machine.step g a).2.phase k) := by
  by_cases hcaller : k = a.caller
  · by_cases hwake : a = .wake k
    · subst hwake
      rw [wake_phase]
      exact hwoken _ hk
    · exact hown _ _ (moves_step g a) hcaller.symm hwake
  · rcases phase_other hcaller with hsame | hsame
    · rw [hsame]
      exact hk
    · rw [hsame]
      exact hwoken _ hk

/-- Whoever has closed admission opens it by dropping the guard only. -/
theorem closing_step (hk : (g.phase k).closing = true)
    (ha : ∀ c, g.phase k = .exclusive c → a ≠ .drop k) :
    ((machine.step g a).2.phase k).closing = true := by
  refine class_step (fun p => (woken_closing p).trans) hk ?_
  rintro o g' hmove rfl hwake
  cases hmove <;> simp_all [Action.caller, Phase.closing]

/-- Whoever seeks admission while a transition is pending goes on seeking. -/
theorem seeks_step (hk : (g.phase k).seeks = true)
    (hpending : g.transitionPending = true) : ((machine.step g a).2.phase k).seeks = true := by
  refine class_step (fun p => (woken_seeks p).trans) hk ?_
  rintro o g' hmove rfl hwake
  cases hmove <;> simp_all [Action.caller, Phase.seeks]

/-- Whoever holds the exclusive guard holds it until it is dropped. -/
theorem exclusive_step (hk : g.phase k = .exclusive c) (ha : a ≠ .drop k) :
    ∃ c', (machine.step g a).2.phase k = .exclusive c' := by
  refine class_step (K := fun p => ∃ c', p = .exclusive c') ?_ ⟨c, hk⟩ ?_
  · rintro _ ⟨c', rfl⟩
    exact ⟨c', rfl⟩
  · rintro o g' hmove rfl hwake
    cases hmove <;> simp_all [Action.caller]

/-- While a transition is pending the shared guards only become fewer. -/
theorem active_step (hpending : g.transitionPending = true) (a : Action) :
    (machine.step g a).2.activeShared ≤ g.activeShared := by
  rcases hstep : machine.step g a with ⟨o, g'⟩
  cases moves_of_step hstep with
  | enter _ hopen =>
    rw [hpending] at hopen
    cases hopen
  | release =>
    unfold Gate.notifyIfDrained
    split <;> exact Nat.sub_le _ _
  | _ => exact le_rfl

/-- A shared guard that is given up is counted off. -/
theorem Inv.active_lt (hg : Inv g) (hj : (g.phase j).isShared = true)
    (hj' : ((machine.step g a).2.phase j).isShared = false) :
    (machine.step g a).2.activeShared < g.activeShared := by
  by_cases hcaller : j = a.caller
  · subst hcaller
    rcases hstep : machine.step g a with ⟨o, g'⟩
    rw [hstep] at hj'
    cases moves_of_step hstep with
    | release _ hactive =>
      unfold Gate.notifyIfDrained
      split <;> exact Nat.sub_one_lt hactive
    | dropEmpty h hactive => exact absurd hactive (hg.active_ne_zero h)
    | @wake i =>
      have hsame : ((g.setPhase i (g.phase i).woken).phase i).isShared = (g.phase i).isShared := by
        rw [setPhase_phase, if_pos rfl, woken_isShared]
      rw [Action.caller] at hj hj'
      rw [hsame, hj] at hj'
      cases hj'
    | _ => simp_all [Action.caller, Phase.isShared]
  · rcases phase_other hcaller with hsame | hsame
    · rw [hsame, hj] at hj'
      cases hj'
    · rw [hsame, woken_isShared, hj] at hj'
      cases hj'

/-- Whoever waits for the shared guards goes on waiting until there are none. -/
theorem drains_step (hk : (g.phase k).drains = true)
    (hwaits : ¬ (g.phase k = .draining ∧ g.activeShared = 0)) :
    ((machine.step g a).2.phase k).drains = true := by
  refine class_step (fun p => (woken_drains p).trans) hk ?_
  rintro o g' hmove rfl hwake
  cases hmove <;> simp_all [Action.caller, Phase.drains]

/-- A draining caller stays where it is until it takes the mutex. -/
theorem draining_step (hk : g.phase k = .draining) (ha : a ≠ .test k) :
    (machine.step g a).2.phase k = .draining := by
  refine class_step (K := (· = .draining)) (by rintro _ rfl; rfl) hk ?_
  rintro o g' hmove rfl hwake
  cases hmove <;> simp_all [Action.caller]

/-- The end of a transition lets everybody in who was waiting for it, unless it panics. -/
theorem Inv.able_after_drop (hg : Inv g) (hk : g.phase k = .exclusive c)
    (hcalm : (machine.step g (.drop k)).2.phase k ≠ .dropPanicked)
    (hi : (g.phase i).seeks = true) : Able (machine.step g (.drop k)).2 i := by
  have hzero : g.activeShared = 0 := hg.drained k (by rw [hk]; rfl)
  have hne : i ≠ k := by
    rintro rfl
    rw [hk] at hi
    cases hi
  have hdrop : (machine.step g (.drop k)).2 =
      ({ g with epoch := if c then g.epoch + 1 else g.epoch,
                transitionPending := false }.setPhase k .released).notifyAll := by
    cases c with
    | false => simp [machine, step, hk, dropExclusive]
    | true =>
      cases hnext : checkedAdd g.epoch 1 with
      | none => exact absurd (by simp [machine, step, hk, dropExclusive, hnext]) hcalm
      | some =>
        obtain ⟨rfl, -⟩ := checkedAdd_eq_some.1 hnext
        simp [machine, step, hk, dropExclusive, hnext]
  have hphase : (machine.step g (.drop k)).2.phase i = (g.phase i).woken := by
    rw [hdrop]
    exact congrArg Phase.woken ((setPhase_phase _ _ _ _).trans (if_neg hne))
  have hactive : (machine.step g (.drop k)).2.activeShared = 0 := by
    rw [hdrop]
    exact hzero
  have hopen : (machine.step g (.drop k)).2.transitionPending = false := by
    rw [hdrop]
    rfl
  generalize (machine.step g (.drop k)).2 = g' at hphase hactive hopen ⊢
  have hone : checkedAdd 0 1 = some 1 := by decide
  cases hseeks : g.phase i with
  | enteringShared | waitingShared | enteringExclusive | waitingExclusive =>
    rw [hseeks] at hphase
    simp [Able, machine, step, test, hphase, Phase.woken, hactive, hopen, hone, Outcome.proceeds]
  | _ =>
    rw [hseeks] at hi
    cases hi

section Endless

variable {actions : ℕ → Action} {n : ℕ}

/-- The states of an endless run of the gate. -/
abbrev gateAt (actions : ℕ → Action) (n : ℕ) : Gate := machine.states new actions n

theorem inv_at (actions : ℕ → Action) (n : ℕ) : Inv (gateAt actions n) :=
  states_invariant inv_step inv_new

/-- Every guard is dropped at some later time. -/
def GuardsDropped (actions : ℕ → Action) : Prop :=
  ∀ n i, ((gateAt actions n).phase i).guarded = true →
    ∃ m, n ≤ m ∧ ((gateAt actions m).phase i).guarded = false

/-- No drop of a committed guard panics for want of an epoch. -/
def DropsReturn (actions : ℕ → Action) : Prop :=
  ∀ n i, (gateAt actions n).phase i ≠ .dropPanicked

/-- Every caller that is awake takes the mutex at some later time. -/
def Fair (actions : ℕ → Action) : Prop :=
  ∀ n i, ((gateAt actions n).phase i).awake = true → ∃ m, n ≤ m ∧ actions m = .test i

theorem guarded_of_isShared (h : p.isShared = true) : p.guarded = true := by
  cases p <;> first | rfl | cases h

/-- **The shared guards are drained**: whoever waits for them is let through. -/
theorem drains_able (hdropped : GuardsDropped actions) :
    ∀ active n, (gateAt actions n).activeShared = active →
      ((gateAt actions n).phase k).drains = true →
      ∃ m, n ≤ m ∧ (gateAt actions m).phase k = .draining ∧
        (gateAt actions m).activeShared = 0 := by
  intro active
  induction active using Nat.strong_induction_on with
  | _ active ih =>
    intro n hactive hk
    by_cases hzero : (gateAt actions n).activeShared = 0
    · -- nobody sleeps in `wait_shared` without a shared guard
      refine ⟨n, le_rfl, ?_, hzero⟩
      cases hphase : (gateAt actions n).phase k with
      | draining => rfl
      | waitingDrain => exact absurd hzero ((inv_at actions n).sleepingDrain k hphase)
      | _ =>
        rw [hphase] at hk
        cases hk
    · obtain ⟨j, hj⟩ := (inv_at actions n).exists_shared hzero
      obtain ⟨m, hnm, hm⟩ := hdropped n j (guarded_of_isShared hj)
      -- until that guard is dropped the caller waits and the guards do not become more
      have hunless := holds_unless (P := fun t => ((gateAt actions t).phase k).drains = true ∧
          (gateAt actions t).activeShared ≤ active ∧ ((gateAt actions t).phase j).isShared = true)
        (Q := fun t => ((gateAt actions t).phase k = .draining ∧
          (gateAt actions t).activeShared = 0) ∨
            ((gateAt actions (t + 1)).phase j).isShared = false)
        ⟨hk, le_of_eq hactive, hj⟩ (fun t _ hP hQ => ?_) hnm
      · rcases hunless with hP | ⟨l, hnl, -, ⟨hkl, hle, hjl⟩, hstop⟩
        · rw [guarded_of_isShared hP.2.2] at hm
          cases hm
        · by_cases hend : (gateAt actions l).phase k = .draining ∧
            (gateAt actions l).activeShared = 0
          · exact ⟨l, hnl, hend⟩
          · have hjl' := hstop.resolve_left hend
            have hlt := (inv_at actions l).active_lt hjl hjl'
            obtain ⟨m', hm', hdone⟩ := ih _ (lt_of_lt_of_le hlt hle) (l + 1) rfl
              (drains_step hkl hend)
            exact ⟨m', by omega, hdone⟩
      · have hwaits := fun h => hQ (.inl h)
        have hpending : (gateAt actions t).transitionPending = true :=
          (inv_at actions t).closing.2 ⟨k, closing_of_drains hP.1⟩
        refine ⟨drains_step hP.1 hwaits, le_trans (active_step hpending _) hP.2.1, ?_⟩
        by_contra hnot
        exact hQ (.inr (eq_false_of_not_eq_true hnot))

/-- **The end of a transition comes**, and lets in who has been waiting for it. -/
theorem exclusive_able (hreturn : DropsReturn actions)
    (hdropped : GuardsDropped actions) {m : ℕ} (hnm : n ≤ m)
    (hi : ((gateAt actions n).phase i).seeks = true)
    (hk : ((gateAt actions n).phase k).closing = true)
    (hm : (gateAt actions m).phase k = .exclusive c) : ∃ l, n ≤ l ∧ Able (gateAt actions l) i := by
  -- the guard is dropped
  obtain ⟨m', hmm', hm'⟩ := hdropped m k (by rw [hm]; rfl)
  obtain ⟨l, hml, hdrop⟩ : ∃ l, m ≤ l ∧ (∃ c, (gateAt actions l).phase k = .exclusive c) ∧
      actions l = .drop k := by
    rcases holds_unless (P := fun t => ∃ c, (gateAt actions t).phase k = .exclusive c) ⟨c, hm⟩
      (fun t _ hP => exclusive_step hP.choose_spec) hmm' with hP | ⟨l, hml, -, hl⟩
    · rw [hP.choose_spec] at hm'
      cases hm'
    · exact ⟨l, hml, hl⟩
  -- until then the caller seeks admission
  have hseek := holds_until (P := fun t => ((gateAt actions t).phase i).seeks = true ∧
      ((gateAt actions t).phase k).closing = true)
    (Q := fun t => (∃ c, (gateAt actions t).phase k = .exclusive c) ∧ actions t = .drop k)
    ⟨hi, hk⟩ (fun t _ hP hQ => ?_) (le_trans hnm hml) hdrop
  · obtain ⟨l', hnl', ⟨hseeks, -⟩, ⟨c', hexclusive⟩, haction⟩ := hseek
    refine ⟨l' + 1, by omega, ?_⟩
    have hcalm : (machine.step (gateAt actions l') (actions l')).2.phase k ≠ .dropPanicked :=
      hreturn (l' + 1) k
    show Able (machine.step (gateAt actions l') (actions l')).2 i
    rw [haction] at hcalm ⊢
    exact (inv_at actions l').able_after_drop hexclusive hcalm hseeks
  · have hpending : (gateAt actions t).transitionPending = true :=
      (inv_at actions t).closing.2 ⟨k, hP.2⟩
    refine ⟨seeks_step hP.1 hpending, ?_⟩
    exact closing_step hP.2 fun c hc hdrops => hQ ⟨⟨c, hc⟩, hdrops⟩

/-- A caller that drains while no shared guard is left gets the exclusive guard when it takes
the mutex. -/
theorem drained_granted (hfair : Fair actions) (hk : (gateAt actions n).phase k = .draining)
    (hactive : (gateAt actions n).activeShared = 0) :
    ∃ m, n ≤ m ∧ (gateAt actions m).phase k = .exclusive false := by
  obtain ⟨m, hnm, hm⟩ := hfair n k (by rw [hk]; rfl)
  have hstay := holds_until
    (P := fun t => (gateAt actions t).phase k = .draining ∧ (gateAt actions t).activeShared = 0)
    (Q := fun t => actions t = .test k) ⟨hk, hactive⟩ (fun t _ hP hQ => ?_) hnm hm
  · obtain ⟨l, hnl, ⟨hphase, hzero⟩, haction⟩ := hstay
    refine ⟨l + 1, by omega, ?_⟩
    show (machine.step (gateAt actions l) (actions l)).2.phase k = .exclusive false
    rw [haction]
    simp [machine, step, test, hphase, hzero]
  · have hpending : (gateAt actions t).transitionPending = true :=
      (inv_at actions t).closing.2 ⟨k, by rw [hP.1]; rfl⟩
    have hle := active_step hpending (actions t)
    refine ⟨draining_step hP.1 hQ, Nat.le_zero.1 (hP.2 ▸ hle)⟩

end Endless

/-- **The execution gate.**  In every run: an exclusive guard never coexists with another guard;
while a shared guard is held the epoch is the one it was granted at and no action changes it; the
epoch is one more than the number of committed transitions; once admission is closed no action
admits a shared guard, and only the end of the transition opens it.  And in every endless run in
which no drop of a committed guard panics and every guard is dropped, if a caller sleeps some caller
comes to be let through, and the sleeping one itself does if every caller that is awake takes the
mutex in the end. -/
theorem execution_gate_correct : (∀ actions : List Action,
      (∀ i j c, (machine.run new actions).phase i = .exclusive c → j ≠ i →
        (∀ e, (machine.run new actions).phase j ≠ .shared e) ∧
          ∀ c', (machine.run new actions).phase j ≠ .exclusive c') ∧
      (∀ i e, (machine.run new actions).phase i = .shared e → e = (machine.run new actions).epoch ∧
        ∀ a, (machine.step (machine.run new actions) a).2.epoch = (machine.run new actions).epoch) ∧
      (machine.run new actions).epoch =
        1 + ((machine.trace new actions).filter fun entry => entry.2 = .ended true).length ∧
      ((machine.run new actions).transitionPending = true → ∀ a,
        (∀ e, (machine.step (machine.run new actions) a).1 ≠ .admitted e) ∧
          ((machine.step (machine.run new actions) a).2.transitionPending = true ∨
            ∃ c, (machine.step (machine.run new actions) a).1 = .ended c))) ∧
    ∀ actions : ℕ → Action, DropsReturn actions → GuardsDropped actions →
      ∀ n i, ((gateAt actions n).phase i).asleep = true →
        (∃ m j, n ≤ m ∧ Able (gateAt actions m) j) ∧
        (Fair actions → ∃ m, n ≤ m ∧ Able (gateAt actions m) i) := by
  refine ⟨fun actions => ?_, fun actions hreturn hdropped n i hi => ?_⟩
  · have hinv := inv_run actions
    refine ⟨fun i j c => hinv.exclusive_alone, fun i e hi => ⟨hinv.sharedEpoch i e hi, fun a => ?_⟩,
      epoch_run actions, pending_step⟩
    rw [epoch_step, if_neg (hinv.not_ended hi a true), add_zero]
  · have hdrain : ∀ k n, ((gateAt actions n).phase k).drains = true → ∃ m, n ≤ m ∧
        (gateAt actions m).phase k = .draining ∧ (gateAt actions m).activeShared = 0 :=
      fun k n => drains_able hdropped _ n rfl
    by_cases hself : ((gateAt actions n).phase i).drains = true
    · -- a sleeper in `wait_shared` is let through by the last shared guard
      obtain ⟨m, hnm, hphase, hzero⟩ := hdrain i n hself
      exact ⟨⟨m, i, hnm, able_draining hphase hzero⟩, fun _ => ⟨m, hnm, able_draining hphase hzero⟩⟩
    · have hseeks : ((gateAt actions n).phase i).seeks = true := by
        cases hphase : (gateAt actions n).phase i <;> rw [hphase] at hi hself <;>
          first | rfl | (cases hi; done) | exact absurd rfl hself
      have hsleeps : ((gateAt actions n).phase i).sleepsAdmission = true := by
        cases hphase : (gateAt actions n).phase i <;> rw [hphase] at hi hself <;>
          first | rfl | (cases hi; done) | exact absurd rfl hself
      obtain ⟨k, hk⟩ := (inv_at actions n).closing.1 ((inv_at actions n).sleeping i hsleeps)
      -- the one that closed admission drains, or holds the guard
      cases hphase : (gateAt actions n).phase k with
      | exclusive =>
        have hable := exclusive_able hreturn hdropped le_rfl hseeks hk hphase
        exact ⟨⟨hable.choose, i, hable.choose_spec⟩, fun _ => hable⟩
      | dropPanicked => exact absurd hphase (hreturn n k)
      | draining | waitingDrain =>
        obtain ⟨m, hnm, hdraining, hzero⟩ := hdrain k n (by rw [hphase]; rfl)
        refine ⟨⟨m, k, hnm, able_draining hdraining hzero⟩, fun hfair => ?_⟩
        obtain ⟨m', hmm', hexclusive⟩ := drained_granted hfair hdraining hzero
        exact exclusive_able hreturn hdropped (le_trans hnm hmm') hseeks hk hexclusive
      | _ =>
        rw [hphase] at hk
        cases hk

/-- A shared guard, an exclusive request that waits for it, and a shared request that waits for
the transition. -/
def overlapping : List Action :=
  [.acquireShared 0, .test 0, .acquireExclusive 1, .test 1, .test 1, .acquireShared 2, .test 2,
    .drop 0, .test 1, .test 2, .commit 1, .drop 1, .test 2, .drop 2]

/-- The endless run of `overlapping`, at the end of which nothing happens any more. -/
def overlappingRun (n : ℕ) : Action := overlapping.getD n (.wake 2)

variable {n : ℕ}

theorem overlappingRun_after (hn : 14 ≤ n) : overlappingRun n = .wake 2 := by
  simp [overlappingRun, overlapping, hn]

theorem gateAt_overlappingRun_after (hn : 14 ≤ n) :
    gateAt overlappingRun n = gateAt overlappingRun 14 := by
  induction n, hn using Nat.le_induction with
  | base => rfl
  | succ n hn ih =>
    have hsame := setPhase_self (gateAt overlappingRun 14) 2
    show (machine.step (gateAt overlappingRun n) (overlappingRun n)).2 = gateAt overlappingRun 14
    rw [ih, overlappingRun_after hn]
    exact hsame

theorem overlappingRun_caller (n : ℕ) : (overlappingRun n).caller < 3 := by
  by_cases hn : n < 14
  · have hall : ∀ m < 14, (overlappingRun m).caller < 3 := by decide
    exact hall n hn
  · rw [overlappingRun_after (by omega)]
    decide

theorem overlappingRun_idle (hi : 3 ≤ i) : (gateAt overlappingRun n).phase i = .idle := by
  induction n with
  | zero => rfl
  | succ n ih =>
    have hcaller := overlappingRun_caller n
    show (machine.step (gateAt overlappingRun n) (overlappingRun n)).2.phase i = .idle
    rcases phase_other (by omega : i ≠ (overlappingRun n).caller)
      with hsame | hsame
    · rw [hsame, ih]
    · rw [hsame, ih]
      rfl

/-- A fact about the three callers at the fourteen first moments is one about all callers at
all moments, if it holds of an idle caller and at the end. -/
theorem overlappingRun_forall {P : ℕ → ℕ → Prop} (hidle : ∀ n i, 3 ≤ i → P n i)
    (hafter : ∀ n i, i < 3 → 14 ≤ n → P n i) (hbefore : ∀ n < 14, ∀ i < 3, P n i) (n i : ℕ) :
    P n i := by
  by_cases hi : i < 3
  · by_cases hn : n < 14
    · exact hbefore n hn i hi
    · exact hafter n i hi (by omega)
  · exact hidle n i (by omega)

theorem overlappingRun_guardsDropped : GuardsDropped overlappingRun := by
  have hend : ∀ n i, 14 ≤ n → ((gateAt overlappingRun n).phase i).guarded = false := by
    intro n i hn
    rw [gateAt_overlappingRun_after hn]
    by_cases hi : i < 3
    · have hall : ∀ i < 3, ((gateAt overlappingRun 14).phase i).guarded = false := by decide
      exact hall i hi
    · rw [overlappingRun_idle (by omega)]
      rfl
  exact fun n i _ => ⟨max n 14, le_max_left _ _, hend _ i (le_max_right _ _)⟩

theorem overlappingRun_fair : Fair overlappingRun := by
  refine overlappingRun_forall (fun n i hi h => ?_) (fun n i hi hn h => ?_) ?_
  · rw [overlappingRun_idle hi] at h
    cases h
  · have hall : ∀ i < 3, ((gateAt overlappingRun 14).phase i).awake = false := by decide
    rw [gateAt_overlappingRun_after hn, hall i hi] at h
    cases h
  · have hall : ∀ n < 14, ∀ i < 3, ((gateAt overlappingRun n).phase i).awake = true →
        ∃ m < 14, n ≤ m ∧ overlappingRun m = .test i := by decide
    intro n hn i hi h
    obtain ⟨m, -, hm⟩ := hall n hn i hi h
    exact ⟨m, hm⟩

theorem overlappingRun_dropsReturn : DropsReturn overlappingRun := by
  refine overlappingRun_forall (fun n i hi => ?_) (fun n i hi hn => ?_) (by decide)
  · rw [overlappingRun_idle hi]
    decide
  · have hall : ∀ i < 3, (gateAt overlappingRun 14).phase i ≠ .dropPanicked := by decide
    rw [gateAt_overlappingRun_after hn]
    exact hall i hi

/-- In the run of `overlapping` the shared request sleeps, and is let through. -/
theorem execution_gate_correct_overlapping : ((gateAt overlappingRun 7).phase 2).asleep = true ∧
      ∃ m, 7 ≤ m ∧ Able (gateAt overlappingRun m) 2 := by
  have hasleep : ((gateAt overlappingRun 7).phase 2).asleep = true := by decide
  exact ⟨hasleep, (execution_gate_correct.2 overlappingRun overlappingRun_dropsReturn
    overlappingRun_guardsDropped 7 2 hasleep).2 overlappingRun_fair⟩

/-! ### Exhausted epochs -/

/-- A caller is granted the exclusive guard and commits. -/
def opening (k : ℕ) : List Action := [.acquireExclusive k, .test k, .test k, .commit k]

/-- One committed transition. -/
def transition (k : ℕ) : List Action := opening k ++ [.drop k]

/-- Committed transitions one after another. -/
def transitions : ℕ → List Action
  | 0 => []
  | n + 1 => transitions n ++ transition n

/-- The gate after `n` transitions, with nobody in a call. -/
structure Rested (g : Gate) (n : ℕ) : Prop where
  active : g.activeShared = 0
  opened : g.transitionPending = false
  epoch : g.epoch = n + 1
  idle : ∀ j, n ≤ j → g.phase j = .idle
  gone : ∀ j, g.phase j = .idle ∨ g.phase j = .released

/-- The gate with the guard of the next transition granted and committed. -/
theorem run_opening (hg : Rested g n) : machine.run g (opening n) =
      { g with transitionPending := true }.setPhase n (.exclusive true) := by
  simp [opening, machine, step, test, hg.idle n le_rfl, hg.opened, hg.active]

theorem run_transition (hg : Rested g n) (hlt : n + 1 < u64Max) : machine.run g (transition n) =
      ({ g with epoch := n + 1 + 1 }.setPhase n .released).notifyAll := by
  have hnext : checkedAdd (n + 1) 1 = some (n + 1 + 1) := checkedAdd_eq_some.2 ⟨rfl, hlt⟩
  rw [transition, run_append, run_opening hg]
  simp [machine, step, dropExclusive, hg.epoch, hnext, hg.opened]

theorem rested_transition (hg : Rested g n) (hlt : n + 1 < u64Max) :
    Rested (machine.run g (transition n)) (n + 1) := by
  rw [run_transition hg hlt]
  refine ⟨hg.active, hg.opened, rfl, fun j hj => ?_, fun j => ?_⟩
  · have hphase :
        (({ g with epoch := n + 1 + 1 } : Gate).setPhase n .released).phase j = .idle := by
      rw [setPhase_phase, if_neg (by omega)]
      exact hg.idle j (by omega)
    exact congrArg Phase.woken hphase
  · by_cases hj : j = n
    · exact .inr (congrArg Phase.woken ((setPhase_phase _ _ _ _).trans (if_pos hj)))
    · have hphase : (({ g with epoch := n + 1 + 1 } : Gate).setPhase n .released).phase j =
          g.phase j := (setPhase_phase _ _ _ _).trans (if_neg hj)
      rcases hg.gone j with hidle | hreleased
      · exact .inl (congrArg Phase.woken (hphase.trans hidle))
      · exact .inr (congrArg Phase.woken (hphase.trans hreleased))

theorem rested_transitions (hlt : n < u64Max) : Rested (machine.run new (transitions n)) n := by
  induction n with
  | zero => exact ⟨rfl, rfl, rfl, fun _ _ => rfl, fun _ => .inl rfl⟩
  | succ n ih =>
    rw [transitions, run_append]
    exact rested_transition (ih (by omega)) hlt

/-- The gate after the drop of a committed guard that had no epoch left. -/
def Stuck (k : ℕ) (g : Gate) : Prop := Inv g ∧ g.phase k = .dropPanicked

theorem stuck_step (g : Gate) (a : Action) (hg : Stuck k g) : Stuck k (machine.step g a).2 := by
  have hphase := hg.2
  refine ⟨inv_step g a hg.1, class_step (K := (· = .dropPanicked)) (by rintro _ rfl; rfl) hphase ?_⟩
  rintro o g' hmove rfl hwake
  cases hmove <;> simp_all [Action.caller]

theorem Stuck.not_able (hg : Stuck k g) (i : ℕ) : ¬ Able g i := by
  have hpending : g.transitionPending = true := hg.1.closing.2 ⟨k, by rw [hg.2]; rfl⟩
  unfold Able
  rcases hstep : machine.step g (.test i) with ⟨o, g'⟩
  intro hable
  cases moves_of_step hstep with
  | enter _ hopen | close _ hopen =>
    rw [hpending] at hopen
    cases hopen
  | grant hphase =>
    -- the one that is granted would be the one whose drop panicked
    have hsame := hg.1.unique i k (by rw [hphase]; rfl) (by rw [hg.2]; rfl)
    rw [hsame, hg.2] at hphase
    cases hphase
  | _ => cases hable

/-- At the last epoch the drop of a committed guard panics. -/
theorem run_exhausted (hg : Rested g n) (hlast : n + 1 = u64Max) : machine.run g (transition n) =
      { g with transitionPending := true }.setPhase n .dropPanicked := by
  have hnone : checkedAdd (n + 1) 1 = none := checkedAdd_eq_none.2 (by omega)
  rw [transition, run_append, run_opening hg]
  simp [machine, step, dropExclusive, hg.epoch, hnone]

/-- **Exhausted epochs close the gate for good.**  The drop of a committed guard that finds no
further epoch panics and leaves the transition pending: no guard is held, a caller sleeps, and
no caller is ever let through again. -/
theorem exhausted_gate_stays_closed : ∃ actions : List Action,
    (∀ i, ((machine.run new actions).phase i).guarded = false) ∧
    (∃ i, ((machine.run new actions).phase i).asleep = true) ∧
    ∀ more i, ¬ Able (machine.run (machine.run new actions) more) i := by
  obtain ⟨n, hlast⟩ : ∃ n, n + 1 = u64Max := ⟨u64Max - 1, Nat.sub_add_cancel (by decide)⟩
  have hrested := rested_transitions (n := n) (by omega)
  have hidle := hrested.idle (n + 1) (by omega)
  have hgone := hrested.gone
  -- a caller of `acquire_shared` after the last transition
  have hrun : machine.run new (transitions n ++ (transition n ++
      [.acquireShared (n + 1), .test (n + 1)])) =
      ({ machine.run new (transitions n) with transitionPending := true }.setPhase n
        .dropPanicked).setPhase (n + 1) .waitingShared := by
    rw [run_append, run_append, run_exhausted hrested hlast]
    generalize machine.run new (transitions n) = g at hidle
    simp [machine, step, test, hidle]
  have hinv := inv_run (transitions n ++ (transition n ++ [.acquireShared (n + 1), .test (n + 1)]))
  refine ⟨transitions n ++ (transition n ++ [.acquireShared (n + 1), .test (n + 1)]),
    fun i => ?_, ⟨n + 1, ?_⟩, fun more i => ?_⟩
  · rw [hrun, setPhase_phase, setPhase_phase]
    split
    · rfl
    · split
      · rfl
      · rcases hgone i with hphase | hphase
        · exact congrArg Phase.guarded hphase
        · exact congrArg Phase.guarded hphase
  · rw [hrun, setPhase_phase, if_pos rfl]
    rfl
  · have hstuck : Stuck n (machine.run new (transitions n ++ (transition n ++
        [.acquireShared (n + 1), .test (n + 1)]))) := by
      refine ⟨hinv, ?_⟩
      rw [hrun, setPhase_phase, if_neg (by omega), setPhase_phase, if_pos rfl]
    exact (run_invariant_all stuck_step more _ hstuck).not_able i

end Nixe.ExecutionGate
