/-
**Threads that interleave.**

A thread is a tree of atomic operations: it performs one, receives the answer, and goes on.  A pool
of threads runs by picking, again and again, some thread whose next operation can be carried out in
the shared state.  What happened so far is kept as a history, newest event first, so that a property
of a run may speak of earlier moments.

The proof method is assertional.  A thread is annotated with what it knows before each of its
operations; the annotation has to survive whatever the other threads do, and each operation has to
be one that the development calls good.  Then every event of every run is good.

Main definitions:

* `Prog` — the programs of one thread; `perform`, `attempt`, `forEach` build them;
* `System.Reach` — the histories of a pool of threads under every interleaving;
* `System.Legal` — histories all of whose events are executions and good;
* `System.Sat` — a thread, annotated.

Main results:

* `System.Sat.bind`, `System.Sat.attempt`, `System.Sat.forEach`, `System.Sat.frame` — the rules for
  annotating;
* `System.Reach.legal` — a pool of annotated threads only has legal histories.
-/
import Mathlib.Data.List.Basic
import Mathlib.Logic.Function.Basic
import Mathlib.Tactic

set_option autoImplicit false

namespace Nixe.Interleaving

open Function

/-! ### Programs -/

/-- The program of one thread: finished, or an atomic operation and what to do with its
answer. -/
inductive Prog {Op : Type} (Resp : Op → Type) (α : Type) : Type
  | done (a : α) : Prog Resp α
  | step (op : Op) (next : Resp op → Prog Resp α) : Prog Resp α

variable {Op : Type} {Resp : Op → Type} {σ α β ε : Type} {ok : Op → Prop} {p : Prog Resp α}
  {f : α → Prog Resp (Except ε β)} {body : α → Prog Resp (Except ε Unit)}

/-- Run one program, then the next. -/
def Prog.bind (p : Prog Resp α) (f : α → Prog Resp β) : Prog Resp β :=
  match p with
  | .done a => f a
  | .step op next => .step op fun r => (next r).bind f

instance : Monad (Prog Resp) where
  pure := .done
  bind := Prog.bind

def perform (op : Op) : Prog Resp (Resp op) := .step op .done

/-- Run a fallible program and return from the caller if it fails. -/
def attempt (p : Prog Resp (Except ε α)) (f : α → Prog Resp (Except ε β)) :
    Prog Resp (Except ε β) :=
  p.bind fun result => match result with
    | .error e => .done (.error e)
    | .ok a => f a

def forEach (body : α → Prog Resp Unit) : List α → Prog Resp Unit
  | [] => .done ()
  | x :: xs => (body x).bind fun _ => forEach body xs

/-- A loop over a list that returns at the first failure. -/
def tryEach (body : α → Prog Resp (Except ε Unit)) : List α → Prog Resp (Except ε Unit)
  | [] => .done (.ok ())
  | x :: xs => attempt (body x) fun _ => tryEach body xs

/-- Every operation the program can perform satisfies `ok`. -/
def Prog.Within (ok : Op → Prop) : Prog Resp α → Prop
  | .done _ => True
  | .step op next => ok op ∧ ∀ r, (next r).Within ok

theorem Prog.Within.mono {ok' : Op → Prop} (hok : ∀ op, ok op → ok' op) (hp : p.Within ok) :
    p.Within ok' := by
  induction p with
  | done => trivial
  | step op next ih => exact ⟨hok op hp.1, fun r => ih r (hp.2 r)⟩

theorem Prog.Within.bind {f : α → Prog Resp β} (hp : p.Within ok) (hf : ∀ a, (f a).Within ok) :
    (p.bind f).Within ok := by
  induction p with
  | done a => exact hf a
  | step op next ih => exact ⟨hp.1, fun r => ih r (hp.2 r)⟩

theorem Prog.Within.perform {op : Op} (hop : ok op) :
    (Interleaving.perform op : Prog Resp (Resp op)).Within ok := ⟨hop, fun _ => trivial⟩

theorem Prog.Within.attempt {p : Prog Resp (Except ε α)} (hp : p.Within ok)
    (hf : ∀ a, (f a).Within ok) : (Interleaving.attempt p f).Within ok := by
  refine hp.bind fun result => ?_
  cases result with
  | error => trivial
  | ok a => exact hf a

theorem Prog.Within.forEach {body : α → Prog Resp Unit} (hbody : ∀ x, (body x).Within ok)
    {xs : List α} : (Interleaving.forEach body xs).Within ok := by
  induction xs with
  | nil => trivial
  | cons x xs ih => exact (hbody x).bind fun _ => ih

theorem Prog.Within.tryEach (hbody : ∀ x, (body x).Within ok) {xs : List α} :
    (Interleaving.tryEach body xs).Within ok := by
  induction xs with
  | nil => trivial
  | cons x xs ih => exact (hbody x).attempt fun _ => ih

/-- Every answer the program can give satisfies `S`, whatever its operations answer. -/
def Prog.Answers (S : α → Prop) : Prog Resp α → Prop
  | .done a => S a
  | .step _ next => ∀ r, (next r).Answers S

theorem Prog.Answers.bind {S : α → Prop} {S' : β → Prop} {f : α → Prog Resp β}
    (hp : p.Answers S) (hf : ∀ a, S a → (f a).Answers S') : (p.bind f).Answers S' := by
  induction p with
  | done a => exact hf a hp
  | step op next ih => exact fun r => ih r (hp r)

/-- Only the last of several programs answers. -/
theorem Prog.Answers.last {S : β → Prop} {f : α → Prog Resp β} (hf : ∀ a, (f a).Answers S) :
    (p.bind f).Answers S := by
  induction p with
  | done a => exact hf a
  | step op next ih => exact ih

theorem Prog.Answers.attempt {p : Prog Resp (Except ε α)} {S : Except ε α → Prop}
    {S' : Except ε β → Prop} (hp : p.Answers S) (herror : ∀ e, S (.error e) → S' (.error e))
    (hf : ∀ a, (f a).Answers S') : (Interleaving.attempt p f).Answers S' := by
  refine hp.bind fun result hresult => ?_
  cases result with
  | error e => exact herror e hresult
  | ok a => exact hf a

/-! ### Systems and their runs -/

/-- A shared state and the atomic operations on it; an operation that cannot be carried out
at present has no result, and its thread waits. -/
structure System (σ : Type) {Op : Type} (Resp : Op → Type) where
  start : σ
  exec : ℕ → (op : Op) → σ → Option (Resp op × σ)

/-- One executed operation: who, what, the answer, and the state it left. -/
structure Event (σ : Type) {Op : Type} (Resp : Op → Type) where
  thread : ℕ
  op : Op
  resp : Resp op
  post : σ

abbrev History (σ : Type) {Op : Type} (Resp : Op → Type) := List (Event σ Resp)

variable {P Q : History σ Resp → Prop} {I : List α → History σ Resp → Prop} {e : Event σ Resp}

namespace System

variable (M : System σ Resp) {pool rest : ℕ → Prog Resp Unit} {h t : History σ Resp} {i : ℕ}
  {P' F : History σ Resp → Prop} {Q' : α → History σ Resp → Prop}

def state : History σ Resp → σ
  | [] => M.start
  | e :: _ => e.post

@[simp] theorem state_cons (e : Event σ Resp) (h : History σ Resp) : M.state (e :: h) = e.post :=
  rfl

/-- The event is an execution of its operation after `h`. -/
def Executes (e : Event σ Resp) (h : History σ Resp) : Prop :=
  M.exec e.thread e.op (M.state h) = some (e.resp, e.post)

/-- The histories of a pool, with the programs still to run. -/
inductive Reach (pool : ℕ → Prog Resp Unit) : History σ Resp → (ℕ → Prog Resp Unit) → Prop
  | start : Reach pool [] pool
  | step {h : History σ Resp} {rest : ℕ → Prog Resp Unit} {e : Event σ Resp}
      {next : Resp e.op → Prog Resp Unit} :
      Reach pool h rest → rest e.thread = .step e.op next → M.Executes e h →
      Reach pool (e :: h) (update rest e.thread (next e.resp))

/-- The event of thread `i`, if its next operation can be carried out, with the pool
afterwards. -/
def stepThread (i : ℕ) (h : History σ Resp) (rest : ℕ → Prog Resp Unit) :
    History σ Resp × (ℕ → Prog Resp Unit) :=
  match rest i with
  | .done _ => (h, rest)
  | .step op next =>
    match M.exec i op (M.state h) with
    | none => (h, rest)
    | some (r, s) => (⟨i, op, r, s⟩ :: h, update rest i (next r))

/-- Run a pool under a schedule; a thread that cannot move is passed over. -/
def runPool : List ℕ → History σ Resp → (ℕ → Prog Resp Unit) →
    History σ Resp × (ℕ → Prog Resp Unit)
  | [], h, rest => (h, rest)
  | i :: schedule, h, rest =>
    runPool schedule (M.stepThread i h rest).1 (M.stepThread i h rest).2

variable {M}

theorem Reach.stepThread (hreach : M.Reach pool h rest) :
    M.Reach pool (M.stepThread i h rest).1 (M.stepThread i h rest).2 := by
  unfold System.stepThread
  split
  · exact hreach
  · rename_i op next hnext
    split
    · exact hreach
    · rename_i r s hexec
      exact .step hreach hnext hexec

/-- What a schedule computes is a run of the pool. -/
theorem Reach.runPool (hreach : M.Reach pool h rest) {schedule : List ℕ} :
    M.Reach pool (M.runPool schedule h rest).1 (M.runPool schedule h rest).2 := by
  induction schedule generalizing h rest with
  | nil => exact hreach
  | cons i schedule ih => exact ih hreach.stepThread

/-! ### Legal histories -/

variable (M) (Good : Event σ Resp → History σ Resp → Prop)

/-- Every event is the execution of its operation, and good. -/
inductive Legal : History σ Resp → Prop
  | nil : Legal []
  | cons {e : Event σ Resp} {h : History σ Resp} :
      Legal h → M.Executes e h → Good e h → Legal (e :: h)

variable {M Good}

/-- Every event of a legal history was good when it happened. -/
theorem Legal.good (hlegal : M.Legal Good (t ++ e :: h)) : Good e h := by
  induction t with
  | nil =>
    cases hlegal with
    | cons _ _ hgood => exact hgood
  | cons _ t ih =>
    cases hlegal with
    | cons hrest => exact ih hrest

/-- Every event of a legal history is the execution of its operation, after a legal history. -/
theorem Legal.executed (hlegal : M.Legal Good (t ++ e :: h)) : M.Legal Good h ∧ M.Executes e h := by
  induction t with
  | nil =>
    cases hlegal with
    | cons hrest hexec => exact ⟨hrest, hexec⟩
  | cons _ t ih =>
    cases hlegal with
    | cons hrest => exact ih hrest

variable (M Good)

/-- A property of histories that no legal event ends. -/
def Kept (P : History σ Resp → Prop) : Prop :=
  ∀ e h, M.Legal Good h → M.Executes e h → Good e h → P h → P (e :: h)

/-- A property of histories that no event of another thread ends. -/
def Stable (i : ℕ) (P : History σ Resp → Prop) : Prop :=
  ∀ e h, M.Legal Good h → M.Executes e h → Good e h → e.thread ≠ i → P h → P (e :: h)

variable {M Good}

theorem Stable.true : M.Stable Good i fun _ => True := fun _ _ _ _ _ _ _ => trivial

theorem Kept.stable (hP : M.Kept Good P) : M.Stable Good i P :=
  fun e h hlegal hexec hgood _ => hP e h hlegal hexec hgood

theorem Kept.and (hP : M.Kept Good P) (hQ : M.Kept Good Q) : M.Kept Good fun h => P h ∧ Q h :=
  fun e h hlegal hexec hgood hboth =>
    ⟨hP e h hlegal hexec hgood hboth.1, hQ e h hlegal hexec hgood hboth.2⟩

theorem Kept.forall {ι : Sort*} {P : ι → History σ Resp → Prop}
    (hP : ∀ x, M.Kept Good (P x)) : M.Kept Good fun h => ∀ x, P x h :=
  fun e h hlegal hexec hgood hall x => hP x e h hlegal hexec hgood (hall x)

theorem Kept.imp {p : Prop} (hP : M.Kept Good P) : M.Kept Good fun h => p → P h :=
  fun e h hlegal hexec hgood himp hp => hP e h hlegal hexec hgood (himp hp)

theorem Stable.and (hP : M.Stable Good i P) (hQ : M.Stable Good i Q) :
    M.Stable Good i fun h => P h ∧ Q h :=
  fun e h hlegal hexec hgood hne hboth =>
    ⟨hP e h hlegal hexec hgood hne hboth.1, hQ e h hlegal hexec hgood hne hboth.2⟩

/-- What is kept holds at every later moment. -/
theorem Legal.later (hkept : M.Kept Good P) (hlegal : M.Legal Good (t ++ h)) (hP : P h) :
    P (t ++ h) := by
  induction t with
  | nil => exact hP
  | cons _ t ih =>
    cases hlegal with
    | cons hrest hexec hgood => exact hkept _ _ hrest hexec hgood (ih hrest)

/-! ### Annotated threads -/

variable (M Good)

/-- The program `p` of thread `i`, annotated: `P` holds before it, each operation it
performs is good, what it knows between two operations is stable, and `Q` holds of its
answer at the end. -/
def Sat (i : ℕ) : Prog Resp α → (History σ Resp → Prop) → (α → History σ Resp → Prop) → Prop
  | .done a, P, Q => ∀ h, M.Legal Good h → P h → Q a h
  | .step op next, P, Q => ∀ h r s, M.Legal Good h → P h → M.exec i op (M.state h) = some (r, s) →
      Good ⟨i, op, r, s⟩ h ∧
        ∃ P', M.Stable Good i P' ∧ P' (⟨i, op, r, s⟩ :: h) ∧ Sat i (next r) P' Q

variable {M Good} {Q : α → History σ Resp → Prop}

/-- A stronger precondition and a weaker postcondition. -/
theorem Sat.imp (hp : M.Sat Good i p P Q) (hpre : ∀ h, M.Legal Good h → P' h → P h)
    (hpost : ∀ a h, M.Legal Good h → Q a h → Q' a h) : M.Sat Good i p P' Q' := by
  induction p generalizing P P' with
  | done a => exact fun h hlegal hP' => hpost a h hlegal (hp h hlegal (hpre h hlegal hP'))
  | step op next ih =>
    intro h r s hlegal hP' hexec
    obtain ⟨hgood, R, hstable, hR, hrest⟩ := hp h r s hlegal (hpre h hlegal hP') hexec
    exact ⟨hgood, R, hstable, hR, ih r hrest fun _ _ hk => hk⟩

theorem Sat.pre (hp : M.Sat Good i p P Q) (hpre : ∀ h, M.Legal Good h → P' h → P h) :
    M.Sat Good i p P' Q :=
  hp.imp hpre fun _ _ _ hQ => hQ

theorem Sat.post (hp : M.Sat Good i p P Q) (hpost : ∀ a h, M.Legal Good h → Q a h → Q' a h) :
    M.Sat Good i p P Q' :=
  hp.imp (fun _ _ hP => hP) hpost

/-- A program may start from any of several states of knowledge. -/
theorem Sat.exists {ι : Sort*} {P : ι → History σ Resp → Prop} (hp : ∀ x, M.Sat Good i p (P x) Q) :
    M.Sat Good i p (fun h => ∃ x, P x h) Q := by
  cases p with
  | done => exact fun h hlegal ⟨x, hP⟩ => hp x h hlegal hP
  | step => exact fun h r s hlegal ⟨x, hP⟩ hexec => hp x h r s hlegal hP hexec

theorem Sat.given {a : Prop} (hp : a → M.Sat Good i p P Q) :
    M.Sat Good i p (fun h => a ∧ P h) Q := by
  cases p with
  | done => exact fun h hlegal hboth => hp hboth.1 h hlegal hboth.2
  | step => exact fun h r s hlegal hboth => hp hboth.1 h r s hlegal hboth.2

/-- One of several states of knowledge, with a fact about which one it is. -/
theorem Sat.exists_given {ι : Sort*} {a : ι → Prop} {P : ι → History σ Resp → Prop}
    (hp : ∀ x, a x → M.Sat Good i p (P x) Q) : M.Sat Good i p (fun h => ∃ x, P x h ∧ a x) Q :=
  .exists fun x => (Sat.given (hp x)).pre fun _ _ hboth => hboth.symm

/-- What is said of the answers of the program as such. -/
theorem Sat.answers {S : α → Prop} (hanswers : p.Answers S) (hp : M.Sat Good i p P Q) :
    M.Sat Good i p P fun a h => S a ∧ Q a h := by
  induction p generalizing P with
  | done => exact fun h hlegal hP => ⟨hanswers, hp h hlegal hP⟩
  | step op next ih =>
    intro h r s hlegal hP hexec
    obtain ⟨hgood, R, hstable, hR, hrest⟩ := hp h r s hlegal hP hexec
    exact ⟨hgood, R, hstable, hR, ih r (hanswers r) hrest⟩

/-- **One operation.** It is good where it is performed, and what is known of its answer is
stable. -/
theorem Sat.step {op : Op} {next : Resp op → Prog Resp α} {R : Resp op → History σ Resp → Prop}
    (hstable : ∀ r, M.Stable Good i (R r))
    (hop : ∀ h r s, M.Legal Good h → P h → M.exec i op (M.state h) = some (r, s) →
      Good ⟨i, op, r, s⟩ h ∧ R r (⟨i, op, r, s⟩ :: h))
    (hnext : ∀ r, M.Sat Good i (next r) (R r) Q) : M.Sat Good i (.step op next) P Q := by
  intro h r s hlegal hP hexec
  obtain ⟨hgood, hR⟩ := hop h r s hlegal hP hexec
  exact ⟨hgood, R r, hstable r, hR, hnext r⟩

theorem Sat.perform {op : Op} {R : Resp op → History σ Resp → Prop}
    (hstable : ∀ r, M.Stable Good i (R r))
    (hop : ∀ h r s, M.Legal Good h → P h → M.exec i op (M.state h) = some (r, s) →
      Good ⟨i, op, r, s⟩ h ∧ R r (⟨i, op, r, s⟩ :: h)) :
    M.Sat Good i (Interleaving.perform op) P R :=
  .step hstable hop fun _ _ _ hR => hR

/-- **Sequencing.** -/
theorem Sat.bind {f : α → Prog Resp β} {R : β → History σ Resp → Prop} (hp : M.Sat Good i p P Q)
    (hf : ∀ a, M.Sat Good i (f a) (Q a) R) : M.Sat Good i (p.bind f) P R := by
  induction p generalizing P with
  | done a => exact (hf a).pre hp
  | step op next ih =>
    intro h r s hlegal hP hexec
    obtain ⟨hgood, S, hstable, hS, hrest⟩ := hp h r s hlegal hP hexec
    exact ⟨hgood, S, hstable, hS, ih r hrest⟩

/-- One assertion for the answer of a fallible program, another for its failure. -/
def onResult (Q : α → History σ Resp → Prop) (L : History σ Resp → Prop) :
    Except ε α → History σ Resp → Prop
  | .ok a => Q a
  | .error _ => L

/-- **Sequencing of fallible programs.** -/
theorem Sat.attempt {p : Prog Resp (Except ε α)} {Q : Except ε α → History σ Resp → Prop}
    {R : Except ε β → History σ Resp → Prop} (hp : M.Sat Good i p P Q)
    (herror : ∀ e h, M.Legal Good h → Q (.error e) h → R (.error e) h)
    (hf : ∀ a, M.Sat Good i (f a) (Q (.ok a)) R) : M.Sat Good i (Interleaving.attempt p f) P R := by
  refine hp.bind fun result => ?_
  cases result with
  | error e => exact herror e
  | ok a => exact hf a

/-- The same where nothing is claimed of the result. -/
theorem Sat.attemptAny {p : Prog Resp (Except ε α)} {Q : Except ε α → History σ Resp → Prop}
    (hp : M.Sat Good i p P Q) (hf : ∀ a, M.Sat Good i (f a) (Q (.ok a)) fun _ _ => True) :
    M.Sat Good i (Interleaving.attempt p f) P fun _ _ => True :=
  hp.attempt (fun _ _ _ _ => trivial) hf

/-- **The loop rule**, with an invariant that may depend on what is left to do. -/
theorem Sat.forEach {body : α → Prog Resp Unit}
    (hbody : ∀ x xs, M.Sat Good i (body x) (I (x :: xs)) fun _ => I xs) (xs : List α) :
    M.Sat Good i (Interleaving.forEach body xs) (I xs) fun _ => I [] := by
  induction xs with
  | nil => exact fun _ _ hI => hI
  | cons x xs ih => exact (hbody x xs).bind fun _ => ih

/-- The loop rule for a loop that returns at the first failure. -/
theorem Sat.tryEach {R : Except ε Unit → History σ Resp → Prop}
    (hbody : ∀ x xs, M.Sat Good i (body x) (I (x :: xs)) fun result h => match result with
      | .error e => R (.error e) h
      | .ok _ => I xs h) (hend : ∀ h, M.Legal Good h → I [] h → R (.ok ()) h) (xs : List α) :
    M.Sat Good i (Interleaving.tryEach body xs) (I xs) R := by
  induction xs with
  | nil => exact hend
  | cons x xs ih => exact (hbody x xs).attempt (fun _ _ _ hR => hR) fun _ => ih

/-- **The frame rule.** What survives the other threads and the operations the program
performs may be carried along. -/
theorem Sat.frameWithin (hothers : M.Stable Good i F)
    (hown : ∀ e h, M.Legal Good h → M.Executes e h → Good e h → e.thread = i → ok e.op → F h →
      F (e :: h)) (hwithin : p.Within ok) (hp : M.Sat Good i p P Q) :
    M.Sat Good i p (fun h => P h ∧ F h) fun a h => Q a h ∧ F h := by
  induction p generalizing P with
  | done => exact fun h hlegal hboth => ⟨hp h hlegal hboth.1, hboth.2⟩
  | step op next ih =>
    intro h r s hlegal hboth hexec
    obtain ⟨hgood, S, hstable, hS, hrest⟩ := hp h r s hlegal hboth.1 hexec
    exact ⟨hgood, fun h => S h ∧ F h, hstable.and hothers,
      ⟨hS, hown _ h hlegal hexec hgood rfl hwithin.1 hboth.2⟩,
      ih r (hwithin.2 r) hrest⟩

theorem within_true {p : Prog Resp α} : p.Within fun _ => True := by
  induction p with
  | done => trivial
  | step op next ih => exact ⟨trivial, ih⟩

/-- What no legal event ends may be carried along any program. -/
theorem Sat.frame (hF : M.Kept Good F) (hp : M.Sat Good i p P Q) :
    M.Sat Good i p (fun h => P h ∧ F h) fun a h => Q a h ∧ F h :=
  hp.frameWithin hF.stable (fun e h hlegal hexec hgood _ _ => hF e h hlegal hexec hgood) within_true

/-- **Soundness.** In a pool whose threads can all be annotated, every run is legal. -/
theorem Reach.legal (hpool : ∀ i, M.Sat Good i (pool i) (fun _ => True) fun _ _ => True)
    (hreach : M.Reach pool h rest) : M.Legal Good h := by
  -- every thread keeps an annotation that holds now; the thread that moves passes to the next
  suffices hall : M.Legal Good h ∧ ∀ i, ∃ P, M.Stable Good i P ∧ P h ∧
      M.Sat Good i (rest i) P fun _ _ => True from hall.1
  induction hreach with
  | start =>
    exact ⟨.nil, fun i => ⟨fun _ => True, fun _ _ _ _ _ _ _ => trivial, trivial, hpool i⟩⟩
  | step hprev hnext hexec ih =>
    obtain ⟨hlegal, hthreads⟩ := ih
    rename_i h rest e next
    obtain ⟨P, -, hP, hsat⟩ := hthreads e.thread
    rw [hnext] at hsat
    obtain ⟨hgood, P', hstable, hP', hrest⟩ := hsat h e.resp e.post hlegal hP hexec
    refine ⟨.cons hlegal hexec hgood, fun j => ?_⟩
    by_cases hj : j = e.thread
    · subst hj
      exact ⟨P', hstable, hP', by rw [update_self]; exact hrest⟩
    · obtain ⟨Pj, hstablej, hPj, hsatj⟩ := hthreads j
      exact ⟨Pj, hstablej, hstablej e h hlegal hexec hgood (.symm hj) hPj,
        by rw [update_of_ne hj]; exact hsatj⟩

end System

end Nixe.Interleaving
