/-
**Deterministic machines and their runs.**

A machine answers a command with an output and a new state.  What is said about *whole runs* — an
invariant of every reachable state, an event that happens at most once — is reduced here to a
statement about one step.

Main definitions:

* `Machine` — a state transformer with outputs;
* `run`, `trace` — the state after a list of commands, and the commands with their answers;
* `Guarded` — every command of a run meets a condition on the state it is applied to;
* `states` — the states of an endless run.

Main results:

* `run_invariant` — **the invariant rule**, for guarded runs;
* `good_iff_guarded` — when the condition on the commands is also necessary;
* `trace_run_invariant` — **the history rule**, for invariants that speak of the past;
* `trace_eq_trace` — **the simulation rule**, for two machines;
* `trace_nodup` — **the single-use rule**: no value is used twice in a run;
* `holds_unless` — **the unless rule**, for what has to happen in an endless run.
-/

import Mathlib.Data.List.Basic
import Mathlib.Tactic

set_option autoImplicit false

namespace Nixe

open List

/-- A deterministic machine: `step s c` is the output of the command `c` in the state `s`, with the
state that the command leaves behind. -/
structure Machine (σ κ ω : Type) where
  step : σ → κ → ω × σ

namespace Machine

variable {σ κ ω : Type} (M : Machine σ κ ω) {I : σ → Prop} {G : σ → κ → Prop}

/-- The state after a list of commands. -/
def run (s : σ) : List κ → σ
  | [] => s
  | c :: cs => run (M.step s c).2 cs

/-- The commands of a run, each with its output. -/
def trace (s : σ) : List κ → List (κ × ω)
  | [] => []
  | c :: cs => (c, (M.step s c).1) :: trace (M.step s c).2 cs

/-- Every command of the run meets the condition `G` in the state it is applied to. -/
def Guarded (G : σ → κ → Prop) (s : σ) : List κ → Prop
  | [] => True
  | c :: cs => G s c ∧ Guarded G (M.step s c).2 cs

instance decidableGuarded (G : σ → κ → Prop) [∀ s c, Decidable (G s c)] (s : σ) :
    (cs : List κ) → Decidable (M.Guarded G s cs)
  | [] => .isTrue trivial
  | c :: cs =>
    have := decidableGuarded G (M.step s c).2 cs
    inferInstanceAs (Decidable (_ ∧ _))

@[simp] theorem run_nil (s : σ) : M.run s [] = s := rfl

@[simp] theorem run_cons (s : σ) (c : κ) (cs : List κ) :
    M.run s (c :: cs) = M.run (M.step s c).2 cs := rfl

@[simp] theorem trace_nil (s : σ) : M.trace s [] = [] := rfl

@[simp] theorem trace_cons (s : σ) (c : κ) (cs : List κ) :
    M.trace s (c :: cs) = (c, (M.step s c).1) :: M.trace (M.step s c).2 cs := rfl

@[simp] theorem guarded_nil (G : σ → κ → Prop) (s : σ) : M.Guarded G s [] := trivial

@[simp] theorem guarded_cons (G : σ → κ → Prop) (s : σ) (c : κ) (cs : List κ) :
    M.Guarded G s (c :: cs) ↔ G s c ∧ M.Guarded G (M.step s c).2 cs := Iff.rfl

theorem run_append (s : σ) (cs ds : List κ) : M.run s (cs ++ ds) = M.run (M.run s cs) ds := by
  induction cs generalizing s with
  | nil => rfl
  | cons c cs ih => exact ih _

variable {M}

/-- **The invariant rule.**  What the initial state satisfies and every permitted step preserves
holds after every permitted run. -/
theorem run_invariant (hstep : ∀ s c, I s → G s c → I (M.step s c).2) :
    ∀ (cs : List κ) (s : σ), I s → M.Guarded G s cs → I (M.run s cs) := by
  intro cs
  induction cs with
  | nil => intro s hs _; exact hs
  | cons c cs ih =>
    rintro s hs ⟨hc, hcs⟩
    exact ih _ (hstep s c hs hc) hcs

/-- The invariant rule without a condition on the commands. -/
theorem run_invariant_all (hstep : ∀ s c, I s → I (M.step s c).2) (cs : List κ) (s : σ) (hs : I s) :
    I (M.run s cs) := by
  induction cs generalizing s with
  | nil => exact hs
  | cons c cs ih => exact ih _ (hstep s c hs)

/-- **Exact conditions.**  If permitted steps keep the invariant and answer well, and a step that
answers well and lands in a good state was permitted, then the permitted runs are precisely those
with good answers in which every prefix ends in a good state. -/
theorem good_iff_guarded {P : σ → Prop} {O : ω → Prop} (hgood : ∀ s, I s → P s)
    (hstep : ∀ s c, I s → G s c → O (M.step s c).1 ∧ I (M.step s c).2)
    (hexact : ∀ s c, I s → O (M.step s c).1 → P (M.step s c).2 → G s c) :
    ∀ (cs : List κ) (s : σ), I s →
      (((∀ ds, ds <+: cs → P (M.run s ds)) ∧ ∀ e ∈ M.trace s cs, O e.2) ↔ M.Guarded G s cs) := by
  intro cs
  induction cs with
  | nil =>
    intro s hs
    simp [hgood s hs]
  | cons c cs ih =>
    intro s hs
    constructor
    · rintro ⟨hP, hO⟩
      have hG : G s c := by
        refine hexact s c hs (hO _ (mem_cons_self ..)) ?_
        exact hP [c] ((List.prefix_cons_inj c).2 (List.nil_prefix ..))
      refine ⟨hG, (ih _ (hstep s c hs hG).2).1 ⟨?_, ?_⟩⟩
      · intro ds hds
        exact hP _ ((prefix_cons_inj c).2 hds)
      · intro e he
        exact hO e (mem_cons_of_mem _ he)
    · rintro ⟨hG, hcs⟩
      obtain ⟨hOc, hI⟩ := hstep s c hs hG
      obtain ⟨hP, hO⟩ := (ih _ hI).2 hcs
      refine ⟨?_, ?_⟩
      · intro ds hds
        cases ds with
        | nil => exact hgood s hs
        | cons d ds =>
          obtain ⟨rfl, htail⟩ := cons_prefix_cons.1 hds
          exact hP ds htail
      · intro e he
        rcases mem_cons.1 he with rfl | he
        · exact hOc
        · exact hO e he

/-- What every step answers in a state with the invariant, every entry of a trace has. -/
theorem trace_forall {P : κ × ω → Prop} (hinv : ∀ s c, I s → I (M.step s c).2)
    (hP : ∀ s c, I s → P (c, (M.step s c).1)) :
    ∀ (cs : List κ) (s : σ), I s → ∀ e ∈ M.trace s cs, P e := by
  intro cs
  induction cs with
  | nil => intro s _ e he; simp at he
  | cons c cs ih =>
    intro s hs e he
    rcases mem_cons.1 he with rfl | he
    · exact hP s c hs
    · exact ih _ (hinv s c hs) e he

/-- **The history rule.**  A relation between what happened so far and the current state, which
every step keeps when it is added to the history. -/
theorem trace_run_invariant {J : List (κ × ω) → σ → Prop}
    (hstep : ∀ h s c, J h s → J (h ++ [(c, (M.step s c).1)]) (M.step s c).2) :
    ∀ (cs : List κ) (h : List (κ × ω)) (s : σ), J h s → J (h ++ M.trace s cs) (M.run s cs) := by
  intro cs
  induction cs with
  | nil => simp
  | cons c cs ih =>
    intro h s hs
    have hnext := ih _ _ (hstep h s c hs)
    simpa using hnext

/-- **The simulation rule.**  Two machines that answer alike in related states, and stay related,
answer alike in whole runs. -/
theorem trace_eq_trace {τ : Type} {N : Machine τ κ ω} {R : σ → τ → Prop} (hstep : ∀ s t c, R s t →
      (M.step s c).1 = (N.step t c).1 ∧ R (M.step s c).2 (N.step t c).2) :
    ∀ (cs : List κ) (s : σ) (t : τ), R s t → M.trace s cs = N.trace t cs := by
  intro cs
  induction cs with
  | nil => intro s t _; rfl
  | cons c cs ih =>
    intro s t h
    obtain ⟨hout, hnext⟩ := hstep s t c h
    rw [trace_cons, trace_cons, hout, ih _ _ hnext]

/-- **The single-use rule.**  Each step may use up one value.  If a step leaves the value it used
spent, a spent value stays spent, and no step uses a spent value, then no value is used twice in a
run. -/
theorem trace_nodup {τ : Type} {use : κ × ω → Option τ} (Spent : τ → σ → Prop)
    (hinv : ∀ s c, I s → I (M.step s c).2)
    (hnew : ∀ s c x, I s → use (c, (M.step s c).1) = some x → Spent x (M.step s c).2)
    (hkeep : ∀ s c x, I s → Spent x s → Spent x (M.step s c).2)
    (hfresh : ∀ s c x, I s → use (c, (M.step s c).1) = some x → ¬ Spent x s) :
    ∀ (cs : List κ) (s : σ), I s → ((M.trace s cs).filterMap use).Nodup := by
  -- a spent value is not used in the rest of the run
  have hnever : ∀ cs s x, I s → Spent x s → x ∉ (M.trace s cs).filterMap use := by
    intro cs
    induction cs with
    | nil => simp
    | cons c cs ih =>
      intro s x hs hx hmem
      rw [trace_cons, filterMap_cons] at hmem
      rcases hu : use (c, (M.step s c).1) with _ | y
      · rw [hu] at hmem
        exact ih _ x (hinv s c hs) (hkeep s c x hs hx) hmem
      · rw [hu] at hmem
        rcases mem_cons.1 hmem with rfl | hmem
        · exact hfresh s c x hs hu hx
        · exact ih _ x (hinv s c hs) (hkeep s c x hs hx) hmem
  intro cs
  induction cs with
  | nil => intro s _; exact nodup_nil
  | cons c cs ih =>
    intro s hs
    rw [trace_cons, filterMap_cons]
    rcases hu : use (c, (M.step s c).1) with _ | x
    · exact ih _ (hinv s c hs)
    · exact nodup_cons.2
        ⟨hnever cs _ x (hinv s c hs) (hnew s c x hs hu), ih _ (hinv s c hs)⟩

/-! ### Endless runs -/

variable (M) in
def states (s : σ) (cs : ℕ → κ) : ℕ → σ
  | 0 => s
  | n + 1 => (M.step (states s cs n) (cs n)).2

theorem states_invariant (hstep : ∀ s c, I s → I (M.step s c).2) {s : σ} (hs : I s) {cs : ℕ → κ}
    {n : ℕ} : I (M.states s cs n) := by
  induction n with
  | zero => exact hs
  | succ n ih => exact hstep _ _ ih

end Machine

/-- **The unless rule.**  What holds now, and is only given up at a moment with `Q`, holds for
ever or there is such a moment. -/
theorem holds_unless {P Q : ℕ → Prop} {n : ℕ} (hn : P n)
    (hstep : ∀ m, n ≤ m → P m → ¬ Q m → P (m + 1)) {m : ℕ} (hm : n ≤ m) :
    P m ∨ ∃ l, n ≤ l ∧ l < m ∧ P l ∧ Q l := by
  induction m, hm using Nat.le_induction with
  | base => exact .inl hn
  | succ m hm ih =>
    rcases ih with hP | ⟨l, hnl, hlm, hl⟩
    · by_cases hQ : Q m
      · exact .inr ⟨m, hm, Nat.lt_succ_self m, hP, hQ⟩
      · exact .inl (hstep m hm hP hQ)
    · exact .inr ⟨l, hnl, Nat.lt_succ_of_lt hlm, hl⟩

/-- What holds now, and is only given up at a moment with `Q`, holds at the first such moment. -/
theorem holds_until {P Q : ℕ → Prop} {n m : ℕ} (hn : P n)
    (hstep : ∀ m, n ≤ m → P m → ¬ Q m → P (m + 1)) (hm : n ≤ m) (hQ : Q m) :
    ∃ l, n ≤ l ∧ P l ∧ Q l := by
  rcases holds_unless hn hstep hm with hP | ⟨l, hnl, -, hl⟩
  · exact ⟨m, hm, hP, hQ⟩
  · exact ⟨l, hnl, hl⟩

end Nixe
