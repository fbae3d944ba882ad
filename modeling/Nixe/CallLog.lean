/-
**Calls that keep a log.**

The state of a logged call is the list of the events that it met, the latest first.  What a method
may have done is then a statement about the events that it added, whether it ends in a value, in
an error or in a panic; what it has certainly done is a statement about the log of a run that
returned.

Main definitions:

* `ofOutcome` — a computation without a state;
* `emit` — one more event;
* `Emits` — **a call forgets no event, and adds only events of one kind**.

Main results:

* `bind_eq_ok` — a call that returns, returns in all its parts;
* `Emits.bind`, `Emits.okOr`, … — the rules for the statements.
-/

import Nixe.Call

set_option autoImplicit false

namespace Nixe.Call

section Returned

variable {σ ε α β : Type} {s t : σ} {a : α} {o : Option α} {out : Outcome ε α}

/-- `r?` for a computation `r` without a state. -/
def ofOutcome (out : Outcome ε α) : Call σ ε α := fun s => (out, s)

/-- A call that returns, returns in all its parts. -/
theorem bind_eq_ok {c : Call σ ε α} {f : α → Call σ ε β} {u : σ} {b : β} :
    (c >>= f) s = (.ok b, u) ↔ ∃ a t, c s = (.ok a, t) ∧ f a t = (.ok b, u) := by
  rw [bind_run]
  rcases hc : c s with ⟨out, t⟩
  cases out with
  | ok a =>
    constructor
    · intro h
      exact ⟨a, t, rfl, h⟩
    · rintro ⟨a', t', heq, h⟩
      cases heq
      exact h
  | err => simp
  | panic => simp

theorem okOr_eq_ok {e : ε} : okOr o e s = (.ok a, t) ↔ o = some a ∧ t = s := by
  cases o with
  | none => simp
  | some => simp [eq_comm]

theorem expect_eq_ok {m : String} :
    (expect o m : Call σ ε α) s = (.ok a, t) ↔ o = some a ∧ t = s := by
  cases o with
  | none => simp
  | some => simp [eq_comm]

theorem ofOutcome_eq_ok : ofOutcome out s = (.ok a, t) ↔ out = .ok a ∧ t = s := by
  simp [ofOutcome, eq_comm]

end Returned

section Log

variable {κ ε α β : Type}

def emit (event : κ) : Call (List κ) ε Unit := update (event :: ·)

theorem emit_eq_ok {event : κ} {s t : List κ} {u : Unit} :
    (emit event : Call (List κ) ε Unit) s = (.ok u, t) ↔ t = event :: s := by
  simp [emit, eq_comm]

/-- **The call forgets no event, and each event that it adds satisfies `P`.** -/
def Emits (P : κ → Prop) (c : Call (List κ) ε α) : Prop :=
  ∀ s, (∀ event ∈ (c s).2, event ∈ s ∨ P event) ∧ ∀ event ∈ s, event ∈ (c s).2

namespace Emits

variable {P : κ → Prop} {c : Call (List κ) ε α} {event : κ} {f : α → Call (List κ) ε β}
  {o : Option α} {out : Outcome ε α}

theorem of_same (h : ∀ s, (c s).2 = s) : Emits P c := by
  intro s
  rw [h s]
  exact ⟨fun _ => .inl, fun _ he => he⟩

theorem pure {a : α} : Emits P (Pure.pure a : Call (List κ) ε α) := of_same fun _ => rfl

theorem emit (h : P event) : Emits P (emit event : Call (List κ) ε Unit) := by
  intro s
  refine ⟨?_, fun _ => List.mem_cons_of_mem _⟩
  intro e he
  rcases List.mem_cons.1 he with rfl | he
  · exact .inr h
  · exact .inl he

theorem bind (hc : Emits P c) (hf : ∀ a, Emits P (f a)) : Emits P (c >>= f) := by
  intro s
  obtain ⟨hadded, hkept⟩ := hc s
  rw [bind_run]
  rcases hrun : c s with ⟨out, t⟩
  rw [hrun] at hadded hkept
  cases out with
  | ok a =>
    obtain ⟨hadded', hkept'⟩ := hf a t
    refine ⟨?_, fun e he => hkept' e (hkept e he)⟩
    intro e he
    rcases hadded' e he with h | h
    · exact hadded e h
    · exact .inr h
  | err | panic => exact ⟨hadded, hkept⟩

theorem okOr {e : ε} (hf : ∀ a, o = some a → Emits P (f a)) : Emits P (okOr o e >>= f) := by
  cases o with
  | none => exact of_same fun _ => rfl
  | some a => exact hf a rfl

theorem ofOutcome (hf : ∀ a, out = .ok a → Emits P (f a)) : Emits P (ofOutcome out >>= f) := by
  cases out with
  | ok a => exact hf a rfl
  | err | panic => exact of_same fun _ => rfl

theorem expect {m : String} (hf : ∀ a, o = some a → Emits P (f a)) :
    Emits P (expect o m >>= f) := by
  cases o with
  | none => exact of_same fun _ => rfl
  | some a => exact hf a rfl

theorem kept (h : Emits P c) {s t : List κ} (hrun : c s = (out, t))
    (he : event ∈ s) : event ∈ t := by
  have := (h s).2 event he
  rwa [hrun] at this

theorem of_mem (h : Emits P c) (he : event ∈ (c []).2) : P event := by
  rcases (h []).1 event he with hnil | hP
  · exact absurd hnil List.not_mem_nil
  · exact hP

end Emits

end Log

end Nixe.Call
