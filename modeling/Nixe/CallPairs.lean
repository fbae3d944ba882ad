/-
**Calls side by side.**

Two methods on different states are compared: the one ends as the other does, with a value, or with
the same error, and leaves a state behind that corresponds to the state that the other one leaves
behind.  The rules follow the statements of the two methods, together or one method at a time.

Main definitions:

* `focus` — a method on a component of the state;
* `Follows` — **a call ends as another one does**.

Main results:

* `Follows.bind` — one statement of both methods;
* `Follows.left_bind` — a statement of one method.
-/

import Nixe.Call

set_option autoImplicit false

namespace Nixe.Call

variable {σ τ ε α α' β β' : Type}

/-- A method on a component of the state. -/
def focus (get : σ → τ) (set : σ → τ → σ) (c : Call τ ε α) : Call σ ε α := fun s =>
  ((c (get s)).1, set s (c (get s)).2)

theorem bind_bind (c : Call σ ε α) (f : α → Call σ ε α') (g : α' → Call σ ε β) :
    (c >>= f) >>= g = c >>= fun a => f a >>= g := by
  funext s
  rcases h : c s with ⟨out, s'⟩
  cases out <;> simp [h]

/-- **One call ends as the other does.**  Neither panics; if they return, the values and the states
are related by `Q`; if they fail, the error is the same and the states are related by `E`. -/
def Follows (c : Call σ ε α) (s : σ) (d : Call τ ε β) (t : τ) (Q : α → σ → β → τ → Prop)
    (E : σ → τ → Prop) : Prop :=
  match c s, d t with
  | (.ok a, s'), (.ok b, t') => Q a s' b t'
  | (.err e, s'), (.err e', t') => e = e' ∧ E s' t'
  | _, _ => False

namespace Follows

variable {c : Call σ ε α} {d : Call τ ε β} {s s' : σ} {t t' : τ} {Q : α → σ → β → τ → Prop}
  {E : σ → τ → Prop} {f : α → Call σ ε α'}

theorem of_ok {a : α} {b : β} (hc : c s = (.ok a, s')) (hd : d t = (.ok b, t'))
    (h : Q a s' b t') : Follows c s d t Q E := by
  simpa only [Follows, hc, hd] using h

theorem of_err {e : ε} (hc : c s = (.err e, s')) (hd : d t = (.err e, t')) (h : E s' t') :
    Follows c s d t Q E := by
  simp only [Follows, hc, hd]
  exact ⟨trivial, h⟩

theorem cases (h : Follows c s d t Q E) :
    (∃ a s' b t', c s = (.ok a, s') ∧ d t = (.ok b, t') ∧ Q a s' b t') ∨
      ∃ e s' t', c s = (.err e, s') ∧ d t = (.err e, t') ∧ E s' t' := by
  unfold Follows at h
  split at h
  · next a s' b t' hc hd => exact Or.inl ⟨a, s', b, t', hc, hd, h⟩
  · next e s' e' t' hc hd =>
      obtain ⟨rfl, hE⟩ := h
      exact .inr ⟨e, s', t', hc, hd, hE⟩
  · exact h.elim

theorem bind {g : β → Call τ ε β'} {Q' : α' → σ → β' → τ → Prop}
    (h : Follows c s d t Q E) (hnext : ∀ a s' b t', Q a s' b t' → Follows (f a) s' (g b) t' Q' E) :
    Follows (c >>= f) s (d >>= g) t Q' E := by
  rcases h.cases with ⟨a, s', b, t', hc, hd, h⟩ | ⟨e, s', t', hc, hd, h⟩
  · have hnext := hnext a s' b t' h
    simp only [Follows, bind_run, hc, hd] at hnext ⊢
    exact hnext
  · simp only [Follows, bind_run, hc, hd]
    exact ⟨trivial, h⟩

/-- A statement of the first method that returns. -/
theorem left_bind {a : α} {Q' : α' → σ → β → τ → Prop}
    (hc : c s = (.ok a, s')) (h : Follows (f a) s' d t Q' E) : Follows (c >>= f) s d t Q' E := by
  simp only [Follows, bind_run, hc] at h ⊢
  exact h

end Follows

end Nixe.Call
