/-
**Calls of methods that mutate, fail and panic.**

The methods of the program take `&mut self` and return a `Result`; some of their checks are
`expect`s or `debug_assert!`s, which stop the program.  `Call σ ε α` is the type of such a method on
states `σ` with errors `ε`: it ends in a value, an error or a panic, and leaves a state behind in
each of the three cases.  A method that writes and only then fails is not repaired by the model:
that an error leaves the state alone is a fact to be proved about each method.

Main definitions:

* `Outcome`, `Call` — the three ways to end, and the monad of methods;
* `okOr`, `expect`, `debugAssert` — `ok_or(e)?`, `expect(..)` and `debug_assert!`;
* `Ensures` — a call does not panic, and what it ensures with a value and with an error;
* `Spec` — what holds of the outcome and of the state left behind, panics included.

Main results:

* `Ensures.bind`, `spec_bind` — the sequencing rules of the two notions;
* `spec_okOr`, `spec_expect`, … — the verification conditions of the statements.
-/

import Mathlib.Tactic

set_option autoImplicit false

namespace Nixe

/-- How a call ends: with a value, with an error for the caller, or with a panic. -/
inductive Outcome (ε α : Type) where
  | ok (value : α)
  | err (error : ε)
  | panic (message : String)
deriving DecidableEq, Repr

/-- The call stopped the program. -/
def Outcome.isPanic {ε α : Type} : Outcome ε α → Bool
  | .panic _ => true
  | _ => false

variable {ε α : Type} {m : String} {b : Bool} {o : Option α}

@[simp] theorem Outcome.isPanic_ok (a : α) : (ok a : Outcome ε α).isPanic = false := rfl

@[simp] theorem Outcome.isPanic_err (e : ε) : (err e : Outcome ε α).isPanic = false := rfl

@[simp] theorem Outcome.isPanic_panic (m : String) : (panic m : Outcome ε α).isPanic = true := rfl

def Outcome.value {ε α : Type} : Outcome ε α → Option α
  | .ok a => some a
  | _ => none

theorem Outcome.value_eq_some {out : Outcome ε α} {a : α} : out.value = some a ↔ out = .ok a := by
  cases out with
  | ok | err | panic => simp [value]

/-- A method on states `σ` with errors `ε` and results `α`. -/
def Call (σ ε α : Type) : Type := σ → Outcome ε α × σ

namespace Call

variable {σ ε α β ε' : Type} {r : Except ε α} {c : Call σ ε α} {Q Q' : α → σ → Prop}
  {E : ε → σ → Prop} {f : α → Call σ ε β}

/-- One method after the other; an error or a panic of the first ends both. -/
def bind (c : Call σ ε α) (f : α → Call σ ε β) : Call σ ε β := fun s =>
  match c s with
  | (.ok a, s') => f a s'
  | (.err e, s') => (.err e, s')
  | (.panic m, s') => (.panic m, s')

instance : Monad (Call σ ε) where
  pure a := fun s => (.ok a, s)
  bind := bind

def read : Call σ ε σ := fun s => (.ok s, s)

/-- Replacing the state by its image under `f`. -/
def update (f : σ → σ) : Call σ ε Unit := fun s => (.ok (), f s)

/-- `return Err(e)`. -/
def fail (e : ε) : Call σ ε α := fun s => (.err e, s)

/-- `if b { return Err(e); }`. -/
def failIf (b : Bool) (e : ε) : Call σ ε Unit := fun s => if b then (.err e, s) else (.ok (), s)

/-- `if let Some(e) = o { return Err(e); }`. -/
def failWith (o : Option ε) : Call σ ε Unit := fun s =>
  match o with
  | some e => (.err e, s)
  | none => (.ok (), s)

/-- `if let Some(a) = o { f(a); }`. -/
def ifSome (o : Option α) (f : α → Call σ ε Unit) : Call σ ε Unit :=
  match o with
  | some a => f a
  | none => fun s => (.ok (), s)

/-- `o.ok_or(e)?`. -/
def okOr (o : Option α) (e : ε) : Call σ ε α := fun s =>
  match o with
  | some a => (.ok a, s)
  | none => (.err e, s)

/-- `o.expect(m)`. -/
def expect (o : Option α) (m : String) : Call σ ε α := fun s =>
  match o with
  | some a => (.ok a, s)
  | none => (.panic m, s)

/-- `debug_assert!(b)`, in a build with the assertions on. -/
def debugAssert (b : Bool) (m : String) : Call σ ε Unit := fun s =>
  if b then (.ok (), s) else (.panic m, s)

/-- `r?` for a computation `r` that does not touch the state. -/
def ofExcept (r : Except ε α) : Call σ ε α := fun s =>
  match r with
  | .ok a => (.ok a, s)
  | .error e => (.err e, s)

/-- A method without errors of a component of the state. -/
def zoom {τ : Type} (get : σ → τ) (set : σ → τ → σ) (c : Call τ Empty α) : Call σ ε α := fun s =>
  match c (get s) with
  | (.ok a, t) => (.ok a, set s t)
  | (.err e, _) => e.elim
  | (.panic m, t) => (.panic m, set s t)

/-- `match c() { Err(e) => h(e), Ok(a) => f(a) }`. -/
def handle {ε' : Type} (c : Call σ ε α) (h : ε → Call σ ε' β) (f : α → Call σ ε' β) :
    Call σ ε' β := fun s =>
  match c s with
  | (.ok a, s') => f a s'
  | (.err e, s') => h e s'
  | (.panic m, s') => (.panic m, s')

/-- `c().map_err(g)`. -/
def mapErr {ε' : Type} (g : ε → ε') (c : Call σ ε α) : Call σ ε' α :=
  handle c (fun e => fail (g e)) pure

/-- `let _ = c();`. -/
def ignore {ε' : Type} (c : Call σ ε α) : Call σ ε' Unit :=
  handle c (fun _ => pure ()) fun _ => pure ()

/-- `let r = c();`, with the error as a value. -/
def outcome {ε' : Type} (c : Call σ ε α) : Call σ ε' (Outcome ε α) :=
  handle c (fun e => pure (.err e)) fun a => pure (.ok a)

/-- `let r = c(); d()?; r`. -/
def afterwards (c : Call σ ε α) (d : Call σ ε Unit) : Call σ ε α :=
  handle c (fun e => d >>= fun _ => fail e) fun a => d >>= fun _ => pure a

/-! ### Running the statements of a method -/

section Running

variable (a : α) (e : ε) (m : String) (s : σ)

@[simp] theorem pure_run : (pure a : Call σ ε α) s = (.ok a, s) := rfl

@[simp] theorem bind_run (c : Call σ ε α) (f : α → Call σ ε β) : (c >>= f) s = match c s with
      | (.ok a, s') => f a s'
      | (.err e, s') => (.err e, s')
      | (.panic m, s') => (.panic m, s') := rfl

@[simp] theorem read_run : (read : Call σ ε σ) s = (.ok s, s) := rfl

@[simp] theorem update_run (f : σ → σ) : (update f : Call σ ε Unit) s = (.ok (), f s) := rfl

@[simp] theorem fail_run : (fail e : Call σ ε α) s = (.err e, s) := rfl

@[simp] theorem failIf_true : (failIf true e : Call σ ε Unit) s = (.err e, s) := rfl

@[simp] theorem failIf_false : (failIf false e : Call σ ε Unit) s = (.ok (), s) := rfl

@[simp] theorem failWith_some : (failWith (some e) : Call σ ε Unit) s = (.err e, s) := rfl

@[simp] theorem failWith_none : (failWith none : Call σ ε Unit) s = (.ok (), s) := rfl

@[simp] theorem ifSome_some (f : α → Call σ ε Unit) : ifSome (some a) f s = f a s := rfl

@[simp] theorem ifSome_none (f : α → Call σ ε Unit) :
    ifSome (none : Option α) f s = (.ok (), s) := rfl

@[simp] theorem okOr_some : (okOr (some a) e : Call σ ε α) s = (.ok a, s) := rfl

@[simp] theorem okOr_none : (okOr none e : Call σ ε α) s = (.err e, s) := rfl

@[simp] theorem expect_some : (expect (some a) m : Call σ ε α) s = (.ok a, s) := rfl

@[simp] theorem expect_none : (expect none m : Call σ ε α) s = (.panic m, s) := rfl

@[simp] theorem debugAssert_true : (debugAssert true m : Call σ ε Unit) s = (.ok (), s) := rfl

@[simp] theorem debugAssert_false : (debugAssert false m : Call σ ε Unit) s = (.panic m, s) := rfl

@[simp] theorem ofExcept_ok : (ofExcept (.ok a) : Call σ ε α) s = (.ok a, s) := rfl

@[simp] theorem ofExcept_error : (ofExcept (.error e) : Call σ ε α) s = (.err e, s) := rfl

end Running

/-- The parts of a computation that succeeds succeed. -/
theorem except_bind_eq_ok {f : α → Except ε β} {b : β} :
    (r >>= f) = .ok b ↔ ∃ a, r = .ok a ∧ f a = .ok b := by
  cases r with
  | error | ok => simp [Bind.bind, Except.bind]

/-! ### Postconditions -/

/-- The call does not panic; a value comes with a state that satisfies `Q`, an error with one that
satisfies `E`. -/
def Ensures (c : Call σ ε α) (s : σ) (Q : α → σ → Prop) (E : ε → σ → Prop) : Prop :=
  match c s with
  | (.ok a, s') => Q a s'
  | (.err e, s') => E e s'
  | (.panic _, _) => False

variable {s : σ} {a : α} {e : ε}

theorem Ensures.not_panic (h : Ensures c s Q E) : (c s).1.isPanic = false := by
  unfold Ensures at h
  rcases hc : c s with ⟨out, t⟩
  rw [hc] at h
  cases out with
  | ok => rfl
  | err => rfl
  | panic => exact h.elim

/-- A call that does not panic ends in a value or in an error. -/
theorem Ensures.ok_or_err (h : Ensures c s Q E) :
    (∃ a, (c s).1 = .ok a ∧ Q a (c s).2) ∨ ∃ e, (c s).1 = .err e ∧ E e (c s).2 := by
  unfold Ensures at h
  rcases hc : c s with ⟨out, t⟩
  rw [hc] at h
  cases out with
  | ok a => exact .inl ⟨a, rfl, h⟩
  | err e => exact .inr ⟨e, rfl, h⟩
  | panic => exact h.elim

/-- What is ensured of a call that returned a value. -/
theorem Ensures.of_ok {t : σ} (h : Ensures c s Q E) (hrun : c s = (.ok a, t)) : Q a t := by
  rwa [Ensures, hrun] at h

/-- What holds of the state left behind, whether the call ends in a value or in an error. -/
theorem Ensures.state {P : σ → Prop} (h : Ensures c s Q E) (hQ : ∀ a t, Q a t → P t)
    (hE : ∀ e t, E e t → P t) : P (c s).2 := by
  unfold Ensures at h
  rcases hc : c s with ⟨out, t⟩
  rw [hc] at h
  cases out with
  | ok a => exact hQ a t h
  | err e => exact hE e t h
  | panic => exact h.elim

theorem Ensures.imp {E' : ε → σ → Prop} (h : Ensures c s Q E)
    (hQ : ∀ a t, Q a t → Q' a t) (hE : ∀ e t, E e t → E' e t) : Ensures c s Q' E' := by
  unfold Ensures at h ⊢
  rcases hc : c s with ⟨out, t⟩
  rw [hc] at h
  cases out with
  | ok a => exact hQ a t h
  | err e => exact hE e t h
  | panic => exact h

theorem Ensures.mono (h : Ensures c s Q E) (hQ : ∀ a t, Q a t → Q' a t) : Ensures c s Q' E :=
  h.imp hQ fun _ _ he => he

theorem Ensures.bind {Q : β → σ → Prop} (h : Ensures c s (fun a t => Ensures (f a) t Q E) E) :
    Ensures (c >>= f) s Q E := by
  unfold Ensures at h ⊢
  rw [bind_run]
  rcases hc : c s with ⟨out, t⟩
  rw [hc] at h
  cases out with
  | ok | err | panic => exact h

/-- The sequencing rule with the condition between the two calls. -/
theorem Ensures.seq {Q' : β → σ → Prop} (h : Ensures c s Q E)
    (hf : ∀ a t, Q a t → Ensures (f a) t Q' E) : Ensures (c >>= f) s Q' E :=
  .bind (h.mono hf)

theorem Ensures.pure (h : Q a s) : Ensures (Pure.pure a) s Q E := h

theorem Ensures.read {f : σ → Call σ ε α} (h : Ensures (f s) s Q E) :
    Ensures (read >>= f) s Q E := h

theorem Ensures.update {f : σ → σ} {c : Unit → Call σ ε α} (h : Ensures (c ()) (f s) Q E) :
    Ensures (update f >>= c) s Q E := h

theorem Ensures.expect {Q : β → σ → Prop} (h : Ensures (f a) s Q E) :
    Ensures (expect (some a) m >>= f) s Q E := h

theorem Ensures.failIf {f : Unit → Call σ ε β} {Q : β → σ → Prop}
    (h : b = false → Ensures (f ()) s Q E)
    (hE : b = true → E e s := by intro; first | rfl | assumption | trivial) :
    Ensures (failIf b e >>= f) s Q E := by
  cases b with
  | true => exact hE rfl
  | false => exact h rfl

variable {o : Option α}

theorem Ensures.okOr {Q : β → σ → Prop} (h : ∀ a, o = some a → Ensures (f a) s Q E)
    (hE : o = none → E e s := by intro; first | rfl | assumption | trivial) :
    Ensures (okOr o e >>= f) s Q E := by
  cases o with
  | none => exact hE rfl
  | some a => exact h a rfl

theorem Ensures.okOr_some {Q : β → σ → Prop} (ho : o = some a) (h : Ensures (f a) s Q E) :
    Ensures (Call.okOr o e >>= f) s Q E := by
  subst ho
  exact h

theorem Ensures.ofExcept {Q : β → σ → Prop} (h : ∀ a, r = .ok a → Ensures (f a) s Q E)
    (hE : ∀ e, r = .error e → E e s := by intro _ _; first | rfl | assumption) :
    Ensures (ofExcept r >>= f) s Q E := by
  cases r with
  | error e => exact hE e rfl
  | ok a => exact h a rfl

theorem Ensures.debugAssert {f : Unit → Call σ ε β} {Q : β → σ → Prop} (hb : b = true)
    (h : Ensures (f ()) s Q E) : Ensures (debugAssert b m >>= f) s Q E := by
  subst hb
  exact h

theorem Ensures.zoom {τ : Type} {get : σ → τ} {set : σ → τ → σ} {c : Call τ Empty α}
    (h : Ensures c (get s) (fun a t => Q a (set s t)) fun _ _ => False) :
    Ensures (zoom get set c) s Q E := by
  unfold Ensures at h ⊢
  unfold Call.zoom
  rcases hc : c (get s) with ⟨out, t⟩
  rw [hc] at h
  cases out with
  | ok | panic => exact h
  | err e => exact e.elim

theorem Ensures.handle {c : Call σ ε' β} {h : ε' → Call σ ε α} {f : β → Call σ ε α}
    (hc : Ensures c s (fun b t => Ensures (f b) t Q E) fun e t => Ensures (h e) t Q E) :
    Ensures (handle c h f) s Q E := by
  unfold Ensures at hc ⊢
  unfold Call.handle
  rcases hrun : c s with ⟨out, t⟩
  rw [hrun] at hc
  cases out with
  | ok | err | panic => exact hc

theorem Ensures.mapErr {g : ε → ε'} {E : ε' → σ → Prop} (h : Ensures c s Q fun e => E (g e)) :
    Ensures (mapErr g c) s Q E :=
  .handle h

theorem Ensures.ignore {c : Call σ ε' α} {Q : Unit → σ → Prop}
    (h : Ensures c s (fun _ => Q ()) fun _ => Q ()) : Ensures (ignore c) s Q E :=
  .handle h

theorem Ensures.outcome {c : Call σ ε' α} {Q : Outcome ε' α → σ → Prop}
    (h : Ensures c s (fun a => Q (.ok a)) fun e => Q (.err e)) : Ensures (outcome c) s Q E :=
  .handle h

theorem Ensures.afterwards {d : Call σ ε Unit}
    (h : Ensures c s (fun a t => Ensures d t (fun _ => Q a) E)
      fun e t => Ensures d t (fun _ => E e) E) : Ensures (afterwards c d) s Q E := by
  refine .handle (h.imp (fun a t hd => ?_) fun e t hd => ?_)
  · exact .bind (hd.mono fun _ _ hq => hq)
  · exact .bind (hd.mono fun _ _ hq => hq)

/-! ### Failure atomicity

A method that checks first and writes afterwards leaves the state alone when it returns an error.
The rules follow that shape: checks in front, and no error behind the first write. -/

/-- The call writes nothing. -/
def Reads (c : Call σ ε α) : Prop := ∀ s, (c s).2 = s

/-- The call returns no error. -/
def Unfailing (c : Call σ ε α) : Prop := ∀ s e, (c s).1 ≠ .err e

/-- **An error leaves the state as it was.** -/
def Atomic (c : Call σ ε α) : Prop := ∀ s e, (c s).1 = .err e → (c s).2 = s

theorem reads_failIf : Reads (failIf b e : Call σ ε Unit) := by
  intro s
  cases b <;> rfl

theorem reads_failWith {o : Option ε} : Reads (failWith o : Call σ ε Unit) := by
  intro s
  cases o <;> rfl

theorem reads_okOr : Reads (okOr o e : Call σ ε α) := by
  intro s
  cases o <;> rfl

theorem reads_expect : Reads (expect o m : Call σ ε α) := by
  intro s
  cases o <;> rfl

theorem Reads.bind (hc : Reads c) (hf : ∀ a, Reads (f a)) : Reads (c >>= f) := by
  intro s
  have hs := hc s
  rw [bind_run]
  rcases hrun : c s with ⟨out, t⟩
  rw [hrun] at hs
  obtain rfl : t = s := hs
  cases out with
  | ok a => exact hf a t
  | err => rfl
  | panic => rfl

theorem unfailing_expect : Unfailing (expect o m : Call σ ε α) := by
  intro s e
  cases o <;> exact fun h => nomatch h

theorem unfailing_debugAssert : Unfailing (debugAssert b m : Call σ ε Unit) := by
  intro s e
  cases b <;> exact fun h => nomatch h

theorem Unfailing.ifSome {f : α → Call σ ε Unit} (hf : ∀ a, Unfailing (f a)) :
    Unfailing (ifSome o f) := by
  cases o with
  | none => exact fun _ _ h => nomatch h
  | some a => exact hf a

theorem Unfailing.bind (hc : Unfailing c) (hf : ∀ a, Unfailing (f a)) : Unfailing (c >>= f) := by
  intro s e
  have hs := hc s
  rw [bind_run]
  rcases hrun : c s with ⟨out, t⟩
  rw [hrun] at hs
  cases out with
  | ok a => exact hf a t e
  | err e' => exact absurd rfl (hs e')
  | panic => exact fun h => nomatch h

theorem Unfailing.pure : Unfailing (Pure.pure a : Call σ ε α) := fun _ _ h => nomatch h

theorem Unfailing.read {f : σ → Call σ ε α} (hf : ∀ s, Unfailing (f s)) :
    Unfailing (read >>= f) := fun s => hf s s

theorem Unfailing.update {g : σ → σ} {f : Unit → Call σ ε α} (hf : Unfailing (f ())) :
    Unfailing (update g >>= f) := fun s => hf (g s)

theorem Unfailing.expect (hf : ∀ a, Unfailing (f a)) : Unfailing (expect o m >>= f) :=
  .bind unfailing_expect hf

theorem Unfailing.atomic (hc : Unfailing c) : Atomic c :=
  fun s e h => absurd h (hc s e)

theorem Atomic.check (hc : Reads c) (hf : ∀ a, Atomic (f a)) : Atomic (c >>= f) := by
  intro s e
  have hs := hc s
  rw [bind_run]
  rcases hrun : c s with ⟨out, t⟩
  rw [hrun] at hs
  obtain rfl : t = s := hs
  cases out with
  | ok a => exact hf a t e
  | err => exact fun _ => rfl
  | panic => exact fun h => nomatch h

theorem Atomic.read {f : σ → Call σ ε α} (hf : ∀ s, Atomic (f s)) : Atomic (read >>= f) :=
  fun s => hf s s

theorem Atomic.okOr (hf : ∀ a, Atomic (f a)) : Atomic (okOr o e >>= f) :=
  .check reads_okOr hf

theorem Atomic.failIf {f : Unit → Call σ ε α} (hf : Atomic (f ())) : Atomic (failIf b e >>= f) :=
  .check reads_failIf fun _ => hf

theorem Atomic.commit (hc : Atomic c) (hf : ∀ a, Unfailing (f a)) : Atomic (c >>= f) := by
  intro s e
  have hs := hc s
  rw [bind_run]
  rcases hrun : c s with ⟨out, t⟩
  rw [hrun] at hs
  cases out with
  | ok a => exact fun h => absurd h (hf a t e)
  | err e' => exact fun _ => hs e' rfl
  | panic => exact fun h => nomatch h

/-! ### Verification conditions

`Spec` is the postcondition of a call whatever its outcome is.  The rules below are oriented for the
simplifier: they turn the text of a method into the conditions at its exits. -/

/-- The outcome of the call satisfies `Q`, together with the state left behind. -/
def Spec (c : Call σ ε α) (s : σ) (Q : Outcome ε α → σ → Prop) : Prop := Q (c s).1 (c s).2

section Spec

variable (s : σ) (Q : Outcome ε α → σ → Prop) (U : Outcome ε Unit → σ → Prop)

@[simp] theorem spec_pure (a : α) : Spec (pure a) s Q ↔ Q (.ok a) s := Iff.rfl

@[simp] theorem spec_bind (c : Call σ ε β) (f : β → Call σ ε α) :
    Spec (c >>= f) s Q ↔ Spec c s (fun out t => match out with
      | .ok b => Spec (f b) t Q
      | .err e => Q (.err e) t
      | .panic m => Q (.panic m) t) := by
  unfold Spec
  rw [bind_run]
  rcases hc : c s with ⟨out, t⟩
  cases out <;> rfl

@[simp] theorem spec_read (Q : Outcome ε σ → σ → Prop) : Spec read s Q ↔ Q (.ok s) s := Iff.rfl

@[simp] theorem spec_update (f : σ → σ) : Spec (update f) s U ↔ U (.ok ()) (f s) := Iff.rfl

@[simp] theorem spec_failIf (b : Bool) (e : ε) :
    Spec (failIf b e) s U ↔ (b = true → U (.err e) s) ∧ (b = false → U (.ok ()) s) := by
  cases b <;> simp [Spec]

@[simp] theorem spec_failWith (o : Option ε) :
    Spec (failWith o) s U ↔ (∀ e, o = some e → U (.err e) s) ∧ (o = none → U (.ok ()) s) := by
  cases o <;> simp [Spec]

@[simp] theorem spec_ifSome (o : Option β) (f : β → Call σ ε Unit) : Spec (ifSome o f) s U ↔
      (∀ b, o = some b → Spec (f b) s U) ∧ (o = none → U (.ok ()) s) := by
  cases o <;> simp [Spec]

@[simp] theorem spec_okOr (o : Option α) (e : ε) :
    Spec (okOr o e) s Q ↔ (∀ a, o = some a → Q (.ok a) s) ∧ (o = none → Q (.err e) s) := by
  cases o <;> simp [Spec]

@[simp] theorem spec_expect (o : Option α) (m : String) :
    Spec (expect o m) s Q ↔ (∀ a, o = some a → Q (.ok a) s) ∧ (o = none → Q (.panic m) s) := by
  cases o <;> simp [Spec]

@[simp] theorem spec_debugAssert (b : Bool) (m : String) : Spec (debugAssert b m) s U ↔
      (b = true → U (.ok ()) s) ∧ (b = false → U (.panic m) s) := by
  cases b <;> simp [Spec]

end Spec

end Call

end Nixe
