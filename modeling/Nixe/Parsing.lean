/-
**Parsers.**

A parser is given bytes and ends in a value, in an error for the caller, or in a panic.  This module
has the statements that parsers are made of — tests that reject, lookups that reject or panic —
and reads from byte strings: slices, and little-endian words.

Main definitions:

* the `Monad` instance of `Outcome`;
* `rejectIf`, `orReject`, `orPanic` — the statements;
* `slice?`, `leNat` — parts of byte strings, and their values.

Main results:

* `bind_eq_ok` — a parser that accepts, accepts in all its parts;
* `rejectIf_eq_ok`, `orReject_eq_ok`, `orPanic_eq_ok` — the same for the statements.
-/

import Nixe.Call

set_option autoImplicit false

namespace Nixe

namespace Outcome

variable {ε α β : Type}

instance : Monad (Outcome ε) where
  pure := .ok
  bind x f :=
    match x with
    | .ok a => f a
    | .err e => .err e
    | .panic m => .panic m

/-- `if b { return Err(e); }`. -/
def rejectIf (b : Bool) (e : ε) : Outcome ε Unit := if b then .err e else .ok ()

/-- `o.ok_or(e)?`. -/
def orReject (o : Option α) (e : ε) : Outcome ε α :=
  match o with
  | some a => .ok a
  | none => .err e

/-- `o.expect(m)`, and an index or a slice that panics. -/
def orPanic (o : Option α) (m : String) : Outcome ε α :=
  match o with
  | some a => .ok a
  | none => .panic m

/-- A parser that accepts, accepts in all its parts. -/
theorem bind_eq_ok {x : Outcome ε α} {f : α → Outcome ε β} {b : β} :
    (x >>= f) = .ok b ↔ ∃ a, x = .ok a ∧ f a = .ok b := by
  cases x with
  | ok | err | panic => simp [Bind.bind]

theorem pure_eq_ok {a b : α} : (pure a : Outcome ε α) = .ok b ↔ a = b := by
  simp [Pure.pure]

theorem rejectIf_eq_ok {b : Bool} {e : ε} {u : Unit} : rejectIf b e = .ok u ↔ b = false := by
  cases b with
  | true | false => simp [rejectIf]

theorem orReject_eq_ok {o : Option α} {e : ε} {a : α} : orReject o e = .ok a ↔ o = some a := by
  cases o with
  | none | some => simp [orReject]

theorem orPanic_eq_ok {o : Option α} {m : String} {a : α} :
    (orPanic o m : Outcome ε α) = .ok a ↔ o = some a := by
  cases o with
  | none | some => simp [orPanic]

end Outcome

namespace Parsing

/-- `bytes.get(start..stop)`. -/
def slice? (bytes : List UInt8) (start stop : ℕ) : Option (List UInt8) :=
  if start ≤ stop ∧ stop ≤ bytes.length then some ((bytes.take stop).drop start) else none

theorem length_of_slice? {bytes part : List UInt8} {start stop : ℕ}
    (h : slice? bytes start stop = some part) :
    part.length = stop - start ∧ start ≤ stop ∧ stop ≤ bytes.length := by
  unfold slice? at h
  split at h
  · next hbounds =>
      cases h
      rw [List.length_drop, List.length_take]
      omega
  · cases h

/-- The value of little-endian bytes. -/
def leNat : List UInt8 → ℕ
  | [] => 0
  | byte :: bytes => byte.toNat + 256 * leNat bytes

/-- `u32::from_le_bytes`. -/
def leU32 (bytes : List UInt8) : UInt32 := UInt32.ofNat (leNat bytes)

/-- `u64::from_le_bytes`. -/
def leU64 (bytes : List UInt8) : UInt64 := UInt64.ofNat (leNat bytes)

def trailingOnes (word : UInt32) : ℕ :=
  ((List.range 32).takeWhile fun i => word.toBitVec.getLsbD i).length

/-- The words of a byte string; what is left over is dropped. -/
def leWords : List UInt8 → List UInt32
  | a :: b :: c :: d :: rest => leU32 [a, b, c, d] :: leWords rest
  | _ => []

end Parsing

end Nixe
