/-
**Checked arithmetic on machine words.**

The counters and addresses of the program are `u32` and `u64` words, and nearly all of its
arithmetic is `checked_add`, `checked_mul` and the like.  The model keeps words as natural numbers
and states the limit in the operation.
-/

import Mathlib.Tactic

set_option autoImplicit false

namespace Nixe

/-- `u64::MAX`. -/
def u64Max : ℕ := 2 ^ 64 - 1

/-- `a.checked_add(b)` for `u64`. -/
def checkedAdd (a b : ℕ) : Option ℕ := if a + b ≤ u64Max then some (a + b) else none

/-- `a.checked_mul(b)` for `u64`. -/
def checkedMul (a b : ℕ) : Option ℕ := if a * b ≤ u64Max then some (a * b) else none

variable {a b : ℕ}

@[simp] theorem checkedAdd_eq_some {c : ℕ} : checkedAdd a b = some c ↔ a + b = c ∧ c ≤ u64Max := by
  unfold checkedAdd
  constructor
  · intro h
    split at h
    · cases h; exact ⟨rfl, by assumption⟩
    · cases h
  · rintro ⟨rfl, h⟩
    rw [if_pos h]

@[simp] theorem checkedAdd_eq_none : checkedAdd a b = none ↔ u64Max < a + b := by
  unfold checkedAdd
  split <;> simp <;> omega

@[simp] theorem checkedMul_eq_some {c : ℕ} : checkedMul a b = some c ↔ a * b = c ∧ c ≤ u64Max := by
  unfold checkedMul
  constructor
  · intro h
    split at h
    · cases h; exact ⟨rfl, by assumption⟩
    · cases h
  · rintro ⟨rfl, h⟩
    rw [if_pos h]

/-- `a.div_ceil(b)`. -/
def divCeil (a b : ℕ) : ℕ := if a % b = 0 then a / b else a / b + 1

/-- `1_u64.checked_shl(exponent)`. -/
def checkedShlOne (exponent : ℕ) : Option ℕ := if exponent < 64 then some (2 ^ exponent) else none

theorem div_lt_divCeil {i : ℕ} (hi : i < a) : i / b < divCeil a b := by
  unfold divCeil
  have hdiv : i / b ≤ a / b := Nat.div_le_div_right (by omega)
  split
  · next hmod =>
      refine Nat.div_lt_of_lt_mul ?_
      have := Nat.div_add_mod a b
      omega
  · omega

theorem mul_lt_of_lt_divCeil {i : ℕ} (h : i < divCeil a b) : i * b < a := by
  have hadd := Nat.div_add_mod' a b
  unfold divCeil at h
  split at h
  · next hmod =>
      have hle : (i + 1) * b ≤ a / b * b := Nat.mul_le_mul_right b h
      have hpos : 0 < b := by
        rcases eq_zero_or_pos b with rfl | hpos
        · simp at h
        · exact hpos
      rw [Nat.succ_mul] at hle
      omega
  · have hle : i * b ≤ a / b * b := Nat.mul_le_mul_right b (by omega)
    omega

theorem and_not_two_pow_sub_one {x : ℕ} (hx : x ≤ u64Max) (k : ℕ) :
    x &&& (u64Max ^^^ (2 ^ k - 1)) = 2 ^ k * (x / 2 ^ k) := by
  refine Nat.eq_of_testBit_eq fun i => ?_
  have hbit : 64 ≤ i → x.testBit i = false := by
    intro hi
    refine Nat.testBit_lt_two_pow (lt_of_le_of_lt hx ?_)
    calc u64Max < 2 ^ 64 := by decide
      _ ≤ 2 ^ i := Nat.pow_le_pow_right (by decide) hi
  rw [Nat.testBit_and, Nat.testBit_xor, u64Max, Nat.testBit_two_pow_sub_one,
    Nat.testBit_two_pow_sub_one, Nat.testBit_two_pow_mul, Nat.testBit_div_two_pow]
  by_cases hik : k ≤ i
  · have hsum : i - k + k = i := by omega
    by_cases hi : i < 64
    · simp [hik, hi]
    · simp [hsum, hbit (by omega)]
  · have hlt : i < k := by omega
    by_cases hi : i < 64
    · simp [hlt, hi]
    · simp [hlt, hbit (by omega)]

end Nixe
