/-
**The funnel shift of the guest.**

`shf` shifts a pair of registers and keeps one word: it packs the pair into a 64-bit value, wraps
or clamps the amount, emits one 64-bit shift and takes a half of the result.  Its wrap mask is one
less than its clamp bound.  For 32-bit data that is 31, but for 64-bit data it is 62, which drops
the lowest bit of the amount.

Main definitions:
* `shf` — the source's translation, with the emitted instructions evaluated.
* `effective`, `funnel` — the amount and the word that the guest is promised.

Main results:
* `shf_exact_iff` — the shift is always defined, and its word is exact for every pair unless a
  64-bit data type wraps an odd amount.
-/
import Nixe.ShaderInt64

set_option autoImplicit false

namespace Nixe.Shader

open Emitted BitVec

/-! ### The translation -/

abbrev Instruction := BitVec 64

namespace Instruction

def field (i : Instruction) (start width : ℕ) : ℕ := (i.extractLsb' start width).toNat

def bit (i : Instruction) (start : ℕ) : Bool := i.field start 1 ≠ 0

end Instruction

def Emitted.uMin : Emitted → Emitted → Emitted := binary fun a b => some (if a ≤ b then a else b)

def packUint2x32 (pair : Emitted × Emitted) : Option (BitVec 64) :=
  return (← pair.2.word) ++ (← pair.1.word)

def unpackUint2x32 (value : Option (BitVec 64)) : Emitted × Emitted :=
  ({ word := low <$> value }, { word := high <$> value })

/-- A 64-bit shift is defined for amounts below 64. -/
def shift64 (op : Shift) (base : Option (BitVec 64)) (amount : Emitted) : Option (BitVec 64) := do
  let amount := (← amount.word).toNat
  if amount < 64 then op.apply (← base) amount else none

/-- The word that is written, by the values of the source operand and of the two registers. -/
def shf (i : Instruction) (right : Bool) (source low high : Word) : Except String Emitted := do
  let shift := u32 source
  if i.bit 47 then throw "SHF CC"
  if i.field 48 2 ≠ 0 then throw "SHF X Mode"
  let mode := i.field 37 2
  if mode = 1 then throw "SHF undefined MaxShift"
  let packed := packUint2x32 (u32 low, u32 high)
  let max : Word := if mode = 0 then 32 else 63
  let safe := if i.bit 50 then bitwiseAnd shift (u32 (max - 1)) else uMin shift (u32 max)
  let shifted :=
    if !right then shift64 .leftLogical packed safe
    else if mode = 3 then shift64 .rightArithmetic packed safe
    else shift64 .rightLogical packed safe
  let pair := unpackUint2x32 shifted
  return if right then pair.1 else pair.2

/-! ### What the guest is promised -/

/-- The instruction is one that is translated. -/
def Accepted (i : Instruction) : Prop :=
  i.bit 47 = false ∧ i.field 48 2 = 0 ∧ i.field 37 2 ≠ 1

/-- The amount of the shift: modes other than zero are the 64-bit data types. -/
def effective (mode : ℕ) (wrap : Bool) (amount : ℕ) : ℕ :=
  if wrap then amount % (if mode = 0 then 32 else 64) else min amount (if mode = 0 then 32 else 63)

def funnel (right signed : Bool) (pair : BitVec 64) (amount : ℕ) : Word :=
  if right then low (if signed then pair.sshiftRight amount else pair >>> amount)
  else high (pair <<< amount)

/-! ### The amount that is applied -/

theorem toNat_and_62 (a : Word) : (a &&& 62#32).toNat = a.toNat % 64 - a.toNat % 2 := by
  have hall : ∀ k < 64, k &&& 62 = k - k % 2 := by decide
  calc (a &&& 62#32).toNat = a.toNat &&& (2 ^ 6 - 1 &&& 62) := toNat_and ..
    _ = a.toNat % 64 &&& 62 := by rw [← Nat.and_assoc, Nat.and_two_pow_sub_one_eq_mod]
    _ = a.toNat % 64 - a.toNat % 64 % 2 := hall _ (Nat.mod_lt _ (by decide))
    _ = a.toNat % 64 - a.toNat % 2 := by omega

theorem toNat_and_31 (a : Word) : (a &&& 31#32).toNat = a.toNat % 32 :=
  (toNat_and ..).trans (Nat.and_two_pow_sub_one_eq_mod a.toNat 5)

/-- The amount that `shf` applies: the mask 62 takes an odd amount's lowest bit. -/
def applied (mode : ℕ) (wrap : Bool) (amount : ℕ) : ℕ :=
  effective mode wrap amount - if wrap ∧ mode ≠ 0 then amount % 2 else 0

theorem applied_lt (mode : ℕ) (wrap : Bool) (amount : ℕ) : applied mode wrap amount < 64 := by
  unfold applied effective
  split <;> split <;> omega

theorem safe_eq (mode : ℕ) (wrap : Bool) (a : Word) :
    (if wrap then bitwiseAnd (u32 a) (u32 ((if mode = 0 then 32 else 63) - 1))
      else uMin (u32 a) (u32 (if mode = 0 then 32 else 63))) =
      u32 (.ofNat 32 (applied mode wrap a.toNat)) := by
  have hof {b : Word} {n : ℕ} (h : b.toNat = n) : u32 b = u32 (.ofNat 32 n) := by simp [← h]
  cases wrap <;> by_cases hmode : mode = 0 <;> simp [applied, effective, hmode]
  · exact hof (by grind [le_def])
  · exact hof (by grind [le_def])
  · exact hof (toNat_and_31 a)
  · exact hof (toNat_and_62 a)

variable {i : Instruction} {right : Bool}

/-- **The translation is the funnel shift by the applied amount.** -/
theorem shf_eq (hok : Accepted i) (source lo hi : Word) :
    shf i right source lo hi = .ok (u32 (funnel right (i.field 37 2 = 3) (hi ++ lo)
      (applied (i.field 37 2) (i.bit 50) source.toNat))) := by
  obtain ⟨hcc, hx, hmode⟩ := hok
  have hlt := applied_lt (i.field 37 2) (i.bit 50) source.toNat
  have hshift (op : Shift) (n : ℕ) (hn : n < 64) :
      shift64 op (packUint2x32 (u32 lo, u32 hi)) (u32 (.ofNat 32 n)) =
        some (op.apply (hi ++ lo) n) := by
    have hnat : (BitVec.ofNat 32 n).toNat = n := Nat.mod_eq_of_lt (by omega)
    refine (if_pos (by rwa [hnat])).trans ?_
    rw [hnat]
    rfl
  simp only [shf, hcc, hx, hmode, safe_eq, hshift _ _ hlt]
  cases right with
  | false => rfl
  | true => by_cases hsigned : i.field 37 2 = 3 <;> simp [hsigned] <;> rfl

/-- A shift by one less differs on some pair. -/
theorem funnel_pred_ne (right signed : Bool) {n : ℕ} (hn : n < 64) (hodd : n % 2 = 1) :
    ∃ lo hi : Word, funnel right signed (hi ++ lo) (n - 1) ≠ funnel right signed (hi ++ lo) n := by
  have hall : ∀ right signed, ∀ k < 64, k % 2 = 1 →
      let pair : BitVec 64 := .twoPow 64 (if right then k - 1 else 63 - k)
      funnel right signed (high pair ++ low pair) (k - 1) ≠
        funnel right signed (high pair ++ low pair) k := by decide +kernel
  exact ⟨_, _, hall right signed n hn hodd⟩

/-- **The funnel shift is always defined, and exact unless a 64-bit type wraps an odd amount.** -/
theorem shf_exact_iff (hok : Accepted i) (right : Bool) (amount : Word) :
    (∀ lo hi, ∃ word, shf i right amount lo hi = .ok (u32 word)) ∧
    ((∀ lo hi, shf i right amount lo hi = .ok (u32 (funnel right (i.field 37 2 = 3) (hi ++ lo)
        (effective (i.field 37 2) (i.bit 50) amount.toNat)))) ↔
      ¬ (i.bit 50 ∧ i.field 37 2 ≠ 0 ∧ amount.toNat % 2 = 1)) := by
  simp only [shf_eq hok]
  refine ⟨fun lo hi => ⟨_, rfl⟩, fun h ⟨hwrap, hmode, hodd⟩ => ?_, fun h lo hi => ?_⟩
  · have heff : effective (i.field 37 2) (i.bit 50) amount.toNat = amount.toNat % 64 := by
      simp [effective, hwrap, hmode]
    obtain ⟨lo, hi, hne⟩ := funnel_pred_ne right _
      (Nat.mod_lt amount.toNat (by decide : 0 < 64)) (by omega)
    specialize h lo hi
    rw [applied, heff, if_pos ⟨hwrap, hmode⟩, hodd] at h
    exact hne (by simpa [u32] using h)
  · rw [applied]
    split
    · rw [show amount.toNat % 2 = 0 by grind, Nat.sub_zero]
    · rfl

/-- A right shift of 64-bit data that wraps. -/
def shfRightWrap : Instruction := 0x0004004000000000

theorem shf_exact_iff_right_wrap : shf shfRightWrap true 4 16 1 = .ok (u32 0x10000001) :=
  (shf_exact_iff ⟨rfl, rfl, by decide⟩ true 4).2.2 (by decide) 16 1

/-- An amount of one leaves the pair as it is. -/
theorem shf_right_wrap_one : shf shfRightWrap true 1 1 0 = .ok (u32 1) ∧
    funnel true false (0#32 ++ 1#32) (effective 2 true 1) = 0 := ⟨rfl, rfl⟩

end Nixe.Shader
