/-
**The lowering of 64-bit integers to pairs of words.**

`lowerInt64` replaces 64-bit operations by sequences of 32-bit instructions on the low and the
high word.  A shift computes a short variant, a long variant and the unshifted words, and selects
among them: whatever the amount, some of the instructions it emits are applied outside their
defined range, and the selection must not depend on those.  An emitted instruction is therefore
read as a value that may be undefined.

Main definitions:
* `Emitted` — the result of an emitted instruction.
* `shift`, `negate`, `lowerInt64` — the source's sequences.

Main results:
* `lowerInt64_exact` — every sequence yields the defined words of the 64-bit result.
-/
import Nixe.ShaderIr

set_option autoImplicit false

namespace Nixe.Shader

open BitVec

/-! ### The emitted instructions -/

/-- The result of an instruction and, for an addition, its carry.  `none` is undefined. -/
structure Emitted where
  word : Option Word
  carry : Option Bool := none

namespace Emitted

def u32 (x : Word) : Emitted := { word := some x }

def binary (f : Word → Word → Option Word) (a b : Emitted) : Emitted :=
  { word := do f (← a.word) (← b.word) }

def iAdd (a b : Emitted) : Emitted where
  word := return (← a.word) + (← b.word)
  carry := return (← a.word).toNat + (← b.word).toNat ≥ 2 ^ 32

def iSub : Emitted → Emitted → Emitted := binary fun a b => a - b
def bitwiseAnd : Emitted → Emitted → Emitted := binary fun a b => a &&& b
def bitwiseOr : Emitted → Emitted → Emitted := binary fun a b => a ||| b
def bitwiseNot (a : Emitted) : Emitted := { word := return ~~~(← a.word) }

/-- A shift is defined for amounts below the width of a word. -/
def shiftBy (f : Word → ℕ → Word) : Emitted → Emitted → Emitted :=
  binary fun a b => if b.toNat < 32 then some (f a b.toNat) else none

def shiftLeftLogical : Emitted → Emitted → Emitted := shiftBy (· <<< ·)
def shiftRightLogical : Emitted → Emitted → Emitted := shiftBy (· >>> ·)
def shiftRightArithmetic : Emitted → Emitted → Emitted := shiftBy sshiftRight

/-- A bit field is defined when it lies within the word. -/
def inField (offset count : Emitted) (f : ℕ → ℕ → Option Word) : Emitted where
  word := do
    let offset := (← offset.word).toNat
    let count := (← count.word).toNat
    if offset + count ≤ 32 then f offset count else none

def bitFieldExtract (base offset count : Emitted) : Emitted :=
  inField offset count fun o n => return ((← base.word).extractLsb' o n).setWidth 32

def bitFieldInsert (base insert offset count : Emitted) : Emitted :=
  inField offset count fun o n => do
    let mask := (allOnes n).setWidth 32
    return ((← base.word) &&& ~~~(mask <<< o)) ||| (((← insert.word) &&& mask) <<< o)

def comparison (f : Word → Word → Bool) (a b : Emitted) : Option Bool := do
  return f (← a.word) (← b.word)

/-- A selection depends on its condition and on the chosen side only. -/
def select (condition : Option Bool) (a b : Emitted) : Emitted where
  word := do if ← condition then a.word else b.word

end Emitted

/-! ### The sequences -/

/-- A 64-bit operand: an immediate, or a composite of two words. -/
inductive Operand
  | u64 (x : BitVec 64)
  | composite (lo hi : Word)

def Operand.value : Operand → BitVec 64
  | .u64 x => x
  | .composite lo hi => hi ++ lo

inductive Shift
  | leftLogical | rightLogical | rightArithmetic
  deriving DecidableEq

inductive Int64
  | iAdd64 (a b : Operand)
  | iSub64 (a b : Operand)
  | iNeg64 (a : Operand)
  | iAbs64 (a : Operand)
  | shift64 (op : Shift) (a : Operand) (amount : Word)
  | selectU64 (condition : Bool) (a b : Operand)

open Emitted

def unpack : Operand → Emitted × Emitted
  | .u64 x => (u32 (x.setWidth 32), u32 ((x >>> 32).setWidth 32))
  | .composite lo hi => (u32 lo, u32 hi)

def bit (value : Option Bool) : Emitted := select value (u32 1) (u32 0)

def negate (lo hi : Emitted) : Emitted × Emitted :=
  let lo := bitwiseNot lo
  let hi := bitwiseNot hi
  let lo := iAdd lo (u32 1)
  let carry := bit lo.carry
  (lo, iAdd hi carry)

def shift (op : Shift) (lo hi amount : Emitted) : Emitted × Emitted :=
  let left := op = .leftLogical
  let signed := op = .rightArithmetic
  let shortLo := if left then shiftLeftLogical lo amount else shiftRightLogical lo amount
  let shortHi :=
    if left then shiftLeftLogical hi amount
    else if signed then shiftRightArithmetic hi amount
    else shiftRightLogical hi amount
  let extension := if signed then shiftRightArithmetic hi (u32 31) else u32 0
  let excess := iSub amount (u32 32)
  let long := comparison (fun a b => b.sle a) excess (u32 0)
  let zero := comparison (· = ·) amount (u32 0)
  let complement := iSub (u32 32) amount
  let (longLo, longHi, shortLo, shortHi) :=
    if left then
      let longHi := shiftLeftLogical lo excess
      let extract := bitFieldExtract lo complement amount
      (u32 0, longHi, shortLo, bitwiseOr shortHi extract)
    else
      let longLo := if signed then shiftRightArithmetic hi excess else shiftRightLogical hi excess
      let extract := bitFieldExtract hi (u32 0) amount
      (longLo, extension, bitFieldInsert shortLo extract complement amount, shortHi)
  let nonzeroLo := select long longLo shortLo
  let nonzeroHi := select long longHi shortHi
  (select zero lo nonzeroLo, select zero hi nonzeroHi)

def lowerInt64 : Int64 → Emitted × Emitted
  | .iAdd64 x y =>
    let (a, b) := unpack x
    let (c, d) := unpack y
    let lo := iAdd a c
    let carry := bit lo.carry
    let hi := iAdd b d
    (lo, iAdd hi carry)
  | .iSub64 x y =>
    let (a, b) := unpack x
    let (c, d) := unpack y
    let lo := iSub a c
    let borrow := bit (comparison (fun a b => b.ult a) lo a)
    let hi := iSub b d
    (lo, iSub hi borrow)
  | .iNeg64 x =>
    let (lo, hi) := unpack x
    negate lo hi
  | .iAbs64 x =>
    let (lo, hi) := unpack x
    let (resultLo, resultHi) := negate lo hi
    let sign := bitwiseAnd hi (u32 0x80000000)
    let negative := comparison (· ≠ ·) sign (u32 0)
    (select negative resultLo lo, select negative resultHi hi)
  | .shift64 op x amount =>
    let (lo, hi) := unpack x
    shift op lo hi (u32 amount)
  | .selectU64 condition x y =>
    let (a, b) := unpack x
    let (c, d) := unpack y
    (select condition a c, select condition b d)

/-! ### The 64-bit results -/

def Int64.amount : Int64 → ℕ
  | .shift64 _ _ amount => amount.toNat
  | _ => 0

def Shift.apply : Shift → BitVec 64 → ℕ → BitVec 64
  | .leftLogical, x, amount => x <<< amount
  | .rightLogical, x, amount => x >>> amount
  | .rightArithmetic, x, amount => x.sshiftRight amount

def Int64.result : Int64 → BitVec 64
  | .iAdd64 a b => a.value + b.value
  | .iSub64 a b => a.value - b.value
  | .iNeg64 a => -a.value
  | .iAbs64 a => a.value.abs
  | .shift64 op a amount => op.apply a.value amount.toNat
  | .selectU64 condition a b => if condition then a.value else b.value

def low (x : BitVec 64) : Word := x.setWidth 32
def high (x : BitVec 64) : Word := (x >>> 32).setWidth 32

variable (x : BitVec 64) {s : Word}

theorem getLsbD_low (i : ℕ) : (low x).getLsbD i = (decide (i < 32) && x.getLsbD i) :=
  getLsbD_setWidth ..

theorem getLsbD_high (i : ℕ) : (high x).getLsbD i = (decide (i < 32) && x.getLsbD (32 + i)) := by
  rw [high, getLsbD_setWidth, getLsbD_ushiftRight]

theorem unpack_eq (x : Operand) : unpack x = (u32 (low x.value), u32 (high x.value)) := by
  cases x with
  | u64 => rfl
  | composite lo hi =>
    rw [unpack, Operand.value]
    congr 2 <;> apply eq_of_getLsbD_eq <;> intro i hi
    · rw [getLsbD_low, getLsbD_append]
      simp [hi]
    · rw [getLsbD_high, getLsbD_append]
      simp [hi]

theorem toNat_low : (low x).toNat = x.toNat % 2 ^ 32 := toNat_setWidth ..

theorem toNat_high : (high x).toNat = x.toNat / 2 ^ 32 := by
  rw [high, toNat_setWidth, toNat_ushiftRight]
  omega

variable (y : BitVec 64)

theorem low_add : low x + low y = low (x + y) := by
  apply eq_of_toNat_eq
  simp [toNat_low]

theorem high_add :
    high x + high y + (if 2 ^ 32 ≤ (low x).toNat + (low y).toNat then 1 else 0) = high (x + y) := by
  apply eq_of_toNat_eq
  split <;> simp [toNat_high, toNat_low] at * <;> omega

theorem low_sub : low x - low y = low (x - y) := by
  apply eq_of_toNat_eq
  simp only [toNat_low, toNat_sub]
  omega

theorem high_sub :
    high x - high y - (if (low x).ult (low x - low y) then 1 else 0) = high (x - y) := by
  apply eq_of_toNat_eq
  split <;> simp [toNat_high, toNat_low, BitVec.ult] at * <;> omega

/-! ### Shifts -/

theorem sle_excess (hs : s.toNat < 64) : (0#32).sle (s - 32#32) = decide (32 ≤ s.toNat) := by
  have hall : ∀ k < 64, (0#32).sle (BitVec.ofNat 32 k - 32#32) = decide (32 ≤ k) := by decide
  simpa using hall s.toNat hs

theorem msb_high : (high x).msb = x.msb := by
  simp only [msb_eq_getLsbD_last, getLsbD_high]
  rfl

/-- The words of a 64-bit value. -/
def Words (e : Emitted × Emitted) (x : BitVec 64) : Prop :=
  e.1.word = some (low x) ∧ e.2.word = some (high x)

attribute [local simp] Words u32 select comparison binary shiftBy shiftLeftLogical shiftRightLogical
  shiftRightArithmetic bitwiseOr iSub bitFieldExtract bitFieldInsert inField

/-- The short variant is selected for the amounts from 1 to 31. -/
theorem shift_short {op : Shift} {x : BitVec 64} (hs : s.toNat < 32) (h0 : s ≠ 0#32) :
    Words (shift op (u32 (low x)) (u32 (high x)) (u32 s)) (op.apply x s.toNat) := by
  have hcompl : (32#32 - s).toNat = 32 - s.toNat := by bv_omega
  have hlong := sle_excess (s := s) (by omega)
  cases op
  all_goals
    simp [shift, Shift.apply, h0, hcompl, hlong, hs, not_le.mpr hs, hs.le]
    constructor <;> apply eq_of_getLsbD_eq <;> intro i hi
    all_goals
      simp only [getLsbD_low, getLsbD_high, getLsbD_shiftLeft, getLsbD_or,
        getLsbD_and, getLsbD_not, getLsbD_allOnes, getLsbD_setWidth,
        getLsbD_extractLsb', getLsbD_ushiftRight, getLsbD_sshiftRight, msb_high]
      grind

/-- The long variant is selected for the amounts from 32 to 63. -/
theorem shift_long {op : Shift} {x : BitVec 64} (hs : s.toNat < 64) (hle : 32 ≤ s.toNat) :
    Words (shift op (u32 (low x)) (u32 (high x)) (u32 s)) (op.apply x s.toNat) := by
  have hexc : (s - 32#32).toNat = s.toNat - 32 := by bv_omega
  have hexc' : s.toNat - 32 < 32 := by omega
  have h0 : s ≠ 0#32 := by rintro rfl; simp at hle
  cases op
  all_goals
    simp [shift, Shift.apply, h0, hexc, hexc', sle_excess hs, hle]
    constructor <;> apply eq_of_getLsbD_eq <;> intro i hi
    all_goals
      simp only [getLsbD_low, getLsbD_high, getLsbD_shiftLeft, getLsbD_zero,
        getLsbD_ushiftRight, getLsbD_sshiftRight, msb_high]
      grind

theorem negate_words : Words (negate (u32 (low x)) (u32 (high x))) (-x) := by
  have hlow : ~~~low x = low (~~~x) := by
    apply eq_of_toNat_eq
    simp [toNat_low]
    omega
  have hhigh : ~~~high x = high (~~~x) := by
    apply eq_of_toNat_eq
    simp [toNat_high]
    omega
  have hsum := high_add (~~~x) 1#64
  rw [show high 1#64 = 0#32 from rfl, show low 1#64 = 1#32 from rfl] at hsum
  simp only [Words, neg_eq_not_add, ← low_add, ← hsum]
  simp [negate, bitwiseNot, iAdd, bit, hlow, hhigh]
  refine ⟨rfl, ?_⟩
  split <;> rfl

/-- **Every sequence yields the words of the 64-bit result**, and they are defined. -/
theorem lowerInt64_exact (i : Int64) (h : i.amount < 64) : Words (lowerInt64 i) i.result := by
  cases i with
  | iAdd64 =>
    simp only [Words, Int64.result, ← low_add, ← high_add]
    simp [lowerInt64, unpack_eq, bit, iAdd]
    split <;> rfl
  | iSub64 =>
    simp only [Words, Int64.result, ← low_sub, ← high_sub]
    simp [lowerInt64, unpack_eq, bit]
    split <;> rfl
  | iNeg64 a =>
    simp only [lowerInt64, unpack_eq]
    exact negate_words a.value
  | iAbs64 a =>
    have hneg := negate_words a.value
    simp only [lowerInt64, unpack_eq, Int64.result, abs_eq]
    have hsign : high a.value &&& 0x80000000#32 ≠ 0#32 ↔ a.value.msb := by
      rw [show 0x80000000#32 = twoPow 32 31 from rfl, and_twoPow, ← msb_high, msb_eq_getLsbD_last]
      split <;> simp_all
    cases hm : a.value.msb <;> simp_all [bitwiseAnd]
  | shift64 op a amount =>
    simp only [lowerInt64, unpack_eq, Int64.result]
    by_cases h0 : amount = 0#32
    · subst h0
      cases op <;> simp [shift, Shift.apply]
    by_cases hlt : amount.toNat < 32
    · exact shift_short hlt h0
    · exact shift_long h (not_lt.mp hlt)
  | selectU64 c => cases c <;> simp [lowerInt64, unpack_eq, Int64.result]

theorem lowerInt64_exact_long :
    Words (lowerInt64 (.shift64 .leftLogical (.composite 0x80000001 3) 33)) 0x200000000 :=
  lowerInt64_exact (.shift64 .leftLogical (.composite 0x80000001 3) 33) (by decide)

end Nixe.Shader
