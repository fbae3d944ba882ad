/-
**Folding of operations on immediates.**

When every operand of an instruction is an immediate, `immediate` computes its result at compile
time.  The result should be the one the operation has.  It is for every integer operation but
one: the formula for a bit-field insertion clears the field in the base but does not mask the
inserted word, so the bits of that word above the field are left in the result.

Main definitions:
* `immediate` — the source's table of foldable operations.
* `NoStray` — an insertion that puts no bit above its field.

Main results:
* `immediate_exact_iff` — a folded value is the operation's value exactly when no stray bit is
  inserted.
-/
import Nixe.ShaderIr

set_option autoImplicit false

namespace Nixe.Shader

open BitVec

/-! ### The table -/

/-- The host's single-precision arithmetic, on bits. -/
structure Floats where
  neg : Word → Word
  add : Word → Word → Word
  mul : Word → Word → Word

def immediate (fp : Floats) (op : Opcode) (args : List Value) :
    Except CompileError (Option Value) :=
  match op, args with
  | .iMul32, [.u32 a, .u32 b] => return some (.u32 (a * b))
  | .iSub32, [.u32 a, .u32 b] => return some (.u32 (a - b))
  | .shiftRightArithmetic32, [.u32 a, .u32 b] =>
    if b ≥ 32 then throw (.undefinedOperands op args)
    else return some (.u32 (a.sshiftRight b.toNat))
  | .fpNeg32, [.f32 a] => return some (.f32 (fp.neg a))
  | .fpAdd32, [.f32 a, .f32 b] => return some (.f32 (fp.add a b))
  | .fpMul32, [.f32 a, .f32 b] => return some (.f32 (fp.mul a b))
  | .sLessThan, [.u32 a, .u32 b] => return some (.u1 (a.slt b))
  | .uLessThan, [.u32 a, .u32 b] => return some (.u1 (a.ult b))
  | .sLessThanEqual, [.u32 a, .u32 b] => return some (.u1 (a.sle b))
  | .uLessThanEqual, [.u32 a, .u32 b] => return some (.u1 (a.ule b))
  | .sGreaterThan, [.u32 a, .u32 b] => return some (.u1 (b.slt a))
  | .uGreaterThan, [.u32 a, .u32 b] => return some (.u1 (b.ult a))
  | .sGreaterThanEqual, [.u32 a, .u32 b] => return some (.u1 (b.sle a))
  | .uGreaterThanEqual, [.u32 a, .u32 b] => return some (.u1 (b.ule a))
  | .iEqual, [.u32 a, .u32 b] => return some (.u1 (a = b))
  | .iNotEqual, [.u32 a, .u32 b] => return some (.u1 (a ≠ b))
  | .bitwiseAnd32, [.u32 a, .u32 b] => return some (.u32 (a &&& b))
  | .bitwiseOr32, [.u32 a, .u32 b] => return some (.u32 (a ||| b))
  | .bitwiseXor32, [.u32 a, .u32 b] => return some (.u32 (a ^^^ b))
  | .bitFieldUExtract, [.u32 a, .u32 shift, .u32 count] =>
    if shift.toNat + count.toNat > 32 then throw (.internal "Unsigned bitfield exceeds word")
    else if shift ≥ 32 ∨ count ≥ 32 then throw (.undefinedOperands op args)
    else return some (.u32 (a >>> shift.toNat &&& 1#32 <<< count.toNat - 1#32))
  | .bitFieldSExtract, [.u32 a, .u32 shift, .u32 count] =>
    let back := shift.toNat + count.toNat
    if back > 32 ∨ back = 0 ∨ count = 0 then
      throw (.internal "Signed bitfield has undefined shift")
    else return some (.u32 ((a <<< ((32 - back) % 32)).sshiftRight (32 - count.toNat)))
  | .bitFieldInsert, [.u32 a, .u32 b, .u32 offset, .u32 bits] =>
    if bits ≥ 32 ∨ offset ≥ 32 then throw (.internal "Bitfield insertion has undefined shift")
    else return some (.u32
      (a &&& ~~~(~~~(allOnes 32 <<< bits.toNat) <<< offset.toNat) ||| b <<< offset.toNat))
  | _, _ => return none

/-! ### Each field is read and written bit by bit -/

theorem getLsbD_mask {count : ℕ} (hcount : count < 32) (i : ℕ) :
    (1#32 <<< count - 1#32).getLsbD i = decide (i < count) := by
  have hpow : 2 ^ count < 2 ^ 32 := Nat.pow_lt_pow_right (by decide) hcount
  have hone : (1#32 <<< count).toNat = 2 ^ count := by
    rw [toNat_shiftLeft, Nat.shiftLeft_eq]
    exact (congrArg (· % 2 ^ 32) (one_mul _)).trans (Nat.mod_eq_of_lt hpow)
  have hle : 1#32 ≤ 1#32 <<< count := by
    rw [le_def, hone]
    exact Nat.one_le_two_pow
  rw [getLsbD, toNat_sub_of_le hle, hone]
  exact Nat.testBit_two_pow_sub_one count i

theorem getLsbD_sExtract {a : Word} {shift count i : ℕ} (hback : shift + count ≤ 32)
    (hcount : 0 < count) (hi : i < 32) :
    ((a <<< ((32 - (shift + count)) % 32)).sshiftRight (32 - count)).getLsbD i =
      a.getLsbD (shift + min i (count - 1)) := by
  rw [Nat.mod_eq_of_lt (by omega), getLsbD_sshiftRight, msb_eq_getLsbD_last]
  simp only [getLsbD_shiftLeft]
  by_cases hin : 32 - count + i < 32
  · rw [if_pos hin, show 32 - count + i - _ = shift + min i (count - 1) by omega]
    have : ¬ 32 - count + i < 32 - (shift + count) := by omega
    simp [hin, hi, this]
  · rw [if_neg hin, show 32 - 1 - _ = shift + min i (count - 1) by omega]
    have : ¬ 32 - 1 < 32 - (shift + count) := by omega
    simp [hi, this]

theorem getLsbD_insert {a b : Word} {offset bits : ℕ} {i : ℕ} (hi : i < 32) :
    (a &&& ~~~(~~~(allOnes 32 <<< bits) <<< offset) ||| b <<< offset).getLsbD i =
      (a.getLsbD i && !(offset ≤ i && i < offset + bits) ||
        offset ≤ i && b.getLsbD (i - offset)) := by
  have hsub : i - offset < 32 := by omega
  simp only [getLsbD_or, getLsbD_and, getLsbD_not, getLsbD_shiftLeft,
    getLsbD_allOnes, hi, hsub, decide_true, Bool.true_and]
  by_cases hle : offset ≤ i
  · have hlt : i - offset - bits < 32 := by omega
    have hiff : i - offset < bits ↔ i < offset + bits := by omega
    simp [hle, hlt, hiff, not_lt.mpr hle]
  · simp [hle, not_le.mp hle]

/-- The source's formula is the insertion exactly when it sets no bit above the field. -/
theorem insert_exact_iff {a b : Word} {offset bits : ℕ} :
    (∀ i < 32, (a &&& ~~~(~~~(allOnes 32 <<< bits) <<< offset) ||| b <<< offset).getLsbD i =
        if offset ≤ i ∧ i < offset + bits then b.getLsbD (i - offset) else a.getLsbD i) ↔
      ∀ i < 32, offset + bits ≤ i → b.getLsbD (i - offset) → a.getLsbD i := by
  refine forall₂_congr fun i hi => ?_
  rw [getLsbD_insert hi]
  by_cases hle : offset ≤ i
  · by_cases hlt : i < offset + bits
    · simp [hle, hlt]
    · simp [hle, hlt, not_lt.mp hlt]
  · have hout : ¬ offset + bits ≤ i := by omega
    simp [hle, hout]

/-- No bit of the inserted word lands above the field, unless the base has it already. -/
def NoStray : Opcode → List Value → Prop
  | .bitFieldInsert, [.u32 a, .u32 b, .u32 offset, .u32 bits] =>
    ∀ i < 32, offset.toNat + bits.toNat ≤ i → b.getLsbD (i - offset.toNat) → a.getLsbD i
  | _, _ => True

/-- **A folded integer operation has the value of the operation**, unless it is an insertion that
sets a bit above its field. -/
theorem immediate_exact_iff (fp : Floats) (inputs : Inputs) (op : Opcode) (args : List Value)
    (v : Value) (h : immediate fp op args = .ok (some v)) :
    meaning inputs op (args.map .scalar) (.scalar v) ↔ NoStray op args := by
  unfold immediate at h
  split at h
  case h_3 a b =>
      split at h <;> cases h
      refine iff_of_true ⟨a, b, rfl, ?_⟩ trivial
      rw [← ofInt_toInt (x := a.sshiftRight _), toInt_sshiftRight]
      simp [Int.shiftRight_eq_div_pow]
  case h_15 | h_16 =>
      cases h
      exact iff_of_true ⟨_, _, rfl, by simp [toNat_inj]⟩ trivial
  case h_20 a shift count =>
      split at h
      · cases h
      split at h <;> cases h
      rename_i hout
      have hlt : count.toNat < 32 := by
        simpa [le_def] using (not_or.mp hout).2
      refine iff_of_true ⟨a, shift, count, _, rfl, rfl, fun i hi => ?_⟩ trivial
      rw [getLsbD_and, getLsbD_ushiftRight, getLsbD_mask hlt, Bool.and_comm]
  case h_21 a shift count =>
      dsimp only at h
      split at h <;> cases h
      rename_i hout
      refine iff_of_true ⟨a, shift, count, _, rfl, rfl, fun i hi => ?_⟩ trivial
      have hpos : count.toNat ≠ 0 := fun h0 => hout (.inr (.inr (eq_of_toNat_eq h0)))
      exact getLsbD_sExtract (by omega) (by omega) hi
  case h_22 a b offset bits =>
      split at h <;> cases h
      refine .trans ?_ insert_exact_iff
      constructor
      · rintro ⟨a', b', offset', bits', x, hargs, hx, hbits⟩
        cases hargs
        cases hx
        exact hbits
      · intro hbits
        exact ⟨a, b, offset, bits, _, rfl, rfl, hbits⟩
  case h_23 => cases h
  case h_4 | h_5 | h_6 => exact iff_of_true trivial trivial
  all_goals
    cases h
    exact iff_of_true ⟨_, _, rfl, rfl⟩ trivial

/-- The word 3, inserted into one bit at offset 4, lands on bit 5 as well, which the base has. -/
theorem immediate_exact_iff_insert : meaning ⟨fun _ _ => 0, fun _ _ => 0⟩ .bitFieldInsert
      [.scalar (.u32 0x20), .scalar (.u32 3), .scalar (.u32 4), .scalar (.u32 1)]
      (.scalar (.u32 0x30)) :=
  (immediate_exact_iff ⟨id, fun a _ => a, fun a _ => a⟩ _ _
    [.u32 0x20, .u32 3, .u32 4, .u32 1] _ rfl).2 (by unfold NoStray; decide)

/-- Into a base that does not have bit 5, it sets it. -/
theorem immediate_insert_stray :
    immediate ⟨id, fun a _ => a, fun a _ => a⟩ .bitFieldInsert [.u32 0, .u32 3, .u32 4, .u32 1] =
        .ok (some (.u32 0x30)) ∧
      ¬ meaning ⟨fun _ _ => 0, fun _ _ => 0⟩ .bitFieldInsert
        [.scalar (.u32 0), .scalar (.u32 3), .scalar (.u32 4), .scalar (.u32 1)]
        (.scalar (.u32 0x30)) := by
  refine ⟨rfl, ?_⟩
  rintro ⟨a, b, offset, count, x, hargs, hx, hbits⟩
  cases hargs
  cases hx
  exact absurd (hbits 5 (by decide)) (by decide)

end Nixe.Shader
