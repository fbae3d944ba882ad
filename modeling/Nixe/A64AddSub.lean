/-
**The additions and subtractions of the interpreter are those of the architecture**, with two
exceptions that the encoding shows: an instruction with a shifted register or with the carry flag
that sets no flags and names register 31 as its destination writes the stack pointer instead of
nothing, and the 32-bit form with a 64-bit extension is refused.

The arithmetic of the source is on 128-bit integers cut to the width of the instruction; each piece
of it is the operation of the architecture at that width (`addWithCarry_eq`, `shift_eq`,
`extendRegister_eq`).

Main results:

* `step_exact_iff` — **for every allocated encoding, the step is that of the architecture in all
  states if and only if the encoding is not one of the two exceptions**;
* `exceptions_differ` — what the exceptions do.
-/
import Nixe.A64

set_option autoImplicit false

namespace Nixe.A64

open Option BitVec Bool Isa

/-! ### Cutting integers -/

variable {w v k : ℕ} {family : Family} {bits : BitVec 32} {state : A64State}

theorem toNat_ones (hk : k < v) : ((1#v <<< k) - 1#v).toNat = 2 ^ k - 1 := by
  have htwo : (1#v <<< k).toNat = 2 ^ k := toNat_twoPow_of_lt hk
  have hone : (1#v).toNat = 1 := Nat.mod_eq_of_lt (Nat.one_lt_two_pow (by omega))
  have hle : 1#v ≤ 1#v <<< k := by
    rw [le_def, htwo, hone]
    exact Nat.one_le_two_pow
  rw [toNat_sub_of_le hle, htwo, hone]

theorem toNat_mask (hw : w ≤ 64) : (mask w).toNat = 2 ^ w - 1 := by
  rw [mask, if_neg (by omega), toNat_ones (by omega)]

theorem toNat_truncate (hw : w ≤ 64) (value : BitVec 128) :
    (truncate w value).toNat = value.toNat % 2 ^ w := by
  rw [truncate, toNat_and, toNat_mask hw, Nat.and_two_pow_sub_one_eq_mod]

theorem truncate_eq (hw : w ≤ 64) (value : BitVec 128) :
    truncate w value = (value.setWidth w).setWidth 128 := by
  apply eq_of_toNat_eq
  rw [toNat_truncate hw, toNat_setWidth_of_le (by omega), toNat_setWidth]

theorem setWidth_back (hw : w ≤ v) (value : BitVec w) : (value.setWidth v).setWidth w = value := by
  rw [setWidth_setWidth_of_le _ hw, setWidth_eq]

theorem getLsbD_last_setWidth (hw : w ≤ v) (value : BitVec w) :
    (value.setWidth v).getLsbD (w - 1) = value.msb := by
  rw [← setWidth_back hw value, msb_eq_getLsbD_last]
  simp
  omega

theorem and_shiftLeft_one {value : BitVec v} (hk : k < v) :
    (value &&& (1#v <<< k) != 0#v) = value.getLsbD k := by
  have htwo : 1#v <<< k = twoPow v k := rfl
  rw [htwo, and_twoPow]
  cases value.getLsbD k with
  | true =>
    have hne : twoPow v k ≠ 0#v := by
      intro h
      have hbit := congrArg (fun b => b.getLsbD k) h
      simp [hk] at hbit
    simpa using hne
  | false => simp

/-! ### Addition -/

/-- The signed sum does not fit if and only if both operands have the other sign. -/
theorem overflow_iff (hw : 0 < w) (x y : BitVec w) (carry : Bool) :
    ((BitVec.ofNat w (x.toNat + y.toNat + carry.toNat)).toInt != x.toInt + y.toInt + carry.toNat) =
    (!(x.msb ^^ y.msb) && (x.msb ^^ (BitVec.ofNat w (x.toNat + y.toNat + carry.toNat)).msb)) := by
  obtain ⟨half, hhalf⟩ : ∃ half, half = 2 ^ (w - 1) := ⟨_, rfl⟩
  have hpow : 2 ^ w = 2 * half := by
    rw [hhalf, ← pow_succ', Nat.sub_add_cancel hw]
  have hx := x.isLt
  have hy := y.isLt
  have hc : carry.toNat ≤ 1 := toNat_le carry
  generalize carry.toNat = c at *
  have hr := Nat.mod_lt (x.toNat + y.toNat + c) (Nat.two_pow_pos w)
  have hmod : (x.toNat + y.toNat + c) % 2 ^ w = x.toNat + y.toNat + c ∨
      (x.toNat + y.toNat + c) % 2 ^ w + 2 ^ w = x.toNat + y.toNat + c := by
    rcases lt_or_ge (x.toNat + y.toNat + c) (2 ^ w) with hlt | hge
    · exact .inl (Nat.mod_eq_of_lt hlt)
    · rw [Nat.mod_eq_sub_mod hge, Nat.mod_eq_of_lt (by omega)]
      omega
  simp only [toInt_eq_msb_cond, msb_eq_decide, toNat_ofNat, ← hhalf]
  generalize (x.toNat + y.toNat + c) % 2 ^ w = r at *
  rw [hpow] at *
  by_cases h₁ : half ≤ x.toNat <;> by_cases h₂ : half ≤ y.toNat <;> by_cases h₃ : half ≤ r <;>
    simp [h₁, h₂, h₃] <;> omega

/-- A sum of the architecture, as the interpreter returns it. -/
def widened (sum : BitVec w × Nzcv) : AddWithCarryResult where
  result := sum.1.setWidth 128
  carryOut := sum.2.c
  overflow := sum.2.v

/-- **The sum of the interpreter is that of the architecture**, at the width of the instruction. -/
theorem addWithCarry_eq (hpos : 0 < w) (hw : w ≤ 64) (lhs rhs : BitVec 128) (carry : Bool) :
    addWithCarry lhs rhs carry w =
      widened (Isa.addWithCarry (lhs.setWidth w) (rhs.setWidth w) carry) := by
  have hpow : 2 ^ w ≤ 2 ^ 64 := Nat.pow_le_pow_right (by norm_num) hw
  generalize hx : lhs.setWidth w = x
  generalize hy : rhs.setWidth w = y
  have hc : carry.toNat ≤ 1 := toNat_le carry
  -- the sum has room in 128 bits
  have hsum : (x.setWidth 128 + y.setWidth 128 + if carry then 1 else 0).toNat =
      x.toNat + y.toNat + carry.toNat := by
    have hcarry : (if carry then 1 else 0 : BitVec 128).toNat = carry.toNat := by
      cases carry <;> rfl
    rw [toNat_add, toNat_add, hcarry, toNat_setWidth_of_le (by omega),
      toNat_setWidth_of_le (by omega), Nat.mod_eq_of_lt (by omega),
      Nat.mod_eq_of_lt (by omega)]
  generalize hs : x.setWidth 128 + y.setWidth 128 + (if carry then 1 else 0) = sum at hsum
  have hresult : sum.setWidth w = BitVec.ofNat w (x.toNat + y.toNat + carry.toNat) := by
    apply eq_of_toNat_eq
    rw [toNat_setWidth, hsum, toNat_ofNat]
  have hbit : ∀ z : BitVec w, (z.setWidth 128).getLsbD (w - 1) = z.msb :=
    getLsbD_last_setWidth (by omega)
  unfold addWithCarry
  simp only [truncate_eq hw, hx, hy, hs, hresult, if_neg (show w ≠ 128 by omega)]
  refine AddWithCarryResult.ext rfl ?_ ?_
  · -- the carry
    simp only [widened, Isa.addWithCarry, lt_def, toNat_mask hw, hsum, toNat_ofNat]
    rcases lt_or_ge (x.toNat + y.toNat + carry.toNat) (2 ^ w) with hlt | hge
    · rw [Nat.mod_eq_of_lt hlt]
      simp
      omega
    · rw [decide_eq_true (by omega), eq_comm, bne_iff_ne]
      omega
  · -- the overflow
    rw [and_shiftLeft_one (by omega)]
    simp only [widened, Isa.addWithCarry, overflow_iff hpos, getLsbD_and, getLsbD_not,
      getLsbD_xor, hbit]
    rw [decide_eq_true (show w - 1 < 128 by omega), Bool.true_and]

theorem setWidth_not_truncate (hw : w ≤ 64) (value : BitVec 128) :
    (~~~truncate w value).setWidth w = ~~~(value.setWidth w) := by
  rw [truncate_eq hw, setWidth_not (by omega), setWidth_back (by omega)]

theorem subtractWithCarry_eq (hpos : 0 < w) (hw : w ≤ 64) (lhs rhs : BitVec 128) (carry : Bool) :
    subtractWithCarry lhs rhs carry w =
      widened (Isa.addWithCarry (lhs.setWidth w) (~~~rhs.setWidth w) carry) := by
  rw [subtractWithCarry, addWithCarry_eq hpos hw, setWidth_not_truncate hw]

/-! ### Shifts and extensions -/

theorem getLsbD_ones (hk : k < 64) (j : ℕ) : ((1#64 <<< k) - 1#64).getLsbD j = decide (j < k) := by
  rw [getLsbD, toNat_ones hk, Nat.testBit_two_pow_sub_one]

theorem getLsbD_mask (hw : w ≤ 64) (i : ℕ) : (mask w).getLsbD i = decide (i < w) := by
  rw [getLsbD, toNat_mask hw, Nat.testBit_two_pow_sub_one]

/-- The shifts of the interpreter, by less than the width. -/
theorem shift_eq (hw : w ≤ 64) {x : BitVec w} {type amount : ℕ} {kind : ShiftKind}
    (hkind : shiftKind type = some kind) (hamount : amount < w) :
    shift (x.setWidth 128) w kind amount = (Isa.shiftReg x type amount).setWidth 128 := by
  have hcut : truncate w (x.setWidth 128) = x.setWidth 128 := by
    rw [truncate_eq hw, setWidth_back (show w ≤ 128 by omega)]
  have hnarrow : ¬ w ≤ amount := by omega
  unfold shift
  rw [hcut]
  by_cases hzero : amount = 0
  · subst hzero
    match type with
    | 0 | 1 | 2 => simp [shiftReg]
    | n + 3 => cases hkind
  rw [if_neg hzero]
  match type with
  | 0 =>
    cases hkind
    simp only [shiftReg, if_neg hnarrow, truncate_eq hw]
    congr 1
    refine eq_of_getLsbD_eq fun i hi => ?_
    have hi' : i < 128 := by omega
    have hback : i - amount < 128 := by omega
    simp [decide_eq_true hi, decide_eq_true hi', decide_eq_true hback]
  | 1 =>
    cases hkind
    simp only [shiftReg, if_neg hnarrow]
    refine eq_of_getLsbD_eq fun i hi => ?_
    rcases lt_or_ge (amount + i) w with hinside | houtside
    · have hinside' : amount + i < 128 := by omega
      simp [hi, hinside']
    · simp [getLsbD_of_ge x _ houtside]
  | 2 =>
    cases hkind
    simp only [shiftReg, if_neg hnarrow, truncate_eq hw]
    rw [and_shiftLeft_one (show w - 1 < 128 by omega), getLsbD_last_setWidth (by omega)]
    congr 1
    refine eq_of_getLsbD_eq fun i hi => ?_
    have hi' : i < 128 := by omega
    rw [getLsbD_setWidth, getLsbD_or, getLsbD_sshiftRight, getLsbD_ushiftRight, getLsbD_setWidth]
    have hfill : (if x.msb then mask w <<< (w - amount) else 0).getLsbD i =
        (x.msb && decide (w ≤ amount + i)) := by
      cases x.msb with
      | false => simp
      | true =>
        simp only [if_true, getLsbD_shiftLeft, getLsbD_mask hw, Bool.true_and]
        rcases lt_or_ge (amount + i) w with hinside | houtside
        · simp [show i < w - amount by omega, show ¬ w ≤ amount + i by omega]
        · simp [hi', houtside, show ¬ i < w - amount by omega,
            show i - (w - amount) < w by omega]
    rw [hfill]
    rcases lt_or_ge (amount + i) w with hinside | houtside
    · simp [hi, hinside, show amount + i < 128 by omega, show ¬ w ≤ amount + i by omega]
    · simp [hi, houtside, show ¬ amount + i < w by omega]
  | n + 3 => cases hkind

theorem getLsbD_signExtend {b j : ℕ} (hb : 0 < b) (hb64 : b ≤ 64) (hj : j < 64)
    (value : BitVec 64) :
    (signExtend value b).getLsbD j = if j < b then value.getLsbD j else value.getLsbD (b - 1) := by
  unfold signExtend
  rw [getLsbD_sshiftRight]
  by_cases hinside : j < b
  · rw [if_pos (show 64 - b + j < 64 by omega), if_pos hinside, getLsbD_shiftLeft,
      show 64 - b + j - (64 - b) = j by omega]
    simp [hj, show 64 - b + j < 64 by omega]
  · rw [if_neg (show ¬ 64 - b + j < 64 by omega), if_neg hinside, msb_eq_getLsbD_last,
      getLsbD_shiftLeft, show 64 - 1 - (64 - b) = b - 1 by omega]
    simp [show ¬ 63 < 64 - b by omega, show ¬ 64 ≤ j by omega]

variable (x : BitVec w)

/-- The bits of an extension: those of the source, then zeros or its sign. -/
def extensionBit (source : ℕ) (signed : Bool) (j : ℕ) : Bool :=
  if j < source then x.getLsbD j else signed && x.getLsbD (source - 1)

theorem getLsbD_zeroExtended {length shift : ℕ} {i : ℕ} (hi : i < w) :
    ((x.extractLsb' 0 length ++ BitVec.zero shift).setWidth w).getLsbD i =
      (!decide (i < shift) && (decide (i - shift < length) && x.getLsbD (i - shift))) := by
  simp only [getLsbD_setWidth, getLsbD_append, getLsbD_extractLsb',
    decide_eq_true hi, Bool.true_and, zero_add]
  by_cases hlow : i < shift
  · simp
  · simp

theorem getLsbD_signExtended {length : ℕ} (hlength : 0 < length) {shift : ℕ} {i : ℕ} (hi : i < w) :
    ((x.extractLsb' 0 length ++ BitVec.zero shift).signExtend w).getLsbD i = (!decide (i < shift) &&
        if i - shift < length then x.getLsbD (i - shift) else x.getLsbD (length - 1)) := by
  simp only [BitVec.getLsbD_signExtend, getLsbD_append, getLsbD_extractLsb',
    decide_eq_true hi, Bool.true_and, zero_add,
    msb_eq_getLsbD_last]
  by_cases hlow : i < shift
  · simp [hlow, show i < length + shift by omega]
  · by_cases hin : i - shift < length
    · simp [hin, show i < length + shift by omega]
    · simp [hlow, hin, show ¬ i < length + shift by omega,
        show ¬ length + shift - 1 < shift by omega,
        show length + shift - 1 - shift = length - 1 by omega, show length - 1 < length by omega]

/-- The bits of the extension of the architecture, below its width. -/
theorem getLsbD_extendReg {option shift i : ℕ} (hshift : shift ≤ 4) (hw : 32 ≤ w) (hi : i < w) :
    (Isa.extendReg x option shift).getLsbD i = (!decide (i < shift) &&
      extensionBit x (8 <<< (option % 4)) (decide (4 ≤ option)) (i - shift)) := by
  have hpos : 8 ≤ 8 <<< (option % 4) := by
    rw [Nat.shiftLeft_eq]
    exact Nat.le_mul_of_pos_right 8 (Nat.two_pow_pos _)
  unfold extendReg extensionBit
  generalize 8 <<< (option % 4) = source at *
  by_cases hlow : i < shift
  · by_cases hunsigned : option < 4
    · simp only [if_pos hunsigned, getLsbD_zeroExtended x hi, hlow, decide_true,
        Bool.not_true, Bool.false_and]
    · simp only [if_neg hunsigned,
        getLsbD_signExtended x (show 0 < min source (w - shift) by omega) hi, hlow, decide_true,
        Bool.not_true, Bool.false_and]
  have hin : i - shift < min source (w - shift) ↔ i - shift < source := by omega
  by_cases hunsigned : option < 4
  · simp only [if_pos hunsigned, getLsbD_zeroExtended x hi, hin,
      decide_eq_false (show ¬ 4 ≤ option by omega), Bool.false_and]
    by_cases hsource : i - shift < source
    · simp
    · simp
  · simp only [if_neg hunsigned,
      getLsbD_signExtended x (show 0 < min source (w - shift) by omega) hi, hin,
      decide_eq_true (show 4 ≤ option by omega), Bool.true_and]
    by_cases hsource : i - shift < source
    · simp [hsource]
    · simp [show min source (w - shift) = source by omega]

/-- The extensions of the interpreter, where it supports them. -/
theorem extendRegister_eq (hw : w = 32 ∨ w = 64) {x : BitVec w} {option shift : ℕ}
    (hoption : option < 8) (hshift : shift ≤ 4) (hsupported : ¬ (option % 4 = 3 ∧ w = 32)) :
    extendRegister (x.setWidth 64) option shift w =
      some ((Isa.extendReg x option shift).setWidth 64) := by
  have hsizes : 8 <<< (option % 4) = 8 ∨ 8 <<< (option % 4) = 16 ∨ 8 <<< (option % 4) = 32 ∨
      8 <<< (option % 4) = 64 ∧ w = 64 := by
    have hmod : option % 4 < 4 := Nat.mod_lt _ (by norm_num)
    interval_cases h : option % 4
    · exact .inl rfl
    · exact .inr (.inl rfl)
    · exact .inr (.inr (.inl rfl))
    · exact .inr (.inr (.inr ⟨rfl, hw.resolve_left fun h32 => hsupported ⟨rfl, h32⟩⟩))
  have hbits : ∀ i, i < w → (extendReg x option shift).getLsbD i = (!decide (i < shift) &&
      extensionBit x (8 <<< (option % 4)) (decide (4 ≤ option)) (i - shift)) :=
    fun i hi => getLsbD_extendReg x hshift (by omega) hi
  unfold extendRegister
  rw [if_neg (by omega)]
  generalize 8 <<< (option % 4) = source at *
  simp only
  rw [if_neg (by omega)]
  congr 1
  refine eq_of_getLsbD_eq fun i hi => ?_
  have hdestination : (if w = 64 then allOnes 64 else 0xffffffff).getLsbD i = decide (i < w) := by
    rcases hw with rfl | rfl
    · rw [if_neg (by norm_num), show 0xffffffff = (allOnes 32).setWidth 64 by
        decide, getLsbD_setWidth, getLsbD_allOnes, decide_eq_true hi, Bool.true_and]
    · rw [if_pos rfl, getLsbD_allOnes]
  have htruncated : ∀ j, j < 64 → (x.setWidth 64 &&& if source = 64 then allOnes 64
      else (1#64 <<< source) - 1#64).getLsbD j = (x.getLsbD j && decide (j < source)) := by
    intro j hj
    rw [getLsbD_and, getLsbD_setWidth, decide_eq_true hj, Bool.true_and]
    by_cases h64 : source = 64
    · rw [if_pos h64, getLsbD_allOnes, h64]
    · rw [if_neg h64, getLsbD_ones (by omega)]
  generalize (x.setWidth 64 &&& if source = 64 then _ else _) = truncated at *
  have hextended : ∀ j, j < 64 → (if option < 4 ∨ source = 64 then truncated
      else signExtend truncated source).getLsbD j =
      extensionBit x source (decide (4 ≤ option)) j := by
    intro j hj
    unfold extensionBit
    by_cases hplain : option < 4 ∨ source = 64
    · rw [if_pos hplain, htruncated j hj]
      by_cases hin : j < source
      · simp [hin]
      · simp [hin, show ¬ 4 ≤ option by omega]
    · rw [if_neg hplain, getLsbD_signExtend (by omega) (by omega) hj]
      by_cases hin : j < source
      · rw [if_pos hin, if_pos hin, htruncated j hj, decide_eq_true hin, Bool.and_true]
      · rw [if_neg hin, if_neg hin, htruncated _ (by omega),
          decide_eq_true (show source - 1 < source by omega),
          decide_eq_true (show 4 ≤ option by omega), Bool.and_true, Bool.true_and]
  rw [getLsbD_and, hdestination, getLsbD_shiftLeft, hextended _ (by omega),
    decide_eq_true hi, Bool.true_and, getLsbD_setWidth, decide_eq_true hi, Bool.true_and]
  by_cases hin : i < w
  · rw [hbits i hin, decide_eq_true hin, Bool.and_true]
  · rw [decide_eq_false hin, Bool.and_false, getLsbD_of_ge _ _ (by omega)]

/-! ### Decoding -/

theorem matches_unique {family' : Family} (h : family.matches bits = true)
    (h' : family'.matches bits = true) : family = family' := by
  have hboth : family.pattern.2 &&& family'.pattern.1 = family'.pattern.2 &&& family.pattern.1 := by
    rw [← beq_iff_eq.1 h, ← beq_iff_eq.1 h', BitVec.and_assoc, BitVec.and_assoc,
      and_comm family.pattern.1]
  revert hboth
  cases family <;> cases family' <;> decide

/-- The interpreter knows every allocated encoding. -/
theorem decode_allocated (h : Isa.Allocated family bits) : decode bits = some family := by
  obtain ⟨hmatches, hallocated⟩ := h
  have hfound : family.allocated bits = true := by
    cases family with
    | immediate => rfl
    | carry => rfl
    | extended => exact decide_eq_true hallocated.2
    | shifted =>
      obtain ⟨hkind, hamount⟩ := hallocated
      rw [Family.allocated, and_eq_true, or_eq_true, bne_iff_ne]
      refine ⟨hkind, ?_⟩
      cases hsf : bits.getLsbD 31 with
      | true => exact .inl rfl
      | false => exact .inr (decide_eq_true (hamount hsf))
  cases hdecode : decode bits with
  | none =>
    rw [decode, List.find?_eq_none] at hdecode
    refine absurd ?_ (hdecode family (by cases family <;> decide))
    rw [hmatches, hfound]
    rfl
  | some =>
    have hfamily := List.find?_some hdecode
    rw [and_eq_true] at hfamily
    rw [matches_unique hmatches hfamily.1]

theorem field_lt (bits : BitVec 32) (low length : ℕ) : field bits low length < 2 ^ length :=
  (bits.extractLsb' low length).isLt

/-! ### The step -/

/-- What an instruction of width `w` leaves, with its result in `destination`. -/
def written (w : ℕ) (family : Family) (bits : BitVec 32) (state : A64State)
    (destination : A64Register) : A64State :=
  let computed := Isa.compute w family bits state
  let result := (state.writeX (computed.1.setWidth 64) destination).advance
  if bits.getLsbD 29 then { result with nzcv := computed.2 } else result

theorem isa_step_eq (hw : (operands bits).width = w) : Isa.step family bits state =
    written w family bits state
      (register (field bits 0 5) (Isa.firstIsSp family && !bits.getLsbD 29)) := by
  subst hw
  unfold Isa.step written Operands.width operands
  cases bits.getLsbD 31 with
  | true => simp
  | false => rfl

theorem readRegister_eq (hw : w = 32 ∨ w = 64) (index : ℕ) (sp : Bool) :
    state.readRegister index w sp = ((state.readX (register index sp)).setWidth w).setWidth 64 := by
  unfold A64State.readRegister
  rcases hw with rfl | rfl
  · rw [if_neg (by norm_num)]
  · rw [if_pos rfl, setWidth_eq, setWidth_eq]

theorem writeRegister_eq (hw : w = 32 ∨ w = 64) (index : ℕ) (sp : Bool) (value : BitVec w) :
    state.writeRegister index w sp (value.setWidth 64) =
      state.writeX (value.setWidth 64) (register index sp) := by
  unfold A64State.writeRegister
  rcases hw with rfl | rfl
  · rw [if_neg (by norm_num), setWidth_back (by norm_num) value]
  · rw [if_pos rfl]

theorem arithmeticFlags_eq (hw : w = 32 ∨ w = 64) (x y : BitVec w) (carry : Bool) :
    arithmeticFlags ((Isa.addWithCarry x y carry).1.setWidth 64) (Isa.addWithCarry x y carry).2.c
      (Isa.addWithCarry x y carry).2.v w = (Isa.addWithCarry x y carry).2 := by
  unfold arithmeticFlags
  rw [and_shiftLeft_one (by omega)]
  have hn : ((Isa.addWithCarry x y carry).1.setWidth 64).getLsbD (w - 1) =
      (Isa.addWithCarry x y carry).2.n := getLsbD_last_setWidth (by omega) _
  have hz : ((Isa.addWithCarry x y carry).1.setWidth 64 == 0#64) =
      (Isa.addWithCarry x y carry).2.z := by
    have hzero : (Isa.addWithCarry x y carry).1.setWidth 64 = 0#64 ↔
        (Isa.addWithCarry x y carry).1 = 0#w := by
      rw [← toNat_inj, ← toNat_inj, toNat_setWidth_of_le (by omega)]
      simp
    rw [Bool.eq_iff_iff, beq_iff_eq, hzero]
    simp [Isa.addWithCarry]
  rw [hn, hz]

/-- The flag that sets no flags is looked at only for register 31. -/
theorem register_destination (bits : BitVec 32) (b : Bool) :
    register (field bits 0 5) (b && field bits 0 5 == 31) = register (field bits 0 5) b := by
  have hlt := field_lt bits 0 5
  unfold register
  by_cases h : field bits 0 5 < 31
  · rw [dif_pos h, dif_pos h]
  · rw [dif_neg h, dif_neg h, show field bits 0 5 = 31 by omega, beq_self_eq_true, Bool.and_true]

theorem width_cases (hw : (operands bits).width = w) :
    w = 32 ∧ bits.getLsbD 31 = false ∨ w = 64 ∧ bits.getLsbD 31 = true := by
  have hdef : (operands bits).width = if bits.getLsbD 31 then 64 else 32 := rfl
  rw [← hw, hdef]
  cases bits.getLsbD 31 with
  | true => exact .inr ⟨rfl, rfl⟩
  | false => exact .inl ⟨rfl, rfl⟩

/-- The helper of the interpreter, on operands of the width of the instruction. -/
theorem applyAddSub_eq (hw : (operands bits).width = w) (x y : BitVec w) (carry : Bool) :
    applyAddSub state (operands bits) (x.setWidth 64) (y.setWidth 64) carry =
      let computed := Isa.addWithCarry x (if bits.getLsbD 30 then ~~~y else y) carry
      let result := state.writeX (computed.1.setWidth 64)
        (register (field bits 0 5) (!bits.getLsbD 29))
      if bits.getLsbD 29 then { result with nzcv := computed.2 } else result := by
  have hwidth : w = 32 ∨ w = 64 := (width_cases hw).imp And.left And.left
  have hback : ∀ z : BitVec w, ((z.setWidth 64).setWidth 128).setWidth w = z := fun z => by
    rw [setWidth_setWidth_of_le _ (by omega), setWidth_back (by omega)]
  have hout : ∀ z : BitVec w, (z.setWidth 128).setWidth 64 = z.setWidth 64 := fun z =>
    setWidth_setWidth_of_le z (by norm_num)
  unfold applyAddSub
  rw [hw]
  have hsum : (if (operands bits).subtract then
      subtractWithCarry ((x.setWidth 64).setWidth 128) ((y.setWidth 64).setWidth 128) carry w
      else addWithCarry ((x.setWidth 64).setWidth 128) ((y.setWidth 64).setWidth 128) carry w) =
      widened (Isa.addWithCarry x (if bits.getLsbD 30 then ~~~y else y) carry) := by
    show (if bits.getLsbD 30 then _ else _) = _
    cases bits.getLsbD 30 with
    | true =>
      rw [if_pos rfl, if_pos rfl, subtractWithCarry_eq (by omega) (by omega), hback, hback]
    | false =>
      rw [if_neg (by simp), if_neg (by simp), addWithCarry_eq (by omega) (by omega), hback, hback]
  rw [hsum]
  simp only [widened, hout, writeRegister_eq hwidth, arithmeticFlags_eq hwidth]
  simp [operands, register_destination]

theorem applyAddSub_advance (hw : (operands bits).width = w) {x y : BitVec w} {carry : Bool}
    (hcompute : Isa.compute w family bits state =
      Isa.addWithCarry x (if bits.getLsbD 30 then ~~~y else y) carry) :
    (applyAddSub state (operands bits) (x.setWidth 64) (y.setWidth 64) carry).advance =
      written w family bits state (register (field bits 0 5) (!bits.getLsbD 29)) := by
  rw [applyAddSub_eq hw, written, hcompute]
  cases bits.getLsbD 29 <;> rfl

/-- An immediate of twelve bits, shifted or not, fits a word. -/
theorem immediate_eq (hw : w = 32 ∨ w = 64) (bits : BitVec 32) (high : Bool) :
    BitVec.ofNat 64 (field bits 10 12) <<< (if high then 12 else 0) =
      (BitVec.ofNat w (field bits 10 12) <<< (if high then 12 else 0)).setWidth 64 := by
  have hlt : field bits 10 12 < 2 ^ 12 := field_lt bits 10 12
  have hshift : field bits 10 12 * 2 ^ (if high then 12 else 0) < 2 ^ 32 := by
    cases high <;> simp only [false_eq_true, if_false, if_true] <;> omega
  have hpow : 2 ^ 32 ≤ 2 ^ w := Nat.pow_le_pow_right (by norm_num) (by omega)
  apply eq_of_toNat_eq
  rw [toNat_setWidth_of_le (by omega), toNat_shiftLeft, toNat_shiftLeft,
    Nat.shiftLeft_eq, Nat.shiftLeft_eq, toNat_ofNat, toNat_ofNat,
    Nat.mod_eq_of_lt (show field bits 10 12 < 2 ^ 64 by omega),
    Nat.mod_eq_of_lt (show field bits 10 12 < 2 ^ w by omega),
    Nat.mod_eq_of_lt (hshift.trans (by norm_num)), Nat.mod_eq_of_lt (hshift.trans_le hpow)]

theorem shifted_eq (h : Isa.Allocated .shifted bits) (hw : (operands bits).width = w)
    (x : BitVec w) : shifted (x.setWidth 64) (operands bits) =
      some ((Isa.shiftReg x (field bits 22 2) (field bits 10 6)).setWidth 64) := by
  have hwidth := width_cases hw
  have hkinds : field bits 22 2 < 4 := field_lt bits 22 2
  have hamounts : field bits 10 6 < 64 := field_lt bits 10 6
  have hamount : field bits 10 6 < w := by
    rcases hwidth with ⟨rfl, hsf⟩ | ⟨rfl, -⟩
    · exact h.2.2 hsf
    · exact hamounts
  obtain ⟨kind, hkind⟩ : ∃ kind, shiftKind (field bits 22 2) = some kind := by
    have hne := h.2.1
    interval_cases field bits 22 2
    · exact ⟨_, rfl⟩
    · exact ⟨_, rfl⟩
    · exact ⟨_, rfl⟩
    · exact absurd rfl hne
  have hwide : (x.setWidth 64).setWidth 128 = x.setWidth 128 := setWidth_setWidth (by omega)
  unfold shifted
  rw [hw, if_neg (by show ¬ (w = 32 ∧ 32 ≤ field bits 10 6); omega)]
  show (shiftKind (field bits 22 2)).map _ = _
  rw [hkind, hwide]
  show some ((shift (x.setWidth 128) w kind (field bits 10 6)).setWidth 64) = _
  rw [shift_eq (by omega) hkind hamount, setWidth_setWidth_of_le _ (by norm_num)]

/-- What the interpreter takes for its operands are those of the architecture, except for a
doubleword as the extended operand of a word. -/
theorem execute_eq (h : Isa.Allocated family bits) (hw : (operands bits).width = w)
    (hword : ¬ (family = .extended ∧ bits.getLsbD 31 = false ∧ field bits 13 3 % 4 = 3)) :
    execute family state (operands bits) =
      some (written w family bits state (register (field bits 0 5) (!bits.getLsbD 29))) := by
  have hwidth : w = 32 ∨ w = 64 := (width_cases hw).imp And.left And.left
  cases family with
  | immediate =>
    show (some (applyAddSub state (operands bits) (state.readRegister (field bits 5 5) _ true)
      (BitVec.ofNat 64 (field bits 10 12) <<< if bits.getLsbD 22 then 12 else 0)
      (bits.getLsbD 30))).map A64State.advance = _
    rw [hw, readRegister_eq hwidth, immediate_eq hwidth]
    exact congrArg some (applyAddSub_advance hw rfl)
  | shifted =>
    show ((shifted (state.readRegister (field bits 16 5) _ false) (operands bits)).bind
      fun rhs => some (applyAddSub state (operands bits)
        (state.readRegister (field bits 5 5) _ false) rhs (bits.getLsbD 30))).map
          A64State.advance = _
    rw [hw, readRegister_eq hwidth, readRegister_eq hwidth, shifted_eq h hw, bind_some, map_some]
    exact congrArg some (applyAddSub_advance hw rfl)
  | extended =>
    show ((extendRegister (state.readRegister (field bits 16 5) _ false) (field bits 13 3)
      (field bits 10 3) _).bind
      fun rhs => some (applyAddSub state (operands bits)
        (state.readRegister (field bits 5 5) _ true) rhs (bits.getLsbD 30))).map
          A64State.advance = _
    have hsupported : ¬ (field bits 13 3 % 4 = 3 ∧ w = 32) := by
      rintro ⟨hoption, rfl⟩
      rcases width_cases hw with ⟨-, hsf⟩ | ⟨hbad, -⟩
      · exact hword ⟨rfl, hsf, hoption⟩
      · exact absurd hbad (by norm_num)
    rw [hw, readRegister_eq hwidth, readRegister_eq hwidth,
      extendRegister_eq hwidth (field_lt bits 13 3) h.2.2 hsupported, bind_some,
      map_some]
    exact congrArg some (applyAddSub_advance hw rfl)
  | carry =>
    show (some (applyAddSub state (operands bits) (state.readRegister (field bits 5 5) _ false)
      (state.readRegister (field bits 16 5) _ false) state.nzcv.c)).map A64State.advance = _
    rw [hw, readRegister_eq hwidth, readRegister_eq hwidth]
    exact congrArg some (applyAddSub_advance hw rfl)

/-! ### Where the interpreter is exact -/

/-- The encodings that the interpreter does not execute as the architecture: number 31 as the
destination where it is the zero register although no flags are set, and a doubleword register
extended for a word. -/
def Exceptional (family : Family) (bits : BitVec 32) : Prop :=
  (Isa.firstIsSp family = false ∧ bits.getLsbD 29 = false ∧ field bits 0 5 = 31) ∨
    (family = .extended ∧ bits.getLsbD 31 = false ∧ field bits 13 3 % 4 = 3)

instance (family : Family) (bits : BitVec 32) : Decidable (Exceptional family bits) :=
  inferInstanceAs (Decidable (_ ∨ _))

theorem register_of_lt {index : ℕ} (h : index < 31) {sp sp' : Bool} :
    register index sp = register index sp' := by
  rw [register, register, dif_pos h, dif_pos h]

theorem execute_word_doubleword (hsf : bits.getLsbD 31 = false)
    (hoption : field bits 13 3 % 4 = 3) :
    execute .extended state (operands bits) = none := by
  have hwidth : (operands bits).width = 32 := by
    show (if bits.getLsbD 31 then 64 else 32) = 32
    rw [hsf]
    rfl
  have hnone : ∀ value, extendRegister value (operands bits).extension
      (operands bits).smallShift (operands bits).width = none := by
    intro value
    unfold extendRegister
    split
    · rfl
    · rw [if_pos ⟨by show 8 <<< (field bits 13 3 % 4) = 64; rw [hoption]; rfl, hwidth⟩]
  unfold execute addSubExtended
  simp only [hnone]
  rfl

/-- All registers zero, the stack pointer one, and the carry that makes the difference of zeros
zero. -/
def probe (carry : Bool) : A64State where
  x := fun _ => 0
  sp := 1
  pc := 0
  nzcv := { n := false, z := false, c := carry, v := false }

theorem readX_probe (index : ℕ) (carry : Bool) :
    (probe carry).readX (register index false) = 0 := by
  unfold register
  split <;> rfl

theorem shiftReg_zero {type amount : ℕ} : Isa.shiftReg (0#w) type amount = 0#w := by
  unfold shiftReg
  split
  · exact zero_shiftLeft _
  · exact zero_ushiftRight
  · exact zero_sshiftRight

theorem addWithCarry_zero {subtract : Bool} :
    (Isa.addWithCarry (0#w) (if subtract then ~~~(0#w) else 0#w) subtract).1 = 0#w := by
  have hpos : 0 < 2 ^ w := Nat.two_pow_pos w
  apply eq_of_toNat_eq
  unfold Isa.addWithCarry
  cases subtract with
  | true =>
    rw [toNat_ofNat, if_pos rfl, toNat_not, toNat_zero]
    have hone : 0 + (2 ^ w - 1 - 0) + true.toNat = 2 ^ w := by
      simp only [toNat_true]
      omega
    rw [hone, Nat.mod_self]
  | false => simp

theorem compute_probe (hfamily : Isa.firstIsSp family = false) :
    (Isa.compute w family bits (probe (bits.getLsbD 30))).1 = 0#w := by
  have hread : ∀ index, ((probe (bits.getLsbD 30)).readX (register index false)).setWidth w =
      0#w := by
    intro index
    rw [readX_probe]
    exact setWidth_zero _ _
  unfold compute
  rw [hfamily, hread, hread]
  cases family with
  | immediate | extended => exact absurd hfamily (by decide)
  | carry => exact addWithCarry_zero
  | shifted =>
    have hoperand2 : operand2 .shifted bits (0#w) = 0#w := shiftReg_zero
    simp only [hoperand2]
    exact addWithCarry_zero

/-- **The interpreter is exact on an allocated addition or subtraction unless the encoding is one
of the two exceptional kinds**, which it executes otherwise in some state. -/
theorem step_exact_iff (family : Family) (bits : BitVec 32) (h : Isa.Allocated family bits) :
    (∀ state, step bits state = some (Isa.step family bits state)) ↔ ¬ Exceptional family bits := by
  have hstep : ∀ state, step bits state = execute family state (operands bits) := by
    intro state
    rw [step, decode_allocated h, bind_some]
  constructor
  · rintro hexact (⟨hfamily, hflags, hrd⟩ | ⟨rfl, hsf, hoption⟩)
    · -- the interpreter loses the stack pointer to the sum of the zeros
      have hprobe := hexact (probe (bits.getLsbD 30))
      have hword : ¬ (family = .extended ∧ bits.getLsbD 31 = false ∧ field bits 13 3 % 4 = 3) := by
        rintro ⟨rfl, -⟩
        exact absurd hfamily (by decide)
      rw [hstep, execute_eq h rfl hword, isa_step_eq rfl, hfamily, some_inj] at hprobe
      have hsp := congrArg A64State.sp hprobe
      simp only [written, hflags, hrd, compute_probe hfamily] at hsp
      have hzero : (0#(operands bits).width).setWidth 64 = 1#64 := hsp
      rw [setWidth_zero] at hzero
      exact absurd hzero (by decide)
    · have hprobe := hexact (probe true)
      rw [hstep, execute_word_doubleword hsf hoption] at hprobe
      exact absurd hprobe (some_ne_none _).symm
  · intro hregular state
    rw [hstep, execute_eq h rfl fun hword => hregular (.inr hword), isa_step_eq rfl]
    have hlt : field bits 0 5 < 32 := field_lt bits 0 5
    have hdestination : register (field bits 0 5) (!bits.getLsbD 29) =
        register (field bits 0 5) (firstIsSp family && !bits.getLsbD 29) := by
      by_cases hrd : field bits 0 5 < 31
      · exact register_of_lt hrd
      · cases hfamily : firstIsSp family with
        | true => rfl
        | false =>
          cases hflags : bits.getLsbD 29 with
          | true => rfl
          | false => exact absurd (.inl ⟨hfamily, hflags, by omega⟩) hregular
    rw [hdestination]

/-- All bits of `x1` are set, and the other registers are one. -/
def allSet : A64State where
  x := fun index => if index = 1 then allOnes 64 else 1
  sp := 1
  pc := 0
  nzcv := ⟨false, false, false, false⟩

/-- `adds x0, x1, x2` is executed as the architecture defines it, with a carry. -/
theorem step_exact_adds : (Isa.step .shifted 0xab020020#32 allSet).nzcv.c = true ∧
    step 0xab020020#32 allSet = some (Isa.step .shifted 0xab020020#32 allSet) :=
  ⟨by decide, (step_exact_iff .shifted 0xab020020#32 (by decide)).2 (by decide) allSet⟩

/-- `add xzr, x0, x1` replaces the stack pointer and `add w0, w1, w2, uxtx` is refused. -/
theorem exceptions_differ : ((step 0x8b01001f#32 (probe false)).map A64State.sp = some 0 ∧
      (Isa.step .shifted 0x8b01001f#32 (probe false)).sp = 1) ∧
    ((step 0x0b226020#32 (probe false)).isNone = true ∧ Isa.Allocated .extended 0x0b226020#32) := by
  refine ⟨⟨?_, ?_⟩, ?_, ?_⟩ <;> decide

end Nixe.A64
