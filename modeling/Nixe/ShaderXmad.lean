/-
**Recovery of full multiplications from half-word products.**

The guest multiplies 32-bit words by `XMAD`, sixteen bits at a time.  `multiply` and `multiplyAdd`
recognise the sums of shifted products that result and name the factors and the addend, so that
one multiplication can take their place.  The matchers accept operands that are the same value or
equal reads of a constant buffer.

Main definitions:
* `multiply`, `multiplyAdd` — the source's matchers.
* `half` — sixteen bits of a word.

Main results:
* `xmad_exact` — what is matched has the value of the product, plus the addend.
-/
import Nixe.ShaderIr
import Mathlib.Tactic.LinearCombination

set_option autoImplicit false

namespace Nixe.Shader

open Option BitVec

/-! ### The matchers -/

/-- The resolved operands of the instruction behind a value; what it has not is `none`. -/
def operands (ir : Ir) (value : Value) (opcode : Opcode) : Option (ℕ → Value) := do
  let id ← (ir.node value opcode).toOption.join
  let inst ← (ir.inst id).toOption
  if ∀ index < min 4 inst.args.length, (ir.arg id index).toOption.isSome then
    some fun index => (ir.arg id index).toOption.getD .none
  else none

def extract (ir : Ir) (value : Value) (offset : Word) : Option Value := do
  let args ← operands ir value .bitFieldUExtract
  guard (args 1 = .u32 offset ∧ args 2 = .u32 16)
  return args 0

def shift16 (ir : Ir) (value : Value) : Option Value := do
  let args ← operands ir value .shiftLeftLogical32
  guard (args 1 = .u32 16)
  return args 0

def multiply (ir : Ir) (id : ℕ) : Option (Value × Value) := do
  let lhs ← shift16 ir (← (ir.arg id 0).toOption)
  let a ← operands ir lhs .iMul32
  let b ← operands ir (← (ir.arg id 1).toOption) .iMul32
  guard (a 1 = b 1)
  let factor ← extract ir (a 0) 16
  guard (factor = (← extract ir (b 0) 0))
  return (factor, a 1)

def equal (ir : Ir) : List Value → Option Bool
  | a :: b :: rest => do
    let same ← if a = b then some true else (ir.equalCbuf a b).toOption
    if same then equal ir (b :: rest) else some false
  | _ => some true

def multiplyAdd (ir : Ir) (id : ℕ) : Option (Value × Value × Value) := do
  let high ← operands ir (← shift16 ir (← (ir.arg id 0).toOption)) .iMul32
  let outer ← operands ir (← (ir.arg id 1).toOption) .iAdd32
  let factorB ← extract ir (high 0) 16
  let packed ← extract ir (high 1) 16
  let merge ← operands ir packed .bitFieldInsert
  guard (merge 2 = .u32 16 ∧ merge 3 = .u32 16 ∧ (← shift16 ir (outer 0)) = packed)
  let part ← operands ir (merge 0) .iMul32
  let lowAdd ← operands ir (outer 1) .iAdd32
  let low ← operands ir (lowAdd 0) .iMul32
  let a0 ← extract ir (part 1) 16
  let a1 ← extract ir (low 1) 0
  let a2 ← extract ir (merge 1) 0
  let b1 ← extract ir (part 0) 0
  let b2 ← extract ir (low 0) 0
  guard ((← equal ir [a0, a1, a2]) ∧ (← equal ir [factorB, b1, b2]))
  return (a0, b1, lowAdd 1)

/-! ### Half-words -/

/-- The sixteen bits of `x` from `offset` on. -/
def half (x : Word) (offset : ℕ) : Word := .ofNat 32 (x.toNat / 2 ^ offset % 2 ^ 16)

theorem getLsbD_half {x : Word} {offset : ℕ} {i : ℕ} (hi : i < 32) :
    (half x offset).getLsbD i = (decide (i < 16) && x.getLsbD (offset + i)) := by
  rw [half, getLsbD_ofNat, Nat.testBit_mod_two_pow, Nat.testBit_div_two_pow, add_comm]
  simp [hi, getLsbD]

theorem halves (x : Word) : x = 65536 * half x 16 + half x 0 := by
  apply eq_of_toNat_eq
  simp [half]
  omega

theorem half_half (x : Word) : half (half x 0) 0 = half x 0 := by
  apply eq_of_toNat_eq
  simp [half]

theorem mul_65536 (x : Word) : x * 65536 = half x 0 * 65536 := by
  have hzero : (65536 : Word) * 65536 = 0 := by decide
  linear_combination 65536 * halves x + half x 16 * hzero

/-- The half-word products of two factors, the middle ones packed into one word. -/
theorem halves_product {x y z p c : Word} (hzp : half z 0 = half p 0) (hzm : half z 16 = half x 0)
    (hp : p = half y 0 * half x 16) :
    half y 16 * half z 16 * 65536 + (z * 65536 + (half y 0 * half x 0 + c)) = x * y + c := by
  have hzero : (65536 : Word) * 65536 = 0 := by decide
  have hz : z * 65536 = half y 0 * half x 16 * 65536 := by
    rw [mul_65536, hzp, ← mul_65536, hp]
  rw [hz, hzm]
  linear_combination (-y) * halves x - (65536 * half x 16 + half x 0) * halves y
    - half x 16 * half y 16 * hzero

/-! ### What is matched -/

section

variable {inputs : Inputs} {ir : Ir} {ρ : ℕ → Val} {v a b : Value} {args : ℕ → Value} {x y : Word}

def Is (ρ : ℕ → Val) (v : Value) (x : Word) : Prop := eval ρ v = .scalar (.u32 x)

theorem bind_some {α β : Type} {o : Option α} {f : α → Option β} {r : β} (h : (o >>= f) = some r) :
    ∃ a, o = some a ∧ f a = some r := bind_eq_some_iff.1 h

theorem toOption_ok {α : Type} {e : Except CompileError α} {r : α} (h : e.toOption = some r) :
    e = .ok r := by
  cases e with
  | error => cases h
  | ok => cases h; rfl

variable (hc : Consistent inputs ir ρ)
include hc

theorem operands_spec {op : Opcode} (h : operands ir v op = some args) :
    ∃ vals, meaning inputs op vals (eval ρ v) ∧
      ∀ i < 4, ∀ val, vals[i]? = some val → eval ρ (args i) = val := by
  obtain ⟨id, hid, h⟩ := bind_some h
  obtain ⟨inst, hinst, h⟩ := bind_some h
  rw [join_eq_some_iff] at hid
  obtain ⟨inst', hinst', hmeaning⟩ := hc.node (toOption_ok hid)
  cases hinst'.symm.trans (Ir.inst_ok (toOption_ok hinst))
  split at h
  · rename_i hall
    cases h
    refine ⟨_, hmeaning, fun i hi val hval => ?_⟩
    have hlt : i < inst.args.length := by simpa using (getElem?_eq_some_iff.1 hval).1
    obtain ⟨w, hw⟩ := isSome_iff_exists.1 (hall i (by omega))
    have harg := hc.arg hinst' (toOption_ok hw)
    rw [hval] at harg
    simp only [hw, getD_some]
    exact (some.inj harg).symm
  · cases h

theorem binary_spec {op : Opcode} {f : Word → Word → Word}
    (hop : meaning inputs op = Binary .u32 .u32 f) (h : operands ir v op = some args) :
    ∃ x y, Is ρ (args 0) x ∧ Is ρ (args 1) y ∧ Is ρ v (f x y) := by
  obtain ⟨vals, hmeaning, hargs⟩ := operands_spec hc h
  rw [hop] at hmeaning
  obtain ⟨x, y, rfl, hv⟩ := hmeaning
  exact ⟨x, y, hargs 0 (by decide) _ rfl, hargs 1 (by decide) _ rfl, hv⟩

theorem extract_spec {offset : Word} (h : extract ir v offset = some a) :
    ∃ x, Is ρ a x ∧ Is ρ v (half x offset.toNat) := by
  obtain ⟨args, hargs, h⟩ := bind_some h
  obtain ⟨_, hguard, h⟩ := bind_some h
  have hfield := (guard_eq_some' _).1 hguard
  cases h
  obtain ⟨vals, ⟨x, o, n, y, rfl, hy, hbits⟩, hvals⟩ := operands_spec hc hargs
  have ho := hvals 1 (by decide) _ rfl
  have hn := hvals 2 (by decide) _ rfl
  rw [hfield.1] at ho
  rw [hfield.2] at hn
  cases ho
  cases hn
  refine ⟨x, hvals 0 (by decide) _ rfl, ?_⟩
  rw [Is, hy, eq_of_getLsbD_eq fun i hi => (hbits i hi).trans (getLsbD_half hi).symm]

theorem shift16_spec (h : shift16 ir v = some a) : ∃ x, Is ρ a x ∧ Is ρ v (x * 65536) := by
  obtain ⟨args, hargs, h⟩ := bind_some h
  obtain ⟨_, hguard, h⟩ := bind_some h
  have hshift := (guard_eq_some' _).1 hguard
  cases h
  obtain ⟨x, y, hx, hy, hv⟩ := binary_spec hc rfl hargs
  rw [hshift] at hy
  cases hy
  refine ⟨x, hx, hv.trans ?_⟩
  exact congrArg (fun w => Val.scalar _) (shiftLeft_eq_mul_twoPow x 16)

/-- An insertion of sixteen bits at bit 16 packs two half-words. -/
theorem insert_spec (h : operands ir v .bitFieldInsert = some args) (h2 : args 2 = .u32 16)
    (h3 : args 3 = .u32 16) :
    ∃ p m z, Is ρ (args 0) p ∧ Is ρ (args 1) m ∧ Is ρ v z ∧ half z 0 = half p 0 ∧
      half z 16 = half m 0 := by
  obtain ⟨vals, ⟨p, m, o, n, z, rfl, hz, hbits⟩, hvals⟩ := operands_spec hc h
  have ho := hvals 2 (by decide) _ rfl
  have hn := hvals 3 (by decide) _ rfl
  rw [h2] at ho
  rw [h3] at hn
  cases ho
  cases hn
  refine ⟨p, m, z, hvals 0 (by decide) _ rfl, hvals 1 (by decide) _ rfl, hz, ?_, ?_⟩
  all_goals
    apply eq_of_getLsbD_eq
    intro i hi
    rw [getLsbD_half hi, getLsbD_half hi]
    by_cases hlt : i < 16
    · rw [hbits _ (by omega)]
      simp [hlt, show ¬ 32 ≤ 16 + i by omega]
    · simp [hlt]

theorem equal_spec {rest : List Value} (h : equal ir (a :: b :: rest) = some true) :
    eval ρ a = eval ρ b ∧ equal ir (b :: rest) = some true := by
  rw [equal] at h
  split at h
  · rename_i hab
    exact ⟨congrArg _ hab, h⟩
  · obtain ⟨same, hsame, h⟩ := bind_some h
    cases same with
    | true => exact ⟨hc.equalCbuf (toOption_ok hsame), h⟩
    | false => cases h

section Sum

variable {id : ℕ} {inst : Inst} (hinst : ir[id]? = some inst) (hop : inst.opcode = .iAdd32)
include hinst hop

theorem sum_spec : ∃ s t, ρ id = .scalar (.u32 (s + t)) ∧
    ∀ i v, (ir.arg id i).toOption = some v →
      some (eval ρ v) = [Val.scalar (.u32 s), .scalar (.u32 t)][i]? := by
  obtain ⟨s, t, hst, hsum⟩ : Binary .u32 .u32 (· + ·) (inst.args.map (eval ρ)) (ρ id) := by
    have := hc id inst hinst
    rwa [Holds, hop] at this
  refine ⟨s, t, hsum, fun i v hv => ?_⟩
  rw [← hst]
  exact (hc.arg hinst (toOption_ok hv)).symm

theorem multiply_spec (h : multiply ir id = some (a, b)) :
    ∃ x y, Is ρ a x ∧ Is ρ b y ∧ ρ id = .scalar (.u32 (x * y)) := by
  obtain ⟨s, t, hsum, harg⟩ := sum_spec hc hinst hop
  simp only [multiply, bind_eq_bind, bind_eq_some_iff, guard_eq_some'] at h
  obtain ⟨u, hu, lhs, hlhs, high, hhigh, w, hw, low, hlow, -, hsame, factor, hfactor, factor',
    hfactor', -, rfl, h⟩ := h
  cases h
  obtain ⟨p, hp, hs⟩ := shift16_spec hc hlhs
  obtain ⟨xh, y, hxh, hy, hp'⟩ := binary_spec hc rfl hhigh
  obtain ⟨xl, y', hxl, hy', ht⟩ := binary_spec hc rfl hlow
  obtain ⟨x, hx, hxh'⟩ := extract_spec hc hfactor
  obtain ⟨x', hx', hxl'⟩ := extract_spec hc hfactor'
  have hhalves : x = 65536 * half x 16 + half x 0 := halves x
  refine ⟨x, y, hx, hy, hsum.trans ?_⟩
  have hs₁ : s = half x 16 * y * 65536 := by grind [Is]
  have ht₁ : t = half x 0 * y := by grind [Is]
  congr 2
  linear_combination hs₁ + ht₁ - y * hhalves

theorem multiplyAdd_spec {c : Value} (h : multiplyAdd ir id = some (a, b, c)) :
    ∃ x y z, Is ρ a x ∧ Is ρ b y ∧ Is ρ c z ∧ ρ id = .scalar (.u32 (x * y + z)) := by
  obtain ⟨s, t, hsum, harg⟩ := sum_spec hc hinst hop
  unfold multiplyAdd at h
  obtain ⟨u, hu, h⟩ := bind_some h
  obtain ⟨lhs, hlhs, h⟩ := bind_some h
  obtain ⟨high, hhigh, h⟩ := bind_some h
  obtain ⟨w, hw, h⟩ := bind_some h
  obtain ⟨outer, houter, h⟩ := bind_some h
  obtain ⟨factorB, hfactorB, h⟩ := bind_some h
  obtain ⟨packed, hpacked, h⟩ := bind_some h
  obtain ⟨merge, hmerge, h⟩ := bind_some h
  obtain ⟨packed', hpacked', h⟩ := bind_some h
  obtain ⟨_, hguard, h⟩ := bind_some h
  obtain ⟨hm2, hm3, hsame⟩ := (guard_eq_some' _).1 hguard
  obtain ⟨part, hpart, h⟩ := bind_some h
  obtain ⟨lowAdd, hlowAdd, h⟩ := bind_some h
  obtain ⟨low, hlow, h⟩ := bind_some h
  obtain ⟨a0, ha0, h⟩ := bind_some h
  obtain ⟨a1, ha1, h⟩ := bind_some h
  obtain ⟨a2, ha2, h⟩ := bind_some h
  obtain ⟨b1, hb1, h⟩ := bind_some h
  obtain ⟨b2, hb2, h⟩ := bind_some h
  obtain ⟨ea, hea, h⟩ := bind_some h
  obtain ⟨eb, heb, h⟩ := bind_some h
  obtain ⟨_, hguard, h⟩ := bind_some h
  obtain ⟨rfl, rfl⟩ := (guard_eq_some' _).1 hguard
  cases h
  obtain ⟨hi, hlhs', hs⟩ := shift16_spec hc hlhs
  obtain ⟨bh, ph, hbh, hph, hhi⟩ := binary_spec hc rfl hhigh
  obtain ⟨o0, o1, ho0, ho1, hout⟩ := binary_spec hc rfl houter
  obtain ⟨y0, hy0, hbh'⟩ := extract_spec hc hfactorB
  obtain ⟨z, hz, hph'⟩ := extract_spec hc hpacked
  obtain ⟨p, m, z', hp, hm, hz', hzp, hzm⟩ := insert_spec hc hmerge hm2 hm3
  obtain ⟨z'', hz'', ho0'⟩ := shift16_spec hc hpacked'
  obtain ⟨pb, pa, hpb, hpa, hp'⟩ := binary_spec hc rfl hpart
  obtain ⟨l0, c, hl0, hcc, ho1'⟩ := binary_spec hc rfl hlowAdd
  obtain ⟨lb, la, hlb, hla, hl0'⟩ := binary_spec hc rfl hlow
  obtain ⟨x, hx, hpa'⟩ := extract_spec hc ha0
  obtain ⟨x1, hx1, hla'⟩ := extract_spec hc ha1
  obtain ⟨x2, hx2, hm'⟩ := extract_spec hc ha2
  obtain ⟨y, hy, hpb'⟩ := extract_spec hc hb1
  obtain ⟨y2, hy2, hlb'⟩ := extract_spec hc hb2
  obtain ⟨hx01, hea⟩ := equal_spec hc hea
  obtain ⟨hx12, -⟩ := equal_spec hc hea
  obtain ⟨hy01, heb⟩ := equal_spec hc heb
  obtain ⟨hy12, -⟩ := equal_spec hc heb
  have hzx : half m 0 = half x 0 := by
    have hm2 : m = half x 0 := by grind [Is]
    rw [hm2, half_half]
  refine ⟨x, y, c, hx, hy, hcc, hsum.trans ?_⟩
  rw [← halves_product hzp (hzm.trans hzx) (by grind [Is])]
  grind [Is]

end Sum

/-- **What is matched has the value of the product**, plus the addend. -/
theorem xmad_exact {id : ℕ} {inst : Inst} (hinst : ir[id]? = some inst)
    (hop : inst.opcode = .iAdd32) :
    (∀ a b, multiply ir id = some (a, b) →
      ∃ x y, Is ρ a x ∧ Is ρ b y ∧ ρ id = .scalar (.u32 (x * y))) ∧
    ∀ a b c, multiplyAdd ir id = some (a, b, c) →
      ∃ x y z, Is ρ a x ∧ Is ρ b y ∧ Is ρ c z ∧ ρ id = .scalar (.u32 (x * y + z)) :=
  ⟨fun _ _ => multiply_spec hc hinst hop, fun _ _ _ => multiplyAdd_spec hc hinst hop⟩

end

/-- The product of a constant-buffer value and three. -/
def product : Ir :=
  [⟨.getCbufU32, [.u32 0, .u32 0]⟩, ⟨.bitFieldUExtract, [.inst 0, .u32 16, .u32 16]⟩,
    ⟨.bitFieldUExtract, [.inst 0, .u32 0, .u32 16]⟩, ⟨.iMul32, [.inst 1, .u32 3]⟩,
    ⟨.shiftLeftLogical32, [.inst 3, .u32 16]⟩, ⟨.iMul32, [.inst 2, .u32 3]⟩,
    ⟨.iAdd32, [.inst 4, .inst 5]⟩]

/-- Its values when the buffer holds `0x20005`. -/
def productValues (id : ℕ) : Val :=
  .scalar (.u32 ([0x20005, 2, 5, 6, 0x60000, 15].getD id 0x6000f))

theorem product_consistent :
    Consistent ⟨fun _ _ => 0x20005, fun _ _ => 0⟩ product productValues := by
  intro id inst h
  match id, h with
  | 0, rfl => rfl
  | 1, rfl => exact ⟨0x20005, 16, 16, 2, rfl, rfl, by decide⟩
  | 2, rfl => exact ⟨0x20005, 0, 16, 5, rfl, rfl, by decide⟩
  | 3, rfl => exact ⟨2, 3, rfl, rfl⟩
  | 4, rfl => exact ⟨6, 16, rfl, rfl⟩
  | 5, rfl => exact ⟨5, 3, rfl, rfl⟩
  | 6, rfl => exact ⟨0x60000, 15, rfl, rfl⟩

theorem xmad_exact_product : ∃ x y, Is productValues (.inst 0) x ∧ Is productValues (.u32 3) y ∧
      productValues 6 = .scalar (.u32 (x * y)) :=
  (xmad_exact product_consistent rfl rfl).1 _ _ rfl

end Nixe.Shader
