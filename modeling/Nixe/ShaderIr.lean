/-
**The intermediate representation of the shader recompiler, and what its values are.**

A program is an arena of instructions that name their operands by value: an immediate, or the
number of the instruction that computes it.  Passes replace an instruction by turning it into an
`identity` of its replacement, so every pass looks at operands through `resolve`.  The meaning of a
program is given by the assignments of values to instructions that satisfy the equation of every
instruction.

Main definitions:
* `Ir.resolve`, `Ir.node`, `Ir.arg`, `Ir.equalCbuf` — how passes look at a program.
* `meaning` — the equation of one opcode between its operands and its result.
* `Consistent` — an assignment satisfies the equation of every instruction.

Main results:
* `Consistent.resolveFrom`, `Consistent.arg`, `Consistent.node` — looking through identities does
  not change a value.
-/
import Mathlib.Data.BitVec
import Mathlib.Tactic.Common

set_option autoImplicit false

namespace Nixe.Shader

/-! ### Programs -/

abbrev Word := BitVec 32

inductive Scalar
  | u1 | u8 | u16 | u32 | u64 | f16 | f32 | f64
  deriving DecidableEq

/-- The opcodes that folding looks at.  The source has one `Select` for each scalar type and one
composite opcode of each kind for each scalar type and width. -/
inductive Opcode
  | identity | getCbufU32 | getCbufF32 | getAttribute | getAttributeU32
  | iAdd32 | iAdd64 | iSub32 | iMul32 | shiftLeftLogical32 | shiftRightArithmetic32
  | bitwiseAnd32 | bitwiseOr32 | bitwiseXor32
  | bitFieldInsert | bitFieldSExtract | bitFieldUExtract
  | sLessThan | uLessThan | sLessThanEqual | uLessThanEqual
  | sGreaterThan | uGreaterThan | sGreaterThanEqual | uGreaterThanEqual | iEqual | iNotEqual
  | logicalAnd | logicalOr | logicalNot | select (type : Scalar)
  | compositeConstruct (type : Scalar) (width : ℕ) | compositeExtract (type : Scalar) (width : ℕ)
  | compositeInsert (type : Scalar) (width : ℕ)
  | bitCastF32U32 | bitCastU32F32 | fpNeg32 | fpAdd32 | fpMul32 | other (code : ℕ)
  deriving DecidableEq

inductive Attribute
  | primitiveId | instanceId | vertexId | baseVertex | baseInstance | drawID | other (index : ℕ)
  deriving DecidableEq

/-- An operand: an immediate, or the result of an instruction.  Floats are kept as their bits. -/
inductive Value
  | none | inst (id : ℕ) | reg (index : ℕ) | pred (index : ℕ) | attribute (name : Attribute)
  | patch (index : ℕ) | u1 (value : Bool) | u8 (value : BitVec 8) | u16 (value : BitVec 16)
  | u32 (value : Word) | u64 (value : BitVec 64) | f32 (bits : Word) | f64 (bits : BitVec 64)
  deriving DecidableEq

inductive CompileError
  | internal (message : String)
  | invalidArgument (message : String)
  /-- `UnsupportedReferenceCase`: "Undefined immediate operands for …". -/
  | undefinedOperands (op : Opcode) (args : List Value)

structure Inst where
  opcode : Opcode
  args : List Value

def Inst.arg (inst : Inst) (index : ℕ) : Except CompileError Value :=
  match inst.args[index]? with
  | some value => .ok value
  | none => .error (.invalidArgument "Instruction operand index out of range")

abbrev Ir := List Inst

namespace Ir

def inst (ir : Ir) (id : ℕ) : Except CompileError Inst :=
  match ir[id]? with
  | some inst => .ok inst
  | none => .error (.internal "Unallocated compiler node")

def withOpcode (ir : Ir) (opcode : Opcode) : Value → Except CompileError (Option ℕ)
  | .inst id => return if (← ir.inst id).opcode = opcode then some id else none
  | _ => return none

/-- The loop of `resolve`, with the number of steps that remain. -/
def resolveFrom (ir : Ir) : ℕ → Value → Except CompileError Value
  | 0, value => do
    match ← ir.withOpcode .identity value with
    | none => return value
    | some _ => throw (.internal "Cyclic identity chain")
  | remaining + 1, value => do
    match ← ir.withOpcode .identity value with
    | none => return value
    | some id => ir.resolveFrom remaining (← (← ir.inst id).arg 0)

def resolve (ir : Ir) (value : Value) : Except CompileError Value :=
  ir.resolveFrom ir.length value

def node (ir : Ir) (value : Value) (opcode : Opcode) : Except CompileError (Option ℕ) := do
  ir.withOpcode opcode (← ir.resolve value)

def arg (ir : Ir) (id index : ℕ) : Except CompileError Value := do
  ir.resolve (← (← ir.inst id).arg index)

def equalCbuf (ir : Ir) (a b : Value) : Except CompileError Bool := do
  match ← ir.node a .getCbufU32, ← ir.node b .getCbufU32 with
  | some a, some b =>
    let a ← ir.inst a
    let b ← ir.inst b
    return (← a.arg 0) = (← b.arg 0) ∧ (← a.arg 1) = (← b.arg 1)
  | _, _ => return false

end Ir

/-! ### Values of instructions -/

inductive Val
  | scalar (value : Value)
  | vector (lanes : List Val)

/-- What a program reads: constant buffers and attributes, by the operands of the read. -/
structure Inputs where
  cbuf : Option Val → Option Val → Word
  attrib : Option Val → Option Val → Word

abbrev Meaning := List Val → Val → Prop

section Shapes

variable {α β : Type}

def Unary (i : α → Value) (o : β → Value) (f : α → β) : Meaning := fun args r =>
  ∃ a, args = [.scalar (i a)] ∧ r = .scalar (o (f a))

def Binary (i : α → Value) (o : β → Value) (f : α → α → β) : Meaning := fun args r =>
  ∃ a b, args = [.scalar (i a), .scalar (i b)] ∧ r = .scalar (o (f a b))

end Shapes

/-- A result that is given bit by bit from a word, an offset and a count. -/
def Field (bit : Word → ℕ → ℕ → ℕ → Bool) : Meaning := fun args r =>
  ∃ a offset count x : Word,
    args = [.scalar (.u32 a), .scalar (.u32 offset), .scalar (.u32 count)] ∧
      r = .scalar (.u32 x) ∧ ∀ i < 32, x.getLsbD i = bit a offset.toNat count.toNat i

/-- The equation of an opcode, for the integer, boolean and composite opcodes.  Nothing is said
about the others. -/
def meaning (inputs : Inputs) : Opcode → Meaning
  | .identity => fun args r => args = [r]
  | .getCbufU32 => fun args r => r = .scalar (.u32 (inputs.cbuf args[0]? args[1]?))
  | .getCbufF32 => fun args r => r = .scalar (.f32 (inputs.cbuf args[0]? args[1]?))
  | .getAttribute => fun args r => r = .scalar (.f32 (inputs.attrib args[0]? args[1]?))
  | .getAttributeU32 => fun args r => r = .scalar (.u32 (inputs.attrib args[0]? args[1]?))
  | .iAdd32 => Binary .u32 .u32 (· + ·)
  | .iAdd64 => Binary .u64 .u64 (· + ·)
  | .iSub32 => Binary .u32 .u32 (· - ·)
  | .iMul32 => Binary .u32 .u32 (· * ·)
  | .shiftLeftLogical32 => Binary .u32 .u32 fun a b => a <<< b.toNat
  | .shiftRightArithmetic32 => Binary .u32 .u32 fun a b => .ofInt 32 (a.toInt / 2 ^ b.toNat)
  | .bitwiseAnd32 => Binary .u32 .u32 (· &&& ·)
  | .bitwiseOr32 => Binary .u32 .u32 (· ||| ·)
  | .bitwiseXor32 => Binary .u32 .u32 (· ^^^ ·)
  | .bitFieldUExtract => Field fun a offset count i => i < count && a.getLsbD (offset + i)
  | .bitFieldSExtract => Field fun a offset count i => a.getLsbD (offset + min i (count - 1))
  | .bitFieldInsert => fun args r => ∃ a b offset count x : Word,
      args = [a, b, offset, count].map (.scalar ∘ .u32) ∧ r = .scalar (.u32 x) ∧
        ∀ i < 32, x.getLsbD i = if offset.toNat ≤ i ∧ i < offset.toNat + count.toNat
          then b.getLsbD (i - offset.toNat) else a.getLsbD i
  | .sLessThan => Binary .u32 .u1 fun a b => a.toInt < b.toInt
  | .uLessThan => Binary .u32 .u1 fun a b => a.toNat < b.toNat
  | .sLessThanEqual => Binary .u32 .u1 fun a b => a.toInt ≤ b.toInt
  | .uLessThanEqual => Binary .u32 .u1 fun a b => a.toNat ≤ b.toNat
  | .sGreaterThan => Binary .u32 .u1 fun a b => a.toInt > b.toInt
  | .uGreaterThan => Binary .u32 .u1 fun a b => a.toNat > b.toNat
  | .sGreaterThanEqual => Binary .u32 .u1 fun a b => a.toInt ≥ b.toInt
  | .uGreaterThanEqual => Binary .u32 .u1 fun a b => a.toNat ≥ b.toNat
  | .iEqual => Binary .u32 .u1 fun a b => a.toNat = b.toNat
  | .iNotEqual => Binary .u32 .u1 fun a b => a.toNat ≠ b.toNat
  | .logicalAnd => Binary .u1 .u1 (· && ·)
  | .logicalOr => Binary .u1 .u1 (· || ·)
  | .logicalNot => Unary .u1 .u1 (! ·)
  | .select _ => fun args r => ∃ c a b, args = [.scalar (.u1 c), a, b] ∧ r = if c then a else b
  | .compositeConstruct _ _ => fun args r => r = .vector args
  | .compositeExtract _ _ => fun args r =>
    ∃ lanes i, args = [.vector lanes, .scalar (.u32 i)] ∧ lanes[i.toNat]? = some r
  | .compositeInsert _ _ => fun args r =>
    ∃ lanes e i, args = [.vector lanes, e, .scalar (.u32 i)] ∧ r = .vector (lanes.set i.toNat e)
  | .bitCastF32U32 => Unary .u32 .f32 id
  | .bitCastU32F32 => Unary .f32 .u32 id
  | _ => fun _ _ => True

def eval (ρ : ℕ → Val) : Value → Val
  | .inst id => ρ id
  | value => .scalar value

/-- The equation of instruction `id` under the assignment `ρ`. -/
def Holds (inputs : Inputs) (ρ : ℕ → Val) (id : ℕ) (inst : Inst) : Prop :=
  meaning inputs inst.opcode (inst.args.map (eval ρ)) (ρ id)

def Consistent (inputs : Inputs) (ir : Ir) (ρ : ℕ → Val) : Prop :=
  ∀ id inst, ir[id]? = some inst → Holds inputs ρ id inst

/-! ### Looking through identities -/

theorem bind_ok {α β : Type} {x : Except CompileError α} {f : α → Except CompileError β} {r : β}
    (h : (x >>= f) = .ok r) : ∃ a, x = .ok a ∧ f a = .ok r := by
  cases x with
  | error => cases h
  | ok a => exact ⟨a, rfl, h⟩

variable {inst : Inst} {id : ℕ}

theorem Ir.inst_ok {ir : Ir} (h : ir.inst id = .ok inst) : ir[id]? = some inst := by
  unfold Ir.inst at h
  split at h <;> simp_all

theorem Inst.arg_ok {index : ℕ} {value : Value} (h : inst.arg index = .ok value) :
    inst.args[index]? = some value := by
  unfold Inst.arg at h
  split at h <;> simp_all

section

variable {inputs : Inputs} {ir : Ir} {ρ : ℕ → Val} {v : Value}

theorem Ir.withOpcode_ok {op : Opcode} (h : ir.withOpcode op v = .ok (some id)) :
    v = .inst id ∧ ∃ inst, ir[id]? = some inst ∧ inst.opcode = op := by
  unfold Ir.withOpcode at h
  split at h
  · obtain ⟨inst, hinst, h⟩ := bind_ok h
    split at h <;> cases h
    exact ⟨rfl, inst, Ir.inst_ok hinst, ‹_›⟩
  · cases h

section Consistent

variable (hc : Consistent inputs ir ρ)
include hc

theorem Consistent.identity (hinst : ir[id]? = some inst)
    (hop : inst.opcode = .identity) (harg : inst.arg 0 = .ok v) : eval ρ v = ρ id := by
  have heq := hc id inst hinst
  rw [Holds, hop] at heq
  have h0 : (inst.args.map (eval ρ))[0]? = some (eval ρ v) := by simp [Inst.arg_ok harg]
  simpa [show inst.args.map _ = [ρ id] from heq] using h0.symm

theorem Consistent.resolveFrom {remaining : ℕ} {w : Value}
    (h : ir.resolveFrom remaining v = .ok w) : eval ρ w = eval ρ v := by
  induction remaining generalizing v with
  | zero =>
    obtain ⟨_ | _, -, h⟩ := bind_ok h <;> cases h
    rfl
  | succ n ih =>
    obtain ⟨_ | id, hid, h⟩ := bind_ok h
    · cases h; rfl
    obtain ⟨inst, hinst, h⟩ := bind_ok h
    obtain ⟨value, harg, hr⟩ := bind_ok h
    obtain ⟨rfl, inst', hinst', hop⟩ := Ir.withOpcode_ok hid
    cases hinst'.symm.trans (Ir.inst_ok hinst)
    exact (ih hr).trans (hc.identity hinst' hop harg)

/-- The operands of an instruction, as a pass reads them, have the values of its equation. -/
theorem Consistent.arg {index : ℕ} {w : Value}
    (hinst : ir[id]? = some inst) (h : ir.arg id index = .ok w) :
    (inst.args.map (eval ρ))[index]? = some (eval ρ w) := by
  obtain ⟨inst', hinst', h⟩ := bind_ok h
  obtain ⟨v, hv, hr⟩ := bind_ok h
  cases hinst.symm.trans (Ir.inst_ok hinst')
  simp [Inst.arg_ok hv, hc.resolveFrom hr]

/-- An instruction found behind a value has the value's equation. -/
theorem Consistent.node {op : Opcode} (h : ir.node v op = .ok (some id)) :
    ∃ inst, ir[id]? = some inst ∧ meaning inputs op (inst.args.map (eval ρ)) (eval ρ v) := by
  obtain ⟨w, hw, h⟩ := bind_ok h
  obtain ⟨rfl, inst, hinst, rfl⟩ := Ir.withOpcode_ok h
  exact ⟨inst, hinst, (hc.resolveFrom hw).symm ▸ hc id inst hinst⟩

/-- **Equal constant-buffer reads have equal values.** -/
theorem Consistent.equalCbuf {a b : Value}
    (h : ir.equalCbuf a b = .ok true) : eval ρ a = eval ρ b := by
  obtain ⟨_ | ia, ha, h⟩ := bind_ok h
  · obtain ⟨_, -, h⟩ := bind_ok h
    cases h
  obtain ⟨_ | ib, hb, h⟩ := bind_ok h
  · cases h
  obtain ⟨a', ha', h⟩ := bind_ok h
  obtain ⟨b', hb', h⟩ := bind_ok h
  obtain ⟨a0, ha0, h⟩ := bind_ok h
  obtain ⟨b0, hb0, h⟩ := bind_ok h
  obtain ⟨a1, ha1, h⟩ := bind_ok h
  obtain ⟨b1, hb1, h⟩ := bind_ok h
  obtain ⟨insta, hia, ma⟩ := hc.node ha
  obtain ⟨instb, hib, mb⟩ := hc.node hb
  cases hia.symm.trans (Ir.inst_ok ha')
  cases hib.symm.trans (Ir.inst_ok hb')
  have heq : a0 = b0 ∧ a1 = b1 := by simpa [pure, Except.pure] using h
  rw [show eval ρ a = _ from ma, show eval ρ b = _ from mb]
  simp [Inst.arg_ok ha0, Inst.arg_ok hb0, Inst.arg_ok ha1, Inst.arg_ok hb1, heq]

end Consistent

end

end Nixe.Shader
