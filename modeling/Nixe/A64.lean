/-
**Adding and subtracting on A64.**

One helper of the interpreter serves the four encodings of additions and subtractions: with an
immediate, with a shifted register, with an extended register and with the carry flag.  This module
models the decoding of these encodings and one step of the interpreter on them, on the machine
integers of the source, and states next to it what the architecture defines.

Main definitions:

* `A64State`, `readRegister`, `writeRegister` — the registers and how they are named;
* `addWithCarry`, `shift`, `extendRegister` — the arithmetic of the interpreter;
* `decode`, `step` — one step;
* `Isa.addWithCarry`, `Isa.extendReg`, `Isa.step` — the definition of the architecture.
-/
import Mathlib.Tactic

set_option autoImplicit false

namespace Nixe.A64

/-! ### Registers -/

/-- The condition flags. -/
structure Nzcv where
  n : Bool
  z : Bool
  c : Bool
  v : Bool
  deriving DecidableEq, Repr

/-- `A64State`, as far as integer instructions touch it. -/
@[ext] structure A64State where
  x : Fin 31 → BitVec 64
  sp : BitVec 64
  pc : BitVec 64
  nzcv : Nzcv

inductive A64Register
  | general (index : Fin 31)
  | stackPointer
  | zero
  deriving DecidableEq

/-- `stack_pointer_register` and `zero_register`: the two meanings of number 31. -/
def register (index : ℕ) (register31IsSp : Bool) : A64Register :=
  if h : index < 31 then .general ⟨index, h⟩ else if register31IsSp then .stackPointer else .zero

variable (bits : BitVec 32) (state : A64State)

def A64State.readX : A64Register → BitVec 64
  | .general index => state.x index
  | .stackPointer => state.sp
  | .zero => 0

variable (value : BitVec 64)

def A64State.writeX : A64Register → A64State
  | .general index => { state with x := Function.update state.x index value }
  | .stackPointer => { state with sp := value }
  | .zero => state

/-- `read`: a 32-bit register is the low half. -/
def A64State.readRegister (index width : ℕ) (register31IsSp : Bool) : BitVec 64 :=
  if width = 64 then state.readX (register index register31IsSp)
  else ((state.readX (register index register31IsSp)).setWidth 32).setWidth 64

/-- `write`: a 32-bit value clears the high half. -/
def A64State.writeRegister (index width : ℕ) (register31IsSp : Bool)
    (value : BitVec 64) : A64State :=
  if width = 64 then state.writeX value (register index register31IsSp)
  else state.writeX ((value.setWidth 32).setWidth 64) (register index register31IsSp)

/-! ### Arithmetic -/

def mask (width : ℕ) : BitVec 128 :=
  if width = 128 then BitVec.allOnes 128 else (1#128 <<< width) - 1#128

def truncate (width : ℕ) (value : BitVec 128) : BitVec 128 := value &&& mask width

@[ext] structure AddWithCarryResult where
  result : BitVec 128
  carryOut : Bool
  overflow : Bool
  deriving DecidableEq, Repr

def addWithCarry (lhs rhs : BitVec 128) (carryIn : Bool) (width : ℕ) : AddWithCarryResult :=
  let lhs := truncate width lhs
  let rhs := truncate width rhs
  let carry : BitVec 128 := if carryIn then 1 else 0
  let partialSum := lhs + rhs
  let sum := partialSum + carry
  let result := truncate width sum
  { result := result
    carryOut :=
      if width = 128 then lhs.uaddOverflow rhs || partialSum.uaddOverflow carry
      else mask width < sum
    overflow := ~~~(lhs ^^^ rhs) &&& (lhs ^^^ result) &&& (1#128 <<< (width - 1)) != 0#128 }

def subtractWithCarry (lhs rhs : BitVec 128) (carryIn : Bool) (width : ℕ) : AddWithCarryResult :=
  addWithCarry lhs (~~~truncate width rhs) carryIn width

/-- `ShiftKind`, as far as additions know it. -/
inductive ShiftKind
  | logicalLeft
  | logicalRight
  | arithmeticRight
  deriving DecidableEq, Repr

/-- `shift_kind` without rotations. -/
def shiftKind : ℕ → Option ShiftKind
  | 0 => some .logicalLeft
  | 1 => some .logicalRight
  | 2 => some .arithmeticRight
  | _ => none

/-- The result of `a64_shift_with_carry`, whose carry additions do not use. -/
def shift (value : BitVec 128) (width : ℕ) (kind : ShiftKind) (amount : ℕ) : BitVec 128 :=
  let value := truncate width value
  if amount = 0 then value
  else
    match kind with
    | .logicalLeft => if width ≤ amount then 0 else truncate width (value <<< amount)
    | .logicalRight => if width ≤ amount then 0 else value >>> amount
    | .arithmeticRight =>
      let negative := value &&& (1#128 <<< (width - 1)) != 0#128
      if width ≤ amount then if negative then mask width else 0
      else truncate width
        (value >>> amount ||| if negative then mask width <<< (width - amount) else 0)

/-- `signed_immediate`. -/
def signExtend (bits : ℕ) : BitVec 64 :=
  (value <<< (64 - bits)).sshiftRight (64 - bits)

def extendRegister (option shift destinationWidth : ℕ) : Option (BitVec 64) :=
  if 4 < shift ∨ 7 < option then none
  else
    let sourceWidth := 8 <<< (option % 4)
    if sourceWidth = 64 ∧ destinationWidth = 32 then none
    else
      let sourceMask : BitVec 64 :=
        if sourceWidth = 64 then BitVec.allOnes 64 else (1#64 <<< sourceWidth) - 1#64
      let truncated := value &&& sourceMask
      let extended :=
        if option < 4 ∨ sourceWidth = 64 then truncated else signExtend truncated sourceWidth
      some ((extended <<< shift) &&&
        if destinationWidth = 64 then BitVec.allOnes 64 else 0xffffffff)

/-! ### Decoding -/

/-- `Operands`, as far as additions and subtractions use them. -/
structure Operands where
  rd : ℕ
  rn : ℕ
  rm : ℕ
  shiftAmount : ℕ
  smallShift : ℕ
  shiftKind : ℕ
  immediate12 : ℕ
  extension : ℕ
  n : Bool
  setFlags : Bool
  subtract : Bool
  width64 : Bool
  deriving DecidableEq, Repr

def field (low length : ℕ) : ℕ := (bits.extractLsb' low length).toNat

/-- `normalize`. -/
def operands : Operands where
  rd := field bits 0 5
  rn := field bits 5 5
  rm := field bits 16 5
  shiftAmount := field bits 10 6
  smallShift := field bits 10 3
  shiftKind := field bits 22 2
  immediate12 := field bits 10 12
  extension := field bits 13 3
  n := bits.getLsbD 22
  setFlags := bits.getLsbD 29
  subtract := bits.getLsbD 30
  width64 := bits.getLsbD 31

/-- The four families of additions and subtractions. -/
inductive Family
  | immediate
  | shifted
  | extended
  | carry
  deriving DecidableEq, Repr

/-- The patterns of the families, which no other pattern of the table meets. -/
def Family.pattern : Family → BitVec 32 × BitVec 32
  | .immediate => (0x1f000000, 0x11000000)
  | .shifted => (0x1f200000, 0x0b000000)
  | .extended => (0x1f200000, 0x0b200000)
  | .carry => (0x1fe0fc00, 0x1a000000)

/-- The encoding matches the pattern of the family. -/
def Family.matches (family : Family) (bits : BitVec 32) : Bool :=
  bits &&& family.pattern.1 == family.pattern.2

/-- `validate_a64` for the families. -/
def Family.allocated (family : Family) (bits : BitVec 32) : Bool :=
  match family with
  | .shifted => field bits 22 2 != 3 && (bits.getLsbD 31 || field bits 10 6 < 32)
  | .extended => field bits 10 3 ≤ 4
  | _ => true

/-- `DecoderTable::decode`, among the families. -/
def decode : Option Family :=
  [Family.immediate, .shifted, .extended, .carry].find? fun family =>
    family.matches bits && family.allocated bits

/-! ### A step -/

variable (fields : Operands)

def Operands.width : ℕ := if fields.width64 then 64 else 32

/-- `set_arithmetic_flags`. -/
def arithmeticFlags (result : BitVec 64) (carry overflow : Bool) (bits : ℕ) : Nzcv where
  n := result &&& (1#64 <<< (bits - 1)) != 0#64
  z := result == 0#64
  c := carry
  v := overflow

def applyAddSub (lhs rhs : BitVec 64) (carry : Bool) : A64State :=
  let result :=
    if fields.subtract then
      subtractWithCarry (lhs.setWidth 128) (rhs.setWidth 128) carry fields.width
    else addWithCarry (lhs.setWidth 128) (rhs.setWidth 128) carry fields.width
  let value := result.result.setWidth 64
  let state :=
    state.writeRegister fields.rd fields.width (!fields.setFlags && fields.rd == 31) value
  if fields.setFlags then
    { state with nzcv := arithmeticFlags value result.carryOut result.overflow fields.width }
  else state

def addSubImmediate : Option A64State :=
  let lhs := state.readRegister fields.rn fields.width true
  let rhs := BitVec.ofNat 64 fields.immediate12 <<< if fields.n then 12 else 0
  some (applyAddSub state fields lhs rhs fields.subtract)

/-- `shifted` without rotations. -/
def shifted : Option (BitVec 64) :=
  if fields.width = 32 ∧ 32 ≤ fields.shiftAmount then none
  else (shiftKind fields.shiftKind).map fun kind =>
    (shift (value.setWidth 128) fields.width kind fields.shiftAmount).setWidth 64

def addSubShifted : Option A64State := do
  let rhs ← shifted (state.readRegister fields.rm fields.width false) fields
  let lhs := state.readRegister fields.rn fields.width false
  some (applyAddSub state fields lhs rhs fields.subtract)

def addSubExtended : Option A64State := do
  let rm := state.readRegister fields.rm fields.width false
  let rhs ← extendRegister rm fields.extension fields.smallShift fields.width
  let lhs := state.readRegister fields.rn fields.width true
  some (applyAddSub state fields lhs rhs fields.subtract)

def addSubCarry : Option A64State :=
  let lhs := state.readRegister fields.rn fields.width false
  let rhs := state.readRegister fields.rm fields.width false
  some (applyAddSub state fields lhs rhs state.nzcv.c)

def A64State.advance : A64State := { state with pc := state.pc + 4 }

/-- `execute` on a family; `none` is an instruction that the interpreter does not support. -/
def execute (family : Family) (state : A64State) (fields : Operands) : Option A64State :=
  (match family with
    | .immediate => addSubImmediate state fields
    | .shifted => addSubShifted state fields
    | .extended => addSubExtended state fields
    | .carry => addSubCarry state fields).map A64State.advance

/-- One step of the interpreter on an addition or a subtraction. -/
def step : Option A64State :=
  (decode bits).bind fun family => execute family state (operands bits)

/-! ### The architecture -/

namespace Isa

/-- `AddWithCarry`: the flags compare with the unbounded sums. -/
def addWithCarry {w : ℕ} (x y : BitVec w) (carryIn : Bool) : BitVec w × Nzcv :=
  let unsignedSum : ℕ := x.toNat + y.toNat + carryIn.toNat
  let signedSum : ℤ := x.toInt + y.toInt + carryIn.toNat
  let result := BitVec.ofNat w unsignedSum
  (result,
    { n := result.msb
      z := result == 0
      c := result.toNat != unsignedSum
      v := result.toInt != signedSum })

def shiftReg {w : ℕ} (value : BitVec w) (type amount : ℕ) : BitVec w :=
  match type with
  | 0 => value <<< amount
  | 1 => value >>> amount
  | _ => value.sshiftRight amount

/-- `ExtendReg`: the low bits of the register, then `shift` zeros, extended. -/
def extendReg {w : ℕ} (value : BitVec w) (option shift : ℕ) : BitVec w :=
  let length := min (8 <<< (option % 4)) (w - shift)
  if option < 4 then (value.extractLsb' 0 length ++ BitVec.zero shift).setWidth w
  else (value.extractLsb' 0 length ++ BitVec.zero shift).signExtend w

/-- Whether an encoding of a family is allocated. -/
def Allocated (family : Family) (bits : BitVec 32) : Prop :=
  family.matches bits = true ∧
    match family with
    | .immediate => bits.getLsbD 23 = false
    | .shifted => field bits 22 2 ≠ 3 ∧ (bits.getLsbD 31 = false → field bits 10 6 < 32)
    | .extended => field bits 22 2 = 0 ∧ field bits 10 3 ≤ 4
    | .carry => True

instance (family : Family) (bits : BitVec 32) : Decidable (Allocated family bits) :=
  match family with
  | .immediate | .shifted | .extended | .carry => inferInstanceAs (Decidable (_ ∧ _))

/-- Whether number 31 as the first operand is the stack pointer. -/
def firstIsSp : Family → Bool
  | .immediate | .extended => true
  | .shifted | .carry => false

def operand2 {w : ℕ} (family : Family) (bits : BitVec 32) (rm : BitVec w) : BitVec w :=
  match family with
  | .immediate => BitVec.ofNat w (field bits 10 12) <<< if bits.getLsbD 22 then 12 else 0
  | .shifted => shiftReg rm (field bits 22 2) (field bits 10 6)
  | .extended => extendReg rm (field bits 13 3) (field bits 10 3)
  | .carry => rm

/-- The result and the flags at width `w`. -/
def compute (w : ℕ) (family : Family) (bits : BitVec 32) (state : A64State) : BitVec w × Nzcv :=
  let operand1 := (state.readX (register (field bits 5 5) (firstIsSp family))).setWidth w
  let rm := (state.readX (register (field bits 16 5) false)).setWidth w
  let operand2 := operand2 family bits rm
  let subtract := bits.getLsbD 30
  addWithCarry operand1 (if subtract then ~~~operand2 else operand2)
    (match family with
      | .carry => state.nzcv.c
      | _ => subtract)

/-- What an allocated instruction does: number 31 as the destination is the stack pointer in the
forms with an immediate and with an extended register, if no flags are set. -/
def step (family : Family) (bits : BitVec 32) (state : A64State) : A64State :=
  let destination := register (field bits 0 5) (firstIsSp family && !bits.getLsbD 29)
  let (value, flags) :=
    if bits.getLsbD 31 then compute 64 family bits state
    else
      let (value, flags) := compute 32 family bits state
      (value.setWidth 64, flags)
  let written := (state.writeX value destination).advance
  if bits.getLsbD 29 then { written with nzcv := flags } else written

end Isa

end Nixe.A64
