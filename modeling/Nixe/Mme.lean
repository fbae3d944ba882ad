/-
**The macro method expander.**

A channel uploads small programs into an instruction RAM and their first addresses into a table,
and then calls them by a macro index.  A program computes on eight registers, fetches its parameters
in order, and emits methods to the host, with a delay slot after a branch and after an exit.

A program that only moves constants and parameters around is compiled, once, to the list of the
methods that it emits; the list is then run in place of the program.  The compiler executes the
program on symbolic values.

Main definitions:

* `MmeInstruction.decode`, `MmeInstructionRam` — the instruction RAM, with the compiled programs of
  the macros;
* `step`, `interpret` — the interpreter;
* `compile`, `DirectProgram.execute` — the compiler, and compiled programs;
* `execute` — a call of a macro.
-/

import Mathlib
import Nixe.CallPairs

set_option autoImplicit false

namespace Nixe.Mme

open Std (TreeMap)
open Call (read update fail failIf okOr ofExcept expect focus)

/-! ### Instructions -/

/-- `MAXWELL_THREE_D_MME_EXECUTION_INSTRUCTION_LIMIT`. -/
def executionInstructionLimit : ℕ := 65536

/-- `MAXWELL_THREE_D_MME_EMITTED_METHOD_LIMIT`. -/
def emittedMethodLimit : ℕ := 16384

def methodDwordMask : UInt32 := 0x0fff

/-- `MME_INSTRUCTION_PAGE_WORDS`. -/
abbrev instructionPageWords : ℕ := 64

/-- `u32::checked_add`. -/
def wordAdd (a b : UInt32) : Option UInt32 :=
  if a.toNat + b.toNat < 2 ^ 32 then some (a + b) else none

/-- `u32::checked_sub`. -/
def wordSub (a b : UInt32) : Option UInt32 := if b ≤ a then some (a - b) else none

def signedImmediate (raw : UInt32) : Int32 := raw.toInt32 >>> 14

def addSigned18 (base : UInt32) (immediate : Int32) : Option UInt32 :=
  if 0 ≤ immediate then wordAdd base immediate.toUInt32
  else wordSub base (UInt32.ofNat immediate.toInt.natAbs)

def bitfieldMask (raw : UInt32) : UInt32 := ((1 : UInt32) <<< ((raw >>> 22) &&& 0x1f)) - 1

/-- A decoded instruction.  The fields are three and five bits wide. -/
structure MmeInstruction where
  immediate : Int32
  mask : UInt32
  operation : Fin 8
  result : Fin 8
  destination : Fin 8
  srcA : Fin 8
  srcB : Fin 8
  alu : Fin 32
  sourceBit : Fin 32
  destinationBit : Fin 32
  exit : Bool
  branchNonzero : Bool
  branchAnnul : Bool
deriving DecidableEq

def MmeInstruction.decode (raw : UInt32) : MmeInstruction where
  immediate := signedImmediate raw
  mask := bitfieldMask raw
  operation := Fin.ofNat 8 (raw &&& 7).toNat
  result := Fin.ofNat 8 ((raw >>> 4) &&& 7).toNat
  destination := Fin.ofNat 8 ((raw >>> 8) &&& 7).toNat
  srcA := Fin.ofNat 8 ((raw >>> 11) &&& 7).toNat
  srcB := Fin.ofNat 8 ((raw >>> 14) &&& 7).toNat
  alu := Fin.ofNat 32 ((raw >>> 17) &&& 31).toNat
  sourceBit := Fin.ofNat 32 ((raw >>> 17) &&& 31).toNat
  destinationBit := Fin.ofNat 32 ((raw >>> 27) &&& 31).toNat
  exit := raw &&& ((1 : UInt32) <<< 7) != 0
  branchNonzero := raw &&& ((1 : UInt32) <<< 4) != 0
  branchAnnul := raw &&& ((1 : UInt32) <<< 5) != 0

/-- `MaxwellThreeDRegister`, without the method that programmed it. -/
structure MaxwellThreeDRegister (α : Type) where
  raw : Option UInt32 := none
  value : Option α := none
deriving DecidableEq

def MaxwellThreeDRegister.programmed {α : Type} (raw : UInt32) (value : α) :
    MaxwellThreeDRegister α := ⟨some raw, some value⟩

structure MmeInstructionPage where
  registers : Vector (Option (MaxwellThreeDRegister UInt32)) instructionPageWords
  decoded : Vector (Option MmeInstruction) instructionPageWords

abbrev MmePages : Type := TreeMap ℕ MmeInstructionPage

def MmePages.page (pages : MmePages) (address : UInt32) : Option MmeInstructionPage :=
  pages[address.toNat / instructionPageWords]?

/-- The place of a word in its page. -/
def pageSlot (address : UInt32) : Fin instructionPageWords :=
  Fin.ofNat instructionPageWords address.toNat

/-! ### Errors and hosts -/

inductive MaxwellThreeDMmeExecutionError where
  | missingStartAddress (macroIndex : UInt8)
  | missingInstruction (address : UInt32)
  | invalidOperation (address : UInt32) (operation : Fin 8)
  | invalidAluOperation (address : UInt32) (operation : Fin 32)
  | branchInDelaySlot (address : UInt32)
  | programCounterOverflow (address : UInt32)
  | parameterUnavailable (index : ℕ)
  | unconsumedParameters (consumed supplied : ℕ)
  | registerReadUnavailable (methodDword : UInt16)
  | instructionLimitExceeded (limit : ℕ)
  | emittedMethodLimitExceeded (limit : ℕ)
deriving DecidableEq, Repr

inductive MaxwellThreeDMmeRunError (ε : Type) where
  | execution (error : MaxwellThreeDMmeExecutionError)
  | host (error : ε)
deriving DecidableEq, Repr

/-- The services of a host with states `η` and errors `ε`. -/
structure MaxwellThreeDMmeHost (η ε : Type) where
  readRegister : η → UInt16 → Except ε UInt32
  emitMethod : η → UInt16 → UInt32 → Except ε Unit × η

/-! ### The interpreter -/

/-- The state of `MaxwellThreeDMmeInterpreter`. -/
structure Interpreter (η : Type) where
  instructionPage : Option (Vector (Option MmeInstruction) instructionPageWords) := none
  instructionPageIndex : ℕ := 0
  host : η
  registers : Vector UInt32 8
  pc : UInt32
  delayedPc : Option UInt32 := none
  nextParameter : ℕ := 1
  methodAddress : UInt16 := 0
  methodIncrement : UInt8 := 0
  carry : Bool := false
  instructions : ℕ := 0
  emittedMethods : ℕ := 0

section

variable {η ε : Type}

abbrev RunCall (η ε α : Type) : Type := Call (Interpreter η) (MaxwellThreeDMmeRunError ε) α

def executionError {σ α : Type} (error : MaxwellThreeDMmeExecutionError) :
    Call σ (MaxwellThreeDMmeRunError ε) α := fail (.execution error)

def Interpreter.setRegister (i : Interpreter η) (register : Fin 8) (value : UInt32) :
    Interpreter η :=
  { i with registers := if register ≠ 0 then i.registers.set register value else i.registers }

def Interpreter.setMethodAddress (i : Interpreter η) (raw : UInt32) : Interpreter η :=
  { i with
    methodAddress := (raw &&& methodDwordMask).toUInt16
    methodIncrement := ((raw >>> 12) &&& 0x3f).toUInt8 }

def fetchParameter (parameters : List UInt32) : RunCall η ε UInt32 := do
  let i ← read
  let index := i.nextParameter
  let value ← okOr parameters[index]? (.execution (.parameterUnavailable index))
  update fun i => { i with nextParameter := i.nextParameter + 1 }
  return value

variable (result : Fin 8) (host : MaxwellThreeDMmeHost η ε)

def send (value : UInt32) : RunCall η ε Unit := do
  let i ← read
  failIf (i.emittedMethods == emittedMethodLimit)
    (.execution (.emittedMethodLimitExceeded emittedMethodLimit))
  let (result, h) := host.emitMethod i.host i.methodAddress value
  update fun i => { i with host := h }
  ofExcept (result.mapError .host)
  update fun i =>
    { i with
      emittedMethods := i.emittedMethods + 1
      methodAddress := ((i.methodAddress.toUInt32 + i.methodIncrement.toUInt32) &&&
        methodDwordMask).toUInt16 }

def processResult (parameters : List UInt32)
    (operation destination : Fin 8) (result : UInt32) : RunCall η ε Unit :=
  match operation with
  | 0 => do
      let parameter ← fetchParameter parameters
      update (·.setRegister destination parameter)
  | 1 => update (·.setRegister destination result)
  | 2 => do
      update (·.setRegister destination result)
      update (·.setMethodAddress result)
  | 3 => do
      let parameter ← fetchParameter parameters
      update (·.setRegister destination parameter)
      send host result
  | 4 => do
      update (·.setRegister destination result)
      send host result
  | 5 => do
      let parameter ← fetchParameter parameters
      update (·.setRegister destination parameter)
      update (·.setMethodAddress result)
  | 6 => do
      update (·.setRegister destination result)
      update (·.setMethodAddress result)
      let parameter ← fetchParameter parameters
      send host parameter
  | 7 => do
      update (·.setRegister destination result)
      update (·.setMethodAddress result)
      send host ((result >>> 12) &&& 0x3f)

/-- `overflowing_add`, and the carry. -/
def overflowingAdd (a b : UInt32) : UInt32 × Bool := (a + b, decide (2 ^ 32 ≤ a.toNat + b.toNat))

/-- `overflowing_sub`, and the borrow. -/
def overflowingSub (a b : UInt32) : UInt32 × Bool := (a - b, decide (a < b))

def alu (address : UInt32) (operation : Fin 32) (a b : UInt32) : RunCall η ε UInt32 := do
  let i ← read
  match operation.val with
  | 0 =>
    let (result, carry) := overflowingAdd a b
    update fun i => { i with carry }
    return result
  | 1 =>
    let (sum, first) := overflowingAdd a b
    let (result, second) := overflowingAdd sum i.carry.toUInt32
    update fun i => { i with carry := first || second }
    return result
  | 2 =>
    let (result, borrow) := overflowingSub a b
    update fun i => { i with carry := !borrow }
    return result
  | 3 =>
    let (difference, first) := overflowingSub a b
    let (result, second) := overflowingSub difference (!i.carry).toUInt32
    update fun i => { i with carry := !(first || second) }
    return result
  | 8 => return a ^^^ b
  | 9 => return a ||| b
  | 10 => return a &&& b
  | 11 => return a &&& ~~~b
  | 12 => return ~~~(a &&& b)
  | _ => executionError (.invalidAluOperation address operation)

/-- The value that an instruction other than a branch computes. -/
def computeResult (address : UInt32) (instruction : MmeInstruction) : RunCall η ε UInt32 := do
  let i ← read
  let srcA := i.registers[instruction.srcA]
  let srcB := i.registers[instruction.srcB]
  let sourceBit := UInt32.ofNat instruction.sourceBit
  let destinationBit := UInt32.ofNat instruction.destinationBit
  match instruction.operation.val with
  | 0 => alu address instruction.alu srcA srcB
  | 1 => return srcA + instruction.immediate.toUInt32
  | 2 =>
    let mask := instruction.mask
    let source := (srcB >>> sourceBit) &&& mask
    return (srcA &&& ~~~(mask <<< destinationBit)) ||| (source <<< destinationBit)
  | 3 => return ((srcB >>> (srcA &&& 0x1f)) &&& instruction.mask) <<< destinationBit
  | 4 => return ((srcB >>> sourceBit) &&& instruction.mask) <<< (srcA &&& 0x1f)
  | 5 =>
    let method := srcA + instruction.immediate.toUInt32
    failIf (method > methodDwordMask) (.execution (.registerReadUnavailable method.toUInt16))
    ofExcept ((host.readRegister i.host method.toUInt16).mapError .host)
  | _ => executionError (.invalidOperation address instruction.operation)

variable (pages : MmePages)

/-- The page of the next instruction is looked up if it is not the page of the last one. -/
def refreshPage (i : Interpreter η) : Interpreter η :=
  let pageIndex := i.pc.toNat / instructionPageWords
  if i.instructionPage.isNone || i.instructionPageIndex != pageIndex then
    { i with
      instructionPage := (pages.page i.pc).map MmeInstructionPage.decoded
      instructionPageIndex := pageIndex }
  else i

/-- The next instruction, with its address. -/
def fetchInstruction : RunCall η ε (UInt32 × MmeInstruction) := do
  let i ← read
  failIf (i.instructions == executionInstructionLimit)
    (.execution (.instructionLimitExceeded executionInstructionLimit))
  let address := i.pc
  update (refreshPage pages)
  let i ← read
  let instruction ← okOr (i.instructionPage.bind fun page => page[pageSlot address])
    (.execution (.missingInstruction address))
  update fun i => { i with instructions := i.instructions + 1 }
  let pc ← okOr (wordAdd address 1) (.execution (.programCounterOverflow address))
  update fun i => { i with pc := i.delayedPc.getD pc, delayedPc := none }
  return (address, instruction)

def MmeInstruction.takesBranch (instruction : MmeInstruction) (value : UInt32) : Bool :=
  if !instruction.branchNonzero then value == 0 else value != 0

/-- The body of `step`; `delaySlot` is the call `self.step(true)`. -/
def stepWith (parameters : List UInt32)
    (delaySlot : RunCall η ε Bool) (isDelaySlot : Bool) : RunCall η ε Bool := do
  let (address, instruction) ← fetchInstruction pages
  let leave : RunCall η ε Bool :=
    if instruction.exit && !isDelaySlot then do
      let _ ← delaySlot
      return false
    else return true
  if instruction.operation = 7 then
    failIf isDelaySlot (.execution (.branchInDelaySlot address))
    let i ← read
    if instruction.takesBranch i.registers[instruction.srcA] then
      let target ← okOr (addSigned18 address instruction.immediate)
        (.execution (.programCounterOverflow address))
      if instruction.branchAnnul then
        update fun i => { i with pc := target }
        return true
      else
        update fun i => { i with delayedPc := some target }
        delaySlot
    else leave
  else
    let result ← computeResult host address instruction
    processResult host parameters instruction.result instruction.destination result
    leave

/-- `self.step(true)`: a delay slot has no delay slot. -/
def stepDelaySlot (parameters : List UInt32) : RunCall η ε Bool :=
  stepWith host pages parameters (expect none "a delay slot in a delay slot") true

/-- `self.step(false)`. -/
def step (parameters : List UInt32) : RunCall η ε Bool :=
  stepWith host pages parameters (stepDelaySlot host pages parameters) false

/-- `while interpreter.step(false)? {}`. -/
def runSteps (host : MaxwellThreeDMmeHost η ε) (pages : MmePages) (parameters : List UInt32) :
    ℕ → RunCall η ε Unit
  | 0 => expect none "the loop does not end"
  | fuel + 1 => do
      if ← step host pages parameters then runSteps host pages parameters fuel

/-- All parameters must have been used. -/
def checkConsumed {σ : Type} (consumed supplied : ℕ) : Call σ (MaxwellThreeDMmeRunError ε) Unit :=
  failIf (consumed != supplied) (.execution (.unconsumedParameters consumed supplied))

/-- The interpreter at the first instruction of a program. -/
def Interpreter.start (host : η) (start first : UInt32) : Interpreter η where
  host
  registers := (Vector.replicate 8 0).set 1 first
  pc := start

/-- The program is run from its start address; an instruction limit keeps it from running on. -/
def interpret (start first : UInt32)
    (parameters : List UInt32) : Call η (MaxwellThreeDMmeRunError ε) Unit := fun h =>
  let run : RunCall η ε Unit := do
    runSteps host pages parameters (executionInstructionLimit + 1)
    let i ← read
    checkConsumed i.nextParameter parameters.length
  match run (Interpreter.start h start first) with
  | (out, i) => (out, i.host)

/-! ### Direct programs -/

inductive Value where
  | constant (value : UInt32)
  | parameter (index : ℕ)
deriving DecidableEq, Repr

inductive Operation where
  | parameter (index : ℕ)
  | send (method : UInt16) (value : Value)
deriving DecidableEq, Repr

structure DirectProgram where
  operations : List Operation
  parameters : ℕ
deriving DecidableEq, Repr

structure Compiler where
  pc : UInt32
  registers : Vector Value 8
  parameters : ℕ
  method : UInt16
  increment : UInt16
  operations : List Operation
  delay : Bool

/-- The operations of the unit on constants; the carry is not followed. -/
def constantAlu (operation : Fin 32) (a b : UInt32) : Option UInt32 :=
  match operation.val with
  | 0 => some (a + b)
  | 2 => some (a - b)
  | 8 => some (a ^^^ b)
  | 9 => some (a ||| b)
  | 10 => some (a &&& b)
  | 11 => some (a &&& ~~~b)
  | 12 => some (~~~(a &&& b))
  | _ => none

def symbolicAlu (operation : Fin 32) (a b : Value) : Option Value :=
  if operation ∈ [0, 8, 9] ∧ a = .constant 0 then some b
  else if operation ∈ [0, 2, 8, 9] ∧ b = .constant 0 then some a
  else if operation = 10 ∧ b = .constant 0xffffffff then some a
  else if operation = 10 ∧ a = .constant 0xffffffff then some b
  else match a, b with
    | .constant a, .constant b => (constantAlu operation a b).map .constant
    | _, _ => none

def symbolicResult (instruction : MmeInstruction) (a b : Value) : Option Value :=
  match instruction.operation.val with
  | 1 => match a with
      | .constant value => some (.constant (value + instruction.immediate.toUInt32))
      | .parameter _ => if instruction.immediate = 0 then some a else none
  | 0 => symbolicAlu instruction.alu a b
  | _ => none

def Value.constant? : Value → Option UInt32
  | .constant value => some value
  | .parameter _ => none

def Compiler.setRegister (st : Compiler) (destination : Fin 8) (value : Value) : Compiler :=
  { st with
    registers := if destination ≠ 0 then st.registers.set destination value else st.registers }

def Compiler.setMethodAddress (st : Compiler) (raw : UInt32) : Compiler :=
  { st with
    method := (raw &&& methodDwordMask).toUInt16
    increment := ((raw >>> 12) &&& 0x3f).toUInt16 }

def Compiler.fetchParameter (st : Compiler) : Compiler :=
  { st with
    operations := st.operations ++ [.parameter st.parameters]
    parameters := st.parameters + 1 }

def Compiler.send (st : Compiler) (value : Value) : Compiler :=
  { st with
    operations := st.operations ++ [.send st.method value]
    method := (st.method + st.increment) &&& methodDwordMask.toUInt16 }

/-- What the instruction sends. -/
def sentValue (value : Value) (fetched : Option Value) : Option (Option Value) :=
  match result.val with
  | 3 | 4 => some (some value)
  | 6 => some fetched
  | 7 => value.constant?.map fun (raw : UInt32) => some (.constant ((raw >>> 12) &&& 0x3f))
  | _ => some none

/-- Whether an instruction fetches a parameter. -/
def fetches : Bool := result ∈ [0, 3, 5, 6]

/-- Whether an instruction sets the method. -/
def setsMethod : Bool := result ∈ [2, 5, 6, 7]

/-- What becomes of the value of an instruction. -/
def Compiler.process (st : Compiler) (result destination : Fin 8) (value : Value) :
    Option Compiler := do
  let fetched := if fetches result then some (.parameter st.parameters) else none
  let st := if fetches result then st.fetchParameter else st
  let st := st.setRegister destination ((fetched.filter fun _ => result ≠ 6).getD value)
  let st ← (if setsMethod result then value.constant?.map st.setMethodAddress else some st :)
  let sent ← sentValue result value fetched
  return sent.elim st st.send

/-- One instruction on symbolic values. -/
def Compiler.execute (st : Compiler) (instruction : MmeInstruction) : Option Compiler := do
  let value ← symbolicResult instruction st.registers[instruction.srcA]
    st.registers[instruction.srcB]
  st.process instruction.result instruction.destination value

/-- The loop of `compile`. -/
def compileFrom (pages : MmePages) : ℕ → Compiler → Option DirectProgram
  | 0, _ => none
  | fuel + 1, st => do
      let page ← pages.page st.pc
      let instruction ← page.decoded[pageSlot st.pc]
      let pc ← wordAdd st.pc 1
      let st' ← { st with pc }.execute instruction
      if st.delay then return ⟨st'.operations, st'.parameters⟩
      else compileFrom pages fuel { st' with delay := instruction.exit }

def compile (pc : UInt32) : Option DirectProgram :=
  compileFrom pages 256
    { pc
      registers := (Vector.replicate 8 (.constant 0)).set 1 (.parameter 0)
      parameters := 1
      method := 0
      increment := 0
      operations := []
      delay := false }

/-- One operation of a direct program.  A parameter is there by the time it is sent. -/
def Operation.execute (parameters : List UInt32) :
    Operation → Call η (MaxwellThreeDMmeRunError ε) Unit
  | .parameter index =>
    failIf (index ≥ parameters.length) (.execution (.parameterUnavailable index))
  | .send method value => do
      let value ← match value with
        | .constant value => pure value
        | .parameter index => expect parameters[index]? "index out of bounds"
      let h ← read
      let (result, h') := host.emitMethod h method value
      update fun _ => h'
      ofExcept (result.mapError .host)

/-- The loop of `DirectProgram::execute`. -/
def executeOperations (host : MaxwellThreeDMmeHost η ε) (parameters : List UInt32) :
    List Operation → Call η (MaxwellThreeDMmeRunError ε) Unit
  | [] => return ()
  | operation :: operations => do
      operation.execute host parameters
      executeOperations host parameters operations

def DirectProgram.execute (program : DirectProgram) (host : MaxwellThreeDMmeHost η ε)
    (parameters : List UInt32) : Call η (MaxwellThreeDMmeRunError ε) Unit := do
  executeOperations host parameters program.operations
  checkConsumed program.parameters parameters.length

/-! ### The instruction RAM -/

/-- The compiled programs of the 256 macros; one that was not asked for yet is not there. -/
abbrev ProgramCache : Type := Vector (Option (Option DirectProgram)) 256

/-- The words that were uploaded; two instruction RAMs are equal if these are. -/
structure MmeImage where
  pages : MmePages := {}
  count : ℕ := 0

structure MmeInstructionRam extends MmeImage where
  programs : ProgramCache := Vector.replicate 256 none

/-- A clone starts without compiled programs. -/
def MmeInstructionRam.clone (ram : MmeInstructionRam) : MmeInstructionRam :=
  { toMmeImage := ram.toMmeImage }

def emptyPage : MmeInstructionPage where
  registers := Vector.replicate instructionPageWords none
  decoded := Vector.replicate instructionPageWords none

def MmeImage.insert (image : MmeImage) (address : UInt32)
    (register : MaxwellThreeDRegister UInt32) : MmeImage :=
  let page := (image.pages.page address).getD emptyPage
  let index := pageSlot address
  { count := if page.registers[index].isNone then image.count + 1 else image.count
    pages := image.pages.insert (address.toNat / instructionPageWords)
      { registers := page.registers.set index (some register)
        decoded := page.decoded.set index (register.value.map MmeInstruction.decode) } }

/-- A word is replaced, and all compiled programs are dropped. -/
def MmeInstructionRam.insert (ram : MmeInstructionRam) (address : UInt32)
    (register : MaxwellThreeDRegister UInt32) : MmeInstructionRam where
  toMmeImage := ram.toMmeImage.insert address register
  programs := Vector.replicate 256 none

abbrev StartAddresses : Type := TreeMap ℕ (MaxwellThreeDRegister UInt32)

def StartAddresses.start (table : StartAddresses) (macroIndex : UInt8) : Option UInt32 :=
  table[macroIndex.toNat]?.bind MaxwellThreeDRegister.value

/-- The place of a macro among the compiled programs. -/
def macroSlot (macroIndex : UInt8) : Fin 256 := Fin.ofNat 256 macroIndex.toNat

/-- `self.instructions.programs[macro_index].get_or_init(..)`. -/
def getOrInit (ram : MmeInstructionRam) (macroIndex : UInt8) (start : UInt32) :
    Option DirectProgram × MmeInstructionRam :=
  match ram.programs[macroSlot macroIndex] with
  | some program => (program, ram)
  | none =>
    let program := compile ram.pages start
    (program, { ram with programs := ram.programs.set (macroSlot macroIndex) (some program) })

/-- `MaxwellThreeDMmeProgram::execute`, on an instruction RAM and a host. -/
def execute (host : MaxwellThreeDMmeHost η ε) (startAddresses : StartAddresses)
    (macroIndex : UInt8) (parameters : List UInt32) :
    Call (MmeInstructionRam × η) (MaxwellThreeDMmeRunError ε) Unit := do
  let start ← okOr (startAddresses.start macroIndex) (.execution (.missingStartAddress macroIndex))
  let first ← okOr parameters.head? (.execution (.parameterUnavailable 0))
  let (ram, _) ← read
  let (program, ram') := getOrInit ram macroIndex start
  update fun (_, h) => (ram', h)
  match program with
  | some program => focus Prod.snd (fun s h => (s.1, h)) (program.execute host parameters)
  | none =>
    focus Prod.snd (fun s h => (s.1, h)) (interpret host ram.pages start first parameters)

end

end Nixe.Mme
