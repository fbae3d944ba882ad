/-
**Direct programs do what the interpreter does.**

After as many instructions, the registers of the interpreter are the values of the compiler's
symbolic registers, it has fetched as many parameters, and it emits to the same method.  So each
instruction emits what its operations emit, and fails where they fail.

Main definitions:

* `Mirrors` — the interpreter and the compiler are at the same point.

Main results:

* `computeResult_eq` — the symbolic value is the value;
* `processResult_follows` — an instruction does what its operations do;
* `execute_eq_interpret` — **a direct program runs as its instructions do**;
* `interpret_not_panic` — the interpreter comes to an end.
-/

import Nixe.Mme

set_option autoImplicit false

namespace Nixe.Mme

open Call (read update failIf okOr ofExcept Follows bind_bind)
open Option (bind_eq_some_iff)
open List

/-! ### Symbolic values -/

def Value.eval (parameters : List UInt32) : Value → UInt32
  | .constant value => value
  | .parameter index => parameters.getD index 0

/-- The value is made of the first `n` parameters. -/
def Value.Below (n : ℕ) : Value → Prop
  | .constant _ => True
  | .parameter index => index < n

theorem Value.Below.mono {v : Value} {n m : ℕ} (h : v.Below n) (hnm : n ≤ m) : v.Below m := by
  cases v with
  | constant => trivial
  | parameter => exact lt_of_lt_of_le h hnm

/-- The interpreter `i` and the compiler `st` are at the same point of a program, after `steps`
instructions, of which the interpreter sent at most `sent` methods. -/
structure Mirrors {η : Type} (pages : MmePages) (parameters : List UInt32) (steps sent : ℕ)
    (st : Compiler) (i : Interpreter η) : Prop where
  pc_eq : i.pc = st.pc
  delayedPc_eq : i.delayedPc = none
  register_eq : ∀ r : Fin 8,
    getElem i.registers r r.isLt = (getElem st.registers r r.isLt).eval parameters
  below : ∀ r : Fin 8, (getElem st.registers r r.isLt).Below st.parameters
  nextParameter_eq : i.nextParameter = st.parameters
  supplied : st.parameters ≤ parameters.length
  method_eq : i.methodAddress = st.method
  increment_eq : i.methodIncrement.toUInt16 = st.increment
  page_eq : i.instructionPage.isSome →
    i.instructionPage = pages[i.instructionPageIndex]?.map MmeInstructionPage.decoded
  instructions_eq : i.instructions = steps
  sent_le : i.emittedMethods ≤ sent

section

variable {η ε α : Type} {pages : MmePages} {parameters : List UInt32} {steps sent : ℕ}
  {st st' : Compiler} {i : Interpreter η} (host : MaxwellThreeDMmeHost η ε) {operation : Fin 32}
  {b a : UInt32} {v : Value} {instruction : MmeInstruction} {destination : Fin 8}
  {page : MmeInstructionPage} {program : DirectProgram} {e : MaxwellThreeDMmeRunError ε}

/-! ### The value of an instruction -/

variable (address : UInt32)

theorem alu_eq_of_constantAlu {a b c : UInt32} (h : constantAlu operation a b = some c) :
    ∃ carry, (alu address operation a b : RunCall η ε UInt32) i = (.ok c, { i with carry }) := by
  unfold constantAlu at h
  split at h <;> cases h <;> rename_i hop <;> simp only [alu, hop, Call.bind_run, Call.read_run]
  · exact ⟨_, rfl⟩
  · exact ⟨_, rfl⟩
  · exact ⟨_, rfl⟩
  · exact ⟨_, rfl⟩
  · exact ⟨_, rfl⟩
  · exact ⟨_, rfl⟩
  · exact ⟨_, rfl⟩

theorem constantAlu_zero_left (h : operation ∈ [(0 : Fin 32), 8, 9]) :
    constantAlu operation 0 b = some b := by
  fin_cases h <;> simp [constantAlu]

theorem constantAlu_zero_right (h : operation ∈ [(0 : Fin 32), 2, 8, 9]) :
    constantAlu operation a 0 = some a := by
  fin_cases h <;> simp [constantAlu]

theorem constantAlu_and_right : constantAlu 10 a 0xffffffff = some a :=
  congrArg some UInt32.and_neg_one

theorem constantAlu_and_left : constantAlu 10 0xffffffff b = some b :=
  congrArg some ((UInt32.and_comm _ _).trans UInt32.and_neg_one)

/-- A symbolic operation computes as the operation does on the values. -/
theorem symbolicAlu_eval {a b : Value} {n : ℕ} (h : symbolicAlu operation a b = some v)
    (ha : a.Below n) (hb : b.Below n) : v.Below n ∧
      constantAlu operation (a.eval parameters) (b.eval parameters) = some (v.eval parameters) := by
  unfold symbolicAlu at h
  split at h
  · next hcase =>
      obtain ⟨hop, rfl⟩ := hcase
      cases h
      exact ⟨hb, constantAlu_zero_left hop⟩
  split at h
  · next hcase =>
      obtain ⟨hop, rfl⟩ := hcase
      cases h
      exact ⟨ha, constantAlu_zero_right hop⟩
  split at h
  · next hcase =>
      obtain ⟨rfl, rfl⟩ := hcase
      cases h
      exact ⟨ha, constantAlu_and_right⟩
  split at h
  · next hcase =>
      obtain ⟨rfl, rfl⟩ := hcase
      cases h
      exact ⟨hb, constantAlu_and_left⟩
  split at h
  · obtain ⟨c, hc, rfl⟩ := Option.map_eq_some_iff.1 h
    exact ⟨trivial, hc⟩
  · cases h

/-- **The symbolic value is the value.** -/
theorem computeResult_eq (hi : Mirrors pages parameters steps sent st i)
    (h : symbolicResult instruction (getElem st.registers instruction.srcA instruction.srcA.isLt)
      (getElem st.registers instruction.srcB instruction.srcB.isLt) = some v) :
    v.Below st.parameters ∧ ∃ carry, computeResult host address instruction i =
      (.ok (v.eval parameters), { i with carry }) := by
  unfold symbolicResult at h
  have ha := hi.register_eq instruction.srcA
  have hb := hi.register_eq instruction.srcB
  split at h
  · next hop =>
      -- an addition of an immediate: to a constant, or of zero
      have hrun : computeResult host address instruction i =
          (.ok (i.registers[instruction.srcA] + instruction.immediate.toUInt32), i) := by
        simp [computeResult, hop]
      rw [hrun]
      split at h
      · next value hvalue =>
          cases h
          rw [hvalue] at ha
          exact ⟨trivial, i.carry, by rw [ha]; rfl⟩
      · next index hvalue =>
          split at h
          · next hzero =>
              cases h
              refine ⟨hi.below _, i.carry, ?_⟩
              rw [ha, hzero]
              exact congrArg (fun word => (Outcome.ok word, i)) (UInt32.add_zero _)
          · cases h
  · next hop =>
      obtain ⟨hbelow, hvalue⟩ := symbolicAlu_eval h
        (hi.below instruction.srcA) (hi.below instruction.srcB)
      refine ⟨hbelow, ?_⟩
      simp only [computeResult, hop, Call.bind_run, Call.read_run]
      rw [ha, hb]
      exact alu_eq_of_constantAlu address hvalue
  · cases h

/-! ### Registers, methods and parameters -/

theorem Mirrors.setRegister (hi : Mirrors pages parameters steps sent st i) (destination : Fin 8)
    (hv : v.Below st.parameters) :
    Mirrors pages parameters steps sent (st.setRegister destination v)
      (i.setRegister destination (v.eval parameters)) := by
  refine { hi with register_eq := ?_, below := ?_ }
  · intro r
    have hr := hi.register_eq r
    simp only [Interpreter.setRegister, Compiler.setRegister, Fin.getElem_fin] at hr ⊢
    split
    · simp only [Vector.getElem_set]
      split
      · rfl
      · exact hr
    · exact hr
  · intro r
    have hr := hi.below r
    simp only [Compiler.setRegister, Fin.getElem_fin] at hr ⊢
    split
    · simp only [Vector.getElem_set]
      split
      · exact hv
      · exact hr
    · exact hr

/-- The increment is six bits wide, so it does not matter in which width it is kept. -/
theorem increment_toUInt16 {raw : UInt32} :
    ((raw >>> 12) &&& 0x3f).toUInt8.toUInt16 = ((raw >>> 12) &&& 0x3f).toUInt16 := by
  apply UInt16.toNat_inj.1
  have hle : ((raw >>> 12) &&& 0x3f).toNat ≤ 63 := by
    exact Nat.and_le_right
  simp only [UInt8.toNat_toUInt16, UInt32.toNat_toUInt8, UInt32.toNat_toUInt16]
  omega

theorem Mirrors.setMethodAddress (hi : Mirrors pages parameters steps sent st i) (raw : UInt32) :
    Mirrors pages parameters steps sent (st.setMethodAddress raw) (i.setMethodAddress raw) :=
  { hi with method_eq := rfl, increment_eq := increment_toUInt16 }

/-- A parameter is fetched where the operation asks for it. -/
theorem Mirrors.fetchParameter (hi : Mirrors pages parameters steps sent st i) :
    Follows (fetchParameter parameters : RunCall η ε UInt32) i
      ((Operation.parameter st.parameters).execute host parameters) i.host
      (fun word i' _ h => word = (Value.parameter st.parameters).eval parameters ∧ i'.host = h ∧
        Mirrors pages parameters steps sent st.fetchParameter i')
      (fun i' h => i'.host = h) := by
  have hnext := hi.nextParameter_eq
  by_cases hlt : st.parameters < parameters.length
  · have hrun : (Mme.fetchParameter parameters : RunCall η ε UInt32) i =
        (.ok parameters[st.parameters], { i with nextParameter := i.nextParameter + 1 }) := by
      simp [Mme.fetchParameter, hnext, hlt]
    have hrun' : (Operation.parameter st.parameters).execute host parameters i.host =
        (.ok (), i.host) := by
      simp [Operation.execute, not_le.2 hlt]
    refine .of_ok hrun hrun' ⟨by simp [Value.eval, hlt], rfl, ?_⟩
    exact { hi with
      nextParameter_eq := congrArg (· + 1) hnext
      supplied := hlt
      below := fun r => (hi.below r).mono (Nat.le_succ _) }
  · have hrun : (Mme.fetchParameter parameters : RunCall η ε UInt32) i =
        (.err (.execution (.parameterUnavailable st.parameters)), i) := by
      simp [Mme.fetchParameter, hnext, hlt]
    have hrun' : (Operation.parameter st.parameters).execute host parameters i.host =
        (.err (.execution (.parameterUnavailable st.parameters)), i.host) := by
      simp [Operation.execute, Nat.le_of_not_lt hlt]
    exact .of_err hrun hrun' rfl

theorem method_add (method : UInt16) (increment : UInt8) :
    ((method.toUInt32 + increment.toUInt32) &&& methodDwordMask).toUInt16 =
      (method + increment.toUInt16) &&& methodDwordMask.toUInt16 := by
  simp

section

variable (hi : Mirrors pages parameters steps sent st i)
include hi

/-- A direct program has the values that it sends. -/
theorem Mirrors.execute_send (hv : v.Below st.parameters) (method : UInt16) (h : η) :
    (Operation.send method v).execute host parameters h =
      (ofExcept ((host.emitMethod h method (v.eval parameters)).1.mapError .host) :
        Call η (MaxwellThreeDMmeRunError ε) Unit)
          (host.emitMethod h method (v.eval parameters)).2 := by
  cases v with
  | constant => rfl
  | parameter index =>
    have hlt : index < parameters.length := lt_of_lt_of_le hv hi.supplied
    simp [Operation.execute, Value.eval, hlt]

/-- A method is sent where the operation sends it. -/
theorem Mirrors.send (hsent : sent < emittedMethodLimit) (hv : v.Below st.parameters) :
    Follows (send host (v.eval parameters)) i ((Operation.send st.method v).execute host parameters)
      i.host
      (fun _ i' _ h => i'.host = h ∧ Mirrors pages parameters steps (sent + 1) (st.send v) i')
      (fun i' h => i'.host = h) := by
  have hlimit : (i.emittedMethods == emittedMethodLimit) = false :=
    beq_eq_false_iff_ne.2 (hi.sent_le.trans_lt hsent).ne
  have hrun' := hi.execute_send host hv st.method i.host
  rcases hemit : host.emitMethod i.host st.method (v.eval parameters) with ⟨result, h⟩
  rw [hemit] at hrun'
  cases result with
  | error e =>
    have hrun : Mme.send host (v.eval parameters) i = (.err (.host e), { i with host := h }) := by
      simp [Mme.send, hlimit, hi.method_eq, hemit, Except.mapError]
    exact .of_err hrun hrun' rfl
  | ok _ =>
    have hrun : Mme.send host (v.eval parameters) i = (.ok (), { i with
          host := h
          emittedMethods := i.emittedMethods + 1
          methodAddress := ((i.methodAddress.toUInt32 + i.methodIncrement.toUInt32) &&&
            methodDwordMask).toUInt16 }) := by
      simp [Mme.send, hlimit, hi.method_eq, hemit, Except.mapError]
    refine .of_ok hrun hrun' ⟨rfl, ?_⟩
    exact { hi with
      method_eq := by
        rw [method_add, hi.method_eq, hi.increment_eq]
        rfl
      sent_le := Nat.succ_le_succ hi.sent_le }

/-! ### One instruction -/

theorem Mirrors.mono : Mirrors pages parameters steps (sent + 1) st i :=
  { hi with sent_le := Nat.le_succ_of_le hi.sent_le }

/-- An instruction that ends in sending a value. -/
theorem Mirrors.send_last (hsent : sent < emittedMethodLimit) (hv : v.Below st.parameters) :
    Follows (Mme.send host (v.eval parameters)) i
      (executeOperations host parameters [.send st.method v]) i.host
      (fun _ i' _ h => i'.host = h ∧ Mirrors pages parameters steps (sent + 1) (st.send v) i')
      (fun i' h => i'.host = h) := by
  have hsend := hi.send host hsent hv
  rcases hsend.cases with ⟨_, i', _, h, hc, hd, hQ⟩ | ⟨e, i', h, hc, hd, hE⟩
  · have hd' : executeOperations host parameters [.send st.method v] i.host = (.ok (), h) := by
      simp [executeOperations, hd]
    exact .of_ok hc hd' hQ
  · have hd' : executeOperations host parameters [.send st.method v] i.host = (.err e, h) := by
      simp [executeOperations, hd]
    exact .of_err hc hd' hE

end

/-- **An instruction does what its operations do.** -/
theorem processResult_follows (hi : Mirrors pages parameters steps sent st i)
    (hsent : sent < emittedMethodLimit) (hv : v.Below st.parameters) {result : Fin 8}
    (h : st.process result destination v = some st') :
    ∃ operations, st'.operations = st.operations ++ operations ∧
      Follows (processResult host parameters result destination (v.eval parameters)) i
        (executeOperations host parameters operations) i.host
        (fun _ i' _ h => i'.host = h ∧ Mirrors pages parameters steps (sent + 1) st' i')
        (fun i' h => i'.host = h) := by
  -- a parameter that was fetched can be used from then on
  have hfetched : (Value.parameter st.parameters).Below (st.parameters + 1) := Nat.lt_succ_self _
  match result with
  | 0 =>
    have hst : st.process 0 destination v =
      some (st.fetchParameter.setRegister destination (.parameter st.parameters)) := rfl
    cases hst.symm.trans h
    refine ⟨[.parameter st.parameters], rfl, (hi.fetchParameter host).bind ?_⟩
    rintro word i' _ h ⟨rfl, rfl, hi'⟩
    exact .of_ok rfl rfl ⟨rfl, (hi'.setRegister destination hfetched).mono⟩
  | 1 =>
    have hst : st.process 1 destination v = some (st.setRegister destination v) := rfl
    cases hst.symm.trans h
    refine ⟨[], (append_nil _).symm, .of_ok rfl rfl ⟨rfl, ?_⟩⟩
    exact (hi.setRegister destination hv).mono
  | 2 =>
    cases v with
    | parameter => cases h
    | constant raw =>
      have hst : st.process 2 destination (.constant raw) =
        some ((st.setRegister destination (.constant raw)).setMethodAddress raw) := rfl
      cases hst.symm.trans h
      refine ⟨[], (append_nil _).symm, .of_ok rfl rfl ⟨rfl, ?_⟩⟩
      exact ((hi.setRegister destination hv).setMethodAddress raw).mono
  | 3 =>
    have hst : st.process 3 destination v =
      some ((st.fetchParameter.setRegister destination (.parameter st.parameters)).send v) := rfl
    cases hst.symm.trans h
    refine ⟨[.parameter st.parameters, .send st.method v], append_assoc _ _ _,
      (hi.fetchParameter host).bind ?_⟩
    rintro word i' _ h ⟨rfl, rfl, hi'⟩
    exact .left_bind rfl ((hi'.setRegister destination hfetched).send_last host hsent
      (hv.mono (Nat.le_succ _)))
  | 4 =>
    have hst : st.process 4 destination v = some ((st.setRegister destination v).send v) := rfl
    cases hst.symm.trans h
    refine ⟨[.send st.method v], rfl, .left_bind rfl ?_⟩
    exact (hi.setRegister destination hv).send_last host hsent hv
  | 5 =>
    cases v with
    | parameter => cases h
    | constant raw =>
      have hst : st.process 5 destination (.constant raw) =
        some ((st.fetchParameter.setRegister destination
          (.parameter st.parameters)).setMethodAddress raw) := rfl
      cases hst.symm.trans h
      refine ⟨[.parameter st.parameters], rfl, (hi.fetchParameter host).bind ?_⟩
      rintro word i' _ h ⟨rfl, rfl, hi'⟩
      refine .of_ok rfl rfl ⟨rfl, ?_⟩
      exact ((hi'.setRegister destination hfetched).setMethodAddress raw).mono
  | 6 =>
    cases v with
    | parameter => cases h
    | constant raw =>
      have hst : st.process 6 destination (.constant raw) =
        some ((((st.setRegister destination (.constant raw)).setMethodAddress
          raw).fetchParameter).send (.parameter st.parameters)) := rfl
      cases hst.symm.trans h
      refine ⟨[.parameter st.parameters,
        .send (raw &&& methodDwordMask).toUInt16 (.parameter st.parameters)],
        append_assoc _ _ _, .left_bind rfl (.left_bind rfl ?_)⟩
      have hmethod := (hi.setRegister destination hv).setMethodAddress raw
      refine (hmethod.fetchParameter host).bind ?_
      rintro word i' _ h ⟨rfl, rfl, hi'⟩
      exact hi'.send_last host hsent hfetched
  | 7 =>
    cases v with
    | parameter => cases h
    | constant raw =>
      have hst : st.process 7 destination (.constant raw) =
        some (((st.setRegister destination (.constant raw)).setMethodAddress raw).send
          (.constant ((raw >>> 12) &&& 0x3f))) := rfl
      cases hst.symm.trans h
      refine ⟨[.send (raw &&& methodDwordMask).toUInt16 (.constant ((raw >>> 12) &&& 0x3f))],
        rfl, .left_bind rfl (.left_bind rfl ?_)⟩
      have hmethod := (hi.setRegister destination hv).setMethodAddress raw
      exact hmethod.send_last (v := .constant ((raw >>> 12) &&& 0x3f)) host hsent trivial

/-- The page of the next instruction, whether it was looked up before or not. -/
theorem refreshPage_eq (hpage : i.instructionPage.isSome →
    i.instructionPage = pages[i.instructionPageIndex]?.map MmeInstructionPage.decoded) :
    refreshPage pages i = { i with
        instructionPage := (pages.page i.pc).map MmeInstructionPage.decoded
        instructionPageIndex := i.pc.toNat / instructionPageWords } := by
  unfold refreshPage
  dsimp only
  split
  · rfl
  · next hkept =>
      simp only [Bool.or_eq_true, Option.isNone_iff_eq_none, bne_iff_ne, ne_eq, not_or,
        not_not] at hkept
      have heq := hpage (Option.isSome_iff_ne_none.2 hkept.1)
      rw [MmePages.page, ← hkept.2, ← heq]

theorem Mirrors.fetchInstruction (hi : Mirrors pages parameters steps sent st i)
    (hsteps : steps < executionInstructionLimit) {pc : UInt32}
    (hpage : pages.page st.pc = some page)
    (hinstruction : page.decoded[pageSlot st.pc] = some instruction)
    (hpc : wordAdd st.pc 1 = some pc) :
    ∃ i', (fetchInstruction pages : RunCall η ε _) i = (.ok (st.pc, instruction), i') ∧
      i'.host = i.host ∧ Mirrors pages parameters (steps + 1) sent { st with pc } i' := by
  have hlimit : (i.instructions == executionInstructionLimit) = false :=
    beq_eq_false_iff_ne.2 (hi.instructions_eq ▸ hsteps.ne)
  have hrun : (Mme.fetchInstruction pages : RunCall η ε _) i = (.ok (st.pc, instruction), { i with
        instructionPage := (pages.page st.pc).map MmeInstructionPage.decoded
        instructionPageIndex := st.pc.toNat / instructionPageWords
        instructions := i.instructions + 1
        pc := pc
        delayedPc := none }) := by
    rw [Fin.getElem_fin] at hinstruction
    simp [Mme.fetchInstruction, hlimit, refreshPage_eq hi.page_eq, hi.pc_eq, hi.delayedPc_eq, hpage,
      hinstruction, hpc]
  refine ⟨_, hrun, rfl, { hi with
    pc_eq := rfl
    delayedPc_eq := rfl
    page_eq := fun _ => rfl
    instructions_eq := congrArg (· + 1) hi.instructions_eq }⟩

theorem executeOperations_append (operations rest : List Operation) :
    executeOperations host parameters (operations ++ rest) =
      executeOperations host parameters operations >>= fun _ =>
        executeOperations host parameters rest := by
  induction operations with
  | nil => rfl
  | cons operation operations ih => simp [executeOperations, ih, bind_bind]

/-- What the interpreter does after an instruction: it leaves through the delay slot, or goes on. -/
def leave (instruction : MmeInstruction) (delaySlot : RunCall η ε Bool) (isDelaySlot : Bool) :
    RunCall η ε Bool :=
  if instruction.exit && !isDelaySlot then do
    let _ ← delaySlot
    return false
  else return true

/-- A step of the interpreter does what the operations of the instruction do, and goes on. -/
theorem Mirrors.stepWith (hi : Mirrors pages parameters steps sent st i)
    (hsteps : steps < executionInstructionLimit) (hsent : sent < emittedMethodLimit)
    {pc : UInt32} (hpage : pages.page st.pc = some page)
    (hinstruction : page.decoded[pageSlot st.pc] = some instruction)
    (hpc : wordAdd st.pc 1 = some pc) (h : { st with pc }.execute instruction = some st') :
    ∃ operations, st'.operations = st.operations ++ operations ∧
      ∀ (delaySlot : RunCall η ε Bool) (isDelaySlot : Bool) (next : Bool → RunCall η ε Unit)
        (rest : List Operation) (Q : Unit → Interpreter η → Unit → η → Prop),
        (∀ i', Mirrors pages parameters (steps + 1) (sent + 1) st' i' →
          Follows (leave instruction delaySlot isDelaySlot >>= next) i'
            (executeOperations host parameters rest) i'.host Q (fun i' h => i'.host = h)) →
        Follows (stepWith host pages parameters delaySlot isDelaySlot >>= next) i
          (executeOperations host parameters (operations ++ rest)) i.host Q
          (fun i' h => i'.host = h) := by
  obtain ⟨v, hv, hprocess⟩ := bind_eq_some_iff.1 h
  obtain ⟨i₁, hfetch, hhost, hi₁⟩ := hi.fetchInstruction hsteps hpage hinstruction hpc
  obtain ⟨hbelow, carry, hcompute⟩ := computeResult_eq host st.pc hi₁ hv
  have hi₂ : Mirrors pages parameters (steps + 1) sent { st with pc } { i₁ with carry } :=
    { hi₁ with }
  obtain ⟨operations, hoperations, hfollows⟩ :=
    processResult_follows host hi₂ hsent hbelow hprocess
  refine ⟨operations, hoperations, ?_⟩
  intro delaySlot isDelaySlot next rest Q hrest
  have hop : instruction.operation ≠ 7 := by
    intro hop
    simp [symbolicResult, hop] at hv
  rw [executeOperations_append, Mme.stepWith, bind_bind]
  refine .left_bind hfetch ?_
  simp only [hop, if_false]
  rw [bind_bind]
  refine .left_bind hcompute ?_
  rw [bind_bind, ← hhost]
  refine hfollows.bind ?_
  rintro _ i' _ h ⟨rfl, hi'⟩
  exact hrest i' hi'

/-! ### Whole programs -/

theorem Compiler.process_operations {result : Fin 8}
    (h : st.process result destination v = some st') : st.operations <+: st'.operations := by
  obtain ⟨st₁, hmethod, h⟩ := bind_eq_some_iff.1 h
  obtain ⟨value, -, h⟩ := bind_eq_some_iff.1 h
  have hfetch :
      st.operations <+: (if fetches result then st.fetchParameter else st).operations := by
    split
    · exact prefix_append _ _
    · exact prefix_rfl
  have hst₁ : st₁.operations = (if fetches result then st.fetchParameter else st).operations := by
    split at hmethod
    · obtain ⟨raw, -, rfl⟩ := Option.map_eq_some_iff.1 hmethod
      rfl
    · cases hmethod
      rfl
  rw [← hst₁] at hfetch
  cases h
  cases value with
  | none => exact hfetch
  | some => exact hfetch.trans (prefix_append _ _)

theorem compileFrom_operations : ∀ (n : ℕ) (st : Compiler), compileFrom pages n st = some program →
      st.operations <+: program.operations := by
  intro n
  induction n with
  | zero => intro st h; cases h
  | succ n ih =>
    intro st h
    obtain ⟨page, -, h⟩ := bind_eq_some_iff.1 h
    obtain ⟨instruction, -, h⟩ := bind_eq_some_iff.1 h
    obtain ⟨pc, -, h⟩ := bind_eq_some_iff.1 h
    obtain ⟨st', hst', h⟩ := bind_eq_some_iff.1 h
    obtain ⟨v, -, hprocess⟩ := bind_eq_some_iff.1 hst'
    have hgrows := Compiler.process_operations hprocess
    split at h
    · cases h
      exact hgrows
    · exact hgrows.trans (ih { st' with delay := instruction.exit } h)

/-- What the interpreter has left to do: the delay slot, or a number of steps. -/
def remaining (host : MaxwellThreeDMmeHost η ε) (pages : MmePages) (parameters : List UInt32)
    (delay : Bool) (fuel : ℕ) : RunCall η ε Unit :=
  if delay then do let _ ← stepDelaySlot host pages parameters
  else runSteps host pages parameters fuel

/-- From where the compiler is, the interpreter does what the rest of the operations does. -/
theorem compileFrom_follows :
    ∀ (n fuel steps : ℕ) (st : Compiler) (i : Interpreter η) (operations : List Operation),
      compileFrom pages n st = some program → program.operations = st.operations ++ operations →
      Mirrors pages parameters steps steps st i → steps + n ≤ 256 → n ≤ fuel →
      Follows (remaining host pages parameters st.delay fuel) i
        (executeOperations host parameters operations) i.host
        (fun _ i' _ h => i'.host = h ∧ i'.nextParameter = program.parameters)
        (fun i' h => i'.host = h) := by
  intro n
  induction n with
  | zero => intro fuel steps st i operations h; cases h
  | succ n ih =>
    intro fuel steps st i operations h hprogram hi hsteps hfuel
    obtain ⟨page, hpage, h⟩ := bind_eq_some_iff.1 h
    obtain ⟨instruction, hinstruction, h⟩ := bind_eq_some_iff.1 h
    obtain ⟨pc, hpc, h⟩ := bind_eq_some_iff.1 h
    obtain ⟨st', hst', h⟩ := bind_eq_some_iff.1 h
    have hlimit : steps < executionInstructionLimit := by unfold executionInstructionLimit; omega
    have hlimit' : steps < emittedMethodLimit := by unfold emittedMethodLimit; omega
    obtain ⟨operations₁, hoperations, hstep⟩ :=
      hi.stepWith host hlimit hlimit' hpage hinstruction hpc hst'
    cases hdelay : st.delay with
    | true =>
      -- the delay slot is the last instruction
      simp only [hdelay, if_true, Option.pure_def, Option.some.injEq] at h
      subst h
      obtain rfl : operations₁ = operations :=
        append_cancel_left (hoperations.symm.trans hprogram)
      rw [← append_nil operations₁]
      refine hstep _ true (fun _ => pure ()) [] _ fun i' hi' => ?_
      simp only [leave, Bool.not_true, Bool.and_false]
      exact .of_ok rfl rfl ⟨rfl, hi'.nextParameter_eq⟩
    | false =>
      obtain ⟨fuel, rfl⟩ : ∃ k, fuel = k + 1 := ⟨fuel - 1, by omega⟩
      simp only [hdelay, Bool.false_eq_true, if_false] at h
      obtain ⟨rest, hrest⟩ := compileFrom_operations n _ h
      obtain rfl : operations₁ ++ rest = operations := by
        refine (append_right_inj st.operations).1 ?_
        rw [← append_assoc, ← hoperations, hrest, hprogram]
      refine hstep _ false (fun more => if more then runSteps host pages parameters fuel
        else pure ()) rest _ fun i' hi' => ?_
      have hnext := ih fuel (steps + 1) { st' with delay := instruction.exit } i' rest h
        hrest.symm { hi' with } (by omega) (by omega)
      cases hexit : instruction.exit with
      | true =>
        simp only [hexit, remaining, if_true] at hnext
        simp only [leave, hexit, Bool.not_false, Bool.and_true, if_true, bind_bind]
        exact hnext
      | false =>
        simp only [hexit, remaining, Bool.false_eq_true, if_false] at hnext
        simp only [leave, hexit, Bool.false_and, Bool.false_eq_true, if_false]
        exact hnext

/-- The compiler starts where the interpreter does. -/
theorem mirrors_start (start first : UInt32) (rest : List UInt32) (h : η) {hone : 1 < 8} :
    Mirrors pages (first :: rest) 0 0
      { pc := start
        registers := (Vector.replicate 8 (.constant 0)).set 1 (.parameter 0) hone
        parameters := 1
        method := 0
        increment := 0
        operations := []
        delay := false }
      (Interpreter.start h start first) where
  pc_eq := rfl
  delayedPc_eq := rfl
  register_eq r := by
    simp only [Interpreter.start, Fin.getElem_fin, Vector.getElem_set]
    split <;> simp [Value.eval]
  below r := by
    simp only [Fin.getElem_fin, Vector.getElem_set]
    split <;> simp [Value.Below]
  nextParameter_eq := rfl
  supplied := by simp
  method_eq := rfl
  increment_eq := rfl
  page_eq h := by cases h
  instructions_eq := rfl
  sent_le := le_rfl

/-- **A direct program runs as its instructions do.** -/
theorem execute_eq_interpret {start first : UInt32} {rest : List UInt32}
    (h : compile pages start = some program) :
    program.execute host (first :: rest) = interpret host pages start first (first :: rest) := by
  funext state
  have hfollows := compileFrom_follows host 256 (executionInstructionLimit + 1) 0 _ _ _ h rfl
    (mirrors_start start first rest state) le_rfl (by decide)
  rcases hfollows.cases with ⟨_, i', _, state', hi', hstate', hhost, hnext⟩ |
    ⟨e, i', state', hi', hstate', hhost⟩
  · change runSteps _ _ _ _ _ = _ at hi'
    change executeOperations _ _ _ state = _ at hstate'
    simp only [DirectProgram.execute, interpret, Call.bind_run, hi', hstate', Call.read_run, hnext,
      checkConsumed, failIf]
    split
    · rw [hhost]
    · rw [hhost]
  · change runSteps _ _ _ _ _ = _ at hi'
    change executeOperations _ _ _ state = _ at hstate'
    simp [DirectProgram.execute, interpret, hi', hstate', hhost]

/-! ### The interpreter comes to an end -/

/-- The call does not panic, and does not count instructions. -/
def Keeps {α : Type} (c : RunCall η ε α) : Prop :=
  ∀ i, c.Ensures i (fun _ i' => i'.instructions = i.instructions) (fun _ _ => True)

theorem Keeps.bind {β : Type} {c : RunCall η ε α} {f : α → RunCall η ε β} (hc : Keeps c)
    (hf : ∀ a, Keeps (f a)) : Keeps (c >>= f) := by
  intro i
  refine .seq (hc i) fun a i' hi' => ?_
  exact (hf a i').mono fun _ _ h => h.trans hi'

theorem keeps_pure {a : α} : Keeps (pure a : RunCall η ε α) := fun _ => rfl

theorem keeps_update {f : Interpreter η → Interpreter η}
    (hf : ∀ i, (f i).instructions = i.instructions) : Keeps (update f : RunCall η ε Unit) := hf

theorem keeps_ofExcept {r : Except (MaxwellThreeDMmeRunError ε) α} :
    Keeps (ofExcept r : RunCall η ε α) := by
  intro i
  cases r with
  | ok => exact rfl
  | error => exact trivial

theorem keeps_read : Keeps (read : RunCall η ε (Interpreter η)) := fun _ => rfl

theorem keeps_failIf {b : Bool} : Keeps (failIf b e : RunCall η ε Unit) := by
  intro i
  cases b with
  | true => exact trivial
  | false => exact rfl

theorem keeps_okOr {o : Option α} :
    Keeps (okOr o e : RunCall η ε α) := by
  intro i
  cases o with
  | none => exact trivial
  | some => exact rfl

theorem keeps_fetchParameter (parameters : List UInt32) :
    Keeps (fetchParameter parameters : RunCall η ε UInt32) := by
  refine .bind keeps_read fun _ => .bind keeps_okOr fun _ => ?_
  exact .bind (keeps_update fun _ => rfl) fun _ => keeps_pure

theorem keeps_send {value : UInt32} : Keeps (send host value) := by
  refine .bind keeps_read fun _ => .bind keeps_failIf fun _ => ?_
  refine .bind (keeps_update fun _ => rfl) fun _ => .bind keeps_ofExcept fun _ => ?_
  exact keeps_update fun _ => rfl

theorem keeps_processResult {operation : Fin 8} {result : UInt32} :
    Keeps (processResult host parameters operation destination result) := by
  have hregister word : Keeps (update (·.setRegister destination word) :
      RunCall η ε Unit) := keeps_update fun _ => rfl
  have hmethod : Keeps (update (·.setMethodAddress result) : RunCall η ε Unit) :=
    keeps_update fun _ => rfl
  have hfetch := keeps_fetchParameter (η := η) (ε := ε) parameters
  match operation with
  | 0 => exact hfetch.bind fun _ => hregister _
  | 1 => exact hregister _
  | 2 => exact (hregister _).bind fun _ => hmethod
  | 3 => exact hfetch.bind fun _ => (hregister _).bind fun _ => keeps_send host
  | 4 => exact (hregister _).bind fun _ => keeps_send host
  | 5 => exact hfetch.bind fun _ => (hregister _).bind fun _ => hmethod
  | 6 => exact (hregister _).bind fun _ => hmethod.bind fun _ => hfetch.bind fun _ =>
    keeps_send host
  | 7 => exact (hregister _).bind fun _ => hmethod.bind fun _ => keeps_send host

theorem keeps_alu {operation : Fin 32} {a b : UInt32} :
    Keeps (alu address operation a b : RunCall η ε UInt32) := by
  refine .bind keeps_read fun _ => ?_
  split
  all_goals first
    | exact .bind (keeps_update fun _ => rfl) fun _ => keeps_pure
    | exact keeps_pure
    | exact fun _ => trivial

theorem keeps_computeResult : Keeps (computeResult host address instruction) := by
  refine .bind keeps_read fun _ => ?_
  split
  · exact keeps_alu _
  · exact keeps_pure
  · exact keeps_pure
  · exact keeps_pure
  · exact keeps_pure
  · exact .bind keeps_failIf fun _ => keeps_ofExcept
  · exact fun _ => trivial

theorem fetchInstruction_ensures (hi : i.instructions ≤ executionInstructionLimit) :
    (fetchInstruction pages : RunCall η ε _).Ensures i
      (fun _ i' => i'.instructions = i.instructions + 1 ∧
        i'.instructions ≤ executionInstructionLimit) (fun _ _ => True) := by
  refine .read (.failIf fun hlimit => .update (.read ?_))
  refine .okOr fun instruction _ => .update ?_
  refine .okOr fun pc _ => .update (.pure ?_)
  have hne := beq_eq_false_iff_ne.1 hlimit
  have hrefresh : (refreshPage pages i).instructions = i.instructions := by
    unfold refreshPage
    dsimp only
    split <;> rfl
  dsimp only
  omega

/-- The call counts at least one instruction, and not too many. -/
abbrev Counts (c : RunCall η ε Bool) (i : Interpreter η) : Prop :=
  c.Ensures i (fun _ i' => i.instructions < i'.instructions ∧
    i'.instructions ≤ executionInstructionLimit) fun _ _ => True

/-- A step counts its instructions, if its delay slot does. -/
theorem stepWith_ensures {delaySlot : RunCall η ε Bool} {isDelaySlot : Bool}
    (hslot : isDelaySlot = false → ∀ i : Interpreter η,
      i.instructions ≤ executionInstructionLimit → Counts delaySlot i)
    (hi : i.instructions ≤ executionInstructionLimit) :
    Counts (stepWith host pages parameters delaySlot isDelaySlot) i := by
  refine .seq (fetchInstruction_ensures hi) ?_
  rintro ⟨address, instruction⟩ i₁ ⟨hcount, hle⟩
  -- from here on, the instruction is counted, and the rest only has to count no less
  have hleave : ∀ i₂, i₂.instructions = i₁.instructions →
      (if instruction.exit && !isDelaySlot then do let _ ← delaySlot; return false
        else return true : RunCall η ε Bool).Ensures i₂
        (fun _ i' => i.instructions < i'.instructions ∧
          i'.instructions ≤ executionInstructionLimit) (fun _ _ => True) := by
    intro i₂ hi₂
    split
    · next hexit =>
        have hdelay : isDelaySlot = false := by simpa using (Bool.and_eq_true_iff.1 hexit).2
        refine .seq (hslot hdelay i₂ (by omega)) fun _ i' hi' => .pure ?_
        omega
    · exact .pure (by omega)
  dsimp only
  split
  · refine .failIf fun hdelay => .read ?_
    split
    · refine .okOr fun target _ => ?_
      split
      · refine .update (.pure ?_)
        dsimp only
        omega
      · refine .update ((hslot hdelay { i₁ with delayedPc := some target } hle).mono ?_)
        intro _ i' hi'
        dsimp only at hi'
        omega
    · exact hleave i₁ rfl
  · refine .seq (keeps_computeResult host address i₁) ?_
    intro result i₂ hi₂
    refine .seq (keeps_processResult host i₂) ?_
    exact fun _ i₃ hi₃ => hleave i₃ (hi₃.trans hi₂)

theorem step_ensures (hi : i.instructions ≤ executionInstructionLimit) :
    Counts (step host pages parameters) i := by
  refine stepWith_ensures host (fun _ i hi => ?_) hi
  exact stepWith_ensures host (fun h => by cases h) hi

theorem runSteps_ensures :
    ∀ (fuel : ℕ) (i : Interpreter η), i.instructions ≤ executionInstructionLimit →
      executionInstructionLimit < i.instructions + fuel →
      (runSteps host pages parameters fuel).Ensures i (fun _ _ => True) (fun _ _ => True) := by
  intro fuel
  induction fuel with
  | zero => omega
  | succ fuel ih =>
    intro i hi hfuel
    refine .seq (step_ensures host hi) fun more i' hi' => ?_
    split
    · exact ih i' hi'.2 (by omega)
    · exact .pure trivial

/-- **The interpreter comes to an end.** -/
theorem interpret_not_panic {start first : UInt32} {h : η} :
    ((interpret host pages start first parameters) h).1.isPanic = false := by
  have hrun : (do
      runSteps host pages parameters (executionInstructionLimit + 1)
      let i ← read
      checkConsumed i.nextParameter parameters.length : RunCall η ε Unit).Ensures
        (Interpreter.start h start first) (fun _ _ => True) (fun _ _ => True) := by
    refine .seq (runSteps_ensures host _ _ (Nat.zero_le _) ?_) ?_
    · exact Nat.lt_add_left _ (Nat.lt_succ_self _)
    · intro _ i _
      exact (keeps_failIf i).mono fun _ _ _ => trivial
  exact hrun.not_panic

end

end Nixe.Mme
