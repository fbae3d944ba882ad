/-
**Compiled macros are up to date.**

The instruction RAM is shared by the state of a channel, every snapshot that was taken of it to
execute a macro, and every clone.  A holder that uploads a word or a start address moves to a copy
of its own if there are other holders.  The compiled programs are kept in the shared RAM, although
they depend on the start addresses, which are not in it.

The start addresses and the uploaded words have value semantics.  The compiled programs do not,
which is why the sharing is modelled.

Main definitions:

* `MaxwellThreeDMmeState`, `MaxwellThreeDMmeStateWrite` — the state of a channel, and the uploads;
* `machine` — uploads, clones, snapshots and executions, in any order;
* `plainMachine` — the same without sharing and without compiled programs: every holder owns its
  words, and every macro is interpreted.

Main results:

* `execute_correct` — an execution with the right programs in the cache;
* `direct_programs_match` — **the two machines answer alike**.
-/

import Nixe.CopyOnWrite
import Nixe.Machine
import Nixe.MmeDirect

set_option autoImplicit false

namespace Nixe.Mme

open Std (TreeMap)
open Call (okOr)
open CopyOnWrite

/-! ### States and uploads -/

inductive MaxwellThreeDMmeShadowRamControl where
  | methodTrack
  | methodTrackWithFilter
  | methodPassthrough
  | methodReplay
deriving DecidableEq, Repr

def MaxwellThreeDMmeShadowRamControl.raw : MaxwellThreeDMmeShadowRamControl → UInt32
  | .methodTrack => 0
  | .methodTrackWithFilter => 1
  | .methodPassthrough => 2
  | .methodReplay => 3

inductive MaxwellThreeDMutableMethodControl where
  | lightweight
  | heavyweight
deriving DecidableEq, Repr

def MaxwellThreeDMutableMethodControl.raw : MaxwellThreeDMutableMethodControl → UInt32
  | .lightweight => 0
  | .heavyweight => 1

/-- What the state of a channel has beside the instruction RAM. -/
structure MaxwellThreeDMmeState where
  instructionPointer : MaxwellThreeDRegister UInt32 := {}
  nextInstructionAddress : Option UInt32 := none
  startAddressPointer : MaxwellThreeDRegister UInt32 := {}
  nextStartAddressIndex : Option UInt32 := none
  startAddresses : StartAddresses := {}
  shadowRamControl : MaxwellThreeDRegister MaxwellThreeDMmeShadowRamControl :=
    .programmed MaxwellThreeDMmeShadowRamControl.methodTrack.raw .methodTrack
  mutableMethodControl : MaxwellThreeDRegister MaxwellThreeDMutableMethodControl := {}
  shadowScratch : TreeMap ℕ (MaxwellThreeDRegister UInt32) := {}

inductive MaxwellThreeDMmeStateWrite where
  | instructionPointer (value : UInt32)
  | instruction (address value : UInt32)
  | startAddressPointer (value : UInt32)
  | startAddress (index address : UInt32)
  | shadowRamControl (value : MaxwellThreeDMmeShadowRamControl)
  | mutableMethodControl (value : MaxwellThreeDMutableMethodControl)
  | shadowScratch (index : UInt8) (value : UInt32)
deriving DecidableEq, Repr

namespace MaxwellThreeDMmeStateWrite

/-- Whether the write calls `Arc::make_mut` on the instruction RAM. -/
def takesRam : MaxwellThreeDMmeStateWrite → Bool
  | instruction _ _ | startAddress _ _ => true
  | _ => false

/-- The address or the index has no successor; it should have been preflighted. -/
def overflows : MaxwellThreeDMmeStateWrite → Bool
  | instruction address _ => (wordAdd address 1).isNone
  | startAddress index _ => (wordAdd index 1).isNone
  | _ => false

variable (write : MaxwellThreeDMmeStateWrite)

/-- What `apply` does to the uploaded words. -/
def onImage (image : MmeImage) : MmeImage :=
  match write with
  | instruction address value => image.insert address (.programmed value value)
  | _ => image

/-- What `apply` does to the instruction RAM. -/
def onRam (ram : MmeInstructionRam) : MmeInstructionRam :=
  match write with
  | instruction address value => ram.insert address (.programmed value value)
  | startAddress index _ => { ram with programs := ram.programs.setIfInBounds index.toNat none }
  | _ => ram

/-- What `apply` does to the rest of the state.  A pointer without a successor stays. -/
def onState (state : MaxwellThreeDMmeState) : MaxwellThreeDMmeState :=
  match write with
  | instructionPointer value =>
    { state with
      instructionPointer := .programmed value value
      nextInstructionAddress := some value }
  | instruction address _ =>
    { state with
      nextInstructionAddress := (wordAdd address 1).or state.nextInstructionAddress }
  | startAddressPointer value =>
    { state with
      startAddressPointer := .programmed value value
      nextStartAddressIndex := some value }
  | startAddress index address =>
    { state with
      startAddresses := state.startAddresses.insert index.toNat (.programmed address address)
      nextStartAddressIndex := (wordAdd index 1).or state.nextStartAddressIndex }
  | shadowRamControl value => { state with shadowRamControl := .programmed value.raw value }
  | mutableMethodControl value => { state with mutableMethodControl := .programmed value.raw value }
  | shadowScratch index value =>
    { state with
      shadowScratch := state.shadowScratch.insert index.toNat (.programmed value value) }

end MaxwellThreeDMmeStateWrite

/-! ### Sharing -/

/-- A holder of an instruction RAM: the state of a channel, or a program to execute. -/
inductive MmeHolder where
  | state (state : MaxwellThreeDMmeState)
  | program (startAddresses : StartAddresses)

def MmeHolder.startAddresses : MmeHolder → StartAddresses
  | .state st => st.startAddresses
  | .program table => table

/-- `MaxwellThreeDMmeState::program`. -/
def MmeHolder.snapshot (holder : MmeHolder) : MmeHolder := .program holder.startAddresses

def MmeHolder.onState (write : MaxwellThreeDMmeStateWrite) : MmeHolder → MmeHolder
  | .state st => .state (write.onState st)
  | .program table => .program table

section

variable (η ε : Type)

inductive Command where
  | program (i : ℕ)
  | clone (i : ℕ)
  | drop (i : ℕ)
  | apply (i : ℕ) (write : MaxwellThreeDMmeStateWrite)
  | execute (i : ℕ) (macroIndex : UInt8) (parameters : List UInt32)
      (host : MaxwellThreeDMmeHost η ε) (h : η)

inductive Response where
  | refused
  | holder (i : ℕ)
  | done
  | panicked
  | executed (result : Outcome (MaxwellThreeDMmeRunError ε) Unit) (h : η)

end

abbrev System : Type := Store MmeInstructionRam MmeHolder

/-- A channel with nothing uploaded. -/
def System.new : System where
  cells := [{}]
  holders := [some (0, .state {})]

variable {η ε : Type} {ram : MmeInstructionRam} {startAddresses : StartAddresses}
  {macroIndex : UInt8} {write : MaxwellThreeDMmeStateWrite} {state : MaxwellThreeDMmeState}

/-- How an upload ends. -/
def applied (write : MaxwellThreeDMmeStateWrite) : Response η ε :=
  if write.overflows then .panicked else .done

def apply (s : System) (i : ℕ) (write : MaxwellThreeDMmeStateWrite) : System :=
  if write.takesRam then
    mutate MmeInstructionRam.clone s i fun ram holder => (write.onRam ram, holder.onState write)
  else setData s i (MmeHolder.onState write)

def System.step (s : System) : Command η ε → Response η ε × System
  | .program i =>
    match s.get i with
    | some (_, .state _) => (.holder s.holders.length, share s i MmeHolder.snapshot)
    | _ => (.refused, s)
  | .clone i =>
    match s.get i with
    | some _ => (.holder s.holders.length, share s i id)
    | none => (.refused, s)
  | .drop i => (.done, release s i)
  | .apply i write =>
    match s.get i with
    | some (_, .state _) => (applied write, apply s i write)
    | _ => (.refused, s)
  | .execute i macroIndex parameters host h =>
    match s.get i with
    | some (ram, .program startAddresses) =>
      match Mme.execute host startAddresses macroIndex parameters (ram, h) with
      | (result, (ram', h')) => (.executed result h', remember s i fun _ => ram')
    | _ => (.refused, s)

def machine (η ε : Type) : Machine System (Command η ε) (Response η ε) where
  step := System.step

/-! ### Without sharing -/

/-- A macro is interpreted, from its start address. -/
def interpretMacro (host : MaxwellThreeDMmeHost η ε) (pages : MmePages)
    (startAddresses : StartAddresses) (macroIndex : UInt8) (parameters : List UInt32) :
    Call η (MaxwellThreeDMmeRunError ε) Unit := do
  let start ← okOr (startAddresses.start macroIndex) (.execution (.missingStartAddress macroIndex))
  let first ← okOr parameters.head? (.execution (.parameterUnavailable 0))
  interpret host pages start first parameters

/-- Holders that own what they have. -/
abbrev PlainSystem : Type := List (Option (MmeImage × MmeHolder))

def PlainSystem.new : PlainSystem := [some ({}, .state {})]

def PlainSystem.step (t : PlainSystem) : Command η ε → Response η ε × PlainSystem
  | .program i =>
    match t[i]?.join with
    | some (image, .state state) =>
      (.holder t.length, t ++ [some (image, .program state.startAddresses)])
    | _ => (.refused, t)
  | .clone i =>
    match t[i]?.join with
    | some holder => (.holder t.length, t ++ [some holder])
    | none => (.refused, t)
  | .drop i => (.done, t.set i none)
  | .apply i write =>
    match t[i]?.join with
    | some (image, .state state) =>
      (applied write, t.set i (some (write.onImage image, .state (write.onState state))))
    | _ => (.refused, t)
  | .execute i macroIndex parameters host h =>
    match t[i]?.join with
    | some (image, .program startAddresses) =>
      match interpretMacro host image.pages startAddresses macroIndex parameters h with
      | (result, h') => (.executed result h', t)
    | _ => (.refused, t)

def plainMachine (η ε : Type) : Machine PlainSystem (Command η ε) (Response η ε) where
  step := PlainSystem.step

/-! ### The cache is right -/

/-- The programs in the RAM were compiled from its words and the start addresses. -/
def CacheRight (ram : MmeInstructionRam) (startAddresses : StartAddresses) : Prop :=
  ∀ (macroIndex : UInt8) (program : Option DirectProgram),
    ram.programs.get (macroSlot macroIndex) = some program →
      ∃ start, startAddresses.start macroIndex = some start ∧ program = compile ram.pages start

theorem cacheRight_of_empty (h : ram.programs = Vector.replicate 256 none) :
    CacheRight ram startAddresses := by
  intro macroIndex program hprogram
  simp [h] at hprogram

/-- The program that is used is the compiled one, and the cache stays right. -/
theorem getOrInit_correct (hcache : CacheRight ram startAddresses)
    {start : UInt32} (hstart : startAddresses.start macroIndex = some start) :
    (getOrInit ram macroIndex start).1 = compile ram.pages start ∧
      (getOrInit ram macroIndex start).2.toMmeImage = ram.toMmeImage ∧
      CacheRight (getOrInit ram macroIndex start).2 startAddresses := by
  unfold getOrInit
  split
  · next program hprogram =>
      obtain ⟨start', hstart', heq⟩ := hcache macroIndex program hprogram
      rw [hstart] at hstart'
      cases hstart'
      exact ⟨heq, rfl, hcache⟩
  · refine ⟨rfl, rfl, ?_⟩
    intro macroIndex' program hprogram
    simp only [Vector.get_eq_getElem, Vector.getElem_set] at hprogram
    split at hprogram
    · next hslot =>
        -- macro indices are the places of the 256 programs
        have heq : macroIndex = macroIndex' := by
          have hlt := macroIndex.toNat_lt
          have hlt' := macroIndex'.toNat_lt
          simp only [macroSlot, Fin.val_ofNat] at hslot
          exact UInt8.toNat_inj.1 (by omega)
        cases hprogram
        exact ⟨start, heq ▸ hstart, rfl⟩
    · exact hcache macroIndex' program hprogram

attribute [local simp] Mme.execute interpretMacro

/-- **An execution with the right programs in the cache** does what the interpreter does. -/
theorem execute_correct (hcache : CacheRight ram startAddresses) (host : MaxwellThreeDMmeHost η ε)
    (macroIndex : UInt8) (parameters : List UInt32) (h : η) :
    ∃ ram', Mme.execute host startAddresses macroIndex parameters (ram, h) =
        ((interpretMacro host ram.pages startAddresses macroIndex parameters h).1,
          (ram', (interpretMacro host ram.pages startAddresses macroIndex parameters h).2)) ∧
      ram'.toMmeImage = ram.toMmeImage ∧ CacheRight ram' startAddresses := by
  cases hstart : startAddresses.start macroIndex with
  | none => exact ⟨ram, by simp [hstart], rfl, hcache⟩
  | some start =>
    cases parameters with
    | nil => exact ⟨ram, by simp [hstart], rfl, hcache⟩
    | cons =>
      obtain ⟨hprogram, himage, hright⟩ := getOrInit_correct hcache hstart
      refine ⟨(getOrInit ram macroIndex start).2, ?_, himage, hright⟩
      rcases hget : getOrInit ram macroIndex start with ⟨program, ram'⟩
      rw [hget] at hprogram
      cases hcompile : compile ram.pages start with
      | none =>
        rw [hcompile] at hprogram
        simp [hstart, hget, hprogram, Call.focus]
      | some =>
        rw [hcompile] at hprogram
        simp [hstart, hget, hprogram, Call.focus, execute_eq_interpret host hcompile]

/-- The words of an upload do not depend on what is compiled. -/
theorem onRam_image (write : MaxwellThreeDMmeStateWrite) (ram : MmeInstructionRam) :
    (write.onRam ram).toMmeImage = write.onImage ram.toMmeImage := by
  cases write <;> rfl

/-- An upload drops the programs that depend on it. -/
theorem onRam_cacheRight (hcache : CacheRight ram state.startAddresses)
    (hwrite : write.takesRam = true) :
    CacheRight (write.onRam ram) (write.onState state).startAddresses := by
  cases write with
  | instruction => exact cacheRight_of_empty rfl
  | startAddress index address =>
    intro macroIndex program hprogram
    simp only [MaxwellThreeDMmeStateWrite.onRam, Vector.get_eq_getElem,
      Vector.getElem_setIfInBounds] at hprogram
    split at hprogram
    · cases hprogram
    · next hslot =>
        -- another macro: its start address was not written
        obtain ⟨start, hstart, heq⟩ := hcache macroIndex program hprogram
        refine ⟨start, ?_, heq⟩
        have hne : index.toNat ≠ macroIndex.toNat := by
          have hlt := macroIndex.toNat_lt
          simp only [macroSlot, Fin.val_ofNat] at hslot
          omega
        simpa [MaxwellThreeDMmeStateWrite.onState, StartAddresses.start, TreeMap.getElem?_insert,
          hne] using hstart
  | _ => cases hwrite

/-- Other writes leave the start addresses alone. -/
theorem onState_startAddresses (hwrite : write.takesRam = false) :
    (write.onState state).startAddresses = state.startAddresses := by
  cases write with
  | instruction | startAddress => cases hwrite
  | _ => rfl

/-- The system with sharing and the system without. -/
def Refines (s : System) (t : PlainSystem) : Prop :=
  Coherent MmeHolder.startAddresses CacheRight s ∧ Represents MmeInstructionRam.toMmeImage s t

attribute [local simp] System.new

theorem new_refines : Refines .new .new := by
  have hholder {i c : ℕ} {holder : MmeHolder} (h : System.new.holder i = some (c, holder)) :
      c = 0 ∧ holder = .state {} := by
    cases i with
    | zero => simpa [Store.holder, eq_comm] using h
    | succ => simp [Store.holder] at h
  refine ⟨⟨?_, ?_, ?_⟩, rfl, ?_⟩
  · intro i c holder h
    rw [(hholder h).1]
    exact one_pos
  · intro i j c holder holder' h h'
    rw [(hholder h).2, (hholder h').2]
  · intro i c holder ram h hram
    rw [(hholder h).1] at hram
    obtain rfl : ({} : MmeInstructionRam) = ram := by simpa using hram
    exact cacheRight_of_empty rfl
  · intro i
    cases i with
    | zero => rfl
    | succ => simp [Store.get, Store.holder, PlainSystem.new]

theorem apply_refines {s : System} {t : PlainSystem} (h : Refines s t) {i : ℕ}
    (hi : s.get i = some (ram, .state state)) :
    Refines (apply s i write)
      (t.set i (some (write.onImage ram.toMmeImage, .state (write.onState state)))) := by
  obtain ⟨hs, ht⟩ := h
  have hcache : CacheRight ram state.startAddresses := hs.right_of_get hi
  unfold apply
  split
  · next hwrite =>
      rw [← onRam_image]
      refine mutate_correct hs ht hi ⟨?_, rfl⟩ (onRam_cacheRight hcache hwrite) ?_
      · rw [onRam_image, onRam_image]
        rfl
      · exact onRam_cacheRight (cacheRight_of_empty rfl) hwrite
  · next hwrite =>
      have hwrite : write.takesRam = false := by simpa using hwrite
      have himage : write.onImage ram.toMmeImage = ram.toMmeImage := by
        cases write with
        | instruction => cases hwrite
        | _ => rfl
      rw [himage]
      exact setData_correct hs ht hi (onState_startAddresses hwrite)

theorem step_refines {s : System} {t : PlainSystem} (h : Refines s t) {c : Command η ε} :
    (s.step c).1 = (t.step c).1 ∧ Refines (s.step c).2 (t.step c).2 := by
  obtain ⟨hs, ht⟩ := h
  have hlength := ht.length_eq
  have hget := ht.get_eq
  cases c with
  | program i =>
    simp only [System.step, PlainSystem.step, hget]
    cases hi : s.get i with
    | none => exact ⟨rfl, hs, ht⟩
    | some holder =>
      obtain ⟨ram, holder⟩ := holder
      cases holder with
      | program => exact ⟨rfl, hs, ht⟩
      | state => exact ⟨by simp [hlength], share_correct hs ht hi rfl⟩
  | clone i =>
    simp only [System.step, PlainSystem.step, hget]
    cases hi : s.get i with
    | none => exact ⟨rfl, hs, ht⟩
    | some => exact ⟨by simp [hlength], share_correct hs ht hi rfl⟩
  | drop => exact ⟨rfl, release_correct hs ht⟩
  | apply i =>
    simp only [System.step, PlainSystem.step, hget]
    cases hi : s.get i with
    | none => exact ⟨rfl, hs, ht⟩
    | some holder =>
      obtain ⟨ram, holder⟩ := holder
      cases holder with
      | program => exact ⟨rfl, hs, ht⟩
      | state => exact ⟨rfl, apply_refines ⟨hs, ht⟩ hi⟩
  | execute i macroIndex parameters host h =>
    simp only [System.step, PlainSystem.step, hget]
    cases hi : s.get i with
    | none => exact ⟨rfl, hs, ht⟩
    | some holder =>
      obtain ⟨ram, holder⟩ := holder
      cases holder with
      | state => exact ⟨rfl, hs, ht⟩
      | program table =>
        have hcache : CacheRight ram table := hs.right_of_get hi
        obtain ⟨ram', hrun, himage, hright⟩ :=
          execute_correct hcache host macroIndex parameters h
        simp only [hrun, Option.map_some]
        exact ⟨trivial, remember_correct hs ht hi himage hright⟩

/-- A macro that is interpreted comes to an end. -/
theorem interpretMacro_not_panic {host : MaxwellThreeDMmeHost η ε} {pages : MmePages}
    {parameters : List UInt32} {h : η} :
    (interpretMacro host pages startAddresses macroIndex parameters h).1.isPanic = false := by
  cases hstart : startAddresses.start macroIndex with
  | none => simp [hstart]
  | some start =>
    cases parameters with
    | nil => simp [hstart]
    | cons first rest =>
      have hrun : interpretMacro host pages startAddresses macroIndex (first :: rest) h =
          interpret host pages start first (first :: rest) h := by
        simp [hstart]
      rw [hrun]
      exact interpret_not_panic host

/-- **Compiled macros do what the interpreter does.**  Uploads, clones, snapshots and executions, in
any order and with any hosts, are answered as if every holder owned its words and every macro was
interpreted: an execution calls the host alike, leaves it in the same state, and ends with the same
result.  No execution panics or runs on. -/
theorem direct_programs_match (cs : List (Command η ε)) :
    (machine η ε).trace .new cs = (plainMachine η ε).trace .new cs ∧
    ∀ c result h, (c, Response.executed result h) ∈ (machine η ε).trace .new cs →
      result.isPanic = false := by
  have htrace : (machine η ε).trace .new cs = (plainMachine η ε).trace .new cs :=
    Machine.trace_eq_trace (R := Refines) (fun _ _ c h => step_refines h) cs _ _ new_refines
  refine ⟨htrace, ?_⟩
  intro c result h hmem
  rw [htrace] at hmem
  refine Machine.trace_forall (I := fun _ => True)
    (P := fun e => ∀ result h, e.2 = Response.executed result h → result.isPanic = false)
    (fun _ _ _ => trivial) ?_ cs _ trivial _ hmem result h rfl
  intro t c _ result h hout
  cases c with
  | execute =>
    simp only [plainMachine, PlainSystem.step] at hout
    split at hout
    · cases hout
      exact interpretMacro_not_panic
    · cases hout
  | program | clone =>
    simp only [plainMachine, PlainSystem.step] at hout; split at hout <;> cases hout
  | drop => cases hout
  | apply =>
    simp only [plainMachine, PlainSystem.step, applied] at hout
    split at hout
    · split at hout <;> cases hout
    · cases hout

end Nixe.Mme
