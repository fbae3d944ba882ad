/-
**Last writes of a span of methods.**

A method packet of the pushbuffer writes its arguments to method addresses that grow with each
argument, grow once, or stay.  A consumer that only wants the registers after a span of the packet
asks for the last write of each address, which the span finds by arithmetic on the two ends instead
of reading all writes.

Main definitions:

* `decodeMethodPacket` — the decoder of the source, for every mode;
* `MaxwellMethodSpan.slice`, `.get`, `.iter`, `.lastWrites` — the spans and their iterators;
* `execute` — the registers after a list of writes.

Main results:

* `nextStop_spec` — below the stop that follows a write there are only other addresses;
* `last_writes_exact` — **the last writes are exactly those**, latest first, and leave the registers
  that the whole span leaves.
-/
import Nixe.Call

set_option autoImplicit false

namespace Nixe.Pushbuffer

open Call List

/-! ### Packets -/

structure MaxwellGpfifoSourceLocation where
  channel : ℕ
  frontend : ℕ
  entryIndex : ℕ
  pushbuffer : ℕ
  wordOffset : ℕ
  mapping : ℕ
  generation : ℕ
deriving DecidableEq, Repr

/-- `location.word_offset += words`. -/
def MaxwellGpfifoSourceLocation.advance (location : MaxwellGpfifoSourceLocation) (words : ℕ) :
    MaxwellGpfifoSourceLocation :=
  { location with wordOffset := location.wordOffset + words }

structure MaxwellPushbufferWord where
  value : UInt32
  location : MaxwellGpfifoSourceLocation

inductive MaxwellMethodPacketMode where
  | incrementing
  | nonIncrementing
  | immediate
  | incrementOnce
deriving DecidableEq, Repr

structure MaxwellDecodedMethod where
  method : ℕ
  argument : UInt32
  argumentSource : MaxwellGpfifoSourceLocation
deriving DecidableEq, Repr

/-- From the argument `index` on, the arguments were read at `location`. -/
structure SourceRun where
  index : ℕ
  location : MaxwellGpfifoSourceLocation
deriving DecidableEq, Repr

inductive PacketMethods where
  | empty
  | one (method : MaxwellDecodedMethod)
  | many (firstMethod : ℕ) (arguments : List UInt32) (firstSource : MaxwellGpfifoSourceLocation)
      (sources : List SourceRun)
deriving DecidableEq, Repr

structure MaxwellDecodedMethodPacket where
  mode : MaxwellMethodPacketMode
  header : MaxwellGpfifoSourceLocation
  subchannel : Option ℕ
  methods : PacketMethods
deriving DecidableEq, Repr

inductive MaxwellPushbufferDecodeError (ε : Type) where
  | source (error : ε)
  | reservedMethodBit (source : MaxwellGpfifoSourceLocation) (word : UInt32)
  | methodRangeOverflow (source : MaxwellGpfifoSourceLocation) (mode : MaxwellMethodPacketMode)
      (firstMethod count : ℕ)
  | truncatedPacket (source : MaxwellGpfifoSourceLocation)
      (expectedArguments availableArguments : ℕ)
  | resourceExhausted

def maxMethodDword : ℕ := 0x0fff

/-- Sums and products of the source are of 32 bits. -/
def methodDword (mode : MaxwellMethodPacketMode) (first index : ℕ) : ℕ :=
  match mode with
  | .incrementing => (first + index) % 2 ^ 32
  | .incrementOnce => if index ≠ 0 then (first + 1) % 2 ^ 32 else first
  | .nonIncrementing | .immediate => first

def methodId (dword : ℕ) : ℕ := dword * 4 % 2 ^ 32

/-- Whether `validate_method_range` accepts. -/
def validMethodRange (mode : MaxwellMethodPacketMode) (first count : ℕ) : Bool :=
  match mode with
  | .incrementing => first + (count - 1) ≤ maxMethodDword
  | .incrementOnce => count ≤ 1 ∨ first + 1 ≤ maxMethodDword
  | .nonIncrementing | .immediate => true

/-! ### The decoder -/

variable {ε : Type} {words : List (Except ε MaxwellPushbufferWord)}

/-- Reading from the words that the submission delivers, until one of them fails. -/
abbrev PacketCall (ε : Type) :=
  Call (List (Except ε MaxwellPushbufferWord)) (MaxwellPushbufferDecodeError ε)

def nextWord : PacketCall ε (Option MaxwellPushbufferWord)
  | [] => (.ok none, [])
  | .ok word :: words => (.ok (some word), words)
  | .error error :: words => (.err (.source error), words)

/-- The variables of the loop over the arguments. -/
structure Arguments where
  arguments : List UInt32
  sources : List SourceRun
  firstSource : MaxwellGpfifoSourceLocation
  base : ℕ
  previous : MaxwellGpfifoSourceLocation

def Arguments.push (run : Arguments) (index : ℕ) (argument : MaxwellPushbufferWord) : Arguments :=
  let run := if index = 0 then
      { run with firstSource := argument.location, previous := argument.location } else run
  let run := if run.previous.advance (index - run.base) ≠ argument.location then
      { run with
        sources := run.sources ++ [⟨index, argument.location⟩]
        previous := argument.location
        base := index }
    else run
  { run with arguments := run.arguments ++ [argument.value] }

/-- The loop, with the number of arguments left. -/
def readArguments (header : MaxwellGpfifoSourceLocation) (count : ℕ) :
    ℕ → Arguments → PacketCall ε Arguments
  | 0, run => pure run
  | left + 1, run => do
    let index := count - (left + 1)
    let argument ← okOr (← nextWord) (.truncatedPacket header count index)
    readArguments header count left (run.push index argument)

/-- How many methods the header announces. -/
def methodCount (mode : MaxwellMethodPacketMode) (encodedCount : UInt32) : ℕ :=
  if mode = .immediate then 1 else encodedCount.toNat

/-- The scratch vector can be refused its capacity: `granted` says whether it is not. -/
def decodeMethodPacket (granted : Bool) (header : MaxwellPushbufferWord)
    (mode : MaxwellMethodPacketMode) : PacketCall ε MaxwellDecodedMethodPacket := do
  let encodedCount := (header.value >>> 16) &&& 0x1fff
  let count := methodCount mode encodedCount
  if count = 0 then
    return ⟨mode, header.location, none, .empty⟩
  failIf (header.value &&& 0x1000 ≠ 0) (.reservedMethodBit header.location header.value)
  let first := (header.value &&& 0x0fff).toNat
  failIf (!validMethodRange mode first count)
    (.methodRangeOverflow header.location mode (methodId first) count)
  let subchannel := ((header.value >>> 13) &&& 0x7).toNat
  if count = 1 then
    let argument ← if mode = .immediate then pure ⟨encodedCount, header.location⟩
      else do okOr (← nextWord) (.truncatedPacket header.location count 0)
    return ⟨mode, header.location, some subchannel,
      .one ⟨methodId first, argument.value, argument.location⟩⟩
  failIf (!granted) .resourceExhausted
  let run ← readArguments header.location count count
    ⟨[], [], header.location, 0, header.location⟩
  return ⟨mode, header.location, some subchannel,
    .many first run.arguments run.firstSource run.sources⟩

/-! ### Spans -/

/-- A part of a packet, up to `stop`, which the source calls `end`. -/
structure MaxwellMethodSpan where
  packet : MaxwellDecodedMethodPacket
  begin : ℕ
  stop : ℕ

inductive Bound where
  | included (i : ℕ)
  | excluded (i : ℕ)
  | unbounded

def Bound.start : Bound → ℕ
  | .included i => i
  | .excluded i => i + 1
  | .unbounded => 0

def Bound.stop (len : ℕ) : Bound → ℕ
  | .included i => i + 1
  | .excluded i => i
  | .unbounded => len

namespace MaxwellDecodedMethodPacket

variable (packet : MaxwellDecodedMethodPacket)

/-- The number of its methods. -/
def length : ℕ :=
  match packet.methods with
  | .empty => 0
  | .one _ => 1
  | .many _ arguments _ _ => arguments.length

/-- The method at a position; the source stops where there is none. -/
def methodAt (index : ℕ) : Option MaxwellDecodedMethod :=
  match packet.methods with
  | .empty => none
  | .one method => some method
  | .many first arguments firstSource sources =>
    -- the run before the partition point
    let source := match (sources.takeWhile (·.index ≤ index)).getLast? with
      | none => firstSource.advance index
      | some run => run.location.advance (index - run.index)
    arguments[index]?.map fun argument =>
      ⟨methodId (methodDword packet.mode first (index % 2 ^ 16)), argument, source⟩

/-- `MaxwellMethodSpan::new`. -/
def span : MaxwellMethodSpan := ⟨packet, 0, packet.length⟩

end MaxwellDecodedMethodPacket

namespace MaxwellMethodSpan

variable (span : MaxwellMethodSpan)

def len : ℕ := span.stop - span.begin

def get (index : ℕ) : Option MaxwellDecodedMethod :=
  if span.len ≤ index then none else span.packet.methodAt (span.begin + index)

def last : Option MaxwellDecodedMethod :=
  if span.len = 0 then none else span.get (span.len - 1)

/-- What `MaxwellMethodIterator` returns, one after the other. -/
def iter : List MaxwellDecodedMethod := (range span.len).filterMap span.get

/-- The `end` of the iterator after it has returned the last write. -/
def nextStop : ℕ :=
  match span.packet.mode with
  | .incrementing => span.stop - 1
  | .incrementOnce => if span.begin = 0 ∧ 1 < span.stop then 1 else span.begin
  | .nonIncrementing | .immediate => span.begin

/-- The span that the iterator goes on with. -/
def rest : MaxwellMethodSpan := { span with stop := span.nextStop }

theorem nextStop_lt {method : MaxwellDecodedMethod} (hlast : span.last = some method) :
    span.nextStop < span.stop := by
  have hlen : span.begin < span.stop := by
    by_contra hempty
    simp [last, len, Nat.sub_eq_zero_of_le (not_lt.1 hempty)] at hlast
  unfold nextStop
  split
  · omega
  · split_ifs
    · omega
    · omega
  · omega
  · omega

def lastWrites (span : MaxwellMethodSpan) : List MaxwellDecodedMethod :=
  match _ : span.last with
  | none => []
  | some method => method :: lastWrites span.rest
termination_by span.stop
decreasing_by exact span.nextStop_lt ‹_›

/-- `None` for a range outside of the span, where the source panics. -/
def slice (range : Bound × Bound) : Option MaxwellMethodSpan :=
  let first := range.1.start
  let last := range.2.stop span.len
  if first ≤ last ∧ last ≤ span.len then
    some ⟨span.packet, span.begin + first, span.begin + last⟩
  else none

end MaxwellMethodSpan

/-- The registers after a list of writes. -/
def execute (registers : ℕ → UInt32) (writes : List MaxwellDecodedMethod) : ℕ → UInt32 :=
  writes.foldl (fun registers write => Function.update registers write.method write.argument)
    registers

/-! ### What the decoder accepts -/

open MaxwellMethodSpan MaxwellDecodedMethodPacket

/-- The positions of a packet have 16 bits. -/
def Valid (packet : MaxwellDecodedMethodPacket) : Prop :=
  match packet.methods with
  | .many _ arguments _ _ => arguments.length < 2 ^ 16
  | _ => True

theorem length_push (run : Arguments) (index : ℕ) (argument : MaxwellPushbufferWord) :
    (run.push index argument).arguments.length = run.arguments.length + 1 := by
  simp only [Arguments.push]
  split_ifs <;> simp

theorem readArguments_ensures (header : MaxwellGpfifoSourceLocation) (count left : ℕ)
    (run : Arguments) : (readArguments header count left run).Ensures words
      (fun run' _ => run'.arguments.length = run.arguments.length + left) fun _ _ => True := by
  induction left generalizing run words with
  | zero => exact .pure rfl
  | succ left ih =>
    refine .bind ?_
    rcases words with _ | ⟨_ | word, words⟩
    · trivial
    · trivial
    · refine (ih (run.push _ word)).mono fun run' _ hlength => ?_
      rw [hlength, length_push]
      omega

theorem decodeMethodPacket_ensures (granted : Bool) (header : MaxwellPushbufferWord)
    (mode : MaxwellMethodPacketMode) :
    (decodeMethodPacket granted header mode).Ensures words (fun packet _ => Valid packet)
      fun _ _ => True := by
  have hcount : methodCount mode ((header.value >>> 16) &&& 0x1fff) < 2 ^ 16 := by
    unfold methodCount
    split_ifs
    · decide
    · rw [UInt32.toNat_and]
      exact Nat.lt_of_le_of_lt Nat.and_le_right (by decide)
  unfold decodeMethodPacket
  dsimp only
  generalize methodCount mode _ = count at *
  by_cases h0 : count = 0
  · rw [if_pos h0]
    exact .pure trivial
  rw [if_neg h0]
  refine .failIf fun _ => .failIf fun _ => ?_
  by_cases h1 : count = 1
  · rw [if_pos h1]
    split
    · trivial
    · refine .bind ?_
      rcases words with _ | ⟨_ | word, words⟩
      · trivial
      · trivial
      · trivial
  rw [if_neg h1]
  refine .failIf fun _ => .seq (readArguments_ensures _ _ _ _) fun run _ hlength => .pure ?_
  have hlength : run.arguments.length = count := by simpa using hlength
  exact hlength.trans_lt hcount

/-! ### The addresses of a span -/

variable {span : MaxwellMethodSpan} {packet : MaxwellDecodedMethodPacket}
  {last all run : List MaxwellDecodedMethod} {method : MaxwellDecodedMethod}

/-- A span within its packet. -/
structure Within (span : MaxwellMethodSpan) : Prop where
  valid : Valid span.packet
  begin_le : span.begin ≤ span.stop
  stop_le : span.stop ≤ span.packet.length

theorem Within.slice (hspan : Within span) {range : Bound × Bound} {part : MaxwellMethodSpan}
    (hpart : span.slice range = some part) : Within part := by
  have hle := hspan.begin_le
  have hstop := hspan.stop_le
  simp only [MaxwellMethodSpan.slice, len] at hpart
  obtain ⟨hrange, hpart⟩ := Option.ite_none_right_eq_some.1 hpart
  cases hpart
  exact ⟨hspan.valid, by simpa using hrange.1, by simp only; omega⟩

/-- The address written at a position of the packet. -/
def address (packet : MaxwellDecodedMethodPacket) (index : ℕ) : ℕ :=
  match packet.methods with
  | .empty => 0
  | .one method => method.method
  | .many first _ _ _ => methodId (methodDword packet.mode first (index % 2 ^ 16))

theorem address_of_methodAt {index : ℕ} {method : MaxwellDecodedMethod}
    (hmethod : packet.methodAt index = some method) : method.method = address packet index := by
  unfold methodAt at hmethod
  unfold address
  split at hmethod
  · cases hmethod
  · cases hmethod
    rfl
  · obtain ⟨_, -, rfl⟩ := Option.map_eq_some_iff.1 hmethod
    rfl

theorem methodAt_eq_some {index : ℕ} (hindex : index < packet.length) :
    ∃ method, packet.methodAt index = some method := by
  unfold methodAt
  unfold MaxwellDecodedMethodPacket.length at hindex
  split
  next hmethods => simp [hmethods] at hindex
  next => exact ⟨_, rfl⟩
  next hmethods =>
    simp only [hmethods] at hindex
    exact ⟨_, by rw [getElem?_eq_getElem hindex, Option.map_some]⟩

/-- **Where the iterator cuts.**  From the new stop on, all writes go to the address of the last
one; below it, none of them does. -/
theorem nextStop_spec (hspan : Within span) (hlen : span.begin < span.stop) :
    span.begin ≤ span.nextStop ∧ span.nextStop < span.stop ∧
    (∀ i, span.nextStop ≤ i → i < span.stop →
      address span.packet i = address span.packet (span.stop - 1)) ∧
    ∀ i j, span.begin ≤ i → i < span.nextStop → span.nextStop ≤ j → j < span.stop →
      address span.packet j ≠ address span.packet i := by
  obtain ⟨⟨mode, _, _, methods⟩, first, stop⟩ := span
  obtain ⟨hvalid, -, hstop⟩ := hspan
  cases methods with
  | empty => exact absurd (hlen.trans_le hstop) (Nat.not_lt_zero _)
  | one method =>
    have hstop : stop ≤ 1 := hstop
    obtain rfl : first = 0 := by simp only at hlen; omega
    obtain rfl : stop = 1 := by simp only at hlen; omega
    cases mode <;> simp [nextStop, address]
  | many dword arguments _ _ =>
    have hsmall : arguments.length < 2 ^ 16 := hvalid
    have hstop : stop ≤ arguments.length := hstop
    cases mode with
    | incrementing =>
      simp only [nextStop, address, methodDword, methodId] at hlen ⊢
      refine ⟨by omega, by omega, fun i hi hlt => ?_, fun i j _ hi hj hlt => by omega⟩
      rw [show i = stop - 1 by omega]
    | incrementOnce =>
      simp only [nextStop, address, methodDword, methodId] at hlen ⊢
      by_cases hfirst : first = 0 ∧ 1 < stop
      · simp only [if_pos hfirst]
        refine ⟨by omega, by omega, fun i hi hlt => ?_, fun i j _ hi hj hlt => ?_⟩
        · rw [if_pos (by omega), if_pos (by omega)]
        · rw [if_pos (by omega), if_neg (by omega)]
          omega
      · simp only [if_neg hfirst]
        refine ⟨by omega, by omega, fun i hi hlt => ?_, fun i j _ hi hj hlt => by omega⟩
        by_cases h0 : i = 0
        · rw [show i = stop - 1 by omega]
        · rw [if_pos (by omega), if_pos (by omega)]
    | nonIncrementing | immediate =>
      exact ⟨le_rfl, hlen, fun _ _ _ => rfl, fun i j hi hlt => absurd hi hlt.not_ge⟩

/-! ### The last writes -/

theorem execute_append (registers : ℕ → UInt32) (first second : List MaxwellDecodedMethod) :
    execute registers (first ++ second) = execute (execute registers first) second :=
  foldl_append

theorem execute_run (registers : ℕ → UInt32) (hrun : ∀ write ∈ run, write.method = method.method) :
    execute registers (run ++ [method]) =
      Function.update registers method.method method.argument := by
  induction run generalizing registers with
  | nil => rfl
  | cons write run ih =>
    obtain ⟨hwrite, hrun⟩ := forall_mem_cons.1 hrun
    rw [cons_append, execute, foldl_cons, hwrite]
    exact (ih _ hrun).trans (Function.update_idem ..)

/-- The last write of each address, latest first. -/
structure Summarises (last all : List MaxwellDecodedMethod) : Prop where
  ordered : last.reverse.Sublist all
  once : (last.map (·.method)).Nodup
  covers : ∀ write ∈ all, write.method ∈ last.map (·.method)
  final : ∀ write ∈ last, ∃ before after, all = before ++ write :: after ∧
    ∀ later ∈ after, later.method ≠ write.method
  registers : ∀ registers, execute registers last.reverse = execute registers all

/-- More writes, all of them to one new address. -/
theorem Summarises.step (h : Summarises last all)
    (hall : ∀ write ∈ all, write.method ≠ method.method)
    (hrun : ∀ write ∈ run, write.method = method.method) :
    Summarises (method :: last) (all ++ (run ++ [method])) := by
  have hnew : ∀ write ∈ run ++ [method], write.method = method.method :=
    forall_mem_append.2 ⟨hrun, by simp⟩
  refine ⟨?_, ?_, fun write hwrite => ?_, fun write hwrite => ?_, fun registers => ?_⟩
  · rw [reverse_cons]
    exact h.ordered.append (sublist_append_right ..)
  · refine nodup_cons.2 ⟨fun hmem => ?_, h.once⟩
    obtain ⟨write, hwrite, heq⟩ := mem_map.1 hmem
    exact hall write (h.ordered.subset (mem_reverse.2 hwrite)) heq
  · rw [map_cons, mem_cons]
    exact (mem_append.1 hwrite).symm.imp (hnew write) (h.covers write)
  · rcases mem_cons.1 hwrite with rfl | hold
    · exact ⟨all ++ run, [], by simp, nofun⟩
    obtain ⟨before, after, rfl, hafter⟩ := h.final write hold
    refine ⟨before, after ++ (run ++ [method]), by simp, fun later hlater => ?_⟩
    rcases mem_append.1 hlater with hlater | hlater
    · exact hafter later hlater
    · exact hnew later hlater ▸ (hall write (by simp)).symm
  · rw [reverse_cons, execute_append, h.registers, execute_append _ all, execute_run _ hrun]
    rfl

theorem iter_eq (span : MaxwellMethodSpan) :
    span.iter = (range' span.begin span.len).filterMap span.packet.methodAt := by
  rw [range'_eq_map_range, filterMap_map]
  refine filterMap_congr fun i hi => ?_
  exact if_neg (mem_range.1 hi).not_ge

/-- The iterator of a span that is not empty. -/
theorem Within.lastWrites_eq (hspan : Within span) (hlen : span.begin < span.stop) :
    ∃ method, span.packet.methodAt (span.stop - 1) = some method ∧
      span.lastWrites = method :: span.rest.lastWrites := by
  have hpos : span.len ≠ 0 := (Nat.sub_pos_of_lt hlen).ne'
  have hlast : span.last = span.packet.methodAt (span.stop - 1) := by
    unfold last MaxwellMethodSpan.get len at *
    rw [if_neg hpos, if_neg (by omega)]
    congr 1
    omega
  have hstop := hspan.stop_le
  obtain ⟨method, hmethod⟩ : ∃ method, span.packet.methodAt (span.stop - 1) = some method :=
    methodAt_eq_some (by omega)
  refine ⟨method, hmethod, ?_⟩
  rw [lastWrites]
  split
  next hnone => rw [hlast, hmethod] at hnone; cases hnone
  next hsome => rw [hlast, hmethod] at hsome; cases hsome; rfl

theorem Within.summarises (hspan : Within span) : Summarises span.lastWrites span.iter := by
  induction hstop : span.stop using Nat.strong_induction_on generalizing span with
  | _ stop ih =>
  subst hstop
  rcases hspan.begin_le.lt_or_eq with hlen | hempty
  · obtain ⟨hcut, hlt, hsame, hother⟩ := nextStop_spec hspan hlen
    have hwithin : Within span.rest := ⟨hspan.valid, hcut, hlt.le.trans hspan.stop_le⟩
    have hrest := ih _ hlt hwithin rfl
    obtain ⟨method, hmethod, heq⟩ := hspan.lastWrites_eq hlen
    have hsplit : range' span.begin span.len = range' span.begin span.rest.len ++
        (range' span.nextStop (span.stop - 1 - span.nextStop) ++ [span.stop - 1]) := by
      have hrest : span.rest.len = span.nextStop - span.begin := rfl
      have hlen : span.len = span.rest.len + (span.stop - 1 - span.nextStop + 1) := by
        rw [len]
        omega
      rw [hlen, ← range'_append_1, range'_1_concat]
      congr <;> omega
    have haddress := address_of_methodAt hmethod
    rw [iter_eq] at hrest
    rw [heq, iter_eq, hsplit, filterMap_append, filterMap_append, filterMap_cons_some hmethod]
    refine hrest.step (fun write hwrite => ?_) fun write hwrite => ?_
    · obtain ⟨i, hi, hat⟩ := mem_filterMap.1 hwrite
      obtain ⟨hbegin, hi⟩ := mem_range'_1.1 hi
      rw [address_of_methodAt hat, haddress]
      refine (hother i _ hbegin (hi.trans_eq ?_) (by omega) (by omega)).symm
      exact Nat.add_sub_of_le hcut
    · obtain ⟨i, hi, hat⟩ := mem_filterMap.1 hwrite
      obtain ⟨hcut, hi⟩ := mem_range'_1.1 hi
      rw [address_of_methodAt hat, haddress]
      exact hsame i hcut (by omega)
  · have hlen : span.len = 0 := by rw [len, hempty, Nat.sub_self]
    rw [MaxwellMethodSpan.iter, hlen, lastWrites]
    split
    next => exact ⟨.slnil, .nil, nofun, nofun, fun _ => rfl⟩
    next hsome => simp [last, hlen] at hsome

theorem Within.length_iter (hspan : Within span) : span.iter.length = span.len := by
  rw [iter_eq, filterMap_length_eq_length.2 fun i hi => ?_, length_range']
  obtain ⟨hbegin, hi⟩ := mem_range'_1.1 hi
  have hlen : span.begin + span.len = span.stop := Nat.add_sub_of_le hspan.begin_le
  obtain ⟨method, hmethod⟩ := methodAt_eq_some ((hi.trans_eq hlen).trans_le hspan.stop_le)
  rw [hmethod]
  rfl

/-- **Last writes.**  However a decoded packet is sliced, the iterator over the last writes returns
one write for each address of the span, and executing these leaves what executing the span
leaves. -/
theorem last_writes_exact {granted : Bool} {header : MaxwellPushbufferWord}
    {mode : MaxwellMethodPacketMode} {rest : List (Except ε MaxwellPushbufferWord)}
    {ranges : List (Bound × Bound)}
    (hdecode : decodeMethodPacket granted header mode words = (.ok packet, rest))
    (hspan : ranges.foldlM MaxwellMethodSpan.slice packet.span = some span) :
    span.iter.length = span.len ∧ Summarises span.lastWrites span.iter := by
  have hvalid : Valid packet := (decodeMethodPacket_ensures granted header mode).of_ok hdecode
  have hwhole : Within packet.span := ⟨hvalid, Nat.zero_le _, le_rfl⟩
  suffices hwithin : Within span from ⟨hwithin.length_iter, hwithin.summarises⟩
  generalize packet.span = whole at hwhole hspan
  induction ranges generalizing whole with
  | nil =>
    cases hspan
    exact hwhole
  | cons range ranges ih =>
    obtain ⟨part, hpart, hrest⟩ := Option.bind_eq_some_iff.1 hspan
    exact ih part (hwhole.slice hpart) hrest

/-- Three writes that increment once; the arguments are the header again. -/
def onceHeader : MaxwellPushbufferWord := ⟨0xa0030100, ⟨0, 0, 0, 0, 0, 0, 0⟩⟩

def oncePacket : MaxwellDecodedMethodPacket :=
  ⟨.incrementOnce, onceHeader.location, some 0,
    .many 0x100 [0xa0030100, 0xa0030100, 0xa0030100] onceHeader.location
      [⟨1, onceHeader.location⟩, ⟨2, onceHeader.location⟩]⟩

/-- Without the first write, which is the only one of its method. -/
theorem last_writes_exact_once : (⟨oncePacket, 1, 3⟩ : MaxwellMethodSpan).iter.length = 2 ∧
    Summarises (⟨oncePacket, 1, 3⟩ : MaxwellMethodSpan).lastWrites
      (⟨oncePacket, 1, 3⟩ : MaxwellMethodSpan).iter := by
  have hdecode : decodeMethodPacket true onceHeader .incrementOnce
    [(.ok onceHeader : Except Unit _), .ok onceHeader, .ok onceHeader] = (.ok oncePacket, []) := rfl
  have hspan : [(Bound.included 1, Bound.unbounded)].foldlM MaxwellMethodSpan.slice
    oncePacket.span = some ⟨oncePacket, 1, 3⟩ := rfl
  exact last_writes_exact hdecode hspan

end Nixe.Pushbuffer
