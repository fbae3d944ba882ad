/-
**The virtual clock under every interleaving.**

`VirtualClock` keeps one atomic word: while the clock runs it is the time spent paused, while the
clock is paused it is a flag and the frozen time.  A reader samples the host clock between two loads
of that word; `set_paused` samples it *before* it exchanges the word.  The host clock may advance in
between, and then a frozen time lies below times that were already returned.

The model has one program counter for each thread and lets the host clock advance between any two
atomic operations.  A returned read carries the moments at which it began, sampled and ended.

Main definitions:

* `hostElapsedNs`, `pauseTransition` — as in the source;
* `Clock.act`, `clock` — every atomic operation of the four methods;
* `Prompt` — an exchange takes effect at the host time it was computed for, and nobody schedules
  beyond the time that reads return;
* `Faithful` — what is expected of the reads.

Main results:

* `prompt_faithful` — **if the steps are prompt, virtual time never runs backwards and excludes
  exactly the pauses**;
* `runs_backwards` — a pause that freezes a time already passed.
-/
import Mathlib.Data.Nat.Bitwise
import Nixe.Machine

set_option autoImplicit false

namespace Nixe.VirtualTime

open List Function Bool

/-! ### The clock -/

inductive VirtualClockMode
  | realtime
  | fixed
  deriving DecidableEq, Repr

/-- The flag of the pause word. -/
def pausedFlag : ℕ := 1 <<< 63

variable (mode : VirtualClockMode) (state : ℕ) {paused : Bool}

/-- `state & PAUSED != 0` -/
def isPaused : Bool := state &&& pausedFlag != 0

/-- `state & !PAUSED` -/
def payload : ℕ := state &&& (pausedFlag - 1)

def pauseTransition (now : ℕ) (paused : Bool) : ℕ :=
  if paused then pausedFlag ||| (now - state) else now - payload state

def hostElapsedNs (host : ℕ) : ℕ := min host (pausedFlag - 1)

inductive Read
  | hostElapsed
  | schedulerTimeNs
  deriving DecidableEq, Repr

/-- What the clock was at one moment of a run; `host` and `pausedTime` are in the units of
`hostElapsedNs`, and `pauses` counts the exchanges of the pause word. -/
structure Moment where
  index : ℕ
  host : ℕ
  pausedTime : ℕ
  scheduled : ℕ
  pauses : ℕ
  paused : Bool
  deriving DecidableEq, Repr

/-- The host time that was not spent paused. -/
def Moment.elapsed (m : Moment) : ℕ := m.host - m.pausedTime

/-- The time that a read is meant to return. -/
def Moment.level (read : Read) (m : Moment) : ℕ :=
  match mode, read with
  | .fixed, .schedulerTimeNs => m.scheduled
  | _, _ => m.elapsed

/-- A read in progress, with the scheduler time that `scheduler_time_ns` has loaded. -/
structure Pending where
  begun : Moment
  scheduled : Option ℕ
  deriving DecidableEq, Repr

def Pending.read (call : Pending) : Read :=
  if call.scheduled.isSome then .schedulerTimeNs else .hostElapsed

/-- What the read returns, given what `host_elapsed` returned. -/
def Pending.value (call : Pending) (elapsed : ℕ) : ℕ :=
  match call.scheduled with
  | none => elapsed
  | some scheduled => max scheduled elapsed

/-- The next atomic operation of a thread, with its local variables. -/
inductive Thread
  | idle
  | schedule (begun : Moment)
  | load (call : Pending)
  | sample (call : Pending) (state : ℕ)
  | check (call : Pending) (state now : ℕ) (sampled : Moment)
  | pauseLoad (paused : Bool)
  | pauseSample (paused : Bool) (state : ℕ)
  | pauseExchange (paused : Bool) (state now : ℕ)
  deriving DecidableEq, Repr

structure Returned where
  read : Read
  begun : Moment
  sampled : Moment
  ended : Moment
  value : ℕ
  deriving DecidableEq, Repr

/-- The shared words, the host clock and the threads, with the history of the run. -/
structure Clock where
  mode : VirtualClockMode
  host : ℕ := 0
  pause : ℕ := 0
  schedulerTimeNs : ℕ := 0
  threads : ℕ → Thread := fun _ => .idle
  pausedTime : ℕ := 0
  pauses : ℕ := 0
  past : List Moment := []
  returned : List Returned := []

namespace Clock

variable (c : Clock)

def moment : Moment where
  index := c.past.length
  host := hostElapsedNs c.host
  pausedTime := c.pausedTime
  scheduled := c.schedulerTimeNs
  pauses := c.pauses
  paused := isPaused c.pause

def goto (t : ℕ) (thread : Thread) : Clock :=
  { c with threads := update c.threads t thread }

def answer (t : ℕ) (read : Read) (begun sampled : Moment) (value : ℕ) : Clock :=
  { c.goto t .idle with returned := ⟨read, begun, sampled, c.moment, value⟩ :: c.returned }

/-- The head of the loop of `set_paused`. -/
def pauseLoop (t : ℕ) (paused : Bool) (state : ℕ) : Clock :=
  if isPaused state = paused then c.goto t .idle else c.goto t (.pauseSample paused state)

/-- The next atomic operation of a thread; a weak exchange may fail for no reason. -/
def resume (t : ℕ) (spurious : Bool) : Thread → Clock
  | .idle => c
  | .schedule begun =>
    match c.mode with
    | .realtime => c.goto t (.load ⟨begun, some c.schedulerTimeNs⟩)
    | .fixed => c.answer t .schedulerTimeNs begun c.moment c.schedulerTimeNs
  | .load call =>
    if isPaused c.pause then
      c.answer t call.read call.begun c.moment (call.value (payload c.pause))
    else c.goto t (.sample call c.pause)
  | .sample call state => c.goto t (.check call state (hostElapsedNs c.host) c.moment)
  | .check call state now sampled =>
    if c.pause = state then c.answer t call.read call.begun sampled (call.value (now - state))
    else c.goto t (.load call)
  | .pauseLoad paused => c.pauseLoop t paused c.pause
  | .pauseSample paused state => c.goto t (.pauseExchange paused state (hostElapsedNs c.host))
  | .pauseExchange paused state now =>
    if c.pause = state ∧ spurious = false then
      { c.goto t .idle with pause := pauseTransition state now paused, pauses := c.pauses + 1 }
    else c.pauseLoop t paused c.pause

end Clock

/-- What can happen next: the host clock advances, an idle thread calls a method, `fetch_max` of
`advance_scheduler_to`, or a thread performs its next operation. -/
inductive Action
  | tick (duration : ℕ)
  | read (thread : ℕ) (read : Read)
  | setPaused (thread : ℕ) (paused : Bool)
  | advanceSchedulerTo (nanoseconds : ℕ)
  | step (thread : ℕ) (spurious : Bool)
  deriving DecidableEq, Repr

def Clock.act (c : Clock) : Action → Clock
  | .tick duration =>
    { c with
      host := c.host + duration
      pausedTime := if isPaused c.pause
        then c.pausedTime + (hostElapsedNs (c.host + duration) - hostElapsedNs c.host)
        else c.pausedTime }
  | .read t read =>
    if c.threads t = .idle then
      match read with
      | .hostElapsed => c.goto t (.load ⟨c.moment, none⟩)
      | .schedulerTimeNs => c.goto t (.schedule c.moment)
    else c
  | .setPaused t paused => if c.threads t = .idle then c.goto t (.pauseLoad paused) else c
  | .advanceSchedulerTo nanoseconds =>
    { c with schedulerTimeNs := max c.schedulerTimeNs nanoseconds }
  | .step t spurious => c.resume t spurious (c.threads t)

/-- The clock as a machine that remembers its moments. -/
def clock : Machine Clock Action Unit where
  step c action := ((), { c.act action with past := c.moment :: c.past })

/-! ### What is expected -/

/-- A successful exchange of a pause or a resumption takes effect at the host time it was computed
for, and `advance_scheduler_to` goes neither beyond the time that realtime reads return nor, in
fixed mode, forward during a pause. -/
def Prompt (c : Clock) : Action → Prop
  | .advanceSchedulerTo nanoseconds =>
    match c.mode with
    | .realtime => nanoseconds ≤ c.moment.elapsed
    | .fixed => isPaused c.pause = true → nanoseconds ≤ c.schedulerTimeNs
  | .step t spurious =>
    match c.threads t with
    | .pauseExchange _ state now =>
      c.pause = state → spurious = false → now = hostElapsedNs c.host
    | _ => True
  | _ => True

instance (c : Clock) (action : Action) : Decidable (Prompt c action) := by
  unfold Prompt
  split
  · split <;> infer_instance
  · split <;> infer_instance
  · infer_instance

/-- Reads of one timeline; in realtime mode there is only one. -/
def Comparable (r r' : Returned) : Prop :=
  mode = .realtime ∨ r.read = r'.read

/-- The whole read lies in the pause that is the `pauses`-th exchange. -/
def Returned.During (r : Returned) (pauses : ℕ) : Prop :=
  r.begun.paused = true ∧ r.begun.pauses = pauses ∧ r.ended.pauses = pauses

/-- **Virtual time never runs backwards and excludes exactly the pauses.** -/
structure Faithful (c : Clock) : Prop where
  monotone : ∀ r ∈ c.returned, ∀ r' ∈ c.returned, Comparable c.mode r r' →
    r.ended.index < r'.begun.index → r.value ≤ r'.value
  frozen : ∀ r ∈ c.returned, ∀ r' ∈ c.returned, Comparable c.mode r r' →
    ∀ pauses, r.During pauses → r'.During pauses → r.value = r'.value
  elapsed : c.mode = .realtime → ∀ r ∈ c.returned, ∀ r' ∈ c.returned,
    (r'.value : ℤ) - r.value = ((r'.sampled.host : ℤ) - r.sampled.host) -
      ((r'.sampled.pausedTime : ℤ) - r.sampled.pausedTime)

/-! ### The pause word -/

theorem hostElapsedNs_lt (host : ℕ) : hostElapsedNs host < 2 ^ 63 := by
  simp only [hostElapsedNs, pausedFlag]
  omega

theorem hostElapsedNs_mono {a b : ℕ} (h : a ≤ b) : hostElapsedNs a ≤ hostElapsedNs b :=
  min_le_min_right _ h

theorem pausedFlag_eq : pausedFlag = 2 ^ 63 := rfl

theorem isPaused_eq : isPaused state = state.testBit 63 := by
  rw [isPaused, pausedFlag_eq, Nat.and_two_pow]
  cases state.testBit 63 <;> rfl

theorem payload_eq : payload state = state % 2 ^ 63 :=
  Nat.and_two_pow_sub_one_eq_mod state 63

variable {state : ℕ} {thread : Thread}

theorem isPaused_of_lt (h : state < 2 ^ 63) : isPaused state = false := by
  rw [isPaused_eq, Nat.testBit_lt_two_pow h]

theorem isPaused_flag : isPaused (pausedFlag ||| state) = true := by
  rw [isPaused_eq, pausedFlag_eq, Nat.testBit_or, Nat.testBit_two_pow_self, Bool.true_or]

theorem payload_flag (h : state < 2 ^ 63) : payload (pausedFlag ||| state) = state := by
  rw [payload_eq, pausedFlag_eq, Nat.or_mod_two_pow, Nat.mod_self, Nat.zero_or, Nat.mod_eq_of_lt h]

/-- **The pause word is right**: the time spent paused, or the time that was frozen. -/
def Word (c : Clock) : Prop :=
  c.pausedTime ≤ hostElapsedNs c.host ∧
    if isPaused c.pause then payload c.pause = c.moment.elapsed else c.pause = c.pausedTime

/-- An exchange at the host time that it was computed for leaves the word right. -/
theorem Word.exchange {c c' : Clock} (h : Word c) (hne : isPaused c.pause ≠ paused)
    (hpause : c'.pause = pauseTransition c.pause (hostElapsedNs c.host) paused)
    (hhost : c'.host = c.host) (htime : c'.pausedTime = c.pausedTime) : Word c' := by
  obtain ⟨hle, hword⟩ := h
  have hlt := hostElapsedNs_lt c.host
  simp only [Word, Clock.moment, Moment.elapsed, hhost, htime, hpause] at hword ⊢
  refine ⟨hle, ?_⟩
  cases paused with
  | true =>
    simp only [eq_false_of_not_eq_true hne, false_eq_true, if_false] at hword
    simp only [pauseTransition, if_true, isPaused_flag, hword]
    exact payload_flag (by omega)
  | false =>
    simp only [eq_true_of_not_eq_false hne, if_true] at hword
    have heq : pauseTransition c.pause (hostElapsedNs c.host) false = c.pausedTime := by
      simp only [pauseTransition, false_eq_true, if_false, hword]
      omega
    rw [heq, isPaused_of_lt (by omega)]
    simp

/-! ### Moments of a run -/

/-- What does not go back from one moment to the next, and what a pause keeps. -/
structure Earlier (mode : VirtualClockMode) (m m' : Moment) : Prop where
  index : m.index < m'.index
  pausedTime : m.pausedTime ≤ m'.pausedTime
  elapsed : m.elapsed ≤ m'.elapsed
  scheduled : m.scheduled ≤ m'.scheduled
  pauses : m.pauses ≤ m'.pauses
  same : m.pauses = m'.pauses → m.paused = m'.paused ∧ (m.paused = true →
    m.elapsed = m'.elapsed ∧ (mode = .fixed → m.scheduled = m'.scheduled))

section Past

variable {mode : VirtualClockMode} {past : List Moment} {m m' m'' : Moment}

theorem Earlier.trans (h : Earlier mode m m') (h' : Earlier mode m' m'') : Earlier mode m m'' where
  index := h.index.trans h'.index
  pausedTime := h.pausedTime.trans h'.pausedTime
  elapsed := h.elapsed.trans h'.elapsed
  scheduled := h.scheduled.trans h'.scheduled
  pauses := h.pauses.trans h'.pauses
  same heq := by
    -- no exchange from the first moment to the last, so none on either half
    have hle := h.pauses
    have hle' := h'.pauses
    obtain ⟨hpaused, hkept⟩ := h.same (by omega)
    obtain ⟨hpaused', hkept'⟩ := h'.same (by omega)
    refine ⟨hpaused.trans hpaused', fun hp => ?_⟩
    obtain ⟨helapsed, hscheduled⟩ := hkept hp
    obtain ⟨helapsed', hscheduled'⟩ := hkept' (hpaused ▸ hp)
    exact ⟨helapsed.trans helapsed', fun hmode => (hscheduled hmode).trans (hscheduled' hmode)⟩

theorem Earlier.level (h : Earlier mode m m') (read : Read) :
    m.level mode read ≤ m'.level mode read := by
  cases mode <;> cases read <;> first | exact h.elapsed | exact h.scheduled

theorem Earlier.level_eq (h : Earlier mode m m') (hpauses : m.pauses = m'.pauses)
    (hpaused : m.paused = true) {read : Read} : m.level mode read = m'.level mode read := by
  obtain ⟨helapsed, hscheduled⟩ := (h.same hpauses).2 hpaused
  cases mode <;> cases read <;> first | exact helapsed | exact hscheduled rfl

section

variable (h : past.Pairwise fun m m' => Earlier mode m' m) (hm : m ∈ past) (hm' : m' ∈ past)
include h hm hm'

theorem past_cases : m = m' ∨ Earlier mode m m' ∨ Earlier mode m' m := by
  obtain ⟨i, hi, rfl⟩ := mem_iff_getElem.1 hm
  obtain ⟨j, hj, rfl⟩ := mem_iff_getElem.1 hm'
  rcases lt_trichotomy i j with hij | rfl | hij
  · exact .inr (.inr (pairwise_iff_getElem.1 h i j hi hj hij))
  · exact .inl rfl
  · exact .inr (.inl (pairwise_iff_getElem.1 h j i hj hi hij))

theorem past_le (hle : m.index ≤ m'.index) :
    m.pauses ≤ m'.pauses ∧ ∀ read, m.level mode read ≤ m'.level mode read := by
  rcases past_cases h hm hm' with rfl | hlt | hlt
  · exact ⟨le_rfl, fun _ => le_rfl⟩
  · exact ⟨hlt.pauses, hlt.level⟩
  · exact absurd hlt.index (by omega)

theorem level_eq (hpauses : m.pauses = m'.pauses) (hpaused : m.paused = true) (read : Read) :
    m'.paused = true ∧ m.level mode read = m'.level mode read := by
  rcases past_cases h hm hm' with rfl | hlt | hlt
  · exact ⟨hpaused, rfl⟩
  · exact ⟨(hlt.same hpauses).1 ▸ hpaused, hlt.level_eq hpauses hpaused⟩
  · have hpaused' := (hlt.same hpauses.symm).1.trans hpaused
    exact ⟨hpaused', (hlt.level_eq hpauses.symm hpaused').symm⟩

end

end Past

/-! ### The invariant -/

/-- A read in progress began in the past and has loaded no time that lies ahead. -/
def Pending.Held (c : Clock) (call : Pending) (elapsed : ℕ) : Prop :=
  call.begun ∈ c.past ∧ ∀ n ∈ call.scheduled, c.mode = .realtime ∧ n ≤ elapsed

/-- What a thread's local variables say about the clock. -/
def Held (c : Clock) : Thread → Prop
  | .idle | .pauseLoad _ => True
  | .schedule begun => begun ∈ c.past
  | .load call => call.Held c c.moment.elapsed
  | .sample call state =>
    call.Held c c.moment.elapsed ∧ isPaused state = false ∧ state ≤ c.pausedTime
  | .check call state now sampled =>
    call.Held c sampled.elapsed ∧ sampled ∈ c.past ∧ call.begun.index ≤ sampled.index ∧
      isPaused state = false ∧ state ≤ sampled.pausedTime ∧ now = sampled.host
  | .pauseSample paused state => isPaused state ≠ paused
  | .pauseExchange paused state _ => isPaused state ≠ paused

/-- A returned read has the time of its sampling point. -/
structure Sound (c : Clock) (r : Returned) : Prop where
  begun : r.begun ∈ c.past
  sampled : r.sampled ∈ c.past
  ended : r.ended ∈ c.past
  order : r.begun.index ≤ r.sampled.index ∧ r.sampled.index ≤ r.ended.index
  value : r.value = r.sampled.level c.mode r.read

structure Inv (c : Clock) : Prop where
  word : Word c
  scheduled : c.mode = .realtime → c.schedulerTimeNs ≤ c.moment.elapsed
  pairwise : c.past.Pairwise fun m m' => Earlier c.mode m' m
  past : ∀ m ∈ c.past, Earlier c.mode m c.moment
  bound : ∀ m ∈ c.past, m.pausedTime ≤ m.host
  threads : ∀ t, Held c (c.threads t)
  returned : ∀ r ∈ c.returned, Sound c r

theorem inv_start : Inv { mode } where
  word := by simp [Word, isPaused]
  scheduled := by simp
  pairwise := List.Pairwise.nil
  past := by simp
  bound := by simp
  threads _ := trivial
  returned := by simp

/-- The clock after a moment: the same mode, and time that went forward. -/
structure Follows (c c' : Clock) : Prop where
  mode : c'.mode = c.mode
  past : c'.past = c.moment :: c.past
  earlier : Earlier c.mode c.moment c'.moment

section Step

variable {c c' : Clock} {t : ℕ}

theorem Follows.mem (h : Follows c c') {m : Moment} (hm : m ∈ c.past) : m ∈ c'.past := by
  rw [h.past]
  exact mem_cons_of_mem _ hm

theorem Pending.Held.mono (h : Follows c c') {call : Pending} {n n' : ℕ} (hcall : call.Held c n)
    (hle : n ≤ n') : call.Held c' n' :=
  ⟨h.mem hcall.1, fun x hx => ⟨h.mode.trans (hcall.2 x hx).1, (hcall.2 x hx).2.trans hle⟩⟩

/-- What a thread knows survives the operations of the others. -/
theorem Held.mono (h : Follows c c') (hheld : Held c thread) : Held c' thread := by
  cases thread with
  | idle | pauseLoad => trivial
  | schedule => exact h.mem hheld
  | load => exact .mono h hheld h.earlier.elapsed
  | sample =>
    obtain ⟨hcall, hrunning, hle⟩ := hheld
    exact ⟨hcall.mono h h.earlier.elapsed, hrunning, hle.trans h.earlier.pausedTime⟩
  | check =>
    obtain ⟨hcall, hsampled, hrest⟩ := hheld
    exact ⟨hcall.mono h le_rfl, h.mem hsampled, hrest⟩
  | pauseSample | pauseExchange => exact hheld

theorem Sound.mono (h : Follows c c') {r : Returned} (hr : Sound c r) : Sound c' r where
  begun := h.mem hr.begun
  sampled := h.mem hr.sampled
  ended := h.mem hr.ended
  order := hr.order
  value := h.mode ▸ hr.value

/-- **The step rule**: it remains to look at the shared words, at the thread that moved and at the
read that returned. -/
theorem Inv.follows (h : Inv c) (hfollows : Follows c c') (hword : Word c')
    (hscheduled : c.mode = .realtime → c'.schedulerTimeNs ≤ c'.moment.elapsed)
    (hthreads : ∀ t, c'.threads t = c.threads t ∨ Held c' (c'.threads t))
    (hreturned : ∀ r ∈ c'.returned, r ∈ c.returned ∨ Sound c' r) : Inv c' where
  word := hword
  scheduled hmode := hscheduled (hfollows.mode ▸ hmode)
  pairwise := by
    rw [hfollows.past, hfollows.mode]
    exact pairwise_cons.2 ⟨h.past, h.pairwise⟩
  past m hm := by
    rw [hfollows.mode]
    rcases mem_cons.1 (hfollows.past ▸ hm) with rfl | hm
    · exact hfollows.earlier
    · exact (h.past m hm).trans hfollows.earlier
  bound m hm := by
    rcases mem_cons.1 (hfollows.past ▸ hm) with rfl | hm
    · exact h.word.1
    · exact h.bound m hm
  threads t := by
    rcases hthreads t with heq | hheld
    · exact heq ▸ (h.threads t).mono hfollows
    · exact hheld
  returned r hr := (hreturned r hr).elim (fun hr => (h.returned r hr).mono hfollows) id

/-- The clock after an operation on local variables only. -/
def Clock.quiet (c : Clock) (t : ℕ) (thread : Thread) (returned : List Returned) : Clock :=
  { c with
    threads := update c.threads t thread
    past := c.moment :: c.past
    returned := returned }

theorem follows_quiet (c : Clock) (t : ℕ) (thread : Thread) (returned : List Returned) :
    Follows c (c.quiet t thread returned) :=
  ⟨rfl, rfl, ⟨Nat.lt_succ_self _, le_rfl, le_rfl, le_rfl, le_rfl,
    fun _ => ⟨rfl, fun _ => ⟨rfl, fun _ => rfl⟩⟩⟩⟩

theorem Inv.quiet (h : Inv c) {returned : List Returned}
    (hheld : Held (c.quiet t thread returned) thread)
    (hreturned : ∀ r ∈ returned, r ∈ c.returned ∨ Sound (c.quiet t thread returned) r) :
    Inv (c.quiet t thread returned) := by
  refine h.follows (follows_quiet c t thread returned) h.word h.scheduled (fun u => ?_) hreturned
  by_cases htu : u = t
  · subst htu
    exact .inr (by simpa [Clock.quiet] using hheld)
  · exact .inl (update_of_ne htu _ _)

theorem Inv.goto (h : Inv c) (t : ℕ) (hheld : Held (c.quiet t thread c.returned) thread) :
    Inv (c.quiet t thread c.returned) :=
  h.quiet hheld fun _ => .inl

theorem Inv.answer (h : Inv c) {read : Read} {begun sampled : Moment} {value : ℕ}
    (hbegun : begun ∈ c.past) (hsampled : sampled = c.moment ∨ sampled ∈ c.past)
    (horder : begun.index ≤ sampled.index) (hvalue : value = sampled.level c.mode read) :
    Inv (c.quiet t .idle (⟨read, begun, sampled, c.moment, value⟩ :: c.returned)) := by
  refine h.quiet trivial fun r hr => ?_
  rcases mem_cons.1 hr with rfl | hr
  · refine .inr ⟨mem_cons_of_mem _ hbegun, mem_cons.2 hsampled, mem_cons_self,
      ⟨horder, ?_⟩, hvalue⟩
    rcases hsampled with rfl | hsampled
    · exact le_rfl
    · exact (h.past sampled hsampled).index.le
  · exact .inl hr

/-- A read that found the right elapsed time returns the time of its sampling point. -/
theorem Pending.Held.value {call : Pending} {m : Moment} (hcall : call.Held c m.elapsed) :
    call.value m.elapsed = m.level c.mode call.read := by
  obtain ⟨begun, scheduled⟩ := call
  cases scheduled with
  | none => cases hmode : c.mode <;> rfl
  | some n =>
    obtain ⟨hmode, hle⟩ := hcall.2 n rfl
    rw [hmode]
    exact max_eq_right hle

theorem Inv.pauseLoop (h : Inv c) {t : ℕ} :
    Inv { c.pauseLoop t paused state with past := c.moment :: c.past } := by
  unfold Clock.pauseLoop
  split
  · exact h.goto t trivial
  · rename_i hne
    exact h.goto t hne

theorem Inv.remember (h : Inv c) : Inv { c with past := c.moment :: c.past } := by
  have hgoto := h.goto 0 ((h.threads 0).mono (follows_quiet c 0 _ _))
  rwa [Clock.quiet, update_eq_self] at hgoto

/-! ### The steps -/

theorem Inv.exchange (h : Inv c) (hne : isPaused c.pause ≠ paused) :
    Inv { c.quiet t .idle c.returned with
      pause := pauseTransition c.pause (hostElapsedNs c.host) paused, pauses := c.pauses + 1 } := by
  refine h.follows ⟨rfl, rfl, ?_⟩ (h.word.exchange hne rfl rfl rfl) h.scheduled (fun u => ?_)
    fun r => Or.inl
  · refine ⟨Nat.lt_succ_self _, le_rfl, le_rfl, le_rfl, Nat.le_succ _, fun heq => ?_⟩
    exact absurd heq (Nat.succ_ne_self _).symm
  · by_cases htu : u = t
    · subst htu
      exact .inr (by simp [Clock.quiet, Held])
    · exact .inl (update_of_ne htu _ _)

/-- The next operation of a thread keeps the invariant, if an exchange is prompt. -/
theorem Inv.resume (h : Inv c) {spurious : Bool} (hheld : Held c thread)
    (hprompt : ∀ paused state now, thread = .pauseExchange paused state now → c.pause = state →
      spurious = false → now = hostElapsedNs c.host) :
    Inv { c.resume t spurious thread with past := c.moment :: c.past } := by
  have hbegun : ∀ m ∈ c.past, m.index ≤ c.moment.index := fun m hm => (h.past m hm).index.le
  obtain ⟨-, hword⟩ := h.word
  cases thread with
  | idle => exact h.remember
  | schedule =>
    rw [Clock.resume]
    split
    · rename_i hmode
      refine h.goto t (show Pending.Held _ _ _ from ⟨mem_cons_of_mem _ hheld, ?_⟩)
      rintro n ⟨⟩
      exact ⟨hmode, h.scheduled hmode⟩
    · rename_i hmode
      exact h.answer hheld (.inl rfl) (hbegun _ hheld) (by rw [hmode]; rfl)
  | load =>
    rw [Clock.resume]
    split
    · rename_i hpaused
      rw [if_pos hpaused] at hword
      have hvalue := Pending.Held.value hheld
      exact h.answer hheld.1 (.inl rfl) (hbegun _ hheld.1) (by rw [hword, hvalue])
    · rename_i hrunning
      rw [if_neg hrunning] at hword
      exact h.goto t ⟨.mono (follows_quiet ..) hheld le_rfl, by simpa using hrunning, hword.le⟩
  | sample =>
    obtain ⟨hcall, hrunning, hle⟩ := hheld
    exact h.goto t ⟨hcall.mono (follows_quiet ..) le_rfl, mem_cons_self, hbegun _ hcall.1,
      hrunning, hle, rfl⟩
  | check call state now sampled =>
    obtain ⟨hcall, hsampled, horder, hrunning, hle, rfl⟩ := hheld
    rw [Clock.resume]
    split
    · -- the word has not changed since before the sample, so it is the paused time at the sample
      rename_i hsame
      rw [hsame, if_neg (by simp [hrunning])] at hword
      have hpast : sampled.pausedTime ≤ c.pausedTime := (h.past sampled hsampled).pausedTime
      have hstate : state = sampled.pausedTime := by omega
      exact h.answer hcall.1 (.inr hsampled) horder (hcall.value ▸ hstate ▸ rfl)
    · exact h.goto t (Pending.Held.mono (follows_quiet c t _ c.returned) hcall
        (h.past sampled hsampled).elapsed)
  | pauseLoad => exact h.pauseLoop
  | pauseSample => exact h.goto t hheld
  | pauseExchange paused state now =>
    rw [Clock.resume]
    split
    · rename_i hsame
      obtain rfl := hprompt paused state now rfl hsame.1 hsame.2
      obtain ⟨rfl, -⟩ := hsame
      exact h.exchange hheld
    · exact h.pauseLoop

theorem Inv.tick (h : Inv c) {duration : ℕ} :
    Inv { c.act (.tick duration) with past := c.moment :: c.past } := by
  obtain ⟨hle, hword⟩ := h.word
  have hhost : hostElapsedNs c.host ≤ hostElapsedNs (c.host + duration) :=
    hostElapsedNs_mono (Nat.le_add_right ..)
  have hscheduled := h.scheduled
  by_cases hpaused : isPaused c.pause = true
  · -- the frozen time stays, and the paused time grows with the host time
    refine h.follows ⟨rfl, rfl, ?_⟩ ?_ (fun hmode => ?_) (fun _ => .inl rfl) fun _ => .inl
    · refine ⟨Nat.lt_succ_self _, ?_, ?_, le_rfl, le_rfl, fun _ =>
        ⟨rfl, fun _ => ⟨?_, fun _ => rfl⟩⟩⟩ <;>
      simp only [Clock.act, Clock.moment, Moment.elapsed, hpaused, if_true] <;> omega
    · simp only [Word, Clock.act, Clock.moment, Moment.elapsed, hpaused, if_true] at hword ⊢
      omega
    · have hbound := hscheduled hmode
      simp only [Clock.act, Clock.moment, Moment.elapsed, hpaused, if_true] at hbound ⊢
      omega
  · rw [if_neg hpaused] at hword
    refine h.follows ⟨rfl, rfl, ?_⟩ ?_ (fun hmode => ?_) (fun _ => .inl rfl) fun _ => .inl
    · refine ⟨Nat.lt_succ_self _, ?_, ?_, le_rfl, le_rfl, fun _ =>
        ⟨rfl, fun hp => absurd hp hpaused⟩⟩ <;>
      simp only [Clock.act, Clock.moment, Moment.elapsed, if_neg hpaused] <;> omega
    · simp only [Word, Clock.act, if_neg hpaused]
      omega
    · have hbound := hscheduled hmode
      simp only [Clock.act, Clock.moment, Moment.elapsed, if_neg hpaused] at hbound ⊢
      omega

theorem Inv.advanceSchedulerTo (h : Inv c) {nanoseconds : ℕ}
    (hprompt : Prompt c (.advanceSchedulerTo nanoseconds)) :
    Inv { c.act (.advanceSchedulerTo nanoseconds) with past := c.moment :: c.past } := by
  refine h.follows ⟨rfl, rfl, ?_⟩ h.word (fun hmode => ?_) (fun _ => .inl rfl) fun _ => .inl
  · refine ⟨Nat.lt_succ_self _, le_rfl, le_rfl, le_max_left .., le_rfl, fun _ =>
      ⟨rfl, fun hpaused => ⟨rfl, fun hmode => ?_⟩⟩⟩
    simp only [Prompt, hmode] at hprompt
    exact (max_eq_left (hprompt hpaused)).symm
  · simp only [Prompt, hmode] at hprompt
    exact max_le (h.scheduled hmode) hprompt

/-- **Prompt steps keep the invariant.** -/
theorem Inv.step (h : Inv c) {action : Action} (hprompt : Prompt c action) :
    Inv (clock.step c action).2 := by
  cases action with
  | tick => exact h.tick
  | read t read =>
    simp only [clock, Clock.act]
    split
    · cases read with
      | hostElapsed =>
        exact h.goto t (show Pending.Held _ _ _ from ⟨mem_cons_self, by simp⟩)
      | schedulerTimeNs => exact h.goto t (show _ ∈ _ from mem_cons_self)
    · exact h.remember
  | setPaused t =>
    simp only [clock, Clock.act]
    split
    · exact h.goto t trivial
    · exact h.remember
  | advanceSchedulerTo => exact h.advanceSchedulerTo hprompt
  | step t =>
    refine h.resume (h.threads t) fun paused state now hthread => ?_
    simpa only [Prompt, hthread] using hprompt

/-! ### The reads -/

theorem level_of_comparable {r r' : Returned} (h : Comparable c.mode r r') (m : Moment) :
    m.level c.mode r.read = m.level c.mode r'.read := by
  rcases h with hmode | hread
  · rw [hmode]
    rfl
  · rw [hread]

theorem Inv.faithful (h : Inv c) : Faithful c where
  monotone r hr r' hr' hcomparable hlt := by
    have hsound := h.returned r hr
    have hsound' := h.returned r' hr'
    have horder : r.sampled.index ≤ r'.sampled.index :=
      hsound.order.2.trans (hlt.le.trans hsound'.order.1)
    rw [hsound.value, hsound'.value, level_of_comparable hcomparable]
    exact (past_le h.pairwise hsound.sampled hsound'.sampled horder).2 _
  frozen r hr r' hr' hcomparable pauses hduring hduring' := by
    have hsampled : ∀ x ∈ c.returned, x.During pauses → x.sampled ∈ c.past ∧
        x.sampled.pauses = pauses ∧ x.sampled.paused = true := by
      rintro x hx ⟨hpaused, hbegun, hended⟩
      have hsound := h.returned x hx
      -- the sampling point lies between the beginning and the end
      have hpauses : x.sampled.pauses = pauses := by
        have hle := (past_le h.pairwise hsound.begun hsound.sampled hsound.order.1).1
        have hle' := (past_le h.pairwise hsound.sampled hsound.ended hsound.order.2).1
        omega
      exact ⟨hsound.sampled, hpauses, (level_eq h.pairwise hsound.begun hsound.sampled
        (hbegun.trans hpauses.symm) hpaused .hostElapsed).1⟩
    obtain ⟨hmem, hpauses, hpaused⟩ := hsampled r hr hduring
    obtain ⟨hmem', hpauses', -⟩ := hsampled r' hr' hduring'
    rw [(h.returned r hr).value, (h.returned r' hr').value, level_of_comparable hcomparable]
    exact (level_eq h.pairwise hmem hmem' (hpauses.trans hpauses'.symm) hpaused _).2
  elapsed hmode r hr r' hr' := by
    have hvalue : ∀ x ∈ c.returned, (x.value : ℤ) = x.sampled.host - x.sampled.pausedTime := by
      intro x hx
      have hsound := h.returned x hx
      have hle := h.bound x.sampled hsound.sampled
      rw [hsound.value, hmode]
      simp only [Moment.level, Moment.elapsed]
      omega
    rw [hvalue r hr, hvalue r' hr']
    ring

end Step

/-- **If the steps are prompt, virtual time never runs backwards and excludes exactly the
pauses**, in every state reached. -/
theorem prompt_faithful (mode : VirtualClockMode) (actions : List Action)
    (h : clock.Guarded Prompt { mode } actions) : Faithful (clock.run { mode } actions) :=
  (Machine.run_invariant (fun _ _ hinv => hinv.step) actions _ (inv_start mode) h).faithful

/-- Two reads around a prompt pause, with the host clock advancing by 100 in each phase; the first
exchange comes late and fails for no reason. -/
def promptRun : List Action :=
  [.tick 100, .read 0 .hostElapsed, .step 0 false, .step 0 false, .step 0 false,
    .setPaused 1 true, .step 1 false, .step 1 false, .tick 100, .step 1 true, .step 1 false,
    .step 1 false, .tick 100, .read 0 .schedulerTimeNs, .step 0 false, .step 0 false]

theorem prompt_faithful_pause : ((clock.run { mode := .realtime } promptRun).returned.map
      Returned.value = [200, 100]) ∧ Faithful (clock.run { mode := .realtime } promptRun) :=
  ⟨by decide +kernel, prompt_faithful .realtime promptRun (by decide +kernel)⟩

/-- **A pause that freezes a time already passed.**  The thread that pauses samples the host clock
at 100; another thread reads 200 before the exchange, and 100 after it. -/
theorem runs_backwards : ¬ Faithful (clock.run { mode := .realtime }
    [.tick 100, .setPaused 0 true, .step 0 false, .step 0 false, .tick 100,
      .read 1 .hostElapsed, .step 1 false, .step 1 false, .step 1 false, .step 0 false,
      .read 1 .hostElapsed, .step 1 false]) := by
  intro h
  have hmonotone := h.monotone _ (mem_cons_of_mem _ mem_cons_self) _ mem_cons_self
    (.inl rfl) (by decide +kernel)
  revert hmonotone
  decide +kernel

end Nixe.VirtualTime
