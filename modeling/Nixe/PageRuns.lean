/-
**Runs of the calls on canonical pages.**

Any number of threads make any calls of the interface, one after another, and are interleaved in any
way; the host and the devices answer as they like.  Every operation of such a run is good, and with
that the properties of the page visibility protocol follow.

The cached answer of a clean range is right only in runs in which no hint is sampled as clean
between the notification of a transition and the withdrawal of the hint; `stale_clean_read` is a run
with such a sample, and with a stale answer.

Main results:

* `reach_legal` — **every operation of every run is good**;
* `range_owner_sound` — an unfractured owner record of a range owns all of its pages;
* `readback_current` — a readback is stored only while its tokens are current;
* `clean_hint_sound` — a clean hint is true at every moment;
* `clean_read_hit_of_disciplined`, `stale_clean_read` — the cached answer.
-/
import Nixe.CleanReads

set_option autoImplicit false

namespace Nixe.Memory

open Interleaving List

variable {T : Topology} {env : ℕ → Answer} {i r : ℕ} {h : Hist}

/-! ### All threads are safe -/

theorem Safe.ignore {α : Type} {x : Thread α} (hx : Safe T env i x) :
    Safe T env i (ignore x) := hx.bind fun _ => Safe.done _

theorem Safe.program (call : Call) (k : ℕ) : Safe T env i (call.program T k) := by
  cases call with
  | ensureCpuVisibleWith =>
    exact .ignore ((ensureCpuVisibleWith_sat (n := 0) counts_true).post fun _ _ _ _ => trivial)
  | writePreflighted => exact Safe.writePreflighted.ignore
  | writeFragmentPreflighted => exact Safe.writeFragmentPreflighted.ignore
  | cpuAccessWrite => exact Safe.cpuAccessWrite.ignore
  | writeHostScalar => exact Safe.writeHostScalar.ignore
  | tryWriteHostRegions writes => exact (Safe.tryWriteHostRegions writes).ignore
  | commit => exact Safe.commit.ignore
  | prepareDeviceInputs accesses => exact (Safe.prepareDeviceInputs accesses).ignore
  | publishDeviceWrites => exact Safe.publishDeviceWrites.ignore
  | invalidateDevicePages pages => exact (Safe.invalidateDevicePages pages).ignore
  | residentAccessReady => exact Safe.residentAccessReady.ignore
  | prepareWrite =>
    exact .waiting (prepared_sat counts_met ((asPageError_sat requireCpuAuthority_sat).post
      fun _ _ _ hpost => hpost.2))
  | prepareCpuWrite =>
    exact .waiting (prepared_sat counts_met (prepareCpuWriteLocked_sat.post
      fun _ _ _ hpost => hpost.2))
  | read => exact .waiting (read_sat counts_met)
  | atomicCompareExchange =>
    exact .waiting (retrying_sat counts_met fun _ => tryAtomicCompareExchange_sat counts_met)
  | tryExclusiveStore => exact Safe.tryExclusiveStore.ignore

/-- **Every operation of every run is good.** -/
theorem reach_legal {calls : ℕ → List Call} {rest : ℕ → Thread Unit}
    (hreach : (system T env).Reach (fun i => threadOf T (calls i)) h rest) :
    (system T env).Legal (Good T env) h := by
  refine hreach.legal fun i => ?_
  unfold threadOf
  exact Safe.forEach (fun call : Call × ℕ => .program call.1 call.2) _

/-! ### Runs on one page -/

/-- One range with one page of one byte. -/
def onePage : Topology := ⟨fun _ => [0], fun _ => 1⟩

def historyOf (T : Topology) (env : ℕ → Answer) (calls : ℕ → List Call)
    (schedule : List ℕ) : Hist :=
  ((system T env).runPool schedule [] fun i => threadOf T (calls i)).1

theorem reach_historyOf (T : Topology) (env : ℕ → Answer) (calls : ℕ → List Call)
    (schedule : List ℕ) : ∃ rest, (system T env).Reach (fun i => threadOf T (calls i))
      (historyOf T env calls schedule) rest :=
  ⟨_, System.Reach.start.runPool⟩

instance (s : Shared) (o : ℕ) : Decidable (Fractured s o) :=
  decidable_of_iff ((s.owner? o).any (·.fractured) = true) (by
    cases h : s.owner? o <;> simp [Fractured, h])

/-! ### The owner record of a range -/

/-- **The shortcut over the owner record of a range is sound.**  An unfractured record of a layout
owns all pages of the range; so does the record that an advance moves, and it moves no other; and
whenever a residency check answers true through the record of the layout, that record owned all
pages of the range at a moment of the check. -/
theorem range_owner_sound (calls : ℕ → List Call) {h : Hist} {rest : ℕ → Thread Unit}
    (hreach : (system T env).Reach (fun i => threadOf T (calls i)) h rest) :
    (∀ r o, (((system T env).state h).layouts r).owner = some o →
      ¬ Fractured ((system T env).state h) o →
      ∀ p ∈ T.pages r, (((system T env).state h).pages p).visibility = .gpuNewer o) ∧
    (∀ t i r declaration s base, h = t ++ ⟨i, .layout r (.advance declaration), true, s⟩ :: base →
      ∃ o, (((system T env).state base).layouts r).owner = some o ∧
        (∀ p ∈ T.pages r, (((system T env).state base).pages p).visibility = .gpuNewer o) ∧
        s.pages = ((system T env).state base).pages ∧
        ∀ q, q ≠ o → s.owner? q = ((system T env).state base).owner? q) ∧
    ∀ t i r declaration s base, h = t ++ ⟨i, .mark (.ownerHit r declaration), (), s⟩ :: base →
      OwnedInCall T env i r base := by
  have hlegal := reach_legal hreach
  refine ⟨fun r o => owned_of_unfractured hlegal, ?_, ?_⟩
  · rintro t i r declaration s base rfl
    obtain ⟨hbase, hexec⟩ := hlegal.executed
    obtain ⟨o, owner, advanced, howner, hrecord, hadvance, rfl⟩ := exec_advance hexec
    refine ⟨o, howner, owned_of_unfractured hbase howner ?_, rfl, fun q hq => ?_⟩
    · rintro ⟨owner', hrecord', hfractured⟩
      rw [hrecord] at hrecord'
      cases hrecord'
      rw [(RangeDeviceOwner.advance_eq_some hadvance).1] at hfractured
      cases hfractured
    · rw [setOwner_owner? hrecord, if_neg hq]
  · rintro t i r declaration s base rfl
    exact hlegal.good

/-- Two publications of one range: the second advances the record of the first. -/
def publishTwice : ℕ → List Call
  | 0 => [.publishDeviceWrites [(0, .write 7 1)], .publishDeviceWrites [(0, .write 7 2)]]
  | _ => []

/-- The run of `publishTwice` with a host that never fails. -/
def publishTwiceRun : Hist :=
  historyOf onePage (fun _ => ⟨false, none⟩) publishTwice (replicate 40 0)

/-- The record of the range is the one of the first publication, whole, and owns the page. -/
theorem range_owner_sound_publishTwice :
    (((system onePage fun _ => ⟨false, none⟩).state publishTwiceRun).layouts 0).owner = some 0 ∧
    ¬ Fractured ((system onePage fun _ => ⟨false, none⟩).state publishTwiceRun) 0 ∧
    (((system onePage fun _ => ⟨false, none⟩).state publishTwiceRun).pages 0).visibility =
      .gpuNewer 0 := by
  obtain ⟨rest, hreach⟩ := reach_historyOf onePage (fun _ => ⟨false, none⟩) publishTwice
    (replicate 40 0)
  have howner : (((system onePage fun _ => ⟨false, none⟩).state publishTwiceRun).layouts 0).owner =
      some 0 := by decide +kernel
  have hwhole : ¬ Fractured ((system onePage fun _ => ⟨false, none⟩).state publishTwiceRun) 0 := by
    decide +kernel
  exact ⟨howner, hwhole, (range_owner_sound publishTwice hreach).1 0 0 howner hwhole 0 (by decide)⟩

/-! ### Readbacks -/

/-- A publication and a readback of the same page. -/
def publishAndReadBack : ℕ → List Call
  | 0 => [.publishDeviceWrites [(0, .write 7 1)], .ensureCpuVisibleWith 0 1]
  | _ => []

/-- The run of `publishAndReadBack`, the host refusing the operation with this number. -/
def readBackRun (refused steps : ℕ) : Hist :=
  historyOf onePage (fun n => ⟨n = refused, some [5]⟩) publishAndReadBack (replicate steps 0)

/-- The successful return of a readback, if it comes last. -/
def lastReturn : Hist → Option (ℕ × ℕ × ℕ × ℕ)
  | ⟨i, .mark (.readbackReturns p o v (.ok _)), _, _⟩ :: _ => some (i, p, o, v)
  | _ => none

theorem lastReturn_eq_some {p o v : ℕ} (hreturn : lastReturn h = some (i, p, o, v)) :
    ∃ s base, h = ⟨i, .mark (.readbackReturns p o v (.ok ())), (), s⟩ :: base := by
  unfold lastReturn at hreturn
  split at hreturn
  · cases hreturn
    exact ⟨_, _, rfl⟩
  · cases hreturn

/-- The event stores the bytes of a readback of the page. -/
def storesReadback (p : ℕ) (e : Event Shared Resp) : Bool :=
  match e.op with
  | .page q (.storeReadback _ _ _) => q = p
  | _ => false

/-- **A hint read without the lock never calls a page clean that is not**, in any run. -/
theorem clean_hint_sound (calls : ℕ → List Call) {h : Hist} {rest : ℕ → Thread Unit}
    (hreach : (system T env).Reach (fun i => threadOf T (calls i)) h rest) (p : ℕ)
    (hhint : (((system T env).state h).pages p).hint = .clean) :
    (((system T env).state h).pages p).visibility = .clean :=
  hint_clean (reach_legal hreach) hhint

theorem clean_hint_sound_published :
    (((system onePage fun n => ⟨n = 9, some [5]⟩).state (readBackRun 9 51)).pages 0).visibility =
      .clean := by
  obtain ⟨rest, hreach⟩ := reach_historyOf onePage (fun n => ⟨n = 9, some [5]⟩) publishAndReadBack
    (replicate 51 0)
  exact clean_hint_sound publishAndReadBack hreach 0 (by decide +kernel)

/-! ### Cached answers -/

/-- **A cached answer is true at a moment of the call**, in every run up to the answer in which
no hint is sampled as clean in the middle of a transition. -/
theorem clean_read_hit_of_disciplined (calls : ℕ → List Call) {h : Hist} {rest : ℕ → Thread Unit}
    (hreach : (system T env).Reach (fun i => threadOf T (calls i)) h rest)
    (t : Hist) (i r : ℕ) (s : Shared) (base : Hist)
    (hhit : h = t ++ ⟨i, .mark (.cleanReadHit r), (), s⟩ :: base)
    (hdisciplined : Disciplined base) :
    CleanInCall T env i r base := by
  have hlegal := reach_legal hreach
  subst hhit
  exact hlegal.good hdisciplined

/-- The event begins a residency check of thread `i`. -/
def isEntry (i : ℕ) (e : Event Shared Resp) : Bool :=
  match e.op with
  | .mark (.enter _) => e.thread = i
  | _ => false

theorem isEntry_eq_false {e : Event Shared Resp} (h : NotEntry i e) : isEntry i e = false := by
  unfold isEntry
  split
  · rename_i r hop
    exact decide_eq_false fun hthread => h hthread r hop
  · rfl

/-- Whether the pages were clean at some moment of the call, searched back to its entry. -/
def cleanMoment (ps : List ℕ) (i : ℕ) : Hist → Bool
  | [] => false
  | e :: h => ps.all (fun p => (e.post.pages p).visibility = .clean) ||
      !isEntry i e && cleanMoment ps i h

theorem cleanMoment_of_cleanInCall (hclean : CleanInCall T env i r h) :
    cleanMoment (T.pages r) i h = true := by
  obtain ⟨t, t', base, s₀, rfl, hinside, hall⟩ := hclean
  induction t with
  | nil =>
    -- the clean moment itself
    cases t' with
    | nil | cons => simpa [cleanMoment, AllClean] using .inl hall
  | cons e t ih =>
    have he := isEntry_eq_false (hinside e (by simp))
    rw [cons_append, cleanMoment, he, ih fun e' he' => hinside e' (by tauto)]
    simp

/-- A range is prepared and checked, a thread writes to its page, and the range is checked two
more times. -/
def checkAndWrite : ℕ → List Call
  | 0 => [.prepareDeviceInputs [(0, .read 7 0)], .residentAccessReady 0 (.read 7 0),
      .residentAccessReady 0 (.read 7 0), .residentAccessReady 0 (.read 7 0)]
  | 1 => [.cpuAccessWrite 0 0 [5]]
  | _ => []

/-- The second check samples the hint of the page after the writer has notified the summary
and before it withdraws the hint; the third check begins when the write is complete. -/
def staleSchedule : List ℕ :=
  replicate 32 0 ++ replicate 9 1 ++ replicate 10 0 ++ replicate 11 1 ++
    replicate 8 0

/-- The run of `checkAndWrite` under a schedule, with a host that never fails. -/
def checkAndWriteRun (schedule : List ℕ) : Hist :=
  historyOf onePage (fun _ => ⟨false, none⟩) checkAndWrite schedule

/-- The cached answer given last. -/
def lastHit : Hist → Option (ℕ × ℕ)
  | ⟨i, .mark (.cleanReadHit r), _, _⟩ :: _ => some (i, r)
  | _ => none

theorem lastHit_eq_some {r : ℕ} (hhit : lastHit h = some (i, r)) :
    ∃ s, h = ⟨i, .mark (.cleanReadHit r), (), s⟩ :: h.tail := by
  unfold lastHit at hhit
  split at hhit
  · cases hhit
    exact ⟨_, rfl⟩
  · cases hhit

/-- Whether a transition of the page is under way. -/
def underWay (p : ℕ) : Hist → Bool
  | [] => false
  | e :: h => match e.op with
      | .bump q _ => q = p || underWay p h
      | .page q (.setVisibility _ _) => q ≠ p && underWay p h
      | .unlockPage q => q ≠ p && underWay p h
      | _ => underWay p h

theorem underWay_of_pending {p n : ℕ} (hpending : Pending p n h) : underWay p h = true := by
  induction h with
  | nil => exact hpending.elim
  | cons e h ih =>
    obtain ⟨j, op, answer, post⟩ := e
    cases op with
    | bump => rcases hpending with ⟨rfl, -⟩ | hpending <;> simp_all [underWay]
    | unlockPage => simpa [underWay] using ⟨hpending.1, ih hpending.2⟩
    | page q change =>
      cases change with
      | setVisibility => simpa [underWay] using ⟨hpending.1, ih hpending.2⟩
      | _ => exact ih hpending
    | _ => exact ih hpending

/-- No hint is sampled as clean while a transition of its page is under way. -/
def disciplined : Hist → Bool
  | [] => true
  | ⟨_, .loadHint p, .clean, _⟩ :: h => !underWay p h && disciplined h
  | _ :: h => disciplined h

theorem disciplined_sound (hdisciplined : disciplined h = true) : Disciplined h := by
  induction h with
  | nil => trivial
  | cons e h ih =>
    obtain ⟨j, op, answer, post⟩ := e
    cases op with
    | loadHint p =>
      cases answer with
      | clean =>
        rw [disciplined, Bool.and_eq_true] at hdisciplined
        refine ⟨fun n hpending => ?_, ih hdisciplined.2⟩
        rw [underWay_of_pending hpending] at hdisciplined
        cases hdisciplined.1
      | _ => exact ⟨trivial, ih hdisciplined⟩
    | _ => exact ⟨trivial, ih hdisciplined⟩

/-- A range is prepared and checked, a thread writes to its page, the range is prepared again
and checked two more times. -/
def checkAroundWrite : ℕ → List Call
  | 0 => [.prepareDeviceInputs [(0, .read 7 0)], .residentAccessReady 0 (.read 7 0),
      .prepareDeviceInputs [(0, .read 7 0)], .residentAccessReady 0 (.read 7 0),
      .residentAccessReady 0 (.read 7 0)]
  | 1 => [.cpuAccessWrite 0 0 [5]]
  | _ => []

/-- The write comes between the first check and the second preparation. -/
def checkAroundWriteRun : Hist :=
  historyOf onePage (fun _ => ⟨false, none⟩) checkAroundWrite
    (replicate 32 0 ++ replicate 20 1 ++ replicate 32 0)

/-- Two transitions of the page have notified the summary when the third check answers from the
cache, and rightly so. -/
theorem clean_read_hit_of_disciplined_second : ∃ s base,
    checkAroundWriteRun = ⟨0, .mark (.cleanReadHit 0), (), s⟩ :: base ∧
    count ((system onePage fun _ => ⟨false, none⟩).state base) 0 = 2 ∧ Disciplined base ∧
    CleanInCall onePage (fun _ => ⟨false, none⟩) 0 0 base := by
  obtain ⟨rest, hreach⟩ := reach_historyOf onePage (fun _ => ⟨false, none⟩) checkAroundWrite
    (replicate 32 0 ++ replicate 20 1 ++ replicate 32 0)
  have hhit : lastHit checkAroundWriteRun = some (0, 0) := by decide +kernel
  obtain ⟨s, hrun⟩ := lastHit_eq_some hhit
  have hcount : count ((system onePage fun _ => ⟨false, none⟩).state checkAroundWriteRun.tail) 0 =
      2 := by decide +kernel
  have hdisciplined : Disciplined checkAroundWriteRun.tail :=
    disciplined_sound (by decide +kernel)
  refine ⟨s, checkAroundWriteRun.tail, hrun, hcount, hdisciplined, ?_⟩
  exact clean_read_hit_of_disciplined checkAroundWrite hreach [] 0 0 s _ hrun hdisciplined

/-- **A stale answer.**  The page is written between the second and the third check, and the
third one answers from the cache although the page is at no moment of the call clean. -/
theorem stale_clean_read :
    ∃ (calls : ℕ → List Call) (h : Hist) (rest : ℕ → Thread Unit) (s : Shared)
    (base : Hist),
    (system onePage fun _ => ⟨false, none⟩).Reach (fun i => threadOf onePage (calls i)) h rest ∧
    h = ⟨0, .mark (.cleanReadHit 0), (), s⟩ :: base ∧
    ¬ CleanInCall onePage (fun _ => ⟨false, none⟩) 0 0 base := by
  obtain ⟨rest, hreach⟩ := reach_historyOf onePage (fun _ => ⟨false, none⟩) checkAndWrite
    staleSchedule
  have hhit : lastHit (checkAndWriteRun staleSchedule) = some (0, 0) := by decide +kernel
  obtain ⟨s, hrun⟩ := lastHit_eq_some hhit
  refine ⟨checkAndWrite, checkAndWriteRun staleSchedule, rest, s,
    (checkAndWriteRun staleSchedule).tail, hreach, hrun, fun hclean => ?_⟩
  have hmoment := cleanMoment_of_cleanInCall hclean
  have hnone : cleanMoment (onePage.pages 0) 0 (checkAndWriteRun staleSchedule).tail = false := by
    decide +kernel
  rw [hnone] at hmoment
  cases hmoment

end Nixe.Memory
