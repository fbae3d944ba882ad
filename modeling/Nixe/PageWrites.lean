/-
**CPU writes keep the discipline.**

Each of the ways the CPU writes a page finds the page in the CPU's hands at the moment its
bytes are stored.  For a single page this is the specification of
`prepare_cpu_write_locked`; for the batches it has to be carried from the preparation of
all pages to the stores, past the transitions of the other pages of the batch.

Main definitions:

* `Spares` — operations that leave a locked page alone.

Main results:

* `Safe.writePreflighted`, `Safe.writeFragmentPreflighted`, `Safe.cpuAccessWrite` — the
  single-page writes;
* `Safe.tryWriteHostRegions`, `Safe.commit` — the batches.
-/
import Nixe.PageTransitions

set_option autoImplicit false

namespace Nixe.Memory

open Interleaving List

variable {T : Topology} {env : ℕ → Answer} {i p q epoch offset : ℕ} {visibility : PageVisibility}
  {page : Page} {α ε : Type} {Q : α → Hist → Prop} {bytes : List UInt8} {ps : List ℕ}
  {writes : List PendingWrite}

/-! ### Operations that leave a locked page alone -/

/-- The operation at most reads `p`, and does not release it. -/
def Spares (p : ℕ) (op : Op) : Prop :=
  (∀ change, op = .page p change → change = .read) ∧ op ≠ .unlockPage p

theorem LocalTo.spares {V : PageVisibility → Prop} (hne : q ≠ p) (op : Op) (hop : LocalTo q V op) :
    Spares p op := by
  constructor
  · rintro change rfl
    exact absurd hop.1.symm hne
  · rintro rfl
    exact hop

theorem holds_spared {e : Event Shared Resp} {h : Hist} (hexec : (system T env).Executes e h)
    (hop : Spares p e.op) (hholds : Holds T env i p page h) : Holds T env i p page (e :: h) := by
  refine ⟨?_, hholds.2⟩
  rw [System.state_cons, ← hholds.1]
  rcases (effect_of_executes hexec).page_cases p with hsame | ⟨-, hfree, -⟩ | ⟨hunlock, -⟩ |
    ⟨change, hchange, -, hpage⟩
  · exact hsame
  · rw [hholds.1, hholds.2] at hfree
    cases hfree
  · exact absurd hunlock hop.2
  · rw [hpage, hop.1 change hchange]
    rfl

/-- Pages the thread holds and may write stay so past operations that spare them. -/
theorem visible_frame {x : Thread α} {P : Hist → Prop} {S : Set ℕ}
    (hwithin : ∀ p ∈ S, x.Within (Spares p)) (hx : Ensures T env i x P Q) :
    Ensures T env i x (fun h => P h ∧ ∀ p ∈ S, HoldsVisible T env i p h)
      fun a h => Q a h ∧ ∀ p ∈ S, HoldsVisible T env i p h := by
  have hall : x.Within fun op => ∀ p ∈ S, Spares p op := by
    clear hx
    induction x with
    | done => trivial
    | step op next ih =>
      exact ⟨fun p hp => (hwithin p hp).1, fun r => ih r fun p hp => (hwithin p hp).2 r⟩
  refine .frameWithin (fun e h hlegal hexec hgood hne hvisible p hp => ?_)
    (fun e h _ hexec _ _ hop hvisible p hp => ?_) hall hx
  · obtain ⟨page, hholds, hcpu⟩ := hvisible p hp
    exact ⟨page, holds_stable e h hlegal hexec hgood hne hholds, hcpu⟩
  · obtain ⟨page, hholds, hcpu⟩ := hvisible p hp
    exact ⟨page, holds_spared hexec (hop p hp) hholds, hcpu⟩

/-! ### Single pages -/

/-- The bytes of a CPU write are stored while the page is the CPU's. -/
theorem copyBytes_sat :
    Ensures T env i (onPage p (.copyBytes offset bytes)) (HoldsVisible T env i p)
      fun _ => HoldsVisible T env i p := by
  refine .exists_given fun page hvisible => ?_
  refine (onPage_sat _ fun h s hholds => ?_).post fun _ h _ hholds => ⟨_, hholds, hvisible⟩
  exact (congrArg (fun page : Page => page.visibility.cpuVisible) hholds.1).trans hvisible

theorem copyAtGeneration_sat {expected : ℕ} :
    Ensures T env i (copyAtGeneration p offset bytes expected)
      (HoldsVisible T env i p) fun _ => Locked T env i p := by
  refine .exists_given fun page hvisible => ?_
  refine readPage_known ?_
  split
  · refine .bind (copyBytes_sat.pre
      fun h _ hholds => ⟨page, hholds, hvisible⟩) fun _ => ?_
    exact fun h _ hpost => ⟨hpost.choose, hpost.choose_spec.1⟩
  · exact fun h _ hholds => ⟨page, hholds⟩

theorem setGeneration_locked {generation : ℕ} :
    Ensures T env i (onPage p (.setGeneration generation)) (Locked T env i p)
      fun _ => Locked T env i p :=
  .exists fun _ => (onPage_sat (.setGeneration generation) fun _ _ _ => trivial).post
    fun _ _ _ hholds => ⟨_, hholds⟩

theorem Safe.ensureBacking : Safe T env i ensureBacking :=
  Safe.hostFails.bind fun _ => Safe.done _

/-- A critical section that requires the CPU's authority: in a peaceful run no device owns the
page. -/
theorem authorized_sat {body : Thread α} (hQ : ∀ a, Steady T env i (Q a))
    (hbody : Ensures T env i body (Authorized T env i p) Q) :
    Ensures T env i (authorized p body) (fun _ => True) Q := by
  refine locked_sat true_steady hQ (.bind (.perform
    (fun _ e h hlegal hexec hgood hne hauthorized => ?_)
    fun h answer s _ hlocked hexec => ⟨trivial, ?_⟩) fun _ => hbody)
  · obtain ⟨page, hholds, hfree⟩ := hauthorized
    exact ⟨page, holds_stable e h hlegal hexec hgood hne hholds,
      fun howned hpeace => hfree howned hpeace.of_cons⟩
  · cases hexec
    obtain ⟨⟨page, hholds⟩, -⟩ := hlocked
    refine ⟨page, hholds, fun howned hpeace => ?_⟩
    have hfree := hpeace.undisturbed.1
    simp only [hholds.1, howned] at hfree
    cases hfree

theorem Safe.authorized {body : Thread α} (hbody : Ensures T env i body (Authorized T env i p) Q) :
    Safe T env i (Memory.authorized p body) :=
  authorized_sat (fun _ => true_steady) (hbody.post fun _ _ _ _ => trivial)

theorem Safe.writePreflighted {expected next : ℕ} :
    Safe T env i (writePreflighted T p offset bytes expected next) := by
  refine (Safe.done _).attempt fun _ => Safe.ensureBacking.attempt fun _ => ?_
  split
  · refine .authorized
      (.attemptAny prepareCpuWriteLocked_sat fun _ => ?_)
    refine .attemptAny (copyAtGeneration_sat.pre fun _ _ hpost => hpost.1) fun _ => ?_
    exact setGeneration_locked.bind fun _ _ _ _ => trivial
  · exact .done _

theorem Safe.writeFragmentPreflighted {generation : ℕ} :
    Safe T env i (writeFragmentPreflighted T p offset bytes generation) := by
  refine (Safe.done _).attempt fun _ => Safe.ensureBacking.attempt fun _ => ?_
  refine .authorized (.attemptAny prepareCpuWriteLocked_sat fun _ => ?_)
  exact copyAtGeneration_sat.imp (fun _ _ hpost => hpost.1) fun _ _ _ _ => trivial

theorem cpuVisibleLocked_sat (page : Page) :
    Ensures T env i (cpuVisibleLocked p) (Holds T env i p page)
      fun result h => System.onResult (fun visible h => (visible = page.visibility.cpuVisible ∧
        (visible = false → page.visibility.gpuOwned = true)) ∧ Holds T env i p page h)
        (fun _ => True) result h ∧ Fair T env pageConflict result h := by
  refine readPage_known ?_
  cases hvisibility : page.visibility with
  | clean | cpuNewer =>
    exact fun h _ hholds => ⟨⟨⟨rfl, fun hfalse => by cases hfalse⟩, hholds⟩, fair_of_ne (by simp)⟩
  | gpuNewer => exact fun h _ hholds => ⟨⟨⟨rfl, fun _ => rfl⟩, hholds⟩, fair_of_ne (by simp)⟩
  | conflicting =>
    refine fun h hlegal hholds => ⟨trivial, fun _ hpeace => ?_⟩
    exact (peaceful_state hlegal hpeace).2 p (by rw [hholds.1, hvisibility])
  | invalid => exact fun _ _ _ => ⟨trivial, fair_of_ne (by simp)⟩

theorem cpuVisibleLocked_any :
    Ensures T env i (cpuVisibleLocked p) (fun _ => True)
      (System.onResult (fun visible h => visible = true → HoldsVisible T env i p h)
        fun _ => True) := by
  refine of_locked (.pre (.exists fun page => ?_) fun _ _ hlocked => hlocked.1)
  refine (cpuVisibleLocked_sat page).post fun result h _ hpost => ?_
  cases result with
  | error => trivial
  | ok visible => exact fun hvisible => ⟨page, hpost.1.2, by rw [← hpost.1.1.1, hvisible]⟩

theorem Safe.cpuVisibleLocked : Safe T env i (cpuVisibleLocked p) :=
  .of_any cpuVisibleLocked_any

/-- A body that is run only if the CPU sees the page. -/
theorem visible_sat {body : Bool → Thread (Except CanonicalPageError α)}
    (hbody : Ensures T env i (body true) (HoldsVisible T env i p) fun _ _ => True)
    (helse : Safe T env i (body false)) :
    Safe T env i (attempt (Memory.cpuVisibleLocked p) body) := by
  refine .attemptAny cpuVisibleLocked_any fun visible => ?_
  cases visible with
  | true => exact hbody.pre fun _ _ hvisible => hvisible rfl
  | false => exact helse.pre fun _ _ _ => trivial

theorem hostFails_visible : Ensures T env i hostFails (HoldsVisible T env i p)
    fun _ => HoldsVisible T env i p := by
  refine .exists_given fun page hvisible => ?_
  exact hostFails_holds.post fun _ h _ hholds => ⟨page, hholds, hvisible⟩

theorem ensureBacking_visible : Ensures T env i ensureBacking (HoldsVisible T env i p)
    (VisibleIfOk T env i p) := by
  refine hostFails_visible.bind fun failed => ?_
  cases failed with
  | true => exact fun _ _ _ => trivial
  | false => exact fun _ _ hvisible => hvisible

/-- A page in the CPU's hands is prepared for a write. -/
theorem prepareCpuWriteLocked_visible :
    Ensures T env i (prepareCpuWriteLocked p) (HoldsVisible T env i p) (VisibleIfOk T env i p) :=
  prepareCpuWriteLocked_sat.imp (fun _ _ hvisible => hvisible.authorized)
    fun _ _ _ hpost => hpost.1

theorem Safe.cpuAccessWrite : Safe T env i (cpuAccessWrite T p offset bytes) := by
  refine .locked (visible_sat ?_ (.done _))
  refine .attemptAny ensureBacking_visible fun _ => ?_
  refine .attemptAny prepareCpuWriteLocked_visible fun _ => ?_
  refine .attemptAny (Q := fun _ => HoldsVisible T env i p) (fun _ _ hknown => hknown) fun _ => ?_
  exact copyBytes_sat.bind fun _ _ _ _ => trivial

theorem Safe.writeHostScalar : Safe T env i (writeHostScalar T p offset bytes) := by
  refine .locked (visible_sat ?_ (.done _))
  refine .attemptAny (Q := fun _ => HoldsVisible T env i p) (fun _ _ hknown => hknown) fun _ => ?_
  refine hostFails_visible.bind fun unfit => ?_
  cases unfit with
  | true => exact fun _ _ _ => trivial
  | false =>
    refine .exists_given fun page hvisible => ?_
    refine readPage_known ?_
    cases checkedAdd page.generation 1 with
    | none => exact fun _ _ _ => trivial
    | some =>
      refine .pre (.attemptAny ensureBacking_visible fun _ => ?_)
        fun h _ hholds => ⟨page, hholds, hvisible⟩
      refine .attemptAny (mapError_sat takeFromClean_sat) fun _ => ?_
      refine .attemptAny (visible_of_like advanceCpuDirtyEpoch_sat) fun _ => ?_
      exact copyBytes_sat.bind fun _ => .exists_given fun page _ =>
        (onPage_sat (.setGeneration _) fun _ _ _ => trivial).bind fun _ _ _ _ => trivial

theorem exchangeBytes_sat {expected replacement : List UInt8} :
    Ensures T env i (exchangeBytes p offset expected replacement)
      (HoldsVisible T env i p) fun result h =>
        result ≠ .ok none ∧ Fair T env pageConflict result h := by
  refine .exists_given fun page hvisible => ?_
  refine readPage_known ?_
  split
  · refine .bind (copyBytes_sat.pre
      fun h _ hholds => ⟨page, hholds, hvisible⟩) fun _ _ _ _ => ⟨by simp, fair_of_ne (by simp)⟩
  · exact fun _ _ _ => ⟨by simp, fair_of_ne (by simp)⟩

/-- The exchange on a locked page: it has no result only if a device owns the page. -/
theorem exchangeLocked_sat {expected replacement : List UInt8} (page : Page) :
    Ensures T env i (exchangeLocked p offset expected replacement) (Holds T env i p page)
      fun result h => Fair T env pageConflict result h ∧
        (result = .ok none → page.visibility.gpuOwned = true) := by
  refine .attempt (cpuVisibleLocked_sat page)
    (fun _ _ _ hpost => ⟨hpost.2.of_error, fun hnone => by cases hnone⟩) fun visible => ?_
  refine .pre (.given fun hvisible => ?_) fun _ _ hpost => hpost.1
  cases visible with
  | false => exact fun _ _ _ => ⟨fair_of_ne (by simp), fun _ => hvisible.2 rfl⟩
  | true =>
    refine readPage_known ?_
    have hexchange : Ensures T env i (exchangeBytes p offset expected replacement)
        (HoldsVisible T env i p) fun result h => Fair T env pageConflict result h ∧
          (result = .ok none → page.visibility.gpuOwned = true) :=
      exchangeBytes_sat.post fun _ _ _ hpost => ⟨hpost.2, fun hnone => absurd hnone hpost.1⟩
    split
    · split
      · exact .attempt (prepareCpuWriteLocked_sat.pre fun h _ hholds =>
          HoldsVisible.authorized ⟨page, hholds, hvisible.1.symm⟩)
          (fun _ _ _ hpost => ⟨hpost.2.of_error, fun hnone => by cases hnone⟩)
          fun _ => hexchange.pre fun _ _ hpost => hpost.1
      · exact fun _ _ _ => ⟨fair_of_ne (by simp), fun hnone => by cases hnone⟩
    · exact hexchange.pre fun h _ hholds => ⟨page, hholds, hvisible.1.symm⟩

theorem Safe.tryExclusiveStore : Safe T env i (tryExclusiveStore T p offset bytes) := by
  refine (Safe.done _).attempt fun _ => .locked (Safe.hostFails.bind fun lost => ?_)
  cases lost with
  | true => exact Safe.done _
  | false =>
    refine visible_sat ?_ (.done _)
    exact .attemptAny prepareCpuWriteLocked_visible
      fun _ => copyBytes_sat.bind fun _ _ _ _ => trivial

/-! ### Host writes over several pages -/

/-- The pages the thread holds and may write. -/
def AllVisible (T : Topology) (env : ℕ → Answer) (i : ℕ) (ps : List ℕ) (h : Hist) : Prop :=
  ∀ p ∈ ps, HoldsVisible T env i p h

/-- A loop over the pages of a batch whose body keeps its own page the CPU's. -/
theorem kept_loop {body : α → Thread (Except ε Unit)} (page : α → ℕ)
    (hbody : ∀ x, Ensures T env i (body x) (HoldsVisible T env i (page x))
      (VisibleIfOk T env i (page x)))
    (hspares : ∀ x p, p ≠ page x → (body x).Within (Spares p)) (xs : List α)
    (hxs : ∀ x ∈ xs, page x ∈ ps) :
    Ensures T env i (tryEach body xs) (AllVisible T env i ps)
      (System.onResult (fun _ => AllVisible T env i ps) fun _ => True) := by
  induction xs with
  | nil => exact fun _ _ hknown => hknown
  | cons x xs ih =>
    have hx : page x ∈ ps := hxs x (mem_cons_self ..)
    have hframed := visible_frame (S := {p | p ∈ ps ∧ p ≠ page x})
      (fun p hp => hspares x p hp.2) (hbody x)
    refine .attempt (hframed.pre fun h _ hknown => ?_) (fun _ _ _ _ => trivial)
      fun _ => (ih fun y hy => hxs y (mem_cons_of_mem _ hy)).pre fun h _ hknown p hp => ?_
    · exact ⟨hknown _ hx, fun p hp => hknown p hp.1⟩
    · by_cases hpx : p = page x
      · rw [hpx]
        exact hknown.1
      · exact hknown.2 p ⟨hp, hpx⟩

/-- A loop whose body only reads, and finds its own page the CPU's. -/
theorem found_loop {body : α → Thread (Except ε Unit)} (page : α → ℕ)
    (hbody : ∀ x, Ensures T env i (body x) (fun _ => True) (VisibleIfOk T env i (page x)))
    (hspares : ∀ x p, (body x).Within (Spares p)) (known : List ℕ) (xs : List α) :
    Ensures T env i (tryEach body xs) (AllVisible T env i known)
      (System.onResult (fun _ => AllVisible T env i (known ++ xs.map page)) fun _ => True) := by
  induction xs generalizing known with
  | nil =>
    intro h _ hknown
    rw [map_nil, append_nil]
    exact hknown
  | cons x xs ih =>
    have hframed : Ensures T env i (body x) _ _ :=
      visible_frame (S := {p | p ∈ known}) (fun p _ => hspares x p) (hbody x)
    have hsplit : known ++ (x :: xs).map page = (known ++ [page x]) ++ xs.map page := by simp
    rw [hsplit]
    refine .attempt (hframed.pre fun h _ hknown => ⟨trivial, hknown⟩)
      (fun _ _ _ _ => trivial) fun _ => (ih _).pre fun h _ hboth p hp => ?_
    rcases mem_append.1 hp with hp | hp
    · exact hboth.2 p hp
    · rw [mem_singleton.1 hp]
      exact hboth.1

/-- The first loop finds every page of the batch in the CPU's hands. -/
theorem hostWriteVisible_sat (x : ℕ) : Ensures T env i (hostWriteVisible x) (fun _ => True)
      (VisibleIfOk T env i x) := by
  refine .bind (mapError_sat cpuVisibleLocked_any) fun visible => ?_
  cases visible with
  | error => exact .bind (Safe.hostFails.pre fun _ _ _ => trivial) fun _ _ _ _ => trivial
  | ok visible =>
    cases visible with
    | false => exact .bind (Safe.hostFails.pre fun _ _ _ => trivial) fun _ _ _ _ => trivial
    | true =>
      refine .bind (hostFails_visible.pre fun h _ hknown => hknown rfl) fun executable => ?_
      cases executable with
      | true => exact fun _ _ _ => trivial
      | false => exact fun _ _ hvisible => hvisible

theorem read_spares (p x : ℕ) : (readPage x).Within (Spares p) := by
  refine ⟨⟨?_, by simp⟩, fun _ => trivial⟩
  rintro change ⟨⟩
  rfl

theorem host_spares : hostFails.Within (Spares p) :=
  ⟨⟨nofun, by simp⟩, fun _ => trivial⟩

theorem hostWriteVisible_spares (x p : ℕ) : (hostWriteVisible x).Within (Spares p) := by
  refine .bind ?_ fun visible => host_spares.bind fun _ => trivial
  exact (read_spares p x).bind fun _ => trivial

/-- A check that only reads keeps what is known of every page. -/
theorem check_loop {body : ℕ → Thread (Except ε Unit)} (hsafe : ∀ x, Safe T env i (body x))
    (hspares : ∀ x p, (body x).Within (Spares p)) (xs : List ℕ) :
    Ensures T env i (tryEach body xs) (AllVisible T env i ps)
      (System.onResult (fun _ => AllVisible T env i ps) fun _ => True) := by
  refine .tryEach (I := fun _ => AllVisible T env i ps) (fun x xs => ?_)
    (fun _ _ hknown => hknown) xs
  refine .imp (visible_frame (fun p _ => hspares x p) (hsafe x))
    (fun h _ hknown => ⟨trivial, hknown⟩) fun result h _ hboth => ?_
  cases result with
  | error => trivial
  | ok => exact hboth.2

/-- One page of a host write becomes the CPU's and stays so. -/
theorem hostWriteTaken_sat (x : ℕ) : Ensures T env i (hostWriteTaken x) (HoldsVisible T env i x)
      (VisibleIfOk T env i x) := by
  exact .attempt (mapError_sat (mapError_sat takeFromClean_sat))
    (fun _ _ _ _ => trivial) fun _ => mapError_sat (visible_of_like advanceCpuDirtyEpoch_sat)

theorem takeFromClean_local :
    (takeFromClean p).Within (LocalTo p fun v => v = .cpuNewer ∨ v = .invalid) := by
  refine (readPage_local _).bind fun page => ?_
  split
  · exact publishVisibility_local
  · trivial

theorem hostWriteTaken_spares {x : ℕ} (hne : p ≠ x) : (hostWriteTaken x).Within (Spares p) := by
  refine .attempt ?_ fun _ => ?_
  · refine .bind (.bind ?_ fun _ => trivial) fun _ => trivial
    exact takeFromClean_local.mono (LocalTo.spares hne.symm)
  · refine .bind ?_ fun _ => trivial
    exact advanceCpuDirtyEpoch_local.mono (LocalTo.spares hne.symm)

theorem copyBytes_spares {x : ℕ} (hne : p ≠ x) :
    (onPage x (.copyBytes offset bytes)).Within (Spares p) := by
  refine ⟨⟨?_, by simp⟩, fun _ => trivial⟩
  rintro change hop
  cases hop
  exact absurd rfl hne

/-- The bytes of a region are stored while all pages of the batch are the CPU's. -/
theorem hostWriteStored_sat (all : List ℕ) (w : HostWrite) (hw : w.page ∈ all) :
    Ensures T env i (hostWriteStored all w) (AllVisible T env i all)
      (System.onResult (fun _ => AllVisible T env i all) fun _ => True) := by
  have hhost : Ensures T env i hostFails (AllVisible T env i all) fun _ => AllVisible T env i all :=
    (visible_frame (fun p _ => host_spares) Safe.hostFails).imp
      (fun _ _ hknown => ⟨trivial, hknown⟩) fun _ _ _ hboth => hboth.2
  refine hhost.bind fun failed => ?_
  cases failed with
  | true =>
    exact .bind ((Safe.forEach (fun q => .invalidate) all).pre fun _ _ _ => trivial)
      fun _ _ _ _ => trivial
  | false =>
    refine .bind ((visible_frame (S := {p | p ∈ all ∧ p ≠ w.page})
      (fun p hp => copyBytes_spares hp.2) copyBytes_sat).pre
        fun h _ hknown => ⟨hknown w.page hw, fun p hp => hknown p hp.1⟩) fun _ => ?_
    intro h _ hboth p hp
    by_cases hpw : p = w.page
    · rw [hpw]
      exact hboth.1
    · exact hboth.2 p ⟨hp, hpw⟩

theorem mem_hostWritePages {writes : List HostWrite} {w : HostWrite}
    (hw : w ∈ writes.filter fun w => !w.bytes.isEmpty) : w.page ∈ hostWritePages writes := by
  unfold hostWritePages
  rw [mem_dedup, mem_mergeSort]
  exact mem_map_of_mem hw

/-- **Host writes over several pages.** -/
theorem Safe.tryWriteHostRegions (writes : List HostWrite) :
    Safe T env i (tryWriteHostRegions T writes) := by
  refine .bind (.attempt (.tryEach (fun w => ?_)) fun _ => ?_) fun _ => Safe.done _
  · exact (Safe.done _).bind fun _ => Safe.done _
  refine .lockedAll ?_
  refine .attemptAny ((found_loop _ hostWriteVisible_sat hostWriteVisible_spares [] _).pre nofun)
    fun _ => ?_
  rw [map_id']
  refine .attemptAny (check_loop (fun x => Safe.readPage.bind fun _ => Safe.done _)
    (fun x p => (read_spares p x).bind fun _ => trivial) _) fun _ => ?_
  refine .attemptAny (check_loop (fun x => Safe.readPage.bind fun _ => Safe.done _)
    (fun x p => (read_spares p x).bind fun _ => trivial) _) fun _ => ?_
  refine .attemptAny (kept_loop _ hostWriteTaken_sat
    (fun x p => hostWriteTaken_spares) _ fun x hx => hx)
    fun _ => ?_
  refine .attemptAny (Q := fun _ _ => True) ?_ fun _ => ?_
  · refine (System.Sat.tryEach (I := fun rest h => (∀ w ∈ rest, w.page ∈ hostWritePages writes) ∧
      AllVisible T env i (hostWritePages writes) h) (fun w rest => ?_)
      (fun _ _ _ => trivial) _).pre fun h _ hknown => ⟨fun w => mem_hostWritePages, hknown⟩
    refine .given fun hpages => ?_
    refine (hostWriteStored_sat _ w (hpages w (mem_cons_self ..))).post fun result h _ hpost => ?_
    cases result with
    | error => trivial
    | ok _ => exact ⟨fun w hw => hpages w (mem_cons_of_mem _ hw), hpost⟩
  · refine .bind (Safe.forEach (fun q => Safe.readPage.bind fun _ => ?_) _)
      fun _ => Safe.done _
    exact Safe.perform _ fun _ _ _ => trivial

/-! ### Write batches -/

variable (ordered : Bool) (w : PendingWrite)

theorem commitAdmitted_sat : Ensures T env i (commitAdmitted ordered w) (fun _ => True)
      (VisibleIfOk T env i w.page) := by
  refine readPage_any.bind fun page => ?_
  intro h _ hholds
  split
  · trivial
  · rename_i hadmitted
    have hcpu : page.visibility.cpuVisible = true := by
      cases hvisible : page.visibility.cpuVisible with
      | true => rfl
      | false => simp [hvisible] at hadmitted
    split
    · trivial
    split
    · trivial
    split
    · trivial
    · exact ⟨page, hholds, hcpu⟩

theorem commitAdmitted_spares (p : ℕ) : (commitAdmitted ordered w).Within (Spares p) :=
  (read_spares p w.page).bind fun _ => trivial

/-- What is known of the page of a batch while its bytes are stored. -/
def Committing (T : Topology) (env : ℕ → Answer) (i p epoch : ℕ) (h : Hist) : Prop :=
  ∃ page, Holds T env i p page h ∧ page.visibility = .cpuNewer ∧
    page.visibilityEpoch = epoch ∧ page.hint = .unavailable

theorem committing_step (change : PageAct)
    (hgood : ∀ page h s, page.visibility = .cpuNewer → Holds T env i p page h →
      Good T env ⟨i, .page p change, (change.run page).1, s⟩ h)
    (hsame : ∀ page : Page, (change.run page).2.visibility = page.visibility ∧
      (change.run page).2.visibilityEpoch = page.visibilityEpoch ∧
      (change.run page).2.hint = page.hint) :
    Ensures T env i (onPage p change) (Committing T env i p epoch)
      fun _ => Committing T env i p epoch := by
  refine .exists_given fun page hpage => ?_
  refine (onPage_sat change fun h s => hgood page h s hpage.1).post
    fun _ h _ hholds => ⟨_, hholds, ?_⟩
  obtain ⟨hvisibility, hepoch, hhint⟩ := hsame page
  rw [hvisibility, hepoch, hhint]
  exact hpage

theorem hostFails_committing :
    Ensures T env i hostFails (Committing T env i p epoch) fun _ => Committing T env i p epoch := by
  refine .exists_given fun page hpage => ?_
  exact hostFails_holds.post fun _ h _ hholds => ⟨page, hholds, hpage⟩

theorem commitRanges_sat (p epoch : ℕ) (ranges : List (ℕ × List UInt8)) :
    Ensures T env i (tryEach (commitRange ordered p) ranges) (Committing T env i p epoch)
      (System.onResult (fun _ => Committing T env i p epoch) fun _ => True) := by
  refine .tryEach (I := fun _ => Committing T env i p epoch) (fun range _ => ?_)
    (fun _ _ hknown => hknown) ranges
  refine hostFails_committing.bind fun failed => ?_
  split
  · exact fun _ _ _ => trivial
  · refine .bind (committing_step _
      (fun page h s hcpu hholds => ?_) fun _ => ⟨rfl, rfl, rfl⟩) fun _ => fun _ _ hknown => hknown
    refine (congrArg (fun page : Page => page.visibility.cpuVisible) hholds.1).trans ?_
    simp only [hcpu]
    rfl

theorem reopenAliases_holds (page read : Page) :
    Ensures T env i (reopenAliases ordered page) (Holds T env i p read)
      fun _ => Holds T env i p read := by
  unfold reopenAliases
  split
  · exact hostFails_holds.bind fun _ => fun _ _ hholds => hholds
  · exact fun _ _ hholds => hholds

/-- **One page of a write batch.** -/
theorem commitPage_sat : Ensures T env i (commitPage ordered w) (HoldsVisible T env i w.page)
      (VisibleIfOk T env i w.page) := by
  refine .exists_given fun page hcpu => ?_
  refine readPage_known ?_
  refine (onPage_sat (.storeHint .unavailable) fun _ _ _ => trivial).bind fun _ => ?_
  refine (detachOwner_sat (holds_survives i w.page _) page.visibility).bind fun _ => ?_
  refine (notifyVisibilitySummaries_sat.frame (detached_kept _)).bind fun _ => ?_
  refine .bind (.pre (storeTransition_sat { page with hint := .unavailable }
    (by simp) le_rfl fun _ => .inl hcpu) fun h _ hboth => ⟨⟨hboth.1, fun _ => hboth.2⟩,
      hboth.1.1.admitted_visible hcpu (by simp)⟩) fun _ => ?_
  refine .attempt (mapError_sat (advanceCpuDirtyEpoch_sat _)) (fun _ _ _ _ => trivial) fun _ => ?_
  refine .attempt ((commitRanges_sat ordered w.page page.visibilityEpoch w.ranges).pre
    fun h _ hknown => hknown) (fun _ _ _ _ => trivial) fun _ => ?_
  refine .bind (committing_step _ (fun _ _ _ _ _ => trivial) fun _ => ⟨rfl, rfl, rfl⟩) fun _ => ?_
  refine .exists_given fun moved hmoved => ?_
  refine .bind (onPage_sat _ fun h s hholds => ?_) fun _ => ?_
  · obtain ⟨hvisibility, hepoch, hhint⟩ := hmoved
    refine ⟨fun o ho => ?_, ?_, fun _ => ?_, fun _ => ?_, fun hclean => ?_,
      fun hconflict => (by cases hconflict), fun _ => ?_⟩
    · rw [hholds.1, hvisibility] at ho
      cases ho
    · rw [hholds.1]
      omega
    · rw [hholds.1, hvisibility]
      exact .inl rfl
    · rw [hholds.1, hhint]
      simp
    · rw [hholds.1, hvisibility] at hclean
      cases hclean
    · rw [hholds.1, hvisibility]
      exact .inl rfl
  refine .bind (onPage_sat _ fun _ _ _ => trivial) fun _ => ?_
  refine (reopenAliases_holds ordered page _).post fun result h _ hholds => ?_
  cases result with
  | error => trivial
  | ok _ => exact ⟨_, hholds, rfl⟩

theorem commitPage_spares (p : ℕ) (hne : p ≠ w.page) :
    (commitPage ordered w).Within (Spares p) := by
  have hpage : ∀ change, (onPage w.page change).Within (Spares p) := by
    refine fun change => ⟨⟨?_, by simp⟩, fun _ => trivial⟩
    rintro other hop
    cases hop
    exact absurd rfl hne
  refine (read_spares p w.page).bind fun page => (hpage _).bind fun _ => ?_
  refine .bind ((detachOwner_local (fun _ => True) _).mono (LocalTo.spares hne.symm))
    fun _ => .bind ((notify_local fun _ => True).mono (LocalTo.spares hne.symm))
    fun _ => (hpage _).bind fun _ => ?_
  refine .attempt (.bind
    (advanceCpuDirtyEpoch_local.mono (LocalTo.spares hne.symm)) fun _ => trivial)
    fun _ => .attempt ?_ fun _ => ?_
  · induction w.ranges with
    | nil => trivial
    | cons range ranges ih =>
      refine .attempt (host_spares.bind fun failed => ?_) fun _ => ih
      split
      · trivial
      · exact (hpage _).bind fun _ => trivial
  · refine (hpage _).bind fun _ => (hpage _).bind fun _ => (hpage _).bind fun _ => ?_
    unfold reopenAliases
    split
    · exact host_spares.bind fun _ => trivial
    · trivial

theorem Safe.commitLocked {ordered : Bool} : Safe T env i (commitLocked ordered writes) := by
  refine .attemptAny ((found_loop PendingWrite.page (commitAdmitted_sat ordered)
    (commitAdmitted_spares ordered) [] writes).pre nofun) fun _ => ?_
  exact (kept_loop PendingWrite.page (commitPage_sat ordered) (commitPage_spares ordered) writes
    fun w => mem_map_of_mem).post fun _ _ _ _ => trivial

theorem Safe.finishProtected : Safe T env i (finishProtected ps) := by
  refine Safe.hostFails.bind fun failed => ?_
  split
  · exact .bind (Safe.forEach (fun q => .invalidate) ps) fun _ => Safe.done _
  · exact Safe.done _

/-- **Write batches**, ordered or not. -/
theorem Safe.commit {ordered : Bool} : Safe T env i (commit ordered writes) := by
  refine .lockedAll ?_
  split
  · exact .commitLocked
  · refine .attempt (.tryEach (fun p => ?_)) fun _ => Safe.hostFails.bind fun failed => ?_
    · exact .bind (Safe.cpuVisibleLocked.attempt fun _ => .done _) fun _ => Safe.done _
    · split
      · exact .bind (Safe.finishProtected.bind fun _ => Safe.done _) fun _ => Safe.done _
      · exact Safe.commitLocked.bind fun _ =>
          Safe.finishProtected.attempt fun _ => .done _

end Nixe.Memory
