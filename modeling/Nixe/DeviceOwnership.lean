/-
**Device writes own what they publish.**

A batch of device writes gives each of its ranges a new owner record, moves the pages to their
records one by one, and installs the records in the layouts at the end, without a common lock.
Meanwhile other threads take pages away again.  The argument does not need to know which: a page
that has been given to a record is owned by it or the record is fractured, and this is what nobody
can end.  A page that two ranges of the batch claim is given to the last; the record it displaces is
fractured on the spot.

With one device whose points never decrease, a device claims a page that it owns already only for a
point its record serves: the record stands at a point that the device has declared before.

Main definitions:

* `Declares` — the thread is in a call for a device, which has published nothing later;
* `Announced` — the publication of a batch is declared, and its records are for it;
* `Entered` — a page of the batch waits for its record, or has been given to it.

Main results:

* `collectRanges_sat` — every page of every new record is entered;
* `publishDevicePages_sat`, `attachResidentDeviceOwner_sat` — pages given to their records;
* `Safe.publishDeviceWrites` — a record is installed only when its range is owned;
* `Safe.prepareDeviceInputs`, `Safe.invalidateDevicePages` — the other device calls.
-/
import Nixe.PageWrites

set_option autoImplicit false

namespace Nixe.Memory

open Interleaving List

variable {T : Topology} {env : ℕ → Answer} {i p device point : ℕ} {e : Event Shared Resp}
  {h : Hist} {α : Type} {x : Thread α} {F : Hist → Prop} {ws : List PageWrite}

/-! ### Declarations of the device -/

/-- The thread is in a call for the device, and in a peaceful run the device has published
nothing above the point. -/
def Declares (T : Topology) (env : ℕ → Answer) (i device point : ℕ) (h : Hist) : Prop :=
  inDevice i h = true ∧ (Peaceful T env h → Follows device point h)

theorem inDevice_mem (hin : inDevice i h = true) : ∃ e ∈ h, e.thread = i := by
  induction h with
  | nil => cases hin
  | cons e h ih =>
    by_cases he : e.thread = i
    · exact ⟨e, mem_cons_self .., he⟩
    · rw [inDevice, if_neg he] at hin
      obtain ⟨e', he', hthread⟩ := ih hin
      exact ⟨e', mem_cons_of_mem _ he', hthread⟩

theorem publication?_of_unmarked (hop : Unmarked e.op) : publication? e = none := by
  unfold publication?
  split
  · rename_i hmark
    rw [hmark] at hop
    exact hop.elim
  · rfl

theorem inDevice_of_unmarked (hop : Unmarked e.op) : inDevice i (e :: h) = inDevice i h := by
  obtain ⟨j, op, answer, post⟩ := e
  cases op with
  | mark m =>
    cases m with
    | prepares | publishes | settles => exact hop.elim
    | _ => exact ite_self _
  | _ => exact ite_self _

theorem Follows.cons (hfollows : Follows device point h)
    (hnew : ∀ x ∈ publication? e, x.1 = device ∧ x.2 ≤ point) : Follows device point (e :: h) := by
  intro x hx
  rw [filterMap_cons] at hx
  cases hpublication : publication? e with
  | none =>
    rw [hpublication] at hx
    exact hfollows x hx
  | some =>
    rw [hpublication] at hx
    rcases mem_cons.1 hx with rfl | hx
    · exact hnew x hpublication
    · exact hfollows x hx

/-- Whatever declares nothing leaves a declaration as it is. -/
theorem Declares.unmarked (hop : Unmarked e.op) (hdeclares : Declares T env i device point h) :
    Declares T env i device point (e :: h) := by
  refine ⟨by rw [inDevice_of_unmarked hop]; exact hdeclares.1, fun hpeace => ?_⟩
  refine (hdeclares.2 hpeace.of_cons).cons fun x hx => ?_
  rw [publication?_of_unmarked hop] at hx
  cases hx

/-- Another thread declares nothing meanwhile, unless the peace is broken. -/
theorem declares_stable : (system T env).Stable (Good T env) i (Declares T env i device point) := by
  intro e h _ _ _ hne hdeclares
  refine ⟨by rw [inDevice, if_neg hne]; exact hdeclares.1, fun hpeace => ?_⟩
  refine (hdeclares.2 hpeace.of_cons).cons fun x hx => ?_
  -- a declaration of another thread would not be alone
  obtain ⟨e', he', hthread⟩ := inDevice_mem hdeclares.1
  have halone := hpeace.oneDevice.1
  unfold publication? at hx
  unfold Declaration at halone
  split at hx
  · rename_i hmark
    rw [hmark] at halone
    have hfalse := halone.1 e' he' (by rw [hthread]; exact Ne.symm hne)
    rw [hthread, hdeclares.1] at hfalse
    cases hfalse
  · cases hx

theorem declares_steady : Steady T env i (Declares T env i device point) :=
  ⟨declares_stable, fun _ _ _ _ _ _ hop hdeclares => hdeclares.unmarked hop⟩

/-- After its declaration an access is declared. -/
theorem declares_of_declaration (hthread : e.thread = i)
    (hop : e.op = .mark (.prepares device point) ∨ e.op = .mark (.publishes device point)) :
    Declares T env i device point (e :: h) := by
  refine ⟨?_, fun hpeace => ?_⟩
  · rcases hop with hop | hop <;> simp [inDevice, hthread, hop]
  · have hdeclaration := hpeace.oneDevice.1
    have hnew : ∀ x ∈ publication? e, x.1 = device ∧ x.2 ≤ point := by
      rcases hop with hop | hop <;> simp [publication?, hop]
    rcases hop with hop | hop
    · simp only [Declaration, hop] at hdeclaration
      exact hdeclaration.2.cons hnew
    · simp only [Declaration, hop] at hdeclaration
      exact hdeclaration.2.cons hnew

/-- A record that owns a page serves the device, unless the peace is broken. -/
theorem ownedBefore_sat {limit o : ℕ} (hle : point ≤ limit) :
    Ensures T env i (ownedBefore (.gpuNewer o) device limit) (Declares T env i device point)
      fun served h => served = false → ¬ Peaceful T env h := by
  refine .bind (Q := fun owner h => Peaceful T env h →
    owner.1 = device ∧ owner.2 ≤ point) ?_ fun owner => ?_
  · refine .perform (fun owner e h _ _ _ _ hserves hpeace => hserves hpeace.of_cons)
      fun h answer s hlegal hdeclares hexec => ⟨trivial, fun hpeace => ?_⟩
    have hexec : exec i (.ownerPoint o) ((system T env).state h) = some (answer, s) := hexec
    simp only [exec, Option.map_eq_some_iff] at hexec
    obtain ⟨owner, howner, hpair⟩ := hexec
    cases hpair
    obtain ⟨x, hx, hdevice, hpoint⟩ := (peaceful_state hlegal hpeace.of_cons).1 o owner howner
    obtain ⟨hx1, hx2⟩ := hdeclares.2 hpeace.of_cons x hx
    exact ⟨hdevice.symm.trans hx1, hpoint.trans hx2⟩
  · intro h _ hserves hfalse hpeace
    obtain ⟨hdevice, hpoint⟩ := hserves hpeace
    exact of_decide_eq_false hfalse ⟨hdevice, hpoint.trans hle⟩

/-- The claim of a device that may not be served. -/
theorem conflictUnless_sat {served : Bool} :
    Ensures T env i (if served then return .ok () else declareConflict p)
      (fun h => served = false → ¬ Peaceful T env h) fun _ _ => True := by
  cases served with
  | true => exact fun _ _ _ => trivial
  | false =>
    exact (declareConflict_sat (Q := fun _ _ => True)).imp (fun _ _ hdisturbed => hdisturbed rfl)
      fun _ _ _ _ => trivial

/-! ### Operations that declare nothing -/

theorem readPage_unmarked : (readPage p).Within Unmarked := .perform trivial

theorem ownerPoint_unmarked {o : ℕ} : (ownerPoint o).Within Unmarked := .perform trivial

theorem publishVisibility_unmarked {visibility : PageVisibility} :
    (publishVisibility p visibility).Within Unmarked :=
  publishVisibility_local.mono LocalTo.unmarked

theorem invalidate_unmarked : (ignore (publishVisibility p .invalid)).Within Unmarked :=
  publishVisibility_unmarked.bind fun _ => trivial

theorem ownedBefore_unmarked {visibility : PageVisibility} {device point : ℕ} :
    (ownedBefore visibility device point).Within Unmarked := by
  cases visibility with
  | gpuNewer => exact ownerPoint_unmarked.bind fun _ => trivial
  | _ => trivial

theorem conflictUnless_unmarked {served : Bool} : Prog.Within Unmarked
    (if served then return .ok () else declareConflict p) := by
  split
  · trivial
  · exact publishVisibility_unmarked.attempt fun _ => trivial

/-! ### Preparation and invalidation -/

variable (access : ℕ × DeviceAccessDeclaration)

theorem prepareAdmitted_sat : Ensures T env i (prepareAdmitted access)
      (Declares T env i access.2.device access.2.deviceVisibleAt) fun _ _ => True := by
  refine .bind (perform_steady declares_steady (.page access.1 .read) (fun _ _ _ => trivial)
    trivial) fun page => ?_
  cases page.visibility with
  | gpuNewer => exact (ownedBefore_sat le_rfl).bind fun served => conflictUnless_sat
  | _ => exact fun _ _ _ => trivial

theorem prepareAdmitted_unmarked : (prepareAdmitted access).Within Unmarked := by
  refine readPage_unmarked.bind fun page => ?_
  cases page.visibility with
  | gpuNewer => exact ownedBefore_unmarked.bind fun served => conflictUnless_unmarked
  | _ => trivial

variable (ps : List ℕ)

theorem Safe.armCpuPages : Safe T env i (armCpuPages ps) := by
  refine Safe.hostFails.bind fun failed => ?_
  split
  · exact Safe.done _
  · exact (Safe.forEach (fun p => .perform (.page p (.setArmed true)) fun _ _ _ => trivial)
      ps).bind fun _ => Safe.done _

theorem Safe.prepareInput : Safe T env i (prepareInput access) := by
  refine readPage_any.bind fun page =>
    .attemptAny (Q := fun _ => Holds T env i access.1 page) ?_ fun _ => ?_
  · split
    · exact hostFails_holds.bind fun _ _ _ hholds => hholds
    · exact fun _ _ hholds => hholds
  · split
    · rename_i hcpu
      exact setVisibility_sat.imp (fun h _ hholds => ⟨hholds,
        hholds.admitted_visible (by rw [hcpu]; rfl) (by simp)⟩) fun _ _ _ _ => trivial
    · exact fun _ _ _ => trivial

theorem Safe.settled (hx : Safe T env i x) : Safe T env i (settled x) :=
  hx.bind fun _ => (Safe.perform (.mark .settles) fun _ _ _ => trivial).bind fun _ => Safe.done _

/-- All accesses of the list are declared. -/
def AllDeclared (T : Topology) (env : ℕ → Answer) (i : ℕ)
    (accesses : List (ℕ × DeviceAccessDeclaration)) (h : Hist) : Prop :=
  ∀ access ∈ accesses, Declares T env i access.2.device access.2.deviceVisibleAt h

variable (accesses : List (ℕ × DeviceAccessDeclaration))

theorem allDeclared_steady : Steady T env i (AllDeclared T env i accesses) :=
  .all fun _ => declares_steady

theorem declarePrepares_sat : Ensures T env i (forEach declarePrepare accesses) (fun _ => True)
      fun _ => AllDeclared T env i accesses := by
  refine (System.Sat.forEach (I := fun rest h => ∀ access ∈ accesses, access ∈ rest ∨
    Declares T env i access.2.device access.2.deviceVisibleAt h) (fun x rest => ?_)
    accesses).imp (fun h _ _ access => .inl)
    fun _ h _ hall access haccess => (hall access haccess).resolve_left not_mem_nil
  refine .perform (fun _ e h hlegal hexec hgood hne hall access haccess =>
    (hall access haccess).imp_right (declares_stable e h hlegal hexec hgood hne))
    fun h answer s _ hall _ => ⟨trivial, fun access haccess => ?_⟩
  rcases hall access haccess with hmem | hdeclares
  · rcases mem_cons.1 hmem with rfl | hmem
    · exact .inr (declares_of_declaration rfl (.inl rfl))
    · exact .inl hmem
  · -- preparing another access publishes nothing
    refine .inr ⟨by simp [inDevice], fun hpeace => ?_⟩
    exact (hdeclares.2 hpeace.of_cons).cons nofun

theorem prepareLocked_sat :
    Ensures T env i (prepareLocked accesses) (AllDeclared T env i accesses) fun _ _ => True := by
  refine .attemptAny (Q := fun _ _ => True) (.tryEach
    (fun access rest => ?_) (fun _ _ _ => trivial) accesses) fun _ => ?_
  · refine ((allDeclared_steady rest).frame (prepareAdmitted_unmarked access)
      (prepareAdmitted_sat access)).imp
      (fun h _ hall => ⟨hall access (mem_cons_self ..),
        fun x hx => hall x (mem_cons_of_mem _ hx)⟩) fun result h _ hboth => ?_
    cases result with
    | error => trivial
    | ok => exact hboth.2
  · refine .bind ((Safe.armCpuPages _).attempt fun _ => .tryEach .prepareInput) fun result => ?_
    cases result with
    | ok _ => exact Safe.done _
    | error =>
      refine .bind (Safe.forEach (fun p => Safe.readPage.bind fun page => ?_) _)
        fun _ => Safe.done _
      split
      · exact Safe.done _
      · exact Safe.invalidate

theorem Safe.prepareDeviceInputs : Safe T env i (prepareDeviceInputs accesses) :=
  .settled ((declarePrepares_sat accesses).bind fun _ =>
    lockedAll_sat (allDeclared_steady accesses) (fun _ => true_steady) (prepareLocked_sat accesses))

theorem Safe.invalidateEach (first : Except VisibilityError Unit) :
    Safe T env i (invalidateEach ps first) := by
  induction ps generalizing first with
  | nil => exact .done _
  | cons p ps ih => exact (Safe.setVisibility hides_invalid).bind fun _ => ih _

theorem Safe.invalidateDevicePages : Safe T env i (invalidateDevicePages ps) :=
  .lockedAll (Safe.hostFails.bind fun _ => Safe.invalidateEach ps _)

/-! ### Pages given to a record -/

/-- The record of an owner is the device's, at this point or a later one. -/
def RecordAt (T : Topology) (env : ℕ → Answer) (device point o : ℕ) (h : Hist) : Prop :=
  ∃ owner, ((system T env).state h).owner? o = some owner ∧ owner.device = device ∧
    point ≤ owner.point

theorem recordAt_kept (o : ℕ) :
    (system T env).Kept (Good T env) (RecordAt T env device point o) := by
  intro e h _ hexec _ hrecord
  obtain ⟨owner, howner, hdevice, hpoint⟩ := hrecord
  obtain ⟨owner', howner', hle, -, hsame⟩ := (effect_of_executes hexec).owner_mono howner
  exact ⟨owner', howner', hsame.trans hdevice, hpoint.trans hle⟩

/-- The publication of a batch: it is declared, and its entries have records for it. -/
def Announced (T : Topology) (env : ℕ → Answer) (i device point : ℕ)
    (ws : List PageWrite) (h : Hist) : Prop :=
  (Declares T env i device point h ∧ Published device point h) ∧
    ∀ w ∈ ws, w.2.1.device = device ∧ RecordAt T env device point w.2.2 h

theorem announced_steady : Steady T env i (Announced T env i device point ws) :=
  (declares_steady.and (steady_of_kept fun _ _ _ _ _ hpublished => hpublished.cons)).and
    (Steady.all fun w => steady_of_kept (.and (fun _ _ _ _ _ hdevice => hdevice)
      (recordAt_kept w.2.2)))

theorem Announced.subset {ws' : List PageWrite}
    (hannounced : Announced T env i device point ws h) (hsubset : ws' ⊆ ws) :
    Announced T env i device point ws' h :=
  ⟨hannounced.1, fun w hw => hannounced.2 w (hsubset hw)⟩

theorem owned_of_visibility {o : ℕ}
    (hvisibility : HasVisibility T env i p (.gpuNewer o) h) :
    Owned ((system T env).state h) o p := by
  obtain ⟨page, hholds, hpage⟩ := hvisibility
  exact .inl (by rw [hholds.1, hpage])

/-- The page is owned by the record of the write. -/
def Given (T : Topology) (env : ℕ → Answer) (w : PageWrite) (h : Hist) : Prop :=
  Owned ((system T env).state h) w.2.2 w.1

variable (w : PageWrite)

theorem given_kept : (system T env).Kept (Good T env) (Given T env w) :=
  owned_kept

theorem attachLocked_sat : Ensures T env i (attachLocked w) (fun _ => True)
      (System.onResult (fun attached h => attached = true → Given T env w h) fun _ => True) := by
  refine Safe.readPage.bind fun page => Safe.ownerPoint.bind fun owner => ?_
  refine .bind (Q := fun _ _ => True) ?_ fun served => ?_
  · cases page.visibility with
    | gpuNewer => exact Safe.ownerPoint.bind fun _ => Safe.done _
    | _ => exact Safe.done _
  cases served with
  | false => exact nofun
  | true =>
    refine .attempt (publishVisibility_any (hides_gpuNewer _)) (fun _ _ _ _ => trivial) fun _ => ?_
    exact fun h _ hvisibility _ => owned_of_visibility hvisibility

theorem attachLocked_unmarked : (attachLocked w).Within Unmarked := by
  refine readPage_unmarked.bind fun page => ownerPoint_unmarked.bind fun owner =>
    ownedBefore_unmarked.bind fun served => ?_
  split
  · exact publishVisibility_unmarked.attempt fun _ => trivial
  · trivial

/-- **A page that is attached is owned by its record.** -/
theorem attachResidentDeviceOwner_sat (hF : Steady T env i F) :
    Ensures T env i (attachResidentDeviceOwner w) F
      fun result h => System.onResult (fun attached h => attached = true → Given T env w h)
        (fun _ => True) result h ∧ F h := by
  refine locked_sat hF (fun result => .and ?_ hF) ((hF.frame (attachLocked_unmarked w)
    (attachLocked_sat w)).pre fun h _ hboth => ⟨trivial, hboth.2⟩)
  cases result with
  | error => exact true_steady
  | ok => exact steady_of_kept (.imp (given_kept w))

variable {w}

/-- The check of a page of a batch whose publication is announced. -/
theorem publishAdmitted_sat (hw : w ∈ ws) :
    Ensures T env i (publishAdmitted w) (Announced T env i device point ws) fun _ _ => True := by
  refine .bind (.pre (announced_steady.frame readPage_unmarked readPage_any)
    fun _ _ hannounced => ⟨trivial, hannounced⟩) fun page => ?_
  cases hvisibility : page.visibility with
  | gpuNewer =>
    refine .bind (Q := fun owner h => point ≤ owner.2 ∧
      (w.2.1.device = device ∧ Declares T env i device point h)) ?_ fun owner => ?_
    · refine .perform (fun owner e h hlegal hexec hgood hne hknown => ⟨hknown.1,
        hknown.2.1, declares_stable e h hlegal hexec hgood hne hknown.2.2⟩)
        fun h answer s _ hknown hexec => ⟨trivial, ?_⟩
      obtain ⟨hdevice, owner, howner, -, hle⟩ := hknown.2.2 w hw
      refine ⟨?_, hdevice, hknown.2.1.1.unmarked trivial⟩
      have hexec : exec i (.ownerPoint w.2.2) ((system T env).state h) = some (answer, s) := hexec
      simp only [exec, howner, Option.map_some, Option.some.injEq] at hexec
      cases hexec
      exact hle
    · refine .given fun hle => .given fun hdevice => ?_
      refine .bind ?_ fun served => conflictUnless_sat
      rw [hdevice]
      exact ownedBefore_sat hle
  | conflicting =>
    refine (declareConflict_sat (Q := fun _ _ => True)).imp (fun h hlegal hknown hpeace => ?_)
      fun _ _ _ _ => trivial
    exact (peaceful_state hlegal hpeace).2 w.1 (by rw [hknown.1.1, hvisibility])
  | _ => exact fun _ _ _ => trivial

theorem publishAdmitted_unmarked : (publishAdmitted w).Within Unmarked := by
  refine readPage_unmarked.bind fun page => ?_
  cases page.visibility with
  | gpuNewer =>
    exact ownerPoint_unmarked.bind fun owner =>
      ownedBefore_unmarked.bind fun served => conflictUnless_unmarked
  | conflicting => exact publishVisibility_unmarked.attempt fun _ => trivial
  | _ => trivial

variable (writes : List PageWrite)

/-- The last step of a publication gives every page to its record. -/
theorem publishOwners_sat : Ensures T env i (publishOwners writes) (fun _ => True)
      (System.onResult (fun published h => published = true ∧
        ∀ w ∈ writes, Given T env w h) fun _ => True) := by
  refine .attempt (Q := System.onResult (fun _ h => ∀ w ∈ writes, Given T env w h)
    fun _ => True) ?_ (fun _ _ _ _ => trivial) fun _ => fun h _ hgiven => ⟨rfl, hgiven⟩
  refine (System.Sat.tryEach (I := fun rest h => ∀ w ∈ writes, w ∈ rest ∨ Given T env w h)
    (fun w rest => ?_) (fun h _ hgiven w hw => (hgiven w hw).resolve_left not_mem_nil)
    writes).pre fun h _ _ w => .inl
  have hkept : (system T env).Kept (Good T env) fun h =>
      ∀ x ∈ writes, x ∈ w :: rest ∨ Given T env x h := by
    intro e h hlegal hexec hgood hgiven x hx
    exact (hgiven x hx).imp_right (given_kept x e h hlegal hexec hgood)
  refine ((setVisibility_any (hides_gpuNewer _)).frame hkept).imp
    (fun h _ hgiven => ⟨trivial, hgiven⟩) fun result h _ hboth => ?_
  cases result with
  | error => trivial
  | ok =>
    intro x hx
    rcases hboth.2 x hx with hmem | hgiven
    · rcases mem_cons.1 hmem with rfl | hmem
      · exact .inr (owned_of_visibility hboth.1)
      · exact .inl hmem
    · exact .inr hgiven

theorem publishOwners_unmarked : (publishOwners writes).Within Unmarked :=
  .attempt (.tryEach (fun _ => setVisibility_local.mono LocalTo.unmarked)) fun _ => trivial

section Batch

variable (hF : Steady T env i F) (hannounced : ∀ h, F h → Announced T env i device point ws h)
include hF hannounced

/-- The checks of a publication, the revocation of the aliases and the baselines. -/
theorem publishPrepared_sat : Ensures T env i (publishPrepared ws) F fun _ => F := by
  refine .attempt (Q := fun _ => F) (.pre (.tryEach (I := fun rest h => rest ⊆ ws ∧ F h)
      (fun w rest => ?_) (fun _ _ hknown => hknown.2) ws)
      fun _ _ hknown => ⟨List.Subset.refl _, hknown⟩) (fun _ _ _ hknown => hknown) fun _ => ?_
  · refine .given fun hsubset => ?_
    refine (hF.frame publishAdmitted_unmarked (publishAdmitted_sat
      (hsubset (mem_cons_self ..)))).imp (fun h _ hknown => ⟨hannounced h hknown, hknown⟩)
      fun result h _ hboth => ?_
    cases result with
    | error => exact hboth.2
    | ok => exact ⟨(cons_subset.1 hsubset).2, hboth.2⟩
  · have hhost : Ensures T env i hostFails F fun _ => F :=
      perform_steady hF .hostFails (fun _ _ _ => trivial) trivial
    refine hhost.bind fun failed => ?_
    split
    · exact fun _ _ hknown => hknown
    refine .tryEach (I := fun _ => F) (fun w rest => ?_) (fun _ _ hknown => hknown) ws
    refine .bind (perform_steady hF (.page w.1 .read) (fun _ _ _ => trivial) trivial)
      fun page => ?_
    split
    · refine hhost.bind fun failed => ?_
      cases failed <;> exact fun _ _ hknown => hknown
    · exact fun _ _ hknown => hknown

/-- **Publication.** If it says so, every page is owned by its record; under exclusive
admission it does not refuse. -/
theorem publishDevicePages_sat {exclusive : Bool} :
    Ensures T env i (publishDevicePages ws exclusive) F
      fun result h => System.onResult (fun published h => (exclusive = true → published = true) ∧
        (published = true → ∀ w ∈ ws, Given T env w h)) (fun _ => True) result h ∧ F h := by
  refine lockedAll_sat hF (fun result => .and ?_ hF) ?_
  · cases result with
    | error => exact true_steady
    | ok => exact steady_of_kept (.and (fun _ _ _ _ _ hknown => hknown) (.imp (.forall fun w =>
        .imp (given_kept w))))
  refine .bind (perform_steady hF .hostFails (fun _ _ _ => trivial) trivial) fun executable => ?_
  split
  · rename_i hrefused
    intro h _ hknown
    refine ⟨⟨fun hexclusive => ?_, fun hpublished => by cases hpublished⟩, hknown⟩
    rw [hexclusive] at hrefused
    cases hrefused
  · refine (publishPrepared_sat hF hannounced).bind fun result => ?_
    cases result with
    | error =>
      exact .bind (.pre (hF.frame (.forEach fun w => invalidate_unmarked)
        (Safe.forEach (fun w : PageWrite => .invalidate) ws))
        fun _ _ hknown => ⟨trivial, hknown⟩) fun _ _ _ hboth => hboth
    | ok _ =>
      refine (hF.frame (publishOwners_unmarked ws) (publishOwners_sat ws)).imp
        (fun _ _ hknown => ⟨trivial, hknown⟩) fun result h _ hboth => ⟨?_, hboth.2⟩
      cases result with
      | error => trivial
      | ok => exact ⟨fun _ => hboth.1.1, fun _ => hboth.1.2⟩

end Batch

/-! ### The batch -/

/-- The page waits in the batch for the record, or has been given to it. -/
def Entered (T : Topology) (env : ℕ → Answer) (writes : List PageWrite) (p o : ℕ)
    (h : Hist) : Prop :=
  (∃ declaration, (p, declaration, o) ∈ writes) ∨ Owned ((system T env).state h) o p

/-- All pages of the pairs are entered. -/
def AllEntered (T : Topology) (env : ℕ → Answer) (writes : List PageWrite)
    (E : ℕ → ℕ → Prop) (h : Hist) : Prop :=
  ∀ p o, E p o → Entered T env writes p o h

variable (E : ℕ → ℕ → Prop) (w : PageWrite)

theorem allEntered_kept : (system T env).Kept (Good T env) (AllEntered T env writes E) := by
  intro e h hlegal hexec hgood hall p o hE
  exact (hall p o hE).imp_right (owned_kept e h hlegal hexec hgood)

theorem mem_insertWrite : w ∈ (insertWrite w ws).2 := by
  induction ws with
  | nil => exact mem_singleton.2 rfl
  | cons x xs ih =>
    unfold insertWrite
    split
    · exact mem_cons_self ..
    split
    · exact mem_cons_self ..
    · exact mem_cons_of_mem _ ih

/-- An entry of the batch stays, or is the one that is displaced. -/
theorem insertWrite_keeps {x : PageWrite} (hx : x ∈ ws) :
    x ∈ (insertWrite w ws).2 ∨ (insertWrite w ws).1 = some x.2.2 := by
  induction ws with
  | nil => cases hx
  | cons y ys ih =>
    unfold insertWrite
    split
    · exact .inl (mem_cons_of_mem _ hx)
    split
    · rcases mem_cons.1 hx with rfl | hx
      · exact .inr rfl
      · exact .inl (mem_cons_of_mem _ hx)
    · rcases mem_cons.1 hx with rfl | hx
      · exact .inl (mem_cons_self ..)
      · exact (ih hx).imp_left (mem_cons_of_mem _)

theorem insertWrite_subset (w : PageWrite) (ws : List PageWrite) :
    (insertWrite w ws).2 ⊆ w :: ws := by
  induction ws with
  | nil => exact .refl _
  | cons x xs ih =>
    unfold insertWrite
    split
    · exact .refl _
    split
    · exact cons_subset_cons _ (subset_cons_self ..)
    · intro y hy
      rcases mem_cons.1 hy with rfl | hy
      · exact mem_cons_of_mem _ (mem_cons_self ..)
      · rcases mem_cons.1 (ih hy) with rfl | hy
        · exact mem_cons_self ..
        · exact mem_cons_of_mem _ (mem_cons_of_mem _ hy)

/-- The pages of the pairs are entered in a batch whose publication is announced. -/
def InBatch (T : Topology) (env : ℕ → Answer) (i device point : ℕ) (writes : List PageWrite)
    (E : ℕ → ℕ → Prop) (h : Hist) : Prop :=
  AllEntered T env writes E h ∧ Announced T env i device point writes h

theorem inBatch_steady : Steady T env i (InBatch T env i device point writes E) :=
  (steady_of_kept (allEntered_kept writes E)).and announced_steady

theorem detachDisplaced_sat (hF : Steady T env i F) (displaced : Option ℕ) :
    Ensures T env i (detachDisplaced displaced) F fun _ h =>
      F h ∧ ∀ o, displaced = some o → Fractured ((system T env).state h) o := by
  cases displaced with
  | none => exact fun h _ hknown => ⟨hknown, nofun⟩
  | some =>
    have hsurvives : SurvivesDetach T env i (fun _ => True) :=
      ⟨true_steady.stable, fun _ _ _ _ _ => trivial⟩
    refine (hF.frame (x := act (.detach _)) (.perform trivial) (detach_sat hsurvives)).imp
      (fun h _ hknown => ⟨trivial, hknown⟩) fun _ h _ hboth => ⟨hboth.2, ?_⟩
    rintro _ ⟨rfl⟩
    exact hboth.1.2

/-- **The pages of a range enter the batch**; an entry they displace loses its record. -/
theorem enterPages_sat {declaration : DeviceAccessDeclaration} (o : ℕ)
    (hdevice : declaration.device = device) (E : ℕ → ℕ → Prop)
    (ps : List ℕ) (writes : List PageWrite) :
    Ensures T env i (enterPages declaration o ps writes)
      (fun h => InBatch T env i device point writes E h ∧ RecordAt T env device point o h)
      fun writes' => InBatch T env i device point writes'
        fun p o' => E p o' ∨ (p ∈ ps ∧ o' = o) := by
  induction ps generalizing writes E with
  | nil => exact fun h _ hboth =>
      ⟨fun p o' hE => hboth.1.1 p o' (hE.resolve_right nofun), hboth.1.2⟩
  | cons p ps ih =>
    refine (detachDisplaced_sat ((inBatch_steady writes E).and (steady_of_kept (recordAt_kept o)))
      _).bind fun _ => ?_
    refine .imp (ih (fun q o' => E q o' ∨ (q = p ∧ o' = o)) _)
      (fun h _ hboth => ⟨⟨?_, hboth.1.1.2.1, fun w hw => ?_⟩, hboth.1.2⟩)
      fun writes' h _ hall => ⟨fun q o' hE => hall.1 q o' ?_, hall.2⟩
    · rintro q o' (hE | ⟨rfl, rfl⟩)
      · rcases hboth.1.1.1 q o' hE with ⟨d, hmem⟩ | howned
        · rcases insertWrite_keeps (p, declaration, o) hmem with hmem | hdisplaced
          · exact .inl ⟨d, hmem⟩
          · exact .inr (.inr (hboth.2 o' hdisplaced))
        · exact .inr howned
      · exact .inl ⟨declaration, mem_insertWrite _⟩
    · rcases mem_cons.1 (insertWrite_subset _ _ hw) with rfl | hw
      · exact ⟨hdevice, hboth.1.2⟩
      · exact hboth.1.1.2.2 w hw
    · rcases hE with hE | ⟨hmem, rfl⟩
      · exact .inl (.inl hE)
      · rcases mem_cons.1 hmem with rfl | hmem
        · exact .inl (.inr ⟨rfl, rfl⟩)
        · exact .inr ⟨hmem, rfl⟩

/-- A record is advanced for a point that was declared. -/
theorem advanceDeviceOwner_sat (hF : Steady T env i F) (r : ℕ)
    (declaration : DeviceAccessDeclaration) (hpublished : ∀ h, F h →
      ∀ point ∈ declaration.cpuVisibleAt, Published declaration.device point h) :
    Ensures T env i (advanceDeviceOwner r declaration) F fun _ => F := by
  refine (perform_steady hF (.lockLayout r) (fun _ _ _ => trivial) trivial).bind fun _ => ?_
  refine .bind (Q := fun _ => F) (.perform (fun _ => hF.stable)
    fun h answer s hlegal hknown hexec => ?_) fun _ => ?_
  · have hgood : Good T env ⟨i, .layout r (.advance declaration), answer, s⟩ h :=
      fun _ => hpublished h hknown
    exact ⟨hgood, hF.own _ h hlegal hexec hgood rfl trivial hknown⟩
  · exact (perform_steady hF (.unlockLayout r) (fun _ _ _ => trivial) trivial).bind
      fun _ _ _ hknown => hknown

/-- A record is created for a point that was declared. -/
theorem newOwner_sat (hF : Steady T env i F) (hpublished : ∀ h, F h → Published device point h) :
    Ensures T env i (newOwner device point) F
      fun o h => F h ∧ RecordAt T env device point o h := by
  refine .perform (fun o => hF.stable.and (recordAt_kept o).stable)
    fun h answer s hlegal hknown hexec => ?_
  have hgood : Good T env ⟨i, .newOwner device point, answer, s⟩ h := fun _ => hpublished h hknown
  refine ⟨hgood, hF.own _ h hlegal hexec hgood rfl trivial hknown, ?_⟩
  cases hexec
  exact ⟨⟨device, point, false⟩, by simp [Shared.owner?], rfl, le_rfl⟩

/-- The pages of the ranges that get a new record, with the record. -/
def Claimed (T : Topology) (owners : List (ℕ × ℕ)) (p o : ℕ) : Prop :=
  ∃ r, (r, o) ∈ owners ∧ p ∈ T.pages r

variable {accesses}

/-- **Every page of every new record is entered**, and the records are all for the device and
the point of the batch. -/
theorem collectRanges_sat
    (hbatch : ∀ access ∈ accesses, access.2.device = device ∧ access.2.cpuVisibleAt = some point)
    (layouts : List ℕ) (owners : List (ℕ × ℕ)) (writes : List PageWrite) :
    Ensures T env i (collectRanges T accesses layouts owners writes)
      (InBatch T env i device point writes (Claimed T owners))
      fun collected => InBatch T env i device point collected.2 (Claimed T collected.1) := by
  induction accesses generalizing layouts owners writes with
  | nil => exact fun h _ hall => hall
  | cons access rest ih =>
    obtain ⟨r, declaration⟩ := access
    obtain ⟨rfl, hpoint⟩ := hbatch _ (mem_cons_self ..)
    have ih := ih fun x hx => hbatch x (mem_cons_of_mem _ hx)
    have hpoint : declaration.cpuVisibleAt = some point := hpoint
    unfold collectRanges
    split
    · exact ih layouts owners writes
    refine (advanceDeviceOwner_sat (inBatch_steady _ _) r declaration
      fun h hknown at' hat => ?_).bind fun advanced => ?_
    · rw [hpoint] at hat
      cases hat
      exact hknown.2.1.2
    split
    · exact ih _ owners writes
    rw [hpoint]
    refine (newOwner_sat (inBatch_steady _ _) fun h hknown => hknown.2.1.2).bind fun o => ?_
    refine (enterPages_sat o rfl _ _ writes).bind fun writes' => ?_
    refine (ih _ _ writes').pre fun h _ hall => ⟨fun p o' hclaimed => ?_, hall.2⟩
    obtain ⟨r', hmem, hp⟩ := hclaimed
    rcases mem_append.1 hmem with hmem | hmem
    · exact hall.1 p o' (.inl ⟨r', hmem, hp⟩)
    · obtain ⟨rfl, rfl⟩ := Prod.mk.inj (mem_singleton.1 hmem)
      exact hall.1 p _ (.inr ⟨hp, rfl⟩)

/-- The records are attached where a device owns the page already. -/
theorem attachPages_sat (ws left : List PageWrite) :
    Ensures T env i (attachPages ws left) (InBatch T env i device point (left ++ ws) E)
      (System.onResult (fun left' => InBatch T env i device point left' E) fun _ => True) := by
  induction ws generalizing left with
  | nil =>
    intro h _ hall
    rw [append_nil] at hall
    exact hall
  | cons w ws ih =>
    refine .attempt (attachResidentDeviceOwner_sat w (inBatch_steady _ _))
      (fun _ _ _ _ => trivial) fun attached => ?_
    cases attached with
    | false =>
      refine (ih (left ++ [w])).pre fun h _ hboth => ?_
      rw [← append_cons]
      exact hboth.2
    | true =>
      refine (ih left).pre fun h _ hboth => ⟨fun p o hE => ?_, hboth.2.2.subset fun x hx => ?_⟩
      · rcases hboth.2.1 p o hE with ⟨d, hmem⟩ | howned
        · rcases mem_append.1 hmem with hmem | hmem
          · exact .inl ⟨d, mem_append_left _ hmem⟩
          · rcases mem_cons.1 hmem with rfl | hmem
            · exact .inr (hboth.1 rfl)
            · exact .inl ⟨d, mem_append_right _ hmem⟩
        · exact .inr howned
      · rcases mem_append.1 hx with hx | hx
        · exact mem_append_left _ hx
        · exact mem_append_right _ (mem_cons_of_mem _ hx)

/-- The pages that are left are given to their records. -/
theorem publishLeft_sat {left : List PageWrite} :
    Ensures T env i (publishLeft left) (InBatch T env i device point left E)
      (System.onResult (fun _ => AllEntered T env [] E) fun _ => True) := by
  have hsettle : ∀ h, (∀ w ∈ left, Given T env w h) → InBatch T env i device point left E h →
      AllEntered T env [] E h := by
    intro h hgiven hall p o hE
    rcases hall.1 p o hE with ⟨d, hmem⟩ | howned
    · exact .inr (hgiven _ hmem)
    · exact .inr howned
  have hsteady : Steady T env i (InBatch T env i device point left E) := inBatch_steady left E
  unfold publishLeft
  split
  · rename_i hempty
    rw [List.isEmpty_iff] at hempty
    subst hempty
    exact fun h _ hall => hall.1
  refine .attempt (publishDevicePages_sat hsteady fun _ hknown => hknown.2)
    (fun _ _ _ _ => trivial) fun published => ?_
  cases published with
  | true => exact fun h _ hboth => hsettle h (hboth.1.2 rfl) hboth.2
  | false =>
    refine .attempt ((publishDevicePages_sat hsteady fun _ hknown => hknown.2).pre
      fun h _ hboth => hboth.2) (fun _ _ _ _ => trivial) fun published => ?_
    exact fun h _ hboth => hsettle h (hboth.1.2 (hboth.1.1 rfl)) hboth.2

/-- **A record is installed in a layout that it owns.** -/
theorem installOwner_sat (hF : Steady T env i F) {entry : ℕ × ℕ}
    (howned : ∀ h, F h → ∀ p ∈ T.pages entry.1, Owned ((system T env).state h) entry.2 p) :
    Ensures T env i (installOwner entry) F fun _ => F := by
  refine (perform_steady hF (.lockLayout entry.1) (fun _ _ _ => trivial) trivial).bind fun _ => ?_
  refine .bind (.perform (fun _ => hF.stable) fun h answer s hlegal hknown hexec => ?_) fun _ => ?_
  · exact ⟨howned h hknown, hF.own _ h hlegal hexec (howned h hknown) rfl trivial hknown⟩
  · exact perform_steady hF _ (fun _ _ _ => trivial) trivial

/-- A batch that is accepted is for one device and one point. -/
theorem batchCompatible_ok {accesses : List (ℕ × DeviceAccessDeclaration)}
    {boundary : Option (ℕ × ℕ × ℕ)} (h : batchCompatible accesses boundary = .ok ()) :
    ∃ device point, (∀ access ∈ accesses, access.2.device = device ∧
      access.2.cpuVisibleAt = some point) ∧
      ∀ x ∈ boundary, x.1 = device ∧ x.2.2 = point := by
  induction accesses generalizing boundary with
  | nil =>
    cases boundary with
    | none => exact ⟨0, 0, nofun, nofun⟩
    | some x =>
      refine ⟨x.1, x.2.2, nofun, fun y hy => ?_⟩
      cases hy
      exact ⟨rfl, rfl⟩
  | cons access rest ih =>
    obtain ⟨r, declaration⟩ := access
    unfold batchCompatible at h
    split at h
    · cases h
    rename_i point hpoint
    split at h
    · cases h
    rename_i hsame
    obtain ⟨device, point', hrest, hboundary⟩ := ih h
    obtain ⟨hdevice, hpoint'⟩ := hboundary _ rfl
    subst hdevice hpoint'
    refine ⟨declaration.device, point, fun access haccess => ?_, fun x hx => ?_⟩
    · rcases mem_cons.1 haccess with rfl | haccess
      · exact ⟨rfl, hpoint⟩
      · exact hrest access haccess
    · cases hx
      simp only [Option.any_some, bne_iff_ne, ne_eq, not_not] at hsame
      rw [hsame]
      exact ⟨rfl, rfl⟩

theorem declarePublish_sat
    (hdevice : access.2.device = device) (hpoint : access.2.cpuVisibleAt.getD 0 = point) :
    Ensures T env i (declarePublish access) (fun _ => True)
      fun _ => Announced T env i device point [] := by
  refine .perform (fun _ => announced_steady.stable)
    fun h answer s _ _ _ => ⟨trivial, ⟨⟨?_, ?_⟩, nofun⟩⟩
  · exact declares_of_declaration rfl (.inr (by rw [hdevice, hpoint]))
  · refine ⟨(device, point), ?_, rfl, le_rfl⟩
    rw [← hdevice, ← hpoint]
    exact mem_cons_self ..

variable {access}

/-- Each declaration of a batch says the same, so the first one starts the invariant of the
loop. -/
theorem declarePublishes_sat (hbatch : ∀ x ∈ access :: accesses,
      x.2.device = device ∧ x.2.cpuVisibleAt = some point) :
    Ensures T env i (forEach declarePublish (access :: accesses)) (fun _ => True)
      fun _ => Announced T env i device point [] := by
  have hdeclare : ∀ x ∈ access :: accesses, Ensures T env i (declarePublish x)
      (fun _ => True) fun _ => Announced T env i device point [] := fun x hx =>
    declarePublish_sat x (hbatch x hx).1 (by rw [(hbatch x hx).2]; rfl)
  refine (hdeclare access (mem_cons_self ..)).bind fun _ => ?_
  refine (System.Sat.forEach (I := fun rest h => rest ⊆ accesses ∧
    Announced T env i device point [] h) (fun x rest => ?_) accesses).imp
    (fun _ _ hannounced => ⟨List.Subset.refl _, hannounced⟩) fun _ _ _ hboth => hboth.2
  refine .given fun hsubset => ?_
  exact (hdeclare x (mem_cons_of_mem _ (hsubset (mem_cons_self ..)))).imp
    (fun _ _ _ => trivial) fun _ _ _ hannounced => ⟨(cons_subset.1 hsubset).2, hannounced⟩

theorem Safe.publishBatch : Safe T env i (publishBatch T (access :: accesses)) := by
  unfold Memory.publishBatch
  cases hcompatible : batchCompatible (access :: accesses) none with
  | error => exact Safe.done _
  | ok _ =>
    obtain ⟨device, point, hbatch, -⟩ := batchCompatible_ok hcompatible
    refine (Safe.done _).attempt fun _ => (declarePublishes_sat hbatch).bind fun _ => ?_
    refine .bind ((collectRanges_sat hbatch [] [] []).pre
      fun h _ hannounced => ⟨fun p o hclaimed => ?_, hannounced⟩) fun collected => ?_
    · obtain ⟨r, hmem, -⟩ := hclaimed
      cases hmem
    refine .attempt (attachPages_sat _ collected.2 []) (fun _ _ _ _ => trivial) fun left => ?_
    refine .attempt (publishLeft_sat _) (fun _ _ _ _ => trivial) fun _ => ?_
    refine .bind (Q := fun _ _ => True) ?_ fun _ _ _ _ => trivial
    refine .imp (.forEach (I := fun rest h => (∀ entry ∈ rest, entry ∈ collected.1) ∧
      AllEntered T env [] (Claimed T collected.1) h) (fun entry rest => ?_) collected.1)
      (fun h _ hall => ⟨fun _ hentry => hentry, hall⟩) fun _ _ _ _ => trivial
    refine .given fun hmem => ?_
    refine (installOwner_sat (steady_of_kept (allEntered_kept _ _)) fun h hall p hp => ?_).post
      fun _ h _ hall => ⟨fun x hx => hmem x (mem_cons_of_mem _ hx), hall⟩
    rcases hall p entry.2 ⟨entry.1, hmem entry (mem_cons_self ..), hp⟩ with ⟨_, hnil⟩ | howned
    · cases hnil
    · exact howned

/-- **Device writes.** -/
theorem Safe.publishDeviceWrites : Safe T env i (publishDeviceWrites T accesses) := by
  cases accesses with
  | nil => exact .done _
  | cons access rest =>
    cases rest with
    | cons => exact Safe.publishBatch.settled
    | nil =>
      show Safe T env i (if _ then _ else _)
      split
      · refine .settled ((declarePublish_sat _ rfl rfl).bind fun _ => ?_)
        refine (advanceDeviceOwner_sat announced_steady _ _
          fun h hannounced at' hat => ?_).bind fun advanced => ?_
        · have hpublished := hannounced.1.2
          rwa [Option.mem_def.1 hat] at hpublished
        split
        · exact fun _ _ _ => trivial
        · exact Safe.publishBatch.pre fun _ _ _ => trivial
      · exact .done _

end Nixe.Memory
