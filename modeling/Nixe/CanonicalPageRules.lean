/-
**Rules for calls on canonical pages.**

How the parts of a page that matter for tracking are left alone by stores, what the loops of the
calls over several pages do, and which of their methods only look at a page.

Main definitions:

* `SameTracking` — two states of a page that differ in bytes and reservations at most;
* `Checks` — a method that leaves its page as it is.

Main results:

* `forEach_ensures`, `onPage_ensures` — the rules for loops and for methods of one page;
* `setVisibility_spec` — what `set_visibility` does;
* `forEach_checks`, `forEach_checks_bind` — a loop of checks.
-/
import Nixe.CanonicalPages

set_option autoImplicit false

namespace Nixe.CanonicalPages

open Memory Function

variable {page : CanonicalPageState} {pages : Pages} {ε α ι : Type} {offset p : ℕ}
  {pending : PendingWrite} {E : ε → Pages → Prop} {c : PageCall ε α} {Q : α → Pages → Prop}
  {R : CanonicalPageState → Prop} {method : ι → PageCall ε Unit}

/-! ### Bytes leave the tracking alone -/

/-- Everything but the bytes, their history and the reservations is the same. -/
structure SameTracking (page page' : CanonicalPageState) : Prop where
  visibility : page'.visibility = page.visibility
  visibilityEpoch : page'.visibilityEpoch = page.visibilityEpoch
  armed : page'.cpuDirtyObserverArmed = page.cpuDirtyObserverArmed
  cpuDirtyEpoch : page'.cpuDirtyEpoch = page.cpuDirtyEpoch
  contentGeneration : page'.contentGeneration = page.contentGeneration
  directAliases : page'.directAliases = page.directAliases

theorem SameTracking.refl : SameTracking page page :=
  ⟨rfl, rfl, rfl, rfl, rfl, rfl⟩

theorem SameTracking.trans {a b c : CanonicalPageState} (h : SameTracking a b)
    (h' : SameTracking b c) : SameTracking a c :=
  ⟨h'.1.trans h.1, h'.2.trans h.2, h'.3.trans h.3, h'.4.trans h.4, h'.5.trans h.5, h'.6.trans h.6⟩

theorem copyBytes_tracking {offset : ℕ} {bytes : List UInt8} :
    SameTracking page (page.copyBytes offset bytes) := by
  unfold CanonicalPageState.copyBytes
  split <;> exact ⟨rfl, rfl, rfl, rfl, rfl, rfl⟩

theorem storeWords_tracking {fuel : ℕ} : ∀ (page : CanonicalPageState) (offset : ℕ)
    (bytes : List UInt8), SameTracking page (page.storeWords fuel offset bytes) := by
  induction fuel with
  | zero => exact fun page _ _ => .refl
  | succ fuel ih =>
    intro page offset bytes
    unfold CanonicalPageState.storeWords
    split
    · exact .refl
    · exact copyBytes_tracking.trans (ih _ _ _)

theorem storeOrderedBytes_tracking {bytes : List UInt8} :
    SameTracking page (page.storeOrderedBytes offset bytes) := storeWords_tracking _ _ _

theorem publish_tracking {ordered : Bool} : SameTracking page (pending.publish ordered page) := by
  unfold PendingWrite.publish
  split
  · induction pending.dirtyRanges generalizing page with
    | nil => exact .refl
    | cons range ranges ih => exact storeOrderedBytes_tracking.trans ih
  · exact copyBytes_tracking

/-! ### Visibility -/

variable (visibility : PageVisibility)

theorem leaving_epoch : (page.leaving visibility).visibilityEpoch = page.visibilityEpoch := by
  unfold CanonicalPageState.leaving
  split <;> rfl

theorem leaving_visible {visibility : PageVisibility} (hvisible : visibility.cpuVisible = true) :
    page.leaving visibility = page := if_pos hvisible

theorem setVisibility_spec : (setVisibility visibility).Ensures page
      (fun _ page' => page.visibilityEpoch < u64Max ∧ page' = { page.leaving visibility with
        visibility := visibility, visibilityEpoch := page.visibilityEpoch + 1 })
      fun _ page' => u64Max ≤ page.visibilityEpoch ∧
        page' = { page.leaving visibility with visibility := .invalid } := by
  refine .update (.read ?_)
  rw [leaving_epoch]
  cases hepoch : checkedAdd page.visibilityEpoch 1 with
  | none =>
    rw [checkedAdd_eq_none] at hepoch
    exact ⟨by omega, rfl⟩
  | some =>
    obtain ⟨rfl, hle⟩ := checkedAdd_eq_some.1 hepoch
    exact ⟨by omega, rfl⟩

/-! ### Several pages -/

/-- A loop, by an invariant that names the pages that are still to come. -/
theorem forEach_ensures {body : ι → PagesCall ε Unit} {I : List ι → Pages → Prop}
    (hbody : ∀ p rest pages, I (p :: rest) pages → (body p).Ensures pages (fun _ => I rest) E) :
    ∀ (ps : List ι) (pages : Pages), I ps pages → (forEach ps body).Ensures pages (fun _ => I []) E
  | [], _, h => h
  | p :: rest, pages, h =>
    Call.Ensures.seq (hbody p rest pages h) fun _ pages' h' => forEach_ensures hbody rest pages' h'

theorem onPage_ensures (h : c.Ensures (pages p) (fun a page' => Q a (update pages p page'))
      fun e page' => E e (update pages p page')) :
    (onPage p c).Ensures pages Q E := by
  unfold Call.Ensures at h ⊢
  unfold onPage
  rcases hrun : c (pages p) with ⟨out, page'⟩
  rw [hrun] at h
  cases out with
  | ok | err | panic => exact h

/-- What holds of every page holds again when the method of one page restores it there. -/
theorem update_all {P : ℕ → CanonicalPageState → Prop} {page' : CanonicalPageState}
    (hpage : P p page') (hothers : ∀ q, q ≠ p → P q (pages q)) (q : ℕ) :
    P q (update pages p page' q) := by
  rcases eq_or_ne q p with rfl | hne
  · rwa [update_self]
  · rw [update_of_ne hne]
    exact hothers q hne

theorem protectAll_true {refused : ε} {ps : List ℕ}
    {protection : CanonicalPageState → CanonicalPageState} {Q : Unit → Pages → Prop}
    (h : Q () fun p => if p ∈ ps then protection (pages p) else pages p) :
    (protectAll true refused ps protection).Ensures pages Q E := h

theorem writtenPages_nodup {writes : List PageWrite} : (writtenPages writes).Nodup :=
  List.nodup_dedup _

/-! ### Checks -/

/-- The method only looks at its page; a value comes with `R`. -/
def Checks (c : PageCall ε α) (R : CanonicalPageState → Prop) : Prop :=
  ∀ page, c.Ensures page (fun _ page' => page' = page ∧ R page) fun _ page' => page' = page

theorem Checks.mapErr {ε' : Type} {g : ε → ε'} (h : Checks c R) :
    Checks (Call.mapErr g c) R := fun page => Call.Ensures.mapErr (h page)

theorem forEach_checks {page : ι → ℕ} (hmethod : ∀ item, Checks (method item) R) {ps : List ι} :
    (forEach ps fun item => onPage (page item) (method item)).Ensures pages
      (fun _ pages' => pages' = pages ∧ ∀ item ∈ ps, R (pages (page item)))
      fun _ pages' => pages' = pages := by
  refine (forEach_ensures
    (I := fun rest pages' => pages' = pages ∧ ∀ item ∈ ps, item ∉ rest → R (pages (page item)))
    ?_ ps pages
    ⟨rfl, fun p => absurd⟩).mono ?_
  swap
  · rintro _ pages' ⟨hsame, hdone⟩
    exact ⟨hsame, fun p hp => hdone p hp List.not_mem_nil⟩
  · rintro p rest _ ⟨rfl, hdone⟩
    refine onPage_ensures ((hmethod p _).imp ?_ ?_)
    · rintro _ _ ⟨rfl, hR⟩
      refine ⟨update_eq_self _ _, fun q hq hnot => ?_⟩
      by_cases hqp : q = p
      · rw [hqp]
        exact hR
      · exact hdone q hq (by simp [hqp, hnot])
    · rintro _ _ rfl
      exact update_eq_self _ _

/-- A loop of checks, and what comes after it. -/
theorem forEach_checks_bind {page : ι → ℕ} {ps : List ι} {rest : Unit → PagesCall ε α}
    (hmethod : ∀ item, Checks (method item) R) (herror : ∀ e, E e pages)
    (hrest : (∀ item ∈ ps, R (pages (page item))) → (rest ()).Ensures pages Q E) :
    (forEach ps (fun item => onPage (page item) (method item)) >>= rest).Ensures pages Q E := by
  refine .bind ((forEach_checks hmethod).imp ?_ ?_)
  · rintro _ _ ⟨rfl, hR⟩
    exact hrest hR
  · rintro e _ rfl
    exact herror e

theorem checks_usable : Checks usable fun page => page.visibility ≠ .invalid := by
  intro page
  refine .bind (.read ?_)
  cases hvisibility : page.visibility with
  | clean | cpuNewer | gpuNewer =>
    exact ⟨rfl, fun hinvalid => nomatch hvisibility.symm.trans hinvalid⟩
  | conflicting => rfl
  | invalid => rfl

theorem checks_accessible : Checks accessible fun _ => True := by
  intro page
  refine .bind (.mapErr (.read ?_))
  cases page.visibility with
  | clean | cpuNewer => exact ⟨rfl, trivial⟩
  | gpuNewer | conflicting | invalid => rfl

theorem checks_checkedEnd {size : ℕ} : Checks (checkedEnd offset size) fun _ => True := by
  intro page
  refine .read ?_
  cases decide (page.bytes.length < offset + size) with
  | true => rfl
  | false => exact ⟨rfl, trivial⟩

theorem checks_hostWriteVisible {executable : Bool} :
    Checks (hostWriteVisible executable p) fun page => page.visibility.cpuVisible = true := by
  intro page
  refine .bind (.mapErr (.read ?_))
  have hexecutable : page.visibility.cpuVisible = true →
      Call.Ensures (Call.failIf executable (.ok .executable)) page
      (fun _ page' => page' = page ∧ page.visibility.cpuVisible = true)
      fun (_ : HostWriteExit) page' => page' = page := by
    intro hvisible
    cases executable with
    | true => rfl
    | false => exact ⟨rfl, hvisible⟩
  cases hvisibility : page.visibility with
  | clean | cpuNewer => exact hexecutable (by rw [hvisibility]; rfl)
  | gpuNewer => rfl
  | conflicting => rfl
  | invalid => rfl

theorem checks_hostWriteAdmitted : Checks hostWriteAdmitted fun _ => True := by
  intro page
  refine .read (.okOr fun _ _ => ?_)
  refine .failIf fun _ => ?_
  cases decide (page.cpuDirtyObserverArmed = true ∧ page.cpuDirtyEpoch = u64Max) with
  | true => rfl
  | false => exact ⟨rfl, trivial⟩

theorem checks_commitPreflight : Checks (commitPreflight pending) fun _ => True := by
  intro page
  refine .okOr fun _ _ => ?_
  exact .okOr fun _ _ => ⟨rfl, trivial⟩

theorem checks_commitAdmitted {ordered : Bool} :
    Checks (commitAdmitted ordered pending) fun page => page.visibility.cpuVisible = true := by
  intro page
  refine .read (.failIf fun hadmitted => ?_)
  rw [Bool.or_eq_false_iff, Bool.not_eq_false'] at hadmitted
  refine .okOr fun _ _ => ?_
  refine .okOr fun _ _ => ?_
  cases decide (page.cpuDirtyObserverArmed = true ∧ page.cpuDirtyEpoch = u64Max) with
  | true => rfl
  | false => exact ⟨rfl, hadmitted.2⟩

theorem checks_keepBaseline {cached : Bool} : Checks (keepBaseline cached) fun _ => True := by
  intro page
  refine .read ?_
  cases page.visibility.cpuVisible && !cached with
  | true => rfl
  | false => exact ⟨rfl, trivial⟩

end Nixe.CanonicalPages
