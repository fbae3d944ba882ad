/-
**Native access is covered by tracking.**

A page that the CPU may not see must not be reachable through an alias, a page whose next CPU write
has to be noticed must not be writable through one, and every other page is open up to the maximum
of its aliases.  Between calls the protection in force is a function of the visibility, the armed
observer and the maximum (`Exact`), and every call restores this, also those that revoke the aliases
for a while and those that fail half way.

The one exception is a page whose visibility epoch is exhausted: `publish_visibility` opens the
aliases before `set_visibility` finds that there is no further epoch and makes the page invalid.

Main definitions:

* `Exact` — the protection of every alias is the one that the state of its page allows;
* `Covered` — the bounds on native access, state by state;
* `Admissible` — the host grants every request, and no page has used up its epochs.

Main results:

* `native_access_covered` — **after every admissible run every page is covered**;
* `exhausted_page_readable` — an invalid page that is open to native reads.
-/
import Nixe.CanonicalPageRules

set_option autoImplicit false

namespace Nixe.CanonicalPages

open Memory List Function Call Machine CanonicalPageState

variable {page page' : CanonicalPageState} {pages : Pages} {ε α : Type}
  {maximum : DirectProtection} {c : PageCall ε α} {R R' : CanonicalPageState → Prop}
  {visibility : PageVisibility} {offset arena guestAddress p n : ℕ} {bytes : List UInt8}
  {wide served write exclusive : Bool} {ps rest : List ℕ} {writes : List PageWrite}
  {pending : PendingWrite} {cached : ℕ → Bool}

/-! ### What the state of a page allows -/

/-- The protection that the state of the page allows an alias. -/
def CanonicalPageState.allows (page : CanonicalPageState) : DirectProtection → DirectProtection :=
  allowed page.visibility.cpuVisible (page.visibility == .cpuNewer && !page.cpuDirtyObserverArmed)

/-- The protection of every alias is the one that the state of the page allows. -/
def Exact (page : CanonicalPageState) : Prop :=
  ∀ a ∈ page.directAliases, a.protection = page.allows a.maximumProtection

/-- No alias of the page gives any access. -/
def Closed (page : CanonicalPageState) : Prop :=
  ∀ a ∈ page.directAliases, a.protection = .none

/-- The bounds on native access to a page. -/
def Covered (page : CanonicalPageState) : Prop :=
  ∀ a ∈ page.directAliases, match page.visibility with
    | .gpuNewer _ | .conflicting | .invalid => a.protection = .none
    | .clean => a.protection ≠ .readWrite
    | .cpuNewer =>
      if page.cpuDirtyObserverArmed then a.protection ≠ .readWrite
      else a.protection = a.maximumProtection

@[simp] theorem allowed_false (writeEnabled : Bool) (maximum : DirectProtection) :
    allowed false writeEnabled maximum = .none := rfl

theorem allowed_readOnly : allowed true false maximum ≠ .readWrite := by
  cases maximum <;> simp [allowed]

theorem allowed_all : allowed true true maximum = maximum := by
  cases maximum <;> rfl

theorem allowed_unwritable {cpuVisible writeEnabled : Bool} (hmaximum : maximum ≠ .readWrite) :
    allowed cpuVisible writeEnabled maximum = allowed cpuVisible false maximum := by
  cases cpuVisible with
  | false => rfl
  | true =>
    cases maximum with
    | readWrite => exact absurd rfl hmaximum
    | read => rfl
    | none => rfl

theorem Exact.covered (hexact : Exact page) : Covered page := by
  intro a ha
  have hprotection := hexact a ha
  unfold allows at hprotection
  cases hvisibility : page.visibility with
  | clean =>
    rw [hvisibility] at hprotection
    simp only [hprotection]
    exact allowed_readOnly
  | cpuNewer =>
    rw [hvisibility] at hprotection
    cases harmed : page.cpuDirtyObserverArmed with
    | true =>
      rw [harmed] at hprotection
      simp only [if_true, hprotection]
      exact allowed_readOnly
    | false =>
      rw [harmed] at hprotection
      exact hprotection.trans allowed_all
  | gpuNewer | conflicting | invalid =>
    rw [hvisibility] at hprotection
    exact hprotection

theorem allows_of_hidden (hhidden : page.visibility.cpuVisible = false)
    (maximum : DirectProtection) : page.allows maximum = .none := by
  rw [allows, hhidden, allowed_false]

/-- A page that the CPU does not see is exact as soon as it is closed. -/
theorem exact_iff_closed (hhidden : page.visibility.cpuVisible = false) :
    Exact page ↔ Closed page := by
  unfold Exact Closed
  simp [allows_of_hidden hhidden]

theorem exact_protect {f : DirectProtection → DirectProtection}
    (hallows : ∀ maximum, f maximum = page.allows maximum) : Exact (page.protect f) := by
  intro a ha
  obtain ⟨b, -, rfl⟩ := mem_map.1 ha
  exact hallows b.maximumProtection

theorem closed_protect : Closed (page.protect fun _ => .none) := by
  intro a ha
  obtain ⟨b, -, rfl⟩ := mem_map.1 ha
  rfl

/-- Whether a page is exact depends on its aliases and on what it allows them. -/
theorem Exact.congr (hexact : Exact page) (haliases : page'.directAliases = page.directAliases)
    (hallows : page'.allows = page.allows) : Exact page' := by
  intro a ha
  rw [haliases] at ha
  rw [hallows]
  exact hexact a ha

theorem Closed.exact_invalid (hclosed : Closed page) :
    Exact { page with visibility := .invalid } := hclosed

theorem SameTracking.exact (h : SameTracking page page') (hexact : Exact page) : Exact page' := by
  refine hexact.congr h.directAliases ?_
  unfold allows
  rw [h.visibility, h.armed]

/-! ### Methods of a page

Every method leaves an exact page, whether it returns a value or an error. -/

/-- The method leaves an exact page, and when it returns a value the page satisfies `R`. -/
def Restores (c : PageCall ε α) (page : CanonicalPageState) (R : CanonicalPageState → Prop) :
    Prop :=
  c.Ensures page (fun _ page' => Exact page' ∧ R page') fun _ => Exact

/-- The method leaves an exact page. -/
abbrev Settles (c : PageCall ε α) (page : CanonicalPageState) : Prop :=
  Restores c page fun _ => True

/-- The page has epochs left. -/
abbrev Lasting (page : CanonicalPageState) : Prop := page.visibilityEpoch < u64Max

/-- The visibility and its epoch are as before. -/
abbrev Unmoved (page page' : CanonicalPageState) : Prop :=
  page'.visibility = page.visibility ∧ page'.visibilityEpoch = page.visibilityEpoch

theorem Restores.imp (h : Restores c page R) (hR : ∀ page', R page' → R' page') :
    Restores c page R' :=
  Call.Ensures.imp h (fun _ _ hpost => ⟨hpost.1, hR _ hpost.2⟩) fun _ _ hpost => hpost

theorem Restores.settles (h : Restores c page R) : Settles c page := h.imp fun _ _ => trivial

theorem Restores.bind {β : Type} {c : PageCall ε β} {f : β → PageCall ε α} (h : Restores c page R)
    (hf : ∀ b page', Exact page' → R page' → Restores (f b) page' R') :
    Restores (c >>= f) page R' :=
  Call.Ensures.bind (.mono h fun b page' hpost => hf b page' hpost.1 hpost.2)

theorem Restores.mapErr {ε' : Type} {g : ε → ε'} (h : Restores c page R) :
    Restores (mapErr g c) page R :=
  Call.Ensures.mapErr h

theorem closed_leaving (hclosed : Closed page) : Closed (page.leaving visibility) := by
  unfold leaving
  split
  · exact hclosed
  · exact hclosed

/-- A closed page may take any visibility that hides it. -/
theorem restores_setVisibility (hhidden : visibility.cpuVisible = false) (hclosed : Closed page) :
    Settles (setVisibility visibility) page := by
  refine (setVisibility_spec visibility).imp (fun _ page' hpost => ?_) fun _ page' hpost => ?_
  · obtain ⟨-, rfl⟩ := hpost
    refine ⟨(exact_iff_closed ?_).2 ?_, trivial⟩
    · exact hhidden
    · exact closed_leaving hclosed
  · obtain ⟨-, rfl⟩ := hpost
    exact (closed_leaving hclosed).exact_invalid

/-- The page as it is when its aliases have been prepared for a visibility. -/
def CanonicalPageState.preparedFor (page : CanonicalPageState) (visibility : PageVisibility) :
    CanonicalPageState :=
  if page.visibility.gpuOwned && !visibility.cpuVisible then page
  else page.protect (allowed visibility.cpuVisible
    (visibility.cpuVisible && visibility == .cpuNewer && !page.cpuDirtyObserverArmed))

theorem publishVisibility_true (visibility : PageVisibility) :
    publishVisibility true visibility page =
      setVisibility visibility (page.preparedFor visibility) := by
  unfold publishVisibility preparedFor
  rw [bind_run, read_run]
  simp only
  split <;> rfl

theorem preparedFor_epoch (visibility : PageVisibility) :
    (page.preparedFor visibility).visibilityEpoch = page.visibilityEpoch := by
  unfold preparedFor
  split <;> rfl

/-- Preparing for a visibility that hides the page closes it. -/
theorem closed_preparedFor (hhidden : visibility.cpuVisible = false)
    (howned : page.visibility.gpuOwned = true → Closed page) :
    Closed (page.preparedFor visibility) := by
  unfold preparedFor
  rw [hhidden]
  split
  · rename_i hgpu
    rw [Bool.not_false, Bool.and_true] at hgpu
    exact howned hgpu
  · exact closed_protect

theorem Exact.closed_of_owned (hexact : Exact page) (howned : page.visibility.gpuOwned = true) :
    Closed page := by
  refine (exact_iff_closed ?_).1 hexact
  cases hvisibility : page.visibility with
  | gpuNewer => rfl
  | _ =>
    rw [hvisibility] at howned
    cases howned

theorem restores_publishVisibility
    (h : Restores (setVisibility visibility) (page.preparedFor visibility) R) :
    Restores (publishVisibility true visibility) page R := by
  unfold Restores Call.Ensures at h ⊢
  rwa [publishVisibility_true]

/-- Publishing a visibility that hides the page. -/
theorem publishVisibility_hidden (hhidden : visibility.cpuVisible = false)
    (howned : page.visibility.gpuOwned = true → Closed page) :
    Settles (publishVisibility true visibility) page :=
  restores_publishVisibility (restores_setVisibility hhidden (closed_preparedFor hhidden howned))

/-- Publishing a visibility while there are epochs left. -/
theorem publishVisibility_visible (hvisible : visibility.cpuVisible = true)
    (hepoch : Lasting page) :
    Restores (publishVisibility true visibility) page (·.visibility = visibility) := by
  refine restores_publishVisibility ((setVisibility_spec visibility).imp
    (fun _ page' hpost => ?_) fun _ page' hpost => ?_)
  · obtain ⟨-, rfl⟩ := hpost
    refine ⟨?_, rfl⟩
    rw [leaving_visible hvisible]
    unfold preparedFor
    rw [hvisible, Bool.not_true, Bool.and_false, if_neg (by simp)]
    intro a ha
    obtain ⟨b, -, rfl⟩ := mem_map.1 ha
    simp [allows, protect, hvisible]
  · rw [preparedFor_epoch] at hpost
    omega

theorem publishDirectAliasProtection_spec :
    Restores (publishDirectAliasProtection true) page (Unmoved page) := by
  refine ⟨exact_protect fun maximum => ?_, rfl, rfl⟩
  unfold allows
  cases hvisible : page.visibility.cpuVisible with
  | true => rw [Bool.true_and]
  | false => rfl

theorem revokeDirectAccess_spec (howned : page.visibility.gpuOwned = true → Closed page) :
    (revokeDirectAccess true).Ensures page (fun _ => Closed)
      fun _ page' => page'.visibility = .invalid ∧ Closed page' := by
  refine .read (.handle ?_)
  split
  · rename_i hgpu
    cases checkedAdd page.visibilityEpoch 1 with
    | none => exact ⟨rfl, howned hgpu⟩
    | some => exact howned hgpu
  · cases checkedAdd page.visibilityEpoch 1 with
    | none => exact ⟨rfl, closed_protect⟩
    | some => exact closed_protect

/-- **The observers are told**, or the page is given up. -/
theorem advanceCpuDirtyEpoch_spec (howned : page.visibility.gpuOwned = true → Closed page) :
    (advanceCpuDirtyEpoch true).Ensures page
      (fun _ page' => ∃ epoch, page' = { page with cpuDirtyEpoch := epoch })
      fun _ page' => page'.visibility = .invalid ∧ Closed page' := by
  refine .read ?_
  split
  · cases checkedAdd page.cpuDirtyEpoch 1 with
    | some next => exact ⟨next, rfl⟩
    | none =>
      refine .bind (.mapErr ?_)
      exact (revokeDirectAccess_spec howned).mono fun _ _ hclosed => ⟨rfl, hclosed⟩
  · exact ⟨page.cpuDirtyEpoch, rfl⟩

theorem exact_of_invalid (hinvalid : page.visibility = .invalid) (hclosed : Closed page) :
    Exact page := (exact_iff_closed (by rw [hinvalid]; rfl)).2 hclosed

/-- What `advance_cpu_dirty_epoch` leaves of an exact page. -/
theorem restores_advanceCpuDirtyEpoch (hexact : Exact page) :
    Restores (advanceCpuDirtyEpoch true) page (Unmoved page) := by
  refine (advanceCpuDirtyEpoch_spec hexact.closed_of_owned).imp (fun _ page' hpost => ?_)
    fun _ page' hpost => exact_of_invalid hpost.1 hpost.2
  obtain ⟨epoch, rfl⟩ := hpost
  exact ⟨hexact, rfl, rfl⟩

theorem restores_publishCpuDirty (hexact : Exact page) :
    Restores (publishCpuDirty fun _ => true) page (Unmoved page) := by
  refine .read ?_
  split
  · refine Restores.bind (restores_advanceCpuDirtyEpoch hexact) fun _ page' _ hsame => ?_
    refine .update (.mapErr ?_)
    refine publishDirectAliasProtection_spec.imp fun page'' hpublished => ?_
    exact ⟨hpublished.1.trans hsame.1, hpublished.2.trans hsame.2⟩
  · exact ⟨hexact, rfl, rfl⟩

/-- A publication of a hidden page, and the error that is returned then. -/
theorem restores_abandon {e : VisibilityError} (hhidden : visibility.cpuVisible = false)
    (hexact : Exact page) : Restores (do
      publishVisibility true visibility
      (fail e : PageCall VisibilityError α)) page R :=
  (publishVisibility_hidden hhidden hexact.closed_of_owned).bind fun _ _ hexact' _ => hexact'

section Locked

variable (hexact : Exact page)
include hexact

theorem restores_requireCpuAuthority : Restores (requireCpuAuthority true) page (· = page) := by
  refine .read ?_
  cases page.visibility with
  | clean | cpuNewer => exact ⟨hexact, rfl⟩
  | gpuNewer | conflicting => exact restores_abandon rfl hexact
  | invalid => exact hexact

theorem restores_takeFromClean (hepoch : Lasting page) : Settles (takeFromClean true) page := by
  refine .read ?_
  split
  · exact (publishVisibility_visible rfl hepoch).settles
  · exact ⟨hexact, trivial⟩

theorem restores_prepareCpuWriteLocked (hepoch : Lasting page) :
    Settles (prepareCpuWriteLocked fun _ => true) page := by
  refine .bind (.mapErr (restores_requireCpuAuthority hexact)) ?_
  rintro _ page' - rfl
  refine .bind (.mapErr (restores_takeFromClean hexact hepoch)) ?_
  intro _ page'' hexact' _
  exact (restores_publishCpuDirty hexact').settles

theorem restores_whenVisible {body : PageCall CanonicalPageError α}
    (hbody : Settles body page) :
    Settles (whenVisible body) page := by
  refine Call.Ensures.bind (.read ?_)
  have hsome : Settles (do let result ← body; pure (some result)) page :=
    hbody.bind fun _ _ hexact' _ => ⟨hexact', trivial⟩
  cases page.visibility with
  | clean | cpuNewer => exact hsome
  | gpuNewer => exact ⟨hexact, trivial⟩
  | conflicting | invalid => exact hexact

theorem restores_checkedEnd {size : ℕ} {f : Unit → PageCall CanonicalPageError α}
    (hf : Restores (f ()) page R) :
    Restores (checkedEnd offset size >>= f) page R := by
  refine Call.Ensures.bind ((checks_checkedEnd page).imp ?_ ?_)
  · rintro _ _ ⟨rfl, -⟩
    exact hf
  · rintro _ _ rfl
    exact hexact

theorem restores_copyBytes : Settles (update (·.copyBytes offset bytes) : PageCall ε Unit) page :=
  ⟨copyBytes_tracking.exact hexact, trivial⟩

theorem restores_writePrepared : Settles (writePrepared offset bytes) page :=
  restores_checkedEnd hexact (restores_copyBytes hexact)

end Locked

section Writes

variable {executable detached : Bool} {expected next generation version epoch : ℕ}
  {identity : Option ℕ} {seen replacement : List UInt8} {writeback : Option (List UInt8)}
  (hexact : Exact page) (hepoch : Lasting page)
include hexact hepoch

theorem restores_writeHostScalar :
    Settles (writeHostScalar (fun _ => true) wide executable offset bytes) page := by
  refine restores_checkedEnd hexact ?_
  split
  · exact ⟨hexact, trivial⟩
  · refine .read (.okOr (fun next _ => ?_) fun _ => hexact)
    refine Restores.bind (.mapErr (restores_takeFromClean hexact hepoch)) ?_
    intro _ taken htaken _
    refine .bind (restores_advanceCpuDirtyEpoch htaken) fun _ told htold _ => ?_
    refine .bind (restores_writePrepared htold) fun _ written hwritten _ => ?_
    exact ⟨hwritten, trivial⟩

theorem restores_writePreflighted :
    Settles (writePreflighted (fun _ => true) offset bytes expected next) page := by
  refine restores_checkedEnd hexact (.failIf (fun _ => ?_) fun _ => hexact)
  refine Restores.bind (restores_prepareCpuWriteLocked hexact hepoch) ?_
  intro _ prepared hprepared _
  refine .read (.failIf (fun _ => ?_) fun _ => hprepared)
  exact ⟨copyBytes_tracking.exact hprepared, trivial⟩

theorem restores_writeFragmentPreflighted :
    Settles (writeFragmentPreflighted (fun _ => true) offset bytes generation) page := by
  refine restores_checkedEnd hexact ?_
  refine .bind (restores_prepareCpuWriteLocked hexact hepoch) ?_
  intro _ prepared hprepared _
  refine .read (.failIf (fun _ => ?_) fun _ => hprepared)
  exact restores_copyBytes hprepared

theorem restores_tryAtomicCompareExchange :
    Settles (tryAtomicCompareExchange (fun _ => true) wide offset seen replacement) page := by
  refine restores_checkedEnd hexact ?_
  refine restores_whenVisible hexact ?_
  refine .failIf (fun _ => .read ?_) fun _ => hexact
  have hstored : ∀ prepared, Exact prepared → Settles (do
      update (·.copyBytes offset replacement)
      pure (page.slice offset seen.length, true) : PageCall CanonicalPageError _) prepared :=
    fun prepared hprepared => .bind (restores_copyBytes hprepared)
      fun _ _ hexact' _ => ⟨hexact', trivial⟩
  simp only
  split
  · split
    · exact Restores.bind (restores_prepareCpuWriteLocked hexact hepoch)
        fun _ prepared hprepared _ => hstored prepared hprepared
    · exact hstored page hexact
  · exact ⟨hexact, trivial⟩

theorem restores_tryExclusiveStore :
    Settles (tryExclusiveStore (fun _ => true) wide offset identity version replacement) page := by
  refine restores_checkedEnd hexact (.failIf (fun _ => .read ?_) fun _ => hexact)
  split
  · exact ⟨hexact, trivial⟩
  · split
    · exact ⟨hexact, trivial⟩
    · split
      · exact ⟨hexact, trivial⟩
      · refine restores_whenVisible hexact ?_
        refine .bind (restores_prepareCpuWriteLocked hexact hepoch) ?_
        intro _ prepared hprepared _
        exact .bind (restores_copyBytes hprepared) fun _ _ hexact' _ => ⟨hexact', trivial⟩

theorem restores_finishReadback :
    Settles (finishReadback (fun _ => true) epoch next detached writeback) page := by
  refine .read ?_
  split
  · -- the page was published meanwhile
    cases page.visibility with
    | conflicting => exact hexact
    | invalid => exact hexact
    | _ => exact ⟨hexact, trivial⟩
  · split
    · exact ⟨hexact, trivial⟩
    · cases writeback with
      | none => exact restores_abandon rfl hexact
      | some bytes =>
        simp only
        split
        · exact restores_abandon rfl hexact
        · have hstored : SameTracking page (page.copyBytes 0 bytes) := copyBytes_tracking
          refine .update (.update ?_)
          refine Restores.bind (.mapErr (restores_publishCpuDirty (hstored.exact hexact))) ?_
          intro _ page' _ hsame
          refine (publishVisibility_visible rfl ?_).settles
          rwa [Lasting, hsame.2.trans hstored.visibilityEpoch]

theorem restores_hostWriteTaken : Settles (hostWriteTaken fun _ => true) page := by
  refine .mapErr (.bind (.mapErr (restores_takeFromClean hexact hepoch)) ?_)
  intro _ page' hexact' _
  exact (restores_advanceCpuDirtyEpoch hexact').settles

end Writes

theorem restores_nativeStore (hexact : Exact page) :
    Settles (nativeStore arena guestAddress offset bytes) page := by
  refine .read ?_
  split
  · exact restores_copyBytes hexact
  · exact ⟨hexact, trivial⟩

theorem restores_enableExclusiveAccess (hexact : Exact page) {identity : ℕ} :
    Restores (enableExclusiveAccess identity) page fun page' =>
      page'.reservations.isSome = true := by
  refine .read (.failIf (fun _ => ?_) fun _ => hexact)
  split
  · rename_i hsome
    exact ⟨hexact, hsome⟩
  · exact ⟨hexact, rfl⟩

theorem restores_exclusiveLoad (hexact : Exact page) {identity size : ℕ} :
    Settles (exclusiveLoad wide identity offset size) page := by
  refine .failIf (fun _ => restores_checkedEnd hexact ?_) fun _ => hexact
  refine .bind (restores_enableExclusiveAccess hexact) ?_
  intro _ enabled henabled hsome
  refine restores_whenVisible henabled (.read ?_)
  obtain ⟨table, htable⟩ := Option.isSome_iff_exists.1 hsome
  rw [htable]
  exact ⟨henabled, trivial⟩

theorem restores_registerDirectAlias :
    Settles (registerDirectAlias true arena guestAddress maximum) page :=
  .update publishDirectAliasProtection_spec.settles

theorem restores_unregisterDirectAlias (hexact : Exact page) :
    Settles (unregisterDirectAlias arena guestAddress) page :=
  ⟨fun a ha => hexact a (mem_of_mem_filter ha), trivial⟩

theorem restores_beginReadback (hexact : Exact page) : Settles (beginReadback true) page := by
  refine .read ?_
  cases page.visibility with
  | gpuNewer =>
    cases checkedAdd page.contentGeneration 1 with
    | none => exact restores_abandon rfl hexact
    | some => exact ⟨hexact, trivial⟩
  | clean | cpuNewer => exact ⟨hexact, trivial⟩
  | conflicting => exact hexact
  | invalid => exact hexact

theorem restores_attachResidentDeviceOwner (hexact : Exact page) {owner : ℕ} :
    Settles (attachResidentDeviceOwner true served owner) page := by
  refine .read ?_
  split
  · exact (publishVisibility_hidden rfl hexact.closed_of_owned).bind
      fun _ _ hexact' _ => ⟨hexact', trivial⟩
  · exact ⟨hexact, trivial⟩

/-! ### Methods of several pages -/

def AllExact (pages : Pages) : Prop := ∀ p, Exact (pages p)

/-- The method leaves every page exact. -/
abbrev AllSettle (c : PagesCall ε α) (pages : Pages) : Prop :=
  c.Ensures pages (fun _ => AllExact) fun _ => AllExact

/-- The pages of the list have epochs left. -/
def HaveEpochs (ps : List ℕ) (pages : Pages) : Prop := ∀ p ∈ ps, (pages p).visibilityEpoch < u64Max

/-- A host that grants every request. -/
abbrev willing (wide : Bool) : Host := ⟨fun _ => true, fun _ _ => true, wide⟩

/-- A method of one page that leaves it exact. -/
theorem Restores.onPage (hall : AllExact pages) (h : Restores c (pages p) R) :
    AllSettle (CanonicalPages.onPage p c) pages :=
  onPage_ensures (.imp h (fun _ _ hpost => update_all hpost.1 fun q _ => hall q)
    fun _ _ hpost => update_all hpost fun q _ => hall q)

/-- A loop of methods that leave their page exact; each finds its page as it was. -/
theorem forEach_restores {method : ℕ → PageCall ε Unit} {P R : ℕ → CanonicalPageState → Prop}
    (hnodup : ps.Nodup) (hall : AllExact pages) (hpre : ∀ p ∈ ps, P p (pages p))
    (hmethod : ∀ p page, Exact page → P p page → Restores (method p) page (R p)) :
    (forEach ps fun p => onPage p (method p)).Ensures pages
      (fun _ pages' => AllExact pages' ∧ ∀ p ∈ ps, R p (pages' p)) fun _ => AllExact := by
  -- the pages to come are as before, those that are done satisfy `R`
  refine (forEach_ensures
    (I := fun rest pages' => AllExact pages' ∧ rest.Nodup ∧ (∀ p ∈ rest, P p (pages' p)) ∧
      ∀ p ∈ ps, p ∉ rest → R p (pages' p)) ?_ ps pages
    ⟨hall, hnodup, hpre, fun p => absurd⟩).mono ?_
  swap
  · rintro _ pages' ⟨hall', -, -, hdone⟩
    exact ⟨hall', fun p hp => hdone p hp not_mem_nil⟩
  · rintro p rest pages' ⟨hall', hnd, hpre', hdone⟩
    obtain ⟨hfresh, hnd⟩ := nodup_cons.1 hnd
    refine onPage_ensures (.imp (hmethod p _ (hall' p) (hpre' p mem_cons_self)) ?_ ?_)
    · rintro _ page' ⟨hexact, hR⟩
      refine ⟨update_all hexact fun q _ => hall' q, hnd, ?_, ?_⟩
      · intro q hq
        rw [update_of_ne (ne_of_mem_of_not_mem hq hfresh)]
        exact hpre' q (mem_cons_of_mem _ hq)
      · refine update_all (P := fun q page => q ∈ ps → q ∉ rest → R q page) (fun _ _ => hR) ?_
        intro q hne hq hnot
        exact hdone q hq (by simp [hne, hnot])
    · intro _ page' hexact
      exact update_all hexact fun q _ => hall' q

/-- A loop of methods that leave every page exact. -/
theorem forEach_exact {ι : Type} {page : ι → ℕ} {method : ι → PageCall ε Unit} {items : List ι}
    {R : ι → CanonicalPageState → Prop} (hall : AllExact pages)
    (hmethod : ∀ item page, Exact page → Restores (method item) page (R item)) :
    AllSettle (forEach items fun item => onPage (page item) (method item)) pages :=
  forEach_ensures (fun item _ _ hall' => (hmethod item _ (hall' _)).onPage hall') items pages hall

/-! ### Arming and protected accesses -/

/-- Arming makes the aliases read-only before the observer counts on it. -/
theorem exact_armed (hexact : Exact page) :
    Exact { page.protectArmed with cpuDirtyObserverArmed := true } := by
  unfold protectArmed
  split
  · rename_i harmed
    exact hexact.congr rfl (by simp [allows, harmed])
  · intro a ha
    obtain ⟨b, -, rfl⟩ := mem_map.1 ha
    simp [allows, protect]

theorem protectArmed_same : (page.protectArmed).visibility = page.visibility ∧
    (page.protectArmed).visibilityEpoch = page.visibilityEpoch := by
  unfold protectArmed
  split <;> exact ⟨rfl, rfl⟩

/-- `arm_cpu_page_states` on exact pages: they are exact again and armed, with the same epochs. -/
theorem restores_armCpuPageStates (hall : AllExact pages) :
    (armCpuPageStates (willing wide) ps).Ensures pages
      (fun _ pages' => AllExact pages' ∧ ∀ p ∈ ps, (pages' p).cpuDirtyObserverArmed = true ∧
        (pages' p).visibilityEpoch = (pages p).visibilityEpoch)
      fun _ => AllExact := by
  refine .bind ((forEach_checks (fun _ => checks_usable)).imp ?_ ?_)
  · rintro _ _ ⟨rfl, -⟩
    refine .bind (protectAll_true ⟨fun p => ?_, fun p hp => ?_⟩)
    · simp only
      split
      · exact exact_armed (hall p)
      · exact hall p
    · simp only [if_pos hp]
      exact ⟨trivial, protectArmed_same.2⟩
  · rintro _ _ rfl
    exact hall

/-- During a protected access the pages that the CPU sees are not as their state allows. -/
def Half (ps : List ℕ) (pages : Pages) : Prop :=
  ∀ p, (p ∈ ps → (pages p).visibility.cpuVisible = false) → Exact (pages p)

theorem protectAccess_visibility : (page.protectAccess write).visibility = page.visibility := by
  unfold protectAccess
  split
  · rfl
  · split <;> rfl

/-- A page that the CPU does not see is left alone. -/
theorem protectAccess_hidden (hhidden : page.visibility.cpuVisible = false) :
    page.protectAccess write = page := by
  unfold protectAccess
  rw [hhidden, Bool.and_false, if_neg Bool.false_ne_true]
  split
  · rename_i hnewer
    rw [Bool.and_eq_true, beq_iff_eq] at hnewer
    rw [hnewer.2] at hhidden
    cases hhidden
  · rfl

theorem half_protectAccess (hall : AllExact pages) :
    Half ps fun p => if p ∈ ps then (pages p).protectAccess write else pages p := by
  intro p hhidden
  by_cases hp : p ∈ ps
  · have hhidden := hhidden hp
    simp only [if_pos hp, protectAccess_visibility] at hhidden ⊢
    rw [protectAccess_hidden hhidden]
    exact hall p
  · simp only [if_neg hp]
    exact hall p

theorem exact_restore (h : page.visibility.cpuVisible = false → Exact page) :
    Exact page.restore := by
  unfold restore
  split
  · rename_i hvisible
    refine exact_protect fun maximum => ?_
    unfold allows
    rw [hvisible]
    congr 1
    cases hvisibility : page.visibility with
    | clean => simp
    | cpuNewer => simp
    | _ =>
      rw [hvisibility] at hvisible
      cases hvisible
  · rename_i hhidden
    exact h (Bool.eq_false_iff.2 hhidden)

theorem finish_exact (hhalf : Half ps pages) : AllSettle (finish (willing wide) ps) pages := by
  refine .handle (protectAll_true (.pure fun p => ?_))
  split
  · exact exact_restore fun hhidden => hhalf p fun _ => hhidden
  · exact hhalf p fun hmem => absurd hmem ‹_›

/-- **Protected accesses.**  The access may leave the pages that the CPU sees as it likes, their
aliases are given back at the end; if nothing was revoked it has to keep them exact. -/
theorem withAccess_exact {access : PagesCall CanonicalPageError α} {V : α → Prop}
    (hall : AllExact pages)
    (hrevoked : ∀ pages', Half ps pages' →
      access.Ensures pages' (fun a pages'' => V a ∧ Half ps pages'') fun _ => Half ps)
    (hquiet : write = false → (∀ p ∈ ps, (pages p).needsProtection = false) →
      access.Ensures pages (fun a pages' => V a ∧ AllExact pages') fun _ => AllExact) :
    (withAccess (willing wide) write ps access).Ensures pages
      (fun a pages' => V a ∧ AllExact pages') fun _ => AllExact := by
  refine .bind ((forEach_checks (fun _ => checks_usable)).imp ?_ ?_)
  · rintro _ _ ⟨rfl, -⟩
    refine .read ?_
    split
    · refine .handle (protectAll_true (.afterwards ?_))
      refine (hrevoked _ (half_protectAccess hall)).imp (fun _ _ hpost => ?_)
        fun _ _ => finish_exact
      exact (finish_exact hpost.2).mono fun _ _ hexact => ⟨hpost.1, hexact⟩
    · rename_i hnone
      rw [Bool.or_eq_true, not_or, Bool.not_eq_true, Bool.not_eq_true, any_eq_false] at hnone
      exact hquiet hnone.1 fun p hp => Bool.eq_false_iff.2 (hnone.2 p hp)
  · rintro _ _ rfl
    exact hall

/-- Arming a page without writable aliases changes nothing for them. -/
theorem exact_armed_quiet (hexact : Exact page) (hquiet : page.needsProtection = false) :
    Exact { page with cpuDirtyObserverArmed := true } := by
  intro a ha
  rw [hexact a ha]
  simp only [allows, Bool.not_true, Bool.and_false]
  cases hwritable : page.visibility == .cpuNewer && !page.cpuDirtyObserverArmed with
  | false => rfl
  | true =>
    rw [Bool.and_eq_true] at hwritable
    have hnot : a.maximumProtection ≠ .readWrite := by
      intro hmaximum
      have hany : (page.directAliases.any fun a => a.maximumProtection == .readWrite) = true :=
        any_eq_true.2 ⟨a, ha, by rw [hmaximum]; rfl⟩
      rw [needsProtection, hany, hwritable.1, hwritable.2] at hquiet
      cases hquiet
    exact allowed_unwritable hnot

/-- The observer of a page that the CPU does not see makes no difference. -/
theorem exact_armed_hidden (hexact : Exact page) (hhidden : page.visibility.cpuVisible = false) :
    Exact { page with cpuDirtyObserverArmed := true } := by
  refine (exact_iff_closed ?_).2 ?_
  · exact hhidden
  · exact (exact_iff_closed hhidden).1 hexact

theorem restores_protectedRead (hall : AllExact pages) {observed : List ℕ} :
    AllSettle (protectedRead (willing wide) ps observed) pages := by
  have hmem : ∀ p ∈ observed.filter (· ∈ ps), p ∈ ps :=
    fun p hp => of_decide_eq_true (mem_filter.1 hp).2
  refine (withAccess_exact (V := fun _ => True) hall ?_ ?_).mono fun _ _ hpost => hpost.2
  · refine fun pages' hhalf => ⟨trivial, fun p hhidden => ?_⟩
    by_cases hp : p ∈ observed.filter (· ∈ ps)
    · have hhidden := hhidden (hmem p hp)
      simp only [if_pos hp] at hhidden ⊢
      exact exact_armed_hidden (hhalf p fun _ => hhidden) hhidden
    · simp only [if_neg hp] at hhidden ⊢
      exact hhalf p hhidden
  · refine fun _ hquiet => ⟨trivial, fun p => ?_⟩
    simp only
    split
    · exact exact_armed_quiet (hall p) (hquiet p (hmem p ‹_›))
    · exact hall p

/-! ### Host writes and commits -/

variable {executable : ℕ → Bool}

section

variable (hepochs : HaveEpochs (writtenPages writes) pages) (hall : AllExact pages)
include hepochs hall

theorem restores_cpuAccessWrite : AllSettle (cpuAccessWrite (willing wide) writes) pages := by
  refine forEach_checks_bind (fun _ => checks_accessible) (fun _ => hall) fun _ => ?_
  refine .seq (forEach_restores (P := fun _ => Lasting) writtenPages_nodup hall hepochs
    fun _ _ hexact hepoch => .mapErr (restores_prepareCpuWriteLocked hexact hepoch)) ?_
  rintro _ pages' ⟨hall', -⟩
  exact forEach_exact hall' fun w _ hexact =>
    .mapErr (restores_writePrepared hexact)

theorem restores_writeAllocation : AllSettle (writeAllocation (willing wide) writes) pages := by
  refine forEach_checks_bind (fun w : PageWrite => checks_checkedEnd) (fun _ => hall) fun _ => ?_
  have hgeneration : ∀ p : ℕ, Checks (do
      let page ← read
      let _ ← okOr (checkedAdd page.contentGeneration 1)
        (CanonicalPageError.visibility .generationExhausted)) fun _ => True :=
    fun _ _ => .read (.okOr fun _ _ => ⟨rfl, trivial⟩)
  refine forEach_checks_bind hgeneration (fun _ => hall) fun _ => ?_
  refine .seq (forEach_restores (P := fun _ => Lasting) writtenPages_nodup hall hepochs
    fun _ _ => restores_prepareCpuWriteLocked) ?_
  rintro _ pages' ⟨hall', -⟩
  refine .seq (forEach_exact hall' fun w _ hexact =>
    restores_copyBytes hexact) ?_
  intro _ stored hstored
  refine forEach_exact (R := fun _ _ => True) hstored fun p page hexact => ?_
  exact .read (.okOr fun _ _ => ⟨hexact, trivial⟩)

theorem restores_tryWriteHostRegions :
    AllSettle (tryWriteHostRegions (willing wide) executable writes) pages := by
  refine forEach_checks_bind (fun w : PageWrite => checks_checkedEnd.mapErr)
    (fun _ => hall) fun _ => ?_
  refine forEach_checks_bind (fun p => checks_hostWriteVisible) (fun _ => hall) fun _ => ?_
  refine forEach_checks_bind (fun _ => checks_hostWriteAdmitted) (fun _ => hall) fun _ => ?_
  refine .seq (forEach_restores (P := fun _ => Lasting) writtenPages_nodup hall hepochs
    fun _ _ => restores_hostWriteTaken) ?_
  rintro _ pages' ⟨hall', -⟩
  have hwords : ∀ (w : PageWrite) page, Exact page → Settles
      (update (·.storeOrderedBytes w.offset w.bytes) : PageCall HostWriteExit Unit) page :=
    fun w page hexact => ⟨storeOrderedBytes_tracking.exact hexact, trivial⟩
  refine .seq (forEach_exact hall' hwords) ?_
  intro _ stored hstored
  exact forEach_exact (R := fun _ _ => True) hstored fun p page hexact => ⟨hexact, trivial⟩

end

/-- A page that the CPU sees keeps what it allows when it becomes the CPU's, unless it was clean and
not observed. -/
theorem allows_taken (hvisible : page.visibility.cpuVisible = true)
    (htaken : (page.visibility == .clean && !page.cpuDirtyObserverArmed) = false) :
    ({ page with visibility := .cpuNewer } : CanonicalPageState).allows = page.allows := by
  unfold allows
  cases hvisibility : page.visibility with
  | clean =>
    rw [hvisibility] at htaken
    cases harmed : page.cpuDirtyObserverArmed with
    | true => rfl
    | false =>
      rw [harmed] at htaken
      cases htaken
  | cpuNewer => rfl
  | _ =>
    rw [hvisibility] at hvisible
    cases hvisible

/-- An ordered commit reopens the aliases of a page that it takes from clean. -/
theorem restores_commitPage_ordered (hexact : Exact page)
    (hvisible : page.visibility.cpuVisible = true) :
    Settles (commitPage (fun _ => true) true pending) page := by
  refine .read (.update (.bind (.mapErr ?_)))
  refine (advanceCpuDirtyEpoch_spec (fun howned => by cases howned)).imp ?_
    fun _ _ hpost => exact_of_invalid hpost.1 hpost.2
  rintro _ _ ⟨epoch, rfl⟩
  refine .update (.update ?_)
  split
  · exact .mapErr publishDirectAliasProtection_spec.settles
  · rename_i hreopen
    refine ⟨publish_tracking.exact ?_, trivial⟩
    exact hexact.congr rfl (allows_taken hvisible (Bool.eq_false_iff.2 hreopen))

/-- Any other commit works on pages whose aliases are revoked. -/
theorem commitPage_revoked : (commitPage (fun _ => true) false pending).Ensures page
      (fun _ page' => page'.visibility.cpuVisible = true) fun _ => Exact := by
  refine .read (.update (.bind (.mapErr ?_)))
  refine (advanceCpuDirtyEpoch_spec (fun howned => by cases howned)).imp ?_
    fun _ _ hpost => exact_of_invalid hpost.1 hpost.2
  rintro _ _ ⟨epoch, rfl⟩
  exact congrArg PageVisibility.cpuVisible publish_tracking.visibility

theorem half_update (hp : p ∈ ps) (hhalf : Half ps pages)
    (hpage : page'.visibility.cpuVisible = false → Exact page') :
    Half ps (update pages p page') :=
  update_all (P := fun q page => (q ∈ ps → page.visibility.cpuVisible = false) → Exact page)
    (fun hhidden => hpage (hhidden hp)) fun q _ => hhalf q

variable {pending : ℕ → PendingWrite}

theorem half_commitPublish (hhalf : Half ps pages) :
    (commitPublish (willing wide) false exclusive executable pending ps).Ensures pages
      (fun _ => Half ps) fun _ => Half ps := by
  unfold commitPublish
  split
  · exact hhalf
  refine forEach_checks_bind (fun p => checks_commitAdmitted) (fun _ => hhalf) fun _ => ?_
  refine .seq (forEach_ensures
    (I := fun rest pages' => Half ps pages' ∧ ∀ p ∈ rest, p ∈ ps) ?_ ps _ ⟨hhalf, fun _ => id⟩)
    fun _ _ hpost => hpost.1
  rintro p rest pages' ⟨hhalf', hrest⟩
  have hp := hrest p mem_cons_self
  refine onPage_ensures (commitPage_revoked.imp ?_ ?_)
  · intro _ page' hvisible
    refine ⟨half_update hp hhalf' fun hhidden => ?_, fun q hq => hrest q (mem_cons_of_mem _ hq)⟩
    rw [hvisible] at hhidden
    cases hhidden
  · exact fun _ page' hexact => half_update hp hhalf' fun _ => hexact

theorem restores_commitPublish (hnodup : ps.Nodup) (hall : AllExact pages) :
    AllSettle (commitPublish (willing wide) true exclusive executable pending ps) pages := by
  unfold commitPublish
  split
  · exact hall
  refine forEach_checks_bind (fun p => checks_commitAdmitted) (fun _ => hall) fun hvisible => ?_
  exact .seq (forEach_restores hnodup hall hvisible fun _ _ => restores_commitPage_ordered)
    fun _ _ hpost => hpost.1

theorem restores_commitInner {ordered : Bool} (hnodup : ps.Nodup) (hall : AllExact pages) :
    AllSettle (commitInner (willing wide) ordered exclusive executable pending ps) pages := by
  refine forEach_checks_bind (fun p => checks_commitPreflight) (fun _ => hall) fun _ => ?_
  cases ordered with
  | true => exact restores_commitPublish hnodup hall
  | false =>
    refine .bind (.mapErr (.mono (withAccess_exact
      (V := fun published => published.isPanic = false) hall ?_ ?_) ?_))
    · intro pages' hhalf
      exact .outcome ((half_commitPublish hhalf).imp
          (fun _ _ hpost => ⟨rfl, hpost⟩) fun _ _ hpost => ⟨rfl, hpost⟩)
    · exact nofun
    · rintro published pages' ⟨hreturned, hexact⟩
      cases published with
      | ok | err => exact hexact
      | panic => cases hreturned

/-! ### Device inputs and device writes -/

theorem restores_prepareAdmitted (hexact : Exact page) (hepoch : Lasting page) :
    Restores (prepareAdmitted true served) page Lasting := by
  refine .read ?_
  cases page.visibility with
  | clean => exact ⟨hexact, hepoch⟩
  | cpuNewer =>
    cases decide (page.visibilityEpoch = u64Max) with
    | true => exact hexact
    | false => exact ⟨hexact, hepoch⟩
  | invalid | conflicting => exact hexact
  | gpuNewer =>
    cases served with
    | true => exact ⟨hexact, hepoch⟩
    | false => exact restores_abandon rfl hexact

/-- An armed page allows the same whether it is the CPU's or clean. -/
theorem restores_prepareInput {writes cached : Bool} (hexact : Exact page)
    (harmed : page.cpuDirtyObserverArmed = true) (hepoch : Lasting page) :
    Settles (prepareInput writes cached) page := by
  refine .read (.failIf (fun _ => ?_) fun _ => hexact)
  split
  · rename_i hnewer
    refine (setVisibility_spec .clean).imp ?_ fun _ _ hpost => by omega
    rintro _ _ ⟨-, rfl⟩
    refine ⟨hexact.congr rfl ?_, trivial⟩
    simp only [allows, harmed, hnewer, Bool.not_true, Bool.and_false]
    rfl
  · exact ⟨hexact, trivial⟩

theorem restores_invalidateUnlessOwned (hexact : Exact page) :
    Settles (invalidateUnlessOwned true) page := by
  refine .read ?_
  split
  · exact ⟨hexact, trivial⟩
  · exact .ignore (.imp
      (publishVisibility_hidden rfl hexact.closed_of_owned) (fun _ _ hpost => hpost)
      fun _ _ hpost => ⟨hpost, trivial⟩)

theorem restores_prepareDeviceInputs {served writes : ℕ → Bool} (hnodup : ps.Nodup)
    (hepochs : HaveEpochs ps pages) (hall : AllExact pages) :
    AllSettle (prepareDeviceInputs (willing wide) served writes cached ps) pages := by
  refine .bind ((forEach_restores (P := fun _ => Lasting) hnodup hall hepochs
    fun _ _ => restores_prepareAdmitted).imp ?_ ?_)
  · rintro _ pages' ⟨hall', hepochs'⟩
    refine .handle (.imp (E := fun _ => AllExact)
      ?_ (fun _ _ hpost => hpost) fun e pages'' hall'' => ?_)
    · refine .bind (.mapErr
        ((restores_armCpuPageStates hall').mono ?_))
      rintro _ armed ⟨harmed, hinputs⟩
      refine (forEach_restores (P := fun _ page => page.cpuDirtyObserverArmed = true ∧ Lasting page)
        hnodup harmed (fun p hp => ?_) fun _ _ hexact hready =>
          restores_prepareInput hexact hready.1 hready.2).mono fun _ _ hpost => hpost.1
      exact ⟨(hinputs p hp).1, (hinputs p hp).2.trans_lt (hepochs' p hp)⟩
    · -- the pages of a failed preparation are given up
      exact .seq (forEach_exact hall'' fun _ _ => restores_invalidateUnlessOwned)
        fun _ _ hpost => hpost
  · exact fun _ _ hpost => hpost

theorem restores_publishAdmitted (hexact : Exact page) (hepoch : Lasting page) :
    Restores (publishAdmitted true served) page Lasting := by
  refine .read ?_
  cases page.visibility with
  | clean | cpuNewer => exact ⟨hexact, hepoch⟩
  | invalid => exact hexact
  | conflicting => exact restores_abandon rfl hexact
  | gpuNewer =>
    cases served with
    | true => exact ⟨hexact, hepoch⟩
    | false => exact restores_abandon rfl hexact

/-- The pages of the list are closed, the others exact. -/
def ClosedOn (ps : List ℕ) (pages : Pages) : Prop :=
  ∀ p, if p ∈ ps then Closed (pages p) else Exact (pages p)

theorem closed_revoke (hexact : Exact page) : Closed page.revoke := by
  unfold revoke
  split
  · exact closed_protect
  · rename_i hhidden
    exact (exact_iff_closed (Bool.eq_false_iff.2 hhidden)).1 hexact

theorem closed_revokeUnlessOwned (hexact : Exact page) : Closed page.revokeUnlessOwned := by
  unfold revokeUnlessOwned
  split
  · rename_i howned
    exact hexact.closed_of_owned howned
  · exact closed_protect

theorem closedOn_protect {protection : CanonicalPageState → CanonicalPageState}
    (hall : AllExact pages) (hclosed : ∀ page, Exact page → Closed (protection page)) :
    ClosedOn ps fun p => if p ∈ ps then protection (pages p) else pages p := by
  intro p
  by_cases hp : p ∈ ps
  · simp only [if_pos hp]
    exact hclosed _ (hall p)
  · simp only [if_neg hp]
    exact hall p

theorem closedOn_nil : ClosedOn [] pages ↔ AllExact pages := by
  unfold ClosedOn AllExact
  simp only [not_mem_nil, if_false]

/-- The next page of the list has become exact. -/
theorem next_exact {C : CanonicalPageState → Prop}
    (hpages : ∀ q, if q ∈ p :: rest then C (pages q) else Exact (pages q))
    (hpage : if p ∈ rest then C page' else Exact page') (q : ℕ) :
    if q ∈ rest then C (update pages p page' q) else Exact (update pages p page' q) := by
  refine update_all (P := fun q page => if q ∈ rest then C page else Exact page) hpage ?_ q
  intro q hne
  have hq := hpages q
  simpa only [mem_cons, hne, false_or] using hq

theorem ClosedOn.next (hclosed : ClosedOn (p :: rest) pages) (hfresh : p ∉ rest)
    (hexact : Exact page') : ClosedOn rest (update pages p page') :=
  next_exact hclosed (by rwa [if_neg hfresh])

theorem ClosedOn.head (hclosed : ClosedOn (p :: rest) pages) : Closed (pages p) := by
  have hp := hclosed p
  rwa [if_pos mem_cons_self] at hp

/-- A failed publication leaves the pages of a device closed, all others exact. -/
def Abandoned (ps : List ℕ) (pages : Pages) : Prop :=
  ∀ p, if p ∈ ps then (pages p).visibility.gpuOwned = true → Closed (pages p)
    else Exact (pages p)

theorem AllExact.abandoned (hall : AllExact pages) : Abandoned ps pages := by
  intro p
  split
  · exact (hall p).closed_of_owned
  · exact hall p

theorem ClosedOn.abandoned (hclosed : ClosedOn ps pages) : Abandoned ps pages := by
  intro p
  have hp := hclosed p
  split at hp
  · rw [if_pos ‹_›]
    exact fun _ => hp
  · rwa [if_neg ‹_›]

theorem publishPrepared_spec {served : ℕ → Bool} (hnodup : ps.Nodup)
    (hepochs : HaveEpochs ps pages) (hall : AllExact pages) :
    (publishPrepared (willing wide) served cached ps).Ensures pages
      (fun _ pages' => ClosedOn ps pages' ∧ HaveEpochs ps pages') fun _ => Abandoned ps := by
  refine .bind ((forEach_restores (P := fun _ => Lasting) hnodup hall hepochs
    fun _ _ => restores_publishAdmitted).imp ?_ ?_)
  · rintro _ pages' ⟨hall', hepochs'⟩
    have hclosed : ClosedOn ps fun p => if p ∈ ps then (pages' p).revoke else pages' p :=
      closedOn_protect hall' fun _ => closed_revoke
    refine (forEach_checks (fun p => checks_keepBaseline)).imp ?_ ?_
    · rintro _ _ ⟨rfl, -⟩
      refine ⟨hclosed, fun p hp => ?_⟩
      simp only [if_pos hp]
      unfold revoke
      split
      · exact hepochs' p hp
      · exact hepochs' p hp
    · rintro _ _ rfl
      exact hclosed.abandoned
  · exact fun _ _ hpost => hpost.abandoned

/-- `let _ = publish_visibility(Invalid)` on the pages of a failed publication. -/
theorem invalidateAll_spec (habandoned : Abandoned ps pages) :
    AllSettle (invalidateAll (willing wide) ps : PagesCall ε Unit) pages := by
  refine (forEach_ensures ?_ ps pages habandoned).mono fun _ pages' hdone p => ?_
  · intro p rest pages' hrest
    have howned : (pages' p).visibility.gpuOwned = true → Closed (pages' p) := by
      have hp := hrest p
      rwa [if_pos mem_cons_self] at hp
    have hkept : ∀ page', Exact page' → Abandoned rest (update pages' p page') := by
      refine fun page' hexact =>
        next_exact (C := fun page => page.visibility.gpuOwned = true → Closed page) hrest ?_
      split
      · exact hexact.closed_of_owned
      · exact hexact
    exact onPage_ensures (.ignore (.imp
      (publishVisibility_hidden rfl howned) (fun _ page' hpost => hkept page' hpost.1)
      fun _ => hkept))
  · have hp := hdone p
    rwa [if_neg not_mem_nil] at hp

theorem restores_publishDevicePages {served : ℕ → Bool} {owner : ℕ → ℕ}
    (hnodup : ps.Nodup) (hepochs : HaveEpochs ps pages) (hall : AllExact pages) :
    AllSettle (publishDevicePages (willing wide) served cached executable exclusive owner ps)
      pages := by
  unfold publishDevicePages
  split
  · exact hall
  refine .handle ((publishPrepared_spec hnodup hepochs hall).imp ?_ ?_)
  · rintro _ pages' ⟨hclosed, hepochs'⟩
    refine .seq (forEach_ensures
      (I := fun rest pages' => ClosedOn rest pages' ∧ rest.Nodup ∧ HaveEpochs rest pages') ?_ ps
      pages' ⟨hclosed, hnodup, hepochs'⟩) fun _ _ hpost => closedOn_nil.1 hpost.1
    rintro p rest pages'' ⟨hrest, hnd, hleft⟩
    obtain ⟨hfresh, hnd⟩ := nodup_cons.1 hnd
    have hp := hrest.head
    have hlimit := hleft p mem_cons_self
    refine onPage_ensures ((setVisibility_spec _).imp ?_ fun _ _ hpost => by omega)
    rintro _ _ ⟨-, rfl⟩
    refine ⟨hrest.next hfresh hp, hnd, fun q hq => ?_⟩
    rw [update_of_ne (ne_of_mem_of_not_mem hq hfresh)]
    exact hleft q (mem_cons_of_mem _ hq)
  · intro e pages' habandoned
    exact .bind (invalidateAll_spec habandoned)

theorem invalidateEach_exact : ∀ (ps : List ℕ) (first : Outcome VisibilityError Unit)
    (pages : Pages), ps.Nodup → ClosedOn ps pages →
    AllSettle (invalidateEach ps first) pages
  | [], first, pages, _, hclosed => by
    cases first with
    | ok | err | panic => exact closedOn_nil.1 hclosed
  | p :: rest, first, pages, hnodup, hclosed => by
    obtain ⟨hfresh, hnodup⟩ := nodup_cons.1 hnodup
    have hpage : Settles (setVisibility .invalid) (pages p) :=
      restores_setVisibility rfl hclosed.head
    have hset : (onPage p (setVisibility .invalid)).Ensures pages
        (fun _ => ClosedOn rest) fun _ => ClosedOn rest :=
      onPage_ensures (.imp hpage (fun _ _ hpost => hclosed.next hfresh hpost.1)
        fun _ _ => hclosed.next hfresh)
    refine .bind (.outcome (hset.imp ?_ ?_))
    · exact fun _ pages' => invalidateEach_exact rest _ pages' hnodup
    · exact fun _ pages' => invalidateEach_exact rest _ pages' hnodup

theorem restores_invalidateDevicePages (hnodup : ps.Nodup) (hall : AllExact pages) :
    AllSettle (invalidateDevicePages (willing wide) ps) pages :=
  invalidateEach_exact ps _ _ hnodup (closedOn_protect hall fun _ => closed_revokeUnlessOwned)

/-! ### Runs -/

/-- The host grants every request of the call, and the call locks each of its pages once. -/
structure Granted (c : Host × Command) : Prop where
  batch : ∀ n, c.1.batch n = true
  page : ∀ p n, c.1.page p n = true
  nodup : c.2.pages.Nodup

/-- The host grants the call, and no page of the call has used up its epochs. -/
structure Admissible (pages : Pages) (c : Host × Command) : Prop extends Granted c where
  epochs : HaveEpochs c.2.pages pages

/-- **One call**: exact pages stay exact. -/
theorem run_exact {host : Host} {command : Command} (hall : AllExact pages)
    (hadmissible : Admissible pages (host, command)) : AllExact (command.run host pages) := by
  obtain ⟨⟨hbatch, hpage, hnodup⟩, hepochs⟩ := hadmissible
  obtain ⟨batch, page, wide⟩ := host
  obtain rfl : batch = fun _ => true := funext hbatch
  obtain rfl : page = fun _ _ => true := funext fun p => funext (hpage p)
  have hof : ∀ {ε α : Type} {c : PagesCall ε α}, AllSettle c pages → AllExact (c pages).2 :=
    fun h => h.state (fun _ _ hpost => hpost) fun _ _ hpost => hpost
  have hone : ∀ {ε α : Type} {p : ℕ} {c : PageCall ε α}, Settles c (pages p) →
      AllExact (onPage p c pages).2 := fun h => hof (h.onPage hall)
  have hlasting : ∀ {ε α : Type} {p : ℕ} {c : PageCall ε α}, HaveEpochs [p] pages →
      (Exact (pages p) → Lasting (pages p) → Settles c (pages p)) → AllExact (onPage p c pages).2 :=
    fun h hc => hone (hc (hall _) (h _ mem_cons_self))
  cases command with
  | nativeStore p => exact hone (restores_nativeStore (hall p))
  | prepareWrite p => exact hone (restores_requireCpuAuthority (hall p)).settles
  | prepareCpuWrite => exact hlasting hepochs restores_prepareCpuWriteLocked
  | cpuAccessWrite => exact hof (restores_cpuAccessWrite hepochs hall)
  | writeHostScalar p =>
    exact hlasting hepochs fun hexact hepoch =>
      restores_whenVisible hexact (restores_writeHostScalar hexact hepoch)
  | writePreflighted => exact hlasting hepochs restores_writePreflighted
  | writeFragmentPreflighted => exact hlasting hepochs restores_writeFragmentPreflighted
  | writeAllocation => exact hof (restores_writeAllocation hepochs hall)
  | tryAtomicCompareExchange => exact hlasting hepochs restores_tryAtomicCompareExchange
  | enableExclusiveAccess p => exact hone (restores_enableExclusiveAccess (hall p)).settles
  | exclusiveLoad p => exact hone (restores_exclusiveLoad (hall p))
  | tryExclusiveStore => exact hlasting hepochs restores_tryExclusiveStore
  | registerDirectAlias => exact hone restores_registerDirectAlias
  | unregisterDirectAlias p => exact hone (restores_unregisterDirectAlias (hall p))
  | beginReadback p => exact hone (restores_beginReadback (hall p))
  | finishReadback => exact hlasting hepochs restores_finishReadback
  | attachResidentDeviceOwner p => exact hone (restores_attachResidentDeviceOwner (hall p))
  | observeCpuPages =>
    exact (restores_armCpuPageStates hall).state (fun _ _ hpost => hpost.1) fun _ _ hpost => hpost
  | protectedRead => exact hof (restores_protectedRead hall)
  | tryWriteHostRegions => exact hof (restores_tryWriteHostRegions hepochs hall)
  | commit => exact hof (restores_commitInner hnodup hall)
  | prepareDeviceInputs => exact hof (restores_prepareDeviceInputs hnodup hepochs hall)
  | publishDevicePages => exact hof (restores_publishDevicePages hnodup hepochs hall)
  | invalidateDevicePages => exact hof (restores_invalidateDevicePages hnodup hall)

theorem exact_start {bytes : ℕ → List UInt8} {generation : ℕ → ℕ} :
    AllExact (start bytes generation) := fun _ _ ha => absurd ha not_mem_nil

/-- **Native access is covered by tracking**: in every run whose calls are granted by the host and
find no page with its epochs used up, the protection in force is within its bounds after every
call. -/
theorem native_access_covered (bytes : ℕ → List UInt8) (generation : ℕ → ℕ)
    (cs : List (Host × Command))
    (hadmissible : machine.Guarded Admissible (start bytes generation) cs) (p : ℕ) :
    Covered (machine.run (start bytes generation) cs p) :=
  (run_invariant (fun _ _ => run_exact) cs _ exact_start hadmissible p).covered

/-! ### A page whose epochs are used up -/

/-- A host that grants every request. -/
def granting : Host := ⟨fun _ => true, fun _ _ => true, true⟩

def bytePages : Pages := start (fun _ => [0]) fun _ => 0

def mapWritable : Host × Command := (granting, .registerDirectAlias 0 0 0 .readWrite)

def deviceReads : Host × Command :=
  (granting, .prepareDeviceInputs (fun _ => true) (fun _ => false) (fun _ => true) [0])

def guestWrites : Host × Command := (granting, .prepareCpuWrite 0)

/-- Page `0` after `n` rounds of device reads and guest writes. -/
def written (n : ℕ) : CanonicalPageState where
  visibility := .cpuNewer
  visibilityEpoch := 2 * n
  cpuDirtyObserverArmed := false
  cpuDirtyEpoch := n
  contentGeneration := 0
  directAliases := [⟨0, 0, .readWrite, .readWrite⟩]
  bytes := [0]
  reservations := none
  stores := []

/-- The same page after one more device read. -/
def observed (n : ℕ) : CanonicalPageState where
  visibility := .clean
  visibilityEpoch := 2 * n + 1
  cpuDirtyObserverArmed := true
  cpuDirtyEpoch := n
  contentGeneration := 0
  directAliases := [⟨0, 0, .readWrite, .read⟩]
  bytes := [0]
  reservations := none
  stores := []

attribute [local simp] machine granting Command.run left onPage forEach Call.handle Call.mapErr
  CanonicalPageState.protect allowed PageVisibility.cpuVisible setVisibility
  CanonicalPageState.leaving observed written guestWrites prepareCpuWriteLocked requireCpuAuthority
  takeFromClean publishVisibility PageVisibility.gpuOwned publishDirectAliasProtectionFor
  publishDirectAliases

theorem deviceReads_written (hpage : pages 0 = written n) (hn : 2 * n < u64Max) :
    (machine.step pages deviceReads).2 0 = observed n := by
  have hadd : checkedAdd (2 * n) 1 = some (2 * n + 1) := checkedAdd_eq_some.2 ⟨rfl, hn⟩
  have hne : 2 * n ≠ u64Max := hn.ne
  simp [deviceReads, prepareDeviceInputs, prepareAdmitted, hpage, hne, armCpuPageStates, usable,
    cpuVisibleLocked, protectAll, armAll, protectArmed, prepareInput, hadd]

theorem guestWrites_observed (hpage : pages 0 = observed n) (hn : 2 * n + 1 < u64Max) :
    (machine.step pages guestWrites).2 0 = written (n + 1) := by
  have hadd : checkedAdd (2 * n + 1) 1 = some (2 * (n + 1)) := checkedAdd_eq_some.2 ⟨rfl, hn⟩
  have hdirty : checkedAdd n 1 = some (n + 1) := checkedAdd_eq_some.2 ⟨rfl, by omega⟩
  simp [hpage, hadd, publishCpuDirty, advanceCpuDirtyEpoch, hdirty, publishDirectAliasProtection]

theorem guestWrites_exhausted (hpage : pages 0 = observed n) (hn : 2 * n + 1 = u64Max) :
    (machine.step pages guestWrites).2 0 = { observed n with visibility := .invalid } := by
  have hadd : checkedAdd (2 * n + 1) 1 = none := checkedAdd_eq_none.2 (by omega)
  simp [hpage, hadd]

theorem rounds_granted : ∀ c ∈ [mapWritable, deviceReads, guestWrites], Granted c := by
  intro c hc
  simp only [mem_cons, not_mem_nil, or_false] at hc
  rcases hc with rfl | rfl | rfl <;> exact ⟨fun _ => rfl, fun _ _ => rfl, nodup_singleton 0⟩

/-- A page with a writable alias is read by a device and written again. -/
theorem native_access_covered_rewritten :
    machine.run bytePages [mapWritable, deviceReads, guestWrites] 0 = written 1 ∧
      Covered (machine.run bytePages [mapWritable, deviceReads, guestWrites] 0) := by
  have hepochs : ∀ pages, (pages 0).visibilityEpoch ≤ 1 → HaveEpochs [0] pages := by
    intro pages hle p hp
    rw [mem_singleton.1 hp]
    exact hle.trans_lt (by decide)
  refine ⟨by decide +kernel, native_access_covered _ _ _ ?_ 0⟩
  refine ⟨?_, ?_, ?_, trivial⟩
  all_goals exact ⟨rounds_granted _ (by simp), hepochs _ (by decide +kernel)⟩

/-- The rounds, by induction on their number. -/
theorem rounds_written : ∀ (n : ℕ), 2 * n < u64Max →
    machine.run bytePages (mapWritable :: (replicate n [deviceReads, guestWrites]).flatten) 0 =
      written n
  | 0, _ => rfl
  | n + 1, hn => by
    have hround := rounds_written n (by omega)
    rw [replicate_succ', flatten_append, ← cons_append, run_append]
    exact guestWrites_observed (deviceReads_written hround (by omega)) (by omega)

/-- **A page that is invalid and open to native reads.**  The guest's write finds the page clean
with its last epoch used up: the aliases are published for the CPU, and only then is the page
given up. -/
theorem exhausted_page_readable : ∃ cs : List (Host × Command), (∀ c ∈ cs, Granted c) ∧
      (machine.run bytePages cs 0).visibility = .invalid ∧
      ∃ a ∈ (machine.run bytePages cs 0).directAliases, a.protection = .read := by
  obtain ⟨n, hlimit⟩ : ∃ n, 2 * n + 1 = u64Max := ⟨2 ^ 63 - 1, by decide +kernel⟩
  refine ⟨mapWritable :: (replicate n [deviceReads, guestWrites]).flatten ++
    [deviceReads, guestWrites], ?_, ?_⟩
  · intro c hc
    refine rounds_granted c ?_
    simp only [cons_append, mem_cons, mem_append, mem_flatten,
      mem_replicate, not_mem_nil, or_false] at hc ⊢
    rcases hc with rfl | ⟨l, ⟨-, rfl⟩, hl⟩ | hc
    · exact .inl rfl
    · simp only [mem_cons, not_mem_nil, or_false] at hl
      exact .inr hl
    · exact .inr hc
  · have hwritten := rounds_written n (by omega)
    have hlast := guestWrites_exhausted (deviceReads_written hwritten (by omega)) hlimit
    rw [run_append, run_cons, run_cons, run_nil, hlast]
    exact ⟨rfl, _, mem_singleton_self _, rfl⟩

end Nixe.CanonicalPages
