/-
**What one operation can do.**

Every property of the runs rests on a few facts about a single operation, whoever performs
it: a page is changed by the holder of its mutex only, an owner record stays fractured and
then keeps its point, the subscriptions of a page only grow, a summary only counts up.
-/
import Nixe.PageCalls

set_option autoImplicit false

namespace Nixe.Memory

open Option
open Function (comp_apply)

variable {i r p o n : ℕ} {op : Op} {s s' : Shared} {answer : Resp op} {owner : RangeDeviceOwner}

/-! ### Lemmas about the pieces of an operation -/

theorem acquire_eq_some {lock taken : Option ℕ} :
    acquire lock i = some taken ↔ lock = none ∧ taken = some i := by
  cases lock <;> simp [acquire, eq_comm]

theorem setPage_pages (p q : ℕ) (page : Page) :
    (s.setPage p page).pages q = if q = p then page else s.pages q := by
  simp [Shared.setPage, Function.update_apply]

theorem setLayout_layouts (r q : ℕ) (layout : Layout) :
    (s.setLayout r layout).layouts q = if q = r then layout else s.layouts q := by
  simp [Shared.setLayout, Function.update_apply]

/-- The record of a locked layout: what an operation on it does. -/
theorem LayoutAct.run_cases {change : LayoutAct} (h : (change.run s r).map Prod.snd = some s') :
    s' = s ∨ (∃ o, change = .setOwner o ∧ s' = s.setLayout r { s.layouts r with owner := some o }) ∨
      ∃ declaration o owner advanced, change = .advance declaration ∧
        (s.layouts r).owner = some o ∧ s.owner? o = some owner ∧
        owner.advance declaration = some advanced ∧ s' = s.setOwner o advanced := by
  cases change with
  | setOwner o => exact .inr (.inl ⟨o, rfl, (some.inj h).symm⟩)
  | point | fractured =>
    simp only [LayoutAct.run] at h
    split at h
    · exact .inl (some.inj h).symm
    · simp only [map_map, map_eq_some_iff, comp_apply] at h
      obtain ⟨_, _, rfl⟩ := h
      exact .inl rfl
  | advance declaration =>
    simp only [LayoutAct.run] at h
    split at h
    · exact .inl (some.inj h).symm
    · rename_i o howner
      simp only [map_map, map_eq_some_iff, comp_apply] at h
      obtain ⟨owner, hrecord, h⟩ := h
      split at h
      · exact .inl h.symm
      · rename_i advanced hadvance
        exact .inr (.inr ⟨declaration, o, owner, advanced, rfl, howner, hrecord, hadvance, h.symm⟩)

/-- The state an operation leaves, without its answer. -/
def after (i : ℕ) (op : Op) (s : Shared) : Option Shared := (exec i op s).map Prod.snd

theorem after_of_exec (h : exec i op s = some (answer, s')) : after i op s = some s' := by
  rw [after, h]
  rfl

/-- What an operation of thread `i` can change, and under which condition. -/
inductive Effect (i : ℕ) (s : Shared) : Op → Shared → Prop
  | same {op : Op} : Effect i s op s
  | lockPage {p : ℕ} : (s.pages p).lock = none →
      Effect i s (.lockPage p) (s.setPage p { s.pages p with lock := some i })
  | unlockPage {p : ℕ} : (s.pages p).lock = some i →
      Effect i s (.unlockPage p) (s.setPage p { s.pages p with lock := none })
  | page {p : ℕ} {change : PageAct} : (s.pages p).lock = some i →
      Effect i s (.page p change) (s.setPage p (change.run (s.pages p)).2)
  | bump {p n : ℕ} : (s.pages p).lock = some i →
      Effect i s (.bump p n) { s with counters := s.counters.modify n saturatingSucc }
  | newOwner {device point : ℕ} :
      Effect i s (.newOwner device point) { s with owners := s.owners ++ [⟨device, point, false⟩] }
  | detach {o : ℕ} {op : Op} {owner : RangeDeviceOwner} : s.owner? o = some owner →
      Effect i s op (s.setOwner o { owner with fractured := true })
  | advance {r o : ℕ} {declaration : DeviceAccessDeclaration} {owner advanced : RangeDeviceOwner} :
      (s.layouts r).lock = some i → (s.layouts r).owner = some o → s.owner? o = some owner →
      owner.advance declaration = some advanced →
      Effect i s (.layout r (.advance declaration)) (s.setOwner o advanced)
  | setOwner {r o : ℕ} : (s.layouts r).lock = some i →
      Effect i s (.layout r (.setOwner o)) (s.setLayout r { s.layouts r with owner := some o })
  | layoutLock {r : ℕ} {op : Op} {lock : Option ℕ} :
      Effect i s op (s.setLayout r { s.layouts r with lock := lock })
  | beginSummary {r : ℕ} {op : Op} : (s.layouts r).summary = none →
      Effect i s op (s.setLayout r { s.layouts r with initialising := some i })
  | finishSummary {r n : ℕ} : (s.layouts r).initialising = some i →
      Effect i s (.finishSummary r n)
        (s.setLayout r { s.layouts r with initialising := none, summary := some n })
  | storeCleanEpoch {r epoch : ℕ} :
      Effect i s (.storeCleanEpoch r epoch)
        (s.setLayout r { s.layouts r with cleanReadEpoch := epoch })
  | internerLock {op : Op} {lock : Option ℕ} : Effect i s op { s with internerLock := lock }
  | newSummary : Effect i s .newSummary { s with counters := s.counters ++ [0] }
  | insertSummary {covered : List ℕ} {n : ℕ} :
      Effect i s (.insertSummary covered n) { s with interner := (covered, n) :: s.interner }
  | answered {op : Op} : Effect i s op s.answered

/-- An operation that its guard lets through. -/
theorem of_guarded {α : Type} {c : Prop} [Decidable c] {x : α × Shared}
    (h : (if c then some x else none).map Prod.snd = some s') : c ∧ x.2 = s' := by
  split at h
  · exact ⟨‹_›, some.inj h⟩
  · cases h

/-- An operation that depends on something being there. -/
theorem of_mapped {α β : Type} {x : Option α} {f : α → β × Shared}
    (h : (x.map f).map Prod.snd = some s') : ∃ a, x = some a ∧ (f a).2 = s' := by
  simpa only [map_map, map_eq_some_iff, comp_apply] using h

theorem effect_layout {change : LayoutAct} (h : after i (.layout r change) s = some s') :
    Effect i s (.layout r change) s' := by
  simp only [after, exec] at h
  by_cases hheld : (s.layouts r).lock = some i
  · rw [if_pos hheld] at h
    rcases LayoutAct.run_cases h with rfl | ⟨o, rfl, rfl⟩ |
      ⟨declaration, o, owner, advanced, rfl, howner, hrecord, hadvance, rfl⟩
    · exact .same
    · exact .setOwner hheld
    · exact .advance hheld howner hrecord hadvance
  · rw [if_neg hheld] at h
    cases h

theorem effect_detachAt {o expected : ℕ} (h : after i (.detachAt o expected) s = some s') :
    Effect i s (.detachAt o expected) s' := by
  obtain ⟨owner, hrecord, h⟩ := of_mapped h
  split at h
  · cases h
    exact .detach hrecord
  · cases h
    exact .same

theorem effect_beginSummary (h : after i (.beginSummary r) s = some s') :
    Effect i s (.beginSummary r) s' := by
  simp only [after, exec] at h
  split at h
  · cases h
    exact .same
  · rename_i hnone
    obtain ⟨_, hfree, rfl⟩ := of_mapped h
    obtain ⟨-, rfl⟩ := acquire_eq_some.1 hfree
    exact .beginSummary hnone

/-- **Every operation has one of the effects.** -/
theorem effect_of_after (h : after i op s = some s') : Effect i s op s' := by
  cases op with
  | lockPage =>
    obtain ⟨_, hacquired, rfl⟩ := of_mapped h
    obtain ⟨hfree, rfl⟩ := acquire_eq_some.1 hacquired
    exact .lockPage hfree
  | lockLayout =>
    obtain ⟨_, -, rfl⟩ := of_mapped h
    exact .layoutLock
  | lockInterner =>
    obtain ⟨_, -, rfl⟩ := of_mapped h
    exact .internerLock
  | unlockPage =>
    obtain ⟨hheld, rfl⟩ := of_guarded h
    exact .unlockPage hheld
  | page =>
    obtain ⟨hheld, rfl⟩ := of_guarded h
    exact .page hheld
  | bump =>
    obtain ⟨hheld, rfl⟩ := of_guarded h
    exact .bump hheld
  | unlockLayout =>
    obtain ⟨-, rfl⟩ := of_guarded h
    exact .layoutLock
  | finishSummary =>
    obtain ⟨hheld, rfl⟩ := of_guarded h
    exact .finishSummary hheld
  | unlockInterner =>
    obtain ⟨-, rfl⟩ := of_guarded h
    exact .internerLock
  | findSummary =>
    obtain ⟨-, rfl⟩ := of_guarded h
    exact .same
  | insertSummary =>
    obtain ⟨-, rfl⟩ := of_guarded h
    exact .insertSummary
  | layout => exact effect_layout h
  | detachAt => exact effect_detachAt h
  | beginSummary => exact effect_beginSummary h
  | detach =>
    obtain ⟨_, hrecord, rfl⟩ := of_mapped h
    exact .detach hrecord
  | ownerPoint | loadSummary =>
    obtain ⟨_, -, rfl⟩ := of_mapped h
    exact .same
  | newOwner => cases h; exact .newOwner
  | storeCleanEpoch => cases h; exact .storeCleanEpoch
  | newSummary => cases h; exact .newSummary
  | hostFails | writeback => cases h; exact .answered
  | loadHint | loadCleanEpoch | mark => cases h; exact .same

theorem effect_of_exec (h : exec i op s = some (answer, s')) : Effect i s op s' :=
  effect_of_after (after_of_exec h)

/-! ### Pages -/

/-- **What an operation does to a page.** -/
theorem Effect.page_cases (h : Effect i s op s') (p : ℕ) : s'.pages p = s.pages p ∨
      (op = .lockPage p ∧ (s.pages p).lock = none ∧
        s'.pages p = { s.pages p with lock := some i }) ∨
      (op = .unlockPage p ∧ (s.pages p).lock = some i ∧
        s'.pages p = { s.pages p with lock := none }) ∨
      ∃ change, op = .page p change ∧ (s.pages p).lock = some i ∧
        s'.pages p = (change.run (s.pages p)).2 := by
  cases h with
  | @lockPage q hfree =>
    by_cases hp : p = q
    · subst hp
      exact .inr (.inl ⟨rfl, hfree, by rw [setPage_pages, if_pos rfl]⟩)
    · exact .inl (by rw [setPage_pages, if_neg hp])
  | @unlockPage q hheld =>
    by_cases hp : p = q
    · subst hp
      exact .inr (.inr (.inl ⟨rfl, hheld, by rw [setPage_pages, if_pos rfl]⟩))
    · exact .inl (by rw [setPage_pages, if_neg hp])
  | @page q change hheld =>
    by_cases hp : p = q
    · subst hp
      exact .inr (.inr (.inr ⟨change, rfl, hheld, by rw [setPage_pages, if_pos rfl]⟩))
    · exact .inl (by rw [setPage_pages, if_neg hp])
  | _ => exact .inl rfl

/-- A page that another thread has locked stays as it is. -/
theorem Effect.page_of_locked (h : Effect i s op s') {j : ℕ} (hlock : (s.pages p).lock = some j)
    (hne : i ≠ j) : s'.pages p = s.pages p := by
  rcases h.page_cases p with hsame | ⟨-, hfree, -⟩ | ⟨-, hheld, -⟩ | ⟨_, -, hheld, -⟩
  · exact hsame
  · rw [hlock] at hfree
    cases hfree
  · rw [hlock] at hheld
    exact absurd (some.inj hheld).symm hne
  · rw [hlock] at hheld
    exact absurd (some.inj hheld).symm hne

/-- An operation on something else leaves a page as it is. -/
theorem Effect.page_untouched (h : Effect i s op s') (hlock : op ≠ .lockPage p)
    (hunlock : op ≠ .unlockPage p) (hchange : ∀ change, op ≠ .page p change) :
    s'.pages p = s.pages p := by
  rcases h.page_cases p with hsame | ⟨hop, -⟩ | ⟨hop, -⟩ | ⟨change, hop, -⟩
  · exact hsame
  · exact absurd hop hlock
  · exact absurd hop hunlock
  · exact absurd hop (hchange change)

/-- Only a transition of the page changes its visibility or its epoch. -/
theorem Effect.visibility_same (h : Effect i s op s')
    (hop : ∀ visibility epoch, op ≠ .page p (.setVisibility visibility epoch)) :
    (s'.pages p).visibility = (s.pages p).visibility ∧
      (s'.pages p).visibilityEpoch = (s.pages p).visibilityEpoch := by
  rcases h.page_cases p with hsame | ⟨-, -, hpage⟩ | ⟨-, -, hpage⟩ | ⟨change, rfl, -, hpage⟩
  · rw [hsame]
    exact ⟨rfl, rfl⟩
  · rw [hpage]
    exact ⟨rfl, rfl⟩
  · rw [hpage]
    exact ⟨rfl, rfl⟩
  · rw [hpage]
    cases change with
    | setVisibility visibility epoch => exact absurd rfl (hop visibility epoch)
    | _ => exact ⟨rfl, rfl⟩

theorem Effect.summaries_subset (h : Effect i s op s') :
    (s.pages p).summaries ⊆ (s'.pages p).summaries := by
  rcases h.page_cases p with hsame | ⟨-, -, hpage⟩ | ⟨-, -, hpage⟩ | ⟨change, rfl, -, hpage⟩
  · rw [hsame]
    exact .refl _
  · rw [hpage]
    exact .refl _
  · rw [hpage]
    exact .refl _
  · rw [hpage]
    cases change with
    | subscribe => exact List.subset_append_left _ _
    | _ => exact .refl _

/-! ### Owner records -/

/-- The owner record is fractured: it can no longer be advanced. -/
def Fractured (s : Shared) (o : ℕ) : Prop :=
  ∃ owner, s.owner? o = some owner ∧ owner.fractured = true

theorem setOwner_owner? {q : ℕ} {record : RangeDeviceOwner} (hrecord : s.owner? o = some record) :
    (s.setOwner o owner).owner? q = if q = o then some owner else s.owner? q := by
  have hlt : o < s.owners.length := (getElem?_eq_some_iff.1 hrecord).1
  simp only [Shared.owner?, Shared.setOwner, List.getElem?_set, hlt, if_true]
  grind

theorem RangeDeviceOwner.advance_eq_some {advanced : RangeDeviceOwner}
    {declaration : DeviceAccessDeclaration} (h : owner.advance declaration = some advanced) :
    owner.fractured = false ∧ owner.point < advanced.point ∧ advanced.device = owner.device ∧
      declaration.device = owner.device ∧ declaration.cpuVisibleAt = some advanced.point := by
  unfold RangeDeviceOwner.advance at h
  split at h
  · cases h
  · rename_i point hpoint
    split at h
    · cases h
    · rename_i hcond
      simp only [not_or, not_not, not_le, Bool.not_eq_true] at hcond
      cases h
      exact ⟨hcond.1, hcond.2.2, rfl, hcond.2.1.symm, hpoint⟩

/-- **An owner record** keeps its device, its point only grows, and a fractured one stays as
it is. -/
theorem Effect.owner_mono (h : Effect i s op s') (howner : s.owner? o = some owner) :
    ∃ owner', s'.owner? o = some owner' ∧ owner.point ≤ owner'.point ∧
      (owner.fractured = true → owner' = owner) ∧ owner'.device = owner.device := by
  cases h with
  | newOwner =>
    refine ⟨owner, ?_, le_rfl, fun _ => rfl, rfl⟩
    have hlt : o < s.owners.length := (getElem?_eq_some_iff.1 howner).1
    simp only [Shared.owner?, List.getElem?_append_left hlt]
    exact howner
  | @detach q _ record hrecord =>
    rw [setOwner_owner? hrecord]
    by_cases ho : o = q
    · subst ho
      rw [howner] at hrecord
      cases hrecord
      exact ⟨_, if_pos rfl, le_rfl, fun hfractured => by rw [← hfractured], rfl⟩
    · exact ⟨owner, by rw [if_neg ho]; exact howner, le_rfl, fun _ => rfl, rfl⟩
  | @advance r q declaration record advanced _ _ hrecord hadvance =>
    rw [setOwner_owner? hrecord]
    by_cases ho : o = q
    · subst ho
      rw [howner] at hrecord
      cases hrecord
      obtain ⟨hwhole, hlt, hdevice, -, -⟩ := RangeDeviceOwner.advance_eq_some hadvance
      refine ⟨_, if_pos rfl, hlt.le, fun hfractured => ?_, hdevice⟩
      rw [hwhole] at hfractured
      cases hfractured
    · exact ⟨owner, by rw [if_neg ho]; exact howner, le_rfl, fun _ => rfl, rfl⟩
  | _ => exact ⟨owner, howner, le_rfl, fun _ => rfl, rfl⟩

/-- **Where an owner record comes from**: it was there, it is new, or it was advanced. -/
theorem Effect.owner_origin (h : Effect i s op s') {owner' : RangeDeviceOwner}
    (howner' : s'.owner? o = some owner') :
    (∃ owner, s.owner? o = some owner ∧ owner'.device = owner.device ∧ owner'.point = owner.point) ∨
    (op = .newOwner owner'.device owner'.point) ∨
    ∃ r declaration, op = .layout r (.advance declaration) ∧
      declaration.device = owner'.device ∧ declaration.cpuVisibleAt = some owner'.point := by
  cases h with
  | newOwner =>
    simp only [Shared.owner?, List.getElem?_append] at howner'
    split at howner'
    · exact .inl ⟨owner', howner', rfl, rfl⟩
    · rw [List.getElem?_singleton] at howner'
      split at howner' <;> cases howner'
      exact .inr (.inl rfl)
  | @detach q _ record hrecord =>
    rw [setOwner_owner? hrecord] at howner'
    split at howner'
    · rename_i ho
      subst ho
      cases howner'
      exact .inl ⟨record, hrecord, rfl, rfl⟩
    · exact .inl ⟨owner', howner', rfl, rfl⟩
  | @advance r q declaration record advanced _ _ hrecord hadvance =>
    rw [setOwner_owner? hrecord] at howner'
    split at howner'
    · cases howner'
      obtain ⟨-, -, hsame, hdevice, hpoint⟩ := RangeDeviceOwner.advance_eq_some hadvance
      exact .inr (.inr ⟨r, declaration, rfl, hdevice.trans hsame.symm, hpoint⟩)
    · exact .inl ⟨owner', howner', rfl, rfl⟩
  | _ => exact .inl ⟨owner', howner', rfl, rfl⟩

theorem Effect.fractured_mono (h : Effect i s op s') (hfractured : Fractured s o) :
    Fractured s' o := by
  obtain ⟨owner, howner, hset⟩ := hfractured
  obtain ⟨owner', howner', -, hkept, -⟩ := h.owner_mono howner
  exact ⟨owner', howner', by rw [hkept hset]; exact hset⟩

/-! ### Summaries and layouts -/

def count (s : Shared) (n : ℕ) : ℕ := s.counters.getD n 0

theorem le_saturatingSucc : n ≤ saturatingSucc n := by
  unfold saturatingSucc
  split <;> omega

theorem Effect.count_mono (h : Effect i s op s') : count s n ≤ count s' n := by
  cases h with
  | @bump p m _ =>
    simp only [count, List.getD_eq_getElem?_getD, List.getElem?_modify]
    cases hn : s.counters[n]? with
    | none => simp
    | some =>
      split
      · exact le_saturatingSucc
      · exact le_rfl
  | newSummary =>
    simp only [count, List.getD_eq_getElem?_getD]
    by_cases hlt : n < s.counters.length
    · rw [List.getElem?_append_left hlt]
    · rw [List.getElem?_eq_none (by omega)]
      exact Nat.zero_le _
  | _ => exact le_rfl

theorem Effect.counters_mono (h : Effect i s op s') : s.counters.length ≤ s'.counters.length := by
  cases h with
  | bump => simp
  | newSummary => simp
  | _ => exact le_rfl

theorem saturatingSucc_le (h : n ≤ u64Max) : saturatingSucc n ≤ u64Max := by
  unfold saturatingSucc
  split <;> omega

theorem Effect.count_le (h : Effect i s op s') (hle : count s n ≤ u64Max) :
    count s' n ≤ u64Max := by
  cases h with
  | @bump p m _ =>
    simp only [count, List.getD_eq_getElem?_getD, List.getElem?_modify] at hle ⊢
    cases hn : s.counters[n]? with
    | none => simp
    | some =>
      simp only [hn, getD_some] at hle ⊢
      split
      · exact saturatingSucc_le hle
      · exact hle
  | newSummary =>
    simp only [count, List.getD_eq_getElem?_getD] at hle ⊢
    by_cases hlt : n < s.counters.length
    · rw [List.getElem?_append_left hlt]
      exact hle
    · rw [List.getElem?_append_right (by omega)]
      cases hzero : [0][n - s.counters.length]? with
      | none => simp
      | some =>
        have hmem := List.mem_of_getElem? hzero
        simp only [List.mem_singleton] at hmem
        simp [hmem]
  | _ => exact hle

/-- A subscribed summary moves when it is bumped below its limit. -/
theorem count_bump {v : ℕ} (h : exec i (.bump p n) s = some ((), s'))
    (hv : s.counters[n]? = some v) (hlt : v < u64Max) : count s' n = v + 1 := by
  simp only [exec] at h
  split at h
  · cases h
    simp [count, hv, saturatingSucc, hlt]
  · cases h

/-- Only the installation of an owner changes the owner of a layout. -/
theorem Effect.layout_owner (h : Effect i s op s') (howner : (s'.layouts r).owner = some o) :
    (s.layouts r).owner = some o ∨ op = .layout r (.setOwner o) := by
  cases h with
  | @setOwner q u _ =>
    by_cases hr : r = q
    · subst hr
      rw [setLayout_layouts, if_pos rfl] at howner
      cases howner
      exact .inr rfl
    · rw [setLayout_layouts, if_neg hr] at howner
      exact .inl howner
  | @layoutLock q | @beginSummary q | @finishSummary q | @storeCleanEpoch q =>
    rw [setLayout_layouts] at howner
    split at howner <;> grind
  | _ => exact .inl howner

/-- Only the end of its initialisation changes the summary of a layout. -/
theorem Effect.layout_summary (h : Effect i s op s') (hsummary : (s'.layouts r).summary = some n) :
    (s.layouts r).summary = some n ∨ op = .finishSummary r n := by
  cases h with
  | @finishSummary q m =>
    by_cases hr : r = q
    · subst hr
      rw [setLayout_layouts, if_pos rfl] at hsummary
      cases hsummary
      exact .inr rfl
    · rw [setLayout_layouts, if_neg hr] at hsummary
      exact .inl hsummary
  | @layoutLock q | @beginSummary q | @setOwner q | @storeCleanEpoch q =>
    rw [setLayout_layouts] at hsummary
    split at hsummary <;> grind
  | _ => exact .inl hsummary

/-- The summary of a layout is set once, because only an open once-cell can be set. -/
theorem Effect.once (h : Effect i s op s')
    (hopen : (s.layouts r).initialising ≠ none → (s.layouts r).summary = none) :
    ((s'.layouts r).initialising ≠ none → (s'.layouts r).summary = none) ∧
      ∀ n, (s.layouts r).summary = some n → (s'.layouts r).summary = some n := by
  cases h with
  | @beginSummary q _ hnone =>
    rw [setLayout_layouts]
    split
    · rename_i hr
      subst hr
      exact ⟨fun _ => hnone, fun n hn => hn⟩
    · exact ⟨hopen, fun n hn => hn⟩
  | @finishSummary q m hheld =>
    rw [setLayout_layouts]
    split
    · rename_i hr
      subst hr
      have hnone := hopen (by rw [hheld]; simp)
      exact ⟨(absurd rfl), fun n hn => by rw [hnone] at hn; cases hn⟩
    · exact ⟨hopen, fun n hn => hn⟩
  | @layoutLock q | @setOwner q | @storeCleanEpoch q =>
    rw [setLayout_layouts]
    split <;> grind
  | _ => exact ⟨hopen, fun n hn => hn⟩

/-- Only an insertion adds an entry to the interner. -/
theorem Effect.interner_cases (h : Effect i s op s') {entry : List ℕ × ℕ}
    (hentry : entry ∈ s'.interner) :
    entry ∈ s.interner ∨ op = .insertSummary entry.1 entry.2 := by
  cases h with
  | @insertSummary covered n =>
    rcases List.mem_cons.1 hentry with rfl | hold
    · exact .inr rfl
    · exact .inl hold
  | _ => exact .inl hentry

/-- Only its store changes the cached epoch of a layout. -/
theorem Effect.clean_epoch (h : Effect i s op s') :
    (s'.layouts r).cleanReadEpoch = (s.layouts r).cleanReadEpoch ∨
      op = .storeCleanEpoch r (s'.layouts r).cleanReadEpoch := by
  cases h with
  | @storeCleanEpoch q epoch =>
    by_cases hr : r = q
    · subst hr
      exact .inr (by rw [setLayout_layouts, if_pos rfl])
    · exact .inl (by rw [setLayout_layouts, if_neg hr])
  | @layoutLock q | @beginSummary q | @setOwner q | @finishSummary q =>
    rw [setLayout_layouts]
    split <;> grind
  | _ => exact .inl rfl

end Nixe.Memory
