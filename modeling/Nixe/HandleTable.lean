/-
**Handles are allocated lowest first.**

A handle that is closed goes into a set of recycled handles, from which the least is taken first; a
handle that was never used is taken only when the set is empty.  This is the least free handle
because the live and the recycled handles together are those below the mark `next_handle`.

`transfer_to` checks beforehand what `insert_object` is about to check, and so its `expect` holds.
Objects are elements of an arbitrary type, whose equality is `same_identity`.

Main definitions:

* `HandleTable`, `insertObject`, `duplicate`, `close`, `transferTo` — the table and its calls;
* `machine` — the tables of any number of processes;
* `Inv` — live and recycled handles partition the handles below the mark.

Main results:

* `handles_lowest_first` — **in every run** an allocated handle is the least free one, and a
  transfer moves an object or changes nothing.
-/
import Nixe.Call
import Nixe.Machine

set_option autoImplicit false

namespace Nixe.Handle

open Std (TreeMap TreeSet)
open Call (read update failIf okOr)
open Function Std.TreeMap

/-! ### The table -/

def firstHandle : ℕ := 1

def lastHandle : ℕ := 0x7fffffff

/-- The errors of the calls below. -/
inductive HandleError where
  | exhausted
  | invalidHandle (handle : ℕ)
deriving DecidableEq, Repr

structure HandleTable (α : Type) where
  objects : TreeMap ℕ α
  recycled : TreeSet ℕ
  nextHandle : ℕ
  capacityLimit : ℕ
  /-- The event `changed` is signalled. -/
  changed : Bool

variable {α : Type} {limit handle : ℕ} {t : HandleTable α}

/-- `with_capacity_limit`; `new` is the case of the limit `LAST_HANDLE - FIRST_HANDLE + 1`. -/
def HandleTable.withCapacityLimit (capacityLimit : ℕ) : HandleTable α where
  objects := ∅
  recycled := ∅
  nextHandle := firstHandle
  capacityLimit
  changed := false

abbrev TableCall (α β : Type) : Type := Call (HandleTable α) HandleError β

/-- The choice of the handle in `insert_object`. -/
def takeHandle : TableCall α ℕ := do
  let table ← read
  match table.recycled.min? with
  | some handle =>
    update fun table => { table with recycled := table.recycled.erase handle }
    return handle
  | none =>
    failIf (lastHandle < table.nextHandle) .exhausted
    -- `saturating_add` on a `u32`
    update fun table => { table with nextHandle := min (table.nextHandle + 1) (2 ^ 32 - 1) }
    return table.nextHandle

def insertObject (object : α) : TableCall α ℕ := do
  let table ← read
  failIf (table.capacityLimit ≤ table.objects.size) .exhausted
  let handle ← takeHandle
  update fun table => { table with objects := table.objects.insert handle object, changed := true }
  return handle

def duplicate (handle : ℕ) : TableCall α ℕ := do
  let object ← okOr (← read).objects[handle]? (.invalidHandle handle)
  insertObject object

def close (handle : ℕ) : TableCall α α := do
  let object ← okOr (← read).objects[handle]? (.invalidHandle handle)
  update fun table =>
    { table with objects := table.objects.erase handle, recycled := table.recycled.insert handle,
                 changed := true }
  return object

/-- `transfer_to`, with the two tables that it leaves behind. -/
def transferTo (source destination : HandleTable α) (handle : ℕ) :
    Outcome HandleError ℕ × HandleTable α × HandleTable α :=
  if !source.objects.contains handle then (.err (.invalidHandle handle), source, destination)
  else if destination.capacityLimit ≤ destination.objects.size ||
      (lastHandle < destination.nextHandle && destination.recycled.isEmpty) then
    (.err .exhausted, source, destination)
  else match close handle source with
    | (.ok object, source') =>
      match insertObject object destination with
      | (.ok inserted, destination') => (.ok inserted, source', destination')
      | (.err _, destination') =>
        (.panic "destination capacity and numeric handle were reserved before source removal",
          source', destination')
      | (.panic message, destination') => (.panic message, source', destination')
    | (.err error, source') => (.err error, source', destination)
    | (.panic message, source') => (.panic message, source', destination)

/-! ### The tables of the processes -/

/-- The two tables of a transfer are different ones. -/
inductive Command (α : Type) where
  | insert (table : ℕ) (object : α)
  | duplicate (table handle : ℕ)
  | close (table handle : ℕ)
  | transfer (source destination handle : ℕ) (hne : source ≠ destination)

def step (s : ℕ → HandleTable α) : Command α → ℕ → HandleTable α
  | .insert i object => update s i (insertObject object (s i)).2
  | .duplicate i handle => update s i (Handle.duplicate handle (s i)).2
  | .close i handle => update s i (Handle.close handle (s i)).2
  | .transfer i j handle _ =>
    let tables := (transferTo (s i) (s j) handle).2
    update (update s i tables.1) j tables.2

def machine : Machine (ℕ → HandleTable α) (Command α) Unit where
  step s c := ((), step s c)

/-! ### The invariant -/

/-- Live and recycled handles partition the handles below the mark, and the capacity is kept. -/
structure Inv (limit : ℕ) (t : HandleTable α) : Prop where
  partition : ∀ h, h ∈ t.objects ∨ h ∈ t.recycled ↔ 0 < h ∧ h < t.nextHandle
  disjoint : ∀ h ∈ t.objects, h ∉ t.recycled
  capacity : t.objects.size ≤ limit
  limit_eq : t.capacityLimit = limit
  positive : 0 < t.nextHandle
  bounded : t.nextHandle ≤ lastHandle + 1

/-- The least handle that is not in use, and within the range of handles. -/
def Lowest (t : HandleTable α) (h : ℕ) : Prop :=
  IsLeast {h | 0 < h ∧ h ∉ t.objects} h ∧ h ≤ lastHandle

/-- There is no room for a further handle. -/
def Full (t : HandleTable α) : Prop :=
  t.capacityLimit ≤ t.objects.size ∨ (lastHandle < t.nextHandle ∧ t.recycled.isEmpty)

theorem takeHandle_ensures (ht : Inv limit t) : (takeHandle : TableCall α ℕ).Ensures t
    (fun h t' => Lowest t h ∧ t'.objects = t.objects ∧ ∀ object, t.objects.size < limit →
      Inv limit { t' with objects := t.objects.insert h object, changed := true })
    (fun _ t' => t' = t ∧ Full t) := by
  refine .read ?_
  rcases hmin : t.recycled.min? with _ | h
  · have hempty := TreeSet.min?_eq_none_iff.1 hmin
    have hlive : ∀ k, k ∈ t.objects ↔ 0 < k ∧ k < t.nextHandle := by
      intro k
      rw [← ht.partition, or_iff_left (TreeSet.not_mem_of_isEmpty hempty)]
    have hnew : t.nextHandle ∉ t.objects := fun h => absurd ((hlive _).1 h).2 (lt_irrefl _)
    refine .failIf (fun hlast => ?_) fun hlast => ⟨rfl, .inr ⟨of_decide_eq_true hlast, hempty⟩⟩
    have hle := not_lt.1 (of_decide_eq_false hlast)
    have hmark : min (t.nextHandle + 1) (2 ^ 32 - 1) = t.nextHandle + 1 :=
      min_eq_left (by unfold lastHandle at hle; omega)
    refine .update (.pure
      ⟨⟨⟨⟨ht.positive, hnew⟩, fun k hk => ?_⟩, hle⟩, rfl, fun object hsize => ?_⟩)
    · by_contra hlt
      exact hk.2 ((hlive k).2 ⟨hk.1, not_le.1 hlt⟩)
    · refine ⟨fun k => ?_, fun k _ => not_mem_of_isEmpty hempty, ?_, ht.limit_eq, ?_, ?_⟩
      · have hpos := ht.positive
        simp only [mem_insert, Std.compare_eq_iff_eq, TreeSet.not_mem_of_isEmpty hempty, hmark,
          hlive, or_false]
        omega
      · simpa [size_insert, hnew] using hsize
      · simp only [hmark]
        omega
      · simp only [hmark]
        omega
  · obtain ⟨hmem, hleast⟩ := TreeSet.min?_eq_some_iff_mem_and_forall.1 hmin
    have hrange := (ht.partition h).1 (.inr hmem)
    have hfree : h ∉ t.objects := fun hlive => ht.disjoint h hlive hmem
    have hbound := ht.bounded
    refine .update (.pure
      ⟨⟨⟨⟨hrange.1, hfree⟩, fun k hk => ?_⟩, by omega⟩, rfl, fun object hsize => ?_⟩)
    · by_contra hlt
      rcases (ht.partition k).2 ⟨hk.1, by omega⟩ with hlive | hk'
      · exact hk.2 hlive
      · exact hlt (Nat.isLE_compare.1 (hleast k hk'))
    · refine ⟨fun k => ?_, fun k hk => ?_, ?_, ht.limit_eq, ht.positive, hbound⟩
      · have := ht.partition k
        by_cases hkh : h = k
        · simp [← hkh, hrange]
        · simpa [hkh] using this
      · simp only [mem_insert, TreeSet.mem_erase, ne_eq, Std.compare_eq_iff_eq] at hk ⊢
        rintro ⟨hne, hrec⟩
        exact ht.disjoint k (hk.resolve_left hne) hrec
      · simpa [size_insert, hfree] using hsize

theorem insertObject_ensures (ht : Inv limit t) {object : α} : (insertObject object).Ensures t
    (fun h t' => Lowest t h ∧ t'.objects = t.objects.insert h object ∧ Inv limit t')
    (fun _ t' => t' = t ∧ Full t) := by
  refine .read (.failIf (fun hroom => ?_) fun hfull => ⟨rfl, .inl (of_decide_eq_true hfull)⟩)
  refine .seq (takeHandle_ensures ht) fun h t' hpost => ?_
  obtain ⟨hlowest, hobjects, hinv⟩ := hpost
  have hsize := not_le.1 (of_decide_eq_false hroom)
  rw [ht.limit_eq] at hsize
  refine .update (.pure ⟨hlowest, by rw [hobjects], ?_⟩)
  rw [hobjects]
  exact hinv object hsize

theorem duplicate_ensures (ht : Inv limit t) : (duplicate handle).Ensures t
    (fun h t' => Lowest t h ∧ Inv limit t') (fun _ t' => t' = t) :=
  .read (.okOr fun _ _ => (insertObject_ensures ht).imp
    (fun _ _ hpost => ⟨hpost.1, hpost.2.2⟩) fun _ _ hpost => hpost.1)

theorem close_ensures (ht : Inv limit t) : (close handle).Ensures t
    (fun object t' => t.objects[handle]? = some object ∧ t'.objects = t.objects.erase handle ∧
      Inv limit t') (fun _ t' => t' = t ∧ handle ∉ t.objects) := by
  refine .read (.okOr (fun object hobject => ?_) fun hnone => ⟨rfl, ?_⟩)
  swap
  · simp [mem_iff_isSome_getElem?, hnone]
  have hlive : handle ∈ t.objects := by simp [mem_iff_isSome_getElem?, hobject]
  have hrange := (ht.partition handle).1 (.inl hlive)
  refine .update (.pure ⟨hobject, rfl, fun k => ?_, fun k hk => ?_, ?_, ht.limit_eq, ht.positive,
    ht.bounded⟩)
  · have := ht.partition k
    by_cases hkh : handle = k
    · simp [← hkh, hrange]
    · simpa [hkh] using this
  · simp only [mem_erase, TreeSet.mem_insert, ne_eq, Std.compare_eq_iff_eq] at hk ⊢
    rintro (heq | hrec)
    · exact hk.1 heq
    · exact ht.disjoint k hk.2 hrec
  · exact size_erase_le.trans ht.capacity

def Transferred (source destination : HandleTable α) (handle : ℕ) :
    Outcome HandleError ℕ × HandleTable α × HandleTable α → Prop
  | (.ok h, source', destination') => ∃ object, source.objects[handle]? = some object ∧
      source'.objects = source.objects.erase handle ∧ Lowest destination h ∧
      destination'.objects = destination.objects.insert h object
  | (.err _, source', destination') => source' = source ∧ destination' = destination
  | (.panic _, _) => False

/-- **A transfer moves an object or changes nothing**: the checks before the removal are those of
the insertion. -/
theorem transferTo_spec {limit' : ℕ} {source destination : HandleTable α} (hs : Inv limit source)
    (hd : Inv limit' destination) :
    Transferred source destination handle (transferTo source destination handle) ∧
      Inv limit (transferTo source destination handle).2.1 ∧
      Inv limit' (transferTo source destination handle).2.2 := by
  unfold transferTo
  split
  · exact ⟨⟨rfl, rfl⟩, hs, hd⟩
  next hcontains =>
  split
  · exact ⟨⟨rfl, rfl⟩, hs, hd⟩
  next hroom =>
  have hlive : handle ∈ source.objects := by simpa using hcontains
  have hfree : ¬ Full destination := by simpa [Full] using hroom
  rcases (close_ensures hs).ok_or_err with
    ⟨object, hclose, hobject, herase, hs'⟩ | ⟨_, -, -, hdead⟩
  · rcases (insertObject_ensures hd).ok_or_err with
      ⟨h, hinsert, hlowest, hmoved, hd'⟩ | ⟨_, -, -, hfull⟩
    · rw [show close handle source = (.ok object, _) from Prod.ext hclose rfl]
      dsimp only
      rw [show insertObject object destination = (.ok h, _) from Prod.ext hinsert rfl]
      exact ⟨⟨object, hobject, herase, hlowest, hmoved⟩, hs', hd'⟩
    · exact absurd hfull hfree
  · exact absurd hlive hdead

/-! ### Runs -/

theorem step_inv {limit : ℕ → ℕ} {s : ℕ → HandleTable α} (hs : ∀ i, Inv (limit i) (s i))
    {c : Command α} (k : ℕ) : Inv (limit k) (step s c k) := by
  -- a table is replaced by one with the invariant
  have hput : ∀ {s : ℕ → HandleTable α} {i : ℕ} {t : HandleTable α}, (∀ k, Inv (limit k) (s k)) →
      Inv (limit i) t → ∀ k, Inv (limit k) (update s i t k) := by
    intro s i t hs ht k
    by_cases hk : k = i
    · subst hk
      rwa [update_self]
    · rw [update_of_ne hk]
      exact hs k
  cases c with
  | insert i =>
    exact hput hs ((insertObject_ensures (hs i)).state (fun _ _ h => h.2.2)
      fun _ _ h => h.1 ▸ hs i) k
  | duplicate i =>
    exact hput hs ((duplicate_ensures (hs i)).state (fun _ _ h => h.2) fun _ _ h => h ▸ hs i) k
  | close i =>
    exact hput hs ((close_ensures (hs i)).state (fun _ _ h => h.2.2) fun _ _ h => h.1 ▸ hs i) k
  | transfer i j =>
    obtain ⟨-, hsource, hdestination⟩ := transferTo_spec (hs i) (hs j)
    exact hput (hput hs hsource) hdestination k

theorem withCapacityLimit_inv : Inv limit (.withCapacityLimit limit : HandleTable α) := by
  refine ⟨fun h => ?_, ?_, ?_, rfl, ?_, ?_⟩
  · simp [HandleTable.withCapacityLimit, firstHandle]
    omega
  all_goals simp [HandleTable.withCapacityLimit, firstHandle]

/-- **Handles are allocated lowest first.**  After any calls on any number of tables with any
limits, live and recycled handles of each table partition the handles below its mark and the limit
is kept; an inserted or duplicated object gets the least positive handle that is not live, at most
`LAST_HANDLE`; and a transfer moves the object to one handle of the other table or changes
nothing. -/
theorem handles_lowest_first (limit : ℕ → ℕ) (cs : List (Command α)) (i : ℕ) :
    let s := machine.run (fun i => .withCapacityLimit (limit i)) cs
    Inv (limit i) (s i) ∧
    (∀ object h, (insertObject object (s i)).1 = .ok h → Lowest (s i) h) ∧
    (∀ handle h, (duplicate handle (s i)).1 = .ok h → Lowest (s i) h) ∧
    ∀ j handle, Transferred (s i) (s j) handle (transferTo (s i) (s j) handle) := by
  intro s
  have hs : ∀ i, Inv (limit i) (s i) := Machine.run_invariant_all
    (I := fun s : ℕ → HandleTable α => ∀ i, Inv (limit i) (s i)) (fun _ c hs => step_inv hs) cs _
    fun i => withCapacityLimit_inv
  refine ⟨hs i, fun object h hrun => ?_, fun handle h hrun => ?_, fun j handle => ?_⟩
  · exact ((insertObject_ensures (hs i)).of_ok (Prod.ext hrun rfl)).1
  · exact ((duplicate_ensures (hs i)).of_ok (Prod.ext hrun rfl)).1
  · exact (transferTo_spec (hs i) (hs j)).1

end Nixe.Handle
