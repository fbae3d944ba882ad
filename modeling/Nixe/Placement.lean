/-
**Keys that occur once in a family of lists.**

A family of lists whose elements carry keys, and a partial map that says in which list a key is: the
key occurs there exactly once, and in no other list.  This is the shape of every wait queue of the
program, whether the map is stored next to the lists or only exists in the proof.

Main definitions:

* `Placed` — the map describes the family.

Main results:

* `Placed.eq_of_mem`, `Placed.find?_of_mem` — an element is determined by its key, and searching for
  the key finds it;
* `Placed.push`, `Placed.take`, `Placed.drop`, `Placed.rewrite` — an element is appended or taken
  out, a key is taken out of every list, or elements change under the same key.
-/

import Mathlib.Tactic

set_option autoImplicit false

namespace Nixe

open List

variable {ι β κ : Type} [DecidableEq ι] [DecidableEq κ]

/-- The key `k` occurs once in the list at `place k`, and in no other list. -/
def Placed (key : β → κ) (q : ι → List β) (place : κ → Option ι) : Prop :=
  ∀ k i, ((q i).map key).count k = if place k = some i then 1 else 0

namespace Placed

variable {key : β → κ} {q q' : ι → List β} {place place' : κ → Option ι} {i : ι}

omit [DecidableEq ι] in
/-- Where no key occurs twice, erasing an element by its key filters the key out. -/
theorem eraseP_eq_filter {l : List β} (h : (l.map key).Nodup) (k : κ) :
    l.eraseP (fun y => key y == k) = l.filter fun y => key y != k := by
  induction l with
  | nil => rfl
  | cons x rest ih =>
    rw [List.map_cons, List.nodup_cons] at h
    by_cases hx : key x = k
    · have hrest : rest.filter (fun y => key y != k) = rest := by
        rw [List.filter_eq_self]
        intro y hy
        have : key y ≠ k := by
          rintro rfl
          exact h.1 (hx ▸ List.mem_map_of_mem hy)
        simpa using this
      simp [hx, hrest]
    · simp [hx, ih h.2]

omit [DecidableEq ι] in
/-- Erasing an element by its key erases the key. -/
theorem map_eraseP (i : ι) (k : κ) :
    ((q i).eraseP fun y => key y == k).map key = ((q i).map key).erase k := by
  rw [List.erase_eq_eraseP', List.eraseP_map]
  rfl

variable (h : Placed key q place)
include h

theorem place_of_mem {x : β} (hx : x ∈ q i) : place (key x) = some i := by
  by_contra hne
  have hcount := h (key x) i
  rw [if_neg hne, count_eq_zero] at hcount
  exact hcount (mem_map_of_mem hx)

theorem exists_mem {k : κ} (hk : place k = some i) : ∃ x ∈ q i, key x = k := by
  have hcount := h k i
  rw [if_pos hk] at hcount
  have hmem : k ∈ (q i).map key := by
    rw [← count_pos_iff]
    omega
  exact mem_map.1 hmem

theorem nodup (i : ι) : ((q i).map key).Nodup := by
  rw [nodup_iff_count_le_one]
  intro k
  rw [h k i]
  split <;> omega

theorem eq_of_mem {j : ι} {x y : β} (hx : x ∈ q i) (hy : y ∈ q j)
    (hk : key x = key y) : i = j ∧ x = y := by
  have hi := h.place_of_mem hx
  have hj := h.place_of_mem hy
  obtain rfl : i = j := by
    rw [hk, hj] at hi
    exact (Option.some.inj hi).symm
  exact ⟨rfl, inj_on_of_nodup_map (h.nodup i) hx hy hk⟩

/-- Searching a list for a key finds the element that has it. -/
theorem find?_of_mem {x : β} (hx : x ∈ q i) : (q i).find? (fun y => key y == key x) = some x := by
  obtain ⟨y, hy⟩ := Option.isSome_iff_exists.1 (find?_isSome.2 ⟨x, hx, by simp⟩ :
      ((q i).find? fun y => key y == key x).isSome)
  have hkey : key y = key x := by simpa using find?_some hy
  rw [hy, (h.eq_of_mem (mem_of_find?_eq_some hy) hx hkey).2]

/-- An element with a new key is appended to one of the lists. -/
theorem push (i : ι) (x : β) (hnone : place (key x) = none)
    (hq : ∀ j, q' j = if i = j then q i ++ [x] else q j)
    (hplace : ∀ k, place' k = if key x = k then some i else place k) : Placed key q' place' := by
  intro k j
  rw [hq, hplace]
  have hold := h k j
  by_cases hk : key x = k
  · subst hk
    rw [hnone] at hold
    by_cases hj : i = j
    · subst hj
      simpa using hold
    · simpa [hj] using hold
  · by_cases hj : i = j
    · subst hj
      simpa [hk, count_singleton] using hold
    · simpa [hj, hk] using hold

theorem take {k : κ} (hk : place k = some i)
    (hq : ∀ j, q' j = if i = j then (q i).eraseP (fun y => key y == k) else q j)
    (hplace : ∀ k', place' k' = if k = k' then none else place k') : Placed key q' place' := by
  intro k' j
  rw [hq, hplace]
  have hold := h k' j
  by_cases hk' : k = k'
  · subst hk'
    by_cases hj : i = j
    · subst hj
      rw [if_pos hk] at hold
      simp [map_eraseP, hold]
    · have hne : ¬ place k = some j := by
        rw [hk]
        simpa using hj
      simpa [hj, hne] using hold
  · by_cases hj : i = j
    · subst hj
      simpa [map_eraseP, count_erase, hk'] using hold
    · simpa [hj, hk'] using hold

theorem drop {k : κ} (hq : ∀ i, q' i = (q i).filter fun x => key x != k)
    (hplace : ∀ k', place' k' = if k = k' then none else place k') : Placed key q' place' := by
  intro k' i
  have hmap : (q' i).map key = ((q i).map key).filter fun x => x != k := by
    rw [hq, filter_map]
    rfl
  rw [hmap, hplace]
  by_cases hk : k = k'
  · subst hk
    simp [count_eq_zero]
  · rw [count_filter (by simpa using Ne.symm hk), if_neg hk]
    exact h k' i

theorem rewrite (hq : ∀ i, (q' i).map key = (q i).map key) : Placed key q' place := by
  intro k i
  rw [hq]
  exact h k i

end Placed

end Nixe
