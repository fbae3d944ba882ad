/-
**Files that are filled with an image.**

A cache file is filled piece by piece with the content of an image, a function from positions to
values.  What the file holds of it grows with every write of a window of the image.

Main definitions:

* `mapAt` — a function of the position and the value, applied to a list that starts at a given
  position;
* `window` — the values of an image in a range;
* `writeAt` — a write at a position, which may leave a hole of zeros;
* `Holds`, `Grows` — a file has the values of the image in a range, and a write that loses none of
  them.

Main results:

* `grows_writeAt`, `holds_writeAt` — **what a write of a window does**;
* `Holds.take_drop` — what a read of a range returns.
-/

import Mathlib.Tactic

set_option autoImplicit false

namespace Nixe.FileImage

open List

variable {α : Type} {start length i stop : ℕ} {values file : List α} {image : ℕ → α}

/-! ### Functions of the position -/

variable (f : ℕ → α → α)

/-- `f` applied to the values of a list, the first of which is at `start`. -/
def mapAt (start : ℕ) (values : List α) : List α :=
  values.mapIdx fun i => f (start + i)

@[simp] theorem mapAt_nil (start : ℕ) : mapAt f start [] = [] := rfl

@[simp] theorem length_mapAt (start : ℕ) (values : List α) :
    (mapAt f start values).length = values.length := length_mapIdx

theorem mapAt_append (start : ℕ) (values rest : List α) : mapAt f start (values ++ rest) =
      mapAt f start values ++ mapAt f (start + values.length) rest := by
  unfold mapAt
  rw [mapIdx_append]
  congr 2
  funext i
  rw [add_assoc, add_comm i]

theorem mapAt_split {count : ℕ} (h : count ≤ values.length) : mapAt f start values =
      mapAt f start (values.take count) ++ mapAt f (start + count) (values.drop count) := by
  conv_lhs => rw [← take_append_drop count values]
  rw [mapAt_append, length_take_of_le h]

theorem mapAt_congr {f g : ℕ → α → α} (h : ∀ i, start ≤ i → i < start + values.length → f i = g i) :
    mapAt f start values = mapAt g start values := by
  refine ext_getElem (by simp) fun i h₁ h₂ => ?_
  rw [length_mapAt] at h₁
  simp only [mapAt, getElem_mapIdx]
  rw [h _ (by omega) (by omega)]

/-! ### Windows -/

/-- The values of the image in the `length` positions from `start` on. -/
def window (image : ℕ → α) (start length : ℕ) : List α :=
  (range length).map fun i => image (start + i)

@[simp] theorem length_window {length : ℕ} :
    (window image start length).length = length := by simp [window]

theorem getElem?_window (h : i < length) :
    (window image start length)[i]? = some (image (start + i)) := by
  simp [window, h]

/-- A list with the values of the image is a window of it. -/
theorem eq_window (hlength : values.length = length)
    (h : ∀ i, i < length → values[i]? = some (image (start + i))) :
    values = window image start length := by
  refine ext_getElem? fun i => ?_
  by_cases hi : i < length
  · rw [h i hi, getElem?_window hi]
  · rw [getElem?_eq_none (by omega), getElem?_eq_none (by simpa using hi)]

theorem window_append (image : ℕ → α) (start length length' : ℕ) :
    window image start (length + length') =
      window image start length ++ window image (start + length) length' := by
  simp [window, range_add, add_assoc]

/-- A window is its part before a cut, followed by its part behind it. -/
theorem window_cut {length cut : ℕ} (hcut : cut ≤ start + length) :
    window image start (min (start + length) cut - start) ++
        window image (max start cut) (start + length - max start cut) =
      window image start length := by
  rcases le_total start cut with hle | hle
  · rw [min_eq_right hcut, max_eq_right hle,
      show length = (cut - start) + (start + length - cut) by omega, window_append]
    congr 2 <;> omega
  · rw [max_eq_left hle, show min _ cut - start = 0 by omega, Nat.add_sub_cancel_left]
    rfl

theorem mapAt_window (image : ℕ → α) (start length : ℕ) :
    mapAt f start (window image start length) = window (fun i => f i (image i)) start length := by
  refine eq_window (by simp) fun i hi => ?_
  simp [mapAt, getElem?_window hi]

/-! ### Files -/

variable (zero : α)

/-- The file after `values` have been written at `start`; positions between the end of the file and
`start` become `zero`. -/
def writeAt (file : List α) (start : ℕ) (values : List α) : List α :=
  file.take start ++ replicate (start - file.length) zero ++ values ++
    file.drop (start + values.length)

theorem getElem?_writeAt_written
    (h : i < values.length) : (writeAt zero file start values)[start + i]? = values[i]? := by
  have hlength : (file.take start ++ replicate (start - file.length) zero).length = start := by
    rw [length_append, length_take, length_replicate]
    omega
  rw [writeAt, append_assoc, getElem?_append_right (by omega), hlength,
    Nat.add_sub_cancel_left, getElem?_append_left h]

theorem getElem?_writeAt_kept {a : α} (hfile : file[i]? = some a)
    (h : i < start ∨ start + values.length ≤ i) :
    (writeAt zero file start values)[i]? = some a := by
  have hi : i < file.length := (List.getElem?_eq_some_iff.1 hfile).1
  rcases h with h | h
  · rw [writeAt, append_assoc, append_assoc,
      getElem?_append_left (by rw [length_take]; omega), getElem?_take_of_lt h, hfile]
  · have hhole : start - file.length = 0 := by omega
    rw [writeAt, hhole, replicate_zero, append_nil, getElem?_append_right
      (by rw [length_append, length_take]; omega), getElem?_drop,
      length_append, length_take, ← hfile]
    congr 1
    omega

/-- The file has the values of the image from `start` to `stop`. -/
def Holds (image : ℕ → α) (file : List α) (start stop : ℕ) : Prop :=
  ∀ i, start ≤ i → i < stop → file[i]? = some (image i)

/-- No value of the image is lost. -/
def Grows (image : ℕ → α) (file file' : List α) : Prop :=
  ∀ i, file[i]? = some (image i) → file'[i]? = some (image i)

theorem Grows.refl : Grows image file file := fun _ h => h

theorem Grows.trans {file' file'' : List α} (h : Grows image file file')
    (h' : Grows image file' file'') : Grows image file file'' := fun i hi => h' i (h i hi)

theorem Holds.of_grows {file' : List α} (h : Holds image file start stop)
    (hgrows : Grows image file file') :
    Holds image file' start stop := fun i hle hlt => hgrows i (h i hle hlt)

theorem Holds.append {middle : ℕ} (h : Holds image file start middle)
    (h' : Holds image file middle stop) : Holds image file start stop := by
  intro i hle hlt
  by_cases hi : i < middle
  · exact h i hle hi
  · exact h' i (by omega) hlt

theorem holds_empty : Holds image file start start :=
  fun i hle hlt => absurd hlt (by omega)

/-- A write of a window of the image loses nothing of the image. -/
theorem grows_writeAt (image : ℕ → α) (file : List α) (start length : ℕ) :
    Grows image file (writeAt zero file start (window image start length)) := by
  intro i hi
  by_cases h : start ≤ i ∧ i < start + length
  · obtain ⟨j, rfl⟩ : ∃ j, i = start + j := ⟨i - start, by omega⟩
    rw [getElem?_writeAt_written _ (by rw [length_window]; omega), getElem?_window (by omega)]
  · exact getElem?_writeAt_kept _ hi (by rw [length_window]; omega)

/-- A write of a window of the image brings the window into the file. -/
theorem holds_writeAt (image : ℕ → α) (file : List α) (start length : ℕ) :
    Holds image (writeAt zero file start (window image start length)) start (start + length) := by
  intro i hle hlt
  obtain ⟨j, rfl⟩ : ∃ j, i = start + j := ⟨i - start, by omega⟩
  rw [getElem?_writeAt_written _ (by rw [length_window]; omega), getElem?_window (by omega)]

theorem Holds.take_drop {first : ℕ} (h : Holds image file start stop) (hle : start ≤ first)
    (hstop : first + length ≤ stop) (hlength : 0 < length) :
    first + length ≤ file.length ∧ (file.drop first).take length = window image first length := by
  have hlast := h (first + length - 1) (by omega) (by omega)
  have hbound : first + length ≤ file.length := by
    have := (List.getElem?_eq_some_iff.1 hlast).1
    omega
  refine ⟨hbound, eq_window ?_ fun i hi => ?_⟩
  · rw [length_take, length_drop]
    omega
  · rw [getElem?_take_of_lt hi, getElem?_drop]
    exact h _ (by omega) (by omega)

end Nixe.FileImage
