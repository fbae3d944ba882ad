/-
**Copy on write.**

Reference-counted cells are shared by holders, each of which has data of its own.  A holder that
changes the contents of its cell does so in place if no one else holds the cell; otherwise it first
moves to a copy.  So, as far as changes go, each holder might as well own its contents.

Cells can also be written through a shared reference, for example to remember a result.  What is
written is then seen by all holders of the cell.  It is right for all of them if it depends on
nothing but the contents and a part of the data — the key — on which the holders of a cell agree.

Main definitions:

* `Store` — cells and holders;
* `share`, `release`, `setData`, `mutate`, `remember` — the operations;
* `Coherent` — the holders of a cell agree on the key, and what the cell remembers is right for it;
* `Represents` — a store in which every holder owns its contents.

Main results:

* `share_correct`, `release_correct`, `setData_correct` — holders come, go and change their data;
* `mutate_correct` — **a change stays with the holder**;
* `remember_correct` — **what is remembered does not show**.
-/

import Mathlib.Data.List.Basic
import Mathlib.Tactic

set_option autoImplicit false

namespace Nixe.CopyOnWrite

open List Option Function

/-- Shared cells, and the holders; each holder has the number of its cell and data of its own.  A
holder that was dropped is `none`. -/
structure Store (ρ η : Type) where
  cells : List ρ
  holders : List (Option (ℕ × η))

variable {ρ ρ₀ η κ : Type}

variable (s : Store ρ η)

/-- The cell and the data of a holder. -/
def Store.holder (i : ℕ) : Option (ℕ × η) := s.holders[i]?.join

/-- What a holder sees: the contents of its cell, and its data. -/
def Store.get (i : ℕ) : Option (ρ × η) :=
  (s.holder i).bind fun h => s.cells[h.1]?.map fun r => (r, h.2)

def Store.strongCount (c : ℕ) : ℕ :=
  s.holders.countP fun o => o.any fun h => h.1 == c

def share (i : ℕ) (f : η → η) : Store ρ η :=
  match s.holder i with
  | none => s
  | some (c, d) => { s with holders := s.holders ++ [some (c, f d)] }

def release (i : ℕ) : Store ρ η := { s with holders := s.holders.set i none }

def setData (i : ℕ) (f : η → η) : Store ρ η :=
  match s.holder i with
  | none => s
  | some (c, d) => { s with holders := s.holders.set i (some (c, f d)) }

/-- `Arc::make_mut`, and a change of the contents and of the data. -/
def mutate (clone : ρ → ρ) (s : Store ρ η) (i : ℕ) (f : ρ → η → ρ × η) : Store ρ η :=
  match s.holder i with
  | none => s
  | some (c, d) =>
    match s.cells[c]? with
    | none => s
    | some r =>
      if s.strongCount c = 1 then
        { cells := s.cells.set c (f r d).1, holders := s.holders.set i (some (c, (f r d).2)) }
      else
        { cells := s.cells ++ [(f (clone r) d).1]
          holders := s.holders.set i (some (s.cells.length, (f (clone r) d).2)) }

/-- A write through a shared reference. -/
def remember (i : ℕ) (g : ρ → ρ) : Store ρ η :=
  match s.holder i with
  | none => s
  | some (c, _) => { s with cells := s.cells.modify c g }

/-! ### Counting holders -/

/-- One entry of a list is counted, so there is no other. -/
theorem eq_of_countP_eq_one {α : Type} {p : α → Bool} :
    ∀ {l : List α} {i j : ℕ} {x y : α}, l.countP p = 1 → l[i]? = some x → l[j]? = some y →
      p x = true → p y = true → i = j := by
  intro l
  induction l with
  | nil => intro i j x y h; simp at h
  | cons a l ih =>
    intro i j x y h hx hy hpx hpy
    -- if the first entry is counted, no later one is
    have hlater (ha : p a = true) {k : ℕ} {z : α} (hz : l[k]? = some z) : p z = false := by
      have hzero : l.countP p = 0 := by simpa [countP_cons, ha] using h
      simpa using countP_eq_zero.1 hzero z (mem_of_getElem? hz)
    cases i with
    | zero =>
      obtain rfl : a = x := by simpa using hx
      cases j with
      | zero => rfl
      | succ => simp [hlater hpx (by simpa using hy)] at hpy
    | succ =>
      cases j with
      | zero =>
        obtain rfl : a = y := by simpa using hy
        simp [hlater hpy (by simpa using hx)] at hpx
      | succ =>
        have ha : p a = false := by
          by_contra ha
          simp [hlater (by simpa using ha) (by simpa using hx)] at hpx
        have hrest : l.countP p = 1 := by simpa [countP_cons, ha] using h
        exact congrArg _ (ih hrest (by simpa using hx) (by simpa using hy) hpx hpy)

section

variable {s : Store ρ η} {i c : ℕ} {d : η} {cells : List ρ} {key : η → κ} {J : ρ → κ → Prop}
  {P : ρ → ρ₀} {t : List (Option (ρ₀ × η))} {r : ρ}

theorem Store.holder_eq_some : s.holder i = some (c, d) ↔ s.holders[i]? = some (some (c, d)) := by
  simp [Store.holder, join_eq_some_iff]

theorem Store.eq_of_strongCount {j : ℕ} {d' : η} (h : s.strongCount c = 1)
    (hi : s.holder i = some (c, d)) (hj : s.holder j = some (c, d')) : i = j :=
  eq_of_countP_eq_one h (Store.holder_eq_some.1 hi) (Store.holder_eq_some.1 hj) (by simp) (by simp)

theorem Store.holder_lt (h : s.holder i = some (c, d)) : i < s.holders.length := by
  obtain ⟨hlt, -⟩ := List.getElem?_eq_some_iff.1 (Store.holder_eq_some.1 h)
  exact hlt

/-- The holders after one of them was replaced. -/
theorem Store.holder_set (hi : i < s.holders.length) (o : Option (ℕ × η)) (j : ℕ) :
    (Store.mk cells (s.holders.set i o)).holder j = if i = j then o else s.holder j := by
  unfold Store.holder
  by_cases h : i = j
  · subst h
    simp [hi]
  · simp [h]

/-! ### Coherence -/

/-- Every holder has a cell; the holders of a cell agree on the key; and the contents of a cell are
right for the key. -/
structure Coherent (key : η → κ) (J : ρ → κ → Prop) (s : Store ρ η) : Prop where
  lt : ∀ {i c d}, s.holder i = some (c, d) → c < s.cells.length
  agree : ∀ {i j c d d'}, s.holder i = some (c, d) → s.holder j = some (c, d') → key d = key d'
  right : ∀ {i c d r}, s.holder i = some (c, d) → s.cells[c]? = some r → J r (key d)

/-- The holders of `t` see what the holders of `s` see, and own it. -/
structure Represents (P : ρ → ρ₀) (s : Store ρ η) (t : List (Option (ρ₀ × η))) : Prop where
  length_eq : t.length = s.holders.length
  get_eq : ∀ i, t[i]?.join = (s.get i).map fun h => (P h.1, h.2)

theorem Store.get_eq_some :
    s.get i = some (r, d) ↔ ∃ c, s.holder i = some (c, d) ∧ s.cells[c]? = some r := by
  simp only [Store.get, bind_eq_some_iff, map_eq_some_iff, Prod.mk.injEq]
  constructor
  · rintro ⟨⟨c, d⟩, hi, r, hr, rfl, rfl⟩
    exact ⟨c, hi, hr⟩
  · rintro ⟨c, hi, hr⟩
    exact ⟨(c, d), hi, r, hr, rfl, rfl⟩

theorem Coherent.right_of_get (h : Coherent key J s) (hi : s.get i = some (r, d)) :
    J r (key d) := by
  obtain ⟨c, hc, hr⟩ := Store.get_eq_some.1 hi
  exact h.right hc hr

theorem Store.holder_append (x : ℕ × η) (j : ℕ) :
    (Store.mk s.cells (s.holders ++ [some x])).holder j =
      if j = s.holders.length then some x else s.holder j := by
  unfold Store.holder
  rcases lt_trichotomy j s.holders.length with h | h | h
  · simp [getElem?_append_left h, h.ne]
  · simp [h]
  · rw [getElem?_eq_none (by simp; omega), getElem?_eq_none h.le, if_neg h.ne']

theorem Represents.holder_set (h : Represents P s t) (hi : i < s.holders.length)
    {o : Option (ℕ × η)} {o' : Option (ρ₀ × η)}
    (ho : o' = o.bind fun x => cells[x.1]?.map fun r => (P r, x.2))
    (hother : ∀ j, i ≠ j → ∀ c d, s.holder j = some (c, d) →
      (cells[c]?).map P = (s.cells[c]?).map P) :
    Represents P ⟨cells, s.holders.set i o⟩ (t.set i o') := by
  refine ⟨by simp [h.length_eq], fun j => ?_⟩
  unfold Store.get
  rw [Store.holder_set hi]
  by_cases hij : i = j
  · subst hij
    have hlt : i < t.length := by rw [h.length_eq]; exact hi
    rw [getElem?_set_self hlt, if_pos rfl, ho]
    cases o with
    | none => rfl
    | some => simp [comp_def]
  · rw [getElem?_set_ne hij, h.get_eq, if_neg hij]
    unfold Store.get
    cases hj : s.holder j with
    | none => rfl
    | some x =>
      have hsame := congrArg (Option.map fun r => (r, x.2)) (hother j hij x.1 x.2 hj)
      simp only [Option.map_map, comp_def] at hsame
      simp [comp_def, hsame]

/-- With the same cells it is enough that each holder has the cell and the key of an old one. -/
theorem Coherent.of_old (hs : Coherent key J s) {holders : List (Option (ℕ × η))}
    (hold : ∀ {j c d}, (Store.mk s.cells holders).holder j = some (c, d) →
      ∃ k d₀, s.holder k = some (c, d₀) ∧ key d₀ = key d) : Coherent key J ⟨s.cells, holders⟩ := by
  refine ⟨fun hj => ?_, fun hj hj' => ?_, fun hj hr => ?_⟩
  · obtain ⟨k, d₀, hk, -⟩ := hold hj
    exact hs.lt hk
  · obtain ⟨k, d₀, hk, hkey⟩ := hold hj
    obtain ⟨k', d₀', hk', hkey'⟩ := hold hj'
    rw [← hkey, ← hkey', hs.agree hk hk']
  · obtain ⟨k, d₀, hk, hkey⟩ := hold hj
    exact hkey ▸ hs.right hk hr

section

variable (hs : Coherent key J s) (ht : Represents P s t)
include hs ht

theorem share_correct (hi : s.get i = some (r, d)) {f : η → η} (hf : key (f d) = key d) :
    Coherent key J (share s i f) ∧ Represents P (share s i f) (t ++ [some (P r, f d)]) := by
  obtain ⟨c, hc, hr⟩ := Store.get_eq_some.1 hi
  rw [share, hc]
  refine ⟨hs.of_old fun {j c' d'} hj => ?_, ?_, ?_⟩
  · rw [Store.holder_append] at hj
    split at hj
    · cases hj
      exact ⟨i, d, hc, hf.symm⟩
    · exact ⟨j, d', hj, rfl⟩
  · simp [ht.length_eq]
  · intro j
    unfold Store.get
    rw [Store.holder_append]
    split
    · next hj =>
        subst hj
        rw [← ht.length_eq]
        simp [hr]
    · next hj =>
        have hget := ht.get_eq j
        unfold Store.get at hget
        rw [← hget]
        rcases lt_or_ge j t.length with hlt | hge
        · rw [getElem?_append_left hlt]
        · have hne : j ≠ t.length := by rw [ht.length_eq]; exact hj
          rw [getElem?_eq_none (by simp; omega), getElem?_eq_none hge]

theorem release_correct :
    Coherent key J (release s i) ∧ Represents P (release s i) (t.set i none) := by
  by_cases hi : i < s.holders.length
  · refine ⟨hs.of_old fun {j c d} hj => ?_, ht.holder_set hi rfl fun _ _ _ _ _ => rfl⟩
    rw [Store.holder_set hi] at hj
    split at hj
    · cases hj
    · exact ⟨j, d, hj, rfl⟩
  · have hlength : ¬ i < t.length := by rw [ht.length_eq]; exact hi
    rw [release, set_eq_of_length_le (Nat.le_of_not_lt hi),
      set_eq_of_length_le (Nat.le_of_not_lt hlength)]
    exact ⟨hs, ht⟩

/-- A holder changes its own data, but not the key. -/
theorem setData_correct (hi : s.get i = some (r, d)) {f : η → η} (hf : key (f d) = key d) :
    Coherent key J (setData s i f) ∧ Represents P (setData s i f) (t.set i (some (P r, f d))) := by
  obtain ⟨c, hc, hr⟩ := Store.get_eq_some.1 hi
  have hlt := Store.holder_lt hc
  rw [setData, hc]
  refine ⟨hs.of_old fun {j c' d'} hj => ?_, ht.holder_set hlt (by simp [hr]) fun _ _ _ _ _ => rfl⟩
  rw [Store.holder_set hlt] at hj
  split at hj
  · cases hj
    exact ⟨i, d, hc, hf.symm⟩
  · exact ⟨j, d', hj, rfl⟩

/-- A holder gets a cell that no one else has. -/
theorem own_correct {c' : ℕ} {r' : ρ} {d' : η}
    (hi : i < s.holders.length) (hr' : cells[c']? = some r') (hJ : J r' (key d'))
    (hother : ∀ j, i ≠ j → ∀ c d, s.holder j = some (c, d) → c ≠ c' ∧ cells[c]? = s.cells[c]?) :
    Coherent key J ⟨cells, s.holders.set i (some (c', d'))⟩ ∧
      Represents P ⟨cells, s.holders.set i (some (c', d'))⟩ (t.set i (some (P r', d'))) := by
  have hcases {j c : ℕ} {d : η}
      (hj : (Store.mk cells (s.holders.set i (some (c', d')))).holder j = some (c, d)) :
      (c = c' ∧ d = d') ∨ (c ≠ c' ∧ cells[c]? = s.cells[c]? ∧ s.holder j = some (c, d)) := by
    rw [Store.holder_set hi] at hj
    split at hj
    · cases hj
      exact .inl ⟨rfl, rfl⟩
    · next hij =>
        obtain ⟨hne, hcell⟩ := hother j hij c d hj
        exact .inr ⟨hne, hcell, hj⟩
  refine ⟨⟨?_, ?_, ?_⟩, ht.holder_set hi (by simp [hr']) ?_⟩
  · intro j c d hj
    rcases hcases hj with ⟨rfl, rfl⟩ | ⟨-, hcell, hj⟩
    · exact (List.getElem?_eq_some_iff.1 hr').1
    · rw [getElem?_eq_getElem (hs.lt hj)] at hcell
      exact (List.getElem?_eq_some_iff.1 hcell).1
  · intro j k c d₁ d₂ hj hk
    rcases hcases hj with ⟨rfl, rfl⟩ | ⟨hne, -, hj⟩
    · rcases hcases hk with ⟨-, rfl⟩ | ⟨hne, -, -⟩
      · rfl
      · exact absurd rfl hne
    · rcases hcases hk with ⟨rfl, -⟩ | ⟨-, -, hk⟩
      · exact absurd rfl hne
      · exact hs.agree hj hk
  · intro j c d r hj hr
    rcases hcases hj with ⟨rfl, rfl⟩ | ⟨-, hcell, hj⟩
    · rw [hr'] at hr
      exact some.inj hr ▸ hJ
    · exact hs.right hj (hcell ▸ hr)
  · intro j hij c d hj
    rw [(hother j hij c d hj).2]

/-- **A change stays with the holder**, whether it is made in place or in a copy. -/
theorem mutate_correct (hi : s.get i = some (r, d)) {clone : ρ → ρ} {f : ρ → η → ρ × η}
    (hclone : P (f (clone r) d).1 = P (f r d).1 ∧ (f (clone r) d).2 = (f r d).2)
    (hJ : J (f r d).1 (key (f r d).2)) (hJ' : J (f (clone r) d).1 (key (f (clone r) d).2)) :
    Coherent key J (mutate clone s i f) ∧
      Represents P (mutate clone s i f) (t.set i (some (P (f r d).1, (f r d).2))) := by
  obtain ⟨c, hc, hr⟩ := Store.get_eq_some.1 hi
  have hlt := Store.holder_lt hc
  simp only [mutate, hc, hr]
  split
  · next hcount =>
      refine own_correct hs ht hlt ?_ hJ ?_
      · rw [getElem?_set_self (hs.lt hc)]
      · intro j hij c' d' hj
        have hne : c' ≠ c := by
          rintro rfl
          exact hij (Store.eq_of_strongCount hcount hc hj)
        exact ⟨hne, getElem?_set_ne hne.symm⟩
  · rw [← hclone.1, ← hclone.2]
    refine own_correct hs ht hlt ?_ hJ' ?_
    · simp
    · intro j _ c' d' hj
      have hlt' := hs.lt hj
      exact ⟨hlt'.ne, getElem?_append_left hlt'⟩

/-- **What is remembered does not show**, and it is right for all holders of the cell. -/
theorem remember_correct
    (hi : s.get i = some (r, d)) {g : ρ → ρ} (hP : P (g r) = P r) (hJ : J (g r) (key d)) :
    Coherent key J (remember s i g) ∧ Represents P (remember s i g) t := by
  obtain ⟨c, hc, hr⟩ := Store.get_eq_some.1 hi
  rw [remember, hc]
  have hcell c' : (s.cells.modify c g)[c']? = if c = c' then some (g r) else s.cells[c']? := by
    rw [getElem?_modify]
    split
    · next heq =>
        subst heq
        rw [hr]
        rfl
    · simp
  refine ⟨⟨?_, ?_, ?_⟩, ht.length_eq, ?_⟩
  · intro j c' d' hj
    rw [length_modify]
    exact hs.lt hj
  · exact hs.agree
  · intro j c' d' r' hj hr'
    rw [hcell] at hr'
    split at hr'
    · next heq =>
        subst heq
        rw [← some.inj hr', hs.agree hj hc]
        exact hJ
    · exact hs.right hj hr'
  · intro j
    rw [ht.get_eq]
    unfold Store.get
    change _ = Option.map _ ((s.holder j).bind _)
    cases hj : s.holder j with
    | none => rfl
    | some =>
      simp only [bind_some, hcell, Option.map_map, comp_def]
      split
      · next heq => simp [← heq, hr, hP]
      · rfl

end

end

end Nixe.CopyOnWrite
