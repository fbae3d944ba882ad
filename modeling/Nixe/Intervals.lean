/-
**Tables of ranges.**

A table files values under numbers; each value occupies a half-open range `[lo, hi)` and is filed
under the start of its range.  When the ranges do not overlap, such a table describes a partial
function: the value *at* an address is the one whose range covers it.  The operations that matter
here cut: a value is taken out, and smaller values are put back in its place.

Main definitions:

* `Ranged` — values with a range;
* `Tiled` — a set of values with non-empty ranges that do not overlap;
* `Sound` — a table filed by the starts, whose values are tiled;
* `Parts` — the values that replace another one;
* `carve` — the set that is left when some values are replaced by their parts;
* `floor?`, `at?` — two ways to find what covers an address.

Main results:

* `Sound.insert`, `Sound.eraseAll` — values come and go;
* `Sound.foldlM_substitute` — **the cutting rule**: a loop that replaces the values under a list of
  keys by their parts carves the set of values;
* `Sound.floor?_eq`, `Sound.at?_eq_some` — both searches find the value that covers the address.
-/

import Mathlib

set_option autoImplicit false

namespace Nixe.Intervals

open Std (TreeMap)
open List Std.TreeMap Prod Set

variable {V W : Type} {v : V} {m : TreeMap ℕ V} {p : V → Bool} {k x : ℕ} {w : W}

/-! ### Tables -/

def live (m : TreeMap ℕ V) : Set V := {v | ∃ k : ℕ, m[k]? = some v}

/-- The values of a table in the order of their keys. -/
def valuesOf (m : TreeMap ℕ V) : List V := m.toList.map snd

/-- The keys of the values that `p` selects, in order. -/
def keysWhere (m : TreeMap ℕ V) (p : V → Bool) : List ℕ :=
  (m.toList.filter fun entry => p entry.2).map fst

theorem mem_valuesOf : v ∈ valuesOf m ↔ v ∈ live m := by
  simp [valuesOf, live]

theorem mem_keysWhere : k ∈ keysWhere m p ↔ ∃ v, m[k]? = some v ∧ p v = true := by
  simp [keysWhere]

variable (m : TreeMap ℕ V)

theorem keysWhere_nodup : (keysWhere m p).Nodup := by
  have hkeys : (m.toList.map fst).Nodup := by
    rw [map_fst_toList_eq_keys]
    exact m.nodup_keys
  exact hkeys.sublist (filter_sublist.map _)

theorem getElem?_erase (k j : ℕ) : (m.erase k)[j]? = if j = k then none else m[j]? := by
  by_cases hjk : j = k
  · simp [hjk]
  · simp [TreeMap.getElem?_erase, hjk, Ne.symm hjk]

theorem getElem?_insert (k j : ℕ) (v : V) :
    (m.insert k v)[j]? = if j = k then some v else m[j]? := by
  by_cases hjk : j = k
  · simp [hjk]
  · simp [TreeMap.getElem?_insert, hjk, Ne.symm hjk]

/-! ### Ranges -/

/-- A value that occupies the addresses from `lo` up to, but not including, `hi`. -/
class Ranged (V : Type) where
  lo : V → ℕ
  hi : V → ℕ

open Ranged

variable [Ranged V]

/-- The address is in the range of the value. -/
def Covers (v : V) (x : ℕ) : Prop := lo v ≤ x ∧ x < hi v

instance (v : V) (x : ℕ) : Decidable (Covers v x) := inferInstanceAs (Decidable (_ ∧ _))

/-- The ranges of the two values do not overlap. -/
def Apart {W : Type} [Ranged W] (v : V) (w : W) : Prop := hi v ≤ lo w ∨ hi w ≤ lo v

/-- The range of `w` lies in the range of `v`. -/
def Within {W : Type} [Ranged W] (w : W) (v : V) : Prop := lo v ≤ lo w ∧ hi w ≤ hi v

theorem Apart.symm [Ranged W] (h : Apart v w) : Apart w v := Or.symm h

instance : Std.Symm (Apart : V → V → Prop) := ⟨fun _ _ => Apart.symm⟩

/-- An address is in one of two ranges that are apart at most. -/
theorem Apart.not_covers [Ranged W] (h : Apart v w) (hv : Covers v x) : ¬ Covers w x := by
  unfold Apart Covers at *
  omega

theorem Apart.mono [Ranged W] {v' : V} (h : Apart v w) (hv : Within v' v) : Apart v' w := by
  unfold Apart Within at *
  omega

/-- Ranges that are apart have no address in common. -/
theorem Apart.disjoint [Ranged W] (h : Apart v w) :
    Disjoint (Set.Ico (lo v) (hi v)) (Set.Ico (lo w) (hi w)) := by
  rw [Set.Ico_disjoint_Ico]
  unfold Apart at h
  omega

/-! ### Sets of values -/

/-- The ranges of the values are not empty and do not overlap. -/
structure Tiled (S : Set V) : Prop where
  proper : ∀ v ∈ S, lo v < hi v
  apart : ∀ v ∈ S, ∀ w ∈ S, v ≠ w → Apart v w

namespace Tiled

variable {S : Set V}

/-- An address is covered by one value at most. -/
theorem eq_of_covers (h : Tiled S) {w : V} (hv : v ∈ S) (hw : w ∈ S) (hvx : Covers v x)
    (hwx : Covers w x) : v = w := by
  by_contra hne
  have hapart := h.apart v hv w hw hne
  unfold Apart Covers at *
  omega

theorem eq_of_lo (h : Tiled S) {w : V} (hv : v ∈ S) (hw : w ∈ S) (hlo : lo v = lo w) : v = w := by
  have hproper := h.proper v hv
  have hproper' := h.proper w hw
  exact h.eq_of_covers hv hw ⟨le_rfl, hproper⟩ ⟨hlo.ge, hlo ▸ hproper'⟩

theorem mono (h : Tiled S) {S' : Set V} (hsub : S' ⊆ S) : Tiled S' :=
  ⟨fun v hv => h.proper v (hsub hv), fun v hv w hw => h.apart v (hsub hv) w (hsub hw)⟩

end Tiled

/-- The values `ps` can take the place of `v`: they have non-empty ranges, inside the range of `v`,
which do not overlap. -/
structure Parts (v : V) (ps : List V) : Prop where
  proper : ∀ w ∈ ps, lo w < hi w
  within : ∀ w ∈ ps, Within w v
  apart : ps.Pairwise Apart

/-- The values of `S` that `p` selects are replaced by their parts. -/
def carve (S : Set V) (p : V → Prop) (f : V → List V) : Set V :=
  {w | (w ∈ S ∧ ¬ p w) ∨ ∃ v ∈ S, p v ∧ w ∈ f v}

/-! ### Sound tables -/

/-- The table files each value under the start of its range, and the ranges do not overlap. -/
structure Sound (m : TreeMap ℕ V) : Prop where
  keyed : ∀ k v, m[k]? = some v → lo v = k
  tiled : Tiled (live m)

theorem sound_empty : Sound (∅ : TreeMap ℕ V) := by
  refine ⟨?_, ⟨?_, ?_⟩⟩ <;> simp [live]

/-- What a loop does that takes the value under `k` out and puts the values `ps` in. -/
def substitute (m : TreeMap ℕ V) (k : ℕ) (ps : List V) : TreeMap ℕ V :=
  ps.foldl (fun m w => m.insert (lo w) w) (m.erase k)

theorem substitute_append (k : ℕ) (ps qs : List V) : substitute m k (ps ++ qs) =
      qs.foldl (fun m w => m.insert (lo w) w) (substitute m k ps) := by
  rw [substitute, foldl_append, substitute]

/-- An optional value among those that are put in. -/
theorem foldl_insert_ite (c : Prop) [Decidable c] (v : V) :
    (if c then [v] else []).foldl (fun m w => m.insert (lo w) w) m =
      if c then m.insert (lo v) v else m := by
  split <;> rfl

namespace Sound

variable {m : TreeMap ℕ V} {ps : List V}

theorem mem_live (h : Sound m) : v ∈ live m ↔ m[lo v]? = some v := by
  constructor
  · rintro ⟨k, hk⟩
    rwa [h.keyed k v hk]
  · intro hv
    exact ⟨lo v, hv⟩

theorem mem_keysWhere (h : Sound m) (hv : v ∈ live m) : lo v ∈ keysWhere m p ↔ p v = true := by
  rw [Intervals.mem_keysWhere]
  constructor
  · rintro ⟨w, hw, hp⟩
    rw [h.mem_live.1 hv] at hw
    cases hw
    exact hp
  · intro hp
    exact ⟨v, h.mem_live.1 hv, hp⟩

theorem insert (h : Sound m) (hproper : lo v < hi v) (hapart : ∀ w ∈ live m, Apart v w) :
    Sound (m.insert (lo v) v) ∧ live (m.insert (lo v) v) = Insert.insert v (live m) := by
  have hfree : ∀ w ∈ live m, lo w ≠ lo v := by
    intro w hw heq
    have hwv := hapart w hw
    have hproper' := h.tiled.proper w hw
    unfold Apart at hwv
    omega
  have hlive : live (m.insert (lo v) v) = Insert.insert v (live m) := by
    ext w
    simp only [live, mem_ofPred_eq, mem_insert_iff, getElem?_insert]
    constructor
    · rintro ⟨k, hk⟩
      split at hk
      · exact .inl (by simpa using hk.symm)
      · exact .inr ⟨k, hk⟩
    · rintro (rfl | ⟨k, hk⟩)
      · exact ⟨lo w, by simp⟩
      · refine ⟨k, ?_⟩
        rw [if_neg, hk]
        rintro rfl
        exact hfree w ⟨_, hk⟩ (h.keyed _ w hk)
  refine ⟨⟨?_, ?_⟩, hlive⟩
  · intro k w hk
    rw [getElem?_insert] at hk
    split at hk
    · simp_all
    · exact h.keyed k w hk
  · rw [hlive]
    refine ⟨?_, ?_⟩
    · rintro w (rfl | hw)
      · exact hproper
      · exact h.tiled.proper w hw
    · rintro a (rfl | ha) b (rfl | hb) hne
      · exact absurd rfl hne
      · exact hapart b hb
      · exact (hapart a ha).symm
      · exact h.tiled.apart a ha b hb hne

theorem erase (h : Sound m) : Sound (m.erase k) ∧ live (m.erase k) = {v ∈ live m | lo v ≠ k} := by
  have hlive : live (m.erase k) = {v ∈ live m | lo v ≠ k} := by
    ext w
    simp only [live, mem_ofPred_eq, getElem?_erase]
    constructor
    · rintro ⟨j, hj⟩
      split at hj
      · simp at hj
      · refine ⟨⟨j, hj⟩, ?_⟩
        rwa [h.keyed j w hj]
    · rintro ⟨⟨j, hj⟩, hne⟩
      refine ⟨j, ?_⟩
      rwa [if_neg]
      rwa [h.keyed j w hj] at hne
  refine ⟨⟨?_, ?_⟩, hlive⟩
  · intro j w hj
    rw [getElem?_erase] at hj
    split at hj
    · simp at hj
    · exact h.keyed j w hj
  · rw [hlive]
    exact h.tiled.mono fun v hv => hv.1

/-- Several values leave the table, one after the other. -/
theorem eraseAll {ks : List ℕ} : ∀ {m : TreeMap ℕ V}, Sound m →
    Sound (ks.foldl (fun m k => m.erase k) m) ∧
      live (ks.foldl (fun m k => m.erase k) m) = {v ∈ live m | lo v ∉ ks} := by
  induction ks with
  | nil =>
    intro m h
    exact ⟨h, by simp⟩
  | cons k ks ih =>
    intro m h
    obtain ⟨hsound, hlive⟩ := h.erase
    obtain ⟨hsound', hlive'⟩ := ih hsound
    refine ⟨hsound', ?_⟩
    rw [foldl_cons, hlive', hlive]
    simp [and_assoc]

/-- Several values join the table, one after the other. -/
theorem insertAll : ∀ {m : TreeMap ℕ V}, Sound m → (∀ w ∈ ps, lo w < hi w) →
    ps.Pairwise Apart → (∀ w ∈ ps, ∀ u ∈ live m, Apart w u) →
    Sound (ps.foldl (fun m w => m.insert (lo w) w) m) ∧
      live (ps.foldl (fun m w => m.insert (lo w) w) m) = live m ∪ {w | w ∈ ps} := by
  induction ps with
  | nil =>
    intro m h _ _ _
    exact ⟨h, by simp⟩
  | cons p ps ih =>
    intro m h hproper hpairs hapart
    obtain ⟨hp, hps⟩ := pairwise_cons.1 hpairs
    obtain ⟨hsound, hlive⟩ := h.insert (hproper p (by simp)) (hapart p (by simp))
    have hnext : ∀ w ∈ ps, ∀ u ∈ live (m.insert (lo p) p), Apart w u := by
      intro w hw u hu
      rw [hlive] at hu
      rcases hu with rfl | hu
      · exact (hp w hw).symm
      · exact hapart w (by simp [hw]) u hu
    obtain ⟨hsound', hlive'⟩ := ih hsound (fun w hw => hproper w (by simp [hw])) hps hnext
    refine ⟨hsound', ?_⟩
    rw [foldl_cons, hlive', hlive]
    ext v
    simp only [mem_union, mem_insert_iff, mem_ofPred_eq, mem_cons]
    tauto

/-- A part starts inside the range of the old value, where no other value can start. -/
theorem key_of_part (h : Sound m) {u w : V} (hk : m[k]? = some v)
    (hparts : Parts v ps) (hw : w ∈ ps) (hu : m[lo w]? = some u) : lo w = k := by
  have hwithin := hparts.within w hw
  have hproper := hparts.proper w hw
  have hlo : lo u = lo w := h.keyed _ u hu
  have huproper := h.tiled.proper u ⟨_, hu⟩
  have hcovers : Covers v (lo w) := ⟨hwithin.1, hproper.trans_le hwithin.2⟩
  have heq : v = u := h.tiled.eq_of_covers ⟨k, hk⟩ ⟨_, hu⟩ hcovers ⟨hlo.le, hlo ▸ huproper⟩
  rw [← hlo, ← heq, h.keyed k v hk]

theorem substitute (h : Sound m) (hk : m[k]? = some v) (hparts : Parts v ps) :
    Sound (substitute m k ps) ∧
      live (substitute m k ps) = {w ∈ live m | lo w ≠ k} ∪ {w | w ∈ ps} := by
  obtain ⟨hsound, hlive⟩ := h.erase
  have hother : ∀ w ∈ ps, ∀ u ∈ live (m.erase k), Apart w u := by
    intro w hw u hu
    rw [hlive] at hu
    have hne : v ≠ u := by
      rintro rfl
      exact hu.2 (h.keyed k v hk)
    have hvu := h.tiled.apart v ⟨k, hk⟩ u hu.1 hne
    exact hvu.mono (hparts.within w hw)
  obtain ⟨hsound', hlive'⟩ := insertAll hsound hparts.proper hparts.apart hother
  exact ⟨hsound', hlive'.trans (by rw [hlive])⟩

/-- **The cutting rule.**  A loop over keys that replaces the value under each of them by its parts
leaves a sound table, and carves the set of values.  The keys may have been collected before the
loop: a part of one value never displaces another value. -/
theorem foldlM_substitute {ε : Type} {f : V → List V}
    {step : TreeMap ℕ V → ℕ → Except ε (TreeMap ℕ V)}
    (hstep : ∀ m k v m', m[k]? = some v → step m k = .ok m' → m' = Intervals.substitute m k (f v))
    {ks : List ℕ} : ∀ {m m' : TreeMap ℕ V}, Sound m → ks.Nodup →
    (∀ k ∈ ks, ∃ v, m[k]? = some v) → (∀ v ∈ live m, lo v ∈ ks → Parts v (f v)) →
    ks.foldlM step m = Except.ok m' →
      Sound m' ∧ live m' = carve (live m) (fun v => lo v ∈ ks) f := by
  induction ks with
  | nil =>
    intro m m' h _ _ _ hrun
    have hm : m = m' := by simpa [pure, Except.pure] using hrun
    subst hm
    exact ⟨h, by simp [carve]⟩
  | cons k ks ih =>
    intro m m' h hnodup hfound hparts hrun
    obtain ⟨hk, hks⟩ := nodup_cons.1 hnodup
    obtain ⟨v, hv⟩ := hfound k (by simp)
    have hvlive : v ∈ live m := ⟨k, hv⟩
    have hlo : lo v = k := h.keyed k v hv
    have hvparts := hparts v hvlive (by simp [hlo])
    rw [foldlM_cons] at hrun
    rcases hone : step m k with e | m₁
    · rw [hone] at hrun
      cases hrun
    rw [hone] at hrun
    obtain rfl := hstep m k v m₁ hv hone
    obtain ⟨hsound, hlive⟩ := h.substitute hv hvparts
    have hpart : ∀ w ∈ f v, lo w ∉ ks := by
      intro w hw hmem
      obtain ⟨u, hu⟩ := hfound (lo w) (by simp [hmem])
      have heq := h.key_of_part hv hvparts hw hu
      exact hk (heq ▸ hmem)
    have hmem : ∀ w, w ∈ live (Intervals.substitute m k (f v)) ↔
        (w ∈ live m ∧ lo w ≠ k) ∨ w ∈ f v := by
      intro w
      rw [hlive]
      rfl
    have hfound' : ∀ j ∈ ks, ∃ u, (Intervals.substitute m k (f v))[j]? = some u := by
      intro j hj
      obtain ⟨u, hu⟩ := hfound j (by simp [hj])
      have hju : lo u = j := h.keyed j u hu
      have hlive' : u ∈ live (Intervals.substitute m k (f v)) := by
        refine (hmem u).2 (.inl ⟨⟨j, hu⟩, ?_⟩)
        rintro rfl
        exact hk (hju ▸ hj)
      exact ⟨u, hju ▸ hsound.mem_live.1 hlive'⟩
    have hparts' : ∀ u ∈ live (Intervals.substitute m k (f v)), lo u ∈ ks → Parts u (f u) := by
      intro u hu hj
      rcases (hmem u).1 hu with ⟨hu, _⟩ | hu
      · exact hparts u hu (by simp [hj])
      · exact absurd hj (hpart u hu)
    obtain ⟨hsound', hlive'⟩ := ih hsound hks hfound' hparts' hrun
    refine ⟨hsound', ?_⟩
    rw [hlive']
    ext w
    constructor
    · rintro (⟨hw, hout⟩ | ⟨u, hu, hj, hwu⟩)
      · rcases (hmem w).1 hw with ⟨hw, hne⟩ | hw
        · exact .inl ⟨hw, by simp [hne, hout]⟩
        · exact .inr ⟨v, hvlive, by simp [hlo], hw⟩
      · rcases (hmem u).1 hu with ⟨hu, _⟩ | hu
        · exact .inr ⟨u, hu, by simp [hj], hwu⟩
        · exact absurd hj (hpart u hu)
    · rintro (⟨hw, hout⟩ | ⟨u, hu, hj, hwu⟩)
      · obtain ⟨hne, hout⟩ : lo w ≠ k ∧ lo w ∉ ks := by simpa using hout
        exact .inl ⟨(hmem w).2 (.inl ⟨hw, hne⟩), hout⟩
      · rcases mem_cons.1 hj with hj | hj
        · obtain rfl := h.tiled.eq_of_lo hvlive hu (hlo.trans hj.symm)
          exact .inl ⟨(hmem w).2 (.inr hwu), hpart w hwu⟩
        · refine .inr ⟨u, (hmem u).2 (.inl ⟨hu, ?_⟩), hj, hwu⟩
          intro heq
          exact hk (heq ▸ hj)

end Sound

/-! ### Finding the value at an address -/

/-- The last entry with a key up to `x`: `range(..=x).next_back()`. -/
def floor? (m : TreeMap ℕ V) (x : ℕ) : Option (ℕ × V) :=
  (m.toList.filter fun entry => decide (entry.1 ≤ x)).getLast?

/-- The first value that covers `x`. -/
def at? (m : TreeMap ℕ V) (x : ℕ) : Option V :=
  (valuesOf m).find? fun v => decide (Covers v x)

namespace Sound

variable {m : TreeMap ℕ V}

theorem at?_eq_some (h : Sound m) : at? m x = some v ↔ v ∈ live m ∧ Covers v x := by
  constructor
  · intro hfind
    exact ⟨mem_valuesOf.1 (mem_of_find?_eq_some hfind), by simpa using find?_some hfind⟩
  · rintro ⟨hv, hx⟩
    rcases hfind : at? m x with _ | w
    · have hnone := find?_eq_none.1 hfind v (mem_valuesOf.2 hv)
      simp [hx] at hnone
    · have hw := mem_valuesOf.1 (mem_of_find?_eq_some hfind)
      have hwx : Covers w x := by simpa using find?_some hfind
      rw [h.tiled.eq_of_covers hw hv hwx hx]

/-- The entry before an address is the only candidate for the value at the address. -/
theorem floor?_eq (h : Sound m) (x : ℕ) :
    ((floor? m x).map snd).filter (fun v => decide (x < hi v)) = at? m x := by
  ext v
  rw [h.at?_eq_some]
  constructor
  · intro hfound
    obtain ⟨hlast, hx⟩ := Option.filter_eq_some_iff.1 hfound
    obtain ⟨⟨k, w⟩, hfloor, rfl⟩ := Option.map_eq_some_iff.1 hlast
    have hmem := mem_of_getLast? hfloor
    simp only [mem_filter, mem_toList_iff_getElem?_eq_some, decide_eq_true_eq] at hmem
    have hlo := h.keyed k w hmem.1
    exact ⟨⟨k, hmem.1⟩, hlo ▸ hmem.2, by simpa using hx⟩
  · rintro ⟨hv, hlo, hx⟩
    have hvmem : (lo v, v) ∈ m.toList.filter fun entry => decide (entry.1 ≤ x) := by
      simp [h.mem_live.1 hv, hlo]
    obtain ⟨⟨k, w⟩, hlast⟩ : ∃ e, floor? m x = some e :=
      ⟨_, getLast?_eq_some_getLast (ne_nil_of_mem hvmem)⟩
    have hmem := mem_of_getLast? hlast
    simp only [mem_filter, mem_toList_iff_getElem?_eq_some, decide_eq_true_eq] at hmem
    -- the keys increase, so that the start of `v` is not after the last key
    have hle : lo v ≤ k := by
      obtain ⟨front, hfront⟩ := getLast?_eq_some_iff.1 hlast
      have hordered := (m.ordered_keys_toList).filter (fun entry => decide (entry.1 ≤ x))
      rw [hfront] at hordered hvmem
      rcases mem_append.1 hvmem with hin | hin
      · have hlt := (pairwise_append.1 hordered).2.2 _ hin (k, w) (by simp)
        exact (Nat.compare_eq_lt.1 hlt).le
      · simp only [List.mem_singleton, Prod.mk.injEq] at hin
        exact hin.1.le
    have hkw := h.keyed k w hmem.1
    have hproper := h.tiled.proper w ⟨k, hmem.1⟩
    have heq : v = w :=
      h.tiled.eq_of_covers hv ⟨k, hmem.1⟩ ⟨hle, hmem.2.trans_lt hx⟩ ⟨hkw.le, hkw ▸ hproper⟩
    rw [hlast, ← heq]
    simp [hx]

end Sound

end Nixe.Intervals
