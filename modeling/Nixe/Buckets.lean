/-
**Queues filed under two keys.**

A map of maps of lists: each pair of keys names a bucket, and an empty bucket is not stored at all.
A program reads a bucket and puts one back, dropping it, and the inner map with it, when nothing is
left.

Main definitions:

* `Buckets` — the nested maps;
* `bucket`, `store`, `push` — reading a bucket, putting one back, and appending one element;
* `Tidy` — no empty bucket and no empty inner map is stored.

Main results:

* `bucket_store` — what is read after a bucket was put back;
* `Tidy.store` — putting a bucket back keeps the structure tidy;
* `push_eq_store` — appending is putting back a longer bucket.
-/

import Mathlib.Tactic

set_option autoImplicit false

namespace Nixe

open Std (TreeMap)
open Std.TreeMap

variable {α β γ : Type} [Ord α] [Ord β]

abbrev Buckets (α β γ : Type) [Ord α] [Ord β] : Type := TreeMap α (TreeMap β (List γ))

namespace Buckets

variable (m : Buckets α β γ) {inner : TreeMap β (List γ)}

/-- The bucket under two keys; an absent one is empty. -/
def bucket (a : α) (b : β) : List γ :=
  ((m[a]?.getD ∅)[b]?).getD []

/-- Putting the bucket `q` back under the keys `a` and `b`, where `inner` is what is filed under
`a`: an empty bucket is removed, and so is an inner map that has become empty. -/
def put (a : α) (inner : TreeMap β (List γ)) (b : β) (q : List γ) : Buckets α β γ :=
  let inner := if q.isEmpty then inner.erase b else inner.insert b q
  if inner.isEmpty then m.erase a else m.insert a inner

/-- Putting a bucket back among the buckets under `a`. -/
def store (a : α) (b : β) (q : List γ) : Buckets α β γ :=
  m.put a (m[a]?.getD ∅) b q

/-- `m.entry(a).or_default().entry(b).or_default().push_back(x)`. -/
def push (a : α) (b : β) (x : γ) : Buckets α β γ :=
  m.insert a ((m[a]?.getD ∅).insert b (m.bucket a b ++ [x]))

/-- No empty bucket and no empty inner map is stored. -/
structure Tidy (m : Buckets α β γ) : Prop where
  inner : ∀ (a : α) (inner : TreeMap β (List γ)), m[a]? = some inner → inner.isEmpty = false
  bucket : ∀ (a : α) (inner : TreeMap β (List γ)) (b : β) (q : List γ), m[a]? = some inner →
    inner[b]? = some q → q ≠ []

variable {m : Buckets α β γ}

theorem bucket_of {a : α}
    (h : m[a]? = some inner) (b : β) : m.bucket a b = (inner[b]?).getD [] := by
  simp [bucket, h]

theorem put_eq_store {a : α}
    (h : m[a]? = some inner) (b : β) (q : List γ) : m.put a inner b q = m.store a b q := by
  simp [store, h]

section Lawful

theorem tidy_empty [Std.TransOrd α] : Tidy (∅ : Buckets α β γ) := by
  constructor
  · intro a inner h
    simp at h
  · intro a inner b q h
    simp at h

variable [Std.TransOrd β]

theorem push_eq_store (m : Buckets α β γ) (a : α) (b : β) (x : γ) :
    m.push a b x = m.store a b (m.bucket a b ++ [x]) := by
  simp [push, store, put]

variable [Std.TransOrd α]

@[simp] theorem bucket_empty (a : α) (b : β) : bucket (∅ : Buckets α β γ) a b = [] := by
  simp [bucket]

variable [Std.LawfulEqOrd α] [Std.LawfulEqOrd β] [DecidableEq α] [DecidableEq β]

/-- What is read after a bucket was put back. -/
theorem bucket_store (m : Buckets α β γ) (a a' : α) (b b' : β) (q : List γ) :
    (m.store a b q).bucket a' b' = if a = a' ∧ b = b' then q else m.bucket a' b' := by
  -- the inner map that is written back, and what it holds under `b'`
  obtain ⟨inner, hinner⟩ : ∃ inner, inner =
      if q.isEmpty then (m[a]?.getD ∅).erase b else (m[a]?.getD ∅).insert b q := ⟨_, rfl⟩
  have hread : (inner[b']?).getD [] = if b = b' then q else m.bucket a b' := by
    rw [hinner]
    cases q with
    | nil => by_cases hb : b = b' <;> simp [getElem?_erase, hb, bucket]
    | cons => by_cases hb : b = b' <;> simp [getElem?_insert, hb, bucket]
  have hstore : m.store a b q = if inner.isEmpty then m.erase a else m.insert a inner := by
    rw [store, put, hinner]
  rw [hstore]
  by_cases ha : a = a'
  · subst ha
    simp only [true_and, ← hread]
    rcases he : inner.isEmpty with _ | _
    · simp [bucket]
    · simp [bucket, getElem?_of_isEmpty he]
  · rcases he : inner.isEmpty with _ | _
    · simp [bucket, getElem?_insert, ha]
    · simp [bucket, getElem?_erase, ha]

/-- Putting a bucket back keeps the structure tidy. -/
theorem Tidy.store (hm : Tidy m) {a : α} {b : β} {q : List γ} : Tidy (m.store a b q) := by
  obtain ⟨inner, hinner⟩ : ∃ inner, inner =
      if q.isEmpty then (m[a]?.getD ∅).erase b else (m[a]?.getD ∅).insert b q := ⟨_, rfl⟩
  have hstore : m.store a b q = if inner.isEmpty then m.erase a else m.insert a inner := by
    rw [Buckets.store, put, hinner]
  -- what is stored under a key is the new inner map, or was stored before
  have hcases : ∀ (a' : α) inner', (m.store a b q)[a']? = some inner' →
      (inner' = inner ∧ inner.isEmpty = false) ∨ m[a']? = some inner' := by
    intro a' inner' h
    rw [hstore] at h
    rcases he : inner.isEmpty with _ | _
    · rw [he] at h
      by_cases ha : a = a'
      · left
        simpa [ha, eq_comm] using h
      · right
        simpa [getElem?_insert, ha] using h
    · rw [he] at h
      by_cases ha : a = a' <;> simp [getElem?_erase, ha] at h ⊢
      exact h
  have hbuckets : ∀ (b' : β) q', inner[b']? = some q' → q' ≠ [] := by
    intro b' q' h
    have hold : ∀ q'', (m[a]?.getD ∅)[b']? = some q'' → q'' ≠ [] := by
      intro q'' hq
      rcases hma : m[a]? with _ | old
      · simp [hma] at hq
      · exact hm.bucket a old b' q'' hma (by simpa [hma] using hq)
    rw [hinner] at h
    cases q with
    | nil =>
      by_cases hb : b = b' <;> simp [getElem?_erase, hb] at h
      exact hold q' h
    | cons =>
      by_cases hb : b = b' <;> simp [getElem?_insert, hb] at h
      · rw [← h]
        simp
      · exact hold q' h
  constructor
  · intro a' inner' h
    rcases hcases a' inner' h with ⟨rfl, hne⟩ | hold
    · exact hne
    · exact hm.inner a' inner' hold
  · intro a' inner' b' q' h hq
    rcases hcases a' inner' h with ⟨rfl, -⟩ | hold
    · exact hbuckets b' q' hq
    · exact hm.bucket a' inner' b' q' hold hq

end Lawful

end Buckets

end Nixe
