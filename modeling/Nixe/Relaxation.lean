/-
**Least values along the edges of a graph.**

Every node of a finite graph has a value, and a value may be lowered along an edge to that of the
edge's source.  Rounds over all edges, in any order, are repeated until one changes nothing, and at
most as often as there are nodes.  Whatever the graph, every node then has the least value of all
nodes it can be reached from: a round carries values one edge further along every walk, and a node
that can be reached at all is reached by a walk with fewer edges than there are nodes.

Main definitions:

* `relaxEdge`, `round`, `settle` — the loop;
* `Linked` — an edge between two nodes that have values;
* `Steps` — a walk with its number of edges.

Main results:

* `Steps.shorten` — a walk in a finite set can be shortened below its size;
* `settle_isLeast` — **the loop computes the least value that reaches a node**.
-/
import Mathlib.Order.Bounds.Basic
import Mathlib.Data.Finset.Card
import Mathlib.Logic.Relation
import Mathlib.Tactic

set_option autoImplicit false

namespace Nixe.Relaxation

open Option Function

variable {V P : Type} {edges : List (V × V)}

/-! ### Short walks -/

/-- A walk from `u` with the given number of edges. -/
inductive Steps (E : V → V → Prop) (u : V) : ℕ → V → Prop
  | refl : Steps E u 0 u
  | tail {k : ℕ} {v w : V} : Steps E u k v → E v w → Steps E u (k + 1) w

section Walks

variable {E : V → V → Prop} {u v : V} {k : ℕ}

theorem exists_steps (h : Relation.ReflTransGen E u v) : ∃ k, Steps E u k v := by
  induction h with
  | refl => exact ⟨0, .refl⟩
  | tail _ he ih =>
    obtain ⟨k, hk⟩ := ih
    exact ⟨k + 1, hk.tail he⟩

theorem Steps.reflTransGen (h : Steps E u k v) : Relation.ReflTransGen E u v := by
  induction h with
  | refl => exact .refl
  | tail _ he ih => exact ih.tail he

theorem Steps.head (h : Steps E u (k + 1) v) : ∃ w, E u w ∧ Steps E w k v := by
  induction k generalizing v with
  | zero =>
    cases h with
    | tail hw he =>
      cases hw
      exact ⟨v, he, .refl⟩
  | succ k ih =>
    cases h with
    | tail hw he =>
      obtain ⟨x, hx, hxw⟩ := ih hw
      exact ⟨x, hx, hxw.tail he⟩

/-- On a shortest walk lies a node at every smaller distance. -/
theorem Steps.exists_between (h : Steps E u k v) (hmin : ∀ j < k, ¬ Steps E u j v) :
    ∀ i ≤ k, ∃ w, Steps E u i w ∧ ∀ j < i, ¬ Steps E u j w := by
  induction h with
  | refl =>
    intro i hi
    obtain rfl : i = 0 := by omega
    exact ⟨u, .refl, by simp⟩
  | @tail k w x hw he ih =>
    intro i hi
    rcases lt_or_ge k i with hlt | hle
    · obtain rfl : i = k + 1 := by omega
      exact ⟨x, hw.tail he, hmin⟩
    · -- a shorter walk to the predecessor would give one to the node itself
      exact ih (fun j hj hw' => hmin _ (by omega) (hw'.tail he)) i hle

theorem Steps.shorten {L : Finset V} (hu : u ∈ L) (hL : ∀ a b, E a b → b ∈ L) (h : Steps E u k v) :
    ∃ j < L.card, Steps E u j v := by
  classical
  have hex : ∃ j, Steps E u j v := ⟨k, h⟩
  have hbetween := (Nat.find_spec hex).exists_between fun j => Nat.find_min hex
  have : Nonempty V := ⟨u⟩
  choose! w hw hwmin using hbetween
  have hmem : ∀ i ∈ Finset.range (Nat.find hex + 1), w i ∈ L := by
    intro i hi
    cases i with
    | zero =>
      cases hw 0 (by omega)
      exact hu
    | succ i =>
      cases hw (i + 1) (by simpa using hi) with
      | tail _ he => exact hL _ _ he
  have hinj : Set.InjOn w (Finset.range (Nat.find hex + 1)) := by
    intro i hi j hj hij
    simp only [Finset.coe_range, Set.mem_Iio] at hi hj
    by_contra hne
    rcases lt_or_gt_of_ne hne with hlt | hlt
    · exact hwmin j (by omega) i hlt (hij ▸ hw i (by omega))
    · exact hwmin i (by omega) j hlt (hij ▸ hw j (by omega))
  have hcard := Finset.card_le_card_of_injOn w hmem hinj
  simpa using hcard

end Walks

/-! ### The loop -/

/-- An edge between two nodes that have values. -/
def Linked (edges : List (V × V)) (f : V → Option P) (a b : V) : Prop :=
  (a, b) ∈ edges ∧ (f a).isSome ∧ (f b).isSome

/-- `g` has values where `f` has, and none is larger. -/
def Lower [LinearOrder P] (f g : V → Option P) : Prop :=
  ∀ v, (g v).isSome = (f v).isSome ∧ ∀ p, f v = some p → ∃ q, g v = some q ∧ q ≤ p

theorem Lower.refl [LinearOrder P] (f : V → Option P) : Lower f f :=
  fun _ => ⟨rfl, fun p h => ⟨p, h, le_rfl⟩⟩

theorem Lower.trans [LinearOrder P] {f g h : V → Option P} (hfg : Lower f g) (hgh : Lower g h) :
    Lower f h := by
  intro v
  refine ⟨(hgh v).1.trans (hfg v).1, fun p hp => ?_⟩
  obtain ⟨q, hq, hqp⟩ := (hfg v).2 p hp
  obtain ⟨r, hr, hrq⟩ := (hgh v).2 q hq
  exact ⟨r, hr, hrq.trans hqp⟩

theorem Lower.linked [LinearOrder P] {f g : V → Option P} (h : Lower f g) :
    Linked edges g = Linked edges f := by
  funext a b
  simp [Linked, (h a).1, (h b).1]

section Loop

variable [DecidableEq V] [LinearOrder P] {f : V → Option P} {p : P} {v : V}

/-- The target of an edge takes the value of the source, if that is smaller.  Nodes without a value
take no part. -/
def relaxEdge (f : V → Option P) (e : V × V) : V → Option P :=
  match f e.1, f e.2 with
  | some a, some b => if a < b then update f e.2 (some a) else f
  | _, _ => f

def round (edges : List (V × V)) (f : V → Option P) : V → Option P := edges.foldl relaxEdge f

theorem lower_relaxEdge (f : V → Option P) (e : V × V) : Lower f (relaxEdge f e) := by
  unfold relaxEdge
  split
  · rename_i a b ha hb
    split
    · rename_i hlt
      intro v
      by_cases hv : v = e.2
      · subst hv
        simp only [update_self, hb, some.injEq, true_and, isSome_some]
        rintro p rfl
        exact ⟨a, rfl, hlt.le⟩
      · simp only [update_of_ne hv, true_and]
        exact fun p hp => ⟨p, hp, le_rfl⟩
    · exact .refl f
  · exact .refl f

theorem lower_round (edges : List (V × V)) (f : V → Option P) : Lower f (round edges f) := by
  induction edges generalizing f with
  | nil => exact .refl f
  | cons e edges ih => exact (lower_relaxEdge f e).trans (ih _)

theorem relaxEdge_le {a b : V} (ha : f a = some p) (hb : (f b).isSome) :
    ∃ q, relaxEdge f (a, b) b = some q ∧ q ≤ p := by
  obtain ⟨q, hq⟩ := isSome_iff_exists.1 hb
  unfold relaxEdge
  simp only [ha, hq]
  split
  · exact ⟨p, by simp, le_rfl⟩
  · exact ⟨q, hq, by order⟩

/-- **One round** carries the value of every node along each of its edges. -/
theorem round_le {a b : V} (h : Linked edges f a b) (ha : f a = some p) :
    ∃ q, round edges f b = some q ∧ q ≤ p := by
  induction edges generalizing f p with
  | nil => exact absurd h.1 (by simp)
  | cons e edges ih =>
    obtain ⟨hmem, ha', hb⟩ := h
    rcases List.mem_cons.1 hmem with rfl | hmem
    · obtain ⟨q, hq, hqp⟩ := relaxEdge_le ha hb
      obtain ⟨r, hr, hrq⟩ := (lower_round edges _ b).2 q hq
      exact ⟨r, hr, hrq.trans hqp⟩
    · have hlower := lower_relaxEdge f e
      obtain ⟨q, hq, hqp⟩ := (hlower a).2 p ha
      obtain ⟨r, hr, hrq⟩ := ih ⟨hmem, by rw [hq]; rfl, by rw [(hlower b).1]; exact hb⟩ hq
      exact ⟨r, hr, hrq.trans hqp⟩

/-- A value that one round leaves at a node is that of a node it can be reached from. -/
def Backed (edges : List (V × V)) (f g : V → Option P) : Prop :=
  ∀ v p, g v = some p → ∃ u, f u = some p ∧ Relation.ReflTransGen (Linked edges f) u v

theorem Backed.relaxEdge {g : V → Option P} (hb : Backed edges f g) (hl : Lower f g) {e : V × V}
    (he : e ∈ edges) : Backed edges f (relaxEdge g e) := by
  unfold Relaxation.relaxEdge
  split
  · rename_i a b ha hb'
    split
    · intro v p hv
      by_cases hve : v = e.2
      · subst hve
        rw [update_self, some.injEq] at hv
        obtain ⟨u, hu, hreach⟩ := hb e.1 p (ha.trans (congrArg some hv))
        refine ⟨u, hu, hreach.tail ⟨he, ?_, ?_⟩⟩
        · rw [← (hl e.1).1, ha]
          rfl
        · rw [← (hl e.2).1, hb']
          rfl
      · exact hb v p (by rwa [update_of_ne hve] at hv)
    · exact hb
  · exact hb

theorem Backed.round : ∀ (es : List (V × V)) (g : V → Option P), (∀ e ∈ es, e ∈ edges) → Lower f g →
      Backed edges f g → Backed edges f (round es g) := by
  intro es
  induction es with
  | nil => exact fun _ _ _ hb => hb
  | cons e es ih =>
    intro g hes hl hb
    exact ih _ (fun e' he' => hes e' (List.mem_cons_of_mem _ he'))
      (hl.trans (lower_relaxEdge g e)) (hb.relaxEdge hl (hes e List.mem_cons_self))

open Classical in
/-- Rounds until one changes nothing, and at most the given number. -/
noncomputable def settle (edges : List (V × V)) : ℕ → (V → Option P) → V → Option P
  | 0, f => f
  | n + 1, f => if round edges f = f then f else settle edges n (round edges f)

theorem lower_settle (edges : List (V × V)) (n : ℕ) (f : V → Option P) :
    Lower f (settle edges n f) := by
  induction n generalizing f with
  | zero => exact .refl f
  | succ n ih =>
    rw [settle]
    split
    · exact .refl f
    · exact (lower_round edges f).trans (ih _)

theorem backed_settle (n : ℕ) (g : V → Option P) (hl : Lower f g) (hb : Backed edges f g) :
    Backed edges f (settle edges n g) := by
  induction n generalizing g with
  | zero => exact hb
  | succ n ih =>
    rw [settle]
    split
    · exact hb
    · exact ih _ (hl.trans (lower_round edges g)) (.round edges g (fun _ h => h) hl hb)

/-- Without a change in a round, all walks are satisfied. -/
theorem le_of_round_eq (hfix : round edges f = f) {u : V} (hu : f u = some p)
    (h : Relation.ReflTransGen (Linked edges f) u v) : ∃ q, f v = some q ∧ q ≤ p := by
  induction h with
  | refl => exact ⟨p, hu, le_rfl⟩
  | tail _ he ih =>
    obtain ⟨q, hq, hqp⟩ := ih
    obtain ⟨r, hr, hrq⟩ := round_le he hq
    exact ⟨r, by rw [← hr, hfix], hrq.trans hqp⟩

/-- **Whole runs.**  After `n` rounds, or after one that changed nothing, the value of a node has
been carried along every walk with at most `n` edges. -/
theorem settle_le {n : ℕ} {k : ℕ} (hk : k ≤ n) {u : V} (hu : f u = some p)
    (h : Steps (Linked edges f) u k v) : ∃ q, settle edges n f v = some q ∧ q ≤ p := by
  induction n generalizing f k u p with
  | zero =>
    obtain rfl : k = 0 := by omega
    cases h
    exact ⟨p, hu, le_rfl⟩
  | succ n ih =>
    rw [settle]
    split
    · exact le_of_round_eq (by assumption) hu h.reflTransGen
    · have hlower := lower_round edges f
      cases k with
      | zero =>
        cases h
        exact ((hlower.trans (lower_settle edges n _)) _).2 p hu
      | succ =>
        -- the round takes the first edge, the remaining rounds the others
        obtain ⟨w, huw, hwv⟩ := h.head
        obtain ⟨q, hq, hqp⟩ := round_le huw hu
        rw [← hlower.linked] at hwv
        obtain ⟨r, hr, hrq⟩ := ih (Nat.le_of_succ_le_succ hk) hq hwv
        exact ⟨r, hr, hrq.trans hqp⟩

/-- **The least value.**  With as many rounds as there are nodes, every node ends with the least of
the values of the nodes it can be reached from, itself included. -/
theorem settle_isLeast {L : Finset V} (hL : ∀ v, (f v).isSome ↔ v ∈ L) (hv : v ∈ L) :
    ∃ q, settle edges L.card f v = some q ∧
      IsLeast {p | ∃ u, f u = some p ∧ Relation.ReflTransGen (Linked edges f) u v} q := by
  obtain ⟨p, hp⟩ := isSome_iff_exists.1 ((hL v).2 hv)
  obtain ⟨q, hq, -⟩ := (lower_settle edges L.card f v).2 p hp
  have hbacked : Backed edges f f := fun w r hr => ⟨w, hr, .refl⟩
  refine ⟨q, hq, backed_settle _ f (.refl f) hbacked v q hq, ?_⟩
  rintro r ⟨u, hu, hreach⟩
  obtain ⟨k, hk⟩ := exists_steps hreach
  obtain ⟨j, hj, hshort⟩ := hk.shorten ((hL u).1 (by rw [hu]; rfl)) fun a b h => (hL b).1 h.2.2
  obtain ⟨q', hq', hle⟩ := settle_le hj.le hu hshort
  rw [hq, some.injEq] at hq'
  exact hq' ▸ hle

end Loop

end Nixe.Relaxation
