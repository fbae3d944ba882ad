/-
**Places that are lent out and come back late.**

A place is registered, taken by one party, offered to another and lent to it; the tickets that are
out name the place only by its address.  A place can be removed and registered again under the same
address at any time, and a ticket that is still out is then taken for one of the new registration.
The registration from which a ticket was written is kept here beside the ticket, where no step
looks at it.

Main definitions:

* `Books` — the places, the tickets that are out and the returns so far;
* `Step` — what can happen; `Step True` registers a place only while no ticket for its address is
  out.

Main results:

* `Numbered.steps` — **no ticket is returned twice**, whatever happens;
* `Matched.steps` — **with strict registrations every return frees the registration of its ticket**,
  and a place that is free or taken has no ticket out.
-/
import Mathlib.Tactic
import Mathlib.Logic.Relation
import Mathlib.Data.Multiset.MapFold
import Mathlib.Data.Multiset.UnionInter

set_option autoImplicit false

namespace Nixe.Lending

open Multiset (add_cons cons_add le_cons_self map_cons mem_add mem_cons nodup_cons subset_of_le)
open Function

/-- In whose hands a registered place is. -/
inductive Phase
  | free
  | taken
  | offered
  | lent
  deriving DecidableEq, Repr

/-- A ticket that is out: its address, and the registration that it was written for. -/
structure Ticket (π : Type) where
  place : π
  registration : ℕ
  number : ℕ
  deriving DecidableEq, Repr

/-- A ticket that came back, with the registration that it freed, if any. -/
structure Return (π : Type) where
  ticket : Ticket π
  freed : Option ℕ
  deriving DecidableEq, Repr

/-- The places with their registrations, the tickets that are out, and the returns. -/
structure Books (π : Type) where
  places : π → Option (ℕ × Phase)
  offered : Multiset (Ticket π)
  lent : Multiset (Ticket π)
  returns : List (Return π)
  next : ℕ

variable {π : Type} {p : π} {before after phase : Phase} {places : π → Option (ℕ × Phase)}
  {registration : ℕ} {b b' : Books π}

/-- The place `p` goes from one phase to another, if it is in the first. -/
def pass [DecidableEq π] (places : π → Option (ℕ × Phase)) (p : π) (before after : Phase) :
    π → Option (ℕ × Phase) :=
  match places p with
  | some (registration, phase) =>
    if phase = before then update places p (some (registration, after)) else places
  | none => places

/-- The registration that a return to `p` frees. -/
def freedBy (places : π → Option (ℕ × Phase)) (p : π) : Option ℕ :=
  match places p with
  | some (registration, .lent) => some registration
  | _ => none

/-- What can happen to the books.  If `strict` holds, a place is registered only while no ticket
for its address is out. -/
inductive Step [DecidableEq π] (strict : Prop) : Books π → Books π → Prop
  | forget {b : Books π} (places : π → Option (ℕ × Phase))
      (h : ∀ p, places p = b.places p ∨ places p = none) : Step strict b { b with places }
  | register {b : Books π} (p : π) (registration : ℕ) (h : b.places p = none)
      (hstrict : strict → ∀ x ∈ b.offered + b.lent, x.place ≠ p) :
      Step strict b
        { b with places := update b.places p (some (registration, .free)) }
  | take {b : Books π} (p : π) : Step strict b { b with places := pass b.places p .free .taken }
  | giveBack {b : Books π} (p : π) :
      Step strict b { b with places := pass b.places p .taken .free }
  | offer {b : Books π} {p : π} {registration : ℕ}
      (h : b.places p = some (registration, .taken)) :
      Step strict b
        { b with
          places := update b.places p (some (registration, .offered))
          offered := ⟨p, registration, b.next⟩ ::ₘ b.offered
          next := b.next + 1 }
  | accept {b : Books π} {x : Ticket π} {rest : Multiset (Ticket π)} {registration : ℕ}
      (hout : b.offered = x ::ₘ rest) (h : b.places x.place = some (registration, .offered)) :
      Step strict b
        { b with
          places := update b.places x.place (some (registration, .lent))
          offered := rest
          lent := x ::ₘ b.lent }
  | withdraw {b : Books π} {x : Ticket π} {rest : Multiset (Ticket π)}
      (hout : b.offered = x ::ₘ rest) :
      Step strict b
        { b with places := pass b.places x.place .offered .taken, offered := rest }
  | skip {b : Books π} (next : ℕ) (h : b.next ≤ next) : Step strict b { b with next }
  | lose {b : Books π} (offered lent : Multiset (Ticket π)) (hoffered : offered ≤ b.offered)
      (hlent : lent ≤ b.lent) : Step strict b { b with offered, lent }
  | giveUp {b : Books π} {x : Ticket π} {rest : Multiset (Ticket π)} (hout : b.lent = x ::ₘ rest) :
      Step strict b
        { b with
          places := pass b.places x.place .lent .free
          lent := rest
          returns := b.returns ++ [⟨x, freedBy b.places x.place⟩] }

abbrev Steps [DecidableEq π] (strict : Prop) : Books π → Books π → Prop :=
  Relation.ReflTransGen (Step strict)

theorem pass_eq_some [DecidableEq π] {q : π}
    (h : pass places p before after q = some (registration, phase)) :
    places q = some (registration, phase) ∧ (q = p → phase ≠ before) ∨
      q = p ∧ places q = some (registration, before) ∧ phase = after := by
  unfold pass at h
  by_cases hq : q = p
  · subst hq
    cases hp : places q with
    | none =>
      simp only [hp] at h
      cases h
    | some entry =>
      obtain ⟨r, phase'⟩ := entry
      simp only [hp] at h
      by_cases hbefore : phase' = before
      · rw [if_pos hbefore] at h
        obtain ⟨rfl, rfl⟩ : r = registration ∧ after = phase := by simpa using h
        exact .inr ⟨rfl, hbefore ▸ rfl, rfl⟩
      · rw [if_neg hbefore, hp] at h
        obtain ⟨rfl, rfl⟩ : r = registration ∧ phase' = phase := by simpa using h
        exact .inl ⟨rfl, fun _ => hbefore⟩
  · refine .inl ⟨?_, fun heq => absurd heq hq⟩
    cases hp : places p with
    | none => simpa only [hp] using h
    | some =>
      simp only [hp] at h
      split at h
      · rwa [update_of_ne hq] at h
      · exact h

/-! ### Tickets are returned once -/

/-- The numbers of all tickets, out or returned. -/
def Books.numbers (b : Books π) : Multiset ℕ :=
  (b.offered + b.lent).map Ticket.number + ↑(b.returns.map fun e => e.ticket.number)

/-- All tickets have different numbers below the next. -/
structure Numbered (b : Books π) : Prop where
  nodup : b.numbers.Nodup
  below : ∀ n ∈ b.numbers, n < b.next

theorem Numbered.mono (hb : Numbered b) (hnumbers : b'.numbers ≤ b.numbers)
    (hnext : b.next ≤ b'.next) : Numbered b' where
  nodup := Multiset.nodup_of_le hnumbers hb.nodup
  below := fun n hn => (hb.below n (subset_of_le hnumbers hn)).trans_le hnext

theorem Numbered.step [DecidableEq π] {strict : Prop} (h : Step strict b b') (hb : Numbered b) :
    Numbered b' := by
  cases h with
  | forget | register | take | giveBack => exact hb.mono le_rfl le_rfl
  | @offer p r h =>
    have hnumbers : Books.numbers { b with
          places := update b.places p (some (r, .offered))
          offered := ⟨p, r, b.next⟩ ::ₘ b.offered
          next := b.next + 1 } = b.next ::ₘ b.numbers := by
      simp [Books.numbers]
    constructor
    · rw [hnumbers, nodup_cons]
      exact ⟨fun hmem => (hb.below _ hmem).false, hb.nodup⟩
    · intro n hn
      rw [hnumbers, mem_cons] at hn
      rcases hn with rfl | hn
      · exact Nat.lt_succ_self _
      · exact (hb.below n hn).trans (Nat.lt_succ_self _)
  | @accept x rest r hout h =>
    refine hb.mono (le_of_eq ?_) le_rfl
    simp [Books.numbers, hout]
  | @withdraw x rest hout =>
    refine hb.mono ?_ le_rfl
    simp only [Books.numbers, hout, cons_add, map_cons]
    exact le_cons_self _ _
  | skip next h => exact hb.mono le_rfl h
  | lose offered lent hoffered hlent =>
    refine hb.mono ?_ le_rfl
    exact add_le_add_left (Multiset.map_le_map (add_le_add hoffered hlent)) _
  | @giveUp x rest hout =>
    refine hb.mono (le_of_eq ?_) le_rfl
    simp only [Books.numbers, hout, List.map_append, ← Multiset.coe_add, List.map_cons,
      List.map_nil, add_cons, map_cons, Multiset.coe_singleton,
      cons_add]
    rw [← add_assoc, Multiset.add_comm _ {x.number}, Multiset.singleton_add]

/-- **No ticket is returned twice.** -/
theorem Numbered.steps [DecidableEq π] {strict : Prop} (h : Steps strict b b') (hb : Numbered b) :
    Numbered b' := by
  induction h with
  | refl => exact hb
  | tail _ hstep ih => exact ih.step hstep

theorem Numbered.returns_nodup (hb : Numbered b) :
    (b.returns.map fun e => e.ticket.number).Nodup := by
  have h := hb.nodup
  rw [Books.numbers, Multiset.nodup_add] at h
  exact Multiset.coe_nodup.1 h.2.1

/-! ### Returns free what was lent -/

/-- The tickets that are out name different places; the place of each is in the hands that the
ticket says, under the registration of the ticket; and so were the returns. -/
structure Matched (b : Books π) : Prop where
  nodup : ((b.offered + b.lent).map Ticket.place).Nodup
  offered : ∀ x ∈ b.offered, ∀ registration phase, b.places x.place = some (registration, phase) →
    registration = x.registration ∧ phase = .offered
  lent : ∀ x ∈ b.lent, ∀ registration phase, b.places x.place = some (registration, phase) →
    registration = x.registration ∧ phase = .lent
  returns : ∀ e ∈ b.returns, ∀ registration, e.freed = some registration →
    registration = e.ticket.registration

section

variable (hb : Matched b)
include hb

/-- A place that is free or taken has no ticket out. -/
theorem Matched.idle (h : b.places p = some (registration, phase))
    (hphase : phase = .free ∨ phase = .taken) {x : Ticket π} (hx : x ∈ b.offered + b.lent) :
    x.place ≠ p := by
  rintro rfl
  rcases mem_add.1 hx with hx | hx
  · obtain ⟨-, rfl⟩ := hb.offered x hx _ _ h
    simp at hphase
  · obtain ⟨-, rfl⟩ := hb.lent x hx _ _ h
    simp at hphase

/-- The places change only where no ticket points, or are forgotten. -/
theorem Matched.replace (h : ∀ p registration phase, places p = some (registration, phase) →
      b.places p = some (registration, phase) ∨ ∀ x ∈ b.offered + b.lent, x.place ≠ p) :
    Matched { b with places } where
  nodup := hb.nodup
  offered := by
    intro x hx registration phase hplace
    rcases h _ _ _ hplace with hold | hnone
    · exact hb.offered x hx _ _ hold
    · exact absurd rfl (hnone x (mem_add.2 (.inl hx)))
  lent := by
    intro x hx registration phase hplace
    rcases h _ _ _ hplace with hold | hnone
    · exact hb.lent x hx _ _ hold
    · exact absurd rfl (hnone x (mem_add.2 (.inr hx)))
  returns := hb.returns

theorem Matched.lose {offered lent : Multiset (Ticket π)}
    (hoffered : offered ≤ b.offered) (hlent : lent ≤ b.lent) :
    Matched { b with offered, lent } where
  nodup := Multiset.nodup_of_le (Multiset.map_le_map (add_le_add hoffered hlent)) hb.nodup
  offered := fun x hx => hb.offered x (subset_of_le hoffered hx)
  lent := fun x hx => hb.lent x (subset_of_le hlent hx)
  returns := hb.returns

/-- A ticket that comes back leaves no other for its place. -/
theorem Matched.alone {x : Ticket π} {rest : Multiset (Ticket π)}
    (hout : b.offered + b.lent = x ::ₘ rest) {y : Ticket π} (hy : y ∈ rest) :
    y.place ≠ x.place := by
  have h := hb.nodup
  rw [hout, map_cons, nodup_cons] at h
  intro heq
  exact h.1 (heq ▸ Multiset.mem_map_of_mem _ hy)

/-- The phase of one place changes while no ticket for it is out. -/
theorem Matched.pass [DecidableEq π] (h : ∀ x ∈ b.offered + b.lent, x.place ≠ p) :
    Matched { b with places := pass b.places p before after } := by
  refine hb.replace fun q registration phase hq => ?_
  rcases pass_eq_some hq with ⟨hsame, -⟩ | ⟨rfl, -, -⟩
  · exact .inl hsame
  · exact .inr h

/-- The phase of one place that is idle changes. -/
theorem Matched.pass_idle [DecidableEq π] (hbefore : before = .free ∨ before = .taken) :
    Matched { b with places := Lending.pass b.places p before after } := by
  refine hb.replace fun q registration phase hq => ?_
  rcases pass_eq_some hq with ⟨hsame, -⟩ | ⟨rfl, hold, -⟩
  · exact .inl hsame
  · exact .inr fun x => hb.idle hold hbefore

end

theorem Matched.step [DecidableEq π] (h : Step True b b') (hb : Matched b) : Matched b' := by
  cases h with
  | forget places h =>
    refine hb.replace fun p registration phase hp => .inl ?_
    rcases h p with hsame | hnone
    · exact hsame ▸ hp
    · rw [hnone] at hp
      cases hp
  | register p r h hstrict =>
    refine hb.replace fun q registration phase hq => ?_
    by_cases hqp : q = p
    · exact .inr (hqp ▸ hstrict trivial)
    · rw [update_of_ne hqp] at hq
      exact .inl hq
  | take => exact hb.pass_idle (.inl rfl)
  | giveBack => exact hb.pass_idle (.inr rfl)
  | @offer p r h =>
    have hidle : ∀ x ∈ b.offered + b.lent, x.place ≠ p := fun x => hb.idle h (.inr rfl)
    refine ⟨?_, ?_, ?_, hb.returns⟩
    · rw [cons_add, map_cons, nodup_cons]
      refine ⟨?_, hb.nodup⟩
      intro hmem
      obtain ⟨x, hx, hplace⟩ := Multiset.mem_map.1 hmem
      exact hidle x hx hplace
    · intro x hx registration phase hplace
      rcases mem_cons.1 hx with rfl | hx
      · simp only [update_self, Option.some.injEq, Prod.mk.injEq] at hplace
        exact ⟨hplace.1.symm, hplace.2.symm⟩
      · simp only [update_of_ne (hidle x (mem_add.2 (.inl hx)))] at hplace
        exact hb.offered x hx _ _ hplace
    · intro x hx registration phase hplace
      simp only [update_of_ne (hidle x (mem_add.2 (.inr hx)))] at hplace
      exact hb.lent x hx _ _ hplace
  | @accept x rest r hout h =>
    have hx : x ∈ b.offered := hout ▸ Multiset.mem_cons_self x rest
    have hall : b.offered + b.lent = x ::ₘ (rest + b.lent) := by rw [hout, cons_add]
    have halone : ∀ y ∈ rest + b.lent, y.place ≠ x.place := fun y => hb.alone hall
    refine ⟨?_, ?_, ?_, hb.returns⟩
    · have hnodup := hb.nodup
      rw [hall] at hnodup
      rwa [add_cons]
    · intro y hy registration phase hplace
      simp only [update_of_ne (halone y (mem_add.2 (.inl hy)))] at hplace
      exact hb.offered y (hout ▸ Multiset.mem_cons_of_mem hy) _ _ hplace
    · intro y hy registration phase hplace
      rcases mem_cons.1 hy with rfl | hy
      · simp only [update_self, Option.some.injEq, Prod.mk.injEq] at hplace
        exact ⟨hplace.1 ▸ (hb.offered y hx _ _ h).1, hplace.2.symm⟩
      · simp only [update_of_ne (halone y (mem_add.2 (.inr hy)))] at hplace
        exact hb.lent y hy _ _ hplace
  | @withdraw x rest hout =>
    have hall : b.offered + b.lent = x ::ₘ (rest + b.lent) := by rw [hout, cons_add]
    have hrest : Matched { b with offered := rest } :=
      hb.lose (hout ▸ le_cons_self rest x) le_rfl
    exact hrest.pass fun y => hb.alone hall
  | skip => exact ⟨hb.nodup, hb.offered, hb.lent, hb.returns⟩
  | lose offered lent hoffered hlent => exact hb.lose hoffered hlent
  | @giveUp x rest hout =>
    have hx : x ∈ b.lent := hout ▸ Multiset.mem_cons_self x rest
    have hall : b.offered + b.lent = x ::ₘ (b.offered + rest) := by rw [hout, add_cons]
    have hrest : Matched { b with lent := rest } :=
      hb.lose le_rfl (hout ▸ le_cons_self rest x)
    have hfree : Matched
        { b with lent := rest, places := Lending.pass b.places x.place .lent .free } :=
      hrest.pass fun y => hb.alone hall
    obtain ⟨hnodup, hoffered, hlent, -⟩ := hfree
    refine ⟨hnodup, hoffered, hlent, ?_⟩
    intro e he registration hfreed
    rcases List.mem_append.1 he with he | he
    · exact hb.returns e he registration hfreed
    · obtain rfl := List.mem_singleton.1 he
      unfold freedBy at hfreed
      split at hfreed
      · next r hplace =>
        cases hfreed
        exact (hb.lent x hx _ _ hplace).1
      · cases hfreed

/-- **With strict registrations every return frees the registration of its ticket.** -/
theorem Matched.steps [DecidableEq π] (h : Steps True b b') (hb : Matched b) : Matched b' := by
  induction h with
  | refl => exact hb
  | tail _ hstep ih => exact ih.step hstep

end Nixe.Lending
