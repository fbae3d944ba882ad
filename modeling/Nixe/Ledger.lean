/-
**A ledger of requests and replies.**

What a transport with one server is for.  Requests are queued in the order of their submission; the
server takes them one at a time and replies to each before it takes the next; a reply is delivered
to the owner of its request, and an owner submits nothing new until then.  The ledger keeps every
request with what became of it.

The requests are of an arbitrary type, from which an owner and a message can be read.

Main definitions:

* `Ledger`, `Step` — the ledger and its transitions;
* `Event` — what can be seen of a transition, with the projections `submitted`, `received`,
  `replied`, `delivered` of a list of events;
* `Runs` — the ledger that a list of events leads to.

Main results:

* `Runs.received_append` — the server receives in the order of submission;
* `Runs.delivered_append` — **every owner gets the replies to its own requests**, in their order,
  each once;
* `Runs.length_submitted` — one reply for each request, but for the one that is open.
-/

import Mathlib.Tactic

set_option autoImplicit false

namespace Nixe

open List hiding beq_eq_decide

structure Answered (ρ μ : Type) where
  request : ρ
  reply : μ
  delivered : Bool

/-- Every request, in the order of submission: the answered ones, the one that the server has, and
the queue. -/
structure Ledger (ρ μ : Type) where
  answered : List (Answered ρ μ)
  current : Option ρ
  queued : List ρ

namespace Ledger

inductive Event (κ μ : Type) where
  | submit (owner : κ) (message : μ)
  | receive (message : μ)
  | reply (message : μ)
  | deliver (owner : κ) (message : μ)

variable {ρ κ μ : Type} {L : Ledger ρ μ}

def empty : Ledger ρ μ := ⟨[], none, []⟩

/-- The replies that have not been delivered. -/
def undelivered (L : Ledger ρ μ) : List (Answered ρ μ) := L.answered.filter fun e => !e.delivered

/-- The requests that are not answered. -/
def unanswered (L : Ledger ρ μ) : List ρ := L.current.toList ++ L.queued

/-- The requests whose owners still wait for the reply. -/
def pending (L : Ledger ρ μ) : List ρ := L.undelivered.map Answered.request ++ L.unanswered

def requests (L : Ledger ρ μ) : List ρ := L.answered.map Answered.request ++ L.unanswered

section Events

variable [DecidableEq κ] (h : List (Event κ μ))

def submitted : List (κ × μ) := h.filterMap fun
  | .submit owner message => some (owner, message)
  | _ => none

def received : List μ := h.filterMap fun
  | .receive message => some message
  | _ => none

def replied : List μ := h.filterMap fun
  | .reply message => some message
  | _ => none

def delivered (owner : κ) : List μ := h.filterMap fun
  | .deliver owner' message => if owner' = owner then some message else none
  | _ => none

end Events

variable (owner : ρ → κ) (message : ρ → μ)

/-- **The transitions.** -/
inductive Step : Ledger ρ μ → Event κ μ → Ledger ρ μ → Prop where
  | submit (L : Ledger ρ μ) (r : ρ) (hnew : owner r ∉ L.pending.map owner) :
      Step L (.submit (owner r) (message r)) { L with queued := L.queued ++ [r] }
  | receive (L : Ledger ρ μ) (r : ρ) (rest : List ρ) (hcurrent : L.current = none)
      (hqueued : L.queued = r :: rest) :
      Step L (.receive (message r)) { L with current := some r, queued := rest }
  | reply (L : Ledger ρ μ) (r : ρ) (m : μ) (hcurrent : L.current = some r) :
      Step L (.reply m) { L with answered := L.answered ++ [⟨r, m, false⟩], current := none }
  | deliver (L : Ledger ρ μ) (before after : List (Answered ρ μ)) (r : ρ) (m : μ)
      (hanswered : L.answered = before ++ ⟨r, m, false⟩ :: after) :
      Step L (.deliver (owner r) m) { L with answered := before ++ ⟨r, m, true⟩ :: after }

/-- The ledgers that a list of events leads to. -/
inductive Runs : List (Event κ μ) → Ledger ρ μ → Prop where
  | nil : Runs [] empty
  | snoc {h : List (Event κ μ)} {L L' : Ledger ρ μ} {e : Event κ μ} (hrun : Runs h L)
      (hstep : Step owner message L e L') : Runs (h ++ [e]) L'

/-- Each request with whether its owner has the reply. -/
def slots (L : Ledger ρ μ) : List (κ × Bool) :=
  L.answered.map (fun e => (owner e.request, e.delivered)) ++
    L.unanswered.map fun r => (owner r, false)

/-- What the events and the ledger say about each other, and that a request is only submitted when
the owner has the replies to its earlier ones. -/
structure Explains [DecidableEq κ] (h : List (Event κ μ)) (L : Ledger ρ μ) : Prop where
  submitted : submitted h = L.requests.map fun r => (owner r, message r)
  received : received h = (L.answered.map Answered.request ++ L.current.toList).map message
  replied : replied h = L.answered.map Answered.reply
  delivered : ∀ o, delivered h o =
    (L.answered.filter fun e => decide (owner e.request = o) && e.delivered).map Answered.reply
  ordered : (L.slots owner).Pairwise fun a b => a.1 = b.1 → a.2 = true

variable {owner message}

theorem slots_of_pending {o : κ} (ho : o ∉ L.pending.map owner) :
    ∀ a ∈ L.slots owner, a.1 = o → a.2 = true := by
  rintro a ha rfl
  by_contra hfalse
  refine ho ?_
  rcases mem_append.1 ha with ha | ha
  · obtain ⟨e, he, rfl⟩ := mem_map.1 ha
    refine mem_map.2 ⟨e.request, mem_append_left _ (mem_map_of_mem ?_), rfl⟩
    exact mem_filter.2 ⟨he, by simpa using hfalse⟩
  · obtain ⟨r, hr, rfl⟩ := mem_map.1 ha
    exact mem_map.2 ⟨r, mem_append_right _ hr, rfl⟩

/-- Once a request has no reply, its owner has no later one. -/
theorem owner_ne_of_ordered {before after : List (Answered ρ μ)} {r : ρ} {m : μ}
    (hordered : (L.slots owner).Pairwise fun a b => a.1 = b.1 → a.2 = true)
    (hanswered : L.answered = before ++ ⟨r, m, false⟩ :: after) :
    ∀ e ∈ after, owner e.request ≠ owner r := by
  intro e he heq
  have hpairs := (pairwise_append.1 hordered).1
  rw [hanswered, map_append] at hpairs
  have hhead := rel_of_pairwise_cons (pairwise_append.1 hpairs).2.1 (mem_map_of_mem he)
  simpa using hhead heq.symm

attribute [local simp] Ledger.received Ledger.replied Ledger.delivered Ledger.submitted
  List.filter_append List.filter_cons

variable {h : List (Event κ μ)}

theorem Explains.step [DecidableEq κ] {L' : Ledger ρ μ} {e : Event κ μ}
    (hL : Explains owner message h L) (hstep : Step owner message L e L') :
    Explains owner message (h ++ [e]) L' := by
  cases hstep with
  | submit r hnew =>
    refine ⟨?_, ?_, ?_, ?_, ?_⟩
    · have hold := hL.submitted
      simp only [Ledger.submitted] at hold ⊢
      rw [filterMap_append, hold]
      simp [requests, unanswered]
    · simpa using hL.received
    · simpa using hL.replied
    · intro o
      simpa using hL.delivered o
    · have hslots : slots owner { L with queued := L.queued ++ [r] } =
          L.slots owner ++ [(owner r, false)] := by
        simp [slots, unanswered]
      rw [hslots, pairwise_append]
      refine ⟨hL.ordered, pairwise_singleton .., ?_⟩
      intro a ha b hb
      obtain rfl := mem_singleton.1 hb
      exact slots_of_pending hnew a ha
  | receive r rest hcurrent hqueued =>
    have hsame : unanswered { L with current := some r, queued := rest } = L.unanswered := by
      simp [unanswered, hcurrent, hqueued]
    have hrequests : requests { L with current := some r, queued := rest } = L.requests := by
      rw [requests, hsame, requests]
    refine ⟨?_, ?_, ?_, ?_, ?_⟩
    · rw [hrequests]
      simpa using hL.submitted
    · simpa [hcurrent] using hL.received
    · simpa using hL.replied
    · intro o
      simpa using hL.delivered o
    · rw [slots, hsame]
      exact hL.ordered
  | reply r m hcurrent =>
    refine ⟨?_, ?_, ?_, ?_, ?_⟩
    · simpa [requests, unanswered, hcurrent] using hL.submitted
    · simpa [hcurrent] using hL.received
    · simpa using hL.replied
    · intro o
      simpa using hL.delivered o
    · simpa [slots, unanswered, hcurrent] using hL.ordered
  | deliver before after r m hanswered =>
    have hafter := owner_ne_of_ordered hL.ordered hanswered
    refine ⟨?_, ?_, ?_, ?_, ?_⟩
    · simpa [requests, unanswered, hanswered] using hL.submitted
    · simpa [hanswered] using hL.received
    · simpa [hanswered] using hL.replied
    · intro o
      have hold := hL.delivered o
      rw [hanswered] at hold
      by_cases ho : owner r = o
      · -- nothing of this owner comes later
        subst ho
        have hnil : after.filter (fun e => decide (owner e.request = owner r) && e.delivered) =
            [] := by
          rw [filter_eq_nil_iff]
          intro e he
          simp [hafter e he]
        simpa [hnil] using hold
      · simpa [ho] using hold
    · have hordered := hL.ordered
      simp only [slots, hanswered, map_append, map_cons, append_assoc,
        cons_append, pairwise_append, pairwise_cons] at hordered ⊢
      refine ⟨hordered.1, ⟨fun _ _ _ => trivial, hordered.2.1.2⟩, ?_⟩
      intro a ha b hb
      rcases mem_cons.1 hb with rfl | hb
      · exact hordered.2.2 a ha (owner r, false) (mem_cons_self ..)
      · exact hordered.2.2 a ha b (mem_cons_of_mem _ hb)

theorem Runs.explains [DecidableEq κ] (hrun : Runs owner message h L) :
    Explains owner message h L := by
  induction hrun with
  | nil => exact ⟨rfl, rfl, rfl, fun _ => rfl, .nil⟩
  | snoc _ hstep ih => exact ih.step hstep

section Runs

variable [DecidableEq κ] {h : List (Event κ μ)} {L : Ledger ρ μ}

/-- **The order.**  What was received, followed by the queue, is what was submitted. -/
theorem Runs.received_append (hrun : Runs owner message h L) :
    received h ++ L.queued.map message = (submitted h).map Prod.snd := by
  have hL := hrun.explains
  rw [hL.received, hL.submitted]
  simp [requests, unanswered, Function.comp_def]

/-- At most one request is received and not replied to. -/
theorem Runs.length_received (hrun : Runs owner message h L) :
    (received h).length = (replied h).length + L.current.toList.length := by
  have hL := hrun.explains
  rw [hL.received, hL.replied]
  simp

theorem Runs.zip_replied (hrun : Runs owner message h L) : (submitted h).zip (replied h) =
      L.answered.map fun e => ((owner e.request, message e.request), e.reply) := by
  have hL := hrun.explains
  rw [hL.submitted, hL.replied, requests, map_append, map_map]
  -- the longer list is cut off where the replies end
  have hcut : ∀ (l : List (Answered ρ μ)) rest,
      (l.map ((fun r => (owner r, message r)) ∘ Answered.request) ++ rest).zip
        (l.map Answered.reply) =
      l.map fun e => ((owner e.request, message e.request), e.reply) := by
    intro l rest
    induction l with
    | nil => simp
    | cons e l ih => simpa using ih
  exact hcut L.answered _

/-- The replies to the requests of one owner: first those that were delivered. -/
theorem filter_owner_eq {l : List (Answered ρ μ)}
    (hordered : (l.map fun e => (owner e.request, e.delivered)).Pairwise
      fun a b => a.1 = b.1 → a.2 = true) (o : κ) :
    (l.filter fun e => decide (owner e.request = o) && e.delivered) ++
      ((l.filter fun e => !e.delivered).filter fun e => decide (owner e.request = o)) =
    l.filter fun e => decide (owner e.request = o) := by
  induction l with
  | nil => rfl
  | cons e l ih =>
    rw [map_cons, pairwise_cons] at hordered
    have htail := ih hordered.2
    by_cases ho : owner e.request = o
    · by_cases hd : e.delivered = true
      · simpa [ho, hd] using htail
      · -- the undelivered one is the last of its owner
        have hrest : l.filter (fun e => decide (owner e.request = o)) = [] := by
          rw [filter_eq_nil_iff]
          intro e' he'
          have hfirst := hordered.1 _ (mem_map_of_mem he')
          simp only [ho] at hfirst
          simp only [decide_eq_true_eq]
          exact fun heq => hd (hfirst heq.symm)
        have hnone : l.filter (fun e => decide (owner e.request = o) && e.delivered) = [] := by
          rw [hrest, append_eq_nil_iff] at htail
          exact htail.1
        have hnone' : (l.filter fun e => !e.delivered).filter
            (fun e => decide (owner e.request = o)) = [] := by
          rw [hrest, append_eq_nil_iff] at htail
          exact htail.2
        simp [hd, hrest, hnone, hnone']
    · by_cases hd : e.delivered = true <;> simpa [ho, hd] using htail

/-- **The replies.**  What was delivered to an owner, followed by the reply that waits for it, are
the replies to its requests. -/
theorem Runs.delivered_append (hrun : Runs owner message h L) {o : κ} : delivered h o ++
      (L.undelivered.filter fun e => decide (owner e.request = o)).map Answered.reply =
    (((submitted h).zip (replied h)).filter fun x => decide (x.1.1 = o)).map Prod.snd := by
  have hL := hrun.explains
  have hordered := (pairwise_append.1 hL.ordered).1
  rw [hL.delivered, hrun.zip_replied, filter_map, map_map, ← map_append, undelivered,
    filter_owner_eq hordered]
  rfl

theorem Runs.pending_nodup (hrun : Runs owner message h L) : (L.pending.map owner).Nodup := by
  have hordered := hrun.explains.ordered
  have hsub : (L.pending.map fun r => (owner r, false)).Sublist (L.slots owner) := by
    rw [pending, map_append]
    refine .append ?_ (.refl _)
    rw [undelivered, map_map]
    have heq : (L.answered.filter fun e => !e.delivered).map
        ((fun r => (owner r, false)) ∘ Answered.request) =
        (L.answered.filter fun e => !e.delivered).map fun e => (owner e.request, e.delivered) := by
      refine map_congr_left ?_
      intro e he
      have hfalse : e.delivered = false := by simpa using (mem_filter.1 he).2
      simp [hfalse]
    rw [heq]
    exact filter_sublist.map _
  have hpairs := hordered.sublist hsub
  rw [pairwise_map] at hpairs
  rw [List.Nodup, pairwise_map]
  exact hpairs.imp fun {a b} hab heq => absurd (hab heq) (by simp)

/-- **The count.**  An owner has as many replies as it submitted requests, but for the one that is
pending. -/
theorem Runs.length_submitted (hrun : Runs owner message h L) {o : κ} :
    ((submitted h).filter fun x => decide (x.1 = o)).length =
      (delivered h o).length + (L.pending.map owner).count o := by
  have hL := hrun.explains
  have hordered := (pairwise_append.1 hL.ordered).1
  have hfilter := congrArg length (filter_owner_eq hordered o)
  rw [length_append, ← countP_eq_length_filter, ← countP_eq_length_filter,
    ← countP_eq_length_filter] at hfilter
  rw [hL.submitted, hL.delivered, length_map, ← countP_eq_length_filter,
    ← countP_eq_length_filter, requests, pending, undelivered]
  simp only [map_append, countP_append, countP_map, map_map,
    count_eq_countP, Function.comp_def, beq_eq_decide] at hfilter ⊢
  omega

end Runs

end Ledger

end Nixe
