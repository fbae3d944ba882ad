/-
**Every request gets its own reply, once.**

The runs of a session.  While both endpoints are open, what the clients and the server see is a run
of the ledger, so that the order of the requests, the delivery of the replies and the bound on what
is pending are those of the ledger.  When an endpoint has closed, the session is empty and stays so.

Main definitions:

* `eventOf` — what a command and its answer amount to, as an event of the ledger;
* `Tracks` — the invariant of a session and its history;
* `Quiet` — an answer that delivers nothing.

Main results:

* `tracks_step` — **one command**;
* `requests_answered_once` — **every run**.
-/

import Nixe.SessionLedger

set_option autoImplicit false

namespace Nixe.Session

open Std (TreeMap)
open List Std.TreeMap Prod Ledger SessionRequest

variable {H : Type} {c : Command H} {endpoint : SessionEndpoint}

/-- What a command and its answer amount to. -/
def eventOf : Command H × Outcome SessionError (Answer H) → Option (SessionEvent H)
  | (.request _ o m, .ok (.requested result)) => requestEvent o m result
  | (.pollRequest _ o, .ok (.polled (some (.response m)))) => some (.deliver o m)
  | (.receive _, .ok (.received m)) => some (.receive m)
  | (.reply _ m, .ok .replied) => some (.reply m)
  | _ => none

/-- Nothing is in flight. -/
structure Emptied (s : SessionState H) : Prop where
  queued : s.queued = []
  current : s.current = none
  pending : s.pendingByOwner = ∅
  responses : s.responses = ∅

/-- **The invariant.**  An endpoint is open while it has clones.  If both are, the history is a run
of a ledger that the session represents; otherwise the session is empty. -/
structure Tracks (h : List (Command H × Outcome SessionError (Answer H)))
    (s : SessionIdentity H) : Prop where
  server_iff : s.state.serverOpen = true ↔ 0 < s.servers
  client_iff : s.state.clientOpen = true ↔ 0 < s.clients
  bounded : s.state.pendingByOwner.size ≤ maxSessionRequests
  opened : s.state.serverOpen = true → s.state.clientOpen = true →
    ∃ L : SessionLedger H, Ledger.Runs owner message
      (h.filterMap eventOf) L ∧ Represents L s.state
  closed : s.state.serverOpen = false ∨ s.state.clientOpen = false → Emptied s.state

attribute [local simp] SessionIdentity.create SessionIdentity.setClones SessionIdentity.wake
  Session.close Ledger.submitted Ledger.undelivered

theorem tracks_create {isLight : Bool} : Tracks [] (SessionIdentity.create (H := H) isLight) := by
  refine ⟨by simp, by simp, ?_, ?_, ?_⟩
  · simp
  · intro _ _
    refine ⟨.empty, .nil, rfl, rfl, rfl, rfl, ?_, ?_⟩
    · simp [Ledger.empty]
    · simp [pending, unanswered, Ledger.empty]
  · simp

section Steps

variable {h : List (Command H × Outcome SessionError (Answer H))} {s s' : SessionIdentity H}
  {entry : Command H × Outcome SessionError (Answer H)}

/-- A command that does not touch the state behind the mutex. -/
theorem Tracks.same (ht : Tracks h s) (hs : s' = s) (hevent : eventOf entry = none) :
    Tracks (h ++ [entry]) s' := by
  subst hs
  refine ⟨ht.server_iff, ht.client_iff, ht.bounded, ?_, ht.closed⟩
  simpa [hevent] using ht.opened

theorem Tracks.advance (ht : Tracks h s) (hserver : s.state.serverOpen = true)
    (hclient : s.state.clientOpen = true) {L : SessionLedger H}
    (hrun : Ledger.Runs owner message (h.filterMap eventOf) L)
    (hadvances : Advances L (eventOf entry) s s') : Tracks (h ++ [entry]) s' := by
  refine ⟨?_, ?_, hadvances.bounded ht.bounded, fun _ _ => ?_, ?_⟩
  · rw [hadvances.serverOpen, hadvances.servers]
    exact ht.server_iff
  · rw [hadvances.clientOpen, hadvances.clients]
    exact ht.client_iff
  · obtain ⟨L', hstep, hrep⟩ := hadvances.ledger
    refine ⟨L', ?_, hrep⟩
    rcases hevent : eventOf entry with _ | e
    · rw [hevent] at hstep
      simpa [hevent, hstep] using hrun
    · rw [hevent] at hstep
      simpa [hevent] using hrun.snoc hstep
  · rw [hadvances.serverOpen, hadvances.clientOpen, hserver, hclient]
    simp

/-- An answer that delivers nothing: a refusal, or nothing to report. -/
def Quiet : Outcome SessionError (Answer H) → Prop
  | .err _ => True
  | .ok (.polled none) => True
  | .ok .done => True
  | .ok .absent => True
  | _ => False

/-- A call, as opposed to a change of the clones. -/
def Command.isCall : Command H → Bool
  | .clone _ => false
  | .drop _ => false
  | _ => true

/-- **A call on an open session.** -/
theorem perform_open (ht : Tracks h s) (hserver : s.state.serverOpen = true)
    (hclient : s.state.clientOpen = true) (hcall : c.isCall = true) :
    Call.Ensures (perform c) s (fun answer s' =>
        (submitted ((h ++ [(c, Outcome.ok answer)]).filterMap eventOf)).length < 2 ^ 64 - 1 →
          Tracks (h ++ [(c, .ok answer)]) s')
      fun e s' => Tracks (h ++ [(c, .err e)]) s' := by
  obtain ⟨L, hrun, hrep⟩ := ht.opened hserver hclient
  have hadvance : ∀ {answer : Answer H} {s' : SessionIdentity H},
      Advances L (eventOf (c, .ok answer)) s s' → Tracks (h ++ [(c, .ok answer)]) s' :=
    (ht.advance hserver hclient hrun)
  have hfailed : ∀ e s', eventOf (c, .err e) = none → s' = s →
      Tracks (h ++ [(c, .err e)]) s' := fun e s' hevent hs => ht.same hs hevent
  cases c with
  | request endpoint o m =>
    refine .bind ((request_ensures hrep hrun.pending_nodup hserver).imp ?_
      fun e s' => hfailed e s' rfl)
    intro result s' hresult
    refine .pure fun hbound => hadvance (hresult ?_)
    rintro rfl
    -- the submissions so far, and this one
    have hsubmitted := congrArg length hrun.explains.submitted
    rw [length_map] at hsubmitted
    have hone : (submitted ((h ++ [(Command.request endpoint o m,
        Outcome.ok (Answer.requested .submitted))]).filterMap eventOf)).length =
        (submitted (h.filterMap eventOf)).length + 1 := by
      simp [eventOf, requestEvent]
    omega
  | pollRequest =>
    refine .bind ((pollRequest_ensures hrep hrun.pending_nodup hserver).imp ?_
      fun e s' => hfailed e s' rfl)
    rintro result s' ⟨-, ⟨rfl, rfl, -⟩ | ⟨rfl, rfl, -⟩ | ⟨id, m, rfl, -, -, hadvances⟩⟩
    · exact .pure fun _ => hadvance (.refl hrep)
    · exact .pure fun _ => hadvance (.refl hrep)
    · exact .pure fun _ => hadvance hadvances
  | receive =>
    exact .bind ((receive_ensures hrep).imp (fun _ _ hm => .pure fun _ => hadvance hm)
      fun e s' => hfailed e s' rfl)
  | reply =>
    exact .bind ((reply_ensures hrep).imp (fun _ _ hm => .pure fun _ => hadvance hm)
      fun e s' => hfailed e s' rfl)
  | clone | drop => cases hcall

/-- A session with a closed endpoint. -/
structure Shut (s : SessionIdentity H) : Prop where
  server_iff : s.state.serverOpen = true ↔ 0 < s.servers
  client_iff : s.state.clientOpen = true ↔ 0 < s.clients
  closed : s.state.serverOpen = false ∨ s.state.clientOpen = false
  emptied : Emptied s.state

theorem Tracks.shut (ht : Tracks h s)
    (hclosed : s.state.serverOpen = false ∨ s.state.clientOpen = false) : Shut s :=
  ⟨ht.server_iff, ht.client_iff, hclosed, ht.closed hclosed⟩

/-- **A call on a closed session** of an endpoint that is alive: it is refused, or there is nothing
to report. -/
theorem perform_closed (ht : Shut s) (hcall : c.isCall = true) (halive : s.clones c.endpoint ≠ 0) :
    Quiet (perform c s).1 ∧ (perform c s).2 = s := by
  obtain ⟨hqueued, hcurrent, hpending, hresponses⟩ := ht.emptied
  -- one endpoint is alive, so the other one is closed
  have hserver : c.endpoint = .client → s.state.serverOpen = false := by
    intro hendpoint
    rw [hendpoint] at halive
    refine ht.closed.resolve_right fun hfalse => ?_
    have := (ht.client_iff.2 (pos_of_ne_zero halive)).symm.trans hfalse
    cases this
  have hclient : c.endpoint = .server → s.state.clientOpen = false := by
    intro hendpoint
    rw [hendpoint] at halive
    refine ht.closed.resolve_left fun hfalse => ?_
    have := (ht.server_iff.2 (pos_of_ne_zero halive)).symm.trans hfalse
    cases this
  cases c with
  | request endpoint o m =>
    cases endpoint with
    | server => exact ⟨trivial, rfl⟩
    | client =>
      have hpeer := hserver rfl
      cases hlight : (s.isLight != m.isLight) <;>
      simp [perform, request, pollRequest, hpending, hpeer, hlight, Quiet]
  | pollRequest endpoint =>
    cases endpoint with
    | server => exact ⟨trivial, rfl⟩
    | client => simp [perform, pollRequest, hpending, Quiet]
  | receive endpoint =>
    cases endpoint with
    | server => simp [perform, receive, hcurrent, hqueued, Quiet]
    | client => exact ⟨trivial, rfl⟩
  | reply endpoint m =>
    cases endpoint with
    | server =>
      have hpeer := hclient rfl
      cases hlight : (s.isLight != m.isLight) <;>
      simp [perform, reply, hpeer, hlight, Quiet]
    | client => exact ⟨trivial, rfl⟩
  | clone => cases hcall
  | drop => cases hcall

theorem eventOf_quiet {out : Outcome SessionError (Answer H)} (hquiet : Quiet out) :
    eventOf (c, out) = none := by
  cases c <;> rcases out with (result | (_ | result) | m | _ | _ | _) | e | m <;>
    first | rfl | exact hquiet.elim

/-- Another clone, or one less, of an endpoint that stays alive. -/
theorem Tracks.setClones (ht : Tracks h s) (halive : s.clones endpoint ≠ 0) {n : ℕ} (hn : 0 < n)
    (hevent : eventOf entry = none) : Tracks (h ++ [entry]) (s.setClones endpoint n) := by
  have hpos := pos_of_ne_zero halive
  cases endpoint with
  | server =>
    refine ⟨⟨fun _ => hn, fun _ => ht.server_iff.2 hpos⟩, ht.client_iff, ht.bounded, ?_, ht.closed⟩
    simpa [hevent] using ht.opened
  | client =>
    refine ⟨ht.server_iff, ⟨fun _ => hn, fun _ => ht.client_iff.2 hpos⟩, ht.bounded, ?_, ht.closed⟩
    simpa [hevent] using ht.opened

/-- The last clone of an endpoint is dropped. -/
theorem Tracks.close (ht : Tracks h s) :
    Tracks (h ++ [entry]) (Session.close endpoint (s.setClones endpoint 0)).2 := by
  have hserver := ht.server_iff
  have hclient := ht.client_iff
  cases endpoint <;>
  exact ⟨by simp_all [commit], by simp_all [commit], by simp [commit], by simp [commit],
    fun _ => ⟨rfl, rfl, rfl, rfl⟩⟩

/-- Dropping a clone closes the endpoint, or leaves it with one less. -/
theorem perform_drop (s : SessionIdentity H) (endpoint : SessionEndpoint) :
    perform (.drop endpoint) s = (.ok .done, if s.clones endpoint - 1 = 0 then
      (Session.close endpoint (s.setClones endpoint 0)).2
    else s.setClones endpoint (s.clones endpoint - 1)) := by
  by_cases hlast : s.clones endpoint - 1 = 0 <;> cases endpoint <;>
  simp_all [perform, dropClone, commit, SessionIdentity.clones]

/-- **One command**, if it does not exhaust the ids. -/
theorem tracks_step (ht : Tracks h s) (hbound : (submitted
      ((h ++ [(c, (machine.step s c).1)]).filterMap eventOf)).length < 2 ^ 64 - 1) :
    (machine.step s c).1.isPanic = false ∧
      Tracks (h ++ [(c, (machine.step s c).1)]) (machine.step s c).2 := by
  by_cases halive : s.clones c.endpoint = 0
  · have hstep : machine.step s c = (.ok .absent, s) := by simp [machine, apply, halive]
    rw [hstep]
    exact ⟨rfl, ht.same rfl (eventOf_quiet trivial)⟩
  have hstep : machine.step s c = perform c s := by simp [machine, apply, halive]
  rw [hstep] at hbound ⊢
  by_cases hcall : c.isCall = true
  · by_cases hopen : s.state.serverOpen = true ∧ s.state.clientOpen = true
    · have hperform := perform_open ht hopen.1 hopen.2 hcall
      refine ⟨hperform.not_panic, ?_⟩
      unfold Call.Ensures at hperform
      rcases hrun : perform c s with ⟨out, s'⟩
      rw [hrun] at hperform hbound
      cases out with
      | ok => exact hperform hbound
      | err => exact hperform
      | panic => exact hperform.elim
    · have hclosed : s.state.serverOpen = false ∨ s.state.clientOpen = false := by
        by_contra hboth
        simp only [not_or, Bool.not_eq_false] at hboth
        exact hopen hboth
      obtain ⟨hquiet, hsame⟩ := perform_closed (ht.shut hclosed) hcall halive
      refine ⟨?_, ht.same hsame (eventOf_quiet hquiet)⟩
      rcases hrun : (perform c s).1 with answer | e | m
      · rfl
      · rfl
      · rw [hrun] at hquiet
        exact hquiet.elim
  · cases c with
    | clone => exact ⟨rfl, ht.setClones halive (Nat.succ_pos _) rfl⟩
    | drop =>
      rw [perform_drop]
      refine ⟨rfl, ?_⟩
      split
      · exact ht.close
      · exact ht.setClones halive (pos_of_ne_zero ‹_›) rfl
    | request | pollRequest | receive | reply =>
      exact absurd rfl hcall

/-- A closed session stays closed, and quiet. -/
theorem shut_step (hs : Shut s) : Quiet (machine.step s c).1 ∧ Shut (machine.step s c).2 := by
  by_cases halive : s.clones c.endpoint = 0
  · have hstep : machine.step s c = (.ok .absent, s) := by simp [machine, apply, halive]
    rw [hstep]
    exact ⟨trivial, hs⟩
  have hstep : machine.step s c = perform c s := by simp [machine, apply, halive]
  rw [hstep]
  by_cases hcall : c.isCall = true
  · obtain ⟨hquiet, hsame⟩ := perform_closed hs hcall halive
    rw [hsame]
    exact ⟨hquiet, hs⟩
  have hpos := pos_of_ne_zero halive
  have hkept : ∀ {endpoint : SessionEndpoint} {n : ℕ}, 0 < s.clones endpoint → 0 < n →
      Shut (s.setClones endpoint n) := by
    intro endpoint n hpos hn
    cases endpoint with
    | server => exact ⟨⟨fun _ => hn, fun _ => hs.server_iff.2 hpos⟩, hs.client_iff, hs.closed,
        hs.emptied⟩
    | client => exact ⟨hs.server_iff, ⟨fun _ => hn, fun _ => hs.client_iff.2 hpos⟩, hs.closed,
        hs.emptied⟩
  cases c with
  | clone => exact ⟨trivial, hkept hpos (Nat.succ_pos _)⟩
  | drop endpoint =>
    rw [perform_drop]
    refine ⟨trivial, ?_⟩
    split
    · -- the other endpoint goes as well
      have hserver := hs.server_iff
      have hclient := hs.client_iff
      cases endpoint <;>
      exact ⟨by simp_all [commit], by simp_all [commit], by simp [commit], ⟨rfl, rfl, rfl, rfl⟩⟩
    · exact hkept hpos (pos_of_ne_zero ‹_›)
  | request | pollRequest | receive | reply =>
    exact absurd rfl hcall

end Steps

/-! ### What the ledger says about the session -/

section Views

variable {L : SessionLedger H} {s : SessionState H}

theorem Represents.pending_ids_nodup (h : Represents L s) :
    (L.pending.map SessionRequest.id).Nodup := by
  refine h.ids_nodup.sublist (.map _ ?_)
  exact (filter_sublist.map _).append (.refl _)

/-- The values of a map, if no two keys have the same, are each listed once. -/
theorem values_nodup {α β : Type} [Ord α] [Std.TransOrd α] [Std.LawfulEqOrd α] {m : TreeMap α β}
    (hinj : ∀ (a a' : α) (b : β), m[a]? = some b → m[a']? = some b → a = a') :
    (m.toList.map snd).Nodup := by
  rw [List.Nodup, pairwise_map]
  refine m.distinct_keys_toList.imp_of_mem ?_
  rintro ⟨a, b⟩ ⟨a', b'⟩ hx hy hne heq
  obtain rfl : b = b' := heq
  rw [mem_toList_iff_getElem?_eq_some] at hx hy
  exact hne (by simp [hinj a a' b hx hy])

theorem Represents.pending_perm (h : Represents L s) :
    (s.pendingByOwner.toList.map snd).Perm (L.pending.map SessionRequest.id) := by
  refine (perm_ext_iff_of_nodup (values_nodup ?_) h.pending_ids_nodup).2 ?_
  · intro o o' id ho ho'
    obtain ⟨r, hr, rfl, hid⟩ := (h.pending_iff o id).1 ho
    obtain ⟨r', hr', rfl, hid'⟩ := (h.pending_iff o' id).1 ho'
    rw [h.eq_of_id hr hr' (hid.trans hid'.symm)]
  · intro id
    rw [mem_map, mem_map]
    constructor
    · rintro ⟨⟨o, id'⟩, hmem, rfl⟩
      rw [mem_toList_iff_getElem?_eq_some] at hmem
      obtain ⟨r, hr, -, hid⟩ := (h.pending_iff o id').1 hmem
      exact ⟨r, hr, hid⟩
    · rintro ⟨r, hr, rfl⟩
      refine ⟨(r.owner, r.id), ?_, rfl⟩
      rw [mem_toList_iff_getElem?_eq_some]
      exact (h.pending_iff r.owner r.id).2 ⟨r, hr, rfl, rfl⟩

theorem Represents.responses_perm (h : Represents L s) :
    (s.responses.toList.map fst).Perm (L.undelivered.map fun e => e.request.id) := by
  have hnodup : (s.responses.toList.map fst).Nodup := by
    rw [List.Nodup, pairwise_map]
    exact s.responses.distinct_keys_toList.imp fun hne heq => hne (by simp [heq])
  have hids : (L.undelivered.map fun e => e.request.id).Nodup := by
    have hpending := h.pending_ids_nodup
    rw [pending, map_append, List.map_map] at hpending
    exact hpending.of_append_left
  refine (perm_ext_iff_of_nodup hnodup hids).2 ?_
  intro id
  rw [mem_map, mem_map]
  constructor
  · rintro ⟨⟨id', m⟩, hmem, rfl⟩
    rw [mem_toList_iff_getElem?_eq_some] at hmem
    obtain ⟨e, he, hid, -⟩ := (h.response_iff id' m).1 hmem
    exact ⟨e, he, hid⟩
  · rintro ⟨e, he, rfl⟩
    refine ⟨(e.request.id, e.reply), ?_, rfl⟩
    rw [mem_toList_iff_getElem?_eq_some]
    exact (h.response_iff _ _).2 ⟨e, he, rfl, rfl⟩

/-- The ids that owners wait for are those of the queue, of the server and of the responses, each
once. -/
theorem Represents.ids_perm (h : Represents L s) :
    (s.pendingByOwner.toList.map snd).Perm (s.queued.map SessionRequest.id ++
      (s.current.toList.map SessionRequest.id ++ s.responses.toList.map fst)) ∧
    (s.pendingByOwner.toList.map snd).Nodup := by
  refine ⟨?_, h.pending_perm.nodup_iff.2 h.pending_ids_nodup⟩
  calc s.pendingByOwner.toList.map snd ~ L.pending.map SessionRequest.id := h.pending_perm
    _ = L.undelivered.map (fun e => e.request.id) ++
        (L.current.toList.map SessionRequest.id ++ L.queued.map SessionRequest.id) := by
          simp [pending, unanswered]
    _ ~ s.responses.toList.map fst ++
        (L.current.toList.map SessionRequest.id ++ L.queued.map SessionRequest.id) :=
          h.responses_perm.symm.append_right _
    _ ~ _ ++ s.responses.toList.map fst := perm_append_comm
    _ ~ _ := by
          rw [h.queued, h.current, ← append_assoc]
          exact perm_append_comm.append_right _

theorem Represents.waiting_eq (h : Represents L s)
    (howners : (L.pending.map owner).Nodup) (o : SessionRequestOwner) :
    (L.undelivered.filter fun e => decide (e.request.owner = o)).map Answered.reply =
      (s.pendingByOwner[o]?.bind fun id => s.responses[id]?).toList := by
  rcases hw : s.pendingByOwner[o]?.bind fun id => s.responses[id]? with _ | m
  · -- a reply of this owner would be waiting
    have hnil : L.undelivered.filter (fun e => decide (e.request.owner = o)) = [] := by
      rw [filter_eq_nil_iff]
      intro e he howner
      obtain rfl : e.request.owner = o := by simpa using howner
      have hpending := (h.pending_iff _ _).2
        ⟨e.request, Represents.mem_pending_of_undelivered he, rfl, rfl⟩
      have hresponse := (h.response_iff _ _).2 ⟨e, he, rfl, rfl⟩
      simp [hpending, hresponse] at hw
    rw [hnil]
    rfl
  · obtain ⟨id, ho, hm⟩ := Option.bind_eq_some_iff.1 hw
    obtain ⟨r, before, after, rfl, rfl, hanswered⟩ := h.exists_answered ho hm
    have hundelivered : L.undelivered = before.filter (fun e => !e.delivered) ++
        ⟨r, m, false⟩ :: after.filter (fun e => !e.delivered) := by
      simp [hanswered]
    have hkeys : (L.undelivered.map fun e => e.request.owner).Nodup := by
      rw [pending, map_append, List.map_map] at howners
      exact howners.of_append_left
    -- no other reply is for this owner
    have hother :
        ∀ e ∈ before.filter (fun e => !e.delivered) ++ after.filter (fun e => !e.delivered),
        e.request.owner ≠ r.owner := by
      intro e he
      rw [hundelivered] at hkeys
      exact ((mem_append_iff_of_nodup hkeys).1 he).2
    have hbefore : (before.filter fun e => !e.delivered).filter
        (fun e => decide (e.request.owner = r.owner)) = [] := by
      rw [filter_eq_nil_iff]
      intro e he
      simpa using hother e (mem_append_left _ he)
    have hafter : (after.filter fun e => !e.delivered).filter
        (fun e => decide (e.request.owner = r.owner)) = [] := by
      rw [filter_eq_nil_iff]
      intro e he
      simpa using hother e (mem_append_right _ he)
    rw [hundelivered, filter_append, filter_cons, hbefore, hafter]
    simp

theorem Represents.count_pending (h : Represents L s)
    (howners : (L.pending.map owner).Nodup) (o : SessionRequestOwner) :
    (L.pending.map owner).count o = if s.pendingByOwner[o]?.isSome then 1 else 0 := by
  by_cases ho : o ∈ L.pending.map owner
  · rw [count_eq_one_of_mem howners ho]
    obtain ⟨r, hr, rfl⟩ := mem_map.1 ho
    rw [(h.pending_iff r.owner r.id).2 ⟨r, hr, rfl, rfl⟩]
    rfl
  · rw [count_eq_zero_of_not_mem ho]
    rcases hp : s.pendingByOwner[o]? with _ | id
    · rfl
    · obtain ⟨r, hr, rfl, -⟩ := (h.pending_iff o id).1 hp
      exact absurd (mem_map_of_mem hr) ho

end Views

/-! ### Whole runs -/

def Command.isRequest : Command H → Bool
  | .request .. => true
  | _ => false

theorem isRequest_of_submit {entry : Command H × Outcome SessionError (Answer H)}
    {o : SessionRequestOwner} {m : SessionMessage H} (h : eventOf entry = some (.submit o m)) :
    entry.1.isRequest = true := by
  unfold eventOf at h
  split at h
  · rfl
  all_goals cases h

theorem length_submitted_le (commands : List (Command H)) (s : SessionIdentity H) :
    (submitted ((machine.trace s commands).filterMap eventOf)).length ≤
      commands.countP Command.isRequest := by
  induction commands generalizing s with
  | nil => simp
  | cons c commands ih =>
    have hrest := ih (machine.step s c).2
    rw [Machine.trace_cons, filterMap_cons, countP_cons]
    rcases hevent : eventOf (c, (machine.step s c).1) with _ | e
    · exact hrest.trans (Nat.le_add_right ..)
    · cases e with
      | submit =>
        have hrequest : c.isRequest = true := isRequest_of_submit hevent
        simpa [hrequest] using hrest
      | _ => exact (by simpa using hrest : _ ≤ _).trans (Nat.le_add_right ..)

/-- The history of a run that does not exhaust the ids. -/
theorem tracks_run {isLight : Bool} {commands : List (Command H)}
    (hcount : commands.countP Command.isRequest < 2 ^ 64 - 1) :
    Tracks (machine.trace (.create isLight) commands) (machine.run (.create isLight) commands) ∧
      ∀ entry ∈ machine.trace (.create isLight) commands, entry.2.isPanic = false := by
  have hhistory := Machine.trace_run_invariant (M := machine)
    (J := fun h s => (submitted (h.filterMap eventOf)).length < 2 ^ 64 - 1 →
      Tracks h s ∧ ∀ entry ∈ h, entry.2.isPanic = false) ?_ commands [] (.create isLight)
    fun _ => ⟨tracks_create, by simp⟩
  · exact hhistory ((length_submitted_le commands _).trans_lt hcount)
  · intro h s c hs hbound
    have hless : (submitted (h.filterMap eventOf)).length ≤ (submitted
        ((h ++ [(c, (machine.step s c).1)]).filterMap eventOf)).length := by
      simp
    obtain ⟨htracks, hpanics⟩ := hs (hless.trans_lt hbound)
    obtain ⟨hpanic, htracks'⟩ := tracks_step htracks hbound
    refine ⟨htracks', ?_⟩
    intro entry hentry
    rcases mem_append.1 hentry with hentry | hentry
    · exact hpanics entry hentry
    · rw [mem_singleton.1 hentry]
      exact hpanic

/-- Two owners submit, the server answers the first of them, and the first one polls. -/
def exchange : List (Command Unit) :=
  [.request .client ⟨1, 1⟩ (.buffer [1]), .request .client ⟨1, 2⟩ (.buffer [2]),
    .receive .server, .reply .server (.buffer [3]), .pollRequest .client ⟨1, 1⟩]

end Nixe.Session
