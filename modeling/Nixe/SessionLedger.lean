/-
**The session is a ledger.**

Every call on a session is a transition of a ledger of requests and replies, or leaves it alone.
The ids of the session are the positions of the requests in the ledger, which also keeps the
requests that are over, and the two maps of the session describe the pending requests and the
undelivered replies.

Main definitions:

* `Represents` — what a session state says about a ledger;
* `Advances` — a step of the session that is a transition of the ledger, or none.

Main results:

* `pollRequest_ensures`, `request_ensures`, `receive_ensures`, `reply_ensures` — **each call refines
  the ledger**.
-/

import Nixe.Session
import Nixe.Ledger

set_option autoImplicit false

namespace Nixe.Session

open Std (TreeMap)
open Ledger (requests unanswered undelivered)
open List Std.TreeMap Call

variable {H : Type} {r : SessionRequest H} {o : SessionRequestOwner} {m : SessionMessage H}
  {endpoint : SessionEndpoint}

abbrev SessionLedger (H : Type) : Type := Ledger (SessionRequest H) (SessionMessage H)

abbrev SessionEvent (H : Type) : Type := Ledger.Event SessionRequestOwner (SessionMessage H)

/-- The requests of the ledger are numbered from one in the order of submission; the session has the
unanswered ones, the ids of the pending ones, and the undelivered replies. -/
structure Represents (L : SessionLedger H) (s : SessionState H) : Prop where
  current : s.current = L.current
  queued : s.queued = L.queued
  ids : L.requests.map SessionRequest.id = range' 1 L.requests.length
  next : s.nextRequestId = L.requests.length + 1
  response_iff : ∀ id m, s.responses[id]? = some m ↔
    ∃ e ∈ L.undelivered, e.request.id = id ∧ e.reply = m
  pending_iff : ∀ o id, s.pendingByOwner[o]? = some id ↔ ∃ r ∈ L.pending, r.owner = o ∧ r.id = id

namespace Represents

variable {L : SessionLedger H} {s : SessionState H}

theorem ids_nodup (h : Represents L s) : (L.requests.map SessionRequest.id).Nodup := by
  rw [h.ids]
  exact nodup_range'

theorem mem_requests_of_pending (hr : r ∈ L.pending) : r ∈ L.requests := by
  rcases mem_append.1 hr with hr | hr
  · obtain ⟨e, he, rfl⟩ := mem_map.1 hr
    exact mem_append_left _ (mem_map_of_mem (mem_of_mem_filter he))
  · exact mem_append_right _ hr

theorem mem_pending_of_undelivered {e : Answered (SessionRequest H) (SessionMessage H)}
    (he : e ∈ L.undelivered) : e.request ∈ L.pending :=
  mem_append_left _ (mem_map_of_mem he)

theorem eq_of_id (h : Represents L s) {r' : SessionRequest H} (hr : r ∈ L.pending)
    (hr' : r' ∈ L.pending) (hid : r.id = r'.id) : r = r' :=
  inj_on_of_nodup_map h.ids_nodup (mem_requests_of_pending hr) (mem_requests_of_pending hr') hid

theorem pending_none (h : Represents L s) (ho : s.pendingByOwner[o]? = none) :
    o ∉ L.pending.map SessionRequest.owner := by
  intro hmem
  obtain ⟨r, hr, rfl⟩ := mem_map.1 hmem
  rw [(h.pending_iff r.owner r.id).2 ⟨r, hr, rfl, rfl⟩] at ho
  cases ho

/-- An undelivered reply in its place, with the owner that polls for it. -/
theorem exists_answered (h : Represents L s) {id : ℕ} (ho : s.pendingByOwner[o]? = some id)
    (hm : s.responses[id]? = some m) :
    ∃ r before after, r.owner = o ∧ r.id = id ∧ L.answered = before ++ ⟨r, m, false⟩ :: after := by
  obtain ⟨⟨r, m', delivered⟩, he, hid, rfl⟩ := (h.response_iff id m).1 hm
  obtain ⟨r', hr', rfl, hid'⟩ := (h.pending_iff o id).1 ho
  obtain rfl : r = r' := h.eq_of_id (mem_pending_of_undelivered he) hr' (hid.trans hid'.symm)
  obtain ⟨hmem, hdelivered⟩ := mem_filter.1 he
  obtain rfl : delivered = false := by simpa using hdelivered
  obtain ⟨before, after, hsplit⟩ := append_of_mem hmem
  exact ⟨r, before, after, rfl, hid, hsplit⟩

end Represents

/-- A step in which the ledger makes the transition seen as the event, or stays as it is; neither
endpoint opens or closes. -/
structure Advances (L : SessionLedger H) (event : Option (SessionEvent H))
    (s s' : SessionIdentity H) : Prop where
  ledger : ∃ L', (match event with
    | none => L' = L
    | some e => Ledger.Step SessionRequest.owner SessionRequest.message L e L') ∧
    Represents L' s'.state
  serverOpen : s'.state.serverOpen = s.state.serverOpen
  clientOpen : s'.state.clientOpen = s.state.clientOpen
  isLight : s'.isLight = s.isLight
  servers : s'.servers = s.servers
  clients : s'.clients = s.clients
  bounded : s.state.pendingByOwner.size ≤ maxSessionRequests →
    s'.state.pendingByOwner.size ≤ maxSessionRequests

theorem Advances.refl {L : SessionLedger H} {s : SessionIdentity H} (h : Represents L s.state) :
    Advances L none s s :=
  ⟨⟨L, rfl, h⟩, rfl, rfl, rfl, rfl, rfl, id⟩

/-! ### The calls -/

section Calls

variable {L : SessionLedger H} {s : SessionIdentity H}

/-- What is left of a list when one element is taken out, told by a key. -/
theorem mem_append_iff_of_nodup {α β : Type} {f : α → β} {l₁ l₂ : List α} {a x : α}
    (h : ((l₁ ++ a :: l₂).map f).Nodup) : x ∈ l₁ ++ l₂ ↔ x ∈ l₁ ++ a :: l₂ ∧ f x ≠ f a := by
  have hnot : f a ∉ (l₁ ++ l₂).map f := by
    rw [map_append, map_cons, nodup_middle, nodup_cons] at h
    rw [map_append]
    exact h.1
  constructor
  · intro hx
    refine ⟨?_, fun heq => hnot (heq ▸ mem_map_of_mem hx)⟩
    rcases mem_append.1 hx with hx | hx <;> simp [hx]
  · rintro ⟨hx, hne⟩
    have hxa : x ≠ a := fun heq => hne (heq ▸ rfl)
    simpa [hxa] using hx

attribute [local simp] requests unanswered Ledger.pending

theorem Represents.deliver {s : SessionState H} (h : Represents L s)
    {before after : List (Answered (SessionRequest H) (SessionMessage H))}
    (hanswered : L.answered = before ++ ⟨r, m, false⟩ :: after)
    (howners : (L.pending.map SessionRequest.owner).Nodup) :
    Represents { L with answered := before ++ ⟨r, m, true⟩ :: after } { s with
        responses := s.responses.erase r.id
        pendingByOwner := s.pendingByOwner.erase r.owner } := by
  set L' : SessionLedger H := { L with answered := before ++ _ :: after }
  have hsame : L'.requests = L.requests := by
    simp [L', hanswered]
  -- the request and its reply are in the middle of what is pending
  have hundelivered : L.undelivered = before.filter (fun e => !e.delivered) ++
      ⟨r, m, false⟩ :: after.filter (fun e => !e.delivered) := by
    simp [undelivered, hanswered]
  have hpending : L.pending = (before.filter fun e => !e.delivered).map Answered.request ++
      r :: ((after.filter fun e => !e.delivered).map Answered.request ++ L.unanswered) := by
    simp [hundelivered]
  have hundelivered' : L'.undelivered =
      before.filter (fun e => !e.delivered) ++ after.filter (fun e => !e.delivered) := by
    simp [L', undelivered]
  have hpending' : L'.pending = (before.filter fun e => !e.delivered).map Answered.request ++
      ((after.filter fun e => !e.delivered).map Answered.request ++ L.unanswered) := by
    simp [L', undelivered]
  refine ⟨h.current, h.queued, by rw [hsame]; exact h.ids, by rw [hsame]; exact h.next, ?_, ?_⟩
  · intro id m'
    have hids : (L.undelivered.map fun e => e.request.id).Nodup := by
      have hsub : (L.undelivered.map fun e => e.request.id).Sublist
          (L.requests.map SessionRequest.id) := by
        rw [requests, map_append, map_map]
        exact (filter_sublist.map _).trans (sublist_append_left ..)
      exact h.ids_nodup.sublist hsub
    rw [hundelivered] at hids
    have hleft := h.response_iff id m'
    rw [getElem?_erase, hundelivered']
    simp only [mem_append_iff_of_nodup hids, ← hundelivered]
    by_cases hid : r.id = id
    · subst hid
      constructor
      · simp
      · rintro ⟨e, ⟨-, hne⟩, heq, -⟩
        exact absurd heq hne
    · have hcompare : ¬ compare r.id id = .eq := by simpa using hid
      rw [if_neg hcompare, hleft]
      constructor
      · rintro ⟨e, he, rfl, rfl⟩
        exact ⟨e, ⟨he, .symm hid⟩, rfl, rfl⟩
      · rintro ⟨e, ⟨he, -⟩, hpair⟩
        exact ⟨e, he, hpair⟩
  · intro o id
    have hleft := h.pending_iff o id
    rw [hpending] at howners
    rw [getElem?_erase, hpending']
    simp only [mem_append_iff_of_nodup howners, ← hpending]
    by_cases ho : r.owner = o
    · subst ho
      constructor
      · simp
      · rintro ⟨r', ⟨-, hne⟩, heq, -⟩
        exact absurd heq hne
    · have hcompare : ¬ compare r.owner o = .eq := by simpa using ho
      rw [if_neg hcompare, hleft]
      constructor
      · rintro ⟨r', hr', rfl, rfl⟩
        exact ⟨r', ⟨hr', .symm ho⟩, rfl, rfl⟩
      · rintro ⟨r', ⟨hr', -⟩, hpair⟩
        exact ⟨r', hr', hpair⟩

/-- **Polling** delivers the reply if there is one. -/
theorem pollRequest_ensures (h : Represents L s.state)
    (howners : (L.pending.map SessionRequest.owner).Nodup) (hopen : s.state.serverOpen = true) :
    Call.Ensures (pollRequest endpoint o) s (fun result s' => endpoint = .client ∧
        ((result = none ∧ s' = s ∧ s.state.pendingByOwner[o]? = none) ∨
        (result = some .waiting ∧ s' = s ∧ s.state.pendingByOwner[o]?.isSome) ∨
        ∃ id m, result = some (.response m) ∧ s.state.pendingByOwner[o]? = some id ∧
          s.state.responses[id]? = some m ∧ Advances L (some (.deliver o m)) s s'))
      fun _ s' => s' = s := by
  cases endpoint with
  | server => rfl
  | client =>
    rcases ho : s.state.pendingByOwner[o]? with _ | id
    · have hrun : pollRequest .client o s = (.ok none, s) := by simp [pollRequest, ho]
      rw [Call.Ensures, hrun]
      exact ⟨rfl, .inl ⟨rfl, rfl, rfl⟩⟩
    rcases hm : s.state.responses[id]? with _ | m
    · have hrun : pollRequest .client o s = (.ok (some .waiting), s) := by
        simp [pollRequest, ho, hm, hopen]
      rw [Call.Ensures, hrun]
      exact ⟨rfl, .inr (.inl ⟨rfl, rfl, rfl⟩)⟩
    · obtain ⟨r, before, after, rfl, rfl, hanswered⟩ := h.exists_answered ho hm
      have hrun : pollRequest .client r.owner s = (.ok (some (.response m)),
          { s with state := { s.state with
              responses := s.state.responses.erase r.id
              pendingByOwner := s.state.pendingByOwner.erase r.owner } }.wake) := by
        simp [pollRequest, commit, ho, hm]
      rw [Call.Ensures, hrun]
      refine ⟨rfl, .inr (.inr ⟨r.id, m, rfl, rfl, hm, ?_⟩)⟩
      refine ⟨⟨_, .deliver L before after r m hanswered, h.deliver hanswered howners⟩,
        rfl, rfl, rfl, rfl, rfl, fun hsize => ?_⟩
      exact size_erase_le.trans hsize

theorem Represents.submit {s : SessionState H} (h : Represents L s)
    (hnew : s.pendingByOwner[o]? = none) (hbound : L.requests.length + 1 < 2 ^ 64 - 1) :
    Represents { L with queued := L.queued ++ [⟨s.nextRequestId, o, m⟩] } { s with
        nextRequestId := saturatingSucc s.nextRequestId
        pendingByOwner := s.pendingByOwner.insert o s.nextRequestId
        queued := s.queued ++ [⟨s.nextRequestId, o, m⟩] } := by
  set L' : SessionLedger H := { L with queued := L.queued ++ [⟨s.nextRequestId, o, m⟩] }
  have hrequests : L'.requests = L.requests ++ [⟨s.nextRequestId, o, m⟩] := by
    simp [L']
  have hpending : L'.pending = L.pending ++ [⟨s.nextRequestId, o, m⟩] := by
    simp [L', undelivered]
  refine ⟨h.current, by simp [L', h.queued], ?_, ?_, h.response_iff, ?_⟩
  · rw [hrequests, map_append, h.ids, length_append, length_singleton,
      range'_concat]
    simp [h.next, add_comm]
  · rw [hrequests, length_append]
    simp only [saturatingSucc, h.next, length_singleton]
    omega
  · intro o' id
    rw [TreeMap.getElem?_insert, hpending]
    have hleft := h.pending_iff o' id
    by_cases ho : o = o'
    · subst ho
      rw [if_pos Std.ReflCmp.compare_self]
      constructor
      · rintro ⟨rfl⟩
        exact ⟨_, mem_append_right _ (mem_singleton_self _), rfl, rfl⟩
      · rintro ⟨r, hr, howner, rfl⟩
        rcases mem_append.1 hr with hr | hr
        · rw [(h.pending_iff o r.id).2 ⟨r, hr, howner, rfl⟩] at hnew
          cases hnew
        · rw [mem_singleton.1 hr]
    · have hcompare : ¬ compare o o' = .eq := by simpa using ho
      rw [if_neg hcompare, hleft]
      constructor
      · rintro ⟨r, hr, hpair⟩
        exact ⟨r, mem_append_left _ hr, hpair⟩
      · rintro ⟨r, hr, howner, hid⟩
        rcases mem_append.1 hr with hr | hr
        · exact ⟨r, hr, howner, hid⟩
        · rw [mem_singleton.1 hr] at howner
          exact absurd howner ho

/-- What a client request comes to. -/
def requestEvent (o : SessionRequestOwner) (m : SessionMessage H) :
    SessionRequestResult H → Option (SessionEvent H)
  | .submitted => some (.submit o m)
  | .waiting => none
  | .response m' => some (.deliver o m')

attribute [local simp] Call.Ensures

/-- **A request** delivers the reply to the last one, or is filed. -/
theorem request_ensures (h : Represents L s.state)
    (howners : (L.pending.map SessionRequest.owner).Nodup) (hopen : s.state.serverOpen = true) :
    Call.Ensures (request endpoint o m) s
      (fun result s' => (result = .submitted → L.requests.length + 1 < 2 ^ 64 - 1) →
        Advances L (requestEvent o m result) s s') fun _ s' => s' = s := by
  unfold request
  cases endpoint with
  | server => rfl
  | client =>
    by_cases hlight : s.isLight = m.isLight
    swap
    · have : (s.isLight != m.isLight) = true := by simpa using hlight
      simp [this]
    have hkind : (s.isLight != m.isLight) = false := by simpa using hlight
    refine .bind ?_
    refine .pure (.read (.bind ?_))
    rw [hkind]
    refine .pure (.bind ((pollRequest_ensures h howners hopen).mono ?_))
    rintro result s' ⟨-, ⟨rfl, rfl, hnone⟩ | ⟨rfl, rfl, -⟩ | ⟨id, m', rfl, -, -, hadvances⟩⟩
    · by_cases hfull : maxSessionRequests ≤ s'.state.pendingByOwner.size
      · simp [hopen, hfull]
      · have hstep : Ledger.Step SessionRequest.owner SessionRequest.message L (.submit o m) _ :=
          .submit L ⟨s'.state.nextRequestId, o, m⟩ (h.pending_none hnone)
        have hserver : (!s'.state.serverOpen) = false := by simp [hopen]
        simp only [Call.Ensures, bind_run, read_run, hserver, hfull, decide_false,
          failIf_false, commit, update_run, pure_run]
        intro hbound
        refine ⟨⟨_, hstep, h.submit hnone (hbound trivial)⟩, rfl, rfl, rfl, rfl, rfl, fun _ => ?_⟩
        refine size_insert_le.trans ?_
        omega
    · exact .pure fun _ => .refl h
    · exact .pure fun _ => hadvances

/-- **Receiving** takes the first request of the queue. -/
theorem receive_ensures (h : Represents L s.state) : Call.Ensures (receive endpoint) s
      (fun m s' => Advances L (some (.receive m)) s s') fun _ s' => s' = s := by
  cases endpoint with
  | client => rfl
  | server =>
    rcases hcurrent : s.state.current with _ | r
    swap
    · simp [receive, hcurrent]
    rcases hqueued : s.state.queued with _ | ⟨r, rest⟩
    · simp [receive, hcurrent, hqueued]
    have hrun : receive .server s = (.ok r.message,
        { s with state := { s.state with queued := rest, current := some r } }.wake) := by
      simp [receive, commit, hcurrent, hqueued]
    rw [Call.Ensures, hrun]
    have hnone : L.current = none := h.current ▸ hcurrent
    have hrest : L.queued = r :: rest := h.queued ▸ hqueued
    -- the requests stay the same, and so do those that are pending
    have hsame : unanswered { L with current := some r, queued := rest } = L.unanswered := by
      simp [hnone, hrest]
    refine ⟨⟨_, .receive L r rest hnone hrest, rfl, rfl, ?_, ?_, h.response_iff, ?_⟩,
      rfl, rfl, rfl, rfl, rfl, fun hsize => hsize⟩
    · simp only [requests, hsame]
      exact h.ids
    · simp only [requests, hsame]
      exact h.next
    · simp only [Ledger.pending, hsame]
      exact h.pending_iff

/-- The request that the server has gets its reply. -/
theorem Represents.answer {s : SessionState H} (h : Represents L s)
    (hcurrent : L.current = some r) :
    Represents { L with answered := L.answered ++ [⟨r, m, false⟩], current := none }
      { s with current := none, responses := s.responses.insert r.id m } := by
  set L' : SessionLedger H :=
    { L with answered := L.answered ++ [⟨r, m, false⟩], current := none }
  have hrequests : L'.requests = L.requests := by
    simp [L', hcurrent]
  have hundelivered : L'.undelivered = L.undelivered ++ [⟨r, m, false⟩] := by
    simp [L', undelivered]
  have hpending : L'.pending = L.pending := by
    simp [hundelivered, hcurrent, L']
  refine ⟨rfl, h.queued, by rw [hrequests]; exact h.ids, by rw [hrequests]; exact h.next, ?_,
    by rw [hpending]; exact h.pending_iff⟩
  intro id m'
  rw [TreeMap.getElem?_insert, hundelivered]
  have hleft := h.response_iff id m'
  by_cases hid : r.id = id
  · subst hid
    rw [if_pos Std.ReflCmp.compare_self]
    constructor
    · rintro ⟨rfl⟩
      exact ⟨_, mem_append_right _ (mem_singleton_self _), rfl, rfl⟩
    · rintro ⟨e, he, heid, rfl⟩
      rcases mem_append.1 he with he | he
      · -- the request that the server has is not answered
        have hids := h.ids_nodup
        simp only [requests, unanswered, hcurrent, map_append, nodup_append] at hids
        refine absurd heid (hids.2.2 _ ?_ _ ?_)
        · exact mem_map_of_mem (mem_map_of_mem (mem_of_mem_filter he))
        · simp
      · rw [mem_singleton.1 he]
  · have hcompare : ¬ compare r.id id = .eq := by simpa using hid
    rw [if_neg hcompare, hleft]
    constructor
    · rintro ⟨e, he, hpair⟩
      exact ⟨e, mem_append_left _ he, hpair⟩
    · rintro ⟨e, he, heid, hreply⟩
      rcases mem_append.1 he with he | he
      · exact ⟨e, he, heid, hreply⟩
      · rw [mem_singleton.1 he] at heid
        exact absurd heid hid

/-- **Replying** answers the request that the server has. -/
theorem reply_ensures (h : Represents L s.state) : Call.Ensures (reply endpoint m) s
      (fun _ s' => Advances L (some (.reply m)) s s') fun _ s' => s' = s := by
  cases endpoint with
  | client => rfl
  | server =>
    by_cases hlight : s.isLight = m.isLight
    swap
    · have : (s.isLight != m.isLight) = true := by simpa using hlight
      simp [reply, this]
    have hkind : (s.isLight != m.isLight) = false := by simpa using hlight
    rcases hopen : s.state.clientOpen with _ | _
    · simp [reply, hkind, hopen]
    rcases hcurrent : s.state.current with _ | r
    · simp [reply, hkind, hopen, hcurrent]
    have hcurrent' : L.current = some r := h.current ▸ hcurrent
    have hmem : r ∈ L.pending := by simp [hcurrent']
    have hassert : s.state.pendingByOwner[r.owner]? = some r.id :=
      (h.pending_iff r.owner r.id).2 ⟨r, hmem, rfl, rfl⟩
    have hrun : reply .server m s = (.ok (), { s with state := { s.state with
            current := none
            responses := s.state.responses.insert r.id m } }.wake) := by
      simp [reply, commit, hkind, hopen, hcurrent, hassert]
    rw [Call.Ensures, hrun]
    exact ⟨⟨_, .reply L r m hcurrent', h.answer hcurrent'⟩, rfl, rfl, rfl, rfl, rfl,
      fun hsize => hsize⟩

end Calls

end Nixe.Session
