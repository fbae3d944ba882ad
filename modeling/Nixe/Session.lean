/-
**The session transport.**

A session connects the threads of client processes with one server.  A client thread submits a
request and polls for the response; the server receives one request at a time, in the order of
submission, and replies to it.  The id of the request that a thread waits for is filed under the
thread, and the response under the id.

The two endpoints are shared objects.  An endpoint closes when its last clone is dropped; what is in
flight is then thrown away, on both sides.  The kernel objects that a message can carry are not
looked at here, and their type is a parameter.

Main definitions:

* `SessionMessage`, `SessionState`, `SessionIdentity` — the data;
* `request`, `pollRequest`, `receive`, `reply` — the calls;
* `close` — the end of an endpoint;
* `machine` — calls of any clones of the two endpoints, one after the other.
-/

import Nixe.Machine
import Nixe.Call

set_option autoImplicit false

namespace Nixe.Session

open Std (TreeMap)
open Call (read update failIf okOr debugAssert)

inductive SessionEndpoint where
  | server
  | client
deriving DecidableEq, Repr

def maxSessionRequests : ℕ := 0x40

inductive SessionMessage (H : Type) where
  | buffer (bytes : List UInt8)
  | transportedBuffer (bytes : List UInt8) (copyHandles moveHandles : List (Option H))
  | light (words : Vector UInt32 7)
deriving DecidableEq

def SessionMessage.isLight {H : Type} : SessionMessage H → Bool
  | .light _ => true
  | _ => false

/-- The thread that a request belongs to. -/
structure SessionRequestOwner where
  processId : ℕ
  threadId : ℕ
deriving DecidableEq, Repr

instance : Ord SessionRequestOwner where
  compare := compareLex (compareOn SessionRequestOwner.processId)
    (compareOn SessionRequestOwner.threadId)

instance : Std.TransOrd SessionRequestOwner :=
  inferInstanceAs (Std.TransCmp (compareLex (compareOn SessionRequestOwner.processId)
    (compareOn SessionRequestOwner.threadId)))

instance : Std.LawfulEqOrd SessionRequestOwner where
  eq_of_compare {a b} h := by
    have h' : compareLex (compareOn SessionRequestOwner.processId)
        (compareOn SessionRequestOwner.threadId) a b = .eq := h
    simp only [compareLex, compareOn, Ordering.then_eq_eq, Std.compare_eq_iff_eq] at h'
    obtain ⟨hp, ht⟩ := h'
    cases a; cases b; simp_all

structure SessionRequest (H : Type) where
  id : ℕ
  owner : SessionRequestOwner
  message : SessionMessage H
deriving DecidableEq

structure SessionState (H : Type) where
  serverOpen : Bool
  clientOpen : Bool
  nextRequestId : ℕ
  queued : List (SessionRequest H)
  current : Option (SessionRequest H)
  pendingByOwner : TreeMap SessionRequestOwner ℕ
  responses : TreeMap ℕ (SessionMessage H)

/-- A session, with the number of clones of each endpoint that are alive. -/
structure SessionIdentity (H : Type) where
  state : SessionState H
  isLight : Bool
  wakeGeneration : ℕ
  wakeSignalled : Bool
  servers : ℕ
  clients : ℕ

inductive SessionRequestResult (H : Type) where
  | submitted
  | waiting
  | response (message : SessionMessage H)
deriving DecidableEq

inductive SessionError where
  | wrongEndpoint
  | peerClosed
  | queueFull
  | noRequest
  | replyPending
  | messageKindMismatch
deriving DecidableEq, Repr

section

variable {H : Type}

abbrev SessionCall (H α : Type) : Type := Call (SessionIdentity H) SessionError α

/-- `create_pair_with_kind`. -/
def SessionIdentity.create (isLight : Bool) : SessionIdentity H where
  state :=
    { serverOpen := true
      clientOpen := true
      nextRequestId := 1
      queued := []
      current := none
      pendingByOwner := ∅
      responses := ∅ }
  isLight
  wakeGeneration := 0
  wakeSignalled := false
  servers := 1
  clients := 1

/-- The peers are woken: `wake_generation.fetch_add(1); wake_event.signal();`. -/
def SessionIdentity.wake (s : SessionIdentity H) : SessionIdentity H :=
  { s with wakeGeneration := (s.wakeGeneration + 1) % 2 ^ 64, wakeSignalled := true }

/-- A change of the state behind the mutex, after which the peers are woken. -/
def commit (f : SessionState H → SessionState H) : SessionCall H Unit :=
  update fun s => { s with state := f s.state }.wake

/-! ### Calls -/

def pollRequest (endpoint : SessionEndpoint) (owner : SessionRequestOwner) :
    SessionCall H (Option (SessionRequestResult H)) := do
  failIf (endpoint != .client) .wrongEndpoint
  let state := (← read).state
  match state.pendingByOwner[owner]? with
  | none => return none
  | some requestId =>
    match state.responses[requestId]? with
    | some response =>
      commit fun state =>
        { state with
          responses := state.responses.erase requestId
          pendingByOwner := state.pendingByOwner.erase owner }
      return some (.response response)
    | none =>
      if state.serverOpen then
        return some .waiting
      else
        commit fun state => { state with pendingByOwner := state.pendingByOwner.erase owner }
        Call.fail .peerClosed

def saturatingSucc (id : ℕ) : ℕ := min (id + 1) (2 ^ 64 - 1)

def request (endpoint : SessionEndpoint) (owner : SessionRequestOwner)
    (message : SessionMessage H) : SessionCall H (SessionRequestResult H) := do
  failIf (endpoint != .client) .wrongEndpoint
  failIf ((← read).isLight != message.isLight) .messageKindMismatch
  match ← pollRequest endpoint owner with
  | some result => return result
  | none =>
    let state := (← read).state
    failIf (!state.serverOpen) .peerClosed
    failIf (decide (maxSessionRequests ≤ state.pendingByOwner.size)) .queueFull
    let id := state.nextRequestId
    commit fun state =>
      { state with
        nextRequestId := saturatingSucc state.nextRequestId
        pendingByOwner := state.pendingByOwner.insert owner id
        queued := state.queued ++ [{ id, owner, message }] }
    return .submitted

def receive (endpoint : SessionEndpoint) : SessionCall H (SessionMessage H) := do
  failIf (endpoint != .server) .wrongEndpoint
  let state := (← read).state
  failIf state.current.isSome .replyPending
  match state.queued with
  | [] => Call.fail (if state.clientOpen then .noRequest else .peerClosed)
  | request :: queued =>
    commit fun state => { state with queued, current := some request }
    return request.message

def reply (endpoint : SessionEndpoint) (message : SessionMessage H) : SessionCall H Unit := do
  failIf (endpoint != .server) .wrongEndpoint
  failIf ((← read).isLight != message.isLight) .messageKindMismatch
  let state := (← read).state
  failIf (!state.clientOpen) .peerClosed
  let request ← okOr state.current .noRequest
  debugAssert (state.pendingByOwner[request.owner]? == some request.id)
    "assertion `left == right` failed"
  commit fun state =>
    { state with
      current := none
      responses := state.responses.insert request.id message }

/-- `SessionEndpointLease::drop`. -/
def close (endpoint : SessionEndpoint) : SessionCall H Unit :=
  commit fun state =>
    { state with
      serverOpen := state.serverOpen && endpoint != .server
      clientOpen := state.clientOpen && endpoint != .client
      queued := []
      current := none
      responses := ∅
      pendingByOwner := ∅ }

/-! ### Sequences of calls -/

/-- What the holder of a clone of an endpoint can do. -/
inductive Command (H : Type) where
  | request (endpoint : SessionEndpoint) (owner : SessionRequestOwner) (message : SessionMessage H)
  | pollRequest (endpoint : SessionEndpoint) (owner : SessionRequestOwner)
  | receive (endpoint : SessionEndpoint)
  | reply (endpoint : SessionEndpoint) (message : SessionMessage H)
  | clone (endpoint : SessionEndpoint)
  | drop (endpoint : SessionEndpoint)

inductive Answer (H : Type) where
  | requested (result : SessionRequestResult H)
  | polled (result : Option (SessionRequestResult H))
  | received (message : SessionMessage H)
  | replied
  | done
  | absent
deriving DecidableEq

/-- The endpoint that a command is given on. -/
def Command.endpoint : Command H → SessionEndpoint
  | .request endpoint _ _ => endpoint
  | .pollRequest endpoint _ => endpoint
  | .receive endpoint => endpoint
  | .reply endpoint _ => endpoint
  | .clone endpoint => endpoint
  | .drop endpoint => endpoint

/-- The clones of an endpoint that are alive. -/
def SessionIdentity.clones (s : SessionIdentity H) : SessionEndpoint → ℕ
  | .server => s.servers
  | .client => s.clients

def SessionIdentity.setClones (s : SessionIdentity H) (endpoint : SessionEndpoint) (n : ℕ) :
    SessionIdentity H :=
  match endpoint with
  | .server => { s with servers := n }
  | .client => { s with clients := n }

/-- A clone is dropped, and the endpoint closed with the last one. -/
def dropClone (endpoint : SessionEndpoint) : SessionCall H Unit := do
  update fun s => s.setClones endpoint (s.clones endpoint - 1)
  if (← read).clones endpoint = 0 then
    close endpoint

/-- A command of a clone that is alive. -/
def perform : Command H → SessionCall H (Answer H)
  | .request endpoint owner message => return .requested (← request endpoint owner message)
  | .pollRequest endpoint owner => return .polled (← pollRequest endpoint owner)
  | .receive endpoint => return .received (← receive endpoint)
  | .reply endpoint message => do
      reply endpoint message
      return .replied
  | .clone endpoint => do
      update fun s => s.setClones endpoint (s.clones endpoint + 1)
      return .done
  | .drop endpoint => do
      dropClone endpoint
      return .done

/-- A command needs a clone of its endpoint. -/
def apply (command : Command H) : SessionCall H (Answer H) := do
  if (← read).clones command.endpoint = 0 then
    return .absent
  else
    perform command

def machine : Machine (SessionIdentity H) (Command H) (Outcome SessionError (Answer H)) where
  step s command := apply command s

end

end Nixe.Session
