/-
**The invalidation log hides no change.**

Changes of guest memory are published as records with consecutive cursors, in a ring of fixed
capacity.  A reservation holds the mutex of the ring until it is committed or dropped; readers
resume after the record that they read last, and are told if they fall more than a ring behind.

Main definitions:

* `MemoryInvalidationLog`, `Reservation.commit`, `readSince` — the ring of the source;
* `machine` — reservations and readers, interleaved at the mutex;
* `published`, `received` — what the clients of a run have published and read;
* `HidesNothing` — what is expected of a run.

Main results:

* `Retains.store` — a commit, also one that wraps over itself, keeps the latest records;
* `log_hides_no_change` — **readers get exactly the committed records**, or learn of their loss.
-/
import Nixe.Call
import Nixe.Checked
import Nixe.Machine

set_option autoImplicit false

namespace Nixe.Invalidation

open Call (failIf expect debugAssert)
open List Function

/-! ### The log -/

def memoryInvalidationCapacity : ℕ := 1024

inductive MemoryInvalidationKind where
  | mapping (addressSpace start size : ℕ)
  | executableContent (first : ℕ) (second : Option ℕ)
  | instructionCache (addressSpace : ℕ)
deriving DecidableEq, Repr

inductive MemoryInvalidationOrigin where
  | mapping
  | deviceWrite
  | hostWrite
  | cacheMaintenance
  | unknown
deriving DecidableEq, Repr

structure MemoryInvalidation where
  cursor : ℕ
  kind : MemoryInvalidationKind
  origin : MemoryInvalidationOrigin
deriving DecidableEq, Repr

inductive MemoryInvalidationError where
  | cursorAhead (requested latest : ℕ)
  | historyLost (requested oldest latest : ℕ)
  | cursorExhausted
  | resourceExhausted
deriving DecidableEq, Repr

/-- The log, with the fields of its `InvalidationRing`. -/
structure MemoryInvalidationLog where
  latest : ℕ
  records : ℕ → Option MemoryInvalidation
  count : ℕ

/-- The place of a cursor, which starts at one. -/
def slot (cursor : ℕ) : ℕ := (cursor - 1) % memoryInvalidationCapacity

def defaultOrigin : MemoryInvalidationKind → MemoryInvalidationOrigin
  | .mapping .. => .mapping
  | .instructionCache _ => .cacheMaintenance
  | .executableContent .. => .unknown

/-- A reservation of either type, without its guard. -/
inductive Reservation where
  | single (record : MemoryInvalidation)
  | batch (kinds : List MemoryInvalidationKind) (first : ℕ)
      (origin : Option MemoryInvalidationOrigin)

namespace MemoryInvalidationLog

variable (log : MemoryInvalidationLog)

def reserveWithOrigin (kind : MemoryInvalidationKind) (origin : MemoryInvalidationOrigin) :
    Except MemoryInvalidationError Reservation :=
  match checkedAdd log.latest 1 with
  | none => .error .cursorExhausted
  | some cursor => .ok (.single ⟨cursor, kind, origin⟩)

def reserveManyWithOrigin (kinds : List MemoryInvalidationKind)
    (origin : Option MemoryInvalidationOrigin) : Except MemoryInvalidationError Reservation :=
  match checkedAdd log.latest 1 with
  | none => .error .cursorExhausted
  | some first =>
    match checkedAdd first (kinds.length - 1) with
    | none => .error .cursorExhausted
    | some _ => .ok (.batch kinds first origin)

/-- A record is written over the one that is a ring older. -/
def store (record : MemoryInvalidation) : MemoryInvalidationLog :=
  { log with
    records := update log.records (slot record.cursor) (some record)
    count := min (log.count + 1) memoryInvalidationCapacity }

abbrev LogCall (α : Type) : Type := Call MemoryInvalidationLog MemoryInvalidationError α

/-- The loop of `read_since` over the cursors. -/
def collect : List ℕ → LogCall (List MemoryInvalidation)
  | [] => return []
  | value :: rest => do
    let record ← expect (log.records (slot value)) "a retained invalidation cursor has a ring entry"
    debugAssert (record.cursor == value) "assertion failed: record.cursor.get() == value"
    return record :: (← collect rest)

/-- `read_since`; `granted` says whether there is memory for the records. -/
def readSince (granted : Bool) (after : ℕ) : LogCall (List MemoryInvalidation × ℕ) := do
  let log ← Call.read
  failIf (log.latest < after) (.cursorAhead after log.latest)
  if after = log.latest then return ([], log.latest)
  else
    let oldest ← expect
      (if log.count - 1 ≤ log.latest then some (log.latest - (log.count - 1)) else none)
      "retained invalidation count cannot exceed the cursor"
    -- `after` is below `latest`, so that `saturating_add` adds
    failIf (after + 1 < oldest) (.historyLost after oldest log.latest)
    failIf (!granted) .resourceExhausted
    return (← log.collect (range' (after + 1) (log.latest - after)), log.latest)

end MemoryInvalidationLog

/-- Both `commit`s: the cursor that they return and the log that they leave. -/
def Reservation.commit (log : MemoryInvalidationLog) : Reservation → ℕ × MemoryInvalidationLog
  | .single record => (record.cursor, { log.store record with latest := record.cursor })
  | .batch kinds first origin =>
    if kinds.isEmpty then (log.latest, log)
    else
      let written := (kinds.mapIdx fun index kind =>
        ⟨first + index, kind, origin.getD (defaultOrigin kind)⟩).foldl .store log
      (first + kinds.length - 1, { written with latest := first + kinds.length - 1 })

/-! ### Reservations and readers -/

/-- The log, the reservation that holds its mutex, and where each reader resumes. -/
structure State where
  log : MemoryInvalidationLog
  held : Option Reservation
  cursors : ℕ → ℕ

inductive Action where
  | reserve (kind : MemoryInvalidationKind) (origin : Option MemoryInvalidationOrigin)
  | reserveMany (kinds : List MemoryInvalidationKind) (origin : Option MemoryInvalidationOrigin)
  | commit
  | drop
  | read (reader : ℕ) (granted : Bool)

inductive Response where
  /-- The mutex is held, or there is no reservation. -/
  | waits
  | reserved
  | committed (cursor : ℕ)
  | dropped
  | records (records : List MemoryInvalidation) (cursor : ℕ)
  | refused (error : MemoryInvalidationError)
  | panics (message : String)
deriving DecidableEq, Repr

def State.reserve (s : State) (reservation : Except MemoryInvalidationError Reservation) :
    Response × State :=
  match s.held, reservation with
  | some _, _ => (.waits, s)
  | none, .error e => (.refused e, s)
  | none, .ok r => (.reserved, { s with held := some r })

def State.step (s : State) : Action → Response × State
  | .reserve kind origin =>
    s.reserve (s.log.reserveWithOrigin kind (origin.getD (defaultOrigin kind)))
  | .reserveMany kinds origin => s.reserve (s.log.reserveManyWithOrigin kinds origin)
  | .commit =>
    match s.held with
    | none => (.waits, s)
    | some r => (.committed (r.commit s.log).1, { s with log := (r.commit s.log).2, held := none })
  | .drop => (if s.held.isSome then .dropped else .waits, { s with held := none })
  | .read reader granted =>
    match s.held with
    | some _ => (.waits, s)
    | none =>
      match MemoryInvalidationLog.readSince granted (s.cursors reader) s.log with
      | (.ok (records, cursor), log) =>
        (.records records cursor,
          { s with log := log, cursors := update s.cursors reader cursor })
      | (.err e, log) => (.refused e, { s with log := log })
      | (.panic m, log) => (.panics m, { s with log := log })

def machine : Machine State Action Response := ⟨State.step⟩

abbrev History : Type := List (Action × Response)

def start : State := ⟨⟨0, fun _ => none, 0⟩, none, fun _ => 0⟩

/-! ### What the clients know -/

/-- A change without its cursor. -/
abbrev Change : Type := MemoryInvalidationKind × MemoryInvalidationOrigin

/-- The commits so far, each with its changes, and the changes that are reserved. -/
structure Published where
  commits : List (List Change)
  held : List Change

def Published.observe (p : Published) : Action × Response → Published
  | (.reserve kind origin, .reserved) =>
    { p with held := [(kind, origin.getD (defaultOrigin kind))] }
  | (.reserveMany kinds origin, .reserved) =>
    { p with held := kinds.map fun kind => (kind, origin.getD (defaultOrigin kind)) }
  | (.commit, .committed _) => { p with commits := p.commits ++ [p.held] }
  | _ => p

def published (h : History) : Published := h.foldl Published.observe ⟨[], []⟩

/-- The records of changes, with the cursors after `n`. -/
def numberedFrom (n : ℕ) (changes : List Change) : List MemoryInvalidation :=
  changes.mapIdx fun index change => ⟨n + 1 + index, change.1, change.2⟩

/-- The committed records, in commit order. -/
def committed (h : History) : List MemoryInvalidation :=
  numberedFrom 0 (published h).commits.flatten

/-- What a reader was given. -/
def received (reader : ℕ) (h : History) : List MemoryInvalidation :=
  h.flatMap fun
    | (.read r _, .records records _) => if r = reader then records else []
    | _ => []

/-- A record that a reader at `after` is to get was overwritten. -/
def Lost (log : MemoryInvalidationLog) (all : List MemoryInvalidation) (after : ℕ) : Prop :=
  ∃ v, after ≤ v ∧ v < all.length ∧ log.records (slot (v + 1)) ≠ all[v]?

/-- What is expected of a run: the readers have the committed records up to their cursors, in whole
commits, and get the others next, unless one of them was overwritten. -/
structure HidesNothing (h : History) (s : State) : Prop where
  latest : s.log.latest = (committed h).length
  received : ∀ reader, received reader h = (committed h).take (s.cursors reader)
  whole : ∀ reader, ∃ k ≤ (published h).commits.length,
    s.cursors reader = ((published h).commits.take k).flatten.length
  commit : ∀ r, s.held = some r →
    (s.step .commit).1 = .committed (s.log.latest + (published h).held.length)
  lost : s.held = none → ∀ reader granted, Lost s.log (committed h) (s.cursors reader) →
    (s.step (.read reader granted)).1 = .refused (.historyLost (s.cursors reader)
      (s.log.latest + 1 - memoryInvalidationCapacity) s.log.latest)
  read : s.held = none → ∀ reader granted,
    ¬ Lost s.log (committed h) (s.cursors reader) →
    (s.step (.read reader granted)).1 =
      if s.cursors reader < s.log.latest ∧ granted = false then .refused .resourceExhausted
      else .records ((committed h).drop (s.cursors reader)) s.log.latest

/-! ### The ring -/

variable {log : MemoryInvalidationLog} {all : List MemoryInvalidation} {after n : ℕ} {h : History}
  {s : State} {e : Action × Response}

theorem numberedFrom_cons (change : Change) (changes : List Change) :
    numberedFrom n (change :: changes) =
      ⟨n + 1, change.1, change.2⟩ :: numberedFrom (n + 1) changes := by
  simp only [numberedFrom, mapIdx_cons, add_right_comm _ 1]
  rfl

theorem numberedFrom_append (a b : List Change) :
    numberedFrom n (a ++ b) = numberedFrom n a ++ numberedFrom (n + a.length) b := by
  induction a generalizing n with
  | nil => rfl
  | cons x a ih =>
    rw [cons_append, numberedFrom_cons, numberedFrom_cons, ih, length_cons,
      cons_append, add_right_comm n 1, add_assoc]

theorem length_numberedFrom (changes : List Change) :
    (numberedFrom n changes).length = changes.length := length_mapIdx

/-- The records have the cursors from one on. -/
def Numbered (all : List MemoryInvalidation) : Prop :=
  ∀ v record, all[v]? = some record → record.cursor = v + 1

theorem numbered_committed (h : History) : Numbered (committed h) := by
  intro v record h
  simp only [committed, numberedFrom, getElem?_mapIdx, Option.map_eq_some_iff] at h
  obtain ⟨_, -, rfl⟩ := h
  show 0 + 1 + v = v + 1
  omega

/-- The ring has the latest of the records. -/
structure Retains (log : MemoryInvalidationLog) (all : List MemoryInvalidation) : Prop where
  count : log.count = min all.length memoryInvalidationCapacity
  records : ∀ v < all.length, all.length ≤ v + memoryInvalidationCapacity →
    log.records (slot (v + 1)) = all[v]?

theorem slot_ne {v w : ℕ} (hlt : v < w) (hle : w < v + memoryInvalidationCapacity) :
    slot (v + 1) ≠ slot (w + 1) := by
  intro h
  have hdvd := (Nat.modEq_iff_dvd' hlt.le).1 h
  have := Nat.le_of_dvd (by omega) hdvd
  omega

theorem Retains.store {record : MemoryInvalidation} (h : Retains log all)
    (hcursor : record.cursor = all.length + 1) : Retains (log.store record) (all ++ [record]) := by
  refine ⟨?_, fun v hv hle => ?_⟩
  · simp only [MemoryInvalidationLog.store, h.count, length_append, length_singleton]
    omega
  · rw [length_append, length_singleton] at hv hle
    simp only [MemoryInvalidationLog.store, hcursor]
    rcases Nat.lt_succ_iff_lt_or_eq.1 hv with hlt | rfl
    · rw [update_of_ne (slot_ne hlt (by omega)), h.records v hlt (by omega),
        getElem?_append_left hlt]
    · simp

theorem Retains.storeAll (h : Retains log all) (changes : List Change) :
    Retains ((numberedFrom all.length changes).foldl .store log)
      (all ++ numberedFrom all.length changes) := by
  induction changes generalizing log all with
  | nil => simpa [numberedFrom] using h
  | cons change changes ih =>
    let record : MemoryInvalidation := ⟨all.length + 1, change.1, change.2⟩
    have hrest := ih (h.store (rfl : record.cursor = _))
    simpa [numberedFrom_cons] using hrest

/-- A record is overwritten by the one that is a ring later. -/
theorem Retains.lost_iff (h : Retains log all) (hall : Numbered all) :
    Lost log all after ↔ after + memoryInvalidationCapacity < all.length := by
  constructor
  · rintro ⟨v, hle, hlt, hne⟩
    by_contra hnot
    exact hne (h.records v hlt (by omega))
  · intro hlt
    refine ⟨after, le_rfl, by omega, fun heq => ?_⟩
    -- the place holds the last record with the same remainder
    set turns := _ / memoryInvalidationCapacity with hturns
    have hmod := Nat.div_add_mod (all.length - 1 - after) memoryInvalidationCapacity
    have hrest :=
      Nat.mod_lt (all.length - 1 - after) (show 0 < memoryInvalidationCapacity by decide)
    rw [← hturns] at hmod
    have hslot : slot (after + 1) = slot (after + memoryInvalidationCapacity * turns + 1) := by
      simp [slot]
    have hlast : after + memoryInvalidationCapacity * turns < all.length := by omega
    rw [hslot, h.records _ hlast (by omega), getElem?_eq_getElem hlast] at heq
    have hcursor := hall _ _ heq.symm
    rw [hall _ _ (getElem?_eq_getElem hlast)] at hcursor
    omega

theorem Retains.collect (h : Retains log all) (hall : Numbered all) (s : MemoryInvalidationLog) :
    ∀ (d after : ℕ), after + d = all.length → all.length ≤ after + memoryInvalidationCapacity →
      log.collect (range' (after + 1) d) s = (.ok (all.drop after), s)
  | 0, after, hd, _ => by
    rw [drop_eq_nil_of_le (by omega)]
    rfl
  | d + 1, after, hd, hle => by
    have hlt : after < all.length := by omega
    have hrecord := (h.records after hlt hle).trans (getElem?_eq_getElem hlt)
    have hcursor := hall _ _ (getElem?_eq_getElem hlt)
    rw [range'_succ, drop_eq_getElem_cons hlt]
    simp [MemoryInvalidationLog.collect, hrecord, hcursor,
      Retains.collect h hall s d (after + 1) (by omega) (by omega)]

/-- **What a read returns.** -/
theorem Retains.readSince (h : Retains log all) (hall : Numbered all)
    (hlatest : log.latest = all.length)
    (hafter : after ≤ all.length) (granted : Bool) :
    MemoryInvalidationLog.readSince granted after log =
      (if after + memoryInvalidationCapacity < all.length then
        .err (.historyLost after (all.length + 1 - memoryInvalidationCapacity) all.length)
      else if after < all.length ∧ granted = false then .err .resourceExhausted
      else .ok (all.drop after, all.length), log) := by
  have hpos : 0 < memoryInvalidationCapacity := by decide
  unfold MemoryInvalidationLog.readSince
  simp only [Call.bind_run, Call.read_run, hlatest, decide_eq_false (not_lt.2 hafter),
    Call.failIf_false]
  by_cases hend : after = all.length
  · simp [hend]
  · rw [if_neg hend, h.count, if_pos (by omega)]
    by_cases hlost : after + memoryInvalidationCapacity < all.length
    · rw [if_pos hlost]
      have holdest : all.length - (min all.length memoryInvalidationCapacity - 1) =
          all.length + 1 - memoryInvalidationCapacity := by omega
      simp [holdest, show after + 1 < all.length + 1 - memoryInvalidationCapacity by omega]
    · rw [if_neg hlost]
      have hkept : ¬ after + 1 < all.length - (min all.length memoryInvalidationCapacity - 1) := by
        omega
      have hlt : after < all.length := by omega
      cases granted with
      | false => simp [hkept, hlt]
      | true =>
        have hrecords := h.collect hall log (all.length - after) after (by omega) (by omega)
        simp [hkept, hrecords]

/-! ### Runs -/

/-- The commit of the reservation writes the changes, and there are cursors for them. -/
def Reserves (r : Reservation) (log : MemoryInvalidationLog) (changes : List Change) : Prop :=
  r.commit log = (log.latest + changes.length,
    { (numberedFrom log.latest changes).foldl .store log with
      latest := log.latest + changes.length })

theorem reserves_single {r : Reservation} {kind : MemoryInvalidationKind}
    {origin : MemoryInvalidationOrigin} (h : log.reserveWithOrigin kind origin = .ok r) :
    Reserves r log [(kind, origin)] := by
  unfold MemoryInvalidationLog.reserveWithOrigin at h
  split at h
  · cases h
  · next hcursor =>
    cases h
    obtain ⟨rfl, -⟩ := checkedAdd_eq_some.1 hcursor
    rfl

theorem numberedFrom_map {α : Type} (f : α → Change) (items : List α) :
    numberedFrom n (items.map f) =
      items.mapIdx fun index item => ⟨n + 1 + index, (f item).1, (f item).2⟩ := by
  refine ext_getElem? fun index => ?_
  simp [numberedFrom, comp_def]

theorem reserves_batch {r : Reservation} {kinds : List MemoryInvalidationKind}
    {origin : Option MemoryInvalidationOrigin}
    (h : log.reserveManyWithOrigin kinds origin = .ok r) :
    Reserves r log (kinds.map fun kind => (kind, origin.getD (defaultOrigin kind))) := by
  unfold MemoryInvalidationLog.reserveManyWithOrigin at h
  split at h
  · cases h
  · next hfirst =>
    split at h
    · cases h
    · cases h
      obtain ⟨rfl, -⟩ := checkedAdd_eq_some.1 hfirst
      rw [Reserves, Reservation.commit]
      split
      · next hempty =>
        rw [isEmpty_iff.1 hempty]
        rfl
      · simp [numberedFrom_map]

structure Inv (h : History) (s : State) : Prop where
  latest : s.log.latest = (committed h).length
  retains : Retains s.log (committed h)
  held : ∀ r, s.held = some r → Reserves r s.log (published h).held
  delivered : ∀ reader, received reader h = (committed h).take (s.cursors reader)
  whole : ∀ reader, ∃ k ≤ (published h).commits.length,
    s.cursors reader = ((published h).commits.take k).flatten.length

theorem length_committed : (committed h).length = (published h).commits.flatten.length :=
  length_numberedFrom _

theorem Inv.cursor_le (hs : Inv h s) (reader : ℕ) :
    s.cursors reader ≤ (committed h).length := by
  obtain ⟨k, -, hk⟩ := hs.whole reader
  rw [hk, length_committed]
  exact ((take_sublist k _).flatten).length_le

/-- The answer to a read, and what it leaves. -/
theorem Inv.read_eq (hs : Inv h s) (hheld : s.held = none) (reader : ℕ) (granted : Bool) :
    s.step (.read reader granted) =
      if s.cursors reader + memoryInvalidationCapacity < s.log.latest then
        (.refused (.historyLost (s.cursors reader) (s.log.latest + 1 - memoryInvalidationCapacity)
          s.log.latest), s)
      else if s.cursors reader < s.log.latest ∧ granted = false then
        (.refused .resourceExhausted, s)
      else
        (.records ((committed h).drop (s.cursors reader)) s.log.latest,
          { s with cursors := update s.cursors reader s.log.latest }) := by
  have hread := hs.retains.readSince (numbered_committed _) hs.latest (hs.cursor_le reader) granted
  rw [← hs.latest] at hread
  obtain ⟨log, held, cursors⟩ := s
  cases hheld
  split_ifs at hread ⊢ <;> simp [State.step, hread]

theorem published_append (e : Action × Response) :
    published (h ++ [e]) = (published h).observe e := by
  simp [published]

theorem received_append (reader : ℕ) (e : Action × Response) :
    received reader (h ++ [e]) = received reader h ++ received reader [e] := by
  simp [received]

theorem Inv.extend (hs : Inv h s) {t : State} (hlog : t.log = s.log)
    (hcommits : ((published h).observe e).commits = (published h).commits)
    (hheld : ∀ r, t.held = some r → Reserves r s.log ((published h).observe e).held)
    (hdelivered : ∀ reader, received reader (h ++ [e]) = (committed h).take (t.cursors reader))
    (hwhole : ∀ reader, ∃ k ≤ (published h).commits.length,
      t.cursors reader = ((published h).commits.take k).flatten.length) : Inv (h ++ [e]) t := by
  have hall : committed (h ++ [e]) = committed h := by
    rw [committed, published_append, hcommits, committed]
  refine ⟨?_, ?_, ?_, fun reader => ?_, fun reader => ?_⟩
  · rw [hall, hlog]
    exact hs.latest
  · rw [hall, hlog]
    exact hs.retains
  · rw [published_append, hlog]
    exact hheld
  · rw [hall]
    exact hdelivered reader
  · rw [published_append, hcommits]
    exact hwhole reader

theorem Inv.quiet (hs : Inv h s) {t : State} (hlog : t.log = s.log)
    (hcursors : t.cursors = s.cursors)
    (hcommits : ((published h).observe e).commits = (published h).commits)
    (hnothing : ∀ reader, received reader [e] = [])
    (hheld : ∀ r, t.held = some r → Reserves r s.log ((published h).observe e).held) :
    Inv (h ++ [e]) t := by
  refine hs.extend hlog hcommits hheld (fun reader => ?_) (hcursors ▸ hs.whole)
  rw [received_append, hnothing, append_nil, hcursors]
  exact hs.delivered reader

theorem Inv.idle (hs : Inv h s) (action : Action) {response : Response}
    (hidle : response = .waits ∨ ∃ error, response = .refused error) :
    Inv (h ++ [(action, response)]) s := by
  have hsame : ∀ p : Published, p.observe (action, response) = p := by
    rcases hidle with rfl | ⟨_, rfl⟩ <;> cases action <;> exact fun _ => rfl
  refine hs.quiet rfl rfl (by rw [hsame]) ?_ (by rw [hsame]; exact hs.held)
  rcases hidle with rfl | ⟨_, rfl⟩ <;> cases action <;> exact fun _ => rfl

theorem Inv.afterReserve (hs : Inv h s) {action : Action} {changes : List Change}
    {reservation : Except MemoryInvalidationError Reservation}
    (hreserves : ∀ r, reservation = .ok r → Reserves r s.log changes)
    (hobserve : (published h).observe (action, .reserved) = { published h with held := changes })
    (hnothing : ∀ reader, received reader [(action, .reserved)] = []) :
    Inv (h ++ [(action, (s.reserve reservation).1)]) (s.reserve reservation).2 := by
  unfold State.reserve
  split
  · exact hs.idle action (.inl rfl)
  · exact hs.idle action (.inr ⟨_, rfl⟩)
  · refine hs.quiet rfl rfl (by rw [hobserve]) hnothing fun r hr => ?_
    cases hr
    rw [hobserve]
    exact hreserves _ rfl

theorem Inv.afterCommit (hs : Inv h s) {r : Reservation} (hheld : s.held = some r) (cursor : ℕ) :
    Inv (h ++ [(.commit, .committed cursor)])
      { s with log := (r.commit s.log).2, held := none } := by
  have hcommits : (published (h ++ [(.commit, .committed cursor)])).commits =
      (published h).commits ++ [(published h).held] := by
    rw [published_append]
    rfl
  have hall : committed (h ++ [(.commit, .committed cursor)]) =
      committed h ++ numberedFrom s.log.latest (published h).held := by
    rw [committed, hcommits, flatten_append, flatten_singleton, numberedFrom_append,
      zero_add, ← length_committed, ← hs.latest]
    rfl
  have hcommit : r.commit s.log = _ := hs.held r hheld
  refine ⟨?_, ?_, nofun, fun reader => ?_, fun reader => ?_⟩
  · rw [hall, hcommit, length_append, length_numberedFrom, ← hs.latest]
  · have hretains := hs.retains.storeAll (published h).held
    rw [← hs.latest] at hretains
    rw [hall, hcommit]
    exact ⟨hretains.count, hretains.records⟩
  · rw [hall, take_append_of_le_length (hs.cursor_le reader), received_append]
    exact (append_nil _).trans (hs.delivered reader)
  · obtain ⟨k, hk, hcursor⟩ := hs.whole reader
    refine ⟨k, hk.trans (by simp [hcommits]), ?_⟩
    rw [hcommits, take_append_of_le_length hk]
    exact hcursor

theorem Inv.afterRead (hs : Inv h s) (hheld : s.held = none) (reader : ℕ) (granted : Bool) :
    Inv (h ++ [(.read reader granted, (s.step (.read reader granted)).1)])
      (s.step (.read reader granted)).2 := by
  rw [hs.read_eq hheld]
  split
  · exact hs.idle _ (.inr ⟨_, rfl⟩)
  · split
    · exact hs.idle _ (.inr ⟨_, rfl⟩)
    · refine hs.extend rfl rfl hs.held (fun other => ?_) fun other => ?_
      · rw [received_append, hs.delivered]
        by_cases hother : reader = other
        · subst hother
          simp [received, hs.latest]
        · simp [received, hother, update_of_ne (Ne.symm hother)]
      · by_cases hother : other = reader
        · subst hother
          exact ⟨_, le_rfl, by simp [hs.latest, length_committed]⟩
        · simpa [hother] using hs.whole other

theorem Inv.step (hs : Inv h s) (action : Action) :
    Inv (h ++ [(action, (s.step action).1)]) (s.step action).2 := by
  cases action with
  | reserve kind origin =>
    exact hs.afterReserve (fun _ => reserves_single) rfl fun _ => rfl
  | reserveMany kinds origin =>
    exact hs.afterReserve (fun _ => reserves_batch) rfl fun _ => rfl
  | commit =>
    cases hheld : s.held with
    | none => simpa only [State.step, hheld] using hs.idle .commit (.inl rfl)
    | some r => simpa only [State.step, hheld] using hs.afterCommit hheld _
  | drop =>
    simp only [State.step]
    split
    · exact hs.quiet rfl rfl rfl (fun _ => rfl) nofun
    · exact hs.quiet rfl rfl rfl (fun _ => rfl) nofun
  | read reader granted =>
    cases hheld : s.held with
    | none => exact hs.afterRead hheld reader granted
    | some r => simpa only [State.step, hheld] using hs.idle _ (.inl rfl)

theorem Inv.hidesNothing (hs : Inv h s) : HidesNothing h s := by
  have hlost : ∀ reader, Lost s.log (committed h) (s.cursors reader) ↔
      s.cursors reader + memoryInvalidationCapacity < s.log.latest := fun reader => by
    rw [hs.latest]
    exact hs.retains.lost_iff (numbered_committed _)
  refine ⟨hs.latest, hs.delivered, hs.whole, fun r hr => ?_, fun hheld reader granted h => ?_,
    fun hheld reader granted h => ?_⟩
  · have hcommit : r.commit s.log = _ := hs.held r hr
    simp [State.step, hr, hcommit]
  · rw [hs.read_eq hheld, if_pos ((hlost reader).1 h)]
  · rw [hs.read_eq hheld, if_neg (mt (hlost reader).2 h)]
    split <;> rfl

/-- **The log hides no change.** -/
theorem log_hides_no_change (actions : List Action) :
    HidesNothing (machine.trace start actions) (machine.run start actions) := by
  have hstart : Inv [] start := ⟨rfl, ⟨rfl, nofun⟩, nofun, fun _ => rfl, fun _ => ⟨0, le_rfl, rfl⟩⟩
  exact (Machine.trace_run_invariant (fun _ _ action hs => hs.step action)
    actions [] start hstart).hidesNothing

end Nixe.Invalidation
