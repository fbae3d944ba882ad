/-
**A display slot comes back from the frame that was queued from it**, unless its number is given to
another buffer while the frame is out.

Requests, pending frames and leases are tickets in the sense of `Lending`: every action of the
display is a sequence of the steps of that library (`step_steps`), on the books that `books` reads
off the state.

Main definitions:

* `books` — the places, tickets and returns of a state;
* `Clear` — a buffer is registered in a slot only while nothing that was queued under the slot's
  number is out;
* `Safe` — what is expected of the slots.

Main results:

* `released_once` — **no frame is released twice**;
* `slots_safe` — **if registrations are clear, the slots are safe in every state reached**;
* `late_release` — a slot that is handed out while its frame is pending.
-/
import Nixe.DisplayBuffers

set_option autoImplicit false

namespace Nixe.Display

open Std (TreeMap)
open Parcel Lending List Function Std.TreeMap PendingFrame
open BufferQueue (perform release rollbackQueue)

/-! ### The books of a state -/

/-- The owner of a slot, as a phase of lending. -/
def SlotOwnership.phase : SlotOwnership → Phase
  | .free => .free
  | .dequeued => .taken
  | .queueing => .offered
  | .queued => .lent

theorem SlotOwnership.phase_inj {a b : SlotOwnership} : a.phase = b.phase ↔ a = b := by
  cases a <;> cases b <;> decide

/-- The registered slots of all producers. -/
def places (queues : TreeMap ℤ BufferQueue) (place : ℤ × ℤ) : Option (ℕ × Phase) :=
  (queues[place.1]?.bind fun queue => queue.slots[place.2]?).map fun slot =>
    (slot.registration, slot.ownership.phase)

/-- The requests that are out. -/
def System.offered (system : System) : List ReleasedSlot :=
  system.requests.map (fun entry => entry.2.released entry.1) ++ system.failed

/-- The frames that are out: pending, or published and not dropped. -/
def System.liveFrames (system : System) : List ReleasedSlot :=
  system.pendingFrames.map released ++ system.leases

def books (system : System) : Books (ℤ × ℤ) where
  places := places system.queues
  offered := ↑system.offered
  lent := ↑(system.liveFrames ++ system.releasedSlots)
  returns := system.releases
  next := system.frames

/-! ### Changes of one queue -/

variable {queues : TreeMap ℤ BufferQueue} {queue after : BufferQueue} {binderId index : ℤ}
  {slot : BufferSlot} {strict : Prop} {before next : Phase} {f : BufferQueue → BufferQueue}
  {system system' : System} {rest : List PendingFrame} {refresh : System.Refresh}
  {encoded : List UInt8}

theorem places_insert (place : ℤ × ℤ) :
    places (queues.insert binderId after) place =
      if place.1 = binderId then (after.slots[place.2]?).map fun slot =>
        (slot.registration, slot.ownership.phase)
      else places queues place := by
  unfold places
  rw [TreeMap.getElem?_insert]
  by_cases h : place.1 = binderId
  · subst h
    simp
  · rw [if_neg h, if_neg (by simpa using Ne.symm h)]

theorem places_of (hqueue : queues[binderId]? = some queue) (index : ℤ) :
    places queues (binderId, index) =
      (queue.slots[index]?).map fun slot => (slot.registration, slot.ownership.phase) := by
  simp [places, hqueue]

theorem places_same (hqueue : queues[binderId]? = some queue) (hslots : after.slots = queue.slots) :
    places (queues.insert binderId after) = places queues := by
  funext place
  rw [places_insert]
  split
  · next h =>
    subst h
    rw [hslots, ← places_of hqueue]
  · rfl

theorem places_write (slot : BufferSlot) (hqueue : queues[binderId]? = some queue)
    (hslots : after.slots = queue.slots.insert index slot) :
    places (queues.insert binderId after) = update (places queues) (binderId, index)
        (some (slot.registration, slot.ownership.phase)) := by
  funext place
  obtain ⟨b, i⟩ := place
  rw [places_insert]
  by_cases hb : b = binderId
  · subst hb
    rw [if_pos rfl, hslots, TreeMap.getElem?_insert]
    by_cases hi : i = index
    · subst hi
      simp
    · rw [update_of_ne (by simpa using hi), if_neg (by simpa using Ne.symm hi),
        places_of hqueue]
  · rw [if_neg hb, update_of_ne (by simp [hb])]

theorem places_forget (hqueue : queues[binderId]? = some queue)
    (hslots : ∀ i : ℤ, after.slots[i]? = queue.slots[i]? ∨ after.slots[i]? = none)
    (place : ℤ × ℤ) :
    places (queues.insert binderId after) place = places queues place ∨
      places (queues.insert binderId after) place = none := by
  obtain ⟨b, i⟩ := place
  rw [places_insert]
  by_cases hb : b = binderId
  · subst hb
    rw [if_pos rfl, places_of hqueue]
    rcases hslots i with h | h
    · exact .inl (by rw [h])
    · exact .inr (by rw [h]; rfl)
  · exact .inl (if_neg hb)

theorem pass_of_none {places : ℤ × ℤ → Option (ℕ × Phase)} {place : ℤ × ℤ}
    (h : places place = none) :
    Lending.pass places place before next = places := by
  simp [Lending.pass, h]

theorem pass_of_slot (hqueue : queues[binderId]? = some queue)
    (hslot : queue.slots[index]? = some slot) (before next : SlotOwnership) :
    Lending.pass (places queues) (binderId, index) before.phase next.phase =
      if slot.ownership = before then
        update (places queues) (binderId, index) (some (slot.registration, next.phase))
      else places queues := by
  have hplace : places queues (binderId, index) =
      some (slot.registration, slot.ownership.phase) := by
    rw [places_of hqueue, hslot]
    rfl
  simp [Lending.pass, hplace, SlotOwnership.phase_inj]

theorem places_release (hqueue : queues[binderId]? = some queue) :
    places (queues.insert binderId (queue.release index)) =
      Lending.pass (places queues) (binderId, index) .lent .free := by
  cases hslot : queue.slots[index]? with
  | none =>
    rw [pass_of_none (by rw [places_of hqueue, hslot]; rfl)]
    exact places_same hqueue (by simp [release, hslot])
  | some slot =>
    refine .trans ?_ (pass_of_slot hqueue hslot .queued .free).symm
    simp only [release, hslot]
    split
    · exact places_write { slot with releaseFences := [], ownership := .free } hqueue rfl
    · exact places_same hqueue rfl

theorem places_rollback (hqueue : queues[binderId]? = some queue) :
    places (queues.insert binderId (queue.rollbackQueue index)) =
      Lending.pass (places queues) (binderId, index) .offered .taken := by
  cases hslot : queue.slots[index]? with
  | none =>
    rw [pass_of_none (by rw [places_of hqueue, hslot]; rfl)]
    exact places_same hqueue (by simp [rollbackQueue, hslot])
  | some slot =>
    refine .trans ?_ (pass_of_slot hqueue hslot .queueing .dequeued).symm
    simp only [rollbackQueue, hslot]
    split
    · exact places_write { slot with ownership := .dequeued } hqueue rfl
    · exact places_same hqueue rfl

/-! ### Releases -/

variable (queues : TreeMap ℤ BufferQueue)

/-- A change of the flags of a queue is not in the books. -/
theorem places_modify_same (hf : ∀ queue, (f queue).slots = queue.slots) :
    places (System.modifyQueue queues binderId f) = places queues := by
  unfold System.modifyQueue
  split
  · next queue hqueue => exact places_same hqueue (hf queue)
  · rfl

theorem places_modify_pass {place : ℤ × ℤ} (hf : ∀ queue, queues[place.1]? = some queue →
      places (queues.insert place.1 (f queue)) = Lending.pass (places queues) place before next) :
    places (System.modifyQueue queues place.1 f) =
      Lending.pass (places queues) place before next := by
  unfold System.modifyQueue
  split
  · next queue hqueue => exact hf queue hqueue
  · next hqueue =>
    rw [pass_of_none]
    simp [places, hqueue]

theorem freed_eq (system : System) (place : ℤ × ℤ) :
    system.freed place = freedBy (places system.queues) place := by
  unfold System.freed freedBy places System.slotAt
  cases system.queues[place.1]?.bind fun queue => queue.slots[place.2]? with
  | none => rfl
  | some slot =>
    obtain ⟨ownership, -, -, -, registration⟩ := slot
    cases ownership <;> rfl

/-- The release of a ticket that is out is a return. -/
theorem releaseSlot_step {released : ReleasedSlot}
    (hqueues : system'.queues = (system.releaseSlot released).queues)
    (hreleases : system'.releases = (system.releaseSlot released).releases)
    (hframes : system'.frames = system.frames) (hoffered : system'.offered = system.offered)
    (hlent : (books system).lent = released ::ₘ (books system').lent) :
    Step strict (books system) (books system') := by
  have hstep : Step strict (books system) _ := .giveUp hlent
  have hbooks : books system' = { books system with
        places := Lending.pass (places system.queues) released.place .lent .free
        lent := (books system').lent
        returns := system.releases ++
          [⟨released, freedBy (places system.queues) released.place⟩] } := by
    unfold books
    rw [hqueues, hreleases, hoffered]
    congr 1
    · exact places_modify_pass system.queues fun queue => places_release
    · show system.releases ++ [_] = _
      rw [freed_eq]
  rw [hbooks]
  exact hstep

/-- Draining releases the tickets that have come back, one after another. -/
theorem drain_steps : Steps strict (books system) (books system.drainReleasedSlots) := by
  suffices h : ∀ released (system : System), system.releasedSlots = [] →
      Steps strict (books { system with releasedSlots := released })
        (books (released.foldl System.releaseSlot system)) by
    exact h system.releasedSlots { system with releasedSlots := [] } rfl
  intro released
  induction released with
  | nil =>
    rintro system hnone
    have hsame : { system with releasedSlots := [] } = system := by rw [← hnone]
    rw [hsame]
    exact .refl
  | cons first rest ih =>
    intro system hnone
    refine .head ?_ (ih _ hnone)
    refine releaseSlot_step rfl rfl rfl rfl ?_
    exact Multiset.coe_eq_coe.2 perm_middle

/-! ### The actions -/

theorem books_eq (hplaces : places system'.queues = places system.queues)
    (hoffered : system'.offered.Perm system.offered)
    (hlent : (system'.liveFrames ++ system'.releasedSlots).Perm
      (system.liveFrames ++ system.releasedSlots)) (hreleases : system'.releases = system.releases)
    (hframes : system'.frames = system.frames) : books system' = books system := by
  unfold books
  rw [hplaces, hreleases, hframes, Multiset.coe_eq_coe.2 hoffered, Multiset.coe_eq_coe.2 hlent]

theorem block_books (system : System) (pending : PendingFrame) {first : PendingFrame}
    (hfirst : system.pendingFrames = first :: rest)
    (hreleased : first.released = pending.released) :
    books (system.block pending rest) = books system := by
  refine books_eq (places_modify_same _ fun queue => rfl) (.refl _) ?_ rfl rfl
  show ((rest ++ [pending]).map released ++ system.leases ++ _).Perm
    (system.pendingFrames.map released ++ system.leases ++ _)
  rw [hfirst, map_append, map_cons, map_cons, hreleased]
  exact ((perm_append_singleton _ _).append_right _).append_right _

theorem acquire_books {pending : PendingFrame} (hfirst : system.pendingFrames = pending :: rest) :
    books (system.acquire pending rest) = books system := by
  unfold System.acquire
  split
  · rfl
  · refine books_eq (places_modify_same _ fun queue => rfl) (.refl _) ?_ rfl rfl
    show ((pending.released :: rest.map released) ++ system.leases ++ _).Perm
      (system.pendingFrames.map released ++ system.leases ++ _)
    rw [hfirst]
    exact .refl _

theorem publish_books (system : System) (pending : PendingFrame) {first : PendingFrame}
    (hfirst : system.pendingFrames = first :: rest)
    (hreleased : first.released = pending.released) :
    books (system.publish pending rest) = books system := by
  refine books_eq rfl (.refl _) ?_ rfl rfl
  show (rest.map released ++ pending.released :: system.leases ++ _).Perm
    (system.pendingFrames.map released ++ system.leases ++ _)
  rw [hfirst, map_cons, hreleased]
  exact perm_middle.append_right _

theorem unblock_books (system : System) : books system.unblock = books system := by
  refine books_eq ?_ (.refl _) (.refl _) rfl rfl
  funext place
  unfold System.unblock places
  rw [TreeMap.getElem?_map]
  cases system.queues[place.1]? <;> rfl

/-- A round of `advance` publishes, discards or keeps the frame in front. -/
theorem advanceFrame_steps (system : System) (refresh : System.Refresh) (crossed : ℕ) :
    Steps strict (books system) (books (system.advanceFrame refresh crossed).2) := by
  have hof : ∀ {system' : System}, books system' = books system →
      Steps strict (books system) (books system') := fun heq => heq ▸ .refl
  unfold System.advanceFrame
  split
  · exact .refl
  · next pending rest hfirst =>
    split
    · exact .refl
    · split
      · exact hof (block_books system pending hfirst rfl)
      · -- the acquired frame is still the one in front
        have hacquire := acquire_books hfirst
        obtain ⟨first, hpending, hreleased⟩ : ∃ first, (system.acquire pending rest).pendingFrames =
            first :: rest ∧ first.released = pending.released := by
          unfold System.acquire
          split
          · exact ⟨pending, hfirst, rfl⟩
          · exact ⟨{ pending with acquired := true }, rfl, rfl⟩
        split
        · split
          · exact hof ((publish_books _ pending hpending hreleased).trans hacquire)
          · exact hof hacquire
          · exact hof ((block_books _ { pending with acquired := true } hpending hreleased).trans
              hacquire)
          · exact hof hacquire
        · refine .single (hacquire ▸ ?_)
          refine releaseSlot_step rfl rfl rfl rfl ?_
          show ((_ : List ReleasedSlot) : Multiset ReleasedSlot) = pending.released ::ₘ
            ↑(rest.map released ++ _ ++ _)
          rw [System.liveFrames, hpending, map_cons, hreleased]
          rfl

theorem advanceFrames_steps {crossed rounds : ℕ} {after : System} {error : Option FramebufferError}
    (h : System.advanceFrames refresh crossed rounds system = (error, after)) :
    Steps strict (books system) (books after) := by
  induction rounds generalizing system with
  | zero =>
    cases h
    exact .refl
  | succ rounds ih =>
    have hround : Steps strict (books system) _ := advanceFrame_steps system refresh crossed
    unfold System.advanceFrames at h
    split at h
    · next next hnext =>
      rw [hnext] at hround
      exact hround.trans (ih h)
    · next error next hnext =>
      rw [hnext] at hround
      cases h
      exact hround

theorem advance_steps : Steps strict (books system) (books (system.advance refresh).2) := by
  refine drain_steps.trans ?_
  unfold System.advance
  simp only
  split
  · exact .refl
  · split
    · next after hafter =>
      have hsteps : Steps strict _ (books after) := advanceFrames_steps hafter
      rw [unblock_books] at hsteps
      exact hsteps
    · next error after hafter =>
      have hsteps : Steps strict _ (books after) := advanceFrames_steps hafter
      rw [unblock_books] at hsteps
      exact hsteps

/-! ### Transactions -/

/-- The books after a transaction has written the queue of its producer. -/
def System.written (system : System) (binderId : ℤ) (after : BufferQueue) : System :=
  { system with queues := system.queues.insert binderId after }

/-- The slot in which a transaction registers a buffer. -/
def registers (code : ℕ) (encoded : List UInt8) : Option ℤ :=
  match decodeTransaction code encoded with
  | .ok (.preallocateBuffer slot _ _) => some slot
  | _ => none

/-- The producer is known and has no buffer in the slot. -/
def System.Vacant (system : System) (place : ℤ × ℤ) : Prop :=
  ∃ queue ∈ system.queues[place.1]?, queue.slots[place.2]? = none

instance (system : System) (place : ℤ × ℤ) : Decidable (system.Vacant place) :=
  inferInstanceAs (Decidable (∃ queue ∈ _, _))

/-- A buffer is registered in a slot only while nothing that was queued under the slot's number is
out: no request, no pending frame and no lease. -/
def Clear (system : System) : Action → Prop
  | .transact binderId code encoded =>
    ∀ slot ∈ registers code encoded, system.Vacant (binderId, slot) →
      ∀ x ∈ system.offered ++ system.liveFrames, x.place ≠ (binderId, slot)
  | _ => True

instance (system : System) (action : Action) : Decidable (Clear system action) := by
  unfold Clear
  split <;> infer_instance

/-- The books after a transaction with what it has queued. -/
def performedBooks (system : System) (binderId : ℤ) (after : BufferQueue)
    (queued : Option QueuedBufferRequest) : Books (ℤ × ℤ) :=
  { books (system.written binderId after) with
    offered := ↑(queued.toList.map fun request => request.released binderId) +
      (books system).offered
    next := system.frames + queued.toList.length }

theorem performedBooks_none (system : System) (binderId : ℤ) (after : BufferQueue) :
    performedBooks system binderId after none =
      { books system with places := places (system.queues.insert binderId after) } := by
  rfl

/-- A transaction is a sequence of steps of the books, before its reply is put together. -/
abbrev Recorded (strict : Prop) (system : System) (binderId : ℤ) (performed : Performed) : Prop :=
  Steps strict (books system)
    (performedBooks system binderId performed.queue performed.queued)

section Performed

variable {system : System} {registration : ℕ} {performed : Performed}
variable (hqueue : system.queues[binderId]? = some queue)
include hqueue

theorem performed_same (hslots : after.slots = queue.slots) :
    Steps strict (books system) (performedBooks system binderId after none) := by
  rw [performedBooks_none, places_same hqueue hslots]
  exact .refl

theorem performed_forget
    (hslots : ∀ i : ℤ, after.slots[i]? = queue.slots[i]? ∨ after.slots[i]? = none) :
    Steps strict (books system) (performedBooks system binderId after none) := by
  exact .single (.forget _ (places_forget hqueue hslots))

/-- A slot changes hands between the producer and the free slots. -/
theorem performed_pass {slot' : BufferSlot} (hslot : queue.slots[index]? = some slot)
    (hslots : after.slots = queue.slots.insert index slot')
    (hregistration : slot'.registration = slot.registration)
    (hstep : Step strict (books system) { books system with
        places := Lending.pass (places system.queues) (binderId, index) slot.ownership.phase
          slot'.ownership.phase }) :
    Steps strict (books system) (performedBooks system binderId after none) := by
  rw [performedBooks_none, places_write slot' hqueue hslots, hregistration]
  rw [pass_of_slot hqueue hslot, if_pos rfl] at hstep
  exact .single hstep

theorem requestBuffer_steps
    (h : queue.perform registration system.frames (.requestBuffer index) = .ok performed) :
    Recorded strict system binderId performed := by
  simp only [perform] at h
  split at h
  · cases h
    exact performed_same hqueue rfl
  · split at h
    · obtain ⟨payload, -, hpure⟩ := Call.except_bind_eq_ok.1 h
      cases hpure
      exact performed_same hqueue rfl
    · cases h
      exact performed_same hqueue rfl
  · cases h
    exact performed_same hqueue rfl

theorem dequeueBuffer_steps
    (h : queue.perform registration system.frames .dequeueBuffer = .ok performed) :
    Recorded strict system binderId performed := by
  simp only [perform] at h
  split at h
  · next index slot hfind =>
    obtain ⟨payload, -, hpure⟩ := Call.except_bind_eq_ok.1 h
    cases hpure
    have hslot : queue.slots[index]? = some slot :=
      mem_toList_iff_getElem?_eq_some.1 (mem_of_find?_eq_some hfind)
    have hfree : slot.ownership = .free := by simpa using find?_some hfind
    have hslots : (if (queue.own index slot .dequeued).anyFree then
        queue.own index slot .dequeued
        else { queue.own index slot .dequeued with available := false }).slots =
        queue.slots.insert index { slot with ownership := .dequeued } := by
      split <;> rfl
    refine performed_pass hqueue hslot hslots rfl ?_
    rw [hfree]
    exact .take _
  · cases h
    exact performed_same hqueue rfl

/-- The books when a slot of the producer is queued. -/
theorem performedBooks_queueing {input : QueueBufferInput} :
    performedBooks system binderId (queue.own index slot .queueing) (some
        { slot := index, buffer := slot.buffer, input
          registration := slot.registration, number := system.frames }) =
      { books system with
        places := update (places system.queues) (binderId, index)
          (some (slot.registration, .offered))
        offered := ⟨(binderId, index), slot.registration, system.frames⟩ ::ₘ
          (books system).offered
        next := system.frames + 1 } := by
  have hplaces := places_write { slot with ownership := .queueing } hqueue
    (show (queue.own index slot .queueing).slots = _ from rfl)
  simp only [performedBooks, Option.toList_some, map_cons, map_nil,
    Multiset.coe_singleton, Multiset.singleton_add, length_singleton]
  simp only [books, System.written, hplaces]
  rfl

theorem queueBuffer_steps {input : QueueBufferInput}
    (h : queue.perform registration system.frames (.queueBuffer index input) = .ok performed) :
    Recorded strict system binderId performed := by
  simp only [perform] at h
  split at h
  · cases h
  · next slot hslot =>
    split at h
    · next hdequeued =>
      cases h
      have hplace : (books system).places (binderId, index) =
          some (slot.registration, .taken) := by
        show places system.queues _ = _
        rw [places_of hqueue, hslot]
        simp [hdequeued, SlotOwnership.phase]
      have hstep : Step strict (books system) _ := .offer hplace
      rw [Recorded, performedBooks_queueing hqueue]
      exact .single hstep
    · cases h

theorem cancelBuffer_steps {fences : List NvFence}
    (h : queue.perform registration system.frames (.cancelBuffer index fences) = .ok performed) :
    Recorded strict system binderId performed := by
  simp only [perform] at h
  split at h
  · cases h
  · next slot hslot =>
    split at h
    · next hdequeued =>
      cases h
      have hslots : ({ queue.own index { slot with releaseFences := fences } .free with
          available := true } : BufferQueue).slots =
          queue.slots.insert index { slot with releaseFences := fences, ownership := .free } :=
        rfl
      refine performed_pass hqueue hslot hslots rfl ?_
      rw [hdequeued]
      exact .giveBack _
    · cases h

theorem connect_steps {listenerPresent api : ℤ}
    (h : queue.perform registration system.frames (.connect listenerPresent api) = .ok performed) :
    Recorded strict system binderId performed := by
  simp only [perform] at h
  split at h
  · cases h
  · split at h
    · cases h
      exact performed_same hqueue rfl
    · cases h
      exact performed_same hqueue rfl

theorem clearSlot_steps
    (h : queue.perform registration system.frames (.clearSlot index) = .ok performed) :
    Recorded strict system binderId performed := by
  cases h
  refine performed_forget hqueue fun i => ?_
  show (queue.slots.erase index)[i]? = _ ∨ (queue.slots.erase index)[i]? = _
  rw [getElem?_erase]
  split
  · exact .inr rfl
  · exact .inl rfl

theorem preallocateBuffer_steps {buffer : GraphicBuffer} {flattened : List UInt8}
    (hclear : strict → queue.slots[index]? = none →
      ∀ x ∈ (books system).offered + (books system).lent, x.place ≠ (binderId, index))
    (h : queue.perform registration system.frames (.preallocateBuffer index buffer flattened) =
      .ok performed) :
    Recorded strict system binderId performed := by
  simp only [perform] at h
  split at h
  · cases h
  · next hnone =>
    cases h
    have hplace : (books system).places (binderId, index) = none := by
      show places system.queues _ = _
      rw [places_of hqueue, hnone]
      rfl
    have hstep : Step strict (books system) _ :=
      .register _ registration hplace fun hstrict => hclear hstrict hnone
    rw [Recorded, performedBooks_none, places_write _ hqueue rfl]
    exact .single hstep

theorem perform_steps {transaction : Transaction}
    (hclear : strict → ∀ slot buffer flattened,
      transaction = .preallocateBuffer slot buffer flattened → queue.slots[slot]? = none →
      ∀ x ∈ (books system).offered + (books system).lent, x.place ≠ (binderId, slot))
    (h : queue.perform registration system.frames transaction = .ok performed) :
    Recorded strict system binderId performed := by
  cases transaction with
  | requestBuffer => exact requestBuffer_steps hqueue h
  | dequeueBuffer => exact dequeueBuffer_steps hqueue h
  | queueBuffer => exact queueBuffer_steps hqueue h
  | cancelBuffer => exact cancelBuffer_steps hqueue h
  | query =>
    cases h
    exact performed_same hqueue rfl
  | connect => exact connect_steps hqueue h
  | disconnect =>
    cases h
    refine performed_forget hqueue fun i => ?_
    split
    · exact .inr getElem?_emptyc
    · exact .inl rfl
  | clearSlot => exact clearSlot_steps hqueue h
  | preallocateBuffer slot buffer flattened =>
    exact preallocateBuffer_steps hqueue
      (fun hstrict => hclear hstrict slot buffer flattened rfl) h

end Performed

theorem places_insert_insert (queue after : BufferQueue) :
    places ((queues.insert binderId queue).insert binderId after) =
      places (queues.insert binderId after) := by
  funext place
  rw [places_insert, places_insert, places_insert]
  split <;> rfl

/-- The reply of a queued request cannot be put together. -/
theorem performed_rollback {request : QueuedBufferRequest} :
    Step strict (performedBooks system binderId after (some request))
      { books (system.written binderId (after.rollbackQueue request.slot)) with
        next := system.frames + 1 } := by
  have hout : (performedBooks system binderId after (some request)).offered =
      request.released binderId ::ₘ (books system).offered := by
    simp [performedBooks]
  have hqueue : (system.queues.insert binderId after)[binderId]? = some after := by
    rw [getElem?_insert_self]
  have hplaces : places (system.queues.insert binderId (after.rollbackQueue request.slot)) =
      Lending.pass (places (system.queues.insert binderId after)) (binderId, request.slot) .offered
        .taken := by
    rw [← places_rollback hqueue, places_insert_insert]
  have hstep : Step strict (performedBooks system binderId after (some request)) _ :=
    .withdraw hout
  have hbooks : ({ books (system.written binderId (after.rollbackQueue request.slot)) with
      next := system.frames + 1 } : Books _) =
      { performedBooks system binderId after (some request) with
        places := Lending.pass (places (system.queues.insert binderId after))
          (binderId, request.slot) .offered .taken
        offered := (books system).offered } := by
    rw [← hplaces]
    rfl
  rw [hbooks]
  exact hstep

theorem transact_steps {code : ℕ} (hqueue : system.queues[binderId]? = some queue)
    (hclear : strict → ∀ slot buffer flattened,
      decodeTransaction code encoded = .ok (.preallocateBuffer slot buffer flattened) →
      queue.slots[slot]? = none →
      ∀ x ∈ (books system).offered + (books system).lent, x.place ≠ (binderId, slot))
    {result : Except ParcelError BinderTransaction}
    (h : queue.transact system.registrations system.frames code encoded = (result, after)) :
    Steps strict (books system) (books { system with
          queues := system.queues.insert binderId after
          requests := (requestsOf result).map (fun request => (binderId, request)) ++
            system.requests
          registrations := system.registrations + 1
          frames := system.frames + 1 }) := by
  unfold BufferQueue.transact at h
  split at h
  · cases h
    refine (performed_same hqueue rfl).tail ?_
    exact .skip _ (Nat.le_succ _)
  · next transaction hdecode =>
    split at h
    · cases h
      refine (performed_same hqueue rfl).tail ?_
      exact .skip _ (Nat.le_succ _)
    · next performed hperformed =>
      have hsteps : Steps strict (books system) _ := perform_steps hqueue
        (fun hstrict slot buffer flattened heq => hclear hstrict slot buffer flattened
          (heq ▸ hdecode)) hperformed
      split at h
      · cases h
        have hnext : (performedBooks system binderId performed.queue performed.queued).next ≤
            system.frames + 1 := by
          refine Nat.add_le_add_left ?_ _
          cases performed.queued <;> simp
        refine hsteps.tail ?_
        have hstep : Step strict
            (performedBooks system binderId performed.queue performed.queued) _ := .skip _ hnext
        convert hstep using 1
        simp [books, performedBooks, System.written, System.offered, System.liveFrames, requestsOf,
          comp_def]
      · cases h
        cases hqueued : performed.queued with
        | none =>
          rw [hqueued] at hsteps
          refine hsteps.tail ?_
          exact .skip _ (Nat.le_succ _)
        | some =>
          rw [hqueued] at hsteps
          exact hsteps.tail performed_rollback

theorem slots_of_release {queue : BufferQueue} {i j : ℤ}
    (h : (queue.release i).slots[j]? = none) : queue.slots[j]? = none := by
  unfold release at h
  split at h
  · exact h
  · split at h
    · simp only [BufferQueue.own, TreeMap.getElem?_insert] at h
      split at h
      · cases h
      · exact h
    · exact h

/-- A release registers and removes no buffer, and no producer. -/
theorem vacant_of_releaseSlot {released : ReleasedSlot} {place : ℤ × ℤ}
    (h : (system.releaseSlot released).Vacant place) : system.Vacant place := by
  obtain ⟨queue, hqueue, hslot⟩ := h
  simp only [System.releaseSlot, System.withQueue, System.modifyQueue, Option.mem_def] at hqueue
  split at hqueue
  · next before hbefore =>
    rw [TreeMap.getElem?_insert] at hqueue
    split at hqueue
    · next heq =>
      cases hqueue
      rw [compare_eq_iff_eq.1 heq] at hbefore
      exact ⟨before, hbefore, slots_of_release hslot⟩
    · exact ⟨queue, hqueue, hslot⟩
  · exact ⟨queue, hqueue, hslot⟩

/-- Draining leaves the tickets that have not come back, and the slots. -/
theorem drain_unchanged : (system.drainReleasedSlots.offered = system.offered ∧
      system.drainReleasedSlots.liveFrames = system.liveFrames ∧
      system.drainReleasedSlots.releasedSlots = []) ∧
    ∀ place, system.drainReleasedSlots.Vacant place → system.Vacant place := by
  suffices h : ∀ (released : List ReleasedSlot) system,
      ((released.foldl System.releaseSlot system).offered = system.offered ∧
        (released.foldl System.releaseSlot system).liveFrames = system.liveFrames ∧
        (released.foldl System.releaseSlot system).releasedSlots = system.releasedSlots) ∧
      ∀ place, (released.foldl System.releaseSlot system).Vacant place → system.Vacant place from
    h _ _
  intro released
  induction released with
  | nil => exact fun system => ⟨⟨rfl, rfl, rfl⟩, fun place h => h⟩
  | cons first rest ih =>
    intro system
    obtain ⟨hlists, hvacant⟩ := ih _
    exact ⟨hlists, fun place h => vacant_of_releaseSlot (hvacant place h)⟩

theorem transactBinder_steps {code : ℕ}
    (hclear : strict → Clear system (.transact binderId code encoded)) :
    Steps strict (books system) (books (system.transactBinder binderId code encoded).2) := by
  obtain ⟨⟨hoffered, hlive, hreleased⟩, hvacant⟩ := drain_unchanged
  refine drain_steps.trans ?_
  unfold System.transactBinder
  simp only
  split
  · exact .refl
  · next queue hqueue =>
    refine transact_steps hqueue ?_ rfl
    intro hstrict slot buffer flattened hdecode hslot x hx
    refine hclear hstrict slot (by rw [registers, hdecode]; rfl) ?_ x ?_
    · exact hvacant _ ⟨queue, hqueue, hslot⟩
    · simpa [books, hoffered, hlive, hreleased] using hx

/-! ### All actions -/

variable {index : ℕ}

theorem getElem?_cons_eraseIdx {α : Type} {l : List α} {a : α} (h : l[index]? = some a) :
    l.Perm (a :: l.eraseIdx index) := by
  obtain ⟨hlt, rfl⟩ := List.getElem?_eq_some_iff.1 h
  exact (getElem_cons_eraseIdx_perm hlt).symm

section Requests

variable {system : System} {request : QueuedBufferRequest} {number : ℕ}
variable (hrequest : system.requests[number]? = some (binderId, request))
include hrequest

theorem offered_perm : system.offered.Perm
    (request.released binderId :: (system.withoutRequest number).offered) :=
  ((getElem?_cons_eraseIdx hrequest).map _).append_right system.failed

/-- The ticket of a failed request is still out. -/
theorem failRequest_books :
    books (system.failRequest number (request.released binderId)) = books system := by
  refine books_eq rfl ?_ (.refl _) rfl rfl
  exact perm_middle.trans (offered_perm hrequest).symm

theorem commitRequest_step (hqueue : system.queues[binderId]? = some queue)
    (hafter : queue.commitQueue request.slot = some after) :
    Step strict (books system) (books (system.commitRequest number binderId request after)) := by
  unfold BufferQueue.commitQueue at hafter
  split at hafter
  · cases hafter
  · next slot hslot =>
    split at hafter
    · next hqueueing =>
      cases hafter
      have hplace : (books system).places (request.released binderId).place =
          some (slot.registration, .offered) := by
        show places system.queues (binderId, request.slot) = _
        rw [places_of hqueue, hslot]
        simp [hqueueing, SlotOwnership.phase]
      have hout : (books system).offered = request.released binderId ::ₘ
          ↑(system.withoutRequest number).offered :=
        Multiset.coe_eq_coe.2 (offered_perm hrequest)
      have hstep : Step strict (books system) _ := .accept hout hplace
      have hplaces := places_write { slot with ownership := .queued } hqueue
        (show (queue.own request.slot slot .queued).slots = _ from rfl)
      convert hstep using 1
      unfold books
      congr 1
      refine Multiset.coe_eq_coe.2 ?_
      show ((system.pendingFrames ++ [_]).map released ++ system.leases ++ _).Perm
        (_ :: (system.pendingFrames.map released ++ system.leases ++ _))
      rw [map_append]
      exact ((perm_append_singleton _ _).append_right _).append_right _
    · cases hafter

end Requests

theorem queueGraphicBuffer_steps {verdict : Except FramebufferError Unit} :
    Steps strict (books system) (books (system.queueGraphicBuffer index verdict).2) := by
  unfold System.queueGraphicBuffer
  split
  · exact .refl
  · next binderId request hrequest =>
    have hfailed : Steps strict (books system)
        (books (system.failRequest index (request.released binderId))) :=
      (failRequest_books hrequest).symm ▸ .refl
    split
    · exact hfailed
    · exact hfailed
    · next queue hqueue =>
      split
      · exact hfailed
      · next after hafter => exact .single (commitRequest_step hrequest hqueue hafter)

theorem rollbackRequest_steps :
    Steps strict (books system) (books (system.rollbackRequest index)) := by
  unfold System.rollbackRequest
  split
  · exact .refl
  · next request hrequest =>
    have hout : (books system).offered = request ::ₘ
        ↑{ system with failed := system.failed.eraseIdx index }.offered :=
      Multiset.coe_eq_coe.2 (((getElem?_cons_eraseIdx hrequest).append_left _).trans perm_middle)
    have hstep : Step strict (books system) _ := .withdraw hout
    refine .single ?_
    convert hstep using 1
    unfold books
    congr 1
    exact places_modify_pass system.queues fun queue => places_rollback

theorem lose_step (hplaces : places system'.queues = places system.queues)
    (hoffered : system'.offered.Sublist system.offered)
    (hlent : (system'.liveFrames ++ system'.releasedSlots).Sublist
      (system.liveFrames ++ system.releasedSlots)) (hreleases : system'.releases = system.releases)
    (hframes : system'.frames = system.frames) : Step strict (books system) (books system') := by
  have hstep : Step strict (books system) _ := .lose ↑system'.offered
    ↑(system'.liveFrames ++ system'.releasedSlots) hoffered.subperm hlent.subperm
  convert hstep using 1
  unfold books
  rw [hplaces, hreleases, hframes]

theorem withoutRequest_step : Step strict (books system) (books (system.withoutRequest index)) := by
  refine lose_step rfl ?_ (.refl _) rfl rfl
  exact ((eraseIdx_sublist _ _).map _).append_right _

theorem forgetFrames_step : Step strict (books system) (books (system.forgetFrames binderId)) := by
  refine lose_step rfl (.refl _) ?_ rfl rfl
  exact ((filter_sublist.map _).append_right _).append_right _

theorem forget_step {queues : TreeMap ℤ BufferQueue}
    (h : ∀ place, places queues place = places system.queues place ∨ places queues place = none) :
    Step strict (books system) (books { system with queues }) :=
  .forget _ h

theorem dropLease_books (system : System) (index : ℕ) :
    books (system.dropLease index) = books system := by
  unfold System.dropLease
  split
  · rfl
  · next lease hlease =>
    refine books_eq rfl (.refl _) ?_ rfl rfl
    show ((system.pendingFrames.map released ++ system.leases.eraseIdx index) ++
      (system.releasedSlots ++ [lease])).Perm
        ((system.pendingFrames.map released ++ system.leases) ++ system.releasedSlots)
    rw [append_assoc, append_assoc]
    refine .append_left _ ?_
    have hlast : (system.leases.eraseIdx index ++ (system.releasedSlots ++ [lease])).Perm
        (system.leases.eraseIdx index ++ lease :: system.releasedSlots) :=
      (perm_append_singleton _ _).append_left _
    refine hlast.trans (perm_middle.trans ?_)
    exact (getElem?_cons_eraseIdx hlease).symm.append_right _

/-- **Every action of the display is a sequence of steps of its books.** -/
theorem step_steps (system : System) (action : Action) (hclear : strict → Clear system action) :
    Steps strict (books system) (books (display.step system action).2) := by
  cases action with
  | createLayer displayId =>
    show Steps strict (books system) (books (system.createLayer displayId).2)
    unfold System.createLayer
    split
    · exact .refl
    · simp only
      split
      · exact .refl
      · split
        · refine .single (forget_step fun place => ?_)
          rw [places_insert]
          split
          · exact .inr (by simp [BufferQueue.new])
          · exact .inl rfl
        · exact .refl
  | closeLayer layerId =>
    show Steps strict (books system) (books (system.closeLayer layerId).2)
    unfold System.closeLayer
    split
    · exact .refl
    · next binderId _ => exact .single forgetFrames_step
  | removeLayer layerId =>
    show Steps strict (books system) (books (system.removeLayer layerId).2)
    unfold System.removeLayer
    split
    · exact .refl
    · next binderId _ =>
      have hforget : Step strict (books system)
          (books { system with queues := system.queues.erase binderId }) := by
        refine forget_step fun place => ?_
        unfold places
        rw [getElem?_erase]
        split
        · exact .inr rfl
        · exact .inl rfl
      exact (Relation.ReflTransGen.single hforget).tail forgetFrames_step
  | teardown =>
    have hforget : Step strict (books system) (books { system with queues := ∅ }) := by
      refine forget_step fun place => .inr ?_
      simp [places]
    refine (Relation.ReflTransGen.single hforget).tail ?_
    refine lose_step rfl (.refl _) ?_ rfl rfl
    exact ((nil_sublist _).append_right _).append_right _
  | transact => exact transactBinder_steps hclear
  | abandon => exact .single withoutRequest_step
  | queue => exact queueGraphicBuffer_steps
  | rollback => exact rollbackRequest_steps
  | advance => exact advance_steps
  | drop index =>
    show Steps strict (books system) (books (system.dropLease index))
    rw [dropLease_books]

/-! ### The slots -/

variable (presenter : Bool)

theorem numbered_new : Numbered (books (System.new presenter)) := by
  refine ⟨?_, ?_⟩ <;> simp [books, Books.numbers, System.new, System.offered, System.liveFrames]

theorem matched_new : Matched (books (System.new presenter)) := by
  refine ⟨?_, ?_, ?_, ?_⟩ <;> simp [books, System.new, System.offered, System.liveFrames]

theorem numbered_run {actions : List Action} :
    Numbered (books (display.run (System.new presenter) actions)) := by
  refine Machine.run_invariant_all (I := fun system => Numbered (books system)) ?_ actions _
    (numbered_new presenter)
  intro system action h
  have hsteps : Steps False (books system) _ := step_steps system action False.elim
  exact h.steps hsteps

/-- **No frame is released twice**, in any run. -/
theorem released_once (actions : List Action) :
    ((display.run (System.new presenter) actions).releases.map fun e => e.ticket.number).Nodup :=
  (numbered_run presenter).returns_nodup

/-- The frame was queued from the buffer registered in the slot. -/
def QueuedFrom (frame : ReleasedSlot) (place : ℤ × ℤ) (slot : BufferSlot) : Prop :=
  frame.place = place ∧ frame.registration = slot.registration

instance (frame : ReleasedSlot) (place : ℤ × ℤ) (slot : BufferSlot) :
    Decidable (QueuedFrom frame place slot) :=
  inferInstanceAs (Decidable (_ ∧ _))

/-- What is expected of the slots: one that is free or in the producer's hands has no frame pending
or published, a release has freed the registration that its frame was queued from, if any, and no
frame was released twice. -/
structure Safe (system : System) : Prop where
  idle : ∀ place slot, system.slotAt place = some slot →
    slot.ownership = .free ∨ slot.ownership = .dequeued →
    ∀ frame ∈ system.liveFrames, ¬ QueuedFrom frame place slot
  freed : ∀ e ∈ system.releases, ∀ registration, e.freed = some registration →
    registration = e.ticket.registration
  once : (system.releases.map fun e => e.ticket.number).Nodup

/-- **If a buffer is registered in a slot only while nothing that was queued under the slot's number
is out, the slots are safe in every state reached.** -/
theorem slots_safe (presenter : Bool) (actions : List Action)
    (h : display.Guarded Clear (System.new presenter) actions) :
    Safe (display.run (System.new presenter) actions) := by
  have hmatched : Matched (books (display.run (System.new presenter) actions)) :=
    Machine.run_invariant (I := fun system => Matched (books system))
      (fun system action hmatched hclear =>
        hmatched.steps (step_steps system action fun _ => hclear))
      actions _ (matched_new presenter) h
  refine ⟨?_, hmatched.returns, (numbered_run presenter).returns_nodup⟩
  rintro place slot hslot howner frame hframe ⟨hplace, -⟩
  generalize display.run (System.new presenter) actions = system at *
  have hentry : (books system).places place = some (slot.registration, slot.ownership.phase) := by
    show ((system.slotAt place).map fun slot => _) = _
    rw [hslot]
    rfl
  refine hmatched.idle hentry ?_ (Multiset.mem_add.2 (.inr ?_)) hplace
  · rcases howner with howner | howner
    · exact .inl (by rw [howner]; rfl)
    · exact .inr (by rw [howner]; rfl)
  · exact Multiset.mem_coe.2 (mem_append_left _ hframe)

/-! ### A late release -/

def producerParcel (arguments : List UInt8) : List UInt8 :=
  let name := iGraphicBufferProducer.toList.flatMap fun c => [UInt8.ofNat c.toNat, 0]
  let token := u32Bytes 0x100 ++ u32Bytes iGraphicBufferProducer.length ++ name ++ [0, 0, 0, 0]
  match finish (token ++ arguments) with
  | .ok encoded => encoded
  | .error _ => []

/-- A graphic buffer with one plane of zeros. -/
def blankBuffer : List UInt8 :=
  (range 45).flatMap fun index =>
    u32Bytes (if index = 0 then 0x47424652 else if index = 9 then 35 else
      if index = 13 then 0xdaffcaff else if index = 21 then 1 else 0)

/-- The input of a queued frame without crop, of interval zero. -/
def frameInput (fences : List NvFence) : List UInt8 :=
  replicate 48 0 ++ encodeNvMultiFence fences

/-- Connecting, preallocating slot 0, dequeuing it and queueing it with fences. -/
def present (fences : List NvFence) : List Action :=
  [ .transact 1 10 (producerParcel (u32Bytes 0 ++ u32Bytes 2 ++ u32Bytes 0)),
    .transact 1 14 (producerParcel (u32Bytes 0 ++ u32Bytes 1 ++ u32Bytes 180 ++ u32Bytes 0 ++
      blankBuffer)),
    .transact 1 3 (producerParcel (replicate 20 0)),
    .transact 1 7 (producerParcel (u32Bytes 0 ++ u32Bytes 84 ++ u32Bytes 0 ++ frameInput fences)),
    .queue 0 (.ok ()) ]

/-- A refresh at time zero, when no fence is reached. -/
def System.Refresh.early : System.Refresh where
  elapsed := 0
  reached := fun _ => false
  reply := fun _ => .empty

/-- The frame is published and dropped, and the producer dequeues the slot again. -/
def roundTrip : List Action :=
  .createLayer 1 :: present [] ++
    [ .advance { System.Refresh.early with reply := fun _ => .ready },
      .drop 0,
      .transact 1 3 (producerParcel (replicate 20 0)) ]

theorem slots_safe_present : let system := display.run (System.new true) roundTrip
    system.releases.map (fun e => e.freed) = [some 1] ∧
      (system.slotAt (1, 0)).map (fun slot => slot.ownership) = some .dequeued ∧ Safe system :=
  ⟨by decide +kernel, by decide +kernel, slots_safe true _ (by decide +kernel)⟩

/-- A frame is queued, the producer reconnects and queues a frame from a new buffer in the same
slot, with a fence; the display discards the first frame and the producer dequeues. -/
def reconnect : List Action :=
  .createLayer 1 :: present [] ++
    [.transact 1 11 (producerParcel (u32Bytes 2))] ++ present [{ syncpoint := 5, value := 1 }] ++
    [ .advance .early,
      .transact 1 3 (producerParcel (replicate 20 0)) ]

/-- **The slot is dequeued while the frame of the new buffer is pending**: the release of the first
frame has freed the registration of the second. -/
theorem late_release : let system := display.run (System.new false) reconnect
    system.liveFrames.length = 1 ∧
      (system.slotAt (1, 0)).any (fun slot => slot.ownership = .dequeued ∧
        ∀ frame ∈ system.liveFrames, QueuedFrom frame (1, 0) slot) = true ∧
      system.releases.any (fun e => e.freed.any (· ≠ e.ticket.registration)) = true := by
  decide +kernel

end Nixe.Display
