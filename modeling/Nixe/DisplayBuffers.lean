/-
**The buffer queues of the display.**

A producer registers buffers in numbered slots, dequeues a free slot, and queues it; the queued
frame waits for the display, is published to the host, and gives its slot back when the host drops
it.  The request of the producer, the frame that waits and the lease of a published frame are in
different hands, and each names its slot by the numbers of the producer and of the slot.

The model keeps, beside the source's data, the number of the registration from which each frame was
queued, a number for each frame, and the releases so far.  No function reads them.

Main definitions:

* `BufferQueue.transact` — one Binder transaction, from the bytes of its parcel;
* `System.queueGraphicBuffer`, `System.rollbackRequest` — the end of a queued request;
* `System.advance` — the frames that are due are published or discarded;
* `System.dropLease` — the host drops a published frame;
* `display` — the machine of all these.
-/
import Nixe.Checked
import Nixe.Lending
import Nixe.Machine
import Nixe.Parcel

set_option autoImplicit false

namespace Nixe.Display

open Std (TreeMap)
open Parcel Parsing Lending

/-! ### Graphic buffers and fences -/

/-- `NvFence`: a value of a guest syncpoint. -/
structure NvFence where
  syncpoint : ℕ
  value : ℕ
  deriving DecidableEq, Repr

structure GraphicBufferPlane where
  width : ℕ
  height : ℕ
  colorFormat : ℕ
  layout : ℕ
  pitch : ℕ
  offset : ℕ
  kind : ℕ
  blockHeightLog2 : ℕ
  scanFormat : ℕ
  secondFieldOffset : ℕ
  flags : ℕ
  size : ℕ
  deriving DecidableEq, Repr

structure GraphicBuffer where
  nvmapId : ℕ
  stridePixels : ℕ
  format : ℕ
  externalFormat : ℕ
  usage : ℕ
  totalSize : ℕ
  planes : List GraphicBufferPlane
  deriving DecidableEq, Repr

variable (bytes : List UInt8)

/-- A word of a flattened buffer. -/
def word (index : ℕ) : Except ParcelError ℕ :=
  match slice? bytes (index * 4) (index * 4 + 4) with
  | some data => .ok (leNat data)
  | none => .error (.malformed "graphic buffer is truncated")

/-- Two words, the low one first. -/
def doubleWord (index : ℕ) : Except ParcelError ℕ := do
  return (← word bytes index) + 2 ^ 32 * (← word bytes (index + 1))

/-- A plane of `parse_graphic_buffer`, whose words begin at `base`. -/
def parsePlane (base : ℕ) : Except ParcelError GraphicBufferPlane := do
  return {
    width := ← word bytes base
    height := ← word bytes (base + 1)
    colorFormat := ← doubleWord bytes (base + 2)
    layout := ← word bytes (base + 4)
    pitch := ← word bytes (base + 5)
    offset := ← word bytes (base + 7)
    kind := ← word bytes (base + 8)
    blockHeightLog2 := ← word bytes (base + 9)
    scanFormat := ← word bytes (base + 10)
    secondFieldOffset := ← word bytes (base + 11)
    flags := ← doubleWord bytes (base + 12)
    size := ← doubleWord bytes (base + 14) }

/-- `parse_graphic_buffer`: ten words, then the integers, of which each plane takes twenty-two. -/
def parseGraphicBuffer : Except ParcelError GraphicBuffer := do
  if bytes.length < 40 then throw (.malformed "flattened graphic buffer is truncated")
  if (← word bytes 0) ≠ 0x47424652 ∨ (← word bytes 8) ≠ 0 then
    throw (.malformed "flattened graphic buffer header is invalid")
  let numInts ← word bytes 9
  if bytes.length < (10 + numInts) * 4 then
    throw (.malformed "graphic buffer integer payload is truncated")
  if (← word bytes 13) ≠ 0xdaffcaff then
    throw (.unsupported "NvGraphicBuffer metadata is unsupported")
  let planeCount ← word bytes 21
  if planeCount < 1 ∨ 3 < planeCount ∨ numInts < 13 + planeCount * 22 then
    throw (.unsupported "NvGraphicBuffer plane metadata is unsupported")
  let planes ← (List.range planeCount).mapM fun plane => parsePlane bytes (23 + plane * 22)
  return {
    nvmapId := ← word bytes 11
    stridePixels := ← word bytes 19
    format := ← word bytes 17
    externalFormat := ← word bytes 18
    usage := ← word bytes 16
    totalSize := ← word bytes 20
    planes }

/-- The word at an offset that the length of the bytes allows. -/
def wordAt (offset : ℕ) : ℕ := leNat ((bytes.drop offset).take 4)

def parseNvMultiFence : Except ParcelError (List NvFence) :=
  if bytes.length < 36 then .error (.malformed "NvMultiFence is truncated")
  else if 4 < wordAt bytes 0 then .error (.malformed "NvMultiFence contains too many fences")
  else .ok ((List.range (wordAt bytes 0)).map fun index =>
    { syncpoint := wordAt bytes (4 + index * 8), value := wordAt bytes (4 + index * 8 + 4) })

def encodeNvMultiFence (fences : List NvFence) : List UInt8 :=
  let bytes := u32Bytes fences.length ++
    fences.flatMap fun fence => u32Bytes fence.syncpoint ++ u32Bytes fence.value
  bytes ++ List.replicate (36 - bytes.length) 0

/-- `QueueBufferInput`, as far as a queued frame keeps it. -/
structure QueueBufferInput where
  swapInterval : ℕ
  acquireFences : List NvFence
  deriving DecidableEq, Repr

def parseQueueBufferInput : Except ParcelError QueueBufferInput := do
  if bytes.length < 84 then throw (.malformed "QueueBuffer input is truncated")
  let acquireFences ← parseNvMultiFence ((bytes.take 84).drop 48)
  return { swapInterval := wordAt bytes 44, acquireFences }

/-! ### Slots -/

inductive SlotOwnership
  | free
  | dequeued
  | queueing
  | queued
  deriving DecidableEq, Repr

/-- `BufferSlot`.  The number of the registration is not in the source. -/
structure BufferSlot where
  ownership : SlotOwnership
  buffer : GraphicBuffer
  flattenedBuffer : List UInt8
  releaseFences : List NvFence
  registration : ℕ
  deriving DecidableEq, Repr

/-- `BufferQueue`; `available` is the state of its event. -/
structure BufferQueue where
  connectedApi : Option ℤ
  slots : TreeMap ℤ BufferSlot
  available : Bool
  nextAcquireSequence : ℕ
  blockedThisAdvance : Bool

def BufferQueue.new : BufferQueue where
  connectedApi := none
  slots := ∅
  available := false
  nextAcquireSequence := 0
  blockedThisAdvance := false

/-- `QueuedBufferRequest`; the last two numbers are not in the source. -/
structure QueuedBufferRequest where
  slot : ℤ
  buffer : GraphicBuffer
  input : QueueBufferInput
  registration : ℕ
  number : ℕ
  deriving DecidableEq, Repr

namespace BufferQueue

variable (queue : BufferQueue)

def pendingCount : ℕ :=
  min (queue.slots.toList.countP fun entry =>
    entry.2.ownership = .queueing ∨ entry.2.ownership = .queued) (2 ^ 32 - 1)

def anyFree : Bool :=
  queue.slots.toList.any fun entry => entry.2.ownership = .free

def updateAvailability : BufferQueue :=
  { queue with available := queue.anyFree }

/-- A slot with another owner. -/
def own (index : ℤ) (slot : BufferSlot) (ownership : SlotOwnership) : BufferQueue :=
  { queue with slots := queue.slots.insert index { slot with ownership } }

def release (index : ℤ) : BufferQueue :=
  match queue.slots[index]? with
  | none => queue
  | some slot =>
    if slot.ownership = .queued then
      { queue.own index { slot with releaseFences := [] } .free with available := true }
    else queue

/-- `commit_queue`, whose second argument the model leaves out. -/
def commitQueue (index : ℤ) : Option BufferQueue :=
  match queue.slots[index]? with
  | none => none
  | some slot => if slot.ownership = .queueing then some (queue.own index slot .queued) else none

def rollbackQueue (index : ℤ) : BufferQueue :=
  match queue.slots[index]? with
  | none => queue
  | some slot => if slot.ownership = .queueing then queue.own index slot .dequeued else queue

end BufferQueue

/-! ### Binder transactions -/

/-- A transaction with what was read for it; nothing is read after the first change of a queue. -/
inductive Transaction
  | requestBuffer (slot : ℤ)
  | dequeueBuffer
  | queueBuffer (slot : ℤ) (input : QueueBufferInput)
  | cancelBuffer (slot : ℤ) (fences : List NvFence)
  | query
  | connect (listenerPresent api : ℤ)
  | disconnect (api : ℤ)
  | clearSlot (slot : ℤ)
  | preallocateBuffer (slot : ℤ) (buffer : GraphicBuffer) (flattened : List UInt8)
  deriving DecidableEq, Repr

def iGraphicBufferProducer : String := "android.gui.IGraphicBufferProducer"

def maxBufferSlots : ℤ := 64

/-- The arguments of code 14. -/
def readPreallocate : Reads Transaction := do
  let slot ← readI32
  if slot < 0 ∨ maxBufferSlots ≤ slot then
    throw (.malformed "preallocated buffer slot is out of range")
  let hasBuffer ← readI32
  if hasBuffer = 0 then return .clearSlot slot
  if hasBuffer ≠ 1 then throw (.malformed "preallocated buffer presence flag is invalid")
  let flattened ← readFlattened
  let buffer ← (parseGraphicBuffer flattened : Except ParcelError GraphicBuffer)
  return .preallocateBuffer slot buffer flattened

def readTransaction : ℕ → Reads Transaction
  | 1 => return .requestBuffer (← readI32)
  | 3 => do
      let _async ← readI32
      let _width ← readU32
      let _height ← readU32
      let _format ← readI32
      let _usage ← readU32
      return .dequeueBuffer
  | 7 => do
      let slot ← readI32
      let input ← (parseQueueBufferInput (← readFlattened) : Except ParcelError QueueBufferInput)
      return .queueBuffer slot input
  | 8 => do
      let slot ← readI32
      let fences ← (parseNvMultiFence (← readFlattened) : Except ParcelError (List NvFence))
      return .cancelBuffer slot fences
  | 9 => do
      let _what ← readI32
      return .query
  | 10 => do
      let listenerPresent ← readI32
      let api ← readI32
      let _controlledByApp ← readI32
      return .connect listenerPresent api
  | 11 => return .disconnect (← readI32)
  | 14 => readPreallocate
  | _ => throw (.unsupported "unsupported IGraphicBufferProducer transaction")

/-- The transaction that a parcel holds. -/
def decodeTransaction (code : ℕ) (encoded : List UInt8) : Except ParcelError Transaction := do
  let reader ← ParcelReader.decode encoded
  (do
    readInterfaceToken iGraphicBufferProducer
    readTransaction code : Reads Transaction).run' reader

def writeBufferOutput (payload : List UInt8) (pending : ℕ) : List UInt8 :=
  writeU32 (writeU32 (writeU32 (writeU32 payload 1280) 720) 0) pending

/-- What a transaction has done: the payload of the reply, a request, and the queue. -/
structure Performed where
  payload : List UInt8
  queued : Option QueuedBufferRequest
  queue : BufferQueue

variable (queue : BufferQueue)

/-- The replies of `connect`. -/
def connected (status : ℤ) (after : BufferQueue) : Performed where
  payload := writeI32 (writeBufferOutput [] queue.pendingCount) status
  queued := none
  queue := after

def disconnectStatus (connectedApi : Option ℤ) (api : ℤ) : ℤ :=
  if api < 1 ∨ 4 < api then -22
  else
    match connectedApi with
    | some connected => if connected = api then 0 else -22
    | none => -19

/-- The transactions of `transact`.  A failed one has not changed the queue; writing the fence of a
dequeued slot, thirty-six bytes, does not fail. -/
def BufferQueue.perform (registration number : ℕ) : Transaction → Except ParcelError Performed
  | .requestBuffer index =>
    match queue.connectedApi, queue.slots[index]? with
    | none, _ => .ok { payload := writeI32 (writeI32 [] 0) (-19), queued := none, queue }
    | some _, some slot =>
      if slot.ownership = .dequeued then do
        let payload ← writeFlattened (writeI32 [] 1) slot.flattenedBuffer
        return { payload := writeI32 payload 0, queued := none, queue }
      else .ok { payload := writeI32 (writeI32 [] 0) (-22), queued := none, queue }
    | some _, none => .ok { payload := writeI32 (writeI32 [] 0) (-22), queued := none, queue }
  | .dequeueBuffer =>
    match queue.slots.toList.find? fun entry => entry.2.ownership = .free with
    | some (index, slot) => do
        let after := queue.own index slot .dequeued
        let payload ← writeFlattened (writeI32 (writeI32 [] index) 1)
          (encodeNvMultiFence slot.releaseFences)
        return {
          payload := writeI32 payload 0
          queued := none
          queue := if after.anyFree then after else { after with available := false } }
    | none =>
      .ok { payload := writeI32 (writeI32 (writeI32 [] (-1)) 0) (-11), queued := none, queue }
  | .queueBuffer index input =>
    match queue.slots[index]? with
    | none => .error (.malformed "QueueBuffer references an unknown slot")
    | some slot =>
      if slot.ownership = .dequeued then
        let after := queue.own index slot .queueing
        .ok {
          payload := writeI32 (writeBufferOutput [] after.pendingCount) 0
          queued := some
            { slot := index, buffer := slot.buffer, input
              registration := slot.registration, number }
          queue := after }
      else .error (.malformed "QueueBuffer slot is not producer-owned")
  | .cancelBuffer index fences =>
    match queue.slots[index]? with
    | none => .error (.malformed "CancelBuffer references an unknown slot")
    | some slot =>
      if slot.ownership = .dequeued then
        .ok {
          payload := []
          queued := none
          queue :=
            { queue.own index { slot with releaseFences := fences } .free with
              available := true } }
      else .error (.malformed "CancelBuffer slot is not producer-owned")
  | .query => .ok { payload := writeI32 (writeI32 [] 0) 0, queued := none, queue }
  | .connect listenerPresent api =>
    if listenerPresent ≠ 0 then
      .error (.unsupported "Binder producer listeners are not implemented")
    else if api < 1 ∨ 4 < api ∨ queue.connectedApi.isSome then .ok (connected queue (-22) queue)
    else .ok (connected queue 0 { queue with connectedApi := some api }.updateAvailability)
  | .disconnect api =>
    let status := disconnectStatus queue.connectedApi api
    .ok {
      payload := writeI32 [] status
      queued := none
      queue := if status = 0 then .new else queue }
  | .clearSlot index =>
    .ok {
      payload := []
      queued := none
      queue := { queue with slots := queue.slots.erase index }.updateAvailability }
  | .preallocateBuffer index buffer flattenedBuffer =>
    match queue.slots[index]? with
    | some _ => .error (.malformed "preallocated buffer slot already exists")
    | none =>
      let slot : BufferSlot :=
        { ownership := .free, buffer, flattenedBuffer, releaseFences := [], registration }
      .ok {
        payload := []
        queued := none
        queue := { queue with slots := queue.slots.insert index slot }.updateAvailability }

structure BinderTransaction where
  reply : List UInt8
  queued : Option QueuedBufferRequest
  deriving DecidableEq, Repr

/-- The request that a transaction leaves to its caller. -/
def requestsOf : Except ParcelError BinderTransaction → List QueuedBufferRequest
  | .ok transaction => transaction.queued.toList
  | .error _ => []

def BufferQueue.transact (registration number code : ℕ)
    (encoded : List UInt8) : Except ParcelError BinderTransaction × BufferQueue :=
  match decodeTransaction code encoded with
  | .error error => (.error error, queue)
  | .ok transaction =>
    match queue.perform registration number transaction with
    | .error error => (.error error, queue)
    | .ok performed =>
      match finish performed.payload with
      | .ok reply => (.ok { reply, queued := performed.queued }, performed.queue)
      | .error error =>
        (.error error,
          match performed.queued with
          | some request => performed.queue.rollbackQueue request.slot
          | none => performed.queue)

/-! ### The display -/

/-- `DisplayClock`, in nanoseconds. -/
structure DisplayClock where
  period : ℕ
  nextBoundary : ℕ
  sequence : ℕ
  deriving DecidableEq, Repr

/-- `DisplayClock::new`, at 60 Hz. -/
def DisplayClock.new : DisplayClock where
  period := 1000000000 / 60
  nextBoundary := 1000000000 / 60
  sequence := 0

/-- `DisplayClock::advance`: the boundaries that were crossed. -/
def DisplayClock.advance (clock : DisplayClock) (elapsed : ℕ) : ℕ × DisplayClock :=
  if elapsed < clock.nextBoundary then (0, clock)
  else
    let crossed := min ((elapsed - clock.nextBoundary) / clock.period + 1) u64Max
    let sequence := min (clock.sequence + crossed) u64Max
    (crossed,
      { clock with
        sequence
        nextBoundary := min (clock.period * min (sequence + 1) u64Max) u64Max })

/-- `FramebufferError`; what the last two carry is not looked at here. -/
inductive FramebufferError
  | malformed (reason : String)
  | unsupported (reason : String)
  | backend (reason : String)
  | nvMap
  | memory
  deriving DecidableEq, Repr

/-- `ReleasedSlot`: the numbers of the producer and of the slot; the source has no more. -/
abbrev ReleasedSlot : Type := Ticket (ℤ × ℤ)

/-- `PendingFrame`, with the slot that it will release. -/
structure PendingFrame where
  released : ReleasedSlot
  acquireFences : List NvFence
  swapInterval : ℕ
  acquired : Bool
  presentation : Bool
  deriving DecidableEq, Repr

/-- The state of the display, and what other threads hold of it: the requests whose transaction has
ended, those that have failed and are about to be rolled back, and the leases of the published
frames.  The last three fields are not in the source. -/
structure System where
  nextLayerId : ℕ
  layers : TreeMap ℕ ℤ
  queues : TreeMap ℤ BufferQueue
  vsyncEvent : Bool
  displayClock : DisplayClock
  presenter : Bool
  nextFrameSequence : ℕ
  pendingFrames : List PendingFrame
  releasedSlots : List ReleasedSlot
  requests : List (ℤ × QueuedBufferRequest)
  failed : List ReleasedSlot
  leases : List ReleasedSlot
  registrations : ℕ
  frames : ℕ
  releases : List (Return (ℤ × ℤ))

namespace System

def new (presenter : Bool) : System where
  nextLayerId := 1
  layers := ∅
  queues := ∅
  vsyncEvent := false
  displayClock := .new
  presenter := presenter
  nextFrameSequence := 1
  pendingFrames := []
  releasedSlots := []
  requests := []
  failed := []
  leases := []
  registrations := 0
  frames := 0
  releases := []

variable (system : System)

def slotAt (place : ℤ × ℤ) : Option BufferSlot :=
  system.queues[place.1]?.bind fun queue => queue.slots[place.2]?

/-- A change of the queue of a producer, if there is one. -/
def modifyQueue (queues : TreeMap ℤ BufferQueue) (binderId : ℤ) (f : BufferQueue → BufferQueue) :
    TreeMap ℤ BufferQueue :=
  match queues[binderId]? with
  | some queue => queues.insert binderId (f queue)
  | none => queues

def withQueue (binderId : ℤ) (f : BufferQueue → BufferQueue) : System :=
  { system with queues := modifyQueue system.queues binderId f }

/-- The registration that a release frees. -/
def freed (place : ℤ × ℤ) : Option ℕ :=
  match system.slotAt place with
  | some slot => if slot.ownership = .queued then some slot.registration else none
  | none => none

def releaseSlot (released : ReleasedSlot) : System :=
  { system.withQueue released.place.1 (·.release released.place.2) with
    releases := system.releases ++ [⟨released, system.freed released.place⟩] }

def drainReleasedSlots : System :=
  system.releasedSlots.foldl releaseSlot { system with releasedSlots := [] }

def createLayer (displayId : ℕ) : Option ℤ × System :=
  if displayId ≠ 1 then (none, system)
  else
    let id := system.nextLayerId
    match checkedAdd id 1 with
    | none => (none, system)
    | some next =>
      if id < 2 ^ 31 then
        (some (id : ℤ),
          { system with
            nextLayerId := next
            layers := system.layers.insert id (id : ℤ)
            queues := system.queues.insert (id : ℤ) .new })
      else (none, { system with nextLayerId := next })

/-- The frames of a producer are forgotten. -/
def forgetFrames (binderId : ℤ) : System :=
  { system with
    pendingFrames := system.pendingFrames.filter fun pending =>
      pending.released.place.1 ≠ binderId }

/-- `close_layer` of a session that has opened the layer. -/
def closeLayer (layerId : ℕ) : Bool × System :=
  match system.layers[layerId]? with
  | none => (false, system)
  | some binderId => (true, system.forgetFrames binderId)

def removeLayer (layerId : ℕ) : Bool × System :=
  match system.layers[layerId]? with
  | none => (false, system)
  | some binderId =>
    (true,
      { system with
        layers := system.layers.erase layerId
        queues := system.queues.erase binderId }.forgetFrames binderId)

def teardown : System :=
  { system with layers := ∅, queues := ∅, pendingFrames := [] }

/-- `transact_binder`.  A request goes to the caller. -/
def transactBinder (binderId : ℤ) (code : ℕ) (encoded : List UInt8) :
    Except ParcelError BinderTransaction × System :=
  let system := system.drainReleasedSlots
  match system.queues[binderId]? with
  | none => (.error (.malformed "unknown Binder producer object"), system)
  | some queue =>
    match queue.transact system.registrations system.frames code encoded with
    | (result, after) =>
      (result,
        { system with
          queues := system.queues.insert binderId after
          requests := (requestsOf result).map (fun request => (binderId, request)) ++
            system.requests
          registrations := system.registrations + 1
          frames := system.frames + 1 })

end System

/-- What a request will release. -/
def QueuedBufferRequest.released (request : QueuedBufferRequest) (binderId : ℤ) :
    ReleasedSlot where
  place := (binderId, request.slot)
  registration := request.registration
  number := request.number

namespace System

variable (system : System)

/-- A request without the one at an index. -/
def withoutRequest (index : ℕ) : System :=
  { system with requests := system.requests.eraseIdx index }

def failRequest (index : ℕ) (released : ReleasedSlot) : System :=
  { system.withoutRequest index with failed := released :: system.failed }

/-- A request has become a pending frame. -/
def commitRequest (index : ℕ) (binderId : ℤ) (request : QueuedBufferRequest)
    (after : BufferQueue) : System :=
  { system.withoutRequest index with
    queues := system.queues.insert binderId after
    pendingFrames := system.pendingFrames ++ [
      { released := request.released binderId
        acquireFences := request.input.acquireFences
        swapInterval := request.input.swapInterval
        acquired := false
        presentation := system.presenter }] }

/-- `queue_graphic_buffer` up to its rollback: `verdict` is what the checks of the descriptor, its
fences and its memory, and the request for a presentable image, have found. -/
def queueGraphicBuffer (index : ℕ) (verdict : Except FramebufferError Unit) :
    Except FramebufferError Unit × System :=
  match system.requests[index]? with
  | none => (.ok (), system)
  | some (binderId, request) =>
    let failed := system.failRequest index (request.released binderId)
    match verdict, system.queues[binderId]? with
    | .error error, _ => (.error error, failed)
    | .ok (), none => (.error (.malformed "unknown Binder producer object"), failed)
    | .ok (), some queue =>
      match queue.commitQueue request.slot with
      | none => (.error (.malformed "QueueBuffer reservation lost slot ownership"), failed)
      | some after => (.ok (), system.commitRequest index binderId request after)

/-- The rollback of `queue_graphic_buffer`, after a failure. -/
def rollbackRequest (index : ℕ) : System :=
  match system.failed[index]? with
  | none => system
  | some request =>
    { system.withQueue request.place.1 (·.rollbackQueue request.place.2) with
      failed := system.failed.eraseIdx index }

/-- The host drops the last reference to a published frame. -/
def dropLease (index : ℕ) : System :=
  match system.leases[index]? with
  | none => system
  | some lease =>
    { system with
      leases := system.leases.eraseIdx index
      releasedSlots := system.releasedSlots ++ [lease] }

/-! ### Refreshing -/

/-- What is received for the image of a frame. -/
inductive ImageReply
  | ready
  | failed (reason : String)
  | empty
  | disconnected
  deriving DecidableEq, Repr

/-- What `advance` finds: the time, the fences that are reached and the replies to the frames. -/
structure Refresh where
  elapsed : ℕ
  reached : NvFence → Bool
  reply : ℕ → ImageReply

variable (pending : PendingFrame)

/-- The frame in front waits, and with it the later frames of its producer. -/
def block (rest : List PendingFrame) : System :=
  { system.withQueue pending.released.place.1
      (fun queue => { queue with blockedThisAdvance := true })
    with pendingFrames := rest ++ [pending] }

def acquire (rest : List PendingFrame) : System :=
  if pending.acquired then system
  else
    { system.withQueue pending.released.place.1 (fun queue =>
        { queue with
          nextAcquireSequence :=
            min (system.displayClock.sequence + pending.swapInterval) u64Max }) with
      pendingFrames := { pending with acquired := true } :: rest }

/-- The frame in front, which is acquired and has an image, is published. -/
def publish (rest : List PendingFrame) : System :=
  { system with
    pendingFrames := rest
    nextFrameSequence := min (system.nextFrameSequence + 1) u64Max
    leases := pending.released :: system.leases }

/-- The frame in front has to wait: for its producer, for a refresh, or for its fences. -/
def mustWait (refresh : Refresh) (crossed : ℕ) (queue : BufferQueue)
    (pending : PendingFrame) : Bool :=
  queue.blockedThisAdvance ||
    (!pending.acquired &&
      (system.displayClock.sequence < queue.nextAcquireSequence ||
        (crossed == 0 && pending.swapInterval != 0))) ||
    (!pending.presentation && !pending.acquireFences.all refresh.reached)

/-- One round of the loop of `advance`, with the error that ends it.  There is a frame in every
round, since a round removes at most one. -/
def advanceFrame (refresh : Refresh) (crossed : ℕ) : Option FramebufferError × System :=
  match system.pendingFrames with
  | [] => (none, system)
  | pending :: rest =>
    match system.queues[pending.released.place.1]? with
    | none => (some (.malformed "pending frame lost its producer"), system)
    | some queue =>
      if system.mustWait refresh crossed queue pending then (none, system.block pending rest)
      else
        let system := system.acquire pending rest
        if pending.presentation then
          match refresh.reply pending.released.number with
          | .ready => (none, system.publish pending rest)
          | .failed reason => (some (.backend reason), system)
          | .empty => (none, system.block { pending with acquired := true } rest)
          | .disconnected => (some (.backend "GPU resident-image reply was lost"), system)
        else (none, { system with pendingFrames := rest }.releaseSlot pending.released)

/-- The rounds of `advance`. -/
def advanceFrames (refresh : Refresh) (crossed : ℕ) :
    ℕ → System → Option FramebufferError × System
  | 0, system => (none, system)
  | rounds + 1, system =>
    match system.advanceFrame refresh crossed with
    | (none, system) => advanceFrames refresh crossed rounds system
    | (some error, system) => (some error, system)

def unblock : System :=
  { system with
    queues := system.queues.map fun _ queue => { queue with blockedThisAdvance := false } }

def advance (system : System) (refresh : Refresh) : Except FramebufferError ℕ × System :=
  let system := system.drainReleasedSlots
  let (crossed, displayClock) := system.displayClock.advance refresh.elapsed
  let system :=
    { system with displayClock, vsyncEvent := system.vsyncEvent || crossed != 0 }
  if crossed = 0 ∧
      ¬ system.pendingFrames.any fun frame => frame.acquired || frame.swapInterval == 0 then
    (.ok 0, system)
  else
    match advanceFrames refresh crossed system.pendingFrames.length system.unblock with
    | (none, system) => (.ok crossed, system)
    | (some error, system) => (.error error, system)

end System

/-! ### The machine -/

/-- What the producer, the threads of its requests, the host and the display do. -/
inductive Action
  | createLayer (displayId : ℕ)
  | closeLayer (layerId : ℕ)
  | removeLayer (layerId : ℕ)
  | teardown
  | transact (binderId : ℤ) (code : ℕ) (encoded : List UInt8)
  | abandon (index : ℕ)
  | queue (index : ℕ) (verdict : Except FramebufferError Unit)
  | rollback (index : ℕ)
  | advance (refresh : System.Refresh)
  | drop (index : ℕ)

inductive Answer
  | done
  | layer (binderId : Option ℤ)
  | found (layer : Bool)
  | transaction (result : Except ParcelError BinderTransaction)
  | queued (result : Except FramebufferError Unit)
  | crossed (result : Except FramebufferError ℕ)

/-- One action; a request is abandoned if its reply cannot be written. -/
def step (system : System) : Action → Answer × System
  | .createLayer displayId => (system.createLayer displayId).map .layer id
  | .closeLayer layerId => (system.closeLayer layerId).map .found id
  | .removeLayer layerId => (system.removeLayer layerId).map .found id
  | .teardown => (.done, system.teardown)
  | .transact binderId code encoded =>
    (system.transactBinder binderId code encoded).map .transaction id
  | .abandon index => (.done, system.withoutRequest index)
  | .queue index verdict => (system.queueGraphicBuffer index verdict).map .queued id
  | .rollback index => (.done, system.rollbackRequest index)
  | .advance refresh => (system.advance refresh).map .crossed id
  | .drop index => (.done, system.dropLease index)

def display : Machine System Action Answer where
  step := step

end Nixe.Display
