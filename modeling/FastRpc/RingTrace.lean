import FastRpc.PacketQueue
import FastRpc.Traced

/-! # The accesses of the ring code

The ring code of `PacketQueue.lean` once more, as programs that record what they do to the shared
ring: the copies out of it, each with the room of the area that it fills, the stores into it, the new
values of the side's own position, and the unsigned subtractions by which the writer computes the free
space.  A failed `assert` ends the program, so an access that an assertion prevents is not recorded.

For every function `f` of `PacketQueue.lean` the theorem `f_result` says that the recording program
has the result of `f`.  `readNoblock` is a whole read call, whose polls look at a ring that its peer
goes on changing. -/

namespace FastRpc.RingTrace

open ByteStore Traced

/-- What the ring code does to the ring, and its subtractions of the free space. -/
inductive Touch
  | load (pos len room : ℕ)
  | store (pos len : ℕ)
  | advance (pos : ℕ)
  | freeSub (a b : ℕ)
  deriving DecidableEq, Repr

/-- The access lies in a ring of `Q` bytes. -/
def Touch.Inside (Q : ℕ) : Touch → Prop
  | .load pos len _ => pos + len ≤ Q
  | .store pos len => pos + len ≤ Q
  | _ => True

/-- A copy fits the area that it fills. -/
def Touch.Fits : Touch → Prop
  | .load _ len room => len ≤ room
  | _ => True

/-- A new position is a multiple of `8` and at most `Q`. -/
def Touch.Advances (Q : ℕ) : Touch → Prop
  | .advance pos => pos % 8 = 0 ∧ pos ≤ Q
  | _ => True

/-- The subtraction does not underflow. -/
def Touch.Exact : Touch → Prop
  | .freeSub a b => b ≤ a
  | _ => True

/-- Ring code with its accesses. -/
abbrev Ring := Traced Touch Fault

/-! ### Positions -/

/-- `a - b` on `uint32_t`, in the computation of the free space. -/
def freeSub (a b : ℕ) : Ring ℕ := do
  emit (.freeSub a b)
  return subU32 a b

/-- `qleft` of `get_queue_state_write`. -/
def spaceLeft (queueLength r w : ℕ) : Ring ℕ :=
  if r = w then freeSub queueLength 8
  else if r < w then do
    let behind ← freeSub queueLength w
    freeSub (addU32 behind r) 8
  else do
    let between ← freeSub r w
    freeSub between 8

/-- `get_queue_state_write`. -/
def getQueueStateWrite (q : Queue) : Ring (ℕ × ℕ) := do
  let r := q.readState.position
  let w := q.writeState.position
  lift (cAssert (r % 8 = 0 ∧ w % 8 = 0))
  let qleft ← spaceLeft q.queueLength r w
  lift (cAssert (qleft % 8 = 0))
  return (qleft, w)

/-- `write_64`. -/
def write64 (packetQueue : Store) (writePos queueLen data : ℕ) : Ring (Store × ℕ) := do
  emit (.store writePos 8)
  return FastRpc.write64 packetQueue writePos queueLen data

/-- `write_data`. -/
def writeData (packetQueue : Store) (writePos queueLen : ℕ) (data : List UInt8) :
    Ring (Store × ℕ) := do
  lift (cAssert (0 < data.length))
  lift (cAssert (writePos % 8 = 0))
  lift (cAssert (data.length ≤ subU32 queueLen writePos))
  emit (.store writePos data.length)
  let pos := addU32 writePos (align8 data.length)
  lift (cAssert (pos ≤ queueLen))
  return (write packetQueue writePos data, if queueLen ≤ pos then 0 else pos)

/-- `read_data`, to an area of `room` bytes. -/
def readData (packetQueue : Store) (readPos queueLen dataLen room : ℕ) : Ring (List UInt8 × ℕ) := do
  lift (cAssert (0 < dataLen))
  lift (cAssert (readPos % 8 = 0))
  lift (cAssert (dataLen ≤ subU32 queueLen readPos))
  emit (.load readPos dataLen room)
  let pos := addU32 readPos (align8 dataLen)
  lift (cAssert (pos ≤ queueLen))
  return (slice packetQueue readPos dataLen, if queueLen ≤ pos then 0 else pos)

/-! ### Writing -/

/-- The checks for space in the queue. -/
def reserve (q : Queue) (len : ℕ) : Ring (ℕ × Bool) := do
  let alen := align8 len
  let most ← freeSub q.queueLength 8
  lift (verifyC (alen ≤ most) .EBADPARM)
  lift (verifyC (q.headerQueueCount = q.queueCount) .ERPC)
  let (qleft, w) ← getQueueStateWrite q
  lift (verifyC (alen ≤ qleft) .EWOULDBLOCK)
  let behind ← freeSub q.queueLength w
  if behind < alen then do
    let before ← freeSub qleft behind
    lift (verifyC (alen ≤ before) .EWOULDBLOCK)
    return (w, true)
  else
    return (w, false)

/-- One part of a packet, unless it is empty. -/
def writePart (packetQueue : Store) (w queueLen : ℕ) (data : List UInt8) : Ring (Store × ℕ) :=
  if 0 < data.length then writeData packetQueue w queueLen data else pure (packetQueue, w)

/-- The buffer references and the message. -/
def writeBody (packetQueue : Store) (w queueLen : ℕ) (buffers : List Buffer)
    (message : List UInt8) : Ring (Store × ℕ) := do
  let (packetQueue, w) ← writePart packetQueue w queueLen (encodeBuffers buffers)
  writePart packetQueue w queueLen message

/-- A packet, with its header once or twice. -/
def writePacket (packetQueue : Store) (w queueLen : ℕ) (wrap : Bool) (phdr : ℕ)
    (buffers : List Buffer) (message : List UInt8) : Ring (Store × ℕ) := do
  let (packetQueue, w) ← write64 packetQueue w queueLen phdr
  let (packetQueue, w) ←
    if wrap then write64 packetQueue 0 queueLen phdr else pure (packetQueue, w)
  writeBody packetQueue w queueLen buffers message

/-- The ring code of `dspqueue_write_noblock`. -/
def writeRing (bufferRef : BufferRef) (q : Queue) (flags : ℕ) (buffers : List Buffer)
    (message : List UInt8) : Ring Queue := do
  lift (verifyC (buffers.length ≤ maxBuffers) .EBADPARM)
  lift (verifyC (message.length ≤ maxMessageSize) .EBADPARM)
  let flags := packetFlags flags buffers.length message.length
  let len := packetLength buffers.length message.length
  let (w, wrap) ← reserve q len
  lift (writeRefs bufferRef buffers)
  let phdr := packetHeader len flags buffers.length q.seqNo
  let (bytes, w) ← writePacket q.bytes w q.queueLength wrap phdr buffers message
  emit (.advance w)
  return publish q bytes w

/-! ### Reading -/

/-- `peek_locked`, which copies a header of `8` bytes to a `uint64_t`. -/
def peekLocked (packetQueue : Store) (r : ℕ) : Ring Header := do
  emit (.load r 8 8)
  lift (FastRpc.peekLocked packetQueue r)

/-- Copy to an output area whose elements have `size` bytes, or skip. -/
def readArea {α : Type} (area : Option ℕ) (size : ℕ) (packetQueue : Store) (r queueLen n skip : ℕ)
    (decode : List UInt8 → α) : Ring (Option α × ℕ) :=
  if 0 < n then
    match area with
    | some max => do
        let (data, r) ← readData packetQueue r queueLen n (max * size)
        return (some (decode data), r)
    | none => pure (none, addU32 r skip)
  else pure (area.map (fun _ => decode []), r)

/-- The copies of a packet to the output areas and the new read position. -/
def readBody (q : Queue) (args : ReadArgs) (r : ℕ) (h : Header) : Ring (Queue × Delivered) := do
  let (buffers, r) ← readArea args.buffers 24 q.bytes r q.queueLength (h.numBuffers * 24)
    (h.numBuffers * 24) (decodeBuffers h.numBuffers)
  let (message, r) ← readArea args.message 1 q.bytes r q.queueLength h.messageLength
    (align8 h.messageLength) id
  lift (cAssert (r ≤ q.queueLength))
  let r := if q.queueLength ≤ r then 0 else r
  emit (.advance r)
  return (consume q r, ⟨h.flags, h.numBuffers, h.messageLength, buffers, message⟩)

/-- The part of `dspqueue_read_noblock` that returns a packet. -/
def readPacket (q : Queue) (args : ReadArgs) (qleft r : ℕ) (h : Header) :
    Ring (Queue × Delivered) := do
  lift (verifyC (!h.flags.testBit flagBuffers || fitsArea args.buffers h.numBuffers) .EBADPARM)
  lift (verifyC (h.numBuffers ≤ maxBuffers) .EBADITEM)
  lift (verifyC (!h.flags.testBit flagMessage || fitsArea args.message h.messageLength) .EBADPARM)
  let len := addU32 (8 + h.numBuffers * 24) h.messageLength
  let r ← lift (skipHeader q.queueLength qleft r len)
  lift (verifyC (h.flags.testBit flagUserReady) .EBADITEM)
  readBody q args r h

/-- The consumption of an early wakeup packet, whose delay goes to a `uint32_t`. -/
def readWakeup (q : Queue) (qleft r : ℕ) (h : Header) : Ring (Queue × ℕ) := do
  lift (verifyC (h.numBuffers = 0) .ERPC)
  let len := addU32 8 h.messageLength
  let r ← lift (skipHeader q.queueLength qleft r len)
  if 0 < h.messageLength then do
    lift (verifyC (h.messageLength = 4) .EBADITEM)
    let (data, r) ← readData q.bytes r q.queueLength 4 4
    emit (.advance r)
    return (consume q r, wakeupWait (ofLe data))
  else do
    emit (.advance r)
    return (consume q r, defaultEarlyWakeupWait)

/-- The ring code of `dspqueue_read_noblock`, up to a packet or the consumption of an early wakeup
packet. -/
def readStart (q : Queue) (args : ReadArgs) : Ring (Queue × ReadOutcome) := do
  lift (verifyC (q.headerQueueCount = q.queueCount) .ERPC)
  let (qleft, r) ← lift (getQueueStateRead q)
  lift (verifyC (8 ≤ qleft) .EWOULDBLOCK)
  let h ← peekLocked q.bytes r
  if h.flags.testBit flagWakeup then do
    let (q, waittime) ← readWakeup q qleft r h
    return (q, .polling waittime)
  else do
    let (q, d) ← readPacket q args qleft r h
    return (q, .packet d)

/-- One look for the packet behind an early wakeup packet. -/
def readPoll (q : Queue) (args : ReadArgs) : Ring (Option (Queue × Delivered)) := do
  let (qleft, r) ← lift (getQueueStateRead q)
  if qleft < 8 then return none
  else do
    let h ← peekLocked q.bytes r
    let result ← readPacket q args qleft r h
    return some result

/-- What a reader finds in the shared memory when it looks again: the ring and the position of its
peer. -/
structure PeerView where
  bytes : Store
  position : UInt32

/-- The queue with what the reader finds now. -/
def seen (q : Queue) (v : PeerView) : Queue :=
  { q with bytes := v.bytes, writeState := { q.writeState with position := v.position.toNat } }

/-- The polling behind an early wakeup packet, up to a packet or the end of the time. -/
def readPolls (q : Queue) (args : ReadArgs) : List PeerView → Ring (Option (Queue × Delivered))
  | [] => return none
  | v :: later => do
      match ← readPoll (seen q v) args with
      | some result => return some result
      | none => readPolls q args later

/-- The ring code of a whole call of `dspqueue_read_noblock`; `later` is what its polls find. -/
def readNoblock (env : Env) (q : Queue) (args : ReadArgs) (later : List PeerView) :
    Ring (Option (Queue × Delivered)) := do
  let (q, outcome) ← readStart q args
  match outcome with
  | .packet d => return some (q, d)
  | .polling _ => do
      lift (env.signal (signalsSpace q))
      readPolls q args later

/-! ### Results -/

section Results

variable (q : Queue) (m : Store) (args : ReadArgs)

theorem freeSub_result (a b : ℕ) : (freeSub a b).result = .ok (subU32 a b) := (rfl)

theorem spaceLeft_result (Q r w : ℕ) : (spaceLeft Q r w).result =
    .ok (if r = w then subU32 Q 8 else if r < w then subU32 (addU32 (subU32 Q w) r) 8
      else subU32 (subU32 r w) 8) := by
  unfold spaceLeft
  split_ifs
  · exact freeSub_result Q 8
  · exact (result_bind_ok (freeSub_result Q w)).trans (freeSub_result _ 8)
  · exact (result_bind_ok (freeSub_result r w)).trans (freeSub_result _ 8)

theorem getQueueStateWrite_result :
    (getQueueStateWrite q).result = FastRpc.getQueueStateWrite q := by
  unfold getQueueStateWrite FastRpc.getQueueStateWrite
  refine result_bind_of (result_lift _) fun _ => ?_
  refine (result_bind_ok (spaceLeft_result _ _ _)).trans ?_
  exact result_bind_of (result_lift _) fun _ => result_pure _

theorem writeData_result (w Q : ℕ) (data : List UInt8) :
    (writeData m w Q data).result = FastRpc.writeData m w Q data := by
  unfold writeData FastRpc.writeData
  refine result_bind_of (result_lift _) fun _ => ?_
  refine result_bind_of (result_lift _) fun _ => ?_
  refine result_bind_of (result_lift _) fun _ => ?_
  refine (result_emit_bind _ _).trans ?_
  exact result_bind_of (result_lift _) fun _ => result_pure _

theorem readData_result (r Q n room : ℕ) :
    (readData m r Q n room).result = FastRpc.readData m r Q n := by
  unfold readData FastRpc.readData
  refine result_bind_of (result_lift _) fun _ => ?_
  refine result_bind_of (result_lift _) fun _ => ?_
  refine result_bind_of (result_lift _) fun _ => ?_
  refine (result_emit_bind _ _).trans ?_
  exact result_bind_of (result_lift _) fun _ => result_pure _

theorem reserve_result (len : ℕ) : (reserve q len).result = FastRpc.reserve q len := by
  unfold reserve FastRpc.reserve
  refine (result_bind_ok (freeSub_result _ _)).trans ?_
  refine result_bind_of (result_lift _) fun _ => ?_
  refine result_bind_of (result_lift _) fun _ => ?_
  refine result_bind_of (getQueueStateWrite_result q) fun x => ?_
  refine result_bind_of (result_lift _) fun _ => ?_
  refine (result_bind_ok (freeSub_result _ _)).trans ?_
  refine result_ite_of ?_ (result_pure _)
  refine (result_bind_ok (freeSub_result _ _)).trans ?_
  exact result_bind_of (result_lift _) fun _ => result_pure _

theorem writePart_result (w Q : ℕ) (data : List UInt8) :
    (writePart m w Q data).result = FastRpc.writePart m w Q data :=
  result_ite_of (writeData_result m w Q data) (result_pure _)

theorem writeBody_result (w Q : ℕ) (buffers : List Buffer) (message : List UInt8) :
    (writeBody m w Q buffers message).result = FastRpc.writeBody m w Q buffers message := by
  unfold writeBody FastRpc.writeBody
  exact result_bind_of (writePart_result m w Q _) fun x => writePart_result x.1 x.2 Q message

theorem write64_result (w Q data : ℕ) :
    (write64 m w Q data).result = .ok (FastRpc.write64 m w Q data) := (rfl)

theorem writePacket_result (w Q : ℕ) (wrap : Bool) (phdr : ℕ) (buffers : List Buffer)
    (message : List UInt8) : (writePacket m w Q wrap phdr buffers message).result =
      FastRpc.writePacket m w Q wrap phdr buffers message := by
  unfold writePacket FastRpc.writePacket
  refine (result_bind_ok (write64_result m w Q phdr)).trans ?_
  cases wrap with
  | false =>
      refine (result_bind_ok (result_pure _)).trans ?_
      exact writeBody_result ..
  | true =>
      refine (result_bind_ok (write64_result _ 0 Q phdr)).trans ?_
      exact writeBody_result ..

/-- **The writer** has the result of the ring code. -/
theorem writeRing_result (bufferRef : BufferRef) (flags : ℕ) (buffers : List Buffer)
    (message : List UInt8) : (writeRing bufferRef q flags buffers message).result =
      FastRpc.writeRing bufferRef q flags buffers message := by
  unfold writeRing FastRpc.writeRing
  refine result_bind_of (result_lift _) fun _ => ?_
  refine result_bind_of (result_lift _) fun _ => ?_
  refine result_bind_of (reserve_result q _) fun x => ?_
  refine result_bind_of (result_lift _) fun _ => ?_
  refine result_bind_of (writePacket_result _ _ _ _ _ _ _) fun _ => ?_
  exact (result_emit_bind _ _).trans (result_pure _)

theorem peekLocked_result (r : ℕ) : (peekLocked m r).result = FastRpc.peekLocked m r :=
  (result_emit_bind _ _).trans (result_lift _)

theorem readArea_result {α : Type} (area : Option ℕ) (size r Q n skip : ℕ)
    (decode : List UInt8 → α) : (readArea area size m r Q n skip decode).result =
      FastRpc.readArea area m r Q n skip decode := by
  unfold readArea FastRpc.readArea
  refine result_ite_of ?_ (result_pure _)
  cases area with
  | none => exact result_pure _
  | some max => exact result_bind_of (readData_result m r Q n _) fun _ => result_pure _

theorem readPacket_result (qleft r : ℕ) (h : Header) :
    (readPacket q args qleft r h).result = FastRpc.readPacket q args qleft r h := by
  unfold readPacket FastRpc.readPacket
  refine result_bind_of (result_lift _) fun _ => ?_
  refine result_bind_of (result_lift _) fun _ => ?_
  refine result_bind_of (result_lift _) fun _ => ?_
  refine result_bind_of (result_lift _) fun _ => ?_
  refine result_bind_of (result_lift _) fun _ => ?_
  unfold readBody
  refine result_bind_of (readArea_result _ _ _ _ _ _ _ _) fun x => ?_
  refine result_bind_of (readArea_result _ _ _ _ _ _ _ _) fun y => ?_
  refine result_bind_of (result_lift _) fun _ => ?_
  exact (result_emit_bind _ _).trans (result_pure _)

theorem readWakeup_result (qleft r : ℕ) (h : Header) :
    (readWakeup q qleft r h).result = FastRpc.readWakeup q qleft r h := by
  unfold readWakeup FastRpc.readWakeup
  refine result_bind_of (result_lift _) fun _ => ?_
  refine result_bind_of (result_lift _) fun _ => ?_
  refine result_ite_of ?_ ((result_emit_bind _ _).trans (result_pure _))
  refine result_bind_of (result_lift _) fun _ => ?_
  refine result_bind_of (readData_result _ _ _ _ _) fun _ => ?_
  exact (result_emit_bind _ _).trans (result_pure _)

/-- **The reader** has the result of the ring code. -/
theorem readStart_result : (readStart q args).result = FastRpc.readStart q args := by
  unfold readStart FastRpc.readStart
  refine result_bind_of (result_lift _) fun _ => ?_
  refine result_bind_of (result_lift _) fun x => ?_
  refine result_bind_of (result_lift _) fun _ => ?_
  refine result_bind_of (peekLocked_result _ _) fun h => ?_
  refine result_ite_of ?_ ?_
  · exact result_bind_of (readWakeup_result _ _ _ _) fun _ => result_pure _
  · exact result_bind_of (readPacket_result _ _ _ _ _) fun _ => result_pure _

theorem readPoll_result : (readPoll q args).result = FastRpc.readPoll q args := by
  unfold readPoll FastRpc.readPoll
  refine result_bind_of (result_lift _) fun x => ?_
  refine result_ite_of (result_pure _) ?_
  refine result_bind_of (peekLocked_result _ _) fun h => ?_
  exact result_bind_of (readPacket_result _ _ _ _ _) fun _ => result_pure _

end Results

end FastRpc.RingTrace
