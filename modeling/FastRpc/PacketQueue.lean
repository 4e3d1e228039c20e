import FastRpc.Basic

/-! # The packet queue of `dspqueue_cpu.c`

One direction of a dspqueue: a byte ring in shared memory with one read and one write state, the
fields its two ends keep for themselves, and the ring code of `dspqueue_write_noblock`,
`dspqueue_write_early_wakeup_noblock`, `peek_locked` and `dspqueue_read_noblock`.  The peer runs
the same write algorithm, so writer and reader of one ring are modelled together.

A packet is a `64`-bit header (length, flags, number of buffers, sequence number), the buffer
references and the message, padded to `8` bytes.  A packet that does not fit before the end of
the ring is moved to the beginning and its header is replicated.

`dspqueue_read_noblock` is one call, but between consuming an early wakeup packet and finding the
next packet it polls the write position while the writer runs.  It is therefore three steps:
`dspqueueReadNoblock` (up to a packet, an error or the consumption of a wakeup packet),
`dspqueueReadPoll` (one look at the write position) and `readTimeout` (the wait is over).
`writeRing`, `readStart` and `readPoll` are the ring code of these calls; what the calls do
outside the ring, the buffer references and the signals, comes from an `Env`. -/

namespace FastRpc

open ByteStore

/-! ### Constants and data -/

/-- `DSPQUEUE_MAX_BUFFERS`. -/
def maxBuffers : ℕ := 64

/-- `DSPQUEUE_MAX_MESSAGE_SIZE`. -/
def maxMessageSize : ℕ := 65536

/-- `DEFAULT_EARLY_WAKEUP_WAIT`, in microseconds. -/
def defaultEarlyWakeupWait : ℕ := 1000

/-- `MAX_EARLY_WAKEUP_WAIT`, in microseconds. -/
def maxEarlyWakeupWait : ℕ := 2500

/-- Bit of `DSPQUEUE_PACKET_FLAG_MESSAGE`. -/
def flagMessage : ℕ := 0

/-- Bit of `DSPQUEUE_PACKET_FLAG_BUFFERS`. -/
def flagBuffers : ℕ := 1

/-- Bit of `DSPQUEUE_PACKET_FLAG_WAKEUP`. -/
def flagWakeup : ℕ := 2

/-- Bit of `DSPQUEUE_PACKET_FLAG_USER_READY`. -/
def flagUserReady : ℕ := 4

/-- `flags |= FLAG` for the flag with bit number `k`. -/
def setFlag (flags k : ℕ) : ℕ := flags ||| 2 ^ k

/-- `flags &= ~FLAG` on `uint32_t` for the flag with bit number `k`. -/
def clearFlag (flags k : ℕ) : ℕ := flags &&& (2 ^ 32 - 1 - 2 ^ k)

/-- `struct dspqueue_buffer`. -/
structure Buffer where
  fd : UInt32
  size : UInt32
  offset : UInt32
  flags : UInt32
  ptr : UInt64
  deriving DecidableEq, Repr

/-- `DSPQUEUE_BUFFER_FLAG_REF` is set. -/
def Buffer.isRef (b : Buffer) : Bool := b.flags.toNat.testBit 2

/-- `DSPQUEUE_BUFFER_FLAG_DEREF` is set. -/
def Buffer.isDeref (b : Buffer) : Bool := b.flags.toNat.testBit 3

/-- The `24` bytes of a buffer reference in memory. -/
def Buffer.encode (b : Buffer) : List UInt8 :=
  toLe 4 b.fd.toNat ++ (toLe 4 b.size.toNat ++ (toLe 4 b.offset.toNat ++
    (toLe 4 b.flags.toNat ++ toLe 8 b.ptr.toNat)))

/-- The buffer reference at the start of `bs`. -/
def Buffer.decode (bs : List UInt8) : Buffer where
  fd := .ofNat (ofLe (bs.take 4))
  size := .ofNat (ofLe ((bs.drop 4).take 4))
  offset := .ofNat (ofLe ((bs.drop 8).take 4))
  flags := .ofNat (ofLe ((bs.drop 12).take 4))
  ptr := .ofNat (ofLe ((bs.drop 16).take 8))

/-- An array of buffer references in memory. -/
def encodeBuffers : List Buffer → List UInt8
  | [] => []
  | b :: bs => b.encode ++ encodeBuffers bs

/-- The first `n` buffer references of a byte string. -/
def decodeBuffers : ℕ → List UInt8 → List Buffer
  | 0, _ => []
  | n + 1, bytes => Buffer.decode bytes :: decodeBuffers n (bytes.drop 24)

/-- `struct dspqueue_packet_queue_state`. -/
structure QueueState where
  position : ℕ
  packetCount : ℕ
  waitCount : ℕ

/-- One packet queue: the shared header and states, and the fields of `struct dspqueue` that the
writer and the reader keep. -/
structure Queue where
  queueLength : ℕ
  bytes : Store
  readState : QueueState
  writeState : QueueState
  headerQueueCount : ℕ
  queueCount : ℕ
  haveWaitCounts : Bool
  seqNo : ℕ
  writePacketCount : ℕ
  reqPacketCount : ℕ
  readPacketCount : ℕ
  respSpaceCount : ℕ
  earlyWakeupMisses : ℕ

/-- A queue as `dspqueue_create` sets it up; the ring may hold anything. -/
def Queue.create (queueLength : ℕ) (bytes : Store) (queueCount : ℕ) (haveWaitCounts : Bool) :
    Queue where
  queueLength := queueLength
  bytes := bytes
  readState := ⟨0, 0, 0⟩
  writeState := ⟨0, 0, 0⟩
  headerQueueCount := queueCount
  queueCount := queueCount
  haveWaitCounts := haveWaitCounts
  seqNo := 0
  writePacketCount := 0
  reqPacketCount := 0
  readPacketCount := 0
  respSpaceCount := 0
  earlyWakeupMisses := 0

/-- `fastrpc_buffer_ref`: file descriptor and change of the reference count (`1`, `-1` or `0`) to
the address and size of the mapping. -/
abbrev BufferRef := UInt32 → ℤ → Except AEEResult (ℕ × ℕ)

/-- What one call finds outside the ring: the buffer mappings and the result of `send_signal`. -/
structure Env where
  bufferRef : BufferRef
  sendSignal : Except AEEResult Unit

/-- No buffer is mapped and signals can be sent. -/
def Env.idle : Env := ⟨fun _ _ => .error .ENOSUCHMAP, .ok ()⟩

/-- Send a signal if one is needed. -/
def Env.signal (env : Env) (needed : Bool) : Except Fault Unit :=
  if needed then
    match env.sendSignal with
    | .ok () => .ok ()
    | .error code => .error (.error code)
  else .ok ()

/-! ### Positions -/

/-- `get_queue_state_write`: the space left and the write position. -/
def getQueueStateWrite (q : Queue) : Except Fault (ℕ × ℕ) := do
  let r := q.readState.position
  let w := q.writeState.position
  cAssert (r % 8 = 0 ∧ w % 8 = 0)
  let qleft :=
    if r = w then subU32 q.queueLength 8
    else if r < w then subU32 (addU32 (subU32 q.queueLength w) r) 8
    else subU32 (subU32 r w) 8
  cAssert (qleft % 8 = 0)
  return (qleft, w)

/-- `get_queue_state_read`: the data left and the read position. -/
def getQueueStateRead (q : Queue) : Except Fault (ℕ × ℕ) := do
  let w := q.writeState.position
  let r := q.readState.position
  cAssert (r % 8 = 0 ∧ w % 8 = 0)
  let qleft :=
    if r = w then 0
    else if r < w then subU32 w r
    else addU32 (subU32 q.queueLength r) w
  cAssert (qleft % 8 = 0)
  return (qleft, r)

/-- `write_64`. -/
def write64 (packetQueue : Store) (writePos queueLen data : ℕ) : Store × ℕ :=
  let pos := addU32 writePos 8
  (write packetQueue writePos (toLe 8 data), if queueLen ≤ pos then 0 else pos)

/-- `write_data`. -/
def writeData (packetQueue : Store) (writePos queueLen : ℕ) (data : List UInt8) :
    Except Fault (Store × ℕ) := do
  cAssert (0 < data.length)
  cAssert (writePos % 8 = 0)
  cAssert (data.length ≤ subU32 queueLen writePos)
  let pos := addU32 writePos (align8 data.length)
  cAssert (pos ≤ queueLen)
  return (write packetQueue writePos data, if queueLen ≤ pos then 0 else pos)

/-- `read_data`. -/
def readData (packetQueue : Store) (readPos queueLen dataLen : ℕ) :
    Except Fault (List UInt8 × ℕ) := do
  cAssert (0 < dataLen)
  cAssert (readPos % 8 = 0)
  cAssert (dataLen ≤ subU32 queueLen readPos)
  let pos := addU32 readPos (align8 dataLen)
  cAssert (pos ≤ queueLen)
  return (slice packetQueue readPos dataLen, if queueLen ≤ pos then 0 else pos)

/-! ### Writing -/

/-- The flags of a packet, with the presence bits set from its content. -/
def packetFlags (flags numBuffers messageLength : ℕ) : ℕ :=
  let flags := if 0 < numBuffers then setFlag flags flagBuffers else clearFlag flags flagBuffers
  let flags :=
    if 0 < messageLength then setFlag flags flagMessage else clearFlag flags flagMessage
  setFlag flags flagUserReady

/-- Length of a packet in the queue, before alignment. -/
def packetLength (numBuffers messageLength : ℕ) : ℕ := 8 + numBuffers * 24 + messageLength

/-- The packet header `phdr`; its four fields do not overlap. -/
def packetHeader (len flags numBuffers seqNo : ℕ) : ℕ :=
  len % 2 ^ 32 + flags % 2 ^ 16 * 2 ^ 32 + numBuffers % 2 ^ 8 * 2 ^ 48 + seqNo % 2 ^ 8 * 2 ^ 56

/-- The checks for space in the queue: the write position and whether the packet is moved to the
beginning. -/
def reserve (q : Queue) (len : ℕ) : Except Fault (ℕ × Bool) := do
  let alen := align8 len
  verifyC (alen ≤ subU32 q.queueLength 8) .EBADPARM
  verifyC (q.headerQueueCount = q.queueCount) .ERPC
  let (qleft, w) ← getQueueStateWrite q
  verifyC (alen ≤ qleft) .EWOULDBLOCK
  if subU32 q.queueLength w < alen then
    verifyC (alen ≤ subU32 qleft (subU32 q.queueLength w)) .EWOULDBLOCK
    return (w, true)
  else
    return (w, false)

/-- Find a buffer in the FastRPC mappings, changing its reference count as its flags ask. -/
def refBuffer (bufferRef : BufferRef) (b : Buffer) : Except Fault (ℕ × ℕ) := do
  let change : ℤ ← if b.isRef then
      verifyC (!b.isDeref) .EBADPARM
      pure 1
    else if b.isDeref then pure (-1)
    else pure 0
  match bufferRef b.fd change with
  | .ok mapping => return mapping
  | .error code => throw (.error code)

/-- The buffer loop of `dspqueue_write_noblock`. -/
def writeRefs (bufferRef : BufferRef) : List Buffer → Except Fault Unit
  | [] => .ok ()
  | b :: bs => do
      let (_, size) ← refBuffer bufferRef b
      if b.size ≠ 0 then verifyC (b.offset.toNat + b.size.toNat ≤ size) .EBADPARM
      else verifyC (b.offset = 0) .EBADPARM
      writeRefs bufferRef bs

/-- Write one part of a packet, unless it is empty. -/
def writePart (packetQueue : Store) (w queueLen : ℕ) (data : List UInt8) :
    Except Fault (Store × ℕ) :=
  if 0 < data.length then writeData packetQueue w queueLen data else .ok (packetQueue, w)

/-- Store the buffer references and the message from `w` on; the new write position. -/
def writeBody (packetQueue : Store) (w queueLen : ℕ) (buffers : List Buffer)
    (message : List UInt8) : Except Fault (Store × ℕ) := do
  let (packetQueue, w) ← writePart packetQueue w queueLen (encodeBuffers buffers)
  writePart packetQueue w queueLen message

/-- Store a packet: the header at `w`, replicated at the beginning if the packet is moved there,
and the body behind it. -/
def writePacket (packetQueue : Store) (w queueLen : ℕ) (wrap : Bool) (phdr : ℕ)
    (buffers : List Buffer) (message : List UInt8) : Except Fault (Store × ℕ) :=
  let (packetQueue, w) := write64 packetQueue w queueLen phdr
  let (packetQueue, w) :=
    if wrap then write64 packetQueue 0 queueLen phdr else (packetQueue, w)
  writeBody packetQueue w queueLen buffers message

/-- Update the write pointer and the packet counters. -/
def publish (q : Queue) (bytes : Store) (w : ℕ) : Queue :=
  let count := addU32 q.writePacketCount 1
  { q with
    bytes := bytes
    writeState := { q.writeState with position := w, packetCount := count }
    writePacketCount := count
    reqPacketCount := addU32 q.reqPacketCount 1 }

/-- The ring code of `dspqueue_write_noblock`, with the buffer loop between the checks for space
and the first store. -/
def writeRing (bufferRef : BufferRef) (q : Queue) (flags : ℕ) (buffers : List Buffer)
    (message : List UInt8) : Except Fault Queue := do
  verifyC (buffers.length ≤ maxBuffers) .EBADPARM
  verifyC (message.length ≤ maxMessageSize) .EBADPARM
  let flags := packetFlags flags buffers.length message.length
  let len := packetLength buffers.length message.length
  let (w, wrap) ← reserve q len
  writeRefs bufferRef buffers
  let phdr := packetHeader len flags buffers.length q.seqNo
  let (bytes, w) ← writePacket q.bytes w q.queueLength wrap phdr buffers message
  return publish q bytes w

/-- Whether the writer signals a packet it has written. -/
def signalsPacket (q : Queue) : Bool := !q.haveWaitCounts || q.readState.waitCount ≠ 0

/-- `dspqueue_write_noblock` on a queue of one domain. -/
def dspqueueWriteNoblock (env : Env) (q : Queue) (flags : ℕ) (buffers : List Buffer)
    (message : List UInt8) : Queue × Except Fault Unit :=
  match writeRing env.bufferRef q flags buffers message with
  | .error e => (q, .error e)
  | .ok q =>
    match env.signal (signalsPacket q) with
    | .error e => (q, .error e)
    | .ok () => ({ q with seqNo := (q.seqNo + 1) % 2 ^ 16 }, .ok ())

/-- The flags that `dspqueue_write_early_wakeup_noblock` passes on. -/
def wakeupFlags (packetFlags : ℕ) : ℕ := setFlag packetFlags flagWakeup

/-- The message of an early wakeup packet: the delay, unless it is `0`. -/
def wakeupMessage (wakeupDelay : UInt32) : List UInt8 :=
  if wakeupDelay = 0 then [] else toLe 4 wakeupDelay.toNat

/-- `dspqueue_write_early_wakeup_noblock`. -/
def dspqueueWriteEarlyWakeupNoblock (env : Env) (q : Queue) (wakeupDelay : UInt32)
    (packetFlags : ℕ) : Queue × Except Fault Unit :=
  dspqueueWriteNoblock env q (wakeupFlags packetFlags) [] (wakeupMessage wakeupDelay)

/-! ### Reading -/

/-- What `peek_locked` finds in a packet header. -/
structure Header where
  flags : ℕ
  numBuffers : ℕ
  messageLength : ℕ
  deriving DecidableEq, Repr

/-- `peek_locked`. -/
def peekLocked (packetQueue : Store) (r : ℕ) : Except Fault Header := do
  let d := ofLe (slice packetQueue r 8)
  let len := d % 2 ^ 32
  let f := d / 2 ^ 32 % 2 ^ 16
  let nb := if f.testBit flagBuffers then d / 2 ^ 48 % 2 ^ 8 else 0
  verifyC (8 + nb * 24 ≤ len) .EBADITEM
  return { flags := f, numBuffers := nb,
           messageLength := if f.testBit flagMessage then len - 8 - nb * 24 else 0 }

/-- The output areas of a read: their sizes, `none` for a `NULL` pointer. -/
structure ReadArgs where
  buffers : Option ℕ
  message : Option ℕ
  deriving DecidableEq, Repr

/-- What a successful read stores through its output pointers. -/
structure Delivered where
  flags : ℕ
  numBuffers : ℕ
  messageLength : ℕ
  buffers : Option (List Buffer)
  message : Option (List UInt8)
  deriving DecidableEq, Repr

/-- Skip the header at `r`, moving to the beginning when the packet does not fit before the end. -/
def skipHeader (queueLen qleft r len : ℕ) : Except Fault ℕ :=
  if subU32 queueLen r < len then do
    cAssert (len ≤ subU32 qleft (subU32 queueLen r))
    return 8
  else .ok (addU32 r 8)

/-- Update the read pointer and the space counter. -/
def consume (q : Queue) (r : ℕ) : Queue :=
  let count := addU32 q.readPacketCount 1
  { q with
    readState := { q.readState with position := r, packetCount := count }
    readPacketCount := count
    respSpaceCount := addU32 q.respSpaceCount 1 }

/-- An output area is absent or large enough. -/
def fitsArea (area : Option ℕ) (n : ℕ) : Bool :=
  match area with
  | some max => n ≤ max
  | none => true

/-- Copy `n` bytes to an output area, or only skip them when the area is absent. -/
def readArea {α : Type} (area : Option ℕ) (packetQueue : Store) (r queueLen n skip : ℕ)
    (decode : List UInt8 → α) : Except Fault (Option α × ℕ) :=
  if 0 < n then
    match area with
    | some _ => do
        let (data, r) ← readData packetQueue r queueLen n
        return (some (decode data), r)
    | none => .ok (none, addU32 r skip)
  else .ok (area.map (fun _ => decode []), r)

/-- The part of `dspqueue_read_noblock` that returns the packet with header `h` at `r`: check the
output areas, copy the packet and consume it. -/
def readPacket (q : Queue) (args : ReadArgs) (qleft r : ℕ) (h : Header) :
    Except Fault (Queue × Delivered) := do
  verifyC (!h.flags.testBit flagBuffers || fitsArea args.buffers h.numBuffers) .EBADPARM
  verifyC (h.numBuffers ≤ maxBuffers) .EBADITEM
  verifyC (!h.flags.testBit flagMessage || fitsArea args.message h.messageLength) .EBADPARM
  let len := addU32 (8 + h.numBuffers * 24) h.messageLength
  let r ← skipHeader q.queueLength qleft r len
  verifyC (h.flags.testBit flagUserReady) .EBADITEM
  let (buffers, r) ← readArea args.buffers q.bytes r q.queueLength (h.numBuffers * 24)
    (h.numBuffers * 24) (decodeBuffers h.numBuffers)
  let (message, r) ← readArea args.message q.bytes r q.queueLength h.messageLength
    (align8 h.messageLength) id
  cAssert (r ≤ q.queueLength)
  let r := if q.queueLength ≤ r then 0 else r
  return (consume q r, ⟨h.flags, h.numBuffers, h.messageLength, buffers, message⟩)

/-- How long to poll after an early wakeup packet with this delay. -/
def wakeupWait (wakeup : ℕ) : ℕ :=
  if maxEarlyWakeupWait < wakeup then maxEarlyWakeupWait
  else if wakeup ≠ 0 then wakeup
  else defaultEarlyWakeupWait

/-- Consume an early wakeup packet: the new queue and the time to poll. -/
def readWakeup (q : Queue) (qleft r : ℕ) (h : Header) : Except Fault (Queue × ℕ) := do
  verifyC (h.numBuffers = 0) .ERPC
  let len := addU32 8 h.messageLength
  let r ← skipHeader q.queueLength qleft r len
  if 0 < h.messageLength then
    verifyC (h.messageLength = 4) .EBADITEM
    let (data, r) ← readData q.bytes r q.queueLength 4
    return (consume q r, wakeupWait (ofLe data))
  else
    return (consume q r, defaultEarlyWakeupWait)

/-- How the first part of a read ends when it does not fail. -/
inductive ReadOutcome
  | packet (d : Delivered)
  | polling (waittime : ℕ)
  deriving DecidableEq, Repr

/-- The ring code of `dspqueue_read_noblock`, up to the point where it has a packet or has consumed
an early wakeup packet. -/
def readStart (q : Queue) (args : ReadArgs) : Except Fault (Queue × ReadOutcome) := do
  verifyC (q.headerQueueCount = q.queueCount) .ERPC
  let (qleft, r) ← getQueueStateRead q
  verifyC (8 ≤ qleft) .EWOULDBLOCK
  let h ← peekLocked q.bytes r
  if h.flags.testBit flagWakeup then
    let (q, waittime) ← readWakeup q qleft r h
    return (q, .polling waittime)
  else
    let (q, d) ← readPacket q args qleft r h
    return (q, .packet d)

/-- One look for the packet behind an early wakeup packet: nothing yet, or that packet. -/
def readPoll (q : Queue) (args : ReadArgs) : Except Fault (Option (Queue × Delivered)) := do
  let (qleft, r) ← getQueueStateRead q
  if qleft < 8 then return none
  else
    let h ← peekLocked q.bytes r
    let result ← readPacket q args qleft r h
    return some result

/-- The packet behind an early wakeup packet did not get here in time. -/
def readTimeout (q : Queue) : Queue :=
  { q with earlyWakeupMisses := addU32 q.earlyWakeupMisses 1 }

/-- Whether the reader signals the space it has freed. -/
def signalsSpace (q : Queue) : Bool := !q.haveWaitCounts || q.writeState.waitCount ≠ 0

/-- Look up one buffer of a packet that has been read, and fill in its address and the size that
the writer left open. -/
def attachBuffer (bufferRef : BufferRef) (b : Buffer) : Except Fault Buffer := do
  let (va, size) ← refBuffer bufferRef b
  if b.size ≠ 0 then
    verifyC (b.offset.toNat + b.size.toNat ≤ size) .EBADITEM
    return { b with ptr := .ofNat (va + b.offset.toNat) }
  else
    verifyC (b.offset = 0) .EBADITEM
    return { b with ptr := .ofNat va, size := .ofNat size }

/-- The buffer loop of `dspqueue_read_noblock`. -/
def readRefs (bufferRef : BufferRef) : List Buffer → Except Fault (List Buffer)
  | [] => .ok []
  | b :: bs => do
      let b ← attachBuffer bufferRef b
      let bs ← readRefs bufferRef bs
      return b :: bs

/-- What `dspqueue_read_noblock` still does after it has consumed a packet: signal the space, then
look up the buffers that it has copied out. -/
def readFinish (env : Env) (q : Queue) (d : Delivered) : Except Fault Delivered := do
  env.signal (signalsSpace q)
  match d.buffers with
  | none => return d
  | some bs =>
      let bs ← readRefs env.bufferRef bs
      return { d with buffers := some bs }

/-- `dspqueue_read_noblock` on a queue of one domain, up to a result or to the polling behind an
early wakeup packet. -/
def dspqueueReadNoblock (env : Env) (q : Queue) (args : ReadArgs) :
    Queue × Except Fault ReadOutcome :=
  match readStart q args with
  | .error e => (q, .error e)
  | .ok (q, .polling waittime) =>
      (q, (env.signal (signalsSpace q)).map (fun _ => .polling waittime))
  | .ok (q, .packet d) => (q, (readFinish env q d).map .packet)

/-- One round of the polling in `dspqueue_read_noblock`. -/
def dspqueueReadPoll (env : Env) (q : Queue) (args : ReadArgs) :
    Queue × Except Fault (Option Delivered) :=
  match readPoll q args with
  | .error e => (q, .error e)
  | .ok none => (q, .ok none)
  | .ok (some (q, d)) => (q, (readFinish env q d).map some)

end FastRpc
