import FastRpc.ListenerBuf
import FastRpc.Transition

/-! # The listener loop

`listener` of `listener_android.c` asks the DSP for the next request, makes its buffer large enough,
unpacks the arguments into the array `args`, which keeps its contents from one request to the next,
lays out the output areas in its response buffer and calls `mod_table_invoke`.  One pass of the loop
is `turn`; what the DSP, the allocator and the called module do comes with its `Turn`.

The received bytes are the first `inBufsLenReq` bytes of the buffer, but the unpacking is bounded by
the size of the buffer, and what it cannot read it leaves as it was.  So a truncated request is
passed on with lengths and bytes of earlier requests (`stale_bytes_passed`).
`request_passed_iff` says exactly which requests are passed on as they are. -/

namespace FastRpc

open ByteStore WindowedStream

namespace Listener

/-! ### The source -/

/-- `AEE_EINTERRUPTED`. -/
def eInterrupted : ℤ := 46

/-- `(int)(DSP_AEE_EOFFSET + AEE_EBADSTATE)`. -/
def dspBadState : ℤ := 0x8000040D - 2 ^ 32

/-- `AEE_EBADSIZE`. -/
def eBadSize : ℤ := 0x4D

/-- `AEE_ENORPCMEMORY`. -/
def eNoRpcMemory : ℤ := 0x68

/-- `AEE_EBADPARM`. -/
def eBadParm : ℤ := 0xE

/-- `AEE_EBADSTATE`. -/
def eBadState : ℤ := 0xD

/-- `REMOTE_SCALARS_INBUFS`. -/
def remoteScalarsInBufs (sc : ℕ) : ℕ := sc / 2 ^ 16 % 2 ^ 8

/-- `REMOTE_SCALARS_OUTBUFS`. -/
def remoteScalarsOutBufs (sc : ℕ) : ℕ := sc / 2 ^ 8 % 2 ^ 8

/-- `REMOTE_SCALARS_INHANDLES`. -/
def remoteScalarsInHandles (sc : ℕ) : ℕ := sc / 2 ^ 4 % 2 ^ 4

/-- `REMOTE_SCALARS_OUTHANDLES`. -/
def remoteScalarsOutHandles (sc : ℕ) : ℕ := sc % 2 ^ 4

/-- `MIN_BUF_SIZE`. -/
def minBufSize : ℤ := 0x1000

/-- `_SBUF_ALIGN(sz, MIN_BUF_SIZE)` on `int`. -/
def alignBuf (sz : ℤ) : ℤ := cInt (sz + (minBufSize - 1)) / minBufSize * minBufSize

/-- `ALIGNB`. -/
def alignB (sz : ℤ) : ℤ := if sz = 0 then minBufSize else alignBuf sz

/-- The state at the head of the loop. -/
structure State where
  mem : Store
  args : List RemoteArg
  inBufs : ℕ
  inBufsLen : ℤ
  outBufs : ℕ
  outBufsLen : ℤ
  outBufsCapacity : ℤ
  result : ℤ
  ctx : ℕ

/-- The state when the thread starts. -/
def init (mem : Store) : State := ⟨mem, List.replicate 512 ⟨0, 0⟩, 0, 0, 0, 0, 0, -1, 0⟩

/-- What `next2` returns: its error, and its outputs, of which `bytes` go to `inBufs`. -/
structure NextAnswer where
  nErr : ℤ
  ctx : ℕ
  handle : ℕ
  sc : ℕ
  bytes : List UInt8
  inBufsLenReq : ℤ

/-- What `get_in_bufs2` returns, with the bytes for the end of `inBufs`. -/
structure MoreAnswer where
  result : ℤ
  bytes : List UInt8
  req : ℤ

/-- What one pass of the loop meets: the answers of the DSP, the address of each allocation, whether
a reference to the session is got, and what the called module leaves in memory and returns. -/
structure Turn where
  first : NextAnswer
  second : NextAnswer
  sessionGet : Bool
  shrinkIn : Option ℕ
  growIn : Option ℕ
  more : MoreAnswer
  shrinkOut : Option ℕ
  growOut : Option ℕ
  memAfter : Store
  invoked : ℤ
  exiting : Bool

/-- A call of `mod_table_invoke`, with the received bytes and the response buffer. -/
structure Invocation where
  handle : ℕ
  sc : ℕ
  ins : List RemoteArg
  outs : List RemoteArg
  inBufs : ℕ
  request : List UInt8
  outBufs : ℕ
  outBufsLen : ℤ
deriving DecidableEq

/-- How a pass of the loop ends. -/
inductive Turned
  | exits
  | rejects (s : State)
  | invokes (s : State) (call : Invocation)

/-- `rpcmem_realloc`: the allocator returns a block in the address space, or fails. -/
def rpcmemRealloc (m : Store) (buf : ℕ) (oldsize size : ℤ) (a : Option ℕ) : Store × Option ℕ :=
  match a.filter (fun bufnew : ℕ => 0 < bufnew && 0 ≤ size && bufnew + size < 2 ^ 64) with
  | none => (m, none)
  | some bufnew =>
      (if buf ≠ 0 then write m bufnew (slice m buf (min oldsize size).toNat) else m, some bufnew)

/-- The product of two `int`s overflows. -/
def overflows (n : ℤ) : Bool := n < -2 ^ 31 || 2 ^ 31 ≤ n

/-- The second resizing of `inBufs`: it grows, and the rest of the request is fetched. -/
def growInBufs (s : State) (req : ℤ) (e : Turn) : Except State State :=
  if req > s.inBufsLen then
    let size := alignBuf req
    match rpcmemRealloc s.mem s.inBufs s.inBufsLen size e.growIn with
    | (m, none) => .error { s with mem := m, result := eNoRpcMemory }
    | (m, some buf) =>
        let mem := write m (buf + s.inBufsLen.toNat)
          (e.more.bytes.take (size - s.inBufsLen).toNat)
        let s := { s with mem := mem, inBufs := buf, inBufsLen := size, result := e.more.result }
        if e.more.result ≠ 0 then .error s
        else if e.more.req > size then .error { s with result := eBadParm }
        else .ok s
  else .ok s

/-- The buffer is made large enough for the request, and smaller when it is much too large. -/
def fitInBufs (cacheSize : ℤ) (s : State) (req : ℤ) (e : Turn) : Except State State :=
  if overflows (req * 2) then .error { s with result := eBadSize }
  else if alignB (req * 2) < s.inBufsLen ∧ s.inBufsLen > cacheSize then
    match rpcmemRealloc s.mem s.inBufs s.inBufsLen (alignB (req * 2)) e.shrinkIn with
    | (m, none) => .error { s with mem := m, result := eNoRpcMemory }
    | (m, some buf) =>
        growInBufs { s with mem := m, inBufs := buf, inBufsLen := alignB (req * 2) } req e
  else growInBufs s req e

/-- The second resizing of `outBufs`. -/
def growOutBufs (s : State) (e : Turn) : Except State State :=
  if s.outBufsLen > s.outBufsCapacity then
    let size := alignB s.outBufsLen
    match rpcmemRealloc s.mem s.outBufs s.outBufsCapacity size e.growOut with
    | (m, none) => .error { s with mem := m, result := eNoRpcMemory }
    | (m, some buf) =>
        .ok { s with mem := m, outBufs := buf, outBufsLen := size, outBufsCapacity := size }
  else .ok s

/-- The response buffer is made large enough, and smaller when it is much too large. -/
def fitOutBufs (cacheSize : ℤ) (s : State) (e : Turn) : Except State State :=
  if overflows (s.outBufsLen * 2) then .error { s with result := eBadSize }
  else if alignB (s.outBufsLen * 2) < s.outBufsCapacity ∧ s.outBufsCapacity > cacheSize then
    match rpcmemRealloc s.mem s.outBufs s.outBufsCapacity (alignB (s.outBufsLen * 2))
        e.shrinkOut with
    | (m, none) => .error { s with mem := m, result := eNoRpcMemory }
    | (m, some buf) =>
        growOutBufs
          { s with mem := m, outBufs := buf, outBufsCapacity := alignB (s.outBufsLen * 2) } e
  else growOutBufs s e

/-- The arguments are unpacked, the output areas measured and laid out, and the module is called. -/
def dispatch (cacheSize : ℤ) (s : State) (a : NextAnswer) (e : Turn) : Turned :=
  if 0 < remoteScalarsInHandles a.sc + remoteScalarsOutHandles a.sc then
    .rejects { s with result := eBadParm }
  else
    let nIn := remoteScalarsInBufs a.sc
    let nOut := remoteScalarsOutBufs a.sc
    let ins := unpackInBufs s.mem (sbufInit 0 s.inBufs s.inBufsLen) (s.args.take nIn)
    let outs := unpackOutLens s.mem ins.2 ((s.args.drop nIn).take nOut)
    let measured := packOutBufs (s.mem, sbufInit 0 0 0) outs.1
    let unpacked := { s with
      mem := measured.1.1, args := ins.1 ++ measured.2 ++ s.args.drop (nIn + nOut),
      outBufsLen := sbufNeeded measured.1.2 }
    match fitOutBufs cacheSize unpacked e with
    | .error t => .rejects t
    | .ok t =>
        let laidOut := packOutBufs (t.mem, sbufInit 0 t.outBufs t.outBufsLen) measured.2
        .invokes
          { t with
            mem := e.memAfter, args := ins.1 ++ laidOut.2 ++ s.args.drop (nIn + nOut),
            result := if e.invoked ≠ 0 ∧ e.exiting then eBadState else e.invoked }
          ⟨a.handle, a.sc, ins.1, laidOut.2, s.inBufs, slice s.mem s.inBufs a.inBufsLenReq.toNat,
            t.outBufs, t.outBufsLen⟩

/-- The outputs of `next2`. -/
def State.received (s : State) (a : NextAnswer) : State :=
  { s with ctx := a.ctx, mem := write s.mem s.inBufs (a.bytes.take s.inBufsLen.toNat) }

/-- A pass of the loop behind a successful `next2`. -/
def handle (cacheSize : ℤ) (s : State) (a : NextAnswer) (e : Turn) : Turned :=
  if e.sessionGet then
    match fitInBufs cacheSize s a.inBufsLenReq e with
    | .error t => .rejects t
    | .ok t => dispatch cacheSize t a e
  else .exits

/-- One pass of the loop of `listener`. -/
def turn (cacheSize : ℤ) (s : State) (e : Turn) : Turned :=
  let s := { s with outBufsLen := if s.result ≠ 0 then 0 else s.outBufsLen }
  let s := s.received e.first
  if e.first.nErr = 0 then handle cacheSize s e.first e
  else if e.first.nErr = eInterrupted then .rejects { s with ctx := 0, result := -1 }
  else if e.first.nErr = dspBadState then .exits
  else
    let s := s.received e.second
    if e.second.nErr = 0 then handle cacheSize s e.second e else .exits

/-- The state at the next head of the loop. -/
def step (cacheSize : ℤ) (s : State) (e : Turn) : Option State :=
  match turn cacheSize s e with
  | .exits => none
  | .rejects t => some t
  | .invokes t _ => some t

/-! ### Arguments and requests -/

/-- The little-endian length word at position `p` of the request. -/
def word (request : List UInt8) (p : ℕ) : ℕ := ofLe ((request.drop p).take 4)

/-- Each output length is the word at its place, inside the request. -/
def OutsFrom (request : List UInt8) : ℕ → List RemoteArg → Prop
  | _, [] => True
  | p, a :: outs =>
      p + 4 ≤ request.length ∧ a.nLen = word request p ∧ OutsFrom request (p + 4) outs

/-- The arguments are those of the request at `addr`: each length is the word at its place, an input
argument with bytes denotes the bytes behind its length, an empty one has no pointer, and all of it
lies inside the request. -/
def ArgsFrom (addr : ℕ) (request : List UInt8) (outs : List RemoteArg) :
    ℕ → List RemoteArg → Prop
  | p, [] => OutsFrom request p outs
  | p, a :: ins =>
      p + 4 ≤ request.length ∧ a.nLen = word request p ∧
        if a.nLen = 0 then a.pv = 0 ∧ ArgsFrom addr request outs (p + 4) ins
        else
          a.pv = addr + alignUp 8 (p + 4) ∧ alignUp 8 (p + 4) + a.nLen ≤ request.length ∧
            ArgsFrom addr request outs (alignUp 8 (p + 4) + a.nLen) ins

/-- The two layouts of the output areas, in the empty buffer and in the response buffer. -/
def layouts (m m' : Store) (outBufs : ℕ) (outBufsLen : ℤ) (outs : List RemoteArg) :
    List RemoteArg :=
  (packOutBufs (m', sbufInit 0 outBufs outBufsLen)
    (packOutBufs (m, sbufInit 0 0 0) outs).2).2

/-- The output arguments do not keep a pointer: an empty one has none, and the pointer of another
one does not depend on what was in the slot before. -/
structure PointersFresh (call : Invocation) : Prop where
  empty : ∀ a ∈ call.outs, a.nLen = 0 → a.pv = 0
  area : ∀ (m m' : Store) (slots : List RemoteArg), slots.map RemoteArg.nLen = call.outs.map RemoteArg.nLen →
    ∀ (i : ℕ) (a b : RemoteArg), call.outs[i]? = some a → a.nLen ≠ 0 →
      (layouts m m' call.outBufs call.outBufsLen slots)[i]? = some b → b.pv = a.pv

/-- **What is claimed of a call**: its arguments come from the received bytes. -/
structure FromRequest (call : Invocation) : Prop where
  args : ArgsFrom call.inBufs call.request call.outs 0 call.ins
  pointers : PointersFresh call

/-- The received bytes hold the length words and the bytes of all the arguments, and the slots of
the empty input arguments have no pointer. -/
def RequestFits (request : List UInt8) (nOut : ℕ) : ℕ → List RemoteArg → Prop
  | p, [] => p + 4 * nOut ≤ request.length
  | p, slot :: slots =>
      p + 4 ≤ request.length ∧
        if word request p = 0 then slot.pv = 0 ∧ RequestFits request nOut (p + 4) slots
        else
          alignUp 8 (p + 4) + word request p ≤ request.length ∧
            RequestFits request nOut (alignUp 8 (p + 4) + word request p) slots

/-- Where the area of an argument starts, behind its length. -/
def areaStart (b : Sbuf) : Sbuf := sbufAlign (sbufAdvance b 4) 8

/-- Where `pack_out_bufs` sets a pointer: its test `(int)nLen <= sbuf_left(buf)`. -/
def areaHeads : Sbuf → List ℕ → List (Option ℕ)
  | _, [] => []
  | b, nLen :: lens =>
      if nLen = 0 then none :: areaHeads (sbufAdvance b 4) lens
      else
        (if cInt nLen ≤ sbufLeft (areaStart b) then some (areaStart b).bufCur else none) ::
          areaHeads (sbufAdvance (areaStart b) (cInt nLen)) lens

/-- The pointer that `pack_out_bufs` sets for argument `i`. -/
def areaHead (b : Sbuf) (lens : List ℕ) (i : ℕ) : Option ℕ := ((areaHeads b lens)[i]?).join

/-- The length words of the outputs, behind the input arguments. -/
def outWords (request : List UInt8) (nOut : ℕ) : ℕ → List RemoteArg → List ℕ
  | p, [] => (List.range nOut).map (fun i => word request (p + 4 * i))
  | p, _ :: slots =>
      if word request p = 0 then outWords request nOut (p + 4) slots
      else outWords request nOut (alignUp 8 (p + 4) + word request p) slots

/-- For output lengths `lens`: the slot of an empty output has no pointer, and the area of another
one passes the test of `pack_out_bufs` in the empty buffer or in the response buffer. -/
def OutputsFit (lens : List ℕ) (outBufs : ℕ) (outBufsLen : ℤ) (slots : List RemoteArg) : Prop :=
  ∀ (i : ℕ) (slot : RemoteArg) (nLen : ℕ), slots[i]? = some slot → lens[i]? = some nLen →
    if nLen = 0 then slot.pv = 0
    else
      (areaHead (sbufInit 0 0 0) lens i).isSome ∨
        (areaHead (sbufInit 0 outBufs outBufsLen) lens i).isSome

/-! ### Unpacking -/

section Unpack

variable {m : Store} {addr len n : ℕ}

theorem word_slice {p : ℕ} (hp : p + 4 ≤ n) : word (slice m addr n) p = ofLe (slice m (addr + p) 4) := by
  unfold word
  rw [slice_drop _ _ _ _ (by omega), slice_take _ _ _ _ (by omega)]

theorem read_word (hw : Addressable (blockWindow addr len)) (hn : n ≤ len) {p k : ℕ}
    (hp : p + 4 ≤ n) :
    (sbufRead m (windowSbuf (blockWindow addr len) p) (toLe 4 k) 4) =
      (slice m (addr + p) 4, windowSbuf (blockWindow addr len) (p + 4)) := by
  have hlen := hw.len_lt
  have hend := hw.end_lt
  have hr : Reaches (blockWindow addr len) (p + 4) := by
    refine reaches_block ?_ ?_
    · exact (hp.trans hn).trans_lt hlen
    · exact (Nat.add_le_add_left (hp.trans hn) addr).trans_lt hend
  rw [sbufRead_word hw k hr, Window.get_of_covers]
  · rw [toLe_length]
    rfl
  · rw [toLe_length]
    exact covers_block (hp.trans hn)

theorem OutsFrom.congr {request : List UInt8} {p : ℕ} {outs outs' : List RemoteArg}
    (h : outs.map RemoteArg.nLen = outs'.map RemoteArg.nLen) :
    OutsFrom request p outs ↔ OutsFrom request p outs' := by
  induction outs generalizing p outs' with
  | nil =>
      obtain rfl := List.map_eq_nil_iff.mp h.symm
      exact Iff.rfl
  | cons a outs ih =>
      obtain ⟨b, outs', rfl, hb, htail⟩ := List.map_eq_cons_iff.mp h.symm
      simp only [OutsFrom, hb, ih htail.symm]

/-- The output lengths are the request's own exactly when their words lie inside it. -/
theorem outsFrom_unpack (hw : Addressable (blockWindow addr len)) (hn : n ≤ len) {p k : ℕ}
    (hp : p ≤ n) (slots : List RemoteArg) :
    OutsFrom (slice m addr n) p
        (unpackOutLensLoop m (windowSbuf (blockWindow addr len) p) k slots).1 ↔
      p + 4 * slots.length ≤ n := by
  induction slots generalizing p k with
  | nil => simpa [unpackOutLensLoop, OutsFrom] using hp
  | cons a slots ih =>
      rw [unpackOutLensLoop, List.length_cons]
      simp only [OutsFrom, slice_length]
      by_cases hfit : p + 4 ≤ n
      · have hread := read_word (m := m) (k := k) hw hn hfit
        simp only [hread, word_slice hfit, hfit, true_and]
        rw [ih hfit]
        constructor <;> intro h <;> omega
      · constructor
        · intro h
          exact absurd h.1 hfit
        · intro h
          omega

/-- **Unpacking and the request.** What is unpacked comes from the request exactly when the request
has it all. -/
theorem argsFrom_unpack (hw : Addressable (blockWindow addr len)) (hn : n ≤ len) {p k : ℕ}
    (hp : p ≤ n) {slots outSlots outs : List RemoteArg}
    (houts : outs.map RemoteArg.nLen = (unpackOutLens m
      (unpackInBufsLoop m (windowSbuf (blockWindow addr len) p) k slots).2 outSlots).1.map
        RemoteArg.nLen) :
    ArgsFrom addr (slice m addr n) outs p
        (unpackInBufsLoop m (windowSbuf (blockWindow addr len) p) k slots).1 ↔
      RequestFits (slice m addr n) outSlots.length p slots := by
  induction slots generalizing p k with
  | nil =>
      simp only [ArgsFrom, unpackInBufsLoop, RequestFits, slice_length]
      rw [OutsFrom.congr houts]
      exact outsFrom_unpack hw hn hp outSlots
  | cons a slots ih =>
      rw [RequestFits, slice_length]
      by_cases hfit : p + 4 ≤ n
      · have hread := read_word (m := m) (k := k) hw hn hfit
        have hword : word (slice m addr n) p = _ := word_slice hfit
        simp only [unpackInBufsLoop, hread, ← hword] at houts ⊢
        by_cases hzero : word (slice m addr n) p = 0
        · simp only [hzero, ne_eq, not_true_eq_false, if_false] at houts ⊢
          simp only [ArgsFrom, slice_length, hfit, hzero, true_and, if_true]
          rw [ih hfit houts]
        · simp only [if_pos hzero] at houts ⊢
          simp only [ArgsFrom, slice_length, hfit, if_neg hzero, true_and]
          by_cases hin : alignUp 8 (p + 4) + word (slice m addr n) p ≤ n
          · have hlen := hw.len_lt
            have hend := hw.end_lt
            simp only [blockWindow] at hlen hend
            have hr : Reaches (blockWindow addr len)
                (alignUp 8 (p + 4) + word (slice m addr n) p) :=
              reaches_block (by omega) (by omega)
            have hq := hr.mono (Nat.le_add_right (alignUp 8 (p + 4)) _)
            have hleft := sbufLeft_eq hw hq (Nat.zero_le _)
            have htest : ((word (slice m addr n) p : ℕ) : ℤ) ≤
                sbufLeft (windowSbuf (blockWindow addr len) (alignUp 8 (p + 4))) := by
              rw [hleft]
              simp only [blockWindow]
              omega
            simp only [sbufAlign_eight hq, sbufAdvance_eq hr, if_pos htest,
              cInt_of_lt (show word (slice m addr n) p < 2 ^ 31 by omega)] at houts ⊢
            rw [ih hin houts]
            simp only [hin, true_and]
            exact and_iff_right rfl
          · simp only [hin, false_and, and_false]
      · constructor
        · intro h
          rw [unpackInBufsLoop] at h
          split_ifs at h <;> exact absurd h.1 (by rwa [slice_length])
        · intro h
          exact absurd h.1 hfit

end Unpack

/-! ### Output pointers -/

theorem sbufAdvance_sbufAdvance (b : Sbuf) (n k : ℤ) :
    sbufAdvance (sbufAdvance b n) k = sbufAdvance b (n + k) := by
  have hcur : u64 ((u64 ((b.bufCur : ℤ) + n) : ℤ) + k) = u64 ((b.bufCur : ℤ) + (n + k)) := by
    unfold u64
    omega
  simp only [sbufAdvance, hcur]

/-- A write moves the buffer by its length, wherever it is. -/
theorem sbufWrite_snd (m : Store) (b : Sbuf) (src : List UInt8) (n : ℤ) :
    (sbufWrite m b src n).2 = sbufAdvance b n := by
  unfold sbufWrite
  split_ifs
  · dsimp only
    unfold sbufSkip
    split_ifs
    · dsimp only
      rw [sbufAdvance_sbufAdvance]
      congr 1
      omega
    · dsimp only
      rw [Int.sub_zero]
  · rfl

theorem areaHead_zero (b : Sbuf) {n : ℕ} (hn : n ≠ 0) (lens : List ℕ) :
    areaHead b (n :: lens) 0 =
      if cInt n ≤ sbufLeft (areaStart b) then some (areaStart b).bufCur else none := by
  rw [areaHead, areaHeads, if_neg hn, List.getElem?_cons_zero, Option.join_some]

theorem areaHead_succ (b : Sbuf) {n : ℕ} (hn : n ≠ 0) (lens : List ℕ) (i : ℕ) :
    areaHead b (n :: lens) (i + 1) = areaHead (sbufAdvance (areaStart b) (cInt n)) lens i := by
  rw [areaHead, areaHeads, if_neg hn, List.getElem?_cons_succ, areaHead]

theorem areaHead_empty_zero (b : Sbuf) (lens : List ℕ) : areaHead b (0 :: lens) 0 = none := by
  rw [areaHead, areaHeads, if_pos rfl, List.getElem?_cons_zero, Option.join_some]

theorem areaHead_empty_succ (b : Sbuf) (lens : List ℕ) (i : ℕ) :
    areaHead b (0 :: lens) (i + 1) = areaHead (sbufAdvance b 4) lens i := by
  rw [areaHead, areaHeads, if_pos rfl, List.getElem?_cons_succ, areaHead]

theorem sbufWrite_word_eq (m : Store) (b : Sbuf) (n : ℕ) :
    ∃ m', sbufWrite m b (toLe 4 (u32 n)) 4 = (m', sbufAdvance b 4) :=
  ⟨(sbufWrite m b (toLe 4 (u32 n)) 4).1, Prod.ext rfl (sbufWrite_snd m b (toLe 4 (u32 n)) 4)⟩

theorem packOutBufs_cons_empty (m : Store) (b : Sbuf) {a : RemoteArg} (ha : a.nLen = 0)
    (outs : List RemoteArg) :
    ∃ m', (packOutBufs (m, b) (a :: outs)).2 = a :: (packOutBufs (m', sbufAdvance b 4) outs).2 := by
  obtain ⟨m', hw⟩ := sbufWrite_word_eq m b a.nLen
  refine ⟨m', ?_⟩
  rw [packOutBufs]
  dsimp only
  rw [hw, if_neg (not_not_intro ha)]

theorem packOutBufs_cons_area (m : Store) (b : Sbuf) {a : RemoteArg} (ha : a.nLen ≠ 0)
    (outs : List RemoteArg) :
    ∃ m', (packOutBufs (m, b) (a :: outs)).2 =
      ⟨if cInt a.nLen ≤ sbufLeft (areaStart b) then (areaStart b).bufCur else a.pv, a.nLen⟩ ::
        (packOutBufs (m', sbufAdvance (areaStart b) (cInt a.nLen)) outs).2 := by
  obtain ⟨m', hw⟩ := sbufWrite_word_eq m b a.nLen
  refine ⟨m', ?_⟩
  unfold areaStart
  rw [packOutBufs]
  dsimp only
  rw [hw, if_pos ha]

/-- `pack_out_bufs` sets the pointers of `areaHead` and keeps the others. -/
theorem packOutBufs_getElem? (m : Store) (b : Sbuf) (outs : List RemoteArg) (i : ℕ) :
    (packOutBufs (m, b) outs).2[i]? = outs[i]?.map (fun a =>
      ⟨(areaHead b (outs.map RemoteArg.nLen) i).getD a.pv, a.nLen⟩) := by
  induction outs generalizing m b i with
  | nil => rfl
  | cons a outs ih =>
      rw [List.map_cons]
      by_cases ha : a.nLen = 0
      · obtain ⟨m', heq⟩ := packOutBufs_cons_empty m b ha outs
        rw [heq, ha]
        cases i with
        | zero =>
            rw [areaHead_empty_zero, List.getElem?_cons_zero, List.getElem?_cons_zero,
              Option.map_some, Option.getD_none]
        | succ i =>
            rw [areaHead_empty_succ, List.getElem?_cons_succ, List.getElem?_cons_succ, ih]
      · obtain ⟨m', heq⟩ := packOutBufs_cons_area m b ha outs
        rw [heq]
        cases i with
        | zero =>
            rw [areaHead_zero b ha, List.getElem?_cons_zero, List.getElem?_cons_zero,
              Option.map_some]
            split_ifs
            · rw [Option.getD_some]
            · rw [Option.getD_none]
        | succ i =>
            rw [areaHead_succ b ha, List.getElem?_cons_succ, List.getElem?_cons_succ, ih]

theorem packOutBufs_map_nLen (m : Store) (b : Sbuf) (outs : List RemoteArg) :
    (packOutBufs (m, b) outs).2.map RemoteArg.nLen = outs.map RemoteArg.nLen :=
  packOutBufs_nLen (m, b) outs

theorem layouts_map_nLen (m m' : Store) (outBufs : ℕ) (outBufsLen : ℤ) (outs : List RemoteArg) :
    (layouts m m' outBufs outBufsLen outs).map RemoteArg.nLen = outs.map RemoteArg.nLen := by
  unfold layouts
  rw [packOutBufs_map_nLen, packOutBufs_map_nLen]

theorem layouts_getElem? (m m' : Store) (outBufs : ℕ) (outBufsLen : ℤ) (outs : List RemoteArg)
    (i : ℕ) :
    (layouts m m' outBufs outBufsLen outs)[i]? = outs[i]?.map (fun a =>
      ⟨(areaHead (sbufInit 0 outBufs outBufsLen) (outs.map RemoteArg.nLen) i).getD
        ((areaHead (sbufInit 0 0 0) (outs.map RemoteArg.nLen) i).getD a.pv), a.nLen⟩) := by
  unfold layouts
  rw [packOutBufs_getElem?, packOutBufs_getElem?, packOutBufs_map_nLen, Option.map_map]
  rfl

theorem areaHead_of_zero {lens : List ℕ} {i : ℕ} (b : Sbuf) (h : lens[i]? = some 0) :
    areaHead b lens i = none := by
  induction lens generalizing b i with
  | nil => rfl
  | cons n lens ih =>
      cases i with
      | zero =>
          obtain rfl := Option.some.inj h
          exact areaHead_empty_zero b lens
      | succ i =>
          by_cases hn : n = 0
          · rw [hn, areaHead_empty_succ]
            exact ih _ h
          · rw [areaHead_succ b hn]
            exact ih _ h

section Pointers

variable {m m' : Store} {call : Invocation} {outs : List RemoteArg}

/-- The pointer of an output argument, by the two tests and what was in its slot. -/
theorem layouts_pv (h : call.outs = layouts m m' call.outBufs call.outBufsLen outs) {i : ℕ}
    {slot a : RemoteArg} (hslot : outs[i]? = some slot) (ha : call.outs[i]? = some a) :
    a.nLen = slot.nLen ∧
      a.pv = (areaHead (sbufInit 0 call.outBufs call.outBufsLen)
          (call.outs.map RemoteArg.nLen) i).getD
        ((areaHead (sbufInit 0 0 0) (call.outs.map RemoteArg.nLen) i).getD slot.pv) := by
  have hget := layouts_getElem? m m' call.outBufs call.outBufsLen outs i
  rw [← h, ha, hslot, Option.map_some, ← layouts_map_nLen m m' call.outBufs call.outBufsLen outs,
    ← h] at hget
  have heq := Option.some.inj hget
  constructor
  · rw [heq]
  · conv_lhs => rw [heq]

/-- A slot that differs only in its pointer gives the same lengths. -/
theorem set_map_nLen {i : ℕ} {slot : RemoteArg} (hslot : outs[i]? = some slot) (pv : ℕ) :
    (outs.set i ⟨pv, slot.nLen⟩).map RemoteArg.nLen = outs.map RemoteArg.nLen := by
  obtain ⟨hi, heq⟩ := List.getElem?_eq_some_iff.mp hslot
  have hi' : i < (outs.map RemoteArg.nLen).length := by rwa [List.length_map]
  have hself : slot.nLen = (outs.map RemoteArg.nLen)[i] := by rw [List.getElem_map, heq]
  rw [List.map_set, hself, List.set_getElem_self]

theorem slot_of_out (h : call.outs.map RemoteArg.nLen = outs.map RemoteArg.nLen) {i : ℕ}
    {a : RemoteArg} (ha : call.outs[i]? = some a) : ∃ slot, outs[i]? = some slot := by
  have hget := congrArg (fun lens : List ℕ => lens[i]?) h
  simp only [List.getElem?_map, ha, Option.map_some] at hget
  obtain ⟨slot, hslot, -⟩ := Option.map_eq_some_iff.mp hget.symm
  exact ⟨slot, hslot⟩

theorem areaHead_of_empty {i : ℕ} {a : RemoteArg} (ha : call.outs[i]? = some a)
    (hzero : a.nLen = 0) (b : Sbuf) : areaHead b (call.outs.map RemoteArg.nLen) i = none := by
  apply areaHead_of_zero
  rw [List.getElem?_map, ha, Option.map_some, hzero]

/-- **The pointers of a call are fresh exactly when the outputs fit.** -/
theorem pointersFresh_iff (h : call.outs = layouts m m' call.outBufs call.outBufsLen outs) :
    PointersFresh call ↔
      OutputsFit (call.outs.map RemoteArg.nLen) call.outBufs call.outBufsLen outs := by
  have hlens : call.outs.map RemoteArg.nLen = outs.map RemoteArg.nLen := by
    rw [h]
    exact layouts_map_nLen m m' call.outBufs call.outBufsLen outs
  constructor
  · intro hfresh i slot nLen hslot hlen
    rw [List.getElem?_map] at hlen
    obtain ⟨a, ha, rfl⟩ := Option.map_eq_some_iff.mp hlen
    have hpv := (layouts_pv h hslot ha).2
    split_ifs with hzero
    · rw [areaHead_of_empty ha hzero, areaHead_of_empty ha hzero, Option.getD_none,
        Option.getD_none] at hpv
      rw [← hpv]
      exact hfresh.empty a (List.mem_of_getElem? ha) hzero
    · by_contra hneither
      rw [not_or, Option.not_isSome_iff_eq_none, Option.not_isSome_iff_eq_none] at hneither
      -- without a pointer of its own the slot decides, so another slot gives another pointer
      have hset := set_map_nLen hslot (slot.pv + 1)
      have hother := layouts_getElem? m m' call.outBufs call.outBufsLen
        (outs.set i ⟨slot.pv + 1, slot.nLen⟩) i
      have hi : i < outs.length := (List.getElem?_eq_some_iff.mp hslot).1
      rw [hset, ← hlens, hneither.1, hneither.2, List.getElem?_set_self hi, Option.map_some,
        Option.getD_none, Option.getD_none] at hother
      have hsame := hfresh.area m m' _ (hset.trans hlens.symm) i a _ ha hzero hother
      rw [hneither.1, hneither.2, Option.getD_none, Option.getD_none] at hpv
      rw [hpv] at hsame
      exact absurd hsame (Nat.succ_ne_self slot.pv)
  · intro hfit
    constructor
    · intro a hmem hzero
      obtain ⟨i, ha⟩ := List.mem_iff_getElem?.mp hmem
      obtain ⟨slot, hslot⟩ := slot_of_out hlens ha
      have hslotpv := hfit i slot a.nLen hslot (by rw [List.getElem?_map, ha, Option.map_some])
      rw [if_pos hzero] at hslotpv
      rw [(layouts_pv h hslot ha).2, areaHead_of_empty ha hzero, areaHead_of_empty ha hzero,
        Option.getD_none, Option.getD_none, hslotpv]
    · intro n n' slots hmap i a b ha hzero hb
      obtain ⟨slot, hslot⟩ := slot_of_out hlens ha
      have hsome := hfit i slot a.nLen hslot (by rw [List.getElem?_map, ha, Option.map_some])
      rw [if_neg hzero] at hsome
      rw [layouts_getElem?, hmap] at hb
      obtain ⟨other, -, rfl⟩ := Option.map_eq_some_iff.mp hb
      rw [(layouts_pv h hslot ha).2]
      cases hresp : areaHead (sbufInit 0 call.outBufs call.outBufsLen)
          (call.outs.map RemoteArg.nLen) i with
      | some head => rfl
      | none =>
          rw [hresp] at hsome
          cases hempty : areaHead (sbufInit 0 0 0) (call.outs.map RemoteArg.nLen) i with
          | some head => rfl
          | none =>
              rw [hempty] at hsome
              exact absurd hsome (by decide)

theorem unpackOutLensLoop_pv (m : Store) (b : Sbuf) (k : ℕ) (slots : List RemoteArg) :
    (unpackOutLensLoop m b k slots).1.map RemoteArg.pv = slots.map RemoteArg.pv := by
  induction slots generalizing b k with
  | nil => rfl
  | cons a slots ih =>
      rw [unpackOutLensLoop]
      dsimp only
      rw [List.map_cons, List.map_cons, ih]

/-- Only the pointers of the slots count. -/
theorem OutputsFit.congr {lens : List ℕ} {outBufs : ℕ} {outBufsLen : ℤ} {slots slots' : List RemoteArg}
    (h : slots.map RemoteArg.pv = slots'.map RemoteArg.pv) :
    OutputsFit lens outBufs outBufsLen slots → OutputsFit lens outBufs outBufsLen slots' := by
  intro hfit i slot nLen hslot hlen
  have hget := congrArg (fun pvs : List ℕ => pvs[i]?) h
  simp only [List.getElem?_map, hslot, Option.map_some] at hget
  obtain ⟨other, hother, hpv⟩ := Option.map_eq_some_iff.mp hget
  rw [← hpv]
  exact hfit i other nLen hother hlen

end Pointers

theorem outsFrom_words {request : List UInt8} {p : ℕ} {outs : List RemoteArg}
    (h : OutsFrom request p outs) :
    outs.map RemoteArg.nLen =
      (List.range outs.length).map (fun i => word request (p + 4 * i)) := by
  induction outs generalizing p with
  | nil => rfl
  | cons a outs ih =>
      obtain ⟨-, hlen, htail⟩ := h
      rw [List.map_cons, List.length_cons, List.range_succ_eq_map, List.map_cons, List.map_map,
        ih htail, hlen, Nat.mul_zero, Nat.add_zero]
      congr 2
      funext i
      rw [Function.comp_apply, Nat.mul_succ, Nat.add_comm (4 * i) 4, Nat.add_assoc]

/-- The output lengths of a call that comes from the request are the words of the request. -/
theorem argsFrom_words {addr : ℕ} {request : List UInt8} {outs slots ins : List RemoteArg} {p : ℕ}
    (hlen : ins.length = slots.length) (h : ArgsFrom addr request outs p ins) :
    outs.map RemoteArg.nLen = outWords request outs.length p slots := by
  induction ins generalizing p slots with
  | nil =>
      obtain rfl := List.length_eq_zero_iff.mp hlen.symm
      exact outsFrom_words h
  | cons a ins ih =>
      obtain ⟨slot, slots, rfl⟩ := List.exists_cons_of_length_eq_add_one hlen.symm
      obtain ⟨-, hword, htail⟩ := h
      have hlen := Nat.succ.inj hlen
      rw [outWords, ← hword]
      split_ifs at htail ⊢ with hzero
      · exact ih hlen htail.2
      · exact ih hlen htail.2.2

/-! ### The loop -/

/-- The state at the head of the loop: `args` has its 512 slots and `inBufs` lies in the address
space. -/
structure Inv (s : State) : Prop where
  slots : s.args.length = 512
  nonneg : 0 ≤ s.inBufsLen
  lt : s.inBufsLen < 2 ^ 31
  addr : s.inBufs + s.inBufsLen < 2 ^ 64

theorem inv_init (mem : Store) : Inv (init mem) := by
  constructor
  · exact List.length_replicate
  · exact le_refl 0
  · exact (by decide : (0 : ℤ) < 2 ^ 31)
  · exact (by decide : (0 : ℤ) < 2 ^ 64)

/-- `Inv` reads `args` and the input buffer alone. -/
theorem Inv.congr {s t : State} (h : Inv s) (hargs : t.args.length = s.args.length)
    (hbuf : t.inBufs = s.inBufs) (hlen : t.inBufsLen = s.inBufsLen) : Inv t := by
  constructor
  · rw [hargs]
    exact h.slots
  · rw [hlen]
    exact h.nonneg
  · rw [hlen]
    exact h.lt
  · rw [hbuf, hlen]
    exact h.addr

theorem rpcmemRealloc_some {m m' : Store} {buf bufnew : ℕ} {oldsize size : ℤ} {a : Option ℕ}
    (h : rpcmemRealloc m buf oldsize size a = (m', some bufnew)) :
    0 ≤ size ∧ bufnew + size < 2 ^ 64 := by
  unfold rpcmemRealloc at h
  split at h
  · cases h
  · rename_i b hfilter
    obtain ⟨-, htest⟩ := Option.filter_eq_some_iff.mp hfilter
    have hnew := Option.some.inj (Prod.mk.inj h).2
    simp only [Bool.and_eq_true, decide_eq_true_eq] at htest
    rw [← hnew]
    exact ⟨htest.1.2, htest.2⟩

theorem alignBuf_lt (sz : ℤ) : alignBuf sz < 2 ^ 31 := by
  unfold alignBuf minBufSize cInt
  omega

theorem alignB_lt (sz : ℤ) : alignB sz < 2 ^ 31 := by
  unfold alignB
  split_ifs
  · unfold minBufSize
    omega
  · exact alignBuf_lt sz

theorem le_alignBuf {req : ℤ} (h : overflows (req * 2) = false) : req ≤ alignBuf req := by
  simp only [overflows, Bool.or_eq_false_iff, decide_eq_false_iff_not] at h
  unfold alignBuf minBufSize cInt
  omega

/-- What both outcomes of the resizing of the input buffer have in common. -/
def Resized (s : State) (r : Except State State) (Q : State → Prop) : Prop :=
  match r with
  | .error t => Inv t
  | .ok t => Inv t ∧ t.args = s.args ∧ Q t

theorem growInBufs_spec {s : State} (hs : Inv s) {req : ℤ} (hreq : overflows (req * 2) = false)
    (e : Turn) : Resized s (growInBufs s req e) (fun t => req ≤ t.inBufsLen) := by
  unfold growInBufs
  by_cases hgrow : req > s.inBufsLen
  · rw [if_pos hgrow]
    dsimp only
    split
    · exact hs.congr rfl rfl rfl
    · rename_i m buf hrealloc
      obtain ⟨hsize, haddr⟩ := rpcmemRealloc_some hrealloc
      by_cases hresult : e.more.result ≠ 0
      · rw [if_pos hresult]
        exact ⟨hs.slots, hsize, alignBuf_lt req, haddr⟩
      · rw [if_neg hresult]
        by_cases hmore : e.more.req > alignBuf req
        · rw [if_pos hmore]
          exact ⟨hs.slots, hsize, alignBuf_lt req, haddr⟩
        · rw [if_neg hmore]
          exact ⟨⟨hs.slots, hsize, alignBuf_lt req, haddr⟩, rfl, le_alignBuf hreq⟩
  · rw [if_neg hgrow]
    exact ⟨hs, rfl, not_lt.mp hgrow⟩

/-- Behind `fitInBufs` the request lies inside the buffer. -/
theorem fitInBufs_spec (cacheSize : ℤ) {s : State} (hs : Inv s) (req : ℤ) (e : Turn) :
    Resized s (fitInBufs cacheSize s req e) (fun t => req ≤ t.inBufsLen) := by
  unfold fitInBufs
  by_cases hover : overflows (req * 2) = true
  · rw [if_pos hover]
    exact hs.congr rfl rfl rfl
  · rw [if_neg hover]
    rw [Bool.not_eq_true] at hover
    by_cases hshrink : alignB (req * 2) < s.inBufsLen ∧ s.inBufsLen > cacheSize
    · rw [if_pos hshrink]
      split
      · exact hs.congr rfl rfl rfl
      · rename_i m buf hrealloc
        obtain ⟨hsize, haddr⟩ := rpcmemRealloc_some hrealloc
        have hinv : Inv { s with mem := m, inBufs := buf, inBufsLen := alignB (req * 2) } :=
          ⟨hs.slots, hsize, alignB_lt _, haddr⟩
        exact growInBufs_spec hinv hover e
    · rw [if_neg hshrink]
      exact growInBufs_spec hs hover e

/-- Resizing the response buffer leaves the rest as it is. -/
structure SameInput (s t : State) : Prop where
  args : t.args = s.args
  inBufs : t.inBufs = s.inBufs
  inBufsLen : t.inBufsLen = s.inBufsLen

theorem growOutBufs_spec (s : State) (e : Turn) :
    match growOutBufs s e with
    | .error t => SameInput s t
    | .ok t => SameInput s t := by
  unfold growOutBufs
  by_cases hgrow : s.outBufsLen > s.outBufsCapacity
  · rw [if_pos hgrow]
    dsimp only
    cases rpcmemRealloc s.mem s.outBufs s.outBufsCapacity (alignB s.outBufsLen) e.growOut with
    | mk m buf =>
        cases buf with
        | none => exact ⟨rfl, rfl, rfl⟩
        | some buf => exact ⟨rfl, rfl, rfl⟩
  · rw [if_neg hgrow]
    exact ⟨rfl, rfl, rfl⟩

theorem fitOutBufs_spec (cacheSize : ℤ) (s : State) (e : Turn) :
    match fitOutBufs cacheSize s e with
    | .error t => SameInput s t
    | .ok t => SameInput s t := by
  unfold fitOutBufs
  by_cases hover : overflows (s.outBufsLen * 2) = true
  · rw [if_pos hover]
    exact ⟨rfl, rfl, rfl⟩
  · rw [if_neg hover]
    by_cases hshrink : alignB (s.outBufsLen * 2) < s.outBufsCapacity ∧ s.outBufsCapacity > cacheSize
    · rw [if_pos hshrink]
      cases rpcmemRealloc s.mem s.outBufs s.outBufsCapacity (alignB (s.outBufsLen * 2))
          e.shrinkOut with
      | mk m buf =>
          cases buf with
          | none => exact ⟨rfl, rfl, rfl⟩
          | some buf =>
              have h := growOutBufs_spec
                { s with mem := m, outBufs := buf, outBufsCapacity := alignB (s.outBufsLen * 2) } e
              dsimp only at h ⊢
              split at h
              · exact ⟨h.args, h.inBufs, h.inBufsLen⟩
              · exact ⟨h.args, h.inBufs, h.inBufsLen⟩
    · rw [if_neg hshrink]
      exact growOutBufs_spec s e

theorem inv_received {s : State} (hs : Inv s) (a : NextAnswer) : Inv (s.received a) :=
  hs.congr rfl rfl rfl

theorem unpackInBufsLoop_length (m : Store) (b : Sbuf) (k : ℕ) (slots : List RemoteArg) :
    (unpackInBufsLoop m b k slots).1.length = slots.length := by
  induction slots generalizing b k with
  | nil => rfl
  | cons a slots ih =>
      rw [unpackInBufsLoop]
      by_cases hlen : ofLe (sbufRead m b (toLe 4 k) 4).1 ≠ 0
      · rw [if_pos hlen]
        exact congrArg Nat.succ (ih _ _)
      · rw [if_neg hlen]
        exact congrArg Nat.succ (ih _ _)

theorem length_of_map_nLen {outs outs' : List RemoteArg}
    (h : outs.map RemoteArg.nLen = outs'.map RemoteArg.nLen) : outs.length = outs'.length := by
  have hlen := congrArg List.length h
  rwa [List.length_map, List.length_map] at hlen

theorem length_of_map_pv {outs outs' : List RemoteArg}
    (h : outs.map RemoteArg.pv = outs'.map RemoteArg.pv) : outs.length = outs'.length := by
  have hlen := congrArg List.length h
  rwa [List.length_map, List.length_map] at hlen

/-- The input arguments unpacked in state `u`, and the buffer behind them. -/
def State.ins (u : State) (nIn : ℕ) : List RemoteArg × Sbuf :=
  unpackInBufs u.mem (sbufInit 0 u.inBufs u.inBufsLen) (u.args.take nIn)

/-- The output arguments with the lengths unpacked in state `u`. -/
def State.outs (u : State) (nIn nOut : ℕ) : List RemoteArg :=
  (unpackOutLens u.mem (u.ins nIn).2 ((u.args.drop nIn).take nOut)).1

/-- The call comes from state `u` by an answer of the DSP. -/
structure CallOf (u : State) (a : NextAnswer) (call : Invocation) : Prop where
  sc : call.sc = a.sc
  ins : call.ins = (u.ins (remoteScalarsInBufs a.sc)).1
  layout : ∃ m m', call.outs = layouts m m' call.outBufs call.outBufsLen
    (u.outs (remoteScalarsInBufs a.sc) (remoteScalarsOutBufs a.sc))
  inBufs : call.inBufs = u.inBufs
  request : call.request = slice u.mem u.inBufs a.inBufsLenReq.toNat

/-- What `dispatch` does: it keeps the invariant, and a call comes from its state. -/
def Dispatched (u : State) (a : NextAnswer) : Turned → Prop
  | .exits => False
  | .rejects t => Inv t
  | .invokes t call => Inv t ∧ CallOf u a call

theorem layouts_length (m m' : Store) (outBufs : ℕ) (outBufsLen : ℤ) (outs : List RemoteArg) :
    (layouts m m' outBufs outBufsLen outs).length = outs.length :=
  length_of_map_nLen (layouts_map_nLen m m' outBufs outBufsLen outs)

theorem outs_length (u : State) (nIn nOut : ℕ) :
    (u.outs nIn nOut).length = ((u.args.drop nIn).take nOut).length :=
  length_of_map_pv (unpackOutLensLoop_pv u.mem (u.ins nIn).2 0 _)

theorem fitOutBufs_error {cacheSize : ℤ} {s t : State} {e : Turn}
    (h : fitOutBufs cacheSize s e = .error t) : SameInput s t := by
  have hspec := fitOutBufs_spec cacheSize s e
  rwa [h] at hspec

theorem fitOutBufs_ok {cacheSize : ℤ} {s t : State} {e : Turn}
    (h : fitOutBufs cacheSize s e = .ok t) : SameInput s t := by
  have hspec := fitOutBufs_spec cacheSize s e
  rwa [h] at hspec

/-- The arguments of the call and the slots behind them are as many as before. -/
theorem length_replaced {u : State} {nIn nOut : ℕ} {ins outs : List RemoteArg}
    (hins : ins.length = (u.args.take nIn).length)
    (houts : outs.length = ((u.args.drop nIn).take nOut).length) :
    (ins ++ outs ++ u.args.drop (nIn + nOut)).length = u.args.length := by
  have hsplit : u.args.take nIn ++ ((u.args.drop nIn).take nOut ++ u.args.drop (nIn + nOut)) =
      u.args := by
    rw [← List.drop_drop, List.take_append_drop, List.take_append_drop]
  have hlen := congrArg List.length hsplit
  rw [List.length_append, List.length_append] at hlen ⊢
  rw [hins, houts, Nat.add_assoc]
  exact hlen

theorem dispatch_spec (cacheSize : ℤ) {u : State} (hu : Inv u) (a : NextAnswer) (e : Turn) :
    Dispatched u a (dispatch cacheSize u a e) := by
  unfold dispatch
  by_cases hhandles : 0 < remoteScalarsInHandles a.sc + remoteScalarsOutHandles a.sc
  · rw [if_pos hhandles]
    exact hu.congr rfl rfl rfl
  · rw [if_neg hhandles]
    dsimp only
    have hins := unpackInBufsLoop_length u.mem (sbufInit 0 u.inBufs u.inBufsLen) 0
      (u.args.take (remoteScalarsInBufs a.sc))
    have houts := outs_length u (remoteScalarsInBufs a.sc) (remoteScalarsOutBufs a.sc)
    split
    · rename_i t hfit
      have hsame := fitOutBufs_error hfit
      refine hu.congr ?_ hsame.inBufs hsame.inBufsLen
      rw [hsame.args]
      refine length_replaced hins ?_
      rw [← houts]
      exact length_of_map_nLen (packOutBufs_map_nLen _ _ _)
    · rename_i t hfit
      have hsame := fitOutBufs_ok hfit
      refine ⟨hu.congr ?_ hsame.inBufs hsame.inBufsLen, rfl, rfl, ⟨_, _, rfl⟩, rfl, rfl⟩
      refine length_replaced hins ?_
      rw [← houts]
      exact layouts_length _ _ _ _ _

/-- What a pass of the loop does: it keeps the invariant, and a call comes from a state with the
slots of the pass and an input buffer that holds the request. -/
def Passed (s : State) : Turned → Prop
  | .exits => True
  | .rejects t => Inv t
  | .invokes t call => Inv t ∧ ∃ u a, Inv u ∧ u.args = s.args ∧ a.inBufsLenReq ≤ u.inBufsLen ∧
      CallOf u a call

theorem handle_spec (cacheSize : ℤ) {s : State} (hs : Inv s) (a : NextAnswer) (e : Turn) :
    Passed s (handle cacheSize s a e) := by
  unfold handle
  by_cases hget : e.sessionGet = true
  · rw [if_pos hget]
    have hfit := fitInBufs_spec cacheSize hs a.inBufsLenReq e
    split
    · rename_i t heq
      rw [heq] at hfit
      exact hfit
    · rename_i u heq
      rw [heq] at hfit
      obtain ⟨hu, hargs, hreq⟩ := hfit
      have hdispatch := dispatch_spec cacheSize hu a e
      cases hturned : dispatch cacheSize u a e with
      | exits => trivial
      | rejects t =>
          rw [hturned] at hdispatch
          exact hdispatch
      | invokes t call =>
          rw [hturned] at hdispatch
          exact ⟨hdispatch.1, u, a, hu, hargs, hreq, hdispatch.2⟩
  · rw [if_neg hget]
    trivial

theorem Passed.congr {s s' : State} (h : s.args = s'.args) {r : Turned} (hr : Passed s r) :
    Passed s' r := by
  cases r with
  | exits => trivial
  | rejects t => exact hr
  | invokes t call =>
      obtain ⟨ht, u, a, hu, hargs, hreq, hcall⟩ := hr
      exact ⟨ht, u, a, hu, hargs.trans h, hreq, hcall⟩

theorem turn_spec (cacheSize : ℤ) {s : State} (hs : Inv s) (e : Turn) :
    Passed s (turn cacheSize s e) := by
  unfold turn
  dsimp only
  have hfirst : Inv (State.received { s with outBufsLen := if s.result ≠ 0 then 0 else s.outBufsLen }
      e.first) := hs.congr rfl rfl rfl
  by_cases hok : e.first.nErr = 0
  · rw [if_pos hok]
    exact (handle_spec cacheSize hfirst e.first e).congr rfl
  · rw [if_neg hok]
    by_cases hinter : e.first.nErr = eInterrupted
    · rw [if_pos hinter]
      exact hfirst.congr rfl rfl rfl
    · rw [if_neg hinter]
      by_cases hbad : e.first.nErr = dspBadState
      · rw [if_pos hbad]
        trivial
      · rw [if_neg hbad]
        by_cases hretry : e.second.nErr = 0
        · rw [if_pos hretry]
          exact (handle_spec cacheSize (inv_received hfirst e.second) e.second e).congr rfl
        · rw [if_neg hretry]
          trivial

theorem inv_step (cacheSize : ℤ) (s : State) (e : Turn) (t : State) (hs : Inv s)
    (h : step cacheSize s e = some t) : Inv t := by
  have hturn := turn_spec cacheSize hs e
  unfold step at h
  cases heq : turn cacheSize s e with
  | exits =>
      rw [heq] at h
      cases h
  | rejects u =>
      rw [heq] at h hturn
      obtain rfl := Option.some.inj h
      exact hturn
  | invokes u call =>
      rw [heq] at h hturn
      obtain rfl := Option.some.inj h
      exact hturn.1

theorem inv_run {cacheSize : ℤ} {mem : Store} {es : List Turn} {s : State}
    (h : Transition.run (step cacheSize) (init mem) es = some s) : Inv s :=
  Transition.run_invariant (inv_step cacheSize) (inv_init mem) h

/-- The input arguments of a call come from the request exactly when the request has them. -/
theorem CallOf.argsFrom_iff {u : State} {a : NextAnswer} {call : Invocation}
    (hcall : CallOf u a call) (hu : Inv u) (hreq : a.inBufsLenReq ≤ u.inBufsLen) :
    ArgsFrom call.inBufs call.request call.outs 0 call.ins ↔
      RequestFits call.request
        ((u.args.drop (remoteScalarsInBufs a.sc)).take (remoteScalarsOutBufs a.sc)).length 0
        (u.args.take (remoteScalarsInBufs a.sc)) := by
  obtain ⟨m, m', hlayout⟩ := hcall.layout
  have hnonneg := hu.nonneg
  have hlt := hu.lt
  have haddr := hu.addr
  have hcast : ((u.inBufsLen.toNat : ℕ) : ℤ) = u.inBufsLen := Int.toNat_of_nonneg hnonneg
  have hw : Addressable (blockWindow u.inBufs u.inBufsLen.toNat) :=
    addressable_block (by omega) (by omega)
  have hinit : sbufInit 0 u.inBufs u.inBufsLen =
      windowSbuf (blockWindow u.inBufs u.inBufsLen.toNat) 0 := by
    rw [← sbufInit_block hw, hcast]
  have hn : a.inBufsLenReq.toNat ≤ u.inBufsLen.toNat := by omega
  have houts : call.outs.map RemoteArg.nLen =
      (u.outs (remoteScalarsInBufs a.sc) (remoteScalarsOutBufs a.sc)).map RemoteArg.nLen := by
    rw [hlayout]
    exact layouts_map_nLen _ _ _ _ _
  rw [hcall.inBufs, hcall.request, hcall.ins]
  unfold State.outs State.ins unpackInBufs at houts
  unfold State.ins unpackInBufs
  rw [hinit] at houts ⊢
  exact argsFrom_unpack hw hn (Nat.zero_le _) houts

/-- **Which requests are passed on as they are.** Whatever the listener has handled before: a call
has its arguments from the received bytes exactly when these hold all the length words and argument
bytes, the slots of empty arguments have no pointer, and the area of each other output passes the
test of `pack_out_bufs`. -/
theorem request_passed_iff (cacheSize : ℤ) {mem : Store} {es : List Turn} {s t : State}
    (h : Transition.run (step cacheSize) (init mem) es = some s) {e : Turn} {call : Invocation}
    (hcall : turn cacheSize s e = .invokes t call) :
    FromRequest call ↔
      RequestFits call.request (remoteScalarsOutBufs call.sc) 0
          (s.args.take (remoteScalarsInBufs call.sc)) ∧
        OutputsFit
          (outWords call.request (remoteScalarsOutBufs call.sc) 0
            (s.args.take (remoteScalarsInBufs call.sc)))
          call.outBufs call.outBufsLen
          ((s.args.drop (remoteScalarsInBufs call.sc)).take (remoteScalarsOutBufs call.sc)) := by
  have hspec := turn_spec cacheSize (inv_run h) e
  rw [hcall] at hspec
  obtain ⟨-, u, a, hu, hargs, hreq, hof⟩ := hspec
  rw [hof.sc, ← hargs]
  -- `args` is long enough for every scalar
  have hnOut : ((u.args.drop (remoteScalarsInBufs a.sc)).take (remoteScalarsOutBufs a.sc)).length =
      remoteScalarsOutBufs a.sc := by
    rw [List.length_take, List.length_drop, hu.slots]
    unfold remoteScalarsInBufs remoteScalarsOutBufs
    omega
  obtain ⟨m, m', hlayout⟩ := hof.layout
  have houtsLen : call.outs.length = remoteScalarsOutBufs a.sc := by
    rw [hlayout, layouts_length, outs_length, hnOut]
  have hargsIff := hof.argsFrom_iff hu hreq
  rw [hnOut] at hargsIff
  have hpv := unpackOutLensLoop_pv u.mem (u.ins (remoteScalarsInBufs a.sc)).2 0
    ((u.args.drop (remoteScalarsInBufs a.sc)).take (remoteScalarsOutBufs a.sc))
  have hwords : ArgsFrom call.inBufs call.request call.outs 0 call.ins →
      call.outs.map RemoteArg.nLen = outWords call.request (remoteScalarsOutBufs a.sc) 0
        (u.args.take (remoteScalarsInBufs a.sc)) := by
    intro hfrom
    rw [← houtsLen]
    refine argsFrom_words ?_ hfrom
    rw [hof.ins]
    exact unpackInBufsLoop_length _ _ _ _
  constructor
  · intro hfrom
    refine ⟨hargsIff.mp hfrom.args, ?_⟩
    rw [← hwords hfrom.args]
    exact OutputsFit.congr hpv ((pointersFresh_iff hlayout).mp hfrom.pointers)
  · rintro ⟨hfits, houtputs⟩
    have hfrom := hargsIff.mpr hfits
    rw [← hwords hfrom] at houtputs
    exact ⟨hfrom, (pointersFresh_iff hlayout).mpr (OutputsFit.congr hpv.symm houtputs)⟩

/-- An answer of the DSP. -/
def answer (sc : ℕ) (bytes : List UInt8) (req : ℤ) : NextAnswer := ⟨0, 7, 1, sc, bytes, req⟩

/-- A pass of the loop in which every allocation succeeds and the called module writes nothing. -/
def quietTurn (first : NextAnswer) (more : List UInt8) : Turn :=
  ⟨first, first, true, some 0x1000, some 0x1000, ⟨0, more, first.inBufsLenReq⟩, some 0x10000,
    some 0x10000, fun a => more.getD (a - 0x1000) 0, 0, false⟩

/-- A request with one input argument of four bytes and one output of eight bytes. -/
def wholeTurn : Turn :=
  quietTurn (answer 0x10100 [] 16) [4, 0, 0, 0, 0, 0, 0, 0, 10, 11, 12, 13, 8, 0, 0, 0]

/-- A request of which two bytes are received. -/
def truncatedTurn : Turn := quietTurn (answer 0x10000 [4, 0] 2) []

/-- The call of a pass. -/
def Turned.call : Turned → Option Invocation
  | .invokes _ call => some call
  | _ => none

theorem Turned.call_eq_some {r : Turned} {call : Invocation} (h : r.call = some call) :
    ∃ t, r = .invokes t call := by
  cases r with
  | exits => cases h
  | rejects t => cases h
  | invokes t c =>
      obtain rfl := Option.some.inj h
      exact ⟨t, rfl⟩

theorem request_passed_whole :
    ∃ t call, turn 0 (init (fun _ => 0)) wholeTurn = .invokes t call ∧
      call.ins = [⟨0x1008, 4⟩] ∧ call.outs = [⟨0x10008, 8⟩] ∧ FromRequest call := by
  have hcall : (turn 0 (init (fun _ => 0)) wholeTurn).call =
      some ⟨1, 0x10100, [⟨0x1008, 4⟩], [⟨0x10008, 8⟩], 0x1000,
        [4, 0, 0, 0, 0, 0, 0, 0, 10, 11, 12, 13, 8, 0, 0, 0], 0x10000, 0x1000⟩ := by
    decide +kernel
  obtain ⟨t, hturn⟩ := Turned.call_eq_some hcall
  refine ⟨t, _, hturn, rfl, rfl,
    (request_passed_iff 0 (Transition.run_nil _) hturn).mpr ⟨?_, ?_⟩⟩
  · exact ⟨by decide, by decide, show (_ : ℕ) ≤ _ by decide⟩
  · intro i slot nLen _ hnLen
    cases i with
    | zero =>
        obtain rfl := Option.some.inj hnLen
        exact Or.inr (by decide)
    | succ i => cases hnLen

/-- **Stale bytes are passed on**: two bytes are received, and the called module gets four bytes
behind them, which an earlier request has left. -/
theorem stale_bytes_passed :
    ∃ s t call, Transition.run (step 0) (init (fun _ => 0)) [wholeTurn] = some s ∧
      turn 0 s truncatedTurn = .invokes t call ∧
        call.request = [4, 0] ∧ call.ins = [⟨0x1008, 4⟩] ∧ ¬ FromRequest call := by
  have hcalls : ((Transition.run (step 0) (init (fun _ => 0)) [wholeTurn]).bind
      (fun s => (turn 0 s truncatedTurn).call)).map (fun c => (c.request, c.ins)) =
        some ([4, 0], [⟨0x1008, 4⟩]) := by decide +kernel
  obtain ⟨call, hcall, hfields⟩ := Option.map_eq_some_iff.mp hcalls
  obtain ⟨s, hrun, hcall⟩ := Option.bind_eq_some_iff.mp hcall
  obtain ⟨t, hturn⟩ := Turned.call_eq_some hcall
  obtain ⟨hrequest, hins⟩ := Prod.mk.inj hfields
  refine ⟨s, t, call, hrun, hturn, hrequest, hins, ?_⟩
  intro hfrom
  have hargs := hfrom.args
  rw [hins, hrequest] at hargs
  exact absurd hargs.1 (by decide)

end Listener

end FastRpc
