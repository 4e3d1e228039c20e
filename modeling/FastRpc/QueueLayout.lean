import FastRpc.AlignedLayout
import FastRpc.Basic
import FastRpc.Traced

/-! # The shared memory of a queue

`dspqueue_create` allocates one block for a queue: the header, and for each direction the ring and the
states of its reader and its writer.  The size of the block is one expression; the offsets are computed
step by step and must end at that size, which an `assert` checks.  All sums are on `uint32_t`, so the
program records their operands. -/

namespace FastRpc.QueueLayout

open AlignedLayout ByteStore Traced

/-! ### The code -/

/-- `DSPQUEUE_MAX_QUEUE_SIZE`. -/
def dspqueueMaxQueueSize : ℕ := 16777216

/-- `DSPQUEUE_DEFAULT_REQ_SIZE`. -/
def dspqueueDefaultReqSize : ℕ := 65536

/-- `DSPQUEUE_DEFAULT_RESP_SIZE`. -/
def dspqueueDefaultRespSize : ℕ := 16384

/-- `QUEUE_CACHE_ALIGN`. -/
def queueCacheAlign : ℕ := 256

/-- `sizeof(struct dspqueue_header)`. -/
def headerSize : ℕ := 48

/-- `sizeof(struct dspqueue_packet_queue_state)`. -/
def stateSize : ℕ := 12

/-- The request size, or the default for `0`. -/
def requestSize (reqQueueSize : ℕ) : ℕ :=
  if reqQueueSize = 0 then dspqueueDefaultReqSize else reqQueueSize

/-- The response size, or the default for `0`. -/
def responseSize (respQueueSize : ℕ) : ℕ :=
  if respQueueSize = 0 then dspqueueDefaultRespSize else respQueueSize

/-- `struct dspqueue_packet_queue_header`. -/
structure PacketQueueHeader where
  queueOffset : ℕ
  queueLength : ℕ
  readStateOffset : ℕ
  writeStateOffset : ℕ
  deriving DecidableEq, Repr

/-- What `dspqueue_create` computes: the size of the block, the two headers and the last value of its
variable `o`. -/
structure Layout where
  userQueueSize : ℕ
  reqQueue : PacketQueueHeader
  respQueue : PacketQueueHeader
  o : ℕ
  deriving DecidableEq, Repr

/-- Code that records the operands of its sums. -/
abbrev Summing := Traced (ℕ × ℕ) Fault

/-- `a + b` on `uint32_t`. -/
def sum (a b : ℕ) : Summing ℕ := do
  emit (a, b)
  return addU32 a b

/-- `CACHE_ALIGN_SIZE`. -/
def cacheAlignSize (x : ℕ) : Summing ℕ := do
  let y ← sum x (queueCacheAlign - 1)
  return y / queueCacheAlign * queueCacheAlign

/-- `q->user_queue_size`. -/
def userQueueSize (reqQueueSize respQueueSize : ℕ) : Summing ℕ := do
  let header ← cacheAlignSize headerSize
  let state ← cacheAlignSize stateSize
  let size ← sum header (4 * state)
  let req ← cacheAlignSize reqQueueSize
  let size ← sum size req
  let resp ← cacheAlignSize respQueueSize
  sum size resp

/-- The offsets of one packet queue from `o` on, and the offset behind it. -/
def packetQueueHeader (o queueSize : ℕ) : Summing (PacketQueueHeader × ℕ) := do
  let queueOffset := o
  let size ← cacheAlignSize queueSize
  let o ← sum o size
  let readStateOffset := o
  let state ← cacheAlignSize stateSize
  let o ← sum o state
  let writeStateOffset := o
  let state ← cacheAlignSize stateSize
  let o ← sum o state
  return (⟨queueOffset, queueSize, readStateOffset, writeStateOffset⟩, o)

/-- The part of `dspqueue_create` that divides the shared memory. -/
def dspqueueCreate (reqQueueSize respQueueSize : ℕ) : Summing Layout := do
  lift (verifyC (reqQueueSize ≤ dspqueueMaxQueueSize) .EBADPARM)
  lift (verifyC (respQueueSize ≤ dspqueueMaxQueueSize) .EBADPARM)
  let reqQueueSize := requestSize reqQueueSize
  let respQueueSize := responseSize respQueueSize
  let size ← userQueueSize reqQueueSize respQueueSize
  let o ← cacheAlignSize headerSize
  let (req, o) ← packetQueueHeader o reqQueueSize
  let (resp, o) ← packetQueueHeader o respQueueSize
  lift (cAssert (o = size))
  return ⟨size, req, resp, o⟩

/-! ### The regions -/

/-- The ring of a packet queue and the states of its two ends. -/
def PacketQueueHeader.regions (h : PacketQueueHeader) : List Region :=
  [⟨h.queueOffset, h.queueLength⟩, ⟨h.readStateOffset, stateSize⟩, ⟨h.writeStateOffset, stateSize⟩]

/-- The six regions behind the header. -/
def Layout.regions (l : Layout) : List Region := l.reqQueue.regions ++ l.respQueue.regions

/-- The header of the queue. -/
def Layout.header : Region := ⟨0, headerSize⟩

/-- The sizes of all the regions. -/
def regionSizes (reqSize respSize : ℕ) : List ℕ :=
  [headerSize, reqSize, stateSize, stateSize, respSize, stateSize, stateSize]

/-- What the code should compute, without a bound on the sums. -/
def layout (reqSize respSize : ℕ) : Layout :=
  let a := alignUp queueCacheAlign
  let o := a headerSize
  let p := o + a reqSize + a stateSize + a stateSize
  { userQueueSize := extent queueCacheAlign (regionSizes reqSize respSize)
    reqQueue := ⟨o, reqSize, o + a reqSize, o + a reqSize + a stateSize⟩
    respQueue := ⟨p, respSize, p + a respSize, p + a respSize + a stateSize⟩
    o := extent queueCacheAlign (regionSizes reqSize respSize) }

theorem layout_regions (reqSize respSize : ℕ) :
    Layout.header :: (layout reqSize respSize).regions =
      place queueCacheAlign 0 (regionSizes reqSize respSize) := by
  simp [Layout.header, Layout.regions, PacketQueueHeader.regions, layout, regionSizes, place]

/-! ### The sums -/

/-- The sum fits `uint32_t`. -/
def Fits (e : ℕ × ℕ) : Prop := e.1 + e.2 < 2 ^ 32

theorem sum_returns {a b : ℕ} (h : a + b < 2 ^ 32) : Returns Fits (a + b) (sum a b) := by
  have hpure := returns_pure (φ := Fault) (P := Fits) (addU32 a b)
  rw [addU32_of_lt h] at hpure
  unfold sum
  rw [addU32_of_lt h]
  exact (returns_emit (show Fits (a, b) from h)).bind hpure

theorem cacheAlignSize_returns {x : ℕ} (h : x ≤ dspqueueMaxQueueSize) :
    Returns Fits (alignUp queueCacheAlign x) (cacheAlignSize x) := by
  have hlt : x + (queueCacheAlign - 1) < 2 ^ 32 := by
    unfold dspqueueMaxQueueSize at h
    unfold queueCacheAlign
    omega
  exact (sum_returns hlt).bind (returns_pure _)

theorem alignUp_le {x : ℕ} (h : x ≤ dspqueueMaxQueueSize) :
    alignUp queueCacheAlign x ≤ dspqueueMaxQueueSize := by
  unfold dspqueueMaxQueueSize at h ⊢
  unfold alignUp queueCacheAlign
  omega

theorem userQueueSize_returns {req resp : ℕ} (hreq : req ≤ dspqueueMaxQueueSize)
    (hresp : resp ≤ dspqueueMaxQueueSize) :
    Returns Fits (extent queueCacheAlign (regionSizes req resp)) (userQueueSize req resp) := by
  have hsmall : ∀ {x : ℕ}, x ≤ dspqueueMaxQueueSize → alignUp queueCacheAlign x ≤ 16777216 :=
    fun h => alignUp_le h
  have hext : extent queueCacheAlign (regionSizes req resp) = alignUp queueCacheAlign headerSize +
      4 * alignUp queueCacheAlign stateSize + alignUp queueCacheAlign req +
        alignUp queueCacheAlign resp := by
    simp only [extent, regionSizes, List.map_cons, List.map_nil, List.sum_cons, List.sum_nil]
    omega
  have h1 := hsmall (x := headerSize) (by decide)
  have h2 := hsmall (x := stateSize) (by decide)
  have h3 := hsmall hreq
  have h4 := hsmall hresp
  rw [hext]
  refine (cacheAlignSize_returns (by decide)).bind ?_
  refine (cacheAlignSize_returns (by decide)).bind ?_
  refine (sum_returns (by omega)).bind ?_
  refine (cacheAlignSize_returns hreq).bind ?_
  refine (sum_returns (by omega)).bind ?_
  refine (cacheAlignSize_returns hresp).bind ?_
  exact sum_returns (by omega)

/-- The offsets of a packet queue from an offset that leaves room for it. -/
theorem packetQueueHeader_returns {o size : ℕ} (ho : o < 2 ^ 31) (hsize : size ≤ dspqueueMaxQueueSize) :
    Returns Fits
      (⟨o, size, o + alignUp queueCacheAlign size,
          o + alignUp queueCacheAlign size + alignUp queueCacheAlign stateSize⟩,
        o + alignUp queueCacheAlign size + alignUp queueCacheAlign stateSize +
          alignUp queueCacheAlign stateSize)
      (packetQueueHeader o size) := by
  have hstate : alignUp queueCacheAlign stateSize = 256 := rfl
  have hle : alignUp queueCacheAlign size ≤ 16777216 := alignUp_le hsize
  have hcache : stateSize ≤ dspqueueMaxQueueSize := by decide
  refine (cacheAlignSize_returns hsize).bind ?_
  refine (sum_returns (by omega)).bind ?_
  refine (cacheAlignSize_returns hcache).bind ?_
  refine (sum_returns (by omega)).bind ?_
  refine (cacheAlignSize_returns hcache).bind ?_
  refine (sum_returns (by omega)).bind ?_
  exact returns_pure _

theorem requestSize_le {n : ℕ} (h : n ≤ dspqueueMaxQueueSize) :
    requestSize n ≤ dspqueueMaxQueueSize := by
  unfold requestSize
  split_ifs
  · decide
  · exact h

theorem responseSize_le {n : ℕ} (h : n ≤ dspqueueMaxQueueSize) :
    responseSize n ≤ dspqueueMaxQueueSize := by
  unfold responseSize
  split_ifs
  · decide
  · exact h

/-- The code computes the layout without a wrap, and its `assert` holds. -/
theorem dspqueueCreate_returns {req resp : ℕ} (hreq : req ≤ dspqueueMaxQueueSize)
    (hresp : resp ≤ dspqueueMaxQueueSize) :
    Returns Fits (layout (requestSize req) (responseSize resp)) (dspqueueCreate req resp) := by
  have hreq' := requestSize_le hreq
  have hresp' := responseSize_le hresp
  have h1 : alignUp queueCacheAlign (requestSize req) ≤ 16777216 := alignUp_le hreq'
  have h2 : alignUp queueCacheAlign (responseSize resp) ≤ 16777216 := alignUp_le hresp'
  have hheader : alignUp queueCacheAlign headerSize = 256 := rfl
  have hstate : alignUp queueCacheAlign stateSize = 256 := rfl
  refine (returns_lift (verifyC_pos hreq .EBADPARM)).bind ?_
  refine (returns_lift (verifyC_pos hresp .EBADPARM)).bind ?_
  refine (userQueueSize_returns hreq' hresp').bind ?_
  refine (cacheAlignSize_returns (by decide)).bind ?_
  refine (packetQueueHeader_returns (by omega) hreq').bind ?_
  refine (packetQueueHeader_returns (by omega) hresp').bind ?_
  have hend : alignUp queueCacheAlign headerSize + alignUp queueCacheAlign (requestSize req) +
      alignUp queueCacheAlign stateSize + alignUp queueCacheAlign stateSize +
      alignUp queueCacheAlign (responseSize resp) + alignUp queueCacheAlign stateSize +
      alignUp queueCacheAlign stateSize =
        extent queueCacheAlign (regionSizes (requestSize req) (responseSize resp)) := by
    simp only [extent, regionSizes, List.map_cons, List.map_nil, List.sum_cons, List.sum_nil]
    omega
  refine (returns_lift (cAssert_pos hend)).bind ?_
  rw [hend]
  exact returns_pure _

/-- The sizes of a queue that is created are at most the largest one. -/
theorem dspqueueCreate_admits {req resp : ℕ} {l : Layout}
    (h : (dspqueueCreate req resp).result = .ok l) :
    req ≤ dspqueueMaxQueueSize ∧ resp ≤ dspqueueMaxQueueSize := by
  unfold dspqueueCreate at h
  rw [result_bind, result_lift, bind_eq_ok] at h
  obtain ⟨_, hreq, h⟩ := h
  rw [result_bind, result_lift, bind_eq_ok] at h
  obtain ⟨_, hresp, _⟩ := h
  rw [verifyC_eq_ok, decide_eq_true_eq] at hreq hresp
  exact ⟨hreq, hresp⟩

/-- **The layout of a queue**, for all sizes that `dspqueue_create` admits: no sum wraps and the last
offset is the size of the block; the six regions lie inside the block at multiples of `256`, and they
and the header are disjoint. -/
theorem queue_layout {req resp : ℕ} (hreq : req ≤ dspqueueMaxQueueSize)
    (hresp : resp ≤ dspqueueMaxQueueSize) :
    ∃ l, (dspqueueCreate req resp).result = .ok l ∧
      (∀ e ∈ (dspqueueCreate req resp).trace, e.1 + e.2 < 2 ^ 32) ∧
      l.o = l.userQueueSize ∧
      l.reqQueue.queueLength = requestSize req ∧ l.respQueue.queueLength = responseSize resp ∧
      (∀ r ∈ l.regions, r.offset % 256 = 0) ∧
      (Layout.header :: l.regions).Pairwise Region.Disjoint ∧
      ∀ r ∈ Layout.header :: l.regions, r.Inside l.userQueueSize := by
  have hcreate := dspqueueCreate_returns hreq hresp
  refine ⟨_, hcreate.result, hcreate.events, rfl, rfl, rfl, fun r hr => ?_, ?_, fun r hr => ?_⟩
  · have hplace := List.mem_cons_of_mem Layout.header hr
    rw [layout_regions] at hplace
    exact Nat.mod_eq_zero_of_dvd (place_aligned (dvd_zero queueCacheAlign) r hplace)
  · rw [layout_regions]
    exact place_disjoint (by decide)
  · rw [layout_regions] at hr
    have hle := (place_bounds (by decide) r hr).2
    rwa [Nat.zero_add] at hle

/-- The smallest queue for requests, and the default for responses. -/
theorem queue_layout_smallest :
    ∃ l, (dspqueueCreate 1 0).result = .ok l ∧
      (∀ e ∈ (dspqueueCreate 1 0).trace, e.1 + e.2 < 2 ^ 32) ∧
      l.o = l.userQueueSize ∧
      l.reqQueue.queueLength = requestSize 1 ∧ l.respQueue.queueLength = responseSize 0 ∧
      (∀ r ∈ l.regions, r.offset % 256 = 0) ∧
      (Layout.header :: l.regions).Pairwise Region.Disjoint ∧
      ∀ r ∈ Layout.header :: l.regions, r.Inside l.userQueueSize :=
  queue_layout (by decide) (by decide)

end FastRpc.QueueLayout
