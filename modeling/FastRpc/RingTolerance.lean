import FastRpc.RingRefinement
import FastRpc.RingTrace

/-! # The ring code and an untrusted peer

One side of a ring keeps its own position, a multiple of `8` inside the ring (`OwnSide`).  The bytes
of the ring and the position of the peer are whatever they are.

A write call is safe in any case (`writeSafe_writeRing`).  A read call is not: when the caller passes no
buffer area, the buffer references of a packet are skipped without a test against the end of the
ring, and a message area then gets bytes from behind it (`PacketOverruns`); and an early wakeup packet
without a delay in the last `8` bytes leaves the position at the end of the ring, where the poll behind
it reads a header (`PollOverruns`).  `peer_tolerated` says that nothing else goes wrong. -/

namespace FastRpc.RingTrace

open ByteStore FramedRing Traced

/-- The ring length and the own position of one side; the position of its peer is any word. -/
structure OwnSide (Q own peer : ℕ) : Prop where
  sixteen_le : 16 ≤ Q
  length_lt : Q < 2 ^ 32
  ring_mod : Q % 8 = 0
  own_mod : own % 8 = 0
  own_lt : own < Q
  peer_lt : peer < 2 ^ 32

/-- What a call may do to a ring of `Q` bytes. -/
structure Touch.Tolerable (Q : ℕ) (e : Touch) : Prop where
  inside : e.Inside Q
  fits : e.Fits
  advances : e.Advances Q

namespace Touch

variable {Q pos len room : ℕ}

theorem tolerable_load (h : pos + len ≤ Q) (hroom : len ≤ room) :
    (load pos len room).Tolerable Q := ⟨h, hroom, trivial⟩

theorem tolerable_store (h : pos + len ≤ Q) : (store pos len).Tolerable Q := ⟨h, trivial, trivial⟩

theorem tolerable_advance (hmod : pos % 8 = 0) (h : pos ≤ Q) : (advance pos).Tolerable Q :=
  ⟨trivial, trivial, hmod, h⟩

theorem tolerable_freeSub (a b : ℕ) : (freeSub a b).Tolerable Q := ⟨trivial, trivial, trivial⟩

end Touch

/-! ### Writing -/

/-- What a write does: also its subtractions are exact. -/
def Touch.Sound (Q : ℕ) (e : Touch) : Prop := e.Tolerable Q ∧ e.Exact

/-- A write call does what it may, and no assertion fails unless the position of the reader is none. -/
abbrev WriteSafe (q : Queue) {α : Type} (m : Ring α) : Prop :=
  Ensures (Touch.Sound q.queueLength)
    (fun x => x = .assertion → q.readState.position % 8 ≠ 0) m

section Writing

variable {q : Queue} {m : Store} {w : ℕ}

theorem writeSafe_verifyC (c : Bool) (code : AEEResult) : WriteSafe q (lift (verifyC c code)) := by
  refine ensures_lift.mpr fun e he => ?_
  cases c with
  | true => cases he
  | false => cases he; exact nofun

theorem writeSafe_cAssert {p : Prop} [Decidable p] (h : p) : WriteSafe q (lift (cAssert p)) := by
  rw [cAssert_pos h]
  exact ensures_lift.mpr nofun

theorem writeSafe_freeSub {a b : ℕ} (h : b ≤ a) : WriteSafe q (freeSub a b) :=
  ensures_bind.mpr ⟨ensures_emit.mpr ⟨Touch.tolerable_freeSub a b, h⟩, fun _ _ => ensures_pure _⟩

theorem writeSafe_store {pos len : ℕ} (h : pos + len ≤ q.queueLength) :
    WriteSafe q (emit (.store pos len)) :=
  ensures_emit.mpr ⟨Touch.tolerable_store h, trivial⟩

theorem writeSafe_spaceLeft (h : OwnSide q.queueLength q.writeState.position q.readState.position)
    (hr : q.readState.position % 8 = 0) :
    WriteSafe q (spaceLeft q.queueLength q.readState.position q.writeState.position) := by
  obtain ⟨h16, hQ, hQ8, hw8, hw, hr32⟩ := h
  have hsub : subU32 q.queueLength q.writeState.position =
      q.queueLength - q.writeState.position := subU32_of_le (by omega) hQ
  unfold spaceLeft
  split_ifs with heq hlt
  · exact writeSafe_freeSub (by omega)
  · refine ensures_bind.mpr ⟨writeSafe_freeSub (by omega), fun a ha => ?_⟩
    obtain rfl := Except.ok.inj ha
    rw [hsub, addU32_of_lt (by omega)]
    exact writeSafe_freeSub (by omega)
  · refine ensures_bind.mpr ⟨writeSafe_freeSub (by omega), fun a ha => ?_⟩
    obtain rfl := Except.ok.inj ha
    rw [subU32_of_le (by omega) hr32]
    exact writeSafe_freeSub (by omega)

/-- The free space is a multiple of `8`, whatever multiple of `8` the reader's position is. -/
theorem spaceLeft_mod (h : OwnSide q.queueLength q.writeState.position q.readState.position)
    (hr : q.readState.position % 8 = 0) {a : ℕ}
    (ha : (spaceLeft q.queueLength q.readState.position q.writeState.position).result = .ok a) :
    a % 8 = 0 := by
  obtain ⟨h16, hQ, hQ8, hw8, hw, hr32⟩ := h
  rw [spaceLeft_result] at ha
  obtain rfl := Except.ok.inj ha
  simp only [subU32, addU32]
  split_ifs <;> omega

theorem writeSafe_getQueueStateWrite
    (h : OwnSide q.queueLength q.writeState.position q.readState.position) :
    WriteSafe q (getQueueStateWrite q) := by
  unfold getQueueStateWrite
  refine ensures_bind.mpr ⟨ensures_lift.mpr fun e he hassert hr => ?_, fun _ hmod => ?_⟩
  · rw [cAssert_pos ⟨hr, h.own_mod⟩] at he
    cases he
  rw [result_lift, cAssert_eq_ok, decide_eq_true_eq] at hmod
  refine ensures_bind.mpr ⟨writeSafe_spaceLeft h hmod.1, fun a ha => ?_⟩
  refine ensures_bind.mpr ⟨writeSafe_cAssert (spaceLeft_mod h hmod.1 ha), fun _ _ => ?_⟩
  exact ensures_pure _

theorem getQueueStateWrite_position {a : ℕ × ℕ} (h : FastRpc.getQueueStateWrite q = .ok a) :
    a.2 = q.writeState.position := by
  obtain ⟨_, _, h⟩ := bind_eq_ok.mp h
  obtain ⟨_, _, h⟩ := bind_eq_ok.mp h
  obtain rfl := Except.ok.inj h
  rfl

theorem writeSafe_reserve (h : OwnSide q.queueLength q.writeState.position q.readState.position)
    (len : ℕ) : WriteSafe q (reserve q len) := by
  have h16 := h.sixteen_le
  have hw := h.own_lt
  unfold reserve
  refine ensures_bind.mpr ⟨writeSafe_freeSub (by omega), fun _ _ => ?_⟩
  refine ensures_bind.mpr ⟨writeSafe_verifyC _ _, fun _ _ => ?_⟩
  refine ensures_bind.mpr ⟨writeSafe_verifyC _ _, fun _ _ => ?_⟩
  refine ensures_bind.mpr ⟨writeSafe_getQueueStateWrite h, fun a ha => ?_⟩
  have hpos := getQueueStateWrite_position ((getQueueStateWrite_result q).symm.trans ha)
  refine ensures_bind.mpr ⟨writeSafe_verifyC _ _, fun _ hleft => ?_⟩
  rw [result_lift, verifyC_eq_ok, decide_eq_true_eq] at hleft
  refine ensures_bind.mpr ⟨writeSafe_freeSub (by omega), fun behind _ => ?_⟩
  split_ifs with hwrap
  · refine ensures_bind.mpr ⟨writeSafe_freeSub (by omega), fun _ _ => ?_⟩
    exact ensures_bind.mpr ⟨writeSafe_verifyC _ _, fun _ _ => ensures_pure _⟩
  · exact ensures_pure _

/-- Where the packet goes: it lies in one piece behind the write position or at the beginning. -/
theorem reserve_fits (h : OwnSide q.queueLength q.writeState.position q.readState.position)
    {len : ℕ} {x : ℕ × Bool} (hlen : len + 7 < 2 ^ 32) (hx : FastRpc.reserve q len = .ok x) :
    x.1 = q.writeState.position ∧
      if x.2 then alignUp 8 len ≤ q.queueLength
      else q.writeState.position + alignUp 8 len ≤ q.queueLength := by
  obtain ⟨h16, hQ, hQ8, hw8, hw, hr32⟩ := h
  rw [FastRpc.reserve, align8_of_lt hlen] at hx
  obtain ⟨_, hsize, hx⟩ := bind_eq_ok.mp hx
  obtain ⟨_, _, hx⟩ := bind_eq_ok.mp hx
  obtain ⟨a, ha, hx⟩ := bind_eq_ok.mp hx
  have hpos := getQueueStateWrite_position ha
  obtain ⟨_, _, hx⟩ := bind_eq_ok.mp hx
  rw [verifyC_eq_ok, decide_eq_true_eq, subU32_of_le (by omega) hQ] at hsize
  rw [hpos, subU32_of_le (by omega) hQ] at hx
  split_ifs at hx with hwrap
  · obtain ⟨_, _, hx⟩ := bind_eq_ok.mp hx
    obtain rfl := Except.ok.inj hx
    exact ⟨rfl, by simp only [if_true]; omega⟩
  · obtain rfl := Except.ok.inj hx
    exact ⟨rfl, by simp only [Bool.false_eq_true, if_false]; omega⟩

theorem writeSafe_writePart {data : List UInt8} (hQ : q.queueLength < 2 ^ 32) (hw : w % 8 = 0)
    (hfit : w + alignUp 8 data.length ≤ q.queueLength) :
    WriteSafe q (writePart m (wrapPos q.queueLength w) q.queueLength data) := by
  have hle := le_alignUp_eight data.length
  unfold writePart
  split_ifs with hpos
  · have hal : align8 data.length = alignUp 8 data.length := by
      rcases Nat.lt_or_ge (data.length + 7) (2 ^ 32) with h | h
      · exact align8_of_lt h
      · rw [alignUp_eight] at hfit; omega
    rw [wrapPos_of_lt (by omega)]
    unfold writeData
    refine ensures_bind.mpr ⟨writeSafe_cAssert hpos, fun _ _ => ?_⟩
    refine ensures_bind.mpr ⟨writeSafe_cAssert hw, fun _ _ => ?_⟩
    refine ensures_bind.mpr ⟨writeSafe_cAssert ?_, fun _ _ => ?_⟩
    · rw [subU32_of_le (by omega) hQ]
      omega
    refine ensures_bind.mpr ⟨writeSafe_store (by omega), fun _ _ => ?_⟩
    refine ensures_bind.mpr ⟨writeSafe_cAssert ?_, fun _ _ => ensures_pure _⟩
    rw [hal, addU32_of_lt (by omega)]
    exact hfit
  · exact ensures_pure _

theorem writeSafe_writeBody {a : ℕ} {hdr : List UInt8} {bs : List Buffer} {msg : List UInt8}
    (hQ : q.queueLength < 2 ^ 32) (ha : a % 8 = 0)
    (hfit : a + alignUp 8 (packetLength bs.length msg.length) ≤ q.queueLength) :
    WriteSafe q (writeBody (write m a hdr) (wrapPos q.queueLength (a + 8)) q.queueLength bs msg) := by
  have hnb : alignUp 8 (encodeBuffers bs).length = (encodeBuffers bs).length := by
    rw [alignUp_eight, encodeBuffers_length]; omega
  have hspan : alignUp 8 (packetLength bs.length msg.length) =
      8 + (encodeBuffers bs).length + alignUp 8 msg.length := by
    simp only [packetLength, encodeBuffers_length, alignUp_eight]; omega
  have hmod := alignUp_eight_mod (encodeBuffers bs).length
  unfold writeBody
  refine ensures_bind.mpr ⟨writeSafe_writePart hQ (by omega) (by omega), fun x hx => ?_⟩
  rw [writePart_result, writePart_eq hQ (by omega) (by omega)] at hx
  obtain rfl := Except.ok.inj hx
  exact writeSafe_writePart hQ (by omega) (by omega)

/-- A packet that lies inside the ring, together with its repeated header. -/
theorem writeSafe_writePacket {wrap : Bool} {phdr : ℕ} {bs : List Buffer} {msg : List UInt8}
    (hQ : q.queueLength < 2 ^ 32) (hw8 : w % 8 = 0) (hw : w + 8 ≤ q.queueLength)
    (hfit : if wrap then alignUp 8 (packetLength bs.length msg.length) ≤ q.queueLength
      else w + alignUp 8 (packetLength bs.length msg.length) ≤ q.queueLength) :
    WriteSafe q (writePacket m w q.queueLength wrap phdr bs msg) := by
  unfold writePacket write64
  simp only [write64_eq hQ hw]
  refine ensures_bind.mpr ⟨ensures_bind.mpr ⟨writeSafe_store hw, fun _ _ => ensures_pure _⟩, ?_⟩
  rintro x hx
  obtain rfl := Except.ok.inj hx
  cases wrap with
  | false =>
      refine ensures_bind.mpr ⟨ensures_pure _, fun y hy => ?_⟩
      obtain rfl := Except.ok.inj hy
      exact writeSafe_writeBody hQ hw8 hfit
  | true =>
      have h8 : 0 + 8 ≤ q.queueLength := by omega
      simp only [write64_eq hQ h8]
      refine ensures_bind.mpr ⟨ensures_bind.mpr ⟨writeSafe_store h8, fun _ _ => ensures_pure _⟩, ?_⟩
      rintro y hy
      obtain rfl := Except.ok.inj hy
      exact writeSafe_writeBody hQ (Nat.zero_mod 8) (by rw [Nat.zero_add]; exact hfit)

/-- The write position after a packet. -/
theorem writePacket_position {wrap : Bool} {phdr : ℕ} {bs : List Buffer} {msg : List UInt8}
    {x : Store × ℕ} (hQ : q.queueLength < 2 ^ 32) (hw8 : w % 8 = 0) (hw : w + 8 ≤ q.queueLength)
    (hfit : if wrap then alignUp 8 (packetLength bs.length msg.length) ≤ q.queueLength
      else w + alignUp 8 (packetLength bs.length msg.length) ≤ q.queueLength)
    (hx : FastRpc.writePacket m w q.queueLength wrap phdr bs msg = .ok x) :
    x.2 % 8 = 0 ∧ x.2 < q.queueLength := by
  have hmod := alignUp_eight_mod (packetLength bs.length msg.length)
  have hQ0 : 0 < q.queueLength := by omega
  cases wrap with
  | false =>
      rw [writePacket_inline hQ hw8 hfit] at hx
      obtain rfl := Except.ok.inj hx
      exact ⟨wrapPos_mod (by omega), wrapPos_lt _ hQ0⟩
  | true =>
      rw [writePacket_wrapped hQ hw hfit] at hx
      obtain rfl := Except.ok.inj hx
      exact ⟨wrapPos_mod hmod, wrapPos_lt _ hQ0⟩

theorem refBuffer_ne_assertion (bufferRef : BufferRef) (b : Buffer) :
    refBuffer bufferRef b ≠ .error .assertion := by
  unfold refBuffer
  cases b.isRef with
  | true =>
      cases b.isDeref with
      | true => intro h; cases h
      | false => cases hb : bufferRef b.fd 1 <;> simp [hb, throw, throwThe, MonadExceptOf.throw]
  | false =>
      cases b.isDeref with
      | true => cases hb : bufferRef b.fd (-1) <;> simp [hb, throw, throwThe, MonadExceptOf.throw]
      | false => cases hb : bufferRef b.fd 0 <;> simp [hb, throw, throwThe, MonadExceptOf.throw]

theorem writeRefs_ne_assertion (bufferRef : BufferRef) (bs : List Buffer) :
    writeRefs bufferRef bs ≠ .error .assertion := by
  induction bs with
  | nil => exact nofun
  | cons b bs ih =>
      unfold writeRefs
      cases href : refBuffer bufferRef b with
      | error e =>
          rintro h
          cases h
          exact refBuffer_ne_assertion bufferRef b href
      | ok x =>
          rw [ok_bind]
          simp only
          split_ifs
          · cases hc : decide (b.offset.toNat + b.size.toNat ≤ x.2) with
            | false => exact nofun
            | true => exact ih
          · cases hc : decide (b.offset = 0) with
            | false => exact nofun
            | true => exact ih

/-- **A write call** does what it may, whatever its peer has left in the ring. -/
theorem writeSafe_writeRing
    (h : OwnSide q.queueLength q.writeState.position q.readState.position)
    (bufferRef : BufferRef) (flags : ℕ) (buffers : List Buffer) (message : List UInt8) :
    WriteSafe q (writeRing bufferRef q flags buffers message) := by
  have hQ := h.length_lt
  have h8 : q.writeState.position + 8 ≤ q.queueLength := by
    have := h.ring_mod; have := h.own_mod; have := h.own_lt; omega
  unfold writeRing
  refine ensures_bind.mpr ⟨writeSafe_verifyC _ _, fun _ hb => ?_⟩
  refine ensures_bind.mpr ⟨writeSafe_verifyC _ _, fun _ hm => ?_⟩
  rw [result_lift, verifyC_eq_ok, decide_eq_true_eq] at hb hm
  refine ensures_bind.mpr ⟨writeSafe_reserve h _, fun x hx => ?_⟩
  have hlen : packetLength buffers.length message.length + 7 < 2 ^ 32 := by
    simp only [maxBuffers, maxMessageSize] at hb hm
    simp only [packetLength]
    omega
  obtain ⟨hpos, hfit⟩ := reserve_fits h hlen ((reserve_result q _).symm.trans hx)
  refine ensures_bind.mpr ⟨ensures_lift.mpr fun e he hassert => ?_, fun _ _ => ?_⟩
  · rw [hassert] at he
    exact absurd he (writeRefs_ne_assertion bufferRef buffers)
  rw [hpos]
  refine ensures_bind.mpr ⟨writeSafe_writePacket hQ h.own_mod h8 hfit, fun y hy => ?_⟩
  rw [writePacket_result] at hy
  obtain ⟨hmod, hlt⟩ := writePacket_position hQ h.own_mod h8 hfit hy
  refine ensures_bind.mpr ⟨ensures_emit.mpr ?_, fun _ _ => ensures_pure _⟩
  exact ⟨Touch.tolerable_advance hmod (by omega), trivial⟩

end Writing

/-! ### Reading -/

/-- A read call does what it may. -/
abbrev ReadSafe (Q : ℕ) {α : Type} (m : Ring α) : Prop :=
  Ensures (Touch.Tolerable Q) (fun _ => True) m

/-- The packet with header `h` runs over the end of the ring: its buffer references are skipped past
the end, and then its message is copied. -/
def PacketOverruns (Q w : ℕ) (args : ReadArgs) (h : Header) : Prop :=
  args.buffers = none ∧ (∃ max, args.message = some max ∧ h.messageLength ≤ max) ∧
    0 < h.messageLength ∧ h.numBuffers ≤ maxBuffers ∧ h.flags.testBit flagUserReady = true ∧
    Q < 8 + h.numBuffers * 24 ∧ 8 + h.numBuffers * 24 + h.messageLength ≤ subU32 w Q

section Reading

variable {q : Queue} {args : ReadArgs} {m : Store} {Q r w n room skip : ℕ} {h : Header}

theorem readSafe_lift_bind {α β : Type} {x : Except Fault α} {f : α → Ring β} :
    ReadSafe Q (lift x >>= f) ↔ ∀ a, x = .ok a → ReadSafe Q (f a) :=
  ensures_lift_bind.trans (and_iff_right fun _ _ => trivial)

/-- Behind the end of the ring the test of `read_data` passes, up to the wrap of the subtraction. -/
theorem readSafe_readData (hQ : Q < 2 ^ 32) (hr8 : r % 8 = 0) (hn : 0 < n) {room : ℕ}
    (hroom : n ≤ room) :
    ReadSafe Q (readData m r Q n room) ↔ ¬ (Q < r ∧ n ≤ subU32 Q r) := by
  unfold readData
  constructor
  · rintro hsafe ⟨hr, hlen⟩
    replace hsafe := readSafe_lift_bind.mp hsafe () (cAssert_pos hn)
    replace hsafe := readSafe_lift_bind.mp hsafe () (cAssert_pos hr8)
    replace hsafe := readSafe_lift_bind.mp hsafe () (cAssert_pos hlen)
    have hin : r + n ≤ Q := (ensures_emit.mp (ensures_bind.mp hsafe).1).inside
    omega
  · intro hno
    refine readSafe_lift_bind.mpr fun _ _ => ?_
    refine readSafe_lift_bind.mpr fun _ _ => ?_
    refine readSafe_lift_bind.mpr fun _ hlen => ?_
    rw [cAssert_eq_ok, decide_eq_true_eq] at hlen
    have hr : r ≤ Q := Nat.le_of_not_lt fun hr => hno ⟨hr, hlen⟩
    rw [subU32_of_le hr hQ] at hlen
    refine ensures_bind.mpr ⟨ensures_emit.mpr (Touch.tolerable_load (by omega) hroom), ?_⟩
    exact fun _ _ => readSafe_lift_bind.mpr fun _ _ => ensures_pure _

theorem readSafe_readArea {α : Type} {area : Option ℕ} {size : ℕ} {decode : List UInt8 → α}
    (hQ : Q < 2 ^ 32) (hr8 : r % 8 = 0) (hroom : ∀ max, area = some max → n ≤ max * size) :
    ReadSafe Q (readArea area size m r Q n skip decode) ↔
      ¬ (area ≠ none ∧ 0 < n ∧ Q < r ∧ n ≤ subU32 Q r) := by
  unfold readArea
  by_cases hn : 0 < n
  · rw [if_pos hn]
    cases area with
    | none => exact iff_of_true (ensures_pure _) fun h => h.1 rfl
    | some max =>
        have hdata := readSafe_readData (m := m) hQ hr8 hn (hroom max rfl)
        refine Iff.trans ⟨fun h => (ensures_bind.mp h).1, fun h => ?_⟩ (hdata.trans ?_)
        · exact ensures_bind.mpr ⟨h, fun _ _ => ensures_pure _⟩
        · exact not_congr ⟨fun h => ⟨nofun, hn, h⟩, fun h => h.2.2⟩
  · rw [if_neg hn]
    exact iff_of_true (ensures_pure _) fun h => hn h.2.1

theorem readArea_none {α : Type} {decode : List UInt8 → α} (hn : 0 < n) :
    FastRpc.readArea none m r Q n skip decode = .ok (none, addU32 r skip) := if_pos hn

theorem readData_position {x : List UInt8 × ℕ} (hx : FastRpc.readData m r Q n = .ok x) :
    x.2 % 8 = 0 ∧ x.2 ≤ Q := by
  obtain ⟨_, _, hx⟩ := bind_eq_ok.mp hx
  obtain ⟨_, hr8, hx⟩ := bind_eq_ok.mp hx
  obtain ⟨_, _, hx⟩ := bind_eq_ok.mp hx
  obtain ⟨_, hend, hx⟩ := bind_eq_ok.mp hx
  obtain rfl := Except.ok.inj hx
  rw [cAssert_eq_ok, decide_eq_true_eq] at hr8 hend
  have hmod : addU32 r (align8 n) % 8 = 0 := by simp only [align8, addU32]; omega
  exact ⟨wrapPos_mod hmod, wrapPos_le hend⟩

theorem readArea_mod {α : Type} {area : Option ℕ} {decode : List UInt8 → α} {x : Option α × ℕ}
    (hr8 : r % 8 = 0) (hskip : skip % 8 = 0)
    (hx : FastRpc.readArea area m r Q n skip decode = .ok x) : x.2 % 8 = 0 := by
  unfold FastRpc.readArea at hx
  split_ifs at hx
  · cases area with
    | none =>
        obtain rfl := Except.ok.inj hx
        simp only [addU32]
        omega
    | some max =>
        obtain ⟨y, hy, hx⟩ := bind_eq_ok.mp hx
        obtain rfl := Except.ok.inj hx
        exact (readData_position hy).1
  · obtain rfl := Except.ok.inj hx
    exact hr8

/-- The position behind the buffer references, which nothing tests when they are skipped. -/
theorem readArea_position {α : Type} {area : Option ℕ} {decode : List UInt8 → α} {x : Option α × ℕ}
    (hr : r ≤ Q) (hlt : r + n < 2 ^ 32) (hx : FastRpc.readArea area m r Q n n decode = .ok x) :
    x.2 ≤ Q ∨ (area = none ∧ x.2 = r + n) := by
  unfold FastRpc.readArea at hx
  split_ifs at hx
  · cases area with
    | none =>
        obtain rfl := Except.ok.inj hx
        exact .inr ⟨rfl, addU32_of_lt hlt⟩
    | some max =>
        obtain ⟨y, hy, hx⟩ := bind_eq_ok.mp hx
        obtain rfl := Except.ok.inj hx
        exact .inl (readData_position hy).2
  · obtain rfl := Except.ok.inj hx
    exact .inl hr

/-- The copies of a packet behind a header that ends at `r` go wrong exactly when the buffer
references are skipped past the end and a message is copied. -/
theorem readSafe_readBody (hQ : q.queueLength < 2 ^ 32) (hr : r ≤ q.queueLength) (hr8 : r % 8 = 0)
    (hlt : r + h.numBuffers * 24 < 2 ^ 32)
    (hbuf : ∀ max, args.buffers = some max → h.numBuffers ≤ max)
    (hmsg : ∀ max, args.message = some max → h.messageLength ≤ max) :
    ReadSafe q.queueLength (readBody q args r h) ↔
      ¬ (args.buffers = none ∧ args.message ≠ none ∧ 0 < h.messageLength ∧
        q.queueLength < r + h.numBuffers * 24 ∧
        h.messageLength ≤ subU32 q.queueLength (r + h.numBuffers * 24)) := by
  have hroom : ∀ max, args.message = some max → h.messageLength ≤ max * 1 := fun max hmax => by
    rw [Nat.mul_one]; exact hmsg max hmax
  unfold readBody
  constructor
  · rintro hsafe ⟨hnone, hsome, hml, hend, hlen⟩
    have hnb : 0 < h.numBuffers * 24 := by omega
    have hskip := (readArea_result q.bytes args.buffers 24 r q.queueLength (h.numBuffers * 24)
      (h.numBuffers * 24) (decodeBuffers h.numBuffers)).trans
        ((congrArg (FastRpc.readArea · _ _ _ _ _ _) hnone).trans (readArea_none hnb))
    rw [addU32_of_lt hlt] at hskip
    -- the skip leaves the position behind the end, the copy of the message starts there
    replace hsafe := (ensures_bind.mp ((ensures_bind.mp hsafe).2 _ hskip)).1
    exact (readSafe_readArea hQ (by omega) hroom).mp hsafe ⟨hsome, hml, hend, hlen⟩
  · intro hno
    refine ensures_bind.mpr ⟨(readSafe_readArea hQ hr8 ?_).mpr fun hc => ?_, fun x hx => ?_⟩
    · exact fun max hmax => Nat.mul_le_mul_right 24 (hbuf max hmax)
    · exact absurd hc.2.2.1 (Nat.not_lt.mpr hr)
    rw [readArea_result] at hx
    have hx8 := readArea_mod hr8 (by omega) hx
    refine ensures_bind.mpr ⟨(readSafe_readArea hQ hx8 hroom).mpr fun hc => hno ?_, fun y hy => ?_⟩
    · obtain ⟨hsome, hml, hend, hlen⟩ := hc
      rcases readArea_position hr hlt hx with hxle | ⟨hnone, hxr⟩
      · exact absurd hend (Nat.not_lt.mpr hxle)
      · rw [hxr] at hend hlen
        exact ⟨hnone, hsome, hml, hend, hlen⟩
    · rw [readArea_result] at hy
      have hy8 := readArea_mod hx8 (by simp only [align8]; omega) hy
      refine readSafe_lift_bind.mpr fun _ hend => ?_
      rw [cAssert_eq_ok, decide_eq_true_eq] at hend
      exact ensures_bind.mpr ⟨ensures_emit.mpr
        (Touch.tolerable_advance (wrapPos_mod hy8) (wrapPos_le hend)), fun _ _ => ensures_pure _⟩

/-- What `peek_locked` makes of the word of a header. -/
theorem peekLocked_header (hx : FastRpc.peekLocked m r = .ok h) :
    (0 < h.numBuffers → h.flags.testBit flagBuffers = true) ∧
      (0 < h.messageLength → h.flags.testBit flagMessage = true) ∧
      8 + h.numBuffers * 24 + h.messageLength < 2 ^ 32 := by
  unfold FastRpc.peekLocked at hx
  obtain ⟨_, hlen, hx⟩ := bind_eq_ok.mp hx
  obtain rfl := Except.ok.inj hx
  rw [verifyC_eq_ok, decide_eq_true_eq] at hlen
  refine ⟨fun hnb => ?_, fun hml => ?_, ?_⟩
  · by_contra hno
    dsimp only at hno hnb
    rw [if_neg hno] at hnb
    exact lt_irrefl 0 hnb
  · by_contra hno
    dsimp only at hno hml
    rw [if_neg hno] at hml
    exact lt_irrefl 0 hml
  · dsimp only at hlen ⊢
    have := Nat.mod_lt (ofLe (slice m r 8)) (show 0 < 2 ^ 32 by norm_num)
    split_ifs at hlen ⊢ <;> omega

/-- The data left behind the read position. -/
theorem getQueueStateRead_eq_ok {x : ℕ × ℕ} (hown : OwnSide q.queueLength q.readState.position
    q.writeState.position) (hx : FastRpc.getQueueStateRead q = .ok x) :
    q.writeState.position % 8 = 0 ∧ x.2 = q.readState.position ∧
      x.1 = if q.readState.position ≤ q.writeState.position then
          q.writeState.position - q.readState.position
        else q.queueLength - q.readState.position + q.writeState.position := by
  obtain ⟨h16, hQ, hQ8, hr8, hr, hw⟩ := hown
  unfold FastRpc.getQueueStateRead at hx
  obtain ⟨_, hmod, hx⟩ := bind_eq_ok.mp hx
  obtain ⟨_, _, hx⟩ := bind_eq_ok.mp hx
  obtain rfl := Except.ok.inj hx
  rw [cAssert_eq_ok, decide_eq_true_eq] at hmod
  refine ⟨hmod.2, rfl, ?_⟩
  simp only [subU32, addU32]
  split_ifs <;> omega

theorem skipHeader_eq_ok {qleft len x : ℕ} (hQ : Q < 2 ^ 32) (hr : r + 8 ≤ Q) :
    skipHeader Q qleft r len = .ok x ↔
      (Q - r < len ∧ len ≤ subU32 qleft (Q - r) ∧ x = 8) ∨ (len ≤ Q - r ∧ x = r + 8) := by
  have hsub : subU32 Q r = Q - r := subU32_of_le (by omega) hQ
  have hadd : addU32 r 8 = r + 8 := addU32_of_lt (by omega)
  unfold skipHeader
  rw [hsub, hadd]
  by_cases hwrap : Q - r < len
  · rw [if_pos hwrap, bind_eq_ok]
    constructor
    · rintro ⟨_, hlen, hx⟩
      rw [cAssert_eq_ok, decide_eq_true_eq] at hlen
      exact .inl ⟨hwrap, hlen, (Except.ok.inj hx).symm⟩
    · rintro (⟨_, hlen, rfl⟩ | ⟨hfit, _⟩)
      · exact ⟨(), cAssert_pos hlen, rfl⟩
      · omega
  · rw [if_neg hwrap]
    constructor
    · intro hx
      exact .inr ⟨by omega, (Except.ok.inj hx).symm⟩
    · rintro (⟨hno, _⟩ | ⟨_, rfl⟩)
      · omega
      · rfl

theorem fitsArea_eq_true {area : Option ℕ} :
    fitsArea area n = true ↔ ∀ max, area = some max → n ≤ max := by
  cases area with
  | none => simp [fitsArea]
  | some max => simp [fitsArea]

/-- The test of an output area is made when the packet has such a part. -/
theorem checkArea_eq_ok {area : Option ℕ} {f : ℕ} {bit : ℕ} {code : AEEResult} {u : Unit}
    (hflag : 0 < n → f.testBit bit = true) :
    verifyC (!f.testBit bit || fitsArea area n) code = .ok u ↔ fitsArea area n = true := by
  rw [verifyC_eq_ok]
  cases hbit : f.testBit bit with
  | true => simp
  | false =>
      have hn : n = 0 := by
        by_contra hne
        rw [hflag (Nat.pos_of_ne_zero hne)] at hbit
        cases hbit
      subst hn
      cases area <;> simp [fitsArea]

/-- A packet is copied as it may exactly when it does not run over. -/
theorem readSafe_readPacket {qleft : ℕ}
    (hown : OwnSide q.queueLength q.readState.position q.writeState.position)
    (hstate : FastRpc.getQueueStateRead q = .ok (qleft, r)) (hleft : 8 ≤ qleft)
    (hpeek : FastRpc.peekLocked q.bytes r = .ok h) :
    ReadSafe q.queueLength (readPacket q args qleft r h) ↔
      ¬ (r < q.writeState.position ∧ PacketOverruns q.queueLength q.writeState.position args h) := by
  obtain ⟨hw8, hr, hqleft⟩ := getQueueStateRead_eq_ok hown hstate
  obtain ⟨hflagB, hflagM, hlen⟩ := peekLocked_header hpeek
  obtain ⟨h16, hQ, hQ8, hr8, hrQ, hw⟩ := hown
  dsimp only at hr hqleft
  subst hr
  have hadd : addU32 (8 + h.numBuffers * 24) h.messageLength =
      8 + h.numBuffers * 24 + h.messageLength := addU32_of_lt hlen
  have hhead : q.readState.position + 8 ≤ q.queueLength := by omega
  unfold readPacket
  rw [hadd]
  constructor
  · rintro hsafe ⟨hlt, hnone, ⟨max, hmax, hml⟩, hpos, hnb, hready, hend, htotal⟩
    rw [if_pos hlt.le] at hqleft
    replace hsafe := readSafe_lift_bind.mp hsafe ()
      ((checkArea_eq_ok hflagB).mpr (by simp [hnone, fitsArea]))
    replace hsafe := readSafe_lift_bind.mp hsafe () (by simpa using hnb)
    replace hsafe := readSafe_lift_bind.mp hsafe ()
      ((checkArea_eq_ok hflagM).mpr (by simpa [hmax, fitsArea] using hml))
    have hskip : q.queueLength - q.readState.position < 8 + h.numBuffers * 24 + h.messageLength := by
      omega
    have hsub : subU32 qleft (q.queueLength - q.readState.position) =
        subU32 q.writeState.position q.queueLength := by
      simp only [subU32]
      omega
    replace hsafe := readSafe_lift_bind.mp hsafe 8
      ((skipHeader_eq_ok hQ hhead).mpr (.inl ⟨hskip, hsub ▸ htotal, rfl⟩))
    replace hsafe := readSafe_lift_bind.mp hsafe () (by simpa using hready)
    refine (readSafe_readBody hQ (by omega) (by norm_num) (by omega) ?_ ?_).mp hsafe
      ⟨hnone, ?_, hpos, hend, ?_⟩
    · simp [hnone]
    · intro max' hmax'
      rw [hmax] at hmax'
      obtain rfl := Option.some.inj hmax'
      exact hml
    · simp [hmax]
    · simp only [maxBuffers] at hnb
      simp only [subU32] at htotal ⊢
      omega
  · intro hno
    refine readSafe_lift_bind.mpr fun _ hbuf => readSafe_lift_bind.mpr fun _ hnb => ?_
    refine readSafe_lift_bind.mpr fun _ hmsg => readSafe_lift_bind.mpr fun r' hskip => ?_
    refine readSafe_lift_bind.mpr fun _ hready => ?_
    rw [checkArea_eq_ok hflagB, fitsArea_eq_true] at hbuf
    rw [checkArea_eq_ok hflagM, fitsArea_eq_true] at hmsg
    rw [verifyC_eq_ok] at hready
    rw [verifyC_eq_ok, decide_eq_true_eq] at hnb
    rcases (skipHeader_eq_ok hQ hhead).mp hskip with ⟨hwrap, htotal, rfl⟩ | ⟨hfit, rfl⟩
    · refine (readSafe_readBody hQ (by omega) (by norm_num) (by omega) hbuf hmsg).mpr ?_
      rintro ⟨hnone, hsome, hpos, hend, hover⟩
      obtain ⟨max, hmax⟩ := Option.ne_none_iff_exists'.mp hsome
      split_ifs at hqleft with hle
      · have hsub : subU32 qleft (q.queueLength - q.readState.position) =
            subU32 q.writeState.position q.queueLength := by
          simp only [subU32]
          omega
        exact hno ⟨by omega, hnone, ⟨max, hmax, hmsg max hmax⟩, hpos, hnb, hready, hend, hsub ▸ htotal⟩
      · simp only [subU32] at htotal
        omega
    · refine (readSafe_readBody hQ (by omega) (by omega) (by omega) hbuf hmsg).mpr ?_
      rintro ⟨hnone, hsome, hpos, hend, hover⟩
      omega

/-- A read of an early wakeup packet does what it may. -/
theorem readSafe_readWakeup {qleft : ℕ} (hQ : q.queueLength < 2 ^ 32) (h16 : 16 ≤ q.queueLength)
    (hr8 : r % 8 = 0) (hr : r + 8 ≤ q.queueLength) :
    ReadSafe q.queueLength (readWakeup q qleft r h) := by
  unfold readWakeup
  refine readSafe_lift_bind.mpr fun _ _ => readSafe_lift_bind.mpr fun r' hskip => ?_
  have hpos : r' % 8 = 0 ∧ r' ≤ q.queueLength := by
    rcases (skipHeader_eq_ok hQ hr).mp hskip with ⟨_, _, rfl⟩ | ⟨_, rfl⟩
    · exact ⟨rfl, by omega⟩
    · omega
  split_ifs
  · refine readSafe_lift_bind.mpr fun _ _ => ensures_bind.mpr ⟨?_, fun x hx => ?_⟩
    · exact (readSafe_readData hQ hpos.1 (by norm_num) le_rfl).mpr
        fun hover => absurd hover.1 (Nat.not_lt.mpr hpos.2)
    · rw [readData_result] at hx
      obtain ⟨hmod, hle⟩ := readData_position hx
      exact ensures_bind.mpr ⟨ensures_emit.mpr (Touch.tolerable_advance hmod hle),
        fun _ _ => ensures_pure _⟩
  · exact ensures_bind.mpr ⟨ensures_emit.mpr (Touch.tolerable_advance hpos.1 hpos.2),
      fun _ _ => ensures_pure _⟩

/-- Behind an early wakeup packet the ring is as before and the position at most at its end. -/
theorem readWakeup_position {qleft : ℕ} {x : Queue × ℕ} (hQ : q.queueLength < 2 ^ 32)
    (h16 : 16 ≤ q.queueLength) (hr8 : r % 8 = 0) (hr : r + 8 ≤ q.queueLength)
    (hx : FastRpc.readWakeup q qleft r h = .ok x) :
    x.1.queueLength = q.queueLength ∧ x.1.readState.position % 8 = 0 ∧
      x.1.readState.position ≤ q.queueLength := by
  unfold FastRpc.readWakeup at hx
  obtain ⟨_, _, hx⟩ := bind_eq_ok.mp hx
  obtain ⟨r', hskip, hx⟩ := bind_eq_ok.mp hx
  split_ifs at hx
  · obtain ⟨_, _, hx⟩ := bind_eq_ok.mp hx
    obtain ⟨y, hy, hx⟩ := bind_eq_ok.mp hx
    obtain rfl := Except.ok.inj hx
    exact ⟨rfl, readData_position hy⟩
  · obtain rfl := Except.ok.inj hx
    rcases (skipHeader_eq_ok hQ hr).mp hskip with ⟨_, _, rfl⟩ | ⟨_, rfl⟩
    · exact ⟨rfl, Nat.mod_self 8, by show 8 ≤ q.queueLength; omega⟩
    · exact ⟨rfl, by show (r + 8) % 8 = 0; omega, hr⟩

/-- The data left behind a read position that is at most at the end of the ring. -/
theorem getQueueStateRead_position {x : ℕ × ℕ} (hx : FastRpc.getQueueStateRead q = .ok x) :
    x.2 = q.readState.position := by
  unfold FastRpc.getQueueStateRead at hx
  obtain ⟨_, _, hx⟩ := bind_eq_ok.mp hx
  obtain ⟨_, _, hx⟩ := bind_eq_ok.mp hx
  obtain rfl := Except.ok.inj hx
  rfl

/-- The packet at the read position runs over. -/
def Queue.Overruns (q : Queue) (args : ReadArgs) : Prop :=
  q.readState.position < q.writeState.position ∧
    ∃ h, FastRpc.peekLocked q.bytes q.readState.position = .ok h ∧
      PacketOverruns q.queueLength q.writeState.position args h

/-- A poll finds data, and the packet runs over or the position is at the end of the ring. -/
def PollOverruns (q : Queue) (args : ReadArgs) : Prop :=
  (∃ x, FastRpc.getQueueStateRead q = .ok x ∧ 8 ≤ x.1) ∧
    (q.readState.position = q.queueLength ∨ Queue.Overruns q args)

theorem readSafe_readPoll (h16 : 16 ≤ q.queueLength) (hQ : q.queueLength < 2 ^ 32)
    (hQ8 : q.queueLength % 8 = 0) (hr8 : q.readState.position % 8 = 0)
    (hr : q.readState.position ≤ q.queueLength) (hw : q.writeState.position < 2 ^ 32) :
    ReadSafe q.queueLength (readPoll q args) ↔ ¬ PollOverruns q args := by
  unfold readPoll
  rw [readSafe_lift_bind]
  constructor
  · rintro hsafe ⟨⟨⟨qleft, r⟩, hstate, hleft⟩, hover⟩
    have hpos : r = q.readState.position := getQueueStateRead_position hstate
    subst hpos
    replace hsafe := hsafe _ hstate
    dsimp only at hsafe hleft
    rw [if_neg (Nat.not_lt.mpr hleft)] at hsafe
    obtain ⟨hpeekSafe, hrest⟩ := ensures_bind.mp hsafe
    have hin : q.readState.position + 8 ≤ q.queueLength :=
      (ensures_emit.mp (ensures_bind.mp hpeekSafe).1).inside
    rcases hover with hend | ⟨hlt, h, hpeek, hover⟩
    · omega
    · have hown : OwnSide q.queueLength q.readState.position q.writeState.position :=
        ⟨h16, hQ, hQ8, hr8, by omega, hw⟩
      exact (readSafe_readPacket hown hstate hleft hpeek).mp
        (ensures_bind.mp (hrest h ((peekLocked_result q.bytes _).trans hpeek))).1 ⟨hlt, hover⟩
  · rintro hno ⟨qleft, r⟩ hstate
    have hpos : r = q.readState.position := getQueueStateRead_position hstate
    subst hpos
    dsimp only
    split_ifs with hleft
    · exact ensures_pure _
    · have hleft : 8 ≤ qleft := by omega
      have hne : q.readState.position ≠ q.queueLength :=
        fun hend => hno ⟨⟨_, hstate, hleft⟩, .inl hend⟩
      have hown : OwnSide q.queueLength q.readState.position q.writeState.position :=
        ⟨h16, hQ, hQ8, hr8, by omega, hw⟩
      refine ensures_bind.mpr ⟨ensures_bind.mpr ⟨ensures_emit.mpr
        (Touch.tolerable_load (by omega) le_rfl), fun _ _ => ensures_lift.mpr fun _ _ => trivial⟩,
        fun h hpeek => ?_⟩
      rw [peekLocked_result] at hpeek
      refine ensures_bind.mpr ⟨(readSafe_readPacket hown hstate hleft hpeek).mpr fun hover => ?_,
        fun _ _ => ensures_pure _⟩
      exact hno ⟨⟨_, hstate, hleft⟩, .inr ⟨hover.1, h, hpeek, hover.2⟩⟩

/-- The first poll that finds data runs over. -/
def PollsOverrun (q : Queue) (args : ReadArgs) : List PeerView → Prop
  | [] => False
  | v :: later => PollOverruns (seen q v) args ∨
      ((∃ x, FastRpc.getQueueStateRead (seen q v) = .ok x ∧ x.1 < 8) ∧ PollsOverrun q args later)

/-- A poll that finds no data. -/
theorem readPoll_eq_none : FastRpc.readPoll q args = .ok none ↔
    ∃ x, FastRpc.getQueueStateRead q = .ok x ∧ x.1 < 8 := by
  unfold FastRpc.readPoll
  rw [bind_eq_ok]
  refine exists_congr fun ⟨qleft, r⟩ => and_congr_right fun _ => ?_
  dsimp only
  split_ifs with hleft
  · exact iff_of_true rfl hleft
  · refine iff_of_false (fun hx => ?_) hleft
    obtain ⟨_, _, hx⟩ := bind_eq_ok.mp hx
    obtain ⟨_, _, hx⟩ := bind_eq_ok.mp hx
    cases Except.ok.inj hx

theorem readSafe_readPolls (h16 : 16 ≤ q.queueLength) (hQ : q.queueLength < 2 ^ 32)
    (hQ8 : q.queueLength % 8 = 0) (hr8 : q.readState.position % 8 = 0)
    (hr : q.readState.position ≤ q.queueLength) (later : List PeerView) :
    ReadSafe q.queueLength (readPolls q args later) ↔ ¬ PollsOverrun q args later := by
  induction later with
  | nil => exact iff_of_true (ensures_pure _) not_false
  | cons v later ih =>
      have hpoll : ReadSafe (seen q v).queueLength (readPoll (seen q v) args) ↔
          ¬ PollOverruns (seen q v) args :=
        readSafe_readPoll h16 hQ hQ8 hr8 hr v.position.toNat_lt
      unfold readPolls
      rw [PollsOverrun, not_or]
      refine ensures_bind.trans (and_congr hpoll ⟨fun hrest hlater => ?_, fun hlater o ho => ?_⟩)
      · have hnone := (readPoll_result (seen q v) args).trans (readPoll_eq_none.mpr hlater.1)
        exact ih.mp (hrest none hnone) hlater.2
      · rw [readPoll_result] at ho
        cases o with
        | none => exact ih.mpr fun hover => hlater ⟨readPoll_eq_none.mp ho, hover⟩
        | some result => exact ensures_pure _

/-- The first packet of a read call runs over. -/
def StartOverruns (q : Queue) (args : ReadArgs) : Prop :=
  q.headerQueueCount = q.queueCount ∧ (∃ x, FastRpc.getQueueStateRead q = .ok x ∧ 8 ≤ x.1) ∧
    q.readState.position < q.writeState.position ∧
    ∃ h, FastRpc.peekLocked q.bytes q.readState.position = .ok h ∧
      h.flags.testBit flagWakeup = false ∧ PacketOverruns q.queueLength q.writeState.position args h

theorem readSafe_readStart (hown : OwnSide q.queueLength q.readState.position q.writeState.position) :
    ReadSafe q.queueLength (readStart q args) ↔ ¬ StartOverruns q args := by
  have hr : q.readState.position + 8 ≤ q.queueLength := by
    have := hown.ring_mod; have := hown.own_mod; have := hown.own_lt; omega
  unfold readStart
  constructor
  · rintro hsafe ⟨hcount, ⟨⟨qleft, r⟩, hstate, hleft⟩, hlt, h, hpeek, hflag, hover⟩
    have hpos : r = q.readState.position := getQueueStateRead_position hstate
    subst hpos
    replace hsafe := readSafe_lift_bind.mp hsafe () (by simpa using hcount)
    replace hsafe := readSafe_lift_bind.mp hsafe _ hstate
    replace hsafe := readSafe_lift_bind.mp hsafe () (by simpa using hleft)
    replace hsafe := (ensures_bind.mp hsafe).2 h ((peekLocked_result q.bytes _).trans hpeek)
    rw [if_neg (by simp [hflag])] at hsafe
    exact (readSafe_readPacket hown hstate hleft hpeek).mp (ensures_bind.mp hsafe).1 ⟨hlt, hover⟩
  · intro hno
    refine readSafe_lift_bind.mpr fun _ hcount => readSafe_lift_bind.mpr fun ⟨qleft, r⟩ hstate => ?_
    have hpos : r = q.readState.position := getQueueStateRead_position hstate
    subst hpos
    refine readSafe_lift_bind.mpr fun _ hleft => ?_
    rw [verifyC_eq_ok, decide_eq_true_eq] at hcount hleft
    refine ensures_bind.mpr ⟨ensures_bind.mpr ⟨ensures_emit.mpr (Touch.tolerable_load hr le_rfl),
      fun _ _ => ensures_lift.mpr fun _ _ => trivial⟩, fun h hpeek => ?_⟩
    rw [peekLocked_result] at hpeek
    split_ifs with hflag
    · exact ensures_bind.mpr ⟨readSafe_readWakeup hown.length_lt hown.sixteen_le hown.own_mod hr,
        fun _ _ => ensures_pure _⟩
    · refine ensures_bind.mpr ⟨(readSafe_readPacket hown hstate hleft hpeek).mpr ?_,
        fun _ _ => ensures_pure _⟩
      rintro ⟨hlt, hover⟩
      exact hno ⟨hcount, ⟨_, hstate, hleft⟩, hlt, h, hpeek, by simpa using hflag, hover⟩

/-- Where the polls of a read call look: at most at the end of the ring. -/
theorem readStart_polling {q' : Queue} {t : ℕ}
    (hown : OwnSide q.queueLength q.readState.position q.writeState.position)
    (hx : FastRpc.readStart q args = .ok (q', .polling t)) :
    q'.queueLength = q.queueLength ∧ q'.readState.position % 8 = 0 ∧
      q'.readState.position ≤ q.queueLength := by
  have hr : q.readState.position + 8 ≤ q.queueLength := by
    have := hown.ring_mod; have := hown.own_mod; have := hown.own_lt; omega
  unfold FastRpc.readStart at hx
  obtain ⟨_, _, hx⟩ := bind_eq_ok.mp hx
  obtain ⟨⟨qleft, r⟩, hstate, hx⟩ := bind_eq_ok.mp hx
  have hpos : r = q.readState.position := getQueueStateRead_position hstate
  subst hpos
  obtain ⟨_, _, hx⟩ := bind_eq_ok.mp hx
  obtain ⟨h, _, hx⟩ := bind_eq_ok.mp hx
  split_ifs at hx
  · obtain ⟨y, hy, hx⟩ := bind_eq_ok.mp hx
    cases Except.ok.inj hx
    exact readWakeup_position hown.length_lt hown.sixteen_le hown.own_mod hr hy
  · obtain ⟨y, _, hx⟩ := bind_eq_ok.mp hx
    cases Except.ok.inj hx

/-- A read call runs over: its first packet does, or it consumes an early wakeup packet and its first
poll that finds data does. -/
def ReadOverruns (env : Env) (q : Queue) (args : ReadArgs) (later : List PeerView) : Prop :=
  StartOverruns q args ∨ ∃ q' t, FastRpc.readStart q args = .ok (q', .polling t) ∧
    env.signal (signalsSpace q') = .ok () ∧ PollsOverrun q' args later

/-- **A read call** does what it may exactly when nothing runs over. -/
theorem readSafe_readNoblock (env : Env) (later : List PeerView)
    (hown : OwnSide q.queueLength q.readState.position q.writeState.position) :
    ReadSafe q.queueLength (readNoblock env q args later) ↔ ¬ ReadOverruns env q args later := by
  unfold readNoblock
  rw [ReadOverruns, not_or]
  refine ensures_bind.trans (and_congr (readSafe_readStart hown) ⟨?_, ?_⟩)
  · rintro hrest ⟨q', t, hstart, hsignal, hover⟩
    obtain ⟨hlength, hmod, hle⟩ := readStart_polling hown hstart
    have hpolls := readSafe_lift_bind.mp (hrest _ ((readStart_result q args).trans hstart)) () hsignal
    rw [← hlength] at hpolls hle
    exact (readSafe_readPolls (by rw [hlength]; exact hown.sixteen_le)
      (by rw [hlength]; exact hown.length_lt) (by rw [hlength]; exact hown.ring_mod) hmod hle
      later).mp hpolls hover
  · rintro hno ⟨q', outcome⟩ hstart
    rw [readStart_result] at hstart
    cases outcome with
    | packet d => exact ensures_pure _
    | polling t =>
        obtain ⟨hlength, hmod, hle⟩ := readStart_polling hown hstart
        refine readSafe_lift_bind.mpr fun _ hsignal => ?_
        rw [← hlength] at hle ⊢
        exact (readSafe_readPolls (by rw [hlength]; exact hown.sixteen_le)
          (by rw [hlength]; exact hown.length_lt) (by rw [hlength]; exact hown.ring_mod) hmod hle
          later).mpr fun hover => hno ⟨q', t, hstart, hsignal, hover⟩

end Reading

/-! ### Calls -/

/-- A call of `dspqueue_read_noblock`, with what its polls find, or of `dspqueue_write_noblock`. -/
inductive RingCall
  | read (args : ReadArgs) (later : List PeerView)
  | write (flags : ℕ) (buffers : List Buffer) (message : List UInt8)

namespace RingCall

/-- The position of the caller's side is a multiple of `8` inside the ring. -/
def OwnSide (q : Queue) : RingCall → Prop
  | read _ _ => RingTrace.OwnSide q.queueLength q.readState.position q.writeState.position
  | write _ _ _ => RingTrace.OwnSide q.queueLength q.writeState.position q.readState.position

/-- The call accesses only bytes of the ring, fills no area beyond its size and leaves the position of
its side a multiple of `8` in the ring or at its end, as far as it comes. -/
def Tolerates (env : Env) (q : Queue) : RingCall → Prop
  | read args later => ReadSafe q.queueLength (readNoblock env q args later)
  | write flags buffers message =>
      ReadSafe q.queueLength (writeRing env.bufferRef q flags buffers message)

def Overruns (env : Env) (q : Queue) : RingCall → Prop
  | read args later => ReadOverruns env q args later
  | write _ _ _ => False

end RingCall

/-- **A call tolerates its peer exactly when it runs over nothing.** -/
theorem peer_tolerated (env : Env) (q : Queue) (c : RingCall) (h : c.OwnSide q) :
    c.Tolerates env q ↔ ¬ c.Overruns env q := by
  cases c with
  | read args later => exact readSafe_readNoblock env later h
  | write flags buffers message =>
      refine iff_of_true ?_ not_false
      exact (writeSafe_writeRing h env.bufferRef flags buffers message).mono (fun _ he => he.1)
        fun _ _ => trivial

/-- A ring of `64` bytes whose peer claims a position behind its end and a packet with three buffer
references and a message. -/
def hostileQueue : Queue :=
  let q := Queue.create 64 (write (fun _ => 0) 0 (toLe 8 (packetHeader 88 19 3 0))) 1 true
  { q with writeState := { q.writeState with position := 152 } }

/-- An assertion ends the call when the buffer references are to be copied. -/
theorem peer_tolerated_hostile :
    (RingCall.read ⟨some 3, some 8⟩ []).Tolerates Env.idle hostileQueue := by
  refine (peer_tolerated Env.idle hostileQueue (.read ⟨some 3, some 8⟩ [])
    ⟨by decide, by decide, by decide, by decide, by decide, by decide⟩).mpr ?_
  have hstart : FastRpc.readStart hostileQueue ⟨some 3, some 8⟩ = .error .assertion := rfl
  rintro (⟨_, _, _, _, _, _, hnone, _⟩ | ⟨q', t, hpolling, _⟩)
  · cases hnone
  · rw [hstart] at hpolling
    cases hpolling

/-- When they are skipped, the message is copied from behind the ring. -/
theorem peer_overruns :
    (readNoblock Env.idle hostileQueue ⟨none, some 8⟩ []).trace = [.load 0 8 8, .load 80 8 8] ∧
      ¬ (RingCall.read ⟨none, some 8⟩ []).Tolerates Env.idle hostileQueue := by
  have htrace : (readNoblock Env.idle hostileQueue ⟨none, some 8⟩ []).trace =
      [.load 0 8 8, .load 80 8 8] := by decide +kernel
  refine ⟨htrace, fun htolerates => ?_⟩
  have hinside : 80 + 8 ≤ 64 := (htolerates.events (.load 80 8 8) (by rw [htrace]; simp)).inside
  omega

end FastRpc.RingTrace
