import FastRpc.PacketLayout

/-! # The ring code refines a queue of packets

`Simulates q xs` relates the ring to the list `xs` of packets that the reader has not consumed:
the positions are multiples of `8` inside the ring and `FramedRing.Layout` places `xs` between
them.  Each operation of the ring has one specification on this list:

* a successful `writeRing` appends its packet and changes no unread byte (`writeRing_spec`);
* `readStart` and `readPoll` return the first packet when it fits the output areas and drop it
  (`readStart_normal`, `readPoll_first`);
* `readStart` consumes an early wakeup packet without returning it (`readStart_wakeup`). -/

namespace FastRpc

open ByteStore FramedRing

/-- The ring holds exactly the packets `xs` between its two positions. -/
structure Simulates (q : Queue) (xs : List (Packet × ℕ)) : Prop where
  sixteen_le : 16 ≤ q.queueLength
  length_lt : q.queueLength < 2 ^ 32
  same_count : q.headerQueueCount = q.queueCount
  positions : Positions q.queueLength q.readState.position q.writeState.position
  layout : slotFraming.Layout q.queueLength q.bytes q.readState.position q.writeState.position xs
  bounded : ∀ x ∈ xs, x.1.Bounded

/-! ### Positions -/

/-- The space left between the positions, with `8` bytes kept free. -/
def spaceLeft (Q r w : ℕ) : ℕ := if r ≤ w then Q - w + r - 8 else r - w - 8

/-- The unread bytes between the positions. -/
def dataLeft (Q r w : ℕ) : ℕ := if r ≤ w then w - r else Q - r + w

variable {q : Queue} {Q r w : ℕ} {m : Store} {xs : List (Packet × ℕ)}

theorem getQueueStateWrite_eq (hQ : 16 ≤ q.queueLength) (hlt : q.queueLength < 2 ^ 32)
    (hp : Positions q.queueLength q.readState.position q.writeState.position) :
    getQueueStateWrite q =
      .ok (spaceLeft q.queueLength q.readState.position q.writeState.position,
        q.writeState.position) := by
  obtain ⟨h1, h2, h3, h4, h5⟩ := hp
  have hs : (if q.readState.position = q.writeState.position then subU32 q.queueLength 8
      else if q.readState.position < q.writeState.position then
        subU32 (addU32 (subU32 q.queueLength q.writeState.position) q.readState.position) 8
      else subU32 (subU32 q.readState.position q.writeState.position) 8) =
      spaceLeft q.queueLength q.readState.position q.writeState.position := by
    simp only [spaceLeft, subU32, addU32]
    split_ifs <;> omega
  have hm : spaceLeft q.queueLength q.readState.position q.writeState.position % 8 = 0 := by
    simp only [spaceLeft]
    split_ifs <;> omega
  simp only [getQueueStateWrite, hs, cAssert_pos (And.intro h2 h3), cAssert_pos hm, ok_bind,
    pure_eq_ok]

theorem getQueueStateRead_eq (hlt : q.queueLength < 2 ^ 32)
    (hp : Positions q.queueLength q.readState.position q.writeState.position) :
    getQueueStateRead q =
      .ok (dataLeft q.queueLength q.readState.position q.writeState.position,
        q.readState.position) := by
  obtain ⟨h1, h2, h3, h4, h5⟩ := hp
  have hs : (if q.readState.position = q.writeState.position then 0
      else if q.readState.position < q.writeState.position then
        subU32 q.writeState.position q.readState.position
      else addU32 (subU32 q.queueLength q.readState.position) q.writeState.position) =
      dataLeft q.queueLength q.readState.position q.writeState.position := by
    simp only [dataLeft, subU32, addU32]
    split_ifs <;> omega
  have hm : dataLeft q.queueLength q.readState.position q.writeState.position % 8 = 0 := by
    simp only [dataLeft]
    split_ifs <;> omega
  simp only [getQueueStateRead, hs, cAssert_pos (And.intro h2 h3), cAssert_pos hm, ok_bind,
    pure_eq_ok]

/-! ### Storing a packet -/

theorem write64_eq (hQ : Q < 2 ^ 32) (hw : w + 8 ≤ Q) (data : ℕ) :
    write64 m w Q data = (write m w (toLe 8 data), wrapPos Q (w + 8)) := by
  rw [write64, addU32_of_lt (by omega)]; rfl

theorem writeData_eq {data : List UInt8} (hQ : Q < 2 ^ 32) (hd : 0 < data.length)
    (hw : w % 8 = 0) (hfit : w + alignUp 8 data.length ≤ Q) :
    writeData m w Q data = .ok (write m w data, wrapPos Q (w + alignUp 8 data.length)) := by
  have hle := le_alignUp_eight data.length
  have hal : align8 data.length = alignUp 8 data.length := by
    rcases Nat.lt_or_ge (data.length + 7) (2 ^ 32) with h | h
    · exact align8_of_lt h
    · rw [alignUp_eight] at hfit; omega
  have hs : data.length ≤ subU32 Q w := by rw [subU32_of_le (by omega) hQ]; omega
  have ha : addU32 w (align8 data.length) = w + alignUp 8 data.length := by
    rw [hal, addU32_of_lt (by omega)]
  simp only [writeData, cAssert_pos hd, cAssert_pos hw, cAssert_pos hs, ha, cAssert_pos hfit,
    ok_bind, pure_eq_ok]
  rfl

theorem readData_eq {n : ℕ} (hQ : Q < 2 ^ 32) (hn : 0 < n) (hr : r % 8 = 0)
    (hfit : r + alignUp 8 n ≤ Q) :
    readData m r Q n = .ok (slice m r n, wrapPos Q (r + alignUp 8 n)) := by
  have hle := le_alignUp_eight n
  have hal : align8 n = alignUp 8 n := by
    rcases Nat.lt_or_ge (n + 7) (2 ^ 32) with h | h
    · exact align8_of_lt h
    · rw [alignUp_eight] at hfit; omega
  have hs : n ≤ subU32 Q r := by rw [subU32_of_le (by omega) hQ]; omega
  have ha : addU32 r (align8 n) = r + alignUp 8 n := by rw [hal, addU32_of_lt (by omega)]
  simp only [readData, cAssert_pos hn, cAssert_pos hr, cAssert_pos hs, ha, cAssert_pos hfit,
    ok_bind, pure_eq_ok]
  rfl

/-- A part, empty or not, goes to the next position. -/
theorem writePart_eq {data : List UInt8} (hQ : Q < 2 ^ 32) (hw : w % 8 = 0)
    (hfit : w + alignUp 8 data.length ≤ Q) :
    writePart m (wrapPos Q w) Q data =
      .ok (write m w data, wrapPos Q (w + alignUp 8 data.length)) := by
  have hle := le_alignUp_eight data.length
  rcases Nat.eq_zero_or_pos data.length with h0 | hpos
  · rw [writePart, if_neg (by omega), h0, List.length_eq_zero_iff.mp h0, write_nil]
    rfl
  · rw [writePart, if_pos hpos, wrapPos_of_lt (by omega), writeData_eq hQ hpos hw hfit]

/-- The body goes right behind a header of `8` bytes at `a`. -/
theorem writeBody_eq {a : ℕ} {hdr : List UInt8} {bs : List Buffer} {msg : List UInt8}
    (hQ : Q < 2 ^ 32) (ha : a % 8 = 0) (hdr8 : hdr.length = 8)
    (hfit : a + alignUp 8 (packetLength bs.length msg.length) ≤ Q) :
    writeBody (write m a hdr) (wrapPos Q (a + 8)) Q bs msg =
      .ok (write m a (hdr ++ (encodeBuffers bs ++ msg)),
        wrapPos Q (a + alignUp 8 (packetLength bs.length msg.length))) := by
  have hnb : alignUp 8 (encodeBuffers bs).length = (encodeBuffers bs).length := by
    rw [alignUp_eight, encodeBuffers_length]; omega
  have hspan : alignUp 8 (packetLength bs.length msg.length) =
      8 + (encodeBuffers bs).length + alignUp 8 msg.length := by
    simp only [packetLength, encodeBuffers_length, alignUp_eight]; omega
  have hend : a + (hdr ++ encodeBuffers bs).length = a + 8 + (encodeBuffers bs).length := by
    rw [List.length_append, hdr8, Nat.add_assoc]
  have hmod : (encodeBuffers bs).length % 8 = 0 := by rw [← hnb]; exact alignUp_eight_mod _
  rw [writeBody, writePart_eq hQ (by omega) (by omega), hnb, ok_bind, ← hdr8, write_append, hdr8]
  simp only
  rw [writePart_eq hQ (by omega) (by omega), ← hend, write_append, List.append_assoc, hend,
    hspan]
  congr 3
  omega

theorem writePacket_inline {phdr : ℕ} {bs : List Buffer} {msg : List UInt8} (hQ : Q < 2 ^ 32)
    (hw : w % 8 = 0) (hfit : w + alignUp 8 (packetLength bs.length msg.length) ≤ Q) :
    writePacket m w Q false phdr bs msg =
      .ok (write m w (toLe 8 phdr ++ (encodeBuffers bs ++ msg)),
        wrapPos Q (w + alignUp 8 (packetLength bs.length msg.length))) := by
  have h8 : w + 8 ≤ Q := by
    have := le_alignUp_eight (packetLength bs.length msg.length)
    simp only [packetLength] at this hfit; omega
  simp only [writePacket, write64_eq hQ h8, Bool.false_eq_true, if_false]
  exact writeBody_eq hQ hw (toLe_length 8 phdr) hfit

theorem writePacket_wrapped {phdr : ℕ} {bs : List Buffer} {msg : List UInt8} (hQ : Q < 2 ^ 32)
    (hw : w + 8 ≤ Q) (hfit : alignUp 8 (packetLength bs.length msg.length) ≤ Q) :
    writePacket m w Q true phdr bs msg =
      .ok (write (write m w (toLe 8 phdr)) 0 (toLe 8 phdr ++ (encodeBuffers bs ++ msg)),
        wrapPos Q (alignUp 8 (packetLength bs.length msg.length))) := by
  have h8 : 0 + 8 ≤ Q := by omega
  simp only [writePacket, write64_eq hQ hw, write64_eq hQ h8, if_true]
  rw [writeBody_eq hQ (Nat.zero_mod 8) (toLe_length 8 phdr) (by rwa [Nat.zero_add]),
    Nat.zero_add]

/-! ### Writing -/

/-- The two ways in which `reserve` succeeds, in terms of the two positions. -/
theorem reserve_ok {len w' : ℕ} {wrap : Bool} (h : Simulates q xs) (hlen : len ≤ 67080)
    (hr : reserve q len = .ok (w', wrap)) :
    w' = q.writeState.position ∧
    ((wrap = false ∧ w' + alignUp 8 len ≤ q.queueLength ∧
        ((q.readState.position ≤ w' ∧
            (w' + alignUp 8 len < q.queueLength ∨ 0 < q.readState.position)) ∨
          w' + alignUp 8 len < q.readState.position)) ∨
      (wrap = true ∧ q.queueLength < w' + alignUp 8 len ∧ q.readState.position ≤ w' ∧
        alignUp 8 len < q.readState.position)) := by
  have hp := h.positions
  have hQ := h.length_lt
  have h16 := h.sixteen_le
  obtain ⟨h1, h2, h3, h4, h5⟩ := hp
  have hal : align8 len = alignUp 8 len := align8_of_lt (by omega)
  have hmod := alignUp_eight_mod len
  rw [reserve, hal, getQueueStateWrite_eq h16 hQ h.positions] at hr
  generalize alignUp 8 len = alen at hr hmod ⊢
  obtain ⟨_, hsize, hr⟩ := bind_eq_ok.mp hr
  obtain ⟨_, _, hr⟩ := bind_eq_ok.mp hr
  rw [ok_bind] at hr
  obtain ⟨_, hleft, hr⟩ := bind_eq_ok.mp hr
  rw [verifyC_eq_ok, decide_eq_true_eq] at hsize hleft
  rw [subU32_of_le (by omega) hQ] at hsize
  have hsub : subU32 q.queueLength q.writeState.position =
      q.queueLength - q.writeState.position := subU32_of_le (by omega) hQ
  rw [hsub] at hr
  simp only [spaceLeft] at hleft hr
  split_ifs at hr with hwrap hrw
  · obtain ⟨_, hfree, hr⟩ := bind_eq_ok.mp hr
    rw [verifyC_eq_ok, decide_eq_true_eq, subU32] at hfree
    rw [pure_eq_ok] at hr
    obtain ⟨rfl, rfl⟩ := Prod.mk.inj (Except.ok.inj hr)
    rw [if_pos hrw] at hleft
    exact ⟨rfl, .inr ⟨rfl, by omega, hrw, by omega⟩⟩
  · rw [if_neg hrw] at hleft
    omega
  · obtain ⟨rfl, rfl⟩ := Prod.mk.inj (Except.ok.inj hr)
    refine ⟨rfl, .inl ⟨rfl, by omega, ?_⟩⟩
    split_ifs at hleft <;> omega

/-- **Writing appends the packet** and changes no unread byte. -/
theorem writeRing_spec {bufferRef : BufferRef} {p : Packet} {q' : Queue} (h : Simulates q xs)
    (hw : writeRing bufferRef q p.flags p.buffers p.message = .ok q') :
    p.Bounded ∧ Simulates q' (xs ++ [(p, q.seqNo)]) ∧ q'.readState = q.readState ∧
      ∀ i, Unread q.queueLength q.readState.position q.writeState.position i →
        q'.bytes i = q.bytes i := by
  obtain ⟨_, hb, hw⟩ := bind_eq_ok.mp hw
  obtain ⟨_, hm, hw⟩ := bind_eq_ok.mp hw
  obtain ⟨⟨w', wrap⟩, hres, hw⟩ := bind_eq_ok.mp hw
  obtain ⟨_, _, hw⟩ := bind_eq_ok.mp hw
  obtain ⟨⟨bytes, w''⟩, hpk, hw⟩ := bind_eq_ok.mp hw
  obtain rfl := Except.ok.inj hw
  rw [verifyC_eq_ok, decide_eq_true_eq] at hb hm
  have hp : p.Bounded := ⟨hb, hm⟩
  have hQ := h.length_lt
  have hpos := h.positions
  have hspan : slotFraming.span (p, q.seqNo) = alignUp 8 p.len := slotFraming_span _
  have hlen8 := le_alignUp_eight p.len
  have hge := p.eight_le_len
  obtain ⟨rfl, hcase⟩ := reserve_ok h hp.len_le hres
  have hbound : ∀ x ∈ xs ++ [(p, q.seqNo)], x.1.Bounded := by
    intro x hx
    rcases List.mem_append.mp hx with hx | hx
    · exact h.bounded x hx
    · obtain rfl := List.mem_singleton.mp hx
      exact hp
  have hmod := alignUp_eight_mod p.len
  have hw8 := hpos.write_mod
  rcases hcase with ⟨rfl, hfit, hroom⟩ | ⟨rfl, hfit, hrw, hroom⟩
  · -- the packet lies in one piece behind the write position
    rw [writePacket_inline hQ hw8 hfit] at hpk
    obtain ⟨rfl, rfl⟩ := Prod.mk.inj (Except.ok.inj hpk)
    rw [show packetLength p.buffers.length p.message.length = p.len from rfl]
    have hframe : ∀ i, Unread q.queueLength q.readState.position q.writeState.position i →
        write q.bytes q.writeState.position (p.encode q.seqNo) i = q.bytes i := by
      intro i hi
      apply write_outside
      rw [Packet.encode_length]
      simp only [Unread] at hi
      split_ifs at hi <;> omega
    refine ⟨hp, ⟨h.sixteen_le, hQ, h.same_count, hpos.write (by omega), ?_, hbound⟩, rfl, hframe⟩
    rw [← hspan] at hfit hroom
    have hpush := h.layout.push_inline hpos hfit hroom (slice_write_same q.bytes _ _) hframe
    rw [hspan] at hpush
    exact hpush
  · -- the packet lies at the beginning, its header repeated at the write position
    have hwlt := hpos.write_lt
    have hQ8 := hpos.ring_mod
    have hrlt := hpos.read_lt
    rw [writePacket_wrapped hQ (by omega) (by change alignUp 8 p.len ≤ _; omega)] at hpk
    obtain ⟨rfl, rfl⟩ := Prod.mk.inj (Except.ok.inj hpk)
    rw [show packetLength p.buffers.length p.message.length = p.len from rfl]
    set hdr := toLe 8 (packetHeader p.len
      (packetFlags p.flags p.buffers.length p.message.length) p.buffers.length q.seqNo) with hhdr
    have henc : hdr ++ (encodeBuffers p.buffers ++ p.message) = p.encode q.seqNo := rfl
    have hframe : ∀ i, Unread q.queueLength q.readState.position q.writeState.position i →
        write (write q.bytes q.writeState.position hdr) 0 (p.encode q.seqNo) i = q.bytes i := by
      intro i hi
      simp only [Unread, if_pos hrw] at hi
      rw [write_outside _ _ (by rw [Packet.encode_length]; omega),
        write_outside _ _ (by simp [hhdr]; omega)]
    refine ⟨hp, ⟨h.sixteen_le, hQ, h.same_count, hpos.write (by omega), ?_, hbound⟩, rfl, hframe⟩
    rw [← hspan] at hfit hroom
    have hhead : slice (write (write q.bytes q.writeState.position hdr) 0 (p.encode q.seqNo))
        q.writeState.position 8 = (p.encode q.seqNo).take 8 := by
      rw [slice_write_disjoint _ _ (by rw [Packet.encode_length]; omega), ← henc,
        List.take_left' (toLe_length 8 _)]
      have := slice_write_same q.bytes q.writeState.position hdr
      rwa [toLe_length] at this
    have hpush := h.layout.push_wrapped hpos hfit ⟨hrw, hroom⟩ (slice_write_same _ 0 _) hhead
      hframe
    rw [← hspan, wrapPos_of_lt (by omega)]
    exact hpush

/-! ### Reading -/

theorem Simulates.dataLeft_eq_zero (h : Simulates q xs) :
    dataLeft q.queueLength q.readState.position q.writeState.position = 0 ↔ xs = [] := by
  rw [h.layout.eq_nil_iff h.positions.read_lt]
  have := h.positions.read_lt
  simp only [dataLeft]
  split_ifs <;> omega

theorem Simulates.eight_le_dataLeft (h : Simulates q xs) (hx : xs ≠ []) :
    8 ≤ dataLeft q.queueLength q.readState.position q.writeState.position := by
  have h0 : ¬ dataLeft q.queueLength q.readState.position q.writeState.position = 0 :=
    fun h0 => hx (h.dataLeft_eq_zero.mp h0)
  obtain ⟨h1, h2, h3, h4, h5⟩ := h.positions
  simp only [dataLeft] at h0 ⊢
  split_ifs at h0 ⊢ <;> omega

/-- Where the first packet lies: at the read position, or at the beginning with its header
replicated at the read position; and what the reader makes of it. -/
theorem Simulates.first {x : Packet × ℕ} (h : Simulates q (x :: xs)) :
    ∃ start, (start = q.readState.position ∨ 8 < x.1.len) ∧ start % 8 = 0 ∧
      start + alignUp 8 x.1.len ≤ q.queueLength ∧
      slice q.bytes start x.1.len = x.1.encode x.2 ∧
      peekLocked q.bytes q.readState.position = .ok x.1.header ∧
      skipHeader q.queueLength (dataLeft q.queueLength q.readState.position q.writeState.position)
        q.readState.position x.1.len = .ok (start + 8) ∧
      slotFraming.Layout q.queueLength q.bytes
        (wrapPos q.queueLength (start + alignUp 8 x.1.len)) q.writeState.position xs := by
  have hb : x.1.Bounded := h.bounded x List.mem_cons_self
  have hQ := h.length_lt
  have hge := x.1.eight_le_len
  have hal := le_alignUp_eight x.1.len
  have h8 : x.1.len = 8 ∨ 8 < x.1.len := by omega
  obtain ⟨h1, h2, h3, h4, h5⟩ := h.positions
  have hsub : subU32 q.queueLength q.readState.position =
      q.queueLength - q.readState.position := subU32_of_le (by omega) hQ
  have hpop := h.layout.pop h.positions
  rw [slotFraming_span, slotFraming_enc, Packet.encode_length] at hpop
  rcases hpop with ⟨hfit, henc, hrest⟩ | ⟨hfit, hhead, henc, hwr, hw, hrest⟩
  · refine ⟨q.readState.position, .inl rfl, h2, hfit, henc, ?_, ?_, hrest⟩
    · apply peekLocked_slot hb
      rw [← henc, slice_take _ _ _ _ hge]
    · rw [skipHeader, hsub, if_neg (by omega), addU32_of_lt (by omega)]
  · have hwrap : q.queueLength - q.readState.position < x.1.len := by
      by_contra hc
      have := (le_iff_alignUp_eight_le (n := x.1.len)
        (show (q.queueLength - q.readState.position) % 8 = 0 by omega)).mp (by omega)
      omega
    have hleft : x.1.len ≤ subU32
        (dataLeft q.queueLength q.readState.position q.writeState.position)
        (q.queueLength - q.readState.position) := by
      rw [dataLeft, if_neg (by omega), subU32_of_le (by omega) (by omega)]
      omega
    refine ⟨0, .inr (by omega), rfl, by omega, henc, peekLocked_slot hb hhead, ?_, ?_⟩
    · rw [skipHeader, hsub, if_pos hwrap, cAssert_pos hleft]
      rfl
    · rwa [Nat.zero_add, wrapPos_of_lt (by omega)]

/-- The reader's position `r'` stands for `r`; the end of the ring may already be wrapped. -/
def StandsFor (Q r' r : ℕ) : Prop := r' = r ∨ (r = Q ∧ r' = 0)

theorem StandsFor.wrapPos_eq {r' : ℕ} (h : StandsFor Q r' r) : wrapPos Q r' = wrapPos Q r := by
  rcases h with rfl | ⟨rfl, rfl⟩
  · rfl
  · rw [wrapPos_self, wrapPos]; split_ifs <;> rfl

theorem StandsFor.le {r' : ℕ} (h : StandsFor Q r' r) (hr : r ≤ Q) : r' ≤ Q := by
  rcases h with rfl | ⟨_, rfl⟩
  · exact hr
  · exact Nat.zero_le Q

/-- Reading a part into its area, or skipping it, ends behind the part. -/
theorem readArea_eq {α : Type} (area : Option ℕ) {r' n skip : ℕ} (decode : List UInt8 → α)
    (hQ : Q < 2 ^ 32) (hr' : StandsFor Q r' r) (hr : r % 8 = 0) (hfit : r + alignUp 8 n ≤ Q)
    (hskip : skip = alignUp 8 n) :
    ∃ r'', readArea area m r' Q n skip decode =
        .ok (area.map (fun _ => decode (slice m r n)), r'') ∧
      StandsFor Q r'' (r + alignUp 8 n) := by
  have hle := le_alignUp_eight n
  rcases Nat.eq_zero_or_pos n with rfl | hn
  · refine ⟨r', ?_, hr'⟩
    simp only [readArea, lt_irrefl, if_false, slice_zero]
  · have hrr : r' = r := by rcases hr' with h | h <;> omega
    subst hrr
    cases area with
    | none =>
        refine ⟨r' + skip, ?_, .inl (by rw [hskip])⟩
        simp only [readArea, hn, if_true, Option.map_none, addU32_of_lt (show r' + skip < 2 ^ 32 by omega)]
    | some max =>
        refine ⟨wrapPos Q (r' + alignUp 8 n), ?_, ?_⟩
        · simp only [readArea, hn, if_true, readData_eq hQ hn hr hfit, ok_bind, pure_eq_ok,
            Option.map_some]
        · rcases Nat.lt_or_ge (r' + alignUp 8 n) Q with hlt | hge
          · exact .inl (wrapPos_of_lt hlt)
          · have : r' + alignUp 8 n = Q := by omega
            exact .inr ⟨this, by rw [this, wrapPos_self]⟩

/-- Consuming a packet leaves the packets behind it. -/
theorem Simulates.consume {x : Packet × ℕ} (h : Simulates q (x :: xs)) (r' : ℕ)
    (hr' : r' % 8 = 0)
    (hl : slotFraming.Layout q.queueLength q.bytes (wrapPos q.queueLength r')
      q.writeState.position xs) :
    Simulates (consume q (wrapPos q.queueLength r')) xs :=
  ⟨h.sixteen_le, h.length_lt, h.same_count, h.positions.read hr', hl,
    fun y hy => h.bounded y (List.mem_cons_of_mem x hy)⟩

theorem pos_of_not_fitsArea {area : Option ℕ} {n : ℕ} (h : fitsArea area n = false) : 0 < n := by
  cases area with
  | none => simp [fitsArea] at h
  | some max => simp [fitsArea] at h; omega

/-- **Reading returns the first packet** when it fits the output areas, and drops it. -/
theorem readPacket_first {p : Packet} {seqNo : ℕ} {args : ReadArgs}
    (h : Simulates q ((p, seqNo) :: xs)) (hfits : p.Fits args) :
    ∃ q', readPacket q args
        (dataLeft q.queueLength q.readState.position q.writeState.position)
        q.readState.position p.header = .ok (q', p.delivered args) ∧
      Simulates q' xs := by
  obtain ⟨start, _, hs8, hfit, henc, _, hskip, hrest⟩ := h.first
  simp only at hfit henc hskip hrest
  have hb : p.Bounded := h.bounded (p, seqNo) List.mem_cons_self
  have hQ := h.length_lt
  have hlen : addU32 (8 + p.buffers.length * 24) p.message.length = p.len :=
    addU32_of_lt (by have := hb.len_le; simp only [Packet.len, packetLength] at this; omega)
  -- the three parts of the packet
  obtain ⟨_, hbody⟩ := slice_eq_append henc
  rw [toLe_length] at hbody
  obtain ⟨hbufs, hmsg⟩ := slice_eq_append hbody
  rw [encodeBuffers_length] at hbufs hmsg
  have hnb : alignUp 8 (p.buffers.length * 24) = p.buffers.length * 24 := by
    rw [alignUp_eight]; omega
  have hml : align8 p.message.length = alignUp 8 p.message.length := by
    have := hb.message_le
    simp only [maxMessageSize] at this
    exact align8_of_lt (by omega)
  have hspan : alignUp 8 p.len = 8 + p.buffers.length * 24 + alignUp 8 p.message.length := by
    simp only [Packet.len, packetLength, alignUp_eight]; omega
  obtain ⟨r₁, hr₁, hat₁⟩ := readArea_eq args.buffers
    (decodeBuffers p.buffers.length) (m := q.bytes) (n := p.buffers.length * 24) hQ
    (.inl rfl : StandsFor q.queueLength (start + 8) (start + 8)) (by omega) (by omega) hnb.symm
  rw [hnb] at hat₁
  obtain ⟨r₂, hr₂, hat₂⟩ := readArea_eq args.message id
    (m := q.bytes) (n := p.message.length) hQ hat₁ (by omega) (by omega) hml
  rw [hbufs, decodeBuffers_encodeBuffers] at hr₁
  rw [hmsg] at hr₂
  have hle : r₂ ≤ q.queueLength := hat₂.le (by omega)
  have hend : (if q.queueLength ≤ r₂ then 0 else r₂) =
      wrapPos q.queueLength (start + alignUp 8 p.len) := by
    rw [hspan, ← Nat.add_assoc, ← Nat.add_assoc, ← hat₂.wrapPos_eq]
    rfl
  refine ⟨_, ?_, h.consume (start + alignUp 8 p.len) ?_ hrest⟩
  · have hfb := hfits.1
    have hfm := hfits.2
    rw [Packet.header, Packet.queueFlags]
    simp only [readPacket, packetFlags_buffers, packetFlags_message, packetFlags_userReady,
      hfb, hfm, Bool.or_true, verifyC_pos hb.buffers_le, verifyC_true, hlen, hskip, hr₁, hr₂,
      cAssert_pos hle, hend, ok_bind, pure_eq_ok]
    rfl
  · have := alignUp_eight_mod p.len
    omega

/-- A packet that does not fit the output areas stays in the ring. -/
theorem readPacket_short {p : Packet} {args : ReadArgs} {qleft r : ℕ} (hb : p.Bounded)
    (hfits : ¬ p.Fits args) : readPacket q args qleft r p.header = .error (.error .EBADPARM) := by
  rw [Packet.header, Packet.queueFlags]
  simp only [readPacket, packetFlags_buffers, packetFlags_message]
  cases hfb : fitsArea args.buffers p.buffers.length with
  | false =>
      rw [decide_eq_true (pos_of_not_fitsArea hfb), Bool.not_true, Bool.false_or, verifyC_false,
        error_bind]
  | true =>
      cases hfm : fitsArea args.message p.message.length with
      | false =>
          rw [Bool.or_true, verifyC_true, ok_bind, verifyC_pos hb.buffers_le, ok_bind,
            decide_eq_true (pos_of_not_fitsArea hfm), Bool.not_true, Bool.false_or, verifyC_false,
            error_bind]
      | true => exact absurd ⟨hfb, hfm⟩ hfits

/-! ### Whole reads -/

theorem readStart_nil {args : ReadArgs} (h : Simulates q []) :
    readStart q args = .error (.error .EWOULDBLOCK) := by
  have h0 := h.dataLeft_eq_zero.mpr rfl
  simp only [readStart, verifyC_pos h.same_count, getQueueStateRead_eq h.length_lt h.positions,
    ok_bind, h0]
  rfl

theorem readPoll_nil {args : ReadArgs} (h : Simulates q []) : readPoll q args = .ok none := by
  have h0 := h.dataLeft_eq_zero.mpr rfl
  simp only [readPoll, getQueueStateRead_eq h.length_lt h.positions, ok_bind, h0]
  rfl

/-- Up to its header, a read of a nonempty ring is decided by the first packet. -/
theorem readStart_cons {x : Packet × ℕ} (args : ReadArgs) (h : Simulates q (x :: xs)) :
    readStart q args =
      let qleft := dataLeft q.queueLength q.readState.position q.writeState.position
      if x.1.isWakeup then
        (readWakeup q qleft q.readState.position x.1.header).map
          (fun result => (result.1, .polling result.2))
      else
        (readPacket q args qleft q.readState.position x.1.header).map
          (fun result => (result.1, .packet result.2)) := by
  obtain ⟨start, _, _, _, _, hpeek, _, _⟩ := h.first
  have h8 := h.eight_le_dataLeft (List.cons_ne_nil x xs)
  have hfl : x.1.header.flags.testBit flagWakeup = x.1.isWakeup := packetFlags_wakeup _ _ _
  simp only [readStart, verifyC_pos h.same_count, getQueueStateRead_eq h.length_lt h.positions,
    ok_bind, verifyC_pos h8, hpeek, hfl, pure_eq_ok]
  rfl

/-- A poll treats whatever comes first as a packet for the client. -/
theorem readPoll_cons {x : Packet × ℕ} {args : ReadArgs} (h : Simulates q (x :: xs)) :
    readPoll q args =
      (readPacket q args (dataLeft q.queueLength q.readState.position q.writeState.position)
        q.readState.position x.1.header).map some := by
  obtain ⟨start, _, _, _, _, hpeek, _, _⟩ := h.first
  have h8 := h.eight_le_dataLeft (List.cons_ne_nil x xs)
  simp only [readPoll, getQueueStateRead_eq h.length_lt h.positions, ok_bind,
    if_neg (Nat.not_lt.mpr h8), hpeek, pure_eq_ok]
  rfl

/-- An early wakeup packet as `dspqueue_write_early_wakeup_noblock` writes it: no buffers, and
no message or a delay of `4` bytes. -/
structure Packet.PlainWakeup (p : Packet) : Prop where
  isWakeup : p.isWakeup = true
  buffers_nil : p.buffers = []
  message_length : p.message.length = 0 ∨ p.message.length = 4

/-- **An early wakeup packet is consumed**, except that one without a delay in the last `8` bytes
leaves the read position at the end of the ring. -/
theorem readWakeup_first {p : Packet} {seqNo : ℕ} (h : Simulates q ((p, seqNo) :: xs))
    (hp : p.PlainWakeup) :
    ∃ q' waittime, readWakeup q
        (dataLeft q.queueLength q.readState.position q.writeState.position)
        q.readState.position p.header = .ok (q', waittime) ∧
      (if p.message = [] ∧ q.readState.position + 8 = q.queueLength then
        q'.readState.position = q'.queueLength
      else Simulates q' xs) := by
  obtain ⟨start, hstart, hs8, hfit, henc, _, hskip, hrest⟩ := h.first
  simp only at hstart hfit henc hskip hrest
  have hQ := h.length_lt
  have hnb : p.buffers.length = 0 := by rw [hp.buffers_nil]; rfl
  have hlen : addU32 8 p.message.length = p.len := by
    rw [addU32_of_lt (by rcases hp.message_length with h0 | h4 <;> omega)]
    simp only [Packet.len, packetLength, hnb]
  rw [Packet.header]
  simp only [readWakeup, hnb, decide_true, verifyC_true, hlen, hskip, ok_bind, pure_eq_ok]
  rcases hp.message_length with h0 | h4
  · have hl8 : p.len = 8 := by simp only [Packet.len, packetLength, hnb, h0]
    have hst : start = q.readState.position := by rcases hstart with h | h <;> omega
    subst hst
    refine ⟨_, _, by rw [h0, if_neg (lt_irrefl 0)], ?_⟩
    rw [hl8, show alignUp 8 8 = 8 from rfl] at hfit hrest
    split_ifs with hc
    · exact hc.2
    · have hlt : q.readState.position + 8 < q.queueLength := by
        have := List.length_eq_zero_iff.mp h0
        have := not_and.mp hc this
        omega
      have := h.consume (q.readState.position + 8) (by omega) hrest
      rwa [wrapPos_of_lt hlt] at this
  · have hl : p.len = 12 := by simp only [Packet.len, packetLength, hnb, h4]
    have hal : alignUp 8 12 = 16 := rfl
    rw [hl, hal] at hfit hrest
    refine ⟨consume q (wrapPos q.queueLength (start + 16)),
      wakeupWait (ofLe (slice q.bytes (start + 8) 4)), ?_, ?_⟩
    · simp only [h4, if_true, decide_true, verifyC_true, ok_bind, Nat.zero_lt_succ,
        readData_eq hQ (show 0 < 4 by decide) (show (start + 8) % 8 = 0 by omega)
          (show start + 8 + alignUp 8 4 ≤ q.queueLength from hfit)]
      rfl
    · have hne : p.message ≠ [] := by rintro hn; rw [hn] at h4; cases h4
      rw [if_neg (fun hc => hne hc.1)]
      exact h.consume (start + 16) (by omega) hrest

/-- A malformed wakeup packet is refused and stays in the ring. -/
theorem readWakeup_malformed {p : Packet} {seqNo : ℕ} (h : Simulates q ((p, seqNo) :: xs))
    (hw : p.isWakeup = true) (hp : ¬ p.PlainWakeup) :
    ∃ code, readWakeup q (dataLeft q.queueLength q.readState.position q.writeState.position)
        q.readState.position p.header = .error (.error code) := by
  obtain ⟨start, _, _, _, _, _, hskip, _⟩ := h.first
  have hb : p.Bounded := h.bounded (p, seqNo) List.mem_cons_self
  simp only at hskip
  rw [Packet.header]
  simp only [readWakeup]
  by_cases hnb : p.buffers.length = 0
  · have hlen : addU32 8 p.message.length = p.len := by
      have := hb.message_le
      simp only [maxMessageSize] at this
      rw [addU32_of_lt (by omega)]
      simp only [Packet.len, packetLength, hnb]
    have hml : ¬ (p.message.length = 0 ∨ p.message.length = 4) := fun hml =>
      hp ⟨hw, List.length_eq_zero_iff.mp hnb, hml⟩
    refine ⟨.EBADITEM, ?_⟩
    simp only [verifyC_pos hnb, hlen, hskip, ok_bind, if_pos (show 0 < p.message.length by omega),
      verifyC_neg (show ¬ p.message.length = 4 by omega), error_bind]
  · exact ⟨.ERPC, by rw [verifyC_neg hnb]; rfl⟩

/-- A read returns the first packet when it is a normal one that fits the output areas. -/
theorem readStart_normal {p : Packet} {seqNo : ℕ} {args : ReadArgs}
    (h : Simulates q ((p, seqNo) :: xs)) (hn : p.isWakeup = false) (hfits : p.Fits args) :
    ∃ q', readStart q args = .ok (q', .packet (p.delivered args)) ∧ Simulates q' xs := by
  obtain ⟨q', hread, hsim⟩ := readPacket_first h hfits
  refine ⟨q', ?_, hsim⟩
  rw [readStart_cons _ h]
  simp only [hn, hread]
  rfl

/-- A read consumes a first packet that is an early wakeup packet, up to the wrap that the wakeup
branch misses. -/
theorem readStart_wakeup {p : Packet} {seqNo : ℕ} (args : ReadArgs)
    (h : Simulates q ((p, seqNo) :: xs)) (hp : p.PlainWakeup) :
    ∃ q' waittime, readStart q args = .ok (q', .polling waittime) ∧
      (if p.message = [] ∧ q.readState.position + 8 = q.queueLength then
        q'.readState.position = q'.queueLength
      else Simulates q' xs) := by
  obtain ⟨q', waittime, hread, hafter⟩ := readWakeup_first h hp
  refine ⟨q', waittime, ?_, hafter⟩
  rw [readStart_cons _ h]
  simp only [hp.isWakeup, if_true, hread]
  rfl

/-- A poll returns the first packet, whatever it is, when it fits the output areas. -/
theorem readPoll_first {p : Packet} {seqNo : ℕ} {args : ReadArgs}
    (h : Simulates q ((p, seqNo) :: xs)) (hfits : p.Fits args) :
    ∃ q', readPoll q args = .ok (some (q', p.delivered args)) ∧ Simulates q' xs := by
  obtain ⟨q', hread, hsim⟩ := readPacket_first h hfits
  exact ⟨q', by rw [readPoll_cons h, hread]; rfl, hsim⟩

end FastRpc
