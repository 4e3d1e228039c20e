import FastRpc.FramedRing
import FastRpc.PacketQueue

/-! # The bytes of a packet

`Packet` is what a client passes to a write; `slotFraming` is its encoding in the ring together
with the sequence number that the writer adds, an instance of `FramedRing.Framing`.  The lemmas
say that the reader's decoders invert it: the presence flags (`packetFlags_testBit_…`), the header
(`peekLocked_slot`) and the buffer references (`decodeBuffers_encodeBuffers`). -/

namespace FastRpc

open ByteStore FramedRing

/-! ### Flags -/

theorem setFlag_testBit (f k i : ℕ) : (setFlag f k).testBit i = (f.testBit i || decide (k = i)) := by
  rw [setFlag, Nat.testBit_or, Nat.testBit_two_pow]

theorem clearFlag_testBit {f k i : ℕ} (hk : k < 32) (hi : i < 32) :
    (clearFlag f k).testBit i = (f.testBit i && !decide (k = i)) := by
  have hlt : 2 ^ k < 2 ^ 32 := Nat.pow_lt_pow_right (by omega) hk
  rw [clearFlag, Nat.testBit_and, show 2 ^ 32 - 1 - 2 ^ k = 2 ^ 32 - (2 ^ k + 1) by omega,
    Nat.testBit_two_pow_sub_succ hlt, Nat.testBit_two_pow]
  simp [hi]

/-- A flag that is set or cleared by a count. -/
theorem presence_testBit {f k i n : ℕ} (hk : k < 32) (hi : i < 32) :
    (if 0 < n then setFlag f k else clearFlag f k).testBit i =
      if k = i then decide (0 < n) else f.testBit i := by
  rcases Nat.eq_zero_or_pos n with rfl | hn
  · rw [if_neg (lt_irrefl 0), clearFlag_testBit hk hi]
    split_ifs with h <;> simp [h]
  · rw [if_pos hn, setFlag_testBit]
    split_ifs with h <;> simp [h, hn]

/-- What the low flag bits of a written packet are. -/
theorem packetFlags_testBit {f nb ml i : ℕ} (hi : i < 16) :
    (packetFlags f nb ml % 2 ^ 16).testBit i =
      if flagUserReady = i then true
      else if flagMessage = i then decide (0 < ml)
      else if flagBuffers = i then decide (0 < nb)
      else f.testBit i := by
  rw [Nat.testBit_mod_two_pow, decide_eq_true hi, Bool.true_and, packetFlags, setFlag_testBit,
    presence_testBit (by decide) (by omega), presence_testBit (by decide) (by omega)]
  by_cases h : flagUserReady = i
  · rw [if_pos h, decide_eq_true h, Bool.or_true]
  · rw [if_neg h, decide_eq_false h, Bool.or_false]

theorem packetFlags_message (f nb ml : ℕ) :
    (packetFlags f nb ml % 2 ^ 16).testBit flagMessage = decide (0 < ml) :=
  packetFlags_testBit (by decide)

theorem packetFlags_buffers (f nb ml : ℕ) :
    (packetFlags f nb ml % 2 ^ 16).testBit flagBuffers = decide (0 < nb) :=
  packetFlags_testBit (by decide)

theorem packetFlags_wakeup (f nb ml : ℕ) :
    (packetFlags f nb ml % 2 ^ 16).testBit flagWakeup = f.testBit flagWakeup :=
  packetFlags_testBit (by decide)

theorem packetFlags_userReady (f nb ml : ℕ) :
    (packetFlags f nb ml % 2 ^ 16).testBit flagUserReady = true :=
  packetFlags_testBit (by decide)

/-! ### Buffer references -/

@[simp] theorem Buffer.encode_length (b : Buffer) : b.encode.length = 24 := by
  simp [Buffer.encode]

@[simp] theorem encodeBuffers_length (bs : List Buffer) :
    (encodeBuffers bs).length = bs.length * 24 := by
  induction bs with
  | nil => rfl
  | cons b bs ih => simp [encodeBuffers, ih]; omega

/-- Decoding reads back an encoded buffer reference, whatever follows it. -/
theorem Buffer.decode_encode (b : Buffer) (rest : List UInt8) :
    Buffer.decode (b.encode ++ rest) = b := by
  have h32 : ∀ x : UInt32, UInt32.ofNat (ofLe (toLe 4 x.toNat)) = x := fun x => by
    rw [ofLe_toLe_of_lt (by have := x.toNat_lt; omega), UInt32.ofNat_toNat]
  have h64 : UInt64.ofNat (ofLe (toLe 8 b.ptr.toNat)) = b.ptr := by
    rw [ofLe_toLe_of_lt (by have := b.ptr.toNat_lt; omega), UInt64.ofNat_toNat]
  have hdrop : ∀ (k : ℕ) (v : ℕ) (n : ℕ), n ≤ k → (toLe n v).drop k = [] := fun k v n h =>
    List.drop_eq_nil_of_le (by simpa using h)
  simp [Buffer.decode, Buffer.encode, List.drop_append, h32, h64, hdrop]

theorem decodeBuffers_encodeBuffers (bs : List Buffer) :
    decodeBuffers bs.length (encodeBuffers bs) = bs := by
  induction bs with
  | nil => rfl
  | cons b bs ih =>
      simp only [List.length_cons, decodeBuffers, encodeBuffers]
      rw [Buffer.decode_encode, List.drop_left' b.encode_length, ih]

/-! ### Packets -/

/-- The arguments of a write: flags, buffer references and message. -/
structure Packet where
  flags : ℕ
  buffers : List Buffer
  message : List UInt8
  deriving DecidableEq, Repr

namespace Packet

variable (p : Packet)

/-- The size limits that a write checks. -/
structure Bounded : Prop where
  buffers_le : p.buffers.length ≤ maxBuffers
  message_le : p.message.length ≤ maxMessageSize

/-- Length in the queue, before alignment. -/
def len : ℕ := packetLength p.buffers.length p.message.length

/-- The flags in the packet header. -/
def queueFlags : ℕ := packetFlags p.flags p.buffers.length p.message.length % 2 ^ 16

/-- The header that the reader finds. -/
def header : Header := ⟨p.queueFlags, p.buffers.length, p.message.length⟩

/-- The packet is an early wakeup packet. -/
def isWakeup : Bool := p.flags.testBit flagWakeup

/-- The bytes in the queue, with the sequence number that the writer adds. -/
def encode (seqNo : ℕ) : List UInt8 :=
  toLe 8 (packetHeader p.len (packetFlags p.flags p.buffers.length p.message.length)
    p.buffers.length seqNo) ++ (encodeBuffers p.buffers ++ p.message)

@[simp] theorem encode_length (seqNo : ℕ) : (p.encode seqNo).length = p.len := by
  simp [encode, len, packetLength]; omega

theorem eight_le_len : 8 ≤ p.len := by simp only [len, packetLength]; omega

/-- What a read with these output areas delivers. -/
def delivered (args : ReadArgs) : Delivered where
  flags := p.queueFlags
  numBuffers := p.buffers.length
  messageLength := p.message.length
  buffers := args.buffers.map (fun _ => p.buffers)
  message := args.message.map (fun _ => p.message)

/-- The output areas are absent or large enough for the packet. -/
def Fits (args : ReadArgs) : Prop :=
  fitsArea args.buffers p.buffers.length ∧ fitsArea args.message p.message.length

instance (args : ReadArgs) : Decidable (p.Fits args) := inferInstanceAs (Decidable (_ ∧ _))

variable {p}

theorem Bounded.len_le (h : p.Bounded) : p.len ≤ 67080 := by
  have h1 := h.buffers_le
  have h2 := h.message_le
  simp only [maxBuffers, maxMessageSize] at h1 h2
  simp only [len, packetLength]
  omega

end Packet

/-- Packets in the ring, each with its sequence number. -/
def slotFraming : Framing (Packet × ℕ) where
  enc x := x.1.encode x.2
  header_le x := by rw [Packet.encode_length]; exact x.1.eight_le_len

@[simp] theorem slotFraming_enc (x : Packet × ℕ) : slotFraming.enc x = x.1.encode x.2 := rfl

theorem slotFraming_span (x : Packet × ℕ) : slotFraming.span x = alignUp 8 x.1.len := by
  rw [Framing.span, slotFraming_enc, Packet.encode_length]

theorem packetHeader_lt (len flags nb seqNo : ℕ) : packetHeader len flags nb seqNo < 256 ^ 8 := by
  simp only [packetHeader]; omega

/-- **The reader's header is the writer's.** -/
theorem peekLocked_slot {m : Store} {r seqNo : ℕ} {p : Packet} (hp : p.Bounded)
    (h : slice m r 8 = (p.encode seqNo).take 8) : peekLocked m r = .ok p.header := by
  have hlen := hp.len_le
  have hnb := hp.buffers_le
  simp only [maxBuffers] at hnb
  have hd : ofLe (slice m r 8) = packetHeader p.len
      (packetFlags p.flags p.buffers.length p.message.length) p.buffers.length seqNo := by
    rw [h, Packet.encode, List.take_left' (toLe_length _ _),
      ofLe_toLe_of_lt (packetHeader_lt _ _ _ _)]
  generalize hf : packetFlags p.flags p.buffers.length p.message.length = f at hd
  have h1 : packetHeader p.len f p.buffers.length seqNo % 2 ^ 32 = p.len := by
    simp only [packetHeader]; omega
  have h2 : packetHeader p.len f p.buffers.length seqNo / 2 ^ 32 % 2 ^ 16 = f % 2 ^ 16 := by
    simp only [packetHeader]; omega
  have h3 : packetHeader p.len f p.buffers.length seqNo / 2 ^ 48 % 2 ^ 8 = p.buffers.length := by
    simp only [packetHeader]; omega
  have hnb' : (if (f % 2 ^ 16).testBit flagBuffers = true then p.buffers.length else 0) =
      p.buffers.length := by
    rw [← hf, packetFlags_buffers]
    split_ifs with hb
    · rfl
    · simp at hb; simp [hb]
  have hml : (if (f % 2 ^ 16).testBit flagMessage = true then p.len - 8 - p.buffers.length * 24
      else 0) = p.message.length := by
    rw [← hf, packetFlags_message]
    split_ifs with hb
    · simp only [Packet.len, packetLength]; omega
    · simp at hb; simp [hb]
  have hq : f % 2 ^ 16 = p.queueFlags := by rw [Packet.queueFlags, hf]
  simp only [peekLocked, hd, h1, h2, h3, hnb', hml]
  have hle : 8 + p.buffers.length * 24 ≤ p.len := Nat.le_add_right _ _
  rw [decide_eq_true hle, hq]
  rfl

end FastRpc
