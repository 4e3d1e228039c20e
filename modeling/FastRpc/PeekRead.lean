import FastRpc.EarlyWakeup

/-! # Peeking and the read that follows

A multi-domain queue has one ring for each of its domains.  `dspqueue_multidomain_read` visits
them one after the other, for a peek as for a read, and stops at the first that is not empty;
the peers go on writing between the visits.  `Multi` is such a queue with the history of its
reads, and each visit is a step of its own.  A queue that is not multi-domain is the case of one
ring: the scan then returns what the call on that ring returns.

`peek_agrees` says when a read returns the packet that the peek before it has announced.  It does not
always (`peek_disagrees`): a peek announces early wakeup packets, which the read consumes, and a
packet that reaches an earlier domain after the peek is returned in place of the announced one. -/

namespace FastRpc

open ByteStore FramedRing Transition

/-! ### The calls on one ring -/

/-- `dspqueue_peek_noblock` on a queue of one domain. -/
def dspqueuePeekNoblock (q : Queue) : Except Fault Header := do
  let (qleft, r) ← getQueueStateRead q
  verifyC (8 ≤ qleft) .EWOULDBLOCK
  peekLocked q.bytes r

/-- What a read stores through `flags`, `num_buffers` and `message_length`. -/
def Delivered.header (d : Delivered) : Header := ⟨d.flags, d.numBuffers, d.messageLength⟩

/-- The output areas are absent or large enough for a packet with this header. -/
def Header.Fits (h : Header) (args : ReadArgs) : Prop :=
  fitsArea args.buffers h.numBuffers ∧ fitsArea args.message h.messageLength

/-- The change of the reference count that the flags of a buffer ask for. -/
def Buffer.change (b : Buffer) : ℤ := if b.isRef then 1 else if b.isDeref then -1 else 0

/-- The buffer is mapped, its flags ask for one change of the count at most, and its part of the
mapping lies within it. -/
def Buffer.Found (bufferRef : BufferRef) (b : Buffer) : Prop :=
  ¬ (b.isRef = true ∧ b.isDeref = true) ∧ ∃ va size, bufferRef b.fd b.change = .ok (va, size) ∧
    (b.size ≠ 0 → b.offset.toNat + b.size.toNat ≤ size) ∧ (b.size = 0 → b.offset = 0)

/-- The signal for freed space can be sent if the peer waits for it. -/
def Env.Signals (env : Env) (q : Queue) : Prop := signalsSpace q = true → env.sendSignal = .ok ()

/-! ### The scan of the domains -/

/-- The call that the consumer is in, with the domain whose ring comes next. -/
inductive MultiCall
  | idle
  | peeking (i : ℕ)
  | reading (args : ReadArgs) (i : ℕ)
  | polling (args : ReadArgs) (i : ℕ)

/-- The output areas of an open read. -/
def MultiCall.areas : MultiCall → Option ReadArgs
  | .idle => none
  | .peeking _ => none
  | .reading args _ => some args
  | .polling args _ => some args

/-- A read that has ended, with the header that the last peek since the read before it returned. -/
structure ReadRecord where
  peeked : Option Header
  args : ReadArgs
  result : Except Fault Delivered

/-- The rings of a multi-domain queue, the open call, the domain and the header of the last peek
that succeeded since the last read, and the reads. -/
structure Multi where
  queues : List Sys
  call : MultiCall
  peeked : Option (ℕ × Header)
  reads : List ReadRecord

/-- A packet written by the peer of one domain, a call of the consumer, or a step of one. -/
inductive MultiOp
  | write (i : ℕ) (env : Env) (flags : ℕ) (buffers : List Buffer) (message : List UInt8)
  | earlyWakeup (i : ℕ) (env : Env) (wakeupDelay : UInt32) (packetFlags : ℕ)
  | peek
  | peekQueue
  | read (args : ReadArgs)
  | readQueue (env : Env)
  | poll (env : Env)
  | timeout

/-- Normal writes do not carry the wakeup flag. -/
def MultiOp.FollowsAlgorithm : MultiOp → Prop
  | .write _ _ flags _ _ => flags.testBit flagWakeup = false
  | _ => True

namespace Multi

/-- The rings before their first use. -/
def init (qs : List Queue) : Multi := ⟨qs.map Sys.init, .idle, none, []⟩

/-- The ring of domain `i` becomes `s`. -/
def setQueue (m : Multi) (i : ℕ) (s : Sys) : Multi := { m with queues := m.queues.set i s }

/-- A read ends. -/
def finish (m : Multi) (args : ReadArgs) (result : Except Fault Delivered) : Multi :=
  { m with
    call := .idle
    peeked := none
    reads := m.reads ++ [⟨m.peeked.map Prod.snd, args, result⟩] }

/-- The scan goes on behind domain `i`: its ring is empty and is not the last one. -/
def goesOn (m : Multi) (i : ℕ) (e : Fault) : Bool :=
  e = .error .EWOULDBLOCK ∧ i + 1 < m.queues.length

/-- A read that gets no packet from domain `i` goes on to the next one or ends. -/
def proceed (m : Multi) (args : ReadArgs) (i : ℕ) (e : Fault) : Multi :=
  if m.goesOn i e then { m with call := .reading args (i + 1) } else m.finish args (.error e)

/-- A peek visits the ring `s` of domain `i`. -/
def peekQueue (m : Multi) (i : ℕ) (s : Sys) : Multi :=
  match dspqueuePeekNoblock s.queue with
  | .ok h => { m with call := .idle, peeked := some (i, h) }
  | .error e => { m with call := if m.goesOn i e then .peeking (i + 1) else .idle }

/-- A read visits the ring `s` of domain `i`. -/
def readQueue (m : Multi) (env : Env) (args : ReadArgs) (i : ℕ) (s : Sys) : Multi :=
  let t := m.setQueue i (s.stepRead env args)
  match (dspqueueReadNoblock env s.queue args).2 with
  | .ok (.packet d) => t.finish args (.ok d)
  | .ok (.polling _) => { t with call := .polling args i }
  | .error e => t.proceed args i e

/-- A read polls the ring `s` of domain `i`. -/
def pollQueue (m : Multi) (env : Env) (args : ReadArgs) (i : ℕ) (s : Sys) : Multi :=
  let t := m.setQueue i (s.stepPoll env args)
  match (dspqueueReadPoll env s.queue args).2 with
  | .ok (some d) => t.finish args (.ok d)
  | .ok none => t
  | .error e => t.proceed args i e

/-- The time of a read at domain `i` is over. -/
def timeoutQueue (m : Multi) (args : ReadArgs) (i : ℕ) (s : Sys) : Multi :=
  (m.setQueue i { s with queue := readTimeout s.queue, polling := none }).proceed args i
    (.error .EWOULDBLOCK)

/-- One step. -/
def step (m : Multi) : MultiOp → Option Multi
  | .write i env flags buffers message =>
      m.queues[i]?.map (fun s => m.setQueue i (s.stepWrite env ⟨flags, buffers, message⟩))
  | .earlyWakeup i env wakeupDelay packetFlags =>
      m.queues[i]?.map (fun s => m.setQueue i (s.stepWrite env
        ⟨wakeupFlags packetFlags, [], wakeupMessage wakeupDelay⟩))
  | .peek =>
      match m.call with
      | .idle => some { m with call := .peeking 0 }
      | _ => none
  | .peekQueue =>
      match m.call with
      | .peeking i => m.queues[i]?.map (m.peekQueue i)
      | _ => none
  | .read args =>
      match m.call with
      | .idle => some { m with call := .reading args 0 }
      | _ => none
  | .readQueue env =>
      match m.call with
      | .reading args i => m.queues[i]?.map (m.readQueue env args i)
      | _ => none
  | .poll env =>
      match m.call with
      | .polling args i => m.queues[i]?.map (m.pollQueue env args i)
      | _ => none
  | .timeout =>
      match m.call with
      | .polling args i => m.queues[i]?.map (m.timeoutQueue args i)
      | _ => none

end Multi

/-! ### The property and its condition -/

/-- A read whose output areas hold the announced packet returns a packet with its header. -/
def ReadRecord.Agrees (x : ReadRecord) : Prop :=
  ∀ h, x.peeked = some h → h.Fits x.args → ∃ d, x.result = .ok d ∧ d.header = h

/-- A bound on the steps that an open read of `n` domains still takes, polls that find nothing
apart. -/
def MultiCall.remaining (n : ℕ) : MultiCall → ℕ
  | .idle => 0
  | .peeking _ => 0
  | .reading _ i => 2 * (n - i)
  | .polling _ i => 2 * (n - i) - 1

namespace Multi

/-- The steps that an open read still takes. -/
def remaining (m : Multi) : ℕ := m.call.remaining m.queues.length

/-- **Peek agrees with read**: every read that has ended agrees with the peek before it, and an open
read comes to its end, whatever the peers do between its steps. -/
structure PeekAgrees (m : Multi) : Prop where
  agrees : ∀ x ∈ m.reads, x.Agrees
  readQueue : ∀ args i env, m.call = .reading args i →
    ∃ t, m.step (.readQueue env) = some t ∧ t.remaining < m.remaining
  poll : ∀ args i env, m.call = .polling args i →
    ∃ t, m.step (.poll env) = some t ∧ t.remaining ≤ m.remaining
  timeout : ∀ args i, m.call = .polling args i →
    ∃ t, m.step .timeout = some t ∧ t.remaining < m.remaining

/-- The visit of domain `i` does not part a read from a peek that has announced a packet of domain
`k`: before that domain it finds nothing or an early wakeup packet, and there the announced packet
is none. -/
def Keeps (env : Env) (args : ReadArgs) (i k : ℕ) (s : Sys) : Prop :=
  if i = k then ∀ p ∈ s.pending.head?, p.isWakeup = false ∧ env.Signals s.queue ∧
    (args.buffers ≠ none → ∀ b ∈ p.buffers, b.Found env.bufferRef)
  else ∀ p ∈ s.pending.head?, p.isWakeup = true ∧ env.Signals s.queue

/-- The reads do not meet one of the situations that the code treats wrongly. -/
def Undisturbed (m : Multi) : MultiOp → Prop
  | .readQueue env => ∀ args i s, m.call = .reading args i → m.queues[i]? = some s →
      ¬ s.WakeupAtEnd ∧ ∀ k h, m.peeked = some (k, h) → h.Fits args → Keeps env args i k s
  | .poll _ => ∀ args i s, m.call = .polling args i → m.queues[i]? = some s →
      ∀ k h, m.peeked = some (k, h) → h.Fits args → s.pending = []
  | _ => True

end Multi

/-! ### What the calls on one ring return -/

theorem peekNoblock_nil {q : Queue} (h : Simulates q []) :
    dspqueuePeekNoblock q = .error (.error .EWOULDBLOCK) := by
  have h0 := h.dataLeft_eq_zero.mpr rfl
  simp only [dspqueuePeekNoblock, getQueueStateRead_eq h.length_lt h.positions, ok_bind, h0]
  rfl

theorem peekNoblock_cons {q : Queue} {x : Packet × ℕ} {xs : List (Packet × ℕ)}
    (h : Simulates q (x :: xs)) : dspqueuePeekNoblock q = .ok x.1.header := by
  obtain ⟨start, _, _, _, _, hpeek, _, _⟩ := h.first
  have h8 := h.eight_le_dataLeft (List.cons_ne_nil x xs)
  simp only [dspqueuePeekNoblock, getQueueStateRead_eq h.length_lt h.positions, ok_bind,
    verifyC_pos h8, hpeek]

/-- Reading a packet changes the queue by consuming it. -/
theorem readPacket_consumes {q q' : Queue} {args : ReadArgs} {qleft r : ℕ} {h : Header}
    {d : Delivered} (hread : readPacket q args qleft r h = .ok (q', d)) :
    ∃ r', q' = consume q r' := by
  simp only [readPacket] at hread
  obtain ⟨_, _, hread⟩ := bind_eq_ok.mp hread
  obtain ⟨_, _, hread⟩ := bind_eq_ok.mp hread
  obtain ⟨_, _, hread⟩ := bind_eq_ok.mp hread
  obtain ⟨_, _, hread⟩ := bind_eq_ok.mp hread
  obtain ⟨_, _, hread⟩ := bind_eq_ok.mp hread
  obtain ⟨_, _, hread⟩ := bind_eq_ok.mp hread
  obtain ⟨_, _, hread⟩ := bind_eq_ok.mp hread
  obtain ⟨_, _, hread⟩ := bind_eq_ok.mp hread
  exact ⟨_, (congrArg Prod.fst (Except.ok.inj hread)).symm⟩

theorem readWakeup_consumes {q q' : Queue} {qleft r waittime : ℕ} {h : Header}
    (hread : readWakeup q qleft r h = .ok (q', waittime)) : ∃ r', q' = consume q r' := by
  simp only [readWakeup] at hread
  obtain ⟨_, _, hread⟩ := bind_eq_ok.mp hread
  obtain ⟨_, _, hread⟩ := bind_eq_ok.mp hread
  split_ifs at hread
  · obtain ⟨_, _, hread⟩ := bind_eq_ok.mp hread
    obtain ⟨_, _, hread⟩ := bind_eq_ok.mp hread
    exact ⟨_, (congrArg Prod.fst (Except.ok.inj hread)).symm⟩
  · exact ⟨_, (congrArg Prod.fst (Except.ok.inj hread)).symm⟩

theorem readStart_consumes {q q' : Queue} {args : ReadArgs} {o : ReadOutcome}
    (hread : readStart q args = .ok (q', o)) : ∃ r', q' = consume q r' := by
  simp only [readStart] at hread
  obtain ⟨_, _, hread⟩ := bind_eq_ok.mp hread
  obtain ⟨_, _, hread⟩ := bind_eq_ok.mp hread
  obtain ⟨_, _, hread⟩ := bind_eq_ok.mp hread
  obtain ⟨h, _, hread⟩ := bind_eq_ok.mp hread
  split_ifs at hread
  · obtain ⟨result, hresult, hread⟩ := bind_eq_ok.mp hread
    obtain rfl := congrArg Prod.fst (Except.ok.inj hread)
    exact readWakeup_consumes hresult
  · obtain ⟨result, hresult, hread⟩ := bind_eq_ok.mp hread
    obtain rfl := congrArg Prod.fst (Except.ok.inj hread)
    exact readPacket_consumes hresult

theorem readPoll_consumes {q q' : Queue} {args : ReadArgs} {d : Delivered}
    (hread : readPoll q args = .ok (some (q', d))) : ∃ r', q' = consume q r' := by
  simp only [readPoll] at hread
  obtain ⟨_, _, hread⟩ := bind_eq_ok.mp hread
  split_ifs at hread
  · cases hread
  · obtain ⟨_, _, hread⟩ := bind_eq_ok.mp hread
    obtain ⟨result, hresult, hread⟩ := bind_eq_ok.mp hread
    obtain rfl := Option.some.inj (Except.ok.inj hread)
    exact readPacket_consumes hresult

/-- Whether the peer waits for space does not change in the ring code of a read. -/
theorem readStart_signalsSpace {q q' : Queue} {args : ReadArgs} {o : ReadOutcome}
    (hread : readStart q args = .ok (q', o)) : signalsSpace q' = signalsSpace q := by
  obtain ⟨r', rfl⟩ := readStart_consumes hread
  rfl

theorem Env.Signals.signal {env : Env} {q : Queue} (h : env.Signals q) :
    env.signal (signalsSpace q) = .ok () := by
  cases hs : signalsSpace q with
  | true => exact Env.signal_ok (h hs) true
  | false => rfl

/-- The lookup of a buffer that is mapped succeeds. -/
theorem Buffer.Found.attach {bufferRef : BufferRef} {b : Buffer} (h : b.Found bufferRef) :
    ∃ b', attachBuffer bufferRef b = .ok b' := by
  obtain ⟨hflags, va, size, href, hin, hoff⟩ := h
  have hlookup : refBuffer bufferRef b = .ok (va, size) := by
    rw [Buffer.change] at href
    unfold refBuffer
    cases hr : b.isRef with
    | true =>
        have hd : b.isDeref = false := Bool.eq_false_iff.mpr (fun hd => hflags ⟨hr, hd⟩)
        simp only [hr, if_true] at href
        simp [hd, href]
    | false =>
        simp only [hr, Bool.false_eq_true, if_false] at href
        cases hd : b.isDeref with
        | true =>
            simp only [hd, if_true] at href
            simp [href]
        | false =>
            simp only [hd, Bool.false_eq_true, if_false] at href
            simp [href]
  simp only [attachBuffer, hlookup, ok_bind]
  by_cases hsize : b.size = 0
  · rw [if_neg (not_not.mpr hsize), verifyC_pos (hoff hsize)]
    exact ⟨_, rfl⟩
  · rw [if_pos hsize, verifyC_pos (hin hsize)]
    exact ⟨_, rfl⟩

theorem readRefs_found {bufferRef : BufferRef} {bs : List Buffer}
    (h : ∀ b ∈ bs, b.Found bufferRef) : ∃ bs', readRefs bufferRef bs = .ok bs' := by
  induction bs with
  | nil => exact ⟨[], rfl⟩
  | cons b bs ih =>
      obtain ⟨b', hb⟩ := (h b List.mem_cons_self).attach
      obtain ⟨bs', hbs⟩ := ih (fun c hc => h c (List.mem_cons_of_mem b hc))
      exact ⟨b' :: bs', by rw [readRefs, hb, ok_bind, hbs]; rfl⟩

/-! ### One ring whose peer follows the write algorithm -/

/-- The ring holds the packets placed and not yet passed, and its early wakeup packets are as
`dspqueue_write_early_wakeup_noblock` writes them. -/
structure Sys.Produced (s : Sys) : Prop where
  inv : s.Inv
  plain : ∀ p ∈ s.placed, p.isWakeup = true → p.PlainWakeup

namespace Sys

variable {s : Sys} {env : Env} {args : ReadArgs} {p : Packet} {rest : List Packet}

theorem produced_init {q : Queue} (h : q.Unused) : (init q).Produced :=
  ⟨inv_init h, fun _ hp => absurd hp List.not_mem_nil⟩

theorem Produced.first_plain (h : s.Produced) (hp : s.pending = p :: rest)
    (hw : p.isWakeup = true) : p.PlainWakeup :=
  h.plain p (List.mem_of_mem_drop (by rw [← pending, hp]; exact List.mem_cons_self)) hw

/-- A write leaves the packets in the ring where they are. -/
theorem pending_stepWrite (h : s.Inv) (env : Env) (p : Packet) :
    ∃ more, (s.stepWrite env p).pending = s.pending ++ more := by
  rcases (stepWrite_cases h env p).2.2 with ht | ⟨hplaced, _⟩
  · exact ⟨[], by rw [ht, List.append_nil]⟩
  · have hconsumed : (s.stepWrite env p).consumed = s.consumed := rfl
    refine ⟨[p], ?_⟩
    rw [pending, hplaced, hconsumed, List.drop_append_of_le_length h.consumed_le, pending]

theorem Produced.stepWrite (h : s.Produced) (env : Env)
    (hp : p.isWakeup = true → p.PlainWakeup) : (s.stepWrite env p).Produced := by
  obtain ⟨hinv, _, hw⟩ := stepWrite_cases h.inv env p
  rcases hw with ht | ⟨hplaced, _⟩
  · rw [ht]; exact h
  · refine ⟨hinv, fun p' hp' => ?_⟩
    rw [hplaced] at hp'
    rcases List.mem_append.mp hp' with hp' | hp'
    · exact h.plain p' hp'
    · rw [List.mem_singleton.mp hp']; exact hp

theorem Produced.stepRead (h : s.Produced) (hend : ¬ s.WakeupAtEnd) (env : Env)
    (args : ReadArgs) : (s.stepRead env args).Produced :=
  ⟨(stepRead_cases h.inv hend env args).1, h.plain⟩

theorem Produced.stepPoll (h : s.Produced) (env : Env) (args : ReadArgs) :
    (s.stepPoll env args).Produced :=
  ⟨(stepPoll_cases h.inv env args).1, h.plain⟩

theorem Produced.timeout (h : s.Produced) :
    Produced { s with queue := readTimeout s.queue, polling := none } := by
  obtain ⟨slots, hslots, hsim⟩ := h.inv.simulates
  exact ⟨⟨h.inv.consumed_le, slots, hslots, hsim.sixteen_le, hsim.length_lt, hsim.same_count,
    hsim.positions, hsim.layout, hsim.bounded⟩, h.plain⟩

/-- A peek that succeeds returns the header of the first packet. -/
theorem peek_first {h : Header} (hinv : s.Inv) (hpeek : dspqueuePeekNoblock s.queue = .ok h) :
    ∃ p rest, s.pending = p :: rest ∧ p.header = h := by
  cases hp : s.pending with
  | nil =>
      rw [peekNoblock_nil (hinv.slots_nil hp)] at hpeek
      cases hpeek
  | cons p rest =>
      obtain ⟨seqNo, slots, _, hsim⟩ := hinv.slots_cons hp
      rw [peekNoblock_cons hsim] at hpeek
      exact ⟨p, rest, rfl, Except.ok.inj hpeek⟩

theorem read_nil (hinv : s.Inv) (hp : s.pending = []) (env : Env) (args : ReadArgs) :
    (dspqueueReadNoblock env s.queue args).2 = .error (.error .EWOULDBLOCK) := by
  simp only [dspqueueReadNoblock, readStart_nil (hinv.slots_nil hp)]

theorem poll_nil (hinv : s.Inv) (hp : s.pending = []) (env : Env) (args : ReadArgs) :
    (dspqueueReadPoll env s.queue args).2 = .ok none := by
  simp only [dspqueueReadPoll, readPoll_nil (hinv.slots_nil hp)]

/-- A read that meets an early wakeup packet goes on to poll. -/
theorem read_wakeup (hinv : s.Inv) (hp : s.pending = p :: rest) (hplain : p.PlainWakeup)
    (hsig : env.Signals s.queue) :
    ∃ waittime, (dspqueueReadNoblock env s.queue args).2 = .ok (.polling waittime) := by
  obtain ⟨seqNo, slots, _, hsim⟩ := hinv.slots_cons hp
  obtain ⟨q', waittime, hread, _⟩ := readStart_wakeup args hsim hplain
  refine ⟨waittime, ?_⟩
  simp only [dspqueueReadNoblock, hread, readStart_signalsSpace hread, hsig.signal]
  rfl

/-- A read returns the header of the first packet when it is a normal one. -/
theorem read_normal (hinv : s.Inv) (hp : s.pending = p :: rest) (hn : p.isWakeup = false)
    (hfits : p.Fits args) (hsig : env.Signals s.queue)
    (hfound : args.buffers ≠ none → ∀ b ∈ p.buffers, b.Found env.bufferRef) :
    ∃ d, (dspqueueReadNoblock env s.queue args).2 = .ok (.packet d) ∧ d.header = p.header := by
  obtain ⟨seqNo, slots, _, hsim⟩ := hinv.slots_cons hp
  obtain ⟨q', hread, _⟩ := readStart_normal hsim hn hfits
  have hfinish : ∃ d, readFinish env q' (p.delivered args) = .ok d := by
    simp only [readFinish, readStart_signalsSpace hread, hsig.signal, ok_bind, Packet.delivered]
    cases hb : args.buffers with
    | none => exact ⟨_, rfl⟩
    | some max =>
        obtain ⟨bs, hbs⟩ := readRefs_found (hfound (by rw [hb]; exact Option.some_ne_none max))
        simp only [Option.map_some, hbs, ok_bind]
        exact ⟨_, rfl⟩
  obtain ⟨d, hd⟩ := hfinish
  have hdel := readFinish_delivers hd
  refine ⟨d, by simp only [dspqueueReadNoblock, hread, hd]; rfl, ?_⟩
  rw [Delivered.header, hdel.flags, hdel.numBuffers, hdel.messageLength, Packet.header]

end Sys

/-! ### The invariant -/

namespace Multi

/-- The announced packet is the first of its ring, and an open read has not gone past it. -/
structure Announced (m : Multi) (k : ℕ) (h : Header) : Prop where
  first : ∃ s p rest, m.queues[k]? = some s ∧ s.pending = p :: rest ∧ p.header = h
  reading : ∀ args i, m.call = .reading args i → i ≤ k
  polling : ∀ args i, m.call = .polling args i → i < k

/-- The rings hold what their peers have written, the scan is at one of them, every read has agreed
with its peek, and the packet of the last peek is still there. -/
structure Sound (m : Multi) : Prop where
  nonempty : m.queues ≠ []
  queues : ∀ s ∈ m.queues, s.Produced
  reading : ∀ args i, m.call = .reading args i → i < m.queues.length
  polling : ∀ args i, m.call = .polling args i → i < m.queues.length
  agrees : ∀ x ∈ m.reads, x.Agrees
  announced : ∀ k h, m.peeked = some (k, h) → (∀ args, m.call.areas = some args → h.Fits args) →
    m.Announced k h

variable {m t : Multi} {i : ℕ} {s s' : Sys} {env : Env} {args : ReadArgs}

theorem sound_init {qs : List Queue} (hne : qs ≠ []) (hq : ∀ q ∈ qs, q.Unused) :
    (init qs).Sound where
  nonempty := fun hnil => hne (List.map_eq_nil_iff.mp hnil)
  queues := by
    intro s hs
    obtain ⟨q, hqs, rfl⟩ := List.mem_map.mp hs
    exact Sys.produced_init (hq q hqs)
  reading := by intro args i h; cases h
  polling := by intro args i h; cases h
  agrees := by intro x hx; cases hx
  announced := by intro k h hpeeked; cases hpeeked

theorem produced_setQueue (hm : ∀ s ∈ m.queues, s.Produced) (i : ℕ) (hs : s'.Produced) :
    ∀ s ∈ (m.setQueue i s').queues, s.Produced := by
  intro s hmem
  rcases List.mem_or_eq_of_mem_set hmem with hmem | rfl
  · exact hm s hmem
  · exact hs

/-- A change of one ring keeps the invariant if the announced packet stays first where it lies in
that ring. -/
theorem Sound.setQueue (h : m.Sound) (hs : s'.Produced)
    (hfirst : ∀ k hd, m.peeked = some (k, hd) →
      (∀ args, m.call.areas = some args → hd.Fits args) → i = k → m.Announced k hd →
        ∃ p rest, s'.pending = p :: rest ∧ p.header = hd) : (m.setQueue i s').Sound where
  nonempty := fun hnil => h.nonempty ((List.set_eq_nil_iff i _).mp hnil)
  queues := produced_setQueue h.queues i hs
  reading := by
    intro args j hj
    rw [Multi.setQueue, List.length_set]
    exact h.reading args j hj
  polling := by
    intro args j hj
    rw [Multi.setQueue, List.length_set]
    exact h.polling args j hj
  agrees := h.agrees
  announced := by
    intro k hd hpeeked hfits
    have ha := h.announced k hd hpeeked hfits
    refine ⟨?_, ha.reading, ha.polling⟩
    obtain ⟨s₀, p, rest, hk, hp, hhd⟩ := ha.first
    by_cases hik : i = k
    · obtain ⟨p', rest', hp', hhd'⟩ := hfirst k hd hpeeked hfits hik ha
      subst hik
      exact ⟨s', p', rest', List.getElem?_set_self (List.getElem?_eq_some_iff.mp hk).1, hp', hhd'⟩
    · exact ⟨s₀, p, rest, by rw [Multi.setQueue, List.getElem?_set_ne hik]; exact hk, hp, hhd⟩

/-- **Writes** keep the invariant: they add packets behind the announced one. -/
theorem Sound.write {p : Packet} (h : m.Sound) (hi : m.queues[i]? = some s)
    (hp : p.isWakeup = true → p.PlainWakeup) (env : Env) :
    (m.setQueue i (s.stepWrite env p)).Sound := by
  have hs := h.queues s (List.mem_of_getElem? hi)
  refine h.setQueue (hs.stepWrite env hp) (fun k hd _ _ hik ha => ?_)
  subst hik
  obtain ⟨s₀, p₀, rest, hk, hp₀, hhd⟩ := ha.first
  obtain rfl := Option.some.inj (hi.symm.trans hk)
  obtain ⟨more, hmore⟩ := Sys.pending_stepWrite hs.inv env p
  exact ⟨p₀, rest ++ more, by rw [hmore, hp₀, List.cons_append], hhd⟩

theorem sound_finish {result : Except Fault Delivered} (hne : m.queues ≠ [])
    (hm : ∀ s ∈ m.queues, s.Produced) (hr : ∀ x ∈ m.reads, x.Agrees)
    (hagree : ∀ k h, m.peeked = some (k, h) → h.Fits args → ∃ d, result = .ok d ∧ d.header = h) :
    (m.finish args result).Sound where
  nonempty := hne
  queues := hm
  reading := by intro args i h; cases h
  polling := by intro args i h; cases h
  agrees := by
    intro x hx
    rcases List.mem_append.mp hx with hx | hx
    · exact hr x hx
    · obtain rfl := List.mem_singleton.mp hx
      intro h hpeeked hfits
      obtain ⟨⟨k, _⟩, hm', rfl⟩ := Option.map_eq_some_iff.mp hpeeked
      exact hagree k _ hm' hfits
  announced := by intro k h hpeeked; cases hpeeked

/-- A read that goes on has not come to the announced packet yet, which lies behind. -/
theorem Sound.proceed {e : Fault} (h : m.Sound) (hc : m.call.areas = some args)
    (hgo : ∀ k hd, m.peeked = some (k, hd) → hd.Fits args → i < k ∧ e = .error .EWOULDBLOCK) :
    (m.proceed args i e).Sound := by
  have hann : ∀ k hd, m.peeked = some (k, hd) → hd.Fits args → m.Announced k hd :=
    fun k hd hpeeked hfits => h.announced k hd hpeeked
      (fun args' hargs' => Option.some.inj (hc.symm.trans hargs') ▸ hfits)
  unfold Multi.proceed
  split_ifs with hgoes
  · simp only [goesOn, Bool.decide_and, Bool.and_eq_true, decide_eq_true_eq] at hgoes
    refine ⟨h.nonempty, h.queues, ?_, ?_, h.agrees, ?_⟩
    · intro args' j hj
      obtain ⟨_, rfl⟩ := MultiCall.reading.inj hj
      exact hgoes.2
    · intro args' j hj
      cases hj
    · intro k hd hpeeked hfits
      have hf := hfits args rfl
      refine ⟨(hann k hd hpeeked hf).first, ?_, ?_⟩
      · intro args' j hj
        obtain ⟨_, rfl⟩ := MultiCall.reading.inj hj
        exact (hgo k hd hpeeked hf).1
      · intro args' j hj
        cases hj
  · refine sound_finish h.nonempty h.queues h.agrees (fun k hd hpeeked hfits => ?_)
    obtain ⟨hik, rfl⟩ := hgo k hd hpeeked hfits
    obtain ⟨s, p, rest, hk, _, _⟩ := (hann k hd hpeeked hfits).first
    have hlt := (List.getElem?_eq_some_iff.mp hk).1
    refine absurd ?_ hgoes
    simp only [goesOn, Bool.decide_and, Bool.and_eq_true, decide_eq_true_eq]
    exact ⟨trivial, by omega⟩

/-- What a visit finds while a packet of domain `k` is announced: that packet, or nothing for the
client in a domain before it. -/
theorem Announced.visit {k : ℕ} {hd : Header} (ha : m.Announced k hd)
    (hc : m.call = .reading args i) (hi : m.queues[i]? = some s) (hs : s.Produced)
    (hfits : hd.Fits args) (hkeep : Keeps env args i k s) :
    (∃ d, (dspqueueReadNoblock env s.queue args).2 = .ok (.packet d) ∧ d.header = hd) ∨
    (i < k ∧ ((dspqueueReadNoblock env s.queue args).2 = .error (.error .EWOULDBLOCK) ∨
      ∃ waittime, (dspqueueReadNoblock env s.queue args).2 = .ok (.polling waittime))) := by
  rcases Nat.lt_or_eq_of_le (ha.reading args i hc) with hik | rfl
  · refine .inr ⟨hik, ?_⟩
    rw [Keeps, if_neg (by omega)] at hkeep
    cases hp : s.pending with
    | nil => exact .inl (Sys.read_nil hs.inv hp env args)
    | cons p rest =>
        obtain ⟨hw, hsig⟩ := hkeep p (by rw [hp]; rfl)
        exact .inr (Sys.read_wakeup hs.inv hp (hs.first_plain hp hw) hsig)
  · obtain ⟨s₀, p, rest, hk, hp, rfl⟩ := ha.first
    obtain rfl := Option.some.inj (hi.symm.trans hk)
    rw [Keeps, if_pos rfl] at hkeep
    obtain ⟨hn, hsig, hfound⟩ := hkeep p (by rw [hp]; rfl)
    exact .inl (Sys.read_normal hs.inv hp hn hfits hsig hfound)

/-- **Visits of a read** keep the invariant. -/
theorem Sound.readQueue (h : m.Sound) (hc : m.call = .reading args i)
    (hi : m.queues[i]? = some s) (hend : ¬ s.WakeupAtEnd)
    (hkeep : ∀ k hd, m.peeked = some (k, hd) → hd.Fits args → Keeps env args i k s) :
    (m.readQueue env args i s).Sound := by
  have hs := h.queues s (List.mem_of_getElem? hi)
  have hs' := hs.stepRead hend env args
  have hareas : m.call.areas = some args := by rw [hc]; rfl
  have hvisit : ∀ k hd, m.peeked = some (k, hd) → hd.Fits args → _ := fun k hd hpeeked hfits =>
    (h.announced k hd hpeeked (fun args' hargs' =>
      Option.some.inj (hareas.symm.trans hargs') ▸ hfits)).visit hc hi hs hfits
        (hkeep k hd hpeeked hfits)
  -- unless the announced packet is returned, it lies behind the ring that has changed
  have hset : (∀ d, (dspqueueReadNoblock env s.queue args).2 ≠ .ok (.packet d)) →
      (m.setQueue i (s.stepRead env args)).Sound := by
    intro hne
    refine h.setQueue hs' (fun k hd hpeeked hfits hik _ => ?_)
    rcases hvisit k hd hpeeked (hfits args hareas) with ⟨d, hd', _⟩ | ⟨hlt, _⟩
    · exact absurd hd' (hne d)
    · omega
  unfold Multi.readQueue
  cases hr : (dspqueueReadNoblock env s.queue args).2 with
  | error e =>
      rw [hr] at hset hvisit
      refine (hset (fun d hd => by cases hd)).proceed hareas (fun k hd hpeeked hfits => ?_)
      rcases hvisit k hd hpeeked hfits with ⟨d, hd', _⟩ | ⟨hlt, he | ⟨_, he⟩⟩
      · cases hd'
      · exact ⟨hlt, Except.error.inj he⟩
      · cases he
  | ok o =>
      rw [hr] at hset hvisit
      cases o with
      | packet d =>
          refine sound_finish (fun hnil => h.nonempty ((List.set_eq_nil_iff i _).mp hnil))
            (produced_setQueue h.queues i hs') h.agrees (fun k hd hpeeked hfits => ?_)
          rcases hvisit k hd hpeeked hfits with ⟨d', hd', hhd⟩ | ⟨_, he | ⟨_, he⟩⟩
          · obtain rfl := ReadOutcome.packet.inj (Except.ok.inj hd')
            exact ⟨d, rfl, hhd⟩
          · cases he
          · cases he
      | polling waittime =>
          have hset := hset (fun d hd => by cases hd)
          refine ⟨hset.nonempty, hset.queues, ?_, ?_, hset.agrees, ?_⟩
          · intro args' j hj
            cases hj
          · intro args' j hj
            obtain ⟨rfl, rfl⟩ := MultiCall.polling.inj hj
            rw [Multi.setQueue, List.length_set]
            exact h.reading args i hc
          · intro k hd hpeeked hfits
            have hf := hfits args rfl
            have ha := hset.announced k hd hpeeked (fun args' hargs' =>
              Option.some.inj (hareas.symm.trans hargs') ▸ hf)
            refine ⟨ha.first, ?_, ?_⟩
            · intro args' j hj
              cases hj
            · intro args' j hj
              obtain ⟨rfl, rfl⟩ := MultiCall.polling.inj hj
              rcases hvisit k hd hpeeked hf with ⟨d, hd', _⟩ | ⟨hlt, _⟩
              · cases hd'
              · exact hlt

/-- **Polls** keep the invariant: before the announced packet they find nothing. -/
theorem Sound.pollQueue (h : m.Sound) (hc : m.call = .polling args i)
    (hi : m.queues[i]? = some s)
    (hkeep : ∀ k hd, m.peeked = some (k, hd) → hd.Fits args → s.pending = []) :
    (m.pollQueue env args i s).Sound := by
  have hs := h.queues s (List.mem_of_getElem? hi)
  have hs' := hs.stepPoll env args
  have hareas : m.call.areas = some args := by rw [hc]; rfl
  have hnone : ∀ k hd, m.peeked = some (k, hd) → hd.Fits args →
      (dspqueueReadPoll env s.queue args).2 = .ok none := fun k hd hpeeked hfits =>
    Sys.poll_nil hs.inv (hkeep k hd hpeeked hfits) env args
  have hset : (m.setQueue i (s.stepPoll env args)).Sound := by
    refine h.setQueue hs' (fun k hd _ _ hik ha => ?_)
    exact absurd (ha.polling args i hc) (by omega)
  unfold Multi.pollQueue
  cases hr : (dspqueueReadPoll env s.queue args).2 with
  | error e =>
      refine hset.proceed hareas (fun k hd hpeeked hfits => ?_)
      have := hnone k hd hpeeked hfits
      rw [hr] at this
      cases this
  | ok o =>
      cases o with
      | none => exact hset
      | some d =>
          refine sound_finish hset.nonempty hset.queues h.agrees (fun k hd hpeeked hfits => ?_)
          have := hnone k hd hpeeked hfits
          rw [hr] at this
          cases this

theorem Sound.timeoutQueue (h : m.Sound) (hc : m.call = .polling args i)
    (hi : m.queues[i]? = some s) : (m.timeoutQueue args i s).Sound := by
  have hs := h.queues s (List.mem_of_getElem? hi)
  have hareas : m.call.areas = some args := by rw [hc]; rfl
  have hlt : ∀ k hd, m.Announced k hd → i < k := fun k hd ha => ha.polling args i hc
  have hset := h.setQueue hs.timeout (i := i) (fun k hd _ _ hik ha => by
    have := hlt k hd ha
    omega)
  refine hset.proceed hareas (fun k hd hpeeked hfits => ⟨?_, rfl⟩)
  exact hlt k hd (h.announced k hd hpeeked
    (fun args' hargs' => Option.some.inj (hareas.symm.trans hargs') ▸ hfits))

/-- A call starts, or a peek goes on or ends. -/
theorem Sound.setCall (h : m.Sound) (hc : m.call.areas = none) (c : MultiCall)
    (hread : ∀ args i, c = .reading args i → i = 0) (hpoll : ∀ args i, c ≠ .polling args i) :
    Sound { m with call := c } where
  nonempty := h.nonempty
  queues := h.queues
  reading := by
    intro args i hi
    rw [hread args i hi]
    exact List.length_pos_of_ne_nil h.nonempty
  polling := by
    intro args i hi
    exact absurd hi (hpoll args i)
  agrees := h.agrees
  announced := by
    intro k hd hpeeked _
    have ha := h.announced k hd hpeeked (fun args hargs => by rw [hc] at hargs; cases hargs)
    refine ⟨ha.first, ?_, fun args i hi => absurd hi (hpoll args i)⟩
    intro args i hi
    rw [hread args i hi]
    exact Nat.zero_le k

/-- **Visits of a peek** keep the invariant: the packet that it announces is the first of its
ring. -/
theorem Sound.peekQueue (h : m.Sound) (hc : m.call = .peeking i)
    (hi : m.queues[i]? = some s) : (m.peekQueue i s).Sound := by
  have hs := h.queues s (List.mem_of_getElem? hi)
  unfold Multi.peekQueue
  cases hr : dspqueuePeekNoblock s.queue with
  | ok hd =>
      obtain ⟨p, rest, hp, hhd⟩ := Sys.peek_first hs.inv hr
      refine ⟨h.nonempty, h.queues, ?_, ?_, h.agrees, ?_⟩
      · intro args j hj
        cases hj
      · intro args j hj
        cases hj
      · intro k hd' hpeeked _
        obtain ⟨rfl, rfl⟩ := Prod.mk.inj (Option.some.inj hpeeked)
        refine ⟨⟨s, p, rest, hi, hp, hhd⟩, ?_, ?_⟩
        · intro args j hj
          cases hj
        · intro args j hj
          cases hj
  | error e =>
      refine h.setCall (by rw [hc]; rfl) _ ?_ ?_
      · intro args j hj
        split_ifs at hj
      · intro args j hj
        split_ifs at hj

/-- **Steps** keep the invariant when they meet the condition. -/
theorem Sound.step {op : MultiOp} (h : m.Sound) (hop : op.FollowsAlgorithm)
    (hu : m.Undisturbed op) (ht : m.step op = some t) : t.Sound := by
  cases op with
  | write i env flags buffers message =>
      obtain ⟨s, hi, rfl⟩ := Option.map_eq_some_iff.mp ht
      have hn : Packet.isWakeup ⟨flags, buffers, message⟩ = false := hop
      exact h.write hi (fun hw => absurd (hw.symm.trans hn) (by decide)) env
  | earlyWakeup i env wakeupDelay packetFlags =>
      obtain ⟨s, hi, rfl⟩ := Option.map_eq_some_iff.mp ht
      exact h.write hi (fun _ => Sys.plainWakeup wakeupDelay packetFlags) env
  | peek =>
      simp only [Multi.step] at ht
      split at ht
      case h_1 hc =>
        obtain rfl := Option.some.inj ht
        exact h.setCall (by rw [hc]; rfl) _ (fun _ _ hj => by cases hj) (fun _ _ hj => by cases hj)
      case h_2 => cases ht
  | peekQueue =>
      simp only [Multi.step] at ht
      split at ht
      case h_1 i hc =>
        obtain ⟨s, hi, rfl⟩ := Option.map_eq_some_iff.mp ht
        exact h.peekQueue hc hi
      case h_2 => cases ht
  | read args =>
      simp only [Multi.step] at ht
      split at ht
      case h_1 hc =>
        obtain rfl := Option.some.inj ht
        refine h.setCall (by rw [hc]; rfl) _ (fun args' j hj => ?_) (fun _ _ hj => by cases hj)
        exact (MultiCall.reading.inj hj).2.symm
      case h_2 => cases ht
  | readQueue env =>
      simp only [Multi.step] at ht
      split at ht
      case h_1 args i hc =>
        obtain ⟨s, hi, rfl⟩ := Option.map_eq_some_iff.mp ht
        obtain ⟨hend, hkeep⟩ := hu args i s hc hi
        exact h.readQueue hc hi hend hkeep
      case h_2 => cases ht
  | poll env =>
      simp only [Multi.step] at ht
      split at ht
      case h_1 args i hc =>
        obtain ⟨s, hi, rfl⟩ := Option.map_eq_some_iff.mp ht
        exact h.pollQueue hc hi (hu args i s hc hi)
      case h_2 => cases ht
  | timeout =>
      simp only [Multi.step] at ht
      split at ht
      case h_1 args i hc =>
        obtain ⟨s, hi, rfl⟩ := Option.map_eq_some_iff.mp ht
        exact h.timeoutQueue hc hi
      case h_2 => cases ht

/-! ### Progress of a read -/

@[simp] theorem setQueue_length (m : Multi) (i : ℕ) (s : Sys) :
    (m.setQueue i s).queues.length = m.queues.length := by
  rw [Multi.setQueue, List.length_set]

/-- A read that leaves domain `i` has at most the domains behind it before it. -/
theorem proceed_remaining (m : Multi) (args : ReadArgs) (i : ℕ) (e : Fault) :
    (m.proceed args i e).remaining ≤ 2 * (m.queues.length - (i + 1)) := by
  unfold Multi.proceed
  split_ifs
  · exact le_refl _
  · exact Nat.zero_le _

theorem readQueue_remaining (hi : i < m.queues.length) (env : Env) (args : ReadArgs) (s : Sys) :
    (m.readQueue env args i s).remaining < 2 * (m.queues.length - i) := by
  unfold Multi.readQueue
  cases (dspqueueReadNoblock env s.queue args).2 with
  | error e =>
      have := proceed_remaining (m.setQueue i (s.stepRead env args)) args i e
      rw [setQueue_length] at this
      exact lt_of_le_of_lt this (by omega)
  | ok o =>
      cases o with
      | packet d => exact (show 0 < _ by omega)
      | polling waittime =>
          have : (m.setQueue i (s.stepRead env args)).queues.length = m.queues.length :=
            setQueue_length m i _
          simp only [remaining, MultiCall.remaining, this]
          omega

theorem pollQueue_remaining (hc : m.call = .polling args i) (hi : i < m.queues.length) (env : Env)
    (s : Sys) : (m.pollQueue env args i s).remaining ≤ 2 * (m.queues.length - i) - 1 := by
  unfold Multi.pollQueue
  cases (dspqueueReadPoll env s.queue args).2 with
  | error e =>
      have := proceed_remaining (m.setQueue i (s.stepPoll env args)) args i e
      rw [setQueue_length] at this
      exact le_trans this (by omega)
  | ok o =>
      cases o with
      | some d => exact Nat.zero_le _
      | none =>
          have : (m.setQueue i (s.stepPoll env args)).queues.length = m.queues.length :=
            setQueue_length m i _
          have hcall : (m.setQueue i (s.stepPoll env args)).call = .polling args i := hc
          simp only [remaining, hcall, MultiCall.remaining, this]
          exact le_refl _

/-- An open read can take its next step, which brings it closer to its end. -/
theorem Sound.peekAgrees (h : m.Sound) : m.PeekAgrees where
  agrees := h.agrees
  readQueue := by
    intro args i env hc
    have hi := h.reading args i hc
    refine ⟨m.readQueue env args i m.queues[i], ?_, ?_⟩
    · simp only [Multi.step, hc, List.getElem?_eq_getElem hi]
      rfl
    · rw [remaining, remaining.eq_def m, hc]
      exact readQueue_remaining hi env args _
  poll := by
    intro args i env hc
    have hi := h.polling args i hc
    refine ⟨m.pollQueue env args i m.queues[i], ?_, ?_⟩
    · simp only [Multi.step, hc, List.getElem?_eq_getElem hi]
      rfl
    · rw [remaining.eq_def m, hc]
      exact pollQueue_remaining hc hi env _
  timeout := by
    intro args i hc
    have hi := h.polling args i hc
    refine ⟨m.timeoutQueue args i m.queues[i], ?_, ?_⟩
    · simp only [Multi.step, hc, List.getElem?_eq_getElem hi]
      rfl
    · rw [remaining.eq_def m, hc]
      have := proceed_remaining (m.setQueue i
        { m.queues[i] with queue := readTimeout m.queues[i].queue, polling := none }) args i
          (.error .EWOULDBLOCK)
      rw [setQueue_length] at this
      refine lt_of_le_of_lt this ?_
      simp only [MultiCall.remaining]
      omega

end Multi

/-! ### Whole runs -/

/-- **Peek agrees with read** in every run whose steps meet the condition: no read meets an early
wakeup packet without a delay in the last `8` bytes of a ring, and a read after a peek finds
nothing for the client in the domains before the peeked packet, which is no early wakeup packet and
whose buffers it can look up. -/
theorem peek_agrees {qs : List Queue} {ops : List MultiOp} {t : Multi} (hne : qs ≠ [])
    (hq : ∀ q ∈ qs, q.Unused) (hops : ∀ op ∈ ops, op.FollowsAlgorithm)
    (hu : Guarded Multi.step Multi.Undisturbed (Multi.init qs) ops)
    (h : run Multi.step (Multi.init qs) ops = some t) : t.PeekAgrees := by
  refine (guarded_invariant ?_ (Multi.sound_init hne hq) (hu.and_forall hops) h).peekAgrees
  intro m op u hm hop hu
  exact hm.step hop.1 hop.2 hu

/-- One domain: a packet is peeked and read. -/
theorem peek_agrees_one_packet :
    ∃ t, run Multi.step (Multi.init [Queue.create 64 (fun _ => 0) 1 true])
        [.write 0 Env.idle 0 [] [1, 2, 3], .peek, .peekQueue, .read ⟨some 0, some 3⟩,
          .readQueue Env.idle] = some t ∧ t.PeekAgrees := by
  obtain ⟨t, h⟩ : ∃ t, run Multi.step (Multi.init [Queue.create 64 (fun _ => 0) 1 true])
      [.write 0 Env.idle 0 [] [1, 2, 3], .peek, .peekQueue, .read ⟨some 0, some 3⟩,
        .readQueue Env.idle] = some t := ⟨_, rfl⟩
  refine ⟨t, h, peek_agrees (List.cons_ne_nil _ _) ?_ ?_ ?_ h⟩
  · intro q hq
    rw [List.mem_singleton.mp hq]
    exact Queue.Unused.create (by decide) (by decide) (by decide) _ _ _
  · intro op hop
    simp only [List.mem_cons, List.not_mem_nil, or_false] at hop
    rcases hop with rfl | rfl | rfl | rfl | rfl
    · exact (by decide : (0 : ℕ).testBit flagWakeup = false)
    all_goals trivial
  · refine ⟨trivial, fun _ h1 => ⟨trivial, fun _ h2 => ⟨trivial, fun _ h3 => ⟨trivial,
      fun _ h4 => ⟨?_, fun _ _ => trivial⟩⟩⟩⟩⟩
    obtain rfl := Option.some.inj h1
    obtain rfl := Option.some.inj h2
    obtain rfl := Option.some.inj h3
    obtain rfl := Option.some.inj h4
    intro args i s hc hi
    obtain ⟨rfl, rfl⟩ := MultiCall.reading.inj hc
    obtain rfl := Option.some.inj hi
    refine ⟨fun hend => absurd hend.1 (by decide), fun k hd hpeeked _ => ?_⟩
    obtain ⟨rfl, _⟩ := Prod.mk.inj (Option.some.inj hpeeked)
    intro p hp
    obtain rfl := Option.some.inj hp
    exact ⟨rfl, fun _ => rfl, fun _ b hb => absurd hb List.not_mem_nil⟩

/-- A read that does not return the announced header. -/
theorem not_peekAgrees {t : Multi} {h : Header} {args : ReadArgs} {r : Option Header}
    (hmem : (some h, args, r) ∈
      t.reads.map (fun x => (x.peeked, x.args, x.result.toOption.map Delivered.header)))
    (hfits : h.Fits args) (hr : r ≠ some h) : ¬ t.PeekAgrees := by
  intro hagree
  obtain ⟨x, hx, heq⟩ := List.mem_map.mp hmem
  obtain ⟨hpeeked, heq⟩ := Prod.mk.inj heq
  obtain ⟨rfl, rfl⟩ := Prod.mk.inj heq
  obtain ⟨d, hd, hhd⟩ := hagree.agrees x hx h hpeeked hfits
  rw [hd] at hr
  exact hr (congrArg some hhd)

/-- The early wakeup packet in front of a normal one is announced, and the read that has room for it
only fails; and with two domains, a packet written to the first one after the peek is returned in
place of the announced packet of the second one. -/
theorem peek_disagrees :
    (∃ t, run Multi.step (Multi.init [Queue.create 64 (fun _ => 0) 1 true])
        [.earlyWakeup 0 Env.idle 0 0, .write 0 Env.idle 0 [] [1, 2, 3], .peek, .peekQueue,
          .read ⟨some 0, some 0⟩, .readQueue Env.idle, .poll Env.idle] = some t ∧
      ¬ t.PeekAgrees) ∧
    ∃ t, run Multi.step (Multi.init [Queue.create 64 (fun _ => 0) 1 true,
          Queue.create 64 (fun _ => 0) 1 true])
        [.write 1 Env.idle 0 [] [1, 2, 3], .peek, .peekQueue, .peekQueue,
          .write 0 Env.idle 0 [] [9], .read ⟨some 0, some 3⟩, .readQueue Env.idle] = some t ∧
      ¬ t.PeekAgrees := by
  constructor
  · have h : (run Multi.step (Multi.init [Queue.create 64 (fun _ => 0) 1 true])
        [.earlyWakeup 0 Env.idle 0 0, .write 0 Env.idle 0 [] [1, 2, 3], .peek, .peekQueue,
          .read ⟨some 0, some 0⟩, .readQueue Env.idle, .poll Env.idle]).map
        (fun t => t.reads.map (fun x => (x.peeked, x.args, x.result.toOption.map Delivered.header)))
        = some [(some ⟨20, 0, 0⟩, ⟨some 0, some 0⟩, none)] := by decide +kernel
    obtain ⟨t, ht, hreads⟩ := Option.map_eq_some_iff.mp h
    exact ⟨t, ht, not_peekAgrees (by rw [hreads]; exact List.mem_cons_self) ⟨rfl, rfl⟩ (by decide)⟩
  · have h : (run Multi.step (Multi.init [Queue.create 64 (fun _ => 0) 1 true,
          Queue.create 64 (fun _ => 0) 1 true])
        [.write 1 Env.idle 0 [] [1, 2, 3], .peek, .peekQueue, .peekQueue,
          .write 0 Env.idle 0 [] [9], .read ⟨some 0, some 3⟩, .readQueue Env.idle]).map
        (fun t => t.reads.map (fun x => (x.peeked, x.args, x.result.toOption.map Delivered.header)))
        = some [(some ⟨17, 0, 3⟩, ⟨some 0, some 3⟩, some ⟨17, 0, 1⟩)] := by decide +kernel
    obtain ⟨t, ht, hreads⟩ := Option.map_eq_some_iff.mp h
    exact ⟨t, ht, not_peekAgrees (by rw [hreads]; exact List.mem_cons_self) ⟨rfl, rfl⟩ (by decide)⟩

end FastRpc
