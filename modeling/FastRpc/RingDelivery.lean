import Mathlib.Data.List.Forall2
import FastRpc.RingSystem

/-! # What the reader's client gets

`Delivers args p d` says that the output `d` of a read with the areas `args` is the packet `p`:
the flags of its header, its message and its buffer references, whose addresses (and the sizes
that the writer left `0`) the read fills in from the mappings.  `Sys.Delivery` is the history
invariant: the successful reads have returned exactly the normal packets among those that the
reader has passed.

A read call can still fail after it has consumed its packet, when the signal for the freed space
or the lookup of a buffer fails; `Env.Serves` excludes that. -/

namespace FastRpc

open ByteStore FramedRing Transition

/-! ### Buffer references -/

/-- The reader's buffer reference `b'` is the writer's `b`. -/
structure Buffer.SameRef (b b' : Buffer) : Prop where
  fd : b'.fd = b.fd
  offset : b'.offset = b.offset
  flags : b'.flags = b.flags
  size : b.size ≠ 0 → b'.size = b.size

theorem attachBuffer_sameRef {bufferRef : BufferRef} {b b' : Buffer}
    (h : attachBuffer bufferRef b = .ok b') : b.SameRef b' := by
  obtain ⟨⟨va, size⟩, _, h⟩ := bind_eq_ok.mp h
  by_cases hsize : b.size = 0
  · simp only [hsize, ne_eq, not_true_eq_false, if_false] at h
    obtain ⟨_, _, h⟩ := bind_eq_ok.mp h
    obtain rfl := Except.ok.inj h
    exact ⟨rfl, rfl, rfl, fun hne => absurd hsize hne⟩
  · simp only [hsize, ne_eq, not_false_eq_true, if_true] at h
    obtain ⟨_, _, h⟩ := bind_eq_ok.mp h
    obtain rfl := Except.ok.inj h
    exact ⟨rfl, rfl, rfl, fun _ => rfl⟩

theorem readRefs_sameRef {bufferRef : BufferRef} {bs bs' : List Buffer}
    (h : readRefs bufferRef bs = .ok bs') : List.Forall₂ Buffer.SameRef bs bs' := by
  induction bs generalizing bs' with
  | nil => obtain rfl := Except.ok.inj h; exact .nil
  | cons b bs ih =>
      obtain ⟨b', hb, h⟩ := bind_eq_ok.mp h
      obtain ⟨rest, hrest, h⟩ := bind_eq_ok.mp h
      obtain rfl := Except.ok.inj h
      exact .cons (attachBuffer_sameRef hb) (ih hrest)

/-! ### Delivered packets -/

/-- The output `d` of a read with the areas `args` is the packet `p`. -/
structure Delivers (args : ReadArgs) (p : Packet) (d : Delivered) : Prop where
  flags : d.flags = p.queueFlags
  numBuffers : d.numBuffers = p.buffers.length
  messageLength : d.messageLength = p.message.length
  message : d.message = args.message.map (fun _ => p.message)
  buffers : Option.Rel (List.Forall₂ Buffer.SameRef) (args.buffers.map (fun _ => p.buffers))
    d.buffers

/-- After consuming `p`, the signal for the freed space and the lookups of its buffers succeed. -/
structure Env.Serves (env : Env) (args : ReadArgs) (p : Packet) : Prop where
  signal : env.sendSignal = .ok ()
  lookups : args.buffers ≠ none → ∃ bs, readRefs env.bufferRef p.buffers = .ok bs

theorem Env.signal_ok {env : Env} (h : env.sendSignal = .ok ()) (needed : Bool) :
    env.signal needed = .ok () := by
  simp only [Env.signal, h]
  split_ifs <;> rfl

theorem readFinish_delivers {env : Env} {q : Queue} {args : ReadArgs} {p : Packet} {d : Delivered}
    (h : readFinish env q (p.delivered args) = .ok d) : Delivers args p d := by
  obtain ⟨_, _, h⟩ := bind_eq_ok.mp h
  simp only [Packet.delivered] at h
  cases hb : args.buffers with
  | none =>
      simp only [hb, Option.map_none] at h
      obtain rfl := Except.ok.inj h
      exact ⟨rfl, rfl, rfl, rfl, by rw [hb]; exact .none⟩
  | some max =>
      simp only [hb, Option.map_some] at h
      obtain ⟨bs, hbs, h⟩ := bind_eq_ok.mp h
      obtain rfl := Except.ok.inj h
      exact ⟨rfl, rfl, rfl, rfl, by rw [hb]; exact .some (readRefs_sameRef hbs)⟩

theorem Env.Serves.readFinish {env : Env} {args : ReadArgs} {p : Packet} (h : env.Serves args p)
    (q : Queue) : ∃ d, readFinish env q (p.delivered args) = .ok d := by
  simp only [FastRpc.readFinish, Env.signal_ok h.signal, ok_bind, Packet.delivered]
  cases hb : args.buffers with
  | none => exact ⟨_, rfl⟩
  | some max =>
      obtain ⟨bs, hbs⟩ := h.lookups (by rw [hb]; exact Option.some_ne_none max)
      simp only [Option.map_some, hbs, ok_bind]
      exact ⟨_, rfl⟩

/-! ### The history -/

namespace Sys

/-- The normal packets among those that the reader has passed. -/
def passedNormal (s : Sys) : List Packet := (s.placed.take s.consumed).filter (!·.isWakeup)

/-- The successful reads have returned exactly the normal packets that the reader has passed. -/
def Delivery (s : Sys) : Prop :=
  List.Forall₂ (fun p x => Delivers x.1 p x.2) s.passedNormal s.returned

variable {s t : Sys} {p : Packet} {rest : List Packet}

theorem delivery_init (q : Queue) : (init q).Delivery := .nil

theorem passedNormal_normal (hp : s.pending = p :: rest) (hn : p.isWakeup = false)
    (hplaced : t.placed = s.placed) (hc : t.consumed = s.consumed + 1) :
    t.passedNormal = s.passedNormal ++ [p] := by
  rw [passedNormal, hplaced, hc, (pending_cons hp).2.1, List.filter_append, passedNormal]
  simp [hn]

theorem passedNormal_wakeup (hp : s.pending = p :: rest) (hw : p.isWakeup = true)
    (hplaced : t.placed = s.placed) (hc : t.consumed = s.consumed + 1) :
    t.passedNormal = s.passedNormal := by
  rw [passedNormal, hplaced, hc, (pending_cons hp).2.1, List.filter_append, passedNormal]
  simp [hw]

/-- Reads and polls keep the history when they return only normal packets and lose none. -/
theorem Delivery.passed {P : Packet → Prop} {env : Env} {args : ReadArgs} (h : s.Delivery)
    (hplaced : t.placed = s.placed) (hpass : Passed P env args s t)
    (hok : ∀ p ∈ s.pending.head?, P p → p.Fits args → p.isWakeup = false ∧ env.Serves args p) :
    t.Delivery := by
  cases hpass with
  | nothing hc hr =>
      rw [Delivery, hr, passedNormal, hplaced, hc]
      exact h
  | wakeup hp hw hc hr =>
      rw [Delivery, hr, passedNormal_wakeup hp hw hplaced hc]
      exact h
  | returned hp hP hfits hd hc hr =>
      obtain ⟨hn, _⟩ := hok _ (by rw [hp]; rfl) hP hfits
      rw [Delivery, hr, passedNormal_normal hp hn hplaced hc]
      exact List.rel_append h (.cons (readFinish_delivers hd) .nil)
  | lost hp hP hfits hd hc hr =>
      obtain ⟨_, hserves⟩ := hok _ (by rw [hp]; rfl) hP hfits
      obtain ⟨d, hd'⟩ := hserves.readFinish t.queue
      rw [hd] at hd'
      cases hd'

theorem Delivery.stepWrite (h : s.Delivery) (hinv : s.Inv) (env : Env) (p : Packet) :
    (s.stepWrite env p).Delivery := by
  have hc : (s.stepWrite env p).consumed = s.consumed := rfl
  have hr : (s.stepWrite env p).returned = s.returned := rfl
  rcases (stepWrite_cases hinv env p).2.2 with ht | ⟨hplaced, _⟩
  · rw [ht]; exact h
  · rw [Delivery, hr, passedNormal, hplaced, hc, List.take_append_of_le_length hinv.consumed_le]
    exact h

/-! ### Progress -/

/-- A read returns the next packet when it is a normal one. -/
theorem stepRead_returns {env : Env} {args : ReadArgs} (h : s.Inv) (hp : s.pending = p :: rest)
    (hn : p.isWakeup = false) (hfits : p.Fits args) (hserves : env.Serves args p) :
    ∃ d, (s.stepRead env args).returned = s.returned ++ [(args, d)] ∧ Delivers args p d := by
  obtain ⟨seqNo, slots, _, hsim⟩ := h.slots_cons hp
  obtain ⟨q', hread, _⟩ := readStart_normal hsim hn hfits
  obtain ⟨d, hd⟩ := hserves.readFinish q'
  refine ⟨d, ?_, readFinish_delivers hd⟩
  simp [stepRead, dspqueueReadNoblock, hread, hd, Except.map]

/-- Without an early wakeup packet in front, a read call does not stay open. -/
theorem stepRead_idle (h : s.Inv) (hn : ∀ p ∈ s.pending.head?, p.isWakeup = false) (env : Env)
    (args : ReadArgs) : (s.stepRead env args).polling = none := by
  have hfail : ∀ e, readStart s.queue args = .error e → (s.stepRead env args).polling = none := by
    intro e he
    simp [stepRead, dspqueueReadNoblock, he]
  cases hp : s.pending with
  | nil => exact hfail _ (readStart_nil (h.slots_nil hp))
  | cons p rest =>
      obtain ⟨seqNo, slots, _, hsim⟩ := h.slots_cons hp
      have hw : p.isWakeup = false := hn p (by rw [hp]; rfl)
      by_cases hfits : p.Fits args
      · obtain ⟨q', hread, _⟩ := readStart_normal hsim hw hfits
        simp only [stepRead, dspqueueReadNoblock, hread]
        cases readFinish env q' (p.delivered args) <;> rfl
      · apply hfail (.error .EBADPARM)
        rw [readStart_cons _ hsim]
        simp only [hw, readPacket_short (hsim.bounded _ List.mem_cons_self) hfits]
        rfl

/-- A poll returns the next packet. -/
theorem stepPoll_returns {env : Env} {args : ReadArgs} (h : s.Inv) (hp : s.pending = p :: rest)
    (hfits : p.Fits args) (hserves : env.Serves args p) :
    ∃ d, (s.stepPoll env args).returned = s.returned ++ [(args, d)] ∧ Delivers args p d := by
  obtain ⟨seqNo, slots, _, hsim⟩ := h.slots_cons hp
  obtain ⟨q', hread, _⟩ := readPoll_first hsim hfits
  obtain ⟨d, hd⟩ := hserves.readFinish q'
  refine ⟨d, ?_, readFinish_delivers hd⟩
  simp [stepPoll, dspqueueReadPoll, hread, hd, Except.map]

/-- A read that meets an early wakeup packet goes on to poll for the packet behind it. -/
theorem stepRead_polls {env : Env} {args : ReadArgs} (h : s.Inv) (hp : s.pending = p :: rest)
    (hplain : p.PlainWakeup) (hsig : env.sendSignal = .ok ()) :
    (s.stepRead env args).polling = some args ∧ (s.stepRead env args).pending = rest ∧
      (s.stepRead env args).returned = s.returned := by
  obtain ⟨seqNo, slots, _, hsim⟩ := h.slots_cons hp
  obtain ⟨q', waittime, hread, _⟩ := readStart_wakeup args hsim hplain
  refine ⟨?_, ?_, ?_⟩
  · simp [stepRead, dspqueueReadNoblock, hread, Env.signal_ok hsig, Except.map]
  · have hc : (s.stepRead env args).consumed = s.consumed + 1 := by
      simp [stepRead, hread, Except.isOk, Except.toBool]
    rw [pending, hc]
    exact (pending_cons hp).1
  · simp [stepRead, dspqueueReadNoblock, hread, Env.signal_ok hsig, Except.map]

end Sys

end FastRpc
