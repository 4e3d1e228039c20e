import FastRpc.RingRefinement
import FastRpc.Transition

/-! # Writer and reader on one ring

`Sys` is a queue between its two ends together with the history of the run: the packets that were
placed in the ring, how many of them the reader has passed, and what the successful reads have
returned, each with its output areas.  `Sys.step` executes one step of either end; a read call that has
consumed an early wakeup packet stays open (`polling`) until a poll ends it or its time is over.

`Sys.Inv` says that the ring holds exactly the packets placed and not yet passed.  Each kind of
step has a lemma that says what it does to a state with this invariant (`stepWrite_cases`,
`stepRead_cases`, `stepPoll_cases`), and everything about runs follows from these. -/

namespace FastRpc

open ByteStore FramedRing Transition

/-- A step of the writer or of the reader. -/
inductive Op
  | write (env : Env) (flags : ℕ) (buffers : List Buffer) (message : List UInt8)
  | earlyWakeup (env : Env) (wakeupDelay : UInt32) (packetFlags : ℕ)
  | read (env : Env) (args : ReadArgs)
  | poll (env : Env)
  | timeout

/-- A queue and the history of its use. -/
structure Sys where
  queue : Queue
  polling : Option ReadArgs
  placed : List Packet
  accepted : List Packet
  consumed : ℕ
  returned : List (ReadArgs × Delivered)

namespace Sys

/-- A queue before its first use. -/
def init (q : Queue) : Sys := ⟨q, none, [], [], 0, []⟩

/-- The packets in the ring that the reader has not passed. -/
def pending (s : Sys) : List Packet := s.placed.drop s.consumed

/-- A write puts its packet in the ring unless the ring code fails, and is accepted when the call
succeeds. -/
def stepWrite (s : Sys) (env : Env) (p : Packet) : Sys :=
  let result := dspqueueWriteNoblock env s.queue p.flags p.buffers p.message
  { s with
    queue := result.1
    placed := s.placed ++
      if (writeRing env.bufferRef s.queue p.flags p.buffers p.message).isOk then [p] else []
    accepted := s.accepted ++ if result.2.isOk then [p] else [] }

/-- A read call up to its end or to the polling. -/
def stepRead (s : Sys) (env : Env) (args : ReadArgs) : Sys :=
  let result := dspqueueReadNoblock env s.queue args
  { s with
    queue := result.1
    polling := match result.2 with | .ok (.polling _) => some args | _ => none
    consumed := s.consumed + if (readStart s.queue args).isOk then 1 else 0
    returned := s.returned ++ match result.2 with | .ok (.packet d) => [(args, d)] | _ => [] }

/-- One poll of an open read call. -/
def stepPoll (s : Sys) (env : Env) (args : ReadArgs) : Sys :=
  let result := dspqueueReadPoll env s.queue args
  { s with
    queue := result.1
    polling := match result.2 with | .ok none => some args | _ => none
    consumed := s.consumed + match readPoll s.queue args with | .ok (some _) => 1 | _ => 0
    returned := s.returned ++ match result.2 with | .ok (some d) => [(args, d)] | _ => [] }

/-- One step; a new read needs that no read call is open, a poll or a timeout that one is. -/
def step (s : Sys) : Op → Option Sys
  | .write env flags buffers message => some (s.stepWrite env ⟨flags, buffers, message⟩)
  | .earlyWakeup env wakeupDelay packetFlags =>
      some (s.stepWrite env ⟨wakeupFlags packetFlags, [], wakeupMessage wakeupDelay⟩)
  | .read env args => if s.polling.isNone then some (s.stepRead env args) else none
  | .poll env => s.polling.map (fun args => s.stepPoll env args)
  | .timeout => s.polling.map (fun _ => { s with queue := readTimeout s.queue, polling := none })

end Sys

/-- A queue that has not been used: any length, counters and content of the ring, but both
positions at the beginning. -/
structure Queue.Unused (q : Queue) : Prop where
  sixteen_le : 16 ≤ q.queueLength
  length_lt : q.queueLength < 2 ^ 32
  ring_mod : q.queueLength % 8 = 0
  same_count : q.headerQueueCount = q.queueCount
  read_position : q.readState.position = 0
  write_position : q.writeState.position = 0

theorem Queue.Unused.create {queueLength : ℕ} (h16 : 16 ≤ queueLength)
    (hlt : queueLength < 2 ^ 32) (hmod : queueLength % 8 = 0) (bytes : Store) (queueCount : ℕ)
    (haveWaitCounts : Bool) : (Queue.create queueLength bytes queueCount haveWaitCounts).Unused :=
  ⟨h16, hlt, hmod, rfl, rfl, rfl⟩

theorem Queue.Unused.simulates {q : Queue} (h : q.Unused) : Simulates q [] := by
  refine ⟨h.sixteen_le, h.length_lt, h.same_count, ⟨h.ring_mod, ?_, ?_, ?_, ?_⟩, ?_, ?_⟩
  · rw [h.read_position]
  · rw [h.write_position]
  · rw [h.read_position]; have := h.sixteen_le; omega
  · rw [h.write_position]; have := h.sixteen_le; omega
  · rw [h.read_position, h.write_position]; exact .flat (le_refl 0) rfl
  · intro x hx; cases hx

/-! ### The invariant -/

/-- The ring holds exactly the packets placed and not yet passed. -/
structure Sys.Inv (s : Sys) : Prop where
  consumed_le : s.consumed ≤ s.placed.length
  simulates : ∃ slots : List (Packet × ℕ), slots.map Prod.fst = s.pending ∧ Simulates s.queue slots

namespace Sys

variable {s t : Sys} {env : Env} {args : ReadArgs} {p : Packet}

theorem inv_init {q : Queue} (h : q.Unused) : (init q).Inv := ⟨le_refl 0, [], rfl, h.simulates⟩

/-- The next packet and the packets behind it. -/
theorem pending_cons {rest : List Packet} (h : s.pending = p :: rest) :
    s.placed.drop (s.consumed + 1) = rest ∧ s.placed.take (s.consumed + 1) =
      s.placed.take s.consumed ++ [p] ∧ s.consumed + 1 ≤ s.placed.length := by
  have hlt : s.consumed < s.placed.length := by
    by_contra hge
    rw [pending, List.drop_eq_nil_of_le (by omega)] at h
    cases h
  have hcons := List.drop_eq_getElem_cons hlt
  rw [← pending, h] at hcons
  obtain ⟨hp, hrest⟩ := List.cons.inj hcons
  exact ⟨hrest.symm, by rw [hp, List.take_succ_eq_append_getElem hlt], hlt⟩

theorem Inv.slots_nil (h : s.Inv) (hp : s.pending = []) : Simulates s.queue [] := by
  obtain ⟨slots, hs, hsim⟩ := h.simulates
  rw [hp, List.map_eq_nil_iff] at hs
  rwa [hs] at hsim

theorem Inv.slots_cons {rest : List Packet} (h : s.Inv) (hp : s.pending = p :: rest) :
    ∃ seqNo slots, slots.map Prod.fst = rest ∧ Simulates s.queue ((p, seqNo) :: slots) := by
  obtain ⟨slots, hs, hsim⟩ := h.simulates
  rw [hp, List.map_eq_cons_iff] at hs
  obtain ⟨x, slots, rfl, rfl, rfl⟩ := hs
  exact ⟨x.2, slots, rfl, hsim⟩

/-- Passing the next packet keeps the invariant. -/
theorem Inv.pass {rest : List Packet} {slots : List (Packet × ℕ)} (hp : s.pending = p :: rest)
    (hslots : slots.map Prod.fst = rest) (hplaced : t.placed = s.placed)
    (hconsumed : t.consumed = s.consumed + 1) (hsim : Simulates t.queue slots) : t.Inv := by
  obtain ⟨hdrop, _, hle⟩ := pending_cons hp
  refine ⟨by rw [hplaced, hconsumed]; exact hle, slots, ?_, hsim⟩
  rw [pending, hplaced, hconsumed, hdrop, hslots]

end Sys

/-! ### What a step does -/

theorem Simulates.seqNo {q : Queue} {xs : List (Packet × ℕ)} (h : Simulates q xs) (n : ℕ) :
    Simulates { q with seqNo := n } xs :=
  ⟨h.sixteen_le, h.length_lt, h.same_count, h.positions, h.layout, h.bounded⟩

/-- A write call either fails in the ring code or publishes its packet; with a working signal it
then succeeds. -/
theorem dspqueueWriteNoblock_cases (env : Env) (q : Queue) (p : Packet) :
    (∃ e, writeRing env.bufferRef q p.flags p.buffers p.message = .error e ∧
      dspqueueWriteNoblock env q p.flags p.buffers p.message = (q, .error e)) ∨
    (∃ q' n result, writeRing env.bufferRef q p.flags p.buffers p.message = .ok q' ∧
      dspqueueWriteNoblock env q p.flags p.buffers p.message = ({ q' with seqNo := n }, result) ∧
      (env.sendSignal = .ok () → result = .ok ())) := by
  unfold dspqueueWriteNoblock
  cases hw : writeRing env.bufferRef q p.flags p.buffers p.message with
  | error e => exact .inl ⟨e, rfl, rfl⟩
  | ok q' =>
      refine .inr ⟨q', ?_⟩
      cases hs : env.signal (signalsPacket q') with
      | error e =>
          refine ⟨q'.seqNo, .error e, rfl, by simp only [hs], fun hok => ?_⟩
          simp only [Env.signal, hok] at hs
          split_ifs at hs
      | ok u => exact ⟨(q'.seqNo + 1) % 2 ^ 16, .ok (), rfl, by simp only [hs], fun _ => rfl⟩

namespace Sys

variable {s : Sys} {env : Env} {args : ReadArgs} {p : Packet}

/-- What a write does: nothing, or its packet is placed behind the others. -/
theorem stepWrite_cases (h : s.Inv) (env : Env) (p : Packet) :
    (s.stepWrite env p).Inv ∧
    (∀ i, Unread s.queue.queueLength s.queue.readState.position s.queue.writeState.position i →
      (s.stepWrite env p).queue.bytes i = s.queue.bytes i) ∧
    (s.stepWrite env p = s ∨
      ((s.stepWrite env p).placed = s.placed ++ [p] ∧
        (env.sendSignal = .ok () → (s.stepWrite env p).accepted = s.accepted ++ [p]))) := by
  rcases dspqueueWriteNoblock_cases env s.queue p with ⟨e, hw, hr⟩ | ⟨q', n, result, hw, hr, hok⟩
  · have ht : s.stepWrite env p = s := by simp [stepWrite, hw, hr, Except.isOk, Except.toBool]
    rw [ht]
    exact ⟨h, fun _ _ => rfl, .inl rfl⟩
  · obtain ⟨slots, hslots, hsim⟩ := h.simulates
    obtain ⟨_, hsim', _, hframe⟩ := writeRing_spec hsim hw
    have hplaced : (s.stepWrite env p).placed = s.placed ++ [p] := by
      simp [stepWrite, hw, Except.isOk, Except.toBool]
    have hqueue : (s.stepWrite env p).queue = { q' with seqNo := n } := by simp [stepWrite, hr]
    have hconsumed : (s.stepWrite env p).consumed = s.consumed := rfl
    refine ⟨⟨?_, slots ++ [(p, s.queue.seqNo)], ?_, ?_⟩, ?_, .inr ⟨hplaced, fun hsig => ?_⟩⟩
    · rw [hplaced, hconsumed, List.length_append]
      exact Nat.le_add_right_of_le h.consumed_le
    · rw [pending, hplaced, hconsumed, List.drop_append_of_le_length h.consumed_le,
        List.map_append, hslots, pending]
      rfl
    · rw [hqueue]; exact hsim'.seqNo n
    · rw [hqueue]; exact hframe
    · simp [stepWrite, hr, hok hsig, Except.isOk, Except.toBool]

/-- What a read or a poll does to the history.  `P` are the packets that it may return. -/
inductive Passed (P : Packet → Prop) (env : Env) (args : ReadArgs) (s t : Sys) : Prop
  | nothing (hc : t.consumed = s.consumed) (hr : t.returned = s.returned)
  | wakeup {p : Packet} {rest : List Packet} (hp : s.pending = p :: rest)
      (hw : p.isWakeup = true) (hc : t.consumed = s.consumed + 1) (hr : t.returned = s.returned)
  | returned {p : Packet} {rest : List Packet} {d : Delivered} (hp : s.pending = p :: rest)
      (hP : P p) (hfits : p.Fits args) (hd : readFinish env t.queue (p.delivered args) = .ok d)
      (hc : t.consumed = s.consumed + 1) (hr : t.returned = s.returned ++ [(args, d)])
  | lost {p : Packet} {rest : List Packet} {e : Fault} (hp : s.pending = p :: rest)
      (hP : P p) (hfits : p.Fits args) (hd : readFinish env t.queue (p.delivered args) = .error e)
      (hc : t.consumed = s.consumed + 1) (hr : t.returned = s.returned)

/-- The next packet is an early wakeup packet without a delay, and its header fills the last `8`
bytes of the ring. -/
def WakeupAtEnd (s : Sys) : Prop :=
  s.queue.readState.position + 8 = s.queue.queueLength ∧
    ∃ p ∈ s.pending.head?, p.isWakeup = true ∧ p.buffers = [] ∧ p.message = []

/-- **Reads** consume an early wakeup packet or return a packet that is none. -/
theorem stepRead_cases (h : s.Inv) (hend : ¬ s.WakeupAtEnd) (env : Env) (args : ReadArgs) :
    (s.stepRead env args).Inv ∧
      Passed (fun p => p.isWakeup = false) env args s (s.stepRead env args) := by
  -- a read that fails in the ring code leaves everything as it was
  have hfail : ∀ e, readStart s.queue args = .error e → (s.stepRead env args).Inv ∧
      Passed (fun p => p.isWakeup = false) env args s (s.stepRead env args) := by
    intro e he
    have ht : s.stepRead env args = { s with polling := none } := by
      simp [stepRead, dspqueueReadNoblock, he, Except.isOk, Except.toBool]
    rw [ht]
    exact ⟨⟨h.consumed_le, h.simulates⟩, .nothing rfl rfl⟩
  cases hp : s.pending with
  | nil => exact hfail _ (readStart_nil (h.slots_nil hp))
  | cons p rest =>
      obtain ⟨seqNo, slots, hslots, hsim⟩ := h.slots_cons hp
      have hstart := readStart_cons args hsim
      cases hw : p.isWakeup with
      | true =>
          by_cases hplain : p.PlainWakeup
          · obtain ⟨q', waittime, hread, hafter⟩ := readStart_wakeup args hsim hplain
            rw [if_neg (fun hc => hend ⟨hc.2, p, by rw [hp]; rfl, hw, hplain.buffers_nil, hc.1⟩)]
              at hafter
            have hq : (s.stepRead env args).queue = q' := by
              simp [stepRead, dspqueueReadNoblock, hread]
            have hc : (s.stepRead env args).consumed = s.consumed + 1 := by
              simp [stepRead, hread, Except.isOk, Except.toBool]
            refine ⟨Inv.pass hp hslots rfl hc (by rw [hq]; exact hafter), .wakeup hp hw hc ?_⟩
            simp only [stepRead, dspqueueReadNoblock, hread]
            cases env.signal (signalsSpace q') <;> simp [Except.map]
          · obtain ⟨code, hread⟩ := readWakeup_malformed hsim hw hplain
            apply hfail (.error code)
            rw [readStart_cons _ hsim]
            simp only [hw, if_true, hread]
            rfl
      | false =>
          by_cases hfits : p.Fits args
          · obtain ⟨q', hread, hsim'⟩ := readStart_normal hsim hw hfits
            have hq : (s.stepRead env args).queue = q' := by
              simp [stepRead, dspqueueReadNoblock, hread]
            have hc : (s.stepRead env args).consumed = s.consumed + 1 := by
              simp [stepRead, hread, Except.isOk, Except.toBool]
            refine ⟨Inv.pass hp hslots rfl hc (by rw [hq]; exact hsim'), ?_⟩
            cases hd : readFinish env q' (p.delivered args) with
            | ok d =>
                refine .returned hp hw hfits (by rw [hq]; exact hd) hc ?_
                simp [stepRead, dspqueueReadNoblock, hread, hd, Except.map]
            | error e =>
                refine .lost hp hw hfits (by rw [hq]; exact hd) hc ?_
                simp [stepRead, dspqueueReadNoblock, hread, hd, Except.map]
          · apply hfail (.error .EBADPARM)
            rw [readStart_cons _ hsim]
            simp only [hw, readPacket_short (hsim.bounded _ List.mem_cons_self) hfits]
            rfl

/-- A read that meets an early wakeup packet without a delay in the last `8` bytes leaves the read
position at the end of the ring. -/
theorem stepRead_wakeupAtEnd (h : s.Inv) (hend : s.WakeupAtEnd) (env : Env) (args : ReadArgs) :
    (s.stepRead env args).queue.readState.position = (s.stepRead env args).queue.queueLength := by
  obtain ⟨hpos, p, hhead, hw, hbuf, hmsg⟩ := hend
  obtain ⟨rest, hp⟩ : ∃ rest, s.pending = p :: rest := by
    cases hl : s.pending with
    | nil => rw [hl] at hhead; cases hhead
    | cons a rest => rw [hl] at hhead; exact ⟨rest, by rw [Option.some.inj hhead]⟩
  obtain ⟨seqNo, slots, _, hsim⟩ := h.slots_cons hp
  obtain ⟨q', waittime, hread, hafter⟩ := readStart_wakeup args hsim
    ⟨hw, hbuf, .inl (by rw [hmsg]; rfl)⟩
  rw [if_pos ⟨hmsg, hpos⟩] at hafter
  have hq : (s.stepRead env args).queue = q' := by simp [stepRead, dspqueueReadNoblock, hread]
  rw [hq, hafter]

/-- **Polls** return whatever comes first. -/
theorem stepPoll_cases (h : s.Inv) (env : Env) (args : ReadArgs) :
    (s.stepPoll env args).Inv ∧ Passed (fun _ => True) env args s (s.stepPoll env args) := by
  cases hp : s.pending with
  | nil =>
      have hpoll : readPoll s.queue args = .ok none := readPoll_nil (h.slots_nil hp)
      have ht : s.stepPoll env args = { s with polling := some args } := by
        simp [stepPoll, dspqueueReadPoll, hpoll]
      rw [ht]
      exact ⟨⟨h.consumed_le, h.simulates⟩, .nothing rfl rfl⟩
  | cons p rest =>
      obtain ⟨seqNo, slots, hslots, hsim⟩ := h.slots_cons hp
      by_cases hfits : p.Fits args
      · obtain ⟨q', hpoll, hsim'⟩ := readPoll_first hsim hfits
        have hq : (s.stepPoll env args).queue = q' := by simp [stepPoll, dspqueueReadPoll, hpoll]
        have hc : (s.stepPoll env args).consumed = s.consumed + 1 := by simp [stepPoll, hpoll]
        refine ⟨Inv.pass hp hslots rfl hc (by rw [hq]; exact hsim'), ?_⟩
        cases hd : readFinish env q' (p.delivered args) with
        | ok d =>
            refine .returned hp trivial hfits (by rw [hq]; exact hd) hc ?_
            simp [stepPoll, dspqueueReadPoll, hpoll, hd, Except.map]
        | error e =>
            refine .lost hp trivial hfits (by rw [hq]; exact hd) hc ?_
            simp [stepPoll, dspqueueReadPoll, hpoll, hd, Except.map]
      · have hpoll : readPoll s.queue args = .error (.error .EBADPARM) := by
          rw [readPoll_cons hsim, readPacket_short (hsim.bounded _ List.mem_cons_self) hfits]
          rfl
        have ht : s.stepPoll env args = { s with polling := none } := by
          simp [stepPoll, dspqueueReadPoll, hpoll]
        rw [ht]
        exact ⟨⟨h.consumed_le, h.simulates⟩, .nothing rfl rfl⟩

end Sys

end FastRpc
