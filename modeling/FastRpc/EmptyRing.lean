import FastRpc.RingDelivery
import FastRpc.RingInvariant

/-! # Writing to an empty ring

`dspqueue_write_noblock` refuses a packet that is longer than the ring less `8` bytes.  A shorter one
need not fit an empty ring: packets are not split, and where the two positions stand when the ring runs
empty, there may be too little room behind them and too little before them.  The call then returns
`AEE_EWOULDBLOCK`, which the interface documents as a full queue, and nothing that the reader does
changes this (`blocked_empty`), so that a blocking write never returns. -/

namespace FastRpc

open ByteStore FramedRing Transition

/-- The packet passes the size checks of a write to a ring of `Q` bytes. -/
structure Packet.Legal (Q : ℕ) (p : Packet) : Prop where
  bounded : p.Bounded
  fits : alignUp 8 p.len ≤ Q - 8

/-- In an empty ring whose positions are both `w` there is room for the packet, behind them or before
them. -/
def Packet.HasRoom (Q w : ℕ) (p : Packet) : Prop :=
  w + alignUp 8 p.len ≤ Q ∨ alignUp 8 p.len + 8 ≤ w

instance (Q w : ℕ) (p : Packet) : Decidable (p.HasRoom Q w) := inferInstanceAs (Decidable (_ ∨ _))

/-- Everything that a write call uses outside of the ring succeeds. -/
structure Env.Writes (env : Env) (p : Packet) : Prop where
  signal : env.sendSignal = .ok ()
  lookups : writeRefs env.bufferRef p.buffers = .ok ()

variable {q : Queue} {p : Packet} {env : Env}

theorem Simulates.positions_eq (h : Simulates q []) :
    q.readState.position = q.writeState.position :=
  (h.layout.eq_nil_iff h.positions.read_lt).mp rfl

/-- The checks for space in an empty ring. -/
theorem reserve_empty (h : Simulates q []) (hp : p.Legal q.queueLength) :
    reserve q p.len =
      if q.writeState.position + alignUp 8 p.len ≤ q.queueLength then
        .ok (q.writeState.position, false)
      else if alignUp 8 p.len + 8 ≤ q.writeState.position then .ok (q.writeState.position, true)
      else .error (.error .EWOULDBLOCK) := by
  have hQ := h.length_lt
  have h16 := h.sixteen_le
  have heq := h.positions_eq
  have hlen := hp.bounded.len_le
  have hfits := hp.fits
  obtain ⟨h1, h2, h3, h4, h5⟩ := h.positions
  have hmod := alignUp_eight_mod p.len
  have hleft : spaceLeft q.queueLength q.readState.position q.writeState.position =
      q.queueLength - 8 := by
    rw [spaceLeft, if_pos (le_of_eq heq)]
    omega
  have hsub8 : subU32 q.queueLength 8 = q.queueLength - 8 := subU32_of_le (by omega) hQ
  have hsub : subU32 q.queueLength q.writeState.position =
      q.queueLength - q.writeState.position := subU32_of_le (by omega) hQ
  rw [reserve, align8_of_lt (by omega), getQueueStateWrite_eq h16 hQ h.positions, hleft, hsub8]
  generalize alignUp 8 p.len = alen at hfits hmod ⊢
  rw [verifyC_pos hfits, ok_bind, verifyC_pos h.same_count, ok_bind, ok_bind]
  simp only
  rw [verifyC_pos hfits, ok_bind, hsub]
  by_cases hbehind : q.writeState.position + alen ≤ q.queueLength
  · rw [if_pos hbehind, if_neg (by omega)]
    rfl
  · have hroom : alen ≤ subU32 (q.queueLength - 8) (q.queueLength - q.writeState.position) ↔
        alen + 8 ≤ q.writeState.position := by
      rw [subU32]
      omega
    rw [if_neg hbehind, if_pos (by omega)]
    by_cases hbefore : alen + 8 ≤ q.writeState.position
    · rw [if_pos hbefore, verifyC_pos (hroom.mpr hbefore), ok_bind]
      rfl
    · rw [if_neg hbefore, verifyC_neg (fun hc => hbefore (hroom.mp hc))]
      rfl

theorem dspqueueWriteNoblock_of_ok {q' : Queue}
    (h : writeRing env.bufferRef q p.flags p.buffers p.message = .ok q')
    (hsignal : env.sendSignal = .ok ()) :
    (dspqueueWriteNoblock env q p.flags p.buffers p.message).2 = .ok () := by
  unfold dspqueueWriteNoblock
  rw [h]
  simp only [Env.signal_ok hsignal]

theorem dspqueueWriteNoblock_of_error {e : Fault}
    (h : writeRing env.bufferRef q p.flags p.buffers p.message = .error e) :
    dspqueueWriteNoblock env q p.flags p.buffers p.message = (q, .error e) := by
  unfold dspqueueWriteNoblock
  rw [h]

/-- **A write of a legal packet to an empty ring** succeeds when there is room for it at the positions,
and is otherwise answered as if the queue were full. -/
theorem dspqueueWriteNoblock_empty (h : Simulates q []) (hp : p.Legal q.queueLength)
    (henv : env.Writes p) :
    (dspqueueWriteNoblock env q p.flags p.buffers p.message).2 =
      if p.HasRoom q.queueLength q.writeState.position then .ok ()
      else .error (.error .EWOULDBLOCK) := by
  have hQ := h.length_lt
  obtain ⟨h1, h2, h3, h4, h5⟩ := h.positions
  have hlegal : alignUp 8 p.len ≤ q.queueLength := hp.fits.trans (Nat.sub_le _ _)
  have hring : writeRing env.bufferRef q p.flags p.buffers p.message =
      (reserve q p.len >>= fun r => writePacket q.bytes r.1 q.queueLength r.2 (packetHeader p.len
        (packetFlags p.flags p.buffers.length p.message.length) p.buffers.length q.seqNo)
        p.buffers p.message >>= fun out => pure (publish q out.1 out.2)) := by
    rw [writeRing, verifyC_pos hp.bounded.buffers_le, ok_bind,
      verifyC_pos hp.bounded.message_le, ok_bind, henv.lookups]
    rfl
  rw [reserve_empty h hp] at hring
  by_cases hbehind : q.writeState.position + alignUp 8 p.len ≤ q.queueLength
  · rw [if_pos hbehind, ok_bind] at hring
    simp only [writePacket_inline hQ h3 hbehind, ok_bind, pure_eq_ok] at hring
    rw [if_pos (.inl hbehind)]
    exact dspqueueWriteNoblock_of_ok hring henv.signal
  · rw [if_neg hbehind] at hring
    by_cases hbefore : alignUp 8 p.len + 8 ≤ q.writeState.position
    · rw [if_pos hbefore, ok_bind] at hring
      simp only [writePacket_wrapped hQ (show q.writeState.position + 8 ≤ q.queueLength by omega)
        hlegal, ok_bind, pure_eq_ok] at hring
      rw [if_pos (.inr hbefore)]
      exact dspqueueWriteNoblock_of_ok hring henv.signal
    · rw [if_neg hbefore] at hring
      have hno : ¬ p.HasRoom q.queueLength q.writeState.position := not_or.mpr ⟨hbehind, hbefore⟩
      rw [if_neg hno, dspqueueWriteNoblock_of_error hring]

/-- **An empty ring accepts a legal packet exactly when it has room at its positions**, in every state
of a run whose ring is empty. -/
theorem empty_ring_accepts {ops : List Op} {t : Sys} (hq : q.Unused)
    (h : run Sys.step (Sys.init q) ops = some t)
    (hops : Guarded Sys.step Sys.ReadWraps (Sys.init q) ops) (hempty : t.pending = [])
    (hp : p.Legal t.queue.queueLength) (henv : env.Writes p) :
    (dspqueueWriteNoblock env t.queue p.flags p.buffers p.message).2 = .ok () ↔
      p.HasRoom t.queue.queueLength t.queue.writeState.position := by
  have hinv : t.Inv := guarded_invariant (fun _ _ _ hs hop ht => hs.step hop ht) (Sys.inv_init hq)
    hops h
  rw [dspqueueWriteNoblock_empty (hinv.slots_nil hempty) hp henv]
  split_ifs with hroom
  · exact iff_of_true rfl hroom
  · exact iff_of_false nofun hroom

/-- The steps of a reader. -/
def Op.isReader : Op → Bool
  | .read _ _ => true
  | .poll _ => true
  | .timeout => true
  | _ => false

/-- A reader finds nothing in an empty ring and leaves its positions where they are. -/
theorem reader_empty {s t : Sys} {op : Op} (h : s.Inv) (hempty : s.pending = [])
    (hop : op.isReader = true) (ht : s.step op = some t) :
    t.pending = [] ∧ t.queue.queueLength = s.queue.queueLength ∧
      t.queue.writeState.position = s.queue.writeState.position := by
  have hsim := h.slots_nil hempty
  cases op with
  | read env args =>
      simp only [Sys.step] at ht
      split_ifs at ht
      obtain rfl := Option.some.inj ht
      have hread : s.stepRead env args = { s with polling := none } := by
        simp [Sys.stepRead, dspqueueReadNoblock, readStart_nil hsim, Except.isOk, Except.toBool]
      rw [hread]
      exact ⟨hempty, rfl, rfl⟩
  | poll env =>
      obtain ⟨args, _, rfl⟩ := Option.map_eq_some_iff.mp ht
      have hpoll : s.stepPoll env args = { s with polling := some args } := by
        simp [Sys.stepPoll, dspqueueReadPoll, readPoll_nil hsim]
      rw [hpoll]
      exact ⟨hempty, rfl, rfl⟩
  | timeout =>
      obtain ⟨args, _, rfl⟩ := Option.map_eq_some_iff.mp ht
      exact ⟨hempty, rfl, rfl⟩
  | write env flags buffers message => cases hop
  | earlyWakeup env wakeupDelay packetFlags => cases hop

/-- **A writer that is refused by an empty ring is refused for ever**: after any steps of the reader its
packet has no room either. -/
theorem blocked_empty {s t : Sys} {ops : List Op} (h : s.Inv) (hempty : s.pending = [])
    (hroom : ¬ p.HasRoom s.queue.queueLength s.queue.writeState.position)
    (hops : ∀ op ∈ ops, op.isReader = true) (hrun : run Sys.step s ops = some t) :
    t.pending = [] ∧ ¬ p.HasRoom t.queue.queueLength t.queue.writeState.position := by
  induction ops generalizing s with
  | nil =>
      obtain rfl := Option.some.inj hrun
      exact ⟨hempty, hroom⟩
  | cons op ops ih =>
      obtain ⟨u, hu, hrun⟩ := run_cons_eq_some.mp hrun
      have hop := hops op List.mem_cons_self
      obtain ⟨hnil, hlength, hposition⟩ := reader_empty h hempty hop hu
      refine ih (h.step ?_ hu) hnil ?_ (fun o ho => hops o (List.mem_cons_of_mem op ho)) hrun
      · cases op with
        | read env args =>
            rintro ⟨_, x, hx, _⟩
            rw [hempty] at hx
            cases hx
        | _ => trivial
      · rw [hlength, hposition]
        exact hroom

/-- A message of one byte in a ring of `32` bytes. -/
theorem empty_ring_accepts_first :
    (dspqueueWriteNoblock Env.idle (Queue.create 32 (fun _ => 0) 1 true) 0 [] [7]).2 = .ok () := by
  have hrun : run Sys.step (Sys.init (Queue.create 32 (fun _ => 0) 1 true)) [] = some _ := rfl
  exact (empty_ring_accepts (p := ⟨0, [], [7]⟩)
    (Queue.Unused.create (by decide) (by decide) (by decide) _ _ _) hrun trivial rfl
    ⟨⟨by decide, by decide⟩, by decide⟩ ⟨rfl, rfl⟩).mpr (.inl (by decide))

/-- After a message of one byte the positions of an empty ring of `32` bytes are in its middle, and a
packet of `24` bytes, which the ring may hold, is answered as if the queue were full. -/
theorem empty_ring_refuses :
    ∃ t, run Sys.step (Sys.init (Queue.create 32 (fun _ => 0) 1 true))
        [.write Env.idle 0 [] [7], .read Env.idle ⟨none, none⟩] = some t ∧ t.pending = [] ∧
      Packet.Legal t.queue.queueLength ⟨0, [], List.replicate 16 7⟩ ∧
      (dspqueueWriteNoblock Env.idle t.queue 0 [] (List.replicate 16 7)).2 =
        .error (.error .EWOULDBLOCK) := by
  refine ⟨_, rfl, by decide +kernel, ⟨⟨by decide, by decide⟩, by decide +kernel⟩, by decide +kernel⟩

end FastRpc
