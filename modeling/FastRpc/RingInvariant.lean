import FastRpc.RingSystem

/-! # The positions of the ring

`RingOk` is what a user of the shared ring relies on: both positions are multiples of `8` inside
the ring, a header at the read position lies inside it, the unread packets lie between the
positions, and no write changes an unread byte.

The wakeup branch of `dspqueue_read_noblock` advances past a header without `read_data`, and does
not wrap the position as `read_data` and the end of a normal read do.  So a delayless early wakeup
packet whose header fills the last `8` bytes leaves the read position at the end of the ring
(`read_position_at_end`), and `RingOk` holds in every state of a run exactly when no read meets
such a packet (`ring_invariant`). -/

namespace FastRpc

open ByteStore FramedRing Transition

/-- What holds of a ring that both sides use correctly. -/
structure RingOk (s : Sys) : Prop where
  positions : Positions s.queue.queueLength s.queue.readState.position s.queue.writeState.position
  header_inside : s.queue.readState.position + 8 ≤ s.queue.queueLength
  stored : ∃ slots : List (Packet × ℕ), slots.map Prod.fst = s.pending ∧
    slotFraming.Layout s.queue.queueLength s.queue.bytes s.queue.readState.position
      s.queue.writeState.position slots
  unread_kept : ∀ (env : Env) (p : Packet) (i : ℕ),
    Unread s.queue.queueLength s.queue.readState.position s.queue.writeState.position i →
      (dspqueueWriteNoblock env s.queue p.flags p.buffers p.message).1.bytes i = s.queue.bytes i

/-- The step is not a read that meets a delayless early wakeup packet in the last `8` bytes. -/
def Sys.ReadWraps (s : Sys) : Op → Prop
  | .read _ _ => ¬ s.WakeupAtEnd
  | _ => True

theorem Sys.Inv.ringOk {s : Sys} (h : s.Inv) : RingOk s := by
  obtain ⟨slots, hslots, hsim⟩ := h.simulates
  have hp := hsim.positions
  refine ⟨hp, ?_, ⟨slots, hslots, hsim.layout⟩, fun env p i hi => ?_⟩
  · obtain ⟨h1, h2, _, h4, _⟩ := hp
    omega
  · exact (stepWrite_cases h env p).2.1 i hi

theorem Sys.Inv.step {s t : Sys} {op : Op} (h : s.Inv) (hop : s.ReadWraps op)
    (ht : s.step op = some t) : t.Inv := by
  cases op with
  | write env flags buffers message =>
      obtain rfl := Option.some.inj ht
      exact (stepWrite_cases h env _).1
  | earlyWakeup env wakeupDelay packetFlags =>
      obtain rfl := Option.some.inj ht
      exact (stepWrite_cases h env _).1
  | read env args =>
      simp only [Sys.step] at ht
      split_ifs at ht
      obtain rfl := Option.some.inj ht
      exact (stepRead_cases h hop env args).1
  | poll env =>
      obtain ⟨args, _, rfl⟩ := Option.map_eq_some_iff.mp ht
      exact (stepPoll_cases h env args).1
  | timeout =>
      obtain ⟨args, _, rfl⟩ := Option.map_eq_some_iff.mp ht
      obtain ⟨slots, hslots, hsim⟩ := h.simulates
      exact ⟨h.consumed_le, slots, hslots, hsim.sixteen_le, hsim.length_lt, hsim.same_count,
        hsim.positions, hsim.layout, hsim.bounded⟩

/-- A read that meets the packet breaks the ring. -/
theorem Sys.Inv.not_ringOk {s t : Sys} {op : Op} (h : s.Inv) (hop : ¬ s.ReadWraps op)
    (ht : s.step op = some t) : ¬ RingOk t := by
  cases op with
  | read env args =>
      simp only [Sys.ReadWraps, not_not] at hop
      simp only [Sys.step] at ht
      split_ifs at ht
      obtain rfl := Option.some.inj ht
      intro hok
      have hpos := stepRead_wakeupAtEnd h hop env args
      have hlt := hok.positions.read_lt
      omega
  | write env flags buffers message => exact absurd trivial hop
  | earlyWakeup env wakeupDelay packetFlags => exact absurd trivial hop
  | poll env => exact absurd trivial hop
  | timeout => exact absurd trivial hop

/-- **The ring is sound in every state of a run exactly when no read of the run meets a delayless
early wakeup packet in the last `8` bytes.** -/
theorem ring_invariant {q : Queue} {ops : List Op} {t : Sys} (hq : q.Unused)
    (h : run Sys.step (Sys.init q) ops = some t) :
    Along Sys.step RingOk (Sys.init q) ops ↔ Guarded Sys.step Sys.ReadWraps (Sys.init q) ops :=
  along_iff_guarded (fun _ _ _ hs hop ht => hs.step hop ht) (fun _ hs => hs.ringOk)
    (fun _ _ _ hs hop ht => hs.not_ringOk hop ht) (Sys.inv_init hq) h

/-- One write meets the condition, so the ring is sound. -/
theorem ring_invariant_one_write :
    Along Sys.step RingOk (Sys.init (Queue.create 64 (fun _ => 0) 1 true))
      [.write Env.idle 0 [] [1, 2, 3]] :=
  (ring_invariant (Queue.Unused.create (by decide) (by decide) (by decide) _ _ _) rfl).mpr
    ⟨trivial, fun _ _ => trivial⟩

/-- In a ring of `16` bytes the second delayless early wakeup packet fills the last `8` bytes; the
read that consumes it leaves the read position at the end of the ring. -/
theorem read_position_at_end :
    (Queue.create 16 (fun _ => 0) 1 true).Unused ∧
    ∃ t, run Sys.step (Sys.init (Queue.create 16 (fun _ => 0) 1 true))
        [.earlyWakeup Env.idle 0 0, .read Env.idle ⟨none, none⟩, .timeout,
          .earlyWakeup Env.idle 0 0, .read Env.idle ⟨none, none⟩] = some t ∧
      ¬ t.queue.readState.position < t.queue.queueLength := by
  refine ⟨Queue.Unused.create (by decide) (by decide) (by decide) _ _ _, ?_⟩
  have h : (run Sys.step (Sys.init (Queue.create 16 (fun _ => 0) 1 true))
      [.earlyWakeup Env.idle 0 0, .read Env.idle ⟨none, none⟩, .timeout,
        .earlyWakeup Env.idle 0 0, .read Env.idle ⟨none, none⟩]).map
      (fun t => decide (t.queue.readState.position < t.queue.queueLength)) = some false := by
    decide +kernel
  obtain ⟨t, ht, hpos⟩ := Option.map_eq_some_iff.mp h
  exact ⟨t, ht, by simpa using hpos⟩

end FastRpc
