import FastRpc.RingDelivery

/-! # Early wakeup packets and the client

An early wakeup packet is meant for the library: `dspqueue_read_noblock` consumes it and waits for
the packet behind it.  That packet is then parsed without a second test of the wakeup flag, so an
early wakeup packet directly behind another one is returned to the client as if it were a normal
packet (`second_wakeup_returned`).  `early_wakeup_transparent` says that in every run in which no
poll meets such a packet, no read meets the packet of `Sys.WakeupAtEnd`, and no signal or buffer
lookup fails after a packet has been consumed, the client gets exactly the normal packets. -/

namespace FastRpc

open ByteStore FramedRing Transition

/-- Normal writes do not carry the wakeup flag. -/
def Op.FollowsAlgorithm : Op → Prop
  | .write _ flags _ _ => flags.testBit flagWakeup = false
  | _ => True

/-- The reader does not meet one of the situations that the code treats wrongly. -/
def Sys.Undisturbed (s : Sys) : Op → Prop
  | .read env args => ¬ s.WakeupAtEnd ∧
      ∀ p ∈ s.pending.head?, p.isWakeup = false → p.Fits args → env.Serves args p
  | .poll env => ∀ args ∈ s.polling, ∀ p ∈ s.pending.head?, p.Fits args →
      p.isWakeup = false ∧ env.Serves args p
  | _ => True

/-- What transparency means in one state: the client has got exactly the normal packets that the
reader has passed; the next normal packet is returned by a read, also when one early wakeup packet
lies before it and the read has gone on to poll. -/
structure Transparent (s : Sys) : Prop where
  returned : List.Forall₂ (fun p x => Delivers x.1 p x.2)
    ((s.placed.take s.consumed).filter (!·.isWakeup)) s.returned
  read_next : ∀ (p : Packet) (rest : List Packet) (env : Env) (args : ReadArgs),
    s.polling = none → s.pending = p :: rest → p.isWakeup = false → p.Fits args →
      env.Serves args p → ∃ t d, s.step (.read env args) = some t ∧
        t.returned = s.returned ++ [(args, d)] ∧ Delivers args p d
  poll_next : ∀ (p : Packet) (rest : List Packet) (env : Env) (args : ReadArgs),
    s.polling = some args → s.pending = p :: rest → p.Fits args → env.Serves args p →
      ∃ t d, s.step (.poll env) = some t ∧ t.returned = s.returned ++ [(args, d)] ∧
        Delivers args p d
  read_wakeup : ∀ (p : Packet) (rest : List Packet) (env : Env) (args : ReadArgs),
    s.polling = none → s.pending = p :: rest → p.isWakeup = true → env.sendSignal = .ok () →
      ∃ t, s.step (.read env args) = some t ∧ t.polling = some args ∧ t.pending = rest ∧
        t.returned = s.returned

/-- The invariant behind transparency. -/
structure Sys.Woken (s : Sys) : Prop where
  inv : s.Inv
  delivery : s.Delivery
  plain : ∀ p ∈ s.placed, p.isWakeup = true → p.PlainWakeup

namespace Sys

variable {s t : Sys} {op : Op}

theorem woken_init {q : Queue} (h : q.Unused) : (init q).Woken :=
  ⟨inv_init h, delivery_init q, fun _ hp => absurd hp List.not_mem_nil⟩

theorem plainWakeup (wakeupDelay : UInt32) (packetFlags : ℕ) :
    Packet.PlainWakeup ⟨wakeupFlags packetFlags, [], wakeupMessage wakeupDelay⟩ := by
  refine ⟨?_, rfl, ?_⟩
  · simp [Packet.isWakeup, wakeupFlags, setFlag_testBit]
  · simp only [wakeupMessage]
    split_ifs
    · exact .inl rfl
    · exact .inr (toLe_length 4 _)

theorem Woken.stepWrite (h : s.Woken) (env : Env) {p : Packet}
    (hp : p.isWakeup = true → p.PlainWakeup) : (s.stepWrite env p).Woken := by
  have hd := h.delivery.stepWrite h.inv env p
  obtain ⟨hinv, _, hw⟩ := stepWrite_cases h.inv env p
  rcases hw with ht | ⟨hplaced, _⟩
  · rw [ht]; exact h
  · refine ⟨hinv, hd, fun p' hp' => ?_⟩
    rw [hplaced] at hp'
    rcases List.mem_append.mp hp' with hp' | hp'
    · exact h.plain p' hp'
    · rw [List.mem_singleton.mp hp']; exact hp

theorem Woken.step (h : s.Woken) (hop : op.FollowsAlgorithm) (hu : s.Undisturbed op)
    (ht : s.step op = some t) : t.Woken := by
  cases op with
  | write env flags buffers message =>
      obtain rfl := Option.some.inj ht
      exact h.stepWrite env (fun hw => absurd (hw.symm.trans hop) (by decide))
  | earlyWakeup env wakeupDelay packetFlags =>
      obtain rfl := Option.some.inj ht
      exact h.stepWrite env (fun _ => plainWakeup wakeupDelay packetFlags)
  | read env args =>
      simp only [Sys.step] at ht
      split_ifs at ht
      obtain rfl := Option.some.inj ht
      obtain ⟨hinv, hpass⟩ := stepRead_cases h.inv hu.1 env args
      exact ⟨hinv, h.delivery.passed rfl hpass (fun p hp hn hf => ⟨hn, hu.2 p hp hn hf⟩), h.plain⟩
  | poll env =>
      obtain ⟨args, hargs, rfl⟩ := Option.map_eq_some_iff.mp ht
      obtain ⟨hinv, hpass⟩ := stepPoll_cases h.inv env args
      exact ⟨hinv, h.delivery.passed rfl hpass (fun p hp _ hf => hu args hargs p hp hf), h.plain⟩
  | timeout =>
      obtain ⟨args, _, rfl⟩ := Option.map_eq_some_iff.mp ht
      obtain ⟨slots, hslots, hsim⟩ := h.inv.simulates
      exact ⟨⟨h.inv.consumed_le, slots, hslots, hsim.sixteen_le, hsim.length_lt, hsim.same_count,
        hsim.positions, hsim.layout, hsim.bounded⟩, h.delivery, h.plain⟩

theorem Woken.transparent (h : s.Woken) : Transparent s := by
  refine ⟨h.delivery, ?_, ?_, ?_⟩
  · intro p rest env args hidle hp hn hfits hserves
    obtain ⟨d, hret, hdel⟩ := stepRead_returns h.inv hp hn hfits hserves
    exact ⟨s.stepRead env args, d, by simp [Sys.step, hidle], hret, hdel⟩
  · intro p rest env args hpoll hp hfits hserves
    obtain ⟨d, hret, hdel⟩ := stepPoll_returns h.inv hp hfits hserves
    exact ⟨s.stepPoll env args, d, by simp [Sys.step, hpoll], hret, hdel⟩
  · intro p rest env args hidle hp hw hsig
    have hmem : p ∈ s.placed := List.mem_of_mem_drop (by rw [← pending, hp]; exact List.mem_cons_self)
    exact ⟨s.stepRead env args, by simp [Sys.step, hidle],
      stepRead_polls h.inv hp (h.plain p hmem hw) hsig⟩

end Sys

/-- **Early wakeup packets are transparent** in every run that does not meet one of the situations
of `Sys.Undisturbed`. -/
theorem early_wakeup_transparent {q : Queue} {ops : List Op} {t : Sys} (hq : q.Unused)
    (hops : ∀ op ∈ ops, op.FollowsAlgorithm)
    (hu : Guarded Sys.step Sys.Undisturbed (Sys.init q) ops)
    (h : run Sys.step (Sys.init q) ops = some t) : Transparent t :=
  (guarded_invariant (fun _ _ _ hs hop ht => Sys.Woken.step hs hop.1 hop.2 ht) (Sys.woken_init hq)
    (hu.and_forall hops) h).transparent

/-- A run with one early wakeup packet in front of a normal one. -/
theorem early_wakeup_transparent_one_wakeup :
    ∃ t, run Sys.step (Sys.init (Queue.create 64 (fun _ => 0) 1 true))
        [.earlyWakeup Env.idle 0 0, .write Env.idle 0 [] [1, 2, 3]] = some t ∧
      Transparent t := by
  obtain ⟨t, h⟩ : ∃ t, run Sys.step (Sys.init (Queue.create 64 (fun _ => 0) 1 true))
      [.earlyWakeup Env.idle 0 0, .write Env.idle 0 [] [1, 2, 3]] = some t := ⟨_, rfl⟩
  refine ⟨t, h, early_wakeup_transparent ?_ ?_ ?_ h⟩
  · exact Queue.Unused.create (by decide) (by decide) (by decide) _ _ _
  · intro op hop
    rcases List.mem_pair.mp hop with rfl | rfl
    · trivial
    · exact (by decide : (0 : ℕ).testBit flagWakeup = false)
  · exact ⟨trivial, fun _ _ => ⟨trivial, fun _ _ => trivial⟩⟩

/-- Two early wakeup packets and a normal packet: the first read call consumes the first one and
its poll returns the second one to the client. -/
theorem second_wakeup_returned :
    ∃ t, run Sys.step (Sys.init (Queue.create 64 (fun _ => 0) 1 true))
        [.earlyWakeup Env.idle 0 0, .earlyWakeup Env.idle 0 0, .write Env.idle 0 [] [1, 2, 3],
          .read Env.idle ⟨some 64, some 64⟩, .poll Env.idle] = some t ∧
      (t.placed.filter (!·.isWakeup)).map (·.message) = [[1, 2, 3]] ∧
      t.returned.map (fun x => (x.2.flags.testBit flagWakeup, x.2.message)) = [(true, some [])] := by
  have h : (run Sys.step (Sys.init (Queue.create 64 (fun _ => 0) 1 true))
      [.earlyWakeup Env.idle 0 0, .earlyWakeup Env.idle 0 0, .write Env.idle 0 [] [1, 2, 3],
        .read Env.idle ⟨some 64, some 64⟩, .poll Env.idle]).map
      (fun t => ((t.placed.filter (!·.isWakeup)).map (·.message),
        t.returned.map (fun x => (x.2.flags.testBit flagWakeup, x.2.message)))) =
      some ([[1, 2, 3]], [(true, some [])]) := by
    decide +kernel
  obtain ⟨t, ht, hvals⟩ := Option.map_eq_some_iff.mp h
  obtain ⟨h1, h2⟩ := Prod.mk.inj hvals
  exact ⟨t, ht, h1, h2⟩

end FastRpc
