import FastRpc.RingDelivery

/-! # The packet queue is a FIFO

Without early wakeup packets the successful reads return a prefix of the packets of the successful
writes, and a read with large enough areas returns the next one whenever there is one
(`fifo_delivery`).  The presence flags that a read returns are those of the packet's content: a
write sets or clears them itself, whatever its caller passed (`presence_flags_replaced`). -/

namespace FastRpc

open ByteStore FramedRing Transition

/-- A write without the wakeup flag, or a read. -/
def Op.NoWakeup : Op → Prop
  | .write _ flags _ _ => flags.testBit flagWakeup = false
  | .read _ _ => True
  | _ => False

/-- The signal of the step and, for a read, the lookups of the packet's buffers succeed. -/
def Sys.EnvSucceeds (s : Sys) : Op → Prop
  | .write env _ _ _ => env.sendSignal = .ok ()
  | .read env args => ∀ p ∈ s.pending.head?, env.Serves args p
  | _ => True

/-- The state of a queue that carries normal packets only. -/
structure Sys.Plain (s : Sys) : Prop where
  inv : s.Inv
  delivery : s.Delivery
  accepted : s.accepted = s.placed
  normal : ∀ p ∈ s.placed, p.isWakeup = false
  idle : s.polling = none

namespace Sys

variable {s t : Sys} {op : Op}

theorem Plain.pending_normal (h : s.Plain) {p : Packet} (hp : p ∈ s.pending.head?) :
    p.isWakeup = false :=
  h.normal p (List.mem_of_mem_drop (List.mem_of_mem_head? hp))

theorem Plain.not_wakeupAtEnd (h : s.Plain) : ¬ s.WakeupAtEnd := by
  rintro ⟨_, p, hp, hw, _⟩
  rw [h.pending_normal hp] at hw
  cases hw

theorem plain_init {q : Queue} (h : q.Unused) : (init q).Plain :=
  ⟨inv_init h, delivery_init q, rfl, fun _ hp => absurd hp List.not_mem_nil, rfl⟩

theorem Plain.stepWrite (h : s.Plain) {env : Env} {p : Packet} (hn : p.isWakeup = false)
    (hsig : env.sendSignal = .ok ()) : (s.stepWrite env p).Plain := by
  have hd := h.delivery.stepWrite h.inv env p
  obtain ⟨hinv, _, hw⟩ := stepWrite_cases h.inv env p
  rcases hw with ht | ⟨hplaced, haccepted⟩
  · rw [ht]; exact h
  · refine ⟨hinv, hd, ?_, ?_, h.idle⟩
    · rw [haccepted hsig, hplaced, h.accepted]
    · intro p' hp'
      rw [hplaced] at hp'
      rcases List.mem_append.mp hp' with hp' | hp'
      · exact h.normal p' hp'
      · rw [List.mem_singleton.mp hp']; exact hn

theorem Plain.stepRead (h : s.Plain) {env : Env} {args : ReadArgs}
    (hserves : ∀ p ∈ s.pending.head?, env.Serves args p) : (s.stepRead env args).Plain := by
  obtain ⟨hinv, hpass⟩ := stepRead_cases h.inv h.not_wakeupAtEnd env args
  refine ⟨hinv, h.delivery.passed rfl hpass (fun p hp hn _ => ⟨hn, hserves p hp⟩), h.accepted,
    h.normal, stepRead_idle h.inv (fun p => h.pending_normal) env args⟩

theorem Plain.step (h : s.Plain) (hop : op.NoWakeup) (hsucc : s.EnvSucceeds op)
    (ht : s.step op = some t) : t.Plain := by
  cases op with
  | write env flags buffers message =>
      obtain rfl := Option.some.inj ht
      exact h.stepWrite hop hsucc
  | read env args =>
      simp only [Sys.step, h.idle, Option.isNone_none, if_true] at ht
      obtain rfl := Option.some.inj ht
      exact h.stepRead hsucc
  | earlyWakeup env wakeupDelay packetFlags => exact absurd hop id
  | poll env => exact absurd hop id
  | timeout => exact absurd hop id

/-- The packets that the reader has passed are those it has returned. -/
theorem Plain.consumed_eq (h : s.Plain) :
    s.consumed = s.returned.length ∧ s.passedNormal = s.accepted.take s.returned.length := by
  have hall : s.passedNormal = s.placed.take s.consumed :=
    List.filter_eq_self.mpr fun p hp => by simp [h.normal p (List.mem_of_mem_take hp)]
  have hlen : s.consumed = s.returned.length := by
    have := h.delivery.length_eq
    rw [hall, List.length_take, min_eq_left h.inv.consumed_le] at this
    exact this
  exact ⟨hlen, by rw [hall, h.accepted, hlen]⟩

end Sys

/-- **The packet queue is a FIFO.**  The successful reads return the packets of the successful
writes from the first on, unchanged, and a read with large enough areas returns the next one. -/
theorem fifo_delivery {q : Queue} {ops : List Op} {t : Sys} (hq : q.Unused)
    (hops : ∀ op ∈ ops, op.NoWakeup) (hsucc : Guarded Sys.step Sys.EnvSucceeds (Sys.init q) ops)
    (h : run Sys.step (Sys.init q) ops = some t) :
    List.Forall₂ (fun p x => Delivers x.1 p x.2) (t.accepted.take t.returned.length) t.returned ∧
    ∀ p, t.accepted[t.returned.length]? = some p → ∀ env args, p.Fits args → env.Serves args p →
      ∃ u d, t.step (.read env args) = some u ∧ u.returned = t.returned ++ [(args, d)] ∧
        Delivers args p d := by
  have hplain : t.Plain :=
    guarded_invariant (fun _ _ _ hs hop ht => hs.step hop.1 hop.2 ht) (Sys.plain_init hq)
      (hsucc.and_forall hops) h
  obtain ⟨hconsumed, hpassed⟩ := hplain.consumed_eq
  refine ⟨hpassed ▸ hplain.delivery, fun p hp env args hfits hserves => ?_⟩
  have hhead : p ∈ t.pending.head? := by
    rw [Sys.pending, hconsumed, List.head?_drop, ← hplain.accepted]
    exact hp
  have hpend : t.pending = p :: t.pending.tail := (List.cons_head?_tail hhead).symm
  obtain ⟨d, hret, hdel⟩ := Sys.stepRead_returns hplain.inv hpend (hplain.pending_normal hhead)
    hfits hserves
  exact ⟨t.stepRead env args, d, by simp [Sys.step, hplain.idle], hret, hdel⟩

/-- A write and a read of a message of three bytes. -/
theorem fifo_delivery_one_packet :
    ∃ t, run Sys.step (Sys.init (Queue.create 64 (fun _ => 0) 1 true))
        [.write Env.idle 0 [] [1, 2, 3], .read Env.idle ⟨none, some 8⟩] = some t ∧
      List.Forall₂ (fun p x => Delivers x.1 p x.2) (t.accepted.take t.returned.length)
        t.returned := by
  obtain ⟨t, h⟩ : ∃ t, run Sys.step (Sys.init (Queue.create 64 (fun _ => 0) 1 true))
      [.write Env.idle 0 [] [1, 2, 3], .read Env.idle ⟨none, some 8⟩] = some t := ⟨_, rfl⟩
  refine ⟨t, h, (fifo_delivery ?_ ?_ ?_ h).1⟩
  · exact Queue.Unused.create (by decide) (by decide) (by decide) _ _ _
  · intro op hop
    rcases List.mem_pair.mp hop with rfl | rfl
    · exact (by decide : (0 : ℕ).testBit flagWakeup = false)
    · trivial
  · exact ⟨rfl, fun _ _ => ⟨fun _ _ => ⟨rfl, fun hne => absurd rfl hne⟩, fun _ _ => trivial⟩⟩

/-- A write that passes the flag of buffer references and no buffers is accepted, and the read
returns a packet without that flag. -/
theorem presence_flags_replaced :
    ∃ t, run Sys.step (Sys.init (Queue.create 64 (fun _ => 0) 1 true))
        [.write Env.idle (2 ^ flagBuffers) [] [], .read Env.idle ⟨some 64, some 64⟩] = some t ∧
      t.accepted.map (fun p => p.flags.testBit flagBuffers) = [true] ∧
      t.returned.map (fun x => x.2.flags.testBit flagBuffers) = [false] := by
  have h : (run Sys.step (Sys.init (Queue.create 64 (fun _ => 0) 1 true))
      [.write Env.idle (2 ^ flagBuffers) [] [], .read Env.idle ⟨some 64, some 64⟩]).map
      (fun t => (t.accepted.map (fun p => p.flags.testBit flagBuffers),
        t.returned.map (fun x => x.2.flags.testBit flagBuffers))) = some ([true], [false]) := by
    decide +kernel
  obtain ⟨t, ht, hflags⟩ := Option.map_eq_some_iff.mp h
  obtain ⟨h1, h2⟩ := Prod.mk.inj hflags
  exact ⟨t, ht, h1, h2⟩

end FastRpc
