import FastRpc.Threads
import FastRpc.Transition
import FastRpc.WaitSignal

/-! # Cancelling the waiters of a queue

The threads that use one condition of a queue (`packet_cond` with `packet_mutex`, or `space_cond`
with `space_mutex`): blocked readers or writers, the packet callback thread, the receive thread
that updates the count, and `dspqueue_close` or `error_callback`, which set the cancel bit and
broadcast once.  Every section between taking the mutex and releasing it (or sleeping) is one
event; threads take the mutex, call `wait_signal_locked` any number of times and release it, in
every order.

A thread that calls the untimed wait when the cancel bit is already set sleeps without testing it,
and nothing wakes it (`sleeps_after_cancel`).  In every other case a cancellation releases all the
waiters (`cancel_releases_waiters`). -/

namespace FastRpc.CancelWait

open Transition

/-- Where a thread is: outside, with the mutex, in the condition wait, or woken in it. -/
inductive Pc
  | out
  | locked
  | asleep (timed : Bool) (c : ℕ)
  | woken (timed : Bool) (c : ℕ)
  deriving DecidableEq, Repr

/-- `pthread_cond_broadcast` for one thread. -/
def Pc.broadcast : Pc → Pc
  | asleep timed c => woken timed c
  | pc => pc

/-- The threads, the owner of the mutex, the cancel bit of the mask and the count. -/
structure State (ι : Type) where
  pc : ι → Pc
  mutex : Option ι
  cancel : Bool
  count : ℕ

/-- The steps of the threads. -/
inductive Event (ι : Type)
  | lock (i : ι)
  | unlock (i : ι)
  | enterWait (i : ι) (timed : Bool)
  | wake (i : ι)
  | resume (i : ι)
  | expire (i : ι)
  | setCancel
  | setCount (n : ℕ)

variable {ι : Type} [DecidableEq ι]

/-- No thread uses the queue yet. -/
def init (count : ℕ) : State ι := ⟨fun _ => .out, none, false, count⟩

/-- Thread `i` comes back from `wait_signal_locked`, or sleeps (again) with the count `c`. -/
def State.waits (s : State ι) (i : ι) (timed : Bool) (c : ℕ) : Option WaitResult → State ι
  | some _ => { s with pc := Function.update s.pc i .locked, mutex := some i }
  | none => { s with pc := Function.update s.pc i (.asleep timed c), mutex := none }

/-- One step.  A wake without a broadcast is a spurious one. -/
def step (s : State ι) : Event ι → Option (State ι)
  | .lock i =>
      if s.pc i = .out ∧ s.mutex = none then
        some { s with pc := Function.update s.pc i .locked, mutex := some i }
      else none
  | .unlock i =>
      if s.pc i = .locked then
        some { s with pc := Function.update s.pc i .out, mutex := none }
      else none
  | .enterWait i timed =>
      if s.pc i = .locked then
        some (s.waits i timed s.count (waitEnter timed s.count s.cancel))
      else none
  | .wake i =>
      match s.pc i with
      | .asleep timed c => some { s with pc := Function.update s.pc i (.woken timed c) }
      | _ => none
  | .resume i =>
      match s.pc i, s.mutex with
      | .woken timed c, none => some (s.waits i timed c (waitResume timed c s.count s.cancel))
      | _, _ => none
  | .expire i =>
      match s.pc i, s.mutex with
      | .asleep true _, none =>
          some { s with pc := Function.update s.pc i .locked, mutex := some i }
      | _, _ => none
  | .setCancel =>
      if s.mutex = none then
        some { s with cancel := true, pc := fun i => (s.pc i).broadcast }
      else none
  | .setCount n =>
      if s.mutex = none then
        if s.count = n then some s
        else some { s with count := n, pc := fun i => (s.pc i).broadcast }
      else none

/-- After a cancellation no thread sleeps untimed. -/
def Released (s : State ι) : Prop := s.cancel = true → ∀ i c, s.pc i ≠ .asleep false c

/-- The step is not a call of the untimed wait after the cancellation. -/
def NoLateWait (s : State ι) : Event ι → Prop
  | .enterWait _ false => s.cancel = false
  | _ => True

variable {s t : State ι} {e : Event ι}

theorem Pc.broadcast_ne (pc : Pc) (timed : Bool) (c : ℕ) : pc.broadcast ≠ .asleep timed c := by
  cases pc <;> simp [broadcast]

/-- Changing one thread to a state in which it does not sleep untimed. -/
theorem Released.update {i : ι} {x : Pc} {mutex : Option ι} (h : Released s)
    (hx : s.cancel = true → ∀ c, x ≠ .asleep false c) :
    Released { s with pc := Function.update s.pc i x, mutex := mutex } := fun hc j c =>
  Threads.forall_update (P := fun _ y => y ≠ Pc.asleep false c) (hx hc c) (fun k _ => h hc k c) j

theorem Released.waits {i : ι} {timed : Bool} {c : ℕ} {r : Option WaitResult} (h : Released s)
    (hr : s.cancel = true → timed = false → r ≠ none) : Released (s.waits i timed c r) := by
  cases r with
  | some _ => exact h.update (fun _ _ => by simp)
  | none =>
      refine h.update (fun hc c' heq => ?_)
      obtain ⟨rfl, _⟩ := Pc.asleep.inj heq
      exact hr hc rfl rfl

/-- Every step but a late untimed wait keeps the waiters released. -/
theorem Released.step (h : Released s) (he : NoLateWait s e) (ht : step s e = some t) :
    Released t := by
  cases e with
  | lock i =>
      simp only [CancelWait.step] at ht
      split_ifs at ht
      obtain rfl := Option.some.inj ht
      exact h.update (fun _ _ => by simp)
  | unlock i =>
      simp only [CancelWait.step] at ht
      split_ifs at ht
      obtain rfl := Option.some.inj ht
      exact h.update (fun _ _ => by simp)
  | enterWait i timed =>
      simp only [CancelWait.step] at ht
      split_ifs at ht
      obtain rfl := Option.some.inj ht
      refine h.waits (fun hc hu => ?_)
      subst hu
      rw [show s.cancel = false from he] at hc
      cases hc
  | wake i =>
      simp only [CancelWait.step] at ht
      split at ht
      · obtain rfl := Option.some.inj ht
        exact h.update (fun _ _ => by simp)
      · cases ht
  | resume i =>
      simp only [CancelWait.step] at ht
      split at ht
      · obtain rfl := Option.some.inj ht
        refine h.waits (fun hc _ => ?_)
        rw [hc]
        exact waitResume_cancelled _ _ _
      · cases ht
  | expire i =>
      simp only [CancelWait.step] at ht
      split at ht
      · obtain rfl := Option.some.inj ht
        exact h.update (fun _ _ => by simp)
      · cases ht
  | setCancel =>
      simp only [CancelWait.step] at ht
      split_ifs at ht
      obtain rfl := Option.some.inj ht
      exact fun _ i c => Pc.broadcast_ne _ _ _
  | setCount n =>
      simp only [CancelWait.step] at ht
      split_ifs at ht
      · obtain rfl := Option.some.inj ht
        exact h
      · obtain rfl := Option.some.inj ht
        exact fun _ i c => Pc.broadcast_ne _ _ _

/-- A late untimed wait sleeps. -/
theorem not_released_of_lateWait (he : ¬ NoLateWait s e) (ht : step s e = some t) :
    ¬ Released t := by
  cases e with
  | enterWait i timed =>
      cases timed with
      | true => exact absurd trivial he
      | false =>
          have hc : s.cancel = true := by
            simpa [NoLateWait] using he
          simp only [CancelWait.step, waitEnter_untimed] at ht
          split_ifs at ht
          obtain rfl := Option.some.inj ht
          intro hr
          exact hr hc i s.count (by simp [State.waits])
  | lock i => exact absurd trivial he
  | unlock i => exact absurd trivial he
  | wake i => exact absurd trivial he
  | resume i => exact absurd trivial he
  | expire i => exact absurd trivial he
  | setCancel => exact absurd trivial he
  | setCount n => exact absurd trivial he

/-- **A cancellation releases every waiter, in every state of a run, exactly when no thread of the
run calls the untimed wait after the cancellation.** -/
theorem cancel_releases_waiters {count : ℕ} {es : List (Event ι)} {t : State ι}
    (h : run step (init count) es = some t) :
    Along step Released (init count) es ↔ Guarded step NoLateWait (init count) es :=
  along_iff_guarded (fun _ _ _ hs he ht => Released.step hs he ht) (fun _ hs => hs)
    (fun _ _ _ _ he ht => not_released_of_lateWait he ht)
    (fun hc => by simp [init] at hc) h

/-- A reader waits untimed and a cancellation releases it. -/
theorem cancel_releases_waiters_one_reader :
    Along step Released (init 0 : State (Fin 1))
      [.lock 0, .enterWait 0 false, .setCancel, .resume 0, .unlock 0] := by
  refine (cancel_releases_waiters rfl).mpr ⟨trivial, fun t ht => ?_⟩
  obtain rfl := Option.some.inj ht
  exact ⟨rfl, fun _ _ => ⟨trivial, fun _ _ => ⟨trivial, fun _ _ => ⟨trivial, fun _ _ => trivial⟩⟩⟩⟩

/-- The packet callback thread gets a packet, leaves the wait and comes back to it after the close
has set the cancel bit and broadcast: it sleeps untimed. -/
theorem sleeps_after_cancel :
    ∃ t, run step (init 0 : State (Fin 1))
        [.lock 0, .enterWait 0 false, .setCount 1, .resume 0, .unlock 0, .setCancel, .lock 0,
          .enterWait 0 false] = some t ∧
      t.cancel = true ∧ t.pc 0 = .asleep false 1 :=
  ⟨_, rfl, rfl, rfl⟩

end FastRpc.CancelWait
