import FastRpc.Threads
import FastRpc.Transition
import FastRpc.WaitSignal

/-! # Blocking reads and the signals that wake them

Any number of threads call `dspqueue_read` on one queue while its peer writes packets, and (without
driver signalling) the receive thread turns signals into counts.  The ring itself is only the
number `avail` of unread packets: a read finds nothing exactly when it is `0`
(`FastRpc.readStart_nil`).

The writer publishes a packet, counts it in the shared state, tests the reader's `wait_count` and
then signals.  A reader takes `packet_mutex`, tries to read, announces itself in `wait_count`,
tries again and waits; every access to the ring, to `wait_count`, to the counters and to the mutex
is a step of its own.  With driver signalling the wait is `dspsignal_wait`, with the mutex held;
signals are delivered at least once and may be coalesced.

The counters are `uint32_t`.  The model keeps the number of packets they have counted, and the code
compares these numbers modulo `2 ^ 32` (`sameU32`). -/

namespace FastRpc.ResponseWait

open Transition

/-- What the queue was created with. -/
structure Config where
  haveDriverSignaling : Bool
  haveWaitCounts : Bool
  deriving DecidableEq

/-- Where the writer is in `dspqueue_write_noblock`. -/
inductive WriterPc
  | idle
  | published
  | counted
  | signalling
  deriving DecidableEq, Repr

/-- Where a thread is in `dspqueue_read`.  `first`, `second` and `again` are about to call
`dspqueue_read_noblock`; `leave` is the end of the function, with its variable `waiting`. -/
inductive ReaderPc
  | out
  | first
  | announce
  | second
  | enter
  | asleep (timed : Bool) (c : ℕ)
  | woken (timed : Bool) (c : ℕ)
  | driverWait
  | again
  | leave (waiting : Bool)
  deriving DecidableEq, Repr

/-- `pthread_cond_broadcast` for one thread. -/
def ReaderPc.broadcast : ReaderPc → ReaderPc
  | asleep timed c => woken timed c
  | pc => pc

/-- The thread is counted in `wait_count`. -/
def ReaderPc.announced : ReaderPc → Bool
  | second | enter | asleep _ _ | woken _ _ | driverWait | again => true
  | leave waiting => waiting
  | out | first | announce => false

/-- The two counters hold the same `uint32_t`. -/
def sameU32 (a b : ℕ) : Prop := a % 2 ^ 32 = b % 2 ^ 32

instance (a b : ℕ) : Decidable (sameU32 a b) := inferInstanceAs (Decidable (_ = _))

/-- The queue, its writer, the signals on their way, the receive thread and the readers. -/
structure State (ι : Type) where
  avail : ℕ
  writer : WriterPc
  sharedPacketCount : ℕ
  signals : ℕ
  receiving : Bool
  respPacketCount : ℕ
  waitCount : ℕ
  mutex : Option ι
  pc : ι → ReaderPc

/-- The steps of the writer, of the signals and the receive thread, and of the readers. -/
inductive Event (ι : Type)
  | publish
  | countPacket
  | testWaitCount
  | sendSignal
  | coalesce
  | takeSignal
  | receivePass
  | lock (i : ι)
  | readEmpty (i : ι)
  | readPacket (i : ι)
  | readWakeup (i : ι)
  | readError (i : ι)
  | announce (i : ι)
  | enterWait (i : ι) (timed : Bool)
  | wake (i : ι)
  | resume (i : ι)
  | driverWake (i : ι)
  | expire (i : ι)
  | unlock (i : ι)

variable {ι : Type}

/-- No packet, no signal and no reader. -/
def init : State ι := ⟨0, .idle, 0, 0, false, 0, 0, none, fun _ => .out⟩

/-- Thread `i` moves to `pc`. -/
def State.goto [DecidableEq ι] (s : State ι) (i : ι) (pc : ReaderPc) : State ι :=
  { s with pc := Function.update s.pc i pc }

/-- Where an attempt to read that found no packet continues. -/
def afterEmpty (cfg : Config) : ReaderPc → Option ReaderPc
  | .first => some (if cfg.haveWaitCounts then .announce else .enter)
  | .second | .again => some .enter
  | _ => none

/-- Where an attempt to read that has a packet or an error continues. -/
def afterResult (cfg : Config) : ReaderPc → Option ReaderPc
  | .first => some (.leave false)
  | .second => some (.leave true)
  | .again => some (.leave cfg.haveWaitCounts)
  | _ => none

/-- The section of the receive thread on one queue. -/
def State.receivePass (s : State ι) : State ι :=
  if sameU32 s.respPacketCount s.sharedPacketCount then { s with receiving := false }
  else { s with receiving := false, respPacketCount := s.sharedPacketCount,
                pc := fun i => (s.pc i).broadcast }

/-- One step. -/
def step [DecidableEq ι] (cfg : Config) (s : State ι) : Event ι → Option (State ι)
  | .publish =>
      if s.writer = .idle then some { s with writer := .published, avail := s.avail + 1 } else none
  | .countPacket =>
      if s.writer = .published then
        some { s with writer := .counted, sharedPacketCount := s.sharedPacketCount + 1 }
      else none
  | .testWaitCount =>
      if s.writer = .counted then
        if cfg.haveWaitCounts ∧ s.waitCount = 0 then some { s with writer := .idle }
        else some { s with writer := .signalling }
      else none
  | .sendSignal =>
      if s.writer = .signalling then some { s with writer := .idle, signals := s.signals + 1 }
      else none
  | .coalesce => if 2 ≤ s.signals then some { s with signals := s.signals - 1 } else none
  | .takeSignal =>
      if cfg.haveDriverSignaling = false ∧ s.receiving = false ∧ 0 < s.signals then
        some { s with signals := s.signals - 1, receiving := true }
      else none
  | .receivePass =>
      if s.receiving = true ∧ s.mutex = none then some s.receivePass else none
  | .lock i =>
      if s.pc i = .out ∧ s.mutex = none then some { s.goto i .first with mutex := some i }
      else none
  | .readEmpty i =>
      if s.avail = 0 then (afterEmpty cfg (s.pc i)).map (fun pc => s.goto i pc) else none
  | .readPacket i =>
      if 0 < s.avail then
        (afterResult cfg (s.pc i)).map (fun pc => { s.goto i pc with avail := s.avail - 1 })
      else none
  | .readWakeup i =>
      if 0 < s.avail then
        (afterResult cfg (s.pc i)).map (fun _ => { s with avail := s.avail - 1 })
      else none
  | .readError i => (afterResult cfg (s.pc i)).map (fun pc => s.goto i pc)
  | .announce i =>
      if s.pc i = .announce then
        some { s.goto i .second with waitCount := addU32 s.waitCount 1 }
      else none
  | .enterWait i timed =>
      if s.pc i = .enter then
        if cfg.haveDriverSignaling then some (s.goto i .driverWait)
        else match waitEnter timed s.respPacketCount false with
          | none => some { s.goto i (.asleep timed s.respPacketCount) with mutex := none }
          | some _ => some (s.goto i .again)
      else none
  | .wake i =>
      match s.pc i with
      | .asleep timed c => some (s.goto i (.woken timed c))
      | _ => none
  | .resume i =>
      match s.pc i, s.mutex with
      | .woken timed c, none =>
          match waitResume timed (c % 2 ^ 32) (s.respPacketCount % 2 ^ 32) false with
          | none => some (s.goto i (.asleep timed c))
          | some _ => some { s.goto i .again with mutex := some i }
      | _, _ => none
  | .driverWake i =>
      if s.pc i = .driverWait ∧ 0 < s.signals then some { s.goto i .again with signals := 0 }
      else none
  | .expire i =>
      match s.pc i, s.mutex with
      | .asleep true _, none => some { s.goto i (.leave cfg.haveWaitCounts) with mutex := some i }
      | .driverWait, _ => some (s.goto i (.leave cfg.haveWaitCounts))
      | _, _ => none
  | .unlock i =>
      match s.pc i with
      | .leave waiting =>
          some { s.goto i .out with
                 mutex := none
                 waitCount := if waiting then subU32 s.waitCount 1 else s.waitCount }
      | _ => none

/-- The thread is blocked in its wait, and no new count is recorded for it. -/
def Blocked (s : State ι) (i : ι) : Prop :=
  s.pc i = .driverWait ∨ ∃ timed c, s.pc i = .asleep timed c ∧ sameU32 c s.respPacketCount

/-- The writer has not finished, a signal is on its way, or the receive thread is at work. -/
def SignalPending (s : State ι) : Prop :=
  s.writer ≠ .idle ∨ 0 < s.signals ∨ s.receiving = true

/-- A reader waits for a packet that is there, and nothing will wake it. -/
def Lost (s : State ι) : Prop := 0 < s.avail ∧ ¬ SignalPending s ∧ ∃ i, Blocked s i

/-- When the receive thread compares the counters, no snapshot of a waiter is `2 ^ 32` packets
old. -/
def RecentSnapshots (s : State ι) : Event ι → Prop
  | .receivePass => ∀ i timed c, s.pc i = .asleep timed c ∨ s.pc i = .woken timed c →
      s.sharedPacketCount < c + 2 ^ 32
  | _ => True

end FastRpc.ResponseWait
