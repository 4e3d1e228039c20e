import Mathlib.Data.Nat.ModEq
import FastRpc.LogReader
import FastRpc.LineCuts
import FastRpc.Iteration

/-! # Draining the log

When the process stops the log, `adspmsgd_stop` sets `threadStop` and waits until the reader has set it to
`-1`; the reader does so after its final loop, which calls `readMessage` until `readIndex` is
`currentIndex`.  A call passes one line: the NULs before it, its bytes and one byte more.  The loop asks
for the very index, so it ends only if a line ends there.

Here the DSP writes nothing any more, and the tests of the loops of `LogReader.lean` follow each other.
`drain_ends_iff` says when the loop ends, by the bytes of the buffer alone: `LineCuts.lean` tells where
lines end. -/

namespace FastRpc.LogDrain

open ByteStore CyclicBuffer LogReader LineCuts Iteration

/-! ### The loop -/

/-- The reader in its final loop, and `threadStop`. -/
structure Reader where
  log : Log
  threadStop : ℤ

/-- One test of the loop or of `readMessage`; the loop ends when the indices agree. -/
def drainStep (r : Reader) : Reader :=
  match r.log.phase with
  | .idle =>
      if r.log.currentIndex = r.log.readIndex then { r with threadStop := -1 }
      else { r with log := r.log.beginRead }
  | .skipping lreadIndex => { r with log := r.log.skipStep lreadIndex }
  | .copying lreadIndex message => { r with log := r.log.copyStep lreadIndex message }

/-- The reader after `n` tests; `adspmsgd_stop` has set `threadStop` to `1`. -/
def drained (s : Log) (n : ℕ) : Reader := drainStep^[n] ⟨s, 1⟩

/-- The wait of `adspmsgd_stop` ends. -/
def StopReturns (s : Log) : Prop := ∃ n, (drained s n).threadStop = -1

/-! ### The condition -/

/-- Where `readMessage` starts to read. -/
def firstIndex (s : Log) : ℕ := if s.bufferSize ≤ s.readIndex then 0 else s.readIndex

/-- A NUL, counted from where `readMessage` starts, around the buffer. -/
def IsNul (s : Log) (n : ℕ) : Prop := s.headPtr ((firstIndex s + n) % s.bufferSize) = 0

instance (s : Log) : DecidablePred (IsNul s) := fun _ => inferInstanceAs (Decidable (_ = _))

/-- The bytes from `readIndex` up to `currentIndex`. -/
def unreadLength (s : Log) : ℕ := (s.currentIndex + s.bufferSize - firstIndex s) % s.bufferSize

/-- Lines end at `currentIndex`: in the bytes up to it or, unless it stands between two NULs, in these
with some rounds of the buffer behind them.  For the index `0` the loop needs a NUL there. -/
def EndsAtLine (s : Log) : Prop :=
  s.readIndex = s.currentIndex ∨
    (s.currentIndex = 0 → s.headPtr 0 = 0) ∧
      ∃ rounds, Cut (IsNul s) messageSize (unreadLength s + rounds * s.bufferSize) ∧
        (rounds = 0 ∨ s.headPtr s.currentIndex ≠ 0 ∨
          s.headPtr ((s.currentIndex + s.bufferSize - 1) % s.bufferSize) ≠ 0)

/-! ### One call -/

/-- The reader in its loop. -/
def Waited (r : Reader) : Prop := r.threadStop = 1

/-- The reader at a place of `readMessage`. -/
def inPhase (s : Log) (phase : Phase) : Reader := ⟨{ s with phase := phase }, 1⟩

section Call

variable {s : Log} {x a k : ℕ}

/-- The first loop skips the NULs up to `currentIndex`. -/
theorem skip_runs (hpos : 0 < s.bufferSize)
    (hskip : ∀ i < a, (x + i) % s.bufferSize ≠ s.currentIndex ∧ s.headPtr ((x + i) % s.bufferSize) = 0)
    (hstop : (x + a) % s.bufferSize = s.currentIndex ∨ s.headPtr ((x + a) % s.bufferSize) ≠ 0) :
    Runs drainStep Waited (inPhase s (.skipping (x % s.bufferSize)))
      (inPhase s (.copying ((x + a) % s.bufferSize) [])) := by
  induction a generalizing x with
  | zero =>
      have hstep : drainStep (inPhase s (.skipping (x % s.bufferSize))) =
          inPhase s (.copying (x % s.bufferSize) []) := by
        rw [Nat.add_zero] at hstop
        have htest : ¬ (x % s.bufferSize ≠ s.currentIndex ∧ s.headPtr (x % s.bufferSize) = 0) := by
          tauto
        simp [drainStep, inPhase, Log.skipStep, htest]
      rw [Nat.add_zero, ← hstep]
      exact Runs.one rfl
  | succ a ih =>
      have hstep : drainStep (inPhase s (.skipping (x % s.bufferSize))) =
          inPhase s (.skipping ((x + 1) % s.bufferSize)) := by
        have htest := hskip 0 (Nat.succ_pos a)
        rw [Nat.add_zero] at htest
        simp [drainStep, inPhase, Log.skipStep, htest, next_mod hpos]
      have hshift : ∀ i, x + 1 + i = x + (i + 1) := fun i => by omega
      have hrest := ih (x := x + 1) (fun i hi => by rw [hshift]; exact hskip (i + 1) (by omega))
        (by rw [hshift]; exact hstop)
      rw [hshift] at hrest
      exact Runs.step rfl (hstep ▸ hrest)

/-- The phase is set at the end of a call. -/
theorem endRead_phase (s : Log) (phase : Phase) (lreadIndex : ℕ) (message : List UInt8) :
    ({ s with phase := phase } : Log).endRead lreadIndex message = s.endRead lreadIndex message := rfl

/-- The second loop copies up to the next NUL, or until the line is full. -/
theorem copy_runs (hpos : 0 < s.bufferSize) {message : List UInt8} (hroom : message.length < messageSize)
    (hbytes : ∀ i < k, s.headPtr ((x + i) % s.bufferSize) ≠ 0) (hfits : message.length + k ≤ messageSize)
    (hend : message.length + k = messageSize ∨ s.headPtr ((x + k) % s.bufferSize) = 0) :
    ∃ line, line.length = message.length + k ∧
      Runs drainStep Waited (inPhase s (.copying (x % s.bufferSize) message))
        ⟨s.endRead ((x + k) % s.bufferSize) line, 1⟩ := by
  induction k generalizing x message with
  | zero =>
      have hnul : s.headPtr (x % s.bufferSize) = 0 := hend.resolve_left (Nat.ne_of_lt hroom)
      have hstep : drainStep (inPhase s (.copying (x % s.bufferSize) message)) =
          ⟨s.endRead (x % s.bufferSize) message, 1⟩ := by
        simp [drainStep, inPhase, Log.copyStep, hnul, endRead_phase]
      refine ⟨message, rfl, ?_⟩
      rw [Nat.add_zero, ← hstep]
      exact Runs.one rfl
  | succ k ih =>
      have hbyte : s.headPtr (x % s.bufferSize) ≠ 0 := hbytes 0 (Nat.succ_pos k)
      have hlength : (message ++ [s.headPtr (x % s.bufferSize)]).length = message.length + 1 :=
        List.length_append
      rcases Nat.lt_or_ge (message.length + 1) messageSize with hmore | hfull
      · have hstep : drainStep (inPhase s (.copying (x % s.bufferSize) message)) =
            inPhase s (.copying ((x + 1) % s.bufferSize) (message ++ [s.headPtr (x % s.bufferSize)])) := by
          simp [drainStep, inPhase, Log.copyStep, hbyte, next_mod hpos, Nat.not_le.mpr hmore]
        have hshift : ∀ i, x + 1 + i = x + (i + 1) := fun i => by omega
        have hroom' : (message ++ [s.headPtr (x % s.bufferSize)]).length < messageSize := hlength ▸ hmore
        obtain ⟨line, hline, hruns⟩ := ih (x := x + 1) hroom'
          (fun i hi => by rw [hshift]; exact hbytes (i + 1) (by omega))
          (by rw [hlength]; omega)
          (by rw [hlength, hshift, Nat.add_assoc, Nat.add_comm 1]; exact hend)
        rw [hshift] at hruns
        exact ⟨line, by rw [hline, hlength]; omega, Runs.step rfl (hstep ▸ hruns)⟩
      · -- the byte fills the line
        obtain rfl : k = 0 := by omega
        have hstep : drainStep (inPhase s (.copying (x % s.bufferSize) message)) =
            ⟨s.endRead ((x + 1) % s.bufferSize) (message ++ [s.headPtr (x % s.bufferSize)]), 1⟩ := by
          simp [drainStep, inPhase, Log.copyStep, hbyte, next_mod hpos, hfull, endRead_phase]
        refine ⟨_, hlength, ?_⟩
        rw [← hstep]
        exact Runs.one rfl

end Call

/-- A call of `readMessage` from `s` on: it skips `a` NULs and copies `k` bytes. -/
structure Call (s : Log) (a k : ℕ) : Prop where
  skipped : ∀ i < a, (firstIndex s + i) % s.bufferSize ≠ s.currentIndex ∧ IsNul s i
  stops : (firstIndex s + a) % s.bufferSize = s.currentIndex ∨ ¬ IsNul s a
  bytes : ∀ i < k, ¬ IsNul s (a + i)
  fits : k ≤ messageSize
  ends : k = messageSize ∨ IsNul s (a + k)

theorem Call.le {s : Log} {a k a' k' : ℕ} (h : Call s a k) (h' : Call s a' k') : a ≤ a' := by
  by_contra hlt
  obtain ⟨hcurrent, hnul⟩ := h.skipped a' (Nat.lt_of_not_le hlt)
  exact h'.stops.elim hcurrent (absurd hnul)

/-- A call that finds no message. -/
theorem Call.nothing {s : Log} {a k : ℕ} (h : Call s a 0) (h' : Call s a k) : k = 0 := by
  rcases Nat.eq_zero_or_pos k with hzero | hpos
  · exact hzero
  · exact absurd (h.ends.resolve_left (by decide)) (h'.bytes 0 hpos)

/-- The loop ends when it is asked at the index. -/
theorem ends_here {t : Reader} (hidle : t.log.phase = .idle)
    (heq : t.log.currentIndex = t.log.readIndex) : ∃ n, (drainStep^[n] t).threadStop = -1 :=
  ⟨1, by simp [drainStep, hidle, heq]⟩

section Calls

variable {s : Log} {a k : ℕ} (hpos : 0 < s.bufferSize)
include hpos

theorem firstIndex_lt : firstIndex s < s.bufferSize := by
  unfold firstIndex
  split_ifs with hend
  · exact hpos
  · exact Nat.lt_of_not_le hend

/-- Some number of NULs is skipped, and some number of bytes is copied. -/
theorem exists_call (hcurrent : s.currentIndex < s.bufferSize) : ∃ a k, Call s a k := by
  have hstop : ∃ a, (firstIndex s + a) % s.bufferSize = s.currentIndex ∨ ¬ IsNul s a := by
    refine ⟨s.currentIndex + s.bufferSize - firstIndex s, .inl ?_⟩
    have hfirst := firstIndex_lt hpos
    rw [Nat.add_sub_cancel' (by omega), Nat.add_mod_right, Nat.mod_eq_of_lt hcurrent]
  have hend : ∃ k, k = messageSize ∨ IsNul s (Nat.find hstop + k) := ⟨messageSize, .inl rfl⟩
  refine ⟨Nat.find hstop, Nat.find hend, ?_, Nat.find_spec hstop, ?_, ?_, Nat.find_spec hend⟩
  · intro i hi
    simpa using Nat.find_min hstop hi
  · intro i hi hnul
    exact Nat.find_min hend hi (.inr hnul)
  · exact Nat.find_min' hend (.inl rfl)

/-- **One call**: a message is passed with the byte behind it; without one the index stays. -/
theorem call_runs {t : Reader} (hwait : t.threadStop = 1) (ht : t.log = s) (hidle : s.phase = .idle)
    (hne : s.currentIndex ≠ s.readIndex) (h : Call s a k) :
    ∃ line, line.length = k ∧ Runs drainStep Waited t
      ⟨({ s with readIndex := firstIndex s } : Log).endRead
        ((firstIndex s + a + k) % s.bufferSize) line, 1⟩ := by
  have hfirst : firstIndex s % s.bufferSize = firstIndex s := Nat.mod_eq_of_lt (firstIndex_lt hpos)
  have hskip := skip_runs (s := { s with readIndex := firstIndex s }) (x := firstIndex s) hpos h.skipped
    h.stops
  have hroom : ([] : List UInt8).length < messageSize := by decide
  obtain ⟨line, hline, hcopy⟩ := copy_runs (s := { s with readIndex := firstIndex s })
    (x := firstIndex s + a) hpos hroom
    (fun i hi => by rw [Nat.add_assoc]; exact h.bytes i hi) (by simpa using h.fits)
    (by rw [Nat.add_assoc, List.length_nil, Nat.zero_add]; exact h.ends)
  have hbegin : drainStep t =
      inPhase { s with readIndex := firstIndex s } (.skipping (firstIndex s % s.bufferSize)) := by
    rw [hfirst]
    obtain ⟨log, threadStop⟩ := t
    obtain rfl : log = s := ht
    obtain rfl : threadStop = 1 := hwait
    simp [drainStep, hidle, hne, inPhase, Log.beginRead, firstIndex]
  refine ⟨line, by simpa using hline, Runs.step hwait ?_⟩
  rw [hbegin]
  exact hskip.trans hcopy

/-- A call without a message stays where it is. -/
theorem call_stays {t : Reader} (hwait : t.threadStop = 1) (ht : t.log = s) (hidle : s.phase = .idle)
    (hne : s.currentIndex ≠ s.readIndex) (h : Call s a 0) :
    Runs drainStep Waited t ⟨{ s with readIndex := firstIndex s, phase := .idle }, 1⟩ := by
  obtain ⟨line, hline, hruns⟩ := call_runs hpos hwait ht hidle hne h
  rwa [List.length_eq_zero_iff.mp hline, Log.endRead, if_pos rfl] at hruns

/-- The next call does the same. -/
theorem Call.again (h : Call s a k) : Call { s with readIndex := firstIndex s, phase := .idle } a k := by
  have hfirst : firstIndex { s with readIndex := firstIndex s, phase := .idle } = firstIndex s :=
    if_neg (Nat.not_le.mpr (firstIndex_lt hpos))
  have hnul : ∀ i, IsNul { s with readIndex := firstIndex s, phase := .idle } i ↔ IsNul s i := by
    intro i
    unfold IsNul
    rw [hfirst]
  refine ⟨fun i hi => ?_, ?_, fun i hi => ?_, h.fits, ?_⟩
  · rw [hfirst, hnul]
    exact h.skipped i hi
  · rw [hfirst, hnul]
    exact h.stops
  · rw [hnul]
    exact h.bytes i hi
  · rw [hnul]
    exact h.ends

end Calls

/-! ### The walk -/

/-- The index behind the first `n` bytes that are passed. -/
def readIndexAt (s : Log) (n : ℕ) : ℕ :=
  if n = 0 then s.readIndex else (firstIndex s + n - 1) % s.bufferSize + 1

/-- Between two calls, `n` bytes behind the first one of the loop; the DSP has written nothing. -/
structure Arrived (s : Log) (t : Reader) (n : ℕ) : Prop where
  waiting : t.threadStop = 1
  idle : t.log.phase = .idle
  size : t.log.bufferSize = s.bufferSize
  bytes : t.log.headPtr = s.headPtr
  current : t.log.currentIndex = s.currentIndex
  readIndex : t.log.readIndex = readIndexAt s n
  cut : Cut (IsNul s) messageSize n

theorem arrived_start {s : Log} (hidle : s.phase = .idle) : Arrived s ⟨s, 1⟩ 0 :=
  ⟨rfl, hidle, rfl, rfl, rfl, rfl, trivial⟩

section Walk

variable {s : Log} {t : Reader} {n a k : ℕ} (hpos : 0 < s.bufferSize)

theorem Arrived.size_pos (hpos : 0 < s.bufferSize) (h : Arrived s t n) : 0 < t.log.bufferSize :=
  h.size.symm ▸ hpos

include hpos

theorem firstIndex_of_arrived (h : Arrived s t n) :
    firstIndex t.log = (firstIndex s + n) % s.bufferSize := by
  unfold firstIndex at ⊢
  rw [h.size, h.readIndex]
  cases n with
  | zero => exact (Nat.mod_eq_of_lt (firstIndex_lt hpos)).symm
  | succ n =>
      have hnext := next_mod hpos (firstIndex s + n)
      rw [CyclicBuffer.next] at hnext
      exact hnext

/-- The bytes that a later call reads. -/
theorem isNul_of_arrived (h : Arrived s t n) (i : ℕ) : IsNul t.log i ↔ IsNul s (n + i) := by
  unfold IsNul
  rw [firstIndex_of_arrived hpos h, h.size, h.bytes, Nat.mod_add_mod, Nat.add_assoc]

/-- A call with a message is a line. -/
theorem Call.line (h : Arrived s t n) (hcall : Call t.log a k) (hk : 0 < k) :
    Line (IsNul s) messageSize n a k where
  skipped i hi := (isNul_of_arrived hpos h i).mp (hcall.skipped i hi).2
  bytes i hi := by
    rw [Nat.add_assoc, ← isNul_of_arrived hpos h]
    exact hcall.bytes i hi
  nonempty := hk
  fits := hcall.fits
  ends := by
    rw [Nat.add_assoc, ← isNul_of_arrived hpos h]
    exact hcall.ends

/-- **A call with a message** leads to the end of its line. -/
theorem Arrived.next (h : Arrived s t n) (hne : t.log.currentIndex ≠ t.log.readIndex)
    (hcall : Call t.log a k) (hk : 0 < k) :
    ∃ t', Arrived s t' (n + a + k + 1) ∧ Runs drainStep Waited t t' := by
  obtain ⟨line, hline, hruns⟩ := call_runs (h.size_pos hpos) h.waiting rfl h.idle hne hcall
  have hmessage : line ≠ [] := List.ne_nil_of_length_pos (hline ▸ hk)
  have hend : (firstIndex t.log + a + k) % t.log.bufferSize =
      (firstIndex s + (n + a + k)) % s.bufferSize := by
    rw [firstIndex_of_arrived hpos h, h.size, Nat.add_assoc, Nat.mod_add_mod]
    congr 1
    omega
  refine ⟨_, ⟨rfl, ?_, ?_, ?_, ?_, ?_, (hcall.line hpos h hk).cut h.cut⟩, hruns⟩ <;>
    rw [Log.endRead, if_neg hmessage]
  · exact h.size
  · exact h.bytes
  · exact h.current
  · exact congrArg (· + 1) hend

/-- The loop ends at a line that ends at the index; for the index `0` the next call has to find
nothing. -/
theorem Arrived.ends (h : Arrived s t n) (hcurrent : s.currentIndex < s.bufferSize)
    (hhere : (firstIndex s + n) % s.bufferSize = s.currentIndex)
    (hzero : s.currentIndex = 0 → s.headPtr 0 = 0) : ∃ n, (drainStep^[n] t).threadStop = -1 := by
  have hfirst : firstIndex t.log = t.log.currentIndex := by
    rw [firstIndex_of_arrived hpos h, hhere, h.current]
  by_cases heq : t.log.currentIndex = t.log.readIndex
  · exact ends_here h.idle heq
  · -- the index is behind the last byte, and the call sets it to the first one
    have hnul : IsNul t.log 0 := by
      have hfirst0 : firstIndex t.log = 0 := by
        unfold firstIndex at hfirst ⊢
        split_ifs at hfirst ⊢ with hend
        · rfl
        · exact absurd hfirst.symm heq
      have hcurrent0 : s.currentIndex = 0 := by rw [← h.current, ← hfirst, hfirst0]
      unfold IsNul
      rw [hfirst0, h.bytes, Nat.zero_mod]
      exact hzero hcurrent0
    have hstop : (firstIndex t.log + 0) % t.log.bufferSize = t.log.currentIndex := by
      rw [hfirst, Nat.add_zero, h.current, h.size]
      exact Nat.mod_eq_of_lt hcurrent
    have hcall : Call t.log 0 0 :=
      ⟨fun _ hi => absurd hi (Nat.not_lt_zero _), .inl hstop, fun _ hi => absurd hi (Nat.not_lt_zero _),
        Nat.zero_le _, .inr hnul⟩
    exact (call_stays (h.size_pos hpos) h.waiting rfl h.idle heq hcall).reaches
      (R := fun r => r.threadStop = -1) (ends_here rfl hfirst.symm)

end Walk

/-! ### The index -/

section Target

variable {s : Log} {t : Reader} {n a k : ℕ} (hpos : 0 < s.bufferSize)
  (hcurrent : s.currentIndex < s.bufferSize)
include hpos hcurrent

/-- The index is met once in every round. -/
theorem here_iff : (firstIndex s + n) % s.bufferSize = s.currentIndex ↔
    ∃ rounds, n = unreadLength s + rounds * s.bufferSize := by
  have hfirst := firstIndex_lt hpos
  have hunread : (firstIndex s + unreadLength s) % s.bufferSize = s.currentIndex := by
    unfold unreadLength
    rw [Nat.add_mod_mod, Nat.add_sub_cancel' (by omega), Nat.add_mod_right, Nat.mod_eq_of_lt hcurrent]
  constructor
  · intro hhere
    have hmod : n % s.bufferSize = unreadLength s := by
      have heq : n ≡ unreadLength s [MOD s.bufferSize] :=
        Nat.ModEq.add_left_cancel' (firstIndex s) (hhere.trans hunread.symm)
      exact heq.trans (Nat.mod_eq_of_lt (Nat.mod_lt _ hpos))
    exact ⟨n / s.bufferSize, by rw [← hmod, Nat.mul_comm, Nat.mod_add_div]⟩
  · rintro ⟨rounds, rfl⟩
    rw [← Nat.add_assoc, Nat.add_mul_mod_self_right, hunread]

omit hcurrent in
/-- The byte before the index. -/
theorem isNul_before (hhere : (firstIndex s + (n + 1)) % s.bufferSize = s.currentIndex) :
    IsNul s n ↔ s.headPtr ((s.currentIndex + s.bufferSize - 1) % s.bufferSize) = 0 := by
  have hbefore : (firstIndex s + n) % s.bufferSize =
      (s.currentIndex + s.bufferSize - 1) % s.bufferSize := by
    rw [← hhere, Nat.add_sub_assoc hpos, Nat.mod_add_mod,
      show firstIndex s + (n + 1) + (s.bufferSize - 1) = firstIndex s + n + s.bufferSize by omega,
      Nat.add_mod_right]
  unfold IsNul
  rw [hbefore]

omit hpos hcurrent in
theorem isNul_here (hhere : (firstIndex s + n) % s.bufferSize = s.currentIndex) :
    IsNul s n ↔ s.headPtr s.currentIndex = 0 := by
  unfold IsNul
  rw [hhere]

/-- The first time the index is met, it is by the bytes up to it. -/
theorem unreadLength_le (hhere : (firstIndex s + n) % s.bufferSize = s.currentIndex) :
    unreadLength s ≤ n := by
  obtain ⟨rounds, rfl⟩ := (here_iff hpos hcurrent).mp hhere
  exact Nat.le_add_right _ _

/-- **The walk to a line that ends at the index.** -/
theorem Arrived.reaches {target : ℕ} (h : Arrived s t n) (hle : n ≤ target)
    (hcut : Cut (IsNul s) messageSize target)
    (hhere : (firstIndex s + target) % s.bufferSize = s.currentIndex)
    (hzero : s.currentIndex = 0 → s.headPtr 0 = 0)
    (hbetween : target = unreadLength s ∨ s.headPtr s.currentIndex ≠ 0 ∨
      s.headPtr ((s.currentIndex + s.bufferSize - 1) % s.bufferSize) ≠ 0) :
    ∃ n, (drainStep^[n] t).threadStop = -1 := by
  induction hdistance : target - n using Nat.strongRecOn generalizing t n with
  | ind distance ih =>
      rcases hle.eq_or_lt with rfl | hlt
      · exact h.ends hpos hcurrent hhere hzero
      by_cases heq : t.log.currentIndex = t.log.readIndex
      · exact ends_here h.idle heq
      obtain ⟨a, k, hcall⟩ := exists_call (h.size_pos hpos) (by rw [h.current, h.size]; exact hcurrent)
      rcases Nat.eq_zero_or_pos k with rfl | hk
      · -- a call without a message: the index is there, or stands between two NULs
        have hnul : IsNul s (n + a) :=
          (isNul_of_arrived hpos h a).mp (hcall.ends.resolve_left (by decide))
        have hstop : (firstIndex s + (n + a)) % s.bufferSize = s.currentIndex := by
          have hstop := hcall.stops.resolve_right (fun hbyte => hbyte
            ((isNul_of_arrived hpos h a).mpr hnul))
          rwa [firstIndex_of_arrived hpos h, h.size, h.current, Nat.mod_add_mod, Nat.add_assoc] at hstop
        rcases Nat.eq_zero_or_pos a with rfl | ha
        · exact h.ends hpos hcurrent hstop hzero
        · have hskip : ∀ i < a, IsNul s (n + i) := fun i hi =>
            (isNul_of_arrived hpos h i).mp (hcall.skipped i hi).2
          obtain ⟨b, rfl⟩ := Nat.exists_eq_succ_of_ne_zero (Nat.ne_of_gt ha)
          have htarget : target = unreadLength s := by
            refine hbetween.resolve_right ?_
            rw [not_or, not_not, not_not]
            exact ⟨(isNul_here hstop).mp hnul,
              (isNul_before hpos hstop).mp (hskip b (Nat.lt_succ_self b))⟩
          have hreach : target ≤ n + (b + 1) := htarget ▸ unreadLength_le hpos hcurrent hstop
          obtain ⟨i, rfl⟩ := Nat.exists_eq_add_of_lt hlt
          exact absurd hcut (h.cut.not_cut_skip (a := i + 1)
            (fun j hj => hskip j (by omega)) (Nat.succ_pos i))
      · obtain ⟨t', ht', hruns⟩ := h.next hpos heq hcall hk
        have hnext : n + a + k + 1 ≤ target := by
          by_contra hinside
          exact (hcall.line hpos h hk).not_cut h.cut hlt (Nat.lt_of_not_le hinside) hcut
        exact hruns.reaches (R := fun r => r.threadStop = -1)
          (ih (target - (n + a + k + 1)) (by omega) ht' hnext rfl)

end Target

/-! ### The loop that goes on -/

/-- The calls find NULs only, and the index does not move. -/
structure Stuck (t : Reader) : Prop where
  waiting : t.threadStop = 1
  idle : t.log.phase = .idle
  differs : t.log.currentIndex ≠ t.log.readIndex
  finds_nothing : ∃ a, 0 < a ∧ Call t.log a 0

theorem Stuck.step {t : Reader} (hpos : 0 < t.log.bufferSize) (h : Stuck t) :
    ∃ t', (Stuck t' ∧ t'.log.bufferSize = t.log.bufferSize) ∧ Runs drainStep Waited t t' := by
  obtain ⟨a, ha, hcall⟩ := h.finds_nothing
  refine ⟨⟨{ t.log with readIndex := firstIndex t.log, phase := .idle }, 1⟩,
    ⟨⟨rfl, rfl, ?_, a, ha, hcall.again hpos⟩, rfl⟩,
    call_stays hpos h.waiting rfl h.idle h.differs hcall⟩
  intro heq
  refine (hcall.skipped 0 ha).1 ?_
  rw [Nat.add_zero, Nat.mod_eq_of_lt (firstIndex_lt hpos)]
  exact heq.symm

section Forever

variable {s : Log} {t : Reader} {n a k : ℕ} (hpos : 0 < s.bufferSize)
  (hcurrent : s.currentIndex < s.bufferSize)
include hpos hcurrent

/-- The index `0` is not met when a byte stands there: a call starts from there. -/
theorem first_byte_forever (hidle : s.phase = .idle) (hne : s.readIndex ≠ s.currentIndex)
    (hzero : s.currentIndex = 0) (hbyte : s.headPtr 0 ≠ 0) (n : ℕ) : Waited (drained s n) := by
  refine forever (Q := fun t => ∃ n, Arrived s t n) ?_ ⟨0, arrived_start hidle⟩ n
  rintro t ⟨n, h⟩
  have hdiffers : t.log.currentIndex ≠ t.log.readIndex := by
    rw [h.current, h.readIndex, hzero, readIndexAt]
    split_ifs with hn
    · exact hzero ▸ hne.symm
    · exact (Nat.succ_ne_zero _).symm
  obtain ⟨a, k, hcall⟩ := exists_call (h.size_pos hpos) (by rw [h.current, h.size]; exact hcurrent)
  have hk : 0 < k := by
    rw [Nat.pos_iff_ne_zero]
    rintro rfl
    have hnul : IsNul t.log a := hcall.ends.resolve_left (by decide)
    have hstop := hcall.stops.resolve_right (not_not.mpr hnul)
    unfold IsNul at hnul
    rw [hstop, h.current, h.bytes, hzero] at hnul
    exact hbyte hnul
  obtain ⟨t', ht', hruns⟩ := h.next hpos hdiffers hcall hk
  exact ⟨t', ⟨_, ht'⟩, hruns⟩

omit hcurrent in
theorem Arrived.skipped_ne (h : Arrived s t n) (hcall : Call t.log a k) {i : ℕ} (hi : i < a) :
    (firstIndex s + (n + i)) % s.bufferSize ≠ s.currentIndex := by
  have hne := (hcall.skipped i hi).1
  rwa [firstIndex_of_arrived hpos h, h.size, h.current, Nat.mod_add_mod, Nat.add_assoc] at hne

/-- No line passes an index between two NULs. -/
theorem line_not_passed (hline : Line (IsNul s) messageSize n a k)
    (hskip : ∀ i < a, (firstIndex s + (n + i)) % s.bufferSize ≠ s.currentIndex)
    (hle : n ≤ unreadLength s) (hnot : (firstIndex s + n) % s.bufferSize ≠ s.currentIndex)
    (hnul : s.headPtr s.currentIndex = 0)
    (hbefore : s.headPtr ((s.currentIndex + s.bufferSize - 1) % s.bufferSize) = 0) :
    n + a + k + 1 ≤ unreadLength s := by
  have hhere : (firstIndex s + unreadLength s) % s.bufferSize = s.currentIndex :=
    (here_iff hpos hcurrent).mpr ⟨0, by rw [Nat.zero_mul, Nat.add_zero]⟩
  have hk := hline.nonempty
  have hlt : n < unreadLength s := lt_of_le_of_ne hle (fun heq => hnot (heq ▸ hhere))
  obtain ⟨e, hunread⟩ := Nat.exists_eq_succ_of_ne_zero (Nat.ne_of_gt (Nat.zero_lt_of_lt hlt))
  rw [hunread] at hhere hlt ⊢
  have hlast : IsNul s (e + 1) := (isNul_here hhere).mpr hnul
  have hprevious : IsNul s e := (isNul_before hpos hhere).mpr hbefore
  by_contra hpast
  rcases Nat.lt_or_ge (e + 1) (n + a) with hinside | hbytes
  · obtain ⟨i, hi⟩ := Nat.exists_eq_add_of_lt hlt
    exact hskip (i + 1) (by omega) (by rw [show n + (i + 1) = e + 1 by omega]; exact hhere)
  · obtain ⟨i, hi⟩ := Nat.exists_eq_add_of_le hbytes
    rcases Nat.lt_or_ge i k with hbyte | hend
    · exact hline.bytes i hbyte (hi ▸ hlast)
    · refine hline.bytes (k - 1) (by omega) ?_
      rw [show n + a + (k - 1) = e by omega]
      exact hprevious

/-- **The index is not met** when no line ends there. -/
theorem never_met_forever (hidle : s.phase = .idle)
    (hnever : ∀ n, (firstIndex s + n) % s.bufferSize = s.currentIndex → Cut (IsNul s) messageSize n →
      ¬ (n = unreadLength s ∨ s.headPtr s.currentIndex ≠ 0 ∨
        s.headPtr ((s.currentIndex + s.bufferSize - 1) % s.bufferSize) ≠ 0)) (n : ℕ) :
    Waited (drained s n) := by
  have hmet : ∀ t n, Arrived s t n → (n ≤ unreadLength s ∨ s.headPtr s.currentIndex ≠ 0 ∨
      s.headPtr ((s.currentIndex + s.bufferSize - 1) % s.bufferSize) ≠ 0) →
      (firstIndex s + n) % s.bufferSize ≠ s.currentIndex := by
    intro t n h hbetween hhere
    refine hnever n hhere h.cut (hbetween.imp_left fun hle => ?_)
    exact Nat.le_antisymm hle (unreadLength_le hpos hcurrent hhere)
  refine forever (Q := fun t => (∃ n, Arrived s t n ∧ (n ≤ unreadLength s ∨
      s.headPtr s.currentIndex ≠ 0 ∨
      s.headPtr ((s.currentIndex + s.bufferSize - 1) % s.bufferSize) ≠ 0)) ∨
    Stuck t ∧ t.log.bufferSize = s.bufferSize) ?_
    (.inl ⟨0, arrived_start hidle, .inl (Nat.zero_le _)⟩) n
  rintro t (⟨n, h, hbetween⟩ | ⟨hstuck, hsize⟩)
  · have hnot := hmet t n h hbetween
    have hdiffers : t.log.currentIndex ≠ t.log.readIndex := by
      intro heq
      have hfirst : firstIndex t.log = t.log.readIndex := by
        refine if_neg (Nat.not_le.mpr ?_)
        rw [← heq, h.current, h.size]
        exact hcurrent
      exact hnot (by rw [← firstIndex_of_arrived hpos h, hfirst, ← heq, h.current])
    obtain ⟨a, k, hcall⟩ := exists_call (h.size_pos hpos) (by rw [h.current, h.size]; exact hcurrent)
    rcases Nat.eq_zero_or_pos k with rfl | hk
    · -- a call without a message, and so every later one
      have ha : 0 < a := by
        rw [Nat.pos_iff_ne_zero]
        rintro rfl
        have hnul : IsNul t.log 0 := hcall.ends.resolve_left (by decide)
        have hstop := hcall.stops.resolve_right (not_not.mpr hnul)
        rw [Nat.add_zero, firstIndex_of_arrived hpos h, h.size, h.current, Nat.mod_mod] at hstop
        exact hnot hstop
      have hstuck : Stuck t := ⟨h.waiting, h.idle, hdiffers, a, ha, hcall⟩
      obtain ⟨t', ⟨ht', hsize⟩, hruns⟩ := hstuck.step (h.size_pos hpos)
      exact ⟨t', .inr ⟨ht', hsize.trans h.size⟩, hruns⟩
    · obtain ⟨t', ht', hruns⟩ := h.next hpos hdiffers hcall hk
      refine ⟨t', .inl ⟨_, ht', ?_⟩, hruns⟩
      by_contra hfar
      rw [not_or, not_or, not_not, not_not] at hfar
      obtain ⟨hfar, hnul, hbefore⟩ := hfar
      have hle : n ≤ unreadLength s := hbetween.resolve_right (by tauto)
      exact hfar (line_not_passed hpos hcurrent (hcall.line hpos h hk)
        (fun i hi => h.skipped_ne hpos hcall hi) hle hnot hnul hbefore)
  · obtain ⟨t', ⟨ht', hsize'⟩, hruns⟩ := hstuck.step (hsize ▸ hpos)
    exact ⟨t', .inr ⟨ht', hsize'.trans hsize⟩, hruns⟩

end Forever

/-- **When the wait of `adspmsgd_stop` ends**: for every buffer and every index, the loop ends if and only
if a line ends there. -/
theorem drain_ends_iff (s : Log) (hidle : s.phase = .idle) (hcurrent : s.currentIndex < s.bufferSize) :
    StopReturns s ↔ EndsAtLine s := by
  have hpos : 0 < s.bufferSize := Nat.zero_lt_of_lt hcurrent
  constructor
  · rintro ⟨n, hend⟩
    by_contra hnot
    obtain ⟨hdiffers, hlines⟩ := not_or.mp hnot
    have hwaits : Waited (drained s n) := by
      by_cases hzero : s.currentIndex = 0 → s.headPtr 0 = 0
      · refine never_met_forever hpos hcurrent hidle (fun n hhere hcut hbetween => ?_) n
        obtain ⟨rounds, rfl⟩ := (here_iff hpos hcurrent).mp hhere
        refine hlines ⟨hzero, rounds, hcut, hbetween.imp_left fun hfirst => ?_⟩
        refine (Nat.mul_eq_zero.mp (?_ : rounds * s.bufferSize = 0)).resolve_right (Nat.ne_of_gt hpos)
        omega
      · obtain ⟨hzero, hbyte⟩ := Classical.not_imp.mp hzero
        exact first_byte_forever hpos hcurrent hidle hdiffers hzero hbyte n
    rw [Waited, hend] at hwaits
    exact absurd hwaits (by decide)
  · rintro (heq | ⟨hzero, rounds, hcut, hbetween⟩)
    · exact ends_here hidle heq.symm
    · refine (arrived_start hidle).reaches hpos hcurrent (Nat.zero_le _) hcut
        ((here_iff hpos hcurrent).mpr ⟨rounds, rfl⟩) hzero (hbetween.imp_left fun hfirst => ?_)
      rw [hfirst, Nat.zero_mul, Nat.add_zero]

/-- A string of one byte. -/
theorem drain_ends_iff_short :
    StopReturns { Log.start 4 (fun i => if i = 0 then 65 else 0) with currentIndex := 2 } :=
  (drain_ends_iff _ rfl (by decide)).mpr (.inr ⟨by decide, 0, by decide, .inl rfl⟩)

/-- A new buffer of `DEFAULT_MEMORY_SIZE` bytes less the index, and one string in it. -/
def oneString (length : ℕ) : Log :=
  { Log.start (256 * 1024 - 4) (fun i => if i < length then 65 else 0) with currentIndex := length + 1 }

theorem isNul_oneString {length n : ℕ} (h : n < 256 * 1024 - 4) :
    IsNul (oneString length) n ↔ length ≤ n := by
  have hhere : (firstIndex (oneString length) + n) % (256 * 1024 - 4) = n := by
    rw [show firstIndex (oneString length) = 0 from rfl, Nat.zero_add, Nat.mod_eq_of_lt h]
  change (if (firstIndex (oneString length) + n) % (256 * 1024 - 4) < length then (65 : UInt8) else 0) = 0 ↔ _
  rw [hhere, ite_eq_right_iff, ← Nat.not_lt]
  exact ⟨fun himp hlt => absurd (himp hlt) (by decide), fun hnot hlt => absurd hlt hnot⟩

/-- A string of 257 bytes: the first call passes all of them, and no line is left that ends behind the
NUL. -/
theorem long_string_never_drained : ¬ StopReturns (oneString 257) := by
  rintro ⟨n, hend⟩
  have hline : Line (IsNul (oneString 257)) messageSize 0 0 256 := by
    refine ⟨fun _ hi => absurd hi (Nat.not_lt_zero _), fun i hi => ?_, by decide, by decide, .inl rfl⟩
    rw [isNul_oneString (by omega)]
    omega
  have hstart : Cut (IsNul (oneString 257)) messageSize 0 := trivial
  have hcut : Cut (IsNul (oneString 257)) messageSize 257 := hline.cut hstart
  have hskip : ∀ i < 1, IsNul (oneString 257) (257 + i) := fun i hi => by
    rw [isNul_oneString (by omega)]
    omega
  have hwaits : Waited (drained (oneString 257) n) := by
    refine never_met_forever (by decide) (by decide) rfl (fun target _ htarget hbetween => ?_) n
    obtain rfl : target = 258 := hbetween.resolve_right (by decide)
    exact hcut.not_cut_skip hskip Nat.one_pos htarget
  rw [Waited, hend] at hwaits
  exact absurd hwaits (by decide)

end FastRpc.LogDrain
