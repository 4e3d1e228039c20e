import FastRpc.ResponseWait

/-! # No wakeup is lost on the response queue

The invariant says of every thread that waits, or is about to, with the count `c` (`Covered`): if
there is an unread packet, it will be counted past `c`, and a signal for it is pending unless it
has been counted already.  A thread establishes this when it finds the ring empty, and keeps it
because the writer counts a packet after publishing it and signals after counting it, and because
the reader has announced itself before its last look at the ring.

The receive thread wakes the waiters when the counters differ as `uint32_t`.  A waiter whose
snapshot is `2 ^ 32` packets old at that moment is not woken, and with `2 ^ 32` waiters `wait_count` is `0`
(`wakeup_lost_after_wraparound`); in every other run no wakeup is lost (`no_lost_wakeup`). -/

namespace FastRpc.ResponseWait

open Transition

variable {ι : Type} {cfg : Config} {s t : State ι} {i : ι}

/-- Numbers that are close and agree as `uint32_t` are equal. -/
theorem sameU32_eq {a b : ℕ} (h : sameU32 a b) (hle : a ≤ b) (hlt : b < a + 2 ^ 32) : a = b := by
  unfold sameU32 at h
  omega

/-- For a thread that waits with the count `c`: an unread packet will be counted past `c`, and a
signal for it is pending unless it has been counted for the waiters. -/
def Covered (s : State ι) (c : ℕ) : Prop :=
  0 < s.avail → (s.writer = .published ∨ c < s.sharedPacketCount) ∧
    (SignalPending s ∨ c < s.respPacketCount)

/-- What holds of a thread at each place: it owns the mutex, or it waits and is covered. -/
def ThreadOk (cfg : Config) (s : State ι) (i : ι) : ReaderPc → Prop
  | .out => True
  | .first | .announce | .second | .again | .leave _ => s.mutex = some i
  | .enter => s.mutex = some i ∧ Covered s s.respPacketCount
  | .driverWait =>
      s.mutex = some i ∧ cfg.haveDriverSignaling = true ∧ Covered s s.respPacketCount
  | .asleep _ c | .woken _ c =>
      cfg.haveDriverSignaling = false ∧ c ≤ s.respPacketCount ∧
        s.respPacketCount < c + 2 ^ 32 ∧ Covered s c

/-- The invariant of every run. -/
structure Inv [Fintype ι] (cfg : Config) (s : State ι) : Prop where
  counts : s.respPacketCount ≤ s.sharedPacketCount
  threads : ∀ i, ThreadOk cfg s i (s.pc i)
  waiters : cfg.haveWaitCounts = true → s.waitCount = Threads.count ReaderPc.announced s.pc
  driver : cfg.haveDriverSignaling = true → s.receiving = false

theorem covered_of_empty (h : s.avail = 0) (c : ℕ) : Covered s c := fun hpos => by omega

/-- A change that keeps the mutex, the count and the covers keeps every thread. -/
theorem ThreadOk.mono {pc : ReaderPc} (h : ThreadOk cfg s i pc) (hm : t.mutex = s.mutex)
    (hc : t.respPacketCount = s.respPacketCount)
    (hcov : ∀ c, c ≤ s.respPacketCount → Covered s c → Covered t c) : ThreadOk cfg t i pc := by
  cases pc with
  | out => trivial
  | enter => exact ⟨hm.trans h.1, hc ▸ hcov _ (le_refl _) h.2⟩
  | driverWait => exact ⟨hm.trans h.1, h.2.1, hc ▸ hcov _ (le_refl _) h.2.2⟩
  | asleep timed c => exact ⟨h.1, hc ▸ h.2.1, hc ▸ h.2.2.1, hcov c h.2.1 h.2.2.2⟩
  | woken timed c => exact ⟨h.1, hc ▸ h.2.1, hc ▸ h.2.2.1, hcov c h.2.1 h.2.2.2⟩
  | first => exact hm.trans h
  | announce => exact hm.trans h
  | second => exact hm.trans h
  | again => exact hm.trans h
  | leave waiting => exact hm.trans h

/-- A thread that does not own the mutex does not care who does. -/
theorem ThreadOk.other {pc : ReaderPc} (h : ThreadOk cfg s i pc) (hm : s.mutex ≠ some i)
    (hc : t.respPacketCount = s.respPacketCount)
    (hcov : ∀ c, c ≤ s.respPacketCount → Covered s c → Covered t c) : ThreadOk cfg t i pc := by
  cases pc with
  | out => trivial
  | enter => exact absurd h.1 hm
  | driverWait => exact absurd h.1 hm
  | asleep timed c => exact ⟨h.1, hc ▸ h.2.1, hc ▸ h.2.2.1, hcov c h.2.1 h.2.2.2⟩
  | woken timed c => exact ⟨h.1, hc ▸ h.2.1, hc ▸ h.2.2.1, hcov c h.2.1 h.2.2.2⟩
  | first => exact absurd h hm
  | announce => exact absurd h hm
  | second => exact absurd h hm
  | again => exact absurd h hm
  | leave waiting => exact absurd h hm

/-- With driver signalling all threads but the owner of the mutex are outside. -/
theorem ThreadOk.out_of_driver {pc : ReaderPc} (h : ThreadOk cfg s i pc)
    (hd : cfg.haveDriverSignaling = true) (hm : s.mutex ≠ some i) : pc = .out := by
  cases pc with
  | out => rfl
  | enter => exact absurd h.1 hm
  | driverWait => exact absurd h.1 hm
  | asleep timed c => exact absurd (hd.symm.trans h.1) (by decide)
  | woken timed c => exact absurd (hd.symm.trans h.1) (by decide)
  | first => exact absurd h hm
  | announce => exact absurd h hm
  | second => exact absurd h hm
  | again => exact absurd h hm
  | leave waiting => exact absurd h hm

/-- When nobody owns the mutex, a thread is outside or in its wait. -/
theorem ThreadOk.of_free {pc : ReaderPc} (h : ThreadOk cfg s i pc) (hm : s.mutex = none) :
    pc = .out ∨ ∃ timed c, (pc = .asleep timed c ∨ pc = .woken timed c) := by
  have hne : ∀ {p : Prop}, s.mutex = some i → p := fun heq => by rw [hm] at heq; cases heq
  cases pc with
  | out => exact .inl rfl
  | asleep timed c => exact .inr ⟨timed, c, .inl rfl⟩
  | woken timed c => exact .inr ⟨timed, c, .inr rfl⟩
  | enter => exact hne h.1
  | driverWait => exact hne h.1
  | first => exact hne h
  | announce => exact hne h
  | second => exact hne h
  | again => exact hne h
  | leave waiting => exact hne h

/-- A packet that the writer has counted already is counted past `c`. -/
theorem Covered.counted {c : ℕ} (h : Covered s c) (hpos : 0 < s.avail)
    (hw : s.writer ≠ .published) : c < s.sharedPacketCount := by
  rcases (h hpos).1 with hp | hc
  · exact absurd hp hw
  · exact hc

/-- What a step of reader `i` leaves alone: the writer, the counters and the signals; packets are
only taken. -/
structure ReaderFrame (s t : State ι) : Prop where
  avail : t.avail ≤ s.avail
  writer : t.writer = s.writer
  shared : t.sharedPacketCount = s.sharedPacketCount
  resp : t.respPacketCount = s.respPacketCount
  signals : t.signals = s.signals
  receiving : t.receiving = s.receiving

theorem ReaderFrame.covered (h : ReaderFrame s t) {c : ℕ} (hc : Covered s c) : Covered t c := by
  intro hpos
  have := hc (lt_of_lt_of_le hpos h.avail)
  simpa only [SignalPending, h.writer, h.shared, h.resp, h.signals, h.receiving] using this

/-! ### Steps of the readers -/

variable [Fintype ι]

theorem inv_init : Inv cfg (init : State ι) := by
  refine ⟨le_refl 0, fun _ => trivial, fun _ => ?_, fun _ => rfl⟩
  simp [init, Threads.count, ReaderPc.announced]

theorem Inv.not_lost (h : Inv cfg s) : ¬ Lost s := by
  rintro ⟨hpos, hnone, i, hp | ⟨timed, c, hp, hsame⟩⟩
  · have hi := h.threads i
    rw [hp] at hi
    rcases (hi.2.2 hpos).2 with hsig | hlt
    · exact hnone hsig
    · exact lt_irrefl _ hlt
  · have hi := h.threads i
    rw [hp] at hi
    rcases (hi.2.2.2 hpos).2 with hsig | hlt
    · exact hnone hsig
    · exact absurd (sameU32_eq hsame hi.2.1 hi.2.2.1) (ne_of_lt hlt)

/-- A step that leaves the readers alone and keeps every cover. -/
theorem Inv.others (h : Inv cfg s) (hpc : t.pc = s.pc) (hm : t.mutex = s.mutex)
    (hw : t.waitCount = s.waitCount) (hc : t.respPacketCount = s.respPacketCount)
    (hs : s.sharedPacketCount ≤ t.sharedPacketCount)
    (hd : cfg.haveDriverSignaling = true → t.receiving = false)
    (hcov : ∀ c, c ≤ s.respPacketCount → Covered s c → Covered t c) : Inv cfg t := by
  refine ⟨by rw [hc]; exact h.counts.trans hs, fun i => ?_, fun hwc => ?_, hd⟩
  · rw [hpc]; exact (h.threads i).mono hm hc hcov
  · rw [hw, hpc]; exact h.waiters hwc

/-- A thread that calls `dspqueue_read_noblock` owns the mutex. -/
theorem Inv.owns_of_afterResult (h : Inv cfg s) {pc : ReaderPc}
    (hpc : afterResult cfg (s.pc i) = some pc) : s.mutex = some i := by
  have hi := h.threads i
  cases hp : s.pc i <;> simp only [hp, afterResult, reduceCtorEq] at hpc
  all_goals rw [hp] at hi; exact hi

variable [DecidableEq ι]

/-- **Steps of one reader.**  The reader owns the mutex, or takes it, or leaves it alone. -/
theorem Inv.reader {x : ReaderPc} (h : Inv cfg s) (hf : ReaderFrame s t)
    (hpc : t.pc = Function.update s.pc i x)
    (hm : s.mutex = none ∨ s.mutex = some i ∨ t.mutex = s.mutex) (hi : ThreadOk cfg t i x)
    (hw : cfg.haveWaitCounts = true → t.waitCount = Threads.count ReaderPc.announced t.pc) :
    Inv cfg t := by
  refine ⟨by rw [hf.resp, hf.shared]; exact h.counts, ?_, hw,
    fun hd => by rw [hf.receiving]; exact h.driver hd⟩
  rw [hpc]
  refine Threads.forall_update hi (fun j hj => ?_)
  have hcov : ∀ c, c ≤ s.respPacketCount → Covered s c → Covered t c := fun c _ => hf.covered
  rcases hm with hm | hm | hm
  · exact (h.threads j).other (by rw [hm]; exact Option.some_ne_none j |>.symm) hf.resp hcov
  · refine (h.threads j).other ?_ hf.resp hcov
    rw [hm]
    exact fun heq => hj (Option.some.inj heq).symm
  · exact (h.threads j).mono hm hf.resp hcov

/-- The number of waiters does not change. -/
theorem Inv.waiters_same {x : ReaderPc} (h : Inv cfg s) (hpc : t.pc = Function.update s.pc i x)
    (hw : t.waitCount = s.waitCount)
    (hx : cfg.haveWaitCounts = true → x.announced = (s.pc i).announced) :
    cfg.haveWaitCounts = true → t.waitCount = Threads.count ReaderPc.announced t.pc := fun hc => by
  rw [hw, hpc, Threads.count_update_same (hx hc)]
  exact h.waiters hc

theorem Inv.lock (h : Inv cfg s) (ht : step cfg s (.lock i) = some t) : Inv cfg t := by
  simp only [step] at ht
  split_ifs at ht with hc
  obtain rfl := Option.some.inj ht
  refine h.reader (x := .first) ⟨le_refl _, rfl, rfl, rfl, rfl, rfl⟩ rfl (.inl hc.2) rfl ?_
  exact h.waiters_same (x := .first) rfl rfl (fun _ => by rw [hc.1]; rfl)

theorem Inv.readEmpty (h : Inv cfg s) (ht : step cfg s (.readEmpty i) = some t) : Inv cfg t := by
  simp only [step] at ht
  split_ifs at ht with hempty
  obtain ⟨pc, hpc, rfl⟩ := Option.map_eq_some_iff.mp ht
  have hi := h.threads i
  have hf : ReaderFrame s (s.goto i pc) := ⟨le_refl _, rfl, rfl, rfl, rfl, rfl⟩
  have hcov : ∀ c, Covered (s.goto i pc) c := covered_of_empty hempty
  cases hp : s.pc i <;> simp only [hp, afterEmpty, reduceCtorEq, Option.some.injEq] at hpc
  case first =>
    rw [hp] at hi
    subst hpc
    cases hwc : cfg.haveWaitCounts with
    | true =>
        rw [hwc] at hf
        refine h.reader hf rfl (.inr (.inl hi)) hi (h.waiters_same rfl rfl fun _ => by rw [hp]; rfl)
    | false =>
        rw [hwc] at hf hcov
        exact h.reader hf rfl (.inr (.inl hi)) ⟨hi, hcov _⟩ (fun hw => by rw [hwc] at hw; cases hw)
  all_goals
    rw [hp] at hi
    subst hpc
    exact h.reader hf rfl (.inr (.inl hi)) ⟨hi, hcov _⟩
      (h.waiters_same rfl rfl fun _ => by rw [hp]; rfl)

/-- The announcement of a thread that ends its attempts to read. -/
theorem afterResult_announced {pc pc' : ReaderPc} (h : afterResult cfg pc = some pc')
    (hw : cfg.haveWaitCounts = true) : pc'.announced = pc.announced := by
  cases pc <;> simp only [afterResult, reduceCtorEq, Option.some.injEq] at h <;> subst h
  · rfl
  · rfl
  · exact hw

theorem afterResult_leave {pc pc' : ReaderPc} (h : afterResult cfg pc = some pc') :
    ∃ waiting, pc' = .leave waiting := by
  cases pc <;> simp only [afterResult, reduceCtorEq, Option.some.injEq] at h <;> subst h
  · exact ⟨false, rfl⟩
  · exact ⟨true, rfl⟩
  · exact ⟨_, rfl⟩

theorem Inv.readPacket (h : Inv cfg s) (ht : step cfg s (.readPacket i) = some t) : Inv cfg t := by
  simp only [step] at ht
  split_ifs at ht
  obtain ⟨pc, hpc, rfl⟩ := Option.map_eq_some_iff.mp ht
  have hown := h.owns_of_afterResult hpc
  have hann := afterResult_announced hpc
  obtain ⟨waiting, rfl⟩ := afterResult_leave hpc
  exact h.reader ⟨Nat.sub_le _ _, rfl, rfl, rfl, rfl, rfl⟩ rfl (.inr (.inl hown)) hown
    (h.waiters_same rfl rfl hann)

theorem Inv.readError (h : Inv cfg s) (ht : step cfg s (.readError i) = some t) : Inv cfg t := by
  obtain ⟨pc, hpc, rfl⟩ := Option.map_eq_some_iff.mp ht
  have hown := h.owns_of_afterResult hpc
  have hann := afterResult_announced hpc
  obtain ⟨waiting, rfl⟩ := afterResult_leave hpc
  exact h.reader ⟨le_refl _, rfl, rfl, rfl, rfl, rfl⟩ rfl (.inr (.inl hown)) hown
    (h.waiters_same rfl rfl hann)

theorem Inv.readWakeup (h : Inv cfg s) (ht : step cfg s (.readWakeup i) = some t) : Inv cfg t := by
  simp only [step] at ht
  split_ifs at ht
  obtain ⟨pc, hpc, rfl⟩ := Option.map_eq_some_iff.mp ht
  have hf : ReaderFrame s { s with avail := s.avail - 1 } :=
    ⟨Nat.sub_le _ _, rfl, rfl, rfl, rfl, rfl⟩
  exact ⟨h.counts, fun j => (h.threads j).mono rfl rfl (fun c _ => hf.covered), h.waiters, h.driver⟩

theorem Inv.announce (hcard : Fintype.card ι < 2 ^ 32) (h : Inv cfg s)
    (ht : step cfg s (.announce i) = some t) : Inv cfg t := by
  simp only [step] at ht
  split_ifs at ht with hp
  obtain rfl := Option.some.inj ht
  have hi : s.mutex = some i := by have := h.threads i; rw [hp] at this; exact this
  refine h.reader (x := .second) ⟨le_refl _, rfl, rfl, rfl, rfl, rfl⟩ rfl (.inr (.inl hi)) hi
    (fun hw => ?_)
  have hcount := Threads.count_update_enter s.pc (p := ReaderPc.announced) (i := i)
    (x := .second) (by rw [hp]; rfl) rfl
  have hle := Threads.count_le ReaderPc.announced (Function.update s.pc i .second)
  change addU32 s.waitCount 1 = Threads.count _ (Function.update s.pc i .second)
  rw [hcount, h.waiters hw, addU32_of_lt (by omega)]

theorem Inv.enterWait {timed : Bool} (h : Inv cfg s)
    (ht : step cfg s (.enterWait i timed) = some t) : Inv cfg t := by
  simp only [step] at ht
  split_ifs at ht with hp hd
  · obtain rfl := Option.some.inj ht
    have hi := h.threads i
    rw [hp] at hi
    have hf : ReaderFrame s (s.goto i .driverWait) := ⟨le_refl _, rfl, rfl, rfl, rfl, rfl⟩
    exact h.reader hf rfl (.inr (.inl hi.1)) ⟨hi.1, hd, hf.covered hi.2⟩
      (h.waiters_same rfl rfl fun _ => by rw [hp]; rfl)
  · have hwait : waitEnter timed s.respPacketCount false = none := by cases timed <;> simp
    rw [hwait] at ht
    obtain rfl := Option.some.inj ht
    have hi := h.threads i
    rw [hp] at hi
    have hf : ReaderFrame s { s.goto i (.asleep timed s.respPacketCount) with mutex := none } :=
      ⟨le_refl _, rfl, rfl, rfl, rfl, rfl⟩
    refine h.reader hf rfl (.inr (.inl hi.1)) ?_ (h.waiters_same rfl rfl fun _ => by rw [hp]; rfl)
    exact ⟨by simpa using hd, le_refl _, by simp only [State.goto]; omega, hf.covered hi.2⟩

theorem Inv.wake (h : Inv cfg s) (ht : step cfg s (.wake i) = some t) : Inv cfg t := by
  simp only [step] at ht
  split at ht
  · rename_i timed c hp
    obtain rfl := Option.some.inj ht
    have hi := h.threads i
    rw [hp] at hi
    have hf : ReaderFrame s (s.goto i (.woken timed c)) := ⟨le_refl _, rfl, rfl, rfl, rfl, rfl⟩
    exact h.reader hf rfl (.inr (.inr rfl)) ⟨hi.1, hi.2.1, hi.2.2.1, hf.covered hi.2.2.2⟩
      (h.waiters_same rfl rfl fun _ => by rw [hp]; rfl)
  · cases ht

theorem Inv.resume (h : Inv cfg s) (ht : step cfg s (.resume i) = some t) : Inv cfg t := by
  simp only [step] at ht
  split at ht
  · rename_i timed c hp hm
    have hi := h.threads i
    rw [hp] at hi
    split at ht
    · obtain rfl := Option.some.inj ht
      have hf : ReaderFrame s (s.goto i (.asleep timed c)) := ⟨le_refl _, rfl, rfl, rfl, rfl, rfl⟩
      exact h.reader hf rfl (.inr (.inr rfl)) ⟨hi.1, hi.2.1, hi.2.2.1, hf.covered hi.2.2.2⟩
        (h.waiters_same rfl rfl fun _ => by rw [hp]; rfl)
    · obtain rfl := Option.some.inj ht
      exact h.reader (x := .again) ⟨le_refl _, rfl, rfl, rfl, rfl, rfl⟩ rfl (.inl hm) rfl
        (h.waiters_same (x := .again) rfl rfl fun _ => by rw [hp]; rfl)
  · cases ht

theorem Inv.expire (h : Inv cfg s) (ht : step cfg s (.expire i) = some t) : Inv cfg t := by
  simp only [step] at ht
  split at ht
  · rename_i c hp hm
    obtain rfl := Option.some.inj ht
    exact h.reader (x := .leave cfg.haveWaitCounts) ⟨le_refl _, rfl, rfl, rfl, rfl, rfl⟩ rfl
      (.inl hm) rfl (h.waiters_same (x := .leave cfg.haveWaitCounts) rfl rfl fun hw => by
        rw [hp]; exact hw)
  · rename_i hp
    obtain rfl := Option.some.inj ht
    have hi := h.threads i
    rw [hp] at hi
    exact h.reader (x := .leave cfg.haveWaitCounts) ⟨le_refl _, rfl, rfl, rfl, rfl, rfl⟩ rfl
      (.inr (.inl hi.1)) hi.1 (h.waiters_same (x := .leave cfg.haveWaitCounts) rfl rfl fun hw => by
        rw [hp]; exact hw)
  · cases ht

theorem Inv.unlock (hcard : Fintype.card ι < 2 ^ 32) (h : Inv cfg s)
    (ht : step cfg s (.unlock i) = some t) : Inv cfg t := by
  simp only [step] at ht
  split at ht
  · rename_i waiting hp
    obtain rfl := Option.some.inj ht
    have hi : s.mutex = some i := by have := h.threads i; rw [hp] at this; exact this
    refine h.reader (x := .out) ⟨le_refl _, rfl, rfl, rfl, rfl, rfl⟩ rfl (.inr (.inl hi)) trivial
      (fun hw => ?_)
    change (if waiting then subU32 s.waitCount 1 else s.waitCount) =
      Threads.count _ (Function.update s.pc i .out)
    have hle := Threads.count_le ReaderPc.announced s.pc
    cases waiting with
    | true =>
        have hcount := Threads.count_update_leave s.pc (p := ReaderPc.announced) (i := i)
          (x := .out) (by rw [hp]; rfl) rfl
        rw [if_pos rfl, h.waiters hw, subU32_of_le (by omega) (by omega)]
        omega
    | false =>
        rw [if_neg Bool.false_ne_true, h.waiters hw, Threads.count_update_same (by rw [hp]; rfl)]
  · cases ht

/-- With driver signalling only the thread that waits takes the signal. -/
theorem Inv.driverWake (h : Inv cfg s) (ht : step cfg s (.driverWake i) = some t) : Inv cfg t := by
  simp only [step] at ht
  split_ifs at ht with hc
  obtain rfl := Option.some.inj ht
  have hi := h.threads i
  rw [hc.1] at hi
  refine ⟨h.counts, ?_, h.waiters_same (x := .again) rfl rfl (fun _ => by rw [hc.1]; rfl), h.driver⟩
  refine Threads.forall_update hi.1 (fun j hj => ?_)
  rw [(h.threads j).out_of_driver hi.2.1 (by rw [hi.1]; exact fun heq => hj (Option.some.inj heq).symm)]
  trivial

/-! ### Steps of the writer and of the receive thread -/

theorem Inv.publish (h : Inv cfg s) (ht : step cfg s .publish = some t) : Inv cfg t := by
  simp only [step] at ht
  split_ifs at ht
  obtain rfl := Option.some.inj ht
  exact h.others rfl rfl rfl rfl (le_refl _) h.driver
    (fun c _ _ _ => ⟨.inl rfl, .inl (.inl (by simp))⟩)

theorem Inv.countPacket (h : Inv cfg s) (ht : step cfg s .countPacket = some t) : Inv cfg t := by
  simp only [step] at ht
  split_ifs at ht
  obtain rfl := Option.some.inj ht
  refine h.others rfl rfl rfl rfl (Nat.le_succ _) h.driver
    (fun c hc _ _ => ⟨.inr ?_, .inl (.inl (by simp))⟩)
  exact Nat.lt_succ_of_le (hc.trans h.counts)

/-- The writer does not signal only when no thread has announced itself. -/
theorem Inv.testWaitCount (h : Inv cfg s) (ht : step cfg s .testWaitCount = some t) :
    Inv cfg t := by
  simp only [step] at ht
  split_ifs at ht with hwr hnone
  · obtain rfl := Option.some.inj ht
    refine ⟨h.counts, fun i => ?_, h.waiters, h.driver⟩
    have hann : (s.pc i).announced = false := by
      by_contra hne
      have hpos := Threads.count_pos s.pc (p := ReaderPc.announced) (i := i)
        (by simpa using hne)
      rw [← h.waiters hnone.1, hnone.2] at hpos
      exact absurd hpos (lt_irrefl 0)
    have hi := h.threads i
    change ThreadOk cfg _ i (s.pc i)
    cases hp : s.pc i <;> rw [hp] at hann hi <;> first | exact hi | cases hann
  · obtain rfl := Option.some.inj ht
    exact h.others rfl rfl rfl rfl (le_refl _) h.driver
      (fun c _ hcov hpos => ⟨.inr (hcov.counted hpos (by rw [hwr]; decide)), .inl (.inl (by simp))⟩)

theorem Inv.sendSignal (h : Inv cfg s) (ht : step cfg s .sendSignal = some t) : Inv cfg t := by
  simp only [step] at ht
  split_ifs at ht with hwr
  obtain rfl := Option.some.inj ht
  exact h.others rfl rfl rfl rfl (le_refl _) h.driver
    (fun c _ hcov hpos => ⟨.inr (hcov.counted hpos (by rw [hwr]; decide)),
      .inl (.inr (.inl (Nat.succ_pos _)))⟩)

theorem Inv.coalesce (h : Inv cfg s) (ht : step cfg s .coalesce = some t) : Inv cfg t := by
  simp only [step] at ht
  split_ifs at ht with h2
  obtain rfl := Option.some.inj ht
  exact h.others rfl rfl rfl rfl (le_refl _) h.driver
    (fun c _ hcov hpos => ⟨(hcov hpos).1, .inl (.inr (.inl (Nat.sub_pos_of_lt h2)))⟩)

theorem Inv.takeSignal (h : Inv cfg s) (ht : step cfg s .takeSignal = some t) : Inv cfg t := by
  simp only [step] at ht
  split_ifs at ht with hc
  obtain rfl := Option.some.inj ht
  exact h.others rfl rfl rfl rfl (le_refl _)
    (fun hd => absurd (hd.symm.trans hc.1) (by decide))
    (fun c _ hcov hpos => ⟨(hcov hpos).1, .inl (.inr (.inr rfl))⟩)

theorem Inv.receivePass (h : Inv cfg s) (hrecent : RecentSnapshots s .receivePass)
    (ht : step cfg s .receivePass = some t) : Inv cfg t := by
  simp only [step] at ht
  split_ifs at ht with hc
  obtain rfl := Option.some.inj ht
  obtain ⟨hrec, hfree⟩ := hc
  unfold State.receivePass
  split_ifs with hsame
  · -- the counters agree: a counted packet has been counted for the waiters
    refine ⟨h.counts, fun i => ?_, h.waiters, fun _ => rfl⟩
    have hcov : ∀ c, c ≤ s.respPacketCount → s.sharedPacketCount < c + 2 ^ 32 → Covered s c →
        Covered { s with receiving := false } c := by
      intro c hle hlt hcov hpos
      refine ⟨(hcov hpos).1, ?_⟩
      rcases (hcov hpos).1 with hp | hcs
      · exact .inl (.inl (by rw [hp]; decide))
      · rw [← sameU32_eq hsame h.counts (by omega)] at hcs
        exact .inr hcs
    have hi := h.threads i
    change ThreadOk cfg _ i (s.pc i)
    rcases hi.of_free hfree with hp | ⟨timed, c, hp | hp⟩
    · rw [hp]; trivial
    · rw [hp] at hi ⊢
      exact ⟨hi.1, hi.2.1, hi.2.2.1, hcov c hi.2.1 (hrecent i timed c (.inl hp)) hi.2.2.2⟩
    · rw [hp] at hi ⊢
      exact ⟨hi.1, hi.2.1, hi.2.2.1, hcov c hi.2.1 (hrecent i timed c (.inr hp)) hi.2.2.2⟩
  · -- the counters differ: all packets are counted now, and all waiters are woken
    set t : State ι := { s with receiving := false, respPacketCount := s.sharedPacketCount,
                                pc := fun i => (s.pc i).broadcast } with ht
    have hcov : ∀ c, Covered s c → Covered t c := by
      intro c hcov hpos
      refine ⟨(hcov hpos).1, ?_⟩
      rcases (hcov hpos).1 with hp | hcs
      · exact .inl (.inl (by rw [ht, hp]; decide))
      · exact .inr hcs
    refine ⟨le_refl _, fun i => ?_, fun hwc => ?_, fun _ => rfl⟩
    · have hi := h.threads i
      change ThreadOk cfg t i (s.pc i).broadcast
      rcases hi.of_free hfree with hp | ⟨timed, c, hp | hp⟩
      · rw [hp]; trivial
      · rw [hp] at hi ⊢
        exact ⟨hi.1, hi.2.1.trans h.counts, hrecent i timed c (.inl hp), hcov c hi.2.2.2⟩
      · rw [hp] at hi ⊢
        exact ⟨hi.1, hi.2.1.trans h.counts, hrecent i timed c (.inr hp), hcov c hi.2.2.2⟩
    · have hann : ∀ pc : ReaderPc, pc.broadcast.announced = pc.announced := fun pc => by
        cases pc <;> rfl
      rw [ht, Threads.count_map hann]
      exact h.waiters hwc

/-! ### Runs -/

theorem Inv.step (hcard : Fintype.card ι < 2 ^ 32) {e : Event ι} (h : Inv cfg s)
    (hrecent : RecentSnapshots s e) (ht : step cfg s e = some t) : Inv cfg t := by
  cases e with
  | publish => exact h.publish ht
  | countPacket => exact h.countPacket ht
  | testWaitCount => exact h.testWaitCount ht
  | sendSignal => exact h.sendSignal ht
  | coalesce => exact h.coalesce ht
  | takeSignal => exact h.takeSignal ht
  | receivePass => exact h.receivePass hrecent ht
  | lock i => exact h.lock ht
  | readEmpty i => exact h.readEmpty ht
  | readPacket i => exact h.readPacket ht
  | readWakeup i => exact h.readWakeup ht
  | readError i => exact h.readError ht
  | announce i => exact h.announce hcard ht
  | enterWait i timed => exact h.enterWait ht
  | wake i => exact h.wake ht
  | resume i => exact h.resume ht
  | driverWake i => exact h.driverWake ht
  | expire i => exact h.expire ht
  | unlock i => exact h.unlock hcard ht

/-- **No wakeup is lost**: with fewer than `2 ^ 32` threads, and when no snapshot of a waiter gets
`2 ^ 32` packets old, no reachable state has a reader that waits for a packet which is there while
no signal is pending and no new count is recorded. -/
theorem no_lost_wakeup (hcard : Fintype.card ι < 2 ^ 32) {es : List (Event ι)}
    (hrecent : Guarded (step cfg) RecentSnapshots init es)
    (h : run (step cfg) init es = some t) : ¬ Lost t :=
  (guarded_invariant (fun _ _ _ hs hr ht => Inv.step hcard hs hr ht) inv_init hrecent h).not_lost

/-- A reader falls asleep and the writer signals its packet. -/
theorem no_lost_wakeup_one_packet :
    ∃ t, run (step ⟨false, true⟩) (init : State (Fin 1))
        [.lock 0, .readEmpty 0, .announce 0, .readEmpty 0, .enterWait 0 false, .publish,
          .countPacket, .testWaitCount, .sendSignal, .takeSignal] = some t ∧ ¬ Lost t := by
  obtain ⟨t, h⟩ : ∃ t, run (step ⟨false, true⟩) (init : State (Fin 1))
      [.lock 0, .readEmpty 0, .announce 0, .readEmpty 0, .enterWait 0 false, .publish,
        .countPacket, .testWaitCount, .sendSignal, .takeSignal] = some t := ⟨_, rfl⟩
  refine ⟨t, h, no_lost_wakeup (by decide) ?_ h⟩
  iterate 10 refine ⟨trivial, fun _ _ => ?_⟩
  trivial

/-! ### Wraparound -/

section

variable {ι : Type} [DecidableEq ι] {s : State ι}

/-- A thread that finds no packet announces itself and falls asleep. -/
theorem run_sleep {i : ι} (hpc : s.pc i = .out) (hm : s.mutex = none) (ha : s.avail = 0) :
    run (step ⟨false, true⟩) s
        [.lock i, .readEmpty i, .announce i, .readEmpty i, .enterWait i false] =
      some { s with pc := Function.update s.pc i (.asleep false s.respPacketCount),
                    waitCount := addU32 s.waitCount 1 } := by
  simp [run, step, State.goto, afterEmpty, hpc, hm, ha]

/-- The writer counts and signals a packet, and thread `i` reads it. -/
theorem run_packet {i : ι} (hpc : s.pc i = .out) (hm : s.mutex = none) (ha : s.avail = 0)
    (hidle : s.writer = .idle) (hwait : s.waitCount ≠ 0) :
    run (step ⟨false, true⟩) s
        [.publish, .countPacket, .testWaitCount, .sendSignal, .lock i, .readPacket i, .unlock i] =
      some { s with sharedPacketCount := s.sharedPacketCount + 1, signals := s.signals + 1 } := by
  have hback : Function.update s.pc i .out = s.pc := by rw [← hpc, Function.update_eq_self]
  simp [run, step, State.goto, afterResult, hpc, hm, ha, hidle, hwait, hback]

/-- The events of `n` packets that thread `i` reads. -/
def packets (i : ι) : ℕ → List (Event ι)
  | 0 => []
  | n + 1 => [.publish, .countPacket, .testWaitCount, .sendSignal, .lock i, .readPacket i,
      .unlock i] ++ packets i n

theorem run_packets {i : ι} (n : ℕ) (hpc : s.pc i = .out) (hm : s.mutex = none)
    (ha : s.avail = 0) (hidle : s.writer = .idle) (hwait : s.waitCount ≠ 0) :
    run (step ⟨false, true⟩) s (packets i n) =
      some { s with sharedPacketCount := s.sharedPacketCount + n, signals := s.signals + n } := by
  induction n generalizing s with
  | zero => rfl
  | succ n ih =>
      rw [packets, run_append_some (run_packet hpc hm ha hidle hwait)]
      refine (ih ?_ ?_ ?_ ?_ ?_).trans ?_
      · exact hpc
      · exact hm
      · exact ha
      · exact hidle
      · exact hwait
      · simp only [Nat.add_assoc, Nat.add_comm 1 n]

/-- All signals on their way become one. -/
theorem run_coalesce (n : ℕ) (hsig : s.signals = n + 1) :
    run (step ⟨false, true⟩) s (List.replicate n .coalesce) = some { s with signals := 1 } := by
  induction n generalizing s with
  | zero => rw [← show s.signals = 1 from hsig]; rfl
  | succ n ih =>
      have hstep : step ⟨false, true⟩ s .coalesce = some { s with signals := n + 1 } := by
        simp [step, hsig]
      rw [List.replicate_succ, run, hstep, Option.bind_some, ih rfl]

end

/-- After `n + 1 = 2 ^ 32` packets the counters agree again, and the receive thread leaves the
waiter asleep although the last packet is still unread. -/
theorem lost_after_packets (n : ℕ) (hn : (n + 1) % 2 ^ 32 = 0) :
    ∃ es t, run (step ⟨false, true⟩) (init : State (Fin 2)) es = some t ∧ Lost t := by
  set s₁ : State (Fin 2) := { (init : State (Fin 2)) with
    pc := Function.update (fun _ => .out) 0 (.asleep false 0), waitCount := 1 } with hs₁
  have h₁ : run (step ⟨false, true⟩) (init : State (Fin 2))
      [.lock 0, .readEmpty 0, .announce 0, .readEmpty 0, .enterWait 0 false] = some s₁ :=
    run_sleep rfl rfl rfl
  have h₂ : run (step ⟨false, true⟩) s₁ (packets 1 n) =
      some { s₁ with sharedPacketCount := n, signals := n } := by
    have := run_packets (s := s₁) (i := 1) n rfl rfl rfl rfl (by decide)
    simpa [hs₁, init] using this
  set s₂ : State (Fin 2) := { s₁ with avail := 1, sharedPacketCount := n + 1,
                                      signals := n + 1 } with hs₂
  have h₃ : run (step ⟨false, true⟩) { s₁ with sharedPacketCount := n, signals := n }
      [.publish, .countPacket, .testWaitCount, .sendSignal] = some s₂ := by
    simp [run, step, hs₁, hs₂, init]
  have h₄ := run_coalesce (s := s₂) n rfl
  have hsame : sameU32 0 (n + 1) := by rw [sameU32, hn]; rfl
  have h₅ : run (step ⟨false, true⟩) { s₂ with signals := 1 } [.takeSignal, .receivePass] =
      some { s₂ with signals := 0 } := by
    simp [run, step, State.receivePass, hs₂, hs₁, init, hsame]
  have hrun : run (step ⟨false, true⟩) (init : State (Fin 2))
      ([Event.lock 0, .readEmpty 0, .announce 0, .readEmpty 0, .enterWait 0 false] ++
        (packets 1 n ++ ([Event.publish, .countPacket, .testWaitCount, .sendSignal] ++
          (List.replicate n Event.coalesce ++ [Event.takeSignal, .receivePass])))) =
      some { s₂ with signals := 0 } := by
    rw [run_append_some h₁, run_append_some h₂, run_append_some h₃, run_append_some h₄]
    exact h₅
  have hlost : Lost { s₂ with signals := 0 } := by
    refine ⟨Nat.one_pos, ?_, 0, .inr ⟨false, 0, rfl, rfl⟩⟩
    rintro (h | h | h)
    · exact h rfl
    · exact lt_irrefl 0 h
    · cases h
  exact ⟨_, _, hrun, hlost⟩

/-- The events of the threads below `n` falling asleep. -/
def sleepers : ℕ → List (Event ℕ)
  | 0 => []
  | n + 1 => sleepers n ++ [.lock n, .readEmpty n, .announce n, .readEmpty n, .enterWait n false]

/-- The threads below `n` sleep; `wait_count` has wrapped around `2 ^ 32`. -/
def slept (n : ℕ) : State ℕ :=
  { (init : State ℕ) with
    pc := fun i => if i < n then .asleep false 0 else .out, waitCount := n % 2 ^ 32 }

theorem run_sleepers (n : ℕ) :
    run (step ⟨false, true⟩) (init : State ℕ) (sleepers n) = some (slept n) := by
  induction n with
  | zero => simp [sleepers, slept, init]
  | succ n ih =>
      rw [sleepers, run_append_some ih, run_sleep (by simp [slept]) rfl rfl]
      simp only [slept, init, Option.some.injEq, State.mk.injEq, true_and]
      refine ⟨by simp [addU32], ?_⟩
      funext i
      rcases eq_or_ne i n with rfl | hne
      · simp
      · simp only [Function.update_of_ne hne, show i < n + 1 ↔ i < n by omega]

/-- With `2 ^ 32` waiters `wait_count` is `0`, and the writer does not signal. -/
theorem lost_after_waiters (n : ℕ) (hn : n % 2 ^ 32 = 0) (hpos : 0 < n) :
    ∃ es t, run (step ⟨false, true⟩) (init : State ℕ) es = some t ∧ Lost t := by
  refine ⟨sleepers n ++ ([.publish, .countPacket, .testWaitCount] : List (Event ℕ)),
    { slept n with avail := 1, sharedPacketCount := 1 }, ?_, Nat.one_pos, ?_, 0,
    .inr ⟨false, 0, by simp [slept, hpos], rfl⟩⟩
  · rw [run_append_some (run_sleepers n)]
    simpa [run, step, slept, init] using hn
  · rintro (h | h | h)
    · exact h rfl
    · exact lt_irrefl 0 h
    · cases h

/-- A wakeup is lost when the packet counters or `wait_count` wrap around during a wait. -/
theorem wakeup_lost_after_wraparound :
    (∃ es t, run (step ⟨false, true⟩) (init : State (Fin 2)) es = some t ∧ Lost t) ∧
    ∃ es t, run (step ⟨false, true⟩) (init : State ℕ) es = some t ∧ Lost t :=
  ⟨lost_after_packets (2 ^ 32 - 1) (by norm_num), lost_after_waiters (2 ^ 32) (by norm_num) (by norm_num)⟩

end FastRpc.ResponseWait
