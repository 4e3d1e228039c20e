import FastRpc.QueueClose

/-! # What a close comes to

A close of an open queue stops before anything but the error callback thread is released (`close_early`),
stops later with a queue that cannot be closed again (`close_ret`, `close_destroyQueue`, `close_munmap`,
`close_signals`), or goes through (`close_through`).  `close_cases` collects the ways, and
`close_tells_truth` compares each with the code that is returned. -/

namespace FastRpc.QueueClose

open EarlyExit MultidomainQueue

/-! ### Up to the join of the packet callback thread -/

section Calls

variable {q a} {s t u : CloseState} {nErr : ℤ}

/-- The state in front of the first release. -/
def started (s : CloseState) : CloseState := { s with nErr := 0, slot := .invalid }

/-- The state of a close that waits for the packet callback thread. -/
structure Waiting (s t : CloseState) : Prop where
  live : ∀ r, r ≠ .errorThread → t.released r = false
  errorThread : t.errorCallbackThread = false
  slot : t.slot = .invalid
  counted : t.numQueues = s.numQueues
  faults : t.faults = []

/-- The part of the close from the packet callback thread on. -/
def closeRest (q : Queue) (a : Answers) : CloseM PUnit := do
  joinPacketThread q a
  destroyOnDsp a
  release .memory
  destroySignals q a
  freeObject

theorem joined_waiting (h : Open s) (nErr : ℤ) : Waiting s { joined (started s) with nErr := nErr } := by
  unfold joined
  cases hthread : s.errorCallbackThread with
  | false =>
      rw [if_neg (by rw [started, hthread]; exact Bool.false_ne_true)]
      exact ⟨h.live, hthread, rfl, rfl, h.faults⟩
  | true =>
      rw [if_pos (by rw [started, hthread]), release_live (s := started s) (h.errorThread hthread)]
      refine ⟨fun r hr => ?_, rfl, rfl, rfl, h.faults⟩
      exact (Function.update_of_ne hr _ _).trans (h.live r hr)

/-- A state that waits is that of an open queue. -/
theorem Waiting.isOpen (h : Waiting s t) (hs : Open s) : Open t := by
  refine ⟨h.live, fun hthread => ?_, ?_, ?_, h.faults⟩
  · rw [h.errorThread] at hthread
    cases hthread
  · rw [h.slot]
    decide
  · rw [h.counted]
    exact hs.counted

/-- The checks that pass, and the waits that are cancelled. -/
theorem close_reaches (h : Open s)
    (hchecks : ChecksPass q a)
    (herror : s.errorCallbackThread = true → a.joinErrorThread ≠ eDeadlk ∧ a.joinErrorThread ≠ eInval)
    (hcancel : CancelPass q a) :
    ∃ nErr, (q.haveDriverSignaling = false ∨ a.dspError = aeeEConnReset → nErr = 0) ∧
      ∀ o t, Ends (closeRest q a) { joined (started s) with nErr := nErr } o t →
        Ends (dspqueueClose q a) s o t := by
  have hwait := joined_waiting h 0
  obtain ⟨nErr, hends, hcode⟩ := cancelWaits_ends (s := joined (started s)) (fun i => hwait.live _ (by simp))
    (hwait.live .sync (by simp)) hcancel
  have hzero : (joined (started s)).nErr = 0 := by
    unfold joined
    split_ifs <;> rfl
  refine ⟨nErr, fun hnone => (hcode hnone).trans hzero, fun o t hrest => ?_⟩
  have hstart : Ends (checks q a) { s with nErr := 0 } (some ⟨⟩) { s with nErr := 0 } :=
    checks_ends (h.live .object (by simp)) (h.live .memory (by simp)) (fun _ => h.live .dspQueue (by simp)) rfl
      hchecks
  exact (ends_update _ _).bind (hstart.bind ((ends_update _ _).bind
    ((joinErrorThread_ends (s := started s) herror).bind (hends.bind hrest))))

theorem open_setNErr (h : Open s) (nErr : ℤ) : Open { s with nErr := nErr } :=
  ⟨h.live, h.errorThread, h.slot, h.counted, h.faults⟩

/-- A close that does not get past the join leaves an open queue. -/
theorem close_early (h : Open s) (hstops : ¬ Proceeds q a s) :
    ∃ t, Ends (dspqueueClose q a) s none t ∧ t.nErr ≠ 0 ∧ Open t ∧ t.numQueues = s.numQueues := by
  have hobject : s.released .object = false := h.live .object (by simp)
  have hmemory : s.released .memory = false := h.live .memory (by simp)
  have hdsp : a.dspError = 0 → s.released .dspQueue = false := fun _ => h.live .dspQueue (by simp)
  by_cases hchecks : ChecksPass q a
  swap
  · obtain ⟨nErr, hne, hends⟩ :=
      checks_exit (s := { s with nErr := 0 }) hobject hmemory hdsp rfl hchecks
    exact ⟨{ s with nErr := nErr }, (ends_update _ _).bind (hends.exit _), hne, open_setNErr h nErr, rfl⟩
  have hstart : Ends (checks q a) { s with nErr := 0 } (some ⟨⟩) { s with nErr := 0 } :=
    checks_ends hobject hmemory hdsp rfl hchecks
  by_cases herror : s.errorCallbackThread = true → a.joinErrorThread ≠ eDeadlk ∧ a.joinErrorThread ≠ eInval
  swap
  · have hne : aeeERpc ≠ 0 := by decide
    refine ⟨{ started s with nErr := aeeERpc, errorCallbackThread := false }, ?_, hne, ?_, rfl⟩
    · exact (ends_update _ _).bind (hstart.bind ((ends_update _ _).bind
        ((joinErrorThread_exit (s := started s) h.errorThread herror).exit _)))
    · exact ⟨h.live, fun hfalse => absurd hfalse Bool.false_ne_true, Slot.noConfusion, h.counted, h.faults⟩
  by_cases hcancel : CancelPass q a
  swap
  · have hwait := joined_waiting h 0
    obtain ⟨nErr, hne, hends⟩ := cancelWaits_exit (s := joined (started s)) (fun i => hwait.live _ (by simp))
      hcancel
    have hleft := joined_waiting h nErr
    refine ⟨{ joined (started s) with nErr := nErr }, ?_, hne, hleft.isOpen h, hleft.counted⟩
    exact (ends_update _ _).bind (hstart.bind ((ends_update _ _).bind
      ((joinErrorThread_ends (s := started s) herror).bind (hends.exit _))))
  have hjoin : ¬ (q.packetCallback = true → a.joinPacketThread = 0 ∨ a.joinPacketThread = eSrch) :=
    fun hjoin => hstops ⟨hchecks.1, hchecks.2.1, hchecks.2.2.1, hchecks.2.2.2, herror, hcancel, hjoin⟩
  obtain ⟨nErr, _, hreach⟩ := close_reaches h hchecks herror hcancel
  obtain ⟨hne, hends⟩ := joinPacketThread_exit (s := { joined (started s) with nErr := nErr })
    (fun _ => (joined_waiting h nErr).live .packetThread (by simp)) hjoin
  have hleft := joined_waiting h a.joinPacketThread
  exact ⟨_, hreach _ _ (hends.exit _), hne, hleft.isOpen h, hleft.counted⟩

/-- A close that proceeds. -/
theorem close_proceeds (h : Open s) (hproceeds : Proceeds q a s) :
    ∃ t, Waiting s t ∧ (q.haveDriverSignaling = false ∨ a.dspError = aeeEConnReset → t.nErr = 0) ∧
      ∀ o u, Ends (closeRest q a) t o u → Ends (dspqueueClose q a) s o u := by
  obtain ⟨hdomain, hqueues, himported, hcount, herror, hcancel, _⟩ := hproceeds
  obtain ⟨nErr, hcode, hreach⟩ := close_reaches h ⟨hdomain, hqueues, himported, hcount⟩ herror hcancel
  exact ⟨_, joined_waiting h nErr, hcode, hreach⟩

/-! ### From the join on -/

/-- The callback thread is joined, nothing else has been released. -/
structure PacketJoined (q : Queue) (s t : CloseState) : Prop where
  live : ∀ r, r ≠ .errorThread → r ≠ .packetThread → t.released r = false
  packetThread : t.released .packetThread = q.packetCallback
  errorThread : t.errorCallbackThread = false
  slot : t.slot = .invalid
  counted : t.numQueues = s.numQueues
  faults : t.faults = []

theorem packetJoined_joined (h : Waiting s t) (nErr : ℤ) :
    PacketJoined q s { packetJoined q a t with nErr := nErr } := by
  unfold packetJoined
  cases hcallback : q.packetCallback with
  | false =>
      rw [if_neg Bool.false_ne_true]
      exact ⟨fun r hr _ => h.live r hr, (h.live .packetThread (by simp)).trans hcallback.symm, h.errorThread,
        h.slot, h.counted, h.faults⟩
  | true =>
      have hpacket : t.released .packetThread = false := h.live .packetThread (by simp)
      constructor
      · intro r hr hne
        simp [hne, h.live r hr]
      · simp [hcallback]
      · simp [h.errorThread]
      · simp [h.slot]
      · simp [h.counted]
      · exact (faults_release (s := { t with nErr := a.joinPacketThread }) hpacket).trans h.faults

/-- Without a callback thread the queue is still open. -/
theorem PacketJoined.isOpen (h : PacketJoined q s t) (hcallback : q.packetCallback = false) (hs : Open s) :
    Open t := by
  refine ⟨fun r hr => ?_, fun hthread => ?_, ?_, ?_, h.faults⟩
  · by_cases hpacket : r = .packetThread
    · rw [hpacket, h.packetThread, hcallback]
    · exact h.live r hr hpacket
  · rw [h.errorThread] at hthread
    cases hthread
  · rw [h.slot]
    decide
  · rw [h.counted]
    exact hs.counted

/-- The callback thread has returned an error. -/
theorem close_ret (h : Open s) (hproceeds : Proceeds q a s) (hcallback : q.packetCallback = true)
    (hret : a.ret ≠ 0) : ∃ u, Ends (dspqueueClose q a) s none u ∧ u.nErr ≠ 0 ∧ PacketJoined q s u := by
  obtain ⟨t, hwait, _, hreach⟩ := close_proceeds h hproceeds
  obtain ⟨nErr, hne, hends⟩ := joinPacketThread_ret (hwait.live .packetThread (by simp)) hcallback
    (hproceeds.joined hcallback) hret
  exact ⟨_, hreach _ _ (hends.exit _), hne, packetJoined_joined hwait nErr⟩

/-- The queue cannot be destroyed on the DSP. -/
theorem close_destroyQueue (h : Open s) (hproceeds : Proceeds q a s) (hret : q.packetCallback = true → a.ret = 0)
    (hdspError : a.dspError = 0) (hdestroy : a.destroyQueue ≠ 0) :
    ∃ u, Ends (dspqueueClose q a) s none u ∧ u.nErr ≠ 0 ∧ PacketJoined q s u := by
  obtain ⟨t, hwait, _, hreach⟩ := close_proceeds h hproceeds
  have hjoin := joinPacketThread_ends (s := t) (fun _ => hwait.live .packetThread (by simp)) hproceeds.joined hret
  exact ⟨_, hreach _ _ (hjoin.bind ((destroyOnDsp_queue hdspError hdestroy).exit _)), hdestroy,
    packetJoined_joined hwait a.destroyQueue⟩

/-- The queue is gone on the DSP, and its object and slot are still there. -/
structure DspGone (s t : CloseState) : Prop where
  object : t.released .object = false
  dspQueue : t.released .dspQueue = true
  slot : t.slot = .invalid
  counted : t.numQueues = s.numQueues
  faults : t.faults = []

/-- The shared memory cannot be unmapped. -/
theorem close_munmap (h : Open s) (hproceeds : Proceeds q a s) (hret : q.packetCallback = true → a.ret = 0)
    (hdspError : a.dspError = 0) (hdestroy : a.destroyQueue = 0) (hmunmap : a.munmap ≠ 0) :
    ∃ u, Ends (dspqueueClose q a) s none u ∧ u.nErr ≠ 0 ∧ DspGone s u := by
  obtain ⟨t, hwait, _, hreach⟩ := close_proceeds h hproceeds
  have hjoin := joinPacketThread_ends (s := t) (fun _ => hwait.live .packetThread (by simp)) hproceeds.joined hret
  have hjoined := packetJoined_joined (q := q) (a := a) hwait 0
  have hdsp := hjoined.live .dspQueue (by simp) (by simp)
  refine ⟨_, hreach _ _ (hjoin.bind ((destroyOnDsp_munmap hdspError hdestroy hmunmap).exit _)), hmunmap, ?_⟩
  constructor
  · simpa using hjoined.live .object (by simp) (by simp)
  · simp
  · simpa using hjoined.slot
  · simpa using hjoined.counted
  · exact (faults_release hdsp).trans hjoined.faults

/-- The queue and the mapping are gone, and the signals are still there. -/
structure MemoryGone (q : Queue) (s t : CloseState) : Prop where
  live : ∀ r, r = .object ∨ r = .sync ∨ (∃ i, r = .signal i) → t.released r = false
  gone : ∀ r, r = .dspQueue ∨ r = .mapping ∨ r = .memory → t.released r = true
  packetThread : t.released .packetThread = q.packetCallback
  errorThread : t.errorCallbackThread = false
  slot : t.slot = .invalid
  counted : t.numQueues = s.numQueues
  faults : t.faults = []

theorem dspDestroyed_memoryGone (h : PacketJoined q s t) : MemoryGone q s ((dspDestroyed a t).release .memory) := by
  have hlive : ∀ r, r ≠ .errorThread → r ≠ .packetThread → t.released r = false := h.live
  constructor
  · rintro r (rfl | rfl | ⟨i, rfl⟩) <;> simp [hlive]
  · rintro r (rfl | rfl | rfl) <;> simp
  · simp [h.packetThread]
  · simp [h.errorThread]
  · simp [h.slot]
  · simp [h.counted]
  · rw [faults_release (by simp [hlive]), faults_dspDestroyed (by simp [hlive]) (by simp [hlive]), h.faults]

/-- The close gets to the signals. -/
theorem close_toSignals (h : Open s) (hproceeds : Proceeds q a s)
    (hret : q.packetCallback = true → a.ret = 0) (hdestroyed : a.dspError = 0 → a.destroyQueue = 0 ∧ a.munmap = 0) :
    ∃ t, MemoryGone q s t ∧
      (a.dspError = 0 → t.nErr = 0) ∧
      (a.dspError ≠ 0 → q.haveDriverSignaling = false ∨ a.dspError = aeeEConnReset →
        t.nErr = if q.packetCallback then a.joinPacketThread else 0) ∧
      ∀ o u, Ends (destroySignals q a >>= fun _ => freeObject) t o u → Ends (dspqueueClose q a) s o u := by
  obtain ⟨t, hwait, hcode, hreach⟩ := close_proceeds h hproceeds
  have hjoin := joinPacketThread_ends (s := t) (fun _ => hwait.live .packetThread (by simp)) hproceeds.joined hret
  have hjoined := packetJoined_joined (q := q) (a := a) hwait (packetJoined q a t).nErr
  refine ⟨_, dspDestroyed_memoryGone (a := a) hjoined, fun hdspError => ?_, fun hdspError hnone => ?_,
    fun o u hrest => hreach o u (hjoin.bind ((destroyOnDsp_ends hdestroyed).bind ((ends_release _ _).bind hrest)))⟩
  · unfold dspDestroyed
    rw [if_pos hdspError]
    simp
  · unfold dspDestroyed packetJoined
    rw [if_neg hdspError]
    cases hcallback : q.packetCallback with
    | false => simpa using hcode hnone
    | true => simp

/-- A signal cannot be destroyed. -/
theorem close_signals (h : Open s) (hproceeds : Proceeds q a s) (hret : q.packetCallback = true → a.ret = 0)
    (hdestroyed : a.dspError = 0 → a.destroyQueue = 0 ∧ a.munmap = 0) (hsignals : ¬ SignalsPass q a) :
    ∃ u, Ends (dspqueueClose q a) s none u ∧ u.nErr ≠ 0 ∧ DspGone s u := by
  obtain ⟨t, hgone, _, _, hreach⟩ := close_toSignals h hproceeds hret hdestroyed
  obtain ⟨u, hends, hsame, hne⟩ := destroySignals_exit (fun i => hgone.live _ (.inr (.inr ⟨i, rfl⟩))) hsignals
  refine ⟨u, hreach _ _ (hends.exit _), hne, ?_, ?_, hsame.slot.trans hgone.slot,
    hsame.numQueues.trans hgone.counted, hsame.faults.trans hgone.faults⟩
  · rw [hsame.parts .object (by simp), hgone.live .object (by simp)]
  · rw [hsame.parts .dspQueue (by simp), hgone.gone .dspQueue (by simp)]

/-- The code of a close that goes through. -/
def lastCode (q : Queue) (a : Answers) : ℤ :=
  if q.haveDriverSignaling = true ∧ a.dspError ≠ aeeEConnReset then a.destroySignal (.last 3)
  else if a.dspError ≠ 0 ∧ q.packetCallback = true then a.joinPacketThread
  else 0

/-- A close that goes through. -/
theorem close_through (h : Open s) (hproceeds : Proceeds q a s) (hret : q.packetCallback = true → a.ret = 0)
    (hdestroyed : a.dspError = 0 → a.destroyQueue = 0 ∧ a.munmap = 0) (hsignals : SignalsPass q a) :
    ∃ u, Ends (dspqueueClose q a) s (some ⟨⟩) u ∧ u.nErr = lastCode q a ∧ FullyReleased q s u := by
  obtain ⟨t, hgone, hzero, hjoined, hreach⟩ := close_toSignals h hproceeds hret hdestroyed
  obtain ⟨u, hends, hsame, hreleased, hcode⟩ :=
    destroySignals_ends (fun i => hgone.live _ (.inr (.inr ⟨i, rfl⟩))) hsignals
  have hobject : u.released .object = false := by
    rw [hsame.parts .object (by simp), hgone.live .object (by simp)]
  have hsync : u.released .sync = false := by
    rw [hsame.parts .sync (by simp), hgone.live .sync (by simp)]
  refine ⟨freed u, hreach _ _ (hends.bind (freeObject_ends u)), ?_, ?_⟩
  · have hnErr : (freed u).nErr = u.nErr := by simp [freed]
    rw [hnErr, hcode]
    unfold signalsCode lastCode
    by_cases hdriver : q.haveDriverSignaling = true ∧ a.dspError ≠ aeeEConnReset
    · rw [if_pos hdriver, if_pos hdriver]
    · rw [if_neg hdriver, if_neg hdriver]
      by_cases hdspError : a.dspError = 0
      · rw [hzero hdspError, if_neg (fun hboth => hboth.1 hdspError)]
      · have hnone : q.haveDriverSignaling = false ∨ a.dspError = aeeEConnReset := by
          rw [← Bool.not_eq_true]
          tauto
        rw [hjoined hdspError hnone]
        simp [hdspError]
  · constructor
    · intro r hsignal hpacket herror
      have hparts : ∀ r, (∀ i, r ≠ .signal i) → u.released r = t.released r := hsame.parts
      cases r with
      | object => simp [freed]
      | memory => simp [freed, hparts, hgone.gone .memory]
      | mapping => simp [freed, hparts, hgone.gone .mapping]
      | dspQueue => simp [freed, hparts, hgone.gone .dspQueue]
      | errorThread => exact absurd rfl herror
      | packetThread => simp [freed, hparts, hgone.packetThread, hpacket rfl]
      | signal i => simp [freed, hreleased (hsignal i rfl) i]
      | sync => simp [freed]
    · simp [freed, hsame.errorCallbackThread, hgone.errorThread]
    · simp [freed]
    · have hnum : (freed u).numQueues = s.numQueues - 1 := by
        simp [freed, hsame.numQueues, hgone.counted]
      have hpos := h.counted
      omega
    · have hlive : ({ u.release .sync with
          slot := .unused, numQueues := (u.release .sync).numQueues - 1 } : CloseState).released .object = false := by
        simpa using hobject
      exact (faults_release hlive).trans ((faults_release hsync).trans (hsame.faults.trans hgone.faults))

/-! ### All closes -/

/-- What a close of an open queue comes to. -/
inductive Closing (q : Queue) (a : Answers) (s t : CloseState) : Prop
  | stopped (hstops : ¬ Proceeds q a s) (hne : t.nErr ≠ 0) (hopen : Open t)
      (hcount : t.numQueues = s.numQueues)
  | joined (hproceeds : Proceeds q a s)
      (hwhy : q.packetCallback = true ∧ a.ret ≠ 0 ∨
        (q.packetCallback = true → a.ret = 0) ∧ a.dspError = 0 ∧ a.destroyQueue ≠ 0)
      (hne : t.nErr ≠ 0) (hjoined : PacketJoined q s t)
  | gone (hproceeds : Proceeds q a s) (hdestroy : a.dspError = 0 → a.destroyQueue = 0)
      (hwhy : ¬ ((a.dspError = 0 → a.munmap = 0) ∧ SignalsPass q a)) (hne : t.nErr ≠ 0) (hgone : DspGone s t)
  | through (hproceeds : Proceeds q a s) (hret : q.packetCallback = true → a.ret = 0)
      (hdestroyed : a.dspError = 0 → a.destroyQueue = 0 ∧ a.munmap = 0) (hsignals : SignalsPass q a)
      (hcode : t.nErr = lastCode q a) (hreleased : FullyReleased q s t)

theorem close_cases (h : Open s) (q : Queue) (a : Answers) : Closing q a s (closed q a s) := by
  unfold closed
  by_cases hproceeds : Proceeds q a s
  swap
  · obtain ⟨t, hends, hne, hopen, hcount⟩ := close_early h hproceeds
    rw [hends.leaves]
    exact .stopped hproceeds hne hopen hcount
  by_cases hret : q.packetCallback = true → a.ret = 0
  swap
  · obtain ⟨hcallback, hret⟩ := Classical.not_imp.mp hret
    obtain ⟨u, hends, hne, hjoined⟩ := close_ret h hproceeds hcallback hret
    rw [hends.leaves]
    exact .joined hproceeds (.inl ⟨hcallback, hret⟩) hne hjoined
  by_cases hdestroy : a.dspError = 0 → a.destroyQueue = 0
  swap
  · obtain ⟨hdspError, hdestroy⟩ := Classical.not_imp.mp hdestroy
    obtain ⟨u, hends, hne, hjoined⟩ := close_destroyQueue h hproceeds hret hdspError hdestroy
    rw [hends.leaves]
    exact .joined hproceeds (.inr ⟨hret, hdspError, hdestroy⟩) hne hjoined
  by_cases hmunmap : a.dspError = 0 → a.munmap = 0
  swap
  · obtain ⟨hdspError, hunmapped⟩ := Classical.not_imp.mp hmunmap
    obtain ⟨u, hends, hne, hgone⟩ := close_munmap h hproceeds hret hdspError (hdestroy hdspError) hunmapped
    rw [hends.leaves]
    exact .gone hproceeds hdestroy (fun hboth => hmunmap hboth.1) hne hgone
  have hdestroyed : a.dspError = 0 → a.destroyQueue = 0 ∧ a.munmap = 0 := fun hdspError =>
    ⟨hdestroy hdspError, hmunmap hdspError⟩
  by_cases hsignals : SignalsPass q a
  · obtain ⟨u, hends, hcode, hreleased⟩ := close_through h hproceeds hret hdestroyed hsignals
    rw [hends.leaves]
    exact .through hproceeds hret hdestroyed hsignals hcode hreleased
  · obtain ⟨u, hends, hne, hgone⟩ := close_signals h hproceeds hret hdestroyed hsignals
    rw [hends.leaves]
    exact .gone hproceeds hdestroy (fun hboth => hsignals hboth.2) hne hgone

/-- A close of an open queue uses nothing that is released. -/
theorem closed_faults (h : Open s) (a : Answers) : (closed q a s).faults = [] := by
  cases close_cases h q a with
  | stopped _ _ hopen _ => exact hopen.faults
  | joined _ _ _ hjoined => exact hjoined.faults
  | gone _ _ _ _ hgone => exact hgone.faults
  | through _ _ _ _ _ hreleased => exact hreleased.faults

theorem kept_of_open (h : Open t) (hcount : t.numQueues = s.numQueues) : Kept q s t :=
  ⟨h.live .object (by simp), h.slot, hcount, fun a => closed_faults h a⟩

/-- Answers of a close that comes to the join of the packet callback thread, after an error of the DSP. -/
def joinFails : Answers where
  domainQueues := true
  dspError := 1
  isImported := (0, false)
  queueCountSame := true
  joinErrorThread := 0
  cancelWait := fun _ => 0
  joinPacketThread := 1
  ret := 0
  destroyQueue := 0
  munmap := 0
  destroySignal := fun _ => 0

theorem ends_use_released {r : Resource} (h : s.released r = true) :
    Ends (use r) s (some ⟨⟩) { s with faults := s.faults ++ [r] } := by
  have huse : s.use r = { s with faults := s.faults ++ [r] } := by
    unfold CloseState.use
    rw [if_pos h]
  exact ⟨rfl, huse⟩

/-- A thread that is joined already is joined again. -/
theorem closed_packetThread (h : PacketJoined q s t) (hdomain : q.validDomain = true)
    (hcallback : q.packetCallback = true) : (closed q joinFails t).faults ≠ [] := by
  have hlive : ∀ r, r ≠ .errorThread → r ≠ .packetThread → t.released r = false := h.live
  have hchecks : Ends (checks q joinFails) { t with nErr := 0 } (some ⟨⟩) { t with nErr := 0 } :=
    checks_ends (hlive .object (by simp) (by simp)) (hlive .memory (by simp) (by simp))
      (fun hzero => absurd hzero (by decide)) rfl ⟨hdomain, rfl, fun _ => rfl, rfl⟩
  have herror : Ends (joinErrorThread joinFails) (started t) (some ⟨⟩) (joined (started t)) :=
    joinErrorThread_ends (fun _ => by decide)
  have hjoined : joined (started t) = started t := by
    unfold joined started
    rw [if_neg (by simp [h.errorThread])]
  obtain ⟨nErr, hcancel, _⟩ := cancelWaits_ends (q := q) (a := joinFails) (s := started t)
    (fun i => hlive (.signal i) (by simp) (by simp)) (hlive .sync (by simp) (by simp)) (fun _ _ _ => .inl rfl)
  have hpacket : t.released .packetThread = true := h.packetThread.trans hcallback
  have hjoin : Ends (joinPacketThread q joinFails) { started t with nErr := nErr } none
      { started t with faults := t.faults ++ [Resource.packetThread], nErr := 1 } := by
    unfold joinPacketThread
    have hcode : ¬ (joinFails.joinPacketThread = 0 ∨ joinFails.joinPacketThread = eSrch) := by decide
    rw [if_pos hcallback]
    exact (ends_use_released (s := { started t with nErr := nErr }) hpacket).bind
      ((ends_tolerate_exit hcode).exit _)
  rw [hjoined] at herror
  have hclose : Ends (dspqueueClose q joinFails) t none
      { started t with faults := t.faults ++ [Resource.packetThread], nErr := 1 } :=
    (ends_update _ _).bind (hchecks.bind ((ends_update _ _).bind (herror.bind (hcancel.bind (hjoin.exit _)))))
  unfold closed
  rw [hclose.leaves]
  simp

/-- Answers of a close of a queue that the DSP cannot be asked for. -/
def isImportedFails : Answers := { joinFails with dspError := 0, isImported := (1, false) }

/-- A queue that is gone on the DSP is asked for. -/
theorem closed_dspQueue (h : DspGone s t) (hdomain : q.validDomain = true) :
    (closed q isImportedFails t).faults ≠ [] := by
  have himported : Ends (checkImported isImportedFails) { t with nErr := 0 } none
      { t with faults := t.faults ++ [Resource.dspQueue], nErr := 1 } := by
    have hzero : isImportedFails.dspError = 0 := rfl
    have hcode : ¬ (isImportedFails.isImported.1 = 0 ∨ isImportedFails.isImported.1 = 0) := by decide
    unfold checkImported
    rw [if_pos hzero]
    exact (ends_use_released (s := { t with nErr := 0 }) h.dspQueue).bind ((ends_tolerate_exit hcode).exit _)
  have hchecks : Ends (checks q isImportedFails) { t with nErr := 0 } none
      { t with faults := t.faults ++ [Resource.dspQueue], nErr := 1 } :=
    (ends_use (s := { t with nErr := 0 }) h.object).bind
      ((ends_verifyc hdomain).bind ((ends_verifyc rfl).bind (himported.exit _)))
  have hclose : Ends (dspqueueClose q isImportedFails) t none
      { t with faults := t.faults ++ [Resource.dspQueue], nErr := 1 } :=
    (ends_update _ _).bind (hchecks.exit _)
  unfold closed
  rw [hclose.leaves]
  simp

/-! ### The result -/

/-- The code `0` is that of a close that goes through. -/
theorem closed_success (h : Open s) (hzero : (closed q a s).nErr = 0) :
    Proceeds q a s ∧ (q.packetCallback = true → a.ret = 0) ∧
      (a.dspError = 0 → a.destroyQueue = 0 ∧ a.munmap = 0) ∧ SignalsPass q a ∧ lastCode q a = 0 ∧
      FullyReleased q s (closed q a s) := by
  cases close_cases h q a with
  | stopped _ hne _ _ => exact absurd hzero hne
  | joined _ _ hne _ => exact absurd hzero hne
  | gone _ _ _ hne _ => exact absurd hzero hne
  | through hproceeds hret hdestroyed hsignals hcode hreleased =>
      exact ⟨hproceeds, hret, hdestroyed, hsignals, hcode.symm.trans hzero, hreleased⟩

theorem lastCode_of_answered (h : Answered q a) (hdestroyed : a.dspError = 0 → a.destroyQueue = 0) :
    lastCode q a = 0 := by
  unfold lastCode
  split_ifs with hdriver hjoin
  · have hgone : a.dspError ≠ 0 ∨ a.destroyQueue = 0 := by tauto
    exact (h.signals hgone hdriver.1 hdriver.2).2
  · refine h.joined hjoin.1 ?_ hjoin.2
    rw [← Bool.not_eq_true]
    tauto
  · rfl

theorem answered_of_lastCode (hret : q.packetCallback = true → a.ret = 0)
    (hdestroyed : a.dspError = 0 → a.destroyQueue = 0 ∧ a.munmap = 0) (hsignals : SignalsPass q a)
    (hcode : lastCode q a = 0) : Answered q a := by
  unfold lastCode at hcode
  refine ⟨hret, fun hzero hne => absurd (hdestroyed hzero).1 hne, fun hzero _ => (hdestroyed hzero).2,
    fun _ hdriver hreset => ⟨hsignals hdriver hreset, ?_⟩, fun hdspError hnone hcallback => ?_⟩
  · rwa [if_pos ⟨hdriver, hreset⟩] at hcode
  · have hdriver : ¬ (q.haveDriverSignaling = true ∧ a.dspError ≠ aeeEConnReset) := by
      rw [← Bool.not_eq_true] at hnone
      tauto
    rwa [if_neg hdriver, if_pos ⟨hdspError, hcallback⟩] at hcode

/-- The code of a close of a queue on one domain. -/
theorem truthful_iff (h : Open s) (q : Queue) (a : Answers) :
    Truthful q a s ↔ (Proceeds q a s → Answered q a) := by
  cases close_cases h q a with
  | stopped hstops hne hopen hcount =>
      exact iff_of_true ⟨fun _ => kept_of_open hopen hcount, fun hzero => absurd hzero hne⟩
        (fun hproceeds => absurd hproceeds hstops)
  | joined hproceeds hwhy hne hjoined =>
      cases hcallback : q.packetCallback with
      | false =>
          obtain ⟨hfalse, _⟩ | ⟨_, hdspError, hdestroy⟩ := hwhy
          · rw [hcallback] at hfalse
            cases hfalse
          · have hopen := hjoined.isOpen hcallback h
            refine iff_of_true ⟨fun _ => kept_of_open hopen hjoined.counted, fun hzero => absurd hzero hne⟩
              (fun _ => ⟨fun htrue => ?_, fun _ _ => hcallback, fun _ hzero => absurd hzero hdestroy,
                fun hgone => ?_, fun hdsp => absurd hdspError hdsp⟩)
            · rw [hcallback] at htrue
              cases htrue
            · rcases hgone with hdsp | hzero
              · exact absurd hdspError hdsp
              · exact absurd hzero hdestroy
      | true =>
          refine iff_of_false (fun htruthful => ?_) (fun hanswered => ?_)
          · exact closed_packetThread hjoined hproceeds.validDomain hcallback
              ((htruthful.error hne).again joinFails)
          · obtain ⟨_, hret⟩ | ⟨_, hdspError, hdestroy⟩ := hwhy
            · exact hret ((hanswered hproceeds).ret hcallback)
            · have hfalse := (hanswered hproceeds).destroyed hdspError hdestroy
              rw [hcallback] at hfalse
              cases hfalse
  | gone hproceeds hdestroy hwhy hne hgone =>
      refine iff_of_false (fun htruthful => ?_) (fun hanswered => hwhy ⟨fun hdspError => ?_, fun hdriver hreset => ?_⟩)
      · exact closed_dspQueue hgone hproceeds.validDomain ((htruthful.error hne).again isImportedFails)
      · exact (hanswered hproceeds).unmapped hdspError (hdestroy hdspError)
      · have hdsp : a.dspError ≠ 0 ∨ a.destroyQueue = 0 := by tauto
        exact ((hanswered hproceeds).signals hdsp hdriver hreset).1
  | through hproceeds hret hdestroyed hsignals hcode hreleased =>
      have hfreed : (closed q a s).released .object = true :=
        hreleased.parts .object (by simp) (by simp) (by simp)
      constructor
      · intro htruthful _
        refine answered_of_lastCode hret hdestroyed hsignals (hcode ▸ ?_)
        by_contra hne
        have hkept := (htruthful.error hne).object
        rw [hfreed] at hkept
        cases hkept
      · intro hanswered
        have hzero := lastCode_of_answered (hanswered hproceeds) (fun hdspError => (hdestroyed hdspError).1)
        exact ⟨fun hne => absurd (hcode.trans hzero) hne, fun _ => hreleased⟩

/-- The code `0` of a queue on one domain. -/
theorem closed_zero_iff {m : Member} (h : Open m.state) : m.closed.nErr = 0 ↔ m.Succeeds := by
  constructor
  · intro hzero
    obtain ⟨hproceeds, hret, hdestroyed, hsignals, hcode, _⟩ := closed_success h hzero
    exact ⟨hproceeds, answered_of_lastCode hret hdestroyed hsignals hcode, fun hdsp => (hdestroyed hdsp).1⟩
  · rintro ⟨hproceeds, hanswered, hdestroyed⟩
    have hcases : Closing m.queue m.answers m.state m.closed := close_cases h m.queue m.answers
    cases hcases with
    | stopped hstops _ _ _ => exact absurd hproceeds hstops
    | joined _ hwhy _ _ =>
        obtain ⟨hcallback, hret⟩ | ⟨_, hdspError, hdestroy⟩ := hwhy
        · exact absurd (hanswered.ret hcallback) hret
        · exact absurd (hdestroyed hdspError) hdestroy
    | gone _ hdestroy hwhy _ _ =>
        refine absurd ⟨fun hdspError => hanswered.unmapped hdspError (hdestroy hdspError), ?_⟩ hwhy
        intro hdriver hreset
        have hdsp : m.answers.dspError ≠ 0 ∨ m.answers.destroyQueue = 0 := by tauto
        exact (hanswered.signals hdsp hdriver hreset).1
    | through _ _ _ _ hcode _ => exact hcode.trans (lastCode_of_answered hanswered hdestroyed)

/-- The object of a queue over several domains is freed in any case. -/
theorem allTruthful_iff {mdq : Mdq} {queues : List (Option ℕ)} {members : ℕ → Member}
    (h : AllOpen mdq queues members) :
    AllTruthful mdq queues members ↔ ∀ k ∈ domains mdq queues, (members k).Succeeds := by
  have hclose := @close_yields mdq (fun k => (members k).closed.nErr) queues h.isMdq true (.inl h.array)
  have hfree : Event.free .object ∈ (closeAll mdq members).trace := by
    rw [closeAll, hclose.trace]
    simp
  have hcodes : firstError ((domains mdq queues).map (fun k => (members k).closed.nErr)) 0 = 0 ↔
      ∀ k ∈ domains mdq queues, (members k).Succeeds := by
    rw [firstError_eq_zero, and_iff_right rfl, List.forall_mem_map]
    exact forall₂_congr fun k hk => closed_zero_iff (h.domains k hk)
  constructor
  · intro htruthful
    rw [← hcodes]
    by_contra hne
    exact (htruthful.error _ hclose.result hne).1 hfree
  · intro hall
    have hzero := hcodes.mpr hall
    have hresult : (closeAll mdq members).result = .ok 0 := by
      rw [closeAll, hclose.result]
      exact congrArg Except.ok hzero
    refine ⟨fun nErr hnErr hne => ?_, fun _ => ⟨fun b hb => ?_, ?_, fun k hk => ?_⟩⟩
    · exact absurd (Except.ok.inj (hnErr.symm.trans hresult)) hne
    · rw [closeAll, hclose.trace]
      rcases hb with rfl | harray
      · simp
      · simp [harray]
    · rw [closeAll, hclose.trace]
      simp
    · obtain ⟨_, _, _, _, _, hreleased⟩ :=
        closed_success (h.domains k hk) ((closed_zero_iff (h.domains k hk)).mpr (hall k hk))
      exact hreleased

/-- **The code of a close says what has become of the queue exactly when** the calls behind the join of the
callback thread answer well. -/
theorem close_tells_truth (queue : AnyQueue) (h : queue.IsOpen) : queue.TellsTruth ↔ queue.WellAnswered := by
  cases queue with
  | domain m => exact truthful_iff h m.queue m.answers
  | multidomain mdq queues members => exact allTruthful_iff h

/-- An open queue with driver signals and a packet callback. -/
def signalled (destroySignal : Fin 4 → ℤ) : Member where
  queue := ⟨true, true, true⟩
  answers := { joinFails with dspError := 0, joinPacketThread := 0, destroySignal := destroySignal }
  state := ⟨fun _ => false, [], true, .used, 1, 0⟩

theorem signalled_open (destroySignal : Fin 4 → ℤ) : (AnyQueue.domain (signalled destroySignal)).IsOpen :=
  ⟨fun _ _ => rfl, fun _ => rfl, Slot.noConfusion, Nat.one_pos, rfl⟩

/-- All signals are destroyed: the code is `0`, and the queue is gone. -/
theorem close_tells_truth_signalled : (AnyQueue.domain (signalled fun _ => 0)).TellsTruth := by
  refine (close_tells_truth _ (signalled_open _)).mpr (fun _ => ?_)
  exact ⟨fun _ => rfl, fun _ hne => absurd rfl hne, fun _ _ => rfl, fun _ _ _ => ⟨fun _ => .inl rfl, rfl⟩,
    fun hne => absurd rfl hne⟩

/-- The last signal is in a bad state: the queue is freed, and the code of the signal is returned. -/
theorem freed_queue_reported :
    (AnyQueue.domain (signalled fun _ => aeeEBadState)).IsOpen ∧
      (signalled fun _ => aeeEBadState).closed.nErr = aeeEBadState ∧
      (signalled fun _ => aeeEBadState).closed.released .object = true ∧
      (signalled fun _ => aeeEBadState).closed.slot = .unused ∧
      ¬ (AnyQueue.domain (signalled fun _ => aeeEBadState)).TellsTruth := by
  have hcode : (signalled fun _ => aeeEBadState).closed.nErr = aeeEBadState := rfl
  have hobject : (signalled fun _ => aeeEBadState).closed.released .object = true := rfl
  refine ⟨signalled_open _, hcode, hobject, rfl, fun htruth => ?_⟩
  have hkept : Kept _ _ (signalled fun _ => aeeEBadState).closed :=
    htruth.error (hcode.trans_ne (by decide))
  rw [hkept.object] at hobject
  cases hobject

end Calls

end FastRpc.QueueClose
