import FastRpc.WakeLock
import FastRpc.Threads
import FastRpc.Transition

/-! # The holders of the wake lock

The count of the wake lock should be the number of calls that hold it, and of the domains whose last
reverse call left it to the next one.  `one_holder_for_each_count` says exactly in which runs this is
so.  Three things break it.  The lock is shared but every domain deinitialises it: disabling one domain,
or a kernel that does not support the control, takes it away from the others and from the calls in
progress, and `wakelock_control` even sets the flag of the domain whose lock it has just
deinitialised (`enabled_without_lock`).  A later reverse call relies on a lock that the call before it
may not have left.  And the lock that the last reverse call of a session leaves is never released. -/

namespace FastRpc.WakeLock

open Transition

/-! ### Runs -/

/-- Where a call is: before its `ioctl`, in it, or after it, with its domain, whether it is a reverse
call, and its variable `wake_lock`. -/
inductive Pc
  | idle
  | entered (domain : Domain) (reverse wakeLock : Bool)
  | calling (domain : Domain) (reverse : Bool)
  | returned (domain : Domain) (reverse wakeLock : Bool)
  deriving DecidableEq, Repr

/-- The call holds the lock. -/
def Pc.holds : Pc → Bool
  | .entered _ _ wakeLock | .returned _ _ wakeLock => wakeLock
  | .idle | .calling _ _ => false

/-- The state, the calls, and the domains whose last reverse call left its lock to the next. -/
structure World (ι : Type) where
  state : State
  pc : ι → Pc
  kept : Domain → Bool

/-- The steps.  A call starts when its domain has a session; it ends early (`fail`), or enters the
`ioctl`, comes back from it and ends. -/
inductive Event (ι : Type)
  | enter (i : ι) (domain : Domain) (reverse written : Bool)
  | fail (i : ι) (written : Bool)
  | ioctl (i : ι) (written : Bool)
  | back (i : ι) (written : Bool)
  | leave (i : ι) (written : Bool)
  | control (domain : Domain) (wlEnable : ℕ) (ready : Bool) (kernel : Kernel) (o : DeinitOutcome)
  | domainInit (domain : Domain) (kernel : Kernel) (o : DeinitOutcome)
  | domainDeinit (domain : Domain)
  deriving DecidableEq, Repr

/-- What the end of a call leaves to the next reverse call. -/
def leaveKept (kept : Domain → Bool) (domain : Domain) (reverse wakeLock : Bool) : Domain → Bool :=
  if wakeLock && reverse then Function.update kept domain true else kept

/-- What the start of a call takes over from the last reverse call. -/
def enterKept (w : State) (kept : Domain → Bool) (domain : Domain) (reverse : Bool) :
    Domain → Bool :=
  if w.enable domain ≠ 0 ∧ reverse = true ∧ (isFirstReverseRpcCall w domain reverse).1 = false then
    Function.update kept domain false
  else kept

/-- What is left when the lock was deinitialised, which releases every count. -/
def releaseKept (w w' : State) (kept : Domain → Bool) : Domain → Bool :=
  if w.wakelock.initDone && !w'.wakelock.initDone then fun _ => false else kept

variable {ι : Type}

/-- One step. -/
def step [DecidableEq ι] (w : World ι) : Event ι → Option (World ι)
  | .enter i domain reverse written =>
      match w.pc i, w.state.opened domain with
      | .idle, true =>
          let r := enterLock w.state domain reverse written
          some ⟨r.2, Function.update w.pc i (.entered domain reverse r.1),
            enterKept w.state w.kept domain reverse⟩
      | _, _ => none
  | .fail i written =>
      match w.pc i with
      | .entered domain reverse wakeLock =>
          some ⟨leaveLock w.state reverse wakeLock written, Function.update w.pc i .idle,
            leaveKept w.kept domain reverse wakeLock⟩
      | _ => none
  | .ioctl i written =>
      match w.pc i with
      | .entered domain reverse wakeLock =>
          some ⟨beforeIoctl w.state wakeLock written,
            Function.update w.pc i (.calling domain reverse), w.kept⟩
      | _ => none
  | .back i written =>
      match w.pc i with
      | .calling domain reverse =>
          let r := afterIoctl w.state domain written
          some ⟨r.2, Function.update w.pc i (.returned domain reverse r.1), w.kept⟩
      | _ => none
  | .leave i written =>
      match w.pc i with
      | .returned domain reverse wakeLock =>
          some ⟨leaveLock w.state reverse wakeLock written, Function.update w.pc i .idle,
            leaveKept w.kept domain reverse wakeLock⟩
      | _ => none
  | .control domain wlEnable ready kernel o =>
      let s := (wakelockControl w.state domain wlEnable ready kernel o).2
      some ⟨s, w.pc, releaseKept w.state s w.kept⟩
  | .domainInit domain kernel o =>
      if w.state.opened domain then none
      else
        let s := domainInit w.state domain kernel o
        some ⟨s, w.pc, releaseKept w.state s w.kept⟩
  | .domainDeinit domain => some { w with state := domainDeinit w.state domain }

/-- A new process. -/
def init (ι : Type) : World ι := ⟨State.new, fun _ => .idle, fun _ => false⟩

/-! ### What a step of a call can do -/

section Inversion

variable [DecidableEq ι] {w t : World ι} {i : ι} {written : Bool}

theorem step_enter {domain : Domain} {reverse : Bool}
    (h : step w (.enter i domain reverse written) = some t) :
    w.pc i = .idle ∧ w.state.opened domain = true ∧
      t = ⟨(enterLock w.state domain reverse written).2, Function.update w.pc i
          (.entered domain reverse (enterLock w.state domain reverse written).1),
        enterKept w.state w.kept domain reverse⟩ := by
  simp only [step] at h
  split at h
  · next hpc hopen => exact ⟨hpc, hopen, (Option.some.inj h).symm⟩
  · exact nomatch h

theorem step_fail (h : step w (.fail i written) = some t) :
    ∃ domain reverse wakeLock, w.pc i = .entered domain reverse wakeLock ∧
      t = ⟨leaveLock w.state reverse wakeLock written, Function.update w.pc i .idle,
        leaveKept w.kept domain reverse wakeLock⟩ := by
  simp only [step] at h
  split at h
  · next domain reverse wakeLock hpc =>
      exact ⟨domain, reverse, wakeLock, hpc, (Option.some.inj h).symm⟩
  · exact nomatch h

theorem step_ioctl (h : step w (.ioctl i written) = some t) :
    ∃ domain reverse wakeLock, w.pc i = .entered domain reverse wakeLock ∧
      t = ⟨beforeIoctl w.state wakeLock written,
        Function.update w.pc i (.calling domain reverse), w.kept⟩ := by
  simp only [step] at h
  split at h
  · next domain reverse wakeLock hpc =>
      exact ⟨domain, reverse, wakeLock, hpc, (Option.some.inj h).symm⟩
  · exact nomatch h

theorem step_back (h : step w (.back i written) = some t) :
    ∃ domain reverse, w.pc i = .calling domain reverse ∧
      t = ⟨(afterIoctl w.state domain written).2, Function.update w.pc i
        (.returned domain reverse (afterIoctl w.state domain written).1), w.kept⟩ := by
  simp only [step] at h
  split at h
  · next domain reverse hpc => exact ⟨domain, reverse, hpc, (Option.some.inj h).symm⟩
  · exact nomatch h

theorem step_leave (h : step w (.leave i written) = some t) :
    ∃ domain reverse wakeLock, w.pc i = .returned domain reverse wakeLock ∧
      t = ⟨leaveLock w.state reverse wakeLock written, Function.update w.pc i .idle,
        leaveKept w.kept domain reverse wakeLock⟩ := by
  simp only [step] at h
  split at h
  · next domain reverse wakeLock hpc =>
      exact ⟨domain, reverse, wakeLock, hpc, (Option.some.inj h).symm⟩
  · exact nomatch h

theorem step_domainInit {domain : Domain} {kernel : Kernel} {o : DeinitOutcome}
    (h : step w (.domainInit domain kernel o) = some t) :
    w.state.opened domain = false ∧ t = ⟨domainInit w.state domain kernel o, w.pc,
      releaseKept w.state (domainInit w.state domain kernel o) w.kept⟩ := by
  simp only [step] at h
  split_ifs at h with hopen
  exact ⟨by simpa using hopen, (Option.some.inj h).symm⟩

end Inversion

/-! ### The property and the condition -/

variable [Fintype ι]

/-- The calls that hold the lock. -/
def holders (w : World ι) : ℕ := Threads.count Pc.holds w.pc

/-- The domains that keep a lock for their next reverse call. -/
def keepers (w : World ι) : ℕ := Threads.count id w.kept

/-- Flags are set only while the lock is initialised, every successful lock has been unlocked once or
is held, the holders are the calls in progress and the sessions that keep a lock for their next reverse
call, and nothing is held when there is neither. -/
structure Accounted (w : World ι) : Prop where
  flags : ∀ d, w.state.enable d ≠ 0 → w.state.wakelock.initDone = true
  matched : w.state.wakelock.locked = w.state.wakelock.unlocked + w.state.wakelock.count
  held : w.state.wakelock.count = holders w + keepers w
  sessions : ∀ d, w.kept d = true → w.state.opened d = true
  quiet : (∀ i, w.pc i = .idle) → (∀ d, w.state.opened d = false) → w.state.wakelock.count = 0

/-- No domain but this one uses the lock, no call holds it, and it can be released. -/
def MayDeinit (w : World ι) (domain : Domain) (o : DeinitOutcome) : Prop :=
  (∀ e, e ≠ domain → w.state.enable e = 0) ∧ holders w = 0 ∧
    (o.written = true ∨ w.state.wakelock.count = 0)

/-- A call gives its lock back, or leaves it to the next reverse call of a session that has none. -/
def MayLeave (w : World ι) (domain : Domain) (reverse wakeLock written : Bool) : Prop :=
  wakeLock = true →
    if reverse then w.state.opened domain = true ∧ w.kept domain = false
    else written = true ∨ w.state.wakelock.count ≠ 1

/-- The condition on the steps. -/
def Orderly (w : World ι) : Event ι → Prop
  | .enter _ domain reverse _ =>
      reverse = true → w.state.enable domain ≠ 0 → w.state.firstRevrpcDone domain = true →
        w.kept domain = true
  | .fail i written =>
      match w.pc i with
      | .entered domain reverse wakeLock => MayLeave w domain reverse wakeLock written
      | _ => True
  | .ioctl i written => (w.pc i).holds = true → written = true ∨ w.state.wakelock.count ≠ 1
  | .back _ _ => True
  | .leave i written =>
      match w.pc i with
      | .returned domain reverse wakeLock => MayLeave w domain reverse wakeLock written
      | _ => True
  | .control domain wlEnable ready kernel o =>
      w.state.enable domain ≠ wlEnable →
        if wlEnable = 0 then
          MayDeinit w domain o ∧ o.closedUnlock = true ∧
            (w.state.opened domain = true → kernel ≠ .error)
        else
          w.state.wakelock.initDone = true ∨ ready = true → w.state.opened domain = true →
            kernel ≠ .unsupported
  | .domainInit domain kernel o =>
      w.state.enable domain ≠ 0 → kernel = .unsupported → MayDeinit w domain o
  | .domainDeinit domain => w.state.opened domain = true → w.kept domain = false

/-! ### The invariant -/

/-- What every orderly step keeps. -/
structure Inv (w : World ι) : Prop where
  ok : w.state.wakelock.Ok
  flags : ∀ d, w.state.enable d ≠ 0 → w.state.wakelock.initDone = true
  matched : w.state.wakelock.locked = w.state.wakelock.unlocked + w.state.wakelock.count
  held : w.state.wakelock.count = holders w + keepers w
  sessions : ∀ d, w.kept d = true → w.state.opened d = true

theorem Inv.accounted {w : World ι} (h : Inv w) : Accounted w where
  flags := h.flags
  matched := h.matched
  held := h.held
  sessions := h.sessions
  quiet := by
    intro hidle hclosed
    have hholders : holders w = 0 := Threads.count_eq_zero.mpr (fun i => by rw [hidle i]; rfl)
    have hkeepers : keepers w = 0 := by
      refine Threads.count_eq_zero.mpr (fun d => ?_)
      by_contra hkept
      have hopen := h.sessions d (by simpa using hkept)
      rw [hclosed d] at hopen
      exact nomatch hopen
    rw [h.held, hholders, hkeepers]

omit [Fintype ι] in
theorem takeLock_cases (s : State) (written : Bool) :
    takeLock s written = (false, s) ∨
      s.wakelock.initDone = true ∧ takeLock s written =
        (true, { s with wakelock := { s.wakelock with
          count := s.wakelock.count + 1, locked := s.wakelock.locked + 1 } }) := by
  unfold takeLock
  rcases fastrpcWakeLock_cases s.wakelock written with hf | ⟨hinit, hf⟩
  · rw [hf]; exact Or.inl rfl
  · rw [hf]; exact Or.inr ⟨hinit, rfl⟩

section Steps

variable {w : World ι} {s : State} {pc : ι → Pc} {kept : Domain → Bool} {domain : Domain}
  {i : ι} {reverse wakeLock written : Bool}

/-- The holders of a table of calls and of a table of domains. -/
def total (pc : ι → Pc) (kept : Domain → Bool) : ℕ := Threads.count Pc.holds pc + Threads.count id kept

theorem Inv.total (h : Inv w) : w.state.wakelock.count = total w.pc w.kept := h.held

/-- Calls move and hold as many locks as before. -/
theorem Inv.same (h : Inv w) (htotal : WakeLock.total pc kept = WakeLock.total w.pc w.kept)
    (hkept : ∀ d, kept d = true → w.state.opened d = true) : Inv ⟨w.state, pc, kept⟩ :=
  ⟨h.ok, h.flags, h.matched, h.total.trans htotal.symm, hkept⟩

/-- A lock is taken. -/
theorem Inv.taken (h : Inv w) (hinit : w.state.wakelock.initDone = true)
    (htotal : WakeLock.total pc kept = WakeLock.total w.pc w.kept + 1)
    (hkept : ∀ d, kept d = true → w.state.opened d = true) :
    Inv ⟨{ w.state with wakelock := { w.state.wakelock with
      count := w.state.wakelock.count + 1, locked := w.state.wakelock.locked + 1 } }, pc, kept⟩ where
  ok := ⟨h.ok.files, fun hoff => absurd (hinit.symm.trans hoff) (by decide)⟩
  flags := h.flags
  matched := by have := h.matched; simp only; omega
  held := by
    have := h.total
    show w.state.wakelock.count + 1 = WakeLock.total pc kept
    omega
  sessions := hkept

/-- A lock is given back. -/
theorem Inv.given (h : Inv w) (htotal : WakeLock.total pc kept + 1 = WakeLock.total w.pc w.kept)
    (hwritten : written = true ∨ w.state.wakelock.count ≠ 1)
    (hkept : ∀ d, kept d = true → w.state.opened d = true) :
    Inv ⟨giveLock w.state written, pc, kept⟩ := by
  have hcount := h.total
  have hne : w.state.wakelock.count ≠ 0 := by omega
  have hinit : w.state.wakelock.initDone = true := by
    by_contra hoff
    exact hne (h.ok.off (by simpa using hoff))
  have hmatched := h.matched
  unfold giveLock
  rw [fastrpcWakeUnlock_held hinit hne hwritten]
  refine ⟨⟨h.ok.files, fun hoff => absurd (hinit.symm.trans hoff) (by decide)⟩, h.flags, ?_, ?_, hkept⟩
  · simp only; omega
  · show w.state.wakelock.count - 1 = WakeLock.total pc kept
    omega

/-- The state differs only in what does not count. -/
theorem Inv.firstDone (h : Inv w) (first : Domain → Bool) :
    Inv { w with state := { w.state with firstRevrpcDone := first } } :=
  ⟨h.ok, h.flags, h.matched, h.held, h.sessions⟩

variable [DecidableEq ι]

/-- What a call holds after its step. -/
theorem total_update {x : Pc} (kept : Domain → Bool) :
    (x.holds = (w.pc i).holds → total (Function.update w.pc i x) kept = total w.pc kept) ∧
      (x.holds = true → (w.pc i).holds = false →
        total (Function.update w.pc i x) kept = total w.pc kept + 1) ∧
      (x.holds = false → (w.pc i).holds = true →
        total (Function.update w.pc i x) kept + 1 = total w.pc kept) := by
  refine ⟨fun h => ?_, fun hx h => ?_, fun hx h => ?_⟩
  · unfold total
    rw [Threads.count_update_same h]
  · unfold total
    rw [Threads.count_update_enter w.pc h hx]
    omega
  · have := Threads.count_update_leave w.pc h hx
    unfold total
    omega

omit [DecidableEq ι] in
/-- What a domain keeps after a step. -/
theorem total_kept (pc : ι → Pc) :
    (kept domain = false → total pc (Function.update kept domain true) = total pc kept + 1) ∧
      (kept domain = true → total pc (Function.update kept domain false) + 1 = total pc kept) := by
  refine ⟨fun h => ?_, fun h => ?_⟩
  · unfold total
    rw [Threads.count_update_enter (p := id) kept h rfl]
    omega
  · have := Threads.count_update_leave (p := id) kept (i := domain) (x := false) h rfl
    unfold total
    omega

omit [Fintype ι] [DecidableEq ι] in
theorem kept_update (hopen : w.state.opened domain = true) (b : Bool)
    (h : ∀ d, w.kept d = true → w.state.opened d = true) :
    ∀ d, Function.update w.kept domain b d = true → w.state.opened d = true := by
  intro d
  rcases eq_or_ne d domain with rfl | hne
  · exact fun _ => hopen
  · rw [Function.update_of_ne hne]
    exact h d

/-- The start of a call. -/
theorem inv_enter (h : Inv w) (hidle : w.pc i = .idle) (hopen : w.state.opened domain = true)
    (hC : Orderly w (.enter i domain reverse written)) :
    Inv ⟨(enterLock w.state domain reverse written).2,
      Function.update w.pc i (.entered domain reverse (enterLock w.state domain reverse written).1),
      enterKept w.state w.kept domain reverse⟩ := by
  have hholds : (w.pc i).holds = false := by rw [hidle]; rfl
  -- a call that takes the lock, or fails to
  have htake : ∀ w' : World ι, Inv w' → w'.pc = w.pc → w'.kept = w.kept →
      Inv ⟨(takeLock w'.state written).2,
        Function.update w.pc i (.entered domain reverse (takeLock w'.state written).1), w.kept⟩ := by
    intro w' hw' hpc hkept
    rw [← hpc] at hholds
    rw [← hpc, ← hkept]
    rcases takeLock_cases w'.state written with ht | ⟨hinit, ht⟩
    · rw [ht]
      exact hw'.same ((total_update _).1 hholds.symm) hw'.sessions
    · rw [ht]
      exact hw'.taken hinit ((total_update _).2.1 rfl hholds) hw'.sessions
  unfold enterLock enterKept
  by_cases hflag : w.state.enable domain = 0
  · simp only [hflag, ne_eq, not_true_eq_false, if_false, false_and]
    exact h.same ((total_update _).1 (by rw [hholds]; rfl)) h.sessions
  · simp only [ne_eq, hflag, not_false_eq_true, if_true, true_and]
    cases reverse with
    | false => exact htake w h rfl rfl
    | true =>
        cases hdone : w.state.firstRevrpcDone domain with
        | false =>
            have hfirst : isFirstReverseRpcCall w.state domain true = (true, { w.state with
                firstRevrpcDone := Function.update w.state.firstRevrpcDone domain true }) := by
              simp [isFirstReverseRpcCall, hopen, hdone]
            simp only [hfirst, Bool.not_true, Bool.false_eq_true, if_false, if_true,
              Bool.true_eq_false, and_false]
            exact htake { w with state := { w.state with
              firstRevrpcDone := Function.update w.state.firstRevrpcDone domain true } }
              (h.firstDone _) rfl rfl
        | true =>
            have hfirst : isFirstReverseRpcCall w.state domain true = (false, w.state) := by
              simp [isFirstReverseRpcCall, hopen, hdone]
            simp only [hfirst, Bool.not_true, Bool.false_eq_true, if_false, and_self, if_true]
            have hkept := hC rfl hflag hdone
            refine h.same ?_ (kept_update hopen false h.sessions)
            have hk := (total_kept (Function.update w.pc i (.entered domain true true))).2 hkept
            have hp := (total_update (w := w) (x := .entered domain true true) w.kept).2.1 rfl hholds
            omega

/-- The end of a call. -/
theorem inv_leave (h : Inv w) {x : Pc} (hpc : w.pc i = x) (hx : x.holds = wakeLock)
    (hC : MayLeave w domain reverse wakeLock written) :
    Inv ⟨leaveLock w.state reverse wakeLock written, Function.update w.pc i .idle,
      leaveKept w.kept domain reverse wakeLock⟩ := by
  have hholds : (w.pc i).holds = wakeLock := by rw [hpc, hx]
  unfold leaveLock leaveKept
  cases wakeLock with
  | false => exact h.same ((total_update _).1 hholds.symm) h.sessions
  | true =>
      have hp := (total_update (w := w) (x := .idle) w.kept).2.2 rfl hholds
      cases reverse with
      | false => exact h.given hp (hC rfl) h.sessions
      | true =>
          obtain ⟨hopen, hkept⟩ : w.state.opened domain = true ∧ w.kept domain = false := hC rfl
          refine h.same ?_ (kept_update hopen true h.sessions)
          have hk := (total_kept (Function.update w.pc i .idle)).1 hkept
          simp only [Bool.and_self, if_true]
          omega

end Steps

section Controls

variable {w : World ι} {domain : Domain} {o : DeinitOutcome} {kernel : Kernel} {ready : Bool}
  {wlEnable : ℕ}

/-- The lock is deinitialised when no flag is left and no call holds it. -/
theorem inv_deinit (h : Inv w) (hinit : w.state.wakelock.initDone = true)
    (hmay : MayDeinit w domain o) {s : State}
    (hlock : s.wakelock = (fastrpcWakeLockDeinit w.state.wakelock o).2)
    (henable : ∀ d, s.enable d = 0) : Inv ⟨s, w.pc, releaseKept w.state s w.kept⟩ := by
  obtain ⟨_, hholders, hwritten⟩ := hmay
  have hoff : s.wakelock.initDone = false := by
    rw [hlock]
    exact fastrpcWakeLockDeinit_initDone _ _
  have hkept : releaseKept w.state s w.kept = fun _ => false := by
    simp [releaseKept, hinit, hoff]
  have hkeepers : Threads.count id (fun _ : Domain => false) = 0 :=
    Threads.count_eq_zero.mpr (fun _ => rfl)
  have hmatched := h.matched
  rw [fastrpcWakeLockDeinit_on h.ok hinit hwritten] at hlock
  rw [hkept]
  refine ⟨?_, fun d hd => absurd (henable d) hd, ?_, ?_, fun _ hd => nomatch hd⟩
  · rw [hlock]
    exact ⟨fun hon => absurd hon Bool.false_ne_true, fun _ => rfl⟩
  · rw [hlock]
    simp only
    omega
  · show s.wakelock.count = Threads.count Pc.holds w.pc + Threads.count id (fun _ : Domain => false)
    have hzero : Threads.count Pc.holds w.pc = 0 := hholders
    rw [hkeepers, hlock, hzero]

/-- The lock stays initialised, or stays off. -/
theorem releaseKept_same {s s' : State} {kept : Domain → Bool}
    (h : s.wakelock.initDone = true → s'.wakelock.initDone = true) :
    releaseKept s s' kept = kept := by
  unfold releaseKept
  cases hs : s.wakelock.initDone with
  | false => rfl
  | true => rw [h hs]; rfl

/-- Nothing is released when the lock stays initialised. -/
theorem Inv.notReleased {s s' : State} {pc : ι → Pc} {kept : Domain → Bool}
    (h : Inv ⟨s', pc, kept⟩) (hs : s.wakelock.initDone = true → s'.wakelock.initDone = true) :
    Inv ⟨s', pc, releaseKept s s' kept⟩ := by
  rw [releaseKept_same hs]
  exact h

/-- The lock is initialised, or was, and what it counts stays. -/
theorem inv_init_lock (h : Inv w) (ready : Bool) {s : State}
    (hlock : s.wakelock = (fastrpcWakeLockInit w.state.wakelock ready).2)
    (hflags : ∀ d, s.enable d ≠ 0 → s.wakelock.initDone = true) (hopened : s.opened = w.state.opened) :
    Inv ⟨s, w.pc, releaseKept w.state s w.kept⟩ := by
  obtain ⟨hok, hcount, hlocked, hunlocked, hdone, _⟩ := fastrpcWakeLockInit_ok h.ok ready
  have hsame : releaseKept w.state s w.kept = w.kept :=
    releaseKept_same (fun hinit => by rw [hlock, hdone, hinit]; rfl)
  have hmatched := h.matched
  have hheld := h.held
  rw [hsame]
  refine ⟨hlock ▸ hok, hflags, ?_, ?_, fun d hd => hopened ▸ h.sessions d hd⟩
  · rw [hlock]
    omega
  · rw [hlock]
    exact hcount.trans hheld

/-- **Enabling** a domain. -/
theorem inv_enable (h : Inv w) (hv : wlEnable ≠ 0)
    (hC : w.state.wakelock.initDone = true ∨ ready = true → w.state.opened domain = true →
      kernel ≠ .unsupported) (hne : w.state.enable domain ≠ wlEnable) :
    Inv ⟨(wakelockControl w.state domain wlEnable ready kernel o).2, w.pc,
      releaseKept w.state (wakelockControl w.state domain wlEnable ready kernel o).2 w.kept⟩ := by
  obtain ⟨_, _, _, _, hdone, hres⟩ := fastrpcWakeLockInit_ok h.ok ready
  unfold wakelockControl
  simp only [if_neg hne, if_pos hv, hres]
  cases hon : w.state.wakelock.initDone || ready with
  | false =>
      have hoff : w.state.wakelock.initDone = false := (Bool.or_eq_false_iff.mp hon).1
      refine inv_init_lock h ready rfl (fun d hd => ?_) rfl
      exact absurd ((h.flags d hd).symm.trans hoff) (by decide)
  | true =>
      have hinit : (fastrpcWakeLockInit w.state.wakelock ready).2.initDone = true := hdone.trans hon
      have hC' := hC (by simpa using hon)
      simp only [Bool.not_true, Bool.false_eq_true, if_false]
      cases hopen : w.state.opened domain with
      | false =>
          simp only [Bool.false_eq_true, if_false, Bool.not_true]
          exact inv_init_lock h ready rfl (fun _ _ => hinit) rfl
      | true =>
          cases kernel with
          | unsupported => exact absurd rfl (hC' hopen)
          | ok =>
              simp only [if_true, updateKernelWakelockStatus, Bool.not_true, Bool.false_eq_true,
                if_false]
              exact inv_init_lock h ready rfl (fun _ _ => hinit) rfl
          | error =>
              simp only [if_true, updateKernelWakelockStatus, Bool.not_false]
              exact inv_init_lock h ready rfl (fun _ _ => hinit) rfl

/-- No flag is set after the only one is cleared. -/
theorem enable_update_zero {enable : Domain → ℕ} (h : ∀ e, e ≠ domain → enable e = 0) :
    ∀ d, Function.update enable domain 0 d = 0 := by
  intro d
  rcases eq_or_ne d domain with rfl | hne
  · exact Function.update_self _ _ _
  · rw [Function.update_of_ne hne]
    exact h d hne

/-- **Disabling** the last domain that uses the lock. -/
theorem inv_disable (h : Inv w) (hne : w.state.enable domain ≠ 0) (hmay : MayDeinit w domain o)
    (hclosed : o.closedUnlock = true) (hkernel : w.state.opened domain = true → kernel ≠ .error) :
    Inv ⟨(wakelockControl w.state domain 0 ready kernel o).2, w.pc,
      releaseKept w.state (wakelockControl w.state domain 0 ready kernel o).2 w.kept⟩ := by
  have hinit := h.flags domain hne
  have hres : (fastrpcWakeLockDeinit w.state.wakelock o).1 = true := by
    rw [fastrpcWakeLockDeinit_on h.ok hinit hmay.2.2]
    exact hclosed
  have hzero := enable_update_zero hmay.1
  unfold wakelockControl
  simp only [if_neg hne, ne_eq, not_true_eq_false, if_false, hres, Bool.not_true,
    Bool.false_eq_true]
  cases hopen : w.state.opened domain with
  | false =>
      simp only [Bool.false_eq_true, if_false, Bool.not_true]
      exact inv_deinit h hinit hmay rfl hzero
  | true =>
      cases kernel with
      | error => exact absurd rfl (hkernel hopen)
      | ok =>
          simp only [if_true, updateKernelWakelockStatus, Bool.not_true, Bool.false_eq_true, if_false]
          exact inv_deinit h hinit hmay rfl hzero
      | unsupported =>
          have hoff := fastrpcWakeLockDeinit_off (o := o)
            (fastrpcWakeLockDeinit_initDone w.state.wakelock o)
          simp only [if_true, updateKernelWakelockStatus, Bool.not_true, Bool.false_eq_true, if_false,
            hoff, Function.update_idem]
          exact inv_deinit h hinit hmay rfl hzero

/-- A session ends that keeps no lock. -/
theorem inv_domainDeinit (domain : Domain) (h : Inv w) (hC : w.state.opened domain = true → w.kept domain = false) :
    Inv { w with state := domainDeinit w.state domain } := by
  unfold domainDeinit
  split_ifs with hopen
  · refine ⟨h.ok, h.flags, h.matched, h.held, fun d hd => ?_⟩
    rcases eq_or_ne d domain with rfl | hne
    · exact absurd ((hC hopen).symm.trans hd) (by decide)
    · show Function.update w.state.opened domain false d = true
      rw [Function.update_of_ne hne]
      exact h.sessions d hd
  · exact h

/-- A session starts. -/
theorem inv_opened (domain : Domain) (h : Inv w) :
    Inv { w with state := { w.state with opened := Function.update w.state.opened domain true } } := by
  refine ⟨h.ok, h.flags, h.matched, h.held, fun d hd => ?_⟩
  show Function.update w.state.opened domain true d = true
  rcases eq_or_ne d domain with rfl | hne
  · exact Function.update_self _ _ _
  · rw [Function.update_of_ne hne]
    exact h.sessions d hd

/-- **The start of a session.** -/
theorem inv_domainInit (h : Inv w) (hclosed : w.state.opened domain = false)
    (hC : w.state.enable domain ≠ 0 → kernel = .unsupported → MayDeinit w domain o) :
    Inv ⟨domainInit w.state domain kernel o, w.pc,
      releaseKept w.state (domainInit w.state domain kernel o) w.kept⟩ := by
  have hopened := inv_opened domain h
  have hkept : w.kept domain = false := by
    by_contra hk
    exact absurd (hclosed.symm.trans (h.sessions domain (by simpa using hk))) (by decide)
  unfold domainInit
  by_cases hflag : w.state.enable domain = 0
  · simp only [hflag, ne_eq, not_true_eq_false, if_false]
    exact hopened.notReleased (fun hinit => hinit)
  · simp only [ne_eq, hflag, not_false_eq_true, if_true]
    cases kernel with
    | ok =>
        simp only [updateKernelWakelockStatus, if_true]
        exact hopened.notReleased (fun hinit => hinit)
    | error =>
        simp only [updateKernelWakelockStatus, Bool.false_eq_true, if_false]
        refine (inv_domainDeinit domain hopened (fun _ => hkept)).notReleased ?_
        intro hinit
        unfold domainDeinit
        split_ifs <;> exact hinit
    | unsupported =>
        have hmay := hC hflag rfl
        simp only [updateKernelWakelockStatus, if_true]
        exact inv_deinit h (h.flags domain hflag) hmay rfl (enable_update_zero hmay.1)

end Controls

section RunSteps

variable [DecidableEq ι] {w : World ι} {i : ι} {written : Bool} {domain : Domain} {reverse : Bool}

/-- A call enters its `ioctl`. -/
theorem inv_ioctl {wakeLock : Bool} (h : Inv w) (hpc : w.pc i = .entered domain reverse wakeLock)
    (hC : Orderly w (.ioctl i written)) :
    Inv ⟨beforeIoctl w.state wakeLock written, Function.update w.pc i (.calling domain reverse),
      w.kept⟩ := by
  unfold beforeIoctl
  cases wakeLock with
  | false => exact h.same ((total_update _).1 (by rw [hpc]; rfl)) h.sessions
  | true =>
      simp only [if_true]
      exact h.given ((total_update _).2.2 rfl (by rw [hpc]; rfl)) (hC (by rw [hpc]; rfl)) h.sessions

/-- A call comes back from its `ioctl`. -/
theorem inv_back (h : Inv w) (hpc : w.pc i = .calling domain reverse) :
    Inv ⟨(afterIoctl w.state domain written).2, Function.update w.pc i
      (.returned domain reverse (afterIoctl w.state domain written).1), w.kept⟩ := by
  have hholds : (w.pc i).holds = false := by rw [hpc]; rfl
  unfold afterIoctl
  split_ifs
  · rcases takeLock_cases w.state written with ht | ⟨hinit, ht⟩
    · rw [ht]
      exact h.same ((total_update _).1 hholds.symm) h.sessions
    · rw [ht]
      exact h.taken hinit ((total_update _).2.1 rfl hholds) h.sessions
  · exact h.same ((total_update _).1 hholds.symm) h.sessions

/-- **Every orderly step** keeps the accounts. -/
theorem inv_step (w : World ι) (e : Event ι) (t : World ι) (h : Inv w) (hC : Orderly w e)
    (hstep : step w e = some t) : Inv t := by
  cases e with
  | enter i domain reverse written =>
      obtain ⟨hpc, hopen, rfl⟩ := step_enter hstep
      exact inv_enter h hpc hopen hC
  | fail i written =>
      obtain ⟨domain, reverse, wakeLock, hpc, rfl⟩ := step_fail hstep
      simp only [Orderly, hpc] at hC
      exact inv_leave h hpc rfl hC
  | ioctl i written =>
      obtain ⟨domain, reverse, wakeLock, hpc, rfl⟩ := step_ioctl hstep
      exact inv_ioctl h hpc hC
  | back i written =>
      obtain ⟨domain, reverse, hpc, rfl⟩ := step_back hstep
      exact inv_back h hpc
  | leave i written =>
      obtain ⟨domain, reverse, wakeLock, hpc, rfl⟩ := step_leave hstep
      simp only [Orderly, hpc] at hC
      exact inv_leave h hpc rfl hC
  | control domain wlEnable ready kernel o =>
      obtain rfl := Option.some.inj hstep
      by_cases hsame : w.state.enable domain = wlEnable
      · simp only [wakelockControl, if_pos hsame]
        exact h.notReleased (fun hinit => hinit)
      · have hC' := hC hsame
        by_cases hv : wlEnable = 0
        · subst hv
          rw [if_pos rfl] at hC'
          exact inv_disable h hsame hC'.1 hC'.2.1 hC'.2.2
        · rw [if_neg hv] at hC'
          exact inv_enable h hv hC' hsame
  | domainInit domain kernel o =>
      obtain ⟨hclosed, rfl⟩ := step_domainInit hstep
      exact inv_domainInit h hclosed hC
  | domainDeinit domain =>
      obtain rfl := Option.some.inj hstep
      exact inv_domainDeinit domain h hC

end RunSteps

/-! ### The condition is exact -/

section Exact

variable {w t : World ι} {domain : Domain} {o : DeinitOutcome} {kernel : Kernel} {ready : Bool}

/-- What a deinitialisation must not find, read off the state after it. -/
theorem mayDeinit_of_accounted (h : Inv w) (hinit : w.state.wakelock.initDone = true)
    (ha : Accounted t) (hpc : t.pc = w.pc)
    (hlock : t.state.wakelock = (fastrpcWakeLockDeinit w.state.wakelock o).2)
    (hkept : t.kept = fun _ => false)
    (henable : ∀ e, e ≠ domain → t.state.enable e = w.state.enable e) : MayDeinit w domain o := by
  have hoff : t.state.wakelock.initDone = false := by
    rw [hlock]
    exact fastrpcWakeLockDeinit_initDone _ _
  have hkeepers : keepers t = 0 := by
    unfold keepers
    rw [hkept]
    exact Threads.count_eq_zero.mpr (fun _ => rfl)
  have hwritten : o.written = true ∨ w.state.wakelock.count = 0 := by
    by_contra hnot
    obtain ⟨hw, hcount⟩ := not_or.mp hnot
    have hfails := fastrpcWakeLockDeinit_fails h.ok hinit (by simpa using hw) hcount
    have hmatched := ha.matched
    have hbefore := h.matched
    rw [hlock, hfails] at hmatched
    simp only at hmatched
    omega
  refine ⟨fun e he => ?_, ?_, hwritten⟩
  · by_contra hflag
    rw [← henable e he] at hflag
    exact absurd ((ha.flags e hflag).symm.trans hoff) (by decide)
  · have hheld := ha.held
    rw [hkeepers, hlock, fastrpcWakeLockDeinit_on h.ok hinit hwritten] at hheld
    unfold holders at hheld ⊢
    rw [hpc] at hheld
    simp only at hheld
    omega

/-- The result of a deinitialisation is that of the second `close`. -/
theorem fastrpcWakeLockDeinit_fst {l : Lock} (hok : l.Ok) (hinit : l.initDone = true) :
    (fastrpcWakeLockDeinit l o).1 = o.closedUnlock := by
  by_cases hwritten : o.written = true ∨ l.count = 0
  · rw [fastrpcWakeLockDeinit_on hok hinit hwritten]
  · obtain ⟨hw, hcount⟩ := not_or.mp hwritten
    rw [fastrpcWakeLockDeinit_fails hok hinit (by simpa using hw) hcount]

/-- What disabling a domain leaves. -/
theorem wakelockControl_disable (ready : Bool) (kernel : Kernel) (o : DeinitOutcome) (s : State)
    (hne : s.enable domain ≠ 0) :
    (wakelockControl s domain 0 ready kernel o).2.wakelock = (fastrpcWakeLockDeinit s.wakelock o).2 ∧
      (∀ e, e ≠ domain → (wakelockControl s domain 0 ready kernel o).2.enable e = s.enable e) ∧
      ((wakelockControl s domain 0 ready kernel o).2.enable domain = 0 →
        (fastrpcWakeLockDeinit s.wakelock o).1 = true ∧
          (s.opened domain = true → kernel ≠ .error)) := by
  have hoff := fastrpcWakeLockDeinit_off (o := o) (fastrpcWakeLockDeinit_initDone s.wakelock o)
  unfold wakelockControl
  simp only [if_neg hne, ne_eq, not_true_eq_false, if_false]
  cases hres : (fastrpcWakeLockDeinit s.wakelock o).1 with
  | false =>
      simp only [Bool.not_false, if_true]
      exact ⟨trivial, fun _ _ => trivial, fun hzero => absurd hzero hne⟩
  | true =>
      simp only [Bool.not_true, Bool.false_eq_true, if_false]
      cases hopen : s.opened domain with
      | false =>
          simp only [Bool.false_eq_true, if_false, Bool.not_true]
          exact ⟨trivial, fun e he => Function.update_of_ne he _ _,
            fun _ => ⟨trivial, fun hfalse => nomatch hfalse⟩⟩
      | true =>
          cases kernel with
          | ok =>
              simp only [if_true, updateKernelWakelockStatus, Bool.not_true, Bool.false_eq_true,
                if_false]
              exact ⟨trivial, fun e he => Function.update_of_ne he _ _,
                fun _ => ⟨trivial, fun _ hk => nomatch hk⟩⟩
          | unsupported =>
              simp only [if_true, updateKernelWakelockStatus, Bool.not_true, Bool.false_eq_true,
                if_false, hoff, Function.update_idem]
              exact ⟨trivial, fun e he => Function.update_of_ne he _ _,
                fun _ => ⟨trivial, fun _ hk => nomatch hk⟩⟩
          | error =>
              simp only [if_true, updateKernelWakelockStatus, Bool.not_false]
              exact ⟨trivial, fun _ _ => trivial, fun hzero => absurd hzero hne⟩

/-- A lock that is given back without success stays in the accounts. -/
theorem written_of_matched (h : Inv w) {written : Bool} (hheld : w.state.wakelock.count ≠ 0)
    (hmatched : (giveLock w.state written).wakelock.locked =
      (giveLock w.state written).wakelock.unlocked + (giveLock w.state written).wakelock.count) :
    written = true ∨ w.state.wakelock.count ≠ 1 := by
  by_contra hnot
  obtain ⟨hw, hcount⟩ := not_or.mp hnot
  have hinit : w.state.wakelock.initDone = true := by
    by_contra hoff
    exact hheld (h.ok.off (by simpa using hoff))
  have hbefore := h.matched
  have hwf : written = false := by simpa using hw
  subst hwf
  unfold giveLock at hmatched
  rw [fastrpcWakeUnlock_fails hinit (not_not.mp hcount) (h.ok.files hinit).2.1] at hmatched
  simp only at hmatched
  omega

variable {i : ι}

/-- A call that holds the lock is counted. -/
theorem count_ne_zero (h : Inv w) (hholds : (w.pc i).holds = true) :
    w.state.wakelock.count ≠ 0 := by
  have hpos := Threads.count_pos w.pc hholds
  have hheld := h.total
  unfold total at hheld
  omega

/-- A domain was disabled. -/
theorem disable_of_accounted (h : Inv w) (hne : w.state.enable domain ≠ 0)
    (ha : Accounted ⟨(wakelockControl w.state domain 0 ready kernel o).2, w.pc,
      releaseKept w.state (wakelockControl w.state domain 0 ready kernel o).2 w.kept⟩) :
    MayDeinit w domain o ∧ o.closedUnlock = true ∧
      (w.state.opened domain = true → kernel ≠ .error) := by
  have hinit := h.flags domain hne
  obtain ⟨hlock, hothers, hdone⟩ := wakelockControl_disable ready kernel o w.state hne
  have hoff : (wakelockControl w.state domain 0 ready kernel o).2.wakelock.initDone = false := by
    rw [hlock]
    exact fastrpcWakeLockDeinit_initDone _ _
  have hkept : releaseKept w.state (wakelockControl w.state domain 0 ready kernel o).2 w.kept =
      fun _ => false := by
    simp [releaseKept, hinit, hoff]
  have hzero : (wakelockControl w.state domain 0 ready kernel o).2.enable domain = 0 := by
    by_contra hflag
    exact absurd ((ha.flags domain hflag).symm.trans hoff) (by decide)
  obtain ⟨hres, hkernel⟩ := hdone hzero
  refine ⟨mayDeinit_of_accounted h hinit ha rfl hlock hkept hothers, ?_, hkernel⟩
  rw [← fastrpcWakeLockDeinit_fst h.ok hinit]
  exact hres

/-- A domain was enabled. -/
theorem enable_of_accounted {wlEnable : ℕ} {kept : Domain → Bool} (h : Inv w) (hv : wlEnable ≠ 0)
    (hne : w.state.enable domain ≠ wlEnable)
    (ha : Accounted ⟨(wakelockControl w.state domain wlEnable ready kernel o).2, w.pc, kept⟩)
    (hready : w.state.wakelock.initDone = true ∨ ready = true)
    (hopen : w.state.opened domain = true) : kernel ≠ .unsupported := by
  rintro rfl
  obtain ⟨_, _, _, _, hdone, hres⟩ := fastrpcWakeLockInit_ok h.ok ready
  have hon : (w.state.wakelock.initDone || ready) = true := by simpa using hready
  have hflag := ha.flags domain
  simp only [wakelockControl, if_neg hne, ne_eq, hv, not_false_eq_true, if_true, hres, hon,
    Bool.not_true, Bool.false_eq_true, if_false, hopen, updateKernelWakelockStatus,
    Function.update_self, fastrpcWakeLockDeinit_initDone] at hflag
  exact hflag trivial

/-- A session was started on a kernel without the control. -/
theorem domainInit_of_accounted (h : Inv w) (hne : w.state.enable domain ≠ 0)
    (ha : Accounted ⟨domainInit w.state domain .unsupported o, w.pc,
      releaseKept w.state (domainInit w.state domain .unsupported o) w.kept⟩) :
    MayDeinit w domain o := by
  have hinit := h.flags domain hne
  have hs : domainInit w.state domain .unsupported o = { w.state with
      opened := Function.update w.state.opened domain true
      enable := Function.update w.state.enable domain 0
      wakelock := (fastrpcWakeLockDeinit w.state.wakelock o).2 } := by
    simp [domainInit, hne, updateKernelWakelockStatus]
  rw [hs] at ha
  refine mayDeinit_of_accounted h hinit ha rfl rfl ?_ (fun e he => Function.update_of_ne he _ _)
  simp [releaseKept, hinit, fastrpcWakeLockDeinit_initDone]

variable [DecidableEq ι]

/-- A later reverse call finds the lock of the one before it. -/
theorem kept_of_accounted {written : Bool} (h : Inv w) (hidle : w.pc i = .idle)
    (hopen : w.state.opened domain = true) (hflag : w.state.enable domain ≠ 0)
    (hdone : w.state.firstRevrpcDone domain = true)
    (ha : Accounted ⟨(enterLock w.state domain true written).2, Function.update w.pc i
        (.entered domain true (enterLock w.state domain true written).1),
      enterKept w.state w.kept domain true⟩) : w.kept domain = true := by
  by_contra hk
  have hsame : Function.update w.kept domain false = w.kept := by
    rw [Function.update_eq_self_iff]
    exact (by simpa using hk : w.kept domain = false).symm
  have hfirst : isFirstReverseRpcCall w.state domain true = (false, w.state) := by
    simp [isFirstReverseRpcCall, hopen, hdone]
  have hheld := ha.held
  simp only [enterLock, enterKept, ne_eq, hflag, not_false_eq_true, if_true,
    Bool.not_true, Bool.false_eq_true, if_false, hfirst, and_self, hsame] at hheld
  have hafter : w.state.wakelock.count =
      total (Function.update w.pc i (.entered domain true true)) w.kept := hheld
  have hp := (total_update (w := w) (i := i) (x := .entered domain true true) w.kept).2.1
    rfl (by rw [hidle]; rfl)
  have hbefore := h.total
  omega

/-- A call ended. -/
theorem mayLeave_of_accounted (h : Inv w) {x : Pc} {reverse wakeLock written : Bool}
    (hpc : w.pc i = x) (hx : x.holds = wakeLock)
    (ha : Accounted ⟨leaveLock w.state reverse wakeLock written, Function.update w.pc i .idle,
      leaveKept w.kept domain reverse wakeLock⟩) :
    MayLeave w domain reverse wakeLock written := by
  rintro rfl
  have hholds : (w.pc i).holds = true := by rw [hpc, hx]
  have hp := (total_update (w := w) (x := .idle) w.kept).2.2 rfl hholds
  cases reverse with
  | false => exact written_of_matched h (count_ne_zero h hholds) ha.matched
  | true =>
      have hkept : leaveKept w.kept domain true true = Function.update w.kept domain true := rfl
      have hset : leaveKept w.kept domain true true domain = true := by
        rw [hkept]
        exact Function.update_self domain true w.kept
      refine ⟨ha.sessions domain hset, ?_⟩
      by_contra hk
      have hsame : Function.update w.kept domain true = w.kept := by
        rw [Function.update_eq_self_iff]
        exact (by simpa using hk : w.kept domain = true).symm
      have hheld : w.state.wakelock.count =
          total (Function.update w.pc i .idle) (Function.update w.kept domain true) := ha.held
      have hbefore := h.total
      rw [hsame] at hheld
      omega

/-- **A step after which the accounts are right was orderly.** -/
theorem orderly_of_accounted {e : Event ι} (h : Inv w) (hstep : step w e = some t)
    (ha : Accounted t) : Orderly w e := by
  cases e with
  | enter i domain reverse written =>
      obtain ⟨hpc, hopen, rfl⟩ := step_enter hstep
      rintro rfl hflag hdone
      exact kept_of_accounted h hpc hopen hflag hdone ha
  | fail i written =>
      obtain ⟨domain, reverse, wakeLock, hpc, rfl⟩ := step_fail hstep
      simp only [Orderly, hpc]
      exact mayLeave_of_accounted h hpc rfl ha
  | ioctl i written =>
      obtain ⟨domain, reverse, wakeLock, hpc, rfl⟩ := step_ioctl hstep
      intro hholds
      obtain rfl : wakeLock = true := by rw [hpc] at hholds; exact hholds
      exact written_of_matched h (count_ne_zero h hholds) ha.matched
  | back i written => trivial
  | leave i written =>
      obtain ⟨domain, reverse, wakeLock, hpc, rfl⟩ := step_leave hstep
      simp only [Orderly, hpc]
      exact mayLeave_of_accounted h hpc rfl ha
  | control domain wlEnable ready kernel o =>
      obtain rfl := Option.some.inj hstep
      intro hne
      by_cases hv : wlEnable = 0
      · subst hv
        rw [if_pos rfl]
        exact disable_of_accounted h hne ha
      · rw [if_neg hv]
        exact enable_of_accounted h hv hne ha
  | domainInit domain kernel o =>
      obtain ⟨_, rfl⟩ := step_domainInit hstep
      rintro hne rfl
      exact domainInit_of_accounted h hne ha
  | domainDeinit domain =>
      obtain rfl := Option.some.inj hstep
      intro hopen
      by_contra hk
      have hsession := ha.sessions domain (by simpa using hk)
      simp [domainDeinit, hopen] at hsession

/-- **One holder for each count.** In every state of a run the flags are set only while the lock is
initialised, every successful lock was unlocked once or is held by a call in progress or a session, and
nothing is counted when there is neither, exactly when every step is orderly: the lock is deinitialised
(by disabling a domain, or for a kernel without the control) only when no other domain uses it and no
call holds it, and with success; a domain with a session is enabled only on a kernel with the control;
the unlock file can be written; a later reverse call finds the lock that the one before it left; and a
session ends without one. -/
theorem one_holder_for_each_count {es : List (Event ι)} {t : World ι}
    (hrun : run step (init ι) es = some t) :
    Along step Accounted (init ι) es ↔ Guarded step Orderly (init ι) es := by
  have hinit : Inv (init ι) := by
    refine ⟨Lock.ok_new, fun _ hd => absurd rfl hd, rfl, ?_, fun _ hd => nomatch hd⟩
    have hholders : holders (init ι) = 0 := Threads.count_eq_zero.mpr (fun _ => rfl)
    have hkeepers : keepers (init ι) = 0 := Threads.count_eq_zero.mpr (fun _ => rfl)
    rw [hholders, hkeepers]
    rfl
  exact along_iff_guarded inv_step (fun _ => Inv.accounted)
    (fun _ _ _ h hC hstep ha => hC (orderly_of_accounted h hstep ha)) hinit hrun

/-! ### The condition can be tested -/

instance (w : World ι) (domain : Domain) (o : DeinitOutcome) : Decidable (MayDeinit w domain o) :=
  inferInstanceAs (Decidable (_ ∧ _ ∧ _))

instance (w : World ι) (domain : Domain) (reverse wakeLock written : Bool) :
    Decidable (MayLeave w domain reverse wakeLock written) :=
  match reverse with
  | true => inferInstanceAs (Decidable (_ → _ ∧ _))
  | false => inferInstanceAs (Decidable (_ → _ ∨ _))

/-- A condition on the calls that entered can be tested. -/
def decidableEntered {P : Domain → Bool → Bool → Prop} (hP : ∀ d r k, Decidable (P d r k)) :
    (pc : Pc) → Decidable (match pc with | .entered d r k => P d r k | _ => True)
  | .entered d r k => hP d r k
  | .idle | .calling .. | .returned .. => isTrue trivial

/-- A condition on the calls that come back can be tested. -/
def decidableReturned {P : Domain → Bool → Bool → Prop} (hP : ∀ d r k, Decidable (P d r k)) :
    (pc : Pc) → Decidable (match pc with | .returned d r k => P d r k | _ => True)
  | .returned d r k => hP d r k
  | .idle | .calling .. | .entered .. => isTrue trivial

instance decidableOrderly (w : World ι) : (e : Event ι) → Decidable (Orderly w e)
  | .enter .. => @instDecidableForall (_ = _) (_ → _ → _) _ _
  | .fail i written =>
      decidableEntered (P := (MayLeave w · · · written)) (fun _ _ _ => inferInstance) (w.pc i)
  | .ioctl .. => @instDecidableForall (_ = _) (_ ∨ _) _ _
  | .back .. => isTrue trivial
  | .leave i written =>
      decidableReturned (P := (MayLeave w · · · written)) (fun _ _ _ => inferInstance) (w.pc i)
  | .control _ wlEnable .. =>
      @instDecidableForall (_ ≠ wlEnable) (if wlEnable = 0 then _ ∧ _ ∧ (_ → _) else _ ∨ _ → _ → _) _ _
  | .domainInit .. => @instDecidableForall (_ ≠ _) (_ → _) _ _
  | .domainDeinit _ => @instDecidableForall (_ = _) (_ = _) _ _

/-- A write, and both calls of `close`, succeed. -/
def allDone : DeinitOutcome := ⟨true, true, true⟩

/-- A session of one domain: a call, two reverse calls, and the end. -/
def oneSession : List (Event (Fin 1)) :=
  [.control 0 1 true .ok allDone, .domainInit 0 .ok allDone,
    .enter 0 0 false true, .ioctl 0 true, .back 0 true, .leave 0 true,
    .enter 0 0 true true, .ioctl 0 true, .back 0 true, .leave 0 true,
    .enter 0 0 true true, .ioctl 0 true, .back 0 true, .leave 0 true,
    .control 0 0 true .ok allDone, .domainDeinit 0]

theorem one_holder_for_each_count_oneSession : Along step Accounted (init (Fin 1)) oneSession :=
  (one_holder_for_each_count
    (show run step (init (Fin 1)) oneSession = some _ from rfl)).mpr (by decide +kernel)

/-- On a kernel without the control, enabling a domain that has a session deinitialises the lock and
then sets the flag: the calls of the domain no longer lock anything. -/
theorem enabled_without_lock :
    ∃ t, run step (init (Fin 1)) [.domainInit 0 .unsupported allDone,
        .control 0 1 true .unsupported allDone] = some t ∧
      t.state.enable 0 = 1 ∧ t.state.wakelock.initDone = false ∧ ¬ Accounted t := by
  refine ⟨_, rfl, by decide +kernel, by decide +kernel, fun ha => ?_⟩
  exact absurd (ha.flags 0 (by decide +kernel)) (by decide +kernel)

end Exact

end FastRpc.WakeLock
