import FastRpc.Basic
import Mathlib.Logic.Function.Basic

/-! # The wake lock

`fastrpc_pm.c` counts the holders of one wake lock for the whole process: the first
`fastrpc_wake_lock` writes to the lock file and the last `fastrpc_wake_unlock` to the unlock file.
Each domain has a flag `fastrpc_wake_lock_enable` that says whether its calls take the lock;
`wakelock_control` sets it, and initialises or deinitialises the lock that all domains share.

`remote_handle_invoke_domain` takes the lock when it starts, releases it before the `ioctl`, takes it
again after it and releases it at its end.  A reverse call (the listener's `next2`) keeps it at the end
and leaves it to the next reverse call of its domain.  The definitions here are the pieces of these
functions; what a write or a `close` does is given to them. -/

namespace FastRpc.WakeLock

/-! ### `fastrpc_pm.c` -/

/-- `struct wake_lock`: `lock` and `unlock` say that the files are open.  The last two fields record
the calls of `fastrpc_wake_lock` that succeeded and all calls of `fastrpc_wake_unlock`. -/
structure Lock where
  lock : Bool
  unlock : Bool
  count : ℕ
  initDone : Bool
  deinitStarted : Bool
  locked : ℕ
  unlocked : ℕ
  deriving DecidableEq, Repr

/-- The lock of a new process. -/
def Lock.new : Lock := ⟨false, false, 0, false, false, 0, 0⟩

/-- `fastrpc_wake_lock`; `written` is the outcome of its write. -/
def fastrpcWakeLock (w : Lock) (written : Bool) : Bool × Lock :=
  if !w.initDone then (false, w)
  else if w.deinitStarted then (false, w)
  else if w.count = 0 ∧ w.lock = true ∧ written = false then (false, w)
  else (true, { w with count := w.count + 1, locked := w.locked + 1 })

/-- `fastrpc_wake_unlock`. -/
def fastrpcWakeUnlock (w : Lock) (written : Bool) : Bool × Lock :=
  let w := { w with unlocked := w.unlocked + 1 }
  if !w.initDone then (false, w)
  else if w.count = 0 then (true, w)
  else if w.count = 1 ∧ w.unlock = true ∧ written = false then (false, w)
  else (true, { w with count := w.count - 1 })

/-- The loop of `fastrpc_wake_lock_release`, which runs at most once for each count. -/
def releaseLoop (written : Bool) : ℕ → Lock → Lock
  | 0, w => w
  | n + 1, w =>
      if w.count = 0 then w
      else
        let r := fastrpcWakeUnlock w written
        if r.1 then releaseLoop written n r.2 else r.2

/-- `fastrpc_wake_lock_release`. -/
def fastrpcWakeLockRelease (w : Lock) (written : Bool) : Lock := releaseLoop written w.count w

/-- `fastrpc_wake_lock_init`; `ready` says that the name is made and both files are opened. -/
def fastrpcWakeLockInit (w : Lock) (ready : Bool) : Bool × Lock :=
  if w.initDone then (true, w)
  else if ready then
    (true, { w with deinitStarted := false, lock := true, unlock := true, initDone := true })
  else (false, { w with deinitStarted := false, lock := false, unlock := false })

/-- What the write and the two calls of `close` in `fastrpc_wake_lock_deinit` do. -/
structure DeinitOutcome where
  written : Bool
  closedLock : Bool
  closedUnlock : Bool
  deriving DecidableEq, Repr

/-- `fastrpc_wake_lock_deinit`.  Its result is that of the last `close`. -/
def fastrpcWakeLockDeinit (w : Lock) (o : DeinitOutcome) : Bool × Lock :=
  if !w.initDone then (true, w)
  else
    let w := fastrpcWakeLockRelease { w with deinitStarted := true } o.written
    let nErr := if w.lock then o.closedLock else true
    (if w.unlock then o.closedUnlock else nErr,
      { w with
        lock := w.lock && !o.closedLock, unlock := w.unlock && !o.closedUnlock, initDone := false })

/-! ### The control of the domains -/

/-- The lock, the flags, and the fields of `hlist` that the calls use: whether the device is open, and
`first_revrpc_done`. -/
structure State where
  wakelock : Lock
  enable : Domain → ℕ
  opened : Domain → Bool
  firstRevrpcDone : Domain → Bool

/-- A new process. -/
def State.new : State := ⟨Lock.new, fun _ => 0, fun _ => false, fun _ => false⟩

/-- What `ioctl_control` does with a wake-lock request. -/
inductive Kernel
  | ok
  | unsupported
  | error
  deriving DecidableEq, Repr

/-- `update_kernel_wakelock_status`. -/
def updateKernelWakelockStatus (s : State) (domain : Domain) (kernel : Kernel)
    (o : DeinitOutcome) : Bool × State :=
  match kernel with
  | .ok => (true, s)
  | .unsupported =>
      (true, { s with
        enable := Function.update s.enable domain 0
        wakelock := (fastrpcWakeLockDeinit s.wakelock o).2 })
  | .error => (false, s)

/-- `wakelock_control`. -/
def wakelockControl (s : State) (domain : Domain) (wlEnable : ℕ) (ready : Bool) (kernel : Kernel)
    (o : DeinitOutcome) : Bool × State :=
  if s.enable domain = wlEnable then (true, s)
  else
    let r := if wlEnable ≠ 0 then fastrpcWakeLockInit s.wakelock ready
      else fastrpcWakeLockDeinit s.wakelock o
    let s := { s with wakelock := r.2 }
    if !r.1 then (false, s)
    else
      let q := if s.opened domain then updateKernelWakelockStatus s domain kernel o else (true, s)
      if !q.1 then (false, q.2)
      else (true, { q.2 with enable := Function.update q.2.enable domain wlEnable })

/-- `domain_deinit`. -/
def domainDeinit (s : State) (domain : Domain) : State :=
  if s.opened domain then
    { s with
      firstRevrpcDone := Function.update s.firstRevrpcDone domain false
      opened := Function.update s.opened domain false }
  else s

/-- The part of `domain_init` after `remote_init`, which has opened the device.  When it fails the
session is closed again. -/
def domainInit (s : State) (domain : Domain) (kernel : Kernel) (o : DeinitOutcome) : State :=
  let s := { s with opened := Function.update s.opened domain true }
  if s.enable domain ≠ 0 then
    let q := updateKernelWakelockStatus s domain kernel o
    if q.1 then q.2 else domainDeinit q.2 domain
  else s

/-! ### The pieces of a call -/

/-- `is_first_reverse_rpc_call`. -/
def isFirstReverseRpcCall (s : State) (domain : Domain) (reverse : Bool) : Bool × State :=
  if reverse && s.opened domain then
    if s.firstRevrpcDone domain then (false, s)
    else (true, { s with firstRevrpcDone := Function.update s.firstRevrpcDone domain true })
  else (false, s)

/-- `if (!fastrpc_wake_lock()) wake_lock = 1`. -/
def takeLock (s : State) (written : Bool) : Bool × State :=
  let r := fastrpcWakeLock s.wakelock written
  (r.1, { s with wakelock := r.2 })

/-- `fastrpc_wake_unlock()`. -/
def giveLock (s : State) (written : Bool) : State :=
  { s with wakelock := (fastrpcWakeUnlock s.wakelock written).2 }

/-- The lock at the start of a call: the value of `wake_lock`. -/
def enterLock (s : State) (domain : Domain) (reverse written : Bool) : Bool × State :=
  if s.enable domain ≠ 0 then
    if !reverse then takeLock s written
    else
      let r := isFirstReverseRpcCall s domain reverse
      if r.1 then takeLock r.2 written else (true, r.2)
  else (false, s)

/-- The lock before the `ioctl`. -/
def beforeIoctl (s : State) (wakeLock written : Bool) : State :=
  if wakeLock then giveLock s written else s

/-- The lock after the `ioctl`. -/
def afterIoctl (s : State) (domain : Domain) (written : Bool) : Bool × State :=
  if s.enable domain ≠ 0 then takeLock s written else (false, s)

/-- The lock at the end. -/
def leaveLock (s : State) (reverse wakeLock written : Bool) : State :=
  if wakeLock && !reverse then giveLock s written else s

/-! ### What the pieces do -/

/-- The files are open while the lock is initialised, and nothing is counted while it is not. -/
structure Lock.Ok (w : Lock) : Prop where
  files : w.initDone = true → w.lock = true ∧ w.unlock = true ∧ w.deinitStarted = false
  off : w.initDone = false → w.count = 0

theorem Lock.ok_new : Lock.new.Ok := ⟨fun h => absurd h (by decide), fun _ => rfl⟩

section Pieces

variable {w : Lock} {s : State} {domain : Domain} {written : Bool} {o : DeinitOutcome}

/-- A successful lock is counted; one that fails changes nothing. -/
theorem fastrpcWakeLock_cases (w : Lock) (written : Bool) :
    fastrpcWakeLock w written = (false, w) ∨
      w.initDone = true ∧ fastrpcWakeLock w written =
        (true, { w with count := w.count + 1, locked := w.locked + 1 }) := by
  unfold fastrpcWakeLock
  cases hinit : w.initDone with
  | false => exact Or.inl rfl
  | true =>
      simp only [Bool.not_true, Bool.false_eq_true, if_false]
      split_ifs
      · exact Or.inl rfl
      · exact Or.inl rfl
      · exact Or.inr ⟨trivial, rfl⟩

/-- An unlock of a lock that is held takes one from the count. -/
theorem fastrpcWakeUnlock_held (hinit : w.initDone = true) (hcount : w.count ≠ 0)
    (hwritten : written = true ∨ w.count ≠ 1) :
    fastrpcWakeUnlock w written =
      (true, { w with count := w.count - 1, unlocked := w.unlocked + 1 }) := by
  have hfail : ¬ (w.count = 1 ∧ w.unlock = true ∧ written = false) := by
    rintro ⟨hone, _, hw⟩
    rcases hwritten with hwritten | hwritten
    · rw [hw] at hwritten; exact nomatch hwritten
    · exact hwritten hone
  simp only [fastrpcWakeUnlock, hinit, Bool.not_true, Bool.false_eq_true, if_false, if_neg hcount,
    if_neg hfail]

/-- When its write fails, the last unlock leaves the count. -/
theorem fastrpcWakeUnlock_fails (hinit : w.initDone = true) (hcount : w.count = 1)
    (hunlock : w.unlock = true) :
    fastrpcWakeUnlock w false = (false, { w with unlocked := w.unlocked + 1 }) := by
  simp [fastrpcWakeUnlock, hinit, hcount, hunlock]

/-- The loop gives back every count. -/
theorem releaseLoop_held (n : ℕ) (hinit : w.initDone = true) (hcount : w.count = n)
    (hwritten : written = true ∨ n = 0) :
    releaseLoop written n w = { w with count := 0, unlocked := w.unlocked + n } := by
  induction n generalizing w with
  | zero =>
      obtain ⟨lock, unlock, count, initDone, deinitStarted, locked, unlocked⟩ := w
      simp only at hcount
      subst hcount
      rfl
  | succ n ih =>
      have hw : written = true := hwritten.resolve_right (Nat.succ_ne_zero n)
      have hne : w.count ≠ 0 := by omega
      have hrest := ih (w := { w with count := w.count - 1, unlocked := w.unlocked + 1 }) hinit
        (by simp only; omega) (Or.inl hw)
      simp only [releaseLoop, if_neg hne, fastrpcWakeUnlock_held hinit hne (Or.inl hw), if_true, hrest]
      congr 1
      omega

/-- When the write of the last unlock fails, one count stays. -/
theorem releaseLoop_fails (n : ℕ) (hinit : w.initDone = true) (hunlock : w.unlock = true)
    (hcount : w.count = n + 1) :
    releaseLoop false (n + 1) w = { w with count := 1, unlocked := w.unlocked + (n + 1) } := by
  induction n generalizing w with
  | zero =>
      have hne : w.count ≠ 0 := by omega
      simp only [releaseLoop, if_neg hne, fastrpcWakeUnlock_fails hinit hcount hunlock,
        Bool.false_eq_true, if_false]
      obtain ⟨lock, unlock, count, initDone, deinitStarted, locked, unlocked⟩ := w
      simp only at hcount
      subst hcount
      rfl
  | succ n ih =>
      have hne : w.count ≠ 0 := by omega
      have hrest := ih (w := { w with count := w.count - 1, unlocked := w.unlocked + 1 }) hinit
        hunlock (by simp only; omega)
      rw [releaseLoop, if_neg hne]
      have hheld : fastrpcWakeUnlock w false = _ := fastrpcWakeUnlock_held hinit hne (Or.inr (by omega))
      simp only [hheld, if_true, hrest]
      congr 1
      omega

theorem fastrpcWakeLockDeinit_off (h : w.initDone = false) :
    fastrpcWakeLockDeinit w o = (true, w) := by
  simp [fastrpcWakeLockDeinit, h]

/-- **Deinitialisation** gives back every count and returns what the second `close` does. -/
theorem fastrpcWakeLockDeinit_on (hok : w.Ok) (hinit : w.initDone = true)
    (hwritten : o.written = true ∨ w.count = 0) :
    fastrpcWakeLockDeinit w o = (o.closedUnlock,
      ⟨!o.closedLock, !o.closedUnlock, 0, false, true, w.locked, w.unlocked + w.count⟩) := by
  obtain ⟨hlock, hunlock, _⟩ := hok.files hinit
  obtain ⟨lock, unlock, count, initDone, deinitStarted, locked, unlocked⟩ := w
  simp only at hlock hunlock hinit hwritten
  subst hlock hunlock hinit
  have hrel := releaseLoop_held (w := ⟨true, true, count, true, true, locked, unlocked⟩) count rfl
    rfl hwritten
  simp only [fastrpcWakeLockDeinit, fastrpcWakeLockRelease, hrel, Bool.not_true,
    Bool.false_eq_true, if_false, if_true, Bool.true_and]

/-- When its last unlock fails, a count is lost. -/
theorem fastrpcWakeLockDeinit_fails (hok : w.Ok) (hinit : w.initDone = true)
    (hwritten : o.written = false) (hcount : w.count ≠ 0) :
    fastrpcWakeLockDeinit w o = (o.closedUnlock,
      ⟨!o.closedLock, !o.closedUnlock, 1, false, true, w.locked, w.unlocked + w.count⟩) := by
  obtain ⟨hlock, hunlock, _⟩ := hok.files hinit
  obtain ⟨lock, unlock, count, initDone, deinitStarted, locked, unlocked⟩ := w
  simp only at hlock hunlock hinit hcount
  subst hlock hunlock hinit
  obtain ⟨n, rfl⟩ := Nat.exists_eq_succ_of_ne_zero hcount
  have hrel := releaseLoop_fails (w := ⟨true, true, n + 1, true, true, locked, unlocked⟩) n rfl rfl
    rfl
  simp only [fastrpcWakeLockDeinit, fastrpcWakeLockRelease, hwritten, Nat.succ_eq_add_one, hrel,
    Bool.not_true, Bool.false_eq_true, if_false, if_true, Bool.true_and]

/-- Deinitialisation leaves the lock off. -/
theorem fastrpcWakeLockDeinit_initDone (w : Lock) (o : DeinitOutcome) :
    (fastrpcWakeLockDeinit w o).2.initDone = false := by
  unfold fastrpcWakeLockDeinit
  cases hinit : w.initDone with
  | false => simpa using hinit
  | true => rfl

/-- After a successful initialisation the files are open; a failing one leaves the lock off. -/
theorem fastrpcWakeLockInit_ok (hok : w.Ok) (ready : Bool) :
    (fastrpcWakeLockInit w ready).2.Ok ∧
      (fastrpcWakeLockInit w ready).2.count = w.count ∧
      (fastrpcWakeLockInit w ready).2.locked = w.locked ∧
      (fastrpcWakeLockInit w ready).2.unlocked = w.unlocked ∧
      (fastrpcWakeLockInit w ready).2.initDone = (w.initDone || ready) ∧
      (fastrpcWakeLockInit w ready).1 = (w.initDone || ready) := by
  unfold fastrpcWakeLockInit
  cases hinit : w.initDone with
  | true => simpa [hinit] using hok
  | false =>
      have hzero := hok.off hinit
      cases ready with
      | true => exact ⟨⟨fun _ => ⟨rfl, rfl, rfl⟩, fun h => nomatch h⟩, rfl, rfl, rfl, rfl, rfl⟩
      | false =>
          exact ⟨⟨fun h => absurd h Bool.false_ne_true, fun _ => hzero⟩, rfl, rfl, rfl, rfl, rfl⟩

end Pieces

end FastRpc.WakeLock
