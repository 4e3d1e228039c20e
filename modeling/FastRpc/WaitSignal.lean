import FastRpc.Basic

/-! # `wait_signal_locked` without driver signalling

The wait reads the packet (or space) count once and sleeps on the condition variable until the
count differs.  Its loop is cut where the mutex is released: `waitEnter` is the code from the
call to the first `pthread_cond_wait` and `waitResume` the code from a return of
`pthread_cond_wait` or `pthread_cond_timedwait` (without a timeout) to the next one; both say
either how the function returns or that it goes (back) to sleep.  The two branches of the source
test the cancel bit at different places, the timed one before each wait and the untimed one after
it. -/

namespace FastRpc

/-- How `wait_signal_locked` returns: a new count, `AEE_EINTERRUPTED` or `AEE_EEXPIRED`. -/
inductive WaitResult
  | success
  | interrupted
  | expired
  deriving DecidableEq, Repr

/-- The head of the loop: `none` is a call of `pthread_cond_wait`. -/
def waitHead (timed : Bool) (c count : ℕ) (cancel : Bool) : Option WaitResult :=
  if c = count then
    if timed && cancel then some .interrupted else none
  else some .success

/-- From the call on; the count that the wait compares with is read here. -/
def waitEnter (timed : Bool) (count : ℕ) (cancel : Bool) : Option WaitResult :=
  waitHead timed count count cancel

/-- From a return of the condition wait on. -/
def waitResume (timed : Bool) (c count : ℕ) (cancel : Bool) : Option WaitResult :=
  if !timed && cancel then some .interrupted else waitHead timed c count cancel

/-- An untimed wait always sleeps first. -/
@[simp] theorem waitEnter_untimed (count : ℕ) (cancel : Bool) :
    waitEnter false count cancel = none := by
  simp [waitEnter, waitHead]

@[simp] theorem waitEnter_timed (count : ℕ) (cancel : Bool) :
    waitEnter true count cancel = if cancel then some .interrupted else none := by
  simp [waitEnter, waitHead]

/-- No thread goes back to sleep after a cancellation. -/
theorem waitResume_cancelled (timed : Bool) (c count : ℕ) : waitResume timed c count true ≠ none := by
  cases timed
  · simp [waitResume]
  · simp only [waitResume, waitHead, Bool.not_true, Bool.false_and, Bool.false_eq_true, if_false,
      Bool.and_self, if_true]
    split_ifs <;> simp

end FastRpc
