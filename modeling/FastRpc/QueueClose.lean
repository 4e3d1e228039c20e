import FastRpc.EarlyExit
import FastRpc.MultidomainQueue

/-! # The result of closing a queue

`dspqueue_close` releases one part of a queue after the other and jumps to `bail` where a call fails.  The
state keeps which parts are released, and notes each part that is used after that (`faults`); what the
calls answer is a parameter.

Two codes are let pass on the way, `AEE_EBADSTATE` of the driver signals and `ESRCH` of the callback thread,
and stay in `nErr`: a close that has freed the queue may return them.  A close that fails after the callback
thread was joined, or after the queue was destroyed on the DSP, leaves a queue that cannot be closed again.
`Proceeds` and `Answered` are the condition under which the code is right. -/

namespace FastRpc.QueueClose

open EarlyExit MultidomainQueue

/-! ### Data -/

def aeeEBadState : ℤ := 0xD

def aeeERpc : ℤ := 0x200

def aeeEInvalidDomain : ℤ := 0x39

def aeeEConnReset : ℤ := 104

/-- The codes of `pthread_join`. -/
def eSrch : ℤ := 3

def eInval : ℤ := 22

def eDeadlk : ℤ := 35

/-- What belongs to a queue on one domain; `memory` is the shared memory with its header, `sync` the mutexes
and condition variables. -/
inductive Resource
  | object
  | memory
  | mapping
  | dspQueue
  | errorThread
  | packetThread
  | signal (i : Fin 4)
  | sync
  deriving DecidableEq, Repr

/-- The fields of a queue that do not change. -/
structure Queue where
  validDomain : Bool
  haveDriverSignaling : Bool
  packetCallback : Bool
  deriving DecidableEq, Repr

/-- The entry of a queue in `queues[]`. -/
inductive Slot
  | unused
  | invalid
  | used
  deriving DecidableEq, Repr

/-- A queue, its place in the table, and the variable `nErr`. -/
structure CloseState where
  released : Resource → Bool
  faults : List Resource
  errorCallbackThread : Bool
  slot : Slot
  numQueues : ℕ
  nErr : ℤ

/-- What a close finds and what its calls answer; `ret` is what the callback thread returned. -/
structure Answers where
  domainQueues : Bool
  dspError : ℤ
  isImported : ℤ × Bool
  queueCountSame : Bool
  joinErrorThread : ℤ
  cancelWait : Fin 4 → ℤ
  joinPacketThread : ℤ
  ret : ℤ
  destroyQueue : ℤ
  munmap : ℤ
  destroySignal : Fin 4 → ℤ

/-! ### The call -/

/-- `dspqueue_close` before `bail`. -/
abbrev CloseM := EarlyExit CloseState

/-- A use of a part of the queue. -/
def CloseState.use (r : Resource) (s : CloseState) : CloseState :=
  if s.released r then { s with faults := s.faults ++ [r] } else s

/-- The end of a part of the queue. -/
def CloseState.release (r : Resource) (s : CloseState) : CloseState :=
  { s.use r with released := Function.update s.released r true }

def use (r : Resource) : CloseM PUnit := update (CloseState.use r)

def release (r : Resource) : CloseM PUnit := update (CloseState.release r)

def setNErr (nErr : ℤ) : CloseM PUnit := update (fun s => { s with nErr := nErr })

/-- `VERIFYC(cond, code)`. -/
def verifyc (cond : Bool) (code : ℤ) : CloseM PUnit :=
  if cond then pure ⟨⟩ else do
    setNErr code
    failure

/-- `nErr = ..; if (nErr && nErr != tolerated) goto bail;` -/
def tolerate (nErr tolerated : ℤ) : CloseM PUnit := do
  setNErr nErr
  if nErr ≠ 0 ∧ nErr ≠ tolerated then failure else pure ⟨⟩

/-- `VERIFY((nErr = ..) == 0)`. -/
def verify (nErr : ℤ) : CloseM PUnit := tolerate nErr 0

variable (q : Queue) (a : Answers)

/-- The question whether the queue is open on the DSP. -/
def checkImported : CloseM PUnit :=
  if a.dspError = 0 then do
    use .dspQueue
    verify a.isImported.1
    verifyc (!a.isImported.2) aeeEBadParm
  else pure ⟨⟩

/-- Everything in front of the first change. -/
def checks : CloseM PUnit := do
  use .object
  verifyc q.validDomain aeeEInvalidDomain
  verifyc a.domainQueues aeeERpc
  checkImported a
  use .memory
  verifyc a.queueCountSame aeeERpc

/-- The join of the error callback thread. -/
def joinErrorThread : CloseM PUnit := do
  let s ← get
  if s.errorCallbackThread then
    if a.joinErrorThread = eDeadlk ∨ a.joinErrorThread = eInval then do
      use .errorThread
      update (fun s => { s with nErr := aeeERpc, errorCallbackThread := false })
      failure
    else do
      release .errorThread
      update (fun s => { s with nErr := 0, errorCallbackThread := false })
  else pure ⟨⟩

/-- The cancellation of all waits. -/
def cancelWaits : CloseM PUnit :=
  if q.haveDriverSignaling then
    if a.dspError ≠ aeeEConnReset then
      (List.finRange 4).forM (fun i => do
        use (.signal i)
        tolerate (a.cancelWait i) aeeEBadState)
    else pure ⟨⟩
  else use .sync

/-- The join of the packet callback thread. -/
def joinPacketThread : CloseM PUnit :=
  if q.packetCallback then do
    use .packetThread
    tolerate a.joinPacketThread eSrch
    release .packetThread
    if a.ret = 0 then pure ⟨⟩ else do
      update (fun s => { s with nErr := if s.nErr = 0 then -1 else s.nErr })
      failure
  else pure ⟨⟩

/-- The end of the queue on the DSP and of the mapping; with an error of the DSP they are gone with its
process. -/
def destroyOnDsp : CloseM PUnit :=
  if a.dspError ≠ 0 then do
    release .dspQueue
    release .mapping
  else do
    verify a.destroyQueue
    release .dspQueue
    verify a.munmap
    release .mapping

/-- The end of a driver signal; after a restart of the subsystem it is gone with the process. -/
def destroySignal (i : Fin 4) : CloseM PUnit :=
  if a.dspError ≠ aeeEConnReset then do
    tolerate (a.destroySignal i) aeeEBadState
    release (.signal i)
  else release (.signal i)

/-- The end of the driver signals. -/
def destroySignals : CloseM PUnit :=
  if q.haveDriverSignaling then (List.finRange 4).forM (destroySignal a) else pure ⟨⟩

/-- The end of the queue object, and of its place in the table. -/
def freeObject : CloseM PUnit := do
  release .sync
  update (fun s => { s with slot := .unused, numQueues := s.numQueues - 1 })
  release .object

/-- `dspqueue_close` of a queue on one domain. -/
def dspqueueClose : CloseM PUnit := do
  setNErr 0
  checks q a
  update (fun s => { s with slot := .invalid })
  joinErrorThread a
  cancelWaits q a
  joinPacketThread q a
  destroyOnDsp a
  release .memory
  destroySignals q a
  freeObject

/-- The state that a close leaves. -/
def closed (s : CloseState) : CloseState := (dspqueueClose q a).leaves s

/-! ### What the result should say -/

/-- An open queue: nothing that it has is released, and it is counted.  An earlier close may have failed. -/
structure Open (s : CloseState) : Prop where
  live : ∀ r, r ≠ .errorThread → s.released r = false
  errorThread : s.errorCallbackThread = true → s.released .errorThread = false
  slot : s.slot ≠ .unused
  counted : 0 < s.numQueues
  faults : s.faults = []

/-- The queue is there and counted, and can be closed again without a use of a released part. -/
structure Kept (s t : CloseState) : Prop where
  object : t.released .object = false
  slot : t.slot ≠ .unused
  counted : t.numQueues = s.numQueues
  again : ∀ a, (closed q a t).faults = []

/-- Everything that the queue has is released, and its slot is given back. -/
structure FullyReleased (s t : CloseState) : Prop where
  parts : ∀ r, (∀ i, r = .signal i → q.haveDriverSignaling = true) →
    (r = .packetThread → q.packetCallback = true) → r ≠ .errorThread → t.released r = true
  errorThread : t.errorCallbackThread = false
  slot : t.slot = .unused
  counted : t.numQueues + 1 = s.numQueues
  faults : t.faults = []

/-- The code of the close says what has become of the queue. -/
structure Truthful (s : CloseState) : Prop where
  error : (closed q a s).nErr ≠ 0 → Kept q s (closed q a s)
  success : (closed q a s).nErr = 0 → FullyReleased q s (closed q a s)

/-- The close gets as far as the join of the packet callback thread, and past it. -/
structure Proceeds (s : CloseState) : Prop where
  validDomain : q.validDomain = true
  domainQueues : a.domainQueues = true
  imported : a.dspError = 0 → a.isImported = (0, false)
  queueCount : a.queueCountSame = true
  errorThread : s.errorCallbackThread = true → a.joinErrorThread ≠ eDeadlk ∧ a.joinErrorThread ≠ eInval
  cancelled : q.haveDriverSignaling = true → a.dspError ≠ aeeEConnReset →
    ∀ i, a.cancelWait i = 0 ∨ a.cancelWait i = aeeEBadState
  joined : q.packetCallback = true → a.joinPacketThread = 0 ∨ a.joinPacketThread = eSrch

/-- From there on, the calls answer so that the code is right: the callback thread has returned `0`; a
failure to destroy the queue on the DSP comes before anything is released; and the code that is left at the
end is no tolerated one. -/
structure Answered : Prop where
  ret : q.packetCallback = true → a.ret = 0
  destroyed : a.dspError = 0 → a.destroyQueue ≠ 0 → q.packetCallback = false
  unmapped : a.dspError = 0 → a.destroyQueue = 0 → a.munmap = 0
  signals : a.dspError ≠ 0 ∨ a.destroyQueue = 0 → q.haveDriverSignaling = true →
    a.dspError ≠ aeeEConnReset →
    (∀ i, a.destroySignal i = 0 ∨ a.destroySignal i = aeeEBadState) ∧ a.destroySignal (.last 3) = 0
  joined : a.dspError ≠ 0 → q.haveDriverSignaling = false ∨ a.dspError = aeeEConnReset →
    q.packetCallback = true → a.joinPacketThread = 0

/-- A queue on one domain, and what its close finds. -/
structure Member where
  queue : Queue
  answers : Answers
  state : CloseState

/-- The state that the close of a member leaves. -/
def Member.closed (m : Member) : CloseState := QueueClose.closed m.queue m.answers m.state

/-- The close of a queue over several domains. -/
def closeAll (mdq : Mdq) (members : ℕ → Member) : Traced MultidomainQueue.Event MultidomainQueue.Fault ℤ :=
  dspqueueMultidomainClose (some mdq) true (fun k => (members k).closed.nErr)

/-- The domains of a queue over several domains. -/
def domains (mdq : Mdq) (queues : List (Option ℕ)) : List ℕ := present queues (List.range mdq.numDomainIds)

/-- An open queue over several domains: its array is there, and has an open queue for each domain. -/
structure AllOpen (mdq : Mdq) (queues : List (Option ℕ)) (members : ℕ → Member) : Prop where
  isMdq : mdq.isMdq = true
  array : mdq.queues = some queues
  distinct : (domains mdq queues).Nodup
  domains : ∀ k ∈ domains mdq queues, Open (members k).state

/-- The code says what has become of the object and of the queues of the domains. -/
structure AllTruthful (mdq : Mdq) (queues : List (Option ℕ)) (members : ℕ → Member) : Prop where
  error : ∀ nErr, (closeAll mdq members).result = .ok nErr → nErr ≠ 0 →
    Event.free .object ∉ (closeAll mdq members).trace ∧
      ∀ k ∈ domains mdq queues, Kept (members k).queue (members k).state (members k).closed
  success : (closeAll mdq members).result = .ok 0 →
    (∀ b, b = .object ∨ b ∈ mdq.arrays → Event.free b ∈ (closeAll mdq members).trace) ∧
      Event.mutexDestroy ∈ (closeAll mdq members).trace ∧
      ∀ k ∈ domains mdq queues, FullyReleased (members k).queue (members k).state (members k).closed

/-- The queue on a domain is closed with the code `0`. -/
structure Member.Succeeds (m : Member) : Prop where
  proceeds : Proceeds m.queue m.answers m.state
  answered : Answered m.queue m.answers
  destroyed : m.answers.dspError = 0 → m.answers.destroyQueue = 0

/-- The queue that is closed. -/
inductive AnyQueue
  | domain (m : Member)
  | multidomain (mdq : Mdq) (queues : List (Option ℕ)) (members : ℕ → Member)

def AnyQueue.IsOpen : AnyQueue → Prop
  | .domain m => Open m.state
  | .multidomain mdq queues members => AllOpen mdq queues members

def AnyQueue.TellsTruth : AnyQueue → Prop
  | .domain m => Truthful m.queue m.answers m.state
  | .multidomain mdq queues members => AllTruthful mdq queues members

/-- The calls of the close answer so that its code is right. -/
def AnyQueue.WellAnswered : AnyQueue → Prop
  | .domain m => Proceeds m.queue m.answers m.state → Answered m.queue m.answers
  | .multidomain mdq queues members => ∀ k ∈ domains mdq queues, (members k).Succeeds

/-! ### The pieces of the call -/

section Pieces

variable {q a} {s : CloseState} {r : Resource} {n : ℕ} {R : Resource → Prop}

theorem use_live (h : s.released r = false) : s.use r = s := by
  unfold CloseState.use
  rw [h]
  rfl

theorem release_live (h : s.released r = false) :
    s.release r = { s with released := Function.update s.released r true } := by
  unfold CloseState.release
  rw [use_live h]

/-! What a release changes. -/

@[simp] theorem released_release (r r' : Resource) (s : CloseState) :
    (s.release r).released r' = if r' = r then true else s.released r' := by
  unfold CloseState.release
  dsimp only
  rw [Function.update_apply]

@[simp] theorem errorCallbackThread_release (r : Resource) (s : CloseState) :
    (s.release r).errorCallbackThread = s.errorCallbackThread := by
  unfold CloseState.release CloseState.use
  split_ifs <;> rfl

@[simp] theorem slot_release (r : Resource) (s : CloseState) : (s.release r).slot = s.slot := by
  unfold CloseState.release CloseState.use
  split_ifs <;> rfl

@[simp] theorem numQueues_release (r : Resource) (s : CloseState) : (s.release r).numQueues = s.numQueues := by
  unfold CloseState.release CloseState.use
  split_ifs <;> rfl

@[simp] theorem nErr_release (r : Resource) (s : CloseState) : (s.release r).nErr = s.nErr := by
  unfold CloseState.release CloseState.use
  split_ifs <;> rfl

theorem faults_release (h : s.released r = false) : (s.release r).faults = s.faults := by
  rw [release_live h]

theorem ends_use (h : s.released r = false) : Ends (use r) s (some ⟨⟩) s := ⟨rfl, use_live h⟩

theorem ends_release (s : CloseState) (r : Resource) : Ends (release r) s (some ⟨⟩) (s.release r) := ⟨rfl, rfl⟩

theorem ends_verifyc {cond : Bool} {code : ℤ} (h : cond = true) :
    Ends (verifyc cond code) s (some ⟨⟩) s := by
  unfold verifyc
  rw [if_pos h]
  exact ends_pure _ _

theorem ends_verifyc_exit {cond : Bool} (code : ℤ) (h : cond = false) :
    Ends (verifyc cond code) s none { s with nErr := code } := by
  unfold verifyc
  rw [h]
  exact (ends_update _ _).bind (ends_failure _)

theorem ends_tolerate {nErr tolerated : ℤ} (h : nErr = 0 ∨ nErr = tolerated) :
    Ends (tolerate nErr tolerated) s (some ⟨⟩) { s with nErr := nErr } := by
  refine (ends_update _ _).bind ?_
  rw [if_neg (by tauto)]
  exact ends_pure _ _

theorem ends_tolerate_exit {nErr tolerated : ℤ} (h : ¬ (nErr = 0 ∨ nErr = tolerated)) :
    Ends (tolerate nErr tolerated) s none { s with nErr := nErr } := by
  refine (ends_update _ _).bind ?_
  rw [if_pos (by tauto)]
  exact ends_failure _

/-- The checks in front of the first change. -/
def ChecksPass (q : Queue) (a : Answers) : Prop :=
  q.validDomain = true ∧ a.domainQueues = true ∧ (a.dspError = 0 → a.isImported = (0, false)) ∧
    a.queueCountSame = true

theorem checkImported_ends (hdsp : a.dspError = 0 → s.released .dspQueue = false) (hs : s.nErr = 0)
    (h : a.dspError = 0 → a.isImported = (0, false)) : Ends (checkImported a) s (some ⟨⟩) s := by
  unfold checkImported
  split_ifs with hdspError
  · rw [h hdspError]
    refine (ends_use (hdsp hdspError)).bind ((ends_tolerate (.inl rfl)).bind ?_)
    have hsame : { s with nErr := 0 } = s := by rw [← hs]
    dsimp only
    rw [hsame]
    exact ends_verifyc rfl
  · exact ends_pure _ _

theorem checkImported_exit (hdsp : a.dspError = 0 → s.released .dspQueue = false)
    (h : ¬ (a.dspError = 0 → a.isImported = (0, false))) :
    ∃ nErr ≠ 0, Ends (checkImported a) s none { s with nErr := nErr } := by
  obtain ⟨hdspError, himported⟩ := Classical.not_imp.mp h
  unfold checkImported
  rw [if_pos hdspError]
  by_cases hcode : a.isImported.1 = 0
  · have hopen : a.isImported.2 = true := by
      by_contra hclosed
      exact himported (Prod.ext hcode (eq_false_of_ne_true hclosed))
    exact ⟨aeeEBadParm, by decide, (ends_use (hdsp hdspError)).bind ((ends_tolerate (.inl hcode)).bind
      (ends_verifyc_exit aeeEBadParm (by rw [hopen]; rfl)))⟩
  · exact ⟨a.isImported.1, hcode,
      (ends_use (hdsp hdspError)).bind ((ends_tolerate_exit (by tauto)).exit _)⟩

theorem checks_ends (hobject : s.released .object = false) (hmemory : s.released .memory = false)
    (hdsp : a.dspError = 0 → s.released .dspQueue = false) (hs : s.nErr = 0) (h : ChecksPass q a) :
    Ends (checks q a) s (some ⟨⟩) s := by
  obtain ⟨hdomain, hqueues, himported, hcount⟩ := h
  exact (ends_use hobject).bind ((ends_verifyc hdomain).bind ((ends_verifyc hqueues).bind
    ((checkImported_ends hdsp hs himported).bind ((ends_use hmemory).bind (ends_verifyc hcount)))))

theorem checks_exit (hobject : s.released .object = false) (hmemory : s.released .memory = false)
    (hdsp : a.dspError = 0 → s.released .dspQueue = false) (hs : s.nErr = 0) (h : ¬ ChecksPass q a) :
    ∃ nErr ≠ 0, Ends (checks q a) s none { s with nErr := nErr } := by
  unfold checks
  cases hdomain : q.validDomain with
  | false =>
      exact ⟨aeeEInvalidDomain, by decide,
        (ends_use hobject).bind ((ends_verifyc_exit aeeEInvalidDomain rfl).exit _)⟩
  | true =>
      cases hqueues : a.domainQueues with
      | false =>
          exact ⟨aeeERpc, by decide,
            (ends_use hobject).bind ((ends_verifyc rfl).bind ((ends_verifyc_exit aeeERpc rfl).exit _))⟩
      | true =>
          by_cases himported : a.dspError = 0 → a.isImported = (0, false)
          · have hcount : a.queueCountSame = false :=
              eq_false_of_ne_true fun hcount => h ⟨hdomain, hqueues, himported, hcount⟩
            exact ⟨aeeERpc, by decide, (ends_use hobject).bind ((ends_verifyc rfl).bind
              ((ends_verifyc rfl).bind ((checkImported_ends hdsp hs himported).bind
                ((ends_use hmemory).bind (ends_verifyc_exit aeeERpc hcount)))))⟩
          · obtain ⟨nErr, hne, hends⟩ := checkImported_exit hdsp himported
            exact ⟨nErr, hne, (ends_use hobject).bind ((ends_verifyc rfl).bind
              ((ends_verifyc rfl).bind (hends.exit _)))⟩

/-- The state behind the join of the error callback thread. -/
def joined (s : CloseState) : CloseState :=
  if s.errorCallbackThread then
    { s.release .errorThread with nErr := 0, errorCallbackThread := false }
  else s

theorem joinErrorThread_ends
    (h : s.errorCallbackThread = true → a.joinErrorThread ≠ eDeadlk ∧ a.joinErrorThread ≠ eInval) :
    Ends (joinErrorThread a) s (some ⟨⟩) (joined s) := by
  refine Ends.get ?_
  unfold joined
  cases hthread : s.errorCallbackThread with
  | false => exact ends_pure _ _
  | true =>
      obtain ⟨hdeadlk, hinval⟩ := h hthread
      rw [if_pos rfl, if_neg (by tauto), if_pos rfl]
      exact (ends_release _ _).bind (ends_update _ _)

theorem joinErrorThread_exit (hlive : s.errorCallbackThread = true → s.released .errorThread = false)
    (h : ¬ (s.errorCallbackThread = true → a.joinErrorThread ≠ eDeadlk ∧ a.joinErrorThread ≠ eInval)) :
    Ends (joinErrorThread a) s none { s with nErr := aeeERpc, errorCallbackThread := false } := by
  obtain ⟨hthread, hcode⟩ := Classical.not_imp.mp h
  refine Ends.get ?_
  rw [if_pos hthread, if_pos (by tauto)]
  exact (ends_use (hlive hthread)).bind ((ends_update _ _).bind (ends_failure _))

/-- A loop of calls whose codes are all let pass. -/
theorem tolerateAll_ends {code : Fin 4 → ℤ} {tolerated : ℤ} {l : List (Fin 4)}
    (hlive : ∀ i, s.released (.signal i) = false) (h : ∀ i ∈ l, code i = 0 ∨ code i = tolerated) :
    ∃ nErr, Ends (l.forM (fun i => do
        use (.signal i)
        tolerate (code i) tolerated)) s (some ⟨⟩) { s with nErr := nErr } := by
  induction l generalizing s with
  | nil => exact ⟨s.nErr, ends_pure _ _⟩
  | cons i l ih =>
      obtain ⟨hi, hl⟩ := List.forall_mem_cons.mp h
      obtain ⟨nErr, hends⟩ := ih (s := { s with nErr := code i }) hlive hl
      exact ⟨nErr, ((ends_use (hlive i)).bind (ends_tolerate hi)).bind hends⟩

theorem tolerateAll_exit {code : Fin 4 → ℤ} {tolerated : ℤ} {l : List (Fin 4)}
    (hlive : ∀ i, s.released (.signal i) = false) (h : ¬ ∀ i ∈ l, code i = 0 ∨ code i = tolerated) :
    ∃ nErr ≠ 0, Ends (l.forM (fun i => do
        use (.signal i)
        tolerate (code i) tolerated)) s none { s with nErr := nErr } := by
  induction l generalizing s with
  | nil => exact absurd (fun _ hi => absurd hi List.not_mem_nil) h
  | cons i l ih =>
      by_cases hi : code i = 0 ∨ code i = tolerated
      · have hl : ¬ ∀ i ∈ l, code i = 0 ∨ code i = tolerated := fun hl => h (List.forall_mem_cons.mpr ⟨hi, hl⟩)
        obtain ⟨nErr, hne, hends⟩ := ih (s := { s with nErr := code i }) hlive hl
        exact ⟨nErr, hne, ((ends_use (hlive i)).bind (ends_tolerate hi)).bind hends⟩
      · exact ⟨code i, fun hzero => hi (.inl hzero),
          ((ends_use (hlive i)).bind (ends_tolerate_exit hi)).exit _⟩

/-- The waits that are cancelled. -/
def CancelPass (q : Queue) (a : Answers) : Prop :=
  q.haveDriverSignaling = true → a.dspError ≠ aeeEConnReset →
    ∀ i, a.cancelWait i = 0 ∨ a.cancelWait i = aeeEBadState

theorem cancelWaits_ends (hsignals : ∀ i, s.released (.signal i) = false)
    (hsync : s.released .sync = false) (h : CancelPass q a) :
    ∃ nErr, Ends (cancelWaits q a) s (some ⟨⟩) { s with nErr := nErr } ∧
      (q.haveDriverSignaling = false ∨ a.dspError = aeeEConnReset → nErr = s.nErr) := by
  unfold cancelWaits
  cases hdriver : q.haveDriverSignaling with
  | false => exact ⟨s.nErr, ends_use hsync, fun _ => rfl⟩
  | true =>
      by_cases hreset : a.dspError = aeeEConnReset
      · refine ⟨s.nErr, ?_, fun _ => rfl⟩
        rw [if_pos rfl, if_neg (not_not.mpr hreset)]
        exact ends_pure _ _
      · obtain ⟨nErr, hends⟩ := tolerateAll_ends (l := List.finRange 4) hsignals
          (fun i _ => h hdriver hreset i)
        refine ⟨nErr, ?_, ?_⟩
        · rw [if_pos rfl, if_pos hreset]
          exact hends
        · rintro (hfalse | heq)
          · cases hfalse
          · exact absurd heq hreset

theorem cancelWaits_exit (hsignals : ∀ i, s.released (.signal i) = false) (h : ¬ CancelPass q a) :
    ∃ nErr ≠ 0, Ends (cancelWaits q a) s none { s with nErr := nErr } := by
  obtain ⟨hdriver, hrest⟩ := Classical.not_imp.mp h
  obtain ⟨hreset, hcodes⟩ := Classical.not_imp.mp hrest
  unfold cancelWaits
  rw [if_pos hdriver, if_pos hreset]
  exact tolerateAll_exit hsignals (fun hall => hcodes (fun i => hall i (List.mem_finRange i)))

/-- The state behind the join of the packet callback thread. -/
def packetJoined (q : Queue) (a : Answers) (s : CloseState) : CloseState :=
  if q.packetCallback then ({ s with nErr := a.joinPacketThread }).release .packetThread else s

theorem joinPacketThread_ends (hlive : q.packetCallback = true → s.released .packetThread = false)
    (h : q.packetCallback = true → a.joinPacketThread = 0 ∨ a.joinPacketThread = eSrch)
    (hret : q.packetCallback = true → a.ret = 0) :
    Ends (joinPacketThread q a) s (some ⟨⟩) (packetJoined q a s) := by
  unfold joinPacketThread packetJoined
  cases hcallback : q.packetCallback with
  | false => exact ends_pure _ _
  | true =>
      rw [if_pos rfl, if_pos rfl]
      refine (ends_use (hlive hcallback)).bind ((ends_tolerate (h hcallback)).bind
        ((ends_release _ _).bind ?_))
      rw [if_pos (hret hcallback)]
      exact ends_pure _ _

/-- The thread cannot be joined. -/
theorem joinPacketThread_exit (hlive : q.packetCallback = true → s.released .packetThread = false)
    (h : ¬ (q.packetCallback = true → a.joinPacketThread = 0 ∨ a.joinPacketThread = eSrch)) :
    a.joinPacketThread ≠ 0 ∧
      Ends (joinPacketThread q a) s none { s with nErr := a.joinPacketThread } := by
  obtain ⟨hcallback, hcode⟩ := Classical.not_imp.mp h
  unfold joinPacketThread
  rw [if_pos hcallback]
  exact ⟨fun hzero => hcode (.inl hzero),
    (ends_use (hlive hcallback)).bind ((ends_tolerate_exit hcode).exit _)⟩

/-- The thread is joined, and has returned an error. -/
theorem joinPacketThread_ret (hlive : s.released .packetThread = false) (hcallback : q.packetCallback = true)
    (h : a.joinPacketThread = 0 ∨ a.joinPacketThread = eSrch) (hret : a.ret ≠ 0) :
    ∃ nErr ≠ 0, Ends (joinPacketThread q a) s none { packetJoined q a s with nErr := nErr } := by
  unfold joinPacketThread packetJoined
  rw [if_pos hcallback, if_pos hcallback]
  refine ⟨if a.joinPacketThread = 0 then -1 else a.joinPacketThread, ?_, ?_⟩
  · split_ifs with hzero
    · decide
    · exact hzero
  · refine (ends_use hlive).bind ((ends_tolerate h).bind ((ends_release _ _).bind ?_))
    rw [if_neg hret]
    refine (ends_update _ _).bind ?_
    have hcode : (({ s with nErr := a.joinPacketThread } : CloseState).release .packetThread).nErr =
        a.joinPacketThread := by
      rw [release_live (s := { s with nErr := a.joinPacketThread }) hlive]
    rw [hcode]
    exact ends_failure _

/-- The state behind the end of the queue on the DSP. -/
def dspDestroyed (a : Answers) (s : CloseState) : CloseState :=
  if a.dspError = 0 then
    { ({ s with nErr := 0 } : CloseState).release .dspQueue with nErr := 0 }.release .mapping
  else (s.release .dspQueue).release .mapping

/-! What the end of the queue on the DSP changes. -/

@[simp] theorem released_dspDestroyed (a : Answers) (s : CloseState) (r : Resource) :
    (dspDestroyed a s).released r = if r = .dspQueue ∨ r = .mapping then true else s.released r := by
  unfold dspDestroyed
  by_cases hdspError : a.dspError = 0
  · rw [if_pos hdspError]
    cases r <;> simp
  · rw [if_neg hdspError]
    cases r <;> simp

@[simp] theorem errorCallbackThread_dspDestroyed (a : Answers) (s : CloseState) :
    (dspDestroyed a s).errorCallbackThread = s.errorCallbackThread := by
  unfold dspDestroyed
  split_ifs <;> simp

@[simp] theorem slot_dspDestroyed (a : Answers) (s : CloseState) : (dspDestroyed a s).slot = s.slot := by
  unfold dspDestroyed
  split_ifs <;> simp

@[simp] theorem numQueues_dspDestroyed (a : Answers) (s : CloseState) :
    (dspDestroyed a s).numQueues = s.numQueues := by
  unfold dspDestroyed
  split_ifs <;> simp

theorem faults_dspDestroyed (hqueue : s.released .dspQueue = false) (hmapping : s.released .mapping = false) :
    (dspDestroyed a s).faults = s.faults := by
  unfold dspDestroyed
  split_ifs
  all_goals
    rw [faults_release (by simp [hmapping])]
    exact faults_release hqueue

theorem destroyOnDsp_ends (h : a.dspError = 0 → a.destroyQueue = 0 ∧ a.munmap = 0) :
    Ends (destroyOnDsp a) s (some ⟨⟩) (dspDestroyed a s) := by
  unfold destroyOnDsp dspDestroyed
  by_cases hdspError : a.dspError = 0
  · obtain ⟨hdestroy, hmunmap⟩ := h hdspError
    rw [if_neg (not_not.mpr hdspError), if_pos hdspError, hdestroy, hmunmap]
    exact (ends_tolerate (.inl rfl)).bind ((ends_release _ _).bind ((ends_tolerate (.inl rfl)).bind
      (ends_release _ _)))
  · rw [if_pos hdspError, if_neg hdspError]
    exact (ends_release _ _).bind (ends_release _ _)

theorem destroyOnDsp_queue (hdspError : a.dspError = 0) (h : a.destroyQueue ≠ 0) :
    Ends (destroyOnDsp a) s none { s with nErr := a.destroyQueue } := by
  unfold destroyOnDsp
  rw [if_neg (not_not.mpr hdspError)]
  exact (ends_tolerate_exit (by tauto)).exit _

theorem destroyOnDsp_munmap (hdspError : a.dspError = 0) (hdestroy : a.destroyQueue = 0) (h : a.munmap ≠ 0) :
    Ends (destroyOnDsp a) s none
      { ({ s with nErr := 0 } : CloseState).release .dspQueue with nErr := a.munmap } := by
  unfold destroyOnDsp
  rw [if_neg (not_not.mpr hdspError), hdestroy]
  exact (ends_tolerate (.inl rfl)).bind ((ends_release _ _).bind ((ends_tolerate_exit (by tauto)).exit _))

/-- The state, as far as the release of signals does not change it. -/
structure SignalsOnly (s t : CloseState) : Prop where
  parts : ∀ r, (∀ i, r ≠ .signal i) → t.released r = s.released r
  faults : t.faults = s.faults
  errorCallbackThread : t.errorCallbackThread = s.errorCallbackThread
  slot : t.slot = s.slot
  numQueues : t.numQueues = s.numQueues

theorem SignalsOnly.refl (s : CloseState) : SignalsOnly s s := ⟨fun _ _ => rfl, rfl, rfl, rfl, rfl⟩

theorem SignalsOnly.trans {t u : CloseState} (h : SignalsOnly s t) (h' : SignalsOnly t u) : SignalsOnly s u :=
  ⟨fun r hr => (h'.parts r hr).trans (h.parts r hr), h'.faults.trans h.faults,
    h'.errorCallbackThread.trans h.errorCallbackThread, h'.slot.trans h.slot, h'.numQueues.trans h.numQueues⟩

theorem SignalsOnly.release {i : Fin 4} (nErr : ℤ) (h : s.released (.signal i) = false) :
    SignalsOnly s (({ s with nErr := nErr } : CloseState).release (.signal i)) := by
  rw [release_live (s := { s with nErr := nErr }) h]
  exact ⟨fun r hr => Function.update_of_ne (hr i) _ _, rfl, rfl, rfl, rfl⟩

theorem destroySignal_ends {i : Fin 4} (hreset : a.dspError ≠ aeeEConnReset)
    (h : a.destroySignal i = 0 ∨ a.destroySignal i = aeeEBadState) :
    Ends (destroySignal a i) s (some ⟨⟩)
      (({ s with nErr := a.destroySignal i } : CloseState).release (.signal i)) := by
  unfold destroySignal
  rw [if_pos hreset]
  exact (ends_tolerate h).bind (ends_release _ _)

/-- The code that the loop over the signals leaves. -/
def signalCode (a : Answers) (l : List (Fin 4)) (nErr : ℤ) : ℤ :=
  if a.dspError = aeeEConnReset then nErr else (l.map a.destroySignal).getLastD nErr

theorem destroyLoop_ends {l : List (Fin 4)} (hnodup : l.Nodup)
    (hlive : ∀ i ∈ l, s.released (.signal i) = false)
    (h : a.dspError ≠ aeeEConnReset → ∀ i ∈ l, a.destroySignal i = 0 ∨ a.destroySignal i = aeeEBadState) :
    ∃ t, Ends (l.forM (destroySignal a)) s (some ⟨⟩) t ∧ SignalsOnly s t ∧
      (∀ i, t.released (.signal i) = true ↔ i ∈ l ∨ s.released (.signal i) = true) ∧
      t.nErr = signalCode a l s.nErr := by
  induction l generalizing s with
  | nil => exact ⟨s, ends_pure _ _, .refl s, fun i => by simp, by unfold signalCode; split_ifs <;> rfl⟩
  | cons i l ih =>
      obtain ⟨hi, hl⟩ := List.forall_mem_cons.mp hlive
      obtain ⟨hnotin, hnodup⟩ := List.nodup_cons.mp hnodup
      have hrest : ∀ nErr : ℤ, ∀ j ∈ l,
          (({ s with nErr := nErr } : CloseState).release (.signal i)).released (.signal j) = false := by
        intro nErr j hj
        rw [released_release, if_neg (fun heq => hnotin (by cases heq; exact hj))]
        exact hl j hj
      by_cases hreset : a.dspError = aeeEConnReset
      · obtain ⟨t, hends, hsame, hreleased, hcode⟩ := ih hnodup (hrest s.nErr) (fun hne => absurd hreset hne)
        refine ⟨t, ?_, (SignalsOnly.release s.nErr hi).trans hsame, fun j => ?_, ?_⟩
        · have hfirst : Ends (destroySignal a i) s (some ⟨⟩) (s.release (.signal i)) := by
            unfold destroySignal
            rw [if_neg (not_not.mpr hreset)]
            exact ends_release _ _
          exact hfirst.bind hends
        · rw [hreleased, released_release, List.mem_cons]
          split_ifs with heq
          · cases heq
            simp
          · have hne : j ≠ i := fun hji => heq (by rw [hji])
            simp [hne]
        · rw [hcode, nErr_release]
          simp [signalCode, hreset]
      · obtain ⟨hcodei, hcodes⟩ := List.forall_mem_cons.mp (h hreset)
        obtain ⟨t, hends, hsame, hreleased, hcode⟩ := ih hnodup (hrest (a.destroySignal i)) (fun _ => hcodes)
        refine ⟨t, ?_, (SignalsOnly.release _ hi).trans hsame, fun j => ?_, ?_⟩
        · exact (destroySignal_ends hreset hcodei).bind hends
        · rw [hreleased, released_release, List.mem_cons]
          split_ifs with heq
          · cases heq
            simp
          · have hne : j ≠ i := fun hji => heq (by rw [hji])
            simp [hne]
        · rw [hcode, nErr_release]
          unfold signalCode
          rw [if_neg hreset, if_neg hreset, List.map_cons, List.getLastD_cons]

theorem destroyLoop_exit (hreset : a.dspError ≠ aeeEConnReset) {l : List (Fin 4)} (hnodup : l.Nodup)
    (hlive : ∀ i ∈ l, s.released (.signal i) = false)
    (h : ¬ ∀ i ∈ l, a.destroySignal i = 0 ∨ a.destroySignal i = aeeEBadState) :
    ∃ t, Ends (l.forM (destroySignal a)) s none t ∧ SignalsOnly s t ∧ t.nErr ≠ 0 := by
  induction l generalizing s with
  | nil => exact absurd (fun _ hi => absurd hi List.not_mem_nil) h
  | cons i l ih =>
      obtain ⟨hi, hl⟩ := List.forall_mem_cons.mp hlive
      obtain ⟨hnotin, hnodup⟩ := List.nodup_cons.mp hnodup
      by_cases hcodei : a.destroySignal i = 0 ∨ a.destroySignal i = aeeEBadState
      · have hcodes : ¬ ∀ i ∈ l, a.destroySignal i = 0 ∨ a.destroySignal i = aeeEBadState :=
          fun hall => h (List.forall_mem_cons.mpr ⟨hcodei, hall⟩)
        obtain ⟨t, hends, hsame, hne⟩ := ih (s := ({ s with nErr := a.destroySignal i }).release (.signal i))
          hnodup (fun j hj => by
            rw [released_release, if_neg (fun heq => hnotin (by cases heq; exact hj))]
            exact hl j hj) hcodes
        exact ⟨t, (destroySignal_ends hreset hcodei).bind hends, (SignalsOnly.release _ hi).trans hsame, hne⟩
      · refine ⟨{ s with nErr := a.destroySignal i }, ?_, ⟨fun _ _ => rfl, rfl, rfl, rfl, rfl⟩,
          fun hzero => hcodei (.inl hzero)⟩
        refine Ends.exit ?_ _
        unfold destroySignal
        rw [if_pos hreset]
        exact (ends_tolerate_exit hcodei).exit _

/-- The signals that are destroyed. -/
def SignalsPass (q : Queue) (a : Answers) : Prop :=
  q.haveDriverSignaling = true → a.dspError ≠ aeeEConnReset →
    ∀ i, a.destroySignal i = 0 ∨ a.destroySignal i = aeeEBadState

/-- The code behind the driver signals. -/
def signalsCode (q : Queue) (a : Answers) (nErr : ℤ) : ℤ :=
  if q.haveDriverSignaling = true ∧ a.dspError ≠ aeeEConnReset then a.destroySignal (.last 3) else nErr

theorem signalCode_all (nErr : ℤ) (hdriver : q.haveDriverSignaling = true) :
    signalCode a (List.finRange 4) nErr = signalsCode q a nErr := by
  unfold signalCode signalsCode
  by_cases hreset : a.dspError = aeeEConnReset
  · rw [if_pos hreset, if_neg (fun h => h.2 hreset)]
  · rw [if_neg hreset, if_pos ⟨hdriver, hreset⟩]
    rfl

theorem destroySignals_ends (hlive : ∀ i, s.released (.signal i) = false) (h : SignalsPass q a) :
    ∃ t, Ends (destroySignals q a) s (some ⟨⟩) t ∧ SignalsOnly s t ∧
      (q.haveDriverSignaling = true → ∀ i, t.released (.signal i) = true) ∧
      t.nErr = signalsCode q a s.nErr := by
  unfold destroySignals
  cases hdriver : q.haveDriverSignaling with
  | false =>
      refine ⟨s, ends_pure _ _, .refl s, fun hfalse => absurd hfalse Bool.false_ne_true, ?_⟩
      rw [signalsCode, if_neg (fun hboth => by simp [hdriver] at hboth)]
  | true =>
      obtain ⟨t, hends, hsame, hreleased, hcode⟩ := destroyLoop_ends (a := a) (List.nodup_finRange 4)
        (fun i _ => hlive i) (fun hreset i _ => h hdriver hreset i)
      refine ⟨t, hends, hsame, fun _ i => (hreleased i).mpr (.inl (List.mem_finRange i)), ?_⟩
      rw [hcode, signalCode_all _ hdriver]

theorem destroySignals_exit (hlive : ∀ i, s.released (.signal i) = false) (h : ¬ SignalsPass q a) :
    ∃ t, Ends (destroySignals q a) s none t ∧ SignalsOnly s t ∧ t.nErr ≠ 0 := by
  obtain ⟨hdriver, hrest⟩ := Classical.not_imp.mp h
  obtain ⟨hreset, hcodes⟩ := Classical.not_imp.mp hrest
  unfold destroySignals
  rw [if_pos hdriver]
  exact destroyLoop_exit hreset (List.nodup_finRange 4) (fun i _ => hlive i)
    (fun hall => hcodes (fun i => hall i (List.mem_finRange i)))

/-- The state that is left when the object is freed. -/
def freed (s : CloseState) : CloseState :=
  { s.release .sync with slot := .unused, numQueues := (s.release .sync).numQueues - 1 }.release .object

theorem freeObject_ends (s : CloseState) : Ends freeObject s (some ⟨⟩) (freed s) :=
  (ends_release _ _).bind ((ends_update _ _).bind (ends_release _ _))

end Pieces

end FastRpc.QueueClose
