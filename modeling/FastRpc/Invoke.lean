import FastRpc.WakeLockRuns
import FastRpc.DmaHandles
import FastRpc.FdList
import FastRpc.Listener

/-! # Remote invocation

`remote_handle_invoke_domain` checks the session, fills one `fastrpc_invoke_args` entry for each buffer
and each handle of the scalar, and gives the array to `ioctl_invoke`.  Every step that fails jumps to one
exit with the error of the moment.  When `calloc` of the array fails, this error is still `0`:
`success_only_if_executed` says that a call which returns `AEE_SUCCESS` was executed with the complete
array exactly when it does not take this exit, and `success_without_call` gives a call that does.

The pieces of the call that hold the wake lock are those of `WakeLock.lean`, and `locks_run` shows that a
call is a run of the steps of `WakeLockRuns.lean`. -/

namespace FastRpc.Invoke

open CInt FdList DmaHandles Transition

/-! ### Arguments -/

/-- An entry of `remote_arg`: a buffer.  The other reading of its bytes is a DMA handle. -/
structure RemoteArg where
  pv : ℕ
  nLen : ℕ
  deriving DecidableEq, Repr

/-- `dma.fd`, the low half of the first word. -/
def RemoteArg.dmaFd (a : RemoteArg) : ℤ := wrap a.pv

/-- `dma.offset`, the high half. -/
def RemoteArg.dmaOffset (a : RemoteArg) : ℕ := a.pv / 2 ^ 32 % 2 ^ 32

/-- `struct fastrpc_invoke_args`. -/
structure InvokeArgs where
  ptr : ℕ
  length : ℕ
  fd : ℤ
  attr : UInt32
  deriving DecidableEq, Repr

/-- `enum fastrpc_invoke_type`. -/
inductive InvokeType
  | invoke
  | attrs
  | fd
  | crc
  | perf
  deriving DecidableEq, Repr

/-- `args` and `req`. -/
structure Call where
  args : List InvokeArgs
  req : InvokeType
  deriving DecidableEq, Repr

/-- `set_args`. -/
def Call.setArgs (c : Call) (i : ℕ) (a : InvokeArgs) : Call := { c with args := c.args.set i a }

/-- `set_args_fd`. -/
def Call.setArgsFd (c : Call) (i : ℕ) (fd : ℤ) : Call :=
  { c with args := c.args.modify i (fun a => { a with fd := fd }) }

/-- `append_args_attr`. -/
def Call.appendArgsAttr (c : Call) (i : ℕ) (attr : UInt32) : Call :=
  { c with args := c.args.modify i (fun a => { a with attr := a.attr ||| attr }) }

/-- `FASTRPC_ATTR_NOVA`. -/
def attrNova : UInt32 := 256

/-- The attributes of a registered buffer that are passed on, in the order of the source:
`FASTRPC_ATTR_NON_COHERENT`, `COHERENT`, `FORCE_NOFLUSH`, `FORCE_NOINVALIDATE` and `KEEP_MAP`. -/
def passedAttrs : List UInt32 := [2, 4, 32, 64, 8]

/-- An attribute that is passed on. -/
def Call.passAttr (c : Call) (i : ℕ) (given : Bool) (attr : UInt32) : Call :=
  if given then { c.appendArgsAttr i attr with req := .attrs } else c

/-- One turn of the loop over the buffers. -/
def bufferStep (l : List MemToFd) (pra : ℕ → RemoteArg) (i : ℕ) (c : Call) : Except ℤ Call :=
  let c := c.setArgs i ⟨(pra i).pv, (pra i).nLen, -1, 0⟩
  if (pra i).nLen = 0 then .ok c
  else
    match fdlistFdFromBuf l (pra i).pv (wrap (pra i).nLen) with
    | none => .error Listener.eBadParm
    | some r =>
        let c := if r.fd ≠ -1 then { c.setArgsFd i r.fd with req := .fd } else c
        let c := c.passAttr i (r.nova ≠ 0) attrNova
        .ok (passedAttrs.foldl (fun c attr => c.passAttr i (r.attr &&& attr ≠ 0) attr) c)

/-- The first `n` turns of the loop over the buffers. -/
def buffers (l : List MemToFd) (pra : ℕ → RemoteArg) : ℕ → Call → Except ℤ Call
  | 0, c => .ok c
  | n + 1, c => buffers l pra n c >>= bufferStep l pra n

/-- One turn of the loop over the handles.  `capability` is
`dma_handle_reverse_rpc_map_capability`, and `init` the outcome of `fastrpc_init_once`. -/
def handleStep (capability init : Bool) (pra : ℕ → RemoteArg) (i : ℕ) (s : DmaTable × Call) :
    DmaTable × Call :=
  let fd := (pra i).dmaFd
  let r := s.1.unregister fd
  let table :=
    if capability ∧ r.1.2 &&& fastrpcAttrNomap ≠ 0 then
      (r.2.register init fd r.1.1 fastrpcAttrNomap).2
    else r.2
  (table, ({ s.2 with req := .attrs }.setArgs i
    ⟨(pra i).dmaOffset, r.1.1.toNat, fd, r.1.2⟩).appendArgsAttr i attrNova)

/-- The first `n` turns of the loop over the handles, which start after the buffers. -/
def handles (capability init : Bool) (pra : ℕ → RemoteArg) (bufs : ℕ) :
    ℕ → DmaTable × Call → DmaTable × Call
  | 0, s => s
  | n + 1, s => handleStep capability init pra (bufs + n) (handles capability init pra bufs n s)

/-! ### The call -/

/-- The entry of `hlist` as far as a call reads it; `deinit` says that its state is
`FASTRPC_DOMAIN_STATE_DEINIT`. -/
structure Session where
  deinit : Bool
  dev : ℤ
  setmode : Bool
  mode : ℤ
  procattrs : UInt32
  capability : Bool
  deriving DecidableEq, Repr

/-- The process: the sessions, the wake lock (whose `opened` is that the device of a session is not
`-1`), the registered buffers and handles, and what the kernel and the DSP can measure. -/
structure Process where
  hlist : Domain → Session
  locks : WakeLock.State
  fdlist : List MemToFd
  dhandles : DmaTable
  perfV2Kernel : Bool
  perfV2Dsp : Bool

/-- What the calls of the library and the kernel do: the four writes of the wake lock, `errno` after
`ioctl_setmode`, the allocations, `fastrpc_init_once` for a handle that is registered again, the result
of the `ioctl` and `errno` after it, and `errno` at the end. -/
structure Outcome where
  enterWritten : Bool
  errnoSetmode : ℤ
  args : Bool
  init : Bool
  crcLocal : Bool
  crcRemote : Bool
  perfKernel : Bool
  perfDsp : Bool
  beforeWritten : Bool
  ioctl : ℤ
  errnoIoctl : ℤ
  afterWritten : Bool
  errnoEnd : ℤ
  leaveWritten : Bool
  deriving DecidableEq, Repr

/-- `AEE_ENOMEMORY`. -/
def eNoMemory : ℤ := 0x2

/-- `AEE_EUNSUPPORTED`. -/
def eUnsupported : ℤ := 0x14

/-- `AEE_ENOTINITIALIZED`. -/
def eNotInitialized : ℤ := 0x6B

/-- `AEE_ECONNRESET`, and `ECONNRESET`. -/
def eConnReset : ℤ := 104

/-- `FASTRPC_SESSION_ID1`. -/
def fastrpcSessionId1 : ℤ := 4

/-- `fastrpc_session_dev`. -/
def fastrpcSessionDev (s : Session) : Except ℤ ℤ :=
  if s.deinit then .error eNotInitialized
  else if s.dev < 0 then .error eNotInitialized
  else .ok s.dev

/-- `ioctl_setmode`. -/
def ioctlSetmode (mode : ℤ) : ℤ := if mode = fastrpcSessionId1 then 0 else eUnsupported

/-- `convert_kernel_to_user_error`.  The cases of `ENOENT` (2) and `EBUSY` (16) fall through. -/
def convertKernelToUserError (nErr errNo : ℤ) : ℤ :=
  if ¬ (nErr = -1 ∧ errNo ≠ 0 ∧ 0 ≤ errNo ∧ errNo ≤ 135) then nErr
  else if errNo ∈ [5, 109, 99, 25, 56] then 0x200
  else if errNo ∈ [14, 44, 77, 22, 9, 52, 53, 75, 112, 17, 74] then 0xE
  else if errNo ∈ [6, 19, 126] then 0x43
  else if errNo ∈ [105, 12] then 0x2
  else if errNo ∈ [63, 122, 110, 87, 108] then 0xC
  else if errNo ∈ [107, 111] then 0x72
  else if errNo ∈ [104, 32] then 104
  else if errNo = 93 then 0x14
  else if errNo = 27 then 0x201
  else if errNo ∈ [13, 1] then 0x4E
  else 0x200

/-- `if (nErr) nErr = convert_kernel_to_user_error(nErr, errno)`. -/
def converted (nErr errNo : ℤ) : ℤ := if nErr ≠ 0 then convertKernelToUserError nErr errNo else nErr

/-- `IS_STATIC_HANDLE`. -/
def isStaticHandle (handle : UInt32) : Bool := handle ≤ 10

/-- `IS_REVERSE_RPC_CALL`. -/
def isReverseRpcCall (handle sc : UInt32) : Bool := handle = 3 ∧ sc = 0x04020200

/-- `bufs`. -/
def bufCount (sc : UInt32) : ℕ :=
  Listener.remoteScalarsInBufs sc.toNat + Listener.remoteScalarsOutBufs sc.toNat

/-- `handles`. -/
def handleCount (sc : UInt32) : ℕ :=
  Listener.remoteScalarsInHandles sc.toNat + Listener.remoteScalarsOutHandles sc.toNat

/-- The test of a bit of `procattrs` for a handle that is not static. -/
def Session.enabled (s : Session) (handle bit : UInt32) : Bool :=
  s.procattrs &&& bit ≠ 0 ∧ isStaticHandle handle = false

section Invocation

variable (p : Process) (domain : Domain) (handle sc : UInt32) (o : Outcome)

/-- `IS_CRC_CHECK_ENABLED`. -/
def crcEnabled : Bool := (p.hlist domain).enabled handle 0x4

/-- `IS_KERNEL_PERF_ENABLED`. -/
def kernelPerfEnabled : Bool := (p.hlist domain).enabled handle 0x200 && p.perfV2Kernel

/-- `IS_DSP_PERF_ENABLED`. -/
def dspPerfEnabled : Bool := (p.hlist domain).enabled handle 0x400 && p.perfV2Dsp

/-- The allocations for the checksums and the measurements. -/
def allocateMeasures (pra : Option (ℕ → RemoteArg)) (c : Call) : Except ℤ Call :=
  if crcEnabled p domain handle && !(o.crcLocal && o.crcRemote) then .error eNoMemory
  else if crcEnabled p domain handle ∧ pra.isNone ∧ 0 < Listener.remoteScalarsInBufs sc.toNat then
    .error Listener.eBadParm
  else
    let c := if crcEnabled p domain handle then { c with req := .crc } else c
    if kernelPerfEnabled p domain handle && !o.perfKernel then .error eNoMemory
    else
      let c := if kernelPerfEnabled p domain handle then { c with req := .perf } else c
      if dspPerfEnabled p domain handle && !o.perfDsp then .error eNoMemory
      else .ok (if dspPerfEnabled p domain handle then { c with req := .perf } else c)

/-- The part between the allocation of the array and the `ioctl`: the array, and the table of the
handles. -/
def fillArgs (pra : Option (ℕ → RemoteArg)) : Except ℤ Call × DmaTable :=
  let total := bufCount sc + handleCount sc
  if pra.isNone ∧ 0 < total then (.error Listener.eBadParm, p.dhandles)
  else
    let entries := pra.getD (fun _ => ⟨0, 0⟩)
    match buffers p.fdlist entries (bufCount sc) ⟨List.replicate total ⟨0, 0, 0, 0⟩, .invoke⟩ with
    | .error e => (.error e, p.dhandles)
    | .ok c =>
        let s := handles (p.hlist domain).capability o.init entries (bufCount sc) (handleCount sc)
          (p.dhandles, c)
        (allocateMeasures p domain handle sc o pra s.2, s.1)

/-- What is given to `ioctl_invoke`, and its result. -/
structure Issued where
  req : InvokeType
  handle : UInt32
  sc : UInt32
  args : List InvokeArgs
  result : ℤ
  deriving DecidableEq, Repr

/-- The result of a call, the `ioctl_invoke` it issued, and the process after it. -/
structure Result where
  nErr : ℤ
  issued : Option Issued
  process : Process

/-- `ioctl_invoke`, which refuses the requests from `INVOKE_CRC` on. -/
def ioctlInvoke (req : InvokeType) (result : ℤ) : ℤ :=
  match req with
  | .invoke | .attrs | .fd => result
  | .crc | .perf => eUnsupported

/-- The checks after the `ioctl`. -/
def checksAfter (nErr : ℤ) : ℤ :=
  if crcEnabled p domain handle && !(o.crcLocal && o.crcRemote) then eNoMemory
  else if kernelPerfEnabled p domain handle && !o.perfKernel then eNoMemory
  else if dspPerfEnabled p domain handle && !o.perfDsp then eNoMemory
  else nErr

/-- The exit. -/
def bail (wakeLock : Bool) (nErr : ℤ) (issued : Option Issued) : Result :=
  ⟨if nErr = -1 ∧ o.errnoEnd = eConnReset then eConnReset else nErr, issued,
    { p with locks :=
      WakeLock.leaveLock p.locks (isReverseRpcCall handle sc) wakeLock o.leaveWritten }⟩

/-- `if (list->setmode)`: its error, and the session after it. -/
def Session.applyMode (s : Session) (errNo : ℤ) : ℤ × Session :=
  if s.setmode then (converted (ioctlSetmode s.mode) errNo, { s with setmode := false }) else (0, s)

/-- The part from the `ioctl` on. -/
def issue (wakeLock : Bool) (c : Call) : Result :=
  let p := { p with locks := WakeLock.beforeIoctl p.locks wakeLock o.beforeWritten }
  let r := ioctlInvoke c.req o.ioctl
  let after := WakeLock.afterIoctl p.locks domain o.afterWritten
  bail { p with locks := after.2 } handle sc o after.1
    (checksAfter p domain handle o (converted r o.errnoIoctl)) (some ⟨c.req, handle, sc, c.args, r⟩)

/-- `remote_handle_invoke_domain`. -/
def remoteHandleInvokeDomain (pra : Option (ℕ → RemoteArg)) : Result :=
  match fastrpcSessionDev (p.hlist domain) with
  | .error e => bail p handle sc o false e none
  | .ok _ =>
      let entered :=
        WakeLock.enterLock p.locks domain (isReverseRpcCall handle sc) o.enterWritten
      let mode := (p.hlist domain).applyMode o.errnoSetmode
      let p := { p with locks := entered.2, hlist := Function.update p.hlist domain mode.2 }
      if mode.1 ≠ 0 then bail p handle sc o entered.1 mode.1 none
      else if !o.args then bail p handle sc o entered.1 0 none
      else
        match fillArgs p domain handle sc o pra with
        | (.error e, table) => bail { p with dhandles := table } handle sc o entered.1 e none
        | (.ok c, table) => issue { p with dhandles := table } domain handle sc o entered.1 c

end Invocation

/-! ### The array -/

/-- One entry for each buffer and handle of the scalar, with what the caller gave for it. -/
structure Complete (sc : UInt32) (pra : Option (ℕ → RemoteArg)) (args : List InvokeArgs) : Prop where
  length : args.length = bufCount sc + handleCount sc
  buffers : ∀ i, i < bufCount sc → ∃ a entries, args[i]? = some a ∧ pra = some entries ∧
    a.ptr = (entries i).pv ∧ a.length = (entries i).nLen
  handles : ∀ i, bufCount sc ≤ i → i < bufCount sc + handleCount sc →
    ∃ a entries, args[i]? = some a ∧ pra = some entries ∧
      a.ptr = (entries i).dmaOffset ∧ a.fd = (entries i).dmaFd

section Array

variable {l : List MemToFd} {pra : ℕ → RemoteArg} {c d : Call} {i j n : ℕ}

/-- The array changed only in what an entry says beside its address and length. -/
structure Keeps (i : ℕ) (c d : Call) : Prop where
  length : d.args.length = c.args.length
  others : ∀ j, j ≠ i → d.args[j]? = c.args[j]?
  entry : ∀ a, c.args[i]? = some a →
    ∃ b, d.args[i]? = some b ∧ b.ptr = a.ptr ∧ b.length = a.length

theorem Keeps.refl (i : ℕ) (c : Call) : Keeps i c c :=
  ⟨rfl, fun _ _ => rfl, fun a ha => ⟨a, ha, rfl, rfl⟩⟩

theorem Keeps.trans {e : Call} (h : Keeps i c d) (h' : Keeps i d e) : Keeps i c e where
  length := h'.length.trans h.length
  others := fun j hj => (h'.others j hj).trans (h.others j hj)
  entry := by
    intro a ha
    obtain ⟨b, hb, hptr, hlen⟩ := h.entry a ha
    obtain ⟨b', hb', hptr', hlen'⟩ := h'.entry b hb
    exact ⟨b', hb', hptr'.trans hptr, hlen'.trans hlen⟩

theorem keeps_modify (c : Call) (i : ℕ) {f : InvokeArgs → InvokeArgs} (req : InvokeType)
    (hf : ∀ a, (f a).ptr = a.ptr ∧ (f a).length = a.length) :
    Keeps i c ⟨c.args.modify i f, req⟩ where
  length := List.length_modify ..
  others := by
    intro j hj
    rw [List.getElem?_modify_ne _ _ (Ne.symm hj)]
  entry := by
    intro a ha
    exact ⟨f a, by simp [ha], (hf a).1, (hf a).2⟩

theorem keeps_passAttr (c : Call) (i : ℕ) (given : Bool) (attr : UInt32) :
    Keeps i c (c.passAttr i given attr) := by
  cases given with
  | false => exact Keeps.refl i c
  | true => exact keeps_modify c i .attrs (fun a => ⟨rfl, rfl⟩)

theorem keeps_passAttrs (i : ℕ) (given : UInt32 → Bool) (attrs : List UInt32) (c : Call) :
    Keeps i c (attrs.foldl (fun c attr => c.passAttr i (given attr) attr) c) := by
  induction attrs generalizing c with
  | nil => exact Keeps.refl i c
  | cons attr attrs ih => exact (keeps_passAttr c i (given attr) attr).trans (ih _)

/-- **One buffer** fills its entry. -/
theorem bufferStep_ok (h : bufferStep l pra i c = .ok d) :
    Keeps i (c.setArgs i ⟨(pra i).pv, (pra i).nLen, -1, 0⟩) d := by
  unfold bufferStep at h
  simp only at h
  split_ifs at h with hzero
  · rw [← Except.ok.inj h]
    exact Keeps.refl i _
  · cases hfd : fdlistFdFromBuf l (pra i).pv (wrap (pra i).nLen) with
    | none => rw [hfd] at h; exact nomatch h
    | some r =>
        rw [hfd] at h
        rw [← Except.ok.inj h]
        refine Keeps.trans ?_ (keeps_passAttrs i (fun attr => r.attr &&& attr ≠ 0) _ _)
        refine Keeps.trans ?_ (keeps_passAttr _ i _ _)
        split_ifs with hdesc
        · exact keeps_modify _ i .fd (fun a => ⟨rfl, rfl⟩)
        · exact Keeps.refl i _

/-- **The loop over the buffers** fills the entries of the buffers. -/
theorem buffers_ok (h : buffers l pra n c = .ok d) (hn : n ≤ c.args.length) :
    d.args.length = c.args.length ∧
      ∀ i < n, ∃ a, d.args[i]? = some a ∧ a.ptr = (pra i).pv ∧ a.length = (pra i).nLen := by
  induction n generalizing d with
  | zero =>
      rw [← Except.ok.inj h]
      exact ⟨rfl, fun i hi => absurd hi (Nat.not_lt_zero i)⟩
  | succ n ih =>
      obtain ⟨e, he, hstep⟩ := bind_eq_ok.mp h
      obtain ⟨hlength, hentries⟩ := ih he (by omega)
      have hk := bufferStep_ok hstep
      have hset : (e.setArgs n ⟨(pra n).pv, (pra n).nLen, -1, 0⟩).args.length = e.args.length :=
        List.length_set
      refine ⟨hk.length.trans (hset.trans hlength), fun i hi => ?_⟩
      rcases Nat.lt_succ_iff_lt_or_eq.mp hi with hlt | rfl
      · obtain ⟨a, ha, hptr, hlen⟩ := hentries i hlt
        refine ⟨a, ?_, hptr, hlen⟩
        rw [hk.others i (by omega)]
        exact (List.getElem?_set_ne (by omega)).trans ha
      · exact hk.entry _ (List.getElem?_set_self (by omega))

theorem modify_set {α : Type} (l : List α) (i : ℕ) (a : α) (f : α → α) :
    (l.set i a).modify i f = l.set i (f a) := by
  induction l generalizing i with
  | nil => simp
  | cons x l ih =>
      cases i with
      | zero => rfl
      | succ i => exact congrArg (x :: ·) (ih i)

/-- **One handle** fills its entry. -/
theorem handleStep_args (capability init : Bool) (pra : ℕ → RemoteArg) (i : ℕ) (s : DmaTable × Call) :
    ∃ a, (handleStep capability init pra i s).2.args = s.2.args.set i a ∧
      a.ptr = (pra i).dmaOffset ∧ a.fd = (pra i).dmaFd := by
  simp only [handleStep, Call.appendArgsAttr, Call.setArgs, modify_set]
  generalize (pra i).dmaOffset = offset, (pra i).dmaFd = fd
  exact ⟨_, rfl, rfl, rfl⟩

/-- **The loop over the handles** fills the entries of the handles, and leaves those before them. -/
theorem handles_args (capability init : Bool) (pra : ℕ → RemoteArg) {bufs : ℕ} (s : DmaTable × Call)
    (hn : bufs + n ≤ s.2.args.length) :
    (handles capability init pra bufs n s).2.args.length = s.2.args.length ∧
      (∀ i < bufs, (handles capability init pra bufs n s).2.args[i]? = s.2.args[i]?) ∧
      ∀ i, bufs ≤ i → i < bufs + n → ∃ a, (handles capability init pra bufs n s).2.args[i]? = some a ∧
        a.ptr = (pra i).dmaOffset ∧ a.fd = (pra i).dmaFd := by
  induction n with
  | zero => exact ⟨rfl, fun _ _ => rfl, fun i hlo hhi => absurd hhi (by omega)⟩
  | succ n ih =>
      obtain ⟨hlength, hbefore, hentries⟩ := ih (by omega)
      obtain ⟨a, hset, hptr, hfd⟩ := handleStep_args capability init pra (bufs + n)
        (handles capability init pra bufs n s)
      rw [handles, hset]
      refine ⟨List.length_set.trans hlength, fun i hi => ?_, fun i hlo hhi => ?_⟩
      · rw [List.getElem?_set_ne (by omega)]
        exact hbefore i hi
      · rcases Nat.lt_or_ge i (bufs + n) with hlt | hge
        · rw [List.getElem?_set_ne (by omega)]
          exact hentries i hlo hlt
        · obtain rfl : i = bufs + n := by omega
          have hlt : bufs + n < (handles capability init pra bufs n s).2.args.length := by omega
          exact ⟨a, List.getElem?_set_self hlt, hptr, hfd⟩

end Array

section Invocation

variable {p : Process} {domain : Domain} {handle sc : UInt32} {o : Outcome}
  {pra : Option (ℕ → RemoteArg)} {c d : Call}

/-- The allocations for the checksums and the measurements leave the array. -/
theorem allocateMeasures_args (h : allocateMeasures p domain handle sc o pra c = .ok d) :
    d.args = c.args := by
  unfold allocateMeasures at h
  simp only at h
  split_ifs at h <;> first | exact Except.noConfusion h | (obtain rfl := Except.ok.inj h; rfl)

/-- **The array that reaches the `ioctl` is complete.** -/
theorem complete_fillArgs {table : DmaTable} (h : fillArgs p domain handle sc o pra = (.ok c, table)) :
    Complete sc pra c.args := by
  unfold fillArgs at h
  simp only at h
  split_ifs at h with hnull
  · exact nomatch (Prod.mk.inj h).1
  · cases hb : buffers p.fdlist (pra.getD (fun _ => ⟨0, 0⟩)) (bufCount sc)
        ⟨List.replicate (bufCount sc + handleCount sc) ⟨0, 0, 0, 0⟩, .invoke⟩ with
    | error e => rw [hb] at h; exact nomatch (Prod.mk.inj h).1
    | ok c' =>
        rw [hb] at h
        obtain ⟨hlength, hbufs⟩ := buffers_ok hb (by simp)
        rw [List.length_replicate] at hlength
        obtain ⟨hlength', hbefore, hhandles⟩ := handles_args (p.hlist domain).capability o.init
          (pra.getD (fun _ => ⟨0, 0⟩)) (p.dhandles, c') (le_of_eq hlength.symm)
        have hargs := allocateMeasures_args (Prod.mk.inj h).1
        have hgiven : ∀ i, i < bufCount sc + handleCount sc →
            pra = some (pra.getD (fun _ => ⟨0, 0⟩)) := by
          intro i hi
          cases pra with
          | some entries => rfl
          | none => exact absurd ⟨rfl, Nat.zero_lt_of_lt hi⟩ hnull
        rw [hargs]
        refine ⟨hlength'.trans hlength, fun i hi => ?_, fun i hlo hhi => ?_⟩
        · obtain ⟨a, ha, hptr, hlen⟩ := hbufs i hi
          exact ⟨a, _, (hbefore i hi).trans ha, hgiven i (by omega), hptr, hlen⟩
        · obtain ⟨a, ha, hptr, hfd⟩ := hhandles i hlo hhi
          exact ⟨a, _, ha, hgiven i hhi, hptr, hfd⟩

/-! ### The error at the exit -/

theorem ite_ne_zero {P : Prop} [Decidable P] {a b : ℤ} (ha : a ≠ 0) (hb : b ≠ 0) :
    (if P then a else b) ≠ 0 := by
  split_ifs
  · exact ha
  · exact hb

/-- An error is converted to an error. -/
theorem convertKernelToUserError_ne_zero {nErr : ℤ} (h : nErr ≠ 0) (errNo : ℤ) :
    convertKernelToUserError nErr errNo ≠ 0 := by
  unfold convertKernelToUserError
  refine ite_ne_zero h ?_
  repeat refine ite_ne_zero (by decide) ?_
  decide

theorem converted_eq_zero {nErr errNo : ℤ} : converted nErr errNo = 0 ↔ nErr = 0 := by
  unfold converted
  split_ifs with h
  · exact ⟨fun hc => absurd hc (convertKernelToUserError_ne_zero h errNo), fun hz => absurd hz h⟩
  · exact Iff.rfl

theorem bail_nErr {wakeLock : Bool} {nErr : ℤ} {issued : Option Issued} :
    (bail p handle sc o wakeLock nErr issued).nErr = 0 ↔ nErr = 0 := by
  unfold bail
  simp only
  split_ifs with hreset
  · exact ⟨fun h => absurd h (by decide), fun h => absurd (h.symm.trans hreset.1) (by decide)⟩
  · exact Iff.rfl

/-- The errors of the loop over the buffers are no success. -/
theorem buffers_error {l : List MemToFd} {entries : ℕ → RemoteArg} {n : ℕ} {e : ℤ}
    (h : buffers l entries n c = .error e) : e ≠ 0 := by
  induction n generalizing e with
  | zero => exact nomatch h
  | succ n ih =>
      cases hb : buffers l entries n c with
      | error e' =>
          rw [buffers, hb] at h
          rw [← Except.error.inj h]
          exact ih hb
      | ok c' =>
          rw [buffers, hb] at h
          have hstep : bufferStep l entries n c' = .error e := h
          unfold bufferStep at hstep
          simp only at hstep
          split_ifs at hstep
          cases hfd : fdlistFdFromBuf l (entries n).pv (wrap (entries n).nLen) with
          | none =>
              rw [hfd] at hstep
              rw [← Except.error.inj hstep]
              decide
          | some r => rw [hfd] at hstep; exact nomatch hstep

/-- The errors of the allocations are no success. -/
theorem allocateMeasures_error {e : ℤ} (h : allocateMeasures p domain handle sc o pra c = .error e) :
    e ≠ 0 := by
  unfold allocateMeasures at h
  simp only at h
  split_ifs at h <;> (rw [← Except.error.inj h]; decide)

/-- **Every failure before the `ioctl` has an error.** -/
theorem fillArgs_error {e : ℤ} {table : DmaTable}
    (h : fillArgs p domain handle sc o pra = (.error e, table)) : e ≠ 0 := by
  unfold fillArgs at h
  simp only at h
  split_ifs at h with hnull
  · rw [← Except.error.inj (Prod.mk.inj h).1]
    decide
  · cases hb : buffers p.fdlist (pra.getD (fun _ => ⟨0, 0⟩)) (bufCount sc)
        ⟨List.replicate (bufCount sc + handleCount sc) ⟨0, 0, 0, 0⟩, .invoke⟩ with
    | error e' =>
        rw [hb] at h
        rw [← Except.error.inj (Prod.mk.inj h).1]
        exact buffers_error hb
    | ok c' =>
        rw [hb] at h
        exact allocateMeasures_error (Prod.mk.inj h).1

/-- The checks after the `ioctl` turn no error into success. -/
theorem checksAfter_eq_zero {nErr : ℤ} (h : checksAfter p domain handle o nErr = 0) : nErr = 0 := by
  unfold checksAfter at h
  split_ifs at h
  · exact absurd h (by decide)
  · exact absurd h (by decide)
  · exact absurd h (by decide)
  · exact h

/-! ### The result -/

/-- The `ioctl` was issued with the complete array and succeeded. -/
def Executed (sc : UInt32) (pra : Option (ℕ → RemoteArg)) (r : Result) : Prop :=
  ∃ i, r.issued = some i ∧ Complete sc pra i.args ∧ i.result = 0

/-- The checks of the session and its mode pass. -/
def Session.Ready (s : Session) : Prop :=
  s.deinit = false ∧ 0 ≤ s.dev ∧ (s.setmode = true → s.mode = fastrpcSessionId1)

theorem fastrpcSessionDev_error {s : Session} {e : ℤ} (h : fastrpcSessionDev s = .error e) :
    e ≠ 0 ∧ ¬ s.Ready := by
  unfold fastrpcSessionDev at h
  split_ifs at h with hdeinit hdev
  · refine ⟨by rw [← Except.error.inj h]; decide, fun hr => ?_⟩
    exact Bool.false_ne_true (hr.1.symm.trans hdeinit)
  · refine ⟨by rw [← Except.error.inj h]; decide, fun hr => ?_⟩
    exact absurd hr.2.1 (not_le.mpr hdev)

theorem fastrpcSessionDev_ok {s : Session} {dev : ℤ} (h : fastrpcSessionDev s = .ok dev) :
    s.deinit = false ∧ 0 ≤ s.dev := by
  unfold fastrpcSessionDev at h
  split_ifs at h with hdeinit hdev
  exact ⟨by simpa using hdeinit, not_lt.mp hdev⟩

/-- The mode is refused when it is not `FASTRPC_SESSION_ID1`. -/
theorem applyMode_eq_zero {s : Session} {errNo : ℤ} :
    (s.applyMode errNo).1 = 0 ↔ (s.setmode = true → s.mode = fastrpcSessionId1) := by
  unfold Session.applyMode
  cases hset : s.setmode with
  | false => exact ⟨fun _ h => absurd h Bool.false_ne_true, fun _ => rfl⟩
  | true =>
      simp only [if_true]
      rw [converted_eq_zero, ioctlSetmode]
      split_ifs with hmode
      · exact ⟨fun _ _ => hmode, fun _ => rfl⟩
      · exact ⟨fun h => absurd h (by decide), fun h => absurd (h trivial) hmode⟩

/-- A call that returns success after the `ioctl` got success from it. -/
theorem issue_executed {wakeLock : Bool} (hc : Complete sc pra c.args)
    (h : (issue p domain handle sc o wakeLock c).nErr = 0) :
    Executed sc pra (issue p domain handle sc o wakeLock c) := by
  refine ⟨_, rfl, hc, ?_⟩
  unfold issue at h
  exact converted_eq_zero.mp (checksAfter_eq_zero (bail_nErr.mp h))

/-- **`AEE_SUCCESS` is returned only for executed calls** exactly when the array is allocated in every
call that comes so far: for every handle, scalar, argument list and outcome. -/
theorem success_only_if_executed :
    ((remoteHandleInvokeDomain p domain handle sc o pra).nErr = 0 →
        Executed sc pra (remoteHandleInvokeDomain p domain handle sc o pra)) ↔
      ((p.hlist domain).Ready → o.args = true) := by
  unfold remoteHandleInvokeDomain
  cases hdev : fastrpcSessionDev (p.hlist domain) with
  | error e =>
      obtain ⟨he, hready⟩ := fastrpcSessionDev_error hdev
      exact ⟨fun _ hr => absurd hr hready, fun _ h => absurd (bail_nErr.mp h) he⟩
  | ok dev =>
      obtain ⟨hdeinit, hopen⟩ := fastrpcSessionDev_ok hdev
      simp only
      by_cases hmode : ((p.hlist domain).applyMode o.errnoSetmode).1 = 0
      · have hready : (p.hlist domain).Ready := ⟨hdeinit, hopen, applyMode_eq_zero.mp hmode⟩
        rw [if_neg (not_not.mpr hmode)]
        cases hargs : o.args with
        | false =>
            simp only [Bool.not_false, if_true]
            refine ⟨fun h => ?_, fun h => absurd (h hready) Bool.false_ne_true⟩
            obtain ⟨i, hi, _⟩ := h (bail_nErr.mpr rfl)
            exact nomatch hi
        | true =>
            simp only [Bool.not_true, Bool.false_eq_true, if_false]
            refine ⟨fun _ _ => trivial, fun _ h => ?_⟩
            rcases hfill : fillArgs { p with
                locks := (WakeLock.enterLock p.locks domain (isReverseRpcCall handle sc)
                  o.enterWritten).2
                hlist := Function.update p.hlist domain
                  ((p.hlist domain).applyMode o.errnoSetmode).2 } domain handle sc o pra
              with ⟨e | c, table⟩
            · rw [hfill] at h
              exact absurd (bail_nErr.mp h) (fillArgs_error hfill)
            · rw [hfill] at h
              exact issue_executed (complete_fillArgs hfill) h
      · rw [if_pos hmode]
        have hready : ¬ (p.hlist domain).Ready := fun hr => hmode (applyMode_eq_zero.mpr hr.2.2)
        exact ⟨fun _ hr => absurd hr hready, fun _ h => absurd (bail_nErr.mp h) hmode⟩

/-! ### The wake lock -/

section Locks

open WakeLock (World Event enterLock beforeIoctl afterIoctl leaveLock)

variable {ι : Type} [DecidableEq ι] {w : World ι} {i : ι}

/-- A call that ends early. -/
theorem run_enter_fail (hidle : w.pc i = .idle) (hopen : w.state.opened domain = true)
    (reverse enterWritten leaveWritten : Bool) :
    ∃ t, run WakeLock.step w [.enter i domain reverse enterWritten, .fail i leaveWritten] = some t ∧
      t.state = leaveLock (enterLock w.state domain reverse enterWritten).2 reverse
        (enterLock w.state domain reverse enterWritten).1 leaveWritten := by
  simp only [run, WakeLock.step, hidle, hopen, Option.bind_some, Function.update_self]
  exact ⟨_, rfl, rfl⟩

/-- A call that reaches the `ioctl`. -/
theorem run_enter_leave (hidle : w.pc i = .idle) (hopen : w.state.opened domain = true)
    (reverse enterWritten beforeWritten afterWritten leaveWritten : Bool) :
    ∃ t, run WakeLock.step w [.enter i domain reverse enterWritten, .ioctl i beforeWritten,
        .back i afterWritten, .leave i leaveWritten] = some t ∧
      t.state =
        let entered := enterLock w.state domain reverse enterWritten
        let after := afterIoctl (beforeIoctl entered.2 entered.1 beforeWritten) domain afterWritten
        leaveLock after.2 reverse after.1 leaveWritten := by
  simp only [run, WakeLock.step, hidle, hopen, Option.bind_some, Function.update_self]
  exact ⟨_, rfl, rfl⟩

/-- **A call is a run of the wake lock's steps**: none, its start and an early end, or all four. -/
theorem locks_run (hlocks : w.state = p.locks) (hidle : w.pc i = .idle)
    (hopen : p.locks.opened domain = true) :
    ∃ es ∈ [[], [Event.enter i domain (isReverseRpcCall handle sc) o.enterWritten,
          .fail i o.leaveWritten],
        [.enter i domain (isReverseRpcCall handle sc) o.enterWritten, .ioctl i o.beforeWritten,
          .back i o.afterWritten, .leave i o.leaveWritten]],
      ∃ t, run WakeLock.step w es = some t ∧
        t.state = (remoteHandleInvokeDomain p domain handle sc o pra).process.locks := by
  rw [← hlocks] at hopen
  unfold remoteHandleInvokeDomain
  rw [← hlocks]
  cases fastrpcSessionDev (p.hlist domain) with
  | error e =>
      refine ⟨[], by simp, w, rfl, ?_⟩
      rw [hlocks]
      rfl
  | ok dev =>
      simp only
      have hfail := run_enter_fail hidle hopen (isReverseRpcCall handle sc) o.enterWritten
        o.leaveWritten
      by_cases hmode : ((p.hlist domain).applyMode o.errnoSetmode).1 = 0
      · rw [if_neg (not_not.mpr hmode)]
        cases o.args with
        | false => exact ⟨_, by simp, hfail⟩
        | true =>
            simp only [Bool.not_true, Bool.false_eq_true, if_false]
            rcases fillArgs _ domain handle sc o pra with ⟨e | c, table⟩
            · exact ⟨_, by simp, hfail⟩
            · exact ⟨_, by simp, run_enter_leave hidle hopen _ _ _ _ _⟩
      · rw [if_pos hmode]
        exact ⟨_, by simp, hfail⟩

end Locks

end Invocation

/-- An open session of domain 3 without a mode to set and without attributes. -/
def openSession : Process :=
  ⟨fun _ => ⟨false, 5, false, 0, 0, false⟩, WakeLock.State.new, [], DmaTable.empty, false, false⟩

/-- Every allocation and the `ioctl` succeed. -/
def allDone : Outcome := ⟨true, 0, true, true, true, true, true, true, true, 0, 0, true, 0, true⟩

/-- When the array cannot be allocated, a call with one buffer returns `AEE_SUCCESS` and no `ioctl` is
issued. -/
theorem success_without_call :
    (remoteHandleInvokeDomain openSession 3 20 0x10000 { allDone with args := false }
        (some (fun _ => ⟨4096, 8⟩))).nErr = 0 ∧
      (remoteHandleInvokeDomain openSession 3 20 0x10000 { allDone with args := false }
        (some (fun _ => ⟨4096, 8⟩))).issued = none ∧
      ¬ Executed 0x10000 (some (fun _ => ⟨4096, 8⟩))
        (remoteHandleInvokeDomain openSession 3 20 0x10000 { allDone with args := false }
          (some (fun _ => ⟨4096, 8⟩))) := by
  refine ⟨by decide +kernel, by decide +kernel, ?_⟩
  rintro ⟨i, hi, _⟩
  exact nomatch hi

end FastRpc.Invoke
