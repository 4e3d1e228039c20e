import FastRpc.Basic
import FastRpc.Logged
import Mathlib.Data.List.FinRange

/-! # The handle table

`hlist` has one `handle_list` for every effective domain (8 subsystems times 4 sessions), with three
lists of `handle_info` nodes: `ql` for the handles opened with a domain and for the session's own
constant handles, `nql` for the handles opened without one, `rql` for the modules that the DSP
opened here.  A node has two names, its own address (`local`, what `remote_handle64_open` returns)
and the id of the remote side (`remote`).  Four `uint32_t` counters follow the lists.

The functions are programs of `Logged`: everything that they change they change by a `TableStep`,
where one call of `fastrpc_update_module_list` is one step.  What the DSP, the driver and the
allocator answer is given by an `TableEnv`, by the number of the call; `calloc` returns an address that
no live node has.  The table stands after `fastrpc_init_once`, and several threads are covered by
letting the thread context (`tlsKey`) change between the operations. -/

namespace FastRpc

open Logged (read emit)

/-! ### Data -/

/-- `DEFAULT_DOMAIN_ID`. -/
def defaultDomainId : Domain := 3

/-- `GET_DOMAIN_FROM_EFFEC_DOMAIN_ID`. -/
def getDomainFromEffecDomainId (domain : Domain) : ℕ := domain.val % 8

/-- `FASTRPC_DOMAIN_STATE_*`. -/
inductive DomainState
  | clean
  | init
  | deinit
  deriving DecidableEq, Repr

/-- The process types that `dsppd` takes. -/
inductive PdType
  | rootPd
  | audioStaticpd
  | sensorsStaticpd
  | secureStaticpd
  | oisStaticpd
  | userpd
  | guestOsShared
  deriving DecidableEq, Repr

/-- `enum handle_list_id`. -/
inductive HandleListId
  | multiDomain
  | nonDomain
  | reverse
  deriving DecidableEq, Repr

/-- The request ids of `fastrpc_update_module_list`, each for one of the three lists. -/
inductive ListRequest
  | prepend (list : HandleListId)
  | dequeue (list : HandleListId)
  deriving DecidableEq, Repr

/-- The fields of a `handle_list` that cache a constant handle of the session. -/
inductive SessionHandle
  | cphandle
  | msghandle
  | listenerhandle
  | remotectlhandle
  | adspperfhandle
  deriving DecidableEq, Repr

/-- `struct handle_info`; `addr` is its field `local`, the address of the node itself. -/
structure HandleInfo where
  hlist : Domain
  addr : ℕ
  remote : ℕ
  deriving DecidableEq, Repr

/-- `struct handle_list`, with the fields that opening and closing handles use. -/
structure HandleList where
  ql : List HandleInfo
  nql : List HandleInfo
  rql : List HandleInfo
  constCount : ℕ
  domainsCount : ℕ
  nondomainsCount : ℕ
  reverseCount : ℕ
  state : DomainState
  dev : ℤ
  dsppd : PdType
  cphandle : ℕ
  msghandle : ℕ
  listenerhandle : ℕ
  remotectlhandle : ℕ
  adspperfhandle : ℕ

/-- The table, the domain in the caller's thread context, and the number of calls that have left
the library so far. -/
structure HandleTable where
  hlist : Domain → HandleList
  tlsKey : Option Domain
  calls : ℕ

/-- What one call out of the library returns: an error code, `dlErr`, the handle that it writes (if
it writes one), a device, and a yes or no. -/
structure Answer where
  nErr : ℤ := 0
  dlErr : ℤ := 0
  handle : Option ℕ := none
  dev : ℕ := 0
  flag : Bool := false

/-- The surroundings of the library.  A block from `calloc` overlaps no live one and lies above the
first page of the address space and below its end. -/
structure TableEnv where
  answer : ℕ → Answer
  calloc : ℕ → List ℕ → Option ℕ
  calloc_fresh : ∀ i used addr, calloc i used = some addr →
    addr ∉ used ∧ 0x200 < addr ∧ addr + 1 < 2 ^ 64

/-! ### Constants -/

/-- `AEE_SUCCESS`. -/
def aeeSuccess : ℤ := 0

/-- `AEE_ENOMEMORY`. -/
def aeeENoMemory : ℤ := 0x2

/-- `AEE_EBADPARM`. -/
def aeeEBadParm : ℤ := 0xe

/-- `AEE_EINVHANDLE`. -/
def aeeEInvHandle : ℤ := 0x2c

/-- `AEE_ERPC`. -/
def aeeERpc : ℤ := 0x200

/-- `AEE_ECONNRESET`. -/
def aeeEConnReset : ℤ := 104

/-- `AEE_ENOTINITIALIZED`. -/
def aeeENotInitialized : ℤ := 0x6b

/-- `INVALID_HANDLE`, which is `(remote_handle64)-1`. -/
def invalidHandle : ℕ := 2 ^ 64 - 1

/-- `IS_STATICPD_HANDLE`. -/
def isStaticpdHandle (h : ℕ) : Bool := 0xff < h && h ≤ 0x200

/-- `IS_CONST_HANDLE`. -/
def isConstHandle (h : ℕ) : Bool := h < 0xff

/-- `_const_adsp_current_process1_handle`. -/
def constAdspCurrentProcess1Handle : ℕ := 4

/-- `_const_adspmsgd_adsp1_handle`. -/
def constAdspmsgdAdsp1Handle : ℕ := 5

/-- `_const_adsp_listener1_handle`. -/
def constAdspListener1Handle : ℕ := 7

/-- `_const_remotectl1_handle`. -/
def constRemotectl1Handle : ℕ := 8

/-- `_const_adsp_perf1_handle`. -/
def constAdspPerf1Handle : ℕ := 9

/-- `attach_guestos`: the process type of a domain with no session. -/
def attachGuestos (domain : Domain) : PdType :=
  if getDomainFromEffecDomainId domain < 7 then .userpd else .rootPd

/-! ### Lists and counters -/

namespace HandleList

/-- One of the three lists. -/
def nodes (hl : HandleList) : HandleListId → List HandleInfo
  | .multiDomain => hl.ql
  | .nonDomain => hl.nql
  | .reverse => hl.rql

/-- Replaces one of the three lists. -/
def setNodes (hl : HandleList) (list : HandleListId) (l : List HandleInfo) : HandleList :=
  match list with
  | .multiDomain => { hl with ql := l }
  | .nonDomain => { hl with nql := l }
  | .reverse => { hl with rql := l }

/-- The counter that `fastrpc_update_module_list` picks for a list and a handle value. -/
def count (hl : HandleList) (list : HandleListId) (h : ℕ) : ℕ :=
  match list with
  | .multiDomain => if isConstHandle h then hl.constCount else hl.domainsCount
  | .nonDomain => hl.nondomainsCount
  | .reverse => hl.reverseCount

/-- Sets the counter that `fastrpc_update_module_list` picks for a list and a handle value. -/
def setCount (hl : HandleList) (list : HandleListId) (h : ℕ) (n : ℕ) : HandleList :=
  match list with
  | .multiDomain =>
      if isConstHandle h then { hl with constCount := n } else { hl with domainsCount := n }
  | .nonDomain => { hl with nondomainsCount := n }
  | .reverse => { hl with reverseCount := n }

/-- A cached constant handle; 0 when none is cached. -/
def slot (hl : HandleList) : SessionHandle → ℕ
  | .cphandle => hl.cphandle
  | .msghandle => hl.msghandle
  | .listenerhandle => hl.listenerhandle
  | .remotectlhandle => hl.remotectlhandle
  | .adspperfhandle => hl.adspperfhandle

/-- Caches a constant handle. -/
def setSlot (hl : HandleList) (s : SessionHandle) (v : ℕ) : HandleList :=
  match s with
  | .cphandle => { hl with cphandle := v }
  | .msghandle => { hl with msghandle := v }
  | .listenerhandle => { hl with listenerhandle := v }
  | .remotectlhandle => { hl with remotectlhandle := v }
  | .adspperfhandle => { hl with adspperfhandle := v }

/-- `fastrpc_alloc_handle` with the node it allocated, and the counter of the node's class. -/
def prepend (hl : HandleList) (list : HandleListId) (n : HandleInfo) : HandleList :=
  (hl.setNodes list (n :: hl.nodes list)).setCount list n.remote (addU32 (hl.count list n.remote) 1)

end HandleList

/-- `fastrpc_free_handle`: takes the first node with this remote id off the list, if there is one. -/
def fastrpcFreeHandle (me : List HandleInfo) (remote : ℕ) : List HandleInfo :=
  me.eraseP (fun hi => hi.remote = remote)

/-- A `..._LIST_DEQUEUE`: `fastrpc_free_handle`, then the counter that the key picks. -/
def HandleList.dequeue (hl : HandleList) (list : HandleListId) (h : ℕ) : HandleList :=
  (hl.setNodes list (fastrpcFreeHandle (hl.nodes list) h)).setCount list h
    (subU32 (hl.count list h) 1)

/-- The end of `domain_deinit`, for a domain that had a device. -/
def HandleList.resetSession (hl : HandleList) (domain : Domain) : HandleList :=
  { hl with
    state := .clean, cphandle := 0, msghandle := 0, remotectlhandle := 0, listenerhandle := 0,
    dev := -1, dsppd := attachGuestos domain }

/-- A `handle_list` after `fastrpc_apps_user_init`. -/
def HandleList.start (domain : Domain) : HandleList where
  ql := []
  nql := []
  rql := []
  constCount := 0
  domainsCount := 0
  nondomainsCount := 0
  reverseCount := 0
  state := .clean
  dev := -1
  dsppd := attachGuestos domain
  cphandle := 0
  msghandle := 0
  listenerhandle := 0
  remotectlhandle := 0
  adspperfhandle := 0

namespace HandleTable

/-- The table after `fastrpc_apps_user_init`. -/
def start : HandleTable := ⟨HandleList.start, none, 0⟩

/-- Changes the `handle_list` of one domain. -/
def modify (t : HandleTable) (domain : Domain) (f : HandleList → HandleList) : HandleTable :=
  { t with hlist := Function.update t.hlist domain (f (t.hlist domain)) }

@[simp] theorem modify_hlist (t : HandleTable) (domain : Domain) (f : HandleList → HandleList) :
    (t.modify domain f).hlist domain = f (t.hlist domain) :=
  Function.update_self ..

theorem modify_hlist_of_ne {domain d : Domain} (hne : d ≠ domain) (t : HandleTable)
    (f : HandleList → HandleList) : (t.modify domain f).hlist d = t.hlist d :=
  Function.update_of_ne hne ..

/-- The addresses of all live nodes. -/
def live (t : HandleTable) : List ℕ :=
  (List.finRange 32).flatMap (fun ii =>
    ((t.hlist ii).ql ++ (t.hlist ii).nql ++ (t.hlist ii).rql).map HandleInfo.addr)

/-- `get_current_domain`. -/
def getCurrentDomain (t : HandleTable) : Domain := t.tlsKey.getD defaultDomainId

/-- `is_valid_local_handle`; `none` is the domain -1, which stands for all of them. -/
def isValidLocalHandle (t : HandleTable) (domain : Option Domain) (hinfo : ℕ) : Bool :=
  match domain with
  | none => (List.finRange 32).any (fun ii => (t.hlist ii).ql.any (fun hi => hi.addr = hinfo))
  | some d => (t.hlist d).ql.any (fun hi => hi.addr = hinfo)

/-- `verify_local_handle`.  The node of a valid handle points into `hlist` and is queued, so that
the two checks that follow in the source succeed. -/
def verifyLocalHandle (t : HandleTable) (domain : Option Domain) (h : ℕ) : ℤ :=
  if h = invalidHandle ∨ h = 0 then aeeEInvHandle
  else if t.isValidLocalHandle domain h then aeeSuccess
  else aeeEInvHandle

/-- The node at an address. -/
def nodeAt (t : HandleTable) (h : ℕ) : Option HandleInfo :=
  (List.finRange 32).findSome? (fun ii => (t.hlist ii).ql.find? (fun hi => hi.addr = h))

/-- `get_domain_from_handle`. -/
def getDomainFromHandle (t : HandleTable) (h : ℕ) : Option Domain :=
  if t.verifyLocalHandle none h = aeeSuccess then (t.nodeAt h).map HandleInfo.hlist else none

/-- `get_handle_remote`. -/
def getHandleRemote (t : HandleTable) (h : ℕ) : Option ℕ :=
  if t.verifyLocalHandle none h = aeeSuccess then (t.nodeAt h).map HandleInfo.remote else none

/-- `is_process_exiting`. -/
def isProcessExiting (t : HandleTable) (domain : Domain) : Bool := (t.hlist domain).state ≠ .init

/-- The test of `remote_handle64_close` for the session's last handle. -/
def startDeinit (t : HandleTable) (domain : Domain) : Bool :=
  (t.hlist domain).domainsCount ≤ 1 && (t.hlist domain).nondomainsCount = 0

end HandleTable

/-! ### Steps -/

/-- The steps by which the functions below change the table. -/
inductive TableStep
  | update (req : ListRequest) (domain : Domain) (h : ℕ)
  | clear (list : HandleListId) (domain : Domain)
  | popReverse (domain : Domain)
  | ctor (domain : Domain)
  | setSlot (s : SessionHandle) (domain : Domain) (v : ℕ)
  | setState (domain : Domain) (state : DomainState)
  | setDev (domain : Domain) (dev : ℤ)
  | setDsppd (domain : Domain) (pd : PdType)
  | resetSession (domain : Domain)
  | setThreadContext (domain : Option Domain)
  | call

/-- One step.  A failed allocation leaves the lists and the counters as they are. -/
def tableStep (env : TableEnv) (t : HandleTable) : TableStep → HandleTable
  | .update (.prepend list) domain h =>
      match env.calloc t.calls t.live with
      | none => { t with calls := t.calls + 1 }
      | some addr =>
          { t.modify domain (fun hl => hl.prepend list ⟨domain, addr, h⟩) with calls := t.calls + 1 }
  | .update (.dequeue list) domain h => t.modify domain (fun hl => hl.dequeue list h)
  | .clear list domain => t.modify domain (fun hl => hl.setNodes list [])
  | .popReverse domain => t.modify domain (fun hl => { hl with rql := hl.rql.tail })
  | .ctor domain => t.modify domain (fun hl => { hl with ql := [], nql := [], rql := [] })
  | .setSlot s domain v => t.modify domain (fun hl => hl.setSlot s v)
  | .setState domain state => t.modify domain (fun hl => { hl with state := state })
  | .setDev domain dev => t.modify domain (fun hl => { hl with dev := dev })
  | .setDsppd domain pd => t.modify domain (fun hl => { hl with dsppd := pd })
  | .resetSession domain => t.modify domain (fun hl => hl.resetSession domain)
  | .setThreadContext domain => { t with tlsKey := domain }
  | .call => { t with calls := t.calls + 1 }

/-- A program over the table. -/
abbrev TableM (env : TableEnv) := Logged (tableStep env)

section Functions

variable {env : TableEnv}

/-- A call out of the library. -/
def callOut : TableM env Answer := do
  let t ← read
  emit .call
  return env.answer t.calls

/-- `fastrpc_update_module_list`; the result is `*local`, if a node was allocated. -/
def fastrpcUpdateModuleList (req : ListRequest) (domain : Domain) (h : ℕ) :
    TableM env (Option ℕ) := do
  let t ← read
  emit (.update req domain h)
  match req with
  | .prepend _ => return env.calloc t.calls t.live
  | .dequeue _ => return none

/-- A stub called with a session handle.  `remote_handle64_invoke` puts the handle's domain into
the thread context before the call leaves. -/
def invokeSession (handle : ℕ) : TableM env Answer := do
  let t ← read
  match t.getDomainFromHandle handle with
  | some domain =>
      if (t.hlist domain).state = .deinit then callOut
      else do
        emit (.setThreadContext (some domain))
        callOut
  | none => callOut

/-! ### The session's constant handles -/

/-- The cached handle of a slot; when there is none, a node for the constant is allocated. -/
def getSessionHandle (s : SessionHandle) (const : ℕ) (domain : Domain) : TableM env ℕ := do
  let t ← read
  if (t.hlist domain).slot s ≠ 0 then return (t.hlist domain).slot s
  else
    match ← fastrpcUpdateModuleList (.prepend .multiDomain) domain const with
    | none => return invalidHandle
    | some addr => do
        emit (.setSlot s domain addr)
        return addr

/-- `get_adsp_current_process1_handle`. -/
def getAdspCurrentProcess1Handle : Domain → TableM env ℕ :=
  getSessionHandle .cphandle constAdspCurrentProcess1Handle

/-- `get_adspmsgd_adsp1_handle`. -/
def getAdspmsgdAdsp1Handle : Domain → TableM env ℕ :=
  getSessionHandle .msghandle constAdspmsgdAdsp1Handle

/-- `get_adsp_listener1_handle`. -/
def getAdspListener1Handle : Domain → TableM env ℕ :=
  getSessionHandle .listenerhandle constAdspListener1Handle

/-- `get_remotectl1_handle`. -/
def getRemotectl1Handle : Domain → TableM env ℕ :=
  getSessionHandle .remotectlhandle constRemotectl1Handle

/-- `get_adsp_perf1_handle`. -/
def getAdspPerf1Handle : Domain → TableM env ℕ :=
  getSessionHandle .adspperfhandle constAdspPerf1Handle

/-- What every caller of `remotectl1_*` does when the DSP does not support it. -/
def dropRemotectl1 (domain : Domain) : TableM env PUnit := do
  discard (fastrpcUpdateModuleList (.dequeue .multiDomain) domain constRemotectl1Handle)
  emit (.setSlot .remotectlhandle domain invalidHandle)

/-! ### Reverse handles -/

/-- `apps_remotectl_open`: the DSP opens a module here. -/
def appsRemotectlOpen : TableM env ℤ := do
  let t ← read
  let a ← callOut
  if a.nErr ≠ aeeSuccess then return a.nErr
  else
    match ← fastrpcUpdateModuleList (.prepend .reverse) t.getCurrentDomain (a.handle.getD 0) with
    | none => return aeeENoMemory
    | some _ => return aeeSuccess

/-- `apps_remotectl_close`. -/
def appsRemotectlClose (handle : ℕ) : TableM env ℤ := do
  let t ← read
  let a ← callOut
  if a.nErr ≠ aeeSuccess then return a.nErr
  else
    discard (fastrpcUpdateModuleList (.dequeue .reverse) t.getCurrentDomain handle)
    return aeeSuccess

/-- `close_reverse_handle`. -/
def closeReverseHandle (h : ℕ) : TableM env ℤ := appsRemotectlClose (h % 2 ^ 32)

/-- `fastrpc_clear_handle_list(REVERSE_HANDLE_LIST_ID, ..)`, for a list of at most `n` nodes. -/
def clearReverseList (domain : Domain) : ℕ → TableM env PUnit
  | 0 => return ⟨⟩
  | n + 1 => do
      let t ← read
      match (t.hlist domain).rql with
      | [] => return ⟨⟩
      | hi :: _ => do
          emit (.popReverse domain)
          discard (closeReverseHandle hi.addr)
          clearReverseList domain n

/-! ### Sessions -/

/-- `domain_deinit`. -/
def domainDeinit (domain : Domain) : TableM env PUnit := do
  let t ← read
  if (t.hlist domain).dev ≠ -1 then do
    let handle ← getAdspCurrentProcess1Handle domain
    if handle ≠ invalidHandle then discard (invokeSession handle) else discard callOut
    emit (.setState domain .deinit)
    emit (.clear .multiDomain domain)
    let u ← read
    clearReverseList domain (u.hlist domain).rql.length
    if domain = defaultDomainId then emit (.clear .nonDomain domain)
    emit (.resetSession domain)
  emit (.setState domain .clean)

/-- `perf_dsp_enable`. -/
def perfDspEnable (domain : Domain) : TableM env PUnit := do
  let a ← callOut
  if a.nErr = aeeSuccess then do
    let handle ← getAdspPerf1Handle domain
    if handle ≠ invalidHandle then do
      let b ← invokeSession handle
      if b.nErr ≠ aeeSuccess then
        discard (fastrpcUpdateModuleList (.dequeue .multiDomain) domain constAdspPerf1Handle)

/-- `fastrpc_set_remote_uthread_params`, run by the listener thread. -/
def fastrpcSetRemoteUthreadParams (domain : Domain) : TableM env ℤ := do
  let handle ← getRemotectl1Handle domain
  if handle ≠ invalidHandle then do
    let a ← callOut
    if a.nErr ≠ aeeSuccess then do
      dropRemotectl1 domain
      let b ← callOut
      return b.nErr
    else return aeeSuccess
  else do
    let b ← callOut
    return b.nErr

/-- `listener_android_domain_init` with the start of the thread that it creates; the flag of the
first answer is `update_requested`, that of the second an error for which the thread gives the
constant handle back. -/
def listenerAndroidDomainInit (domain : Domain) : TableM env ℤ := do
  let a ← callOut
  if a.nErr ≠ aeeSuccess then return a.nErr
  else
    let handle ← getAdspListener1Handle domain
    if handle ≠ invalidHandle then do
      let b ← callOut
      if b.nErr ≠ aeeSuccess ∧ b.flag then
        discard (fastrpcUpdateModuleList (.dequeue .multiDomain) domain constAdspListener1Handle)
    if a.flag then fastrpcSetRemoteUthreadParams domain
    else return aeeSuccess

/-- The steps of `domain_init` after it has constructed the lists, up to `bail`.  The answers are
those of `remote_init`, of the wakelock and the memory modules, of the notifications and of the
perf module; their flags say whether notifications and DSP perf keys are enabled. -/
def domainInitBody (domain : Domain) : TableM env ℤ := do
  emit (.setThreadContext (some domain))
  let t ← read
  let a ← callOut
  if a.nErr ≠ aeeSuccess then return a.nErr
  else
    if (t.hlist domain).dev = -1 then emit (.setDev domain a.dev)
    let b ← callOut
    if b.nErr ≠ aeeSuccess then return b.nErr
    else
      if getDomainFromEffecDomainId domain ∈ [3, 4, 5, 6] then
        discard (getAdspCurrentProcess1Handle domain)
      let c ← callOut
      if c.flag then discard (getAdspCurrentProcess1Handle domain)
      if c.nErr ≠ aeeSuccess then return c.nErr
      else
        let d ← callOut
        if d.flag then perfDspEnable domain
        emit (.setState domain .init)
        let nErr ← listenerAndroidDomainInit domain
        if nErr ≠ aeeSuccess then return nErr
        else
          let u ← read
          if getDomainFromEffecDomainId domain ≠ 2 ∧ (u.hlist domain).dsppd = .rootPd then do
            let handle ← getAdspmsgdAdsp1Handle domain
            if handle ≠ invalidHandle then discard (invokeSession handle)
          return aeeSuccess

/-- `domain_init`: the error code and `*dev`. -/
def domainInit (domain : Domain) : TableM env (ℤ × ℤ) := do
  let t ← read
  if (t.hlist domain).state ≠ .clean then return (aeeSuccess, (t.hlist domain).dev)
  else
    emit (.ctor domain)
    let nErr ← domainInitBody domain
    if nErr ≠ aeeSuccess then do
      domainDeinit domain
      return (nErr, -1)
    else
      let u ← read
      return (nErr, (u.hlist domain).dev)

/-- `fastrpc_session_get`: the caller's thread works on this domain from now on. -/
def fastrpcSessionGet (domain : Domain) : TableM env ℤ := do
  let t ← read
  if (t.hlist domain).state = .deinit then return aeeENotInitialized
  else
    emit (.setThreadContext (some domain))
    return aeeSuccess

/-! ### Closing -/

/-- Closes a module through `remotectl1`, or through `remotectl` where the DSP lacks it. -/
def closeOnDsp (domain : Domain) : TableM env ℤ := do
  let handle ← getRemotectl1Handle domain
  if handle ≠ invalidHandle then do
    let a ← invokeSession handle
    if a.nErr ≠ aeeSuccess then do
      dropRemotectl1 domain
      -- The error code of this call is overwritten by `dlerr`.
      let b ← callOut
      return b.dlErr
    else return a.dlErr
  else do
    let a ← callOut
    if a.nErr ≠ aeeSuccess then return a.nErr else return a.dlErr

/-- `remote_handle_close_domain`.  The first answer is that of `calloc` for the error string. -/
def remoteHandleCloseDomain (domain : Domain) (h : ℕ) : TableM env ℤ := do
  if h = 2 ^ 32 - 1 then return aeeEInvHandle
  else
    let m ← callOut
    if m.flag then return aeeENoMemory
    else closeOnDsp domain

/-- `remote_handle_close`. -/
def remoteHandleClose (h : ℕ) : TableM env ℤ := do
  let t ← read
  let nErr ← remoteHandleCloseDomain t.getCurrentDomain h
  if nErr = aeeSuccess then do
    discard (fastrpcUpdateModuleList (.dequeue .nonDomain) t.getCurrentDomain h)
    return aeeSuccess
  else
    let u ← read
    if u.isProcessExiting t.getCurrentDomain then return aeeSuccess else return nErr

/-- `remote_handle64_close` closes the module on the DSP, unless it is about to end the session. -/
def closeRemote (domain : Domain) (remote : ℕ) (start_deinit : Bool) : TableM env ℤ :=
  if !start_deinit && remote ≠ 0 then remoteHandleCloseDomain domain (remote % 2 ^ 32)
  else return aeeSuccess

/-- `remote_handle64_close` up to its `bail`.  The key of the dequeue is the local handle. -/
def closeOnDomain (domain : Domain) (handle remote : ℕ) (start_deinit : Bool) : TableM env ℤ := do
  let nErr ← closeRemote domain remote start_deinit
  if nErr = aeeSuccess then
    discard (fastrpcUpdateModuleList (.dequeue .multiDomain) domain handle)
  return nErr

/-- `remote_handle64_close`. -/
def remoteHandle64Close (handle : ℕ) : TableM env ℤ := do
  let t ← read
  if isStaticpdHandle handle then return aeeSuccess
  else if handle = invalidHandle then return aeeEInvHandle
  else
    match t.getDomainFromHandle handle, t.getHandleRemote handle with
    | some domain, some remote => do
        emit (.setThreadContext (some domain))
        let nErr ← closeOnDomain domain handle remote (t.startDeinit domain)
        if nErr = aeeEInvHandle then return nErr
        else
          if t.startDeinit domain then domainDeinit domain
          let u ← read
          if nErr ≠ aeeSuccess ∧ u.isProcessExiting domain then return aeeSuccess else return nErr
    | _, _ => return aeeEInvHandle

/-! ### Opening -/

/-- The names that `remote_handle_open_domain` tells apart; a static PD that it does not know sets
nothing. -/
inductive ModuleName
  | geteventfd
  | attachguestos
  | createstaticpd (pd : Option PdType)
  | attachuserpd
  | module
  deriving DecidableEq, Repr

/-- The constant handle of a static PD. -/
def staticPdHandle : PdType → Option ℕ
  | .oisStaticpd => some 256
  | .audioStaticpd => some 257
  | .sensorsStaticpd => some 258
  | .guestOsShared => some 260
  | .secureStaticpd => some 261
  | .rootPd => none
  | .userpd => none

/-- Opens a module through `remotectl1`, or through `remotectl` where the DSP lacks it. -/
def openOnDsp (domain : Domain) : TableM env (ℤ × Option ℕ) := do
  let handle ← getRemotectl1Handle domain
  if handle ≠ invalidHandle then do
    let a ← invokeSession handle
    if a.nErr ≠ aeeSuccess then do
      dropRemotectl1 domain
      let b ← callOut
      if b.nErr ≠ aeeSuccess then return (b.nErr, b.handle) else return (b.dlErr, b.handle)
    else return (a.dlErr, a.handle)
  else do
    let b ← callOut
    if b.nErr ≠ aeeSuccess then return (b.nErr, b.handle) else return (b.dlErr, b.handle)

/-- The `bail` of `remote_handle_open_domain`: a lost connection ends a session without handles. -/
def openBail (domain : Domain) (nErr : ℤ) : TableM env PUnit := do
  let t ← read
  if nErr = aeeEConnReset ∧ (t.hlist domain).domainsCount = 0 ∧
      (t.hlist domain).nondomainsCount = 0 then
    domainDeinit domain

/-- `remote_handle_open_domain`: the error code and the handle that it writes, if it writes one.
For a static PD the first answer says whether the copy of the name is allocated, and its flag
whether the name is too long. -/
def remoteHandleOpenDomain (domain : Domain) (name : ModuleName) :
    TableM env (ℤ × Option ℕ) := do
  match name with
  | .geteventfd => do
      let a ← callOut
      return (a.nErr, a.handle)
  | .attachguestos => do
      emit (.setDsppd domain .rootPd)
      return (aeeSuccess, some 259)
  | .createstaticpd pd => do
      let a ← callOut
      if a.nErr ≠ aeeSuccess then return (aeeENoMemory, none)
      else if a.flag then return (aeeEBadParm, none)
      else
        match pd with
        | none => return (aeeSuccess, none)
        | some pd => do
            emit (.setDsppd domain pd)
            return (aeeSuccess, staticPdHandle pd)
  | .attachuserpd => do
      emit (.setDsppd domain .userpd)
      return (aeeSuccess, none)
  | .module => do
      let r ← domainInit domain
      if r.1 ≠ aeeSuccess ∨ r.2 = -1 then do
        openBail domain r.1
        return (if r.1 ≠ aeeSuccess then r.1 else aeeERpc, none)
      else
        let o ← openOnDsp domain
        openBail domain o.1
        return o

/-- `remote_handle_open`; `ph` is the value of `*ph` before the call. -/
def remoteHandleOpen (name : ModuleName) (ph : ℕ) : TableM env ℤ := do
  let t ← read
  let nErr ← fastrpcSessionGet t.getCurrentDomain
  let r ← if nErr ≠ aeeSuccess then pure (nErr, none)
    else remoteHandleOpenDomain t.getCurrentDomain name
  let ph := r.2.getD ph
  if r.1 = aeeSuccess then do
    discard (fastrpcUpdateModuleList (.prepend .nonDomain) t.getCurrentDomain ph)
    return aeeSuccess
  else
    if ph ≠ 0 then discard (remoteHandle64Close ph)
    return r.1

/-- `remote_handle64_open`: the error code and the handle.  The domain is that of the name's URI;
where the node cannot be allocated, the source returns an uninitialised handle. -/
def remoteHandle64Open (domain : Option Domain) (name : ModuleName) :
    TableM env (ℤ × Option ℕ) := do
  match domain with
  | none => return (aeeEBadParm, none)
  | some domain => do
      let nErr ← fastrpcSessionGet domain
      let r ← if nErr ≠ aeeSuccess then pure (nErr, none) else remoteHandleOpenDomain domain name
      let h := r.2.getD 0
      if r.1 = aeeSuccess then
        if name = .geteventfd ∨ isStaticpdHandle h then return (aeeSuccess, some h)
        else do
          let addr ← fastrpcUpdateModuleList (.prepend .multiDomain) domain h
          return (aeeSuccess, addr)
      else
        if h ≠ 0 then discard (remoteHandleClose h)
        return (r.1, none)

/-! ### Closing a session -/

/-- `QLIST_NEXTSAFE_FOR_ALL`, from the node at `addr` and for at most `n` nodes.  The next node is
saved before the body runs; where the body has freed it, the source goes on in freed memory, and
the model stops. -/
def forAllNextSafe (list : HandleListId) (domain : Domain) (body : HandleInfo → TableM env PUnit) :
    ℕ → ℕ → TableM env PUnit
  | 0, _ => return ⟨⟩
  | n + 1, addr => do
      let t ← read
      match ((t.hlist domain).nodes list).dropWhile (fun hi => hi.addr ≠ addr) with
      | [] => return ⟨⟩
      | hi :: rest => do
          body hi
          match rest with
          | [] => return ⟨⟩
          | next :: _ => forAllNextSafe list domain body n next.addr

/-- The loop over one list of a domain. -/
def forAllNodes (list : HandleListId) (domain : Domain) (body : HandleInfo → TableM env PUnit) :
    TableM env PUnit := do
  let t ← read
  match (t.hlist domain).nodes list with
  | [] => return ⟨⟩
  | hi :: rest => forAllNextSafe list domain body (rest.length + 1) hi.addr

/-- `close_domain_session`. -/
def closeDomainSession (domain : Domain) : TableM env ℤ := do
  let t ← read
  if (t.hlist domain).dev = -1 then return -1
  else
    let handle ← getAdspCurrentProcess1Handle domain
    if handle ≠ invalidHandle then discard (invokeSession handle) else discard callOut
    forAllNodes .nonDomain domain (fun hi => discard (remoteHandleClose (hi.remote % 2 ^ 32)))
    forAllNodes .reverse domain (fun hi => discard (closeReverseHandle hi.addr))
    forAllNodes .multiDomain domain (fun hi => discard (remoteHandle64Close hi.addr))
    return aeeSuccess

/-! ### Runs -/

/-- The operations on the table.  `switchThread` lets a thread with another context go on, and
`sessionHandle` is any other function of the library that asks for a constant handle. -/
inductive TableOp
  | remoteHandleOpen (name : ModuleName) (ph : ℕ)
  | remoteHandle64Open (domain : Option Domain) (name : ModuleName)
  | remoteHandleClose (h : ℕ)
  | remoteHandle64Close (h : ℕ)
  | closeDomainSession (domain : Domain)
  | domainDeinit (domain : Domain)
  | appsRemotectlOpen
  | appsRemotectlClose (handle : ℕ)
  | sessionHandle (s : SessionHandle) (const : ℕ) (domain : Domain)
  | switchThread (domain : Option Domain)

/-- Runs one operation. -/
def TableOp.exec : TableOp → TableM env PUnit
  | .remoteHandleOpen name ph => discard (FastRpc.remoteHandleOpen name ph)
  | .remoteHandle64Open domain name => discard (FastRpc.remoteHandle64Open domain name)
  | .remoteHandleClose h => discard (FastRpc.remoteHandleClose h)
  | .remoteHandle64Close h => discard (FastRpc.remoteHandle64Close h)
  | .closeDomainSession domain => discard (FastRpc.closeDomainSession domain)
  | .domainDeinit domain => FastRpc.domainDeinit domain
  | .appsRemotectlOpen => discard FastRpc.appsRemotectlOpen
  | .appsRemotectlClose handle => discard (FastRpc.appsRemotectlClose handle)
  | .sessionHandle s const domain => discard (getSessionHandle s const domain)
  | .switchThread domain => emit (.setThreadContext domain)

end Functions

/-- The table after the operations of a run, from the start. -/
def tableAfter (env : TableEnv) (ops : List TableOp) : HandleTable :=
  Logged.runAll (@TableOp.exec env) HandleTable.start ops

/-- Surroundings in which every call succeeds, the DSP gives out the given handles, and a block comes
from above all the live ones. -/
def quietEnv (ids : ℕ → ℕ) : TableEnv where
  answer i := { handle := some (ids i), dev := 3 }
  calloc _ used :=
    if used.foldr max 0x1000 + 17 < 2 ^ 64 then some (used.foldr max 0x1000 + 16) else none
  calloc_fresh := by
    intro i used addr h
    split at h
    · obtain rfl := Option.some.inj h
      refine ⟨fun hmem => ?_, ?_, by omega⟩
      · have hle : ∀ (l : List ℕ) (a : ℕ), a ∈ l → a ≤ l.foldr max 0x1000 := by
          intro l
          induction l with
          | nil => simp
          | cons b l ih => simp only [List.mem_cons, List.foldr_cons]; grind
        have hlt := hle used _ hmem
        omega
      · have hle : ∀ l : List ℕ, 0x1000 ≤ l.foldr max 0x1000 := by
          intro l
          induction l with
          | nil => simp
          | cons b l ih => simp only [List.foldr_cons]; omega
        have hlt := hle used
        omega
    · cases h

/-- The steps of a run, from the start. -/
def tableHistory (env : TableEnv) (ops : List TableOp) : List TableStep :=
  Logged.history (@TableOp.exec env) HandleTable.start ops

end FastRpc
