import FastRpc.HandleTable
import FastRpc.EarlyExit

/-! # Session control

`remote_session_control` is one switch over the request ids, with the data block of the caller read
as the structure of the request.  Before the switch it takes a reference on the default domain
(`FASTRPC_GET_REF(domain)`); every branch and every failed check ends at the label `bail`, where
`FASTRPC_PUT_REF(domain)` gives back a reference on the domain that the local variable `domain` names
by then.

The function is a program of `EarlyExit` over its local variables and the part of `hlist` that it
works on.  The setters that it calls are embedded with it.  What leaves the library, and the larger
operations (`close_domain_session`, the contexts, the notifications), are given by a `ControlEnv`:
each of them returns any code and leaves any table.  `data` is `none` where the caller passes `NULL`;
sizes are those of a 64-bit target.  The fields `taken` and `released` of the state record the
domains of the references, as the calls of `fastrpc_session_get` and `fastrpc_session_put` name
them. -/

namespace FastRpc.SessionControl

open EarlyExit

/-! ### The table -/

/-- `struct fastrpc_thread_params`. -/
structure ThreadParams where
  thread_priority : ℤ
  stack_size : ℤ
  reqID : ℤ
  update_requested : ℤ

/-- `struct handle_list`, with the fields that session control uses. -/
structure ControlList where
  ref : ℕ
  state : DomainState
  dev : ℤ
  unsigned_module : ℤ
  pd_dump : Bool
  pd_initmem_size : ℕ
  th_params : ThreadParams
  is_session_reserved : Bool
  sessionname : List Char

/-- `hlist`, with the domain in the caller's thread context. -/
structure ControlTable where
  hlist : Domain → ControlList
  tlsKey : Option Domain

/-- Changes the entry of one domain. -/
def ControlTable.modify (t : ControlTable) (domain : Domain) (f : ControlList → ControlList) :
    ControlTable :=
  { t with hlist := Function.update t.hlist domain (f (t.hlist domain)) }

/-- `IS_VALID_EFFECTIVE_DOMAIN_ID`, with the domain of a valid id. -/
def effectiveDomain (domain : ℤ) : Option Domain :=
  if h : 0 ≤ domain ∧ domain < 32 then some ⟨domain.toNat, toNat_lt_of_domain h⟩ else none

@[simp] theorem effectiveDomain_coe (d : Domain) : effectiveDomain (d : ℕ) = some d := by
  have hd := d.isLt
  unfold effectiveDomain
  rw [dif_pos (by omega)]
  rfl

/-- The reference of `fastrpc_session_get`. -/
def ControlTable.takeRef (t : ControlTable) (domain : Domain) : ControlTable :=
  { t.modify domain (fun hl => { hl with ref := addU32 hl.ref 1 }) with tlsKey := some domain }

/-- `fastrpc_session_put`.  For an id that is no domain the source counts down in memory outside
the table. -/
def ControlTable.putRef (t : ControlTable) (domain : ℤ) : ControlTable :=
  match effectiveDomain domain with
  | none => t
  | some d => t.modify d (fun hl => { hl with ref := hl.ref - 1 })

/-! ### The data blocks -/

/-- `struct remote_rpc_thread_params`. -/
structure RpcThreadParams where
  domain : ℤ
  prio : ℤ
  stack_size : ℤ

/-- `struct remote_rpc_control_unsigned_module`. -/
structure RpcControlUnsignedModule where
  domain : ℤ
  enable : ℤ

/-- `struct remote_rpc_relative_thread_priority`. -/
structure RpcRelativeThreadPriority where
  domain : ℤ
  relative_thread_priority : ℤ

/-- `struct remote_rpc_process_clean_params`. -/
structure RpcProcessCleanParams where
  domain : ℤ

/-- `struct remote_rpc_session_close`. -/
structure RpcSessionClose where
  domain : ℤ

/-- `struct remote_rpc_control_pd_dump`. -/
structure RpcControlPdDump where
  domain : ℤ
  enable : ℤ

/-- `struct remote_process_type`, without its output. -/
structure RpcProcessType where
  domain : ℤ

/-- `remote_rpc_notif_register_t`. -/
structure RpcNotifRegister where
  context : ℕ
  domain : ℤ
  notifier_fn : ℕ

/-- `struct remote_rpc_pd_initmem_size`. -/
structure RpcPdInitmemSize where
  domain : ℤ
  pd_initmem_size : ℕ

/-- `remote_rpc_reserve_new_session_t`, without its outputs. -/
structure RpcReserveNewSession where
  domain_name : Option (List Char)
  domain_name_len : ℕ
  session_name : Option (List Char)
  session_name_len : ℕ

/-- `remote_rpc_effective_domain_id_t`, without its output. -/
structure RpcEffectiveDomainId where
  domain_name : Option (List Char)
  domain_name_len : ℕ
  session_id : ℕ

/-- `remote_rpc_get_uri_t`; `uri` says whether the caller gave a buffer for the result. -/
structure RpcGetUri where
  domain_name : Option (List Char)
  domain_name_len : ℕ
  session_id : ℕ
  module_uri : Option (List Char)
  module_uri_len : ℕ
  uri : Bool
  uri_len : ℕ

/-- `fastrpc_context_create`, without its output. -/
structure ContextCreate where
  effec_domain_ids : List ℕ
  flags : ℕ

/-- `fastrpc_context_destroy`. -/
structure ContextDestroy where
  ctx : ℕ
  flags : ℕ

/-- `req` with `data`; `unsupported` is any id that the switch does not know. -/
inductive ControlRequest
  | threadParams (data : Option RpcThreadParams)
  | controlUnsignedModule (data : Option RpcControlUnsignedModule)
  | relativeThreadPriority (data : Option RpcRelativeThreadPriority)
  | remoteProcessKill (data : Option RpcProcessCleanParams)
  | sessionClose (data : Option RpcSessionClose)
  | controlPdDump (data : Option RpcControlPdDump)
  | remoteProcessException (data : Option RpcProcessCleanParams)
  | remoteProcessType (data : Option RpcProcessType)
  | registerStatusNotifications (data : Option RpcNotifRegister)
  | pdInitmemSize (data : Option RpcPdInitmemSize)
  | reserveNewSession (data : Option RpcReserveNewSession)
  | getEffectiveDomainId (data : Option RpcEffectiveDomainId)
  | getUri (data : Option RpcGetUri)
  | contextCreate (data : Option ContextCreate)
  | contextDestroy (data : Option ContextDestroy)
  | unsupported (req : ℕ)

/-- What a request writes into its data block. -/
inductive ControlReply
  | processType (process_type : ℤ)
  | session (effective_domain_id session_id : ℕ)
  | effectiveDomainId (effective_domain_id : ℤ)
  | uri (text : List Char)

/-! ### Constants -/

/-- `AEE_EALREADYLOADED`. -/
def aeeEAlreadyLoaded : ℤ := 0x5

/-- `AEE_EUNSUPPORTED`. -/
def aeeEUnsupported : ℤ := 0x14

/-- `AEE_EBADSIZE`. -/
def aeeEBadSize : ℤ := 0x4d

/-- `AEE_ENOSESSION`. -/
def aeeENoSession : ℤ := 0x8a

/-- `(int)(DSP_AEE_EOFFSET + AEE_EBADSTATE)`. -/
def dspEBadState : ℤ := 0x8000040d - 2 ^ 32

/-- `DEFAULT_UTHREAD_PRIORITY`. -/
def defaultUthreadPriority : ℤ := 0xC0

/-- `SUBSYSTEM_NAME`, by the domain id. -/
def subsystemName : ℤ → String
  | 0 => "adsp"
  | 1 => "mdsp"
  | 2 => "sdsp"
  | 3 => "cdsp"
  | 4 => "cdsp1"
  | 5 => "gdsp0"
  | 6 => "gdsp1"
  | _ => "reserved"

/-- `get_domain_from_name(.., DOMAIN_NAME_STAND_ALONE)`: the domain whose name the string begins
with. -/
def getDomainFromName (uri : List Char) : ℤ :=
  if "adsp".toList.isPrefixOf uri then 0
  else if "mdsp".toList.isPrefixOf uri then 1
  else if "sdsp".toList.isPrefixOf uri then 2
  else if "cdsp1".toList.isPrefixOf uri then 4
  else if "cdsp".toList.isPrefixOf uri then 3
  else if "gdsp0".toList.isPrefixOf uri then 5
  else if "gdsp1".toList.isPrefixOf uri then 6
  else -1

/-! ### The operations that the requests call -/

/-- The operations that the model does not look into: the code they return, and the table they
leave. -/
structure ControlEnv where
  fastrpcInitOnce : ℤ
  fastrpcSetRemoteUthreadParams : Domain → ControlTable → ℤ × ControlTable
  fastrpcDspProcessClean : ℤ → ControlTable → ℤ × ControlTable
  closeDomainSession : Domain → ControlTable → ℤ × ControlTable
  adspCurrentProcessException : Domain → ControlTable → ℤ × ControlTable
  isStatusNotifVersion2Supported : Domain → ControlTable → Bool × ControlTable
  fastrpcNotifRegister : Domain → RpcNotifRegister → ControlTable → ℤ × ControlTable
  fastrpcCreateContext : ContextCreate → ControlTable → ℤ × ControlTable
  fastrpcDestroyContext : ℕ → ControlTable → ℤ × ControlTable

/-- `set_unsigned_pd_attribute`. -/
def setUnsignedPdAttribute (domain : Domain) (enable : ℤ) (t : ControlTable) : ℤ × ControlTable :=
  if (t.hlist domain).dev ≠ -1 then
    if (t.hlist domain).unsigned_module = enable then (aeeSuccess, t) else (aeeEAlreadyLoaded, t)
  else
    (aeeSuccess, t.modify domain (fun hl =>
      { hl with unsigned_module := if enable ≠ 0 then 1 else 0 }))

/-- The thread parameters of a request are stored one after the other, each once it is checked. -/
def storeThreadPriority (domain : Domain) (thread_priority : ℤ) (t : ControlTable) :
    ℤ × ControlTable :=
  if thread_priority = -1 then (aeeSuccess, t)
  else if thread_priority < 1 ∨ 255 < thread_priority then (aeeEBadParm, t)
  else
    (aeeSuccess, t.modify domain (fun hl =>
      { hl with th_params := { hl.th_params with thread_priority := thread_priority } }))

/-- The stack size of a request. -/
def storeStackSize (domain : Domain) (stack_size : ℤ) (t : ControlTable) : ℤ × ControlTable :=
  if stack_size = -1 then (aeeSuccess, t)
  else if stack_size < 16 * 1024 ∨ 8 * 1024 * 1024 < stack_size then (aeeEBadParm, t)
  else
    (aeeSuccess, t.modify domain (fun hl =>
      { hl with th_params := { hl.th_params with stack_size := stack_size } }))

/-- `store_domain_thread_params`. -/
def storeDomainThreadParams (env : ControlEnv) (domain : Domain) (thread_priority stack_size : ℤ)
    (t : ControlTable) : ℤ × ControlTable :=
  let p := storeThreadPriority domain thread_priority t
  if p.1 ≠ aeeSuccess then p
  else
    let q := storeStackSize domain stack_size p.2
    if q.1 ≠ aeeSuccess then q
    else
      let u := q.2.modify domain (fun hl =>
        { hl with th_params := { hl.th_params with reqID := 1, update_requested := 1 } })
      if (u.hlist domain).dev ≠ -1 then env.fastrpcSetRemoteUthreadParams domain u
      else (aeeSuccess, u)

/-- `set_pd_dump_attribute`. -/
def setPdDumpAttribute (domain : ℤ) (enable : ℤ) (t : ControlTable) : ℤ × ControlTable :=
  match effectiveDomain domain with
  | none => (aeeEBadParm, t)
  | some d =>
      if (t.hlist d).dev ≠ -1 then (aeeERpc, t)
      else (aeeSuccess, t.modify d (fun hl => { hl with pd_dump := enable ≠ 0 }))

/-- `store_domain_pd_initmem_size`. -/
def storeDomainPdInitmemSize (domain : Domain) (pd_initmem_size : ℕ) (t : ControlTable) :
    ℤ × ControlTable :=
  if pd_initmem_size < 3 * 1024 * 1024 ∨ 200 * 1024 * 1024 < pd_initmem_size then (aeeEBadParm, t)
  else (aeeSuccess, t.modify domain (fun hl => { hl with pd_initmem_size := pd_initmem_size }))

/-- The loop of `FASTRPC_RESERVE_NEW_SESSION` over the sessions of a domain.  `strlcpy` copies one
character less than the size it is given. -/
def reserveSession (t : ControlTable) (domain : ℤ) (session_name : List Char)
    (session_name_len : ℕ) : List ℕ → Option (Domain × ℕ × ControlTable)
  | [] => none
  | jj :: rest =>
      match effectiveDomain (domain + 8 * jj) with
      | none => none
      | some ii =>
          if (t.hlist ii).is_session_reserved then
            reserveSession t domain session_name session_name_len rest
          else
            some (ii, jj, t.modify ii (fun hl =>
              { hl with
                is_session_reserved := true
                sessionname := session_name.take (min session_name_len 29 - 1) }))

/-! ### The requests -/

/-- The table and the local variables of `remote_session_control`. -/
structure ControlState where
  table : ControlTable
  nErr : ℤ
  domain : ℤ
  ref : Bool
  reply : Option ControlReply
  taken : List ℤ
  released : List ℤ

/-- The part of `remote_session_control` before `bail`. -/
abbrev ControlM := EarlyExit ControlState

/-- `VERIFYC(cond, code)`. -/
def verifyc (cond : Prop) [Decidable cond] (code : ℤ) : ControlM PUnit :=
  if cond then pure ⟨⟩ else do
    update (fun s => { s with nErr := code })
    failure

/-- `nErr = op(..)`, for an operation that works on the table. -/
def call (op : ControlTable → ℤ × ControlTable) : ControlM PUnit :=
  update (fun s => { s with nErr := (op s.table).1, table := (op s.table).2 })

/-- `VERIFY(AEE_SUCCESS == (nErr = op(..)))`. -/
def verify (op : ControlTable → ℤ × ControlTable) : ControlM PUnit := do
  call op
  let s ← get
  if s.nErr ≠ aeeSuccess then failure

/-- A valid effective domain id. -/
def verifyDomain (domain : ℤ) : ControlM Domain :=
  match effectiveDomain domain with
  | none => do
      update (fun s => { s with nErr := aeeEBadParm })
      failure
  | some d => pure d

/-- The data block of a request; `NULL` is a bad parameter. -/
def verifyData {α : Type} : Option α → ControlM α
  | none => do
      update (fun s => { s with nErr := aeeEBadParm })
      failure
  | some a => pure a

/-- An assignment to the local variable `domain`. -/
def setDomain (domain : ℤ) : ControlM PUnit := update (fun s => { s with domain := domain })

/-- Writes the outputs of the request. -/
def setReply (reply : ControlReply) : ControlM PUnit :=
  update (fun s => { s with reply := some reply })

/-- One domain, or all of them where the data block names -1. -/
def forDomains (domain : ℤ) (body : Domain → ControlM PUnit) : ControlM PUnit :=
  if domain ≠ -1 then do
    let d ← verifyDomain domain
    body d
  else (List.finRange 32).forM body

section Requests

variable (env : ControlEnv) (datalen : ℕ)

/-- `FASTRPC_THREAD_PARAMS`. -/
def threadParams (data : Option RpcThreadParams) : ControlM PUnit := do
  let params ← verifyData data
  verifyc (datalen = 12) aeeEBadParm
  forDomains params.domain (fun d =>
    verify (storeDomainThreadParams env d params.prio params.stack_size))

/-- `DSPRPC_CONTROL_UNSIGNED_MODULE`. -/
def controlUnsignedModule (data : Option RpcControlUnsignedModule) : ControlM PUnit := do
  verifyc (datalen = 8) aeeEBadParm
  let um ← verifyData data
  forDomains um.domain (fun d => verify (setUnsignedPdAttribute d um.enable))

/-- The priority of `FASTRPC_RELATIVE_THREAD_PRIORITY`. -/
def relativePriority (rel_thread_prio : ℤ) : ℤ :=
  if rel_thread_prio < 0 then
    if -rel_thread_prio - 1 ≥ defaultUthreadPriority - 1 then 1
    else defaultUthreadPriority + rel_thread_prio
  else
    if rel_thread_prio > 255 - defaultUthreadPriority then 255
    else defaultUthreadPriority + rel_thread_prio

/-- `FASTRPC_RELATIVE_THREAD_PRIORITY`. -/
def relativeThreadPriority (data : Option RpcRelativeThreadPriority) : ControlM PUnit := do
  verifyc (datalen = 8) aeeEBadParm
  let params ← verifyData data
  forDomains params.domain (fun d =>
    verify (storeDomainThreadParams env d (relativePriority params.relative_thread_priority) (-1)))

/-- `FASTRPC_REMOTE_PROCESS_KILL`. -/
def remoteProcessKill (data : Option RpcProcessCleanParams) : ControlM PUnit := do
  verifyc (datalen = 4) aeeEBadParm
  let dp ← verifyData data
  setDomain dp.domain
  verify (env.fastrpcDspProcessClean dp.domain)

/-- `FASTRPC_SESSION_CLOSE`. -/
def sessionClose (data : Option RpcSessionClose) : ControlM PUnit := do
  let sclose ← verifyData data
  verifyc (datalen = 4) aeeEBadParm
  forDomains sclose.domain (fun d => verify (env.closeDomainSession d))

/-- `FASTRPC_CONTROL_PD_DUMP`. -/
def controlPdDump (data : Option RpcControlPdDump) : ControlM PUnit := do
  verifyc (datalen = 8) aeeEBadParm
  let pddump ← verifyData data
  if pddump.domain ≠ -1 then verify (setPdDumpAttribute pddump.domain pddump.enable)
  else (List.finRange 32).forM (fun ii => verify (setPdDumpAttribute (ii : ℕ) pddump.enable))

/-- `FASTRPC_REMOTE_PROCESS_EXCEPTION`.  A process that took the exception answers with
`AEE_EBADSTATE`; any other answer is the error. -/
def remoteProcessException (data : Option RpcProcessCleanParams) : ControlM PUnit := do
  verifyc (datalen = 4) aeeEBadParm
  let dp ← verifyData data
  setDomain dp.domain
  let d ← verifyDomain dp.domain
  verify (fun t =>
    let r := env.adspCurrentProcessException d t
    let ret := if r.1 = aeeSuccess then aeeERpc else r.1
    (if ret = dspEBadState then aeeSuccess else ret, r.2))

/-- `FASTRPC_REMOTE_PROCESS_TYPE`. -/
def remoteProcessType (data : Option RpcProcessType) : ControlM PUnit := do
  verifyc (datalen = 8) aeeEBadParm
  let typ ← verifyData data
  setDomain typ.domain
  let d ← verifyDomain typ.domain
  let s ← get
  if (s.table.hlist d).unsigned_module ∉ [0, 1] then do
    setReply (.processType (-1))
    call (fun t => (aeeEBadParm, t))
  else setReply (.processType (s.table.hlist d).unsigned_module)

/-- `FASTRPC_REGISTER_STATUS_NOTIFICATIONS`.  The id is valid where the source asks whether it
is -1. -/
def registerStatusNotifications (data : Option RpcNotifRegister) : ControlM PUnit := do
  verifyc (datalen = 24) aeeEBadParm
  let notif ← verifyData data
  setDomain notif.domain
  let d ← verifyDomain notif.domain
  verify (fun t =>
    let r := env.isStatusNotifVersion2Supported d t
    (if r.1 then aeeSuccess else aeeEUnsupported, r.2))
  verify (env.fastrpcNotifRegister d notif)

/-- `FASTRPC_PD_INITMEM_SIZE`; for all domains, the unsigned ones are passed over. -/
def pdInitmemSize (data : Option RpcPdInitmemSize) : ControlM PUnit := do
  verifyc (datalen = 8) aeeEBadParm
  let params ← verifyData data
  if params.domain ≠ -1 then do
    let d ← verifyDomain params.domain
    let s ← get
    verifyc ((s.table.hlist d).unsigned_module = 0) aeeEUnsupported
    verify (storeDomainPdInitmemSize d params.pd_initmem_size)
  else
    (List.finRange 32).forM (fun ii => do
      let s ← get
      if (s.table.hlist ii).unsigned_module = 0 then
        verify (storeDomainPdInitmemSize ii params.pd_initmem_size))

/-- `FASTRPC_RESERVE_NEW_SESSION`. -/
def reserveNewSession (data : Option RpcReserveNewSession) : ControlM PUnit := do
  verifyc (datalen = 40) aeeEBadParm
  let sess ← verifyData data
  let domain_name ← verifyData sess.domain_name
  verifyc (sess.domain_name_len > 0) aeeEBadParm
  let session_name ← verifyData sess.session_name
  verifyc (sess.session_name_len > 0) aeeEBadParm
  setDomain (getDomainFromName domain_name)
  verifyc (0 ≤ getDomainFromName domain_name ∧ getDomainFromName domain_name < 8) aeeEBadParm
  setReply (.session 32 4)
  let s ← get
  match reserveSession s.table (getDomainFromName domain_name) session_name sess.session_name_len
      [1, 2, 3, 4] with
  | none => verifyc False aeeENoSession
  | some (ii, jj, t) => do
      call (fun _ => (aeeSuccess, t))
      setReply (.session ii jj)

/-- `FASTRPC_GET_EFFECTIVE_DOMAIN_ID`. -/
def getEffectiveDomainId (data : Option RpcEffectiveDomainId) : ControlM PUnit := do
  verifyc (datalen = 24) aeeEBadParm
  let effec_domain_id ← verifyData data
  let domain_name ← verifyData effec_domain_id.domain_name
  verifyc (effec_domain_id.domain_name_len > 0 ∧ effec_domain_id.session_id < 4) aeeEBadParm
  setDomain (getDomainFromName domain_name)
  verifyc (0 ≤ getDomainFromName domain_name ∧ getDomainFromName domain_name < 8) aeeEBadParm
  setReply (.effectiveDomainId (getDomainFromName domain_name + 8 * effec_domain_id.session_id))
  verifyc ((effectiveDomain (getDomainFromName domain_name + 8 * effec_domain_id.session_id)).isSome)
    aeeENoSession

/-- The text of `FASTRPC_GET_URI`. -/
def sessionUri (module_uri : List Char) (domain : ℤ) (session_id : ℕ) : List Char :=
  module_uri ++ "&_dom=".toList ++ (subsystemName domain).toList ++ "&_session=".toList ++
    Nat.toDigits 10 session_id

/-- `FASTRPC_GET_URI`.  A buffer that is too short is an error, and still gets the text up to its
end. -/
def getUri (data : Option RpcGetUri) : ControlM PUnit := do
  verifyc (datalen = 48) aeeEBadParm
  let rpc_uri ← verifyData data
  let domain_name ← verifyData rpc_uri.domain_name
  verifyc (rpc_uri.domain_name_len > 0 ∧ rpc_uri.session_id < 4) aeeEBadParm
  setDomain (getDomainFromName domain_name)
  verifyc (0 ≤ getDomainFromName domain_name ∧ getDomainFromName domain_name < 8) aeeEBadParm
  let module_uri ← verifyData rpc_uri.module_uri
  verifyc (rpc_uri.module_uri_len > 0) aeeEBadParm
  verifyc (rpc_uri.uri ∧ rpc_uri.uri_len > rpc_uri.module_uri_len) aeeEBadParm
  let text := sessionUri module_uri (getDomainFromName domain_name) rpc_uri.session_id
  if rpc_uri.uri_len ≤ text.length then call (fun t => (aeeEBadSize, t))
  setReply (.uri (text.take (rpc_uri.uri_len - 1)))

/-- `FASTRPC_CONTEXT_CREATE`. -/
def contextCreate (data : Option ContextCreate) : ControlM PUnit := do
  verifyc (datalen = 32) aeeEBadParm
  let create ← verifyData data
  verify (env.fastrpcCreateContext create)

/-- `FASTRPC_CONTEXT_DESTROY`. -/
def contextDestroy (data : Option ContextDestroy) : ControlM PUnit := do
  verifyc (datalen = 16) aeeEBadParm
  let dest ← verifyData data
  verifyc (dest.flags = 0) aeeEBadParm
  verify (env.fastrpcDestroyContext dest.ctx)

/-- The switch over the request ids. -/
def switch : ControlRequest → ControlM PUnit
  | .threadParams data => threadParams env datalen data
  | .controlUnsignedModule data => controlUnsignedModule datalen data
  | .relativeThreadPriority data => relativeThreadPriority env datalen data
  | .remoteProcessKill data => remoteProcessKill env datalen data
  | .sessionClose data => sessionClose env datalen data
  | .controlPdDump data => controlPdDump datalen data
  | .remoteProcessException data => remoteProcessException env datalen data
  | .remoteProcessType data => remoteProcessType datalen data
  | .registerStatusNotifications data => registerStatusNotifications env datalen data
  | .pdInitmemSize data => pdInitmemSize datalen data
  | .reserveNewSession data => reserveNewSession datalen data
  | .getEffectiveDomainId data => getEffectiveDomainId datalen data
  | .getUri data => getUri datalen data
  | .contextCreate data => contextCreate env datalen data
  | .contextDestroy data => contextDestroy env datalen data
  | .unsupported _ => call (fun t => (aeeEUnsupported, t))

/-- `FASTRPC_GET_REF(domain)`, with `domain` as it is initialised. -/
def getRef : ControlM PUnit := do
  let s ← get
  verifyc ((s.table.hlist defaultDomainId).state ≠ .deinit) aeeENotInitialized
  update (fun s =>
    { s with
      table := s.table.takeRef defaultDomainId
      ref := true
      taken := s.taken ++ [s.domain] })

/-- `FASTRPC_PUT_REF(domain)`. -/
def putRef (s : ControlState) : ControlState :=
  if s.ref then
    { s with table := s.table.putRef s.domain, ref := false, released := s.released ++ [s.domain] }
  else s

/-- The local variables of `remote_session_control` as they are initialised. -/
def ControlState.enter (t : ControlTable) : ControlState :=
  ⟨t, aeeSuccess, (defaultDomainId : ℕ), false, none, [], []⟩

/-- `remote_session_control` up to `bail`. -/
def body (req : ControlRequest) : ControlM PUnit := do
  verify (fun t => (env.fastrpcInitOnce, t))
  getRef
  switch env datalen req

/-- `remote_session_control` as it arrives at `bail`. -/
def atBail (req : ControlRequest) (t : ControlTable) : ControlState :=
  (body env datalen req).leaves (.enter t)

/-- `remote_session_control`. -/
def remoteSessionControl (req : ControlRequest) (t : ControlTable) : ControlState :=
  putRef (atBail env datalen req t)

end Requests

end FastRpc.SessionControl
