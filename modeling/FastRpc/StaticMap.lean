import FastRpc.Basic
import FastRpc.BlockHeap
import FastRpc.CInt
import FastRpc.Threads
import FastRpc.Transition

/-! # The static mappings of a session

`smaplst` has one list of `static_map` nodes for every effective domain, each list with its own
mutex.  `fastrpc_mmap` searches the list, maps the buffer with the lock released and appends a
node; `fastrpc_munmap` and `fastrpc_munmap_internal` find the node, set its reference count to `0`,
call the driver with the lock released and take the lock again to dequeue and free the node;
`fastrpc_buffer_ref` and `fastrpc_mem_close` have one locked section each.

Every locked section, and every piece of code between two of them, is a function on the `Store`.
The nodes are blocks of a `BlockHeap`, so that each access goes through `touch` or `write` and
an access to a freed node is recorded.  A call is at a place `Pc` with the local variables that it
still uses, and `advance` runs it to its next place.  What the driver, `calloc` and the session's
own tests answer comes with the event. -/

namespace FastRpc.StaticMap

open BlockHeap CInt

/-! ### Data -/

/-- `struct fastrpc_mem_map`. -/
structure MemMap where
  fd : ℤ
  offset : ℤ
  flags : ℕ
  attrs : ℤ
  vaddrin : ℕ
  length : ℕ
  vaddrout : ℕ
  deriving DecidableEq, Repr

/-- `struct static_map`; its queue links are the lists of the store. -/
structure Node where
  map : MemMap
  refs : ℤ
  deriving DecidableEq, Repr

/-- The nodes, the list of each domain, and the dequeued nodes in the order of their dequeuing. -/
structure Store where
  heap : Heap Node
  smaplst : Domain → List ℕ
  dequeued : List ℕ

/-- The store after `fastrpc_mem_init`. -/
def Store.init : Store := ⟨Heap.empty ⟨⟨0, 0, 0, 0, 0, 0, 0⟩, 0⟩, fun _ => [], []⟩

/-- What `fastrpc_munmap` (by file descriptor) and `fastrpc_munmap_internal` (by DSP address)
search for. -/
inductive Key
  | fd (fd : ℤ)
  | raddr (raddr : ℕ)
  deriving DecidableEq, Repr

/-- The node's mapping is the one searched for. -/
def Key.found : Key → MemMap → Bool
  | .fd n, map => map.fd == n
  | .raddr a, map => map.vaddrout == a

/-- The result of `ioctl_mmap` or `ioctl_munmap`, with `errno` and the mapped DSP address. -/
structure DriverAnswer where
  iocErr : ℤ
  errno : ℤ
  vaddrout : ℕ
  deriving DecidableEq, Repr

/-- `errno == ENOTTY || iocErr == (int)(DSP_AEE_EOFFSET | AEE_EUNSUPPORTED)`. -/
def DriverAnswer.mmapUnsupported (a : DriverAnswer) : Bool :=
  a.errno == 25 || a.iocErr == 0x80000414 - 2 ^ 32

/-- `errno == ENOTTY || errno == EINVAL`. -/
def DriverAnswer.munmapUnsupported (a : DriverAnswer) : Bool := a.errno == 25 || a.errno == 22

/-- What a call returns: `nErr` (`none` for `AEE_SUCCESS`) and its output arguments. -/
structure Outcome where
  nErr : Option AEEResult
  raddr : Option ℕ
  va : Option ℕ
  size : Option ℕ
  deriving DecidableEq, Repr

/-- A result without outputs. -/
def Outcome.of (nErr : Option AEEResult) : Outcome := ⟨nErr, none, none, none⟩

/-! ### Sections -/

variable (s : Store) (domain : Domain)

/-- `QLIST_NEXTSAFE_FOR_ALL` with a `break` at the first match: the last node visited. -/
def searchMap (found : MemMap → Bool) (h : Heap Node) (node : Option ℕ) :
    List ℕ → Heap Node × Option ℕ
  | [] => (h, node)
  | n :: ns =>
      let h := h.touch n
      if found (h.cell n).map then (h, some n) else searchMap found h (some n) ns

/-- The nodes whose links `QNode_Dequeue` rewrites. -/
def neighbours (n : ℕ) : List ℕ → List ℕ
  | [] => []
  | [_] => []
  | a :: b :: ns =>
      if a = n then [b] else if b = n then a :: ns.head?.toList else neighbours n (b :: ns)

/-- A read of fields of a node. -/
def Store.touch (n : ℕ) : Store := { s with heap := s.heap.touch n }

/-- `QList_AppendNode(&smaplst[domain].ql, &mNode->qn)`. -/
def Store.append (n : ℕ) : Store :=
  { s with
    heap := (s.heap.touch n).touchAll (s.smaplst domain).getLast?.toList,
    smaplst := Function.update s.smaplst domain (s.smaplst domain ++ [n]) }

/-- `QNode_DequeueZ(&mNode->qn)`: nothing when the node is not queued. -/
def Store.dequeueZ (n : ℕ) : Store :=
  if n ∈ s.smaplst domain then
    { heap := (s.heap.touch n).touchAll (neighbours n (s.smaplst domain)),
      smaplst := Function.update s.smaplst domain ((s.smaplst domain).erase n),
      dequeued := s.dequeued ++ [n] }
  else s.touch n

/-- `free(mNode)`. -/
def Store.free (n : ℕ) : Store := { s with heap := s.heap.free n }

/-- The first locked section of `fastrpc_mmap_helper`, with its variable `tNode`. -/
def mmapSearch (fd : ℤ) : Store × Option ℕ :=
  let r := searchMap (fun map => map.fd == fd) s.heap none (s.smaplst domain)
  ({ s with heap := r.1 }, r.2)

/-- `tNode->map.fd`, read after the lock is released, and the allocation of `mNode`: an error, or
the new node. -/
def mmapAllocate (map : MemMap) (tNode : Option ℕ) (calloc : Bool) :
    Store × Except AEEResult ℕ :=
  let h := s.heap.touchAll tNode.toList
  if tNode.any (fun n => (h.cell n).map.fd == map.fd) then ({ s with heap := h }, .error .EALREADY)
  else if calloc then ({ s with heap := h.alloc ⟨map, 0⟩ }, .ok h.next)
  else ({ s with heap := h }, .error .ENOMEMORY)

/-- The driver's answer to `MEM_MAP`: the node is filled in, or freed at the end of the call. -/
def mmapDriver (mNode : ℕ) (a : DriverAnswer) : Store × Option AEEResult :=
  if a.iocErr = 0 then
    let node := s.heap.cell mNode
    ({ s with heap := s.heap.write mNode ⟨{ node.map with vaddrout := a.vaddrout }, 1⟩ }, none)
  else (s.free mNode, some (if a.mmapUnsupported then .EUNSUPPORTED else .EFAILED))

/-- The first locked section of `fastrpc_munmap` and `fastrpc_munmap_internal`: an error, or the
node, whose reference count is then `0`. -/
def munmapFind (key : Key) : Store × Except AEEResult ℕ :=
  let r := searchMap key.found s.heap none (s.smaplst domain)
  let h := r.1
  match r.2 with
  | none => ({ s with heap := h }, .error .ENOSUCHMAP)
  | some mNode =>
      let node := h.cell mNode
      if key.found node.map then
        if 1 < node.refs then ({ s with heap := h }, .error .EBADPARM)
        else ({ s with heap := h.write mNode { node with refs := 0 } }, .ok mNode)
      else ({ s with heap := h }, .error .ENOSUCHMAP)

/-- The arguments of the driver's `MEM_UNMAP` are read from the node with the lock released. -/
def munmapDriver (mNode : ℕ) : Store := s.touch mNode

/-- The last locked section of `fastrpc_munmap` and `fastrpc_munmap_internal`. -/
def munmapFinish (mNode : ℕ) (a : DriverAnswer) : Store × Option AEEResult :=
  if a.iocErr = 0 then ((s.dequeueZ domain mNode).free mNode, none)
  else if a.munmapUnsupported then (s, some .EUNSUPPORTED)
  else
    ({ s with heap := s.heap.write mNode { s.heap.cell mNode with refs := 1 } }, some .EFAILED)

/-- The loop of `fastrpc_mem_close` over the nodes of the list. -/
def closeLoop : Store → List ℕ → Store
  | s, [] => s
  | s, n :: ns => closeLoop (((s.touch n).dequeueZ domain n).free n) ns

/-- The locked section of `fastrpc_mem_close` on `smaplst`. -/
def fastrpcMemClose : Store := closeLoop domain s (s.smaplst domain)

/-- `fastrpc_buffer_ref`: the reference count of the mapping of `fd`, for `ref` in `1`, `-1`, `0`. -/
def fastrpcBufferRef (fd ref : ℤ) : Store × Outcome :=
  let r := searchMap (fun map => map.fd == fd) s.heap none (s.smaplst domain)
  let h := r.1
  match r.2.filter (fun n => (h.cell n).map.fd == fd) with
  | none => ({ s with heap := h }, .of (some .ENOSUCHMAP))
  | some n =>
      let node := h.cell n
      let result : Option AEEResult → Outcome :=
        fun nErr => ⟨nErr, none, some node.map.vaddrin, some node.map.length⟩
      if node.refs ≤ 0 then ({ s with heap := h }, .of (some .ERPC))
      else if ref = 1 then
        ({ s with heap := h.write n { node with refs := wrap (node.refs + 1) } }, result none)
      else if ref = -1 then
        if node.refs = 1 then ({ s with heap := h }, result (some .EBADPARM))
        else ({ s with heap := h.write n { node with refs := node.refs - 1 } }, result none)
      else if ref = 0 then ({ s with heap := h }, result none)
      else ({ s with heap := h }, result (some .ERPC))

/-! ### Calls -/

/-- A call of one of the functions, with its arguments. -/
inductive Call
  | mmap (domain fd : ℤ) (vaddr : ℕ) (offset : ℤ) (length flags : ℕ)
  | mmapInternal (domain fd : ℤ) (vaddr : ℕ) (offset : ℤ) (length flags : ℕ) (raddr : Bool)
  | munmap (domain fd : ℤ) (vaddr length : ℕ)
  | munmapInternal (domain : ℤ) (raddr length : ℕ)
  | bufferRef (domain fd ref : ℤ)
  | memClose (domain : ℤ)

/-- What a call finds before its first locked section: the result of `fastrpc_init_once`, the
domain of the thread, whether `fastrpc_session_get` and `fastrpc_session_dev` succeed. -/
structure Session where
  initOnce : Option AEEResult
  currentDomain : ℤ
  sessionGet : Bool
  sessionDev : Bool

/-- Where a call is, with the local variables that it still uses. -/
inductive Pc
  | returned (r : Outcome)
  | mmapEnter (domain : Domain) (map : MemMap)
  | mmapSearched (domain : Domain) (map : MemMap) (tNode : Option ℕ)
  | mmapAllocated (domain : Domain) (mNode : ℕ)
  | mmapMapped (domain : Domain) (mNode : ℕ) (vaddrout : ℕ)
  | munmapEnter (domain : Domain) (key : Key)
  | munmapFound (domain : Domain) (mNode : ℕ)
  | munmapCalled (domain : Domain) (mNode : ℕ) (a : DriverAnswer)
  | refEnter (domain : Domain) (fd ref : ℤ)
  | closeEnter (domain : Domain)
  deriving DecidableEq, Repr

/-- The call returns `nErr`. -/
def Pc.fails (nErr : AEEResult) : Pc := .returned (.of (some nErr))

/-- `IS_VALID_EFFECTIVE_DOMAIN_ID(domain)`. -/
def effectiveDomain (domain : ℤ) : Option Domain :=
  if h : 0 ≤ domain ∧ domain < 32 then some ⟨domain.toNat, toNat_lt_of_domain h⟩ else none

/-- The domain is checked, a reference is taken and the device is looked up. -/
def openSession (session : Session) (domain : ℤ) (enter : Domain → Pc) : Pc :=
  match effectiveDomain (if domain = -1 then session.currentDomain else domain) with
  | none => .fails .EBADPARM
  | some d =>
      if session.sessionGet && session.sessionDev then enter d else .fails .ENOTINITIALIZED

/-- `FASTRPC_MAP_MAX`. -/
def fastrpcMapMax : ℕ := 17

/-- `FASTRPC_MAP_RESERVED`. -/
def fastrpcMapReserved : ℕ := 1

/-- A call up to its first locked section. -/
def enter (session : Session) : Call → Pc
  | .mmap domain fd vaddr offset length flags =>
      match session.initOnce with
      | some nErr => .fails nErr
      | none =>
          let attrs : ℕ := flags / 2 ^ 16 * 2 ^ 16
          let flags : ℕ := flags % 2 ^ 16
          if 0 ≤ fd ∧ offset = 0 ∧ attrs = 0 then
            if flags < fastrpcMapMax ∧ flags ≠ fastrpcMapReserved then
              openSession session domain (.mmapEnter · ⟨fd, offset, flags, attrs, vaddr, length, 0⟩)
            else .fails .EBADPARM
          else .fails .EBADPARM
  | .mmapInternal domain fd vaddr offset length flags raddr =>
      match session.initOnce with
      | some nErr => .fails nErr
      | none =>
          let attrs : ℕ := flags / 2 ^ 16 * 2 ^ 16
          let flags : ℕ := flags % 2 ^ 16
          if raddr then
            if 0 ≤ fd ∧ offset = 0 ∧ attrs = 0 then
              openSession session domain (.mmapEnter · ⟨fd, offset, flags, attrs, vaddr, length, 0⟩)
            else .fails .EBADPARM
          else .fails .EBADPARM
  | .munmap domain fd _ _ =>
      match session.initOnce with
      | some nErr => .fails nErr
      | none =>
          if 0 ≤ fd then openSession session domain (.munmapEnter · (.fd fd)) else .fails .EBADPARM
  | .munmapInternal domain raddr _ =>
      match session.initOnce with
      | some nErr => .fails nErr
      | none => openSession session domain (.munmapEnter · (.raddr raddr))
  | .bufferRef domain fd ref =>
      match effectiveDomain domain with
      | none => .fails .EBADPARM
      | some d => .refEnter d fd ref
  | .memClose domain =>
      match effectiveDomain domain with
      | none => .fails .EBADPARM
      | some d => .closeEnter d

/-- What the next piece of a call may learn: whether `calloc` succeeds, and the driver's answer. -/
structure Answer where
  calloc : Bool
  driver : DriverAnswer

/-- One piece of a call: a locked section, or the code up to the next one. -/
def advance (s : Store) (a : Answer) : Pc → Option (Store × Pc)
  | .returned _ => none
  | .mmapEnter d map => some ((mmapSearch s d map.fd).1, .mmapSearched d map (mmapSearch s d map.fd).2)
  | .mmapSearched d map tNode =>
      match mmapAllocate s map tNode a.calloc with
      | (s, .error nErr) => some (s, .fails nErr)
      | (s, .ok mNode) => some (s, .mmapAllocated d mNode)
  | .mmapAllocated d mNode =>
      match mmapDriver s mNode a.driver with
      | (s, some nErr) => some (s, .returned ⟨some nErr, some a.driver.vaddrout, none, none⟩)
      | (s, none) => some (s, .mmapMapped d mNode a.driver.vaddrout)
  | .mmapMapped d mNode vaddrout =>
      some (s.append d mNode, .returned ⟨none, some vaddrout, none, none⟩)
  | .munmapEnter d key =>
      match munmapFind s d key with
      | (s, .error nErr) => some (s, .fails nErr)
      | (s, .ok mNode) => some (s, .munmapFound d mNode)
  | .munmapFound d mNode => some (munmapDriver s mNode, .munmapCalled d mNode a.driver)
  | .munmapCalled d mNode a =>
      some ((munmapFinish s d mNode a).1, .returned (.of (munmapFinish s d mNode a).2))
  | .refEnter d fd ref =>
      some ((fastrpcBufferRef s d fd ref).1, .returned (fastrpcBufferRef s d fd ref).2)
  | .closeEnter d => some (fastrpcMemClose s d, .returned (.of none))

/-! ### Threads -/

/-- The store and the call of every thread. -/
structure State (ι : Type) where
  store : Store
  pc : ι → Pc

/-- A thread makes a call, or runs the next piece of its call. -/
inductive Event (ι : Type)
  | call (i : ι) (c : Call) (session : Session)
  | next (i : ι) (a : Answer)

variable {ι : Type}

/-- No mapping, and no call in progress. -/
def init : State ι := ⟨Store.init, fun _ => .returned (.of none)⟩

/-- One step of thread `i`. -/
def step [DecidableEq ι] (s : State ι) : Event ι → Option (State ι)
  | .call i c session =>
      match s.pc i with
      | .returned _ => some { s with pc := Function.update s.pc i (enter session c) }
      | _ => none
  | .next i a =>
      (advance s.store a (s.pc i)).map (fun r => ⟨r.1, Function.update s.pc i r.2⟩)

end FastRpc.StaticMap
