import FastRpc.Basic
import FastRpc.BlockHeap
import FastRpc.Threads
import FastRpc.Transition

/-! # The memory that the DSP asks for

`apps_mem_request_map64` and `apps_mem_share_map` allocate a `mem_info` node and, where the request is
for memory of the process, a buffer, map it on the DSP and append the node to the list of the domain.
`apps_mem_request_unmap64` looks the node up, unmaps with the lock released, and takes the lock again to
dequeue the node; `apps_mem_deinit` pops the nodes without the lock.  Each of them then releases the
buffer and frees the node.

Every locked section and every unlocked piece of the two is a step.  Nodes and buffers are blocks of a
`BlockHeap`, so that a second free and an access to a freed block are recorded, and `dequeued` are the
nodes taken off the list.  What the DSP, the driver and the allocators answer comes with the event. -/

namespace FastRpc.AppsMem

open BlockHeap

/-! ### Data -/

/-- `struct mem_info`; `vapps` is its buffer, if it has one. -/
structure MemInfo where
  vapps : Option ℕ
  vadsp : ℕ
  size : ℤ
  mapped : Bool
  rflags : ℕ
  deriving DecidableEq, Repr

/-- `apps_mem_info` of a domain, the nodes and the buffers. -/
structure Store where
  heap : Heap MemInfo
  bufs : Heap Unit
  memList : List ℕ
  init : Bool
  dequeued : List ℕ

/-- The store after `apps_mem_init`. -/
def Store.init' : Store := ⟨Heap.empty ⟨none, 0, 0, false, 0⟩, Heap.empty (), [], true, []⟩

/-- `ADSP_MMAP_HEAP_ADDR`. -/
def mmapHeapAddr : ℕ := 4

/-- `ADSP_MMAP_REMOTE_HEAP_ADDR`. -/
def mmapRemoteHeapAddr : ℕ := 8

/-- `ADSP_MMAP_ADD_PAGES`. -/
def mmapAddPages : ℕ := 0x1000

/-- `ADSP_MMAP_ADD_PAGES_LLC`. -/
def mmapAddPagesLlc : ℕ := 0x3000

/-- `FASTRPC_ALLOC_HLOS_FD`. -/
def allocHlosFd : ℕ := 0x10000

/-- The error codes; `callee` is the one that a called function returned. -/
inductive NErr
  | badParm
  | noMemory
  | noRpcMemory
  | badFd
  | rpc
  | noSuchMap
  | callee (nErr : ℤ)
  deriving DecidableEq, Repr

/-- A request for memory. -/
inductive MapRequest
  | requestMap64 (rflags : ℕ) (len : ℤ)
  | shareMap (fd size : ℤ)
  deriving DecidableEq, Repr

/-- A call of one of the functions, with its arguments. -/
inductive Call
  | map (req : MapRequest)
  | requestUnmap64 (vadsp : ℕ)
  | deinit
  deriving DecidableEq, Repr

/-- What a piece of a call may learn: the attribute of the process and the support of its driver, the
results of `malloc` and of the allocation of the buffer with its descriptor, that of the mapping or
unmapping on the DSP with the address, what `malloc` left in `rflags`, and the type of the process. -/
structure Answer where
  pdAttribute : ℤ
  unsignedModule : Bool
  ualloc : Bool
  malloc : Bool
  buf : Bool
  fd : ℤ
  remote : ℤ
  vadsp : ℕ
  rflags : ℕ
  audioStaticPd : Bool

/-! ### Pieces -/

section Pieces

variable (s : Store) (a : Answer) (n : ℕ)

/-- A read of a node. -/
def Store.touch : Store := { s with heap := s.heap.touch n }

/-- A node and a buffer are mapped; when something fails, the buffer and the node are released. -/
def mapWithBuffer (fd : ℤ) (noBuf noFd : NErr) (info : ℕ → MemInfo) : Store × Except NErr ℕ :=
  let n := s.heap.next
  let b := s.bufs.next
  let heap := s.heap.alloc (info b)
  if a.buf then
    let bufs := s.bufs.alloc ()
    if 0 < fd then
      if a.remote = 0 then ({ s with heap := heap, bufs := bufs }, .ok n)
      else ({ s with heap := heap.free n, bufs := bufs.free b }, .error (.callee a.remote))
    else ({ s with heap := heap.free n, bufs := bufs.free b }, .error noFd)
  else ({ s with heap := heap.free n }, .error noBuf)

/-- A node without a buffer is mapped. -/
def mapWithoutBuffer (info : MemInfo) : Store × Except NErr ℕ :=
  let n := s.heap.next
  let heap := s.heap.alloc info
  if a.remote = 0 then ({ s with heap := heap }, .ok n)
  else ({ s with heap := heap.free n }, .error (.callee a.remote))

/-- `apps_mem_request_map64` up to its locked section: an error, or the node. -/
def requestMap64 (rflags : ℕ) (len : ℤ) : Store × Except NErr ℕ :=
  if a.pdAttribute ≠ 0 then (s, .error (.callee a.pdAttribute))
  else if len < 0 then (s, .error .badParm)
  else if ¬ a.malloc then (s, .error .noMemory)
  else if rflags = mmapHeapAddr ∨ rflags = mmapRemoteHeapAddr then
    mapWithoutBuffer s a ⟨none, a.vadsp, len, false, rflags⟩
  else if rflags = allocHlosFd then
    mapWithBuffer s a a.fd .noRpcMemory .badFd (fun b => ⟨some b, a.fd.toNat, len, false, rflags⟩)
  else if (rflags ≠ mmapAddPages ∧ rflags ≠ mmapAddPagesLlc) ∨ (a.unsignedModule ∧ a.ualloc) then
    mapWithBuffer s a a.fd .noRpcMemory .badParm (fun b => ⟨some b, a.vadsp, len, false, rflags⟩)
  else mapWithoutBuffer s a ⟨none, a.vadsp, len, false, rflags⟩

/-- `apps_mem_share_map` up to its locked section.  It leaves `rflags` as `malloc` gave it. -/
def shareMap (fd size : ℤ) : Store × Except NErr ℕ :=
  if ¬ 0 < fd then (s, .error .badParm)
  else if ¬ a.malloc then (s, .error .noMemory)
  else mapWithBuffer s a fd .rpc .badParm (fun b => ⟨some b, a.vadsp, size, true, a.rflags⟩)

/-- `QList_AppendNode(&me->mem_list, &minfo->qn)`. -/
def Store.append : Store :=
  { s with
    heap := (s.heap.touch n).touchAll s.memList.getLast?.toList
    memList := s.memList ++ [n] }

/-- The loop of the first locked section of `apps_mem_request_unmap64`. -/
def findVadsp (h : Heap MemInfo) (vadsp : ℕ) : List ℕ → Heap MemInfo × Option ℕ
  | [] => (h, none)
  | n :: ns =>
      let h := h.touch n
      if (h.cell n).vadsp = vadsp then (h, some n) else findVadsp h vadsp ns

/-- That section, with its variable `mfree`. -/
def unmapFind (vadsp : ℕ) : Store × Option ℕ :=
  let r := findVadsp s.heap vadsp s.memList
  ({ s with heap := r.1 }, r.2)

/-- The unlocked unmapping: an error, or the node that is dequeued next, if there is one.  A node with
`FASTRPC_ALLOC_HLOS_FD` is unmapped with `fastrpc_munmap`, another one, and any address of an audio
process, with `remote_munmap64`. -/
def unmapRemote (mfree : Option ℕ) : Store × Except NErr (Option ℕ) :=
  match mfree with
  | some n => (s.touch n, if a.remote = 0 then .ok (some n) else .error (.callee a.remote))
  | none =>
      (s, if a.audioStaticPd then if a.remote = 0 then .ok none else .error (.callee a.remote)
        else .error .noSuchMap)

/-- `QNode_Dequeue(&mfree->qn)`, under the lock. -/
def unmapDequeue : Store :=
  { s with
    heap := s.heap.touch n
    memList := s.memList.erase n
    dequeued := s.dequeued ++ [n] }

/-- `munmap` or `rpcmem_free_internal` of the node's buffer. -/
def releaseBuffer : Store :=
  match (s.heap.cell n).vapps with
  | none => s.touch n
  | some b => { s.touch n with bufs := s.bufs.free b }

/-- `free(mfree)`. -/
def freeNode : Store := { s with heap := s.heap.free n }

/-- `QList_PopZ(&me->mem_list)`, without the lock. -/
def deinitPop : Store × Option ℕ :=
  match s.memList with
  | [] => (s, none)
  | n :: ns =>
      ({ s with
          heap := (s.heap.touch n).touchAll ns.head?.toList
          memList := ns
          dequeued := s.dequeued ++ [n] }, some n)

end Pieces

/-! ### Calls -/

/-- Where a call is, with the local variables that it still uses. -/
inductive Pc
  | returned (nErr : Option NErr)
  | mapEnter (req : MapRequest)
  | mapReady (n : ℕ)
  | unmapEnter (vadsp : ℕ)
  | unmapFound (mfree : Option ℕ)
  | unmapCalled (n : ℕ)
  | unmapTaken (n : ℕ)
  | unmapReleased (n : ℕ)
  | deinitEnter
  | deinitLoop
  | deinitPopped (n : ℕ)
  | deinitReleased (n : ℕ)
  deriving DecidableEq, Repr

/-- The first place of a call. -/
def enter : Call → Pc
  | .map req => .mapEnter req
  | .requestUnmap64 vadsp => .unmapEnter vadsp
  | .deinit => .deinitEnter

/-- The unlocked beginning of a call that maps. -/
def mapCall (s : Store) (a : Answer) : MapRequest → Store × Except NErr ℕ
  | .requestMap64 rflags len => requestMap64 s a rflags len
  | .shareMap fd size => shareMap s a fd size

/-- One piece of a call. -/
def advance (s : Store) (a : Answer) : Pc → Option (Store × Pc)
  | .returned _ => none
  | .mapEnter req =>
      match mapCall s a req with
      | (s, .error nErr) => some (s, .returned (some nErr))
      | (s, .ok n) => some (s, .mapReady n)
  | .mapReady n => some (s.append n, .returned none)
  | .unmapEnter vadsp => some ((unmapFind s vadsp).1, .unmapFound (unmapFind s vadsp).2)
  | .unmapFound mfree =>
      match unmapRemote s a mfree with
      | (s, .error nErr) => some (s, .returned (some nErr))
      | (s, .ok none) => some (s, .returned none)
      | (s, .ok (some n)) => some (s, .unmapCalled n)
  | .unmapCalled n => some (unmapDequeue s n, .unmapTaken n)
  | .unmapTaken n => some (releaseBuffer s n, .unmapReleased n)
  | .unmapReleased n => some (freeNode s n, .returned none)
  | .deinitEnter => some (s, if s.init then .deinitLoop else .returned none)
  | .deinitLoop =>
      match deinitPop s with
      | (s, none) => some ({ s with init := false }, .returned none)
      | (s, some n) => some (s, .deinitPopped n)
  | .deinitPopped n => some (releaseBuffer s n, .deinitReleased n)
  | .deinitReleased n => some (freeNode s n, .deinitLoop)

/-- The store and the call of every thread. -/
structure State (ι : Type) where
  store : Store
  pc : ι → Pc

/-- A thread makes a call, or runs the next piece of its call. -/
inductive Event (ι : Type)
  | call (i : ι) (c : Call)
  | next (i : ι) (a : Answer)

variable {ι : Type}

/-- An open session, and no call in progress. -/
def init : State ι := ⟨Store.init', fun _ => .returned none⟩

/-- One step of thread `i`. -/
def step [DecidableEq ι] (s : State ι) : Event ι → Option (State ι)
  | .call i c =>
      match s.pc i with
      | .returned _ => some { s with pc := Function.update s.pc i (enter c) }
      | _ => none
  | .next i a =>
      (advance s.store a (s.pc i)).map (fun r => ⟨r.1, Function.update s.pc i r.2⟩)

end FastRpc.AppsMem
