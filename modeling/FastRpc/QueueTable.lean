import FastRpc.Basic
import FastRpc.BlockHeap
import FastRpc.Reservations
import FastRpc.Threads
import FastRpc.Transition

/-! # The table of the packet queues

`dspqueue_cpu.c` has one `dspqueue_domain_queues` for every domain with packet queues: it is allocated by
the first `dspqueue_create` and destroyed with the last queue.  `num_queues` is protected by
`queues->mutex`, the slots `queues[]` and `max_queue` by `queue_list_mutex`, so `dspqueue_create` and
`dspqueue_close` do their bookkeeping in several locked sections with the work on the queue between
them.  Each locked section is a step here; what the rest of a call does only decides whether the call
goes on (`ok`).

A queue is closed by one caller at a time, since `dspqueue_close` frees it; when a close fails before
its end, the queue stays as it is and may be closed again.  `dspqueue_multidomain_close` closes queue
after queue. -/

namespace FastRpc.QueueTable

open BlockHeap Reservations Transition

/-! ### Data -/

/-- `DSPQUEUE_MAX_PROCESS_QUEUES`. -/
abbrev maxProcessQueues : ℕ := 64

/-- An entry of `queues[]`. -/
inductive Slot
  | unused
  | invalid
  | queue (q : ℕ)
  deriving DecidableEq, Repr

/-- `struct dspqueue_domain_queues`. -/
structure DomainQueues where
  domain : Domain
  num_queues : ℕ
  max_queue : ℕ
  queues : Fin maxProcessQueues → Slot

/-- The fields of a `struct dspqueue` that say where it is in the table. -/
structure Queue where
  domain : Domain
  id : Fin maxProcessQueues
  deriving DecidableEq, Repr

/-- What must not happen: the exit `Queue list corrupt`, or a failed assertion. -/
inductive TableFault
  | queueListCorrupt
  | assertion
  deriving DecidableEq, Repr

/-- `proc_queues` with the domain queues it points to, and the queues that are open, by address. -/
structure Store where
  heap : Heap DomainQueues
  domainQueues : Domain → Option ℕ
  queues : ℕ → Option Queue
  nextQueue : ℕ
  faults : List TableFault

/-- A zeroed `struct dspqueue_domain_queues`. -/
def DomainQueues.new (domain : Domain) : DomainQueues := ⟨domain, 0, 0, fun _ => .unused⟩

/-- The store of a new process. -/
def Store.init : Store := ⟨Heap.empty (.new 0), fun _ => none, fun _ => none, 0, []⟩

/-! ### Sections -/

section Sections

variable (s : Store) (domain : Domain) (dq q : ℕ) (id : Fin maxProcessQueues) (ok : Bool)

/-- A read of domain queues. -/
def Store.touch : Store := { s with heap := s.heap.touch dq }

/-- A write to domain queues. -/
def Store.write (c : DomainQueues) : Store := { s with heap := s.heap.write dq c }

/-- `dq->queues[id] = slot`. -/
def Store.setSlot (slot : Slot) : Store :=
  s.write dq { s.heap.cell dq with queues := Function.update (s.heap.cell dq).queues id slot }

/-- `assert`. -/
def Store.assert (p : Bool) : Store :=
  if p then s else { s with faults := s.faults ++ [.assertion] }

/-- `init_domain_queues_locked`; `ok` is the success of the allocations and of the DSP. -/
def initDomainQueuesLocked : Store × Bool :=
  match s.domainQueues domain with
  | some _ => (s, true)
  | none =>
      if ok then
        ({ s with
            heap := s.heap.alloc (.new domain)
            domainQueues := Function.update s.domainQueues domain (some s.heap.next) }, true)
      else (s, false)

/-- The first section of `dspqueue_create`, with its variable `dq`. -/
def createCount : Store × Option ℕ :=
  match initDomainQueuesLocked s domain ok with
  | (s, false) => (s, none)
  | (s, true) =>
      match s.domainQueues domain with
      | none => (s, none)
      | some dq =>
          let c := s.heap.cell dq
          if maxProcessQueues ≤ c.num_queues then (s.touch dq, none)
          else (s.write dq { c with num_queues := c.num_queues + 1 }, some dq)

/-- The loop of `dspqueue_create` over the slots. -/
def findUnused (queues : Fin maxProcessQueues → Slot) : Option (Fin maxProcessQueues) :=
  (List.finRange maxProcessQueues).find? (fun id => queues id = .unused)

/-- The second section of `dspqueue_create`, with the slot that it takes. -/
def createReserve : Store × Option (Fin maxProcessQueues) :=
  let c := s.heap.cell dq
  match findUnused c.queues with
  | none => ({ s.touch dq with faults := s.faults ++ [.queueListCorrupt] }, none)
  | some id =>
      (s.write dq
        { c with
          max_queue := if c.max_queue < id then id else c.max_queue
          queues := Function.update c.queues id .invalid }, some id)

/-- The last section of a `dspqueue_create` that succeeds. -/
def createPublish : Store :=
  { s.setSlot dq id (.queue s.nextQueue) with
    queues := Function.update s.queues s.nextQueue (some ⟨domain, id⟩)
    nextQueue := s.nextQueue + 1 }

/-- `destroy_domain_queues_locked`. -/
def destroyDomainQueuesLocked : Store :=
  match s.domainQueues domain with
  | none => s.assert false
  | some dq =>
      let s := (s.touch dq).assert ((s.heap.cell dq).num_queues = 0)
      { s with
        heap := s.heap.free dq
        domainQueues := Function.update s.domainQueues domain none }

/-- `dq->num_queues--`, and the end of the domain queues with the last queue. -/
def uncount : Store :=
  let c := s.heap.cell dq
  let n := subU32 c.num_queues 1
  let s := s.write dq { c with num_queues := n }
  if n = 0 then destroyDomainQueuesLocked s domain else s

/-- The last section of a `dspqueue_create` that fails. -/
def createUncount : Store :=
  uncount (s.assert (0 < (s.heap.cell dq).num_queues)) domain dq

/-- The loop of `dspqueue_close` over the slots. -/
def lastUsed (queues : Fin maxProcessQueues → Slot) : ℕ :=
  (List.finRange maxProcessQueues).foldl
    (fun max_queue i => if queues i ≠ .unused then i.val else max_queue) 0

/-- The section of `dspqueue_close` that gives the slot back; the queue is closed with it. -/
def closeRelease : Store :=
  let queues := Function.update (s.heap.cell dq).queues id .unused
  { s.write dq { s.heap.cell dq with max_queue := lastUsed queues, queues := queues } with
    queues := Function.update s.queues q none }

end Sections

/-! ### Calls -/

/-- Where a call is, with the local variables that it still uses. -/
inductive Pc
  | idle
  | createEnter (domain : Domain)
  | createCounted (domain : Domain) (dq : ℕ)
  | createReserved (domain : Domain) (dq : ℕ) (id : Fin maxProcessQueues)
  | createBailed (domain : Domain) (dq : ℕ)
  | closeEnter (q : ℕ) (queue : Queue)
  | closeFound (dq q : ℕ) (queue : Queue)
  | closeInvalidated (dq q : ℕ) (queue : Queue)
  | closeReleased (domain : Domain) (dq : ℕ)
  deriving DecidableEq, Repr

/-- The next section of a call. -/
def advance (s : Store) (ok : Bool) : Pc → Option (Store × Pc)
  | .idle => none
  | .createEnter domain =>
      match createCount s domain ok with
      | (s, none) => some (s, .idle)
      | (s, some dq) => some (s, .createCounted domain dq)
  | .createCounted domain dq =>
      match createReserve s dq with
      | (s, none) => some (s, .createBailed domain dq)
      | (s, some id) => some (s, .createReserved domain dq id)
  | .createReserved domain dq id =>
      if ok then some (createPublish s domain dq id, .idle)
      else some (s.setSlot dq id .unused, .createBailed domain dq)
  | .createBailed domain dq => some (createUncount s domain dq, .idle)
  | .closeEnter q queue =>
      match s.domainQueues queue.domain with
      | none => some (s, .idle)
      | some dq => some (s, .closeFound dq q queue)
  | .closeFound dq q queue =>
      if ok then some (s.setSlot dq queue.id .invalid, .closeInvalidated dq q queue)
      else some (s.touch dq, .idle)
  | .closeInvalidated dq q queue =>
      if ok then some (closeRelease s dq q queue.id, .closeReleased queue.domain dq)
      else some (s.touch dq, .idle)
  | .closeReleased domain dq => some (uncount s domain dq, .idle)

/-- The queue that a call closes. -/
def Pc.closing : Pc → Option (ℕ × Queue)
  | .closeEnter q queue => some (q, queue)
  | .closeFound _ q queue => some (q, queue)
  | .closeInvalidated _ q queue => some (q, queue)
  | _ => none

/-- The table and the call of every thread. -/
structure State (ι : Type) where
  store : Store
  pc : ι → Pc

/-- A thread makes a call, or runs the next section of its call. -/
inductive Event (ι : Type)
  | create (i : ι) (domain : Domain)
  | close (i : ι) (q : ℕ)
  | next (i : ι) (ok : Bool)

variable {ι : Type}

/-- No queue, and no call in progress. -/
def init : State ι := ⟨Store.init, fun _ => .idle⟩

/-- One step. -/
def step [Fintype ι] [DecidableEq ι] (s : State ι) : Event ι → Option (State ι)
  | .create i domain =>
      if s.pc i = .idle then some { s with pc := Function.update s.pc i (.createEnter domain) }
      else none
  | .close i q =>
      match s.store.queues q with
      | none => none
      | some queue =>
          if s.pc i = .idle ∧ ∀ j, (s.pc j).closing ≠ some (q, queue) then
            some { s with pc := Function.update s.pc i (.closeEnter q queue) }
          else none
  | .next i ok =>
      (advance s.store ok (s.pc i)).map (fun r => ⟨r.1, Function.update s.pc i r.2⟩)

/-! ### What the table should be -/

/-- The slots that are not `UNUSED_QUEUE`. -/
def DomainQueues.occupied (c : DomainQueues) : Finset (Fin maxProcessQueues) :=
  Finset.univ.filter (fun id => c.queues id ≠ .unused)

/-- The domain of a call that is between two of its sections. -/
def Pc.between : Pc → Option Domain
  | .idle | .createEnter _ | .closeEnter _ _ => none
  | .createCounted domain _ | .createReserved domain _ _ | .createBailed domain _
  | .closeReleased domain _ => some domain
  | .closeFound _ _ queue | .closeInvalidated _ _ queue => some queue.domain

/-- The bookkeeping of the table; `heap.freed` are the domain queues that were destroyed. -/
structure TableOk (s : State ι) : Prop where
  occupied_le : ∀ d dq, s.store.domainQueues d = some dq →
    (s.store.heap.cell dq).occupied.card ≤ (s.store.heap.cell dq).num_queues
  num_queues_le : ∀ d dq, s.store.domainQueues d = some dq →
    (s.store.heap.cell dq).num_queues ≤ maxProcessQueues
  quiet : ∀ d dq, s.store.domainQueues d = some dq → (∀ i, (s.pc i).between ≠ some d) →
    (s.store.heap.cell dq).occupied.card = (s.store.heap.cell dq).num_queues
  faults : s.store.faults = []
  index_le : ∀ q queue, s.store.queues q = some queue → ∃ dq,
    s.store.domainQueues queue.domain = some dq ∧ queue.id ≤ (s.store.heap.cell dq).max_queue
  index_once : ∀ q q' queue, s.store.queues q = some queue → s.store.queues q' = some queue →
    q = q'
  destroyed : ∀ dq ∈ s.store.heap.freed, (s.store.heap.cell dq).num_queues = 0
  live : ∀ d dq, s.store.domainQueues d = some dq → s.store.heap.Live dq
  clean : s.store.heap.Clean

end FastRpc.QueueTable
