import FastRpc.Threads
import FastRpc.Transition
import Mathlib.Data.List.Nodup

/-! # The process-local storage

`struct pls_table` is a list of `struct PLS` nodes that grows at its head by a compare-exchange.
`pls_add_lookup_singleton` searches the list, allocates a node when there is none of its key, and then
repeats: it loads the head into the node, searches again from a head that it loads anew, and exchanges the
head if it is still the one in the node.  A call that finds the key in its second search destroys its
node.

The table is live and its constructors succeed, so that the tests of `uRefs` and of the constructors are
left out.  Every load and compare-exchange of the head, and every node that a search looks at, is a step.
`calloc` may return any address that is not allocated, also one of a node that was freed: `block` tells
the allocations apart. -/

namespace FastRpc.Pls

open Transition

/-! ### Data -/

/-- `struct plskey`. -/
structure PlsKey where
  type : ℕ
  key : ℕ
  deriving DecidableEq, Repr

/-- `struct PLS` without its data, and the allocation that it is. -/
structure Node where
  next : ℕ
  key : PlsKey
  dtor : Option ℕ
  block : ℕ
  deriving DecidableEq, Repr

/-- A call; `dtor` is a destructor or `NULL`. -/
inductive Call
  | addLookupSingleton (key : PlsKey) (dtor : Option ℕ)
  | lookup (key : PlsKey)
  | add (key : PlsKey) (dtor : Option ℕ)
  deriving DecidableEq, Repr

namespace Call

def key : Call → PlsKey
  | addLookupSingleton key _ => key
  | lookup key => key
  | add key _ => key

def dtor : Call → Option ℕ
  | addLookupSingleton _ dtor => dtor
  | lookup _ => none
  | add _ dtor => dtor

/-- `pls_add` of this key. -/
def Adds (k : PlsKey) (c : Call) : Prop := ∃ dtor, c = .add k dtor

end Call

/-- The list, the memory with its allocated addresses, the allocations, and what was destroyed, by which
destructor, and freed. -/
structure Table where
  lst : ℕ
  mem : ℕ → Node
  allocated : List ℕ
  blocks : List (PlsKey × Option ℕ)
  destroyed : List (ℕ × ℕ)
  freed : List ℕ

/-- Where a call is, with its node `pls` and its search pointer `lst`.  A call returns a data pointer, given
by its node, or an error. -/
inductive Pc
  | returned (ppo : Option ℕ)
  | loadHead (c : Call) (pls : Option ℕ)
  | search (c : Call) (pls : Option ℕ) (lst : ℕ)
  | allocate (c : Call)
  | loadNext (c : Call) (pls : ℕ)
  | compareExchange (c : Call) (pls : ℕ)
  | destroy (c : Call) (pls ppo : ℕ)
  | free (c : Call) (pls ppo : ℕ)
  deriving DecidableEq, Repr

/-- The table, the calls of the threads and the data pointers that calls returned. -/
structure State (ι : Type) where
  table : Table
  pc : ι → Pc
  results : List (PlsKey × ℕ)

/-- A thread makes a call or runs a step of it, in which `calloc` may return an address. -/
inductive Event (ι : Type)
  | call (i : ι) (c : Call)
  | next (i : ι) (calloc : Option ℕ)

/-! ### Steps -/

/-- The first step of a call. -/
def enter : Call → Pc
  | .add key dtor => .allocate (.add key dtor)
  | c => .loadHead c none

/-- A search found no node. -/
def notFound : Call → Option ℕ → Pc
  | .lookup _, none => .returned none
  | c, none => .allocate c
  | c, some pls => .compareExchange c pls

/-- A search found the node `lst`. -/
def found (c : Call) (lst : ℕ) : Option ℕ → Pc
  | none => .returned (some lst)
  | some pls => .destroy c pls lst

/-- The node is filled in. -/
def Table.alloc (t : Table) (c : Call) (p : ℕ) : Table :=
  { t with
    mem := Function.update t.mem p ⟨0, c.key, c.dtor, t.blocks.length⟩
    allocated := p :: t.allocated
    blocks := t.blocks ++ [(c.key, c.dtor)] }

/-- `pls->next = atomic_load(&me->lst)`. -/
def Table.setNext (t : Table) (p : ℕ) : Table :=
  { t with mem := Function.update t.mem p { t.mem p with next := t.lst } }

/-- `pls->dtor((void*)pls->data)`, if there is one. -/
def Table.destroy (t : Table) (p : ℕ) : Table :=
  { t with destroyed := t.destroyed ++ (t.mem p).dtor.toList.map (fun dtor => (dtor, (t.mem p).block)) }

/-- `free(pls)`. -/
def Table.free (t : Table) (p : ℕ) : Table :=
  { t with allocated := t.allocated.erase p, freed := t.freed ++ [(t.mem p).block] }

/-- One step of a call. -/
def advance (t : Table) (calloc : Option ℕ) : Pc → Option (Table × Pc)
  | .returned _ => none
  | .loadHead c pls => some (t, .search c pls t.lst)
  | .search c pls lst =>
      if lst = 0 then some (t, notFound c pls)
      else if (t.mem lst).key = c.key then some (t, found c lst pls)
      else some (t, .search c pls (t.mem lst).next)
  | .allocate c =>
      match calloc with
      | none => some (t, .returned none)
      | some p => if p = 0 ∨ p ∈ t.allocated then none else some (t.alloc c p, .loadNext c p)
  | .loadNext c pls =>
      some (t.setNext pls, match c with
        | .add _ _ => .compareExchange c pls
        | _ => .loadHead c (some pls))
  | .compareExchange c pls =>
      if t.lst = (t.mem pls).next then some ({ t with lst := pls }, .returned (some pls))
      else some (t, .loadNext c pls)
  | .destroy c pls ppo => some (t.destroy pls, .free c pls ppo)
  | .free _ pls ppo => some (t.free pls, .returned (some ppo))

/-- The key of the call. -/
def Pc.key : Pc → Option PlsKey
  | .returned _ => none
  | .loadHead c _ | .search c _ _ | .allocate c | .loadNext c _ | .compareExchange c _
  | .destroy c _ _ | .free c _ _ => some c.key

/-- What a call returns when it comes from `pc` to `pc'`. -/
def result (pc pc' : Pc) : List (PlsKey × ℕ) :=
  match pc.key, pc' with
  | some key, .returned (some ppo) => [(key, ppo)]
  | _, _ => []

variable {ι : Type} [DecidableEq ι]

/-- An empty table, and no call. -/
def init : State ι := ⟨⟨0, fun _ => ⟨0, ⟨0, 0⟩, none, 0⟩, [], [], [], []⟩, fun _ => .returned none, []⟩

/-- One step of the system. -/
def step (s : State ι) : Event ι → Option (State ι)
  | .call i c =>
      match s.pc i with
      | .returned _ => some { s with pc := Function.update s.pc i (enter c) }
      | _ => none
  | .next i calloc =>
      (advance s.table calloc (s.pc i)).map (fun r =>
        ⟨r.1, Function.update s.pc i r.2, s.results ++ result (s.pc i) r.2⟩)

/-- The nodes `l` follow each other from `x` on. -/
def Linked (mem : ℕ → Node) : ℕ → List ℕ → Prop
  | x, [] => x = 0
  | x, p :: l => x = p ∧ Linked mem (mem p).next l

/-- The node that a call has allocated and not published or freed. -/
def Pc.own : Pc → Option ℕ
  | .loadHead _ pls | .search _ pls _ => pls
  | .loadNext _ pls | .compareExchange _ pls | .destroy _ pls _ | .free _ pls _ => some pls
  | _ => none

/-- The destructions of a block. -/
def Table.destructionsOf (t : Table) (b : ℕ) : List (ℕ × ℕ) := t.destroyed.filter (fun x => x.2 = b)

/-- The destructions that a block with this destructor is to have: one, if there is a destructor. -/
def destructions (b : ℕ) (dtor : Option ℕ) : List (ℕ × ℕ) := dtor.toList.map (fun dtor => (dtor, b))

/-- The list `l` of the table holds at most one node of the key, all data pointers returned for the key are
that node's, and the blocks of the list are neither destroyed nor freed, while every other block that no
running call has is destroyed by its destructor once, if it has one, and freed once. -/
structure Singleton (k : PlsKey) (s : State ι) (l : List ℕ) : Prop where
  linked : Linked s.table.mem s.table.lst l
  nodup : l.Nodup
  one : ∀ p ∈ l, ∀ q ∈ l, (s.table.mem p).key = k → (s.table.mem q).key = k → p = q
  same : ∀ p q, (k, p) ∈ s.results → (k, q) ∈ s.results → p = q
  winner : ∀ p ∈ l, (s.table.mem p).block ∉ s.table.freed ∧
    s.table.destructionsOf (s.table.mem p).block = []
  loser : ∀ b dtor, s.table.blocks[b]? = some (k, dtor) → (∀ p ∈ l, (s.table.mem p).block ≠ b) →
    (∀ i p, (s.pc i).own = some p → (s.table.mem p).block ≠ b) →
    s.table.freed.count b = 1 ∧ s.table.destructionsOf b = destructions b dtor

/-! ### Lists of nodes -/

/-- The part of the list from the node `x` on. -/
def fromNode (x : ℕ) (l : List ℕ) : List ℕ := l.dropWhile (fun p => p ≠ x)

section Lists

variable {mem mem' : ℕ → Node} {x y p : ℕ} {l : List ℕ}

theorem fromNode_cons_self (x : ℕ) (l : List ℕ) : fromNode x (x :: l) = x :: l := by
  simp [fromNode]

theorem fromNode_cons_ne (hne : p ≠ x) (l : List ℕ) : fromNode x (p :: l) = fromNode x l := by
  simp [fromNode, hne]

theorem fromNode_subset (x : ℕ) (l : List ℕ) : fromNode x l ⊆ l := (List.dropWhile_sublist _).subset

theorem fromNode_of_notMem (hx : x ∉ l) : fromNode x l = [] := by
  induction l with
  | nil => rfl
  | cons p l ih =>
      obtain ⟨hne, hx⟩ : x ≠ p ∧ x ∉ l := by simpa using hx
      rw [fromNode_cons_ne hne.symm, ih hx]

theorem Linked.congr (h : Linked mem x l) (hmem : ∀ p ∈ l, mem' p = mem p) : Linked mem' x l := by
  induction l generalizing x with
  | nil => exact h
  | cons p l ih =>
      obtain ⟨rfl, hnext⟩ := h
      obtain ⟨hp, hl⟩ := List.forall_mem_cons.mp hmem
      refine ⟨rfl, ?_⟩
      rw [hp]
      exact ih hnext hl

/-- The list is what its first node leads to. -/
theorem Linked.fromNode_head (h : Linked mem x l) : fromNode x l = l := by
  cases l with
  | nil => rfl
  | cons p l =>
      obtain ⟨rfl, _⟩ := h
      exact fromNode_cons_self x l

theorem Linked.head_mem (h : Linked mem x l) : x = 0 ∨ x ∈ l := by
  cases l with
  | nil => exact .inl h
  | cons p l =>
      obtain ⟨rfl, _⟩ := h
      exact .inr List.mem_cons_self

/-- What a node of the list leads to is the node and what its successor leads to. -/
theorem Linked.fromNode_next (h : Linked mem x l) (hnodup : l.Nodup) (hzero : 0 ∉ l) (hy : y ∈ l) :
    fromNode y l = y :: fromNode (mem y).next l ∧ ((mem y).next = 0 ∨ (mem y).next ∈ l) := by
  induction l generalizing x with
  | nil => cases hy
  | cons p l ih =>
      obtain ⟨rfl, hnext⟩ := h
      obtain ⟨hp, hnodup⟩ := List.nodup_cons.mp hnodup
      obtain ⟨hx0, hzero⟩ : 0 ≠ x ∧ 0 ∉ l := by simpa using hzero
      rcases eq_or_ne x y with rfl | hne
      · have hhead := hnext.head_mem
        have hxnext : x ≠ (mem x).next := by
          obtain h0 | hmem := hhead
          · rw [h0]
            exact hx0.symm
          · exact fun heq => hp (heq ▸ hmem)
        rw [fromNode_cons_self, fromNode_cons_ne hxnext, hnext.fromNode_head]
        exact ⟨rfl, hhead.imp_right (List.mem_cons_of_mem x)⟩
      · have hyl : y ∈ l := (List.mem_cons.mp hy).resolve_left hne.symm
        obtain ⟨hfrom, hynext⟩ := ih hnext hnodup hzero hyl
        have hxnext : x ≠ (mem y).next := by
          obtain h0 | hmem := hynext
          · rw [h0]
            exact hx0.symm
          · exact fun heq => hp (heq ▸ hmem)
        rw [fromNode_cons_ne hne, fromNode_cons_ne hxnext]
        exact ⟨hfrom, hynext.imp_right (List.mem_cons_of_mem x)⟩

end Lists

/-! ### The invariant -/

/-- The node `p` of a call is allocated, on no list and not destroyed. -/
structure Owns (t : Table) (l : List ℕ) (c : Call) (p : ℕ) : Prop where
  allocated : p ∈ t.allocated
  unlisted : p ∉ l
  key : (t.mem p).key = c.key
  undestroyed : t.destructionsOf (t.mem p).block = []

/-- The node of a call that has loaded the head into it. -/
structure Waits (t : Table) (l : List ℕ) (c : Call) (p : ℕ) : Prop extends Owns t l c p where
  next : (t.mem p).next = 0 ∨ (t.mem p).next ∈ l

/-- What a call knows: a search with a node has not passed the key behind the head that is in the node, and
at the exchange there is no such node. -/
def Pc.Ok (k : PlsKey) (t : Table) (l : List ℕ) : Pc → Prop
  | .returned _ => True
  | .loadHead c pls => ¬ c.Adds k ∧ ∀ p ∈ pls, Waits t l c p
  | .search c pls lst => ¬ c.Adds k ∧ (lst = 0 ∨ lst ∈ l) ∧ ∀ p ∈ pls, Waits t l c p ∧
      (c.key = k → ∀ q ∈ fromNode (t.mem p).next l, (t.mem q).key = k → q ∈ fromNode lst l)
  | .allocate c => ¬ c.Adds k
  | .loadNext c p => ¬ c.Adds k ∧ Owns t l c p
  | .compareExchange c p => ¬ c.Adds k ∧ Waits t l c p ∧
      (c.key = k → ∀ q ∈ fromNode (t.mem p).next l, (t.mem q).key ≠ k)
  | .destroy c p ppo => ¬ c.Adds k ∧ Owns t l c p ∧ ppo ∈ l ∧ (t.mem ppo).key = c.key
  | .free c p ppo => ¬ c.Adds k ∧ (p ∈ t.allocated ∧ p ∉ l ∧
      t.destructionsOf (t.mem p).block = destructions (t.mem p).block (t.mem p).dtor) ∧
      ppo ∈ l ∧ (t.mem ppo).key = c.key

/-- The list and the allocations. -/
structure Table.Ok (k : PlsKey) (t : Table) (l : List ℕ) : Prop where
  linked : Linked t.mem t.lst l
  nodup : l.Nodup
  listed : ∀ p ∈ l, p ∈ t.allocated
  one : ∀ p ∈ l, ∀ q ∈ l, (t.mem p).key = k → (t.mem q).key = k → p = q
  kept : ∀ p ∈ l, t.destructionsOf (t.mem p).block = []
  zero : 0 ∉ t.allocated
  allocatedNodup : t.allocated.Nodup
  block : ∀ p ∈ t.allocated,
    t.blocks[(t.mem p).block]? = some ((t.mem p).key, (t.mem p).dtor) ∧ (t.mem p).block ∉ t.freed
  inj : ∀ p ∈ t.allocated, ∀ q ∈ t.allocated, (t.mem p).block = (t.mem q).block → p = q
  alive : ∀ b < t.blocks.length, b ∉ t.freed → ∃ p ∈ t.allocated, (t.mem p).block = b
  freedNodup : t.freed.Nodup
  freedOld : ∀ b ∈ t.freed, b < t.blocks.length
  dead : ∀ b ∈ t.freed, ∀ key dtor, t.blocks[b]? = some (key, dtor) →
    t.destructionsOf b = destructions b dtor
  destroyedOld : ∀ x ∈ t.destroyed, x.2 < t.blocks.length

/-- The invariant of the runs without a `pls_add` of the key. -/
structure Inv (k : PlsKey) (s : State ι) (l : List ℕ) : Prop where
  table : s.table.Ok k l
  pcs : ∀ i, (s.pc i).Ok k s.table l
  distinct : ∀ i j p, (s.pc i).own = some p → (s.pc j).own = some p → i = j
  owned : ∀ p ∈ s.table.allocated, p ∈ l ∨ ∃ i, (s.pc i).own = some p
  results : ∀ p, (k, p) ∈ s.results → p ∈ l ∧ (s.table.mem p).key = k

section Invariant

variable {k : PlsKey} {s s' : State ι} {l l' : List ℕ} {t t' : Table} {pc pc' : Pc} {p q : ℕ} {c : Call}
  {i : ι}

omit [DecidableEq ι] in
theorem Inv.singleton (h : Inv k s l) : Singleton k s l where
  linked := h.table.linked
  nodup := h.table.nodup
  one := h.table.one
  same := by
    intro p q hp hq
    obtain ⟨hpl, hpk⟩ := h.results p hp
    obtain ⟨hql, hqk⟩ := h.results q hq
    exact h.table.one p hpl q hql hpk hqk
  winner := fun p hp => ⟨(h.table.block p (h.table.listed p hp)).2, h.table.kept p hp⟩
  loser := by
    intro b dtor hb hlist hown
    have hlt : b < s.table.blocks.length := (List.getElem?_eq_some_iff.mp hb).1
    have hfreed : b ∈ s.table.freed := by
      by_contra hnot
      obtain ⟨p, hp, hpb⟩ := h.table.alive b hlt hnot
      obtain hpl | ⟨i, hi⟩ := h.owned p hp
      · exact hlist p hpl hpb
      · exact hown i p hi hpb
    exact ⟨List.count_eq_one_of_mem h.table.freedNodup hfreed, h.table.dead b hfreed k dtor hb⟩

omit [DecidableEq ι] in
theorem Table.Ok.zero_notMem (h : t.Ok k l) : 0 ∉ l := fun hmem => h.zero (h.listed 0 hmem)

/-- What a step of a call with the node `p` may do to the others. -/
structure Frame (t t' : Table) (l l' : List ℕ) (p : ℕ) : Prop where
  unlisted : p ∉ l
  mem : ∀ q, q ≠ p → t'.mem q = t.mem q
  allocated : ∀ q ∈ t.allocated, q ≠ p → q ∈ t'.allocated
  destroyed : ∀ q ∈ t.allocated, q ≠ p →
    t'.destructionsOf (t.mem q).block = t.destructionsOf (t.mem q).block
  list : l' = l ∨ (l' = p :: l ∧ p ≠ 0)

theorem Frame.mem_list (h : Frame t t' l l' p) (hq : q ∈ l) : q ∈ l' ∧ t'.mem q = t.mem q := by
  have hne : q ≠ p := fun heq => h.unlisted (heq ▸ hq)
  refine ⟨?_, h.mem q hne⟩
  obtain rfl | ⟨rfl, _⟩ := h.list
  · exact hq
  · exact List.mem_cons_of_mem p hq

theorem Frame.fromNode (h : Frame t t' l l' p) {x : ℕ} (hx : x = 0 ∨ x ∈ l) :
    fromNode x l' = fromNode x l := by
  obtain rfl | ⟨rfl, hp⟩ := h.list
  · rfl
  · refine fromNode_cons_ne ?_ l
    obtain rfl | hx := hx
    · exact hp
    · exact fun heq => h.unlisted (heq ▸ hx)

theorem Frame.notMem_list (h : Frame t t' l l' p) (hq : q ∉ l) (hne : q ≠ p) : q ∉ l' := by
  obtain rfl | ⟨rfl, _⟩ := h.list
  · exact hq
  · simpa using ⟨hne, hq⟩

theorem Frame.owns (h : Frame t t' l l' p) (hne : q ≠ p) (hq : Owns t l c q) : Owns t' l' c q where
  allocated := h.allocated q hq.allocated hne
  unlisted := h.notMem_list hq.unlisted hne
  key := by rw [h.mem q hne, hq.key]
  undestroyed := by rw [h.mem q hne, h.destroyed q hq.allocated hne, hq.undestroyed]

theorem Frame.waits (h : Frame t t' l l' p) (hne : q ≠ p) (hq : Waits t l c q) : Waits t' l' c q where
  toOwns := h.owns hne hq.toOwns
  next := by
    rw [h.mem q hne]
    exact hq.next.imp_right fun hmem => (h.mem_list hmem).1

/-- The other calls do not notice the step. -/
theorem Pc.Ok.frame (hpc : pc.Ok k t l) (h : Frame t t' l l' p) (hown : pc.own ≠ some p) :
    pc.Ok k t' l' := by
  cases pc with
  | returned ppo => trivial
  | loadHead c pls =>
      refine ⟨hpc.1, fun q hq => h.waits ?_ (hpc.2 q hq)⟩
      rintro rfl
      exact hown hq
  | search c pls lst =>
      obtain ⟨hadds, hlst, hpls⟩ := hpc
      refine ⟨hadds, hlst.imp_right fun hmem => (h.mem_list hmem).1, fun q hq => ?_⟩
      obtain ⟨hwaits, hpassed⟩ := hpls q hq
      have hne : q ≠ p := by
        rintro rfl
        exact hown hq
      refine ⟨h.waits hne hwaits, fun hkey x hx hxk => ?_⟩
      rw [h.mem q hne, h.fromNode hwaits.next] at hx
      rw [(h.mem_list (fromNode_subset _ l hx)).2] at hxk
      rw [h.fromNode hlst]
      exact hpassed hkey x hx hxk
  | allocate c => exact hpc
  | loadNext c q =>
      refine ⟨hpc.1, h.owns ?_ hpc.2⟩
      rintro rfl
      exact hown rfl
  | compareExchange c q =>
      obtain ⟨hadds, hwaits, hnone⟩ := hpc
      have hne : q ≠ p := by
        rintro rfl
        exact hown rfl
      refine ⟨hadds, h.waits hne hwaits, fun hkey x hx => ?_⟩
      rw [h.mem q hne, h.fromNode hwaits.next] at hx
      rw [(h.mem_list (fromNode_subset _ l hx)).2]
      exact hnone hkey x hx
  | destroy c q ppo =>
      obtain ⟨hadds, howns, hppo, hkey⟩ := hpc
      obtain ⟨hppo', hmem⟩ := h.mem_list hppo
      refine ⟨hadds, h.owns ?_ howns, hppo', by rw [hmem, hkey]⟩
      rintro rfl
      exact hown rfl
  | free c q ppo =>
      obtain ⟨hadds, ⟨halloc, hnot, hdestroyed⟩, hppo, hkey⟩ := hpc
      obtain ⟨hppo', hmem⟩ := h.mem_list hppo
      have hne : q ≠ p := by
        rintro rfl
        exact hown rfl
      refine ⟨hadds, ⟨h.allocated q halloc hne, h.notMem_list hnot hne, ?_⟩, hppo', by rw [hmem, hkey]⟩
      rw [h.mem q hne, h.destroyed q halloc hne, hdestroyed]

omit [DecidableEq ι] in
/-- A call that is running has its node on no list. -/
theorem Pc.Ok.own_allocated (hpc : pc.Ok k t l) (hown : pc.own = some p) : p ∈ t.allocated ∧ p ∉ l := by
  cases pc with
  | returned ppo => cases hown
  | loadHead c pls =>
      have h := hpc.2 p hown
      exact ⟨h.allocated, h.unlisted⟩
  | search c pls lst =>
      have h := (hpc.2.2 p hown).1
      exact ⟨h.allocated, h.unlisted⟩
  | allocate c => cases hown
  | loadNext c q =>
      obtain rfl := Option.some.inj hown
      exact ⟨hpc.2.allocated, hpc.2.unlisted⟩
  | compareExchange c q =>
      obtain rfl := Option.some.inj hown
      exact ⟨hpc.2.1.allocated, hpc.2.1.unlisted⟩
  | destroy c q ppo =>
      obtain rfl := Option.some.inj hown
      exact ⟨hpc.2.1.allocated, hpc.2.1.unlisted⟩
  | free c q ppo =>
      obtain rfl := Option.some.inj hown
      exact ⟨hpc.2.1.1, hpc.2.1.2.1⟩

/-- One step of a call, by what it does to the table, to the node of the call and to the results. -/
theorem Inv.next {res : List (PlsKey × ℕ)} (h : Inv k s l) (hframe : Frame s.table t' l l' p)
    (halone : ∀ j, j ≠ i → (s.pc j).own ≠ some p) (htable : t'.Ok k l') (hpc : pc'.Ok k t' l')
    (hown : ∀ q, pc'.own = some q → q = p ∨ (s.pc i).own = some q)
    (howned : ∀ q ∈ t'.allocated, q ∈ l' ∨ pc'.own = some q ∨
      (q ∈ s.table.allocated ∧ (s.pc i).own ≠ some q))
    (hres : ∀ q, (k, q) ∈ res → q ∈ l' ∧ (t'.mem q).key = k) :
    Inv k ⟨t', Function.update s.pc i pc', s.results ++ res⟩ l' where
  table := htable
  pcs := Threads.forall_update hpc fun j hj => (h.pcs j).frame hframe (halone j hj)
  distinct := by
    have hother : ∀ j q, j ≠ i → pc'.own = some q → (s.pc j).own ≠ some q := by
      intro j q hj hq hjq
      obtain rfl | hi := hown q hq
      · exact halone j hj hjq
      · exact hj (h.distinct j i q hjq hi)
    intro j j' q hq hq'
    rcases eq_or_ne j i with rfl | hj
    · rcases eq_or_ne j' j with rfl | hj'
      · rfl
      · simp only [Function.update_self] at hq
        simp only [Function.update_of_ne hj'] at hq'
        exact absurd hq' (hother j' q hj' hq)
    · rcases eq_or_ne j' i with rfl | hj'
      · simp only [Function.update_self] at hq'
        simp only [Function.update_of_ne hj] at hq
        exact absurd hq (hother j q hj hq')
      · simp only [Function.update_of_ne hj] at hq
        simp only [Function.update_of_ne hj'] at hq'
        exact h.distinct j j' q hq hq'
  owned := by
    intro q hq
    obtain hl | hi | ⟨halloc, hnot⟩ := howned q hq
    · exact .inl hl
    · exact .inr ⟨i, by simpa using hi⟩
    · obtain hl | ⟨j, hj⟩ := h.owned q halloc
      · exact .inl (hframe.mem_list hl).1
      · have hne : j ≠ i := by
          rintro rfl
          exact hnot hj
        exact .inr ⟨j, by simpa only [Function.update_of_ne hne] using hj⟩
  results := by
    intro q hq
    obtain hq | hq := List.mem_append.mp hq
    · obtain ⟨hl, hkey⟩ := h.results q hq
      obtain ⟨hl', hmem⟩ := hframe.mem_list hl
      exact ⟨hl', by rw [hmem, hkey]⟩
    · exact hres q hq

omit [DecidableEq ι] in
theorem Inv.alone (h : Inv k s l) (hown : (s.pc i).own = some p) (j : ι) (hj : j ≠ i) :
    (s.pc j).own ≠ some p := fun hjp => hj (h.distinct j i p hjp hown)

theorem Frame.refl (h : t.Ok k l) : Frame t t l l 0 where
  unlisted := h.zero_notMem
  mem := fun _ _ => rfl
  allocated := fun _ hq _ => hq
  destroyed := fun _ _ _ => rfl
  list := .inl rfl

/-- A step that leaves the table and the node of the call. -/
theorem Inv.quiet {res : List (PlsKey × ℕ)} (h : Inv k s l) (hpc : pc'.Ok k s.table l)
    (hown : pc'.own = (s.pc i).own)
    (hres : ∀ q, (k, q) ∈ res → q ∈ l ∧ (s.table.mem q).key = k) :
    Inv k ⟨s.table, Function.update s.pc i pc', s.results ++ res⟩ l := by
  refine h.next (Frame.refl h.table) ?_ h.table hpc ?_ ?_ hres
  · intro j _ hj
    exact h.table.zero ((h.pcs j).own_allocated hj).1
  · intro q hq
    exact .inr (hown ▸ hq)
  · intro q hq
    rcases eq_or_ne pc'.own (some q) with hq' | hq'
    · exact .inr (.inl hq')
    · exact .inr (.inr ⟨hq, hown ▸ hq'⟩)

theorem Inv.call (h : Inv k s l) (hret : (s.pc i).own = none) (hadds : ¬ c.Adds k) :
    Inv k { s with pc := Function.update s.pc i (enter c) } l := by
  have hok : (enter c).Ok k s.table l := by
    cases c with
    | addLookupSingleton key dtor => exact ⟨hadds, nofun⟩
    | lookup key => exact ⟨hadds, nofun⟩
    | add key dtor => exact hadds
  have hown : (enter c).own = (s.pc i).own := by
    rw [hret]
    cases c <;> rfl
  have hres : ∀ q, (k, q) ∈ ([] : List (PlsKey × ℕ)) → q ∈ l ∧ (s.table.mem q).key = k := nofun
  simpa using h.quiet hok hown hres

/-! ### Steps that change the table -/

/-- A new node is on no list and its block is new. -/
theorem Table.Ok.alloc (h : t.Ok k l) (hp : p ≠ 0) (hnew : p ∉ t.allocated) :
    (t.alloc c p).Ok k l ∧ Frame t (t.alloc c p) l l p ∧ Owns (t.alloc c p) l c p := by
  have hpl : p ∉ l := fun hmem => hnew (h.listed p hmem)
  have hmem : ∀ q, q ≠ p → (t.alloc c p).mem q = t.mem q := fun q hq => Function.update_of_ne hq _ _
  have hself : (t.alloc c p).mem p = ⟨0, c.key, c.dtor, t.blocks.length⟩ := Function.update_self _ _ _
  have hold : ∀ q ∈ t.allocated, (t.alloc c p).mem q = t.mem q :=
    fun q hq => hmem q (fun heq => hnew (heq ▸ hq))
  have hlisted : ∀ q ∈ l, (t.alloc c p).mem q = t.mem q := fun q hq => hold q (h.listed q hq)
  have hblock : ∀ q ∈ t.allocated, (t.mem q).block < t.blocks.length :=
    fun q hq => (List.getElem?_eq_some_iff.mp (h.block q hq).1).1
  have hblocks : ∀ b < t.blocks.length, (t.alloc c p).blocks[b]? = t.blocks[b]? :=
    fun b hb => List.getElem?_append_left hb
  have hundestroyed : (t.alloc c p).destructionsOf t.blocks.length = [] := by
    refine List.filter_eq_nil_iff.mpr fun x hx => ?_
    have := h.destroyedOld x hx
    simpa using this.ne
  have hframe : Frame t (t.alloc c p) l l p := by
    refine ⟨hpl, hmem, fun q hq _ => List.mem_cons_of_mem p hq, fun _ _ _ => rfl, .inl rfl⟩
  refine ⟨?_, hframe, ⟨List.mem_cons_self, hpl, by rw [hself], by rw [hself]; exact hundestroyed⟩⟩
  constructor
  case linked => exact h.linked.congr hlisted
  case nodup => exact h.nodup
  case listed => exact fun q hq => List.mem_cons_of_mem p (h.listed q hq)
  case one =>
    intro q hq q' hq'
    rw [hlisted q hq, hlisted q' hq']
    exact h.one q hq q' hq'
  case kept =>
    intro q hq
    rw [hlisted q hq]
    exact h.kept q hq
  case zero => exact fun hmem => (List.mem_cons.mp hmem).elim hp.symm h.zero
  case allocatedNodup => exact List.nodup_cons.mpr ⟨hnew, h.allocatedNodup⟩
  case block =>
    intro q hq
    obtain rfl | hq := List.mem_cons.mp hq
    · rw [hself]
      exact ⟨List.getElem?_concat_length, fun hfreed => (h.freedOld _ hfreed).false⟩
    · rw [hold q hq, hblocks _ (hblock q hq)]
      exact h.block q hq
  case inj =>
    intro q hq q' hq' heq
    obtain hqp | hqold := List.mem_cons.mp hq
    · obtain hqp' | hqold' := List.mem_cons.mp hq'
      · rw [hqp, hqp']
      · rw [hqp, hself, hold q' hqold'] at heq
        exact absurd heq.symm (hblock q' hqold').ne
    · obtain hqp' | hqold' := List.mem_cons.mp hq'
      · rw [hqp', hself, hold q hqold] at heq
        exact absurd heq (hblock q hqold).ne
      · rw [hold q hqold, hold q' hqold'] at heq
        exact h.inj q hqold q' hqold' heq
  case alive =>
    intro b hb hfreed
    have hb' : b < t.blocks.length + 1 := by simpa [Table.alloc] using hb
    obtain hlt | rfl := (Nat.lt_succ_iff_lt_or_eq.mp hb')
    · obtain ⟨q, hq, hqb⟩ := h.alive b hlt hfreed
      exact ⟨q, List.mem_cons_of_mem p hq, by rw [hold q hq, hqb]⟩
    · exact ⟨p, List.mem_cons_self, by rw [hself]⟩
  case freedNodup => exact h.freedNodup
  case freedOld =>
    intro b hb
    have := h.freedOld b hb
    simpa [Table.alloc] using Nat.lt_succ_of_lt this
  case dead =>
    intro b hb key dtor hkey
    rw [hblocks b (h.freedOld b hb)] at hkey
    exact h.dead b hb key dtor hkey
  case destroyedOld =>
    intro x hx
    have := h.destroyedOld x hx
    simpa [Table.alloc] using Nat.lt_succ_of_lt this

/-- The head is loaded into a node that is on no list. -/
theorem Table.Ok.setNext (h : t.Ok k l) (howns : Owns t l c p) :
    (t.setNext p).Ok k l ∧ Frame t (t.setNext p) l l p ∧ Waits (t.setNext p) l c p := by
  have hmem : ∀ q, q ≠ p → (t.setNext p).mem q = t.mem q := fun q hq => Function.update_of_ne hq _ _
  have hself : (t.setNext p).mem p = { t.mem p with next := t.lst } := Function.update_self _ _ _
  have hrest : ∀ q, ((t.setNext p).mem q).key = (t.mem q).key ∧ ((t.setNext p).mem q).dtor = (t.mem q).dtor ∧
      ((t.setNext p).mem q).block = (t.mem q).block := by
    intro q
    rcases eq_or_ne q p with rfl | hq
    · rw [hself]
      exact ⟨rfl, rfl, rfl⟩
    · rw [hmem q hq]
      exact ⟨rfl, rfl, rfl⟩
  have hlisted : ∀ q ∈ l, (t.setNext p).mem q = t.mem q :=
    fun q hq => hmem q (fun heq => howns.unlisted (heq ▸ hq))
  refine ⟨?_, ⟨howns.unlisted, hmem, fun q hq _ => hq, fun _ _ _ => rfl, .inl rfl⟩, ?_⟩
  · refine { h with
      linked := h.linked.congr hlisted
      one := fun q hq q' hq' => ?_, kept := fun q hq => ?_, block := fun q hq => ?_
      inj := fun q hq q' hq' => ?_, alive := fun b hb hfreed => ?_ }
    · rw [hlisted q hq, hlisted q' hq']
      exact h.one q hq q' hq'
    · rw [hlisted q hq]
      exact h.kept q hq
    · obtain ⟨hkey, hdtor, hblock⟩ := hrest q
      rw [hkey, hdtor, hblock]
      exact h.block q hq
    · rw [(hrest q).2.2, (hrest q').2.2]
      exact h.inj q hq q' hq'
    · obtain ⟨q, hq, hqb⟩ := h.alive b hb hfreed
      exact ⟨q, hq, by rw [(hrest q).2.2, hqb]⟩
  · obtain ⟨hkey, _, hblock⟩ := hrest p
    refine ⟨⟨howns.allocated, howns.unlisted, hkey.trans howns.key, ?_⟩, ?_⟩
    · rw [hblock]
      exact howns.undestroyed
    · rw [hself]
      exact h.linked.head_mem

/-- The exchange puts the node of the call before the list, which holds no node of its key. -/
theorem Table.Ok.push (h : t.Ok k l) (hwaits : Waits t l c p) (hhead : t.lst = (t.mem p).next)
    (hnone : c.key = k → ∀ q ∈ fromNode (t.mem p).next l, (t.mem q).key ≠ k) :
    Table.Ok k { t with lst := p } (p :: l) ∧ Frame t { t with lst := p } l (p :: l) p := by
  have hp0 : p ≠ 0 := fun heq => h.zero (heq ▸ hwaits.allocated)
  have hother : ∀ q ∈ l, (t.mem p).key = k → (t.mem q).key ≠ k := by
    intro q hq hkey
    rw [← hhead, h.linked.fromNode_head] at hnone
    exact hnone (hwaits.key ▸ hkey) q hq
  refine ⟨{ h with
    linked := ⟨rfl, hhead ▸ h.linked⟩
    nodup := List.nodup_cons.mpr ⟨hwaits.unlisted, h.nodup⟩
    listed := List.forall_mem_cons.mpr ⟨hwaits.allocated, h.listed⟩
    kept := List.forall_mem_cons.mpr ⟨hwaits.undestroyed, h.kept⟩
    one := ?_ }, ?_⟩
  · intro q hq q' hq' hqk hqk'
    obtain hqp | hql := List.mem_cons.mp hq
    · obtain hqp' | hql' := List.mem_cons.mp hq'
      · rw [hqp, hqp']
      · exact absurd hqk' (hother q' hql' (hqp ▸ hqk))
    · obtain hqp' | hql' := List.mem_cons.mp hq'
      · exact absurd hqk (hother q hql (hqp' ▸ hqk'))
      · exact h.one q hql q' hql' hqk hqk'
  · exact ⟨hwaits.unlisted, fun _ _ => rfl, fun q hq _ => hq, fun _ _ _ => rfl, .inr ⟨rfl, hp0⟩⟩

theorem Table.destructionsOf_destroy (t : Table) (p b : ℕ) :
    (t.destroy p).destructionsOf b =
      t.destructionsOf b ++ if (t.mem p).block = b then destructions b (t.mem p).dtor else [] := by
  cases hdtor : (t.mem p).dtor with
  | none => simp [Table.destroy, Table.destructionsOf, destructions, hdtor]
  | some dtor =>
      by_cases hb : (t.mem p).block = b <;>
        simp [Table.destroy, Table.destructionsOf, destructions, hdtor, hb]

/-- The destructor of a node that is on no list. -/
theorem Table.Ok.destroy (h : t.Ok k l) (howns : Owns t l c p) :
    (t.destroy p).Ok k l ∧ Frame t (t.destroy p) l l p ∧
      (t.destroy p).destructionsOf (t.mem p).block =
        destructions (t.mem p).block (t.mem p).dtor := by
  have hother : ∀ q ∈ t.allocated, q ≠ p →
      (t.destroy p).destructionsOf (t.mem q).block = t.destructionsOf (t.mem q).block := by
    intro q hq hne
    have hblock : (t.mem p).block ≠ (t.mem q).block :=
      fun heq => hne (h.inj q hq p howns.allocated heq.symm)
    rw [Table.destructionsOf_destroy, if_neg hblock, List.append_nil]
  have hp := h.block p howns.allocated
  refine ⟨?_, ⟨howns.unlisted, fun _ _ => rfl, fun q hq _ => hq, hother, .inl rfl⟩, ?_⟩
  · refine { h with kept := fun q hq => ?_, dead := fun b hb key dtor hkey => ?_, destroyedOld := ?_ }
    · rw [show (t.destroy p).mem q = t.mem q from rfl,
        hother q (h.listed q hq) (fun heq => howns.unlisted (heq ▸ hq))]
      exact h.kept q hq
    · have hblock : (t.mem p).block ≠ b := fun heq => hp.2 (heq ▸ hb)
      rw [Table.destructionsOf_destroy, if_neg hblock, List.append_nil]
      exact h.dead b hb key dtor hkey
    · intro x hx
      obtain hx | hx := List.mem_append.mp hx
      · exact h.destroyedOld x hx
      · obtain ⟨dtor, _, rfl⟩ := List.mem_map.mp hx
        exact (List.getElem?_eq_some_iff.mp hp.1).1
  · rw [Table.destructionsOf_destroy, if_pos rfl, howns.undestroyed, List.nil_append]

/-- A node that is on no list and was destroyed is freed. -/
theorem Table.Ok.free (h : t.Ok k l) (halloc : p ∈ t.allocated) (hpl : p ∉ l)
    (hdestroyed : t.destructionsOf (t.mem p).block = destructions (t.mem p).block (t.mem p).dtor) :
    (t.free p).Ok k l ∧ Frame t (t.free p) l l p := by
  have hp := h.block p halloc
  have hsub : ∀ q ∈ t.allocated.erase p, q ∈ t.allocated := fun q hq => List.mem_of_mem_erase hq
  have hkept : ∀ q ∈ t.allocated, q ≠ p → q ∈ (t.free p).allocated :=
    fun q hq hne => (List.mem_erase_of_ne hne).mpr hq
  have hne : ∀ q ∈ t.allocated.erase p, q ≠ p :=
    fun q hq => (h.allocatedNodup.mem_erase_iff.mp hq).1
  refine ⟨?_, ⟨hpl, fun _ _ => rfl, hkept, fun _ _ _ => rfl, .inl rfl⟩⟩
  refine { h with
    listed := fun q hq => hkept q (h.listed q hq) (fun heq => hpl (heq ▸ hq))
    zero := fun hmem => h.zero (hsub 0 hmem)
    allocatedNodup := h.allocatedNodup.erase p
    block := fun q hq => ⟨(h.block q (hsub q hq)).1, fun hfreed => ?_⟩
    inj := fun q hq q' hq' => h.inj q (hsub q hq) q' (hsub q' hq')
    alive := fun b hb hfreed => ?_
    freedNodup := List.nodup_append.mpr ⟨h.freedNodup, List.nodup_singleton _, fun b hb b' hb' => ?_⟩
    freedOld := fun b hb => ?_
    dead := fun b hb key dtor hkey => ?_ }
  · obtain hfreed | hfreed := List.mem_append.mp hfreed
    · exact (h.block q (hsub q hq)).2 hfreed
    · exact hne q hq (h.inj q (hsub q hq) p halloc (List.mem_singleton.mp hfreed))
  · obtain ⟨hnot, hother⟩ : b ∉ t.freed ∧ b ≠ (t.mem p).block := by
      simpa [Table.free] using hfreed
    obtain ⟨q, hq, hqb⟩ := h.alive b hb hnot
    refine ⟨q, hkept q hq ?_, hqb⟩
    rintro rfl
    exact hother hqb.symm
  · rintro rfl
    rw [List.mem_singleton] at hb'
    exact hp.2 (hb' ▸ hb)
  · obtain hb | hb := List.mem_append.mp hb
    · exact h.freedOld b hb
    · rw [List.mem_singleton.mp hb]
      exact (List.getElem?_eq_some_iff.mp hp.1).1
  · obtain hb | hb := List.mem_append.mp hb
    · exact h.dead b hb key dtor hkey
    · rw [List.mem_singleton.mp hb] at hkey ⊢
      obtain ⟨rfl, rfl⟩ : (t.mem p).key = key ∧ (t.mem p).dtor = dtor := by
        simpa using hp.1.symm.trans hkey
      exact hdestroyed

/-! ### Runs -/

/-- A step of a call that has this node, on a table that the step changes. -/
theorem Inv.nextOwn {res : List (PlsKey × ℕ)} (h : Inv k s l) (hp : (s.pc i).own = some p)
    (hframe : Frame s.table t' l l' p) (htable : t'.Ok k l') (hpc : pc'.Ok k t' l')
    (hown : ∀ q, pc'.own = some q → q = p)
    (halloc : ∀ q ∈ t'.allocated, q ∈ s.table.allocated ∧ (q = p → q ∈ l' ∨ pc'.own = some q))
    (hres : ∀ q, (k, q) ∈ res → q ∈ l' ∧ (t'.mem q).key = k) :
    Inv k ⟨t', Function.update s.pc i pc', s.results ++ res⟩ l' := by
  refine h.next hframe (h.alone hp) htable hpc (fun q hq => .inl (hown q hq)) ?_ hres
  intro q hq
  obtain ⟨hold, hself⟩ := halloc q hq
  rcases eq_or_ne q p with heq | hne
  · exact (hself heq).imp_right .inl
  · refine .inr (.inr ⟨hold, fun hq' => hne ?_⟩)
    exact Option.some.inj (hq'.symm.trans hp)

/-- A search goes on, ends or finds a node. -/
theorem Inv.search {calloc : Option ℕ} {pls : Option ℕ} {lst : ℕ} (h : Inv k s l)
    (hpc : s.pc i = .search c pls lst)
    (hstep : advance s.table calloc (.search c pls lst) = some (t', pc')) :
    Inv k ⟨t', Function.update s.pc i pc', s.results ++ result (.search c pls lst) pc'⟩ l := by
  have hi := h.pcs i
  rw [hpc] at hi
  obtain ⟨hadds, hlst, hpls⟩ := hi
  by_cases h0 : lst = 0
  · simp only [FastRpc.Pls.advance, if_pos h0] at hstep
    cases hstep
    have hnone : ∀ p ∈ pls, c.key = k → ∀ q ∈ fromNode (s.table.mem p).next l,
        (s.table.mem q).key ≠ k := by
      intro p hp hkey q hq hqk
      have := (hpls p hp).2 hkey q hq hqk
      rw [h0, fromNode_of_notMem h.table.zero_notMem] at this
      cases this
    cases pls with
    | some p =>
        have hnext : notFound c (some p) = .compareExchange c p := by cases c <;> rfl
        rw [hnext]
        exact h.quiet ⟨hadds, (hpls p rfl).1, hnone p rfl⟩ (hpc ▸ rfl) (by simp [result])
    | none =>
        cases c with
        | lookup key => exact h.quiet trivial (hpc ▸ rfl) (by simp [result, notFound])
        | addLookupSingleton key dtor => exact h.quiet hadds (hpc ▸ rfl) (by simp [result, notFound])
        | add key dtor => exact h.quiet hadds (hpc ▸ rfl) (by simp [result, notFound])
  · have hl : lst ∈ l := hlst.resolve_left h0
    by_cases hkey : (s.table.mem lst).key = c.key
    · simp only [FastRpc.Pls.advance, if_neg h0, if_pos hkey] at hstep
      cases hstep
      cases pls with
      | none =>
          refine h.quiet trivial (hpc ▸ rfl) fun q hq => ?_
          obtain ⟨rfl, rfl⟩ : k = c.key ∧ q = lst := by simpa [result, Pc.key, found] using hq
          exact ⟨hl, hkey⟩
      | some p => exact h.quiet ⟨hadds, (hpls p rfl).1.toOwns, hl, hkey⟩ (hpc ▸ rfl) (by simp [result, found])
    · simp only [FastRpc.Pls.advance, if_neg h0, if_neg hkey] at hstep
      cases hstep
      obtain ⟨hfrom, hnext⟩ := h.table.linked.fromNode_next h.table.nodup h.table.zero_notMem hl
      refine h.quiet ⟨hadds, hnext, fun p hp => ⟨(hpls p hp).1, fun hck q hq hqk => ?_⟩⟩ (hpc ▸ rfl)
        (by simp [result])
      have hmem := (hpls p hp).2 hck q hq hqk
      rw [hfrom] at hmem
      refine (List.mem_cons.mp hmem).resolve_left ?_
      rintro rfl
      exact hkey (hqk.trans hck.symm)

/-- The exchange publishes the node, or the head has changed. -/
theorem Inv.exchange {calloc : Option ℕ} (h : Inv k s l) (hpc : s.pc i = .compareExchange c p)
    (hstep : advance s.table calloc (.compareExchange c p) = some (t', pc')) :
    ∃ l', Inv k ⟨t', Function.update s.pc i pc', s.results ++ result (.compareExchange c p) pc'⟩ l' := by
  have hi := h.pcs i
  rw [hpc] at hi
  obtain ⟨hadds, hwaits, hnone⟩ := hi
  by_cases hhead : s.table.lst = (s.table.mem p).next
  · simp only [FastRpc.Pls.advance, if_pos hhead] at hstep
    cases hstep
    obtain ⟨htable, hframe⟩ := h.table.push hwaits hhead hnone
    refine ⟨p :: l, h.nextOwn (hpc ▸ rfl) hframe htable trivial nofun (fun q hq => ⟨hq, ?_⟩) ?_⟩
    · rintro rfl
      exact .inl List.mem_cons_self
    · intro q hq
      obtain ⟨rfl, rfl⟩ : k = c.key ∧ q = p := by simpa [result, Pc.key] using hq
      exact ⟨List.mem_cons_self, hwaits.key⟩
  · simp only [FastRpc.Pls.advance, if_neg hhead] at hstep
    cases hstep
    exact ⟨l, h.quiet ⟨hadds, hwaits.toOwns⟩ (hpc ▸ rfl) (by simp [result])⟩

/-- One step of a call, case by case. -/
theorem Inv.advance {calloc : Option ℕ} (h : Inv k s l)
    (hstep : advance s.table calloc (s.pc i) = some (t', pc')) :
    ∃ l', Inv k ⟨t', Function.update s.pc i pc', s.results ++ result (s.pc i) pc'⟩ l' := by
  have hi := h.pcs i
  cases hpc : s.pc i <;> rw [hpc] at hstep hi
  case returned ppo => cases hstep
  case loadHead c pls =>
    cases hstep
    refine ⟨l, h.quiet ⟨hi.1, h.table.linked.head_mem, fun p hp => ⟨hi.2 p hp, fun _ q hq _ => ?_⟩⟩
      (hpc ▸ rfl) (by simp [result])⟩
    rw [h.table.linked.fromNode_head]
    exact fromNode_subset _ l hq
  case search c pls lst => exact ⟨l, h.search hpc hstep⟩
  case allocate c =>
    cases calloc with
    | none =>
        cases hstep
        exact ⟨l, h.quiet trivial (hpc ▸ rfl) (by simp [result])⟩
    | some p =>
        simp only [FastRpc.Pls.advance] at hstep
        split at hstep
        case isTrue => cases hstep
        case isFalse hnew =>
          cases hstep
          obtain ⟨hp0, hpnew⟩ := not_or.mp hnew
          obtain ⟨htable, hframe, howns⟩ := h.table.alloc (c := c) hp0 hpnew
          have halone : ∀ j, j ≠ i → (s.pc j).own ≠ some p :=
            fun j _ hj => hpnew ((h.pcs j).own_allocated hj).1
          refine ⟨l, h.next hframe halone htable ⟨hi, howns⟩ (fun q hq => .inl ?_) (fun q hq => ?_)
            (by simp [result])⟩
          · exact (Option.some.inj hq).symm
          · obtain rfl | hq := List.mem_cons.mp hq
            · exact .inr (.inl rfl)
            · exact .inr (.inr ⟨hq, by simp [hpc, Pc.own]⟩)
  case loadNext c p =>
    obtain ⟨hadds, howns⟩ := hi
    obtain ⟨htable, hframe, hwaits⟩ := h.table.setNext howns
    cases hstep
    refine ⟨l, h.nextOwn (hpc ▸ rfl) hframe htable ?_ ?_ (fun q hq => ⟨hq, ?_⟩) ?_⟩
    · cases c with
      | add key dtor =>
          refine ⟨hadds, hwaits, ?_⟩
          rintro rfl
          exact absurd ⟨dtor, rfl⟩ hadds
      | addLookupSingleton key dtor => exact ⟨hadds, fun q hq => Option.some.inj hq ▸ hwaits⟩
      | lookup key => exact ⟨hadds, fun q hq => Option.some.inj hq ▸ hwaits⟩
    · cases c <;> exact fun q hq => (Option.some.inj hq).symm
    · rintro rfl
      cases c <;> exact .inr rfl
    · cases c <;> simp [result]
  case compareExchange c p => exact h.exchange hpc hstep
  case destroy c p ppo =>
    obtain ⟨hadds, howns, hppo, hkey⟩ := hi
    obtain ⟨htable, hframe, hdestroyed⟩ := h.table.destroy howns
    cases hstep
    refine ⟨l, h.nextOwn (hpc ▸ rfl) hframe htable
      ⟨hadds, ⟨howns.allocated, howns.unlisted, hdestroyed⟩, hppo, hkey⟩
      (fun q hq => (Option.some.inj hq).symm) (fun q hq => ⟨hq, ?_⟩) (by simp [result])⟩
    rintro rfl
    exact .inr rfl
  case free c p ppo =>
    obtain ⟨hadds, ⟨halloc, hpl, hdestroyed⟩, hppo, hkey⟩ := hi
    obtain ⟨htable, hframe⟩ := h.table.free halloc hpl hdestroyed
    cases hstep
    refine ⟨l, h.nextOwn (hpc ▸ rfl) hframe htable trivial nofun (fun q hq => ?_) fun q hq => ?_⟩
    · obtain ⟨hne, hq⟩ := h.table.allocatedNodup.mem_erase_iff.mp hq
      exact ⟨hq, fun heq => absurd heq hne⟩
    · obtain ⟨rfl, rfl⟩ : k = c.key ∧ q = ppo := by simpa [result, Pc.key] using hq
      exact ⟨hppo, hkey⟩

theorem Inv.step {e : Event ι} (h : Inv k s l) (hadds : ∀ i dtor, e ≠ .call i (.add k dtor))
    (hstep : step s e = some s') : ∃ l', Inv k s' l' := by
  cases e with
  | call i c =>
      simp only [FastRpc.Pls.step] at hstep
      split at hstep
      case h_1 ppo hpc =>
        cases hstep
        refine ⟨l, h.call (hpc ▸ rfl) ?_⟩
        rintro ⟨dtor, rfl⟩
        exact hadds i dtor rfl
      case h_2 => cases hstep
  | next i calloc =>
      obtain ⟨r, hr, rfl⟩ := Option.map_eq_some_iff.mp hstep
      exact h.advance hr

omit [DecidableEq ι] in
theorem inv_init (k : PlsKey) : Inv k (init : State ι) [] where
  table := by
    constructor <;> simp [init, Linked, Table.destructionsOf]
  pcs := fun _ => trivial
  distinct := nofun
  owned := nofun
  results := nofun

end Invariant

/-- Whatever the order of the steps is, the table keeps one node of a key that no `pls_add` is called
for, and the calls for it agree. -/
theorem singleton_run {k : PlsKey} {es : List (Event ι)} {s : State ι}
    (hadds : ∀ i dtor, Event.call i (.add k dtor) ∉ es) (hrun : run step init es = some s) :
    ∃ l, Singleton k s l := by
  have hguard : ∀ e ∈ es, ∀ i dtor, e ≠ .call i (.add k dtor) := by
    rintro e he i dtor rfl
    exact hadds i dtor he
  have hstep : ∀ (s : State ι) (e : Event ι) (t : State ι), (∃ l, Inv k s l) →
      (∀ i dtor, e ≠ .call i (.add k dtor)) ∧ True → step s e = some t → ∃ l, Inv k t l := by
    rintro s e t ⟨l, h⟩ ⟨hadds, _⟩ hstep
    exact h.step hadds hstep
  obtain ⟨l, h⟩ := guarded_invariant hstep ⟨[], inv_init k⟩
    ((guarded_of_forall (fun _ _ => trivial) init es).and_forall hguard) hrun
  exact ⟨l, h.singleton⟩

/-- Two calls that both find the table empty. -/
def race : List (Event Bool) :=
  let c := Call.addLookupSingleton ⟨1, 2⟩ (some 7)
  [.call false c, .call true c, .next false none, .next true none, .next false none, .next true none,
    .next false (some 8), .next true (some 16), .next false none, .next true none, .next false none,
    .next true none, .next false none, .next true none, .next false none, .next true none,
    .next true none, .next true none, .next true none, .next true none, .next true none]

theorem singleton_run_race : ∃ s, run step init race = some s ∧ s.table.destroyed = [(7, 1)] ∧
    s.table.freed = [1] ∧ s.results = [(⟨1, 2⟩, 8), (⟨1, 2⟩, 8)] ∧ ∃ l, Singleton ⟨1, 2⟩ s l := by
  have hadds : ∀ i dtor, Event.call i (.add ⟨1, 2⟩ dtor) ∉ race := by simp [race]
  exact ⟨_, rfl, rfl, rfl, rfl, singleton_run hadds rfl⟩

end FastRpc.Pls
