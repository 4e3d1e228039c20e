import FastRpc.StaticMap

/-! # Lifetimes of the static mappings

A call of `fastrpc_mmap` keeps a pointer to the last node of its search while the lock is released,
and a call of `fastrpc_munmap` a pointer to the node that it unmaps (`Pc.uses`).  Nothing tells
another call: `munmapFind` accepts a node whose reference count is already `0`, and
`fastrpc_mem_close` frees every node of the list.  So two calls that unmap one file descriptor at
the same time both dequeue and free its node (`node_freed_twice`).

Apart from that the lifetimes are right.  The invariant `Valid` says what the lists, the freed nodes
and the pointers of the calls have to do with each other, and the runs that keep it are exactly those
in which no step frees a node that another call still uses (`mapping_lifetime`). -/

namespace FastRpc.StaticMap

open BlockHeap Transition

/-! ### The condition -/

/-- The node that a call will dereference after it has released the lock, with its list. -/
def Pc.uses : Pc → Option (Domain × ℕ)
  | .mmapSearched d _ tNode => tNode.map (fun n => (d, n))
  | .munmapFound d mNode => some (d, mNode)
  | .munmapCalled d mNode a =>
      if a.iocErr ≠ 0 ∧ a.munmapUnsupported then none else some (d, mNode)
  | _ => none

/-- The node that a call of `fastrpc_mmap` has allocated and not yet appended. -/
def Pc.own : Pc → Option ℕ
  | .mmapAllocated _ mNode => some mNode
  | .mmapMapped _ mNode _ => some mNode
  | _ => none

/-- The listed nodes that the next piece of a call dequeues and frees. -/
def releases (s : Store) : Pc → List ℕ
  | .munmapCalled _ mNode a => if a.iocErr = 0 then [mNode] else []
  | .closeEnter d => s.smaplst d
  | _ => []

/-- No node was freed or dequeued twice, and no access reached a freed node. -/
def LifetimesOk (s : Store) : Prop := s.heap.Clean ∧ s.dequeued.Nodup

variable {ι : Type}

/-- The lifetimes are right, and no thread is about to break them. -/
def Safe [DecidableEq ι] (s : State ι) : Prop :=
  LifetimesOk s.store ∧ ∀ e t, step s e = some t → LifetimesOk t.store

/-- The step frees no node that the call of another thread still uses. -/
def FreesUnused (s : State ι) : Event ι → Prop
  | .call _ _ _ => True
  | .next i _ => ∀ n ∈ releases s.store (s.pc i), ∀ j, j ≠ i → ∀ d, (s.pc j).uses ≠ some (d, n)

/-! ### Stores -/

/-- The lists hold live nodes, each in one place, and what was dequeued is freed. -/
structure Store.Ok (s : Store) : Prop where
  clean : s.heap.Clean
  listed : ∀ d, ∀ n ∈ s.smaplst d, s.heap.Live n
  nodup : ∀ d, (s.smaplst d).Nodup
  disjoint : ∀ d d' n, n ∈ s.smaplst d → n ∈ s.smaplst d' → d = d'
  dequeuedNodup : s.dequeued.Nodup
  dequeuedFreed : ∀ n ∈ s.dequeued, n ∈ s.heap.freed
  freedOld : ∀ n ∈ s.heap.freed, n < s.heap.next

/-- The store with other contents of its nodes. -/
def Store.withCells (s : Store) (cell : ℕ → Node) : Store :=
  { s with heap := { s.heap with cell := cell } }

/-- The store without the listed nodes `ns`, which were dequeued and freed. -/
def Store.release (s : Store) (ns : List ℕ) : Store :=
  { heap := s.heap.freeAll ns,
    smaplst := fun d => (s.smaplst d).filter (fun n => n ∉ ns),
    dequeued := s.dequeued ++ ns }

section Stores

variable {s : Store} {domain d : Domain} {n : ℕ} {ns : List ℕ}

theorem Store.Ok.lifetimesOk (hs : s.Ok) : LifetimesOk s := ⟨hs.clean, hs.dequeuedNodup⟩

theorem Store.Ok.init : Store.init.Ok :=
  ⟨Heap.clean_empty _, fun _ _ hn => absurd hn List.not_mem_nil, fun _ => List.nodup_nil,
    fun _ _ _ hn => absurd hn List.not_mem_nil, List.nodup_nil,
    fun _ hn => absurd hn List.not_mem_nil, fun _ hn => absurd hn List.not_mem_nil⟩

theorem Store.Ok.withCells (hs : s.Ok) (cell : ℕ → Node) : (s.withCells cell).Ok :=
  ⟨hs.clean, hs.listed, hs.nodup, hs.disjoint, hs.dequeuedNodup, hs.dequeuedFreed, hs.freedOld⟩

theorem Store.Ok.alloc (hs : s.Ok) (node : Node) : Store.Ok { s with heap := s.heap.alloc node } :=
  ⟨hs.clean.alloc node, fun d n hn => Heap.live_alloc node (hs.listed d n hn), hs.nodup,
    hs.disjoint, hs.dequeuedNodup, hs.dequeuedFreed,
    fun n hn => Nat.lt_succ_of_lt (hs.freedOld n hn)⟩

/-- Freeing a live node that is on no list. -/
theorem Store.Ok.free (hs : s.Ok) (hn : s.heap.Live n) (hun : ∀ d, n ∉ s.smaplst d) :
    (s.free n).Ok where
  clean := hs.clean.freeAll (List.nodup_singleton n) (by simpa using hn)
  listed := by
    intro d m hm
    refine Heap.live_freeAll (hs.listed d m hm) ?_
    rw [List.mem_singleton]
    rintro rfl
    exact hun d hm
  nodup := hs.nodup
  disjoint := hs.disjoint
  dequeuedNodup := hs.dequeuedNodup
  dequeuedFreed := fun m hm => List.mem_append_left _ (hs.dequeuedFreed m hm)
  freedOld := by
    intro m hm
    obtain hm | hm := List.mem_append.mp hm
    · exact hs.freedOld m hm
    · exact List.mem_singleton.mp hm ▸ hn.1

/-- Appending a live node that is on no list. -/
theorem Store.Ok.append (hs : s.Ok) (domain : Domain) (hn : s.heap.Live n) (hun : ∀ d, n ∉ s.smaplst d) :
    (s.append domain n).Ok ∧ s.append domain n =
      { s with smaplst := Function.update s.smaplst domain (s.smaplst domain ++ [n]) } := by
  have heq : s.append domain n =
      { s with smaplst := Function.update s.smaplst domain (s.smaplst domain ++ [n]) } := by
    unfold Store.append
    rw [Heap.touch_live hn, Heap.touchAll_live]
    intro m hm
    exact hs.listed domain m (List.mem_of_getLast? (Option.mem_toList.mp hm))
  have hmem : ∀ d m, m ∈ Function.update s.smaplst domain (s.smaplst domain ++ [n]) d →
      m ∈ s.smaplst d ∨ (d = domain ∧ m = n) := by
    intro d m hm
    rcases eq_or_ne d domain with rfl | hne
    · rw [Function.update_self, List.mem_append, List.mem_singleton] at hm
      exact hm.imp id (fun h => ⟨rfl, h⟩)
    · rw [Function.update_of_ne hne] at hm
      exact .inl hm
  refine ⟨heq ▸ ⟨hs.clean, ?_, ?_, ?_, hs.dequeuedNodup, hs.dequeuedFreed,
    hs.freedOld⟩, heq⟩
  · intro d m hm
    obtain hm | ⟨_, rfl⟩ := hmem d m hm
    · exact hs.listed d m hm
    · exact hn
  · intro d
    refine Threads.forall_update (P := fun _ (l : List ℕ) => l.Nodup) ?_ (fun d _ => hs.nodup d) d
    refine List.nodup_append.mpr ⟨hs.nodup domain, List.nodup_singleton n, ?_⟩
    rintro m hm _ hm' rfl
    rw [List.mem_singleton] at hm'
    exact hun domain (hm' ▸ hm)
  · intro d d' m hd hd'
    obtain hl | ⟨hl, hm⟩ := hmem d m hd
    · obtain hl' | ⟨_, hm'⟩ := hmem d' m hd'
      · exact hs.disjoint d d' m hl hl'
      · exact absurd (hm' ▸ hl) (hun d)
    · obtain hl' | ⟨hl', _⟩ := hmem d' m hd'
      · exact absurd (hm ▸ hl') (hun d')
      · rw [hl, hl']

@[simp] theorem mem_release {m : ℕ} : m ∈ (s.release ns).smaplst d ↔ m ∈ s.smaplst d ∧ m ∉ ns := by
  simp [Store.release]

/-- Releasing nodes of a list, each once. -/
theorem Store.Ok.release (hs : s.Ok) (hnodup : ns.Nodup) (hns : ∀ n ∈ ns, n ∈ s.smaplst d) :
    (s.release ns).Ok where
  clean := hs.clean.freeAll hnodup (fun n hn => hs.listed d n (hns n hn))
  listed := by
    intro d' m hm
    rw [mem_release] at hm
    exact Heap.live_freeAll (hs.listed d' m hm.1) hm.2
  nodup := fun d' => (hs.nodup d').filter _
  disjoint := by
    intro d₁ d₂ m h₁ h₂
    rw [mem_release] at h₁ h₂
    exact hs.disjoint d₁ d₂ m h₁.1 h₂.1
  dequeuedNodup := by
    refine List.nodup_append.mpr ⟨hs.dequeuedNodup, hnodup, ?_⟩
    rintro m hm _ hn rfl
    exact (hs.listed d m (hns m hn)).2 (hs.dequeuedFreed m hm)
  dequeuedFreed := by
    intro m hm
    obtain hm | hm := List.mem_append.mp hm
    · exact List.mem_append_left _ (hs.dequeuedFreed m hm)
    · exact List.mem_append_right _ hm
  freedOld := by
    intro m hm
    obtain hm | hm := List.mem_append.mp hm
    · exact hs.freedOld m hm
    · exact (hs.listed d m (hns m hm)).1

theorem release_release (ms : List ℕ) : (s.release ns).release ms = s.release (ns ++ ms) := by
  unfold Store.release
  rw [Heap.freeAll_freeAll, List.append_assoc]
  congr 1
  funext d'
  rw [List.filter_filter]
  refine List.filter_congr ?_
  intro m _
  simp [Bool.and_comm]

theorem mem_of_mem_neighbours {m : ℕ} {l : List ℕ} (hm : m ∈ neighbours n l) : m ∈ l := by
  induction l with
  | nil => exact hm
  | cons a l ih =>
      cases l with
      | nil => exact absurd hm List.not_mem_nil
      | cons b l =>
          unfold neighbours at hm
          split_ifs at hm
          · rw [List.mem_singleton] at hm
            simp [hm]
          · obtain rfl | hm := List.mem_cons.mp hm
            · exact List.mem_cons_self
            · exact List.mem_cons_of_mem a (List.mem_cons_of_mem b
                (List.mem_of_mem_head? (Option.mem_toList.mp hm)))
          · exact List.mem_cons_of_mem a (ih hm)

/-- A node of the list is dequeued and freed. -/
theorem Store.Ok.dequeue_free (hs : s.Ok) (hn : n ∈ s.smaplst domain) :
    (s.dequeueZ domain n).free n = s.release [n] := by
  unfold Store.dequeueZ
  rw [if_pos hn, Heap.touch_live (hs.listed domain n hn),
    Heap.touchAll_live (fun m hm => hs.listed domain m (mem_of_mem_neighbours hm))]
  unfold Store.free Store.release
  congr 1
  funext d'
  refine Threads.forall_update (P := fun d' (l : List ℕ) =>
    l = (s.smaplst d').filter (fun m => m ∉ [n])) ?_ ?_ d'
  · rw [(hs.nodup domain).erase_eq_filter]
    refine List.filter_congr (fun m _ => ?_)
    rw [Bool.eq_iff_iff]
    simp
  · intro d hne
    symm
    rw [List.filter_eq_self]
    intro m hm
    have hmn : m ≠ n := fun h => hne (hs.disjoint d domain m hm (h ▸ hn))
    simpa using hmn

theorem closeLoop_release (hs : s.Ok) (hl : s.smaplst domain = ns) :
    closeLoop domain s ns = s.release ns := by
  induction ns generalizing s with
  | nil => simp [closeLoop, Store.release, Heap.freeAll]
  | cons n ns ih =>
      have hn : n ∈ s.smaplst domain := hl ▸ List.mem_cons_self
      have htouch : s.touch n = s := by
        unfold Store.touch
        rw [Heap.touch_live (hs.listed domain n hn)]
      have hok : (s.release [n]).Ok :=
        hs.release (d := domain) (List.nodup_singleton n) (by simpa using hn)
      have hrest : (s.release [n]).smaplst domain = ns := by
        have hnd := hs.nodup domain
        rw [hl, List.nodup_cons] at hnd
        simp only [Store.release, hl]
        rw [List.filter_cons_of_neg (by simp), List.filter_eq_self]
        intro m hm
        have hmn : m ≠ n := fun h => hnd.1 (h ▸ hm)
        simpa using hmn
      rw [closeLoop, htouch, hs.dequeue_free hn, ih hok hrest, release_release,
        List.singleton_append]

/-- A search of the list reads live nodes only and ends at one of them. -/
theorem searchMap_live (found : MemMap → Bool) {h : Heap Node} (node : Option ℕ)
    (hl : ∀ n ∈ ns, h.Live n) :
    (searchMap found h node ns).1 = h ∧
      ∀ n, (searchMap found h node ns).2 = some n → n ∈ ns ∨ node = some n := by
  induction ns generalizing node with
  | nil => exact ⟨rfl, fun n hn => .inr hn⟩
  | cons m ns ih =>
      unfold searchMap
      rw [Heap.touch_live (hl m List.mem_cons_self)]
      dsimp only
      split_ifs with hf
      · refine ⟨rfl, fun n hn => .inl ?_⟩
        obtain rfl := Option.some.inj hn
        exact List.mem_cons_self
      · obtain ⟨hh, hmem⟩ := ih (some m) (fun n hn => hl n (List.mem_cons_of_mem m hn))
        refine ⟨hh, fun n hn => .inl ?_⟩
        obtain hn | hn := hmem n hn
        · exact List.mem_cons_of_mem m hn
        · exact Option.some.inj hn ▸ List.mem_cons_self

theorem Store.Ok.searchMap (hs : s.Ok) (found : MemMap → Bool) :
    (searchMap found s.heap none (s.smaplst d)).1 = s.heap ∧
      ∀ n, (StaticMap.searchMap found s.heap none (s.smaplst d)).2 = some n → n ∈ s.smaplst d := by
  obtain ⟨hh, hmem⟩ := searchMap_live found none (hs.listed d)
  refine ⟨hh, fun n hn => ?_⟩
  obtain hn | hn := hmem n hn
  · exact hn
  · cases hn

end Stores

/-! ### The pieces of the calls -/

/-- The call has no pointer that it will dereference, and no node of its own. -/
def Pc.Clear (pc : Pc) : Prop := pc.uses = none ∧ pc.own = none

/-- What a piece of a call does to the store and to the pointers of the call. -/
inductive Piece (s : Store) (pc : Pc) : Store → Pc → Prop
  | inspect (cell : ℕ → Node) (pc' : Pc)
      (huses : ∀ d n, pc'.uses = some (d, n) → n ∈ s.smaplst d)
      (hown : ∀ n, pc'.own = some n → pc.own = some n) : Piece s pc (s.withCells cell) pc'
  | alloc (node : Node) (pc' : Pc) (huses : pc'.uses = none)
      (hown : pc'.own = some s.heap.next) : Piece s pc { s with heap := s.heap.alloc node } pc'
  | drop (n : ℕ) (pc' : Pc) (hn : pc.own = some n) (hclear : pc'.Clear) : Piece s pc (s.free n) pc'
  | append (d : Domain) (n : ℕ) (pc' : Pc) (hn : pc.own = some n) (hclear : pc'.Clear) :
      Piece s pc (s.append d n) pc'
  | release (d : Domain) (pc' : Pc) (hnodup : (releases s pc).Nodup)
      (hlisted : ∀ n ∈ releases s pc, n ∈ s.smaplst d) (hclear : pc'.Clear) :
      Piece s pc (s.release (releases s pc)) pc'

section Pieces

variable {s s' : Store} {pc pc' : Pc} {a : Answer}

theorem clear_returned (r : Outcome) : (Pc.returned r).Clear := ⟨rfl, rfl⟩

theorem Piece.inspect_clear (cell : ℕ → Node) (h : pc'.Clear) :
    Piece s pc (s.withCells cell) pc' := by
  refine .inspect cell pc' ?_ ?_
  · intro d n hn
    rw [h.1] at hn
    cases hn
  · intro n hn
    rw [h.2] at hn
    cases hn

theorem mmapSearch_piece (hs : s.Ok) (d : Domain) (map : MemMap) :
    Piece s pc (mmapSearch s d map.fd).1 (.mmapSearched d map (mmapSearch s d map.fd).2) := by
  obtain ⟨hh, hmem⟩ := hs.searchMap (d := d) (fun m => m.fd == map.fd)
  simp only [mmapSearch, hh]
  refine .inspect s.heap.cell _ ?_ ?_
  · intro d' n hn
    obtain ⟨m, hm, heq⟩ := Option.map_eq_some_iff.mp hn
    obtain ⟨rfl, rfl⟩ := Prod.mk.inj heq
    exact hmem _ hm
  · intro n hn
    cases hn

theorem mmapAllocate_piece {d : Domain} {map : MemMap} {tNode : Option ℕ} (hs : s.Ok)
    (hu : ∀ n, tNode = some n → n ∈ s.smaplst d)
    (h : advance s a (.mmapSearched d map tNode) = some (s', pc')) : Piece s pc s' pc' := by
  have hheap : s.heap.touchAll tNode.toList = s.heap :=
    Heap.touchAll_live (fun n hn => hs.listed d n (hu n (Option.mem_toList.mp hn)))
  simp only [advance, mmapAllocate, hheap] at h
  split_ifs at h
  · cases h
    exact .inspect_clear s.heap.cell (clear_returned _)
  · cases h
    exact .alloc _ _ rfl rfl
  · cases h
    exact .inspect_clear s.heap.cell (clear_returned _)

theorem mmapDriver_piece {d : Domain} {mNode : ℕ} (hn : s.heap.Live mNode)
    (h : advance s a (.mmapAllocated d mNode) = some (s', pc')) :
    Piece s (.mmapAllocated d mNode) s' pc' := by
  simp only [advance, mmapDriver] at h
  split_ifs at h
  · cases h
    rw [Heap.write_live hn]
    refine .inspect _ _ ?_ ?_
    · intro d n hn
      cases hn
    · exact fun n hn => hn
  · cases h
    exact .drop mNode _ rfl (clear_returned _)
  · cases h
    exact .drop mNode _ rfl (clear_returned _)

theorem munmapFind_piece {d : Domain} {key : Key} (hs : s.Ok)
    (h : advance s a (.munmapEnter d key) = some (s', pc')) : Piece s pc s' pc' := by
  obtain ⟨hh, hmem⟩ := hs.searchMap (d := d) key.found
  simp only [advance, munmapFind, hh] at h
  cases hr : (searchMap key.found s.heap none (s.smaplst d)).2 with
  | none =>
      simp only [hr] at h
      cases h
      exact .inspect_clear s.heap.cell (clear_returned _)
  | some mNode =>
      simp only [hr] at h
      split_ifs at h
      · cases h
        exact .inspect_clear s.heap.cell (clear_returned _)
      · cases h
        rw [Heap.write_live (hs.listed d mNode (hmem mNode hr))]
        refine .inspect _ _ ?_ ?_
        · intro d' n hn
          obtain ⟨rfl, rfl⟩ := Prod.mk.inj (Option.some.inj hn)
          exact hmem _ hr
        · intro n hn
          cases hn
      · cases h
        exact .inspect_clear s.heap.cell (clear_returned _)

theorem munmapFinish_piece {d : Domain} {mNode : ℕ} {ans : DriverAnswer} (hs : s.Ok)
    (hu : ∀ d' n, (Pc.munmapCalled d mNode ans).uses = some (d', n) → n ∈ s.smaplst d') :
    Piece s (.munmapCalled d mNode ans) (munmapFinish s d mNode ans).1
      (.returned (.of (munmapFinish s d mNode ans).2)) := by
  unfold munmapFinish
  split_ifs with hioc hun
  · have hn : mNode ∈ s.smaplst d := hu d mNode (if_neg (by simp [hioc]))
    have hrel : releases s (.munmapCalled d mNode ans) = [mNode] := if_pos hioc
    rw [hs.dequeue_free hn, ← hrel]
    refine .release d _ ?_ ?_ (clear_returned _)
    · rw [hrel]
      exact List.nodup_singleton mNode
    · rw [hrel]
      simpa using hn
  · exact .inspect_clear s.heap.cell (clear_returned _)
  · have hn : mNode ∈ s.smaplst d := hu d mNode (if_neg (by simp [hun]))
    rw [Heap.write_live (hs.listed d mNode hn)]
    exact .inspect_clear _ (clear_returned _)

theorem fastrpcBufferRef_piece (hs : s.Ok) (d : Domain) (fd ref : ℤ) :
    Piece s pc (fastrpcBufferRef s d fd ref).1 (.returned (fastrpcBufferRef s d fd ref).2) := by
  obtain ⟨hh, hmem⟩ := hs.searchMap (d := d) (fun m => m.fd == fd)
  unfold fastrpcBufferRef
  simp only [hh]
  cases hf : (searchMap (fun m => m.fd == fd) s.heap none (s.smaplst d)).2.filter
      (fun n => (s.heap.cell n).map.fd == fd) with
  | none => exact .inspect_clear s.heap.cell (clear_returned _)
  | some n =>
      have hlive : s.heap.Live n := hs.listed d n (hmem n (Option.filter_eq_some_iff.mp hf).1)
      simp only [Heap.write_live hlive]
      split_ifs <;> exact .inspect_clear _ (clear_returned _)

/-- **One piece of a call**, in a store with right lifetimes and with pointers to listed nodes. -/
theorem advance_piece (hs : s.Ok) (hu : ∀ d n, pc.uses = some (d, n) → n ∈ s.smaplst d)
    (ho : ∀ n, pc.own = some n → s.heap.Live n) (h : advance s a pc = some (s', pc')) :
    Piece s pc s' pc' := by
  cases pc with
  | returned r => cases h
  | mmapEnter d map =>
      cases h
      exact mmapSearch_piece hs d map
  | mmapSearched d map tNode =>
      exact mmapAllocate_piece hs (fun n hn => hu d n (by simp [Pc.uses, hn])) h
  | mmapAllocated d mNode => exact mmapDriver_piece (ho mNode rfl) h
  | mmapMapped d mNode vaddrout =>
      cases h
      exact .append d mNode _ rfl (clear_returned _)
  | munmapEnter d key => exact munmapFind_piece hs h
  | munmapFound d mNode =>
      have hn : mNode ∈ s.smaplst d := hu d mNode rfl
      simp only [advance, munmapDriver, Store.touch, Heap.touch_live (hs.listed d mNode hn)] at h
      cases h
      refine .inspect s.heap.cell _ ?_ ?_
      · intro d' n hn'
        simp only [Pc.uses] at hn'
        split_ifs at hn'
        obtain ⟨rfl, rfl⟩ := Prod.mk.inj (Option.some.inj hn')
        exact hn
      · intro n hn
        cases hn
  | munmapCalled d mNode ans =>
      cases h
      exact munmapFinish_piece hs hu
  | refEnter d fd ref =>
      cases h
      exact fastrpcBufferRef_piece hs d fd ref
  | closeEnter d =>
      cases h
      unfold fastrpcMemClose
      rw [closeLoop_release hs rfl]
      exact .release d _ (hs.nodup d) (fun n hn => hn) (clear_returned _)

end Pieces

/-! ### The invariant -/

/-- The node is live and on no list. -/
def Unlisted (s : Store) (n : ℕ) : Prop := s.heap.Live n ∧ ∀ d, n ∉ s.smaplst d

/-- The store is right, and the nodes that the calls have allocated are live, on no list, and
each of one call. -/
structure Sound (s : State ι) : Prop where
  store : s.store.Ok
  own : ∀ i n, (s.pc i).own = some n → Unlisted s.store n
  ownOnce : ∀ i j n, (s.pc i).own = some n → (s.pc j).own = some n → i = j

/-- **The invariant**: also, every pointer that a call will dereference is to a listed node. -/
structure Valid (s : State ι) : Prop extends Sound s where
  uses : ∀ i d n, (s.pc i).uses = some (d, n) → n ∈ s.store.smaplst d

section Invariant

variable {s t : State ι} {i : ι} {s' : Store} {pc' : Pc} {e : Event ι}

theorem valid_init : Valid (init : State ι) where
  store := .init
  own := by
    intro i n hn
    cases hn
  ownOnce := by
    intro i j n hn
    cases hn
  uses := by
    intro i d n hn
    cases hn

theorem Sound.ne_of_own (hs : Sound s) {j : ι} (hji : j ≠ i) {n m : ℕ}
    (hn : (s.pc j).own = some n) (hm : (s.pc i).own = some m) : n ≠ m := by
  rintro rfl
  exact hji (hs.ownOnce j i n hn hm)

theorem Valid.piece (hs : Valid s) {a : Answer} (h : advance s.store a (s.pc i) = some (s', pc')) :
    Piece s.store (s.pc i) s' pc' :=
  advance_piece hs.store (hs.uses i) (fun n hn => (hs.own i n hn).1) h

variable [DecidableEq ι]

/-- What `Sound` says about the calls' own nodes, after a step of thread `i`. -/
theorem Sound.next (hs : Sound s) (hok : s'.Ok)
    (hother : ∀ j, j ≠ i → ∀ n, (s.pc j).own = some n → Unlisted s' n)
    (hown : ∀ n, pc'.own = some n → Unlisted s' n)
    (honce : ∀ n, pc'.own = some n → ∀ j, j ≠ i → (s.pc j).own ≠ some n) :
    Sound (⟨s', Function.update s.pc i pc'⟩ : State ι) where
  store := hok
  own := Threads.forall_update (P := fun _ (pc : Pc) => ∀ n, pc.own = some n → Unlisted s' n) hown hother
  ownOnce := by
    intro a b n ha hb
    dsimp only at ha hb
    rcases eq_or_ne a i with rfl | hai
    · rw [Function.update_self] at ha
      by_contra hab
      rw [Function.update_of_ne (Ne.symm hab)] at hb
      exact honce n ha b (Ne.symm hab) hb
    · rw [Function.update_of_ne hai] at ha
      rcases eq_or_ne b i with rfl | hbi
      · rw [Function.update_self] at hb
        exact absurd ha (honce n hb a hai)
      · rw [Function.update_of_ne hbi] at hb
        exact hs.ownOnce a b n ha hb

theorem Pc.Clear.own_ne {pc : Pc} (h : pc.Clear) {n : ℕ} : pc.own ≠ some n := by
  rw [h.2]
  simp

theorem Pc.Clear.uses_ne {pc : Pc} (h : pc.Clear) {d : Domain} {n : ℕ} :
    pc.uses ≠ some (d, n) := by
  rw [h.1]
  simp

/-- A piece of a call that starts from the invariant keeps the store right, whatever the other
calls still use. -/
theorem Valid.sound_next (hs : Valid s) (hp : Piece s.store (s.pc i) s' pc') :
    Sound (⟨s', Function.update s.pc i pc'⟩ : State ι) := by
  have hfree : ∀ j n, (s.pc j).own = some n → ∀ d, ∀ m ∈ s.store.smaplst d, n ≠ m := by
    rintro j n hn d m hm rfl
    exact (hs.own j n hn).2 d hm
  cases hp with
  | inspect cell _ _ hown =>
      exact hs.next (hs.store.withCells cell) (fun j _ n hn => hs.own j n hn)
        (fun n hn => hs.own i n (hown n hn))
        (fun n hn j hji hj => hs.ne_of_own hji hj (hown n hn) rfl)
  | alloc node _ _ hown =>
      have hnew : ∀ n, s.store.heap.Live n → n ≠ s.store.heap.next := fun n hn => hn.1.ne
      refine hs.next (hs.store.alloc node) ?_ ?_ ?_
      · intro j _ n hn
        exact ⟨Heap.live_alloc node (hs.own j n hn).1, (hs.own j n hn).2⟩
      · intro n hn
        obtain rfl := Option.some.inj (hown.symm.trans hn)
        refine ⟨⟨Nat.lt_succ_self _, ?_⟩, ?_⟩
        · intro hf
          exact absurd (hs.store.freedOld _ hf) (lt_irrefl _)
        · intro d hd
          exact hnew _ (hs.store.listed d _ hd) rfl
      · intro n hn j _ hj
        obtain rfl := Option.some.inj (hown.symm.trans hn)
        exact hnew _ (hs.own j _ hj).1 rfl
  | drop m _ hm hclear =>
      obtain ⟨hlive, hun⟩ := hs.own i m hm
      refine hs.next (hs.store.free hlive hun) ?_ ?_ ?_
      · intro j hji n hn
        refine ⟨Heap.live_freeAll (hs.own j n hn).1 ?_, (hs.own j n hn).2⟩
        rw [List.mem_singleton]
        exact hs.ne_of_own hji hn hm
      · exact fun n hn => absurd hn hclear.own_ne
      · exact fun n hn => absurd hn hclear.own_ne
  | append d m _ hm hclear =>
      obtain ⟨hlive, hun⟩ := hs.own i m hm
      obtain ⟨hok, heq⟩ := hs.store.append d hlive hun
      refine hs.next hok ?_ ?_ ?_
      · intro j hji n hn
        rw [heq]
        refine ⟨(hs.own j n hn).1, Threads.forall_update (P := fun _ (l : List ℕ) => n ∉ l) ?_
          (fun d' _ => (hs.own j n hn).2 d')⟩
        rw [List.mem_append, List.mem_singleton]
        exact not_or.mpr ⟨(hs.own j n hn).2 d, hs.ne_of_own hji hn hm⟩
      · exact fun n hn => absurd hn hclear.own_ne
      · exact fun n hn => absurd hn hclear.own_ne
  | release d _ hnodup hlisted hclear =>
      refine hs.next (hs.store.release hnodup hlisted) ?_ ?_ ?_
      · intro j _ n hn
        refine ⟨Heap.live_freeAll (hs.own j n hn).1 ?_, ?_⟩
        · intro hmem
          exact hfree j n hn d n (hlisted n hmem) rfl
        · intro d' hd'
          exact hfree j n hn d' n (mem_release.mp hd').1 rfl
      · exact fun n hn => absurd hn hclear.own_ne
      · exact fun n hn => absurd hn hclear.own_ne

/-- The pointers of the calls stay right when no node is freed that another call uses. -/
theorem Valid.uses_next (hs : Valid s) (hp : Piece s.store (s.pc i) s' pc')
    (hun : ∀ n ∈ releases s.store (s.pc i), ∀ j, j ≠ i → ∀ d, (s.pc j).uses ≠ some (d, n)) :
    ∀ j d n, (Function.update s.pc i pc' j).uses = some (d, n) → n ∈ s'.smaplst d := by
  refine Threads.forall_update
    (P := fun _ (pc : Pc) => ∀ d n, pc.uses = some (d, n) → n ∈ s'.smaplst d) ?_ ?_
  · cases hp with
    | inspect cell _ huses _ => exact huses
    | alloc node _ huses _ =>
        intro d n hn
        rw [huses] at hn
        cases hn
    | drop m _ _ hclear => exact fun d n hn => absurd hn hclear.uses_ne
    | append d' m _ _ hclear => exact fun d n hn => absurd hn hclear.uses_ne
    | release d' _ _ _ hclear => exact fun d n hn => absurd hn hclear.uses_ne
  · intro j hji d n hn
    have hmem : n ∈ s.store.smaplst d := hs.uses j d n hn
    cases hp with
    | inspect cell _ _ _ => exact hmem
    | alloc node _ _ _ => exact hmem
    | drop m _ _ _ => exact hmem
    | append d' m _ _ _ =>
        refine Threads.forall_update (P := fun d (l : List ℕ) => n ∈ s.store.smaplst d → n ∈ l)
          ?_ (fun _ _ h => h) d hmem
        exact fun h => List.mem_append_left _ h
    | release d' _ _ _ _ => exact mem_release.mpr ⟨hmem, fun hf => hun n hf j hji d hn⟩

theorem openSession_clear {session : Session} {domain : ℤ} {enter : Domain → Pc}
    (h : ∀ d, (enter d).Clear) : (openSession session domain enter).Clear := by
  unfold openSession
  split
  · exact clear_returned _
  · split_ifs
    · exact h _
    · exact clear_returned _

theorem enter_clear (session : Session) (c : Call) : (enter session c).Clear := by
  cases c with
  | mmap domain fd vaddr offset length flags =>
      simp only [enter]
      split
      · exact clear_returned _
      · split_ifs
        · exact openSession_clear (fun _ => ⟨rfl, rfl⟩)
        · exact clear_returned _
        · exact clear_returned _
  | mmapInternal domain fd vaddr offset length flags raddr =>
      simp only [enter]
      split
      · exact clear_returned _
      · split_ifs
        · exact openSession_clear (fun _ => ⟨rfl, rfl⟩)
        · exact clear_returned _
        · exact clear_returned _
  | munmap domain fd vaddr length =>
      simp only [enter]
      split
      · exact clear_returned _
      · split_ifs
        · exact openSession_clear (fun _ => ⟨rfl, rfl⟩)
        · exact clear_returned _
  | munmapInternal domain raddr length =>
      simp only [enter]
      split
      · exact clear_returned _
      · exact openSession_clear (fun _ => ⟨rfl, rfl⟩)
  | bufferRef domain fd ref =>
      simp only [enter]
      split
      · exact clear_returned _
      · exact ⟨rfl, rfl⟩
  | memClose domain =>
      simp only [enter]
      split
      · exact clear_returned _
      · exact ⟨rfl, rfl⟩

/-- What one step does: a new call of a thread, or a piece of its call. -/
theorem step_cases (h : step s e = some t) :
    (∃ i c session, e = .call i c session ∧
      t = { s with pc := Function.update s.pc i (enter session c) }) ∨
    ∃ i a s' pc', e = .next i a ∧ advance s.store a (s.pc i) = some (s', pc') ∧
      t = ⟨s', Function.update s.pc i pc'⟩ := by
  cases e with
  | call i c session =>
      simp only [step] at h
      split at h
      · exact .inl ⟨i, c, session, rfl, (Option.some.inj h).symm⟩
      · cases h
  | next i a =>
      obtain ⟨⟨s', pc'⟩, hadv, rfl⟩ := Option.map_eq_some_iff.mp h
      exact .inr ⟨i, a, s', pc', rfl, hadv, rfl⟩

theorem Valid.call (hs : Valid s) (c : Call) (session : Session) :
    Valid { s with pc := Function.update s.pc i (enter session c) } where
  toSound := hs.next hs.store (fun j _ n hn => hs.own j n hn)
    (fun _ hn => absurd hn (enter_clear session c).own_ne)
    (fun _ hn => absurd hn (enter_clear session c).own_ne)
  uses := Threads.forall_update
    (P := fun _ (pc : Pc) => ∀ d n, pc.uses = some (d, n) → n ∈ s.store.smaplst d)
    (fun _ _ hn => absurd hn (enter_clear session c).uses_ne) (fun j _ => hs.uses j)

/-- No step from the invariant breaks a lifetime. -/
theorem Valid.lifetimesOk (hs : Valid s) (h : step s e = some t) : LifetimesOk t.store := by
  obtain ⟨i, c, session, rfl, rfl⟩ | ⟨i, a, s', pc', rfl, hadv, rfl⟩ := step_cases h
  · exact hs.store.lifetimesOk
  · exact (hs.sound_next (hs.piece hadv)).store.lifetimesOk

theorem Valid.safe (hs : Valid s) : Safe s :=
  ⟨hs.store.lifetimesOk, fun _ _ h => hs.lifetimesOk h⟩

/-- **A step that frees no node in use keeps the invariant.** -/
theorem Valid.next (hs : Valid s) (hf : FreesUnused s e) (h : step s e = some t) : Valid t := by
  obtain ⟨i, c, session, rfl, rfl⟩ | ⟨i, a, s', pc', rfl, hadv, rfl⟩ := step_cases h
  · exact hs.call c session
  · exact ⟨hs.sound_next (hs.piece hadv), hs.uses_next (hs.piece hadv) hf⟩

end Invariant

/-! ### Runs -/

section Runs

variable {s t : State ι} {e : Event ι}

/-- The nodes that a piece releases are freed after it. -/
theorem advance_freed {s s' : Store} {pc pc' : Pc} {a : Answer} (hs : s.Ok)
    (h : advance s a pc = some (s', pc')) : ∀ n ∈ releases s pc, n ∈ s'.heap.freed := by
  intro n hn
  cases pc with
  | munmapCalled d mNode ans =>
      simp only [releases] at hn
      split_ifs at hn with hioc
      · cases h
        rw [munmapFinish, if_pos hioc]
        exact List.mem_append_right _ hn
      · cases hn
  | closeEnter d =>
      cases h
      rw [fastrpcMemClose, closeLoop_release hs rfl]
      exact List.mem_append_right _ hn
  | _ => exact absurd hn List.not_mem_nil

/-- A call that uses a freed node accesses it with its next piece. -/
theorem advance_stale {s : Store} {pc : Pc} {d : Domain} {n : ℕ} (hu : pc.uses = some (d, n))
    (hf : n ∈ s.heap.freed) (a : Answer) :
    ∃ r, advance s a pc = some r ∧ r.1.heap.stale ≠ [] := by
  have htouch : (s.heap.touch n).stale ≠ [] := Heap.touch_stale hf
  cases pc with
  | mmapSearched d' map tNode =>
      obtain ⟨m, rfl, heq⟩ := Option.map_eq_some_iff.mp hu
      obtain ⟨rfl, rfl⟩ := Prod.mk.inj heq
      simp only [advance, mmapAllocate]
      split_ifs <;> exact ⟨_, rfl, htouch⟩
  | munmapFound d' mNode =>
      obtain ⟨rfl, rfl⟩ := Prod.mk.inj (Option.some.inj hu)
      exact ⟨_, rfl, htouch⟩
  | munmapCalled d' mNode ans =>
      simp only [Pc.uses] at hu
      split_ifs at hu with hans
      obtain ⟨rfl, rfl⟩ := Prod.mk.inj (Option.some.inj hu)
      refine ⟨_, rfl, ?_⟩
      unfold munmapFinish
      split_ifs with hioc hun
      · unfold Store.dequeueZ
        split_ifs
        · exact Heap.stale_touchAll _ htouch
        · exact htouch
      · exact absurd ⟨hioc, hun⟩ hans
      · exact htouch
  | _ => cases hu

variable [DecidableEq ι]

/-- After a step that frees a node in use, a thread is about to access a freed node. -/
theorem Valid.not_safe (hs : Valid s) (hf : ¬ FreesUnused s e) (h : step s e = some t) :
    ¬ Safe t := by
  obtain ⟨i, c, session, rfl, rfl⟩ | ⟨i, a, s', pc', rfl, hadv, rfl⟩ := step_cases h
  · exact absurd trivial hf
  · unfold FreesUnused at hf
    push Not at hf
    obtain ⟨n, hn, j, hji, d, hu⟩ := hf
    have hfreed : n ∈ s'.heap.freed := advance_freed hs.store hadv n hn
    have hpc : Function.update s.pc i pc' j = s.pc j := Function.update_of_ne hji _ _
    obtain ⟨r, hr, hstale⟩ := advance_stale hu hfreed a
    intro hsafe
    have hnext : step ⟨s', Function.update s.pc i pc'⟩ (.next j a) =
        some ⟨r.1, Function.update (Function.update s.pc i pc') j r.2⟩ := by
      simp only [step, hpc, hr, Option.map_some]
    exact hstale (hsafe.2 _ _ hnext).1.2

/-- **The lifetimes of the static mappings.** In a run of any number of threads, every state has
right lifetimes and is not about to break them exactly when no step frees a node that the call of
another thread still uses. -/
theorem mapping_lifetime {es : List (Event ι)} (h : run step init es = some t) :
    Along step Safe (init : State ι) es ↔ Guarded step FreesUnused init es :=
  along_iff_guarded (fun _ _ _ hs hf ht => Valid.next hs hf ht) (fun _ hs => hs.safe)
    (fun _ _ _ hs hf ht => hs.not_safe hf ht) valid_init h

end Runs

/-! ### Two calls that unmap one file descriptor -/

/-- The session is open. -/
def openedSession : Session := ⟨none, 3, true, true⟩

/-- `calloc` and the driver succeed. -/
def succeeds : Answer := ⟨true, 0, 0, 0x4000⟩

/-- A thread maps file descriptor `5` and unmaps it. -/
theorem mapping_lifetime_one_thread :
    Along step Safe (init : State (Fin 1))
      [.call 0 (.mmap 3 5 0x1000 0 4096 0) openedSession, .next 0 succeeds, .next 0 succeeds,
        .next 0 succeeds, .next 0 succeeds, .call 0 (.munmap 3 5 0x1000 4096) openedSession,
        .next 0 succeeds, .next 0 succeeds, .next 0 succeeds] := by
  refine (mapping_lifetime rfl).mpr (guarded_of_forall ?_ _ _)
  intro s e
  cases e with
  | call i c session => trivial
  | next i a => exact fun n _ j hji => absurd (Subsingleton.elim j i) hji

/-- Two threads unmap file descriptor `5`: the second finds the node with the reference count `0`,
and its last section accesses, dequeues and frees it again. -/
theorem node_freed_twice :
    (run step (init : State (Fin 2))
      [.call 0 (.mmap 3 5 0x1000 0 4096 0) openedSession, .next 0 succeeds, .next 0 succeeds,
        .next 0 succeeds, .next 0 succeeds, .call 0 (.munmap 3 5 0x1000 4096) openedSession,
        .call 1 (.munmap 3 5 0x1000 4096) openedSession, .next 0 succeeds, .next 1 succeeds,
        .next 0 succeeds, .next 1 succeeds, .next 0 succeeds, .next 1 succeeds]).map
      (fun t => (t.store.heap.freed, t.store.heap.stale)) = some ([0, 0], [0]) := by
  decide +kernel

end FastRpc.StaticMap
