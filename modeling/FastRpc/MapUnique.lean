import FastRpc.MapLifetime

/-! # One static mapping for each file descriptor

`fastrpc_mmap` raises `AEE_EALREADY` when its search finds a mapping of the file descriptor, and appends
its own node in another locked section, after the driver has mapped the buffer.  Two calls that search
before either appends both succeed, and the list then has two nodes with the same descriptor
(`mapped_twice`).

`Watched` keeps for each thread the nodes that were appended since its search.  The list of a domain has
one node for each descriptor in every state of a run exactly when no call appends its node while one of
these with the same descriptor is on the list (`one_mapping_per_fd`). -/

namespace FastRpc.StaticMap

open BlockHeap Transition

/-! ### The property and the condition -/

/-- `map.fd` of a node. -/
def Store.fd (s : Store) (n : ℕ) : ℤ := (s.heap.cell n).map.fd

/-- No two nodes of a list have the same file descriptor. -/
def UniqueFds (s : Store) : Prop := ∀ d, ((s.smaplst d).map s.fd).Nodup

variable {ι : Type}

/-- A state, and the nodes that were appended since the search of each thread. -/
structure Watched (ι : Type) where
  state : State ι
  since : ι → List ℕ

/-- The nodes that the next piece of a call appends. -/
def appends : Pc → List ℕ
  | .mmapMapped _ mNode _ => [mNode]
  | _ => []

/-- The call is before its search. -/
def Pc.searches : Pc → Bool
  | .mmapEnter _ _ => true
  | _ => false

/-- What a step does to the record. -/
def watch [DecidableEq ι] (w : Watched ι) : Event ι → ι → List ℕ
  | .call _ _ _ => w.since
  | .next i _ => fun j =>
      if j = i ∧ (w.state.pc i).searches then [] else w.since j ++ appends (w.state.pc i)

/-- One step with its record. -/
def watchedStep [DecidableEq ι] (w : Watched ι) (e : Event ι) : Option (Watched ι) :=
  (step w.state e).map (fun t => ⟨t, watch w e⟩)

/-- Nothing has been appended. -/
def watchedInit : Watched ι := ⟨init, fun _ => []⟩

/-- A call appends its node when none of the nodes appended since its search is still on the list with
the same file descriptor. -/
def AppendsAlone (w : Watched ι) : Event ι → Prop
  | .call _ _ _ => True
  | .next i _ =>
      match w.state.pc i with
      | .mmapMapped d mNode _ =>
          ∀ n ∈ w.since i, n ∈ w.state.store.smaplst d →
            w.state.store.fd n ≠ w.state.store.fd mNode
      | _ => True

instance (w : Watched ι) : (e : Event ι) → Decidable (AppendsAlone w e)
  | .call _ _ _ => isTrue trivial
  | .next i _ =>
      match h : w.state.pc i with
      | .mmapMapped d mNode _ => decidable_of_iff
          (∀ n ∈ w.since i, n ∈ w.state.store.smaplst d →
            w.state.store.fd n ≠ w.state.store.fd mNode)
          (by unfold AppendsAlone; simp only [h])
      | .returned _ | .mmapEnter _ _ | .mmapSearched _ _ _ | .mmapAllocated _ _ | .munmapEnter _ _
      | .munmapFound _ _ | .munmapCalled _ _ _ | .refEnter _ _ _ | .closeEnter _ =>
          isTrue (by unfold AppendsAlone; simp only [h])

/-! ### The pieces of the calls -/

/-- The piece only takes nodes off the lists. -/
structure Shrinks (s s' : Store) : Prop where
  fd : ∀ n, s'.fd n = s.fd n
  next : s'.heap.next = s.heap.next
  lists : ∀ d, (s'.smaplst d).Sublist (s.smaplst d)

section Pieces

variable {s s' : Store} {d : Domain} {n : ℕ} {ns : List ℕ} {found : MemMap → Bool}

theorem Shrinks.refl (s : Store) : Shrinks s s := ⟨fun _ => rfl, rfl, fun _ => List.Sublist.refl _⟩

theorem Shrinks.trans {s'' : Store} (h : Shrinks s s') (h' : Shrinks s' s'') : Shrinks s s'' :=
  ⟨fun n => (h'.fd n).trans (h.fd n), h'.next.trans h.next, fun d => (h'.lists d).trans (h.lists d)⟩

@[simp] theorem touch_cell (h : Heap Node) (n : ℕ) : (h.touch n).cell = h.cell := by
  unfold Heap.touch
  split_ifs <;> rfl

@[simp] theorem touch_next (h : Heap Node) (n : ℕ) : (h.touch n).next = h.next := by
  unfold Heap.touch
  split_ifs <;> rfl

theorem touchAll_same (h : Heap Node) (ns : List ℕ) :
    (h.touchAll ns).cell = h.cell ∧ (h.touchAll ns).next = h.next := by
  unfold Heap.touchAll
  induction ns generalizing h with
  | nil => exact ⟨rfl, rfl⟩
  | cons n ns ih =>
      rw [List.foldl_cons]
      exact ⟨(ih _).1.trans (touch_cell h n), (ih _).2.trans (touch_next h n)⟩

/-- A heap with the same nodes. -/
theorem shrinks_heap {h : Heap Node} (hcell : h.cell = s.heap.cell) (hnext : h.next = s.heap.next) :
    Shrinks s { s with heap := h } :=
  ⟨fun n => by simp only [Store.fd, hcell], hnext, fun _ => List.Sublist.refl _⟩

theorem shrinks_touch (s : Store) (n : ℕ) : Shrinks s (s.touch n) :=
  shrinks_heap (touch_cell _ n) (touch_next _ n)

/-- A write of a node that keeps its file descriptor. -/
theorem shrinks_write {h : Heap Node} (hcell : h.cell = s.heap.cell) (hnext : h.next = s.heap.next)
    {node : Node} (hfd : node.map.fd = s.fd n) : Shrinks s { s with heap := h.write n node } where
  fd := by
    intro m
    rcases eq_or_ne m n with rfl | hne
    · simp only [Store.fd, Heap.write, Function.update_self]
      exact hfd
    · simp only [Store.fd, Heap.write, Function.update_of_ne hne, hcell]
  next := (touch_next h n).trans hnext
  lists := fun _ => List.Sublist.refl _

theorem shrinks_free (s : Store) (n : ℕ) : Shrinks s (s.free n) := shrinks_heap rfl rfl

theorem shrinks_dequeueZ (s : Store) (domain : Domain) (n : ℕ) : Shrinks s (s.dequeueZ domain n) := by
  unfold Store.dequeueZ
  split_ifs with hn
  · have hsame := touchAll_same (s.heap.touch n) (neighbours n (s.smaplst domain))
    refine ⟨fun m => ?_, hsame.2.trans (touch_next _ n), fun d => ?_⟩
    · simp only [Store.fd, hsame.1, touch_cell]
    · rcases eq_or_ne d domain with rfl | hne
      · simp only [Function.update_self]
        exact List.erase_sublist
      · simp only [Function.update_of_ne hne]
        exact List.Sublist.refl _
  · exact shrinks_touch s n

theorem shrinks_closeLoop (s : Store) (domain : Domain) (ns : List ℕ) :
    Shrinks s (closeLoop domain s ns) := by
  induction ns generalizing s with
  | nil => exact .refl s
  | cons n ns ih =>
      exact ((shrinks_touch s n).trans ((shrinks_dequeueZ _ domain n).trans (shrinks_free _ n))).trans
        (ih _)

theorem searchMap_same (found : MemMap → Bool) (h : Heap Node) (node : Option ℕ) (ns : List ℕ) :
    (searchMap found h node ns).1.cell = h.cell ∧ (searchMap found h node ns).1.next = h.next := by
  induction ns generalizing h node with
  | nil => exact ⟨rfl, rfl⟩
  | cons n ns ih =>
      unfold searchMap
      dsimp only
      split_ifs
      · exact ⟨touch_cell h n, touch_next h n⟩
      · exact ⟨(ih _ _).1.trans (touch_cell h n), (ih _ _).2.trans (touch_next h n)⟩

/-- A search ends at a node that it looks for, or there is none. -/
theorem searchMap_found (found : MemMap → Bool) (h : Heap Node) (node : Option ℕ) (ns : List ℕ) :
    (∃ n ∈ ns, (searchMap found h node ns).2 = some n ∧ found (h.cell n).map = true) ∨
      ∀ n ∈ ns, found (h.cell n).map = false := by
  induction ns generalizing h node with
  | nil => exact .inr (fun _ hn => absurd hn List.not_mem_nil)
  | cons n ns ih =>
      unfold searchMap
      dsimp only
      rw [touch_cell]
      split_ifs with hf
      · exact .inl ⟨n, List.mem_cons_self, rfl, hf⟩
      · have hrest := ih (h.touch n) (some n)
        rw [touch_cell] at hrest
        obtain ⟨m, hm, hfound⟩ | hnone := hrest
        · exact .inl ⟨m, List.mem_cons_of_mem n hm, hfound⟩
        · refine .inr ?_
          rw [List.forall_mem_cons]
          exact ⟨by simpa using hf, hnone⟩

end Pieces

/-- The old nodes keep their file descriptors, and the lists grow by the nodes `ns` at most. -/
structure Grows (s s' : Store) (ns : List ℕ) : Prop where
  fd : ∀ n, n < s.heap.next → s'.fd n = s.fd n
  next : s.heap.next ≤ s'.heap.next
  lists : ∀ d, ∀ n ∈ s'.smaplst d, n ∈ s.smaplst d ∨ n ∈ ns

/-- Where the next piece of a call of `fastrpc_mmap` has a node of its descriptor on the list, the node
was appended since the search. -/
def Window (s : Store) (since : List ℕ) : Pc → Prop
  | .mmapSearched d map tNode =>
      (∃ n, tNode = some n ∧ n < s.heap.next ∧ s.fd n = map.fd) ∨
        ∀ n ∈ s.smaplst d, s.fd n = map.fd → n ∈ since
  | .mmapAllocated d mNode | .mmapMapped d mNode _ =>
      mNode < s.heap.next ∧ ∀ n ∈ s.smaplst d, s.fd n = s.fd mNode → n ∈ since
  | _ => True

section Pieces

variable {s s' : Store} {pc pc' : Pc} {a : Answer}

theorem Shrinks.grows (h : Shrinks s s') (ns : List ℕ) : Grows s s' ns :=
  ⟨fun n _ => h.fd n, h.next.ge, fun d _ hn => .inl ((h.lists d).subset hn)⟩

theorem Shrinks.uniqueFds (h : Shrinks s s') (hs : UniqueFds s) : UniqueFds s' := by
  intro d
  have hfd : s'.fd = s.fd := funext h.fd
  rw [hfd]
  exact (hs d).sublist ((h.lists d).map _)

/-- The pieces that put no node on a list and allocate none. -/
def Pc.passive : Pc → Bool
  | .mmapSearched _ _ _ | .mmapMapped _ _ _ => false
  | _ => true

theorem munmapFind_shrinks (s : Store) (domain : Domain) (key : Key) :
    Shrinks s (munmapFind s domain key).1 := by
  obtain ⟨hcell, hnext⟩ := searchMap_same key.found s.heap none (s.smaplst domain)
  unfold munmapFind
  dsimp only
  split
  · exact shrinks_heap hcell hnext
  · split_ifs
    · exact shrinks_heap hcell hnext
    · exact shrinks_write hcell hnext (by simp only [Store.fd, hcell])
    · exact shrinks_heap hcell hnext

theorem munmapFinish_shrinks (s : Store) (domain : Domain) (mNode : ℕ) (a : DriverAnswer) :
    Shrinks s (munmapFinish s domain mNode a).1 := by
  unfold munmapFinish
  split_ifs
  · exact (shrinks_dequeueZ s domain mNode).trans (shrinks_free _ mNode)
  · exact .refl s
  · exact shrinks_write rfl rfl rfl

theorem fastrpcBufferRef_shrinks (s : Store) (domain : Domain) (fd ref : ℤ) :
    Shrinks s (fastrpcBufferRef s domain fd ref).1 := by
  obtain ⟨hcell, hnext⟩ :=
    searchMap_same (fun map => map.fd == fd) s.heap none (s.smaplst domain)
  unfold fastrpcBufferRef
  dsimp only
  split
  · exact shrinks_heap hcell hnext
  · split_ifs
    · exact shrinks_heap hcell hnext
    · exact shrinks_write hcell hnext (by simp only [Store.fd, hcell])
    · exact shrinks_heap hcell hnext
    · exact shrinks_write hcell hnext (by simp only [Store.fd, hcell])
    · exact shrinks_heap hcell hnext
    · exact shrinks_heap hcell hnext

theorem mmapDriver_shrinks (s : Store) (mNode : ℕ) (a : DriverAnswer) :
    Shrinks s (mmapDriver s mNode a).1 := by
  unfold mmapDriver
  split_ifs
  · exact shrinks_write rfl rfl rfl
  · exact shrinks_free s mNode
  · exact shrinks_free s mNode

theorem advance_passive (hp : pc.passive = true) (h : advance s a pc = some (s', pc')) :
    Shrinks s s' := by
  cases pc with
  | returned r => cases h
  | mmapEnter d map =>
      obtain ⟨rfl, rfl⟩ := Prod.mk.inj (Option.some.inj h)
      obtain ⟨hcell, hnext⟩ :=
        searchMap_same (fun m => m.fd == map.fd) s.heap none (s.smaplst d)
      exact shrinks_heap hcell hnext
  | mmapSearched d map tNode => cases hp
  | mmapAllocated d mNode =>
      have hdriver := mmapDriver_shrinks s mNode a.driver
      simp only [advance] at h
      split at h
      · next heq =>
          rw [heq] at hdriver
          cases h
          exact hdriver
      · next heq =>
          rw [heq] at hdriver
          cases h
          exact hdriver
  | mmapMapped d mNode vaddrout => cases hp
  | munmapEnter d key =>
      have hfind := munmapFind_shrinks s d key
      simp only [advance] at h
      split at h
      · next heq =>
          rw [heq] at hfind
          cases h
          exact hfind
      · next heq =>
          rw [heq] at hfind
          cases h
          exact hfind
  | munmapFound d mNode =>
      cases h
      exact shrinks_touch s mNode
  | munmapCalled d mNode a' =>
      cases h
      exact munmapFinish_shrinks s d mNode a'
  | refEnter d fd ref =>
      cases h
      exact fastrpcBufferRef_shrinks s d fd ref
  | closeEnter d =>
      cases h
      exact shrinks_closeLoop s d _

/-- The node that a call of `fastrpc_mmap` appends goes to the end of the list. -/
theorem append_same (s : Store) (d : Domain) (n : ℕ) :
    (s.append d n).fd = s.fd ∧ (s.append d n).heap.next = s.heap.next := by
  obtain ⟨hcell, hnext⟩ := touchAll_same (s.heap.touch n) (s.smaplst d).getLast?.toList
  refine ⟨funext fun m => ?_, hnext.trans (touch_next _ n)⟩
  simp only [Store.append, Store.fd, hcell, touch_cell]

theorem mem_append {d d' : Domain} {n m : ℕ} (h : m ∈ (s.append d n).smaplst d') :
    m ∈ s.smaplst d' ∨ m = n := by
  rcases eq_or_ne d' d with rfl | hne
  · simp only [Store.append, Function.update_self, List.mem_append, List.mem_singleton] at h
    exact h
  · simp only [Store.append, Function.update_of_ne hne] at h
    exact .inl h

theorem append_uniqueFds {d : Domain} {n : ℕ} (hs : UniqueFds s) :
    UniqueFds (s.append d n) ↔ ∀ m ∈ s.smaplst d, s.fd m ≠ s.fd n := by
  unfold UniqueFds
  rw [(append_same s d n).1]
  constructor
  · intro h m hm heq
    have hd := h d
    simp only [Store.append, Function.update_self, List.map_append, List.map_singleton] at hd
    exact (List.nodup_append.mp hd).2.2 _ (List.mem_map_of_mem hm) _ (List.mem_singleton_self _) heq
  · intro h d'
    rcases eq_or_ne d' d with rfl | hne
    · simp only [Store.append, Function.update_self, List.map_append, List.map_singleton]
      refine List.nodup_append.mpr ⟨hs d', List.nodup_singleton _, ?_⟩
      intro f hf f' hf' heq
      obtain ⟨m, hm, rfl⟩ := List.mem_map.mp hf
      exact h m hm (heq.trans (List.mem_singleton.mp hf'))
    · simp only [Store.append, Function.update_of_ne hne]
      exact hs d'

/-- The allocation of a node: an error, or a new node with the descriptor of the call. -/
theorem mmapAllocate_cases {d : Domain} {map : MemMap} {tNode : Option ℕ}
    (h : advance s a (.mmapSearched d map tNode) = some (s', pc')) :
    (Shrinks s s' ∧ ∃ r, pc' = .returned r) ∨
      pc' = .mmapAllocated d s.heap.next ∧ (∀ n, tNode = some n → s.fd n ≠ map.fd) ∧
        s'.smaplst = s.smaplst ∧ s'.heap.next = s.heap.next + 1 ∧
          s'.fd = Function.update s.fd s.heap.next map.fd := by
  obtain ⟨hcell, hnext⟩ := touchAll_same s.heap tNode.toList
  simp only [advance, mmapAllocate, hcell] at h
  split_ifs at h with hfound
  · cases h
    exact .inl ⟨shrinks_heap hcell hnext, _, rfl⟩
  · obtain ⟨rfl, rfl⟩ := Prod.mk.inj (Option.some.inj h)
    refine .inr ⟨by rw [hnext], ?_, rfl, congrArg (· + 1) hnext, ?_⟩
    · rintro n rfl heq
      exact hfound (by simpa [Store.fd] using heq)
    · funext n
      simp only [Store.fd, Heap.alloc, hcell, hnext]
      rcases eq_or_ne n s.heap.next with rfl | hne
      · simp only [Function.update_self]
      · simp only [Function.update_of_ne hne, Store.fd]
  · cases h
    exact .inl ⟨shrinks_heap hcell hnext, _, rfl⟩

theorem advance_grows (h : advance s a pc = some (s', pc')) : Grows s s' (appends pc) := by
  by_cases hp : pc.passive = true
  · exact (advance_passive hp h).grows _
  · cases pc with
    | mmapSearched d map tNode =>
        obtain ⟨hs, _⟩ | ⟨_, _, hl, hnext, hfd⟩ := mmapAllocate_cases h
        · exact hs.grows _
        · refine ⟨fun n hn => ?_, by omega, fun d' n hn => .inl (by rwa [hl] at hn)⟩
          rw [hfd, Function.update_of_ne hn.ne]
    | mmapMapped d n vaddrout =>
        cases h
        obtain ⟨hfd, hnext⟩ := append_same s d n
        exact ⟨fun m _ => by rw [hfd], hnext.ge,
          fun d' m hm => (mem_append hm).imp_right List.mem_singleton.mpr⟩
    | _ => exact absurd rfl hp

/-- The windows of the other calls stay when the appended nodes are recorded. -/
theorem Window.mono {since since' ns : List ℕ} (h : Window s since pc) (hg : Grows s s' ns)
    (hold : ∀ d, ∀ n ∈ s.smaplst d, n < s.heap.next) (hsince : ∀ n, n ∈ since ∨ n ∈ ns → n ∈ since') :
    Window s' since' pc := by
  have hlist : ∀ {fd : ℤ} {d : Domain}, (∀ n ∈ s.smaplst d, s.fd n = fd → n ∈ since) →
      ∀ n ∈ s'.smaplst d, s'.fd n = fd → n ∈ since' := by
    intro fd d hn n hmem heq
    apply hsince
    refine (hg.lists d n hmem).imp (fun hmem => hn n hmem ?_) id
    rw [← heq, hg.fd n (hold d n hmem)]
  cases pc with
  | mmapSearched d map tNode =>
      refine Or.imp ?_ hlist h
      rintro ⟨n, hn, hlt, heq⟩
      exact ⟨n, hn, hlt.trans_le hg.next, by rw [hg.fd n hlt]; exact heq⟩
  | mmapAllocated d mNode =>
      refine ⟨h.1.trans_le hg.next, ?_⟩
      rw [hg.fd mNode h.1]
      exact hlist h.2
  | mmapMapped d mNode vaddrout =>
      refine ⟨h.1.trans_le hg.next, ?_⟩
      rw [hg.fd mNode h.1]
      exact hlist h.2
  | _ => trivial

/-- The window of the call itself. -/
theorem Window.next {since : List ℕ} (h : Window s since pc)
    (hold : ∀ d, ∀ n ∈ s.smaplst d, n < s.heap.next) (ha : advance s a pc = some (s', pc')) :
    Window s' (if pc.searches then [] else since ++ appends pc) pc' := by
  cases pc with
  | mmapEnter d map =>
      obtain ⟨rfl, rfl⟩ := Prod.mk.inj (Option.some.inj ha)
      obtain ⟨hcell, hnext⟩ :=
        searchMap_same (fun m => m.fd == map.fd) s.heap none (s.smaplst d)
      obtain ⟨n, hmem, hn, hfound⟩ | hnone :=
        searchMap_found (fun m => m.fd == map.fd) s.heap none (s.smaplst d)
      · refine .inl ⟨n, hn, (hold d n hmem).trans_le hnext.ge, ?_⟩
        simp only [Store.fd, mmapSearch, hcell]
        exact beq_iff_eq.mp hfound
      · refine .inr fun n hn heq => ?_
        simp only [Store.fd, mmapSearch, hcell] at heq
        exact absurd (beq_iff_eq.mpr heq) (by rw [hnone n hn]; decide)
  | mmapSearched d map tNode =>
      obtain ⟨_, r, rfl⟩ | ⟨rfl, hnot, hl, hnext, hfd⟩ := mmapAllocate_cases ha
      · trivial
      · have hwindow := h.resolve_left (by rintro ⟨n, hn, -, heq⟩; exact hnot n hn heq)
        refine ⟨by omega, ?_⟩
        rw [hl, hfd, Function.update_self]
        intro n hn heq
        rw [Function.update_of_ne (hold d n hn).ne] at heq
        exact List.mem_append_left _ (hwindow n hn heq)
  | mmapAllocated d mNode =>
      have hs := mmapDriver_shrinks s mNode a.driver
      simp only [advance] at ha
      split at ha
      · cases ha
        trivial
      · next heq =>
          rw [heq] at hs
          cases ha
          refine Window.mono (show Window s _ (.mmapMapped d mNode a.driver.vaddrout) from h)
            (hs.grows []) hold ?_
          simp [Pc.searches, appends]
  | mmapMapped d mNode vaddrout =>
      cases ha
      trivial
  | munmapEnter d key =>
      simp only [advance] at ha
      split at ha <;> cases ha <;> trivial
  | _ => cases ha <;> trivial

end Pieces

/-! ### Runs -/

/-- **The invariant.** -/
structure FdInv (w : Watched ι) : Prop where
  unique : UniqueFds w.state.store
  old : ∀ d, ∀ n ∈ w.state.store.smaplst d, n < w.state.store.heap.next
  window : ∀ i, Window w.state.store (w.since i) (w.state.pc i)

section Runs

variable {w w' : Watched ι} {e : Event ι}

theorem fdInv_init : FdInv (watchedInit : Watched ι) where
  unique := fun _ => List.nodup_nil
  old := fun _ _ hn => absurd hn List.not_mem_nil
  window := fun _ => trivial

theorem window_enter (session : Session) (c : Call) (s : Store) (since : List ℕ) :
    Window s since (enter session c) := by
  have hopen : ∀ domain, ∀ next : Domain → Pc, (∀ d, Window s since (next d)) →
      Window s since (openSession session domain next) := by
    intro domain next hnext
    unfold openSession
    split
    · trivial
    · split_ifs
      · exact hnext _
      · trivial
  cases c with
  | bufferRef domain fd ref => simp only [enter]; split <;> trivial
  | memClose domain => simp only [enter]; split <;> trivial
  | munmapInternal domain raddr length =>
      simp only [enter]
      split
      · trivial
      · exact hopen _ _ (fun _ => trivial)
  | _ =>
      simp only [enter]
      split
      · trivial
      · split_ifs <;> first | trivial | exact hopen _ _ (fun _ => trivial)

/-- The appended nodes are older than the next one. -/
theorem FdInv.old_next (h : FdInv w) {i : ι} {a : Answer} {s' : Store} {pc' : Pc}
    (hadv : advance w.state.store a (w.state.pc i) = some (s', pc')) :
    ∀ d, ∀ n ∈ s'.smaplst d, n < s'.heap.next := by
  intro d n hn
  have hgrows := advance_grows hadv
  apply Nat.lt_of_lt_of_le _ hgrows.next
  obtain hn | hn := hgrows.lists d n hn
  · exact h.old d n hn
  · have hwindow := h.window i
    cases hpc : w.state.pc i with
    | mmapMapped d' m vaddrout =>
        rw [hpc] at hn hwindow
        rw [List.mem_singleton.mp hn]
        exact hwindow.1
    | _ =>
        rw [hpc] at hn
        exact absurd hn List.not_mem_nil

/-- The piece keeps the descriptors apart exactly when it meets the condition. -/
theorem FdInv.unique_next (h : FdInv w) {i : ι} {a : Answer} {s' : Store} {pc' : Pc}
    (hadv : advance w.state.store a (w.state.pc i) = some (s', pc')) :
    UniqueFds s' ↔ AppendsAlone w (.next i a) := by
  have hwindow := h.window i
  simp only [AppendsAlone]
  cases hpc : w.state.pc i with
  | mmapMapped d mNode vaddrout =>
      rw [hpc] at hadv hwindow
      obtain ⟨rfl, rfl⟩ := Prod.mk.inj (Option.some.inj hadv)
      rw [append_uniqueFds h.unique]
      constructor
      · exact fun hne n _ hmem => hne n hmem
      · exact fun hne n hmem heq => hne n (hwindow.2 n hmem heq) hmem heq
  | mmapSearched d map tNode =>
      rw [hpc] at hadv
      refine iff_of_true ?_ trivial
      obtain ⟨hs, _⟩ | ⟨_, _, hl, _, hfd⟩ := mmapAllocate_cases hadv
      · exact hs.uniqueFds h.unique
      · intro d'
        rw [hl, List.map_congr_left (g := w.state.store.fd)]
        · exact h.unique d'
        · intro n hn
          rw [hfd, Function.update_of_ne (h.old d' n hn).ne]
  | _ =>
      rw [hpc] at hadv
      exact iff_of_true ((advance_passive rfl hadv).uniqueFds h.unique) trivial

variable [DecidableEq ι]

/-- What a step with its record does. -/
theorem watchedStep_cases (h : watchedStep w e = some w') :
    (∃ i c session, e = .call i c session ∧ w'.state.store = w.state.store ∧ w'.since = w.since ∧
      w'.state.pc = Function.update w.state.pc i (enter session c)) ∨
    ∃ i a s' pc', e = .next i a ∧ advance w.state.store a (w.state.pc i) = some (s', pc') ∧
      w' = ⟨⟨s', Function.update w.state.pc i pc'⟩, watch w (.next i a)⟩ := by
  obtain ⟨t, ht, rfl⟩ := Option.map_eq_some_iff.mp h
  obtain ⟨i, c, session, rfl, rfl⟩ | ⟨i, a, s', pc', rfl, hadv, rfl⟩ := step_cases ht
  · exact .inl ⟨i, c, session, rfl, rfl, rfl, rfl⟩
  · exact .inr ⟨i, a, s', pc', rfl, hadv, rfl⟩

theorem FdInv.windows (h : FdInv w) {i : ι} {a : Answer} {s' : Store} {pc' : Pc}
    (hadv : advance w.state.store a (w.state.pc i) = some (s', pc')) (j : ι) :
    Window s' (watch w (.next i a) j) (Function.update w.state.pc i pc' j) := by
  rcases eq_or_ne j i with rfl | hne
  · rw [Function.update_self]
    have hnext := (h.window j).next h.old hadv
    simp only [watch, true_and]
    exact hnext
  · rw [Function.update_of_ne hne]
    refine (h.window j).mono (advance_grows hadv) h.old ?_
    simp [watch, hne]

theorem FdInv.step (h : FdInv w) (hC : AppendsAlone w e) (ht : watchedStep w e = some w') :
    FdInv w' := by
  obtain ⟨i, c, session, rfl, hstore, hsince, hpc⟩ | ⟨i, a, s', pc', rfl, hadv, rfl⟩ :=
    watchedStep_cases ht
  · refine ⟨hstore ▸ h.unique, hstore ▸ h.old, ?_⟩
    rw [hstore, hsince, hpc]
    intro j
    rcases eq_or_ne j i with rfl | hne
    · rw [Function.update_self]
      exact window_enter session c _ _
    · rw [Function.update_of_ne hne]
      exact h.window j
  · exact ⟨(h.unique_next hadv).mpr hC, h.old_next hadv, h.windows hadv⟩

theorem FdInv.not_unique (h : FdInv w) (hC : ¬ AppendsAlone w e) (ht : watchedStep w e = some w') :
    ¬ UniqueFds w'.state.store := by
  obtain ⟨i, c, session, rfl, _⟩ | ⟨i, a, s', pc', rfl, hadv, rfl⟩ := watchedStep_cases ht
  · exact absurd trivial hC
  · exact fun hunique => hC ((h.unique_next hadv).mp hunique)

/-- **One mapping for each file descriptor.** In every run of any number of threads, no two nodes of a
list ever have the same descriptor exactly when every call that appends its node finds none of this
descriptor on the list that was appended since its search. -/
theorem one_mapping_per_fd {es : List (Event ι)} {t : State ι} (h : run step init es = some t) :
    Along step (fun s => UniqueFds s.store) (init : State ι) es ↔
      Guarded watchedStep AppendsAlone (watchedInit : Watched ι) es := by
  have hforget : ∀ (w : Watched ι) e, (watchedStep w e).map Watched.state = step w.state e := by
    intro w e
    simp [watchedStep, Function.comp_def]
  have hrun := run_forget hforget (watchedInit : Watched ι) es
  obtain ⟨w, hw, _⟩ := Option.map_eq_some_iff.mp (hrun.trans h)
  exact (along_forget hforget).symm.trans
    (along_iff_guarded (fun _ _ _ h hC ht => h.step hC ht) (fun _ h => h.unique)
      (fun _ _ _ h hC ht => h.not_unique hC ht) fdInv_init hw)

/-- A thread maps file descriptor `5`, unmaps it and maps it again. -/
theorem one_mapping_per_fd_again :
    Along step (fun s => UniqueFds s.store) (init : State (Fin 1))
      [.call 0 (.mmap 3 5 0x1000 0 4096 0) openedSession, .next 0 succeeds, .next 0 succeeds,
        .next 0 succeeds, .next 0 succeeds, .call 0 (.munmap 3 5 0x1000 4096) openedSession,
        .next 0 succeeds, .next 0 succeeds, .next 0 succeeds,
        .call 0 (.mmap 3 5 0x1000 0 4096 0) openedSession, .next 0 succeeds, .next 0 succeeds,
        .next 0 succeeds, .next 0 succeeds] :=
  (one_mapping_per_fd rfl).mpr (by decide +kernel)

/-- Two threads map file descriptor `5`, and both search before either appends. -/
theorem mapped_twice :
    ∃ t, run step (init : State (Fin 2))
      [.call 0 (.mmap 3 5 0x1000 0 4096 0) openedSession,
        .call 1 (.mmap 3 5 0x1000 0 4096 0) openedSession, .next 0 succeeds, .next 1 succeeds,
        .next 0 succeeds, .next 1 succeeds, .next 0 succeeds, .next 1 succeeds, .next 0 succeeds,
        .next 1 succeeds] = some t ∧ ¬ UniqueFds t.store := by
  obtain ⟨t, ht, hfds⟩ := Option.map_eq_some_iff.mp (show
    (run step (init : State (Fin 2))
      [.call 0 (.mmap 3 5 0x1000 0 4096 0) openedSession,
        .call 1 (.mmap 3 5 0x1000 0 4096 0) openedSession, .next 0 succeeds, .next 1 succeeds,
        .next 0 succeeds, .next 1 succeeds, .next 0 succeeds, .next 1 succeeds, .next 0 succeeds,
        .next 1 succeeds]).map (fun t => (t.store.smaplst 3).map t.store.fd) = some [5, 5]
      by decide +kernel)
  refine ⟨t, ht, fun hunique => ?_⟩
  have hnodup := hunique 3
  rw [hfds] at hnodup
  exact absurd hnodup (by decide)

end Runs

end FastRpc.StaticMap
