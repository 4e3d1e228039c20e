import FastRpc.AppsMem
import FastRpc.CInt

/-! # How the blocks of the reverse heap are released

The blocks that `apps_mem_request_map64` and `apps_mem_share_map` make are kept in one list, under one key:
the address on the DSP, or the descriptor of a block that is mapped on the process only.
`apps_mem_request_unmap64` finds a block by its key and tells from the fields of its node how it is
unmapped and released.  `apps_mem_share_map` leaves the field `rflags` as `malloc` gave it.

Here the calls run one after the other, put together from the pieces of `AppsMem.lean`, and each of them
records its calls to the driver and the allocators (`Action`).  The ledger keeps, for every key that was
returned and not yet unmapped, the actions by which its block was made; the block is released the way it
was made when the actions of the unmap undo them in the opposite order.  `blocks_released_as_made` says
that this is so in every run in which no key is returned while another block is listed under it, and no
shared block starts with the flags of another kind. -/

namespace FastRpc.ReverseHeap

open CInt BlockHeap AppsMem Transition

/-! ### Calls to the driver and the allocators -/

/-- A call that makes or releases a part of a block; buffers are named by their allocation. -/
inductive Action
  | rpcmemAlloc (vapps : Option ℕ)
  | rpcmemFree (vapps : Option ℕ)
  | mmap (vapps : Option ℕ) (size : ℤ)
  | munmap (vapps : Option ℕ) (size : ℤ)
  | fastrpcMmap (fd : ℤ)
  | fastrpcMunmap (fd : ℤ)
  | remoteMmap64 (vadsp : ℕ)
  | remoteMunmap64 (vadsp : ℕ)
  deriving DecidableEq, Repr

/-- The call that releases what a call has made. -/
def Action.undo : Action → Action
  | .rpcmemAlloc vapps => .rpcmemFree vapps
  | .mmap vapps size => .munmap vapps size
  | .fastrpcMmap fd => .fastrpcMunmap fd
  | .remoteMmap64 vadsp => .remoteMunmap64 vadsp
  | a => a

/-- The release of a block: its parts in the opposite order. -/
def release (made : List Action) : List Action := (made.map Action.undo).reverse

/-! ### The functions -/

/-- What a call returns, with the actions of a call that got through, and those of one that failed. -/
inductive Result
  | mapped (vadsp : ℕ) (made : List Action)
  | unmapped (done : List Action)
  | failed (nErr : NErr) (done : List Action)
  deriving DecidableEq, Repr

/-- The actions of a call that maps, when it succeeds. -/
def mapActions (s : Store) (a : AppsMem.Answer) : MapRequest → List Action
  | .requestMap64 rflags _ =>
      if rflags = mmapHeapAddr ∨ rflags = mmapRemoteHeapAddr then [.remoteMmap64 a.vadsp]
      else if rflags = allocHlosFd then [.rpcmemAlloc (some s.bufs.next), .fastrpcMmap a.fd]
      else if (rflags ≠ mmapAddPages ∧ rflags ≠ mmapAddPagesLlc) ∨ (a.unsignedModule ∧ a.ualloc)
      then [.rpcmemAlloc (some s.bufs.next), .remoteMmap64 a.vadsp]
      else [.remoteMmap64 a.vadsp]
  | .shareMap _ size => [.mmap (some s.bufs.next) size, .remoteMmap64 a.vadsp]

/-- `apps_mem_request_map64` and `apps_mem_share_map`. -/
def mapBlock (s : Store) (a : AppsMem.Answer) (req : MapRequest) : Store × Result :=
  match mapCall s a req with
  | (t, .error nErr) => (t, .failed nErr [])
  | (t, .ok n) => (t.append n, .mapped (t.heap.cell n).vadsp (mapActions s a req))

/-- The call that unmaps a block on the DSP. -/
def dspUnmap (info : MemInfo) (vadsp : ℕ) : Action :=
  if info.rflags = allocHlosFd then .fastrpcMunmap (wrap vadsp) else .remoteMunmap64 vadsp

/-- The release of the local memory of a block. -/
def localRelease (info : MemInfo) : List Action :=
  if info.mapped then [.munmap info.vapps info.size]
  else if info.vapps.isSome then [.rpcmemFree info.vapps]
  else []

/-- `apps_mem_request_unmap64`. -/
def requestUnmap64 (s : Store) (a : AppsMem.Answer) (vadsp : ℕ) : Store × Result :=
  match unmapFind s vadsp with
  | (s, none) =>
      match unmapRemote s a none with
      | (s, .error nErr) => (s, .failed nErr (if a.audioStaticPd then [.remoteMunmap64 vadsp] else []))
      | (s, .ok _) => (s, .unmapped [.remoteMunmap64 vadsp])
  | (s, some n) =>
      let unmap := dspUnmap (s.heap.cell n) vadsp
      match unmapRemote s a (some n) with
      | (s, .error nErr) => (s, .failed nErr [unmap])
      | (s, .ok _) =>
          let s := unmapDequeue s n
          (freeNode (releaseBuffer s n) n, .unmapped (unmap :: localRelease (s.heap.cell n)))

/-! ### Runs -/

/-- A call with the answers that it gets. -/
inductive Event
  | map (req : MapRequest) (a : AppsMem.Answer)
  | unmap (vadsp : ℕ) (a : AppsMem.Answer)

/-- One call. -/
def Event.exec (s : Store) : Event → Store × Result
  | .map req a => mapBlock s a req
  | .unmap vadsp a => requestUnmap64 s a vadsp

/-- For every key that was returned and not yet unmapped, how its block was made. -/
abbrev Ledger := ℕ → Option (List Action)

/-- The ledger after a call. -/
def Ledger.after (l : Ledger) : Event → Result → Ledger
  | .map _ _, .mapped vadsp made => Function.update l vadsp (some made)
  | .unmap vadsp _, .unmapped _ => Function.update l vadsp none
  | _, _ => l

/-- The store, and the ledger beside it. -/
structure State where
  store : Store
  ledger : Ledger

/-- An open session without blocks. -/
def State.init : State := ⟨Store.init', fun _ => none⟩

/-- The type of a descriptor is `int`. -/
def Event.TypeOk : Event → Prop
  | .map _ a => InRange a.fd
  | .unmap _ _ => True

instance : DecidablePred Event.TypeOk
  | .map _ a => inferInstanceAs (Decidable (InRange a.fd))
  | .unmap _ _ => inferInstanceAs (Decidable True)

/-- One call, with answers of the right types. -/
def step (s : State) (e : Event) : Option State :=
  if e.TypeOk then
    let r := e.exec s.store
    some ⟨r.1, s.ledger.after e r.2⟩
  else none

/-- The actions of an unmap undo how a block was made; where the driver refuses, only the first of them
was tried. -/
def Undoes (made : List Action) : Result → Prop
  | .unmapped done => done = release made
  | .failed _ done => done = (release made).take 1
  | .mapped _ _ => False

/-- An unmap of a key in the ledger undoes how its block was made. -/
def ReleasedAsMade (s : State) : Event → Prop
  | .map _ _ => True
  | .unmap vadsp a =>
      ∀ made, s.ledger vadsp = some made → Undoes made (requestUnmap64 s.store a vadsp).2

/-- `malloc` does not leave the flags of a block that is mapped on the process only in the node of a
shared block. -/
def FlagsOk (a : AppsMem.Answer) : MapRequest → Prop
  | .requestMap64 _ _ => True
  | .shareMap _ _ => a.rflags ≠ allocHlosFd

/-- A map that succeeds returns no key under which another block is listed, and starts with no flags of
another kind. -/
def NewKey (s : Store) (a : AppsMem.Answer) (req : MapRequest) : Result → Prop
  | .mapped vadsp _ => (∀ n ∈ s.memList, (s.heap.cell n).vadsp ≠ vadsp) ∧ FlagsOk a req
  | .unmapped _ => True
  | .failed _ _ => True

/-- The keys of a step tell the blocks apart, and so do the flags. -/
def TellsApart (s : State) : Event → Prop
  | .map req a => NewKey s.store a req (mapBlock s.store a req).2
  | .unmap _ _ => True

instance (made : List Action) : DecidablePred (Undoes made)
  | .unmapped _ => inferInstanceAs (Decidable (_ = _))
  | .failed _ _ => inferInstanceAs (Decidable (_ = _))
  | .mapped _ _ => inferInstanceAs (Decidable False)

instance (a : AppsMem.Answer) : DecidablePred (FlagsOk a)
  | .requestMap64 _ _ => inferInstanceAs (Decidable True)
  | .shareMap _ _ => inferInstanceAs (Decidable (_ ≠ _))

instance (s : Store) (a : AppsMem.Answer) (req : MapRequest) : DecidablePred (NewKey s a req)
  | .mapped _ _ => inferInstanceAs (Decidable (_ ∧ _))
  | .unmapped _ => inferInstanceAs (Decidable True)
  | .failed _ _ => inferInstanceAs (Decidable True)

instance (s : State) : DecidablePred (TellsApart s)
  | .map req a => inferInstanceAs (Decidable (NewKey s.store a req (mapBlock s.store a req).2))
  | .unmap _ _ => inferInstanceAs (Decidable True)

/-! ### What the functions do to the list -/

section Heap

variable {h : Heap MemInfo} {n m : ℕ}

@[simp] theorem cell_touch (h : Heap MemInfo) (n : ℕ) : (h.touch n).cell = h.cell := by
  unfold Heap.touch
  split_ifs <;> rfl

@[simp] theorem next_touch (h : Heap MemInfo) (n : ℕ) : (h.touch n).next = h.next := by
  unfold Heap.touch
  split_ifs <;> rfl

@[simp] theorem cell_touchAll (h : Heap MemInfo) (ns : List ℕ) : (h.touchAll ns).cell = h.cell := by
  unfold Heap.touchAll
  induction ns generalizing h with
  | nil => rfl
  | cons n ns ih => rw [List.foldl_cons, ih, cell_touch]

@[simp] theorem next_touchAll (h : Heap MemInfo) (ns : List ℕ) : (h.touchAll ns).next = h.next := by
  unfold Heap.touchAll
  induction ns generalizing h with
  | nil => rfl
  | cons n ns ih => rw [List.foldl_cons, ih, next_touch]

end Heap

/-- The list is the same, and so are the nodes that were there. -/
structure Kept (s t : Store) : Prop where
  memList : t.memList = s.memList
  next : s.heap.next ≤ t.heap.next
  cell : ∀ n < s.heap.next, t.heap.cell n = s.heap.cell n

theorem Kept.refl (s : Store) : Kept s s := ⟨rfl, le_rfl, fun _ _ => rfl⟩

theorem kept_alloc {s t : Store} {info : MemInfo} (hlist : t.memList = s.memList)
    (hnext : t.heap.next = s.heap.next + 1)
    (hcell : t.heap.cell = Function.update s.heap.cell s.heap.next info) : Kept s t := by
  refine ⟨hlist, by omega, fun n hn => ?_⟩
  rw [hcell, Function.update_of_ne (by omega)]

/-- A node is new, with these contents. -/
structure Added (s t : Store) (n : ℕ) (info : MemInfo) : Prop where
  new : n = s.heap.next
  memList : t.memList = s.memList
  next : t.heap.next = s.heap.next + 1
  cell : t.heap.cell = Function.update s.heap.cell s.heap.next info

/-- The fields of a node tell how its block was made. -/
def MadeBy (info : MemInfo) (made : List Action) : Prop :=
  release made = dspUnmap info info.vadsp :: localRelease info

section Map

variable {s t : Store} {a : AppsMem.Answer} {n : ℕ}

theorem error_ne_ok {nErr : NErr} : (s, (.error nErr : Except NErr ℕ)) ≠ (t, .ok n) :=
  fun h => nomatch (Prod.mk.inj h).2

theorem mapWithBuffer_error {fd : ℤ} {noBuf noFd nErr : NErr} {info : ℕ → MemInfo}
    (h : mapWithBuffer s a fd noBuf noFd info = (t, .error nErr)) : Kept s t := by
  unfold mapWithBuffer at h
  dsimp only at h
  split_ifs at h <;> obtain ⟨rfl, _⟩ := Prod.mk.inj h <;> exact kept_alloc rfl rfl rfl

theorem mapWithBuffer_ok {fd : ℤ} {noBuf noFd : NErr} {info : ℕ → MemInfo}
    (h : mapWithBuffer s a fd noBuf noFd info = (t, .ok n)) :
    0 < fd ∧ Added s t n (info s.bufs.next) := by
  unfold mapWithBuffer at h
  dsimp only at h
  split_ifs at h with hbuf hfd hremote
  case pos =>
    obtain ⟨rfl, hn⟩ := Prod.mk.inj h
    exact ⟨hfd, (Except.ok.inj hn).symm, rfl, rfl, rfl⟩
  all_goals exact absurd h error_ne_ok

theorem mapWithoutBuffer_error {info : MemInfo} {nErr : NErr}
    (h : mapWithoutBuffer s a info = (t, .error nErr)) : Kept s t := by
  unfold mapWithoutBuffer at h
  dsimp only at h
  split_ifs at h
  case pos => exact nomatch (Prod.mk.inj h).2
  case neg =>
    obtain ⟨rfl, _⟩ := Prod.mk.inj h
    exact kept_alloc rfl rfl rfl

theorem mapWithoutBuffer_ok {info : MemInfo} (h : mapWithoutBuffer s a info = (t, .ok n)) :
    Added s t n info := by
  unfold mapWithoutBuffer at h
  dsimp only at h
  split_ifs at h
  case pos =>
    obtain ⟨rfl, hn⟩ := Prod.mk.inj h
    exact ⟨(Except.ok.inj hn).symm, rfl, rfl, rfl⟩
  case neg => exact absurd h error_ne_ok

/-- A call that maps nothing leaves the list. -/
theorem mapCall_error {req : MapRequest} {nErr : NErr} (h : mapCall s a req = (t, .error nErr)) :
    Kept s t := by
  cases req with
  | requestMap64 rflags len =>
      simp only [mapCall, requestMap64] at h
      split_ifs at h <;> first
        | exact mapWithoutBuffer_error h
        | exact mapWithBuffer_error h
        | (obtain ⟨rfl, _⟩ := Prod.mk.inj h; exact Kept.refl s)
  | shareMap fd size =>
      simp only [mapCall, shareMap] at h
      split_ifs at h <;> first
        | exact mapWithBuffer_error h
        | (obtain ⟨rfl, _⟩ := Prod.mk.inj h; exact Kept.refl s)

/-- A descriptor as a key is the descriptor again. -/
theorem wrap_fd {fd : ℤ} (hpos : 0 < fd) (hfd : InRange fd) : wrap (fd.toNat : ℤ) = fd := by
  rw [Int.toNat_of_nonneg hpos.le, wrap_of_inRange hfd]

/-- **A block that is mapped** gets a new node, whose fields tell how it was made: for a shared block, if
`malloc` did not leave the flags of another kind. -/
theorem mapCall_ok {req : MapRequest} (h : mapCall s a req = (t, .ok n)) :
    ∃ info, Added s t n info ∧ (InRange a.fd → FlagsOk a req →
      MadeBy info (mapActions s a req)) := by
  cases req with
  | requestMap64 rflags len =>
      simp only [mapCall, requestMap64] at h
      split_ifs at h with hattr hlen hmalloc hheap hfd hpages <;>
        first | exact absurd h error_ne_ok | skip
      · refine ⟨_, mapWithoutBuffer_ok h, fun _ _ => ?_⟩
        have hkind : rflags ≠ allocHlosFd := by
          rcases hheap with rfl | rfl <;> decide
        simp [MadeBy, mapActions, hheap, release, Action.undo, dspUnmap, localRelease, hkind]
      · obtain ⟨hpos, hadded⟩ := mapWithBuffer_ok h
        refine ⟨_, hadded, fun hrange _ => ?_⟩
        rw [MadeBy, mapActions, if_neg hheap, if_pos hfd, dspUnmap, if_pos hfd, wrap_fd hpos hrange]
        rfl
      · refine ⟨_, (mapWithBuffer_ok h).2, fun _ _ => ?_⟩
        simp [MadeBy, mapActions, hheap, hfd, hpages, release, Action.undo, dspUnmap, localRelease]
      · refine ⟨_, mapWithoutBuffer_ok h, fun _ _ => ?_⟩
        simp [MadeBy, mapActions, hheap, hfd, hpages, release, Action.undo, dspUnmap, localRelease]
  | shareMap fd size =>
      simp only [mapCall, shareMap] at h
      split_ifs at h with hfd hmalloc <;>
        first | exact absurd h error_ne_ok | skip
      refine ⟨_, (mapWithBuffer_ok h).2, fun _ hflags => ?_⟩
      have hkind : a.rflags ≠ allocHlosFd := hflags
      simp [MadeBy, mapActions, release, Action.undo, dspUnmap, localRelease, hkind]

/-- **A map**: nothing is listed, or one new block under the key that is returned. -/
theorem mapBlock_cases (s : Store) (a : AppsMem.Answer) (req : MapRequest) :
    (∃ nErr done, (mapBlock s a req).2 = .failed nErr done ∧ Kept s (mapBlock s a req).1) ∨
      ∃ info made, (mapBlock s a req).2 = .mapped info.vadsp made ∧
        (mapBlock s a req).1.memList = s.memList ++ [s.heap.next] ∧
        (mapBlock s a req).1.heap.next = s.heap.next + 1 ∧
        (mapBlock s a req).1.heap.cell = Function.update s.heap.cell s.heap.next info ∧
        (InRange a.fd → FlagsOk a req → MadeBy info made) := by
  unfold mapBlock
  cases hcall : mapCall s a req with
  | mk t r =>
      cases r with
      | error nErr => exact Or.inl ⟨nErr, [], rfl, mapCall_error hcall⟩
      | ok n =>
          obtain ⟨info, ⟨rfl, hlist, hnext, hcell⟩, hmade⟩ := mapCall_ok hcall
          refine Or.inr ⟨info, mapActions s a req, ?_, ?_, ?_, ?_, hmade⟩
          · simp [hcell]
          · simp [Store.append, hlist]
          · simp [Store.append, hnext]
          · simp [Store.append, hcell]

end Map

/-! ### Finding a block -/

section Unmap

variable {s : Store} {a : AppsMem.Answer} {vadsp n : ℕ}

theorem findVadsp_spec (h : Heap MemInfo) (vadsp : ℕ) (ns : List ℕ) :
    (findVadsp h vadsp ns).1.cell = h.cell ∧ (findVadsp h vadsp ns).1.next = h.next ∧
      (findVadsp h vadsp ns).2 = ns.find? (fun n => (h.cell n).vadsp = vadsp) := by
  induction ns generalizing h with
  | nil => exact ⟨rfl, rfl, rfl⟩
  | cons n ns ih =>
      unfold findVadsp
      dsimp only
      split_ifs with hkey
      · rw [cell_touch] at hkey
        exact ⟨cell_touch h n, next_touch h n, by simp [hkey]⟩
      · rw [cell_touch] at hkey
        obtain ⟨hcell, hnext, hfind⟩ := ih (h.touch n)
        rw [cell_touch] at hcell hfind
        exact ⟨hcell, hnext.trans (next_touch h n), by simp [hkey, hfind]⟩

/-- The release of a buffer leaves the list and the nodes. -/
theorem releaseBuffer_kept (s : Store) (n : ℕ) :
    (releaseBuffer s n).memList = s.memList ∧ (releaseBuffer s n).heap.next = s.heap.next ∧
      (releaseBuffer s n).heap.cell = s.heap.cell := by
  unfold releaseBuffer
  cases (s.heap.cell n).vapps <;> simp [Store.touch]

/-- **An unmap of a key that is not listed** leaves the list. -/
theorem requestUnmap64_none (h : s.memList.find? (fun n => (s.heap.cell n).vadsp = vadsp) = none) :
    Kept s (requestUnmap64 s a vadsp).1 ∧ ∀ v made, (requestUnmap64 s a vadsp).2 ≠ .mapped v made := by
  obtain ⟨hcell, hnext, hfound⟩ := findVadsp_spec s.heap vadsp s.memList
  have hkept : Kept s (unmapFind s vadsp).1 := ⟨rfl, hnext.ge, fun n _ => congrFun hcell n⟩
  have hpair : unmapFind s vadsp = ((unmapFind s vadsp).1, none) := Prod.ext rfl (hfound.trans h)
  rw [requestUnmap64, hpair]
  unfold unmapRemote
  dsimp only
  split_ifs <;> exact ⟨hkept, fun _ _ => Result.noConfusion⟩

/-- **An unmap of a listed key**: the driver refuses, or the first block under the key is taken off the
list. -/
theorem requestUnmap64_some (h : s.memList.find? (fun n => (s.heap.cell n).vadsp = vadsp) = some n) :
    (∃ nErr, (requestUnmap64 s a vadsp).2 = .failed nErr [dspUnmap (s.heap.cell n) vadsp] ∧
        Kept s (requestUnmap64 s a vadsp).1) ∨
      (requestUnmap64 s a vadsp).2 =
          .unmapped (dspUnmap (s.heap.cell n) vadsp :: localRelease (s.heap.cell n)) ∧
        (requestUnmap64 s a vadsp).1.memList = s.memList.erase n ∧
        (requestUnmap64 s a vadsp).1.heap.next = s.heap.next ∧
        (requestUnmap64 s a vadsp).1.heap.cell = s.heap.cell := by
  obtain ⟨hcell, hnext, hfound⟩ := findVadsp_spec s.heap vadsp s.memList
  have hpair : unmapFind s vadsp = ((unmapFind s vadsp).1, some n) := Prod.ext rfl (hfound.trans h)
  have hcell' : (unmapFind s vadsp).1.heap.cell = s.heap.cell := hcell
  have hnext' : (unmapFind s vadsp).1.heap.next = s.heap.next := hnext
  rw [requestUnmap64, hpair]
  generalize hu : (unmapFind s vadsp).1 = u at hcell' hnext'
  have hlist : u.memList = s.memList := by
    rw [← hu]
    rfl
  unfold unmapRemote
  dsimp only
  by_cases hremote : a.remote = 0
  · rw [if_pos hremote]
    obtain ⟨hlist', hnext'', hcell''⟩ := releaseBuffer_kept (unmapDequeue (u.touch n) n) n
    refine Or.inr ⟨?_, ?_, ?_, ?_⟩
    · simp [unmapDequeue, Store.touch, hcell']
    · exact hlist'.trans (by rw [← hlist]; rfl)
    · exact hnext''.trans (by simp [unmapDequeue, Store.touch, hnext'])
    · exact hcell''.trans (by simp [unmapDequeue, Store.touch, hcell'])
  · rw [if_neg hremote]
    refine Or.inl ⟨.callee a.remote, ?_, ?_⟩
    · simp [hcell']
    · refine ⟨hlist, ?_, fun m _ => ?_⟩
      · simp [Store.touch, hnext']
      · simp [Store.touch, hcell']

end Unmap

/-! ### The invariant -/

/-- The ledger knows the listed blocks, one for each key, and their nodes tell how they were made. -/
structure Inv (s : State) : Prop where
  bounded : ∀ n ∈ s.store.memList, n < s.store.heap.next
  nodup : s.store.memList.Nodup
  keys : ∀ n ∈ s.store.memList, ∀ m ∈ s.store.memList,
    (s.store.heap.cell n).vadsp = (s.store.heap.cell m).vadsp → n = m
  listed : ∀ n ∈ s.store.memList, ∃ made, s.ledger (s.store.heap.cell n).vadsp = some made ∧
    MadeBy (s.store.heap.cell n) made
  known : ∀ vadsp made, s.ledger vadsp = some made →
    ∃ n ∈ s.store.memList, (s.store.heap.cell n).vadsp = vadsp

theorem inv_init : Inv State.init where
  bounded := fun _ h => nomatch h
  nodup := List.nodup_nil
  keys := fun _ h => nomatch h
  listed := fun _ h => nomatch h
  known := fun _ _ h => nomatch h

section Step

variable {s t : State}

/-- What keeps the list and the ledger keeps the invariant. -/
theorem Inv.kept (h : Inv s) {u : Store} (hk : Kept s.store u) : Inv ⟨u, s.ledger⟩ := by
  have hcell : ∀ n ∈ u.memList, u.heap.cell n = s.store.heap.cell n := by
    intro n hn
    rw [hk.memList] at hn
    exact hk.cell n (h.bounded n hn)
  refine ⟨fun n hn => ?_, hk.memList ▸ h.nodup, fun n hn m hm hkey => ?_, fun n hn => ?_, ?_⟩
  · exact Nat.lt_of_lt_of_le (h.bounded n (hk.memList ▸ hn)) hk.next
  · rw [hcell n hn, hcell m hm] at hkey
    exact h.keys n (hk.memList ▸ hn) m (hk.memList ▸ hm) hkey
  · change ∃ made, s.ledger (u.heap.cell n).vadsp = some made ∧ MadeBy (u.heap.cell n) made
    rw [hcell n hn]
    exact h.listed n (hk.memList ▸ hn)
  · intro vadsp made hl
    obtain ⟨n, hn, hkey⟩ := h.known vadsp made hl
    have hn' : n ∈ u.memList := hk.memList.symm ▸ hn
    exact ⟨n, hn', (congrArg MemInfo.vadsp (hcell n hn')).trans hkey⟩

/-- **A new block** under a key that no other listed block has. -/
theorem Inv.added (h : Inv s) {u : Store} {info : MemInfo} {made : List Action}
    (hlist : u.memList = s.store.memList ++ [s.store.heap.next])
    (hnext : u.heap.next = s.store.heap.next + 1)
    (hcell : u.heap.cell = Function.update s.store.heap.cell s.store.heap.next info)
    (hfresh : ∀ n ∈ s.store.memList, (s.store.heap.cell n).vadsp ≠ info.vadsp)
    (hmade : MadeBy info made) :
    Inv ⟨u, Function.update s.ledger info.vadsp (some made)⟩ := by
  have hnew : u.heap.cell s.store.heap.next = info := by
    rw [hcell, Function.update_self]
  have hold : ∀ n ∈ s.store.memList, u.heap.cell n = s.store.heap.cell n := by
    intro n hn
    rw [hcell, Function.update_of_ne (h.bounded n hn).ne]
  have hmem : ∀ n ∈ u.memList, n ∈ s.store.memList ∨ n = s.store.heap.next := by
    intro n hn
    rw [hlist, List.mem_append, List.mem_singleton] at hn
    exact hn
  have hself : s.store.heap.next ∈ u.memList := by
    rw [hlist]
    exact List.mem_append_right _ (List.mem_singleton_self _)
  have hnot : s.store.heap.next ∉ s.store.memList := fun hn => (h.bounded _ hn).false
  refine ⟨fun n hn => ?_, ?_, fun n hn m hm hkey => ?_, fun n hn => ?_, fun vadsp made' hl => ?_⟩
  · change n < u.heap.next
    rw [hnext]
    rcases hmem n hn with hn | rfl
    · exact Nat.lt_succ_of_lt (h.bounded n hn)
    · exact Nat.lt_succ_self _
  · change u.memList.Nodup
    rw [hlist]
    exact List.nodup_append.mpr ⟨h.nodup, List.nodup_singleton _, fun n hn m hm hnm =>
      hnot (List.mem_singleton.mp hm ▸ hnm ▸ hn)⟩
  · change (u.heap.cell n).vadsp = (u.heap.cell m).vadsp at hkey
    rcases hmem n hn with hn | rfl <;> rcases hmem m hm with hm | rfl
    · rw [hold n hn, hold m hm] at hkey
      exact h.keys n hn m hm hkey
    · rw [hold n hn, hnew] at hkey
      exact absurd hkey (hfresh n hn)
    · rw [hnew, hold m hm] at hkey
      exact absurd hkey.symm (hfresh m hm)
    · rfl
  · change ∃ made', Function.update s.ledger info.vadsp (some made) (u.heap.cell n).vadsp = some made' ∧
      MadeBy (u.heap.cell n) made'
    rcases hmem n hn with hn | rfl
    · rw [hold n hn, Function.update_of_ne (hfresh n hn)]
      exact h.listed n hn
    · rw [hnew, Function.update_self]
      exact ⟨made, rfl, hmade⟩
  · change Function.update s.ledger info.vadsp (some made) vadsp = some made' at hl
    rcases eq_or_ne vadsp info.vadsp with rfl | hne
    · exact ⟨s.store.heap.next, hself, congrArg MemInfo.vadsp hnew⟩
    · rw [Function.update_of_ne hne] at hl
      obtain ⟨n, hn, hkey⟩ := h.known vadsp made' hl
      refine ⟨n, ?_, (congrArg MemInfo.vadsp (hold n hn)).trans hkey⟩
      change n ∈ u.memList
      rw [hlist]
      exact List.mem_append_left _ hn

/-- **A block taken off the list**, with its key. -/
theorem Inv.removed (h : Inv s) {u : Store} {n : ℕ} (hn : n ∈ s.store.memList)
    (hlist : u.memList = s.store.memList.erase n) (hnext : u.heap.next = s.store.heap.next)
    (hcell : u.heap.cell = s.store.heap.cell) :
    Inv ⟨u, Function.update s.ledger (s.store.heap.cell n).vadsp none⟩ := by
  have hmem : ∀ m, m ∈ u.memList ↔ m ≠ n ∧ m ∈ s.store.memList := by
    intro m
    rw [hlist]
    exact h.nodup.mem_erase_iff
  have hother : ∀ m ∈ u.memList, (s.store.heap.cell m).vadsp ≠ (s.store.heap.cell n).vadsp :=
    fun m hm hkey => ((hmem m).mp hm).1 (h.keys m ((hmem m).mp hm).2 n hn hkey)
  refine ⟨fun m hm => ?_, ?_, fun m hm m' hm' hkey => ?_, fun m hm => ?_, fun vadsp made hl => ?_⟩
  · change m < u.heap.next
    rw [hnext]
    exact h.bounded m ((hmem m).mp hm).2
  · change u.memList.Nodup
    rw [hlist]
    exact h.nodup.erase n
  · change (u.heap.cell m).vadsp = (u.heap.cell m').vadsp at hkey
    rw [hcell] at hkey
    exact h.keys m ((hmem m).mp hm).2 m' ((hmem m').mp hm').2 hkey
  · change ∃ made, Function.update s.ledger (s.store.heap.cell n).vadsp none (u.heap.cell m).vadsp =
      some made ∧ MadeBy (u.heap.cell m) made
    rw [hcell, Function.update_of_ne (hother m hm)]
    exact h.listed m ((hmem m).mp hm).2
  · change Function.update s.ledger (s.store.heap.cell n).vadsp none vadsp = some made at hl
    rcases eq_or_ne vadsp (s.store.heap.cell n).vadsp with rfl | hne
    · rw [Function.update_self] at hl
      exact nomatch hl
    · rw [Function.update_of_ne hne] at hl
      obtain ⟨m, hm, hkey⟩ := h.known vadsp made hl
      refine ⟨m, (hmem m).mpr ⟨fun heq => hne (heq ▸ hkey.symm), hm⟩, ?_⟩
      change (u.heap.cell m).vadsp = vadsp
      rw [hcell]
      exact hkey

/-- The block that is found is listed under the key. -/
theorem of_find {u : Store} {vadsp n : ℕ}
    (h : u.memList.find? (fun n => (u.heap.cell n).vadsp = vadsp) = some n) :
    n ∈ u.memList ∧ (u.heap.cell n).vadsp = vadsp :=
  ⟨List.mem_of_find?_eq_some h, by simpa using List.find?_some h⟩

/-- The block that an unmap of a known key finds is the one that the ledger knows. -/
theorem Inv.found (h : Inv s) {vadsp : ℕ} {made : List Action} (hl : s.ledger vadsp = some made) :
    ∃ n ∈ s.store.memList,
      s.store.memList.find? (fun n => (s.store.heap.cell n).vadsp = vadsp) = some n ∧
      (s.store.heap.cell n).vadsp = vadsp ∧
      release made = dspUnmap (s.store.heap.cell n) vadsp :: localRelease (s.store.heap.cell n) := by
  obtain ⟨m, hm, hkey⟩ := h.known vadsp made hl
  have hsome : (s.store.memList.find? (fun n => (s.store.heap.cell n).vadsp = vadsp)).isSome :=
    List.find?_isSome.mpr ⟨m, hm, decide_eq_true hkey⟩
  obtain ⟨n, hfind⟩ := Option.isSome_iff_exists.mp hsome
  obtain ⟨hn, hkeyn⟩ := of_find hfind
  obtain ⟨made', hl', hmade⟩ := h.listed n hn
  rw [hkeyn, hl] at hl'
  obtain rfl := Option.some.inj hl'
  refine ⟨n, hn, hfind, hkeyn, ?_⟩
  rw [hmade, hkeyn]

/-- **Every unmap of a known key** releases its block the way it was made. -/
theorem Inv.releasedAsMade (h : Inv s) (e : Event) : ReleasedAsMade s e := by
  cases e with
  | map req a => trivial
  | unmap vadsp a =>
      intro made hl
      obtain ⟨n, _, hfind, _, hrelease⟩ := h.found hl
      rcases requestUnmap64_some hfind with ⟨nErr, hres, _⟩ | ⟨hres, _⟩
      · rw [hres]
        exact (congrArg (List.take 1) hrelease).symm
      · rw [hres]
        exact hrelease.symm

/-- **One call** whose keys tell the blocks apart keeps the invariant. -/
theorem Inv.step (h : Inv s) {e : Event} (hC : TellsApart s e) (ht : step s e = some t) : Inv t := by
  unfold ReverseHeap.step at ht
  split_ifs at ht with htype
  obtain rfl := Option.some.inj ht
  cases e with
  | map req a =>
      change Inv ⟨(mapBlock s.store a req).1, s.ledger.after (.map req a) (mapBlock s.store a req).2⟩
      rcases mapBlock_cases s.store a req with
        ⟨nErr, done, hres, hkept⟩ | ⟨info, made, hres, hlist, hnext, hcell, hmade⟩
      · rw [hres]
        exact h.kept hkept
      · have hnew : NewKey s.store a req (mapBlock s.store a req).2 := hC
        rw [hres] at hnew
        obtain ⟨hfresh, hflags⟩ := hnew
        rw [hres]
        exact h.added hlist hnext hcell hfresh (hmade htype hflags)
  | unmap vadsp a =>
      change Inv ⟨(requestUnmap64 s.store a vadsp).1,
        s.ledger.after (.unmap vadsp a) (requestUnmap64 s.store a vadsp).2⟩
      cases hfind : s.store.memList.find? (fun n => (s.store.heap.cell n).vadsp = vadsp) with
      | none =>
          obtain ⟨hkept, hnotmapped⟩ := requestUnmap64_none (a := a) hfind
          have hl : s.ledger vadsp = none := by
            by_contra hsome
            obtain ⟨made, hmade⟩ := Option.ne_none_iff_exists'.mp hsome
            obtain ⟨n, _, hfound, _⟩ := h.found hmade
            exact nomatch hfind.symm.trans hfound
          have hsame : s.ledger.after (.unmap vadsp a) (requestUnmap64 s.store a vadsp).2 = s.ledger := by
            cases hres : (requestUnmap64 s.store a vadsp).2 with
            | mapped v made => rfl
            | unmapped done => exact Function.update_eq_self_iff.mpr hl.symm
            | failed nErr done => rfl
          rw [hsame]
          exact h.kept hkept
      | some n =>
          obtain ⟨hn, hkey⟩ := of_find hfind
          rcases requestUnmap64_some hfind with ⟨nErr, hres, hkept⟩ | ⟨hres, hlist, hnext, hcell⟩
          · rw [hres]
            exact h.kept hkept
          · rw [hres, ← hkey]
            exact h.removed hn (hkey ▸ hlist) (hkey ▸ hnext) (hkey ▸ hcell)

end Step

/-- **Blocks are released the way they were made**: in every run of maps, shares and unmaps in which no
key is returned while another block is listed under it, and no shared block starts with the flags of a
block that is mapped on the process only. -/
theorem blocks_released_as_made {es : List Event} (h : Guarded step TellsApart State.init es) :
    Guarded step ReleasedAsMade State.init es :=
  (along_and_guarded (P := fun _ => True) (fun _ _ _ hi hC ht => hi.step hC ht) (fun _ _ => trivial)
    (fun _ e hi _ => hi.releasedAsMade e) inv_init h).2

/-- Answers of a signed process where everything succeeds: the descriptor 7, and the address `0x20000000`
on the DSP; `malloc` leaves the given flags in a node. -/
def answers (rflags : ℕ) : AppsMem.Answer := ⟨0, false, false, true, true, 7, 0, 0x20000000, rflags, false⟩

/-- A block of pages, one that is mapped on the process only, and a shared one, each released. -/
theorem blocks_released_as_made_three :
    Guarded step ReleasedAsMade State.init
      [.map (.requestMap64 mmapAddPages 4096) (answers 0), .map (.requestMap64 allocHlosFd 4096) (answers 0),
        .unmap 0x20000000 (answers 0), .map (.shareMap 7 4096) (answers 0), .unmap 7 (answers 0),
        .unmap 0x20000000 (answers 0)] :=
  blocks_released_as_made (by decide +kernel)

/-- The node of a shared block that keeps the flags of an earlier block: it is unmapped with
`fastrpc_munmap`. -/
theorem shared_unmapped_as_descriptor :
    ¬ Guarded step ReleasedAsMade State.init
      [.map (.shareMap 7 4096) (answers allocHlosFd), .unmap 0x20000000 (answers 0)] := by
  rintro ⟨_, hrest⟩
  have hmapped : step State.init (.map (.shareMap 7 4096) (answers allocHlosFd)) = some
      ⟨(mapBlock Store.init' (answers allocHlosFd) (.shareMap 7 4096)).1,
        Function.update (fun _ => none) 0x20000000
          (some [.mmap (some 0) 4096, .remoteMmap64 0x20000000])⟩ := rfl
  have hreleased := (hrest _ hmapped).1 _ rfl
  exact absurd hreleased (by decide +kernel)

end FastRpc.ReverseHeap
