import FastRpc.MapUnique
import FastRpc.RemoteMapList

/-! # The static mappings as a table

Where no call of another thread comes between its pieces, a call of the static mappings is one operation
on the table of its domain: the mappings with their reference counts, in the order of their list.
`callStatic_table` says so for every call in every store with right lifetimes; nodes, locks and searches
are then out of the way. -/

namespace FastRpc.StaticMap

open BlockHeap CInt
open MemList (runCall callStatic)

/-! ### Tables -/

/-- The mappings of a domain with their reference counts. -/
abbrev Table := List Node

/-- The tables of the store. -/
def Store.table (s : Store) (d : Domain) : Table := (s.smaplst d).map s.heap.cell

namespace Table

/-- The mapping that a search finds. -/
def entry (key : Key) (T : Table) : Option Node := T.find? (fun node => key.found node.map)

/-- The mapping that a search finds gets another reference count. -/
def setRefs (key : Key) (refs : ℤ) : Table → Table
  | [] => []
  | node :: T =>
      if key.found node.map then { node with refs := refs } :: T else node :: setRefs key refs T

/-- The table without the mapping that a search finds. -/
def remove (key : Key) (T : Table) : Table := T.eraseP (fun node => key.found node.map)

/-- `fastrpc_mmap_helper`. -/
def mmap (T : Table) (map : MemMap) (a : Answer) : Table × Outcome :=
  if (T.entry (.fd map.fd)).isSome then (T, .of (some .EALREADY))
  else if a.calloc then
    if a.driver.iocErr = 0 then
      (T ++ [⟨{ map with vaddrout := a.driver.vaddrout }, 1⟩],
        ⟨none, some a.driver.vaddrout, none, none⟩)
    else
      (T, ⟨some (if a.driver.mmapUnsupported then .EUNSUPPORTED else .EFAILED),
        some a.driver.vaddrout, none, none⟩)
  else (T, .of (some .ENOMEMORY))

/-- `fastrpc_munmap` and `fastrpc_munmap_internal`. -/
def munmap (T : Table) (key : Key) (a : DriverAnswer) : Table × Outcome :=
  match T.entry key with
  | none => (T, .of (some .ENOSUCHMAP))
  | some node =>
      if 1 < node.refs then (T, .of (some .EBADPARM))
      else if a.iocErr = 0 then (T.remove key, .of none)
      else if a.munmapUnsupported then (T.setRefs key 0, .of (some .EUNSUPPORTED))
      else (T.setRefs key 1, .of (some .EFAILED))

/-- `fastrpc_buffer_ref`. -/
def bufferRef (T : Table) (fd ref : ℤ) : Table × Outcome :=
  match T.entry (.fd fd) with
  | none => (T, .of (some .ENOSUCHMAP))
  | some node =>
      let result : Option AEEResult → Outcome :=
        fun nErr => ⟨nErr, none, some node.map.vaddrin, some node.map.length⟩
      if node.refs ≤ 0 then (T, .of (some .ERPC))
      else if ref = 1 then (T.setRefs (.fd fd) (wrap (node.refs + 1)), result none)
      else if ref = -1 then
        if node.refs = 1 then (T, result (some .EBADPARM))
        else (T.setRefs (.fd fd) (node.refs - 1), result none)
      else if ref = 0 then (T, result none)
      else (T, result (some .ERPC))

end Table

/-- A call, as an operation on the tables. -/
def callTable (T : Domain → Table) (session : Session) (c : Call) (a : Answer) :
    (Domain → Table) × Outcome :=
  let onTable : Domain → Table × Outcome → (Domain → Table) × Outcome :=
    fun d r => (Function.update T d r.1, r.2)
  match enter session c with
  | .returned r => (T, r)
  | .mmapEnter d map => onTable d ((T d).mmap map a)
  | .munmapEnter d key => onTable d ((T d).munmap key a.driver)
  | .refEnter d fd ref => onTable d ((T d).bufferRef fd ref)
  | .closeEnter d => onTable d ([], .of none)
  | _ => (T, .of none)

/-! ### Tables and lists of nodes -/

section Lists

variable {cell : ℕ → Node} {key : Key} {ns : List ℕ} {n : ℕ}

theorem entry_map :
    Table.entry key (ns.map cell) = (ns.find? (fun n => key.found (cell n).map)).map cell := by
  unfold Table.entry
  rw [List.find?_map]
  rfl

theorem map_update_of_notMem (hn : n ∉ ns) (node : Node) :
    ns.map (Function.update cell n node) = ns.map cell := by
  refine List.map_congr_left fun m hm => ?_
  rw [Function.update_of_ne]
  rintro rfl
  exact hn hm

theorem map_update_setRefs (hnodup : ns.Nodup)
    (hfind : ns.find? (fun n => key.found (cell n).map) = some n) (refs : ℤ) :
    ns.map (Function.update cell n { cell n with refs := refs }) =
      Table.setRefs key refs (ns.map cell) := by
  induction ns with
  | nil => cases hfind
  | cons m ns ih =>
      obtain ⟨hm, hnodup⟩ := List.nodup_cons.mp hnodup
      rw [List.map_cons, List.map_cons, Table.setRefs]
      by_cases hfound : key.found (cell m).map = true
      · simp only [List.find?_cons, hfound] at hfind
        obtain rfl := Option.some.inj hfind
        rw [if_pos hfound, Function.update_self, map_update_of_notMem hm]
      · simp only [List.find?_cons, hfound] at hfind
        have hne : m ≠ n := by
          rintro rfl
          exact hm (List.mem_of_find?_eq_some hfind)
        rw [if_neg hfound, Function.update_of_ne hne, ih hnodup hfind]

theorem map_filter_remove (hnodup : ns.Nodup)
    (hfind : ns.find? (fun n => key.found (cell n).map) = some n) :
    (ns.filter (fun m => m ∉ [n])).map cell = Table.remove key (ns.map cell) := by
  unfold Table.remove
  induction ns with
  | nil => cases hfind
  | cons m ns ih =>
      obtain ⟨hm, hnodup⟩ := List.nodup_cons.mp hnodup
      rw [List.map_cons]
      by_cases hfound : key.found (cell m).map = true
      · simp only [List.find?_cons, hfound] at hfind
        obtain rfl := Option.some.inj hfind
        have hrest : ns.filter (fun k => k ∉ [m]) = ns := by
          refine List.filter_eq_self.mpr fun k hk => ?_
          have hne : k ≠ m := fun h => hm (h ▸ hk)
          simpa using hne
        rw [List.filter_cons_of_neg (by simp), hrest]
        simp only [List.eraseP_cons, hfound, cond_true]
      · simp only [List.find?_cons, hfound] at hfind
        have hne : m ≠ n := by
          rintro rfl
          exact hm (List.mem_of_find?_eq_some hfind)
        rw [List.filter_cons_of_pos (by simpa using hne), List.map_cons, ih hnodup hfind]
        simp only [List.eraseP_cons, hfound, cond_false]

/-- A search ends at the first node that it looks for; without one, at the node it came with. -/
theorem searchMap_filter (found : MemMap → Bool) (h : Heap Node) (node : Option ℕ) (ns : List ℕ)
    (hnode : node.filter (fun n => found (h.cell n).map) = none) :
    (searchMap found h node ns).2.filter (fun n => found (h.cell n).map) =
      ns.find? (fun n => found (h.cell n).map) := by
  induction ns generalizing h node with
  | nil => exact hnode
  | cons n ns ih =>
      unfold searchMap
      by_cases hfound : found (h.cell n).map = true
      · simp [hfound]
      · have hstep := ih (h.touch n) (some n) (by simp [hfound])
        rw [touch_cell] at hstep
        simp [hfound, hstep]

end Lists

/-! ### The calls -/

section Calls

variable {s s' : Store} {d : Domain} {key : Key} {n : ℕ} {a : Answer} {T : Table}

/-- The store afterwards: right lifetimes, and `T` the table of the domain. -/
structure Leaves (s : Store) (d : Domain) (T : Table) (s' : Store) : Prop where
  ok : s'.Ok
  table : s'.table = Function.update s.table d T

theorem Leaves.same (hs : s.Ok) : Leaves s d (s.table d) s := ⟨hs, (Function.update_eq_self d _).symm⟩

theorem Leaves.of_table (hok : s'.Ok) (hd : s'.table d = T) (hother : ∀ d', d' ≠ d → s'.table d' = s.table d') :
    Leaves s d T s' := by
  refine ⟨hok, funext fun d' => ?_⟩
  rcases eq_or_ne d' d with rfl | hne
  · rw [Function.update_self, hd]
  · rw [Function.update_of_ne hne, hother d' hne]

/-- The node that a search of a list finds. -/
def Store.found (s : Store) (d : Domain) (key : Key) : Option ℕ :=
  (s.smaplst d).find? (fun n => key.found (s.heap.cell n).map)

theorem table_entry (s : Store) (d : Domain) (key : Key) :
    (s.table d).entry key = (s.found d key).map s.heap.cell := entry_map

theorem found_mem (h : s.found d key = some n) : n ∈ s.smaplst d := List.mem_of_find?_eq_some h

/-- The store with another reference count of a node. -/
def Store.setRefs (s : Store) (n : ℕ) (refs : ℤ) : Store :=
  s.withCells (Function.update s.heap.cell n { s.heap.cell n with refs := refs })

theorem setRefs_map (s : Store) (n m : ℕ) (refs : ℤ) :
    ((s.setRefs n refs).heap.cell m).map = (s.heap.cell m).map := by
  rcases eq_or_ne m n with rfl | hne
  · simp [Store.setRefs, Store.withCells]
  · simp [Store.setRefs, Store.withCells, Function.update_of_ne hne]

theorem found_setRefs (s : Store) (n : ℕ) (refs : ℤ) : (s.setRefs n refs).found d key = s.found d key := by
  simp only [Store.found, setRefs_map]
  rfl

theorem Leaves.setRefs (hs : s.Ok) (h : s.found d key = some n) (refs : ℤ) :
    Leaves s d ((s.table d).setRefs key refs) (s.setRefs n refs) := by
  refine .of_table (hs.withCells _) (map_update_setRefs (hs.nodup d) h refs) fun d' hne => ?_
  exact map_update_of_notMem (fun hn => hne (hs.disjoint d' d n hn (found_mem h))) _

theorem Leaves.remove (hs : s.Ok) (h : s.found d key = some n) :
    Leaves s d ((s.table d).remove key) (s.release [n]) := by
  have hmem := found_mem h
  have hok := hs.release (d := d) (List.nodup_singleton n) (by simpa using hmem)
  refine .of_table hok (map_filter_remove (hs.nodup d) h) fun d' hne => ?_
  have hfilter : (s.smaplst d').filter (fun m => m ∉ [n]) = s.smaplst d' := by
    refine List.filter_eq_self.mpr fun m hm => ?_
    have hmn : m ≠ n := by
      rintro rfl
      exact hne (hs.disjoint d' d m hm hmem)
    simpa using hmn
  simp only [Store.table, Store.release, hfilter]
  rfl

theorem Leaves.close (hs : s.Ok) : Leaves s d [] (fastrpcMemClose s d) := by
  have hclose : fastrpcMemClose s d = s.release (s.smaplst d) := closeLoop_release hs rfl
  rw [hclose]
  refine .of_table (hs.release (hs.nodup d) fun _ hn => hn) ?_ fun d' hne => ?_
  · simp [Store.table, Store.release]
  · have hfilter : (s.smaplst d').filter (fun m => m ∉ s.smaplst d) = s.smaplst d' := by
      refine List.filter_eq_self.mpr fun m hm => ?_
      have hm' : m ∉ s.smaplst d := fun h => hne (hs.disjoint d' d m hm h)
      simpa using hm'
    simp only [Store.table, Store.release, hfilter]
    rfl

theorem munmapFind_eq (hs : s.Ok) (d : Domain) (key : Key) : munmapFind s d key =
    match s.found d key with
    | none => (s, .error .ENOSUCHMAP)
    | some n =>
        if 1 < (s.heap.cell n).refs then (s, .error .EBADPARM)
        else (s.setRefs n 0, .ok n) := by
  have hfilter := searchMap_filter key.found s.heap none (s.smaplst d) rfl
  obtain ⟨hheap, hmem⟩ := hs.searchMap (d := d) key.found
  unfold munmapFind
  simp only [hheap]
  cases hr : (searchMap key.found s.heap none (s.smaplst d)).2 with
  | none =>
      rw [hr] at hfilter
      have hfound : s.found d key = none := hfilter.symm
      simp [hfound]
  | some n =>
      rw [hr] at hfilter
      by_cases hkey : key.found (s.heap.cell n).map = true
      · have hfound : s.found d key = some n := by
          rw [← show _ = s.found d key from hfilter]
          simp [hkey]
        have hlive := hs.listed d n (hmem n hr)
        simp only [hfound, hkey, if_true, Heap.write_live hlive]
        rfl
      · have hfound : s.found d key = none := by
          rw [← show _ = s.found d key from hfilter]
          simp [hkey]
        simp [hfound, hkey]

theorem Table.setRefs_setRefs (T : Table) (key : Key) (refs refs' : ℤ) :
    (T.setRefs key refs).setRefs key refs' = T.setRefs key refs' := by
  induction T with
  | nil => rfl
  | cons node T ih =>
      by_cases hfound : key.found node.map = true
      · simp [Table.setRefs, hfound]
      · simp [Table.setRefs, hfound, ih]

theorem Table.remove_setRefs (T : Table) (key : Key) (refs : ℤ) :
    (T.setRefs key refs).remove key = T.remove key := by
  unfold Table.remove
  induction T with
  | nil => rfl
  | cons node T ih =>
      by_cases hfound : key.found node.map = true
      · simp [Table.setRefs, hfound]
      · simp [Table.setRefs, hfound, ih]

theorem Leaves.table_self (h : Leaves s d T s') : s'.table d = T := by
  rw [h.table, Function.update_self]

theorem Leaves.trans {T' : Table} {s'' : Store} (h : Leaves s d T s') (h' : Leaves s' d T' s'') :
    Leaves s d T' s'' := by
  refine ⟨h'.ok, ?_⟩
  rw [h'.table, h.table, Function.update_idem]

/-- The end of an unmapping, by the driver's answer. -/
theorem munmapFinish_leaves (hs : s.Ok) (hfound : s.found d key = some n)
    (hheld : ¬ 1 < (s.heap.cell n).refs) (answer : DriverAnswer) :
    Leaves s d ((s.table d).munmap key answer).1 (munmapFinish (s.setRefs n 0) d n answer).1 ∧
      .of (munmapFinish (s.setRefs n 0) d n answer).2 = ((s.table d).munmap key answer).2 := by
  have hentry : (s.table d).entry key = some (s.heap.cell n) := by rw [table_entry, hfound]; rfl
  have hzero : Leaves s d _ (s.setRefs n 0) := .setRefs hs hfound 0
  have hfound' := (found_setRefs s n 0).trans hfound
  simp only [munmapFinish, Table.munmap, hentry, if_neg hheld]
  split_ifs with hioc hunsupported
  · have hremove := Leaves.remove hzero.ok hfound'
    rw [hzero.table_self, Table.remove_setRefs] at hremove
    rw [hzero.ok.dequeue_free (found_mem hfound')]
    exact ⟨hzero.trans hremove, rfl⟩
  · exact ⟨hzero, rfl⟩
  · have hone := Leaves.setRefs hzero.ok hfound' 1
    rw [hzero.table_self, Table.setRefs_setRefs] at hone
    rw [Heap.write_live (hzero.ok.listed d n (found_mem hfound'))]
    exact ⟨hzero.trans hone, rfl⟩

/-- A whole call of `fastrpc_munmap` or `fastrpc_munmap_internal`, from its search on. -/
theorem munmap_leaves (hs : s.Ok) (d : Domain) (key : Key) (a : Answer) : ∃ s',
    runCall s (.munmapEnter d key) [a, a, a, a] =
      (s', .returned ((s.table d).munmap key a.driver).2) ∧
    Leaves s d ((s.table d).munmap key a.driver).1 s' := by
  have hentry := table_entry s d key
  have hfind := munmapFind_eq hs d key
  cases hfound : s.found d key with
  | none =>
      rw [hfound] at hentry hfind
      refine ⟨s, ?_, ?_⟩
      · simp [runCall, advance, hfind, Table.munmap, hentry, Pc.fails]
      · simpa [Table.munmap, hentry] using Leaves.same hs
  | some n =>
      rw [hfound] at hentry hfind
      by_cases hheld : 1 < (s.heap.cell n).refs
      · refine ⟨s, ?_, ?_⟩
        · simp [runCall, advance, hfind, Table.munmap, hentry, hheld, Pc.fails]
        · simpa [Table.munmap, hentry, hheld] using Leaves.same hs
      · have hlive : (s.setRefs n 0).heap.Live n := hs.listed d n (found_mem hfound)
        have hrun : runCall s (.munmapEnter d key) [a, a, a, a] =
            ((munmapFinish (s.setRefs n 0) d n a.driver).1,
              .returned (.of (munmapFinish (s.setRefs n 0) d n a.driver).2)) := by
          have htouch : munmapDriver (s.setRefs n 0) n = s.setRefs n 0 := by
            unfold munmapDriver Store.touch
            rw [Heap.touch_live hlive]
          simp only [if_neg hheld] at hfind
          simp only [runCall, advance, hfind, htouch]
        obtain ⟨hleaves, houtcome⟩ := munmapFinish_leaves hs hfound hheld a.driver
        exact ⟨_, by rw [hrun, houtcome], hleaves⟩

theorem mmapSearch_eq (hs : s.Ok) (fd : ℤ) : ∃ tNode, mmapSearch s d fd = (s, tNode) ∧
    s.heap.touchAll tNode.toList = s.heap ∧
    tNode.filter (fun n => (s.heap.cell n).map.fd == fd) = s.found d (.fd fd) := by
  have hfilter := searchMap_filter (Key.fd fd).found s.heap none (s.smaplst d) rfl
  obtain ⟨hheap, hmem⟩ := hs.searchMap (d := d) (Key.fd fd).found
  refine ⟨(searchMap (Key.fd fd).found s.heap none (s.smaplst d)).2, ?_, ?_, hfilter⟩
  · unfold mmapSearch
    change ({ s with heap := (searchMap (Key.fd fd).found s.heap none (s.smaplst d)).1 }, _) = _
    rw [hheap]
    rfl
  · exact Heap.touchAll_live fun n hn => hs.listed d n (hmem n (Option.mem_toList.mp hn))

theorem any_eq_isSome_filter {α : Type} (p : α → Bool) (o : Option α) : o.any p = (o.filter p).isSome := by
  cases o with
  | none => rfl
  | some x => cases h : p x <;> simp [h]

/-- A new node is no node of the lists. -/
theorem Store.Ok.next_unlisted (hs : s.Ok) (d : Domain) : s.heap.next ∉ s.smaplst d :=
  fun hn => absurd (hs.listed d _ hn).1 (lt_irrefl _)

/-- The store with a new node, which is on no list yet. -/
def Store.alloc (s : Store) (node : Node) : Store := { s with heap := s.heap.alloc node }

theorem Store.Ok.alloc_new (hs : s.Ok) (node : Node) :
    (s.alloc node).heap.Live s.heap.next ∧ ∀ d, s.heap.next ∉ (s.alloc node).smaplst d := by
  refine ⟨⟨Nat.lt_succ_self _, fun hfreed => ?_⟩, hs.next_unlisted⟩
  exact absurd (hs.freedOld _ hfreed) (lt_irrefl _)

theorem Leaves.alloc (hs : s.Ok) (node : Node) : Leaves s d (s.table d) (s.alloc node) :=
  .of_table (hs.alloc node) (map_update_of_notMem (hs.next_unlisted d) node)
    fun d' _ => map_update_of_notMem (hs.next_unlisted d') node

theorem Leaves.append (hs : s.Ok) (hlive : s.heap.Live n) (hun : ∀ d, n ∉ s.smaplst d) :
    Leaves s d (s.table d ++ [s.heap.cell n]) (s.append d n) := by
  obtain ⟨hok, heq⟩ := hs.append d hlive hun
  rw [heq] at hok ⊢
  refine .of_table hok ?_ fun d' hne => ?_
  · simp [Store.table]
  · simp [Store.table, Function.update_of_ne hne]

theorem Leaves.add (hs : s.Ok) (node : Node) :
    Leaves s d (s.table d ++ [node]) ((s.alloc node).append d s.heap.next) := by
  obtain ⟨hlive, hun⟩ := hs.alloc_new node
  have halloc := Leaves.alloc (d := d) hs node
  have hcell : (s.alloc node).heap.cell s.heap.next = node := Function.update_self ..
  have happend := Leaves.append (d := d) halloc.ok hlive hun
  rw [halloc.table_self, hcell] at happend
  exact halloc.trans happend

theorem mmapAllocate_eq {map : MemMap} {tNode : Option ℕ}
    (htouch : s.heap.touchAll tNode.toList = s.heap)
    (hfound : tNode.filter (fun n => (s.heap.cell n).map.fd == map.fd) = s.found d (.fd map.fd))
    (calloc : Bool) : mmapAllocate s map tNode calloc =
      if ((s.table d).entry (.fd map.fd)).isSome then (s, .error .EALREADY)
      else if calloc then (s.alloc ⟨map, 0⟩, .ok s.heap.next) else (s, .error .ENOMEMORY) := by
  rw [table_entry, Option.isSome_map, ← hfound, ← any_eq_isSome_filter]
  simp only [mmapAllocate, htouch]
  rfl

/-- The node of a mapping that the driver has made. -/
theorem mmapDriver_success (hs : s.Ok) (map : MemMap) {answer : DriverAnswer} (hioc : answer.iocErr = 0) :
    mmapDriver (s.alloc ⟨map, 0⟩) s.heap.next answer =
      (s.alloc ⟨{ map with vaddrout := answer.vaddrout }, 1⟩, none) := by
  have hlive := (hs.alloc_new ⟨map, 0⟩).1
  simp only [mmapDriver, hioc, if_true, Heap.write_live hlive]
  simp [Store.alloc, Heap.alloc]

theorem mmapDriver_failure (map : MemMap) {answer : DriverAnswer} (hioc : answer.iocErr ≠ 0) :
    mmapDriver (s.alloc ⟨map, 0⟩) s.heap.next answer =
      ((s.alloc ⟨map, 0⟩).free s.heap.next,
        some (if answer.mmapUnsupported then .EUNSUPPORTED else .EFAILED)) := if_neg hioc

theorem Leaves.drop (hs : s.Ok) (node : Node) :
    Leaves s d (s.table d) ((s.alloc node).free s.heap.next) := by
  obtain ⟨hlive, hun⟩ := hs.alloc_new node
  have halloc := Leaves.alloc (d := d) hs node
  exact ⟨halloc.ok.free hlive hun, halloc.table⟩

theorem runCall_next {pc : Pc} {r : Store × Pc} (h : advance s a pc = some r) (as : List Answer) :
    runCall s pc (a :: as) = runCall r.1 r.2 as := by
  simp [runCall, h]

theorem runCall_returned (s : Store) (r : Outcome) (as : List Answer) :
    runCall s (.returned r) as = (s, .returned r) := by
  cases as <;> rfl

/-- A whole call of `fastrpc_mmap_helper`, from its search on. -/
theorem mmap_leaves (hs : s.Ok) (d : Domain) (map : MemMap) (a : Answer) : ∃ s',
    runCall s (.mmapEnter d map) [a, a, a, a] = (s', .returned ((s.table d).mmap map a).2) ∧
    Leaves s d ((s.table d).mmap map a).1 s' := by
  obtain ⟨tNode, hsearch, htouch, hfound⟩ := mmapSearch_eq (d := d) hs map.fd
  have hallocate := mmapAllocate_eq htouch hfound a.calloc
  have hfirst : advance s a (.mmapEnter d map) = some (s, .mmapSearched d map tNode) := by
    simp [advance, hsearch]
  rw [runCall_next hfirst]
  by_cases hentry : ((s.table d).entry (.fd map.fd)).isSome = true
  · have hnext : advance s a (.mmapSearched d map tNode) = some (s, .fails .EALREADY) := by
      simp [advance, hallocate, hentry]
    rw [runCall_next hnext, Pc.fails, runCall_returned, Table.mmap, if_pos hentry]
    exact ⟨s, rfl, .same hs⟩
  by_cases hcalloc : a.calloc = true
  · have hnext : advance s a (.mmapSearched d map tNode) =
        some (s.alloc ⟨map, 0⟩, .mmapAllocated d s.heap.next) := by
      rw [if_neg hentry, if_pos hcalloc] at hallocate
      simp only [advance, hallocate]
    rw [runCall_next hnext, Table.mmap, if_neg hentry, if_pos hcalloc]
    by_cases hioc : a.driver.iocErr = 0
    · have hdriver : advance (s.alloc ⟨map, 0⟩) a (.mmapAllocated d s.heap.next) =
          some (s.alloc ⟨{ map with vaddrout := a.driver.vaddrout }, 1⟩,
            .mmapMapped d s.heap.next a.driver.vaddrout) := by
        simp only [advance, mmapDriver_success hs map hioc]
      rw [runCall_next hdriver, runCall_next rfl, runCall, if_pos hioc]
      exact ⟨_, rfl, .add hs _⟩
    · have hdriver : advance (s.alloc ⟨map, 0⟩) a (.mmapAllocated d s.heap.next) =
          some ((s.alloc ⟨map, 0⟩).free s.heap.next, .returned
            ⟨some (if a.driver.mmapUnsupported then .EUNSUPPORTED else .EFAILED),
              some a.driver.vaddrout, none, none⟩) := by
        simp only [advance, mmapDriver_failure map hioc]
      rw [runCall_next hdriver, runCall_returned, if_neg hioc]
      exact ⟨_, rfl, .drop hs _⟩
  · have hnext : advance s a (.mmapSearched d map tNode) = some (s, .fails .ENOMEMORY) := by
      rw [if_neg hentry, if_neg hcalloc] at hallocate
      simp only [advance, hallocate]
    rw [runCall_next hnext, Pc.fails, runCall_returned, Table.mmap, if_neg hentry, if_neg hcalloc]
    exact ⟨s, rfl, .same hs⟩

/-- A call of `fastrpc_buffer_ref`, which is one piece. -/
theorem bufferRef_leaves (hs : s.Ok) (fd ref : ℤ) :
    (fastrpcBufferRef s d fd ref).2 = ((s.table d).bufferRef fd ref).2 ∧
    Leaves s d ((s.table d).bufferRef fd ref).1 (fastrpcBufferRef s d fd ref).1 := by
  have hfilter : (searchMap (fun m => m.fd == fd) s.heap none (s.smaplst d)).2.filter
      (fun n => (s.heap.cell n).map.fd == fd) = s.found d (.fd fd) :=
    searchMap_filter (fun m => m.fd == fd) s.heap none (s.smaplst d) rfl
  have hheap := (hs.searchMap (d := d) (fun m => m.fd == fd)).1
  have hentry := table_entry s d (.fd fd)
  unfold fastrpcBufferRef Table.bufferRef
  simp only [hheap, hfilter]
  cases hfound : s.found d (.fd fd) with
  | none =>
      rw [hfound] at hentry
      simp only [hentry, Option.map_none]
      exact ⟨trivial, .same hs⟩
  | some n =>
      rw [hfound] at hentry
      have hwrite := fun refs => Leaves.setRefs hs hfound refs
      simp only [hentry, Option.map_some, Heap.write_live (hs.listed d n (found_mem hfound))]
      split_ifs
      · exact ⟨rfl, .same hs⟩
      · exact ⟨rfl, hwrite _⟩
      · exact ⟨rfl, .same hs⟩
      · exact ⟨rfl, hwrite _⟩
      · exact ⟨rfl, .same hs⟩
      · exact ⟨rfl, .same hs⟩

/-- A place at which a call can enter the static mappings. -/
def Pc.enters : Pc → Bool
  | .returned _ | .mmapEnter _ _ | .munmapEnter _ _ | .refEnter _ _ _ | .closeEnter _ => true
  | _ => false

theorem openSession_enters (session : Session) (domain : ℤ) {next : Domain → Pc}
    (hnext : ∀ d, (next d).enters = true) : (openSession session domain next).enters = true := by
  unfold openSession
  split
  · rfl
  · split_ifs
    · exact hnext _
    · rfl

theorem enter_enters (session : Session) (c : Call) : (enter session c).enters = true := by
  cases c with
  | mmap domain fd vaddr offset length flags =>
      simp only [enter]
      split
      · rfl
      · split_ifs
        · exact openSession_enters _ _ fun _ => rfl
        · rfl
        · rfl
  | mmapInternal domain fd vaddr offset length flags raddr =>
      simp only [enter]
      split
      · rfl
      · split_ifs
        · exact openSession_enters _ _ fun _ => rfl
        · rfl
        · rfl
  | munmap domain fd vaddr length =>
      simp only [enter]
      split
      · rfl
      · split_ifs
        · exact openSession_enters _ _ fun _ => rfl
        · rfl
  | munmapInternal domain raddr length =>
      simp only [enter]
      split
      · rfl
      · exact openSession_enters _ _ fun _ => rfl
  | bufferRef domain fd ref =>
      simp only [enter]
      split <;> rfl
  | memClose domain =>
      simp only [enter]
      split <;> rfl

/-- **A call is one operation on the tables**, and it keeps the lifetimes right. -/
theorem callStatic_table (hs : s.Ok) (session : Session) (c : Call) (a : Answer) :
    (callStatic s session c a).1.Ok ∧
      (callStatic s session c a).1.table = (callTable s.table session c a).1 ∧
      (callStatic s session c a).2 = (callTable s.table session c a).2 := by
  have henters := enter_enters session c
  unfold callStatic callTable
  cases hpc : enter session c with
  | returned r =>
      rw [runCall_returned]
      exact ⟨hs, rfl, rfl⟩
  | mmapEnter d map =>
      obtain ⟨s', hrun, hleaves⟩ := mmap_leaves hs d map a
      rw [hrun]
      exact ⟨hleaves.ok, hleaves.table, rfl⟩
  | munmapEnter d key =>
      obtain ⟨s', hrun, hleaves⟩ := munmap_leaves hs d key a
      rw [hrun]
      exact ⟨hleaves.ok, hleaves.table, rfl⟩
  | refEnter d fd ref =>
      obtain ⟨houtcome, hleaves⟩ := bufferRef_leaves hs (d := d) fd ref
      rw [runCall_next rfl, runCall_returned]
      exact ⟨hleaves.ok, hleaves.table, houtcome⟩
  | closeEnter d =>
      have hleaves := Leaves.close (d := d) hs
      rw [runCall_next rfl, runCall_returned]
      exact ⟨hleaves.ok, hleaves.table, rfl⟩
  | _ =>
      rw [hpc] at henters
      cases henters

end Calls

end FastRpc.StaticMap
