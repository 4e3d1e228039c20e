import FastRpc.AppsMem

/-! # Lifetimes of the memory that the DSP asked for

A call of `apps_mem_request_unmap64` keeps a pointer to the node that it found while the lock is
released, and dequeues the node without looking whether it is still there.  Another unmap of the same
address finds the same node, and `apps_mem_deinit` pops it meanwhile, so that both release its buffer and
free it (`released_twice`).

`Watched` keeps for each thread the nodes that were taken off the list since its search.  The lifetimes
are right in every state of a run exactly when every unmap finds its node still there
(`memory_released_once`). -/

namespace FastRpc.AppsMem

open BlockHeap Transition

/-! ### The property and the condition -/

/-- Every node is dequeued and freed once, every buffer released once, and no access reaches a freed
node. -/
def LifetimesOk (s : Store) : Prop := s.heap.Clean ∧ s.bufs.Clean ∧ s.dequeued.Nodup

variable {ι : Type}

/-- A state, and the nodes that were taken off the list since the search of each thread. -/
structure Watched (ι : Type) where
  state : State ι
  since : ι → List ℕ

/-- The node that the next piece of a call takes off the list. -/
def takes (s : Store) : Pc → List ℕ
  | .unmapCalled n => [n]
  | .deinitLoop => s.memList.head?.toList
  | _ => []

/-- The call is before its search. -/
def Pc.searches : Pc → Bool
  | .unmapEnter _ => true
  | _ => false

/-- What a step does to the record. -/
def watch [DecidableEq ι] (w : Watched ι) : Event ι → ι → List ℕ
  | .call _ _ => w.since
  | .next i _ => fun j =>
      if j = i ∧ (w.state.pc i).searches then []
      else w.since j ++ takes w.state.store (w.state.pc i)

/-- One step with its record. -/
def watchedStep [DecidableEq ι] (w : Watched ι) (e : Event ι) : Option (Watched ι) :=
  (step w.state e).map (fun t => ⟨t, watch w e⟩)

/-- Nothing has been taken off. -/
def watchedInit : Watched ι := ⟨init, fun _ => []⟩

/-- An unmap reads its node when nobody has taken it off and freed it since the search, and dequeues it
when nobody has taken it off. -/
def FindsNode (w : Watched ι) : Event ι → Prop
  | .call _ _ => True
  | .next i _ =>
      match w.state.pc i with
      | .unmapFound (some n) => n ∈ w.since i → n ∉ w.state.store.heap.freed
      | .unmapCalled n => n ∉ w.since i
      | _ => True

instance (w : Watched ι) : (e : Event ι) → Decidable (FindsNode w e)
  | .call _ _ => isTrue trivial
  | .next i _ =>
      match h : w.state.pc i with
      | .unmapFound (some n) => decidable_of_iff
          (n ∈ w.since i → n ∉ w.state.store.heap.freed) (by simp only [FindsNode, h])
      | .unmapCalled n => decidable_of_iff (n ∉ w.since i) (by simp only [FindsNode, h])
      | .returned _ | .mapEnter _ | .mapReady _ | .unmapEnter _ | .unmapFound none | .unmapTaken _
      | .unmapReleased _ | .deinitEnter | .deinitLoop | .deinitPopped _ | .deinitReleased _ =>
          isTrue (by simp only [FindsNode, h])

/-! ### The invariant -/

/-- The node that belongs to a call alone. -/
def Pc.own : Pc → Option ℕ
  | .mapReady n | .unmapTaken n | .unmapReleased n | .deinitPopped n | .deinitReleased n => some n
  | _ => none

/-- The node of a call whose buffer is not released. -/
def Pc.holds : Pc → Option ℕ
  | .mapReady n | .unmapTaken n | .deinitPopped n => some n
  | _ => none

/-- The node that a call of `apps_mem_request_unmap64` has found. -/
def Pc.found : Pc → Option ℕ
  | .unmapFound mfree => mfree
  | .unmapCalled n => some n
  | _ => none

/-- The buffer of the node is not released. -/
def Holds (s : State ι) (n : ℕ) : Prop := n ∈ s.store.memList ∨ ∃ i, (s.pc i).holds = some n

/-- The nodes: the listed ones and those of the calls are live, each in one place. -/
structure Nodes (s : State ι) : Prop where
  clean : s.store.heap.Clean
  freedOld : ∀ n ∈ s.store.heap.freed, n < s.store.heap.next
  listed : ∀ n ∈ s.store.memList, s.store.heap.Live n
  nodup : s.store.memList.Nodup
  own : ∀ i n, (s.pc i).own = some n → s.store.heap.Live n ∧ n ∉ s.store.memList
  ownOnce : ∀ i j n, (s.pc i).own = some n → (s.pc j).own = some n → i = j
  dequeuedNodup : s.store.dequeued.Nodup
  dequeued : ∀ n ∈ s.store.dequeued, n < s.store.heap.next ∧ n ∉ s.store.memList
  ready : ∀ i n, s.pc i = .mapReady n → n ∉ s.store.dequeued

/-- The buffers: the nodes that hold one hold different ones, and they are live. -/
structure Buffers (s : State ι) : Prop where
  clean : s.store.bufs.Clean
  freedOld : ∀ b ∈ s.store.bufs.freed, b < s.store.bufs.next
  live : ∀ n b, Holds s n → (s.store.heap.cell n).vapps = some b → s.store.bufs.Live b
  once : ∀ n m b, Holds s n → Holds s m → (s.store.heap.cell n).vapps = some b →
    (s.store.heap.cell m).vapps = some b → n = m

/-- **The invariant**: also, what an unmap has found is on the list or was taken off since. -/
structure Inv (w : Watched ι) : Prop where
  nodes : Nodes w.state
  buffers : Buffers w.state
  found : ∀ i n, (w.state.pc i).found = some n → n ∈ w.state.store.memList ∨ n ∈ w.since i
  since : ∀ i, ∀ n ∈ w.since i, n ∈ w.state.store.dequeued

theorem Pc.own_of_holds {pc : Pc} {n : ℕ} (h : pc.holds = some n) : pc.own = some n := by
  cases pc <;> first | exact h | cases h

theorem Pc.found_of_searches {pc : Pc} (h : pc.searches = true) : pc.found = none := by
  cases pc <;> first | rfl | cases h

section Held

variable {s : State ι}

theorem Nodes.holds_live (h : Nodes s) {n : ℕ} (hn : Holds s n) : s.store.heap.Live n := by
  obtain hn | ⟨j, hn⟩ := hn
  · exact h.listed n hn
  · exact (h.own j n (Pc.own_of_holds hn)).1

/-- The buffers stay right when no node comes to hold one. -/
theorem Buffers.of_holds (h : Buffers s) {t : State ι} (hclean : t.store.bufs.Clean)
    (hfreed : ∀ b ∈ t.store.bufs.freed, b < t.store.bufs.next)
    (hcell : ∀ n, Holds t n → (t.store.heap.cell n).vapps = (s.store.heap.cell n).vapps)
    (hholds : ∀ n, Holds t n → Holds s n)
    (hlive : ∀ n b, Holds t n → (s.store.heap.cell n).vapps = some b → t.store.bufs.Live b) :
    Buffers t where
  clean := hclean
  freedOld := hfreed
  live := fun n b hn hb => hlive n b hn (hcell n hn ▸ hb)
  once := fun n m b hn hm hbn hbm =>
    h.once n m b (hholds n hn) (hholds m hm) (hcell n hn ▸ hbn) (hcell m hm ▸ hbm)

/-- A piece that has no buffer to allocate or to release. -/
theorem Buffers.same (h : Buffers s) {t : State ι} (hbufs : t.store.bufs = s.store.bufs)
    (hcell : ∀ n, Holds t n → (t.store.heap.cell n).vapps = (s.store.heap.cell n).vapps)
    (hholds : ∀ n, Holds t n → Holds s n) : Buffers t := by
  refine h.of_holds (hbufs ▸ h.clean) (hbufs ▸ h.freedOld) hcell hholds ?_
  intro n b hn hb
  rw [hbufs]
  exact h.live n b (hholds n hn) hb

end Held

/-! ### What the pieces do -/

/-- What a piece of a call does when the nodes that it accesses are live. -/
inductive Piece (s : Store) (pc : Pc) : Store → Pc → Prop
  | inspect (b : Bool) (pc' : Pc) (htakes : takes s pc = []) (hown : pc'.own = none)
      (hfound : ∀ n, pc'.found = some n → n ∈ s.memList ∨ pc.found = some n) :
      Piece s pc { s with init := b } pc'
  | fail (bufs : Heap Unit) (nErr : NErr) (info : MemInfo) (htakes : takes s pc = [])
      (hbufs : bufs = s.bufs ∨ bufs = (s.bufs.alloc ()).free s.bufs.next) :
      Piece s pc { s with heap := (s.heap.alloc info).free s.heap.next, bufs := bufs }
        (.returned (some nErr))
  | map (bufs : Heap Unit) (info : MemInfo) (htakes : takes s pc = [])
      (hbufs : (bufs = s.bufs ∧ info.vapps = none) ∨
        bufs = s.bufs.alloc () ∧ info.vapps = some s.bufs.next) :
      Piece s pc { s with heap := s.heap.alloc info, bufs := bufs } (.mapReady s.heap.next)
  | append (n : ℕ) (hpc : pc = .mapReady n) :
      Piece s pc { s with memList := s.memList ++ [n] } (.returned none)
  | take (n : ℕ) (pc' : Pc) (hn : n ∈ s.memList) (htakes : takes s pc = [n])
      (hpc' : pc' = .unmapTaken n ∨ pc' = .deinitPopped n) :
      Piece s pc { s with memList := s.memList.erase n, dequeued := s.dequeued ++ [n] } pc'
  | release (n : ℕ) (bufs : Heap Unit) (pc' : Pc) (hpc : pc.holds = some n)
      (hpc' : pc' = .unmapReleased n ∨ pc' = .deinitReleased n)
      (hbufs : ((s.heap.cell n).vapps = none ∧ bufs = s.bufs) ∨
        ∃ b, (s.heap.cell n).vapps = some b ∧ bufs = s.bufs.free b) :
      Piece s pc { s with bufs := bufs } pc'
  | free (n : ℕ) (pc' : Pc) (hpc : pc = .unmapReleased n ∨ pc = .deinitReleased n)
      (hpc' : pc'.own = none ∧ pc'.found = none) :
      Piece s pc { s with heap := s.heap.free n } pc'

section Pieces

variable {s s' : Store} {pc pc' : Pc} {a : Answer} {n : ℕ}

theorem touch_live (h : s.heap.Live n) : s.touch n = s := by
  unfold Store.touch
  rw [Heap.touch_live h]

theorem findVadsp_live {h : Heap MemInfo} (vadsp : ℕ) {ns : List ℕ} (hl : ∀ n ∈ ns, h.Live n) :
    (findVadsp h vadsp ns).1 = h ∧ ∀ n, (findVadsp h vadsp ns).2 = some n → n ∈ ns := by
  induction ns with
  | nil => exact ⟨rfl, fun _ hn => nomatch hn⟩
  | cons m ns ih =>
      unfold findVadsp
      rw [Heap.touch_live (hl m List.mem_cons_self)]
      dsimp only
      split_ifs
      · refine ⟨rfl, fun n hn => ?_⟩
        rw [← Option.some.inj hn]
        exact List.mem_cons_self
      · obtain ⟨hh, hmem⟩ := ih (fun n hn => hl n (List.mem_cons_of_mem m hn))
        exact ⟨hh, fun n hn => List.mem_cons_of_mem m (hmem n hn)⟩

/-- A call that maps allocates a node, with a buffer or without, and frees them again when it fails. -/
def Mapped (s : Store) (r : Store × Except NErr ℕ) : Prop :=
  ∃ bufs info, match r.2 with
    | .ok n => n = s.heap.next ∧ r.1 = { s with heap := s.heap.alloc info, bufs := bufs } ∧
        ((bufs = s.bufs ∧ info.vapps = none) ∨
          bufs = s.bufs.alloc () ∧ info.vapps = some s.bufs.next)
    | .error _ =>
        r.1 = { s with heap := (s.heap.alloc info).free s.heap.next, bufs := bufs } ∧
          (bufs = s.bufs ∨ bufs = (s.bufs.alloc ()).free s.bufs.next)

theorem mapped_withBuffer (fd : ℤ) (noBuf noFd : NErr) {info : ℕ → MemInfo}
    (hinfo : ∀ b, (info b).vapps = some b) : Mapped s (mapWithBuffer s a fd noBuf noFd info) := by
  unfold mapWithBuffer
  dsimp only
  split_ifs
  · exact ⟨s.bufs.alloc (), info s.bufs.next, rfl, rfl, .inr ⟨rfl, hinfo _⟩⟩
  · exact ⟨(s.bufs.alloc ()).free s.bufs.next, info s.bufs.next, rfl, .inr rfl⟩
  · exact ⟨(s.bufs.alloc ()).free s.bufs.next, info s.bufs.next, rfl, .inr rfl⟩
  · exact ⟨s.bufs, info s.bufs.next, rfl, .inl rfl⟩

theorem mapped_withoutBuffer {info : MemInfo} (hinfo : info.vapps = none) :
    Mapped s (mapWithoutBuffer s a info) := by
  unfold mapWithoutBuffer
  dsimp only
  split_ifs
  · exact ⟨s.bufs, info, rfl, rfl, .inl ⟨rfl, hinfo⟩⟩
  · exact ⟨s.bufs, info, rfl, .inl rfl⟩

theorem mapCall_cases (req : MapRequest) :
    (∃ nErr, mapCall s a req = (s, .error nErr)) ∨ Mapped s (mapCall s a req) := by
  cases req with
  | requestMap64 rflags len =>
      simp only [mapCall, requestMap64]
      split_ifs <;> first
        | exact .inl ⟨_, rfl⟩
        | exact .inr (mapped_withoutBuffer rfl)
        | exact .inr (mapped_withBuffer _ _ _ (fun _ => rfl))
  | shareMap fd size =>
      simp only [mapCall, shareMap]
      split_ifs <;> first
        | exact .inl ⟨_, rfl⟩
        | exact .inr (mapped_withBuffer _ _ _ (fun _ => rfl))

theorem mapEnter_piece {req : MapRequest} (h : advance s a (.mapEnter req) = some (s', pc')) :
    Piece s (.mapEnter req) s' pc' := by
  simp only [advance] at h
  obtain ⟨nErr, heq⟩ | ⟨bufs, info, hmapped⟩ := mapCall_cases (s := s) (a := a) req
  · rw [heq] at h
    cases h
    exact .inspect s.init _ rfl rfl (fun _ hn => nomatch hn)
  · cases hr : mapCall s a req with
    | mk t r =>
        rw [hr] at h hmapped
        cases r with
        | error nErr =>
            obtain ⟨rfl, hbufs⟩ := hmapped
            cases h
            exact .fail bufs nErr info rfl hbufs
        | ok n =>
            obtain ⟨rfl, rfl, hbufs⟩ := hmapped
            cases h
            exact .map bufs info rfl hbufs

theorem releaseBuffer_eq (hlive : s.heap.Live n) : ∃ bufs, releaseBuffer s n = { s with bufs := bufs } ∧
    (((s.heap.cell n).vapps = none ∧ bufs = s.bufs) ∨
      ∃ b, (s.heap.cell n).vapps = some b ∧ bufs = s.bufs.free b) := by
  unfold releaseBuffer
  rw [touch_live hlive]
  cases (s.heap.cell n).vapps with
  | none => exact ⟨s.bufs, rfl, .inl ⟨rfl, rfl⟩⟩
  | some b => exact ⟨s.bufs.free b, rfl, .inr ⟨b, rfl, rfl⟩⟩

/-- **Every piece of a call**, when the nodes of the list and of the call are live and an unmap finds its
node. -/
theorem advance_piece (hlisted : ∀ n ∈ s.memList, s.heap.Live n)
    (hown : ∀ n, pc.own = some n → s.heap.Live n)
    (hread : ∀ n, pc = .unmapFound (some n) → s.heap.Live n)
    (hdequeue : ∀ n, pc = .unmapCalled n → n ∈ s.memList)
    (h : advance s a pc = some (s', pc')) : Piece s pc s' pc' := by
  cases pc with
  | returned nErr => cases h
  | mapEnter req => exact mapEnter_piece h
  | mapReady n =>
      cases h
      have heq : s.append n = { s with memList := s.memList ++ [n] } := by
        unfold Store.append
        rw [Heap.touch_live (hown n rfl), Heap.touchAll_live]
        intro m hm
        exact hlisted m (List.mem_of_getLast? (Option.mem_toList.mp hm))
      rw [heq]
      exact .append n rfl
  | unmapEnter vadsp =>
      cases h
      obtain ⟨hh, hmem⟩ := findVadsp_live vadsp hlisted
      simp only [unmapFind, hh]
      exact .inspect s.init _ rfl rfl (fun n hn => .inl (hmem n hn))
  | unmapFound mfree =>
      cases mfree with
      | none =>
          simp only [advance, unmapRemote] at h
          split_ifs at h <;> cases h <;> exact .inspect s.init _ rfl rfl (fun _ hn => nomatch hn)
      | some n =>
          simp only [advance, unmapRemote, touch_live (hread n rfl)] at h
          split_ifs at h
          · cases h
            exact .inspect s.init _ rfl rfl (fun _ hn => .inr hn)
          · cases h
            exact .inspect s.init _ rfl rfl (fun _ hn => nomatch hn)
  | unmapCalled n =>
      cases h
      simp only [unmapDequeue, Heap.touch_live (hlisted n (hdequeue n rfl))]
      exact .take n _ (hdequeue n rfl) rfl (.inl rfl)
  | unmapTaken n =>
      cases h
      obtain ⟨bufs, heq, hbufs⟩ := releaseBuffer_eq (hown n rfl)
      rw [heq]
      exact .release n bufs _ rfl (.inl rfl) hbufs
  | unmapReleased n =>
      cases h
      exact .free n _ (.inl rfl) ⟨rfl, rfl⟩
  | deinitEnter =>
      cases h
      refine .inspect s.init _ rfl ?_ ?_
      · split_ifs <;> rfl
      · intro n hn
        split_ifs at hn <;> cases hn
  | deinitLoop =>
      cases hl : s.memList with
      | nil =>
          have hpop : deinitPop s = (s, none) := by simp only [deinitPop, hl]
          simp only [advance, hpop] at h
          cases h
          exact .inspect false _ (by rw [takes, hl]; rfl) rfl (fun _ hn => nomatch hn)
      | cons n ns =>
          have hhead : n ∈ s.memList := hl ▸ List.mem_cons_self
          have htouch : (s.heap.touch n).touchAll ns.head?.toList = s.heap := by
            rw [Heap.touch_live (hlisted n hhead), Heap.touchAll_live]
            intro m hm
            refine hlisted m ?_
            rw [hl]
            exact List.mem_cons_of_mem n (List.mem_of_mem_head? (Option.mem_toList.mp hm))
          have hpiece := Piece.take n (.deinitPopped n) hhead
            (show takes s .deinitLoop = [n] by rw [takes, hl]; rfl) (.inr rfl)
          rw [hl, List.erase_cons_head] at hpiece
          simp only [advance, deinitPop, hl, htouch] at h
          cases h
          exact hpiece
  | deinitPopped n =>
      cases h
      obtain ⟨bufs, heq, hbufs⟩ := releaseBuffer_eq (hown n rfl)
      rw [heq]
      exact .release n bufs _ rfl (.inr rfl) hbufs
  | deinitReleased n =>
      cases h
      exact .free n _ (.inr rfl) ⟨rfl, rfl⟩

end Pieces

/-! ### Steps -/

section Steps

variable [DecidableEq ι] {s : State ι} {i : ι} {s' : Store} {pc' : Pc}

/-- What `Nodes` says of the calls, after a step of thread `i`. -/
theorem Nodes.next (h : Nodes s) (hclean : s'.heap.Clean)
    (hfreed : ∀ n ∈ s'.heap.freed, n < s'.heap.next) (hlisted : ∀ n ∈ s'.memList, s'.heap.Live n)
    (hnodup : s'.memList.Nodup) (hdequeuedNodup : s'.dequeued.Nodup)
    (hdequeued : ∀ n ∈ s'.dequeued, n < s'.heap.next ∧ n ∉ s'.memList)
    (hother : ∀ j, j ≠ i → ∀ n, (s.pc j).own = some n → s'.heap.Live n ∧ n ∉ s'.memList ∧
      (s.pc j = .mapReady n → n ∉ s'.dequeued))
    (hown : ∀ n, pc'.own = some n → s'.heap.Live n ∧ n ∉ s'.memList ∧
      (pc' = .mapReady n → n ∉ s'.dequeued))
    (honce : ∀ n, pc'.own = some n → ∀ j, j ≠ i → (s.pc j).own ≠ some n) :
    Nodes (⟨s', Function.update s.pc i pc'⟩ : State ι) := by
  have hall : ∀ j n, (Function.update s.pc i pc' j).own = some n → s'.heap.Live n ∧
      n ∉ s'.memList ∧ (Function.update s.pc i pc' j = .mapReady n → n ∉ s'.dequeued) :=
    Threads.forall_update (P := fun _ (pc : Pc) => ∀ n, pc.own = some n → s'.heap.Live n ∧
      n ∉ s'.memList ∧ (pc = .mapReady n → n ∉ s'.dequeued)) hown hother
  have hready : ∀ j n, Function.update s.pc i pc' j = .mapReady n → n ∉ s'.dequeued :=
    fun j n hn => (hall j n (by rw [hn]; rfl)).2.2 hn
  refine ⟨hclean, hfreed, hlisted, hnodup, fun j n hn => ⟨(hall j n hn).1, (hall j n hn).2.1⟩, ?_,
    hdequeuedNodup, hdequeued, hready⟩
  intro a b n ha hb
  dsimp only at ha hb
  rcases eq_or_ne a i with rfl | hai
  · by_contra hab
    rw [Function.update_self] at ha
    rw [Function.update_of_ne (Ne.symm hab)] at hb
    exact honce n ha b (Ne.symm hab) hb
  · rw [Function.update_of_ne hai] at ha
    rcases eq_or_ne b i with rfl | hbi
    · rw [Function.update_self] at hb
      exact absurd ha (honce n hb a hai)
    · rw [Function.update_of_ne hbi] at hb
      exact h.ownOnce a b n ha hb

/-- **A piece keeps the nodes right.** -/
theorem Nodes.piece (h : Nodes s) (hp : Piece s.store (s.pc i) s' pc') :
    Nodes (⟨s', Function.update s.pc i pc'⟩ : State ι) := by
  have hkeep : ∀ j n, (s.pc j).own = some n → s.store.heap.Live n ∧ n ∉ s.store.memList ∧
      (s.pc j = .mapReady n → n ∉ s.store.dequeued) :=
    fun j n hn => ⟨(h.own j n hn).1, (h.own j n hn).2, h.ready j n⟩
  have hnew : s.store.heap.next ∉ s.store.heap.freed := fun hmem =>
    absurd (h.freedOld _ hmem) (lt_irrefl _)
  have hlisted : s.store.heap.next ∉ s.store.memList := fun hmem =>
    absurd (h.listed _ hmem).1 (lt_irrefl _)
  have hdequeued : s.store.heap.next ∉ s.store.dequeued := fun hmem =>
    absurd (h.dequeued _ hmem).1 (lt_irrefl _)
  have hnone : ∀ {pc : Pc} {P : ℕ → Prop}, pc.own = none → ∀ n, pc.own = some n → P n := by
    intro pc P hpc n hn
    rw [hpc] at hn
    cases hn
  cases hp with
  | inspect b _ _ hown _ =>
      exact h.next h.clean h.freedOld h.listed h.nodup h.dequeuedNodup h.dequeued
        (fun j _ => hkeep j) (hnone hown) (hnone hown)
  | fail bufs nErr info _ _ =>
      have hlive : ∀ n, s.store.heap.Live n →
          ((s.store.heap.alloc info).free s.store.heap.next).Live n := by
        intro n hn
        refine Heap.live_freeAll (Heap.live_alloc info hn) ?_
        rw [List.mem_singleton]
        exact hn.1.ne
      refine h.next ?_ ?_ (fun n hn => hlive n (h.listed n hn)) h.nodup h.dequeuedNodup
        (fun n hn => ⟨Nat.lt_succ_of_lt (h.dequeued n hn).1, (h.dequeued n hn).2⟩)
        (fun j _ n hn => ⟨hlive n (hkeep j n hn).1, (hkeep j n hn).2⟩) (hnone rfl) (hnone rfl)
      · exact (h.clean.alloc info).freeAll (List.nodup_singleton _)
          (by simpa using ⟨Nat.lt_succ_self _, hnew⟩)
      · intro n hn
        obtain hn | hn := List.mem_append.mp hn
        · exact Nat.lt_succ_of_lt (h.freedOld n hn)
        · rw [List.mem_singleton.mp hn]
          exact Nat.lt_succ_self _
  | map bufs info _ _ =>
      have hlive : ∀ n, s.store.heap.Live n → (s.store.heap.alloc info).Live n :=
        fun n hn => Heap.live_alloc info hn
      refine h.next (h.clean.alloc info) (fun n hn => Nat.lt_succ_of_lt (h.freedOld n hn))
        (fun n hn => hlive n (h.listed n hn)) h.nodup h.dequeuedNodup
        (fun n hn => ⟨Nat.lt_succ_of_lt (h.dequeued n hn).1, (h.dequeued n hn).2⟩)
        (fun j _ n hn => ⟨hlive n (hkeep j n hn).1, (hkeep j n hn).2⟩) ?_ ?_
      · intro n hn
        obtain rfl := Option.some.inj hn
        exact ⟨⟨Nat.lt_succ_self _, hnew⟩, hlisted, fun _ => hdequeued⟩
      · intro n hn j _ hj
        obtain rfl := Option.some.inj hn
        exact absurd (h.own j _ hj).1.1 (lt_irrefl _)
  | append n hpc =>
      have hn : (s.pc i).own = some n := by rw [hpc]; rfl
      have hne : ∀ j, j ≠ i → ∀ m, (s.pc j).own = some m → m ≠ n := by
        rintro j hji m hm rfl
        exact hji (h.ownOnce j i m hm hn)
      refine h.next h.clean h.freedOld ?_ ?_ h.dequeuedNodup ?_ ?_ (hnone rfl) (hnone rfl)
      · intro m hm
        obtain hm | hm := List.mem_append.mp hm
        · exact h.listed m hm
        · exact List.mem_singleton.mp hm ▸ (h.own i n hn).1
      · refine List.nodup_append.mpr ⟨h.nodup, List.nodup_singleton n, ?_⟩
        rintro m hm _ hm' rfl
        exact (h.own i n hn).2 (List.mem_singleton.mp hm' ▸ hm)
      · intro m hm
        refine ⟨(h.dequeued m hm).1, fun hmem => ?_⟩
        obtain hmem | hmem := List.mem_append.mp hmem
        · exact (h.dequeued m hm).2 hmem
        · exact h.ready i n hpc (List.mem_singleton.mp hmem ▸ hm)
      · intro j hji m hm
        refine ⟨(hkeep j m hm).1, fun hmem => ?_, (hkeep j m hm).2.2⟩
        obtain hmem | hmem := List.mem_append.mp hmem
        · exact (hkeep j m hm).2.1 hmem
        · exact hne j hji m hm (List.mem_singleton.mp hmem)
  | take n _ hn _ hpc' =>
      have hnot : n ∉ s.store.memList.erase n := fun hmem => (h.nodup.mem_erase_iff.mp hmem).1 rfl
      have hsub : ∀ m, m ∈ s.store.memList.erase n → m ∈ s.store.memList := fun m hm =>
        List.mem_of_mem_erase hm
      have hown : ∀ m, pc'.own = some m → m = n := by
        intro m hm
        obtain rfl | rfl := hpc' <;> exact (Option.some.inj hm).symm
      refine h.next h.clean h.freedOld (fun m hm => h.listed m (hsub m hm)) (h.nodup.erase n) ?_ ?_ ?_
        ?_ ?_
      · refine List.nodup_append.mpr ⟨h.dequeuedNodup, List.nodup_singleton n, ?_⟩
        rintro m hm _ hm' rfl
        exact (h.dequeued m hm).2 (List.mem_singleton.mp hm' ▸ hn)
      · intro m hm
        obtain hm | hm := List.mem_append.mp hm
        · exact ⟨(h.dequeued m hm).1, fun hmem => (h.dequeued m hm).2 (hsub m hmem)⟩
        · obtain rfl := List.mem_singleton.mp hm
          exact ⟨(h.listed m hn).1, hnot⟩
      · intro j _ m hm
        refine ⟨(hkeep j m hm).1, fun hmem => (hkeep j m hm).2.1 (hsub m hmem), fun hready hmem => ?_⟩
        obtain hmem | hmem := List.mem_append.mp hmem
        · exact (hkeep j m hm).2.2 hready hmem
        · exact (hkeep j m hm).2.1 (List.mem_singleton.mp hmem ▸ hn)
      · intro m hm
        obtain rfl := hown m hm
        refine ⟨h.listed m hn, hnot, fun hready => ?_⟩
        obtain rfl | rfl := hpc' <;> cases hready
      · intro m hm j _ hj
        obtain rfl := hown m hm
        exact (h.own j m hj).2 hn
  | release n bufs _ hpc hpc' _ =>
      have hn := Pc.own_of_holds hpc
      have hown : ∀ m, pc'.own = some m → m = n := by
        intro m hm
        obtain rfl | rfl := hpc' <;> exact (Option.some.inj hm).symm
      refine h.next h.clean h.freedOld h.listed h.nodup h.dequeuedNodup h.dequeued
        (fun j _ => hkeep j) ?_ ?_
      · intro m hm
        obtain rfl := hown m hm
        refine ⟨(h.own i m hn).1, (h.own i m hn).2, fun hready => ?_⟩
        obtain rfl | rfl := hpc' <;> cases hready
      · intro m hm j hji hj
        obtain rfl := hown m hm
        exact hji (h.ownOnce j i m hj hn)
  | free n _ hpc hpc' =>
      have hn : (s.pc i).own = some n := by
        obtain hpc | hpc := hpc <;> rw [hpc] <;> rfl
      obtain ⟨hlive, hunlisted⟩ := h.own i n hn
      have hother : ∀ m, s.store.heap.Live m → m ≠ n → (s.store.heap.free n).Live m := by
        intro m hm hne
        exact Heap.live_freeAll hm (by rwa [List.mem_singleton])
      refine h.next (h.clean.freeAll (List.nodup_singleton n) (by simpa using hlive)) ?_ ?_ h.nodup
        h.dequeuedNodup h.dequeued ?_ (hnone hpc'.1) (hnone hpc'.1)
      · intro m hm
        obtain hm | hm := List.mem_append.mp hm
        · exact h.freedOld m hm
        · exact List.mem_singleton.mp hm ▸ hlive.1
      · rintro m hm
        refine hother m (h.listed m hm) ?_
        rintro rfl
        exact hunlisted hm
      · intro j hji m hm
        refine ⟨hother m (hkeep j m hm).1 ?_, (hkeep j m hm).2⟩
        rintro rfl
        exact hji (h.ownOnce j i m hm hn)

/-- Who holds a buffer after a step of thread `i`. -/
theorem holds_next {m : ℕ} (h : Holds (⟨s', Function.update s.pc i pc'⟩ : State ι) m) :
    m ∈ s'.memList ∨ pc'.holds = some m ∨ ∃ j, j ≠ i ∧ (s.pc j).holds = some m := by
  obtain h | ⟨j, h⟩ := h
  · exact .inl h
  · dsimp only at h
    rcases eq_or_ne j i with rfl | hne
    · rw [Function.update_self] at h
      exact .inr (.inl h)
    · rw [Function.update_of_ne hne] at h
      exact .inr (.inr ⟨j, hne, h⟩)

/-- No node comes to hold a buffer when the listed ones and that of the call held one before. -/
theorem holds_back (hlist : ∀ n ∈ s'.memList, Holds s n) (hpc : ∀ n, pc'.holds = some n → Holds s n)
    {m : ℕ} (h : Holds (⟨s', Function.update s.pc i pc'⟩ : State ι) m) : Holds s m := by
  obtain h | h | ⟨j, _, h⟩ := holds_next h
  · exact hlist m h
  · exact hpc m h
  · exact .inr ⟨j, h⟩

/-- A new node holds the buffer that was allocated for it, or none. -/
theorem Buffers.map (h : Buffers s) {bufs : Heap Unit} {info : MemInfo}
    (hbufs : (bufs = s.store.bufs ∧ info.vapps = none) ∨
      bufs = s.store.bufs.alloc () ∧ info.vapps = some s.store.bufs.next) :
    Buffers (⟨{ s.store with heap := s.store.heap.alloc info, bufs := bufs },
      Function.update s.pc i (.mapReady s.store.heap.next)⟩ : State ι) := by
  have hnew : s.store.bufs.next ∉ s.store.bufs.freed := fun hmem =>
    absurd (h.freedOld _ hmem) (lt_irrefl _)
  -- a node with a buffer `b` is the new one, or held `b` before
  have hheld : ∀ m b, Holds (⟨{ s.store with heap := s.store.heap.alloc info, bufs := bufs },
      Function.update s.pc i (.mapReady s.store.heap.next)⟩ : State ι) m →
      ((s.store.heap.alloc info).cell m).vapps = some b →
      (m = s.store.heap.next ∧ info.vapps = some b) ∨
        Holds s m ∧ (s.store.heap.cell m).vapps = some b := by
    intro m b hm hb
    rcases eq_or_ne m s.store.heap.next with rfl | hne
    · unfold Heap.alloc at hb
      dsimp only at hb
      rw [Function.update_self] at hb
      exact .inl ⟨rfl, hb⟩
    · unfold Heap.alloc at hb
      dsimp only at hb
      rw [Function.update_of_ne hne] at hb
      refine .inr ⟨?_, hb⟩
      obtain hm | hm | ⟨j, _, hm⟩ := holds_next hm
      · exact .inl hm
      · exact absurd (Option.some.inj hm).symm hne
      · exact .inr ⟨j, hm⟩
  have hlive : ∀ b, s.store.bufs.Live b → bufs.Live b := by
    intro b hb
    obtain ⟨rfl, _⟩ | ⟨rfl, _⟩ := hbufs
    · exact hb
    · exact Heap.live_alloc () hb
  have hfresh : ∀ b, info.vapps = some b → bufs.Live b ∧ ¬ s.store.bufs.Live b := by
    intro b hb
    obtain ⟨_, hvapps⟩ | ⟨rfl, hvapps⟩ := hbufs
    · rw [hvapps] at hb
      cases hb
    · obtain rfl := Option.some.inj (hvapps.symm.trans hb)
      exact ⟨⟨Nat.lt_succ_self _, hnew⟩, fun hlive => lt_irrefl _ hlive.1⟩
  refine ⟨?_, ?_, ?_, ?_⟩
  · obtain ⟨rfl, _⟩ | ⟨rfl, _⟩ := hbufs
    · exact h.clean
    · exact h.clean.alloc ()
  · obtain ⟨rfl, _⟩ | ⟨rfl, _⟩ := hbufs
    · exact h.freedOld
    · exact fun b hb => Nat.lt_succ_of_lt (h.freedOld b hb)
  · intro m b hm hb
    obtain ⟨_, hinfo⟩ | ⟨hm, hb⟩ := hheld m b hm hb
    · exact (hfresh b hinfo).1
    · exact hlive b (h.live m b hm hb)
  · intro m n b hm hn hbm hbn
    obtain ⟨rfl, hinfo⟩ | ⟨hm, hbm⟩ := hheld m b hm hbm
    · obtain ⟨rfl, _⟩ | ⟨hn, hbn⟩ := hheld n b hn hbn
      · rfl
      · exact absurd (h.live n b hn hbn) (hfresh b hinfo).2
    · obtain ⟨rfl, hinfo⟩ | ⟨hn, hbn⟩ := hheld n b hn hbn
      · exact absurd (h.live m b hm hbm) (hfresh b hinfo).2
      · exact h.once m n b hm hn hbm hbn

/-- A node whose buffer is released does not hold it any more. -/
theorem Buffers.release (h : Buffers s) (hnodes : Nodes s) {n : ℕ} {bufs : Heap Unit}
    (hpc : (s.pc i).holds = some n) (hpc' : pc' = .unmapReleased n ∨ pc' = .deinitReleased n)
    (hbufs : ((s.store.heap.cell n).vapps = none ∧ bufs = s.store.bufs) ∨
      ∃ b, (s.store.heap.cell n).vapps = some b ∧ bufs = s.store.bufs.free b) :
    Buffers (⟨{ s.store with bufs := bufs }, Function.update s.pc i pc'⟩ : State ι) := by
  have hown := Pc.own_of_holds hpc
  have hn : Holds s n := .inr ⟨i, hpc⟩
  have hholds : ∀ m, Holds (⟨{ s.store with bufs := bufs }, Function.update s.pc i pc'⟩ : State ι) m →
      Holds s m ∧ m ≠ n := by
    intro m hm
    obtain hm | hm | ⟨j, hji, hm⟩ := holds_next hm
    · refine ⟨.inl hm, ?_⟩
      rintro rfl
      exact (hnodes.own i m hown).2 hm
    · obtain rfl | rfl := hpc' <;> cases hm
    · refine ⟨.inr ⟨j, hm⟩, ?_⟩
      rintro rfl
      exact hji (hnodes.ownOnce j i m (Pc.own_of_holds hm) hown)
  obtain ⟨_, rfl⟩ | ⟨b, hb, rfl⟩ := hbufs
  · exact h.same rfl (fun _ _ => rfl) (fun m hm => (hholds m hm).1)
  · have hlive := h.live n b hn hb
    refine h.of_holds (h.clean.freeAll (List.nodup_singleton b) (by simpa using hlive)) ?_
      (fun _ _ => rfl) (fun m hm => (hholds m hm).1) ?_
    · intro c hc
      obtain hc | hc := List.mem_append.mp hc
      · exact h.freedOld c hc
      · rw [List.mem_singleton.mp hc]
        exact hlive.1
    · intro m c hm hc
      refine Heap.live_freeAll (h.live m c (hholds m hm).1 hc) ?_
      rw [List.mem_singleton]
      rintro rfl
      exact (hholds m hm).2 (h.once m n c (hholds m hm).1 hn hc hb)

/-- **A piece keeps the buffers right.** -/
theorem Buffers.piece (h : Buffers s) (hnodes : Nodes s) (hp : Piece s.store (s.pc i) s' pc') :
    Buffers (⟨s', Function.update s.pc i pc'⟩ : State ι) := by
  have hlisted : ∀ n ∈ s.store.memList, Holds s n := fun _ hn => .inl hn
  have hnone : ∀ {pc : Pc}, pc.own = none → ∀ n, pc.holds = some n → Holds s n := by
    intro pc hpc n hn
    rw [Pc.own_of_holds hn] at hpc
    cases hpc
  have hold : ∀ {m : ℕ} (info : MemInfo), Holds s m →
      ((s.store.heap.alloc info).cell m).vapps = (s.store.heap.cell m).vapps := by
    intro m info hm
    have hne : m ≠ s.store.heap.next := (hnodes.holds_live hm).1.ne
    unfold Heap.alloc
    dsimp only
    rw [Function.update_of_ne hne]
  have hnew : s.store.bufs.next ∉ s.store.bufs.freed := fun hmem =>
    absurd (h.freedOld _ hmem) (lt_irrefl _)
  cases hp with
  | inspect b _ _ hown _ =>
      exact h.same rfl (fun _ _ => rfl) (fun _ hm => holds_back hlisted (hnone hown) hm)
  | fail bufs nErr info _ hbufs =>
      have hholds : ∀ {m : ℕ}, Holds (⟨{ s.store with
          heap := (s.store.heap.alloc info).free s.store.heap.next, bufs := bufs },
          Function.update s.pc i (.returned (some nErr))⟩ : State ι) m → Holds s m :=
        fun hm => holds_back hlisted (hnone (show (Pc.returned _).own = none from rfl)) hm
      obtain rfl | rfl := hbufs
      · exact h.same rfl (fun _ hm => hold info (hholds hm)) (fun _ hm => hholds hm)
      · refine h.of_holds ?_ ?_ (fun _ hm => hold info (hholds hm)) (fun _ hm => hholds hm) ?_
        · exact (h.clean.alloc ()).freeAll (List.nodup_singleton _)
            (by simpa using ⟨Nat.lt_succ_self _, hnew⟩)
        · intro b hb
          obtain hb | hb := List.mem_append.mp hb
          · exact Nat.lt_succ_of_lt (h.freedOld b hb)
          · rw [List.mem_singleton.mp hb]
            exact Nat.lt_succ_self _
        · intro m b hm hb
          have hlive := h.live m b (hholds hm) hb
          refine Heap.live_freeAll (Heap.live_alloc () hlive) ?_
          rw [List.mem_singleton]
          exact hlive.1.ne
  | map bufs info _ hbufs => exact h.map hbufs
  | append n hpc =>
      have hn : Holds s n := .inr ⟨i, by rw [hpc]; rfl⟩
      refine h.same rfl (fun _ _ => rfl) (fun m hm => holds_back ?_ (hnone rfl) hm)
      intro m hm
      obtain hm | hm := List.mem_append.mp hm
      · exact hlisted m hm
      · exact List.mem_singleton.mp hm ▸ hn
  | take n _ hn _ hpc' =>
      refine h.same rfl (fun _ _ => rfl) (fun m hm => holds_back ?_ ?_ hm)
      · exact fun m hm => hlisted m (List.mem_of_mem_erase hm)
      · intro m hm
        obtain rfl | rfl := hpc' <;> exact .inl (Option.some.inj hm ▸ hn)
  | release n bufs _ hpc hpc' hbufs => exact h.release hnodes hpc hpc' hbufs
  | free n _ _ hpc' =>
      exact h.same rfl (fun _ _ => rfl) (fun _ hm => holds_back hlisted (hnone hpc'.1) hm)

end Steps

/-! ### Runs -/

section Runs

variable {w w' : Watched ι} {e : Event ι}

/-- The piece only takes off the list what it records as dequeued. -/
theorem Piece.dequeued {s s' : Store} {pc pc' : Pc} (h : Piece s pc s' pc') :
    s'.dequeued = s.dequeued ++ takes s pc := by
  cases h with
  | inspect _ _ htakes _ _ => rw [htakes, List.append_nil]
  | fail _ _ _ htakes _ => rw [htakes, List.append_nil]
  | map _ _ htakes _ => rw [htakes, List.append_nil]
  | append n hpc => rw [hpc]; exact (List.append_nil _).symm
  | take n _ _ htakes _ => rw [htakes]
  | release n _ _ hpc _ _ =>
      cases pc <;> first | exact (List.append_nil _).symm | cases hpc
  | free n _ hpc _ => obtain rfl | rfl := hpc <;> exact (List.append_nil _).symm

/-- A node stays on the list unless the piece takes it off. -/
theorem Piece.stays {s s' : Store} {pc pc' : Pc} {n : ℕ} (h : Piece s pc s' pc')
    (hn : n ∈ s.memList) : n ∈ s'.memList ∨ n ∈ takes s pc := by
  cases h with
  | append m _ => exact .inl (List.mem_append_left _ hn)
  | take m _ _ htakes _ =>
      rcases eq_or_ne n m with rfl | hne
      · exact .inr (htakes ▸ List.mem_singleton_self n)
      · exact .inl ((List.mem_erase_of_ne hne).mpr hn)
  | _ => exact .inl hn

/-- What the next piece has found is on the list, or the call had found it before. -/
theorem Piece.found {s s' : Store} {pc pc' : Pc} {n : ℕ} (h : Piece s pc s' pc')
    (hn : pc'.found = some n) : n ∈ s'.memList ∨ pc.found = some n := by
  cases h with
  | inspect _ _ _ _ hfound => exact hfound n hn
  | take _ _ _ _ hpc' => obtain rfl | rfl := hpc' <;> cases hn
  | release _ _ _ _ hpc' _ => obtain rfl | rfl := hpc' <;> cases hn
  | free _ _ _ hpc' =>
      rw [hpc'.2] at hn
      cases hn
  | _ => cases hn

theorem nodes_init : Nodes (init : State ι) where
  clean := Heap.clean_empty _
  freedOld := fun _ hn => absurd hn List.not_mem_nil
  listed := fun _ hn => absurd hn List.not_mem_nil
  nodup := List.nodup_nil
  own := fun _ _ hn => nomatch hn
  ownOnce := fun _ _ _ hn => nomatch hn
  dequeuedNodup := List.nodup_nil
  dequeued := fun _ hn => absurd hn List.not_mem_nil
  ready := fun _ _ hn => nomatch hn

theorem buffers_init : Buffers (init : State ι) := by
  have hholds : ∀ n, ¬ Holds (init : State ι) n := by
    intro n hn
    obtain hn | ⟨i, hn⟩ := hn
    · exact absurd hn List.not_mem_nil
    · cases hn
  exact ⟨Heap.clean_empty _, fun _ hb => absurd hb List.not_mem_nil,
    fun n _ hn => absurd hn (hholds n), fun n _ _ hn => absurd hn (hholds n)⟩

theorem inv_init : Inv (watchedInit : Watched ι) :=
  ⟨nodes_init, buffers_init, fun _ _ hn => absurd hn (Option.some_ne_none _).symm,
    fun _ _ hn => absurd hn List.not_mem_nil⟩

theorem Inv.lifetimesOk (h : Inv w) : LifetimesOk w.state.store :=
  ⟨h.nodes.clean, h.buffers.clean, h.nodes.dequeuedNodup⟩

/-- A piece that meets the condition. -/
theorem Inv.piece (h : Inv w) {i : ι} {a : Answer} {s' : Store} {pc' : Pc}
    (hC : FindsNode w (.next i a))
    (hadv : advance w.state.store a (w.state.pc i) = some (s', pc')) :
    Piece w.state.store (w.state.pc i) s' pc' := by
  apply advance_piece h.nodes.listed (fun n hn => (h.nodes.own i n hn).1) _ _ hadv
  · intro n hpc
    simp only [FindsNode, hpc] at hC
    obtain hn | hn := h.found i n (by rw [hpc]; rfl)
    · exact h.nodes.listed n hn
    · exact ⟨(h.nodes.dequeued n (h.since i n hn)).1, hC hn⟩
  · intro n hpc
    simp only [FindsNode, hpc] at hC
    exact (h.found i n (by rw [hpc]; rfl)).resolve_right hC

variable [DecidableEq ι]

theorem step_cases {s t : State ι} (h : step s e = some t) :
    (∃ i c nErr, e = .call i c ∧ s.pc i = .returned nErr ∧
      t = ⟨s.store, Function.update s.pc i (enter c)⟩) ∨
    ∃ i a s' pc', e = .next i a ∧ advance s.store a (s.pc i) = some (s', pc') ∧
      t = ⟨s', Function.update s.pc i pc'⟩ := by
  cases e with
  | call i c =>
      simp only [step] at h
      split at h
      · next nErr hpc => exact .inl ⟨i, c, nErr, rfl, hpc, (Option.some.inj h).symm⟩
      · cases h
  | next i a =>
      obtain ⟨⟨s', pc'⟩, hadv, rfl⟩ := Option.map_eq_some_iff.mp h
      exact .inr ⟨i, a, s', pc', rfl, hadv, rfl⟩

theorem enter_piece (s : Store) (nErr : Option NErr) (c : Call) :
    Piece s (.returned nErr) s (enter c) := by
  refine .inspect s.init _ rfl ?_ ?_
  · cases c <;> rfl
  · intro n hn
    cases c <;> cases hn

/-- **A step that meets the condition keeps the invariant.** -/
theorem Inv.step (h : Inv w) (hC : FindsNode w e) (ht : watchedStep w e = some w') : Inv w' := by
  obtain ⟨t, hstep, rfl⟩ := Option.map_eq_some_iff.mp ht
  obtain ⟨i, c, nErr, rfl, hpc, rfl⟩ | ⟨i, a, s', pc', rfl, hadv, rfl⟩ := step_cases hstep
  · have hp : Piece w.state.store (w.state.pc i) w.state.store (enter c) := by
      rw [hpc]
      exact enter_piece _ nErr c
    refine ⟨h.nodes.piece hp, h.buffers.piece h.nodes hp, ?_, h.since⟩
    apply Threads.forall_update (P := fun j (pc : Pc) => ∀ n, pc.found = some n →
      n ∈ w.state.store.memList ∨ n ∈ w.since j) _ (fun j _ => h.found j)
    intro n hn
    refine (hp.found hn).imp_right fun hfound => ?_
    rw [hpc] at hfound
    cases hfound
  · have hp := h.piece hC hadv
    have hrecord : ∀ j n, (w.state.pc j).found = some n →
        n ∈ s'.memList ∨ n ∈ watch w (.next i a) j := by
      intro j n hn
      have hsearch : ¬ (j = i ∧ (w.state.pc i).searches = true) := by
        rintro ⟨rfl, hs⟩
        rw [Pc.found_of_searches hs] at hn
        cases hn
      simp only [watch, if_neg hsearch, List.mem_append]
      obtain hn | hn := h.found j n hn
      · exact (hp.stays hn).imp_right .inr
      · exact .inr (.inl hn)
    refine ⟨h.nodes.piece hp, h.buffers.piece h.nodes hp, ?_, ?_⟩
    · apply Threads.forall_update (P := fun j (pc : Pc) => ∀ n, pc.found = some n →
        n ∈ s'.memList ∨ n ∈ watch w (.next i a) j) _ (fun j _ => hrecord j)
      intro n hn
      exact (hp.found hn).elim .inl (hrecord i n)
    · intro j n hn
      rw [hp.dequeued]
      simp only [watch] at hn
      split_ifs at hn
      · cases hn
      · exact List.mem_append.mpr ((List.mem_append.mp hn).imp_left (h.since j n))

/-- **A step that does not meet it breaks a lifetime.** -/
theorem Inv.breaks (h : Inv w) (hC : ¬ FindsNode w e) (ht : watchedStep w e = some w') :
    ¬ LifetimesOk w'.state.store := by
  obtain ⟨t, hstep, rfl⟩ := Option.map_eq_some_iff.mp ht
  obtain ⟨i, c, nErr, rfl, hpc, rfl⟩ | ⟨i, a, s', pc', rfl, hadv, rfl⟩ := step_cases hstep
  · exact absurd trivial hC
  · dsimp only
    cases hpc : w.state.pc i with
    | unmapFound mfree =>
        cases mfree with
        | none => exact absurd (by simp only [FindsNode, hpc]) hC
        | some n =>
            simp only [FindsNode, hpc, Classical.not_imp, not_not] at hC
            have hstale := Heap.touch_stale hC.2
            rw [hpc] at hadv
            simp only [advance, unmapRemote] at hadv
            intro hok
            split_ifs at hadv <;> cases hadv <;> exact hstale hok.1.2
    | unmapCalled n =>
        simp only [FindsNode, hpc, not_not] at hC
        rw [hpc] at hadv
        cases hadv
        rintro ⟨_, _, hnodup⟩
        exact (List.nodup_append.mp hnodup).2.2 n (h.since i n hC) n (List.mem_singleton_self n) rfl
    | _ => exact absurd (by simp only [FindsNode, hpc]) hC

/-- **Every node and buffer is released once.** In every run of any number of threads that call the
functions, every node is dequeued and freed once, every buffer released once, and no access reaches a
freed node, exactly when every unmap finds its node still there. -/
theorem memory_released_once {es : List (Event ι)} {t : State ι} (h : run step init es = some t) :
    Along step (fun s => LifetimesOk s.store) (init : State ι) es ↔
      Guarded watchedStep FindsNode (watchedInit : Watched ι) es := by
  have hforget : ∀ (w : Watched ι) e, (watchedStep w e).map Watched.state = step w.state e := by
    intro w e
    simp [watchedStep, Function.comp_def]
  have hrun := run_forget hforget (watchedInit : Watched ι) es
  obtain ⟨w, hw, _⟩ := Option.map_eq_some_iff.mp (hrun.trans h)
  exact (along_forget hforget).symm.trans
    (along_iff_guarded (fun _ _ _ h hC ht => h.step hC ht) (fun _ h => h.lifetimesOk)
      (fun _ _ _ h hC ht => h.breaks hC ht) inv_init hw)

/-- Everything succeeds, and the buffer is at address `0x4000` of the DSP. -/
def succeeds : Answer := ⟨0, false, false, true, true, 5, 0, 0x4000, 0, false⟩

/-- A thread maps a buffer of 4096 bytes, unmaps it, and deinitializes the list. -/
theorem memory_released_once_unmap :
    Along step (fun s => LifetimesOk s.store) (init : State (Fin 1))
      [.call 0 (.map (.requestMap64 0 4096)), .next 0 succeeds, .next 0 succeeds,
        .call 0 (.requestUnmap64 0x4000), .next 0 succeeds, .next 0 succeeds, .next 0 succeeds,
        .next 0 succeeds, .next 0 succeeds, .call 0 .deinit, .next 0 succeeds, .next 0 succeeds] :=
  (memory_released_once rfl).mpr (by decide +kernel)

/-- Two threads unmap the same address, and both find the node before either dequeues it: its buffer is
released twice and it is freed twice. -/
theorem released_twice :
    ∃ t, run step (init : State (Fin 2))
      [.call 0 (.map (.requestMap64 0 4096)), .next 0 succeeds, .next 0 succeeds,
        .call 0 (.requestUnmap64 0x4000), .call 1 (.requestUnmap64 0x4000), .next 0 succeeds,
        .next 1 succeeds, .next 0 succeeds, .next 1 succeeds, .next 0 succeeds, .next 1 succeeds,
        .next 0 succeeds, .next 1 succeeds, .next 0 succeeds, .next 1 succeeds] = some t ∧
      t.store.heap.freed = [0, 0] ∧ t.store.bufs.freed = [0, 0] ∧ ¬ LifetimesOk t.store := by
  obtain ⟨t, ht, hfreed⟩ := Option.map_eq_some_iff.mp (show
    (run step (init : State (Fin 2))
      [.call 0 (.map (.requestMap64 0 4096)), .next 0 succeeds, .next 0 succeeds,
        .call 0 (.requestUnmap64 0x4000), .call 1 (.requestUnmap64 0x4000), .next 0 succeeds,
        .next 1 succeeds, .next 0 succeeds, .next 1 succeeds, .next 0 succeeds, .next 1 succeeds,
        .next 0 succeeds, .next 1 succeeds, .next 0 succeeds, .next 1 succeeds]).map
      (fun t => (t.store.heap.freed, t.store.bufs.freed)) = some ([0, 0], [0, 0]) by decide +kernel)
  obtain ⟨hheap, hbufs⟩ := Prod.mk.inj hfreed
  refine ⟨t, ht, hheap, hbufs, fun hok => ?_⟩
  have hnodup := hok.1.1
  rw [hheap] at hnodup
  exact absurd hnodup (by decide)

end Runs

end FastRpc.AppsMem
