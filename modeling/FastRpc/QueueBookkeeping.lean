import FastRpc.QueueTable

/-! # The bookkeeping of the queue table

The slots, the counter and the calls fit together by `Inv`: the counter of a domain is the number of
its occupied slots and of the calls that are counted and have no slot (`Pc.pending`), and every open
queue and every call that has reserved a slot owns an occupied slot of its own (`Owners`).  So a call
between its sections keeps the counter above `0`, and its domain queues stay. -/

namespace FastRpc.QueueTable

open BlockHeap Reservations Transition

/-! ### The invariant -/

/-- The domain queues that a call has a pointer to, with their domain. -/
def Pc.holds : Pc → Option (Domain × ℕ)
  | .idle | .createEnter _ | .closeEnter _ _ => none
  | .createCounted domain dq | .createReserved domain dq _ | .createBailed domain dq
  | .closeReleased domain dq => some (domain, dq)
  | .closeFound dq _ queue | .closeInvalidated dq _ queue => some (queue.domain, dq)

/-- The call is counted in `dq` and has no slot. -/
def Pc.pending (dq : ℕ) : Pc → Bool
  | .createCounted _ dq' | .createBailed _ dq' | .closeReleased _ dq' => dq' = dq
  | _ => false

/-- The slot that a call of `dspqueue_create` has reserved. -/
def Pc.reserved : Pc → Option (Domain × Fin maxProcessQueues)
  | .createReserved domain _ id => some (domain, id)
  | _ => none

variable {ι : Type}

/-- The slot of a call or of an open queue. -/
def slotOf (pc : ι → Pc) (queues : ℕ → Option Queue) :
    ι ⊕ ℕ → Option (Domain × Fin maxProcessQueues)
  | .inl i => (pc i).reserved
  | .inr q => (queues q).map (fun queue => (queue.domain, queue.id))

/-- Every slot has one owner, and every queue that is being closed is open and has one closer. -/
structure Owners (pc : ι → Pc) (queues : ℕ → Option Queue) (nextQueue : ℕ) : Prop where
  once : ∀ o o' x, slotOf pc queues o = some x → slotOf pc queues o' = some x → o = o'
  closing : ∀ i q queue, (pc i).closing = some (q, queue) → queues q = some queue
  closeOnce : ∀ i j x, (pc i).closing = some x → (pc j).closing = some x → i = j
  old : ∀ q, queues q ≠ none → q < nextQueue

/-- One domain's queues: `pending` calls are counted and have no slot. -/
structure DomainOk (c : DomainQueues) (domain : Domain) (pending : ℕ) : Prop where
  domain_eq : c.domain = domain
  balanced : Balanced c.num_queues c.occupied pending
  max : ∀ id, c.queues id ≠ .unused → id ≤ c.max_queue

/-- **The invariant.** -/
structure Inv [Fintype ι] (s : State ι) : Prop where
  clean : s.store.heap.Clean
  freedOld : ∀ dq ∈ s.store.heap.freed, dq < s.store.heap.next
  destroyed : ∀ dq ∈ s.store.heap.freed, (s.store.heap.cell dq).num_queues = 0
  live : ∀ d dq, s.store.domainQueues d = some dq → s.store.heap.Live dq
  current : ∀ d dq, s.store.domainQueues d = some dq →
    DomainOk (s.store.heap.cell dq) d (Threads.count (Pc.pending dq) s.pc)
  holds : ∀ i d dq, (s.pc i).holds = some (d, dq) → s.store.domainQueues d = some dq
  owned : ∀ o d id, slotOf s.pc s.store.queues o = some (d, id) →
    ∃ dq, s.store.domainQueues d = some dq ∧ (s.store.heap.cell dq).queues id ≠ .unused
  owners : Owners s.pc s.store.queues s.store.nextQueue
  faults : s.store.faults = []

/-! ### Slots -/

section Slots

variable {c : DomainQueues} {id : Fin maxProcessQueues} {slot : Slot}

@[simp] theorem mem_occupied : id ∈ c.occupied ↔ c.queues id ≠ .unused := by
  simp [DomainQueues.occupied]

theorem occupied_new (domain : Domain) : (DomainQueues.new domain).occupied = ∅ := by
  rw [Finset.eq_empty_iff_forall_notMem]
  intro id
  rw [mem_occupied]
  exact not_not.mpr rfl

theorem occupied_take {c' : DomainQueues} (hslot : slot ≠ .unused)
    (hc : c'.queues = Function.update c.queues id slot) : c'.occupied = insert id c.occupied := by
  ext k
  rw [mem_occupied, hc, Finset.mem_insert, mem_occupied]
  rcases eq_or_ne k id with rfl | hne
  · simp [hslot]
  · simp [hne]

theorem occupied_giveBack {c' : DomainQueues} (hc : c'.queues = Function.update c.queues id .unused) :
    c'.occupied = c.occupied.erase id := by
  ext k
  rw [mem_occupied, hc, Finset.mem_erase, mem_occupied]
  rcases eq_or_ne k id with rfl | hne
  · simp
  · simp [hne]

theorem findUnused_some {queues : Fin maxProcessQueues → Slot} (h : findUnused queues = some id) :
    queues id = .unused := by
  have hid := List.find?_some h
  simpa using hid

theorem findUnused_none {queues : Fin maxProcessQueues → Slot} (h : findUnused queues = none)
    (id : Fin maxProcessQueues) : queues id ≠ .unused := by
  have hid := List.find?_eq_none.mp h id (List.mem_finRange id)
  simpa using hid

/-- A loop that keeps the last element with a property, over a list in ascending order. -/
theorem le_foldl_last {n : ℕ} {p : Fin n → Prop} [DecidablePred p] {l : List (Fin n)} {m : ℕ}
    (hl : l.Pairwise (· < ·)) (hm : ∀ i ∈ l, m ≤ i.val) :
    m ≤ l.foldl (fun m i => if p i then i.val else m) m ∧
      ∀ i ∈ l, p i → i.val ≤ l.foldl (fun m i => if p i then i.val else m) m := by
  induction l generalizing m with
  | nil => exact ⟨le_refl m, fun _ hi => absurd hi List.not_mem_nil⟩
  | cons a l ih =>
      obtain ⟨ha, hl⟩ := List.pairwise_cons.mp hl
      have hma := hm a List.mem_cons_self
      have hstep : m ≤ (if p a then a.val else m) ∧ ∀ i ∈ l, (if p a then a.val else m) ≤ i.val := by
        split_ifs
        · exact ⟨hma, fun i hi => (ha i hi).le⟩
        · exact ⟨le_refl m, fun i hi => hm i (List.mem_cons_of_mem a hi)⟩
      obtain ⟨hle, hall⟩ := ih hl hstep.2
      refine ⟨hstep.1.trans hle, fun i hi hp => ?_⟩
      obtain rfl | hi := List.mem_cons.mp hi
      · rw [List.foldl_cons]
        rw [if_pos hp] at hle ⊢
        exact hle
      · exact hall i hi hp

theorem le_lastUsed (queues : Fin maxProcessQueues → Slot) (h : queues id ≠ .unused) :
    id ≤ lastUsed queues :=
  (le_foldl_last (List.pairwise_lt_finRange _) (fun _ _ => Nat.zero_le _)).2 id
    (List.mem_finRange id) h

end Slots

/-! ### Owners -/

section Owners

variable {pc : ι → Pc} {queues : ℕ → Option Queue} {nextQueue : ℕ} {i : ι} {pc' : Pc}

@[simp] theorem slotOf_call : slotOf pc queues (.inl i) = (pc i).reserved := rfl

theorem slotOf_queue {q : ℕ} {queue : Queue} (h : queues q = some queue) :
    slotOf pc queues (.inr q) = some (queue.domain, queue.id) := by
  simp [slotOf, h]

variable [DecidableEq ι]

theorem slotOf_update (o : ι ⊕ ℕ) :
    slotOf (Function.update pc i pc') queues o =
      if o = .inl i then pc'.reserved else slotOf pc queues o := by
  cases o with
  | inl j =>
      rcases eq_or_ne j i with rfl | hne
      · simp
      · simp [hne]
  | inr q => simp [slotOf]

/-- The owners of slots when a call has none after its step. -/
theorem owned_of_none (hr : pc'.reserved = none) {o : ι ⊕ ℕ}
    {x : Domain × Fin maxProcessQueues} (ho : slotOf (Function.update pc i pc') queues o = some x) :
    o ≠ .inl i ∧ slotOf pc queues o = some x := by
  rw [slotOf_update] at ho
  split_ifs at ho with hi
  · rw [hr] at ho
    cases ho
  · exact ⟨hi, ho⟩

theorem Owners.closing_update (h : Owners pc queues nextQueue) (i : ι) (pc' : Pc)
    (hc : ∀ x, pc'.closing = some x → queues x.1 = some x.2) :
    ∀ j q queue, (Function.update pc i pc' j).closing = some (q, queue) → queues q = some queue :=
  Threads.forall_update (P := fun _ (pc : Pc) => ∀ q queue,
    pc.closing = some (q, queue) → queues q = some queue) (fun _ _ hq => hc _ hq)
    (fun j _ => h.closing j)

theorem Owners.closeOnce_update (h : Owners pc queues nextQueue)
    (hc : ∀ x, pc'.closing = some x → ∀ j, j ≠ i → (pc j).closing ≠ some x) :
    ∀ a b x, (Function.update pc i pc' a).closing = some x →
      (Function.update pc i pc' b).closing = some x → a = b := by
  intro a b x ha hb
  rcases eq_or_ne a i with rfl | hai
  · by_contra hab
    rw [Function.update_self] at ha
    rw [Function.update_of_ne (Ne.symm hab)] at hb
    exact hc x ha b (Ne.symm hab) hb
  · rw [Function.update_of_ne hai] at ha
    rcases eq_or_ne b i with rfl | hbi
    · rw [Function.update_self] at hb
      exact absurd ha (hc x hb a hai)
    · rw [Function.update_of_ne hbi] at hb
      exact h.closeOnce a b x ha hb

/-- A step of a call that takes no slot. -/
theorem Owners.move (h : Owners pc queues nextQueue)
    (hr : ∀ x, pc'.reserved = some x → (pc i).reserved = some x)
    (hc : ∀ x, pc'.closing = some x → queues x.1 = some x.2 ∧ ∀ j, j ≠ i → (pc j).closing ≠ some x) :
    Owners (Function.update pc i pc') queues nextQueue where
  once := by
    have hsub : ∀ o x, slotOf (Function.update pc i pc') queues o = some x →
        slotOf pc queues o = some x := by
      intro o x hx
      rw [slotOf_update] at hx
      split_ifs at hx with ho
      · rw [ho, slotOf_call]
        exact hr x hx
      · exact hx
    intro o o' x ho ho'
    exact h.once o o' x (hsub o x ho) (hsub o' x ho')
  closing := h.closing_update _ _ (fun x hx => (hc x hx).1)
  closeOnce := h.closeOnce_update (fun x hx => (hc x hx).2)
  old := h.old

/-- A call reserves a slot that is not owned. -/
theorem Owners.reserve (h : Owners pc queues nextQueue) {x : Domain × Fin maxProcessQueues}
    (hr : pc'.reserved = some x) (hc : pc'.closing = none)
    (hfree : ∀ o, slotOf pc queues o ≠ some x) :
    Owners (Function.update pc i pc') queues nextQueue where
  once := by
    intro o o' y ho ho'
    rw [slotOf_update] at ho ho'
    split_ifs at ho ho' with hi hi'
    · rw [hi, hi']
    · exact absurd (ho'.trans (ho.symm.trans hr)) (hfree o')
    · exact absurd (ho.trans (ho'.symm.trans hr)) (hfree o)
    · exact h.once o o' y ho ho'
  closing := h.closing_update _ _ (fun x hx => by rw [hc] at hx; cases hx)
  closeOnce := h.closeOnce_update (fun x hx => by rw [hc] at hx; cases hx)
  old := h.old

/-- A reserved slot passes to a new queue. -/
theorem Owners.publish (h : Owners pc queues nextQueue) (queue : Queue)
    (hi : (pc i).reserved = some (queue.domain, queue.id)) (hr : pc'.reserved = none)
    (hc : pc'.closing = none) :
    Owners (Function.update pc i pc') (Function.update queues nextQueue (some queue))
      (nextQueue + 1) := by
  have hnew : ∀ q queue', queues q = some queue' → q ≠ nextQueue := by
    intro q queue' hq heq
    exact absurd (h.old q (by simp [hq])) (by omega)
  -- the owner of a slot after the step, and its owner before
  have hback : ∀ o x, slotOf (Function.update pc i pc')
      (Function.update queues nextQueue (some queue)) o = some x →
      (o = .inr nextQueue ∧ x = (queue.domain, queue.id)) ∨
        (o ≠ .inl i ∧ o ≠ .inr nextQueue ∧ slotOf pc queues o = some x) := by
    intro o x hx
    cases o with
    | inl j =>
        rw [slotOf_update] at hx
        split_ifs at hx with hj
        · rw [hr] at hx
          cases hx
        · exact .inr ⟨hj, by simp, hx⟩
    | inr q =>
        rcases eq_or_ne q nextQueue with rfl | hne
        · rw [slotOf_queue (Function.update_self _ _ _)] at hx
          exact .inl ⟨rfl, (Option.some.inj hx).symm⟩
        · refine .inr ⟨by simp, by simpa using hne, ?_⟩
          simpa [slotOf, hne] using hx
  refine ⟨?_, ?_, ?_, ?_⟩
  · intro o o' x ho ho'
    obtain ⟨rfl, rfl⟩ | ⟨hoi, _, ho⟩ := hback o x ho
    · obtain ⟨rfl, _⟩ | ⟨hoi', _, ho'⟩ := hback o' _ ho'
      · rfl
      · exact absurd (h.once _ (.inl i) _ ho' hi) hoi'
    · obtain ⟨rfl, rfl⟩ | ⟨_, _, ho'⟩ := hback o' x ho'
      · exact absurd (h.once _ (.inl i) _ ho hi) hoi
      · exact h.once o o' x ho ho'
  · intro j q queue' hj
    have hq := h.closing_update i pc' (fun x hx => by rw [hc] at hx; cases hx) j q
      queue' hj
    rw [Function.update_of_ne (hnew q queue' hq)]
    exact hq
  · exact h.closeOnce_update (fun x hx => by rw [hc] at hx; cases hx)
  · intro q hq
    rcases eq_or_ne q nextQueue with rfl | hne
    · exact Nat.lt_succ_self q
    · rw [Function.update_of_ne hne] at hq
      exact Nat.lt_succ_of_lt (h.old q hq)

/-- A queue gives its slot back. -/
theorem Owners.release (h : Owners pc queues nextQueue) {q : ℕ} {queue : Queue}
    (hi : (pc i).closing = some (q, queue)) (hr : pc'.reserved = none) (hc : pc'.closing = none) :
    Owners (Function.update pc i pc') (Function.update queues q none) nextQueue where
  once := by
    have hsub : ∀ o x, slotOf (Function.update pc i pc') (Function.update queues q none) o = some x →
        slotOf pc queues o = some x := by
      intro o x hx
      cases o with
      | inl j =>
          rw [slotOf_update] at hx
          split_ifs at hx with hj
          · rw [hr] at hx
            cases hx
          · exact hx
      | inr q' =>
          rcases eq_or_ne q' q with rfl | hne
          · simp [slotOf] at hx
          · simpa [slotOf, hne] using hx
    intro o o' x ho ho'
    exact h.once o o' x (hsub o x ho) (hsub o' x ho')
  closing := by
    intro j q' queue' hj
    rcases eq_or_ne j i with rfl | hji
    · rw [Function.update_self, hc] at hj
      cases hj
    · rw [Function.update_of_ne hji] at hj
      have hq' := h.closing j q' queue' hj
      rcases eq_or_ne q' q with rfl | hne
      · have hqueue : queue' = queue := Option.some.inj (hq'.symm.trans (h.closing i q' queue hi))
        exact absurd (h.closeOnce j i _ hj (hqueue ▸ hi)) hji
      · rw [Function.update_of_ne hne]
        exact hq'
  closeOnce := h.closeOnce_update (fun x hx => by rw [hc] at hx; cases hx)
  old := by
    intro q' hq'
    rcases eq_or_ne q' q with rfl | hne
    · rw [Function.update_self] at hq'
      exact absurd rfl hq'
    · rw [Function.update_of_ne hne] at hq'
      exact h.old q' hq'

end Owners

/-! ### Sections -/

section Invariant

theorem holds_of_pending {pc : Pc} {dq : ℕ} (h : pc.pending dq = true) : ∃ d, pc.holds = some (d, dq) := by
  cases pc with
  | createCounted domain dq' => exact ⟨domain, by rw [of_decide_eq_true h]; rfl⟩
  | createBailed domain dq' => exact ⟨domain, by rw [← of_decide_eq_true h]; rfl⟩
  | closeReleased domain dq' => exact ⟨domain, by rw [← of_decide_eq_true h]; rfl⟩
  | _ => cases h

variable [Fintype ι] {s : State ι}

theorem inv_init : Inv (init : State ι) where
  clean := Heap.clean_empty _
  freedOld := fun _ h => absurd h List.not_mem_nil
  destroyed := fun _ h => absurd h List.not_mem_nil
  live := fun _ _ h => nomatch h
  current := fun _ _ h => nomatch h
  holds := fun _ _ _ h => nomatch h
  owned := by
    intro o d id h
    cases o <;> cases h
  owners :=
    { once := by
        intro o o' x h
        cases o <;> cases h
      closing := fun _ _ _ h => nomatch h
      closeOnce := fun _ _ _ h => nomatch h
      old := fun _ h => absurd rfl h }
  faults := rfl

/-- A domain's queues belong to this domain only. -/
theorem Inv.domain_inj (h : Inv s) {d d' : Domain} {dq : ℕ} (hd : s.store.domainQueues d = some dq)
    (hd' : s.store.domainQueues d' = some dq) : d = d' :=
  (h.current d dq hd).domain_eq.symm.trans (h.current d' dq hd').domain_eq

/-- The slot of a call or of an open queue is occupied. -/
theorem Inv.owned_slot (h : Inv s) {o : ι ⊕ ℕ} {d : Domain} {id : Fin maxProcessQueues} {dq : ℕ}
    (ho : slotOf s.pc s.store.queues o = some (d, id)) (hd : s.store.domainQueues d = some dq) :
    (s.store.heap.cell dq).queues id ≠ .unused := by
  obtain ⟨dq', hd', hslot⟩ := h.owned o d id ho
  obtain rfl := Option.some.inj (hd.symm.trans hd')
  exact hslot

/-- New domain queues. -/
theorem Inv.alloc (h : Inv s) {d : Domain} (hd : s.store.domainQueues d = none) :
    Inv { s with store := { s.store with
      heap := s.store.heap.alloc (.new d)
      domainQueues := Function.update s.store.domainQueues d (some s.store.heap.next) } } := by
  have hlt : ∀ d' dq, s.store.domainQueues d' = some dq → dq < s.store.heap.next :=
    fun d' dq hd' => (h.live d' dq hd').1
  have hcases : ∀ d' dq, Function.update s.store.domainQueues d (some s.store.heap.next) d' = some dq →
      (d' = d ∧ dq = s.store.heap.next) ∨ (d' ≠ d ∧ s.store.domainQueues d' = some dq) := by
    intro d' dq hdq
    rcases eq_or_ne d' d with rfl | hne
    · rw [Function.update_self] at hdq
      exact .inl ⟨rfl, (Option.some.inj hdq).symm⟩
    · rw [Function.update_of_ne hne] at hdq
      exact .inr ⟨hne, hdq⟩
  have hother : ∀ d' dq, s.store.domainQueues d' = some dq →
      Function.update s.store.domainQueues d (some s.store.heap.next) d' = some dq ∧
        Function.update s.store.heap.cell s.store.heap.next (.new d) dq = s.store.heap.cell dq := by
    intro d' dq hdq
    have hne : d' ≠ d := by
      rintro rfl
      rw [hd] at hdq
      cases hdq
    exact ⟨by rw [Function.update_of_ne hne]; exact hdq,
      Function.update_of_ne (hlt d' dq hdq).ne _ _⟩
  refine ⟨h.clean.alloc _, fun dq hdq => Nat.lt_succ_of_lt (h.freedOld dq hdq), ?_, ?_, ?_, ?_, ?_,
    h.owners, h.faults⟩
  · intro dq hfreed
    simp only [Heap.alloc, Function.update_of_ne (h.freedOld dq hfreed).ne]
    exact h.destroyed dq hfreed
  · intro d' dq hdq
    obtain ⟨rfl, rfl⟩ | ⟨_, hdq⟩ := hcases d' dq hdq
    · exact ⟨Nat.lt_succ_self _, fun hf => absurd (h.freedOld _ hf) (lt_irrefl _)⟩
    · exact Heap.live_alloc _ (h.live d' dq hdq)
  · intro d' dq hdq
    obtain ⟨rfl, rfl⟩ | ⟨_, hdq⟩ := hcases d' dq hdq
    · -- no call has a pointer to the new block
      have hpending : Threads.count (Pc.pending s.store.heap.next) s.pc = 0 := by
        rw [Threads.count, Finset.card_eq_zero, Finset.filter_eq_empty_iff]
        intro i _ hp
        obtain ⟨d, hholds⟩ := holds_of_pending hp
        exact absurd (hlt _ _ (h.holds i d _ hholds)) (lt_irrefl _)
      simp only [Heap.alloc, Function.update_self, hpending]
      exact ⟨rfl, by rw [occupied_new]; exact balanced_zero, fun id hid => absurd rfl hid⟩
    · simp only [Heap.alloc, (hother d' dq hdq).2]
      exact h.current d' dq hdq
  · exact fun i d' dq hi => (hother d' dq (h.holds i d' dq hi)).1
  · intro o d' id ho
    obtain ⟨dq, hdq, hslot⟩ := h.owned o d' id ho
    refine ⟨dq, (hother d' dq hdq).1, ?_⟩
    simp only [Heap.alloc, (hother d' dq hdq).2]
    exact hslot

theorem between_eq_holds (pc : Pc) : pc.between = pc.holds.map Prod.fst := by
  cases pc <;> rfl

/-- A call has a pointer because it is counted, has a slot, or closes a queue of the domain. -/
theorem cases_of_holds {pc : Pc} {d : Domain} {dq : ℕ} (h : pc.holds = some (d, dq)) :
    pc.pending dq = true ∨ (∃ id, pc.reserved = some (d, id)) ∨
      ∃ q queue, pc.closing = some (q, queue) ∧ queue.domain = d := by
  cases pc with
  | createReserved domain dq' id =>
      obtain ⟨rfl, rfl⟩ := Prod.mk.inj (Option.some.inj h)
      exact .inr (.inl ⟨id, rfl⟩)
  | closeFound dq' q queue =>
      obtain ⟨rfl, rfl⟩ := Prod.mk.inj (Option.some.inj h)
      exact .inr (.inr ⟨q, queue, rfl, rfl⟩)
  | closeInvalidated dq' q queue =>
      obtain ⟨rfl, rfl⟩ := Prod.mk.inj (Option.some.inj h)
      exact .inr (.inr ⟨q, queue, rfl, rfl⟩)
  | createCounted domain dq' =>
      obtain ⟨rfl, rfl⟩ := Prod.mk.inj (Option.some.inj h)
      exact .inl (decide_eq_true rfl)
  | createBailed domain dq' =>
      obtain ⟨rfl, rfl⟩ := Prod.mk.inj (Option.some.inj h)
      exact .inl (decide_eq_true rfl)
  | closeReleased domain dq' =>
      obtain ⟨rfl, rfl⟩ := Prod.mk.inj (Option.some.inj h)
      exact .inl (decide_eq_true rfl)
  | _ => cases h

/-- **When the counter of a domain is `0` no slot of it is owned and no call has a pointer to it.** -/
theorem Inv.unused_of_zero (h : Inv s) {d : Domain} {dq : ℕ} (hd : s.store.domainQueues d = some dq)
    (hzero : (s.store.heap.cell dq).num_queues = 0) :
    (∀ o id, slotOf s.pc s.store.queues o ≠ some (d, id)) ∧
      ∀ i, (s.pc i).holds ≠ some (d, dq) := by
  have hbalanced := (h.current d dq hd).balanced
  rw [hzero] at hbalanced
  obtain ⟨hempty, hnone⟩ := hbalanced.of_zero
  have hslots : ∀ o id, slotOf s.pc s.store.queues o ≠ some (d, id) := by
    intro o id ho
    have hmem := mem_occupied.mpr (h.owned_slot ho hd)
    rw [hempty] at hmem
    exact absurd hmem (Finset.notMem_empty id)
  refine ⟨hslots, fun i hi => ?_⟩
  obtain hp | ⟨id, hr⟩ | ⟨q, queue, hc, hdomain⟩ := cases_of_holds hi
  · have hpos := Threads.count_pos s.pc hp
    omega
  · exact hslots (.inl i) id hr
  · exact hslots (.inr q) queue.id
      (by rw [slotOf_queue (h.owners.closing i q queue hc), hdomain])

/-- Domain queues whose counter is `0` are destroyed. -/
theorem Inv.destroy (h : Inv s) {d : Domain} {dq : ℕ} (hd : s.store.domainQueues d = some dq)
    (hzero : (s.store.heap.cell dq).num_queues = 0) :
    Inv { s with store := destroyDomainQueuesLocked s.store d } := by
  obtain ⟨hslots, hholds⟩ := h.unused_of_zero hd hzero
  have hlive := h.live d dq hd
  have hdestroy : destroyDomainQueuesLocked s.store d =
      { s.store with
        heap := s.store.heap.free dq
        domainQueues := Function.update s.store.domainQueues d none } := by
    unfold destroyDomainQueuesLocked
    simp only [hd, Store.touch, Heap.touch_live hlive, hzero, Store.assert, decide_true, if_true]
  have hother : ∀ d' dq', Function.update s.store.domainQueues d none d' = some dq' →
      s.store.domainQueues d' = some dq' ∧ dq' ≠ dq := by
    intro d' dq' hdq
    rcases eq_or_ne d' d with rfl | hne
    · rw [Function.update_self] at hdq
      cases hdq
    · rw [Function.update_of_ne hne] at hdq
      refine ⟨hdq, ?_⟩
      rintro rfl
      exact hne (h.domain_inj hdq hd)
  have hkept : ∀ d' dq', d' ≠ d → s.store.domainQueues d' = some dq' →
      Function.update s.store.domainQueues d none d' = some dq' := by
    intro d' dq' hne hdq
    rw [Function.update_of_ne hne]
    exact hdq
  rw [hdestroy]
  refine ⟨h.clean.freeAll (List.nodup_singleton dq) (by simpa using hlive), ?_, ?_, ?_, ?_, ?_, ?_,
    h.owners, h.faults⟩
  · intro dq' hdq
    obtain hdq | hdq := List.mem_append.mp hdq
    · exact h.freedOld dq' hdq
    · exact List.mem_singleton.mp hdq ▸ hlive.1
  · intro dq' hdq
    obtain hdq | hdq := List.mem_append.mp hdq
    · exact h.destroyed dq' hdq
    · exact List.mem_singleton.mp hdq ▸ hzero
  · intro d' dq' hdq
    obtain ⟨hdq, hne⟩ := hother d' dq' hdq
    exact Heap.live_freeAll (h.live d' dq' hdq) (by simpa using hne)
  · intro d' dq' hdq
    exact h.current d' dq' (hother d' dq' hdq).1
  · intro i d' dq' hi
    have hdq := h.holds i d' dq' hi
    refine hkept d' dq' ?_ hdq
    rintro rfl
    exact hholds i (by rw [hi, Option.some.inj (hdq.symm.trans hd)])
  · intro o d' id ho
    obtain ⟨dq', hdq, hslot⟩ := h.owned o d' id ho
    refine ⟨dq', hkept d' dq' ?_ hdq, hslot⟩
    rintro rfl
    exact hslots o id ho

/-- The invariant gives the bookkeeping. -/
theorem Inv.tableOk (h : Inv s) : TableOk s where
  occupied_le := fun d dq hd => (h.current d dq hd).balanced.card_le
  num_queues_le := by
    intro d dq hd
    have hle := (h.current d dq hd).balanced.num_le
    rwa [Fintype.card_fin] at hle
  quiet := by
    intro d dq hd hquiet
    have hnone : Threads.count (Pc.pending dq) s.pc = 0 := by
      rw [Threads.count, Finset.card_eq_zero, Finset.filter_eq_empty_iff]
      intro i _ hp
      obtain ⟨d', hholds⟩ := holds_of_pending hp
      obtain rfl := h.domain_inj (h.holds i d' dq hholds) hd
      exact hquiet i (by rw [between_eq_holds, hholds]; rfl)
    have heq := (h.current d dq hd).balanced.num_eq
    omega
  faults := h.faults
  index_le := by
    intro q queue hq
    obtain ⟨dq, hd, hslot⟩ := h.owned (.inr q) _ _ (slotOf_queue hq)
    exact ⟨dq, hd, (h.current _ dq hd).max queue.id hslot⟩
  index_once := by
    intro q q' queue hq hq'
    exact Sum.inr.inj (h.owners.once (.inr q) (.inr q') _ (slotOf_queue hq) (slotOf_queue hq'))
  destroyed := h.destroyed
  live := h.live
  clean := h.clean

variable [DecidableEq ι] {i : ι} {pc' : Pc}

/-- **A section that rewrites the queues of one domain.** -/
theorem Inv.section (h : Inv s) {d : Domain} {dq : ℕ} (hd : s.store.domainQueues d = some dq)
    (queues' : ℕ → Option Queue) {c : DomainQueues} {nextQueue' : ℕ}
    (hc : DomainOk c d (Threads.count (Pc.pending dq) (Function.update s.pc i pc')))
    (hother : ∀ dq', dq' ≠ dq → pc'.pending dq' = (s.pc i).pending dq')
    (hholds : ∀ x, pc'.holds = some x → x = (d, dq))
    (howners : Owners (Function.update s.pc i pc') queues' nextQueue')
    (howned : ∀ o x, slotOf (Function.update s.pc i pc') queues' o = some x →
      (x.1 = d ∧ c.queues x.2 ≠ .unused) ∨ slotOf s.pc s.store.queues o = some x ∧
        (x.1 = d → (s.store.heap.cell dq).queues x.2 ≠ .unused → c.queues x.2 ≠ .unused)) :
    Inv (⟨{ s.store.write dq c with queues := queues', nextQueue := nextQueue' },
      Function.update s.pc i pc'⟩ : State ι) := by
  have hheap : s.store.heap.write dq c =
      { s.store.heap with cell := Function.update s.store.heap.cell dq c } :=
    Heap.write_live (h.live d dq hd) c
  have hne : ∀ d' dq', s.store.domainQueues d' = some dq' → d' ≠ d → dq' ≠ dq := by
    rintro d' dq' hd' hdd rfl
    exact hdd (h.domain_inj hd' hd)
  simp only [Store.write, hheap]
  refine ⟨h.clean, h.freedOld, ?_, h.live, ?_, ?_, ?_, howners, h.faults⟩
  · intro dq' hfreed
    have hdq : dq' ≠ dq := by
      rintro rfl
      exact (h.live d dq' hd).2 hfreed
    simp only
    rw [Function.update_of_ne hdq]
    exact h.destroyed dq' hfreed
  · intro d' dq' hd'
    simp only
    rcases eq_or_ne d' d with rfl | hdd
    · obtain rfl := Option.some.inj (hd.symm.trans hd')
      rw [Function.update_self]
      exact hc
    · have hdq := hne d' dq' hd' hdd
      rw [Function.update_of_ne hdq, Threads.count_update_same (hother dq' hdq)]
      exact h.current d' dq' hd'
  · exact Threads.forall_update (P := fun _ (pc : Pc) => ∀ d dq, pc.holds = some (d, dq) →
      s.store.domainQueues d = some dq) (fun d' dq' hx => by
        obtain ⟨rfl, rfl⟩ := Prod.mk.inj (hholds _ hx)
        exact hd) (fun j _ => h.holds j)
  · intro o d' id ho
    simp only
    obtain ⟨hdd, hslot⟩ | ⟨ho, hkeep⟩ := howned o (d', id) ho
    · obtain rfl : d' = d := hdd
      exact ⟨dq, hd, by rw [Function.update_self]; exact hslot⟩
    · obtain ⟨dq', hd', hslot⟩ := h.owned o d' id ho
      refine ⟨dq', hd', ?_⟩
      rcases eq_or_ne d' d with hdd | hdd
      · obtain rfl := Option.some.inj (hd.symm.trans (hdd ▸ hd'))
        rw [Function.update_self]
        exact hkeep hdd hslot
      · rw [Function.update_of_ne (hne d' dq' hd' hdd)]
        exact hslot

/-- A step of a call that leaves the table as it is. -/
theorem Inv.move (h : Inv s) (hpending : ∀ dq, pc'.pending dq = (s.pc i).pending dq)
    (hholds : ∀ d dq, pc'.holds = some (d, dq) → s.store.domainQueues d = some dq)
    (hr : pc'.reserved = none)
    (hc : ∀ x, pc'.closing = some x → s.store.queues x.1 = some x.2 ∧
      ∀ j, j ≠ i → (s.pc j).closing ≠ some x) :
    Inv { s with pc := Function.update s.pc i pc' } where
  clean := h.clean
  freedOld := h.freedOld
  destroyed := h.destroyed
  live := h.live
  current := by
    intro d dq hd
    simp only [Threads.count_update_same (hpending dq)]
    exact h.current d dq hd
  holds := Threads.forall_update (P := fun _ (pc : Pc) => ∀ d dq, pc.holds = some (d, dq) →
    s.store.domainQueues d = some dq) hholds (fun j _ => h.holds j)
  owned := by
    intro o d id ho
    simp only [slotOf_update, hr] at ho
    split_ifs at ho
    exact h.owned o d id ho
  owners := h.owners.move (fun x hx => by rw [hr] at hx; cases hx) hc
  faults := h.faults

/-- A call that has no slot and no queue leaves a domain that it read. -/
theorem Inv.leave (h : Inv s) {d : Domain} {dq : ℕ} (hd : s.store.domainQueues d = some dq)
    (hpending : ∀ dq, (s.pc i).pending dq = false) :
    Inv (⟨s.store.touch dq, Function.update s.pc i .idle⟩ : State ι) := by
  unfold Store.touch
  rw [Heap.touch_live (h.live d dq hd)]
  exact h.move (fun dq => (hpending dq).symm) (fun _ _ hx => nomatch hx) rfl (fun _ hx => nomatch hx)

/-- A call is counted. -/
theorem Inv.count (h : Inv s) {d : Domain} {dq : ℕ} (hd : s.store.domainQueues d = some dq)
    (hi : s.pc i = .createEnter d) (hlt : (s.store.heap.cell dq).num_queues < maxProcessQueues) :
    Inv (⟨s.store.write dq { s.store.heap.cell dq with
        num_queues := (s.store.heap.cell dq).num_queues + 1 },
      Function.update s.pc i (.createCounted d dq)⟩ : State ι) := by
  obtain ⟨hdomain, hbalanced, hmax⟩ := h.current d dq hd
  refine h.section hd s.store.queues ⟨hdomain, ?_, hmax⟩ ?_ ?_ ?_ ?_
  · rw [Threads.count_update_enter s.pc (by rw [hi]; rfl) (decide_eq_true rfl)]
    exact hbalanced.count (by rwa [Fintype.card_fin])
  · intro dq' hdq
    rw [hi]
    exact decide_eq_false hdq.symm
  · intro x hx
    exact (Option.some.inj hx).symm
  · exact h.owners.move (fun _ hx => nomatch hx) (fun _ hx => nomatch hx)
  · intro o x ho
    exact .inr ⟨(owned_of_none rfl ho).2, fun _ => id⟩

/-- A call that is counted finds a slot. -/
theorem Inv.reserve (h : Inv s) {d : Domain} {dq : ℕ} (hi : s.pc i = .createCounted d dq) :
    ∃ id, findUnused (s.store.heap.cell dq).queues = some id ∧
      Inv (⟨(createReserve s.store dq).1, Function.update s.pc i (.createReserved d dq id)⟩ :
        State ι) := by
  have hd : s.store.domainQueues d = some dq := h.holds i d dq (by rw [hi]; rfl)
  obtain ⟨hdomain, hbalanced, hmax⟩ := h.current d dq hd
  have hcount : Threads.count (Pc.pending dq) s.pc =
      Threads.count (Pc.pending dq) (Function.update s.pc i (.createReserved d dq 0)) + 1 :=
    (Threads.count_update_leave s.pc (by rw [hi]; exact decide_eq_true rfl) rfl).symm
  cases hfind : findUnused (s.store.heap.cell dq).queues with
  | none =>
      rw [hcount] at hbalanced
      obtain ⟨id, hid⟩ := hbalanced.exists_free
      exact absurd (mem_occupied.mpr (findUnused_none hfind id)) hid
  | some id =>
      refine ⟨id, rfl, ?_⟩
      have hunused := findUnused_some hfind
      have hfree : ∀ o, slotOf s.pc s.store.queues o ≠ some (d, id) := by
        intro o ho
        obtain ⟨dq', hd', hslot⟩ := h.owned o d id ho
        obtain rfl := Option.some.inj (hd.symm.trans hd')
        exact hslot hunused
      have hcount' : Threads.count (Pc.pending dq) s.pc =
          Threads.count (Pc.pending dq) (Function.update s.pc i (.createReserved d dq id)) + 1 :=
        (Threads.count_update_leave s.pc (by rw [hi]; exact decide_eq_true rfl) rfl).symm
      simp only [createReserve, hfind]
      refine h.section hd s.store.queues ⟨hdomain, ?_, ?_⟩ ?_ ?_ ?_ ?_
      · rw [hcount'] at hbalanced
        rw [occupied_take (show Slot.invalid ≠ .unused by decide) rfl]
        exact hbalanced.take (fun hmem => mem_occupied.mp hmem hunused)
      · intro k hk
        have hle : (s.store.heap.cell dq).max_queue ≤ (if (s.store.heap.cell dq).max_queue < id then
            id.val else (s.store.heap.cell dq).max_queue) := by
          split_ifs <;> omega
        rcases eq_or_ne k id with rfl | hne
        · simp only
          split_ifs <;> omega
        · simp only [Function.update_of_ne hne] at hk
          exact (hmax k hk).trans hle
      · intro dq' hdq
        rw [hi]
        exact (decide_eq_false hdq.symm).symm
      · intro x hx
        exact (Option.some.inj hx).symm
      · exact h.owners.reserve (x := (d, id)) rfl rfl hfree
      · intro o x ho
        rw [slotOf_update] at ho
        split_ifs at ho
        · obtain rfl := Option.some.inj ho
          exact .inl ⟨rfl, by simp⟩
        · refine .inr ⟨ho, fun hxd hslot => ?_⟩
          have hne : x.2 ≠ id := by
            intro heq
            exact hslot (heq ▸ hunused)
          simpa [hne] using hslot

/-- A slot changes hands, and stays occupied. -/
theorem Inv.setSlot (h : Inv s) (pc' : Pc) {d : Domain} {dq : ℕ} (hd : s.store.domainQueues d = some dq)
    (queues' : ℕ → Option Queue) {id : Fin maxProcessQueues} {slot : Slot} (hslot : slot ≠ .unused)
    (hid : (s.store.heap.cell dq).queues id ≠ .unused) {nextQueue' : ℕ}
    (hpending : ∀ dq, pc'.pending dq = (s.pc i).pending dq)
    (hholds : ∀ x, pc'.holds = some x → x = (d, dq))
    (howners : Owners (Function.update s.pc i pc') queues' nextQueue')
    (howned : ∀ o x, slotOf (Function.update s.pc i pc') queues' o = some x →
      x = (d, id) ∨ slotOf s.pc s.store.queues o = some x) :
    Inv (⟨{ s.store.setSlot dq id slot with queues := queues', nextQueue := nextQueue' },
      Function.update s.pc i pc'⟩ : State ι) := by
  obtain ⟨hdomain, hbalanced, hmax⟩ := h.current d dq hd
  have hkeep : ∀ k, Function.update (s.store.heap.cell dq).queues id slot k ≠ .unused ↔
      (s.store.heap.cell dq).queues k ≠ .unused := by
    intro k
    rcases eq_or_ne k id with rfl | hne
    · rw [Function.update_self]
      exact iff_of_true hslot hid
    · rw [Function.update_of_ne hne]
  refine h.section hd queues' ⟨hdomain, ?_, fun k hk => hmax k ((hkeep k).mp hk)⟩ (fun dq' _ => hpending dq')
    hholds howners ?_
  · rw [Threads.count_update_same (hpending dq), occupied_take hslot rfl,
      Finset.insert_eq_of_mem (mem_occupied.mpr hid)]
    exact hbalanced
  · intro o x ho
    obtain rfl | ho := howned o x ho
    · exact .inl ⟨rfl, (hkeep id).mpr hid⟩
    · exact .inr ⟨ho, fun _ hx => (hkeep x.2).mpr hx⟩

/-- The new queue is open. -/
theorem Inv.publish (h : Inv s) {d : Domain} {dq : ℕ} {id : Fin maxProcessQueues}
    (hi : s.pc i = .createReserved d dq id) :
    Inv (⟨createPublish s.store d dq id, Function.update s.pc i .idle⟩ : State ι) := by
  have hd : s.store.domainQueues d = some dq := h.holds i d dq (by rw [hi]; rfl)
  have howner : slotOf s.pc s.store.queues (.inl i) = some (d, id) := by
    rw [slotOf_call, hi]
    rfl
  refine h.setSlot .idle hd _ (by intro heq; cases heq) (h.owned_slot howner hd) ?_
    (fun _ hx => nomatch hx)
    (h.owners.publish ⟨d, id⟩ howner rfl rfl) ?_
  · intro dq'
    rw [hi]
    rfl
  · intro o x ho
    cases o with
    | inl j => exact .inr (owned_of_none (o := .inl j) rfl ho).2
    | inr q =>
        rcases eq_or_ne q s.store.nextQueue with rfl | hne
        · rw [slotOf_queue (Function.update_self _ _ _)] at ho
          exact .inl (Option.some.inj ho).symm
        · exact .inr (by simpa [slotOf, hne] using ho)

/-- A queue that is being closed is taken out of the slot. -/
theorem Inv.invalidate (h : Inv s) {dq q : ℕ} {queue : Queue} (hi : s.pc i = .closeFound dq q queue) :
    Inv (⟨s.store.setSlot dq queue.id .invalid,
      Function.update s.pc i (.closeInvalidated dq q queue)⟩ : State ι) := by
  have hd : s.store.domainQueues queue.domain = some dq := h.holds i _ _ (by rw [hi]; rfl)
  have hq : s.store.queues q = some queue := h.owners.closing i q queue (by rw [hi]; rfl)
  refine h.setSlot (.closeInvalidated dq q queue) hd s.store.queues (by decide)
    (h.owned_slot (slotOf_queue hq) hd) ?_ ?_
    (h.owners.move (fun _ hx => nomatch hx) ?_) (fun o x ho => .inr (owned_of_none rfl ho).2)
  · intro dq'
    rw [hi]
    rfl
  · intro x hx
    exact (Option.some.inj hx).symm
  · intro x hx
    obtain rfl := Option.some.inj hx
    refine ⟨hq, fun j hji hj => hji (h.owners.closeOnce j i _ hj (by rw [hi]; rfl))⟩

/-- A slot is given back, and the call is still counted. -/
theorem Inv.giveBack (h : Inv s) (c : DomainQueues) (pc' : Pc) {d : Domain} {dq : ℕ}
    (hd : s.store.domainQueues d = some dq) (queues' : ℕ → Option Queue)
    {id : Fin maxProcessQueues} {o : ι ⊕ ℕ} (ho : slotOf s.pc s.store.queues o = some (d, id))
    (hdomain : c.domain = (s.store.heap.cell dq).domain)
    (hnum : c.num_queues = (s.store.heap.cell dq).num_queues)
    (hqueues : c.queues = Function.update (s.store.heap.cell dq).queues id .unused)
    (hmax : ∀ k, c.queues k ≠ .unused → k ≤ c.max_queue)
    (hi : (s.pc i).pending dq = false) (hpending : ∀ dq', pc'.pending dq' = decide (dq = dq'))
    (hother : ∀ dq', (s.pc i).pending dq' = false)
    (hholds : ∀ x, pc'.holds = some x → x = (d, dq))
    (howners : Owners (Function.update s.pc i pc') queues' s.store.nextQueue)
    (howned : ∀ o' x, slotOf (Function.update s.pc i pc') queues' o' = some x →
      o' ≠ o ∧ slotOf s.pc s.store.queues o' = some x) :
    Inv (⟨{ s.store.write dq c with queues := queues' }, Function.update s.pc i pc'⟩ : State ι) := by
  obtain ⟨hd', hbalanced, _⟩ := h.current d dq hd
  refine h.section hd queues' ⟨hdomain.trans hd', ?_, hmax⟩ ?_ hholds howners ?_
  · rw [Threads.count_update_enter s.pc hi ((hpending dq).trans (decide_eq_true rfl)), hnum,
      occupied_giveBack hqueues]
    exact hbalanced.giveBack (mem_occupied.mpr (h.owned_slot ho hd))
  · intro dq' hdq
    rw [hpending, hother]
    exact decide_eq_false hdq.symm
  · intro o' x ho'
    obtain ⟨hne, ho'⟩ := howned o' x ho'
    refine .inr ⟨ho', fun hxd hslot => ?_⟩
    have hxid : x.2 ≠ id := by
      intro hid
      exact hne (h.owners.once o' o (d, id) (by rw [ho', ← hxd, ← hid]) ho)
    rw [hqueues, Function.update_of_ne hxid]
    exact hslot

/-- A create that fails gives its slot back. -/
theorem Inv.bail (h : Inv s) {d : Domain} {dq : ℕ} {id : Fin maxProcessQueues}
    (hi : s.pc i = .createReserved d dq id) :
    Inv (⟨s.store.setSlot dq id .unused, Function.update s.pc i (.createBailed d dq)⟩ : State ι) := by
  have hd : s.store.domainQueues d = some dq := h.holds i d dq (by rw [hi]; rfl)
  have howner : slotOf s.pc s.store.queues (.inl i) = some (d, id) := by
    rw [slotOf_call, hi]
    rfl
  refine h.giveBack { s.store.heap.cell dq with
      queues := Function.update (s.store.heap.cell dq).queues id .unused } (.createBailed d dq) hd
    s.store.queues howner rfl rfl rfl ?_ (by rw [hi]; rfl)
    (fun _ => rfl) (fun _ => by rw [hi]; rfl) (fun x hx => (Option.some.inj hx).symm)
    (h.owners.move (fun _ hx => nomatch hx) (fun _ hx => nomatch hx))
    (fun o x ho => owned_of_none rfl ho)
  intro k hk
  rcases eq_or_ne k id with rfl | hne
  · exact absurd (Function.update_self _ _ _) hk
  · simp only [Function.update_of_ne hne] at hk
    exact (h.current d dq hd).max k hk

/-- A close gives the slot of its queue back. -/
theorem Inv.release (h : Inv s) {dq q : ℕ} {queue : Queue}
    (hi : s.pc i = .closeInvalidated dq q queue) :
    Inv (⟨closeRelease s.store dq q queue.id,
      Function.update s.pc i (.closeReleased queue.domain dq)⟩ : State ι) := by
  have hd : s.store.domainQueues queue.domain = some dq := h.holds i _ _ (by rw [hi]; rfl)
  have hq : s.store.queues q = some queue := h.owners.closing i q queue (by rw [hi]; rfl)
  set queues := Function.update (s.store.heap.cell dq).queues queue.id .unused with hqueues
  refine h.giveBack { s.store.heap.cell dq with max_queue := lastUsed queues, queues := queues }
    (.closeReleased queue.domain dq) hd _ (slotOf_queue hq) rfl rfl rfl (fun k hk => le_lastUsed _ hk)
    (by rw [hi]; rfl)
    (fun _ => rfl) (fun _ => by rw [hi]; rfl) (fun x hx => (Option.some.inj hx).symm)
    (h.owners.release (by rw [hi]; rfl) rfl rfl) ?_
  intro o x ho
  cases o with
  | inl j => exact ⟨by simp, (owned_of_none (o := .inl j) rfl ho).2⟩
  | inr q' =>
      rcases eq_or_ne q' q with rfl | hne
      · simp [slotOf] at ho
      · exact ⟨by simpa using hne, by simpa [slotOf, hne] using ho⟩

/-- A call that has no slot takes itself off the counter; with the last one the domain queues end. -/
theorem Inv.uncount (h : Inv s) {d : Domain} {dq : ℕ}
    (hi : s.pc i = .createBailed d dq ∨ s.pc i = .closeReleased d dq) :
    0 < (s.store.heap.cell dq).num_queues ∧
      Inv (⟨uncount s.store d dq, Function.update s.pc i .idle⟩ : State ι) := by
  have hd : s.store.domainQueues d = some dq := by
    apply h.holds i d dq
    obtain hi | hi := hi <;> rw [hi] <;> rfl
  have hp : (s.pc i).pending dq = true := by
    obtain hi | hi := hi <;> rw [hi] <;> exact decide_eq_true rfl
  obtain ⟨hdomain, hbalanced, hmax⟩ := h.current d dq hd
  rw [← Threads.count_update_leave (x := .idle) s.pc hp rfl] at hbalanced
  have hnum := hbalanced.num_eq
  have hle := hbalanced.num_le
  rw [Fintype.card_fin, show maxProcessQueues = 64 from rfl] at hle
  have hsub : subU32 (s.store.heap.cell dq).num_queues 1 = (s.store.heap.cell dq).num_queues - 1 :=
    subU32_of_le (by omega) (by omega)
  have hwritten : Inv (⟨s.store.write dq { s.store.heap.cell dq with
      num_queues := subU32 (s.store.heap.cell dq).num_queues 1 },
      Function.update s.pc i .idle⟩ : State ι) := by
    refine h.section hd s.store.queues ⟨hdomain, ?_, hmax⟩ ?_ (fun _ hx => nomatch hx)
      (h.owners.move (fun _ hx => nomatch hx) (fun _ hx => nomatch hx)) ?_
    · rw [hsub]
      exact hbalanced.uncount
    · intro dq' hdq
      obtain hi | hi := hi <;> rw [hi] <;> exact (decide_eq_false hdq.symm).symm
    · intro o x ho
      exact .inr ⟨(owned_of_none rfl ho).2, fun _ => id⟩
  refine ⟨by omega, ?_⟩
  simp only [QueueTable.uncount]
  split_ifs with hzero
  · refine hwritten.destroy hd ?_
    simp only [Store.write, Heap.write, Function.update_self]
    exact hzero
  · exact hwritten

/-- **Every section keeps the invariant.** -/
theorem Inv.advance (h : Inv s) {ok : Bool} {r : Store × Pc}
    (hr : advance s.store ok (s.pc i) = some r) : Inv ⟨r.1, Function.update s.pc i r.2⟩ := by
  cases hi : s.pc i with
  | idle =>
      rw [hi] at hr
      cases hr
  | createEnter d =>
      rw [hi] at hr
      have hpending : ∀ dq, (s.pc i).pending dq = false := fun dq => by rw [hi]; rfl
      have hidle : Inv { s with pc := Function.update s.pc i .idle } :=
        h.move (fun dq => (hpending dq).symm) (fun _ _ hx => nomatch hx) rfl (fun _ hx => nomatch hx)
      -- the domain queues are there, or they are new
      have hcounted : ∀ s' : State ι, Inv s' → s'.pc = s.pc → ∀ dq,
          s'.store.domainQueues d = some dq →
          Inv (if maxProcessQueues ≤ (s'.store.heap.cell dq).num_queues then
              (⟨s'.store.touch dq, Function.update s.pc i .idle⟩ : State ι)
            else ⟨s'.store.write dq { s'.store.heap.cell dq with
                num_queues := (s'.store.heap.cell dq).num_queues + 1 },
              Function.update s.pc i (.createCounted d dq)⟩) := by
        intro s' h' hpc dq hdq
        rw [← hpc] at hi hpending ⊢
        split_ifs with hfull
        · exact h'.leave hdq hpending
        · exact h'.count hdq hi (by omega)
      simp only [QueueTable.advance, createCount] at hr
      cases hd : s.store.domainQueues d with
      | some dq =>
          have hcount := hcounted s h rfl dq hd
          simp only [initDomainQueuesLocked, hd] at hr
          split_ifs at hr hcount
          · obtain rfl := Option.some.inj hr
            exact hcount
          · obtain rfl := Option.some.inj hr
            exact hcount
      | none =>
          simp only [initDomainQueuesLocked, hd] at hr
          cases ok with
          | false =>
              obtain rfl := Option.some.inj hr
              exact hidle
          | true =>
              have hcount := hcounted _ (h.alloc hd) rfl s.store.heap.next
                (Function.update_self _ _ _)
              simp only [if_true, Function.update_self] at hr
              split_ifs at hr hcount
              · obtain rfl := Option.some.inj hr
                exact hcount
              · obtain rfl := Option.some.inj hr
                exact hcount
  | createCounted d dq =>
      rw [hi] at hr
      obtain ⟨id, hfind, hinv⟩ := h.reserve hi
      simp only [QueueTable.advance, createReserve, hfind] at hr hinv
      obtain rfl := Option.some.inj hr
      exact hinv
  | createReserved d dq id =>
      rw [hi] at hr
      simp only [QueueTable.advance] at hr
      split_ifs at hr
      · obtain rfl := Option.some.inj hr
        exact h.publish hi
      · obtain rfl := Option.some.inj hr
        exact h.bail hi
  | createBailed d dq =>
      rw [hi] at hr
      obtain ⟨hpos, hinv⟩ := h.uncount (.inl hi)
      simp only [QueueTable.advance, createUncount, Store.assert, decide_eq_true hpos, if_true,
        Option.some.injEq] at hr
      subst hr
      dsimp only
      exact hinv
  | closeEnter q queue =>
      rw [hi] at hr
      have hq : s.store.queues q = some queue := h.owners.closing i q queue (by rw [hi]; rfl)
      obtain ⟨dq, hd, _⟩ := h.owned (.inr q) _ _ (slotOf_queue hq)
      simp only [QueueTable.advance, hd] at hr
      obtain rfl := Option.some.inj hr
      refine h.move (fun dq => by rw [hi]; rfl) ?_ rfl ?_
      · intro d' dq' hx
        obtain ⟨rfl, rfl⟩ := Prod.mk.inj (Option.some.inj hx)
        exact hd
      · intro x hx
        obtain rfl := Option.some.inj hx
        exact ⟨hq, fun j hji hj => hji (h.owners.closeOnce j i _ hj (by rw [hi]; rfl))⟩
  | closeFound dq q queue =>
      rw [hi] at hr
      simp only [QueueTable.advance] at hr
      split_ifs at hr
      · obtain rfl := Option.some.inj hr
        exact h.invalidate hi
      · obtain rfl := Option.some.inj hr
        exact h.leave (h.holds i queue.domain dq (by rw [hi]; rfl)) (fun _ => by rw [hi]; rfl)
  | closeInvalidated dq q queue =>
      rw [hi] at hr
      simp only [QueueTable.advance] at hr
      split_ifs at hr
      · obtain rfl := Option.some.inj hr
        exact h.release hi
      · obtain rfl := Option.some.inj hr
        exact h.leave (h.holds i queue.domain dq (by rw [hi]; rfl)) (fun _ => by rw [hi]; rfl)
  | closeReleased d dq =>
      rw [hi] at hr
      simp only [QueueTable.advance, Option.some.injEq] at hr
      subst hr
      obtain ⟨_, hinv⟩ := h.uncount (.inr hi)
      dsimp only
      exact hinv

/-- **Every step keeps the invariant.** -/
theorem Inv.step {t : State ι} {e : Event ι} (h : Inv s) (ht : step s e = some t) : Inv t := by
  cases e with
  | create i domain =>
      simp only [QueueTable.step] at ht
      split_ifs at ht with hi
      obtain rfl := Option.some.inj ht
      exact h.move (fun _ => by rw [hi]; rfl) (fun _ _ hx => nomatch hx) rfl (fun _ hx => nomatch hx)
  | close i q =>
      simp only [QueueTable.step] at ht
      cases hq : s.store.queues q with
      | none =>
          rw [hq] at ht
          cases ht
      | some queue =>
          rw [hq] at ht
          simp only at ht
          split_ifs at ht with hi
          obtain rfl := Option.some.inj ht
          refine h.move (fun _ => by rw [hi.1]; rfl) (fun _ _ hx => nomatch hx) rfl ?_
          intro x hx
          obtain rfl := Option.some.inj hx
          exact ⟨hq, fun j _ => hi.2 j⟩
  | next i ok =>
      obtain ⟨r, hr, rfl⟩ := Option.map_eq_some_iff.mp ht
      exact h.advance hr

end Invariant

/-- **The bookkeeping of the queue table.** However any number of threads create and close queues, every
state has its slots, its counter and its domain queues right. -/
theorem queue_table_bookkeeping [Fintype ι] [DecidableEq ι] (es : List (Event ι)) :
    Along step TableOk (init : State ι) es :=
  (along_and_guarded (C := fun _ _ => True) (D := fun _ _ => True) (fun _ _ _ h _ ht => h.step ht)
    (fun _ h => h.tableOk) (fun _ _ _ _ => trivial) inv_init
    (guarded_of_forall (fun _ _ => trivial) _ _)).1

end FastRpc.QueueTable
