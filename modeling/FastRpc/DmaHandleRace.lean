import FastRpc.DmaHandles
import FastRpc.Transition

/-! # One slot for each DMA handle

A registration looks for its descriptor in one locked section and inserts it in another.  Two calls that
both search before either inserts give one descriptor two slots (`registered_twice`); each use of it is
then counted in the first of them, and the other one is found again when the first is released.

`one_slot_per_fd` says when this does not happen: no call inserts a descriptor that has a slot by then,
and no use count passes `INT_MAX`. -/

namespace FastRpc.DmaHandles

open CInt Transition

/-! ### The steps -/

/-- Where a thread is: outside of the calls, or between the two sections of a registration. -/
inductive Pc
  | idle
  | inserting (fd : ℤ) (len attr : UInt32)
  deriving DecidableEq, Repr

/-- The table, the threads, and for each descriptor the registrations that succeeded less the
unregistrations that found it. -/
structure Shared (ι : Type) where
  table : DmaTable
  pc : ι → Pc
  net : ℤ → ℤ

/-- The locked sections. -/
inductive Section (ι : Type)
  | search (i : ι) (fd : ℤ) (len attr : UInt32)
  | insert (i : ι)
  | unregister (fd : ℤ)
  deriving DecidableEq, Repr

/-- The registrations less the unregistrations of a descriptor change by `k`. -/
def addNet (net : ℤ → ℤ) (fd k : ℤ) : ℤ → ℤ := Function.update net fd (net fd + k)

variable {ι : Type}

/-- One locked section. -/
def step [DecidableEq ι] (w : Shared ι) : Section ι → Option (Shared ι)
  | .search i fd len attr =>
      match w.pc i, DmaTable.registerChecks true fd attr with
      | .idle, .ok () =>
          match w.table.countUse fd attr with
          | some t => some { w with table := t, net := addNet w.net fd 1 }
          | none => some { w with pc := Function.update w.pc i (.inserting fd len attr) }
      | _, _ => none
  | .insert i =>
      match w.pc i with
      | .inserting fd len attr =>
          match w.table.insert fd len attr with
          | .ok t => some ⟨t, Function.update w.pc i .idle, addNet w.net fd 1⟩
          | .error _ => some { w with pc := Function.update w.pc i .idle }
      | .idle => none
  | .unregister fd =>
      some { w with
        table := (w.table.unregister fd).2
        net := if (w.table.findFd fd).isSome then addNet w.net fd (-1) else w.net }

/-- No thread is in a call and no slot in use. -/
def idle (ι : Type) : Shared ι := ⟨DmaTable.empty, fun _ => .idle, fun _ => 0⟩

/-! ### The property and the condition -/

/-- At most one used slot carries a descriptor, and its use count is the number of registrations of the
descriptor less its unregistrations. -/
def OneSlot (w : Shared ι) : Prop :=
  (∀ fd i j, Holds w.table fd i → Holds w.table fd j → i = j) ∧
    ∀ fd i, Holds w.table fd i → (w.table.dhandles i).used = w.net fd

/-- No slot is left for another descriptor. -/
def Full (s : DmaTable) : Prop := s.findUnused = none ∧ maxDmaHandles ≤ s.dmaHandleCount

instance (s : DmaTable) : Decidable (Full s) := inferInstanceAs (Decidable (_ ∧ _))

/-- A use that is counted does not overflow, and a descriptor that is inserted has no slot, unless the
table is full. -/
def InsertsAlone (w : Shared ι) : Section ι → Prop
  | .search _ fd _ _ => ∀ i ∈ w.table.findFd fd, (w.table.dhandles i).used < intMax
  | .insert i =>
      match w.pc i with
      | .inserting fd _ _ => w.table.findFd fd = none ∨ Full w.table
      | .idle => True
  | .unregister _ => True

instance (w : Shared ι) : (e : Section ι) → Decidable (InsertsAlone w e)
  | .search _ fd _ _ =>
      inferInstanceAs (Decidable (∀ i ∈ w.table.findFd fd, (w.table.dhandles i).used < intMax))
  | .insert i =>
      match h : w.pc i with
      | .inserting fd _ _ => decidable_of_iff (w.table.findFd fd = none ∨ Full w.table)
          (by unfold InsertsAlone; simp only [h])
      | .idle => isTrue (by unfold InsertsAlone; simp only [h])
  | .unregister _ => isTrue trivial

/-! ### The invariant -/

/-- The map that the table stands for counts the registrations less the unregistrations. -/
structure Counts (w : Shared ι) : Prop where
  inv : Inv w.table
  used : ∀ fd u, w.table.view fd = some u → u.count = w.net fd ∧ 0 < u.count ∧ u.count ≤ intMax
  unused : ∀ fd, w.table.view fd = none → w.net fd = 0

theorem Counts.oneSlot {w : Shared ι} (h : Counts w) : OneSlot w :=
  ⟨h.inv.once, fun fd _ hi => (h.used fd _ (view_of_holds h.inv hi)).1⟩

theorem counts_idle : Counts (idle ι) where
  inv := inv_empty
  used := fun fd u hview => absurd hview (by
    rw [view_of_not_holds (fun i hi => absurd hi.1 (Nat.not_lt_zero _))]; simp)
  unused := fun _ _ => rfl

/-- The view of one descriptor changes together with its number. -/
theorem Counts.update {w w' : Shared ι} (h : Counts w) (hinv : Inv w'.table) {fd k : ℤ}
    {u : Option Use} (hview : w'.table.view = Function.update w.table.view fd u)
    (hnet : w'.net = addNet w.net fd k)
    (hsome : ∀ v, u = some v → v.count = w.net fd + k ∧ 0 < v.count ∧ v.count ≤ intMax)
    (hnone : u = none → w.net fd + k = 0) : Counts w' := by
  refine ⟨hinv, fun fd' v hv => ?_, fun fd' hv => ?_⟩
  · rw [hview] at hv
    rw [hnet, addNet]
    rcases eq_or_ne fd' fd with rfl | hne
    · rw [Function.update_self] at hv ⊢
      exact hsome v hv
    · rw [Function.update_of_ne hne] at hv ⊢
      exact h.used fd' v hv
  · rw [hview] at hv
    rw [hnet, addNet]
    rcases eq_or_ne fd' fd with rfl | hne
    · rw [Function.update_self] at hv ⊢
      exact hnone hv
    · rw [Function.update_of_ne hne] at hv ⊢
      exact h.unused fd' hv

/-- A thread moves. -/
theorem Counts.moved {w : Shared ι} (h : Counts w) (pc : ι → Pc) : Counts { w with pc := pc } :=
  ⟨h.inv, h.used, h.unused⟩

section Steps

variable [DecidableEq ι] {w t : Shared ι} {i : ι} {fd : ℤ} {len attr : UInt32}

/-- What the first section of a registration does. -/
theorem search_cases (hstep : step w (.search i fd len attr) = some t) :
    (∃ s, w.table.countUse fd attr = some s ∧
      t = { w with table := s, net := addNet w.net fd 1 }) ∨
      w.table.countUse fd attr = none ∧
        t = { w with pc := Function.update w.pc i (.inserting fd len attr) } := by
  simp only [step] at hstep
  cases hpc : w.pc i with
  | inserting fd' len' attr' => rw [hpc] at hstep; exact nomatch hstep
  | idle =>
      cases hchecks : DmaTable.registerChecks true fd attr with
      | error e => rw [hpc, hchecks] at hstep; exact nomatch hstep
      | ok u =>
          rw [hpc, hchecks] at hstep
          cases hcount : w.table.countUse fd attr with
          | some s => rw [hcount] at hstep; exact Or.inl ⟨s, rfl, (Option.some.inj hstep).symm⟩
          | none => rw [hcount] at hstep; exact Or.inr ⟨rfl, (Option.some.inj hstep).symm⟩

theorem counts_search (h : Counts w) (hC : InsertsAlone w (.search i fd len attr))
    (hstep : step w (.search i fd len attr) = some t) : Counts t := by
  rcases search_cases hstep with ⟨s, hs, rfl⟩ | ⟨_, rfl⟩
  · cases hf : w.table.findFd fd with
    | none => rw [DmaTable.countUse, hf] at hs; cases hs
    | some slot =>
        obtain ⟨s', hs', hinv, hview⟩ := countUse_view attr h.inv hf
        obtain rfl := Option.some.inj (hs.symm.trans hs')
        obtain ⟨hnet, hpos, _⟩ := h.used fd _ (view_of_holds h.inv (findFd_some hf))
        have hmax : (w.table.dhandles slot).used < intMax := hC slot hf
        have hnet : (w.table.dhandles slot).used = w.net fd := hnet
        have hpos : 0 < (w.table.dhandles slot).used := hpos
        have hwrap : wrap ((w.table.dhandles slot).used + 1) = (w.table.dhandles slot).used + 1 :=
          wrap_of_inRange (inRange_of_nonneg (by omega) (by omega))
        have hne : (w.table.dhandles slot).used + 1 ≠ 0 := by omega
        rw [hwrap, Use.withCount, if_neg hne] at hview
        refine h.update hinv hview rfl (fun v hv => ?_) (by rintro ⟨⟩)
        rw [← Option.some.inj hv]
        exact ⟨by simp only; omega, by simp only; omega, by simp only; omega⟩
  · exact h.moved _

omit [DecidableEq ι] in
theorem insert_full (hfull : Full w.table) : w.table.insert fd len attr = .error .EINVHANDLE := by
  unfold DmaTable.insert
  rw [hfull.1]
  exact if_pos hfull.2

theorem counts_insert (h : Counts w) (hC : InsertsAlone w (.insert i))
    (hstep : step w (.insert i) = some t) : Counts t := by
  unfold step at hstep
  cases hpc : w.pc i with
  | idle => simp only [hpc] at hstep; exact nomatch hstep
  | inserting fd len attr =>
      simp only [hpc] at hstep
      simp only [InsertsAlone, hpc] at hC
      rcases hC with hnone | hfull
      · rcases insert_view len attr h.inv (findFd_none hnone) with
          ⟨s, hs, hinv, hview, _⟩ | ⟨hs, _⟩
        · rw [hs] at hstep
          obtain rfl := Option.some.inj hstep
          have hzero := h.unused fd (view_of_not_holds (findFd_none hnone))
          refine h.update hinv hview rfl (fun v hv => ?_) (fun hv => nomatch hv)
          rw [← Option.some.inj hv]
          have hone : (1 : ℤ) ≤ intMax := by decide
          exact ⟨by simp only; omega, by simp only; omega, hone⟩
        · rw [hs] at hstep
          exact Option.some.inj hstep ▸ h.moved _
      · rw [insert_full hfull] at hstep
        exact Option.some.inj hstep ▸ h.moved _

theorem counts_unregister (h : Counts w) (hstep : step w (.unregister fd) = some t) :
    Counts t := by
  obtain rfl := Option.some.inj hstep
  obtain ⟨hinv, _, hview⟩ := unregister_view h.inv fd
  unfold DmaMap.unregister at hview
  cases hf : w.table.findFd fd with
  | none =>
      rw [view_of_not_holds (findFd_none hf)] at hview
      refine ⟨hinv, ?_, ?_⟩
      · simpa [hview] using h.used
      · simpa [hview] using h.unused
  | some slot =>
      have hat := view_of_holds h.inv (findFd_some hf)
      simp only [hat] at hview
      obtain ⟨hnet, hpos, hmax⟩ := h.used fd _ hat
      have hwrap : wrap ((w.table.dhandles slot).use.count - 1) =
          (w.table.dhandles slot).use.count - 1 :=
        wrap_of_inRange (inRange_of_nonneg (by omega) (by omega))
      rw [hwrap] at hview
      refine h.update (k := -1) hinv hview (by simp) (fun v hv => ?_) (fun hv => ?_)
      · unfold Use.withCount at hv
        split_ifs at hv with hzero
        rw [← Option.some.inj hv]
        exact ⟨by simp only; omega, by simp only; omega, by simp only; omega⟩
      · unfold Use.withCount at hv
        split_ifs at hv with hzero
        omega

theorem counts_step (w : Shared ι) (e : Section ι) (t : Shared ι) (h : Counts w)
    (hC : InsertsAlone w e) (hstep : step w e = some t) : Counts t := by
  cases e with
  | search i fd len attr => exact counts_search h hC hstep
  | insert i => exact counts_insert h hC hstep
  | unregister fd => exact counts_unregister h hstep

/-- What an insertion writes. -/
theorem insert_slot {s s' : DmaTable} (h : s.insert fd len attr = .ok s') :
    ∃ k, ((s.dhandles k).used = 0 ∨ k = s.dmaHandleCount) ∧ Holds s' fd k ∧
      s.dmaHandleCount ≤ s'.dmaHandleCount ∧ ∀ j, j ≠ k → s'.dhandles j = s.dhandles j := by
  unfold DmaTable.insert at h
  cases hfree : s.findUnused with
  | some k =>
      obtain ⟨hlt, hunused⟩ := findUnused_some hfree
      rw [hfree] at h
      obtain rfl := Except.ok.inj h
      refine ⟨k, Or.inl hunused, ⟨hlt, ?_, ?_⟩, le_rfl, fun j hj => Function.update_of_ne hj _ _⟩
      · simp [DmaTable.setSlot]
      · simp [DmaTable.setSlot]
  | none =>
      rw [hfree] at h
      simp only at h
      split_ifs at h
      obtain rfl := Except.ok.inj h
      refine ⟨s.dmaHandleCount, Or.inr rfl, ⟨Nat.lt_succ_self _, ?_, ?_⟩, Nat.le_succ _,
        fun j hj => Function.update_of_ne hj _ _⟩
      · simp [DmaTable.setSlot]
      · simp [DmaTable.setSlot]

/-- A step outside of the condition gives a descriptor two slots, or a count past `INT_MAX`. -/
theorem not_oneSlot_step (w : Shared ι) (e : Section ι) (t : Shared ι) (h : Counts w)
    (hC : ¬ InsertsAlone w e) (hstep : step w e = some t) : ¬ OneSlot t := by
  rintro ⟨honce, hused⟩
  cases e with
  | unregister fd => exact hC trivial
  | search i fd len attr =>
      simp only [InsertsAlone, not_forall] at hC
      obtain ⟨slot, hf, hmax⟩ := hC
      have hi := findFd_some hf
      obtain ⟨hnet, hpos, hle⟩ := h.used fd _ (view_of_holds h.inv hi)
      have hnet : (w.table.dhandles slot).used = w.net fd := hnet
      have hle : (w.table.dhandles slot).used ≤ intMax := hle
      have hat : (w.table.dhandles slot).used = intMax := by omega
      obtain ⟨s, hs, hinv, hview⟩ := countUse_view attr h.inv hf
      rcases search_cases hstep with ⟨s', hs', rfl⟩ | ⟨hnone, _⟩
      · obtain rfl := Option.some.inj (hs.symm.trans hs')
        have hwrap : wrap (intMax + 1) = -2 ^ 31 := by decide
        rw [hat, hwrap, Use.withCount, if_neg (by decide)] at hview
        have hview' := congrFun hview fd
        rw [Function.update_self] at hview'
        cases hf' : s.findFd fd with
        | none => rw [view_of_not_holds (findFd_none hf')] at hview'; cases hview'
        | some slot' =>
            have hi' := findFd_some hf'
            rw [view_of_holds hinv hi'] at hview'
            have hcount : (s.dhandles slot').used = -2 ^ 31 :=
              congrArg Use.count (Option.some.inj hview')
            have hnet' := hused fd slot' hi'
            have hnew : addNet w.net fd 1 fd = w.net fd + 1 := by simp [addNet]
            simp only [hnew, hcount] at hnet'
            omega
      · cases hs.symm.trans hnone
  | insert i =>
      unfold step at hstep
      cases hpc : w.pc i with
      | idle => simp only [hpc] at hstep; cases hstep
      | inserting fd len attr =>
          simp only [hpc] at hstep
          simp only [InsertsAlone, hpc, not_or] at hC
          obtain ⟨slot, hf⟩ := Option.ne_none_iff_exists'.mp hC.1
          have hi := findFd_some hf
          cases hs : w.table.insert fd len attr with
          | ok s =>
              rw [hs] at hstep
              obtain rfl := Option.some.inj hstep
              obtain ⟨k, hfree, hk, hcount, hothers⟩ := insert_slot hs
              have hne : slot ≠ k := by
                rintro rfl
                rcases hfree with hunused | hend
                · exact hi.2.1 hunused
                · exact absurd hi.1 (by omega)
              have hslot : Holds s fd slot := by
                refine ⟨lt_of_lt_of_le hi.1 hcount, ?_⟩
                rw [hothers slot hne]
                exact hi.2
              exact hne (honce fd slot k hslot hk)
          | error e =>
              refine hC.2 ?_
              unfold DmaTable.insert at hs
              cases hfree : w.table.findUnused with
              | some k => rw [hfree] at hs; cases hs
              | none =>
                  rw [hfree] at hs
                  simp only at hs
                  split_ifs at hs with hfull
                  exact ⟨hfree, hfull⟩

/-- **One slot for each descriptor.** In every state of a run at most one used slot carries a
descriptor, and its count is the number of registrations less unregistrations, exactly when no call
inserts a descriptor that has a slot by then (unless the table is full) and no count passes
`INT_MAX`. -/
theorem one_slot_per_fd {es : List (Section ι)} {t : Shared ι}
    (hrun : run step (idle ι) es = some t) :
    Along step OneSlot (idle ι) es ↔ Guarded step InsertsAlone (idle ι) es :=
  along_iff_guarded counts_step (fun _ => Counts.oneSlot) not_oneSlot_step counts_idle hrun

end Steps

/-- Two threads register and release two descriptors, one search after the other's insertion. -/
def alternating : List (Section (Fin 2)) :=
  [.search 0 5 4096 0, .insert 0, .search 1 5 64 16, .search 1 6 64 0, .unregister 5, .insert 1,
    .unregister 5]

theorem one_slot_per_fd_alternating : Along step OneSlot (idle (Fin 2)) alternating := by
  obtain ⟨t, hrun⟩ := Option.isSome_iff_exists.mp
    (show (run step (idle (Fin 2)) alternating).isSome = true by decide +kernel)
  exact (one_slot_per_fd hrun).mpr (by decide +kernel)

/-- Two registrations of a descriptor whose searches both come first give it two slots. -/
theorem registered_twice :
    ∃ t, run step (idle (Fin 2))
      [.search 0 5 4096 0, .search 1 5 64 0, .insert 0, .insert 1] = some t ∧
        Holds t.table 5 0 ∧ Holds t.table 5 1 ∧ ¬ OneSlot t := by
  refine ⟨_, rfl, by decide +kernel, by decide +kernel, ?_⟩
  intro h
  exact absurd (h.1 5 0 1 (by decide +kernel) (by decide +kernel)) (by decide)

end FastRpc.DmaHandles
