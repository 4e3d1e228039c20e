import FastRpc.BlockHeap
import FastRpc.DomainContext
import FastRpc.Threads
import FastRpc.Transition

/-! # The lifetime of a context

`fastrpc_destroy_context` looks its context up in one locked section and takes it out of the table in
another; then it asks for the device, tells the driver, and frees the context.  A destroy that fails on
the way has taken the context out of the table already: nobody can find it any more, and nobody frees it.
Two threads that both find a context both take it out and both free it.

A context is named by its allocation.  The results of `get_device_fd` and of the driver are part of the
steps, and so are the contexts that `fastrpc_create_context` adds.  `contexts_whole_or_gone` says when every
context is in the table as it was created, or under destruction by a thread, or gone. -/

namespace FastRpc.ContextLifetime

open BlockHeap Transition DomainContext

/-! ### The steps -/

/-- Where a thread is in `fastrpc_destroy_context`. -/
inductive Pc
  | idle
  | found (ctx : ℕ)
  | removed (ctx : ℕ)
  | opened (ctx : ℕ)
  | deregistered (ctx : ℕ)
  deriving DecidableEq, Repr

/-- The flag and the table of `gctx`, the contexts in memory, the threads, the contexts as they were created, and the
deletions from the table. -/
structure World (ι : Type) where
  init : Bool
  heap : Heap Context
  table : List ℕ
  pc : ι → Pc
  created : List Context
  deleted : List ℕ

/-- The steps of the threads. -/
inductive Step (ι : Type)
  | create (ctx : Context)
  | validate (i : ι) (ctxid : ℕ)
  | removeFromTable (i : ι)
  | getDeviceFd (i : ι) (dev : ℤ)
  | ioctlMdctxManage (i : ι) (nErr : ℤ)
  | deinit (i : ι)
  deriving DecidableEq, Repr

variable {ι : Type}

/-- `fastrpc_context_validate`. -/
def fastrpcContextValidate (w : World ι) (ctxid : ℕ) : Option ℕ :=
  w.table.find? (fun ctx => (w.heap.cell ctx).ctxid = ctxid)

/-- `fastrpc_context_get_domains`. -/
def fastrpcContextGetDomains (w : World ι) (ctxid : ℕ) : Except ℤ (List Domain) :=
  match fastrpcContextValidate w ctxid with
  | none => .error aeeEBadContext
  | some ctx => .ok (w.heap.cell ctx).effec_domain_ids

/-- One step.  The kernel gives a new context an id that no context in the table has.  A destroy returns
when its thread is idle again. -/
def step [DecidableEq ι] (w : World ι) : Step ι → Option (World ι)
  | .create ctx =>
      if w.init = false ∨ (fastrpcContextValidate w ctx.ctxid).isSome then none
      else some { w with
        heap := w.heap.alloc ctx, table := w.table ++ [w.heap.next], created := w.created ++ [ctx] }
  | .validate i ctxid =>
      match w.pc i with
      | .idle =>
          if w.init = false then some w
          else
            match fastrpcContextValidate w ctxid with
            | none => some w
            | some ctx => some { w with pc := Function.update w.pc i (.found ctx) }
      | _ => none
  | .removeFromTable i =>
      match w.pc i with
      | .found ctx =>
          some { w with
            heap := w.heap.touch ctx, table := w.table.erase ctx, deleted := w.deleted ++ [ctx]
            pc := Function.update w.pc i (.removed ctx) }
      | _ => none
  | .getDeviceFd i dev =>
      match w.pc i with
      | .removed ctx =>
          some { w with
            heap := w.heap.touch ctx
            pc := Function.update w.pc i (if dev = -1 then .idle else .opened ctx) }
      | _ => none
  | .ioctlMdctxManage i nErr =>
      match w.pc i with
      | .opened ctx =>
          some { w with
            heap := w.heap.touch ctx
            pc := Function.update w.pc i (if nErr = aeeSuccess then .deregistered ctx else .idle) }
      | _ => none
  | .deinit i =>
      match w.pc i with
      | .deregistered ctx =>
          some { w with heap := (w.heap.touch ctx).free ctx, pc := Function.update w.pc i .idle }
      | _ => none

/-- No context was created yet. -/
def start (ι : Type) (init : Bool) : World ι := ⟨init, Heap.empty ⟨[], [], 0⟩, [], fun _ => .idle, [], []⟩

/-! ### The property and the condition -/

/-- The context that a thread has taken out of the table. -/
def Pc.working : Pc → Option ℕ
  | .idle | .found _ => none
  | .removed ctx | .opened ctx | .deregistered ctx => some ctx

/-- The context is in memory as it was created, and its id leads to it. -/
def Whole (w : World ι) (ctx : ℕ) : Prop :=
  w.heap.Live ctx ∧ w.created[ctx]? = some (w.heap.cell ctx) ∧
    fastrpcContextValidate w (w.heap.cell ctx).ctxid = some ctx

/-- A destroy of the context is under way. -/
def UnderWay (w : World ι) (ctx : ℕ) : Prop := ∃ i, (w.pc i).working = some ctx

/-- The context was taken out of the table once and freed once. -/
def Gone (w : World ι) (ctx : ℕ) : Prop :=
  ctx ∉ w.table ∧ w.deleted.count ctx = 1 ∧ w.heap.freed.count ctx = 1

/-- Every context is whole, under destruction or gone; nothing was taken out of the table or freed twice,
and nothing was used after it was freed. -/
structure WholeOrGone (w : World ι) : Prop where
  contexts : ∀ ctx < w.heap.next, Whole w ctx ∨ UnderWay w ctx ∨ Gone w ctx
  deleted : w.deleted.Nodup
  clean : w.heap.Clean

/-- The context that a thread takes out of the table is still in it, the device is found, and the driver
does not fail. -/
def Serves (w : World ι) : Step ι → Prop
  | .create _ | .validate _ _ | .deinit _ => True
  | .removeFromTable i =>
      match w.pc i with
      | .found ctx => ctx ∈ w.table
      | _ => True
  | .getDeviceFd _ dev => dev ≠ -1
  | .ioctlMdctxManage _ nErr => nErr = aeeSuccess

instance (w : World ι) : (e : Step ι) → Decidable (Serves w e)
  | .create _ | .validate _ _ | .deinit _ => isTrue trivial
  | .removeFromTable i =>
      match h : w.pc i with
      | .found ctx => decidable_of_iff (ctx ∈ w.table) (by simp only [Serves, h])
      | .idle | .removed _ | .opened _ | .deregistered _ => isTrue (by simp only [Serves, h])
  | .getDeviceFd _ dev => inferInstanceAs (Decidable (dev ≠ -1))
  | .ioctlMdctxManage _ nErr => inferInstanceAs (Decidable (nErr = aeeSuccess))

/-! ### The invariant -/

/-- A context that is not in the table was taken out of it once, and then one thread works on it or it was
freed. -/
structure Inv (w : World ι) : Prop where
  clean : w.heap.Clean
  deletedOnce : w.deleted.Nodup
  tableOnce : w.table.Nodup
  ids : ∀ p ∈ w.table, ∀ q ∈ w.table, (w.heap.cell p).ctxid = (w.heap.cell q).ctxid → p = q
  length : w.created.length = w.heap.next
  created : ∀ p < w.heap.next, w.created[p]? = some (w.heap.cell p)
  table : ∀ p ∈ w.table, p < w.heap.next ∧ p ∉ w.deleted
  deleted : ∀ p ∈ w.deleted, p < w.heap.next
  taken : ∀ p < w.heap.next, p ∉ w.table → p ∈ w.deleted
  ended : ∀ p ∈ w.deleted, p ∉ w.heap.freed → UnderWay w p
  freed : ∀ p ∈ w.heap.freed, p ∈ w.deleted
  working : ∀ i p, (w.pc i).working = some p → p ∈ w.deleted ∧ p ∉ w.heap.freed
  alone : ∀ i j p, (w.pc i).working = some p → (w.pc j).working = some p → i = j
  found : ∀ i p, w.pc i = .found p → p < w.heap.next

theorem inv_start (init : Bool) : Inv (start ι init) where
  clean := Heap.clean_empty _
  deletedOnce := List.nodup_nil
  tableOnce := List.nodup_nil
  ids := fun _ hp => absurd hp List.not_mem_nil
  length := rfl
  created := fun _ hp => absurd hp (Nat.not_lt_zero _)
  table := fun _ hp => absurd hp List.not_mem_nil
  deleted := fun _ hp => absurd hp List.not_mem_nil
  taken := fun _ hp => absurd hp (Nat.not_lt_zero _)
  ended := fun _ hp => absurd hp List.not_mem_nil
  freed := fun _ hp => absurd hp List.not_mem_nil
  working := fun _ _ h => nomatch h
  alone := fun _ _ _ h => nomatch h
  found := fun _ _ h => nomatch h

section Invariant

variable {w : World ι} {p : ℕ}

/-- The id of a context in the table leads to it. -/
theorem validate_of_mem (h : Inv w) (hp : p ∈ w.table) :
    fastrpcContextValidate w (w.heap.cell p).ctxid = some p := by
  unfold fastrpcContextValidate
  cases hfind : w.table.find? (fun ctx => (w.heap.cell ctx).ctxid = (w.heap.cell p).ctxid) with
  | none => exact absurd (decide_eq_true rfl) (List.find?_eq_none.mp hfind p hp)
  | some q =>
      have hid : (w.heap.cell q).ctxid = (w.heap.cell p).ctxid := by simpa using List.find?_some hfind
      rw [h.ids q (List.mem_of_find?_eq_some hfind) p hp hid]

theorem live_of_mem (h : Inv w) (hp : p ∈ w.table) : w.heap.Live p :=
  ⟨(h.table p hp).1, fun hfreed => (h.table p hp).2 (h.freed p hfreed)⟩

theorem live_of_working {i : ι} (h : Inv w) (hi : (w.pc i).working = some p) : w.heap.Live p :=
  ⟨h.deleted p (h.working i p hi).1, (h.working i p hi).2⟩

theorem Inv.wholeOrGone (h : Inv w) : WholeOrGone w := by
  refine ⟨fun p hp => ?_, h.deletedOnce, h.clean⟩
  by_cases htable : p ∈ w.table
  · exact Or.inl ⟨live_of_mem h htable, h.created p hp, validate_of_mem h htable⟩
  · have hdeleted := h.taken p hp htable
    by_cases hfreed : p ∈ w.heap.freed
    · exact Or.inr (Or.inr ⟨htable, List.count_eq_one_of_mem h.deletedOnce hdeleted,
        List.count_eq_one_of_mem h.clean.1 hfreed⟩)
    · exact Or.inr (Or.inl (h.ended p hdeleted hfreed))

/-- A thread moves, without touching what it works on. -/
theorem Inv.moved [DecidableEq ι] (h : Inv w) {i : ι} {pc : Pc} (hworking : pc.working = (w.pc i).working)
    (hfound : ∀ q, pc = .found q → q < w.heap.next) :
    Inv { w with pc := Function.update w.pc i pc } := by
  have hsame : ∀ j, (Function.update w.pc i pc j).working = (w.pc j).working := by
    intro j
    rcases eq_or_ne j i with rfl | hne
    · rw [Function.update_self, hworking]
    · rw [Function.update_of_ne hne]
  refine { h with ended := fun q hq hfreed => ?_, working := fun j q hj => ?_, alone := fun j k q hj hk => ?_,
                  found := fun j q hj => ?_ }
  · obtain ⟨j, hj⟩ := h.ended q hq hfreed
    exact ⟨j, (hsame j).trans hj⟩
  · exact h.working j q ((hsame j).symm.trans hj)
  · exact h.alone j k q ((hsame j).symm.trans hj) ((hsame k).symm.trans hk)
  · change Function.update w.pc i pc j = .found q at hj
    rcases eq_or_ne j i with rfl | hne
    · exact hfound q (by rwa [Function.update_self] at hj)
    · exact h.found j q (by rwa [Function.update_of_ne hne] at hj)

/-- A new context. -/
theorem inv_create (h : Inv w) {ctx : Context} (hid : fastrpcContextValidate w ctx.ctxid = none) :
    Inv { w with
      heap := w.heap.alloc ctx, table := w.table ++ [w.heap.next], created := w.created ++ [ctx] } := by
  have hold : ∀ q < w.heap.next, Function.update w.heap.cell w.heap.next ctx q = w.heap.cell q :=
    fun q hq => Function.update_of_ne (Nat.ne_of_lt hq) _ _
  have hnew : ∀ q ∈ w.table, (w.heap.cell q).ctxid ≠ ctx.ctxid := by
    intro q hq heq
    exact absurd (decide_eq_true heq) (List.find?_eq_none.mp hid q hq)
  have hmem : ∀ q ∈ w.table ++ [w.heap.next], q ∈ w.table ∧ q < w.heap.next ∨ q = w.heap.next := by
    intro q hq
    rcases List.mem_append.mp hq with hq | hq
    · exact Or.inl ⟨hq, (h.table q hq).1⟩
    · exact Or.inr (List.mem_singleton.mp hq)
  have hnext : w.heap.next ∉ w.deleted := fun hdeleted => Nat.lt_irrefl _ (h.deleted _ hdeleted)
  refine { h with clean := h.clean.alloc ctx, tableOnce := ?_, ids := ?_, length := ?_, created := ?_,
                  table := ?_, deleted := ?_, taken := ?_, found := ?_ }
  · exact List.nodup_append.mpr ⟨h.tableOnce, List.nodup_singleton _, fun a ha b hb => by
      rw [List.mem_singleton.mp hb]
      exact Nat.ne_of_lt (h.table a ha).1⟩
  · intro q hq r hr heq
    change (Function.update w.heap.cell w.heap.next ctx q).ctxid =
      (Function.update w.heap.cell w.heap.next ctx r).ctxid at heq
    rcases hmem q hq with ⟨hq, hqlt⟩ | rfl <;> rcases hmem r hr with ⟨hr, hrlt⟩ | rfl
    · rw [hold q hqlt, hold r hrlt] at heq
      exact h.ids q hq r hr heq
    · rw [hold q hqlt, Function.update_self] at heq
      exact absurd heq (hnew q hq)
    · rw [hold r hrlt, Function.update_self] at heq
      exact absurd heq.symm (hnew r hr)
    · rfl
  · change (w.created ++ [ctx]).length = w.heap.next + 1
    rw [List.length_append, h.length]
    rfl
  · intro q hq
    change (w.created ++ [ctx])[q]? = some (Function.update w.heap.cell w.heap.next ctx q)
    rcases Nat.lt_or_eq_of_le (Nat.le_of_lt_succ hq) with hlt | rfl
    · rw [List.getElem?_append_left (h.length ▸ hlt), hold q hlt, h.created q hlt]
    · rw [Function.update_self, ← h.length, List.getElem?_concat_length]
  · intro q hq
    rcases hmem q hq with ⟨hq, hlt⟩ | rfl
    · exact ⟨Nat.lt_succ_of_lt hlt, (h.table q hq).2⟩
    · exact ⟨Nat.lt_succ_self _, hnext⟩
  · exact fun q hq => Nat.lt_succ_of_lt (h.deleted q hq)
  · intro q hq hnot
    rcases Nat.lt_or_eq_of_le (Nat.le_of_lt_succ hq) with hlt | rfl
    · exact h.taken q hlt (fun hmem => hnot (List.mem_append_left _ hmem))
    · exact absurd (List.mem_append_right _ List.mem_cons_self) hnot
  · exact fun i q hq => Nat.lt_succ_of_lt (h.found i q hq)

section Threads

variable [DecidableEq ι] {i : ι}

/-- What the threads work on when one of them has moved. -/
theorem working_update {pc : Pc} {j : ι} {q : ℕ} (hj : (Function.update w.pc i pc j).working = some q) :
    j = i ∧ pc.working = some q ∨ j ≠ i ∧ (w.pc j).working = some q := by
  rcases eq_or_ne j i with rfl | hne
  · rw [Function.update_self] at hj
    exact Or.inl ⟨rfl, hj⟩
  · rw [Function.update_of_ne hne] at hj
    exact Or.inr ⟨hne, hj⟩

theorem underWay_update {pc : Pc} {q : ℕ} (h : UnderWay w q) (hi : (w.pc i).working ≠ some q) :
    ∃ j, (Function.update w.pc i pc j).working = some q := by
  obtain ⟨j, hj⟩ := h
  have hne : j ≠ i := by
    rintro rfl
    exact hi hj
  exact ⟨j, by rwa [Function.update_of_ne hne]⟩

theorem found_update (pc : Pc) {j : ι} {q : ℕ} (hpc : pc ≠ .found q)
    (hj : Function.update w.pc i pc j = .found q) : w.pc j = .found q := by
  rcases eq_or_ne j i with rfl | hne
  · rw [Function.update_self] at hj
    exact absurd hj hpc
  · rwa [Function.update_of_ne hne] at hj

/-- A thread takes a context out of the table that is still in it. -/
theorem inv_remove (h : Inv w) (hi : w.pc i = .found p) (hp : p ∈ w.table) :
    Inv { w with
      heap := w.heap.touch p, table := w.table.erase p, deleted := w.deleted ++ [p]
      pc := Function.update w.pc i (.removed p) } := by
  rw [Heap.touch_live (live_of_mem h hp)]
  have hfree := (live_of_mem h hp).2
  have hidle : ∀ q, (w.pc i).working ≠ some q := fun q => by rw [hi]; exact fun h => nomatch h
  have hnot : ∀ j, (w.pc j).working ≠ some p := fun j hj => (h.table p hp).2 (h.working j p hj).1
  refine { h with deletedOnce := ?_, tableOnce := h.tableOnce.erase p, ids := ?_, table := ?_, deleted := ?_,
                  taken := ?_, ended := ?_, freed := ?_, working := ?_, alone := ?_, found := ?_ }
  · exact List.nodup_append.mpr ⟨h.deletedOnce, List.nodup_singleton p, fun a ha b hb => by
      rw [List.mem_singleton.mp hb]
      rintro rfl
      exact (h.table a hp).2 ha⟩
  · exact fun q hq r hr => h.ids q (List.mem_of_mem_erase hq) r (List.mem_of_mem_erase hr)
  · intro q hq
    obtain ⟨hne, hq⟩ := h.tableOnce.mem_erase_iff.mp hq
    refine ⟨(h.table q hq).1, fun hdeleted => ?_⟩
    exact (List.mem_append.mp hdeleted).elim (h.table q hq).2 (fun hmem => hne (List.mem_singleton.mp hmem))
  · intro q hq
    exact (List.mem_append.mp hq).elim (h.deleted q)
      (fun hmem => (List.mem_singleton.mp hmem).symm ▸ (h.table p hp).1)
  · intro q hq hnotin
    by_cases hqp : q = p
    · exact List.mem_append_right _ (List.mem_singleton.mpr hqp)
    · exact List.mem_append_left _ (h.taken q hq (fun hmem => hnotin ((List.mem_erase_of_ne hqp).mpr hmem)))
  · intro q hq hfreed
    rcases List.mem_append.mp hq with hq | hq
    · exact underWay_update (h.ended q hq hfreed) (hidle q)
    · refine ⟨i, ?_⟩
      change (Function.update w.pc i (.removed p) i).working = some q
      rw [Function.update_self, List.mem_singleton.mp hq]
      rfl
  · exact fun q hq => List.mem_append_left _ (h.freed q hq)
  · intro j q hj
    rcases working_update hj with ⟨_, hq⟩ | ⟨_, hj⟩
    · obtain rfl := Option.some.inj hq
      exact ⟨List.mem_append_right _ List.mem_cons_self, hfree⟩
    · exact ⟨List.mem_append_left _ (h.working j q hj).1, (h.working j q hj).2⟩
  · intro j k q hj hk
    rcases working_update hj with ⟨hji, hq⟩ | ⟨_, hj⟩ <;> rcases working_update hk with ⟨hki, hq'⟩ | ⟨_, hk⟩
    · rw [hji, hki]
    · obtain rfl := Option.some.inj hq
      exact absurd hk (hnot k)
    · obtain rfl := Option.some.inj hq'
      exact absurd hj (hnot j)
    · exact h.alone j k q hj hk
  · exact fun j q hj => h.found j q (found_update (.removed p) (fun h => nomatch h) hj)

/-- A thread ends its work on a context by freeing it. -/
theorem inv_deinit (h : Inv w) (hi : w.pc i = .deregistered p) :
    Inv { w with heap := (w.heap.touch p).free p, pc := Function.update w.pc i .idle } := by
  have hworks : (w.pc i).working = some p := by rw [hi]; rfl
  have hlive := live_of_working h hworks
  rw [Heap.touch_live hlive]
  refine { h with clean := ?_, ended := ?_, freed := ?_, working := ?_, alone := ?_, found := ?_ }
  · exact h.clean.freeAll (List.nodup_singleton p) (fun q hq => List.mem_singleton.mp hq ▸ hlive)
  · intro q hq hfreed
    have hfreed : q ∉ w.heap.freed ++ [p] := hfreed
    obtain ⟨hold, hne⟩ := not_or.mp (mt List.mem_append.mpr hfreed)
    refine underWay_update (h.ended q hq hold) ?_
    rw [hworks]
    rintro ⟨⟩
    exact hne List.mem_cons_self
  · intro q hq
    exact (List.mem_append.mp hq).elim (h.freed q)
      (fun hmem => (List.mem_singleton.mp hmem).symm ▸ (h.working i p hworks).1)
  · intro j q hj
    rcases working_update hj with ⟨_, hq⟩ | ⟨hne, hj⟩
    · exact nomatch hq
    · refine ⟨(h.working j q hj).1, fun hfreed => ?_⟩
      rcases List.mem_append.mp hfreed with hold | hmem
      · exact (h.working j q hj).2 hold
      · rw [List.mem_singleton.mp hmem] at hj
        exact hne (h.alone j i p hj hworks)
  · intro j k q hj hk
    rcases working_update hj with ⟨_, hq⟩ | ⟨_, hj⟩
    · exact nomatch hq
    · rcases working_update hk with ⟨_, hq⟩ | ⟨_, hk⟩
      · exact nomatch hq
      · exact h.alone j k q hj hk
  · exact fun j q hj => h.found j q (found_update .idle (fun h => nomatch h) hj)

/-! What each step does. -/

theorem create_cases {t : World ι} {ctx : Context} (hstep : step w (.create ctx) = some t) :
    fastrpcContextValidate w ctx.ctxid = none ∧ t = { w with
      heap := w.heap.alloc ctx, table := w.table ++ [w.heap.next], created := w.created ++ [ctx] } := by
  simp only [step] at hstep
  split_ifs at hstep with hrefused
  exact ⟨Option.not_isSome_iff_eq_none.mp (not_or.mp hrefused).2, (Option.some.inj hstep).symm⟩

theorem validate_cases {t : World ι} {ctxid : ℕ} (hstep : step w (.validate i ctxid) = some t) :
    t = w ∨ w.pc i = .idle ∧ ∃ p, fastrpcContextValidate w ctxid = some p ∧
      t = { w with pc := Function.update w.pc i (.found p) } := by
  simp only [step] at hstep
  split at hstep
  · split_ifs at hstep
    · exact Or.inl (Option.some.inj hstep).symm
    · split at hstep
      · exact Or.inl (Option.some.inj hstep).symm
      · exact Or.inr ⟨‹_›, _, ‹_›, (Option.some.inj hstep).symm⟩
  · exact nomatch hstep

theorem remove_cases {t : World ι} (hstep : step w (.removeFromTable i) = some t) :
    ∃ p, w.pc i = .found p ∧ t = { w with
      heap := w.heap.touch p, table := w.table.erase p, deleted := w.deleted ++ [p]
      pc := Function.update w.pc i (.removed p) } := by
  simp only [step] at hstep
  split at hstep
  · exact ⟨_, ‹_›, (Option.some.inj hstep).symm⟩
  · exact nomatch hstep

theorem device_cases {t : World ι} {dev : ℤ} (hstep : step w (.getDeviceFd i dev) = some t) :
    ∃ p, w.pc i = .removed p ∧ t = { w with
      heap := w.heap.touch p
      pc := Function.update w.pc i (if dev = -1 then .idle else .opened p) } := by
  simp only [step] at hstep
  split at hstep
  · exact ⟨_, ‹_›, (Option.some.inj hstep).symm⟩
  · exact nomatch hstep

theorem ioctl_cases {t : World ι} {nErr : ℤ} (hstep : step w (.ioctlMdctxManage i nErr) = some t) :
    ∃ p, w.pc i = .opened p ∧ t = { w with
      heap := w.heap.touch p
      pc := Function.update w.pc i (if nErr = aeeSuccess then .deregistered p else .idle) } := by
  simp only [step] at hstep
  split at hstep
  · exact ⟨_, ‹_›, (Option.some.inj hstep).symm⟩
  · exact nomatch hstep

theorem deinit_cases {t : World ι} (hstep : step w (.deinit i) = some t) :
    ∃ p, w.pc i = .deregistered p ∧
      t = { w with heap := (w.heap.touch p).free p, pc := Function.update w.pc i .idle } := by
  simp only [step] at hstep
  split at hstep
  · exact ⟨_, ‹_›, (Option.some.inj hstep).symm⟩
  · exact nomatch hstep

/-- **A step that serves** keeps the invariant. -/
theorem inv_step (w : World ι) (e : Step ι) (t : World ι) (h : Inv w) (hC : Serves w e)
    (hstep : step w e = some t) : Inv t := by
  cases e with
  | create ctx =>
      obtain ⟨hid, rfl⟩ := create_cases hstep
      exact inv_create h hid
  | validate i ctxid =>
      rcases validate_cases hstep with rfl | ⟨hi, p, hfind, rfl⟩
      · exact h
      · refine h.moved (by rw [hi]; rfl) (fun q hq => ?_)
        obtain rfl := Pc.found.inj hq
        exact (h.table p (List.mem_of_find?_eq_some hfind)).1
  | removeFromTable i =>
      obtain ⟨p, hi, rfl⟩ := remove_cases hstep
      simp only [Serves, hi] at hC
      exact inv_remove h hi hC
  | getDeviceFd i dev =>
      obtain ⟨p, hi, rfl⟩ := device_cases hstep
      have hne : dev ≠ -1 := hC
      rw [Heap.touch_live (live_of_working h (by rw [hi]; rfl)), if_neg hne]
      exact h.moved (by rw [hi]; rfl) (fun q hq => nomatch hq)
  | ioctlMdctxManage i nErr =>
      obtain ⟨p, hi, rfl⟩ := ioctl_cases hstep
      have hserved : nErr = aeeSuccess := hC
      rw [Heap.touch_live (live_of_working h (by rw [hi]; rfl)), if_pos hserved]
      exact h.moved (by rw [hi]; rfl) (fun q hq => nomatch hq)
  | deinit i =>
      obtain ⟨p, hi, rfl⟩ := deinit_cases hstep
      exact inv_deinit h hi

/-- The context that a thread worked on is lost when the thread returns without freeing it. -/
theorem not_wholeOrGone_return (h : Inv w) (hi : (w.pc i).working = some p) :
    ¬ WholeOrGone { w with heap := w.heap.touch p, pc := Function.update w.pc i .idle } := by
  have hlive := live_of_working h hi
  have hdeleted := (h.working i p hi).1
  rw [Heap.touch_live hlive]
  intro hwhole
  rcases hwhole.contexts p hlive.1 with hwhole | ⟨j, hj⟩ | hgone
  · exact (h.table p (List.mem_of_find?_eq_some hwhole.2.2)).2 hdeleted
  · rcases working_update hj with ⟨_, hq⟩ | ⟨hne, hj⟩
    · exact nomatch hq
    · exact hne (h.alone j i p hj hi)
  · exact hlive.2 (List.count_pos_iff.mp (hgone.2.2 ▸ Nat.one_pos))

/-- A step that does not serve loses a context, or takes it out of the table a second time. -/
theorem not_wholeOrGone_step (w : World ι) (e : Step ι) (t : World ι) (h : Inv w) (hC : ¬ Serves w e)
    (hstep : step w e = some t) : ¬ WholeOrGone t := by
  cases e with
  | create ctx => exact absurd trivial hC
  | validate i ctxid => exact absurd trivial hC
  | deinit i => exact absurd trivial hC
  | removeFromTable i =>
      obtain ⟨p, hi, rfl⟩ := remove_cases hstep
      simp only [Serves, hi] at hC
      intro hwhole
      have hdeleted := h.taken p (h.found i p hi) hC
      exact (List.nodup_append.mp hwhole.deleted).2.2 p hdeleted p List.mem_cons_self rfl
  | getDeviceFd i dev =>
      obtain ⟨p, hi, rfl⟩ := device_cases hstep
      have hfail : dev = -1 := not_not.mp hC
      rw [if_pos hfail]
      exact not_wholeOrGone_return h (by rw [hi]; rfl)
  | ioctlMdctxManage i nErr =>
      obtain ⟨p, hi, rfl⟩ := ioctl_cases hstep
      have hfail : nErr ≠ aeeSuccess := hC
      rw [if_neg hfail]
      exact not_wholeOrGone_return h (by rw [hi]; rfl)

/-- **The lifetime of a context.** In every state of a run every context is in the table as it was created,
or a destroy of it is under way, or it was taken out and freed once, exactly when every destroy that found a
context finds it in the table again, finds the device and is served by the driver. -/
theorem contexts_whole_or_gone {init : Bool} {es : List (Step ι)} {t : World ι}
    (hrun : run step (start ι init) es = some t) :
    Along step WholeOrGone (start ι init) es ↔ Guarded step Serves (start ι init) es :=
  along_iff_guarded inv_step (fun _ => Inv.wholeOrGone) not_wholeOrGone_step (inv_start init) hrun

end Threads

end Invariant

/-- Two contexts; one thread destroys the first while the other looks up the second. -/
def twoThreads : List (Step Bool) :=
  [.create ⟨[0], [3], 17⟩, .create ⟨[1, 2], [4, 5], 18⟩, .validate true 17, .removeFromTable true,
    .validate false 18, .getDeviceFd true 3, .ioctlMdctxManage true 0, .removeFromTable false, .deinit true]

theorem contexts_whole_or_gone_twoThreads : Along step WholeOrGone (start Bool true) twoThreads := by
  obtain ⟨t, hrun⟩ := Option.isSome_iff_exists.mp
    (show (run step (start Bool true) twoThreads).isSome = true by decide +kernel)
  exact (contexts_whole_or_gone hrun).mpr (by decide +kernel)

/-- The device of a context is not found, and the destroy fails; and two threads that both found a context
both destroy it. -/
theorem context_lost :
    (∃ t, run step (start Bool true)
        [.create ⟨[0], [3], 17⟩, .validate true 17, .removeFromTable true, .getDeviceFd true (-1)] = some t ∧
        fastrpcContextGetDomains t 17 = .error aeeEBadContext ∧ t.heap.freed = [] ∧ ¬ WholeOrGone t) ∧
      ∃ t, run step (start Bool true)
        [.create ⟨[0], [3], 17⟩, .validate true 17, .validate false 17, .removeFromTable true,
          .getDeviceFd true 3, .ioctlMdctxManage true 0, .deinit true, .removeFromTable false,
          .getDeviceFd false 3, .ioctlMdctxManage false 0, .deinit false] = some t ∧
        t.heap.freed = [0, 0] ∧ ¬ WholeOrGone t := by
  refine ⟨⟨_, rfl, rfl, rfl, fun h => ?_⟩, _, rfl, rfl, fun h => ?_⟩
  · rcases h.contexts 0 (by decide) with hwhole | ⟨i, hi⟩ | hgone
    · exact absurd hwhole.2.2 (by decide +kernel)
    · cases i <;> exact absurd hi (by decide +kernel)
    · exact absurd hgone.2.2 (by decide +kernel)
  · exact absurd h.deleted (by decide +kernel)

end FastRpc.ContextLifetime
