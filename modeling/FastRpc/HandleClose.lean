import FastRpc.HandleCounts

/-! # Closing a handle

`remote_handle64_close(h)` should take `h`'s node off its domain's list.  Its dequeue looks for the
node by the wrong name: `fastrpc_free_handle` compares the remote id of a node with the local
handle `h`.  In every reachable table (`HandleTable.Placed`) the addresses of the nodes on the `ql`
lists are distinct, so that a handle names one node, and `close_complete` says exactly when a close
that succeeds is complete. -/

namespace FastRpc

open Transition Logged

/-! ### Lists of nodes with distinct addresses -/

/-- Erasing takes away the node `n` just when `n` is the first node to satisfy `p`. -/
theorem notMem_eraseP_iff {p : HandleInfo → Bool} {me : List HandleInfo} {n : HandleInfo}
    (hnd : (me.map HandleInfo.addr).Nodup) (hn : n ∈ me) :
    n ∉ me.eraseP p ↔ me.find? p = some n := by
  induction me with
  | nil => cases hn
  | cons m me ih =>
      rw [List.map_cons, List.nodup_cons] at hnd
      cases hp : p m with
      | true =>
          rw [List.eraseP_cons_of_pos hp, List.find?_cons_of_pos hp, Option.some.injEq]
          rcases List.mem_cons.mp hn with rfl | hmem
          · exact ⟨fun _ => rfl, fun _ hmem => hnd.1 (List.mem_map_of_mem hmem)⟩
          · refine ⟨fun h => absurd hmem h, ?_⟩
            rintro rfl
            exact absurd (List.mem_map_of_mem hmem) hnd.1
      | false =>
          rw [List.eraseP_cons_of_neg (by simp [hp]), List.find?_cons_of_neg (by simp [hp])]
          rcases List.mem_cons.mp hn with rfl | hmem
          · constructor
            · intro h
              exact absurd List.mem_cons_self h
            · intro h
              have hmem := List.mem_of_find?_eq_some h
              exact absurd (List.mem_map_of_mem hmem) hnd.1
          · have hne : n ≠ m := by
              rintro rfl
              exact hnd.1 (List.mem_map_of_mem hmem)
            rw [List.mem_cons, not_or, ← ih hnd.2 hmem]
            exact ⟨fun h => h.2, fun h => ⟨hne, h⟩⟩

/-- In a list with distinct addresses an address stands for one node. -/
theorem eq_of_addr_eq {me : List HandleInfo} {n m : HandleInfo}
    (hnd : (me.map HandleInfo.addr).Nodup) (hn : n ∈ me) (hm : m ∈ me) (h : m.addr = n.addr) :
    m = n :=
  List.inj_on_of_nodup_map hnd hm hn h

/-- The node that `fastrpc_free_handle` takes, if any. -/
def firstWith (me : List HandleInfo) (remote : ℕ) : Option HandleInfo :=
  me.find? (fun hi => hi.remote = remote)

section FreeHandle

variable {me : List HandleInfo} {n m : HandleInfo} {h k : ℕ}

theorem free_of_firstWith_none (hnone : firstWith me k = none) : fastrpcFreeHandle me k = me := by
  refine fastrpcFreeHandle_of_notMem ?_
  rintro ⟨hi, hmem, hr⟩
  exact absurd (List.find?_eq_none.mp hnone hi hmem) (by simpa using hr)

theorem length_free_of_firstWith (hsome : firstWith me k = some n) :
    (fastrpcFreeHandle me k).length + 1 = me.length := by
  have hp := List.find?_some hsome
  obtain ⟨_, l₁, l₂, -, hme, hfree⟩ := fastrpcFreeHandle_of_mem
    ⟨n, List.mem_of_find?_eq_some hsome, by simpa using hp⟩
  rw [hfree, hme, List.length_append, List.length_append, List.length_cons]
  omega

theorem notMem_free_iff (hnd : (me.map HandleInfo.addr).Nodup) (hn : n ∈ me) :
    n ∉ fastrpcFreeHandle me k ↔ firstWith me k = some n :=
  notMem_eraseP_iff hnd hn

theorem free_cons_same (hm : m.remote = k) : fastrpcFreeHandle (m :: me) k = me :=
  List.eraseP_cons_of_pos (by simpa using hm)

theorem free_cons_ne (hm : m.remote ≠ k) :
    fastrpcFreeHandle (m :: me) k = m :: fastrpcFreeHandle me k :=
  List.eraseP_cons_of_neg (by simpa using hm)

/-- Taking a node with one remote id does not matter for another one. -/
theorem firstWith_free (hne : h ≠ k) : firstWith (fastrpcFreeHandle me k) h = firstWith me h := by
  induction me with
  | nil => rfl
  | cons m me ih =>
      by_cases hk : m.remote = k
      · rw [free_cons_same hk, firstWith, firstWith, List.find?_cons_of_neg (by simpa [hk] using hne.symm)]
      · rw [free_cons_ne hk, firstWith, firstWith, List.find?_cons, List.find?_cons]
        split
        · rfl
        · exact ih

theorem removes_iff (hnd : (me.map HandleInfo.addr).Nodup) (hn : n ∈ me) :
    (n ∉ fastrpcFreeHandle me k ∧ (fastrpcFreeHandle me k).length + 1 = me.length) ↔
      firstWith me k = some n := by
  rw [notMem_free_iff hnd hn]
  exact ⟨fun hfirst => hfirst.1, fun hfirst => ⟨hfirst, length_free_of_firstWith hfirst⟩⟩

/-- The list after a close that may have put a node `m` with id `k` in front of it, may have taken
one with this id away, and may have taken one with the id `h`: it has lost `n` and nothing else,
spelled out. -/
theorem close_lists_iff (hnd : (me.map HandleInfo.addr).Nodup) (hn : n ∈ me) (hm : m.remote = k)
    (hne : h ≠ k) (allocs drops closes : Bool) {l₁ l₂ l₃ : List HandleInfo}
    (hl₁ : l₁ = if allocs then m :: me else me)
    (hl₂ : l₂ = if drops then fastrpcFreeHandle l₁ k else l₁)
    (hl₃ : l₃ = if closes then fastrpcFreeHandle l₂ h else l₂) :
    (n ∉ l₃ ∧ l₃.length + 1 = me.length) ↔
      (closes = true ∧ firstWith me h = some n ∧
        (allocs = true ↔ drops = true ∧ (allocs = true ∨ (firstWith me k).isSome = true))) ∨
      (drops = true ∧ allocs = false ∧ firstWith me k = some n ∧
        (closes = true → firstWith me h = none)) := by
  cases allocs <;> cases drops <;> cases closes <;>
    simp only [Bool.false_eq_true, if_false, if_true] at hl₁ hl₂ hl₃ <;> rw [hl₃, hl₂, hl₁]
  · simp [hn]
  · simpa using removes_iff hnd hn
  · simpa using removes_iff hnd hn
  · cases hk : firstWith me k with
    | none =>
        rw [free_of_firstWith_none hk]
        simpa using removes_iff hnd hn
    | some x =>
        have hlen := length_free_of_firstWith hk
        have hfirst : firstWith (fastrpcFreeHandle me k) h = firstWith me h := firstWith_free hne
        cases hh : firstWith me h with
        | none =>
            rw [free_of_firstWith_none (hfirst.trans hh), notMem_free_iff hnd hn]
            simp [hk, hlen]
        | some y =>
            have hlen' := length_free_of_firstWith (hfirst.trans hh)
            simp only [reduceCtorEq]
            simp
            omega
  · simp [hn]
  · rw [free_cons_ne (by omega)]
    have hlen : me.length ≤ (fastrpcFreeHandle me h).length + 1 := by
      cases hh : firstWith me h with
      | none => rw [free_of_firstWith_none hh]; omega
      | some y => rw [length_free_of_firstWith hh]
    simp
    omega
  · rw [free_cons_same hm]
    simp [hn]
  · rw [free_cons_same hm]
    simpa using removes_iff hnd hn

/-- No other nodes are on the list after the close. -/
theorem mem_close_lists {allocs drops closes : Bool} {l₁ l₂ l₃ : List HandleInfo} {hi : HandleInfo}
    (hl₁ : l₁ = if allocs then m :: me else me)
    (hl₂ : l₂ = if drops then fastrpcFreeHandle l₁ k else l₁)
    (hl₃ : l₃ = if closes then fastrpcFreeHandle l₂ h else l₂) (hmem : hi ∈ l₃) :
    hi ∈ me ∨ allocs = true ∧ hi = m := by
  have h₂ : hi ∈ l₂ := by
    rw [hl₃] at hmem
    split at hmem
    · exact List.mem_of_mem_eraseP hmem
    · exact hmem
  have h₁ : hi ∈ l₁ := by
    rw [hl₂] at h₂
    split at h₂
    · exact List.mem_of_mem_eraseP h₂
    · exact h₂
  rw [hl₁] at h₁
  split at h₁
  · next halloc => exact (List.mem_cons.mp h₁).symm.imp_right (fun he => ⟨halloc, he⟩)
  · exact .inl h₁

end FreeHandle

/-! ### Reachable tables -/

/-- Every node on a `ql` list has an address of its own, and points to the domain of its list. -/
structure HandleTable.Placed (t : HandleTable) : Prop where
  nodup : ∀ domain, ((t.hlist domain).ql.map HandleInfo.addr).Nodup
  placed : ∀ domain, ∀ hi ∈ (t.hlist domain).ql, hi.hlist = domain
  range : ∀ domain, ∀ hi ∈ (t.hlist domain).ql, 0x200 < hi.addr ∧ hi.addr + 1 < 2 ^ 64
  disjoint : ∀ domain domain' hi hi', hi ∈ (t.hlist domain).ql → hi' ∈ (t.hlist domain').ql →
    hi.addr = hi'.addr → domain = domain'

/-- A change leaves a list with some of its nodes, or with a new one in front of them. -/
theorem ListChange.nodes {env : TableEnv} {t : HandleTable} {domain : Domain} {hl : HandleList}
    (hchange : ListChange env t domain hl) (list' : HandleListId) :
    (hl.nodes list').Sublist ((t.hlist domain).nodes list') ∨
      ∃ addr r, env.calloc t.calls t.live = some addr ∧
        hl.nodes list' = ⟨domain, addr, r⟩ :: (t.hlist domain).nodes list' := by
  cases hchange with
  | same h => rw [h.nodes_eq]; exact .inl (List.Sublist.refl _)
  | prepend list addr h hcalloc =>
      rw [HandleList.prepend_nodes]
      split
      · next hlist => subst hlist; exact .inr ⟨addr, h, hcalloc, rfl⟩
      · exact .inl (List.Sublist.refl _)
  | dequeue list h =>
      rw [HandleList.dequeue_nodes]
      split
      · next hlist => subst hlist; exact .inl List.eraseP_sublist
      · exact .inl (List.Sublist.refl _)
  | clear list =>
      rw [HandleList.nodes_setNodes]
      split
      · exact .inl (List.nil_sublist _)
      · exact .inl (List.Sublist.refl _)
  | popReverse =>
      cases list' with
      | multiDomain => exact .inl (List.Sublist.refl _)
      | nonDomain => exact .inl (List.Sublist.refl _)
      | reverse => exact .inl (List.tail_sublist _)
  | ctor => cases list' <;> exact .inl (List.nil_sublist _)

theorem mem_live {t : HandleTable} {domain : Domain} {hi : HandleInfo} (list : HandleListId)
    (h : hi ∈ (t.hlist domain).nodes list) : hi.addr ∈ t.live := by
  refine List.mem_flatMap.mpr ⟨domain, List.mem_finRange domain, List.mem_map_of_mem ?_⟩
  cases list with
  | multiDomain => exact List.mem_append_left _ (List.mem_append_left _ h)
  | nonDomain => exact List.mem_append_left _ (List.mem_append_right _ h)
  | reverse => exact List.mem_append_right _ h

/-- Steps keep the nodes apart: a new node gets an address that no live node has. -/
theorem tableStep_placed {env : TableEnv} {t : HandleTable} (e : TableStep) (ht : t.Placed) :
    (tableStep env t e).Placed := by
  obtain ⟨domain, hchange, hother⟩ := tableStep_change env t e
  generalize tableStep env t e = t' at hchange hother ⊢
  rcases hchange.nodes .multiDomain with hsub | ⟨addr, r, hcalloc, hq⟩
  · have hsub' : ∀ d, (t'.hlist d).ql.Sublist (t.hlist d).ql := by
      intro d
      rcases eq_or_ne d domain with rfl | hne
      · exact hsub
      · rw [hother d hne]
    exact {
      nodup := fun d => (ht.nodup d).sublist ((hsub' d).map _)
      placed := fun d hi h => ht.placed d hi ((hsub' d).subset h)
      range := fun d hi h => ht.range d hi ((hsub' d).subset h)
      disjoint := fun d d' hi hi' h h' => ht.disjoint d d' hi hi' ((hsub' d).subset h)
        ((hsub' d').subset h') }
  · change (t'.hlist domain).ql = _ :: (t.hlist domain).ql at hq
    obtain ⟨hunused, hlow, hhigh⟩ := env.calloc_fresh _ _ _ hcalloc
    have hfresh : ∀ d, ∀ hi ∈ (t.hlist d).ql, hi.addr ≠ addr := fun d hi h haddr =>
      hunused (haddr ▸ mem_live .multiDomain h)
    have hmem : ∀ d hi, hi ∈ (t'.hlist d).ql ↔
        (d = domain ∧ hi = ⟨domain, addr, r⟩) ∨ hi ∈ (t.hlist d).ql := by
      intro d hi
      rcases eq_or_ne d domain with rfl | hne
      · rw [hq]; simp
      · rw [hother d hne]; simp [hne]
    exact {
      nodup := by
        intro d
        rcases eq_or_ne d domain with rfl | hne
        · rw [hq, List.map_cons, List.nodup_cons]
          refine ⟨fun h => ?_, ht.nodup d⟩
          obtain ⟨hi, hhi, haddr⟩ := List.mem_map.mp h
          exact hfresh d hi hhi haddr
        · rw [hother d hne]; exact ht.nodup d
      placed := by
        intro d hi h
        rcases (hmem d hi).mp h with ⟨rfl, rfl⟩ | h
        · rfl
        · exact ht.placed d hi h
      range := by
        intro d hi h
        rcases (hmem d hi).mp h with ⟨rfl, rfl⟩ | h
        · exact ⟨hlow, hhigh⟩
        · exact ht.range d hi h
      disjoint := by
        intro d d' hi hi' h h' haddr
        rcases (hmem d hi).mp h with ⟨rfl, rfl⟩ | h <;>
          rcases (hmem d' hi').mp h' with ⟨rfl, rfl⟩ | h'
        · rfl
        · exact absurd haddr.symm (hfresh d' hi' h')
        · exact absurd haddr (hfresh d hi h)
        · exact ht.disjoint d d' hi hi' h h' haddr }

/-- **Distinct handles.** Every reachable table keeps its nodes apart. -/
theorem placed_tableAfter (env : TableEnv) (ops : List TableOp) : (tableAfter env ops).Placed :=
  runAll_invariant (fun _ e h => tableStep_placed e h) ops
    { nodup := fun _ => List.nodup_nil
      placed := fun _ _ h => absurd h List.not_mem_nil
      range := fun _ _ h => absurd h List.not_mem_nil
      disjoint := fun _ _ _ _ h => absurd h List.not_mem_nil }

theorem countsU32_tableAfter (env : TableEnv) (ops : List TableOp) :
    (tableAfter env ops).CountsU32 :=
  runAll_invariant (fun _ e h => tableStep_countsU32 e h) ops start_countsU32

/-! ### Handles and their nodes -/

namespace HandleTable

theorem mem_of_nodeAt {t : HandleTable} {h : ℕ} {n : HandleInfo} (hn : t.nodeAt h = some n) :
    n.addr = h ∧ ∃ domain, n ∈ (t.hlist domain).ql := by
  obtain ⟨ii, -, hfind⟩ := List.exists_of_findSome?_eq_some hn
  have haddr := List.find?_some hfind
  exact ⟨by simpa using haddr, ii, List.mem_of_find?_eq_some hfind⟩

theorem Placed.mem_of_nodeAt {t : HandleTable} (ht : t.Placed) {h : ℕ} {n : HandleInfo}
    (hn : t.nodeAt h = some n) : n ∈ (t.hlist n.hlist).ql := by
  obtain ⟨-, domain, hmem⟩ := HandleTable.mem_of_nodeAt hn
  rwa [ht.placed domain n hmem]

/-- A handle is valid just when a node has it for its address. -/
theorem Placed.verifyLocalHandle_iff {t : HandleTable} (ht : t.Placed) (h : ℕ) :
    t.verifyLocalHandle none h = aeeSuccess ↔
      ∃ domain, ∃ hi ∈ (t.hlist domain).ql, hi.addr = h := by
  have hvalid : t.isValidLocalHandle none h = true ↔
      ∃ domain, ∃ hi ∈ (t.hlist domain).ql, hi.addr = h := by
    simp [isValidLocalHandle]
  rw [verifyLocalHandle, ← hvalid]
  split
  · next hnull =>
      simp only [aeeEInvHandle, aeeSuccess, show ((0x2c : ℤ) = 0) = False by decide, false_iff]
      intro hv
      obtain ⟨domain, hi, hmem, rfl⟩ := hvalid.mp hv
      have hrange := ht.range domain hi hmem
      rw [invalidHandle] at hnull
      omega
  · cases t.isValidLocalHandle none h <;> simp [aeeEInvHandle, aeeSuccess]

theorem Placed.verify_of_nodeAt {t : HandleTable} (ht : t.Placed) {h : ℕ} {n : HandleInfo}
    (hn : t.nodeAt h = some n) : t.verifyLocalHandle none h = aeeSuccess :=
  (ht.verifyLocalHandle_iff h).mpr
    ⟨n.hlist, n, ht.mem_of_nodeAt hn, (HandleTable.mem_of_nodeAt hn).1⟩

end HandleTable

/-! ### The close on the DSP -/

section Close

variable {env : TableEnv} (t : HandleTable)

@[simp] theorem callOut_val : (@callOut env).val t = env.answer t.calls := rfl

@[simp] theorem callOut_after :
    (@callOut env).after t = { t with calls := t.calls + 1 } := rfl

@[simp] theorem invokeSession_val (handle : ℕ) :
    (@invokeSession env handle).val t = env.answer t.calls := by
  simp only [invokeSession, val_read_bind]
  split
  · rw [val_ite]
    split <;> rfl
  · rfl

/-- A stub changes no list. -/
theorem invokeSession_after (handle : ℕ) :
    ((@invokeSession env handle).after t).hlist = t.hlist ∧
      ((@invokeSession env handle).after t).calls = t.calls + 1 := by
  simp only [invokeSession, after_read_bind]
  split
  · rw [after_ite]
    split <;> exact ⟨rfl, rfl⟩
  · exact ⟨rfl, rfl⟩

@[simp] theorem callOut_val_bind {β : Type} (f : Answer → TableM env β) :
    (callOut >>= f).val t = (f (env.answer t.calls)).val { t with calls := t.calls + 1 } := rfl

@[simp] theorem callOut_after_bind {β : Type} (f : Answer → TableM env β) :
    (callOut >>= f).after t = (f (env.answer t.calls)).after { t with calls := t.calls + 1 } := rfl

theorem dropRemotectl1_after (domain : Domain) :
    (@dropRemotectl1 env domain).after t =
      (t.modify domain (fun hl => hl.dequeue .multiDomain constRemotectl1Handle)).modify domain
        (fun hl => hl.setSlot .remotectlhandle invalidHandle) := rfl

variable (domain : Domain)

/-- The node for `remotectl1` that `get_remotectl1_handle` allocates, when none is cached. -/
def newRemotectl1 (env : TableEnv) : Option ℕ :=
  if (t.hlist domain).remotectlhandle = 0 then env.calloc t.calls t.live else none

/-- There is a handle of `remotectl1` to call with. -/
def hasRemotectl1 (env : TableEnv) : Bool :=
  if (t.hlist domain).remotectlhandle = 0 then (newRemotectl1 t domain env).isSome
  else (t.hlist domain).remotectlhandle ≠ invalidHandle

/-- The number of the call that follows `get_remotectl1_handle`. -/
def callAfterRemotectl1 : ℕ := t.calls + if (t.hlist domain).remotectlhandle = 0 then 1 else 0

/-- The lists of the domain with the node that `get_remotectl1_handle` allocates. -/
def withRemotectl1 (env : TableEnv) : HandleList :=
  match newRemotectl1 t domain env with
  | some addr => (t.hlist domain).prepend .multiDomain ⟨domain, addr, constRemotectl1Handle⟩
  | none => t.hlist domain

@[simp] theorem prepend_val_bind {β : Type} (list : HandleListId) (h : ℕ)
    (f : Option ℕ → TableM env β) :
    (fastrpcUpdateModuleList (.prepend list) domain h >>= f).val t =
      (f (env.calloc t.calls t.live)).val (tableStep env t (.update (.prepend list) domain h)) := rfl

@[simp] theorem prepend_after_bind {β : Type} (list : HandleListId) (h : ℕ)
    (f : Option ℕ → TableM env β) :
    (fastrpcUpdateModuleList (.prepend list) domain h >>= f).after t =
      (f (env.calloc t.calls t.live)).after (tableStep env t (.update (.prepend list) domain h)) :=
  after_bind t _ f

theorem getRemotectl1Handle_cached (hslot : (t.hlist domain).remotectlhandle ≠ 0) :
    (@getRemotectl1Handle env domain).val t = (t.hlist domain).remotectlhandle ∧
      (@getRemotectl1Handle env domain).after t = t := by
  simp [getRemotectl1Handle, getSessionHandle, HandleList.slot, hslot]

theorem getRemotectl1Handle_fails (hslot : (t.hlist domain).remotectlhandle = 0)
    (hcalloc : env.calloc t.calls t.live = none) :
    (@getRemotectl1Handle env domain).val t = invalidHandle ∧
      (@getRemotectl1Handle env domain).after t = { t with calls := t.calls + 1 } := by
  simp [getRemotectl1Handle, getSessionHandle, HandleList.slot, hslot, hcalloc, tableStep]

theorem getRemotectl1Handle_allocates (hslot : (t.hlist domain).remotectlhandle = 0) {addr : ℕ}
    (hcalloc : env.calloc t.calls t.live = some addr) :
    (@getRemotectl1Handle env domain).val t = addr ∧
      (@getRemotectl1Handle env domain).after t =
        ({ t.modify domain (fun hl => hl.prepend .multiDomain ⟨domain, addr, constRemotectl1Handle⟩)
          with calls := t.calls + 1 }).modify domain (fun hl => hl.setSlot .remotectlhandle addr) := by
  simp [getRemotectl1Handle, getSessionHandle, HandleList.slot, hslot, hcalloc, tableStep]

/-- Only the lists and the counters of one domain differ between two tables, as given. -/
structure ListsAfter (t t' : HandleTable) (domain : Domain) (hl : HandleList) : Prop where
  lists : HandleList.SameLists hl (t'.hlist domain)
  other : ∀ d, d ≠ domain → t'.hlist d = t.hlist d

theorem getRemotectl1Handle_spec :
    ((@getRemotectl1Handle env domain).val t ≠ invalidHandle ↔
        hasRemotectl1 t domain env = true) ∧
      ((@getRemotectl1Handle env domain).after t).calls = callAfterRemotectl1 t domain ∧
      ListsAfter t ((@getRemotectl1Handle env domain).after t) domain
        (withRemotectl1 t domain env) := by
  by_cases hslot : (t.hlist domain).remotectlhandle = 0
  · cases hcalloc : env.calloc t.calls t.live with
    | none =>
        obtain ⟨hval, hafter⟩ := getRemotectl1Handle_fails t domain hslot hcalloc
        rw [hval, hafter, hasRemotectl1, callAfterRemotectl1, withRemotectl1, newRemotectl1,
          if_pos hslot, if_pos hslot, if_pos hslot, hcalloc]
        exact ⟨by simp, rfl, ⟨rfl, rfl⟩, fun _ _ => rfl⟩
    | some addr =>
        obtain ⟨hval, hafter⟩ := getRemotectl1Handle_allocates t domain hslot hcalloc
        have hhigh := (env.calloc_fresh _ _ _ hcalloc).2.2
        rw [hval, hafter, hasRemotectl1, callAfterRemotectl1, withRemotectl1, newRemotectl1,
          if_pos hslot, if_pos hslot, if_pos hslot, hcalloc]
        refine ⟨by simp [invalidHandle]; omega, rfl, ?_, fun d hne => ?_⟩
        · rw [HandleTable.modify_hlist]
          simp only [HandleTable.modify_hlist]
          exact HandleList.setSlot_sameLists _ _ _
        · rw [HandleTable.modify_hlist_of_ne hne]
          simp only [HandleTable.modify_hlist_of_ne hne]
  · obtain ⟨hval, hafter⟩ := @getRemotectl1Handle_cached env t domain hslot
    rw [hval, hafter, hasRemotectl1, callAfterRemotectl1, withRemotectl1, newRemotectl1,
      if_neg hslot, if_neg hslot, if_neg hslot]
    exact ⟨by simp, rfl, ⟨rfl, rfl⟩, fun _ _ => rfl⟩

/-- The call through `remotectl1` fails, and its node is taken away. -/
def dropsRemotectl1 (env : TableEnv) : Bool :=
  hasRemotectl1 t domain env &&
    (env.answer (callAfterRemotectl1 t domain)).nErr ≠ aeeSuccess

/-- What the last call on the DSP answers is a success. -/
def dspAccepts (env : TableEnv) : Bool :=
  if dropsRemotectl1 t domain env then
    (env.answer (callAfterRemotectl1 t domain + 1)).dlErr = aeeSuccess
  else (env.answer (callAfterRemotectl1 t domain)).nErr = aeeSuccess &&
    (env.answer (callAfterRemotectl1 t domain)).dlErr = aeeSuccess

/-- The lists of the domain after a close on the DSP. -/
def afterDsp (env : TableEnv) : HandleList :=
  if dropsRemotectl1 t domain env then
    (withRemotectl1 t domain env).dequeue .multiDomain constRemotectl1Handle
  else withRemotectl1 t domain env

theorem closeOnDsp_spec :
    ((@closeOnDsp env domain).val t = aeeSuccess ↔ dspAccepts t domain env = true) ∧
      ListsAfter t ((@closeOnDsp env domain).after t) domain (afterDsp t domain env) := by
  obtain ⟨hhas, hcalls, hlists⟩ := @getRemotectl1Handle_spec env t domain
  rw [closeOnDsp, val_bind, after_bind, dspAccepts, afterDsp, dropsRemotectl1]
  generalize (@getRemotectl1Handle env domain).after t = u at hcalls hlists ⊢
  generalize (@getRemotectl1Handle env domain).val t = handle at hhas ⊢
  by_cases hhandle : handle = invalidHandle
  · have hno : hasRemotectl1 t domain env = false := by simpa [hhandle] using hhas
    simp only [hhandle, ne_eq, not_true_eq_false, if_false, callOut_val_bind, callOut_after_bind,
      val_ite, after_ite, val_pure, after_pure, ite_self, hno, Bool.false_and, Bool.false_eq_true,
      hcalls]
    refine ⟨?_, hlists.lists, hlists.other⟩
    split <;> simp_all
  · have hyes : hasRemotectl1 t domain env = true := hhas.mp hhandle
    obtain ⟨hsame, hnext⟩ := @invokeSession_after env u handle
    simp only [hhandle, ne_eq, not_false_eq_true, if_true, val_bind, after_bind, val_ite,
      after_ite, hyes, invokeSession_val, hcalls, Bool.true_and]
    generalize (@invokeSession env handle).after u = v at hsame hnext ⊢
    have hv : ListsAfter t v domain (withRemotectl1 t domain env) :=
      ⟨hsame ▸ hlists.lists, hsame ▸ hlists.other⟩
    by_cases hfail : (env.answer (callAfterRemotectl1 t domain)).nErr = aeeSuccess
    · simp only [hfail, not_true_eq_false, if_false, decide_false, Bool.false_eq_true, val_pure,
        after_pure, decide_true, Bool.true_and, decide_eq_true_eq]
      exact ⟨trivial, hv⟩
    · simp only [hfail, not_false_eq_true, if_true, decide_true, val_pure, after_pure,
        decide_eq_true_eq, dropRemotectl1_after, callOut_val, callOut_after]
      refine ⟨by rw [← hcalls, ← hnext]; rfl, ?_, fun d hne => ?_⟩
      · refine (hv.lists.dequeue .multiDomain constRemotectl1Handle).trans ?_
        simp only [HandleTable.modify_hlist]
        exact HandleList.setSlot_sameLists _ _ _
      · simp only [HandleTable.modify_hlist_of_ne hne]
        exact hv.other d hne

/-- The close of `remote` gets as far as the DSP. -/
def closeReaches (env : TableEnv) (remote : ℕ) : Bool :=
  remote % 2 ^ 32 ≠ 2 ^ 32 - 1 && !(env.answer t.calls).flag

theorem remoteHandleCloseDomain_spec (remote : ℕ) :
    let m := @remoteHandleCloseDomain env domain (remote % 2 ^ 32)
    let u := { t with calls := t.calls + 1 }
    (m.val t = aeeSuccess ↔ closeReaches t env remote = true ∧ dspAccepts u domain env = true) ∧
      ListsAfter t (m.after t) domain
        (if closeReaches t env remote then afterDsp u domain env else t.hlist domain) := by
  intro m u
  simp only [m, remoteHandleCloseDomain, closeReaches, val_ite, after_ite, val_pure, after_pure]
  by_cases hinv : remote % 2 ^ 32 = 2 ^ 32 - 1
  · simp only [hinv, if_true, ne_eq, not_true_eq_false, decide_false, Bool.false_and]
    exact ⟨by simp [aeeEInvHandle, aeeSuccess], ⟨rfl, rfl⟩, fun _ _ => rfl⟩
  · simp only [hinv, if_false, ne_eq, not_false_eq_true, decide_true, Bool.true_and,
      callOut_val_bind, callOut_after_bind, val_ite, after_ite, val_pure, after_pure]
    cases (env.answer t.calls).flag with
    | true => exact ⟨by simp [aeeENoMemory, aeeSuccess], ⟨rfl, rfl⟩, fun _ _ => rfl⟩
    | false =>
        have hspec := @closeOnDsp_spec env u domain
        simp only [Bool.false_eq_true, if_false, Bool.not_false, true_and, if_true]
        exact ⟨hspec.1, hspec.2.lists, hspec.2.other⟩

end Close

/-! ### Closing a node's handle -/

section CloseNode

variable (env : TableEnv) (t : HandleTable) (n : HandleInfo)

/-- The table at the first call of `remote_handle_close_domain` that goes to the DSP. -/
def HandleTable.called (t : HandleTable) : HandleTable := { t with calls := t.calls + 1 }

@[simp] theorem HandleTable.called_hlist (t : HandleTable) : t.called.hlist = t.hlist := rfl

/-- The close of the node's handle makes a call for it. -/
def closeCalls : Bool := n.remote ≠ 0 && closeReaches t env n.remote

/-- The close allocates a node for `remotectl1`. -/
def closeAllocates : Bool := closeCalls env t n && (newRemotectl1 t.called n.hlist env).isSome

/-- The call through `remotectl1` fails, and the close takes the node of `remotectl1` away. -/
def closeDrops : Bool := closeCalls env t n && dropsRemotectl1 t.called n.hlist env

/-- The module is closed on the DSP, or there is none. -/
def dspCloses : Bool := n.remote = 0 || closeCalls env t n && dspAccepts t.called n.hlist env

/-- The lists of the domain after the calls to the DSP. -/
def afterCalls : HandleList :=
  if closeCalls env t n then afterDsp t.called n.hlist env else t.hlist n.hlist

theorem closeRemote_spec :
    let m := @closeRemote env n.hlist n.remote false
    (m.val t = aeeSuccess ↔ dspCloses env t n = true) ∧
      ListsAfter t (m.after t) n.hlist (afterCalls env t n) := by
  intro m
  simp only [m, closeRemote, dspCloses, afterCalls, closeCalls]
  by_cases hr : n.remote = 0
  · simp only [hr, ne_eq, not_true_eq_false, decide_false, Bool.and_false, Bool.false_eq_true,
      if_false, val_pure, after_pure, decide_true, Bool.true_or, Bool.false_and]
    exact ⟨trivial, ⟨rfl, rfl⟩, fun _ _ => rfl⟩
  · obtain ⟨hval, hlists⟩ := @remoteHandleCloseDomain_spec env t n.hlist n.remote
    simp only [hr, ne_eq, not_false_eq_true, decide_true, Bool.and_true, Bool.not_false, if_true,
      decide_false, Bool.false_or, Bool.true_and, Bool.and_eq_true]
    exact ⟨hval, hlists⟩

theorem closeOnDomain_spec (h : ℕ) :
    let m := @closeOnDomain env n.hlist h n.remote false
    (m.val t = aeeSuccess ↔ dspCloses env t n = true) ∧
      ListsAfter t (m.after t) n.hlist
        (if dspCloses env t n then (afterCalls env t n).dequeue .multiDomain h
          else afterCalls env t n) := by
  intro m
  obtain ⟨hval, hlists⟩ := closeRemote_spec env t n
  simp only [m, closeOnDomain, val_bind, after_bind, val_ite, after_ite, val_pure, after_pure,
    ite_self, after_discard]
  generalize (@closeRemote env n.hlist n.remote false).after t = u at hlists ⊢
  refine ⟨hval, ?_⟩
  by_cases hok : (@closeRemote env n.hlist n.remote false).val t = aeeSuccess
  · have hd : (@fastrpcUpdateModuleList env (.dequeue .multiDomain) n.hlist h).after u =
        u.modify n.hlist (fun hl => hl.dequeue .multiDomain h) := rfl
    rw [if_pos hok, if_pos (hval.mp hok), hd]
    refine ⟨?_, fun d hne => ?_⟩
    · rw [HandleTable.modify_hlist]
      exact hlists.lists.dequeue _ _
    · rw [HandleTable.modify_hlist_of_ne hne]
      exact hlists.other d hne
  · rw [if_neg hok, if_neg (mt hval.mpr hok)]
    exact hlists

/-- The handle is not the last one: the close does not end the session, and leaves what its calls and
its dequeue leave. -/
theorem remoteHandle64Close_after {t : HandleTable} (ht : t.Placed) {h : ℕ} {n : HandleInfo}
    (hn : t.nodeAt h = some n) (hlast : t.startDeinit n.hlist = false) :
    ListsAfter t ((@remoteHandle64Close env h).after t) n.hlist
      (if dspCloses env t n then (afterCalls env t n).dequeue .multiDomain h
        else afterCalls env t n) := by
  have hverify := ht.verify_of_nodeAt hn
  have hdomain : t.getDomainFromHandle h = some n.hlist := by
    rw [HandleTable.getDomainFromHandle, if_pos hverify, hn, Option.map_some]
  have hremote : t.getHandleRemote h = some n.remote := by
    rw [HandleTable.getHandleRemote, if_pos hverify, hn, Option.map_some]
  obtain ⟨hlow, hhigh⟩ := ht.range _ n (ht.mem_of_nodeAt hn)
  have haddr := (HandleTable.mem_of_nodeAt hn).1
  have hstatic : isStaticpdHandle h = false := by
    simp only [isStaticpdHandle, Bool.and_eq_false_imp, decide_eq_true_eq, decide_eq_false_iff_not]
    omega
  have hvalid : ¬ h = invalidHandle := by rw [invalidHandle]; omega
  have hspec := (closeOnDomain_spec env (tableStep env t (.setThreadContext (some n.hlist))) n h).2
  simp only [remoteHandle64Close, after_read_bind, hstatic, Bool.false_eq_true, if_false, hvalid,
    hdomain, hremote, after_emit_bind, hlast]
  rw [after_bind]
  simp only [after_ite, after_pure, after_read_bind, ite_self]
  exact ⟨hspec.lists, hspec.other⟩

/-- A handle that is no valid handle is rejected, and nothing changes. -/
theorem remoteHandle64Close_invalid {t : HandleTable} {h : ℕ} (hstatic : isStaticpdHandle h = false)
    (hinvalid : t.verifyLocalHandle none h ≠ aeeSuccess) :
    (@remoteHandle64Close env h).val t = aeeEInvHandle ∧
      (@remoteHandle64Close env h).after t = t := by
  have hdomain : t.getDomainFromHandle h = none := if_neg hinvalid
  by_cases hnull : h = invalidHandle
  · subst hnull
    simp [remoteHandle64Close, hstatic]
  · simp [remoteHandle64Close, hstatic, hnull, hdomain]

/-- The nodes on the lists of a domain. -/
def HandleList.nodeCount (hl : HandleList) : ℕ := hl.ql.length + hl.nql.length + hl.rql.length

/-- What a close of the handle `h` of node `n` should do: `h` is no valid handle any more, the
domain has one node less and its class one less in its counter, and to close `h` again is an error
that changes nothing. -/
structure CloseComplete (t t' : HandleTable) (h : ℕ) : Prop where
  invalid : t'.verifyLocalHandle none h ≠ aeeSuccess
  one_fewer : (t'.hlist n.hlist).nodeCount + 1 = (t.hlist n.hlist).nodeCount
  count : (t'.hlist n.hlist).count .multiDomain n.remote + 1 =
    (t.hlist n.hlist).count .multiDomain n.remote
  rejected : (@remoteHandle64Close env h).val t' = aeeEInvHandle ∧
    (@remoteHandle64Close env h).after t' = t'

/-- The node of `remotectl1` is as much on the list after the calls as before them. -/
def Remotectl1Stays : Prop :=
  closeAllocates env t n = true ↔ closeDrops env t n = true ∧ (closeAllocates env t n = true ∨
    (firstWith (t.hlist n.hlist).ql constRemotectl1Handle).isSome = true)

instance : Decidable (Remotectl1Stays env t n) := inferInstanceAs (Decidable (_ ↔ _))

/-- The dequeue, which looks for the remote id `h`, takes the node whose address is `h`; or the
node is that of `remotectl1`, which the calls take away. -/
def DequeueTakesNode (h : ℕ) : Prop :=
  (dspCloses env t n = true ∧ firstWith (t.hlist n.hlist).ql h = some n ∧ Remotectl1Stays env t n) ∨
  (closeDrops env t n = true ∧ closeAllocates env t n = false ∧
    firstWith (t.hlist n.hlist).ql constRemotectl1Handle = some n ∧
    (dspCloses env t n = true → firstWith (t.hlist n.hlist).ql h = none))

/-- The lists after the calls: a node of `remotectl1` may have been put in front, and one with its
id may have been taken away. -/
theorem afterCalls_eq : ∃ m : HandleInfo, m.remote = constRemotectl1Handle ∧
    (closeAllocates env t n = true → m.addr ∉ t.live) ∧
    ∀ hl, hl = (if closeAllocates env t n then (t.hlist n.hlist).prepend .multiDomain m
        else t.hlist n.hlist) →
      afterCalls env t n =
        if closeDrops env t n then hl.dequeue .multiDomain constRemotectl1Handle else hl := by
  cases hnew : newRemotectl1 t.called n.hlist env with
  | none =>
      refine ⟨⟨n.hlist, 0, constRemotectl1Handle⟩, rfl, by simp [closeAllocates, hnew], ?_⟩
      rintro hl rfl
      simp only [closeAllocates, closeDrops, afterCalls, afterDsp, withRemotectl1, hnew]
      cases closeCalls env t n <;> simp
  | some addr =>
      refine ⟨⟨n.hlist, addr, constRemotectl1Handle⟩, rfl, fun _ => ?_, ?_⟩
      · rw [newRemotectl1] at hnew
        split at hnew
        · exact (env.calloc_fresh _ _ _ hnew).1
        · cases hnew
      · rintro hl rfl
        simp only [closeAllocates, closeDrops, afterCalls, afterDsp, withRemotectl1, hnew]
        cases closeCalls env t n <;> simp

theorem subU32_one_iff {c : ℕ} (hc : c < 2 ^ 32) : subU32 c 1 + 1 = c ↔ 0 < c := by
  rw [subU32]
  omega

theorem addU32_one_ne (c : ℕ) : addU32 c 1 + 1 ≠ c := by
  rw [addU32]
  omega

theorem subU32_addU32_one {c : ℕ} (hc : c < 2 ^ 32) : subU32 (addU32 c 1) 1 = c := by
  rw [addU32, subU32]
  omega

/-- The counter of the node's class after the calls and the dequeue has dropped by one. -/
theorem close_count_iff {c : ℕ} (hc : c < 2 ^ 32) (const allocs drops closes : Bool)
    {c₁ c₂ c₃ : ℕ} (hc₁ : c₁ = if allocs && const then addU32 c 1 else c)
    (hc₂ : c₂ = if drops && const then subU32 c₁ 1 else c₁)
    (hc₃ : c₃ = if closes && !const then subU32 c₂ 1 else c₂) :
    c₃ + 1 = c ↔ 0 < c ∧ if const then drops = true ∧ allocs = false else closes = true := by
  have hsub := subU32_one_iff hc
  have hadd := addU32_one_ne c
  have hback := subU32_addU32_one hc
  cases const <;> cases allocs <;> cases drops <;> cases closes <;>
    simp at hc₁ hc₂ hc₃ <;> simp [hc₃, hc₂, hc₁, hsub, hadd, hback]

end CloseNode

namespace HandleList

theorem ite_prepend_nodes (c : Bool) (hl : HandleList) (n : HandleInfo) (list : HandleListId) :
    (if c then hl.prepend .multiDomain n else hl).nodes list =
      if c && list = .multiDomain then n :: hl.nodes list else hl.nodes list := by
  cases c
  · rfl
  · rw [if_pos rfl, prepend_nodes]
    cases list <;> rfl

theorem ite_dequeue_nodes (c : Bool) (hl : HandleList) (key : ℕ) (list : HandleListId) :
    (if c then hl.dequeue .multiDomain key else hl).nodes list =
      if c && list = .multiDomain then fastrpcFreeHandle (hl.nodes list) key else hl.nodes list := by
  cases c
  · rfl
  · rw [if_pos rfl, dequeue_nodes]
    cases list <;> rfl

theorem ite_prepend_count (c : Bool) (hl : HandleList) (n : HandleInfo) (r : ℕ) :
    (if c then hl.prepend .multiDomain n else hl).count .multiDomain r =
      if c && sameClass .multiDomain n.remote .multiDomain r then addU32 (hl.count .multiDomain r) 1
      else hl.count .multiDomain r := by
  cases c
  · rfl
  · rw [if_pos rfl, prepend_count, Bool.true_and]
    split
    · next hs => rw [hl.count_of_sameClass hs]
    · rfl

theorem ite_dequeue_count (c : Bool) (hl : HandleList) (key r : ℕ) :
    (if c then hl.dequeue .multiDomain key else hl).count .multiDomain r =
      if c && sameClass .multiDomain key .multiDomain r then subU32 (hl.count .multiDomain r) 1
      else hl.count .multiDomain r := by
  cases c
  · rfl
  · rw [if_pos rfl, dequeue_count, Bool.true_and]
    split
    · next hs => rw [hl.count_of_sameClass hs]
    · rfl

end HandleList

section CloseNode

variable {env : TableEnv} {t : HandleTable} {n : HandleInfo}

/-- What a close that does not end the session leaves of the lists and the counter. -/
theorem remoteHandle64Close_lists (ht : t.Placed) {h : ℕ} (hn : t.nodeAt h = some n)
    (hlast : t.startDeinit n.hlist = false) (hconst : isConstHandle h = false) :
    let t' := (@remoteHandle64Close env h).after t
    let hl := t.hlist n.hlist
    let hl' := t'.hlist n.hlist
    let const := isConstHandle n.remote
    ∃ m : HandleInfo, m.remote = constRemotectl1Handle ∧
      (closeAllocates env t n = true → m.addr ∉ t.live) ∧
      (∀ d, d ≠ n.hlist → t'.hlist d = t.hlist d) ∧ hl'.nql = hl.nql ∧ hl'.rql = hl.rql ∧
      (∃ l₁ l₂, l₁ = (if closeAllocates env t n then m :: hl.ql else hl.ql) ∧
        l₂ = (if closeDrops env t n then fastrpcFreeHandle l₁ constRemotectl1Handle else l₁) ∧
        hl'.ql = if dspCloses env t n then fastrpcFreeHandle l₂ h else l₂) ∧
      ∃ c₁ c₂, c₁ = (if closeAllocates env t n && const then
          addU32 (hl.count .multiDomain n.remote) 1 else hl.count .multiDomain n.remote) ∧
        c₂ = (if closeDrops env t n && const then subU32 c₁ 1 else c₁) ∧
        hl'.count .multiDomain n.remote =
          if dspCloses env t n && !const then subU32 c₂ 1 else c₂ := by
  intro t' hl hl' const
  obtain ⟨m, hm, hfresh, hcalls⟩ := afterCalls_eq env t n
  have hafter := remoteHandle64Close_after env ht hn hlast
  have hbase := hcalls _ rfl
  refine ⟨m, hm, hfresh, hafter.other, ?_⟩
  have hnodes : ∀ list, hl'.nodes list = _ := fun list =>
    (congrFun hafter.lists.nodes_eq list).trans (HandleList.ite_dequeue_nodes _ _ _ list)
  have hcount : hl'.count .multiDomain n.remote = _ :=
    (congrFun (congrFun hafter.lists.count_eq .multiDomain) n.remote).trans
      (HandleList.ite_dequeue_count _ _ _ _)
  simp only [hbase, HandleList.ite_dequeue_nodes, HandleList.ite_prepend_nodes] at hnodes
  simp only [hbase, HandleList.ite_dequeue_count, HandleList.ite_prepend_count, hm] at hcount
  have h8 : sameClass .multiDomain constRemotectl1Handle .multiDomain n.remote = const := by
    rw [sameClass, show isConstHandle constRemotectl1Handle = true from rfl]
    simp [const]
  have hh : sameClass .multiDomain h .multiDomain n.remote = !const := by
    rw [sameClass, hconst]
    cases hc : isConstHandle n.remote <;> simp [const, hc]
  rw [h8, hh] at hcount
  have hnql : hl'.nodes .nonDomain = hl.nodes .nonDomain := by simpa using hnodes .nonDomain
  have hrql : hl'.nodes .reverse = hl.nodes .reverse := by simpa using hnodes .reverse
  have hql := hnodes .multiDomain
  simp only [decide_true, Bool.and_true] at hql
  exact ⟨hnql, hrql, ⟨_, _, rfl, rfl, hql⟩, ⟨_, _, rfl, rfl, hcount⟩⟩

end CloseNode

end FastRpc
