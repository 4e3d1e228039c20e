import FastRpc.HandleClose
import FastRpc.LoggedTriple

/-! # The session's cached handles

A `handle_list` caches five constant handles, each filled in by its own function with the address of
a new node on `ql`.  The nodes die in four places: the fallbacks of `remotectl1`, `adsp_perf1` and
`adsp_listener1` take the constant's node off the list, `domain_deinit` frees the whole list, and
`domain_init` constructs it anew.  Only some of them reset the field: the fallback of `remotectl1`
does, `domain_deinit` resets four of the five (`adspperfhandle` stays), and the others none.

`cached_handles_live` says under which condition on the steps no cached handle outlives its node. -/

namespace FastRpc

open Transition Logged

/-! ### The property and the condition -/

/-- A cached handle is unset, invalid, or the local handle of a node on the `ql` list. -/
def HandleList.CachedOk (hl : HandleList) (s : SessionHandle) : Prop :=
  hl.slot s = 0 ∨ hl.slot s = invalidHandle ∨ ∃ hi ∈ hl.ql, hi.addr = hl.slot s

/-- No cached handle of any domain has outlived its node. -/
def HandleTable.CachesLive (t : HandleTable) : Prop := ∀ domain s, (t.hlist domain).CachedOk s

/-- No handle is cached. -/
def HandleList.Uncached (hl : HandleList) (s : SessionHandle) : Prop :=
  hl.slot s = 0 ∨ hl.slot s = invalidHandle

/-- The condition on a step: a node that is taken off a `ql` list is cached by no field (but for the
`remotectl1` node in the field that the fallback resets next), `domain_deinit` finds no `adsp_perf1`
handle, and `domain_init` finds no cached handle at all. -/
def SlotKept (t : HandleTable) : TableStep → Prop
  | .update (.dequeue .multiDomain) domain h =>
      ∀ hi ∈ firstWith (t.hlist domain).ql h, ∀ s,
        (s = .remotectlhandle ∧ h = constRemotectl1Handle) ∨ (t.hlist domain).slot s ≠ hi.addr
  | .resetSession domain => (t.hlist domain).Uncached .adspperfhandle
  | .ctor domain => ∀ s, (t.hlist domain).Uncached s
  | _ => True

/-- The operations of the table, and the other users of `remotectl1`, which fall back in the same
way (`fastrpc_set_remote_uthread_params`, `manage_adaptive_qos`). -/
inductive CacheOp
  | table (op : TableOp)
  | useRemotectl1 (domain : Domain)

/-- Runs one operation. -/
def CacheOp.exec {env : TableEnv} : CacheOp → TableM env PUnit
  | .table op => op.exec
  | .useRemotectl1 domain => discard (fastrpcSetRemoteUthreadParams domain)

/-- A statement about the five fields can be tested. -/
instance decidableForallSlots {p : SessionHandle → Prop} [DecidablePred p] : Decidable (∀ s, p s) :=
  decidable_of_iff
    (p .cphandle ∧ p .msghandle ∧ p .listenerhandle ∧ p .remotectlhandle ∧ p .adspperfhandle)
    ⟨fun h s => by obtain ⟨h₁, h₂, h₃, h₄, h₅⟩ := h; cases s <;> assumption,
      fun h => ⟨h _, h _, h _, h _, h _⟩⟩

instance (hl : HandleList) (s : SessionHandle) : Decidable (hl.CachedOk s) :=
  inferInstanceAs (Decidable (_ ∨ _ ∨ ∃ hi ∈ hl.ql, hi.addr = hl.slot s))

instance (hl : HandleList) (s : SessionHandle) : Decidable (hl.Uncached s) :=
  inferInstanceAs (Decidable (_ ∨ _))

instance (t : HandleTable) : ∀ e, Decidable (SlotKept t e)
  | .update (.dequeue .multiDomain) domain h =>
      inferInstanceAs (Decidable (∀ hi ∈ firstWith (t.hlist domain).ql h, ∀ s,
        (s = .remotectlhandle ∧ h = constRemotectl1Handle) ∨ (t.hlist domain).slot s ≠ hi.addr))
  | .update (.dequeue .nonDomain) _ _ => isTrue trivial
  | .update (.dequeue .reverse) _ _ => isTrue trivial
  | .update (.prepend _) _ _ => isTrue trivial
  | .resetSession domain => inferInstanceAs (Decidable ((t.hlist domain).Uncached _))
  | .ctor domain => inferInstanceAs (Decidable (∀ s, (t.hlist domain).Uncached s))
  | .clear _ _ => isTrue trivial
  | .popReverse _ => isTrue trivial
  | .setSlot _ _ _ => isTrue trivial
  | .setState _ _ => isTrue trivial
  | .setDev _ _ => isTrue trivial
  | .setDsppd _ _ => isTrue trivial
  | .setThreadContext _ => isTrue trivial
  | .call => isTrue trivial

/-! ### Steps -/

/-- A table whose nodes are apart and whose cached handles are live but for those in `E`. -/
structure LiveExcept (E : Domain → SessionHandle → Prop) (t : HandleTable) : Prop where
  placed : t.Placed
  live : ∀ domain s, E domain s ∨ (t.hlist domain).CachedOk s

/-- A table all of whose cached handles are live. -/
abbrev Live : HandleTable → Prop := LiveExcept (fun _ _ => False)

/-- The steps that take no node off a `ql` list and set no cached handle. -/
def Calm : TableStep → Prop
  | .update (.dequeue list) _ _ => list ≠ .multiDomain
  | .clear list _ => list ≠ .multiDomain
  | .ctor _ => False
  | .setSlot _ _ _ => False
  | .resetSession _ => False
  | _ => True

theorem HandleList.CachedOk.mono {hl hl' : HandleList} {s : SessionHandle} (h : hl.CachedOk s)
    (hslot : hl'.slot s = hl.slot s) (hql : hl.ql ⊆ hl'.ql) : hl'.CachedOk s := by
  unfold CachedOk at h ⊢
  rw [hslot]
  exact h.imp_right (Or.imp_right fun ⟨hi, hmem, haddr⟩ => ⟨hi, hql hmem, haddr⟩)

theorem slot_setNodes (hl : HandleList) (list : HandleListId) (l : List HandleInfo)
    (s : SessionHandle) : (hl.setNodes list l).slot s = hl.slot s := by
  cases list <;> cases s <;> rfl

theorem slot_setCount (hl : HandleList) (list : HandleListId) (h n : ℕ) (s : SessionHandle) :
    (hl.setCount list h n).slot s = hl.slot s := by
  unfold HandleList.setCount
  cases list with
  | multiDomain => dsimp only; split <;> cases s <;> rfl
  | nonDomain => cases s <;> rfl
  | reverse => cases s <;> rfl

theorem slot_prepend (hl : HandleList) (list : HandleListId) (n : HandleInfo) (s : SessionHandle) :
    (hl.prepend list n).slot s = hl.slot s := by
  unfold HandleList.prepend
  rw [slot_setCount, slot_setNodes]

theorem slot_dequeue (hl : HandleList) (list : HandleListId) (h : ℕ) (s : SessionHandle) :
    (hl.dequeue list h).slot s = hl.slot s := by
  unfold HandleList.dequeue
  rw [slot_setCount, slot_setNodes]

theorem ql_prepend_subset (hl : HandleList) (list : HandleListId) (n : HandleInfo) :
    hl.ql ⊆ (hl.prepend list n).ql := by
  change hl.ql ⊆ (hl.prepend list n).nodes .multiDomain
  rw [HandleList.prepend_nodes]
  split
  · next hlist =>
      subst hlist
      exact List.subset_cons_of_subset _ (List.Subset.refl _)
  · exact List.Subset.refl _

theorem ql_dequeue_of_ne {list : HandleListId} (hne : list ≠ .multiDomain) (hl : HandleList)
    (h : ℕ) : (hl.dequeue list h).ql = hl.ql := by
  change (hl.dequeue list h).nodes .multiDomain = hl.nodes .multiDomain
  rw [HandleList.dequeue_nodes, if_neg hne]

theorem ql_setNodes_of_ne {list : HandleListId} (hne : list ≠ .multiDomain) (hl : HandleList)
    (l : List HandleInfo) : (hl.setNodes list l).ql = hl.ql := by
  change (hl.setNodes list l).nodes .multiDomain = hl.nodes .multiDomain
  rw [HandleList.nodes_setNodes, if_neg hne]

section Steps

variable {env : TableEnv} {E E' : Domain → SessionHandle → Prop} {t : HandleTable}

/-- A change of one `handle_list` keeps the live handles when it keeps those of this list. -/
theorem LiveExcept.modify (h : LiveExcept E t) {domain : Domain} {f : HandleList → HandleList}
    {t' : HandleTable} (ht' : t'.hlist = (t.modify domain f).hlist) (hplaced : t'.Placed)
    (hE : ∀ d s, d ≠ domain → E d s → E' d s)
    (hf : ∀ s, E' domain s ∨ (f (t.hlist domain)).CachedOk s) : LiveExcept E' t' := by
  refine ⟨hplaced, fun d s => ?_⟩
  rw [ht']
  by_cases hd : d = domain
  · subst hd
    rw [HandleTable.modify_hlist]
    exact hf s
  · rw [HandleTable.modify_hlist_of_ne hd]
    exact (h.live d s).imp_left (hE d s hd)

/-- The same for a change that keeps the cached fields and every node of the `ql` list. -/
theorem LiveExcept.modify_same (h : LiveExcept E t) {domain : Domain}
    {f : HandleList → HandleList} {t' : HandleTable}
    (ht' : t'.hlist = (t.modify domain f).hlist) (hplaced : t'.Placed)
    (hslot : ∀ s, (f (t.hlist domain)).slot s = (t.hlist domain).slot s)
    (hql : (t.hlist domain).ql ⊆ (f (t.hlist domain)).ql) : LiveExcept E t' :=
  h.modify ht' hplaced (fun _ _ _ hE => hE)
    (fun s => (h.live domain s).imp_right (fun hok => hok.mono (hslot s) hql))

theorem calm_step {e : TableStep} (he : Calm e) (h : LiveExcept E t) :
    LiveExcept E (tableStep env t e) := by
  have hplaced : (tableStep env t e).Placed := tableStep_placed e h.placed
  cases e with
  | update req domain k =>
      cases req with
      | prepend list =>
          cases halloc : env.calloc t.calls t.live with
          | none =>
              simp only [tableStep, halloc] at hplaced ⊢
              exact ⟨hplaced, h.live⟩
          | some addr =>
              simp only [tableStep, halloc] at hplaced ⊢
              exact h.modify_same (f := fun hl => hl.prepend list ⟨domain, addr, k⟩) rfl hplaced
                (fun s => slot_prepend _ _ _ s) (ql_prepend_subset _ _ _)
      | dequeue list =>
          exact h.modify_same (f := fun hl => hl.dequeue list k) rfl hplaced
            (fun s => slot_dequeue _ _ _ s) (ql_dequeue_of_ne he _ _ ▸ List.Subset.refl _)
  | clear list domain =>
      exact h.modify_same (f := fun hl => hl.setNodes list []) rfl hplaced
        (fun s => slot_setNodes _ _ _ s) (ql_setNodes_of_ne he _ _ ▸ List.Subset.refl _)
  | popReverse domain =>
      exact h.modify_same (f := fun hl => { hl with rql := hl.rql.tail }) rfl hplaced
        (fun s => by cases s <;> rfl) (List.Subset.refl _)
  | ctor domain => exact he.elim
  | setSlot s domain v => exact he.elim
  | setState domain state =>
      exact h.modify_same (f := fun hl => { hl with state := state }) rfl hplaced
        (fun s => by cases s <;> rfl) (List.Subset.refl _)
  | setDev domain dev =>
      exact h.modify_same (f := fun hl => { hl with dev := dev }) rfl hplaced
        (fun s => by cases s <;> rfl) (List.Subset.refl _)
  | setDsppd domain pd =>
      exact h.modify_same (f := fun hl => { hl with dsppd := pd }) rfl hplaced
        (fun s => by cases s <;> rfl) (List.Subset.refl _)
  | resetSession domain => exact he.elim
  | setThreadContext domain => exact ⟨hplaced, h.live⟩
  | call => exact ⟨hplaced, h.live⟩

/-- A dequeue leaves out no cached node, but for the one of `remotectl1`. -/
theorem dequeue_step {domain : Domain} {k : ℕ} (h : LiveExcept E t)
    (hC : SlotKept t (.update (.dequeue .multiDomain) domain k)) :
    LiveExcept
      (fun d s => E d s ∨ d = domain ∧ s = .remotectlhandle ∧ k = constRemotectl1Handle)
      (tableStep env t (.update (.dequeue .multiDomain) domain k)) := by
  refine h.modify (f := fun hl => hl.dequeue .multiDomain k) rfl (tableStep_placed _ h.placed)
    (fun _ _ _ hE => Or.inl hE) (fun s => ?_)
  rcases h.live domain s with hE | hok
  · exact Or.inl (Or.inl hE)
  unfold HandleList.CachedOk at hok ⊢
  rw [slot_dequeue]
  rcases hok with hzero | hinv | ⟨hi, hmem, haddr⟩
  · exact Or.inr (Or.inl hzero)
  · exact Or.inr (Or.inr (Or.inl hinv))
  by_cases hfirst : firstWith (t.hlist domain).ql k = some hi
  · rcases hC hi hfirst s with ⟨hs, hk⟩ | hne
    · exact Or.inl (Or.inr ⟨rfl, hs, hk⟩)
    · exact absurd haddr.symm hne
  · refine Or.inr (Or.inr (Or.inr ⟨hi, ?_, haddr⟩))
    change hi ∈ ((t.hlist domain).dequeue .multiDomain k).nodes .multiDomain
    rw [HandleList.dequeue_nodes, if_pos rfl]
    by_contra hnot
    exact hfirst ((notMem_free_iff (h.placed.nodup domain) hmem).mp hnot)

theorem slot_setSlot (hl : HandleList) (s s' : SessionHandle) (v : ℕ) :
    (hl.setSlot s v).slot s' = if s' = s then v else hl.slot s' := by
  cases s <;> cases s' <;> rfl

theorem ql_setSlot (hl : HandleList) (s : SessionHandle) (v : ℕ) : (hl.setSlot s v).ql = hl.ql := by
  cases s <;> rfl

/-- Caching a live node, or the invalid handle, makes up for an outdated field. -/
theorem setSlot_step {s : SessionHandle} {domain : Domain} {v : ℕ}
    (h : LiveExcept (fun d s' => E d s' ∨ d = domain ∧ s' = s) t)
    (hv : v = invalidHandle ∨ ∃ hi ∈ (t.hlist domain).ql, hi.addr = v) :
    LiveExcept E (tableStep env t (.setSlot s domain v)) := by
  refine h.modify (f := fun hl => hl.setSlot s v) rfl (tableStep_placed _ h.placed)
    (fun d s' hd hE => hE.resolve_right (fun hds => hd hds.1)) (fun s' => ?_)
  unfold HandleList.CachedOk
  rw [slot_setSlot, ql_setSlot]
  by_cases hs : s' = s
  · rw [if_pos hs]
    exact Or.inr (Or.inr hv)
  · rw [if_neg hs]
    exact (h.live domain s').imp_left (fun hE => hE.resolve_right (fun hds => hs hds.2))

theorem clear_step {domain : Domain} (h : Live t) :
    LiveExcept (fun d _ => d = domain) (tableStep env t (.clear .multiDomain domain)) :=
  h.modify (f := fun hl => hl.setNodes .multiDomain []) rfl (tableStep_placed _ h.placed)
    (fun _ _ _ hE => hE.elim) (fun _ => Or.inl rfl)

theorem ctor_step {domain : Domain} (h : LiveExcept E t) (hC : SlotKept t (.ctor domain)) :
    LiveExcept E (tableStep env t (.ctor domain)) := by
  refine h.modify (f := fun hl => { hl with ql := [], nql := [], rql := [] }) rfl
    (tableStep_placed _ h.placed) (fun _ _ _ hE => hE) (fun s => Or.inr ?_)
  have hslot : ({ t.hlist domain with ql := [], nql := [], rql := [] } : HandleList).slot s =
      (t.hlist domain).slot s := by
    cases s <;> rfl
  unfold HandleList.CachedOk
  rw [hslot]
  exact (hC s).imp_right Or.inl

/-- The end of a session resets every field but one, which the condition covers. -/
theorem resetSession_step {domain : Domain} (h : LiveExcept (fun d _ => d = domain) t)
    (hC : SlotKept t (.resetSession domain)) : Live (tableStep env t (.resetSession domain)) := by
  refine h.modify (f := fun hl => hl.resetSession domain) rfl (tableStep_placed _ h.placed)
    (fun d _ hd hE => hd hE) (fun s => Or.inr ?_)
  unfold HandleList.CachedOk
  cases s with
  | adspperfhandle => exact hC.imp_right Or.inl
  | cphandle => exact Or.inl rfl
  | msghandle => exact Or.inl rfl
  | listenerhandle => exact Or.inl rfl
  | remotectlhandle => exact Or.inl rfl

end Steps

/-! ### Programs -/

section Programs

variable {env : TableEnv} {E : Domain → SessionHandle → Prop}

theorem keeps_calm {e : TableStep} (he : Calm e) :
    Keeps SlotKept (LiveExcept E) (emit e : TableM env PUnit) :=
  brings_emit fun _ hs _ => calm_step he hs

theorem keeps_callOut : Keeps SlotKept (LiveExcept E) (@callOut env) := by
  apply brings_read_bind
  intro t
  exact brings_bind (keeps_calm trivial) (fun _ => keeps_pure _)

theorem keeps_update {req : ListRequest} {domain : Domain} {h : ℕ}
    (he : Calm (.update req domain h)) :
    Keeps SlotKept (LiveExcept E) (@fastrpcUpdateModuleList env req domain h) := by
  apply brings_read_bind
  intro t
  apply brings_bind (keeps_calm he)
  intro _
  cases req with
  | prepend list => exact keeps_pure _
  | dequeue list => exact keeps_pure _

theorem keeps_invokeSession (handle : ℕ) :
    Keeps SlotKept (LiveExcept E) (@invokeSession env handle) := by
  apply brings_read_bind
  intro t
  split
  · apply brings_ite
    · intro _
      exact keeps_callOut
    · intro _
      exact brings_bind (keeps_calm trivial) (fun _ => keeps_callOut)
  · exact keeps_callOut

/-- A new constant handle is cached only with its node on the list. -/
theorem keeps_getSessionHandle (s : SessionHandle) (const : ℕ) (domain : Domain) :
    Keeps SlotKept (LiveExcept E) (@getSessionHandle env s const domain) := by
  constructor
  intro t ht _
  unfold getSessionHandle fastrpcUpdateModuleList
  rw [after_read_bind, after_ite, after_pure, after_bind, after_read_bind, after_emit_bind,
    after_pure, val_read_bind, val_emit_bind, val_pure]
  split
  · exact ht
  cases halloc : env.calloc t.calls t.live with
  | none => exact calm_step (e := .update (.prepend .multiDomain) domain const) trivial ht
  | some addr =>
      have hcalm : LiveExcept E (tableStep env t (.update (.prepend .multiDomain) domain const)) :=
        calm_step trivial ht
      refine @setSlot_step env E _ s domain addr
        ⟨hcalm.placed, fun d s' => (hcalm.live d s').imp_left Or.inl⟩ (Or.inr ?_)
      refine ⟨⟨domain, addr, const⟩, ?_, rfl⟩
      simp only [tableStep, halloc]
      rw [HandleTable.modify_hlist]
      change _ ∈ ((t.hlist domain).prepend .multiDomain _).nodes .multiDomain
      rw [HandleList.prepend_nodes, if_pos rfl]
      exact List.mem_cons_self

theorem keeps_dropRemotectl1 (domain : Domain) :
    Keeps SlotKept (LiveExcept E) (@dropRemotectl1 env domain) := by
  unfold dropRemotectl1 fastrpcUpdateModuleList
  apply brings_bind
  · apply brings_discard
    apply brings_read_bind
    intro t
    apply brings_bind
    · exact brings_emit fun u hu hC => dequeue_step hu hC
    · intro _
      exact keeps_pure _
  · intro _
    apply brings_emit
    intro u hu _
    refine setSlot_step ⟨hu.placed, fun d s => ?_⟩ (Or.inl rfl)
    exact (hu.live d s).imp_left (Or.imp_right fun hds => ⟨hds.1, hds.2.1⟩)

/-- The other dequeues, of an id that is not that of `remotectl1`. -/
theorem keeps_dequeue {k : ℕ} (hk : k ≠ constRemotectl1Handle) (domain : Domain) :
    Keeps SlotKept (LiveExcept E)
      (@fastrpcUpdateModuleList env (.dequeue .multiDomain) domain k) := by
  have hemit : Keeps SlotKept (LiveExcept E)
      (emit (.update (.dequeue .multiDomain) domain k) : TableM env PUnit) := by
    apply brings_emit
    intro u hu hC
    have hstep : LiveExcept
        (fun d s => E d s ∨ d = domain ∧ s = .remotectlhandle ∧ k = constRemotectl1Handle)
        (tableStep env u (.update (.dequeue .multiDomain) domain k)) := dequeue_step hu hC
    exact ⟨hstep.placed, fun d s => (hstep.live d s).imp_left
      (fun hE => hE.resolve_right (fun hds => hk hds.2.2))⟩
  apply brings_read_bind
  intro t
  exact brings_bind hemit (fun _ => keeps_pure _)

/-! ### Reverse handles and sessions -/

theorem keeps_appsRemotectlOpen : Keeps SlotKept (LiveExcept E) (@appsRemotectlOpen env) := by
  apply brings_read_bind
  intro t
  apply brings_bind keeps_callOut
  intro a
  apply brings_ite
  · intro _
    exact keeps_pure _
  · intro _
    apply brings_bind (keeps_update (by trivial))
    intro r
    cases r with
    | none => exact keeps_pure _
    | some addr => exact keeps_pure _

theorem keeps_appsRemotectlClose (handle : ℕ) :
    Keeps SlotKept (LiveExcept E) (@appsRemotectlClose env handle) := by
  apply brings_read_bind
  intro t
  apply brings_bind keeps_callOut
  intro a
  apply brings_ite
  · intro _
    exact keeps_pure _
  · intro _
    exact brings_bind (brings_discard (keeps_update (nomatch ·))) (fun _ => keeps_pure _)

theorem keeps_clearReverseList (domain : Domain) (n : ℕ) :
    Keeps SlotKept (LiveExcept E) (@clearReverseList env domain n) := by
  induction n with
  | zero => exact keeps_pure _
  | succ n ih =>
      apply brings_read_bind
      intro t
      split
      · exact keeps_pure _
      · apply brings_bind (keeps_calm (by trivial))
        intro _
        exact brings_bind (brings_discard (keeps_appsRemotectlClose _)) (fun _ => ih)

theorem keeps_domainDeinit (domain : Domain) : Keeps SlotKept Live (@domainDeinit env domain) := by
  apply brings_read_bind
  intro t
  apply brings_ite
  · intro _
    apply brings_bind (keeps_getSessionHandle _ _ _)
    intro handle
    have hrest : Keeps SlotKept Live (do
        emit (.setState domain .deinit)
        emit (.clear .multiDomain domain)
        let u ← read
        clearReverseList domain (u.hlist domain).rql.length
        if domain = defaultDomainId then emit (.clear .nonDomain domain)
        emit (.resetSession domain)
        emit (.setState domain .clean) : TableM env PUnit) := by
      have hreset : Brings SlotKept (LiveExcept fun d _ => d = domain) (do
          emit (.resetSession domain)
          emit (.setState domain .clean) : TableM env PUnit) Live :=
        brings_bind (brings_emit fun u hu hC => resetSession_step hu hC)
          (fun _ => keeps_calm (by trivial))
      apply brings_bind (keeps_calm (by trivial))
      intro _
      -- From the clear to the reset the fields of this domain name freed nodes.
      refine brings_bind (brings_emit fun u hu _ => clear_step hu) fun _ => ?_
      apply brings_read_bind
      intro u
      apply brings_bind (keeps_clearReverseList domain _)
      intro _
      exact brings_optional (keeps_calm (nomatch ·)) (fun _ => hreset)
    apply brings_ite
    · intro _
      exact brings_bind (brings_discard (keeps_invokeSession _)) (fun _ => hrest)
    · intro _
      exact brings_bind (brings_discard keeps_callOut) (fun _ => hrest)
  · intro _
    exact keeps_calm (by trivial)

theorem keeps_perfDspEnable (domain : Domain) :
    Keeps SlotKept Live (@perfDspEnable env domain) := by
  apply brings_bind keeps_callOut
  intro a
  apply brings_ite
  · intro _
    apply brings_bind (keeps_getSessionHandle _ _ _)
    intro handle
    apply brings_ite
    · intro _
      apply brings_bind (keeps_invokeSession _)
      intro b
      apply brings_ite
      · intro _
        exact brings_discard (keeps_dequeue (by decide) domain)
      · intro _
        exact keeps_pure _
    · intro _
      exact keeps_pure _
  · intro _
    exact keeps_pure _

theorem keeps_fastrpcSetRemoteUthreadParams (domain : Domain) :
    Keeps SlotKept Live (@fastrpcSetRemoteUthreadParams env domain) := by
  apply brings_bind (keeps_getSessionHandle _ _ _)
  intro handle
  apply brings_ite
  · intro _
    apply brings_bind keeps_callOut
    intro a
    apply brings_ite
    · intro _
      apply brings_bind (keeps_dropRemotectl1 domain)
      intro _
      exact brings_bind keeps_callOut (fun b => keeps_pure _)
    · intro _
      exact keeps_pure _
  · intro _
    exact brings_bind keeps_callOut (fun b => keeps_pure _)

theorem keeps_listenerAndroidDomainInit (domain : Domain) :
    Keeps SlotKept Live (@listenerAndroidDomainInit env domain) := by
  apply brings_bind keeps_callOut
  intro a
  apply brings_ite
  · intro _
    exact keeps_pure _
  · intro _
    apply brings_bind (keeps_getSessionHandle _ _ _)
    intro handle
    have hrest : Keeps SlotKept Live
        (if a.flag then fastrpcSetRemoteUthreadParams domain else pure aeeSuccess : TableM env ℤ) :=
      brings_ite (fun _ => keeps_fastrpcSetRemoteUthreadParams domain) (fun _ => keeps_pure _)
    apply brings_ite
    · intro _
      apply brings_bind keeps_callOut
      intro b
      exact brings_optional (brings_discard (keeps_dequeue (by decide) domain)) (fun _ => hrest)
    · intro _
      exact hrest

theorem keeps_domainInitBody (domain : Domain) :
    Keeps SlotKept Live (@domainInitBody env domain) := by
  unfold domainInitBody
  apply brings_bind (keeps_calm (by trivial))
  intro _
  apply brings_read_bind
  intro t
  apply brings_bind keeps_callOut
  intro a
  apply brings_ite
  · intro _
    exact keeps_pure _
  · intro _
    apply brings_optional (keeps_calm (by trivial))
    intro _
    apply brings_bind keeps_callOut
    intro b
    apply brings_ite
    · intro _
      exact keeps_pure _
    · intro _
      apply brings_optional (brings_discard (keeps_getSessionHandle _ _ _))
      intro _
      apply brings_bind keeps_callOut
      intro c
      apply brings_optional (brings_discard (keeps_getSessionHandle _ _ _))
      intro _
      apply brings_ite
      · intro _
        exact keeps_pure _
      · intro _
        apply brings_bind keeps_callOut
        intro d
        apply brings_optional (keeps_perfDspEnable domain)
        intro _
        apply brings_bind (keeps_calm (by trivial))
        intro _
        apply brings_bind (keeps_listenerAndroidDomainInit domain)
        intro nErr
        apply brings_ite
        · intro _
          exact keeps_pure _
        · intro _
          apply brings_read_bind
          intro u
          apply brings_ite
          · intro _
            apply brings_bind (keeps_getSessionHandle _ _ _)
            intro handle
            apply brings_optional (brings_discard (keeps_invokeSession _))
            intro _
            exact keeps_pure _
          · intro _
            exact keeps_pure _

theorem keeps_domainInit (domain : Domain) : Keeps SlotKept Live (@domainInit env domain) := by
  apply brings_read_bind
  intro t
  apply brings_ite
  · intro _
    exact keeps_pure _
  · intro _
    apply brings_bind (brings_emit fun u hu hC => ctor_step hu hC)
    intro _
    apply brings_bind (keeps_domainInitBody domain)
    intro nErr
    apply brings_ite
    · intro _
      exact brings_bind (keeps_domainDeinit domain) (fun _ => keeps_pure _)
    · intro _
      apply brings_read_bind
      intro u
      exact keeps_pure _

theorem keeps_fastrpcSessionGet (domain : Domain) :
    Keeps SlotKept Live (@fastrpcSessionGet env domain) := by
  apply brings_read_bind
  intro t
  apply brings_ite
  · intro _
    exact keeps_pure _
  · intro _
    exact brings_bind (keeps_calm (by trivial)) (fun _ => keeps_pure _)

/-! ### Closing and opening -/

theorem keeps_closeOnDsp (domain : Domain) : Keeps SlotKept Live (@closeOnDsp env domain) := by
  apply brings_bind (keeps_getSessionHandle _ _ _)
  intro handle
  apply brings_ite
  · intro _
    apply brings_bind (keeps_invokeSession _)
    intro a
    apply brings_ite
    · intro _
      apply brings_bind (keeps_dropRemotectl1 domain)
      intro _
      exact brings_bind keeps_callOut (fun b => keeps_pure _)
    · intro _
      exact keeps_pure _
  · intro _
    apply brings_bind keeps_callOut
    intro a
    exact brings_ite (fun _ => keeps_pure _) (fun _ => keeps_pure _)

theorem keeps_remoteHandleCloseDomain (domain : Domain) (h : ℕ) :
    Keeps SlotKept Live (@remoteHandleCloseDomain env domain h) := by
  apply brings_ite
  · intro _
    exact keeps_pure _
  · intro _
    apply brings_bind keeps_callOut
    intro m
    exact brings_ite (fun _ => keeps_pure _) (fun _ => keeps_closeOnDsp domain)

theorem keeps_remoteHandleClose (h : ℕ) : Keeps SlotKept Live (@remoteHandleClose env h) := by
  apply brings_read_bind
  intro t
  apply brings_bind (keeps_remoteHandleCloseDomain _ h)
  intro nErr
  apply brings_ite
  · intro _
    exact brings_bind (brings_discard (keeps_update (nomatch ·))) (fun _ => keeps_pure _)
  · intro _
    apply brings_read_bind
    intro u
    exact brings_ite (fun _ => keeps_pure _) (fun _ => keeps_pure _)

theorem keeps_closeOnDomain (domain : Domain) {handle : ℕ} (remote : ℕ) (start_deinit : Bool)
    (hk : handle ≠ constRemotectl1Handle) :
    Keeps SlotKept Live (@closeOnDomain env domain handle remote start_deinit) := by
  apply brings_bind
  · exact brings_ite (fun _ => keeps_remoteHandleCloseDomain domain _) (fun _ => keeps_pure _)
  · intro nErr
    apply brings_ite
    · intro _
      exact brings_bind (brings_discard (keeps_dequeue hk domain)) (fun _ => keeps_pure _)
    · intro _
      exact keeps_pure _

/-- A handle that names a node is an address, and no constant. -/
theorem ne_remotectl1_of_domain {t : HandleTable} (ht : t.Placed) {h : ℕ} {domain : Domain}
    (hdomain : t.getDomainFromHandle h = some domain) : h ≠ constRemotectl1Handle := by
  unfold HandleTable.getDomainFromHandle at hdomain
  split at hdomain
  · obtain ⟨hi, hnode, -⟩ := Option.map_eq_some_iff.mp hdomain
    obtain ⟨haddr, d, hmem⟩ := HandleTable.mem_of_nodeAt hnode
    have hrange := ht.range d hi hmem
    unfold constRemotectl1Handle
    omega
  · cases hdomain

theorem keeps_remoteHandle64Close (handle : ℕ) :
    Keeps SlotKept Live (@remoteHandle64Close env handle) := by
  unfold remoteHandle64Close
  apply brings_read_bind_of
  intro t ht
  apply brings_ite
  · intro _
    exact keeps_pure _
  · intro _
    apply brings_ite
    · intro _
      exact keeps_pure _
    · intro _
      split
      · next domain remote hdomain _ =>
          apply brings_bind (keeps_calm (by trivial))
          intro _
          apply brings_bind
          · exact keeps_closeOnDomain domain remote _ (ne_remotectl1_of_domain ht.placed hdomain)
          intro nErr
          apply brings_ite
          · intro _
            exact keeps_pure _
          · intro _
            apply brings_optional (keeps_domainDeinit domain)
            intro _
            apply brings_read_bind
            intro u
            exact brings_ite (fun _ => keeps_pure _) (fun _ => keeps_pure _)
      · exact keeps_pure _

theorem keeps_openOnDsp (domain : Domain) : Keeps SlotKept Live (@openOnDsp env domain) := by
  apply brings_bind (keeps_getSessionHandle _ _ _)
  intro handle
  apply brings_ite
  · intro _
    apply brings_bind (keeps_invokeSession _)
    intro a
    apply brings_ite
    · intro _
      apply brings_bind (keeps_dropRemotectl1 domain)
      intro _
      apply brings_bind keeps_callOut
      intro b
      exact brings_ite (fun _ => keeps_pure _) (fun _ => keeps_pure _)
    · intro _
      exact keeps_pure _
  · intro _
    apply brings_bind keeps_callOut
    intro b
    exact brings_ite (fun _ => keeps_pure _) (fun _ => keeps_pure _)

theorem keeps_openBail (domain : Domain) (nErr : ℤ) :
    Keeps SlotKept Live (@openBail env domain nErr) := by
  apply brings_read_bind
  intro t
  exact brings_ite (fun _ => keeps_domainDeinit domain) (fun _ => keeps_pure _)

theorem keeps_remoteHandleOpenDomain (domain : Domain) (name : ModuleName) :
    Keeps SlotKept Live (@remoteHandleOpenDomain env domain name) := by
  cases name with
  | geteventfd => exact brings_bind keeps_callOut (fun a => keeps_pure _)
  | attachguestos => exact brings_bind (keeps_calm (by trivial)) (fun _ => keeps_pure _)
  | createstaticpd pd =>
      apply brings_bind keeps_callOut
      intro a
      apply brings_ite
      · intro _
        exact keeps_pure _
      · intro _
        apply brings_ite
        · intro _
          exact keeps_pure _
        · intro _
          cases pd with
          | none => exact keeps_pure _
          | some pd => exact brings_bind (keeps_calm (by trivial)) (fun _ => keeps_pure _)
  | attachuserpd => exact brings_bind (keeps_calm (by trivial)) (fun _ => keeps_pure _)
  | module =>
      apply brings_bind (keeps_domainInit domain)
      intro r
      apply brings_ite
      · intro _
        exact brings_bind (keeps_openBail domain _) (fun _ => keeps_pure _)
      · intro _
        apply brings_bind (keeps_openOnDsp domain)
        intro o
        exact brings_bind (keeps_openBail domain _) (fun _ => keeps_pure _)

theorem keeps_remoteHandleOpen (name : ModuleName) (ph : ℕ) :
    Keeps SlotKept Live (@remoteHandleOpen env name ph) := by
  apply brings_read_bind
  intro t
  apply brings_bind (keeps_fastrpcSessionGet _)
  intro nErr
  apply brings_branch (keeps_pure _) (keeps_remoteHandleOpenDomain _ name)
  intro r
  apply brings_ite
  · intro _
    exact brings_bind (brings_discard (keeps_update (by trivial))) (fun _ => keeps_pure _)
  · intro _
    exact brings_optional (brings_discard (keeps_remoteHandle64Close _)) (fun _ => keeps_pure _)

theorem keeps_remoteHandle64Open (domain : Option Domain) (name : ModuleName) :
    Keeps SlotKept Live (@remoteHandle64Open env domain name) := by
  cases domain with
  | none => exact keeps_pure _
  | some domain =>
      apply brings_bind (keeps_fastrpcSessionGet domain)
      intro nErr
      apply brings_branch (keeps_pure _) (keeps_remoteHandleOpenDomain domain name)
      intro r
      apply brings_ite
      · intro _
        apply brings_ite
        · intro _
          exact keeps_pure _
        · intro _
          exact brings_bind (keeps_update (by trivial)) (fun addr => keeps_pure _)
      · intro _
        exact brings_optional (brings_discard (keeps_remoteHandleClose _)) (fun _ => keeps_pure _)

/-! ### Closing a session -/

section Loops

variable {C : HandleTable → TableStep → Prop} {P : HandleTable → Prop}

/-- A loop keeps what its body keeps. -/
theorem keeps_forAllNextSafe (list : HandleListId) (domain : Domain)
    {body : HandleInfo → TableM env PUnit} (hbody : ∀ hi, Keeps C P (body hi)) (n : ℕ) :
    ∀ addr, Keeps C P (forAllNextSafe list domain body n addr) := by
  induction n with
  | zero => exact fun addr => keeps_pure _
  | succ n ih =>
      intro addr
      apply brings_read_bind
      intro t
      split
      · exact keeps_pure _
      · apply brings_bind (hbody _)
        intro _
        split
        · exact keeps_pure _
        · exact ih _

theorem keeps_forAllNodes (list : HandleListId) (domain : Domain)
    {body : HandleInfo → TableM env PUnit} (hbody : ∀ hi, Keeps C P (body hi)) :
    Keeps C P (forAllNodes list domain body) := by
  apply brings_read_bind
  intro t
  split
  · exact keeps_pure _
  · exact keeps_forAllNextSafe list domain hbody _ _

end Loops

theorem keeps_closeDomainSession (domain : Domain) :
    Keeps SlotKept Live (@closeDomainSession env domain) := by
  apply brings_read_bind
  intro t
  apply brings_ite
  · intro _
    exact keeps_pure _
  · intro _
    apply brings_bind (keeps_getSessionHandle _ _ _)
    intro handle
    apply brings_branch (brings_discard (keeps_invokeSession _)) (brings_discard keeps_callOut)
    intro _
    apply brings_bind
    · exact keeps_forAllNodes _ domain fun hi => brings_discard (keeps_remoteHandleClose _)
    intro _
    apply brings_bind
    · exact keeps_forAllNodes _ domain fun hi => brings_discard (keeps_appsRemotectlClose _)
    intro _
    apply brings_bind
    · exact keeps_forAllNodes _ domain fun hi => brings_discard (keeps_remoteHandle64Close _)
    intro _
    exact keeps_pure _

/-! ### Runs -/

theorem keeps_exec (op : CacheOp) : Keeps SlotKept Live (@CacheOp.exec env op) := by
  cases op with
  | useRemotectl1 domain => exact brings_discard (keeps_fastrpcSetRemoteUthreadParams domain)
  | table op =>
      cases op with
      | remoteHandleOpen name ph => exact brings_discard (keeps_remoteHandleOpen name ph)
      | remoteHandle64Open domain name => exact brings_discard (keeps_remoteHandle64Open domain name)
      | remoteHandleClose h => exact brings_discard (keeps_remoteHandleClose h)
      | remoteHandle64Close h => exact brings_discard (keeps_remoteHandle64Close h)
      | closeDomainSession domain => exact brings_discard (keeps_closeDomainSession domain)
      | domainDeinit domain => exact keeps_domainDeinit domain
      | appsRemotectlOpen => exact brings_discard keeps_appsRemotectlOpen
      | appsRemotectlClose handle => exact brings_discard (keeps_appsRemotectlClose handle)
      | sessionHandle s const domain => exact brings_discard (keeps_getSessionHandle s const domain)
      | switchThread domain => exact keeps_calm (by trivial)

end Programs

theorem start_live : Live HandleTable.start where
  placed :=
    { nodup := fun _ => List.nodup_nil
      placed := fun _ _ h => absurd h List.not_mem_nil
      range := fun _ _ h => absurd h List.not_mem_nil
      disjoint := fun _ _ _ _ h => absurd h List.not_mem_nil }
  live := fun _ s => Or.inr (Or.inl (by cases s <;> rfl))

/-- The steps of a run, from the start. -/
def cacheHistory (env : TableEnv) (ops : List CacheOp) : List TableStep :=
  Logged.history (@CacheOp.exec env) HandleTable.start ops

/-- **No cached handle outlives its node**, in any run of opens, closes, uses of the cached handles,
fallbacks and deinitialisations whose steps take off no cached node, end no session with an
`adsp_perf1` handle and construct the lists of no domain that caches a handle. -/
theorem cached_handles_live (env : TableEnv) (ops : List CacheOp)
    (h : Guarded (asTransition (tableStep env)) SlotKept HandleTable.start (cacheHistory env ops)) :
    Along (fun t op => some ((@CacheOp.exec env op).after t)) HandleTable.CachesLive
      HandleTable.start ops :=
  (runAll_keeps keeps_exec start_live h).mono (fun _ ht d s => (ht.live d s).resolve_left id)

/-- Two modules are opened on a domain, one of them is closed, and the session ends. -/
theorem cached_handles_live_session :
    Along (fun t op => some ((@CacheOp.exec (quietEnv (0x9000 + ·)) op).after t))
      HandleTable.CachesLive HandleTable.start
      [.table (.remoteHandle64Open (some 0) .module), .table (.remoteHandle64Open (some 0) .module),
        .useRemotectl1 0, .table (.remoteHandle64Close 0x1030), .table (.domainDeinit 0)] :=
  cached_handles_live _ _ (by decide +kernel)

/-- A session in which `get_adsp_perf1_handle` was asked for its handle ends: the handle stays cached
and its node is gone. -/
theorem perf_handle_outlives_node :
    ¬ (tableAfter (quietEnv (0x9000 + ·)) [.remoteHandle64Open (some 0) .module,
      .sessionHandle .adspperfhandle constAdspPerf1Handle 0, .domainDeinit 0]).CachesLive :=
  fun h => absurd (h 0 .adspperfhandle) (by decide +kernel)

end FastRpc
