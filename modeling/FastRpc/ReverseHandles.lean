import FastRpc.HandleClose

/-! # Reverse handles

The DSP opens modules of this process through `apps_remotectl_open`, and closes them through
`apps_remotectl_close`; the reverse list `rql` of the domain keeps their handles, so that
`close_domain_session` and `domain_deinit` can close what the DSP left open.  Both of these pass
`close_reverse_handle` the address of the node (`hi->local`), cut down to 32 bits, where the module
table knows the module by the handle that it gave out (`hi->remote`).  An open whose load failed still
returns 0 and gets a node; one whose node cannot be allocated leaves an open module behind; and a
close drops the node of the closing thread's domain.

Next to the table a run keeps the modules that are open, with the domain for which each was opened
(`OpenModules`): what the module table answers to an open or a close decides, not the list.
`reverse_handles_released` says under which condition the lists agree with it and the end of a session
closes just the modules that are open. -/

namespace FastRpc

open Transition Logged

deriving instance DecidableEq for TableStep

/-! ### The modules that are open -/

/-- The reverse modules that are open, the newest first, each with its domain and the handle that
`mod_table_open` returned for it. -/
abbrev OpenModules := List (Domain × ℕ)

/-- The handles that are open for a domain. -/
def OpenModules.on (reg : OpenModules) (domain : Domain) : List ℕ :=
  (reg.filter (fun m => m.1 = domain)).map Prod.snd

/-- A module with this handle is closed: one of the given domain, or else the newest. -/
def OpenModules.close (reg : OpenModules) (domain : Domain) (handle : ℕ) : OpenModules :=
  if (domain, handle) ∈ reg then reg.erase (domain, handle)
  else reg.eraseP (fun m => m.2 = handle)

/-- The handles under which an operation closes reverse modules, in order: every close that succeeds
goes on to a dequeue with its handle. -/
def closedReverse (l : List TableStep) : List ℕ :=
  l.filterMap (fun
    | .update (.dequeue .reverse) _ h => some h
    | _ => none)

/-- The table with the modules that are open. -/
structure ReverseState where
  table : HandleTable
  openModules : OpenModules

section Steps

variable (env : TableEnv)

/-- The modules that are open after an operation.  `mod_table_open` loaded a module when it returns 0
and no loader error; `mod_table_close` closed one when it returns 0, and also when only `dlclose`
failed. -/
def openAfter (s : ReverseState) : TableOp → OpenModules
  | .appsRemotectlOpen =>
      let a := env.answer s.table.calls
      if a.nErr = aeeSuccess ∧ a.dlErr = aeeSuccess then
        (s.table.getCurrentDomain, a.handle.getD 0) :: s.openModules
      else s.openModules
  | .appsRemotectlClose handle =>
      let a := env.answer s.table.calls
      if a.nErr = aeeSuccess ∨ a.dlErr ≠ aeeSuccess then
        s.openModules.close s.table.getCurrentDomain handle
      else s.openModules
  | op =>
      (closedReverse ((@TableOp.exec env op).log s.table)).foldl
        (fun reg h => reg.eraseP (fun m => m.2 = h)) s.openModules

/-- One operation. -/
def reverseStep (s : ReverseState) (op : TableOp) : Option ReverseState :=
  some ⟨(@TableOp.exec env op).after s.table, openAfter env s op⟩

/-- The reverse lists hold just the modules that are open. -/
def ReverseState.Listed (s : ReverseState) : Prop :=
  ∀ domain, (s.table.hlist domain).rql.map HandleInfo.remote = s.openModules.on domain

/-- The operation closes the session of a domain, or deinitialises the domain. -/
def EndsSession (t : HandleTable) (op : TableOp) (domain : Domain) : Prop :=
  (op = .closeDomainSession domain ∧ (t.hlist domain).dev ≠ -1) ∨
    .clear .multiDomain domain ∈ (@TableOp.exec env op).log t

/-- At the end of a session the reverse modules of the domain are closed, each once and by its own
handle. -/
def Released (s : ReverseState) (op : TableOp) : Prop :=
  ∀ domain, EndsSession env s.table op domain →
    (closedReverse ((@TableOp.exec env op).log s.table)).Perm (s.openModules.on domain)

/-- The condition on a step of an operation other than `apps_remotectl_open` and
`apps_remotectl_close`: it drops no reverse node, and where a domain is deinitialised, or its lists
are constructed, no reverse module is listed. -/
def RqlKept (t : HandleTable) : TableStep → Prop
  | .update (.prepend .reverse) _ _ => False
  | .update (.dequeue .reverse) _ _ => False
  | .popReverse _ => False
  | .clear .multiDomain domain => (t.hlist domain).rql = []
  | .clear .reverse domain => (t.hlist domain).rql = []
  | .ctor domain => (t.hlist domain).rql = []
  | _ => True

/-- The condition on an operation. -/
def ReverseKept (s : ReverseState) : TableOp → Prop
  | .appsRemotectlOpen =>
      (env.answer s.table.calls).nErr = aeeSuccess →
        (env.answer s.table.calls).dlErr = aeeSuccess ∧
          (env.calloc (s.table.calls + 1) s.table.live).isSome
  | .appsRemotectlClose handle =>
      ((env.answer s.table.calls).nErr = aeeSuccess →
        (∃ hi ∈ (s.table.hlist s.table.getCurrentDomain).rql, hi.remote = handle) ∨
          ∀ domain, ∀ hi ∈ (s.table.hlist domain).rql, hi.remote ≠ handle) ∧
      ((env.answer s.table.calls).nErr ≠ aeeSuccess →
        (env.answer s.table.calls).dlErr = aeeSuccess)
  | op =>
      (∀ domain, op = .closeDomainSession domain →
        (s.table.hlist domain).dev = -1 ∨ (s.table.hlist domain).rql = []) ∧
      Guarded (asTransition (tableStep env)) RqlKept s.table ((@TableOp.exec env op).log s.table)

end Steps

instance (t : HandleTable) : ∀ e, Decidable (RqlKept t e)
  | .update (.prepend .reverse) _ _ => isFalse id
  | .update (.dequeue .reverse) _ _ => isFalse id
  | .update (.prepend .multiDomain) _ _ => isTrue trivial
  | .update (.prepend .nonDomain) _ _ => isTrue trivial
  | .update (.dequeue .multiDomain) _ _ => isTrue trivial
  | .update (.dequeue .nonDomain) _ _ => isTrue trivial
  | .popReverse _ => isFalse id
  | .clear .multiDomain domain => inferInstanceAs (Decidable ((t.hlist domain).rql = []))
  | .clear .reverse domain => inferInstanceAs (Decidable ((t.hlist domain).rql = []))
  | .clear .nonDomain _ => isTrue trivial
  | .ctor domain => inferInstanceAs (Decidable ((t.hlist domain).rql = []))
  | .resetSession _ => isTrue trivial
  | .setSlot _ _ _ => isTrue trivial
  | .setState _ _ => isTrue trivial
  | .setDev _ _ => isTrue trivial
  | .setDsppd _ _ => isTrue trivial
  | .setThreadContext _ => isTrue trivial
  | .call => isTrue trivial

instance (env : TableEnv) (s : ReverseState) : ∀ op, Decidable (ReverseKept env s op)
  | .appsRemotectlOpen => inferInstanceAs (Decidable (_ → _))
  | .appsRemotectlClose handle =>
      inferInstanceAs (Decidable ((_ → (∃ hi ∈ (s.table.hlist s.table.getCurrentDomain).rql,
        hi.remote = handle) ∨ ∀ domain, ∀ hi ∈ (s.table.hlist domain).rql, hi.remote ≠ handle) ∧ _))
  | .closeDomainSession domain =>
      decidable_of_iff
        (((s.table.hlist domain).dev = -1 ∨ (s.table.hlist domain).rql = []) ∧
          Guarded (asTransition (tableStep env)) RqlKept s.table
            ((@TableOp.exec env (.closeDomainSession domain)).log s.table))
        ⟨fun h => ⟨fun _ hop => TableOp.closeDomainSession.inj hop ▸ h.1, h.2⟩,
          fun h => ⟨h.1 domain rfl, h.2⟩⟩
  | .remoteHandleOpen _ _ => decidable_of_iff _ (and_iff_right (fun _ h => nomatch h)).symm
  | .remoteHandle64Open _ _ => decidable_of_iff _ (and_iff_right (fun _ h => nomatch h)).symm
  | .remoteHandleClose _ => decidable_of_iff _ (and_iff_right (fun _ h => nomatch h)).symm
  | .remoteHandle64Close _ => decidable_of_iff _ (and_iff_right (fun _ h => nomatch h)).symm
  | .domainDeinit _ => decidable_of_iff _ (and_iff_right (fun _ h => nomatch h)).symm
  | .sessionHandle _ _ _ => decidable_of_iff _ (and_iff_right (fun _ h => nomatch h)).symm
  | .switchThread _ => decidable_of_iff _ (and_iff_right (fun _ h => nomatch h)).symm

/-! ### Operations that leave the lists alone -/

section Untouched

variable {env : TableEnv} {t : HandleTable}

theorem rql_prepend (hl : HandleList) (list : HandleListId) (n : HandleInfo) :
    (hl.prepend list n).rql = if list = .reverse then n :: hl.rql else hl.rql := by
  change (hl.prepend list n).nodes .reverse = _
  rw [HandleList.prepend_nodes]
  cases list <;> rfl

theorem rql_dequeue (hl : HandleList) (list : HandleListId) (h : ℕ) :
    (hl.dequeue list h).rql = if list = .reverse then fastrpcFreeHandle hl.rql h else hl.rql := by
  change (hl.dequeue list h).nodes .reverse = _
  rw [HandleList.dequeue_nodes]
  cases list <;> rfl

/-- A change of one `handle_list` that keeps its reverse list keeps all of them. -/
theorem rql_modify {domain : Domain} {f : HandleList → HandleList} {t' : HandleTable}
    (ht' : t'.hlist = (t.modify domain f).hlist)
    (hf : (f (t.hlist domain)).rql = (t.hlist domain).rql) (d : Domain) :
    (t'.hlist d).rql = (t.hlist d).rql := by
  rw [ht']
  by_cases hd : d = domain
  · subst hd
    rw [HandleTable.modify_hlist]
    exact hf
  · rw [HandleTable.modify_hlist_of_ne hd]

theorem rql_step {e : TableStep} (hC : RqlKept t e) (d : Domain) :
    ((tableStep env t e).hlist d).rql = (t.hlist d).rql := by
  cases e with
  | update req domain h =>
      cases req with
      | prepend list =>
          have hlist : list ≠ .reverse := by
            rintro rfl
            exact hC
          cases halloc : env.calloc t.calls t.live with
          | none => simp only [tableStep, halloc]
          | some addr =>
              simp only [tableStep, halloc]
              exact rql_modify (f := fun hl => hl.prepend list ⟨domain, addr, h⟩) rfl
                (by rw [rql_prepend, if_neg hlist]) d
      | dequeue list =>
          have hlist : list ≠ .reverse := by
            rintro rfl
            exact hC
          exact rql_modify (f := fun hl => hl.dequeue list h) rfl
            (by rw [rql_dequeue, if_neg hlist]) d
  | clear list domain =>
      cases list with
      | multiDomain => exact rql_modify (f := fun hl => hl.setNodes .multiDomain []) rfl rfl d
      | nonDomain => exact rql_modify (f := fun hl => hl.setNodes .nonDomain []) rfl rfl d
      | reverse => exact rql_modify (f := fun hl => hl.setNodes .reverse []) rfl hC.symm d
  | popReverse domain => exact hC.elim
  | ctor domain =>
      exact rql_modify (f := fun hl => { hl with ql := [], nql := [], rql := [] }) rfl hC.symm d
  | setSlot s domain v =>
      exact rql_modify (f := fun hl => hl.setSlot s v) rfl (by cases s <;> rfl) d
  | setState domain state => exact rql_modify (f := fun hl => { hl with state := state }) rfl rfl d
  | setDev domain dev => exact rql_modify (f := fun hl => { hl with dev := dev }) rfl rfl d
  | setDsppd domain pd => exact rql_modify (f := fun hl => { hl with dsppd := pd }) rfl rfl d
  | resetSession domain => exact rql_modify (f := fun hl => hl.resetSession domain) rfl rfl d
  | setThreadContext domain => rfl
  | call => rfl

theorem rql_dequeue_step (domain : Domain) (h : ℕ) (d : Domain) :
    ((tableStep env t (.update (.dequeue .reverse) domain h)).hlist d).rql =
      if domain = d then fastrpcFreeHandle (t.hlist d).rql h else (t.hlist d).rql := by
  unfold tableStep
  dsimp only
  by_cases hd : domain = d
  · subst hd
    rw [if_pos rfl, HandleTable.modify_hlist, rql_dequeue, if_pos rfl]
  · rw [if_neg hd, HandleTable.modify_hlist_of_ne (Ne.symm hd)]

/-- What the condition gives for a whole operation. -/
theorem rql_log {l : List TableStep}
    (hC : Guarded (asTransition (tableStep env)) RqlKept t l) :
    (∀ d, ((l.foldl (tableStep env) t).hlist d).rql = (t.hlist d).rql) ∧ closedReverse l = [] ∧
      ∀ d, .clear .multiDomain d ∈ l → (t.hlist d).rql = [] := by
  induction l generalizing t with
  | nil => exact ⟨fun _ => rfl, rfl, fun _ h => absurd h List.not_mem_nil⟩
  | cons e l ih =>
      obtain ⟨hrql, hclosed, hclear⟩ := ih (hC.2 _ rfl)
      have hstep : ∀ d, ((tableStep env t e).hlist d).rql = (t.hlist d).rql := rql_step hC.1
      refine ⟨fun d => (hrql d).trans (hstep d), ?_, fun d hmem => ?_⟩
      · unfold closedReverse
        rw [List.filterMap_cons]
        split
        · exact hclosed
        · next heq =>
            split at heq
            · exact hC.1.elim
            · cases heq
      · rcases List.mem_cons.mp hmem with rfl | hmem
        · exact hC.1
        · exact (hstep d) ▸ hclear d hmem

end Untouched

/-! ### Opens and closes -/

section Registry

variable (reg : OpenModules) (domain d : Domain) (h : ℕ)

theorem on_cons : OpenModules.on ((domain, h) :: reg) d =
    if domain = d then h :: reg.on d else reg.on d := by
  unfold OpenModules.on
  rw [List.filter_cons]
  by_cases hd : domain = d
  · rw [if_pos (by simpa using hd), if_pos hd, List.map_cons]
  · rw [if_neg (by simpa using hd), if_neg hd]

theorem mem_on : h ∈ reg.on d ↔ (d, h) ∈ reg := by
  unfold OpenModules.on
  simp

theorem on_erase : OpenModules.on (reg.erase (domain, h)) d =
    if domain = d then (reg.on d).erase h else reg.on d := by
  induction reg with
  | nil => split <;> rfl
  | cons m reg ih =>
      obtain ⟨e, k⟩ := m
      by_cases hm : e = domain ∧ k = h
      · obtain ⟨rfl, rfl⟩ := hm
        rw [List.erase_cons_head, on_cons]
        split
        · rw [List.erase_cons_head]
        · rfl
      · have hne : (e, k) ≠ (domain, h) := fun heq => hm (Prod.mk.inj heq)
        rw [List.erase_cons_tail (by simpa using hne), on_cons, on_cons, ih]
        by_cases hd : domain = d
        · rw [if_pos hd, if_pos hd]
          by_cases he : e = d
          · have hk : k ≠ h := fun hk => hm ⟨he.trans hd.symm, hk⟩
            rw [if_pos he, if_pos he, List.erase_cons_tail (by simpa using hk)]
          · rw [if_neg he, if_neg he]
        · rw [if_neg hd, if_neg hd]

end Registry

theorem map_remote_free (me : List HandleInfo) (h : ℕ) :
    (fastrpcFreeHandle me h).map HandleInfo.remote = (me.map HandleInfo.remote).erase h := by
  induction me with
  | nil => rfl
  | cons n me ih =>
      by_cases hn : n.remote = h
      · rw [free_cons_same hn, List.map_cons, hn, List.erase_cons_head]
      · rw [free_cons_ne hn, List.map_cons, List.map_cons,
          List.erase_cons_tail (by simpa using hn), ih]

section Runs

variable {env : TableEnv} {s : ReverseState}

theorem appsRemotectlOpen_after (t : HandleTable) :
    (@TableOp.exec env .appsRemotectlOpen).after t =
      if (env.answer t.calls).nErr ≠ aeeSuccess then t.called
      else tableStep env t.called (.update (.prepend .reverse) t.getCurrentDomain
        ((env.answer t.calls).handle.getD 0)) := by
  unfold TableOp.exec
  rw [after_discard]
  unfold appsRemotectlOpen
  rw [after_read_bind, after_bind, callOut_val, callOut_after, after_ite]
  split
  · rfl
  · rw [after_bind]
    split <;> rfl

theorem appsRemotectlClose_after (handle : ℕ) (t : HandleTable) :
    (@TableOp.exec env (.appsRemotectlClose handle)).after t =
      if (env.answer t.calls).nErr ≠ aeeSuccess then t.called
      else tableStep env t.called (.update (.dequeue .reverse) t.getCurrentDomain handle) := by
  unfold TableOp.exec
  rw [after_discard]
  unfold appsRemotectlClose
  rw [after_read_bind, after_bind, callOut_val, callOut_after, after_ite]
  split
  · rfl
  · rw [after_bind, after_discard]
    rfl

/-- A module that was opened has its node in front of its domain's list. -/
theorem open_listed (h : s.Listed) (hC : ReverseKept env s .appsRemotectlOpen) :
    ReverseState.Listed
      ⟨(@TableOp.exec env .appsRemotectlOpen).after s.table, openAfter env s .appsRemotectlOpen⟩ := by
  intro d
  dsimp only [openAfter]
  rw [appsRemotectlOpen_after]
  by_cases hErr : (env.answer s.table.calls).nErr = aeeSuccess
  · obtain ⟨hdl, hsome⟩ := hC hErr
    obtain ⟨addr, halloc⟩ := Option.isSome_iff_exists.mp hsome
    rw [if_neg (not_not.mpr hErr), if_pos ⟨hErr, hdl⟩, on_cons, ← h d]
    have hcalloc : env.calloc s.table.called.calls s.table.called.live = some addr := halloc
    simp only [tableStep, hcalloc]
    by_cases hd : s.table.getCurrentDomain = d
    · subst hd
      rw [if_pos rfl, HandleTable.modify_hlist, rql_prepend, if_pos rfl]
      rfl
    · rw [if_neg hd, HandleTable.modify_hlist_of_ne (Ne.symm hd)]
      rfl
  · rw [if_pos hErr, if_neg (fun hand => hErr hand.1)]
    exact h d

/-- A module that was closed has lost a node of its domain's list. -/
theorem close_listed {handle : ℕ} (h : s.Listed)
    (hC : ReverseKept env s (.appsRemotectlClose handle)) :
    ReverseState.Listed
      ⟨(@TableOp.exec env (.appsRemotectlClose handle)).after s.table,
        openAfter env s (.appsRemotectlClose handle)⟩ := by
  intro d
  dsimp only [openAfter]
  rw [appsRemotectlClose_after]
  by_cases hErr : (env.answer s.table.calls).nErr = aeeSuccess
  · rw [if_neg (not_not.mpr hErr), if_pos (Or.inl hErr)]
    rw [rql_dequeue_step, HandleTable.called_hlist, apply_ite (List.map HandleInfo.remote),
      map_remote_free, h d]
    unfold OpenModules.close
    rcases hC.1 hErr with ⟨hi, hmem, hremote⟩ | hnone
    · have hopen : (s.table.getCurrentDomain, handle) ∈ s.openModules := by
        rw [← mem_on, ← h]
        exact hremote ▸ List.mem_map_of_mem hmem
      rw [if_pos hopen, on_erase]
    · have hnot : ∀ e, (e, handle) ∉ s.openModules := by
        intro e hmem
        rw [← mem_on, ← h e] at hmem
        obtain ⟨hi, hhi, hremote⟩ := List.mem_map.mp hmem
        exact hnone e hi hhi hremote
      rw [if_neg (hnot _), List.eraseP_of_forall_not (fun m hm hk =>
        hnot m.1 (by rw [← of_decide_eq_true hk]; exact hm))]
      split
      · exact List.erase_of_not_mem (fun hmem => hnot d ((mem_on _ _ _).mp hmem))
      · rfl
  · rw [if_pos hErr, if_neg (fun hor => hor.elim hErr (fun hdl => hdl (hC.2 hErr)))]
    exact h d

/-- Any other operation leaves the lists and the open modules as they are, and ends a session only
where none is open. -/
theorem other_step {op : TableOp} (h : s.Listed)
    (hsession : ∀ domain, op = .closeDomainSession domain →
      (s.table.hlist domain).dev = -1 ∨ (s.table.hlist domain).rql = [])
    (hlog : Guarded (asTransition (tableStep env)) RqlKept s.table
      ((@TableOp.exec env op).log s.table)) :
    ReverseState.Listed ⟨(@TableOp.exec env op).after s.table,
      (closedReverse ((@TableOp.exec env op).log s.table)).foldl
        (fun reg h => reg.eraseP (fun m => m.2 = h)) s.openModules⟩ ∧ Released env s op := by
  obtain ⟨hrql, hclosed, hclear⟩ := rql_log hlog
  unfold Released
  rw [hclosed]
  refine ⟨fun d => ?_, fun d hends => ?_⟩
  · exact (congrArg (List.map HandleInfo.remote) (hrql d)).trans (h d)
  · have hempty : (s.table.hlist d).rql = [] := by
      rcases hends with ⟨hop, hdev⟩ | hmem
      · exact (hsession d hop).resolve_left hdev
      · exact hclear d hmem
    rw [← h d, hempty]
    exact List.Perm.refl []

theorem appsRemotectlOpen_log (t : HandleTable) :
    (@TableOp.exec env .appsRemotectlOpen).log t = .call ::
      if (env.answer t.calls).nErr ≠ aeeSuccess then []
      else [.update (.prepend .reverse) t.getCurrentDomain ((env.answer t.calls).handle.getD 0)] := by
  change (@appsRemotectlOpen env).log t ++ [] = _
  rw [List.append_nil]
  unfold appsRemotectlOpen
  rw [log_read_bind, log_bind, callOut_val, callOut_after]
  change TableStep.call :: _ = _
  congr 1
  split
  · rfl
  · rw [log_bind]
    split <;> rfl

theorem appsRemotectlClose_log (handle : ℕ) (t : HandleTable) :
    (@TableOp.exec env (.appsRemotectlClose handle)).log t = .call ::
      if (env.answer t.calls).nErr ≠ aeeSuccess then []
      else [.update (.dequeue .reverse) t.getCurrentDomain handle] := by
  change (@appsRemotectlClose env handle).log t ++ [] = _
  rw [List.append_nil]
  unfold appsRemotectlClose
  rw [log_read_bind, log_bind, callOut_val, callOut_after]
  change TableStep.call :: _ = _
  congr 1
  split <;> rfl

/-- A step keeps the lists right and releases what it has to. -/
theorem reverseStep_listed {op : TableOp} (h : s.Listed) (hC : ReverseKept env s op) :
    ReverseState.Listed ⟨(@TableOp.exec env op).after s.table, openAfter env s op⟩ ∧
      Released env s op := by
  have hnoend : ∀ {op : TableOp}, (∀ d, op ≠ .closeDomainSession d) →
      (∀ d, .clear .multiDomain d ∉ (@TableOp.exec env op).log s.table) → Released env s op := by
    intro op hop hlog d hends
    rcases hends with ⟨heq, -⟩ | hmem
    · exact absurd heq (hop d)
    · exact absurd hmem (hlog d)
  cases op with
  | appsRemotectlOpen =>
      refine ⟨open_listed h hC, hnoend (fun _ => nofun) (fun d => ?_)⟩
      rw [appsRemotectlOpen_log]
      split <;> simp
  | appsRemotectlClose handle =>
      refine ⟨close_listed h hC, hnoend (fun _ => nofun) (fun d => ?_)⟩
      rw [appsRemotectlClose_log]
      split <;> simp
  | remoteHandleOpen name ph => exact other_step h hC.1 hC.2
  | remoteHandle64Open domain name => exact other_step h hC.1 hC.2
  | remoteHandleClose handle => exact other_step h hC.1 hC.2
  | remoteHandle64Close handle => exact other_step h hC.1 hC.2
  | closeDomainSession domain => exact other_step h hC.1 hC.2
  | domainDeinit domain => exact other_step h hC.1 hC.2
  | sessionHandle slot const domain => exact other_step h hC.1 hC.2
  | switchThread domain => exact other_step h hC.1 hC.2

/-- **Reverse handles.** In every run whose operations meet the condition the reverse lists hold, at
every point, just the handles of the modules that are open, and every operation that ends a session
closes the modules that are open for its domain, each once and by its own handle. -/
theorem reverse_handles_released (env : TableEnv) (ops : List TableOp)
    (h : Guarded (reverseStep env) (ReverseKept env) ⟨.start, []⟩ ops) :
    Along (reverseStep env) ReverseState.Listed ⟨.start, []⟩ ops ∧
      Guarded (reverseStep env) (Released env) ⟨.start, []⟩ ops := by
  refine along_and_guarded (fun s op t hs hC ht => ?_) (fun _ hs => hs)
    (fun s op hs hC => (reverseStep_listed hs hC).2) (fun _ => rfl) h
  obtain rfl := Option.some.inj ht
  exact (reverseStep_listed hs hC).1

end Runs

/-- The DSP opens two modules here and closes them again before the session ends. -/
theorem reverse_handles_released_closed :
    Along (reverseStep (quietEnv (0x9000 + ·))) ReverseState.Listed ⟨.start, []⟩
        [.remoteHandle64Open (some 0) .module, .appsRemotectlOpen, .appsRemotectlOpen,
          .appsRemotectlClose 0x900a, .appsRemotectlClose 0x900c, .domainDeinit 0] ∧
      Guarded (reverseStep (quietEnv (0x9000 + ·))) (Released (quietEnv (0x9000 + ·))) ⟨.start, []⟩
        [.remoteHandle64Open (some 0) .module, .appsRemotectlOpen, .appsRemotectlOpen,
          .appsRemotectlClose 0x900a, .appsRemotectlClose 0x900c, .domainDeinit 0] :=
  reverse_handles_released _ _ (by decide +kernel)

/-- A module with the handle 0x900a is open when its domain is deinitialised, and the handle that is
closed is the address of its node, 0x1040. -/
theorem deinit_closes_address :
    ¬ Guarded (reverseStep (quietEnv (0x9000 + ·))) (Released (quietEnv (0x9000 + ·))) ⟨.start, []⟩
      [.remoteHandle64Open (some 0) .module, .appsRemotectlOpen, .domainDeinit 0] := by
  intro h
  have hreleased := ((h.2 _ rfl).2 _ rfl).1 0 (Or.inr (by decide +kernel))
  have hlength := hreleased.mem_iff (a := 0x900a)
  revert hlength
  decide +kernel

end FastRpc
