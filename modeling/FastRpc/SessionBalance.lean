import FastRpc.SessionCounts

/-! # References and open handles

A client's opens and closes should keep the reference count of every domain equal to the number of
handles that are open on it.  The four functions take and give back a reference each on the domain
that they work on, and that is not always the domain of the handle: `remote_handle_close` takes the
domain of the thread context, which every other call moves, and `remote_handle64_close` looks for none
when the handle is that of a static PD.  An open that fails with a handle in `*ph`, the caller's own or
one that the DSP has written, closes this handle instead of giving its reference back.

`Ledger` is the table with its counts and the handles that the calls have opened and closed, by their
results.  `references_counted` says which calls have to be excluded. -/

namespace FastRpc

open Logged Transition

/-! ### The ledger -/

/-- A handle that a client has opened: with `remote_handle64_open` (`multiDomain`), where it may be
uninitialised, or with `remote_handle_open` (`nonDomain`). -/
structure OpenHandle where
  domain : Domain
  list : HandleListId
  handle : Option ℕ
  deriving DecidableEq

/-- The handle has this id. -/
def OpenHandle.Named (list : HandleListId) (h : ℕ) (x : OpenHandle) : Prop :=
  x.list = list ∧ x.handle = some h

instance (list : HandleListId) (h : ℕ) (x : OpenHandle) : Decidable (x.Named list h) :=
  inferInstanceAs (Decidable (_ ∧ _))

/-- The open handles after the close of one with this id: that of the domain on which the close works,
if it has one, else that of another domain. -/
def settle (opened : List OpenHandle) (domain : Domain) (list : HandleListId) (h : ℕ) :
    List OpenHandle :=
  if ⟨domain, list, some h⟩ ∈ opened then opened.erase ⟨domain, list, some h⟩
  else opened.eraseP fun x => x.Named list h

/-- The open handles of a domain. -/
def openOn (opened : List OpenHandle) (domain : Domain) : ℕ :=
  opened.countP fun x => x.domain = domain

/-- The calls of a client; a malformed name of `remote_handle64_open` has no domain. -/
inductive ClientCall
  | remoteHandleOpen (name : ModuleName) (ph : ℕ)
  | remoteHandle64Open (domain : Option Domain) (name : ModuleName)
  | remoteHandleClose (h : ℕ)
  | remoteHandle64Close (h : ℕ)

namespace ClientCall

variable {env : TableEnv}

/-- Runs a call: the error code, and the handle of an open. -/
def exec : ClientCall → RefM env (ℤ × Option ℕ)
  | remoteHandleOpen name ph => do
      let r ← remoteHandleOpenRef name ph
      return (r.1, some r.2)
  | remoteHandle64Open domain name => remoteHandle64OpenRef domain name
  | remoteHandleClose h => do
      let nErr ← remoteHandleCloseRef h
      return (nErr, none)
  | remoteHandle64Close h => do
      let nErr ← remoteHandle64CloseRef h
      return (nErr, none)

/-- The domain on which a call works. -/
def domain (t : HandleTable) : ClientCall → Domain
  | remoteHandleOpen _ _ => t.getCurrentDomain
  | remoteHandle64Open domain _ => domain.getD t.getCurrentDomain
  | remoteHandleClose _ => t.getCurrentDomain
  | remoteHandle64Close h => (t.getDomainFromHandle h).getD t.getCurrentDomain

/-- The open handles after a call that returned 0. -/
def record (domain : Domain) (handle : Option ℕ) (opened : List OpenHandle) :
    ClientCall → List OpenHandle
  | remoteHandleOpen _ _ => ⟨domain, .nonDomain, handle⟩ :: opened
  | remoteHandle64Open _ _ => ⟨domain, .multiDomain, handle⟩ :: opened
  | remoteHandleClose h => settle opened domain .nonDomain h
  | remoteHandle64Close h => settle opened domain .multiDomain h

end ClientCall

/-- The table with its counts, and the handles opened and not yet closed. -/
structure Ledger where
  sys : TableRefs
  opened : List OpenHandle

/-- A process that has not opened anything. -/
def Ledger.start : Ledger := ⟨⟨HandleTable.start, fun _ => 0⟩, []⟩

/-- One call. -/
def ledgerStep (env : TableEnv) (s : Ledger) (c : ClientCall) : Option Ledger :=
  let r := (@ClientCall.exec env c).val s.sys
  some ⟨(@ClientCall.exec env c).after s.sys,
    if r.1 = aeeSuccess then c.record (c.domain s.sys.table) r.2 s.opened else s.opened⟩

/-- Each count is the number of handles that are open on the domain. -/
def Counted (s : Ledger) : Prop := ∀ d, s.sys.refs d = openOn s.opened d

/-! ### The conditions -/

section Conditions

variable (env : TableEnv)

/-- The end of a session, in `domain_deinit`. -/
def RefStep.endsSession : RefStep → Bool
  | .table (.resetSession _) => true
  | _ => false

/-- No session ends in the call. -/
def NoDeinit (s : Ledger) (c : ClientCall) : Prop :=
  ∀ e ∈ (@ClientCall.exec env c).log s.sys, e.endsSession = false

instance decidableNoDeinit (s : Ledger) (c : ClientCall) : Decidable (NoDeinit env s c) :=
  inferInstanceAs (Decidable (∀ e ∈ (@ClientCall.exec env c).log s.sys, e.endsSession = false))

/-- An open before it keeps its reference or gives it back: the error code and the handle that it has
written. -/
def attempt (domain : Domain) (name : ModuleName) : TableM env (ℤ × Option ℕ) := do
  let ref ← fastrpcSessionGet domain
  if ref ≠ aeeSuccess then return (ref, none) else remoteHandleOpenDomain domain name

/-- A close that the DSP answers with `nErr` is of a handle that is open on the domain, and of no open
one when it fails and returns 0 nevertheless. -/
def CloseAccounted (s : Ledger) (domain : Domain) (list : HandleListId) (h : ℕ) (nErr : ℤ)
    (returnsZero : Bool) : Prop :=
  if nErr = aeeSuccess then ⟨domain, list, some h⟩ ∈ s.opened
  else returnsZero = true → ∀ x ∈ s.opened, ¬ x.Named list h

instance (s : Ledger) (domain : Domain) (list : HandleListId) (h : ℕ) (nErr : ℤ)
    (returnsZero : Bool) : Decidable (CloseAccounted s domain list h nErr returnsZero) :=
  inferInstanceAs (Decidable (if nErr = aeeSuccess then ⟨domain, list, some h⟩ ∈ s.opened
    else returnsZero = true → ∀ x ∈ s.opened, ¬ x.Named list h))

/-- The call keeps the counts.

An open finds less than `2 ^ 32 - 1` references, and does not fail with a handle in `*ph`; where the
DSP has written the handle in `remote_handle64_open`, closing it again on this domain does as well.  A
close that succeeds on the DSP is of a handle that is open on its domain; and none of an open handle
returns 0 without closing it, as one of a static PD handle does, and one that fails while the session
of the domain is not initialised. -/
def Accounted (s : Ledger) : ClientCall → Prop
  | .remoteHandleOpen name ph =>
      let domain := s.sys.table.getCurrentDomain
      let r := (@attempt env domain name).val s.sys.table
      s.sys.refs domain + 1 < 2 ^ 32 ∧ (r.1 ≠ aeeSuccess → r.2.getD ph = 0)
  | .remoteHandle64Open none _ => True
  | .remoteHandle64Open (some domain) name =>
      let r := (@attempt env domain name).val s.sys.table
      let u := (@attempt env domain name).after s.sys.table
      s.sys.refs domain + 1 < 2 ^ 32 ∧ (r.1 ≠ aeeSuccess → r.2.getD 0 = 0 ∨
        u.getCurrentDomain = domain ∧
          (@remoteHandleCloseDomain env domain (r.2.getD 0)).val u = aeeSuccess)
  | .remoteHandleClose h =>
      let domain := s.sys.table.getCurrentDomain
      CloseAccounted s domain .nonDomain h
        ((@remoteHandleCloseDomain env domain h).val s.sys.table) (s.sys.table.isProcessExiting domain)
  | .remoteHandle64Close h =>
      if isStaticpdHandle h then ∀ x ∈ s.opened, ¬ x.Named .multiDomain h
      else
        ∀ domain ∈ s.sys.table.getDomainFromHandle h, ∀ remote ∈ s.sys.table.getHandleRemote h,
          let nErr := (@closeRemote env domain remote (s.sys.table.startDeinit domain)).val
            { s.sys.table with tlsKey := some domain }
          CloseAccounted s domain .multiDomain h nErr
            (nErr ≠ aeeEInvHandle && s.sys.table.isProcessExiting domain)

instance decidableAccounted (s : Ledger) : ∀ c, Decidable (Accounted env s c)
  | .remoteHandleOpen _ _ => inferInstanceAs (Decidable (_ ∧ (_ → _)))
  | .remoteHandle64Open none _ => isTrue trivial
  | .remoteHandle64Open (some _) _ => inferInstanceAs (Decidable (_ ∧ (_ → _)))
  | .remoteHandleClose _ => inferInstanceAs (Decidable (CloseAccounted _ _ _ _ _ _))
  | .remoteHandle64Close h =>
      inferInstanceAs (Decidable (if isStaticpdHandle h then ∀ x ∈ s.opened, ¬ x.Named .multiDomain h
        else ∀ domain ∈ s.sys.table.getDomainFromHandle h, ∀ remote ∈ s.sys.table.getHandleRemote h,
          CloseAccounted _ _ _ _ _ _))

end Conditions

/-! ### The counts of the open handles -/

section Opened

variable {opened : List OpenHandle} {domain d : Domain} {list : HandleListId} {h : ℕ}

theorem openOn_cons (x : OpenHandle) :
    openOn (x :: opened) d = openOn opened d + if d = x.domain then 1 else 0 := by
  unfold openOn
  rw [List.countP_cons]
  by_cases hd : d = x.domain
  · simp [hd]
  · simp [hd, Ne.symm hd]

/-- Closing an open handle of the domain. -/
theorem openOn_settle (hmem : (⟨domain, list, some h⟩ : OpenHandle) ∈ opened) :
    openOn (settle opened domain list h) d + (if d = domain then 1 else 0) = openOn opened d := by
  have hperm := List.perm_cons_erase hmem
  unfold settle
  rw [if_pos hmem]
  refine Eq.trans ?_ (hperm.countP_eq _).symm
  exact (openOn_cons (d := d) ⟨domain, list, some h⟩).symm

/-- A close of no open handle. -/
theorem settle_of_not_named (hnone : ∀ x ∈ opened, ¬ x.Named list h) :
    settle opened domain list h = opened := by
  unfold settle
  rw [if_neg fun hmem => hnone _ hmem ⟨rfl, rfl⟩]
  exact List.eraseP_of_forall_not fun x hx => by simpa using hnone x hx

end Opened

/-! ### The state of the session -/

section State

variable {env : TableEnv} {α : Type} {d : Domain} {x : DomainState}

theorem state_prepend (hl : HandleList) (list : HandleListId) (n : HandleInfo) :
    (hl.prepend list n).state = hl.state := by
  unfold HandleList.prepend HandleList.setCount HandleList.setNodes
  cases list with
  | multiDomain => dsimp only; split <;> rfl
  | nonDomain => rfl
  | reverse => rfl

theorem state_dequeue (hl : HandleList) (list : HandleListId) (h : ℕ) :
    (hl.dequeue list h).state = hl.state := by
  unfold HandleList.dequeue HandleList.setCount HandleList.setNodes
  cases list with
  | multiDomain => dsimp only; split <;> rfl
  | nonDomain => rfl
  | reverse => rfl

theorem state_setSlot (hl : HandleList) (slot : SessionHandle) (v : ℕ) :
    (hl.setSlot slot v).state = hl.state := by
  cases slot <;> rfl

theorem state_modify (t : HandleTable) (domain : Domain) {f : HandleList → HandleList}
    (hf : ∀ hl, (f hl).state = hl.state) :
    ((t.modify domain f).hlist d).state = (t.hlist d).state := by
  by_cases hd : d = domain
  · subst hd
    rw [HandleTable.modify_hlist, hf]
  · rw [HandleTable.modify_hlist_of_ne hd]

/-- The program leaves the state of every session as it is. -/
abbrev KeepsState (d : Domain) (x : DomainState) (m : TableM env α) : Prop :=
  Keeps (fun _ _ => True) (fun t => (t.hlist d).state = x) m

theorem keepsState_callOut : KeepsState d x (@callOut env) := by
  apply brings_read_bind
  intro t
  exact brings_bind (brings_emit fun _ hs _ => hs) (fun _ => keeps_pure _)

theorem keepsState_update (req : ListRequest) (domain : Domain) (h : ℕ) :
    KeepsState d x (@fastrpcUpdateModuleList env req domain h) := by
  apply brings_read_bind
  intro t
  cases req with
  | prepend list =>
      refine brings_bind (brings_emit fun s hs _ => ?_) (fun _ => keeps_pure _)
      simp only [tableStep]
      split
      · exact hs
      · next addr _ =>
          have hstate := state_modify (d := d) s domain
            (fun hl => state_prepend hl list ⟨domain, addr, h⟩)
          exact hstate.trans hs
  | dequeue list =>
      refine brings_bind (brings_emit fun s hs _ => ?_) (fun _ => keeps_pure _)
      have hstate := state_modify (d := d) s domain (fun hl => state_dequeue hl list h)
      exact hstate.trans hs

theorem keepsState_setSlot (slot : SessionHandle) (domain : Domain) (v : ℕ) :
    KeepsState d x (emit (.setSlot slot domain v) : TableM env PUnit) := by
  refine brings_emit fun s hs _ => ?_
  have hstate := state_modify (d := d) s domain (fun hl => state_setSlot hl slot v)
  exact hstate.trans hs

theorem keepsState_invokeSession (handle : ℕ) : KeepsState d x (@invokeSession env handle) := by
  apply brings_read_bind
  intro t
  split
  · refine brings_ite (fun _ => keepsState_callOut) (fun _ => ?_)
    exact brings_bind (brings_emit fun _ hs _ => hs) (fun _ => keepsState_callOut)
  · exact keepsState_callOut

theorem keepsState_getSessionHandle (slot : SessionHandle) (const : ℕ) (domain : Domain) :
    KeepsState d x (@getSessionHandle env slot const domain) := by
  apply brings_read_bind
  intro t
  refine brings_ite (fun _ => keeps_pure _) (fun _ => ?_)
  apply brings_bind (keepsState_update _ domain const)
  intro addr
  cases addr with
  | none => exact keeps_pure _
  | some addr => exact brings_bind (keepsState_setSlot slot domain addr) (fun _ => keeps_pure _)

theorem keepsState_closeOnDsp (domain : Domain) : KeepsState d x (@closeOnDsp env domain) := by
  apply brings_bind (keepsState_getSessionHandle _ _ domain)
  intro handle
  apply brings_ite
  · intro _
    apply brings_bind (keepsState_invokeSession handle)
    intro a
    refine brings_ite (fun _ => ?_) (fun _ => keeps_pure _)
    apply brings_bind
    · exact brings_bind (brings_discard (keepsState_update _ domain _))
        (fun _ => keepsState_setSlot _ domain _)
    · exact fun _ => brings_bind keepsState_callOut (fun _ => keeps_pure _)
  · intro _
    apply brings_bind keepsState_callOut
    exact fun _ => brings_ite (fun _ => keeps_pure _) (fun _ => keeps_pure _)

theorem keepsState_remoteHandleCloseDomain (domain : Domain) (h : ℕ) :
    KeepsState d x (@remoteHandleCloseDomain env domain h) := by
  refine brings_ite (fun _ => keeps_pure _) (fun _ => ?_)
  apply brings_bind keepsState_callOut
  exact fun _ => brings_ite (fun _ => keeps_pure _) (fun _ => keepsState_closeOnDsp domain)

theorem keepsState_closeOnDomain (domain : Domain) (handle remote : ℕ) (start_deinit : Bool) :
    KeepsState d x (@closeOnDomain env domain handle remote start_deinit) := by
  apply brings_bind
  · exact brings_ite (fun _ => keepsState_remoteHandleCloseDomain domain _) (fun _ => keeps_pure _)
  · intro nErr
    exact brings_optional (brings_discard (keepsState_update _ domain handle))
      (fun _ => keeps_pure _)

/-- Such a program leaves `is_process_exiting` as it is. -/
theorem isProcessExiting_after {m : TableM env α} (hm : ∀ x, KeepsState d x m) (t : HandleTable) :
    (m.after t).isProcessExiting d = t.isProcessExiting d := by
  unfold HandleTable.isProcessExiting
  rw [(hm _).run t rfl (guarded_of_forall (fun _ _ => trivial) _ _)]

end State

/-! ### The counts of the programs -/

section Refs

variable {env : TableEnv} {α β : Type} {s : TableRefs}

/-- No session ends in the program. -/
def Unended (m : RefM env α) (s : TableRefs) : Prop :=
  ∀ e ∈ m.log s, e.endsSession = false

theorem unended_bind {m : RefM env α} {f : α → RefM env β} (h : Unended (m >>= f) s) :
    Unended m s ∧ Unended (f (m.val s)) (m.after s) :=
  ⟨fun e he => h e (List.mem_append_left _ he), fun e he => h e (List.mem_append_right _ he)⟩

/-- What works on the table alone keeps the counts. -/
theorem refs_lift {m : TableM env α} (h : Unended (lift m) s) : ((lift m).after s).refs = s.refs := by
  have hfold : ∀ (l : List TableStep) (s : TableRefs),
      (∀ e ∈ l, (RefStep.table e).endsSession = false) →
        ((l.map RefStep.table).foldl (refStep env) s).refs = s.refs := by
    intro l
    induction l with
    | nil => exact fun _ _ => rfl
    | cons e l ih =>
        intro s hl
        rw [List.map_cons, List.foldl_cons, ih _ fun e he => hl e (List.mem_cons_of_mem _ he)]
        have he := hl e List.mem_cons_self
        cases e with
        | resetSession d => cases he
        | _ => rfl
  exact hfold (m.log s.table) s fun e he => h (.table e) (List.mem_map_of_mem he)

/-- `FASTRPC_PUT_REF` on the counts. -/
def given (refs : Domain → ℕ) (domain : Domain) : Domain → ℕ :=
  Function.update refs domain (refs domain - 1)

theorem unended_read_bind {f : TableRefs → RefM env β} (h : Unended (read >>= f) s) : Unended (f s) s := h

theorem unended_emit_bind {e : RefStep} {f : PUnit → RefM env β} (h : Unended (emit e >>= f) s) :
    Unended (f ⟨⟩) (refStep env s e) :=
  (unended_bind h).2

theorem refs_discard_lift {m : TableM env α} (h : Unended (discard (lift m)) s) :
    ((discard (lift m)).after s).refs = s.refs := by
  rw [after_discard]
  exact refs_lift (unended_bind h).1

/-- `remote_handle_close` gives back a reference on the domain of the thread context exactly when the
DSP closes the module. -/
theorem refs_remoteHandleCloseRef {h : ℕ} (hend : Unended (@remoteHandleCloseRef env h) s) :
    ((@remoteHandleCloseRef env h).after s).refs =
      if (@remoteHandleCloseDomain env s.table.getCurrentDomain h).val s.table = aeeSuccess then
        given s.refs s.table.getCurrentDomain
      else s.refs := by
  unfold remoteHandleCloseRef at hend ⊢
  obtain ⟨hclose, hrest⟩ := unended_bind (unended_read_bind hend)
  have hrefs := refs_lift hclose
  rw [after_read_bind, after_bind]
  have hval : (lift (@remoteHandleCloseDomain env s.table.getCurrentDomain h)).val s =
      (@remoteHandleCloseDomain env s.table.getCurrentDomain h).val s.table := rfl
  rw [hval] at hrest ⊢
  split_ifs at hrest ⊢ with hok
  · have hdequeue := refs_discard_lift (unended_bind (unended_emit_bind hrest)).1
    rw [after_emit_bind, after_bind, after_pure, hdequeue]
    exact congrArg (given · s.table.getCurrentDomain) hrefs
  · rw [after_read_bind]
    split_ifs
    · exact hrefs
    · exact hrefs

theorem val_remoteHandleCloseRef_ok {h : ℕ}
    (hok : (@remoteHandleCloseDomain env s.table.getCurrentDomain h).val s.table = aeeSuccess) :
    (@remoteHandleCloseRef env h).val s = aeeSuccess := by
  unfold remoteHandleCloseRef
  rw [val_read_bind, val_bind]
  have hval : (lift (@remoteHandleCloseDomain env s.table.getCurrentDomain h)).val s =
      (@remoteHandleCloseDomain env s.table.getCurrentDomain h).val s.table := rfl
  rw [hval, if_pos hok]
  rfl

/-- `remote_handle_close` returns 0 also when it fails while the session is not initialised. -/
theorem val_remoteHandleCloseRef {h : ℕ}
    (hzero : (@remoteHandleCloseRef env h).val s = aeeSuccess)
    (hfail : (@remoteHandleCloseDomain env s.table.getCurrentDomain h).val s.table ≠ aeeSuccess) :
    s.table.isProcessExiting s.table.getCurrentDomain = true := by
  unfold remoteHandleCloseRef at hzero
  rw [val_read_bind, val_bind] at hzero
  have hval : (lift (@remoteHandleCloseDomain env s.table.getCurrentDomain h)).val s =
      (@remoteHandleCloseDomain env s.table.getCurrentDomain h).val s.table := rfl
  rw [hval, if_neg hfail, val_read_bind, (forgets_lift _).table] at hzero
  split_ifs at hzero with hexit
  · rwa [isProcessExiting_after fun _ => keepsState_remoteHandleCloseDomain _ h] at hexit
  · exact absurd hzero hfail

section Close64

variable {h remote : ℕ} {domain : Domain}

/-- `remote_handle64_close` of a node. -/
def closeNodeRef (domain : Domain) (handle remote : ℕ) (start_deinit : Bool) : RefM env ℤ := do
  emit (.table (.setThreadContext (some domain)))
  let nErr ← lift (closeOnDomain domain handle remote start_deinit)
  if nErr = aeeSuccess then emit (.put domain)
  if nErr = aeeEInvHandle then return nErr
  else
    if start_deinit then lift (domainDeinit domain)
    let u ← read
    if nErr ≠ aeeSuccess ∧ u.table.isProcessExiting domain then return aeeSuccess
    else return nErr

theorem remoteHandle64CloseRef_node (hstatic : isStaticpdHandle h = false)
    (hdomain : s.table.getDomainFromHandle h = some domain)
    (hremote : s.table.getHandleRemote h = some remote) :
    @remoteHandle64CloseRef env h s =
      @closeNodeRef env domain h remote (s.table.startDeinit domain) s := by
  have hinvalid : h ≠ invalidHandle := by
    rintro rfl
    simp [HandleTable.getDomainFromHandle, HandleTable.verifyLocalHandle, aeeEInvHandle,
      aeeSuccess] at hdomain
  have hnot : ¬ isStaticpdHandle h = true := by simp [hstatic]
  have hread : ∀ f : TableRefs → RefM env ℤ, (read >>= f) s = f s s := fun _ => rfl
  unfold remoteHandle64CloseRef
  rw [hread, if_neg hnot, if_neg hinvalid, hdomain, hremote]
  rfl

theorem remoteHandle64CloseRef_static (hstatic : isStaticpdHandle h = true) :
    @remoteHandle64CloseRef env h s = (aeeSuccess, []) := by
  have hread : ∀ f : TableRefs → RefM env ℤ, (read >>= f) s = f s s := fun _ => rfl
  unfold remoteHandle64CloseRef
  rw [hread, if_pos hstatic]
  rfl

/-- `remote_handle64_close` of no node. -/
theorem remoteHandle64CloseRef_invalid (hstatic : isStaticpdHandle h = false)
    (hnone : s.table.getDomainFromHandle h = none ∨ s.table.getHandleRemote h = none) :
    @remoteHandle64CloseRef env h s = (aeeEInvHandle, []) := by
  have hread : ∀ f : TableRefs → RefM env ℤ, (read >>= f) s = f s s := fun _ => rfl
  have hnot : ¬ isStaticpdHandle h = true := by simp [hstatic]
  unfold remoteHandle64CloseRef
  rw [hread, if_neg hnot]
  split_ifs
  · rfl
  · rcases hnone with hnone | hnone
    · rw [hnone]
      rfl
    · rw [hnone]
      cases s.table.getDomainFromHandle h <;> rfl

theorem val_closeOnDomain (start_deinit : Bool) (t : HandleTable) :
    (@closeOnDomain env domain h remote start_deinit).val t =
      (@closeRemote env domain remote start_deinit).val t := by
  unfold closeOnDomain
  rw [val_bind]
  split_ifs <;> rfl

/-- What follows the `FASTRPC_PUT_REF`, unless a session ends in it. -/
theorem refs_closeNodeRef_rest {start_deinit : Bool} {nErr : ℤ} {rest : RefM env ℤ}
    (hrest : ∀ v, (rest.after v).refs = v.refs)
    (hend : Unended (if nErr = aeeEInvHandle then pure nErr
      else if start_deinit = true then lift (@domainDeinit env domain) >>= fun _ => rest
      else rest : RefM env ℤ) s) :
    ((if nErr = aeeEInvHandle then pure nErr
      else if start_deinit = true then lift (@domainDeinit env domain) >>= fun _ => rest
      else rest : RefM env ℤ).after s).refs = s.refs := by
  split_ifs at hend ⊢
  · rfl
  · obtain ⟨hdeinit, _⟩ := unended_bind hend
    rw [after_bind, hrest, refs_lift hdeinit]
  · exact hrest s

/-- It gives back a reference on the domain of the node exactly when the DSP closes the module. -/
theorem refs_closeNodeRef {start_deinit : Bool}
    (hend : Unended (@closeNodeRef env domain h remote start_deinit) s) :
    ((@closeNodeRef env domain h remote start_deinit).after s).refs =
      if (@closeRemote env domain remote start_deinit).val { s.table with tlsKey := some domain } =
          aeeSuccess then
        given s.refs domain
      else s.refs := by
  have hexit : ∀ (nErr : ℤ) (v : TableRefs), ((do
      let u ← read
      if nErr ≠ aeeSuccess ∧ u.table.isProcessExiting domain then return aeeSuccess
      else return nErr : RefM env ℤ).after v).refs = v.refs := by
    intro nErr v
    rw [after_read_bind]
    split_ifs <;> rfl
  unfold closeNodeRef at hend ⊢
  obtain ⟨hclose, hrest⟩ := unended_bind (unended_emit_bind hend)
  have hrefs := refs_lift hclose
  rw [after_emit_bind, after_bind]
  have hval : (lift (@closeOnDomain env domain h remote start_deinit)).val
      (refStep env s (.table (.setThreadContext (some domain)))) =
        (@closeRemote env domain remote start_deinit).val
          { s.table with tlsKey := some domain } :=
    val_closeOnDomain start_deinit _
  rw [hval] at hrest ⊢
  by_cases hok : (@closeRemote env domain remote start_deinit).val
      { s.table with tlsKey := some domain } = aeeSuccess
  · rw [if_pos hok] at hrest ⊢
    rw [if_pos hok, after_emit_bind]
    rw [refs_closeNodeRef_rest (hexit _) (unended_emit_bind hrest)]
    exact congrArg (given · domain) hrefs
  · rw [if_neg hok] at hrest ⊢
    rw [if_neg hok]
    rw [refs_closeNodeRef_rest (hexit _) hrest]
    exact hrefs

theorem val_closeNodeRef_ok {start_deinit : Bool}
    (hok : (@closeRemote env domain remote start_deinit).val
      { s.table with tlsKey := some domain } = aeeSuccess) :
    (@closeNodeRef env domain h remote start_deinit).val s = aeeSuccess := by
  have hval : (lift (@closeOnDomain env domain h remote start_deinit)).val
      (refStep env s (.table (.setThreadContext (some domain)))) = aeeSuccess :=
    (val_closeOnDomain start_deinit _).trans hok
  unfold closeNodeRef
  rw [val_emit_bind, val_bind, hval, if_pos rfl, val_emit_bind, if_neg (by decide)]
  split_ifs with hdeinit
  · rw [val_bind, val_read_bind, if_neg fun hboth => hboth.1 rfl]
    rfl
  · rw [val_read_bind, if_neg fun hboth => hboth.1 rfl]
    rfl

/-- `remote_handle64_close` of a node returns 0 also when it fails while the session is not
initialised. -/
theorem val_closeNodeRef {start_deinit : Bool}
    (hzero : (@closeNodeRef env domain h remote start_deinit).val s = aeeSuccess)
    (hfail : (@closeRemote env domain remote start_deinit).val
      { s.table with tlsKey := some domain } ≠ aeeSuccess) :
    (@closeRemote env domain remote start_deinit).val { s.table with tlsKey := some domain } ≠
        aeeEInvHandle ∧ s.table.isProcessExiting domain = true := by
  have hval : (lift (@closeOnDomain env domain h remote start_deinit)).val
      (refStep env s (.table (.setThreadContext (some domain)))) =
        (@closeRemote env domain remote start_deinit).val
          { s.table with tlsKey := some domain } :=
    val_closeOnDomain start_deinit _
  unfold closeNodeRef at hzero
  rw [val_emit_bind, val_bind, hval, if_neg hfail] at hzero
  split_ifs at hzero with hinv hdeinit
  · exact absurd hzero hfail
  · subst hdeinit
    exact absurd rfl hfail
  · rw [val_read_bind, (forgets_lift _).table] at hzero
    rw [isProcessExiting_after fun _ => keepsState_closeOnDomain domain h remote _] at hzero
    refine ⟨hinv, ?_⟩
    by_contra hexit
    rw [if_neg fun hboth => hexit hboth.2] at hzero
    exact hfail hzero

end Close64

section Opening

variable {domain : Domain} {name : ModuleName}

/-- `FASTRPC_GET_REF` on the counts. -/
def taken (refs : Domain → ℕ) (domain : Domain) : Domain → ℕ :=
  Function.update refs domain (addU32 (refs domain) 1)

theorem given_taken {refs : Domain → ℕ} (hlt : refs domain + 1 < 2 ^ 32) :
    given (taken refs domain) domain = refs := by
  unfold given taken
  rw [Function.update_self, Function.update_idem, addU32_of_lt hlt, Nat.add_sub_cancel,
    Function.update_eq_self]

/-- What an open does before it keeps its reference or gives it back. -/
structure Attempted (env : TableEnv) (s : TableRefs) (domain : Domain) (name : ModuleName) (ref : ℤ)
    (u : TableRefs) : Prop where
  table : u.table = (@attempt env domain name).after s.table
  refs : (ref = aeeSuccess ∧ u.refs = taken s.refs domain) ∨
    (ref ≠ aeeSuccess ∧ u.refs = s.refs ∧ (@attempt env domain name).val s.table = (ref, none))

/-- An open with what it does afterwards. -/
def opening (domain : Domain) (name : ModuleName) (k : ℤ → ℤ × Option ℕ → RefM env β) :
    RefM env β := do
  let ref ← getRef domain
  let r ← if ref ≠ aeeSuccess then pure (ref, none)
    else lift (remoteHandleOpenDomain domain name)
  k ref r

/-- A session that is being ended gives no reference. -/
theorem fastrpcSessionGet_deinit {t : HandleTable} (hstate : (t.hlist domain).state = .deinit) :
    @fastrpcSessionGet env domain t = (aeeENotInitialized, []) := by
  have hread : ∀ f : HandleTable → TableM env ℤ, (read >>= f) t = f t t := fun _ => rfl
  unfold fastrpcSessionGet
  rw [hread, if_pos hstate]
  rfl

theorem fastrpcSessionGet_live {t : HandleTable} (hstate : (t.hlist domain).state ≠ .deinit) :
    @fastrpcSessionGet env domain t = (aeeSuccess, [.setThreadContext (some domain)]) := by
  have hread : ∀ f : HandleTable → TableM env ℤ, (read >>= f) t = f t t := fun _ => rfl
  unfold fastrpcSessionGet
  rw [hread, if_neg hstate]
  rfl

theorem lift_apply {m : TableM env α} {a : α} {l : List TableStep} (hm : m s.table = (a, l)) :
    lift m s = (a, l.map .table) := by
  change ((m s.table).1, (m s.table).2.map RefStep.table) = _
  rw [hm]

theorem getRef_deinit (hstate : (s.table.hlist domain).state = .deinit) :
    @getRef env domain s = (aeeENotInitialized, []) := by
  unfold getRef
  rw [bind_of_eq s (lift_apply (fastrpcSessionGet_deinit hstate))]
  rfl

theorem getRef_live (hstate : (s.table.hlist domain).state ≠ .deinit) :
    @getRef env domain s =
      (aeeSuccess, [.table (.setThreadContext (some domain)), .get domain]) := by
  unfold getRef
  rw [bind_of_eq s (lift_apply (fastrpcSessionGet_live hstate))]
  rfl

theorem attempt_deinit {t : HandleTable} (hstate : (t.hlist domain).state = .deinit) :
    @attempt env domain name t = ((aeeENotInitialized, none), []) := by
  unfold attempt
  rw [bind_of_eq t (fastrpcSessionGet_deinit hstate), if_pos (by decide)]
  rfl

theorem attempt_live {t : HandleTable} (hstate : (t.hlist domain).state ≠ .deinit) :
    @attempt env domain name t =
      ((@remoteHandleOpenDomain env domain name).val { t with tlsKey := some domain },
        .setThreadContext (some domain) ::
          (@remoteHandleOpenDomain env domain name).log { t with tlsKey := some domain }) := by
  unfold attempt
  rw [bind_of_eq t (fastrpcSessionGet_live hstate), if_neg (by decide)]
  rfl

/-- An open is an attempt with what follows it. -/
theorem opening_spec (k : ℤ → ℤ × Option ℕ → RefM env β) (hend : Unended (opening domain name k) s) :
    ∃ ref u, Attempted env s domain name ref u ∧
      Unended (k ref ((@attempt env domain name).val s.table)) u ∧
      (opening domain name k).after s =
        (k ref ((@attempt env domain name).val s.table)).after u ∧
      (opening domain name k).val s = (k ref ((@attempt env domain name).val s.table)).val u := by
  unfold opening at hend ⊢
  obtain ⟨-, hrest⟩ := unended_bind hend
  rw [after_bind, val_bind]
  by_cases hstate : (s.table.hlist domain).state = .deinit
  · have hattempt := @attempt_deinit env domain name s.table hstate
    have hval : (@attempt env domain name).val s.table = (aeeENotInitialized, none) :=
      congrArg Prod.fst hattempt
    have hafter : (@attempt env domain name).after s.table = s.table := by
      unfold after log
      rw [hattempt]
      rfl
    have hget := @getRef_deinit env s domain hstate
    have hgetVal : (@getRef env domain).val s = aeeENotInitialized := congrArg Prod.fst hget
    have hgetAfter : (@getRef env domain).after s = s := by
      unfold after log
      rw [hget]
      rfl
    rw [hgetVal, hgetAfter, if_pos (by decide)] at hrest ⊢
    refine ⟨aeeENotInitialized, s, ⟨hafter.symm, .inr ⟨by decide, rfl, hval⟩⟩, ?_⟩
    rw [hval]
    exact ⟨(unended_bind hrest).2, rfl, rfl⟩
  · have hattempt := @attempt_live env domain name s.table hstate
    have hval : (@attempt env domain name).val s.table =
        (@remoteHandleOpenDomain env domain name).val { s.table with tlsKey := some domain } := by
      rw [val, hattempt]
    have hafter : (@attempt env domain name).after s.table =
        (@remoteHandleOpenDomain env domain name).after { s.table with tlsKey := some domain } := by
      unfold after log
      rw [hattempt]
      rfl
    have hget := @getRef_live env s domain hstate
    have hgetVal : (@getRef env domain).val s = aeeSuccess := congrArg Prod.fst hget
    have hgetAfter : (@getRef env domain).after s =
        ⟨{ s.table with tlsKey := some domain }, taken s.refs domain⟩ := by
      unfold after log
      rw [hget]
      rfl
    rw [hgetVal, hgetAfter, if_neg (by decide)] at hrest ⊢
    obtain ⟨hopen, hrest⟩ := unended_bind hrest
    refine ⟨aeeSuccess, _, ⟨?_, .inl ⟨rfl, refs_lift hopen⟩⟩, ?_⟩
    · rw [hafter]
      exact (forgets_lift _).table _
    · rw [hval, after_bind, val_bind]
      exact ⟨hrest, rfl, rfl⟩

/-- `remote_handle_open` after the attempt. -/
def openEnd (domain : Domain) (ph : ℕ) (ref : ℤ) (r : ℤ × Option ℕ) : RefM env (ℤ × ℕ) := do
  let ph := r.2.getD ph
  if r.1 = aeeSuccess then do
    discard (lift (fastrpcUpdateModuleList (.prepend .nonDomain) domain ph))
    return (aeeSuccess, ph)
  else
    if ph ≠ 0 then discard (remoteHandle64CloseRef ph)
    else if ref = aeeSuccess then emit (.put domain)
    return (r.1, ph)

/-- `remote_handle64_open` after the attempt. -/
def openEnd64 (domain : Domain) (name : ModuleName) (ref : ℤ) (r : ℤ × Option ℕ) :
    RefM env (ℤ × Option ℕ) := do
  let h := r.2.getD 0
  if r.1 = aeeSuccess then
    if name = .geteventfd ∨ isStaticpdHandle h then return (aeeSuccess, some h)
    else do
      let addr ← lift (fastrpcUpdateModuleList (.prepend .multiDomain) domain h)
      return (aeeSuccess, addr)
  else
    if h ≠ 0 then discard (remoteHandleCloseRef h)
    else if ref = aeeSuccess then emit (.put domain)
    return (r.1, none)

theorem remoteHandleOpenRef_eq (ph : ℕ) : @remoteHandleOpenRef env name ph s =
    (opening s.table.getCurrentDomain name (openEnd s.table.getCurrentDomain ph) :
      RefM env (ℤ × ℕ)) s := rfl

theorem remoteHandle64OpenRef_eq : @remoteHandle64OpenRef env (some domain) name =
    (opening domain name (openEnd64 domain name) : RefM env (ℤ × Option ℕ)) := rfl

/-- The count after an open that gives its reference back. -/
theorem Attempted.given_eq {ref : ℤ} {u : TableRefs} (h : Attempted env s domain name ref u)
    (hlt : s.refs domain + 1 < 2 ^ 32) :
    (if ref = aeeSuccess then given u.refs domain else u.refs) = s.refs := by
  rcases h.refs with ⟨hok, hrefs⟩ | ⟨hfail, hrefs, -⟩
  · rw [if_pos hok, hrefs, given_taken hlt]
  · rw [if_neg hfail, hrefs]

/-- An attempt that succeeds has taken its reference. -/
theorem Attempted.taken_eq {ref : ℤ} {u : TableRefs} (h : Attempted env s domain name ref u)
    (hok : ((@attempt env domain name).val s.table).1 = aeeSuccess) :
    u.refs = taken s.refs domain := by
  rcases h.refs with ⟨-, hrefs⟩ | ⟨hfail, -, hval⟩
  · exact hrefs
  · rw [hval] at hok
    exact absurd hok hfail

theorem refs_openEnd {ph : ℕ} {ref : ℤ} {u : TableRefs} {r : ℤ × Option ℕ}
    (hend : Unended (@openEnd env domain ph ref r) u) (hnull : r.1 ≠ aeeSuccess → r.2.getD ph = 0) :
    ((@openEnd env domain ph ref r).after u).refs =
      if r.1 = aeeSuccess then u.refs
      else if ref = aeeSuccess then given u.refs domain else u.refs := by
  unfold openEnd at hend ⊢
  by_cases hok : r.1 = aeeSuccess
  · simp only [if_pos hok] at hend ⊢
    rw [after_bind, after_pure, refs_discard_lift (unended_bind hend).1]
  · simp only [if_neg hok, hnull hok, ne_eq, not_true_eq_false, if_false]
    by_cases href : ref = aeeSuccess
    · rw [if_pos href, if_pos href]
      rfl
    · rw [if_neg href, if_neg href]
      rfl

theorem val_openEnd {ph : ℕ} {ref : ℤ} {u : TableRefs} (r : ℤ × Option ℕ) :
    ((@openEnd env domain ph ref r).val u).1 = r.1 := by
  unfold openEnd
  by_cases hok : r.1 = aeeSuccess
  · simp only [if_pos hok]
    rw [val_bind, val_pure, hok]
  · simp only [if_neg hok]
    split_ifs <;> rfl

/-- A handle that the DSP has written is closed again on the domain of the thread context. -/
theorem refs_openEnd64 {ref : ℤ} {u : TableRefs} {r : ℤ × Option ℕ}
    (hend : Unended (@openEnd64 env domain name ref r) u) (href : ref ≠ aeeSuccess → r.2 = none)
    (hnull : r.1 ≠ aeeSuccess → r.2.getD 0 = 0 ∨ u.table.getCurrentDomain = domain ∧
      (@remoteHandleCloseDomain env domain (r.2.getD 0)).val u.table = aeeSuccess) :
    ((@openEnd64 env domain name ref r).after u).refs =
      if r.1 = aeeSuccess then u.refs
      else if ref = aeeSuccess then given u.refs domain else u.refs := by
  unfold openEnd64 at hend ⊢
  by_cases hok : r.1 = aeeSuccess
  · simp only [if_pos hok] at hend ⊢
    split_ifs at hend ⊢
    · rfl
    · rw [after_bind, after_pure, refs_lift (unended_bind hend).1]
  · simp only [if_neg hok] at hend ⊢
    by_cases hh : r.2.getD 0 = 0
    · simp only [hh, ne_eq, not_true_eq_false, if_false]
      split_ifs <;> rfl
    · obtain ⟨hcur, hclose⟩ := (hnull hok).resolve_left hh
      have htaken : ref = aeeSuccess := by
        by_contra hne
        exact hh (by rw [href hne]; rfl)
      rw [if_pos hh] at hend ⊢
      rw [if_pos htaken, after_bind, after_pure, after_discard,
        refs_remoteHandleCloseRef (unended_bind (unended_bind hend).1).1, hcur, if_pos hclose]

theorem val_openEnd64 {ref : ℤ} {u : TableRefs} (r : ℤ × Option ℕ) :
    ((@openEnd64 env domain name ref r).val u).1 = r.1 := by
  unfold openEnd64
  by_cases hok : r.1 = aeeSuccess
  · simp only [if_pos hok]
    split_ifs
    · exact hok.symm
    · rw [val_bind, val_pure, hok]
  · simp only [if_neg hok]
    split_ifs <;> rfl

theorem refs_opening_openEnd {ph : ℕ}
    (hend : Unended (opening domain name (@openEnd env domain ph)) s)
    (hlt : s.refs domain + 1 < 2 ^ 32)
    (hnull : ((@attempt env domain name).val s.table).1 ≠ aeeSuccess →
      ((@attempt env domain name).val s.table).2.getD ph = 0) :
    ((opening domain name (@openEnd env domain ph)).after s).refs =
      if ((opening domain name (@openEnd env domain ph)).val s).1 = aeeSuccess then
        taken s.refs domain
      else s.refs := by
  obtain ⟨ref, u, hatt, hrest, hafter, hval⟩ := opening_spec _ hend
  rw [hafter, hval, refs_openEnd hrest hnull, val_openEnd, hatt.given_eq hlt]
  split_ifs with hok
  · exact hatt.taken_eq hok
  · rfl

/-- `remote_handle_open` keeps its reference exactly when it returns 0. -/
theorem refs_remoteHandleOpenRef {ph : ℕ} (hend : Unended (@remoteHandleOpenRef env name ph) s)
    (hlt : s.refs s.table.getCurrentDomain + 1 < 2 ^ 32)
    (hnull : ((@attempt env s.table.getCurrentDomain name).val s.table).1 ≠ aeeSuccess →
      ((@attempt env s.table.getCurrentDomain name).val s.table).2.getD ph = 0) :
    ((@remoteHandleOpenRef env name ph).after s).refs =
      if ((@remoteHandleOpenRef env name ph).val s).1 = aeeSuccess then
        taken s.refs s.table.getCurrentDomain
      else s.refs := by
  have hrun : @remoteHandleOpenRef env name ph s =
      opening s.table.getCurrentDomain name (@openEnd env s.table.getCurrentDomain ph) s :=
    remoteHandleOpenRef_eq ph
  have hopening : Unended (opening s.table.getCurrentDomain name (@openEnd env s.table.getCurrentDomain ph)) s := by
    unfold Unended
    rwa [← log_of_eq s hrun]
  rw [after_of_eq s hrun, val_of_eq s hrun]
  exact refs_opening_openEnd hopening hlt hnull

/-- `remote_handle64_open` keeps its reference exactly when it returns 0. -/
theorem refs_remoteHandle64OpenRef (hend : Unended (@remoteHandle64OpenRef env (some domain) name) s)
    (hlt : s.refs domain + 1 < 2 ^ 32)
    (hnull : ((@attempt env domain name).val s.table).1 ≠ aeeSuccess →
      ((@attempt env domain name).val s.table).2.getD 0 = 0 ∨
        ((@attempt env domain name).after s.table).getCurrentDomain = domain ∧
          (@remoteHandleCloseDomain env domain
            (((@attempt env domain name).val s.table).2.getD 0)).val
              ((@attempt env domain name).after s.table) = aeeSuccess) :
    ((@remoteHandle64OpenRef env (some domain) name).after s).refs =
      if ((@remoteHandle64OpenRef env (some domain) name).val s).1 = aeeSuccess then
        taken s.refs domain
      else s.refs := by
  rw [remoteHandle64OpenRef_eq] at hend ⊢
  obtain ⟨ref, u, hatt, hrest, hafter, hval⟩ := opening_spec _ hend
  rw [← hatt.table] at hnull
  have href : ref ≠ aeeSuccess → ((@attempt env domain name).val s.table).2 = none := by
    rcases hatt.refs with ⟨hok, -⟩ | ⟨-, -, hfail⟩
    · exact fun hne => absurd hok hne
    · exact fun _ => congrArg Prod.snd hfail
  rw [hafter, hval, refs_openEnd64 hrest href hnull, val_openEnd64, hatt.given_eq hlt]
  split_ifs with hok
  · exact hatt.taken_eq hok
  · rfl

end Opening

end Refs

/-! ### Runs -/

section Runs

variable {env : TableEnv} {s t : Ledger} {domain : Domain} {list : HandleListId}

theorem Counted.opened (h : Counted s) (hlt : s.sys.refs domain + 1 < 2 ^ 32) (handle : Option ℕ)
    (d : Domain) :
    taken s.sys.refs domain d = openOn (⟨domain, list, handle⟩ :: s.opened) d := by
  rw [openOn_cons, ← h d]
  unfold taken
  by_cases hd : d = domain
  · subst hd
    rw [Function.update_self, addU32_of_lt hlt, if_pos rfl]
  · rw [Function.update_of_ne hd, if_neg hd, Nat.add_zero]

theorem Counted.closed {h : ℕ} (hs : Counted s)
    (hmem : (⟨domain, list, some h⟩ : OpenHandle) ∈ s.opened) (d : Domain) :
    given s.sys.refs domain d = openOn (settle s.opened domain list h) d := by
  have hcount := openOn_settle (d := d) hmem
  rw [← hs d] at hcount
  unfold given
  by_cases hd : d = domain
  · subst hd
    rw [Function.update_self, ← hcount, if_pos rfl, Nat.add_sub_cancel]
  · rw [Function.update_of_ne hd, ← hcount, if_neg hd, Nat.add_zero]

/-- What a call does to the count of every domain, by its result. -/
theorem counted_of {c : ClientCall} (ht : ledgerStep env s c = some t)
    (hok : ((@ClientCall.exec env c).val s.sys).1 = aeeSuccess → ∀ d,
      ((@ClientCall.exec env c).after s.sys).refs d =
        openOn (c.record (c.domain s.sys.table) ((@ClientCall.exec env c).val s.sys).2 s.opened) d)
    (hfail : ((@ClientCall.exec env c).val s.sys).1 ≠ aeeSuccess → ∀ d,
      ((@ClientCall.exec env c).after s.sys).refs d = openOn s.opened d) : Counted t := by
  obtain rfl := Option.some.inj ht
  intro d
  dsimp only
  split_ifs with hcode
  · exact hok hcode d
  · exact hfail hcode d

theorem Counted.remoteHandleOpen (hs : Counted s) {name : ModuleName} {ph : ℕ}
    (hend : NoDeinit env s (.remoteHandleOpen name ph))
    (hc : Accounted env s (.remoteHandleOpen name ph))
    (ht : ledgerStep env s (.remoteHandleOpen name ph) = some t) : Counted t := by
  have hafter : (@ClientCall.exec env (.remoteHandleOpen name ph)).after s.sys =
      (@remoteHandleOpenRef env name ph).after s.sys := by
    rw [ClientCall.exec, after_bind, after_pure]
  have hrefs := refs_remoteHandleOpenRef (unended_bind hend).1 hc.1 hc.2
  have hval : ((@ClientCall.exec env (.remoteHandleOpen name ph)).val s.sys).1 =
      ((@remoteHandleOpenRef env name ph).val s.sys).1 := rfl
  refine counted_of ht (fun hok d => ?_) (fun hfail d => ?_)
  · rw [hval] at hok
    rw [hafter, hrefs, if_pos hok]
    exact hs.opened hc.1 _ d
  · rw [hval] at hfail
    rw [hafter, hrefs, if_neg hfail]
    exact hs d

theorem Counted.remoteHandle64Open (hs : Counted s) {domain : Option Domain} {name : ModuleName}
    (hend : NoDeinit env s (.remoteHandle64Open domain name))
    (hc : Accounted env s (.remoteHandle64Open domain name))
    (ht : ledgerStep env s (.remoteHandle64Open domain name) = some t) : Counted t := by
  cases domain with
  | none =>
      refine counted_of ht (fun hok => ?_) (fun _ => hs)
      have hcode : aeeEBadParm = aeeSuccess := hok
      exact absurd hcode (by decide)
  | some domain =>
      have hexec : @ClientCall.exec env (.remoteHandle64Open (some domain) name) =
          remoteHandle64OpenRef (some domain) name := rfl
      have hrefs := refs_remoteHandle64OpenRef hend hc.1 hc.2
      refine counted_of ht (fun hok d => ?_) (fun hfail d => ?_)
      · rw [hexec] at hok ⊢
        rw [hrefs, if_pos hok]
        exact hs.opened hc.1 _ d
      · rw [hexec] at hfail ⊢
        rw [hrefs, if_neg hfail]
        exact hs d

theorem Counted.remoteHandleClose (hs : Counted s) {h : ℕ}
    (hend : NoDeinit env s (.remoteHandleClose h)) (hc : Accounted env s (.remoteHandleClose h))
    (ht : ledgerStep env s (.remoteHandleClose h) = some t) : Counted t := by
  have hafter : (@ClientCall.exec env (.remoteHandleClose h)).after s.sys =
      (@remoteHandleCloseRef env h).after s.sys := by
    rw [ClientCall.exec, after_bind, after_pure]
  have hrefs := refs_remoteHandleCloseRef (unended_bind hend).1
  simp only [Accounted, CloseAccounted] at hc
  refine counted_of ht (fun hok d => ?_) (fun hfail d => ?_)
  · rw [hafter, hrefs]
    split_ifs at hc ⊢ with hclose
    · exact hs.closed hc d
    · refine (hs d).trans (congrArg (openOn · d) ?_)
      exact (settle_of_not_named (hc (val_remoteHandleCloseRef hok hclose))).symm
  · rw [hafter, hrefs, if_neg fun hclose => hfail (val_remoteHandleCloseRef_ok hclose)]
    exact hs d

theorem Counted.remoteHandle64Close (hs : Counted s) {h : ℕ}
    (hend : NoDeinit env s (.remoteHandle64Close h)) (hc : Accounted env s (.remoteHandle64Close h))
    (ht : ledgerStep env s (.remoteHandle64Close h) = some t) : Counted t := by
  have hafter : (@ClientCall.exec env (.remoteHandle64Close h)).after s.sys =
      (@remoteHandle64CloseRef env h).after s.sys := by
    rw [ClientCall.exec, after_bind, after_pure]
  replace hend := (unended_bind hend).1
  simp only [Accounted] at hc
  have hnothing : ∀ code, @remoteHandle64CloseRef env h s.sys = (code, []) →
      (code = aeeSuccess → ∀ x ∈ s.opened, ¬ x.Named .multiDomain h) → Counted t := by
    intro code heq hnone
    have hsame : (@remoteHandle64CloseRef env h).after s.sys = s.sys := by
      unfold after log
      rw [heq]
      rfl
    refine counted_of ht (fun hok d => ?_) (fun _ d => ?_)
    · rw [hafter, hsame]
      have hcode : code = aeeSuccess := by
        rw [← hok]
        exact (congrArg Prod.fst heq).symm
      refine (hs d).trans (congrArg (openOn · d) ?_)
      exact (settle_of_not_named (hnone hcode)).symm
    · rw [hafter, hsame]
      exact hs d
  by_cases hstatic : isStaticpdHandle h = true
  · rw [if_pos hstatic] at hc
    exact hnothing _ (remoteHandle64CloseRef_static hstatic) fun _ => hc
  rw [if_neg hstatic] at hc
  have hfalse : isStaticpdHandle h = false := by simpa using hstatic
  have hne : aeeEInvHandle ≠ aeeSuccess := by decide
  cases hdomain : s.sys.table.getDomainFromHandle h with
  | none =>
      have heq := @remoteHandle64CloseRef_invalid env s.sys h hfalse (.inl hdomain)
      exact hnothing _ heq fun hcode => absurd hcode hne
  | some domain =>
      cases hremote : s.sys.table.getHandleRemote h with
      | none =>
          have heq := @remoteHandle64CloseRef_invalid env s.sys h hfalse (.inr hremote)
          exact hnothing _ heq fun hcode => absurd hcode hne
      | some remote =>
          have heq := @remoteHandle64CloseRef_node env s.sys h remote domain hfalse hdomain hremote
          have hendNode :
              Unended (@closeNodeRef env domain h remote (s.sys.table.startDeinit domain)) s.sys := by
            unfold Unended log at hend ⊢
            rwa [heq] at hend
          have hrefs := refs_closeNodeRef hendNode
          have hsame : (@remoteHandle64CloseRef env h).after s.sys =
              (@closeNodeRef env domain h remote (s.sys.table.startDeinit domain)).after s.sys := by
            unfold after log
            rw [heq]
          have hcode : ((@ClientCall.exec env (.remoteHandle64Close h)).val s.sys).1 =
              (@closeNodeRef env domain h remote (s.sys.table.startDeinit domain)).val s.sys :=
            congrArg Prod.fst heq
          replace hc := hc domain hdomain remote hremote
          simp only [CloseAccounted] at hc
          have hon : ClientCall.domain s.sys.table (.remoteHandle64Close h) = domain := by
            rw [ClientCall.domain, hdomain]
            rfl
          refine counted_of ht (fun hok d => ?_) (fun hfail d => ?_)
          · rw [hcode] at hok
            rw [hafter, hsame, hrefs, hon]
            split_ifs at hc ⊢ with hclose
            · exact hs.closed hc d
            · obtain ⟨hinv, hexit⟩ := val_closeNodeRef hok hclose
              refine (hs d).trans (congrArg (openOn · d) ?_)
              exact (settle_of_not_named (hc (by simp [hinv, hexit]))).symm
          · rw [hcode] at hfail
            rw [hafter, hsame, hrefs, if_neg fun hclose => hfail (val_closeNodeRef_ok hclose)]
            exact hs d

/-- Every call that meets the condition keeps the counts. -/
theorem Counted.step (hs : Counted s) {c : ClientCall} (hend : NoDeinit env s c)
    (hc : Accounted env s c) (ht : ledgerStep env s c = some t) : Counted t := by
  cases c with
  | remoteHandleOpen name ph => exact hs.remoteHandleOpen hend hc ht
  | remoteHandle64Open domain name => exact hs.remoteHandle64Open hend hc ht
  | remoteHandleClose h => exact hs.remoteHandleClose hend hc ht
  | remoteHandle64Close h => exact hs.remoteHandle64Close hend hc ht

end Runs

/-- The count of domain 3 after the calls, and what is open on it. -/
def leftOn3 (env : TableEnv) (calls : List ClientCall) : Option (ℕ × ℕ) :=
  (run (ledgerStep env) Ledger.start calls).map fun t => (t.sys.refs 3, openOn t.opened 3)

end FastRpc
