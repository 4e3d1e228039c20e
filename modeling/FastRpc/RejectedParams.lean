import FastRpc.SessionRefs

/-! # Rejected thread parameters

`store_domain_thread_params` checks the priority and stores it, and only then checks the stack size.  A
request with a good priority and a bad stack size is refused with the priority already stored.  For all
domains, the first of them refuses the request, so no other one is changed.

The relative priority of `FASTRPC_RELATIVE_THREAD_PRIORITY` is cut to the range of priorities before it is
stored and is never refused (`relativePriority_good`).  `rejected_params_kept_iff` says exactly when a
request that is refused for a parameter out of range leaves the parameters of all domains. -/

namespace FastRpc.SessionControl

open EarlyExit

/-! ### Requests out of range -/

/-- `thread_priority` is refused. -/
def BadPriority (thread_priority : ℤ) : Prop :=
  thread_priority ≠ -1 ∧ (thread_priority < 1 ∨ 255 < thread_priority)

/-- `stack_size` is refused. -/
def BadStackSize (stack_size : ℤ) : Prop :=
  stack_size ≠ -1 ∧ (stack_size < 16 * 1024 ∨ 8 * 1024 * 1024 < stack_size)

/-- `domain` is neither -1 nor a domain. -/
def BadDomain (domain : ℤ) : Prop := domain ≠ -1 ∧ effectiveDomain domain = none

/-- A parameter of a request for thread parameters is out of range. -/
def OutOfRange : ControlRequest → Prop
  | .threadParams (some params) =>
      BadDomain params.domain ∨ BadPriority params.prio ∨ BadStackSize params.stack_size
  | .relativeThreadPriority (some params) =>
      BadDomain params.domain ∨ BadPriority (relativePriority params.relative_thread_priority)
  | _ => False

/-- The first domain that a request is for. -/
def firstDomain (domain : ℤ) : Option Domain :=
  if domain = -1 then some ⟨0, by decide⟩ else effectiveDomain domain

instance (thread_priority : ℤ) : Decidable (BadPriority thread_priority) :=
  inferInstanceAs (Decidable (_ ∧ _))

instance (stack_size : ℤ) : Decidable (BadStackSize stack_size) := inferInstanceAs (Decidable (_ ∧ _))

theorem relativePriority_good (rel_thread_prio : ℤ) : ¬ BadPriority (relativePriority rel_thread_prio) := by
  unfold BadPriority relativePriority defaultUthreadPriority
  split_ifs <;> omega

/-! ### One domain -/

/-- The table with the priority of a request stored for a domain, if there is one and it is good. -/
def ControlTable.withPriority (t : ControlTable) (d : Domain) (prio : ℤ) : ControlTable :=
  if prio = -1 ∨ BadPriority prio then t
  else t.modify d (fun hl => { hl with th_params := { hl.th_params with thread_priority := prio } })

section Store

variable {env : ControlEnv} {d : Domain} {prio stack_size : ℤ} {t : ControlTable}

theorem storeThreadPriority_bad (h : BadPriority prio) :
    storeThreadPriority d prio t = (aeeEBadParm, t.withPriority d prio) := by
  rw [storeThreadPriority, if_neg h.1, if_pos h.2, ControlTable.withPriority, if_pos (Or.inr h)]

theorem storeThreadPriority_good (h : ¬ BadPriority prio) :
    storeThreadPriority d prio t = (aeeSuccess, t.withPriority d prio) := by
  unfold storeThreadPriority ControlTable.withPriority
  by_cases hdefault : prio = -1
  · rw [if_pos hdefault, if_pos (Or.inl hdefault)]
  · have hrange : ¬ (prio < 1 ∨ 255 < prio) := fun hr => h ⟨hdefault, hr⟩
    rw [if_neg hdefault, if_neg hrange, if_neg (by tauto)]

theorem storeStackSize_bad (h : BadStackSize stack_size) :
    storeStackSize d stack_size t = (aeeEBadParm, t) := by
  rw [storeStackSize, if_neg h.1, if_pos h.2]

/-- **A bad stack size is refused after the priority is stored.** -/
theorem store_outOfRange (h : BadPriority prio ∨ BadStackSize stack_size) :
    storeDomainThreadParams env d prio stack_size t = (aeeEBadParm, t.withPriority d prio) := by
  unfold storeDomainThreadParams
  by_cases hprio : BadPriority prio
  · rw [storeThreadPriority_bad hprio]
    rfl
  · rw [storeThreadPriority_good hprio]
    simp only [storeStackSize_bad (h.resolve_left hprio)]
    rfl

end Store

/-! ### The loop over the domains -/

/-- A step that every domain refuses is made for the first domain only. -/
theorem leaves_forDomains_of_refused {op : Domain → ControlTable → ℤ × ControlTable} (domain : ℤ)
    (s : ControlState) (h : ∀ d, (op d s.table).1 ≠ aeeSuccess) :
    (forDomains domain (fun d => verify (op d))).leaves s =
      match firstDomain domain with
      | none => { s with nErr := aeeEBadParm }
      | some d => { s with nErr := (op d s.table).1, table := (op d s.table).2 } := by
  have hone : ∀ d, (verify (op d)).leaves s =
      { s with nErr := (op d s.table).1, table := (op d s.table).2 } := by
    intro d
    have hbind := leaves_verify_bind s (op d) pure
    rw [bind_pure, if_pos (h d)] at hbind
    exact hbind
  unfold forDomains firstDomain
  by_cases hall : domain = -1
  · rw [if_neg (not_not.mpr hall), if_pos hall]
    exact (leaves_verify_bind s (op _) _).trans (if_pos (h _))
  · rw [if_pos hall, if_neg hall, verifyDomain]
    cases effectiveDomain domain with
    | none => rfl
    | some d => exact hone d

/-- A domain that does not exist is refused before anything is stored. -/
theorem leaves_forDomains_of_badDomain {body : Domain → ControlM PUnit} {domain : ℤ} (s : ControlState)
    (h : BadDomain domain) : (forDomains domain body).leaves s = { s with nErr := aeeEBadParm } := by
  unfold forDomains
  rw [if_pos h.1, verifyDomain, h.2]
  rfl

/-! ### A call -/

section Call

variable (env : ControlEnv) (datalen : ℕ) (req : ControlRequest) (t : ControlTable)

/-- The thread parameters of all domains. -/
def ControlTable.params (t : ControlTable) : Domain → ThreadParams := fun d => (t.hlist d).th_params

/-- A request that is refused for a parameter out of range leaves the thread parameters. -/
def RejectionKeepsParams : Prop :=
  OutOfRange req → (remoteSessionControl env datalen req t).nErr ≠ aeeSuccess →
    (remoteSessionControl env datalen req t).table.params = t.params

/-- The request stores a new priority before its stack size is refused. -/
def StoresRejected : Prop :=
  ∃ params d, req = .threadParams (some params) ∧ datalen = 12 ∧ TakesRef env t ∧
    firstDomain params.domain = some d ∧ params.prio ≠ -1 ∧ ¬ BadPriority params.prio ∧
    BadStackSize params.stack_size ∧ (t.hlist d).th_params.thread_priority ≠ params.prio

variable {env datalen req t}

/-- Changes that leave the parameters of an entry leave those of the table. -/
theorem params_modify {u : ControlTable} {d : Domain} {f : ControlList → ControlList}
    (hf : (f (u.hlist d)).th_params = (u.hlist d).th_params) : (u.modify d f).params = u.params := by
  funext e
  unfold ControlTable.params ControlTable.modify
  rcases eq_or_ne e d with rfl | he
  · simpa using hf
  · simp [Function.update_of_ne he]

theorem params_takeRef (u : ControlTable) (d : Domain) : (u.takeRef d).params = u.params :=
  params_modify (u := u) (d := d) (f := fun hl => { hl with ref := addU32 hl.ref 1 }) rfl

theorem params_putRef (s : ControlState) : (putRef s).table.params = s.table.params := by
  unfold putRef ControlTable.putRef
  split_ifs
  · cases effectiveDomain s.domain with
    | none => rfl
    | some d => exact params_modify (f := fun hl => { hl with ref := hl.ref - 1 }) rfl
  · rfl

theorem nErr_putRef (s : ControlState) : (putRef s).nErr = s.nErr := by
  unfold putRef
  split_ifs <;> rfl

/-- The state at the switch. -/
def ControlState.entered (t : ControlTable) : ControlState :=
  ⟨t.takeRef defaultDomainId, aeeSuccess, (defaultDomainId : ℕ), true, none, [(defaultDomainId : ℕ)], []⟩

theorem atBail_of_takesRef (h : TakesRef env t) :
    atBail env datalen req t = (switch env datalen req).leaves (.entered t) := by
  unfold atBail body
  rw [leaves_verify_bind, if_neg (not_not.mpr h.1), leaves_getRef_bind, ControlState.entered, ← h.1]
  exact if_pos h.2

theorem params_of_not_takesRef (h : ¬ TakesRef env t) :
    (remoteSessionControl env datalen req t).table.params = t.params := by
  unfold remoteSessionControl atBail body
  rw [params_putRef, leaves_verify_bind]
  split_ifs with hinit
  · rfl
  · rw [leaves_getRef_bind]
    split_ifs with hstate
    · exact absurd ⟨not_not.mp hinit, hstate⟩ h
    · rfl

theorem params_of_takesRef (h : TakesRef env t) :
    (remoteSessionControl env datalen req t).table.params =
      ((switch env datalen req).leaves (.entered t)).table.params := by
  rw [remoteSessionControl, params_putRef, atBail_of_takesRef h]

theorem params_withPriority {u : ControlTable} {d : Domain} {prio : ℤ} :
    (u.withPriority d prio).params = u.params ↔
      prio = -1 ∨ BadPriority prio ∨ (u.hlist d).th_params.thread_priority = prio := by
  unfold ControlTable.withPriority
  split_ifs with hnone
  · exact ⟨fun _ => by tauto, fun _ => rfl⟩
  · constructor
    · intro h
      have hd := congrArg ThreadParams.thread_priority (congrFun h d)
      simp only [ControlTable.params, ControlTable.modify, Function.update_self] at hd
      exact Or.inr (Or.inr hd.symm)
    · intro h
      have hsame : (u.hlist d).th_params.thread_priority = prio := by tauto
      refine params_modify ?_
      rw [← hsame]

/-- **Thread parameters out of range**: what is left is the priority of the first domain. -/
theorem leaves_threadParams (s : ControlState) {params : RpcThreadParams}
    (h : OutOfRange (.threadParams (some params))) :
    (switch env datalen (.threadParams (some params))).leaves s =
      if datalen = 12 then
        match firstDomain params.domain with
        | none => { s with nErr := aeeEBadParm }
        | some d => { s with nErr := aeeEBadParm, table := s.table.withPriority d params.prio }
      else { s with nErr := aeeEBadParm } := by
  have hswitch : (switch env datalen (.threadParams (some params))).leaves s =
      if datalen = 12 then
        (forDomains params.domain (fun d =>
          verify (storeDomainThreadParams env d params.prio params.stack_size))).leaves s
      else { s with nErr := aeeEBadParm } :=
    (leaves_verifyData_bind s (some params) _).trans (leaves_verifyc_bind s (datalen = 12) _ _)
  rw [hswitch]
  refine if_congr Iff.rfl ?_ rfl
  rcases h with hdomain | hrange
  · rw [leaves_forDomains_of_badDomain s hdomain, firstDomain, if_neg hdomain.1, hdomain.2]
  · rw [leaves_forDomains_of_refused params.domain s]
    · cases firstDomain params.domain with
      | none => rfl
      | some d => simp only [store_outOfRange hrange]
    · intro d
      rw [store_outOfRange hrange]
      exact (by decide : aeeEBadParm ≠ aeeSuccess)

/-- A relative priority is refused for its domain only. -/
theorem leaves_relativeThreadPriority (s : ControlState) {params : RpcRelativeThreadPriority}
    (h : OutOfRange (.relativeThreadPriority (some params))) :
    (switch env datalen (.relativeThreadPriority (some params))).leaves s =
      { s with nErr := aeeEBadParm } := by
  have hdomain : BadDomain params.domain := h.resolve_right (relativePriority_good _)
  refine (leaves_verifyc_bind s (datalen = 8) _ _).trans ?_
  split_ifs with hlen
  · exact (leaves_verifyData_bind s (some params) _).trans (leaves_forDomains_of_badDomain s hdomain)
  · rfl

theorem firstDomain_of_badDomain {domain : ℤ} (h : BadDomain domain) : firstDomain domain = none := by
  rw [firstDomain, if_neg h.1, h.2]

/-- A call whose stack size is refused after a new priority changes the parameters and returns an
error. -/
theorem params_changed (h : StoresRejected env datalen req t) :
    ¬ RejectionKeepsParams env datalen req t := by
  obtain ⟨params, d, rfl, hlen, htakes, hfirst, hgiven, hgood, hbad, hnew⟩ := h
  intro hkeeps
  have hout : OutOfRange (.threadParams (some params)) := Or.inr (Or.inr hbad)
  have hleaves : (switch env datalen (.threadParams (some params))).leaves (.entered t) =
      { ControlState.entered t with
        nErr := aeeEBadParm
        table := (t.takeRef defaultDomainId).withPriority d params.prio } := by
    rw [leaves_threadParams _ hout, if_pos hlen, hfirst]
    rfl
  have herror : (remoteSessionControl env datalen (.threadParams (some params)) t).nErr ≠
      aeeSuccess := by
    rw [remoteSessionControl, nErr_putRef, atBail_of_takesRef htakes, hleaves]
    exact (by decide : aeeEBadParm ≠ aeeSuccess)
  have hsame := hkeeps hout herror
  rw [params_of_takesRef htakes, hleaves, ← params_takeRef t defaultDomainId] at hsame
  have hentry : ((t.takeRef defaultDomainId).hlist d).th_params = (t.hlist d).th_params :=
    congrFun (params_takeRef t defaultDomainId) d
  rcases params_withPriority.mp hsame with hdefault | hprio | hold
  · exact hgiven hdefault
  · exact hgood hprio
  · exact hnew (hentry ▸ hold)

/-- The parameters after a refused request for thread parameters that stored no new priority. -/
theorem params_kept {params : RpcThreadParams} (htakes : TakesRef env t)
    (hout : OutOfRange (.threadParams (some params)))
    (h : ¬ StoresRejected env datalen (.threadParams (some params)) t) :
    (remoteSessionControl env datalen (.threadParams (some params)) t).table.params = t.params := by
  have hentered : (ControlState.entered t).table.params = t.params := params_takeRef t defaultDomainId
  rw [params_of_takesRef htakes, leaves_threadParams _ hout]
  split_ifs with hlen
  · cases hfirst : firstDomain params.domain with
    | none => exact hentered
    | some d =>
        have hentry : ((ControlState.entered t).table.hlist d).th_params = (t.hlist d).th_params :=
          congrFun hentered d
        refine (params_withPriority.mpr ?_).trans hentered
        by_contra hchanges
        rw [not_or, not_or, hentry] at hchanges
        obtain ⟨hgiven, hgood, hnew⟩ := hchanges
        rcases hout with hdomain | hprio | hstack
        · exact absurd (hfirst.symm.trans (firstDomain_of_badDomain hdomain)) (by simp)
        · exact hgood hprio
        · exact h ⟨params, d, rfl, hlen, htakes, hfirst, hgiven, hgood, hstack, hnew⟩
  · exact hentered

/-- **Rejected thread parameters change nothing** exactly when no new priority was stored before the stack
size was refused: for every table, environment and request. -/
theorem rejected_params_kept_iff :
    RejectionKeepsParams env datalen req t ↔ ¬ StoresRejected env datalen req t := by
  refine ⟨fun h hstores => params_changed hstores h, fun h hout _ => ?_⟩
  by_cases htakes : TakesRef env t
  case neg => exact params_of_not_takesRef htakes
  match req, hout with
  | .threadParams (some params), hout => exact params_kept htakes hout h
  | .relativeThreadPriority (some params), hout =>
      rw [params_of_takesRef htakes, leaves_relativeThreadPriority _ hout]
      exact params_takeRef t defaultDomainId

end Call

/-- The priority 100 of a request whose stack size of one byte is refused stays in domain 3. -/
theorem refused_priority_stored :
    ¬ RejectionKeepsParams quietControl 12 (.threadParams (some ⟨3, 100, 1⟩)) .start ∧
      (remoteSessionControl quietControl 12 (.threadParams (some ⟨3, 100, 1⟩)) .start).nErr =
        aeeEBadParm ∧
      ((remoteSessionControl quietControl 12 (.threadParams (some ⟨3, 100, 1⟩)) .start).table.hlist
        3).th_params.thread_priority = 100 := by
  refine ⟨params_changed ⟨⟨3, 100, 1⟩, 3, rfl, rfl, ⟨rfl, by decide⟩, rfl, ?_⟩, rfl, rfl⟩
  exact ⟨by decide, by decide, by decide, by decide⟩

end FastRpc.SessionControl
