import FastRpc.SessionControl

/-! # The references of session control

`FASTRPC_GET_REF` and `FASTRPC_PUT_REF` of `remote_session_control` name the same local variable, and
seven of its requests assign to it in between: a process kill, an exception, the query of the process
type and the registration for notifications take it from the data block (the kill never checks it,
the other three check it only afterwards, with the label `bail` as the way out), and the three
requests that are given a name set it to the domain of that name, which is -1 for an unknown one.
The call then gives back a reference that it did not take, or counts down outside `hlist`, and keeps
the one it took.

`session_control_balanced` says exactly when this does not happen. -/

namespace FastRpc.SessionControl

open EarlyExit

/-! ### The local variables -/

/-- The local variables that `bail` uses, with the references taken and given back so far. -/
def locals (s : ControlState) : ℤ × Bool × List ℤ × List ℤ := (s.domain, s.ref, s.taken, s.released)

section Rules

variable {α : Type} (s : ControlState)

theorem leaves_verifyc_bind (cond : Prop) [Decidable cond] (code : ℤ) (k : PUnit → ControlM α) :
    (verifyc cond code >>= k).leaves s =
      if cond then (k ⟨⟩).leaves s else { s with nErr := code } := by
  unfold verifyc
  split <;> rfl

theorem leaves_verifyData_bind {β : Type} (data : Option β) (k : β → ControlM α) :
    (verifyData data >>= k).leaves s =
      match data with
      | none => { s with nErr := aeeEBadParm }
      | some b => (k b).leaves s := by
  cases data <;> rfl

theorem leaves_setDomain_bind (domain : ℤ) (k : PUnit → ControlM α) :
    (setDomain domain >>= k).leaves s = (k ⟨⟩).leaves { s with domain := domain } := rfl

theorem keeps_verifyc (cond : Prop) [Decidable cond] (code : ℤ) :
    Keeps locals (verifyc cond code) := by
  unfold verifyc
  apply keeps_ite
  · intro _
    exact keeps_pure _
  · intro _
    exact keeps_bind (EarlyExit.keeps_update fun _ => rfl) (fun _ => keeps_failure)

theorem keeps_call (op : ControlTable → ℤ × ControlTable) : Keeps locals (call op) :=
  EarlyExit.keeps_update fun _ => rfl

theorem keeps_setReply (reply : ControlReply) : Keeps locals (setReply reply) :=
  EarlyExit.keeps_update fun _ => rfl

theorem keeps_verify (op : ControlTable → ℤ × ControlTable) : Keeps locals (verify op) := by
  apply keeps_bind (keeps_call op)
  intro _
  apply keeps_get_bind
  intro s
  exact keeps_ite (fun _ => keeps_failure) (fun _ => keeps_pure _)

theorem keeps_verifyDomain (domain : ℤ) : Keeps locals (verifyDomain domain) := by
  unfold verifyDomain
  cases effectiveDomain domain with
  | none => exact keeps_bind (EarlyExit.keeps_update fun _ => rfl) (fun _ => keeps_failure)
  | some d => exact EarlyExit.keeps_pure d

theorem keeps_verifyData (data : Option α) : Keeps locals (verifyData data) := by
  unfold verifyData
  cases data with
  | none => exact keeps_bind (EarlyExit.keeps_update fun _ => rfl) (fun _ => keeps_failure)
  | some a => exact EarlyExit.keeps_pure a

theorem keeps_forDomains (domain : ℤ) {each : Domain → ControlM PUnit}
    (h : ∀ d, Keeps locals (each d)) : Keeps locals (forDomains domain each) := by
  unfold forDomains
  apply keeps_ite
  · intro _
    exact keeps_bind (keeps_verifyDomain domain) h
  · intro _
    exact keeps_forM h _

end Rules

/-! ### Requests that leave the local variables alone -/

section Keeping

variable (env : ControlEnv) (datalen : ℕ)

theorem keeps_threadParams (data : Option RpcThreadParams) :
    Keeps locals (threadParams env datalen data) := by
  apply keeps_bind (keeps_verifyData data)
  intro params
  apply keeps_bind (keeps_verifyc _ _)
  intro _
  exact keeps_forDomains _ (fun d => keeps_verify _)

theorem keeps_controlUnsignedModule (data : Option RpcControlUnsignedModule) :
    Keeps locals (controlUnsignedModule datalen data) := by
  apply keeps_bind (keeps_verifyc _ _)
  intro _
  apply keeps_bind (keeps_verifyData data)
  intro um
  exact keeps_forDomains _ (fun d => keeps_verify _)

theorem keeps_relativeThreadPriority (data : Option RpcRelativeThreadPriority) :
    Keeps locals (relativeThreadPriority env datalen data) := by
  apply keeps_bind (keeps_verifyc _ _)
  intro _
  apply keeps_bind (keeps_verifyData data)
  intro params
  exact keeps_forDomains _ (fun d => keeps_verify _)

theorem keeps_sessionClose (data : Option RpcSessionClose) :
    Keeps locals (sessionClose env datalen data) := by
  apply keeps_bind (keeps_verifyData data)
  intro sclose
  apply keeps_bind (keeps_verifyc _ _)
  intro _
  exact keeps_forDomains _ (fun d => keeps_verify _)

theorem keeps_controlPdDump (data : Option RpcControlPdDump) :
    Keeps locals (controlPdDump datalen data) := by
  apply keeps_bind (keeps_verifyc _ _)
  intro _
  apply keeps_bind (keeps_verifyData data)
  intro pddump
  apply keeps_ite
  · intro _
    exact keeps_verify _
  · intro _
    exact keeps_forM (fun ii => keeps_verify _) _

theorem keeps_pdInitmemSize (data : Option RpcPdInitmemSize) :
    Keeps locals (pdInitmemSize datalen data) := by
  apply keeps_bind (keeps_verifyc _ _)
  intro _
  apply keeps_bind (keeps_verifyData data)
  intro params
  apply keeps_ite
  · intro _
    apply keeps_bind (keeps_verifyDomain _)
    intro d
    apply keeps_get_bind
    intro s
    exact keeps_bind (keeps_verifyc _ _) (fun _ => keeps_verify _)
  · intro _
    apply keeps_forM
    intro ii
    apply keeps_get_bind
    intro s
    exact keeps_ite (fun _ => keeps_verify _) (fun _ => keeps_pure _)

theorem keeps_contextCreate (data : Option ContextCreate) :
    Keeps locals (contextCreate env datalen data) := by
  apply keeps_bind (keeps_verifyc _ _)
  intro _
  exact keeps_bind (keeps_verifyData data) (fun create => keeps_verify _)

theorem keeps_contextDestroy (data : Option ContextDestroy) :
    Keeps locals (contextDestroy env datalen data) := by
  apply keeps_bind (keeps_verifyc _ _)
  intro _
  apply keeps_bind (keeps_verifyData data)
  intro dest
  exact keeps_bind (keeps_verifyc _ _) (fun _ => keeps_verify _)

end Keeping

/-! ### Requests that set `domain` -/

/-- The id that a request assigns to `domain`, if its data block passes the checks before. -/
def domainOfRequest (datalen : ℕ) : ControlRequest → Option ℤ
  | .remoteProcessKill (some dp) => if datalen = 4 then some dp.domain else none
  | .remoteProcessException (some dp) => if datalen = 4 then some dp.domain else none
  | .remoteProcessType (some typ) => if datalen = 8 then some typ.domain else none
  | .registerStatusNotifications (some notif) => if datalen = 24 then some notif.domain else none
  | .reserveNewSession (some ⟨some domain_name, domain_name_len, some _, session_name_len⟩) =>
      if datalen = 40 ∧ domain_name_len > 0 ∧ session_name_len > 0 then
        some (getDomainFromName domain_name)
      else none
  | .getEffectiveDomainId (some ⟨some domain_name, domain_name_len, session_id⟩) =>
      if datalen = 24 ∧ domain_name_len > 0 ∧ session_id < 4 then
        some (getDomainFromName domain_name)
      else none
  | .getUri (some ⟨some domain_name, domain_name_len, session_id, _, _, _, _⟩) =>
      if datalen = 48 ∧ domain_name_len > 0 ∧ session_id < 4 then
        some (getDomainFromName domain_name)
      else none
  | _ => none

/-- The local variables after an assignment to `domain`, if there is one. -/
def assigned (s : ControlState) (domain : Option ℤ) : ℤ × Bool × List ℤ × List ℤ :=
  (domain.getD s.domain, s.ref, s.taken, s.released)

section Setting

variable (env : ControlEnv) (datalen : ℕ) (s : ControlState)

/-- What sets `domain` and leaves the local variables alone afterwards. -/
theorem locals_setDomain {α : Type} {domain : ℤ} {k : PUnit → ControlM α}
    (hk : Keeps locals (k ⟨⟩)) :
    locals ((setDomain domain >>= k).leaves s) = assigned s (some domain) := by
  rw [leaves_setDomain_bind]
  exact hk _

theorem locals_remoteProcessKill (data : Option RpcProcessCleanParams) :
    locals ((remoteProcessKill env datalen data).leaves s) =
      assigned s (domainOfRequest datalen (.remoteProcessKill data)) := by
  unfold remoteProcessKill
  rw [leaves_verifyc_bind, leaves_verifyData_bind]
  cases data with
  | none => split <;> rfl
  | some dp =>
      unfold domainOfRequest
      split
      · exact locals_setDomain s (keeps_verify _)
      · rfl

theorem locals_remoteProcessException (data : Option RpcProcessCleanParams) :
    locals ((remoteProcessException env datalen data).leaves s) =
      assigned s (domainOfRequest datalen (.remoteProcessException data)) := by
  unfold remoteProcessException
  rw [leaves_verifyc_bind, leaves_verifyData_bind]
  cases data with
  | none => split <;> rfl
  | some dp =>
      unfold domainOfRequest
      split
      · apply locals_setDomain
        exact keeps_bind (keeps_verifyDomain _) (fun d => keeps_verify _)
      · rfl

theorem locals_remoteProcessType (data : Option RpcProcessType) :
    locals ((remoteProcessType datalen data).leaves s) =
      assigned s (domainOfRequest datalen (.remoteProcessType data)) := by
  unfold remoteProcessType
  rw [leaves_verifyc_bind, leaves_verifyData_bind]
  cases data with
  | none => split <;> rfl
  | some typ =>
      unfold domainOfRequest
      split
      · apply locals_setDomain
        apply keeps_bind (keeps_verifyDomain _)
        intro d
        apply keeps_get_bind
        intro u
        apply keeps_ite
        · intro _
          exact keeps_bind (keeps_setReply _) (fun _ => keeps_call _)
        · intro _
          exact keeps_setReply _
      · rfl

theorem locals_registerStatusNotifications (data : Option RpcNotifRegister) :
    locals ((registerStatusNotifications env datalen data).leaves s) =
      assigned s (domainOfRequest datalen (.registerStatusNotifications data)) := by
  unfold registerStatusNotifications
  rw [leaves_verifyc_bind, leaves_verifyData_bind]
  cases data with
  | none => split <;> rfl
  | some notif =>
      unfold domainOfRequest
      split
      · apply locals_setDomain
        apply keeps_bind (keeps_verifyDomain _)
        intro d
        exact keeps_bind (keeps_verify _) (fun _ => keeps_verify _)
      · rfl

theorem keeps_reservation (domain : ℤ) (session_name : List Char) (session_name_len : ℕ) :
    Keeps locals (do
      setReply (.session 32 4)
      let s ← get
      match reserveSession s.table domain session_name session_name_len [1, 2, 3, 4] with
      | none => verifyc False aeeENoSession
      | some (ii, jj, t) => do
          call (fun _ => (aeeSuccess, t))
          setReply (.session ii jj)) := by
  apply keeps_bind (keeps_setReply _)
  intro _
  apply keeps_get_bind
  intro s
  split
  · exact keeps_verifyc _ _
  · exact keeps_bind (keeps_call _) (fun _ => keeps_setReply _)

theorem locals_reserveNewSession (data : Option RpcReserveNewSession) :
    locals ((reserveNewSession datalen data).leaves s) =
      assigned s (domainOfRequest datalen (.reserveNewSession data)) := by
  unfold reserveNewSession
  simp only [leaves_verifyc_bind, leaves_verifyData_bind]
  match data with
  | none => split <;> rfl
  | some ⟨none, _, _, _⟩ => split <;> rfl
  | some ⟨some name, n, none, _⟩ =>
      dsimp only
      split_ifs <;> rfl
  | some ⟨some name, n, some sname, m⟩ =>
      unfold domainOfRequest
      dsimp only
      by_cases hc : datalen = 40 ∧ n > 0 ∧ m > 0
      · rw [if_pos hc.1, if_pos hc]
        rw [if_pos hc.2.1, if_pos hc.2.2]
        apply locals_setDomain
        exact keeps_bind (keeps_verifyc _ _) (fun _ => keeps_reservation _ _ _)
      · rw [if_neg hc]
        split_ifs
        · exact absurd ⟨‹_›, ‹_›, ‹_›⟩ hc
        all_goals rfl

theorem locals_getEffectiveDomainId (data : Option RpcEffectiveDomainId) :
    locals ((getEffectiveDomainId datalen data).leaves s) =
      assigned s (domainOfRequest datalen (.getEffectiveDomainId data)) := by
  unfold getEffectiveDomainId
  simp only [leaves_verifyc_bind, leaves_verifyData_bind]
  match data with
  | none => split <;> rfl
  | some ⟨none, _, _⟩ => split <;> rfl
  | some ⟨some name, n, id⟩ =>
      unfold domainOfRequest
      dsimp only
      by_cases hc : datalen = 24 ∧ n > 0 ∧ id < 4
      · rw [if_pos hc.1, if_pos hc]
        rw [if_pos hc.2]
        apply locals_setDomain
        apply keeps_bind (keeps_verifyc _ _)
        intro _
        exact keeps_bind (keeps_setReply _) (fun _ => keeps_verifyc _ _)
      · rw [if_neg hc]
        split_ifs
        · exact absurd ⟨‹_›, ‹_›⟩ hc
        all_goals rfl

theorem locals_getUri (data : Option RpcGetUri) :
    locals ((getUri datalen data).leaves s) =
      assigned s (domainOfRequest datalen (.getUri data)) := by
  unfold getUri
  simp only [leaves_verifyc_bind, leaves_verifyData_bind]
  match data with
  | none => split <;> rfl
  | some ⟨none, _, _, _, _, _, _⟩ => split <;> rfl
  | some ⟨some name, n, id, uri, m, u, l⟩ =>
      unfold domainOfRequest
      dsimp only
      by_cases hc : datalen = 48 ∧ n > 0 ∧ id < 4
      · rw [if_pos hc.1, if_pos hc]
        rw [if_pos hc.2]
        apply locals_setDomain
        apply keeps_bind (keeps_verifyc _ _)
        intro _
        apply keeps_bind (keeps_verifyData _)
        intro module_uri
        apply keeps_bind (keeps_verifyc _ _)
        intro _
        apply keeps_bind (keeps_verifyc _ _)
        intro _
        apply keeps_ite
        · intro _
          exact keeps_bind (keeps_call _) (fun _ => keeps_setReply _)
        · intro _
          exact keeps_setReply _
      · rw [if_neg hc]
        split_ifs
        · exact absurd ⟨‹_›, ‹_›⟩ hc
        all_goals rfl

/-- The switch changes no local variable but `domain`, and that one to the id of the request. -/
theorem locals_switch (req : ControlRequest) :
    locals ((switch env datalen req).leaves s) = assigned s (domainOfRequest datalen req) := by
  cases req with
  | threadParams data => exact keeps_threadParams env datalen data s
  | controlUnsignedModule data => exact keeps_controlUnsignedModule datalen data s
  | relativeThreadPriority data => exact keeps_relativeThreadPriority env datalen data s
  | remoteProcessKill data => exact locals_remoteProcessKill env datalen s data
  | sessionClose data => exact keeps_sessionClose env datalen data s
  | controlPdDump data => exact keeps_controlPdDump datalen data s
  | remoteProcessException data => exact locals_remoteProcessException env datalen s data
  | remoteProcessType data => exact locals_remoteProcessType datalen s data
  | registerStatusNotifications data =>
      exact locals_registerStatusNotifications env datalen s data
  | pdInitmemSize data => exact keeps_pdInitmemSize datalen data s
  | reserveNewSession data => exact locals_reserveNewSession datalen s data
  | getEffectiveDomainId data => exact locals_getEffectiveDomainId datalen s data
  | getUri data => exact locals_getUri datalen s data
  | contextCreate data => exact keeps_contextCreate env datalen data s
  | contextDestroy data => exact keeps_contextDestroy env datalen data s
  | unsupported req => exact keeps_call _ s

end Setting

/-! ### The balance -/

section Balance

variable (env : ControlEnv) (datalen : ℕ) (req : ControlRequest) (t : ControlTable)

theorem leaves_verify_bind {α : Type} (s : ControlState) (op : ControlTable → ℤ × ControlTable)
    (k : PUnit → ControlM α) :
    (verify op >>= k).leaves s =
      if (op s.table).1 ≠ aeeSuccess then
        { s with nErr := (op s.table).1, table := (op s.table).2 }
      else (k ⟨⟩).leaves { s with nErr := (op s.table).1, table := (op s.table).2 } := by
  unfold verify call
  rw [bind_assoc, leaves_update_bind, bind_assoc, leaves_get_bind]
  split <;> rfl

theorem leaves_getRef_bind {α : Type} (s : ControlState) (k : PUnit → ControlM α) :
    (getRef >>= k).leaves s =
      if (s.table.hlist defaultDomainId).state ≠ .deinit then
        (k ⟨⟩).leaves
          { s with
            table := s.table.takeRef defaultDomainId
            ref := true
            taken := s.taken ++ [s.domain] }
      else { s with nErr := aeeENotInitialized } := by
  unfold getRef
  rw [bind_assoc, leaves_get_bind, bind_assoc, leaves_verifyc_bind]
  rfl

/-- Whether the call takes its reference. -/
def TakesRef : Prop :=
  env.fastrpcInitOnce = aeeSuccess ∧ (t.hlist defaultDomainId).state ≠ .deinit

theorem locals_atBail_of_takesRef (h : TakesRef env t) :
    locals (atBail env datalen req t) =
      ((domainOfRequest datalen req).getD (defaultDomainId : ℕ), true,
        [((defaultDomainId : ℕ) : ℤ)], []) := by
  unfold atBail body
  rw [leaves_verify_bind, if_neg (not_not.mpr h.1), leaves_getRef_bind]
  split
  · exact locals_switch env datalen _ req
  · exact absurd h.2 ‹_›

theorem locals_atBail_of_not_takesRef (h : ¬ TakesRef env t) :
    locals (atBail env datalen req t) = (((defaultDomainId : ℕ) : ℤ), false, [], []) := by
  unfold atBail body
  rw [leaves_verify_bind]
  split
  · rfl
  · rw [leaves_getRef_bind]
    split
    · exact absurd ⟨not_not.mp ‹_›, ‹_›⟩ h
    · rfl

/-- The call gives back exactly the references that it took, each on its domain, and but for them
the counts of all domains stay as the request leaves them. -/
def Balanced : Prop :=
  (remoteSessionControl env datalen req t).released =
      (remoteSessionControl env datalen req t).taken ∧
    ∀ d : Domain, ((remoteSessionControl env datalen req t).table.hlist d).ref =
      ((atBail env datalen req t).table.hlist d).ref -
        (remoteSessionControl env datalen req t).taken.count ((d : ℕ) : ℤ)

theorem putRef_ref (u : ControlTable) (domain d : Domain) :
    ((u.putRef (domain : ℕ)).hlist d).ref =
      (u.hlist d).ref - List.count ((d : ℕ) : ℤ) [((domain : ℕ) : ℤ)] := by
  unfold ControlTable.putRef ControlTable.modify
  rw [effectiveDomain_coe]
  by_cases hd : d = domain
  · subst hd
    simp
  · have hne : ((domain : ℕ) : ℤ) ≠ ((d : ℕ) : ℤ) := by
      intro heq
      exact hd (Fin.ext (by omega))
    simp [Function.update_of_ne hd, hne]

/-- **The references of session control balance exactly when the call takes none, or `domain` still
names the default domain at `bail`**: the request assigns nothing to it, or the id of the default
domain. -/
theorem session_control_balanced :
    Balanced env datalen req t ↔
      env.fastrpcInitOnce ≠ aeeSuccess ∨ (t.hlist defaultDomainId).state = .deinit ∨
        ∀ d, domainOfRequest datalen req = some d → d = (defaultDomainId : ℕ) := by
  have hnot : env.fastrpcInitOnce ≠ aeeSuccess ∨ (t.hlist defaultDomainId).state = .deinit ↔
      ¬ TakesRef env t := by
    unfold TakesRef
    tauto
  rw [← or_assoc, hnot]
  unfold Balanced remoteSessionControl putRef
  by_cases htakes : TakesRef env t
  · have hlocals := locals_atBail_of_takesRef env datalen req t htakes
    simp only [locals, Prod.mk.injEq] at hlocals
    obtain ⟨hdomain, href, htaken, hreleased⟩ := hlocals
    rw [if_pos href, htaken, hreleased, hdomain]
    constructor
    · intro h
      refine Or.inr fun d hd => ?_
      simpa [hd] using h.1
    · intro h
      have hd : (domainOfRequest datalen req).getD (defaultDomainId : ℕ) = (defaultDomainId : ℕ) := by
        cases hreq : domainOfRequest datalen req with
        | none => rfl
        | some d => exact (h.resolve_left (not_not.mpr htakes)) d hreq
      rw [hd]
      exact ⟨rfl, fun d => putRef_ref (atBail env datalen req t).table defaultDomainId d⟩
  · have hlocals := locals_atBail_of_not_takesRef env datalen req t htakes
    simp only [locals, Prod.mk.injEq] at hlocals
    obtain ⟨-, href, htaken, hreleased⟩ := hlocals
    rw [if_neg (by rw [href]; decide), htaken, hreleased]
    exact ⟨fun _ => Or.inl htakes, fun _ => ⟨rfl, fun d => rfl⟩⟩

end Balance

/-- Operations that all succeed and change nothing. -/
def quietControl : ControlEnv where
  fastrpcInitOnce := aeeSuccess
  fastrpcSetRemoteUthreadParams _ t := (aeeSuccess, t)
  fastrpcDspProcessClean _ t := (aeeSuccess, t)
  closeDomainSession _ t := (aeeSuccess, t)
  adspCurrentProcessException _ t := (dspEBadState, t)
  isStatusNotifVersion2Supported _ t := (true, t)
  fastrpcNotifRegister _ _ t := (aeeSuccess, t)
  fastrpcCreateContext _ t := (aeeSuccess, t)
  fastrpcDestroyContext _ t := (aeeSuccess, t)

/-- The table of a process in which no domain is in use. -/
def ControlTable.start : ControlTable :=
  ⟨fun _ => ⟨0, .clean, -1, 0, false, 0, ⟨0, 0, 0, 0⟩, false, []⟩, none⟩

/-- A request to kill the process of domain 0 keeps the reference on the default domain, and one for
the domain 1000 counts down outside the table. -/
theorem process_kill_unbalanced :
    ¬ (∀ env datalen req t, Balanced env datalen req t) ∧
      (remoteSessionControl quietControl 4 (.remoteProcessKill (some ⟨0⟩)) .start).released = [0] ∧
      ((remoteSessionControl quietControl 4 (.remoteProcessKill (some ⟨0⟩)) .start).table.hlist
        defaultDomainId).ref = 1 ∧
      (remoteSessionControl quietControl 4 (.remoteProcessKill (some ⟨1000⟩)) .start).released =
        [1000] ∧
      effectiveDomain 1000 = none := by
  refine ⟨fun h => ?_, rfl, rfl, rfl, rfl⟩
  have hbalanced := (h quietControl 4 (.remoteProcessKill (some ⟨0⟩)) .start).1
  revert hbalanced
  decide

end FastRpc.SessionControl
