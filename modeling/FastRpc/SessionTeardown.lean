import FastRpc.SessionClose

/-! # Tearing a session down

`close_domain_session` closes the handles of a domain in three loops, and each loop saves the next
node of its list before it closes a handle.  The loop over `nql` takes its nodes off one by one.  The
closes of the other two loops take no node off, since they look for it by the wrong name: the nodes
of `ql` and `rql` go away only when a close of the last loop finds `domainsCount <= 1` and deinitialises
the domain, which frees them all.  If that is not the close of the last node, the loop goes on in
freed memory; and `domain_deinit` closes every reverse handle a second time.

`session_teardown` says for which lists and counters the session is torn down as it should be, where
the calls that leave the library succeed: no reverse handle is listed, and the nodes on `ql` are as
many as `domainsCount`, although `ql` also holds the constant handles, which `domainsCount` does not
count. -/

namespace FastRpc

open Transition Logged

/-! ### Loops over a list -/

section Loops

variable {env : TableEnv} (list : HandleListId) (domain : Domain)
  (body : HandleInfo → TableM env PUnit)

/-- The nodes that a loop visits, in order; `none` stands for a saved node that is no longer on the
list when the loop comes to it. -/
def visits : ℕ → ℕ → HandleTable → List (Option HandleInfo)
  | 0, _, _ => []
  | n + 1, addr, t =>
      match ((t.hlist domain).nodes list).dropWhile (fun hi => hi.addr ≠ addr) with
      | [] => [none]
      | hi :: rest =>
          some hi ::
            match rest with
            | [] => []
            | next :: _ => visits n next.addr ((body hi).after t)

/-- The nodes that the loop over one list of a domain visits. -/
def visitsAll (t : HandleTable) : List (Option HandleInfo) :=
  match (t.hlist domain).nodes list with
  | [] => []
  | hi :: rest => visits list domain body (rest.length + 1) hi.addr t

/-- What is left to visit when the nodes behind a visited one are gone. -/
def lostNodes : List HandleInfo → List (Option HandleInfo)
  | [] => []
  | _ :: _ => [none]

variable {list domain body} {I Stop : List HandleInfo → HandleTable → Prop}

/-- **Loop rule.** An invariant on the nodes still to visit, each of which may also be the last: then
the list is empty, and the loop ends there. -/
theorem forAllNextSafe_rule
    (hsuffix : ∀ l s, I l s → l <:+ (s.hlist domain).nodes list ∧ s.NodesApart)
    (hstop : ∀ l s, Stop l s → (s.hlist domain).nodes list = [])
    (hbody : ∀ hi rest s, I (hi :: rest) s →
      I rest ((body hi).after s) ∨ Stop rest ((body hi).after s)) (n : ℕ) :
    ∀ hi rest s, rest.length < n → I (hi :: rest) s →
      (I [] ((forAllNextSafe list domain body n hi.addr).after s) ∧
        visits list domain body n hi.addr s = (hi :: rest).map some) ∨
      ∃ pre next, pre ++ next = hi :: rest ∧
        Stop next ((forAllNextSafe list domain body n hi.addr).after s) ∧
        visits list domain body n hi.addr s = pre.map some ++ lostNodes next := by
  induction n with
  | zero => exact fun hi rest s hlt => absurd hlt (Nat.not_lt_zero _)
  | succ n ih =>
      intro hi rest s hlt h
      obtain ⟨hsub, hapart⟩ := hsuffix _ s h
      have hdrop := dropWhile_of_suffix (hapart domain list) hsub
      rw [forAllNextSafe, after_read_bind, visits, hdrop]
      dsimp only
      rw [after_bind]
      cases rest with
      | nil =>
          rcases hbody hi [] s h with hnext | hend
          · exact .inl ⟨hnext, rfl⟩
          · exact .inr ⟨[hi], [], rfl, hend, rfl⟩
      | cons next rest =>
          rcases hbody hi (next :: rest) s h with hnext | hend
          · rcases ih next rest _ (Nat.lt_of_succ_lt_succ hlt) hnext with ⟨hall, hvisits⟩ |
              ⟨pre, suf, hpre, hstopped, hvisits⟩
            · exact .inl ⟨hall, congrArg (some hi :: ·) hvisits⟩
            · exact .inr ⟨hi :: pre, suf, congrArg (hi :: ·) hpre, hstopped,
                congrArg (some hi :: ·) hvisits⟩
          · obtain ⟨k, rfl⟩ := Nat.exists_eq_succ_of_ne_zero (Nat.ne_of_gt (Nat.zero_lt_of_lt
              (Nat.lt_of_succ_lt_succ hlt)))
            have hnil := hstop _ _ hend
            refine .inr ⟨[hi], next :: rest, rfl, ?_, ?_⟩
            · dsimp only
              rw [forAllNextSafe, after_read_bind, hnil]
              exact hend
            · dsimp only
              rw [visits, hnil]
              rfl

theorem forAllNodes_rule
    (hsuffix : ∀ l s, I l s → l <:+ (s.hlist domain).nodes list ∧ s.NodesApart)
    (hstop : ∀ l s, Stop l s → (s.hlist domain).nodes list = [])
    (hbody : ∀ hi rest s, I (hi :: rest) s →
      I rest ((body hi).after s) ∨ Stop rest ((body hi).after s))
    {t : HandleTable} (h : I ((t.hlist domain).nodes list) t) :
    (I [] ((forAllNodes list domain body).after t) ∧
      visitsAll list domain body t = ((t.hlist domain).nodes list).map some) ∨
    ∃ pre next, pre ++ next = (t.hlist domain).nodes list ∧
      Stop next ((forAllNodes list domain body).after t) ∧
      visitsAll list domain body t = pre.map some ++ lostNodes next := by
  rw [forAllNodes, after_read_bind, visitsAll]
  cases hnodes : (t.hlist domain).nodes list with
  | nil =>
      rw [hnodes] at h
      exact .inl ⟨h, rfl⟩
  | cons hi rest =>
      rw [hnodes] at h
      exact forAllNextSafe_rule hsuffix hstop hbody (rest.length + 1) hi rest t
        (Nat.lt_succ_self _) h

/-- A loop in which no turn ends the list visits all its nodes. -/
theorem forAllNodes_all
    (hsuffix : ∀ l s, I l s → l <:+ (s.hlist domain).nodes list ∧ s.NodesApart)
    (hbody : ∀ hi rest s, I (hi :: rest) s → I rest ((body hi).after s)) {t : HandleTable}
    (h : I ((t.hlist domain).nodes list) t) :
    I [] ((forAllNodes list domain body).after t) ∧
      visitsAll list domain body t = ((t.hlist domain).nodes list).map some := by
  rcases forAllNodes_rule hsuffix (fun _ _ => False.elim)
    (fun hi rest s hs => .inl (hbody hi rest s hs)) h with hall | ⟨_, _, _, hfalse, _⟩
  · exact hall
  · exact hfalse.elim

end Loops

section Parts

variable {env : TableEnv} {nodes : ℕ} {domain : Domain} {t : HandleTable}

/-- The loop over the handles that were opened without a domain. -/
def closeNonDomain (domain : Domain) : TableM env PUnit :=
  forAllNodes .nonDomain domain (fun hi => discard (remoteHandleClose (hi.remote % 2 ^ 32)))

/-- The loop over the reverse handles. -/
def closeReverse (domain : Domain) : TableM env PUnit :=
  forAllNodes .reverse domain (fun hi => discard (closeReverseHandle hi.addr))

/-- The loop over the other handles of the domain. -/
def closeMultiDomain (domain : Domain) : TableM env PUnit :=
  forAllNodes .multiDomain domain (fun hi => discard (remoteHandle64Close hi.addr))

/-! ### The handles opened without a domain -/

/-- The `handle_list` in the loop over `nql`, with the nodes `l` still to visit: the first close may
have put a node for `remotectl1` on `ql`. -/
structure NonDomainLoop (l : List HandleInfo) (hl hl' : HandleList) : Prop where
  nql : hl'.nql = l
  length_le : l.length ≤ hl.nql.length
  ql : hl.ql <:+ hl'.ql
  length : hl'.ql.length = hl.ql.length +
    if l.length < hl.nql.length ∧ hl.remotectlhandle = 0 then 1 else 0
  remotectl : hl'.remotectlhandle = 0 ↔ l.length = hl.nql.length ∧ hl.remotectlhandle = 0
  rql : hl'.rql = hl.rql
  dev : hl'.dev = hl.dev
  domainsCount : hl'.domainsCount = hl.domainsCount
  nondomainsCount : (hl'.nondomainsCount + hl.nql.length) % 2 ^ 32 =
    (hl.nondomainsCount + l.length) % 2 ^ 32

theorem nonDomainLoop_start (hl : HandleList) : NonDomainLoop hl.nql hl hl where
  nql := rfl
  length_le := le_rfl
  ql := List.suffix_refl _
  length := by simp
  remotectl := by simp
  rql := rfl
  dev := rfl
  domainsCount := rfl
  nondomainsCount := rfl

theorem nonDomainLoop_step {hl hl' mid : HandleList} {hi : HandleInfo} {rest : List HandleInfo}
    (h : NonDomainLoop (hi :: rest) hl hl') (hasked : AskedFor .remotectlhandle hl' mid) :
    NonDomainLoop rest hl (mid.dequeue .nonDomain hi.remote) := by
  have hlength := h.length_le
  rw [List.length_cons] at hlength
  have hcached : mid.remotectlhandle ≠ 0 := hasked.cached
  constructor
  case nql =>
    change fastrpcFreeHandle mid.nql hi.remote = rest
    rw [hasked.nql, h.nql, free_cons_same rfl]
  case length_le => omega
  case ql => exact h.ql.trans hasked.ql
  case length =>
    have hmid : mid.ql.length = hl'.ql.length + if hl'.remotectlhandle = 0 then 1 else 0 :=
      hasked.length
    have hbefore := h.length
    have hfirst := h.remotectl
    change mid.ql.length = _
    simp only [List.length_cons] at hbefore hfirst
    split_ifs at hmid hbefore ⊢ <;> omega
  case remotectl => exact iff_of_false hcached (by omega)
  case rql => exact hasked.rql.trans h.rql
  case dev => exact hasked.dev.trans h.dev
  case domainsCount => exact hasked.domainsCount.trans h.domainsCount
  case nondomainsCount =>
    have hcount := h.nondomainsCount
    change (subU32 mid.nondomainsCount 1 + _) % _ = _
    rw [hasked.nondomainsCount, subU32]
    rw [List.length_cons] at hcount
    omega

theorem closeNonDomain_spec (h : AtClose env nodes domain t) (hcontext : t.tlsKey = some domain) :
    AtClose env nodes domain ((@closeNonDomain env domain).after t) ∧
      Works domain (NonDomainLoop []) t ((@closeNonDomain env domain).after t) ∧
      visitsAll .nonDomain domain (fun hi => discard (@remoteHandleClose env (hi.remote % 2 ^ 32))) t =
        (t.hlist domain).nql.map some := by
  have hrule := @forAllNodes_all env .nonDomain domain
    (fun hi => discard (remoteHandleClose (hi.remote % 2 ^ 32)))
    (fun l s => AtClose env nodes domain s ∧ Works domain (NonDomainLoop l) t s) ?_ ?_ t ?_
  · exact ⟨hrule.1.1, hrule.1.2, hrule.2⟩
  · rintro l s ⟨hs, hworks⟩
    exact ⟨hworks.own.nql ▸ List.suffix_refl _, hs.apart⟩
  · rintro hi rest s ⟨hs, hworks⟩
    have hremote := hs.closable.nonDomain hi (hworks.own.nql ▸ List.mem_cons_self)
    have hmod : hi.remote % 2 ^ 32 = hi.remote := Nat.mod_eq_of_lt (by omega)
    obtain ⟨hclose, hdone⟩ := remoteHandleClose_atClose hs (hworks.context.trans hcontext)
      (r := hi.remote) (by omega)
    rw [hmod, after_discard]
    obtain ⟨mid, hasked, hdequeue⟩ := hdone.own
    refine ⟨hclose, ?_, (hworks.trans hdone).others, (hworks.trans hdone).context⟩
    rw [hdequeue]
    exact nonDomainLoop_step hworks.own hasked
  · exact ⟨h, nonDomainLoop_start _, fun _ _ => rfl, rfl⟩

/-! ### The reverse handles -/

/-- Only the list of the reverse handles and its counter change. -/
def OnlyReverse (hl hl' : HandleList) : Prop :=
  ∃ l k, hl' = { hl with rql := l, reverseCount := k }

theorem closeReverse_spec (h : AtClose env nodes domain t) (hcontext : t.tlsKey = some domain) :
    AtClose env nodes domain ((@closeReverse env domain).after t) ∧
      Works domain OnlyReverse t ((@closeReverse env domain).after t) := by
  have hkeeps : Keeps (fun _ _ => True)
      (fun s => AtClose env nodes domain s ∧ Works domain OnlyReverse t s)
      (@closeReverse env domain) := by
    apply keeps_forAllNodes
    intro hi
    constructor
    rintro s ⟨hs, hworks⟩ -
    obtain ⟨hclose, hdone⟩ := appsRemotectlClose_atClose hs (hworks.context.trans hcontext)
      (hi.addr % 2 ^ 32)
    rw [after_discard]
    refine ⟨hclose, ?_, (hworks.trans hdone).others, (hworks.trans hdone).context⟩
    obtain ⟨l, k, hbefore⟩ := hworks.own
    rw [show (((@closeReverseHandle env hi.addr).after s).hlist domain) = _ from hdone.own, hbefore]
    exact ⟨_, _, rfl⟩
  exact hkeeps.run t ⟨h, ⟨_, _, rfl⟩, fun _ _ => rfl, rfl⟩
    (guarded_of_forall (fun _ _ => trivial) _ _)

/-! ### The other handles -/

/-- The `handle_list` in the loop over `ql`, with the nodes `l` still to visit. -/
structure MultiDomainLoop (l : List HandleInfo) (hl hl' : HandleList) : Prop where
  suffix : l <:+ hl.ql
  ql : hl.ql <:+ hl'.ql
  nql : hl'.nql = hl.nql
  rql : hl'.rql = hl.rql
  dev : hl'.dev = hl.dev
  nondomainsCount : hl'.nondomainsCount = hl.nondomainsCount
  domainsCount : hl.nondomainsCount = 0 →
    hl'.domainsCount + hl.ql.length = hl.domainsCount + l.length ∧
      (l.length < hl.ql.length → 0 < hl'.domainsCount)

/-- The session has ended in the loop over `ql`, with the nodes `rest` still to visit. -/
structure EndedBefore (rest : List HandleInfo) (hl hl' : HandleList) : Prop where
  ended : SessionEnded hl hl'
  nondomainsCount : hl.nondomainsCount = 0
  domainsCount : max hl.domainsCount 1 + rest.length = hl.ql.length

theorem startDeinit_iff (t : HandleTable) (domain : Domain) : t.startDeinit domain = true ↔
    (t.hlist domain).domainsCount ≤ 1 ∧ (t.hlist domain).nondomainsCount = 0 := by
  simp [HandleTable.startDeinit]

theorem multiDomainLoop_goesOn {hl hl' mid : HandleList} {hi : HandleInfo} {rest : List HandleInfo}
    (h : MultiDomainLoop (hi :: rest) hl hl') (hmid : mid = hl' ∨ AskedFor .remotectlhandle hl' mid)
    (hlt : hl'.domainsCount < 2 ^ 32)
    (hnot : ¬ (hl'.domainsCount ≤ 1 ∧ hl'.nondomainsCount = 0)) :
    MultiDomainLoop rest hl { mid with domainsCount := subU32 mid.domainsCount 1 } := by
  have hsame : hl'.ql <:+ mid.ql ∧ mid.nql = hl'.nql ∧ mid.rql = hl'.rql ∧ mid.dev = hl'.dev ∧
      mid.nondomainsCount = hl'.nondomainsCount ∧ mid.domainsCount = hl'.domainsCount := by
    rcases hmid with rfl | hasked
    · exact ⟨List.suffix_refl _, rfl, rfl, rfl, rfl, rfl⟩
    · exact ⟨hasked.ql, hasked.nql, hasked.rql, hasked.dev, hasked.nondomainsCount,
        hasked.domainsCount⟩
  obtain ⟨hql, hnql, hrql, hdev, hnon, hcount⟩ := hsame
  refine ⟨(List.suffix_cons hi rest).trans h.suffix, h.ql.trans hql, hnql.trans h.nql,
    hrql.trans h.rql, hdev.trans h.dev, hnon.trans h.nondomainsCount, fun hzero => ?_⟩
  obtain ⟨hsum, -⟩ := h.domainsCount hzero
  have htwo : 2 ≤ hl'.domainsCount := by
    by_contra hlow
    exact hnot ⟨by omega, h.nondomainsCount.trans hzero⟩
  have hsub : subU32 mid.domainsCount 1 = hl'.domainsCount - 1 := by
    rw [hcount, subU32_of_le (by omega) hlt]
  change subU32 mid.domainsCount 1 + _ = _ ∧ (_ → 0 < subU32 mid.domainsCount 1)
  rw [List.length_cons] at hsum
  rw [hsub]
  omega

theorem multiDomainLoop_ends {hl hl' hl'' : HandleList} {hi : HandleInfo} {rest : List HandleInfo}
    (h : MultiDomainLoop (hi :: rest) hl hl') (hend : SessionEnded hl' hl'')
    (hlast : hl'.domainsCount ≤ 1 ∧ hl'.nondomainsCount = 0) : EndedBefore rest hl hl'' := by
  have hzero := h.nondomainsCount.symm.trans hlast.2
  obtain ⟨hsum, hpos⟩ := h.domainsCount hzero
  have hlength := h.suffix.length_le
  rw [List.length_cons] at hsum hpos hlength
  refine ⟨⟨hend.dev, hend.ql, ?_, hend.rql⟩, hzero, by omega⟩
  rw [← h.nql]
  exact hend.nql

theorem closeMultiDomain_spec (h : AtClose env nodes domain t) (hcontext : t.tlsKey = some domain)
    (hdev : (t.hlist domain).dev ≠ -1) :
    (AtClose env nodes domain ((@closeMultiDomain env domain).after t) ∧
      Works domain (MultiDomainLoop []) t ((@closeMultiDomain env domain).after t) ∧
      visitsAll .multiDomain domain (fun hi => discard (@remoteHandle64Close env hi.addr)) t =
        (t.hlist domain).ql.map some) ∨
    ∃ pre next, pre ++ next = (t.hlist domain).ql ∧
      Works domain (EndedBefore next) t ((@closeMultiDomain env domain).after t) ∧
      visitsAll .multiDomain domain (fun hi => discard (@remoteHandle64Close env hi.addr)) t =
        pre.map some ++ lostNodes next := by
  have hrule := @forAllNodes_rule env .multiDomain domain
    (fun hi => discard (remoteHandle64Close hi.addr))
    (fun l s => AtClose env nodes domain s ∧ Works domain (MultiDomainLoop l) t s)
    (fun l s => Works domain (EndedBefore l) t s) ?_ ?_ ?_ t ?_
  · exact hrule.imp_left (fun ⟨⟨hclose, hworks⟩, hvisits⟩ => ⟨hclose, hworks, hvisits⟩)
  · rintro l s ⟨hs, hworks⟩
    exact ⟨hworks.own.suffix.trans hworks.own.ql, hs.apart⟩
  · exact fun l s hs => hs.own.ended.ql
  · rintro hi rest s ⟨hs, hworks⟩
    have hmem : hi ∈ (s.hlist domain).ql :=
      (hworks.own.suffix.trans hworks.own.ql).subset List.mem_cons_self
    have hcontext' := hworks.context.trans hcontext
    rw [after_discard]
    by_cases hlast : s.startDeinit domain = true
    · have hdev' : (s.hlist domain).dev ≠ -1 := by rwa [hworks.own.dev]
      have hend := remoteHandle64Close_ends hs hcontext' hmem hdev' hlast
      exact .inr ⟨multiDomainLoop_ends hworks.own hend.own ((startDeinit_iff s domain).mp hlast),
        (hworks.trans hend).others, (hworks.trans hend).context⟩
    · obtain ⟨hclose, hdone⟩ := remoteHandle64Close_goesOn hs hcontext' hmem (by simpa using hlast)
      obtain ⟨mid, hmid, hcount⟩ := hdone.own
      refine .inl ⟨hclose, ?_, (hworks.trans hdone).others, (hworks.trans hdone).context⟩
      rw [hcount]
      exact multiDomainLoop_goesOn hworks.own hmid (hs.counts domain .multiDomain 0x100)
        (mt (startDeinit_iff s domain).mpr hlast)
  · refine ⟨h, ⟨List.suffix_refl _, List.suffix_refl _, rfl, rfl, rfl, rfl, fun _ => ?_⟩,
      fun _ _ => rfl, rfl⟩
    exact ⟨rfl, fun hlt => absurd hlt (lt_irrefl _)⟩

end Parts

/-! ### The whole call -/

section Call

variable (env : TableEnv) (t : HandleTable) (domain : Domain)

/-- The table when the loop over `nql` starts. -/
def atNonDomain : HandleTable := (@exitProcess env domain).after t

/-- The table when the loop over the reverse handles starts. -/
def atReverse : HandleTable := (@closeNonDomain env domain).after (atNonDomain env t domain)

/-- The table when the loop over `ql` starts. -/
def atMultiDomain : HandleTable := (@closeReverse env domain).after (atReverse env t domain)

/-- The number of nodes on `ql` when its loop starts: there may be new ones for
`adsp_current_process1` and for `remotectl1`. -/
def HandleList.nodesToClose (hl : HandleList) : ℕ :=
  hl.ql.length + (if hl.cphandle = 0 then 1 else 0) +
    if hl.nql ≠ [] ∧ hl.remotectlhandle = 0 then 1 else 0

/-- The `handle_list` when the loop over `ql` starts. -/
structure Prepared (hl hl' : HandleList) : Prop where
  ql : hl.ql <:+ hl'.ql
  length : hl'.ql.length = hl.nodesToClose
  nonempty : hl'.ql ≠ []
  nql : hl'.nql = []
  dev : hl'.dev = hl.dev
  domainsCount : hl'.domainsCount = hl.domainsCount
  nondomainsCount : hl'.nondomainsCount = 0 ↔ hl.nondomainsCount = hl.nql.length % 2 ^ 32

variable {env t domain} {nodes : ℕ}

theorem prepared_of_parts {hl hl₁ hl₂ hl₃ : HandleList} (hasked : AskedFor .cphandle hl hl₁)
    (hloop : NonDomainLoop [] hl₁ hl₂) (hreverse : OnlyReverse hl₂ hl₃) (hne : hl₁.ql ≠ [])
    (hlt : hl.nondomainsCount < 2 ^ 32) (hlt' : hl₂.nondomainsCount < 2 ^ 32) :
    Prepared hl hl₃ := by
  obtain ⟨l, k, rfl⟩ := hreverse
  have hremotectl : hl₁.remotectlhandle = hl.remotectlhandle := hasked.slots .remotectlhandle (by simp)
  constructor
  case ql => exact hasked.ql.trans hloop.ql
  case length =>
    have hnew : hl₁.ql.length = hl.ql.length + if hl.cphandle = 0 then 1 else 0 := hasked.length
    have hlength := hloop.length
    simp only [hremotectl, hasked.nql, List.length_nil, List.length_pos_iff] at hlength
    change hl₂.ql.length = _
    rw [hlength, hnew, HandleList.nodesToClose]
  case nonempty =>
    intro hnil
    exact hne (List.suffix_nil.mp (hnil ▸ hloop.ql))
  case nql => exact hloop.nql
  case dev => exact hloop.dev.trans hasked.dev
  case domainsCount => exact hloop.domainsCount.trans hasked.domainsCount
  case nondomainsCount =>
    have hcount := hloop.nondomainsCount
    rw [hasked.nql, hasked.nondomainsCount, List.length_nil, Nat.add_zero,
      Nat.mod_eq_of_lt hlt] at hcount
    change hl₂.nondomainsCount = 0 ↔ _
    omega

/-- `close_domain_session` for a domain with a session. -/
theorem closeDomainSession_eq (hdev : (t.hlist domain).dev ≠ -1) :
    (@closeDomainSession env domain) t = (@exitProcess env domain >>= fun _ => do
      closeNonDomain domain
      closeReverse domain
      closeMultiDomain domain
      return aeeSuccess) t := by
  rw [closeDomainSession, read_bind, if_neg hdev]
  exact exitProcess_bind _

theorem closeDomainSession_after (hdev : (t.hlist domain).dev ≠ -1) :
    (@closeDomainSession env domain).after t =
      (@closeMultiDomain env domain).after (atMultiDomain env t domain) := by
  rw [after_of_eq t (closeDomainSession_eq hdev), after_bind, after_bind, after_bind, after_bind,
    after_pure, atMultiDomain, atReverse, atNonDomain]

theorem closeDomainSession_val (hdev : (t.hlist domain).dev ≠ -1) :
    (@closeDomainSession env domain).val t = aeeSuccess := by
  rw [val_of_eq t (closeDomainSession_eq hdev), val_bind, val_bind, val_bind, val_bind]
  rfl

theorem atMultiDomain_spec (h : AtClose env nodes domain t) :
    AtClose env nodes domain (atMultiDomain env t domain) ∧
      Prepared (t.hlist domain) ((atMultiDomain env t domain).hlist domain) ∧
      (∀ d, d ≠ domain → (atMultiDomain env t domain).hlist d = t.hlist d) ∧
      (atMultiDomain env t domain).tlsKey = some domain := by
  obtain ⟨hexit, hasked, hothers, hcontext⟩ := exitProcess_atClose h
  obtain ⟨hnon, hnonworks, -⟩ := closeNonDomain_spec hexit hcontext
  obtain ⟨hrev, hrevworks⟩ := closeReverse_spec hnon (hnonworks.context.trans hcontext)
  have hworks := hnonworks.trans hrevworks
  refine ⟨hrev, ?_, fun d hne => (hworks.others d hne).trans (hothers d hne),
    hworks.context.trans hcontext⟩
  obtain ⟨n, hn, -⟩ := hexit.closable.process.resolve_left hasked.cached
  exact prepared_of_parts hasked hnonworks.own hrevworks.own (List.ne_nil_of_mem hn)
    (h.counts domain .nonDomain 0) (hnon.counts domain .nonDomain 0)

/-- The last loop ends the session: the handles opened without a domain are as many as the counter
says, and the others are not fewer. -/
def HandleList.EndsSession (hl : HandleList) : Prop :=
  hl.nondomainsCount = hl.nql.length % 2 ^ 32 ∧ hl.domainsCount ≤ hl.nodesToClose

instance (hl : HandleList) : Decidable hl.EndsSession := inferInstanceAs (Decidable (_ ∧ _))

/-- **What `close_domain_session` does.** It ends the session or leaves it open, and touches no other
domain. -/
theorem closeDomainSession_spec (h : AtClose env nodes domain t)
    (hdev : (t.hlist domain).dev ≠ -1) :
    (∀ d, d ≠ domain → ((@closeDomainSession env domain).after t).hlist d = t.hlist d) ∧
      ((@closeDomainSession env domain).after t).live.length ≤ nodes ∧
      if (t.hlist domain).EndsSession then
        (((@closeDomainSession env domain).after t).hlist domain).dev = -1 ∧
          ∀ list, (((@closeDomainSession env domain).after t).hlist domain).nodes list = []
      else (((@closeDomainSession env domain).after t).hlist domain).dev ≠ -1 := by
  obtain ⟨hclose, hprepared, hothers, hcontext⟩ := atMultiDomain_spec h
  rw [closeDomainSession_after hdev]
  rcases closeMultiDomain_spec hclose hcontext (by rwa [hprepared.dev]) with ⟨hend, hworks, -⟩ |
    ⟨pre, next, -, hworks, -⟩
  · refine ⟨fun d hne => (hworks.others d hne).trans (hothers d hne),
      (Nat.le_add_right _ _).trans hend.room, ?_⟩
    rw [if_neg]
    · rw [hworks.own.dev, hprepared.dev]
      exact hdev
    · rintro ⟨hnon, hcount⟩
      obtain ⟨hsum, hpos⟩ := hworks.own.domainsCount (hprepared.nondomainsCount.mpr hnon)
      have hlength := hprepared.length
      have hne := List.length_pos_iff.mpr hprepared.nonempty
      have hlast := hpos hne
      rw [List.length_nil, hprepared.domainsCount] at hsum
      omega
  · have hend := hworks.own.ended
    have hempty : ∀ list, (((@closeMultiDomain env domain).after
        (atMultiDomain env t domain)).hlist domain).nodes list = [] := by
      intro list
      cases list with
      | multiDomain => exact hend.ql
      | nonDomain => exact hend.nql.elim (fun hsame => hsame.trans hprepared.nql) id
      | reverse => exact hend.rql
    have hothers' := fun d hne => (hworks.others d hne).trans (hothers d hne)
    refine ⟨hothers', ?_, ?_⟩
    · have hlive := live_length_others hothers'
      have hzero : (((@closeMultiDomain env domain).after
          (atMultiDomain env t domain)).hlist domain).nodeCount = 0 := by
        rw [HandleList.nodeCount, show HandleList.ql _ = [] from hempty .multiDomain,
          show HandleList.nql _ = [] from hempty .nonDomain,
          show HandleList.rql _ = [] from hempty .reverse]
        rfl
      have hroom := h.room
      omega
    · rw [if_pos]
      · exact ⟨hend.dev, hempty⟩
      · have hcount := hworks.own.domainsCount
        have hlength := hprepared.length
        rw [hprepared.domainsCount] at hcount
        exact ⟨hprepared.nondomainsCount.mp hworks.own.nondomainsCount, by omega⟩

/-! ### The property and the condition -/

section Property

variable (env : TableEnv) (t : HandleTable) (domain : Domain)

/-- The session is torn down: each loop visits the nodes of its list, each once, and finds none of
them freed; no reverse handle is left for `domain_deinit` to close again; and the lists are empty in
the end. -/
structure TornDown : Prop where
  nonDomain : visitsAll .nonDomain domain
    (fun hi => discard (@remoteHandleClose env (hi.remote % 2 ^ 32))) (atNonDomain env t domain) =
      (t.hlist domain).nql.map some
  reverse : visitsAll .reverse domain (fun hi => discard (@closeReverseHandle env hi.addr))
    (atReverse env t domain) = (t.hlist domain).rql.map some
  listed : (t.hlist domain).ql ⊆ ((atMultiDomain env t domain).hlist domain).ql
  multiDomain : visitsAll .multiDomain domain (fun hi => discard (@remoteHandle64Close env hi.addr))
    (atMultiDomain env t domain) = ((atMultiDomain env t domain).hlist domain).ql.map some
  once : ((atMultiDomain env t domain).hlist domain).rql = []
  empty : ∀ list, (((@closeDomainSession env domain).after t).hlist domain).nodes list = []

end Property

/-- **The condition.** No reverse handle is listed, the handles opened without a domain are as many as
their counter says, and the close of the last node on `ql` is the one that ends the session. -/
def HandleList.EndsWithLastNode (hl : HandleList) : Prop :=
  hl.rql = [] ∧ hl.nondomainsCount = hl.nql.length % 2 ^ 32 ∧
    max hl.domainsCount 1 = hl.nodesToClose

/-- Reverse handles whose remote ids are not the low halves of node addresses stay listed. -/
theorem closeReverse_stays (h : AtClose env nodes domain t) (hcontext : t.tlsKey = some domain)
    (hnames : ∀ m ∈ (t.hlist domain).rql, ∀ n ∈ (t.hlist domain).rql, m.remote ≠ n.addr % 2 ^ 32) :
    (((@closeReverse env domain).after t).hlist domain).rql = (t.hlist domain).rql := by
  have hrule := @forAllNodes_all env .reverse domain
    (fun hi => discard (closeReverseHandle hi.addr))
    (fun l s => AtClose env nodes domain s ∧
      Works domain (fun hl hl' => l <:+ hl.rql ∧ hl'.rql = hl.rql) t s) ?_ ?_ t ?_
  · exact hrule.1.2.own.2
  · rintro l s ⟨hs, hworks⟩
    refine ⟨?_, hs.apart⟩
    change l <:+ (s.hlist domain).rql
    rw [hworks.own.2]
    exact hworks.own.1
  · rintro hi rest s ⟨hs, hworks⟩
    obtain ⟨hclose, hdone⟩ := appsRemotectlClose_atClose hs (hworks.context.trans hcontext)
      (hi.addr % 2 ^ 32)
    rw [after_discard]
    refine ⟨hclose, ⟨(List.suffix_cons hi rest).trans hworks.own.1, ?_⟩,
      (hworks.trans hdone).others, (hworks.trans hdone).context⟩
    rw [show ((@closeReverseHandle env hi.addr).after s).hlist domain = _ from hdone.own]
    change fastrpcFreeHandle (s.hlist domain).rql _ = _
    rw [hworks.own.2]
    apply fastrpcFreeHandle_of_notMem
    rintro ⟨m, hm, hr⟩
    exact hnames m hm hi (hworks.own.1.subset List.mem_cons_self) hr
  · exact ⟨h, ⟨List.suffix_refl _, rfl⟩, fun _ _ => rfl, rfl⟩

/-- What is lost is no node. -/
theorem map_some_append_lostNodes {pre next : List HandleInfo} :
    pre.map some ++ lostNodes next = (pre ++ next).map some ↔ next = [] := by
  rw [List.map_append, List.append_cancel_left_eq]
  cases next with
  | nil => simp [lostNodes]
  | cons n next => simp [lostNodes]

theorem tornDown_iff (h : AtClose env nodes domain t) (hdev : (t.hlist domain).dev ≠ -1)
    (hnames : ∀ m ∈ (t.hlist domain).rql, ∀ n ∈ (t.hlist domain).rql, m.remote ≠ n.addr % 2 ^ 32) :
    TornDown env t domain ↔ (t.hlist domain).EndsWithLastNode := by
  obtain ⟨hexit, hasked, -, hcontext⟩ := exitProcess_atClose h
  obtain ⟨hnon, hnonworks, hnonvisits⟩ := closeNonDomain_spec hexit hcontext
  have hrql : ((atReverse env t domain).hlist domain).rql = (t.hlist domain).rql :=
    hnonworks.own.rql.trans hasked.rql
  have hstays : ((atMultiDomain env t domain).hlist domain).rql = (t.hlist domain).rql :=
    (closeReverse_stays hnon (hnonworks.context.trans hcontext) (hrql.symm ▸ hnames)).trans hrql
  obtain ⟨hclose, hprepared, -, hcontext'⟩ := atMultiDomain_spec h
  have hmulti := closeMultiDomain_spec hclose hcontext' (by rwa [hprepared.dev])
  have hlength := hprepared.length
  constructor
  · intro htorn
    have hnil : (t.hlist domain).rql = [] := hstays.symm.trans htorn.once
    rcases hmulti with ⟨-, hworks, -⟩ | ⟨pre, next, hpre, hworks, hvisits⟩
    · have hempty := htorn.empty .multiDomain
      rw [closeDomainSession_after hdev] at hempty
      have hsuffix := hworks.own.ql
      rw [show HandleList.ql _ = [] from hempty] at hsuffix
      exact absurd (List.suffix_nil.mp hsuffix) hprepared.nonempty
    · have hall := htorn.multiDomain
      rw [hvisits, ← hpre, map_some_append_lostNodes] at hall
      have hcount := hworks.own.domainsCount
      rw [hall, List.length_nil, hprepared.domainsCount] at hcount
      exact ⟨hnil, hprepared.nondomainsCount.mp hworks.own.nondomainsCount, hcount.trans hlength⟩
  · rintro ⟨hnil, hnondomains, hlast⟩
    have hends : (t.hlist domain).EndsSession := ⟨hnondomains, by omega⟩
    obtain ⟨-, -, hspec⟩ := closeDomainSession_spec h hdev
    rw [if_pos hends] at hspec
    refine ⟨?_, ?_, hprepared.ql.subset, ?_, hstays.trans hnil, hspec.2⟩
    · rw [← hasked.nql]
      exact hnonvisits
    · rw [visitsAll, show HandleList.nodes _ .reverse = [] from hrql.trans hnil, hnil]
      rfl
    · rcases hmulti with ⟨-, hworks, -⟩ | ⟨pre, next, hpre, hworks, hvisits⟩
      · rw [closeDomainSession_after hdev, hworks.own.dev, hprepared.dev] at hspec
        exact absurd hspec.1 hdev
      · have hcount := hworks.own.domainsCount
        rw [hprepared.domainsCount] at hcount
        rw [hvisits, ← hpre, map_some_append_lostNodes]
        exact List.length_eq_zero_iff.mp (by omega)

end Call

/-! ### Reachable tables -/

/-- The first place, of places in equal distances, that no live block has. -/
def firstFree (used : List ℕ) : Option ℕ :=
  ((List.range (used.length + 1)).map (fun k => 0x1000 + 16 * k)).find?
    (fun addr => addr ∉ used ∧ addr + 1 < 2 ^ 64)

theorem firstFree_spec {used : List ℕ} {addr : ℕ} (h : firstFree used = some addr) :
    addr ∉ used ∧ 0x1000 ≤ addr ∧ addr + 1 < 2 ^ 64 := by
  have hfree := List.find?_some h
  obtain ⟨k, -, rfl⟩ := List.mem_map.mp (List.mem_of_find?_eq_some h)
  have hboth : 0x1000 + 16 * k ∉ used ∧ 0x1000 + 16 * k + 1 < 2 ^ 64 := of_decide_eq_true hfree
  exact ⟨hboth.1, Nat.le_add_right _ _, hboth.2⟩

theorem firstFree_isSome {used : List ℕ} (hlt : used.length < 2 ^ 32) :
    (firstFree used).isSome = true := by
  rw [firstFree, List.find?_isSome]
  by_contra hnone
  have hsubset : (List.range (used.length + 1)).map (fun k => 0x1000 + 16 * k) ⊆ used := by
    intro addr hmem
    by_contra hfree
    obtain ⟨k, hk, rfl⟩ := List.mem_map.mp hmem
    have hle := List.mem_range.mp hk
    exact hnone ⟨_, hmem, decide_eq_true ⟨hfree, by omega⟩⟩
  have hnd : ((List.range (used.length + 1)).map (fun k => 0x1000 + 16 * k)).Nodup :=
    List.nodup_range.map (fun a b hab => by omega)
  have hlength := (hnd.subperm hsubset).length_le
  rw [List.length_map, List.length_range] at hlength
  omega

/-- Surroundings in which every call succeeds, and there is memory from the `start`-th call on. -/
def spacedEnv (ids : ℕ → ℕ) (start : ℕ) : TableEnv where
  answer i := { handle := some (ids i), dev := 3 }
  calloc i used := if i < start then none else firstFree used
  calloc_fresh := by
    intro i used addr h
    split at h
    · cases h
    · obtain ⟨hfree, hlow, hhigh⟩ := firstFree_spec h
      exact ⟨hfree, by omega, hhigh⟩

section Spaced

variable (ids : ℕ → ℕ) {start n : ℕ}

theorem servesFrom_spaced : ServesFrom (spacedEnv ids start) n :=
  ⟨fun _ _ => rfl, fun _ _ => rfl, fun _ _ => rfl⟩

theorem memoryFrom_spaced {nodes : ℕ} (hstart : start ≤ n) (hnodes : nodes ≤ 2 ^ 32) :
    MemoryFrom (spacedEnv ids start) n nodes := by
  intro i used hi hlt
  change (if i < start then none else firstFree used).isSome = true
  rw [if_neg (by omega)]
  exact firstFree_isSome (by omega)

/-- Small remote ids are no addresses. -/
theorem fresh_spaced {l : List HandleInfo} (hsmall : ∀ m ∈ l, m.remote < 0x1000) :
    ∀ m ∈ l, ∀ i used, (spacedEnv ids start).calloc i used ≠ some m.remote := by
  intro m hm i used hcalloc
  change (if i < start then none else firstFree used) = some m.remote at hcalloc
  split at hcalloc
  · cases hcalloc
  · have hlow := (firstFree_spec hcalloc).2.1
    have hid := hsmall m hm
    omega

end Spaced

instance (hl : HandleList) : Decidable hl.EndsWithLastNode := inferInstanceAs (Decidable (_ ∧ _ ∧ _))

end FastRpc
