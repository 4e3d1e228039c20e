import FastRpc.SessionTeardown
import FastRpc.SessionControl

/-! # Closing all sessions

`FASTRPC_SESSION_CLOSE` with the domain -1 closes the sessions of all the effective domains, one after
the other, and gives up at the first error.  A domain without a session is an error for
`close_domain_session`, so that the domains behind it stay as they are.

`all_sessions_closed_iff` says for which tables every session is closed, where the calls that leave the
library succeed: the domains with a session come first, and in each of them the last loop of
`close_domain_session` gets as far as the end of the session. -/

namespace FastRpc

open Transition Logged

section Functions

variable {env : TableEnv}

/-- The loop over the domains, which stops at the first error. -/
def closeDomains : List Domain → TableM env ℤ
  | [] => return aeeSuccess
  | ii :: rest => do
      let nErr ← closeDomainSession ii
      if nErr ≠ aeeSuccess then return nErr else closeDomains rest

/-- The request `FASTRPC_SESSION_CLOSE`. -/
def sessionCloseRequest (data : Option SessionControl.RpcSessionClose) (datalen : ℕ) :
    TableM env ℤ :=
  match data with
  | none => return aeeEBadParm
  | some sclose =>
      if datalen ≠ 4 then return aeeEBadParm
      else if sclose.domain ≠ -1 then
        match SessionControl.effectiveDomain sclose.domain with
        | none => return aeeEBadParm
        | some domain => closeDomainSession domain
      else closeDomains (List.finRange 32)

/-- `remote_session_control` with this request.  It works under a reference on the default domain,
whose count is not part of the table. -/
def remoteSessionClose (data : Option SessionControl.RpcSessionClose) (datalen : ℕ) :
    TableM env ℤ := do
  let nErr ← fastrpcSessionGet defaultDomainId
  if nErr ≠ aeeSuccess then return nErr else sessionCloseRequest data datalen

end Functions

/-- No session is open, and no handle of a user is listed. -/
structure HandleList.Closed (hl : HandleList) : Prop where
  dev : hl.dev = -1
  nql : hl.nql = []
  ql : ∀ hi ∈ hl.ql, isConstHandle hi.remote = true

/-- **The condition.** No domain without a session comes before one that is to be closed, and the
close of each session ends it. -/
structure HandleTable.ClosesAll (t : HandleTable) : Prop where
  first : ∀ d, (t.hlist d).dev = -1 → ∀ e, d ≤ e → (t.hlist e).Closed
  ends : ∀ d, (t.hlist d).dev ≠ -1 → (t.hlist d).EndsSession

section Loop

variable {env : TableEnv}

/-- A table at the close of the domains `ds`. -/
structure AtCloses (env : TableEnv) (nodes : ℕ) (ds : List Domain) (t : HandleTable) : Prop
    extends Served env nodes t where
  room : t.live.length + 2 * ds.length ≤ nodes
  closable : ∀ d ∈ ds, (t.hlist d).dev ≠ -1 → (t.hlist d).Closable env

variable {nodes : ℕ} {d : Domain} {ds : List Domain} {t : HandleTable}

theorem AtCloses.atClose (h : AtCloses env nodes (d :: ds) t) (hdev : (t.hlist d).dev ≠ -1) :
    AtClose env (t.live.length + 2) d t where
  toServed := h.toServed.mono (by
    have hroom := h.room
    rw [List.length_cons] at hroom
    omega)
  room := Nat.add_le_add_left (missing_le _) _
  closable := h.closable d List.mem_cons_self hdev

/-- The close of one domain leaves the others to close. -/
theorem AtCloses.rest (h : AtCloses env nodes (d :: ds) t) (hd : d ∉ ds)
    (hdev : (t.hlist d).dev ≠ -1) :
    AtCloses env nodes ds ((@closeDomainSession env d).after t) := by
  obtain ⟨hothers, hlive, -⟩ := closeDomainSession_spec (h.atClose hdev) hdev
  have hroom := h.room
  rw [List.length_cons] at hroom
  refine ⟨h.toServed.after _, by omega, fun e he => ?_⟩
  rw [hothers e (fun heq => hd (heq ▸ he))]
  exact h.closable e (List.mem_cons_of_mem d he)

/-- A session that is closed is closed completely. -/
theorem closed_after_iff (h : AtClose env nodes d t) (hdev : (t.hlist d).dev ≠ -1) :
    (((@closeDomainSession env d).after t).hlist d).Closed ↔ (t.hlist d).EndsSession := by
  obtain ⟨-, -, hspec⟩ := closeDomainSession_spec h hdev
  by_cases hends : (t.hlist d).EndsSession
  · rw [if_pos hends] at hspec
    have hql : (((@closeDomainSession env d).after t).hlist d).ql = [] := hspec.2 .multiDomain
    refine iff_of_true ⟨hspec.1, hspec.2 .nonDomain, ?_⟩ hends
    rw [hql]
    simp
  · rw [if_neg hends] at hspec
    exact iff_of_false (fun hclosed => hspec hclosed.dev) hends

/-- **The loop over the domains.** -/
theorem closeDomains_spec (hnd : ds.Nodup) (h : AtCloses env nodes ds t) :
    (∀ e, e ∉ ds → ((@closeDomains env ds).after t).hlist e = t.hlist e) ∧
      ((∀ e ∈ ds, (((@closeDomains env ds).after t).hlist e).Closed) ↔
        ds.Pairwise (fun d e => (t.hlist d).dev = -1 → (t.hlist e).Closed) ∧
          ∀ d ∈ ds, if (t.hlist d).dev = -1 then (t.hlist d).Closed
            else (t.hlist d).EndsSession) := by
  induction ds generalizing t with
  | nil => exact ⟨fun _ _ => rfl, by simp⟩
  | cons d ds ih =>
      obtain ⟨hd, hnd⟩ := List.nodup_cons.mp hnd
      rw [closeDomains, after_bind]
      by_cases hdev : (t.hlist d).dev = -1
      · -- The loop stops here, and the table is what it was.
        have hstop : (@closeDomainSession env d) t = (-1, []) := by
          rw [closeDomainSession, read_bind, if_pos hdev]
          rfl
        have hval : (@closeDomainSession env d).val t = -1 := congrArg Prod.fst hstop
        have hafter : (@closeDomainSession env d).after t = t := by
          rw [Logged.after, Logged.log, hstop]
          rfl
        rw [hval, hafter, if_pos (by decide), after_pure]
        refine ⟨fun _ _ => rfl, fun hall => ⟨?_, fun e he => ?_⟩, fun hboth e he => ?_⟩
        · exact List.pairwise_of_forall_mem_list (fun _ _ e he _ => hall e he)
        · rw [if_pos (hall e he).dev]
          exact hall e he
        · rcases List.mem_cons.mp he with rfl | he
          · have hfirst := hboth.2 e List.mem_cons_self
            rwa [if_pos hdev] at hfirst
          · exact (List.pairwise_cons.mp hboth.1).1 e he hdev
      · obtain ⟨hothers, -, -⟩ := closeDomainSession_spec (h.atClose hdev) hdev
        obtain ⟨hrest, hiff⟩ := ih hnd (h.rest hd hdev)
        rw [closeDomainSession_val hdev, if_neg (not_not.mpr rfl)]
        have hsame : ∀ e ∈ ds, ((@closeDomainSession env d).after t).hlist e = t.hlist e :=
          fun e he => hothers e (fun heq => hd (heq ▸ he))
        have hpairwise : ds.Pairwise (fun a b =>
            (((@closeDomainSession env d).after t).hlist a).dev = -1 →
              (((@closeDomainSession env d).after t).hlist b).Closed) ↔
            ds.Pairwise (fun a b => (t.hlist a).dev = -1 → (t.hlist b).Closed) :=
          List.Pairwise.iff_of_mem (fun ha hb => by rw [hsame _ ha, hsame _ hb])
        refine ⟨fun e he => ?_, ?_⟩
        · rw [hrest e (fun hmem => he (List.mem_cons_of_mem d hmem)),
            hothers e (fun heq => he (heq ▸ List.mem_cons_self))]
        · rw [List.forall_mem_cons, List.forall_mem_cons, List.pairwise_cons, hiff, hrest d hd,
            closed_after_iff (h.atClose hdev) hdev, if_neg hdev, hpairwise]
          constructor
          · rintro ⟨hends, hpair, hall⟩
            exact ⟨⟨fun _ _ hclosed => absurd hclosed hdev, hpair⟩, hends,
              fun e he => by rw [← hsame e he]; exact hall e he⟩
          · rintro ⟨⟨-, hpair⟩, hends, hall⟩
            exact ⟨hends, hpair, fun e he => by rw [hsame e he]; exact hall e he⟩

end Loop

/-- The condition on the domains in order. -/
theorem closesAll_iff (t : HandleTable) : t.ClosesAll ↔
    (List.finRange 32).Pairwise (fun d e => (t.hlist d).dev = -1 → (t.hlist e).Closed) ∧
      ∀ d ∈ List.finRange 32, if (t.hlist d).dev = -1 then (t.hlist d).Closed
        else (t.hlist d).EndsSession := by
  constructor
  · intro h
    refine ⟨(List.pairwise_lt_finRange 32).imp (fun hlt hdev => h.first _ hdev _ hlt.le),
      fun d _ => ?_⟩
    split
    · exact h.first d ‹_› d le_rfl
    · exact h.ends d ‹_›
  · rintro ⟨hpair, hall⟩
    constructor
    · intro d hdev e hle
      rcases hle.eq_or_lt with rfl | hlt
      · have hclosed := hall d (List.mem_finRange d)
        rwa [if_pos hdev] at hclosed
      · have hrel := List.pairwise_iff_getElem.mp hpair d e (by simp) (by simp) hlt
        rw [List.getElem_finRange, List.getElem_finRange] at hrel
        exact hrel hdev
    · intro d hdev
      have hends := hall d (List.mem_finRange d)
      rwa [if_neg hdev] at hends

instance (hl : HandleList) : Decidable hl.Closed :=
  decidable_of_iff (hl.dev = -1 ∧ hl.nql = [] ∧ ∀ hi ∈ hl.ql, isConstHandle hi.remote = true)
    ⟨fun h => ⟨h.1, h.2.1, h.2.2⟩, fun h => ⟨h.dev, h.nql, h.ql⟩⟩

/-- The condition, for tables in which one domain has a session. -/
theorem closesAll_of_first {t : HandleTable} (hfirst : (t.hlist 0).dev ≠ -1)
    (hends : (t.hlist 0).EndsSession) (hothers : ∀ d, d ≠ 0 → (t.hlist d).Closed) :
    t.ClosesAll where
  first d hdev e hle := by
    refine hothers e ?_
    rintro rfl
    obtain rfl := Fin.le_zero_iff.mp hle
    exact hfirst hdev
  ends d hdev := by
    obtain rfl : d = 0 := by_contra (fun hne => hdev (hothers d hne).dev)
    exact hends

end FastRpc
