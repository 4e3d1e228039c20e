import FastRpc.SessionHandles
import Mathlib.Algebra.BigOperators.Fin

/-! # What closing a session does to the lists

`close_domain_session` tells the DSP that the process exits, and closes the handles of the domain in
three loops.  The lemmas of this module say what each of the functions that it calls makes of the
`handle_list` of the domain, where the calls that leave the library succeed (`ServesFrom`) and the
lists are as the functions of the library fill them (`HandleList.Closable`):

* the stubs put a node for their constant on `ql`, if none is cached (`AskedFor`);
* `remote_handle_close` takes its node off `nql`;
* `close_reverse_handle` and `remote_handle64_close` count down, but dequeue by a name that no node
  has, so that their nodes stay;
* the `remote_handle64_close` that finds `domainsCount <= 1` and `nondomainsCount == 0` ends the
  session instead (`SessionEnded`).

The other domains are left alone, which is what `AtClose` adds to the state of the one. -/

namespace FastRpc

open Logged

/-! ### Lists without repetition -/

/-- Every node of a list has an address of its own. -/
def HandleTable.NodesApart (t : HandleTable) : Prop :=
  ∀ domain list, (((t.hlist domain).nodes list).map HandleInfo.addr).Nodup

theorem tableStep_nodesApart {env : TableEnv} {t : HandleTable} (e : TableStep)
    (ht : t.NodesApart) : (tableStep env t e).NodesApart := by
  obtain ⟨domain, hchange, hother⟩ := tableStep_change env t e
  intro d list
  rcases eq_or_ne d domain with rfl | hne
  · rcases hchange.nodes list with hsub | ⟨addr, r, hcalloc, hnodes⟩
    · exact (ht d list).sublist (hsub.map _)
    · rw [hnodes, List.map_cons, List.nodup_cons]
      refine ⟨fun hmem => ?_, ht d list⟩
      obtain ⟨hi, hhi, haddr⟩ := List.mem_map.mp hmem
      have hlive := mem_live list hhi
      rw [haddr] at hlive
      exact (env.calloc_fresh _ _ _ hcalloc).1 hlive
  · rw [hother d hne]
    exact ht d list

theorem nodesApart_tableAfter (env : TableEnv) (ops : List TableOp) :
    (tableAfter env ops).NodesApart :=
  runAll_invariant (fun _ e h => tableStep_nodesApart e h) ops
    (fun _ list => by cases list <;> exact List.nodup_nil)

/-- A loop that goes on at a node of a list finds the rest of the list behind it. -/
theorem dropWhile_of_suffix {me rest : List HandleInfo} {n : HandleInfo}
    (hnd : (me.map HandleInfo.addr).Nodup) (hsuffix : n :: rest <:+ me) :
    me.dropWhile (fun hi => hi.addr ≠ n.addr) = n :: rest := by
  obtain ⟨pre, rfl⟩ := hsuffix
  rw [List.map_append, List.map_cons, List.nodup_append] at hnd
  rw [List.dropWhile_append_of_pos]
  · simp
  · intro hi hmem
    simpa using hnd.2.2 hi.addr (List.mem_map_of_mem hmem) n.addr List.mem_cons_self

/-! ### Surroundings that serve -/

/-- From the `n`-th call on, the calls that leave the library succeed. -/
structure ServesFrom (env : TableEnv) (n : ℕ) : Prop where
  nErr : ∀ i, n ≤ i → (env.answer i).nErr = aeeSuccess
  dlErr : ∀ i, n ≤ i → (env.answer i).dlErr = aeeSuccess
  flag : ∀ i, n ≤ i → (env.answer i).flag = false

theorem ServesFrom.mono {env : TableEnv} {n k : ℕ} (h : ServesFrom env n) (hle : n ≤ k) :
    ServesFrom env k where
  nErr i hi := h.nErr i (hle.trans hi)
  dlErr i hi := h.dlErr i (hle.trans hi)
  flag i hi := h.flag i (hle.trans hi)

/-- From the `n`-th call on, there is memory for a node while fewer than `nodes` nodes are live. -/
def MemoryFrom (env : TableEnv) (n nodes : ℕ) : Prop :=
  ∀ i used, n ≤ i → used.length < nodes → (env.calloc i used).isSome = true

/-- No step takes a call back. -/
theorem calls_le_after {env : TableEnv} {α : Type} (m : TableM env α) (t : HandleTable) :
    t.calls ≤ (m.after t).calls := by
  have hstep : ∀ s e, t.calls ≤ s.calls → t.calls ≤ (tableStep env s e).calls := by
    intro s e hle
    refine hle.trans ?_
    cases e with
    | update req domain h =>
        cases req with
        | prepend list =>
            simp only [tableStep]
            split <;> exact Nat.le_succ _
        | dequeue list => exact le_rfl
    | call => exact Nat.le_succ _
    | _ => exact le_rfl
  exact after_invariant hstep m le_rfl

/-- A `handle_list` whose session can be closed: no other thread ends it, its caches are live, no
listed handle is the invalid one, and no remote id of a node is the address of another node. -/
structure HandleList.Closable (env : TableEnv) (hl : HandleList) : Prop where
  state : hl.state ≠ .deinit
  process : hl.cphandle = 0 ∨ ∃ hi ∈ hl.ql, hi.addr = hl.cphandle
  remotectl : hl.CachedOk .remotectlhandle
  nonDomain : ∀ hi ∈ hl.nql, hi.remote < 2 ^ 32 - 1
  multiDomain : ∀ hi ∈ hl.ql, hi.remote % 2 ^ 32 ≠ 2 ^ 32 - 1
  names : ∀ m ∈ hl.ql, ∀ n ∈ hl.ql, m.remote ≠ n.addr
  fresh : ∀ m ∈ hl.ql, ∀ i used, env.calloc i used ≠ some m.remote

/-- The nodes that closing a domain may still add. -/
def HandleList.missing (hl : HandleList) : ℕ :=
  (if hl.cphandle = 0 then 1 else 0) + if hl.remotectlhandle = 0 then 1 else 0

theorem missing_le (hl : HandleList) : hl.missing ≤ 2 := by
  rw [HandleList.missing]
  split_ifs <;> omega

/-- A reachable table in surroundings that serve, with memory for `nodes` nodes. -/
structure Served (env : TableEnv) (nodes : ℕ) (t : HandleTable) : Prop where
  placed : t.Placed
  apart : t.NodesApart
  counts : t.CountsU32
  serves : ServesFrom env t.calls
  memory : MemoryFrom env t.calls nodes

theorem served_tableAfter {env : TableEnv} {ops : List TableOp} {nodes : ℕ}
    (hserves : ServesFrom env (tableAfter env ops).calls)
    (hmemory : MemoryFrom env (tableAfter env ops).calls nodes) :
    Served env nodes (tableAfter env ops) :=
  ⟨placed_tableAfter env ops, nodesApart_tableAfter env ops, countsU32_tableAfter env ops, hserves,
    hmemory⟩

theorem Served.mono {env : TableEnv} {nodes nodes' : ℕ} {t : HandleTable} (h : Served env nodes t)
    (hle : nodes' ≤ nodes) : Served env nodes' t :=
  { h with memory := fun i used hi hlt => h.memory i used hi (hlt.trans_le hle) }

theorem Served.after {env : TableEnv} {nodes : ℕ} {t : HandleTable} (h : Served env nodes t)
    {α : Type} (m : TableM env α) : Served env nodes (m.after t) where
  placed := after_invariant (fun _ e ht => tableStep_placed e ht) m h.placed
  apart := after_invariant (fun _ e ht => tableStep_nodesApart e ht) m h.apart
  counts := after_invariant (fun _ e ht => tableStep_countsU32 e ht) m h.counts
  serves := h.serves.mono (calls_le_after m t)
  memory i used hi hlt := h.memory i used ((calls_le_after m t).trans hi) hlt

/-- A table at the close of a domain. -/
structure AtClose (env : TableEnv) (nodes : ℕ) (domain : Domain) (t : HandleTable) : Prop
    extends Served env nodes t where
  room : t.live.length + (t.hlist domain).missing ≤ nodes
  closable : (t.hlist domain).Closable env

theorem live_length (t : HandleTable) : t.live.length = ∑ ii, (t.hlist ii).nodeCount := by
  rw [HandleTable.live, List.length_flatMap, Fin.sum_univ_def]
  congr 1
  apply List.map_congr_left
  intro ii _
  rw [List.length_map, List.length_append, List.length_append, HandleList.nodeCount]

/-- A function that works on one domain changes the number of nodes by those of the domain. -/
theorem live_length_others {t t' : HandleTable} {domain : Domain}
    (hothers : ∀ d, d ≠ domain → t'.hlist d = t.hlist d) :
    t'.live.length + (t.hlist domain).nodeCount = t.live.length + (t'.hlist domain).nodeCount := by
  have hrest : ∑ d ∈ Finset.univ.erase domain, (t'.hlist d).nodeCount =
      ∑ d ∈ Finset.univ.erase domain, (t.hlist d).nodeCount :=
    Finset.sum_congr rfl (fun d hd => by rw [hothers d (Finset.ne_of_mem_erase hd)])
  rw [live_length, live_length, ← Finset.add_sum_erase _ _ (Finset.mem_univ domain),
    ← Finset.add_sum_erase _ _ (Finset.mem_univ domain), hrest]
  omega

/-- What a program leaves is at the close of the domain, if its lists still are and need no more
nodes. -/
theorem AtClose.after {env : TableEnv} {nodes : ℕ} {domain : Domain} {t : HandleTable}
    (h : AtClose env nodes domain t) {α : Type} (m : TableM env α)
    (hothers : ∀ d, d ≠ domain → (m.after t).hlist d = t.hlist d)
    (hneed : ((m.after t).hlist domain).nodeCount + ((m.after t).hlist domain).missing ≤
      (t.hlist domain).nodeCount + (t.hlist domain).missing)
    (hclosable : ((m.after t).hlist domain).Closable env) : AtClose env nodes domain (m.after t) where
  toServed := h.toServed.after m
  room := by
    have hlive := live_length_others hothers
    have hroom := h.room
    omega
  closable := hclosable

/-- The same for a program that leaves the lists and the caches. -/
theorem AtClose.after_same {env : TableEnv} {nodes : ℕ} {domain : Domain} {t : HandleTable}
    (h : AtClose env nodes domain t) {α : Type} (m : TableM env α)
    (hsame : (m.after t).hlist = t.hlist) : AtClose env nodes domain (m.after t) :=
  h.after m (fun _ _ => by rw [hsame]) (by rw [hsame]) (by rw [hsame]; exact h.closable)

/-! ### The cached constants -/

namespace HandleTable

/-- A node of a domain is found under its address. -/
theorem Placed.getDomainFromHandle_of_mem {t : HandleTable} (ht : t.Placed) {domain : Domain}
    {n : HandleInfo} (hn : n ∈ (t.hlist domain).ql) : t.getDomainFromHandle n.addr = some domain := by
  have hverify : t.verifyLocalHandle none n.addr = aeeSuccess :=
    (ht.verifyLocalHandle_iff n.addr).mpr ⟨domain, n, hn, rfl⟩
  have hsome : (t.nodeAt n.addr).isSome := by
    rw [nodeAt, List.findSome?_isSome_iff]
    refine ⟨domain, List.mem_finRange domain, ?_⟩
    rw [List.find?_isSome]
    exact ⟨n, hn, by simp⟩
  obtain ⟨m, hm⟩ := Option.isSome_iff_exists.mp hsome
  obtain ⟨haddr, d, hmem⟩ := HandleTable.mem_of_nodeAt hm
  rw [getDomainFromHandle, if_pos hverify, hm, Option.map_some, ht.placed d m hmem,
    ht.disjoint d domain m n hmem hn haddr]

/-- The node itself is found. -/
theorem Placed.nodeAt_of_mem {t : HandleTable} (ht : t.Placed) {domain : Domain}
    {n : HandleInfo} (hn : n ∈ (t.hlist domain).ql) : t.nodeAt n.addr = some n := by
  have hdomain := ht.getDomainFromHandle_of_mem hn
  rw [getDomainFromHandle] at hdomain
  split at hdomain
  · obtain ⟨m, hm, hd⟩ := Option.map_eq_some_iff.mp hdomain
    have hmem := ht.mem_of_nodeAt hm
    rw [hd] at hmem
    rw [hm, eq_of_addr_eq (ht.nodup domain) hn hmem (HandleTable.mem_of_nodeAt hm).1]
  · cases hdomain

end HandleTable

/-- What a `get_..._handle` leaves of a `handle_list`: the handle is cached, with a node for it in front
of `ql` if it was not cached before. -/
structure AskedFor (s : SessionHandle) (hl hl' : HandleList) : Prop where
  ql : hl.ql <:+ hl'.ql
  length : hl'.ql.length = hl.ql.length + if hl.slot s = 0 then 1 else 0
  cached : hl'.slot s ≠ 0
  slots : ∀ s', s' ≠ s → hl'.slot s' = hl.slot s'
  nql : hl'.nql = hl.nql
  rql : hl'.rql = hl.rql
  domainsCount : hl'.domainsCount = hl.domainsCount
  nondomainsCount : hl'.nondomainsCount = hl.nondomainsCount
  dev : hl'.dev = hl.dev

theorem AskedFor.refl {s : SessionHandle} {hl : HandleList} (hslot : hl.slot s ≠ 0) :
    AskedFor s hl hl :=
  ⟨List.suffix_refl _, by rw [if_neg hslot]; rfl, hslot, fun _ _ => rfl, rfl, rfl, rfl, rfl, rfl⟩

/-- A new node takes the place of a missing one. -/
theorem AskedFor.need {s : SessionHandle} {hl hl' : HandleList} (h : AskedFor s hl hl')
    (hs : s = .cphandle ∨ s = .remotectlhandle) :
    hl'.nodeCount + hl'.missing = hl.nodeCount + hl.missing := by
  have hlength := h.length
  have hcached := h.cached
  rw [HandleList.nodeCount, HandleList.nodeCount, HandleList.missing, HandleList.missing, h.nql,
    h.rql]
  rcases hs with rfl | rfl
  · have hother : hl'.remotectlhandle = hl.remotectlhandle := h.slots .remotectlhandle (by simp)
    change hl'.ql.length = hl.ql.length + (if hl.cphandle = 0 then 1 else 0) at hlength
    change hl'.cphandle ≠ 0 at hcached
    rw [hother, if_neg hcached]
    omega
  · have hother : hl'.cphandle = hl.cphandle := h.slots .cphandle (by simp)
    change hl'.ql.length = hl.ql.length + (if hl.remotectlhandle = 0 then 1 else 0) at hlength
    change hl'.remotectlhandle ≠ 0 at hcached
    rw [hother, if_neg hcached]
    omega

theorem missing_pos {s : SessionHandle} {hl : HandleList}
    (hs : s = .cphandle ∨ s = .remotectlhandle) (hslot : hl.slot s = 0) : 0 < hl.missing := by
  rcases hs with rfl | rfl
  · change hl.cphandle = 0 at hslot
    rw [HandleList.missing, if_pos hslot]
    omega
  · change hl.remotectlhandle = 0 at hslot
    rw [HandleList.missing, if_pos hslot]
    omega

/-- A `handle_list` with a new handle of the session. -/
def HandleList.withHandle (hl : HandleList) (s : SessionHandle) (n : HandleInfo) : HandleList :=
  (hl.prepend .multiDomain n).setSlot s n.addr

section WithHandle

variable {env : TableEnv} {hl : HandleList} {s : SessionHandle} {n : HandleInfo}

theorem withHandle_ql : (hl.withHandle s n).ql = n :: hl.ql := by
  rw [HandleList.withHandle, ql_setSlot]
  exact HandleList.prepend_nodes hl .multiDomain .multiDomain n

theorem withHandle_slot (s' : SessionHandle) :
    (hl.withHandle s n).slot s' = if s' = s then n.addr else hl.slot s' := by
  rw [HandleList.withHandle, slot_setSlot, slot_prepend]

theorem withHandle_eq (hconst : isConstHandle n.remote = true) : hl.withHandle s n =
    { hl.setSlot s n.addr with ql := n :: hl.ql, constCount := addU32 hl.constCount 1 } := by
  rw [HandleList.withHandle, HandleList.prepend, HandleList.setCount, HandleList.count]
  simp only [hconst, if_true]
  cases s <;> rfl

theorem askedFor_withHandle (hconst : isConstHandle n.remote = true) (haddr : n.addr ≠ 0)
    (hslot : hl.slot s = 0) : AskedFor s hl (hl.withHandle s n) where
  ql := withHandle_ql ▸ List.suffix_cons n hl.ql
  length := by rw [withHandle_ql, if_pos hslot, List.length_cons]
  cached := by rwa [withHandle_slot, if_pos rfl]
  slots s' hne := by rw [withHandle_slot, if_neg hne]
  nql := by rw [withHandle_eq hconst]; cases s <;> rfl
  rql := by rw [withHandle_eq hconst]; cases s <;> rfl
  domainsCount := by rw [withHandle_eq hconst]; cases s <;> rfl
  nondomainsCount := by rw [withHandle_eq hconst]; cases s <;> rfl
  dev := by rw [withHandle_eq hconst]; cases s <;> rfl

/-- A constant's remote id is no address. -/
theorem closable_withHandle (h : hl.Closable env) (hrange : ∀ hi ∈ hl.ql, 0x200 < hi.addr)
    (hconst : isConstHandle n.remote = true) {i : ℕ} {used : List ℕ}
    (hcalloc : env.calloc i used = some n.addr) : (hl.withHandle s n).Closable env := by
  obtain ⟨-, hlow, -⟩ := env.calloc_fresh _ _ _ hcalloc
  have hsmall : n.remote < 0xff := by simpa [isConstHandle] using hconst
  have hql : (hl.withHandle s n).ql = n :: hl.ql := withHandle_ql
  have hmore : ∀ {addr}, (∃ hi ∈ hl.ql, hi.addr = addr) → ∃ hi ∈ n :: hl.ql, hi.addr = addr :=
    Exists.imp (fun _ => And.imp_left (List.mem_cons_of_mem n))
  have hlive : ∀ s', (hl.CachedOk s') → (hl.withHandle s n).CachedOk s' := by
    intro s' hok
    unfold HandleList.CachedOk at hok ⊢
    rw [withHandle_slot, hql]
    split
    · exact .inr (.inr ⟨n, List.mem_cons_self, rfl⟩)
    · exact hok.imp_right (Or.imp_right hmore)
  constructor
  case state =>
    rw [withHandle_eq hconst]
    cases s <;> exact h.state
  case process =>
    change (hl.withHandle s n).slot .cphandle = 0 ∨
      ∃ hi ∈ (hl.withHandle s n).ql, hi.addr = (hl.withHandle s n).slot .cphandle
    rw [withHandle_slot, hql]
    split
    · exact .inr ⟨n, List.mem_cons_self, rfl⟩
    · exact h.process.imp_right hmore
  case remotectl => exact hlive _ h.remotectl
  case nonDomain =>
    rw [withHandle_eq hconst]
    cases s <;> exact h.nonDomain
  case multiDomain =>
    rw [hql]
    intro hi hmem
    rcases List.mem_cons.mp hmem with rfl | hmem
    · omega
    · exact h.multiDomain hi hmem
  case names =>
    rw [hql]
    intro m hm k hk
    rcases List.mem_cons.mp hm with hnew | hold
    · rcases List.mem_cons.mp hk with hk | hk
      · rw [hnew, hk]
        omega
      · have hlow' := hrange k hk
        rw [hnew]
        omega
    · rcases List.mem_cons.mp hk with hk | hk
      · rw [hk]
        exact fun heq => h.fresh m hold i used (heq ▸ hcalloc)
      · exact h.names m hold k hk
  case fresh =>
    rw [hql]
    intro m hm j used' hj
    rcases List.mem_cons.mp hm with rfl | hm
    · have hlow' := (env.calloc_fresh _ _ _ hj).2.1
      omega
    · exact h.fresh m hm j used' hj

end WithHandle

/-! ### The functions that a close calls -/

section Functions

variable {env : TableEnv} {nodes : ℕ} {domain : Domain} {t : HandleTable}

/-- What a function that works on one domain does: `R` to its `handle_list`, and nothing to the
others or to the thread context. -/
structure Works (domain : Domain) (R : HandleList → HandleList → Prop) (t t' : HandleTable) :
    Prop where
  own : R (t.hlist domain) (t'.hlist domain)
  others : ∀ d, d ≠ domain → t'.hlist d = t.hlist d
  context : t'.tlsKey = t.tlsKey

theorem getSessionHandle_atClose (h : AtClose env nodes domain t) {s : SessionHandle}
    (hs : s = .cphandle ∨ s = .remotectlhandle) {const : ℕ} (hconst : isConstHandle const = true) :
    AtClose env nodes domain ((@getSessionHandle env s const domain).after t) ∧
      Works domain (AskedFor s) t ((@getSessionHandle env s const domain).after t) ∧
      (@getSessionHandle env s const domain).val t =
        (((@getSessionHandle env s const domain).after t).hlist domain).slot s := by
  by_cases hslot : (t.hlist domain).slot s = 0
  · have hroom : t.live.length < nodes :=
      Nat.lt_of_lt_of_le (Nat.lt_add_of_pos_right (missing_pos hs hslot)) h.room
    obtain ⟨addr, hcalloc⟩ :=
      Option.isSome_iff_exists.mp (h.memory t.calls t.live le_rfl hroom)
    have hafter : (@getSessionHandle env s const domain).after t =
        ({ t.modify domain (fun hl => hl.prepend .multiDomain ⟨domain, addr, const⟩) with
          calls := t.calls + 1 }).modify domain (fun hl => hl.setSlot s addr) := by
      simp [getSessionHandle, hslot, hcalloc, tableStep]
    have hval : (@getSessionHandle env s const domain).val t = addr := by
      simp [getSessionHandle, hslot, hcalloc]
    have hown : ((@getSessionHandle env s const domain).after t).hlist domain =
        (t.hlist domain).withHandle s ⟨domain, addr, const⟩ := by
      rw [hafter, HandleTable.modify_hlist]
      simp only [HandleTable.modify_hlist]
      rfl
    have hrange := fun hi hmem => (h.placed.range domain hi hmem).1
    have hlow := (env.calloc_fresh _ _ _ hcalloc).2.1
    have hasked : AskedFor s (t.hlist domain)
        ((t.hlist domain).withHandle s ⟨domain, addr, const⟩) :=
      askedFor_withHandle hconst (by dsimp only; omega) hslot
    have hothers : ∀ d, d ≠ domain →
        ((@getSessionHandle env s const domain).after t).hlist d = t.hlist d := by
      intro d hne
      simp only [hafter, HandleTable.modify_hlist_of_ne hne]
    refine ⟨h.after _ hothers ?_ ?_, ⟨?_, hothers, ?_⟩, ?_⟩
    · rw [hown]
      exact (hasked.need hs).le
    · rw [hown]
      exact closable_withHandle h.closable hrange hconst hcalloc
    · rw [hown]
      exact hasked
    · rw [hafter]
      rfl
    · rw [hval, hown, withHandle_slot, if_pos rfl]
  · have hafter : (@getSessionHandle env s const domain).after t = t := by
      simp [getSessionHandle, hslot]
    have hval : (@getSessionHandle env s const domain).val t = (t.hlist domain).slot s := by
      simp [getSessionHandle, hslot]
    rw [hafter, hval]
    exact ⟨h, ⟨.refl hslot, fun _ _ => rfl, rfl⟩, rfl⟩

/-- A call out of the library. -/
theorem AtClose.called (h : AtClose env nodes domain t) :
    AtClose env nodes domain { t with calls := t.calls + 1 } :=
  h.after_same callOut rfl

/-- A stub called with a handle of the domain: the thread works on the domain then. -/
theorem invokeSession_of_mem (h : AtClose env nodes domain t) {n : HandleInfo}
    (hn : n ∈ (t.hlist domain).ql) : (@invokeSession env n.addr).after t =
      { t with tlsKey := some domain, calls := t.calls + 1 } := by
  simp only [invokeSession, after_read_bind, h.placed.getDomainFromHandle_of_mem hn,
    h.closable.state, if_false]
  rfl

theorem closeOnDsp_atClose (h : AtClose env nodes domain t) (hcontext : t.tlsKey = some domain) :
    AtClose env nodes domain ((@closeOnDsp env domain).after t) ∧
      Works domain (AskedFor .remotectlhandle) t ((@closeOnDsp env domain).after t) ∧
      (@closeOnDsp env domain).val t = aeeSuccess := by
  obtain ⟨hu, hworks, hval⟩ := getSessionHandle_atClose h (.inr rfl)
    (show isConstHandle constRemotectl1Handle = true by decide)
  rw [closeOnDsp, after_bind, val_bind]
  change AtClose env nodes domain ((@getRemotectl1Handle env domain).after t) at hu
  change Works domain _ t ((@getRemotectl1Handle env domain).after t) at hworks
  change (@getRemotectl1Handle env domain).val t =
    (((@getRemotectl1Handle env domain).after t).hlist domain).slot .remotectlhandle at hval
  rw [hval]
  generalize (@getRemotectl1Handle env domain).after t = u at hu hworks ⊢
  have hnErr := hu.serves.nErr u.calls le_rfl
  have hdlErr := hu.serves.dlErr u.calls le_rfl
  rcases hu.closable.remotectl with hzero | hinvalid | ⟨n, hn, haddr⟩
  · exact absurd hzero hworks.own.cached
  · simp only [hinvalid, ne_eq, not_true_eq_false, if_false, callOut_after_bind, callOut_val_bind,
      hnErr, hdlErr, after_pure, val_pure]
    exact ⟨hu.called, ⟨hworks.own, hworks.others, hworks.context⟩, trivial⟩
  · have hne : n.addr ≠ invalidHandle := by
      have hrange := hu.placed.range domain n hn
      unfold invalidHandle
      omega
    have hinvoke := invokeSession_of_mem hu hn
    simp only [← haddr, ne_eq, hne, not_false_eq_true, if_true, after_bind, val_bind,
      invokeSession_val, hnErr, hdlErr, not_true_eq_false, if_false, after_pure, val_pure]
    refine ⟨hu.after_same _ (by rw [hinvoke]), ⟨?_, ?_, ?_⟩, trivial⟩
    · rw [hinvoke]
      exact hworks.own
    · rw [hinvoke]
      exact hworks.others
    · rw [hinvoke]
      exact hcontext.symm

/-- `remote_handle_close_domain` succeeds, for a handle that is valid. -/
theorem remoteHandleCloseDomain_atClose (h : AtClose env nodes domain t)
    (hcontext : t.tlsKey = some domain) {r : ℕ} (hr : r ≠ 2 ^ 32 - 1) :
    AtClose env nodes domain ((@remoteHandleCloseDomain env domain r).after t) ∧
      Works domain (AskedFor .remotectlhandle) t
        ((@remoteHandleCloseDomain env domain r).after t) ∧
      (@remoteHandleCloseDomain env domain r).val t = aeeSuccess := by
  have hflag := h.serves.flag t.calls le_rfl
  simp only [remoteHandleCloseDomain, hr, if_false, callOut_after_bind, callOut_val_bind, hflag,
    Bool.false_eq_true]
  obtain ⟨hu, hworks, hval⟩ := closeOnDsp_atClose h.called hcontext
  exact ⟨hu, ⟨hworks.own, hworks.others, hworks.context⟩, hval⟩

theorem works_modify (t : HandleTable) (domain : Domain) (f : HandleList → HandleList) :
    Works domain (fun hl hl' => hl' = f hl) t (t.modify domain f) :=
  ⟨HandleTable.modify_hlist .., fun _ hne => HandleTable.modify_hlist_of_ne hne .., rfl⟩

/-- A dequeue frees no node or one. -/
theorem nodeCount_dequeue_le (hl : HandleList) (list : HandleListId) (k : ℕ) :
    (hl.dequeue list k).nodeCount + (hl.dequeue list k).missing ≤ hl.nodeCount + hl.missing := by
  have hfree : ∀ me : List HandleInfo, (fastrpcFreeHandle me k).length ≤ me.length := fun me =>
    List.eraseP_sublist.length_le
  have hmissing : (hl.dequeue list k).missing = hl.missing := by
    have hslots := slot_dequeue hl list k
    have hcp : (hl.dequeue list k).cphandle = hl.cphandle := hslots .cphandle
    have hrc : (hl.dequeue list k).remotectlhandle = hl.remotectlhandle := hslots .remotectlhandle
    rw [HandleList.missing, HandleList.missing, hcp, hrc]
  have hnodes := hl.dequeue_nodes list
  have hql := hnodes .multiDomain k
  have hnql := hnodes .nonDomain k
  have hrql := hnodes .reverse k
  simp only [HandleList.nodes] at hql hnql hrql
  rw [hmissing, HandleList.nodeCount, HandleList.nodeCount, hql, hnql, hrql]
  cases list <;> simp [hfree]

/-- A dequeue from `nql` or `rql`. -/
theorem dequeue_atClose (h : AtClose env nodes domain t) {list : HandleListId} (k : ℕ)
    (hlist : list ≠ .multiDomain) :
    AtClose env nodes domain (t.modify domain (fun hl => hl.dequeue list k)) := by
  have hwork := works_modify t domain (fun hl => hl.dequeue list k)
  refine h.after (emit (.update (.dequeue list) domain k)) hwork.others ?_ ?_
  · change ((t.modify domain (fun hl => hl.dequeue list k)).hlist domain).nodeCount +
      ((t.modify domain (fun hl => hl.dequeue list k)).hlist domain).missing ≤ _
    rw [hwork.own]
    exact nodeCount_dequeue_le _ list k
  · change ((t.modify domain (fun hl => hl.dequeue list k)).hlist domain).Closable env
    rw [hwork.own]
    have hc := h.closable
    cases list with
    | multiDomain => exact absurd rfl hlist
    | nonDomain =>
        exact { hc with nonDomain := fun hi hmem => hc.nonDomain hi (List.mem_of_mem_eraseP hmem) }
    | reverse => exact { hc with nonDomain := hc.nonDomain }

theorem Works.trans {R S : HandleList → HandleList → Prop} {u v : HandleTable}
    (h : Works domain R t u) (h' : Works domain S u v) :
    Works domain (Relation.Comp R S) t v :=
  ⟨⟨_, h.own, h'.own⟩, fun d hne => (h'.others d hne).trans (h.others d hne),
    h'.context.trans h.context⟩

/-- `remote_handle_close`: the module is closed, and the node with this remote id is taken off `nql`. -/
theorem remoteHandleClose_atClose (h : AtClose env nodes domain t) (hcontext : t.tlsKey = some domain)
    {r : ℕ} (hr : r ≠ 2 ^ 32 - 1) :
    AtClose env nodes domain ((@remoteHandleClose env r).after t) ∧
      Works domain (Relation.Comp (AskedFor .remotectlhandle)
        (fun hl hl' => hl' = hl.dequeue .nonDomain r)) t ((@remoteHandleClose env r).after t) := by
  have hcurrent : t.getCurrentDomain = domain := by
    rw [HandleTable.getCurrentDomain, hcontext, Option.getD_some]
  obtain ⟨hu, hworks, hval⟩ := remoteHandleCloseDomain_atClose h hcontext hr
  have hafter : (@remoteHandleClose env r).after t =
      ((@remoteHandleCloseDomain env domain r).after t).modify domain
        (fun hl => hl.dequeue .nonDomain r) := by
    rw [remoteHandleClose, after_read_bind, after_bind, hcurrent, hval, if_pos rfl, after_bind,
      after_discard]
    rfl
  rw [hafter]
  exact ⟨dequeue_atClose hu r (by decide), hworks.trans (works_modify _ _ _)⟩

theorem appsRemotectlClose_eq (hnErr : (env.answer t.calls).nErr = aeeSuccess)
    (hcontext : t.tlsKey = some domain) (handle : ℕ) :
    (@appsRemotectlClose env handle).after t =
      { t with calls := t.calls + 1 }.modify domain (fun hl => hl.dequeue .reverse handle) := by
  have hcurrent : t.getCurrentDomain = domain := by
    rw [HandleTable.getCurrentDomain, hcontext, Option.getD_some]
  rw [appsRemotectlClose, after_read_bind, callOut_after_bind, hcurrent,
    if_neg (not_not.mpr hnErr), after_bind, after_discard]
  rfl

/-- `apps_remotectl_close` takes the node with this remote id off `rql`. -/
theorem appsRemotectlClose_atClose (h : AtClose env nodes domain t) (hcontext : t.tlsKey = some domain)
    (handle : ℕ) :
    AtClose env nodes domain ((@appsRemotectlClose env handle).after t) ∧
      Works domain (fun hl hl' => hl' = hl.dequeue .reverse handle) t
        ((@appsRemotectlClose env handle).after t) := by
  have hworks := works_modify { t with calls := t.calls + 1 } domain
    (fun hl => hl.dequeue .reverse handle)
  rw [appsRemotectlClose_eq (h.serves.nErr t.calls le_rfl) hcontext]
  exact ⟨dequeue_atClose h.called _ (by decide), hworks.own, hworks.others, hworks.context⟩

/-! ### The last handle and the others -/

/-- The key of the dequeue is an address, and no node has it for its remote id: only the counter
changes. -/
theorem dequeue_addr {hl : HandleList} (hc : hl.Closable env) {n : HandleInfo} (hn : n ∈ hl.ql)
    (hlow : 0x200 < n.addr) : hl.dequeue .multiDomain n.addr =
      { hl with domainsCount := subU32 hl.domainsCount 1 } := by
  have hconst : isConstHandle n.addr = false := by
    simp only [isConstHandle, decide_eq_false_iff_not]
    omega
  have hfree : fastrpcFreeHandle hl.ql n.addr = hl.ql := by
    apply fastrpcFreeHandle_of_notMem
    rintro ⟨m, hm, hr⟩
    exact hc.names m hm n hn hr
  simp only [HandleList.dequeue, HandleList.nodes, HandleList.setNodes, HandleList.setCount,
    HandleList.count, hconst, Bool.false_eq_true, if_false, hfree]

theorem closable_domainsCount {hl : HandleList} (hc : hl.Closable env) (count : ℕ) :
    HandleList.Closable env { hl with domainsCount := count } :=
  ⟨hc.state, hc.process, hc.remotectl, hc.nonDomain, hc.multiDomain, hc.names, hc.fresh⟩

/-- The dequeue of a close, whose key is the address of a listed node. -/
theorem dequeueAddr_atClose (h : AtClose env nodes domain t) {n : HandleInfo}
    (hn : n ∈ (t.hlist domain).ql) :
    AtClose env nodes domain (t.modify domain (fun hl => hl.dequeue .multiDomain n.addr)) ∧
      Works domain (fun hl hl' => hl' = { hl with domainsCount := subU32 hl.domainsCount 1 }) t
        (t.modify domain (fun hl => hl.dequeue .multiDomain n.addr)) := by
  have hkey := dequeue_addr h.closable hn (h.placed.range domain n hn).1
  have hwork := works_modify t domain (fun hl => hl.dequeue .multiDomain n.addr)
  refine ⟨h.after (emit (.update (.dequeue .multiDomain) domain n.addr)) hwork.others ?_ ?_,
    hwork.own.trans hkey, hwork.others, hwork.context⟩
  · change ((t.modify domain (fun hl => hl.dequeue .multiDomain n.addr)).hlist domain).nodeCount +
      ((t.modify domain (fun hl => hl.dequeue .multiDomain n.addr)).hlist domain).missing ≤ _
    rw [hwork.own]
    exact nodeCount_dequeue_le _ _ _
  · change ((t.modify domain (fun hl => hl.dequeue .multiDomain n.addr)).hlist domain).Closable env
    rw [hwork.own, hkey]
    exact closable_domainsCount h.closable _

theorem closeOnDomain_eq {handle remote : ℕ} {start_deinit : Bool}
    (hval : (@closeRemote env domain remote start_deinit).val t = aeeSuccess) :
    (@closeOnDomain env domain handle remote start_deinit).val t = aeeSuccess ∧
      (@closeOnDomain env domain handle remote start_deinit).after t =
        ((@closeRemote env domain remote start_deinit).after t).modify domain
          (fun hl => hl.dequeue .multiDomain handle) := by
  rw [closeOnDomain, val_bind, after_bind, hval, if_pos rfl, val_bind, after_bind, after_discard]
  exact ⟨rfl, rfl⟩

/-- The module of a handle that is not the last one is closed on the DSP, if there is one. -/
theorem closeRemote_atClose (h : AtClose env nodes domain t) (hcontext : t.tlsKey = some domain)
    {n : HandleInfo} (hn : n ∈ (t.hlist domain).ql) :
    AtClose env nodes domain ((@closeRemote env domain n.remote false).after t) ∧
      Works domain (fun hl hl' => hl' = hl ∨ AskedFor .remotectlhandle hl hl') t
        ((@closeRemote env domain n.remote false).after t) ∧
      (@closeRemote env domain n.remote false).val t = aeeSuccess := by
  by_cases hr : n.remote = 0
  · simp only [closeRemote, hr, ne_eq, not_true_eq_false, decide_false, Bool.and_false,
      Bool.false_eq_true, if_false, after_pure, val_pure]
    exact ⟨h, ⟨.inl rfl, fun _ _ => rfl, rfl⟩, trivial⟩
  · simp only [closeRemote, hr, ne_eq, not_false_eq_true, decide_true, Bool.and_true, Bool.not_false,
      if_true]
    obtain ⟨hu, hworks, hval⟩ :=
      remoteHandleCloseDomain_atClose h hcontext (h.closable.multiDomain n hn)
    exact ⟨hu, ⟨.inr hworks.own, hworks.others, hworks.context⟩, hval⟩

/-- `remote_handle64_close` of a listed handle. -/
def closeListed (domain : Domain) (n : HandleInfo) (start_deinit : Bool) : TableM env ℤ := do
  emit (.setThreadContext (some domain))
  let nErr ← closeOnDomain domain n.addr n.remote start_deinit
  if nErr = aeeEInvHandle then return nErr
  else
    if start_deinit then domainDeinit domain
    let u ← read
    if nErr ≠ aeeSuccess ∧ u.isProcessExiting domain then return aeeSuccess else return nErr

theorem remoteHandle64Close_eq (ht : t.Placed) {n : HandleInfo} (hn : n ∈ (t.hlist domain).ql) :
    (@remoteHandle64Close env n.addr) t = @closeListed env domain n (t.startDeinit domain) t := by
  obtain ⟨hlow, hhigh⟩ := ht.range domain n hn
  have hstatic : ¬ isStaticpdHandle n.addr = true := by
    simp only [isStaticpdHandle, Bool.and_eq_true, decide_eq_true_eq]
    omega
  have hvalid : ¬ n.addr = invalidHandle := by
    unfold invalidHandle
    omega
  have hdomain := ht.getDomainFromHandle_of_mem hn
  have hremote : t.getHandleRemote n.addr = some n.remote := by
    rw [HandleTable.getHandleRemote, if_pos ((ht.verifyLocalHandle_iff n.addr).mpr
      ⟨domain, n, hn, rfl⟩), ht.nodeAt_of_mem hn, Option.map_some]
  rw [remoteHandle64Close, read_bind, if_neg hstatic, if_neg hvalid, hdomain, hremote]
  rfl

theorem setThreadContext_self (hcontext : t.tlsKey = some domain) :
    tableStep env t (.setThreadContext (some domain)) = t := by
  cases t with
  | mk hlist tlsKey calls =>
      cases hcontext
      rfl

/-- What it leaves, for a thread of the domain and a module that can be closed. -/
theorem remoteHandle64Close_of_mem (ht : t.Placed) (hcontext : t.tlsKey = some domain)
    {n : HandleInfo} (hn : n ∈ (t.hlist domain).ql)
    (hval : (@closeOnDomain env domain n.addr n.remote (t.startDeinit domain)).val t = aeeSuccess) :
    (@remoteHandle64Close env n.addr).after t =
      if t.startDeinit domain then
        (@domainDeinit env domain).after
          ((@closeOnDomain env domain n.addr n.remote (t.startDeinit domain)).after t)
      else (@closeOnDomain env domain n.addr n.remote (t.startDeinit domain)).after t := by
  rw [after_of_eq t (remoteHandle64Close_eq ht hn), closeListed, after_emit_bind,
    setThreadContext_self hcontext, after_bind, hval, if_neg (by decide)]
  cases t.startDeinit domain with
  | false => rfl
  | true =>
      simp only [if_true]
      rw [after_bind]
      simp only [after_read_bind, after_pure, ite_self]

/-- **A handle that is not the last one.** Its close counts down and leaves all the nodes. -/
theorem remoteHandle64Close_goesOn (h : AtClose env nodes domain t) (hcontext : t.tlsKey = some domain)
    {n : HandleInfo} (hn : n ∈ (t.hlist domain).ql) (hlast : t.startDeinit domain = false) :
    AtClose env nodes domain ((@remoteHandle64Close env n.addr).after t) ∧
      Works domain (Relation.Comp (fun hl hl' => hl' = hl ∨ AskedFor .remotectlhandle hl hl')
        (fun hl hl' => hl' = { hl with domainsCount := subU32 hl.domainsCount 1 })) t
        ((@remoteHandle64Close env n.addr).after t) := by
  obtain ⟨hu, hworks, hval⟩ := closeRemote_atClose h hcontext hn
  have hmem : n ∈ (((@closeRemote env domain n.remote false).after t).hlist domain).ql := by
    rcases hworks.own with hsame | hasked
    · rwa [hsame]
    · exact hasked.ql.subset hn
  obtain ⟨hclose, hafter⟩ := @closeOnDomain_eq env domain t n.addr _ _ hval
  have hdequeue := dequeueAddr_atClose hu hmem
  rw [← hafter] at hdequeue
  rw [remoteHandle64Close_of_mem h.placed hcontext hn (by rw [hlast, hclose]), hlast,
    if_neg (by decide)]
  exact ⟨hdequeue.1, hworks.trans hdequeue.2⟩

/-! ### The end of the session -/

/-- Only the list of the reverse handles and its counter change, and `n` nodes are gone. -/
def ClearsReverse (n : ℕ) (hl hl' : HandleList) : Prop :=
  ∃ l k, hl' = { hl with rql := l, reverseCount := k } ∧ l.length ≤ hl.rql.length - n

/-- Closing the head of `rql` changes nothing else of the domain. -/
theorem popAndClose_works (hserves : ServesFrom env t.calls) (hcontext : t.tlsKey = some domain)
    (handle : ℕ) :
    Works domain (ClearsReverse 1) t ((@appsRemotectlClose env handle).after
      (tableStep env t (.popReverse domain))) := by
  have hpop := works_modify t domain (fun hl => { hl with rql := hl.rql.tail })
  have hclose := works_modify
    { tableStep env t (.popReverse domain) with calls := t.calls + 1 } domain
    (fun hl => hl.dequeue .reverse handle)
  have hlength : (fastrpcFreeHandle (t.hlist domain).rql.tail handle).length ≤
      (t.hlist domain).rql.length - 1 :=
    (List.eraseP_sublist.length_le).trans List.length_tail.le
  have hown : ((tableStep env t (.popReverse domain)).hlist domain).dequeue .reverse handle =
      { t.hlist domain with
        rql := fastrpcFreeHandle (t.hlist domain).rql.tail handle
        reverseCount := subU32 (t.hlist domain).reverseCount 1 } :=
    congrArg (fun hl => hl.dequeue .reverse handle) hpop.own
  rw [@appsRemotectlClose_eq env domain (tableStep env t (.popReverse domain))
    (hserves.nErr t.calls le_rfl) hcontext]
  exact ⟨⟨_, _, hclose.own.trans hown, hlength⟩,
    fun d hne => (hclose.others d hne).trans (hpop.others d hne),
    hclose.context.trans hpop.context⟩

theorem clearReverseList_works (n : ℕ) (hserves : ServesFrom env t.calls)
    (hcontext : t.tlsKey = some domain) :
    Works domain (ClearsReverse n) t ((@clearReverseList env domain n).after t) := by
  induction n generalizing t with
  | zero => exact ⟨⟨_, _, rfl, le_rfl⟩, fun _ _ => rfl, rfl⟩
  | succ n ih =>
      rw [clearReverseList, after_read_bind]
      cases hrql : (t.hlist domain).rql with
      | nil =>
          refine ⟨⟨(t.hlist domain).rql, _, rfl, ?_⟩, fun _ _ => rfl, rfl⟩
          rw [hrql]
          exact Nat.zero_le _
      | cons hi rest =>
          have hfirst := popAndClose_works hserves hcontext (hi.addr % 2 ^ 32)
          have hcalls := calls_le_after (@appsRemotectlClose env (hi.addr % 2 ^ 32))
            (tableStep env t (.popReverse domain))
          simp only [after_emit_bind]
          rw [after_bind, after_discard, closeReverseHandle]
          have hrest := ih (hserves.mono hcalls) (hfirst.context.trans hcontext)
          refine ⟨?_, fun d hne => (hrest.others d hne).trans (hfirst.others d hne),
            hrest.context.trans hfirst.context⟩
          obtain ⟨l, k, hu, hl⟩ := hfirst.own
          obtain ⟨l', k', hv, hl'⟩ := hrest.own
          rw [hu] at hv hl'
          refine ⟨l', k', hv, ?_⟩
          dsimp only at hl'
          omega

/-- What the end of a session leaves of the `handle_list`. -/
structure SessionEnded (hl hl' : HandleList) : Prop where
  dev : hl'.dev = -1
  ql : hl'.ql = []
  nql : hl'.nql = hl.nql ∨ hl'.nql = []
  rql : hl'.rql = []

/-- The DSP is told that the process exits. -/
def exitProcess (domain : Domain) : TableM env PUnit := do
  let handle ← getAdspCurrentProcess1Handle domain
  if handle ≠ invalidHandle then discard (invokeSession handle) else discard callOut

/-- The call is the first part of `close_domain_session` and of `domain_deinit`. -/
theorem exitProcess_bind {α : Type} (m : TableM env α) :
    (do
      let handle ← getAdspCurrentProcess1Handle domain
      if handle ≠ invalidHandle then do
        discard (invokeSession handle)
        m
      else do
        discard callOut
        m : TableM env α) t = (exitProcess domain >>= fun _ => m) t := by
  apply Prod.ext
  · change Logged.val _ t = Logged.val _ t
    rw [val_bind, val_ite, val_bind, val_bind, val_bind, exitProcess, after_bind, after_ite]
    split <;> rfl
  · change Logged.log _ t = Logged.log _ t
    rw [log_bind, log_ite, log_bind, log_bind, log_bind, exitProcess, log_bind, log_ite, after_bind,
      after_ite]
    split <;> exact (List.append_assoc _ _ _).symm

/-- After the call the thread works on the domain, and there is a handle to make it with. -/
theorem exitProcess_atClose (h : AtClose env nodes domain t) :
    AtClose env nodes domain ((@exitProcess env domain).after t) ∧
      AskedFor .cphandle (t.hlist domain) (((@exitProcess env domain).after t).hlist domain) ∧
      (∀ d, d ≠ domain → ((@exitProcess env domain).after t).hlist d = t.hlist d) ∧
      ((@exitProcess env domain).after t).tlsKey = some domain := by
  obtain ⟨hu, hworks, hval⟩ := getSessionHandle_atClose h (.inl rfl)
    (show isConstHandle constAdspCurrentProcess1Handle = true by decide)
  change AtClose env nodes domain ((@getAdspCurrentProcess1Handle env domain).after t) at hu
  change Works domain _ t ((@getAdspCurrentProcess1Handle env domain).after t) at hworks
  change (@getAdspCurrentProcess1Handle env domain).val t =
    (((@getAdspCurrentProcess1Handle env domain).after t).hlist domain).cphandle at hval
  obtain ⟨n, hn, haddr⟩ := hu.closable.process.resolve_left hworks.own.cached
  have hne : n.addr ≠ invalidHandle := by
    have hrange := hu.placed.range domain n hn
    unfold invalidHandle
    omega
  have hafter : (@exitProcess env domain).after t =
      (@invokeSession env n.addr).after ((@getAdspCurrentProcess1Handle env domain).after t) := by
    rw [exitProcess, after_bind, hval, ← haddr, if_pos hne, after_discard]
  have hinvoke := invokeSession_of_mem hu hn
  rw [hafter]
  refine ⟨hu.after_same _ (by rw [hinvoke]), ?_, ?_, ?_⟩
  · rw [hinvoke]
    exact hworks.own
  · rw [hinvoke]
    exact hworks.others
  · rw [hinvoke]

/-- `domain_deinit` from the point where the DSP knows. -/
def endSession (domain : Domain) : TableM env PUnit := do
  emit (.setState domain .deinit)
  emit (.clear .multiDomain domain)
  let u ← read
  clearReverseList domain (u.hlist domain).rql.length
  if domain = defaultDomainId then emit (.clear .nonDomain domain)
  emit (.resetSession domain)
  emit (.setState domain .clean)

theorem domainDeinit_eq (hdev : (t.hlist domain).dev ≠ -1) :
    (@domainDeinit env domain) t = (@exitProcess env domain >>= fun _ => endSession domain) t := by
  rw [domainDeinit, read_bind, if_pos hdev]
  exact exitProcess_bind (endSession domain)

theorem works_step {R : HandleList → HandleList → Prop} {e : TableStep}
    (f : HandleList → HandleList) (he : tableStep env t e = t.modify domain f)
    (hf : R (t.hlist domain) (f (t.hlist domain))) : Works domain R t (tableStep env t e) := by
  have h := works_modify t domain f
  rw [he]
  exact ⟨h.own ▸ hf, h.others, h.context⟩

/-- The last two steps of `domain_deinit` leave the lists. -/
theorem resetSession_works (t : HandleTable) :
    Works domain (fun hl hl' => hl'.dev = -1 ∧ ∀ list, hl'.nodes list = hl.nodes list) t
      (tableStep env (tableStep env t (.resetSession domain)) (.setState domain .clean)) := by
  have hreset : Works domain (fun hl hl' => hl'.dev = -1 ∧ ∀ list, hl'.nodes list = hl.nodes list) t
      (tableStep env t (.resetSession domain)) :=
    works_step (fun hl => hl.resetSession domain) rfl ⟨rfl, fun list => by cases list <;> rfl⟩
  have hclean : Works domain (fun hl hl' => hl'.dev = hl.dev ∧ ∀ list, hl'.nodes list = hl.nodes list)
      (tableStep env t (.resetSession domain))
      (tableStep env (tableStep env t (.resetSession domain)) (.setState domain .clean)) :=
    works_step (fun hl => { hl with state := .clean }) rfl ⟨rfl, fun list => by cases list <;> rfl⟩
  refine ⟨⟨hclean.own.1.trans hreset.own.1, fun list => ?_⟩,
    (hreset.trans hclean).others, (hreset.trans hclean).context⟩
  rw [hclean.own.2, hreset.own.2]

theorem endSession_works (hserves : ServesFrom env t.calls) (hcontext : t.tlsKey = some domain) :
    Works domain SessionEnded t ((@endSession env domain).after t) := by
  rw [endSession, after_emit_bind, after_emit_bind, after_read_bind, after_bind]
  have hstate : Works domain (fun hl hl' => hl'.nql = hl.nql) t
      (tableStep env t (.setState domain .deinit)) :=
    works_step (fun hl => { hl with state := .deinit }) rfl rfl
  have hclear : Works domain (fun hl hl' => hl'.ql = [] ∧ hl'.nql = hl.nql)
      (tableStep env t (.setState domain .deinit))
      (tableStep env (tableStep env t (.setState domain .deinit)) (.clear .multiDomain domain)) :=
    works_step (fun hl => hl.setNodes .multiDomain []) rfl ⟨rfl, rfl⟩
  have hu := hstate.trans hclear
  have hcalls : (tableStep env (tableStep env t (.setState domain .deinit))
    (.clear .multiDomain domain)).calls = t.calls := rfl
  have hown : ((tableStep env (tableStep env t (.setState domain .deinit))
      (.clear .multiDomain domain)).hlist domain).ql = [] ∧
      ((tableStep env (tableStep env t (.setState domain .deinit))
        (.clear .multiDomain domain)).hlist domain).nql = (t.hlist domain).nql :=
    ⟨hclear.own.1, hclear.own.2.trans hstate.own⟩
  generalize tableStep env (tableStep env t (.setState domain .deinit))
    (.clear .multiDomain domain) = u at hu hcalls hown ⊢
  have hreverse := clearReverseList_works (u.hlist domain).rql.length
    (hserves.mono hcalls.ge) (hu.context.trans hcontext)
  have hv := hu.trans hreverse
  generalize (@clearReverseList env domain (u.hlist domain).rql.length).after u = v at hreverse hv ⊢
  obtain ⟨l, k, hlists, hl⟩ := hreverse.own
  have hnil : l = [] := List.length_eq_zero_iff.mp (by omega)
  rw [after_ite]
  split
  · have hnql : Works domain (fun hl hl' => hl'.ql = hl.ql ∧ hl'.nql = [] ∧ hl'.rql = hl.rql) v
        (tableStep env v (.clear .nonDomain domain)) :=
      works_step (fun hl => hl.setNodes .nonDomain []) rfl ⟨rfl, rfl, rfl⟩
    have hreset := @resetSession_works env domain (tableStep env v (.clear .nonDomain domain))
    have hall := (hv.trans hnql).trans hreset
    refine ⟨⟨hreset.own.1, ?_, .inr ?_, ?_⟩, hall.others, hall.context⟩
    · exact (hreset.own.2 .multiDomain).trans (hnql.own.1.trans (hlists ▸ hown.1))
    · exact (hreset.own.2 .nonDomain).trans hnql.own.2.1
    · exact (hreset.own.2 .reverse).trans (hnql.own.2.2.trans (hlists ▸ hnil))
  · have hreset := @resetSession_works env domain v
    have hall := hv.trans hreset
    refine ⟨⟨hreset.own.1, ?_, .inl ?_, ?_⟩, hall.others, hall.context⟩
    · exact (hreset.own.2 .multiDomain).trans (hlists ▸ hown.1)
    · exact (hreset.own.2 .nonDomain).trans (hlists ▸ hown.2)
    · exact (hreset.own.2 .reverse).trans (hlists ▸ hnil)

theorem domainDeinit_works (h : AtClose env nodes domain t) (hdev : (t.hlist domain).dev ≠ -1)
    (hcontext : t.tlsKey = some domain) :
    Works domain SessionEnded t ((@domainDeinit env domain).after t) := by
  obtain ⟨hu, hasked, hothers, hcontext'⟩ := exitProcess_atClose h
  have hend := endSession_works hu.serves hcontext'
  rw [after_of_eq t (domainDeinit_eq hdev), after_bind]
  refine ⟨⟨hend.own.dev, hend.own.ql, ?_, hend.own.rql⟩,
    fun d hne => (hend.others d hne).trans (hothers d hne),
    hend.context.trans (hcontext'.trans hcontext.symm)⟩
  rw [← hasked.nql]
  exact hend.own.nql

/-- The module of the last handle is not closed on the DSP. -/
theorem closeOnDomain_last (h : AtClose env nodes domain t) {n : HandleInfo}
    (hn : n ∈ (t.hlist domain).ql) :
    (@closeOnDomain env domain n.addr n.remote true).val t = aeeSuccess ∧
      AtClose env nodes domain ((@closeOnDomain env domain n.addr n.remote true).after t) ∧
      Works domain (fun hl hl' => hl' = { hl with domainsCount := subU32 hl.domainsCount 1 }) t
        ((@closeOnDomain env domain n.addr n.remote true).after t) := by
  have hval : (@closeRemote env domain n.remote true).val t = aeeSuccess := rfl
  obtain ⟨hclose, hafter⟩ := @closeOnDomain_eq env domain t n.addr _ _ hval
  change (@closeOnDomain env domain n.addr n.remote true).after t =
    t.modify domain (fun hl => hl.dequeue .multiDomain n.addr) at hafter
  rw [hafter]
  exact ⟨hclose, dequeueAddr_atClose h hn⟩

/-- **The last handle.** Its close ends the session. -/
theorem remoteHandle64Close_ends (h : AtClose env nodes domain t) (hcontext : t.tlsKey = some domain)
    {n : HandleInfo} (hn : n ∈ (t.hlist domain).ql) (hdev : (t.hlist domain).dev ≠ -1)
    (hlast : t.startDeinit domain = true) :
    Works domain SessionEnded t ((@remoteHandle64Close env n.addr).after t) := by
  obtain ⟨hclose, hu, hcount⟩ := closeOnDomain_last h hn
  rw [remoteHandle64Close_of_mem h.placed hcontext hn (by rw [hlast, hclose]), hlast, if_pos rfl]
  have hdev' : (((@closeOnDomain env domain n.addr n.remote true).after t).hlist domain).dev ≠ -1 := by
    rw [hcount.own]
    exact hdev
  have hend := domainDeinit_works hu hdev' (hcount.context.trans hcontext)
  refine ⟨⟨hend.own.dev, hend.own.ql, ?_, hend.own.rql⟩, (hcount.trans hend).others,
    (hcount.trans hend).context⟩
  have hnql := hend.own.nql
  rwa [hcount.own] at hnql

end Functions

end FastRpc
