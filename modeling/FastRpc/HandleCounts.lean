import FastRpc.HandleTable

/-! # The counters of the handle table

A counter of a domain should be the number of nodes of its class on the domain's lists
(`HandleList.CountsMatch`).  A step keeps this when it meets `CountsKept`: a dequeue finds a node
with its key, a wholesale clear or a `QList_Ctor` finds the list empty, and the `2 ^ 32`th node of a
class is never added.  `counts_match` shows that these conditions are exact: along a run of any
operations the counters follow the lists, step by step, just as long as every step meets its
condition. -/

namespace FastRpc

open Transition Logged

/-! ### Classes of nodes -/

/-- Two handle values on two lists are counted by the same counter. -/
def sameClass (list : HandleListId) (h : ℕ) (list' : HandleListId) (h' : ℕ) : Bool :=
  list = list' && (list ≠ .multiDomain || isConstHandle h = isConstHandle h')

theorem sameClass_symm (list : HandleListId) (h h' : ℕ) :
    sameClass list h list h' = sameClass list h' list h := by
  simp [sameClass, eq_comm]

theorem sameClass_of_ne {list list' : HandleListId} (hne : list ≠ list') (h h' : ℕ) :
    sameClass list h list' h' = false := by
  simp [sameClass, hne]

@[simp] theorem sameClass_self (list : HandleListId) (h : ℕ) : sameClass list h list h = true := by
  simp [sameClass]

namespace HandleList

/-- The nodes that the counter for `list` and `h` stands for. -/
def members (hl : HandleList) (list : HandleListId) (h : ℕ) : List HandleInfo :=
  (hl.nodes list).filter (fun hi => sameClass list h list hi.remote)

/-- The counters of a domain are the numbers of nodes of their classes. -/
structure CountsMatch (hl : HandleList) : Prop where
  const : hl.constCount = (hl.ql.filter (fun hi => isConstHandle hi.remote)).length
  domains : hl.domainsCount = (hl.ql.filter (fun hi => !isConstHandle hi.remote)).length
  nondomains : hl.nondomainsCount = hl.nql.length
  reverse : hl.reverseCount = hl.rql.length

theorem members_const {h : ℕ} (hl : HandleList) (hc : isConstHandle h = true) :
    hl.members .multiDomain h = hl.ql.filter (fun hi => isConstHandle hi.remote) := by
  refine List.filter_congr (fun hi _ => ?_)
  cases hr : isConstHandle hi.remote <;> simp [sameClass, hc, hr]

theorem members_domains {h : ℕ} (hl : HandleList) (hc : isConstHandle h = false) :
    hl.members .multiDomain h = hl.ql.filter (fun hi => !isConstHandle hi.remote) := by
  refine List.filter_congr (fun hi _ => ?_)
  cases hr : isConstHandle hi.remote <;> simp [sameClass, hc, hr]

theorem members_other {list : HandleListId} (hl : HandleList) (hlist : list ≠ .multiDomain)
    (h : ℕ) : hl.members list h = hl.nodes list := by
  simp [members, sameClass, hlist]

/-- The same by the key of the counter. -/
theorem countsMatch_iff (hl : HandleList) :
    hl.CountsMatch ↔ ∀ list h, hl.count list h = (hl.members list h).length := by
  constructor
  · intro hm list h
    cases list with
    | multiDomain =>
        cases hc : isConstHandle h with
        | true => rw [hl.members_const hc, count, if_pos hc, hm.const]
        | false =>
            rw [hl.members_domains hc, count, if_neg (by simp [hc]), hm.domains]
    | nonDomain => rw [hl.members_other (by decide)]; exact hm.nondomains
    | reverse => rw [hl.members_other (by decide)]; exact hm.reverse
  · intro hm
    refine ⟨?_, ?_, ?_, ?_⟩
    · rw [← hl.members_const (h := 0) (by decide)]; exact hm .multiDomain 0
    · rw [← hl.members_domains (h := 0xff) (by decide)]; exact hm .multiDomain 0xff
    · have hn := hm .nonDomain 0
      rwa [hl.members_other (by decide)] at hn
    · have hr := hm .reverse 0
      rwa [hl.members_other (by decide)] at hr

@[simp] theorem count_setNodes (hl : HandleList) (list list' : HandleListId) (l : List HandleInfo)
    (h : ℕ) : (hl.setNodes list l).count list' h = hl.count list' h := by
  cases list <;> cases list' <;> rfl

theorem count_setCount (hl : HandleList) (list list' : HandleListId) (h h' n : ℕ) :
    (hl.setCount list h n).count list' h' =
      if sameClass list h list' h' then n else hl.count list' h' := by
  cases list <;> cases list' <;> cases hc : isConstHandle h <;> cases hc' : isConstHandle h' <;>
    simp [setCount, count, sameClass, hc, hc']

theorem count_of_sameClass {list list' : HandleListId} {h h' : ℕ} (hl : HandleList)
    (hs : sameClass list h list' h' = true) : hl.count list h = hl.count list' h' := by
  simp only [sameClass, Bool.and_eq_true, Bool.or_eq_true, decide_eq_true_eq] at hs
  obtain ⟨rfl, hs⟩ := hs
  cases list with
  | multiDomain => simp only [count, hs.resolve_left (by simp)]
  | nonDomain => rfl
  | reverse => rfl

@[simp] theorem nodes_setCount (hl : HandleList) (list list' : HandleListId) (h n : ℕ) :
    (hl.setCount list h n).nodes list' = hl.nodes list' := by
  cases list <;> cases list' <;> simp only [setCount, nodes] <;> split <;> rfl

theorem nodes_setNodes (hl : HandleList) (list list' : HandleListId) (l : List HandleInfo) :
    (hl.setNodes list l).nodes list' = if list = list' then l else hl.nodes list' := by
  cases list <;> cases list' <;> rfl

@[simp] theorem members_setCount (hl : HandleList) (list list' : HandleListId) (h h' n : ℕ) :
    (hl.setCount list h n).members list' h' = hl.members list' h' := by
  rw [members, nodes_setCount, members]

end HandleList

/-! ### One step -/

theorem fastrpcFreeHandle_of_mem {me : List HandleInfo} {h : ℕ}
    (hmem : ∃ hi ∈ me, hi.remote = h) :
    ∃ n l₁ l₂, n.remote = h ∧ me = l₁ ++ n :: l₂ ∧ fastrpcFreeHandle me h = l₁ ++ l₂ := by
  obtain ⟨hi, hmem, hr⟩ := hmem
  obtain ⟨n, l₁, l₂, -, hn, hl, he⟩ :=
    List.exists_of_eraseP (p := fun hi : HandleInfo => hi.remote = h) hmem (by simpa using hr)
  exact ⟨n, l₁, l₂, by simpa using hn, hl, he⟩

theorem fastrpcFreeHandle_of_notMem {me : List HandleInfo} {h : ℕ}
    (hmem : ¬ ∃ hi ∈ me, hi.remote = h) : fastrpcFreeHandle me h = me :=
  List.eraseP_of_forall_not (fun hi hmem' hr => hmem ⟨hi, hmem', by simpa using hr⟩)

namespace HandleList

theorem prepend_nodes (hl : HandleList) (list list' : HandleListId) (n : HandleInfo) :
    (hl.prepend list n).nodes list' =
      if list = list' then n :: hl.nodes list else hl.nodes list' := by
  rw [prepend, nodes_setCount, nodes_setNodes]

theorem dequeue_nodes (hl : HandleList) (list list' : HandleListId) (h : ℕ) :
    (hl.dequeue list h).nodes list' =
      if list = list' then fastrpcFreeHandle (hl.nodes list) h else hl.nodes list' := by
  rw [dequeue, nodes_setCount, nodes_setNodes]

theorem prepend_count (hl : HandleList) (list list' : HandleListId) (n : HandleInfo) (h : ℕ) :
    (hl.prepend list n).count list' h =
      if sameClass list n.remote list' h then addU32 (hl.count list n.remote) 1
      else hl.count list' h := by
  rw [prepend, count_setCount, count_setNodes]

/-- The class of the new node grows by it. -/
theorem prepend_members (hl : HandleList) (list list' : HandleListId) (n : HandleInfo) (h : ℕ) :
    ((hl.prepend list n).members list' h).length =
      (hl.members list' h).length + if sameClass list n.remote list' h then 1 else 0 := by
  rw [members, prepend_nodes]
  by_cases hlist : list = list'
  · subst hlist
    rw [if_pos rfl, List.filter_cons, sameClass_symm list h, members]
    split <;> simp
  · rw [if_neg hlist, sameClass_of_ne hlist, members]
    simp

theorem dequeue_count (hl : HandleList) (list list' : HandleListId) (key h : ℕ) :
    (hl.dequeue list key).count list' h =
      if sameClass list key list' h then subU32 (hl.count list key) 1 else hl.count list' h := by
  rw [dequeue, count_setCount, count_setNodes]

/-- The class of the key shrinks by one node when there is a node with the key. -/
theorem dequeue_members (hl : HandleList) (list list' : HandleListId) (key h : ℕ)
    (hmem : ∃ hi ∈ hl.nodes list, hi.remote = key) :
    ((hl.dequeue list key).members list' h).length +
      (if sameClass list key list' h then 1 else 0) = (hl.members list' h).length := by
  obtain ⟨n, l₁, l₂, rfl, hl₀, hfree⟩ := fastrpcFreeHandle_of_mem hmem
  rw [members, dequeue_nodes, hfree]
  by_cases hlist : list = list'
  · subst hlist
    rw [if_pos rfl, members, hl₀, sameClass_symm list n.remote]
    simp only [List.filter_append, List.filter_cons, List.length_append]
    split
    · simp; omega
    · simp
  · rw [if_neg hlist, sameClass_of_ne hlist, members]
    simp

/-- Where no node has the key, only the counter changes. -/
theorem dequeue_members_of_notMem (hl : HandleList) (list list' : HandleListId) (key h : ℕ)
    (hmem : ¬ ∃ hi ∈ hl.nodes list, hi.remote = key) :
    (hl.dequeue list key).members list' h = hl.members list' h := by
  rw [members, dequeue_nodes, fastrpcFreeHandle_of_notMem hmem, members]
  split
  · next hlist => rw [hlist]
  · rfl

theorem members_setNodes_nil (hl : HandleList) (list : HandleListId) (h : ℕ) :
    (hl.setNodes list []).members list h = [] := by
  rw [members, nodes_setNodes, if_pos rfl, List.filter_nil]

/-- A list that is cleared with its counters right is empty, or its counters are wrong then. -/
theorem setNodes_nil_matches {hl : HandleList} (hm : hl.CountsMatch) (list : HandleListId) :
    (hl.setNodes list []).CountsMatch ↔ hl.nodes list = [] := by
  constructor
  · intro hc
    by_contra hne
    obtain ⟨n, hn⟩ := List.exists_mem_of_ne_nil _ hne
    have hzero := (countsMatch_iff _).mp hc list n.remote
    rw [count_setNodes, (countsMatch_iff _).mp hm list n.remote, members_setNodes_nil,
      List.length_nil, List.length_eq_zero_iff] at hzero
    have hmem : n ∈ hl.members list n.remote := List.mem_filter.mpr ⟨hn, sameClass_self _ _⟩
    rw [hzero] at hmem
    exact absurd hmem List.not_mem_nil
  · intro hnil
    have hsame : hl.setNodes list [] = hl := by
      cases list <;> simp only [nodes] at hnil <;> simp only [setNodes, ← hnil]
    rwa [hsame]

end HandleList

/-! ### Conditions -/

/-- The condition under which a step keeps the counters: a dequeue finds its key, what clears a list
finds it empty, and a class gets no node more than its counter can count. -/
def CountsKept (env : TableEnv) (t : HandleTable) : TableStep → Prop
  | .update (.prepend list) domain h =>
      env.calloc t.calls t.live = none ∨ (t.hlist domain).count list h + 1 < 2 ^ 32
  | .update (.dequeue list) domain h => ∃ hi ∈ (t.hlist domain).nodes list, hi.remote = h
  | .clear list domain => (t.hlist domain).nodes list = []
  | .popReverse domain => (t.hlist domain).rql = []
  | .ctor domain => (t.hlist domain).ql = [] ∧ (t.hlist domain).nql = [] ∧ (t.hlist domain).rql = []
  | _ => True

/-- The counters of every domain match its lists. -/
def HandleTable.CountsMatch (t : HandleTable) : Prop := ∀ domain, (t.hlist domain).CountsMatch

/-- The counters are `uint32_t` values. -/
def HandleTable.CountsU32 (t : HandleTable) : Prop :=
  ∀ domain list h, (t.hlist domain).count list h < 2 ^ 32

namespace HandleList

/-- A counter follows a new node unless it wraps. -/
theorem prepend_matches {hl : HandleList} (hm : hl.CountsMatch) (list : HandleListId)
    (n : HandleInfo) :
    (hl.prepend list n).CountsMatch ↔ hl.count list n.remote + 1 < 2 ^ 32 := by
  rw [countsMatch_iff] at hm ⊢
  constructor
  · intro h
    have hn := h list n.remote
    rw [prepend_count, prepend_members, ← hm list n.remote, sameClass_self, if_pos rfl,
      if_pos rfl, addU32] at hn
    have hlt := Nat.mod_lt (hl.count list n.remote + 1) (show 0 < 2 ^ 32 by decide)
    omega
  · intro hn list' h
    rw [prepend_count, prepend_members, ← hm list' h]
    split
    · next hs => rw [addU32_of_lt hn, hl.count_of_sameClass hs]
    · rfl

/-- A counter follows a dequeue just when a node is found. -/
theorem dequeue_matches {hl : HandleList} (hm : hl.CountsMatch) {list : HandleListId} {key : ℕ}
    (hlt : hl.count list key < 2 ^ 32) :
    (hl.dequeue list key).CountsMatch ↔ ∃ hi ∈ hl.nodes list, hi.remote = key := by
  rw [countsMatch_iff] at hm ⊢
  constructor
  · intro h
    by_contra hmem
    have hbad := h list key
    rw [dequeue_count, dequeue_members_of_notMem _ _ _ _ _ hmem, ← hm list key, sameClass_self,
      if_pos rfl, subU32] at hbad
    omega
  · intro hmem list' h
    have hlen := hl.dequeue_members list list' key h hmem
    rw [dequeue_count]
    rw [← hm list' h] at hlen
    split at hlen
    · next hs =>
        have hcount := hl.count_of_sameClass hs
        rw [if_pos hs, subU32_of_le (by omega) hlt]
        omega
    · next hs => rw [if_neg hs]; omega

/-- `QList_Ctor` of the three lists is three clears. -/
theorem ctor_matches {hl : HandleList} (hm : hl.CountsMatch) :
    { hl with ql := [], nql := [], rql := [] }.CountsMatch ↔
      hl.ql = [] ∧ hl.nql = [] ∧ hl.rql = [] := by
  constructor
  · intro hc
    refine ⟨(setNodes_nil_matches hm .multiDomain).mp ⟨hc.const, hc.domains, hm.nondomains,
      hm.reverse⟩, (setNodes_nil_matches hm .nonDomain).mp ⟨hm.const, hm.domains, hc.nondomains,
      hm.reverse⟩, (setNodes_nil_matches hm .reverse).mp ⟨hm.const, hm.domains, hm.nondomains,
      hc.reverse⟩⟩
  · rintro ⟨hq, hn, hr⟩
    exact ⟨by simpa [hq] using hm.const, by simpa [hq] using hm.domains,
      by simpa [hn] using hm.nondomains, by simpa [hr] using hm.reverse⟩

theorem popReverse_matches {hl : HandleList} (hm : hl.CountsMatch) :
    { hl with rql := hl.rql.tail }.CountsMatch ↔ hl.rql = [] := by
  constructor
  · intro hc
    have hlen := hc.reverse.symm.trans hm.reverse
    rw [List.length_tail] at hlen
    exact List.length_eq_zero_iff.mp (by omega)
  · intro hr
    exact ⟨hm.const, hm.domains, hm.nondomains, by simpa [hr] using hm.reverse⟩

/-- What touches neither the lists nor the counters. -/
structure SameLists (hl hl' : HandleList) : Prop where
  nodes_eq : hl'.nodes = hl.nodes
  count_eq : hl'.count = hl.count

theorem SameLists.matches_iff {hl hl' : HandleList} (h : SameLists hl hl') :
    hl'.CountsMatch ↔ hl.CountsMatch := by
  rw [countsMatch_iff, countsMatch_iff]
  simp only [members, h.nodes_eq, h.count_eq]

theorem SameLists.trans {hl hl' hl'' : HandleList} (h : SameLists hl hl') (h' : SameLists hl' hl'') :
    SameLists hl hl'' :=
  ⟨h'.nodes_eq.trans h.nodes_eq, h'.count_eq.trans h.count_eq⟩

/-- A dequeue looks at the lists and the counters only. -/
theorem SameLists.dequeue {hl hl' : HandleList} (h : SameLists hl hl') (list : HandleListId)
    (key : ℕ) : SameLists (hl.dequeue list key) (hl'.dequeue list key) where
  nodes_eq := by
    funext list'
    rw [dequeue_nodes, dequeue_nodes, h.nodes_eq]
  count_eq := by
    funext list' h'
    rw [dequeue_count, dequeue_count, h.count_eq]

theorem setSlot_sameLists (hl : HandleList) (s : SessionHandle) (v : ℕ) :
    SameLists hl (hl.setSlot s v) := by
  cases s <;> exact ⟨rfl, rfl⟩

end HandleList

namespace HandleTable

theorem modify_matches_iff {t : HandleTable} (ht : t.CountsMatch) (domain : Domain)
    (f : HandleList → HandleList) :
    (t.modify domain f).CountsMatch ↔ (f (t.hlist domain)).CountsMatch := by
  constructor
  · intro h
    simpa using h domain
  · intro h d
    rcases eq_or_ne d domain with rfl | hne
    · rwa [modify_hlist]
    · rw [modify_hlist_of_ne hne]
      exact ht d

end HandleTable

/-- What one step can make of the `handle_list` of a domain. -/
inductive ListChange (env : TableEnv) (t : HandleTable) (domain : Domain) : HandleList → Prop
  | same {hl : HandleList} (h : HandleList.SameLists (t.hlist domain) hl) : ListChange env t domain hl
  | prepend (list : HandleListId) (addr h : ℕ) (hcalloc : env.calloc t.calls t.live = some addr) :
      ListChange env t domain ((t.hlist domain).prepend list ⟨domain, addr, h⟩)
  | dequeue (list : HandleListId) (h : ℕ) : ListChange env t domain ((t.hlist domain).dequeue list h)
  | clear (list : HandleListId) : ListChange env t domain ((t.hlist domain).setNodes list [])
  | popReverse : ListChange env t domain { t.hlist domain with rql := (t.hlist domain).rql.tail }
  | ctor : ListChange env t domain { t.hlist domain with ql := [], nql := [], rql := [] }

/-- Between two tables at most one `handle_list` has changed, by a step. -/
def OneChange (env : TableEnv) (t t' : HandleTable) : Prop :=
  ∃ domain, ListChange env t domain (t'.hlist domain) ∧ ∀ d, d ≠ domain → t'.hlist d = t.hlist d

theorem OneChange.of_eq {env : TableEnv} {t t' : HandleTable} (h : t'.hlist = t.hlist) :
    OneChange env t t' :=
  ⟨0, .same (h ▸ ⟨rfl, rfl⟩), fun _ _ => h ▸ rfl⟩

theorem OneChange.of_modify {env : TableEnv} {t t' : HandleTable} {domain : Domain}
    {f : HandleList → HandleList} (ht' : t'.hlist = (t.modify domain f).hlist)
    (h : ListChange env t domain (f (t.hlist domain))) : OneChange env t t' := by
  refine ⟨domain, ?_, fun d hne => ?_⟩
  · rw [ht', HandleTable.modify_hlist]
    exact h
  · rw [ht', HandleTable.modify_hlist_of_ne hne]

/-- A step changes the `handle_list` of one domain at most. -/
theorem tableStep_change (env : TableEnv) (t : HandleTable) (e : TableStep) :
    OneChange env t (tableStep env t e) := by
  cases e with
  | update req domain h =>
      cases req with
      | prepend list =>
          cases halloc : env.calloc t.calls t.live with
          | none => simp only [tableStep, halloc]; exact .of_eq rfl
          | some addr =>
              simp only [tableStep, halloc]
              exact .of_modify (f := fun hl => hl.prepend list ⟨domain, addr, h⟩) rfl
                (.prepend list addr h halloc)
      | dequeue list => exact .of_modify (f := fun hl => hl.dequeue list h) rfl (.dequeue list h)
  | clear list domain => exact .of_modify (f := fun hl => hl.setNodes list []) rfl (.clear list)
  | popReverse domain =>
      exact .of_modify (f := fun hl => { hl with rql := hl.rql.tail }) rfl .popReverse
  | ctor domain =>
      exact .of_modify (f := fun hl => { hl with ql := [], nql := [], rql := [] }) rfl .ctor
  | setSlot s domain v =>
      exact .of_modify (f := fun hl => hl.setSlot s v) rfl
        (.same (HandleList.setSlot_sameLists _ s v))
  | setState domain state =>
      exact .of_modify (f := fun hl => { hl with state := state }) rfl (.same ⟨rfl, rfl⟩)
  | setDev domain dev =>
      exact .of_modify (f := fun hl => { hl with dev := dev }) rfl (.same ⟨rfl, rfl⟩)
  | setDsppd domain pd =>
      exact .of_modify (f := fun hl => { hl with dsppd := pd }) rfl (.same ⟨rfl, rfl⟩)
  | resetSession domain =>
      exact .of_modify (f := fun hl => hl.resetSession domain) rfl (.same ⟨rfl, rfl⟩)
  | setThreadContext domain => exact .of_eq rfl
  | call => exact .of_eq rfl

theorem ListChange.countsU32 {env : TableEnv} {t : HandleTable} {domain : Domain}
    {hl : HandleList} (hchange : ListChange env t domain hl) (ht : t.CountsU32)
    (list' : HandleListId) (h' : ℕ) : hl.count list' h' < 2 ^ 32 := by
  have hmod : ∀ n, n % 2 ^ 32 < 2 ^ 32 := fun n => Nat.mod_lt n (by decide)
  have hold := ht domain list' h'
  cases hchange with
  | same h => rwa [h.count_eq]
  | prepend list addr h =>
      rw [HandleList.prepend_count]
      split
      · exact hmod _
      · exact hold
  | dequeue list h =>
      rw [HandleList.dequeue_count]
      split
      · exact hmod _
      · exact hold
  | clear list => rwa [HandleList.count_setNodes]
  | popReverse => exact hold
  | ctor => exact hold

/-- The counters stay `uint32_t` values. -/
theorem tableStep_countsU32 {env : TableEnv} {t : HandleTable} (e : TableStep)
    (ht : t.CountsU32) : (tableStep env t e).CountsU32 := by
  obtain ⟨domain, hchange, hother⟩ := tableStep_change env t e
  intro d
  rcases eq_or_ne d domain with rfl | hne
  · exact hchange.countsU32 ht
  · rw [hother d hne]
    exact ht d

/-- **What a step does to the counters of the table.** -/
theorem tableStep_matches_iff {env : TableEnv} {t : HandleTable} (e : TableStep)
    (hm : t.CountsMatch) (hlt : t.CountsU32) :
    (tableStep env t e).CountsMatch ↔ CountsKept env t e := by
  have hsame : ∀ domain f, HandleList.SameLists (t.hlist domain) (f (t.hlist domain)) →
      ((t.modify domain f).CountsMatch ↔ True) := fun domain f h =>
    iff_true_intro ((HandleTable.modify_matches_iff hm domain f).mpr
      (h.matches_iff.mpr (hm domain)))
  cases e with
  | update req domain h =>
      cases req with
      | prepend list =>
          cases halloc : env.calloc t.calls t.live with
          | none => simp only [tableStep, CountsKept, halloc, true_or, iff_true]; exact hm
          | some addr =>
              simp only [tableStep, CountsKept, halloc, reduceCtorEq, false_or]
              exact (HandleTable.modify_matches_iff hm domain
                (fun hl => hl.prepend list ⟨domain, addr, h⟩)).trans
                (HandleList.prepend_matches (hm domain) list ⟨domain, addr, h⟩)
      | dequeue list =>
          exact (HandleTable.modify_matches_iff hm domain (fun hl => hl.dequeue list h)).trans
            (HandleList.dequeue_matches (hm domain) (hlt domain list h))
  | clear list domain =>
      exact (HandleTable.modify_matches_iff hm domain (fun hl => hl.setNodes list [])).trans
        (HandleList.setNodes_nil_matches (hm domain) list)
  | popReverse domain =>
      exact (HandleTable.modify_matches_iff hm domain
        (fun hl => { hl with rql := hl.rql.tail })).trans (HandleList.popReverse_matches (hm domain))
  | ctor domain =>
      exact (HandleTable.modify_matches_iff hm domain
        (fun hl => { hl with ql := [], nql := [], rql := [] })).trans
        (HandleList.ctor_matches (hm domain))
  | setSlot s domain v =>
      exact hsame domain (fun hl => hl.setSlot s v) (HandleList.setSlot_sameLists _ s v)
  | setState domain state => exact hsame domain (fun hl => { hl with state := state }) ⟨rfl, rfl⟩
  | setDev domain dev => exact hsame domain (fun hl => { hl with dev := dev }) ⟨rfl, rfl⟩
  | setDsppd domain pd => exact hsame domain (fun hl => { hl with dsppd := pd }) ⟨rfl, rfl⟩
  | resetSession domain => exact hsame domain (fun hl => hl.resetSession domain) ⟨rfl, rfl⟩
  | setThreadContext domain => exact iff_true_intro hm
  | call => exact iff_true_intro hm

theorem start_countsU32 : HandleTable.start.CountsU32 := by
  intro _ list h
  cases list <;> simp [HandleTable.start, HandleList.start, HandleList.count]

/-- **Handle counts.** Along any run of opens, closes, session closes and deinitialisations, the
four counters of every domain equal the numbers of nodes of their classes, after every step, exactly
when every step finds what it needs; they then do so after every operation. -/
theorem counts_match (env : TableEnv) (ops : List TableOp) :
    (Along (asTransition (tableStep env)) HandleTable.CountsMatch HandleTable.start
        (tableHistory env ops) ↔
      Guarded (asTransition (tableStep env)) (CountsKept env) HandleTable.start
        (tableHistory env ops)) ∧
    (Guarded (asTransition (tableStep env)) (CountsKept env) HandleTable.start
        (tableHistory env ops) →
      Along (fun t op => some ((@TableOp.exec env op).after t)) HandleTable.CountsMatch
        HandleTable.start ops) := by
  have hstep : ∀ s e t, HandleTable.CountsMatch s ∧ HandleTable.CountsU32 s → CountsKept env s e →
      asTransition (tableStep env) s e = some t → t.CountsMatch ∧ t.CountsU32 := by
    rintro s e _ ⟨hm, hlt⟩ hC ⟨⟩
    exact ⟨(tableStep_matches_iff e hm hlt).mpr hC, tableStep_countsU32 e hlt⟩
  have hbad : ∀ s e t, HandleTable.CountsMatch s ∧ HandleTable.CountsU32 s → ¬ CountsKept env s e →
      asTransition (tableStep env) s e = some t → ¬ t.CountsMatch := by
    rintro s e _ ⟨hm, hlt⟩ hC ⟨⟩
    exact mt (tableStep_matches_iff e hm hlt).mp hC
  have hiff := along_iff_guarded hstep (fun _ hs => hs.1) hbad
    ⟨fun _ => ⟨rfl, rfl, rfl, rfl⟩, start_countsU32⟩
    (run_asTransition HandleTable.start (tableHistory env ops))
  exact ⟨hiff, fun hg => along_programs (hiff.mpr hg)⟩

/-- Two modules are opened on a domain and the first is closed: the count drops, and both nodes are
still there. -/
theorem closed_handle_still_listed :
    ¬ (tableAfter (quietEnv (0x9000 + ·)) [.remoteHandle64Open (some 0) .module,
      .remoteHandle64Open (some 0) .module, .remoteHandle64Close 0x1030]).CountsMatch :=
  fun h => absurd (h 0).domains (by decide +kernel)

end FastRpc
