import FastRpc.LinkedRings

/-! # `QList`

`inc/AEEQList.h`: queues as circular doubly-linked lists with a head node.  The operations are given as the
assignments of the source in their order, on the pointers of all nodes; following a null pointer is an error
(`none`).  They have no branches for an empty list, whose head is its own neighbour.

`specOf` says what each operation does to the lists.  In a heap that represents a family of lists every
operation that is `Applicable` there runs and does that (`exec_represents`), and so does every sequence of them,
as long as it keeps to a rule of the header (`DequeuesQueued`): a node that is not queued is not dequeued, unless
its pointers are null.  `QList_Pop` leaves the pointers of its node, so that the rule matters
(`dequeue_unqueued`). -/

namespace FastRpc.QList

open LinkedRings

variable {α : Type*} [DecidableEq α]

/-! ### The source -/

/-- `p->pNext`. -/
def loadNext (L : Links α) (p : Option α) : Option (Option α) := p.map L.next

/-- `p->pPrev`. -/
def loadPrev (L : Links α) (p : Option α) : Option (Option α) := p.map L.prev

/-- `p->pNext = v`. -/
def storeNext (L : Links α) (p v : Option α) : Option (Links α) := p.map (fun a => L.setNext a v)

/-- `p->pPrev = v`. -/
def storePrev (L : Links α) (p v : Option α) : Option (Links α) := p.map (fun a => L.setPrev a v)

/-- `QNode_InsPrev`. -/
def qnodeInsPrev (L : Links α) (me pn : α) : Option (Links α) := do
  let pPrev := L.prev me
  let L := L.setNext pn (some me)
  let L := L.setPrev pn pPrev
  let L ← storeNext L pPrev (some pn)
  return L.setPrev me (some pn)

/-- `QNode_InsNext`. -/
def qnodeInsNext (L : Links α) (me pn : α) : Option (Links α) := do
  let pNext := L.next me
  let L := L.setPrev pn (some me)
  let L := L.setNext pn pNext
  let L ← storePrev L pNext (some pn)
  return L.setNext me (some pn)

/-- `QNode_Dequeue`. -/
def qnodeDequeue (L : Links α) (me : α) : Option (Links α) := do
  let pNext := L.next me
  let pPrev := L.prev me
  let L ← storeNext L pPrev pNext
  storePrev L pNext pPrev

/-- `QNode_CtorZ`. -/
def qnodeCtorZ (L : Links α) (me : α) : Links α := (L.setPrev me none).setNext me none

/-- `QNode_IsQueuedZ`. -/
def qnodeIsQueuedZ (L : Links α) (me : α) : Bool := (L.next me).isSome

/-- `QNode_DequeueZ`. -/
def qnodeDequeueZ (L : Links α) (me : α) : Option (Links α) :=
  if qnodeIsQueuedZ L me then do
    let L ← qnodeDequeue L me
    return qnodeCtorZ L me
  else some L

/-- `QList_Zero`. -/
def qlistZero (L : Links α) (me : α) : Links α := (L.setPrev me (some me)).setNext me (some me)

/-- `QList_Ctor`. -/
def qlistCtor (L : Links α) (me : α) : Links α := qlistZero L me

/-- `QList_AppendNode`. -/
def qlistAppendNode (L : Links α) (me pn : α) : Option (Links α) := qnodeInsPrev L me pn

/-- `QList_PrependNode`. -/
def qlistPrependNode (L : Links α) (me pn : α) : Option (Links α) := qnodeInsNext L me pn

/-- `QList_CtorFrom`. -/
def qlistCtorFrom (L : Links α) (d s : α) : Option (Links α) := do
  let L ← storePrev L (L.next s) (some d)
  let L := L.setPrev d (L.prev s)
  let L := L.setNext d (L.next s)
  let L ← storeNext L (L.prev s) (some d)
  return qlistZero L s

/-- `QList_AppendList`. -/
def qlistAppendList (L : Links α) (d s : α) : Option (Links α) := do
  let dp := L.prev d
  let sn := L.next s
  let L ← storePrev L sn dp
  let L ← storeNext L dp sn
  let sp := L.prev s
  let L := L.setPrev d sp
  let L ← storeNext L sp (some d)
  return qlistZero L s

/-- `pn == &me->n ? 0 : pn`. -/
def unlessHead (me : α) (pn : Option α) : Option α := if pn = some me then none else pn

/-- `QList_Pop`. -/
def qlistPop (L : Links α) (me : α) : Option (Links α × Option α) := do
  let pn := L.next me
  let pnn ← loadNext L pn
  let L := L.setNext me pnn
  let L ← storePrev L pnn (some me)
  return (L, unlessHead me pn)

/-- `QList_PopLast`. -/
def qlistPopLast (L : Links α) (me : α) : Option (Links α × Option α) := do
  let pp := L.prev me
  let ppp ← loadPrev L pp
  let L := L.setPrev me ppp
  let L ← storeNext L ppp (some me)
  return (L, unlessHead me pp)

/-- What `QList_PopZ` and `QList_PopLastZ` do with the node that they return. -/
def zeroPopped (r : Links α × Option α) : Links α × Option α :=
  match r.2 with
  | none => r
  | some pn => (qnodeCtorZ r.1 pn, some pn)

/-- `QList_PopZ`. -/
def qlistPopZ (L : Links α) (me : α) : Option (Links α × Option α) := (qlistPop L me).map zeroPopped

/-- `QList_PopLastZ`. -/
def qlistPopLastZ (L : Links α) (me : α) : Option (Links α × Option α) := (qlistPopLast L me).map zeroPopped

/-! ### Sequences of operations -/

/-- An operation. -/
inductive Op (α : Type*)
  | insPrev (me pn : α)
  | insNext (me pn : α)
  | dequeueZ (me : α)
  | ctorZ (me : α)
  | ctor (me : α)
  | appendNode (me pn : α)
  | prependNode (me pn : α)
  | pop (me : α)
  | popLast (me : α)
  | popZ (me : α)
  | popLastZ (me : α)
  | ctorFrom (me psrc : α)
  | appendList (me psrc : α)

/-- An operation without a result. -/
def noResult (L : Option (Links α)) : Option (Links α × Option α) := L.map (fun L => (L, none))

/-- What an operation does to the heap, and the node that it returns. -/
def exec (L : Links α) : Op α → Option (Links α × Option α)
  | .insPrev me pn => noResult (qnodeInsPrev L me pn)
  | .insNext me pn => noResult (qnodeInsNext L me pn)
  | .dequeueZ me => noResult (qnodeDequeueZ L me)
  | .ctorZ me => noResult (some (qnodeCtorZ L me))
  | .ctor me => noResult (some (qlistCtor L me))
  | .appendNode me pn => noResult (qlistAppendNode L me pn)
  | .prependNode me pn => noResult (qlistPrependNode L me pn)
  | .pop me => qlistPop L me
  | .popLast me => qlistPopLast L me
  | .popZ me => qlistPopZ L me
  | .popLastZ me => qlistPopLastZ L me
  | .ctorFrom me psrc => noResult (qlistCtorFrom L me psrc)
  | .appendList me psrc => noResult (qlistAppendList L me psrc)

/-- The heap after the operations, and what they return. -/
def execAll (L : Links α) : List (Op α) → Option (Links α × List (Option α))
  | [] => some (L, [])
  | op :: ops => do
      let r ← exec L op
      let rs ← execAll r.1 ops
      return (rs.1, r.2 :: rs.2)

/-! ### What the operations are for -/

/-- An operation on the list of one head. -/
def onList (M : Family α) (me : α) (f : List α → List α) : Family α :=
  fun h => (M h).map (fun xs => if h = me then f xs else xs)

/-- The list of a head with a node in front of another node or of the head, at its end. -/
def putBefore (me pn h : α) (xs : List α) : List α :=
  if h = me then xs ++ [pn] else xs.flatMap (fun x => if x = me then [pn, x] else [x])

/-- The list of a head with a node behind another node or behind the head, at its beginning. -/
def putAfter (me pn h : α) (xs : List α) : List α :=
  if h = me then pn :: xs else xs.flatMap (fun x => if x = me then [x, pn] else [x])

/-- The lists after an operation, and the node that it returns. -/
def specOf (M : Family α) : Op α → Family α × Option α
  | .insPrev me pn => (fun h => (M h).map (putBefore me pn h), none)
  | .insNext me pn => (fun h => (M h).map (putAfter me pn h), none)
  | .dequeueZ me => (fun h => (M h).map (fun xs => xs.filter (· ≠ me)), none)
  | .ctorZ _ => (M, none)
  | .ctor me => (Function.update M me (some []), none)
  | .appendNode me pn => (onList M me (fun xs => xs ++ [pn]), none)
  | .prependNode me pn => (onList M me (fun xs => pn :: xs), none)
  | .pop me => (onList M me List.tail, (M me).bind List.head?)
  | .popLast me => (onList M me List.dropLast, (M me).bind List.getLast?)
  | .popZ me => (onList M me List.tail, (M me).bind List.head?)
  | .popLastZ me => (onList M me List.dropLast, (M me).bind List.getLast?)
  | .ctorFrom me psrc => (Function.update (Function.update M me (M psrc)) psrc (some []), none)
  | .appendList me psrc =>
      (Function.update (onList M me (fun xs => xs ++ (M psrc).getD [])) psrc (some []), none)

/-- The lists after the operations, and what they return. -/
def specAll (M : Family α) : List (Op α) → Family α × List (Option α)
  | [] => (M, [])
  | op :: ops => ((specAll (specOf M op).1 ops).1, (specOf M op).2 :: (specAll (specOf M op).1 ops).2)

/-- The node is in a list. -/
def Queued (M : Family α) (x : α) : Prop := ∃ h xs, M h = some xs ∧ x ∈ xs

/-- The operations that a family of lists is there for: their lists are lists, their places are in lists, and a
node is put into a list only when it is in none. -/
def Applicable (M : Family α) : Op α → Prop
  | .insPrev me pn => Used M me ∧ ¬ Used M pn
  | .insNext me pn => Used M me ∧ ¬ Used M pn
  | .dequeueZ me => M me = none
  | .ctorZ me => ¬ Used M me
  | .ctor me => (M me).isSome ∨ ¬ Used M me
  | .appendNode me pn => (M me).isSome ∧ ¬ Used M pn
  | .prependNode me pn => (M me).isSome ∧ ¬ Used M pn
  | .pop me => (M me).isSome
  | .popLast me => (M me).isSome
  | .popZ me => (M me).isSome
  | .popLastZ me => (M me).isSome
  | .ctorFrom me psrc => (M psrc).isSome ∧ ((M me).isSome ∨ ¬ Used M me)
  | .appendList me psrc => (M me).isSome ∧ (M psrc).isSome

/-- Every operation of a sequence is. -/
def ApplicableAll (M : Family α) : List (Op α) → Prop
  | [] => True
  | op :: ops => Applicable M op ∧ ApplicableAll (specOf M op).1 ops

/-- The rule of the header: a node that is not queued is not dequeued, unless its pointers are null. -/
def DequeuesQueued (L : Links α) (M : Family α) (op : Op α) : Prop :=
  ∀ me, op = .dequeueZ me → Queued M me ∨ L.next me = none

/-- Every operation of a sequence keeps to it where it is run. -/
def DequeuesQueuedAll (L : Links α) (M : Family α) : List (Op α) → Prop
  | [] => True
  | op :: ops => DequeuesQueued L M op ∧ ∀ r, exec L op = some r → DequeuesQueuedAll r.1 (specOf M op).1 ops

/-! ### Where a node is -/

section Lists

variable {L : Links α} {M : Family α} {me pn h x : α} {l r xs : List α}

omit [DecidableEq α] in
/-- An operation on all lists that changes only one. -/
theorem map_eq_update [DecidableEq α] {f : α → List α → List α} (hlist : M h = some xs)
    (hrest : ∀ k ys, k ≠ h → M k = some ys → f k ys = ys) :
    (fun k => (M k).map (f k)) = Function.update M h (some (f h xs)) := by
  funext k
  by_cases hk : k = h
  · subst hk
    rw [Function.update_self, hlist, Option.map_some]
  · rw [Function.update_of_ne hk]
    cases hys : M k with
    | none => rfl
    | some ys => rw [Option.map_some, hrest k ys hk hys]

theorem onList_eq_update (f : List α → List α) (hlist : M h = some xs) :
    onList M h f = Function.update M h (some (f xs)) := by
  unfold onList
  rw [map_eq_update (f := fun k ys => if k = h then f ys else ys) hlist (fun k ys hk _ => if_neg hk), if_pos rfl]

theorem flatMap_not_mem (f : α → List α) (hme : me ∉ xs) :
    xs.flatMap (fun x => if x = me then f x else [x]) = xs := by
  induction xs with
  | nil => rfl
  | cons y xs ih =>
      rw [List.mem_cons, not_or] at hme
      rw [List.flatMap_cons, if_neg (Ne.symm hme.1), ih hme.2, List.singleton_append]

/-- The place of a node in a list without repetitions. -/
theorem flatMap_place (f : α → List α) (hnodup : (l ++ me :: r).Nodup) :
    (l ++ me :: r).flatMap (fun x => if x = me then f x else [x]) = l ++ (f me ++ r) := by
  have hmid : me ∉ l ++ r := (List.nodup_cons.mp (List.perm_middle.nodup_iff.mp hnodup)).1
  rw [List.mem_append, not_or] at hmid
  rw [List.flatMap_append, List.flatMap_cons, if_pos rfl, flatMap_not_mem f hmid.1, flatMap_not_mem f hmid.2]

theorem putBefore_other (pn : α) (hme : me ∉ h :: xs) : putBefore me pn h xs = xs := by
  rw [List.mem_cons, not_or] at hme
  rw [putBefore, if_neg (Ne.symm hme.1), flatMap_not_mem _ hme.2]

theorem putAfter_other (pn : α) (hme : me ∉ h :: xs) : putAfter me pn h xs = xs := by
  rw [List.mem_cons, not_or] at hme
  rw [putAfter, if_neg (Ne.symm hme.1), flatMap_not_mem _ hme.2]

/-- In front of a head is the end of its list. -/
theorem putBefore_head (hM : Represents L M) (hlist : M me = some xs) (pn : α) :
    (fun k => (M k).map (putBefore me pn k)) = onList M me (fun ys => ys ++ [pn]) := by
  rw [onList_eq_update _ hlist, map_eq_update hlist (fun k ys hk hys =>
    putBefore_other pn (hM.not_in_other (Or.inl (hlist ▸ rfl)) hk hys)), putBefore, if_pos rfl]

/-- Behind a head is the beginning of its list. -/
theorem putAfter_head (hM : Represents L M) (hlist : M me = some xs) (pn : α) :
    (fun k => (M k).map (putAfter me pn k)) = onList M me (fun ys => pn :: ys) := by
  rw [onList_eq_update _ hlist, map_eq_update hlist (fun k ys hk hys =>
    putAfter_other pn (hM.not_in_other (Or.inl (hlist ▸ rfl)) hk hys)), putAfter, if_pos rfl]

/-- Where `QNode_InsPrev` puts a node, a list is cut in front of `me`. -/
theorem putBefore_cut (hM : Represents L M) (hme : Used M me) (pn : α) : ∃ h l r, M h = some (l ++ r) ∧
    me ∈ (r ++ [h]).head? ∧ (fun k => (M k).map (putBefore me pn k)) = Function.update M h (some (l ++ pn :: r)) := by
  obtain ⟨h, xs, hlist, hmem⟩ := hme
  have hrest : ∀ k ys, k ≠ h → M k = some ys → putBefore me pn k ys = ys := fun k ys hk hys =>
    putBefore_other pn (fun hin => hM.not_other hlist hk hys hin hmem)
  have hnodup := List.nodup_cons.mp (hM.nodup h xs hlist)
  rcases List.mem_cons.mp hmem with rfl | hmem
  · refine ⟨me, xs, [], by rwa [List.append_nil], rfl, ?_⟩
    rw [map_eq_update hlist hrest, putBefore, if_pos rfl]
  · have hne : h ≠ me := fun heq => hnodup.1 (heq.symm ▸ hmem)
    obtain ⟨l, r, rfl⟩ := List.append_of_mem hmem
    refine ⟨h, l, me :: r, hlist, rfl, ?_⟩
    rw [map_eq_update hlist hrest, putBefore, if_neg hne, flatMap_place _ hnodup.2]
    rfl

/-- Where `QNode_InsNext` puts a node, a list is cut behind `me`. -/
theorem putAfter_cut (hM : Represents L M) (hme : Used M me) (pn : α) : ∃ h l r, M h = some (l ++ r) ∧
    me ∈ (h :: l).getLast? ∧ (fun k => (M k).map (putAfter me pn k)) = Function.update M h (some (l ++ pn :: r)) := by
  obtain ⟨h, xs, hlist, hmem⟩ := hme
  have hrest : ∀ k ys, k ≠ h → M k = some ys → putAfter me pn k ys = ys := fun k ys hk hys =>
    putAfter_other pn (fun hin => hM.not_other hlist hk hys hin hmem)
  have hnodup := List.nodup_cons.mp (hM.nodup h xs hlist)
  rcases List.mem_cons.mp hmem with rfl | hmem
  · refine ⟨me, [], xs, hlist, rfl, ?_⟩
    rw [map_eq_update hlist hrest, putAfter, if_pos rfl, List.nil_append]
  · have hne : h ≠ me := fun heq => hnodup.1 (heq.symm ▸ hmem)
    obtain ⟨l, r, rfl⟩ := List.append_of_mem hmem
    refine ⟨h, l ++ [me], r, by rwa [List.append_assoc], ?_, ?_⟩
    · rw [← List.cons_append, List.getLast?_concat]
      rfl
    · rw [map_eq_update hlist hrest, putAfter, if_neg hne, flatMap_place _ hnodup.2, List.append_assoc]
      rfl

/-- Without a node, its list is what is in front of it and behind it. -/
theorem filter_cut (hM : Represents L M) (hme : Queued M me) : ∃ h l r, M h = some (l ++ me :: r) ∧
    (fun k => (M k).map (fun xs => xs.filter (· ≠ me))) = Function.update M h (some (l ++ r)) := by
  obtain ⟨h, xs, hlist, hmem⟩ := hme
  obtain ⟨l, r, rfl⟩ := List.append_of_mem hmem
  refine ⟨h, l, r, hlist, ?_⟩
  have hkeep : ∀ ys : List α, me ∉ ys → ys.filter (· ≠ me) = ys := fun ys hys =>
    List.filter_eq_self.mpr (fun y hy => decide_eq_true (fun heq => hys (heq ▸ hy)))
  have hrest : ∀ k ys, k ≠ h → M k = some ys → ys.filter (· ≠ me) = ys := fun k ys hk hys =>
    hkeep ys (fun hin => hM.not_other hlist hk hys (List.mem_cons_of_mem k hin) (List.mem_cons_of_mem h hmem))
  have hnodup := (List.nodup_cons.mp (hM.nodup h _ hlist)).2
  have hmid : me ∉ l ++ r := (List.nodup_cons.mp (List.perm_middle.nodup_iff.mp hnodup)).1
  rw [List.mem_append, not_or] at hmid
  rw [map_eq_update hlist hrest, List.filter_append, List.filter_cons_of_neg (by simp), hkeep l hmid.1,
    hkeep r hmid.2]

end Lists

/-! ### One operation -/

section Operations

variable {L : Links α} {M : Family α} {me pn h p x n : α} {l r xs : List α}

theorem qnodeInsPrev_eq (hlink : L.Linked p me) : qnodeInsPrev L me pn = some (L.insert p pn me) := by
  unfold qnodeInsPrev storeNext
  rw [hlink.2]
  rfl

theorem qnodeInsNext_eq (hlink : L.Linked me n) : qnodeInsNext L me pn = some (L.insert me pn n) := by
  unfold qnodeInsNext storePrev
  rw [hlink.1]
  rfl

theorem qnodeDequeue_eq (hprev : L.Linked p me) (hnext : L.Linked me n) :
    qnodeDequeue L me = some (L.join p n) := by
  unfold qnodeDequeue storeNext storePrev
  rw [hprev.2, hnext.1]
  rfl

theorem insPrev_represents (hM : Represents L M) (hme : Used M me) (hpn : ¬ Used M pn) :
    ∃ L', qnodeInsPrev L me pn = some L' ∧ Represents L' (fun h => (M h).map (putBefore me pn h)) := by
  obtain ⟨h, l, r, hlist, hhead, hspec⟩ := putBefore_cut hM hme pn
  obtain ⟨p, n, hp, hn, hlink⟩ := (hM.ring h _ hlist).cut
  obtain rfl := Option.mem_unique hn hhead
  exact ⟨_, qnodeInsPrev_eq hlink, hspec ▸ hM.insert hlist hpn hp hn⟩

theorem insNext_represents (hM : Represents L M) (hme : Used M me) (hpn : ¬ Used M pn) :
    ∃ L', qnodeInsNext L me pn = some L' ∧ Represents L' (fun h => (M h).map (putAfter me pn h)) := by
  obtain ⟨h, l, r, hlist, hlast, hspec⟩ := putAfter_cut hM hme pn
  obtain ⟨p, n, hp, hn, hlink⟩ := (hM.ring h _ hlist).cut
  obtain rfl := Option.mem_unique hp hlast
  exact ⟨_, qnodeInsNext_eq hlink, hspec ▸ hM.insert hlist hpn hp hn⟩

theorem ctorZ_other {y : α} (h : y ≠ x) :
    (qnodeCtorZ L x).next y = L.next y ∧ (qnodeCtorZ L x).prev y = L.prev y :=
  ⟨setNext_other h, setPrev_other h⟩

/-- The pointers of a node that is not used may be null. -/
theorem ctorZ_represents (hM : Represents L M) (hx : ¬ Used M x) : Represents (qnodeCtorZ L x) M :=
  hM.free (fun _ hy => ctorZ_other (fun heq => hx (heq ▸ hy)))

theorem dequeueZ_represents (hM : Represents L M) (hme : Queued M me ∨ L.next me = none) :
    ∃ L', qnodeDequeueZ L me = some L' ∧
      Represents L' (fun h => (M h).map (fun xs => xs.filter (· ≠ me))) := by
  rcases hme with hme | hnull
  · obtain ⟨h, l, r, hlist, hspec⟩ := filter_cut hM hme
    obtain ⟨-, -, p, n, hp, hn, hprev, hnext⟩ := (hM.ring h _ hlist).node
    have hqueued : qnodeIsQueuedZ L me = true := by
      rw [qnodeIsQueuedZ, hnext.1]
      rfl
    refine ⟨qnodeCtorZ (L.join p n) me, ?_, ?_⟩
    · rw [qnodeDequeueZ, if_pos hqueued, qnodeDequeue_eq hprev hnext]
      rfl
    · rw [hspec]
      exact ctorZ_represents (hM.remove hlist hp hn) (hM.not_used hlist)
  · have hfree : ¬ Used M me := by
      intro hused
      obtain ⟨n, hn⟩ := hM.used_next hused
      exact nomatch hnull.symm.trans hn
    have hspec : (fun h => (M h).map (fun xs => xs.filter (· ≠ me))) = M := by
      funext h
      cases hxs : M h with
      | none => rfl
      | some xs =>
          refine congrArg some (List.filter_eq_self.mpr (fun x hx => decide_eq_true ?_))
          exact fun heq => hfree ⟨h, xs, hxs, heq ▸ List.mem_cons_of_mem h hx⟩
    refine ⟨L, ?_, ?_⟩
    · rw [qnodeDequeueZ, qnodeIsQueuedZ, hnull]
      rfl
    · rw [hspec]
      exact hM

/-- **An empty list** stays as it is. -/
theorem pop_empty (hM : Represents L M) (hlist : M me = some []) : qlistPop L me = some (L, none) := by
  have hself : L.Linked me me := ring_nil.mp (hM.ring me [] hlist)
  simp only [qlistPop, loadNext, storePrev, hself.1, Option.map_some, Option.bind_eq_bind, Option.bind_some,
    setNext_id hself.1, setPrev_id hself.2, unlessHead, if_true, Option.pure_def]

theorem popLast_empty (hM : Represents L M) (hlist : M me = some []) : qlistPopLast L me = some (L, none) := by
  have hself : L.Linked me me := ring_nil.mp (hM.ring me [] hlist)
  simp only [qlistPopLast, loadPrev, storeNext, hself.2, Option.map_some, Option.bind_eq_bind, Option.bind_some,
    setNext_id hself.1, setPrev_id hself.2, unlessHead, if_true, Option.pure_def]

/-- What a removal of the node at one end leads to, with the node zeroed or not. -/
theorem pop_represents (hM : Represents L M) (hlist : M me = some xs) :
    ∃ L', qlistPop L me = some (L', xs.head?) ∧ Represents L' (onList M me List.tail) ∧
      ∀ pn ∈ xs.head?, ¬ Used (onList M me List.tail) pn := by
  rw [onList_eq_update _ hlist]
  cases xs with
  | nil =>
      refine ⟨L, pop_empty hM hlist, ?_, fun pn hpn => nomatch hpn⟩
      rw [List.tail_nil, ← hlist, Function.update_eq_self]
      exact hM
  | cons x r =>
      have hlist' : M me = some ([] ++ x :: r) := hlist
      obtain ⟨-, -, p, n, hp, hn, hprev, hnext⟩ := (hM.ring me _ hlist').node
      obtain rfl : me = p := Option.some.inj hp
      have hne : x ≠ me := fun heq => (List.nodup_cons.mp (hM.nodup me _ hlist)).1 (heq ▸ List.mem_cons_self)
      refine ⟨L.join me n, ?_, hM.remove hlist' hp hn, ?_⟩
      · have hresult : unlessHead me (some x) = some x := if_neg (fun heq => hne (Option.some.inj heq))
        unfold qlistPop loadNext storePrev
        simp only [hprev.1, Option.map_some, hnext.1, Option.bind_eq_bind, Option.bind_some, hresult]
        rfl
      · intro pn hpn
        rw [← Option.some.inj hpn]
        exact hM.not_used hlist'

theorem popLast_represents (hM : Represents L M) (hlist : M me = some xs) :
    ∃ L', qlistPopLast L me = some (L', xs.getLast?) ∧ Represents L' (onList M me List.dropLast) ∧
      ∀ pn ∈ xs.getLast?, ¬ Used (onList M me List.dropLast) pn := by
  rw [onList_eq_update _ hlist]
  induction xs using List.reverseRecOn with
  | nil =>
      refine ⟨L, popLast_empty hM hlist, ?_, fun pn hpn => nomatch hpn⟩
      rw [List.dropLast_nil, ← hlist, Function.update_eq_self]
      exact hM
  | append_singleton l x _ =>
      obtain ⟨-, -, p, n, hp, hn, hprev, hnext⟩ := (hM.ring me _ hlist).node
      obtain rfl : me = n := Option.some.inj hn
      have hne : x ≠ me := fun heq => (List.nodup_cons.mp (hM.nodup me _ hlist)).1
        (heq ▸ List.mem_append_right l (List.mem_singleton_self x))
      have hremoved := hM.remove hlist hp hn
      have hfree := hM.not_used hlist
      rw [List.append_nil] at hremoved hfree
      rw [List.dropLast_concat, List.getLast?_concat]
      refine ⟨L.join p me, ?_, hremoved, ?_⟩
      · have hresult : unlessHead me (some x) = some x := if_neg (fun heq => hne (Option.some.inj heq))
        unfold qlistPopLast loadPrev storeNext
        simp only [hnext.2, Option.map_some, hprev.2, Option.bind_eq_bind, Option.bind_some, hresult]
        rfl
      · intro pn hpn
        rw [← Option.some.inj hpn]
        exact hfree

theorem zero_linked (L : Links α) (me : α) : (qlistZero L me).Linked me me := ⟨setNext_same, setPrev_same⟩

theorem zero_other {y : α} (h : y ≠ me) :
    (qlistZero L me).next y = L.next y ∧ (qlistZero L me).prev y = L.prev y :=
  ⟨setNext_other h, setPrev_other h⟩

/-- A list is emptied, whatever was done to the pointers of its nodes. -/
theorem empty_represents {L' : Links α} (hM : Represents L M) (hme : (M me).isSome ∨ ¬ Used M me)
    (hself : L'.Linked me me)
    (hsame : ∀ k zs, k ≠ me → M k = some zs → ∀ y ∈ k :: zs, L'.next y = L.next y ∧ L'.prev y = L.prev y) :
    Represents L' (Function.update M me (some [])) := by
  refine hM.update (ring_nil.mpr hself) (List.nodup_singleton me) (fun x hx k zs hk hzs => ?_) hsame
  rw [List.mem_singleton.mp hx]
  exact hM.not_in_other hme hk hzs

theorem ctor_represents (hM : Represents L M) (hme : (M me).isSome ∨ ¬ Used M me) :
    Represents (qlistCtor L me) (Function.update M me (some [])) :=
  empty_represents hM hme (zero_linked L me) (fun _ _ hk hzs _ hy =>
    zero_other (fun heq => hM.not_in_other hme hk hzs (heq ▸ hy)))

variable {d q s : α}

/-! ### Whole lists -/

/-- A list moved to itself. -/
theorem ctorFrom_self (hfirst : L.Linked s n) (hlast : L.Linked q s) :
    qlistCtorFrom L s s = some (qlistZero L s) := by
  unfold qlistCtorFrom storePrev storeNext
  simp only [hfirst.1, Option.map_some, Option.bind_eq_bind, Option.bind_some, setPrev_id hfirst.2, hlast.2,
    setPrev_id hlast.2, setNext_id hfirst.1, setNext_id hlast.1, Option.pure_def]

/-- A list with nodes. -/
theorem ctorFrom_nodes (hds : d ≠ s) (hns : n ≠ s) (hfirst : L.Linked s n) (hlast : L.Linked q s) :
    qlistCtorFrom L d s = some (qlistZero ((L.join d n).join q d) s) := by
  unfold qlistCtorFrom storePrev storeNext
  simp only [hfirst.1, Option.map_some, Option.bind_eq_bind, Option.bind_some, setPrev_other (Ne.symm hns), hlast.2,
    setPrev_next, setNext_prev, setPrev_other (Ne.symm hds), Option.pure_def]
  rfl

/-- An empty list. -/
theorem ctorFrom_empty (hds : d ≠ s) (hself : L.Linked s s) :
    ∃ L', qlistCtorFrom L d s = some (qlistZero L' s) ∧ L'.Linked d d ∧
      ∀ y, y ≠ d → y ≠ s → L'.next y = L.next y ∧ L'.prev y = L.prev y := by
  refine ⟨(((L.setPrev s (some d)).setPrev d (some d)).setNext d (some s)).setNext d (some d), ?_, ?_, ?_⟩
  · unfold qlistCtorFrom storePrev storeNext
    simp only [hself.1, Option.map_some, Option.bind_eq_bind, Option.bind_some, setPrev_same, setPrev_next,
      setNext_prev, setPrev_other (Ne.symm hds), Option.pure_def]
  · exact ⟨setNext_same, setPrev_same⟩
  · intro y hyd hys
    constructor
    · rw [setNext_other hyd, setNext_other hyd, setPrev_next, setPrev_next]
    · rw [setNext_prev, setNext_prev, setPrev_other hyd, setPrev_other hys]

theorem appendList_nodes (hns : n ≠ s) {dp : α} (hdp : L.Linked dp d)
    (hfirst : L.Linked s n) (hlast : L.Linked q s) :
    qlistAppendList L d s = some (qlistZero ((L.join dp n).join q d) s) := by
  unfold qlistAppendList storePrev storeNext
  simp only [hfirst.1, hdp.2, Option.map_some, Option.bind_eq_bind, Option.bind_some,
    setPrev_other (Ne.symm hns), hlast.2, setNext_prev, Option.pure_def]
  rfl

/-- A list appended to itself: only the pointers of its nodes and of its head change. -/
theorem appendList_self (hfirst : L.Linked s n) (hlast : L.Linked q s) :
    ∃ L', qlistAppendList L s s = some (qlistZero L' s) ∧
      ∀ y, y ≠ s → y ≠ n → y ≠ q → L'.next y = L.next y ∧ L'.prev y = L.prev y := by
  have hprev : (L.setPrev n (some q)).prev s = some q := by
    by_cases hns : s = n
    · rw [hns, setPrev_same]
    · rw [setPrev_other hns, hlast.2]
  refine ⟨(((L.setPrev n (some q)).setNext q (some n)).setPrev s (some q)).setNext q (some s), ?_, ?_⟩
  · unfold qlistAppendList storePrev storeNext
    simp only [hfirst.1, hlast.2, Option.map_some, Option.bind_eq_bind, Option.bind_some, setNext_prev, hprev,
      Option.pure_def]
  · intro y hys hyn hyq
    constructor
    · rw [setNext_other hyq, setPrev_next, setNext_other hyq, setPrev_next]
    · rw [setNext_prev, setPrev_other hys, setNext_prev, setPrev_other hyn]

/-- An empty list appended: the assignments undo each other. -/
theorem appendList_empty {dp : α} (hdp : L.Linked dp d) (hself : L.Linked s s) :
    qlistAppendList L d s = some L := by
  unfold qlistAppendList storePrev storeNext
  simp only [hself.1, hdp.2, Option.map_some, Option.bind_eq_bind, Option.bind_some, setNext_prev, setPrev_same,
    Option.pure_def, Option.some_inj]
  ext1
  · funext y
    by_cases hys : y = s
    · rw [hys, qlistZero, setNext_same, hself.1]
    · rw [(zero_other hys).1]
      by_cases hyd : y = dp
      · rw [hyd, setNext_same, hdp.1]
      · rw [setNext_other hyd, setPrev_next, setNext_other hyd, setPrev_next]
  · funext y
    by_cases hys : y = s
    · rw [hys, qlistZero, setNext_prev, setPrev_same, hself.2]
    · rw [(zero_other hys).2, setNext_prev]
      by_cases hyd : y = d
      · rw [hyd, setPrev_same, hdp.2]
      · rw [setPrev_other hyd, setNext_prev, setPrev_other hys]

/-- **The nodes of a list go behind those of another one**, or of a new one, and the list is empty. -/
theorem extend_represents {ys : List α} (hM : Represents L M) (hds : d ≠ s) (hlist : M s = some ys)
    (hpath : Path L (d :: xs)) (hnodup : (d :: xs).Nodup)
    (hown : ∀ x ∈ d :: xs, ∀ k zs, k ≠ d → M k = some zs → x ∉ k :: zs) (hp : p ∈ (d :: xs).getLast?)
    (hn : n ∈ ys.head?) (hq : q ∈ ys.getLast?) :
    Represents (qlistZero ((L.join p n).join q d) s)
      (Function.update (Function.update M d (some (xs ++ ys))) s (some [])) := by
  have hs := List.nodup_cons.mp (hM.nodup s ys hlist)
  have happart : ∀ x ∈ d :: xs, x ∉ s :: ys := fun x hx => hown x hx s ys (Ne.symm hds) hlist
  have hall : (d :: (xs ++ ys)).Nodup := by
    rw [← List.cons_append, List.nodup_append]
    exact ⟨hnodup, hs.2, fun x hx y hy heq => happart x hx (heq ▸ List.mem_cons_of_mem s hy)⟩
  have hsplit : ∀ x ∈ d :: (xs ++ ys), x ∈ d :: xs ∨ x ∈ ys := by
    intro x hx
    rw [← List.cons_append] at hx
    exact List.mem_append.mp hx
  have hs' : s ∉ d :: (xs ++ ys) := fun hmem =>
    (hsplit s hmem).elim (fun hx => happart s hx List.mem_cons_self) hs.1
  have hring := ring_extend hall hpath (hM.ring s ys hlist).ends.1 hp hn hq
  refine hM.update_two hds (hring.congr (fun x hx => zero_other (fun heq => hs' (heq ▸ hx)))) hall
    (zero_linked _ s) hs' ?_ ?_ ?_
  · intro x hx k zs hkd hks hzs hmem
    rcases hsplit x hx with hx | hx
    · exact hown x hx k zs hkd hzs hmem
    · exact hM.not_other hlist hks hzs hmem (List.mem_cons_of_mem s hx)
  · exact fun k zs _ hks hzs hmem => hM.not_other hlist hks hzs hmem List.mem_cons_self
  · intro k zs hkd hks hzs y hy
    have hys : y ∉ s :: ys := hM.not_other hlist hks hzs hy
    have hyd : y ∉ d :: xs := fun hmem => hown y hmem k zs hkd hzs hy
    rw [List.mem_cons, not_or] at hys
    have hyp : y ≠ p := fun heq => hyd (heq ▸ List.mem_of_getLast? hp)
    have hyq : y ≠ q := fun heq => hys.2 (heq ▸ List.mem_of_getLast? hq)
    have hyn : y ≠ n := fun heq => hys.2 (heq ▸ List.mem_of_head? hn)
    have hyh : y ≠ d := fun heq => hyd (heq ▸ List.mem_cons_self)
    constructor
    · rw [(zero_other hys.1).1, join_next_other hyq, join_next_other hyp]
    · rw [(zero_other hys.1).2, join_prev_other hyh, join_prev_other hyn]

theorem ctorFrom_represents {ys : List α} (hM : Represents L M) (hlist : M s = some ys)
    (hd : (M d).isSome ∨ ¬ Used M d) : ∃ L', qlistCtorFrom L d s = some L' ∧
      Represents L' (Function.update (Function.update M d (M s)) s (some [])) := by
  obtain ⟨-, n, q, hn, hq, hfirst, hlast⟩ := (hM.ring s ys hlist).ends
  rw [hlist]
  by_cases hds : d = s
  · subst hds
    refine ⟨_, ctorFrom_self hfirst hlast, ?_⟩
    rw [Function.update_idem]
    exact ctor_represents hM hd
  have hown : ∀ x ∈ [d], ∀ k zs, k ≠ d → M k = some zs → x ∉ k :: zs := by
    intro x hx k zs hk hzs
    rw [List.mem_singleton.mp hx]
    exact hM.not_in_other hd hk hzs
  by_cases hys : ys = []
  · subst hys
    obtain ⟨L', hexec, hself, hsame⟩ := ctorFrom_empty hds (ring_nil.mp (hM.ring s [] hlist))
    have hd' : (qlistZero L' s).Linked d d :=
      ⟨(zero_other hds).1.trans hself.1, (zero_other hds).2.trans hself.2⟩
    have hsd : s ∉ [d] := fun hmem => hds (List.mem_singleton.mp hmem).symm
    refine ⟨_, hexec, hM.update_two hds (ring_nil.mpr hd') (List.nodup_singleton d) (zero_linked L' s) hsd ?_ ?_ ?_⟩
    · exact fun x hx k zs hkd _ hzs => hown x hx k zs hkd hzs
    · exact fun k zs _ hks hzs hmem => hM.not_other hlist hks hzs hmem List.mem_cons_self
    · intro k zs hkd hks hzs y hy
      have hyd : y ≠ d := fun heq => hown d (List.mem_singleton_self d) k zs hkd hzs (heq ▸ hy)
      have hys : y ≠ s := fun heq => hM.not_other hlist hks hzs (heq ▸ hy) List.mem_cons_self
      exact ⟨(zero_other hys).1.trans (hsame y hyd hys).1, (zero_other hys).2.trans (hsame y hyd hys).2⟩
  · obtain ⟨hhead, hend⟩ := ends_of_ne_nil hys hn hq
    have hns : n ≠ s := fun heq =>
      (List.nodup_cons.mp (hM.nodup s ys hlist)).1 (heq ▸ List.mem_of_head? hhead)
    refine ⟨_, ctorFrom_nodes hds hns hfirst hlast, ?_⟩
    have hnodes := extend_represents hM hds hlist (path_singleton L d) (List.nodup_singleton d) hown rfl hhead hend
    rwa [List.nil_append] at hnodes

theorem appendList_represents {ys : List α} (hM : Represents L M) (hd : M d = some xs) (hlist : M s = some ys) :
    ∃ L', qlistAppendList L d s = some L' ∧
      Represents L' (Function.update (onList M d (fun xs => xs ++ (M s).getD [])) s (some [])) := by
  obtain ⟨-, n, q, hn, hq, hfirst, hlast⟩ := (hM.ring s ys hlist).ends
  rw [onList_eq_update _ hd, hlist, Option.getD_some]
  by_cases hds : d = s
  · subst hds
    obtain ⟨L', hexec, hsame⟩ := appendList_self hfirst hlast
    refine ⟨_, hexec, ?_⟩
    rw [Function.update_idem]
    refine empty_represents hM (Or.inl (hlist ▸ rfl)) (zero_linked L' d) (fun k zs hk hzs y hy => ?_)
    have hyd := hM.not_other hlist hk hzs hy
    have hyh : y ≠ d := fun heq => hyd (heq ▸ List.mem_cons_self)
    have hyn : y ≠ n := fun heq => hyd (heq ▸ head_mem [] hn)
    have hyq : y ≠ q := fun heq => hyd (heq ▸ List.mem_of_getLast? hq)
    exact ⟨(zero_other hyh).1.trans (hsame y hyh hyn hyq).1, (zero_other hyh).2.trans (hsame y hyh hyn hyq).2⟩
  obtain ⟨-, n', dp, -, hdp, -, hdplink⟩ := (hM.ring d xs hd).ends
  by_cases hys : ys = []
  · subst hys
    refine ⟨L, appendList_empty hdplink (ring_nil.mp (hM.ring s [] hlist)), ?_⟩
    rw [List.append_nil, ← hd, Function.update_eq_self, ← hlist, Function.update_eq_self]
    exact hM
  · obtain ⟨hhead, hend⟩ := ends_of_ne_nil hys hn hq
    have hns : n ≠ s := fun heq =>
      (List.nodup_cons.mp (hM.nodup s ys hlist)).1 (heq ▸ List.mem_of_head? hhead)
    refine ⟨_, appendList_nodes hns hdplink hfirst hlast, ?_⟩
    have hpath : Path L (d :: xs) := (path_append.mp (show Path L (d :: xs ++ [d]) from hM.ring d xs hd)).1
    exact extend_represents hM hds hlist hpath (hM.nodup d xs hd)
      (fun x hx k zs hk hzs hmem => hM.not_other hd hk hzs hmem hx) hdp hhead hend

end Operations

/-! ### A heap with one list -/

/-- A heap without lists. -/
theorem represents_none : Represents (⟨fun _ => none, fun _ => none⟩ : Links ℕ) (fun _ => none) :=
  ⟨fun _ _ h => (nomatch h), fun _ _ h => (nomatch h), fun _ _ _ _ _ h => (nomatch h)⟩

omit [DecidableEq α] in
/-- With one list, the other nodes are not used. -/
theorem not_used_of_one {M : Family α} {h x : α} {xs : List α} (hone : ∀ k, k ≠ h → M k = none)
    (hlist : M h = some xs) (hx : x ∉ h :: xs) : ¬ Used M x := by
  rintro ⟨k, ys, hys, hmem⟩
  by_cases hk : k = h
  · subst hk
    rw [hlist] at hys
    exact hx (Option.some.inj hys ▸ hmem)
  · exact nomatch (hone k hk).symm.trans hys

/-- Without lists no node is used. -/
theorem not_used_none (x : ℕ) : ¬ Used (fun _ => none) x := by
  rintro ⟨_, _, hnone, _⟩
  exact nomatch hnone

theorem one_list {k : ℕ} (hk : k ≠ 0) : (Function.update (fun _ => none) 0 (some []) : Family ℕ) k = none :=
  Function.update_of_ne hk _ _

/-! ### All sequences -/

section Runs

variable {L : Links α} {M : Family α}

/-- A removal at one end with the node zeroed. -/
theorem zeroPopped_represents {L' : Links α} {M' : Family α} {pn : Option α} (h : Represents L' M')
    (hfree : ∀ x ∈ pn, ¬ Used M' x) :
    (zeroPopped (L', pn)).2 = pn ∧ Represents (zeroPopped (L', pn)).1 M' := by
  cases pn with
  | none => exact ⟨rfl, h⟩
  | some x => exact ⟨rfl, ctorZ_represents h (hfree x rfl)⟩

/-- **An operation** that is allowed runs, and does to the lists what it is for. -/
theorem exec_represents (hM : Represents L M) (op : Op α) (hop : Applicable M op)
    (hqueued : DequeuesQueued L M op) :
    ∃ L', exec L op = some (L', (specOf M op).2) ∧ Represents L' (specOf M op).1 := by
  cases op with
  | insPrev me pn =>
      obtain ⟨L', hexec, hrep⟩ := insPrev_represents hM hop.1 hop.2
      exact ⟨L', by rw [exec, hexec]; rfl, hrep⟩
  | insNext me pn =>
      obtain ⟨L', hexec, hrep⟩ := insNext_represents hM hop.1 hop.2
      exact ⟨L', by rw [exec, hexec]; rfl, hrep⟩
  | dequeueZ me =>
      obtain ⟨L', hexec, hrep⟩ := dequeueZ_represents hM (hqueued me rfl)
      exact ⟨L', by rw [exec, hexec]; rfl, hrep⟩
  | ctorZ me => exact ⟨_, rfl, ctorZ_represents hM hop⟩
  | ctor me => exact ⟨_, rfl, ctor_represents hM hop⟩
  | appendNode me pn =>
      obtain ⟨xs, hlist⟩ := Option.isSome_iff_exists.mp hop.1
      obtain ⟨L', hexec, hrep⟩ := insPrev_represents hM ⟨me, xs, hlist, List.mem_cons_self⟩ hop.2
      rw [putBefore_head hM hlist] at hrep
      exact ⟨L', by rw [exec, qlistAppendNode, hexec]; rfl, hrep⟩
  | prependNode me pn =>
      obtain ⟨xs, hlist⟩ := Option.isSome_iff_exists.mp hop.1
      obtain ⟨L', hexec, hrep⟩ := insNext_represents hM ⟨me, xs, hlist, List.mem_cons_self⟩ hop.2
      rw [putAfter_head hM hlist] at hrep
      exact ⟨L', by rw [exec, qlistPrependNode, hexec]; rfl, hrep⟩
  | pop me =>
      obtain ⟨xs, hlist⟩ := Option.isSome_iff_exists.mp hop
      obtain ⟨L', hexec, hrep, -⟩ := pop_represents hM hlist
      exact ⟨L', by rw [exec, hexec, specOf, hlist]; rfl, hrep⟩
  | popLast me =>
      obtain ⟨xs, hlist⟩ := Option.isSome_iff_exists.mp hop
      obtain ⟨L', hexec, hrep, -⟩ := popLast_represents hM hlist
      exact ⟨L', by rw [exec, hexec, specOf, hlist]; rfl, hrep⟩
  | popZ me =>
      obtain ⟨xs, hlist⟩ := Option.isSome_iff_exists.mp hop
      obtain ⟨L', hexec, hrep, hfree⟩ := pop_represents hM hlist
      obtain ⟨hresult, hrep'⟩ := zeroPopped_represents hrep hfree
      exact ⟨_, by rw [exec, qlistPopZ, hexec, specOf, hlist]; exact congrArg some (Prod.ext rfl hresult), hrep'⟩
  | popLastZ me =>
      obtain ⟨xs, hlist⟩ := Option.isSome_iff_exists.mp hop
      obtain ⟨L', hexec, hrep, hfree⟩ := popLast_represents hM hlist
      obtain ⟨hresult, hrep'⟩ := zeroPopped_represents hrep hfree
      exact ⟨_, by rw [exec, qlistPopLastZ, hexec, specOf, hlist]; exact congrArg some (Prod.ext rfl hresult), hrep'⟩
  | ctorFrom me psrc =>
      obtain ⟨ys, hlist⟩ := Option.isSome_iff_exists.mp hop.1
      obtain ⟨L', hexec, hrep⟩ := ctorFrom_represents hM hlist hop.2
      exact ⟨L', by rw [exec, hexec]; rfl, hrep⟩
  | appendList me psrc =>
      obtain ⟨xs, hd⟩ := Option.isSome_iff_exists.mp hop.1
      obtain ⟨ys, hlist⟩ := Option.isSome_iff_exists.mp hop.2
      obtain ⟨L', hexec, hrep⟩ := appendList_represents hM hd hlist
      exact ⟨L', by rw [exec, hexec]; rfl, hrep⟩

/-- **Sequences of operations**: the heap represents the lists after the same sequence of list operations. -/
theorem execAll_represents (hM : Represents L M) (ops : List (Op α)) (hops : ApplicableAll M ops)
    (hqueued : DequeuesQueuedAll L M ops) :
    ∃ L', execAll L ops = some (L', (specAll M ops).2) ∧ Represents L' (specAll M ops).1 := by
  induction ops generalizing L M with
  | nil => exact ⟨L, rfl, hM⟩
  | cons op ops ih =>
      obtain ⟨L₁, hexec, hrep⟩ := exec_represents hM op hops.1 hqueued.1
      obtain ⟨L₂, hexec', hrep'⟩ := ih hrep hops.2 (hqueued.2 _ hexec)
      refine ⟨L₂, ?_, hrep'⟩
      rw [execAll, hexec, Option.bind_eq_bind, Option.bind_some, hexec']
      rfl

/-- The lists of `QList_AppendList`: both, and none. -/
theorem appendList_rings (hM : Represents L M) {d s : α} {xs ys : List α} (hds : d ≠ s) (hd : M d = some xs)
    (hs : M s = some ys) :
    ∃ L', exec L (.appendList d s) = some (L', none) ∧ Ring L' d (xs ++ ys) ∧ Ring L' s [] := by
  obtain ⟨L', hexec, hrep⟩ := appendList_represents hM hd hs
  rw [onList_eq_update _ hd, hs, Option.getD_some] at hrep
  refine ⟨L', by rw [exec, hexec]; rfl, hrep.ring d _ ?_, hrep.ring s _ (Function.update_self s _ _)⟩
  rw [Function.update_of_ne hds, Function.update_self]

/-- **All sequences of operations on lists**, with the two cases of the empty list. -/
theorem qlist_sequences (hM : Represents L M) :
    (∀ ops : List (Op α), ApplicableAll M ops → DequeuesQueuedAll L M ops →
      ∃ L', execAll L ops = some (L', (specAll M ops).2) ∧ Represents L' (specAll M ops).1) ∧
    (∀ (d s : α) (xs ys : List α), d ≠ s → M d = some xs → M s = some ys →
      ∃ L', exec L (.appendList d s) = some (L', none) ∧ Ring L' d (xs ++ ys) ∧ Ring L' s []) ∧
    ∀ me, M me = some [] → exec L (.pop me) = some (L, none) ∧ exec L (.popLast me) = some (L, none) :=
  ⟨fun ops => execAll_represents hM ops, fun _ _ _ _ hds hd hs => appendList_rings hM hds hd hs,
    fun _ hlist => ⟨pop_empty hM hlist, popLast_empty hM hlist⟩⟩

end Runs

/-- A list is made, and one node is appended and dequeued. -/
theorem qlist_sequences_dequeue :
    ∃ L', execAll (⟨fun _ => none, fun _ => none⟩ : Links ℕ) [.ctor 0, .appendNode 0 1, .dequeueZ 1] =
        some (L', [none, none, none]) ∧ Ring L' 0 [] := by
  have happlicable : ApplicableAll (fun _ => none) [.ctor 0, .appendNode 0 1, .dequeueZ 1] :=
    ⟨Or.inr (not_used_none 0), ⟨rfl, not_used_of_one (fun _ => one_list) rfl (by decide)⟩, rfl, trivial⟩
  have hqueued : DequeuesQueuedAll (⟨fun _ => none, fun _ => none⟩ : Links ℕ) (fun _ => none)
      [.ctor 0, .appendNode 0 1, .dequeueZ 1] := by
    refine ⟨(by rintro me ⟨⟩), fun _ _ => ⟨(by rintro me ⟨⟩), fun _ _ => ⟨?_, fun _ _ => trivial⟩⟩⟩
    rintro me ⟨⟩
    exact Or.inl ⟨0, [1], rfl, List.mem_singleton_self 1⟩
  obtain ⟨L', hexec, hrep⟩ := (qlist_sequences represents_none).1 _ happlicable hqueued
  exact ⟨L', hexec, hrep.ring 0 [] rfl⟩

/-- A node that was popped keeps its pointers: dequeued again, it takes a node out that was put in since. -/
theorem dequeue_unqueued : ¬ ∀ (L : Links ℕ) (M : Family ℕ) (ops : List (Op ℕ)), Represents L M →
    ApplicableAll M ops →
      ∃ L', execAll L ops = some (L', (specAll M ops).2) ∧ Represents L' (specAll M ops).1 := by
  intro hall
  have hone : ∀ (M : Family ℕ) (f : List ℕ → List ℕ), (∀ k, k ≠ 0 → M k = none) →
      ∀ k, k ≠ 0 → onList M 0 f k = none := fun M f hM k hk => by rw [onList, hM k hk, Option.map_none]
  have hstart : ∀ k, k ≠ 0 → (Function.update (fun _ => none) 0 (some []) : Family ℕ) k = none := fun _ => one_list
  have happlicable : ApplicableAll (fun _ => none)
      [.ctor 0, .appendNode 0 1, .appendNode 0 2, .pop 0, .prependNode 0 3, .dequeueZ 1] :=
    ⟨Or.inr (not_used_none 0), ⟨rfl, not_used_of_one hstart rfl (by decide)⟩,
      ⟨rfl, not_used_of_one (hone _ _ hstart) rfl (by decide)⟩, rfl,
      ⟨rfl, not_used_of_one (hone _ _ (hone _ _ (hone _ _ hstart))) rfl (by decide)⟩, rfl, trivial⟩
  obtain ⟨L', hexec, hrep⟩ := hall _ _ _ represents_none happlicable
  have hring : Ring L' 0 [3, 2] := hrep.ring 0 [3, 2] rfl
  have hnext : L'.next 0 = some 3 := ((path_cons.mp hring).1 3 rfl).1
  have hlost := congrArg (Option.map (fun r => r.1.next 0)) hexec
  rw [Option.map_some, hnext] at hlost
  exact absurd hlost (by decide)

end FastRpc.QList
