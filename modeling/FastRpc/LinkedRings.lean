import Mathlib.Data.List.Chain
import Mathlib.Data.List.Nodup
import Mathlib.Logic.Function.Basic

/-! # Circular lists in a heap

A heap of nodes with two pointers each is given by `Links`.  A list of nodes is a `Path` when each of them
points to the next one and that one back; a `Ring` is a path from a head through the nodes of its list to the
head again.  Only the pointers between the nodes of a path matter (`path_setNext`, `path_setPrev`), so that
two nodes can be joined (`ring_join`), one put between them (`ring_insert`) and a path put behind the last
node (`ring_extend`), whether the list is empty or not.

A heap `Represents` a family of lists when each head has a ring with the nodes of its list and no node is in
two rings; `Represents.change` is the rule for an operation on some of them. -/

namespace LinkedRings

variable {α : Type*}

/-- The pointers of all nodes; `none` is a null pointer. -/
@[ext] structure Links (α : Type*) where
  next : α → Option α
  prev : α → Option α

/-- Two nodes point to each other. -/
def Links.Linked (L : Links α) (a b : α) : Prop := L.next a = some b ∧ L.prev b = some a

/-- Each node is linked with the one behind it. -/
def Path (L : Links α) (c : List α) : Prop := c.IsChain L.Linked

/-- The circular list of a head. -/
def Ring (L : Links α) (h : α) (xs : List α) : Prop := Path L (h :: (xs ++ [h]))

section Paths

variable {L L' : Links α} {c d : List α} {a b : α}

theorem path_append : Path L (c ++ d) ↔
    Path L c ∧ Path L d ∧ ∀ x ∈ c.getLast?, ∀ y ∈ d.head?, L.Linked x y := List.isChain_append

theorem path_cons : Path L (a :: c) ↔ (∀ y ∈ c.head?, L.Linked a y) ∧ Path L c := List.isChain_cons

theorem path_singleton (L : Links α) (a : α) : Path L [a] := List.isChain_singleton a

/-- Only the pointers of its nodes matter for a path. -/
theorem Path.congr (h : Path L c) (hsame : ∀ x ∈ c, L'.next x = L.next x ∧ L'.prev x = L.prev x) : Path L' c :=
  List.IsChain.imp_of_mem_imp (fun x y hx hy hxy =>
    ⟨(hsame x hx).1.trans hxy.1, (hsame y hy).2.trans hxy.2⟩) h

theorem Ring.congr (h : Ring L a c) (hsame : ∀ x ∈ a :: c, L'.next x = L.next x ∧ L'.prev x = L.prev x) :
    Ring L' a c := by
  refine Path.congr h (fun x hx => hsame x ?_)
  rw [← List.cons_append, List.mem_append, List.mem_singleton] at hx
  exact hx.elim (fun hx => hx) (fun heq => heq ▸ List.mem_cons_self)

theorem ring_nil : Ring L a [] ↔ L.Linked a a := by
  simp [Ring, Path]

/-- The ring of a head as the path to a node and the path from there. -/
theorem ring_append : Ring L a (c ++ d) ↔
    Path L (a :: c) ∧ Path L (d ++ [a]) ∧ ∀ x ∈ (a :: c).getLast?, ∀ y ∈ (d ++ [a]).head?, L.Linked x y := by
  rw [Ring, List.append_assoc, ← List.cons_append, path_append]

/-- Where a ring is cut, two nodes are linked. -/
theorem Ring.cut (h : Ring L a (c ++ d)) :
    ∃ p n, p ∈ (a :: c).getLast? ∧ n ∈ (d ++ [a]).head? ∧ L.Linked p n := by
  obtain ⟨-, -, hlink⟩ := ring_append.mp h
  obtain ⟨p, hp⟩ : ∃ p, p ∈ (a :: c).getLast? := ⟨_, List.getLast?_eq_getLast_of_ne_nil (List.cons_ne_nil a c)⟩
  obtain ⟨n, hn⟩ : ∃ n, n ∈ (d ++ [a]).head? := ⟨_, List.head?_eq_some_head (by simp)⟩
  exact ⟨p, n, hp, hn, hlink p hp n hn⟩

/-- The neighbours of a node of a ring, and the paths on both sides of it. -/
theorem Ring.node (h : Ring L a (c ++ b :: d)) :
    Path L (a :: c) ∧ Path L (d ++ [a]) ∧
      ∃ p n, p ∈ (a :: c).getLast? ∧ n ∈ (d ++ [a]).head? ∧ L.Linked p b ∧ L.Linked b n := by
  obtain ⟨p, b', hp, hb, hpb⟩ := h.cut
  obtain rfl : b = b' := Option.some.inj hb
  have hsplit : Ring L a ((c ++ [b]) ++ d) := by
    rw [List.append_assoc]
    exact h
  obtain ⟨q, n, hq, hn, hqn⟩ := hsplit.cut
  obtain rfl : b = q := by
    rw [← List.cons_append, List.getLast?_concat] at hq
    exact Option.some.inj hq
  exact ⟨(ring_append.mp h).1, (ring_append.mp hsplit).2.1, p, n, hp, hn, hpb, hqn⟩

/-- The first and the last node of a ring, and their links with the head. -/
theorem Ring.ends (h : Ring L a c) : Path L c ∧
    ∃ n q, n ∈ (c ++ [a]).head? ∧ q ∈ (a :: c).getLast? ∧ L.Linked a n ∧ L.Linked q a := by
  obtain ⟨p, n, hp, hn, hfirst⟩ := Ring.cut (c := []) h
  obtain rfl : a = p := Option.some.inj hp
  have h' : Ring L a (c ++ []) := by rwa [List.append_nil]
  obtain ⟨q, b, hq, hb, hlast⟩ := h'.cut
  obtain rfl : a = b := Option.some.inj hb
  have hpath : Path L ([a] ++ (c ++ [a])) := h
  exact ⟨(path_append.mp (path_append.mp hpath).2.1).1, n, q, hn, hq, hfirst, hlast⟩

/-- A list with a node has it at its ends. -/
theorem ends_of_ne_nil {n q : α} (hc : c ≠ []) (hn : n ∈ (c ++ [a]).head?) (hq : q ∈ (a :: c).getLast?) :
    n ∈ c.head? ∧ q ∈ c.getLast? := by
  cases c with
  | nil => exact absurd rfl hc
  | cons y c => exact ⟨hn, by rwa [List.getLast?_cons_cons] at hq⟩

/-- The nodes where a ring is cut are its own. -/
theorem last_mem (r : List α) {h p : α} {l : List α} (hp : p ∈ (h :: l).getLast?) : p ∈ h :: (l ++ r) :=
  List.mem_append_left r (List.mem_of_getLast? hp)

theorem head_mem (l : List α) {h n : α} {r : List α} (hn : n ∈ (r ++ [h]).head?) : n ∈ h :: (l ++ r) := by
  rcases List.mem_append.mp (List.mem_of_head? hn) with hr | hh
  · exact List.mem_cons_of_mem h (List.mem_append_right l hr)
  · rw [List.mem_singleton.mp hh]
    exact List.mem_cons_self

end Paths

/-! ### Changes of pointers -/

variable [DecidableEq α]

/-- Sets a node's pointer to the next one. -/
def Links.setNext (L : Links α) (a : α) (v : Option α) : Links α := { L with next := Function.update L.next a v }

/-- Sets a node's pointer to the previous one. -/
def Links.setPrev (L : Links α) (a : α) (v : Option α) : Links α := { L with prev := Function.update L.prev a v }

section Changes

variable {L L' : Links α} {c : List α} {a b p n x : α} {v : Option α}

@[simp] theorem setNext_prev : (L.setNext a v).prev = L.prev := rfl

@[simp] theorem setPrev_next : (L.setPrev a v).next = L.next := rfl

@[simp] theorem setNext_same : (L.setNext a v).next a = v := by
  simp [Links.setNext]

@[simp] theorem setPrev_same : (L.setPrev a v).prev a = v := by
  simp [Links.setPrev]

theorem setNext_other (h : b ≠ a) : (L.setNext a v).next b = L.next b := by
  simp [Links.setNext, h]

theorem setPrev_other (h : b ≠ a) : (L.setPrev a v).prev b = L.prev b := by
  simp [Links.setPrev, h]

/-- Setting a pointer to what it is. -/
theorem setNext_id (h : L.next a = v) : L.setNext a v = L := by
  rw [← h, Links.setNext, Function.update_eq_self]

theorem setPrev_id (h : L.prev a = v) : L.setPrev a v = L := by
  rw [← h, Links.setPrev, Function.update_eq_self]

/-- The next pointer of the last node does not matter for a path. -/
theorem path_setNext (h : Path L c) (ha : a ∉ c.dropLast) : Path (L.setNext a v) c := by
  induction c with
  | nil => exact List.isChain_nil
  | cons x c ih =>
      cases c with
      | nil => exact path_singleton _ x
      | cons y c =>
          rw [List.dropLast_cons_cons, List.mem_cons, not_or] at ha
          obtain ⟨hxy, hrest⟩ := List.isChain_cons_cons.mp h
          exact List.isChain_cons_cons.mpr ⟨⟨(setNext_other (Ne.symm ha.1)).trans hxy.1, hxy.2⟩, ih hrest ha.2⟩

/-- The previous pointer of the first node does not matter for a path. -/
theorem path_setPrev (h : Path L c) (ha : a ∉ c.tail) : Path (L.setPrev a v) c := by
  induction c with
  | nil => exact List.isChain_nil
  | cons x c ih =>
      cases c with
      | nil => exact path_singleton _ x
      | cons y c =>
          rw [List.tail_cons, List.mem_cons, not_or] at ha
          obtain ⟨hxy, hrest⟩ := List.isChain_cons_cons.mp h
          refine List.isChain_cons_cons.mpr ⟨⟨hxy.1, (setPrev_other (Ne.symm ha.1)).trans hxy.2⟩, ih hrest ?_⟩
          exact fun hmem => ha.2 (by simpa using hmem)

/-- Links two nodes. -/
def Links.join (L : Links α) (p n : α) : Links α := (L.setNext p (some n)).setPrev n (some p)

theorem join_linked (L : Links α) (p n : α) : (L.join p n).Linked p n := ⟨setNext_same, setPrev_same⟩

theorem join_next_other (h : a ≠ p) : (L.join p n).next a = L.next a := setNext_other h

theorem join_prev_other (h : a ≠ n) : (L.join p n).prev a = L.prev a := setPrev_other h

theorem path_join (h : Path L c) (hp : p ∉ c.dropLast) (hn : n ∉ c.tail) : Path (L.join p n) c :=
  path_setPrev (path_setNext h hp) hn

/-- A link between other nodes stays. -/
theorem linked_join (h : L.Linked a b) (ha : a ≠ p) (hb : b ≠ n) : (L.join p n).Linked a b :=
  ⟨(join_next_other ha).trans h.1, (join_prev_other hb).trans h.2⟩

/-! ### Ends of lists -/

omit [DecidableEq α] in
theorem last_not_mem (hc : c.Nodup) (hp : p ∈ c.getLast?) : p ∉ c.dropLast := by
  obtain ⟨d, rfl⟩ := List.getLast?_eq_some_iff.mp hp
  rw [List.dropLast_concat]
  exact fun hmem => (List.nodup_append.mp hc).2.2 p hmem p (List.mem_singleton_self p) rfl

omit [DecidableEq α] in
theorem head_not_mem (hc : c.Nodup) (hn : n ∈ c.head?) : n ∉ c.tail := by
  cases c with
  | nil => exact nomatch hn
  | cons y c =>
      rw [← Option.some.inj hn]
      exact (List.nodup_cons.mp hc).1

/-- The nodes of a ring, cut in two, have no node in common but the head. -/
structure Cut (h : α) (l r : List α) : Prop where
  nodup : (h :: (l ++ r)).Nodup

namespace Cut

variable {h : α} {l r : List α}

omit [DecidableEq α]

theorem left (hcut : Cut h l r) : (h :: l).Nodup := by
  have hnodup := hcut.nodup
  rw [← List.cons_append] at hnodup
  exact hnodup.of_append_left

theorem right (hcut : Cut h l r) : (r ++ [h]).Nodup := by
  have hnodup := hcut.nodup
  rw [List.nodup_cons, List.mem_append, not_or] at hnodup
  rw [List.nodup_append]
  refine ⟨hnodup.2.of_append_right, List.nodup_singleton h, ?_⟩
  rintro a ha b hb rfl
  exact hnodup.1.2 (List.mem_singleton.mp hb ▸ ha)

theorem disjoint (hcut : Cut h l r) {a : α} (ha : a ∈ h :: l) : a ∉ r := by
  have hnodup := hcut.nodup
  rw [← List.cons_append, List.nodup_append] at hnodup
  exact fun hr => hnodup.2.2 a ha a hr rfl

/-- The last node of the first part is a source of neither path. -/
theorem last_left (hcut : Cut h l r) (hp : p ∈ (h :: l).getLast?) : p ∉ (h :: l).dropLast :=
  last_not_mem hcut.left hp

theorem last_right (hcut : Cut h l r) (hp : p ∈ (h :: l).getLast?) : p ∉ (r ++ [h]).dropLast := by
  rw [List.dropLast_concat]
  exact hcut.disjoint (List.mem_of_getLast? hp)

/-- The first node of the second part is a target of neither path. -/
theorem head_right (hcut : Cut h l r) (hn : n ∈ (r ++ [h]).head?) : n ∉ (r ++ [h]).tail :=
  head_not_mem hcut.right hn

theorem head_left (hcut : Cut h l r) (hn : n ∈ (r ++ [h]).head?) : n ∉ (h :: l).tail := by
  rw [List.tail_cons]
  intro hl
  rcases List.mem_append.mp (List.mem_of_head? hn) with hr | hh
  · exact hcut.disjoint (List.mem_cons_of_mem h hl) hr
  · rw [List.mem_singleton.mp hh] at hl
    exact (List.nodup_cons.mp hcut.left).1 hl

end Cut

/-! ### Operations on one ring -/

variable {h : α} {l r xs : List α}

/-- **Two nodes of a ring are joined**: what is between them is left out. -/
theorem ring_join (hcut : Cut h l r) (hleft : Path L (h :: l)) (hright : Path L (r ++ [h]))
    (hp : p ∈ (h :: l).getLast?) (hn : n ∈ (r ++ [h]).head?) : Ring (L.join p n) h (l ++ r) := by
  refine ring_append.mpr ⟨path_join hleft (hcut.last_left hp) (hcut.head_left hn),
    path_join hright (hcut.last_right hp) (hcut.head_right hn), fun x hx y hy => ?_⟩
  rw [Option.mem_unique hx hp, Option.mem_unique hy hn]
  exact join_linked L p n

/-- Puts a node between two others. -/
def Links.insert (L : Links α) (p x n : α) : Links α :=
  (((L.setNext x (some n)).setPrev x (some p)).setNext p (some x)).setPrev n (some x)

theorem insert_eq (hp : p ≠ x) : L.insert p x n = (L.join p x).join x n := by
  unfold Links.insert Links.join Links.setNext Links.setPrev
  simp only [Links.mk.injEq, and_true]
  exact Function.update_comm (Ne.symm hp) _ _ _

/-- **A new node is put into a ring.** -/
theorem ring_insert (hcut : Cut h l r) (hx : x ∉ h :: (l ++ r)) (hring : Ring L h (l ++ r))
    (hp : p ∈ (h :: l).getLast?) (hn : n ∈ (r ++ [h]).head?) : Ring (L.insert p x n) h (l ++ x :: r) := by
  obtain ⟨hleft, hright, -⟩ := ring_append.mp hring
  rw [← List.cons_append, List.mem_append, not_or] at hx
  have hxr : x ∉ r ++ [h] := by
    rw [List.mem_append, List.mem_singleton, not_or]
    exact ⟨hx.2, fun heq => hx.1 (heq ▸ List.mem_cons_self)⟩
  have hpx : p ≠ x := fun heq => hx.1 (heq ▸ List.mem_of_getLast? hp)
  have hnx : n ≠ x := fun heq => hxr (heq ▸ List.mem_of_head? hn)
  rw [insert_eq hpx]
  -- the parts on both sides stay paths
  have hleft' : Path ((L.join p x).join x n) (h :: l) :=
    path_join (path_join hleft (hcut.last_left hp) (fun hmem => hx.1 (List.mem_of_mem_tail hmem)))
      (fun hmem => hx.1 (List.dropLast_subset _ hmem)) (hcut.head_left hn)
  have hright' : Path ((L.join p x).join x n) (r ++ [h]) :=
    path_join (path_join hright (hcut.last_right hp) (fun hmem => hxr (List.mem_of_mem_tail hmem)))
      (fun hmem => hxr (List.dropLast_subset _ hmem)) (hcut.head_right hn)
  refine ring_append.mpr ⟨hleft', ?_, fun a ha b hb => ?_⟩
  · rw [List.cons_append, path_cons]
    refine ⟨fun y hy => ?_, hright'⟩
    rw [Option.mem_unique hy hn]
    exact join_linked _ x n
  · rw [Option.mem_unique ha hp, ← Option.some.inj hb]
    exact linked_join (join_linked L p x) hpx (Ne.symm hnx)

/-- **A path is put behind a ring's last node**, and its own last node is linked with the head. -/
theorem ring_extend {q : α} {ys : List α} (hnodup : (h :: (xs ++ ys)).Nodup) (hxs : Path L (h :: xs))
    (hys : Path L ys) (hp : p ∈ (h :: xs).getLast?) (hn : n ∈ ys.head?) (hq : q ∈ ys.getLast?) :
    Ring ((L.join p n).join q h) h (xs ++ ys) := by
  have hcut : Cut h xs ys := ⟨hnodup⟩
  have hn' : n ∈ ys := List.mem_of_head? hn
  have hys' : ys.Nodup := hcut.right.of_append_left
  have hpath : Path (L.join p n) (h :: (xs ++ ys)) := by
    rw [← List.cons_append, path_append]
    refine ⟨path_join hxs (hcut.last_left hp) ?_, path_join hys ?_ (head_not_mem hys' hn), fun a ha b hb => ?_⟩
    · exact fun hmem => hcut.disjoint (List.mem_of_mem_tail hmem) hn'
    · exact fun hmem => hcut.disjoint (List.mem_of_getLast? hp) (List.dropLast_subset _ hmem)
    · rw [Option.mem_unique ha hp, Option.mem_unique hb hn]
      exact join_linked L p n
  have hlast : q ∈ (h :: (xs ++ ys)).getLast? := by
    rw [← List.cons_append, List.getLast?_append_of_ne_nil _ (List.ne_nil_of_mem hn')]
    exact hq
  have hall : Cut h (xs ++ ys) [] := ⟨by rwa [List.append_nil]⟩
  have hring := ring_join hall hpath (path_singleton _ h) hlast rfl
  rwa [List.append_nil] at hring

end Changes

/-! ### Families of lists -/

/-- The lists of the heads. -/
abbrev Family (α : Type*) := α → Option (List α)

section Families

omit [DecidableEq α]

variable {L L' : Links α} {M M' : Family α} {h k x : α} {xs ys : List α}

/-- The node is the head of a list or in it. -/
def Used (M : Family α) (x : α) : Prop := ∃ h xs, M h = some xs ∧ x ∈ h :: xs

/-- The heap has the lists of the family. -/
structure Represents (L : Links α) (M : Family α) : Prop where
  ring : ∀ h xs, M h = some xs → Ring L h xs
  nodup : ∀ h xs, M h = some xs → (h :: xs).Nodup
  apart : ∀ h k xs ys x, M h = some xs → M k = some ys → x ∈ h :: xs → x ∈ k :: ys → h = k

/-- **Some lists change**: those of the heads in `T` get their new rings, without nodes of the others, and the
pointers of the others stay. -/
theorem Represents.change (hM : Represents L M) (T : α → Prop) (hrest : ∀ k, ¬ T k → M' k = M k)
    (hsame : ∀ k ys, ¬ T k → M k = some ys → ∀ y ∈ k :: ys, L'.next y = L.next y ∧ L'.prev y = L.prev y)
    (hring : ∀ k ys, T k → M' k = some ys → Ring L' k ys ∧ (k :: ys).Nodup)
    (hold : ∀ j xs k ys x, T j → M' j = some xs → x ∈ j :: xs → ¬ T k → M k = some ys → x ∉ k :: ys)
    (hnew : ∀ j xs k ys x, T j → M' j = some xs → x ∈ j :: xs → T k → M' k = some ys → x ∈ k :: ys → j = k) :
    Represents L' M' := by
  refine ⟨fun k ys hk => ?_, fun k ys hk => ?_, fun j k xs ys x hj hk hxj hxk => ?_⟩
  · by_cases hT : T k
    · exact (hring k ys hT hk).1
    · rw [hrest k hT] at hk
      exact (hM.ring k ys hk).congr (hsame k ys hT hk)
  · by_cases hT : T k
    · exact (hring k ys hT hk).2
    · rw [hrest k hT] at hk
      exact hM.nodup k ys hk
  · by_cases hTj : T j
    · by_cases hTk : T k
      · exact hnew j xs k ys x hTj hj hxj hTk hk hxk
      · rw [hrest k hTk] at hk
        exact absurd hxk (hold j xs k ys x hTj hj hxj hTk hk)
    · rw [hrest j hTj] at hj
      by_cases hTk : T k
      · exact absurd hxj (hold k ys j xs x hTk hk hxk hTj hj)
      · rw [hrest k hTk] at hk
        exact hM.apart j k xs ys x hj hk hxj hxk

/-- A list in two parts. -/
theorem Represents.cut {l r : List α} (hM : Represents L M) (hlist : M h = some (l ++ r)) : Cut h l r :=
  ⟨hM.nodup h _ hlist⟩

/-- The nodes of a list are in no other one. -/
theorem Represents.not_other (hM : Represents L M) {k y : α} {xs zs : List α} (hlist : M h = some xs)
    (hk : k ≠ h) (hzs : M k = some zs) (hy : y ∈ k :: zs) : y ∉ h :: xs :=
  fun hmem => hk (hM.apart k h zs xs y hzs hlist hy hmem)

/-- A head that is made is in no list of another head. -/
theorem Represents.not_in_other {me : α} {zs : List α} (hM : Represents L M)
    (hme : (M me).isSome ∨ ¬ Used M me) (hk : k ≠ me)
    (hzs : M k = some zs) : me ∉ k :: zs := by
  intro hmem
  rcases hme with hme | hme
  · obtain ⟨xs, hxs⟩ := Option.isSome_iff_exists.mp hme
    exact hM.not_other hxs hk hzs hmem List.mem_cons_self
  · exact hme ⟨k, zs, hzs, hmem⟩

/-- The pointers of nodes that are not used are free. -/
theorem Represents.free (hM : Represents L M)
    (hsame : ∀ y, Used M y → L'.next y = L.next y ∧ L'.prev y = L.prev y) : Represents L' M :=
  hM.change (fun _ => False) (fun _ _ => rfl) (fun k ys _ hk y hy => hsame y ⟨k, ys, hk, hy⟩)
    (fun _ _ hF => hF.elim) (fun _ _ _ _ _ hF => hF.elim) (fun _ _ _ _ _ hF => hF.elim)

end Families

/-- **One list changes.** -/
theorem Represents.update {L L' : Links α} {M : Family α} {h : α} {ys : List α} (hM : Represents L M)
    (hring : Ring L' h ys) (hnodup : (h :: ys).Nodup)
    (hnodes : ∀ x ∈ h :: ys, ∀ k zs, k ≠ h → M k = some zs → x ∉ k :: zs)
    (hsame : ∀ k zs, k ≠ h → M k = some zs → ∀ y ∈ k :: zs, L'.next y = L.next y ∧ L'.prev y = L.prev y) :
    Represents L' (Function.update M h (some ys)) := by
  have hself : ∀ {zs : List α}, Function.update M h (some ys) h = some zs → zs = ys := by
    intro zs hzs
    rw [Function.update_self] at hzs
    exact (Option.some.inj hzs).symm
  refine hM.change (· = h) (fun k hk => Function.update_of_ne hk _ _) hsame ?_ ?_ ?_
  · rintro k zs rfl hk
    rw [hself hk]
    exact ⟨hring, hnodup⟩
  · rintro j xs k zs x rfl hj hx hk hzs
    rw [hself hj] at hx
    exact hnodes x hx k zs hk hzs
  · rintro j xs k zs x rfl - - rfl - -
    rfl

/-- **Two lists change**, and one of them is empty then. -/
theorem Represents.update_two {L L' : Links α} {M : Family α} {d s : α} {ys : List α} (hM : Represents L M)
    (hds : d ≠ s) (hring : Ring L' d ys) (hnodup : (d :: ys).Nodup) (hself : L'.Linked s s) (hs : s ∉ d :: ys)
    (hnodes : ∀ x ∈ d :: ys, ∀ k zs, k ≠ d → k ≠ s → M k = some zs → x ∉ k :: zs)
    (hapart : ∀ k zs, k ≠ d → k ≠ s → M k = some zs → s ∉ k :: zs)
    (hsame : ∀ k zs, k ≠ d → k ≠ s → M k = some zs → ∀ y ∈ k :: zs,
      L'.next y = L.next y ∧ L'.prev y = L.prev y) :
    Represents L' (Function.update (Function.update M d (some ys)) s (some [])) := by
  have hd : ∀ {zs : List α}, Function.update (Function.update M d (some ys)) s (some []) d = some zs → zs = ys := by
    intro zs hzs
    rw [Function.update_of_ne hds, Function.update_self] at hzs
    exact (Option.some.inj hzs).symm
  have hs' : ∀ {zs : List α}, Function.update (Function.update M d (some ys)) s (some []) s = some zs → zs = [] := by
    intro zs hzs
    rw [Function.update_self] at hzs
    exact (Option.some.inj hzs).symm
  refine hM.change (fun k => k = d ∨ k = s) (fun k hk => ?_) (fun k zs hk => ?_) ?_ ?_ ?_
  · rw [not_or] at hk
    rw [Function.update_of_ne hk.2, Function.update_of_ne hk.1]
  · rw [not_or] at hk
    exact hsame k zs hk.1 hk.2
  · rintro k zs (rfl | rfl) hk
    · rw [hd hk]
      exact ⟨hring, hnodup⟩
    · rw [hs' hk]
      exact ⟨ring_nil.mpr hself, List.nodup_singleton k⟩
  · rintro j xs k zs x (rfl | rfl) hj hx hk hzs
    · rw [hd hj] at hx
      rw [not_or] at hk
      exact hnodes x hx k zs hk.1 hk.2 hzs
    · rw [hs' hj] at hx
      rw [not_or] at hk
      rw [List.mem_singleton.mp hx]
      exact hapart k zs hk.1 hk.2 hzs
  · rintro j xs k zs x (rfl | rfl) hj hx (rfl | rfl) hk hx'
    · rfl
    · rw [hd hj] at hx
      rw [hs' hk] at hx'
      exact absurd (List.mem_singleton.mp hx' ▸ hx) hs
    · rw [hd hk] at hx'
      rw [hs' hj] at hx
      exact absurd (List.mem_singleton.mp hx ▸ hx') hs
    · rfl

section Operations

variable {L L' : Links α} {M : Family α} {h p n x : α} {l r : List α}

/-- **A node that is not used is put into a list.** -/
theorem Represents.insert (hM : Represents L M) (hlist : M h = some (l ++ r)) (hx : ¬ Used M x)
    (hp : p ∈ (h :: l).getLast?) (hn : n ∈ (r ++ [h]).head?) :
    Represents (L.insert p x n) (Function.update M h (some (l ++ x :: r))) := by
  have hcut := hM.cut hlist
  have hx' : x ∉ h :: (l ++ r) := fun hmem => hx ⟨h, _, hlist, hmem⟩
  have hp' := last_mem r hp
  have hn' := head_mem l hn
  have hperm : (h :: (l ++ x :: r)).Perm (x :: h :: (l ++ r)) :=
    (List.perm_middle.cons h).trans (List.Perm.swap x h _)
  refine hM.update (ring_insert hcut hx' (hM.ring h _ hlist) hp hn) ?_ ?_ ?_
  · exact hperm.nodup_iff.mpr (List.nodup_cons.mpr ⟨hx', hcut.nodup⟩)
  · intro y hy k zs hk hzs hmem
    rcases List.mem_cons.mp (hperm.mem_iff.mp hy) with rfl | hy
    · exact hx ⟨k, zs, hzs, hmem⟩
    · exact hM.not_other hlist hk hzs hmem hy
  · intro k zs hk hzs y hy
    have hother := hM.not_other hlist hk hzs hy
    have hyx : y ≠ x := fun heq => hx ⟨k, zs, hzs, heq ▸ hy⟩
    have hyp : y ≠ p := fun heq => hother (heq ▸ hp')
    have hyn : y ≠ n := fun heq => hother (heq ▸ hn')
    simp [Links.insert, Links.setNext, Links.setPrev, hyx, hyp, hyn]

/-- **A node is taken out of its list.** -/
theorem Represents.remove (hM : Represents L M) (hlist : M h = some (l ++ x :: r))
    (hp : p ∈ (h :: l).getLast?) (hn : n ∈ (r ++ [h]).head?) :
    Represents (L.join p n) (Function.update M h (some (l ++ r))) := by
  have hnodup := hM.nodup h _ hlist
  have hsub : ∀ y ∈ h :: (l ++ r), y ∈ h :: (l ++ x :: r) := by
    intro y hy
    simp only [List.mem_cons, List.mem_append] at hy ⊢
    tauto
  have hcut : Cut h l r :=
    ⟨hnodup.sublist (((List.sublist_cons_self x r).append_left l).cons_cons h)⟩
  obtain ⟨hleft, hright, -⟩ := (hM.ring h _ hlist).node
  have hp' := last_mem r hp
  have hn' := head_mem l hn
  refine hM.update (ring_join hcut hleft hright hp hn) hcut.nodup ?_ ?_
  · intro y hy k zs hk hzs hmem
    exact hM.not_other hlist hk hzs hmem (hsub y hy)
  · intro k zs hk hzs y hy
    have hother := hM.not_other hlist hk hzs hy
    exact ⟨join_next_other (fun heq => hother (heq ▸ hsub p hp')),
      join_prev_other (fun heq => hother (heq ▸ hsub n hn'))⟩

omit [DecidableEq α] in
/-- A node in a list has a node behind it. -/
theorem Represents.used_next (hM : Represents L M) (hx : Used M x) : ∃ n, L.next x = some n := by
  obtain ⟨h, xs, hlist, hmem⟩ := hx
  have hring := hM.ring h xs hlist
  rcases List.mem_cons.mp hmem with rfl | hmem
  · obtain ⟨p, n, hp, -, hlink⟩ := Ring.cut (c := []) hring
    obtain rfl : x = p := Option.some.inj hp
    exact ⟨n, hlink.1⟩
  · obtain ⟨l, r, rfl⟩ := List.append_of_mem hmem
    obtain ⟨-, -, p, n, -, -, -, hlink⟩ := hring.node
    exact ⟨n, hlink.1⟩

/-- A node that was taken out is not used. -/
theorem Represents.not_used (hM : Represents L M) (hlist : M h = some (l ++ x :: r)) :
    ¬ Used (Function.update M h (some (l ++ r))) x := by
  have hmem : x ∈ h :: (l ++ x :: r) := List.mem_cons_of_mem h (List.mem_append_right l List.mem_cons_self)
  rintro ⟨k, zs, hzs, hx⟩
  by_cases hk : k = h
  · subst hk
    rw [Function.update_self] at hzs
    rw [← Option.some.inj hzs] at hx
    have hperm : (k :: (l ++ x :: r)).Perm (x :: k :: (l ++ r)) :=
      (List.perm_middle.cons k).trans (List.Perm.swap x k _)
    exact (List.nodup_cons.mp (hperm.nodup_iff.mp (hM.nodup k _ hlist))).1 hx
  · rw [Function.update_of_ne hk] at hzs
    exact hM.not_other hlist hk hzs hx hmem

end Operations

end LinkedRings
