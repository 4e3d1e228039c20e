import FastRpc.Basic
import FastRpc.Transition
import Mathlib.Algebra.Order.BigOperators.Group.Finset
import Mathlib.Data.Fintype.BigOperators
import Mathlib.Data.Int.ModEq

/-! # Platform libraries

`pl_lib_init` counts the references to a library and runs its init function at the first one,
`pl_lib_deinit` counts back and runs the deinit function at the last one.  `pl_init` initialises the
libraries of a list up to the first that fails, `pl_deinit` deinitialises all of them from the end.

The functions of a library are given by its dependencies: the init function initialises them in order, the
deinit function deinitialises them in the reverse order, and an init function that fails first deinitialises
those it has initialised.  Dependencies may form cycles.  Init and deinit call each other recursively:
the fuel is more than the number of libraries, which is enough.

`pl_deinit` undoes `pl_init` exactly when no library of the list but the last fails. -/

namespace FastRpc.PlatformLibs

open Transition

/-! ### Data -/

/-- Which functions a library has and what these initialise. -/
structure Libs (ι : Type) where
  hasInit : ι → Bool
  hasDeinit : ι → Bool
  deps : ι → List ι
  paired : ∀ n, deps n ≠ [] → hasInit n = true ∧ hasDeinit n = true

/-- What the init functions return by themselves, and after how many dependencies if it is an error. -/
structure Outcome (ι : Type) where
  err : ι → ℤ
  after : ι → ℕ

/-- `uRefs` and `nErr` of the libraries, and the order in which they were initialised and `deinit` was
called. -/
structure State (ι : Type) where
  uRefs : ι → ℕ
  nErr : ι → ℤ
  inited : List ι
  deinited : List ι

variable {ι : Type} [DecidableEq ι]

def State.setRefs (s : State ι) (n : ι) (refs : ℕ) : State ι :=
  { s with uRefs := Function.update s.uRefs n refs }

@[simp] theorem State.setRefs_uRefs_self (s : State ι) (n : ι) (refs : ℕ) :
    (s.setRefs n refs).uRefs n = refs := Function.update_self _ _ _

theorem State.setRefs_uRefs_of_ne {m n : ι} (h : m ≠ n) (s : State ι) (refs : ℕ) :
    (s.setRefs n refs).uRefs m = s.uRefs m := Function.update_of_ne h _ _

/-- `pl->nErr = nErr` after the init function. -/
def State.setErr (s : State ι) (n : ι) (nErr : ℤ) : State ι :=
  { s with
    nErr := Function.update s.nErr n nErr
    inited := if nErr = 0 then s.inited ++ [n] else s.inited }

theorem State.setErr_nErr_of_ne {m n : ι} (h : m ≠ n) (s : State ι) (nErr : ℤ) :
    (s.setErr n nErr).nErr m = s.nErr m := Function.update_of_ne h _ _

@[simp] theorem State.setErr_nErr_self (s : State ι) (n : ι) (nErr : ℤ) :
    (s.setErr n nErr).nErr n = nErr := Function.update_self _ _ _

/-- The call of `deinit`. -/
def State.callDeinit (s : State ι) (n : ι) : State ι := { s with deinited := s.deinited ++ [n] }

/-! ### Functions -/

/-- Libraries are deinitialised one after another. -/
def deinitAll (deinit : ι → State ι → Option (State ι)) : List ι → State ι → Option (State ι)
  | [], s => some s
  | n :: ns, s => (deinit n s).bind (deinitAll deinit ns)

/-- Libraries are initialised up to the first that fails: those whose count was taken and the error. -/
def initAll (init : ι → State ι → Option (State ι × ℤ)) :
    List ι → State ι → Option (State ι × List ι × ℤ)
  | [], s => some (s, [], 0)
  | n :: ns, s => (init n s).bind (fun r =>
      if r.2 = 0 then (initAll init ns r.1).map (fun q => (q.1, n :: q.2.1, q.2.2))
      else some (r.1, [n], r.2))

/-- The dependencies that an init function asks for, if none of them fails. -/
def Libs.wanted (L : Libs ι) (o : Outcome ι) (n : ι) : List ι :=
  if o.err n = 0 then L.deps n else (L.deps n).take (o.after n)

/-- `pl->init()`, if there is one. -/
def callInit (L : Libs ι) (o : Outcome ι) (init : ι → State ι → Option (State ι × ℤ))
    (deinit : ι → State ι → Option (State ι)) (n : ι) (s : State ι) : Option (State ι × ℤ) :=
  if L.hasInit n = true then
    (initAll init (L.wanted o n) s).bind (fun r =>
      let nErr := if r.2.2 = 0 then o.err n else r.2.2
      if nErr = 0 then some (r.1, nErr)
      else (deinitAll deinit r.2.1.reverse r.1).map (fun s => (s, nErr)))
  else some (s, 0)

def plLibDeinit (L : Libs ι) : ℕ → ι → State ι → Option (State ι)
  | 0, _, _ => none
  | fuel + 1, n, s =>
      let s' := s.setRefs n (subU32 (s.uRefs n) 1)
      if s.uRefs n = 1 ∧ L.hasDeinit n = true ∧ s.nErr n = 0 then
        deinitAll (plLibDeinit L fuel) (L.deps n).reverse (s'.callDeinit n)
      else some s'

def plLibInit (L : Libs ι) (o : Outcome ι) : ℕ → ι → State ι → Option (State ι × ℤ)
  | 0, _, _ => none
  | fuel + 1, n, s =>
      let s' := s.setRefs n (addU32 (s.uRefs n) 1)
      if s.uRefs n = 0 then
        (callInit L o (plLibInit L o fuel) (plLibDeinit L fuel) n s').map
          (fun r => (r.1.setErr n r.2, r.2))
      else some (s', s.nErr n)

/-- The libraries of the list whose count was taken are returned, too. -/
def plInitLst (L : Libs ι) (o : Outcome ι) (fuel : ℕ) (lst : List ι) (s : State ι) :
    Option (State ι × List ι × ℤ) :=
  initAll (plLibInit L o fuel) lst s

def plDeinitLst (L : Libs ι) (fuel : ℕ) (lst : List ι) (s : State ι) : Option (State ι) :=
  deinitAll (plLibDeinit L fuel) lst.reverse s

/-- As `PL_DEFINE` declares the libraries. -/
def init : State ι := ⟨fun _ => 0, fun _ => -1, [], []⟩

/-- `pl_init` and then `pl_deinit`, with new records of the calls. -/
def cycle [Fintype ι] (L : Libs ι) (lst : List ι) (s : State ι) (o : Outcome ι) : Option (State ι) :=
  (plInitLst L o (Fintype.card ι + 1) lst { s with inited := [], deinited := [] }).bind
    (fun r => plDeinitLst L (Fintype.card ι + 1) lst r.1)

/-- All references are given back, and `deinit` was called once for each library that was initialised and
has one, from the last to the first. -/
structure Paired (L : Libs ι) (s : State ι) : Prop where
  uRefs : ∀ n, s.uRefs n = 0
  once : s.inited.Nodup
  reversed : s.deinited = (s.inited.filter L.hasDeinit).reverse

/-- The library and what it depends on are initialised without an error. -/
inductive Works (L : Libs ι) (o : Outcome ι) : ι → Prop
  | intro (n : ι) (herr : L.hasInit n = true → o.err n = 0) (hdeps : ∀ d ∈ L.deps n, Works L o d) :
      Works L o n

section Calls

variable {L : Libs ι} {o : Outcome ι} {fuel : ℕ} {n : ι} {ns ms : List ι} {s s' : State ι} {e : ℤ}
  {init : ι → State ι → Option (State ι × ℤ)} {deinit : ι → State ι → Option (State ι)}

omit [DecidableEq ι] in
theorem deinitAll_append :
    deinitAll deinit (ns ++ ms) s = (deinitAll deinit ns s).bind (deinitAll deinit ms) := by
  induction ns generalizing s with
  | nil => rfl
  | cons n ns ih =>
      cases h : deinit n s with
      | none => simp [deinitAll, h]
      | some t => simp [deinitAll, h, ih]

omit [DecidableEq ι] in
/-- What one call preserves, calls one after another preserve. -/
theorem deinitAll_invariant {P : State ι → Prop} (hstep : ∀ n s t, P s → deinit n s = some t → P t)
    (hs : P s) (h : deinitAll deinit ns s = some s') : P s' := by
  induction ns generalizing s with
  | nil => exact Option.some.inj h ▸ hs
  | cons n ns ih =>
      obtain ⟨t, ht, h⟩ := Option.bind_eq_some_iff.mp h
      exact ih (hstep n s t hs ht) h

omit [DecidableEq ι] in
/-- What one call preserves and is enough for it to return is enough for calls one after another. -/
theorem deinitAll_returns {P : State ι → Prop} (hstep : ∀ n s t, P s → deinit n s = some t → P t)
    (hret : ∀ n ∈ ns, ∀ s, P s → ∃ t, deinit n s = some t) (hs : P s) :
    ∃ t, deinitAll deinit ns s = some t := by
  induction ns generalizing s with
  | nil => exact ⟨s, rfl⟩
  | cons n ns ih =>
      obtain ⟨t, ht⟩ := hret n List.mem_cons_self s hs
      obtain ⟨u, hu⟩ := ih (fun m hm => hret m (List.mem_cons_of_mem n hm)) (hstep n s t hs ht)
      exact ⟨u, by rw [deinitAll, ht, Option.bind_some, hu]⟩

/-- The cases of `pl_lib_deinit`. -/
theorem plLibDeinit_cases (h : plLibDeinit L (fuel + 1) n s = some s') :
    (s.uRefs n = 1 ∧ L.hasDeinit n = true ∧ s.nErr n = 0 ∧
      deinitAll (plLibDeinit L fuel) (L.deps n).reverse
        ((s.setRefs n (subU32 (s.uRefs n) 1)).callDeinit n) = some s') ∨
    s' = s.setRefs n (subU32 (s.uRefs n) 1) := by
  simp only [plLibDeinit] at h
  split at h
  case isTrue hlast => exact .inl ⟨hlast.1, hlast.2.1, hlast.2.2, h⟩
  case isFalse => exact .inr (Option.some.inj h).symm

/-- `pl_lib_deinit` changes no `nErr`. -/
theorem plLibDeinit_nErr (h : plLibDeinit L fuel n s = some s') :
    s'.nErr = s.nErr ∧ s'.inited = s.inited := by
  induction fuel generalizing n s s' with
  | zero => cases h
  | succ fuel ih =>
      obtain ⟨-, -, -, h⟩ | rfl := plLibDeinit_cases h
      · refine deinitAll_invariant (P := fun t => t.nErr = s.nErr ∧ t.inited = s.inited) ?_ ?_ h
        · rintro m t u ⟨hnErr, hinited⟩ hu
          obtain ⟨hnErr', hinited'⟩ := ih hu
          exact ⟨hnErr'.trans hnErr, hinited'.trans hinited⟩
        · exact ⟨rfl, rfl⟩
      · exact ⟨rfl, rfl⟩

omit [DecidableEq ι] in
/-- The cases of `callInit`. -/
theorem callInit_cases (h : callInit L o init deinit n s = some (s', e)) :
    (L.hasInit n = false ∧ s' = s ∧ e = 0) ∨
    (o.err n = 0 ∧ e = 0 ∧ ∃ taken, initAll init (L.deps n) s = some (s', taken, 0)) ∨
    (e ≠ 0 ∧ ∃ t taken e', initAll init (L.wanted o n) s = some (t, taken, e') ∧
      deinitAll deinit taken.reverse t = some s' ∧ e = if e' = 0 then o.err n else e') := by
  simp only [callInit] at h
  cases hinit : L.hasInit n with
  | false =>
      rw [hinit] at h
      cases h
      exact .inl ⟨rfl, rfl, rfl⟩
  | true =>
      rw [if_pos hinit] at h
      obtain ⟨⟨t, taken, e'⟩, ht, h⟩ := Option.bind_eq_some_iff.mp h
      dsimp only at h
      by_cases he' : e' = 0
      · rw [if_pos he'] at h
        by_cases herr : o.err n = 0
        · rw [if_pos herr, herr] at h
          obtain ⟨rfl, rfl⟩ := Prod.mk.inj (Option.some.inj h)
          rw [Libs.wanted, if_pos herr, he'] at ht
          exact .inr (.inl ⟨herr, rfl, taken, ht⟩)
        · rw [if_neg herr] at h
          obtain ⟨u, hu, heq⟩ := Option.map_eq_some_iff.mp h
          obtain ⟨rfl, rfl⟩ := Prod.mk.inj heq
          exact .inr (.inr ⟨herr, t, taken, e', ht, hu, (if_pos he').symm⟩)
      · rw [if_neg he', if_neg he'] at h
        obtain ⟨u, hu, heq⟩ := Option.map_eq_some_iff.mp h
        obtain ⟨rfl, rfl⟩ := Prod.mk.inj heq
        exact .inr (.inr ⟨he', t, taken, e', ht, hu, (if_neg he').symm⟩)

end Calls

/-! ### The balance of the references -/

/-- The number of references that these libraries take to their dependencies. -/
def Libs.weight (L : Libs ι) (ns : List ι) : ℤ := (ns.map (fun n => ((L.deps n).length : ℤ))).sum

section Balance

variable {L : Libs ι} {o : Outcome ι} {fuel : ℕ} {n : ι} {ns taken : List ι} {s s' : State ι} {e : ℤ}

omit [DecidableEq ι] in
theorem Libs.weight_append (L : Libs ι) (ns ms : List ι) :
    L.weight (ns ++ ms) = L.weight ns + L.weight ms := by
  simp [Libs.weight]

omit [DecidableEq ι] in
theorem Libs.weight_singleton (L : Libs ι) (n : ι) : L.weight [n] = (L.deps n).length := by
  simp [Libs.weight]

omit [DecidableEq ι] in
/-- A library without a deinit function has no dependencies. -/
theorem Libs.deps_of_hasDeinit (L : Libs ι) (h : L.hasDeinit n = false) : L.deps n = [] := by
  by_contra hdeps
  rw [(L.paired n hdeps).2] at h
  cases h

omit [DecidableEq ι] in
/-- A library without an init function has no dependencies. -/
theorem Libs.deps_of_hasInit (L : Libs ι) (h : L.hasInit n = false) : L.deps n = [] := by
  by_contra hdeps
  rw [(L.paired n hdeps).1] at h
  cases h

omit [DecidableEq ι] in
theorem Libs.weight_filter_reverse (L : Libs ι) (ns : List ι) :
    L.weight (ns.filter L.hasDeinit).reverse = L.weight ns := by
  induction ns with
  | nil => rfl
  | cons n ns ih =>
      have hcons : L.weight (n :: ns) = (L.deps n).length + L.weight ns := by simp [Libs.weight]
      rw [hcons]
      cases h : L.hasDeinit n with
      | true =>
          rw [List.filter_cons_of_pos h, List.reverse_cons, L.weight_append, L.weight_singleton, ih]
          exact add_comm _ _
      | false =>
          rw [List.filter_cons_of_neg (by simp [h]), ih, L.deps_of_hasDeinit h]
          simp

variable [Fintype ι]

/-- A sum over a function that is changed at one place. -/
theorem sum_update {κ : Type} [AddCommMonoid κ] (g : ι → ℕ → κ) (f : ι → ℕ) (n : ι) (v : ℕ) :
    ∑ m, g m (Function.update f n v m) + g n (f n) = ∑ m, g m (f m) + g n v := by
  rw [← Finset.add_sum_erase Finset.univ _ (Finset.mem_univ n),
    ← Finset.add_sum_erase Finset.univ (fun m => g m (f m)) (Finset.mem_univ n)]
  have hrest : ∑ m ∈ Finset.univ.erase n, g m (Function.update f n v m) =
      ∑ m ∈ Finset.univ.erase n, g m (f m) := by
    refine Finset.sum_congr rfl fun m hm => ?_
    rw [Function.update_of_ne (Finset.ne_of_mem_erase hm)]
  rw [hrest, Function.update_self]
  ac_rfl

/-- The references that are held, less those that initialised libraries hold. -/
def balance (L : Libs ι) (s : State ι) : ℤ :=
  ∑ m, (s.uRefs m : ℤ) + L.weight s.deinited - L.weight s.inited

theorem balance_setRefs (L : Libs ι) (s : State ι) (n : ι) (refs : ℕ) :
    balance L (s.setRefs n refs) = balance L s + refs - s.uRefs n := by
  have := sum_update (fun _ (refs : ℕ) => (refs : ℤ)) s.uRefs n refs
  simp only [balance, State.setRefs]
  omega

omit [DecidableEq ι] in
theorem balance_callDeinit (L : Libs ι) (s : State ι) (n : ι) :
    balance L (s.callDeinit n) = balance L s + (L.deps n).length := by
  simp only [balance, State.callDeinit, L.weight_append, L.weight_singleton]
  omega

theorem subU32_one_modEq (a : ℕ) : (subU32 a 1 : ℤ) ≡ a - 1 [ZMOD 2 ^ 32] := by
  simp only [Int.ModEq, subU32]
  omega

theorem addU32_one_modEq (a : ℕ) : (addU32 a 1 : ℤ) ≡ a + 1 [ZMOD 2 ^ 32] := by
  simp only [Int.ModEq, addU32]
  omega

omit [DecidableEq ι] in
theorem deinitAll_balance {deinit : ι → State ι → Option (State ι)}
    (hstep : ∀ n s t, deinit n s = some t → balance L t ≡ balance L s - 1 [ZMOD 2 ^ 32])
    (h : deinitAll deinit ns s = some s') :
    balance L s' ≡ balance L s - ns.length [ZMOD 2 ^ 32] := by
  induction ns generalizing s with
  | nil =>
      obtain rfl := Option.some.inj h
      simp
  | cons n ns ih =>
      obtain ⟨t, ht, h⟩ := Option.bind_eq_some_iff.mp h
      have hn := hstep n s t ht
      have hns := ih h
      simp only [Int.ModEq, List.length_cons] at hn hns ⊢
      omega

/-- `pl_lib_deinit` gives back one reference. -/
theorem plLibDeinit_balance (h : plLibDeinit L fuel n s = some s') :
    balance L s' ≡ balance L s - 1 [ZMOD 2 ^ 32] := by
  induction fuel generalizing n s s' with
  | zero => cases h
  | succ fuel ih =>
      have hsub := subU32_one_modEq (s.uRefs n)
      have hrefs := balance_setRefs L s n (subU32 (s.uRefs n) 1)
      obtain ⟨-, -, -, h⟩ | rfl := plLibDeinit_cases h
      · have hdeps := deinitAll_balance (fun _ _ _ => ih) h
        have hcall := balance_callDeinit L (s.setRefs n (subU32 (s.uRefs n) 1)) n
        rw [List.length_reverse] at hdeps
        simp only [Int.ModEq] at hdeps hsub ⊢
        omega
      · simp only [Int.ModEq] at hsub ⊢
        omega

omit [DecidableEq ι] in
theorem initAll_balance {init : ι → State ι → Option (State ι × ℤ)}
    (hstep : ∀ n s r, init n s = some r → balance L r.1 ≡ balance L s + 1 [ZMOD 2 ^ 32])
    (h : initAll init ns s = some (s', taken, e)) :
    balance L s' ≡ balance L s + taken.length [ZMOD 2 ^ 32] ∧ (e = 0 → taken = ns) := by
  induction ns generalizing s taken with
  | nil =>
      cases h
      simp
  | cons n ns ih =>
      obtain ⟨r, hr, h⟩ := Option.bind_eq_some_iff.mp h
      have hn := hstep n s r hr
      split at h
      case isTrue =>
        obtain ⟨⟨t, rest, e'⟩, hq, heq⟩ := Option.map_eq_some_iff.mp h
        cases heq
        obtain ⟨hrest, hall⟩ := ih hq
        refine ⟨?_, fun he => by rw [hall he]⟩
        simp only [Int.ModEq, List.length_cons] at hn hrest ⊢
        omega
      case isFalse he =>
        cases h
        refine ⟨?_, fun h0 => absurd h0 he⟩
        simpa using hn

theorem balance_setErr (L : Libs ι) (s : State ι) (n : ι) (e : ℤ) :
    balance L (s.setErr n e) =
      balance L s - if e = 0 then ((L.deps n).length : ℤ) else 0 := by
  simp only [balance, State.setErr]
  split
  · rw [L.weight_append, L.weight_singleton]
    omega
  · omega

omit [DecidableEq ι] in
theorem callInit_balance {init : ι → State ι → Option (State ι × ℤ)}
    {deinit : ι → State ι → Option (State ι)}
    (hinit : ∀ n s r, init n s = some r → balance L r.1 ≡ balance L s + 1 [ZMOD 2 ^ 32])
    (hdeinit : ∀ n s t, deinit n s = some t → balance L t ≡ balance L s - 1 [ZMOD 2 ^ 32])
    (h : callInit L o init deinit n s = some (s', e)) :
    balance L s' ≡ balance L s + if e = 0 then ((L.deps n).length : ℤ) else 0 [ZMOD 2 ^ 32] := by
  obtain ⟨hnone, rfl, rfl⟩ | ⟨-, rfl, taken, ht⟩ | ⟨hne, t, taken, e', ht, hback, -⟩ := callInit_cases h
  · simp [L.deps_of_hasInit hnone]
  · obtain ⟨hbal, hall⟩ := initAll_balance hinit ht
    rw [hall rfl] at hbal
    simpa using hbal
  · obtain ⟨hbal, -⟩ := initAll_balance hinit ht
    have hgiven := deinitAll_balance hdeinit hback
    rw [List.length_reverse] at hgiven
    simp only [Int.ModEq, if_neg hne] at hbal hgiven ⊢
    omega

/-- `pl_lib_init` takes one reference. -/
theorem plLibInit_balance {r : State ι × ℤ} (h : plLibInit L o fuel n s = some r) :
    balance L r.1 ≡ balance L s + 1 [ZMOD 2 ^ 32] := by
  induction fuel generalizing n s r with
  | zero => cases h
  | succ fuel ih =>
      have hadd := addU32_one_modEq (s.uRefs n)
      have hrefs := balance_setRefs L s n (addU32 (s.uRefs n) 1)
      simp only [plLibInit] at h
      split at h
      case isFalse =>
        cases h
        simp only [Int.ModEq] at hadd ⊢
        omega
      case isTrue =>
        obtain ⟨⟨t, e⟩, ht, rfl⟩ := Option.map_eq_some_iff.mp h
        have herr := balance_setErr L t n e
        have hcall := callInit_balance (fun _ _ _ => ih) (fun _ _ _ => plLibDeinit_balance) ht
        simp only [Int.ModEq] at hadd hcall ⊢
        omega

end Balance

/-! ### Dependencies -/

/-- What a library needs, directly or through others. -/
def Libs.Needs (L : Libs ι) (n d : ι) : Prop := d ∈ L.deps n

/-- The library is on no cycle of dependencies and needs none. -/
def Libs.Ordered (L : Libs ι) (n : ι) : Prop := Acc (fun d n => L.Needs n d) n

section Dependencies

variable {L : Libs ι} {o : Outcome ι} {n d : ι}

omit [DecidableEq ι] in
theorem Libs.Ordered.not_transGen (h : L.Ordered n) : ¬ Relation.TransGen L.Needs n n := by
  induction h with
  | intro n _ ih =>
      intro hcycle
      obtain ⟨d, hd, hback⟩ := Relation.TransGen.head'_iff.mp hcycle
      exact ih d hd (.tail' hback hd)

omit [DecidableEq ι] in
theorem Works.ordered (h : Works L o n) : L.Ordered n := by
  induction h with
  | intro n _ _ ih => exact ⟨n, fun d hd => ih d hd⟩

omit [DecidableEq ι] in
theorem works_iff : Works L o n ↔
    (L.hasInit n = true → o.err n = 0) ∧ ∀ d ∈ L.deps n, Works L o d := by
  constructor
  · rintro ⟨_, herr, hdeps⟩
    exact ⟨herr, hdeps⟩
  · rintro ⟨herr, hdeps⟩
    exact ⟨n, herr, hdeps⟩

variable [Fintype ι] {fuel : ℕ}

/-- The libraries that are being deinitialised do not come up again among their dependencies, so that the
fuel suffices. -/
theorem plLibDeinit_returns (V : Finset ι) (hV : ∀ v ∈ V, Relation.TransGen L.Needs v n)
    (hfuel : Fintype.card ι < fuel + V.card) {s : State ι} (hs : ∀ m, s.nErr m = 0 → L.Ordered m) :
    ∃ t, plLibDeinit L fuel n s = some t := by
  induction fuel generalizing n V s with
  | zero =>
      have := V.card_le_univ
      omega
  | succ fuel ih =>
      simp only [plLibDeinit]
      split
      case isFalse => exact ⟨_, rfl⟩
      case isTrue hlast =>
        have hordered := hs n hlast.2.2
        have hn : n ∉ V := fun hmem => hordered.not_transGen (hV n hmem)
        refine deinitAll_returns (P := fun t => ∀ m, t.nErr m = 0 → L.Ordered m) ?_ ?_ hs
        · intro m t u ht hu
          rw [(plLibDeinit_nErr hu).1]
          exact ht
        · intro d hd t ht
          have hneeds : L.Needs n d := List.mem_reverse.mp hd
          refine ih (insert n V) ?_ ?_ ht
          · intro v hv
            obtain rfl | hv := Finset.mem_insert.mp hv
            · exact .single hneeds
            · exact (hV v hv).tail hneeds
          · rw [Finset.card_insert_of_notMem hn]
            omega

end Dependencies

/-! ### Room and fuel -/

section Room

variable [Fintype ι] {L : Libs ι} {n : ι} {s s' : State ι}

/-- The references that are held, and those that initialisations can still add. -/
def Libs.room (L : Libs ι) (s : State ι) : ℕ :=
  ∑ m, (s.uRefs m + if s.uRefs m = 0 then (L.deps m).length else 0)

/-- The number of libraries without a reference. -/
def unheld (s : State ι) : ℕ := (Finset.univ.filter (fun m => s.uRefs m = 0)).card

omit [DecidableEq ι] in
theorem uRefs_le_room (L : Libs ι) (s : State ι) (n : ι) : s.uRefs n ≤ L.room s := by
  have := Finset.single_le_sum (f := fun m => s.uRefs m + if s.uRefs m = 0 then (L.deps m).length else 0)
    (fun m _ => Nat.zero_le _) (Finset.mem_univ n)
  exact (Nat.le_add_right _ _).trans this

theorem room_setRefs (L : Libs ι) (s : State ι) (n : ι) (refs : ℕ) :
    L.room (s.setRefs n refs) + (s.uRefs n + if s.uRefs n = 0 then (L.deps n).length else 0) =
      L.room s + (refs + if refs = 0 then (L.deps n).length else 0) :=
  sum_update (fun m refs => refs + if refs = 0 then (L.deps m).length else 0) s.uRefs n refs

theorem room_setRefs_first (h : s.uRefs n = 0) :
    L.room (s.setRefs n 1) + (L.deps n).length = L.room s + 1 := by
  have := room_setRefs L s n 1
  rw [h] at this
  simpa using this

theorem room_setRefs_next (h : s.uRefs n ≠ 0) :
    L.room (s.setRefs n (s.uRefs n + 1)) = L.room s + 1 := by
  have := room_setRefs L s n (s.uRefs n + 1)
  rw [if_neg h, if_neg (Nat.succ_ne_zero _)] at this
  omega

omit [DecidableEq ι] in
theorem unheld_le (h : ∀ m, s.uRefs m ≤ s'.uRefs m) : unheld s' ≤ unheld s := by
  refine Finset.card_le_card fun m hm => ?_
  have := h m
  simp only [Finset.mem_filter, Finset.mem_univ, true_and] at hm ⊢
  omega

theorem unheld_setRefs_lt (h : s.uRefs n = 0) : unheld (s.setRefs n 1) < unheld s := by
  have hsub : Finset.univ.filter (fun m => (s.setRefs n 1).uRefs m = 0) ⊆
      Finset.univ.filter (fun m => s.uRefs m = 0) := by
    intro m hm
    rcases eq_or_ne m n with rfl | hne
    · simpa using h
    · simpa [State.setRefs_uRefs_of_ne hne] using hm
  refine Finset.card_lt_card ((Finset.ssubset_iff_of_subset hsub).mpr ⟨n, ?_, ?_⟩)
  · simpa using h
  · simp

end Room

/-! ### What an initialisation brings and how it is undone -/

/-- The libraries that have other counts in `s'` than in `s` are in `t` as in `s'`. -/
def Like (s s' t : State ι) : Prop :=
  ∀ m, s.uRefs m ≠ s'.uRefs m → t.uRefs m = s'.uRefs m ∧ t.nErr m = s'.nErr m

/-- The counts go back from `s'` to `s`, and `A` is deinitialised. -/
structure GivesBack (L : Libs ι) (s s' t t' : State ι) (A : List ι) : Prop where
  taken : ∀ m, s.uRefs m ≠ s'.uRefs m → t'.uRefs m = s.uRefs m
  other : ∀ m, s.uRefs m = s'.uRefs m → t'.uRefs m = t.uRefs m
  nErr : t'.nErr = t.nErr
  inited : t'.inited = t.inited
  deinited : t'.deinited = t.deinited ++ (A.filter L.hasDeinit).reverse

/-- From `s` to `s'` the libraries `A` and `B` are initialised and `B` is deinitialised; `back` undoes
it later, which deinitialises `A`. -/
structure Brings (L : Libs ι) (o : Outcome ι) (back : State ι → Option (State ι)) (s s' : State ι)
    (A B : List ι) : Prop where
  inited : s'.inited = s.inited ++ (A ++ B)
  deinited : s'.deinited = s.deinited ++ (B.filter L.hasDeinit).reverse
  le : ∀ m, s.uRefs m ≤ s'.uRefs m
  kept : ∀ m, s.uRefs m ≠ 0 → s'.nErr m = s.nErr m
  nodup : (A ++ B).Nodup
  fresh : ∀ m ∈ A ++ B, s.uRefs m = 0
  held : ∀ m ∈ A, s'.uRefs m ≠ 0
  known : ∀ m, s.uRefs m = 0 → s'.uRefs m ≠ 0 → (s'.nErr m = 0 ↔ Works L o m)
  ordered : (∀ m, s.nErr m = 0 → L.Ordered m) → ∀ m, s'.nErr m = 0 → L.Ordered m
  undo : ∀ t, Like s s' t → ∃ t', back t = some t' ∧ GivesBack L s s' t t' A

section Undo

variable {L : Libs ι} {o : Outcome ι} {n : ι} {s s₁ s₂ t t₁ t₂ : State ι} {A A₁ A₂ B B₂ : List ι}
  {back back₁ back₂ : State ι → Option (State ι)}

omit [DecidableEq ι] in
theorem Like.refl (s t : State ι) : Like s t t := fun _ _ => ⟨rfl, rfl⟩

omit [DecidableEq ι] in
theorem Brings.refl (L : Libs ι) (o : Outcome ι) (s : State ι) : Brings L o some s s [] [] where
  inited := (List.append_nil _).symm
  deinited := (List.append_nil _).symm
  le := fun _ => le_rfl
  kept := fun _ _ => rfl
  nodup := List.nodup_nil
  fresh := nofun
  held := nofun
  known := fun _ h h' => absurd h h'
  ordered := fun h => h
  undo := fun t _ => ⟨t, rfl, fun _ h => absurd rfl h, fun _ _ => rfl, rfl, rfl,
    (List.append_nil _).symm⟩

omit [DecidableEq ι] in
/-- Undoing the second initialisation leaves the first to be undone. -/
theorem Like.first (hle : ∀ m, s.uRefs m ≤ s₁.uRefs m) (hle₂ : ∀ m, s₁.uRefs m ≤ s₂.uRefs m)
    (hkept : ∀ m, s₁.uRefs m ≠ 0 → s₂.nErr m = s₁.nErr m) (hlike : Like s s₂ t)
    (hback : GivesBack L s₁ s₂ t t₁ A) : Like s s₁ t₁ := by
  intro m hm
  have hlem := hle m
  have hlem₂ := hle₂ m
  obtain ⟨hrefs, hnErr⟩ := hlike m (by omega)
  refine ⟨?_, by rw [hback.nErr, hnErr, hkept m (by omega)]⟩
  by_cases h₂ : s₁.uRefs m = s₂.uRefs m
  · rw [hback.other m h₂, hrefs, h₂]
  · exact hback.taken m h₂

omit [DecidableEq ι] in
theorem GivesBack.trans (hle : ∀ m, s.uRefs m ≤ s₁.uRefs m) (hle₂ : ∀ m, s₁.uRefs m ≤ s₂.uRefs m)
    (h₂ : GivesBack L s₁ s₂ t t₁ A₂) (h₁ : GivesBack L s s₁ t₁ t₂ A₁) :
    GivesBack L s s₂ t t₂ (A₁ ++ A₂) where
  taken := by
    intro m hm
    by_cases hm₁ : s.uRefs m = s₁.uRefs m
    · rw [h₁.other m hm₁, h₂.taken m (hm₁ ▸ hm), hm₁]
    · exact h₁.taken m hm₁
  other := by
    intro m hm
    have hlem := hle m
    have hlem₂ := hle₂ m
    rw [h₁.other m (by omega), h₂.other m (by omega)]
  nErr := h₁.nErr.trans h₂.nErr
  inited := h₁.inited.trans h₂.inited
  deinited := by
    rw [h₁.deinited, h₂.deinited, List.filter_append, List.reverse_append, List.append_assoc]

omit [DecidableEq ι] in
theorem Brings.trans (h₁ : Brings L o back₁ s s₁ A₁ []) (h₂ : Brings L o back₂ s₁ s₂ A₂ B₂) :
    Brings L o (fun t => (back₂ t).bind back₁) s s₂ (A₁ ++ A₂) B₂ where
  inited := by
    rw [h₂.inited, h₁.inited]
    simp
  deinited := by
    rw [h₂.deinited, h₁.deinited]
    simp
  le := fun m => (h₁.le m).trans (h₂.le m)
  kept := by
    intro m hm
    have := h₁.le m
    rw [h₂.kept m (by omega), h₁.kept m hm]
  nodup := by
    have hnodup₁ := h₁.nodup
    rw [List.append_nil] at hnodup₁
    rw [List.append_assoc]
    refine List.nodup_append.mpr ⟨hnodup₁, h₂.nodup, ?_⟩
    rintro m hm _ hm₂ rfl
    exact h₁.held m hm (h₂.fresh m hm₂)
  fresh := by
    intro m hm
    rw [List.append_assoc] at hm
    obtain hm | hm := List.mem_append.mp hm
    · exact h₁.fresh m (List.mem_append_left [] hm)
    · have := h₁.le m
      have := h₂.fresh m hm
      omega
  held := by
    intro m hm
    obtain hm | hm := List.mem_append.mp hm
    · have := h₂.le m
      have := h₁.held m hm
      omega
    · exact h₂.held m hm
  known := by
    intro m hm hm₂
    by_cases hm₁ : s₁.uRefs m = 0
    · exact h₂.known m hm₁ hm₂
    · rw [h₂.kept m hm₁]
      exact h₁.known m hm hm₁
  ordered := fun h => h₂.ordered (h₁.ordered h)
  undo := by
    intro t ht
    have hlike₂ : Like s₁ s₂ t := by
      intro m hm
      have := h₁.le m
      have := h₂.le m
      exact ht m (by omega)
    obtain ⟨t₁, ht₁, hback₂⟩ := h₂.undo t hlike₂
    obtain ⟨t₂, ht₂, hback₁⟩ := h₁.undo t₁ (.first h₁.le h₂.le h₂.kept ht hback₂)
    exact ⟨t₂, by rw [ht₁, Option.bind_some, ht₂], hback₂.trans h₁.le h₂.le hback₁⟩

end Undo

/-! ### Initialisations -/

/-- What is known before `pl_lib_init` of `n`: a library that was never initialised has an error, and the
`nErr` of what `n` needs is right where references are held. -/
structure Ready (L : Libs ι) (o : Outcome ι) (n : ι) (s : State ι) : Prop where
  ordered : ∀ m, s.nErr m = 0 → L.Ordered m
  known : ∀ m, Relation.ReflTransGen L.Needs n m → s.uRefs m ≠ 0 → (s.nErr m = 0 ↔ Works L o m)

/-- What `pl_lib_init` does. -/
structure Inits [Fintype ι] (L : Libs ι) (o : Outcome ι) (back : State ι → Option (State ι)) (n : ι)
    (s s' : State ι) (e : ℤ) (A B : List ι) : Prop extends Brings L o back s s' A B where
  works : e = 0 ↔ Works L o n
  done : e = 0 → B = []
  touched : ∀ m, s.uRefs m ≠ s'.uRefs m → Relation.ReflTransGen L.Needs n m
  room : L.room s' ≤ L.room s + 1

/-- What initialising a list does. -/
structure InitsAll [Fintype ι] (L : Libs ι) (o : Outcome ι) (back : State ι → Option (State ι))
    (ns : List ι) (s s' : State ι) (taken : List ι) (e : ℤ) (A B : List ι) : Prop
    extends Brings L o back s s' A B where
  works : e = 0 ↔ ∀ n ∈ ns, Works L o n
  done : e = 0 → B = []
  isPrefix : taken <+: ns
  complete : taken = ns ↔ ∀ n ∈ ns.dropLast, Works L o n
  touched : ∀ m, s.uRefs m ≠ s'.uRefs m → ∃ n ∈ ns, Relation.ReflTransGen L.Needs n m
  room : L.room s' ≤ L.room s + taken.length

section Initialisations

variable [Fintype ι] {L : Libs ι} {o : Outcome ι} {n : ι} {ns : List ι} {s s₁ s' : State ι} {e : ℤ}
  {A B : List ι} {fuel : ℕ}

omit [DecidableEq ι] in
theorem Ready.next {back : State ι → Option (State ι)} {m : ι} (h : Ready L o m s)
    (hinit : Inits L o back n s s' e A B) : Ready L o m s' where
  ordered := hinit.ordered h.ordered
  known := by
    intro d hd hrefs
    by_cases hs : s.uRefs d = 0
    · exact hinit.known d hs hrefs
    · rw [hinit.kept d hs]
      exact h.known d hd hs

omit [DecidableEq ι] in
/-- The list is initialised if its libraries are. -/
theorem initAll_inits {init : ι → State ι → Option (State ι × ℤ)}
    {deinit : ι → State ι → Option (State ι)}
    (hinit : ∀ n s, Ready L o n s → L.room s + 1 < 2 ^ 32 → unheld s < fuel →
      ∃ s' e A B, init n s = some (s', e) ∧ Inits L o (deinit n) n s s' e A B)
    (hready : ∀ n ∈ ns, Ready L o n s) (hroom : L.room s + ns.length < 2 ^ 32)
    (hfuel : unheld s < fuel) :
    ∃ s' taken e A B, initAll init ns s = some (s', taken, e) ∧
      InitsAll L o (deinitAll deinit taken.reverse) ns s s' taken e A B := by
  induction ns generalizing s with
  | nil =>
      refine ⟨s, [], 0, [], [], rfl, { Brings.refl L o s with
        works := by simp
        done := fun _ => rfl
        isPrefix := List.prefix_rfl
        complete := by simp
        touched := fun _ hm => absurd rfl hm
        room := Nat.le_add_right _ _ }⟩
  | cons n ns ih =>
      rw [List.length_cons] at hroom
      obtain ⟨hn, hns⟩ := List.forall_mem_cons.mp hready
      obtain ⟨s₁, e, A₁, B₁, h₁, hinits⟩ := hinit n s hn (by omega) hfuel
      by_cases he : e = 0
      · obtain rfl := hinits.done he
        have hworks := hinits.works.mp he
        have hroom₁ := hinits.room
        obtain ⟨s₂, taken, e₂, A₂, B₂, h₂, hall⟩ := ih (fun m hm => (hns m hm).next hinits) (by omega)
          ((unheld_le hinits.le).trans_lt hfuel)
        refine ⟨s₂, n :: taken, e₂, A₁ ++ A₂, B₂, by simp [initAll, h₁, he, h₂], ?_⟩
        have hroom₂ := hall.room
        have hback : (fun t => (deinitAll deinit taken.reverse t).bind (deinit n)) =
            deinitAll deinit (n :: taken).reverse := by
          funext t
          rw [List.reverse_cons, deinitAll_append]
          congr 1
          funext u
          simp [deinitAll]
        refine { hback ▸ hinits.toBrings.trans hall.toBrings with
          works := ?_, done := hall.done, isPrefix := ?_, complete := ?_, touched := ?_, room := ?_ }
        · rw [hall.works, List.forall_mem_cons]
          exact (and_iff_right hworks).symm
        · exact List.cons_prefix_cons.mpr ⟨rfl, hall.isPrefix⟩
        · rw [List.cons_inj_right, hall.complete]
          cases ns with
          | nil => simp
          | cons m ns => simp [hworks]
        · intro m hm
          by_cases hm₁ : s.uRefs m = s₁.uRefs m
          · obtain ⟨d, hd, hneeds⟩ := hall.touched m (hm₁ ▸ hm)
            exact ⟨d, List.mem_cons_of_mem n hd, hneeds⟩
          · exact ⟨n, List.mem_cons_self, hinits.touched m hm₁⟩
        · rw [List.length_cons]
          omega
      · have hworks : ¬ Works L o n := fun h => he (hinits.works.mpr h)
        refine ⟨s₁, [n], e, A₁, B₁, by simp [initAll, h₁, he], ?_⟩
        have hback : deinitAll deinit [n].reverse = deinit n := by
          funext t
          simp [deinitAll]
        refine { hback ▸ hinits.toBrings with
          works := ?_, done := hinits.done, isPrefix := ?_, complete := ?_, touched := ?_
          room := hinits.room }
        · exact ⟨fun h => absurd h he, fun h => absurd (h n List.mem_cons_self) hworks⟩
        · exact List.cons_prefix_cons.mpr ⟨rfl, List.nil_prefix⟩
        · cases ns with
          | nil => simp
          | cons m ns => simp [hworks]
        · exact fun m hm => ⟨n, List.mem_cons_self, hinits.touched m hm⟩

/-- A library with references only gets one more. -/
theorem inits_held (hrefs : s.uRefs n ≠ 0) (hready : Ready L o n s) (hroom : L.room s + 1 < 2 ^ 32) :
    Inits L o (plLibDeinit L (fuel + 1) n) n s (s.setRefs n (s.uRefs n + 1)) (s.nErr n) [] [] where
  inited := (List.append_nil _).symm
  deinited := (List.append_nil _).symm
  le := by
    intro m
    rcases eq_or_ne m n with rfl | hm
    · simp
    · rw [State.setRefs_uRefs_of_ne hm]
  kept := fun _ _ => rfl
  nodup := List.nodup_nil
  fresh := nofun
  held := nofun
  known := by
    intro m hm hm'
    rcases eq_or_ne m n with rfl | hne
    · exact absurd hm hrefs
    · rw [State.setRefs_uRefs_of_ne hne] at hm'
      exact absurd hm hm'
  ordered := fun h => h
  undo := by
    intro t ht
    have hn := (ht n (by simp)).1
    rw [State.setRefs_uRefs_self] at hn
    have hle := uRefs_le_room L s n
    have hsub : subU32 (t.uRefs n) 1 = s.uRefs n := by
      rw [hn, subU32_of_le (by omega) (by omega)]
      omega
    refine ⟨t.setRefs n (s.uRefs n), ?_, ?_, ?_, rfl, rfl, (List.append_nil _).symm⟩
    · rw [plLibDeinit, if_neg (by omega), hsub]
    · intro m hm
      rcases eq_or_ne m n with rfl | hne
      · exact State.setRefs_uRefs_self _ _ _
      · exact absurd (State.setRefs_uRefs_of_ne hne _ _).symm hm
    · intro m hm
      rcases eq_or_ne m n with rfl | hne
      · simp at hm
      · exact State.setRefs_uRefs_of_ne hne _ _
  works := hready.known n .refl hrefs
  done := fun _ => rfl
  touched := by
    intro m hm
    rcases eq_or_ne m n with rfl | hne
    · exact .refl
    · exact absurd (State.setRefs_uRefs_of_ne hne _ _).symm hm
  room := (room_setRefs_next hrefs).le

omit [Fintype ι] in
/-- The dependencies are initialised after the count of the library was taken. -/
theorem Ready.dependency (h : Ready L o n s) (hrefs : s.uRefs n = 0) {d : ι} (hd : d ∈ L.deps n) :
    Ready L o d (s.setRefs n 1) where
  ordered := h.ordered
  known := by
    intro m hm hm'
    rcases eq_or_ne m n with rfl | hne
    · have hcycle : ¬ L.Ordered m := fun hordered => hordered.not_transGen (.head' hd hm)
      exact ⟨fun hzero => absurd (h.ordered m hzero) hcycle, fun hworks => absurd hworks.ordered hcycle⟩
    · rw [State.setRefs_uRefs_of_ne hne] at hm'
      exact h.known m (.head hd hm) hm'

omit [Fintype ι] in
/-- What is initialised while the count of a library is one is another library. -/
theorem Brings.fresh_of_setRefs {back : State ι → Option (State ι)}
    (h : Brings L o back (s.setRefs n 1) s₁ A B) {m : ι} (hm : m ∈ A ++ B) : m ≠ n ∧ s.uRefs m = 0 := by
  have hfresh := h.fresh m hm
  have hne : m ≠ n := by
    rintro rfl
    simp at hfresh
  rw [State.setRefs_uRefs_of_ne hne] at hfresh
  exact ⟨hne, hfresh⟩

/-- The library fails and its dependencies were given back. -/
theorem inits_fails {back : State ι → Option (State ι)} (hrefs : s.uRefs n = 0)
    (h : Brings L o back (s.setRefs n 1) s₁ A B) (hback : GivesBack L (s.setRefs n 1) s₁ s₁ s' A)
    (he : e ≠ 0) (hworks : ¬ Works L o n) :
    Inits L o (plLibDeinit L (fuel + 1) n) n s (s'.setErr n e) e [] (A ++ B) := by
  have hcounts : ∀ m, (s'.setErr n e).uRefs m = (s.setRefs n 1).uRefs m := by
    intro m
    by_cases hm : (s.setRefs n 1).uRefs m = s₁.uRefs m
    · exact (hback.other m hm).trans hm.symm
    · exact hback.taken m hm
  have hother : ∀ m, m ≠ n → (s'.setErr n e).uRefs m = s.uRefs m :=
    fun m hm => (hcounts m).trans (State.setRefs_uRefs_of_ne hm _ _)
  have hself : (s'.setErr n e).uRefs n = 1 := (hcounts n).trans (State.setRefs_uRefs_self _ _ _)
  have hnErr : ∀ m, m ≠ n → (s'.setErr n e).nErr m = s₁.nErr m := by
    intro m hm
    rw [State.setErr_nErr_of_ne hm, hback.nErr]
  have hinited : (s'.setErr n e).inited = s₁.inited := (if_neg he).trans hback.inited
  constructor
  case toBrings =>
    constructor
    case inited => rw [hinited, h.inited]; rfl
    case deinited =>
      refine hback.deinited.trans ?_
      rw [h.deinited, List.filter_append, List.reverse_append, List.append_assoc]
      rfl
    case le =>
      intro m
      rcases eq_or_ne m n with rfl | hm
      · omega
      · exact (hother m hm).ge
    case kept =>
      intro m hm
      have hne : m ≠ n := by
        rintro rfl
        exact hm hrefs
      rw [hnErr m hne, h.kept m (by rwa [State.setRefs_uRefs_of_ne hne])]
      rfl
    case nodup => exact h.nodup
    case fresh => exact fun m hm => (h.fresh_of_setRefs hm).2
    case held => nofun
    case known =>
      intro m hm hm'
      rcases eq_or_ne m n with rfl | hne
      · rw [State.setErr_nErr_self]
        exact ⟨fun h => absurd h he, fun h => absurd h hworks⟩
      · exact absurd ((hother m hne).trans hm) hm'
    case ordered =>
      intro hordered m hm
      rcases eq_or_ne m n with rfl | hne
      · rw [State.setErr_nErr_self] at hm
        exact absurd hm he
      · rw [hnErr m hne] at hm
        exact h.ordered hordered m hm
    case undo =>
      intro t ht
      obtain ⟨htn, hterr⟩ := ht n (by omega)
      rw [hself] at htn
      rw [State.setErr_nErr_self] at hterr
      refine ⟨t.setRefs n 0, ?_, ?_, ?_, rfl, rfl, (List.append_nil _).symm⟩
      · rw [plLibDeinit, if_neg (fun hlast => he (hterr ▸ hlast.2.2)), htn]
        rfl
      · intro m hm
        rcases eq_or_ne m n with rfl | hne
        · rw [State.setRefs_uRefs_self, hrefs]
        · exact absurd (hother m hne).symm hm
      · intro m hm
        rcases eq_or_ne m n with rfl | hne
        · omega
        · exact State.setRefs_uRefs_of_ne hne _ _
  case works => exact ⟨fun h => absurd h he, fun h => absurd h hworks⟩
  case done => exact fun h => absurd h he
  case touched =>
    intro m hm
    rcases eq_or_ne m n with rfl | hne
    · exact .refl
    · exact absurd (hother m hne).symm hm
  case room =>
    have hroom := room_setRefs_first (L := L) hrefs
    have hcongr : L.room (s'.setErr n e) = L.room (s.setRefs n 1) := by
      simp only [Libs.room, hcounts]
    omega

omit [Fintype ι] in
/-- The library goes back to no reference and then its dependencies are given back. -/
theorem GivesBack.library {t t' u : State ι} (h : GivesBack L (s.setRefs n 1) s₁ u t' A)
    (hrefs : s.uRefs n = 0) (hone : s₁.uRefs n = 1) (huRefs : u.uRefs = Function.update t.uRefs n 0)
    (hnErr : u.nErr = t.nErr) (hinited : u.inited = t.inited)
    (hdeinited : u.deinited = t.deinited ++ [n].filter L.hasDeinit) :
    GivesBack L s (s₁.setErr n 0) t t' (A ++ [n]) where
  taken := by
    intro m hm
    rcases eq_or_ne m n with rfl | hne
    · rw [h.other m (by rw [State.setRefs_uRefs_self, hone]), huRefs, Function.update_self, hrefs]
    · have hback := h.taken m
      rw [State.setRefs_uRefs_of_ne hne] at hback
      exact hback hm
  other := by
    intro m hm
    have hne : m ≠ n := by
      rintro rfl
      exact zero_ne_one (hrefs.symm.trans (hm.trans hone))
    rw [h.other m ((State.setRefs_uRefs_of_ne hne _ _).trans hm), huRefs, Function.update_of_ne hne]
  nErr := h.nErr.trans hnErr
  inited := h.inited.trans hinited
  deinited := by
    have hsingle : ([n].filter L.hasDeinit).reverse = [n].filter L.hasDeinit := by
      cases hn : L.hasDeinit n <;> simp [hn]
    rw [h.deinited, hdeinited, List.filter_append, List.reverse_append, hsingle, List.append_assoc]

omit [Fintype ι] in
/-- `pl_lib_deinit` of a library that was initialised with all its dependencies. -/
theorem undo_works {t : State ι} (hrefs : s.uRefs n = 0) (hone : s₁.uRefs n = 1)
    (h : Brings L o (deinitAll (plLibDeinit L fuel) (L.deps n).reverse) (s.setRefs n 1) s₁ A [])
    (ht : Like s (s₁.setErr n 0) t) :
    ∃ t', plLibDeinit L (fuel + 1) n t = some t' ∧ GivesBack L s (s₁.setErr n 0) t t' (A ++ [n]) := by
  obtain ⟨htn, hterr⟩ := ht n (by rw [hrefs]; exact hone.symm ▸ zero_ne_one)
  have htn : t.uRefs n = 1 := htn.trans hone
  rw [State.setErr_nErr_self] at hterr
  have hlike : ∀ u : State ι, u.uRefs = Function.update t.uRefs n 0 → u.nErr = t.nErr →
      Like (s.setRefs n 1) s₁ u := by
    intro u huRefs hnErr m hm
    have hne : m ≠ n := by
      rintro rfl
      rw [State.setRefs_uRefs_self, hone] at hm
      exact hm rfl
    rw [State.setRefs_uRefs_of_ne hne] at hm
    obtain ⟨hcount, herr⟩ := ht m hm
    rw [huRefs, hnErr, Function.update_of_ne hne, hcount, herr, State.setErr_nErr_of_ne hne]
    exact ⟨rfl, rfl⟩
  rw [plLibDeinit, htn]
  cases hdeinit : L.hasDeinit n with
  | true =>
      obtain ⟨t', ht', hback⟩ := h.undo ((t.setRefs n 0).callDeinit n) (hlike _ rfl rfl)
      refine ⟨t', ?_, hback.library hrefs hone rfl rfl rfl ?_⟩
      · rw [if_pos ⟨rfl, rfl, hterr⟩]
        exact ht'
      · rw [List.filter_cons_of_pos hdeinit]
        rfl
  | false =>
      obtain ⟨t', ht', hback⟩ := h.undo (t.setRefs n 0) (hlike _ rfl rfl)
      refine ⟨t', ?_, hback.library hrefs hone rfl rfl rfl ?_⟩
      · rw [if_neg (by simp)]
        rw [L.deps_of_hasDeinit hdeinit] at ht'
        exact ht'
      · rw [List.filter_cons_of_neg (by simp [hdeinit])]
        exact (List.append_nil _).symm

/-- The library and all its dependencies are initialised. -/
theorem inits_works (hrefs : s.uRefs n = 0) (herr : L.hasInit n = true → o.err n = 0)
    (h : InitsAll L o (deinitAll (plLibDeinit L fuel) (L.deps n).reverse) (L.deps n)
      (s.setRefs n 1) s₁ (L.deps n) 0 A B) :
    Inits L o (plLibDeinit L (fuel + 1) n) n s (s₁.setErr n 0) 0 (A ++ [n]) [] := by
  have hworks : Works L o n := .intro n herr (h.works.mp rfl)
  have hB : B = [] := h.done rfl
  subst hB
  have huntouched : s₁.uRefs n = 1 := by
    by_contra hne
    obtain ⟨d, hd, hback⟩ := h.touched n (by rw [State.setRefs_uRefs_self]; exact Ne.symm hne)
    exact hworks.ordered.not_transGen (.head' hd hback)
  have hchanged : ∀ m, m ≠ n → (s.setRefs n 1).uRefs m = s.uRefs m :=
    fun m hm => State.setRefs_uRefs_of_ne hm _ _
  constructor
  case toBrings =>
    constructor
    case inited =>
      have : s₁.inited = s.inited ++ (A ++ []) := h.inited
      simp [State.setErr, this]
    case deinited => exact h.deinited
    case le =>
      intro m
      refine le_trans ?_ (h.le m)
      rcases eq_or_ne m n with rfl | hm
      · omega
      · exact (hchanged m hm).ge
    case kept =>
      intro m hm
      have hne : m ≠ n := by
        rintro rfl
        exact hm hrefs
      rw [State.setErr_nErr_of_ne hne, h.kept m (by rwa [hchanged m hne])]
      rfl
    case nodup =>
      have hnodup := h.nodup
      rw [List.append_nil] at hnodup ⊢
      refine List.nodup_append.mpr ⟨hnodup, List.nodup_singleton n, ?_⟩
      rintro m hm _ hm' rfl
      exact (h.fresh_of_setRefs (List.mem_append_left [] hm)).1 (List.mem_singleton.mp hm')
    case fresh =>
      intro m hm
      rw [List.append_nil] at hm
      obtain hm | hm := List.mem_append.mp hm
      · exact (h.fresh_of_setRefs (List.mem_append_left [] hm)).2
      · rw [List.mem_singleton.mp hm, hrefs]
    case held =>
      intro m hm
      obtain hm | hm := List.mem_append.mp hm
      · exact h.held m hm
      · rw [List.mem_singleton.mp hm]
        exact huntouched.trans_ne one_ne_zero
    case known =>
      intro m hm hm'
      rcases eq_or_ne m n with rfl | hne
      · rw [State.setErr_nErr_self]
        exact iff_of_true rfl hworks
      · rw [State.setErr_nErr_of_ne hne]
        exact h.known m ((hchanged m hne).trans hm) hm'
    case ordered =>
      intro hordered m hm
      rcases eq_or_ne m n with rfl | hne
      · exact hworks.ordered
      · rw [State.setErr_nErr_of_ne hne] at hm
        exact h.ordered hordered m hm
    case undo => exact fun t ht => undo_works hrefs huntouched h.toBrings ht
  case works => exact iff_of_true rfl hworks
  case done => exact fun _ => rfl
  case touched =>
    intro m hm
    rcases eq_or_ne m n with rfl | hne
    · exact .refl
    · obtain ⟨d, hd, hneeds⟩ := h.touched m ((hchanged m hne).trans_ne hm)
      exact .head hd hneeds
  case room =>
    have hroom := room_setRefs_first (L := L) hrefs
    exact (h.room.trans hroom.le)

/-- The init function of a library without references. -/
theorem callInit_inits (hrefs : s.uRefs n = 0)
    (hall : ∀ ds, ds ⊆ L.deps n → ds.length ≤ (L.deps n).length → ∃ s₁ taken e A B,
      initAll (plLibInit L o fuel) ds (s.setRefs n 1) = some (s₁, taken, e) ∧
        InitsAll L o (deinitAll (plLibDeinit L fuel) taken.reverse) ds (s.setRefs n 1) s₁ taken
          e A B) :
    ∃ t e A B, callInit L o (plLibInit L o fuel) (plLibDeinit L fuel) n (s.setRefs n 1) = some (t, e) ∧
      Inits L o (plLibDeinit L (fuel + 1) n) n s (t.setErr n e) e A B := by
  cases hinit : L.hasInit n with
  | false =>
      have hdeps : L.deps n = [] := L.deps_of_hasInit hinit
      obtain ⟨s₁, taken, e, A, B, h, hinits⟩ := hall (L.deps n) (List.Subset.refl _) le_rfl
      obtain ⟨rfl, rfl, rfl⟩ : s.setRefs n 1 = s₁ ∧ [] = taken ∧ 0 = e := by
        simpa [hdeps, initAll] using h
      refine ⟨_, 0, A ++ [n], [], by rw [callInit, if_neg (by simp [hinit])], ?_⟩
      refine inits_works (B := B) hrefs (fun h => absurd h (by simp [hinit])) ?_
      rw [hdeps] at hinits ⊢
      exact hinits
  | true =>
      have hwanted : L.wanted o n ⊆ L.deps n ∧ (L.wanted o n).length ≤ (L.deps n).length := by
        rw [Libs.wanted]
        split
        · exact ⟨List.Subset.refl _, le_rfl⟩
        · exact ⟨List.take_subset _ _, List.length_take_le' _ _⟩
      obtain ⟨s₁, taken, e, A, B, h, hinits⟩ := hall _ hwanted.1 hwanted.2
      obtain ⟨t, ht, hback⟩ := hinits.undo s₁ (.refl _ _)
      by_cases he : e = 0
      · by_cases herr : o.err n = 0
        · rw [he] at h hinits
          have hdeps : L.wanted o n = L.deps n := if_pos herr
          have htaken : taken = L.deps n := hdeps ▸ hinits.complete.mpr
            fun d hd => hinits.works.mp rfl d (List.mem_of_mem_dropLast hd)
          rw [hdeps, htaken] at hinits
          exact ⟨s₁, 0, A ++ [n], [], by simp [callInit, hinit, h, herr],
            inits_works hrefs (fun _ => herr) hinits⟩
        · have hworks : ¬ Works L o n := fun hworks => herr ((works_iff.mp hworks).1 hinit)
          exact ⟨t, o.err n, [], A ++ B, by simp [callInit, hinit, h, he, herr, ht],
            inits_fails hrefs hinits.toBrings hback herr hworks⟩
      · have hworks : ¬ Works L o n := fun hworks => he (hinits.works.mpr
          fun d hd => (works_iff.mp hworks).2 d (hwanted.1 hd))
        exact ⟨t, e, [], A ++ B, by simp [callInit, hinit, h, he, ht],
          inits_fails hrefs hinits.toBrings hback he hworks⟩

/-- `pl_lib_init` returns and does what it should. -/
theorem plLibInit_inits (hready : Ready L o n s) (hroom : L.room s + 1 < 2 ^ 32)
    (hfuel : unheld s < fuel) : ∃ s' e A B, plLibInit L o fuel n s = some (s', e) ∧
      Inits L o (plLibDeinit L fuel n) n s s' e A B := by
  induction fuel generalizing n s with
  | zero => exact absurd hfuel (Nat.not_lt_zero _)
  | succ fuel ih =>
      by_cases hrefs : s.uRefs n = 0
      · have hroom₁ := room_setRefs_first (L := L) hrefs
        have hfuel₁ : unheld (s.setRefs n 1) < fuel :=
          Nat.lt_of_lt_of_le (unheld_setRefs_lt hrefs) (Nat.lt_succ_iff.mp hfuel)
        have hone : addU32 (s.uRefs n) 1 = 1 := by rw [hrefs]; rfl
        obtain ⟨t, e, A, B, h, hinits⟩ := callInit_inits hrefs fun ds hsub hlength =>
          initAll_inits (fun _ _ => ih) (fun d hd => hready.dependency hrefs (hsub hd)) (by omega)
            hfuel₁
        refine ⟨t.setErr n e, e, A, B, ?_, hinits⟩
        rw [plLibInit, if_pos hrefs, hone, h]
        rfl
      · have hle := uRefs_le_room L s n
        refine ⟨s.setRefs n (s.uRefs n + 1), s.nErr n, [], [], ?_, inits_held hrefs hready hroom⟩
        rw [plLibInit, if_neg hrefs, addU32_of_lt (by omega)]

end Initialisations

/-! ### Cycles -/

/-- No library is referenced, and none on a cycle of dependencies was ever initialised. -/
structure Clean (L : Libs ι) (s : State ι) : Prop where
  uRefs : ∀ n, s.uRefs n = 0
  ordered : ∀ n, s.nErr n = 0 → L.Ordered n

section Cycles

variable [Fintype ι] {L : Libs ι} {lst : List ι} {s s' : State ι} {o : Outcome ι}

omit [DecidableEq ι] in
theorem Paired.balance_eq (h : Paired L s) : balance L s = 0 := by
  simp [balance, h.uRefs, h.reversed, L.weight_filter_reverse]

omit [DecidableEq ι] [Fintype ι] in
theorem clean_init (L : Libs ι) : Clean L (init : State ι) where
  uRefs := fun _ => rfl
  ordered := fun _ h => absurd h (show ¬ (-1 : ℤ) = 0 by decide)

/-- `pl_deinit` after `pl_init` returns, and it undoes it if and only if no library but the last fails. -/
theorem Clean.cycle (h : Clean L s) (hroom : lst.length + ∑ n, (L.deps n).length < 2 ^ 31)
    (o : Outcome ι) :
    ∃ s', cycle L lst s o = some s' ∧ (Paired L s' ↔ ∀ n ∈ lst.dropLast, Works L o n) ∧
      (Paired L s' → Clean L s') := by
  have hready : ∀ n ∈ lst, Ready L o n { s with inited := [], deinited := [] } :=
    fun n _ => ⟨h.ordered, fun m _ hm => absurd (h.uRefs m) hm⟩
  have hroom₀ : L.room { s with inited := [], deinited := [] } = ∑ n, (L.deps n).length := by
    simp [Libs.room, h.uRefs]
  obtain ⟨s₁, taken, e, A, B, hinit, hall⟩ := initAll_inits (fun _ _ => plLibInit_inits) hready
    (by omega) (Nat.lt_succ_of_le (Finset.card_le_univ _))
  have hordered := hall.ordered h.ordered
  obtain ⟨s₂, hdeinit⟩ : ∃ s₂, plDeinitLst L (Fintype.card ι + 1) lst s₁ = some s₂ := by
    refine deinitAll_returns (P := fun t => ∀ m, t.nErr m = 0 → L.Ordered m) ?_ ?_ hordered
    · intro n t u ht hu
      rw [(plLibDeinit_nErr hu).1]
      exact ht
    · exact fun n _ t ht => plLibDeinit_returns ∅ nofun (by simp) ht
  have hcycle : PlatformLibs.cycle L lst s o = some s₂ := by
    rw [PlatformLibs.cycle, plInitLst, hinit, Option.bind_some, hdeinit]
  refine ⟨s₂, hcycle, ?_, fun hpaired => ⟨hpaired.uRefs, ?_⟩⟩
  · rw [← hall.complete]
    constructor
    · intro hpaired
      have hup := (initAll_balance (fun _ _ _ => plLibInit_balance) hinit).1
      have hdown := deinitAll_balance (fun _ _ _ => plLibDeinit_balance) hdeinit
      have hstart : balance L { s with inited := [], deinited := [] } = 0 := by
        simp [balance, h.uRefs, Libs.weight]
      have hlength := hall.isPrefix.length_le
      rw [hpaired.balance_eq, List.length_reverse] at hdown
      simp only [Int.ModEq] at hup hdown
      exact hall.isPrefix.eq_of_length (by omega)
    · rintro rfl
      obtain ⟨t, ht, hback⟩ := hall.undo s₁ (.refl _ _)
      obtain rfl := Option.some.inj (ht.symm.trans hdeinit)
      refine ⟨fun n => ?_, ?_, ?_⟩
      · by_cases hn : s.uRefs n = s₁.uRefs n
        · rw [hback.other n hn, ← hn, h.uRefs n]
        · rw [hback.taken n hn]
          exact h.uRefs n
      · rw [hback.inited, hall.inited]
        exact hall.nodup
      · rw [hback.deinited, hback.inited, hall.deinited, hall.inited]
        simp
  · have hnErr : s₂.nErr = s₁.nErr := by
      refine deinitAll_invariant (P := fun t => t.nErr = s₁.nErr) ?_ rfl hdeinit
      intro n t u ht hu
      rw [(plLibDeinit_nErr hu).1, ht]
    rw [hnErr]
    exact hordered

end Cycles

/-- `pl_list` is `gpls` (0) and `listener_android` (1), which initialises `mod_table` (2) and `apps_std` (3). -/
def plLibs : Libs (Fin 4) where
  hasInit := fun _ => true
  hasDeinit := fun _ => true
  deps := fun n => if n = 1 then [2, 3] else []
  paired := fun _ _ => ⟨rfl, rfl⟩

/-- `gpls_init` fails, or nothing. -/
def outcome (gpls : ℤ) : Outcome (Fin 4) := ⟨fun n => if n = 0 then gpls else 0, fun _ => 0⟩

end FastRpc.PlatformLibs
