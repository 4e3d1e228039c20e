import FastRpc.Traced
import Mathlib.Data.Int.Notation
import Mathlib.Data.List.Nodup

/-! # Queues over several domains

`dspqueue_multidomain_create` allocates a queue object, a mutex and three arrays, and creates one queue on
each domain of a context.  Whatever fails, it hands the object as it is at that moment to
`dspqueue_multidomain_close`.  The trace of a call keeps what it allocates and frees, and the domain queues
that it creates and closes.

The number of domains is set before the arrays are allocated, and the close looks for that many entries in
`mdq->queues`: if the array is not there yet, it reads through a `NULL` pointer. -/

namespace FastRpc.MultidomainQueue

open Traced

/-! ### Data -/

def aeeENoMemory : ℤ := 0x2

def aeeEBadParm : ℤ := 0xE

def aeeENotInitialized : ℤ := 0x6B

def aeeEInvalidItem : ℤ := 0x2A

/-- What is allocated for a queue over several domains. -/
inductive Block
  | object
  | effecDomainIds
  | queues
  | dspIds
  deriving DecidableEq, Repr

/-- What a call does; `create k` and `close k` are those of the queue of the `k`-th domain. -/
inductive Event
  | alloc (b : Block)
  | free (b : Block)
  | mutexInit
  | mutexLock
  | mutexUnlock
  | mutexDestroy
  | create (k : ℕ)
  | close (k : ℕ)
  deriving DecidableEq, Repr

/-- An access through a `NULL` pointer. -/
inductive Fault
  | nullDereference
  deriving DecidableEq, Repr

/-- `struct dspqueue_multidomain` in its queue object.  The arrays are `NULL` or allocated; an entry of
`queues` is `NULL` or the queue of a domain. -/
structure Mdq where
  isMdq : Bool
  numDomainIds : ℕ
  effecDomainIds : Bool
  queues : Option (List (Option ℕ))
  dspIds : Bool
  deriving DecidableEq, Repr

/-- The object after `calloc` and the assignment of `is_mdq`. -/
def Mdq.new : Mdq := ⟨true, 0, false, none, false⟩

/-- `dspqueue_create_req`: whether `ids`, `priority` and `flags` are set, and `num_ids`. -/
structure Request where
  ids : Bool
  priority : Bool
  flags : Bool
  numIds : ℕ
  deriving DecidableEq, Repr

/-- The results of the calls: the code of `fastrpc_context_get_domains` and the number of domains, of
`pthread_once` and `pthread_mutex_init`, whether each `calloc` succeeds, and the codes of
`dspqueue_create` and `dspqueue_close` for each domain. -/
structure Answers where
  getDomains : ℤ
  numDomainIds : ℕ
  once : ℤ
  mutexInit : ℤ
  calloc : Block → Bool
  create : ℕ → ℤ
  close : ℕ → ℤ

/-! ### Closing -/

/-- The loop of `dspqueue_multidomain_close`, with its variable `nErr`. -/
def closeLoop (mdq : Mdq) (close : ℕ → ℤ) : List ℕ → ℤ → Traced Event Fault ℤ
  | [], nErr => pure nErr
  | ii :: iis, nErr =>
      match mdq.queues with
      | none => lift (.error .nullDereference)
      | some queues =>
          match queues.getD ii none with
          | none => closeLoop mdq close iis nErr
          | some k => do
              emit (.close k)
              closeLoop mdq close iis (if nErr ≠ 0 then nErr else close k)

/-- The arrays that are freed. -/
def Mdq.arrays (mdq : Mdq) : List Block :=
  (if mdq.effecDomainIds then [.effecDomainIds] else []) ++
    ((if mdq.queues.isSome then [.queues] else []) ++ (if mdq.dspIds then [.dspIds] else []))

/-- `dspqueue_multidomain_close`. -/
def dspqueueMultidomainClose (q : Option Mdq) (queueMut : Bool) (close : ℕ → ℤ) : Traced Event Fault ℤ :=
  match q with
  | none => pure aeeEBadParm
  | some mdq =>
      if mdq.isMdq then do
        (if queueMut then [Event.mutexLock] else []).forM emit
        let nErr ← closeLoop mdq close (List.range mdq.numDomainIds) 0
        (mdq.arrays.map Event.free).forM emit
        (if queueMut then [Event.mutexUnlock, Event.mutexDestroy] else []).forM emit
        emit (.free .object)
        return nErr
      else pure aeeEInvalidItem

/-! ### Creating -/

/-- A `dspqueue_multidomain_create` at `bail`. -/
structure Built where
  nErr : ℤ
  q : Option Mdq
  queueMut : Bool
  deriving DecidableEq, Repr

/-- The loop of `dspqueue_multidomain_create`.  `dspqueue_export` of a queue on one domain does not fail. -/
def createLoop (create : ℕ → ℤ) : Mdq → List ℕ → Traced Event Fault Built
  | mdq, [] => pure ⟨0, some mdq, true⟩
  | mdq, k :: ks =>
      if create k ≠ 0 then pure ⟨create k, some mdq, true⟩
      else do
        emit (.create k)
        createLoop create { mdq with queues := mdq.queues.map (fun queues => queues.set k (some k)) } ks

/-- From the first array on. -/
def createArrays (a : Answers) : Traced Event Fault Built :=
  let mdq := { Mdq.new with numDomainIds := a.numDomainIds }
  if !a.calloc .effecDomainIds then pure ⟨aeeENoMemory, some mdq, true⟩
  else do
    emit (.alloc .effecDomainIds)
    let mdq := { mdq with effecDomainIds := true }
    if !a.calloc .queues then pure ⟨aeeENoMemory, some mdq, true⟩
    else do
      emit (.alloc .queues)
      let mdq := { mdq with queues := some (List.replicate a.numDomainIds none) }
      if !a.calloc .dspIds then pure ⟨aeeENoMemory, some mdq, true⟩
      else do
        emit (.alloc .dspIds)
        createLoop a.create { mdq with dspIds := true } (List.range a.numDomainIds)

/-- From the queue object on. -/
def createObject (a : Answers) : Traced Event Fault Built :=
  if !a.calloc .object then pure ⟨aeeENoMemory, none, false⟩
  else do
    emit (.alloc .object)
    if a.mutexInit ≠ 0 then pure ⟨aeeENotInitialized, some Mdq.new, false⟩
    else do
      emit .mutexInit
      createArrays a

/-- `dspqueue_multidomain_create` up to `bail`. -/
def multidomainBuild (req : Request) (a : Answers) : Traced Event Fault Built :=
  if a.getDomains ≠ 0 then pure ⟨a.getDomains, none, false⟩
  else if !(req.ids && !req.priority && !req.flags) then pure ⟨aeeEBadParm, none, false⟩
  else if req.numIds < a.numDomainIds then pure ⟨aeeEBadParm, none, false⟩
  else if a.once ≠ 0 then pure ⟨aeeENotInitialized, none, false⟩
  else createObject a

/-- `dspqueue_multidomain_create`: its code, and the queue that the caller gets. -/
def dspqueueMultidomainCreate (req : Request) (a : Answers) : Traced Event Fault (ℤ × Option Mdq) := do
  let b ← multidomainBuild req a
  if b.nErr ≠ 0 then do
    let _ ← dspqueueMultidomainClose b.q b.queueMut a.close
    return (b.nErr, none)
  else return (0, b.q)

/-! ### What a failed create should leave -/

/-- The block that the event allocates. -/
def Event.allocates : Event → Option Block
  | .alloc b => some b
  | _ => none

/-- The block that the event frees. -/
def Event.frees : Event → Option Block
  | .free b => some b
  | _ => none

/-- The domain queue that the event creates. -/
def Event.creates : Event → Option ℕ
  | .create k => some k
  | _ => none

/-- The domain queue that the event closes. -/
def Event.closes : Event → Option ℕ
  | .close k => some k
  | _ => none

/-- Everything that was allocated is freed once, and each queue that was created is closed once. -/
structure Undone (es : List Event) : Prop where
  blocks : (es.filterMap Event.frees).Perm (es.filterMap Event.allocates)
  mutex : es.count .mutexDestroy = es.count .mutexInit
  queues : (es.filterMap Event.closes).Perm (es.filterMap Event.creates)
  once : (es.filterMap Event.creates).Nodup

/-- The call returns an error and no queue, and leaves nothing; in particular it does not read through a
`NULL` pointer. -/
structure AllOrNothing (m : Traced Event Fault (ℤ × Option Mdq)) : Prop where
  fails : ∃ nErr, m.result = .ok (nErr, none) ∧ nErr ≠ 0
  undone : Undone m.trace

/-- A step of the call fails. -/
def Fails (req : Request) (a : Answers) : Prop :=
  ∃ b, (multidomainBuild req a).result = .ok b ∧ b.nErr ≠ 0

/-- The call gets as far as the first array. -/
def ReachesArrays (req : Request) (a : Answers) : Prop :=
  a.getDomains = 0 ∧ (req.ids && !req.priority && !req.flags) = true ∧ a.numDomainIds ≤ req.numIds ∧
    a.once = 0 ∧ a.calloc .object = true ∧ a.mutexInit = 0

/-! ### Closing what there is -/

section Closing

variable {mdq : Mdq} {close : ℕ → ℤ} {queues : List (Option ℕ)}

/-- The first error of a list of codes. -/
def firstError (codes : List ℤ) (nErr : ℤ) : ℤ :=
  codes.foldl (fun nErr err => if nErr ≠ 0 then nErr else err) nErr

theorem firstError_eq_zero (codes : List ℤ) (nErr : ℤ) :
    firstError codes nErr = 0 ↔ nErr = 0 ∧ ∀ err ∈ codes, err = 0 := by
  induction codes generalizing nErr with
  | nil => exact (and_iff_left (fun _ herr => absurd herr List.not_mem_nil)).symm
  | cons err codes ih =>
      have hstep : firstError (err :: codes) nErr = firstError codes (if nErr ≠ 0 then nErr else err) := rfl
      rw [hstep, ih, List.forall_mem_cons]
      by_cases hnErr : nErr = 0
      · rw [if_neg (not_not.mpr hnErr), and_iff_right hnErr]
      · rw [if_pos hnErr]
        exact iff_of_false (fun h => hnErr h.1) (fun h => hnErr h.1)

/-- The queues that the array has at some places. -/
def present (queues : List (Option ℕ)) (iis : List ℕ) : List ℕ := iis.filterMap (fun ii => queues.getD ii none)

theorem present_none {ii : ℕ} (h : queues.getD ii none = none) (iis : List ℕ) :
    present queues (ii :: iis) = present queues iis := List.filterMap_cons_none h

theorem present_some {ii k : ℕ} (h : queues.getD ii none = some k) (iis : List ℕ) :
    present queues (ii :: iis) = k :: present queues iis := List.filterMap_cons_some h

/-- The loop closes the queues that there are. -/
theorem closeLoop_yields (hqueues : mdq.queues = some queues) (iis : List ℕ) (nErr : ℤ) :
    Yields ((present queues iis).map Event.close) (firstError ((present queues iis).map close) nErr)
      (closeLoop mdq close iis nErr) := by
  induction iis generalizing nErr with
  | nil => exact yields_pure nErr
  | cons ii iis ih =>
      unfold closeLoop
      rw [hqueues]
      dsimp only
      cases hii : queues.getD ii none with
      | none =>
          rw [present_none hii]
          exact ih nErr
      | some k =>
          rw [present_some hii]
          exact (ih _).emit

/-- The close of an object whose array of queues is there, or that has no domains yet. -/
theorem close_yields (hmdq : mdq.isMdq = true) (queueMut : Bool)
    (hqueues : mdq.queues = some queues ∨ mdq.queues = none ∧ mdq.numDomainIds = 0 ∧ queues = []) :
    Yields ((if queueMut then [Event.mutexLock] else []) ++
        (((present queues (List.range mdq.numDomainIds)).map Event.close) ++
          ((mdq.arrays.map Event.free) ++
            ((if queueMut then [Event.mutexUnlock, Event.mutexDestroy] else []) ++ [Event.free .object]))))
      (firstError ((present queues (List.range mdq.numDomainIds)).map close) 0)
      (dspqueueMultidomainClose (some mdq) queueMut close) := by
  have hloop : Yields ((present queues (List.range mdq.numDomainIds)).map Event.close)
      (firstError ((present queues (List.range mdq.numDomainIds)).map close) 0)
      (closeLoop mdq close (List.range mdq.numDomainIds) 0) := by
    obtain hqueues | ⟨_, hzero, rfl⟩ := hqueues
    · exact closeLoop_yields hqueues _ 0
    · rw [hzero]
      exact yields_pure 0
  unfold dspqueueMultidomainClose
  dsimp only
  rw [if_pos hmdq]
  exact (yields_emits _).bind (hloop.bind ((yields_emits _).bind ((yields_emits _).bind
    (Yields.emit (yields_pure _)))))

/-- Without the array of queues the first look at it goes wrong. -/
theorem close_nullDereference (hmdq : mdq.isMdq = true) (queueMut : Bool) (hqueues : mdq.queues = none)
    (hpos : mdq.numDomainIds ≠ 0) :
    (dspqueueMultidomainClose (some mdq) queueMut close).result = .error .nullDereference := by
  have hloop : (closeLoop mdq close (List.range mdq.numDomainIds) 0).result = .error .nullDereference := by
    obtain ⟨n, hn⟩ := Nat.exists_eq_succ_of_ne_zero hpos
    rw [hn, List.range_succ_eq_map]
    unfold closeLoop
    rw [hqueues]
    rfl
  unfold dspqueueMultidomainClose
  dsimp only
  rw [if_pos hmdq, (yields_emits _).result_bind, Traced.result_bind, hloop]
  rfl

end Closing

/-! ### The domain queues -/

section Creating

variable {mdq : Mdq} {create : ℕ → ℤ} {queues : List (Option ℕ)} {done rest : List ℕ}

/-- The array after the creation of some queues. -/
def stored (done : List ℕ) (queues : List (Option ℕ)) : List (Option ℕ) :=
  done.foldl (fun queues k => queues.set k (some k)) queues

theorem stored_getD (hdone : ∀ k ∈ done, k < queues.length) (ii : ℕ) :
    (stored done queues).getD ii none = if ii ∈ done then some ii else queues.getD ii none := by
  induction done generalizing queues with
  | nil => rfl
  | cons k done ih =>
      obtain ⟨hk, hdone⟩ := List.forall_mem_cons.mp hdone
      have hrest := @ih (queues.set k (some k)) (by simpa using hdone)
      unfold stored at hrest ⊢
      rw [List.foldl_cons, hrest]
      rcases eq_or_ne ii k with rfl | hne
      · simp [hk]
      · simp [hne, List.getD_eq_getElem?_getD, List.getElem?_set_ne hne.symm]

/-- The queues that were created are those that the close finds. -/
theorem present_stored {n : ℕ} (hrange : List.range n = done ++ rest) :
    present (stored done (List.replicate n none)) (List.range n) = done := by
  have hdone : ∀ k ∈ done, k < (List.replicate n (none : Option ℕ)).length := by
    intro k hk
    rw [List.length_replicate]
    exact List.mem_range.mp (hrange ▸ List.mem_append_left rest hk)
  have hget : ∀ ii, (stored done (List.replicate n none)).getD ii none =
      if ii ∈ done then some ii else none := by
    intro ii
    rw [stored_getD hdone]
    split_ifs
    · rfl
    · rw [List.getD_eq_getElem?_getD, List.getElem?_replicate]
      split_ifs <;> rfl
  have hnodup : (done ++ rest).Nodup := hrange ▸ List.nodup_range
  have hrest : ∀ ii ∈ rest, ii ∉ done := fun ii hr hd => List.disjoint_of_nodup_append hnodup hd hr
  unfold present
  rw [hrange, List.filterMap_append, List.filterMap_congr (fun ii hii => (hget ii).trans (if_pos hii)),
    List.filterMap_congr (fun ii hii => (hget ii).trans (if_neg (hrest ii hii)))]
  simp

/-- The loop creates the first queues, up to all of them. -/
theorem createLoop_yields (hqueues : mdq.queues = some queues) (ks : List ℕ) : ∃ done rest nErr,
    ks = done ++ rest ∧
      Yields (done.map Event.create) ⟨nErr, some { mdq with queues := some (stored done queues) }, true⟩
        (createLoop create mdq ks) := by
  induction ks generalizing mdq queues with
  | nil =>
      refine ⟨[], [], 0, rfl, ?_⟩
      cases mdq
      cases hqueues
      exact yields_pure _
  | cons k ks ih =>
      unfold createLoop
      by_cases hcreate : create k ≠ 0
      · refine ⟨[], k :: ks, create k, rfl, ?_⟩
        rw [if_pos hcreate]
        cases mdq
        cases hqueues
        exact yields_pure _
      · obtain ⟨done, rest, nErr, rfl, hyields⟩ :=
          @ih { mdq with queues := mdq.queues.map (fun queues => queues.set k (some k)) }
            (queues.set k (some k)) (by rw [hqueues]; rfl)
        refine ⟨k :: done, rest, nErr, rfl, ?_⟩
        rw [if_neg hcreate]
        exact hyields.emit

end Creating

/-! ### The call -/

section Calls

variable {req : Request} {a : Answers} {es fs : List Event} {b : Built} {c : ℤ}

/-- A call that fails ends with the close of what it has built. -/
theorem create_yields (hbuild : Yields es b (multidomainBuild req a)) (hfails : b.nErr ≠ 0)
    (hclose : Yields fs c (dspqueueMultidomainClose b.q b.queueMut a.close)) :
    Yields (es ++ fs) (b.nErr, none) (dspqueueMultidomainCreate req a) := by
  unfold dspqueueMultidomainCreate
  refine hbuild.bind ?_
  rw [if_pos hfails]
  have hall := hclose.bind (f := fun _ => (pure (b.nErr, none) : Traced Event Fault (ℤ × Option Mdq)))
    (yields_pure _)
  rwa [List.append_nil] at hall

theorem allOrNothing_of_yields (hbuild : Yields es b (multidomainBuild req a)) (hfails : b.nErr ≠ 0)
    (hclose : Yields fs c (dspqueueMultidomainClose b.q b.queueMut a.close)) (hundone : Undone (es ++ fs)) :
    AllOrNothing (dspqueueMultidomainCreate req a) := by
  have hcreate := create_yields hbuild hfails hclose
  exact ⟨⟨b.nErr, hcreate.result, hfails⟩, by rwa [hcreate.trace]⟩

theorem count_map_eq_zero {α : Type} {f : α → Event} {e : Event} (h : ∀ x, f x ≠ e) (l : List α) :
    (l.map f).count e = 0 := by
  rw [List.count_eq_zero, List.mem_map]
  rintro ⟨x, _, hx⟩
  exact h x hx

/-- The trace of a call that got as far as the arrays. -/
theorem undone_arrays (arrays : List Block) {done : List ℕ} (hdone : done.Nodup) :
    Undone ((.alloc .object :: .mutexInit :: (arrays.map Event.alloc ++ done.map Event.create)) ++
      ([Event.mutexLock] ++ (done.map Event.close ++ (arrays.map Event.free ++
        ([Event.mutexUnlock, .mutexDestroy] ++ [Event.free .object]))))) := by
  constructor
  · simp [List.filterMap_cons, Function.comp_def, Event.frees, Event.allocates]
  · have halloc : ∀ e, e = .mutexInit ∨ e = .mutexDestroy → (arrays.map Event.alloc).count e = 0 :=
      fun e he => count_map_eq_zero (by rintro x rfl; simp at he) arrays
    have hfree : ∀ e, e = .mutexInit ∨ e = .mutexDestroy → (arrays.map Event.free).count e = 0 :=
      fun e he => count_map_eq_zero (by rintro x rfl; simp at he) arrays
    have hcreate : ∀ e, e = .mutexInit ∨ e = .mutexDestroy → (done.map Event.create).count e = 0 :=
      fun e he => count_map_eq_zero (by rintro x rfl; simp at he) done
    have hclose : ∀ e, e = .mutexInit ∨ e = .mutexDestroy → (done.map Event.close).count e = 0 :=
      fun e he => count_map_eq_zero (by rintro x rfl; simp at he) done
    simp [List.count_append, halloc, hfree, hcreate, hclose]
  · simp [List.filterMap_cons, Function.comp_def, Event.closes, Event.creates]
  · simpa [List.filterMap_cons, Function.comp_def, Event.creates] using hdone

/-- The builds that end before the arrays. -/
theorem allOrNothing_before_arrays (hreaches : ¬ ReachesArrays req a) :
    AllOrNothing (dspqueueMultidomainCreate req a) := by
  have hnone : ∀ nErr, nErr ≠ 0 → Yields [] ⟨nErr, none, false⟩ (multidomainBuild req a) →
      AllOrNothing (dspqueueMultidomainCreate req a) := by
    intro nErr hnErr hbuild
    have hclose : Yields [] aeeEBadParm (dspqueueMultidomainClose none false a.close) := yields_pure _
    exact allOrNothing_of_yields hbuild hnErr hclose ⟨.nil, rfl, .nil, .nil⟩
  by_cases hget : a.getDomains ≠ 0
  · refine hnone _ hget ?_
    rw [multidomainBuild, if_pos hget]
    exact yields_pure _
  by_cases hargs : (req.ids && !req.priority && !req.flags) = true
  swap
  · refine hnone aeeEBadParm (by decide) ?_
    rw [multidomainBuild, if_neg hget, if_pos ((Bool.not_eq_true' _).mpr (eq_false_of_ne_true hargs))]
    exact yields_pure _
  by_cases hnum : req.numIds < a.numDomainIds
  · refine hnone aeeEBadParm (by decide) ?_
    rw [multidomainBuild, if_neg hget, if_neg (by simpa using hargs), if_pos hnum]
    exact yields_pure _
  by_cases honce : a.once ≠ 0
  · refine hnone aeeENotInitialized (by decide) ?_
    rw [multidomainBuild, if_neg hget, if_neg (by simpa using hargs), if_neg hnum, if_pos honce]
    exact yields_pure _
  have hbuild : multidomainBuild req a = createObject a := by
    rw [multidomainBuild, if_neg hget, if_neg (by simpa using hargs), if_neg hnum, if_neg honce]
  by_cases hobject : a.calloc .object = true
  swap
  · refine hnone aeeENoMemory (by decide) ?_
    rw [hbuild, createObject, if_pos (by simpa using hobject)]
    exact yields_pure _
  · have hmutex : a.mutexInit ≠ 0 := fun hmutex =>
      hreaches ⟨not_not.mp hget, hargs, Nat.not_lt.mp hnum, not_not.mp honce, hobject, hmutex⟩
    have hyields : Yields [.alloc .object] ⟨aeeENotInitialized, some Mdq.new, false⟩ (multidomainBuild req a) := by
      rw [hbuild, createObject, if_neg (by simpa using hobject), if_pos hmutex]
      exact Yields.emit (f := fun _ => pure _) (yields_pure _)
    have hclose := @close_yields Mdq.new a.close [] rfl false (.inr ⟨rfl, rfl, rfl⟩)
    exact allOrNothing_of_yields hyields (by decide) hclose ⟨.refl _, rfl, .nil, .nil⟩

theorem build_arrays (hreaches : ReachesArrays req a) : multidomainBuild req a =
    (emit (.alloc .object) >>= fun _ => emit .mutexInit >>= fun _ => createArrays a) := by
  obtain ⟨hget, hargs, hnum, honce, hobject, hmutex⟩ := hreaches
  rw [multidomainBuild, if_neg (not_not.mpr hget), if_neg (by simpa using hargs), if_neg (Nat.not_lt.mpr hnum),
    if_neg (not_not.mpr honce), createObject, if_neg (by simpa using hobject), if_neg (not_not.mpr hmutex)]

/-- A call that fails with the array of queues, or for no domains. -/
theorem allOrNothing_arrays (mdq : Mdq) {nErr : ℤ} {queues : List (Option ℕ)} (done : List ℕ)
    (hreaches : ReachesArrays req a)
    (hbuild : Yields (mdq.arrays.map Event.alloc ++ done.map Event.create) ⟨nErr, some mdq, true⟩
      (createArrays a))
    (hnErr : nErr ≠ 0) (hmdq : mdq.isMdq = true)
    (hqueues : mdq.queues = some queues ∨ mdq.queues = none ∧ mdq.numDomainIds = 0 ∧ queues = [])
    (hpresent : present queues (List.range mdq.numDomainIds) = done) (hdone : done.Nodup) :
    AllOrNothing (dspqueueMultidomainCreate req a) := by
  have hclose := @close_yields mdq a.close queues hmdq true hqueues
  rw [hpresent] at hclose
  refine allOrNothing_of_yields (b := ⟨nErr, some mdq, true⟩) ?_ hnErr hclose (undone_arrays mdq.arrays hdone)
  rw [build_arrays hreaches]
  exact hbuild.emit.emit

theorem present_empty (n : ℕ) : present (List.replicate n none) (List.range n) = [] :=
  present_stored (List.nil_append _).symm

theorem aeeENoMemory_ne_zero : aeeENoMemory ≠ 0 := by decide

/-- A call that fails without the array of queues. -/
theorem undone_without_queues (mdq : Mdq) (hreaches : ReachesArrays req a)
    (hbuild : Yields (mdq.arrays.map Event.alloc) ⟨aeeENoMemory, some mdq, true⟩ (createArrays a))
    (hmdq : mdq.isMdq = true) (hqueues : mdq.queues = none) :
    (Fails req a → AllOrNothing (dspqueueMultidomainCreate req a)) ↔ mdq.numDomainIds = 0 := by
  have hall : Yields (.alloc .object :: .mutexInit :: mdq.arrays.map Event.alloc)
      ⟨aeeENoMemory, some mdq, true⟩ (multidomainBuild req a) := by
    rw [build_arrays hreaches]
    exact hbuild.emit.emit
  constructor
  · intro h
    by_contra hpos
    obtain ⟨⟨nErr, hresult, _⟩, _⟩ := h ⟨_, hall.result, aeeENoMemory_ne_zero⟩
    unfold dspqueueMultidomainCreate at hresult
    rw [hall.result_bind, if_pos aeeENoMemory_ne_zero, Traced.result_bind,
      close_nullDereference hmdq true hqueues hpos] at hresult
    cases hresult
  · intro hzero _
    refine allOrNothing_arrays mdq [] hreaches ?_ aeeENoMemory_ne_zero hmdq
      (.inr ⟨hqueues, hzero, rfl⟩) ?_ .nil
    · rwa [List.map_nil, List.append_nil]
    · rw [hzero]
      rfl

/-- **A create that fails is undone exactly when** it does not fail at the first two arrays. -/
theorem create_all_or_nothing (req : Request) (a : Answers) :
    (Fails req a → AllOrNothing (dspqueueMultidomainCreate req a)) ↔
      (ReachesArrays req a → a.numDomainIds = 0 ∨
        a.calloc .effecDomainIds = true ∧ a.calloc .queues = true) := by
  by_cases hreaches : ReachesArrays req a
  swap
  · exact iff_of_true (fun _ => allOrNothing_before_arrays hreaches) (fun h => absurd h hreaches)
  simp only [hreaches, true_imp_iff]
  cases heffec : a.calloc .effecDomainIds with
  | false =>
      have hbuild : Yields [] ⟨aeeENoMemory, some { Mdq.new with numDomainIds := a.numDomainIds }, true⟩
          (createArrays a) := by
        rw [createArrays, heffec]
        exact yields_pure _
      simpa using undone_without_queues { Mdq.new with numDomainIds := a.numDomainIds } hreaches hbuild rfl rfl
  | true =>
      cases hqueues : a.calloc .queues with
      | false =>
          have hbuild : Yields [.alloc .effecDomainIds]
              ⟨aeeENoMemory, some { Mdq.new with numDomainIds := a.numDomainIds, effecDomainIds := true }, true⟩
              (createArrays a) := by
            rw [createArrays, heffec, hqueues]
            exact Yields.emit (f := fun _ => pure _) (yields_pure _)
          simpa using undone_without_queues
            { Mdq.new with numDomainIds := a.numDomainIds, effecDomainIds := true } hreaches hbuild rfl rfl
      | true =>
          refine iff_of_true (fun hfails => ?_) (.inr ⟨rfl, rfl⟩)
          cases hdspIds : a.calloc .dspIds with
          | false =>
              have hbuild : Yields [.alloc .effecDomainIds, .alloc .queues] ⟨aeeENoMemory,
                  some ⟨true, a.numDomainIds, true, some (List.replicate a.numDomainIds none), false⟩, true⟩
                  (createArrays a) := by
                rw [createArrays, heffec, hqueues, hdspIds]
                exact Yields.emit (Yields.emit (f := fun _ => pure _) (yields_pure _))
              exact allOrNothing_arrays
                ⟨true, a.numDomainIds, true, some (List.replicate a.numDomainIds none), false⟩ []
                hreaches hbuild aeeENoMemory_ne_zero rfl (.inl rfl) (present_empty _) .nil
          | true =>
              obtain ⟨done, rest, nErr, hrange, hloop⟩ :=
                @createLoop_yields ⟨true, a.numDomainIds, true, some (List.replicate a.numDomainIds none), true⟩
                  a.create _ rfl (List.range a.numDomainIds)
              have hbuild : Yields ([.alloc .effecDomainIds, .alloc .queues, .alloc .dspIds] ++
                  done.map Event.create)
                  ⟨nErr, some ⟨true, a.numDomainIds, true,
                    some (stored done (List.replicate a.numDomainIds none)), true⟩, true⟩
                  (createArrays a) := by
                rw [createArrays, heffec, hqueues, hdspIds]
                exact hloop.emit.emit.emit
              have hnErr : nErr ≠ 0 := by
                obtain ⟨b, hb, hne⟩ := hfails
                rw [build_arrays hreaches] at hb
                obtain rfl := Except.ok.inj (hbuild.emit.emit.result.symm.trans hb)
                exact hne
              have hnodup : done.Nodup := (hrange ▸ List.nodup_range : (done ++ rest).Nodup).of_append_left
              exact allOrNothing_arrays
                ⟨true, a.numDomainIds, true, some (stored done (List.replicate a.numDomainIds none)), true⟩
                done hreaches hbuild hnErr rfl (.inl rfl) (present_stored hrange) hnodup

/-- A context with two domains, and no memory for the array of queues. -/
def withoutQueues : Answers where
  getDomains := 0
  numDomainIds := 2
  once := 0
  mutexInit := 0
  calloc := fun b => b ≠ .queues
  create := fun _ => 0
  close := fun _ => 0

/-- The cleanup looks for the two queues in the array that is not there. -/
theorem create_reads_null :
    Fails ⟨true, false, false, 2⟩ withoutQueues ∧
      (dspqueueMultidomainCreate ⟨true, false, false, 2⟩ withoutQueues).result = .error .nullDereference ∧
      ¬ AllOrNothing (dspqueueMultidomainCreate ⟨true, false, false, 2⟩ withoutQueues) := by
  refine ⟨⟨_, rfl, aeeENoMemory_ne_zero⟩, rfl, fun h => ?_⟩
  obtain ⟨⟨nErr, hresult, _⟩, _⟩ := h
  cases hresult

end Calls

end FastRpc.MultidomainQueue
