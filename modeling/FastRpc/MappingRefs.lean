import FastRpc.MappingTable
import FastRpc.RefCount

/-! # The reference counts of the static mappings

The count of a mapping is one more than the references that calls of `fastrpc_buffer_ref` hold.
`reference_counts` follows it through every run of calls on one domain whose driver calls succeed, as
long as no count goes beyond an `int`; `failed_munmap_unchanged` says which failures of the driver leave
a mapping as it was. -/

namespace FastRpc.StaticMap

open BlockHeap CInt Transition
open MemList (callStatic)
open RefCount (Change)

/-! ### An unmapping that fails -/

section Failure

variable {s s' : Store} {T : Table} {key : Key} {node : Node}

/-- The answers to some calls. -/
def outcomes : Store → List (Session × Call × Answer) → List Outcome
  | _, [] => []
  | s, (session, c, a) :: calls =>
      (callStatic s session c a).2 :: outcomes (callStatic s session c a).1 calls

/-- The lists and the counts are as before, and later calls do not see a difference. -/
structure Unchanged (s s' : Store) : Prop where
  table : s'.table = s.table
  later : ∀ calls, outcomes s' calls = outcomes s calls

/-- `fastrpc_munmap` or `fastrpc_munmap_internal`. -/
def Call.unmaps : Call → Bool
  | .munmap _ _ _ _ | .munmapInternal _ _ _ => true
  | _ => false

/-- Where the driver fails on a mapping without buffer references, the call leaves the count that it found:
`0` where it reports an unsupported call, and `1` otherwise. -/
def LeavesCount (s : Store) (session : Session) (c : Call) (a : Answer) : Prop :=
  ∀ d key, enter session c = .munmapEnter d key → ∀ node ∈ (s.table d).entry key,
    node.refs ≤ 1 → a.driver.iocErr ≠ 0 → node.refs = if a.driver.munmapUnsupported then 0 else 1

theorem outcomes_of_table (hs : s.Ok) (hs' : s'.Ok) (h : s'.table = s.table)
    (calls : List (Session × Call × Answer)) : outcomes s' calls = outcomes s calls := by
  induction calls generalizing s s' with
  | nil => rfl
  | cons x calls ih =>
      obtain ⟨session, c, a⟩ := x
      obtain ⟨hok, htable, houtcome⟩ := callStatic_table hs session c a
      obtain ⟨hok', htable', houtcome'⟩ := callStatic_table hs' session c a
      rw [h] at htable' houtcome'
      rw [outcomes, outcomes, houtcome'.trans houtcome.symm, ih hok hok' (htable'.trans htable.symm)]

theorem unchanged_iff (hs : s.Ok) (hs' : s'.Ok) : Unchanged s s' ↔ s'.table = s.table :=
  ⟨Unchanged.table, fun h => ⟨h, outcomes_of_table hs hs' h⟩⟩

theorem Table.setRefs_eq_self (hentry : T.entry key = some node) (refs : ℤ) :
    T.setRefs key refs = T ↔ node.refs = refs := by
  induction T with
  | nil => cases hentry
  | cons x T ih =>
      by_cases hfound : key.found x.map = true
      · simp only [Table.entry, List.find?_cons, hfound, Option.some.injEq] at hentry
        subst hentry
        simp only [Table.setRefs, hfound, if_true, List.cons.injEq, and_true]
        constructor
        · intro h
          exact (congrArg Node.refs h).symm
        · rintro rfl
          rfl
      · simp only [Table.entry, List.find?_cons, hfound] at hentry
        simp only [Table.setRefs, hfound, if_false, List.cons.injEq, true_and, Bool.false_eq_true]
        exact ih hentry

/-- A failed unmapping on a table. -/
theorem Table.munmap_keeps (T : Table) (key : Key) (a : DriverAnswer) :
    ((T.munmap key a).2.nErr ≠ none → (T.munmap key a).1 = T) ↔
      ∀ node ∈ T.entry key, node.refs ≤ 1 → a.iocErr ≠ 0 →
        node.refs = if a.munmapUnsupported then 0 else 1 := by
  unfold Table.munmap
  cases hentry : T.entry key with
  | none => simp [Outcome.of]
  | some node =>
      by_cases hheld : 1 < node.refs
      · simp [hheld, Outcome.of]
      by_cases hioc : a.iocErr = 0
      · simp [hheld, hioc, Outcome.of]
      by_cases hunsupported : a.munmapUnsupported = true
      · simp [hheld, hioc, hunsupported, Outcome.of, Table.setRefs_eq_self hentry, not_lt.mp hheld]
      · simp [hheld, hioc, hunsupported, Outcome.of, Table.setRefs_eq_self hentry, not_lt.mp hheld]

theorem openSession_cases (session : Session) (domain : ℤ) (next : Domain → Pc) :
    (∃ nErr, openSession session domain next = .fails nErr) ∨
      ∃ d, openSession session domain next = next d := by
  unfold openSession
  split
  · exact .inl ⟨_, rfl⟩
  · split_ifs
    · exact .inr ⟨_, rfl⟩
    · exact .inl ⟨_, rfl⟩

theorem enter_unmaps (session : Session) {c : Call} (hc : c.unmaps = true) :
    (∃ nErr, enter session c = .fails nErr) ∨ ∃ d key, enter session c = .munmapEnter d key := by
  have hopen : ∀ domain key, (∃ nErr, openSession session domain (.munmapEnter · key) = .fails nErr) ∨
      ∃ d key', openSession session domain (.munmapEnter · key) = .munmapEnter d key' := fun domain key =>
    (openSession_cases session domain _).imp_right fun ⟨d, h⟩ => ⟨d, key, h⟩
  cases c with
  | munmap domain fd vaddr length =>
      simp only [enter]
      split
      · exact .inl ⟨_, rfl⟩
      · split_ifs
        · exact hopen _ _
        · exact .inl ⟨_, rfl⟩
  | munmapInternal domain raddr length =>
      simp only [enter]
      split
      · exact .inl ⟨_, rfl⟩
      · exact hopen _ _
  | _ => cases hc

/-- **A failed unmapping changes nothing exactly under `LeavesCount`.** -/
theorem failed_munmap_unchanged (s : Store) (hs : s.Ok) (session : Session) (c : Call)
    (hc : c.unmaps = true) (a : Answer) :
    ((callStatic s session c a).2.nErr ≠ none → Unchanged s (callStatic s session c a).1) ↔
      LeavesCount s session c a := by
  obtain ⟨hok, htable, houtcome⟩ := callStatic_table hs session c a
  rw [unchanged_iff hs hok, htable, houtcome]
  unfold LeavesCount callTable
  obtain ⟨nErr, henter⟩ | ⟨d, key, henter⟩ := enter_unmaps session hc
  · simp [henter, Pc.fails]
  · have hupdate : ∀ T, Function.update s.table d T = s.table ↔ T = s.table d := by
      intro T
      rw [Function.update_eq_iff]
      simp
    simp only [henter, hupdate, Table.munmap_keeps, Pc.munmapEnter.injEq]
    constructor
    · rintro hkeeps d' key' ⟨rfl, rfl⟩
      exact hkeeps
    · exact fun hleaves => hleaves d key ⟨rfl, rfl⟩

/-- The store after buffer `5` was mapped on domain `3`. -/
def oneMapping : Store := (callStatic Store.init openedSession (.mmap 3 5 0x1000 0 0x100 0) succeeds).1

/-- The driver fails with `EFAULT`: the count is `1` again. -/
theorem failed_munmap_unchanged_efault :
    Unchanged oneMapping
      (callStatic oneMapping openedSession (.munmap 3 5 0x1000 0x100) ⟨true, -1, 14, 0⟩).1 := by
  refine (failed_munmap_unchanged oneMapping (callStatic_table Store.Ok.init _ _ _).1 openedSession
    (.munmap 3 5 0x1000 0x100) rfl ⟨true, -1, 14, 0⟩).mpr ?_ (by decide)
  intro d key henter node hnode _ _
  obtain ⟨rfl, rfl⟩ : 3 = d ∧ Key.fd 5 = key := Pc.munmapEnter.inj henter
  have hentry : (oneMapping.table 3).entry (.fd 5) = some ⟨⟨5, 0, 0, 0, 0x1000, 0x100, 0x4000⟩, 1⟩ := by
    decide
  obtain rfl := Option.some.inj (hentry.symm.trans hnode)
  decide

/-- The driver fails with `EINVAL`: the count stays `0`, and the mapping refuses every reference. -/
theorem failed_munmap_disables :
    let s := (callStatic oneMapping openedSession (.munmap 3 5 0x1000 0x100) ⟨true, -1, 22, 0⟩).1
    (callStatic oneMapping openedSession (.munmap 3 5 0x1000 0x100) ⟨true, -1, 22, 0⟩).2.nErr =
        some .EUNSUPPORTED ∧
      (callStatic s openedSession (.bufferRef 3 5 1) succeeds).2.nErr = some .ERPC ∧
      ¬ Unchanged oneMapping s := by
  intro s
  refine ⟨by decide, by decide, fun h => ?_⟩
  have hrefs : (s.table 3).map Node.refs = (oneMapping.table 3).map Node.refs := by rw [h.table]
  revert hrefs
  decide

end Failure

/-! ### Searches of tables -/

namespace Table

variable {T : Table} {key : Key} {fd fd' : ℤ} {node : Node}

/-- The file descriptors of the table. -/
def fds (T : Table) : List ℤ := T.map (fun node => node.map.fd)

theorem found_fd {map : MemMap} : (Key.fd fd).found map = true ↔ map.fd = fd := by
  simp [Key.found]

theorem entry_cons_pos (h : key.found node.map = true) : Table.entry key (node :: T) = some node := by
  simp [Table.entry, h]

theorem entry_cons_neg (h : ¬ key.found node.map = true) :
    Table.entry key (node :: T) = Table.entry key T := by
  simp [Table.entry, h]

theorem entry_mem (h : T.entry key = some node) : node ∈ T := List.mem_of_find?_eq_some h

theorem entry_eq_none : T.entry (.fd fd) = none ↔ fd ∉ T.fds := by
  simp [Table.entry, fds, found_fd]

theorem entry_of_mem (hunique : T.fds.Nodup) (h : node ∈ T) : T.entry (.fd node.map.fd) = some node := by
  induction T with
  | nil => cases h
  | cons x T ih =>
      obtain ⟨hx, hunique⟩ := List.nodup_cons.mp hunique
      obtain rfl | h := List.mem_cons.mp h
      · exact entry_cons_pos (found_fd.mpr rfl)
      · have hne : x.map.fd ≠ node.map.fd := fun heq => hx (List.mem_map.mpr ⟨node, h, heq.symm⟩)
        rw [entry_cons_neg (fun hfound => hne (found_fd.mp hfound))]
        exact ih hunique h

theorem fds_setRefs (T : Table) (key : Key) (refs : ℤ) : (T.setRefs key refs).fds = T.fds := by
  induction T with
  | nil => rfl
  | cons x T ih =>
      unfold setRefs
      split_ifs
      · rfl
      · exact congrArg (x.map.fd :: ·) ih

theorem entry_setRefs_self (h : T.entry key = some node) (refs : ℤ) :
    (T.setRefs key refs).entry key = some { node with refs := refs } := by
  induction T with
  | nil => cases h
  | cons x T ih =>
      by_cases hfound : key.found x.map = true
      · rw [entry_cons_pos hfound] at h
        obtain rfl := Option.some.inj h
        rw [setRefs, if_pos hfound]
        exact entry_cons_pos hfound
      · rw [entry_cons_neg hfound] at h
        rw [setRefs, if_neg hfound, entry_cons_neg hfound, ih h]

theorem entry_setRefs_other (hne : fd' ≠ fd) (T : Table) (refs : ℤ) :
    (T.setRefs (.fd fd) refs).entry (.fd fd') = T.entry (.fd fd') := by
  induction T with
  | nil => rfl
  | cons x T ih =>
      by_cases hfound : (Key.fd fd).found x.map = true
      · have hother : ¬ (Key.fd fd').found x.map = true := fun h =>
          hne ((found_fd.mp h).symm.trans (found_fd.mp hfound))
        have hset : ¬ (Key.fd fd').found ({ x with refs := refs } : Node).map = true := hother
        rw [setRefs, if_pos hfound, entry_cons_neg hset, entry_cons_neg hother]
      · rw [setRefs, if_neg hfound]
        by_cases hother : (Key.fd fd').found x.map = true
        · rw [entry_cons_pos hother, entry_cons_pos hother]
        · rw [entry_cons_neg hother, entry_cons_neg hother, ih]

theorem setRefs_append (h : T.entry key = some node) (T' : Table) (refs : ℤ) :
    Table.setRefs key refs (T ++ T') = T.setRefs key refs ++ T' := by
  induction T with
  | nil => cases h
  | cons x T ih =>
      rw [List.cons_append, setRefs, setRefs]
      by_cases hfound : key.found x.map = true
      · rw [if_pos hfound, if_pos hfound, List.cons_append]
      · rw [entry_cons_neg hfound] at h
        rw [if_neg hfound, if_neg hfound, List.cons_append, ih h]

theorem setRefs_comm (hne : fd' ≠ fd) (T : Table) (refs refs' : ℤ) :
    (T.setRefs (.fd fd) refs).setRefs (.fd fd') refs' =
      (T.setRefs (.fd fd') refs').setRefs (.fd fd) refs := by
  induction T with
  | nil => rfl
  | cons x T ih =>
      by_cases hfound : x.map.fd = fd
      · have hother : x.map.fd ≠ fd' := fun h => hne (h.symm.trans hfound)
        simp [setRefs, Key.found, hfound, hne.symm]
      · by_cases hother : x.map.fd = fd'
        · simp [setRefs, Key.found, hother, hne]
        · simp [setRefs, Key.found, hfound, hother, ih]

theorem remove_setRefs_other (hne : fd' ≠ fd) (T : Table) (refs : ℤ) :
    (T.setRefs (.fd fd) refs).remove (.fd fd') = (T.remove (.fd fd')).setRefs (.fd fd) refs := by
  unfold remove
  induction T with
  | nil => rfl
  | cons x T ih =>
      by_cases hfound : x.map.fd = fd
      · simp [setRefs, Key.found, hfound, hne.symm]
      · by_cases hother : x.map.fd = fd'
        · simp [setRefs, Key.found, hother, hne]
        · simp [setRefs, Key.found, hfound, hother] at ih ⊢
          exact ih

theorem entry_remove_other (hne : fd' ≠ fd) (T : Table) :
    (T.remove (.fd fd)).entry (.fd fd') = T.entry (.fd fd') := by
  unfold remove
  induction T with
  | nil => rfl
  | cons x T ih =>
      by_cases hfound : x.map.fd = fd
      · simp [Table.entry, Key.found, hfound, hne.symm]
      · by_cases hother : x.map.fd = fd'
        · simp [Table.entry, Key.found, hother, hne]
        · simp [Table.entry, Key.found, hfound, hother] at ih ⊢
          exact ih

theorem entry_append_other {node' : Node} (hne : fd' ≠ node'.map.fd) (T : Table) :
    (T ++ [node']).entry (.fd fd') = T.entry (.fd fd') := by
  simp [Table.entry, Key.found, List.find?_append, hne.symm]

end Table

/-! ### Runs on one domain -/

/-- The calls of a run. -/
inductive MapCall
  | mmap (fd : ℤ) (vaddr : ℕ) (offset : ℤ) (length flags : ℕ)
  | munmap (fd : ℤ) (vaddr length : ℕ)
  | bufferRef (fd : ℤ) (change : Change)
  deriving DecidableEq, Repr

namespace MapCall

def on (d : Domain) : MapCall → Call
  | mmap fd vaddr offset length flags => .mmap (d : ℕ) fd vaddr offset length flags
  | munmap fd vaddr length => .munmap (d : ℕ) fd vaddr length
  | bufferRef fd change => .bufferRef (d : ℕ) fd change.delta

def fd : MapCall → ℤ
  | mmap fd _ _ _ _ => fd
  | munmap fd _ _ => fd
  | bufferRef fd _ => fd

/-- The references that the caller holds more when the call succeeds. -/
def delta : MapCall → ℤ
  | bufferRef _ change => change.delta
  | _ => 0

end MapCall

/-- A call with what it finds. -/
structure MapStep where
  call : MapCall
  session : Session
  answer : Answer

/-- The store, and the references of each buffer that the callers hold: the calls with `+1` that succeeded
less those with `-1`. -/
structure Counted where
  store : Store
  held : ℤ → ℤ

/-- No mapping. -/
def Counted.init : Counted := ⟨Store.init, fun _ => 0⟩

/-- A whole call whose driver calls succeed. -/
def countedStep (d : Domain) (r : Counted) (x : MapStep) : Option Counted :=
  if x.answer.driver.iocErr = 0 then
    let c := callStatic r.store x.session (x.call.on d) x.answer
    some ⟨c.1,
      if c.2.nErr = none then
        Function.update r.held x.call.fd (r.held x.call.fd + x.call.delta)
      else r.held⟩
  else none

/-- No count is brought beyond an `int`. -/
def Room (r : Counted) (x : MapStep) : Prop :=
  ∀ fd, x.call = .bufferRef fd .up → r.held fd < 2 ^ 31 - 2

/-- The references to a buffer that these calls take less those that they give back. -/
def net (fd : ℤ) (xs : List MapStep) : ℤ :=
  (xs.map (fun x => if x.call.fd = fd then x.call.delta else 0)).sum

/-- Each reference to the buffer that these calls give back is one that they took, and they give back
all of them. -/
def Matched (fd : ℤ) (xs : List MapStep) : Prop := (∀ p, p <+: xs → 0 ≤ net fd p) ∧ net fd xs = 0

/-- What the counts of the domain are good for. -/
structure CountsRight (d : Domain) (r : Counted) : Prop where
  positive : ∀ node ∈ r.store.table d, 1 ≤ node.refs
  own : ∀ node ∈ r.store.table d, r.held node.map.fd = 0 → ∀ session a,
    (callStatic r.store session (.bufferRef (d : ℕ) node.map.fd (-1)) a).2.nErr = some .EBADPARM ∧
    (callStatic r.store session (.bufferRef (d : ℕ) node.map.fd (-1)) a).1.table = r.store.table
  munmap : ∀ node ∈ r.store.table d, ∀ session a vaddr length,
    session.initOnce = none → session.sessionGet = true → session.sessionDev = true →
    a.driver.iocErr = 0 →
    ((callStatic r.store session (.munmap (d : ℕ) node.map.fd vaddr length) a).2.nErr = none ↔
      r.held node.map.fd = 0)
  restores : ∀ node ∈ r.store.table d, ∀ x y mid t t',
    x.call = .bufferRef node.map.fd .up → y.call = .bufferRef node.map.fd .down →
    Matched node.map.fd mid → Guarded (countedStep d) Room r (x :: mid ++ [y]) →
    run (countedStep d) r (x :: mid ++ [y]) = some t →
    run (countedStep d) r (mid.filter (fun z => z.call.fd ≠ node.map.fd)) = some t' →
    t.store.table d = t'.store.table d

/-! ### One call -/

section Steps

variable {d : Domain} {T : Table} {x : MapStep} {fd : ℤ} {node : Node}

/-- A call of a run on the table of the domain. -/
def Table.next (d : Domain) (T : Table) (x : MapStep) : Table × Outcome :=
  match enter x.session (x.call.on d) with
  | .returned r => (T, r)
  | .mmapEnter _ map => T.mmap map x.answer
  | .munmapEnter _ key => T.munmap key x.answer.driver
  | .refEnter _ fd ref => T.bufferRef fd ref
  | _ => (T, .of none)

theorem effectiveDomain_self (d : Domain) : effectiveDomain (d : ℕ) = some d := by
  have hd : (0 : ℤ) ≤ (d : ℕ) ∧ ((d : ℕ) : ℤ) < 32 := ⟨by omega, by omega⟩
  simp [effectiveDomain, hd]

theorem openSession_self (session : Session) (d : Domain) (next : Domain → Pc) :
    openSession session (d : ℕ) next =
      if session.sessionGet && session.sessionDev then next d else .fails .ENOTINITIALIZED := by
  have hne : ((d : ℕ) : ℤ) ≠ -1 := by omega
  simp [openSession, hne, effectiveDomain_self]

theorem enter_mmap (session : Session) (d : Domain) (fd : ℤ) (vaddr : ℕ) (offset : ℤ) (length flags : ℕ) :
    (∃ nErr, enter session (.mmap (d : ℕ) fd vaddr offset length flags) = .fails nErr) ∨
      0 ≤ fd ∧ ∃ map, map.fd = fd ∧
        enter session (.mmap (d : ℕ) fd vaddr offset length flags) = .mmapEnter d map := by
  simp only [enter, openSession_self]
  split
  · exact .inl ⟨_, rfl⟩
  · split_ifs with hargs
    · exact .inr ⟨hargs.1, _, rfl, rfl⟩
    · exact .inl ⟨_, rfl⟩
    · exact .inl ⟨_, rfl⟩
    · exact .inl ⟨_, rfl⟩

theorem enter_munmap (session : Session) (d : Domain) (fd : ℤ) (vaddr length : ℕ) :
    (∃ nErr, enter session (.munmap (d : ℕ) fd vaddr length) = .fails nErr) ∨
      enter session (.munmap (d : ℕ) fd vaddr length) = .munmapEnter d (.fd fd) := by
  simp only [enter, openSession_self]
  split
  · exact .inl ⟨_, rfl⟩
  · split_ifs
    · exact .inr rfl
    · exact .inl ⟨_, rfl⟩
    · exact .inl ⟨_, rfl⟩

theorem enter_munmap_open {session : Session} (hinit : session.initOnce = none)
    (hget : session.sessionGet = true) (hdev : session.sessionDev = true) (d : Domain) (hfd : 0 ≤ fd)
    (vaddr length : ℕ) :
    enter session (.munmap (d : ℕ) fd vaddr length) = .munmapEnter d (.fd fd) := by
  simp [enter, openSession_self, hinit, hget, hdev, hfd]

theorem enter_bufferRef (session : Session) (d : Domain) (fd ref : ℤ) :
    enter session (.bufferRef (d : ℕ) fd ref) = .refEnter d fd ref := by
  simp [enter, effectiveDomain_self]

/-- A call of a run works on the table of its domain. -/
theorem callTable_next (T : Domain → Table) (d : Domain) (x : MapStep) :
    callTable T x.session (x.call.on d) x.answer =
      (Function.update T d ((T d).next d x).1, ((T d).next d x).2) := by
  unfold callTable Table.next
  cases hcall : x.call with
  | mmap fd vaddr offset length flags =>
      obtain ⟨nErr, h⟩ | ⟨_, map, _, h⟩ := enter_mmap x.session d fd vaddr offset length flags
      · simp [MapCall.on, h, Pc.fails]
      · simp [MapCall.on, h]
  | munmap fd vaddr length =>
      obtain ⟨nErr, h⟩ | h := enter_munmap x.session d fd vaddr length
      · simp [MapCall.on, h, Pc.fails]
      · simp [MapCall.on, h]
  | bufferRef fd change => simp [MapCall.on, enter_bufferRef]

/-- What a call whose driver calls succeed does to the table of its domain. -/
inductive Effect (T : Table) (c : MapCall) : Table → Option AEEResult → Prop
  | idle (nErr : Option AEEResult) (hnErr : nErr = none → c.delta = 0) : Effect T c T nErr
  | add (node : Node) (hnonneg : 0 ≤ c.fd) (hnone : T.entry (.fd c.fd) = none)
      (hfd : node.map.fd = c.fd) (hrefs : node.refs = 1) (hdelta : c.delta = 0) : Effect T c (T ++ [node]) none
  | remove (node : Node) (hentry : T.entry (.fd c.fd) = some node) (hrefs : node.refs ≤ 1)
      (hdelta : c.delta = 0) : Effect T c (T.remove (.fd c.fd)) none
  | up (fd : ℤ) (node : Node) (hc : c = .bufferRef fd .up) (hentry : T.entry (.fd fd) = some node) :
      Effect T c (T.setRefs (.fd fd) (wrap (node.refs + 1))) none
  | down (fd : ℤ) (node : Node) (hc : c = .bufferRef fd .down) (hentry : T.entry (.fd fd) = some node)
      (hrefs : 1 < node.refs) : Effect T c (T.setRefs (.fd fd) (node.refs - 1)) none

theorem next_effect (d : Domain) (T : Table) {x : MapStep} (hioc : x.answer.driver.iocErr = 0) :
    Effect T x.call (T.next d x).1 (T.next d x).2.nErr := by
  unfold Table.next
  cases hcall : x.call with
  | mmap fd vaddr offset length flags =>
      obtain ⟨nErr, h⟩ | ⟨hnonneg, map, hfd, h⟩ := enter_mmap x.session d fd vaddr offset length flags
      · simp only [MapCall.on, h, Pc.fails]
        exact .idle _ fun _ => rfl
      · simp only [MapCall.on, h, Table.mmap, hioc, if_true, hfd]
        split_ifs with hentry hcalloc
        · exact .idle _ fun _ => rfl
        · exact .add _ hnonneg (by simpa [MapCall.fd] using hentry) rfl rfl rfl
        · exact .idle _ fun _ => rfl
  | munmap fd vaddr length =>
      obtain ⟨nErr, h⟩ | h := enter_munmap x.session d fd vaddr length
      · simp only [MapCall.on, h, Pc.fails]
        exact .idle _ fun _ => rfl
      · simp only [MapCall.on, h, Table.munmap, hioc, if_true]
        cases hentry : T.entry (.fd fd) with
        | none => exact .idle _ fun _ => rfl
        | some node =>
            dsimp only
            split_ifs with hheld
            · exact .idle _ fun _ => rfl
            · exact .remove node hentry (not_lt.mp hheld) rfl
  | bufferRef fd change =>
      simp only [MapCall.on, enter_bufferRef, Table.bufferRef]
      cases hentry : T.entry (.fd fd) with
      | none => exact .idle _ (by simp [Outcome.of])
      | some node =>
          dsimp only
          cases change with
          | up =>
              simp only [Change.delta, if_true]
              split_ifs with hrefs
              · exact .idle _ (by simp [Outcome.of])
              · exact .up fd node rfl hentry
          | down =>
              simp only [Change.delta, if_true, show (-1 : ℤ) ≠ 1 by decide, if_false]
              split_ifs with hrefs hone
              · exact .idle _ (by simp [Outcome.of])
              · exact .idle _ (by simp)
              · exact .down fd node rfl hentry (by omega)
          | keep =>
              simp only [Change.delta, show (0 : ℤ) ≠ 1 by decide, show (0 : ℤ) ≠ -1 by decide, if_true,
                if_false]
              split_ifs with hrefs
              · exact .idle _ fun _ => rfl
              · exact .idle _ fun _ => rfl

/-- The count of the buffer that a call is about is above `1` before and after it: nothing else changes. -/
theorem next_setRefs_own {refs : ℤ} (hentry : T.entry (.fd x.call.fd) = some node) (hrefs : 2 ≤ refs)
    (hroom : x.call.delta = 1 → refs < intMax) :
    (Table.next d (T.setRefs (.fd x.call.fd) refs) x).1 =
      T.setRefs (.fd x.call.fd) (refs + x.call.delta) := by
  have hset := Table.entry_setRefs_self hentry refs
  unfold Table.next
  cases hcall : x.call with
  | mmap fd vaddr offset length flags =>
      rw [hcall] at hset
      obtain ⟨nErr, h⟩ | ⟨hnonneg, map, hfd, h⟩ := enter_mmap x.session d fd vaddr offset length flags
      · simp [MapCall.on, h, Pc.fails, MapCall.delta]
      · subst hfd
        simp only [MapCall.fd] at hset
        simp [MapCall.on, h, Table.mmap, MapCall.fd, hset, MapCall.delta]
  | munmap fd vaddr length =>
      rw [hcall] at hset
      obtain ⟨nErr, h⟩ | h := enter_munmap x.session d fd vaddr length
      · simp [MapCall.on, h, Pc.fails, MapCall.delta]
      · simp only [MapCall.fd] at hset
        have hheld : 1 < refs := by omega
        simp [MapCall.on, h, Table.munmap, MapCall.fd, hset, hheld, MapCall.delta]
  | bufferRef fd change =>
      rw [hcall] at hset hroom
      simp only [MapCall.fd] at hset
      have hpos : ¬ refs ≤ 0 := by omega
      have hone : refs ≠ 1 := by omega
      cases change with
      | up =>
          have hwrap : wrap (refs + 1) = refs + 1 :=
            wrap_of_inRange (inRange_of_nonneg (by omega) (by have := hroom rfl; omega))
          simp [MapCall.on, enter_bufferRef, Table.bufferRef, MapCall.fd, MapCall.delta, hset, hpos,
            Change.delta, hwrap, Table.setRefs_setRefs]
      | down =>
          simp [MapCall.on, enter_bufferRef, Table.bufferRef, MapCall.fd, MapCall.delta, hset, hpos,
            Change.delta, hone, Table.setRefs_setRefs, sub_eq_add_neg]
      | keep =>
          simp [MapCall.on, enter_bufferRef, Table.bufferRef, MapCall.fd, MapCall.delta, hset, hpos,
            Change.delta]

/-- A call about another buffer does the same whatever the count of this one is. -/
theorem next_setRefs_other {refs : ℤ} (hentry : T.entry (.fd fd) = some node) (hne : x.call.fd ≠ fd) :
    (Table.next d (T.setRefs (.fd fd) refs) x).1 = (T.next d x).1.setRefs (.fd fd) refs := by
  have hother := Table.entry_setRefs_other hne T refs
  unfold Table.next
  cases hcall : x.call with
  | mmap fd' vaddr offset length flags =>
      rw [hcall] at hother
      simp only [MapCall.fd] at hother
      obtain ⟨nErr, h⟩ | ⟨hnonneg, map, hfd, h⟩ := enter_mmap x.session d fd' vaddr offset length flags
      · simp [MapCall.on, h, Pc.fails]
      · subst hfd
        simp only [MapCall.on, h, Table.mmap, hother]
        split_ifs
        · rfl
        · exact (Table.setRefs_append hentry _ _).symm
        · rfl
        · rfl
        · rfl
  | munmap fd' vaddr length =>
      rw [hcall] at hother hne
      simp only [MapCall.fd] at hother hne
      obtain ⟨nErr, h⟩ | h := enter_munmap x.session d fd' vaddr length
      · simp [MapCall.on, h, Pc.fails]
      · simp only [MapCall.on, h, Table.munmap, hother]
        cases T.entry (.fd fd') with
        | none => rfl
        | some node' =>
            dsimp only
            split_ifs
            · rfl
            · exact Table.remove_setRefs_other hne T refs
            · exact Table.setRefs_comm hne T refs _
            · exact Table.setRefs_comm hne T refs _
  | bufferRef fd' change =>
      rw [hcall] at hother hne
      simp only [MapCall.fd] at hother hne
      simp only [MapCall.on, enter_bufferRef, Table.bufferRef, hother]
      cases T.entry (.fd fd') with
      | none => rfl
      | some node' =>
          dsimp only
          split_ifs
          · rfl
          · exact Table.setRefs_comm hne T refs _
          · rfl
          · exact Table.setRefs_comm hne T refs _
          · rfl
          · rfl

/-- A call about another buffer keeps the entry of this one. -/
theorem Effect.entry_other {c : MapCall} {T' : Table} {nErr : Option AEEResult} (h : Effect T c T' nErr)
    (hne : fd ≠ c.fd) : T'.entry (.fd fd) = T.entry (.fd fd) := by
  cases h with
  | idle => rfl
  | add node _ _ hfd => exact Table.entry_append_other (hfd ▸ hne) T
  | remove => exact Table.entry_remove_other hne T
  | up fd' node hc =>
      subst hc
      exact Table.entry_setRefs_other hne T _
  | down fd' node hc =>
      subst hc
      exact Table.entry_setRefs_other hne T _

/-! ### The invariant -/

/-- Every mapping counts itself and the references held on it, and nothing else is held. -/
structure CountInv (d : Domain) (r : Counted) : Prop where
  ok : r.store.Ok
  unique : (r.store.table d).fds.Nodup
  nonneg : ∀ fd ∈ (r.store.table d).fds, 0 ≤ fd
  counts : ∀ fd node, (r.store.table d).entry (.fd fd) = some node → node.refs = r.held fd + 1
  unlisted : ∀ fd, (r.store.table d).entry (.fd fd) = none → r.held fd = 0
  bound : ∀ fd, 0 ≤ r.held fd ∧ r.held fd ≤ 2 ^ 31 - 2

variable {r r' : Counted}

theorem countedStep_eq (hok : r.store.Ok) (h : countedStep d r x = some r') :
    x.answer.driver.iocErr = 0 ∧ r'.store.Ok ∧
      r'.store.table d = ((r.store.table d).next d x).1 ∧
      r'.held = if ((r.store.table d).next d x).2.nErr = none then
        Function.update r.held x.call.fd (r.held x.call.fd + x.call.delta) else r.held := by
  obtain ⟨hok', htable, houtcome⟩ := callStatic_table hok x.session (x.call.on d) x.answer
  rw [callTable_next] at htable houtcome
  unfold countedStep at h
  split_ifs at h with hioc
  obtain rfl := Option.some.inj h
  refine ⟨hioc, hok', ?_, ?_⟩
  · simp [htable]
  · simp [houtcome]

theorem countInv_init (d : Domain) : CountInv d Counted.init where
  ok := Store.Ok.init
  unique := List.nodup_nil
  nonneg := fun _ hfd => by cases hfd
  counts := fun _ _ h => by cases h
  unlisted := fun _ _ => rfl
  bound := fun _ => ⟨le_rfl, by simp [Counted.init]⟩

theorem fds_next {c : MapCall} {T' : Table} {nErr : Option AEEResult} (h : Effect T c T' nErr)
    (hunique : T.fds.Nodup) : T'.fds.Nodup := by
  cases h with
  | idle => exact hunique
  | add node _ hnone hfd =>
      have hnot := Table.entry_eq_none.mp hnone
      simp only [Table.fds, List.map_append, List.map_cons, List.map_nil] at hunique hnot ⊢
      rw [List.nodup_append]
      refine ⟨hunique, List.nodup_singleton _, fun a ha b hb hab => hnot ?_⟩
      rw [List.mem_singleton.mp hb, hfd] at hab
      exact hab ▸ ha
  | remove => exact hunique.sublist (List.eraseP_sublist.map _)
  | up => rwa [Table.fds_setRefs]
  | down => rwa [Table.fds_setRefs]

theorem nonneg_next {c : MapCall} {T' : Table} {nErr : Option AEEResult} (h : Effect T c T' nErr)
    (hnonneg : ∀ fd ∈ T.fds, 0 ≤ fd) : ∀ fd ∈ T'.fds, 0 ≤ fd := by
  cases h with
  | idle => exact hnonneg
  | add node hc _ hfd =>
      intro fd hmem
      simp only [Table.fds, List.map_append, List.mem_append, List.map_cons, List.map_nil,
        List.mem_singleton] at hmem
      obtain hmem | rfl := hmem
      · exact hnonneg fd hmem
      · rw [hfd]
        exact hc
  | remove => exact fun fd hmem => hnonneg fd ((List.eraseP_sublist.map _).subset hmem)
  | up => rwa [Table.fds_setRefs]
  | down => rwa [Table.fds_setRefs]

/-- A step that is about one buffer keeps the invariant if it does so for this buffer. -/
theorem CountInv.of_own (h : CountInv d r) (hok : r'.store.Ok) (hunique : (r'.store.table d).fds.Nodup)
    (hnonneg : ∀ fd ∈ (r'.store.table d).fds, 0 ≤ fd)
    (hother : ∀ fd', fd' ≠ fd →
      (r'.store.table d).entry (.fd fd') = (r.store.table d).entry (.fd fd') ∧ r'.held fd' = r.held fd')
    (hown : (∃ node, (r'.store.table d).entry (.fd fd) = some node ∧ node.refs = r'.held fd + 1) ∨
      (r'.store.table d).entry (.fd fd) = none ∧ r'.held fd = 0)
    (hbound : 0 ≤ r'.held fd ∧ r'.held fd ≤ 2 ^ 31 - 2) : CountInv d r' where
  ok := hok
  unique := hunique
  nonneg := hnonneg
  counts := by
    intro fd' node hentry
    rcases eq_or_ne fd' fd with rfl | hne
    · obtain ⟨node', hentry', hrefs⟩ | ⟨hnone, _⟩ := hown
      · rw [hentry'] at hentry
        exact Option.some.inj hentry ▸ hrefs
      · rw [hnone] at hentry
        cases hentry
    · obtain ⟨hsame, hheld⟩ := hother fd' hne
      rw [hheld, h.counts fd' node (hsame ▸ hentry)]
  unlisted := by
    intro fd' hentry
    rcases eq_or_ne fd' fd with rfl | hne
    · obtain ⟨node', hentry', _⟩ | ⟨_, hheld⟩ := hown
      · rw [hentry'] at hentry
        cases hentry
      · exact hheld
    · obtain ⟨hsame, hheld⟩ := hother fd' hne
      rw [hheld, h.unlisted fd' (hsame ▸ hentry)]
  bound := by
    intro fd'
    rcases eq_or_ne fd' fd with rfl | hne
    · exact hbound
    · rw [(hother fd' hne).2]
      exact h.bound fd'

theorem Table.entry_append_self (hnone : T.entry (.fd fd) = none) (hfd : node.map.fd = fd) :
    (T ++ [node]).entry (.fd fd) = some node := by
  unfold Table.entry at hnone ⊢
  rw [List.find?_append, hnone]
  simp [Key.found, hfd]

theorem Table.entry_remove_self (hunique : T.fds.Nodup) : (T.remove (.fd fd)).entry (.fd fd) = none := by
  rw [Table.entry_eq_none]
  unfold Table.remove
  induction T with
  | nil => exact List.not_mem_nil
  | cons node T ih =>
      obtain ⟨hnot, hunique⟩ := List.nodup_cons.mp hunique
      by_cases hfound : node.map.fd = fd
      · subst hfound
        simpa [Key.found, Table.fds] using hnot
      · have hrest := ih hunique
        simpa [Key.found, Table.fds, hfound, Ne.symm hfound] using hrest

/-- The buffer that a call is about, with the references held afterwards. -/
theorem CountInv.own_effect {T' : Table} {nErr : Option AEEResult} {held' : ℤ} (h : CountInv d r)
    (hroom : Room r x) (heffect : Effect (r.store.table d) x.call T' nErr)
    (hheld : held' = if nErr = none then r.held x.call.fd + x.call.delta else r.held x.call.fd) :
    ((∃ node, T'.entry (.fd x.call.fd) = some node ∧ node.refs = held' + 1) ∨
      T'.entry (.fd x.call.fd) = none ∧ held' = 0) ∧ 0 ≤ held' ∧ held' ≤ 2 ^ 31 - 2 := by
  have hbound := h.bound x.call.fd
  cases heffect with
  | idle _ hnErr =>
      have hsame : held' = r.held x.call.fd := by
        rw [hheld]
        split_ifs with hnone
        · rw [hnErr hnone, add_zero]
        · rfl
      rw [hsame]
      refine ⟨?_, hbound⟩
      cases hentry : (r.store.table d).entry (.fd x.call.fd) with
      | none => exact .inr ⟨rfl, h.unlisted _ hentry⟩
      | some node => exact .inl ⟨node, rfl, h.counts _ node hentry⟩
  | add node hnonneg hnone hfd hrefs hdelta =>
      rw [if_pos rfl, hdelta, h.unlisted _ hnone] at hheld
      subst hheld
      exact ⟨.inl ⟨node, Table.entry_append_self hnone hfd, by omega⟩, by omega, by omega⟩
  | remove node hentry hrefs hdelta =>
      have hcount := h.counts _ node hentry
      rw [if_pos rfl, hdelta] at hheld
      exact ⟨.inr ⟨Table.entry_remove_self h.unique, by omega⟩, by omega, by omega⟩
  | up fd node hc hentry =>
      have hcount := h.counts _ node hentry
      have hlt := hroom fd hc
      rw [hc] at hheld hbound ⊢
      simp only [MapCall.fd, MapCall.delta, Change.delta, if_true] at hheld hbound ⊢
      have hwrap : wrap (node.refs + 1) = node.refs + 1 :=
        wrap_of_inRange (inRange_of_nonneg (by omega) (by rw [intMax_eq]; omega))
      exact ⟨.inl ⟨_, Table.entry_setRefs_self hentry _, by dsimp only; omega⟩, by omega, by omega⟩
  | down fd node hc hentry hrefs =>
      have hcount := h.counts _ node hentry
      rw [hc] at hheld hbound ⊢
      simp only [MapCall.fd, MapCall.delta, Change.delta, if_true] at hheld hbound ⊢
      exact ⟨.inl ⟨_, Table.entry_setRefs_self hentry _, by dsimp only; omega⟩, by omega, by omega⟩

theorem CountInv.step (h : CountInv d r) (hroom : Room r x) (hstep : countedStep d r x = some r') :
    CountInv d r' := by
  obtain ⟨hioc, hok, htable, hheld⟩ := countedStep_eq h.ok hstep
  have heffect := next_effect d (r.store.table d) hioc
  rw [← htable] at heffect
  generalize ((r.store.table d).next d x).2.nErr = nErr at heffect hheld
  have hheld' : ∀ fd', fd' ≠ x.call.fd → r'.held fd' = r.held fd' := by
    intro fd' hne
    rw [hheld]
    split_ifs
    · rw [Function.update_of_ne hne]
    · rfl
  have hown' : r'.held x.call.fd = if nErr = none then r.held x.call.fd + x.call.delta
      else r.held x.call.fd := by
    rw [hheld]
    split_ifs
    · rw [Function.update_self]
    · rfl
  obtain ⟨hown, hbound⟩ := h.own_effect hroom heffect hown'
  exact h.of_own hok (fds_next heffect h.unique) (nonneg_next heffect h.nonneg)
    (fun fd' hne => ⟨heffect.entry_other hne, hheld' fd' hne⟩) hown hbound

/-! ### What the counts are good for -/

theorem CountInv.entry_of_mem (h : CountInv d r) (hnode : node ∈ r.store.table d) :
    (r.store.table d).entry (.fd node.map.fd) = some node ∧ node.refs = r.held node.map.fd + 1 := by
  have hentry := Table.entry_of_mem h.unique hnode
  exact ⟨hentry, h.counts _ node hentry⟩

theorem CountInv.own (h : CountInv d r) (hnode : node ∈ r.store.table d) (hheld : r.held node.map.fd = 0)
    (session : Session) (a : Answer) :
    (callStatic r.store session (.bufferRef (d : ℕ) node.map.fd (-1)) a).2.nErr = some .EBADPARM ∧
    (callStatic r.store session (.bufferRef (d : ℕ) node.map.fd (-1)) a).1.table = r.store.table := by
  obtain ⟨hentry, hrefs⟩ := h.entry_of_mem hnode
  obtain ⟨_, htable, houtcome⟩ :=
    callStatic_table h.ok session (.bufferRef (d : ℕ) node.map.fd (-1)) a
  have hone : node.refs = 1 := by omega
  have hcall : (r.store.table d).bufferRef node.map.fd (-1) = (r.store.table d,
      ⟨some .EBADPARM, none, some node.map.vaddrin, some node.map.length⟩) := by
    simp [Table.bufferRef, hentry, hone]
  rw [htable, houtcome]
  simp only [callTable, enter_bufferRef, hcall, Function.update_eq_self]
  exact ⟨trivial, trivial⟩

theorem CountInv.munmap (h : CountInv d r) (hnode : node ∈ r.store.table d)
    {session : Session} {a : Answer} (vaddr length : ℕ) (hinit : session.initOnce = none)
    (hget : session.sessionGet = true) (hdev : session.sessionDev = true) (hioc : a.driver.iocErr = 0) :
    (callStatic r.store session (.munmap (d : ℕ) node.map.fd vaddr length) a).2.nErr = none ↔
      r.held node.map.fd = 0 := by
  obtain ⟨hentry, hrefs⟩ := h.entry_of_mem hnode
  have hbound := h.bound node.map.fd
  have hfd := h.nonneg _ (List.mem_map.mpr ⟨node, hnode, rfl⟩)
  obtain ⟨_, _, houtcome⟩ :=
    callStatic_table h.ok session (.munmap (d : ℕ) node.map.fd vaddr length) a
  rw [houtcome]
  simp only [callTable, enter_munmap_open hinit hget hdev d hfd, Table.munmap, hentry, hioc, if_true]
  split_ifs with hheld
  · simp only [Outcome.of, reduceCtorEq, false_iff]
    omega
  · simp only [Outcome.of, true_iff]
    omega

/-! ### A reference that is given back -/

theorem delta_eq_one {c : MapCall} (h : c.delta = 1) : c = .bufferRef c.fd .up := by
  cases c with
  | mmap => cases h
  | munmap => cases h
  | bufferRef fd change =>
      cases change with
      | up => rfl
      | down => cases h
      | keep => cases h

theorem net_cons (fd : ℤ) (x : MapStep) (xs : List MapStep) :
    net fd (x :: xs) = (if x.call.fd = fd then x.call.delta else 0) + net fd xs := by
  simp [net]

theorem net_append (fd : ℤ) (xs ys : List MapStep) : net fd (xs ++ ys) = net fd xs + net fd ys := by
  simp [net]

/-- A run that finds the count of a buffer above `1` at every step does to the table what its calls about the other
buffers do alone. -/
theorem matched_run {b r' b' : Counted} {xs : List MapStep} {refs : ℤ} (hinv : CountInv d r)
    (hb : b.store.Ok) (htable : r.store.table d = (b.store.table d).setRefs (.fd fd) refs)
    (hentry : (b.store.table d).entry (.fd fd) = some node) (hheld : ∀ p z, p ++ [z] <+: xs → 2 ≤ refs + net fd p)
    (hguard : Guarded (countedStep d) Room r xs) (hrun : run (countedStep d) r xs = some r')
    (hrun' : run (countedStep d) b (xs.filter (fun z => z.call.fd ≠ fd)) = some b') :
    CountInv d r' ∧ (b'.store.table d).entry (.fd fd) = some node ∧
      r'.store.table d = (b'.store.table d).setRefs (.fd fd) (refs + net fd xs) := by
  induction xs generalizing r b refs with
  | nil =>
      obtain rfl := Option.some.inj hrun
      obtain rfl := Option.some.inj hrun'
      exact ⟨hinv, hentry, by simpa [net] using htable⟩
  | cons x xs ih =>
      obtain ⟨r₁, hstep, hrun⟩ := run_cons_eq_some.mp hrun
      have hinv₁ := hinv.step hguard.1 hstep
      have hguard₁ := hguard.2 r₁ hstep
      obtain ⟨hioc, _, htable₁, _⟩ := countedStep_eq hinv.ok hstep
      have htwo : 2 ≤ refs := by simpa [net] using hheld [] x ⟨xs, rfl⟩
      by_cases hown : x.call.fd = fd
      · have hcount := hinv.counts fd _ (htable ▸ Table.entry_setRefs_self hentry refs)
        have hroom : x.call.delta = 1 → refs < intMax := by
          intro hdelta
          have hlt := hguard.1 fd (hown ▸ delta_eq_one hdelta)
          dsimp only at hcount
          rw [intMax_eq]
          omega
        subst hown
        rw [htable, next_setRefs_own hentry htwo hroom] at htable₁
        rw [List.filter_cons_of_neg (by simp)] at hrun'
        have hprefix : ∀ p z, p ++ [z] <+: xs → 2 ≤ refs + x.call.delta + net x.call.fd p := by
          intro p z hp
          have hcons := hheld (x :: p) z (List.cons_prefix_cons.mpr ⟨rfl, hp⟩)
          rw [net_cons, if_pos rfl] at hcons
          omega
        have hrest := ih hinv₁ hb htable₁ hentry hprefix hguard₁ hrun hrun'
        rwa [net_cons, if_pos rfl, ← add_assoc]
      · rw [List.filter_cons_of_pos (by simpa using hown)] at hrun'
        obtain ⟨b₁, hstep', hrun'⟩ := run_cons_eq_some.mp hrun'
        obtain ⟨_, hb₁, hbtable, _⟩ := countedStep_eq hb hstep'
        rw [htable, next_setRefs_other hentry hown, ← hbtable] at htable₁
        have hentry₁ : (b₁.store.table d).entry (.fd fd) = some node := by
          rw [hbtable, (next_effect d _ hioc).entry_other (Ne.symm hown), hentry]
        have hprefix : ∀ p z, p ++ [z] <+: xs → 2 ≤ refs + net fd p := by
          intro p z hp
          have hcons := hheld (x :: p) z (List.cons_prefix_cons.mpr ⟨rfl, hp⟩)
          rwa [net_cons, if_neg hown, zero_add] at hcons
        have hrest := ih hinv₁ hb₁ htable₁ hentry₁ hprefix hguard₁ hrun hrun'
        rwa [net_cons, if_neg hown, zero_add]

theorem next_up (hc : x.call = .bufferRef fd .up) (hentry : T.entry (.fd fd) = some node)
    (hpos : 0 < node.refs) (hlt : node.refs < intMax) :
    (T.next d x).1 = T.setRefs (.fd fd) (node.refs + 1) := by
  have hwrap : wrap (node.refs + 1) = node.refs + 1 :=
    wrap_of_inRange (inRange_of_nonneg (by omega) (by omega))
  simp [Table.next, hc, MapCall.on, enter_bufferRef, Change.delta, Table.bufferRef, hentry,
    not_le.mpr hpos, hwrap]

/-- A reference that is taken and given back leaves the table to the calls about the other buffers. -/
theorem CountInv.restores (h : CountInv d r) (hnode : node ∈ r.store.table d) {y : MapStep}
    {mid : List MapStep} {t t' : Counted} (hx : x.call = .bufferRef node.map.fd .up)
    (hy : y.call = .bufferRef node.map.fd .down) (hmid : Matched node.map.fd mid)
    (hguard : Guarded (countedStep d) Room r (x :: mid ++ [y]))
    (hrun : run (countedStep d) r (x :: mid ++ [y]) = some t)
    (hrun' : run (countedStep d) r (mid.filter (fun z => z.call.fd ≠ node.map.fd)) = some t') :
    t.store.table d = t'.store.table d := by
  obtain ⟨hentry, hrefs⟩ := h.entry_of_mem hnode
  have hbound := h.bound node.map.fd
  rw [List.cons_append] at hguard hrun
  obtain ⟨r₁, hstep, hrun⟩ := run_cons_eq_some.mp hrun
  have hlt : node.refs < intMax := by
    have hroom := hguard.1 node.map.fd hx
    rw [intMax_eq]
    omega
  obtain ⟨_, _, htable, _⟩ := countedStep_eq h.ok hstep
  rw [next_up hx hentry (by omega) hlt] at htable
  have hfilter : (mid ++ [y]).filter (fun z => z.call.fd ≠ node.map.fd) =
      mid.filter (fun z => z.call.fd ≠ node.map.fd) := by
    simp [List.filter_append, hy, MapCall.fd]
  have hheld : ∀ p z, p ++ [z] <+: mid ++ [y] → 2 ≤ node.refs + 1 + net node.map.fd p := by
    intro p z hp
    have hlen := hp.length_le
    rw [List.length_append, List.length_append] at hlen
    have hprefix : p <+: mid := List.prefix_of_prefix_length_le
      ((List.prefix_append p [z]).trans hp) (List.prefix_append mid [y]) (by simpa using hlen)
    have hnet := hmid.1 p hprefix
    omega
  obtain ⟨_, hentry', htable'⟩ := matched_run (h.step hguard.1 hstep) h.ok htable hentry hheld
    (hguard.2 r₁ hstep) hrun (hfilter ▸ hrun')
  have hnet : net node.map.fd (mid ++ [y]) = -1 := by
    have hlast : net node.map.fd [y] = -1 := by
      simp [net, hy, MapCall.fd, MapCall.delta, Change.delta]
    rw [net_append, hmid.2, hlast, zero_add]
  rw [htable', hnet, add_neg_cancel_right]
  exact (Table.setRefs_eq_self hentry' node.refs).mpr rfl

/-- **The counts of the mappings**, in every run of calls on one domain whose driver calls succeed. -/
theorem reference_counts (d : Domain) (xs : List MapStep) (r : Counted)
    (hguard : Guarded (countedStep d) Room Counted.init xs)
    (hrun : run (countedStep d) Counted.init xs = some r) : CountsRight d r := by
  have hinv : CountInv d r := guarded_invariant (fun _ _ _ h hroom hstep => CountInv.step h hroom hstep)
    (countInv_init d) hguard hrun
  exact {
    positive := fun node hnode => by
      have hbound := hinv.bound node.map.fd
      have hrefs := (hinv.entry_of_mem hnode).2
      omega
    own := fun node hnode hheld session a => hinv.own hnode hheld session a
    munmap := fun node hnode session a vaddr length hinit hget hdev hioc =>
      hinv.munmap hnode vaddr length hinit hget hdev hioc
    restores := fun node hnode x y mid t t' hx hy hmid hguard hrun hrun' =>
      hinv.restores hnode hx hy hmid hguard hrun hrun' }

end Steps

/-- A buffer is mapped on an open session. -/
def mapsBuffer : MapStep := ⟨.mmap 5 0x1000 0 0x100 0, openedSession, succeeds⟩

/-- A reference to it is taken. -/
def takesRef : MapStep := ⟨.bufferRef 5 .up, openedSession, succeeds⟩

theorem reference_counts_one_reference :
    ∃ r, run (countedStep 3) Counted.init [mapsBuffer, takesRef] = some r ∧ CountsRight 3 r := by
  refine ⟨_, rfl, reference_counts 3 [mapsBuffer, takesRef] _ ⟨fun fd hc => (by cases hc), ?_⟩ rfl⟩
  rintro r hr
  obtain rfl := Option.some.inj hr
  refine ⟨fun fd hc => ?_, fun _ _ => trivial⟩
  cases hc
  decide

section Overflow

variable {d : Domain} {r : Counted} {x : MapStep} {fd : ℤ} {node : Node}

theorem countedStep_some (d : Domain) (r : Counted) (hioc : x.answer.driver.iocErr = 0) :
    ∃ r', countedStep d r x = some r' := ⟨_, if_pos hioc⟩

/-- References that fit are counted. -/
theorem run_takesRef (hx : x.call = .bufferRef fd .up) (hioc : x.answer.driver.iocErr = 0) (n : ℕ)
    (hinv : CountInv d r) (hentry : (r.store.table d).entry (.fd fd) = some node)
    (hle : node.refs + n ≤ intMax) :
    ∃ r', run (countedStep d) r (List.replicate n x) = some r' ∧ CountInv d r' ∧
      ∃ node', (r'.store.table d).entry (.fd fd) = some node' ∧ node'.refs = node.refs + n := by
  induction n generalizing r node with
  | zero => exact ⟨r, rfl, hinv, node, hentry, by simp⟩
  | succ n ih =>
      obtain ⟨r₁, hstep⟩ := countedStep_some d r hioc
      have hrefs := hinv.counts fd node hentry
      have hbound := hinv.bound fd
      push_cast at hle
      rw [intMax_eq] at hle
      have hroom : Room r x := by
        intro fd' hc
        obtain ⟨rfl, -⟩ := MapCall.bufferRef.inj (hx.symm.trans hc)
        omega
      obtain ⟨_, _, htable, _⟩ := countedStep_eq hinv.ok hstep
      rw [next_up hx hentry (by omega) (by rw [intMax_eq]; omega)] at htable
      have hentry₁ : (r₁.store.table d).entry (.fd fd) = some { node with refs := node.refs + 1 } := by
        rw [htable]
        exact Table.entry_setRefs_self hentry _
      obtain ⟨r', hrun, hinv', node', hentry', hrefs'⟩ :=
        ih (hinv.step hroom hstep) hentry₁ (by rw [intMax_eq]; dsimp only; omega)
      refine ⟨r', ?_, hinv', node', hentry', ?_⟩
      · rw [List.replicate_succ, run_cons_eq_some]
        exact ⟨r₁, hstep, hrun⟩
      · rw [hrefs']
        push_cast
        ring

/-- A mapping whose references reach `INT_MAX` loses them all with the next one. -/
theorem reference_count_overflows :
    ∃ r, run (countedStep 3) Counted.init (mapsBuffer :: List.replicate (2 ^ 31 - 1) takesRef) = some r ∧
      ∃ node ∈ r.store.table 3, node.refs < 1 := by
  obtain ⟨r₁, hstep⟩ := countedStep_some (x := mapsBuffer) 3 Counted.init rfl
  have hinv := (countInv_init 3).step (x := mapsBuffer) (fun fd hc => by cases hc) hstep
  have hentry : (r₁.store.table 3).entry (.fd 5) =
      some ⟨⟨5, 0, 0, 0, 0x1000, 0x100, 0x4000⟩, 1⟩ := by
    obtain rfl := Option.some.inj hstep
    decide
  obtain ⟨r₂, hrun, hinv₂, node, hentry₂, hrefs⟩ :=
    run_takesRef (x := takesRef) rfl rfl (2 ^ 31 - 2) hinv hentry (by rw [intMax_eq]; norm_num)
  obtain ⟨r₃, hlast⟩ := countedStep_some (x := takesRef) 3 r₂ rfl
  have hcount : (2 : ℕ) ^ 31 - 1 = 2 ^ 31 - 2 + 1 := by norm_num
  refine ⟨r₃, ?_, ?_⟩
  · rw [run_cons_eq_some, hcount, List.replicate_succ']
    refine ⟨r₁, hstep, ?_⟩
    rw [run_append_some hrun]
    exact run_cons_eq_some.mpr ⟨r₃, hlast, rfl⟩
  · obtain ⟨_, _, htable, _⟩ := countedStep_eq hinv₂.ok hlast
    have hmax : node.refs = intMax := by
      rw [hrefs, intMax_eq]
      norm_num
    have hwrap : wrap (node.refs + 1) = -2 ^ 31 := by
      rw [hmax]
      decide
    have hpos : ¬ node.refs ≤ 0 := by
      rw [hmax, intMax_eq]
      norm_num
    have hnext : (Table.next 3 (r₂.store.table 3) takesRef).1 =
        (r₂.store.table 3).setRefs (.fd 5) (-2 ^ 31) := by
      simp only [Table.next, takesRef, MapCall.on, enter_bufferRef, Change.delta, Table.bufferRef,
        hentry₂, if_neg hpos, if_true, hwrap]
    rw [hnext] at htable
    refine ⟨{ node with refs := -2 ^ 31 }, ?_, by norm_num⟩
    rw [htable]
    exact Table.entry_mem (Table.entry_setRefs_self hentry₂ _)

end Overflow

end FastRpc.StaticMap
