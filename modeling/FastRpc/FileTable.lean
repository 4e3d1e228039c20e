import FastRpc.Transition
import FastRpc.CInt
import Mathlib.Data.List.Nodup
import Mathlib.Data.Option.Basic

/-! # The table of open files

`apps_std` keeps one `apps_std_info` for every file that the remote side has opened, on the list
`apps_std_qlst`.  An entry is named by its node `qn` and holds a handle `fd` and either a C stream or
a buffer with a position.  `apps_std_FILE_alloc` looks for the first gap in the handles, starting its
comparison with the first node itself, `apps_std_FILE_get` looks a handle up and `apps_std_FILE_free`
takes an entry off the list.

Since the scan starts at the first node, a new handle is one more than the first one and the entry
goes to the front: the handles decrease along the list, so they are distinct.  The main result is
`handle_table_correct`: in every run, a handle leads to the stream that was last allocated under it. -/

namespace FastRpc.FileTable

open CInt Transition

/-! ### The entries -/

/-- The errors of the functions on files: codes of their own, or the `errno` of a C call. -/
inductive StdError
  | EBADPARM
  | EFILE
  | ENOMEM
  | EBADF
  | errno
  deriving DecidableEq, Repr

/-- `struct apps_std_buf_info`. -/
structure BufInfo where
  fbuf : Option (List UInt8)
  flen : ℤ
  pos : ℤ
  deriving DecidableEq, Repr

/-- The tag `type` of an entry and the union `u` that it selects. -/
inductive Stream
  | file (stream : ℕ)
  | buf (binfo : BufInfo)
  deriving DecidableEq, Repr

/-- `struct apps_std_info`. -/
structure AppsStdInfo where
  qn : ℕ
  u : Stream
  fd : ℤ
  deriving DecidableEq, Repr

/-- `apps_std_qlst`, and the name of the next node. -/
structure Table where
  qlst : List AppsStdInfo
  next : ℕ
  deriving DecidableEq, Repr

/-- `APPS_FD_BASE`. -/
def appsFdBase : ℤ := 100

/-! ### The operations -/

/-- The loop of `apps_std_FILE_alloc` from a node on: the handle, and the list with the new entry in
the first gap or at the end. -/
def insertInGap (sinfo : ℤ → AppsStdInfo) (prevfd : ℤ) : List AppsStdInfo → ℤ × List AppsStdInfo
  | [] => (wrap (prevfd + 1), [sinfo (wrap (prevfd + 1))])
  | info :: rest =>
      if info.fd ≠ wrap (prevfd + 1) then
        (wrap (prevfd + 1), sinfo (wrap (prevfd + 1)) :: info :: rest)
      else
        let r := insertInGap sinfo info.fd rest
        (r.1, info :: r.2)

/-- `prevfd` when the loop starts. -/
def firstPrevfd : List AppsStdInfo → ℤ
  | [] => appsFdBase - 1
  | info :: _ => info.fd

/-- `apps_std_FILE_alloc`; `mem` is the outcome of its `calloc`. -/
def fileAlloc (t : Table) (stream : ℕ) (mem : Bool) : Except StdError (ℤ × Table) :=
  if mem then
    let r := insertInGap (fun fd => ⟨t.next, .file stream, fd⟩) (firstPrevfd t.qlst) t.qlst
    .ok (r.1, ⟨r.2, t.next + 1⟩)
  else .error .ENOMEM

/-- `apps_std_FILE_get`. -/
def fileGet (t : Table) (fd : ℤ) : Except StdError AppsStdInfo :=
  match t.qlst.find? (fun info => info.fd = fd) with
  | some info => .ok info
  | none => .error .EBADF

/-- `apps_std_FILE_free`. -/
def fileFree (t : Table) (qn : ℕ) : Table :=
  { t with qlst := t.qlst.eraseP (fun info => info.qn = qn) }

/-- A write to the union of an entry through its pointer. -/
def Table.setStream (t : Table) (qn : ℕ) (u : Stream) : Table :=
  { t with qlst := t.qlst.map (fun info => if info.qn = qn then { info with u := u } else info) }

/-- No file is open. -/
def Table.empty : Table := ⟨[], 0⟩

theorem fileGet_eq_ok {t : Table} {fd : ℤ} {info : AppsStdInfo} :
    fileGet t fd = .ok info ↔ t.qlst.find? (fun i => i.fd = fd) = some info := by
  unfold fileGet
  cases t.qlst.find? (fun i => i.fd = fd) <;> simp

theorem fileGet_eq_error {t : Table} {fd : ℤ} {e : StdError} :
    fileGet t fd = .error e ↔ t.qlst.find? (fun i => i.fd = fd) = none ∧ e = .EBADF := by
  unfold fileGet
  cases t.qlst.find? (fun i => i.fd = fd) <;> simp [eq_comm]

theorem fileGet_mem {t : Table} {fd : ℤ} {info : AppsStdInfo} (h : fileGet t fd = .ok info) :
    info ∈ t.qlst ∧ info.fd = fd := by
  have hfind := fileGet_eq_ok.mp h
  exact ⟨List.mem_of_find?_eq_some hfind, by simpa using List.find?_some hfind⟩

/-! ### Lists without repeated keys -/

/-- What is erased was not looked for. -/
theorem find?_eraseP {α : Type} {p q : α → Bool} {l : List α}
    (h : ∀ x ∈ l, p x = true → q x = false) : (l.eraseP p).find? q = l.find? q := by
  induction l with
  | nil => rfl
  | cons x l ih =>
      have hrest := ih (fun y hy => h y (List.mem_cons_of_mem x hy))
      cases hp : p x with
      | true =>
          rw [List.eraseP_cons_of_pos hp, List.find?_cons_of_neg (by simp [h x List.mem_cons_self hp])]
      | false =>
          rw [List.eraseP_cons_of_neg (by simp [hp]), List.find?_cons, List.find?_cons, hrest]

/-- Without the one element that has it, a key is not found. -/
theorem find?_eraseP_eq_none {α β : Type} [DecidableEq β] {key : α → β} {p : α → Bool} {l : List α}
    {a : α} (hnodup : (l.map key).Nodup) (ha : a ∈ l) (hp : ∀ x ∈ l, p x = true ↔ x = a) :
    (l.eraseP p).find? (fun x => key x = key a) = none := by
  induction l with
  | nil => rfl
  | cons x l ih =>
      have hpx := hp x List.mem_cons_self
      rw [List.map_cons, List.nodup_cons] at hnodup
      rcases eq_or_ne x a with rfl | hne
      · rw [List.eraseP_cons_of_pos (hpx.mpr rfl), List.find?_eq_none]
        intro y hy hkey
        exact hnodup.1 (of_decide_eq_true hkey ▸ List.mem_map_of_mem hy)
      · have ha' : a ∈ l := (List.mem_cons.mp ha).resolve_left hne.symm
        have hkey : key x ≠ key a := fun he => hnodup.1 (he ▸ List.mem_map_of_mem ha')
        rw [List.eraseP_cons_of_neg (by simp [hpx, hne]),
          List.find?_cons_of_neg (by simpa using hkey)]
        exact ih hnodup.2 ha' (fun y hy => hp y (List.mem_cons_of_mem x hy))

/-! ### Entries added and taken off -/

/-- Nodes are named once. -/
structure Named (t : Table) : Prop where
  nodes : (t.qlst.map AppsStdInfo.qn).Nodup
  named : ∀ info ∈ t.qlst, info.qn < t.next

section Entries

variable {t t' : Table} {stream : ℕ} {fd : ℤ} {info : AppsStdInfo}

theorem named_empty : Named Table.empty :=
  ⟨List.nodup_nil, fun _ h => absurd h List.not_mem_nil⟩

/-- Entries with one node are one entry. -/
theorem Named.eq_of_qn (h : Named t) {info info' : AppsStdInfo} (hmem : info ∈ t.qlst)
    (hmem' : info' ∈ t.qlst) (hqn : info.qn = info'.qn) : info = info' :=
  List.inj_on_of_nodup_map h.nodes hmem hmem' hqn

theorem insertInGap_perm (sinfo : ℤ → AppsStdInfo) (prevfd : ℤ) (l : List AppsStdInfo) :
    (insertInGap sinfo prevfd l).2.Perm (sinfo (insertInGap sinfo prevfd l).1 :: l) := by
  induction l generalizing prevfd with
  | nil => exact List.Perm.refl _
  | cons info rest ih =>
      unfold insertInGap
      split_ifs
      · exact List.Perm.refl _
      · exact ((ih info.fd).cons info).trans (List.Perm.swap _ _ _)

/-- A successful allocation adds one entry. -/
theorem fileAlloc_perm (h : fileAlloc t stream true = .ok (fd, t')) :
    t'.qlst.Perm (⟨t.next, .file stream, fd⟩ :: t.qlst) ∧ t'.next = t.next + 1 := by
  obtain ⟨rfl, rfl⟩ := Prod.mk.inj (Except.ok.inj h)
  exact ⟨insertInGap_perm _ _ _, rfl⟩

theorem fileAlloc_true (t : Table) (stream : ℕ) :
    ∃ fd t', fileAlloc t stream true = .ok (fd, t') := ⟨_, _, rfl⟩

/-- A free takes one entry off. -/
theorem fileFree_perm (h : Named t) (hmem : info ∈ t.qlst) :
    t.qlst.Perm (info :: (fileFree t info.qn).qlst) := by
  obtain ⟨other, l₁, l₂, _, hqn, hl, herase⟩ :=
    List.exists_of_eraseP (p := fun i => decide (i.qn = info.qn)) hmem (by simp)
  have hother : other ∈ t.qlst := by rw [hl]; simp
  obtain rfl := h.eq_of_qn hother hmem (of_decide_eq_true hqn)
  show t.qlst.Perm (other :: t.qlst.eraseP _)
  rw [herase, hl]
  exact List.perm_middle

theorem named_alloc (h : Named t) (halloc : fileAlloc t stream true = .ok (fd, t')) :
    Named t' := by
  obtain ⟨hperm, hnext⟩ := fileAlloc_perm halloc
  constructor
  · rw [(hperm.map _).nodup_iff, List.map_cons, List.nodup_cons]
    refine ⟨fun hm => ?_, h.nodes⟩
    obtain ⟨info, hinfo, hqn⟩ := List.mem_map.mp hm
    exact absurd (h.named info hinfo) (by simp only at hqn; omega)
  · intro info hinfo
    rcases List.mem_cons.mp (hperm.mem_iff.mp hinfo) with rfl | hinfo
    · simp only; omega
    · have := h.named info hinfo; omega

theorem named_free (h : Named t) (qn : ℕ) : Named (fileFree t qn) where
  nodes := h.nodes.sublist ((List.eraseP_sublist).map _)
  named := fun info hmem => h.named info (List.mem_of_mem_eraseP hmem)

/-- Writes through the pointer of an entry leave the nodes as they are. -/
theorem setStream_qns (t : Table) (qn : ℕ) (u : Stream) :
    (t.setStream qn u).qlst.map AppsStdInfo.qn = t.qlst.map AppsStdInfo.qn := by
  unfold Table.setStream
  rw [List.map_map]
  exact List.map_congr_left (fun info _ => by simp only [Function.comp]; split_ifs <;> rfl)

theorem mem_setStream {qn : ℕ} {u : Stream} (h : info ∈ (t.setStream qn u).qlst) :
    ∃ old ∈ t.qlst, info = if old.qn = qn then { old with u := u } else old := by
  obtain ⟨old, hold, rfl⟩ := List.mem_map.mp h
  exact ⟨old, hold, rfl⟩

theorem named_setStream (h : Named t) (qn : ℕ) (u : Stream) : Named (t.setStream qn u) where
  nodes := setStream_qns t qn u ▸ h.nodes
  named := by
    intro info hmem
    obtain ⟨old, hold, rfl⟩ := mem_setStream hmem
    have := h.named old hold
    split_ifs <;> exact this

end Entries

/-! ### The order of the handles -/

/-- The handles decrease along the list, and nodes are named once. -/
structure Sorted (t : Table) : Prop where
  fds : (t.qlst.map AppsStdInfo.fd).Pairwise (· > ·)
  named : Named t
  range : ∀ info ∈ t.qlst, InRange info.fd

/-- The next handle is an `int`. -/
def NoOverflow (t : Table) : Prop := ∀ info ∈ t.qlst, info.fd < intMax

instance (t : Table) : Decidable (NoOverflow t) := inferInstanceAs (Decidable (∀ _ ∈ _, _))

/-- The handle that the next entry gets. -/
def newFd (t : Table) : ℤ := firstPrevfd t.qlst + 1

section Alloc

variable {t t' : Table} {stream : ℕ} {fd : ℤ} {qn : ℕ} {info : AppsStdInfo}

theorem Sorted.nodup (h : Sorted t) : (t.qlst.map AppsStdInfo.fd).Nodup :=
  h.fds.imp (fun hgt => ne_of_gt hgt)

theorem sorted_empty : Sorted Table.empty :=
  ⟨List.Pairwise.nil, named_empty, fun _ h => absurd h List.not_mem_nil⟩

theorem inRange_newFd (h : Sorted t) (hno : NoOverflow t) : InRange (newFd t) := by
  unfold newFd
  cases hq : t.qlst with
  | nil => decide
  | cons first rest =>
      have hmem : first ∈ t.qlst := hq ▸ List.mem_cons_self
      have hlow := (h.range first hmem).1
      have hhigh := hno first hmem
      simp only [firstPrevfd, InRange]
      constructor <;> omega

/-- The first test of the scan already finds its gap, at the front of the list. -/
theorem insertInGap_eq (h : Sorted t) (hno : NoOverflow t) (sinfo : ℤ → AppsStdInfo) :
    insertInGap sinfo (firstPrevfd t.qlst) t.qlst = (newFd t, sinfo (newFd t) :: t.qlst) := by
  have hwrap : wrap (firstPrevfd t.qlst + 1) = newFd t := wrap_of_inRange (inRange_newFd h hno)
  cases hq : t.qlst with
  | nil => rw [hq] at hwrap; simp only [insertInGap, hwrap]
  | cons first rest =>
      rw [hq] at hwrap
      have hgap : first.fd ≠ newFd t := by
        unfold newFd
        rw [hq]
        exact fun he => by simp only [firstPrevfd] at he; omega
      simp only [insertInGap, hwrap, if_pos hgap]

/-- A new entry goes to the front, with a handle above all the others. -/
theorem fileAlloc_eq (h : Sorted t) (hno : NoOverflow t) (stream : ℕ) :
    fileAlloc t stream true =
      .ok (newFd t, ⟨⟨t.next, .file stream, newFd t⟩ :: t.qlst, t.next + 1⟩) := by
  unfold fileAlloc
  rw [if_pos rfl, insertInGap_eq h hno]

theorem lt_newFd (h : Sorted t) : ∀ info ∈ t.qlst, info.fd < newFd t := by
  intro info hmem
  have hfds := h.fds
  unfold newFd
  cases hq : t.qlst with
  | nil => rw [hq] at hmem; exact absurd hmem List.not_mem_nil
  | cons first rest =>
      rw [hq] at hmem hfds
      unfold firstPrevfd
      rcases List.mem_cons.mp hmem with rfl | hmem
      · exact Int.lt_add_one_of_le le_rfl
      · exact Int.lt_add_one_of_le
          (le_of_lt ((List.pairwise_cons.mp hfds).1 _ (List.mem_map_of_mem hmem)))

theorem sorted_alloc (h : Sorted t) (hno : NoOverflow t)
    (halloc : fileAlloc t stream true = .ok (fd, t')) : Sorted t' := by
  have hnamed := named_alloc h.named halloc
  rw [fileAlloc_eq h hno] at halloc
  obtain ⟨rfl, rfl⟩ := Prod.mk.inj (Except.ok.inj halloc)
  refine ⟨List.pairwise_cons.mpr ⟨?_, h.fds⟩, hnamed, ?_⟩
  · intro fd hfd
    obtain ⟨info, hmem, rfl⟩ := List.mem_map.mp hfd
    exact lt_newFd h info hmem
  · intro info hmem
    rcases List.mem_cons.mp hmem with rfl | hmem
    · exact inRange_newFd h hno
    · exact h.range info hmem

theorem sorted_free (h : Sorted t) (qn : ℕ) : Sorted (fileFree t qn) where
  fds := h.fds.sublist ((List.eraseP_sublist).map _)
  named := named_free h.named qn
  range := fun info hmem => h.range info (List.mem_of_mem_eraseP hmem)

/-- **Freeing an entry leaves the other handles.** -/
theorem fileGet_free_of_ne (h : Sorted t) (hmem : info ∈ t.qlst) (hne : fd ≠ info.fd) :
    fileGet (fileFree t info.qn) fd = fileGet t fd := by
  unfold fileGet fileFree
  simp only
  rw [find?_eraseP]
  intro other hother hqn
  obtain rfl := h.named.eq_of_qn hother hmem (of_decide_eq_true hqn)
  exact decide_eq_false (Ne.symm hne)

/-- A freed handle is not found. -/
theorem fileGet_free (h : Sorted t) (hmem : info ∈ t.qlst) :
    fileGet (fileFree t info.qn) info.fd = .error .EBADF := by
  rw [fileGet_eq_error]
  refine ⟨find?_eraseP_eq_none h.nodup hmem (fun other hother => ?_), rfl⟩
  rw [decide_eq_true_iff]
  exact ⟨fun hqn => h.named.eq_of_qn hother hmem hqn, fun he => he ▸ rfl⟩

end Alloc

/-! ### Runs -/

/-- A change of the table: a handle was given out for a stream, or its entry was freed. -/
inductive Did
  | alloc (fd : ℤ) (stream : ℕ)
  | free (fd : ℤ)
  deriving DecidableEq, Repr

/-- The stream most recently allocated under a handle and not freed since; the newest change is the
first. -/
def lastUnder (fd : ℤ) : List Did → Option ℕ
  | [] => none
  | .alloc fd' stream :: rest => if fd' = fd then some stream else lastUnder fd rest
  | .free fd' :: rest => if fd' = fd then none else lastUnder fd rest

/-- The table and what was done to it. -/
structure World where
  table : Table
  hist : List Did
  deriving DecidableEq, Repr

/-- The operations.  A free is of an entry on the list, named by its node. -/
inductive Op
  | alloc (stream : ℕ) (mem : Bool)
  | free (qn : ℕ)
  | get (fd : ℤ)
  deriving DecidableEq, Repr

/-- One operation. -/
def step (w : World) : Op → Option World
  | .alloc stream mem =>
      match fileAlloc w.table stream mem with
      | .ok (fd, t) => some ⟨t, .alloc fd stream :: w.hist⟩
      | .error _ => some w
  | .free qn =>
      (w.table.qlst.find? (fun info => info.qn = qn)).map (fun info =>
        ⟨fileFree w.table qn, .free info.fd :: w.hist⟩)
  | .get _ => some w

/-- No file was ever opened. -/
def init : World := ⟨Table.empty, []⟩

/-- The handle of an allocation does not overflow. -/
def FitsInt (w : World) : Op → Prop
  | .alloc _ _ => NoOverflow w.table
  | .free _ | .get _ => True

instance (w : World) : (op : Op) → Decidable (FitsInt w op)
  | .alloc _ _ => inferInstanceAs (Decidable (NoOverflow w.table))
  | .free _ | .get _ => isTrue trivial

/-- A lookup agrees with the history. -/
def Agrees (t : Table) (hist : List Did) (fd : ℤ) : Prop :=
  match lastUnder fd hist with
  | some stream => ∃ info, fileGet t fd = .ok info ∧ info.u = .file stream
  | none => fileGet t fd = .error .EBADF

/-- The invariant of the runs. -/
structure Inv (w : World) : Prop where
  sorted : Sorted w.table
  agrees : ∀ fd, Agrees w.table w.hist fd

theorem inv_init : Inv init := ⟨sorted_empty, fun _ => rfl⟩

theorem inv_step (w : World) (op : Op) (w' : World) (h : Inv w) (hfits : FitsInt w op)
    (hstep : step w op = some w') : Inv w' := by
  cases op with
  | get fd => exact Option.some.inj hstep ▸ h
  | alloc stream mem =>
      cases mem with
      | false => exact Option.some.inj hstep ▸ h
      | true =>
          have halloc := fileAlloc_eq h.sorted hfits stream
          simp only [step, halloc, Option.some.injEq] at hstep
          subst hstep
          refine ⟨sorted_alloc h.sorted hfits halloc, fun fd => ?_⟩
          rcases eq_or_ne (newFd w.table) fd with rfl | hne
          · simp [Agrees, lastUnder, fileGet]
          · have hold := h.agrees fd
            unfold Agrees fileGet at hold ⊢
            simpa only [lastUnder, if_neg hne, List.find?_cons, decide_eq_false hne] using hold
  | free qn =>
      obtain ⟨info, hfind, rfl⟩ := Option.map_eq_some_iff.mp hstep
      have hmem := List.mem_of_find?_eq_some hfind
      have hqn : info.qn = qn := by simpa using List.find?_some hfind
      subst hqn
      refine ⟨sorted_free h.sorted info.qn, fun fd => ?_⟩
      rcases eq_or_ne info.fd fd with rfl | hne
      · simp only [Agrees, lastUnder, if_pos]
        exact fileGet_free h.sorted hmem
      · have hold := h.agrees fd
        unfold Agrees at hold ⊢
        rw [fileGet_free_of_ne h.sorted hmem hne.symm]
        simpa only [lastUnder, if_neg hne] using hold

/-- **The table of handles is correct.** In every run whose handles do not overflow, the handles on
the list are distinct, a lookup of a handle gives the stream most recently allocated under it and
fails for every other handle, and freeing an entry changes the lookup of no other handle. -/
theorem handle_table_correct {ops : List Op} {w : World} (hrun : run step init ops = some w)
    (hfits : Guarded step FitsInt init ops) :
    (w.table.qlst.map AppsStdInfo.fd).Nodup ∧
      (∀ fd, match lastUnder fd w.hist with
        | some stream => ∃ info, fileGet w.table fd = .ok info ∧ info.u = .file stream
        | none => fileGet w.table fd = .error .EBADF) ∧
      ∀ info ∈ w.table.qlst, ∀ fd, fd ≠ info.fd →
        fileGet (fileFree w.table info.qn) fd = fileGet w.table fd := by
  have h : Inv w := guarded_invariant inv_step inv_init hfits hrun
  exact ⟨h.sorted.nodup, h.agrees, fun info hmem fd hne => fileGet_free_of_ne h.sorted hmem hne⟩

/-- Three opens, the second one closed, and a fourth open, whose handle follows the first of the
list. -/
def someOps : List Op := [.alloc 7 true, .alloc 8 true, .alloc 9 true, .free 1, .alloc 5 true]

theorem handle_table_correct_someOps :
    ∃ w, run step init someOps = some w ∧ w.table.qlst.map AppsStdInfo.fd = [103, 102, 100] ∧
      (w.table.qlst.map AppsStdInfo.fd).Nodup ∧
      ∀ fd, match lastUnder fd w.hist with
        | some stream => ∃ info, fileGet w.table fd = .ok info ∧ info.u = .file stream
        | none => fileGet w.table fd = .error .EBADF := by
  have hview : (run step init someOps).map (fun w => w.table.qlst.map AppsStdInfo.fd) =
      some [103, 102, 100] := by decide +kernel
  obtain ⟨w, hrun, hfds⟩ := Option.map_eq_some_iff.mp hview
  have h := handle_table_correct hrun (by decide +kernel)
  exact ⟨w, hrun, hfds, h.1, h.2.1⟩

end FastRpc.FileTable
