import Mathlib.Data.Int.ConditionallyCompleteOrder
import Mathlib.Data.Int.Interval
import FastRpc.FileTable

/-! # The handles of files over a long run

`apps_std_FILE_alloc` looks for the first gap in the handles, but starts with the first entry of the
list, which has the highest handle: a new handle is one more than that of the newest open file.  So a
handle that a close has freed is given out again only after everything above it has been closed.

`handles_reused` says when a new handle is the least one that is not in use: when the handle of the
newest open file counts the open files, that is, when no file before it has been closed. -/

namespace FastRpc.HandleReuse

open CInt Transition FileTable

/-! ### What is claimed of a handle -/

/-- The handles in use. -/
def handles (t : Table) : List ℤ := t.qlst.map AppsStdInfo.fd

/-- A new handle is the least one that is not in use. -/
def Reuses (w : World) : Op → Prop
  | .alloc stream mem => ∀ fd t, fileAlloc w.table stream mem = .ok (fd, t) →
      IsLeast {h | appsFdBase ≤ h ∧ h ∉ handles w.table} fd
  | .free _ | .get _ => True

/-- The files that are open after some changes, the newest one first. -/
def openCount : List Did → ℕ
  | [] => 0
  | .alloc _ _ :: rest => openCount rest + 1
  | .free _ :: rest => openCount rest - 1

/-- The largest number of files open at once. -/
def peakOpen : List Did → ℕ
  | [] => 0
  | d :: rest => max (openCount (d :: rest)) (peakOpen rest)

/-- The handle of the newest open file counts the open files, and the next one is an `int`. -/
def CountsOpen (t : Table) : Prop :=
  firstPrevfd t.qlst = appsFdBase - 1 + t.qlst.length ∧ firstPrevfd t.qlst < intMax

instance (t : Table) : Decidable (CountsOpen t) := inferInstanceAs (Decidable (_ ∧ _))

/-- The condition on a step. -/
def InOrder (w : World) : Op → Prop
  | .alloc _ mem => mem = true → CountsOpen w.table
  | .free _ | .get _ => True

instance (w : World) : (op : Op) → Decidable (InOrder w op)
  | .alloc _ mem => inferInstanceAs (Decidable (mem = true → CountsOpen w.table))
  | .free _ | .get _ => isTrue trivial

/-! ### One allocation -/

/-- The handles decrease along the list, down to `APPS_FD_BASE` at the most. -/
structure Based (t : Table) : Prop where
  sorted : Sorted t
  base : ∀ info ∈ t.qlst, appsFdBase ≤ info.fd

section Alloc

variable {t t' : Table} {stream : ℕ} {fd : ℤ}

theorem based_empty : Based Table.empty := ⟨sorted_empty, fun _ h => absurd h List.not_mem_nil⟩

theorem handles_length (t : Table) : (handles t).length = t.qlst.length := List.length_map _

/-- The handles lie from the base up to that of the newest file. -/
theorem handles_subset (h : Based t) :
    (handles t).toFinset ⊆ Finset.Ico appsFdBase (newFd t) := by
  intro fd hfd
  obtain ⟨info, hmem, rfl⟩ := List.mem_map.mp (List.mem_toFinset.mp hfd)
  exact Finset.mem_Ico.mpr ⟨h.base info hmem, lt_newFd h.sorted info hmem⟩

theorem card_handles (h : Based t) : (handles t).toFinset.card = t.qlst.length := by
  have hnodup : (handles t).Nodup := h.sorted.nodup
  rw [List.toFinset_card_of_nodup hnodup, handles_length]

theorem base_le_newFd (h : Based t) : appsFdBase ≤ newFd t := by
  cases hq : t.qlst with
  | nil => simp [newFd, hq, firstPrevfd]
  | cons first rest =>
      have hmem : first ∈ t.qlst := hq ▸ List.mem_cons_self
      exact (h.base first hmem).trans (lt_newFd h.sorted first hmem).le

theorem noOverflow_of_lt (h : Based t) (hlt : firstPrevfd t.qlst < intMax) : NoOverflow t := by
  intro info hmem
  have hnew := lt_newFd h.sorted info hmem
  unfold newFd at hnew
  omega

theorem firstPrevfd_le (h : Based t) : firstPrevfd t.qlst ≤ intMax := by
  cases hq : t.qlst with
  | nil => decide
  | cons first rest => exact (h.sorted.range first (hq ▸ List.mem_cons_self)).2

/-- Nothing is free below the newest handle exactly when the handles are as many. -/
theorem isLeast_newFd_iff (h : Based t) :
    IsLeast {fd | appsFdBase ≤ fd ∧ fd ∉ handles t} (newFd t) ↔
      firstPrevfd t.qlst = appsFdBase - 1 + t.qlst.length := by
  have hsub := handles_subset h
  have hcard := card_handles h
  have hinterval : (Finset.Ico appsFdBase (newFd t)).card = (newFd t - appsFdBase).toNat := Int.card_Ico _ _
  have hbase := base_le_newFd h
  constructor
  · rintro ⟨_, hleast⟩
    have hall : Finset.Ico appsFdBase (newFd t) ⊆ (handles t).toFinset := by
      intro fd hfd
      obtain ⟨hlow, hhigh⟩ := Finset.mem_Ico.mp hfd
      rw [List.mem_toFinset]
      by_contra hfree
      exact absurd (hleast ⟨hlow, hfree⟩) (not_le.mpr hhigh)
    have heq := congrArg Finset.card (Finset.Subset.antisymm hsub hall)
    rw [hcard, hinterval] at heq
    unfold newFd at heq hbase
    omega
  · intro hcount
    have heq : (handles t).toFinset = Finset.Ico appsFdBase (newFd t) := by
      refine Finset.eq_of_subset_of_card_le hsub ?_
      rw [hcard, hinterval]
      unfold newFd
      omega
    refine ⟨⟨hbase, fun hmem => ?_⟩, fun fd hfd => ?_⟩
    · exact absurd (Finset.mem_Ico.mp (hsub (List.mem_toFinset.mpr hmem))).2 (lt_irrefl _)
    · by_contra hlt
      refine hfd.2 (List.mem_toFinset.mp (heq ▸ Finset.mem_Ico.mpr ⟨hfd.1, not_le.mp hlt⟩))

/-- The scan stops at the first entry, also when the next handle wraps around. -/
theorem fileAlloc_fd (h : Based t) (halloc : fileAlloc t stream true = .ok (fd, t')) :
    fd = wrap (newFd t) := by
  obtain ⟨rfl, -⟩ := Prod.mk.inj (Except.ok.inj halloc)
  unfold newFd
  cases hq : t.qlst with
  | nil => rfl
  | cons first rest =>
      have hrange := h.sorted.range first (hq ▸ List.mem_cons_self)
      have hgap : first.fd ≠ wrap (first.fd + 1) := by
        rcases hrange.2.lt_or_eq with hlt | hmax
        · rw [wrap_of_inRange ⟨by have := hrange.1; omega, by omega⟩]
          omega
        · rw [hmax]
          decide
      rw [firstPrevfd, insertInGap, if_pos hgap]

/-- **An allocation gives the least free handle** exactly when the newest handle counts the open files. -/
theorem reuses_iff (h : Based t) :
    (∀ fd t', fileAlloc t stream true = .ok (fd, t') → IsLeast {h | appsFdBase ≤ h ∧ h ∉ handles t} fd) ↔
      CountsOpen t := by
  constructor
  · intro hleast
    obtain ⟨fd, t', halloc⟩ := fileAlloc_true t stream
    have hfd := fileAlloc_fd h halloc
    have hlt : firstPrevfd t.qlst < intMax := by
      refine lt_of_le_of_ne (firstPrevfd_le h) fun hmax => ?_
      -- the next handle is the least `int`
      have hlow := (hleast fd t' halloc).1.1
      rw [hfd, newFd, hmax] at hlow
      exact absurd hlow (by decide)
    have hnew : wrap (newFd t) = newFd t :=
      wrap_of_inRange (inRange_newFd h.sorted (noOverflow_of_lt h hlt))
    exact ⟨(isLeast_newFd_iff h).mp (hnew ▸ hfd ▸ hleast fd t' halloc), hlt⟩
  · rintro ⟨hcount, hlt⟩ fd t' halloc
    have heq := fileAlloc_eq h.sorted (noOverflow_of_lt h hlt) stream
    obtain ⟨rfl, -⟩ := Prod.mk.inj (Except.ok.inj (heq.symm.trans halloc))
    exact (isLeast_newFd_iff h).mpr hcount

end Alloc

/-! ### Runs -/

/-- The invariant of the runs that meet the condition. -/
structure Inv (w : World) : Prop where
  based : Based w.table
  open_files : openCount w.hist = w.table.qlst.length
  bounded : ∀ fd stream, .alloc fd stream ∈ w.hist → appsFdBase ≤ fd ∧ fd < appsFdBase + peakOpen w.hist

theorem inv_init : Inv init := ⟨based_empty, rfl, fun _ _ h => absurd h List.not_mem_nil⟩

theorem le_peakOpen (hist : List Did) : openCount hist ≤ peakOpen hist := by
  cases hist with
  | nil => exact le_rfl
  | cons d rest => exact le_max_left _ _

theorem peakOpen_mono (d : Did) (rest : List Did) : peakOpen rest ≤ peakOpen (d :: rest) := le_max_right _ _

theorem inv_step (w : World) (op : Op) (w' : World) (h : Inv w) (hok : InOrder w op)
    (hstep : step w op = some w') : Inv w' := by
  cases op with
  | get fd => exact Option.some.inj hstep ▸ h
  | alloc stream mem =>
      cases mem with
      | false => exact Option.some.inj hstep ▸ h
      | true =>
          obtain ⟨hcount, hlt⟩ := hok rfl
          have hno := noOverflow_of_lt h.based hlt
          have halloc := fileAlloc_eq h.based.sorted hno stream
          simp only [step, halloc, Option.some.injEq] at hstep
          subst hstep
          have hopen : openCount (.alloc (newFd w.table) stream :: w.hist) = w.table.qlst.length + 1 :=
            congrArg (· + 1) h.open_files
          refine ⟨⟨sorted_alloc h.based.sorted hno halloc, ?_⟩, hopen, ?_⟩
          · intro info hmem
            rcases List.mem_cons.mp hmem with rfl | hmem
            · exact base_le_newFd h.based
            · exact h.based.base info hmem
          · intro fd other hmem
            rcases List.mem_cons.mp hmem with heq | hmem
            · obtain ⟨rfl, -⟩ := Did.alloc.inj heq
              have hpeak := le_peakOpen (.alloc (newFd w.table) stream :: w.hist)
              have hnew : newFd w.table = firstPrevfd w.table.qlst + 1 := rfl
              refine ⟨base_le_newFd h.based, ?_⟩
              rw [hopen] at hpeak
              dsimp only
              omega
            · have hold := h.bounded fd other hmem
              have hmono := peakOpen_mono (.alloc (newFd w.table) stream) w.hist
              dsimp only
              omega
  | free qn =>
      obtain ⟨info, hfind, rfl⟩ := Option.map_eq_some_iff.mp hstep
      have hmem := List.mem_of_find?_eq_some hfind
      have hqn : info.qn = qn := by simpa using List.find?_some hfind
      subst hqn
      have hlength := (fileFree_perm h.based.sorted.named hmem).length_eq
      refine ⟨⟨sorted_free h.based.sorted info.qn, fun other hother =>
        h.based.base other (List.mem_of_mem_eraseP hother)⟩, ?_, fun fd stream hmem => ?_⟩
      · rw [openCount, h.open_files, hlength, List.length_cons, Nat.add_sub_cancel]
      · have hold := h.bounded fd stream ((List.mem_cons.mp hmem).resolve_left (by simp))
        have hmono := peakOpen_mono (.free info.fd) w.hist
        dsimp only
        omega

theorem reuses_iff_inOrder (w : World) (op : Op) (h : Inv w) : Reuses w op ↔ InOrder w op := by
  cases op with
  | free qn => exact Iff.rfl
  | get fd => exact Iff.rfl
  | alloc stream mem =>
      cases mem with
      | false => exact ⟨fun _ => nofun, fun _ _ _ halloc => nomatch halloc⟩
      | true => exact (reuses_iff h.based).trans ⟨fun hcount _ => hcount, fun hok => hok rfl⟩

/-- **When handles are reused**: every allocation of a run gives the least handle that is not in use
exactly when at each of them the handle of the newest open file counts the open files; and then all the
handles stay below the base and the largest number of files open at once. -/
theorem handles_reused (ops : List Op) :
    (Guarded step Reuses init ops ↔ Guarded step InOrder init ops) ∧
      (Guarded step InOrder init ops → ∀ w, run step init ops = some w →
        ∀ fd stream, .alloc fd stream ∈ w.hist → appsFdBase ≤ fd ∧ fd < appsFdBase + peakOpen w.hist) := by
  refine ⟨(guarded_congr inv_step (fun w op h => (reuses_iff_inOrder w op h).symm) inv_init).symm, ?_⟩
  intro hguard w hrun
  exact (guarded_invariant inv_step inv_init hguard hrun).bounded

/-- Three opens, the last two closed, and another one. -/
def nestedOps : List Op := [.alloc 7 true, .alloc 8 true, .alloc 9 true, .free 1, .free 2, .alloc 5 true]

theorem handles_reused_nestedOps :
    Guarded step Reuses init nestedOps ∧ ∃ w, run step init nestedOps = some w ∧
      handles w.table = [101, 100] ∧
      ∀ fd stream, .alloc fd stream ∈ w.hist → appsFdBase ≤ fd ∧ fd < appsFdBase + 3 := by
  have hok : Guarded step InOrder init nestedOps := by decide +kernel
  have hview : (run step init nestedOps).map (fun w => (handles w.table, peakOpen w.hist)) =
      some ([101, 100], 3) := by decide +kernel
  obtain ⟨w, hrun, hfds⟩ := Option.map_eq_some_iff.mp hview
  obtain ⟨hhandles, hpeak⟩ := Prod.mk.inj hfds
  have h := handles_reused nestedOps
  refine ⟨h.1.mpr hok, w, hrun, hhandles, ?_⟩
  have hbound := h.2 hok w hrun
  rwa [hpeak] at hbound

/-- Two opens, the first one closed, and a third one: handle `100` is free, and `102` is given out with
two files open at the most. -/
def skippingOps : List Op := [.alloc 7 true, .alloc 8 true, .free 0, .alloc 9 true]

theorem freed_handle_skipped :
    ¬ Guarded step Reuses init skippingOps ∧ ∃ w, run step init skippingOps = some w ∧
      .alloc 102 9 ∈ w.hist ∧ peakOpen w.hist = 2 := by
  constructor
  · intro h
    have hleast := ((((h.2 _ rfl).2 _ rfl).2 _ rfl).1 102 _ rfl).2
    exact absurd (@hleast 100 ⟨by decide, by decide⟩) (by decide)
  · exact ⟨_, rfl, by decide +kernel, by decide +kernel⟩

end FastRpc.HandleReuse
