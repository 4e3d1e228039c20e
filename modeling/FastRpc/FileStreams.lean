import FastRpc.BlockHeap
import FastRpc.FileTable
import Mathlib.Data.List.Count

/-! # The owner of a C stream

`apps_std_fopen`, `apps_std_freopen` and `apps_std_fclose` open, reopen and close C streams and keep
their entries in the table of open files.  A stream is a block of a heap: `fopen` allocates it,
`fclose` frees it whatever it returns, and so does a `freopen` that fails.

An open stream should have one entry, and a handle should end with its stream.  Three exits miss
this: an opened stream whose entry is not allocated has no owner, a reopened one is entered a second
time while its old entry stays (`reopened_twice`), and a failing `fclose` or `freopen` leaves the
entry of a closed stream.  `one_owner_iff` says that these are all. -/

namespace FastRpc.FileStreams

open BlockHeap Transition FileTable

/-! ### The calls -/

/-- The table, the C streams, and the handles that gave up a stream. -/
structure Files where
  table : Table
  streams : Heap Unit
  ended : List (ℤ × ℕ)

/-- No file was ever opened. -/
def init : Files := ⟨Table.empty, Heap.empty (), []⟩

/-- The stream of an entry. -/
def fileOf : Stream → Option ℕ
  | .file stream => some stream
  | .buf _ => none

/-- `return apps_std_FILE_alloc(stream, psout)`. -/
def enter (s : Files) (stream : ℕ) (mem : Bool) : Except StdError ℤ × Files :=
  match fileAlloc s.table stream mem with
  | .ok (fd, table) => (.ok fd, { s with table := table })
  | .error e => (.error e, s)

/-- `apps_std_fopen`, when `name` says that there is a name, `opened` is the outcome of `fopen` and
`mem` that of the allocation of the entry. -/
def fopen (s : Files) (name opened mem : Bool) : Except StdError ℤ × Files :=
  if !name then (.error .EBADPARM, s)
  else if opened then enter { s with streams := s.streams.alloc () } s.streams.next mem
  else (.error .errno, s)

/-- `apps_std_freopen`.  `freopen` closes the stream when it fails. -/
def freopen (s : Files) (sin : ℤ) (name reopened mem : Bool) : Except StdError ℤ × Files :=
  if !name then (.error .EBADPARM, s)
  else match fileGet s.table sin with
    | .error e => (.error e, s)
    | .ok sinfo =>
        match sinfo.u with
        | .buf _ => (.error .EBADF, s)
        | .file stream =>
            if reopened then
              let r := enter { s with streams := s.streams.touch stream } stream mem
              match r.1 with
              | .ok _ => (r.1, { r.2 with ended := (sin, stream) :: r.2.ended })
              | .error _ => r
            else (.error .errno, { s with streams := s.streams.free stream })

/-- `apps_std_fclose`, when `closed` says that `fclose` returns 0. -/
def fclose (s : Files) (sin : ℤ) (closed : Bool) : Except StdError Unit × Files :=
  match fileGet s.table sin with
  | .error e => (.error e, s)
  | .ok sinfo =>
      match sinfo.u with
      | .file stream =>
          let s' := { s with
            streams := s.streams.free stream, ended := (sin, stream) :: s.ended }
          if closed then (.ok (), { s' with table := fileFree s.table sinfo.qn })
          else (.error .errno, s')
      | .buf _ => (.ok (), { s with table := fileFree s.table sinfo.qn })

/-- A call with the outcomes of the C calls and of the allocation in it. -/
inductive Call
  | fopen (name opened mem : Bool)
  | freopen (sin : ℤ) (name reopened mem : Bool)
  | fclose (sin : ℤ) (closed : Bool)
  deriving DecidableEq, Repr

/-- One call. -/
def step (s : Files) : Call → Option Files
  | .fopen name opened mem => some (fopen s name opened mem).2
  | .freopen sin name reopened mem => some (freopen s sin name reopened mem).2
  | .fclose sin closed => some (fclose s sin closed).2

/-! ### The property and the condition -/

/-- The streams of the entries. -/
def owned (t : Table) : List ℕ := t.qlst.filterMap (fun info => fileOf info.u)

/-- The stream that a handle leads to. -/
def streamAt (t : Table) (fd : ℤ) : Option ℕ :=
  match fileGet t fd with
  | .ok info => fileOf info.u
  | .error _ => none

/-- Every open stream belongs to one entry, no stream is closed twice or used after it was closed,
and a handle that gave up a stream does not lead to it. -/
def OneOwner (s : Files) : Prop :=
  (∀ stream, s.streams.Live stream → (owned s.table).count stream = 1) ∧ s.streams.Clean ∧
    ∀ e ∈ s.ended, streamAt s.table e.1 ≠ some e.2

/-- An opened stream gets its entry, a reopened one gets no second entry, closing succeeds, and a
handle whose stream a failed `freopen` has closed is not named again. -/
def Orderly (s : Files) : Call → Prop
  | .fopen name opened mem => name = true → opened = true → mem = true
  | .freopen sin name reopened mem =>
      name = true → ∀ stream ∈ streamAt s.table sin,
        stream ∉ s.streams.freed ∧ ¬ (reopened = true ∧ mem = true)
  | .fclose sin closed =>
      ∀ stream ∈ streamAt s.table sin, stream ∉ s.streams.freed ∧ closed = true

instance (s : Files) : (c : Call) → Decidable (Orderly s c)
  | .fopen _ _ _ => inferInstanceAs (Decidable (_ → _))
  | .freopen _ _ _ _ => inferInstanceAs (Decidable (_ → _))
  | .fclose _ _ => inferInstanceAs (Decidable (∀ _ ∈ _, _))

/-! ### Entries added and taken off -/

section Entries

variable {t t' : Table} {stream : ℕ} {fd : ℤ} {info : AppsStdInfo}

theorem streamAt_eq_some : streamAt t fd = some stream ↔
    ∃ info, fileGet t fd = .ok info ∧ info.u = .file stream := by
  unfold streamAt
  cases fileGet t fd with
  | error e => simp
  | ok info => cases hu : info.u <;> simp [fileOf, hu]

theorem mem_owned : stream ∈ owned t ↔ ∃ info ∈ t.qlst, info.u = .file stream := by
  unfold owned
  rw [List.mem_filterMap]
  refine exists_congr fun info => and_congr_right fun _ => ?_
  cases info.u <;> simp [fileOf]

theorem streamAt_mem_owned (h : streamAt t fd = some stream) : stream ∈ owned t := by
  obtain ⟨info, hget, hu⟩ := streamAt_eq_some.mp h
  exact mem_owned.mpr ⟨info, (fileGet_mem hget).1, hu⟩

end Entries

/-! ### The invariant -/

/-- The open streams are those of the entries, but for the ones that a failed `freopen` closed. -/
structure Inv (s : Files) : Prop where
  named : Named s.table
  once : (owned s.table).Nodup
  live : ∀ stream, s.streams.Live stream → stream ∈ owned s.table
  born : ∀ stream ∈ owned s.table, stream < s.streams.next
  clean : s.streams.Clean
  freed : ∀ stream ∈ s.streams.freed, stream < s.streams.next
  ended : ∀ e ∈ s.ended, e.2 ∉ owned s.table ∧ e.2 < s.streams.next

theorem inv_init : Inv init :=
  ⟨named_empty, List.nodup_nil,
    fun _ h => absurd h.1 (Nat.not_lt_zero _), fun _ h => absurd h List.not_mem_nil,
    Heap.clean_empty (), fun _ h => absurd h List.not_mem_nil, fun _ h => absurd h List.not_mem_nil⟩

theorem Inv.oneOwner {s : Files} (h : Inv s) : OneOwner s :=
  ⟨fun stream hlive => List.count_eq_one_of_mem h.once (h.live stream hlive), h.clean,
    fun e he hat => (h.ended e he).1 (streamAt_mem_owned hat)⟩

section Steps

variable {s t : Files} {sin : ℤ} {stream : ℕ} {info : AppsStdInfo}

/-- A new stream gets its entry. -/
theorem inv_fopen (h : Inv s) : Inv (fopen s true true true).2 := by
  obtain ⟨fd, t', halloc⟩ := fileAlloc_true s.table s.streams.next
  obtain ⟨hperm, _⟩ := fileAlloc_perm halloc
  have howned : (owned t').Perm (s.streams.next :: owned s.table) := hperm.filterMap _
  have hfresh : s.streams.next ∉ owned s.table := fun hm => absurd (h.born _ hm) (lt_irrefl _)
  simp only [fopen, enter, Bool.not_true, Bool.false_eq_true, if_false, if_true, halloc]
  refine ⟨named_alloc h.named halloc, ?_, ?_, ?_, ?_, ?_, ?_⟩
  · exact howned.nodup_iff.mpr (List.nodup_cons.mpr ⟨hfresh, h.once⟩)
  · intro stream hlive
    refine howned.mem_iff.mpr (List.mem_cons.mpr ?_)
    rcases eq_or_ne stream s.streams.next with rfl | hne
    · exact Or.inl rfl
    · have hlt : stream < s.streams.next + 1 := hlive.1
      exact Or.inr (h.live stream ⟨by omega, hlive.2⟩)
  · intro stream hm
    show stream < s.streams.next + 1
    rcases List.mem_cons.mp (howned.mem_iff.mp hm) with rfl | hm
    · exact Nat.lt_succ_self _
    · exact Nat.lt_succ_of_lt (h.born stream hm)
  · exact h.clean.alloc ()
  · exact fun stream hm => Nat.lt_succ_of_lt (h.freed stream hm)
  · intro e he
    have hold := h.ended e he
    refine ⟨fun hm => ?_, Nat.lt_succ_of_lt hold.2⟩
    rcases List.mem_cons.mp (howned.mem_iff.mp hm) with heq | hm
    · exact absurd hold.2 (by omega)
    · exact hold.1 hm

/-- The stream of an entry that was never closed is open. -/
theorem Inv.live_of_owned (h : Inv s) (hm : stream ∈ owned s.table)
    (hopen : stream ∉ s.streams.freed) : s.streams.Live stream := ⟨h.born stream hm, hopen⟩

/-- What is freed then was allocated. -/
theorem Inv.freed_free (h : Inv s) (hm : stream ∈ owned s.table) :
    ∀ other ∈ (s.streams.free stream).freed, other < s.streams.next := by
  intro other hother
  rcases List.mem_append.mp hother with hother | hother
  · exact h.freed other hother
  · exact List.mem_singleton.mp hother ▸ h.born stream hm

/-- A failing `freopen` closes the stream; the entry keeps it. -/
theorem inv_closed (h : Inv s) (hm : stream ∈ owned s.table) (hopen : stream ∉ s.streams.freed) :
    Inv { s with streams := s.streams.free stream } where
  named := h.named
  once := h.once
  live := fun other hlive => h.live other
    ⟨hlive.1, fun hfreed => hlive.2 (List.mem_append_left _ hfreed)⟩
  born := h.born
  clean := h.clean.freeAll (List.nodup_singleton _)
    (fun _ hn => List.mem_singleton.mp hn ▸ h.live_of_owned hm hopen)
  freed := h.freed_free hm
  ended := h.ended

/-- A stream is closed and its entry freed. -/
theorem inv_fclose (h : Inv s) (hmem : info ∈ s.table.qlst) (hu : info.u = .file stream)
    (hopen : stream ∉ s.streams.freed) (fd : ℤ) :
    Inv { s with
      streams := s.streams.free stream
      ended := (fd, stream) :: s.ended
      table := fileFree s.table info.qn } := by
  have hm : stream ∈ owned s.table := mem_owned.mpr ⟨info, hmem, hu⟩
  have hperm := fileFree_perm h.named hmem
  have howned : (owned s.table).Perm (stream :: owned (fileFree s.table info.qn)) := by
    have := hperm.filterMap (fun i => fileOf i.u)
    rwa [List.filterMap_cons, show fileOf info.u = some stream by rw [hu]; rfl] at this
  have honce := List.nodup_cons.mp (howned.nodup_iff.mp h.once)
  have hsub : ∀ other, other ∈ owned (fileFree s.table info.qn) → other ∈ owned s.table :=
    fun other ho => howned.mem_iff.mpr (List.mem_cons_of_mem _ ho)
  refine ⟨named_free h.named info.qn, honce.2, ?_, ?_, ?_, h.freed_free hm, ?_⟩
  · intro other hlive
    have hne : other ≠ stream := fun he => hlive.2 (he ▸ List.mem_append_right _ (by simp))
    have hold := h.live other
      ⟨hlive.1, fun hfreed => hlive.2 (List.mem_append_left _ hfreed)⟩
    exact (List.mem_cons.mp (howned.mem_iff.mp hold)).resolve_left hne
  · exact fun other ho => h.born other (hsub other ho)
  · exact h.clean.freeAll (List.nodup_singleton _)
      (fun _ hn => List.mem_singleton.mp hn ▸ h.live_of_owned hm hopen)
  · intro e he
    rcases List.mem_cons.mp he with rfl | he
    · exact ⟨honce.1, h.born stream hm⟩
    · exact ⟨fun ho => (h.ended e he).1 (hsub e.2 ho), (h.ended e he).2⟩

end Steps

/-! ### Runs -/

section Runs

variable {s t : Files} {sin : ℤ} {stream : ℕ} {info : AppsStdInfo} {e : StdError}

/-- What `apps_std_freopen` and `apps_std_fclose` find for a handle. -/
inductive Found (s : Files) (sin : ℤ) : Prop
  | none (e : StdError) (hget : fileGet s.table sin = .error e)
  | buf (info : AppsStdInfo) (binfo : BufInfo) (hget : fileGet s.table sin = .ok info)
      (hu : info.u = .buf binfo)
  | file (info : AppsStdInfo) (stream : ℕ) (hget : fileGet s.table sin = .ok info)
      (hu : info.u = .file stream) (hmem : info ∈ s.table.qlst)
      (hat : streamAt s.table sin = some stream)

theorem found (s : Files) (sin : ℤ) : Found s sin := by
  cases hget : fileGet s.table sin with
  | error e => exact Found.none e hget
  | ok info =>
      cases hu : info.u with
      | buf binfo => exact Found.buf info binfo hget hu
      | file stream =>
          exact Found.file info stream hget hu (fileGet_mem hget).1
            (streamAt_eq_some.mpr ⟨info, hget, hu⟩)

theorem freopen_file (hget : fileGet s.table sin = .ok info) (hu : info.u = .file stream)
    (mem : Bool) :
    (freopen s sin true true mem).2 =
      match fileAlloc s.table stream mem with
      | .ok (_, table) =>
          ⟨table, s.streams.touch stream, (sin, stream) :: s.ended⟩
      | .error _ => { s with streams := s.streams.touch stream } := by
  simp only [freopen, hget, hu, enter]
  cases fileAlloc s.table stream mem <;> rfl

theorem freopen_fails (hget : fileGet s.table sin = .ok info) (hu : info.u = .file stream)
    (mem : Bool) :
    (freopen s sin true false mem).2 = { s with streams := s.streams.free stream } := by
  simp [freopen, hget, hu]

theorem fclose_file (hget : fileGet s.table sin = .ok info) (hu : info.u = .file stream) :
    (fclose s sin true).2 = { s with
      streams := s.streams.free stream
      ended := (sin, stream) :: s.ended
      table := fileFree s.table info.qn } := by
  simp [fclose, hget, hu]

theorem fclose_fails (hget : fileGet s.table sin = .ok info) (hu : info.u = .file stream) :
    (fclose s sin false).2 = { s with
      streams := s.streams.free stream, ended := (sin, stream) :: s.ended } := by
  simp [fclose, hget, hu]

theorem freopen_not_file (h : streamAt s.table sin = none) (name reopened mem : Bool) :
    (freopen s sin name reopened mem).2 = s := by
  cases name with
  | false => rfl
  | true =>
      cases found s sin with
      | none e hget => simp [freopen, hget]
      | buf info binfo hget hu => simp [freopen, hget, hu]
      | file info stream hget hu hmem hat => exact absurd (hat.symm.trans h) (by simp)

theorem inv_step (s : Files) (c : Call) (t : Files) (h : Inv s) (hC : Orderly s c)
    (hstep : step s c = some t) : Inv t := by
  cases c with
  | fopen name opened mem =>
      obtain rfl := Option.some.inj hstep
      cases name with
      | false => exact h
      | true =>
          cases opened with
          | false => exact h
          | true =>
              obtain rfl := hC rfl rfl
              exact inv_fopen h
  | freopen sin name reopened mem =>
      obtain rfl := Option.some.inj hstep
      cases name with
      | false => exact h
      | true =>
          cases found s sin with
          | none e hget => rw [freopen_not_file (by simp [streamAt, hget])]; exact h
          | buf info binfo hget hu =>
              rw [freopen_not_file (by simp [streamAt, hget, hu, fileOf])]; exact h
          | file info stream hget hu hmem hat =>
              obtain ⟨hopen, hsecond⟩ := hC rfl stream hat
              have hm := streamAt_mem_owned hat
              cases reopened with
              | false => rw [freopen_fails hget hu]; exact inv_closed h hm hopen
              | true =>
                  have hmemf : mem = false := by simpa using hsecond
                  subst hmemf
                  rw [freopen_file hget hu, Heap.touch_live (h.live_of_owned hm hopen)]
                  exact h
  | fclose sin closed =>
      obtain rfl := Option.some.inj hstep
      cases found s sin with
      | none e hget => simpa [fclose, hget] using h
      | buf info binfo hget hu =>
          have hmem := (fileGet_mem hget).1
          have hperm := fileFree_perm h.named hmem
          have howned : (owned s.table).Perm (owned (fileFree s.table info.qn)) := by
            have := hperm.filterMap (fun i => fileOf i.u)
            rwa [List.filterMap_cons, show fileOf info.u = none by rw [hu]; rfl] at this
          simp only [fclose, hget, hu]
          refine ⟨named_free h.named info.qn, howned.nodup_iff.mp h.once,
            fun other hlive => howned.mem_iff.mp (h.live other hlive),
            fun other ho => h.born other (howned.mem_iff.mpr ho), h.clean, h.freed, fun e he => ?_⟩
          exact ⟨fun ho => (h.ended e he).1 (howned.mem_iff.mpr ho), (h.ended e he).2⟩
      | file info stream hget hu hmem hat =>
          obtain ⟨hopen, rfl⟩ := hC stream hat
          rw [fclose_file hget hu]
          exact inv_fclose h hmem hu hopen sin

/-- A stream that is closed a second time. -/
theorem not_clean_free (hfreed : stream ∈ s.streams.freed) : ¬ (s.streams.free stream).Clean := by
  intro hclean
  exact (List.nodup_append.mp hclean.1).2.2 stream hfreed stream (List.mem_singleton_self _) rfl

/-- A step out of order leaves a stream with no owner, with two, or closed behind its handle. -/
theorem not_oneOwner_step (s : Files) (c : Call) (t : Files) (h : Inv s) (hC : ¬ Orderly s c)
    (hstep : step s c = some t) : ¬ OneOwner t := by
  rintro ⟨hcount, hclean, hended⟩
  cases c with
  | fopen name opened mem =>
      obtain rfl := Option.some.inj hstep
      simp only [Orderly, Classical.not_imp, Bool.not_eq_true] at hC
      obtain ⟨rfl, rfl, rfl⟩ := hC
      have hlive : (s.streams.alloc ()).Live s.streams.next :=
        ⟨Nat.lt_succ_self _, fun hfreed => absurd (h.freed _ hfreed) (lt_irrefl _)⟩
      have hone := hcount s.streams.next hlive
      have hnone : s.streams.next ∉ owned s.table := fun hm => absurd (h.born _ hm) (lt_irrefl _)
      rw [show (owned (fopen s true true false).2.table) = owned s.table from rfl,
        List.count_eq_zero_of_not_mem hnone] at hone
      exact absurd hone (by decide)
  | freopen sin name reopened mem =>
      obtain rfl := Option.some.inj hstep
      simp only [Orderly, Classical.not_imp, not_forall] at hC
      obtain ⟨rfl, stream, hat, hbad⟩ := hC
      obtain ⟨info, hget, hu⟩ := streamAt_eq_some.mp hat
      by_cases hfreed : stream ∈ s.streams.freed
      · cases reopened with
        | false =>
            rw [freopen_fails hget hu] at hclean
            exact not_clean_free hfreed hclean
        | true =>
            rw [freopen_file hget hu] at hclean
            have hstale := Heap.touch_stale hfreed
            cases mem with
            | false => exact hstale hclean.2
            | true => exact hstale hclean.2
      · have hboth : reopened = true ∧ mem = true := by
          by_contra hnot
          exact hbad ⟨hfreed, hnot⟩
        obtain ⟨rfl, rfl⟩ := hboth
        obtain ⟨fd, t', halloc⟩ := fileAlloc_true s.table stream
        have hm := streamAt_mem_owned hat
        have hlive := h.live_of_owned hm hfreed
        have howned : (owned t').Perm (stream :: owned s.table) :=
          (fileAlloc_perm halloc).1.filterMap _
        rw [freopen_file hget hu, halloc, Heap.touch_live hlive] at hcount
        have hone := hcount stream hlive
        rw [howned.count_eq, List.count_cons_self, List.count_eq_one_of_mem h.once hm] at hone
        exact absurd hone (by decide)
  | fclose sin closed =>
      obtain rfl := Option.some.inj hstep
      simp only [Orderly, not_forall] at hC
      obtain ⟨stream, hat, hbad⟩ := hC
      obtain ⟨info, hget, hu⟩ := streamAt_eq_some.mp hat
      by_cases hfreed : stream ∈ s.streams.freed
      · cases closed with
        | false => rw [fclose_fails hget hu] at hclean; exact not_clean_free hfreed hclean
        | true => rw [fclose_file hget hu] at hclean; exact not_clean_free hfreed hclean
      · have hclosed : closed = false := by
          by_contra hnot
          exact hbad ⟨hfreed, by simpa using hnot⟩
        subst hclosed
        rw [fclose_fails hget hu] at hended
        exact hended (sin, stream) List.mem_cons_self hat

/-- **One owner for each stream.** In every state of a run each open stream has one entry, no stream
is closed twice or used after it was closed, and no handle leads to a stream that it gave up, exactly
when every stream that is opened gets its entry, no reopened one gets a second, every `fclose`
succeeds and no call names a handle whose stream a failed `freopen` has closed. -/
theorem one_owner_iff {calls : List Call} {t : Files} (hrun : run step init calls = some t) :
    Along step OneOwner init calls ↔ Guarded step Orderly init calls :=
  along_iff_guarded inv_step (fun _ => Inv.oneOwner) not_oneOwner_step inv_init hrun

end Runs

/-- Two opens, a `freopen` that fails, two closes of the other handle and an open that fails. -/
def orderlyCalls : List Call :=
  [.fopen true true true, .fopen true true true, .freopen 100 true false true, .fclose 101 true,
    .fclose 101 true, .fopen true false false]

theorem one_owner_iff_orderlyCalls :
    Along step OneOwner init orderlyCalls :=
  (one_owner_iff (show run step init orderlyCalls = some _ from rfl)).mpr (by decide +kernel)

/-- A stream that is reopened has two entries, and closing both handles closes it twice. -/
theorem reopened_twice :
    (∃ t, run step init [.fopen true true true, .freopen 100 true true true] = some t ∧
      owned t.table = [0, 0] ∧ ¬ OneOwner t) ∧
      ∃ t, run step init [.fopen true true true, .freopen 100 true true true, .fclose 100 true,
        .fclose 101 true] = some t ∧ t.streams.freed = [0, 0] ∧ ¬ OneOwner t := by
  refine ⟨⟨_, rfl, by decide +kernel, ?_⟩, ⟨_, rfl, by decide +kernel, ?_⟩⟩
  · intro h
    exact absurd (h.1 0 ⟨by decide +kernel, by decide +kernel⟩) (by decide +kernel)
  · intro h
    exact absurd h.2.1.1 (by decide +kernel)

end FastRpc.FileStreams
