import FastRpc.ConfigReader

/-! # The probe of the remote processors

`fastrpc_check_if_dsp_present_rproc` looks for the subsystem of a domain among the entries of
`/sys/class/remoteproc`: it opens the name of one after the other until an entry cannot be opened, and looks
for the subsystem in the first line.  Two things go wrong.  `fclose` closes the descriptor of the stream, and
`close` is called on it again when the loop goes on; and `strstr` finds a name also inside of another one, as
`cdsp` in `cdsp1`.

`probe_right_iff` says for which entries the answer is right and every descriptor is closed once. -/

namespace FastRpc.RprocProbe

open CString SearchPaths ConfigReader

/-! ### The code -/

/-- `BUF_SIZE`. -/
def bufSize : ℤ := 50

/-- `GDSP1_DOMAIN_ID`. -/
def gdsp1DomainId : UInt32 := 6

/-- `RPROC_SUBSYSTEM_NAME`. -/
def rprocSubsystemName : List Str :=
  ["adsp", "mss", "spss", "cdsp", "cdsp1", "gdsp0", "gdsp1", "reserved"].map ascii

/-- An entry: the text of its name file, and whether `open` and `fdopen` succeed on it. -/
structure Entry where
  text : Str
  opens : Bool
  wraps : Bool
  deriving DecidableEq, Repr

/-- A descriptor is opened or closed; `index` is that of its entry. -/
inductive Event
  | opened (index : ℕ)
  | closed (index : ℕ)
  deriving DecidableEq, Repr

/-- `fgets` and `strstr`: the first line has the name of the subsystem in it. -/
def Entry.found (search_string : Str) (e : Entry) : Bool :=
  match fgets bufSize e.text with
  | .line buffer _ => (strstr search_string (cstr buffer)).isSome
  | _ => false

/-- The loop, from the entry `dir_index` on: `domain_supported`, and what was opened and closed. -/
def probe (search_string : Str) : List Entry → ℕ → Bool × List Event
  | [], _ => (false, [])
  | e :: entries, dir_index =>
      if e.opens then
        if e.wraps then
          if e.found search_string then (true, [.opened dir_index, .closed dir_index])
          else
            let r := probe search_string entries (dir_index + 1)
            -- `fclose(file)`, and `close(fd)` behind it
            (r.1, .opened dir_index :: .closed dir_index :: .closed dir_index :: r.2)
        else
          let r := probe search_string entries (dir_index + 1)
          (r.1, .opened dir_index :: .closed dir_index :: r.2)
      else (false, [])

/-- `fastrpc_check_if_dsp_present_rproc`; `malloc` says whether there is memory for the buffer. -/
def fastrpcCheckIfDspPresentRproc (malloc : Bool) (entries : List Entry) (domain : UInt32) : ℕ × List Event :=
  if gdsp1DomainId < domain then (0, [])
  else if malloc then
    let r := probe (rprocSubsystemName.getD domain.toNat []) entries 0
    (if r.1 then 1 else 0, r.2)
  else (0, [])

/-! ### What is claimed, and when -/

/-- The name of an entry; the file has a newline behind it. -/
def Entry.name (e : Entry) : Str := if e.text.getLast? = some newline then e.text.dropLast else e.text

/-- The subsystem of a domain. -/
def subsystem (domain : UInt32) : Option Str :=
  if gdsp1DomainId < domain then none else rprocSubsystemName[domain.toNat]?

/-- Some entry has the name of the subsystem. -/
def Present (entries : List Entry) (domain : UInt32) : Prop :=
  ∃ name, subsystem domain = some name ∧ ∃ e ∈ entries, e.name = name

/-- The answer is right, and every descriptor is closed once. -/
structure Right (entries : List Entry) (domain : UInt32) (r : ℕ × List Event) : Prop where
  answer : r.1 = 1 ↔ Present entries domain
  closes : ∀ i, r.2.count (.closed i) = r.2.count (.opened i)

/-- The first entry that gets a stream, if there is one before an entry that cannot be opened. -/
def firstStream (entries : List Entry) : Option Entry := (entries.takeWhile (·.opens)).find? (·.wraps)

/-- That entry names the subsystem, and some entry is the one that is looked for; or there is neither. -/
def Plain (malloc : Bool) (entries : List Entry) (domain : UInt32) : Prop :=
  match subsystem domain, malloc, firstStream entries with
  | some name, true, some e => e.found name = true ∧ Present entries domain
  | _, _, _ => ¬ Present entries domain

/-! ### The loop -/

section Loop

variable {search_string : Str} {e : Entry} {entries : List Entry} {i j : ℕ}

/-- The descriptors of the entries before are not touched. -/
theorem count_before (hj : j < i) :
    (probe search_string entries i).2.count (.closed j) = 0 ∧
      (probe search_string entries i).2.count (.opened j) = 0 := by
  induction entries generalizing i with
  | nil => exact ⟨rfl, rfl⟩
  | cons e entries ih =>
      have hne : i ≠ j := Nat.ne_of_gt hj
      obtain ⟨hclosed, hopened⟩ := ih (Nat.lt_succ_of_lt hj)
      rw [probe]
      split_ifs
      · simp [hne]
      · simp [hne, hclosed, hopened]
      · simp [hne, hclosed, hopened]
      · exact ⟨rfl, rfl⟩

theorem firstStream_closed (h : e.opens = false) : firstStream (e :: entries) = none := by
  simp [firstStream, h]

theorem firstStream_wraps (h : e.opens = true) (hwraps : e.wraps = true) :
    firstStream (e :: entries) = some e := by
  simp [firstStream, h, hwraps]

theorem firstStream_skip (h : e.opens = true) (hwraps : e.wraps = false) :
    firstStream (e :: entries) = firstStream entries := by
  simp [firstStream, h, hwraps]

/-- What the loop finds when no descriptor is closed twice. -/
theorem probe_found (h : ∀ e, firstStream entries = some e → e.found search_string = true) :
    (probe search_string entries i).1 = (firstStream entries).isSome := by
  induction entries generalizing i with
  | nil => rfl
  | cons e entries ih =>
      rw [probe]
      split_ifs with hopens hwraps hfound
      · rw [firstStream_wraps hopens hwraps]
        rfl
      · exact absurd (h e (firstStream_wraps hopens hwraps)) hfound
      · rw [Bool.not_eq_true] at hwraps
        rw [firstStream_skip hopens hwraps] at h ⊢
        exact ih h
      · rw [Bool.not_eq_true] at hopens
        rw [firstStream_closed hopens]
        rfl

/-- **Every descriptor is closed once** if and only if the first stream has the name. -/
theorem probe_closes :
    (∀ j, (probe search_string entries i).2.count (.closed j) =
        (probe search_string entries i).2.count (.opened j)) ↔
      ∀ e, firstStream entries = some e → e.found search_string = true := by
  induction entries generalizing i with
  | nil => exact iff_of_true (fun _ => rfl) (fun _ h => nomatch h)
  | cons e entries ih =>
      rw [probe]
      split_ifs with hopens hwraps hfound
      · refine iff_of_true (fun j => ?_) (fun d hd => ?_)
        · by_cases hj : i = j
          · simp [hj]
          · simp [hj]
        · rw [firstStream_wraps hopens hwraps] at hd
          exact Option.some.inj hd ▸ hfound
      · -- the descriptor is closed twice
        refine iff_of_false (fun h => ?_) (fun h => hfound (h e (firstStream_wraps hopens hwraps)))
        obtain ⟨hclosed, hopened⟩ := @count_before search_string entries _ _ (Nat.lt_succ_self i)
        have hi := h i
        simp [hclosed, hopened] at hi
      · rw [Bool.not_eq_true] at hwraps
        rw [firstStream_skip hopens hwraps, ← @ih (i + 1)]
        refine forall_congr' fun j => ?_
        by_cases hj : i = j
        · simp [hj]
        · simp [hj]
      · rw [Bool.not_eq_true] at hopens
        rw [firstStream_closed hopens]
        exact iff_of_true (fun _ => rfl) (fun _ h => nomatch h)

/-- The loop that looks for a name keeps both promises in the same cases. -/
theorem loop_right_iff {domain : UInt32} (name : Str) :
    Right entries domain (if (probe name entries 0).1 then 1 else 0, (probe name entries 0).2) ↔
      match firstStream entries with
      | some e => e.found name = true ∧ Present entries domain
      | none => ¬ Present entries domain := by
  constructor
  · rintro ⟨hanswer, hcloses⟩
    have hnames := probe_closes.mp hcloses
    rw [probe_found hnames] at hanswer
    cases hfirst : firstStream entries with
    | none =>
        rw [hfirst] at hanswer
        exact fun hpresent => absurd (hanswer.mpr hpresent) (by simp)
    | some e =>
        rw [hfirst] at hanswer
        exact ⟨hnames e hfirst, hanswer.mp rfl⟩
  · intro hplain
    have hnames : ∀ e, firstStream entries = some e → e.found name = true := by
      intro e he
      rw [he] at hplain
      exact hplain.1
    refine ⟨?_, probe_closes.mpr hnames⟩
    rw [probe_found hnames]
    cases hfirst : firstStream entries with
    | none =>
        rw [hfirst] at hplain
        exact iff_of_false (by simp) hplain
    | some e =>
        rw [hfirst] at hplain
        exact iff_of_true rfl hplain.2

end Loop

/-- **The answer is right and every descriptor is closed once** if and only if the first entry that gets a
stream names the subsystem and some entry is the one that is looked for, or there is neither. -/
theorem probe_right_iff (malloc : Bool) (entries : List Entry) (domain : UInt32) :
    Right entries domain (fastrpcCheckIfDspPresentRproc malloc entries domain) ↔
      Plain malloc entries domain := by
  have hnone : Right entries domain (0, []) ↔ ¬ Present entries domain := by
    constructor
    · exact fun h hpresent => absurd (h.answer.mpr hpresent) (by decide)
    · exact fun h => ⟨iff_of_false (by decide) h, fun _ => rfl⟩
  unfold fastrpcCheckIfDspPresentRproc Plain subsystem
  split_ifs with hdomain hmalloc
  · exact hnone
  · have hlt : domain.toNat < rprocSubsystemName.length := by
      rw [UInt32.lt_iff_toNat_lt] at hdomain
      have hlast : gdsp1DomainId.toNat = 6 := rfl
      have hlength : rprocSubsystemName.length = 8 := rfl
      omega
    rw [List.getElem?_eq_getElem hlt, List.getD_eq_getElem _ _ hlt, hmalloc]
    refine (loop_right_iff rprocSubsystemName[domain.toNat]).trans (iff_of_eq ?_)
    cases firstStream entries <;> rfl
  · rw [Bool.not_eq_true] at hmalloc
    rw [hmalloc]
    refine hnone.trans (iff_of_eq ?_)
    split
    · cases ‹false = true›
    · rfl

/-- The entries of an ADSP and a CDSP1, probed for the CDSP: the first descriptor is closed twice, and the
answer is that there is one. -/
theorem closed_twice :
    fastrpcCheckIfDspPresentRproc true [⟨ascii "adsp\n", true, true⟩, ⟨ascii "cdsp1\n", true, true⟩] 3 =
        (1, [.opened 0, .closed 0, .closed 0, .opened 1, .closed 1]) ∧
      ¬ Right [⟨ascii "adsp\n", true, true⟩, ⟨ascii "cdsp1\n", true, true⟩] 3
        (1, [.opened 0, .closed 0, .closed 0, .opened 1, .closed 1]) ∧
      ¬ Present [⟨ascii "adsp\n", true, true⟩, ⟨ascii "cdsp1\n", true, true⟩] 3 := by
  refine ⟨by decide +kernel, fun h => absurd (h.closes 0) (by decide), ?_⟩
  rintro ⟨name, hname, e, he, rfl⟩
  have hnames : ∀ e ∈ [Entry.mk (ascii "adsp\n") true true, ⟨ascii "cdsp1\n", true, true⟩],
      subsystem 3 ≠ some e.name := by decide +kernel
  exact hnames e he hname

end FastRpc.RprocProbe
