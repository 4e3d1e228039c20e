import Mathlib.Data.List.Nodup
import FastRpc.SearchPaths

/-! # The loop over the directories of a search

`fopen_from_dirlist` and `apps_std_fopen_with_env_fd` cut one directory after the other off their copy of
the list, with a terminator in place of the delimiter, and go on behind it.  For each directory they try
the path with the name of the domain and then the path without it.  They differ in the size of a buffer
and in what they do with the results (`Rules`).

The delimiter comes from the remote side.  An empty one is found at the beginning of the list: the
terminator ends the list there, and the loop goes on at the same place.  `searches_end_iff` says when the
loops end with every directory tried at most once. -/

namespace FastRpc.DirSearch

open CString SearchPaths

/-! ### The loop -/

/-- The answers to a search, in their order: whether there is a buffer for the next path, and the result of
opening it. -/
structure SearchEnv where
  malloc : ℕ → Bool
  fopen : ℕ → Path → ℤ

/-- `AEE_SUCCESS`. -/
def aeeSuccess : ℤ := 0

/-- `AEE_ENOMEMORY`. -/
def aeeEnomemory : ℤ := 2

/-- `ENOENT`. -/
def enoent : ℤ := 2

/-- Where the two searches differ: the length that is used for the name of the domain, and what becomes of
`nErr` when the first or the second path of a directory opens, after a failure with `err`, and behind the
loop. -/
structure Rules where
  nameLen : ℕ
  openedDomain : ℤ → ℤ
  openedPlain : ℤ → ℤ
  failed : ℤ → ℤ → ℤ
  finish : ℤ → ℤ → ℤ

/-- `fopen_from_dirlist` keeps the last result. -/
def fopenFromDirlistRules (domain : Domain) : Rules where
  nameLen := (subsystemName domain).length
  openedDomain _ := aeeSuccess
  openedPlain _ := aeeSuccess
  failed err _ := err
  finish _ nErr := nErr

/-- `apps_std_fopen_with_env_fd` keeps the first error that is not `ENOENT`, also when a path with the name
of the domain opens. -/
def fopenWithEnvFdRules : Rules where
  nameLen := (ascii "adsp").length
  openedDomain nErr := nErr
  openedPlain _ := aeeSuccess
  failed err nErr := if err ≠ enoent ∧ (nErr = enoent ∨ nErr = aeeSuccess) then err else nErr
  finish err nErr := if err = enoent ∧ (nErr = enoent ∨ nErr = aeeSuccess) then err else nErr

/-- The paths that were tried, with their results; the last result; `nErr`; and whether the loop was left by
a `goto` or a `return`. -/
structure Attempts where
  tried : List (Path × ℤ)
  err : ℤ
  nErr : ℤ
  left : Bool

/-- One path; `opened` is what becomes of `nErr` when it opens. -/
def tryPath (env : SearchEnv) (rules : Rules) (opened : ℤ → ℤ) (absName : Path) (a : Attempts) : Attempts :=
  if env.malloc a.tried.length then
    let err := env.fopen a.tried.length absName
    let tried := a.tried ++ [(absName, err)]
    if err = aeeSuccess then ⟨tried, err, opened a.nErr, true⟩
    else { a with tried := tried, err := err, nErr := rules.failed err a.nErr }
  else { a with nErr := aeeEnomemory, left := true }

/-- The two paths of a directory. -/
def tryDir (env : SearchEnv) (rules : Rules) (sub name dirName : Str) (a : Attempts) : Attempts :=
  let absName := domainPath (u16 (dirName.length + name.length + 2 + rules.nameLen + 1)) dirName sub name
  let a := tryPath env rules rules.openedDomain absName a
  if a.left then a
  else
    tryPath env rules rules.openedPlain (plainPath (u16 (dirName.length + name.length + 2)) dirName name) a

/-- `dirList` with its place in the copy, and the places of the directories that were tried. -/
structure Search where
  dirList : Option (ℕ × Str)
  places : List ℕ
  attempts : Attempts

/-- `dirName`, and `dirList` behind the delimiter.  Behind an empty one stands the terminator. -/
def cut (delim : Str) (place : ℕ) (list : Str) : Str × Option (ℕ × Str) :=
  match strstr delim list with
  | some pos => (list.take pos, some (place + pos + delim.length,
      if delim = [] then [] else list.drop (pos + delim.length)))
  | none => (list, none)

/-- One turn of the loop. -/
def turn (env : SearchEnv) (rules : Rules) (sub name delim : Str) (s : Search) : Search :=
  match s.dirList with
  | none => s
  | some (place, list) =>
      let c := cut delim place list
      ⟨c.2, s.places ++ [place], tryDir env rules sub name c.1 s.attempts⟩

/-- One test of the loop. -/
def step (env : SearchEnv) (rules : Rules) (sub name delim : Str) (s : Search) : Search :=
  if s.attempts.left then s else turn env rules sub name delim s

/-- In front of the loop. -/
def start (list : Str) : Search := ⟨some (0, list), [], ⟨[], enoent, aeeSuccess, false⟩⟩

/-- The search after `n` tests. -/
def searched (env : SearchEnv) (rules : Rules) (sub name delim list : Str) (n : ℕ) : Search :=
  (step env rules sub name delim)^[n] (start list)

/-- Behind the loop. -/
def Search.Over (s : Search) : Prop := s.attempts.left = true ∨ s.dirList = none

instance (s : Search) : Decidable s.Over := inferInstanceAs (Decidable (_ ∨ _))

/-- The result. -/
def Attempts.result (rules : Rules) (a : Attempts) : ℤ :=
  if a.left then a.nErr else rules.finish a.err a.nErr

/-! ### What is claimed, and when -/

/-- The loop ends, and no directory of the list is tried twice. -/
def EndsOnce (env : SearchEnv) (rules : Rules) (sub name delim list : Str) : Prop :=
  ∃ n, (searched env rules sub name delim list n).Over ∧
    (searched env rules sub name delim list n).places.Nodup

/-- There is no buffer for the name of the file, or it opens as it is, at the first or the second time. -/
def OpensAtOnce (env : SearchEnv) (rules : Rules) (name : Str) : Prop :=
  env.malloc 0 = false ∨
    env.fopen 0 (strlcpy (u16 (name.length + 2 + rules.nameLen + 1)) name) = aeeSuccess ∨
    env.malloc 1 = false ∨ env.fopen 1 (strlcpy (u16 (name.length + 2)) name) = aeeSuccess

/-! ### One turn -/

section Turn

variable {env : SearchEnv} {rules : Rules} {sub name delim list dirName : Str} {s : Search} {a : Attempts}
  {opened : ℤ → ℤ} {absName : Path} {place : ℕ}

/-- A path ends the search when there is no buffer for it or when it opens. -/
theorem tryPath_left (hleft : a.left = false) : (tryPath env rules opened absName a).left = true ↔
    env.malloc a.tried.length = false ∨ env.fopen a.tried.length absName = aeeSuccess := by
  unfold tryPath
  dsimp only
  split_ifs with hmem hopen
  · exact iff_of_true rfl (.inr hopen)
  · refine iff_of_false (by simp [hleft]) ?_
    rw [not_or, hmem]
    exact ⟨nofun, hopen⟩
  · exact iff_of_true rfl (.inl (by simpa using hmem))

/-- A search that goes on has tried the path. -/
theorem tryPath_tried (hnext : (tryPath env rules opened absName a).left = false) :
    (tryPath env rules opened absName a).tried =
      a.tried ++ [(absName, env.fopen a.tried.length absName)] := by
  unfold tryPath at hnext ⊢
  dsimp only at hnext ⊢
  split_ifs at hnext ⊢
  rfl

theorem step_of_over (h : s.Over) : step env rules sub name delim s = s := by
  unfold step turn
  rcases h with hleft | hnone
  · rw [if_pos hleft]
  · rw [hnone, ite_self]

theorem step_of_rest (hleft : s.attempts.left = false) (hrest : s.dirList = some (place, list)) :
    step env rules sub name delim s = ⟨(cut delim place list).2, s.places ++ [place],
      tryDir env rules sub name (cut delim place list).1 s.attempts⟩ := by
  rw [step, if_neg (by simp [hleft]), turn, hrest]

/-- A delimiter that is not empty leaves less of the list, further behind. -/
theorem cut_shorter (hdelim : delim ≠ []) {place' : ℕ} {list' : Str}
    (h : (cut delim place list).2 = some (place', list')) :
    list'.length < list.length ∧ place < place' := by
  have hlength := List.length_pos_of_ne_nil hdelim
  unfold cut at h
  split at h
  · next pos hpos =>
      obtain ⟨rfl, rfl⟩ := Prod.mk.inj (Option.some.inj h)
      have hle := strstr_le hpos
      rw [if_neg hdelim, List.length_drop]
      omega
  · exact nomatch h

/-- An empty delimiter leaves the place. -/
theorem cut_nil : cut [] place list = ([], some (place, [])) := by
  simp [cut]

theorem step_places (s : Search) : (step env rules sub name delim s).places = s.places ∨
    ∃ place list, s.dirList = some (place, list) ∧
      (step env rules sub name delim s).places = s.places ++ [place] := by
  cases hleft : s.attempts.left with
  | true => exact .inl (by rw [step_of_over (.inl hleft)])
  | false =>
      cases hrest : s.dirList with
      | none => exact .inl (by rw [step_of_over (.inr hrest)])
      | some rest => exact .inr ⟨rest.1, rest.2, rfl, by rw [step_of_rest hleft hrest]⟩

/-- A directory that was tried twice stays so. -/
theorem not_nodup_searched (h : ¬ s.places.Nodup) (n : ℕ) :
    ¬ ((step env rules sub name delim)^[n] s).places.Nodup := by
  induction n generalizing s with
  | zero => exact h
  | succ n ih =>
      rw [Function.iterate_succ_apply]
      refine ih fun hnodup => h ?_
      rcases step_places s with heq | ⟨place, list, _, heq⟩
      · exact heq ▸ hnodup
      · rw [heq] at hnodup
        exact hnodup.of_append_left

end Turn

/-! ### When the loops end -/

section Ends

variable {env : SearchEnv} {rules : Rules} {sub name delim list : Str} {s : Search} {place : ℕ}

/-- With a delimiter, the list becomes shorter in every turn, and the places grow. -/
theorem ends_of_delim (hdelim : delim ≠ []) (hleft : s.attempts.left = false)
    (hrest : s.dirList = some (place, list)) (hnodup : s.places.Nodup) (hbelow : ∀ p ∈ s.places, p < place) :
    ∃ n, ((step env rules sub name delim)^[n] s).Over ∧
      ((step env rules sub name delim)^[n] s).places.Nodup := by
  induction hlength : list.length using Nat.strongRecOn generalizing s place list with
  | ind length ih =>
      have hstep : step env rules sub name delim s = ⟨(cut delim place list).2, s.places ++ [place],
          tryDir env rules sub name (cut delim place list).1 s.attempts⟩ := step_of_rest hleft hrest
      have hplaces : (step env rules sub name delim s).places = s.places ++ [place] := by
        rw [hstep]
      have hnodup' : (step env rules sub name delim s).places.Nodup := by
        rw [hplaces, List.nodup_append]
        refine ⟨hnodup, List.nodup_singleton _, fun p hp q hq => ?_⟩
        rw [List.mem_singleton.mp hq]
        exact Nat.ne_of_lt (hbelow p hp)
      have hnext : (step env rules sub name delim s).dirList = (cut delim place list).2 := by
        rw [hstep]
      cases hleft' : (step env rules sub name delim s).attempts.left with
      | true => exact ⟨1, .inl hleft', hnodup'⟩
      | false =>
          cases hcut : (cut delim place list).2 with
          | none => exact ⟨1, .inr (hnext.trans hcut), hnodup'⟩
          | some rest =>
              obtain ⟨place', list'⟩ := rest
              obtain ⟨hshorter, hbehind⟩ := cut_shorter hdelim hcut
              have hbelow' : ∀ p ∈ (step env rules sub name delim s).places, p < place' := by
                intro p hp
                rw [hplaces] at hp
                rcases List.mem_append.mp hp with hp | hp
                · exact (hbelow p hp).trans hbehind
                · exact List.mem_singleton.mp hp ▸ hbehind
              obtain ⟨n, hover, hn⟩ := ih list'.length (hlength ▸ hshorter) hleft' (hnext.trans hcut)
                hnodup' hbelow' rfl
              exact ⟨n + 1, hover, hn⟩

/-- With an empty one, the loop that goes on tries the same place again. -/
theorem never_once (hleft : s.attempts.left = false) (hrest : s.dirList = some (place, list))
    (hmem : place ∈ s.places) (n : ℕ) : ¬ (((step env rules sub name delim)^[n] s).Over ∧
      ((step env rules sub name delim)^[n] s).places.Nodup) := by
  rintro ⟨hover, hnodup⟩
  cases n with
  | zero =>
      rcases hover with hover | hover
      · exact nomatch hleft.symm.trans hover
      · exact nomatch hrest.symm.trans hover
  | succ n =>
      rw [Function.iterate_succ_apply] at hnodup
      refine not_nodup_searched (fun htwice => ?_) n hnodup
      rw [step_of_rest hleft hrest, List.nodup_append] at htwice
      exact htwice.2.2 place hmem place List.mem_cons_self rfl

/-- The first turn on an empty list of directories. -/
theorem first_turn_left : (step env rules sub name [] (start list)).attempts.left = true ↔
    OpensAtOnce env rules name := by
  rw [step_of_rest rfl rfl, cut_nil, tryDir]
  dsimp only
  have hdomain := fun size => show domainPath size [] sub name = strlcpy size name from if_neg (by simp)
  have hplain := fun size => show plainPath size [] name = strlcpy size name from if_neg (by simp)
  rw [hdomain, hplain, List.length_nil, Nat.zero_add]
  have hfirst : (tryPath env rules rules.openedDomain
      (strlcpy (u16 (name.length + 2 + rules.nameLen + 1)) name) (start list).attempts).left = true ↔ _ :=
    tryPath_left rfl
  unfold OpensAtOnce
  split_ifs with hleft
  · exact iff_of_true hleft (by have := hfirst.mp hleft; tauto)
  · have hnext := Bool.eq_false_iff.mpr hleft
    rw [tryPath_left hnext, tryPath_tried hnext]
    have hnone : ¬ (env.malloc 0 = false ∨
        env.fopen 0 (strlcpy (u16 (name.length + 2 + rules.nameLen + 1)) name) = aeeSuccess) :=
      (not_congr hfirst).mp hleft
    change (env.malloc 1 = false ∨ env.fopen 1 (strlcpy (u16 (name.length + 2)) name) = aeeSuccess) ↔ _
    tauto

theorem start_not_over : ¬ (start list).Over := by
  rintro (hover | hover)
  · exact nomatch hover
  · exact nomatch hover

/-- **When the search ends** with every directory tried at most once: exactly when there is a delimiter, or
the first turn is the last one. -/
theorem ends_once_iff : EndsOnce env rules sub name delim list ↔
    delim ≠ [] ∨ OpensAtOnce env rules name := by
  by_cases hdelim : delim = []
  · subst hdelim
    have hfirst : (step env rules sub name [] (start list)).attempts.left = true ↔
        OpensAtOnce env rules name := first_turn_left
    rw [← hfirst, or_iff_right (not_not.mpr rfl)]
    have hplaces : (step env rules sub name [] (start list)).places = [0] := by
      rw [step_of_rest rfl rfl]
      rfl
    constructor
    · rintro ⟨n, hover, hnodup⟩
      by_contra hleft
      cases n with
      | zero => exact start_not_over hover
      | succ n =>
          have hrest : (step env rules sub name [] (start list)).dirList = some (0, []) := by
            rw [step_of_rest rfl rfl, cut_nil]
          have hmem : 0 ∈ (step env rules sub name [] (start list)).places := by
            rw [hplaces]
            exact List.mem_cons_self
          exact never_once (by simpa using hleft) hrest hmem n ⟨hover, hnodup⟩
    · intro hleft
      refine ⟨1, .inl hleft, ?_⟩
      change (step env rules sub name [] (start list)).places.Nodup
      rw [hplaces]
      exact List.nodup_singleton 0
  · refine iff_of_true ?_ (.inl hdelim)
    exact ends_of_delim hdelim rfl rfl List.nodup_nil (fun _ hp => absurd hp List.not_mem_nil)

/-- With an empty delimiter, a file that does not open, and memory for its paths, the loop does not end. -/
theorem empty_delim_forever (hmem : ∀ k, env.malloc k = true) (hfails : ∀ k p, env.fopen k p ≠ aeeSuccess)
    (n : ℕ) : ¬ (searched env rules sub name [] list n).Over := by
  have hgoes : ∀ (opened : ℤ → ℤ) (p : Path) (a : Attempts), a.left = false →
      (tryPath env rules opened p a).left = false := by
    intro opened p a hleft
    rw [Bool.eq_false_iff, Ne, tryPath_left hleft, hmem, not_or]
    exact ⟨nofun, hfails _ _⟩
  have hinv : (searched env rules sub name [] list n).attempts.left = false ∧
      ∃ place rest, (searched env rules sub name [] list n).dirList = some (place, rest) := by
    induction n with
    | zero => exact ⟨rfl, _, _, rfl⟩
    | succ n ih =>
        obtain ⟨hleft, place, rest, hrest⟩ := ih
        unfold searched at hleft hrest ⊢
        rw [Function.iterate_succ_apply', step_of_rest hleft hrest, cut_nil]
        refine ⟨?_, place, [], rfl⟩
        have hfirst := hgoes rules.openedDomain
          (domainPath (u16 (0 + name.length + 2 + rules.nameLen + 1)) [] sub name) _ hleft
        rw [tryDir]
        dsimp only
        rw [List.length_nil, if_neg (by simpa using hfirst)]
        exact hgoes _ _ _ hfirst
  obtain ⟨hleft, place, rest, hrest⟩ := hinv
  rintro (hover | hover)
  · exact nomatch hleft.symm.trans hover
  · exact nomatch hrest.symm.trans hover

end Ends

/-- **When the searches end**: for every list and every delimiter, the loops of `fopen_from_dirlist` and of
`apps_std_fopen_with_env_fd` end with every directory tried at most once exactly when the delimiter is not
empty or the first turn is the last one. -/
theorem searches_end_iff (env : SearchEnv) (domain : Domain) (name delim list : Str) :
    (EndsOnce env (fopenFromDirlistRules domain) (subsystemName domain) name delim list ↔
      delim ≠ [] ∨ OpensAtOnce env (fopenFromDirlistRules domain) name) ∧
    (EndsOnce env fopenWithEnvFdRules (subsystemName domain) name delim list ↔
      delim ≠ [] ∨ OpensAtOnce env fopenWithEnvFdRules name) :=
  ⟨ends_once_iff, ends_once_iff⟩

/-- A file that is nowhere, and enough memory. -/
def nowhere : SearchEnv := ⟨fun _ => true, fun _ _ => enoent⟩

/-- Without a delimiter, the search for a file that is nowhere does not end. -/
theorem empty_delim_never_ends :
    (∀ n, ¬ (searched nowhere fopenWithEnvFdRules (subsystemName 3) (ascii "f") [] (ascii "/a;/b") n).Over) ∧
      ¬ EndsOnce nowhere fopenWithEnvFdRules (subsystemName 3) (ascii "f") [] (ascii "/a;/b") := by
  have hforever : ∀ n, ¬ (searched nowhere fopenWithEnvFdRules (subsystemName 3) (ascii "f") []
      (ascii "/a;/b") n).Over :=
    empty_delim_forever (fun _ => rfl) (fun _ _ => (by decide : enoent ≠ aeeSuccess))
  exact ⟨hforever, fun ⟨n, hover, _⟩ => hforever n hover⟩

end FastRpc.DirSearch
