import FastRpc.DirSearch

/-! # The result of a search

`apps_std_fopen_with_env_fd` has two results: `err` of the last path and `nErr`, the first error that is
not `ENOENT`.  When the path without the name of the domain opens, `nErr` is set to `AEE_SUCCESS`; when the
path with it opens, `nErr` is left as it is, and an error of an earlier path is the result of a search that
has opened a file.

The paths of the directories are the candidates, and what becomes of them are the outcomes; the search is a
fold over them (`searched_attempts`, `tally_foldl`).  `fopen_with_env_fd_result_iff` says for which outcomes
the result is right. -/

namespace FastRpc.SearchResult

open CString SearchPaths DirSearch

/-! ### Candidates and outcomes -/

/-- The directories that `n` turns cut off. -/
def cuts (delim : Str) : ℕ → Str → List Str
  | 0, _ => []
  | n + 1, list =>
      match strstr delim list with
      | some pos =>
          list.take pos :: cuts delim n (if delim = [] then [] else list.drop (pos + delim.length))
      | none => [list]

/-- A path, and whether the name of the domain is in it. -/
structure Candidate where
  withDomain : Bool
  absName : Path

/-- The paths of the directories, in their order. -/
def candidatesOf (rules : Rules) (sub name : Str) (dirs : List Str) : List Candidate :=
  dirs.flatMap (fun d =>
    [⟨true, domainPath (u16 (d.length + name.length + 2 + rules.nameLen + 1)) d sub name⟩,
      ⟨false, plainPath (u16 (d.length + name.length + 2)) d name⟩])

/-- What becomes of a candidate: the result of opening it, if there is a buffer for its path. -/
structure Outcome where
  withDomain : Bool
  code : Option ℤ
  deriving DecidableEq, Repr

/-- The outcomes of the candidates from the `k`-th on. -/
def outcomes (env : SearchEnv) : ℕ → List Candidate → List Outcome
  | _, [] => []
  | k, c :: cs =>
      ⟨c.withDomain, if env.malloc k then some (env.fopen k c.absName) else none⟩ :: outcomes env (k + 1) cs

/-- The results up to the first path without a buffer. -/
def codes : List Outcome → List ℤ
  | [] => []
  | o :: os =>
      match o.code with
      | none => []
      | some c => c :: codes os

/-- Some path has no buffer. -/
def refused (os : List Outcome) : Prop := ∃ o ∈ os, o.code = none

instance (os : List Outcome) : Decidable (refused os) := inferInstanceAs (Decidable (∃ _ ∈ _, _))

/-! ### What is claimed, and when -/

/-- The results up to the first success. -/
def throughFirst : List ℤ → List ℤ
  | [] => []
  | c :: cs => if c = aeeSuccess then [c] else c :: throughFirst cs

/-- A search succeeds exactly when a candidate opens, and stops there; else it gives the first error that
is not `ENOENT`, and `ENOENT` if there is none. -/
structure AsClaimed (os : List Outcome) (result : ℤ) (tried : List ℤ) : Prop where
  success : result = aeeSuccess ↔ aeeSuccess ∈ codes os
  stops : tried = throughFirst (codes os)
  failure : aeeSuccess ∉ codes os →
    result = if refused os then aeeEnomemory else ((codes os).find? (· ≠ enoent)).getD enoent

/-- The candidate does not open. -/
def Outcome.Fails (o : Outcome) : Prop := ∃ c, o.code = some c ∧ c ≠ aeeSuccess

/-- The first candidate that opens has the name of the domain in its path, and an earlier one has failed
with an error other than `ENOENT`. -/
def Masked (os : List Outcome) : Prop :=
  ∃ pre post, os = pre ++ ⟨true, some aeeSuccess⟩ :: post ∧ (∀ o ∈ pre, o.Fails) ∧
    ∃ o ∈ pre, o.code ≠ some enoent

/-! ### The search as a fold -/

/-- One candidate, if the search goes on. -/
def tryCandidate (env : SearchEnv) (rules : Rules) (a : Attempts) (c : Candidate) : Attempts :=
  if a.left then a
  else tryPath env rules (if c.withDomain then rules.openedDomain else rules.openedPlain) c.absName a

/-- The results of a search without their paths. -/
structure Tally where
  codes : List ℤ
  err : ℤ
  nErr : ℤ
  left : Bool

/-- The results of a search. -/
def tallyOf (a : Attempts) : Tally := ⟨a.tried.map Prod.snd, a.err, a.nErr, a.left⟩

/-- One outcome, if the search goes on. -/
def count (rules : Rules) (t : Tally) (o : Outcome) : Tally :=
  if t.left then t
  else
    match o.code with
    | none => { t with nErr := aeeEnomemory, left := true }
    | some err =>
        if err = aeeSuccess then
          ⟨t.codes ++ [err], err,
            (if o.withDomain then rules.openedDomain else rules.openedPlain) t.nErr, true⟩
        else { t with codes := t.codes ++ [err], err := err, nErr := rules.failed err t.nErr }

section Fold

variable {env : SearchEnv} {rules : Rules} {sub name delim list : Str} {a : Attempts} {t : Tally}
  {cs : List Candidate} {os : List Outcome}

theorem foldl_tryCandidate_left (h : a.left = true) : cs.foldl (tryCandidate env rules) a = a := by
  induction cs with
  | nil => rfl
  | cons c cs ih => rw [List.foldl_cons, tryCandidate, if_pos h, ih]

theorem foldl_count_left (h : t.left = true) : os.foldl (count rules) t = t := by
  induction os with
  | nil => rfl
  | cons o os ih => rw [List.foldl_cons, count, if_pos h, ih]

/-- A directory gives two candidates. -/
theorem tryDir_eq (hleft : a.left = false) (d : Str) : tryDir env rules sub name d a =
    (candidatesOf rules sub name [d]).foldl (tryCandidate env rules) a := by
  simp [candidatesOf, tryCandidate, tryDir, hleft]

/-- **The loop tries the candidates** of the directories that it cuts off. -/
theorem searched_attempts {s : Search} {place : ℕ} (hrest : s.dirList = some (place, list)) (n : ℕ) :
    ((step env rules sub name delim)^[n] s).attempts =
      (candidatesOf rules sub name (cuts delim n list)).foldl (tryCandidate env rules) s.attempts := by
  induction n generalizing s place list with
  | zero => rfl
  | succ n ih =>
      cases hleft : s.attempts.left with
      | true => rw [foldl_tryCandidate_left hleft, Function.iterate_fixed (step_of_over (.inl hleft))]
      | false =>
          rw [Function.iterate_succ_apply, step_of_rest hleft hrest, cut, cuts]
          cases hpos : strstr delim list with
          | none =>
              dsimp only
              rw [Function.iterate_fixed (step_of_over (.inr rfl))]
              exact tryDir_eq hleft list
          | some pos =>
              dsimp only
              rw [ih rfl, tryDir_eq hleft, ← List.foldl_append]
              rfl

theorem tally_tryPath (hleft : a.left = false) {c : Candidate} :
    tallyOf (tryPath env rules (if c.withDomain then rules.openedDomain else rules.openedPlain) c.absName a) =
      count rules (tallyOf a) ⟨c.withDomain,
        if env.malloc a.tried.length then some (env.fopen a.tried.length c.absName) else none⟩ := by
  cases hmem : env.malloc a.tried.length with
  | false => simp [count, tryPath, tallyOf, hleft, hmem]
  | true =>
      by_cases hopen : env.fopen a.tried.length c.absName = aeeSuccess <;>
        simp [count, tryPath, tallyOf, hleft, hmem, hopen]

/-- The results are those of the outcomes. -/
theorem tally_foldl : tallyOf (cs.foldl (tryCandidate env rules) a) =
    (outcomes env a.tried.length cs).foldl (count rules) (tallyOf a) := by
  induction cs generalizing a with
  | nil => rfl
  | cons c cs ih =>
      rw [List.foldl_cons, outcomes, List.foldl_cons]
      cases hleft : a.left with
      | true =>
          have hcount : ∀ o, count rules (tallyOf a) o = tallyOf a := fun o => if_pos hleft
          rw [tryCandidate, if_pos hleft, hcount, foldl_tryCandidate_left hleft, foldl_count_left hleft]
      | false =>
          rw [tryCandidate, if_neg (by simp [hleft]), ← tally_tryPath hleft]
          cases hnext : (tryPath env rules (if c.withDomain then rules.openedDomain else rules.openedPlain)
              c.absName a).left with
          | true => rw [foldl_tryCandidate_left hnext, foldl_count_left hnext]
          | false => rw [ih, tryPath_tried hnext, List.length_append, List.length_singleton]

end Fold

/-! ### The paths -/

section Paths

variable {env : SearchEnv} {rules : Rules} {sub name delim list : Str} {a : Attempts} {cs : List Candidate}
  {opens : Path → Bool}

theorem cuts_eq_pieces (hdelim : delim ≠ []) (n : ℕ) (list : Str) :
    cuts delim n list = pieces delim n list := by
  induction n generalizing list with
  | zero => rfl
  | succ n ih =>
      rw [cuts, pieces, splitFirst_eq_strstr hdelim]
      cases strstr delim list with
      | none => rfl
      | some pos =>
          dsimp only [Option.map_some]
          rw [if_neg hdelim, ih]

/-- The candidates are tried up to the first that opens. -/
theorem tried_foldl (hmem : ∀ k, env.malloc k = true)
    (hopens : ∀ k p, env.fopen k p = aeeSuccess ↔ opens p = true) (hleft : a.left = false) :
    (cs.foldl (tryCandidate env rules) a).tried.map Prod.fst =
      a.tried.map Prod.fst ++ tryFirst opens (cs.map Candidate.absName) := by
  induction cs generalizing a with
  | nil => exact (List.append_nil _).symm
  | cons c cs ih =>
      rw [List.foldl_cons, List.map_cons, tryFirst, tryCandidate, if_neg (by simp [hleft])]
      have htried : (tryPath env rules (if c.withDomain then rules.openedDomain else rules.openedPlain)
          c.absName a).tried = a.tried ++ [(c.absName, env.fopen a.tried.length c.absName)] := by
        unfold tryPath
        dsimp only
        rw [if_pos (hmem _)]
        split_ifs <;> rfl
      have hends : (tryPath env rules (if c.withDomain then rules.openedDomain else rules.openedPlain)
          c.absName a).left = true ↔ _ := tryPath_left hleft
      rw [hmem, or_iff_right (by simp), hopens] at hends
      by_cases hopen : opens c.absName = true
      · rw [foldl_tryCandidate_left (hends.mpr hopen), htried, List.map_append, if_pos hopen]
        rfl
      · rw [ih (by simpa [hopen] using hends), htried, List.map_append, List.append_assoc, if_neg hopen]
        rfl

/-- **The loop tries the paths of the search**: what `SearchPaths.lean` says of them holds of the loop. -/
theorem searched_tries (hmem : ∀ k, env.malloc k = true)
    (hopens : ∀ k p, env.fopen k p = aeeSuccess ↔ opens p = true) (hdelim : delim ≠ []) :
    (searched env rules sub name delim list (list.length + 1)).attempts.tried.map Prod.fst =
      tryDirs opens rules.nameLen sub name (pieces delim (list.length + 1) list) := by
  rw [tryDirs_eq, ← cuts_eq_pieces hdelim, searched, searched_attempts rfl, tried_foldl hmem hopens rfl,
    candidatesOf, List.map_flatMap]
  rfl

end Paths

/-! ### Outcomes that fail -/

section Outcomes

variable {pre pre' post post' os : List Outcome} {o o' : Outcome}

/-- Either all candidates fail, or there is a first one that does not. -/
theorem first_that_ends (os : List Outcome) : (∀ o ∈ os, o.Fails) ∨
    ∃ pre o post, os = pre ++ o :: post ∧ (∀ o ∈ pre, o.Fails) ∧ ¬ o.Fails := by
  induction os with
  | nil => exact .inl (fun _ h => absurd h List.not_mem_nil)
  | cons o os ih =>
      by_cases hfails : o.Fails
      · rcases ih with hall | ⟨pre, o', post, rfl, hpre, hends⟩
        · exact .inl (List.forall_mem_cons.mpr ⟨hfails, hall⟩)
        · exact .inr ⟨o :: pre, o', post, rfl, List.forall_mem_cons.mpr ⟨hfails, hpre⟩, hends⟩
      · exact .inr ⟨[], o, os, rfl, fun _ h => absurd h List.not_mem_nil, hfails⟩

/-- There is one such candidate. -/
theorem first_unique (heq : pre ++ o :: post = pre' ++ o' :: post') (hpre : ∀ o ∈ pre, o.Fails)
    (hpre' : ∀ o ∈ pre', o.Fails) (ho : ¬ o.Fails) (ho' : ¬ o'.Fails) : pre = pre' ∧ o = o' := by
  induction pre generalizing pre' with
  | nil =>
      cases pre' with
      | nil => exact ⟨rfl, (List.cons.inj heq).1⟩
      | cons x pre' => exact absurd (hpre' x List.mem_cons_self) ((List.cons.inj heq).1 ▸ ho)
  | cons x pre ih =>
      cases pre' with
      | nil => exact absurd (hpre x List.mem_cons_self) ((List.cons.inj heq).1 ▸ ho')
      | cons y pre' =>
          obtain ⟨rfl, hrest⟩ := List.cons.inj heq
          obtain ⟨rfl, rfl⟩ := ih hrest (List.forall_mem_cons.mp hpre).2 (List.forall_mem_cons.mp hpre').2
          exact ⟨rfl, rfl⟩

theorem success_not_fails (b : Bool) : ¬ (⟨b, some aeeSuccess⟩ : Outcome).Fails := by
  rintro ⟨c, hc, hne⟩
  exact hne (Option.some.inj hc).symm

theorem codes_append (hpre : ∀ o ∈ pre, o.Fails) : codes (pre ++ os) = codes pre ++ codes os := by
  induction pre with
  | nil => rfl
  | cons o pre ih =>
      obtain ⟨⟨c, hc, _⟩, hrest⟩ := List.forall_mem_cons.mp hpre
      rw [List.cons_append, codes, codes, hc, ih hrest]
      rfl

theorem codes_fail (hpre : ∀ o ∈ pre, o.Fails) : ∀ c ∈ codes pre, c ≠ aeeSuccess := by
  induction pre with
  | nil => exact fun _ h => absurd h List.not_mem_nil
  | cons o pre ih =>
      obtain ⟨⟨c, hc, hne⟩, hrest⟩ := List.forall_mem_cons.mp hpre
      rw [codes, hc]
      exact List.forall_mem_cons.mpr ⟨hne, ih hrest⟩

theorem mem_codes (hpre : ∀ o ∈ pre, o.Fails) {c : ℤ} : c ∈ codes pre ↔ ∃ o ∈ pre, o.code = some c := by
  induction pre with
  | nil => simp [codes]
  | cons o pre ih =>
      obtain ⟨⟨d, hd, _⟩, hrest⟩ := List.forall_mem_cons.mp hpre
      rw [codes, hd, List.mem_cons, ih hrest, List.exists_mem_cons_iff, hd, Option.some.injEq]
      exact or_congr_left eq_comm

theorem throughFirst_append {xs ys : List ℤ} (h : ∀ c ∈ xs, c ≠ aeeSuccess) :
    throughFirst (xs ++ ys) = xs ++ throughFirst ys := by
  induction xs with
  | nil => rfl
  | cons c xs ih =>
      obtain ⟨hc, hrest⟩ := List.forall_mem_cons.mp h
      rw [List.cons_append, throughFirst, if_neg hc, ih hrest, List.cons_append]

/-- The first error that is not `ENOENT`. -/
def serious (cs : List ℤ) : ℤ := (cs.find? (· ≠ enoent)).getD aeeSuccess

theorem serious_eq_success_iff {cs : List ℤ} (h : ∀ c ∈ cs, c ≠ aeeSuccess) :
    serious cs = aeeSuccess ↔ ∀ c ∈ cs, c = enoent := by
  unfold serious
  cases hfind : cs.find? (· ≠ enoent) with
  | none => simpa using hfind
  | some c =>
      have hmem := List.mem_of_find?_eq_some hfind
      have hne : c ≠ enoent := by simpa using List.find?_some hfind
      exact iff_of_false (h c hmem) (fun hall => hne (hall c hmem))

/-- `nErr` is the first error that is not `ENOENT`. -/
theorem serious_append {cs : List ℤ} (h : ∀ c ∈ cs, c ≠ aeeSuccess) (c : ℤ) :
    serious (cs ++ [c]) = fopenWithEnvFdRules.failed c (serious cs) := by
  simp only [fopenWithEnvFdRules]
  unfold serious
  rw [List.find?_append]
  cases hfind : cs.find? (· ≠ enoent) with
  | none =>
      by_cases hc : c = enoent
      · simp [hc]
      · simp [hc]
  | some e =>
      have hzero : e ≠ aeeSuccess := h e (List.mem_of_find?_eq_some hfind)
      have hne : e ≠ enoent := by simpa using List.find?_some hfind
      simp [hzero, hne]

/-- **Failing candidates**: their results are kept, and the first error that is not `ENOENT`. -/
theorem foldl_fails (hpre : ∀ o ∈ pre, o.Fails) :
    pre.foldl (count fopenWithEnvFdRules) ⟨[], enoent, aeeSuccess, false⟩ =
      ⟨codes pre, (codes pre).getLastD enoent, serious (codes pre), false⟩ := by
  induction pre using List.reverseRecOn with
  | nil => rfl
  | append_singleton pre o ih =>
      obtain ⟨hinit, hlast⟩ := List.forall_mem_append.mp hpre
      obtain ⟨c, hc, hne⟩ := hlast o List.mem_cons_self
      have hcodes : codes (pre ++ [o]) = codes pre ++ [c] := by
        rw [codes_append hinit, codes, hc]
        rfl
      rw [List.foldl_append, ih hinit, hcodes, serious_append (codes_fail hinit), List.getLastD_concat]
      simp [count, hc, hne]

/-- The result of a search that comes to the end of the list. -/
theorem finish_serious (hpre : ∀ o ∈ pre, o.Fails) :
    fopenWithEnvFdRules.finish ((codes pre).getLastD enoent) (serious (codes pre)) =
      ((codes pre).find? (· ≠ enoent)).getD enoent := by
  have hfail := codes_fail hpre
  simp only [fopenWithEnvFdRules]
  unfold serious
  cases hfind : (codes pre).find? (· ≠ enoent) with
  | none =>
      -- every result is `ENOENT`
      have hall : ∀ c ∈ codes pre, c = enoent := by simpa using hfind
      have hlast : (codes pre).getLastD enoent = enoent := by
        rcases List.eq_nil_or_concat (codes pre) with hnil | ⟨cs, c, hcs⟩
        · rw [hnil]
          rfl
        · rw [hcs, List.concat_eq_append, List.getLastD_concat]
          exact hall c (by rw [hcs]; simp)
      rw [hlast]
      simp
  | some e =>
      have hzero : e ≠ aeeSuccess := hfail e (List.mem_of_find?_eq_some hfind)
      have hne : e ≠ enoent := by simpa using List.find?_some hfind
      simp [hzero, hne]

theorem not_success_mem (hpre : ∀ o ∈ pre, o.Fails) : aeeSuccess ∉ codes pre :=
  fun hmem => codes_fail hpre _ hmem rfl

theorem throughFirst_fails (hpre : ∀ o ∈ pre, o.Fails) : throughFirst (codes pre) = codes pre := by
  have happend : throughFirst (codes pre ++ []) = codes pre ++ throughFirst [] :=
    throughFirst_append (codes_fail hpre)
  rwa [List.append_nil, throughFirst, List.append_nil] at happend

/-- An error is hidden when the path that opens has the name of the domain. -/
theorem masked_iff (hpre : ∀ o ∈ pre, o.Fails) {b : Bool} : Masked (pre ++ ⟨b, some aeeSuccess⟩ :: post) ↔
    b = true ∧ serious (codes pre) ≠ aeeSuccess := by
  rw [Ne, serious_eq_success_iff (codes_fail hpre)]
  constructor
  · rintro ⟨pre', post', heq, hpre', o, ho, hne⟩
    obtain ⟨rfl, hsame⟩ := first_unique heq hpre hpre' (success_not_fails b) (success_not_fails true)
    refine ⟨(Outcome.mk.inj hsame).1, fun hall => ?_⟩
    obtain ⟨c, hc, -⟩ := hpre o ho
    exact hne (hc.trans (congrArg some (hall c ((mem_codes hpre).mpr ⟨o, ho, hc⟩))))
  · rintro ⟨rfl, hnot⟩
    push Not at hnot
    obtain ⟨c, hc, hne⟩ := hnot
    obtain ⟨o, ho, hcode⟩ := (mem_codes hpre).mp hc
    refine ⟨pre, post, rfl, hpre, o, ho, ?_⟩
    rw [hcode]
    exact fun heq => hne (Option.some.inj heq)

/-- The result of the outcomes. -/
def Tally.result (t : Tally) : ℤ := if t.left then t.nErr else fopenWithEnvFdRules.finish t.err t.nErr

/-- **The result is right** unless the path that opens hides an error. -/
theorem asClaimed_iff (os : List Outcome) :
    AsClaimed os (os.foldl (count fopenWithEnvFdRules) ⟨[], enoent, aeeSuccess, false⟩).result
        (os.foldl (count fopenWithEnvFdRules) ⟨[], enoent, aeeSuccess, false⟩).codes ↔ ¬ Masked os := by
  rcases first_that_ends os with hall | ⟨pre, ⟨b, code⟩, post, rfl, hpre, hends⟩
  · -- no candidate opens
    have hnot : ¬ Masked os := by
      rintro ⟨pre, post, rfl, -, -⟩
      exact success_not_fails true (hall _ (List.mem_append_right _ List.mem_cons_self))
    have hrefused : ¬ refused os := by
      rintro ⟨o, ho, hnone⟩
      obtain ⟨c, hc, -⟩ := hall o ho
      exact nomatch hnone.symm.trans hc
    have hmem := not_success_mem hall
    refine iff_of_true ?_ hnot
    rw [foldl_fails hall, Tally.result, if_neg (by simp), finish_serious hall]
    refine ⟨iff_of_false ?_ hmem, (throughFirst_fails hall).symm, fun _ => by rw [if_neg hrefused]⟩
    cases hfind : (codes os).find? (· ≠ enoent) with
    | none => decide
    | some e => exact codes_fail hall e (List.mem_of_find?_eq_some hfind)
  · rw [List.foldl_append, foldl_fails hpre, List.foldl_cons]
    cases code with
    | none =>
        -- no memory for its path
        have hcodes : codes (pre ++ ⟨b, none⟩ :: post) = codes pre := by
          rw [codes_append hpre, codes, List.append_nil]
        have hrefused : refused (pre ++ ⟨b, none⟩ :: post) :=
          ⟨⟨b, none⟩, List.mem_append_right _ List.mem_cons_self, rfl⟩
        have hnot : ¬ Masked (pre ++ ⟨b, none⟩ :: post) := by
          rintro ⟨pre', post', heq, hpre', -⟩
          have hsame := (first_unique heq hpre hpre' hends (success_not_fails true)).2
          exact nomatch (Outcome.mk.inj hsame).2
        refine iff_of_true ?_ hnot
        rw [foldl_count_left (by rfl)]
        refine ⟨?_, ?_, fun _ => (if_pos hrefused).symm⟩
        · rw [hcodes]
          exact iff_of_false (show aeeEnomemory ≠ aeeSuccess by decide) (not_success_mem hpre)
        · rw [hcodes, throughFirst_fails hpre]
          rfl
    | some c =>
        -- the first candidate that opens
        have hzero : c = aeeSuccess := by
          by_contra hne
          exact hends ⟨c, rfl, hne⟩
        subst hzero
        have hcodes : codes (pre ++ ⟨b, some aeeSuccess⟩ :: post) =
            codes pre ++ aeeSuccess :: codes post := by
          rw [codes_append hpre, codes]
        have hmem : aeeSuccess ∈ codes (pre ++ ⟨b, some aeeSuccess⟩ :: post) := by
          rw [hcodes]
          exact List.mem_append_right _ List.mem_cons_self
        have htried : throughFirst (codes (pre ++ ⟨b, some aeeSuccess⟩ :: post)) =
            codes pre ++ [aeeSuccess] := by
          rw [hcodes, throughFirst_append (codes_fail hpre), throughFirst, if_pos rfl]
        have hresult : (count fopenWithEnvFdRules
            ⟨codes pre, (codes pre).getLastD enoent, serious (codes pre), false⟩
            ⟨b, some aeeSuccess⟩).result = if b then serious (codes pre) else aeeSuccess := by
          cases b <;> rfl
        rw [foldl_count_left (by rfl), masked_iff hpre]
        constructor
        · rintro ⟨hsuccess, -, -⟩ ⟨rfl, hserious⟩
          exact hserious (hresult.symm.trans (hsuccess.mpr hmem))
        · intro hnot
          refine ⟨iff_of_true ?_ hmem, htried.symm, fun hnone => absurd hmem hnone⟩
          rw [hresult]
          split_ifs with hb
          · exact not_not.mp (fun hserious => hnot ⟨hb, hserious⟩)
          · rfl

end Outcomes

/-! ### The result -/

/-- The outcomes of the paths of the first `n` directories. -/
def outcomesOf (env : SearchEnv) (domain : Domain) (name delim list : Str) (n : ℕ) : List Outcome :=
  outcomes env 0 (candidatesOf fopenWithEnvFdRules (subsystemName domain) name (cuts delim n list))

/-- **When the result matches what was opened**: for every list of directories and all outcomes, the loop
of `apps_std_fopen_with_env_fd` that is over after `n` tests has succeeded exactly when a candidate has
opened, has stopped there, and else gives the first error that is not `ENOENT`, unless the path that opens
hides an error. -/
theorem fopen_with_env_fd_result_iff (env : SearchEnv) (domain : Domain) (name delim list : Str) (n : ℕ) :
    let s := searched env fopenWithEnvFdRules (subsystemName domain) name delim list n
    s.Over → (AsClaimed (outcomesOf env domain name delim list n) (s.attempts.result fopenWithEnvFdRules)
        (s.attempts.tried.map Prod.snd) ↔ ¬ Masked (outcomesOf env domain name delim list n)) := by
  intro s _
  have htally : tallyOf s.attempts = (outcomesOf env domain name delim list n).foldl
      (count fopenWithEnvFdRules) ⟨[], enoent, aeeSuccess, false⟩ := by
    have hsearch : s.attempts = _ := searched_attempts rfl n
    rw [hsearch]
    exact tally_foldl
  have hresult : s.attempts.result fopenWithEnvFdRules = (tallyOf s.attempts).result := rfl
  have htried : s.attempts.tried.map Prod.snd = (tallyOf s.attempts).codes := rfl
  rw [hresult, htried, htally]
  exact asClaimed_iff _

/-- A file in the directory itself. -/
def plainOnly : SearchEnv := ⟨fun _ => true, fun k _ => if k = 1 then aeeSuccess else enoent⟩

theorem fopen_with_env_fd_result_plain :
    AsClaimed [⟨true, some enoent⟩, ⟨false, some aeeSuccess⟩] aeeSuccess [enoent, aeeSuccess] := by
  have hnot : ¬ Masked [⟨true, some enoent⟩, ⟨false, some aeeSuccess⟩] := by
    have hpre : ∀ o ∈ [(⟨true, some enoent⟩ : Outcome)], o.Fails := by
      intro o ho
      rw [List.mem_singleton.mp ho]
      exact ⟨enoent, rfl, by decide⟩
    intro hmasked
    have hname := ((masked_iff hpre).mp hmasked).1
    exact absurd hname (by decide)
  exact (fopen_with_env_fd_result_iff plainOnly 3 (ascii "f") (ascii ";") (ascii "/a") 1 (by decide)).mpr hnot

/-- The first directory may not be read, and the second has the file under the name of the domain. -/
def deniedThenFound : SearchEnv :=
  ⟨fun _ => true, fun k _ => if k = 0 then 13 else if k = 2 then aeeSuccess else enoent⟩

/-- A file was opened, and the result is the error of the first directory. -/
theorem opened_file_reported_denied :
    let s := searched deniedThenFound fopenWithEnvFdRules (subsystemName 3) (ascii "f") (ascii ";")
      (ascii "/a;/b") 2
    s.Over ∧ s.attempts.tried.map Prod.snd = [13, enoent, aeeSuccess] ∧
      s.attempts.result fopenWithEnvFdRules = 13 ∧
      ¬ AsClaimed (outcomesOf deniedThenFound 3 (ascii "f") (ascii ";") (ascii "/a;/b") 2)
        (s.attempts.result fopenWithEnvFdRules) (s.attempts.tried.map Prod.snd) := by
  intro s
  have hresult : s.attempts.result fopenWithEnvFdRules = 13 := by decide
  refine ⟨by decide, by decide, hresult, fun h => ?_⟩
  have hmem : aeeSuccess ∈
      codes (outcomesOf deniedThenFound 3 (ascii "f") (ascii ";") (ascii "/a;/b") 2) := by decide
  exact absurd (hresult.symm.trans (h.success.mpr hmem)) (by decide)

end FastRpc.SearchResult
