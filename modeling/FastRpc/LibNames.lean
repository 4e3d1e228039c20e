import FastRpc.EnvDirlist

/-! # The names of the custom libraries

`get_non_preload_lib_names` lists the shared objects in the directories of `DSP_LIBRARY_PATH`, each name
with a semicolon behind it.  Three sizes are not what they should be: the value is copied into a buffer for
the name of the variable, so that its first 16 characters are left; the list is appended to what the new
buffer happens to hold; and the check of the length leaves out the semicolon and the terminator, so that the
end of the list may be cut off.

`lib_names_complete_iff` says for which values, directories and buffers the list is the right one. -/

namespace FastRpc.LibNames

open CInt CString SearchPaths EnvDirlist

/-! ### The code -/

/-- `MAX_NON_PRELOAD_LIBS_LEN`. -/
def maxNonPreloadLibsLen : ℕ := 2048

/-- `FILE_EXT`. -/
def fileExt : Str := ascii ".so"

/-- An entry of a directory, what it is, and whether the file system stores that in `d_type`. -/
structure Dirent where
  d_name : Str
  regular : Bool
  d_type_known : Bool
  deriving DecidableEq, Repr

/-- `d_type == DT_REG`. -/
def Dirent.isReg (entry : Dirent) : Bool := entry.d_type_known && entry.regular

/-- The surroundings: whether `calloc` succeeds, the value of the variable, the directories that can be
opened, and the characters in the new buffer, up to a terminator if it has one. -/
structure LibEnv where
  calloc : Bool
  getenv : Option Str
  opendir : Str → Option (List Dirent)
  leftover : Str
  leftover_le : leftover.length ≤ maxNonPreloadLibsLen

/-- How the function fails, or leaves a buffer. -/
inductive Fail
  | outside
  | ENOMEMORY
  | EGETENV
  | EBADPARM
  | EBUFFERTOOSMALL
  deriving DecidableEq, Repr

/-- `*lib_names` and `concat_len`. -/
structure Names where
  lib_names : Str
  concat_len : ℕ
  deriving DecidableEq, Repr

/-- `strlcat` to `*lib_names`. -/
def cat (dst src : Str) : Str := (strlcat maxNonPreloadLibsLen (some dst) src).getD dst

/-- One file. -/
def addFile (p : Names) (file : Str) : Except Fail Names :=
  if maxNonPreloadLibsLen < p.concat_len + file.length then .error .EBUFFERTOOSMALL
  else .ok ⟨cat (cat p.lib_names file) semicolon, (cat p.lib_names file).length + semicolon.length⟩

/-- One entry of a directory. -/
def addEntry (p : Names) (entry : Dirent) : Except Fail Names :=
  if entry.isReg && (strstr fileExt entry.d_name).isSome then addFile p entry.d_name else .ok p

/-- One directory. -/
def addDir (env : LibEnv) (p : Names) (path : Str) : Except Fail Names :=
  match env.opendir path with
  | none => .error .EBADPARM
  | some entries => entries.foldlM addEntry p

/-- `dsp_search_path_len`, the length of the variable's name. -/
def dspSearchPathLen : ℤ := dspLibraryPath.length + 1

/-- The loop over the directories, and the size of what it packed. -/
def packDirs (env : LibEnv) (data_paths : Str) : Except Fail (Str × ℕ) :=
  match (tokens semicolon data_paths []).foldlM (addDir env) ⟨env.leftover, 0⟩ with
  | .error e => .error e
  | .ok p =>
      -- without a terminator `strlen` leaves the buffer
      if p.lib_names.length < maxNonPreloadLibsLen then .ok (p.lib_names, p.lib_names.length + 1)
      else .error .outside

/-- What follows the copy of the value. -/
def packCopied (env : LibEnv) : Except Stop (Str × ℤ) → Except Fail (Str × ℕ)
  | .error _ => .error .outside
  | .ok (data_paths, _) => packDirs env data_paths

/-- The variable has the value `vv`. -/
def packValue (env : LibEnv) (vv : Str) : Except Fail (Str × ℕ) :=
  packCopied env (appsStdGetenv (toSize dspSearchPathLen) dspSearchPathLen [] vv)

/-- `get_non_preload_lib_names`, with `*lib_names` and `*buffer_size`. -/
def getNonPreloadLibNames (env : LibEnv) : Except Fail (Str × ℕ) :=
  if env.calloc then
    match env.getenv with
    | none => .error .EGETENV
    | some vv => packValue env vv
  else .error .ENOMEMORY

/-! ### What is claimed, and when -/

/-- The names of the shared objects in the directories, where `sel` says which entries are regular. -/
def objects (sel : Dirent → Bool) (env : LibEnv) (paths : List Str) : List Str :=
  paths.flatMap fun path => (((env.opendir path).getD []).filter
    fun entry => sel entry && (strstr fileExt entry.d_name).isSome).map Dirent.d_name

/-- Each name with a semicolon behind it. -/
def joined (files : List Str) : Str := files.flatMap (· ++ semicolon)

/-- The list for a value. -/
def fullNames (env : LibEnv) (vv : Str) : Str :=
  joined (objects Dirent.regular env (tokens semicolon vv []))

/-- No buffer is left, a list that is returned is the whole one with its terminator and its size, and a list
that does not fit is refused. -/
structure Complete (env : LibEnv) : Prop where
  inside : getNonPreloadLibNames env ≠ .error .outside
  whole : ∀ vv, env.getenv = some vv → ∀ lib_names buffer_size,
    getNonPreloadLibNames env = .ok (lib_names, buffer_size) →
      lib_names = fullNames env vv ∧ lib_names.length < maxNonPreloadLibsLen ∧
        buffer_size = (fullNames env vv).length + 1
  refused : ∀ vv, env.getenv = some vv → maxNonPreloadLibsLen < (fullNames env vv).length + 1 →
    ∃ e, getNonPreloadLibNames env = .error e

/-- The beginning of a value that fits a buffer for the name of the variable. -/
def copied (vv : Str) : Str := vv.take ((stdMin dspSearchPathLen (wrap (vv.length + 1))).toNat - 1)

/-- The files that are listed. -/
def packedFiles (env : LibEnv) (vv : Str) : List Str :=
  objects Dirent.isReg env (tokens semicolon (copied vv) [])

/-- The names pass the check of the length: a single one is checked by itself, and of several the last one
with what is before it. -/
def Short (L : Str) (files : List Str) : Prop :=
  (∃ file, files = [file] ∧ file.length ≤ maxNonPreloadLibsLen) ∨
    (L ++ joined files).length ≤ maxNonPreloadLibsLen + 1

/-- The directories can be opened, and the names in them are short enough. -/
structure Accepts (env : LibEnv) (vv : Str) : Prop where
  opens : ∀ path ∈ tokens semicolon (copied vv) [], (env.opendir path).isSome = true
  short : Short env.leftover (packedFiles env vv)

/-! ### One directory after the other -/

section Files

variable {p : Names} {file L : Str} {done files : List Str} {env : LibEnv} {paths : List Str}

theorem addEntry_foldlM (entries : List Dirent) (p : Names) : entries.foldlM addEntry p =
    ((entries.filter fun entry => entry.isReg && (strstr fileExt entry.d_name).isSome).map
      Dirent.d_name).foldlM addFile p := by
  induction entries generalizing p with
  | nil => rfl
  | cons entry entries ih =>
      rw [List.foldlM_cons, List.filter_cons]
      by_cases hlib : (entry.isReg && (strstr fileExt entry.d_name).isSome) = true
      · rw [addEntry, if_pos hlib, if_pos hlib, List.map_cons, List.foldlM_cons]
        exact congrArg _ (funext ih)
      · rw [addEntry, if_neg hlib, if_neg hlib]
        exact ih p

/-- The loops over the directories and over their entries are one loop over the files. -/
theorem addDir_foldlM (hopens : ∀ path ∈ paths, (env.opendir path).isSome = true) (p : Names) :
    paths.foldlM (addDir env) p = (objects Dirent.isReg env paths).foldlM addFile p := by
  induction paths generalizing p with
  | nil => rfl
  | cons path paths ih =>
      obtain ⟨hpath, hpaths⟩ := List.forall_mem_cons.mp hopens
      obtain ⟨entries, hentries⟩ := Option.isSome_iff_exists.mp hpath
      rw [List.foldlM_cons, objects, List.flatMap_cons, List.foldlM_append, hentries, addDir, hentries]
      dsimp only
      rw [addEntry_foldlM]
      exact congrArg _ (funext (ih hpaths))

theorem addFile_fails {e : Fail} (h : addFile p file = .error e) : e ≠ .outside := by
  unfold addFile at h
  split_ifs at h
  obtain rfl := Except.error.inj h
  decide

theorem foldlM_addFile_fails {e : Fail} (h : files.foldlM addFile p = .error e) : e ≠ .outside := by
  induction files generalizing p with
  | nil => exact nomatch h
  | cons file files ih =>
      rw [List.foldlM_cons] at h
      cases hfile : addFile p file with
      | error e' =>
          rw [hfile] at h
          exact addFile_fails (hfile.trans (congrArg _ (Except.error.inj h)))
      | ok q =>
          rw [hfile] at h
          exact ih h

/-- A directory that cannot be opened makes the whole call fail. -/
theorem addDir_fails (hclosed : ¬ ∀ path ∈ paths, (env.opendir path).isSome = true) (p : Names) :
    ∃ e, e ≠ .outside ∧ paths.foldlM (addDir env) p = .error e := by
  induction paths generalizing p with
  | nil => exact absurd (fun _ h => nomatch h) hclosed
  | cons path paths ih =>
      rw [List.foldlM_cons, addDir]
      cases hpath : env.opendir path with
      | none => exact ⟨.EBADPARM, by decide, rfl⟩
      | some entries =>
          dsimp only
          rw [addEntry_foldlM]
          generalize hfiles : List.foldlM addFile p _ = r
          cases r with
          | error e => exact ⟨e, foldlM_addFile_fails hfiles, rfl⟩
          | ok q =>
              refine ih (fun hall => hclosed ?_) q
              exact List.forall_mem_cons.mpr ⟨by rw [hpath]; rfl, hall⟩

end Files

/-! ### One file after the other -/

section Buffer

variable {p : Names} {file L x y : Str} {done files : List Str}

theorem cat_eq (L x : Str) : cat L x = L ++ x.take (maxNonPreloadLibsLen - 1 - L.length) := rfl

theorem cat_cat (L x y : Str) : cat (cat L x) y = cat L (x ++ y) := by
  simp only [cat_eq, List.take_append, List.length_append, List.length_take, List.append_assoc]
  congr 3
  omega

theorem length_cat (L x : Str) :
    (cat L x).length = L.length + min (maxNonPreloadLibsLen - 1 - L.length) x.length := by
  rw [cat_eq, List.length_append, List.length_take]

/-- A buffer with a terminator holds what fits of the text. -/
theorem cat_take (hL : L.length < maxNonPreloadLibsLen) :
    cat L x = (L ++ x).take (maxNonPreloadLibsLen - 1) := by
  rw [cat_eq, List.take_append, List.take_of_length_le (l := L) (by omega)]

theorem joined_append (files files' : List Str) : joined (files ++ files') = joined files ++ joined files' :=
  List.flatMap_append

theorem joined_singleton (file : Str) : joined [file] = file ++ semicolon := by
  rw [joined, List.flatMap_cons, List.flatMap_nil, List.append_nil]

/-- Behind a list of files: what the buffer holds, and which lengths pass the check. -/
structure Behind (L : Str) (done : List Str) (p : Names) : Prop where
  names : p.lib_names = cat L (joined done)
  check : ∀ n, 0 < n →
    (maxNonPreloadLibsLen < p.concat_len + n ↔ maxNonPreloadLibsLen < (L ++ joined done).length + n)

theorem behind_addFile (file : Str) (hL : L.length ≤ maxNonPreloadLibsLen) (hnames : p.lib_names = cat L (joined done)) :
    Behind L (done ++ [file])
      ⟨cat (cat p.lib_names file) semicolon, (cat p.lib_names file).length + semicolon.length⟩ := by
  have hone : semicolon.length = 1 := rfl
  have hlast : joined (done ++ [file]) = joined done ++ (file ++ semicolon) := by
    rw [joined_append, joined_singleton]
  constructor
  · rw [hlast, hnames, cat_cat, cat_cat]
  · intro n hn
    have hmax : maxNonPreloadLibsLen = 2048 := rfl
    dsimp only
    rw [hlast, hnames, cat_cat, length_cat]
    simp only [List.length_append]
    omega

/-- **The loop over the files**, behind at least one. -/
theorem foldlM_addFile (hL : L.length ≤ maxNonPreloadLibsLen) (hpos : ∀ file ∈ files, file ≠ [])
    (h : Behind L done p) :
    if files = [] ∨ (L ++ joined (done ++ files)).length ≤ maxNonPreloadLibsLen + 1 then
      ∃ q, files.foldlM addFile p = .ok q ∧ q.lib_names = cat L (joined (done ++ files))
    else ∃ e, files.foldlM addFile p = .error e := by
  induction files generalizing p done with
  | nil =>
      rw [if_pos (.inl rfl), List.append_nil]
      exact ⟨p, rfl, h.names⟩
  | cons file files ih =>
      obtain ⟨hfile, hfiles⟩ := List.forall_mem_cons.mp hpos
      have hrest : done ++ file :: files = done ++ [file] ++ files := by rw [List.append_assoc]; rfl
      have hlength : (L ++ joined (done ++ [file] ++ files)).length =
          (L ++ joined done).length + file.length + 1 + (joined files).length := by
        rw [joined_append, joined_append, joined_singleton]
        simp only [List.length_append, show semicolon.length = 1 from rfl]
        omega
      have hcheck := h.check file.length (List.length_pos_iff.mpr hfile)
      rw [List.foldlM_cons, addFile, hrest, hlength]
      by_cases hlong : maxNonPreloadLibsLen < p.concat_len + file.length
      · rw [if_pos hlong, if_neg]
        · exact ⟨_, rfl⟩
        · have htotal := hcheck.mp hlong
          simp only [List.cons_ne_nil, false_or]
          omega
      · have hrun := ih hfiles (behind_addFile file hL h.names)
        rw [hlength] at hrun
        rw [if_neg hlong]
        by_cases hnil : files = []
        · subst hnil
          have htotal := mt hcheck.mpr hlong
          have hzero : (joined []).length = 0 := rfl
          rw [if_pos (.inl rfl)] at hrun
          rw [if_pos (.inr (by omega))]
          exact hrun
        · simp only [List.cons_ne_nil, false_or]
          simp only [hnil, false_or] at hrun
          exact hrun

/-- The whole loop over the files. -/
theorem foldlM_addFile_start (hL : L.length ≤ maxNonPreloadLibsLen) (hpos : ∀ file ∈ files, file ≠ []) :
    (Short L files → ∃ q, files.foldlM addFile ⟨L, 0⟩ = .ok q ∧ q.lib_names = cat L (joined files)) ∧
      (¬ Short L files → ∃ e, files.foldlM addFile ⟨L, 0⟩ = .error e) := by
  cases files with
  | nil =>
      have hshort : Short L [] := .inr (by rw [joined, List.flatMap_nil, List.append_nil]; omega)
      refine ⟨fun _ => ⟨⟨L, 0⟩, rfl, ?_⟩, fun hnot => absurd hshort hnot⟩
      rw [cat_eq, joined, List.flatMap_nil, List.take_nil, List.append_nil]
  | cons file files =>
      obtain ⟨hfile, hfiles⟩ := List.forall_mem_cons.mp hpos
      have hrest := foldlM_addFile hL hfiles (behind_addFile (p := ⟨L, 0⟩) file hL
        (show L = cat L (joined []) by rw [cat_eq, joined, List.flatMap_nil, List.take_nil, List.append_nil]))
      rw [List.nil_append, List.singleton_append] at hrest
      have hlength : file.length + 1 ≤ (joined (file :: files)).length := by
        rw [joined, List.flatMap_cons]
        simp [semicolon]
      rw [List.foldlM_cons, addFile]
      simp only [Nat.zero_add]
      by_cases hlong : maxNonPreloadLibsLen < file.length
      · rw [if_pos hlong]
        refine ⟨fun hshort => ?_, fun _ => ⟨_, rfl⟩⟩
        rcases hshort with ⟨single, hsingle, hle⟩ | hle
        · obtain ⟨rfl, -⟩ := List.cons.inj hsingle
          exact absurd hle (Nat.not_le_of_lt hlong)
        · rw [List.length_append] at hle
          omega
      · rw [if_neg hlong]
        have hiff : Short L (file :: files) ↔
            (files = [] ∨ (L ++ joined (file :: files)).length ≤ maxNonPreloadLibsLen + 1) := by
          refine or_congr ⟨fun hex => ?_, fun hnil => ⟨file, by rw [hnil], Nat.le_of_not_lt hlong⟩⟩ Iff.rfl
          obtain ⟨single, hsingle, -⟩ := hex
          exact (List.cons.inj hsingle).2
        rw [hiff]
        constructor
        · intro hshort
          rw [if_pos hshort] at hrest
          exact hrest
        · intro hlong
          rw [if_neg hlong] at hrest
          exact hrest

end Buffer

/-! ### The whole call -/

section Call

variable {env : LibEnv} {vv : Str}

theorem packedFiles_ne_nil (env : LibEnv) (vv : Str) : ∀ file ∈ packedFiles env vv, file ≠ [] := by
  intro file hfile
  obtain ⟨path, -, hfile⟩ := List.mem_flatMap.mp hfile
  obtain ⟨entry, hentry, rfl⟩ := List.mem_map.mp hfile
  have hlib := (Bool.and_eq_true_iff.mp (List.mem_filter.mp hentry).2).2
  obtain ⟨i, hi⟩ := Option.isSome_iff_exists.mp hlib
  have hle := strstr_le hi
  have hext : fileExt.length = 3 := by decide
  exact List.length_pos_iff.mp (by omega)

theorem dspSearchPathLen_range : 0 ≤ dspSearchPathLen ∧ dspSearchPathLen ≤ 4096 ∧ dspSearchPathLen ≤ intMax := by
  have hname : dspLibraryPath.length = 16 := by decide
  have hmax := intMax_eq
  unfold dspSearchPathLen
  rw [hname]
  omega

theorem getNonPreloadLibNames_some (hcalloc : env.calloc = true) (hvv : env.getenv = some vv) :
    getNonPreloadLibNames env = packValue env vv := by
  rw [getNonPreloadLibNames, if_pos hcalloc, hvv]

/-- A value whose length is an `int` is packed as far as it was copied. -/
theorem packValue_inside (hlen : 0 ≤ wrap (vv.length + 1)) : packValue env vv = packDirs env (copied vv) := by
  rw [packValue, getenv_inside hlen dspSearchPathLen_range.1 dspSearchPathLen_range.2.2, packCopied, copied]

/-- A longer one is written over the end of the buffer. -/
theorem packValue_outside (hlen : wrap (vv.length + 1) < 0) : packValue env vv = .error .outside := by
  rw [packValue, getenv_outside hlen dspSearchPathLen_range.1 dspSearchPathLen_range.2.1, packCopied]

theorem packDirs_accepted (haccepts : Accepts env vv) : packDirs env (copied vv) =
    if env.leftover.length < maxNonPreloadLibsLen then
      .ok ((env.leftover ++ joined (packedFiles env vv)).take (maxNonPreloadLibsLen - 1),
        ((env.leftover ++ joined (packedFiles env vv)).take (maxNonPreloadLibsLen - 1)).length + 1)
    else .error .outside := by
  obtain ⟨q, hq, hnames⟩ :=
    (foldlM_addFile_start env.leftover_le (packedFiles_ne_nil env vv)).1 haccepts.short
  rw [packDirs, addDir_foldlM haccepts.opens, ← packedFiles, hq]
  dsimp only
  rw [hnames]
  have hlength := length_cat env.leftover (joined (packedFiles env vv))
  have hmax : maxNonPreloadLibsLen = 2048 := rfl
  by_cases hL : env.leftover.length < maxNonPreloadLibsLen
  · rw [if_pos hL, if_pos (by omega), cat_take hL]
  · rw [if_neg hL, if_neg (by omega)]

theorem packDirs_refused (hrefuses : ¬ Accepts env vv) :
    ∃ e, e ≠ .outside ∧ packDirs env (copied vv) = .error e := by
  rw [packDirs]
  by_cases hopens : ∀ path ∈ tokens semicolon (copied vv) [], (env.opendir path).isSome = true
  · have hlong : ¬ Short env.leftover (packedFiles env vv) := fun hshort => hrefuses ⟨hopens, hshort⟩
    obtain ⟨e, he⟩ := (foldlM_addFile_start env.leftover_le (packedFiles_ne_nil env vv)).2 hlong
    rw [addDir_foldlM hopens, ← packedFiles, he]
    exact ⟨e, foldlM_addFile_fails he, rfl⟩
  · obtain ⟨e, hinside, he⟩ := addDir_fails hopens ⟨env.leftover, 0⟩
    rw [he]
    exact ⟨e, hinside, rfl⟩

theorem complete_of_error {e : Fail} (he : getNonPreloadLibNames env = .error e) (hinside : e ≠ .outside) :
    Complete env := by
  refine ⟨fun hout => hinside (Except.error.inj (he.symm.trans hout)), fun _ _ _ _ hok => ?_,
    fun _ _ _ => ⟨e, he⟩⟩
  exact nomatch he.symm.trans hok

theorem complete_iff_of_value (hcalloc : env.calloc = true) (hvv : env.getenv = some vv) : Complete env ↔
    0 ≤ wrap (vv.length + 1) ∧ (Accepts env vv → env.leftover.length < maxNonPreloadLibsLen ∧
      (env.leftover ++ joined (packedFiles env vv)).take (maxNonPreloadLibsLen - 1) = fullNames env vv) := by
  have hget := getNonPreloadLibNames_some hcalloc hvv
  rcases lt_or_ge (wrap (vv.length + 1)) 0 with hlen | hlen
  · refine iff_of_false (fun h => h.inside (hget.trans (packValue_outside hlen))) fun h => ?_
    exact absurd h.1 (not_le_of_gt hlen)
  · rw [packValue_inside hlen] at hget
    by_cases haccepts : Accepts env vv
    · rw [packDirs_accepted haccepts] at hget
      by_cases hL : env.leftover.length < maxNonPreloadLibsLen
      · rw [if_pos hL] at hget
        constructor
        · intro h
          exact ⟨hlen, fun _ => ⟨hL, (h.whole vv hvv _ _ hget).1⟩⟩
        · rintro ⟨-, hcond⟩
          obtain ⟨-, hnames⟩ := hcond haccepts
          rw [hnames] at hget
          have hshort : (fullNames env vv).length < maxNonPreloadLibsLen := by
            have hmax : maxNonPreloadLibsLen = 2048 := rfl
            rw [← hnames, List.length_take]
            omega
          refine ⟨fun hout => (nomatch hget.symm.trans hout), fun vv' hvv' names size hok => ?_,
            fun vv' hvv' hlong => ?_⟩
          · obtain rfl := Option.some.inj (hvv.symm.trans hvv')
            obtain ⟨rfl, rfl⟩ := Prod.mk.inj (Except.ok.inj (hget.symm.trans hok))
            exact ⟨rfl, hshort, rfl⟩
          · obtain rfl := Option.some.inj (hvv.symm.trans hvv')
            omega
      · rw [if_neg hL] at hget
        exact iff_of_false (fun h => h.inside hget) fun h => hL (h.2 haccepts).1
    · obtain ⟨e, hinside, he⟩ := packDirs_refused haccepts
      exact iff_of_true (complete_of_error (hget.trans he) hinside) ⟨hlen, fun h => absurd h haccepts⟩

end Call

/-- **The list is complete exactly when** the value's length is an `int`, and what is accepted is the whole
list: the new buffer has a terminator, and what it held before with the files found through the value's
beginning behind it, as far as it fits, is the list of the files found through the whole value. -/
theorem lib_names_complete_iff (env : LibEnv) : Complete env ↔
    ∀ vv, env.getenv = some vv → env.calloc = true →
      0 ≤ wrap (vv.length + 1) ∧ (Accepts env vv → env.leftover.length < maxNonPreloadLibsLen ∧
        (env.leftover ++ joined (packedFiles env vv)).take (maxNonPreloadLibsLen - 1) = fullNames env vv) := by
  by_cases hcalloc : env.calloc = true
  · cases hvv : env.getenv with
    | none =>
        refine iff_of_true (complete_of_error (e := .EGETENV) ?_ (by decide)) fun _ h => nomatch h
        rw [getNonPreloadLibNames, if_pos hcalloc, hvv]
    | some vv =>
        rw [complete_iff_of_value hcalloc hvv]
        constructor
        · intro h vv' hvv' _
          exact Option.some.inj hvv' ▸ h
        · exact fun h => h vv rfl hcalloc
  · refine iff_of_true (complete_of_error (e := .ENOMEMORY) ?_ (by decide)) fun _ _ h => absurd h hcalloc
    rw [getNonPreloadLibNames, if_neg hcalloc]

/-- A directory of one shared object. -/
def oneObject (name : Str) : Option (List Dirent) := some [⟨name, true, true⟩]

/-- What the buffer held comes first; and of a longer value only the first directory is left. -/
theorem list_wrong :
    getNonPreloadLibNames ⟨true, some (ascii "/d"), fun _ => oneObject (ascii "a.so"), ascii "x", by decide⟩ =
        .ok (ascii "xa.so;", 7) ∧
      ¬ Complete ⟨true, some (ascii "/d"), fun _ => oneObject (ascii "a.so"), ascii "x", by decide⟩ ∧
      getNonPreloadLibNames ⟨true, some (ascii "/vendor/lib/dsp/;/data/dsp"),
          fun _ => oneObject (ascii "a.so"), [], by decide⟩ = .ok (ascii "a.so;", 6) ∧
      ¬ Complete ⟨true, some (ascii "/vendor/lib/dsp/;/data/dsp"), fun _ => oneObject (ascii "a.so"), [],
        by decide⟩ := by
  have hfirst : getNonPreloadLibNames ⟨true, some (ascii "/d"), fun _ => oneObject (ascii "a.so"), ascii "x",
      by decide⟩ = .ok (ascii "xa.so;", 7) := by decide +kernel
  have hsecond : getNonPreloadLibNames ⟨true, some (ascii "/vendor/lib/dsp/;/data/dsp"),
      fun _ => oneObject (ascii "a.so"), [], by decide⟩ = .ok (ascii "a.so;", 6) := by decide +kernel
  refine ⟨hfirst, fun h => ?_, hsecond, fun h => ?_⟩
  · exact absurd (h.whole _ rfl _ _ hfirst).1 (by decide +kernel)
  · exact absurd (h.whole _ rfl _ _ hsecond).1 (by decide +kernel)

end FastRpc.LibNames
