import FastRpc.CInt
import FastRpc.SearchPaths

/-! # The list of directories from the environment

`get_dirlist_from_env` reads an environment variable into a buffer of a guessed size.  For a variable whose
name begins with `ADSP_LIBRARY_PATH` or `DSP_LIBRARY_PATH` it computes the length of the value and the
search path of the DSP, takes a larger buffer when the guess was too small, reads the variable again and
appends the path; the value of any other variable stays cut off at the guess.

Lengths are `int`s and wrap around, and sizes are `size_t`s; a write that leaves its buffer ends the run
(`Stop.outside`).  `dirlist_complete_iff` says for which names, values and paths the list is complete and
nothing is written outside. -/

namespace FastRpc.EnvDirlist

open CInt CString SearchPaths

/-! ### The function -/

/-- `ADSP_LIBRARY_PATH`. -/
def adspLibraryPath : Str := ascii "ADSP_LIBRARY_PATH"

/-- `DSP_LIBRARY_PATH`. -/
def dspLibraryPath : Str := ascii "DSP_LIBRARY_PATH"

/-- `";"`. -/
def semicolon : Str := [0x3B]

/-- `PATH_MAX`. -/
def pathMax : ℕ := 4096

/-- `DSP_LIBS_LOCATION`, a string in an array of `PATH_MAX` bytes. -/
structure LibsLocation where
  text : Str
  fits : text.length < pathMax

/-- The value of the variable, the search path, and whether the allocations succeed: of the first buffer, of
the larger one and of the result. -/
structure DirlistEnv where
  getenv : Option Str
  dspSearchPath : LibsLocation
  malloc : ℕ → Bool

/-- A run that ends early: with a write outside of a buffer, or with an error. -/
inductive Stop
  | outside
  | ENOMEMORY
  | EBADPARM
  deriving DecidableEq, Repr

/-- An `int` as a `size_t`. -/
def toSize (z : ℤ) : ℕ := (z % 2 ^ 64).toNat

/-- `STD_MIN`. -/
def stdMin (a b : ℤ) : ℤ := if a < b then a else b

/-- `strlcpy` into a buffer of `room` bytes that holds `old`. -/
def strlcpyIn (room size : ℕ) (old src : Str) : Except Stop Str :=
  if min (src.length + 1) size ≤ room then .ok ((strlcpy size src).getD old) else .error .outside

/-- `strlcat` into a buffer of `room` bytes. -/
def strlcatIn (room size : ℕ) (dst src : Str) : Except Stop Str :=
  if dst.length < size → min (dst.length + src.length + 1) size ≤ room then
    .ok (dst ++ src.take (size - 1 - dst.length))
  else .error .outside

/-- `apps_std_getenv` of a variable with the value `vv`: the copy, and `*valLenReq`. -/
def appsStdGetenv (room : ℕ) (valLen : ℤ) (old vv : Str) : Except Stop (Str × ℤ) :=
  let valLenReq := wrap (vv.length + 1)
  (strlcpyIn room (toSize (stdMin valLen valLenReq)) old vv).map (·, valLenReq)

/-- The name of the variable begins with one of the two. -/
def listed (envvarname : Str) : Bool :=
  adspLibraryPath.isPrefixOf envvarname || dspLibraryPath.isPrefixOf envvarname

/-- `envLenGuess`. -/
def envLenGuess (env : DirlistEnv) : ℤ :=
  wrap (if 256 < 1 + env.dspSearchPath.text.length then 1 + env.dspSearchPath.text.length else 256)

/-- The semicolon and the search path behind the value. -/
def catBoth (env : DirlistEnv) (room size : ℕ) (envList : Str) : Except Stop Str :=
  (strlcatIn room size envList semicolon).bind (strlcatIn room size · env.dspSearchPath.text)

/-- The value with the search path behind it, and its length. -/
def appendSearchPath (env : DirlistEnv) (vv envList : Str) (envListLen : ℤ) : Except Stop (Str × ℤ) :=
  let envListPrependLen := wrap (envListLen + 1 + env.dspSearchPath.text.length)
  let size := toSize envListPrependLen
  if envLenGuess env < envListPrependLen then
    if env.malloc 1 then
      (appsStdGetenv size envListPrependLen [] vv).bind fun r =>
        (catBoth env size size r.1).map (·, envListPrependLen)
    else .error .ENOMEMORY
  else (catBoth env (toSize (envLenGuess env)) size envList).map (·, envListPrependLen)

/-- The copy that is returned. -/
def copyOut (env : DirlistEnv) (envList : Str) (envListLen : ℤ) : Except Stop Str :=
  if envList ≠ [] then
    if env.malloc 2 then strlcpyIn (toSize envListLen) (toSize envListLen) [] envList else .error .ENOMEMORY
  else if env.malloc 2 then .error .EBADPARM
  else .error .ENOMEMORY

/-- `get_dirlist_from_env`. -/
def getDirlistFromEnv (env : DirlistEnv) (envvarname : Str) : Except Stop Str :=
  if env.malloc 0 then
    if 0 < toSize (envLenGuess env) then
      match env.getenv with
      | some vv =>
          (appsStdGetenv (toSize (envLenGuess env)) (envLenGuess env) [] vv).bind fun r =>
            if listed envvarname then
              (appendSearchPath env vv r.1 r.2).bind fun r => copyOut env r.1 r.2
            else copyOut env r.1 r.2
      | none =>
          if listed envvarname then
            (strlcpyIn (toSize (envLenGuess env)) (toSize (envLenGuess env)) []
              env.dspSearchPath.text).bind fun envList =>
              copyOut env envList (wrap (1 + env.dspSearchPath.text.length))
          else copyOut env [] 0
    else .error .outside
  else .error .ENOMEMORY

/-! ### What is claimed, and when -/

/-- The variable is one of the two. -/
def LibraryPath (envvarname : Str) : Prop := envvarname = adspLibraryPath ∨ envvarname = dspLibraryPath

instance : DecidablePred LibraryPath := fun _ => inferInstanceAs (Decidable (_ ∨ _))

/-- The value, with the search path behind that of one of the two. -/
def fullList (env : DirlistEnv) (envvarname vv : Str) : Str :=
  if LibraryPath envvarname then vv ++ semicolon ++ env.dspSearchPath.text else vv

/-- Nothing is written outside, and a list that is returned is complete. -/
structure Complete (env : DirlistEnv) (envvarname : Str) : Prop where
  inside : getDirlistFromEnv env envvarname ≠ .error .outside
  whole : ∀ vv, env.getenv = some vv → ∀ dirList, getDirlistFromEnv env envvarname = .ok dirList →
    dirList = fullList env envvarname vv

/-- `envListPrependLen`. -/
def prependLen (env : DirlistEnv) (vv : Str) : ℤ :=
  wrap (wrap (vv.length + 1) + 1 + env.dspSearchPath.text.length)

/-- The condition for a value.  Its length is an `int`.  For a name that begins like one of the two, so is
the length with the path, and the name is one of them or there is no memory; for another name the value
fits the guess, or nothing is returned. -/
def Fits (env : DirlistEnv) (envvarname vv : Str) : Prop :=
  0 ≤ wrap (vv.length + 1) ∧
    if listed envvarname then
      0 ≤ prependLen env vv ∧
        ((LibraryPath envvarname ∧ vv.length + 2 + env.dspSearchPath.text.length ≤ intMax) ∨
          (envLenGuess env < prependLen env vv ∧ env.malloc 1 = false) ∨ prependLen env vv ≤ 1 ∨
            env.malloc 2 = false)
    else vv.length < envLenGuess env ∨ wrap (vv.length + 1) ≤ 1 ∨ env.malloc 2 = false

/-! ### Sizes -/

section Sizes

variable {z : ℤ} {n : ℕ}

theorem wrap_range (z : ℤ) : -2 ^ 31 ≤ wrap z ∧ wrap z ≤ intMax := by
  unfold wrap Int.bmod
  norm_num
  omega

/-- A length that does not wrap to a negative number gives at most itself. -/
theorem wrap_le (h : 0 ≤ wrap n) : wrap n ≤ n := by
  unfold wrap Int.bmod at h ⊢
  norm_num at h ⊢
  omega

/-- A length that wraps is large. -/
theorem le_of_wrap_neg (h : wrap n < 0) : 2 ^ 31 ≤ n := by
  unfold wrap Int.bmod at h
  norm_num at h ⊢
  omega

theorem toSize_of_nonneg (h : 0 ≤ z) (hle : z ≤ intMax) : (toSize z : ℤ) = z := by
  unfold toSize
  norm_num at *
  omega

theorem toSize_of_neg (h : z < 0) (hle : -2 ^ 31 ≤ z) : 2 ^ 63 ≤ toSize z := by
  unfold toSize
  norm_num at *
  omega

end Sizes

/-! ### The parts of the function -/

section Parts

variable {env : DirlistEnv} {vv envList text : Str} {valLen n : ℤ} {size : ℕ}

/-- What a copy leaves in an empty buffer. -/
theorem strlcpy_getD (size : ℕ) (src : Str) : (strlcpy size src).getD [] = src.take (size - 1) := by
  unfold strlcpy
  split_ifs with hzero
  · rw [hzero]
    rfl
  · rfl

/-- The guess lies between `ENV_LEN_GUESS` and `PATH_MAX`, and has room for the search path. -/
theorem guess_range (env : DirlistEnv) : 256 ≤ envLenGuess env ∧ envLenGuess env ≤ 4096 ∧
    1 + (env.dspSearchPath.text.length : ℤ) ≤ envLenGuess env := by
  have hfits := env.dspSearchPath.fits
  have hmax := intMax_eq
  unfold pathMax at hfits
  unfold envLenGuess
  rw [wrap_of_inRange (inRange_of_nonneg ?_ ?_)]
  · split_ifs <;> omega
  · split_ifs <;> omega
  · split_ifs <;> omega

/-- A value whose length is an `int` is copied as far as it fits. -/
theorem getenv_inside (hlen : 0 ≤ wrap (vv.length + 1)) (hval : 0 ≤ valLen) (hmax : valLen ≤ intMax) :
    appsStdGetenv (toSize valLen) valLen [] vv =
      .ok (vv.take ((stdMin valLen (wrap (vv.length + 1))).toNat - 1), wrap (vv.length + 1)) := by
  have hw := wrap_range (vv.length + 1)
  have hsize := toSize_of_nonneg hval hmax
  have hmin : 0 ≤ stdMin valLen (wrap (vv.length + 1)) ∧ stdMin valLen (wrap (vv.length + 1)) ≤ valLen := by
    unfold stdMin
    split_ifs <;> omega
  have hmin' := toSize_of_nonneg hmin.1 (hmin.2.trans hmax)
  have hroom : min (vv.length + 1) (toSize (stdMin valLen (wrap (vv.length + 1)))) ≤ toSize valLen := by
    omega
  unfold appsStdGetenv strlcpyIn
  dsimp only
  rw [if_pos hroom, strlcpy_getD, show toSize (stdMin valLen (wrap (vv.length + 1))) =
    (stdMin valLen (wrap (vv.length + 1))).toNat by omega]
  rfl

/-- A longer one is written over the end of the buffer. -/
theorem getenv_outside (hlen : wrap (vv.length + 1) < 0) (hval : 0 ≤ valLen) (hmax : valLen ≤ 4096) :
    appsStdGetenv (toSize valLen) valLen [] vv = .error .outside := by
  have hw := wrap_range (vv.length + 1)
  have hsize := toSize_of_nonneg hval (hmax.trans (by decide))
  have hlong : 2 ^ 31 ≤ vv.length + 1 := le_of_wrap_neg (by exact_mod_cast hlen)
  have hmin : stdMin valLen (wrap (vv.length + 1)) = wrap (vv.length + 1) := by
    unfold stdMin
    split_ifs <;> omega
  have hhuge := toSize_of_neg hlen hw.1
  have hroom : ¬ min (vv.length + 1) (toSize (stdMin valLen (wrap (vv.length + 1)))) ≤ toSize valLen := by
    rw [hmin]
    omega
  unfold appsStdGetenv strlcpyIn
  dsimp only
  rw [if_neg hroom]
  rfl

/-- The copy that is returned has the size of its buffer. -/
theorem copyOut_inside (env : DirlistEnv) (envList : Str) (n : ℤ) :
    copyOut env envList n ≠ .error .outside := by
  unfold copyOut strlcpyIn
  split_ifs with _ _ hroom
  · exact nofun
  · exact absurd (Nat.min_le_right _ _) hroom
  · exact nofun
  · exact nofun
  · exact nofun

theorem copyOut_ok_iff : copyOut env envList n = .ok text ↔
    envList ≠ [] ∧ env.malloc 2 = true ∧ text = envList.take (toSize n - 1) := by
  unfold copyOut strlcpyIn
  rw [if_pos (Nat.min_le_right _ _), strlcpy_getD]
  split_ifs with hlist hmem hmem'
  · rw [Except.ok.injEq, eq_comm]
    tauto
  · exact iff_of_false nofun (fun h => hmem h.2.1)
  · exact iff_of_false nofun (fun h => h.1 (not_not.mp hlist))
  · exact iff_of_false nofun (fun h => h.1 (not_not.mp hlist))

/-- A string that is appended in a buffer of its size. -/
theorem strlcatIn_inside {room : ℕ} (h : size ≤ room) (dst src : Str) :
    strlcatIn room size dst src = .ok (dst ++ src.take (size - 1 - dst.length)) :=
  if_pos (fun _ => (Nat.min_le_right _ _).trans h)

/-- What the library branch appends to. -/
def base (vv : Str) : Str := vv.take ((wrap (vv.length + 1)).toNat - 1)

/-- The value with the search path, cut off where `envListPrependLen` ends. -/
def catted (env : DirlistEnv) (vv : Str) : Str :=
  let size := toSize (prependLen env vv)
  let envList := base vv ++ semicolon.take (size - 1 - (base vv).length)
  envList ++ env.dspSearchPath.text.take (size - 1 - envList.length)

/-- When no length wraps to a negative number, `envListPrependLen` is the sum. -/
theorem prependLen_eq (hp : 0 ≤ prependLen env vv) :
    prependLen env vv = wrap (vv.length + 1) + 1 + env.dspSearchPath.text.length := by
  have hw := wrap_range (vv.length + 1)
  have hfits := env.dspSearchPath.fits
  have hmax := intMax_eq
  unfold pathMax at hfits
  unfold prependLen at hp ⊢
  generalize wrap (vv.length + 1) = w at hw hp ⊢
  unfold wrap Int.bmod at hp ⊢
  norm_num at hp ⊢
  omega

theorem catBoth_inside {room : ℕ} (h : toSize (prependLen env vv) ≤ room) :
    catBoth env room (toSize (prependLen env vv)) (base vv) = .ok (catted env vv) := by
  rw [catBoth, strlcatIn_inside h, Except.bind, strlcatIn_inside h, catted]

theorem appendSearchPath_eq (env : DirlistEnv) (vv envList : Str) :
    appendSearchPath env vv envList (wrap (vv.length + 1)) =
      if envLenGuess env < prependLen env vv then
        if env.malloc 1 then
          (appsStdGetenv (toSize (prependLen env vv)) (prependLen env vv) [] vv).bind fun r =>
            (catBoth env (toSize (prependLen env vv)) (toSize (prependLen env vv)) r.1).map
              (·, prependLen env vv)
        else .error .ENOMEMORY
      else (catBoth env (toSize (envLenGuess env)) (toSize (prependLen env vv)) envList).map
        (·, prependLen env vv) := rfl

/-- **The library branch** with room for everything, unless there is no memory for the larger buffer. -/
theorem append_inside (hlen : 0 ≤ wrap (vv.length + 1)) (hp : 0 ≤ prependLen env vv) :
    appendSearchPath env vv (vv.take ((stdMin (envLenGuess env) (wrap (vv.length + 1))).toNat - 1))
        (wrap (vv.length + 1)) =
      if envLenGuess env < prependLen env vv ∧ env.malloc 1 = false then .error .ENOMEMORY
      else .ok (catted env vv, prependLen env vv) := by
  have hpmax : prependLen env vv ≤ intMax := (wrap_range _).2
  have hsum := prependLen_eq hp
  have hguess := guess_range env
  have hmax := intMax_eq
  have hsize := toSize_of_nonneg hp hpmax
  have hgsize : (toSize (envLenGuess env) : ℤ) = envLenGuess env := toSize_of_nonneg (by omega) (by omega)
  rw [appendSearchPath_eq]
  by_cases hgrow : envLenGuess env < prependLen env vv
  · rw [if_pos hgrow]
    cases hmem : env.malloc 1 with
    | false => rw [if_neg (by simp), if_pos ⟨hgrow, rfl⟩]
    | true =>
        have hmin : stdMin (prependLen env vv) (wrap (vv.length + 1)) = wrap (vv.length + 1) := by
          unfold stdMin
          split_ifs <;> omega
        rw [if_pos rfl, if_neg (by simp), getenv_inside hlen hp hpmax, hmin, ← base, Except.bind,
          catBoth_inside le_rfl, Except.map]
  · have hmin : stdMin (envLenGuess env) (wrap (vv.length + 1)) = wrap (vv.length + 1) := by
      unfold stdMin
      split_ifs <;> omega
    have hroom : toSize (prependLen env vv) ≤ toSize (envLenGuess env) := by omega
    rw [if_neg hgrow, if_neg (fun h => hgrow h.1), hmin, ← base, catBoth_inside hroom, Except.map]

/-- Else a string is appended over the end of the buffer. -/
theorem append_outside (hlen : 0 ≤ wrap (vv.length + 1)) (hp : prependLen env vv < 0) :
    appendSearchPath env vv (vv.take ((stdMin (envLenGuess env) (wrap (vv.length + 1))).toNat - 1))
        (wrap (vv.length + 1)) = .error .outside := by
  have hprange := wrap_range (wrap (vv.length + 1) + 1 + env.dspSearchPath.text.length)
  rw [show wrap (wrap (vv.length + 1) + 1 + env.dspSearchPath.text.length) = prependLen env vv from rfl]
    at hprange
  have hfits := env.dspSearchPath.fits
  have hguess := guess_range env
  have hmax := intMax_eq
  have hgsize : (toSize (envLenGuess env) : ℤ) = envLenGuess env := toSize_of_nonneg (by omega) (by omega)
  have hhuge := toSize_of_neg hp hprange.1
  -- the value is longer than the buffer
  have hlong : 2 ^ 31 ≤ (wrap (vv.length + 1)).toNat + 1 + env.dspSearchPath.text.length := by
    refine le_of_wrap_neg ?_
    push_cast
    rw [Int.toNat_of_nonneg hlen]
    exact hp
  have hle : wrap (vv.length + 1) ≤ vv.length + 1 := by
    have hle := wrap_le (n := vv.length + 1) (by exact_mod_cast hlen)
    exact_mod_cast hle
  unfold pathMax at hfits
  have hmin : stdMin (envLenGuess env) (wrap (vv.length + 1)) = envLenGuess env := by
    unfold stdMin
    split_ifs <;> omega
  have htext : (vv.take ((envLenGuess env).toNat - 1)).length + 1 = toSize (envLenGuess env) := by
    rw [List.length_take]
    omega
  rw [appendSearchPath_eq, if_neg (by omega), hmin, catBoth, strlcatIn, if_neg, Except.bind, Except.map]
  intro hroom
  rw [show semicolon.length = 1 from rfl] at hroom
  generalize toSize (prependLen env vv) = size at hhuge hroom
  generalize toSize (envLenGuess env) = room at hgsize htext hroom
  clear hprange hp hlen hlong hle hmin
  omega

theorem prependLen_range (env : DirlistEnv) (vv : Str) :
    -2 ^ 31 ≤ prependLen env vv ∧ prependLen env vv ≤ intMax := wrap_range _

/-- What is in the buffer fits it. -/
theorem catted_length (hlen : 0 ≤ wrap (vv.length + 1)) (hp : 0 ≤ prependLen env vv) :
    (catted env vv).length < prependLen env vv := by
  have hsum := prependLen_eq hp
  have hsize := toSize_of_nonneg hp (prependLen_range env vv).2
  have hbase : (base vv).length ≤ (wrap (vv.length + 1)).toNat - 1 := by
    unfold base
    rw [List.length_take]
    exact Nat.min_le_left _ _
  unfold catted
  dsimp only
  rw [List.length_append, List.length_append, List.length_take, List.length_take]
  generalize toSize (prependLen env vv) = size at hsize ⊢
  generalize prependLen env vv = p at *
  generalize wrap (vv.length + 1) = w at *
  omega

/-- The semicolon is in it, unless there is no room at all. -/
theorem catted_eq_nil_iff (hlen : 0 ≤ wrap (vv.length + 1)) (hp : 0 ≤ prependLen env vv) :
    catted env vv = [] ↔ prependLen env vv ≤ 1 := by
  have hsum := prependLen_eq hp
  have hsize := toSize_of_nonneg hp (prependLen_range env vv).2
  have hshort := catted_length hlen hp
  have hbase : (base vv).length ≤ (wrap (vv.length + 1)).toNat - 1 := by
    unfold base
    rw [List.length_take]
    exact Nat.min_le_left _ _
  rw [← List.length_eq_zero_iff]
  constructor
  · intro hzero
    unfold catted at hzero
    dsimp only at hzero
    rw [List.length_append, List.length_append, List.length_take, List.length_take,
      show semicolon.length = 1 from rfl] at hzero
    generalize toSize (prependLen env vv) = size at hsize hzero
    generalize prependLen env vv = p at *
    generalize wrap (vv.length + 1) = w at *
    omega
  · intro hle
    omega

/-- When the lengths are `int`s, the buffer has the value and the path. -/
theorem catted_whole (hsum : vv.length + 2 + env.dspSearchPath.text.length ≤ intMax) :
    0 ≤ wrap (vv.length + 1) ∧ prependLen env vv = vv.length + 2 + env.dspSearchPath.text.length ∧
      catted env vv = vv ++ semicolon ++ env.dspSearchPath.text := by
  have hlen : wrap (vv.length + 1) = vv.length + 1 :=
    wrap_of_inRange (inRange_of_nonneg (by omega) (by omega))
  have hp : prependLen env vv = vv.length + 2 + env.dspSearchPath.text.length := by
    unfold prependLen
    rw [hlen, wrap_of_inRange (inRange_of_nonneg (by omega) (by omega))]
    omega
  have hsize := toSize_of_nonneg (z := prependLen env vv) (by omega) (by omega)
  have hbase : base vv = vv := by
    unfold base
    rw [hlen, List.take_of_length_le]
    omega
  refine ⟨by omega, hp, ?_⟩
  unfold catted
  dsimp only
  rw [hbase, List.take_of_length_le (l := semicolon), List.take_of_length_le]
  · rw [List.length_append, show semicolon.length = 1 from rfl]
    omega
  · rw [show semicolon.length = 1 from rfl]
    omega

end Parts

/-! ### The result -/

section Result

variable {env : DirlistEnv} {envvarname vv dirList : Str}

theorem listed_of_libraryPath (h : LibraryPath envvarname) : listed envvarname = true := by
  rcases h with rfl | rfl <;> decide

/-- The function on a value, when there is a first buffer. -/
theorem getDirlistFromEnv_some (hvv : env.getenv = some vv) (hmem : env.malloc 0 = true) :
    getDirlistFromEnv env envvarname =
      (appsStdGetenv (toSize (envLenGuess env)) (envLenGuess env) [] vv).bind fun r =>
        if listed envvarname then
          (appendSearchPath env vv r.1 r.2).bind fun r => copyOut env r.1 r.2
        else copyOut env r.1 r.2 := by
  have hguess := guess_range env
  have hsize := toSize_of_nonneg (z := envLenGuess env) (by omega) (hguess.2.1.trans (by decide))
  rw [getDirlistFromEnv, if_pos hmem, if_pos (by omega), hvv]

/-- A value whose length is no `int`. -/
theorem value_outside (hvv : env.getenv = some vv) (hmem : env.malloc 0 = true)
    (hlen : wrap (vv.length + 1) < 0) : getDirlistFromEnv env envvarname = .error .outside := by
  have hguess := guess_range env
  rw [getDirlistFromEnv_some hvv hmem, getenv_outside hlen (by omega) hguess.2.1, Except.bind]

/-- A variable that is not one of the two. -/
theorem other_result (hvv : env.getenv = some vv) (hmem : env.malloc 0 = true)
    (hlen : 0 ≤ wrap (vv.length + 1)) (hlisted : listed envvarname = false) :
    getDirlistFromEnv env envvarname =
      copyOut env (vv.take ((stdMin (envLenGuess env) (wrap (vv.length + 1))).toNat - 1))
        (wrap (vv.length + 1)) := by
  have hguess := guess_range env
  rw [getDirlistFromEnv_some hvv hmem, getenv_inside hlen (by omega) (hguess.2.1.trans (by decide)),
    Except.bind, if_neg (by simp [hlisted])]

/-- A variable whose name begins like one of the two. -/
theorem listed_result (hvv : env.getenv = some vv) (hmem : env.malloc 0 = true)
    (hlen : 0 ≤ wrap (vv.length + 1)) (hlisted : listed envvarname = true) :
    getDirlistFromEnv env envvarname =
      if prependLen env vv < 0 then .error .outside
      else if envLenGuess env < prependLen env vv ∧ env.malloc 1 = false then .error .ENOMEMORY
      else copyOut env (catted env vv) (prependLen env vv) := by
  have hguess := guess_range env
  rw [getDirlistFromEnv_some hvv hmem, getenv_inside hlen (by omega) (hguess.2.1.trans (by decide)),
    Except.bind, if_pos hlisted]
  dsimp only
  split_ifs with hp hfull
  · rw [append_outside hlen hp, Except.bind]
  · rw [append_inside hlen (not_lt.mp hp), if_pos hfull, Except.bind]
  · rw [append_inside hlen (not_lt.mp hp), if_neg hfull, Except.bind]

/-- The claim on a value. -/
theorem complete_iff_of_value (hvv : env.getenv = some vv) : Complete env envvarname ↔
    getDirlistFromEnv env envvarname ≠ .error .outside ∧
      ∀ dirList, getDirlistFromEnv env envvarname = .ok dirList → dirList = fullList env envvarname vv := by
  constructor
  · intro h
    exact ⟨h.inside, h.whole vv hvv⟩
  · rintro ⟨hinside, hwhole⟩
    refine ⟨hinside, fun vv' hvv' => ?_⟩
    obtain rfl := Option.some.inj (hvv.symm.trans hvv')
    exact hwhole

/-- **The value of another variable** is complete when it fits the guess. -/
theorem other_complete_iff (hvv : env.getenv = some vv) (hmem : env.malloc 0 = true)
    (hlisted : listed envvarname = false) : Complete env envvarname ↔ Fits env envvarname vv := by
  have hguess := guess_range env
  have hmax := intMax_eq
  have hnot : ¬ LibraryPath envvarname := fun h => by simp [listed_of_libraryPath h] at hlisted
  rw [complete_iff_of_value hvv, Fits, if_neg (by simp [hlisted]), fullList, if_neg hnot]
  rcases lt_or_ge (wrap (vv.length + 1)) 0 with hneg | hlen
  · rw [value_outside hvv hmem hneg]
    exact iff_of_false (fun h => h.1 rfl) (fun h => absurd h.1 (by omega))
  have hle : wrap (vv.length + 1) ≤ vv.length + 1 := by
    have hle := wrap_le (n := vv.length + 1) (by exact_mod_cast hlen)
    exact_mod_cast hle
  have hsize := toSize_of_nonneg hlen (wrap_range _).2
  have hmin : stdMin (envLenGuess env) (wrap (vv.length + 1)) ≤ envLenGuess env ∧
      stdMin (envLenGuess env) (wrap (vv.length + 1)) ≤ wrap (vv.length + 1) ∧
      (1 < wrap (vv.length + 1) → 1 < stdMin (envLenGuess env) (wrap (vv.length + 1))) := by
    unfold stdMin
    split_ifs <;> omega
  have hfits : (vv.length : ℤ) < envLenGuess env →
      stdMin (envLenGuess env) (wrap (vv.length + 1)) = vv.length + 1 := by
    intro hlt
    rw [wrap_of_inRange (inRange_of_nonneg (by omega) (by omega)), stdMin]
    split_ifs <;> omega
  rw [other_result hvv hmem hlen hlisted, and_iff_right (copyOut_inside _ _ _), and_iff_right hlen]
  simp only [copyOut_ok_iff]
  generalize toSize (wrap (vv.length + 1)) = size at hsize ⊢
  generalize stdMin (envLenGuess env) (wrap (vv.length + 1)) = m at hmin hfits ⊢
  generalize wrap (vv.length + 1) = w at *
  have hcopy : (vv.take (m.toNat - 1)).take (size - 1) = vv.take (m.toNat - 1) := by
    rw [List.take_take, Nat.min_eq_right (by omega)]
  rw [hcopy]
  constructor
  · intro h
    by_contra hnone
    simp only [not_or, not_lt, not_le, Bool.not_eq_false] at hnone
    obtain ⟨hlong, hmore, hlast⟩ := hnone
    have hlength : (vv.take (m.toNat - 1)).length < vv.length ∧ 0 < (vv.take (m.toNat - 1)).length := by
      rw [List.length_take]
      omega
    have heq := h _ ⟨List.ne_nil_of_length_pos hlength.2, hlast, rfl⟩
    rw [heq] at hlength
    exact absurd hlength.1 (lt_irrefl _)
  · rintro (hlt | hone | hlast) dirList ⟨hne, hmem2, rfl⟩
    · rw [hfits hlt, List.take_of_length_le]
      omega
    · refine absurd ?_ hne
      rw [show m.toNat - 1 = 0 by omega, List.take_zero]
    · exact absurd (hlast.symm.trans hmem2) (by decide)

/-- **A variable whose name begins like one of the two.** -/
theorem listed_complete_iff (hvv : env.getenv = some vv) (hmem : env.malloc 0 = true)
    (hlisted : listed envvarname = true) : Complete env envvarname ↔ Fits env envvarname vv := by
  have hmax := intMax_eq
  rw [complete_iff_of_value hvv, Fits, if_pos hlisted]
  rcases lt_or_ge (wrap (vv.length + 1)) 0 with hneg | hlen
  · rw [value_outside hvv hmem hneg]
    exact iff_of_false (fun h => h.1 rfl) (fun h => absurd h.1 (by omega))
  rw [listed_result hvv hmem hlen hlisted]
  rcases lt_or_ge (prependLen env vv) 0 with hneg | hp
  · rw [if_pos hneg]
    exact iff_of_false (fun h => h.1 rfl) (fun h => absurd h.2.1 (by omega))
  rw [if_neg (by omega), and_iff_right hlen, and_iff_right hp]
  by_cases hfull : envLenGuess env < prependLen env vv ∧ env.malloc 1 = false
  · rw [if_pos hfull]
    exact iff_of_true ⟨nofun, nofun⟩ (.inr (.inl hfull))
  have hpmax := (prependLen_range env vv).2
  have hsize := toSize_of_nonneg hp hpmax
  have hlength := catted_length hlen hp
  have hsum := prependLen_eq hp
  have hcopy : (catted env vv).take (toSize (prependLen env vv) - 1) = catted env vv := by
    rw [List.take_of_length_le (by omega)]
  rw [if_neg hfull, and_iff_right (copyOut_inside _ _ _)]
  simp only [copyOut_ok_iff, hcopy]
  constructor
  · intro h
    by_contra hnone
    simp only [not_or, not_and, not_le, Bool.not_eq_false] at hnone
    obtain ⟨hlong, -, hmore, hlast⟩ := hnone
    have hne : catted env vv ≠ [] := fun hnil => absurd ((catted_eq_nil_iff hlen hp).mp hnil) (by omega)
    have heq := h _ ⟨hne, hlast, rfl⟩
    rw [fullList] at heq
    split_ifs at heq with hlib
    · -- the value and the path are longer than any `int`
      have hfar := hlong hlib
      rw [heq, List.length_append, List.length_append, show semicolon.length = 1 from rfl] at hlength
      push_cast at hlength
      omega
    · rcases le_or_gt ((vv.length : ℤ) + 2 + env.dspSearchPath.text.length) intMax with hshort | hfar
      · obtain ⟨-, -, hwhole⟩ := catted_whole hshort
        have hlengths := congrArg List.length (hwhole.symm.trans heq)
        rw [List.length_append, List.length_append, show semicolon.length = 1 from rfl] at hlengths
        omega
      · rw [heq] at hlength
        have hw : wrap (vv.length + 1) = vv.length + 1 :=
          wrap_of_inRange (inRange_of_nonneg (by omega) (by omega))
        omega
  · rintro (⟨hlib, hshort⟩ | hbuffer | hone | hlast) dirList ⟨hne, hmem2, hdirList⟩
    · rw [hdirList, fullList, if_pos hlib, (catted_whole hshort).2.2]
    · exact absurd hbuffer hfull
    · exact absurd ((catted_eq_nil_iff hlen hp).mpr hone) hne
    · exact absurd (hlast.symm.trans hmem2) (by decide)

/-- A variable that is not set: the search path alone, or an error. -/
theorem complete_of_unset (hvv : env.getenv = none) : Complete env envvarname := by
  have hguess := guess_range env
  have hsize := toSize_of_nonneg (z := envLenGuess env) (by omega) (hguess.2.1.trans (by decide))
  refine ⟨?_, fun vv hsome => nomatch hvv.symm.trans hsome⟩
  unfold getDirlistFromEnv
  have hroom : 0 < toSize (envLenGuess env) := by omega
  generalize toSize (envLenGuess env) = room at hroom ⊢
  rw [hvv]
  dsimp only
  rw [if_pos hroom]
  split_ifs
  · rw [strlcpyIn, if_pos (Nat.min_le_right _ _), Except.bind]
    exact copyOut_inside _ _ _
  · exact copyOut_inside _ _ _
  · exact nofun

end Result

/-- **When the list is complete**: for every name, value and search path, nothing is written outside of the
buffers and a list that is returned is complete exactly when the variable is not set, there is no first
buffer, or the value fits. -/
theorem dirlist_complete_iff (env : DirlistEnv) (envvarname : Str) : Complete env envvarname ↔
    ∀ vv, env.getenv = some vv → env.malloc 0 = true → Fits env envvarname vv := by
  cases hvv : env.getenv with
  | none => exact iff_of_true (complete_of_unset hvv) (fun _ h => nomatch h)
  | some vv =>
      cases hmem : env.malloc 0 with
      | false =>
          have hresult : getDirlistFromEnv env envvarname = .error .ENOMEMORY := by
            rw [getDirlistFromEnv, if_neg (by simp [hmem])]
          refine iff_of_true ⟨?_, fun _ _ _ h => ?_⟩ (fun _ _ h => nomatch h)
          · rw [hresult]
            exact nofun
          · rw [hresult] at h
            exact nomatch h
      | true =>
          have hfits : Complete env envvarname ↔ Fits env envvarname vv := by
            cases hlisted : listed envvarname with
            | true => exact listed_complete_iff hvv hmem hlisted
            | false => exact other_complete_iff hvv hmem hlisted
          rw [hfits]
          exact ⟨fun h vv' hvv' _ => Option.some.inj hvv' ▸ h, fun h => h vv rfl rfl⟩

/-- The search path of a library that was configured without one of its own. -/
def defaultSearchPath : LibsLocation := ⟨ascii ";/usr/lib/rfsa/adsp;/usr/lib/dsp;", by decide⟩

/-- A variable with a value of `length` letters, and enough memory. -/
def longValue (length : ℕ) : DirlistEnv :=
  ⟨some (List.replicate length 97), defaultSearchPath, fun _ => true⟩

/-- A value of 256 bytes is cut off at 255. -/
theorem long_value_cut_off :
    getDirlistFromEnv (longValue 256) (ascii "MY_PATH") = .ok (List.replicate 255 97) ∧
      ¬ Complete (longValue 256) (ascii "MY_PATH") := by
  have hlen : 0 ≤ wrap ((List.replicate 256 (97 : UInt8)).length + 1) := by
    rw [List.length_replicate]
    decide
  have hresult : getDirlistFromEnv (longValue 256) (ascii "MY_PATH") = .ok (List.replicate 255 97) := by
    rw [other_result rfl rfl hlen (by decide), List.length_replicate, List.take_replicate, copyOut_ok_iff]
    refine ⟨by decide, rfl, ?_⟩
    rw [List.take_replicate]
    exact congrArg (List.replicate · 97) (by decide)
  refine ⟨hresult, fun h => ?_⟩
  have hlengths := congrArg List.length (h.whole _ rfl _ hresult)
  rw [fullList, if_neg (by decide), List.length_replicate, List.length_replicate] at hlengths
  exact absurd hlengths (by decide)

end FastRpc.EnvDirlist
