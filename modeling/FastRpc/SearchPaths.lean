import FastRpc.Basic
import FastRpc.CString

/-! # File searches

A file is searched in the directories that an environment variable lists.  `fopen_from_dirlist` and
`apps_std_fopen_with_env_fd` try for each directory the path with the name of the domain and then the
path without it; `apps_std_get_search_paths_with_env` reports which of these directories exist.  The
three build the paths in their own code.  The first uses the length of the domain's name for its buffer;
the others use that of `"adsp"`, and cut off what a longer name adds (`path_cut_off`).  The third cuts
the list at every character of the delimiter, the others at the delimiter.

`searches_agree_iff` says for which lists, names, domains and arrays the searches agree.  Allocations
succeed here, and `get_dirlist_from_env`, which the three share, gives the list. -/

namespace FastRpc.SearchPaths

open CString

/-! ### The searches -/

/-- A string of C. -/
abbrev Str := List UInt8

/-- The characters of a literal. -/
def ascii (s : String) : Str := s.toList.map (fun c => UInt8.ofNat c.toNat)

/-- `SUBSYSTEM_NAME`. -/
def subsystemNames : List Str :=
  ["adsp", "mdsp", "sdsp", "cdsp", "cdsp1", "gdsp0", "gdsp1", "reserved"].map ascii

/-- `SUBSYSTEM_NAME[GET_DOMAIN_FROM_EFFEC_DOMAIN_ID(domain)]`. -/
def subsystemName (domain : Domain) : Str := subsystemNames.getD (domain.val % 8) []

/-- `"/"`. -/
def slash : Str := [0x2F]

/-- The value of a `uint16_t`. -/
def u16 (n : ℕ) : ℕ := n % 2 ^ 16

/-- A buffer with the path of a file; it has no string when its size is 0. -/
abbrev Path := Option Str

/-- The path with the name of the domain, in a buffer of this size. -/
def domainPath (size : ℕ) (dirName sub name : Str) : Path :=
  if dirName ≠ [] then
    strlcat size (strlcat size (strlcat size (strlcat size (strlcpy size dirName) slash) sub) slash)
      name
  else strlcpy size name

/-- The path without it. -/
def plainPath (size : ℕ) (dirName name : Str) : Path :=
  if dirName ≠ [] then strlcat size (strlcat size (strlcpy size dirName) slash) name
  else strlcpy size name

/-- The end of `get_dirlist_from_env`: an empty list is `AEE_EBADPARM`. -/
def getDirlist (envList : Str) : Option Str := if envList = [] then none else some envList

/-- The loop over the directories: the paths it tries, in buffers with `nameLen` characters for the name
of the domain.  `opens` says which paths are opened. -/
def tryDirs (opens : Path → Bool) (nameLen : ℕ) (sub name : Str) : List Str → List Path
  | [] => []
  | dirName :: rest =>
      let absName := domainPath (u16 (dirName.length + name.length + 2 + nameLen + 1)) dirName sub name
      if opens absName then [absName]
      else
        let absName' := plainPath (u16 (dirName.length + name.length + 2)) dirName name
        if opens absName' then [absName, absName']
        else absName :: absName' :: tryDirs opens nameLen sub name rest

/-- `fopen_from_dirlist`, with `strlen(SUBSYSTEM_NAME[domain])`. -/
def fopenFromDirlist (opens : Path → Bool) (domain : Domain) (delim name dirList : Str) : List Path :=
  tryDirs opens (subsystemName domain).length (subsystemName domain) name
    (pieces delim (dirList.length + 1) dirList)

/-- `apps_std_fopen_with_env`. -/
def appsStdFopenWithEnv (opens : Path → Bool) (domain : Domain) (delim name envList : Str) :
    List Path :=
  match getDirlist envList with
  | none => []
  | some dirList => fopenFromDirlist opens domain delim name dirList

/-- `apps_std_fopen_with_env_fd`, with `strlen("adsp")`. -/
def appsStdFopenWithEnvFd (opens : Path → Bool) (domain : Domain) (delim name envList : Str) :
    List Path :=
  match getDirlist envList with
  | none => []
  | some dirList =>
      tryDirs opens (ascii "adsp").length (subsystemName domain) name
        (pieces delim (dirList.length + 1) dirList)

/-- `i`, `*maxPathLen`, and the strings that were written to entries of the array. -/
structure Found where
  count : ℕ
  maxPathLen : ℕ
  written : List (ℕ × Path)
  deriving DecidableEq, Repr

/-- The array `paths`: the size of the buffer of an entry, if there are an entry and a buffer. -/
abbrev Slots := List (Option ℤ)

/-- The buffer of an entry. -/
def Slots.size (paths : Slots) (i : ℕ) : Option ℤ := (paths[i]?).join

/-- One existing directory.  The size of its buffer is compared with `strlen(path)`, also for the
directory with the name of the domain. -/
def report (paths : Slots) (pathLen : ℕ) (dir : Path) (s : Found) : Found :=
  let length := (dir.getD []).length
  { count := s.count + 1
    maxPathLen := u16 (max s.maxPathLen (length + 1))
    written :=
      match paths.size s.count with
      | some dataLen =>
          if (pathLen : ℤ) ≤ dataLen then
            s.written ++ [(s.count, dir.bind (strlcpy dataLen.toNat))]
          else s.written
      | none => s.written }

/-- `pathDomain`. -/
def pathDomain (path sub : Str) : Path :=
  let size := path.length + 1 + (ascii "adsp").length + 1
  strlcat size (strlcat size (strlcpy size path) slash) sub

/-- The loop of `apps_std_get_search_paths_with_env`.  `isDir` says which paths are directories. -/
def searchLoop (isDir : Path → Bool) (paths : Slots) (sub : Str) : List Str → Found → Found
  | [], s => s
  | path :: rest, s =>
      let s := if isDir (pathDomain path sub) then
          report paths path.length (pathDomain path sub) s
        else s
      let s := if isDir (some path) then report paths path.length (some path) s else s
      searchLoop isDir paths sub rest s

/-- `apps_std_get_search_paths_with_env`. -/
def appsStdGetSearchPathsWithEnv (isDir : Path → Bool) (paths : Slots) (domain : Domain)
    (delim envList : Str) : Option Found :=
  (getDirlist envList).map (fun dirList =>
    searchLoop isDir paths (subsystemName domain) (tokens delim dirList []) ⟨0, 0, []⟩)

/-! ### Agreement -/

/-- The directories of a list, each with the name of the domain and without. -/
def directories (sub : Str) (dirs : List Str) : List Str :=
  dirs.flatMap (fun d => [d ++ slash ++ sub, d])

/-- The paths of a file in these directories. -/
def candidates (sub name : Str) (dirs : List Str) : List Path :=
  dirs.flatMap (fun d => [some (d ++ slash ++ sub ++ slash ++ name), some (d ++ slash ++ name)])

/-- What a search tries: the candidates up to the first that opens. -/
def tryFirst (opens : Path → Bool) : List Path → List Path
  | [] => []
  | p :: ps => if opens p then [p] else p :: tryFirst opens ps

/-- The directories that exist. -/
def existing (isDir : Path → Bool) (sub : Str) (dirs : List Str) : List Str :=
  (directories sub dirs).filter (fun d => isDir (some d))

/-- The existing directories are counted, and each is written whole to its entry. -/
def Reported (r : Option Found) (dirs : List Str) : Prop :=
  match r with
  | none => dirs = []
  | some s => s.count = dirs.length ∧
      ∀ i p, (i, p) ∈ s.written ↔ ∃ d, dirs[i]? = some d ∧ p = some d

/-- The searches agree, whatever files and directories there are. -/
structure Agree (domain : Domain) (delim name : Str) (dirs : List Str) (paths : Slots) : Prop where
  fopen : ∀ opens, appsStdFopenWithEnv opens domain delim name (delim.intercalate dirs) =
    tryFirst opens (candidates (subsystemName domain) name dirs)
  fopenFd : ∀ opens, appsStdFopenWithEnvFd opens domain delim name (delim.intercalate dirs) =
    tryFirst opens (candidates (subsystemName domain) name dirs)
  search : ∀ isDir,
    Reported (appsStdGetSearchPathsWithEnv isDir paths domain delim (delim.intercalate dirs))
      (existing isDir (subsystemName domain) dirs)

/-- The length of the longer path of a file in a directory. -/
def pathLength (sub name d : Str) : ℕ := d.length + 1 + sub.length + 1 + name.length

/-- The array has an entry for every directory that can exist, with room for it and its terminator. -/
def Room (sub : Str) (dirs : List Str) (paths : Slots) : Prop :=
  ∀ isDir i d, (existing isDir sub dirs)[i]? = some d → ∃ n, paths.size i = some n ∧ (d.length : ℤ) < n

/-- The condition. -/
structure Fine (domain : Domain) (delim name : Str) (dirs : List Str) (paths : Slots) : Prop where
  subsystem : dirs ≠ [] → (subsystemName domain).length ≤ 4
  length : ∀ d ∈ dirs, pathLength (subsystemName domain) name d < 65535
  free : ∀ d ∈ dirs, ∀ c ∈ d, c ∉ delim
  room : Room (subsystemName domain) dirs paths

/-! ### The paths that are tried -/

section Tried

variable {opens : Path → Bool} {nameLen size : ℕ} {sub name d : Str} {dirs : List Str}

theorem domainPath_eq (hd : d ≠ []) :
    domainPath size d sub name = strlcpy size (d ++ slash ++ sub ++ slash ++ name) := by
  rw [domainPath, if_pos hd]
  simp only [strlcat_strlcpy]

theorem plainPath_eq (hd : d ≠ []) : plainPath size d name = strlcpy size (d ++ slash ++ name) := by
  rw [plainPath, if_pos hd]
  simp only [strlcat_strlcpy]

/-- The loop tries the paths it builds, up to the first that opens. -/
theorem tryDirs_eq : tryDirs opens nameLen sub name dirs = tryFirst opens (dirs.flatMap (fun d =>
    [domainPath (u16 (d.length + name.length + 2 + nameLen + 1)) d sub name,
      plainPath (u16 (d.length + name.length + 2)) d name])) := by
  induction dirs with
  | nil => rfl
  | cons d dirs ih =>
      simp only [tryDirs, List.flatMap_cons, List.cons_append, List.nil_append, tryFirst, ih]
      split_ifs <;> rfl

theorem tryFirst_never (ps : List Path) : tryFirst (fun _ => false) ps = ps := by
  induction ps with
  | nil => rfl
  | cons p ps ih =>
      rw [tryFirst, ih]
      rfl

theorem flatMap_pair_eq {α β : Type} {f g f' g' : α → β} {l : List α} :
    l.flatMap (fun x => [f x, g x]) = l.flatMap (fun x => [f' x, g' x]) ↔
      ∀ x ∈ l, f x = f' x ∧ g x = g' x := by
  induction l with
  | nil => simp
  | cons x l ih => simp [List.flatMap_cons, ih, and_assoc]

theorem length_domainPath :
    (d ++ slash ++ sub ++ slash ++ name).length = pathLength sub name d := by
  simp only [List.length_append, pathLength, slash, List.length_singleton]

/-- **The loop tries the candidates** when its buffers have room for every path. -/
theorem tryDirs_candidates (hdirs : ∀ d ∈ dirs, d ≠ []) :
    (∀ opens, tryDirs opens nameLen sub name dirs = tryFirst opens (candidates sub name dirs)) ↔
      ∀ d ∈ dirs, pathLength sub name d < u16 (d.length + name.length + 2 + nameLen + 1) ∧
        d.length + 1 + name.length < u16 (d.length + name.length + 2) := by
  have hpairs : (∀ opens, tryDirs opens nameLen sub name dirs =
      tryFirst opens (candidates sub name dirs)) ↔
      dirs.flatMap (fun d => [domainPath (u16 (d.length + name.length + 2 + nameLen + 1)) d sub name,
        plainPath (u16 (d.length + name.length + 2)) d name]) = candidates sub name dirs := by
    constructor
    · intro h
      have hnever := h (fun _ => false)
      rw [tryDirs_eq, tryFirst_never, tryFirst_never] at hnever
      exact hnever
    · intro h opens
      rw [tryDirs_eq, h]
  rw [hpairs, candidates, flatMap_pair_eq]
  refine forall₂_congr fun d hd => ?_
  rw [domainPath_eq (hdirs d hd), plainPath_eq (hdirs d hd), strlcpy_whole, strlcpy_whole,
    length_domainPath]
  simp only [List.length_append, slash, List.length_singleton]

end Tried

/-! ### The directories that are reported -/

section Search

variable {isDir : Path → Bool} {paths : Slots} {sub : Str} {dirs : List Str}

/-- What the loop reports: `strlen(path)` and the directory. -/
def found (isDir : Path → Bool) (sub : Str) (dirs : List Str) : List (ℕ × Path) :=
  (dirs.flatMap (fun d => [(d.length, pathDomain d sub), (d.length, some d)])).filter
    (fun r => isDir r.2)

theorem searchLoop_eq (s : Found) : searchLoop isDir paths sub dirs s =
    (found isDir sub dirs).foldl (fun s r => report paths r.1 r.2 s) s := by
  induction dirs generalizing s with
  | nil => rfl
  | cons d dirs ih =>
      rw [searchLoop, ih]
      simp only [found, List.flatMap_cons, List.cons_append, List.nil_append, List.filter_cons]
      split_ifs <;> rfl

/-- The entries that the reports write. -/
theorem foldl_report (paths : Slots) (rs : List (ℕ × Path)) (s : Found) :
    (rs.foldl (fun s r => report paths r.1 r.2 s) s).count = s.count + rs.length ∧
      ∀ i p, (i, p) ∈ (rs.foldl (fun s r => report paths r.1 r.2 s) s).written ↔
        (i, p) ∈ s.written ∨ ∃ k r n, rs[k]? = some r ∧ i = s.count + k ∧ paths.size i = some n ∧
          (r.1 : ℤ) ≤ n ∧ p = r.2.bind (strlcpy n.toNat) := by
  induction rs generalizing s with
  | nil => exact ⟨rfl, fun i p => by simp⟩
  | cons r rs ih =>
      obtain ⟨hcount, hwritten⟩ := ih (report paths r.1 r.2 s)
      have hnext : (report paths r.1 r.2 s).count = s.count + 1 := rfl
      have hfirst : ∀ i p, (i, p) ∈ (report paths r.1 r.2 s).written ↔ (i, p) ∈ s.written ∨
          ∃ n, i = s.count ∧ paths.size i = some n ∧ (r.1 : ℤ) ≤ n ∧
            p = r.2.bind (strlcpy n.toNat) := by
        intro i p
        unfold report
        cases hsize : paths.size s.count with
        | none =>
            refine ⟨Or.inl, fun h => h.resolve_right ?_⟩
            rintro ⟨n, rfl, hn, _⟩
            rw [hsize] at hn
            exact nomatch hn
        | some n =>
            simp only
            split_ifs with hle
            · rw [List.mem_append, List.mem_singleton, Prod.mk.injEq]
              refine or_congr_right ⟨?_, ?_⟩
              · rintro ⟨rfl, rfl⟩
                exact ⟨n, rfl, hsize, hle, rfl⟩
              · rintro ⟨m, rfl, hm, _, rfl⟩
                obtain rfl := Option.some.inj (hsize.symm.trans hm)
                exact ⟨rfl, rfl⟩
            · refine ⟨Or.inl, fun h => h.resolve_right ?_⟩
              rintro ⟨m, rfl, hm, hle', _⟩
              obtain rfl := Option.some.inj (hsize.symm.trans hm)
              exact hle hle'
      refine ⟨?_, fun i p => ?_⟩
      · rw [List.foldl_cons, hcount, hnext, List.length_cons]
        omega
      · rw [List.foldl_cons, hwritten, hfirst, hnext, or_assoc]
        refine or_congr_right ⟨?_, ?_⟩
        · rintro (⟨n, rfl, hn⟩ | ⟨k, q, n, hq, rfl, hn⟩)
          · exact ⟨0, r, n, rfl, rfl, hn⟩
          · exact ⟨k + 1, q, n, hq, by omega, hn⟩
        · rintro ⟨k, q, n, hq, rfl, hn⟩
          cases k with
          | zero =>
              obtain rfl := Option.some.inj hq
              exact Or.inl ⟨n, rfl, hn⟩
          | succ k => exact Or.inr ⟨k, q, n, hq, by omega, hn⟩

theorem pathDomain_eq (path sub : Str) :
    pathDomain path sub = strlcpy (path.length + 1 + 4 + 1) (path ++ slash ++ sub) := by
  unfold pathDomain
  simp only [strlcat_strlcpy]
  rfl

/-- A name of at most four characters is not cut off. -/
theorem pathDomain_whole (hsub : sub.length ≤ 4) (path : Str) :
    pathDomain path sub = some (path ++ slash ++ sub) := by
  rw [pathDomain_eq, strlcpy_whole]
  simp only [List.length_append, slash, List.length_singleton]
  omega

/-- The reports are those of the existing directories. -/
theorem found_existing (hsub : sub.length ≤ 4) (isDir : Path → Bool) (dirs : List Str) :
    (found isDir sub dirs).map Prod.snd = (existing isDir sub dirs).map some ∧
      ∀ r ∈ found isDir sub dirs, ∀ d, r.2 = some d → r.1 ≤ d.length := by
  constructor
  · unfold found existing directories
    induction dirs with
    | nil => rfl
    | cons d dirs ih =>
        simp only [List.flatMap_cons, List.cons_append, List.nil_append, List.filter_cons,
          pathDomain_whole hsub] at ih ⊢
        split_ifs <;> simp only [List.map_cons, ih]
  · intro r hr d hd
    unfold found at hr
    obtain ⟨x, _, hx⟩ := List.mem_flatMap.mp (List.mem_of_mem_filter hr)
    simp only [List.mem_cons, List.not_mem_nil, or_false] at hx
    rcases hx with rfl | rfl
    · rw [pathDomain_whole hsub] at hd
      rw [← Option.some.inj hd]
      simp only [List.length_append]
      omega
    · rw [← Option.some.inj hd]

/-- **With room for them, the existing directories are reported whole.** -/
theorem reported_found (hsub : sub.length ≤ 4) (hroom : Room sub dirs paths) :
    Reported (some (searchLoop isDir paths sub dirs ⟨0, 0, []⟩)) (existing isDir sub dirs) := by
  obtain ⟨hmap, hlen⟩ := found_existing hsub isDir dirs
  obtain ⟨hcount, hwritten⟩ := foldl_report paths (found isDir sub dirs) ⟨0, 0, []⟩
  have hentry : ∀ k : ℕ, ((found isDir sub dirs)[k]?).map Prod.snd =
      ((existing isDir sub dirs)[k]?).map some := by
    intro k
    rw [← List.getElem?_map, ← List.getElem?_map, hmap]
  rw [searchLoop_eq]
  refine ⟨?_, fun i p => ?_⟩
  · rw [hcount]
    have hlength := congrArg List.length hmap
    simp only [List.length_map] at hlength
    simp only [hlength]
    omega
  · rw [hwritten]
    constructor
    · rintro (hnone | ⟨k, r, n, hr, rfl, hn, _, rfl⟩)
      · exact absurd hnone List.not_mem_nil
      · have hk := hentry k
        rw [hr] at hk
        obtain ⟨d, hd, hsome⟩ := Option.map_eq_some_iff.mp hk.symm
        obtain ⟨m, hm, hfits⟩ := hroom isDir k d hd
        simp only [Nat.zero_add] at hn ⊢
        obtain rfl := Option.some.inj (hm.symm.trans hn)
        refine ⟨d, hd, ?_⟩
        rw [← hsome, Option.bind_some, strlcpy_whole]
        omega
    · rintro ⟨d, hd, rfl⟩
      have hk := hentry i
      rw [hd] at hk
      obtain ⟨r, hr, hsome⟩ := Option.map_eq_some_iff.mp hk
      obtain ⟨n, hn, hfits⟩ := hroom isDir i d hd
      have hle := hlen r (List.mem_of_getElem? hr) d hsome
      refine Or.inr ⟨i, r, n, hr, (Nat.zero_add i).symm, hn, by omega, ?_⟩
      rw [hsome, Option.bind_some, eq_comm, strlcpy_whole]
      omega

/-- What a report says of the entry it is in. -/
theorem entry_of_reported {ds : List Str} {i : ℕ} {d : Str}
    (h : Reported (some (searchLoop isDir paths sub dirs ⟨0, 0, []⟩)) ds) (hd : ds[i]? = some d) :
    ∃ r n, (found isDir sub dirs)[i]? = some r ∧ paths.size i = some n ∧
      r.2.bind (strlcpy n.toNat) = some d := by
  rw [searchLoop_eq] at h
  obtain ⟨k, r, n, hr, hi, hn, _, hp⟩ := (((foldl_report paths (found isDir sub dirs) ⟨0, 0, []⟩).2
    i (some d)).mp ((h.2 i (some d)).mpr ⟨d, hd, rfl⟩)).resolve_left List.not_mem_nil
  simp only [Nat.zero_add] at hi
  subst hi
  exact ⟨r, n, hr, hn, hp.symm⟩

theorem getElem?_flatMap_pair {α β : Type} (f g : α → β) (l : List α) (j : ℕ) :
    (l.flatMap (fun x => [f x, g x]))[2 * j + 1]? = l[j]?.map g := by
  induction l generalizing j with
  | nil => rfl
  | cons x l ih =>
      cases j with
      | zero => rfl
      | succ j => exact ih j


end Search

/-! ### The result -/

section Agreement

variable {domain : Domain} {delim name : Str} {dirs : List Str} {paths : Slots}

theorem length_subsystemName (domain : Domain) : 4 ≤ (subsystemName domain).length := by
  revert domain
  decide

/-- The list is that of the environment, unless it is empty. -/
theorem getDirlist_intercalate (delim : Str) (hdirs : ∀ d ∈ dirs, d ≠ []) (hne : dirs ≠ []) :
    getDirlist (delim.intercalate dirs) = some (delim.intercalate dirs) := by
  refine if_neg ?_
  cases dirs with
  | nil => exact absurd rfl hne
  | cons d dirs =>
      have hd := hdirs d List.mem_cons_self
      cases dirs with
      | nil =>
          rw [List.intercalate_singleton]
          exact hd
      | cons e dirs =>
          rw [List.intercalate_cons_cons, List.append_assoc]
          exact List.append_ne_nil_of_left_ne_nil hd _

/-- **File searches agree** exactly when the name of the domain has at most four characters, every path
and its terminator have fewer than `2 ^ 16`, no directory has a character of the delimiter, and the array
has room for what is reported. -/
theorem searches_agree_iff (hdelim : delim ≠ []) (hdirs : ∀ d ∈ dirs, d ≠ [])
    (hsep : Separated delim dirs) (hlen : ∀ d ∈ dirs, pathLength (subsystemName domain) name d < 65536) :
    Agree domain delim name dirs paths ↔ Fine domain delim name dirs paths := by
  by_cases hne : dirs = []
  · subst hne
    refine ⟨fun _ => ⟨fun h => absurd rfl h, fun _ hd => (nomatch hd), fun _ hd => (nomatch hd), ?_⟩,
      fun _ => ⟨fun _ => rfl, fun _ => rfl, fun _ => rfl⟩⟩
    intro isDir i d hd
    exact nomatch hd
  · have hlist := getDirlist_intercalate delim hdirs hne
    have hpieces := pieces_intercalate hdelim hne hsep (Nat.lt_succ_self _)
    have hsub := length_subsystemName domain
    have hfopen : (∀ opens, appsStdFopenWithEnv opens domain delim name (delim.intercalate dirs) =
        tryFirst opens (candidates (subsystemName domain) name dirs)) ↔
        ∀ d ∈ dirs, pathLength (subsystemName domain) name d < 65535 := by
      simp only [appsStdFopenWithEnv, hlist, fopenFromDirlist, hpieces]
      rw [tryDirs_candidates hdirs]
      refine forall₂_congr fun d hd => ?_
      have hlt := hlen d hd
      unfold pathLength u16 at *
      omega
    have hfopenFd : (∀ opens, appsStdFopenWithEnvFd opens domain delim name (delim.intercalate dirs) =
        tryFirst opens (candidates (subsystemName domain) name dirs)) ↔
        ∀ d ∈ dirs, (subsystemName domain).length ≤ 4 ∧
          pathLength (subsystemName domain) name d < 65535 := by
      have hadsp : (ascii "adsp").length = 4 := by decide
      simp only [appsStdFopenWithEnvFd, hlist, hpieces]
      rw [tryDirs_candidates hdirs, hadsp]
      refine forall₂_congr fun d hd => ?_
      have hlt := hlen d hd
      unfold pathLength u16 at *
      omega
    have hsearch : ∀ isDir, appsStdGetSearchPathsWithEnv isDir paths domain delim
        (delim.intercalate dirs) = some (searchLoop isDir paths (subsystemName domain)
          (tokens delim (delim.intercalate dirs) []) ⟨0, 0, []⟩) := by
      intro isDir
      rw [appsStdGetSearchPathsWithEnv, hlist, Option.map_some]
    constructor
    · intro h
      have hs := h.search
      simp only [hsearch] at hs
      obtain ⟨d₀, hd₀⟩ := List.exists_mem_of_ne_nil dirs hne
      refine ⟨fun _ => (hfopenFd.mp h.fopenFd d₀ hd₀).1, hfopen.mp h.fopen, ?_, ?_⟩
      · intro d hd
        obtain ⟨j, hj⟩ := List.mem_iff_getElem?.mp hd
        -- with everything a directory, entry `2 * j + 1` has the `j`-th token
        have hentry : (existing (fun _ => true) (subsystemName domain) dirs)[2 * j + 1]? = some d := by
          rw [existing, List.filter_true, directories, getElem?_flatMap_pair, hj]
          rfl
        obtain ⟨r, n, hr, _, hcopy⟩ := entry_of_reported (hs _) hentry
        rw [found, List.filter_true, getElem?_flatMap_pair] at hr
        obtain ⟨t, ht, rfl⟩ := Option.map_eq_some_iff.mp hr
        have hstarts := (strlcpy_starts hcopy).1
        intro c hc
        exact not_mem_delim (fun _ hx => absurd hx List.not_mem_nil) t (List.mem_of_getElem? ht) c
          (hstarts.subset hc)
      · intro isDir i d hd
        obtain ⟨r, n, _, hn, hcopy⟩ := entry_of_reported (hs isDir) hd
        obtain ⟨p, _, hp⟩ := Option.bind_eq_some_iff.mp hcopy
        refine ⟨n, hn, ?_⟩
        have hfits := (strlcpy_starts hp).2
        omega
    · intro h
      have htokens := tokens_intercalate hdelim hdirs h.free
      have hname := h.subsystem hne
      refine ⟨hfopen.mpr h.length, hfopenFd.mpr (fun d hd => ⟨hname, h.length d hd⟩), fun isDir => ?_⟩
      rw [hsearch, htokens]
      exact reported_found hname h.room

/-- An array has room that has two entries for each directory with room for each of them. -/
theorem room_of_forall {sub : Str} (h : ∀ i, i < 2 * dirs.length →
    ∃ n, paths.size i = some n ∧ ∀ d ∈ directories sub dirs, (d.length : ℤ) < n) :
    Room sub dirs paths := by
  intro isDir i d hd
  have hlength : (directories sub dirs).length = 2 * dirs.length := by
    unfold directories
    simp [List.length_flatMap, mul_comm]
  have hi : i < (existing isDir sub dirs).length := (List.getElem?_eq_some_iff.mp hd).1
  have hle : (existing isDir sub dirs).length ≤ (directories sub dirs).length :=
    List.length_filter_le _ _
  obtain ⟨n, hn, hfits⟩ := h i (by omega)
  exact ⟨n, hn, hfits d (List.mem_of_mem_filter (List.mem_of_getElem? hd))⟩

end Agreement

/-- The searches agree for domain 3, whose name is `cdsp`. -/
theorem searches_agree_cdsp :
    Agree 3 (ascii ";") (ascii "f") [ascii "/a", ascii "/b"]
      [some 64, some 64, some 64, some 64] := by
  refine (searches_agree_iff (by decide) (by decide) ?_ (by decide)).mpr
    ⟨fun _ => by decide, by decide +kernel, by decide +kernel, ?_⟩
  · have hlast : ∀ k < 2, ¬ ascii ";" <+: (ascii "/b").drop k := by decide +kernel
    exact ⟨by decide, hlast⟩
  · refine room_of_forall (fun i hi => ?_)
    have hlarge : ∀ d ∈ directories (subsystemName 3) [ascii "/a", ascii "/b"], (d.length : ℤ) < 64 := by
      decide
    have hsize : ∀ i < 4, Slots.size [some 64, some 64, some 64, some 64] i = some 64 := by decide
    exact ⟨64, hsize i hi, hlarge⟩

/-- For domain 4, `cdsp1`, the search with a descriptor cuts the file off its first path. -/
theorem path_cut_off :
    appsStdFopenWithEnv (fun _ => false) 4 (ascii ";") (ascii "f") (ascii "/d") =
        [some (ascii "/d/cdsp1/f"), some (ascii "/d/f")] ∧
      appsStdFopenWithEnvFd (fun _ => false) 4 (ascii ";") (ascii "f") (ascii "/d") =
        [some (ascii "/d/cdsp1/"), some (ascii "/d/f")] ∧
      ¬ Agree 4 (ascii ";") (ascii "f") [ascii "/d"] [some 64, some 64] := by
  refine ⟨by decide, by decide, fun h => ?_⟩
  exact absurd (h.fopenFd (fun _ => false)) (by decide)

end FastRpc.SearchPaths
