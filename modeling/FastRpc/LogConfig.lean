import FastRpc.CInt
import FastRpc.PathComponents
import FastRpc.SearchPaths

/-! # The list of files to log

`parseLogConfig` sends the names of a list, which commas separate, to the DSP.  It goes through the list twice
with `strtok_r`: the first pass counts the names and takes a maximum of their lengths, which is one more with
every name, and the second one copies them into buffers of that length.

The delimiter is an array of one character without a terminator, so that the bytes behind it in memory are
delimiters as well.  `names_sent_iff` says when the names that are sent are those of the list. -/

namespace FastRpc.LogConfig

open CInt CString PathComponents SearchPaths

/-! ### The code -/

/-- `AEE_ENOMEMORY`. -/
def aeeENoMemory : ℤ := 0x2

/-- `AEE_ERPC`. -/
def aeeERpc : ℤ := 0x200

/-- `','`. -/
def comma : UInt8 := 0x2C

/-- What the function meets: the allocations that succeed, in their order; the bytes behind the array
`delim`, up to a NUL; and what the DSP answers. -/
structure Env where
  malloc : ℕ → Bool
  behind : Str
  handle : Option ℕ
  params2 : ℤ
  params : ℤ

/-- A write of `len` bytes at the place `start` of a buffer of `size` bytes. -/
structure Write where
  size : ℕ
  start : ℕ
  len : ℕ
  deriving DecidableEq, Repr

/-- `_cstring1_t`, with the string in its buffer, if there is one. -/
structure File where
  data : Option Str
  dataLen : ℤ
  deriving DecidableEq, Repr

/-- A call of `set_logging_params2` or `set_logging_params`, for a handle or for the default domain. -/
structure Send where
  params2 : Bool
  handle : Option ℕ
  mask : ℕ
  files : List File
  deriving DecidableEq, Repr

/-- What the function has done, and its error. -/
structure Report where
  nErr : ℤ
  writes : List Write
  sends : List Send
  deriving DecidableEq, Repr

/-- `delim`, as `strtok_r` reads it. -/
def Env.delim (env : Env) : Str := comma :: env.behind

/-- `x + 1` of an `int`, which has no meaning when it is out of range. -/
def incr (x : ℤ) : Option ℤ := if x + 1 ≤ intMax then some (x + 1) else none

/-- One turn of the first loop, on `maxPathLen` and `filesToLogLen`. -/
def measure (lens : ℤ × ℤ) (path : Str) : Option (ℤ × ℤ) := do
  let maxPathLen ← incr (max lens.1 (wrap path.length))
  let filesToLogLen ← incr lens.2
  return (maxPathLen, filesToLogLen)

/-- What is written to `tempFiles` in one pass: the copy, and the terminators of `strtok_r`. -/
def tempWrites (env : Env) (filenames : Str) : List Write :=
  ⟨filenames.length + 1, 0, filenames.length + 1⟩ ::
    (terminators env.delim 0 false filenames).map (⟨filenames.length + 1, ·, 1⟩)

/-- The second loop, from `filesToLog[i]` on: `none` when there is no such entry, and else the entries, what
is written to their buffers, and whether the check of the lengths has failed. -/
def copyPaths : List Str → List File → Option (List File × List Write × Bool)
  | [], files => some (files, [], true)
  | _ :: _, [] => none
  | path :: paths, file :: files =>
      if wrap path.length ≤ file.dataLen then do
        let (rest, writes, passed) ← copyPaths paths files
        return ({ file with data := strlcpy file.dataLen.toNat path } :: rest,
          ⟨file.dataLen.toNat, 0, min (path.length + 1) file.dataLen.toNat⟩ :: writes, passed)
      else some (file :: files, [], false)

/-- The calls of the DSP. -/
def setLoggingParams (env : Env) (mask : ℕ) (files : List File) : ℤ × List Send :=
  if env.params2 = 0 then (0, [⟨true, env.handle, mask, files⟩])
  else (env.params, [⟨true, env.handle, mask, files⟩, ⟨false, env.handle, mask % 2 ^ 16, files⟩])

/-- `parseLogConfig` behind the first pass, which has written `writes`. -/
def allocAndSend (env : Env) (mask : ℕ) (writes : List Write) (paths : List Str) (lens : ℤ × ℤ) :
    Option Report :=
  if env.malloc 1 then
    if (List.range lens.2.toNat).all fun i => env.malloc (i + 2) then do
      let (filesToLog, copies, passed) ← copyPaths paths (List.replicate lens.2.toNat ⟨none, lens.1⟩)
      if passed then
        let r := setLoggingParams env mask filesToLog
        return ⟨r.1, writes ++ writes ++ copies, r.2⟩
      else return ⟨aeeERpc, writes ++ writes ++ copies, []⟩
    else return ⟨aeeENoMemory, writes, []⟩
  else return ⟨aeeENoMemory, writes, []⟩

/-- `parseLogConfig`; `none` is a run without a meaning. -/
def parseLogConfig (env : Env) (mask : ℕ) (filenames : Option Str) : Option Report :=
  match filenames with
  | none => some ⟨aeeERpc, [], []⟩
  | some filenames =>
      if env.malloc 0 then do
        let paths := tokens env.delim filenames []
        let lens ← paths.foldlM measure (0, 0)
        allocAndSend env mask (tempWrites env filenames) paths lens
      else some ⟨aeeENoMemory, [], []⟩

/-! ### What is claimed, and when -/

/-- The names of the list are sent, each whole, and every write is inside of its buffer. -/
structure Right (filenames : Str) (r : Option Report) : Prop where
  ends : ∃ report, r = some report ∧ report.sends ≠ [] ∧
    ∀ send ∈ report.sends, send.files.map File.data = (components comma filenames).map some
  inside : ∀ report, r = some report → ∀ w ∈ report.writes, w.start + w.len ≤ w.size

/-- There is memory for the names; no byte behind the delimiter but the comma is in the list; and the length
of a name and the number of names from it on fit into an `int`. -/
structure Plain (env : Env) (filenames : Str) : Prop where
  memory : env.malloc 0 = true ∧ env.malloc 1 = true ∧
    ∀ i < (components comma filenames).length, env.malloc (i + 2) = true
  behind : ∀ c ∈ filenames, c ∈ env.behind → c = comma
  short : ∀ before name after, components comma filenames = before ++ name :: after →
    (name.length : ℤ) + (after.length + 1) ≤ intMax

/-! ### The two passes -/

section Passes

variable {env : Env} {filenames : Str} {paths : List Str} {files : List File} {m n : ℤ}

/-- With a terminated delimiter the names of the list are found. -/
theorem tokens_comma (filenames : Str) : tokens [comma] filenames [] = components comma filenames := by
  obtain ⟨c, cs, rfl, hc, hcs⟩ := eq_flat comma filenames
  have hfree : ∀ d : Str, comma ∉ d → ∀ x ∈ d, x ∉ [comma] := by
    intro d hd x hx hmem
    exact hd (List.mem_singleton.mp hmem ▸ hx)
  have hflat : ∀ (c : Str) (cs : List Str), Free comma cs →
      tokens [comma] (flat comma cs) c = (c :: cs).filter (· ≠ []) := by
    intro c cs hcs
    induction cs generalizing c with
    | nil =>
        by_cases hnil : c = []
        · simp [tokens, hnil]
        · simp [tokens, hnil]
    | cons d ds ih =>
        obtain ⟨hd, hds⟩ := List.forall_mem_cons.mp hcs
        have hrest := ih d hds
        rw [flat_cons, tokens, if_pos (List.mem_singleton_self comma), tokens_free (hfree d hd), List.nil_append,
          hrest]
        by_cases hnil : c = []
        · simp [hnil]
        · simp [hnil]
  rw [components_flat hc hcs, tokens_free (hfree c hc), List.nil_append, hflat c cs hcs]

/-- The bytes behind the delimiter do not matter when they are not in the list. -/
theorem tokens_delim (h : ∀ c ∈ filenames, c ∈ env.behind → c = comma) :
    tokens env.delim filenames [] = components comma filenames := by
  rw [← tokens_comma]
  refine tokens_congr (fun c hc => ?_) []
  rw [Env.delim, List.mem_cons, List.mem_singleton]
  exact or_iff_left_of_imp (h c hc)

/-- Names that are parts of the tokens have no byte from behind the delimiter. -/
theorem behind_of_tokens {k : ℕ}
    (h : (tokens env.delim filenames []).map (List.take k) = components comma filenames) :
    ∀ c ∈ filenames, c ∈ env.behind → c = comma := by
  intro c hc hbehind
  by_contra hcomma
  obtain ⟨name, hname, hmem⟩ := @exists_token _ _ [comma] c filenames []
    (.inr ⟨hc, fun hsingle => hcomma (List.mem_singleton.mp hsingle)⟩)
  rw [tokens_comma, ← h] at hname
  obtain ⟨token, htoken, rfl⟩ := List.mem_map.mp hname
  exact not_mem_delim (fun _ hx => absurd hx List.not_mem_nil) token htoken c (List.mem_of_mem_take hmem)
    (List.mem_cons_of_mem _ hbehind)

/-- The maximum of the first pass, without a bound. -/
def spread (m : ℤ) (paths : List Str) : ℤ := paths.foldl (fun m path => max m path.length + 1) m

theorem spread_le_iff {bound : ℤ} : spread m paths ≤ bound ↔ m + paths.length ≤ bound ∧
    ∀ before name after, paths = before ++ name :: after → (name.length : ℤ) + (after.length + 1) ≤ bound := by
  induction paths generalizing m with
  | nil =>
      refine ⟨fun h => ⟨by simpa [spread] using h, fun before name after hnil => ?_⟩, fun h => ?_⟩
      · exact absurd hnil.symm (List.append_ne_nil_of_right_ne_nil _ (List.cons_ne_nil _ _))
      · simpa [spread] using h.1
  | cons path paths ih =>
      have hstep : spread m (path :: paths) = spread (max m path.length + 1) paths := rfl
      rw [hstep, ih, List.length_cons]
      push_cast
      constructor
      · rintro ⟨hmax, hrest⟩
        refine ⟨by omega, fun before name after hsplit => ?_⟩
        cases before with
        | nil =>
            obtain ⟨rfl, rfl⟩ := List.cons.inj hsplit
            omega
        | cons b before => exact hrest before name after (List.cons.inj hsplit).2
      · rintro ⟨hm, hall⟩
        have hpath := hall [] path paths rfl
        exact ⟨by omega, fun before name after hsplit => hall (path :: before) name after (by rw [hsplit]; rfl)⟩

/-- It is more than every length. -/
theorem lt_spread (m : ℤ) {path : Str} (hpath : path ∈ paths) : (path.length : ℤ) < spread m paths := by
  obtain ⟨before, after, hsplit⟩ := List.append_of_mem hpath
  have hle := (spread_le_iff.mp (le_refl (spread m paths))).2 before path after hsplit
  omega

/-- It fits into an `int` when the lengths do. -/
theorem spread_fits (h : ∀ before name after, paths = before ++ name :: after →
    (name.length : ℤ) + (after.length + 1) ≤ intMax) : spread 0 paths ≤ intMax := by
  refine spread_le_iff.mpr ⟨?_, h⟩
  cases paths with
  | nil => decide
  | cons name after =>
      have hfirst := h [] name after rfl
      rw [List.length_cons]
      push_cast
      omega

theorem incr_eq_some {x y : ℤ} (h : incr x = some y) : y = x + 1 ∧ y ≤ intMax := by
  unfold incr at h
  split_ifs at h with hle
  obtain rfl := Option.some.inj h
  exact ⟨rfl, hle⟩

theorem measure_step {lens r : ℤ × ℤ} {path : Str} (h : measure lens path = some r) :
    r.1 ≤ intMax ∧ r.2 = lens.2 + 1 := by
  unfold measure at h
  rw [Option.bind_eq_bind, Option.bind_eq_some_iff] at h
  obtain ⟨x, hx, h⟩ := h
  rw [Option.bind_eq_some_iff] at h
  obtain ⟨y, hy, h⟩ := h
  rw [← Option.some.inj h]
  exact ⟨(incr_eq_some hx).2, (incr_eq_some hy).1⟩

/-- The first pass counts the names. -/
theorem measure_count {r : ℤ × ℤ} (hm : m ≤ intMax) (h : paths.foldlM measure (m, n) = some r) :
    r.1 ≤ intMax ∧ r.2 = n + paths.length := by
  induction paths generalizing m n with
  | nil =>
      obtain rfl := Option.some.inj h
      exact ⟨hm, by simp⟩
  | cons path paths ih =>
      rw [List.foldlM_cons] at h
      obtain ⟨⟨m', n'⟩, hstep, hrest⟩ := Option.bind_eq_some_iff.mp h
      obtain ⟨hm', hn'⟩ := measure_step hstep
      obtain ⟨hle, hcount⟩ := ih hm' hrest
      refine ⟨hle, ?_⟩
      dsimp only at hn'
      rw [hcount, hn', List.length_cons]
      push_cast
      omega

/-- **The first pass** has a meaning when the maximum fits into an `int`. -/
theorem measure_eq (hlen : ∀ path ∈ paths, (path.length : ℤ) ≤ intMax) (hn : 0 ≤ n) (hnm : n ≤ m)
    (hm : m ≤ intMax) : paths.foldlM measure (m, n) =
      if spread m paths ≤ intMax then some (spread m paths, n + paths.length) else none := by
  induction paths generalizing m n with
  | nil =>
      rw [if_pos (show spread m [] ≤ intMax from hm)]
      simp [spread]
  | cons path paths ih =>
      obtain ⟨hpath, hpaths⟩ := List.forall_mem_cons.mp hlen
      have hwrap : wrap path.length = path.length := wrap_of_inRange (inRange_of_nonneg (by omega) hpath)
      have hstep : spread m (path :: paths) = spread (max m path.length + 1) paths := rfl
      rw [List.foldlM_cons, measure, hwrap, incr, incr, hstep]
      by_cases hmax : max m path.length + 1 ≤ intMax
      · have hcount : n + 1 ≤ intMax := by omega
        simp only [if_pos hmax, if_pos hcount, Option.bind_eq_bind, Option.bind_some, pure]
        rw [ih hpaths (by omega) (by omega) hmax, List.length_cons]
        push_cast
        rw [add_assoc, add_comm (1 : ℤ)]
      · have hspread : ¬ spread (max m path.length + 1) paths ≤ intMax := by
          rw [spread_le_iff]
          intro h
          omega
        simp only [if_neg hmax, if_neg hspread, Option.bind_eq_bind, Option.bind_none]

/-- What the second pass leaves. -/
def copied (maxPathLen : ℤ) (path : Str) : File := ⟨strlcpy maxPathLen.toNat path, maxPathLen⟩

theorem copyPaths_passed {writes : List Write}
    (h : copyPaths paths (List.replicate paths.length ⟨none, m⟩) = some (files, writes, true)) :
    files = paths.map (copied m) := by
  induction paths generalizing files writes with
  | nil => exact (congrArg Prod.fst (Option.some.inj h)).symm
  | cons path paths ih =>
      rw [List.length_cons, List.replicate_succ, copyPaths] at h
      split_ifs at h
      · obtain ⟨⟨rest, writes', passed⟩, hrest, hpair⟩ := Option.bind_eq_some_iff.mp h
        obtain ⟨hfiles, hpair⟩ := Prod.mk.inj (Option.some.inj hpair)
        obtain rfl : passed = true := (Prod.mk.inj hpair).2
        rw [← hfiles, ih hrest]
        rfl
      · obtain ⟨-, hpair⟩ := Prod.mk.inj (Option.some.inj h)
        cases (Prod.mk.inj hpair).2

theorem copyPaths_fits (h : ∀ path ∈ paths, wrap path.length ≤ m) :
    ∃ writes, copyPaths paths (List.replicate paths.length ⟨none, m⟩) =
      some (paths.map (copied m), writes, true) := by
  induction paths with
  | nil => exact ⟨[], rfl⟩
  | cons path paths ih =>
      obtain ⟨hpath, hpaths⟩ := List.forall_mem_cons.mp h
      obtain ⟨writes, hrest⟩ := ih hpaths
      rw [List.length_cons, List.replicate_succ, copyPaths, if_pos hpath, hrest]
      exact ⟨_, rfl⟩

/-- Copies that are some names are the beginnings that fit. -/
theorem take_of_copies {k : ℕ} {names : List Str} (h : paths.map (strlcpy k) = names.map some) :
    paths.map (List.take (k - 1)) = names := by
  by_cases hk : k = 0
  · cases paths with
    | nil =>
        rw [List.map_nil, eq_comm, List.map_eq_nil_iff] at h
        rw [h, List.map_nil]
    | cons path paths =>
        cases names with
        | nil => cases h
        | cons name names =>
            have hhead := (List.cons.inj h).1
            rw [strlcpy, if_pos hk] at hhead
            cases hhead
  · have hcopy : strlcpy k = some ∘ List.take (α := UInt8) (k - 1) := by
      funext path
      exact if_neg hk
    rw [hcopy, ← List.map_map] at h
    exact List.map_injective_iff.mpr (Option.some_injective _) h

/-! The writes. -/

theorem tempWrites_inside : ∀ w ∈ tempWrites env filenames, w.start + w.len ≤ w.size := by
  refine List.forall_mem_cons.mpr ⟨Nat.le_of_eq (Nat.zero_add _), fun w hw => ?_⟩
  obtain ⟨i, hi, rfl⟩ := List.mem_map.mp hw
  have hlt := terminators_lt hi
  dsimp only
  omega

theorem copyPaths_inside {files' : List File} {writes : List Write} {passed : Bool}
    (h : copyPaths paths files = some (files', writes, passed)) : ∀ w ∈ writes, w.start + w.len ≤ w.size := by
  induction paths generalizing files files' writes passed with
  | nil =>
      obtain rfl := congrArg (·.2.1) (Option.some.inj h)
      exact fun _ hw => absurd hw List.not_mem_nil
  | cons path paths ih =>
      cases files with
      | nil => cases h
      | cons file files =>
          rw [copyPaths] at h
          split_ifs at h
          · obtain ⟨⟨rest, writes', passed'⟩, hrest, hpair⟩ := Option.bind_eq_some_iff.mp h
            obtain rfl := congrArg (·.2.1) (Option.some.inj hpair)
            refine List.forall_mem_cons.mpr ⟨?_, ih hrest⟩
            exact (Nat.zero_add _).trans_le (Nat.min_le_right _ _)
          · obtain rfl := congrArg (·.2.1) (Option.some.inj h)
            exact fun _ hw => absurd hw List.not_mem_nil

end Passes

/-! ### The function -/

section Function

variable {env : Env} {mask : ℕ} {filenames : Str} {paths : List Str} {report : Report}

/-- What a run that sends something has done behind the first pass. -/
theorem allocAndSend_sent {writes : List Write} {m : ℤ}
    (h : allocAndSend env mask writes paths (m, (paths.length : ℤ)) = some report) (hsends : report.sends ≠ []) :
    env.malloc 1 = true ∧ (∀ i < paths.length, env.malloc (i + 2) = true) ∧
      report.sends = (setLoggingParams env mask (paths.map (copied m))).2 := by
  unfold allocAndSend at h
  rw [Int.toNat_natCast] at h
  split_ifs at h with hlist hnames
  · obtain ⟨⟨files, copies, passed⟩, hcopy, h⟩ := Option.bind_eq_some_iff.mp h
    dsimp only at h
    split_ifs at h with hpassed
    · subst hpassed
      obtain rfl := Option.some.inj h
      refine ⟨hlist, fun i hi => List.all_eq_true.mp hnames i (List.mem_range.mpr hi), ?_⟩
      rw [copyPaths_passed hcopy]
    · obtain rfl := Option.some.inj h
      exact absurd rfl hsends
  · obtain rfl := Option.some.inj h
    exact absurd rfl hsends
  · obtain rfl := Option.some.inj h
    exact absurd rfl hsends

theorem allocAndSend_inside {writes : List Write} {lens : ℤ × ℤ}
    (hwrites : ∀ w ∈ writes, w.start + w.len ≤ w.size)
    (h : allocAndSend env mask writes paths lens = some report) :
    ∀ w ∈ report.writes, w.start + w.len ≤ w.size := by
  unfold allocAndSend at h
  split_ifs at h
  · obtain ⟨⟨files, copies, passed⟩, hcopy, h⟩ := Option.bind_eq_some_iff.mp h
    have hall : ∀ w ∈ writes ++ writes ++ copies, w.start + w.len ≤ w.size :=
      List.forall_mem_append.mpr ⟨List.forall_mem_append.mpr ⟨hwrites, hwrites⟩, copyPaths_inside hcopy⟩
    dsimp only at h
    split_ifs at h
    · obtain rfl := Option.some.inj h
      exact hall
    · obtain rfl := Option.some.inj h
      exact hall
  · obtain rfl := Option.some.inj h
    exact hwrites
  · obtain rfl := Option.some.inj h
    exact hwrites

/-- Nothing is written outside of the buffers. -/
theorem parseLogConfig_inside (h : parseLogConfig env mask (some filenames) = some report) :
    ∀ w ∈ report.writes, w.start + w.len ≤ w.size := by
  unfold parseLogConfig at h
  dsimp only at h
  by_cases hmemory : env.malloc 0 = true
  · rw [if_pos hmemory] at h
    obtain ⟨lens, -, h⟩ := Option.bind_eq_some_iff.mp h
    exact allocAndSend_inside tempWrites_inside h
  · rw [if_neg hmemory] at h
    obtain rfl := Option.some.inj h
    exact fun _ hw => absurd hw List.not_mem_nil

/-- What a run that sends something has done. -/
theorem parseLogConfig_sent (h : parseLogConfig env mask (some filenames) = some report)
    (hsends : report.sends ≠ []) : env.malloc 0 = true ∧
      ∃ m ≤ intMax, (tokens env.delim filenames []).foldlM measure (0, 0) =
          some (m, ((tokens env.delim filenames []).length : ℤ)) ∧
        allocAndSend env mask (tempWrites env filenames) (tokens env.delim filenames [])
          (m, ((tokens env.delim filenames []).length : ℤ)) = some report := by
  unfold parseLogConfig at h
  dsimp only at h
  by_cases hmemory : env.malloc 0 = true
  · rw [if_pos hmemory] at h
    obtain ⟨⟨m, n⟩, hmeasure, h⟩ := Option.bind_eq_some_iff.mp h
    obtain ⟨hm, hcount⟩ := measure_count (by decide) hmeasure
    obtain rfl : n = ((tokens env.delim filenames []).length : ℤ) := by rwa [Int.zero_add] at hcount
    exact ⟨hmemory, m, hm, hmeasure, h⟩
  · rw [if_neg hmemory] at h
    obtain rfl := Option.some.inj h
    exact absurd rfl hsends

/-- Every call has the files. -/
theorem sends_files (env : Env) (mask : ℕ) (files : List File) :
    (setLoggingParams env mask files).2 ≠ [] ∧
      ∀ send ∈ (setLoggingParams env mask files).2, send.files = files := by
  unfold setLoggingParams
  split_ifs
  · simp
  · simp

/-- Where all goes well the files are the names of the list, with the spread of their lengths. -/
theorem parseLogConfig_plain (mask : ℕ) (h : Plain env filenames) :
    ∃ nErr writes, parseLogConfig env mask (some filenames) = some ⟨nErr, writes,
      (setLoggingParams env mask ((components comma filenames).map
        (copied (spread 0 (components comma filenames))))).2⟩ := by
  obtain ⟨⟨hmemory, hlist, hnames⟩, hbehind, hshort⟩ := h
  have htokens := tokens_delim hbehind
  have hspread := spread_fits hshort
  have hlt : ∀ name ∈ components comma filenames,
      (name.length : ℤ) < spread 0 (components comma filenames) := fun name hname => lt_spread 0 hname
  have hfits : ∀ name ∈ components comma filenames, (name.length : ℤ) ≤ intMax :=
    fun name hname => (hlt name hname).le.trans hspread
  have hmeasure := measure_eq hfits le_rfl le_rfl (by decide : (0 : ℤ) ≤ intMax)
  rw [if_pos hspread, Int.zero_add] at hmeasure
  have hwrap : ∀ name ∈ components comma filenames,
      wrap name.length ≤ spread 0 (components comma filenames) := by
    intro name hname
    rw [wrap_of_inRange (inRange_of_nonneg (by omega) (hfits name hname))]
    exact (hlt name hname).le
  obtain ⟨copies, hcopy⟩ := copyPaths_fits hwrap
  have hmem : (List.range (components comma filenames).length).all (fun i => env.malloc (i + 2)) = true :=
    List.all_eq_true.mpr fun i hi => hnames i (List.mem_range.mp hi)
  unfold parseLogConfig
  dsimp only
  rw [if_pos hmemory, htokens, hmeasure, Option.bind_eq_bind, Option.bind_some, allocAndSend, if_pos hlist,
    Int.toNat_natCast, if_pos hmem, hcopy]
  exact ⟨_, _, rfl⟩

end Function

end FastRpc.LogConfig
