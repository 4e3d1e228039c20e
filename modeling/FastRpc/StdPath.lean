import FastRpc.BoundedBuffer
import Mathlib.Data.List.DropRight
import Mathlib.Data.List.GetD

/-! # Joining and splitting paths

`std_makepath` puts a slash between a directory and a file where none is, and `std_splitpath` looks for
a directory at the beginning of a path.  Splitting a joined path by its directory gives the file back
(`split_makepath`).

`std_makepath` writes to a `BufBound`, which stops to count at `INT_MAX`: its result is the length of the
joined path when that is shorter.

`std_splitpath` passes over one slash at the end of the directory and one behind it in the path.  It
tests for containment (`splitpath_contained_iff`) when the path has as many slashes behind the directory
as the directory has at its end, or one when it has none. -/

namespace FastRpc.StdPath

open BoundedBuffer CInt

/-! ### The code -/

/-- `'/'`. -/
def slash : UInt8 := 47

/-- `std_makepath`. -/
def stdMakepath (cpszDir cpszFile : List UInt8) (pszOut : Ptr) (nOutLen : ℤ) (mem : Ptr → UInt8) :
    State × ℤ :=
  let bb := init pszOut nOutLen mem
  let bb := puts bb cpszDir
  let bb := if cpszDir ≠ [] ∧ cpszDir.getLast? ≠ some slash then putc bb slash else bb
  let cpszFile := if cpszFile.head? = some slash then cpszFile.tail else cpszFile
  let bb := puts bb cpszFile
  let bb := forceNullTerm bb
  (bb, wrote bb - 1)

/-- `std_splitpath` behind its loop. -/
def filename : List UInt8 → Option (List UInt8)
  | [] => some []
  | c :: cpsz => if c = slash then some cpsz else none

/-- `std_splitpath`: the part of the path that it points to. -/
def stdSplitpath : List UInt8 → List UInt8 → Option (List UInt8)
  | cpsz, [] => filename cpsz
  | cpsz, d :: cpszDir =>
      if d = slash ∧ cpszDir = [] then filename cpsz
      else
        match cpsz with
        | [] => none
        | c :: cpsz => if d = c then stdSplitpath cpsz cpszDir else none

/-! ### Joined paths -/

/-- A file without one slash at its beginning. -/
def dropSlash (file : List UInt8) : List UInt8 := if file.head? = some slash then file.tail else file

/-- The slash that a directory lacks at its end. -/
def joint (dir : List UInt8) : List UInt8 :=
  if dir ≠ [] ∧ dir.getLast? ≠ some slash then [slash] else []

/-- The joined path. -/
def fullPath (dir file : List UInt8) : List UInt8 := dir ++ joint dir ++ dropSlash file

/-- A string and its terminator are in memory. -/
def StringAt (mem : Ptr → UInt8) (p : Ptr) (s : List UInt8) : Prop :=
  ∀ i : ℕ, i ≤ s.length → mem (ptrAdd p i) = s.getD i 0

/-- The calls of `std_makepath` on its `BufBound`. -/
def makepathOps (dir file : List UInt8) : List Op :=
  .puts dir :: ((joint dir).map Op.putc ++ [.puts (dropSlash file), .forceNullTerm])

section Makepath

variable {dir file l m : List UInt8} {t : Tape}

theorem calls_joint (s : State) (dir : List UInt8) : s.calls ((joint dir).map Op.putc) =
    if dir ≠ [] ∧ dir.getLast? ≠ some slash then putc s slash else s := by
  unfold joint
  by_cases h : dir ≠ [] ∧ dir.getLast? ≠ some slash
  · rw [if_pos h, if_pos h]
    rfl
  · rw [if_neg h, if_neg h]
    rfl

theorem calls_makepathOps (s : State) (dir file : List UInt8) :
    s.calls (makepathOps dir file) =
      forceNullTerm (puts (if dir ≠ [] ∧ dir.getLast? ≠ some slash then putc (puts s dir) slash
        else puts s dir) (dropSlash file)) := by
  have hcalls : s.calls (makepathOps dir file) =
      (((s.call (.puts dir)).calls ((joint dir).map Op.putc)).call (.puts (dropSlash file))).call
        .forceNullTerm := by
    unfold makepathOps State.calls
    rw [List.foldl_cons, List.foldl_append, List.foldl_cons, List.foldl_cons, List.foldl_nil]
  rw [hcalls, calls_joint]
  rfl

theorem stdMakepath_eq (dir file : List UInt8) (pszOut : Ptr) (nOutLen : ℤ) (mem : Ptr → UInt8) :
    stdMakepath dir file pszOut nOutLen mem =
      ((init pszOut nOutLen mem).calls (makepathOps dir file),
        wrote ((init pszOut nOutLen mem).calls (makepathOps dir file)) - 1) := by
  rw [calls_makepathOps]
  unfold stdMakepath dropSlash
  simp only

theorem strlen_eq (h : 0 ∉ l) : strlen l = l.length := by
  unfold strlen
  rw [List.takeWhile_eq_self_iff.mpr]
  intro c hc
  exact decide_eq_true (fun hzero => h (hzero ▸ hc))

theorem dropSlash_subset (file : List UInt8) : dropSlash file ⊆ file := by
  unfold dropSlash
  split_ifs
  · exact (List.tail_suffix file).subset
  · exact List.Subset.refl file

/-- The tape holds what was written to it so far. -/
structure Holds (t : Tape) (l : List UInt8) : Prop where
  cursor : t.cursor = l.length
  cells : ∀ i < l.length, t.cell i = l.getD i 0

/-- More is written behind it. -/
theorem Holds.put (pc : ℕ → UInt8) (h : Holds t l) (hpc : ∀ k < m.length, pc k = m.getD k 0)
    (hfits : ((l ++ m).length : ℤ) ≤ intMax) : Holds (t.put pc m.length) (l ++ m) := by
  rw [List.length_append, Nat.cast_add] at hfits
  constructor
  · change saturate (t.cursor + m.length) = _
    rw [h.cursor, saturate, List.length_append]
    omega
  · intro i hi
    rw [List.length_append] at hi
    change (if t.cursor ≤ i ∧ i < t.cursor + m.length then pc (i - t.cursor).toNat else t.cell i) = _
    rw [h.cursor]
    rcases Nat.lt_or_ge i l.length with hlt | hge
    · rw [if_neg (by omega), h.cells i hlt, List.getD_append _ _ _ _ hlt]
    · rw [if_pos (by omega), List.getD_append_right _ _ _ _ hge, hpc _ (by omega)]
      congr 1
      omega

theorem Holds.puts (h : Holds t l) (hm : 0 ∉ m) (hfits : ((l ++ m).length : ℤ) ≤ intMax) :
    Holds (t.call (.puts m)) (l ++ m) := by
  have hput := h.put (fun k => m.getD k 0) (fun _ _ => rfl) hfits
  rw [← strlen_eq hm] at hput
  exact hput

theorem Holds.putc (c : UInt8) (h : Holds t l) (hfits : ((l ++ [c]).length : ℤ) ≤ intMax) :
    Holds (t.call (.putc c)) (l ++ [c]) :=
  h.put (m := [c]) (fun _ => c) (fun k hk => by rw [Nat.lt_one_iff.mp hk]; rfl) hfits

/-- What the calls of `std_makepath` leave on the tape. -/
theorem holds_makepathOps (hdir : 0 ∉ dir) (hfile : 0 ∉ file)
    (hfits : ((fullPath dir file).length : ℤ) < intMax) (cell : ℕ → UInt8) :
    Holds ((⟨cell, 0⟩ : Tape).calls (makepathOps dir file)) (fullPath dir file ++ [0]) := by
  have hlen : ((dir ++ joint dir ++ dropSlash file).length : ℤ) < intMax := hfits
  simp only [List.length_append, Nat.cast_add] at hlen
  have hempty : Holds (⟨cell, 0⟩ : Tape) [] := ⟨rfl, fun _ hi => absurd hi (Nat.not_lt_zero _)⟩
  have hputs := hempty.puts hdir (by rw [List.nil_append]; omega)
  rw [List.nil_append] at hputs
  have hjoint : Holds (((⟨cell, 0⟩ : Tape).call (.puts dir)).calls ((joint dir).map Op.putc))
      (dir ++ joint dir) := by
    unfold joint at hlen ⊢
    split_ifs at hlen ⊢
    · exact hputs.putc slash (by simp only [List.length_append, Nat.cast_add]; omega)
    · rw [List.append_nil]
      exact hputs
  have hfileput := hjoint.puts (fun hzero => hfile (dropSlash_subset file hzero))
    (by simp only [List.length_append, Nat.cast_add]; omega)
  have hnul := hfileput.putc 0
    (by simp only [List.length_append, Nat.cast_add, List.length_singleton]; omega)
  have hcalls : (⟨cell, 0⟩ : Tape).calls (makepathOps dir file) =
      ((((⟨cell, 0⟩ : Tape).call (.puts dir)).calls ((joint dir).map Op.putc)).call
        (.puts (dropSlash file))).call (.putc 0) := by
    unfold makepathOps Tape.calls
    rw [List.foldl_cons, List.foldl_append]
    rfl
  rw [hcalls]
  exact hnul

/-- A result of `std_makepath` is less than `INT_MAX`. -/
theorem makepath_lt (dir file : List UInt8) (pszOut : Ptr) (nOutLen : ℤ) (mem : Ptr → UInt8) :
    (stdMakepath dir file pszOut nOutLen mem).2 < intMax := by
  rw [stdMakepath_eq]
  exact Int.sub_one_lt_of_le (inRange_wrap _).2

/-- The strings of a joined path that is short enough. -/
theorem fits_makepathOps (hdir : 0 ∉ dir) (hfile : 0 ∉ file)
    (hfits : ((fullPath dir file).length : ℤ) < intMax) : ∀ op ∈ makepathOps dir file, op.Fits := by
  simp only [fullPath, List.length_append, Nat.cast_add] at hfits
  have hfile' : 0 ∉ dropSlash file := fun hzero => hfile (dropSlash_subset file hzero)
  intro op hop
  simp only [makepathOps, List.mem_cons, List.mem_append, List.mem_map, List.not_mem_nil, or_false] at hop
  rcases hop with rfl | ⟨c, _, rfl⟩ | rfl | rfl
  · change (strlen dir : ℤ) ≤ intMax
    rw [strlen_eq hdir]
    omega
  · trivial
  · change (strlen (dropSlash file) : ℤ) ≤ intMax
    rw [strlen_eq hfile']
    omega
  · trivial

/-- A joined path that fits into the output buffer is a string in it. -/
theorem stringAt_makepath (hdir : 0 ∉ dir) (hfile : 0 ∉ file) (pszOut : Ptr) {nOutLen : ℤ}
    (mem : Ptr → UInt8) (hn : InRange nOutLen) (hroom : (fullPath dir file).length < nOutLen) :
    StringAt (stdMakepath dir file pszOut nOutLen mem).1.mem pszOut (fullPath dir file) := by
  have hfits := lt_of_lt_of_le hroom hn.2
  have hholds := holds_makepathOps hdir hfile hfits (fun i => mem (ptrAdd pszOut i))
  have hbytes := (buffer_follows_tape pszOut nOutLen mem _ hn (fits_makepathOps hdir hfile hfits)).2.2.2
  rw [stdMakepath_eq]
  intro i hi
  have hcell := hholds.cells i (by rw [List.length_append]; exact Nat.lt_succ_of_le hi)
  have hnul : (fullPath dir file ++ [0]).getD i 0 = (fullPath dir file).getD i 0 := by
    rcases Nat.lt_or_eq_of_le hi with hlt | rfl
    · exact List.getD_append _ _ _ _ hlt
    · rw [List.getD_append_right _ _ _ _ le_rfl, Nat.sub_self, List.getD_eq_default _ _ le_rfl]
      rfl
  rcases hbytes i (by omega) with hmem | ⟨hlast, hzero, _⟩
  · exact hmem.trans (hcell.trans hnul)
  · -- only the terminator can be the last byte of the buffer
    rw [List.getD_eq_default _ _ (by omega)]
    exact hzero

/-- Splitting a joined path by its directory. -/
theorem split_fullPath (hdir : dir ≠ []) (file : List UInt8) :
    stdSplitpath (fullPath dir file) dir = some (dropSlash file) := by
  unfold fullPath
  induction dir with
  | nil => exact absurd rfl hdir
  | cons d ds ih =>
      cases ds with
      | nil =>
          by_cases hd : d = slash
          · simp [joint, stdSplitpath, filename, hd]
          · simp [joint, stdSplitpath, filename, hd]
      | cons e es =>
          have hjoint : joint (d :: e :: es) = joint (e :: es) := by
            simp [joint, List.getLast?_cons_cons]
          rw [hjoint, List.cons_append, List.cons_append, stdSplitpath, if_neg (fun h => nomatch h.2)]
          simp only [if_true]
          exact ih (List.cons_ne_nil e es)

/-- **Joining and splitting.** Whatever slashes a directory ends with, a joined path that fits into the
output buffer is written to it as a string, and splitting it by the directory gives the file back
without one slash at its beginning.  Whatever the size of the buffer, the result of `std_makepath` is the
length of the joined path exactly when that is less than `INT_MAX`. -/
theorem split_makepath (dir file : List UInt8) (hne : dir ≠ []) (hdir : 0 ∉ dir) (hfile : 0 ∉ file)
    (pszOut : Ptr) (mem : Ptr → UInt8) :
    (∀ nOutLen, InRange nOutLen → (fullPath dir file).length < nOutLen →
      StringAt (stdMakepath dir file pszOut nOutLen mem).1.mem pszOut (fullPath dir file) ∧
        stdSplitpath (fullPath dir file) dir = some (dropSlash file)) ∧
      ∀ nOutLen, InRange nOutLen →
        ((stdMakepath dir file pszOut nOutLen mem).2 = (fullPath dir file).length ↔
          ((fullPath dir file).length : ℤ) < intMax) := by
  refine ⟨fun nOutLen hn hroom => ⟨stringAt_makepath hdir hfile pszOut mem hn hroom,
    split_fullPath hne file⟩, fun nOutLen hn => ⟨fun h => ?_, fun hfits => ?_⟩⟩
  · rw [← h]
    exact makepath_lt dir file pszOut nOutLen mem
  · have hholds := holds_makepathOps hdir hfile hfits (fun i => mem (ptrAdd pszOut i))
    have hwrote := (buffer_follows_tape pszOut nOutLen mem _ hn (fits_makepathOps hdir hfile hfits)).2.1
    rw [stdMakepath_eq, hwrote, hholds.cursor, List.length_append]
    simp

theorem split_makepath_slashes :
    StringAt (stdMakepath [100, slash, slash] [slash, 102] 0x1000 6 (fun _ => 1)).1.mem 0x1000
        [100, slash, slash, 102] ∧
      stdSplitpath [100, slash, slash, 102] [100, slash, slash] = some [102] ∧
      (stdMakepath [100, slash, slash] [slash, 102] 0x1000 0 (fun _ => 1)).2 = 4 := by
  have h := split_makepath [100, slash, slash] [slash, 102] (by decide) (by decide) (by decide) 0x1000
    (fun _ => 1)
  exact ⟨(h.1 6 (by decide) (by decide)).1, (h.1 6 (by decide) (by decide)).2,
    (h.2 0 (by decide)).mpr (by decide)⟩

/-- A directory of `2 ^ 31` characters, joined with nothing. -/
theorem long_length_saturates :
    (stdMakepath (List.replicate (2 ^ 31) 97) [] 0x1000 0 (fun _ => 0)).2 ≠
      (fullPath (List.replicate (2 ^ 31) 97) []).length := by
  have hlt := makepath_lt (List.replicate (2 ^ 31) 97) [] 0x1000 0 (fun _ => 0)
  have hlen : 2 ^ 31 ≤ (fullPath (List.replicate (2 ^ 31) 97) []).length := by
    rw [fullPath, List.append_assoc, List.length_append, List.length_replicate]
    exact Nat.le_add_right _ _
  have hmax := intMax_eq
  omega

end Makepath

/-! ### Containment -/

/-- A directory without the slashes at its end. -/
def trimmed (dir : List UInt8) : List UInt8 := dir.rdropWhile (· = slash)

/-- The path is the directory, or continues it with a slash. -/
def Under (path dir : List UInt8) : Prop :=
  ∃ rest, path = trimmed dir ++ rest ∧ (rest = [] ∨ rest.head? = some slash)

/-- The part of a path behind the directory, without the slashes at its beginning. -/
def subpath (path dir : List UInt8) : List UInt8 :=
  (path.drop (trimmed dir).length).dropWhile (· = slash)

/-- `r` is the result of a test for containment. -/
def TestsContainment (path dir : List UInt8) (r : Option (List UInt8)) : Prop :=
  (r.isSome = true ↔ Under path dir) ∧ ∀ sub ∈ r, sub = subpath path dir ∧ sub.head? ≠ some slash

/-- The number of slashes at the end of the directory. -/
def slashesEnding (dir : List UInt8) : ℕ := (dir.rtakeWhile (· = slash)).length

/-- The number of slashes in the path behind the directory. -/
def slashesBehind (path dir : List UInt8) : ℕ :=
  ((path.drop (trimmed dir).length).takeWhile (· = slash)).length

/-- The path has as many slashes behind the directory as the directory has at its end, or one when it
has none; one less will do where the path ends. -/
def SlashesMatch (path dir : List UInt8) : Prop :=
  slashesBehind path dir = max 1 (slashesEnding dir) ∨
    slashesBehind path dir + 1 = max 1 (slashesEnding dir) ∧ subpath path dir = []

section Splitpath

variable {d w : List UInt8} {j k : ℕ}

theorem split_nil (cpsz : List UInt8) : stdSplitpath cpsz [] = filename cpsz := by
  cases cpsz <;> rfl

theorem split_slash (cpsz : List UInt8) : stdSplitpath cpsz [slash] = filename cpsz := by
  cases cpsz <;> rfl

/-- A character of the directory that is not a last slash. -/
theorem split_char {e : UInt8} {es : List UInt8} (h : ¬ (e = slash ∧ es = [])) (c : UInt8)
    (cs : List UInt8) : stdSplitpath (c :: cs) (e :: es) = if e = c then stdSplitpath cs es else none := by
  rw [stdSplitpath, if_neg h]

/-- What does not begin with the character of the directory. -/
theorem split_other {e : UInt8} {es : List UInt8} (h : ¬ (e = slash ∧ es = []))
    (hw : w.head? ≠ some e) : stdSplitpath w (e :: es) = none := by
  cases w with
  | nil => rw [stdSplitpath, if_neg h]
  | cons c cs =>
      rw [split_char h, if_neg]
      rintro rfl
      exact hw rfl

/-- Slashes in front of what does not begin with one. -/
theorem filename_slashes (hw : w.head? ≠ some slash) (j : ℕ) :
    filename (List.replicate j slash ++ w) =
      if 1 ≤ j then some (List.replicate (j - 1) slash ++ w) else if w = [] then some [] else none := by
  cases j with
  | zero =>
      cases w with
      | nil => rfl
      | cons c cs =>
          have hc : c ≠ slash := fun h => hw (congrArg some h)
          simp [filename, hc]
  | succ j => simp [List.replicate_succ, filename]

/-- A directory of slashes. -/
theorem split_slashes (hw : w.head? ≠ some slash) (j k : ℕ) :
    stdSplitpath (List.replicate j slash ++ w) (List.replicate k slash) =
      if max 1 k ≤ j then some (List.replicate (j - max 1 k) slash ++ w)
      else if j + 1 = max 1 k ∧ w = [] then some [] else none := by
  induction k generalizing j with
  | zero =>
      rw [List.replicate_zero, split_nil, filename_slashes hw]
      split_ifs <;> simp_all
  | succ k ih =>
      cases k with
      | zero =>
          rw [List.replicate_one, split_slash, filename_slashes hw]
          split_ifs <;> simp_all
      | succ k =>
          have hnot : ¬ (slash = slash ∧ List.replicate (k + 1) slash = []) := fun h => nomatch h.2
          have hmax : max 1 (k + 1 + 1) = max 1 (k + 1) + 1 := by omega
          rw [List.replicate_succ]
          cases j with
          | zero =>
              -- the path has no slash where the directory has at least two
              rw [List.replicate_zero, List.nil_append, split_other hnot hw, if_neg (by omega),
                if_neg (by omega)]
          | succ j =>
              rw [List.replicate_succ, List.cons_append, split_char hnot, if_pos rfl, ih j, hmax]
              simp only [Nat.add_le_add_iff_right, Nat.add_sub_add_right, Nat.add_right_cancel_iff]

/-- A directory that does not end with a slash has none before the slashes behind it. -/
theorem char_not_last {c : UInt8} {cs : List UInt8} (h : (c :: cs).getLast? ≠ some slash) (k : ℕ) :
    ¬ (c = slash ∧ cs ++ List.replicate k slash = []) ∧ cs.getLast? ≠ some slash := by
  constructor
  · rintro ⟨rfl, hnil⟩
    rw [(List.append_eq_nil_iff.mp hnil).1] at h
    exact h rfl
  · cases cs with
    | nil => exact fun h => nomatch h
    | cons e es => rwa [List.getLast?_cons_cons] at h

/-- **The result of `std_splitpath`** on a directory and a path whose slashes are told apart. -/
theorem split_eq (hd : d.getLast? ≠ some slash) (hw : w.head? ≠ some slash) (j k : ℕ) :
    stdSplitpath (d ++ List.replicate j slash ++ w) (d ++ List.replicate k slash) =
      if max 1 k ≤ j then some (List.replicate (j - max 1 k) slash ++ w)
      else if j + 1 = max 1 k ∧ w = [] then some [] else none := by
  induction d with
  | nil => exact split_slashes hw j k
  | cons c cs ih =>
      obtain ⟨hnot, hcs⟩ := char_not_last hd k
      rw [List.cons_append, List.cons_append, List.cons_append, split_char hnot, if_pos rfl]
      exact ih hcs

/-- A path outside of the directory. -/
theorem split_outside {path : List UInt8} (h : ¬ d <+: path) (hd : d.getLast? ≠ some slash) (k : ℕ) :
    stdSplitpath path (d ++ List.replicate k slash) = none := by
  induction d generalizing path with
  | nil => exact absurd List.nil_prefix h
  | cons c cs ih =>
      obtain ⟨hnot, hcs⟩ := char_not_last hd k
      cases path with
      | nil => exact split_other hnot (fun h => nomatch h)
      | cons p ps =>
          rw [List.cons_append, split_char hnot]
          split_ifs with hc
          · exact ih (fun hfound => h (hc ▸ (List.prefix_cons_inj c).mpr hfound)) hcs
          · rfl

end Splitpath

section Containment

variable {path dir w : List UInt8} {j : ℕ}

theorem trimmed_append (dir : List UInt8) :
    dir = trimmed dir ++ List.replicate (slashesEnding dir) slash := by
  have hall : ∀ c ∈ dir.rtakeWhile (· = slash), c = slash := by
    intro c hc
    simpa using List.mem_rtakeWhile_imp hc
  rw [slashesEnding, ← List.eq_replicate_of_mem hall]
  exact List.rdropWhile_append_rtakeWhile.symm

theorem trimmed_getLast (dir : List UInt8) : (trimmed dir).getLast? ≠ some slash := by
  intro h
  have hne : trimmed dir ≠ [] := by
    intro hnil
    rw [hnil] at h
    exact nomatch h
  have hlast : ¬ decide ((trimmed dir).getLast hne = slash) = true := List.rdropWhile_last_not _ dir hne
  exact hlast (decide_eq_true ((List.getLast_eq_iff_getLast?_eq_some hne).mpr h))

theorem subpath_head (path dir : List UInt8) : (subpath path dir).head? ≠ some slash := by
  intro h
  have hnot := List.head?_dropWhile_not (fun c => decide (c = slash)) (path.drop (trimmed dir).length)
  rw [subpath] at h
  rw [h] at hnot
  exact absurd rfl (of_decide_eq_false hnot)

/-- A path in the directory, taken apart. -/
theorem behind_append (h : trimmed dir <+: path) :
    path = trimmed dir ++ List.replicate (slashesBehind path dir) slash ++ subpath path dir := by
  obtain ⟨rest, rfl⟩ := h
  have hall : ∀ c ∈ rest.takeWhile (· = slash), c = slash := by
    intro c hc
    simpa using List.mem_takeWhile_imp hc
  rw [slashesBehind, subpath, List.drop_left, ← List.eq_replicate_of_mem hall, List.append_assoc,
    List.takeWhile_append_dropWhile]

theorem under_iff (h : trimmed dir <+: path) :
    Under path dir ↔ 0 < slashesBehind path dir ∨ subpath path dir = [] := by
  obtain ⟨rest, rfl⟩ := h
  have hunder : Under (trimmed dir ++ rest) dir ↔ rest = [] ∨ rest.head? = some slash := by
    constructor
    · rintro ⟨rest', heq, h⟩
      rwa [List.append_cancel_left heq]
    · exact fun h => ⟨rest, rfl, h⟩
  rw [hunder, slashesBehind, subpath, List.drop_left]
  cases rest with
  | nil => simp
  | cons c cs =>
      by_cases hc : c = slash
      · simp [hc]
      · simp [hc]

theorem Under.prefix (h : Under path dir) : trimmed dir <+: path := by
  obtain ⟨rest, rfl, _⟩ := h
  exact List.prefix_append _ _

/-- **Containment.** `std_splitpath` tests whether a path is in a directory, and gives the part of the
path behind it without slashes at its beginning, exactly when the path is not in the directory or has the
slashes behind the directory that the directory has at its end. -/
theorem splitpath_contained_iff (path dir : List UInt8) :
    TestsContainment path dir (stdSplitpath path dir) ↔ (Under path dir → SlashesMatch path dir) := by
  by_cases h : trimmed dir <+: path
  · have hsplit := split_eq (trimmed_getLast dir) (subpath_head path dir) (slashesBehind path dir)
      (slashesEnding dir)
    rw [← behind_append h, ← trimmed_append dir] at hsplit
    have hhead := subpath_head path dir
    rw [hsplit, TestsContainment, under_iff h, SlashesMatch]
    generalize hj : slashesBehind path dir = j
    generalize hw : subpath path dir = w at hhead ⊢
    have hpos : 1 ≤ max 1 (slashesEnding dir) := le_max_left _ _
    generalize max 1 (slashesEnding dir) = n at hpos ⊢
    split_ifs with hmany hend
    · -- the slashes that the directory does not have are left in front of the result
      have hresult : List.replicate (j - n) slash ++ w = w ↔ j = n := by
        rw [List.append_left_eq_self, List.replicate_eq_nil_iff]
        omega
      constructor
      · rintro ⟨_, hsub⟩ _
        exact Or.inl (hresult.mp (hsub _ rfl).1)
      · intro hmatch
        have hjn : j = n := (hmatch (Or.inl (by omega))).elim id (fun h => by omega)
        refine ⟨iff_of_true rfl (Or.inl (by omega)), ?_⟩
        rintro _ ⟨⟩
        rw [hresult.mpr hjn]
        exact ⟨rfl, hhead⟩
    · refine iff_of_true ⟨iff_of_true rfl (Or.inr hend.2), ?_⟩ (fun _ => Or.inr hend)
      rintro _ ⟨⟩
      exact ⟨hend.2.symm, fun h => nomatch h⟩
    · constructor
      · rintro ⟨hsome, _⟩ hunder
        exact nomatch hsome.mpr hunder
      · intro hmatch
        refine ⟨iff_of_false (fun h => nomatch h) (fun hunder => ?_), fun _ hsub => nomatch hsub⟩
        exact (hmatch hunder).elim (fun hjn => hmany (hjn ▸ le_rfl)) hend
  · have hnot : ¬ Under path dir := fun hunder => h hunder.prefix
    have hsplit := split_outside h (trimmed_getLast dir) (slashesEnding dir)
    rw [← trimmed_append dir] at hsplit
    rw [hsplit]
    exact ⟨fun _ hunder => absurd hunder hnot, fun _ => ⟨by simp [hnot], fun _ hsub => nomatch hsub⟩⟩

/-- Two slashes behind the directory, and two at its end. -/
theorem slashes_kept :
    (stdSplitpath [slash, 100, slash, slash, 102] [slash, 100] = some [slash, 102] ∧
        ¬ TestsContainment [slash, 100, slash, slash, 102] [slash, 100]
          (stdSplitpath [slash, 100, slash, slash, 102] [slash, 100])) ∧
      stdSplitpath [slash, 100, slash, 102] [slash, 100, slash, slash] = none ∧
        ¬ TestsContainment [slash, 100, slash, 102] [slash, 100, slash, slash]
          (stdSplitpath [slash, 100, slash, 102] [slash, 100, slash, slash]) := by
  refine ⟨⟨rfl, fun h => (h.2 [slash, 102] rfl).2 rfl⟩, rfl, fun h => ?_⟩
  exact nomatch h.1.mpr ⟨[slash, 102], rfl, Or.inr rfl⟩

end Containment

end FastRpc.StdPath
