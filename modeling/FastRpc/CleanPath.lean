import FastRpc.CString
import FastRpc.PathComponents
import FastRpc.StdPath

/-! # Cleaning paths

`std_cleanpath` removes double slashes, `.` and `..` from a path in place.  It deletes by `memmove`, with
the length of what is behind the destination: so it reads as many bytes behind the terminator of the
string as it deletes characters, less one.

On the components of a path its first loop is a stack: `..` takes the last component off, also an empty
one.  The first component is not behind a slash and is looked at later, by its first characters alone;
one that begins with a dot takes the whole path with it.  `cleanpath_iff` says which paths come out
normalised, with no byte behind the string read. -/

namespace FastRpc.CleanPath

open CString PathComponents StdPath

/-- `'.'`. -/
def dot : UInt8 := 46

/-! ### The code -/

/-- The array that holds the string, and how many bytes from its beginning on were read and written. -/
structure Text where
  cells : List UInt8
  readTo : ℕ
  writtenTo : ℕ

namespace Text

/-- Bytes up to an offset are read. -/
def touch (t : Text) (n : ℕ) : Text := { t with readTo := max t.readTo n }

/-- The string at an offset. -/
def str (t : Text) (p : ℕ) : List UInt8 := (t.cells.drop p).takeWhile (· ≠ 0)

/-- A function on strings reads a string and its terminator. -/
def scan (t : Text) (p : ℕ) : Text := t.touch (p + (t.str p).length + 1)

/-- `*p = c`. -/
def store (t : Text) (p : ℕ) (c : UInt8) : Text :=
  { t with cells := t.cells.set p c, writtenTo := max t.writtenTo (p + 1) }

/-- The byte at an offset; `beyond` is the memory behind the array. -/
def load (beyond : ℕ → UInt8) (t : Text) (i : ℕ) : UInt8 := t.cells.getD i (beyond i)

/-- `memmove(dst, src, n)`. -/
def memmove (beyond : ℕ → UInt8) (t : Text) (dst src n : ℕ) : Text where
  cells := t.cells.take dst ++ (List.range n).map (fun k => t.load beyond (src + k)) ++ t.cells.drop (dst + n)
  readTo := max t.readTo (src + n)
  writtenTo := max t.writtenTo (dst + n)

end Text

/-- `memrchr`: the last place of a character. -/
def memrchr (c : UInt8) : List UInt8 → Option ℕ
  | [] => none
  | x :: xs =>
      match memrchr c xs with
      | some i => some (i + 1)
      | none => if x = c then some 0 else none

section Code

variable (beyond : ℕ → UInt8) (pcEnd pszStart : ℕ)

/-- The loop that deletes `/.` and `/element/..`, from `pc` on. -/
def deleteDots : ℕ → Text → ℕ → Text
  | 0, t, _ => t
  | n + 1, t, pc =>
      match strstr [slash, dot] (t.str pc) with
      | none => t.scan pc
      | some i =>
          let t := (t.scan pc).touch (pc + i + 3)
          let pc := pc + i
          let pc2 := t.load beyond (pc + 2)
          if pc2 = slash ∨ pc2 = 0 then
            deleteDots n (t.memmove beyond pc (pc + 2) (pcEnd - pc)) pc
          else
            let t := if pc2 = dot then t.touch (pc + 4) else t
            let pc3 := t.load beyond (pc + 3)
            if pc2 = dot ∧ (pc3 = slash ∨ pc3 = 0) then
              let pcDelFrom :=
                pszStart + (memrchr slash ((t.cells.drop pszStart).take (pc - pszStart))).getD 0
              deleteDots n (t.memmove beyond pcDelFrom (pc + 3) (pcEnd - pcDelFrom)) pcDelFrom
            else deleteDots n t (pc + 2)

/-- The loops that eliminate a leading `../` (`k` is 2) and a leading `./` (`k` is 1). -/
def eliminateLeading (pat : List UInt8) (k : ℕ) : ℕ → Text → Text
  | 0, t => t
  | n + 1, t =>
      if strstr pat (t.str pszStart) = some 0 then
        eliminateLeading pat k n ((t.scan pszStart).memmove beyond pszStart (pszStart + k) (pcEnd - pszStart))
      else t.scan pszStart

/-- The loop that whacks double slashes. -/
def whackDouble : ℕ → Text → Text
  | 0, t => t
  | n + 1, t =>
      match strstr [slash, slash] (t.str 0) with
      | none => t.scan 0
      | some pc => whackDouble n ((t.scan 0).memmove beyond pc (pc + 1) (pcEnd - pc))

end Code

/-- `std_cleanpath`.  No loop has more turns than the string has characters. -/
def stdCleanpath (beyond : ℕ → UInt8) (pszPath : List UInt8) : Text :=
  let t : Text := ⟨pszPath ++ [0], 0, 0⟩
  let pcEnd := (t.str 0).length
  let t := t.scan 0
  let pszStart := if t.load beyond 0 = slash then 1 else 0
  let t := deleteDots beyond pcEnd pszStart (pcEnd + 1) t pszStart
  let t := eliminateLeading beyond pcEnd pszStart [dot, dot, slash] 2 (pcEnd + 1) t
  let t := eliminateLeading beyond pcEnd pszStart [dot, slash] 1 (pcEnd + 1) t
  let t := t.scan pszStart
  let t := if [dot, dot] <+: t.str pszStart ∨ [dot] <+: t.str pszStart then t.store pszStart 0 else t
  whackDouble beyond pcEnd (pcEnd + 1) t

example : (stdCleanpath (fun _ => 1) "/a/./b/../c//d".toUTF8.toList).str 0 = "/a/c/d".toUTF8.toList := by
  decide +kernel

example : (stdCleanpath (fun _ => 1) "a//../b".toUTF8.toList).str 0 = "a/b".toUTF8.toList := by
  decide +kernel

/-! ### The string in its array -/

section Strings

variable {beyond : ℕ → UInt8} {size : ℕ} {t : Text} {s x y : List UInt8} {crossed : Prop} {i p : ℕ}

/-- The array of `size` characters and a terminator holds a string, nothing behind it was written to, and
something behind it was read only when `crossed` says so. -/
structure Holding (size : ℕ) (t : Text) (s : List UInt8) (crossed : Prop) : Prop where
  cells : ∃ junk, t.cells = s ++ 0 :: junk
  length : t.cells.length = size + 1
  nul : 0 ∉ s
  within : ¬ crossed → t.readTo = size + 1
  behind : crossed → size + 2 ≤ t.readTo
  written : t.writtenTo ≤ size + 1

theorem Holding.congr {crossed' : Prop} (h : Holding size t s crossed) (hover : crossed ↔ crossed') :
    Holding size t s crossed' := propext hover ▸ h

theorem Holding.le_size (h : Holding size t s crossed) : s.length ≤ size := by
  obtain ⟨junk, hcells⟩ := h.cells
  have hlength := h.length
  rw [hcells, List.length_append, List.length_cons] at hlength
  omega

theorem Holding.le_readTo (h : Holding size t s crossed) : size + 1 ≤ t.readTo := by
  by_cases hover : crossed
  · exact Nat.le_of_succ_le (h.behind hover)
  · exact (h.within hover).ge

theorem Holding.str (h : Holding size t s crossed) (hp : p ≤ s.length) : t.str p = s.drop p := by
  obtain ⟨junk, hcells⟩ := h.cells
  rw [Text.str, hcells, List.drop_append_of_le_length hp, List.takeWhile_append_of_pos, List.takeWhile_cons]
  · simp
  · intro c hc
    exact decide_eq_true (fun hzero => h.nul (hzero ▸ List.mem_of_mem_drop hc))

theorem Holding.load (h : Holding size t s crossed) (hi : i ≤ s.length) :
    t.load beyond i = s.getD i 0 := by
  obtain ⟨junk, hcells⟩ := h.cells
  rw [Text.load, hcells]
  rcases Nat.lt_or_eq_of_le hi with hlt | rfl
  · rw [List.getD_append _ _ _ _ hlt, List.getD_eq_getElem _ _ hlt, List.getD_eq_getElem _ _ hlt]
  · rw [List.getD_append_right _ _ _ _ le_rfl, Nat.sub_self, List.getD_eq_default _ _ le_rfl]
    rfl

/-- Reading inside of the string and its terminator. -/
theorem Holding.touch (h : Holding size t s crossed) (hp : p ≤ s.length + 1) : t.touch p = t := by
  have hle := h.le_readTo
  have hsize := h.le_size
  rw [Text.touch, Nat.max_eq_left (by omega)]

theorem Holding.scan (h : Holding size t s crossed) (hp : p ≤ s.length) : t.scan p = t := by
  rw [Text.scan, h.str hp, List.length_drop]
  exact h.touch (by omega)

/-- A window that begins in the string and ends behind it. -/
theorem Holding.window (beyond : ℕ → UInt8) (h : Holding size t s crossed) {src : ℕ} (n : ℕ)
    (hsrc : src ≤ s.length) (hn : s.length < src + n) :
    ∃ junk, (List.range n).map (fun k => t.load beyond (src + k)) = s.drop src ++ 0 :: junk := by
  obtain ⟨m, rfl⟩ : ∃ m, n = s.length - src + (m + 1) := ⟨n - (s.length - src) - 1, by omega⟩
  have hstring : (List.range (s.length - src)).map (fun k => t.load beyond (src + k)) = s.drop src := by
    refine List.ext_getElem (by simp) fun k hk hk' => ?_
    simp only [List.length_map, List.length_range] at hk
    rw [List.getElem_map, List.getElem_range, h.load (by omega), List.getElem_drop,
      List.getD_eq_getElem _ _ (by omega)]
  have hnul : t.load beyond (src + (s.length - src + 0)) = 0 := by
    have hend : src + (s.length - src + 0) = s.length := by omega
    rw [hend, h.load le_rfl, List.getD_eq_default _ _ le_rfl]
  refine ⟨(List.range m).map (fun k => t.load beyond (src + (s.length - src + (k + 1)))), ?_⟩
  rw [List.range_add, List.map_append, hstring, List.range_succ_eq_map, List.map_cons, List.map_cons, hnul,
    List.map_map, List.map_map]
  rfl

/-- **Deleting a part of the string.** It reads behind the array when it deletes two characters or more. -/
theorem Holding.memmove (beyond : ℕ → UInt8) (h : Holding size t s crossed) (dst src : ℕ) (hdst : dst < src)
    (hsrc : src ≤ s.length) :
    Holding size (t.memmove beyond dst src (size - dst)) (s.take dst ++ s.drop src)
      (crossed ∨ dst + 2 ≤ src) := by
  have hsize := h.le_size
  have hread := h.le_readTo
  obtain ⟨junk, hcells⟩ := h.cells
  obtain ⟨junk', hwindow⟩ := h.window beyond (size - dst) hsrc (by omega)
  have htake : t.cells.take dst = s.take dst := by
    rw [hcells, List.take_append_of_le_length (by omega)]
  refine ⟨⟨junk' ++ t.cells.drop (dst + (size - dst)), ?_⟩, ?_, ?_, fun hnot => ?_, fun hover => ?_,
    max_le h.written (by omega)⟩
  · change t.cells.take dst ++ _ ++ _ = _
    rw [htake, hwindow]
    simp
  · change (t.cells.take dst ++ _ ++ _).length = _
    rw [List.length_append, List.length_append, List.length_take, List.length_map, List.length_range,
      List.length_drop, h.length]
    omega
  · intro hzero
    rcases List.mem_append.mp hzero with hmem | hmem
    · exact h.nul (List.mem_of_mem_take hmem)
    · exact h.nul (List.mem_of_mem_drop hmem)
  · obtain ⟨hover, hone⟩ := not_or.mp hnot
    change max t.readTo _ = _
    rw [h.within hover]
    omega
  · change _ ≤ max t.readTo _
    rcases hover with hover | htwo
    · exact le_max_of_le_left (h.behind hover)
    · exact le_max_of_le_right (by omega)

/-- The string is cut. -/
theorem Holding.cut (h : Holding size t s crossed) (hp : p ≤ s.length) :
    Holding size (t.store p 0) (s.take p) crossed := by
  have hsize := h.le_size
  obtain ⟨junk, hcells⟩ := h.cells
  have hlt : p < t.cells.length := by rw [h.length]; omega
  refine ⟨⟨t.cells.drop (p + 1), ?_⟩, ?_, fun hzero => h.nul (List.mem_of_mem_take hzero), h.within,
    h.behind, max_le h.written (by omega)⟩
  · change t.cells.set p 0 = _
    rw [List.set_eq_take_append_cons_drop, if_pos hlt, hcells, List.take_append_of_le_length hp]
  · change (t.cells.set p 0).length = _
    rw [List.length_set, h.length]

end Strings

/-! ### The loop over the dots -/

section DeleteDots

variable {beyond : ℕ → UInt8} {size : ℕ} {t : Text} {s y : List UInt8} {crossed : Prop} {i p n start : ℕ}
  {front c : List UInt8} {ps cs : List (List UInt8)}

theorem slash_ne_dot : slash ≠ dot := by decide

theorem dots_ne_nil : [slash, dot] ≠ [] := List.cons_ne_nil _ _

theorem deleteDots_none (h : Holding size t s crossed) (hp : p ≤ s.length)
    (hstr : strstr [slash, dot] (s.drop p) = none) :
    deleteDots beyond size start (n + 1) t p = t := by
  rw [deleteDots, h.str hp, hstr]
  exact h.scan hp

/-- One turn of the loop, told by the string. -/
theorem deleteDots_some (h : Holding size t s crossed) (hp : p ≤ s.length) (hstart : start ≤ p)
    (hstr : strstr [slash, dot] (s.drop p) = some i) :
    deleteDots beyond size start (n + 1) t p =
      if s.getD (p + i + 2) 0 = slash ∨ s.getD (p + i + 2) 0 = 0 then
        deleteDots beyond size start n (t.memmove beyond (p + i) (p + i + 2) (size - (p + i))) (p + i)
      else if s.getD (p + i + 2) 0 = dot ∧ (s.getD (p + i + 3) 0 = slash ∨ s.getD (p + i + 3) 0 = 0) then
        let pcDelFrom := start + (memrchr slash ((s.drop start).take (p + i - start))).getD 0
        deleteDots beyond size start n (t.memmove beyond pcDelFrom (p + i + 3) (size - pcDelFrom)) pcDelFrom
      else deleteDots beyond size start n t (p + i + 2) := by
  have hle := strstr_le hstr
  rw [List.length_drop] at hle
  change i + 2 ≤ s.length - p at hle
  have htake : (t.cells.drop start).take (p + i - start) = (s.drop start).take (p + i - start) := by
    obtain ⟨junk, hcells⟩ := h.cells
    rw [hcells, List.drop_append_of_le_length (by omega), List.take_append_of_le_length]
    rw [List.length_drop]
    omega
  rw [deleteDots, h.str hp, hstr, h.scan hp]
  simp only
  rw [h.touch (by omega), h.load (by omega)]
  by_cases hend : s.getD (p + i + 2) 0 = slash ∨ s.getD (p + i + 2) 0 = 0
  · rw [if_pos hend, if_pos hend]
  · rw [if_neg hend, if_neg hend]
    by_cases hdot : s.getD (p + i + 2) 0 = dot
    · -- behind a dot there is another character or the terminator
      have hlt : p + i + 2 < s.length := by
        by_contra hge
        rw [List.getD_eq_default _ _ (by omega)] at hdot
        exact absurd hdot (by decide)
      rw [if_pos hdot, h.touch (by omega), h.load (by omega), htake]
    · rw [if_neg hdot, if_neg (fun hand => hdot hand.1), if_neg (fun hand => hdot hand.1)]

/-- The loop passes over what does not begin with `/.`. -/
theorem deleteDots_skip (beyond : ℕ → UInt8) {d : List UInt8} (h : Holding size t s crossed) (hstart : start ≤ p)
    (hp : p + d.length ≤ s.length) (hd : s.drop p = d ++ y)
    (hskip : ∀ k < d.length, ¬ [slash, dot] <+: (d ++ y).drop k) :
    deleteDots beyond size start (n + 1) t p = deleteDots beyond size start (n + 1) t (p + d.length) := by
  have hy : s.drop (p + d.length) = y := by rw [← List.drop_drop, hd, List.drop_left]
  have hstr : strstr [slash, dot] (s.drop p) = (strstr [slash, dot] (s.drop (p + d.length))).map
      (d.length + ·) := by
    rw [hd, hy, strstr_skip hskip]
  cases hfound : strstr [slash, dot] (s.drop (p + d.length)) with
  | none =>
      rw [hfound] at hstr
      rw [deleteDots_none h hp hfound, deleteDots_none h (Nat.le_of_add_right_le hp) hstr]
  | some i =>
      rw [hfound] at hstr
      rw [deleteDots_some h hp (Nat.le_add_right_of_le hstart) hfound,
        deleteDots_some h (Nat.le_of_add_right_le hp) hstart hstr]
      simp only [Nat.add_assoc]

/-- What has no slash, in front of another component. -/
theorem dots_not_in_front {d : List UInt8} (hd : slash ∉ d) (cs : List (List UInt8)) :
    ∀ k < d.length, ¬ [slash, dot] <+: (d ++ flat slash cs).drop k := by
  intro k hk hfront
  rw [List.drop_append_of_le_length (Nat.le_of_lt hk), List.drop_eq_getElem_cons hk, List.cons_append,
    List.cons_prefix_cons] at hfront
  exact hd (hfront.1 ▸ List.getElem_mem hk)

theorem flat_head (cs : List (List UInt8)) :
    (flat slash cs).getD 0 0 = slash ∨ (flat slash cs).getD 0 0 = 0 := by
  cases cs with
  | nil => exact Or.inr rfl
  | cons c cs => exact Or.inl rfl

/-- The characters of a component behind a slash. -/
theorem getD_behind (T r : List UInt8) (k : ℕ) : (T ++ r).getD (T.length + k) 0 = r.getD k 0 := by
  rw [List.getD_append_right _ _ _ _ (Nat.le_add_right _ _), Nat.add_sub_cancel_left]

theorem getD_name {d : List UInt8} (hd : slash ∉ d) (hnul : 0 ∉ d) {k : ℕ} (hk : k < d.length)
    (r : List UInt8) : ¬ ((d ++ r).getD k 0 = slash ∨ (d ++ r).getD k 0 = 0) := by
  rw [List.getD_append _ _ _ _ hk, List.getD_eq_getElem _ _ hk]
  exact fun h => h.elim (fun hs => hd (hs ▸ List.getElem_mem hk)) (fun hz => hnul (hz ▸ List.getElem_mem hk))

theorem memrchr_lt {c : UInt8} {l : List UInt8} {j : ℕ} (h : memrchr c l = some j) : j < l.length := by
  induction l generalizing j with
  | nil => exact nomatch h
  | cons x xs ih =>
      rw [memrchr] at h
      cases hxs : memrchr c xs with
      | some k =>
          rw [hxs] at h
          obtain rfl := Option.some.inj h
          exact Nat.succ_lt_succ (ih hxs)
      | none =>
          rw [hxs] at h
          simp only at h
          split_ifs at h
          obtain rfl := Option.some.inj h
          exact Nat.zero_lt_succ _

section Turns

variable {T : List UInt8} (hstart : start ≤ T.length)
include hstart

/-- A turn deletes a component `.`. -/
theorem deleteDots_dot (beyond : ℕ → UInt8) (h : Holding size t (T ++ flat slash ([dot] :: cs)) crossed) :
    ∃ t', deleteDots beyond size start (n + 1) t T.length = deleteDots beyond size start n t' T.length ∧
      Holding size t' (T ++ flat slash cs) True := by
  have hle : T.length + 2 ≤ (T ++ flat slash ([dot] :: cs)).length := by simp
  have hfound : strstr [slash, dot] ((T ++ flat slash ([dot] :: cs)).drop T.length) = some 0 := by
    rw [List.drop_left, strstr_eq_zero dots_ne_nil]
    exact ⟨flat slash cs, rfl⟩
  have hpc2 : (T ++ flat slash ([dot] :: cs)).getD (T.length + 0 + 2) 0 = (flat slash cs).getD 0 0 :=
    getD_behind _ _ 2
  have hmove := h.memmove beyond T.length (T.length + 2) (by omega) hle
  rw [List.take_left, ← List.drop_drop, List.drop_left] at hmove
  refine ⟨_, ?_, hmove.congr (by simp)⟩
  rw [deleteDots_some h (by omega) hstart hfound, hpc2, if_pos (flat_head cs)]
  rfl

/-- A turn deletes a component `..` and what is before it. -/
theorem deleteDots_dotdot (beyond : ℕ → UInt8)
    (h : Holding size t (T ++ flat slash ([dot, dot] :: cs)) crossed) {pcDelFrom : ℕ}
    (hfrom : pcDelFrom = start + (memrchr slash (T.drop start)).getD 0) :
    ∃ t', deleteDots beyond size start (n + 1) t T.length = deleteDots beyond size start n t' pcDelFrom ∧
      Holding size t' (T.take pcDelFrom ++ flat slash cs) True := by
  have hle : T.length + 3 ≤ (T ++ flat slash ([dot, dot] :: cs)).length := by simp
  have hfound : strstr [slash, dot] ((T ++ flat slash ([dot, dot] :: cs)).drop T.length) = some 0 := by
    rw [List.drop_left, strstr_eq_zero dots_ne_nil]
    exact ⟨dot :: flat slash cs, rfl⟩
  have hpc2 : (T ++ flat slash ([dot, dot] :: cs)).getD (T.length + 0 + 2) 0 = dot := getD_behind _ _ 2
  have hpc3 : (T ++ flat slash ([dot, dot] :: cs)).getD (T.length + 0 + 3) 0 = (flat slash cs).getD 0 0 :=
    getD_behind _ _ 3
  have htake : ((T ++ flat slash ([dot, dot] :: cs)).drop start).take (T.length + 0 - start) =
      T.drop start := by
    rw [List.drop_append_of_le_length hstart, Nat.add_zero, ← List.length_drop, List.take_left]
  have hfromle : pcDelFrom ≤ T.length := by
    rw [hfrom]
    cases hlast : memrchr slash (T.drop start) with
    | none => exact hstart
    | some j =>
        have hj := memrchr_lt hlast
        rw [List.length_drop] at hj
        simp only [Option.getD_some]
        omega
  have hmove := h.memmove beyond pcDelFrom (T.length + 3) (by omega) hle
  rw [List.take_append_of_le_length hfromle, ← List.drop_drop, List.drop_left] at hmove
  refine ⟨_, ?_, hmove.congr (iff_of_true (Or.inr (by omega)) trivial)⟩
  rw [deleteDots_some h (by omega) hstart hfound, hpc2, if_neg (by decide), hpc3,
    if_pos ⟨rfl, flat_head cs⟩, htake, ← hfrom]

/-- The loop stops at the dot in front of a name, and goes on behind it. -/
theorem deleteDots_dotted (beyond : ℕ → UInt8) {d : List UInt8}
    (h : Holding size t (T ++ flat slash ((dot :: d) :: cs)) crossed) (hd : slash ∉ d) (hpos : d ≠ [])
    (hdotdot : d ≠ [dot]) :
    deleteDots beyond size start (n + 2) t T.length =
      deleteDots beyond size start (n + 1) t (T ++ slash :: dot :: d).length := by
  have hlen : (T ++ flat slash ((dot :: d) :: cs)).length =
      T.length + ((dot :: d).length + 1) + (flat slash cs).length := by
    simp only [List.length_append, flat_cons, List.length_cons]
    omega
  have hfound : strstr [slash, dot] ((T ++ flat slash ((dot :: d) :: cs)).drop T.length) = some 0 := by
    rw [List.drop_left, strstr_eq_zero dots_ne_nil]
    exact ⟨d ++ flat slash cs, rfl⟩
  have hnul : 0 ∉ d := by
    intro hzero
    exact h.nul (List.mem_append_right T (List.mem_cons_of_mem _ (List.mem_append_left _
      (List.mem_cons_of_mem dot hzero))))
  have hpc : ∀ k, (T ++ flat slash ((dot :: d) :: cs)).getD (T.length + 0 + (k + 2)) 0 =
      (d ++ flat slash cs).getD k 0 := fun k => getD_behind _ _ (k + 2)
  have hlength : 0 < d.length := List.length_pos_iff.mpr hpos
  have hpc3 : ¬ ((d ++ flat slash cs).getD 0 0 = dot ∧
      ((d ++ flat slash cs).getD 1 0 = slash ∨ (d ++ flat slash cs).getD 1 0 = 0)) := by
    rintro ⟨hsecond, hend⟩
    rcases Nat.lt_or_ge 1 d.length with hlt | hge
    · exact getD_name hd hnul hlt _ hend
    · obtain ⟨a, rfl⟩ := List.length_eq_one_iff.mp (Nat.le_antisymm hge hlength)
      obtain rfl : a = dot := hsecond
      exact hdotdot rfl
  have hturn : deleteDots beyond size start (n + 2) t T.length =
      deleteDots beyond size start (n + 1) t (T.length + 2) := by
    rw [deleteDots_some h (by omega) hstart hfound, hpc 0, if_neg (getD_name hd hnul hlength _), hpc 1,
      if_neg hpc3]
  rw [hturn, deleteDots_skip beyond (d := d) (y := flat slash cs) h (by omega)
    (by rw [hlen, List.length_cons]; omega) (by rw [← List.drop_drop, List.drop_left]; rfl)
    (dots_not_in_front hd cs), List.length_append]
  congr 1
  simp only [List.length_cons]
  omega

/-- The loop passes over a component that is a name or empty. -/
theorem deleteDots_name (beyond : ℕ → UInt8) (h : Holding size t (T ++ flat slash (c :: cs)) crossed)
    (hc : slash ∉ c) (hdot : c ≠ [dot]) (hdotdot : c ≠ [dot, dot]) :
    ∃ m, n ≤ m ∧ deleteDots beyond size start (n + 2) t T.length =
      deleteDots beyond size start (m + 1) t (T ++ slash :: c).length := by
  by_cases hhead : c.head? = some dot
  · obtain ⟨d, rfl⟩ := List.head?_eq_some_iff.mp hhead
    have hd : slash ∉ d := fun hmem => hc (List.mem_cons_of_mem dot hmem)
    exact ⟨n, le_rfl, deleteDots_dotted hstart beyond h hd (fun hnil => hdot (congrArg _ hnil))
      (fun hone => hdotdot (congrArg _ hone))⟩
  · have hlen : (T ++ flat slash (c :: cs)).length = T.length + (c.length + 1) + (flat slash cs).length := by
      simp only [List.length_append, flat_cons, List.length_cons]
      omega
    have hskip := deleteDots_skip beyond (n := n + 1) (d := slash :: c) (y := flat slash cs) h hstart
      (by rw [hlen, List.length_cons]; omega) (by rw [List.drop_left, flat_cons]; rfl) ?_
    · refine ⟨n + 1, Nat.le_succ n, ?_⟩
      rw [List.length_append]
      exact hskip
    · intro k hk hfront
      cases k with
      | zero =>
          rw [List.drop_zero, List.cons_append, List.cons_prefix_cons] at hfront
          obtain ⟨r, hr⟩ := hfront.2
          cases c with
          | nil =>
              cases cs with
              | nil => exact nomatch hr
              | cons d ds => exact slash_ne_dot (List.cons.inj hr).1.symm
          | cons a c => exact hhead (congrArg some (List.cons.inj hr).1.symm)
      | succ k => exact dots_not_in_front hc cs k (Nat.lt_of_succ_lt_succ hk) hfront

end Turns

/-- Pieces with slashes between them. -/
def text : List (List UInt8) → List UInt8
  | [] => []
  | c :: cs => c ++ flat slash cs

/-- What the loop does with a component: `..` takes the last one off, which may be empty, and the first
one becomes empty. -/
def keep (ps : List (List UInt8)) (c : List UInt8) : List (List UInt8) :=
  if c = [dot] then ps
  else if c = [dot, dot] then (if ps.length ≤ 1 then [[]] else ps.dropLast)
  else ps ++ [c]

theorem text_concat (hps : ps ≠ []) (c : List UInt8) : text (ps ++ [c]) = text ps ++ slash :: c := by
  obtain ⟨d, ds, rfl⟩ := List.exists_cons_of_ne_nil hps
  rw [List.cons_append, text, text, flat_append, List.append_assoc, flat_cons, flat_nil, List.append_nil]

theorem keep_ne_nil (hps : ps ≠ []) (c : List UInt8) : keep ps c ≠ [] := by
  unfold keep
  split_ifs with hdot hdotdot hone
  · exact hps
  · exact List.cons_ne_nil _ _
  · intro hnil
    have hlength := congrArg List.length hnil
    rw [List.length_dropLast, List.length_nil] at hlength
    omega
  · exact List.append_ne_nil_of_right_ne_nil _ (List.cons_ne_nil _ _)

theorem free_keep (hps : Free slash ps) (hc : slash ∉ c) : Free slash (keep ps c) := by
  unfold keep
  split_ifs with hdot hdotdot hone
  · exact hps
  · intro d hd
    rw [List.mem_singleton.mp hd]
    exact List.not_mem_nil
  · exact fun d hd => hps d (List.mem_of_mem_dropLast hd)
  · intro d hd
    rcases List.mem_append.mp hd with hd | hd
    · exact hps d hd
    · rwa [List.mem_singleton.mp hd]

theorem memrchr_none {x : UInt8} {l : List UInt8} (h : x ∉ l) : memrchr x l = none := by
  induction l with
  | nil => rfl
  | cons a l ih =>
      obtain ⟨ha, hl⟩ := not_or.mp (mt List.mem_cons.mpr h)
      rw [memrchr, ih hl]
      exact if_neg (Ne.symm ha)

theorem memrchr_append {x : UInt8} {l : List UInt8} (h : x ∉ l) (r : List UInt8) :
    memrchr x (r ++ x :: l) = some r.length := by
  induction r with
  | nil => rw [List.nil_append, memrchr, memrchr_none h]; exact if_pos rfl
  | cons a r ih => rw [List.cons_append, memrchr, ih, List.length_cons]

/-- What is left before the place where `..` deletes from. -/
theorem take_last (hps : ps ≠ []) (hfree : Free slash ps) (front : List UInt8) :
    ∃ k, k = front.length + (memrchr slash ((front ++ text ps).drop front.length)).getD 0 ∧
      (front ++ text ps).take k = front ++ text (keep ps [dot, dot]) ∧
      k = (front ++ text (keep ps [dot, dot])).length := by
  rw [List.drop_left]
  unfold keep
  rw [if_neg (by decide), if_pos rfl]
  rcases List.eq_nil_or_concat' ps with rfl | ⟨qs, c, rfl⟩
  · exact absurd rfl hps
  · have hc : slash ∉ c := hfree c (List.mem_append_right _ List.mem_cons_self)
    by_cases hone : (qs ++ [c]).length ≤ 1
    · obtain rfl : qs = [] := by
        rw [List.length_append, List.length_singleton] at hone
        exact List.length_eq_zero_iff.mp (by omega)
      refine ⟨front.length, ?_, ?_, ?_⟩
      · rw [List.nil_append, text, flat_nil, List.append_nil, memrchr_none hc]
        rfl
      · rw [if_pos hone, List.take_left]
        simp [text]
      · rw [if_pos hone]
        simp [text]
    · have hqs : qs ≠ [] := by
        rintro rfl
        exact hone le_rfl
      refine ⟨(front ++ text qs).length, ?_, ?_, ?_⟩
      · rw [text_concat hqs, memrchr_append hc, Option.getD_some, List.length_append]
      · rw [if_neg hone, List.dropLast_concat, text_concat hqs, ← List.append_assoc, List.take_left]
      · rw [if_neg hone, List.dropLast_concat]

/-- **The loop over the dots** treats the components one after the other, and reads behind the string when
one of them is `.` or `..`. -/
theorem deleteDots_spec (beyond : ℕ → UInt8) (front : List UInt8) (hps : ps ≠ [])
    (hfree : Free slash ps) (hcs : Free slash cs) (hn : (flat slash cs).length < n)
    (h : Holding size t (front ++ text ps ++ flat slash cs) crossed) :
    Holding size (deleteDots beyond size front.length n t (front ++ text ps).length)
      (front ++ text (cs.foldl keep ps)) (crossed ∨ ∃ c ∈ cs, c = [dot] ∨ c = [dot, dot]) := by
  induction cs generalizing n t ps crossed with
  | nil =>
      obtain ⟨n, rfl⟩ := Nat.exists_eq_succ_of_ne_zero (Nat.ne_zero_of_lt hn)
      rw [flat_nil, List.append_nil] at h
      have hnone : strstr [slash, dot] ((front ++ text ps).drop (front ++ text ps).length) = none := by
        rw [List.drop_length]
        rfl
      rw [deleteDots_none h le_rfl hnone]
      exact h.congr (by simp)
  | cons c cs ih =>
      obtain ⟨hc, hothers⟩ := List.forall_mem_cons.mp hcs
      have hstart : front.length ≤ (front ++ text ps).length := by
        rw [List.length_append]
        exact Nat.le_add_right _ _
      rw [flat_cons, List.length_cons, List.length_append] at hn
      obtain ⟨n, rfl⟩ : ∃ m, n = m + 2 := ⟨n - 2, by omega⟩
      rw [List.foldl_cons]
      by_cases hdot : c = [dot]
      · subst hdot
        obtain ⟨t', hturn, ht'⟩ := deleteDots_dot hstart beyond (n := n + 1) h
        rw [hturn]
        have hrest := ih hps hfree hothers (n := n + 1) (by omega) ht'
        exact hrest.congr (by simp)
      · by_cases hdotdot : c = [dot, dot]
        · subst hdotdot
          obtain ⟨k, hk, htake, hlength⟩ := take_last hps hfree front
          obtain ⟨t', hturn, ht'⟩ := deleteDots_dotdot hstart beyond (n := n + 1) h hk
          rw [htake] at ht'
          rw [hturn, hlength]
          have hrest := ih (keep_ne_nil hps _) (free_keep hfree hc) hothers (n := n + 1) (by omega) ht'
          exact hrest.congr (by simp)
        · obtain ⟨m, hm, hturn⟩ := deleteDots_name hstart beyond (n := n) h hc hdot hdotdot
          have hkeep : keep ps c = ps ++ [c] := by
            unfold keep
            rw [if_neg hdot, if_neg hdotdot]
          have htext : front ++ text ps ++ slash :: c = front ++ text (keep ps c) := by
            rw [hkeep, text_concat hps, List.append_assoc]
          rw [hturn, htext]
          have h' : Holding size t (front ++ text (keep ps c) ++ flat slash cs) crossed := by
            rw [← htext, List.append_assoc]
            exact h
          have hrest := ih (keep_ne_nil hps c) (free_keep hfree hc) hothers (n := m + 1) (by omega) h'
          exact hrest.congr (by simp [hdot, hdotdot])

end DeleteDots

/-! ### The other loops -/

section OtherLoops

variable {beyond : ℕ → UInt8} {size : ℕ} {t : Text} {s : List UInt8} {crossed : Prop} {n : ℕ}
  {front c x : List UInt8} {cs : List (List UInt8)}

theorem str_front (h : Holding size t (front ++ c ++ flat slash cs) crossed) :
    t.str front.length = c ++ flat slash cs := by
  rw [h.str (by rw [List.append_assoc, List.length_append]; exact Nat.le_add_right _ _), List.append_assoc,
    List.drop_left]

theorem scan_front (h : Holding size t (front ++ c ++ flat slash cs) crossed) : t.scan front.length = t :=
  h.scan (by rw [List.append_assoc, List.length_append]; exact Nat.le_add_right _ _)

theorem eliminateLeading_stop (hxfree : slash ∉ x) (hc : slash ∉ c) (hne : ¬ (c = x ∧ cs ≠ []))
    (h : Holding size t (front ++ c ++ flat slash cs) crossed) {k : ℕ} :
    eliminateLeading beyond size front.length (x ++ [slash]) k (n + 1) t = t := by
  have hnot : ¬ strstr (x ++ [slash]) (c ++ flat slash cs) = some 0 := by
    rw [strstr_eq_zero (List.append_ne_nil_of_right_ne_nil _ (List.cons_ne_nil _ _)),
      prefix_flat_iff hxfree hc]
    exact hne
  rw [eliminateLeading, str_front h, if_neg hnot, scan_front h]

/-- **A leading component** `x` is eliminated when another one is behind it. -/
theorem eliminateLeading_spec (beyond : ℕ → UInt8) (hx : x ≠ []) (hxfree : slash ∉ x) (hc : slash ∉ c)
    (hn : size < n) (h : Holding size t (front ++ c ++ flat slash cs) crossed) :
    Holding size (eliminateLeading beyond size front.length (x ++ [slash]) x.length n t)
      (front ++ (if c = x ∧ cs ≠ [] then [] else c) ++ flat slash cs)
      (crossed ∨ 2 ≤ x.length ∧ c = x ∧ cs ≠ []) := by
  by_cases hlead : c = x ∧ cs ≠ []
  · obtain ⟨rfl, hcs⟩ := hlead
    have hpos := List.length_pos_iff.mpr hx
    have hle := h.le_size
    simp only [List.length_append] at hle
    obtain ⟨n, rfl⟩ : ∃ m, n = m + 2 := ⟨n - 2, by omega⟩
    have hfound : strstr (c ++ [slash]) (c ++ flat slash cs) = some 0 := by
      rw [strstr_eq_zero (List.append_ne_nil_of_right_ne_nil _ (List.cons_ne_nil _ _)),
        prefix_flat_iff hxfree hc]
      exact ⟨rfl, hcs⟩
    have hmove := h.memmove beyond front.length (front.length + c.length) (by omega)
      (by simp only [List.length_append]; omega)
    rw [List.append_assoc, List.take_left, ← List.drop_drop, List.drop_left, List.drop_left] at hmove
    have hmove' : Holding size (t.memmove beyond front.length (front.length + c.length) (size - front.length))
        (front ++ [] ++ flat slash cs) (crossed ∨ 2 ≤ c.length) := by
      rw [List.append_nil]
      exact hmove.congr (by rw [Nat.add_le_add_iff_left])
    rw [if_pos ⟨rfl, hcs⟩, eliminateLeading, str_front h, if_pos hfound, scan_front h,
      eliminateLeading_stop hxfree List.not_mem_nil (fun hand => hx hand.1.symm) hmove']
    exact hmove'.congr (by simp [hcs])
  · obtain ⟨n, rfl⟩ := Nat.exists_eq_succ_of_ne_zero (Nat.ne_zero_of_lt hn)
    rw [if_neg hlead, eliminateLeading_stop hxfree hc hlead h]
    exact h.congr (by simp [hlead])

/-- The loop over double slashes leaves none, and the same components. -/
theorem whackDouble_spec (beyond : ℕ → UInt8) (hn : s.length < n) (h : Holding size t s crossed) :
    ∃ r, Holding size (whackDouble beyond size n t) r crossed ∧ components slash r = components slash s ∧
      ¬ [slash, slash] <:+: r := by
  induction n generalizing t s with
  | zero => exact absurd hn (Nat.not_lt_zero _)
  | succ n ih =>
      have hstr : t.str 0 = s := h.str (Nat.zero_le _)
      have hscan : t.scan 0 = t := h.scan (Nat.zero_le _)
      cases hfound : strstr [slash, slash] s with
      | none =>
          refine ⟨s, ?_, rfl, (strstr_eq_none (List.cons_ne_nil _ _)).mp hfound⟩
          rw [whackDouble, hstr, hfound]
          change Holding size (t.scan 0) s crossed
          rwa [hscan]
      | some pc =>
          have hle : pc + 2 ≤ s.length := strstr_le hfound
          have hmove := h.memmove beyond pc (pc + 1) (by omega) (by omega)
          have hsplit := strstr_append hfound
          obtain ⟨r, hr, hsame, hsingle⟩ := ih (by
            rw [List.length_append, List.length_take, List.length_drop]
            omega) (hmove.congr (by simp))
          refine ⟨r, ?_, hsame.trans ?_, hsingle⟩
          · rw [whackDouble, hstr, hfound]
            change Holding size (whackDouble beyond size n ((t.scan 0).memmove beyond pc (pc + 1) (size - pc)))
              r crossed
            rwa [hscan]
          · -- the first one of the two slashes goes
            have hdrop : s.drop (pc + 1) = slash :: s.drop (pc + 2) := by
              have hsame := congrArg (List.drop (pc + 1)) hsplit
              rw [List.append_assoc, List.drop_append, List.length_take, Nat.min_eq_left (by omega),
                List.drop_eq_nil_of_le (by rw [List.length_take]; omega), Nat.add_sub_cancel_left] at hsame
              exact hsame.symm
            have hwhole : s = s.take pc ++ slash :: slash :: s.drop (pc + 2) :=
              hsplit.symm.trans (List.append_assoc _ _ _)
            rw [hdrop]
            conv_rhs => rw [hwhole]
            exact (components_double _ _).symm

end OtherLoops

/-! ### Normalisation -/

/-- A component is read: `.` and empty ones are dropped, and `..` removes the previous one. -/
def readComponent (names : List (List UInt8)) (c : List UInt8) : List (List UInt8) :=
  if c = [] ∨ c = [dot] then names
  else if c = [dot, dot] then names.dropLast
  else names ++ [c]

/-- The components of a path, read from left to right. -/
def normalised (s : List UInt8) : List (List UInt8) := (s.splitOn slash).foldl readComponent []

/-- `t` is what is left of the string: it has the normalised components, no double slash and no more
characters, and nothing behind the terminator was read or written. -/
structure Cleaned (pszPath : List UInt8) (t : Text) : Prop where
  components : components slash (t.str 0) = normalised pszPath
  length : (t.str 0).length ≤ pszPath.length
  single : ¬ [slash, slash] <:+: t.str 0
  read : t.readTo ≤ pszPath.length + 1
  written : t.writtenTo ≤ pszPath.length + 1

/-- Behind one leading slash, no component but the first is `.` or `..`; the first one is `..` only when
it is alone, and begins with a dot only when it is `.` or `..`. -/
def Plain (pszPath : List UInt8) : Prop :=
  ∀ c cs, (dropSlash pszPath).splitOn slash = c :: cs →
    (∀ d ∈ cs, d ≠ [dot] ∧ d ≠ [dot, dot]) ∧ (c = [dot, dot] → cs = []) ∧
      (c.head? = some dot → c = [dot] ∨ c = [dot, dot])

/-- What the function leaves of the first component, when there are others or not. -/
def leading (ps : List (List UInt8)) : List (List UInt8) :=
  match ps with
  | [] => []
  | c :: cs =>
      if (c = [dot] ∨ c = [dot, dot]) ∧ cs ≠ [] then [] :: cs
      else if c.head? = some dot then [[]] else c :: cs

section Main

variable {beyond : ℕ → UInt8} {pszPath front c : List UInt8} {cs ps : List (List UInt8)} {size n : ℕ}
  {t : Text} {crossed : Prop}

theorem leading_cons (c : List UInt8) (cs : List (List UInt8)) : leading (c :: cs) =
    if (c = [dot] ∨ c = [dot, dot]) ∧ cs ≠ [] then [] :: cs
    else if c.head? = some dot then [[]] else c :: cs := rfl

theorem leading_ne_nil (c : List UInt8) (cs : List (List UInt8)) : leading (c :: cs) ≠ [] := by
  rw [leading_cons]
  split_ifs <;> exact List.cons_ne_nil _ _

theorem free_leading (h : Free slash (c :: cs)) : Free slash (leading (c :: cs)) := by
  obtain ⟨hc, hcs⟩ := List.forall_mem_cons.mp h
  rw [leading_cons]
  split_ifs with hdots hhead
  · exact List.forall_mem_cons.mpr ⟨List.not_mem_nil, hcs⟩
  · exact List.forall_mem_cons.mpr ⟨List.not_mem_nil, fun _ hd => absurd hd List.not_mem_nil⟩
  · exact h

/-- The two comparisons ask for a dot. -/
theorem begins_with_dot (c : List UInt8) (cs : List (List UInt8)) :
    ([dot, dot] <+: c ++ flat slash cs ∨ [dot] <+: c ++ flat slash cs) ↔ c.head? = some dot := by
  have hone : ([dot, dot] <+: c ++ flat slash cs ∨ [dot] <+: c ++ flat slash cs) ↔
      [dot] <+: c ++ flat slash cs :=
    ⟨fun h => h.elim (fun htwo => (List.prefix_append [dot] [dot]).trans htwo) id, Or.inr⟩
  rw [hone]
  cases c with
  | nil =>
      refine iff_of_false (fun h => ?_) (fun h => nomatch h)
      cases cs with
      | nil => exact List.cons_ne_nil _ _ (List.prefix_nil.mp h)
      | cons d ds => exact slash_ne_dot (List.cons_prefix_cons.mp h).1.symm
  | cons a c => simp [eq_comm]

/-- The loops and the test that look at the first component. -/
theorem leading_spec (beyond : ℕ → UInt8) (hc : slash ∉ c) (hn : size < n)
    (h : Holding size t (front ++ text (c :: cs)) crossed) :
    ∃ u, u = eliminateLeading beyond size front.length [dot, slash] 1 n
        (eliminateLeading beyond size front.length [dot, dot, slash] 2 n t) ∧
      Holding size (if [dot, dot] <+: (u.scan front.length).str front.length ∨
          [dot] <+: (u.scan front.length).str front.length then (u.scan front.length).store front.length 0
        else u.scan front.length)
        (front ++ text (leading (c :: cs))) (crossed ∨ c = [dot, dot] ∧ cs ≠ []) := by
  rw [text, ← List.append_assoc] at h
  have hfirst := eliminateLeading_spec beyond (x := [dot, dot]) (List.cons_ne_nil _ _) (by decide) hc hn h
  have hc' : slash ∉ if c = [dot, dot] ∧ cs ≠ [] then [] else c := by
    split_ifs
    · exact List.not_mem_nil
    · exact hc
  have hsecond := eliminateLeading_spec beyond (x := [dot]) (List.cons_ne_nil _ _) (by decide) hc' hn hfirst
  refine ⟨_, rfl, ?_⟩
  have hpiece : (if (if c = [dot, dot] ∧ cs ≠ [] then [] else c) = [dot] ∧ cs ≠ [] then []
      else if c = [dot, dot] ∧ cs ≠ [] then [] else c) =
      if (c = [dot] ∨ c = [dot, dot]) ∧ cs ≠ [] then [] else c := by
    by_cases hdotdot : c = [dot, dot]
    · by_cases hcs : cs = [] <;> simp [hdotdot, hcs]
    · simp [hdotdot]
  rw [hpiece] at hsecond
  have hover : ((crossed ∨ 2 ≤ [dot, dot].length ∧ c = [dot, dot] ∧ cs ≠ []) ∨
      2 ≤ [dot].length ∧ (if c = [dot, dot] ∧ cs ≠ [] then [] else c) = [dot] ∧ cs ≠ []) ↔
      crossed ∨ c = [dot, dot] ∧ cs ≠ [] := by
    simp
  have hlast : Holding size (eliminateLeading beyond size front.length [dot, slash] 1 n
      (eliminateLeading beyond size front.length [dot, dot, slash] 2 n t)) _ _ := hsecond.congr hover
  rw [scan_front hlast, str_front hlast, leading_cons]
  simp only [begins_with_dot]
  by_cases hdots : (c = [dot] ∨ c = [dot, dot]) ∧ cs ≠ []
  · rw [if_pos hdots] at hlast ⊢
    rw [if_pos hdots, if_neg (fun h => nomatch h), text, ← List.append_assoc]
    exact hlast
  · rw [if_neg hdots] at hlast ⊢
    rw [if_neg hdots]
    by_cases hhead : c.head? = some dot
    · rw [if_pos hhead, if_pos hhead]
      have hcut := hlast.cut (p := front.length)
        (by rw [List.append_assoc, List.length_append]; exact Nat.le_add_right _ _)
      rw [List.append_assoc, List.take_left] at hcut
      rw [text, flat_nil, List.append_nil, List.append_nil]
      exact hcut
    · rw [if_neg hhead, if_neg hhead, text, ← List.append_assoc]
      exact hlast

/-- The array at the beginning, once its length is known. -/
theorem holding_start (hnul : 0 ∉ pszPath) :
    Holding pszPath.length (Text.scan ⟨pszPath ++ [0], 0, 0⟩ 0) pszPath False ∧
      ((⟨pszPath ++ [0], 0, 0⟩ : Text).str 0).length = pszPath.length := by
  have hstr : (⟨pszPath ++ [0], 0, 0⟩ : Text).str 0 = pszPath := by
    change List.takeWhile _ (pszPath ++ [0]) = pszPath
    rw [List.takeWhile_append_of_pos]
    · simp
    · intro c hc
      exact decide_eq_true (fun hzero => hnul (hzero ▸ hc))
  refine ⟨⟨⟨[], rfl⟩, by simp [Text.scan, Text.touch], hnul, fun _ => ?_, False.elim, Nat.zero_le _⟩, ?_⟩
  · change max 0 _ = _
    rw [hstr]
    omega
  · rw [hstr]

theorem components_text (hps : ps ≠ []) (hfree : Free slash ps) (hfront : front = [slash] ∨ front = []) :
    components slash (front ++ text ps) = ps.filter (· ≠ []) := by
  obtain ⟨c, cs, rfl⟩ := List.exists_cons_of_ne_nil hps
  obtain ⟨hc, hcs⟩ := List.forall_mem_cons.mp hfree
  rw [← components_flat hc hcs, text]
  rcases hfront with rfl | rfl
  · exact components_cons _
  · rfl

theorem foldl_keep (hps : ps ≠ []) (hfree : Free slash ps) (hcs : Free slash cs) :
    cs.foldl keep ps ≠ [] ∧ Free slash (cs.foldl keep ps) := by
  induction cs generalizing ps with
  | nil => exact ⟨hps, hfree⟩
  | cons c cs ih =>
      obtain ⟨hc, hcs⟩ := List.forall_mem_cons.mp hcs
      exact ih (keep_ne_nil hps c) (free_keep hfree hc) hcs

/-- **The result of `std_cleanpath`**, for every string. -/
theorem cleanpath_spec (beyond : ℕ → UInt8) (hnul : 0 ∉ front ++ c ++ flat slash cs) (hc : slash ∉ c)
    (hcs : Free slash cs)
    (hfront : front = [slash] ∨ front = [] ∧ (c ++ flat slash cs).head? ≠ some slash) :
    ∃ r, Holding (front ++ c ++ flat slash cs).length
        (stdCleanpath beyond (front ++ c ++ flat slash cs)) r
        ((∃ d ∈ cs, d = [dot] ∨ d = [dot, dot]) ∨
          ∃ ds, cs.foldl keep [c] = [dot, dot] :: ds ∧ ds ≠ []) ∧
      components slash r = (leading (cs.foldl keep [c])).filter (· ≠ []) ∧ ¬ [slash, slash] <:+: r := by
  obtain ⟨hstart, hend⟩ := holding_start hnul
  have hpcStart : (if (Text.scan ⟨front ++ c ++ flat slash cs ++ [0], 0, 0⟩ 0).load beyond 0 = slash then 1
      else 0) = front.length := by
    rw [hstart.load (Nat.zero_le _), List.append_assoc]
    rcases hfront with rfl | ⟨rfl, hhead⟩
    · rfl
    · rw [List.nil_append, if_neg]
      · rfl
      · intro hslash
        cases hs : c ++ flat slash cs with
        | nil => rw [hs] at hslash; exact absurd hslash (by decide)
        | cons a r => rw [hs] at hslash hhead; exact hhead (congrArg some hslash)
  have hfree : Free slash [c] := fun d hd => List.mem_singleton.mp hd ▸ hc
  have hskip := deleteDots_skip beyond (n := (front ++ c ++ flat slash cs).length) (d := c)
    (y := flat slash cs) (p := front.length) hstart le_rfl (by simp only [List.length_append]; omega)
    (by rw [List.append_assoc, List.drop_left]) (dots_not_in_front hc cs)
  have htext : text [c] = c := by rw [text, flat_nil, List.append_nil]
  have hdots := deleteDots_spec beyond front
    (n := (front ++ c ++ flat slash cs).length + 1) (List.cons_ne_nil _ _) hfree hcs
    (by simp only [List.length_append]; omega) (htext.symm ▸ hstart)
  have hlength : (front ++ c).length = front.length + c.length := List.length_append
  rw [htext, hlength, ← hskip] at hdots
  obtain ⟨hne, hkept⟩ := foldl_keep (List.cons_ne_nil c []) hfree hcs
  obtain ⟨q, qs, hq⟩ := List.exists_cons_of_ne_nil hne
  rw [hq] at hdots hkept ⊢
  obtain ⟨u, hu, hleading⟩ := leading_spec beyond (hkept q List.mem_cons_self)
    (Nat.lt_succ_self _) hdots
  obtain ⟨r, hr, hsame, hsingle⟩ := whackDouble_spec beyond
    (Nat.lt_succ_of_le hleading.le_size) hleading
  refine ⟨r, ?_, hsame.trans ?_, hsingle⟩
  · unfold stdCleanpath
    simp only [hend, hpcStart, ← hu]
    refine hr.congr ?_
    rw [false_or]
    refine or_congr_right ⟨?_, ?_⟩
    · rintro ⟨rfl, hqs⟩
      exact ⟨qs, rfl, hqs⟩
    · rintro ⟨ds, heq, hds⟩
      obtain ⟨rfl, rfl⟩ := List.cons.inj heq
      exact ⟨rfl, hds⟩
  · exact components_text (leading_ne_nil q qs) (free_leading hkept) (hfront.imp_right And.left)

/-- Components of which none is `.` or `..` are all kept. -/
theorem foldl_keep_names (hcs : ∀ d ∈ cs, d ≠ [dot] ∧ d ≠ [dot, dot]) : cs.foldl keep ps = ps ++ cs := by
  induction cs generalizing ps with
  | nil => rw [List.append_nil]; rfl
  | cons c cs ih =>
      obtain ⟨⟨hdot, hdotdot⟩, hcs⟩ := List.forall_mem_cons.mp hcs
      have hkeep : keep ps c = ps ++ [c] := by
        unfold keep
        rw [if_neg hdot, if_neg hdotdot]
      rw [List.foldl_cons, hkeep, ih hcs, List.append_assoc]
      rfl

theorem foldl_read_names (hcs : ∀ d ∈ cs, d ≠ [dot] ∧ d ≠ [dot, dot]) :
    cs.foldl readComponent ps = ps ++ cs.filter (· ≠ []) := by
  induction cs generalizing ps with
  | nil => rw [List.filter_nil, List.append_nil]; rfl
  | cons c cs ih =>
      obtain ⟨⟨hdot, hdotdot⟩, hcs⟩ := List.forall_mem_cons.mp hcs
      rw [List.foldl_cons, ih hcs]
      unfold readComponent
      by_cases hc : c = []
      · simp [hc]
      · simp [hc, hdot, hdotdot]

/-- A path is one leading slash, or none, and its components. -/
theorem path_cases (pszPath : List UInt8) : ∃ front c cs,
    pszPath = front ++ c ++ flat slash cs ∧ slash ∉ c ∧ Free slash cs ∧
      (front = [slash] ∨ front = [] ∧ (c ++ flat slash cs).head? ≠ some slash) ∧
      (dropSlash pszPath).splitOn slash = c :: cs ∧
      normalised pszPath = (c :: cs).foldl readComponent [] := by
  obtain ⟨c, cs, hp, hc, hcs⟩ := eq_flat slash (dropSlash pszPath)
  have hsplit : (dropSlash pszPath).splitOn slash = c :: cs := by rw [hp, splitOn_flat hc hcs]
  by_cases hhead : pszPath.head? = some slash
  · obtain ⟨p, rfl⟩ := List.head?_eq_some_iff.mp hhead
    rw [dropSlash, if_pos hhead, List.tail_cons] at hp hsplit
    refine ⟨[slash], c, cs, by rw [hp]; rfl, hc, hcs, Or.inl rfl, ?_, ?_⟩
    · rw [dropSlash, if_pos hhead, List.tail_cons, hsplit]
    · have hwhole : (slash :: p).splitOn slash = [] :: c :: cs := by
        have happend := List.splitOn_append_cons_self_of_not_mem (a := slash) List.not_mem_nil p
        rw [List.nil_append, hsplit] at happend
        exact happend
      rw [normalised, hwhole]
      rfl
  · rw [dropSlash, if_neg hhead] at hp hsplit
    refine ⟨[], c, cs, hp, hc, hcs, Or.inr ⟨rfl, hp ▸ hhead⟩, ?_, ?_⟩
    · rw [dropSlash, if_neg hhead, hsplit]
    · rw [normalised, hsplit]

/-- The components that are left are the normalised ones. -/
theorem leading_names_iff (hcs : ∀ d ∈ cs, d ≠ [dot] ∧ d ≠ [dot, dot]) (hup : ¬ (c = [dot, dot] ∧ cs ≠ [])) :
    (leading (c :: cs)).filter (· ≠ []) = (c :: cs).foldl readComponent [] ↔
      (c.head? = some dot → c = [dot] ∨ c = [dot, dot]) := by
  rw [List.foldl_cons, foldl_read_names hcs, leading_cons]
  unfold readComponent
  by_cases hdot : c = [dot]
  · by_cases hnil : cs = [] <;> simp [hdot, hnil]
  · by_cases hdotdot : c = [dot, dot]
    · have hnil : cs = [] := by
        by_contra hne
        exact hup ⟨hdotdot, hne⟩
      simp [hdotdot, hnil]
    · by_cases hhead : c.head? = some dot
      · have hne : c ≠ [] := by
          rintro rfl
          exact nomatch hhead
        simp [hdot, hdotdot, hhead, hne]
      · by_cases hnil : c = [] <;> simp [hdot, hdotdot, hhead, hnil]

/-- **Cleaning is normalisation.** `std_cleanpath` leaves the normalised components of a path, and reads
no byte behind the string, exactly when there is nothing to delete behind a slash, no leading `../`, and no
name that begins with a dot at the front. -/
theorem cleanpath_iff (beyond : ℕ → UInt8) (pszPath : List UInt8) (hnul : 0 ∉ pszPath) :
    Cleaned pszPath (stdCleanpath beyond pszPath) ↔ Plain pszPath := by
  obtain ⟨front, c, cs, hpath, hc, hcs, hfront, hsplit, hnormal⟩ := path_cases pszPath
  have hplain : Plain pszPath ↔ (∀ d ∈ cs, d ≠ [dot] ∧ d ≠ [dot, dot]) ∧ (c = [dot, dot] → cs = []) ∧
      (c.head? = some dot → c = [dot] ∨ c = [dot, dot]) := by
    constructor
    · exact fun h => h c cs hsplit
    · intro h c' cs' hsplit'
      obtain ⟨rfl, rfl⟩ := List.cons.inj (hsplit.symm.trans hsplit')
      exact h
  obtain ⟨r, hr, hsame, hsingle⟩ := cleanpath_spec beyond (hpath ▸ hnul) hc hcs hfront
  rw [← hpath] at hr
  have hstr : (stdCleanpath beyond pszPath).str 0 = r := hr.str (Nat.zero_le _)
  rw [hplain]
  constructor
  · intro h
    have hwithin := not_or.mp (fun hover => absurd h.read (Nat.not_le.mpr (hr.behind hover)))
    have hnames : ∀ d ∈ cs, d ≠ [dot] ∧ d ≠ [dot, dot] := fun d hd =>
      not_or.mp (fun hdots => hwithin.1 ⟨d, hd, hdots⟩)
    rw [foldl_keep_names hnames] at hsame hwithin
    have hup : ¬ (c = [dot, dot] ∧ cs ≠ []) := by
      rintro ⟨rfl, hne⟩
      exact hwithin.2 ⟨cs, rfl, hne⟩
    refine ⟨hnames, fun hdotdot => not_not.mp (fun hne => hup ⟨hdotdot, hne⟩), ?_⟩
    rw [← leading_names_iff hnames hup, ← hnormal, ← h.components, hstr]
    exact hsame.symm
  · rintro ⟨hnames, hup, hhead⟩
    have hup' : ¬ (c = [dot, dot] ∧ cs ≠ []) := fun hand => hand.2 (hup hand.1)
    rw [foldl_keep_names hnames] at hsame hr
    have hwithin := hr.within (by
      rintro (⟨d, hd, hdot | hdotdot⟩ | ⟨ds, heq, hne⟩)
      · exact (hnames d hd).1 hdot
      · exact (hnames d hd).2 hdotdot
      · obtain ⟨rfl, rfl⟩ := List.cons.inj heq
        exact hne (hup rfl))
    refine ⟨?_, hstr ▸ hr.le_size, hstr ▸ hsingle, hwithin.le, hr.written⟩
    rw [hstr, hsame, hnormal]
    exact (leading_names_iff hnames hup').mpr hhead

/-- The path `/a//b`. -/
theorem cleanpath_iff_double : Cleaned [slash, 97, slash, slash, 98]
    (stdCleanpath (fun _ => 1) [slash, 97, slash, slash, 98]) := by
  refine (cleanpath_iff (fun _ => 1) [slash, 97, slash, slash, 98] (by decide)).mpr ?_
  intro c cs hsplit
  have hpieces : (dropSlash [slash, 97, slash, slash, 98]).splitOn slash = [[97], [], [98]] := by
    decide +kernel
  obtain ⟨rfl, rfl⟩ := List.cons.inj (hpieces.symm.trans hsplit)
  exact ⟨by decide, by decide, by decide⟩

/-- In `a//../b` the empty component is removed in place of `a`, `.x/y` is lost, and the byte behind the
terminator of `x/.` is read. -/
theorem not_normalised :
    (components slash ((stdCleanpath (fun _ => 1) [97, slash, slash, dot, dot, slash, 98]).str 0) = [[97], [98]] ∧
        normalised [97, slash, slash, dot, dot, slash, 98] = [[98]]) ∧
      ((stdCleanpath (fun _ => 1) [dot, 120, slash, 121]).str 0 = [] ∧
        normalised [dot, 120, slash, 121] = [[dot, 120], [121]]) ∧
      (stdCleanpath (fun _ => 1) [120, slash, dot]).readTo = 5 ∧
      ¬ Cleaned [97, slash, slash, dot, dot, slash, 98]
        (stdCleanpath (fun _ => 1) [97, slash, slash, dot, dot, slash, 98]) := by
  refine ⟨⟨by decide +kernel, by decide +kernel⟩, ⟨by decide +kernel, by decide +kernel⟩, by decide +kernel,
    fun h => ?_⟩
  exact absurd h.components (by decide +kernel)

end Main

end FastRpc.CleanPath
