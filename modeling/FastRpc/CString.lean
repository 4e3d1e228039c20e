import Mathlib.Data.List.Basic
import Mathlib.Data.List.Infix
import Mathlib.Data.List.TakeWhile
import Mathlib.Tactic.NormNum

/-! # C strings

A string is a list of characters without its terminator.  `strlcpy` and `strlcat` write to a buffer of a
given size, which has no string when its size is 0; what does not fit is cut off.  `splitFirst` cuts a
string at the first place where `strstr` finds the delimiter, and `pieces` is the loop that cuts it at
all of them.  `tokens` are the results of a sequence of calls of `strtok_r`, for which each character of
the delimiter is one of its own.  On a list of strings joined by a delimiter the first gives the list
back when the delimiter is found only where it was put (`pieces_intercalate`), and the second when no
string has one of its characters (`tokens_intercalate`).  `strtol` reads the number at the beginning of a
string, and the number when there is one (`strtol_number`). -/

namespace CString

variable {α : Type*}

/-! ### Copies into a buffer -/

/-- `strlcpy(dst, src, size)`. -/
def strlcpy (size : ℕ) (src : List α) : Option (List α) :=
  if size = 0 then none else some (src.take (size - 1))

/-- `strlcat(dst, src, size)`. -/
def strlcat (size : ℕ) (dst : Option (List α)) (src : List α) : Option (List α) :=
  dst.map (fun d => d ++ src.take (size - 1 - d.length))

/-- A copy and what is appended to it are a copy of the whole. -/
theorem strlcat_strlcpy (size : ℕ) (xs ys : List α) :
    strlcat size (strlcpy size xs) ys = strlcpy size (xs ++ ys) := by
  unfold strlcpy
  split_ifs with hsize
  · rfl
  · simp only [strlcat, Option.map_some, List.take_append, List.length_take]
    congr 3
    omega

/-- A copy is whole when the buffer has room for it and its terminator. -/
theorem strlcpy_whole {size : ℕ} {xs : List α} : strlcpy size xs = some xs ↔ xs.length < size := by
  unfold strlcpy
  split_ifs with hsize
  · constructor
    · exact fun h => nomatch h
    · intro h
      omega
  · rw [Option.some_inj, List.take_eq_self_iff]
    omega

/-- A copy is a prefix that fits. -/
theorem strlcpy_starts {size : ℕ} {xs ys : List α} (h : strlcpy size xs = some ys) :
    ys <+: xs ∧ ys.length < size := by
  unfold strlcpy at h
  split_ifs at h with hsize
  rw [← Option.some.inj h]
  refine ⟨List.take_prefix _ _, ?_⟩
  rw [List.length_take]
  omega

/-! ### Strings in memory -/

/-- A string with its terminator. -/
def cells (s : List α) : List (Option α) := s.map some ++ [none]

/-- The string at the beginning of a memory, which ends without one where there is no terminator. -/
def readStr : List (Option α) → Option (List α)
  | [] => none
  | none :: _ => some []
  | some c :: m => (readStr m).map (c :: ·)

/-- The string that begins at a place. -/
def strAt (m : List (Option α)) (i : ℕ) : Option (List α) := readStr (m.drop i)

/-- Puts a terminator at a place of the memory. -/
def terminate (m : List (Option α)) (i : ℕ) : Option (List (Option α)) :=
  if i < m.length then some (m.set i none) else none

theorem readStr_append (s : List α) (m : List (Option α)) : readStr (s.map some ++ none :: m) = some s := by
  induction s with
  | nil => rfl
  | cons c cs ih => rw [List.map_cons, List.cons_append, readStr, ih, Option.map_some]

theorem drop_cells {s : List α} {i : ℕ} (h : i ≤ s.length) : (cells s).drop i = cells (s.drop i) := by
  rw [cells, List.drop_append_of_le_length (by rwa [List.length_map]), ← List.map_drop, cells]

theorem strAt_cells {s : List α} {i : ℕ} (h : i ≤ s.length) : strAt (cells s) i = some (s.drop i) := by
  rw [strAt, drop_cells h]
  exact readStr_append _ _

theorem strAt_beyond {s : List α} {i : ℕ} (h : s.length < i) : strAt (cells s) i = none := by
  rw [strAt, List.drop_eq_nil_of_le (by simp [cells]; omega)]
  rfl

/-- A terminator behind the beginning of a string cuts the string there. -/
theorem strAt_terminate {s : List α} {i j : ℕ} (hj : j ≤ i) (hi : i ≤ s.length) :
    (terminate (cells s) i).bind (fun m => strAt m j) = some ((s.take i).drop j) := by
  have hlt : i < (cells s).length := by
    simp [cells]
    omega
  have htake : (cells s).take i = (s.take i).map some := by
    rw [cells, List.take_append_of_le_length (by rwa [List.length_map]), List.map_take]
  rw [terminate, if_pos hlt, Option.bind_some, strAt, List.set_eq_take_append_cons_drop, if_pos hlt, htake,
    List.drop_append_of_le_length (by simp; omega), ← List.map_drop]
  exact readStr_append _ _

/-- A terminator in front of a string leaves the string as it is. -/
theorem strAt_terminate_before {s : List α} {i j : ℕ} (hi : i < j) (hj : j ≤ s.length) :
    (terminate (cells s) i).bind (fun m => strAt m j) = some (s.drop j) := by
  have hlt : i < (cells s).length := by
    simp [cells]
    omega
  rw [terminate, if_pos hlt, Option.bind_some, strAt, List.drop_set_of_lt hi]
  exact strAt_cells hj

variable [DecidableEq α] {delim d rest : List α} {ds : List (List α)}

/-! ### The delimiter as a string -/

/-- What is before and after the first place where `strstr` finds the delimiter. -/
def splitFirst (delim : List α) : List α → Option (List α × List α)
  | [] => none
  | c :: cs =>
      if delim.isPrefixOf (c :: cs) then some ([], (c :: cs).drop delim.length)
      else (splitFirst delim cs).map (fun r => (c :: r.1, r.2))

/-- The place where `strstr` finds the delimiter; an empty one is found at once. -/
def strstr (delim : List α) : List α → Option ℕ
  | [] => if delim = [] then some 0 else none
  | c :: cs => if delim.isPrefixOf (c :: cs) then some 0 else (strstr delim cs).map (· + 1)

/-- The loop that cuts a string at every delimiter; each turn but the last makes it shorter. -/
def pieces (delim : List α) : ℕ → List α → List (List α)
  | 0, _ => []
  | n + 1, s =>
      match splitFirst delim s with
      | none => [s]
      | some (d, rest) => d :: pieces delim n rest

/-- Where the strings are joined, the delimiter starts at no earlier place. -/
def Separated (delim : List α) : List (List α) → Prop
  | [] => True
  | [d] => ∀ k, k < d.length → ¬ delim <+: d.drop k
  | d :: ds => (∀ k, k < d.length → ¬ delim <+: (d ++ delim).drop k) ∧ Separated delim ds

@[simp] theorem strstr_nil (s : List α) : strstr [] s = some 0 := by
  cases s <;> rfl

/-- The delimiter that is found is a part of the string. -/
theorem strstr_le {s : List α} {i : ℕ} (h : strstr delim s = some i) : i + delim.length ≤ s.length := by
  induction s generalizing i with
  | nil =>
      rw [strstr] at h
      split_ifs at h with hdelim
      obtain rfl := Option.some.inj h
      simp [hdelim]
  | cons c cs ih =>
      rw [strstr] at h
      split_ifs at h with hfound
      · obtain rfl := Option.some.inj h
        rw [Nat.zero_add]
        exact (List.isPrefixOf_iff_prefix.mp hfound).length_le
      · obtain ⟨j, hj, rfl⟩ := Option.map_eq_some_iff.mp h
        have := ih hj
        rw [List.length_cons]
        omega

/-- It is found at once at the beginning of a string. -/
theorem strstr_eq_zero (hdelim : delim ≠ []) {s : List α} : strstr delim s = some 0 ↔ delim <+: s := by
  cases s with
  | nil =>
      rw [strstr, if_neg hdelim, List.prefix_nil]
      exact iff_of_false (fun h => nomatch h) hdelim
  | cons c cs =>
      rw [strstr, ← List.isPrefixOf_iff_prefix]
      split_ifs with hfound
      · exact iff_of_true rfl hfound
      · simp [hfound]

/-- It is not found when it is no part of the string. -/
theorem strstr_eq_none (hdelim : delim ≠ []) {s : List α} : strstr delim s = none ↔ ¬ delim <:+: s := by
  induction s with
  | nil =>
      rw [strstr, if_neg hdelim, List.infix_nil]
      exact iff_of_true rfl hdelim
  | cons c cs ih =>
      rw [strstr, List.infix_cons_iff, ← List.isPrefixOf_iff_prefix]
      split_ifs with hfound
      · simp [hfound]
      · simp [hfound, ih]

/-- The string around the place where it is found. -/
theorem strstr_append {s : List α} {i : ℕ} (h : strstr delim s = some i) :
    s.take i ++ delim ++ s.drop (i + delim.length) = s := by
  induction s generalizing i with
  | nil =>
      rw [strstr] at h
      split_ifs at h with hdelim
      simp [hdelim]
  | cons c cs ih =>
      rw [strstr] at h
      split_ifs at h with hfound
      · obtain rfl := Option.some.inj h
        rw [Nat.zero_add, List.take_zero, List.nil_append]
        exact List.prefix_iff_eq_append.mp (List.isPrefixOf_iff_prefix.mp hfound)
      · obtain ⟨j, hj, rfl⟩ := Option.map_eq_some_iff.mp h
        rw [List.take_succ_cons, Nat.add_right_comm, List.drop_succ_cons, List.cons_append, List.cons_append,
          ih hj]

/-- Where it does not begin, the search goes on. -/
theorem strstr_skip {s : List α} (h : ∀ k < d.length, ¬ delim <+: (d ++ s).drop k) :
    strstr delim (d ++ s) = (strstr delim s).map (d.length + ·) := by
  induction d with
  | nil => simp
  | cons c cs ih =>
      have hhead : ¬ delim.isPrefixOf (c :: (cs ++ s)) = true := by
        rw [List.isPrefixOf_iff_prefix]
        exact h 0 (Nat.zero_lt_succ _)
      have htail := ih (fun k hk => h (k + 1) (Nat.succ_lt_succ hk))
      rw [List.cons_append, strstr, if_neg hhead, htail, Option.map_map]
      congr 1
      funext i
      simp only [Function.comp, List.length_cons]
      omega

/-- The strings before and behind it. -/
theorem splitFirst_eq_strstr (hdelim : delim ≠ []) (s : List α) : splitFirst delim s =
    (strstr delim s).map (fun i => (s.take i, s.drop (i + delim.length))) := by
  induction s with
  | nil => rw [strstr, if_neg hdelim, splitFirst, Option.map_none]
  | cons c cs ih =>
      rw [splitFirst, strstr]
      split_ifs with hfound
      · rw [Option.map_some, Nat.zero_add, List.take_zero]
      · rw [ih, Option.map_map, Option.map_map]
        congr 1
        funext i
        rw [Function.comp, Function.comp, List.take_succ_cons, Nat.add_right_comm, List.drop_succ_cons]

theorem splitFirst_none (h : ∀ k, k < d.length → ¬ delim <+: d.drop k) : splitFirst delim d = none := by
  induction d with
  | nil => rfl
  | cons c cs ih =>
      have hhead : ¬ delim.isPrefixOf (c :: cs) = true := by
        rw [List.isPrefixOf_iff_prefix]
        exact h 0 (Nat.zero_lt_succ _)
      have htail := ih (fun k hk => h (k + 1) (Nat.succ_lt_succ hk))
      rw [splitFirst, if_neg hhead, htail, Option.map_none]

theorem splitFirst_append (hdelim : delim ≠ [])
    (h : ∀ k, k < d.length → ¬ delim <+: (d ++ delim).drop k) :
    splitFirst delim (d ++ delim ++ rest) = some (d, rest) := by
  induction d with
  | nil =>
      obtain ⟨c, cs, rfl⟩ := List.exists_cons_of_ne_nil hdelim
      have hhead : (c :: cs).isPrefixOf (c :: (cs ++ rest)) = true := by
        rw [List.isPrefixOf_iff_prefix]
        exact List.prefix_append (c :: cs) rest
      simp only [List.nil_append, List.cons_append, splitFirst]
      rw [if_pos hhead]
      simp
  | cons c cs ih =>
      have hhead : ¬ delim.isPrefixOf (c :: (cs ++ delim ++ rest)) = true := by
        rw [List.isPrefixOf_iff_prefix]
        intro hstarts
        refine h 0 (Nat.zero_lt_succ _) ?_
        refine List.prefix_of_prefix_length_le hstarts ?_ ?_
        · exact List.prefix_append (c :: (cs ++ delim)) rest
        · simp only [List.cons_append, List.drop_zero, List.length_cons, List.length_append]
          omega
      have htail := ih (fun k hk => h (k + 1) (Nat.succ_lt_succ hk))
      simp only [List.cons_append, splitFirst]
      rw [if_neg hhead, htail, Option.map_some]

/-- **The loop over `strstr`** gives the strings back. -/
theorem pieces_intercalate (hdelim : delim ≠ []) (hds : ds ≠ []) (h : Separated delim ds) {n : ℕ}
    (hn : (delim.intercalate ds).length < n) : pieces delim n (delim.intercalate ds) = ds := by
  induction ds generalizing n with
  | nil => exact absurd rfl hds
  | cons d ds ih =>
      obtain ⟨n, rfl⟩ := Nat.exists_eq_succ_of_ne_zero (Nat.ne_zero_of_lt hn)
      cases ds with
      | nil =>
          rw [List.intercalate_singleton, pieces, splitFirst_none h]
      | cons e ds =>
          have hlength := List.length_pos_iff.mpr hdelim
          rw [List.intercalate_cons_cons] at hn ⊢
          have hrest := ih (List.cons_ne_nil e ds) h.2 (n := n) (by
            simp only [List.length_append] at hn
            omega)
          rw [pieces, splitFirst_append hdelim h.1]
          simp only [hrest]

/-! ### Searching -/

/-- `strstr` finds a string that is somewhere in the other one. -/
theorem splitFirst_isSome_iff (hdelim : delim ≠ []) (s : List α) :
    (splitFirst delim s).isSome = true ↔ delim <:+: s := by
  induction s with
  | nil =>
      constructor
      · exact fun h => nomatch h
      · intro h
        exact absurd (List.infix_nil.mp h) hdelim
  | cons c cs ih =>
      rw [splitFirst, List.infix_cons_iff, ← List.isPrefixOf_iff_prefix]
      split_ifs with hhead
      · simp [hhead]
      · simp [hhead, ih]

/-- A string whose first character comes in it only once is not found across a place where that character
stands. -/
theorem splitFirst_skip {c : α} {cs s rest : List α} (hc : c ∉ cs) (hs : ¬ c :: cs <:+: s)
    (hrest : rest.head? = some c) :
    splitFirst (c :: cs) (s ++ rest) = (splitFirst (c :: cs) rest).map (fun r => (s ++ r.1, r.2)) := by
  induction s with
  | nil => simp
  | cons x xs ih =>
      have hhead : ¬ (c :: cs).isPrefixOf (x :: (xs ++ rest)) = true := by
        rw [List.isPrefixOf_iff_prefix]
        intro hstarts
        obtain ⟨after, hcons⟩ := hstarts
        obtain ⟨rfl, happend⟩ := List.cons.inj hcons
        obtain ⟨left, rfl, -⟩ | ⟨left, rfl, rfl⟩ := List.append_eq_append_iff.mp happend
        · exact hs List.infix_append_left
        · -- the rest begins inside of `cs`, or right behind it
          cases left with
          | nil => exact hs (by rw [List.append_nil])
          | cons y ys =>
              obtain rfl := Option.some.inj hrest
              exact hc (List.mem_append_right xs List.mem_cons_self)
      have htail := ih (fun h => hs (List.infix_cons h))
      rw [List.cons_append, splitFirst, if_neg hhead, htail, Option.map_map]
      rfl

/-! ### The delimiter as a set of characters -/

/-- The results of the calls of `strtok_r`; `token` is what the current one has so far. -/
def tokens (delim : List α) : List α → List α → List (List α)
  | [], token => if token = [] then [] else [token]
  | c :: cs, token =>
      if c ∈ delim then
        if token = [] then tokens delim cs [] else token :: tokens delim cs []
      else tokens delim cs (token ++ [c])

/-- The places where the calls of `strtok_r` put a terminator, in a string that begins at `k`; `inToken` says
that a token has begun. -/
def terminators (delim : List α) : ℕ → Bool → List α → List ℕ
  | _, _, [] => []
  | k, inToken, c :: cs =>
      if c ∈ delim then if inToken then k :: terminators delim (k + 1) false cs else terminators delim (k + 1) false cs
      else terminators delim (k + 1) true cs

/-- They are in the string. -/
theorem terminators_lt {k i : ℕ} {inToken : Bool} {s : List α} (h : i ∈ terminators delim k inToken s) :
    i < k + s.length := by
  induction s generalizing k inToken with
  | nil => exact absurd h List.not_mem_nil
  | cons c cs ih =>
      rw [List.length_cons]
      rw [terminators] at h
      split_ifs at h
      · rcases List.mem_cons.mp h with rfl | h
        · omega
        · have := ih h
          omega
      · have := ih h
        omega
      · have := ih h
        omega

/-- Only the characters of the string count. -/
theorem tokens_congr {delim' s : List α} (h : ∀ c ∈ s, c ∈ delim ↔ c ∈ delim') (token : List α) :
    tokens delim s token = tokens delim' s token := by
  induction s generalizing token with
  | nil => rfl
  | cons c cs ih =>
      obtain ⟨hc, hcs⟩ := List.forall_mem_cons.mp h
      rw [tokens, tokens]
      simp only [hc, ih hcs]

/-- Every other character is in a token. -/
theorem exists_token {c : α} {s token : List α} (hc : c ∈ token ∨ c ∈ s ∧ c ∉ delim) :
    ∃ t ∈ tokens delim s token, c ∈ t := by
  induction s generalizing token with
  | nil =>
      have htoken : c ∈ token := hc.resolve_right fun h => absurd h.1 List.not_mem_nil
      rw [tokens, if_neg (List.ne_nil_of_mem htoken)]
      exact ⟨token, List.mem_cons_self, htoken⟩
  | cons d cs ih =>
      rw [tokens]
      split_ifs with hd hnil
      · subst hnil
        obtain ⟨hmem, hc⟩ := hc.resolve_left List.not_mem_nil
        refine ih (.inr ⟨(List.mem_cons.mp hmem).resolve_left fun h => hc (h ▸ hd), hc⟩)
      · rcases hc with htoken | ⟨hmem, hc⟩
        · exact ⟨token, List.mem_cons_self, htoken⟩
        · obtain ⟨t, ht, hct⟩ :=
            @ih [] (.inr ⟨(List.mem_cons.mp hmem).resolve_left fun h => hc (h ▸ hd), hc⟩)
          exact ⟨t, List.mem_cons_of_mem _ ht, hct⟩
      · refine ih ?_
        rcases hc with htoken | ⟨hmem, hc⟩
        · exact .inl (List.mem_append_left _ htoken)
        · rcases List.mem_cons.mp hmem with rfl | hmem
          · exact .inl (List.mem_append_right _ List.mem_cons_self)
          · exact .inr ⟨hmem, hc⟩

/-- A token has no character of the delimiter. -/
theorem not_mem_delim {s token : List α} (htoken : ∀ c ∈ token, c ∉ delim) :
    ∀ t ∈ tokens delim s token, ∀ c ∈ t, c ∉ delim := by
  induction s generalizing token with
  | nil =>
      intro t ht
      unfold tokens at ht
      split_ifs at ht with hnil
      · exact absurd ht List.not_mem_nil
      · rw [List.mem_singleton.mp ht]
        exact htoken
  | cons c cs ih =>
      have hnone : ∀ x ∈ ([] : List α), x ∉ delim := fun _ hx => absurd hx List.not_mem_nil
      intro t ht
      unfold tokens at ht
      split_ifs at ht with hc hnil
      · exact ih hnone t ht
      · rcases List.mem_cons.mp ht with rfl | ht
        · exact htoken
        · exact ih hnone t ht
      · refine ih ?_ t ht
        intro x hx
        rcases List.mem_append.mp hx with hx | hx
        · exact htoken x hx
        · rw [List.mem_singleton.mp hx]
          exact hc

theorem tokens_free (hd : ∀ c ∈ d, c ∉ delim) (s token : List α) :
    tokens delim (d ++ s) token = tokens delim s (token ++ d) := by
  induction d generalizing token with
  | nil => rw [List.nil_append, List.append_nil]
  | cons c cs ih =>
      rw [List.cons_append, tokens, if_neg (hd c List.mem_cons_self),
        ih (fun x hx => hd x (List.mem_cons_of_mem c hx)), List.append_assoc, List.singleton_append]

theorem tokens_skip {xs : List α} (hxs : ∀ c ∈ xs, c ∈ delim) (s : List α) :
    tokens delim (xs ++ s) [] = tokens delim s [] := by
  induction xs with
  | nil => rfl
  | cons c cs ih =>
      rw [List.cons_append, tokens, if_pos (hxs c List.mem_cons_self), if_pos rfl]
      exact ih (fun x hx => hxs x (List.mem_cons_of_mem c hx))

/-- A delimiter ends the token before it. -/
theorem tokens_delim (hdelim : delim ≠ []) (hd : d ≠ []) (s : List α) :
    tokens delim (delim ++ s) d = d :: tokens delim s [] := by
  have hskip : ∀ xs : List α, xs ≠ [] → (∀ c ∈ xs, c ∈ delim) →
      tokens delim (xs ++ s) d = d :: tokens delim s [] := by
    intro xs hne hxs
    obtain ⟨c, cs, rfl⟩ := List.exists_cons_of_ne_nil hne
    rw [List.cons_append, tokens, if_pos (hxs c List.mem_cons_self), if_neg hd,
      tokens_skip (fun x hx => hxs x (List.mem_cons_of_mem c hx))]
  exact hskip delim hdelim (fun _ hc => hc)

/-- **The calls of `strtok_r`** give strings back that have no character of the delimiter. -/
theorem tokens_intercalate (hdelim : delim ≠ []) (hne : ∀ d ∈ ds, d ≠ [])
    (hfree : ∀ d ∈ ds, ∀ c ∈ d, c ∉ delim) : tokens delim (delim.intercalate ds) [] = ds := by
  induction ds with
  | nil => rfl
  | cons d ds ih =>
      have hd := hne d List.mem_cons_self
      have hdfree := hfree d List.mem_cons_self
      cases ds with
      | nil =>
          rw [List.intercalate_singleton]
          have htoken := tokens_free hdfree [] []
          rw [List.append_nil, List.nil_append, tokens, if_neg hd] at htoken
          exact htoken
      | cons e ds =>
          have hrest := ih (fun x hx => hne x (List.mem_cons_of_mem d hx))
            (fun x hx => hfree x (List.mem_cons_of_mem d hx))
          rw [List.intercalate_cons_cons, List.append_assoc, tokens_free hdfree, List.nil_append,
            tokens_delim hdelim hd, hrest]

/-- One call of `strtok_r`: the token, and the string for the next call. -/
def strtok (delim s : List α) : Option (List α × List α) :=
  let s := s.dropWhile (· ∈ delim)
  if s = [] then none else some (s.takeWhile (· ∉ delim), (s.dropWhile (· ∉ delim)).drop 1)

section Strtok

variable {c : α} {l r t : List α}

theorem strtok_delims (hl : ∀ x ∈ l, x ∈ delim) : strtok delim l = none := by
  unfold strtok
  rw [List.dropWhile_eq_nil_iff.mpr (by simpa using hl)]
  exact if_pos rfl

theorem strtok_of_dropWhile {s : List α} (hs : s.dropWhile (· ∈ delim) = t) (ht : t ≠ []) :
    strtok delim s = some (t.takeWhile (· ∉ delim), (t.dropWhile (· ∉ delim)).drop 1) := by
  unfold strtok
  rw [hs]
  exact if_neg ht

/-- What is skipped before a token. -/
theorem dropWhile_delim (hl : ∀ x ∈ l, x ∈ delim) (ht : t ≠ []) (hfree : ∀ x ∈ t, x ∉ delim) (r : List α) :
    (l ++ (t ++ r)).dropWhile (· ∈ delim) = t ++ r := by
  obtain ⟨x, t, rfl⟩ := List.exists_cons_of_ne_nil ht
  have hx : ¬ decide (x ∈ delim) = true := by simpa using hfree x List.mem_cons_self
  rw [List.dropWhile_append_of_pos (by simpa using hl), List.cons_append,
    List.dropWhile_cons_of_neg (p := (· ∈ delim)) hx]

/-- A token up to the end of the string. -/
theorem strtok_last (hl : ∀ x ∈ l, x ∈ delim) (ht : t ≠ []) (hfree : ∀ x ∈ t, x ∉ delim) :
    strtok delim (l ++ t) = some (t, []) := by
  have hdrop := dropWhile_delim hl ht hfree []
  rw [List.append_nil] at hdrop
  rw [strtok_of_dropWhile hdrop ht, List.takeWhile_eq_self_iff.mpr (by simpa using hfree),
    List.dropWhile_eq_nil_iff.mpr (by simpa using hfree)]
  rfl

/-- A token with a delimiter behind it. -/
theorem strtok_token (hl : ∀ x ∈ l, x ∈ delim) (ht : t ≠ []) (hfree : ∀ x ∈ t, x ∉ delim) (hc : c ∈ delim) :
    strtok delim (l ++ (t ++ c :: r)) = some (t, r) := by
  have hstop : ¬ decide (c ∉ delim) = true := by simpa using hc
  rw [strtok_of_dropWhile (dropWhile_delim hl ht hfree _) (List.append_ne_nil_of_left_ne_nil ht _),
    List.takeWhile_append_of_pos (by simpa using hfree), List.dropWhile_append_of_pos (by simpa using hfree),
    List.takeWhile_cons_of_neg (p := (· ∉ delim)) hstop, List.dropWhile_cons_of_neg (p := (· ∉ delim)) hstop,
    List.append_nil]
  rfl

/-- A token that ends the string has no delimiter behind it. -/
theorem last_ne_token {l' t' : List α} (hl : ∀ x ∈ l, x ∈ delim) (ht : t ≠ []) (hfree : ∀ x ∈ t, x ∉ delim)
    (hl' : ∀ x ∈ l', x ∈ delim) (ht' : t' ≠ []) (hfree' : ∀ x ∈ t', x ∉ delim) (hc : c ∈ delim) :
    l ++ t ≠ l' ++ (t' ++ c :: r) := by
  intro h
  have hdrop := dropWhile_delim hl ht hfree []
  rw [List.append_nil, h, dropWhile_delim hl' ht' hfree'] at hdrop
  exact hfree c (hdrop ▸ List.mem_append_right _ List.mem_cons_self) hc

/-- Every string has one of the three forms. -/
theorem strtok_forms (delim s : List α) : (∀ x ∈ s, x ∈ delim) ∨
    (∃ l t, s = l ++ t ∧ (∀ x ∈ l, x ∈ delim) ∧ t ≠ [] ∧ ∀ x ∈ t, x ∉ delim) ∨
    ∃ l t c r, s = l ++ (t ++ c :: r) ∧ (∀ x ∈ l, x ∈ delim) ∧ t ≠ [] ∧ (∀ x ∈ t, x ∉ delim) ∧
      c ∈ delim := by
  have hs := List.takeWhile_append_dropWhile (p := (· ∈ delim)) (l := s)
  have hl : ∀ x ∈ s.takeWhile (· ∈ delim), x ∈ delim := fun x hx => by simpa using List.mem_takeWhile_imp hx
  generalize s.takeWhile (· ∈ delim) = l at hs hl
  cases hrest : s.dropWhile (· ∈ delim) with
  | nil =>
      rw [hrest, List.append_nil] at hs
      exact .inl (hs ▸ hl)
  | cons x u =>
      have hx : x ∉ delim := by
        have hhead := List.head_dropWhile_not (p := (· ∈ delim)) (l := s) (by rw [hrest]; exact List.cons_ne_nil _ _)
        simpa [hrest] using hhead
      rw [hrest] at hs
      have hu := List.takeWhile_append_dropWhile (p := (· ∉ delim)) (l := u)
      have ht : ∀ y ∈ x :: u.takeWhile (· ∉ delim), y ∉ delim := by
        refine List.forall_mem_cons.mpr ⟨hx, fun y hy => ?_⟩
        simpa using List.mem_takeWhile_imp hy
      refine .inr ?_
      cases hbehind : u.dropWhile (· ∉ delim) with
      | nil =>
          rw [hbehind, List.append_nil] at hu
          exact .inl ⟨l, x :: u, hs.symm, hl, List.cons_ne_nil _ _, hu ▸ ht⟩
      | cons c r =>
          have hc : c ∈ delim := by
            have hhead := List.head_dropWhile_not (p := (· ∉ delim)) (l := u)
              (by rw [hbehind]; exact List.cons_ne_nil _ _)
            simp only [hbehind, List.head_cons] at hhead
            simpa using hhead
          rw [hbehind] at hu
          refine .inr ⟨l, x :: u.takeWhile (· ∉ delim), c, r, ?_, hl, List.cons_ne_nil _ _, ht, hc⟩
          rw [← hs, List.cons_append, hu]

end Strtok

/-! ### Numbers -/

/-- `isspace`. -/
def isSpace (c : Char) : Bool := c == ' ' || (9 ≤ c.toNat && c.toNat ≤ 13)

/-- The number of the digits that the string begins with. -/
def leadingNumber (s : List Char) : ℤ := Nat.ofDigitChars 10 (s.takeWhile Char.isDigit) 0

/-- The nearest value of a 64-bit `long`. -/
def clampLong (n : ℤ) : ℤ := if n < -2 ^ 63 then -2 ^ 63 else if 2 ^ 63 - 1 < n then 2 ^ 63 - 1 else n

/-- `strtol(s, NULL, 10)`. -/
def strtol (s : List Char) : ℤ :=
  clampLong (match s.dropWhile isSpace with
    | '-' :: digits => -leadingNumber digits
    | '+' :: digits => leadingNumber digits
    | digits => leadingNumber digits)

/-- The number that a string of digits is. -/
def digits (s : List Char) : Option ℤ :=
  if s ≠ [] ∧ s.all Char.isDigit then some (Nat.ofDigitChars 10 s 0) else none

/-- The number that a whole string is, with a sign or without. -/
def number : List Char → Option ℤ
  | '-' :: s => (digits s).map (fun n => -n)
  | '+' :: s => digits s
  | s => digits s

theorem leadingNumber_digits {s rest : List Char} {n : ℤ} (h : digits s = some n)
    (hrest : ∀ c, rest.head? = some c → c.isDigit = false) : leadingNumber (s ++ rest) = n := by
  unfold digits at h
  split_ifs at h with hs
  rw [← Option.some.inj h]
  have htake : (s ++ rest).takeWhile Char.isDigit = s := by
    rw [List.takeWhile_append_of_pos (List.all_eq_true.mp hs.2)]
    cases rest with
    | nil => simp
    | cons c cs => simp [hrest c rfl]
  rw [leadingNumber, htake]

/-- A digit is no space and no sign. -/
theorem isDigit_other {c : Char} (h : c.isDigit = true) : isSpace c = false ∧ c ≠ '-' ∧ c ≠ '+' := by
  refine ⟨?_, ?_, ?_⟩
  · simp only [Char.isDigit, Bool.and_eq_true, decide_eq_true_eq, UInt32.le_iff_toNat_le] at h
    have hspace : c ≠ ' ' := by
      rintro rfl
      exact absurd h.1 (by decide)
    have hlow : 48 ≤ c.toNat := h.1
    simp only [isSpace, Bool.or_eq_false_iff, beq_eq_false_iff_ne, Bool.and_eq_false_iff, decide_eq_false_iff_not]
    exact ⟨hspace, .inr (by omega)⟩
  · rintro rfl
    exact absurd h (by decide)
  · rintro rfl
    exact absurd h (by decide)

/-- **`strtol`** on a number, with anything but a digit behind it. -/
theorem strtol_number {s rest : List Char} {n : ℤ} (h : number s = some n)
    (hrest : ∀ c, rest.head? = some c → c.isDigit = false) : strtol (s ++ rest) = clampLong n := by
  unfold strtol
  congr 1
  revert h
  fun_cases number s with
  | case1 s =>
      intro h
      obtain ⟨m, hm, rfl⟩ := Option.map_eq_some_iff.mp h
      exact congrArg Neg.neg (leadingNumber_digits hm hrest)
  | case2 s =>
      intro h
      exact leadingNumber_digits h hrest
  | case3 =>
      intro h
      have hnumber := leadingNumber_digits h hrest
      unfold digits at h
      split_ifs at h with hs
      obtain ⟨c, cs, rfl⟩ := List.exists_cons_of_ne_nil hs.1
      have hdigit := isDigit_other (List.all_eq_true.mp hs.2 c List.mem_cons_self)
      have hspace : ¬ isSpace c = true := by simp [hdigit.1]
      rw [List.cons_append, List.dropWhile_cons_of_neg hspace]
      split
      · exact absurd (List.cons.inj ‹_›).1 hdigit.2.1
      · exact absurd (List.cons.inj ‹_›).1 hdigit.2.2
      · exact hnumber

/-- The characters that a number may begin with. -/
def signed (f : List Char → ℤ) (s : List Char) : ℤ :=
  match s.dropWhile isSpace with
  | '-' :: digits => -f digits
  | '+' :: digits => f digits
  | digits => f digits

/-- A digit of base 16. -/
def hexDigit (c : Char) : Option ℕ :=
  if c.isDigit then some (c.toNat - 48)
  else if 'a' ≤ c ∧ c ≤ 'f' then some (c.toNat - 87)
  else if 'A' ≤ c ∧ c ≤ 'F' then some (c.toNat - 55)
  else none

/-- The number of the hexadecimal digits that the string begins with, behind what was read before. -/
def hexNumber : List Char → ℕ → ℕ
  | [], n => n
  | c :: s, n =>
      match hexDigit c with
      | some d => hexNumber s (16 * n + d)
      | none => n

/-- The digits, behind `0x` if the string begins with it. -/
def prefixedHex : List Char → ℤ
  | '0' :: 'x' :: s => hexNumber s 0
  | '0' :: 'X' :: s => hexNumber s 0
  | s => hexNumber s 0

/-- `strtol(s, NULL, 16)`. -/
def strtolHex (s : List Char) : ℤ := clampLong (signed prefixedHex s)

section Behind

variable {c : Char} (s : List Char)

theorem strtol_eq_signed : strtol s = clampLong (signed leadingNumber s) := rfl

theorem leadingNumber_concat (hc : c.isDigit = false) : leadingNumber (s ++ [c]) = leadingNumber s := by
  unfold leadingNumber
  rw [List.takeWhile_append]
  split_ifs with hall
  · rw [List.takeWhile_cons_of_neg (by simp [hc]), List.append_nil, List.takeWhile_eq_self_iff.mpr]
    exact List.takeWhile_eq_self_iff.mp ((List.takeWhile_prefix _).eq_of_length hall)
  · rfl

theorem hexNumber_concat (hc : hexDigit c = none) (n : ℕ) : hexNumber (s ++ [c]) n = hexNumber s n := by
  induction s generalizing n with
  | nil => simp [hexNumber, hc]
  | cons d s ih =>
      rw [List.cons_append, hexNumber, hexNumber]
      cases hexDigit d with
      | none => rfl
      | some m => exact ih _

/-- A space behind a number changes nothing. -/
theorem signed_concat {f : List Char → ℤ} (hf : ∀ s, f (s ++ [c]) = f s) (hc : isSpace c = true) :
    signed f (s ++ [c]) = signed f s := by
  unfold signed
  rw [List.dropWhile_append]
  cases hs : s.dropWhile isSpace with
  | nil => simp [hc]
  | cons d r =>
      rw [List.isEmpty_cons, if_neg Bool.false_ne_true, List.cons_append]
      by_cases hminus : d = '-'
      · subst hminus
        exact congrArg Neg.neg (hf r)
      · by_cases hplus : d = '+'
        · subst hplus
          exact hf r
        · have hrest : ∀ u : List Char, (match d :: u with
              | '-' :: digits => -f digits
              | '+' :: digits => f digits
              | digits => f digits) = f (d :: u) := by
            intro u
            split
            · exact absurd (List.cons.inj ‹_›).1 hminus
            · exact absurd (List.cons.inj ‹_›).1 hplus
            · rfl
          rw [hrest, hrest]
          exact hf (d :: r)

end Behind

end CString
