import Mathlib.Data.List.Basic
import Mathlib.Data.List.Infix
import Mathlib.Tactic.Common

/-! # The lines of a text

A line is what stands up to a separator, with the separator; behind the last one there may be a line
without one.  `takeLine k` reads a line as `fgets` does, but at most `k` elements of it, so that a text is
read in its lines when no line is longer (`lines_eq_cons`).  A separator behind a text ends its last line, or
is a line of its own (`lines_concat_sep`). -/

namespace TextLines

variable {α : Type*} [DecidableEq α] (sep : α)

/-- At most `k` elements of a text, up to the first separator. -/
def takeLine : ℕ → List α → List α
  | 0, _ => []
  | _ + 1, [] => []
  | k + 1, c :: s => if c = sep then [c] else c :: takeLine k s

/-- The lines of a text. -/
def lines : List α → List (List α)
  | [] => []
  | c :: s =>
      if c = sep then [c] :: lines s
      else
        match lines s with
        | [] => [[c]]
        | l :: ls => (c :: l) :: ls

variable {sep} {s l : List α} {ls : List (List α)} {k : ℕ}

theorem length_takeLine_le (k : ℕ) (s : List α) : (takeLine sep k s).length ≤ k := by
  induction k generalizing s with
  | zero => exact le_rfl
  | succ k ih =>
      cases s with
      | nil => exact Nat.zero_le _
      | cons c s =>
          rw [takeLine]
          split_ifs
          · exact Nat.succ_le_succ (Nat.zero_le _)
          · exact Nat.succ_le_succ (ih s)

theorem takeLine_ne_nil (hk : 0 < k) (hs : s ≠ []) : takeLine sep k s ≠ [] := by
  obtain ⟨k, rfl⟩ := Nat.exists_eq_succ_of_ne_zero (Nat.ne_of_gt hk)
  obtain ⟨c, s, rfl⟩ := List.exists_cons_of_ne_nil hs
  rw [takeLine]
  split_ifs
  · exact List.cons_ne_nil _ _
  · exact List.cons_ne_nil _ _

theorem lines_cons_sep (s : List α) : lines sep (sep :: s) = [sep] :: lines sep s := by
  rw [lines, if_pos rfl]

theorem lines_cons_of_nil {c : α} (hc : c ≠ sep) (h : lines sep s = []) : lines sep (c :: s) = [[c]] := by
  rw [lines, if_neg hc, h]

theorem lines_cons_of_cons {c : α} (hc : c ≠ sep) (h : lines sep s = l :: ls) :
    lines sep (c :: s) = (c :: l) :: ls := by
  rw [lines, if_neg hc, h]

theorem lines_eq_nil : lines sep s = [] ↔ s = [] := by
  cases s with
  | nil => exact iff_of_true rfl rfl
  | cons c s =>
      refine iff_of_false (fun h => ?_) (List.cons_ne_nil _ _)
      rw [lines] at h
      split_ifs at h
      split at h
      · exact List.cons_ne_nil _ _ h
      · exact List.cons_ne_nil _ _ h

/-- **The first line** is read whole when `k` elements are enough for it, and the other lines are those of
the rest. -/
theorem lines_eq_cons (h : lines sep s = l :: ls) :
    ∃ s', s = l ++ s' ∧ lines sep s' = ls ∧ ∀ k, l.length ≤ k → takeLine sep k s = l := by
  induction s generalizing l ls with
  | nil => exact nomatch h
  | cons c s ih =>
      have hread : ∀ k, 1 ≤ k → takeLine sep k (c :: s) = if c = sep then [c] else c :: takeLine sep (k - 1) s := by
        intro k hk
        obtain ⟨k, rfl⟩ := Nat.exists_eq_add_of_le' hk
        rfl
      by_cases hc : c = sep
      · subst hc
        rw [lines_cons_sep] at h
        obtain ⟨rfl, rfl⟩ := List.cons.inj h
        refine ⟨s, rfl, rfl, fun k hk => ?_⟩
        rw [hread k hk, if_pos rfl]
      · cases hrest : lines sep s with
        | nil =>
            rw [lines_cons_of_nil hc hrest] at h
            obtain ⟨rfl, rfl⟩ := List.cons.inj h
            obtain rfl := lines_eq_nil.mp hrest
            refine ⟨[], rfl, rfl, fun k hk => ?_⟩
            rw [hread k hk, if_neg hc]
            cases k - 1 with
            | zero => rfl
            | succ k => rfl
        | cons m ms =>
            rw [lines_cons_of_cons hc hrest] at h
            obtain ⟨rfl, rfl⟩ := List.cons.inj h
            obtain ⟨s', rfl, hlines, htake⟩ := ih hrest
            refine ⟨s', rfl, hlines, fun k hk => ?_⟩
            rw [List.length_cons] at hk
            rw [hread k (by omega), if_neg hc, htake (k - 1) (by omega)]

theorem line_ne_nil (h : l ∈ lines sep s) : l ≠ [] := by
  induction s generalizing l with
  | nil => exact nomatch h
  | cons c s ih =>
      by_cases hc : c = sep
      · subst hc
        rw [lines_cons_sep] at h
        rcases List.mem_cons.mp h with rfl | h
        · exact List.cons_ne_nil _ _
        · exact ih h
      · cases hrest : lines sep s with
        | nil =>
            rw [lines_cons_of_nil hc hrest, List.mem_singleton] at h
            exact h ▸ List.cons_ne_nil _ _
        | cons m ms =>
            rw [lines_cons_of_cons hc hrest] at h
            rcases List.mem_cons.mp h with rfl | h
            · exact List.cons_ne_nil _ _
            · exact ih (hrest ▸ List.mem_cons_of_mem _ h)

/-- **A separator behind a text.** -/
theorem lines_concat_sep (h : lines sep s = ls ++ [l]) : lines sep (s ++ [sep]) =
    if l.getLast? = some sep then ls ++ [l, [sep]] else ls ++ [l ++ [sep]] := by
  induction s generalizing l ls with
  | nil => exact absurd h.symm (List.append_ne_nil_of_right_ne_nil _ (List.cons_ne_nil _ _))
  | cons c s ih =>
      rw [List.cons_append]
      by_cases hc : c = sep
      · subst hc
        rw [lines_cons_sep] at h ⊢
        cases ls with
        | nil =>
            obtain ⟨rfl, hnil⟩ := List.cons.inj h
            obtain rfl := lines_eq_nil.mp hnil
            rw [if_pos (show [c].getLast? = some c from rfl), List.nil_append, List.nil_append, lines_cons_sep]
            rfl
        | cons m ms =>
            obtain ⟨rfl, hrest⟩ := List.cons.inj h
            rw [ih hrest]
            split_ifs
            · rfl
            · rfl
      · cases hrest : lines sep s with
        | nil =>
            rw [lines_cons_of_nil hc hrest] at h
            obtain rfl := lines_eq_nil.mp hrest
            cases ls with
            | cons p ps =>
                exact absurd (List.cons.inj h).2.symm (List.append_ne_nil_of_right_ne_nil _ (List.cons_ne_nil _ _))
            | nil =>
                obtain rfl := (List.cons.inj h).1
                have hlast : [c].getLast? ≠ some sep := fun hsome => hc (Option.some.inj hsome)
                rw [if_neg hlast, List.nil_append, lines_cons_of_cons hc (lines_cons_sep [])]
                rfl
        | cons m ms =>
            rw [lines_cons_of_cons hc hrest] at h
            have hm : m ≠ [] := line_ne_nil (hrest ▸ List.mem_cons_self)
            have hgetLast : (c :: m).getLast? = m.getLast? := by
              obtain ⟨d, m, rfl⟩ := List.exists_cons_of_ne_nil hm
              exact List.getLast?_cons_cons
            cases ls with
            | nil =>
                obtain ⟨rfl, rfl⟩ := List.cons.inj h
                have hih := @ih m [] hrest
                rw [hgetLast]
                split_ifs at hih ⊢ with hlast
                · exact lines_cons_of_cons hc hih
                · exact lines_cons_of_cons hc hih
            | cons p ps =>
                obtain ⟨rfl, rfl⟩ := List.cons.inj h
                have hih := @ih l (m :: ps) hrest
                split_ifs at hih ⊢ with hlast
                · exact lines_cons_of_cons hc hih
                · exact lines_cons_of_cons hc hih

end TextLines
