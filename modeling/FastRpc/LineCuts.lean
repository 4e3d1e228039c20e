import Mathlib.Data.Nat.Notation
import Mathlib.Logic.Basic
import Mathlib.Tactic.Common

/-! # Lines of a bounded length

A sequence of bytes, some of them separators, is read in lines: a line skips separators, takes the
bytes that follow up to the next separator but at most `m` of them, and passes one byte more.  The
places where a line ends are told by the bytes before them alone: `Cut` asks for the length of the last
stretch without separators.  A line leads from one cut to the next one (`Line.cut`, `Line.not_cut`). -/

namespace LineCuts

variable (sep : ℕ → Prop) [DecidablePred sep] (m : ℕ)

/-- The length of the stretch without separators that ends before a place. -/
def stretch : ℕ → ℕ
  | 0 => 0
  | n + 1 => if sep n then 0 else stretch n + 1

/-- Whole lines lie before a place: nothing, or a stretch of whole lines, or one that is not with a
separator behind it. -/
def Cut : ℕ → Prop
  | 0 => True
  | n + 1 => if sep n then stretch sep n % (m + 1) ≠ 0 else (stretch sep n + 1) % (m + 1) = 0

instance : DecidablePred (Cut sep m)
  | 0 => inferInstanceAs (Decidable True)
  | n + 1 => inferInstanceAs (Decidable (if sep n then _ ≠ _ else _ = _))

/-- A line from `p` on: `a` separators, `k` other bytes, and one byte that is a separator unless the line
is full. -/
structure Line (p a k : ℕ) : Prop where
  skipped : ∀ i < a, sep (p + i)
  bytes : ∀ i < k, ¬ sep (p + a + i)
  nonempty : 0 < k
  fits : k ≤ m
  ends : k = m ∨ sep (p + a + k)

variable {sep m} {p a k n : ℕ}

theorem stretch_of_sep (h : sep n) : stretch sep (n + 1) = 0 := if_pos h

theorem stretch_of_not_sep (h : ¬ sep n) : stretch sep (n + 1) = stretch sep n + 1 := if_neg h

theorem cut_of_sep (h : sep n) : Cut sep m (n + 1) ↔ stretch sep n % (m + 1) ≠ 0 := by
  rw [Cut, if_pos h]

theorem cut_of_not_sep (h : ¬ sep n) : Cut sep m (n + 1) ↔ (stretch sep n + 1) % (m + 1) = 0 := by
  rw [Cut, if_neg h]

/-- Before a cut there are whole lines of the last stretch. -/
theorem Cut.stretch_mod (h : Cut sep m n) : stretch sep n % (m + 1) = 0 := by
  cases n with
  | zero => exact Nat.zero_mod _
  | succ n =>
      by_cases hsep : sep n
      · rw [stretch_of_sep hsep]
        exact Nat.zero_mod _
      · rw [stretch_of_not_sep hsep]
        exact (cut_of_not_sep hsep).mp h

/-- Separators behind whole lines are skipped. -/
theorem Cut.skip (h : Cut sep m p) (hskip : ∀ i < a, sep (p + i)) : stretch sep (p + a) % (m + 1) = 0 := by
  cases a with
  | zero => exact h.stretch_mod
  | succ a =>
      rw [← Nat.add_assoc, stretch_of_sep (hskip a (Nat.lt_succ_self a))]
      exact Nat.zero_mod _

/-- Separators behind whole lines end no line. -/
theorem Cut.not_cut_skip (h : Cut sep m p) (hskip : ∀ i < a, sep (p + i)) (ha : 0 < a) :
    ¬ Cut sep m (p + a) := by
  obtain ⟨b, rfl⟩ := Nat.exists_eq_succ_of_ne_zero (Nat.ne_of_gt ha)
  change ¬ Cut sep m (p + b + 1)
  rw [cut_of_sep (hskip b (Nat.lt_succ_self b)), not_not]
  exact h.skip (fun i hi => hskip i (Nat.lt_succ_of_lt hi))

/-- The bytes of a line. -/
theorem Cut.stretch_line (h : Cut sep m p) (hskip : ∀ i < a, sep (p + i))
    (hbytes : ∀ i < k, ¬ sep (p + a + i)) (hk : k ≤ m) : stretch sep (p + a + k) % (m + 1) = k := by
  induction k with
  | zero => exact h.skip hskip
  | succ k ih =>
      have hprev := ih (fun i hi => hbytes i (Nat.lt_succ_of_lt hi)) (Nat.le_of_succ_le hk)
      rw [← Nat.add_assoc, stretch_of_not_sep (hbytes k (Nat.lt_succ_self k)), Nat.add_mod, hprev,
        Nat.mod_eq_of_lt (by omega : 1 < m + 1), Nat.mod_eq_of_lt (by omega)]

section Line

variable (hp : Cut sep m p) (hl : Line sep m p a k)
include hp hl

/-- **A line ends at a cut.** -/
theorem Line.cut : Cut sep m (p + a + k + 1) := by
  have hstretch := hp.stretch_line hl.skipped hl.bytes hl.fits
  have hpos := hl.nonempty
  by_cases hsep : sep (p + a + k)
  · rw [cut_of_sep hsep, hstretch]
    exact Nat.ne_of_gt hpos
  · have hfull : k = m := hl.ends.resolve_right hsep
    rw [cut_of_not_sep hsep, Nat.add_mod, hstretch, hfull, Nat.mod_eq_of_lt (by omega : 1 < m + 1),
      Nat.mod_self]

/-- **No cut lies inside of a line.** -/
theorem Line.not_cut {q : ℕ} (hlo : p < q) (hhi : q < p + a + k + 1) : ¬ Cut sep m q := by
  have hfits := hl.fits
  rcases Nat.lt_or_ge (p + a) q with hbyte | hskip
  · obtain ⟨i, rfl⟩ := Nat.exists_eq_add_of_lt hbyte
    have hstretch := hp.stretch_line (k := i) hl.skipped (fun j hj => hl.bytes j (by omega)) (by omega)
    rw [cut_of_not_sep (hl.bytes i (by omega)), Nat.add_mod, hstretch,
      Nat.mod_eq_of_lt (by omega : 1 < m + 1), Nat.mod_eq_of_lt (by omega)]
    exact Nat.succ_ne_zero i
  · obtain ⟨b, rfl⟩ := Nat.exists_eq_add_of_lt hlo
    exact hp.not_cut_skip (a := b + 1) (fun i hi => hl.skipped i (by omega)) (Nat.succ_pos b)

end Line

end LineCuts
