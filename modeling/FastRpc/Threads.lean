import Mathlib.Data.Fintype.Card
import Mathlib.Data.Finset.Card
import Mathlib.Logic.Function.Basic

/-! # A table of threads

A concurrent system keeps one local state for every thread in a table `pc : ι → π`; a step of
thread `i` replaces its entry (`Function.update`), a broadcast maps all of them.  `count` is the
number of threads whose local state has a property, and its lemmas say how one step changes it. -/

namespace Threads

variable {ι π : Type*}

/-- What holds of the new entry and of all the others holds of the updated table. -/
theorem forall_update [DecidableEq ι] {P : ι → π → Prop} {pc : ι → π} {i : ι} {x : π}
    (hi : P i x) (hother : ∀ j, j ≠ i → P j (pc j)) (j : ι) : P j (Function.update pc i x j) := by
  rcases eq_or_ne j i with rfl | hne
  · rw [Function.update_self]; exact hi
  · rw [Function.update_of_ne hne]; exact hother j hne

variable [Fintype ι]

/-- The number of threads whose local state satisfies `p`. -/
def count (p : π → Bool) (pc : ι → π) : ℕ := (Finset.univ.filter (fun i => p (pc i) = true)).card

theorem count_le (p : π → Bool) (pc : ι → π) : count p pc ≤ Fintype.card ι :=
  Finset.card_le_univ _

theorem count_pos {p : π → Bool} (pc : ι → π) {i : ι} (h : p (pc i) = true) : 0 < count p pc :=
  Finset.card_pos.mpr ⟨i, Finset.mem_filter.mpr ⟨Finset.mem_univ i, h⟩⟩

theorem count_eq_zero {p : π → Bool} {pc : ι → π} :
    count p pc = 0 ↔ ∀ i, p (pc i) = false := by
  unfold count
  rw [Finset.card_eq_zero, Finset.filter_eq_empty_iff]
  simp

/-- A map that respects `p` does not change the count. -/
theorem count_map {p : π → Bool} {f : π → π} (h : ∀ x, p (f x) = p x) (pc : ι → π) :
    count p (fun i => f (pc i)) = count p pc := by
  simp only [count, h]

variable [DecidableEq ι]

/-- A step that respects `p` does not change the count. -/
theorem count_update_same {p : π → Bool} {pc : ι → π} {i : ι} {x : π} (h : p x = p (pc i)) :
    count p (Function.update pc i x) = count p pc := by
  unfold count
  congr 1
  apply Finset.filter_congr
  intro j _
  exact iff_of_eq (congrArg (· = true) (forall_update (P := fun j y => p y = p (pc j)) h
    (fun _ _ => rfl) j))

/-- A thread that comes to satisfy `p` is counted. -/
theorem count_update_enter {p : π → Bool} (pc : ι → π) {i : ι} {x : π} (h : p (pc i) = false)
    (hx : p x = true) : count p (Function.update pc i x) = count p pc + 1 := by
  unfold count
  have hset : Finset.univ.filter (fun j => p (Function.update pc i x j) = true) =
      insert i (Finset.univ.filter (fun j => p (pc j) = true)) := by
    ext j
    rcases eq_or_ne j i with rfl | hne
    · simp [hx]
    · simp [hne]
  rw [hset, Finset.card_insert_of_notMem (by simp [h])]

/-- A thread that no longer satisfies `p` is not counted any more. -/
theorem count_update_leave {p : π → Bool} (pc : ι → π) {i : ι} {x : π} (h : p (pc i) = true)
    (hx : p x = false) : count p (Function.update pc i x) + 1 = count p pc := by
  have hback := count_update_enter (p := p) (Function.update pc i x) (i := i) (x := pc i)
    (by rw [Function.update_self, hx]) h
  rw [Function.update_idem, Function.update_eq_self] at hback
  exact hback.symm

end Threads
