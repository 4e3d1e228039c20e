import FastRpc.CInt
import Mathlib.Algebra.BigOperators.Group.List.Basic

/-! # Taking back changes of a reference count

The owner of a resource counts itself: a count is at least `1`, and the last reference cannot be taken
away by a user (`Change.apply`).  Users that made some changes take them back from the first on, and go on
where a change is refused (`undoAll`).  This restores the count exactly when it stays positive and an `int`
at every point of the way back (`undoAll_eq_iff`): the point after the first `k` changes were taken back is
the count at the beginning plus all the later changes. -/

namespace RefCount

open CInt

/-- A change that a user asks for. -/
inductive Change
  | up
  | down
  | keep
  deriving DecidableEq, Repr

namespace Change

def delta : Change → ℤ
  | up => 1
  | down => -1
  | keep => 0

/-- The change that takes this one back. -/
def inverse : Change → Change
  | up => down
  | down => up
  | keep => keep

/-- The count after the change; a count that is not positive refuses every change, and a user cannot take
the last reference away. -/
def apply (c : ℤ) : Change → Option ℤ
  | up => if c ≤ 0 then none else some (wrap (c + 1))
  | down => if c ≤ 0 ∨ c = 1 then none else some (c - 1)
  | keep => if c ≤ 0 then none else some c

end Change

/-- The count after changes that are all accepted. -/
def doAll : ℤ → List Change → Option ℤ
  | c, [] => some c
  | c, x :: xs => (x.apply c).bind (fun c => doAll c xs)

/-- The count after the changes are taken back, from the first on. -/
def undoAll (c : ℤ) (xs : List Change) : ℤ := xs.foldl (fun c x => (x.inverse.apply c).getD c) c

/-- What the changes add up to. -/
def net (xs : List Change) : ℤ := (xs.map Change.delta).sum

/-- The way back stays positive and an `int`. -/
def Fits (c : ℤ) (xs : List Change) : Prop := ∀ t, t <:+ xs → 1 ≤ c + net t ∧ c + net t ≤ intMax

section Counts

variable {c c' : ℤ} {x : Change} {xs : List Change}

@[simp] theorem net_nil : net [] = 0 := rfl

@[simp] theorem net_cons (x : Change) (xs : List Change) : net (x :: xs) = x.delta + net xs := by
  simp [net]

theorem undoAll_cons (c : ℤ) (x : Change) (xs : List Change) :
    undoAll c (x :: xs) = undoAll ((x.inverse.apply c).getD c) xs := rfl

theorem Fits.tail (h : Fits c (x :: xs)) : Fits c xs :=
  fun t ht => h t (ht.trans (List.suffix_cons x xs))

theorem fits_cons : Fits c (x :: xs) ↔
    (1 ≤ c + net (x :: xs) ∧ c + net (x :: xs) ≤ intMax) ∧ Fits c xs := by
  refine ⟨fun h => ⟨h _ List.suffix_rfl, h.tail⟩, fun ⟨hall, h⟩ t ht => ?_⟩
  obtain rfl | ht := List.suffix_cons_iff.mp ht
  · exact hall
  · exact h t ht

theorem wrap_int (h0 : 0 ≤ c) (h : c ≤ intMax) : wrap c = c := wrap_of_inRange (inRange_of_nonneg h0 h)

theorem wrap_overflow : wrap (intMax + 1) = -2 ^ 31 := by decide

/-- A count that is not positive takes no change. -/
theorem apply_nonpos (h : c ≤ 0) (x : Change) : x.apply c = none := by
  cases x <;> simp [Change.apply, h]

theorem undoAll_nonpos (h : c ≤ 0) (xs : List Change) : undoAll c xs = c := by
  induction xs with
  | nil => rfl
  | cons x xs ih => rw [undoAll_cons, apply_nonpos h, Option.getD_none, ih]

theorem doAll_nonpos (h : c ≤ 0) (hall : doAll c xs = some c') : xs = [] ∧ c' = c := by
  cases xs with
  | nil => exact ⟨rfl, (Option.some.inj hall).symm⟩
  | cons x xs =>
      rw [doAll, apply_nonpos h] at hall
      cases hall

theorem apply_up (h : 0 < c) : Change.up.apply c = some (wrap (c + 1)) := if_neg (not_le.mpr h)

theorem apply_down (h : 1 < c) : Change.down.apply c = some (c - 1) := if_neg (by omega)

theorem apply_down_last (h : c = 1) : Change.down.apply c = none := if_pos (.inr h)

theorem apply_keep (h : 0 < c) : Change.keep.apply c = some c := if_neg (not_le.mpr h)

theorem delta_up : Change.up.delta = 1 := rfl

theorem delta_down : Change.down.delta = -1 := rfl

theorem delta_keep : Change.keep.delta = 0 := rfl

/-- A change that is accepted adds up, unless it leaves the `int`s. -/
theorem apply_eq_some (h : x.apply c = some c') (hc : c ≤ intMax) :
    1 ≤ c ∧ ((c' = c + x.delta ∧ 1 ≤ c' ∧ c' ≤ intMax) ∨ (c' = -2 ^ 31 ∧ c + x.delta = intMax + 1)) := by
  cases x with
  | up =>
      obtain ⟨hpos, rfl⟩ : 0 < c ∧ wrap (c + 1) = c' := by simpa [Change.apply] using h
      refine ⟨hpos, ?_⟩
      rcases hc.lt_or_eq with hlt | rfl
      · rw [wrap_int (by omega) (by omega)]
        exact .inl ⟨rfl, by omega, by omega⟩
      · exact .inr ⟨wrap_overflow, rfl⟩
  | down =>
      obtain ⟨⟨hpos, hone⟩, rfl⟩ : (0 < c ∧ ¬ c = 1) ∧ c - 1 = c' := by simpa [Change.apply] using h
      exact ⟨hpos, .inl ⟨rfl, by omega, by omega⟩⟩
  | keep =>
      obtain ⟨hpos, rfl⟩ : 0 < c ∧ c = c' := by simpa [Change.apply] using h
      exact ⟨hpos, .inl ⟨by simp [Change.delta], hpos, hc⟩⟩

/-- Changes that are all accepted add up, unless the last of them leaves the `int`s. -/
theorem doAll_eq_some (h : doAll c xs = some c') (hc : c ≤ intMax) :
    (c' = c + net xs ∧ c' ≤ intMax) ∨ (c' = -2 ^ 31 ∧ c + net xs = intMax + 1) := by
  induction xs generalizing c with
  | nil =>
      obtain rfl := Option.some.inj h
      exact .inl ⟨by simp, hc⟩
  | cons x xs ih =>
      obtain ⟨c₁, hx, hxs⟩ := Option.bind_eq_some_iff.mp h
      obtain ⟨_, ⟨rfl, _, hle⟩ | ⟨rfl, hover⟩⟩ := apply_eq_some hx hc
      · rw [net_cons, ← add_assoc]
        exact ih hxs hle
      · obtain ⟨rfl, rfl⟩ := doAll_nonpos (by norm_num) hxs
        exact .inr ⟨rfl, by simpa using hover⟩

/-- One step of a way back that fits. -/
theorem apply_inverse (hpos : 1 ≤ c) (hle : c ≤ intMax) (hpos' : 1 ≤ c + x.delta) :
    x.inverse.apply (c + x.delta) = some c := by
  cases x with
  | up =>
      rw [delta_up] at hpos' ⊢
      rw [Change.inverse, apply_down (by omega)]
      exact congrArg some (by omega)
  | down =>
      rw [delta_down] at hpos' ⊢
      rw [Change.inverse, apply_up (by omega), wrap_int (by omega) (by omega)]
      exact congrArg some (by omega)
  | keep =>
      rw [delta_keep, add_zero] at hpos' ⊢
      exact apply_keep (by omega)

theorem net_append (xs ys : List Change) : net (xs ++ ys) = net xs + net ys := by
  simp [net]

/-- A way back that fits, up to any point. -/
theorem undoAll_append_of_fits {ys : List Change} (h : Fits c (xs ++ ys)) :
    undoAll (c + net (xs ++ ys)) xs = c + net ys := by
  induction xs with
  | nil => rfl
  | cons x xs ih =>
      rw [List.cons_append] at h ⊢
      obtain ⟨⟨hpos, hle⟩, hrest⟩ := fits_cons.mp h
      obtain ⟨hpos', hle'⟩ := hrest _ List.suffix_rfl
      have hnet : c + net (x :: (xs ++ ys)) = c + net (xs ++ ys) + x.delta := by
        rw [net_cons]
        omega
      rw [hnet] at hpos ⊢
      rw [undoAll_cons, apply_inverse hpos' hle' hpos, Option.getD_some, ih hrest]

/-- Without a change the way back is the count itself. -/
theorem net_keep (h : ∀ x ∈ xs, x = .keep) : net xs = 0 := by
  induction xs with
  | nil => rfl
  | cons x xs ih =>
      obtain ⟨rfl, hxs⟩ := List.forall_mem_cons.mp h
      rw [net_cons, ih hxs, delta_keep, add_zero]

theorem fits_keep (hpos : 1 ≤ c) (hle : c ≤ intMax) (h : ∀ x ∈ xs, x = .keep) : Fits c xs := by
  intro t ht
  rw [net_keep fun x hx => h x (ht.subset hx), add_zero]
  exact ⟨hpos, hle⟩

/-- Where the way back fits, it leads back. -/
theorem undoAll_of_fits (h : Fits c xs) : undoAll (c + net xs) xs = c := by
  have hall : undoAll (c + net (xs ++ [])) xs = c + net [] :=
    undoAll_append_of_fits (by rwa [List.append_nil])
  rwa [List.append_nil, net_nil, add_zero] at hall

/-- From a count that is high enough, only the way back that fits leads back: a refusal leaves the count
too high for good. -/
theorem fits_of_undoAll {u : ℤ} (hc : 1 ≤ c) (hpos : 1 ≤ u) (hle : u ≤ intMax) (hu : c + net xs ≤ u)
    (h : undoAll u xs = c) : u = c + net xs ∧ Fits c xs := by
  induction xs generalizing u with
  | nil =>
      obtain rfl : u = c := h
      refine ⟨by simp, fun t ht => ?_⟩
      obtain rfl := List.suffix_nil.mp ht
      simp only [net_nil, add_zero]
      exact ⟨hpos, hle⟩
  | cons x xs ih =>
      rw [net_cons] at hu
      rw [fits_cons, net_cons]
      rw [undoAll_cons] at h
      cases x with
      | up =>
          rw [delta_up] at hu ⊢
          rw [Change.inverse] at h
          by_cases hone : u = 1
          · rw [apply_down_last hone, Option.getD_none] at h
            obtain ⟨heq, _⟩ := ih hpos hle (by omega) h
            omega
          · rw [apply_down (by omega), Option.getD_some] at h
            obtain ⟨heq, hfits⟩ := ih (by omega) (by omega) (by omega) h
            exact ⟨by omega, ⟨by omega, by omega⟩, hfits⟩
      | down =>
          rw [delta_down] at hu ⊢
          rw [Change.inverse, apply_up (by omega), Option.getD_some] at h
          rcases hle.lt_or_eq with hlt | rfl
          · rw [wrap_int (by omega) (by omega)] at h
            obtain ⟨heq, hfits⟩ := ih (by omega) (by omega) (by omega) h
            exact ⟨by omega, ⟨by omega, by omega⟩, hfits⟩
          · rw [wrap_overflow, undoAll_nonpos (by norm_num)] at h
            omega
      | keep =>
          rw [delta_keep] at hu ⊢
          rw [Change.inverse, apply_keep (by omega), Option.getD_some] at h
          obtain ⟨heq, hfits⟩ := ih hpos hle (by omega) h
          exact ⟨by omega, ⟨by omega, by omega⟩, hfits⟩

/-- **Taking changes back restores the count exactly when the way back fits.** -/
theorem undoAll_eq_iff (hc : 1 ≤ c) (hle : c ≤ intMax) (h : doAll c xs = some c') :
    undoAll c' xs = c ↔ Fits c xs := by
  obtain ⟨rfl, hle'⟩ | ⟨rfl, hover⟩ := doAll_eq_some h hle
  · refine ⟨fun hundo => ?_, undoAll_of_fits⟩
    by_cases hpos : 1 ≤ c + net xs
    · exact (fits_of_undoAll hc hpos hle' le_rfl hundo).2
    · rw [undoAll_nonpos (by omega)] at hundo
      omega
  · rw [undoAll_nonpos (by norm_num)]
    refine iff_of_false (by omega) fun hfits => ?_
    have hall := (hfits xs List.suffix_rfl).2
    omega

end Counts

end RefCount
