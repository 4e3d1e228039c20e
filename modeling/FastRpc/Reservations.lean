import Mathlib.Data.Fintype.Card
import Mathlib.Data.Finset.Card

/-! # Slots that are counted before they are taken

A table has a slot for each element of a finite type `κ`, and a counter that bounds its use.  A user
counts itself first, takes a free slot later, gives the slot back and takes itself off the counter
last.  So the counter is the number of occupied slots and of the users that are counted and have none
(`pending`), and a user that is counted always finds a slot (`Balanced.exists_free`). -/

namespace Reservations

variable {κ : Type*} [Fintype κ]

/-- `num` counts the occupied slots and the pending users, and is at most the number of slots. -/
structure Balanced (num : ℕ) (occupied : Finset κ) (pending : ℕ) : Prop where
  num_eq : num = occupied.card + pending
  num_le : num ≤ Fintype.card κ

variable {num pending : ℕ} {occupied : Finset κ} {k : κ}

theorem balanced_zero : Balanced 0 (∅ : Finset κ) 0 := ⟨rfl, Nat.zero_le _⟩

theorem Balanced.card_le (h : Balanced num occupied pending) : occupied.card ≤ num := by
  rw [h.num_eq]
  exact Nat.le_add_right _ _

/-- **A user that is counted finds a slot.** -/
theorem Balanced.exists_free (h : Balanced num occupied (pending + 1)) : ∃ k, k ∉ occupied := by
  by_contra hfull
  push Not at hfull
  have hcard : occupied.card = Fintype.card κ :=
    (Finset.card_eq_iff_eq_univ occupied).mpr (Finset.eq_univ_iff_forall.mpr hfull)
  have hle := h.num_le
  rw [h.num_eq] at hle
  omega

theorem Balanced.count (h : Balanced num occupied pending) (hlt : num < Fintype.card κ) :
    Balanced (num + 1) occupied (pending + 1) :=
  ⟨by rw [h.num_eq, Nat.add_assoc], hlt⟩

theorem Balanced.uncount (h : Balanced num occupied (pending + 1)) :
    Balanced (num - 1) occupied pending := by
  obtain ⟨hnum, hle⟩ := h
  exact ⟨by omega, by omega⟩

/-- When the counter is `0` no slot is occupied and no user is pending. -/
theorem Balanced.of_zero (h : Balanced 0 occupied pending) : occupied = ∅ ∧ pending = 0 := by
  obtain ⟨hnum, _⟩ := h
  exact ⟨Finset.card_eq_zero.mp (by omega), by omega⟩

variable [DecidableEq κ]

theorem Balanced.take (h : Balanced num occupied (pending + 1)) (hk : k ∉ occupied) :
    Balanced num (insert k occupied) pending := by
  refine ⟨?_, h.num_le⟩
  rw [Finset.card_insert_of_notMem hk, h.num_eq]
  omega

theorem Balanced.giveBack (h : Balanced num occupied pending) (hk : k ∈ occupied) :
    Balanced num (occupied.erase k) (pending + 1) := by
  refine ⟨?_, h.num_le⟩
  have hcard := Finset.card_erase_add_one hk
  rw [h.num_eq]
  omega

end Reservations
