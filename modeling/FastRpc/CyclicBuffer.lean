import Mathlib.Logic.Function.Basic
import FastRpc.ByteStore

/-! # Bytes in a cyclic buffer

A stream of bytes lies in a buffer of `Q` bytes, the byte behind the last one at the beginning again.
`Holds m Q p bs` says that the bytes `bs` lie from position `p` on; positions count modulo `Q`.  A
writer appends one byte at a time behind the last one and disturbs none while the buffer is not full
(`Holds.push`), and a reader drops what it has read (`Holds.append`). -/

namespace CyclicBuffer

open ByteStore

/-- The bytes `bs` lie from `p` on in a cyclic buffer of `Q` bytes. -/
def Holds (m : Store) (Q p : ℕ) (bs : List UInt8) : Prop :=
  ∀ i b, bs[i]? = some b → m ((p + i) % Q) = b

/-- The position behind `p`. -/
def next (Q p : ℕ) : ℕ := if Q ≤ p + 1 then 0 else p + 1

variable {m : Store} {Q p n : ℕ} {bs cs : List UInt8} {b : UInt8}

theorem next_eq_mod (h : p < Q) : next Q p = (p + 1) % Q := by
  unfold next
  split_ifs with hend
  · rw [show p + 1 = Q by omega, Nat.mod_self]
  · rw [Nat.mod_eq_of_lt (by omega)]

theorem next_mod (h : 0 < Q) (p : ℕ) : next Q (p % Q) = (p + 1) % Q := by
  rw [next_eq_mod (Nat.mod_lt p h), Nat.mod_add_mod]

theorem holds_nil : Holds m Q p [] := fun _ _ h => nomatch h

/-- Positions count modulo the size of the buffer. -/
theorem holds_mod : Holds m Q (p % Q) bs ↔ Holds m Q p bs := by
  unfold Holds
  simp only [Nat.mod_add_mod]

theorem holds_append : Holds m Q p (bs ++ cs) ↔ Holds m Q p bs ∧ Holds m Q (p + bs.length) cs := by
  constructor
  · intro h
    refine ⟨fun i b hb => h i b ?_, fun i b hb => ?_⟩
    · rw [List.getElem?_append_left (List.getElem?_eq_some_iff.mp hb).1, hb]
    · rw [Nat.add_assoc]
      apply h
      rw [List.getElem?_append_right (Nat.le_add_right _ _), Nat.add_sub_cancel_left, hb]
  · rintro ⟨hbs, hcs⟩ i b hb
    rcases Nat.lt_or_ge i bs.length with hi | hi
    · rw [List.getElem?_append_left hi] at hb
      exact hbs i b hb
    · rw [List.getElem?_append_right hi] at hb
      have hread := hcs (i - bs.length) b hb
      rwa [show p + bs.length + (i - bs.length) = p + i by omega] at hread

theorem holds_singleton : Holds m Q p [b] ↔ m (p % Q) = b := by
  constructor
  · intro h
    exact h 0 b rfl
  · intro h i c hc
    cases i with
    | zero => exact (Option.some.inj hc) ▸ h
    | succ i => exact nomatch hc

/-- Two positions less than a whole round apart are different. -/
theorem mod_ne {i j : ℕ} (hij : i < j) (hj : j < i + Q) : (p + i) % Q ≠ (p + j) % Q := by
  intro heq
  have hzero := Nat.sub_mod_eq_zero_of_mod_eq heq.symm
  rw [Nat.mod_eq_of_lt (by omega)] at hzero
  omega

/-- **Appending a byte** to a buffer that is not full. -/
theorem Holds.push (h : Holds m Q p bs) (hroom : bs.length < Q) (b : UInt8) :
    Holds (Function.update m ((p + bs.length) % Q) b) Q p (bs ++ [b]) := by
  rw [holds_append, holds_singleton, Function.update_self]
  refine ⟨fun i c hc => ?_, rfl⟩
  have hi := (List.getElem?_eq_some_iff.mp hc).1
  rw [Function.update_of_ne (mod_ne hi (by omega))]
  exact h i c hc

end CyclicBuffer
