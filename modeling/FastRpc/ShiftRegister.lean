import Mathlib.Data.Nat.Notation
import Mathlib.Data.List.GetD

/-! # A linear feedback shift register

A register of `w` bits moves to the left; the bit that leaves it decides whether the polynomial is added.
The message enters one bit at a time at the high end, the most significant bit of each word first, and
the checksum of a message is what it leaves in an empty register.

One step is linear over `xor` (`step_xor`), so a whole word can enter at once (`feed_word`), and the steps
that follow depend on the high bits of the register alone (`steps_word`).  This is the step of a program
that looks the high word up in a table.  The checksum of a concatenation is made of the checksums of its
parts (`crc_append`). -/

namespace ShiftRegister

variable {w : ℕ} (poly : BitVec w)

/-- The polynomial, or nothing. -/
def term (b : Bool) : BitVec w := if b then poly else 0#w

/-- One step: the register moves to the left, and the bit that leaves it adds the polynomial. -/
def step (x : BitVec w) : BitVec w := (x <<< 1) ^^^ term poly x.msb

/-- `n` steps. -/
def steps : ℕ → BitVec w → BitVec w
  | 0, x => x
  | n + 1, x => steps n (step poly x)

/-- One bit of the message enters at the high end. -/
def feedBit (x : BitVec w) (b : Bool) : BitVec w :=
  (x <<< 1) ^^^ term poly (x.msb ^^ b)

/-- The bits of a message enter one by one. -/
def feed (x : BitVec w) (bits : List Bool) : BitVec w := bits.foldl (feedBit poly) x

/-- What a message leaves in an empty register. -/
def crc (bits : List Bool) : BitVec w := feed poly 0#w bits

/-- The bits of a word, the most significant one first. -/
def msbFirst {n : ℕ} (y : BitVec n) : List Bool := (List.range n).map y.getMsbD

variable {poly}

@[simp] theorem msbFirst_length {n : ℕ} (y : BitVec n) : (msbFirst y).length = n := by simp [msbFirst]

/-! ### Linearity -/

theorem term_xor (a b : Bool) : term poly (a ^^ b) = term poly a ^^^ term poly b := by
  cases a <;> cases b <;> simp [term]

theorem step_xor (x y : BitVec w) : step poly (x ^^^ y) = step poly x ^^^ step poly y := by
  unfold step
  rw [BitVec.shiftLeft_xor_distrib, BitVec.msb_xor, term_xor]
  ac_rfl

theorem steps_xor (n : ℕ) (x y : BitVec w) :
    steps poly n (x ^^^ y) = steps poly n x ^^^ steps poly n y := by
  induction n generalizing x y with
  | zero => rfl
  | succ n ih =>
      simp only [steps]
      rw [step_xor, ih]

/-- A register whose high bit is clear only moves. -/
theorem step_of_clear {x : BitVec w} (h : x.msb = false) : step poly x = x <<< 1 := by
  simp [step, term, h]

/-- A register whose `n` high bits are clear only moves in `n` steps. -/
theorem steps_of_clear {n : ℕ} {x : BitVec w} (h : ∀ i < n, x.getMsbD i = false) :
    steps poly n x = x <<< n := by
  induction n generalizing x with
  | zero => simp [steps]
  | succ n ih =>
      have hmsb : x.msb = false := x.msb_eq_getMsbD_zero.trans (h 0 (Nat.succ_pos n))
      have hrest : ∀ i < n, (x <<< 1).getMsbD i = false := by
        intro i hi
        rw [BitVec.getMsbD_shiftLeft]
        exact h (i + 1) (Nat.succ_lt_succ hi)
      rw [steps, step_of_clear hmsb, ih hrest, Nat.add_comm, BitVec.shiftLeft_add]

/-! ### Whole words -/

/-- A bit at the high end. -/
def top (w : ℕ) (b : Bool) : BitVec w := if b then BitVec.twoPow w (w - 1) else 0#w

/-- Bits from the high end on. -/
def high : List Bool → BitVec w
  | [] => 0#w
  | b :: bits => top w b ^^^ (high bits >>> 1)

theorem getMsbD_top (b : Bool) {i : ℕ} (hi : i < w) : (top w b).getMsbD i = (b && decide (i = 0)) := by
  unfold top
  cases b with
  | false => simp
  | true =>
      rw [if_pos rfl, BitVec.getMsbD_twoPow]
      grind

theorem getMsbD_high (bits : List Bool) {i : ℕ} (hi : i < w) :
    (high bits : BitVec w).getMsbD i = bits.getD i false := by
  induction bits generalizing i with
  | nil => simp [high]
  | cons b bits ih =>
      rw [high, BitVec.getMsbD_xor, getMsbD_top b hi, BitVec.getMsbD_ushiftRight]
      cases i with
      | zero => simp
      | succ i => simp [hi, ih (Nat.lt_of_succ_lt hi)]

/-- The bit at the high end leaves in one step. -/
theorem step_top (hw : 0 < w) (b : Bool) : step poly (top w b) = term poly b := by
  have hmsb : (top w b).msb = b := by
    rw [BitVec.msb_eq_getMsbD_zero, getMsbD_top b hw]
    simp
  have hgone : top w b <<< 1 = 0#w := by
    apply BitVec.eq_of_getMsbD_eq
    intro i hi
    rw [BitVec.getMsbD_shiftLeft]
    rcases Nat.lt_or_ge (i + 1) w with hlt | hge
    · simp [getMsbD_top b hlt]
    · simp [BitVec.getMsbD_of_ge _ _ hge]
  rw [step, hgone, hmsb, BitVec.zero_xor]

/-- A bit enters as if it had been added at the high end before the step. -/
theorem feedBit_eq_step (hw : 0 < w) (x : BitVec w) (b : Bool) :
    feedBit poly x b = step poly (x ^^^ top w b) := by
  rw [step_xor, step_top hw, feedBit, step, term_xor, BitVec.xor_assoc]

/-- Bits with room behind them move up in one step. -/
theorem step_high {bits : List Bool} (h : bits.length < w) :
    step poly (high bits >>> 1) = (high bits : BitVec w) := by
  have hmsb : ((high bits : BitVec w) >>> 1).msb = false := by simp
  rw [step_of_clear hmsb]
  apply BitVec.eq_of_getMsbD_eq
  intro i hi
  rw [BitVec.getMsbD_shiftLeft, BitVec.getMsbD_ushiftRight]
  rcases Nat.lt_or_ge (i + 1) w with hlt | hge
  · simp [hlt]
  · rw [getMsbD_high bits hi, List.getD_eq_default _ _ (by omega)]
    simp [Nat.not_lt.mpr hge]

/-- **A message that fits into the register** can be added at the high end at once. -/
theorem feed_eq_steps {bits : List Bool} (h : bits.length ≤ w) (x : BitVec w) :
    feed poly x bits = steps poly bits.length (x ^^^ high bits) := by
  induction bits generalizing x with
  | nil => simp [feed, steps, high]
  | cons b bits ih =>
      have hroom : bits.length < w := h
      have hone : feedBit poly x b ^^^ high bits = step poly (x ^^^ high (b :: bits)) := by
        rw [high, ← BitVec.xor_assoc, step_xor, ← feedBit_eq_step (by omega), step_high hroom]
      calc feed poly x (b :: bits)
          = feed poly (feedBit poly x b) bits := rfl
        _ = steps poly bits.length (feedBit poly x b ^^^ high bits) := ih (Nat.le_of_lt hroom) _
        _ = steps poly (b :: bits).length (x ^^^ high (b :: bits)) := by rw [hone, List.length_cons, steps]

theorem high_msbFirst {n : ℕ} (h : n ≤ w) (y : BitVec n) :
    high (msbFirst y) = y.setWidth w <<< (w - n) := by
  apply BitVec.eq_of_getMsbD_eq
  intro i hi
  rw [getMsbD_high _ hi, BitVec.getMsbD_shiftLeft, BitVec.getMsbD_setWidth, msbFirst]
  have hplace : i + (w - n) + n - w = i := by omega
  rw [hplace]
  rcases Nat.lt_or_ge i n with hlt | hge
  · simp [hlt]
  · simp [hge]

/-- **A word enters at once.** -/
theorem feed_word {n : ℕ} (h : n ≤ w) (x : BitVec w) (y : BitVec n) :
    feed poly x (msbFirst y) = steps poly n (x ^^^ (y.setWidth w <<< (w - n))) := by
  rw [feed_eq_steps (by rwa [msbFirst_length]), msbFirst_length, high_msbFirst h]

/-- The `n` high bits of a register, in place. -/
theorem getMsbD_shift_back {n i : ℕ} (h : n ≤ w) (x : BitVec w) :
    (x >>> (w - n) <<< (w - n)).getMsbD i = (decide (i < n) && x.getMsbD i) := by
  rw [BitVec.getMsbD_shiftLeft, BitVec.getMsbD_ushiftRight, Nat.add_sub_cancel]
  have hin : i + (w - n) < w ↔ i < n := by omega
  have hpast : ¬ i + (w - n) < w - n := by omega
  simp [hin, hpast]

/-- **The table step**: the low bits move up, and the high word decides what is added. -/
theorem steps_word {n : ℕ} (h : n ≤ w) (x : BitVec w) (y : BitVec n) :
    steps poly n (x ^^^ (y.setWidth w <<< (w - n))) =
      (x <<< n) ^^^ steps poly n ((x >>> (w - n) ^^^ y.setWidth w) <<< (w - n)) := by
  have hclear : ∀ i < n, (x ^^^ x >>> (w - n) <<< (w - n)).getMsbD i = false := by
    intro i hi
    simp [BitVec.getMsbD_xor, getMsbD_shift_back h, hi]
  have hgone : x >>> (w - n) <<< (w - n) <<< n = 0#w := by
    rw [← BitVec.shiftLeft_add, Nat.sub_add_cancel h, BitVec.shiftLeft_eq_zero (Nat.le_refl w)]
  have hsplit : x ^^^ (y.setWidth w <<< (w - n)) = (x ^^^ x >>> (w - n) <<< (w - n)) ^^^
      (x >>> (w - n) <<< (w - n) ^^^ y.setWidth w <<< (w - n)) := by
    rw [BitVec.xor_assoc, ← BitVec.xor_assoc (x >>> (w - n) <<< (w - n)), BitVec.xor_self, BitVec.zero_xor]
  rw [hsplit, steps_xor, steps_of_clear hclear, BitVec.shiftLeft_xor_distrib, hgone, BitVec.xor_zero,
    BitVec.shiftLeft_xor_distrib]

/-! ### Concatenation -/

@[simp] theorem feed_append (x : BitVec w) (as bs : List Bool) :
    feed poly x (as ++ bs) = feed poly (feed poly x as) bs := List.foldl_append

/-- What the register holds before a message is added to what the message leaves. -/
theorem feed_xor (x y : BitVec w) (bits : List Bool) :
    feed poly (x ^^^ y) bits = steps poly bits.length x ^^^ feed poly y bits := by
  induction bits generalizing x y with
  | nil => rfl
  | cons b bits ih =>
      have hone : feedBit poly (x ^^^ y) b = step poly x ^^^ feedBit poly y b := by
        unfold feedBit step
        rw [BitVec.shiftLeft_xor_distrib, BitVec.msb_xor, Bool.xor_assoc, term_xor]
        ac_rfl
      calc feed poly (x ^^^ y) (b :: bits)
          = feed poly (step poly x ^^^ feedBit poly y b) bits := by rw [← hone]; rfl
        _ = steps poly bits.length (step poly x) ^^^ feed poly (feedBit poly y b) bits := ih _ _

/-- **The checksum of a concatenation.** -/
theorem crc_append (as bs : List Bool) :
    crc poly (as ++ bs) = steps poly bs.length (crc poly as) ^^^ crc poly bs := by
  unfold crc
  rw [feed_append, ← feed_xor, BitVec.xor_zero]

end ShiftRegister
