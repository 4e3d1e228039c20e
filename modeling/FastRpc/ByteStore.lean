import Mathlib.Data.List.GetD
import Mathlib.Tactic.Ring
import Mathlib.Tactic.Linarith

/-! # A byte-addressed memory and little-endian words

`Store` is a memory with one byte at every natural-number address.  `slice m a n` reads `n`
consecutive bytes and `write m a bs` overwrites the bytes from `a` on with `bs`; a read is
unaffected by a write to a disjoint range (`slice_write_disjoint`) and depends only on the bytes
in its range (`slice_congr`).  `toLe n v` is the little-endian encoding of `v` on `n` bytes and
`ofLe` decodes it (`ofLe_toLe`).  `alignUp` rounds up to a multiple, as an allocator or a
serializer does. -/

namespace ByteStore

/-- Memory: one byte at every address. -/
abbrev Store := ℕ → UInt8

/-- The `n` bytes from address `a` on. -/
def slice (m : Store) (a n : ℕ) : List UInt8 := (List.range n).map (fun i => m (a + i))

/-- Overwrite the bytes from address `a` on with `bs`. -/
def write (m : Store) (a : ℕ) (bs : List UInt8) : Store :=
  fun x => if a ≤ x then bs.getD (x - a) (m x) else m x

@[simp] theorem slice_length (m : Store) (a n : ℕ) : (slice m a n).length = n := by simp [slice]

@[simp] theorem slice_zero (m : Store) (a : ℕ) : slice m a 0 = [] := rfl

theorem slice_getElem (m : Store) (a n i : ℕ) (h : i < (slice m a n).length) :
    (slice m a n)[i] = m (a + i) := by
  simp [slice]

/-- A read depends only on the bytes of its range. -/
theorem slice_congr {m m' : Store} {a n : ℕ} (h : ∀ x, a ≤ x → x < a + n → m' x = m x) :
    slice m' a n = slice m a n := by
  unfold slice
  apply List.map_congr_left
  intro i hi
  exact h (a + i) (by omega) (by simp at hi; omega)

theorem slice_append (m : Store) (a n k : ℕ) :
    slice m a (n + k) = slice m a n ++ slice m (a + n) k := by
  apply List.ext_getElem
  · simp
  · intro i h1 h2
    rw [slice_getElem]
    rcases Nat.lt_or_ge i n with hi | hi
    · rw [List.getElem_append_left (by simpa using hi), slice_getElem]
    · rw [List.getElem_append_right (by simpa using hi), slice_getElem]
      congr 1
      simp
      omega

theorem slice_take (m : Store) (a n k : ℕ) (h : k ≤ n) : (slice m a n).take k = slice m a k := by
  obtain ⟨j, rfl⟩ := Nat.exists_eq_add_of_le h
  rw [slice_append, List.take_left' (by simp)]

theorem slice_drop (m : Store) (a n k : ℕ) (h : k ≤ n) :
    (slice m a n).drop k = slice m (a + k) (n - k) := by
  obtain ⟨j, rfl⟩ := Nat.exists_eq_add_of_le h
  rw [slice_append, List.drop_left' (by simp)]
  congr 1
  omega

/-- The parts of a concatenation that has been read in one piece. -/
theorem slice_eq_append {m : Store} {a n : ℕ} {xs ys : List UInt8} (h : slice m a n = xs ++ ys) :
    slice m a xs.length = xs ∧ slice m (a + xs.length) ys.length = ys := by
  have hn : n = xs.length + ys.length := by rw [← slice_length m a n, h, List.length_append]
  rw [hn, slice_append] at h
  exact List.append_inj h (slice_length m a xs.length)

@[simp] theorem write_nil (m : Store) (a : ℕ) : write m a [] = m := by
  funext x
  simp [write]

/-- A byte outside the written range keeps its value. -/
theorem write_outside (m : Store) {a x : ℕ} (bs : List UInt8) (h : x < a ∨ a + bs.length ≤ x) :
    write m a bs x = m x := by
  unfold write
  split_ifs with hx
  · rw [List.getD_eq_default _ _ (by omega)]
  · rfl

/-- A byte inside the written range is the one written. -/
theorem write_inside (m : Store) {a i : ℕ} (bs : List UInt8) (h : i < bs.length) :
    write m a bs (a + i) = bs[i] := by
  unfold write
  rw [if_pos (by omega), Nat.add_sub_cancel_left, List.getD_eq_getElem _ _ h]

/-- Reading back exactly what was written. -/
@[simp] theorem slice_write_same (m : Store) (a : ℕ) (bs : List UInt8) :
    slice (write m a bs) a bs.length = bs := by
  apply List.ext_getElem
  · simp
  · intro i h1 h2
    rw [slice_getElem, write_inside m bs h2]

/-- A write does not change what is read from a disjoint range. -/
theorem slice_write_disjoint (m : Store) {a b n : ℕ} (bs : List UInt8)
    (h : a + n ≤ b ∨ b + bs.length ≤ a) : slice (write m b bs) a n = slice m a n := by
  apply slice_congr
  intro x h1 h2
  exact write_outside m bs (by omega)

/-- Two consecutive writes are one write of the concatenation. -/
theorem write_append (m : Store) (a : ℕ) (bs cs : List UInt8) :
    write (write m a bs) (a + bs.length) cs = write m a (bs ++ cs) := by
  funext x
  rcases Nat.lt_or_ge x a with hx | hx
  · rw [write_outside _ _ (by omega), write_outside _ _ (by omega), write_outside _ _ (by omega)]
  · obtain ⟨i, rfl⟩ := Nat.exists_eq_add_of_le hx
    rcases Nat.lt_or_ge i bs.length with hi | hi
    · rw [write_outside _ _ (by omega), write_inside _ _ hi,
        write_inside _ _ (by simp; omega), List.getElem_append_left hi]
    · rcases Nat.lt_or_ge i (bs.length + cs.length) with hj | hj
      · have e : a + i = a + bs.length + (i - bs.length) := by omega
        rw [write_inside m _ (by simpa using hj), List.getElem_append_right hi, e,
          write_inside _ _ (by omega)]
      · rw [write_outside _ _ (by omega), write_outside _ _ (by omega),
          write_outside _ _ (by simp; omega)]

/-! ### Little-endian words -/

/-- The `n`-byte little-endian encoding of `v` (its low `8 * n` bits). -/
def toLe : ℕ → ℕ → List UInt8
  | 0, _ => []
  | n + 1, v => UInt8.ofNat (v % 256) :: toLe n (v / 256)

/-- The value of a little-endian byte string. -/
def ofLe : List UInt8 → ℕ
  | [] => 0
  | b :: bs => b.toNat + 256 * ofLe bs

@[simp] theorem toLe_length (n v : ℕ) : (toLe n v).length = n := by
  induction n generalizing v with
  | zero => rfl
  | succ n ih => simp [toLe, ih]

theorem ofLe_toLe (n v : ℕ) : ofLe (toLe n v) = v % 256 ^ n := by
  induction n generalizing v with
  | zero => simp [toLe, ofLe, Nat.mod_one]
  | succ n ih =>
      have hb : (UInt8.ofNat (v % 256)).toNat = v % 256 := by simp
      rw [toLe, ofLe, ih, hb, Nat.pow_succ, Nat.mul_comm, Nat.mul_comm (256 ^ n) 256,
        Nat.mod_mul, Nat.mul_comm]

/-- Decoding inverts encoding for values that fit. -/
theorem ofLe_toLe_of_lt {n v : ℕ} (h : v < 256 ^ n) : ofLe (toLe n v) = v := by
  rw [ofLe_toLe, Nat.mod_eq_of_lt h]

/-! ### Alignment -/

/-- Round `n` up to a multiple of `k`. -/
def alignUp (k n : ℕ) : ℕ := (n + (k - 1)) / k * k

theorem alignUp_eight (n : ℕ) : alignUp 8 n = (n + 7) / 8 * 8 := rfl

theorem alignUp_eight_mod (n : ℕ) : alignUp 8 n % 8 = 0 := by
  rw [alignUp_eight]; omega

theorem le_alignUp_eight (n : ℕ) : n ≤ alignUp 8 n := by
  rw [alignUp_eight]; omega

theorem alignUp_eight_lt (n : ℕ) : alignUp 8 n < n + 8 := by
  rw [alignUp_eight]; omega

/-- A multiple of `8` is at least `n` exactly when it is at least `n` rounded up. -/
theorem le_iff_alignUp_eight_le {a n : ℕ} (ha : a % 8 = 0) : n ≤ a ↔ alignUp 8 n ≤ a := by
  rw [alignUp_eight]; omega

end ByteStore
