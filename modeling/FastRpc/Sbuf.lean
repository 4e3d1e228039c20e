import FastRpc.Basic
import FastRpc.WindowedStream

/-! # `struct sbuf`

The serialisation buffer of `inc/sbuf.h`: four addresses, of which `bufCur` may lie outside the
valid memory.  `uintptr_t` values are natural numbers below `2 ^ 64` with wrapping arithmetic
(`u64`), `int` values are integers, converted by `cInt` where the source stores a wider value in an
`int`.  The source of a write and the destination of a read are other objects than the valid memory
and are given by their bytes.

For a window of a stream whose addresses do not wrap (`Addressable`) the operations are the
ones of `WindowedStream`: a write puts its bytes at the current position (`sbufWrite_eq`), a read
gets them from there (`sbufRead_eq`), and `sbuf_needed` is the position (`sbufNeeded_eq`), whatever
the window. -/

namespace FastRpc

open ByteStore WindowedStream

/-! ### Machine integers -/

/-- Conversion to `int`. -/
def cInt (n : ℤ) : ℤ := (n + 2 ^ 31) % 2 ^ 32 - 2 ^ 31

/-- Conversion to `uint32_t`. -/
def u32 (n : ℤ) : ℕ := (n % 2 ^ 32).toNat

/-- Conversion to `uintptr_t`. -/
def u64 (n : ℤ) : ℕ := (n % 2 ^ 64).toNat

theorem cInt_of_range {n : ℤ} (h : -2 ^ 31 ≤ n) (h' : n < 2 ^ 31) : cInt n = n := by
  unfold cInt
  omega

/-- `_SBUF_ALIGN(x, y)` on `uint32_t`: `(x + (y - 1)) & ~(y - 1)`. -/
def sbufAlignUp (x y : ℕ) : ℕ :=
  u32 ((x : ℤ) + (u32 ((y : ℤ) - 1))) &&& (2 ^ 32 - 1 - u32 ((y : ℤ) - 1))

/-- Clearing the low bits. -/
theorem and_high_bits {a k : ℕ} (ha : a < 2 ^ 32) (hk : k ≤ 32) :
    a &&& (2 ^ 32 - 2 ^ k) = a / 2 ^ k * 2 ^ k := by
  have hmask : 2 ^ 32 - 2 ^ k = (2 ^ (32 - k) - 1) <<< k := by
    rw [Nat.shiftLeft_eq, Nat.sub_mul, ← Nat.pow_add, Nat.sub_add_cancel hk, Nat.one_mul]
  rw [hmask, ← Nat.shiftRight_eq_div_pow, ← Nat.shiftLeft_eq]
  apply Nat.eq_of_testBit_eq
  intro i
  rw [Nat.testBit_and, Nat.testBit_shiftLeft, Nat.testBit_shiftLeft, Nat.testBit_shiftRight,
    Nat.testBit_two_pow_sub_one]
  rcases Nat.lt_or_ge i k with hik | hik
  · simp [Nat.not_le.mpr hik]
  · rcases Nat.lt_or_ge i 32 with hi | hi
    · simp [hik, Nat.add_sub_cancel' hik, show i - k < 32 - k by omega]
    · have hbit : a.testBit i = false :=
        Nat.testBit_lt_two_pow (ha.trans_le (Nat.pow_le_pow_right (by omega) hi))
      simp [hik, Nat.add_sub_cancel' hik, hbit]

theorem sbufAlignUp_of_lt {x : ℕ} (hx : x + 7 < 2 ^ 32) : sbufAlignUp x 8 = alignUp 8 x := by
  have hmask : 2 ^ 32 - 1 - u32 ((8 : ℕ) - 1 : ℤ) = 2 ^ 32 - 2 ^ 3 := by decide
  have hsum : u32 ((x : ℤ) + (u32 ((8 : ℕ) - 1 : ℤ) : ℤ)) = x + 7 := by
    have h7 : u32 ((8 : ℕ) - 1 : ℤ) = 7 := by decide
    rw [h7, u32]
    omega
  rw [sbufAlignUp, hmask, hsum, and_high_bits hx (by omega), alignUp_eight]
  rfl

theorem sbufAlignUp_eight {x : ℕ} (hx : x < 2 ^ 31) : sbufAlignUp x 8 = alignUp 8 x :=
  sbufAlignUp_of_lt (by omega)

/-! ### Operations -/

/-- `struct sbuf`. -/
structure Sbuf where
  buf : ℕ
  bufEnd : ℕ
  bufStart : ℕ
  bufCur : ℕ
  deriving DecidableEq, Repr

/-- `sbuf_init`. -/
def sbufInit (offset : ℤ) (data : ℕ) (dataLen : ℤ) : Sbuf :=
  ⟨data, u64 (data + dataLen), u64 (data - offset), u64 (data - offset)⟩

/-- `sbuf_advance`. -/
def sbufAdvance (b : Sbuf) (len : ℤ) : Sbuf := { b with bufCur := u64 (b.bufCur + len) }

/-- `sbuf_needed`. -/
def sbufNeeded (b : Sbuf) : ℤ := cInt ((b.bufCur : ℤ) - b.bufStart)

/-- `sbuf_left`. -/
def sbufLeft (b : Sbuf) : ℤ := cInt ((b.bufEnd : ℤ) - b.bufCur)

/-- `sbuf_align`. -/
def sbufAlign (b : Sbuf) (align : ℕ) : Sbuf :=
  sbufAdvance b (cInt (u32 (sbufAlignUp (u32 (sbufNeeded b)) align - sbufNeeded b)))

/-- The part of `sbuf_write` and `sbuf_read` for a position before the valid memory: the number of
bytes to leave out, and the buffer behind them. -/
def sbufSkip (b : Sbuf) : ℤ × Sbuf :=
  if b.bufCur < b.buf then
    (cInt ((b.buf : ℤ) - b.bufCur), sbufAdvance b (cInt ((b.buf : ℤ) - b.bufCur)))
  else (0, b)

/-- `sbuf_write` of `srcLen` bytes from an object with the bytes `src`. -/
def sbufWrite (m : Store) (b : Sbuf) (src : List UInt8) (srcLen : ℤ) : Store × Sbuf :=
  if b.buf < u64 (b.bufCur + srcLen) then
    let len := (sbufSkip b).1
    let b' := (sbufSkip b).2
    let writeLen := min (srcLen - len) (sbufLeft b')
    let m' :=
      if 0 < writeLen then
        write m b'.bufCur
          ((src.drop len.toNat).take (min (u64 ((b'.bufEnd : ℤ) - b'.bufCur)) (u64 writeLen)))
      else m
    (m', sbufAdvance b' (srcLen - len))
  else (m, sbufAdvance b srcLen)

/-- `sbuf_read` of `dstLen` bytes into an object with the bytes `dst`: its new bytes. -/
def sbufRead (m : Store) (b : Sbuf) (dst : List UInt8) (dstLen : ℤ) : List UInt8 × Sbuf :=
  if b.buf < u64 (b.bufCur + dstLen) then
    let len := (sbufSkip b).1
    let b' := (sbufSkip b).2
    let readLen := min (dstLen - len) (sbufLeft b')
    let dst' :=
      if 0 < readLen then
        dst.take len.toNat ++ slice m b'.bufCur readLen.toNat ++
          dst.drop (len.toNat + readLen.toNat)
      else dst
    (dst', sbufAdvance b' (dstLen - len))
  else (dst, sbufAdvance b dstLen)

/-! ### Windows -/

/-- The addresses of the window do not wrap and its two numbers are `int`s. -/
structure Addressable (w : Window) : Prop where
  offset_lt : w.offset < 2 ^ 31
  len_lt : w.len < 2 ^ 31
  end_lt : w.data + w.len < 2 ^ 64

/-- Position `p` is an `int` and has an address. -/
def Reaches (w : Window) (p : ℕ) : Prop := p < 2 ^ 31 ∧ w.base + p < 2 ^ 64

/-- The buffer of a window at position `p`. -/
def windowSbuf (w : Window) (p : ℕ) : Sbuf := ⟨w.data, w.data + w.len, w.base, w.base + p⟩

section Windows

variable {w : Window} {m : Store} {p n : ℕ}

theorem Reaches.mono (h : Reaches w n) (hp : p ≤ n) : Reaches w p :=
  ⟨by have := h.1; omega, by have := h.2; omega⟩

theorem sbufInit_eq (hw : Addressable w) : sbufInit w.offset w.data w.len = windowSbuf w 0 := by
  have hbase := w.base_add_offset
  have hend := hw.end_lt
  have hcur : u64 ((w.data : ℤ) - w.offset) = w.base := by
    unfold u64
    omega
  have hlast : u64 ((w.data : ℤ) + w.len) = w.data + w.len := by
    unfold u64
    omega
  unfold sbufInit windowSbuf
  rw [hcur, hlast, Nat.add_zero]

theorem sbufAdvance_eq (h : Reaches w (p + n)) :
    sbufAdvance (windowSbuf w p) n = windowSbuf w (p + n) := by
  have hlt := h.2
  have hcur : u64 ((w.base + p : ℕ) + (n : ℤ)) = w.base + (p + n) := by
    unfold u64
    omega
  simp only [sbufAdvance, windowSbuf, hcur]

theorem sbufNeeded_eq (h : Reaches w p) : sbufNeeded (windowSbuf w p) = p := by
  have hlt := h.1
  simp only [sbufNeeded, windowSbuf, cInt]
  omega

theorem sbufAlign_eight (h : Reaches w (alignUp 8 p)) :
    sbufAlign (windowSbuf w p) 8 = windowSbuf w (alignUp 8 p) := by
  have hle := le_alignUp_eight p
  have hlt := alignUp_eight_lt p
  have hp : Reaches w p := h.mono hle
  have hu : u32 (p : ℤ) = p := by
    have := hp.1
    unfold u32
    omega
  have hpad : cInt (u32 ((alignUp 8 p : ℤ) - p)) = (alignUp 8 p - p : ℕ) := by
    unfold cInt u32
    omega
  unfold sbufAlign
  rw [sbufNeeded_eq hp, hu, sbufAlignUp_eight hp.1, hpad, sbufAdvance_eq]
  · rw [Nat.add_sub_cancel' hle]
  · rwa [Nat.add_sub_cancel' hle]

/-- Behind the start of the block, `sbuf_left` is the distance to its end. -/
theorem sbufLeft_eq (hw : Addressable w) (h : Reaches w p) (hp : w.offset ≤ p) :
    sbufLeft (windowSbuf w p) = (w.offset : ℤ) + w.len - p := by
  have hbase := w.base_add_offset
  have hlen := hw.len_lt
  have hlt := h.1
  have hoff := hw.offset_lt
  simp only [sbufLeft, windowSbuf]
  rw [cInt_of_range (by omega) (by omega)]
  omega

/-- The addresses that a write or a read of `n` bytes compares. -/
theorem u64_cur (h : Reaches w (p + n)) :
    u64 (((windowSbuf w p).bufCur : ℤ) + (n : ℤ)) = w.base + p + n := by
  have hlt := h.2
  simp only [windowSbuf, u64]
  omega

theorem sbufSkip_eq (hw : Addressable w) (h : Reaches w (max p w.offset)) :
    sbufSkip (windowSbuf w p) = (((w.offset - p : ℕ) : ℤ), windowSbuf w (max p w.offset)) := by
  have hbase := w.base_add_offset
  have hoff := hw.offset_lt
  unfold sbufSkip
  rcases Nat.lt_or_ge p w.offset with hp | hp
  · rw [max_eq_right hp.le] at h ⊢
    have hcur : (windowSbuf w p).bufCur < (windowSbuf w p).buf := by
      change w.base + p < w.data
      omega
    have hlen : cInt (((windowSbuf w p).buf : ℤ) - (windowSbuf w p).bufCur) =
        ((w.offset - p : ℕ) : ℤ) := by
      change cInt ((w.data : ℤ) - (w.base + p : ℕ)) = _
      unfold cInt
      omega
    rw [if_pos hcur, hlen, sbufAdvance_eq (h.mono (by omega)), Nat.add_sub_cancel' hp.le]
  · have hcur : ¬ (windowSbuf w p).bufCur < (windowSbuf w p).buf := by
      change ¬ w.base + p < w.data
      omega
    rw [if_neg hcur, max_eq_left hp, Nat.sub_eq_zero_of_le hp]
    rfl

/-- Behind the bytes left out, a write or a read moves to the end of its `n` bytes. -/
theorem sbufAdvance_skip (h : Reaches w (p + n)) (hn : w.offset ≤ p + n) :
    sbufAdvance (windowSbuf w (max p w.offset)) ((n : ℤ) - (w.offset - p : ℕ)) =
      windowSbuf w (p + n) := by
  have hsub : ((n : ℤ) - (w.offset - p : ℕ)) = (p + n - max p w.offset : ℕ) := by omega
  have hmax : max p w.offset + (p + n - max p w.offset) = p + n := by omega
  rw [hsub, sbufAdvance_eq (by rwa [hmax]), hmax]

theorem reaches_max (hw : Addressable w) (h : Reaches w p) : Reaches w (max p w.offset) := by
  rcases max_choice p w.offset with hmax | hmax
  · rwa [hmax]
  · rw [hmax]
    refine ⟨hw.offset_lt, ?_⟩
    rw [w.base_add_offset]
    exact (Nat.le_add_right _ _).trans_lt hw.end_lt

/-- The `int` length of the copy of a write or a read. -/
theorem clipLen_eq (hw : Addressable w) (h : Reaches w (p + n)) (hn : w.offset ≤ p + n) :
    min ((n : ℤ) - (w.offset - p : ℕ)) (sbufLeft (windowSbuf w (max p w.offset))) =
        (w.clipLen p n : ℤ) ∨
      min ((n : ℤ) - (w.offset - p : ℕ)) (sbufLeft (windowSbuf w (max p w.offset))) ≤ 0 ∧
        w.clipLen p n = 0 := by
  have hcur := reaches_max hw (h.mono (Nat.le_add_right p n))
  rw [sbufLeft_eq hw hcur (le_max_right _ _)]
  unfold Window.clipLen
  omega

/-- **A write** puts its bytes at the current position, as far as they fall into the block. -/
theorem sbufWrite_eq (hw : Addressable w) (src : List UInt8) (h : Reaches w (p + src.length)) :
    sbufWrite m (windowSbuf w p) src src.length =
      (w.put m p src, windowSbuf w (p + src.length)) := by
  have hbase := w.base_add_offset
  have hcur := reaches_max hw (h.mono (Nat.le_add_right p _))
  unfold sbufWrite
  rw [u64_cur h]
  by_cases hin : (windowSbuf w p).buf < w.base + p + src.length
  · have hoff : w.offset ≤ p + src.length := by
      change w.data < w.base + p + src.length at hin
      omega
    rw [if_pos hin]
    simp only [sbufSkip_eq hw hcur, sbufAdvance_skip h hoff, Int.toNat_natCast]
    refine Prod.ext ?_ rfl
    rw [Window.put_eq_write, Window.clip]
    obtain hlen | ⟨hle, hlen⟩ := clipLen_eq hw h hoff
    · simp only [hlen]
      have hend : u64 (((windowSbuf w (max p w.offset)).bufEnd : ℤ) -
          (windowSbuf w (max p w.offset)).bufCur) =
          w.offset + w.len - max p w.offset ∨ w.clipLen p src.length = 0 := by
        have hlt := hw.end_lt
        simp only [windowSbuf, u64]
        unfold Window.clipLen
        omega
      have hcopy : u64 (w.clipLen p src.length) = w.clipLen p src.length := by
        have hlt := h.1
        unfold u64 Window.clipLen
        omega
      split_ifs with hpos
      · obtain hend | hzero := hend
        · have hmin : min (w.offset + w.len - max p w.offset) (w.clipLen p src.length) =
              w.clipLen p src.length := by
            unfold Window.clipLen
            omega
          rw [hend, hcopy, hmin]
          rfl
        · omega
      · have hzero : w.clipLen p src.length = 0 := by omega
        rw [hzero, List.take_zero, write_nil]
    · rw [if_neg (not_lt.mpr hle), hlen, List.take_zero, write_nil]
  · have hout : ∀ x, ¬ w.Inside x ∨ x < w.base + p ∨ w.base + p + src.length ≤ x := by
      intro x
      change ¬ w.data < w.base + p + src.length at hin
      unfold Window.Inside
      omega
    rw [if_neg hin, sbufAdvance_eq h]
    refine Prod.ext ?_ rfl
    funext x
    exact (Window.put_outside (hout x)).symm

/-- **A read** gets the bytes at the current position, as far as they lie in the block. -/
theorem sbufRead_eq (hw : Addressable w) (dst : List UInt8) (h : Reaches w (p + dst.length)) :
    sbufRead m (windowSbuf w p) dst dst.length =
      (w.get m p dst, windowSbuf w (p + dst.length)) := by
  have hbase := w.base_add_offset
  have hcur := reaches_max hw (h.mono (Nat.le_add_right p _))
  unfold sbufRead
  rw [u64_cur h]
  by_cases hin : (windowSbuf w p).buf < w.base + p + dst.length
  · have hoff : w.offset ≤ p + dst.length := by
      change w.data < w.base + p + dst.length at hin
      omega
    rw [if_pos hin]
    simp only [sbufSkip_eq hw hcur, sbufAdvance_skip h hoff, Int.toNat_natCast]
    refine Prod.ext ?_ rfl
    rw [Window.get_eq_append]
    obtain hlen | ⟨hle, hlen⟩ := clipLen_eq hw h hoff
    · simp only [hlen, Int.toNat_natCast]
      split_ifs with hpos
      · rfl
      · have hzero : w.clipLen p dst.length = 0 := by omega
        rw [hzero, slice_zero, List.append_nil, Nat.add_zero, List.take_append_drop]
    · rw [if_neg (not_lt.mpr hle), hlen, slice_zero, List.append_nil, Nat.add_zero,
        List.take_append_drop]
  · have hzero : w.clipLen p dst.length = 0 := by
      change ¬ w.data < w.base + p + dst.length at hin
      unfold Window.clipLen
      omega
    rw [if_neg hin, sbufAdvance_eq h, Window.get_eq_append, hzero, slice_zero, List.append_nil,
      Nat.add_zero, List.take_append_drop]

end Windows

end FastRpc
