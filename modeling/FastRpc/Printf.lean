import FastRpc.CInt
import Mathlib.Data.List.TakeWhile
import Mathlib.Data.Nat.Digits.Defs
import Mathlib.Tactic.SplitIfs

/-! # Formatted text

A text is a list of bytes.  `decimal` is what `%d` prints, and `cstr` is what `%s` prints of a buffer:
the bytes before the first NUL.  `snprintf n text` is what a buffer of `n` bytes gets of a text: as much
as fits with a NUL behind it; the value returned, `printedLength`, is the length of the whole text.  A
text printed into a buffer and read back is the same exactly when it fits and has no NUL
(`cstr_snprintf_eq_iff`), and the same holds when a part of it went through such a buffer before
(`cstr_snprintf_append_eq_iff`). -/

namespace Printf

open CInt

/-- A text. -/
abbrev Text := List UInt8

/-- The bytes of a literal. -/
def ascii (s : String) : Text := s.toList.map (fun c => UInt8.ofNat c.toNat)

/-- `%d` and `%llu`. -/
def decimal (z : ℤ) : Text :=
  (if z < 0 then [0x2D] else []) ++ (Nat.toDigits 10 z.natAbs).map (fun c => UInt8.ofNat c.toNat)

/-- `%s` of a buffer. -/
def cstr (buf : Text) : Text := buf.takeWhile (· ≠ 0)

/-- What `snprintf` writes to a buffer of `n` bytes. -/
def snprintf (n : ℕ) (text : Text) : Text := if n = 0 then [] else text.take (n - 1) ++ [0]

/-- What it returns: a text that is too long for an `int` is an error. -/
def printedLength (text : Text) : ℤ := if (text.length : ℤ) ≤ intMax then text.length else -1

/-! ### Numbers -/

theorem decimal_length {z : ℤ} {k : ℕ} (hk : 0 < k) (hz : z.natAbs < 10 ^ k) : (decimal z).length ≤ k + 1 := by
  have hdigits := Nat.toDigits_length 10 z.natAbs k hk hz
  rw [decimal, List.length_append, List.length_map]
  split_ifs
  · rw [List.length_singleton]
    omega
  · rw [List.length_nil]
    omega

/-- A number that is not negative has no sign. -/
theorem decimal_length_nat {n k : ℕ} (hk : 0 < k) (hn : n < 10 ^ k) : (decimal n).length ≤ k := by
  have hdigits := Nat.toDigits_length 10 n k hk hn
  rwa [decimal, if_neg (by omega), List.nil_append, List.length_map, Int.natAbs_natCast]

theorem zero_not_mem_decimal (z : ℤ) : 0 ∉ decimal z := by
  have hdigits : ∀ c ∈ Nat.toDigits 10 z.natAbs, UInt8.ofNat c.toNat ≠ 0 := by
    intro c hc
    have hdigit := Nat.isDigit_of_mem_toDigits (by decide) (by decide) hc
    simp only [Char.isDigit, ge_iff_le, Bool.and_eq_true, decide_eq_true_eq, UInt32.le_iff_toNat_le] at hdigit
    have hlo : 48 ≤ c.toNat := hdigit.1
    have hhi : c.toNat ≤ 57 := hdigit.2
    intro h0
    have := congrArg UInt8.toNat h0
    simp only [UInt8.toNat_ofNat', UInt8.toNat_zero] at this
    omega
  rw [decimal, List.mem_append, not_or, List.mem_map]
  refine ⟨?_, fun h => ?_⟩
  · split_ifs <;> decide
  · obtain ⟨c, hc, h0⟩ := h
    exact hdigits c hc h0

/-! ### Strings in buffers -/

theorem zero_not_mem_cstr (buf : Text) : 0 ∉ cstr buf := by
  intro h
  simpa using List.mem_takeWhile_imp h

theorem snprintf_length_le (n : ℕ) (text : Text) : (snprintf n text).length ≤ n := by
  unfold snprintf
  split_ifs with hn
  · exact Nat.zero_le _
  · rw [List.length_append, List.length_take, List.length_singleton]
    omega

/-- A text that fits is written whole. -/
theorem snprintf_whole {n : ℕ} {text : Text} (h : text.length < n) : snprintf n text = text ++ [0] := by
  rw [snprintf, if_neg (by omega), List.take_of_length_le (by omega)]

theorem cstr_terminated {text : Text} (h : 0 ∉ text) : cstr (text ++ [0]) = text := by
  have hall : ∀ b ∈ text, decide (b ≠ 0) = true := fun b hb =>
    decide_eq_true (fun h0 => h (h0 ▸ hb))
  rw [cstr, List.takeWhile_append_of_pos hall]
  simp

/-- What is read back is shorter than the buffer. -/
theorem cstr_snprintf_length_lt {n : ℕ} (hn : n ≠ 0) (text : Text) : (cstr (snprintf n text)).length < n := by
  rw [snprintf, if_neg hn]
  have hstop : cstr (text.take (n - 1) ++ [0]) <+: text.take (n - 1) := by
    unfold cstr
    rw [List.takeWhile_append]
    split_ifs
    · simp
    · exact List.takeWhile_prefix _
  have := hstop.length_le
  rw [List.length_take] at this
  omega

/-- **Through one buffer.** -/
theorem cstr_snprintf_eq_iff {n : ℕ} (hn : n ≠ 0) {text : Text} :
    cstr (snprintf n text) = text ↔ text.length < n ∧ 0 ∉ text := by
  constructor
  · intro h
    have hlen := cstr_snprintf_length_lt hn text
    have hzero := zero_not_mem_cstr (snprintf n text)
    rw [h] at hlen hzero
    exact ⟨hlen, hzero⟩
  · rintro ⟨hlen, hzero⟩
    rw [snprintf_whole hlen, cstr_terminated hzero]

/-- **Through two buffers**, the second with a text in front. -/
theorem cstr_snprintf_append_eq_iff {n : ℕ} (hn : n ≠ 0) {front text : Text} :
    cstr (snprintf n (front ++ cstr (snprintf n text))) = front ++ text ↔
      (front ++ text).length < n ∧ 0 ∉ front ++ text := by
  constructor
  · intro h
    have hlen := cstr_snprintf_length_lt hn (front ++ cstr (snprintf n text))
    have hzero := zero_not_mem_cstr (snprintf n (front ++ cstr (snprintf n text)))
    rw [h] at hlen hzero
    exact ⟨hlen, hzero⟩
  · rintro ⟨hlen, hzero⟩
    have htext : cstr (snprintf n text) = text := by
      rw [cstr_snprintf_eq_iff hn]
      rw [List.length_append] at hlen
      exact ⟨by omega, fun h => hzero (List.mem_append_right _ h)⟩
    rw [htext, cstr_snprintf_eq_iff hn]
    exact ⟨hlen, hzero⟩

/-! ### The value returned -/

theorem neg_one_le_printedLength (text : Text) : -1 ≤ printedLength text := by
  unfold printedLength
  split_ifs <;> omega

theorem printedLength_le (text : Text) : printedLength text ≤ intMax := by
  unfold printedLength
  split_ifs with h
  · exact h
  · norm_num

theorem printedLength_of_le {text : Text} (h : (text.length : ℤ) ≤ intMax) : printedLength text = text.length :=
  if_pos h

/-- A length below a buffer's is that of the text. -/
theorem printedLength_pos {text : Text} (h : 0 < printedLength text) : printedLength text = text.length := by
  unfold printedLength at h ⊢
  split_ifs at h ⊢ with hle
  · rfl
  · omega

end Printf
