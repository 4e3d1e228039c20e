import FastRpc.CInt

/-! # Timeouts of the queue calls

`dspqueue_cpu.c` computes the end of a timeout with `timespec_add_us` and the time that is left with
`timespec_diff_us`.  A `time_t` and a `long` have 64 bits; `wrap64` is the conversion to them.

`timespec_add_us` carries only above `10 ^ 9` nanoseconds, so a sum of exactly `10 ^ 9` is left as it is.
`timespec_diff_us` divides the difference of the nanoseconds by itself, and a negative one is rounded
up. -/

namespace FastRpc.Timeouts

open CInt

/-- The `int64_t` with the low 64 bits of `z`. -/
def wrap64 (z : ℤ) : ℤ := Int.bmod z (2 ^ 64)

/-- The `uint64_t` with the low 64 bits of `z`. -/
def toU64 (z : ℤ) : ℤ := z % 2 ^ 64

/-- `UINT32_MAX`. -/
abbrev uint32Max : ℤ := 2 ^ 32 - 1

/-- `struct timespec`. -/
structure Timespec where
  tvSec : ℤ
  tvNsec : ℤ
  deriving DecidableEq, Repr

/-- `timespec_add_us`. -/
def timespecAddUs (ts : Timespec) (us : UInt32) : Timespec :=
  let ns := toU64 (toU64 ts.tvNsec + toU32 (1000 * ((us.toNat : ℤ) % 1000000)))
  if 1000000000 < ns then
    { tvNsec := wrap64 (ns - 1000000000), tvSec := wrap64 (ts.tvSec + ((us.toNat : ℤ) / 1000000 + 1)) }
  else { tvNsec := wrap64 ns, tvSec := wrap64 (ts.tvSec + (us.toNat : ℤ) / 1000000) }

/-- `timespec_diff_us`. -/
def timespecDiffUs (a b : Timespec) : ℤ :=
  let diffsec := wrap64 (a.tvSec - b.tvSec)
  let diffnsec := wrap64 (a.tvNsec - b.tvNsec)
  if diffsec < 0 ∨ (diffsec = 0 ∧ diffnsec < 0) then 0
  else if uint32Max < diffsec then uint32Max
  else
    let diffusec := wrap64 (wrap64 (diffsec * 1000000) + diffnsec.tdiv 1000)
    if uint32Max < diffusec then uint32Max else toU32 diffusec

/-- The time in nanoseconds. -/
def Timespec.nanoseconds (ts : Timespec) : ℤ := ts.tvSec * 1000000000 + ts.tvNsec

/-- A valid time: the nanoseconds are below one second. -/
def Timespec.Normalised (ts : Timespec) : Prop := 0 ≤ ts.tvNsec ∧ ts.tvNsec < 1000000000

instance (ts : Timespec) : Decidable ts.Normalised := inferInstanceAs (Decidable (_ ∧ _))

/-- The seconds are far from an overflow. -/
def Timespec.Far (ts : Timespec) : Prop := -2 ^ 62 < ts.tvSec ∧ ts.tvSec < 2 ^ 62

instance (ts : Timespec) : Decidable ts.Far := inferInstanceAs (Decidable (_ ∧ _))

/-- The difference in whole microseconds, clamped to the range of a `uint32_t`. -/
def wholeMicroseconds (a b : Timespec) : ℤ := max 0 (min uint32Max ((a.nanoseconds - b.nanoseconds) / 1000))

/-- A valid time `us` microseconds later. -/
def AddsExactly (ts : Timespec) (us : UInt32) : Prop :=
  (timespecAddUs ts us).Normalised ∧ (timespecAddUs ts us).nanoseconds = ts.nanoseconds + 1000 * us.toNat

/-- There is nothing to borrow, a borrow is a whole number of microseconds, or the clamp hides it. -/
def RoundsDown (a b : Timespec) : Prop :=
  b.tvNsec ≤ a.tvNsec ∨ 1000 ∣ a.tvNsec - b.tvNsec ∨ a.nanoseconds < b.nanoseconds ∨
    uint32Max ≤ (a.nanoseconds - b.nanoseconds) / 1000

instance (a b : Timespec) : Decidable (RoundsDown a b) :=
  inferInstanceAs (Decidable (_ ∨ _ ∨ _ ∨ _))

theorem wrap64_of_range {z : ℤ} (hlo : -2 ^ 63 ≤ z) (hhi : z < 2 ^ 63) : wrap64 z = z := by
  unfold wrap64 Int.bmod
  norm_num at *
  omega

/-- Truncation rounds a negative number up. -/
theorem tdiv_thousand (z : ℤ) : z.tdiv 1000 = if 0 ≤ z ∨ 1000 ∣ z then z / 1000 else z / 1000 + 1 := by
  rw [Int.tdiv_eq_ediv]
  split_ifs <;> simp

section Arithmetic

variable {ts a b : Timespec}

/-- What `timespec_add_us` computes. -/
theorem timespecAddUs_eq (hts : ts.Normalised) (hfar : ts.Far) (us : UInt32) :
    timespecAddUs ts us =
      if 1000000000 < ts.tvNsec + 1000 * ((us.toNat : ℤ) % 1000000) then
        ⟨ts.tvSec + ((us.toNat : ℤ) / 1000000 + 1),
          ts.tvNsec + 1000 * ((us.toNat : ℤ) % 1000000) - 1000000000⟩
      else ⟨ts.tvSec + (us.toNat : ℤ) / 1000000, ts.tvNsec + 1000 * ((us.toNat : ℤ) % 1000000)⟩ := by
  obtain ⟨hlo, hhi⟩ := hts
  obtain ⟨hslo, hshi⟩ := hfar
  have hus := us.toNat_lt
  have hns : toU64 (toU64 ts.tvNsec + toU32 (1000 * ((us.toNat : ℤ) % 1000000))) =
      ts.tvNsec + 1000 * ((us.toNat : ℤ) % 1000000) := by
    unfold toU64 toU32
    rw [Int.emod_eq_of_lt (a := 1000 * _) (by omega) (by omega), Int.emod_eq_of_lt hlo (by omega),
      Int.emod_eq_of_lt (by omega) (by omega)]
  unfold timespecAddUs
  dsimp only
  rw [hns]
  split_ifs with hcarry
  · rw [wrap64_of_range (by omega) (by omega), wrap64_of_range (by omega) (by omega)]
  · rw [wrap64_of_range (by omega) (by omega), wrap64_of_range (by omega) (by omega)]

/-- What `timespec_diff_us` computes. -/
theorem timespecDiffUs_eq (hlo : -2 ^ 63 ≤ a.tvSec - b.tvSec) (hhi : a.tvSec - b.tvSec < 2 ^ 63)
    (hnlo : -1000000000 ≤ a.tvNsec - b.tvNsec) (hnhi : a.tvNsec - b.tvNsec ≤ 1000000000) :
    timespecDiffUs a b =
      if a.tvSec - b.tvSec < 0 ∨ (a.tvSec - b.tvSec = 0 ∧ a.tvNsec - b.tvNsec < 0) then 0
      else min uint32Max ((a.tvSec - b.tvSec) * 1000000 + (a.tvNsec - b.tvNsec).tdiv 1000) := by
  have hmax : uint32Max = 4294967295 := by decide
  have hdiv := tdiv_thousand (a.tvNsec - b.tvNsec)
  unfold timespecDiffUs
  simp only [wrap64_of_range hlo hhi, wrap64_of_range (z := a.tvNsec - b.tvNsec) (by omega) (by omega)]
  by_cases hlt : a.tvSec - b.tvSec < 0 ∨ (a.tvSec - b.tvSec = 0 ∧ a.tvNsec - b.tvNsec < 0)
  · rw [if_pos hlt, if_pos hlt]
  rw [if_neg hlt, if_neg hlt]
  by_cases hsecs : uint32Max < a.tvSec - b.tvSec
  · rw [if_pos hsecs]
    split_ifs at hdiv <;> omega
  · have husecs : wrap64 (wrap64 ((a.tvSec - b.tvSec) * 1000000) + (a.tvNsec - b.tvNsec).tdiv 1000) =
        (a.tvSec - b.tvSec) * 1000000 + (a.tvNsec - b.tvNsec).tdiv 1000 := by
      rw [wrap64_of_range (z := _ * 1000000) (by omega) (by omega)]
      split_ifs at hdiv <;> exact wrap64_of_range (by omega) (by omega)
    rw [if_neg hsecs, husecs]
    split_ifs with hclamp
    · omega
    · have hpos : 0 ≤ (a.tvSec - b.tvSec) * 1000000 + (a.tvNsec - b.tvNsec).tdiv 1000 := by
        split_ifs at hdiv <;> omega
      unfold toU32
      rw [Int.emod_eq_of_lt hpos (by omega)]
      omega

/-- A sum is valid unless it is exactly one second of nanoseconds. -/
theorem addsExactly_iff (hts : ts.Normalised) (hfar : ts.Far) (us : UInt32) :
    AddsExactly ts us ↔ ts.tvNsec + 1000 * ((us.toNat : ℤ) % 1000000) ≠ 1000000000 := by
  have hus := us.toNat_lt
  unfold AddsExactly Timespec.Normalised Timespec.nanoseconds
  rw [timespecAddUs_eq hts hfar us]
  obtain ⟨hlo, hhi⟩ := hts
  split_ifs <;> dsimp only <;> omega

/-- Also an invalid sum is the right time later. -/
theorem diff_add (hts : ts.Normalised) (hfar : ts.Far) (us : UInt32) :
    timespecDiffUs (timespecAddUs ts us) ts = us.toNat := by
  have hus := us.toNat_lt
  have hmax : uint32Max = 4294967295 := by decide
  have hdiv := tdiv_thousand ((timespecAddUs ts us).tvNsec - ts.tvNsec)
  have hsum := timespecAddUs_eq hts hfar us
  obtain ⟨hlo, hhi⟩ := hts
  split_ifs at hsum with hcarry
  all_goals
    rw [hsum] at hdiv ⊢
    rw [timespecDiffUs_eq (by dsimp only; omega) (by dsimp only; omega) (by dsimp only; omega)
      (by dsimp only; omega)]
    dsimp only at hdiv ⊢
    split_ifs at hdiv ⊢ <;> omega

/-- A difference is cut to whole microseconds unless a borrow rounds it up. -/
theorem diff_exact_iff (ha : a.Normalised) (hafar : a.Far) (hb : b.Normalised) (hbfar : b.Far) :
    timespecDiffUs a b = wholeMicroseconds a b ↔ RoundsDown a b := by
  obtain ⟨halo, hahi⟩ := ha
  obtain ⟨hblo, hbhi⟩ := hb
  obtain ⟨haslo, hashi⟩ := hafar
  obtain ⟨hbslo, hbshi⟩ := hbfar
  rw [timespecDiffUs_eq (by omega) (by omega) (by omega) (by omega)]
  have hdiv := tdiv_thousand (a.tvNsec - b.tvNsec)
  have hmax : uint32Max = 4294967295 := by decide
  unfold wholeMicroseconds RoundsDown Timespec.nanoseconds
  rw [hmax]
  split_ifs at hdiv ⊢ <;> omega

/-- **When the timeout arithmetic is exact.** -/
theorem timeout_arithmetic (ts a b : Timespec) (us : UInt32) (hts : ts.Normalised) (htsfar : ts.Far)
    (ha : a.Normalised) (hafar : a.Far) (hb : b.Normalised) (hbfar : b.Far) :
    (AddsExactly ts us ∧ timespecDiffUs (timespecAddUs ts us) ts = us.toNat ∧
        timespecDiffUs a b = wholeMicroseconds a b) ↔
      ts.tvNsec + 1000 * ((us.toNat : ℤ) % 1000000) ≠ 1000000000 ∧ RoundsDown a b := by
  rw [addsExactly_iff hts htsfar, diff_exact_iff ha hafar hb hbfar]
  exact ⟨fun ⟨hadd, _, hdiff⟩ => ⟨hadd, hdiff⟩, fun ⟨hadd, hdiff⟩ => ⟨hadd, diff_add hts htsfar us, hdiff⟩⟩

/-- A timeout of half a second from a time with a quarter, and a difference of 2.5 microseconds. -/
theorem timeout_arithmetic_half :
    AddsExactly ⟨10, 250000000⟩ 500000 ∧
      timespecDiffUs (timespecAddUs ⟨10, 250000000⟩ 500000) ⟨10, 250000000⟩ = 500000 ∧
      timespecDiffUs ⟨11, 2500⟩ ⟨11, 0⟩ = wholeMicroseconds ⟨11, 2500⟩ ⟨11, 0⟩ :=
  (timeout_arithmetic ⟨10, 250000000⟩ ⟨11, 2500⟩ ⟨11, 0⟩ 500000 (by decide) (by decide) (by decide)
    (by decide) (by decide) (by decide)).mpr (by decide)

/-- Half a second after `.5` is not carried, and one nanosecond less than a second are `10 ^ 6`
microseconds. -/
theorem timeout_not_carried :
    timespecAddUs ⟨10, 500000000⟩ 500000 = ⟨10, 1000000000⟩ ∧ ¬ AddsExactly ⟨10, 500000000⟩ 500000 ∧
      timespecDiffUs ⟨11, 0⟩ ⟨10, 1⟩ = 1000000 ∧ wholeMicroseconds ⟨11, 0⟩ ⟨10, 1⟩ = 999999 := by
  refine ⟨by decide, fun h => ?_, by decide, by decide⟩
  exact absurd h.1 (by decide)

end Arithmetic

end FastRpc.Timeouts
