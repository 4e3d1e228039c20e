import FastRpc.ByteStore
import FastRpc.ShiftRegister

/-! # Checksums of arguments

`crc32_lut` computes the checksum of a buffer byte by byte from a table that `GenCrc32Tab` fills with
eight steps of the register for each of the 256 bytes.  `crc32Lut_bitwise` says that this is the bitwise
checksum of `ShiftRegister.lean`, with the register empty at first and no inversion at the end. -/

namespace FastRpc.Crc

open ByteStore ShiftRegister

/-- The inner loop of `GenCrc32Tab`. -/
def shiftLoop (genPoly : BitVec 32) : ℕ → BitVec 32 → BitVec 32
  | 0, crc => crc
  | n + 1, crc =>
      shiftLoop genPoly n ((crc <<< 1) ^^^ (if crc &&& 0x80000000#32 ≠ 0 then genPoly else 0#32))

/-- `GenCrc32Tab`. -/
def genCrc32Tab (genPoly : BitVec 32) : Vector (BitVec 32) 256 :=
  Vector.ofFn (fun i => shiftLoop genPoly 8 (BitVec.ofNat 32 i.val <<< 24))

/-- `(crc >> 24) ^ *data`. -/
def tableIndex (crc : BitVec 32) (b : UInt8) : BitVec 32 := (crc >>> 24) ^^^ b.toBitVec.setWidth 32

/-- The index lies in the table. -/
theorem tableIndex_lt (crc : BitVec 32) (b : UInt8) : (tableIndex crc b).toNat < 256 := by
  have hcrc : (crc >>> 24).toNat < 2 ^ 8 := by
    rw [BitVec.toNat_ushiftRight, Nat.shiftRight_eq_div_pow]
    omega
  have hb : (b.toBitVec.setWidth 32).toNat < 2 ^ 8 := by
    rw [BitVec.toNat_setWidth]
    omega
  rw [tableIndex, BitVec.toNat_xor]
  exact Nat.xor_lt_two_pow hcrc hb

/-- One turn of the loop of `crc32_lut`. -/
def lutStep (crctab : Vector (BitVec 32) 256) (crc : BitVec 32) (b : UInt8) : BitVec 32 :=
  (crc <<< 8) ^^^ crctab.get ⟨(tableIndex crc b).toNat, tableIndex_lt crc b⟩

/-- The turns of `while (nbyte--)`.  A negative count reaches `0` only after it has wrapped. -/
def turns (nbyte : ℤ) : ℕ := if nbyte < 0 then (2 ^ 32 + nbyte).toNat else nbyte.toNat

/-- `crc32_lut`, of the bytes at an address; the address `0` is `NULL`. -/
def crc32Lut (m : Store) (data : ℕ) (nbyte : ℤ) (crctab : Option (Vector (BitVec 32) 256)) : BitVec 32 :=
  match crctab with
  | none => 0#32
  | some crctab => if data = 0 then 0#32 else (slice m data (turns nbyte)).foldl (lutStep crctab) 0#32

/-- The bits of a byte string, the most significant one of each byte first. -/
def messageBits (bytes : List UInt8) : List Bool := bytes.flatMap (fun b => msbFirst b.toBitVec)

/-! ### One byte -/

theorem msb_test (crc : BitVec 32) : crc &&& 0x80000000#32 ≠ 0 ↔ crc.msb = true := by
  have hmask : 0x80000000#32 = BitVec.twoPow 32 31 := rfl
  rw [hmask, BitVec.and_twoPow, BitVec.msb_eq_getLsbD_last]
  cases crc.getLsbD 31 <;> simp

theorem shiftLoop_eq (genPoly : BitVec 32) (n : ℕ) (crc : BitVec 32) :
    shiftLoop genPoly n crc = steps genPoly n crc := by
  induction n generalizing crc with
  | zero => rfl
  | succ n ih =>
      simp only [shiftLoop, steps, step, term, msb_test, ih]

@[simp] theorem get_genCrc32Tab (genPoly : BitVec 32) (i : Fin 256) :
    (genCrc32Tab genPoly).get i = steps genPoly 8 (BitVec.ofNat 32 i.val <<< 24) := by
  rw [← shiftLoop_eq]
  exact Vector.getElem_ofFn i.isLt

/-- **The table step is eight steps of the register**, for every register and every byte. -/
theorem lutStep_eq (genPoly crc : BitVec 32) (b : UInt8) :
    lutStep (genCrc32Tab genPoly) crc b = feed genPoly crc (msbFirst b.toBitVec) := by
  rw [feed_word (by decide), steps_word (by decide), lutStep, get_genCrc32Tab, BitVec.ofNat_toNat,
    BitVec.setWidth_eq]
  rfl

/-- **A string of bytes.** -/
theorem foldl_lutStep (genPoly : BitVec 32) (bytes : List UInt8) (crc : BitVec 32) :
    bytes.foldl (lutStep (genCrc32Tab genPoly)) crc = feed genPoly crc (messageBits bytes) := by
  induction bytes generalizing crc with
  | nil => rfl
  | cons b bytes ih =>
      rw [List.foldl_cons, lutStep_eq, ih, ← feed_append]
      rfl

@[simp] theorem messageBits_append (as bs : List UInt8) :
    messageBits (as ++ bs) = messageBits as ++ messageBits bs := List.flatMap_append

@[simp] theorem messageBits_length (bytes : List UInt8) :
    (messageBits bytes).length = 8 * bytes.length := by
  induction bytes with
  | nil => rfl
  | cons b bytes ih =>
      rw [← List.singleton_append, messageBits_append, List.length_append, ih, List.length_append]
      simp [messageBits]
      omega

/-! ### Buffers -/

theorem turns_natCast (n : ℕ) : turns n = n := by
  unfold turns
  rw [if_neg (by omega), Int.toNat_natCast]

/-- The checksum of the bytes at an address, over the table of any polynomial. -/
theorem crc32Lut_eq (genPoly : BitVec 32) (m : Store) {data n : ℕ} (h : data = 0 → n = 0) :
    crc32Lut m data n (some (genCrc32Tab genPoly)) = crc genPoly (messageBits (slice m data n)) := by
  unfold crc32Lut
  rw [turns_natCast]
  split_ifs with hnull
  · rw [h hnull]
    rfl
  · exact foldl_lutStep genPoly _ _

/-- **`crc32_lut` is the bitwise checksum**, and that of a concatenation is the checksum of the first part
moved on by the bits of the second, with the checksum of the second part added. -/
theorem crc32Lut_bitwise (genPoly : BitVec 32) (m : Store) {data n : ℕ} (h : data = 0 → n = 0) :
    crc32Lut m data n (some (genCrc32Tab genPoly)) = crc genPoly (messageBits (slice m data n)) ∧
      ∀ k l, k + l = n →
        crc32Lut m data n (some (genCrc32Tab genPoly)) =
          steps genPoly (8 * l) (crc32Lut m data k (some (genCrc32Tab genPoly))) ^^^
            crc32Lut m (data + k) l (some (genCrc32Tab genPoly)) := by
  refine ⟨crc32Lut_eq genPoly m h, fun k l hn => ?_⟩
  subst hn
  rw [crc32Lut_eq genPoly m h, crc32Lut_eq genPoly m (by omega), crc32Lut_eq genPoly m (by omega),
    slice_append, messageBits_append, crc_append, messageBits_length, slice_length]

/-- The digits `1` to `9` at the address 8, with the polynomial of the library. -/
theorem crc32Lut_bitwise_digits :
    crc32Lut (fun a => UInt8.ofNat (41 + a)) 8 (9 : ℕ) (some (genCrc32Tab 0x04C11DB7#32)) =
        crc 0x04C11DB7#32 (messageBits (slice (fun a => UInt8.ofNat (41 + a)) 8 9)) ∧
      crc 0x04C11DB7#32 (messageBits (slice (fun a => UInt8.ofNat (41 + a)) 8 9)) = 0x89A1897F#32 :=
  ⟨(crc32Lut_bitwise 0x04C11DB7#32 (fun a => UInt8.ofNat (41 + a)) (by decide)).1, by decide +kernel⟩

end FastRpc.Crc
