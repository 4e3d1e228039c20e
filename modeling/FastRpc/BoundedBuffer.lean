import FastRpc.CInt
import Mathlib.Logic.Function.Basic
import Mathlib.Data.List.Induction

/-! # The bounded buffer of `BufBound.c`

A `BufBound` writes characters to a buffer of `n` bytes and counts on when the buffer is full, so that
the same calls can measure and write.  Its write pointer runs past the end of the buffer on purpose, up
to `PCSAT`, which lies `INT_MAX` behind the start; pointers are 64-bit words that wrap, and every test
compares a difference of pointers converted to `int`.

The reference is a tape without end, with a cursor between 0 and `INT_MAX`.  `buffer_follows_tape` says
that after any sequence of calls the buffer holds the first `n` cells of the tape, that nothing outside
of it was written, and that `BufBound_Wrote` is the cursor.  Only the last byte can differ: it is a NUL
when `BufBound_ForceNullTerm` found the buffer full. -/

namespace FastRpc.BoundedBuffer

open CInt

/-! ### Pointers -/

/-- A pointer. -/
abbrev Ptr := BitVec 64

/-- `p + k`. -/
def ptrAdd (p : Ptr) (k : ℤ) : Ptr := p + BitVec.ofInt 64 k

/-- `p - q`. -/
def ptrDiff (p q : Ptr) : ℤ := (p - q).toInt

@[simp] theorem ptrAdd_zero (p : Ptr) : ptrAdd p 0 = p := by simp [ptrAdd]

@[simp] theorem ptrAdd_ptrAdd (p : Ptr) (j k : ℤ) : ptrAdd (ptrAdd p j) k = ptrAdd p (j + k) := by
  unfold ptrAdd
  rw [BitVec.ofInt_add, BitVec.add_assoc]

/-- The difference of two pointers near each other, also where the address space ends between them. -/
theorem ptrDiff_ptrAdd (p : Ptr) {j k : ℤ} (hlo : -2 ^ 32 ≤ j - k) (hhi : j - k ≤ 2 ^ 32) :
    ptrDiff (ptrAdd p j) (ptrAdd p k) = j - k := by
  have hsplit : ptrAdd p j = ptrAdd p k + BitVec.ofInt 64 (j - k) := by
    show _ = ptrAdd (ptrAdd p k) (j - k)
    rw [ptrAdd_ptrAdd, Int.add_comm, Int.sub_add_cancel]
  unfold ptrDiff
  rw [hsplit, BitVec.add_comm, BitVec.add_sub_cancel, BitVec.toInt_ofInt_eq_self (by decide)]
  · norm_num; omega
  · norm_num; omega

/-- Pointers near each other that are equal have one offset. -/
theorem ptrAdd_inj {p : Ptr} {j k : ℤ} (hlo : -2 ^ 32 ≤ j - k) (hhi : j - k ≤ 2 ^ 32) :
    ptrAdd p j = ptrAdd p k ↔ j = k := by
  constructor
  · intro h
    have hdiff := ptrDiff_ptrAdd p hlo hhi
    rw [h, ptrDiff, BitVec.sub_self, BitVec.toInt_zero] at hdiff
    omega
  · rintro rfl
    rfl

/-! ### The code -/

/-- `BufBound`. -/
structure BufBound where
  pcBuf : Ptr
  pcWrite : Ptr
  pcEnd : Ptr

/-- A `BufBound`, the memory and the addresses written to. -/
structure State where
  me : BufBound
  mem : Ptr → UInt8
  stores : List Ptr

/-- `*p = c`. -/
def State.store (s : State) (p : Ptr) (c : UInt8) : State :=
  { s with mem := Function.update s.mem p c, stores := p :: s.stores }

/-- `PCSAT(me)`. -/
def BufBound.pcSat (me : BufBound) : Ptr := ptrAdd me.pcBuf intMax

/-- `BufBound_ValidateWrite`: where to write, how many bytes, and the advanced pointer. -/
def validateWrite (me : BufBound) (nLen : ℤ) : Ptr × ℤ × BufBound :=
  let nMaxCopy := wrap (ptrDiff me.pcEnd me.pcWrite)
  if nMaxCopy < nLen then
    let nMaxAdvance := wrap (ptrDiff me.pcSat me.pcWrite)
    (me.pcWrite, if nMaxCopy < 0 then 0 else nMaxCopy,
      { me with pcWrite := ptrAdd me.pcWrite (if nLen > nMaxAdvance then nMaxAdvance else nLen) })
  else (me.pcWrite, nLen, { me with pcWrite := ptrAdd me.pcWrite nLen })

/-- `while (--nLen >= 0) pcDest[nLen] = pc[nLen]`. -/
def storeDown (pcDest : Ptr) (pc : ℕ → UInt8) : ℕ → State → State
  | 0, s => s
  | nLen + 1, s => storeDown pcDest pc nLen (s.store (ptrAdd pcDest nLen) (pc nLen))

/-- The body of `BufBound_Write` and `BufBound_Putnc`. -/
def writeFrom (s : State) (pc : ℕ → UInt8) (nLen : ℤ) : State :=
  if nLen > 0 then
    let r := validateWrite s.me nLen
    storeDown r.1 pc r.2.1.toNat { s with me := r.2.2 }
  else s

/-- `BufBound_Write`. -/
def write (s : State) (pc : List UInt8) (nLen : ℤ) : State := writeFrom s (fun k => pc.getD k 0) nLen

/-- `BufBound_Putnc`. -/
def putnc (s : State) (c : UInt8) (nLen : ℤ) : State := writeFrom s (fun _ => c) nLen

/-- `BufBound_Advance`. -/
def advance (s : State) (nLen : ℤ) : State :=
  let uOffset := toU32 (ptrDiff s.me.pcWrite s.me.pcBuf + nLen)
  let uOffset := if uOffset > intMax then (if nLen < 0 then 0 else intMax) else uOffset
  { s with me := { s.me with pcWrite := ptrAdd s.me.pcBuf uOffset } }

/-- `BufBound_Init`. -/
def init (pBuf : Ptr) (nLen : ℤ) (mem : Ptr → UInt8) : State :=
  let nLen := if nLen < 0 then 0 else nLen
  ⟨⟨pBuf, pBuf, ptrAdd pBuf nLen⟩, mem, []⟩

/-- `++me->pcWrite`. -/
def bump (s : State) : State := { s with me := { s.me with pcWrite := ptrAdd s.me.pcWrite 1 } }

/-- `BufBound_Putc`. -/
def putc (s : State) (c : UInt8) : State :=
  if ptrDiff s.me.pcEnd s.me.pcWrite > 0 then bump (s.store s.me.pcWrite c)
  else if s.me.pcWrite ≠ s.me.pcSat then bump s
  else s

/-- `BufBound_ForceNullTerm`. -/
def forceNullTerm (s : State) : State :=
  if ptrDiff s.me.pcEnd s.me.pcWrite > 0 then bump (s.store s.me.pcWrite 0)
  else
    let s := if s.me.pcWrite ≠ s.me.pcSat then bump s else s
    if s.me.pcEnd ≠ s.me.pcBuf then s.store (ptrAdd s.me.pcEnd (-1)) 0 else s

/-- `strlen`. -/
def strlen (cpsz : List UInt8) : ℕ := (cpsz.takeWhile (fun c => c ≠ 0)).length

/-- `BufBound_Puts`. -/
def puts (s : State) (cpsz : List UInt8) : State := write s cpsz (wrap (strlen cpsz))

/-- `BufBound_Wrote`. -/
def wrote (s : State) : ℤ := wrap (ptrDiff s.me.pcWrite s.me.pcBuf)

/-- The calls. -/
inductive Op
  | write (pc : List UInt8) (nLen : ℤ)
  | puts (cpsz : List UInt8)
  | putc (c : UInt8)
  | putnc (c : UInt8) (nLen : ℤ)
  | advance (nLen : ℤ)
  | forceNullTerm
  deriving DecidableEq, Repr

/-- One call. -/
def State.call (s : State) : Op → State
  | .write pc nLen => write s pc nLen
  | .puts cpsz => puts s cpsz
  | .putc c => putc s c
  | .putnc c nLen => putnc s c nLen
  | .advance nLen => advance s nLen
  | .forceNullTerm => forceNullTerm s

/-- A sequence of calls. -/
def State.calls (s : State) (ops : List Op) : State := ops.foldl State.call s

/-! ### The tape -/

/-- A tape without end and its cursor. -/
structure Tape where
  cell : ℕ → UInt8
  cursor : ℤ

/-- The cursor stays between 0 and `INT_MAX`. -/
def saturate (z : ℤ) : ℤ := max 0 (min z intMax)

namespace Tape

/-- Some cells from the cursor on, and the cursor behind them. -/
def put (t : Tape) (pc : ℕ → UInt8) (len : ℕ) : Tape :=
  ⟨fun i => if t.cursor ≤ i ∧ i < t.cursor + len then pc (i - t.cursor).toNat else t.cell i,
    saturate (t.cursor + len)⟩

/-- The cursor moves. -/
def advance (t : Tape) (k : ℤ) : Tape := ⟨t.cell, saturate (t.cursor + k)⟩

/-- One call. -/
def call (t : Tape) : Op → Tape
  | .write pc nLen => t.put (fun k => pc.getD k 0) nLen.toNat
  | .puts cpsz => t.put (fun k => cpsz.getD k 0) (strlen cpsz)
  | .putc c => t.put (fun _ => c) 1
  | .putnc c nLen => t.put (fun _ => c) nLen.toNat
  | .advance nLen => t.advance nLen
  | .forceNullTerm => t.put (fun _ => 0) 1

/-- A sequence of calls. -/
def calls (t : Tape) (ops : List Op) : Tape := ops.foldl call t

end Tape

/-- The lengths of a call are `int`, and strings are shorter than `2 ^ 31`. -/
def Op.Fits : Op → Prop
  | .write _ nLen => InRange nLen
  | .puts cpsz => (strlen cpsz : ℤ) ≤ intMax
  | .putnc _ nLen => InRange nLen
  | .advance nLen => InRange nLen
  | .putc _ | .forceNullTerm => True

instance : (op : Op) → Decidable op.Fits
  | .write _ _ => inferInstanceAs (Decidable (InRange _))
  | .puts _ => inferInstanceAs (Decidable (_ ≤ _))
  | .putnc _ _ => inferInstanceAs (Decidable (InRange _))
  | .advance _ => inferInstanceAs (Decidable (InRange _))
  | .putc _ | .forceNullTerm => isTrue trivial

/-! ### The buffer and the tape -/

/-- The buffer of `n` bytes at `pBuf` holds the cells of the tape, but for a NUL at its end when
`forced` says that there may be one. -/
structure Follows (pBuf : Ptr) (n : ℤ) (forced : Prop) (s : State) (t : Tape) : Prop where
  pcBuf : s.me.pcBuf = pBuf
  pcWrite : s.me.pcWrite = ptrAdd pBuf t.cursor
  pcEnd : s.me.pcEnd = ptrAdd pBuf n
  cursor : 0 ≤ t.cursor ∧ t.cursor ≤ intMax
  stores : ∀ p ∈ s.stores, ∃ i : ℤ, (0 ≤ i ∧ i < n) ∧ p = ptrAdd pBuf i
  bytes : ∀ i : ℕ, i < n → s.mem (ptrAdd pBuf i) = t.cell i ∨
    forced ∧ (i : ℤ) + 1 = n ∧ s.mem (ptrAdd pBuf i) = 0

section Calls

variable {pBuf : Ptr} {n nLen k : ℤ} {forced : Prop} {s : State} {t : Tape} {pc : ℕ → UInt8}

/-- What the copying loop leaves in memory. -/
theorem storeDown_spec (pBuf : Ptr) (pc : ℕ → UInt8) (w : ℤ) (len : ℕ) (s : State) :
    (storeDown (ptrAdd pBuf w) pc len s).me = s.me ∧
      (∀ p ∈ (storeDown (ptrAdd pBuf w) pc len s).stores, p ∈ s.stores ∨
        ∃ i : ℤ, (w ≤ i ∧ i < w + len) ∧ p = ptrAdd pBuf i) ∧
      ∀ i : ℤ, -2 ^ 31 ≤ i - w → i - w ≤ 2 ^ 31 → len ≤ 2 ^ 31 →
        (storeDown (ptrAdd pBuf w) pc len s).mem (ptrAdd pBuf i) =
          if w ≤ i ∧ i < w + len then pc (i - w).toNat else s.mem (ptrAdd pBuf i) := by
  induction len generalizing s with
  | zero =>
      refine ⟨rfl, fun p hp => Or.inl hp, fun i _ _ _ => ?_⟩
      rw [if_neg (by omega)]
      rfl
  | succ len ih =>
      obtain ⟨hme, hstores, hmem⟩ := ih (s.store (ptrAdd (ptrAdd pBuf w) len) (pc len))
      refine ⟨hme, fun p hp => ?_, fun i h1 h2 h3 => ?_⟩
      · rcases hstores p hp with hp | ⟨i, hi, rfl⟩
        · rcases List.mem_cons.mp hp with rfl | hp
          · exact Or.inr ⟨w + len, ⟨by omega, by push_cast; omega⟩, ptrAdd_ptrAdd _ _ _⟩
          · exact Or.inl hp
        · exact Or.inr ⟨i, ⟨hi.1, by push_cast; omega⟩, rfl⟩
      · rw [storeDown, hmem i h1 h2 (by omega)]
        simp only [State.store, ptrAdd_ptrAdd]
        rcases eq_or_ne i (w + len) with rfl | hne
        · rw [if_neg (by omega), if_pos (by push_cast; omega), Function.update_self]
          congr
          omega
        · have hptr : ptrAdd pBuf i ≠ ptrAdd pBuf (w + len) :=
            fun he => hne ((ptrAdd_inj (by omega) (by omega)).mp he)
          rw [Function.update_of_ne hptr]
          refine if_congr ?_ rfl rfl
          push_cast
          omega

/-- **Validation.** It gives the cursor, the part of the bytes that fits, and the saturated cursor. -/
theorem validateWrite_eq (h : Follows pBuf n forced s t) (hn : 0 ≤ n ∧ n ≤ intMax)
    (hlen : 0 < nLen ∧ nLen ≤ intMax) :
    validateWrite s.me nLen = (ptrAdd pBuf t.cursor, min nLen (max 0 (n - t.cursor)),
      ⟨pBuf, ptrAdd pBuf (saturate (t.cursor + nLen)), ptrAdd pBuf n⟩) := by
  have hmax := intMax_eq
  obtain ⟨hc0, hc⟩ := h.cursor
  have hcopy : wrap (ptrDiff s.me.pcEnd s.me.pcWrite) = n - t.cursor := by
    rw [h.pcEnd, h.pcWrite, ptrDiff_ptrAdd _ (by omega) (by omega)]
    exact wrap_of_inRange ⟨by omega, by omega⟩
  have hadv : wrap (ptrDiff s.me.pcSat s.me.pcWrite) = intMax - t.cursor := by
    rw [BufBound.pcSat, h.pcBuf, h.pcWrite, ptrDiff_ptrAdd _ (by omega) (by omega)]
    exact wrap_of_inRange ⟨by omega, by omega⟩
  unfold validateWrite
  simp only [hcopy, hadv]
  simp only [h.pcBuf, h.pcWrite, h.pcEnd, ptrAdd_ptrAdd]
  by_cases hfit : n - t.cursor < nLen
  · have hcount : (if n - t.cursor < 0 then 0 else n - t.cursor) =
        min nLen (max 0 (n - t.cursor)) := by
      split_ifs <;> omega
    have hnew : t.cursor + (if nLen > intMax - t.cursor then intMax - t.cursor else nLen) =
        saturate (t.cursor + nLen) := by
      unfold saturate
      split_ifs <;> omega
    rw [if_pos hfit, hcount, hnew]
  · have hcount : nLen = min nLen (max 0 (n - t.cursor)) := by omega
    have hnew : t.cursor + nLen = saturate (t.cursor + nLen) := by
      unfold saturate
      omega
    rw [if_neg hfit, ← hcount, ← hnew]

theorem saturate_range (z : ℤ) : 0 ≤ saturate z ∧ saturate z ≤ intMax := by
  have hmax := intMax_eq
  unfold saturate
  omega

/-- **A write** leaves what fits of the tape's cells. -/
theorem follows_writeFrom (pc : ℕ → UInt8) (h : Follows pBuf n forced s t) (hn : 0 ≤ n ∧ n ≤ intMax)
    (hlen : InRange nLen) : Follows pBuf n forced (writeFrom s pc nLen) (t.put pc nLen.toNat) := by
  have hmax := intMax_eq
  obtain ⟨hc0, hc⟩ := h.cursor
  have hlenMax := hlen.2
  unfold writeFrom
  split_ifs with hpos
  · rw [validateWrite_eq h hn ⟨hpos, hlenMax⟩]
    obtain ⟨hme, hstores, hmem⟩ := storeDown_spec pBuf pc t.cursor
      (min nLen (max 0 (n - t.cursor))).toNat
      { s with me := ⟨pBuf, ptrAdd pBuf (saturate (t.cursor + nLen)), ptrAdd pBuf n⟩ }
    have hput : (t.put pc nLen.toNat).cursor = saturate (t.cursor + nLen) := by
      show saturate (t.cursor + nLen.toNat) = _
      rw [Int.toNat_of_nonneg (le_of_lt hpos)]
    refine ⟨by rw [hme], by rw [hme, hput], by rw [hme], ?_, ?_, ?_⟩
    · rw [hput]
      exact saturate_range _
    · intro p hp
      rcases hstores p hp with hp | ⟨i, hi, rfl⟩
      · exact h.stores p hp
      · exact ⟨i, by omega, rfl⟩
    · intro i hi
      rw [hmem i (by omega) (by omega) (by omega)]
      show _ = (if t.cursor ≤ (i : ℤ) ∧ (i : ℤ) < t.cursor + nLen.toNat then _ else _) ∨ _
      by_cases hin : t.cursor ≤ (i : ℤ) ∧ (i : ℤ) < t.cursor + nLen.toNat
      · rw [if_pos (by omega), if_pos hin]
        exact Or.inl rfl
      · rw [if_neg (by omega), if_neg hin]
        exact h.bytes i hi
  · have hzero : nLen.toNat = 0 := by omega
    have hput : t.put pc nLen.toNat = t := by
      rw [hzero]
      obtain ⟨cell, cursor⟩ := t
      simp only [Tape.put, Nat.cast_zero, Int.add_zero, Tape.mk.injEq]
      refine ⟨funext fun i => if_neg (by omega), ?_⟩
      unfold saturate
      simp only at hc hc0
      omega
    rw [hput]
    exact h

/-- A cell at or behind the end of the buffer is not in it. -/
theorem follows_beyond (pc : ℕ → UInt8) (h : Follows pBuf n forced s t) (hbeyond : n ≤ t.cursor) :
    Follows pBuf n forced (if s.me.pcWrite ≠ s.me.pcSat then bump s else s) (t.put pc 1) := by
  have hmax := intMax_eq
  obtain ⟨hc0, hc⟩ := h.cursor
  have hsat : s.me.pcWrite = s.me.pcSat ↔ t.cursor = intMax := by
    rw [BufBound.pcSat, h.pcWrite, h.pcBuf]
    exact ptrAdd_inj (by omega) (by omega)
  have hbytes : ∀ i : ℕ, i < n → (t.put pc 1).cell i = t.cell i :=
    fun i hi => if_neg (by omega)
  have hcursor : (t.put pc 1).cursor = saturate (t.cursor + 1) := rfl
  split_ifs with hat
  · have hnew : saturate (t.cursor + 1) = t.cursor + 1 := by
      have := (not_congr hsat).mp hat
      unfold saturate
      omega
    refine ⟨h.pcBuf, ?_, h.pcEnd, ?_, h.stores, fun i hi => ?_⟩
    · show ptrAdd s.me.pcWrite 1 = _
      rw [hcursor, hnew, h.pcWrite, ptrAdd_ptrAdd]
    · rw [hcursor]
      exact saturate_range _
    · rw [hbytes i hi]
      exact h.bytes i hi
  · have hnew : saturate (t.cursor + 1) = t.cursor := by
      have := hsat.mp (not_not.mp hat)
      unfold saturate
      omega
    refine ⟨h.pcBuf, ?_, h.pcEnd, ?_, h.stores, fun i hi => ?_⟩
    · rw [hcursor, hnew, h.pcWrite]
    · rw [hcursor]
      exact saturate_range _
    · rw [hbytes i hi]
      exact h.bytes i hi

/-- The test for room. -/
theorem room_iff (h : Follows pBuf n forced s t) (hn : 0 ≤ n ∧ n ≤ intMax) :
    ptrDiff s.me.pcEnd s.me.pcWrite > 0 ↔ t.cursor < n := by
  have hmax := intMax_eq
  obtain ⟨hc0, hc⟩ := h.cursor
  rw [h.pcEnd, h.pcWrite, ptrDiff_ptrAdd _ (by omega) (by omega)]
  omega

/-- A character that fits. -/
theorem follows_inside (h : Follows pBuf n forced s t) (hn : n ≤ intMax) (hin : t.cursor < n)
    (c : UInt8) :
    Follows pBuf n forced (bump (s.store s.me.pcWrite c)) (t.put (fun _ => c) 1) := by
  have hmax := intMax_eq
  obtain ⟨hc0, hc⟩ := h.cursor
  have hnew : saturate (t.cursor + 1) = t.cursor + 1 := by
    unfold saturate
    omega
  have hcursor : (t.put (fun _ => c) 1).cursor = t.cursor + 1 := hnew
  refine ⟨h.pcBuf, ?_, h.pcEnd, by rw [hcursor]; omega, fun p hp => ?_, fun i hi => ?_⟩
  · show ptrAdd s.me.pcWrite 1 = _
    rw [hcursor, h.pcWrite, ptrAdd_ptrAdd]
  · rcases List.mem_cons.mp hp with rfl | hp
    · exact ⟨t.cursor, ⟨hc0, hin⟩, h.pcWrite⟩
    · exact h.stores p hp
  · show Function.update s.mem s.me.pcWrite c (ptrAdd pBuf i) =
      (if t.cursor ≤ (i : ℤ) ∧ (i : ℤ) < t.cursor + (1 : ℕ) then c else t.cell i) ∨
        forced ∧ (i : ℤ) + 1 = n ∧ Function.update s.mem s.me.pcWrite c (ptrAdd pBuf i) = 0
    rw [h.pcWrite]
    rcases eq_or_ne (i : ℤ) t.cursor with he | hne
    · rw [if_pos (by omega), he, Function.update_self]
      exact Or.inl rfl
    · have hptr : ptrAdd pBuf i ≠ ptrAdd pBuf t.cursor :=
        fun he => hne ((ptrAdd_inj (by omega) (by omega)).mp he)
      rw [if_neg (by omega), Function.update_of_ne hptr]
      exact h.bytes i hi

theorem follows_putc (h : Follows pBuf n forced s t) (hn : 0 ≤ n ∧ n ≤ intMax) (c : UInt8) :
    Follows pBuf n forced (putc s c) (t.put (fun _ => c) 1) := by
  unfold putc
  by_cases hroom : ptrDiff s.me.pcEnd s.me.pcWrite > 0
  · rw [if_pos hroom]
    exact follows_inside h hn.2 ((room_iff h hn).mp hroom) c
  · rw [if_neg hroom]
    exact follows_beyond _ h (not_lt.mp (fun hlt => hroom ((room_iff h hn).mpr hlt)))

/-- What may be a NUL can also be one. -/
theorem Follows.weaken {forced' : Prop} (h : Follows pBuf n forced s t) (hf : forced → forced') :
    Follows pBuf n forced' s t :=
  { h with bytes := fun i hi => (h.bytes i hi).imp_right (fun hr => ⟨hf hr.1, hr.2⟩) }

/-- **A forced NUL** is a character like others, or it ends a buffer that is full. -/
theorem follows_forceNullTerm (h : Follows pBuf n forced s t) (hn : 0 ≤ n ∧ n ≤ intMax) :
    Follows pBuf n (forced ∨ n ≤ t.cursor) (forceNullTerm s) (t.put (fun _ => 0) 1) := by
  have hmax := intMax_eq
  unfold forceNullTerm
  by_cases hroom : ptrDiff s.me.pcEnd s.me.pcWrite > 0
  · rw [if_pos hroom]
    exact (follows_inside h hn.2 ((room_iff h hn).mp hroom) 0).weaken Or.inl
  · rw [if_neg hroom]
    have hbeyond : n ≤ t.cursor := not_lt.mp (fun hlt => hroom ((room_iff h hn).mpr hlt))
    have hb := (follows_beyond (fun _ => 0) h hbeyond).weaken
      (show forced → forced ∨ n ≤ t.cursor from Or.inl)
    generalize (if s.me.pcWrite ≠ s.me.pcSat then bump s else s) = s' at hb ⊢
    simp only
    split_ifs with hempty
    · have hne : n ≠ 0 := by
        rintro rfl
        exact hempty (by rw [hb.pcEnd, hb.pcBuf, ptrAdd_zero])
      have hlast : ptrAdd s'.me.pcEnd (-1) = ptrAdd pBuf (n - 1) := by
        rw [hb.pcEnd, ptrAdd_ptrAdd]
        rfl
      rw [hlast]
      refine ⟨hb.pcBuf, hb.pcWrite, hb.pcEnd, hb.cursor, fun p hp => ?_, fun i hi => ?_⟩
      · rcases List.mem_cons.mp hp with rfl | hp
        · exact ⟨n - 1, by omega, rfl⟩
        · exact hb.stores p hp
      · show Function.update s'.mem (ptrAdd pBuf (n - 1)) 0 (ptrAdd pBuf i) = _ ∨ _ ∧ _ ∧
          Function.update s'.mem (ptrAdd pBuf (n - 1)) 0 (ptrAdd pBuf i) = 0
        rcases eq_or_ne (i : ℤ) (n - 1) with he | hne'
        · rw [he, Function.update_self]
          exact Or.inr ⟨Or.inr hbeyond, by omega, rfl⟩
        · have hptr : ptrAdd pBuf i ≠ ptrAdd pBuf (n - 1) :=
            fun he => hne' ((ptrAdd_inj (by omega) (by omega)).mp he)
          rw [Function.update_of_ne hptr]
          exact hb.bytes i hi
    · exact hb

theorem follows_advance (h : Follows pBuf n forced s t) (hk : InRange k) :
    Follows pBuf n forced (advance s k) (t.advance k) := by
  have hmax := intMax_eq
  obtain ⟨hc0, hc⟩ := h.cursor
  obtain ⟨hk0, hk1⟩ := hk
  have hdiff : ptrDiff s.me.pcWrite s.me.pcBuf = t.cursor := by
    have := ptrDiff_ptrAdd pBuf (j := t.cursor) (k := 0) (by omega) (by omega)
    rw [ptrAdd_zero, Int.sub_zero] at this
    rw [h.pcWrite, h.pcBuf, this]
  have hoffset : (if toU32 (t.cursor + k) > intMax then (if k < 0 then 0 else intMax)
      else toU32 (t.cursor + k)) = saturate (t.cursor + k) := by
    unfold toU32 saturate
    norm_num at *
    split_ifs <;> omega
  unfold advance
  simp only [hdiff, hoffset]
  exact ⟨h.pcBuf, by rw [h.pcBuf]; rfl, h.pcEnd, saturate_range _, h.stores, h.bytes⟩

/-- The number of bytes that would have been written. -/
theorem wrote_eq (h : Follows pBuf n forced s t) : wrote s = t.cursor := by
  have hmax := intMax_eq
  obtain ⟨hc0, hc⟩ := h.cursor
  have hdiff := ptrDiff_ptrAdd pBuf (j := t.cursor) (k := 0) (by omega) (by omega)
  rw [ptrAdd_zero, Int.sub_zero] at hdiff
  unfold wrote
  rw [h.pcWrite, h.pcBuf, hdiff]
  exact wrap_of_inRange (inRange_of_nonneg hc0 hc)

end Calls

/-! ### Sequences of calls -/

section Runs

variable {pBuf : Ptr} {n : ℤ} {s : State} {t : Tape} {ops : List Op}

/-- A call of `BufBound_ForceNullTerm` found the buffer full. -/
def Forced (n : ℤ) (t : Tape) (ops : List Op) : Prop :=
  ∃ pre post, ops = pre ++ Op.forceNullTerm :: post ∧ n ≤ (t.calls pre).cursor

theorem calls_concat (s : State) (ops : List Op) (op : Op) :
    s.calls (ops ++ [op]) = (s.calls ops).call op := by
  simp [State.calls]

theorem Tape.calls_concat (t : Tape) (ops : List Op) (op : Op) :
    t.calls (ops ++ [op]) = (t.calls ops).call op := by
  simp [Tape.calls]

theorem Forced.concat (h : Forced n t ops) (op : Op) : Forced n t (ops ++ [op]) := by
  obtain ⟨pre, post, rfl, hfull⟩ := h
  exact ⟨pre, post ++ [op], by simp, hfull⟩

/-- **One call** keeps the buffer and the tape together. -/
theorem follows_call {forced : Prop} (h : Follows pBuf n forced s t) (hn : 0 ≤ n ∧ n ≤ intMax)
    {op : Op} (hop : op.Fits) :
    Follows pBuf n (forced ∨ op = .forceNullTerm ∧ n ≤ t.cursor) (s.call op) (t.call op) := by
  cases op with
  | write pc nLen => exact (follows_writeFrom _ h hn hop).weaken Or.inl
  | puts cpsz =>
      have hlen : wrap (strlen cpsz) = strlen cpsz :=
        wrap_of_inRange (inRange_of_nonneg (Int.natCast_nonneg _) hop)
      have hw := follows_writeFrom (fun k => cpsz.getD k 0) h hn
        (inRange_of_nonneg (Int.natCast_nonneg _) hop)
      rw [Int.toNat_natCast] at hw
      have hcall : s.call (.puts cpsz) = writeFrom s (fun k => cpsz.getD k 0) (strlen cpsz) := by
        show puts s cpsz = _
        rw [puts, hlen]
        rfl
      rw [hcall]
      exact hw.weaken Or.inl
  | putc c => exact (follows_putc h hn c).weaken Or.inl
  | putnc c nLen => exact (follows_writeFrom _ h hn hop).weaken Or.inl
  | advance nLen => exact (follows_advance h hop).weaken Or.inl
  | forceNullTerm =>
      exact (follows_forceNullTerm h hn).weaken (fun hf => hf.imp_right (fun hle => ⟨rfl, hle⟩))

/-- **A sequence of calls** keeps them together. -/
theorem follows_calls (h : Follows pBuf n False s t) (hn : 0 ≤ n ∧ n ≤ intMax)
    (hops : ∀ op ∈ ops, op.Fits) :
    Follows pBuf n (Forced n t ops) (s.calls ops) (t.calls ops) := by
  induction ops using List.reverseRecOn with
  | nil => exact h.weaken False.elim
  | append_singleton ops op ih =>
      rw [calls_concat, Tape.calls_concat]
      have hrest := ih (fun o ho => hops o (List.mem_append_left _ ho))
      refine (follows_call hrest hn (hops op (by simp))).weaken ?_
      rintro (hf | ⟨rfl, hfull⟩)
      · exact hf.concat op
      · exact ⟨ops, [], rfl, hfull⟩

/-- A new `BufBound` and a tape with the contents of its buffer. -/
theorem follows_init (pBuf : Ptr) (nLen : ℤ) (mem : Ptr → UInt8) :
    Follows pBuf (max 0 nLen) False (init pBuf nLen mem) ⟨fun i => mem (ptrAdd pBuf i), 0⟩ := by
  have hmax := intMax_eq
  have hn : (if nLen < 0 then 0 else nLen) = max 0 nLen := by split_ifs <;> omega
  refine ⟨rfl, (ptrAdd_zero pBuf).symm, ?_, ⟨le_rfl, by simp only; omega⟩, fun p hp => ?_, fun i _ => ?_⟩
  · show ptrAdd pBuf (if nLen < 0 then 0 else nLen) = _
    rw [hn]
  · exact absurd hp List.not_mem_nil
  · exact Or.inl rfl

/-- The cursor does not depend on the contents of the tape. -/
theorem cursor_calls {t u : Tape} (h : t.cursor = u.cursor) (ops : List Op) :
    (t.calls ops).cursor = (u.calls ops).cursor := by
  unfold Tape.calls
  induction ops generalizing t u with
  | nil => exact h
  | cons op ops ih =>
      refine ih ?_
      cases op <;> simp only [Tape.call, Tape.put, Tape.advance, h]

/-- **The buffer follows the tape.** After any sequence of calls no byte outside of the `nLen` bytes of
the buffer was written to, `BufBound_Wrote` is the cursor of the tape, which a run without a buffer
finds as well, and every byte of the buffer is the cell of the tape, but for a NUL in the last one when
`BufBound_ForceNullTerm` was called at a cursor behind it. -/
theorem buffer_follows_tape (pBuf : Ptr) (nLen : ℤ) (mem : Ptr → UInt8) (ops : List Op)
    (hn : InRange nLen) (hops : ∀ op ∈ ops, op.Fits) :
    let s := (init pBuf nLen mem).calls ops
    let tape : Tape := ⟨fun i => mem (ptrAdd pBuf i), 0⟩
    (∀ p ∈ s.stores, ∃ i : ℤ, (0 ≤ i ∧ i < nLen) ∧ p = ptrAdd pBuf i) ∧
      wrote s = (tape.calls ops).cursor ∧
      wrote s = wrote ((init 0 0 mem).calls ops) ∧
      ∀ i : ℕ, i < nLen → s.mem (ptrAdd pBuf i) = (tape.calls ops).cell i ∨
        (i : ℤ) + 1 = nLen ∧ s.mem (ptrAdd pBuf i) = 0 ∧
          ∃ pre post, ops = pre ++ Op.forceNullTerm :: post ∧ nLen ≤ (tape.calls pre).cursor := by
  have hmax := intMax_eq
  have hn' : 0 ≤ max 0 nLen ∧ max 0 nLen ≤ intMax := ⟨le_max_left _ _, max_le (by decide) hn.2⟩
  have h := follows_calls (follows_init pBuf nLen mem) hn' hops
  have h0 := follows_calls (follows_init 0 0 mem) ⟨le_rfl, by decide⟩ hops
  refine ⟨fun p hp => ?_, wrote_eq h, ?_, fun i hi => ?_⟩
  · obtain ⟨i, hi, rfl⟩ := h.stores p hp
    exact ⟨i, ⟨hi.1, by omega⟩, rfl⟩
  · rw [wrote_eq h, wrote_eq h0]
    apply cursor_calls
    rfl
  · rcases h.bytes i (by omega) with hb | ⟨⟨pre, post, hops', hfull⟩, hlast, hzero⟩
    · exact Or.inl hb
    · exact Or.inr ⟨by omega, hzero, pre, post, hops', by omega⟩

/-- Four characters, a skip back and a forced NUL on a buffer of three bytes. -/
def someOps : List Op := [.puts [97, 98, 99, 100], .forceNullTerm, .advance (-4), .putc 120]

theorem buffer_follows_tape_someOps :
    let s := (init 0x1000 3 (fun _ => 0)).calls someOps
    ((List.range 3).map (fun (i : ℕ) => s.mem (ptrAdd 0x1000 i)) = [97, 120, 0] ∧ wrote s = 2) ∧
      wrote s = wrote ((init 0 0 (fun _ => 0)).calls someOps) :=
  ⟨by decide +kernel, (buffer_follows_tape 0x1000 3 (fun _ => 0) someOps (by decide)
    (by decide)).2.2.1⟩

end Runs

end FastRpc.BoundedBuffer
