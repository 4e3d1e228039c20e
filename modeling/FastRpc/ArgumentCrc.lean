import FastRpc.Invoke
import FastRpc.Crc

/-! # The checksums of a call

With checksums enabled, `remote_handle_invoke_domain` writes the checksum of each input buffer into a list
of `M_CRCLIST` entries before the `ioctl`, and that of each output buffer behind it.  It compares the list
with the one the driver returned and reports the first difference.  The first loop and the comparison stop
at the end of the list; the loop over the output buffers does not.  `arguments_checked_iff` says that a
call stays in its lists, and reports a difference exactly when there is one, if and only if it has no
output buffer or no more buffers than entries. -/

namespace FastRpc.ArgumentCrc

open CInt ByteStore Crc Invoke

/-- `M_CRCLIST`. -/
abbrev mCrcList : ℕ := 64

/-- An array of `M_CRCLIST` checksums. -/
abbrev CrcList := Vector (BitVec 32) mCrcList

/-- `crc_local[i] = ...`; `none` when the entry does not exist. -/
def write (a : CrcList) (i : ℕ) (v : BitVec 32) : Option CrcList :=
  if h : i < mCrcList then some (a.set i v h) else none

/-- `n` turns of a loop that writes the checksums of the buffers from `lo` on. -/
def fillCrcs (crc : ℕ → BitVec 32) (lo : ℕ) : ℕ → CrcList → Option CrcList
  | 0, a => some a
  | n + 1, a => fillCrcs crc lo n a >>= fun a => write a (lo + n) (crc (lo + n))

/-- The loop of the comparison: the first buffer with another checksum than the driver's. -/
def firstMismatch (bufs : ℕ) (crcLocal crcRemote : CrcList) : Option ℕ :=
  ((List.finRange mCrcList).find? (fun i => i.val < bufs && crcLocal.get i != crcRemote.get i)).map Fin.val

/-- `crc_table`. -/
def crcTable : Vector (BitVec 32) 256 := genCrc32Tab 0x04C11DB7#32

/-- `crc32_lut` of a buffer. -/
def argCrc (m : Store) (a : Invoke.RemoteArg) : BitVec 32 := crc32Lut m a.pv (wrap a.nLen) (some crcTable)

section Call

variable (sc : UInt32) (pra : ℕ → Invoke.RemoteArg) (before after : Store)

/-- The checksum of a buffer: of an input buffer in the memory before the call, of an output buffer in the
memory after it. -/
def bufferCrc (i : ℕ) : BitVec 32 :=
  argCrc (if i < Listener.remoteScalarsInBufs sc.toNat then before else after) (pra i)

/-- The loop before the `ioctl`, over the input buffers. -/
def inputCrcs : Option CrcList :=
  fillCrcs (bufferCrc sc pra before after) 0 (min (Listener.remoteScalarsInBufs sc.toNat) mCrcList)
    (Vector.replicate mCrcList 0#32)

/-- The code after the `ioctl`: the loop over the output buffers, and the comparison. -/
def outputCrcs (crcLocal crcRemote : CrcList) : Option (Option ℕ) :=
  (fillCrcs (bufferCrc sc pra before after) (Listener.remoteScalarsInBufs sc.toNat)
    (bufCount sc - Listener.remoteScalarsInBufs sc.toNat) crcLocal).map
      (fun crcLocal => firstMismatch (bufCount sc) crcLocal crcRemote)

end Call

/-- What the checksums of a call come to: `none` after an access outside of the lists, else the buffer
that is reported.  A call that does not reach the `ioctl` compares nothing; if it has run the first loop,
it stayed in the list (`inputCrcs_isSome`). -/
def crcReport (p : Process) (domain : Domain) (handle sc : UInt32) (o : Outcome)
    (pra : Option (ℕ → Invoke.RemoteArg)) (before after : Store) (crcRemote : CrcList) :
    Option (Option ℕ) :=
  if crcEnabled p domain handle then
    let entries := pra.getD (fun _ => ⟨0, 0⟩)
    inputCrcs sc entries before after >>= fun crcLocal =>
      if (remoteHandleInvokeDomain p domain handle sc o pra).issued.isSome then
        outputCrcs sc entries before after crcLocal crcRemote
      else some none
  else some none

/-! ### The lists -/

theorem write_spec {a b : CrcList} {i : ℕ} {v : BitVec 32} (h : write a i v = some b) :
    b[i]? = some v ∧ ∀ j, j ≠ i → b[j]? = a[j]? := by
  unfold write at h
  split_ifs at h with hi
  obtain rfl := Option.some.inj h
  exact ⟨by simp, fun j hj => by simp [Vector.getElem?_set_ne, Ne.symm hj]⟩

theorem write_isSome {a : CrcList} {i : ℕ} {v : BitVec 32} : (write a i v).isSome ↔ i < mCrcList := by
  unfold write
  split_ifs with h
  · simpa using h
  · simpa using h

/-- A loop that writes stays in the list exactly when its last entry does. -/
theorem fillCrcs_isSome {crc : ℕ → BitVec 32} {lo n : ℕ} {a : CrcList} :
    (fillCrcs crc lo n a).isSome ↔ n = 0 ∨ lo + n ≤ mCrcList := by
  induction n with
  | zero => simp [fillCrcs]
  | succ n ih =>
      cases hfill : fillCrcs crc lo n a with
      | none =>
          rw [hfill] at ih
          have hout : ¬ (n = 0 ∨ lo + n ≤ mCrcList) := fun h => absurd (ih.mpr h) (by simp)
          simp only [fillCrcs, hfill, Option.bind_eq_bind, Option.bind_none]
          exact ⟨fun h => absurd h (by simp), fun h => absurd h (by omega)⟩
      | some b =>
          simp only [fillCrcs, hfill, Option.bind_eq_bind, Option.bind_some, write_isSome]
          omega

/-- **A loop that writes** sets its entries and leaves the others. -/
theorem fillCrcs_spec {crc : ℕ → BitVec 32} {lo n : ℕ} {a b : CrcList}
    (h : fillCrcs crc lo n a = some b) (j : ℕ) :
    b[j]? = if lo ≤ j ∧ j < lo + n then some (crc j) else a[j]? := by
  induction n generalizing b with
  | zero =>
      obtain rfl := Option.some.inj h
      rw [if_neg (by omega)]
  | succ n ih =>
      rw [fillCrcs, Option.bind_eq_bind, Option.bind_eq_some_iff] at h
      obtain ⟨c, hc, hwrite⟩ := h
      obtain ⟨hset, hkeep⟩ := write_spec hwrite
      rcases eq_or_ne j (lo + n) with rfl | hj
      · rw [hset, if_pos (by omega)]
      · have hsame : (lo ≤ j ∧ j < lo + (n + 1)) ↔ (lo ≤ j ∧ j < lo + n) := by omega
        rw [hkeep j hj, ih hc]
        simp only [hsame]

/-- The comparison reports a buffer exactly when some buffer with an entry has another checksum. -/
theorem firstMismatch_isSome {bufs : ℕ} {crcLocal crcRemote : CrcList} :
    (firstMismatch bufs crcLocal crcRemote).isSome ↔
      ∃ i, i < bufs ∧ i < mCrcList ∧ crcLocal[i]? ≠ crcRemote[i]? := by
  unfold firstMismatch
  rw [Option.isSome_map, List.find?_isSome]
  constructor
  · rintro ⟨i, _, hi⟩
    rw [Bool.and_eq_true, decide_eq_true_eq, bne_iff_ne] at hi
    refine ⟨i.val, hi.1, i.isLt, fun h => hi.2 ?_⟩
    simpa [Vector.get] using h
  · rintro ⟨i, hbufs, hi, hne⟩
    refine ⟨⟨i, hi⟩, List.mem_finRange _, ?_⟩
    rw [Bool.and_eq_true, decide_eq_true_eq, bne_iff_ne]
    refine ⟨hbufs, fun h => hne ?_⟩
    simpa [Vector.get, hi] using h

/-! ### A call -/

section Call

variable {sc : UInt32} {pra : ℕ → Invoke.RemoteArg} {before after : Store}

theorem inBufs_le (sc : UInt32) : Listener.remoteScalarsInBufs sc.toNat ≤ bufCount sc := by
  unfold bufCount
  omega

/-- The loop before the `ioctl` never leaves the list. -/
theorem inputCrcs_isSome : (inputCrcs sc pra before after).isSome := by
  unfold inputCrcs
  rw [fillCrcs_isSome]
  omega

/-- The code after the `ioctl` stays in the list exactly when the output buffers do. -/
theorem outputCrcs_isSome {crcLocal crcRemote : CrcList} :
    (outputCrcs sc pra before after crcLocal crcRemote).isSome ↔
      Listener.remoteScalarsOutBufs sc.toNat = 0 ∨ bufCount sc ≤ mCrcList := by
  unfold outputCrcs
  rw [Option.isSome_map, fillCrcs_isSome]
  unfold bufCount
  omega

/-- The list that is compared holds the checksum of every buffer that has an entry. -/
theorem outputCrcs_eq_some {crcLocal crcRemote : CrcList} {r : Option ℕ}
    (hin : inputCrcs sc pra before after = some crcLocal)
    (h : outputCrcs sc pra before after crcLocal crcRemote = some r) :
    r.isSome ↔ ∃ i, i < bufCount sc ∧ i < mCrcList ∧
      crcRemote[i]? ≠ some (bufferCrc sc pra before after i) := by
  unfold outputCrcs at h
  obtain ⟨b, hb, rfl⟩ := Option.map_eq_some_iff.mp h
  have hlocal : ∀ i, i < bufCount sc → i < mCrcList →
      b[i]? = some (bufferCrc sc pra before after i) := by
    intro i hi hlist
    have hle := inBufs_le sc
    rw [fillCrcs_spec hb, fillCrcs_spec hin]
    rcases Nat.lt_or_ge i (Listener.remoteScalarsInBufs sc.toNat) with hlt | hge
    · rw [if_neg (by omega), if_pos (by omega)]
    · rw [if_pos (by omega)]
  rw [firstMismatch_isSome]
  refine exists_congr fun i => and_congr_right fun hi => and_congr_right fun hlist => ?_
  rw [hlocal i hi hlist]
  exact ne_comm

end Call

/-- The accesses of a call stay in its lists, and a difference is reported exactly when some buffer with
an entry has another checksum than the driver returned. -/
def Checked (sc : UInt32) (pra : ℕ → Invoke.RemoteArg) (before after : Store) (crcRemote : CrcList)
    (report : Option (Option ℕ)) : Prop :=
  ∃ r, report = some r ∧ (r.isSome ↔ ∃ i, i < bufCount sc ∧ i < mCrcList ∧
    crcRemote[i]? ≠ some (bufferCrc sc pra before after i))

section Report

variable {p : Process} {domain : Domain} {handle sc : UInt32} {o : Outcome}
  {pra : Option (ℕ → Invoke.RemoteArg)} (before after : Store) (crcRemote : CrcList)

/-- A call that reaches the driver has run the first loop, and runs the code behind the `ioctl`. -/
theorem crcReport_issued (henabled : crcEnabled p domain handle = true)
    (hissued : (remoteHandleInvokeDomain p domain handle sc o pra).issued.isSome) :
    ∃ crcLocal, inputCrcs sc (pra.getD (fun _ => ⟨0, 0⟩)) before after = some crcLocal ∧
      crcReport p domain handle sc o pra before after crcRemote =
        outputCrcs sc (pra.getD (fun _ => ⟨0, 0⟩)) before after crcLocal crcRemote := by
  have hinputs : (inputCrcs sc (pra.getD (fun _ => ⟨0, 0⟩)) before after).isSome := inputCrcs_isSome
  obtain ⟨crcLocal, hin⟩ := Option.isSome_iff_exists.mp hinputs
  refine ⟨crcLocal, hin, ?_⟩
  simp only [crcReport, henabled, if_true, hin, Option.bind_eq_bind, Option.bind_some, hissued]

/-- **The check is complete and in bounds** exactly when the call has no output buffer or no more buffers
than the lists have entries: for every call with checksums enabled that reaches the driver, every memory
before and after it and every list that the driver returns. -/
theorem arguments_checked_iff (henabled : crcEnabled p domain handle = true)
    (hissued : (remoteHandleInvokeDomain p domain handle sc o pra).issued.isSome) :
    Checked sc (pra.getD (fun _ => ⟨0, 0⟩)) before after crcRemote
        (crcReport p domain handle sc o pra before after crcRemote) ↔
      Listener.remoteScalarsOutBufs sc.toNat = 0 ∨ bufCount sc ≤ mCrcList := by
  obtain ⟨crcLocal, hin, hreport⟩ := crcReport_issued before after crcRemote henabled hissued
  rw [hreport]
  constructor
  · rintro ⟨r, hr, _⟩
    exact outputCrcs_isSome.mp (Option.isSome_iff_exists.mpr ⟨r, hr⟩)
  · intro h
    obtain ⟨r, hr⟩ := Option.isSome_iff_exists.mp (outputCrcs_isSome.mpr h)
    exact ⟨r, hr, outputCrcs_eq_some hin hr⟩

end Report

/-- An open session of domain 3 with `FASTRPC_MODE_CRC`. -/
def crcSession : Process :=
  ⟨fun _ => ⟨false, 5, false, 0, 4, false⟩, WakeLock.State.new, [], DmaHandles.DmaTable.empty, false, false⟩

/-- One input and one output buffer. -/
theorem arguments_checked_iff_two :
    Checked 0x10100 (fun i => ⟨4096 * (i + 1), 8⟩) (fun _ => 1) (fun _ => 2)
      (Vector.replicate mCrcList 7#32)
      (crcReport crcSession 3 20 0x10100 allDone (some (fun i => ⟨4096 * (i + 1), 8⟩)) (fun _ => 1)
        (fun _ => 2) (Vector.replicate mCrcList 7#32)) :=
  (arguments_checked_iff (fun _ => 1) (fun _ => 2) _ (by decide) (by decide +kernel)).mpr
    (Or.inr (by decide))

/-- With 65 output buffers, the checksum of the last one is written behind the list. -/
theorem last_checksum_outside :
    crcEnabled crcSession 3 20 = true ∧
      (remoteHandleInvokeDomain crcSession 3 20 0x4100 allDone
        (some (fun i => ⟨4096 * (i + 1), 8⟩))).issued.isSome ∧
      ¬ Checked 0x4100 (fun i => ⟨4096 * (i + 1), 8⟩) (fun _ => 1) (fun _ => 2)
        (Vector.replicate mCrcList 0#32)
        (crcReport crcSession 3 20 0x4100 allDone (some (fun i => ⟨4096 * (i + 1), 8⟩)) (fun _ => 1)
          (fun _ => 2) (Vector.replicate mCrcList 0#32)) := by
  have henabled : crcEnabled crcSession 3 20 = true := by decide
  have hissued : (remoteHandleInvokeDomain crcSession 3 20 0x4100 allDone
      (some (fun i => ⟨4096 * (i + 1), 8⟩))).issued.isSome := by decide +kernel
  refine ⟨henabled, hissued, ?_⟩
  rintro ⟨r, hr, _⟩
  obtain ⟨crcLocal, _, hreport⟩ := crcReport_issued (fun _ => 1) (fun _ => 2) _ henabled hissued
  have hbounds := outputCrcs_isSome.mp (Option.isSome_iff_exists.mpr ⟨r, hreport.symm.trans hr⟩)
  exact absurd hbounds (by decide)

end FastRpc.ArgumentCrc
