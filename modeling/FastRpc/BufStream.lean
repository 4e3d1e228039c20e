import FastRpc.FileTable

/-! # Files in memory

`apps_std_fdopen_decrypt` reads a whole file into a buffer, decrypts it there and turns the entry of
the file into a buffer with a position.  From then on `apps_std_fread`, `apps_std_fseek`,
`apps_std_ftell` and `apps_std_flen` work on the buffer, and `apps_std_feof` refuses with `EBADF`, as
all calls on the state of a C stream do.

The reference is a stdio stream over the same bytes that can only be read and refuses to seek outside
of them.  The position of a buffer is an `int` that each origin of `apps_std_fseek` computes and checks
in its own way; `buffer_streams_follow_stdio` says that the two agree, and that no read leaves the
buffer, in every run whose offsets and lengths these checks are made for. -/

/-- A stdio stream over a list of bytes that can only be read. -/
structure StdioStream where
  bytes : List UInt8
  pos : ℕ
  eof : Bool
  deriving DecidableEq, Repr

namespace StdioStream

/-- `fread` of `n` bytes. -/
def read (s : StdioStream) (n : ℕ) : List UInt8 × StdioStream :=
  let out := (s.bytes.drop s.pos).take n
  (out, ⟨s.bytes, s.pos + out.length, s.eof || decide (out.length < n)⟩)

/-- `fseek` to a position, which must lie in the file. -/
def seek (s : StdioStream) (target : ℤ) : Option StdioStream :=
  if 0 ≤ target ∧ target ≤ s.bytes.length then some ⟨s.bytes, target.toNat, false⟩ else none

theorem seek_outside {s : StdioStream} {target : ℤ} (h : (s.bytes.length : ℤ) < target) :
    s.seek target = none := if_neg (by omega)

/-- The length of a read, and that it stays in the file. -/
theorem read_length (s : StdioStream) (n : ℕ) :
    (s.read n).1.length = min n (s.bytes.length - s.pos) ∧
      (s.read n).2.pos = s.pos + (s.read n).1.length ∧ (s.read n).2.bytes = s.bytes := by
  unfold read
  simp

end StdioStream

namespace FastRpc.BufStream

open CInt Transition FileTable

/-! ### The calls -/

/-- `apps_std_SEEK`. -/
inductive Seek
  | SET
  | CUR
  | END
  deriving DecidableEq, Repr

/-- The calls on a file, without the handle. -/
inductive BufOp
  | fread (bufLen : ℤ)
  | fseek (offset : ℤ) (whence : Seek)
  | ftell
  | feof
  | flen
  deriving DecidableEq, Repr

/-- What a call returns. -/
inductive Answer
  | read (bytes : List UInt8)
  | done
  | pos (z : ℤ)
  | len (z : ℤ)
  | eof (b : Bool)
  | error (e : StdError)
  deriving DecidableEq, Repr

/-- The bytes that a call reads from the buffer: the first one and their number. -/
structure Touched where
  start : ℤ
  count : ℤ
  deriving DecidableEq, Repr

/-- `memcpy(buf, fbuf + pos, read)`.  What lies outside the buffer is unspecified. -/
def memcpyOut (fbuf : List UInt8) (t : Touched) : List UInt8 :=
  (List.range t.count.toNat).map (fun (i : ℕ) => fbuf.getD (t.start + i).toNat 0)

/-- `unsigned int read = STD_MIN(bufLen, flen - pos)`. -/
def readLen (b : BufInfo) (bufLen : ℤ) : ℤ := toU32 (min bufLen (wrap (b.flen - b.pos)))

/-- `apps_std_fread` on a buffer: the bytes, `*bEOF` and the new state. -/
def freadBuf (b : BufInfo) (bufLen : ℤ) : List UInt8 × Bool × Touched × BufInfo :=
  let touched := ⟨b.pos, readLen b bufLen⟩
  let b' := { b with pos := wrap (b.pos + readLen b bufLen) }
  (memcpyOut (b.fbuf.getD []) touched, b'.pos = b'.flen, touched, b')

/-- `apps_std_fseek` on a buffer. -/
def fseekBuf (b : BufInfo) (offset : ℤ) : Seek → Except StdError BufInfo
  | .SET =>
      if offset ≤ b.flen then .ok { b with pos := offset } else .error .EFILE
  | .CUR =>
      if wrap (offset + b.pos) ≤ b.flen then .ok { b with pos := wrap (b.pos + offset) }
      else .error .EFILE
  | .END =>
      if offset ≤ intMax - b.flen then
        .ok { b with pos := wrap (b.pos + wrap (offset + b.flen)) }
      else .error .EFILE

/-- One call on a buffer: its answer, the bytes it reads and the new state. -/
def bufOp (b : BufInfo) : BufOp → Answer × Touched × BufInfo
  | .fread bufLen => let r := freadBuf b bufLen; (.read r.1, r.2.2.1, r.2.2.2)
  | .fseek offset whence =>
      match fseekBuf b offset whence with
      | .ok b' => (.done, ⟨0, 0⟩, b')
      | .error e => (.error e, ⟨0, 0⟩, b)
  | .ftell => (.pos b.pos, ⟨0, 0⟩, b)
  | .feof => (.error .EBADF, ⟨0, 0⟩, b)
  | .flen => (.len b.flen, ⟨0, 0⟩, b)

/-- The position that a seek asks for. -/
def seekTarget (s : StdioStream) (offset : ℤ) : Seek → ℤ
  | .SET => offset
  | .CUR => s.pos + offset
  | .END => s.bytes.length + offset

/-- The same call on the reference. -/
def stdioOp (s : StdioStream) : BufOp → Answer × StdioStream
  | .fread bufLen => let r := s.read bufLen.toNat; (.read r.1, r.2)
  | .fseek offset whence =>
      match s.seek (seekTarget s offset whence) with
      | some s' => (.done, s')
      | none => (.error .EFILE, s)
  | .ftell => (.pos s.pos, s)
  | .feof => (.eof s.eof, s)
  | .flen => (.len s.bytes.length, s)

/-! ### The table with the references -/

/-- A call on a buffer and the two answers. -/
structure Outcome where
  op : BufOp
  code : Answer
  ref : Answer
  touched : Touched
  size : ℤ
  deriving DecidableEq, Repr

/-- The table of files, the reference of each entry and the calls on buffers. -/
structure World where
  table : Table
  ref : ℕ → StdioStream
  log : List Outcome

/-- The steps: `apps_std_fopen` enters a stream, `apps_std_fclose` and `apps_std_fdopen_decrypt` are
given what their C calls do, and the calls on a file follow. -/
inductive Event
  | fopen (stream : ℕ) (mem : Bool)
  | fclose (sin : ℤ) (closed : Bool)
  | fdopenDecrypt (sin : ℤ) (opened : Option (List UInt8 × ℤ))
  | op (sin : ℤ) (op : BufOp)
  deriving DecidableEq, Repr

/-- `apps_std_FILE_set_buffer_stream` when the file had `bytes` and `ftell` returned `pos`. -/
def setBufferStream (w : World) (qn : ℕ) (bytes : List UInt8) (pos : ℤ) : World :=
  { w with
    table := w.table.setStream qn (.buf ⟨some bytes, bytes.length, pos⟩)
    ref := Function.update w.ref qn ⟨bytes, pos.toNat, false⟩ }

/-- A call on a buffer beside its reference. -/
def callBuf (w : World) (qn : ℕ) (b : BufInfo) (op : BufOp) : World :=
  let r := bufOp b op
  let q := stdioOp (w.ref qn) op
  { table := w.table.setStream qn (.buf r.2.2)
    ref := Function.update w.ref qn q.2
    log := ⟨op, r.1, q.1, r.2.1, (b.fbuf.getD []).length⟩ :: w.log }

/-- One step.  The size of a file that is read into a buffer is an `int`. -/
def step (w : World) : Event → Option World
  | .fopen stream mem =>
      match fileAlloc w.table stream mem with
      | .ok r => some { w with table := r.2 }
      | .error _ => some w
  | .fclose sin closed =>
      match fileGet w.table sin with
      | .error _ => some w
      | .ok sinfo =>
          match sinfo.u with
          | .file _ =>
              some (if closed then { w with table := fileFree w.table sinfo.qn } else w)
          | .buf _ => some { w with table := fileFree w.table sinfo.qn }
  | .fdopenDecrypt sin opened =>
      match fileGet w.table sin, opened with
      | .ok sinfo, some (bytes, pos) =>
          match sinfo.u with
          | .file _ =>
              if (bytes.length : ℤ) ≤ intMax then some (setBufferStream w sinfo.qn bytes pos)
              else none
          | .buf _ => some w
      | _, _ => some w
  | .op sin op =>
      match fileGet w.table sin with
      | .error _ => some w
      | .ok sinfo =>
          match sinfo.u with
          | .file _ => some w
          | .buf b => some (callBuf w sinfo.qn b op)

/-- No file was ever opened. -/
def init : World := ⟨Table.empty, fun _ => ⟨[], 0, false⟩, []⟩

/-! ### What the checks are made for -/

/-- The calls that the code computes as meant: lengths that are not negative, offsets from the start
that are not negative, offsets from the position that stay between 0 and `INT_MAX`, and offsets from
the end that are too large or, at position 0, lead into the file. -/
def Meant (b : BufInfo) : BufOp → Prop
  | .fread bufLen => 0 ≤ bufLen
  | .fseek offset .SET => 0 ≤ offset
  | .fseek offset .CUR => 0 ≤ b.pos + offset ∧ b.pos + offset ≤ intMax
  | .fseek offset .END =>
      intMax - b.flen < offset ∨ b.pos = 0 ∧ -b.flen ≤ offset ∧ offset ≤ 0
  | .ftell | .feof | .flen => True

instance (b : BufInfo) : (op : BufOp) → Decidable (Meant b op)
  | .fread _ => inferInstanceAs (Decidable (_ ≤ _))
  | .fseek _ .SET => inferInstanceAs (Decidable (_ ≤ _))
  | .fseek _ .CUR => inferInstanceAs (Decidable (_ ∧ _))
  | .fseek _ .END => inferInstanceAs (Decidable (_ ∨ _))
  | .ftell | .feof | .flen => isTrue trivial

/-- The buffer that a handle leads to. -/
def bufAt (t : Table) (sin : ℤ) : Option BufInfo :=
  match fileGet t sin with
  | .ok ⟨_, .buf b, _⟩ => some b
  | .ok ⟨_, .file _, _⟩ | .error _ => none

/-- Files are turned into buffers at a position inside, and the calls on them are as meant. -/
def AsMeant (w : World) : Event → Prop
  | .fdopenDecrypt _ (some (bytes, pos)) => 0 ≤ pos ∧ pos ≤ bytes.length
  | .op sin op => ∀ b ∈ bufAt w.table sin, Meant b op
  | .fopen _ _ | .fclose _ _ | .fdopenDecrypt _ none => True

instance (w : World) : (e : Event) → Decidable (AsMeant w e)
  | .fdopenDecrypt _ (some _) => inferInstanceAs (Decidable (_ ∧ _))
  | .op _ _ => inferInstanceAs (Decidable (∀ _ ∈ _, _))
  | .fopen _ _ | .fclose _ _ | .fdopenDecrypt _ none => isTrue trivial

/-- A call read only bytes of the buffer and answered as the reference does; `apps_std_feof` was
refused. -/
def Outcome.Right (o : Outcome) : Prop :=
  (0 ≤ o.touched.start ∧ o.touched.start + o.touched.count ≤ o.size) ∧
    if o.op = .feof then o.code = .error .EBADF else o.code = o.ref

/-- The state of a buffer is that of its reference. -/
structure Matches (b : BufInfo) (s : StdioStream) : Prop where
  fbuf : b.fbuf = some s.bytes
  flen : b.flen = s.bytes.length
  pos : b.pos = s.pos
  inside : s.pos ≤ s.bytes.length
  fits : (s.bytes.length : ℤ) ≤ intMax

/-! ### One call on a buffer -/

/-- Inside the buffer `memcpy` copies what is there. -/
theorem memcpyOut_inside {l : List UInt8} {p n : ℕ} (h : p + n ≤ l.length) :
    memcpyOut l ⟨p, n⟩ = (l.drop p).take n := by
  unfold memcpyOut
  apply List.ext_getElem
  · simp; omega
  · intro i hi _
    have hin : i < n := by simpa using hi
    have hget : p + i < l.length := by omega
    have hnat : ((p : ℤ) + (i : ℤ)).toNat = p + i := by omega
    simp [hnat, hget]

section Calls

variable {b b' : BufInfo} {s : StdioStream} {op : BufOp}

/-- The number of bytes that a read of a buffer copies. -/
theorem readLen_eq (h : Matches b s) {n : ℕ} :
    readLen b n = (min n (s.bytes.length - s.pos) : ℕ) := by
  have hflen := h.flen
  have hpos := h.pos
  have hin := h.inside
  have hfits := h.fits
  have hleft : wrap (b.flen - b.pos) = b.flen - b.pos :=
    wrap_of_inRange (inRange_of_nonneg (by omega) (by omega))
  unfold readLen
  rw [hleft, toU32_of_nonneg (by omega) (by omega)]
  omega

/-- **A read of a buffer** returns the bytes that are left, up to the length asked for. -/
theorem freadBuf_eq (h : Matches b s) (n : ℕ) :
    freadBuf b n = ((s.read n).1, decide ((s.read n).2.pos = s.bytes.length),
      ⟨s.pos, (s.read n).1.length⟩, { b with pos := (s.read n).2.pos }) := by
  have hlen := readLen_eq h (n := n)
  have hout : ((s.bytes.drop s.pos).take n).length = min n (s.bytes.length - s.pos) := by simp
  have hin := h.inside
  have hfits := h.fits
  have hpos : wrap (b.pos + readLen b n) = (s.pos + min n (s.bytes.length - s.pos) : ℕ) := by
    rw [hlen, h.pos, wrap_of_inRange (inRange_of_nonneg (by omega) (by omega))]
    push_cast
    rfl
  have hcopy : memcpyOut (b.fbuf.getD []) ⟨b.pos, readLen b n⟩ = (s.bytes.drop s.pos).take n := by
    rw [hlen, h.pos, h.fbuf, Option.getD_some, memcpyOut_inside (by omega)]
    rcases Nat.le_total n (s.bytes.length - s.pos) with hle | hle
    · rw [Nat.min_eq_left hle]
    · rw [Nat.min_eq_right hle, List.take_of_length_le (by simp), List.take_of_length_le]
      simpa using hle
  unfold freadBuf StdioStream.read
  simp only [hcopy, hpos]
  simp only [hlen, h.pos, h.flen, hout]
  norm_cast

/-- A seek to a position in the file. -/
theorem Matches.moved (h : Matches b s) (target : ℤ) (h0 : 0 ≤ target)
    (hle : target ≤ s.bytes.length) :
    ∃ s', s.seek target = some s' ∧ Matches { b with pos := target } s' := by
  refine ⟨⟨s.bytes, target.toNat, false⟩, if_pos ⟨h0, hle⟩, h.fbuf, h.flen, ?_, ?_, h.fits⟩
  · exact (Int.toNat_of_nonneg h0).symm
  · exact Int.toNat_le.mpr hle

/-- **A seek in a buffer** moves to the position that the reference moves to, or both refuse. -/
theorem fseekBuf_spec (h : Matches b s) {offset : ℤ} {whence : Seek}
    (hmeant : Meant b (.fseek offset whence)) :
    (∃ b' s', fseekBuf b offset whence = .ok b' ∧ s.seek (seekTarget s offset whence) = some s' ∧
      Matches b' s') ∨
      fseekBuf b offset whence = .error .EFILE ∧ s.seek (seekTarget s offset whence) = none := by
  have hflen := h.flen
  have hpos := h.pos
  have hin := h.inside
  have hfits := h.fits
  cases whence with
  | SET =>
      have hlow : 0 ≤ offset := hmeant
      by_cases hle : offset ≤ b.flen
      · obtain ⟨s', hs', hm⟩ := h.moved _ hlow (by omega)
        exact Or.inl ⟨_, s', if_pos hle, hs', hm⟩
      · exact Or.inr ⟨if_neg hle, StdioStream.seek_outside (by simp only [seekTarget]; omega)⟩
  | CUR =>
      obtain ⟨hlow, hhigh⟩ : 0 ≤ b.pos + offset ∧ b.pos + offset ≤ intMax := hmeant
      have hsum : wrap (b.pos + offset) = b.pos + offset :=
        wrap_of_inRange (inRange_of_nonneg hlow hhigh)
      unfold fseekBuf
      rw [Int.add_comm offset b.pos, hsum]
      by_cases hle : b.pos + offset ≤ b.flen
      · obtain ⟨s', hs', hm⟩ := h.moved _ hlow (by omega)
        refine Or.inl ⟨_, s', if_pos hle, ?_, hm⟩
        rw [← hs', seekTarget, hpos]
      · exact Or.inr ⟨if_neg hle, StdioStream.seek_outside (by simp only [seekTarget]; omega)⟩
  | END =>
      unfold fseekBuf
      rcases hmeant with hlarge | ⟨hzero, hlow, hhigh⟩
      · exact Or.inr ⟨if_neg (by omega), StdioStream.seek_outside (by simp only [seekTarget]; omega)⟩
      · have hsum : wrap (offset + b.flen) = offset + b.flen :=
          wrap_of_inRange (inRange_of_nonneg (by omega) (by omega))
        have hnew : wrap (b.pos + wrap (offset + b.flen)) = b.flen + offset := by
          rw [hsum, hzero, Int.zero_add, hsum, Int.add_comm]
        rw [hnew]
        obtain ⟨s', hs', hm⟩ := h.moved (b.flen + offset) (by omega) (by omega)
        refine Or.inl ⟨_, s', if_pos (by omega), ?_, hm⟩
        rw [← hs', seekTarget, hflen]

/-- **A call on a buffer** keeps the state of the reference, reads inside the buffer and answers as
the reference does, but for `apps_std_feof`. -/
theorem bufOp_spec (h : Matches b s) (hmeant : Meant b op) :
    Matches (bufOp b op).2.2 (stdioOp s op).2 ∧
      (0 ≤ (bufOp b op).2.1.start ∧
        (bufOp b op).2.1.start + (bufOp b op).2.1.count ≤ s.bytes.length) ∧
      if op = .feof then (bufOp b op).1 = .error .EBADF else (bufOp b op).1 = (stdioOp s op).1 := by
  have hin := h.inside
  cases op with
  | fread bufLen =>
      unfold Meant at hmeant
      obtain ⟨n, rfl⟩ := Int.eq_ofNat_of_zero_le hmeant
      obtain ⟨hlen, hpos, hbytes⟩ := s.read_length n
      simp only [bufOp, stdioOp, freadBuf_eq h n, Int.toNat_natCast]
      refine ⟨⟨?_, ?_, rfl, ?_, ?_⟩, ⟨?_, ?_⟩, ?_⟩
      · rw [hbytes]; exact h.fbuf
      · rw [hbytes]; exact h.flen
      · rw [hbytes]; omega
      · rw [hbytes]; exact h.fits
      · omega
      · omega
      · simp
  | fseek offset whence =>
      simp only [bufOp, stdioOp]
      rcases fseekBuf_spec h hmeant with ⟨b', s', hb, hs, hm⟩ | ⟨hb, hs⟩
      · rw [hb, hs]
        exact ⟨hm, ⟨le_rfl, by simp⟩, by simp⟩
      · rw [hb, hs]
        exact ⟨h, ⟨le_rfl, by simp⟩, by simp⟩
  | ftell => exact ⟨h, ⟨le_rfl, by simp [bufOp]⟩, by simp [bufOp, stdioOp, h.pos]⟩
  | feof => exact ⟨h, ⟨le_rfl, by simp [bufOp]⟩, rfl⟩
  | flen => exact ⟨h, ⟨le_rfl, by simp [bufOp]⟩, by simp [bufOp, stdioOp, h.flen]⟩

end Calls

/-! ### Runs -/

/-- The invariant of the runs. -/
structure Inv (w : World) : Prop where
  named : Named w.table
  bufs : ∀ info ∈ w.table.qlst, ∀ b, info.u = .buf b → Matches b (w.ref info.qn)
  right : ∀ o ∈ w.log, o.Right

theorem inv_init : Inv init :=
  ⟨named_empty, fun _ h => absurd h List.not_mem_nil, fun _ h => absurd h List.not_mem_nil⟩

section Steps

variable {w w' : World} {info : AppsStdInfo} {b : BufInfo} {sin : ℤ}

/-- An entry becomes, or stays, a buffer that matches its reference. -/
theorem Inv.bufs_setStream (h : Inv w) {qn : ℕ} {s : StdioStream} (hm : Matches b s) :
    ∀ info ∈ (w.table.setStream qn (.buf b)).qlst, ∀ b', info.u = .buf b' →
      Matches b' (Function.update w.ref qn s info.qn) := by
  intro info hmem b' hu
  obtain ⟨old, hold, rfl⟩ := mem_setStream hmem
  by_cases hqn : old.qn = qn
  · rw [if_pos hqn] at hu ⊢
    rw [← Stream.buf.inj hu]
    simpa [hqn] using hm
  · rw [if_neg hqn] at hu ⊢
    rw [Function.update_of_ne hqn]
    exact h.bufs old hold b' hu

/-- An entry is taken off. -/
theorem Inv.freed (h : Inv w) (qn : ℕ) : Inv { w with table := fileFree w.table qn } where
  named := named_free h.named qn
  bufs := fun info hmem => h.bufs info (List.mem_of_mem_eraseP hmem)
  right := h.right

theorem inv_callBuf (h : Inv w) (hmem : info ∈ w.table.qlst) (hu : info.u = .buf b)
    {op : BufOp} (hmeant : Meant b op) : Inv (callBuf w info.qn b op) := by
  have hb := h.bufs info hmem b hu
  obtain ⟨hm, htouched, hanswer⟩ := bufOp_spec hb hmeant
  refine ⟨named_setStream h.named _ _, h.bufs_setStream hm, fun o ho => ?_⟩
  rcases List.mem_cons.mp ho with rfl | ho
  · refine ⟨?_, hanswer⟩
    simpa only [hb.fbuf, Option.getD_some] using htouched
  · exact h.right o ho

theorem inv_setBufferStream (h : Inv w) (qn : ℕ) {bytes : List UInt8} {pos : ℤ}
    (hfits : (bytes.length : ℤ) ≤ intMax) (h0 : 0 ≤ pos) (hle : pos ≤ bytes.length) :
    Inv (setBufferStream w qn bytes pos) where
  named := named_setStream h.named _ _
  bufs := h.bufs_setStream
    ⟨rfl, rfl, (Int.toNat_of_nonneg h0).symm, Int.toNat_le.mpr hle, hfits⟩
  right := h.right

theorem bufAt_eq_some (hget : fileGet w.table sin = .ok info) (hu : info.u = .buf b) :
    bufAt w.table sin = some b := by
  obtain ⟨qn, u, fd⟩ := info
  simp only at hu
  subst hu
  rw [bufAt, hget]

theorem inv_step (w : World) (e : Event) (w' : World) (h : Inv w) (hC : AsMeant w e)
    (hstep : step w e = some w') : Inv w' := by
  cases e with
  | fopen stream mem =>
      cases mem with
      | false => exact Option.some.inj hstep ▸ h
      | true =>
          obtain ⟨fd, t', halloc⟩ := fileAlloc_true w.table stream
          simp only [step, halloc, Option.some.injEq] at hstep
          subst hstep
          refine ⟨named_alloc h.named halloc, fun info hmem b hu => ?_, h.right⟩
          rcases List.mem_cons.mp ((fileAlloc_perm halloc).1.mem_iff.mp hmem) with rfl | hmem
          · exact absurd hu (by simp)
          · exact h.bufs info hmem b hu
  | fclose sin closed =>
      cases hget : fileGet w.table sin with
      | error e =>
          simp only [step, hget, Option.some.injEq] at hstep
          exact hstep ▸ h
      | ok info =>
          cases hu : info.u with
          | file stream =>
              simp only [step, hget, hu, Option.some.injEq] at hstep
              subst hstep
              cases closed with
              | false => exact h
              | true => exact h.freed info.qn
          | buf b =>
              simp only [step, hget, hu, Option.some.injEq] at hstep
              exact hstep ▸ h.freed info.qn
  | fdopenDecrypt sin opened =>
      cases hget : fileGet w.table sin with
      | error e =>
          simp only [step, hget, Option.some.injEq] at hstep
          exact hstep ▸ h
      | ok info =>
          cases opened with
          | none =>
              simp only [step, hget, Option.some.injEq] at hstep
              exact hstep ▸ h
          | some p =>
              obtain ⟨bytes, pos⟩ := p
              cases hu : info.u with
              | buf b =>
                  simp only [step, hget, hu, Option.some.injEq] at hstep
                  exact hstep ▸ h
              | file stream =>
                  simp only [step, hget, hu] at hstep
                  split_ifs at hstep with hfits
                  exact Option.some.inj hstep ▸ inv_setBufferStream h info.qn hfits hC.1 hC.2
  | op sin op =>
      cases hget : fileGet w.table sin with
      | error e =>
          simp only [step, hget, Option.some.injEq] at hstep
          exact hstep ▸ h
      | ok info =>
          cases hu : info.u with
          | file stream =>
              simp only [step, hget, hu, Option.some.injEq] at hstep
              exact hstep ▸ h
          | buf b =>
              simp only [step, hget, hu, Option.some.injEq] at hstep
              exact hstep ▸ inv_callBuf h (fileGet_mem hget).1 hu
                (hC b (bufAt_eq_some hget hu))

end Steps

/-- **Buffers follow stdio.** In every run whose buffers are opened at a position in the file and whose
calls the checks are made for, the position of every buffer lies between 0 and its length, every call
on a buffer read only bytes of it, and every call but `apps_std_feof`, which was refused with `EBADF`,
answered as a stdio stream over the same bytes. -/
theorem buffer_streams_follow_stdio {es : List Event} {w : World} (hrun : run step init es = some w)
    (hmeant : Guarded step AsMeant init es) :
    (∀ info ∈ w.table.qlst, ∀ b, info.u = .buf b →
      0 ≤ b.pos ∧ b.pos ≤ b.flen ∧ b.flen = ((b.fbuf.getD []).length : ℤ) ∧
        b.pos = (w.ref info.qn).pos ∧ b.fbuf = some (w.ref info.qn).bytes) ∧
      ∀ o ∈ w.log, (0 ≤ o.touched.start ∧ o.touched.start + o.touched.count ≤ o.size) ∧
        if o.op = .feof then o.code = .error .EBADF else o.code = o.ref := by
  have h : Inv w := guarded_invariant inv_step inv_init hmeant hrun
  refine ⟨fun info hmem b hu => ?_, h.right⟩
  have hm := h.bufs info hmem b hu
  have hpos := hm.pos
  have hflen := hm.flen
  have hin := hm.inside
  refine ⟨by omega, by omega, ?_, hpos, hm.fbuf⟩
  rw [hm.fbuf]
  exact hflen

/-- A file of three bytes that is read, sought in, and asked for its position, its end and its
length. -/
def someEvents : List Event :=
  [.fopen 0 true, .fdopenDecrypt 100 (some ([1, 2, 3], 0)), .op 100 (.fseek (-1) .END),
    .op 100 (.fread 5), .op 100 (.fseek 4 .SET), .op 100 (.fseek (-2) .CUR), .op 100 .ftell,
    .op 100 .feof, .op 100 .flen]

theorem buffer_streams_follow_stdio_someEvents :
    ∃ w, run step init someEvents = some w ∧
      w.log.map Outcome.code = [.len 3, .error .EBADF, .pos 1, .done, .error .EFILE, .read [3],
        .done] ∧
      ∀ o ∈ w.log, (0 ≤ o.touched.start ∧ o.touched.start + o.touched.count ≤ o.size) ∧
        if o.op = .feof then o.code = .error .EBADF else o.code = o.ref := by
  have hview : (run step init someEvents).map (fun w => w.log.map Outcome.code) =
      some [.len 3, .error .EBADF, .pos 1, .done, .error .EFILE, .read [3], .done] := by
    decide +kernel
  obtain ⟨w, hrun, hlog⟩ := Option.map_eq_some_iff.mp hview
  exact ⟨w, hrun, hlog, (buffer_streams_follow_stdio hrun (by decide +kernel)).2⟩

/-- `apps_std_feof` does not answer as a stdio stream does: it is refused. -/
theorem feof_refused :
    ∃ w, run step init [.fopen 0 true, .fdopenDecrypt 100 (some ([1, 2, 3], 0)), .op 100 .feof] =
      some w ∧ w.log.map (fun o => (o.code, o.ref)) = [(.error .EBADF, .eof false)] :=
  Option.map_eq_some_iff.mp (show (run step init [.fopen 0 true,
    .fdopenDecrypt 100 (some ([1, 2, 3], 0)), .op 100 .feof]).map
      (fun w => w.log.map (fun o => (o.code, o.ref))) = some [(.error .EBADF, .eof false)]
    by decide +kernel)

end FastRpc.BufStream
