import Mathlib.Data.List.Forall2
import FastRpc.Basic
import FastRpc.Transition

/-! # The shared process buffer of `fastrpc_procbuf.c`

Before a session starts the library packs the configuration of the process into a buffer of
`PROC_SHAREDBUF_SIZE` bytes that it shares with the DSP.  The first word counts the parameters; each
parameter is one word with its id in the top `8` bits and its size, rounded up to whole words, in the
low `24`, and then its payload.  `packProcSharedBufParams` is the source's function; its state is the
memory from the start of the buffer on, the bytes behind the buffer included, and the address where
the next parameter goes.  `readRecords` is the documented layout read back.

The end of the buffer is computed as `buf_start_addr + PROC_SHAREDBUF_SIZE` on a pointer to words, so
the function compares with an end that is four times as far away as the real one
(`payload_behind_the_buffer`).  `shared_buffer_format` says that the format is right exactly as long
as no call lies between the two ends. -/

namespace FastRpc.ProcBuf

open ByteStore Transition

/-- `PROC_SHAREDBUF_SIZE`, in bytes. -/
def procSharedbufSize : ℕ := 4 * 1024

/-- `WORD_SIZE`. -/
def wordSize : ℕ := 4

/-- `PROC_ATTR_BUF_ID_POS`. -/
def procAttrBufIdPos : ℕ := 24

/-- `PROC_ATTR_BUF_MAX_ID`. -/
def procAttrBufMaxId : ℕ := 7

/-- `ALIGN_B` on `uint32_t`, for a power of two. -/
def alignB (p a : ℕ) : ℕ := addU32 p (a - 1) / a * a

/-- The memory from `proc_sharedbuf` on, and `proc_sharedbuf_cur_addr` as an offset in it. -/
structure SharedBuf where
  bytes : Store
  curAddr : Option ℕ

/-- Where the next parameter goes; the first one goes behind the count. -/
def SharedBuf.writeAddr (s : SharedBuf) : ℕ := s.curAddr.getD wordSize

/-- `buf_last_addr = buf_start_addr + PROC_SHAREDBUF_SIZE`, on a `uint32_t *`. -/
def bufLastAddr : ℕ := wordSize * procSharedbufSize

/-- The arguments of a call: `param_id`, and the payload unless `param_addr` is `NULL`. -/
structure Param where
  id : ℕ
  payload : Option (List UInt8)
  deriving DecidableEq, Repr

/-- What a successful call leaves, and the ranges that it has written. -/
structure Packed where
  buf : SharedBuf
  writes : List (ℕ × ℕ)

/-- The header word of a parameter. -/
def headerWord (id alignSize : ℕ) : ℕ :=
  addU32 (id * 2 ^ procAttrBufIdPos % 2 ^ 32) (alignSize % 2 ^ procAttrBufIdPos)

/-- `pack_proc_shared_buf_params`.  It writes nothing before its last check. -/
def packProcSharedBufParams (s : SharedBuf) (c : Param) : Except AEEResult Packed :=
  match c.payload with
  | none => .error .EBADPARM
  | some data =>
      let bufWriteAddr := s.writeAddr
      let alignParamSize := alignB data.length wordSize
      if data.length ≤ 0 ∨ procAttrBufMaxId ≤ c.id then .error .EBADPARM
      else if bufLastAddr < bufWriteAddr + alignParamSize + wordSize then .error .ERPC
      else
        let m := write s.bytes bufWriteAddr (toLe 4 (headerWord c.id alignParamSize))
        let dataAddr := bufWriteAddr + wordSize
        -- the difference of two pointers to words is a number of words
        let copied := min ((bufLastAddr - dataAddr) / wordSize) data.length
        let m := write m dataAddr (data.take copied)
        let m := write m 0 (toLe 4 (addU32 (ofLe (slice m 0 4)) 1))
        .ok ⟨⟨m, some (dataAddr + alignParamSize)⟩,
          [(bufWriteAddr, wordSize), (dataAddr, copied), (0, wordSize)]⟩

/-- Reads `n` parameters from `a` on by the documented layout. -/
def readRecords : ℕ → Store → ℕ → List (ℕ × List UInt8)
  | 0, _, _ => []
  | n + 1, m, a =>
      let word := ofLe (slice m a 4)
      let size := word % 2 ^ procAttrBufIdPos
      (word / 2 ^ procAttrBufIdPos, slice m (a + wordSize) size) ::
        readRecords n m (a + wordSize + size)

/-- Reads the whole buffer: the count, and that many parameters behind it. -/
def readBuffer (m : Store) : List (ℕ × List UInt8) := readRecords (ofLe (slice m 0 4)) m wordSize

/-! ### Runs -/

/-- A buffer and the parameters that it has accepted. -/
structure Packing where
  buf : SharedBuf
  accepted : List (ℕ × List UInt8)

/-- A new buffer. -/
def Packing.start (m : Store) : Packing := ⟨⟨m, none⟩, []⟩

/-- One call. -/
def step (s : Packing) (c : Param) : Option Packing :=
  match packProcSharedBufParams s.buf c with
  | .ok p => some ⟨p.buf, s.accepted ++ [(c.id, c.payload.getD [])]⟩
  | .error _ => some s

/-- The parameter fits the rest of the buffer. -/
def Fits (s : Packing) (c : Param) : Prop :=
  ∀ data ∈ c.payload, s.buf.writeAddr + wordSize + alignB data.length wordSize ≤ procSharedbufSize

/-- The call writes inside the buffer only, and one that does not fit changes nothing. -/
structure CallSound (s : Packing) (c : Param) : Prop where
  inside : ∀ p, packProcSharedBufParams s.buf c = .ok p →
    ∀ range ∈ p.writes, range.1 + range.2 ≤ procSharedbufSize
  refused : ¬ Fits s c → step s c = some s

/-- A parameter that is read back: the same id, and the payload padded to whole words. -/
def ReadsBack (accepted read : ℕ × List UInt8) : Prop :=
  read.1 = accepted.1 ∧ read.2.length = alignUp wordSize accepted.2.length ∧ accepted.2 <+: read.2

/-- Reading the buffer gives the accepted parameters, in order. -/
def Readable (s : Packing) : Prop := List.Forall₂ ReadsBack s.accepted (readBuffer s.buf.bytes)

/-- The call is refused for its arguments, or fits the rest of the buffer, or does not even fit in
front of the end that the function compares with. -/
def Decided (s : Packing) (c : Param) : Prop :=
  ∀ data ∈ c.payload, data ≠ [] → c.id < procAttrBufMaxId →
    Fits s c ∨ bufLastAddr < s.buf.writeAddr + alignB data.length wordSize + wordSize

/-! ### The layout -/

/-- The parameters `rs` lie one after the other from `a` to `b`. -/
def Records (m : Store) : ℕ → ℕ → List (ℕ × List UInt8) → Prop
  | a, b, [] => a = b
  | a, b, r :: rs =>
      ofLe (slice m a 4) = r.1 * 2 ^ procAttrBufIdPos + alignUp wordSize r.2.length ∧
        slice m (a + wordSize) r.2.length = r.2 ∧
        Records m (a + wordSize + alignUp wordSize r.2.length) b rs

theorem alignUp_word (n : ℕ) : alignUp wordSize n = (n + 3) / 4 * 4 := rfl

theorem alignB_word {n : ℕ} (h : n < 2 ^ 24) : alignB n wordSize = alignUp wordSize n := by
  rw [alignB, alignUp_word, wordSize, addU32_of_lt (by omega)]

section Layout

variable {m m' : Store} {a b c : ℕ} {rs ss : List (ℕ × List UInt8)}

theorem Records.length_le (h : Records m a b rs) : a + wordSize * rs.length ≤ b := by
  induction rs generalizing a with
  | nil => exact le_of_eq h
  | cons r rs ih =>
      have hrest := ih h.2.2
      rw [List.length_cons]
      simp only [wordSize] at hrest ⊢
      omega

theorem Records.append (h : Records m a b rs) (h' : Records m b c ss) :
    Records m a c (rs ++ ss) := by
  induction rs generalizing a with
  | nil =>
      rw [show a = b from h]
      exact h'
  | cons r rs ih => exact ⟨h.1, h.2.1, ih h.2.2⟩

/-- Only the bytes of the parameters matter. -/
theorem Records.congr (h : Records m a b rs) (hm : ∀ i, a ≤ i → i < b → m' i = m i) :
    Records m' a b rs := by
  induction rs generalizing a with
  | nil => exact h
  | cons r rs ih =>
      have hle := Records.length_le h.2.2
      have halign := alignUp_word r.2.length
      simp only [wordSize] at hle halign
      refine ⟨?_, ?_, ih h.2.2 (fun i hi => hm i (by simp only [wordSize] at hi; omega))⟩
      · rw [slice_congr (fun i hi hi' => hm i hi (by omega))]
        exact h.1
      · rw [slice_congr (fun i hi hi' => hm i (by simp only [wordSize] at hi; omega)
          (by simp only [wordSize] at hi'; omega))]
        exact h.2.1

/-- **Parameters that lie one after the other are read back.** -/
theorem Records.readBack (h : Records m a b rs) (hb : b < 2 ^ 24) :
    List.Forall₂ ReadsBack rs (readRecords rs.length m a) := by
  induction rs generalizing a with
  | nil => exact .nil
  | cons r rs ih =>
      have hle := Records.length_le h.2.2
      have halign := alignUp_word r.2.length
      simp only [wordSize] at hle halign
      have hsize : ofLe (slice m a 4) % 2 ^ procAttrBufIdPos = alignUp wordSize r.2.length := by
        rw [h.1, procAttrBufIdPos, wordSize]
        omega
      have hid : ofLe (slice m a 4) / 2 ^ procAttrBufIdPos = r.1 := by
        rw [h.1, procAttrBufIdPos, wordSize]
        omega
      rw [List.length_cons]
      simp only [readRecords, hsize, hid]
      refine .cons ⟨rfl, slice_length _ _ _, ?_⟩ (ih h.2.2)
      have htake := slice_take m (a + wordSize) (alignUp wordSize r.2.length) r.2.length
        (by simp only [wordSize]; omega)
      rw [h.2.1] at htake
      change r.2 <+: slice m (a + wordSize) (alignUp wordSize r.2.length)
      rw [List.prefix_iff_eq_take]
      exact htake.symm

end Layout

/-! ### The invariant -/

/-- The buffer holds its count and the accepted parameters, and ends where the next one goes. -/
structure Inv (s : Packing) : Prop where
  word : s.buf.writeAddr % wordSize = 0
  inside : s.buf.writeAddr ≤ procSharedbufSize
  count : ofLe (slice s.buf.bytes 0 4) = s.accepted.length
  records : Records s.buf.bytes wordSize s.buf.writeAddr s.accepted

theorem Inv.readable {s : Packing} (h : Inv s) : Readable s := by
  unfold Readable readBuffer
  rw [h.count]
  exact h.records.readBack (lt_of_le_of_lt h.inside (by decide))

theorem Inv.start {m : Store} (hm : ofLe (slice m 0 4) = 0) : Inv (Packing.start m) where
  word := show wordSize % wordSize = 0 from rfl
  inside := show wordSize ≤ procSharedbufSize by decide
  count := hm
  records := rfl

section Step

variable {s t : Packing} {c : Param} {data : List UInt8}

/-- What a call does: it refuses the parameter, or it passes both checks and stores it. -/
theorem packProcSharedBufParams_cases (s : SharedBuf) (c : Param) :
    (∃ code, packProcSharedBufParams s c = .error code ∧
      ∀ data ∈ c.payload, data ≠ [] → c.id < procAttrBufMaxId →
        bufLastAddr < s.writeAddr + alignB data.length wordSize + wordSize) ∨
    ∃ data p, c.payload = some data ∧ data ≠ [] ∧ c.id < procAttrBufMaxId ∧
      s.writeAddr + alignB data.length wordSize + wordSize ≤ bufLastAddr ∧
      packProcSharedBufParams s c = .ok p := by
  unfold packProcSharedBufParams
  cases c.payload with
  | none => exact .inl ⟨_, rfl, fun data hdata => nomatch hdata⟩
  | some data =>
      simp only
      split_ifs with hargs hend
      · refine .inl ⟨_, rfl, ?_⟩
        intro data hdata hne hid
        obtain rfl := Option.some.inj hdata
        have hpos := List.length_pos_iff.mpr hne
        omega
      · refine .inl ⟨_, rfl, ?_⟩
        intro data hdata _ _
        obtain rfl := Option.some.inj hdata
        exact hend
      · refine .inr ⟨data, _, rfl, ?_, by omega, by omega, rfl⟩
        rintro rfl
        exact hargs (.inl (le_refl 0))

/-- A parameter that passes the checks and fits is copied whole: the buffer has more words to the end
that the function uses than the payload has bytes. -/
theorem packProcSharedBufParams_fits {s : SharedBuf} (hdata : c.payload = some data)
    (hne : data ≠ []) (hid : c.id < procAttrBufMaxId) (hword : s.writeAddr % wordSize = 0)
    (hfits : s.writeAddr + wordSize + alignB data.length wordSize ≤ procSharedbufSize)
    (hlen : data.length < 2 ^ 24) :
    packProcSharedBufParams s c = .ok
      ⟨⟨write (write s.bytes s.writeAddr
            (toLe 4 (headerWord c.id (alignUp wordSize data.length)) ++ data)) 0
          (toLe 4 (addU32 (ofLe (slice (write s.bytes s.writeAddr
            (toLe 4 (headerWord c.id (alignUp wordSize data.length)) ++ data)) 0 4)) 1)),
          some (s.writeAddr + wordSize + alignUp wordSize data.length)⟩,
        [(s.writeAddr, wordSize), (s.writeAddr + wordSize, data.length), (0, wordSize)]⟩ := by
  have halign := alignB_word hlen
  have hal := alignUp_word data.length
  have hpos : 0 < data.length := List.length_pos_iff.mpr hne
  rw [halign] at hfits
  simp only [wordSize, procSharedbufSize] at hword hfits hal
  have hcopied : min ((bufLastAddr - (s.writeAddr + wordSize)) / wordSize) data.length =
      data.length := by
    apply min_eq_right
    simp only [bufLastAddr, wordSize, procSharedbufSize]
    omega
  have hargs : ¬ (data.length ≤ 0 ∨ procAttrBufMaxId ≤ c.id) := by omega
  have hend : ¬ bufLastAddr < s.writeAddr + alignUp wordSize data.length + wordSize := by
    simp only [bufLastAddr, wordSize, procSharedbufSize]
    omega
  have happend := write_append s.bytes s.writeAddr
    (toLe 4 (headerWord c.id (alignUp wordSize data.length))) data
  rw [toLe_length] at happend
  unfold packProcSharedBufParams
  simp only [hdata, halign, if_neg hargs, if_neg hend, hcopied, List.take_length]
  rw [show s.writeAddr + wordSize = s.writeAddr + 4 from rfl, happend]

/-- **A call that fits stores its parameter behind the others.** -/
theorem Inv.pack (h : Inv s) (hdata : c.payload = some data) (hne : data ≠ [])
    (hid : c.id < procAttrBufMaxId) (hlen : data.length < 2 ^ 24)
    (hfits : s.buf.writeAddr + wordSize + alignB data.length wordSize ≤ procSharedbufSize) :
    ∃ p, packProcSharedBufParams s.buf c = .ok p ∧
      (∀ range ∈ p.writes, range.1 + range.2 ≤ procSharedbufSize) ∧
      Inv ⟨p.buf, s.accepted ++ [(c.id, data)]⟩ := by
  have hal := alignUp_word data.length
  have hrec := h.records.length_le
  have hpack := packProcSharedBufParams_fits hdata hne hid h.word hfits hlen
  have hword := h.word
  rw [alignB_word hlen] at hfits
  simp only [wordSize, procSharedbufSize] at hword hfits hal hrec
  refine ⟨_, hpack, ?_, ?_⟩
  · intro range hrange
    simp only [wordSize, procSharedbufSize] at hrange ⊢
    simp only [List.mem_cons, List.not_mem_nil, or_false] at hrange
    obtain rfl | rfl | rfl := hrange
    · omega
    · omega
    · decide
  · set w := s.buf.writeAddr with hw
    set record := toLe 4 (headerWord c.id (alignUp wordSize data.length)) ++ data with hrecord
    have hlength : record.length = 4 + data.length := by
      rw [hrecord, List.length_append, toLe_length]
    have hcount : slice (write s.buf.bytes w record) 0 4 = slice s.buf.bytes 0 4 :=
      slice_write_disjoint _ _ (.inl (by omega))
    -- a store to the count leaves the parameters as they are
    have hkeep : ∀ v i, 4 ≤ i →
        write (write s.buf.bytes w record) 0 (toLe 4 v) i = write s.buf.bytes w record i := by
      intro v i hi
      exact write_outside _ _ (.inr (by rw [toLe_length]; omega))
    rw [hcount, h.count, addU32_of_lt (by omega)]
    refine ⟨?_, ?_, ?_, ?_⟩
    · simp only [SharedBuf.writeAddr, Option.getD_some, wordSize]
      omega
    · simp only [SharedBuf.writeAddr, Option.getD_some, wordSize, procSharedbufSize]
      exact hfits
    · have hsame := slice_write_same (write s.buf.bytes w record) 0
        (toLe 4 (s.accepted.length + 1))
      rw [toLe_length] at hsame
      rw [hsame, ofLe_toLe_of_lt (by omega), List.length_append, List.length_singleton]
    · have hold : Records (write (write s.buf.bytes w record) 0
          (toLe 4 (s.accepted.length + 1))) wordSize w s.accepted := by
        refine h.records.congr fun i hi hi' => ?_
        rw [hkeep _ i hi]
        exact write_outside _ _ (.inl hi')
      have hread : slice (write (write s.buf.bytes w record) 0
          (toLe 4 (s.accepted.length + 1))) w record.length = record := by
        rw [slice_congr (fun i hi _ => hkeep _ i (by omega))]
        exact slice_write_same _ _ _
      obtain ⟨hhead, hbody⟩ := slice_eq_append hread
      rw [toLe_length] at hhead hbody
      have hheader : headerWord c.id (alignUp wordSize data.length) =
          c.id * 2 ^ procAttrBufIdPos + alignUp wordSize data.length := by
        simp only [procAttrBufMaxId] at hid
        simp only [headerWord, procAttrBufIdPos, addU32, wordSize]
        omega
      refine hold.append ⟨?_, hbody, rfl⟩
      rw [hhead, ofLe_toLe_of_lt, hheader]
      rw [hheader]
      simp only [procAttrBufMaxId] at hid
      simp only [procAttrBufIdPos, wordSize]
      omega

/-- The step that a decided call takes. -/
theorem Inv.step (h : Inv s) (hlen : ∀ data ∈ c.payload, data.length < 2 ^ 24)
    (hc : Decided s c) : CallSound s c ∧ ∀ t, step s c = some t → Inv t := by
  rcases packProcSharedBufParams_cases s.buf c with
    ⟨code, herror, _⟩ | ⟨data, p, hdata, hne, hid, hend, hok⟩
  · have hstep : ProcBuf.step s c = some s := by
      unfold ProcBuf.step
      rw [herror]
    refine ⟨⟨fun p hp => ?_, fun _ => hstep⟩, fun t ht => ?_⟩
    · rw [herror] at hp
      cases hp
    · rw [hstep] at ht
      exact Option.some.inj ht ▸ h
  · obtain hfits | hfar := hc data hdata hne hid
    · obtain ⟨p', hp', hinside, hinv⟩ := h.pack hdata hne hid (hlen data hdata) (hfits data hdata)
      obtain rfl := Except.ok.inj (hp'.symm.trans hok)
      refine ⟨⟨fun q hq => ?_, fun hnot => absurd hfits hnot⟩, fun t ht => ?_⟩
      · obtain rfl := Except.ok.inj (hok.symm.trans hq)
        exact hinside
      · unfold ProcBuf.step at ht
        rw [hok, hdata] at ht
        exact Option.some.inj ht ▸ hinv
    · omega

/-- A call that is not decided is accepted, although it does not fit. -/
theorem CallSound.decided (h : CallSound s c) : Decided s c := by
  intro data hdata hne hid
  by_cases hfits : Fits s c
  · exact .inl hfits
  · have hrefused := h.refused hfits
    rcases packProcSharedBufParams_cases s.buf c with ⟨code, _, hfar⟩ | ⟨_, p, _, _, _, _, hok⟩
    · exact .inr (hfar data hdata hne hid)
    · unfold ProcBuf.step at hrefused
      rw [hok] at hrefused
      have haccepted := congrArg (fun t => t.accepted.length) (Option.some.inj hrefused)
      simp at haccepted

end Step

/-- **The shared buffer keeps its format exactly when every call is decided.**  Every write then stays
inside the buffer, a parameter that does not fit changes nothing, and reading the buffer gives the
accepted parameters after every call. -/
theorem shared_buffer_format {m : Store} {calls : List Param} (hm : ofLe (slice m 0 4) = 0)
    (hlen : ∀ c ∈ calls, ∀ data ∈ c.payload, data.length < 2 ^ 24) :
    (Along step Readable (Packing.start m) calls ∧
        Guarded step CallSound (Packing.start m) calls) ↔
      Guarded step Decided (Packing.start m) calls := by
  constructor
  · rintro ⟨_, hsound⟩
    exact hsound.mono (fun _ _ h => h.decided)
  · intro hdecided
    exact along_and_guarded (C := fun s c => (∀ data ∈ c.payload, data.length < 2 ^ 24) ∧ Decided s c)
      (fun s c t hs hc ht => (hs.step hc.1 hc.2).2 t ht) (fun _ hs => hs.readable)
      (fun s c hs hc => (hs.step hc.1 hc.2).1) (Inv.start hm) (hdecided.and_forall hlen)

/-- One parameter of three bytes. -/
theorem shared_buffer_format_one_parameter :
    Along step Readable (Packing.start (fun _ => 0)) [⟨0, some [1, 2, 3]⟩] ∧
      Guarded step CallSound (Packing.start (fun _ => 0)) [⟨0, some [1, 2, 3]⟩] := by
  refine (shared_buffer_format rfl ?_).mpr ⟨?_, fun _ _ => trivial⟩
  · intro c hc data hdata
    obtain rfl := List.mem_singleton.mp hc
    obtain rfl := Option.some.inj hdata
    decide
  · intro data hdata _ _
    obtain rfl := Option.some.inj hdata
    left
    intro data hdata
    obtain rfl := Option.some.inj hdata
    decide

/-- A payload of `4096` bytes passes the check in an empty buffer, and is copied behind its end. -/
theorem payload_behind_the_buffer :
    ofLe (slice (fun _ => 0) 0 4) = 0 ∧ (List.replicate 4096 (0 : UInt8)).length < 2 ^ 24 ∧
      ∃ p, packProcSharedBufParams (Packing.start (fun _ => 0)).buf
          ⟨0, some (List.replicate 4096 0)⟩ = .ok p ∧
        ∃ range ∈ p.writes, procSharedbufSize < range.1 + range.2 := by
  refine ⟨rfl, by rw [List.length_replicate]; decide, ?_⟩
  unfold packProcSharedBufParams
  simp only [List.length_replicate]
  rw [if_neg (by decide), if_neg (by decide)]
  exact ⟨_, rfl, (8, 4094), List.mem_cons_of_mem _ List.mem_cons_self, by decide⟩

end FastRpc.ProcBuf
