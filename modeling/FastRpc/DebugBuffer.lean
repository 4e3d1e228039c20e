import FastRpc.ByteStore
import FastRpc.Printf
import FastRpc.Transition

/-! # The buffer of the critical messages

`HAP_debug_v2` and `HAP_debug_runtime` format a message and hand it to `print_dbgbuf_data`, which adds it
to a buffer of 1 MB; where no room is left it starts over behind the buffer's header.  Room is kept for
the message as it is before it is cut off and for 30 more bytes, while what is put in front of it, the
time, process, thread and domain and for the second function also the place of the call, has no fixed
length.  The second function hands on what it has also when it formatted nothing, and looks at no level.

The writes stay in the buffer in any case (`run_inside`).  `records_whole_iff` says in which runs the
buffer holds only whole records of critical messages. -/

namespace FastRpc.DebugBuffer

open ByteStore CInt Printf Transition

/-! ### The code -/

/-- `DEBUG_BUF_SIZE`. -/
def DEBUG_BUF_SIZE : ℕ := 1024 * 1024

/-- `PREPEND_DBGBUF_FARF_SIZE`. -/
def PREPEND_DBGBUF_FARF_SIZE : ℕ := 30

/-- `MAX_FARF_LEN`. -/
def MAX_FARF_LEN : ℕ := 256

/-- `HAP_LEVEL_CRITICAL`. -/
def HAP_LEVEL_CRITICAL : ℤ := 5

/-- `HAP_LEVEL_RPC_CRITICAL`. -/
def HAP_LEVEL_RPC_CRITICAL : ℤ := 21

/-- `DEBUF_BUF_TRACE`. -/
def DEBUF_BUF_TRACE : Text := ascii "frpc_dbgbuf:"

/-- The first place behind the header and its NUL. -/
def headerEnd : ℕ := DEBUF_BUF_TRACE.length + 1

/-- `persist_buf`: whether there is a buffer, the bytes from its beginning on, and the place where the
next record goes. -/
structure PersistBuffer where
  present : Bool
  buf : Store
  size : ℕ

/-- What `GetTime`, `getpid`, `gettid` and `get_current_domain` give in a call. -/
structure Stamp where
  time : UInt64
  pid : Int32
  tid : Int32
  domain : Int32

/-- The levels of the messages that the buffer is for. -/
def IsCritical (level : ℤ) : Prop := level = HAP_LEVEL_RPC_CRITICAL ∨ level = HAP_LEVEL_CRITICAL

instance (level : ℤ) : Decidable (IsCritical level) := inferInstanceAs (Decidable (_ ∨ _))

/-- `IS_PERSIST_BUF_DATA`. -/
def IS_PERSIST_BUF_DATA (len level : ℤ) : Bool :=
  decide (0 < len) && decide (len < MAX_FARF_LEN) && decide (IsCritical level)

/-- `"%llu:%d:%d:dom:%d: "`. -/
def Stamp.text (s : Stamp) : Text :=
  decimal s.time.toNat ++ [0x3A] ++ decimal s.pid.toInt ++ [0x3A] ++ decimal s.tid.toInt ++ ascii ":dom:" ++
    decimal s.domain.toInt ++ ascii ": "

/-- The format of a record; `%s` of `NULL` is `(null)`. -/
def recordText (stamp : Stamp) (data : Option Text) : Text :=
  stamp.text ++ data.getD (ascii "(null)") ++ [0x0A]

/-- The test for room, an addition of unsigned integers. -/
def startsOver (place : ℕ) (size : ℤ) : Bool :=
  decide ((DEBUG_BUF_SIZE : ℤ) < toU32 (place + PREPEND_DBGBUF_FARF_SIZE + size))

/-- The place of the record. -/
def recordPlace (place : ℕ) (size : ℤ) : ℕ := if startsOver place size then headerEnd else place

/-- What `print_dbgbuf_data` writes there. -/
def recordBytes (place : ℕ) (stamp : Stamp) (data : Option Text) : Text :=
  snprintf (toU32 (DEBUG_BUF_SIZE - place)).toNat (recordText stamp data)

/-- `print_dbgbuf_data`. -/
def print_dbgbuf_data (p : PersistBuffer) (stamp : Stamp) (data : Option Text) (size : ℤ) : PersistBuffer :=
  if p.present then
    let place := recordPlace p.size size
    { p with
      buf := write p.buf place (recordBytes place stamp data)
      size := (toU32 (place + (printedLength (recordText stamp data) + 1))).toNat }
  else p

/-- `HAP_debug_v2`: the arguments of its call of `print_dbgbuf_data`, if it makes one.  `malloc` says
whether the buffer is allocated. -/
def HAP_debug_v2 (p : PersistBuffer) (level : ℤ) (msg : Text) (malloc : Bool) : Option (Option Text × ℤ) :=
  if malloc then
    let buf := snprintf MAX_FARF_LEN msg
    let len := printedLength msg
    if p.present && IS_PERSIST_BUF_DATA len level then some (some (cstr buf), len) else none
  else none

/-- `1 << level`; what it is for a level that the C standard gives it no value for is `wild`. -/
def levelBit (wild : ℤ → UInt32) (level : ℤ) : UInt32 :=
  if 0 ≤ level ∧ level < 32 then 1 <<< UInt32.ofNat level.toNat else wild level

/-- `"%d:%d:%s:%s:%d: "`. -/
def origin (stamp : Stamp) (progname file : Text) (line : Int32) : Text :=
  decimal stamp.pid.toInt ++ [0x3A] ++ decimal stamp.tid.toInt ++ [0x3A] ++ cstr progname ++ [0x3A] ++
    cstr file ++ [0x3A] ++ decimal line.toInt ++ ascii ": "

/-- The test of `HAP_debug_runtime` for formatting the message. -/
def formats (wild : ℤ → UInt32) (p : PersistBuffer) (fastrpc_logmask : UInt32) (log_userspace_file : Bool)
    (level : ℤ) : Bool :=
  decide (levelBit wild level &&& fastrpc_logmask ≠ 0) ||
    (decide (level = HAP_LEVEL_RPC_CRITICAL) && p.present) || log_userspace_file

/-- `HAP_debug_runtime`, likewise; `mallocBuf` and `mallocLog` are its two allocations. -/
def HAP_debug_runtime (wild : ℤ → UInt32) (p : PersistBuffer) (fastrpc_logmask : UInt32)
    (log_userspace_file : Bool) (level : ℤ) (msg : Text) (mallocBuf mallocLog : Bool) (front : Text) :
    Option (Option Text × ℤ) :=
  if formats wild p fastrpc_logmask log_userspace_file level then
    if mallocBuf && mallocLog then
      let buf := snprintf MAX_FARF_LEN msg
      let log := snprintf MAX_FARF_LEN (front ++ cstr buf)
      some (some (cstr log), printedLength msg)
    else none
  else some (none, 0)

/-! ### Runs -/

/-- A call. -/
inductive Call
  | debug_v2 (level : ℤ) (msg : Text) (malloc : Bool) (stamp : Stamp)
  | debug_runtime (level : ℤ) (msg : Text) (mallocBuf mallocLog : Bool) (progname file : Text) (line : Int32)
      (stamp : Stamp)
  | set_runtime_logmask (mask : UInt32)

/-- A record as it is meant: the level of its call and the whole text, if there is one. -/
structure Record where
  level : ℤ
  text : Option Text
  stamp : Stamp

/-- The globals, the places and lengths of all writes to the buffer, and the records since the code last
started over. -/
structure World where
  persist : PersistBuffer
  fastrpc_logmask : UInt32
  log_userspace_file : Bool
  writes : List (ℕ × ℕ)
  records : List Record

/-- The bytes of a record with its NUL. -/
def Record.bytes (r : Record) : Text := recordText r.stamp r.text ++ [0]

/-- A call of `print_dbgbuf_data` for a record. -/
def World.print (w : World) (r : Record) (call : Option (Option Text × ℤ)) : World :=
  match call with
  | none => w
  | some (data, size) =>
      if w.persist.present then
        let place := recordPlace w.persist.size size
        { w with
          persist := print_dbgbuf_data w.persist r.stamp data size
          writes := w.writes ++ [(place, (recordBytes place r.stamp data).length)]
          records := (if startsOver w.persist.size size then [] else w.records) ++ [r] }
      else { w with persist := print_dbgbuf_data w.persist r.stamp data size }

variable (wild : ℤ → UInt32)

/-- The record of a call of `HAP_debug_runtime`. -/
def World.runtimeRecord (w : World) (level : ℤ) (msg front : Text) (stamp : Stamp) : Record :=
  ⟨level, if formats wild w.persist w.fastrpc_logmask w.log_userspace_file level then some (front ++ msg) else none,
    stamp⟩

/-- What a call does. -/
def World.call (w : World) : Call → World
  | .debug_v2 level msg malloc stamp => w.print ⟨level, some msg, stamp⟩ (HAP_debug_v2 w.persist level msg malloc)
  | .debug_runtime level msg mallocBuf mallocLog progname file line stamp =>
      w.print (w.runtimeRecord wild level msg (origin stamp progname file line) stamp)
        (HAP_debug_runtime wild w.persist w.fastrpc_logmask w.log_userspace_file level msg mallocBuf mallocLog
          (origin stamp progname file line))
  | .set_runtime_logmask mask => { w with fastrpc_logmask := mask }

/-- A step of a run. -/
def step (w : World) (c : Call) : Option World := some (w.call wild c)

/-- The globals after `fastrpc_log_init`, with a buffer or without one. -/
def fastrpc_log_init (created : Bool) (mem : Store) (log_userspace_file : Bool) : World :=
  { persist :=
      if created then ⟨true, write mem 0 (DEBUF_BUF_TRACE ++ [0]), headerEnd⟩ else ⟨false, mem, 0⟩
    fastrpc_logmask := 0
    log_userspace_file := log_userspace_file
    writes := if created then [(0, headerEnd)] else []
    records := [] }

/-! ### What the buffer is for -/

/-- All writes are inside the buffer. -/
def World.Inside (w : World) : Prop := ∀ e ∈ w.writes, e.1 + e.2 ≤ DEBUG_BUF_SIZE

/-- The buffer behind its header consists of the records, all whole, with a NUL at the end of each and
nowhere else, and all from messages of a critical level that have a text. -/
structure World.Sound (w : World) : Prop where
  inside : w.Inside
  whole : w.persist.present → headerEnd ≤ w.persist.size ∧ w.persist.size ≤ DEBUG_BUF_SIZE ∧
    slice w.persist.buf headerEnd (w.persist.size - headerEnd) = w.records.flatMap Record.bytes
  terminated : ∀ r ∈ w.records, 0 ∉ recordText r.stamp r.text
  critical : ∀ r ∈ w.records, IsCritical r.level ∧ r.text.isSome

/-- There is room for a record in front of the end, or the code sees that there is none. -/
def World.Room (w : World) (stamp : Stamp) (text : Text) (len : ℕ) : Prop :=
  DEBUG_BUF_SIZE < w.persist.size + PREPEND_DBGBUF_FARF_SIZE + len ∨
    w.persist.size + (stamp.text ++ text).length + 2 ≤ DEBUG_BUF_SIZE

/-- The calls that add a record as it is meant, or none. -/
def World.Meets (w : World) : Call → Prop
  | .debug_v2 level msg malloc stamp =>
      w.persist.present → malloc → 0 < msg.length → msg.length < MAX_FARF_LEN → IsCritical level →
        0 ∉ msg ∧ w.Room stamp msg msg.length
  | .debug_runtime level msg mallocBuf mallocLog progname file line stamp =>
      w.persist.present → formats wild w.persist w.fastrpc_logmask w.log_userspace_file level ∧
        (mallocBuf → mallocLog → IsCritical level ∧
          (origin stamp progname file line ++ msg).length < MAX_FARF_LEN ∧ 0 ∉ msg ∧
          w.Room stamp (origin stamp progname file line ++ msg) msg.length)
  | .set_runtime_logmask _ => True

/-! ### Sizes -/

theorem DEBUG_BUF_SIZE_eq : DEBUG_BUF_SIZE = 1048576 := rfl

theorem headerEnd_eq : headerEnd = 13 := rfl

/-- The place for the next record is behind the header, and beyond the end by less than a record. -/
def PersistBuffer.Sized (p : PersistBuffer) : Prop :=
  headerEnd ≤ p.size ∧ p.size ≤ DEBUG_BUF_SIZE + 400

variable {wild}

theorem stamp_length (s : Stamp) : s.text.length ≤ 62 := by
  have htime : (decimal (s.time.toNat : ℤ)).length ≤ 20 :=
    decimal_length_nat (by decide) (lt_of_lt_of_le s.time.toNat_lt (by decide))
  have hint : ∀ i : Int32, (decimal i.toInt).length ≤ 11 := fun i =>
    decimal_length (by decide) (by have := i.toInt_lt; have := i.le_toInt; omega)
  have hpid := hint s.pid
  have htid := hint s.tid
  have hdomain := hint s.domain
  have hdom : (ascii ":dom:").length = 5 := rfl
  have hend : (ascii ": ").length = 2 := rfl
  simp only [Stamp.text, List.length_append, List.length_singleton, hdom, hend]
  omega

theorem zero_not_mem_stamp (s : Stamp) : 0 ∉ s.text := by
  have hdom : 0 ∉ ascii ":dom:" := by decide
  have hend : 0 ∉ ascii ": " := by decide
  simp [Stamp.text, zero_not_mem_decimal, hdom, hend]

theorem zero_not_mem_origin (stamp : Stamp) (progname file : Text) (line : Int32) :
    0 ∉ origin stamp progname file line := by
  have hend : 0 ∉ ascii ": " := by decide
  simp [origin, zero_not_mem_decimal, zero_not_mem_cstr, hend]

/-- A record has a NUL only where its text has one. -/
theorem zero_mem_recordText {stamp : Stamp} {text : Text} : 0 ∈ recordText stamp (some text) ↔ 0 ∈ text := by
  simp [recordText, zero_not_mem_stamp]

theorem recordText_length {stamp : Stamp} {text : Text} :
    (recordText stamp (some text)).length = (stamp.text ++ text).length + 1 := by
  rw [recordText, Option.getD_some, List.length_append, List.length_singleton]

/-- What was formatted in a buffer of `MAX_FARF_LEN` bytes is short. -/
def Short (data : Option Text) : Prop := ∀ text ∈ data, text.length < MAX_FARF_LEN

theorem recordText_length_le (stamp : Stamp) {data : Option Text} (h : Short data) :
    (recordText stamp data).length ≤ 320 := by
  have hstamp := stamp_length stamp
  cases data with
  | none =>
      have hnull : (ascii "(null)").length = 6 := rfl
      simp only [recordText, Option.getD_none, List.length_append, List.length_singleton, hnull]
      omega
  | some text =>
      have htext : text.length < 256 := h text rfl
      rw [recordText_length, List.length_append]
      omega

/-! ### One record -/

variable {p : PersistBuffer} {size : ℤ} {stamp : Stamp} {data : Option Text}

/-- The unsigned addition does not wrap. -/
theorem startsOver_iff (hp : p.Sized) (hlo : -1 ≤ size) (hhi : size ≤ intMax) :
    startsOver p.size size = true ↔ (DEBUG_BUF_SIZE : ℤ) < p.size + PREPEND_DBGBUF_FARF_SIZE + size := by
  obtain ⟨hfirst, hlast⟩ := hp
  rw [headerEnd_eq] at hfirst
  rw [DEBUG_BUF_SIZE_eq] at hlast
  rw [intMax_eq] at hhi
  have hwrap : toU32 (p.size + PREPEND_DBGBUF_FARF_SIZE + size) = p.size + PREPEND_DBGBUF_FARF_SIZE + size := by
    unfold toU32 PREPEND_DBGBUF_FARF_SIZE
    omega
  rw [startsOver, hwrap, decide_eq_true_eq]

/-- Some bytes are left behind the place of a record. -/
theorem recordPlace_le (hp : p.Sized) (hlo : -1 ≤ size) (hhi : size ≤ intMax) :
    headerEnd ≤ recordPlace p.size size ∧ recordPlace p.size size + 29 ≤ DEBUG_BUF_SIZE := by
  have hstart := startsOver_iff hp hlo hhi
  obtain ⟨hfirst, -⟩ := hp
  rw [headerEnd_eq] at hfirst
  rw [DEBUG_BUF_SIZE_eq] at hstart ⊢
  unfold recordPlace
  rw [headerEnd_eq]
  split_ifs with hover
  · omega
  · have hroom := mt hstart.mpr hover
    have hprepend : PREPEND_DBGBUF_FARF_SIZE = 30 := rfl
    omega

theorem recordBytes_room {place : ℕ} (hplace : place ≤ DEBUG_BUF_SIZE) :
    recordBytes place stamp data = snprintf (DEBUG_BUF_SIZE - place) (recordText stamp data) := by
  have hroom : (toU32 (DEBUG_BUF_SIZE - place)).toNat = DEBUG_BUF_SIZE - place := by
    rw [DEBUG_BUF_SIZE_eq] at hplace ⊢
    unfold toU32
    omega
  rw [recordBytes, hroom]

/-- The write of a record ends in the buffer. -/
theorem recordBytes_inside (hp : p.Sized) (hlo : -1 ≤ size) (hhi : size ≤ intMax) :
    recordPlace p.size size + (recordBytes (recordPlace p.size size) stamp data).length ≤ DEBUG_BUF_SIZE := by
  obtain ⟨-, hplace⟩ := recordPlace_le hp hlo hhi
  rw [recordBytes_room (by omega)]
  have := snprintf_length_le (DEBUG_BUF_SIZE - recordPlace p.size size) (recordText stamp data)
  omega

/-- The next place is behind the whole record with its NUL, also where it was cut off. -/
theorem print_size (hp : p.Sized) (hlo : -1 ≤ size) (hhi : size ≤ intMax) (hdata : Short data)
    (hpresent : p.present = true) : (print_dbgbuf_data p stamp data size).size =
      recordPlace p.size size + (recordText stamp data).length + 1 := by
  obtain ⟨-, hplace⟩ := recordPlace_le hp hlo hhi
  have hlen := recordText_length_le stamp hdata
  rw [DEBUG_BUF_SIZE_eq] at hplace
  rw [print_dbgbuf_data, if_pos hpresent]
  simp only
  rw [printedLength_of_le (by rw [intMax_eq]; omega)]
  unfold toU32
  omega

theorem print_sized (hp : p.Sized) (hlo : -1 ≤ size) (hhi : size ≤ intMax) (hdata : Short data)
    (hpresent : p.present = true) : (print_dbgbuf_data p stamp data size).Sized := by
  obtain ⟨hfirst, hplace⟩ := recordPlace_le hp hlo hhi
  have hlen := recordText_length_le stamp hdata
  rw [PersistBuffer.Sized, print_size hp hlo hhi hdata hpresent]
  omega

/-- Behind the records in front of it stands the new one, if there was room for it. -/
theorem slice_print (hp : p.Sized) (hlo : -1 ≤ size) (hhi : size ≤ intMax) (hdata : Short data)
    (hpresent : p.present = true)
    (hroom : recordPlace p.size size + (recordText stamp data).length + 1 ≤ DEBUG_BUF_SIZE) :
    slice (print_dbgbuf_data p stamp data size).buf headerEnd
        ((print_dbgbuf_data p stamp data size).size - headerEnd) =
      slice p.buf headerEnd (recordPlace p.size size - headerEnd) ++ (recordText stamp data ++ [0]) := by
  obtain ⟨hfirst, -⟩ := recordPlace_le hp hlo hhi
  have hbytes : recordBytes (recordPlace p.size size) stamp data = recordText stamp data ++ [0] := by
    rw [recordBytes_room (by omega), snprintf_whole (by omega)]
  have hbuf : (print_dbgbuf_data p stamp data size).buf =
      write p.buf (recordPlace p.size size) (recordText stamp data ++ [0]) := by
    rw [print_dbgbuf_data, if_pos hpresent, ← hbytes]
  have hlength : (recordText stamp data ++ [0]).length = (recordText stamp data).length + 1 := by
    rw [List.length_append, List.length_singleton]
  have hsplit : recordPlace p.size size + (recordText stamp data).length + 1 - headerEnd =
      (recordPlace p.size size - headerEnd) + (recordText stamp data ++ [0]).length := by
    rw [hlength]
    omega
  rw [hbuf, print_size hp hlo hhi hdata hpresent, hsplit, slice_append, Nat.add_sub_cancel' hfirst,
    slice_write_same, slice_write_disjoint _ _ (Or.inl (by omega))]

/-! ### One call -/

variable {w : World} {r : Record}

theorem World.print_none (w : World) (r : Record) : w.print r none = w := rfl

/-- Without a buffer nothing happens. -/
theorem World.print_absent (habsent : w.persist.present ≠ true) (call : Option (Option Text × ℤ)) :
    w.print r call = w := by
  cases call with
  | none => rfl
  | some call =>
      simp only [World.print, if_neg habsent]
      rw [print_dbgbuf_data, if_neg habsent]

theorem World.print_present (hpresent : w.persist.present = true) (data : Option Text) (size : ℤ) :
    w.print r (some (data, size)) =
      { w with
        persist := print_dbgbuf_data w.persist r.stamp data size
        writes := w.writes ++ [(recordPlace w.persist.size size,
          (recordBytes (recordPlace w.persist.size size) r.stamp data).length)]
        records := (if startsOver w.persist.size size then [] else w.records) ++ [r] } := by
  simp only [World.print, if_pos hpresent]

/-- The records that stay in front of the new one. -/
theorem kept_records (hw : w.Sound) (hpresent : w.persist.present = true) (size : ℤ) :
    slice w.persist.buf headerEnd (recordPlace w.persist.size size - headerEnd) =
      (if startsOver w.persist.size size then [] else w.records).flatMap Record.bytes := by
  obtain ⟨-, -, hslice⟩ := hw.whole hpresent
  unfold recordPlace
  split_ifs
  · rw [Nat.sub_self, slice_zero, List.flatMap_nil]
  · exact hslice

theorem mem_kept {q : Record} (h : q ∈ if startsOver w.persist.size size then [] else w.records) :
    q ∈ w.records := by
  split_ifs at h
  · exact absurd h List.not_mem_nil
  · exact h

theorem World.Sound.sized (hw : w.Sound) (hpresent : w.persist.present = true) : w.persist.Sized := by
  obtain ⟨hfirst, hlast, -⟩ := hw.whole hpresent
  exact ⟨hfirst, hlast.trans (Nat.le_add_right _ _)⟩

/-- The write of a record is inside the buffer. -/
theorem inside_print (hw : w.Inside) (hsized : w.persist.Sized) (hpresent : w.persist.present = true)
    (hlo : -1 ≤ size) (hhi : size ≤ intMax) : (w.print r (some (data, size))).Inside := by
  rw [World.print_present hpresent]
  intro e he
  rcases List.mem_append.mp he with he | he
  · exact hw e he
  · rw [List.mem_singleton.mp he]
    exact recordBytes_inside hsized hlo hhi

/-- **A record** is added as it is meant exactly when it is of a critical level, has a text, which came
through unchanged, and ends in the buffer. -/
theorem sound_print (hw : w.Sound) (hpresent : w.persist.present = true) (hlo : -1 ≤ size)
    (hhi : size ≤ intMax) (hdata : Short data) : (w.print r (some (data, size))).Sound ↔
      (IsCritical r.level ∧ r.text.isSome) ∧ 0 ∉ recordText r.stamp r.text ∧
        recordText r.stamp data = recordText r.stamp r.text ∧
        recordPlace w.persist.size size + (recordText r.stamp r.text).length + 1 ≤ DEBUG_BUF_SIZE := by
  have hsized := hw.sized hpresent
  have hkept := kept_records hw hpresent size
  have hinside : (w.print r (some (data, size))).Inside := inside_print hw.inside hsized hpresent hlo hhi
  rw [World.print_present hpresent] at hinside ⊢
  constructor
  · intro h
    obtain ⟨-, hlast, hslice⟩ := h.whole (by rw [print_dbgbuf_data, if_pos hpresent]; exact hpresent)
    have hlast' := hlast
    rw [print_size hsized hlo hhi hdata hpresent] at hlast'
    have hsame : recordText r.stamp data = recordText r.stamp r.text := by
      simp only at hslice
      rw [slice_print hsized hlo hhi hdata hpresent hlast', hkept, List.flatMap_append, List.flatMap_singleton]
        at hslice
      exact List.append_cancel_right (List.append_cancel_left hslice)
    have hmem : r ∈ (if startsOver w.persist.size size then [] else w.records) ++ [r] :=
      List.mem_append_right _ (List.mem_singleton_self r)
    exact ⟨h.critical r hmem, h.terminated r hmem, hsame, hsame ▸ hlast'⟩
  · rintro ⟨hcritical, hzero, hsame, hroom⟩
    have hnew : ∀ q ∈ (if startsOver w.persist.size size then [] else w.records) ++ [r], q ∈ w.records ∨ q = r := by
      intro q hq
      rcases List.mem_append.mp hq with hq | hq
      · exact Or.inl (mem_kept hq)
      · exact Or.inr (List.mem_singleton.mp hq)
    rw [← hsame] at hroom
    refine ⟨hinside, fun _ => ?_, ?_, ?_⟩
    · have hnext : (print_dbgbuf_data w.persist r.stamp data size).Sized := print_sized hsized hlo hhi hdata hpresent
      obtain ⟨hfirst, -⟩ := hnext
      refine ⟨hfirst, ?_, ?_⟩
      · rw [print_size hsized hlo hhi hdata hpresent]
        exact hroom
      · simp only
        rw [slice_print hsized hlo hhi hdata hpresent hroom, hkept, List.flatMap_append, List.flatMap_singleton,
          hsame]
        rfl
    · intro q hq
      rcases hnew q hq with hq | rfl
      · exact hw.terminated q hq
      · exact hzero
    · intro q hq
      rcases hnew q hq with hq | rfl
      · exact hw.critical q hq
      · exact hcritical

/-- Starting over always leaves room for a short record. -/
theorem room_iff (hw : w.Sound) (hpresent : w.persist.present = true) {text : Text} {len : ℕ}
    (htext : text.length < MAX_FARF_LEN) (hlen : len < MAX_FARF_LEN) :
    recordPlace w.persist.size len + (recordText stamp (some text)).length + 1 ≤ DEBUG_BUF_SIZE ↔
      w.Room stamp text len := by
  have hmax : MAX_FARF_LEN = 256 := rfl
  have hsize : (len : ℤ) ≤ intMax := by
    rw [intMax_eq]
    omega
  have hstart := startsOver_iff (hw.sized hpresent) (by omega) hsize
  have hshort : Short (some text) := fun t ht => Option.some.inj ht ▸ htext
  have hrecord := recordText_length_le stamp hshort
  rw [recordText_length] at hrecord ⊢
  unfold recordPlace World.Room
  rw [DEBUG_BUF_SIZE_eq] at hstart ⊢
  split_ifs with hover
  · have := hstart.mp hover
    rw [headerEnd_eq]
    omega
  · have := mt hstart.mpr hover
    omega

theorem persist_iff {level : ℤ} {msg : Text} :
    IS_PERSIST_BUF_DATA (printedLength msg) level = true ↔
      0 < msg.length ∧ msg.length < MAX_FARF_LEN ∧ IsCritical level := by
  have hmax : MAX_FARF_LEN = 256 := rfl
  simp only [IS_PERSIST_BUF_DATA, Bool.and_eq_true, decide_eq_true_eq, and_assoc]
  constructor
  · rintro ⟨hpos, hlt, hlevel⟩
    have hlen := printedLength_pos hpos
    rw [hlen] at hpos hlt
    exact ⟨by omega, by omega, hlevel⟩
  · rintro ⟨hpos, hlt, hlevel⟩
    rw [printedLength_of_le (by rw [intMax_eq]; omega)]
    exact ⟨by omega, by omega, hlevel⟩

theorem recordText_inj {t u : Text} : recordText stamp (some t) = recordText stamp (some u) ↔ t = u := by
  simp [recordText]

theorem short_cstr (text : Text) : Short (some (cstr (snprintf MAX_FARF_LEN text))) := by
  intro t ht
  rw [← Option.some.inj ht]
  exact cstr_snprintf_length_lt (by decide) text

theorem sound_debug_v2 (hw : w.Sound) (level : ℤ) (msg : Text) (malloc : Bool) (stamp : Stamp) :
    (w.call wild (.debug_v2 level msg malloc stamp)).Sound ↔ w.Meets wild (.debug_v2 level msg malloc stamp) := by
  simp only [World.call, World.Meets]
  by_cases hpresent : w.persist.present = true
  swap
  · rw [World.print_absent hpresent]
    exact iff_of_true hw (fun h => absurd h hpresent)
  by_cases hprints : malloc = true ∧ IS_PERSIST_BUF_DATA (printedLength msg) level = true
  · obtain ⟨hmalloc, hdata⟩ := hprints
    obtain ⟨hpos, hlt, hlevel⟩ := persist_iff.mp hdata
    have hlen : printedLength msg = msg.length := printedLength_of_le (by
      have hmax : MAX_FARF_LEN = 256 := rfl
      rw [intMax_eq]
      omega)
    simp only [HAP_debug_v2, hmalloc, hpresent, hdata, hpos, hlt, hlevel, Bool.and_self, if_true, forall_true_left]
    rw [sound_print hw hpresent (neg_one_le_printedLength msg) (printedLength_le msg) (short_cstr msg),
      recordText_inj, cstr_snprintf_eq_iff (by decide), zero_mem_recordText, hlen, room_iff hw hpresent hlt hlt]
    constructor
    · rintro ⟨-, hzero, -, hroom⟩
      exact ⟨hzero, hroom⟩
    · rintro ⟨hzero, hroom⟩
      exact ⟨⟨hlevel, rfl⟩, hzero, ⟨hlt, hzero⟩, hroom⟩
  · have hquiet : HAP_debug_v2 w.persist level msg malloc = none := by
      unfold HAP_debug_v2
      split_ifs with hmalloc
      · exact if_neg (fun hboth => hprints ⟨hmalloc, (Bool.and_eq_true_iff.mp hboth).2⟩)
      · rfl
    rw [hquiet, World.print_none]
    refine iff_of_true hw (fun _ hmalloc hpos hlt hlevel => ?_)
    exact absurd ⟨hmalloc, persist_iff.mpr ⟨hpos, hlt, hlevel⟩⟩ hprints

theorem sound_debug_runtime (hw : w.Sound) (level : ℤ) (msg : Text) (mallocBuf mallocLog : Bool)
    (progname file : Text) (line : Int32) (stamp : Stamp) :
    (w.call wild (.debug_runtime level msg mallocBuf mallocLog progname file line stamp)).Sound ↔
      w.Meets wild (.debug_runtime level msg mallocBuf mallocLog progname file line stamp) := by
  simp only [World.call, World.Meets, HAP_debug_runtime, World.runtimeRecord]
  generalize hfront : origin stamp progname file line = front
  have hfrontZero : 0 ∉ front := hfront ▸ zero_not_mem_origin stamp progname file line
  by_cases hpresent : w.persist.present = true
  swap
  · rw [World.print_absent hpresent]
    exact iff_of_true hw (fun h => absurd h hpresent)
  by_cases hformats : formats wild w.persist w.fastrpc_logmask w.log_userspace_file level = true
  swap
  · -- nothing was formatted, and `NULL` is recorded
    simp only [hformats, Bool.false_eq_true, if_false, false_and]
    refine iff_of_false (fun h => ?_) (fun h => h hpresent)
    have hshort : Short none := fun _ ht => nomatch ht
    obtain ⟨⟨-, hsome⟩, -⟩ := (sound_print hw hpresent (by decide) (by decide) hshort).mp h
    exact nomatch hsome
  simp only [hformats, if_true, true_and]
  by_cases hmalloc : mallocBuf = true ∧ mallocLog = true
  swap
  · rw [if_neg (fun h => hmalloc (Bool.and_eq_true_iff.mp h)), World.print_none]
    exact iff_of_true hw (fun _ hbuf hlog => absurd ⟨hbuf, hlog⟩ hmalloc)
  rw [if_pos (Bool.and_eq_true_iff.mpr hmalloc),
    sound_print hw hpresent (neg_one_le_printedLength msg) (printedLength_le msg) (short_cstr _), recordText_inj,
    cstr_snprintf_append_eq_iff (by decide), zero_mem_recordText, List.mem_append, not_or]
  have hlen : (front ++ msg).length < MAX_FARF_LEN →
      printedLength msg = msg.length ∧ msg.length < MAX_FARF_LEN := by
    intro h
    have hmax : MAX_FARF_LEN = 256 := rfl
    rw [List.length_append] at h
    exact ⟨printedLength_of_le (by rw [intMax_eq]; omega), by omega⟩
  constructor
  · rintro ⟨⟨hlevel, -⟩, ⟨-, hzero⟩, ⟨hlt, -⟩, hroom⟩ - - -
    obtain ⟨hprinted, hmsg⟩ := hlen hlt
    rw [hprinted, room_iff hw hpresent hlt hmsg] at hroom
    exact ⟨hlevel, hlt, hzero, hroom⟩
  · intro h
    obtain ⟨hlevel, hlt, hzero, hroom⟩ := h hpresent hmalloc.1 hmalloc.2
    obtain ⟨hprinted, hmsg⟩ := hlen hlt
    rw [hprinted, room_iff hw hpresent hlt hmsg]
    exact ⟨⟨hlevel, rfl⟩, ⟨hfrontZero, hzero⟩, ⟨hlt, hfrontZero, hzero⟩, hroom⟩

/-- **Step lemma.** -/
theorem sound_call (hw : w.Sound) (c : Call) : (w.call wild c).Sound ↔ w.Meets wild c := by
  cases c with
  | debug_v2 level msg malloc stamp => exact sound_debug_v2 hw level msg malloc stamp
  | debug_runtime level msg mallocBuf mallocLog progname file line stamp =>
      exact sound_debug_runtime hw level msg mallocBuf mallocLog progname file line stamp
  | set_runtime_logmask mask => exact iff_of_true ⟨hw.inside, hw.whole, hw.terminated, hw.critical⟩ trivial

/-! ### All runs -/

theorem sound_init (created : Bool) (mem : Store) (log_userspace_file : Bool) :
    (fastrpc_log_init created mem log_userspace_file).Sound := by
  refine ⟨?_, ?_, fun r hr => absurd hr List.not_mem_nil, fun r hr => absurd hr List.not_mem_nil⟩
  · intro e he
    cases created with
    | false => exact absurd he List.not_mem_nil
    | true =>
        rw [List.mem_singleton.mp he, headerEnd_eq, DEBUG_BUF_SIZE_eq]
        decide
  · intro hpresent
    cases created with
    | false => exact absurd hpresent Bool.false_ne_true
    | true =>
        refine ⟨le_refl _, ?_, rfl⟩
        rw [DEBUG_BUF_SIZE_eq]
        exact (by decide : (13 : ℕ) ≤ 1048576)

/-- What is true of the writes whatever is recorded. -/
def World.Bounded (w : World) : Prop := w.Inside ∧ (w.persist.present → w.persist.Sized)

theorem bounded_print (hw : w.Bounded) (hlo : -1 ≤ size) (hhi : size ≤ intMax) (hdata : Short data) :
    (w.print r (some (data, size))).Bounded := by
  by_cases hpresent : w.persist.present = true
  · have hsized := hw.2 hpresent
    refine ⟨inside_print hw.1 hsized hpresent hlo hhi, fun _ => ?_⟩
    rw [World.print_present hpresent]
    exact print_sized hsized hlo hhi hdata hpresent
  · rw [World.print_absent hpresent]
    exact hw

theorem bounded_call (hw : w.Bounded) (c : Call) : (w.call wild c).Bounded := by
  cases c with
  | debug_v2 level msg malloc stamp =>
      simp only [World.call, HAP_debug_v2]
      split_ifs
      · exact bounded_print hw (neg_one_le_printedLength msg) (printedLength_le msg) (short_cstr msg)
      · exact hw
      · exact hw
  | debug_runtime level msg mallocBuf mallocLog progname file line stamp =>
      simp only [World.call, HAP_debug_runtime]
      split_ifs
      · exact bounded_print hw (neg_one_le_printedLength msg) (printedLength_le msg) (short_cstr _)
      · exact hw
      · exact bounded_print hw (by decide) (by decide) (fun _ ht => nomatch ht)
  | set_runtime_logmask mask => exact hw

/-- **No write leaves the buffer**, in any run. -/
theorem run_inside {created : Bool} {mem : Store} {log_userspace_file : Bool} {calls : List Call}
    (h : run (step wild) (fastrpc_log_init created mem log_userspace_file) calls = some w) : w.Inside := by
  have hinit := sound_init created mem log_userspace_file
  have hbounded : (fastrpc_log_init created mem log_userspace_file).Bounded :=
    ⟨hinit.inside, fun hpresent => hinit.sized hpresent⟩
  have hstep : ∀ u c v, World.Bounded u → step wild u c = some v → World.Bounded v := by
    intro u c v hu huv
    rw [← Option.some.inj huv]
    exact bounded_call hu c
  exact (run_invariant hstep hbounded h).1

/-- **Which runs record as is meant**: those whose calls all meet the condition. -/
theorem records_whole_iff (wild : ℤ → UInt32) (created : Bool) (mem : Store) (log_userspace_file : Bool)
    (calls : List Call) :
    Along (step wild) World.Sound (fastrpc_log_init created mem log_userspace_file) calls ↔
      Guarded (step wild) (World.Meets wild) (fastrpc_log_init created mem log_userspace_file) calls := by
  have hrun : ∃ v, run (step wild) (fastrpc_log_init created mem log_userspace_file) calls = some v := by
    apply exists_run
    exact fun u c => ⟨u.call wild c, rfl⟩
  obtain ⟨v, hv⟩ := hrun
  have hgood : ∀ u c t, World.Sound u → World.Meets wild u c → step wild u c = some t → World.Sound t := by
    intro u c t hu hmeets ht
    rw [← Option.some.inj ht]
    exact (sound_call hu c).mpr hmeets
  have hbad : ∀ u c t, World.Sound u → ¬ World.Meets wild u c → step wild u c = some t → ¬ World.Sound t := by
    intro u c t hu hmeets ht
    rw [← Option.some.inj ht]
    exact mt (sound_call hu c).mp hmeets
  exact along_iff_guarded hgood (fun _ hu => hu) hbad (sound_init created mem log_userspace_file) hv

/-- With logging off, a call of no critical level puts `(null)` into the buffer. -/
theorem null_recorded : ¬ ∀ (wild : ℤ → UInt32) (created : Bool) (mem : Store) (log_userspace_file : Bool)
    (calls : List Call),
    Along (step wild) World.Sound (fastrpc_log_init created mem log_userspace_file) calls := by
  intro h
  have hrun := h (fun _ => 0) true (fun _ => 0) false [.debug_runtime 0 (ascii "x") true true [] [] 0 ⟨0, 0, 0, 0⟩]
  have hsound : World.Sound _ := (hrun.2 _ rfl).head
  have hmem : (⟨0, none, ⟨0, 0, 0, 0⟩⟩ : Record) ∈ _ := List.mem_singleton_self _
  exact absurd (hsound.critical _ hmem).2 (by decide)

end FastRpc.DebugBuffer
