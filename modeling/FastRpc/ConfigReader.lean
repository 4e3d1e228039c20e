import FastRpc.CInt
import FastRpc.Iteration
import FastRpc.SearchPaths
import FastRpc.TextLines

/-! # The reader of the configuration file

`fastrpc_read_config_file_from_path` reads the debug configuration file line by line with
`apps_std_fgets`, into a buffer of which it gives the length of the file as the size, and applies each line
to the settings.  The loop ends only when `fgets` has met the end of the file.  With a size of 0 or less
`fgets` reads nothing, and with a size of 1 it returns an empty line; in both cases the next turn is like
this one.

`reader_ends_iff` says for which files the loop ends: those whose length is 2 or more as an `int`. -/

namespace FastRpc.ConfigReader

open CInt CString Iteration SearchPaths TextLines

/-! ### The settings -/

/-- `struct fastrpc_config_param`; the error codes are those that are counted. -/
structure FrpcConfig where
  pddump : Bool
  rpc_timeout : ℤ
  perfkernel : Bool
  perfdsp : Bool
  farf_log_filename : Option Str
  farf_log_filename_userspace : Option Str
  log_iregion : Bool
  qtf_tracing : Bool
  caller_level : ℤ
  uaf_enabled : Bool
  debug_logging : Bool
  err_codes_to_crash : List ℤ
  sysmonreservedbit : Bool
  logPackets : Bool
  leak_detect : ℤ
  num_call_stack : ℤ
  setdmabufname : Bool
  deriving DecidableEq, Repr

/-- What a value does: nothing when its number is 0, or anything with its number, or anything at all, or it
is copied as the name of a file. -/
inductive Setter
  | nonzero (set : ℤ → FrpcConfig → FrpcConfig)
  | int (set : ℤ → FrpcConfig → FrpcConfig)
  | present (set : FrpcConfig → FrpcConfig)
  | name (set : Option Str → FrpcConfig → FrpcConfig) (get : FrpcConfig → Option Str)
      (get_set : ∀ v c, get (set v c) = v)

/-- The names of the settings, in the order in which they are compared. -/
def setters : List (Str × Setter) := [
  (ascii "pddump", .nonzero fun _ c => { c with pddump := true }),
  (ascii "rpctimeout", .int fun n c => { c with rpc_timeout := n }),
  (ascii "perfkernel", .nonzero fun _ c => { c with perfkernel := true }),
  (ascii "perfdsp", .nonzero fun _ c => { c with perfdsp := true }),
  (ascii "collectRuntimeFARF",
    .name (fun v c => { c with farf_log_filename := v }) FrpcConfig.farf_log_filename fun _ _ => rfl),
  (ascii "collectUserspaceRuntimeFARF",
    .name (fun v c => { c with farf_log_filename_userspace := v }) FrpcConfig.farf_log_filename_userspace
      fun _ _ => rfl),
  (ascii "logiregion", .present fun c => { c with log_iregion := true }),
  (ascii "qtftracing", .nonzero fun _ c => { c with qtf_tracing := true }),
  (ascii "callerlevel", .nonzero fun n c => { c with caller_level := n }),
  (ascii "uafenabled", .nonzero fun _ c => { c with uaf_enabled := true }),
  (ascii "debuglogging", .present fun c => { c with debug_logging := true }),
  (ascii "sysmonreservedbit", .present fun c => { c with sysmonreservedbit := true }),
  (ascii "logPackets", .present fun c => { c with logPackets := true }),
  (ascii "leak_detect", .nonzero fun n c => { c with leak_detect := n }),
  (ascii "num_call_stack", .nonzero fun n c => { c with num_call_stack := n }),
  (ascii "setdmabufname", .nonzero fun _ c => { c with setdmabufname := true })]

/-- `CONFIG_ERR_CODES`. -/
def configErrCodes : Str := ascii "errcodes"

/-- `MIN_DSP_ERR_RNG`. -/
def minDspErrRng : ℤ := 0x80000401

/-- `MAX_DSP_ERR_RNG`. -/
def maxDspErrRng : ℤ := 0x80000601

/-- `MAX_PANIC_ERR_CODES`. -/
def maxPanicErrCodes : ℕ := 32

/-! ### One line -/

def newline : UInt8 := 0x0A
def equals : UInt8 := 0x3D
def comma : UInt8 := 0x2C

/-- The bytes as characters. -/
def chars (s : Str) : List Char := s.map fun b => Char.ofNat b.toNat

/-- `atoi`. -/
def atoi (s : Str) : ℤ := wrap (strtol (chars s))

/-- The string at the beginning of a buffer. -/
def cstr (buf : Str) : Str := buf.takeWhile (· ≠ 0)

/-- The loop over the error codes, behind those in `codes`. -/
def errCodes : List Str → List ℤ → List ℤ
  | [], codes => codes
  | param :: params, codes =>
      let err_code := toU32 (strtolHex (chars param))
      if minDspErrRng ≤ err_code ∧ err_code ≤ maxDspErrRng then
        if maxPanicErrCodes ≤ (codes ++ [err_code]).length then codes ++ [err_code]
        else errCodes params (codes ++ [err_code])
      else errCodes params codes

/-- What a setting makes of its value; without memory for a name the file is not read on. -/
def Setter.apply (mem : Str → Bool) : Setter → Option Str → FrpcConfig → Except FrpcConfig FrpcConfig
  | _, none, c => .ok c
  | .nonzero set, some v, c => .ok (if atoi v ≠ 0 then set (atoi v) c else c)
  | .int set, some v, c => .ok (set (atoi v) c)
  | .present set, some _, c => .ok (set c)
  | .name set _ _, some v, c => if mem v then .ok (set (some v) c) else .error (set none c)

/-- The setting whose name `param` begins with. -/
def setterOf (param : Str) : Option Setter := (setters.find? (·.1.isPrefixOf param)).map Prod.snd

/-- What is done with the buffer that `apps_std_fgets` has filled. -/
def processLine (mem : Str → Bool) (c : FrpcConfig) (buf : Str) : Except FrpcConfig FrpcConfig :=
  match strtok [equals] (cstr buf) with
  | none => .ok c
  | some (param, saveptr) =>
      if configErrCodes.isPrefixOf param then
        .ok { c with err_codes_to_crash := errCodes (tokens [comma] saveptr []) [] }
      else
        match setterOf param with
        | none => .ok c
        | some setter => setter.apply mem ((strtok [equals] saveptr).map Prod.fst) c

/-! ### The loop -/

/-- What `fgets` does: a line and the rest of the stream, or nothing, or the end of the file. -/
inductive Fgets
  | line (l rest : Str)
  | nothing
  | eof
  deriving DecidableEq, Repr

/-- `fgets` of a buffer of `n` bytes. -/
def fgets (n : ℤ) (stream : Str) : Fgets :=
  if n ≤ 0 then .nothing
  else if n = 1 then .line [] stream
  else if stream = [] then .eof
  else .line (takeLine newline (n - 1).toNat stream)
    (stream.drop (takeLine newline (n - 1).toNat stream).length)

/-- What is left of the stream, the buffer, the settings, the buffers that were processed, and whether the
loop was left. -/
structure Reader where
  rest : Str
  buf : Str
  config : FrpcConfig
  processed : List Str
  ended : Bool
  deriving DecidableEq, Repr

/-- The first turn.  The buffer is zeroed. -/
def start (c : FrpcConfig) (text : Str) : Reader := ⟨text, [], { c with err_codes_to_crash := [] }, [], false⟩

/-- The part of a turn that follows `apps_std_fgets`. -/
def Reader.process (mem : Str → Bool) (r : Reader) (buf rest : Str) : Reader :=
  match processLine mem r.config buf with
  | .ok c => ⟨rest, buf, c, r.processed ++ [buf], false⟩
  | .error c => ⟨rest, buf, c, r.processed ++ [buf], true⟩

/-- One turn of the loop, where the buffer has `n` bytes. -/
def turn (mem : Str → Bool) (n : ℤ) (r : Reader) : Reader :=
  if r.ended then r
  else
    match fgets n r.rest with
    | .line l rest => r.process mem l rest
    | .nothing => r.process mem r.buf r.rest
    | .eof => { r with ended := true }

/-- The size that `apps_std_fgets` is given: the length of the file as an `int`. -/
def bufLen (text : Str) : ℤ := wrap text.length

/-- The loop over a file is left in `r`. -/
def Reads (mem : Str → Bool) (c : FrpcConfig) (text : Str) (r : Reader) : Prop :=
  r.ended = true ∧ ∃ k, (turn mem (bufLen text))^[k] (start c text) = r

/-! ### When the loop ends -/

section Ends

variable {mem : Str → Bool} {n : ℤ} {r : Reader}

theorem turn_eof (hn : 2 ≤ n) (hended : r.ended = false) (hrest : r.rest = []) :
    turn mem n r = { r with ended := true } := by
  unfold turn fgets
  rw [hended, if_neg Bool.false_ne_true, if_neg (by omega), if_neg (by omega), if_pos hrest]

theorem turn_line (hn : 2 ≤ n) (hended : r.ended = false) (hrest : r.rest ≠ []) :
    turn mem n r = r.process mem (takeLine newline (n - 1).toNat r.rest)
      (r.rest.drop (takeLine newline (n - 1).toNat r.rest).length) := by
  unfold turn fgets
  rw [hended, if_neg Bool.false_ne_true, if_neg (by omega), if_neg (by omega), if_neg hrest]

theorem turn_ended (hended : r.ended = true) : turn mem n r = r := if_pos hended

theorem rest_process (buf rest : Str) : (r.process mem buf rest).rest = rest := by
  unfold Reader.process
  split
  · rfl
  · rfl

/-- A line is read in every turn until the end of the file. -/
theorem ends_of_size (mem : Str → Bool) (hn : 2 ≤ n) (r : Reader) : ∃ k, ((turn mem n)^[k] r).ended = true := by
  induction hlen : r.rest.length using Nat.strongRecOn generalizing r with
  | ind len ih =>
      cases hended : r.ended with
      | true => exact ⟨0, hended⟩
      | false =>
          by_cases hrest : r.rest = []
          · refine ⟨1, ?_⟩
            rw [Function.iterate_one, turn_eof hn hended hrest]
          · have hne : takeLine newline (n - 1).toNat r.rest ≠ [] := takeLine_ne_nil (by omega) hrest
            have hpos := List.length_pos_iff.mpr hne
            have hall := List.length_pos_iff.mpr hrest
            obtain ⟨k, hk⟩ := ih (turn mem n r).rest.length (by
              rw [turn_line hn hended hrest, rest_process, List.length_drop]
              omega) (turn mem n r) rfl
            exact ⟨k + 1, by rwa [Function.iterate_succ_apply]⟩

/-- A turn that reads nothing is followed by another one. -/
theorem turn_stays (hn : n ≤ 1) (hended : r.ended = false) (hbuf : r.buf = []) :
    (turn mem n r).ended = false ∧ (turn mem n r).buf = [] := by
  unfold turn fgets
  rw [hended, if_neg Bool.false_ne_true]
  by_cases hzero : n ≤ 0
  · rw [if_pos hzero, hbuf]
    exact ⟨rfl, rfl⟩
  · rw [if_neg hzero, if_pos (by omega)]
    exact ⟨rfl, rfl⟩

theorem never_ends (mem : Str → Bool) (hn : n ≤ 1) (hended : r.ended = false) (hbuf : r.buf = []) (k : ℕ) :
    ((turn mem n)^[k] r).ended = false := by
  have hstays : ∀ s : Reader, s.ended = false ∧ s.buf = [] →
      ∃ t : Reader, (t.ended = false ∧ t.buf = []) ∧ Runs (turn mem n) (fun r => r.ended = false) s t :=
    fun s hs => ⟨turn mem n s, turn_stays hn hs.1 hs.2, Runs.one hs.1⟩
  exact forever hstays ⟨hended, hbuf⟩ k

theorem two_le_of_reads {c : FrpcConfig} {text : Str} (h : Reads mem c text r) : 2 ≤ wrap text.length := by
  obtain ⟨hended, k, rfl⟩ := h
  by_contra hshort
  rw [never_ends mem (by unfold bufLen; omega) rfl rfl] at hended
  exact nomatch hended

/-- The loop is left in one state. -/
theorem reads_unique {c : FrpcConfig} {text : Str} {r' : Reader} (h : Reads mem c text r)
    (h' : Reads mem c text r') : r = r' := by
  have hstays : ∀ (s : Reader) (k : ℕ), s.ended = true → (turn mem (bufLen text))^[k] s = s :=
    fun s k hs => Function.iterate_fixed (turn_ended hs) k
  have hle : ∀ {s s' : Reader} {j k : ℕ}, s.ended = true → (turn mem (bufLen text))^[j] (start c text) = s →
      (turn mem (bufLen text))^[k] (start c text) = s' → j ≤ k → s = s' := by
    rintro s s' j k hs hj rfl hjk
    obtain ⟨d, rfl⟩ := Nat.exists_eq_add_of_le' hjk
    rw [Function.iterate_add_apply, hj, hstays s d hs]
  obtain ⟨hended, j, hj⟩ := h
  obtain ⟨hended', k, hk⟩ := h'
  rcases le_total j k with hjk | hkj
  · exact hle hended hj hk hjk
  · exact (hle hended' hk hj hkj).symm

end Ends

/-- **The loop ends exactly when** the length of the file is at least 2 as an `int`. -/
theorem reader_ends_iff (mem : Str → Bool) (c : FrpcConfig) (text : Str) :
    (∃ r, Reads mem c text r) ↔ 2 ≤ wrap text.length := by
  constructor
  · rintro ⟨r, hr⟩
    exact two_le_of_reads hr
  · intro hn
    obtain ⟨k, hk⟩ := ends_of_size mem hn (start c text)
    exact ⟨_, hk, k, rfl⟩

/-- No setting is set. -/
def unset : FrpcConfig :=
  ⟨false, 0, false, false, none, none, false, false, 0, false, false, [], false, false, 0, 0, false⟩

/-- A file of a single newline. -/
theorem newline_never_ends : ¬ ∃ r, Reads (fun _ => true) unset [newline] r := by
  rintro ⟨r, hended, k, rfl⟩
  have hone : bufLen [newline] ≤ 1 := by decide
  have hstays := never_ends (fun _ => true) hone (r := start unset [newline]) rfl rfl k
  exact nomatch hended.symm.trans hstays

end FastRpc.ConfigReader
