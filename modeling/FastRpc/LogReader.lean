import FastRpc.CyclicBuffer
import FastRpc.Transition

/-! # The reader of the DSP's log

The DSP writes its log into a cyclic buffer that it shares with the process: NUL-terminated strings,
one after the other, with `currentIndex` behind the last one that is complete.  `readMessage` of
`adspmsgd.c` looks for the next string from `readIndex` on, copies it into a line of `BUFFER_SIZE`
bytes and logs the line.

Every test of one of its two loops is a step, so that the bytes of the DSP come at any point of a
call; the end of the second loop and the code behind it touch nothing that is shared and belong to
its last test.  The DSP writes byte after byte, none of them onto one that is unread.  What it has
published and what the reader has passed are kept as `unread`, `appended` and `logged`.

The second loop does not look at `currentIndex`, so a call that has nothing to read logs what the
DSP left there a round ago (`logged_twice`); and the line has no room for its NUL when it is full.
`log_faithful` says that the log is right in every run without these two. -/

namespace FastRpc.LogReader

open ByteStore CyclicBuffer Transition

/-- `BUFFER_SIZE`. -/
def messageSize : ℕ := 256

/-- Where a reader is in `readMessage`; `message` are the bytes copied so far, the rest of the line is
`0`. -/
inductive Phase
  | idle
  | skipping (lreadIndex : ℕ)
  | copying (lreadIndex : ℕ) (message : List UInt8)
  deriving DecidableEq, Repr

/-- `msgd`, the string that the DSP is writing, and the history. -/
structure Log where
  bufferSize : ℕ
  headPtr : Store
  currentIndex : ℕ
  readIndex : ℕ
  phase : Phase
  writing : List UInt8
  unread : List UInt8
  appended : List (List UInt8)
  logged : List (List UInt8)

/-- The steps: the DSP writes a byte or completes its string, a reader calls `readMessage` or takes the
next test of its loop. -/
inductive LogOp
  | put (b : UInt8)
  | complete
  | call
  | next
  deriving DecidableEq, Repr

namespace Log

/-- A new buffer; it may hold anything. -/
def start (bufferSize : ℕ) (headPtr : Store) : Log :=
  ⟨bufferSize, headPtr, 0, 0, .idle, [], [], [], []⟩

/-- The DSP writes a byte behind the last one. -/
def write (s : Log) (b : UInt8) : Log :=
  { s with
    headPtr := Function.update s.headPtr
      ((s.currentIndex + s.writing.length) % s.bufferSize) b
    writing := s.writing ++ [b] }

/-- The DSP completes its string. -/
def publish (s : Log) : Log :=
  { s with
    headPtr := (s.write 0).headPtr
    currentIndex := (s.currentIndex + s.writing.length + 1) % s.bufferSize
    writing := []
    unread := s.unread ++ (s.writing ++ [0])
    appended := s.appended ++ [s.writing] }

/-- The beginning of `readMessage`. -/
def beginRead (s : Log) : Log :=
  let readIndex := if s.bufferSize ≤ s.readIndex then 0 else s.readIndex
  { s with readIndex := readIndex, phase := .skipping readIndex }

/-- The code behind the loops: a message that is not empty is logged and passed. -/
def endRead (s : Log) (lreadIndex : ℕ) (message : List UInt8) : Log :=
  if message = [] then { s with phase := .idle }
  else
    { s with
      phase := .idle
      readIndex := lreadIndex + 1
      unread := s.unread.drop (message.length + 1)
      logged := s.logged ++ [message] }

/-- One test of the first loop. -/
def skipStep (s : Log) (lreadIndex : ℕ) : Log :=
  if lreadIndex ≠ s.currentIndex ∧ s.headPtr lreadIndex = 0 then
    { s with phase := .skipping (CyclicBuffer.next s.bufferSize lreadIndex) }
  else { s with phase := .copying lreadIndex [] }

/-- One test of the second loop. -/
def copyStep (s : Log) (lreadIndex : ℕ) (message : List UInt8) : Log :=
  let b := s.headPtr lreadIndex
  if b = 0 then s.endRead lreadIndex message
  else
    let message := message ++ [b]
    let lreadIndex := CyclicBuffer.next s.bufferSize lreadIndex
    if messageSize ≤ message.length then s.endRead lreadIndex message
    else { s with phase := .copying lreadIndex message }

/-- One step.  The DSP writes no byte onto an unread one, and no empty string. -/
def step (s : Log) : LogOp → Option Log
  | .put b =>
      if b ≠ 0 ∧ s.unread.length + s.writing.length < s.bufferSize then some (s.write b) else none
  | .complete =>
      if s.writing ≠ [] ∧ s.unread.length + s.writing.length < s.bufferSize then some s.publish
      else none
  | .call => if s.phase = .idle then some s.beginRead else none
  | .next =>
      match s.phase with
      | .idle => none
      | .skipping lreadIndex => some (s.skipStep lreadIndex)
      | .copying lreadIndex message => some (s.copyStep lreadIndex message)

/-- `adspmsgd_reader` waits for the DSP before it calls `readMessage`. -/
def ReaderWaits (s : Log) : Prop := s.currentIndex = s.readIndex

/-! ### What the log should be -/

/-- The logged lines and the unread text are the strings of the DSP, in order and without a byte twice,
and every line has its NUL. -/
structure Faithful (s : Log) : Prop where
  text : s.logged.flatten ++ s.unread.filter (· ≠ 0) = s.appended.flatten
  terminated : ∀ line ∈ s.logged, line.length < messageSize

/-- A call that has found something unread copies it. -/
def Copies (s : Log) : LogOp → Prop
  | .next =>
      match s.phase with
      | .copying lreadIndex [] => s.unread ≠ [] → s.headPtr lreadIndex ≠ 0
      | _ => True
  | _ => True

/-- The second loop finds a NUL when nothing is unread, and when it has copied as much as the line
holds with its NUL. -/
def FindsNul (s : Log) : LogOp → Prop
  | .next =>
      match s.phase with
      | .copying lreadIndex message =>
          (s.unread = [] → s.headPtr lreadIndex = 0) ∧
            (message.length + 1 = messageSize → s.headPtr lreadIndex = 0)
      | _ => True
  | _ => True

instance (s : Log) : (op : LogOp) → Decidable (s.FindsNul op)
  | .next =>
      match h : s.phase with
      | .idle => isTrue (by unfold FindsNul; simp only [h])
      | .skipping _ => isTrue (by unfold FindsNul; simp only [h])
      | .copying lreadIndex message => decidable_of_iff
          ((s.unread = [] → s.headPtr lreadIndex = 0) ∧
            (message.length + 1 = messageSize → s.headPtr lreadIndex = 0))
          (by unfold FindsNul; simp only [h])
  | .put _ => isTrue trivial
  | .complete => isTrue trivial
  | .call => isTrue trivial

/-! ### The invariant -/

/-- Strings one after the other, each with its NUL. -/
def encode (strings : List (List UInt8)) : List UInt8 := strings.flatMap (· ++ [0])

/-- A string that the DSP writes. -/
def IsString (text : List UInt8) : Prop := text ≠ [] ∧ 0 ∉ text

/-- Where the reader is: at the read position, or behind what it has copied. -/
def PhaseOk (s : Log) : Prop :=
  match s.phase with
  | .idle => True
  | .skipping lreadIndex => lreadIndex = s.readIndex ∧ s.readIndex < s.bufferSize
  | .copying lreadIndex message =>
      lreadIndex = (s.readIndex + message.length) % s.bufferSize ∧
        message.length < messageSize ∧ 0 ∉ message ∧ message <+: s.unread

/-- The buffer holds the unread strings and then the one that the DSP is writing, and what is logged and
what is unread are the strings of the DSP. -/
structure Inv (s : Log) : Prop where
  size_pos : 0 < s.bufferSize
  readIndex_le : s.readIndex ≤ s.bufferSize
  holds : Holds s.headPtr s.bufferSize s.readIndex (s.unread ++ s.writing)
  fits : s.unread.length + s.writing.length ≤ s.bufferSize
  current : s.currentIndex = (s.readIndex + s.unread.length) % s.bufferSize
  no_nul : 0 ∉ s.writing
  strings : ∃ strings, s.unread = encode strings ∧ s.appended = s.logged ++ strings ∧
    ∀ text ∈ strings, IsString text
  terminated : ∀ line ∈ s.logged, line.length < messageSize
  phase : s.PhaseOk

theorem inv_start {bufferSize : ℕ} (h : 0 < bufferSize) (headPtr : Store) :
    (start bufferSize headPtr).Inv where
  size_pos := h
  readIndex_le := Nat.zero_le _
  holds := holds_nil
  fits := Nat.zero_le _
  current := (Nat.zero_mod _).symm
  no_nul := List.not_mem_nil
  strings := ⟨[], rfl, rfl, fun _ h => absurd h List.not_mem_nil⟩
  terminated := fun _ h => absurd h List.not_mem_nil
  phase := trivial

section Encode

variable {strings : List (List UInt8)} {text message rest : List UInt8}

@[simp] theorem encode_cons (text : List UInt8) (strings : List (List UInt8)) :
    encode (text :: strings) = text ++ 0 :: encode strings := by
  simp [encode]

theorem encode_append (xs ys : List (List UInt8)) : encode (xs ++ ys) = encode xs ++ encode ys :=
  List.flatMap_append

theorem filter_encode (h : ∀ text ∈ strings, IsString text) :
    (encode strings).filter (· ≠ 0) = strings.flatten := by
  induction strings with
  | nil => rfl
  | cons text strings ih =>
      rw [List.forall_mem_cons] at h
      have htext : text.filter (· ≠ 0) = text := by
        rw [List.filter_eq_self]
        intro b hb
        exact decide_eq_true fun h0 => h.1.2 (h0 ▸ hb)
      rw [encode_cons, List.filter_append, htext, List.filter_cons_of_neg (by simp), ih h.2,
        List.flatten_cons]

theorem append_nul_inj {xs ys : List UInt8} (ht : 0 ∉ text) (hm : 0 ∉ message)
    (heq : text ++ 0 :: xs = message ++ 0 :: ys) : text = message ∧ xs = ys := by
  induction text generalizing message with
  | nil =>
      cases message with
      | nil => exact ⟨rfl, (List.cons.inj heq).2⟩
      | cons b message =>
          obtain ⟨rfl, _⟩ := List.cons.inj heq
          exact absurd List.mem_cons_self hm
  | cons c text ih =>
      cases message with
      | nil =>
          obtain ⟨rfl, _⟩ := List.cons.inj heq
          exact absurd List.mem_cons_self ht
      | cons b message =>
          obtain ⟨hb, htail⟩ := List.cons.inj heq
          obtain ⟨htext, hrest⟩ := ih (fun h => ht (List.mem_cons_of_mem _ h))
            (fun h => hm (List.mem_cons_of_mem _ h)) htail
          exact ⟨by rw [hb, htext], hrest⟩

/-- What has been copied up to a NUL is the first string. -/
theorem encode_eq_append_nul (h : ∀ text ∈ strings, IsString text) (hmsg : 0 ∉ message)
    (heq : encode strings = message ++ 0 :: rest) :
    ∃ strings', strings = message :: strings' ∧ rest = encode strings' := by
  cases strings with
  | nil => exact absurd heq.symm (by simp [encode])
  | cons text strings =>
      rw [encode_cons] at heq
      obtain ⟨rfl, rfl⟩ := append_nul_inj (h text List.mem_cons_self).2 hmsg heq
      exact ⟨strings, rfl, rfl⟩

/-- Unread strings do not end before a NUL. -/
theorem encode_prefix (h : ∀ text ∈ strings, IsString text) (hmsg : 0 ∉ message)
    (hstarts : message <+: encode strings) (hne : encode strings ≠ []) :
    ∃ b rest, encode strings = message ++ b :: rest ∧ (message = [] → b ≠ 0) := by
  obtain ⟨rest, hrest⟩ := hstarts
  cases rest with
  | cons b rest =>
      refine ⟨b, rest, hrest.symm, ?_⟩
      rintro rfl rfl
      obtain ⟨strings', rfl, _⟩ := encode_eq_append_nul h hmsg hrest.symm
      exact (h [] List.mem_cons_self).1 rfl
  | nil =>
      rw [List.append_nil] at hrest
      cases strings with
      | nil => exact absurd rfl hne
      | cons text strings =>
          rw [hrest, encode_cons] at hmsg
          exact absurd (List.mem_append_right _ List.mem_cons_self) hmsg

end Encode

section Steps

variable {s t : Log} {lreadIndex : ℕ} {message : List UInt8}

theorem Inv.faithful (h : s.Inv) : s.Faithful := by
  obtain ⟨strings, hunread, happended, hstrings⟩ := h.strings
  refine ⟨?_, h.terminated⟩
  rw [hunread, filter_encode hstrings, happended, List.flatten_append]

/-- The position where the DSP writes is behind the unread bytes. -/
theorem Inv.write_position (h : s.Inv) :
    (s.currentIndex + s.writing.length) % s.bufferSize =
      (s.readIndex + (s.unread ++ s.writing).length) % s.bufferSize := by
  rw [h.current, Nat.mod_add_mod, List.length_append, Nat.add_assoc]

theorem Inv.write_holds (h : s.Inv) (hroom : s.unread.length + s.writing.length < s.bufferSize)
    (b : UInt8) : Holds (s.write b).headPtr s.bufferSize s.readIndex
      (s.unread ++ (s.writing ++ [b])) := by
  rw [← List.append_assoc]
  simp only [write, h.write_position]
  exact h.holds.push (by rw [List.length_append]; exact hroom) b

theorem Inv.write (h : s.Inv) (hroom : s.unread.length + s.writing.length < s.bufferSize)
    {b : UInt8} (hb : b ≠ 0) : (s.write b).Inv where
  size_pos := h.size_pos
  readIndex_le := h.readIndex_le
  holds := h.write_holds hroom b
  fits := by
    simp only [Log.write, List.length_append, List.length_singleton]
    omega
  current := h.current
  no_nul := by
    simp only [Log.write, List.mem_append, List.mem_singleton, not_or]
    exact ⟨h.no_nul, fun h0 => hb h0.symm⟩
  strings := h.strings
  terminated := h.terminated
  phase := h.phase

theorem Inv.publish (h : s.Inv) (hroom : s.unread.length + s.writing.length < s.bufferSize)
    (hne : s.writing ≠ []) : s.publish.Inv := by
  obtain ⟨strings, hunread, happended, hstrings⟩ := h.strings
  refine ⟨h.size_pos, h.readIndex_le, ?_, ?_, ?_, List.not_mem_nil, ?_, h.terminated, ?_⟩
  · simp only [Log.publish, List.append_nil]
    exact h.write_holds hroom 0
  · simp only [Log.publish, List.length_append, List.length_singleton, List.length_nil]
    omega
  · simp only [Log.publish, h.current, List.length_append, List.length_singleton]
    rw [Nat.add_assoc, Nat.mod_add_mod, Nat.add_assoc]
  · refine ⟨strings ++ [s.writing], ?_, ?_, ?_⟩
    · simp only [Log.publish, encode_append, hunread, encode_cons]
      rfl
    · simp only [Log.publish, happended, List.append_assoc]
    · intro text htext
      rcases List.mem_append.mp htext with htext | htext
      · exact hstrings text htext
      · rw [List.mem_singleton.mp htext]
        exact ⟨hne, h.no_nul⟩
  · have hphase := h.phase
    unfold PhaseOk at hphase ⊢
    simp only [Log.publish]
    cases hp : s.phase with
    | idle => trivial
    | skipping lreadIndex =>
        rw [hp] at hphase
        exact hphase
    | copying lreadIndex message =>
        rw [hp] at hphase
        obtain ⟨h1, h2, h3, h4⟩ := hphase
        exact ⟨h1, h2, h3, h4.trans (List.prefix_append _ _)⟩

theorem Inv.beginRead (h : s.Inv) : s.beginRead.Inv := by
  have hpos := h.size_pos
  have hindex : (if s.bufferSize ≤ s.readIndex then 0 else s.readIndex) =
      s.readIndex % s.bufferSize := by
    have hle := h.readIndex_le
    split_ifs with hend
    · rw [show s.readIndex = s.bufferSize by omega, Nat.mod_self]
    · rw [Nat.mod_eq_of_lt (by omega)]
  have hlt := Nat.mod_lt s.readIndex hpos
  simp only [Log.beginRead, hindex]
  refine ⟨hpos, hlt.le, holds_mod.mpr h.holds, h.fits, ?_, h.no_nul, h.strings, h.terminated,
    rfl, hlt⟩
  rw [Nat.mod_add_mod]
  exact h.current

/-- The first loop passes nothing: what is unread starts with a string. -/
theorem Inv.skipStep (h : s.Inv) (hp : s.phase = .skipping lreadIndex) :
    (s.skipStep lreadIndex).Inv := by
  have hphase := h.phase
  unfold PhaseOk at hphase
  rw [hp] at hphase
  obtain ⟨rfl, hlt⟩ := hphase
  obtain ⟨strings, hunread, happended, hstrings⟩ := h.strings
  have hstop : ¬ (s.readIndex ≠ s.currentIndex ∧ s.headPtr s.readIndex = 0) := by
    rintro ⟨hcurrent, hzero⟩
    by_cases hnil : s.unread = []
    · apply hcurrent
      rw [h.current, hnil, List.length_nil, Nat.add_zero, Nat.mod_eq_of_lt hlt]
    · obtain ⟨b, rest, heq, hb⟩ := encode_prefix hstrings List.not_mem_nil
        (List.nil_prefix (l := encode strings)) (hunread ▸ hnil)
      have hread := (holds_append.mp h.holds).1 0 b (by rw [hunread, heq]; rfl)
      rw [Nat.add_zero, Nat.mod_eq_of_lt hlt, hzero] at hread
      exact hb rfl hread.symm
  rw [Log.skipStep, if_neg hstop]
  exact ⟨h.size_pos, h.readIndex_le, h.holds, h.fits, h.current, h.no_nul, h.strings, h.terminated,
    (Nat.mod_eq_of_lt hlt).symm, by decide, List.not_mem_nil, List.nil_prefix⟩

/-- The byte that the second loop reads. -/
theorem Inv.copied (h : s.Inv) {b : UInt8} {rest : List UInt8}
    (heq : s.unread = message ++ b :: rest) :
    s.headPtr ((s.readIndex + message.length) % s.bufferSize) = b := by
  apply (holds_append.mp h.holds).1 message.length b
  rw [heq, List.getElem?_append_right (le_refl _), Nat.sub_self]
  rfl

/-- **The second loop** copies the first unread string, and passes it. -/
theorem Inv.copyStep (h : s.Inv) (hp : s.phase = .copying lreadIndex message)
    (hempty : s.unread = [] → s.headPtr lreadIndex = 0)
    (hfull : message.length + 1 = messageSize → s.headPtr lreadIndex = 0) :
    (s.copyStep lreadIndex message).Inv ∧
      (message = [] → s.unread ≠ [] → s.headPtr lreadIndex ≠ 0) := by
  have hphase := h.phase
  unfold PhaseOk at hphase
  rw [hp] at hphase
  obtain ⟨rfl, hshort, hnul, hstarts⟩ := hphase
  obtain ⟨strings, hunread, happended, hstrings⟩ := h.strings
  set lreadIndex := (s.readIndex + message.length) % s.bufferSize with hl
  have hlt : lreadIndex < s.bufferSize := Nat.mod_lt _ h.size_pos
  by_cases hnil : s.unread = []
  · rw [hnil, List.prefix_nil] at hstarts
    subst hstarts
    refine ⟨?_, fun _ hne => absurd hnil hne⟩
    simp only [Log.copyStep, hempty hnil, if_true, Log.endRead]
    exact ⟨h.size_pos, h.readIndex_le, h.holds, h.fits, h.current, h.no_nul, h.strings,
      h.terminated, trivial⟩
  · obtain ⟨b, rest, heq, hb⟩ := encode_prefix hstrings hnul (hunread ▸ hstarts) (hunread ▸ hnil)
    rw [← hunread] at heq
    have hread : s.headPtr lreadIndex = b := h.copied heq
    refine ⟨?_, fun hmessage _ => hread ▸ hb hmessage⟩
    have hlen : s.unread.length = message.length + 1 + rest.length := by
      rw [heq, List.length_append, List.length_cons]
      omega
    by_cases hzero : b = 0
    · -- the string ends here, so it is the whole first string
      subst hzero
      obtain ⟨strings', rfl, rfl⟩ := encode_eq_append_nul hstrings hnul (hunread ▸ heq)
      have hmessage : message ≠ [] := fun hmessage => hb hmessage rfl
      have hsplit : s.unread = message ++ [0] ++ encode strings' := by
        rw [heq, List.append_assoc]
        rfl
      have hdrop : s.unread.drop (message.length + 1) = encode strings' := by
        rw [hsplit, List.drop_left' (by simp)]
      have hmod : (lreadIndex + 1) % s.bufferSize =
          (s.readIndex + (message ++ [(0 : UInt8)]).length) % s.bufferSize := by
        rw [hl, Nat.mod_add_mod, List.length_append, List.length_singleton, Nat.add_assoc]
      simp only [Log.copyStep, hread, if_true, Log.endRead, if_neg hmessage, hdrop]
      refine ⟨h.size_pos, hlt, ?_, ?_, ?_, h.no_nul, ⟨strings', rfl, ?_, ?_⟩, ?_, trivial⟩
      · have hholds := h.holds
        rw [hsplit, List.append_assoc] at hholds
        rw [← holds_mod, hmod, holds_mod]
        exact (holds_append.mp hholds).2
      · have hfits := h.fits
        simp only
        omega
      · simp only
        rw [h.current, hlen, hl, Nat.add_assoc (_ % _), Nat.mod_add_mod]
        congr 1
        omega
      · rw [happended, List.append_assoc]
        rfl
      · exact fun text htext => hstrings text (List.mem_cons_of_mem _ htext)
      · intro line hline
        rcases List.mem_append.mp hline with hline | hline
        · exact h.terminated line hline
        · rw [List.mem_singleton.mp hline]
          exact hshort
    · -- the string goes on, and the line has room
      have hroom : ¬ messageSize ≤ (message ++ [b]).length := by
        rw [List.length_append, List.length_singleton]
        intro hge
        exact hzero (hread ▸ hfull (by omega))
      simp only [Log.copyStep, hread, if_neg hzero, if_neg hroom]
      refine ⟨h.size_pos, h.readIndex_le, h.holds, h.fits, h.current, h.no_nul, h.strings,
        h.terminated, ?_, ?_, ?_, ?_⟩
      · simp only
        rw [hl, next_mod h.size_pos, List.length_append, List.length_singleton, Nat.add_assoc]
      · omega
      · simp only [List.mem_append, List.mem_singleton, not_or]
        exact ⟨hnul, fun h0 => hzero h0.symm⟩
      · exact ⟨rest, by rw [heq, List.append_assoc]; rfl⟩

end Steps

/-- What every step that meets the condition keeps. -/
theorem Inv.step {s t : Log} {op : LogOp} (h : s.Inv) (hop : s.FindsNul op)
    (ht : s.step op = some t) : t.Inv := by
  cases op with
  | put b =>
      simp only [Log.step] at ht
      split_ifs at ht with hput
      obtain rfl := Option.some.inj ht
      exact h.write hput.2 hput.1
  | complete =>
      simp only [Log.step] at ht
      split_ifs at ht with hcomplete
      obtain rfl := Option.some.inj ht
      exact h.publish hcomplete.2 hcomplete.1
  | call =>
      simp only [Log.step] at ht
      split_ifs at ht
      obtain rfl := Option.some.inj ht
      exact h.beginRead
  | next =>
      unfold FindsNul at hop
      simp only [Log.step] at ht
      cases hp : s.phase with
      | idle =>
          rw [hp] at ht
          cases ht
      | skipping lreadIndex =>
          rw [hp] at ht
          obtain rfl := Option.some.inj ht
          exact h.skipStep hp
      | copying lreadIndex message =>
          rw [hp] at ht hop
          obtain rfl := Option.some.inj ht
          exact (h.copyStep hp hop.1 hop.2).1

theorem Inv.copies {s : Log} {op : LogOp} (h : s.Inv) (hop : s.FindsNul op) : s.Copies op := by
  unfold Copies
  cases op with
  | next =>
      unfold FindsNul at hop
      simp only at hop ⊢
      cases hp : s.phase with
      | copying lreadIndex message =>
          rw [hp] at hop
          cases message with
          | nil => exact (h.copyStep hp hop.1 hop.2).2 rfl
          | cons b message => trivial
      | _ => trivial
  | _ => trivial

end Log

/-- **The log is faithful in every run in which the second loop finds its NULs.**  The logged lines are
the strings of the DSP, each once and in order, every line has its NUL, and every call that finds an
unread string copies it. -/
theorem log_faithful {bufferSize : ℕ} (h : 0 < bufferSize) (headPtr : Store) {ops : List LogOp}
    (hops : Guarded Log.step Log.FindsNul (Log.start bufferSize headPtr) ops) :
    Along Log.step Log.Faithful (Log.start bufferSize headPtr) ops ∧
      Guarded Log.step Log.Copies (Log.start bufferSize headPtr) ops :=
  along_and_guarded (fun _ _ _ hs hop ht => hs.step hop ht) (fun _ hs => hs.faithful)
    (fun _ _ hs hop => hs.copies hop) (Log.inv_start h headPtr) hops

/-- A string of one byte, read in one call. -/
theorem log_faithful_one_string :
    Along Log.step Log.Faithful (Log.start 8 (fun _ => 0))
        [.put 97, .complete, .call, .next, .next, .next] ∧
      Guarded Log.step Log.Copies (Log.start 8 (fun _ => 0))
        [.put 97, .complete, .call, .next, .next, .next] :=
  log_faithful (by decide) _ (by decide +kernel)

/-- In a buffer of three bytes the string fills it, so `readIndex` is at the end and `currentIndex` at
the beginning: the reader does not wait, and logs the string again. -/
theorem logged_twice :
    ∃ s t, run Log.step (Log.start 3 (fun _ => 0))
        [.put 97, .put 98, .complete, .call, .next, .next, .next, .next] = some s ∧
      ¬ s.ReaderWaits ∧ s.unread = [] ∧
      run Log.step s [.call, .next, .next, .next, .next] = some t ∧ ¬ t.Faithful := by
  obtain ⟨s, hs, hview⟩ := Option.map_eq_some_iff.mp (show
    (run Log.step (Log.start 3 (fun _ => 0))
      [.put 97, .put 98, .complete, .call, .next, .next, .next, .next]).map
        (fun s => (s.currentIndex, s.readIndex, s.unread)) = some (0, 3, []) by decide +kernel)
  obtain ⟨t, ht, htwice⟩ := Option.map_eq_some_iff.mp (show
    ((run Log.step (Log.start 3 (fun _ => 0))
      [.put 97, .put 98, .complete, .call, .next, .next, .next, .next]).bind
        (run Log.step · [.call, .next, .next, .next, .next])).map
          (fun t => (t.logged, t.appended)) = some ([[97, 98], [97, 98]], [[97, 98]])
      by decide +kernel)
  rw [hs, Option.bind_some] at ht
  obtain ⟨hcurrent, hread, hunread⟩ := by simpa only [Prod.mk.injEq] using hview
  obtain ⟨hlogged, happended⟩ := by simpa only [Prod.mk.injEq] using htwice
  refine ⟨s, t, hs, ?_, hunread, ht, fun hfaithful => ?_⟩
  · unfold Log.ReaderWaits
    rw [hcurrent, hread]
    decide
  · have hlength := congrArg List.length hfaithful.text
    rw [hlogged, happended, List.length_append] at hlength
    simp at hlength
    omega

end FastRpc.LogReader
