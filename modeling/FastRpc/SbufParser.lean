import FastRpc.Sbuf

/-! # Parsing with an `sbuf`

`inc/sbuf_parser.h`: parsers that look at the next character of a buffer and move it on.  They stop at the
end of the buffer, so that the string needs no NUL.

For a string that the memory holds (`Holds`), the buffer is known by the rest of the string that is still to
be parsed (`cursor`), and each parser is an operation on lists: `sbuf_notchars` repeated is `dropWhile`
(`sbufMany1_notchars`), and `sbuf_string` takes a prefix away (`sbufString_append`). -/

namespace FastRpc.SbufParser

open ByteStore

/-! ### The source -/

/-- `sbuf_valid`. -/
def sbufValid (b : Sbuf) : Bool := b.buf ≤ b.bufCur && b.bufCur < b.bufEnd

/-- `sbuf_parser_init`. -/
def sbufParserInit (data : ℕ) (dataLen : ℤ) : Sbuf := sbufInit 0 data dataLen

/-- `sbuf_cur`. -/
def sbufCur (b : Sbuf) : ℕ := b.bufCur

/-- `sbuf_peek`. -/
def sbufPeek (m : Store) (b : Sbuf) : Option UInt8 := if sbufValid b then some (m b.bufCur) else none

/-- `sbuf_end`. -/
def sbufEnd (b : Sbuf) : Bool := sbufLeft b = 0

/-- `sbuf_chars`. -/
def sbufChars (m : Store) (chars : List UInt8) (b : Sbuf) : Bool × Sbuf :=
  match sbufPeek m b with
  | none => (false, b)
  | some c => if c ∈ chars then (true, sbufAdvance b 1) else (false, b)

/-- `sbuf_notchars`. -/
def sbufNotchars (m : Store) (chars : List UInt8) (b : Sbuf) : Bool × Sbuf :=
  match sbufPeek m b with
  | none => (false, b)
  | some c => if c ∈ chars then (false, b) else (true, sbufAdvance b 1)

/-- `sbuf_char`. -/
def sbufChar (m : Store) (t : UInt8) (b : Sbuf) : Bool × Sbuf := sbufChars m [t] b

/-- `sbuf_notchar`. -/
def sbufNotchar (m : Store) (t : UInt8) (b : Sbuf) : Bool × Sbuf := sbufNotchars m [t] b

/-- `sbuf_string`. -/
def sbufString (m : Store) : List UInt8 → Sbuf → Bool × Sbuf
  | [], b => (true, b)
  | c :: str, b =>
      let r := sbufChar m c b
      if r.1 then sbufString m str r.2 else (false, r.2)

/-- The loop of `sbuf_many`. -/
def sbufManyLoop (consume : Sbuf → Bool × Sbuf) : ℕ → Sbuf → Sbuf
  | 0, b => b
  | n + 1, b =>
      let r := consume b
      if r.1 then sbufManyLoop consume n r.2 else r.2

/-- `sbuf_many`; a parser that succeeds moves the buffer on, so the loop is over at its end. -/
def sbufMany (consume : Sbuf → Bool × Sbuf) (b : Sbuf) : Bool × Sbuf :=
  if sbufValid b then (true, sbufManyLoop consume (b.bufEnd - b.bufCur) b) else (false, b)

/-- `sbuf_many1`. -/
def sbufMany1 (consume : Sbuf → Bool × Sbuf) (b : Sbuf) : Bool × Sbuf :=
  let r := consume b
  if r.1 then (true, (sbufMany consume r.2).2) else (false, r.2)

/-! ### Strings in memory -/

/-- The memory holds the string at an address, and its length is an `int`. -/
structure Holds (m : Store) (addr : ℕ) (bytes : List UInt8) : Prop where
  held : slice m addr bytes.length = bytes
  len_lt : bytes.length < 2 ^ 31
  end_lt : addr + bytes.length < 2 ^ 64

/-- The buffer of a string of which `rest` is still to be parsed. -/
def cursor (addr : ℕ) (bytes rest : List UInt8) : Sbuf :=
  ⟨addr, addr + bytes.length, addr, addr + (bytes.length - rest.length)⟩

section Cursor

variable {m : Store} {addr : ℕ} {bytes rest chars : List UInt8} {c : UInt8}

theorem init_cursor (h : Holds m addr bytes) : sbufParserInit addr bytes.length = cursor addr bytes bytes := by
  have hlt := h.end_lt
  have hend : u64 ((addr : ℤ) + bytes.length) = addr + bytes.length := by
    unfold u64
    omega
  have hstart : u64 ((addr : ℤ) - 0) = addr := by
    unfold u64
    omega
  unfold sbufParserInit sbufInit cursor
  rw [hend, hstart, Nat.sub_self, Nat.add_zero]

/-- The part of the string that was parsed between two rests. -/
theorem slice_cursor (h : Holds m addr bytes) (part : List UInt8) (hrest : part ++ rest <:+ bytes) :
    sbufCur (cursor addr bytes rest) - sbufCur (cursor addr bytes (part ++ rest)) = part.length ∧
      slice m (sbufCur (cursor addr bytes (part ++ rest))) part.length = part := by
  obtain ⟨done, rfl⟩ := hrest
  have hall := slice_eq_append h.held
  have hpart := slice_eq_append hall.2
  have hstart : (done ++ (part ++ rest)).length - (part ++ rest).length = done.length := by
    simp
  unfold sbufCur cursor
  dsimp only
  rw [hstart]
  refine ⟨?_, hpart.1⟩
  simp only [List.length_append]
  omega

theorem sbufValid_nil (addr : ℕ) (bytes : List UInt8) : sbufValid (cursor addr bytes []) = false := by
  simp [sbufValid, cursor]

theorem sbufValid_cons (hrest : c :: rest <:+ bytes) : sbufValid (cursor addr bytes (c :: rest)) = true := by
  have hlen := hrest.length_le
  rw [List.length_cons] at hlen
  unfold sbufValid cursor
  rw [Bool.and_eq_true, decide_eq_true_iff, decide_eq_true_iff, List.length_cons]
  dsimp only
  omega

theorem sbufPeek_nil (m : Store) (addr : ℕ) (bytes : List UInt8) :
    sbufPeek m (cursor addr bytes []) = none := by
  rw [sbufPeek, sbufValid_nil]
  rfl

theorem sbufPeek_cons (h : Holds m addr bytes) (hrest : c :: rest <:+ bytes) :
    sbufPeek m (cursor addr bytes (c :: rest)) = some c := by
  have hpart : slice m (sbufCur (cursor addr bytes (c :: rest))) 1 = [c] :=
    (slice_cursor h [c] hrest).2
  have hbyte : m (sbufCur (cursor addr bytes (c :: rest))) = c := by
    simpa [slice] using hpart
  rw [sbufPeek, sbufValid_cons hrest, if_pos rfl]
  exact congrArg some hbyte

theorem sbufAdvance_cons (h : Holds m addr bytes) (hrest : c :: rest <:+ bytes) :
    sbufAdvance (cursor addr bytes (c :: rest)) 1 = cursor addr bytes rest := by
  have hlen := hrest.length_le
  have hlt := h.end_lt
  rw [List.length_cons] at hlen
  have hcur : u64 (((addr + (bytes.length - (rest.length + 1)) : ℕ) : ℤ) + 1) =
      addr + (bytes.length - rest.length) := by
    unfold u64
    omega
  unfold sbufAdvance cursor
  rw [List.length_cons, hcur]

theorem sbufEnd_iff (h : Holds m addr bytes) (hrest : rest <:+ bytes) :
    sbufEnd (cursor addr bytes rest) = true ↔ rest = [] := by
  have hlen := hrest.length_le
  have hlt := h.len_lt
  have hleft : sbufLeft (cursor addr bytes rest) = rest.length := by
    unfold sbufLeft cursor
    dsimp only
    rw [cInt_of_range (by omega) (by omega)]
    omega
  rw [sbufEnd, hleft, decide_eq_true_iff, Nat.cast_eq_zero, List.length_eq_zero_iff]

/-! ### Parsers -/

theorem sbufChars_nil (m : Store) (addr : ℕ) (bytes chars : List UInt8) :
    sbufChars m chars (cursor addr bytes []) = (false, cursor addr bytes []) := by
  rw [sbufChars, sbufPeek_nil]

theorem sbufChars_mem (h : Holds m addr bytes) (hrest : c :: rest <:+ bytes) (hc : c ∈ chars) :
    sbufChars m chars (cursor addr bytes (c :: rest)) = (true, cursor addr bytes rest) := by
  rw [sbufChars, sbufPeek_cons h hrest]
  dsimp only
  rw [if_pos hc, sbufAdvance_cons h hrest]

theorem sbufChars_not_mem (h : Holds m addr bytes) (hrest : c :: rest <:+ bytes) (hc : c ∉ chars) :
    sbufChars m chars (cursor addr bytes (c :: rest)) = (false, cursor addr bytes (c :: rest)) := by
  rw [sbufChars, sbufPeek_cons h hrest]
  exact if_neg hc

theorem sbufNotchars_nil (m : Store) (addr : ℕ) (bytes chars : List UInt8) :
    sbufNotchars m chars (cursor addr bytes []) = (false, cursor addr bytes []) := by
  rw [sbufNotchars, sbufPeek_nil]

theorem sbufNotchars_mem (h : Holds m addr bytes) (hrest : c :: rest <:+ bytes) (hc : c ∈ chars) :
    sbufNotchars m chars (cursor addr bytes (c :: rest)) = (false, cursor addr bytes (c :: rest)) := by
  rw [sbufNotchars, sbufPeek_cons h hrest]
  exact if_pos hc

theorem sbufNotchars_not_mem (h : Holds m addr bytes) (hrest : c :: rest <:+ bytes) (hc : c ∉ chars) :
    sbufNotchars m chars (cursor addr bytes (c :: rest)) = (true, cursor addr bytes rest) := by
  rw [sbufNotchars, sbufPeek_cons h hrest]
  dsimp only
  rw [if_neg hc, sbufAdvance_cons h hrest]

/-- `sbuf_char` takes its character away, or leaves the buffer as it is. -/
theorem sbufChar_head (h : Holds m addr bytes) (hrest : rest <:+ bytes) (t : UInt8) :
    sbufChar m t (cursor addr bytes rest) =
      if rest.head? = some t then (true, cursor addr bytes rest.tail) else (false, cursor addr bytes rest) := by
  unfold sbufChar
  cases rest with
  | nil => exact sbufChars_nil m addr bytes [t]
  | cons c rest =>
      by_cases hc : c = t
      · rw [List.head?_cons, if_pos (congrArg some hc)]
        exact sbufChars_mem h hrest (List.mem_singleton.mpr hc)
      · rw [List.head?_cons, if_neg (fun heq => hc (Option.some.inj heq))]
        exact sbufChars_not_mem h hrest (fun hmem => hc (List.mem_singleton.mp hmem))

/-- `sbuf_string` takes its string away. -/
theorem sbufString_append (h : Holds m addr bytes) (str : List UInt8) (hrest : str ++ rest <:+ bytes) :
    sbufString m str (cursor addr bytes (str ++ rest)) = (true, cursor addr bytes rest) := by
  induction str with
  | nil => rfl
  | cons c str ih =>
      have hchar := sbufChar_head h hrest c
      rw [List.cons_append, List.head?_cons, if_pos rfl, List.tail_cons] at hchar
      rw [sbufString, List.cons_append, hchar]
      exact ih ((List.suffix_cons c _).trans hrest)

theorem sbufString_not_prefix (h : Holds m addr bytes) {str : List UInt8} (hrest : rest <:+ bytes)
    (hstr : ¬ str <+: rest) : (sbufString m str (cursor addr bytes rest)).1 = false := by
  induction str generalizing rest with
  | nil => exact absurd (List.nil_prefix) hstr
  | cons c str ih =>
      rw [sbufString, sbufChar_head h hrest c]
      by_cases hhead : rest.head? = some c
      · rw [if_pos hhead]
        cases rest with
        | nil => cases hhead
        | cons d rest =>
            obtain rfl := Option.some.inj hhead
            exact ih ((List.suffix_cons _ _).trans hrest)
              (fun hprefix => hstr ((List.prefix_cons_inj d).mpr hprefix))
      · rw [if_neg hhead]
        rfl

/-- A character that is not one of `chars`. -/
def other (chars : List UInt8) (c : UInt8) : Bool := c ∉ chars

/-- The loop takes away what is not one of the characters. -/
theorem sbufManyLoop_notchars (h : Holds m addr bytes) (hrest : rest <:+ bytes) {n : ℕ}
    (hn : rest.length ≤ n) :
    sbufManyLoop (sbufNotchars m chars) n (cursor addr bytes rest) =
      cursor addr bytes (rest.dropWhile (other chars)) := by
  induction n generalizing rest with
  | zero =>
      obtain rfl := List.length_eq_zero_iff.mp (Nat.le_zero.mp hn)
      rfl
  | succ n ih =>
      cases rest with
      | nil =>
          rw [sbufManyLoop, sbufNotchars_nil]
          rfl
      | cons c rest =>
          rw [sbufManyLoop]
          by_cases hc : c ∈ chars
          · rw [sbufNotchars_mem h hrest hc, List.dropWhile_cons_of_neg (by simp [other, hc])]
            rfl
          · rw [sbufNotchars_not_mem h hrest hc, List.dropWhile_cons_of_pos (by simp [other, hc])]
            exact ih ((List.suffix_cons c rest).trans hrest) (Nat.le_of_succ_le_succ hn)

/-- `sbuf_many` looks for the end first, where its loop would stop as well. -/
theorem sbufMany_notchars (chars : List UInt8) (h : Holds m addr bytes) (hrest : rest <:+ bytes) :
    (sbufMany (sbufNotchars m chars) (cursor addr bytes rest)).2 =
      cursor addr bytes (rest.dropWhile (other chars)) := by
  unfold sbufMany
  cases rest with
  | nil =>
      rw [sbufValid_nil]
      rfl
  | cons c rest =>
      have hlen := hrest.length_le
      rw [sbufValid_cons hrest, if_pos rfl]
      refine sbufManyLoop_notchars h hrest ?_
      unfold cursor
      dsimp only
      omega

/-- **A run of other characters** is taken away, if there is at least one. -/
theorem sbufMany1_notchars (h : Holds m addr bytes) (hrest : rest <:+ bytes) :
    sbufMany1 (sbufNotchars m chars) (cursor addr bytes rest) =
      (!(rest.takeWhile (other chars)).isEmpty, cursor addr bytes (rest.dropWhile (other chars))) := by
  unfold sbufMany1
  cases rest with
  | nil =>
      rw [sbufNotchars_nil]
      rfl
  | cons c rest =>
      by_cases hc : c ∈ chars
      · have hother : ¬ other chars c = true := by simp [other, hc]
        rw [sbufNotchars_mem h hrest hc, List.takeWhile_cons_of_neg hother, List.dropWhile_cons_of_neg hother]
        rfl
      · have hother : other chars c = true := by simp [other, hc]
        have hmany := sbufMany_notchars chars h ((List.suffix_cons c rest).trans hrest)
        rw [sbufNotchars_not_mem h hrest hc, List.takeWhile_cons_of_pos hother,
          List.dropWhile_cons_of_pos hother, ← hmany]
        rfl

end Cursor

end FastRpc.SbufParser
