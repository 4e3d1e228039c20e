import FastRpc.UriParser

/-! # The bytes that `parse_uri` reads

The parsers of a URI are run here as programs that also record the address of every byte that they read, and
whose loops get a number of turns: a loop that is not over by then is `endless`.  The messages of `FARF` read
the texts that they print when the log formats them (`Log` names the places).  Each program computes what its
plain counterpart does (`Scans` and `Simulates`), reads only bytes of the string, and has loops that end, since
every turn moves the buffer on.

The messages at the beginning and at the end print the whole string up to its first NUL, which need not be in
it: `parse_uri_in_bounds_iff`. -/

namespace FastRpc.UriParser.Reads

open ByteStore SbufParser EarlyExit

/-! ### Parsers -/

/-- What a parser does to the buffer, and what it reads. -/
structure Scan where
  ok : Bool
  buf : Sbuf
  reads : List ℕ
  endless : Bool

/-- One parser after the other. -/
def Scan.after (r s : Scan) : Scan := ⟨s.ok, s.buf, r.reads ++ s.reads, r.endless || s.endless⟩

/-- The read of `sbuf_peek`. -/
def peekReads (b : Sbuf) : List ℕ := if sbufValid b then [sbufCur b] else []

variable (m : Store)

/-- `sbuf_chars`. -/
def scanChars (chars : List UInt8) (b : Sbuf) : Scan :=
  ⟨(sbufChars m chars b).1, (sbufChars m chars b).2, peekReads b, false⟩

/-- `sbuf_notchars`. -/
def scanNotchars (chars : List UInt8) (b : Sbuf) : Scan :=
  ⟨(sbufNotchars m chars b).1, (sbufNotchars m chars b).2, peekReads b, false⟩

/-- `sbuf_string`. -/
def scanString : List UInt8 → Sbuf → Scan
  | [], b => ⟨true, b, [], false⟩
  | c :: str, b =>
      let r := scanChars m [c] b
      if r.ok then r.after (scanString str r.buf) else r

/-- The loop of `sbuf_many`. -/
def scanManyLoop (consume : Sbuf → Scan) : ℕ → Sbuf → Scan
  | 0, b => ⟨true, b, [], true⟩
  | n + 1, b =>
      let r := consume b
      if r.ok then r.after (scanManyLoop consume n r.buf) else { r with ok := true }

/-- `sbuf_many`. -/
def scanMany (consume : Sbuf → Scan) (n : ℕ) (b : Sbuf) : Scan :=
  if sbufValid b then scanManyLoop consume n b else ⟨false, b, [], false⟩

/-- `sbuf_many1`. -/
def scanMany1 (consume : Sbuf → Scan) (n : ℕ) (b : Sbuf) : Scan :=
  let r := consume b
  if r.ok then { r.after (scanMany consume n r.buf) with ok := true } else r

/-! ### The program -/

/-- The places of the messages. -/
inductive Log
  | entry
  | file
  | sym
  | doneFile
  | doneSym
  | doneVer
  | done

/-- The variables of `parse_uri`, the addresses it has read, and whether a loop was not over in time. -/
structure Trace where
  st : State
  reads : List ℕ
  endless : Bool

/-- More reads. -/
def Trace.read (t : Trace) (reads : List ℕ) : Trace := { t with reads := t.reads ++ reads }

/-- `parse_uri` before `bail`, with its reads. -/
abbrev TraceM := EarlyExit Trace

/-- A step that reads nothing. -/
def quiet {α : Type} (p : ParseM α) : TraceM α := onPart Trace.st (fun s t => { t with st := s }) p

/-- A parser on the buffer. -/
def scan (p : Sbuf → Scan) : TraceM Bool := do
  let t ← get
  update (fun t => ⟨{ t.st with buf := (p t.st.buf).buf }, t.reads ++ (p t.st.buf).reads,
    t.endless || (p t.st.buf).endless⟩)
  return (p t.st.buf).ok

/-- What `%.*s` reads: the characters in front of a NUL or of the given number, and this NUL. -/
def partReads : ℕ → ℕ → List ℕ
  | _, 0 => []
  | a, k + 1 => a :: if m a = 0 then [] else partReads (a + 1) k

/-- What `%s` reads of a text, and whether there was no NUL among the first `n` bytes. -/
def textReads : ℕ → ℕ → List ℕ × Bool
  | _, 0 => ([], true)
  | a, n + 1 => if m a = 0 then ([a], false) else (a :: (textReads (a + 1) n).1, (textReads (a + 1) n).2)

/-- What `strncmp(s, str, n)` reads of `s`. -/
def strncmpReads : ℕ → List UInt8 → ℕ → List ℕ
  | _, _, 0 => []
  | s, str, n + 1 =>
      s :: if m s = str.headD 0 ∧ str.headD 0 ≠ 0 then strncmpReads (s + 1) str.tail n else []

variable (logs : Log → Bool) (n : ℕ)

/-- The reads of a message with a part of the string. -/
def partLog (place : Log) (a len : ℕ) : List ℕ := if logs place then partReads m a len else []

/-- The value of a query, and its length. -/
def scanValue : TraceM (ℕ × ℕ) := do
  if ← scan (scanChars m [equals]) then do
    let value ← quiet cur
    quiet (verify (← scan (scanMany1 (scanNotchars m [amp]) n)))
    let stop ← quiet cur
    return (value, stop - value)
  else return (0, 0)

/-- The loop over the queries. -/
def scanQueries : ℕ → TraceM PUnit
  | 0 => update (fun t => { t with endless := true })
  | k + 1 => do
      let s ← quiet get
      if sbufEnd s.buf then pure ⟨⟩
      else do
        let name ← quiet cur
        quiet (verify (← scan (scanMany1 (scanNotchars m [amp, equals]) n)))
        let stop ← quiet cur
        let value ← scanValue m n
        let _ ← scan (scanChars m [amp])
        update (fun t => t.read (strncmpReads m name modver (stop - name)))
        if strncmpZero m name modver (stop - name) then
          quiet (update (fun s => { s with out := { s.out with ver := value.1, verlen := value.2 } }))
        else pure ⟨⟩
        scanQueries k

/-- The queries, if there are any. -/
def scanRest : TraceM PUnit := do
  let s ← quiet get
  if sbufEnd s.buf then pure ⟨⟩
  else do
    if ← scan (scanChars m [amp]) then scanQueries m n n else pure ⟨⟩

/-- The symbol, and what is behind it. -/
def scanSym : TraceM PUnit := do
  quiet (verify (← scan (scanChars m [qmark])))
  let sym ← quiet cur
  quiet (update (fun s => { s with out := { s.out with sym := sym } }))
  quiet (verify (← scan (scanMany1 (scanNotchars m [amp]) n)))
  let stop ← quiet cur
  quiet (update (fun s => { s with out := { s.out with symlen := stop - sym } }))
  update (fun t => t.read (partLog m logs .sym t.st.out.sym t.st.out.symlen))
  scanRest m n

/-- The file, and what is behind it. -/
def scanFile : TraceM PUnit := do
  let file ← quiet cur
  quiet (update (fun s => { s with out := { s.out with file := file } }))
  quiet (verify (← scan (scanMany1 (scanNotchars m [qmark]) n)))
  let stop ← quiet cur
  quiet (update (fun s => { s with out := { s.out with filelen := stop - file } }))
  update (fun t => t.read (partLog m logs .file t.st.out.file t.st.out.filelen))
  scanSym m logs n

/-- `parse_uri` up to `bail`, behind its first message. -/
def scanParts : TraceM PUnit := do
  quiet (verifyc (← scan (scanString m fileScheme)) eBadParm)
  let _ ← scan (scanString m [slash])
  scanFile m logs n

/-- The reads of a message with the whole string. -/
def textLog (place : Log) (uri : ℕ) : List ℕ × Bool := if logs place then textReads m uri n else ([], false)

/-- The reads behind `bail`, in front of the last message. -/
def bailReads (out : ParsedUri) : List ℕ :=
  (if out.filelen = 0 then [] else partLog m logs .doneFile out.file out.filelen) ++
    (if out.symlen = 0 then [] else partLog m logs .doneSym out.sym out.symlen) ++
      (if out.verlen = 0 then [] else partLog m logs .doneVer out.ver out.verlen)

/-- `parse_uri` with all its reads. -/
def traceUri (uri : ℕ) (urilen : ℤ) : Trace :=
  let t := (scanParts m logs n).leaves ⟨start uri urilen, [], false⟩
  ⟨t.st,
    (textLog m logs n .entry uri).1 ++ t.reads ++ bailReads m logs t.st.out ++ (textLog m logs n .done uri).1,
    (textLog m logs n .entry uri).2 || t.endless || (textLog m logs n .done uri).2⟩

/-! ### Bounds -/

/-- A part of the string, or none. -/
def PartOf (lo len a k : ℕ) : Prop := a = 0 ∧ k = 0 ∨ lo ≤ a ∧ a + k ≤ lo + len

/-- The parts that `parse_uri` reports. -/
structure PartsOf (lo len : ℕ) (out : ParsedUri) : Prop where
  file : PartOf lo len out.file out.filelen
  sym : PartOf lo len out.sym out.symlen
  ver : PartOf lo len out.ver out.verlen

/-- All loops end, and only bytes of the string are read and reported. -/
structure Trace.InBounds (lo len : ℕ) (t : Trace) : Prop where
  ends : t.endless = false
  reads : ∀ a ∈ t.reads, lo ≤ a ∧ a < lo + len
  parts : PartsOf lo len t.st.out

/-- A buffer on a string. -/
structure InBuf (lo len : ℕ) (b : Sbuf) : Prop where
  buf : b.buf = lo
  bufEnd : b.bufEnd = lo + len
  bufStart : b.bufStart = lo
  le_cur : lo ≤ b.bufCur
  cur_le : b.bufCur ≤ lo + len

/-! ### Scans -/

section Scans

variable {m : Store} {lo len : ℕ} {b : Sbuf}

theorem InBuf.ext_cur {c : Sbuf} (hb : InBuf lo len b) (hc : InBuf lo len c) (h : b.bufCur = c.bufCur) : b = c := by
  obtain ⟨buf, bufEnd, bufStart, -, -⟩ := hb
  obtain ⟨buf', bufEnd', bufStart', -, -⟩ := hc
  cases b
  cases c
  simp_all

theorem InBuf.valid_iff (hb : InBuf lo len b) : sbufValid b = true ↔ b.bufCur < lo + len := by
  have := hb.le_cur
  rw [sbufValid, Bool.and_eq_true, decide_eq_true_iff, decide_eq_true_iff, hb.buf, hb.bufEnd]
  omega

theorem InBuf.advance (haddr : lo + len < 2 ^ 64) (hb : InBuf lo len b) (hcur : b.bufCur < lo + len) :
    InBuf lo len (sbufAdvance b 1) ∧ (sbufAdvance b 1).bufCur = b.bufCur + 1 := by
  have hnext : (sbufAdvance b 1).bufCur = b.bufCur + 1 := by
    unfold sbufAdvance u64
    dsimp only
    omega
  have := hb.le_cur
  exact ⟨⟨hb.buf, hb.bufEnd, hb.bufStart, by omega, by omega⟩, hnext⟩

/-- At the end of the string nothing is left. -/
theorem InBuf.end_of_le (hb : InBuf lo len b) (hcur : lo + len ≤ b.bufCur) : sbufEnd b = true := by
  have heq : b.bufCur = lo + len := le_antisymm hb.cur_le hcur
  have hleft : sbufLeft b = 0 := by
    unfold sbufLeft
    rw [hb.bufEnd, heq, sub_self]
    decide
  rw [sbufEnd, hleft, decide_eq_true_iff]

theorem InBuf.peekReads_inside (hb : InBuf lo len b) : ∀ a ∈ peekReads b, lo ≤ a ∧ a < lo + len := by
  intro a ha
  unfold peekReads at ha
  split_ifs at ha with hvalid
  · rw [List.mem_singleton.mp ha]
    exact ⟨hb.le_cur, hb.valid_iff.mp hvalid⟩
  · exact absurd ha List.not_mem_nil

/-- What is true of a parser's run that did `r` where the plain parser gives `q`; a success moved the buffer on
by `d` characters at least. -/
structure Scanned (lo len d : ℕ) (b : Sbuf) (r : Scan) (q : Bool × Sbuf) : Prop where
  ok : r.ok = q.1
  same : r.buf = q.2
  buf : InBuf lo len r.buf
  reads : ∀ a ∈ r.reads, lo ≤ a ∧ a < lo + len
  ends : r.endless = false
  moved : b.bufCur + (if r.ok then d else 0) ≤ r.buf.bufCur

/-- The recording parser does what the plain one does, on the string. -/
def Scans (lo len d : ℕ) (p : Sbuf → Scan) (q : Sbuf → Bool × Sbuf) : Prop :=
  ∀ b, InBuf lo len b → Scanned lo len d b (p b) (q b)

/-- A parser of one character moves on by it or fails without a move. -/
theorem scanned_one (haddr : lo + len < 2 ^ 64) (hb : InBuf lo len b) {q : Bool × Sbuf}
    (hq : q = (false, b) ∨ q = (true, sbufAdvance b 1) ∧ sbufValid b = true) :
    Scanned lo len 1 b ⟨q.1, q.2, peekReads b, false⟩ q := by
  obtain rfl | ⟨rfl, hvalid⟩ := hq
  · exact ⟨rfl, rfl, hb, hb.peekReads_inside, rfl, le_refl _⟩
  · obtain ⟨hnext, hcur⟩ := hb.advance haddr (hb.valid_iff.mp hvalid)
    exact ⟨rfl, rfl, hnext, hb.peekReads_inside, rfl, hcur.ge⟩

theorem scans_chars (haddr : lo + len < 2 ^ 64) (chars : List UInt8) :
    Scans lo len 1 (scanChars m chars) (sbufChars m chars) := by
  intro b hb
  refine scanned_one haddr hb ?_
  unfold sbufChars sbufPeek
  by_cases hvalid : sbufValid b = true
  · rw [if_pos hvalid]
    dsimp only
    split_ifs
    · exact Or.inr ⟨rfl, hvalid⟩
    · exact Or.inl rfl
  · rw [if_neg hvalid]
    exact Or.inl rfl

theorem scans_notchars (haddr : lo + len < 2 ^ 64) (chars : List UInt8) :
    Scans lo len 1 (scanNotchars m chars) (sbufNotchars m chars) := by
  intro b hb
  refine scanned_one haddr hb ?_
  unfold sbufNotchars sbufPeek
  by_cases hvalid : sbufValid b = true
  · rw [if_pos hvalid]
    dsimp only
    split_ifs
    · exact Or.inl rfl
    · exact Or.inr ⟨rfl, hvalid⟩
  · rw [if_neg hvalid]
    exact Or.inl rfl

/-- A parser behind another one. -/
theorem Scanned.after {d e : ℕ} {r s : Scan} {q q' : Bool × Sbuf} (hr : Scanned lo len d b r q)
    (hs : Scanned lo len e r.buf s q') : Scanned lo len 0 b (r.after s) q' := by
  refine ⟨hs.ok, hs.same, hs.buf, fun a ha => ?_, ?_, ?_⟩
  · rcases List.mem_append.mp ha with ha | ha
    · exact hr.reads a ha
    · exact hs.reads a ha
  · rw [Scan.after, hr.ends, hs.ends, Bool.or_self]
  · have hfirst := hr.moved
    have hsecond := hs.moved
    have hbuf : (r.after s).buf = s.buf := rfl
    rw [ite_self, hbuf]
    omega

theorem scans_string (haddr : lo + len < 2 ^ 64) (str : List UInt8) :
    Scans lo len 0 (scanString m str) (sbufString m str) := by
  induction str with
  | nil =>
      intro b hb
      exact ⟨rfl, rfl, hb, fun a ha => absurd ha List.not_mem_nil, rfl, le_refl _⟩
  | cons c str ih =>
      intro b hb
      have hchar : Scanned lo len 1 b (scanChars m [c] b) (sbufChar m c b) := scans_chars haddr [c] b hb
      rw [scanString, sbufString]
      simp only [← hchar.ok, ← hchar.same]
      split_ifs with hok
      · exact hchar.after (ih _ hchar.buf)
      · rw [Bool.not_eq_true] at hok
        refine ⟨hok, rfl, hchar.buf, hchar.reads, hchar.ends, ?_⟩
        have := hchar.moved
        rw [ite_self]
        omega

variable {p : Sbuf → Scan} {q : Sbuf → Bool × Sbuf}

/-- **A loop ends**, and the turns of the plain loop are enough for it. -/
theorem scanManyLoop_scanned (hp : Scans lo len 1 p q) {n k : ℕ} (hb : InBuf lo len b)
    (hn : lo + len < b.bufCur + n) (hk : lo + len ≤ b.bufCur + k) :
    Scanned lo len 0 b (scanManyLoop p n b) (true, sbufManyLoop q k b) := by
  induction n generalizing b k with
  | zero =>
      have := hb.cur_le
      omega
  | succ n ih =>
      have hone := hp b hb
      have hmoved := hone.moved
      have hcur := hone.buf.cur_le
      rw [scanManyLoop]
      by_cases hok : (p b).ok = true
      · rw [if_pos hok] at hmoved ⊢
        cases k with
        | zero => omega
        | succ k =>
            rw [sbufManyLoop, ← hone.ok, if_pos hok, ← hone.same]
            exact hone.after (ih hone.buf (by omega) (by omega))
      · rw [if_neg hok] at hmoved ⊢
        have hlast : (p b).buf = sbufManyLoop q k b := by
          cases k with
          | zero =>
              have hend : (p b).buf.bufCur = b.bufCur := by
                have := hb.cur_le
                omega
              exact hone.buf.ext_cur hb hend
          | succ k =>
              rw [sbufManyLoop, ← hone.ok, if_neg hok, hone.same]
        exact ⟨rfl, hlast, hone.buf, hone.reads, hone.ends, by rw [ite_self]; exact hmoved⟩

theorem scans_many (hp : Scans lo len 1 p q) {n : ℕ} (hn : len < n) :
    Scans lo len 0 (scanMany p n) (sbufMany q) := by
  intro b hb
  have hle := hb.le_cur
  unfold scanMany sbufMany
  split_ifs
  · refine scanManyLoop_scanned hp hb (by omega) ?_
    rw [hb.bufEnd]
    omega
  · exact ⟨rfl, rfl, hb, fun a ha => absurd ha List.not_mem_nil, rfl, le_refl _⟩

theorem scans_many1 (hp : Scans lo len 1 p q) {n : ℕ} (hn : len < n) :
    Scans lo len 1 (scanMany1 p n) (sbufMany1 q) := by
  intro b hb
  have hone := hp b hb
  unfold scanMany1 sbufMany1
  simp only [← hone.ok, ← hone.same]
  split_ifs with hok
  · have hmany := scans_many hp hn _ hone.buf
    have hafter := hone.after hmany
    refine ⟨rfl, hmany.same, hmany.buf, hafter.reads, hafter.ends, ?_⟩
    have hfirst := hone.moved
    have hsecond := hmany.moved
    rw [if_pos hok] at hfirst
    have hbuf : ((p b).after (scanMany p n (p b).buf)).buf = (scanMany p n (p b).buf).buf := rfl
    rw [if_pos rfl, hbuf]
    omega
  · rw [Bool.not_eq_true] at hok
    exact ⟨hok, rfl, hone.buf, hone.reads, hone.ends, hone.moved⟩

end Scans

/-! ### Programs -/

section Programs

variable {m : Store} {lo len a : ℕ} {G H : ParsedUri → Prop}

/-- A state in front of `bail`: the buffer is at the character `a` or behind it, and the parts found so far
are such that `G`. -/
structure Inside (lo len : ℕ) (G : ParsedUri → Prop) (a : ℕ) (t : Trace) : Prop where
  buf : InBuf lo len t.st.buf
  bounds : t.InBounds lo len
  out : G t.st.out
  moved : a ≤ t.st.buf.bufCur

theorem Inside.mono {a' : ℕ} {t : Trace} (h : Inside lo len G a t) (hG : ∀ out, G out → H out) (ha : a' ≤ a) :
    Inside lo len H a' t := ⟨h.buf, h.bounds, hG _ h.out, ha.trans h.moved⟩

/-- What a program is proved to do: what the plain one does, and within the string. -/
abbrev Bounded {α : Type} (lo len : ℕ) (P : Trace → Prop) (p : TraceM α) (q : ParseM α)
    (Q : α → Trace → Prop) : Prop := EarlyExit.Simulates Trace.st P p q Q (Trace.InBounds lo len)

theorem bounded_scan {d : ℕ} {p : Sbuf → Scan} {q : Sbuf → Bool × Sbuf} (hp : Scans lo len d p q) :
    Bounded lo len (Inside lo len G a) (scan p) (consume q)
      (fun ok => Inside lo len G (if ok then a + d else a)) := by
  intro t ht
  have hone := hp t.st.buf ht.buf
  let u : Trace := ⟨{ t.st with buf := (p t.st.buf).buf }, t.reads ++ (p t.st.buf).reads,
    t.endless || (p t.st.buf).endless⟩
  refine ⟨some (p t.st.buf).ok, u, ⟨rfl, rfl⟩, ?_, hone.buf, ⟨?_, fun x hx => ?_, ht.bounds.parts⟩, ht.out, ?_⟩
  · have hst : u.st = { t.st with buf := (q t.st.buf).2 } := by
      rw [← hone.same]
    rw [hst, hone.ok]
    exact ⟨rfl, rfl⟩
  · exact (congrArg₂ or ht.bounds.ends hone.ends).trans rfl
  · rcases List.mem_append.mp hx with hx | hx
    · exact ht.bounds.reads x hx
    · exact hone.reads x hx
  · have hfrom := ht.moved
    have hmoved := hone.moved
    change (if (p t.st.buf).ok then a + d else a) ≤ (p t.st.buf).buf.bufCur
    split_ifs at hmoved ⊢ <;> omega

theorem bounded_cur : Bounded lo len (Inside lo len G a) (quiet cur) cur
    (fun x t => Inside lo len G x t ∧ (lo ≤ x ∧ a ≤ x ∧ x ≤ lo + len)) := by
  refine simulates_onPart (fun _ _ => rfl) (fun t o u ht hends => ?_)
  obtain rfl : o = some t.st.buf.bufCur := hends.value.symm
  obtain rfl : u = t.st := hends.leaves.symm
  exact ⟨⟨ht.buf, ht.bounds, ht.out, le_refl _⟩, ht.buf.le_cur, ht.moved, ht.buf.cur_le⟩

theorem bounded_get : Bounded lo len (Inside lo len G a) (quiet get) get
    (fun s t => Inside lo len G s.buf.bufCur t ∧ (InBuf lo len s.buf ∧ a ≤ s.buf.bufCur)) := by
  refine simulates_onPart (fun _ _ => rfl) (fun t o u ht hends => ?_)
  obtain rfl : o = some t.st := hends.value.symm
  obtain rfl : u = t.st := hends.leaves.symm
  exact ⟨⟨ht.buf, ht.bounds, ht.out, le_refl _⟩, ht.buf, ht.moved⟩

/-- Only a success goes on. -/
theorem bounded_verifyc (ok : Bool) (code : ℤ) {b : ℕ} :
    Bounded lo len (Inside lo len G (if ok then a else b)) (quiet (verifyc ok code)) (verifyc ok code)
      (fun _ => Inside lo len G a) := by
  refine simulates_onPart (fun _ _ => rfl) (fun t o u ht hends => ?_)
  cases ok with
  | true =>
      obtain rfl : o = some ⟨⟩ := hends.value.symm
      obtain rfl : u = t.st := hends.leaves.symm
      exact ht
  | false =>
      obtain rfl : o = none := hends.value.symm
      obtain rfl : u = { t.st with nErr := code } := hends.leaves.symm
      exact ⟨ht.bounds.ends, ht.bounds.reads, ht.bounds.parts⟩

theorem bounded_out {g : ParsedUri → ParsedUri}
    (hg : ∀ out, G out → PartsOf lo len out → H (g out) ∧ PartsOf lo len (g out)) :
    Bounded lo len (Inside lo len G a) (quiet (update (fun s => { s with out := g s.out })))
      (update (fun s => { s with out := g s.out })) (fun _ => Inside lo len H a) := by
  refine simulates_onPart (fun _ _ => rfl) (fun t o u ht hends => ?_)
  obtain rfl : o = some ⟨⟩ := hends.value.symm
  obtain rfl : u = { t.st with out := g t.st.out } := hends.leaves.symm
  obtain ⟨hout, hparts⟩ := hg _ ht.out ht.bounds.parts
  exact ⟨ht.buf, ⟨ht.bounds.ends, ht.bounds.reads, hparts⟩, hout, ht.moved⟩

/-- More reads within the string. -/
theorem bounded_read {α : Type} {p : TraceM α} {q : ParseM α} {Q : α → Trace → Prop} {reads : Trace → List ℕ}
    (hreads : ∀ t, Inside lo len G a t → ∀ x ∈ reads t, lo ≤ x ∧ x < lo + len)
    (h : Bounded lo len (Inside lo len G a) p q Q) :
    Bounded lo len (Inside lo len G a) (update (fun t => t.read (reads t)) >>= fun _ => p) q Q := by
  refine simulates_update_left (fun _ => rfl) (fun t ht => ?_) h
  refine ⟨ht.buf, ⟨ht.bounds.ends, fun x hx => ?_, ht.bounds.parts⟩, ht.out, ht.moved⟩
  rcases List.mem_append.mp hx with hx | hx
  · exact ht.bounds.reads x hx
  · exact hreads t ht x hx

/-! ### Texts -/

theorem partReads_mem {a k x : ℕ} (h : x ∈ partReads m a k) : a ≤ x ∧ x < a + k := by
  induction k generalizing a with
  | zero => exact absurd h List.not_mem_nil
  | succ k ih =>
      rw [partReads, List.mem_cons] at h
      rcases h with rfl | h
      · omega
      · split_ifs at h
        · exact absurd h List.not_mem_nil
        · have := ih h
          omega

theorem strncmpReads_mem {s k x : ℕ} {str : List UInt8} (h : x ∈ strncmpReads m s str k) :
    s ≤ x ∧ x < s + k := by
  induction k generalizing s str with
  | zero => exact absurd h List.not_mem_nil
  | succ k ih =>
      rw [strncmpReads, List.mem_cons] at h
      rcases h with rfl | h
      · omega
      · split_ifs at h
        · have := ih h
          omega
        · exact absurd h List.not_mem_nil

/-- A message with a part reads nothing else. -/
theorem partLog_inside {logs : Log → Bool} {place : Log} {k x : ℕ} (h : PartOf lo len a k)
    (hx : x ∈ partLog m logs place a k) : lo ≤ x ∧ x < lo + len := by
  unfold partLog at hx
  split_ifs at hx
  · have := partReads_mem hx
    obtain ⟨-, rfl⟩ | ⟨hlo, hhi⟩ := h
    · omega
    · omega
  · exact absurd hx List.not_mem_nil

/-! ### `parse_uri` -/

variable {n : ℕ} {logs : Log → Bool} (hn : len < n) (haddr : lo + len < 2 ^ 64)
include hn haddr

omit hn in
theorem bounded_char (c : UInt8) :
    Bounded lo len (Inside lo len G a) (scan (scanChars m [c])) (consume (sbufChar m c))
      (fun ok => Inside lo len G (if ok then a + 1 else a)) :=
  bounded_scan (scans_chars haddr [c])

theorem bounded_value : Bounded lo len (Inside lo len G a) (scanValue m n) (parseValue m)
    (fun v t => Inside lo len G a t ∧ PartOf lo len v.1 v.2) := by
  unfold scanValue parseValue
  refine simulates_bind (bounded_char haddr equals) (fun ok => ?_)
  cases ok with
  | false => exact simulates_weaken (simulates_pure _) (fun t ht => ⟨ht, Or.inl ⟨rfl, rfl⟩⟩) (fun _ _ h => h)
  | true =>
      refine simulates_bind bounded_cur (fun value => simulates_and (fun hvalue => ?_))
      refine simulates_bind (bounded_scan (scans_many1 (scans_notchars haddr [amp]) hn)) (fun ok => ?_)
      refine simulates_bind (bounded_verifyc ok (-1)) (fun _ => ?_)
      refine simulates_bind bounded_cur (fun stop => simulates_and (fun hstop => ?_))
      obtain ⟨hlo, hfrom, -⟩ := hvalue
      rw [if_pos rfl] at hfrom
      refine simulates_weaken (simulates_pure _) (fun t ht => ⟨ht.mono (fun _ h => h) (by omega), Or.inr ?_⟩)
        (fun _ _ h => h)
      exact ⟨hlo, by simp only; omega⟩

/-- **The loop over the queries** ends: every turn moves the buffer on. -/
theorem bounded_queries {k k' a : ℕ} (hk : lo + len < a + k) (hk' : lo + len ≤ a + k') :
    Bounded lo len (Inside lo len (fun _ => True) a) (scanQueries m n k) (parseQueries m k')
      (fun _ t => t.InBounds lo len) := by
  induction k generalizing k' a with
  | zero =>
      intro t ht
      have hmoved := ht.moved
      have hcur := ht.buf.cur_le
      omega
  | succ k ih =>
      rw [scanQueries]
      cases k' with
      | zero =>
          -- the plain loop has no turn left, and the buffer is at its end
          intro t ht
          have hend : sbufEnd t.st.buf = true := ht.buf.end_of_le (by have := ht.moved; omega)
          refine ⟨some ⟨⟩, t, ?_, ends_pure _ _, ht.bounds⟩
          refine Ends.bind (a := t.st) (t := t) ⟨rfl, rfl⟩ ?_
          rw [if_pos hend]
          exact ends_pure _ _
      | succ k' =>
          rw [parseQueries]
          refine simulates_bind bounded_get (fun s => simulates_and (fun hs => ?_))
          split_ifs with hend
          · exact simulates_weaken (simulates_pure _) (fun t ht => ht.bounds) (fun _ _ h => h)
          refine simulates_bind bounded_cur (fun name => simulates_and (fun hname => ?_))
          refine simulates_bind (bounded_scan (scans_many1 (scans_notchars haddr [amp, equals]) hn)) (fun ok => ?_)
          refine simulates_bind (bounded_verifyc ok (-1)) (fun _ => ?_)
          refine simulates_bind bounded_cur (fun stop => simulates_and (fun hstop => ?_))
          refine simulates_bind (bounded_value hn haddr) (fun value => simulates_and (fun hvalue => ?_))
          refine simulates_bind (bounded_char haddr amp) (fun ok => ?_)
          have hrest : Bounded lo len (Inside lo len (fun _ => True) (name + 1)) (scanQueries m n k)
              (parseQueries m k') (fun _ t => t.InBounds lo len) := ih (by omega) (by omega)
          refine simulates_weaken (P := Inside lo len (fun _ => True) (name + 1)) (Q := fun _ t => t.InBounds lo len)
            ?_ (fun t ht => ht.mono (fun _ h => h) (by split_ifs <;> omega)) (fun _ _ h => h)
          refine bounded_read (fun t _ x hx => ?_) ?_
          · have := strncmpReads_mem hx
            omega
          split_ifs
          · exact simulates_bind (bounded_out (g := fun out => { out with ver := value.1, verlen := value.2 })
              (fun out _ hparts => ⟨trivial, hparts.file, hparts.sym, hvalue⟩)) (fun _ => hrest)
          · exact hrest

theorem bounded_rest : Bounded lo len (Inside lo len (fun _ => True) a) (scanRest m n) (parseRest m)
    (fun _ t => t.InBounds lo len) := by
  unfold scanRest parseRest
  refine simulates_bind bounded_get (fun s => simulates_and (fun hs => ?_))
  split_ifs with hend
  · exact simulates_weaken (simulates_pure _) (fun t ht => ht.bounds) (fun _ _ h => h)
  refine simulates_bind (bounded_char haddr amp) (fun ok => ?_)
  cases ok with
  | false => exact simulates_weaken (simulates_pure _) (fun t ht => ht.bounds) (fun _ _ h => h)
  | true =>
      have hcur := hs.1.cur_le
      refine bounded_queries hn haddr ?_ ?_
      · rw [if_pos rfl]
        have := hs.1.le_cur
        omega
      · rw [if_pos rfl, hs.1.bufEnd]
        omega

/-- The symbol: its address is set first, then its length. -/
theorem bounded_sym : Bounded lo len (Inside lo len (fun out => out.symlen = 0) a) (scanSym m logs n) (parseSym m)
    (fun _ t => t.InBounds lo len) := by
  unfold scanSym parseSym
  refine simulates_bind (bounded_char haddr qmark) (fun ok => ?_)
  refine simulates_bind (bounded_verifyc ok (-1)) (fun _ => ?_)
  refine simulates_bind bounded_cur (fun sym => simulates_and (fun hsym => ?_))
  refine simulates_bind (bounded_out (g := fun out => { out with sym := sym })
    (H := fun out => out.sym = sym) (fun out hout hparts => ⟨rfl, hparts.file, Or.inr ?_, hparts.ver⟩)) (fun _ => ?_)
  · simp only [hout]
    omega
  refine simulates_bind (bounded_scan (scans_many1 (scans_notchars haddr [amp]) hn)) (fun ok => ?_)
  refine simulates_bind (bounded_verifyc ok (-1)) (fun _ => ?_)
  refine simulates_bind bounded_cur (fun stop => simulates_and (fun hstop => ?_))
  refine simulates_bind (bounded_out (g := fun out => { out with symlen := stop - sym })
    (H := fun _ => True) (fun out hout hparts => ⟨trivial, hparts.file, Or.inr ?_, hparts.ver⟩)) (fun _ => ?_)
  · simp only [hout]
    omega
  refine bounded_read (fun t ht x hx => partLog_inside ht.bounds.parts.sym hx) ?_
  exact bounded_rest hn haddr

/-- The file, likewise. -/
theorem bounded_file :
    Bounded lo len (Inside lo len (fun out => out.filelen = 0 ∧ out.symlen = 0) a) (scanFile m logs n) (parseFile m)
      (fun _ t => t.InBounds lo len) := by
  unfold scanFile parseFile
  refine simulates_bind bounded_cur (fun file => simulates_and (fun hfile => ?_))
  refine simulates_bind (bounded_out (g := fun out => { out with file := file })
    (H := fun out => out.file = file ∧ out.symlen = 0)
    (fun out hout hparts => ⟨⟨rfl, hout.2⟩, Or.inr ?_, hparts.sym, hparts.ver⟩)) (fun _ => ?_)
  · simp only [hout.1]
    omega
  refine simulates_bind (bounded_scan (scans_many1 (scans_notchars haddr [qmark]) hn)) (fun ok => ?_)
  refine simulates_bind (bounded_verifyc ok (-1)) (fun _ => ?_)
  refine simulates_bind bounded_cur (fun stop => simulates_and (fun hstop => ?_))
  refine simulates_bind (bounded_out (g := fun out => { out with filelen := stop - file })
    (H := fun out => out.symlen = 0)
    (fun out hout hparts => ⟨hout.2, Or.inr ?_, hparts.sym, hparts.ver⟩)) (fun _ => ?_)
  · simp only [hout.1]
    omega
  refine bounded_read (fun t ht x hx => partLog_inside ht.bounds.parts.file hx) ?_
  exact bounded_sym hn haddr

theorem bounded_parts :
    Bounded lo len (Inside lo len (fun out => out.filelen = 0 ∧ out.symlen = 0) a) (scanParts m logs n) (parseParts m)
      (fun _ t => t.InBounds lo len) := by
  unfold scanParts parseParts
  refine simulates_bind (bounded_scan (scans_string haddr fileScheme)) (fun ok => ?_)
  refine simulates_bind (bounded_verifyc ok eBadParm) (fun _ => ?_)
  refine simulates_bind (bounded_scan (scans_string haddr [slash])) (fun ok => ?_)
  exact bounded_file hn haddr

end Programs

/-! ### All strings -/

section Strings

variable {m : Store} {uri n : ℕ} {bytes : List UInt8} {logs : Log → Bool}

/-- The buffer that `parse_uri` starts with. -/
theorem inBuf_start (h : Holds m uri bytes) : InBuf uri bytes.length (start uri bytes.length).buf := by
  have hstart : (start uri bytes.length).buf = cursor uri bytes bytes := init_cursor h
  rw [hstart]
  refine ⟨rfl, rfl, rfl, ?_, ?_⟩
  · exact Nat.le_add_right _ _
  · unfold cursor
    dsimp only
    omega

theorem inside_start (h : Holds m uri bytes) :
    Inside uri bytes.length (fun out => out.filelen = 0 ∧ out.symlen = 0) uri ⟨start uri bytes.length, [], false⟩ :=
  have hnone : PartsOf uri bytes.length ⟨0, 0, 0, 0, 0, 0⟩ :=
    ⟨Or.inl ⟨rfl, rfl⟩, Or.inl ⟨rfl, rfl⟩, Or.inl ⟨rfl, rfl⟩⟩
  ⟨inBuf_start h, ⟨rfl, fun _ hx => absurd hx List.not_mem_nil, hnone⟩, ⟨rfl, rfl⟩, (inBuf_start h).le_cur⟩

/-- In front of `bail` all is within the string, and the variables are those of the plain program. -/
theorem scanParts_bounded (h : Holds m uri bytes) (hn : bytes.length < n) (logs : Log → Bool) :
    let t := (scanParts m logs n).leaves ⟨start uri bytes.length, [], false⟩
    t.InBounds uri bytes.length ∧ t.st = (parseParts m).leaves (start uri bytes.length) := by
  have hparts : Bounded uri bytes.length
      (Inside uri bytes.length (fun out => out.filelen = 0 ∧ out.symlen = 0) uri) (scanParts m logs n) (parseParts m)
      (fun _ t => t.InBounds uri bytes.length) := bounded_parts hn h.end_lt
  obtain ⟨o, t, hends, hends', hpost⟩ := hparts _ (inside_start h)
  dsimp only
  rw [hends.leaves]
  refine ⟨?_, hends'.leaves.symm⟩
  cases o with
  | none => exact hpost
  | some _ => exact hpost

/-- **The recording program parses**: the same parts and the same error. -/
theorem traceUri_parses (h : Holds m uri bytes) (hn : bytes.length < n) :
    ((traceUri m logs n uri bytes.length).st.out, (traceUri m logs n uri bytes.length).st.nErr) =
      parseUri m uri bytes.length := by
  have hsame := (scanParts_bounded h hn logs).2
  unfold traceUri parseUri
  dsimp only at hsame ⊢
  rw [hsame]

theorem slice_cons {a : ℕ} {c : UInt8} {cs : List UInt8} (h : slice m a (c :: cs).length = c :: cs) :
    m a = c ∧ slice m (a + 1) cs.length = cs := by
  have happend : slice m a (c :: cs).length = [c] ++ cs := h
  obtain ⟨hone, hrest⟩ := slice_eq_append happend
  refine ⟨?_, hrest⟩
  simpa [slice] using hone

/-- A message stops at the first NUL of the string. -/
theorem textReads_of_mem {a : ℕ} (h : slice m a bytes.length = bytes) (hzero : 0 ∈ bytes) (hn : bytes.length ≤ n) :
    (textReads m a n).2 = false ∧ ∀ x ∈ (textReads m a n).1, a ≤ x ∧ x < a + bytes.length := by
  induction bytes generalizing a n with
  | nil => exact absurd hzero List.not_mem_nil
  | cons c cs ih =>
      obtain ⟨hc, hcs⟩ := slice_cons h
      rw [List.length_cons] at hn ⊢
      cases n with
      | zero => omega
      | succ n =>
          rw [textReads]
          by_cases h0 : c = 0
          · rw [if_pos (hc.trans h0)]
            refine ⟨rfl, fun x hx => ?_⟩
            rw [List.mem_singleton.mp hx]
            omega
          · rw [if_neg (fun h => h0 (hc.symm.trans h))]
            have hrest : 0 ∈ cs := (List.mem_cons.mp hzero).resolve_left (fun h => h0 h.symm)
            obtain ⟨hends, hreads⟩ := ih hcs hrest (Nat.le_of_succ_le_succ hn)
            refine ⟨hends, fun x hx => ?_⟩
            rcases List.mem_cons.mp hx with rfl | hx
            · omega
            · have := hreads x hx
              omega

/-- Where there is none, it reads on behind the string. -/
theorem textReads_of_not_mem {a : ℕ} (h : slice m a bytes.length = bytes) (hzero : 0 ∉ bytes)
    (hn : bytes.length < n) : a + bytes.length ∈ (textReads m a n).1 := by
  induction bytes generalizing a n with
  | nil =>
      cases n with
      | zero => omega
      | succ n =>
          rw [textReads]
          split_ifs
          · exact List.mem_singleton_self a
          · exact List.mem_cons_self
  | cons c cs ih =>
      obtain ⟨hc, hcs⟩ := slice_cons h
      rw [List.mem_cons, not_or] at hzero
      rw [List.length_cons] at hn ⊢
      cases n with
      | zero => omega
      | succ n =>
          have hne : ¬ m a = 0 := fun h0 => hzero.1 (h0.symm.trans hc)
          have hend : a + (cs.length + 1) = a + 1 + cs.length := by omega
          rw [textReads, if_neg hne, hend]
          exact List.mem_cons_of_mem _ (ih hcs hzero.2 (Nat.lt_of_succ_lt_succ hn))

theorem textLog_inside (h : Holds m uri bytes) (hn : bytes.length < n) {place : Log}
    (hzero : logs place = true → 0 ∈ bytes) :
    (textLog m logs n place uri).2 = false ∧
      ∀ x ∈ (textLog m logs n place uri).1, uri ≤ x ∧ x < uri + bytes.length := by
  unfold textLog
  split_ifs with hlog
  · exact textReads_of_mem h.held (hzero hlog) hn.le
  · exact ⟨rfl, fun x hx => absurd hx List.not_mem_nil⟩

/-- A message with the string keeps to it only where the string has a NUL. -/
theorem textLog_zero (h : Holds m uri bytes) (hn : bytes.length < n) {place : Log} (hlog : logs place = true)
    (hreads : ∀ x ∈ (textLog m logs n place uri).1, uri ≤ x ∧ x < uri + bytes.length) : 0 ∈ bytes := by
  by_contra hzero
  rw [textLog, if_pos hlog] at hreads
  exact absurd (hreads _ (textReads_of_not_mem h.held hzero hn)).2 (lt_irrefl _)

theorem bailReads_inside {lo len x : ℕ} {out : ParsedUri} (hparts : PartsOf lo len out)
    (hx : x ∈ bailReads m logs out) : lo ≤ x ∧ x < lo + len := by
  have hpart : ∀ (place : Log) (a k : ℕ), PartOf lo len a k →
      x ∈ (if k = 0 then [] else partLog m logs place a k) → lo ≤ x ∧ x < lo + len := by
    intro place a k hpart hmem
    split_ifs at hmem
    · exact absurd hmem List.not_mem_nil
    · exact partLog_inside hpart hmem
  rcases List.mem_append.mp hx with hx | hx
  · rcases List.mem_append.mp hx with hx | hx
    · exact hpart _ _ _ hparts.file hx
    · exact hpart _ _ _ hparts.sym hx
  · exact hpart _ _ _ hparts.ver hx

/-- **`parse_uri` keeps to its string** exactly when the messages that print the whole string are not formatted
or the string has a NUL. -/
theorem parse_uri_in_bounds_iff (h : Holds m uri bytes) (hn : bytes.length < n) (logs : Log → Bool) :
    (traceUri m logs n uri bytes.length).InBounds uri bytes.length ↔
      (logs .entry = true ∨ logs .done = true → 0 ∈ bytes) := by
  obtain ⟨hbody, -⟩ := scanParts_bounded h hn logs
  constructor
  · rintro ⟨-, hreads, -⟩ hlog
    unfold traceUri at hreads
    dsimp only at hreads
    obtain hlog | hlog := hlog
    · exact textLog_zero h hn hlog (fun x hx => hreads x (by simp [hx]))
    · exact textLog_zero h hn hlog (fun x hx => hreads x (by simp [hx]))
  · intro hzero
    obtain ⟨hentry, hentryReads⟩ := textLog_inside h hn (fun hlog => hzero (Or.inl hlog))
    obtain ⟨hdone, hdoneReads⟩ := textLog_inside h hn (fun hlog => hzero (Or.inr hlog))
    refine ⟨?_, fun x hx => ?_, hbody.parts⟩
    · unfold traceUri
      dsimp only
      rw [hentry, hdone, hbody.ends]
      rfl
    · unfold traceUri at hx
      dsimp only at hx
      rcases List.mem_append.mp hx with hx | hx
      · rcases List.mem_append.mp hx with hx | hx
        · rcases List.mem_append.mp hx with hx | hx
          · exact hentryReads x hx
          · exact hbody.reads x hx
        · exact bailReads_inside hbody.parts hx
      · exact hdoneReads x hx

theorem parse_uri_in_bounds_trailing :
    (traceUri (stored trailing) (fun _ => false) 12 0x1000 trailing.length).InBounds 0x1000 trailing.length :=
  (parse_uri_in_bounds_iff (holds_stored (by decide)) (by decide) _).mpr (fun h => by simp at h)

/-- A string without a NUL and a log that formats its messages. -/
theorem message_reads_on : ¬ ∀ (m : Store) (logs : Log → Bool) (n uri : ℕ) (bytes : List UInt8),
    Holds m uri bytes → bytes.length < n →
      (traceUri m logs n uri bytes.length).InBounds uri bytes.length := by
  intro hall
  have hheld : Holds (stored trailing) 0x1000 trailing := holds_stored (by decide)
  have hbounds := hall (stored trailing) (fun _ => true) 12 0x1000 trailing hheld (by decide)
  have hmem : 0x1000 + trailing.length ∈ (textReads (stored trailing) 0x1000 12).1 :=
    textReads_of_not_mem hheld.held (by decide) (by decide)
  have hread : 0x1000 + trailing.length ∈
      (traceUri (stored trailing) (fun _ => true) 12 0x1000 trailing.length).reads := by
    simp [traceUri, textLog, hmem]
  exact absurd (hbounds.reads _ hread).2 (lt_irrefl _)

end Strings

end FastRpc.UriParser.Reads
