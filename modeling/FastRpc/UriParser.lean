import FastRpc.EarlyExit
import FastRpc.SbufParser
import Mathlib.Data.List.TakeWhile

/-! # `parse_uri`

A URI such as `file:///librhtest_skel.so?rhtest_skel_handle_invoke&_modver=1.0` has a file, a symbol and
queries.  `parse_uri` runs its parsers one after the other on the buffer of the string, and the first one
that fails jumps to `bail`.

`Uri` is the grammar: the parts of a URI, and the string that they make (`Uri.bytes`).  The parser accepts
one `&` behind it.  The version is looked for with `strncmp` and the length of the query's name, which is
`0` also for a name such as `_mod` (`strncmp_zero_iff`). -/

namespace FastRpc.UriParser

open ByteStore SbufParser EarlyExit

/-! ### The source -/

/-- The bytes of a string literal. -/
def lit (s : List Char) : List UInt8 := s.map Char.toUInt8

/-- `"file://"`. -/
def fileScheme : List UInt8 := lit ['f', 'i', 'l', 'e', ':', '/', '/']

/-- `"_modver"`. -/
def modver : List UInt8 := lit ['_', 'm', 'o', 'd', 'v', 'e', 'r']

def slash : UInt8 := '/'.toUInt8

def qmark : UInt8 := '?'.toUInt8

def amp : UInt8 := '&'.toUInt8

def equals : UInt8 := '='.toUInt8

/-- `AEE_EBADPARM`. -/
def eBadParm : ℤ := 0xE

/-- `struct parsed_uri`. -/
structure ParsedUri where
  file : ℕ
  filelen : ℕ
  sym : ℕ
  symlen : ℕ
  ver : ℕ
  verlen : ℕ
  deriving DecidableEq, Repr

/-- The variables of `parse_uri`. -/
structure State where
  buf : Sbuf
  out : ParsedUri
  nErr : ℤ

/-- `parse_uri` before `bail`. -/
abbrev ParseM := EarlyExit State

/-- A parser on the buffer. -/
def consume (p : Sbuf → Bool × Sbuf) : ParseM Bool := do
  let s ← get
  update (fun s => { s with buf := (p s.buf).2 })
  return (p s.buf).1

/-- `sbuf_cur(&buf)`. -/
def cur : ParseM ℕ := do
  let s ← get
  return sbufCur s.buf

/-- `VERIFYC(cond, code)`. -/
def verifyc (cond : Bool) (code : ℤ) : ParseM PUnit :=
  if cond then pure ⟨⟩ else do
    update (fun s => { s with nErr := code })
    failure

/-- `VERIFY(cond)`, where `nErr` is `0`. -/
def verify (cond : Bool) : ParseM PUnit := verifyc cond (-1)

variable (m : Store)

/-- `notqmark`. -/
def notqmark : Sbuf → Bool × Sbuf := sbufNotchar m qmark

/-- `notandoreq`. -/
def notandoreq : Sbuf → Bool × Sbuf := sbufNotchars m [amp, equals]

/-- `notand`. -/
def notand : Sbuf → Bool × Sbuf := sbufNotchar m amp

/-- `strncmp(s, str, n) == 0`; `str` is a literal, without its NUL. -/
def strncmpZero : ℕ → List UInt8 → ℕ → Bool
  | _, _, 0 => true
  | s, str, n + 1 =>
      m s == str.headD 0 && (str.headD 0 == 0 || strncmpZero (s + 1) str.tail n)

/-- The value of a query, and its length. -/
def parseValue : ParseM (ℕ × ℕ) := do
  if ← consume (sbufChar m equals) then do
    let value ← cur
    verify (← consume (sbufMany1 (notand m)))
    let stop ← cur
    return (value, stop - value)
  else return (0, 0)

/-- The loop over the queries. -/
def parseQueries : ℕ → ParseM PUnit
  | 0 => pure ⟨⟩
  | n + 1 => do
      let s ← get
      if sbufEnd s.buf then pure ⟨⟩
      else do
        let name ← cur
        verify (← consume (sbufMany1 (notandoreq m)))
        let stop ← cur
        let value ← parseValue m
        let _ ← consume (sbufChar m amp)
        if strncmpZero m name modver (stop - name) then
          update (fun s => { s with out := { s.out with ver := value.1, verlen := value.2 } })
        else pure ⟨⟩
        parseQueries n

/-- The queries, if there are any; each of them has a character. -/
def parseRest : ParseM PUnit := do
  let s ← get
  if sbufEnd s.buf then pure ⟨⟩
  else do
    if ← consume (sbufChar m amp) then parseQueries m (s.buf.bufEnd - s.buf.bufCur)
    else pure ⟨⟩

/-- The symbol, and what is behind it. -/
def parseSym : ParseM PUnit := do
  verify (← consume (sbufChar m qmark))
  let sym ← cur
  update (fun s => { s with out := { s.out with sym := sym } })
  verify (← consume (sbufMany1 (notand m)))
  let stop ← cur
  update (fun s => { s with out := { s.out with symlen := stop - sym } })
  parseRest m

/-- The file, and what is behind it. -/
def parseFile : ParseM PUnit := do
  let file ← cur
  update (fun s => { s with out := { s.out with file := file } })
  verify (← consume (sbufMany1 (notqmark m)))
  let stop ← cur
  update (fun s => { s with out := { s.out with filelen := stop - file } })
  parseSym m

/-- `parse_uri` up to `bail`. -/
def parseParts : ParseM PUnit := do
  verifyc (← consume (sbufString m fileScheme)) eBadParm
  let _ ← consume (sbufString m [slash])
  parseFile m

/-- The state at the beginning. -/
def start (uri : ℕ) (urilen : ℤ) : State := ⟨sbufParserInit uri urilen, ⟨0, 0, 0, 0, 0, 0⟩, 0⟩

/-- `parse_uri`: what it has parsed, and its error. -/
def parseUri (uri : ℕ) (urilen : ℤ) : ParsedUri × ℤ :=
  let s := (parseParts m).leaves (start uri urilen)
  (s.out, s.nErr)

/-! ### The grammar -/

/-- A query. -/
structure Query where
  name : List UInt8
  value : Option (List UInt8)
  deriving DecidableEq, Repr

/-- The string of a query. -/
def Query.bytes (q : Query) : List UInt8 := q.name ++ q.value.elim [] (fun value => equals :: value)

/-- A nonempty name without `&` and `=`, and a nonempty value without `&`, if there is one. -/
structure Query.Ok (q : Query) : Prop where
  name : q.name ≠ []
  nameChars : ∀ c ∈ q.name, c ≠ amp ∧ c ≠ equals
  value : ∀ value, q.value = some value → value ≠ [] ∧ ∀ c ∈ value, c ≠ amp

/-- The parts of a URI. -/
structure Uri where
  slash : Bool
  file : List UInt8
  sym : List UInt8
  queries : List Query
  deriving DecidableEq, Repr

/-- The strings of the queries, each behind its `&`. -/
def flat (queries : List Query) : List UInt8 := queries.flatMap (fun q => amp :: q.bytes)

/-- The string of a URI: `file://[/]FILE?SYM[&QUERY...]`. -/
def Uri.bytes (u : Uri) : List UInt8 :=
  fileScheme ++ ((if u.slash then [UriParser.slash] else []) ++ (u.file ++ qmark :: (u.sym ++ flat u.queries)))

/-- A nonempty file without `?`, a nonempty symbol without `&`, and queries.  The optional `/` is not left to
the file. -/
structure Uri.Ok (u : Uri) : Prop where
  slash : u.slash = false → u.file.head? ≠ some UriParser.slash
  file : u.file ≠ []
  fileChars : ∀ c ∈ u.file, c ≠ qmark
  sym : u.sym ≠ []
  symChars : ∀ c ∈ u.sym, c ≠ amp
  queries : ∀ q ∈ u.queries, q.Ok

/-- The value of the last query whose name is `_modver`, empty when there is none. -/
def Uri.version (u : Uri) : List UInt8 :=
  (((u.queries.filter (fun q => q.name = modver)).getLast?).bind Query.value).getD []

/-- The name is taken for `_modver`. -/
def Query.Misread (q : Query) : Prop := q.name ≠ modver ∧ (q.name <+: modver ∨ modver ++ [0] <+: q.name)

/-! ### Parsing lists -/

section Lists

variable {bytes rest : List UInt8} {chars : List UInt8}

/-- A run of other characters, and what does not belong to it. -/
theorem takeWhile_run (chars run rest : List UInt8) (hrun : ∀ c ∈ run, c ∉ chars)
    (hrest : ∀ c, rest.head? = some c → c ∈ chars) :
    (run ++ rest).takeWhile (other chars) = run ∧ (run ++ rest).dropWhile (other chars) = rest := by
  have hall : ∀ c ∈ run, other chars c = true := fun c hc => by simp [other, hrun c hc]
  rw [List.takeWhile_append_of_pos hall, List.dropWhile_append_of_pos hall]
  cases rest with
  | nil => exact ⟨by simp, rfl⟩
  | cons c rest =>
      have hc : ¬ other chars c = true := by simp [other, hrest c rfl]
      rw [List.takeWhile_cons_of_neg hc, List.dropWhile_cons_of_neg hc]
      exact ⟨List.append_nil run, rfl⟩

theorem takeWhile_other (rest : List UInt8) : ∀ c ∈ rest.takeWhile (other chars), c ∉ chars := by
  intro c hc
  have hother := List.mem_takeWhile_imp hc
  simpa [other] using hother

theorem head?_dropWhile_other {c : UInt8} (h : (rest.dropWhile (other chars)).head? = some c) : c ∈ chars := by
  have hnot := List.head?_dropWhile_not (other chars) rest
  rw [h] at hnot
  simpa [other] using hnot

/-- A query at the beginning, and what is behind its `&`. -/
def splitQuery (rest : List UInt8) : Option (Query × List UInt8) :=
  let name := rest.takeWhile (other [amp, equals])
  let tail := rest.dropWhile (other [amp, equals])
  if name = [] then none
  else if tail.head? = some equals then
    let value := tail.tail.takeWhile (other [amp])
    if value = [] then none
    else some (⟨name, some value⟩, (tail.tail.dropWhile (other [amp])).tail)
  else some (⟨name, none⟩, tail.tail)

/-- The queries of a string. -/
def queriesOf : ℕ → List UInt8 → Option (List Query)
  | _, [] => some []
  | 0, _ :: _ => none
  | n + 1, c :: rest => (splitQuery (c :: rest)).bind (fun r => (queriesOf n r.2).map (r.1 :: ·))

/-- What is behind the symbol. -/
def restOf : List UInt8 → Option (List Query)
  | [] => some []
  | _ :: rest => queriesOf (rest.length + 1) rest

/-- The parts of a string. -/
def uriOf (bytes : List UInt8) : Option Uri :=
  if fileScheme <+: bytes then
    let rest := bytes.drop fileScheme.length
    let hasSlash : Bool := rest.head? = some slash
    let rest := if hasSlash then rest.tail else rest
    let file := rest.takeWhile (other [qmark])
    let tail := rest.dropWhile (other [qmark])
    if file = [] ∨ tail = [] then none
    else
      let sym := tail.tail.takeWhile (other [amp])
      if sym = [] then none
      else (restOf (tail.tail.dropWhile (other [amp]))).map (fun queries => ⟨hasSlash, file, sym, queries⟩)
  else none

/-- A query is followed by the end or by an `&`. -/
theorem splitQuery_bytes {q : Query} (hq : q.Ok) (hrest : ∀ c, rest.head? = some c → c = amp) :
    splitQuery (q.bytes ++ rest) = some (q, rest.tail) := by
  obtain ⟨name, value⟩ := q
  have hname : ∀ c ∈ name, c ∉ [amp, equals] := by
    intro c hc
    simpa using hq.nameChars c hc
  unfold splitQuery Query.bytes
  cases value with
  | none =>
      have hhead : ∀ c, rest.head? = some c → c ∈ [amp, equals] := fun c hc => by simp [hrest c hc]
      obtain ⟨htake, hdrop⟩ := takeWhile_run _ _ _ hname hhead
      have hno : rest.head? ≠ some equals := fun heq => absurd (hrest equals heq) (by decide)
      simp only [Option.elim_none, List.append_nil, htake, hdrop]
      rw [if_neg hq.name, if_neg hno]
  | some value =>
      obtain ⟨hvalue, hchars⟩ := hq.value value rfl
      have hhead : ∀ c, (equals :: (value ++ rest)).head? = some c → c ∈ [amp, equals] := by
        intro c hc
        obtain rfl := Option.some.inj hc
        decide
      obtain ⟨htake, hdrop⟩ := takeWhile_run _ _ _ hname hhead
      obtain ⟨htake', hdrop'⟩ := takeWhile_run [amp] value rest
        (fun c hc => by simpa using hchars c hc) (fun c hc => by simp [hrest c hc])
      simp only [Option.elim_some, List.append_assoc, List.cons_append, htake, hdrop, List.head?_cons,
        List.tail_cons, htake', hdrop']
      rw [if_neg hq.name, if_pos trivial, if_neg hvalue]

/-- A run of other characters ends at the end or at one of the characters. -/
theorem run_cases (chars rest : List UInt8) :
    rest = rest.takeWhile (other chars) ∧ rest.dropWhile (other chars) = [] ∨
      ∃ c ∈ chars, ∃ tail, rest.dropWhile (other chars) = c :: tail ∧
        rest = rest.takeWhile (other chars) ++ c :: tail := by
  have happend := List.takeWhile_append_dropWhile (p := other chars) (l := rest)
  cases htail : rest.dropWhile (other chars) with
  | nil =>
      rw [htail, List.append_nil] at happend
      exact .inl ⟨happend.symm, rfl⟩
  | cons c tail =>
      rw [htail] at happend
      exact .inr ⟨c, head?_dropWhile_other (congrArg List.head? htail), tail, rfl, happend.symm⟩

/-- What `splitQuery` finds is a query. -/
theorem splitQuery_some {q : Query} {rest' : List UInt8} (h : splitQuery rest = some (q, rest')) :
    q.Ok ∧ (rest = q.bytes ∧ rest' = [] ∨ rest = q.bytes ++ amp :: rest') := by
  have hname : ∀ c ∈ rest.takeWhile (other [amp, equals]), c ≠ amp ∧ c ≠ equals := by
    intro c hc
    simpa using takeWhile_other rest c hc
  unfold splitQuery at h
  dsimp only at h
  split_ifs at h with hempty hequals hvalue
  · obtain ⟨rfl, rfl⟩ := Prod.mk.inj (Option.some.inj h)
    have hchars : ∀ c ∈ (rest.dropWhile (other [amp, equals])).tail.takeWhile (other [amp]), c ≠ amp := by
      intro c hc
      simpa using takeWhile_other _ c hc
    refine ⟨⟨hempty, hname, fun value heq => Option.some.inj heq ▸ ⟨hvalue, hchars⟩⟩, ?_⟩
    obtain ⟨_, hnil⟩ | ⟨c, _, tail, htail, hrest⟩ := run_cases [amp, equals] rest
    · rw [hnil] at hequals
      cases hequals
    · rw [htail] at hequals hvalue ⊢
      obtain rfl := Option.some.inj hequals
      unfold Query.bytes
      rw [List.tail_cons, Option.elim_some]
      obtain ⟨hall, hnil⟩ | ⟨d, hd, tail', htail', hrest'⟩ := run_cases [amp] tail
      · left
        rw [hnil, ← hall]
        exact ⟨hrest, rfl⟩
      · right
        obtain rfl := List.mem_singleton.mp hd
        rw [htail', List.tail_cons, List.append_assoc, List.cons_append, ← hrest']
        exact hrest
  · obtain ⟨rfl, rfl⟩ := Prod.mk.inj (Option.some.inj h)
    refine ⟨⟨hempty, hname, fun value heq => nomatch heq⟩, ?_⟩
    unfold Query.bytes
    rw [Option.elim_none, List.append_nil]
    obtain ⟨hall, hnil⟩ | ⟨c, hc, tail, htail, hrest⟩ := run_cases [amp, equals] rest
    · left
      rw [hnil]
      exact ⟨hall, rfl⟩
    · right
      rw [htail] at hequals ⊢
      obtain rfl : c = amp := by
        have hne : c ≠ equals := fun heq => hequals (congrArg some heq)
        simpa [hne] using hc
      exact hrest

theorem Query.bytes_ne_nil {q : Query} (h : q.Ok) : q.bytes ≠ [] := fun heq =>
  h.name (List.append_eq_nil_iff.mp heq).1

/-- A query is not empty. -/
theorem splitQuery_length {q : Query} {rest' : List UInt8} (h : splitQuery rest = some (q, rest')) :
    rest'.length < rest.length := by
  obtain ⟨hq, hrest⟩ := splitQuery_some h
  have hbytes : 0 < q.bytes.length := List.length_pos_iff.mpr (Query.bytes_ne_nil hq)
  obtain ⟨rfl, rfl⟩ | rfl := hrest
  · exact hbytes
  · rw [List.length_append, List.length_cons]
    omega

@[simp] theorem flat_nil : flat [] = [] := rfl

theorem flat_cons (q : Query) (qs : List Query) : flat (q :: qs) = amp :: (q.bytes ++ flat qs) := rfl

/-- The strings that the queries make, behind the symbol. -/
def Follows (qs : List Query) (rest : List UInt8) : Prop := rest = flat qs ∨ rest = flat qs ++ [amp]

/-- What follows a query. -/
theorem follows_cons {q : Query} {qs : List Query} (h : Follows (q :: qs) (amp :: rest)) :
    ∃ tail, rest = q.bytes ++ tail ∧ Follows qs tail := by
  obtain heq | heq := h
  · rw [flat_cons] at heq
    exact ⟨flat qs, (List.cons.inj heq).2, .inl rfl⟩
  · rw [flat_cons, List.cons_append, List.append_assoc] at heq
    exact ⟨flat qs ++ [amp], (List.cons.inj heq).2, .inr rfl⟩

theorem Follows.cons {q : Query} {qs : List Query} {tail : List UInt8} (h : Follows qs tail) :
    Follows (q :: qs) (amp :: (q.bytes ++ tail)) := by
  obtain rfl | rfl := h
  · exact .inl rfl
  · right
    rw [flat_cons, List.cons_append, List.append_assoc]

/-- What follows starts with an `&`, or there are no queries. -/
theorem Follows.cases {qs : List Query} (h : Follows qs rest) :
    rest = [] ∧ qs = [] ∨ ∃ tail, rest = amp :: tail := by
  cases qs with
  | nil =>
      obtain rfl | rfl := h
      · exact .inl ⟨rfl, rfl⟩
      · exact .inr ⟨[], rfl⟩
  | cons q qs =>
      obtain rfl | rfl := h
      · exact .inr ⟨_, rfl⟩
      · exact .inr ⟨_, rfl⟩

theorem queriesOf_nil (n : ℕ) : queriesOf n [] = some [] := by
  cases n <;> rfl

/-- **The queries of a string** are those that make it. -/
theorem queriesOf_iff {n : ℕ} {rest : List UInt8} (hn : rest.length < n) (qs : List Query) :
    queriesOf n rest = some qs ↔ (∀ q ∈ qs, q.Ok) ∧ Follows qs (amp :: rest) := by
  induction n generalizing rest qs with
  | zero => exact absurd hn (Nat.not_lt_zero _)
  | succ n ih =>
      constructor
      · intro h
        cases rest with
        | nil =>
            obtain rfl := Option.some.inj h
            exact ⟨fun _ hq => absurd hq List.not_mem_nil, .inr rfl⟩
        | cons c rest =>
            obtain ⟨⟨q, tail⟩, hsplit, hqs⟩ := Option.bind_eq_some_iff.mp h
            obtain ⟨qs', hqs', rfl⟩ := Option.map_eq_some_iff.mp hqs
            obtain ⟨hq, hrest⟩ := splitQuery_some hsplit
            obtain ⟨hall, rfl⟩ | hall := hrest
            · obtain rfl : qs' = [] := by
                cases n <;> exact (Option.some.inj hqs').symm
              refine ⟨List.forall_mem_cons.mpr ⟨hq, fun _ hmem => absurd hmem List.not_mem_nil⟩, .inl ?_⟩
              rw [flat_cons, hall, flat_nil, List.append_nil]
            · have hlen : tail.length < n := (splitQuery_length hsplit).trans_le (Nat.le_of_lt_succ hn)
              obtain ⟨hoks, hfollows⟩ := (ih hlen qs').mp hqs'
              refine ⟨List.forall_mem_cons.mpr ⟨hq, hoks⟩, ?_⟩
              rw [hall]
              exact hfollows.cons
      · rintro ⟨hoks, hfollows⟩
        cases qs with
        | nil =>
            obtain rfl : rest = [] := by
              obtain heq | heq := hfollows
              · cases heq
              · exact (List.cons.inj heq).2
            rfl
        | cons q qs =>
            obtain ⟨hq, hoks⟩ := List.forall_mem_cons.mp hoks
            obtain ⟨tail, rfl, htail⟩ := follows_cons hfollows
            have hsplit : splitQuery (q.bytes ++ tail) = some (q, tail.tail) := by
              refine splitQuery_bytes hq (fun c hc => ?_)
              obtain ⟨rfl, _⟩ | ⟨_, rfl⟩ := htail.cases
              · cases hc
              · exact (Option.some.inj hc).symm
            obtain ⟨c, cs, hcs⟩ := List.exists_cons_of_ne_nil
              (fun heq => Query.bytes_ne_nil hq (List.append_eq_nil_iff.mp heq).1 : q.bytes ++ tail ≠ [])
            have hrest : queriesOf n tail.tail = some qs := by
              obtain ⟨rfl, rfl⟩ | ⟨tail', rfl⟩ := htail.cases
              · exact queriesOf_nil n
              · refine (ih ?_ qs).mpr ⟨hoks, htail⟩
                simp only [List.length_append, List.length_cons] at hn
                rw [List.tail_cons]
                omega
            rw [hcs] at hsplit ⊢
            rw [queriesOf, hsplit, Option.bind_some, hrest, Option.map_some]

theorem restOf_iff (hrest : ∀ c, rest.head? = some c → c = amp) (qs : List Query) :
    restOf rest = some qs ↔ (∀ q ∈ qs, q.Ok) ∧ Follows qs rest := by
  cases rest with
  | nil =>
      rw [restOf]
      constructor
      · intro h
        obtain rfl := Option.some.inj h
        exact ⟨fun _ hq => absurd hq List.not_mem_nil, .inl rfl⟩
      · rintro ⟨_, hfollows⟩
        cases qs with
        | nil => rfl
        | cons q qs => obtain heq | heq := hfollows <;> cases heq
  | cons c rest =>
      obtain rfl := hrest c rfl
      exact queriesOf_iff (Nat.lt_succ_self _) qs

/-- The string of the parts up to the symbol, and what is behind it. -/
def Uri.text (u : Uri) (tail : List UInt8) : List UInt8 :=
  fileScheme ++ ((if u.slash then [UriParser.slash] else []) ++ (u.file ++ qmark :: (u.sym ++ tail)))

theorem bytes_text (u : Uri) : bytes = u.bytes ∨ bytes = u.bytes ++ [amp] ↔
    ∃ tail, bytes = u.text tail ∧ Follows u.queries tail := by
  have happend : u.bytes ++ [amp] = u.text (flat u.queries ++ [amp]) := by
    simp [Uri.bytes, Uri.text]
  constructor
  · rintro (rfl | rfl)
    · exact ⟨flat u.queries, rfl, .inl rfl⟩
    · exact ⟨flat u.queries ++ [amp], happend, .inr rfl⟩
  · rintro ⟨tail, rfl, rfl | rfl⟩
    · exact .inl rfl
    · exact .inr happend.symm

/-- The parts of a string are found again. -/
theorem uriOf_text {u : Uri} (hu : u.Ok) {tail : List UInt8} (htail : Follows u.queries tail) :
    uriOf (u.text tail) = some u := by
  obtain ⟨hasSlash, file, sym, queries⟩ := u
  have hhead : ∀ c, tail.head? = some c → c = amp := by
    intro c hc
    obtain ⟨rfl, _⟩ | ⟨_, rfl⟩ := htail.cases
    · cases hc
    · exact (Option.some.inj hc).symm
  obtain ⟨hfile, hafter⟩ := takeWhile_run [qmark] file (qmark :: (sym ++ tail))
    (fun c hc => by simpa using hu.fileChars c hc) (fun c hc => by
      obtain rfl := Option.some.inj hc
      exact List.mem_singleton_self _)
  obtain ⟨hsym, hbehind⟩ := takeWhile_run [amp] sym tail
    (fun c hc => by simpa using hu.symChars c hc) (fun c hc => by simp [hhead c hc])
  have hqueries := (restOf_iff hhead queries).mpr ⟨hu.queries, htail⟩
  have hslash : (((if hasSlash then [slash] else []) ++ (file ++ qmark :: (sym ++ tail))).head? = some slash) ↔
      hasSlash = true := by
    cases hasSlash with
    | true => exact iff_of_true rfl rfl
    | false =>
        refine iff_of_false (fun heq => ?_) Bool.false_ne_true
        obtain ⟨c, cs, rfl⟩ := List.exists_cons_of_ne_nil hu.file
        exact hu.slash rfl heq
  have hskip : (if hasSlash then
      ((if hasSlash then [slash] else []) ++ (file ++ qmark :: (sym ++ tail))).tail
      else (if hasSlash then [slash] else []) ++ (file ++ qmark :: (sym ++ tail))) =
        file ++ qmark :: (sym ++ tail) := by
    cases hasSlash <;> rfl
  unfold uriOf Uri.text
  rw [if_pos (List.prefix_append _ _), List.drop_left]
  simp only [hslash, Bool.decide_eq_true, hskip, hfile, hafter, List.tail_cons, hsym, hbehind, hqueries]
  rw [if_neg (by simp [hu.file]), if_neg hu.sym, Option.map_some]

/-- The parts that are found make the string. -/
theorem uriOf_some {u : Uri} (h : uriOf bytes = some u) :
    u.Ok ∧ ∃ tail, bytes = u.text tail ∧ Follows u.queries tail := by
  unfold uriOf at h
  split_ifs at h with hscheme
  obtain ⟨rest, rfl⟩ := hscheme
  rw [List.drop_left] at h
  dsimp only at h
  -- the slash, if there is one, and what is behind it
  obtain ⟨hasSlash, after, hhas, hafter, hrest, hno⟩ : ∃ hasSlash after,
      (rest.head? = some slash ↔ hasSlash = true) ∧ (if hasSlash then rest.tail else rest) = after ∧
        rest = (if hasSlash then [slash] else []) ++ after ∧ (hasSlash = false → after.head? ≠ some slash) := by
    by_cases hhead : rest.head? = some slash
    · refine ⟨true, rest.tail, iff_of_true hhead rfl, rfl, ?_, fun hfalse => nomatch hfalse⟩
      cases rest with
      | nil => cases hhead
      | cons c rest =>
          obtain rfl := Option.some.inj hhead
          rfl
    · exact ⟨false, rest, iff_of_false hhead Bool.false_ne_true, rfl, rfl, fun _ => hhead⟩
  simp only [hhas, Bool.decide_eq_true, hafter] at h
  split_ifs at h with hparts hsym
  obtain ⟨hfile, htail⟩ := not_or.mp hparts
  obtain ⟨queries, hqueries, rfl⟩ := Option.map_eq_some_iff.mp h
  obtain ⟨_, hnil⟩ | ⟨c, hc, tail, hcons, happend⟩ := run_cases [qmark] after
  · exact absurd hnil htail
  · obtain rfl := List.mem_singleton.mp hc
    rw [hcons, List.tail_cons] at hsym hqueries ⊢
    have hamp : ∀ c, (tail.dropWhile (other [amp])).head? = some c → c = amp := fun c hc =>
      List.mem_singleton.mp (head?_dropWhile_other hc)
    obtain ⟨hoks, hfollows⟩ := (restOf_iff hamp queries).mp hqueries
    have hsplit := List.takeWhile_append_dropWhile (p := other [amp]) (l := tail)
    refine ⟨⟨fun hfalse => ?_, hfile, fun c hc => ?_, hsym, fun c hc => ?_, hoks⟩,
      tail.dropWhile (other [amp]), ?_, hfollows⟩
    · dsimp only
      obtain ⟨d, ds, hds⟩ := List.exists_cons_of_ne_nil hfile
      have hhead := hno hfalse
      rw [happend, hds] at hhead
      rw [hds]
      exact hhead
    · simpa using takeWhile_other after c hc
    · simpa using takeWhile_other tail c hc
    · unfold Uri.text
      dsimp only
      rw [hsplit, ← happend, ← hrest]

/-- **The parts of a string** are those that make it, with an `&` behind them or not. -/
theorem uriOf_iff (bytes : List UInt8) (u : Uri) :
    uriOf bytes = some u ↔ u.Ok ∧ (bytes = u.bytes ∨ bytes = u.bytes ++ [amp]) := by
  rw [bytes_text]
  constructor
  · exact uriOf_some
  · rintro ⟨hu, tail, rfl, htail⟩
    exact uriOf_text hu htail

end Lists

/-! ### Parsing in memory -/

section Memory

variable {m : Store} {addr : ℕ} {bytes rest chars : List UInt8} {s : State}

/-- The state with `rest` still to be parsed. -/
def State.place (s : State) (addr : ℕ) (bytes rest : List UInt8) : State :=
  { s with buf := cursor addr bytes rest }

theorem ends_consume {p : Sbuf → Bool × Sbuf} {r : Bool} {rest' : List UInt8}
    (h : p (cursor addr bytes rest) = (r, cursor addr bytes rest')) :
    Ends (consume p) (s.place addr bytes rest) (some r) (s.place addr bytes rest') := by
  have hends : Ends (consume p) (s.place addr bytes rest) (some (p (cursor addr bytes rest)).1)
      { s with buf := (p (cursor addr bytes rest)).2 } := ⟨rfl, rfl⟩
  rwa [h] at hends

theorem ends_cur (s : State) : Ends cur s (some (sbufCur s.buf)) s := Ends.get (ends_pure _ _)

theorem ends_verify {cond : Bool} (s : State) (h : cond = true) : Ends (verify cond) s (some ⟨⟩) s := by
  unfold verify verifyc
  rw [if_pos h]
  exact ends_pure _ _

theorem ends_verify_exit {cond : Bool} (s : State) (h : cond = false) :
    Ends (verify cond) s none { s with nErr := -1 } := by
  unfold verify verifyc
  rw [h]
  exact (ends_update _ _).bind (ends_failure _)

/-- `sbuf_char` on the rest. -/
theorem ends_char (h : Holds m addr bytes) (hrest : rest <:+ bytes) {t : UInt8} (hhead : rest.head? = some t) :
    Ends (consume (sbufChar m t)) (s.place addr bytes rest) (some true) (s.place addr bytes rest.tail) := by
  refine ends_consume ?_
  rw [sbufChar_head h hrest, if_pos hhead]

theorem ends_char_not (h : Holds m addr bytes) (hrest : rest <:+ bytes) {t : UInt8} (hhead : rest.head? ≠ some t) :
    Ends (consume (sbufChar m t)) (s.place addr bytes rest) (some false) (s.place addr bytes rest) := by
  refine ends_consume ?_
  rw [sbufChar_head h hrest, if_neg hhead]

/-- A character that may be there. -/
theorem ends_char_any (h : Holds m addr bytes) (hrest : rest <:+ bytes) (t : UInt8) :
    ∃ r, Ends (consume (sbufChar m t)) (s.place addr bytes rest) (some r)
      (s.place addr bytes (if rest.head? = some t then rest.tail else rest)) := by
  by_cases hhead : rest.head? = some t
  · rw [if_pos hhead]
    exact ⟨true, ends_char h hrest hhead⟩
  · rw [if_neg hhead]
    exact ⟨false, ends_char_not h hrest hhead⟩

/-- A run that is there. -/
theorem ends_run {α : Type} (h : Holds m addr bytes) (hrest : rest <:+ bytes)
    (hrun : rest.takeWhile (other chars) ≠ []) {k : PUnit → ParseM α} {o : Option α} {t : State}
    (hk : Ends (k ⟨⟩) (s.place addr bytes (rest.dropWhile (other chars))) o t) :
    Ends (consume (sbufMany1 (sbufNotchars m chars)) >>= fun r => verify r >>= k)
      (s.place addr bytes rest) o t := by
  refine (ends_consume (sbufMany1_notchars h hrest)).bind ((ends_verify _ ?_).bind hk)
  rwa [Bool.not_eq_true', List.isEmpty_eq_false_iff]

/-- A run that is missing. -/
theorem ends_run_exit {α : Type} (h : Holds m addr bytes) (hrest : rest <:+ bytes)
    (hrun : rest.takeWhile (other chars) = []) {k : PUnit → ParseM α} :
    Ends (consume (sbufMany1 (sbufNotchars m chars)) >>= fun r => verify r >>= k)
      (s.place addr bytes rest) none { s.place addr bytes (rest.dropWhile (other chars)) with nErr := -1 } := by
  refine (ends_consume (sbufMany1_notchars h hrest)).bind ((ends_verify_exit _ ?_).exit k)
  rw [hrun]
  rfl

theorem failed_ne_zero : (-1 : ℤ) ≠ 0 := by decide

/-- **`strncmp`** with the length of the name: it is `0` for a prefix, and for a name that goes on behind a
NUL. -/
theorem strncmp_zero_iff {a : ℕ} {name : List UInt8} (str : List UInt8) (hname : slice m a name.length = name)
    (hstr : (0 : UInt8) ∉ str) :
    strncmpZero m a str name.length = true ↔ name <+: str ∨ str ++ [0] <+: name := by
  induction name generalizing a str with
  | nil => exact iff_of_true rfl (.inl List.nil_prefix)
  | cons c name ih =>
      obtain ⟨hhead, htail⟩ := @slice_eq_append m a _ [c] name hname
      have hc : m a = c := by simpa [slice] using hhead
      rw [List.length_cons, strncmpZero, hc]
      cases str with
      | nil => simpa using eq_comm
      | cons d str =>
          obtain ⟨hd, hstr⟩ := not_or.mp (fun hor => hstr (List.mem_cons.mpr hor))
          have hrec := ih str (a := a + 1) htail hstr
          simp only [List.headD_cons, List.tail_cons, Bool.and_eq_true, Bool.or_eq_true, beq_iff_eq, hrec,
            List.cons_append, List.cons_prefix_cons]
          constructor
          · rintro ⟨rfl, rfl | hrest⟩
            · exact absurd rfl hd
            · exact hrest.imp (fun hprefix => ⟨rfl, hprefix⟩) (fun hprefix => ⟨rfl, hprefix⟩)
          · rintro (⟨rfl, hprefix⟩ | ⟨rfl, hprefix⟩)
            · exact ⟨rfl, .inr (.inl hprefix)⟩
            · exact ⟨rfl, .inr (.inr hprefix)⟩

/-- The part of the string between two rests is in memory where its pointer says. -/
theorem slice_place (h : Holds m addr bytes) (part rest : List UInt8) (hrest : part ++ rest <:+ bytes)
    (s t : State) :
    slice m (sbufCur (s.place addr bytes (part ++ rest)).buf)
      (sbufCur (t.place addr bytes rest).buf - sbufCur (s.place addr bytes (part ++ rest)).buf) = part := by
  obtain ⟨hlen, hslice⟩ := slice_cursor h part hrest
  have hdiff : sbufCur (t.place addr bytes rest).buf - sbufCur (s.place addr bytes (part ++ rest)).buf =
      part.length := hlen
  rw [hdiff]
  exact hslice

theorem suffix_dropWhile (hrest : rest <:+ bytes) (chars : List UInt8) :
    rest.dropWhile (other chars) <:+ bytes := (List.dropWhile_suffix _).trans hrest

theorem suffix_tail (hrest : rest <:+ bytes) : rest.tail <:+ bytes := (List.tail_suffix rest).trans hrest

/-- A value that is not there. -/
theorem parseValue_none (h : Holds m addr bytes) (hrest : rest <:+ bytes) (hhead : rest.head? ≠ some equals) :
    Ends (parseValue m) (s.place addr bytes rest) (some (0, 0)) (s.place addr bytes rest) :=
  (ends_char_not h hrest hhead).bind (ends_pure _ _)

/-- The value of a query. -/
theorem parseValue_some (h : Holds m addr bytes) (hrest : rest <:+ bytes) (hhead : rest.head? = some equals)
    (hvalue : rest.tail.takeWhile (other [amp]) ≠ []) :
    ∃ value, Ends (parseValue m) (s.place addr bytes rest) (some value)
        (s.place addr bytes (rest.tail.dropWhile (other [amp]))) ∧
      slice m value.1 value.2 = rest.tail.takeWhile (other [amp]) := by
  have hsplit := List.takeWhile_append_dropWhile (p := other [amp]) (l := rest.tail)
  have htail := suffix_tail hrest
  refine ⟨_, (ends_char h hrest hhead).bind ((ends_cur _).bind (ends_run h htail hvalue
    ((ends_cur _).bind (ends_pure _ _)))), ?_⟩
  have hslice := slice_place h (rest.tail.takeWhile (other [amp]))
    (rest.tail.dropWhile (other [amp])) (by rwa [hsplit]) s s
  rwa [hsplit] at hslice

theorem parseValue_exit (h : Holds m addr bytes) (hrest : rest <:+ bytes) (hhead : rest.head? = some equals)
    (hvalue : rest.tail.takeWhile (other [amp]) = []) :
    ∃ t, Ends (parseValue m) (s.place addr bytes rest) none t ∧ t.nErr ≠ 0 :=
  ⟨_, (ends_char h hrest hhead).bind ((ends_cur _).bind (ends_run_exit h (suffix_tail hrest) hvalue)),
    failed_ne_zero⟩

/-- The version that a query leaves, when the name is compared by `strncmp`. -/
def Query.version (q : Query) (ver : List UInt8) : List UInt8 :=
  if q.name <+: modver ∨ modver ++ [0] <+: q.name then q.value.getD [] else ver

/-- The parts in front of the queries are the same. -/
structure SameParts (s t : State) : Prop where
  file : t.out.file = s.out.file
  filelen : t.out.filelen = s.out.filelen
  sym : t.out.sym = s.out.sym
  symlen : t.out.symlen = s.out.symlen
  nErr : t.nErr = s.nErr

/-- The version in memory. -/
def State.version (m : Store) (s : State) : List UInt8 := slice m s.out.ver s.out.verlen

/-- The name of a query is there, and `parse_uri` finds its value. -/
theorem parseValue_query (h : Holds m addr bytes) (hrest : rest <:+ bytes) {q : Query} {rest' : List UInt8}
    (hsplit : splitQuery rest = some (q, rest')) (s : State) :
    q.name = rest.takeWhile (other [amp, equals]) ∧ q.name ≠ [] ∧ ∃ value tail,
      Ends (parseValue m) (s.place addr bytes (rest.dropWhile (other [amp, equals]))) (some value)
        (s.place addr bytes tail) ∧
      slice m value.1 value.2 = q.value.getD [] ∧ tail <:+ bytes ∧ (∀ c, tail.head? = some c → c = amp) ∧
        rest' = tail.tail := by
  have hdrop := suffix_dropWhile hrest [amp, equals]
  unfold splitQuery at hsplit
  dsimp only at hsplit
  split_ifs at hsplit with hname hhead hvalue
  · obtain ⟨rfl, rfl⟩ := Prod.mk.inj (Option.some.inj hsplit)
    obtain ⟨value, hends, hslice⟩ := parseValue_some (s := s) h hdrop hhead hvalue
    exact ⟨rfl, hname, value, _, hends, hslice, suffix_dropWhile (suffix_tail hdrop) [amp],
      fun c hc => List.mem_singleton.mp (head?_dropWhile_other hc), rfl⟩
  · obtain ⟨rfl, rfl⟩ := Prod.mk.inj (Option.some.inj hsplit)
    refine ⟨rfl, hname, (0, 0), _, parseValue_none h hdrop hhead, rfl, hdrop, fun c hc => ?_, rfl⟩
    have hmem := head?_dropWhile_other hc
    have hne : c ≠ equals := fun heq => hhead (heq ▸ hc)
    simpa [hne] using hmem

/-- The `&` behind a query, or its end. -/
theorem ends_amp (h : Holds m addr bytes) (hrest : rest <:+ bytes) (hhead : ∀ c, rest.head? = some c → c = amp) :
    ∃ r, Ends (consume (sbufChar m amp)) (s.place addr bytes rest) (some r) (s.place addr bytes rest.tail) := by
  cases rest with
  | nil => exact ⟨false, ends_char_not h hrest (by simp)⟩
  | cons c rest =>
      obtain rfl := hhead c rfl
      exact ⟨true, ends_char h hrest rfl⟩

/-- What a query sets. -/
def State.query (s : State) (q : Query) (value : ℕ × ℕ) : State :=
  if q.name <+: modver ∨ modver ++ [0] <+: q.name then
    { s with out := { s.out with ver := value.1, verlen := value.2 } }
  else s

theorem query_sameParts (s : State) (q : Query) (value : ℕ × ℕ) : SameParts s (s.query q value) := by
  unfold State.query
  split_ifs <;> exact ⟨rfl, rfl, rfl, rfl, rfl⟩

theorem query_version (s : State) {q : Query} {value : ℕ × ℕ} (h : slice m value.1 value.2 = q.value.getD []) :
    (s.query q value).version m = q.version (s.version m) := by
  unfold State.query Query.version
  split_ifs
  · exact h
  · rfl

/-- One query. -/
theorem parseQueries_step (h : Holds m addr bytes) (hrest : rest <:+ bytes) (hne : rest ≠ []) {q : Query}
    {rest' : List UInt8} (hsplit : splitQuery rest = some (q, rest')) :
    ∃ s', SameParts s s' ∧ s'.version m = q.version (s.version m) ∧ rest' <:+ bytes ∧ ∀ n o t,
      Ends (parseQueries m n) (s'.place addr bytes rest') o t →
        Ends (parseQueries m (n + 1)) (s.place addr bytes rest) o t := by
  obtain ⟨hname, hnonempty, value, tail, hvalue, hslice, htail, hhead, rfl⟩ :=
    parseValue_query h hrest hsplit s
  obtain ⟨r, hamp⟩ := ends_amp (s := s) h htail hhead
  refine ⟨s.query q value, query_sameParts s q value, query_version s hslice, suffix_tail htail,
    fun n o t hloop => ?_⟩
  have hend : ¬ sbufEnd (s.place addr bytes rest).buf = true := fun hend =>
    hne ((sbufEnd_iff h hrest).mp hend)
  rw [parseQueries]
  refine Ends.get ?_
  rw [if_neg hend]
  refine (ends_cur _).bind (ends_run h hrest (hname ▸ hnonempty) ((ends_cur _).bind (hvalue.bind (hamp.bind ?_))))
  -- the name lies between its two pointers
  have happend := List.takeWhile_append_dropWhile (p := other [amp, equals]) (l := rest)
  have hrun := slice_place h (rest.takeWhile (other [amp, equals]))
    (rest.dropWhile (other [amp, equals])) (by rwa [happend]) s s
  rw [happend, ← hname] at hrun
  have hlen := congrArg List.length hrun
  rw [slice_length] at hlen
  rw [hlen] at hrun
  have hstrncmp := strncmp_zero_iff modver hrun (by decide)
  rw [hlen]
  by_cases hmodver : q.name <+: modver ∨ modver ++ [0] <+: q.name
  · rw [if_pos (hstrncmp.mpr hmodver)]
    rw [State.query, if_pos hmodver] at hloop
    exact (ends_update _ _).bind hloop
  · rw [if_neg (fun htrue => hmodver (hstrncmp.mp htrue))]
    rw [State.query, if_neg hmodver] at hloop
    exact (ends_pure _ _).bind hloop

/-- A query that is none. -/
theorem parseQueries_exit (h : Holds m addr bytes) (hrest : rest <:+ bytes) (hne : rest ≠ [])
    (hsplit : splitQuery rest = none) (n : ℕ) :
    ∃ t, Ends (parseQueries m (n + 1)) (s.place addr bytes rest) none t ∧ t.nErr ≠ 0 := by
  have hend : ¬ sbufEnd (s.place addr bytes rest).buf = true := fun hend =>
    hne ((sbufEnd_iff h hrest).mp hend)
  rw [parseQueries]
  unfold splitQuery at hsplit
  dsimp only at hsplit
  split_ifs at hsplit with hname hhead hvalue
  · refine ⟨{ s.place addr bytes (rest.dropWhile (other [amp, equals])) with nErr := -1 }, Ends.get ?_,
      failed_ne_zero⟩
    rw [if_neg hend]
    exact (ends_cur _).bind (ends_run_exit (s := s) h hrest hname)
  · obtain ⟨t, hexit, hcode⟩ := parseValue_exit (s := s) h (suffix_dropWhile hrest [amp, equals]) hhead hvalue
    refine ⟨t, Ends.get ?_, hcode⟩
    rw [if_neg hend]
    exact (ends_cur _).bind (ends_run h hrest hname ((ends_cur _).bind (hexit.exit _)))

/-- **The loop over queries** that are there. -/
theorem parseQueries_some (h : Holds m addr bytes) {n : ℕ} (hrest : rest <:+ bytes) (hn : rest.length < n)
    {qs : List Query} (hqs : queriesOf n rest = some qs) (s : State) :
    ∃ t, Ends (parseQueries m n) (s.place addr bytes rest) (some ⟨⟩) t ∧ SameParts s t ∧
      t.version m = qs.foldl (fun ver q => q.version ver) (s.version m) := by
  induction n generalizing rest qs s with
  | zero => exact absurd hn (Nat.not_lt_zero _)
  | succ n ih =>
      cases rest with
      | nil =>
          obtain rfl := Option.some.inj hqs
          refine ⟨s.place addr bytes [], ?_, ⟨rfl, rfl, rfl, rfl, rfl⟩, rfl⟩
          rw [parseQueries]
          refine Ends.get ?_
          have hend : sbufEnd (s.place addr bytes []).buf = true := (sbufEnd_iff h hrest).mpr rfl
          rw [if_pos hend]
          exact ends_pure _ _
      | cons c rest =>
          obtain ⟨⟨q, rest'⟩, hsplit, hmap⟩ := Option.bind_eq_some_iff.mp hqs
          obtain ⟨qs', htail, rfl⟩ := Option.map_eq_some_iff.mp hmap
          obtain ⟨s', hsame, hversion, hrest', hstep⟩ :=
            parseQueries_step (s := s) h hrest (List.cons_ne_nil c rest) hsplit
          have hlen : rest'.length < n := (splitQuery_length hsplit).trans_le (Nat.le_of_lt_succ hn)
          obtain ⟨t, hends, hsame', hversion'⟩ := ih hrest' hlen htail s'
          refine ⟨t, hstep n _ _ hends, ?_, ?_⟩
          · exact ⟨hsame'.file.trans hsame.file, hsame'.filelen.trans hsame.filelen, hsame'.sym.trans hsame.sym,
              hsame'.symlen.trans hsame.symlen, hsame'.nErr.trans hsame.nErr⟩
          · rw [hversion', hversion, List.foldl_cons]

/-- The loop over queries that are not there. -/
theorem parseQueries_none (h : Holds m addr bytes) {n : ℕ} (hrest : rest <:+ bytes) (hn : rest.length < n)
    (hqs : queriesOf n rest = none) (s : State) :
    ∃ t, Ends (parseQueries m n) (s.place addr bytes rest) none t ∧ t.nErr ≠ 0 := by
  induction n generalizing rest s with
  | zero => exact absurd hn (Nat.not_lt_zero _)
  | succ n ih =>
      cases rest with
      | nil => cases hqs
      | cons c rest =>
          cases hsplit : splitQuery (c :: rest) with
          | none => exact parseQueries_exit h hrest (List.cons_ne_nil c rest) hsplit n
          | some r =>
              obtain ⟨q, rest'⟩ := r
              obtain ⟨s', _, _, hrest', hstep⟩ :=
                parseQueries_step (s := s) h hrest (List.cons_ne_nil c rest) hsplit
              have hlen : rest'.length < n := (splitQuery_length hsplit).trans_le (Nat.le_of_lt_succ hn)
              rw [queriesOf, hsplit, Option.bind_some, Option.map_eq_none_iff] at hqs
              obtain ⟨t, hends, hne⟩ := ih hrest' hlen hqs s'
              exact ⟨t, hstep n _ _ hends, hne⟩

theorem cursor_left (hrest : rest <:+ bytes) :
    (cursor addr bytes rest).bufEnd - (cursor addr bytes rest).bufCur = rest.length := by
  have hlen := hrest.length_le
  unfold cursor
  dsimp only
  omega

/-- Behind an `&`, the loop over the queries. -/
theorem parseRest_amp (h : Holds m addr bytes) (hrest : amp :: rest <:+ bytes) {o : Option PUnit} {t : State}
    (hloop : Ends (parseQueries m (rest.length + 1)) (s.place addr bytes rest) o t) :
    Ends (parseRest m) (s.place addr bytes (amp :: rest)) o t := by
  have hend : ¬ sbufEnd (s.place addr bytes (amp :: rest)).buf = true := fun hend =>
    absurd ((sbufEnd_iff h hrest).mp hend) (List.cons_ne_nil _ _)
  have hfuel : (s.place addr bytes (amp :: rest)).buf.bufEnd - (s.place addr bytes (amp :: rest)).buf.bufCur =
      rest.length + 1 := cursor_left hrest
  refine Ends.get ?_
  rw [if_neg hend, hfuel]
  refine (ends_char h hrest rfl).bind ?_
  rw [if_pos rfl]
  exact hloop

/-- The queries, or the end of the string. -/
theorem parseRest_some (h : Holds m addr bytes) (hrest : rest <:+ bytes)
    (hhead : ∀ c, rest.head? = some c → c = amp) {qs : List Query} (hqs : restOf rest = some qs) (s : State) :
    ∃ t, Ends (parseRest m) (s.place addr bytes rest) (some ⟨⟩) t ∧ SameParts s t ∧
      t.version m = qs.foldl (fun ver q => q.version ver) (s.version m) := by
  cases rest with
  | nil =>
      obtain rfl := Option.some.inj hqs
      have hend : sbufEnd (s.place addr bytes []).buf = true := (sbufEnd_iff h hrest).mpr rfl
      refine ⟨s.place addr bytes [], Ends.get ?_, ⟨rfl, rfl, rfl, rfl, rfl⟩, rfl⟩
      rw [if_pos hend]
      exact ends_pure _ _
  | cons c rest =>
      obtain rfl := hhead c rfl
      obtain ⟨t, hends, hsame, hversion⟩ := parseQueries_some h (suffix_tail hrest) (Nat.lt_succ_self _) hqs s
      exact ⟨t, parseRest_amp h hrest hends, hsame, hversion⟩

theorem parseRest_none (h : Holds m addr bytes) (hrest : rest <:+ bytes)
    (hhead : ∀ c, rest.head? = some c → c = amp) (hqs : restOf rest = none) (s : State) :
    ∃ t, Ends (parseRest m) (s.place addr bytes rest) none t ∧ t.nErr ≠ 0 := by
  cases rest with
  | nil => cases hqs
  | cons c rest =>
      obtain rfl := hhead c rfl
      obtain ⟨t, hends, hne⟩ := parseQueries_none h (suffix_tail hrest) (Nat.lt_succ_self _) hqs s
      exact ⟨t, parseRest_amp h hrest hends, hne⟩

theorem sbufString_singleton (c : UInt8) (b : Sbuf) : sbufString m [c] b = sbufChar m c b := by
  rw [sbufString]
  obtain ⟨r, b'⟩ := sbufChar m c b
  cases r <;> rfl

/-- Behind the scheme and the slash, the file. -/
theorem parseParts_file (h : Holds m addr (fileScheme ++ rest)) {o : Option PUnit} {t : State}
    (hfile : Ends (parseFile m) ((start addr (fileScheme ++ rest).length).place addr (fileScheme ++ rest)
      (if rest.head? = some slash then rest.tail else rest)) o t) :
    Ends (parseParts m) (start addr (fileScheme ++ rest).length) o t := by
  have hstart : start addr (fileScheme ++ rest).length =
      (start addr (fileScheme ++ rest).length).place addr (fileScheme ++ rest) (fileScheme ++ rest) := by
    unfold start State.place
    rw [init_cursor h]
  have hscheme := ends_consume (s := start addr (fileScheme ++ rest).length)
    (sbufString_append h fileScheme (List.suffix_refl _))
  obtain ⟨r, hslash⟩ := ends_char_any (s := start addr (fileScheme ++ rest).length) h
    (List.suffix_append fileScheme rest) slash
  have hstring : sbufString m [slash] = sbufChar m slash := funext (sbufString_singleton slash)
  rw [hstart]
  unfold parseParts
  rw [hstring]
  exact hscheme.bind ((ends_pure _ _).bind (hslash.bind hfile))

/-- The symbol of a string. -/
theorem parseSym_some (h : Holds m addr bytes) {sym tail : List UInt8} (hrest : qmark :: (sym ++ tail) <:+ bytes)
    (hne : sym ≠ []) (hchars : ∀ c ∈ sym, c ≠ amp) (hhead : ∀ c, tail.head? = some c → c = amp)
    {qs : List Query} (hqs : restOf tail = some qs) (s : State) :
    ∃ t, Ends (parseSym m) (s.place addr bytes (qmark :: (sym ++ tail))) (some ⟨⟩) t ∧ t.nErr = s.nErr ∧
      t.out.file = s.out.file ∧ t.out.filelen = s.out.filelen ∧ slice m t.out.sym t.out.symlen = sym ∧
      t.version m = qs.foldl (fun ver q => q.version ver) (s.version m) := by
  have hsym : sym ++ tail <:+ bytes := suffix_tail hrest
  obtain ⟨htake, hdrop⟩ := takeWhile_run [amp] sym tail
    (fun c hc => by simpa using hchars c hc) (fun c hc => by simp [hhead c hc])
  have htail : tail <:+ bytes := (List.suffix_append sym tail).trans hsym
  -- the states behind the two updates
  let s₁ : State := { s with out := { s.out with sym := sbufCur (s.place addr bytes (sym ++ tail)).buf } }
  let s₂ : State := { s₁ with out := { s₁.out with
    symlen := sbufCur (s₁.place addr bytes tail).buf - sbufCur (s.place addr bytes (sym ++ tail)).buf } }
  obtain ⟨t, hends, hsame, hversion⟩ := parseRest_some h htail hhead hqs s₂
  refine ⟨t, ?_, hsame.nErr, hsame.file, hsame.filelen, ?_, hversion⟩
  · refine (ends_char h hrest rfl).bind ((ends_verify _ rfl).bind ((ends_cur _).bind (Ends.update _ ?_)))
    refine ends_run (s := s₁) h hsym (by rwa [htake]) ?_
    rw [hdrop]
    exact (ends_cur _).bind (Ends.update _ hends)
  · rw [hsame.sym, hsame.symlen]
    exact slice_place h _ _ hsym s s₁

/-- The file of a string. -/
theorem parseFile_some (h : Holds m addr bytes) {file sym tail : List UInt8}
    (hrest : file ++ qmark :: (sym ++ tail) <:+ bytes) (hfile : file ≠ []) (hfileChars : ∀ c ∈ file, c ≠ qmark)
    (hsym : sym ≠ []) (hsymChars : ∀ c ∈ sym, c ≠ amp) (hhead : ∀ c, tail.head? = some c → c = amp)
    {qs : List Query} (hqs : restOf tail = some qs) (s : State) :
    ∃ t, Ends (parseFile m) (s.place addr bytes (file ++ qmark :: (sym ++ tail))) (some ⟨⟩) t ∧
      t.nErr = s.nErr ∧ slice m t.out.file t.out.filelen = file ∧ slice m t.out.sym t.out.symlen = sym ∧
      t.version m = qs.foldl (fun ver q => q.version ver) (s.version m) := by
  have hafter : qmark :: (sym ++ tail) <:+ bytes := (List.suffix_append file _).trans hrest
  obtain ⟨htake, hdrop⟩ := takeWhile_run [qmark] file (qmark :: (sym ++ tail))
    (fun c hc => by simpa using hfileChars c hc) (fun c hc => by
      obtain rfl := Option.some.inj hc
      exact List.mem_singleton_self _)
  let s₁ : State := { s with out := { s.out with
    file := sbufCur (s.place addr bytes (file ++ qmark :: (sym ++ tail))).buf } }
  let s₂ : State := { s₁ with out := { s₁.out with
    filelen := sbufCur (s₁.place addr bytes (qmark :: (sym ++ tail))).buf -
      sbufCur (s.place addr bytes (file ++ qmark :: (sym ++ tail))).buf } }
  obtain ⟨t, hends, hnErr, hsameFile, hsameLen, hslice, hversion⟩ :=
    parseSym_some h hafter hsym hsymChars hhead hqs s₂
  refine ⟨t, ?_, hnErr, ?_, hslice, hversion⟩
  · refine (ends_cur _).bind (Ends.update _ ?_)
    refine ends_run (s := s₁) h hrest (by rwa [htake]) ?_
    rw [hdrop]
    exact (ends_cur _).bind (Ends.update _ hends)
  · rw [hsameFile, hsameLen]
    exact slice_place h _ _ hrest s s₁

/-- A string without a symbol. -/
theorem parseSym_none (h : Holds m addr bytes) (hrest : rest <:+ bytes)
    (hnone : rest.head? = some qmark → rest.tail.takeWhile (other [amp]) ≠ [] →
      restOf (rest.tail.dropWhile (other [amp])) = none) (s : State) :
    ∃ t, Ends (parseSym m) (s.place addr bytes rest) none t ∧ t.nErr ≠ 0 := by
  by_cases hhead : rest.head? = some qmark
  swap
  · exact ⟨_, (ends_char_not h hrest hhead).bind ((ends_verify_exit _ rfl).exit _), failed_ne_zero⟩
  have htail := suffix_tail hrest
  let s₁ : State := { s with out := { s.out with sym := sbufCur (s.place addr bytes rest.tail).buf } }
  by_cases hsym : rest.tail.takeWhile (other [amp]) = []
  · exact ⟨_, (ends_char h hrest hhead).bind ((ends_verify _ rfl).bind ((ends_cur _).bind (Ends.update _
      (ends_run_exit (s := s₁) h htail hsym)))), failed_ne_zero⟩
  · let s₂ : State := { s₁ with out := { s₁.out with
      symlen := sbufCur (s₁.place addr bytes (rest.tail.dropWhile (other [amp]))).buf -
        sbufCur (s.place addr bytes rest.tail).buf } }
    have hamp : ∀ c, (rest.tail.dropWhile (other [amp])).head? = some c → c = amp := fun c hc =>
      List.mem_singleton.mp (head?_dropWhile_other hc)
    obtain ⟨t, hexit, hne⟩ := parseRest_none h (suffix_dropWhile htail [amp]) hamp (hnone hhead hsym) s₂
    refine ⟨t, (ends_char h hrest hhead).bind ((ends_verify _ rfl).bind ((ends_cur _).bind (Ends.update _ ?_))), hne⟩
    exact ends_run (s := s₁) h htail hsym ((ends_cur _).bind (Ends.update _ hexit))

/-- A string without a file, or without a symbol. -/
theorem parseFile_none (h : Holds m addr bytes) (hrest : rest <:+ bytes)
    (hnone : rest.takeWhile (other [qmark]) ≠ [] → rest.dropWhile (other [qmark]) ≠ [] →
      (rest.dropWhile (other [qmark])).tail.takeWhile (other [amp]) ≠ [] →
        restOf ((rest.dropWhile (other [qmark])).tail.dropWhile (other [amp])) = none) (s : State) :
    ∃ t, Ends (parseFile m) (s.place addr bytes rest) none t ∧ t.nErr ≠ 0 := by
  let s₁ : State := { s with out := { s.out with file := sbufCur (s.place addr bytes rest).buf } }
  by_cases hfile : rest.takeWhile (other [qmark]) = []
  · exact ⟨_, (ends_cur _).bind (Ends.update _ (ends_run_exit (s := s₁) h hrest hfile)), failed_ne_zero⟩
  · let s₂ : State := { s₁ with out := { s₁.out with
      filelen := sbufCur (s₁.place addr bytes (rest.dropWhile (other [qmark]))).buf -
        sbufCur (s.place addr bytes rest).buf } }
    obtain ⟨t, hexit, hne⟩ := parseSym_none h (suffix_dropWhile hrest [qmark])
      (fun hhead hsym => hnone hfile (fun hnil => by simp [hnil] at hhead) hsym) s₂
    refine ⟨t, (ends_cur _).bind (Ends.update _ ?_), hne⟩
    exact ends_run (s := s₁) h hrest hfile ((ends_cur _).bind (Ends.update _ hexit))

/-- The error and the parts of a run. -/
theorem parseUri_eq {o : Option PUnit} {urilen : ℤ} {t : State}
    (h : Ends (parseParts m) (start addr urilen) o t) : parseUri m addr urilen = (t.out, t.nErr) := by
  unfold parseUri
  rw [h.leaves]

/-- The optional slash is skipped. -/
theorem skip_slash {hasSlash : Bool} {after : List UInt8} (h : hasSlash = false → after.head? ≠ some slash) :
    (if ((if hasSlash then [slash] else []) ++ after).head? = some slash then
      ((if hasSlash then [slash] else []) ++ after).tail
      else (if hasSlash then [slash] else []) ++ after) = after := by
  cases hasSlash with
  | true => exact if_pos rfl
  | false => exact if_neg (h rfl)

/-- **A string that is a URI** is parsed. -/
theorem parseUri_some (h : Holds m addr bytes) {u : Uri} (hu : uriOf bytes = some u) :
    ∃ out, parseUri m addr bytes.length = (out, 0) ∧ slice m out.file out.filelen = u.file ∧
      slice m out.sym out.symlen = u.sym ∧
      slice m out.ver out.verlen = u.queries.foldl (fun ver q => q.version ver) [] := by
  obtain ⟨hok, tail, rfl, hfollows⟩ := uriOf_some hu
  have hhead : ∀ c, tail.head? = some c → c = amp := by
    intro c hc
    obtain ⟨rfl, _⟩ | ⟨_, rfl⟩ := hfollows.cases
    · cases hc
    · exact (Option.some.inj hc).symm
  have hqueries := (restOf_iff hhead u.queries).mpr ⟨hok.queries, hfollows⟩
  unfold Uri.text at h ⊢
  have hrest : u.file ++ qmark :: (u.sym ++ tail) <:+
      fileScheme ++ ((if u.slash then [slash] else []) ++ (u.file ++ qmark :: (u.sym ++ tail))) :=
    (List.suffix_append _ _).trans (List.suffix_append _ _)
  obtain ⟨t, hends, hnErr, hfile, hsym, hversion⟩ := parseFile_some h hrest hok.file hok.fileChars hok.sym
    hok.symChars hhead hqueries (start addr _)
  refine ⟨t.out, ?_, hfile, hsym, hversion⟩
  have hslash : u.slash = false → (u.file ++ qmark :: (u.sym ++ tail)).head? ≠ some slash := by
    obtain ⟨c, cs, hcs⟩ := List.exists_cons_of_ne_nil hok.file
    have hslash := hok.slash
    rw [hcs] at hslash ⊢
    exact hslash
  have hall := parseParts_file h (by rw [skip_slash hslash]; exact hends)
  rw [parseUri_eq hall, hnErr]
  rfl

/-- A string that is none is refused. -/
theorem parseUri_none (h : Holds m addr bytes) (hu : uriOf bytes = none) :
    (parseUri m addr bytes.length).2 ≠ 0 := by
  by_cases hscheme : fileScheme <+: bytes
  · obtain ⟨rest, rfl⟩ := hscheme
    unfold uriOf at hu
    rw [if_pos (List.prefix_append _ _), List.drop_left] at hu
    dsimp only at hu
    simp only [decide_eq_true_eq] at hu
    have hrest : (if rest.head? = some slash then rest.tail else rest) <:+ fileScheme ++ rest := by
      split_ifs
      · exact (List.tail_suffix rest).trans (List.suffix_append _ _)
      · exact List.suffix_append _ _
    obtain ⟨t, hends, hne⟩ := parseFile_none h hrest (fun hfile htail hsym => by
      rw [if_neg (not_or.mpr ⟨hfile, htail⟩), if_neg hsym, Option.map_eq_none_iff] at hu
      exact hu) (start addr (fileScheme ++ rest).length)
    rw [parseUri_eq (parseParts_file h hends)]
    exact hne
  · have hstart : (start addr bytes.length).buf = cursor addr bytes bytes := init_cursor h
    have hfalse : (sbufString m fileScheme (start addr bytes.length).buf).1 = false := by
      rw [hstart]
      exact sbufString_not_prefix h (List.suffix_refl bytes) hscheme
    have hconsume : Ends (consume (sbufString m fileScheme)) (start addr bytes.length) (some false)
        { start addr bytes.length with buf := (sbufString m fileScheme (start addr bytes.length).buf).2 } :=
      ⟨congrArg some hfalse, rfl⟩
    have hexit : Ends (parseParts m) (start addr bytes.length) none _ :=
      hconsume.bind (Ends.exit ((ends_update _ _).bind (ends_failure _)) _)
    rw [parseUri_eq hexit]
    exact (by decide : eBadParm ≠ 0)

/-- The version is that of the last query with the name `_modver`. -/
theorem foldl_version (qs : List Query) (ver : List UInt8) (h : ∀ q ∈ qs, ¬ q.Misread) :
    qs.foldl (fun ver q => q.version ver) ver =
      (((qs.filter (fun q => q.name = modver)).getLast?).map (fun q => q.value.getD [])).getD ver := by
  induction qs generalizing ver with
  | nil => rfl
  | cons q qs ih =>
      obtain ⟨hq, hqs⟩ := List.forall_mem_cons.mp h
      rw [List.foldl_cons, ih _ hqs]
      by_cases hname : q.name = modver
      · have hversion : q.version ver = q.value.getD [] := by
          rw [Query.version, if_pos (.inl (hname ▸ List.prefix_refl _))]
        rw [List.filter_cons_of_pos (by simpa using hname), List.getLast?_cons, hversion]
        cases (qs.filter (fun q => q.name = modver)).getLast? <;> rfl
      · have hversion : q.version ver = ver := by
          rw [Query.version, if_neg (fun hprefix => hq ⟨hname, hprefix⟩)]
        rw [List.filter_cons_of_neg (by simpa using hname), hversion]

/-- **`parse_uri`** accepts the strings of the grammar, with an `&` behind them or not, and finds their parts.
Where no name is taken for `_modver`, the version is that of the last `_modver`. -/
theorem parse_uri_grammar (h : Holds m addr bytes) :
    ((parseUri m addr bytes.length).2 = 0 ↔
        ∃ u : Uri, u.Ok ∧ (bytes = u.bytes ∨ bytes = u.bytes ++ [amp])) ∧
      ∀ (u : Uri) (out : ParsedUri), u.Ok → (bytes = u.bytes ∨ bytes = u.bytes ++ [amp]) →
        parseUri m addr bytes.length = (out, 0) →
          slice m out.file out.filelen = u.file ∧ slice m out.sym out.symlen = u.sym ∧
            ((∀ q ∈ u.queries, ¬ q.Misread) → slice m out.ver out.verlen = u.version) := by
  constructor
  · constructor
    · intro hzero
      cases hu : uriOf bytes with
      | none => exact absurd hzero (parseUri_none h hu)
      | some u => exact ⟨u, (uriOf_iff bytes u).mp hu⟩
    · rintro ⟨u, hu⟩
      obtain ⟨out, hparse, _⟩ := parseUri_some h ((uriOf_iff bytes u).mpr hu)
      rw [hparse]
  · intro u out hok hbytes hparse
    obtain ⟨out', hparse', hfile, hsym, hversion⟩ := parseUri_some h ((uriOf_iff bytes u).mpr ⟨hok, hbytes⟩)
    obtain rfl := (Prod.mk.inj (hparse.symm.trans hparse')).1
    refine ⟨hfile, hsym, fun hnames => ?_⟩
    rw [hversion, foldl_version _ _ hnames, Uri.version]
    cases (u.queries.filter (fun q => q.name = modver)).getLast? <;> rfl

/-- A memory that holds a string. -/
def stored (bytes : List UInt8) : Store := write (fun _ => 0) 0x1000 bytes

theorem holds_stored {bytes : List UInt8} (h : bytes.length < 2 ^ 31) : Holds (stored bytes) 0x1000 bytes :=
  ⟨slice_write_same _ _ _, h, by omega⟩

/-- `file:///f?s&_modver=1`. -/
def versioned : Uri := ⟨true, lit ['f'], lit ['s'], [⟨modver, some (lit ['1'])⟩]⟩

theorem versioned_ok : versioned.Ok := by
  refine ⟨by decide, by decide, List.forall_mem_singleton.mpr (by decide), by decide,
    List.forall_mem_singleton.mpr (by decide), fun q hq => ?_⟩
  obtain rfl := List.mem_singleton.mp hq
  refine ⟨by decide, ?_, fun value hvalue => ?_⟩
  · simpa using (by decide : modver.all (fun c => c != amp && c != equals) = true)
  · obtain rfl := Option.some.inj hvalue
    exact ⟨by decide, List.forall_mem_singleton.mpr (by decide)⟩

theorem parse_uri_versioned :
    (parseUri (stored versioned.bytes) 0x1000 versioned.bytes.length).2 = 0 :=
  (parse_uri_grammar (holds_stored (by decide))).1.mpr ⟨versioned, versioned_ok, .inl rfl⟩

/-- `file://f?s&`. -/
def trailing : List UInt8 := lit ['f', 'i', 'l', 'e', ':', '/', '/', 'f', '?', 's', '&']

/-- A string with an `&` at its end is accepted, and no parts make it. -/
theorem trailing_amp_accepted : Holds (stored trailing) 0x1000 trailing ∧
    (parseUri (stored trailing) 0x1000 trailing.length).2 = 0 ∧ ¬ ∃ u : Uri, u.Ok ∧ u.bytes = trailing := by
  have hparts : uriOf trailing = some ⟨false, lit ['f'], lit ['s'], []⟩ := by decide
  refine ⟨holds_stored (by decide), ?_, ?_⟩
  · obtain ⟨out, hparse, _⟩ := parseUri_some (holds_stored (by decide)) hparts
    rw [hparse]
  · rintro ⟨u, hok, hbytes⟩
    have hu := (uriOf_iff trailing u).mpr ⟨hok, .inl hbytes.symm⟩
    obtain rfl := Option.some.inj (hparts.symm.trans hu)
    exact absurd hbytes (by decide)

end Memory

end FastRpc.UriParser
