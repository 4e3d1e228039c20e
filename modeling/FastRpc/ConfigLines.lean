import FastRpc.ConfigReader
import Mathlib.Data.List.Find

/-! # The lines that the configuration reader sees

The size that the reader gives `apps_std_fgets` leaves room for one byte less than the file has, so that a
line as long as the file is read in two parts; and the newline of a line stays in the value.  A file should
be read in its lines, and mean the same with a newline behind it.

`whole_lines_iff` says for which files it does: no line is as long as the file, and the last line is not one
that a newline changes (`NewlineMatters`), which the name of a file is, and an empty value of some other
settings. -/

namespace FastRpc.ConfigLines

open CInt CString SearchPaths TextLines ConfigReader

/-! ### What is claimed, and when -/

/-- The allocations succeed. -/
def memory : Str → Bool := fun _ => true

/-- What a line makes of the settings. -/
def applied (c : FrpcConfig) (l : Str) : FrpcConfig :=
  match processLine memory c l with
  | .ok c => c
  | .error c => c

/-- The file is read in its lines, and so is the file with a newline behind it, with the same settings. -/
def Whole (c : FrpcConfig) (text : Str) : Prop :=
  ∃ r r', Reads memory c text r ∧ Reads memory c (text ++ [newline]) r' ∧
    r.processed = lines newline text ∧ r'.processed = lines newline (text ++ [newline]) ∧ r.config = r'.config

/-- Only `=`. -/
def Delims (s : Str) : Prop := ∀ x ∈ s, x ∈ [equals]

/-- A token. -/
def Token (s : Str) : Prop := s ≠ [] ∧ ∀ x ∈ s, x ∉ [equals]

/-- What stands behind the name of a setting and `=` is a value that a newline changes: an empty one, unless a
newline as the value changes nothing, or the name of a file with no `=` behind it. -/
def Sensitive : Setter → FrpcConfig → Str → Prop
  | .nonzero _, _, _ => False
  | .int set, c, r => Delims r ∧ set 0 c ≠ c
  | .present set, c, r => Delims r ∧ set c ≠ c
  | .name set _ _, c, r =>
      Delims r ∧ set (some [newline]) c ≠ c ∨ ∃ ds v, r = ds ++ v ∧ Delims ds ∧ Token v

/-- A line that a newline behind it changes, when `c` is what the lines before it have set. -/
def NewlineMatters (c : FrpcConfig) (l : Str) : Prop :=
  0 ∉ l ∧ ∃ ds param r setter, l = ds ++ (param ++ equals :: r) ∧ Delims ds ∧ Token param ∧
    ¬ configErrCodes.isPrefixOf param = true ∧ setterOf param = some setter ∧ Sensitive setter c r

/-- The length of the file is at least 2 as an `int`, and so is that of the file with a newline; no line is
as long as the file; and the last line is not one that a newline changes. -/
structure Plain (c : FrpcConfig) (text : Str) : Prop where
  ends : 2 ≤ wrap text.length
  next : wrap text.length ≠ intMax
  short : ∀ l ∈ lines newline text, (l.length : ℤ) < wrap text.length
  last : ∀ ls l, lines newline text = ls ++ [l] → l.getLast? ≠ some newline →
    ¬ NewlineMatters (ls.foldl applied (start c text).config) l

/-! ### A newline behind a line -/

section Newline

variable {mem : Str → Bool} {c : FrpcConfig} {l r s : Str}

theorem chars_newline (s : Str) : chars (s ++ [newline]) = chars s ++ ['\n'] := List.map_append

theorem atoi_newline (s : Str) : atoi (s ++ [newline]) = atoi s := by
  unfold atoi
  rw [chars_newline, strtol_eq_signed, strtol_eq_signed,
    signed_concat _ (fun s => leadingNumber_concat s (by decide)) (by decide)]

theorem zero_of_newline {x : Char} {s t : List Char} (hx : x ≠ '\n') (h : s ++ ['\n'] = '0' :: x :: t) :
    ∃ t', s = '0' :: x :: t' := by
  cases s with
  | nil => exact absurd (List.cons.inj h).1 (by decide)
  | cons a s =>
      obtain ⟨rfl, hrest⟩ := List.cons.inj h
      cases s with
      | nil => exact absurd (List.cons.inj hrest).1.symm hx
      | cons b s =>
          obtain ⟨rfl, -⟩ := List.cons.inj hrest
          exact ⟨s, rfl⟩

theorem prefixedHex_newline (s : List Char) : prefixedHex (s ++ ['\n']) = prefixedHex s := by
  have hconcat : ∀ s : List Char, (hexNumber (s ++ ['\n']) 0 : ℤ) = hexNumber s 0 :=
    fun s => congrArg _ (hexNumber_concat s (by decide) 0)
  fun_cases prefixedHex s with
  | case1 s => exact hconcat s
  | case2 s => exact hconcat s
  | case3 =>
      rename_i hlower hupper
      unfold prefixedHex
      split
      · obtain ⟨t, rfl⟩ := zero_of_newline (show 'x' ≠ '\n' by decide) ‹_›
        exact absurd rfl (hlower t)
      · obtain ⟨t, rfl⟩ := zero_of_newline (show 'X' ≠ '\n' by decide) ‹_›
        exact absurd rfl (hupper t)
      · exact hconcat s

theorem strtolHex_newline (s : Str) : strtolHex (chars (s ++ [newline])) = strtolHex (chars s) := by
  unfold strtolHex
  rw [chars_newline, signed_concat _ prefixedHex_newline (by decide)]

/-- A newline behind the error codes is part of the last one, or one that is not in the range. -/
theorem errCodes_newline (s token : Str) (codes : List ℤ) :
    errCodes (tokens [comma] (s ++ [newline]) token) codes = errCodes (tokens [comma] s token) codes := by
  induction s generalizing token codes with
  | nil =>
      have hnewline : newline ∉ [comma] := by decide
      have hlast : tokens [comma] ([] ++ [newline]) token = [token ++ [newline]] := by
        simp [tokens, hnewline]
      rw [hlast, tokens]
      by_cases htoken : token = []
      · subst htoken
        rfl
      · rw [if_neg htoken, errCodes, errCodes, strtolHex_newline]
        rfl
  | cons d s ih =>
      rw [List.cons_append, tokens, tokens]
      split_ifs with hd htoken
      · exact ih [] codes
      · rw [errCodes, errCodes]
        split_ifs
        · rfl
        · exact ih [] _
        · exact ih [] codes
      · exact ih _ codes

theorem isPrefixOf_newline {key : Str} (hkey : newline ∉ key) (s : Str) :
    key.isPrefixOf (s ++ [newline]) = key.isPrefixOf s := by
  rw [Bool.eq_iff_iff, List.isPrefixOf_iff_prefix, List.isPrefixOf_iff_prefix, List.prefix_concat_iff,
    or_iff_right]
  rintro rfl
  exact hkey (List.mem_append_right _ List.mem_cons_self)

theorem setterOf_newline (s : Str) : setterOf (s ++ [newline]) = setterOf s := by
  have hkeys : ∀ p ∈ setters, newline ∉ p.1 := by decide +kernel
  unfold setterOf
  congr 1
  exact List.find?_congr fun p hp => isPrefixOf_newline (hkeys p hp) s

theorem token_newline : Token [newline] := by
  have hequals : newline ∉ [equals] := by decide
  exact ⟨List.cons_ne_nil _ _, fun x hx => List.mem_singleton.mp hx ▸ hequals⟩

theorem Token.concat (h : Token s) : Token (s ++ [newline]) :=
  ⟨List.append_ne_nil_of_left_ne_nil h.1 _, List.forall_mem_append.mpr ⟨h.2, token_newline.2⟩⟩

theorem not_delims_token {ds v : Str} (hv : Token v) : ¬ Delims (ds ++ v) := by
  intro h
  obtain ⟨x, v, rfl⟩ := List.exists_cons_of_ne_nil hv.1
  exact hv.2 x List.mem_cons_self (h x (List.mem_append_right _ List.mem_cons_self))

/-- **A newline behind a value** changes what a setting makes of it when the setting is sensitive. -/
theorem setter_newline_iff (setter : Setter) (c : FrpcConfig) (r : Str) :
    setter.apply memory ((strtok [equals] (r ++ [newline])).map Prod.fst) c =
      setter.apply memory ((strtok [equals] r).map Prod.fst) c ↔ ¬ Sensitive setter c r := by
  rcases strtok_forms [equals] r with hr | ⟨ds, v, rfl, hds, hv⟩ | ⟨ds, v, e, r', rfl, hds, hv, hfree, he⟩
  · -- no value
    rw [strtok_last hr token_newline.1 token_newline.2, strtok_delims hr]
    have hdelims : Delims r := hr
    cases setter with
    | nonzero set => exact iff_of_true rfl not_false
    | int set => simp [Setter.apply, Sensitive, hdelims, show atoi [newline] = 0 by decide]
    | present set => simp [Setter.apply, Sensitive, hdelims]
    | name set get get_set =>
        have hno : ¬ ∃ ds v, r = ds ++ v ∧ Delims ds ∧ Token v := by
          rintro ⟨ds, v, rfl, -, hv⟩
          exact not_delims_token hv hdelims
        simp [Setter.apply, Sensitive, memory, hdelims, hno]
  · -- a value up to the end
    have hconcat := Token.concat (s := v) hv
    have hnot : ¬ Delims (ds ++ v) := not_delims_token hv
    rw [List.append_assoc, strtok_last hds hconcat.1 hconcat.2, strtok_last hds hv.1 hv.2]
    cases setter with
    | nonzero set => simp [Setter.apply, Sensitive, atoi_newline]
    | int set => simp only [Setter.apply, Sensitive, atoi_newline, Option.map_some, hnot, false_and, not_false_eq_true]
    | present set => simp only [Setter.apply, Sensitive, Option.map_some, hnot, false_and, not_false_eq_true]
    | name set get get_set =>
        refine iff_of_false (fun h => ?_) (not_not.mpr (.inr ⟨ds, v, rfl, hds, hv⟩))
        have hset : set (some (v ++ [newline])) c = set (some v) c := Except.ok.inj h
        have hget := congrArg get hset
        rw [get_set, get_set] at hget
        exact List.cons_ne_nil _ _ (List.append_right_eq_self.mp (Option.some.inj hget))
  · -- a value with `=` behind it
    have hnot : ¬ Delims (ds ++ (v ++ e :: r')) := by
      rw [← List.append_assoc]
      exact fun h => not_delims_token ⟨hv, hfree⟩ (List.forall_mem_append.mp h).1
    rw [List.append_assoc, List.append_assoc, List.cons_append, strtok_token hds hv hfree he,
      strtok_token hds hv hfree he]
    refine iff_of_true rfl fun hs => ?_
    cases setter with
    | nonzero set => exact hs
    | int set => exact hnot hs.1
    | present set => exact hnot hs.1
    | name set get get_set =>
        rcases hs with hs | ⟨ds', v', heq, hds', hv'⟩
        · exact hnot hs.1
        · exact last_ne_token hds' hv'.1 hv'.2 hds hv hfree he heq.symm

theorem cstr_of_not_mem (h : 0 ∉ l) : cstr l = l := by
  refine List.takeWhile_eq_self_iff.mpr fun x hx => ?_
  simpa using ne_of_mem_of_not_mem hx h

theorem cstr_newline (h : 0 ∈ l) : cstr (l ++ [newline]) = cstr l := by
  rw [cstr, List.takeWhile_append, if_neg, cstr]
  intro hlength
  have hall := List.takeWhile_eq_self_iff.mp ((List.takeWhile_prefix _).eq_of_length hlength) 0 h
  simp at hall

theorem apply_memory (setter : Setter) (v : Option Str) (c : FrpcConfig) :
    ∃ c', setter.apply memory v c = .ok c' := by
  cases v with
  | none => exact ⟨c, by cases setter <;> rfl⟩
  | some v =>
      cases setter with
      | nonzero set => exact ⟨_, rfl⟩
      | int set => exact ⟨_, rfl⟩
      | present set => exact ⟨_, rfl⟩
      | name set get get_set => exact ⟨_, rfl⟩

theorem processLine_memory (c : FrpcConfig) (l : Str) : processLine memory c l = .ok (applied c l) := by
  have hok : ∃ c', processLine memory c l = .ok c' := by
    unfold processLine
    split
    · exact ⟨_, rfl⟩
    · split_ifs
      · exact ⟨_, rfl⟩
      · split
        · exact ⟨_, rfl⟩
        · exact apply_memory _ _ _
  obtain ⟨c', hc'⟩ := hok
  rw [applied, hc']

/-- A newline changes a line when it changes what the reader makes of it. -/
theorem applied_eq_iff (c : FrpcConfig) (l l' : Str) :
    applied c l = applied c l' ↔ processLine memory c l = processLine memory c l' := by
  rw [processLine_memory, processLine_memory, Except.ok.injEq]

/-- **A newline behind a line** changes what it sets exactly when it matters. -/
theorem applied_newline_iff (c : FrpcConfig) (l : Str) :
    applied c (l ++ [newline]) = applied c l ↔ ¬ NewlineMatters c l := by
  rw [applied_eq_iff]
  by_cases hnul : 0 ∈ l
  · refine iff_of_true ?_ fun h => h.1 hnul
    rw [processLine, processLine, cstr_newline hnul]
  have hnul' : 0 ∉ l ++ [newline] := by
    simp only [List.mem_append, not_or]
    exact ⟨hnul, by decide⟩
  have hcodes : ∀ s, configErrCodes.isPrefixOf (s ++ [newline]) = configErrCodes.isPrefixOf s :=
    isPrefixOf_newline (by decide)
  rw [processLine, processLine, cstr_of_not_mem hnul, cstr_of_not_mem hnul']
  rcases strtok_forms [equals] l with hl | ⟨ds, t, rfl, hds, ht⟩ | ⟨ds, t, e, r, rfl, hds, ht, hfree, he⟩
  · -- no name
    rw [strtok_last hl token_newline.1 token_newline.2, strtok_delims hl]
    refine iff_of_true rfl ?_
    rintro ⟨-, ds, param, r, setter, rfl, -, hparam, -⟩
    rw [← List.append_assoc] at hl
    exact not_delims_token hparam (List.forall_mem_append.mp hl).1
  · -- a name with no `=` behind it
    have hconcat := Token.concat (s := t) ht
    rw [List.append_assoc, strtok_last hds hconcat.1 hconcat.2, strtok_last hds ht.1 ht.2]
    dsimp only
    rw [hcodes, setterOf_newline]
    refine iff_of_true rfl ?_
    rintro ⟨-, ds', param, r, setter, heq, hds', hparam, -⟩
    exact last_ne_token hds ht.1 ht.2 hds' hparam.1 hparam.2 List.mem_cons_self heq
  · obtain rfl := List.mem_singleton.mp he
    have hstrtok : strtok [equals] (ds ++ (t ++ equals :: r)) = some (t, r) := strtok_token hds ht hfree he
    have hmatters : NewlineMatters c (ds ++ (t ++ equals :: r)) ↔
        ¬ configErrCodes.isPrefixOf t = true ∧ ∃ setter, setterOf t = some setter ∧ Sensitive setter c r := by
      constructor
      · rintro ⟨-, ds', param, r', setter, heq, hds', hparam, hrest⟩
        rw [heq, strtok_token hds' hparam.1 hparam.2 List.mem_cons_self] at hstrtok
        obtain ⟨rfl, rfl⟩ := Prod.mk.inj (Option.some.inj hstrtok)
        exact ⟨hrest.1, setter, hrest.2⟩
      · rintro ⟨hcode, setter, hsetter, hsensitive⟩
        exact ⟨hnul, ds, t, r, setter, rfl, hds, ⟨ht, hfree⟩, hcode, hsetter, hsensitive⟩
    rw [hmatters, hstrtok, List.append_assoc, List.append_assoc, List.cons_append, strtok_token hds ht hfree he]
    dsimp only
    by_cases hcode : configErrCodes.isPrefixOf t = true
    · rw [if_pos hcode, if_pos hcode, errCodes_newline]
      exact iff_of_true rfl fun h => h.1 hcode
    · rw [if_neg hcode, if_neg hcode]
      cases hsetter : setterOf t with
      | none => simp
      | some setter =>
          dsimp only
          rw [setter_newline_iff]
          simp [hcode]

end Newline

/-! ### The loop over the lines -/

section Loop

variable {mem : Str → Bool} {c : FrpcConfig} {n : ℤ} {r : Reader} {text s : Str} {ls : List Str}

/-- **The loop over lines that are short enough.** -/
theorem reads_lines (hn : 2 ≤ n) (hlines : lines newline s = ls) (hshort : ∀ l ∈ ls, (l.length : ℤ) < n)
    (hended : r.ended = false) (hrest : r.rest = s) :
    ∃ k buf, (turn memory n)^[k] r = ⟨[], buf, ls.foldl applied r.config, r.processed ++ ls, true⟩ := by
  induction ls generalizing s r with
  | nil =>
      obtain rfl := lines_eq_nil.mp hlines
      refine ⟨1, r.buf, ?_⟩
      rw [Function.iterate_one, turn_eof hn hended hrest, ← hrest, List.append_nil]
      rfl
  | cons l ls ih =>
      obtain ⟨hl, hls⟩ := List.forall_mem_cons.mp hshort
      obtain ⟨s', rfl, hlines', htake⟩ := lines_eq_cons hlines
      have hne : l ≠ [] := line_ne_nil (hlines ▸ List.mem_cons_self)
      have hturn : turn memory n r = ⟨s', l, applied r.config l, r.processed ++ [l], false⟩ := by
        rw [turn_line hn hended (hrest ▸ List.append_ne_nil_of_left_ne_nil hne _), hrest, htake _ (by omega),
          List.drop_left, Reader.process, processLine_memory]
      obtain ⟨k, buf, hk⟩ := ih (r := turn memory n r) hlines' hls (by rw [hturn]) (by rw [hturn])
      refine ⟨k + 1, buf, ?_⟩
      rw [Function.iterate_succ_apply, hk, hturn, List.append_assoc]
      rfl

/-- What is read at once is shorter than the buffer. -/
theorem short_of_reads (h : Reads mem c text r) : ∀ l ∈ r.processed, (l.length : ℤ) < bufLen text := by
  have hn : 2 ≤ bufLen text := two_le_of_reads h
  have hturn : ∀ r : Reader, (∀ l ∈ r.processed, (l.length : ℤ) < bufLen text) →
      ∀ l ∈ (turn mem (bufLen text) r).processed, (l.length : ℤ) < bufLen text := by
    intro r hr
    cases hended : r.ended with
    | true => rwa [turn_ended hended]
    | false =>
        by_cases hrest : r.rest = []
        · rwa [turn_eof hn hended hrest]
        · have hline : (takeLine newline (bufLen text - 1).toNat r.rest).length ≤ (bufLen text - 1).toNat :=
            length_takeLine_le _ _
          have hprocessed : ∀ buf rest, (r.process mem buf rest).processed = r.processed ++ [buf] := by
            intro buf rest
            unfold Reader.process
            split
            · rfl
            · rfl
          rw [turn_line hn hended hrest, hprocessed]
          refine List.forall_mem_append.mpr ⟨hr, fun l hl => ?_⟩
          rw [List.mem_singleton] at hl
          rw [hl]
          omega
  obtain ⟨-, k, hk⟩ := h
  rw [← hk]
  clear hk
  induction k with
  | zero => exact fun _ hl => absurd hl List.not_mem_nil
  | succ k ih =>
      rw [Function.iterate_succ_apply']
      exact hturn _ ih

/-- A file whose lines are short enough is read in its lines. -/
theorem reads_of_short (hn : 2 ≤ wrap text.length)
    (hshort : ∀ l ∈ lines newline text, (l.length : ℤ) < wrap text.length) :
    ∃ buf, Reads memory c text ⟨[], buf, (lines newline text).foldl applied (start c text).config,
      lines newline text, true⟩ := by
  obtain ⟨k, buf, hk⟩ := reads_lines hn rfl hshort (r := start c text) rfl rfl
  exact ⟨buf, rfl, k, hk⟩

theorem wrap_succ {z : ℤ} (hz : wrap z ≠ intMax) : wrap (z + 1) = wrap z + 1 := by
  have hmax := intMax_eq
  unfold wrap Int.bmod at *
  norm_num at *
  omega

theorem wrap_succ_max {z : ℤ} (hz : wrap z = intMax) : wrap (z + 1) < 0 := by
  have hmax := intMax_eq
  unfold wrap Int.bmod at *
  norm_num at *
  omega

theorem exists_last (hn : 2 ≤ wrap text.length) : ∃ ls l, lines newline text = ls ++ [l] := by
  rcases List.eq_nil_or_concat (lines newline text) with hnil | ⟨ls, l, hlast⟩
  · obtain rfl := lines_eq_nil.mp hnil
    exact absurd hn (by decide)
  · exact ⟨ls, l, hlast.trans List.concat_eq_append⟩

/-- So is the file with a newline behind it. -/
theorem reads_newline (hn : 2 ≤ wrap text.length) (hnext : wrap text.length ≠ intMax)
    (hshort : ∀ l ∈ lines newline text, (l.length : ℤ) < wrap text.length) :
    ∃ buf, Reads memory c (text ++ [newline])
      ⟨[], buf, (lines newline (text ++ [newline])).foldl applied (start c text).config,
        lines newline (text ++ [newline]), true⟩ := by
  have hlength : ((text ++ [newline]).length : ℤ) = text.length + 1 := by simp
  have hsucc := wrap_succ hnext
  refine reads_of_short (by rw [hlength]; omega) ?_
  rw [hlength, hsucc]
  obtain ⟨ls, l, hlast⟩ := exists_last hn
  rw [lines_concat_sep hlast]
  rw [hlast] at hshort
  obtain ⟨hls, hl⟩ := List.forall_mem_append.mp hshort
  have hl := hl l List.mem_cons_self
  have hnewline : ([newline].length : ℤ) = 1 := rfl
  split_ifs
  · refine List.forall_mem_append.mpr ⟨fun m hm => (hls m hm).trans (by omega), ?_⟩
    simp only [List.forall_mem_cons]
    exact ⟨by omega, by omega, fun _ h => absurd h List.not_mem_nil⟩
  · refine List.forall_mem_append.mpr ⟨fun m hm => (hls m hm).trans (by omega), ?_⟩
    simp only [List.forall_mem_cons, List.length_append, Nat.cast_add]
    exact ⟨by omega, fun _ h => absurd h List.not_mem_nil⟩

end Loop

/-- **A file is read in its lines**, and a newline behind it changes nothing, exactly when it is plain. -/
theorem whole_lines_iff (c : FrpcConfig) (text : Str) : Whole c text ↔ Plain c text := by
  have hlength : ((text ++ [newline]).length : ℤ) = text.length + 1 := by simp
  constructor
  · rintro ⟨r, r', hr, hr', hlines, hlines', hconfig⟩
    have hn := two_le_of_reads hr
    have hn' := two_le_of_reads hr'
    rw [hlength] at hn'
    have hshort : ∀ l ∈ lines newline text, (l.length : ℤ) < wrap text.length := hlines ▸ short_of_reads hr
    have hnext : wrap text.length ≠ intMax := fun hmax => by
      have hneg := wrap_succ_max hmax
      omega
    refine ⟨hn, hnext, hshort, fun ls l hlast hopen hmatters => ?_⟩
    obtain ⟨buf, hread⟩ := reads_of_short hn hshort
    obtain ⟨buf', hread'⟩ := reads_newline hn hnext hshort
    rw [reads_unique hr hread, reads_unique hr' hread', lines_concat_sep hlast, if_neg hopen, hlast,
      List.foldl_append, List.foldl_append] at hconfig
    exact (applied_newline_iff _ l).mp hconfig.symm hmatters
  · intro h
    obtain ⟨buf, hread⟩ := reads_of_short h.ends h.short
    obtain ⟨buf', hread'⟩ := reads_newline h.ends h.next h.short
    refine ⟨_, _, hread, hread', rfl, rfl, ?_⟩
    obtain ⟨ls, l, hlast⟩ := exists_last h.ends
    have hplain := h.last ls l hlast
    dsimp only
    rw [lines_concat_sep hlast, hlast]
    split_ifs with hclosed
    · rw [List.foldl_append, List.foldl_append]
      rfl
    · rw [List.foldl_append, List.foldl_append]
      exact ((applied_newline_iff _ l).mpr (hplain hclosed)).symm

/-- A file without a newline loses the last character of its value. -/
theorem last_character_lost :
    (∃ r, Reads memory unset (ascii "rpctimeout=100") r ∧ r.config.rpc_timeout = 10) ∧
      (∃ r, Reads memory unset (ascii "rpctimeout=100" ++ [newline]) r ∧ r.config.rpc_timeout = 100) ∧
      ¬ Whole unset (ascii "rpctimeout=100") := by
  have hlost : ∃ r, Reads memory unset (ascii "rpctimeout=100") r ∧ r.config.rpc_timeout = 10 :=
    ⟨_, ⟨by decide +kernel, 3, rfl⟩, by decide +kernel⟩
  have hkept : ∃ r, Reads memory unset (ascii "rpctimeout=100" ++ [newline]) r ∧ r.config.rpc_timeout = 100 :=
    ⟨_, ⟨by decide +kernel, 3, rfl⟩, by decide +kernel⟩
  refine ⟨hlost, hkept, ?_⟩
  rintro ⟨r, r', hr, hr', -, -, hconfig⟩
  obtain ⟨s, hs, hten⟩ := hlost
  obtain ⟨s', hs', hhundred⟩ := hkept
  rw [reads_unique hr hs, reads_unique hr' hs'] at hconfig
  rw [hconfig, hhundred] at hten
  exact absurd hten (by decide)

end FastRpc.ConfigLines
