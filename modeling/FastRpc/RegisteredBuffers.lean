import FastRpc.FdList
import Mathlib.Algebra.BigOperators.Group.List.Basic

/-! # Taking back and finding registered buffers

A registration is taken back by its address and size, and a buffer of a call is looked up by the
addresses it spans.  Both pass over the list once: `dropRef` stops at the first entry of the same address
and size, and `fdFromBufLoop` decides at the first entry that covers the start of the buffer. -/

namespace FastRpc.FdList

open CInt

/-- The entry was registered with this address and size. -/
def MemToFd.Is (e : MemToFd) (buf size : ℕ) : Prop := e.buf = buf ∧ e.size = size

instance (e : MemToFd) (buf size : ℕ) : Decidable (e.Is buf size) :=
  inferInstanceAs (Decidable (_ ∧ _))

/-! ### Taking a registration back -/

section Deregister

variable {l pre post : List MemToFd} {e : MemToFd} {buf size : ℕ}

/-- The entry after one registration is taken back. -/
def MemToFd.drop (e : MemToFd) : MemToFd := { e with refcount := e.refcount - 1 }

/-- What taking back a registration of `(buf, size)` should do: `r` is `none` when the process is
aborted. -/
structure TakesBack (l : List MemToFd) (buf size : ℕ)
    (r : Option (Except RegisterError Unit × List MemToFd)) : Prop where
  drops : (∃ e ∈ l, e.Is buf size) → ∃ pre e post res, l = pre ++ e :: post ∧ e.Is buf size ∧
    r = some (res, if e.refcount = 1 then pre ++ post else pre ++ e.drop :: post)
  aborts : (∀ e ∈ l, ¬ e.Is buf size) → (∃ e ∈ l, e.buf = buf) → r = none
  keeps : (∀ e ∈ l, e.buf ≠ buf) → ∃ res, r = some (res, l)

/-- The first entry of `(buf, size)`. -/
def FirstIs (l : List MemToFd) (buf size : ℕ) (pre : List MemToFd) (e : MemToFd)
    (post : List MemToFd) : Prop :=
  l = pre ++ e :: post ∧ e.Is buf size ∧ ∀ x ∈ pre, ¬ x.Is buf size

theorem dropRef_absent (h : ∀ e ∈ l, ¬ e.Is buf size) (m : Bool) :
    dropRef buf size l m = (l, none, m || l.any (fun e => e.buf = buf)) := by
  induction l generalizing m with
  | nil => simp [dropRef]
  | cons e l ih =>
      obtain ⟨hne, h⟩ := List.forall_mem_cons.mp h
      by_cases hbuf : e.buf = buf
      · have hsize : e.size ≠ size := fun hsize => hne ⟨hbuf, hsize⟩
        simp [dropRef, hbuf, hsize, ih h]
      · simp [dropRef, hbuf, ih h]

theorem dropRef_first (h : FirstIs l buf size pre e post) (m : Bool) :
    dropRef buf size l m =
      if wrap (e.refcount - 1) ≤ 0 then (pre ++ post, some e, m || pre.any (fun x => x.buf = buf))
      else (pre ++ { e with refcount := wrap (e.refcount - 1) } :: post, none,
        m || pre.any (fun x => x.buf = buf)) := by
  obtain ⟨rfl, ⟨hbuf, hsize⟩, hpre⟩ := h
  induction pre generalizing m with
  | nil => simp [dropRef, hbuf, hsize]
  | cons x pre ih =>
      obtain ⟨hne, hpre⟩ := List.forall_mem_cons.mp hpre
      have hrest := fun m => ih m hpre
      by_cases hx : x.buf = buf
      · have hxsize : x.size ≠ size := fun hxsize => hne ⟨hx, hxsize⟩
        by_cases hcount : wrap (e.refcount - 1) ≤ 0 <;> simp [dropRef, hx, hxsize, hrest, hcount]
      · by_cases hcount : wrap (e.refcount - 1) ≤ 0 <;> simp [dropRef, hx, hrest, hcount]

theorem exists_first (h : ∃ e ∈ l, e.Is buf size) : ∃ pre e post, FirstIs l buf size pre e post := by
  induction l with
  | nil => simp at h
  | cons x l ih =>
      by_cases hx : x.Is buf size
      · exact ⟨[], x, l, rfl, hx, by simp⟩
      · obtain ⟨pre, e, post, rfl, he, hpre⟩ := ih (by simpa [hx] using h)
        exact ⟨x :: pre, e, post, rfl, he, List.forall_mem_cons.mpr ⟨hx, hpre⟩⟩

/-- The registrations that a list counts. -/
def registrations (l : List MemToFd) : ℤ := (l.map MemToFd.refcount).sum

theorem registrations_append (l l' : List MemToFd) :
    registrations (l ++ l') = registrations l + registrations l' := by
  simp [registrations]

theorem registrations_cons (e : MemToFd) (l : List MemToFd) :
    registrations (e :: l) = e.refcount + registrations l := by
  simp [registrations]

/-- A list that took back a registration counts one less. -/
theorem registrations_drop (pre post : List MemToFd) (e : MemToFd) :
    registrations (if e.refcount = 1 then pre ++ post else pre ++ e.drop :: post) =
      registrations (pre ++ e :: post) - 1 := by
  split_ifs with hone <;>
    simp only [registrations_append, registrations_cons, MemToFd.drop] <;> omega

theorem TakesBack.registrations_eq {r : Option (Except RegisterError Unit × List MemToFd)}
    (h : TakesBack l buf size r) (hex : ∃ e ∈ l, e.Is buf size) :
    ∃ res l', r = some (res, l') ∧ registrations l' = registrations l - 1 := by
  obtain ⟨pre, e, post, res, rfl, _, hr⟩ := h.drops hex
  exact ⟨res, _, hr, registrations_drop pre post e⟩

theorem FirstIs.mem (h : FirstIs l buf size pre e post) : e ∈ l := by
  obtain ⟨rfl, _⟩ := h
  simp

theorem FirstIs.unique {pre' post' : List MemToFd} {e' : MemToFd}
    (h : FirstIs l buf size pre e post) (h' : FirstIs l buf size pre' e' post') :
    pre = pre' ∧ e = e' ∧ post = post' := by
  obtain ⟨rfl, he, hpre⟩ := h
  obtain ⟨heq, he', hpre'⟩ := h'
  induction pre generalizing pre' with
  | nil =>
      cases pre' with
      | nil =>
          obtain ⟨rfl, rfl⟩ := List.cons.inj heq
          exact ⟨rfl, rfl, rfl⟩
      | cons y ys =>
          obtain ⟨rfl, _⟩ := List.cons.inj heq
          exact absurd he (hpre' e List.mem_cons_self)
  | cons x xs ih =>
      cases pre' with
      | nil =>
          obtain ⟨rfl, _⟩ := List.cons.inj heq
          exact absurd he' (hpre x List.mem_cons_self)
      | cons y ys =>
          obtain ⟨rfl, htail⟩ := List.cons.inj heq
          obtain ⟨rfl, rfl, rfl⟩ := ih (List.forall_mem_cons.mp hpre).2 htail
            (List.forall_mem_cons.mp hpre').2
          exact ⟨rfl, rfl, rfl⟩

/-- When a registration is taken back as it should: a refused call meets no entry of the address, and
otherwise the first entry of `(buf, size)`, if there is one, holds a registration, and it holds the last
one or stands behind no other entry of the address. -/
def DropsRight (l : List MemToFd) (init : Bool) (buf size : ℕ) : Prop :=
  if init = true ∧ buf ≠ 0 ∧ size ≠ 0 then
    ∀ pre e post, FirstIs l buf size pre e post →
      1 ≤ e.refcount ∧ (e.refcount = 1 ∨ ∀ x ∈ pre, x.buf ≠ buf)
  else ∀ e ∈ l, e.buf ≠ buf

variable {init allocated : Bool} {attr : UInt32}

theorem deregister_refused (l : List MemToFd) (allocated : Bool) (attr : UInt32)
    (h : ¬ (init = true ∧ buf ≠ 0 ∧ size ≠ 0)) :
    ∃ err, remoteRegisterBufCommon l init allocated buf size (-1) attr = some (.error err, l) := by
  by_cases hinit : init = true
  · by_cases hbuf : buf = 0
    · exact ⟨.EBADPARM, by simp [remoteRegisterBufCommon, hinit, hbuf]⟩
    · have hsize : size = 0 := by simpa [hinit, hbuf] using h
      exact ⟨.EBADPARM, by simp [remoteRegisterBufCommon, hinit, hbuf, hsize]⟩
  · exact ⟨.init, by simp [remoteRegisterBufCommon, hinit]⟩

theorem deregister_admitted (h : init = true ∧ buf ≠ 0 ∧ size ≠ 0) :
    remoteRegisterBufCommon l init allocated buf size (-1) attr =
      if (dropRef buf size l false).2.1 = none ∧ (dropRef buf size l false).2.2 = true then none
      else some (.ok (), (dropRef buf size l false).1) := by
  obtain ⟨rfl, hbuf, hsize⟩ := h
  simp [remoteRegisterBufCommon, hbuf, hsize]

theorem takesBack_refused (h : ¬ (init = true ∧ buf ≠ 0 ∧ size ≠ 0)) :
    TakesBack l buf size (remoteRegisterBufCommon l init allocated buf size (-1) attr) ↔
      ∀ e ∈ l, e.buf ≠ buf := by
  obtain ⟨err, hr⟩ := deregister_refused l allocated attr h
  rw [hr]
  constructor
  · intro hback e he hbuf
    by_cases hex : ∃ e ∈ l, e.Is buf size
    · obtain ⟨res, l', heq, hsum⟩ := hback.registrations_eq hex
      obtain ⟨rfl, rfl⟩ := Prod.mk.inj (Option.some.inj heq)
      omega
    · push Not at hex
      cases hback.aborts hex ⟨e, he, hbuf⟩
  · intro habsent
    exact ⟨fun ⟨e, he, his⟩ => absurd his.1 (habsent e he),
      fun _ ⟨e, he, hbuf⟩ => absurd hbuf (habsent e he), fun _ => ⟨_, rfl⟩⟩

theorem deregister_absent (h : init = true ∧ buf ≠ 0 ∧ size ≠ 0) (hnone : ∀ e ∈ l, ¬ e.Is buf size) :
    remoteRegisterBufCommon l init allocated buf size (-1) attr =
      if ∃ e ∈ l, e.buf = buf then none else some (.ok (), l) := by
  simp [deregister_admitted h, dropRef_absent hnone]

theorem deregister_first (h : init = true ∧ buf ≠ 0 ∧ size ≠ 0)
    (hfirst : FirstIs l buf size pre e post) :
    remoteRegisterBufCommon l init allocated buf size (-1) attr =
      if wrap (e.refcount - 1) ≤ 0 then some (.ok (), pre ++ post)
      else if ∃ x ∈ pre, x.buf = buf then none
      else some (.ok (), pre ++ { e with refcount := wrap (e.refcount - 1) } :: post) := by
  rw [deregister_admitted h, dropRef_first hfirst]
  by_cases hcount : wrap (e.refcount - 1) ≤ 0 <;> simp [hcount]

theorem wrap_pred {z : ℤ} (hpos : 1 ≤ z) (hint : z < 2 ^ 31) : wrap (z - 1) = z - 1 :=
  wrap_of_inRange (inRange_of_nonneg (by omega) (by rw [intMax_eq]; omega))

theorem takesBack_absent (h : init = true ∧ buf ≠ 0 ∧ size ≠ 0) (hnone : ∀ e ∈ l, ¬ e.Is buf size) :
    TakesBack l buf size (remoteRegisterBufCommon l init allocated buf size (-1) attr) := by
  rw [deregister_absent h hnone]
  refine ⟨fun ⟨e, he, his⟩ => absurd his (hnone e he), fun _ hbuf => if_pos hbuf, fun hkeep => ?_⟩
  exact ⟨.ok (), if_neg (fun ⟨e, he, hbuf⟩ => hkeep e he hbuf)⟩

/-- Whether the pass does as it should is decided at the first entry of `(buf, size)`. -/
theorem takesBack_first (h : init = true ∧ buf ≠ 0 ∧ size ≠ 0) (hfirst : FirstIs l buf size pre e post)
    (hint : e.refcount < 2 ^ 31) :
    TakesBack l buf size (remoteRegisterBufCommon l init allocated buf size (-1) attr) ↔
      1 ≤ e.refcount ∧ (e.refcount = 1 ∨ ∀ x ∈ pre, x.buf ≠ buf) := by
  have hex : ∃ e ∈ l, e.Is buf size := ⟨e, hfirst.mem, hfirst.2.1⟩
  rw [deregister_first h hfirst]
  constructor
  · intro hback
    obtain ⟨res, l', heq, hsum⟩ := hback.registrations_eq hex
    rw [hfirst.1, registrations_append, registrations_cons] at hsum
    split_ifs at heq with hcount hpassed
    · obtain ⟨rfl, rfl⟩ := Prod.mk.inj (Option.some.inj heq)
      rw [registrations_append] at hsum
      have hone : e.refcount = 1 := by omega
      exact ⟨hone.ge, .inl hone⟩
    · obtain ⟨rfl, rfl⟩ := Prod.mk.inj (Option.some.inj heq)
      rw [registrations_append, registrations_cons] at hsum
      have hpos : 1 ≤ e.refcount := by dsimp only at hsum; omega
      exact ⟨hpos, .inr fun x hx hbuf => hpassed ⟨x, hx, hbuf⟩⟩
  · rintro ⟨hpos, hone⟩
    refine ⟨fun _ => ⟨pre, e, post, .ok (), hfirst.1, hfirst.2.1, ?_⟩, fun hnone => ?_, fun hkeep => ?_⟩
    · rw [wrap_pred hpos hint]
      by_cases hlast : e.refcount = 1
      · simp [hlast]
      · have hpre : ¬ ∃ x ∈ pre, x.buf = buf := by simpa [hlast] using hone
        rw [if_neg (by omega), if_neg hpre, if_neg hlast]
        rfl
    · exact absurd hfirst.2.1 (hnone e hfirst.mem)
    · exact absurd hfirst.2.1.1 (hkeep e hfirst.mem)

/-- **Taking back a registration does as it should exactly under `DropsRight`.** -/
theorem deregister_takesBack (l : List MemToFd) (init allocated : Bool) (buf size : ℕ) (attr : UInt32)
    (hint : ∀ e ∈ l, e.refcount < 2 ^ 31) :
    TakesBack l buf size (remoteRegisterBufCommon l init allocated buf size (-1) attr) ↔
      DropsRight l init buf size := by
  unfold DropsRight
  split_ifs with h
  · by_cases hex : ∃ e ∈ l, e.Is buf size
    · obtain ⟨pre, e, post, hfirst⟩ := exists_first hex
      rw [takesBack_first h hfirst (hint e hfirst.mem)]
      constructor
      · intro hcond pre' e' post' hfirst'
        obtain ⟨rfl, rfl, rfl⟩ := hfirst.unique hfirst'
        exact hcond
      · exact fun hall => hall pre e post hfirst
    · push Not at hex
      refine iff_of_true (takesBack_absent h hex) fun pre e post hfirst => ?_
      exact absurd hfirst.2.1 (hex e hfirst.mem)
  · exact takesBack_refused h

/-- The last registration of the only buffer. -/
theorem deregister_takesBack_last :
    TakesBack [⟨0x1000, 64, 5, 0, 0, 1⟩] 0x1000 64
      (remoteRegisterBufCommon [⟨0x1000, 64, 5, 0, 0, 1⟩] true true 0x1000 64 (-1) 0) := by
  refine (deregister_takesBack _ true true 0x1000 64 0 (by simp)).mpr ?_
  refine (if_pos (by decide)).mpr fun pre e post hfirst => ?_
  obtain rfl := List.mem_singleton.mp hfirst.mem
  exact ⟨le_rfl, .inl rfl⟩

/-- The process is aborted although the buffer is registered with this size, and with a registration
left. -/
theorem deregister_aborts_on_match :
    let l : List MemToFd := [⟨0x1000, 32, 4, 0, 0, 1⟩, ⟨0x1000, 64, 5, 0, 0, 2⟩]
    remoteRegisterBufCommon l true true 0x1000 64 (-1) 0 = none ∧
      ¬ TakesBack l 0x1000 64 (remoteRegisterBufCommon l true true 0x1000 64 (-1) 0) := by
  intro l
  have habort : remoteRegisterBufCommon l true true 0x1000 64 (-1) 0 = none := by decide
  refine ⟨habort, fun hback => ?_⟩
  obtain ⟨res, l', heq, _⟩ := hback.registrations_eq ⟨⟨0x1000, 64, 5, 0, 0, 2⟩, by decide, by decide⟩
  rw [habort] at heq
  cases heq

end Deregister

/-! ### Finding the buffer of a call -/

section Lookup

variable {l : List MemToFd} {buf len : ℕ} {r : FdInfo}

/-- The address lies in the region. -/
def MemToFd.Covers (e : MemToFd) (addr : ℕ) : Prop := e.buf ≤ addr ∧ addr < e.buf + e.size

instance (e : MemToFd) (addr : ℕ) : Decidable (e.Covers addr) := inferInstanceAs (Decidable (_ ∧ _))

/-- The region contains the buffer. -/
def MemToFd.Contains (e : MemToFd) (buf len : ℕ) : Prop :=
  e.buf ≤ buf ∧ buf + len ≤ e.buf + e.size

/-- What a lookup that ends at this region reports. -/
def MemToFd.info (e : MemToFd) : FdInfo := ⟨e.nova, e.buf, e.attr, e.fd⟩

/-- What the lookup of a buffer should do; `r` is `none` for an error. -/
structure Finds (l : List MemToFd) (buf len : ℕ) (r : Option FdInfo) : Prop where
  contained : (∃ e ∈ l, e.Contains buf len) → ∃ e ∈ l, e.Contains buf len ∧ r = some e.info
  apart : (∀ e ∈ l, ∀ addr, buf ≤ addr → addr < buf + len → ¬ e.Covers addr) →
    ∃ info, r = some info ∧ info.fd = -1

/-- The address that the lookup takes for the last of the buffer. -/
def lastAddr (buf len : ℕ) : ℕ := sizeT (buf + wrap len - 1)

/-- When a buffer is found as it should: no region contains it, or the first region that covers its start
also covers the address taken for its last, and reports what a region that contains it reports. -/
def FoundRight (l : List MemToFd) (buf len : ℕ) : Prop :=
  (∃ e ∈ l, e.Contains buf len) → ∃ e, l.find? (fun e => e.Covers buf) = some e ∧
    e.Covers (lastAddr buf len) ∧ ∃ x ∈ l, x.Contains buf len ∧ x.info = e.info

theorem sizeT_lt (z : ℤ) : sizeT z < 2 ^ 64 := by
  unfold sizeT
  omega

theorem stdBetween_iff {e : MemToFd} {addr : ℕ} (hsize : e.size < 2 ^ 64) (hbuf : e.buf < 2 ^ 64)
    (haddr : addr < 2 ^ 64) :
    stdBetween addr e.buf ((e.buf + e.size) % 2 ^ 64) = true ↔ e.Covers addr := by
  simp only [stdBetween, MemToFd.Covers, decide_eq_true_eq]
  omega

theorem fdFromBufLoop_cons {e : MemToFd} {last : ℕ} (he : e.buf < 2 ^ 64 ∧ e.size < 2 ^ 64)
    (hbuf : buf < 2 ^ 64) (hlast : last < 2 ^ 64) (hr : r.fd = -1) :
    fdFromBufLoop buf last (e :: l) r =
      if e.Covers buf then if e.Covers last then fdFromBufLoop buf last l e.info else none
      else fdFromBufLoop buf last l r := by
  rw [fdFromBufLoop, if_neg (not_not.mpr hr)]
  simp only [stdBetween_iff he.2 he.1 hbuf, stdBetween_iff he.2 he.1 hlast]
  rfl

theorem fdFromBufLoop_found {last : ℕ} (hr : r.fd ≠ -1) : fdFromBufLoop buf last l r = some r := by
  cases l with
  | nil => rfl
  | cons e l => exact if_pos hr

/-- The lookup is decided at the first region that covers the start. -/
theorem fdFromBufLoop_eq {last : ℕ} (hl : ∀ e ∈ l, e.buf < 2 ^ 64 ∧ e.size < 2 ^ 64 ∧ e.fd ≠ -1)
    (hbuf : buf < 2 ^ 64) (hlast : last < 2 ^ 64) (hr : r.fd = -1) :
    fdFromBufLoop buf last l r = match l.find? (fun e => e.Covers buf) with
      | none => some r
      | some e => if e.Covers last then some e.info else none := by
  induction l with
  | nil => rfl
  | cons e l ih =>
      obtain ⟨⟨hebuf, hesize, hefd⟩, hl⟩ := List.forall_mem_cons.mp hl
      rw [fdFromBufLoop_cons ⟨hebuf, hesize⟩ hbuf hlast hr]
      by_cases hcovers : e.Covers buf
      · rw [if_pos hcovers, List.find?_cons_of_pos (by simpa using hcovers),
          fdFromBufLoop_found (show e.info.fd ≠ -1 from hefd)]
      · rw [if_neg hcovers, List.find?_cons_of_neg (by simpa using hcovers), ih hl]

theorem MemToFd.Contains.covers {e : MemToFd} (h : e.Contains buf len) (hlen : 0 < len) :
    e.Covers buf := by
  obtain ⟨hlo, hhi⟩ := h
  exact ⟨hlo, by omega⟩

theorem fdlistFdFromBuf_eq (hl : ∀ e ∈ l, e.buf < 2 ^ 64 ∧ e.size < 2 ^ 64 ∧ e.fd ≠ -1)
    (hbuf : buf < 2 ^ 64) :
    fdlistFdFromBuf l buf (wrap len) = match l.find? (fun e => e.Covers buf) with
      | none => some ⟨0, 0, 0, -1⟩
      | some e => if e.Covers (lastAddr buf len) then some e.info else none :=
  fdFromBufLoop_eq hl hbuf (sizeT_lt _) rfl

/-- **A buffer is found as it should be exactly under `FoundRight`.** -/
theorem lookup_finds (l : List MemToFd) (buf len : ℕ)
    (hl : ∀ e ∈ l, e.buf < 2 ^ 64 ∧ e.size < 2 ^ 64 ∧ e.fd ≠ -1) (hbuf : buf < 2 ^ 64)
    (hlen : 0 < len) :
    Finds l buf len (fdlistFdFromBuf l buf (wrap len)) ↔ FoundRight l buf len := by
  rw [fdlistFdFromBuf_eq hl hbuf]
  constructor
  · rintro ⟨hcontained, _⟩ hex
    obtain ⟨x, hx, hcontains, hinfo⟩ := hcontained hex
    cases hfirst : l.find? (fun e => e.Covers buf) with
    | none =>
        exact absurd (hcontains.covers hlen) (by simpa using List.find?_eq_none.mp hfirst x hx)
    | some e =>
        rw [hfirst] at hinfo
        obtain ⟨hlast, heq⟩ := Option.ite_none_right_eq_some.mp hinfo
        exact ⟨e, rfl, hlast, x, hx, hcontains, (Option.some.inj heq).symm⟩
  · intro hright
    refine ⟨fun hex => ?_, fun hapart => ?_⟩
    · obtain ⟨e, hfirst, hlast, x, hx, hcontains, hinfo⟩ := hright hex
      refine ⟨x, hx, hcontains, ?_⟩
      rw [hfirst, hinfo]
      exact if_pos hlast
    · have hnone : l.find? (fun e => e.Covers buf) = none :=
        List.find?_eq_none.mpr fun e he => by simpa using hapart e he buf le_rfl (by omega)
      rw [hnone]
      exact ⟨_, rfl, rfl⟩

/-- A buffer inside the only region. -/
theorem lookup_finds_inside :
    Finds [⟨0x1000, 64, 5, 0, 0, 1⟩] 0x1010 16
      (fdlistFdFromBuf [⟨0x1000, 64, 5, 0, 0, 1⟩] 0x1010 (wrap 16)) :=
  (lookup_finds _ 0x1010 16 (by decide) (by decide) (by decide)).mpr fun _ =>
    ⟨⟨0x1000, 64, 5, 0, 0, 1⟩, by decide, by decide, ⟨0x1000, 64, 5, 0, 0, 1⟩,
      List.mem_singleton_self _, ⟨by decide, by decide⟩, rfl⟩

/-- A buffer of two gibibytes that is a whole region is refused. -/
theorem lookup_refuses_large :
    let l : List MemToFd := [⟨0x1000, 2 ^ 31, 5, 0, 0, 1⟩]
    fdlistFdFromBuf l 0x1000 (wrap (2 ^ 31)) = none ∧
      ¬ Finds l 0x1000 (2 ^ 31) (fdlistFdFromBuf l 0x1000 (wrap (2 ^ 31 : ℕ))) := by
  intro l
  have hnone : fdlistFdFromBuf l 0x1000 (wrap (2 ^ 31 : ℕ)) = none := by decide
  refine ⟨hnone, fun hfinds => ?_⟩
  obtain ⟨e, _, _, hinfo⟩ := hfinds.contained ⟨_, List.mem_singleton_self _, ⟨le_rfl, le_rfl⟩⟩
  rw [hnone] at hinfo
  cases hinfo

end Lookup

end FastRpc.FdList
