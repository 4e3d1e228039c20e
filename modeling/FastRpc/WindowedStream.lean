import FastRpc.ByteStore

/-! # Streams seen through a window

A stream is a sequence of pieces, bytes or gaps; `content` gives its byte at every position, if it
has one.  A `Window` is a block of memory that shows the positions from `offset` to
`offset + len` of a stream: position `q` is at address `base + q`.  Writing a stream through a
window (`render`) changes only the block and puts there the bytes of the stream that fall into it
(`render_apply`); reading through it (`get`) is the dual. -/

namespace WindowedStream

open ByteStore

/-! ### Streams -/

/-- A piece of a stream: bytes, or positions that are skipped. -/
inductive Piece
  | bytes (bs : List UInt8)
  | gap (n : ℕ)

/-- The number of positions that a piece takes. -/
def Piece.size : Piece → ℕ
  | bytes bs => bs.length
  | gap n => n

/-- The number of positions that a stream takes. -/
def size (ps : List Piece) : ℕ := (ps.map Piece.size).sum

/-- The byte at a position, unless it is in a gap or behind the end. -/
def content : List Piece → ℕ → Option UInt8
  | [], _ => none
  | .bytes bs :: ps, q => if q < bs.length then bs[q]? else content ps (q - bs.length)
  | .gap n :: ps, q => if q < n then none else content ps (q - n)

@[simp] theorem size_nil : size [] = 0 := rfl

@[simp] theorem size_cons (x : Piece) (ps : List Piece) : size (x :: ps) = x.size + size ps := by
  simp [size]

theorem size_append (ps qs : List Piece) : size (ps ++ qs) = size ps + size qs := by
  simp [size]

theorem content_none {ps : List Piece} {q : ℕ} (h : size ps ≤ q) : content ps q = none := by
  induction ps generalizing q with
  | nil => rfl
  | cons x ps ih =>
      rw [size_cons] at h
      cases x with
      | bytes bs =>
          simp only [Piece.size] at h
          rw [content, if_neg (by omega), ih (by omega)]
      | gap n =>
          simp only [Piece.size] at h
          rw [content, if_neg (by omega), ih (by omega)]

/-! ### Windows -/

/-- A block of memory, and how far into the stream it starts. -/
structure Window where
  offset : ℕ
  data : ℕ
  len : ℕ
  offset_le : offset ≤ data

namespace Window

variable (w : Window)

/-- The address of position `0`. -/
def base : ℕ := w.data - w.offset

/-- The address is in the block. -/
def Inside (x : ℕ) : Prop := w.data ≤ x ∧ x < w.data + w.len

instance (x : ℕ) : Decidable (w.Inside x) := inferInstanceAs (Decidable (_ ∧ _))

/-- Write bytes at position `p` of the stream, as far as they fall into the block. -/
def put (m : Store) (p : ℕ) (bs : List UInt8) : Store :=
  fun x => if w.Inside x then write m (w.base + p) bs x else m x

/-- Read from position `p` of the stream into `dst`, as far as the bytes fall into the block. -/
def get (m : Store) (p : ℕ) (dst : List UInt8) : List UInt8 :=
  dst.mapIdx (fun i d => if w.Inside (w.base + p + i) then m (w.base + p + i) else d)

/-- Write a stream from position `p` on. -/
def render : Store → ℕ → List Piece → Store
  | m, _, [] => m
  | m, p, .bytes bs :: ps => render (w.put m p bs) (p + bs.length) ps
  | m, p, .gap n :: ps => render m (p + n) ps

variable {w}

theorem put_outside {m : Store} {p x : ℕ} {bs : List UInt8}
    (h : ¬ w.Inside x ∨ x < w.base + p ∨ w.base + p + bs.length ≤ x) : w.put m p bs x = m x := by
  unfold put
  split_ifs with hx
  · exact write_outside m bs (h.resolve_left (not_not_intro hx))
  · rfl

theorem put_inside {m : Store} {p i : ℕ} {bs : List UInt8} (hi : i < bs.length)
    (h : w.Inside (w.base + p + i)) : w.put m p bs (w.base + p + i) = bs[i] := by
  unfold put
  rw [if_pos h, write_inside m bs hi]

@[simp] theorem get_length (m : Store) (p : ℕ) (dst : List UInt8) :
    (w.get m p dst).length = dst.length := by
  simp [get]

/-! ### Clipping -/

/-- How many of the `n` bytes from position `p` on fall into the block. -/
def clipLen (w : Window) (p n : ℕ) : ℕ := min (p + n) (w.offset + w.len) - max p w.offset

theorem base_add_offset (w : Window) : w.base + w.offset = w.data := Nat.sub_add_cancel w.offset_le

/-- The bytes that fall into the block. -/
def clip (w : Window) (p : ℕ) (bs : List UInt8) : List UInt8 :=
  (bs.drop (w.offset - p)).take (w.clipLen p bs.length)

theorem clip_length (p : ℕ) (bs : List UInt8) : (w.clip p bs).length = w.clipLen p bs.length := by
  rw [clip, List.length_take, List.length_drop]
  unfold clipLen
  omega

theorem clip_getElem {p i : ℕ} {bs : List UInt8} (h : i < (w.clip p bs).length)
    (h' : w.offset - p + i < bs.length) : (w.clip p bs)[i] = bs[w.offset - p + i] := by
  simp only [clip, List.getElem_take, List.getElem_drop]

/-- A write through the window is a write of the bytes that fall into the block. -/
theorem put_eq_write (m : Store) (p : ℕ) (bs : List UInt8) :
    w.put m p bs = write m (w.base + max p w.offset) (w.clip p bs) := by
  have hbase := base_add_offset w
  have hlen := w.clip_length p bs
  unfold clipLen at hlen
  funext x
  by_cases hx : w.Inside x ∧ w.base + p ≤ x ∧ x < w.base + p + bs.length
  · obtain ⟨hin, hle, hlt⟩ := hx
    obtain ⟨i, rfl⟩ := Nat.exists_eq_add_of_le hle
    obtain ⟨hin₁, hin₂⟩ := hin
    have hi : i < bs.length := by omega
    have hj : i - (w.offset - p) < (w.clip p bs).length := by omega
    have hadd : w.base + p + i = w.base + max p w.offset + (i - (w.offset - p)) := by omega
    rw [put_inside hi ⟨hin₁, hin₂⟩, hadd, write_inside m _ hj, clip_getElem hj (by omega)]
    congr 1
    omega
  · have hout : ¬ w.Inside x ∨ x < w.base + p ∨ w.base + p + bs.length ≤ x := by
      by_contra h
      push Not at h
      exact hx h
    rw [put_outside hout, write_outside]
    unfold Inside at hout
    omega

/-- A read through the window replaces the bytes that fall into the block. -/
theorem get_eq_append (m : Store) (p : ℕ) (dst : List UInt8) :
    w.get m p dst = dst.take (w.offset - p) ++
      slice m (w.base + max p w.offset) (w.clipLen p dst.length) ++
      dst.drop (w.offset - p + w.clipLen p dst.length) := by
  have hbase := base_add_offset w
  have hn : w.clipLen p dst.length = min (p + dst.length) (w.offset + w.len) - max p w.offset := rfl
  apply List.ext_getElem
  · simp only [get_length, List.length_append, List.length_take, List.length_drop, slice_length]
    omega
  · intro i hi₁ hi₂
    rw [get_length] at hi₁
    simp only [get, List.getElem_mapIdx]
    have hin : w.Inside (w.base + p + i) ↔
        w.offset ≤ p + i ∧ p + i < w.offset + w.len := by
      unfold Inside
      omega
    rcases Nat.lt_or_ge i (w.offset - p) with hi | hi
    · rw [List.getElem_append_left (by simp; omega), List.getElem_append_left (by simp; omega),
        List.getElem_take, if_neg (by rw [hin]; omega)]
    · rcases Nat.lt_or_ge i (w.offset - p + w.clipLen p dst.length) with hj | hj
      · rw [List.getElem_append_left (by simp; omega), List.getElem_append_right (by simp; omega),
          slice_getElem, if_pos (by rw [hin]; omega)]
        congr 1
        simp
        omega
      · rw [List.getElem_append_right (by simp; omega), List.getElem_drop, if_neg (by rw [hin]; omega)]
        congr 1
        simp
        omega

theorem render_append (m : Store) (p : ℕ) (ps qs : List Piece) :
    w.render m p (ps ++ qs) = w.render (w.render m p ps) (p + size ps) qs := by
  induction ps generalizing m p with
  | nil => rfl
  | cons x ps ih =>
      cases x with
      | bytes bs => rw [List.cons_append, render, ih, render, size_cons, Piece.size, Nat.add_assoc]
      | gap n => rw [List.cons_append, render, ih, render, size_cons, Piece.size, Nat.add_assoc]

theorem render_before {m : Store} {p x : ℕ} {ps : List Piece} (h : x < w.base + p) :
    w.render m p ps x = m x := by
  induction ps generalizing m p with
  | nil => rfl
  | cons x ps ih =>
      cases x with
      | bytes bs =>
          rw [render, ih (by omega), put_outside (.inr (.inl h))]
      | gap n => rw [render, ih (by omega)]

/-- **What a stream leaves in memory**: its own bytes in the block, and nothing anywhere else. -/
theorem render_apply (m : Store) (p q : ℕ) (ps : List Piece) :
    w.render m p ps (w.base + p + q) =
      if w.Inside (w.base + p + q) then (content ps q).getD (m (w.base + p + q))
      else m (w.base + p + q) := by
  induction ps generalizing m p q with
  | nil => simp [render, content]
  | cons x ps ih =>
      cases x with
      | bytes bs =>
          rw [render, content]
          split_ifs with hin hq
          · rw [render_before (by omega), put_inside hq hin, List.getElem?_eq_getElem hq,
              Option.getD_some]
          · obtain ⟨r, rfl⟩ := Nat.exists_eq_add_of_le (Nat.le_of_not_lt hq)
            have hadd : w.base + p + (bs.length + r) = w.base + (p + bs.length) + r := by omega
            rw [hadd] at hin ⊢
            rw [ih, if_pos hin, put_outside (.inr (.inr (by omega))), Nat.add_sub_cancel_left]
          · rcases Nat.lt_or_ge q bs.length with hq | hq
            · rw [render_before (by omega), put_outside (.inl hin)]
            · obtain ⟨r, rfl⟩ := Nat.exists_eq_add_of_le hq
              have hadd : w.base + p + (bs.length + r) = w.base + (p + bs.length) + r := by omega
              rw [hadd] at hin ⊢
              rw [ih, if_neg hin, put_outside (.inl hin)]
      | gap n =>
          rw [render, content]
          rcases Nat.lt_or_ge q n with hq | hq
          · rw [render_before (by omega), if_pos hq, Option.getD_none, ite_self]
          · obtain ⟨r, rfl⟩ := Nat.exists_eq_add_of_le hq
            have hadd : w.base + p + (n + r) = w.base + (p + n) + r := by omega
            rw [hadd, ih, Nat.add_sub_cancel_left, if_neg (show ¬ n + r < n by omega)]

/-- Nothing outside the block changes. -/
theorem render_outside {m : Store} {p x : ℕ} {ps : List Piece} (h : ¬ w.Inside x) :
    w.render m p ps x = m x := by
  induction ps generalizing m p with
  | nil => rfl
  | cons y ps ih =>
      cases y with
      | bytes bs => rw [render, ih, put_outside (.inl h)]
      | gap n => rw [render, ih]

/-! ### Reading a stream back -/

/-- The block shows all the positions from `p` to `p + n`. -/
def Covers (w : Window) (p n : ℕ) : Prop := w.offset ≤ p ∧ p + n ≤ w.offset + w.len

theorem Covers.inside {p n i : ℕ} (h : w.Covers p n) (hi : i < n) : w.Inside (w.base + p + i) := by
  have hbase := w.base_add_offset
  obtain ⟨h₁, h₂⟩ := h
  unfold Inside
  omega

/-- A covered read gets the bytes of the memory. -/
theorem get_of_covers {m : Store} {p : ℕ} {dst : List UInt8} (h : w.Covers p dst.length) :
    w.get m p dst = slice m (w.base + p) dst.length := by
  apply List.ext_getElem
  · rw [get_length, slice_length]
  · intro i h₁ h₂
    rw [get_length] at h₁
    simp only [get, List.getElem_mapIdx]
    rw [if_pos (h.inside h₁), slice_getElem]

theorem slice_put (m : Store) {p : ℕ} (bs : List UInt8) (h : w.Covers p bs.length) :
    slice (w.put m p bs) (w.base + p) bs.length = bs := by
  apply List.ext_getElem
  · rw [slice_length]
  · intro i h₁ h₂
    rw [slice_getElem, put_inside h₂ (h.inside h₂)]

/-- The memory has the bytes of the stream, from position `p` on. -/
def Holds (w : Window) (m : Store) : ℕ → List Piece → Prop
  | _, [] => True
  | p, .bytes bs :: ps => slice m (w.base + p) bs.length = bs ∧ Holds w m (p + bs.length) ps
  | p, .gap n :: ps => Holds w m (p + n) ps

/-- `Holds` depends on the memory behind position `p` only. -/
theorem Holds.congr {m m' : Store} {p : ℕ} {ps : List Piece} (h : w.Holds m p ps)
    (hm : ∀ x, w.base + p ≤ x → m' x = m x) : w.Holds m' p ps := by
  induction ps generalizing p with
  | nil => trivial
  | cons x ps ih =>
      cases x with
      | bytes bs =>
          refine ⟨?_, ih h.2 (fun x hx => hm x (by omega))⟩
          rw [slice_congr (fun x hx _ => hm x hx), h.1]
      | gap n => exact ih (p := p + n) h (fun x hx => hm x (by omega))

theorem holds_append {m : Store} {p : ℕ} {ps qs : List Piece} :
    w.Holds m p (ps ++ qs) ↔ w.Holds m p ps ∧ w.Holds m (p + size ps) qs := by
  induction ps generalizing p with
  | nil => simp [Holds]
  | cons x ps ih =>
      cases x with
      | bytes bs =>
          simp only [List.cons_append, Holds, ih, size_cons, Piece.size, Nat.add_assoc, and_assoc]
      | gap n => simp only [List.cons_append, Holds, ih, size_cons, Piece.size, Nat.add_assoc]

/-- **A stream written through a window that covers it is there.** -/
theorem holds_render {m : Store} {p : ℕ} {ps : List Piece} (h : w.Covers p (size ps)) :
    w.Holds (w.render m p ps) p ps := by
  induction ps generalizing m p with
  | nil => trivial
  | cons x ps ih =>
      rw [size_cons] at h
      obtain ⟨h₁, h₂⟩ := h
      cases x with
      | bytes bs =>
          simp only [Piece.size] at h₂
          refine ⟨?_, ih ⟨by omega, by omega⟩⟩
          rw [render, slice_congr (fun x _ hx => render_before (by omega)),
            slice_put m bs ⟨h₁, by omega⟩]
      | gap n =>
          simp only [Piece.size] at h₂
          exact ih ⟨by omega, by omega⟩

end Window

end WindowedStream
