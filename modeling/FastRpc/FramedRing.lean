import FastRpc.ByteStore

/-! # Records in a byte ring with wrap holes

A ring of `Q` bytes holds a queue of variable-length records.  A record is written in one piece:
its encoding starts at a position that is a multiple of `8` and the next record starts at the
next multiple of `8`.  A record that does not fit before the end of the ring is written at
offset `0` instead; only its first `8` bytes (the header) are then repeated at the old position,
so that a reader finds the record's length there and comes to the same decision.

`Framing` is an encoding whose records all contain a header.  `Seg F m a b xs` says that the
records `xs` lie one after the other from `a` to `b`; `Layout F Q m r w xs` says that `xs` is
exactly what lies between the read position `r` and the write position `w`, in one of three
shapes: no wrap (`flat`), a record ending exactly at the end of the ring (`ended`), or a hole
in front of the end (`hole`).  The interface is `Layout.push_inline`, `Layout.push_wrapped`
(what a writer must do), `Layout.pop` (what a reader finds) and `Layout.congr` (only the unread
bytes matter). -/

namespace FramedRing

open ByteStore

/-- An encoding of records as byte strings that start with an `8`-byte header. -/
structure Framing (α : Type*) where
  enc : α → List UInt8
  header_le : ∀ x, 8 ≤ (enc x).length

/-- Positions are multiples of `8` inside the ring. -/
structure Positions (Q r w : ℕ) : Prop where
  ring_mod : Q % 8 = 0
  read_mod : r % 8 = 0
  write_mod : w % 8 = 0
  read_lt : r < Q
  write_lt : w < Q

/-- The byte at `i` lies between the read and the write position. -/
def Unread (Q r w i : ℕ) : Prop := if r ≤ w then r ≤ i ∧ i < w else (r ≤ i ∧ i < Q) ∨ i < w

/-- A position that has reached the end of the ring continues at `0`. -/
def wrapPos (Q p : ℕ) : ℕ := if Q ≤ p then 0 else p

theorem wrapPos_of_lt {Q p : ℕ} (h : p < Q) : wrapPos Q p = p := by
  rw [wrapPos, if_neg (by omega)]

theorem wrapPos_self (Q : ℕ) : wrapPos Q Q = 0 := by simp [wrapPos]

theorem wrapPos_lt {Q : ℕ} (p : ℕ) (hQ : 0 < Q) : wrapPos Q p < Q := by
  rw [wrapPos]; split_ifs <;> omega

theorem wrapPos_le {Q p : ℕ} (hp : p ≤ Q) : wrapPos Q p ≤ Q := by
  rw [wrapPos]; split_ifs <;> omega

theorem wrapPos_mod {Q p : ℕ} (hp : p % 8 = 0) : wrapPos Q p % 8 = 0 := by
  rw [wrapPos]; split_ifs <;> omega

theorem Positions.write {Q r w : ℕ} (h : Positions Q r w) {w' : ℕ} (hw : w' % 8 = 0) :
    Positions Q r (wrapPos Q w') :=
  ⟨h.ring_mod, h.read_mod, wrapPos_mod hw, h.read_lt,
    wrapPos_lt w' (Nat.zero_lt_of_lt h.read_lt)⟩

theorem Positions.read {Q r w : ℕ} (h : Positions Q r w) {r' : ℕ} (hr : r' % 8 = 0) :
    Positions Q (wrapPos Q r') w :=
  ⟨h.ring_mod, wrapPos_mod hr, h.write_mod, wrapPos_lt r' (Nat.zero_lt_of_lt h.read_lt),
    h.write_lt⟩

namespace Framing

variable {α : Type*} (F : Framing α)

/-- Bytes a record takes in the ring. -/
def span (x : α) : ℕ := alignUp 8 (F.enc x).length

theorem span_mod (x : α) : F.span x % 8 = 0 := alignUp_eight_mod _

theorem length_le_span (x : α) : (F.enc x).length ≤ F.span x := le_alignUp_eight _

theorem eight_le_span (x : α) : 8 ≤ F.span x := (F.header_le x).trans (F.length_le_span x)

/-- The records `xs` lie one after the other from `a` to `b`. -/
def Seg (m : Store) : ℕ → ℕ → List α → Prop
  | a, b, [] => a = b
  | a, b, x :: xs => slice m a (F.enc x).length = F.enc x ∧ Seg m (a + F.span x) b xs

/-- The queue of records between the read position `r` and the write position `w`. -/
inductive Layout (Q : ℕ) (m : Store) (r w : ℕ) : List α → Prop
  | flat {xs : List α} : r ≤ w → F.Seg m r w xs → Layout Q m r w xs
  | ended {xs ys : List α} : w < r → F.Seg m r Q xs → F.Seg m 0 w ys → Layout Q m r w (xs ++ ys)
  | hole {xs ys : List α} {y : α} {e : ℕ} : w < r → e < Q → Q < e + F.span y →
      slice m e 8 = (F.enc y).take 8 → F.Seg m r e xs → F.Seg m 0 w (y :: ys) →
      Layout Q m r w (xs ++ y :: ys)

variable {F} {Q r w : ℕ} {m m' : Store} {xs ys : List α}

/-! ### Segments -/

theorem Seg.le {a b : ℕ} (h : F.Seg m a b xs) : a ≤ b := by
  induction xs generalizing a with
  | nil => exact le_of_eq h
  | cons x xs ih => exact (Nat.le_add_right a (F.span x)).trans (ih h.2)

theorem Seg.mod {a b : ℕ} (h : F.Seg m a b xs) (ha : a % 8 = 0) : b % 8 = 0 := by
  induction xs generalizing a with
  | nil => rw [← show a = b from h]; exact ha
  | cons x xs ih =>
      have hs := F.span_mod x
      exact ih h.2 (by omega)

theorem Seg.append {a b c : ℕ} (h₁ : F.Seg m a b xs) (h₂ : F.Seg m b c ys) :
    F.Seg m a c (xs ++ ys) := by
  induction xs generalizing a with
  | nil => rw [show a = b from h₁]; exact h₂
  | cons x xs ih => exact ⟨h₁.1, ih h₁.2⟩

theorem Seg.single {a : ℕ} {x : α} (h : slice m a (F.enc x).length = F.enc x) :
    F.Seg m a (a + F.span x) [x] := ⟨h, rfl⟩

/-- Only the bytes of the segment matter. -/
theorem Seg.congr {a b : ℕ} (h : F.Seg m a b xs) (hm : ∀ i, a ≤ i → i < b → m' i = m i) :
    F.Seg m' a b xs := by
  induction xs generalizing a with
  | nil => exact h
  | cons x xs ih =>
      have hle := Seg.le h.2
      have hl := F.length_le_span x
      refine ⟨?_, ih h.2 (fun i h1 h2 => hm i (by omega) h2)⟩
      rw [slice_congr (fun i h1 h2 => hm i h1 (by omega))]
      exact h.1

theorem Seg.eq_nil {a : ℕ} (h : F.Seg m a a xs) : xs = [] := by
  cases xs with
  | nil => rfl
  | cons x xs =>
      have h1 := Seg.le h.2
      have h2 := F.eight_le_span x
      omega

/-! ### Layouts -/

namespace Layout

/-- Only the unread bytes matter. -/
theorem congr (h : F.Layout Q m r w xs) (hQ : Q % 8 = 0) (hr8 : r % 8 = 0)
    (hm : ∀ i, Unread Q r w i → m' i = m i) : F.Layout Q m' r w xs := by
  cases h with
  | flat hrw hs =>
      exact .flat hrw (Seg.congr hs (fun i h1 h2 => hm i (by rw [Unread, if_pos hrw]; exact ⟨h1, h2⟩)))
  | ended hwr h1 h2 =>
      have hu : ∀ i, (r ≤ i ∧ i < Q) ∨ i < w → m' i = m i := fun i hi =>
        hm i (by rw [Unread, if_neg (by omega)]; exact hi)
      exact .ended hwr (Seg.congr h1 (fun i ha hb => hu i (.inl ⟨ha, hb⟩)))
        (Seg.congr h2 (fun i _ hb => hu i (.inr hb)))
  | @hole xs ys y e hwr he hf hc h1 h2 =>
      have hu : ∀ i, (r ≤ i ∧ i < Q) ∨ i < w → m' i = m i := fun i hi =>
        hm i (by rw [Unread, if_neg (by omega)]; exact hi)
      have hre := Seg.le h1
      have he8 := Seg.mod h1 hr8
      refine .hole hwr he hf ?_ (Seg.congr h1 (fun i ha hb => hu i (.inl ⟨ha, by omega⟩)))
        (Seg.congr h2 (fun i _ hb => hu i (.inr hb)))
      rw [slice_congr (fun i ha hb => hu i (.inl ⟨by omega, by omega⟩))]
      exact hc

/-- The queue is empty exactly when the positions coincide. -/
theorem eq_nil_iff (h : F.Layout Q m r w xs) (hr : r < Q) : xs = [] ↔ r = w := by
  cases h with
  | flat hrw hs =>
      constructor
      · rintro rfl; exact hs
      · rintro rfl; exact Seg.eq_nil hs
  | @ended xs ys hwr h1 h2 =>
      constructor
      · intro he
        rw [(List.append_eq_nil_iff.mp he).1] at h1
        rw [show r = Q from h1] at hr
        exact absurd hr (lt_irrefl Q)
      · intro he; omega
  | @hole xs ys y e hwr _ _ _ _ _ =>
      constructor
      · intro he; simp at he
      · intro he; omega

/-- Appending a record at the write position. -/
theorem push_inline {x : α} (h : F.Layout Q m r w xs) (hp : Positions Q r w)
    (hfit : w + F.span x ≤ Q)
    (hroom : (r ≤ w ∧ (w + F.span x < Q ∨ 0 < r)) ∨ w + F.span x < r)
    (hx : slice m' w (F.enc x).length = F.enc x) (hm : ∀ i, Unread Q r w i → m' i = m i) :
    F.Layout Q m' r (wrapPos Q (w + F.span x)) (xs ++ [x]) := by
  have h' := h.congr hp.ring_mod hp.read_mod hm
  have hs := Seg.single hx
  cases h' with
  | flat hrw h1 =>
      rcases Nat.lt_or_ge (w + F.span x) Q with hlt | hge
      · rw [wrapPos_of_lt hlt]
        exact .flat (by omega) (Seg.append h1 hs)
      · have hend : w + F.span x = Q := le_antisymm hfit hge
        rw [hend] at hs ⊢
        rw [wrapPos_self]
        have hr0 : 0 < r := by
          rcases hroom with ⟨_, h2 | h2⟩ | h2 <;> omega
        have hempty : F.Seg m' 0 0 [] := rfl
        simpa using Layout.ended hr0 (Seg.append h1 hs) hempty
  | @ended xs ys hwr h1 h2 =>
      have := hp.read_lt
      rw [wrapPos_of_lt (by omega), List.append_assoc]
      exact .ended (by omega) h1 (Seg.append h2 hs)
  | @hole xs ys y e hwr he hf hc h1 h2 =>
      have := hp.read_lt
      rw [wrapPos_of_lt (by omega), List.append_assoc, List.cons_append]
      exact .hole (by omega) he hf hc h1 (Seg.append h2 hs)

/-- Moving a record that does not fit before the end to offset `0`, its header repeated. -/
theorem push_wrapped {x : α} (h : F.Layout Q m r w xs) (hp : Positions Q r w)
    (hfit : Q < w + F.span x) (hroom : r ≤ w ∧ F.span x < r)
    (hx : slice m' 0 (F.enc x).length = F.enc x) (hh : slice m' w 8 = (F.enc x).take 8)
    (hm : ∀ i, Unread Q r w i → m' i = m i) : F.Layout Q m' r (F.span x) (xs ++ [x]) := by
  have h' := h.congr hp.ring_mod hp.read_mod hm
  have hs := Seg.single hx
  rw [Nat.zero_add] at hs
  cases h' with
  | flat hrw h1 => exact .hole hroom.2 hp.write_lt hfit hh h1 hs
  | ended hwr h1 h2 => omega
  | hole hwr he hf hc h1 h2 => omega

/-- What a reader finds at the read position: a whole record there, or the header of a record
that lies at offset `0`; and what is left behind it. -/
theorem pop {x : α} (h : F.Layout Q m r w (x :: xs)) (hp : Positions Q r w) :
    (r + F.span x ≤ Q ∧ slice m r (F.enc x).length = F.enc x ∧
      F.Layout Q m (wrapPos Q (r + F.span x)) w xs) ∨
    (Q < r + F.span x ∧ slice m r 8 = (F.enc x).take 8 ∧
      slice m 0 (F.enc x).length = F.enc x ∧ w < r ∧ F.span x ≤ w ∧
      F.Layout Q m (F.span x) w xs) := by
  generalize hl : x :: xs = l at h
  have hwQ := hp.write_lt
  have hrQ := hp.read_lt
  cases h with
  | flat hrw h1 =>
      subst hl
      have hle := Seg.le h1.2
      rw [wrapPos_of_lt (by omega)]
      exact .inl ⟨by omega, h1.1, .flat hle h1.2⟩
  | @ended as bs hwr h1 h2 =>
      cases as with
      | nil => rw [show r = Q from h1] at hrQ; exact absurd hrQ (lt_irrefl Q)
      | cons a as =>
          obtain ⟨rfl, rfl⟩ := List.cons.inj hl
          have hle := Seg.le h1.2
          refine .inl ⟨hle, h1.1, ?_⟩
          rcases Nat.lt_or_ge (r + F.span x) Q with hlt | hge
          · rw [wrapPos_of_lt hlt]
            exact .ended (by omega) h1.2 h2
          · have hend : r + F.span x = Q := le_antisymm hle hge
            rw [hend, wrapPos_self]
            have hnil := h1.2
            rw [hend] at hnil
            obtain rfl := Seg.eq_nil hnil
            exact .flat (Nat.zero_le w) h2
  | @hole as bs y e hwr he hf hc h1 h2 =>
      cases as with
      | nil =>
          obtain ⟨rfl, rfl⟩ := List.cons.inj hl
          have hre : r = e := h1
          subst hre
          have hle := Seg.le h2.2
          rw [Nat.zero_add] at hle
          refine .inr ⟨hf, hc, h2.1, hwr, hle, ?_⟩
          have h3 := h2.2
          rw [Nat.zero_add] at h3
          exact .flat hle h3
      | cons a as =>
          obtain ⟨rfl, rfl⟩ := List.cons.inj hl
          have hle := Seg.le h1.2
          rw [wrapPos_of_lt (by omega)]
          exact .inl ⟨by omega, h1.1, .hole (by omega) he hf hc h1.2 h2⟩

end Layout

end Framing

end FramedRing
