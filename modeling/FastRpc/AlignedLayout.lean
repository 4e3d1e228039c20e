import FastRpc.ByteStore

/-! # Regions placed one after the other

A block of memory is divided into regions: `place k o sizes` puts a region of each size at the next
offset from `o` on, and rounds every size up to a multiple of `k` to find the offset behind it.  The
regions are aligned when the first one is, they are disjoint, and together they need `extent k sizes`
bytes. -/

namespace AlignedLayout

open ByteStore

/-- A region of a block. -/
structure Region where
  offset : ℕ
  size : ℕ
  deriving DecidableEq, Repr

/-- No byte lies in both regions. -/
def Region.Disjoint (a b : Region) : Prop :=
  a.offset + a.size ≤ b.offset ∨ b.offset + b.size ≤ a.offset

/-- The region lies in a block of `n` bytes. -/
def Region.Inside (n : ℕ) (a : Region) : Prop := a.offset + a.size ≤ n

/-- Regions of these sizes, each behind the one before it. -/
def place (k : ℕ) : ℕ → List ℕ → List Region
  | _, [] => []
  | o, size :: sizes => ⟨o, size⟩ :: place k (o + alignUp k size) sizes

/-- The bytes that the regions need. -/
def extent (k : ℕ) (sizes : List ℕ) : ℕ := (sizes.map (alignUp k)).sum

theorem dvd_alignUp (k n : ℕ) : k ∣ alignUp k n := Nat.dvd_mul_left k _

theorem le_alignUp {k : ℕ} (hk : 0 < k) (n : ℕ) : n ≤ alignUp k n := by
  have hdiv := Nat.div_add_mod (n + (k - 1)) k
  have hmod := Nat.mod_lt (n + (k - 1)) hk
  unfold alignUp
  rw [Nat.mul_comm]
  omega

variable {k o : ℕ} {sizes : List ℕ}

theorem place_aligned (ho : k ∣ o) : ∀ r ∈ place k o sizes, k ∣ r.offset := by
  induction sizes generalizing o with
  | nil => exact fun r hr => absurd hr List.not_mem_nil
  | cons size sizes ih =>
      intro r hr
      obtain rfl | hr := List.mem_cons.mp hr
      · exact ho
      · exact ih (Nat.dvd_add ho (dvd_alignUp k size)) r hr

theorem place_bounds (hk : 0 < k) : ∀ r ∈ place k o sizes,
    o ≤ r.offset ∧ r.offset + r.size ≤ o + extent k sizes := by
  induction sizes generalizing o with
  | nil => exact fun r hr => absurd hr List.not_mem_nil
  | cons size sizes ih =>
      have hle := le_alignUp hk size
      have hext : extent k (size :: sizes) = alignUp k size + extent k sizes := by simp [extent]
      intro r hr
      obtain rfl | hr := List.mem_cons.mp hr
      · exact ⟨le_refl o, by simp only [hext]; omega⟩
      · obtain ⟨hlo, hhi⟩ := ih r hr
        exact ⟨by omega, by omega⟩

theorem place_disjoint (hk : 0 < k) : (place k o sizes).Pairwise Region.Disjoint := by
  induction sizes generalizing o with
  | nil => exact .nil
  | cons size sizes ih =>
      refine List.pairwise_cons.mpr ⟨fun r hr => .inl ?_, ih⟩
      have hle := le_alignUp hk size
      exact (Nat.add_le_add_left hle o).trans (place_bounds hk r hr).1

end AlignedLayout
