import FastRpc.ListenerBuf

/-! # Sequences of `sbuf` operations

A sequence of writes, alignments and advances stands for a stream, whose pieces depend on the
operations alone (`opPieces`): an alignment looks at `sbuf_needed`, which is the position in the
stream whatever the window.  So the same operations, run on different windows, leave the same
stream in them, each as far as it falls into its block (`windowed_stream`).  Reads through a window
are the dual. -/

namespace FastRpc

open ByteStore WindowedStream

/-- An operation that moves the buffer forward. -/
inductive SbufOp
  | write (src : List UInt8)
  | align (align : ℕ)
  | advance (len : ℕ)

/-- One operation. -/
def runOp (s : Store × Sbuf) : SbufOp → Store × Sbuf
  | .write src => sbufWrite s.1 s.2 src src.length
  | .align align => (s.1, sbufAlign s.2 align)
  | .advance len => (s.1, sbufAdvance s.2 len)

/-- Several operations. -/
def runOps (s : Store × Sbuf) (ops : List SbufOp) : Store × Sbuf := ops.foldl runOp s

/-- Read into several destinations, one after the other. -/
def runReads (m : Store) : Sbuf → List (List UInt8) → List (List UInt8) × Sbuf
  | b, [] => ([], b)
  | b, dst :: dsts =>
      let r := sbufRead m b dst dst.length
      let rest := runReads m r.2 dsts
      (r.1 :: rest.1, rest.2)

/-- The length by which `sbuf_align` advances at position `p`. -/
def alignLen (p align : ℕ) : ℤ := cInt (u32 (sbufAlignUp (u32 p) align - p))

/-- The pieces of the operations from position `p` on. -/
def opPieces : ℕ → List SbufOp → List Piece
  | _, [] => []
  | p, .write src :: ops => .bytes src :: opPieces (p + src.length) ops
  | p, .align align :: ops =>
      .gap (alignLen p align).toNat :: opPieces (p + (alignLen p align).toNat) ops
  | p, .advance len :: ops => .gap len :: opPieces (p + len) ops

/-- No operation moves the buffer back. -/
def Forward : ℕ → List SbufOp → Prop
  | _, [] => True
  | p, .write src :: ops => Forward (p + src.length) ops
  | p, .align align :: ops => 0 ≤ alignLen p align ∧ Forward (p + (alignLen p align).toNat) ops
  | p, .advance len :: ops => Forward (p + len) ops

section Stream

variable {w : Window} {m : Store} {p : ℕ}

theorem sbufAlign_eq (align : ℕ) (hlen : 0 ≤ alignLen p align) (hp : Reaches w p)
    (h : Reaches w (p + (alignLen p align).toNat)) :
    sbufAlign (windowSbuf w p) align = windowSbuf w (p + (alignLen p align).toNat) := by
  have hcast : ((alignLen p align).toNat : ℤ) = alignLen p align := Int.toNat_of_nonneg hlen
  have hadv := sbufAdvance_eq h
  rw [hcast] at hadv
  unfold sbufAlign
  rw [sbufNeeded_eq hp]
  exact hadv

/-- **Operations write their stream** through the window. -/
theorem runOps_eq (hw : Addressable w) {ops : List SbufOp} (hf : Forward p ops)
    (h : Reaches w (p + size (opPieces p ops))) :
    runOps (m, windowSbuf w p) ops =
      (w.render m p (opPieces p ops), windowSbuf w (p + size (opPieces p ops))) := by
  induction ops generalizing m p with
  | nil => rfl
  | cons op ops ih =>
      cases op with
      | write src =>
          rw [opPieces, size_cons, Piece.size, ← Nat.add_assoc] at h
          rw [runOps, List.foldl_cons, runOp, sbufWrite_eq hw src (h.mono (Nat.le_add_right _ _)), ← runOps,
            ih hf h, opPieces, Window.render, size_cons, Piece.size, ← Nat.add_assoc]
      | align align =>
          rw [opPieces, size_cons, Piece.size, ← Nat.add_assoc] at h
          have hp : Reaches w p := h.mono (by omega)
          rw [runOps, List.foldl_cons, runOp, sbufAlign_eq align hf.1 hp (h.mono (Nat.le_add_right _ _)),
            ← runOps, ih hf.2 h, opPieces, Window.render, size_cons, Piece.size, ← Nat.add_assoc]
      | advance len =>
          rw [opPieces, size_cons, Piece.size, ← Nat.add_assoc] at h
          rw [runOps, List.foldl_cons, runOp, sbufAdvance_eq (h.mono (Nat.le_add_right _ _)), ← runOps,
            ih hf h, opPieces, Window.render, size_cons, Piece.size, ← Nat.add_assoc]

/-- **Reads get their parts of the stream** through the window. -/
theorem runReads_eq (hw : Addressable w) {dsts : List (List UInt8)}
    (h : Reaches w (p + (dsts.map List.length).sum)) {k : ℕ} {dst : List UInt8}
    (hk : dsts[k]? = some dst) :
    (runReads m (windowSbuf w p) dsts).1[k]? =
      some (w.get m (p + ((dsts.take k).map List.length).sum) dst) := by
  induction dsts generalizing p k with
  | nil => simp at hk
  | cons d dsts ih =>
      rw [List.map_cons, List.sum_cons, ← Nat.add_assoc] at h
      simp only [runReads]
      rw [sbufRead_eq hw d (h.mono (Nat.le_add_right _ _))]
      cases k with
      | zero =>
          obtain rfl := Option.some.inj hk
          simp
      | succ k =>
          have hrest := ih h (k := k) hk
          simpa [Nat.add_assoc] using hrest

end Stream

/-- **The windowed stream.** Operations of less than `2 ^ 31` bytes in all, none of which moves
back, leave in the block of any window exactly its part of the stream, which the same operations
leave in a large enough buffer at offset `0`, and change nothing else; `sbuf_needed` is the same for
every window.  Reads through a window deliver to each destination exactly the bytes of the stream
that fall into the block. -/
theorem windowed_stream :
    (∀ (w : Window) (ops : List SbufOp) (m m₀ : Store) (data dataLen : ℕ), Addressable w →
      Forward 0 ops → size (opPieces 0 ops) < 2 ^ 31 → w.base + size (opPieces 0 ops) < 2 ^ 64 →
      size (opPieces 0 ops) ≤ dataLen → dataLen < 2 ^ 31 → data + dataLen < 2 ^ 64 →
      let out := runOps (m, sbufInit w.offset w.data w.len) ops
      let full := runOps (m₀, sbufInit 0 data dataLen) ops
      (∀ x, ¬ w.Inside x → out.1 x = m x) ∧
        (∀ i, i < w.len → out.1 (w.data + i) =
          if (content (opPieces 0 ops) (w.offset + i)).isSome then full.1 (data + (w.offset + i))
          else m (w.data + i)) ∧
        sbufNeeded out.2 = size (opPieces 0 ops) ∧ sbufNeeded out.2 = sbufNeeded full.2) ∧
    ∀ (w : Window) (dsts : List (List UInt8)) (m : Store) (stream : ℕ → UInt8), Addressable w →
      (dsts.map List.length).sum < 2 ^ 31 → w.base + (dsts.map List.length).sum < 2 ^ 64 →
      (∀ i, i < w.len → m (w.data + i) = stream (w.offset + i)) →
      ∀ k dst, dsts[k]? = some dst →
        let p := ((dsts.take k).map List.length).sum
        (runReads m (sbufInit w.offset w.data w.len) dsts).1[k]? = some (dst.mapIdx fun i d =>
          if w.offset ≤ p + i ∧ p + i < w.offset + w.len then stream (p + i) else d) := by
  constructor
  · intro w ops m m₀ data dataLen hw hf hsize hreach hfit hlen hend
    have hbase := w.base_add_offset
    have hfull := addressable_block hlen hend
    have hr : Reaches w (0 + size (opPieces 0 ops)) := ⟨by omega, by omega⟩
    have hr' : Reaches (blockWindow data dataLen) (0 + size (opPieces 0 ops)) :=
      reaches_block (by omega) (by omega)
    simp only [sbufInit_eq hw, sbufInit_block hfull, runOps_eq hw hf hr, runOps_eq hfull hf hr',
      sbufNeeded_eq hr, sbufNeeded_eq hr']
    refine ⟨fun x hx => Window.render_outside hx, ?_, by omega, trivial⟩
    intro i hi
    have hin : w.Inside (w.base + 0 + (w.offset + i)) := by
      unfold Window.Inside
      omega
    have hx : w.data + i = w.base + 0 + (w.offset + i) := by omega
    rw [hx, Window.render_apply, if_pos hin]
    cases hc : content (opPieces 0 ops) (w.offset + i) with
    | none => rfl
    | some v =>
        have hlt : w.offset + i < size (opPieces 0 ops) := by
          by_contra hge
          rw [content_none (not_lt.mp hge)] at hc
          cases hc
        have hin' : (blockWindow data dataLen).Inside (data + 0 + (w.offset + i)) := by
          unfold Window.Inside blockWindow
          dsimp only
          omega
        have hfullByte := Window.render_apply (w := blockWindow data dataLen) m₀ 0 (w.offset + i)
          (opPieces 0 ops)
        rw [show (blockWindow data dataLen).base = data from rfl, if_pos hin', hc] at hfullByte
        exact hfullByte.symm
  · intro w dsts m stream hw hsize hreach hstream k dst hk
    have hbase := w.base_add_offset
    rw [sbufInit_eq hw, runReads_eq hw (p := 0) ⟨by omega, by omega⟩ hk]
    congr 1
    unfold Window.get
    congr 1
    funext i d
    rw [Nat.zero_add]
    by_cases hin : w.Inside (w.base + ((dsts.take k).map List.length).sum + i)
    · have hmem := hin
      unfold Window.Inside at hmem
      have hbyte := hstream (((dsts.take k).map List.length).sum + i - w.offset) (by omega)
      rw [if_pos hin, if_pos (by omega),
        show w.base + ((dsts.take k).map List.length).sum + i =
          w.data + (((dsts.take k).map List.length).sum + i - w.offset) by omega, hbyte]
      congr 1
      omega
    · have hmem := hin
      unfold Window.Inside at hmem
      rw [if_neg hin, if_neg (by omega)]

/-- A write that straddles the start of a window, an alignment and a write that straddles its end;
and a read of five bytes of which three are in the window. -/
theorem windowed_stream_straddling :
    (let w : Window := ⟨2, 0x1000, 8, by decide⟩
     let ops : List SbufOp := [.write [1, 2, 3], .align 8, .write [4, 5, 6, 7]]
     let out := runOps (fun _ => 0, sbufInit w.offset w.data w.len) ops
     let full := runOps (fun _ => 9, sbufInit 0 0x2000 16) ops
     (∀ x, ¬ w.Inside x → out.1 x = 0) ∧
       (∀ i, i < w.len → out.1 (w.data + i) =
         if (content (opPieces 0 ops) (w.offset + i)).isSome then full.1 (0x2000 + (w.offset + i))
         else 0) ∧
       sbufNeeded out.2 = size (opPieces 0 ops) ∧ sbufNeeded out.2 = sbufNeeded full.2) ∧
    (runReads (fun _ => 7) (sbufInit (2 : ℕ) 0x1000 (8 : ℕ)) [[0, 0, 0, 0, 0]]).1[0]? =
      some ([0, 0, 0, 0, 0].mapIdx fun i d => if 2 ≤ 0 + i ∧ 0 + i < 2 + 8 then 7 else d) :=
  ⟨windowed_stream.1 ⟨2, 0x1000, 8, by decide⟩ [.write [1, 2, 3], .align 8, .write [4, 5, 6, 7]]
      (fun _ => 0) (fun _ => 9) 0x2000 16 ⟨by decide, by decide, by decide⟩
      ⟨by decide +kernel, trivial⟩ (by decide +kernel) (by decide +kernel) (by decide +kernel) (by decide) (by decide),
    windowed_stream.2 ⟨2, 0x1000, 8, by decide⟩ [[0, 0, 0, 0, 0]] (fun _ => 7) (fun _ => 7)
      ⟨by decide, by decide, by decide⟩ (by decide) (by decide) (fun _ _ => rfl) 0 _ rfl⟩

end FastRpc
