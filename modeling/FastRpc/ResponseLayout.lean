import FastRpc.Listener
import Mathlib.Algebra.Order.BigOperators.Group.List
import Mathlib.Order.Interval.Finset.Nat

/-! # The layout of a response

Before it calls the module, the listener lays out the output arguments of a request twice: in an empty
buffer, to measure how large the response buffer has to be, and then in that buffer.  The lengths are words
of the request, and `pack_out_bufs` casts them to `int`: a length from `2 ^ 31` on moves the buffer back, and
an `int` total that wraps lets a small buffer pass.

`laidOut_iff` says which calls get their outputs laid out: those whose lengths add up to less than
`2 ^ 31`. -/

namespace FastRpc.Listener

open ByteStore WindowedStream

/-! ### The layout -/

/-- Where `pack_out_bufs` writes the length words. -/
def wordHeads : Sbuf → List ℕ → List ℕ
  | _, [] => []
  | b, nLen :: lens =>
      b.bufCur ::
        wordHeads (if nLen = 0 then sbufAdvance b 4 else sbufAdvance (areaStart b) (cInt nLen)) lens

/-- The ranges of `m` bytes at `a` and of `n` bytes at `b` have no common byte. -/
def Apart (a m b n : ℕ) : Prop := a + m ≤ b ∨ b + n ≤ a

/-- **What is claimed of a call**: every output argument with a length has its own range of the response
buffer, behind a multiple of eight bytes. -/
structure LaidOut (t : State) (call : Invocation) : Prop where
  allocated : call.outBufs = t.outBufs ∧ call.outBufsLen ≤ t.outBufsCapacity
  inside : ∀ a ∈ call.outs, a.nLen ≠ 0 →
    call.outBufs ≤ a.pv ∧ (a.pv : ℤ) + a.nLen ≤ call.outBufs + call.outBufsLen
  aligned : ∀ a ∈ call.outs, a.nLen ≠ 0 → (8 : ℤ) ∣ (a.pv : ℤ) - call.outBufs
  apart : call.outs.Pairwise (fun a b => a.nLen ≠ 0 → b.nLen ≠ 0 → Apart a.pv a.nLen b.pv b.nLen)
  words : ∀ a ∈ call.outs, a.nLen ≠ 0 →
    ∀ x ∈ wordHeads (sbufInit 0 call.outBufs call.outBufsLen) (call.outs.map RemoteArg.nLen),
      Apart a.pv a.nLen x 4

/-! ### Positions -/

/-- The end of the layout that starts at position `p`. -/
def layoutEnd : ℕ → List ℕ → ℕ
  | p, [] => p
  | p, nLen :: lens => layoutEnd (if nLen = 0 then p + 4 else alignUp 8 (p + 4) + nLen) lens

/-- The positions of the length words. -/
def wordStarts : ℕ → List ℕ → List ℕ
  | _, [] => []
  | p, nLen :: lens => p :: wordStarts (if nLen = 0 then p + 4 else alignUp 8 (p + 4) + nLen) lens

/-- Each output with a length has the area behind its length word. -/
def LaidFrom (base : ℕ) : ℕ → List RemoteArg → Prop
  | _, [] => True
  | p, a :: outs =>
      (a.nLen ≠ 0 → a.pv = base + alignUp 8 (p + 4)) ∧
        LaidFrom base (if a.nLen = 0 then p + 4 else alignUp 8 (p + 4) + a.nLen) outs

section Positions

variable {base p : ℕ} {lens : List ℕ} {outs : List RemoteArg}

/-- The next position lies behind the length word and the area. -/
theorem le_next (p n : ℕ) : p + 4 ≤ (if n = 0 then p + 4 else alignUp 8 (p + 4) + n) := by
  have hle := le_alignUp_eight (p + 4)
  split_ifs <;> omega

theorem next_le (p n : ℕ) : (if n = 0 then p + 4 else alignUp 8 (p + 4) + n) ≤ p + 11 + n := by
  have hlt := alignUp_eight_lt (p + 4)
  split_ifs <;> omega

theorem le_layoutEnd (p : ℕ) (lens : List ℕ) : p ≤ layoutEnd p lens := by
  induction lens generalizing p with
  | nil => exact le_refl p
  | cons n lens ih =>
      have hnext := le_next p n
      have hend := ih (if n = 0 then p + 4 else alignUp 8 (p + 4) + n)
      exact (by omega : p ≤ p + 4).trans (hnext.trans hend)

theorem layoutEnd_le (p : ℕ) (lens : List ℕ) : layoutEnd p lens ≤ p + lens.sum + 11 * lens.length := by
  induction lens generalizing p with
  | nil => exact le_refl p
  | cons n lens ih =>
      have hnext := next_le p n
      have hend := ih (if n = 0 then p + 4 else alignUp 8 (p + 4) + n)
      rw [layoutEnd, List.sum_cons, List.length_cons]
      omega

theorem LaidFrom.inside (h : LaidFrom base p outs) {a : RemoteArg} (ha : a ∈ outs) (hn : a.nLen ≠ 0) :
    base + p + 4 ≤ a.pv ∧ a.pv + a.nLen ≤ base + layoutEnd p (outs.map RemoteArg.nLen) ∧
      (8 : ℤ) ∣ (a.pv : ℤ) - base := by
  induction outs generalizing p with
  | nil => cases ha
  | cons b outs ih =>
      obtain ⟨hb, hrest⟩ := h
      rw [List.map_cons, layoutEnd]
      rcases List.mem_cons.mp ha with rfl | ha
      · have hend := le_layoutEnd (if a.nLen = 0 then p + 4 else alignUp 8 (p + 4) + a.nLen)
          (outs.map RemoteArg.nLen)
        have hle := le_alignUp_eight (p + 4)
        have hmod := alignUp_eight_mod (p + 4)
        rw [if_neg hn] at hend ⊢
        rw [hb hn]
        exact ⟨by omega, by omega, by omega⟩
      · obtain ⟨hlow, hhigh, hdvd⟩ := ih hrest ha
        have hnext := le_next p b.nLen
        exact ⟨by omega, hhigh, hdvd⟩

theorem LaidFrom.apart (h : LaidFrom base p outs) :
    outs.Pairwise (fun a b => a.nLen ≠ 0 → b.nLen ≠ 0 → Apart a.pv a.nLen b.pv b.nLen) := by
  induction outs generalizing p with
  | nil => exact .nil
  | cons a outs ih =>
      obtain ⟨ha, hrest⟩ := h
      refine .cons (fun b hb hna hnb => .inl ?_) (ih hrest)
      obtain ⟨hlow, -⟩ := hrest.inside hb hnb
      rw [if_neg hna] at hlow
      rw [ha hna]
      omega

theorem le_wordStarts {x : ℕ} (hx : x ∈ wordStarts p lens) : p ≤ x := by
  induction lens generalizing p with
  | nil => cases hx
  | cons n lens ih =>
      rcases List.mem_cons.mp hx with rfl | hx
      · exact le_refl x
      · have hnext := le_next p n
        have hle := ih hx
        omega

theorem LaidFrom.words (h : LaidFrom base p outs) {a : RemoteArg} (ha : a ∈ outs) (hn : a.nLen ≠ 0)
    {x : ℕ} (hx : x ∈ wordStarts p (outs.map RemoteArg.nLen)) : Apart a.pv a.nLen (base + x) 4 := by
  induction outs generalizing p with
  | nil => cases ha
  | cons b outs ih =>
      have hall := h
      obtain ⟨hb, hrest⟩ := h
      rw [List.map_cons, wordStarts] at hx
      rcases List.mem_cons.mp hx with rfl | hx
      · obtain ⟨hlow, -⟩ := hall.inside ha hn
        exact .inr hlow
      · rcases List.mem_cons.mp ha with rfl | ha
        · have hle := le_wordStarts hx
          rw [if_neg hn] at hle
          rw [hb hn]
          exact .inl (by omega)
        · exact ih hrest ha hx

end Positions

/-! ### Laying out -/

section Packing

variable {w : Window} {m : Store} {p : ℕ}

/-- The start of the next area in a window. -/
theorem areaStart_window (h : Reaches w (alignUp 8 (p + 4))) :
    areaStart (windowSbuf w p) = windowSbuf w (alignUp 8 (p + 4)) := by
  have hle := le_alignUp_eight (p + 4)
  have hadvance : sbufAdvance (windowSbuf w p) 4 = windowSbuf w (p + 4) :=
    sbufAdvance_eq (w := w) (p := p) (n := 4) (h.mono hle)
  rw [areaStart, hadvance, sbufAlign_eight h]

/-- What is left behind the start of an area. -/
theorem sbufLeft_window (hw : Addressable w) (hoff : w.offset = 0) (hp : p ≤ w.len) :
    sbufLeft (windowSbuf w p) = (w.len : ℤ) - p := by
  have hbase := w.base_add_offset
  have hlen := hw.len_lt
  have hend := hw.end_lt
  rw [sbufLeft_eq hw ⟨by omega, by omega⟩ (by omega), hoff]
  omega

theorem reaches_of_le (hw : Addressable w) (hoff : w.offset = 0) (hp : p ≤ w.len) : Reaches w p := by
  have hbase := w.base_add_offset
  have hlen := hw.len_lt
  have hend := hw.end_lt
  exact ⟨by omega, by omega⟩

/-- A layout that fits into the window is made as it was measured. -/
theorem packOutBufs_laidFrom (hw : Addressable w) (hoff : w.offset = 0) {slots : List RemoteArg}
    (hend : layoutEnd p (slots.map RemoteArg.nLen) ≤ w.len) :
    LaidFrom w.base p (packOutBufs (m, windowSbuf w p) slots).2 := by
  induction slots generalizing m p with
  | nil => trivial
  | cons a slots ih =>
      rw [List.map_cons, layoutEnd] at hend
      have hnext := (le_layoutEnd _ _).trans hend
      have hlen := hw.len_lt
      by_cases ha : a.nLen = 0
      · rw [if_pos ha] at hend hnext
        obtain ⟨m', heq⟩ := packOutBufs_cons_empty m (windowSbuf w p) ha slots
        have hadvance : sbufAdvance (windowSbuf w p) 4 = windowSbuf w (p + 4) :=
          sbufAdvance_eq (w := w) (p := p) (n := 4) (reaches_of_le hw hoff hnext)
        rw [heq, hadvance]
        refine ⟨fun hne => absurd ha hne, ?_⟩
        rw [if_pos ha]
        exact ih hend
      · rw [if_neg ha] at hend hnext
        obtain ⟨m', heq⟩ := packOutBufs_cons_area m (windowSbuf w p) ha slots
        have hstart : alignUp 8 (p + 4) ≤ w.len := by omega
        have hint : cInt a.nLen = a.nLen := cInt_of_lt (by omega)
        have hfits : cInt a.nLen ≤ sbufLeft (windowSbuf w (alignUp 8 (p + 4))) := by
          rw [hint, sbufLeft_window hw hoff hstart]
          omega
        rw [heq, areaStart_window (reaches_of_le hw hoff hstart), if_pos hfits, hint,
          sbufAdvance_eq (reaches_of_le hw hoff hnext)]
        refine ⟨fun _ => rfl, ?_⟩
        rw [if_neg ha]
        exact ih hend

theorem wordHeads_window (hw : Addressable w) (hoff : w.offset = 0) {lens : List ℕ}
    (hend : layoutEnd p lens ≤ w.len) :
    wordHeads (windowSbuf w p) lens = (wordStarts p lens).map (fun x => w.base + x) := by
  induction lens generalizing p with
  | nil => rfl
  | cons n lens ih =>
      rw [layoutEnd] at hend
      have hnext := (le_layoutEnd _ _).trans hend
      have hlen := hw.len_lt
      rw [wordHeads, wordStarts, List.map_cons]
      refine congrArg (List.cons _) ?_
      by_cases hn : n = 0
      · rw [if_pos hn] at hend hnext ⊢
        have hadvance : sbufAdvance (windowSbuf w p) 4 = windowSbuf w (p + 4) :=
          sbufAdvance_eq (w := w) (p := p) (n := 4) (reaches_of_le hw hoff hnext)
        rw [hadvance, if_pos hn]
        exact ih hend
      · rw [if_neg hn] at hend hnext ⊢
        have hstart : alignUp 8 (p + 4) ≤ w.len := by omega
        rw [areaStart_window (reaches_of_le hw hoff hstart), cInt_of_lt (show n < 2 ^ 31 by omega),
          sbufAdvance_eq (reaches_of_le hw hoff hnext), if_neg hn]
        exact ih hend

/-! ### Measuring -/

/-- The buffer behind a layout. -/
def layoutSbuf : Sbuf → List ℕ → Sbuf
  | b, [] => b
  | b, nLen :: lens =>
      layoutSbuf (if nLen = 0 then sbufAdvance b 4 else sbufAdvance (areaStart b) (cInt nLen)) lens

theorem packOutBufs_sbuf (m : Store) (b : Sbuf) (slots : List RemoteArg) :
    (packOutBufs (m, b) slots).1.2 = layoutSbuf b (slots.map RemoteArg.nLen) := by
  induction slots generalizing m b with
  | nil => rfl
  | cons a slots ih =>
      have hword := sbufWrite_snd m b (toLe 4 (u32 a.nLen)) 4
      rw [packOutBufs, List.map_cons, layoutSbuf]
      dsimp only
      by_cases ha : a.nLen = 0
      · rw [if_neg (not_not.mpr ha), if_pos ha, ← hword]
        exact ih _ _
      · rw [if_pos ha, if_neg ha, areaStart, ← hword]
        exact ih _ _

/-- A position in the empty buffer, also one that is not an `int`. -/
theorem sbufAdvance_empty {p n : ℕ} (h : p + n < 2 ^ 64) : sbufAdvance ⟨0, 0, 0, p⟩ n = ⟨0, 0, 0, p + n⟩ := by
  have hcur : u64 ((p : ℤ) + n) = p + n := by
    unfold u64
    omega
  simp only [sbufAdvance, hcur]

theorem cInt_cases {p : ℕ} (h : p < 2 ^ 32) : cInt p = p ∨ cInt p = (p : ℤ) - 2 ^ 32 := by
  unfold cInt
  omega

theorem u32_cInt {p : ℕ} (h : p < 2 ^ 32) : u32 (cInt p) = p := by
  unfold u32
  rcases cInt_cases h with hcast | hcast <;> rw [hcast] <;> omega

/-- `sbuf_align` works on `uint32_t`, so that a position behind `2 ^ 31` is aligned as well. -/
theorem sbufAlign_empty {p : ℕ} (h : p + 7 < 2 ^ 32) : sbufAlign ⟨0, 0, 0, p⟩ 8 = ⟨0, 0, 0, alignUp 8 p⟩ := by
  have hle := le_alignUp_eight p
  have hlt := alignUp_eight_lt p
  have hneeded : sbufNeeded ⟨0, 0, 0, p⟩ = cInt p := by simp [sbufNeeded]
  have hu : u32 (cInt p) = p := u32_cInt (by omega)
  have hup : sbufAlignUp p 8 = alignUp 8 p := sbufAlignUp_of_lt h
  have hsub : u32 ((alignUp 8 p : ℤ) - cInt p) = alignUp 8 p - p := by
    unfold u32
    rcases cInt_cases (show p < 2 ^ 32 by omega) with hcast | hcast <;> rw [hcast] <;> omega
  have hpad : cInt (u32 ((alignUp 8 p : ℤ) - cInt p)) = (alignUp 8 p - p : ℕ) := by
    rw [hsub]
    exact cInt_of_lt (by omega)
  unfold sbufAlign
  rw [hneeded, hu, hup, hpad, sbufAdvance_empty (by omega), Nat.add_sub_cancel' hle]

/-- **The measure** of lengths that are not too large is the end of the layout. -/
theorem layoutSbuf_empty {p : ℕ} {lens : List ℕ} (hlens : ∀ n ∈ lens, n < 2 ^ 31)
    (hend : layoutEnd p lens + 8 ≤ 2 ^ 32) : layoutSbuf ⟨0, 0, 0, p⟩ lens = ⟨0, 0, 0, layoutEnd p lens⟩ := by
  induction lens generalizing p with
  | nil => rfl
  | cons n lens ih =>
      obtain ⟨hn, hlens⟩ := List.forall_mem_cons.mp hlens
      rw [layoutEnd] at hend ⊢
      have hnext := le_layoutEnd (if n = 0 then p + 4 else alignUp 8 (p + 4) + n) lens
      have hword : p + 4 + 8 ≤ 2 ^ 32 := by
        have hlow := le_next p n
        omega
      have hadvance : sbufAdvance ⟨0, 0, 0, p⟩ 4 = ⟨0, 0, 0, p + 4⟩ := sbufAdvance_empty (n := 4) (by omega)
      rw [layoutSbuf]
      by_cases hzero : n = 0
      · rw [if_pos hzero] at hend ⊢
        rw [if_pos hzero, hadvance]
        exact ih hlens hend
      · rw [if_neg hzero] at hend hnext ⊢
        rw [if_neg hzero, areaStart, hadvance, sbufAlign_empty (by omega), cInt_of_lt hn,
          sbufAdvance_empty (by omega)]
        exact ih hlens hend

end Packing

/-! ### The response buffer -/

/-- The response buffer lies in the address space. -/
structure OutInv (s : State) : Prop where
  nonneg : 0 ≤ s.outBufsCapacity
  lt : s.outBufsCapacity < 2 ^ 31
  addr : s.outBufs + s.outBufsCapacity < 2 ^ 64

/-- `OutInv` reads the response buffer alone. -/
theorem OutInv.congr {s t : State} (h : OutInv s) (hbuf : t.outBufs = s.outBufs)
    (hcapacity : t.outBufsCapacity = s.outBufsCapacity) : OutInv t := by
  constructor
  · rw [hcapacity]
    exact h.nonneg
  · rw [hcapacity]
    exact h.lt
  · rw [hbuf, hcapacity]
    exact h.addr

/-- Both outcomes of a resizing. -/
def Both (P : State → Prop) : Except State State → Prop
  | .error t => P t
  | .ok t => P t

theorem growInBufs_outInv {s : State} (hs : OutInv s) (req : ℤ) (e : Turn) :
    Both OutInv (growInBufs s req e) := by
  unfold growInBufs
  by_cases hgrow : req > s.inBufsLen
  · rw [if_pos hgrow]
    dsimp only
    split
    · exact hs.congr rfl rfl
    · split_ifs <;> exact hs.congr rfl rfl
  · rw [if_neg hgrow]
    exact hs

theorem fitInBufs_outInv (cacheSize : ℤ) {s : State} (hs : OutInv s) (req : ℤ) (e : Turn) :
    Both OutInv (fitInBufs cacheSize s req e) := by
  unfold fitInBufs
  by_cases hover : overflows (req * 2) = true
  · rw [if_pos hover]
    exact hs.congr rfl rfl
  · rw [if_neg hover]
    by_cases hshrink : alignB (req * 2) < s.inBufsLen ∧ s.inBufsLen > cacheSize
    · rw [if_pos hshrink]
      split
      · exact hs.congr rfl rfl
      · rename_i m buf _
        have hinv : OutInv { s with mem := m, inBufs := buf, inBufsLen := alignB (req * 2) } :=
          hs.congr rfl rfl
        exact growInBufs_outInv hinv req e
    · rw [if_neg hshrink]
      exact growInBufs_outInv hs req e

/-- The response buffer that a resizing of the measured size `needed` leaves. -/
def OutFits (needed : ℤ) : Except State State → Prop
  | .error t => OutInv t
  | .ok t => OutInv t ∧ needed ≤ t.outBufsLen ∧ t.outBufsLen ≤ t.outBufsCapacity

theorem le_alignB {n : ℤ} (h : overflows (n * 2) = false) : n ≤ alignB n := by
  unfold alignB
  split_ifs with hzero
  · unfold minBufSize
    omega
  · exact le_alignBuf h

theorem growOutBufs_outFits {s : State} (hs : OutInv s) (hover : overflows (s.outBufsLen * 2) = false)
    (e : Turn) : OutFits s.outBufsLen (growOutBufs s e) := by
  unfold growOutBufs
  by_cases hgrow : s.outBufsLen > s.outBufsCapacity
  · rw [if_pos hgrow]
    dsimp only
    split
    · exact hs.congr rfl rfl
    · rename_i m buf hrealloc
      obtain ⟨hsize, haddr⟩ := rpcmemRealloc_some hrealloc
      exact ⟨⟨hsize, alignB_lt _, haddr⟩, le_alignB hover, le_refl _⟩
  · rw [if_neg hgrow]
    exact ⟨hs, le_refl _, not_lt.mp hgrow⟩

/-- **The response buffer** is as large as it was measured, or the request is rejected. -/
theorem fitOutBufs_outFits (cacheSize : ℤ) {s : State} (hs : OutInv s) (e : Turn) :
    OutFits s.outBufsLen (fitOutBufs cacheSize s e) := by
  unfold fitOutBufs
  by_cases hover : overflows (s.outBufsLen * 2) = true
  · rw [if_pos hover]
    exact hs.congr rfl rfl
  · rw [if_neg hover]
    rw [Bool.not_eq_true] at hover
    by_cases hshrink : alignB (s.outBufsLen * 2) < s.outBufsCapacity ∧ s.outBufsCapacity > cacheSize
    · rw [if_pos hshrink]
      split
      · exact hs.congr rfl rfl
      · rename_i m buf hrealloc
        obtain ⟨hsize, haddr⟩ := rpcmemRealloc_some hrealloc
        have hinv : OutInv { s with
            mem := m, outBufs := buf, outBufsCapacity := alignB (s.outBufsLen * 2) } :=
          ⟨hsize, alignB_lt _, haddr⟩
        exact growOutBufs_outFits hinv hover e
    · rw [if_neg hshrink]
      exact growOutBufs_outFits hs hover e

theorem fitOutBufs_rejects {cacheSize : ℤ} {s t : State} {e : Turn}
    (h : fitOutBufs cacheSize s e = .error t) (hs : OutInv s) : OutInv t := by
  have hspec := fitOutBufs_outFits cacheSize hs e
  rwa [h] at hspec

theorem fitOutBufs_fits {cacheSize : ℤ} {s t : State} {e : Turn}
    (h : fitOutBufs cacheSize s e = .ok t) (hs : OutInv s) :
    OutInv t ∧ overflows (s.outBufsLen * 2) = false ∧ s.outBufsLen ≤ t.outBufsLen ∧
      t.outBufsLen ≤ t.outBufsCapacity := by
  have hspec := fitOutBufs_outFits cacheSize hs e
  rw [h] at hspec
  refine ⟨hspec.1, ?_, hspec.2⟩
  unfold fitOutBufs at h
  by_contra hover
  rw [if_pos (eq_true_of_ne_false hover)] at h
  cases h

/-- The response of a call: its buffer is as large as the outputs were measured, and they are laid out in
it. -/
structure ResponseOf (t : State) (call : Invocation) : Prop where
  outInv : OutInv t
  buffer : call.outBufs = t.outBufs ∧ call.outBufsLen ≤ t.outBufsCapacity
  count : call.outs.length < 256
  measured : ∃ needed, needed = sbufNeeded (layoutSbuf (sbufInit 0 0 0) (call.outs.map RemoteArg.nLen)) ∧
    overflows (needed * 2) = false ∧ needed ≤ call.outBufsLen
  packed : ∃ m slots, call.outs = (packOutBufs (m, sbufInit 0 call.outBufs call.outBufsLen) slots).2

/-- What a pass does with the response buffer. -/
def Responded : Turned → Prop
  | .exits => True
  | .rejects t => OutInv t
  | .invokes t call => ResponseOf t call

theorem dispatch_responded (cacheSize : ℤ) {u : State} (hu : OutInv u) (a : NextAnswer) (e : Turn) :
    Responded (dispatch cacheSize u a e) := by
  unfold dispatch
  by_cases hhandles : 0 < remoteScalarsInHandles a.sc + remoteScalarsOutHandles a.sc
  · rw [if_pos hhandles]
    exact hu.congr rfl rfl
  · rw [if_neg hhandles]
    dsimp only
    split
    · rename_i t hfit
      exact fitOutBufs_rejects hfit (hu.congr rfl rfl)
    · rename_i t hfit
      obtain ⟨hinv, hover, hneeded, hcapacity⟩ := fitOutBufs_fits hfit (hu.congr rfl rfl)
      have hnLen := layouts_map_nLen u.mem t.mem t.outBufs t.outBufsLen
        (u.outs (remoteScalarsInBufs a.sc) (remoteScalarsOutBufs a.sc))
      have hlength := layouts_length u.mem t.mem t.outBufs t.outBufsLen
        (u.outs (remoteScalarsInBufs a.sc) (remoteScalarsOutBufs a.sc))
      rw [packOutBufs_sbuf] at hover hneeded
      refine ⟨hinv.congr rfl rfl, ⟨rfl, hcapacity⟩, ?_, ⟨_, rfl, ?_, ?_⟩, ⟨_, _, rfl⟩⟩
      · have hcount : remoteScalarsOutBufs a.sc < 256 := Nat.mod_lt _ (by decide)
        have htake := List.length_take_le (remoteScalarsOutBufs a.sc) (u.args.drop (remoteScalarsInBufs a.sc))
        rw [outs_length] at hlength
        exact (hlength.trans_le htake).trans_lt hcount
      · exact hnLen.symm ▸ hover
      · exact hnLen.symm ▸ hneeded

theorem handle_responded (cacheSize : ℤ) {s : State} (hs : OutInv s) (a : NextAnswer) (e : Turn) :
    Responded (handle cacheSize s a e) := by
  unfold handle
  by_cases hget : e.sessionGet = true
  · rw [if_pos hget]
    have hfit := fitInBufs_outInv cacheSize hs a.inBufsLenReq e
    split
    · rename_i t heq
      rw [heq] at hfit
      exact hfit
    · rename_i u heq
      rw [heq] at hfit
      exact dispatch_responded cacheSize hfit a e
  · rw [if_neg hget]
    trivial

theorem turn_responded (cacheSize : ℤ) {s : State} (hs : OutInv s) (e : Turn) :
    Responded (turn cacheSize s e) := by
  unfold turn
  dsimp only
  have hfirst : OutInv (State.received { s with outBufsLen := if s.result ≠ 0 then 0 else s.outBufsLen }
      e.first) := hs.congr rfl rfl
  by_cases hok : e.first.nErr = 0
  · rw [if_pos hok]
    exact handle_responded cacheSize hfirst e.first e
  · rw [if_neg hok]
    by_cases hinter : e.first.nErr = eInterrupted
    · rw [if_pos hinter]
      exact hfirst.congr rfl rfl
    · rw [if_neg hinter]
      by_cases hbad : e.first.nErr = dspBadState
      · rw [if_pos hbad]
        trivial
      · rw [if_neg hbad]
        by_cases hretry : e.second.nErr = 0
        · rw [if_pos hretry]
          have hsecond : OutInv (State.received (State.received
              { s with outBufsLen := if s.result ≠ 0 then 0 else s.outBufsLen } e.first) e.second) :=
            hs.congr rfl rfl
          exact handle_responded cacheSize hsecond e.second e
        · rw [if_neg hretry]
          trivial

theorem outInv_step (cacheSize : ℤ) (s : State) (e : Turn) (t : State) (hs : OutInv s)
    (h : step cacheSize s e = some t) : OutInv t := by
  have hturn := turn_responded cacheSize hs e
  unfold step at h
  cases heq : turn cacheSize s e with
  | exits =>
      rw [heq] at h
      cases h
  | rejects u =>
      rw [heq] at h hturn
      obtain rfl := Option.some.inj h
      exact hturn
  | invokes u call =>
      rw [heq] at h hturn
      obtain rfl := Option.some.inj h
      exact hturn.outInv

theorem outInv_init (mem : Store) : OutInv (init mem) :=
  ⟨le_refl 0, (by decide : (0 : ℤ) < 2 ^ 31), (by decide : (0 : ℤ) < 2 ^ 64)⟩

theorem outInv_run {cacheSize : ℤ} {mem : Store} {es : List Turn} {s : State}
    (h : Transition.run (step cacheSize) (init mem) es = some s) : OutInv s :=
  Transition.run_invariant (outInv_step cacheSize) (outInv_init mem) h

/-! ### Which responses are laid out -/

/-- Ranges without common bytes in a block have at most the size of the block in all. -/
theorem sum_le_card {outs : List RemoteArg} {block : Finset ℕ}
    (hin : ∀ a ∈ outs, a.nLen ≠ 0 → Finset.Ico a.pv (a.pv + a.nLen) ⊆ block)
    (hapart : outs.Pairwise (fun a b => a.nLen ≠ 0 → b.nLen ≠ 0 → Apart a.pv a.nLen b.pv b.nLen)) :
    (outs.map RemoteArg.nLen).sum ≤ block.card := by
  induction outs generalizing block with
  | nil => exact Nat.zero_le _
  | cons a outs ih =>
      obtain ⟨ha, hapart⟩ := List.pairwise_cons.mp hapart
      obtain ⟨hina, hin⟩ := List.forall_mem_cons.mp hin
      rw [List.map_cons, List.sum_cons]
      by_cases hzero : a.nLen = 0
      · rw [hzero, Nat.zero_add]
        exact ih hin hapart
      · -- the other ranges lie in the rest of the block
        have hrest : ∀ b ∈ outs, b.nLen ≠ 0 →
            Finset.Ico b.pv (b.pv + b.nLen) ⊆ block \ Finset.Ico a.pv (a.pv + a.nLen) := by
          intro b hb hnb x hx
          refine Finset.mem_sdiff.mpr ⟨hin b hb hnb hx, fun hxa => ?_⟩
          have hab := ha b hb hzero hnb
          rw [Finset.mem_Ico] at hx hxa
          unfold Apart at hab
          omega
        have hsum := ih hrest hapart
        have hcard := Finset.card_sdiff_add_card_eq_card (hina hzero)
        rw [Nat.card_Ico] at hcard
        omega

/-- The outputs of a response that is laid out are not larger than its buffer. -/
theorem LaidOut.sum_lt {t : State} {call : Invocation} (h : LaidOut t call) (ht : OutInv t) :
    (call.outs.map RemoteArg.nLen).sum < 2 ^ 31 := by
  have hin : ∀ a ∈ call.outs, a.nLen ≠ 0 → Finset.Ico a.pv (a.pv + a.nLen) ⊆
      Finset.Ico call.outBufs (call.outBufs + call.outBufsLen.toNat) := by
    intro a ha hn
    obtain ⟨hlow, hhigh⟩ := h.inside a ha hn
    exact Finset.Ico_subset_Ico hlow (by omega)
  have hsum := sum_le_card hin h.apart
  have hcapacity := h.allocated.2
  have hlt := ht.lt
  rw [Nat.card_Ico] at hsum
  omega

/-- Lengths that add up to less than `2 ^ 31` are measured without wrapping. -/
theorem ResponseOf.fits {t : State} {call : Invocation} (h : ResponseOf t call)
    (hsum : (call.outs.map RemoteArg.nLen).sum < 2 ^ 31) :
    (layoutEnd 0 (call.outs.map RemoteArg.nLen) : ℤ) ≤ call.outBufsLen := by
  obtain ⟨needed, hneeded, hover, hle⟩ := h.measured
  have hcount := h.count
  have hend := layoutEnd_le 0 (call.outs.map RemoteArg.nLen)
  rw [List.length_map] at hend
  have hlens : ∀ n ∈ call.outs.map RemoteArg.nLen, n < 2 ^ 31 := fun n hn =>
    (List.single_le_sum (fun _ _ => Nat.zero_le _) n hn).trans_lt hsum
  have hinit : sbufInit 0 0 0 = ⟨0, 0, 0, 0⟩ := by decide
  rw [hinit, layoutSbuf_empty hlens (by omega)] at hneeded
  have hcast : needed = cInt (layoutEnd 0 (call.outs.map RemoteArg.nLen)) := by
    rw [hneeded]
    simp [sbufNeeded]
  -- a total from `2 ^ 31` on, with these lengths, is rejected when it is doubled
  simp only [overflows, Bool.or_eq_false_iff, decide_eq_false_iff_not] at hover
  obtain ⟨hlow, hhigh⟩ := hover
  rcases cInt_cases (show layoutEnd 0 (call.outs.map RemoteArg.nLen) < 2 ^ 32 by omega) with heq | heq
  · omega
  · omega

/-- A response with room for its layout is laid out. -/
theorem ResponseOf.laidOut {t : State} {call : Invocation} (h : ResponseOf t call)
    (hfits : (layoutEnd 0 (call.outs.map RemoteArg.nLen) : ℤ) ≤ call.outBufsLen) : LaidOut t call := by
  obtain ⟨m, slots, houts⟩ := h.packed
  have hbuffer := h.buffer
  have hlt := h.outInv.lt
  have haddr := h.outInv.addr
  have hcast : ((call.outBufsLen.toNat : ℕ) : ℤ) = call.outBufsLen := Int.toNat_of_nonneg (by omega)
  have hw : Addressable (blockWindow call.outBufs call.outBufsLen.toNat) :=
    addressable_block (by omega) (by omega)
  have hinit : sbufInit 0 call.outBufs call.outBufsLen =
      windowSbuf (blockWindow call.outBufs call.outBufsLen.toNat) 0 := by
    rw [← sbufInit_block hw, hcast]
  have hnLen : call.outs.map RemoteArg.nLen = slots.map RemoteArg.nLen := by
    rw [houts]
    exact packOutBufs_map_nLen _ _ _
  have hend : layoutEnd 0 (slots.map RemoteArg.nLen) ≤
      (blockWindow call.outBufs call.outBufsLen.toNat).len := by
    rw [← hnLen]
    change _ ≤ call.outBufsLen.toNat
    omega
  have hlaid : LaidFrom call.outBufs 0 call.outs := by
    rw [houts, hinit]
    exact packOutBufs_laidFrom hw rfl hend
  refine ⟨h.buffer, fun a ha hn => ?_, fun a ha hn => (hlaid.inside ha hn).2.2, hlaid.apart,
    fun a ha hn x hx => ?_⟩
  · obtain ⟨hlow, hhigh, -⟩ := hlaid.inside ha hn
    exact ⟨by omega, by omega⟩
  · rw [hinit, wordHeads_window hw rfl (hnLen ▸ hend)] at hx
    obtain ⟨y, hy, rfl⟩ := List.mem_map.mp hx
    exact hlaid.words ha hn hy

/-- **Which calls have their outputs laid out.** Whatever the listener has handled before: those whose
output lengths add up to less than `2 ^ 31`. -/
theorem laidOut_iff (cacheSize : ℤ) {mem : Store} {es : List Turn} {s t : State}
    (h : Transition.run (step cacheSize) (init mem) es = some s) {e : Turn} {call : Invocation}
    (hcall : turn cacheSize s e = .invokes t call) :
    LaidOut t call ↔ (call.outs.map RemoteArg.nLen).sum < 2 ^ 31 := by
  have hresponse := turn_responded cacheSize (outInv_run h) e
  rw [hcall] at hresponse
  exact ⟨fun hlaid => hlaid.sum_lt hresponse.outInv, fun hsum => hresponse.laidOut (hresponse.fits hsum)⟩

/-- The layout of a request with one input argument and one output of eight bytes. -/
theorem laidOut_whole : ∃ t call, turn 0 (init (fun _ => 0)) wholeTurn = .invokes t call ∧
    call.outs = [⟨0x10008, 8⟩] ∧ LaidOut t call := by
  have hcall : (turn 0 (init (fun _ => 0)) wholeTurn).call =
      some ⟨1, 0x10100, [⟨0x1008, 4⟩], [⟨0x10008, 8⟩], 0x1000,
        [4, 0, 0, 0, 0, 0, 0, 0, 10, 11, 12, 13, 8, 0, 0, 0], 0x10000, 0x1000⟩ := by
    decide +kernel
  obtain ⟨t, hturn⟩ := Turned.call_eq_some hcall
  exact ⟨t, _, hturn, rfl, (laidOut_iff 0 (Transition.run_nil _) hturn).mpr (by decide)⟩

/-- A request with an output of `2 ^ 32 - 16` bytes. -/
def hugeTurn : Turn := quietTurn (answer 0x100 [] 4) [0xF0, 0xFF, 0xFF, 0xFF]

/-- **A length from `2 ^ 31` on** counts as negative: no response buffer is allocated, and the called module
gets the address `8` for its output. -/
theorem negative_length_passed : ∃ t call, turn 0 (init (fun _ => 0)) hugeTurn = .invokes t call ∧
    call.outBufs = 0 ∧ call.outBufsLen = -8 ∧ call.outs = [⟨8, 2 ^ 32 - 16⟩] ∧ ¬ LaidOut t call := by
  have hcall : (turn 0 (init (fun _ => 0)) hugeTurn).call =
      some ⟨1, 0x100, [], [⟨8, 2 ^ 32 - 16⟩], 0x1000, [0xF0, 0xFF, 0xFF, 0xFF], 0, -8⟩ := by
    decide +kernel
  obtain ⟨t, hturn⟩ := Turned.call_eq_some hcall
  refine ⟨t, _, hturn, rfl, rfl, rfl, fun hlaid => ?_⟩
  obtain ⟨-, hinside⟩ := hlaid.inside ⟨8, 2 ^ 32 - 16⟩ List.mem_cons_self (by decide)
  exact absurd hinside (by decide)

end FastRpc.Listener
