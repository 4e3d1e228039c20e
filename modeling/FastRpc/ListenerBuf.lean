import FastRpc.Sbuf

/-! # The argument codec

`inc/listener_buf.h`: the arguments of a remote call on their way between the processors.  Each
length is a little-endian `uint32_t`, and the bytes of an argument follow its length from the next
multiple of `8`, counted from the start of the stream.  Input buffers and the destinations of
`unpack_out_bufs` are given by their bytes; a `RemoteArg` has the pointer and the length that the
functions set.

Packing writes the pieces `inPieces` of a stream, and measures the same size into an empty buffer.
Unpacking reads a stream that the memory holds (`unpackInBufs_holds`), which gives the round trip
(`argument_codec`). -/

namespace FastRpc

open ByteStore WindowedStream

/-! ### The source -/

/-- A `remote_arg` used as a buffer. -/
structure RemoteArg where
  pv : ℕ
  nLen : ℕ
  deriving DecidableEq, Repr

/-- `pack_in_bufs`. -/
def packInBufs : Store × Sbuf → List (List UInt8) → Store × Sbuf
  | s, [] => s
  | s, bytes :: pra =>
      let len := u32 bytes.length
      let s := sbufWrite s.1 s.2 (toLe 4 len) 4
      let s := if len ≠ 0 then sbufWrite s.1 (sbufAlign s.2 8) bytes (cInt len) else s
      packInBufs s pra

/-- `pack_out_lens`. -/
def packOutLens : Store × Sbuf → List ℕ → Store × Sbuf
  | s, [] => s
  | s, nLen :: pra => packOutLens (sbufWrite s.1 s.2 (toLe 4 (u32 nLen)) 4) pra

/-- The loop of `unpack_in_bufs`, with its variable `len`. -/
def unpackInBufsLoop (m : Store) : Sbuf → ℕ → List RemoteArg → List RemoteArg × Sbuf
  | b, _, [] => ([], b)
  | b, len, a :: pra =>
      let r := sbufRead m b (toLe 4 len) 4
      let len := ofLe r.1
      if len ≠ 0 then
        let b := sbufAlign r.2 8
        let pv := if cInt len ≤ sbufLeft b then b.bufCur else a.pv
        let rest := unpackInBufsLoop m (sbufAdvance b (cInt len)) len pra
        (⟨pv, len⟩ :: rest.1, rest.2)
      else
        let rest := unpackInBufsLoop m r.2 len pra
        (⟨a.pv, len⟩ :: rest.1, rest.2)

/-- `unpack_in_bufs`. -/
def unpackInBufs (m : Store) (b : Sbuf) (pra : List RemoteArg) : List RemoteArg × Sbuf :=
  unpackInBufsLoop m b 0 pra

/-- The loop of `unpack_out_lens`, with its variable `len`. -/
def unpackOutLensLoop (m : Store) : Sbuf → ℕ → List RemoteArg → List RemoteArg × Sbuf
  | b, _, [] => ([], b)
  | b, len, a :: pra =>
      let r := sbufRead m b (toLe 4 len) 4
      let rest := unpackOutLensLoop m r.2 (ofLe r.1) pra
      (⟨a.pv, ofLe r.1⟩ :: rest.1, rest.2)

/-- `unpack_out_lens`. -/
def unpackOutLens (m : Store) (b : Sbuf) (pra : List RemoteArg) : List RemoteArg × Sbuf :=
  unpackOutLensLoop m b 0 pra

/-- `pack_out_bufs`. -/
def packOutBufs : Store × Sbuf → List RemoteArg → (Store × Sbuf) × List RemoteArg
  | s, [] => (s, [])
  | s, a :: pra =>
      let s := sbufWrite s.1 s.2 (toLe 4 (u32 a.nLen)) 4
      if a.nLen ≠ 0 then
        let b := sbufAlign s.2 8
        let pv := if cInt a.nLen ≤ sbufLeft b then b.bufCur else a.pv
        let rest := packOutBufs (s.1, sbufAdvance b (cInt a.nLen)) pra
        (rest.1, ⟨pv, a.nLen⟩ :: rest.2)
      else
        let rest := packOutBufs s pra
        (rest.1, a :: rest.2)

/-- `unpack_out_bufs`, with its variable `len`, which it does not initialise: its result and the
destinations. -/
def unpackOutBufs (m : Store) : Sbuf → ℕ → List (List UInt8) → ℤ × List (List UInt8)
  | _, _, [] => (0, [])
  | b, len, dst :: pra =>
      let r := sbufRead m b (toLe 4 len) 4
      let len := ofLe r.1
      if len = dst.length then
        if dst.length ≠ 0 then
          let d := sbufRead m (sbufAlign r.2 8) dst (cInt dst.length)
          let rest := unpackOutBufs m d.2 len pra
          (rest.1, d.1 :: rest.2)
        else
          let rest := unpackOutBufs m r.2 len pra
          (rest.1, dst :: rest.2)
      else (-1, dst :: pra)

/-! ### The stream of the arguments -/

/-- The pieces of one argument that starts at position `p`. -/
def argPieces (p : ℕ) (bytes : List UInt8) : List Piece :=
  if bytes = [] then [.bytes (toLe 4 0)]
  else [.bytes (toLe 4 bytes.length), .gap (alignUp 8 (p + 4) - (p + 4)), .bytes bytes]

/-- The pieces of the arguments from position `p` on. -/
def inPieces : ℕ → List (List UInt8) → List Piece
  | _, [] => []
  | p, bytes :: bufs => argPieces p bytes ++ inPieces (p + size (argPieces p bytes)) bufs

/-- The pieces of the output lengths. -/
def lenPieces (lens : List ℕ) : List Piece := lens.map (fun n => .bytes (toLe 4 n))

/-- The size of a request: the input arguments and the output lengths. -/
def packedSize (bufs : List (List UInt8)) (lens : List ℕ) : ℕ :=
  size (inPieces 0 bufs) + size (lenPieces lens)

@[simp] theorem argPieces_nil (p : ℕ) : argPieces p [] = [.bytes (toLe 4 0)] := rfl

theorem size_argPieces_cons {p : ℕ} {bytes : List UInt8} (h : bytes ≠ []) :
    p + size (argPieces p bytes) = alignUp 8 (p + 4) + bytes.length := by
  have hle := le_alignUp_eight (p + 4)
  rw [argPieces, if_neg h]
  simp only [size_cons, Piece.size, toLe_length, size_nil]
  omega

theorem u32_of_lt {n : ℕ} (h : n < 2 ^ 32) : u32 n = n := by
  unfold u32
  omega

theorem cInt_of_lt {n : ℕ} (h : n < 2 ^ 31) : cInt n = n := cInt_of_range (by omega) (by omega)

section Codec

variable {w : Window} {m : Store} {p : ℕ}

theorem sbufWrite_word (hw : Addressable w) (n : ℕ) (h : Reaches w (p + 4)) :
    sbufWrite m (windowSbuf w p) (toLe 4 n) 4 =
      (w.put m p (toLe 4 n), windowSbuf w (p + 4)) := by
  have hlen : ((toLe 4 n).length : ℤ) = 4 := by rw [toLe_length]; rfl
  have heq := sbufWrite_eq (m := m) hw (toLe 4 n) (by rwa [toLe_length])
  rwa [hlen, toLe_length] at heq

theorem sbufRead_word (hw : Addressable w) (n : ℕ) (h : Reaches w (p + 4)) :
    sbufRead m (windowSbuf w p) (toLe 4 n) 4 =
      (w.get m p (toLe 4 n), windowSbuf w (p + 4)) := by
  have hlen : ((toLe 4 n).length : ℤ) = 4 := by rw [toLe_length]; rfl
  have heq := sbufRead_eq (m := m) hw (toLe 4 n) (by rwa [toLe_length])
  rwa [hlen, toLe_length] at heq

/-! ### Packing -/

theorem packInBufs_cons (hw : Addressable w) {bytes : List UInt8} (bufs : List (List UInt8))
    (h : Reaches w (p + size (argPieces p bytes))) :
    packInBufs (m, windowSbuf w p) (bytes :: bufs) =
      packInBufs (w.render m p (argPieces p bytes),
        windowSbuf w (p + size (argPieces p bytes))) bufs := by
  by_cases hb : bytes = []
  · subst hb
    have hword := sbufWrite_word (m := m) hw 0 h
    rw [packInBufs]
    simp only [List.length_nil, Nat.cast_zero, show u32 0 = 0 from rfl, hword, ne_eq,
      not_true_eq_false, if_false]
    rfl
  · have hend := size_argPieces_cons (p := p) hb
    rw [hend] at h ⊢
    have hlt := h.1
    have hle := le_alignUp_eight (p + 4)
    have hpos : bytes.length ≠ 0 := fun h0 => hb (List.length_eq_zero_iff.mp h0)
    have hlen : u32 bytes.length = bytes.length := u32_of_lt (by omega)
    have hword := sbufWrite_word (m := m) hw bytes.length (h.mono (n := _) (p := p + 4) (by omega))
    have halign := sbufAlign_eight (w := w) (p := p + 4) (h.mono (by omega))
    have hdata := sbufWrite_eq (m := w.put m p (toLe 4 bytes.length)) hw bytes h
    have hgap : p + 4 + (alignUp 8 (p + 4) - (p + 4)) = alignUp 8 (p + 4) := by omega
    rw [packInBufs]
    simp only [hlen, if_pos hpos, hword, halign, cInt_of_lt (show bytes.length < 2 ^ 31 by omega),
      hdata]
    rw [argPieces, if_neg hb]
    simp only [Window.render, toLe_length, hgap]

/-- **Packing the input arguments** writes their pieces. -/
theorem packInBufs_eq (hw : Addressable w) (bufs : List (List UInt8))
    (h : Reaches w (p + size (inPieces p bufs))) :
    packInBufs (m, windowSbuf w p) bufs =
      (w.render m p (inPieces p bufs), windowSbuf w (p + size (inPieces p bufs))) := by
  induction bufs generalizing m p with
  | nil => rfl
  | cons bytes bufs ih =>
      rw [inPieces, size_append, ← Nat.add_assoc] at h
      rw [packInBufs_cons hw bufs (h.mono (Nat.le_add_right _ _)), ih h, inPieces,
        Window.render_append, size_append, ← Nat.add_assoc]

/-- **Packing the output lengths** writes their pieces. -/
theorem packOutLens_eq (hw : Addressable w) {lens : List ℕ} (hlens : ∀ n ∈ lens, n < 2 ^ 32)
    (h : Reaches w (p + size (lenPieces lens))) :
    packOutLens (m, windowSbuf w p) lens =
      (w.render m p (lenPieces lens), windowSbuf w (p + size (lenPieces lens))) := by
  induction lens generalizing m p with
  | nil => rfl
  | cons n lens ih =>
      have hsize : size (lenPieces (n :: lens)) = 4 + size (lenPieces lens) := by
        simp [lenPieces, Piece.size]
      rw [hsize, ← Nat.add_assoc] at h ⊢
      have hword := sbufWrite_word (m := m) hw n (h.mono (Nat.le_add_right _ _))
      rw [packOutLens, u32_of_lt (hlens n List.mem_cons_self)]
      simp only [hword]
      rw [ih (fun k hk => hlens k (List.mem_cons_of_mem n hk)) h]
      simp only [lenPieces, List.map_cons, Window.render, toLe_length]

/-! ### Unpacking -/

/-- Reading a length word that the memory holds. -/
theorem sbufRead_held (hw : Addressable w) {n k : ℕ} (h : Reaches w (p + 4))
    (hc : w.Covers p 4) (hm : slice m (w.base + p) 4 = toLe 4 n) :
    sbufRead m (windowSbuf w p) (toLe 4 k) 4 = (toLe 4 n, windowSbuf w (p + 4)) := by
  rw [sbufRead_word hw k h, Window.get_of_covers (by rwa [toLe_length]), toLe_length, hm]

theorem ofLe_word {n : ℕ} (hn : n < 2 ^ 32) : ofLe (toLe 4 n) = n := ofLe_toLe_of_lt hn

/-- The pieces of one argument with bytes, where the memory holds them. -/
theorem holds_argPieces {bytes : List UInt8} (hb : bytes ≠ []) :
    w.Holds m p (argPieces p bytes) ↔
      slice m (w.base + p) 4 = toLe 4 bytes.length ∧
        slice m (w.base + alignUp 8 (p + 4)) bytes.length = bytes := by
  have hgap : p + 4 + (alignUp 8 (p + 4) - (p + 4)) = alignUp 8 (p + 4) :=
    Nat.add_sub_cancel' (le_alignUp_eight (p + 4))
  rw [argPieces, if_neg hb]
  simp only [Window.Holds, toLe_length, hgap, and_true]

theorem holds_argPieces_nil :
    w.Holds m p (argPieces p []) ↔ slice m (w.base + p) 4 = toLe 4 0 := by
  simp [Window.Holds]

/-- **Unpacking input arguments that the memory holds** gives their bytes. -/
theorem unpackInBufsLoop_holds (hw : Addressable w) {bufs : List (List UInt8)} {k : ℕ}
    {pra : List RemoteArg} (h : Reaches w (p + size (inPieces p bufs)))
    (hc : w.Covers p (size (inPieces p bufs))) (hm : w.Holds m p (inPieces p bufs))
    (hpra : pra.length = bufs.length) :
    (unpackInBufsLoop m (windowSbuf w p) k pra).1.map (fun a => slice m a.pv a.nLen) = bufs ∧
      (unpackInBufsLoop m (windowSbuf w p) k pra).2 =
        windowSbuf w (p + size (inPieces p bufs)) := by
  induction bufs generalizing p k pra with
  | nil =>
      obtain rfl := List.length_eq_zero_iff.mp hpra
      exact ⟨rfl, rfl⟩
  | cons bytes bufs ih =>
      obtain ⟨a, pra, rfl⟩ := List.exists_cons_of_length_pos (l := pra) (by rw [hpra]; simp)
      rw [List.length_cons, List.length_cons, Nat.add_right_cancel_iff] at hpra
      rw [inPieces, size_append, ← Nat.add_assoc] at h
      rw [inPieces, size_append] at hc
      rw [inPieces, Window.holds_append] at hm
      obtain ⟨hc₁, hc₂⟩ := hc
      obtain ⟨hm, hrest⟩ := hm
      rw [inPieces, size_append, ← Nat.add_assoc]
      by_cases hb : bytes = []
      · subst hb
        have hsize : size (argPieces p []) = 4 := rfl
        rw [hsize] at h hrest hc₂ ⊢
        have hread := sbufRead_held (m := m) (k := k) hw (h.mono (by omega))
          ⟨hc₁, by omega⟩ (holds_argPieces_nil.mp hm)
        have hrec := ih (k := 0) h ⟨by omega, by omega⟩ hrest hpra
        rw [unpackInBufsLoop]
        simp only [hread, ofLe_word (show 0 < 2 ^ 32 by omega), ne_eq, not_true_eq_false, if_false,
          List.map_cons, slice_zero, hrec.1]
        exact ⟨trivial, hrec.2⟩
      · obtain ⟨hword, hdata⟩ := (holds_argPieces hb).mp hm
        have hend := size_argPieces_cons (p := p) hb
        have hle := le_alignUp_eight (p + 4)
        have hpos : bytes.length ≠ 0 := fun h0 => hb (List.length_eq_zero_iff.mp h0)
        have hq : Reaches w (alignUp 8 (p + 4)) := h.mono (by omega)
        have hlt := h.1
        have hread := sbufRead_held (m := m) (k := k) hw (h.mono (by omega))
          ⟨hc₁, by omega⟩ hword
        have hleft := sbufLeft_eq hw hq (by omega)
        have hrec := ih (k := bytes.length) h ⟨by omega, by omega⟩ hrest hpra
        rw [hend] at h hrec
        have hadv := sbufAdvance_eq (w := w) (p := alignUp 8 (p + 4)) (n := bytes.length)
          (h.mono (by omega))
        rw [unpackInBufsLoop]
        simp only [hread, ofLe_word (show bytes.length < 2 ^ 32 by omega), if_pos hpos,
          sbufAlign_eight hq, cInt_of_lt (show bytes.length < 2 ^ 31 by omega), hleft,
          hadv, List.map_cons]
        rw [if_pos (by omega), hend]
        exact ⟨congrArg₂ List.cons hdata hrec.1, hrec.2⟩

/-- **Unpacking output lengths that the memory holds** gives them back. -/
theorem unpackOutLensLoop_holds (hw : Addressable w) {lens : List ℕ}
    (hlens : ∀ n ∈ lens, n < 2 ^ 32) {k : ℕ} {pra : List RemoteArg}
    (h : Reaches w (p + size (lenPieces lens))) (hc : w.Covers p (size (lenPieces lens)))
    (hm : w.Holds m p (lenPieces lens)) (hpra : pra.length = lens.length) :
    (unpackOutLensLoop m (windowSbuf w p) k pra).1.map RemoteArg.nLen = lens := by
  induction lens generalizing p k pra with
  | nil =>
      obtain rfl := List.length_eq_zero_iff.mp hpra
      rfl
  | cons n lens ih =>
      obtain ⟨a, pra, rfl⟩ := List.exists_cons_of_length_pos (l := pra) (by rw [hpra]; simp)
      rw [List.length_cons, List.length_cons, Nat.add_right_cancel_iff] at hpra
      have hsize : size (lenPieces (n :: lens)) = 4 + size (lenPieces lens) := by
        simp [lenPieces, Piece.size]
      rw [hsize] at h hc
      rw [← Nat.add_assoc] at h
      obtain ⟨hc₁, hc₂⟩ := hc
      obtain ⟨hword, hrest⟩ := hm
      rw [toLe_length] at hword hrest
      have hn := hlens n List.mem_cons_self
      have hread := sbufRead_held (m := m) (k := k) hw (h.mono (Nat.le_add_right _ _))
        ⟨hc₁, by omega⟩ hword
      have hrec := ih (fun k hk => hlens k (List.mem_cons_of_mem n hk)) (k := n) h
        ⟨by omega, by omega⟩ hrest hpra
      rw [unpackOutLensLoop]
      simp only [hread, ofLe_word hn, List.map_cons, hrec]

/-- **Unpacking output arguments that the memory holds** gives their bytes. -/
theorem unpackOutBufs_holds (hw : Addressable w) {bufs dsts : List (List UInt8)} {k : ℕ}
    (h : Reaches w (p + size (inPieces p bufs))) (hc : w.Covers p (size (inPieces p bufs)))
    (hm : w.Holds m p (inPieces p bufs)) (hdsts : dsts.map List.length = bufs.map List.length) :
    unpackOutBufs m (windowSbuf w p) k dsts = (0, bufs) := by
  induction bufs generalizing p k dsts with
  | nil =>
      obtain rfl := List.map_eq_nil_iff.mp hdsts
      rfl
  | cons bytes bufs ih =>
      obtain ⟨dst, dsts, rfl, hdst, htail⟩ := List.map_eq_cons_iff.mp hdsts
      rw [inPieces, size_append, ← Nat.add_assoc] at h
      rw [inPieces, size_append] at hc
      rw [inPieces, Window.holds_append] at hm
      obtain ⟨hc₁, hc₂⟩ := hc
      obtain ⟨hm, hrest⟩ := hm
      by_cases hb : bytes = []
      · subst hb
        have hsize : size (argPieces p []) = 4 := rfl
        rw [hsize] at h hrest hc₂
        have hread := sbufRead_held (m := m) (k := k) hw (h.mono (by omega))
          ⟨hc₁, by omega⟩ (holds_argPieces_nil.mp hm)
        have hrec := ih (k := 0) h ⟨by omega, by omega⟩ hrest htail
        obtain rfl := List.length_eq_zero_iff.mp hdst
        rw [unpackOutBufs]
        simp only [hread, ofLe_word (show 0 < 2 ^ 32 by omega), List.length_nil, if_true, ne_eq,
          not_true_eq_false, if_false, hrec]
      · obtain ⟨hword, hdata⟩ := (holds_argPieces hb).mp hm
        have hend := size_argPieces_cons (p := p) hb
        have hle := le_alignUp_eight (p + 4)
        have hpos : bytes.length ≠ 0 := fun h0 => hb (List.length_eq_zero_iff.mp h0)
        have hq : Reaches w (alignUp 8 (p + 4)) := h.mono (by omega)
        have hlt := h.1
        have hread := sbufRead_held (m := m) (k := k) hw (h.mono (by omega))
          ⟨hc₁, by omega⟩ hword
        have hrec := ih (k := bytes.length) h ⟨by omega, by omega⟩ hrest htail
        rw [hend] at h hrec
        have hcopy := sbufRead_eq (m := m) (p := alignUp 8 (p + 4)) hw dst
          (h.mono (by omega))
        have hcov : w.Covers (alignUp 8 (p + 4)) dst.length := ⟨by omega, by omega⟩
        rw [Window.get_of_covers hcov, hdst, hdata] at hcopy
        rw [unpackOutBufs]
        simp only [hread, ofLe_word (show bytes.length < 2 ^ 32 by omega), hdst, if_pos hpos,
          if_true, sbufAlign_eight hq, cInt_of_lt (show bytes.length < 2 ^ 31 by omega), hcopy,
          hrec]

/-! ### Output areas -/

/-- The callee fills its output areas. -/
def fillAreas : Store → List RemoteArg → List (List UInt8) → Store
  | m, a :: pra, bytes :: bufs => fillAreas (write m a.pv bytes) pra bufs
  | m, _, _ => m

theorem fillAreas_congr {m m' : Store} {x : ℕ} (h : m x = m' x) (pra : List RemoteArg)
    (bufs : List (List UInt8)) : fillAreas m pra bufs x = fillAreas m' pra bufs x := by
  induction pra generalizing m m' bufs with
  | nil => simpa [fillAreas] using h
  | cons a pra ih =>
      cases bufs with
      | nil => exact h
      | cons bytes bufs =>
          refine ih ?_ bufs
          unfold write
          rw [h]

theorem packOutBufs_empty (hw : Addressable w) {a : RemoteArg} (ha : a.nLen = 0)
    (pra : List RemoteArg) (h : Reaches w (p + 4)) :
    packOutBufs (m, windowSbuf w p) (a :: pra) =
      ((packOutBufs (w.put m p (toLe 4 0), windowSbuf w (p + 4)) pra).1,
        a :: (packOutBufs (w.put m p (toLe 4 0), windowSbuf w (p + 4)) pra).2) := by
  have hword := sbufWrite_word (m := m) hw 0 h
  simp only [packOutBufs, ha, show u32 ((0 : ℕ) : ℤ) = 0 from rfl, hword, ne_eq,
    not_true_eq_false, if_false]

theorem packOutBufs_area (hw : Addressable w) {a : RemoteArg} (ha : a.nLen ≠ 0)
    (pra : List RemoteArg) (h : Reaches w (alignUp 8 (p + 4) + a.nLen)) :
    packOutBufs (m, windowSbuf w p) (a :: pra) =
      let q := alignUp 8 (p + 4)
      let pv := if (a.nLen : ℤ) ≤ sbufLeft (windowSbuf w q) then w.base + q else a.pv
      let r := packOutBufs (w.put m p (toLe 4 a.nLen), windowSbuf w (q + a.nLen)) pra
      (r.1, ⟨pv, a.nLen⟩ :: r.2) := by
  have hlt := h.1
  have hle := le_alignUp_eight (p + 4)
  have hword := sbufWrite_word (m := m) hw a.nLen (h.mono (p := p + 4) (by omega))
  simp only [packOutBufs, u32_of_lt (show a.nLen < 2 ^ 32 by omega), hword, if_pos ha,
    sbufAlign_eight (h.mono (Nat.le_add_right _ _)), cInt_of_lt (show a.nLen < 2 ^ 31 by omega),
    sbufAdvance_eq h]
  rfl

/-- The memory after the output areas are laid out and filled. -/
def fillOutBufs (s : Store × Sbuf) (pra : List RemoteArg) (bufs : List (List UInt8)) : Store :=
  fillAreas (packOutBufs s pra).1.1 (packOutBufs s pra).2 bufs

/-- What holds of laid out areas: their pieces are in the memory once they are filled, and nothing
before them is written. -/
structure LaidOut (w : Window) (m : Store) (p : ℕ) (pra : List RemoteArg)
    (bufs : List (List UInt8)) : Prop where
  holds : w.Holds (fillOutBufs (m, windowSbuf w p) pra bufs) p (inPieces p bufs)
  frame : ∀ x, x < w.base + p → (packOutBufs (m, windowSbuf w p) pra).1.1 x = m x
  fillFrame : ∀ (m' : Store) x, x < w.base + p →
    fillAreas m' (packOutBufs (m, windowSbuf w p) pra).2 bufs x = m' x

theorem LaidOut.fill_frame {pra : List RemoteArg} {bufs : List (List UInt8)}
    (h : LaidOut w m p pra bufs) {x : ℕ} (hx : x < w.base + p) :
    fillOutBufs (m, windowSbuf w p) pra bufs x = m x := by
  rw [fillOutBufs, h.fillFrame _ x hx, h.frame x hx]

theorem LaidOut.nil : LaidOut w m p [] [] := ⟨trivial, fun _ _ => rfl, fun _ _ _ => rfl⟩

theorem slice_put_word {n : ℕ} (h : w.Covers p 4) :
    slice (w.put m p (toLe 4 n)) (w.base + p) 4 = toLe 4 n := by
  have hput := Window.slice_put (w := w) m (toLe 4 n) (p := p) (by rwa [toLe_length])
  rwa [toLe_length] at hput

theorem LaidOut.empty (hw : Addressable w) {a : RemoteArg} {pra : List RemoteArg}
    {bufs : List (List UInt8)} (ha : a.nLen = 0) (hr : Reaches w (p + 4)) (hc : w.Covers p 4)
    (h : LaidOut w (w.put m p (toLe 4 0)) (p + 4) pra bufs) :
    LaidOut w m p (a :: pra) ([] :: bufs) := by
  have heq := packOutBufs_empty (m := m) hw ha pra hr
  have hfill : fillOutBufs (m, windowSbuf w p) (a :: pra) ([] :: bufs) =
      fillOutBufs (w.put m p (toLe 4 0), windowSbuf w (p + 4)) pra bufs := by
    simp only [fillOutBufs, heq, fillAreas, write_nil]
  refine ⟨?_, ?_, ?_⟩
  · rw [hfill, inPieces, Window.holds_append]
    refine ⟨?_, h.holds⟩
    rw [holds_argPieces_nil, slice_congr (fun x _ hx => h.fill_frame (by omega)),
      slice_put_word hc]
  · intro x hx
    rw [heq, h.frame x (by omega), Window.put_outside (.inr (.inl hx))]
  · intro m' x hx
    simp only [heq, fillAreas, write_nil]
    exact h.fillFrame m' x (by omega)

theorem LaidOut.area (hw : Addressable w) {a : RemoteArg} {pra : List RemoteArg}
    {bytes : List UInt8} {bufs : List (List UInt8)} (ha : a.nLen = bytes.length)
    (hb : bytes ≠ []) (hr : Reaches w (alignUp 8 (p + 4) + bytes.length))
    (hc : w.Covers p (size (argPieces p bytes)))
    (h : LaidOut w (w.put m p (toLe 4 bytes.length)) (alignUp 8 (p + 4) + bytes.length) pra bufs) :
    LaidOut w m p (a :: pra) (bytes :: bufs) := by
  have hend := size_argPieces_cons (p := p) hb
  have hle := le_alignUp_eight (p + 4)
  obtain ⟨hc₁, hc₂⟩ := hc
  have hne : a.nLen ≠ 0 := fun h0 => hb (List.length_eq_zero_iff.mp (ha ▸ h0))
  have heq := packOutBufs_area (m := m) hw hne pra (by rwa [ha])
  simp only [ha, sbufLeft_eq hw (hr.mono (Nat.le_add_right _ _)) (show w.offset ≤ _ by omega),
    if_pos (show (bytes.length : ℤ) ≤ w.offset + w.len - alignUp 8 (p + 4) by omega)] at heq
  -- filling the area changes nothing outside it, and the later areas lie behind it
  have hfill : ∀ x, fillOutBufs (m, windowSbuf w p) (a :: pra) (bytes :: bufs) x =
      if x < w.base + (alignUp 8 (p + 4) + bytes.length) then
        write (w.put m p (toLe 4 bytes.length)) (w.base + alignUp 8 (p + 4)) bytes x
      else
        fillOutBufs (w.put m p (toLe 4 bytes.length),
          windowSbuf w (alignUp 8 (p + 4) + bytes.length)) pra bufs x := by
    intro x
    simp only [fillOutBufs, heq, fillAreas]
    split_ifs with hx
    · rw [h.fillFrame _ x hx]
      unfold write
      rw [h.frame x hx]
    · exact fillAreas_congr (write_outside _ _ (.inr (by omega))) _ _
  refine ⟨?_, ?_, ?_⟩
  · rw [inPieces, Window.holds_append, holds_argPieces hb, hend]
    refine ⟨⟨?_, ?_⟩, ?_⟩
    · rw [slice_congr (m := w.put m p (toLe 4 bytes.length)), slice_put_word ⟨hc₁, by omega⟩]
      intro x _ hx
      rw [hfill, if_pos (by omega), write_outside _ _ (.inl (by omega))]
    · rw [slice_congr (m := write (w.put m p (toLe 4 bytes.length))
        (w.base + alignUp 8 (p + 4)) bytes), slice_write_same]
      intro x _ hx
      rw [hfill, if_pos (by omega)]
    · refine h.holds.congr (fun x hx => ?_)
      rw [hfill, if_neg (by omega)]
  · intro x hx
    rw [heq, h.frame x (by omega), Window.put_outside (.inr (.inl hx))]
  · intro m' x hx
    simp only [heq, fillAreas]
    rw [h.fillFrame _ x (by omega), write_outside _ _ (.inl (by omega))]

/-- **Laying out output areas** in a window that covers them. -/
theorem laidOut (hw : Addressable w) {bufs : List (List UInt8)} {pra : List RemoteArg}
    (h : Reaches w (p + size (inPieces p bufs))) (hc : w.Covers p (size (inPieces p bufs)))
    (hpra : pra.map RemoteArg.nLen = bufs.map List.length) : LaidOut w m p pra bufs := by
  induction bufs generalizing m p pra with
  | nil =>
      obtain rfl := List.map_eq_nil_iff.mp hpra
      exact .nil
  | cons bytes bufs ih =>
      obtain ⟨a, pra, rfl, ha, htail⟩ := List.map_eq_cons_iff.mp hpra
      rw [inPieces, size_append, ← Nat.add_assoc] at h
      rw [inPieces, size_append] at hc
      obtain ⟨hc₁, hc₂⟩ := hc
      have hrest := ih (m := w.put m p (toLe 4 bytes.length)) h ⟨by omega, by omega⟩ htail
      by_cases hb : bytes = []
      · subst hb
        have hsize : size (argPieces p []) = 4 := rfl
        rw [hsize] at h hc₂
        exact .empty hw ha (h.mono (Nat.le_add_right _ _)) ⟨hc₁, by omega⟩ hrest
      · have hend := size_argPieces_cons (p := p) hb
        rw [hend] at h hrest
        exact .area hw ha hb (h.mono (Nat.le_add_right _ _)) ⟨hc₁, by omega⟩ hrest

/-- The position after laying out output areas, in any window. -/
theorem packOutBufs_position (hw : Addressable w) {bufs : List (List UInt8)}
    {pra : List RemoteArg} (h : Reaches w (p + size (inPieces p bufs)))
    (hpra : pra.map RemoteArg.nLen = bufs.map List.length) :
    (packOutBufs (m, windowSbuf w p) pra).1.2 = windowSbuf w (p + size (inPieces p bufs)) := by
  induction bufs generalizing m p pra with
  | nil =>
      obtain rfl := List.map_eq_nil_iff.mp hpra
      rfl
  | cons bytes bufs ih =>
      obtain ⟨a, pra, rfl, ha, htail⟩ := List.map_eq_cons_iff.mp hpra
      rw [inPieces, size_append, ← Nat.add_assoc] at h
      rw [inPieces, size_append, ← Nat.add_assoc]
      have hrest := ih (m := w.put m p (toLe 4 bytes.length)) h htail
      by_cases hb : bytes = []
      · subst hb
        rw [packOutBufs_empty hw ha pra (h.mono (Nat.le_add_right _ _))]
        exact hrest
      · have hne : a.nLen ≠ 0 := fun h0 => hb (List.length_eq_zero_iff.mp (ha ▸ h0))
        rw [size_argPieces_cons hb] at h hrest ⊢
        rw [packOutBufs_area hw hne pra (by rw [ha]; exact h.mono (Nat.le_add_right _ _)), ha]
        exact hrest

/-- Laying out keeps the lengths. -/
theorem packOutBufs_nLen (s : Store × Sbuf) (pra : List RemoteArg) :
    (packOutBufs s pra).2.map RemoteArg.nLen = pra.map RemoteArg.nLen := by
  induction pra generalizing s with
  | nil => rfl
  | cons a pra ih =>
      simp only [packOutBufs]
      split_ifs <;> simp [ih]

end Codec

/-! ### Round trip -/

/-- A window that shows a stream from its start on. -/
def blockWindow (data dataLen : ℕ) : Window := ⟨0, data, dataLen, Nat.zero_le data⟩

/-- A request: the input arguments, then the output lengths. -/
def packRequest (s : Store × Sbuf) (bufs : List (List UInt8)) (lens : List ℕ) : Store × Sbuf :=
  packOutLens (packInBufs s bufs) lens

/-- The arguments of a request. -/
def unpackRequest (m : Store) (b : Sbuf) (ins outs : List RemoteArg) :
    List RemoteArg × List RemoteArg :=
  ((unpackInBufs m b ins).1, (unpackOutLens m (unpackInBufs m b ins).2 outs).1)

section RoundTrip

variable {data dataLen : ℕ} {m : Store}

theorem sbufInit_block (h : Addressable (blockWindow data dataLen)) :
    sbufInit 0 data dataLen = windowSbuf (blockWindow data dataLen) 0 := sbufInit_eq h

theorem addressable_block (hlen : dataLen < 2 ^ 31) (hend : data + dataLen < 2 ^ 64) :
    Addressable (blockWindow data dataLen) := ⟨by simp [blockWindow], hlen, hend⟩

theorem reaches_block {p : ℕ} (hp : p < 2 ^ 31) (hend : data + p < 2 ^ 64) :
    Reaches (blockWindow data dataLen) p := ⟨hp, hend⟩

theorem covers_block {p n : ℕ} (h : p + n ≤ dataLen) : (blockWindow data dataLen).Covers p n :=
  ⟨Nat.zero_le p, by simpa [blockWindow] using h⟩

variable {bufs : List (List UInt8)} {lens : List ℕ}

theorem packRequest_block (hlen : dataLen < 2 ^ 31) (hend : data + dataLen < 2 ^ 64)
    (hlens : ∀ n ∈ lens, n < 2 ^ 32) (hp : packedSize bufs lens < 2 ^ 31)
    (hdata : data + packedSize bufs lens < 2 ^ 64) :
    packRequest (m, sbufInit 0 data dataLen) bufs lens =
      ((blockWindow data dataLen).render m 0 (inPieces 0 bufs ++ lenPieces lens),
        windowSbuf (blockWindow data dataLen) (packedSize bufs lens)) := by
  have hw := addressable_block hlen hend
  have hr : Reaches (blockWindow data dataLen) (packedSize bufs lens) := reaches_block hp hdata
  have hle : 0 + size (inPieces 0 bufs) ≤ packedSize bufs lens := by
    unfold packedSize
    omega
  rw [packRequest, sbufInit_block hw, packInBufs_eq hw bufs (hr.mono hle), Nat.zero_add,
    packOutLens_eq hw hlens hr, Window.render_append, Nat.zero_add]
  rfl

theorem sbufNeeded_request (hlen : dataLen < 2 ^ 31) (hend : data + dataLen < 2 ^ 64)
    (hlens : ∀ n ∈ lens, n < 2 ^ 32) (hp : packedSize bufs lens < 2 ^ 31)
    (hdata : data + packedSize bufs lens < 2 ^ 64) :
    sbufNeeded (packRequest (m, sbufInit 0 data dataLen) bufs lens).2 = packedSize bufs lens := by
  rw [packRequest_block hlen hend hlens hp hdata, sbufNeeded_eq (reaches_block hp hdata)]

/-- Unpacking a request from the buffer it was packed into. -/
theorem unpackRequest_packRequest (hlen : dataLen < 2 ^ 31) (hend : data + dataLen < 2 ^ 64)
    (hlens : ∀ n ∈ lens, n < 2 ^ 32) (hp : packedSize bufs lens ≤ dataLen)
    {ins outs : List RemoteArg} (hins : ins.length = bufs.length)
    (houts : outs.length = lens.length) :
    let packed := (packRequest (m, sbufInit 0 data dataLen) bufs lens).1
    let args := unpackRequest packed (sbufInit 0 data dataLen) ins outs
    args.1.map (fun a => slice packed a.pv a.nLen) = bufs ∧
      args.2.map RemoteArg.nLen = lens := by
  have hw := addressable_block hlen hend
  have hr : Reaches (blockWindow data dataLen) (packedSize bufs lens) :=
    reaches_block (hp.trans_lt hlen) (by omega)
  have hcover : (blockWindow data dataLen).Covers 0 (size (inPieces 0 bufs ++ lenPieces lens)) :=
    covers_block (by rw [size_append, Nat.zero_add]; exact hp)
  rw [packRequest_block hlen hend hlens (hp.trans_lt hlen) (by omega)]
  have hholds := Window.holds_render (m := m) hcover
  rw [Window.holds_append, Nat.zero_add] at hholds
  have hle : 0 + size (inPieces 0 bufs) ≤ packedSize bufs lens := by
    unfold packedSize
    omega
  obtain ⟨hin, hcur⟩ := unpackInBufsLoop_holds hw (k := 0) (hr.mono hle)
    (covers_block (hle.trans hp)) hholds.1 hins
  rw [Nat.zero_add] at hcur
  have hout := unpackOutLensLoop_holds hw hlens (k := 0) hr (covers_block hp) hholds.2 houts
  simp only [unpackRequest, unpackInBufs, unpackOutLens, sbufInit_block hw, hcur]
  exact ⟨hin, hout⟩

/-- Unpacking output arguments from the buffer in which their areas were laid out and filled. -/
theorem unpackOutBufs_fillOutBufs (hlen : dataLen < 2 ^ 31) (hend : data + dataLen < 2 ^ 64)
    (hp : size (inPieces 0 bufs) ≤ dataLen) {pra : List RemoteArg} {dsts : List (List UInt8)}
    (hpra : pra.map RemoteArg.nLen = bufs.map List.length)
    (hdsts : dsts.map List.length = bufs.map List.length) (len : ℕ) :
    unpackOutBufs (fillOutBufs (m, sbufInit 0 data dataLen) pra bufs) (sbufInit 0 data dataLen)
      len dsts = (0, bufs) := by
  have hw := addressable_block hlen hend
  have hr : Reaches (blockWindow data dataLen) (0 + size (inPieces 0 bufs)) :=
    reaches_block (by omega) (by omega)
  have hcover : (blockWindow data dataLen).Covers 0 (size (inPieces 0 bufs)) :=
    covers_block (by omega)
  rw [sbufInit_block hw]
  exact unpackOutBufs_holds hw hr hcover (laidOut hw hr hcover hpra).holds hdsts

end RoundTrip

/-- **The argument codec.** A request of less than `2 ^ 31` bytes, packed into a buffer of at least
the measured size, is unpacked to the same input contents and output lengths (below `2 ^ 32`), and
output areas that the callee has filled are unpacked to their contents; both measuring runs find
the size that the real run uses. -/
theorem argument_codec :
    (∀ (bufs : List (List UInt8)) (lens : List ℕ) (ins outs : List RemoteArg) (m₀ m : Store)
      (data dataLen : ℕ), packedSize bufs lens < 2 ^ 31 → (∀ n ∈ lens, n < 2 ^ 32) →
      ins.length = bufs.length → outs.length = lens.length → dataLen < 2 ^ 31 →
      data + dataLen < 2 ^ 64 →
      sbufNeeded (packRequest (m₀, sbufInit 0 0 0) bufs lens).2 ≤ dataLen →
      let packed := packRequest (m, sbufInit 0 data dataLen) bufs lens
      let args := unpackRequest packed.1 (sbufInit 0 data dataLen) ins outs
      args.1.map (fun a => slice packed.1 a.pv a.nLen) = bufs ∧
        args.2.map RemoteArg.nLen = lens ∧
        sbufNeeded packed.2 = sbufNeeded (packRequest (m₀, sbufInit 0 0 0) bufs lens).2) ∧
    ∀ (bufs dsts : List (List UInt8)) (pra : List RemoteArg) (m₀ m : Store)
      (data dataLen len : ℕ), size (inPieces 0 bufs) < 2 ^ 31 →
      pra.map RemoteArg.nLen = bufs.map List.length →
      dsts.map List.length = bufs.map List.length → dataLen < 2 ^ 31 → data + dataLen < 2 ^ 64 →
      sbufNeeded (packOutBufs (m₀, sbufInit 0 0 0) pra).1.2 ≤ dataLen →
      let measured := packOutBufs (m₀, sbufInit 0 0 0) pra
      let filled := fillOutBufs (m, sbufInit 0 data dataLen) measured.2 bufs
      unpackOutBufs filled (sbufInit 0 data dataLen) len dsts = (0, bufs) ∧
        sbufNeeded (packOutBufs (m, sbufInit 0 data dataLen) measured.2).1.2 =
          sbufNeeded measured.1.2 := by
  constructor
  · intro bufs lens ins outs m₀ m data dataLen hp hlens hins houts hlen hend hfit
    have hmeasured := @sbufNeeded_request 0 0 m₀ bufs lens (by omega) (by omega) hlens hp
      (by omega)
    have hfit' : packedSize bufs lens ≤ dataLen := by
      have hle := hmeasured ▸ hfit
      omega
    obtain ⟨hin, hout⟩ := unpackRequest_packRequest (m := m) hlen hend hlens hfit' hins houts
    refine ⟨hin, hout, ?_⟩
    rw [sbufNeeded_request hlen hend hlens hp (by omega)]
    exact hmeasured.symm
  · intro bufs dsts pra m₀ m data dataLen len hp hpra hdsts hlen hend hfit
    have hneeded : ∀ (m : Store) (data dataLen : ℕ) (pra : List RemoteArg), dataLen < 2 ^ 31 →
        data + dataLen < 2 ^ 64 → data + size (inPieces 0 bufs) < 2 ^ 64 →
        pra.map RemoteArg.nLen = bufs.map List.length →
        sbufNeeded (packOutBufs (m, sbufInit 0 data dataLen) pra).1.2 =
          size (inPieces 0 bufs) := by
      intro m data dataLen pra hlen hend hdata hpra
      have hr : Reaches (blockWindow data dataLen) (0 + size (inPieces 0 bufs)) :=
        reaches_block (by omega) (by omega)
      have hw := addressable_block hlen hend
      rw [sbufInit_block hw, packOutBufs_position hw hr hpra, sbufNeeded_eq hr, Nat.zero_add]
    have hmeasured := hneeded m₀ 0 0 pra (by omega) (by omega) (by omega) hpra
    have hpra' := (packOutBufs_nLen (m₀, sbufInit 0 0 0) pra).trans hpra
    have hfit' : size (inPieces 0 bufs) ≤ dataLen := by
      have hle := hmeasured ▸ hfit
      omega
    refine ⟨unpackOutBufs_fillOutBufs hlen hend hfit' hpra' hdsts len, ?_⟩
    exact (hneeded m data dataLen _ hlen hend (by omega) hpra').trans hmeasured.symm

/-- Two input arguments, one of them empty, and one output argument. -/
theorem argument_codec_two_inputs :
    (let m : Store := fun _ => 0
     let packed := packRequest (m, sbufInit 0 0x1000 64) [[1, 2, 3], []] [7]
     let args := unpackRequest packed.1 (sbufInit 0 0x1000 64) [⟨0, 0⟩, ⟨0, 0⟩] [⟨0, 0⟩]
     args.1.map (fun a => slice packed.1 a.pv a.nLen) = [[1, 2, 3], []] ∧
       args.2.map RemoteArg.nLen = [7] ∧
       sbufNeeded packed.2 = sbufNeeded (packRequest (m, sbufInit 0 0 0) [[1, 2, 3], []] [7]).2) ∧
    (let m : Store := fun _ => 0
     let measured := packOutBufs (m, sbufInit 0 0 0) [⟨0, 2⟩]
     let filled := fillOutBufs (m, sbufInit 0 0x1000 64) measured.2 [[8, 9]]
     unpackOutBufs filled (sbufInit 0 0x1000 64) 0 [[0, 0]] = (0, [[8, 9]]) ∧
       sbufNeeded (packOutBufs (m, sbufInit 0 0x1000 64) measured.2).1.2 =
         sbufNeeded measured.1.2) :=
  ⟨argument_codec.1 [[1, 2, 3], []] [7] [⟨0, 0⟩, ⟨0, 0⟩] [⟨0, 0⟩] (fun _ => 0) (fun _ => 0) 0x1000 64
      (by decide) (by decide) rfl rfl (by decide) (by decide) (by decide +kernel),
    argument_codec.2 [[8, 9]] [[0, 0]] [⟨0, 2⟩] (fun _ => 0) (fun _ => 0) 0x1000 64 0
      (by decide) rfl rfl (by decide) (by decide) (by decide +kernel)⟩

/-- An output length of `2 ^ 32` arrives as `0`. -/
theorem output_length_truncated :
    packedSize [] [2 ^ 32] < 2 ^ 31 ∧
      (let packed := packRequest (fun _ => 0, sbufInit 0 0x1000 64) [] [2 ^ 32]
       (unpackRequest packed.1 (sbufInit 0 0x1000 64) [] [⟨0, 0⟩]).2.map RemoteArg.nLen) = [0] := by
  decide +kernel

end FastRpc
