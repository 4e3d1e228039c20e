import FastRpc.FdList
import FastRpc.Transition
import Mathlib.Data.List.Basic
import Mathlib.Data.List.Nodup
import Mathlib.Data.List.Pairwise
import Mathlib.Algebra.BigOperators.Group.List.Basic

/-! # The allocations of `rpcmem`

`rpcmem_alloc_internal` gets a file descriptor from an `ioctl`, maps it, and appends the buffer to
`rpclst` and to the list of registered buffers; `rpcmem_free_internal` takes all of this back.  The
kernel's side is here too: the open descriptors and the mappings.  A mapping gets addresses that are not
mapped, and `munmap` removes what lies in its range.

`allocations_paired` says when every list holds exactly the live buffers.  A failing `mmap` returns
`MAP_FAILED`, which the check `0 != …` lets pass, and the failing buffer is listed, registered and
returned (`map_failed_is_listed`).  The size of a buffer is kept in an `int`, so that from `2 ^ 31` on
another length is unmapped. -/

namespace FastRpc.RpcMem

open CInt FdList Transition

/-! ### The library and the kernel -/

/-- `struct rpc_info`; its field `aligned_buf` is equal to `buf`. -/
structure RpcInfo where
  buf : ℕ
  size : ℤ
  fd : ℤ
  deriving DecidableEq, Repr

/-- The descriptors `dmafd` and `rpcfd` are open or not and `fastrpc_init_once` succeeds or not, once for
all.  `rpclst` and `fdlist` are the lists of the library, `fds` and `mapped` what the kernel gave it: the
open descriptors, and the mappings with their lengths. -/
structure State where
  dmafd : Bool
  rpcfd : Bool
  init : Bool
  rpclst : List RpcInfo
  fdlist : List MemToFd
  fds : List ℤ
  mapped : List (ℕ × ℕ)
  deriving DecidableEq, Repr

/-- What `mmap` returns. -/
inductive Mmap
  | failed
  | mapped (addr : ℕ)
  deriving DecidableEq, Repr

/-- `MAP_FAILED`. -/
def mapFailed : ℕ := 2 ^ 64 - 1

/-- The end of the addresses of a process. -/
def userEnd : ℕ := 2 ^ 63

/-- What the calls in `rpcmem_alloc_internal` do: `calloc`, the `ioctl` with its descriptor, `mmap`, and
`calloc` in the registration. -/
structure AllocOutcome where
  rinfo : Bool
  ioctl : Option ℤ
  mmap : Mmap
  tofd : Bool
  deriving DecidableEq, Repr

/-- The buffer after a call of `mmap`, and the mappings. -/
def State.mmap (s : State) (size : ℕ) : Mmap → ℕ × State
  | .failed => (mapFailed, s)
  | .mapped addr => (addr, { s with mapped := s.mapped ++ [(addr, size)] })

/-- What is left of a mapping. -/
def pieces (addr len : ℕ) (r : ℕ × ℕ) : List (ℕ × ℕ) :=
  (if r.1 < addr then [(r.1, min r.2 (addr - r.1))] else []) ++
    (if addr + len < r.1 + r.2 then
      [(max r.1 (addr + len), r.1 + r.2 - max r.1 (addr + len))] else [])

/-- `munmap`, which refuses an empty range and one outside the addresses of the process. -/
def munmap (l : List (ℕ × ℕ)) (addr len : ℕ) : List (ℕ × ℕ) :=
  if len = 0 ∨ userEnd < addr + len then l else l.flatMap (pieces addr len)

/-- The part of `rpcmem_alloc_internal` before the registration. -/
def allocate (s : State) (size : ℕ) (o : AllocOutcome) : Option RpcInfo × State :=
  if (s.dmafd = false ∧ s.rpcfd = false) ∨ size = 0 then (none, s)
  else if !o.rinfo then (none, s)
  else
    match o.ioctl with
    | none => (none, s)
    | some fd =>
        let m := { s with fds := s.fds ++ [fd] }.mmap size o.mmap
        if m.1 = 0 then (none, m.2)
        else
          let rinfo := ⟨m.1, wrap size, fd⟩
          (some rinfo, { m.2 with rpclst := m.2.rpclst ++ [rinfo] })

/-- `remote_register_buf(rinfo->buf, rinfo->size, fd)`. -/
def State.register (s : State) (tofd : Bool) (rinfo : RpcInfo) (fd : ℤ) :
    Option (Except RegisterError Unit × State) :=
  (remoteRegisterBuf s.fdlist s.init tofd rinfo.buf rinfo.size fd).map (fun r =>
    (r.1, { s with fdlist := r.2 }))

/-- `rpcmem_alloc_internal`: the pointer it returns. -/
def rpcmemAllocInternal (s : State) (size : ℕ) (o : AllocOutcome) : Option (ℕ × State) :=
  match allocate s size o with
  | (none, s) => some (0, s)
  | (some rinfo, s) => (s.register o.tofd rinfo rinfo.fd).map (fun r => (rinfo.buf, r.2))

/-- `rpcmem_free_internal`. -/
def rpcmemFreeInternal (s : State) (po : ℕ) : Option State :=
  match s.rpclst.find? (fun r => r.buf = po) with
  | none => some s
  | some rfree =>
      let s := { s with rpclst := s.rpclst.eraseP (fun r => r.buf = po) }
      (s.register true rfree (-1)).map (fun r => { r.2 with
        mapped := munmap r.2.mapped rfree.buf (sizeT rfree.size), fds := r.2.fds.erase rfree.fd })

/-! ### Runs -/

/-- A buffer that was returned and not freed, with the length of its mapping, and the size that was
registered for it. -/
structure Alloc where
  buf : ℕ
  size : ℕ
  fd : ℤ
  reg : Option ℕ
  deriving DecidableEq, Repr

/-- The state, the live buffers, and whether the process was aborted. -/
structure World where
  state : State
  live : List Alloc
  aborted : Bool

/-- The calls, with any heap and flags. -/
inductive Event
  | alloc (heapid : ℤ) (flags : UInt32) (size : ℕ) (o : AllocOutcome)
  | free (po : ℕ)
  deriving DecidableEq, Repr

/-- Two ranges have no address in common. -/
def Apart (a b : ℕ × ℕ) : Prop := a.1 + a.2 ≤ b.1 ∨ b.1 + b.2 ≤ a.1

instance (a b : ℕ × ℕ) : Decidable (Apart a b) := inferInstanceAs (Decidable (_ ∨ _))

/-- What the kernel can do: a descriptor is new, and so are the addresses of a mapping. -/
def Possible (s : State) (size : ℕ) (o : AllocOutcome) : Prop :=
  (∀ fd, o.ioctl = some fd → 0 ≤ fd ∧ fd ∉ s.fds) ∧
    match o.mmap with
    | .failed => True
    | .mapped addr => addr + size ≤ userEnd ∧ ∀ r ∈ s.mapped, Apart r (addr, size)

/-- The kernel's part of `Possible` for the descriptor and for the mapping can be tested. -/
instance (s : State) (size : ℕ) (o : AllocOutcome) : Decidable (Possible s size o) :=
  have : Decidable (∀ fd, o.ioctl = some fd → 0 ≤ fd ∧ fd ∉ s.fds) :=
    match o.ioctl with
    | none => isTrue (fun _ h => nomatch h)
    | some fd =>
        decidable_of_iff (0 ≤ fd ∧ fd ∉ s.fds)
          ⟨fun h _ he => Option.some.inj he ▸ h, fun h => h fd rfl⟩
  have : Decidable (match o.mmap with
      | .failed => True
      | .mapped addr => addr + size ≤ userEnd ∧ ∀ r ∈ s.mapped, Apart r (addr, size)) :=
    match o.mmap with
    | .failed => isTrue trivial
    | .mapped _ => inferInstanceAs (Decidable (_ ∧ _))
  inferInstanceAs (Decidable (_ ∧ _))

/-- The buffer that an allocation makes live. -/
def liveOf (s : State) (size : ℕ) (o : AllocOutcome) : List Alloc :=
  match allocate s size o, o.mmap with
  | (some rinfo, s), .mapped _ =>
      [⟨rinfo.buf, size, rinfo.fd,
        match s.register o.tofd rinfo rinfo.fd with
        | some (.ok (), _) => some (sizeT rinfo.size)
        | _ => none⟩]
  | _, _ => []

/-- One call. -/
def step (w : World) : Event → Option World
  | .alloc _ _ size o =>
      if w.aborted = false ∧ size < 2 ^ 64 ∧ Possible w.state size o then
        match rpcmemAllocInternal w.state size o with
        | some (_, s) => some ⟨s, w.live ++ liveOf w.state size o, false⟩
        | none => some { w with aborted := true }
      else none
  | .free po =>
      if w.aborted = false then
        match rpcmemFreeInternal w.state po with
        | some s => some ⟨s, w.live.eraseP (fun a => a.buf = po), false⟩
        | none => some { w with aborted := true }
      else none

/-- A process after `rpcmem_init`. -/
def init (dmafd rpcfd initOnce : Bool) : World := ⟨⟨dmafd, rpcfd, initOnce, [], [], [], []⟩, [], false⟩

/-! ### The property and the condition -/

/-- The list of the library, the open descriptors and the mappings are those of the live buffers, and so
are the registered buffers with the sizes they were registered with. -/
structure Paired (w : World) : Prop where
  alive : w.aborted = false
  rpclst : w.state.rpclst.map (fun r => (r.buf, r.fd)) = w.live.map (fun a => (a.buf, a.fd))
  fds : w.state.fds = w.live.map Alloc.fd
  mapped : w.state.mapped = w.live.map (fun a => (a.buf, a.size))
  fdlist : w.state.fdlist.map (fun e => (e.buf, e.size, e.fd)) =
    w.live.filterMap (fun a => a.reg.map (fun n => (a.buf, n, a.fd)))

/-- An allocation whose `ioctl` succeeds gets a mapping, and a live buffer that is freed is shorter than
`2 ^ 31` bytes. -/
def Orderly (w : World) : Event → Prop
  | .alloc _ _ size o =>
      (w.state.dmafd = true ∨ w.state.rpcfd = true) → size ≠ 0 → o.rinfo = true → o.ioctl ≠ none →
        o.mmap ≠ .failed ∧ o.mmap ≠ .mapped 0
  | .free po => ∀ a ∈ w.live, a.buf = po → a.size < 2 ^ 31

instance (w : World) : (e : Event) → Decidable (Orderly w e)
  | .alloc .. => inferInstanceAs (Decidable (_ → _ → _ → _ → _ ∧ _))
  | .free _ => inferInstanceAs (Decidable (∀ a ∈ w.live, _ → _))

/-! ### The list of registered buffers -/

section Registration

variable {l : List MemToFd} {buf size : ℕ} {fd : ℤ}

theorem countRef_none (h : ∀ e ∈ l, e.buf ≠ buf) : countRef buf size fd 0 l = none := by
  induction l with
  | nil => rfl
  | cons e rest ih =>
      have hne : ¬ (e.buf = buf ∧ e.size = size ∧ e.fd = fd) :=
        fun hall => h e List.mem_cons_self hall.1
      simp only [countRef, if_neg hne, ih (fun x hx => h x (List.mem_cons_of_mem e hx)),
        Option.map_none]

/-- A buffer at a new address is appended, or the registration fails. -/
theorem remoteRegisterBuf_new (initOnce tofd : Bool) (z : ℤ) (h : ∀ e ∈ l, e.buf ≠ buf)
    (hfd : fd ≠ -1) :
    (∃ e, remoteRegisterBuf l initOnce tofd buf z fd = some (.error e, l)) ∨
      initOnce = true ∧ sizeT z ≠ 0 ∧ remoteRegisterBuf l initOnce tofd buf z fd =
        some (.ok (), l ++ [⟨buf, sizeT z, fd, 0, 0, 1⟩]) := by
  unfold remoteRegisterBuf remoteRegisterBufCommon
  rw [countRef_none h]
  split_ifs with hinit hbuf hsize hallocated
  · exact Or.inl ⟨_, rfl⟩
  · exact Or.inl ⟨_, rfl⟩
  · exact Or.inl ⟨_, rfl⟩
  · exact Or.inl ⟨_, rfl⟩
  · exact Or.inr ⟨by simpa using hinit, hsize, rfl⟩

end Registration

/-! ### The invariant -/

/-- The addresses of a buffer. -/
def Alloc.range (a : Alloc) : ℕ × ℕ := (a.buf, a.size)

instance : Std.Symm (fun a b : Alloc => Apart a.range b.range) := ⟨fun _ _ h => Or.symm h⟩

/-- Ranges that are apart, and not empty, start at different addresses. -/
theorem Apart.ne {r r' : ℕ × ℕ} (h : Apart r r') (hr : 0 < r.2) (hr' : 0 < r'.2) :
    r.1 ≠ r'.1 := by
  rcases h with h | h <;> omega

/-- The entry of a buffer in the list of registered buffers. -/
def Alloc.entry (a : Alloc) : Option MemToFd :=
  a.reg.map (fun n => ⟨a.buf, n, a.fd, 0, 0, 1⟩)

theorem Alloc.entry_none {a : Alloc} (h : a.reg = none) : a.entry = none := by
  rw [Alloc.entry, h]; rfl

theorem Alloc.entry_some {a : Alloc} {n : ℕ} (h : a.reg = some n) :
    a.entry = some ⟨a.buf, n, a.fd, 0, 0, 1⟩ := by
  rw [Alloc.entry, h]; rfl

/-- A live buffer lies in the addresses of the process, and is registered, if it is, with the size of its
entry. -/
structure Alloc.Sound (initOnce : Bool) (a : Alloc) : Prop where
  buf : 0 < a.buf
  size : 0 < a.size
  bound : a.buf + a.size ≤ userEnd
  reg : ∀ n, a.reg = some n → n = sizeT (wrap a.size) ∧ n ≠ 0 ∧ initOnce = true

/-- What every orderly step keeps. -/
structure Inv (w : World) : Prop where
  alive : w.aborted = false
  rpclst : w.state.rpclst = w.live.map (fun a => ⟨a.buf, wrap a.size, a.fd⟩)
  fds : w.state.fds = w.live.map Alloc.fd
  mapped : w.state.mapped = w.live.map Alloc.range
  fdlist : w.state.fdlist = w.live.filterMap Alloc.entry
  apart : w.live.Pairwise (fun a b => Apart a.range b.range)
  nodup : (w.live.map Alloc.fd).Nodup
  sound : ∀ a ∈ w.live, a.Sound w.state.init

theorem inv_init (dmafd rpcfd initOnce : Bool) : Inv (init dmafd rpcfd initOnce) :=
  ⟨rfl, rfl, rfl, rfl, rfl, List.Pairwise.nil, List.nodup_nil, fun _ ha => nomatch ha⟩

theorem Inv.paired {w : World} (h : Inv w) : Paired w where
  alive := h.alive
  rpclst := by rw [h.rpclst, List.map_map]; rfl
  fds := h.fds
  mapped := h.mapped
  fdlist := by
    rw [h.fdlist, List.map_filterMap]
    congr 1
    funext a
    cases hreg : a.reg with
    | none => simp [Alloc.entry, hreg]
    | some n => simp [Alloc.entry, hreg]

/-- Registered buffers have the addresses of live ones. -/
theorem mem_fdlist {l : List Alloc} {e : MemToFd} (he : e ∈ l.filterMap Alloc.entry) :
    ∃ a ∈ l, a.buf = e.buf := by
  obtain ⟨a, ha, hentry⟩ := List.mem_filterMap.mp he
  refine ⟨a, ha, ?_⟩
  unfold Alloc.entry at hentry
  obtain ⟨n, _, rfl⟩ := Option.map_eq_some_iff.mp hentry
  rfl

/-! ### Allocations -/

section Allocations

variable {w : World} {s : State} {size : ℕ} {o : AllocOutcome}

/-- How far an allocation comes before the registration. -/
theorem allocate_cases (s : State) (size : ℕ) (o : AllocOutcome) :
    allocate s size o = (none, s) ∧
        ((s.dmafd = true ∨ s.rpcfd = true) → size ≠ 0 → o.rinfo = true → o.ioctl = none) ∨
      ∃ fd, size ≠ 0 ∧ o.ioctl = some fd ∧
        ((s.dmafd = true ∨ s.rpcfd = true) ∧ o.rinfo = true) ∧
        ((o.mmap = .failed ∧ allocate s size o = (some ⟨mapFailed, wrap size, fd⟩, { s with
            fds := s.fds ++ [fd], rpclst := s.rpclst ++ [⟨mapFailed, wrap size, fd⟩] })) ∨
          (o.mmap = .mapped 0 ∧ allocate s size o = (none, { s with
            fds := s.fds ++ [fd], mapped := s.mapped ++ [(0, size)] })) ∨
          ∃ addr, o.mmap = .mapped addr ∧ addr ≠ 0 ∧
            allocate s size o = (some ⟨addr, wrap size, fd⟩, { s with
              fds := s.fds ++ [fd], mapped := s.mapped ++ [(addr, size)],
              rpclst := s.rpclst ++ [⟨addr, wrap size, fd⟩] })) := by
  unfold allocate
  by_cases hnone : (s.dmafd = false ∧ s.rpcfd = false) ∨ size = 0
  · rw [if_pos hnone]
    refine Or.inl ⟨rfl, fun hopen hsize _ => ?_⟩
    rcases hnone with ⟨hd, hr⟩ | hzero
    · rw [hd, hr] at hopen
      exact absurd hopen (by decide)
    · exact absurd hzero hsize
  · obtain ⟨hopen, hsize⟩ := not_or.mp hnone
    have hopen' : s.dmafd = true ∨ s.rpcfd = true := by
      cases hd : s.dmafd <;> cases hr : s.rpcfd <;> simp_all
    rw [if_neg hnone]
    cases hrinfo : o.rinfo with
    | false => exact Or.inl ⟨rfl, fun _ _ h => absurd h Bool.false_ne_true⟩
    | true =>
        simp only [Bool.not_true, Bool.false_eq_true, if_false]
        cases hioctl : o.ioctl with
        | none => exact Or.inl ⟨rfl, fun _ _ _ => rfl⟩
        | some fd =>
            refine Or.inr ⟨fd, hsize, rfl, ⟨hopen', trivial⟩, ?_⟩
            cases hmmap : o.mmap with
            | failed => exact Or.inl ⟨rfl, rfl⟩
            | mapped addr =>
                by_cases haddr : addr = 0
                · subst haddr
                  exact Or.inr (Or.inl ⟨rfl, rfl⟩)
                · refine Or.inr (Or.inr ⟨addr, rfl, haddr, ?_⟩)
                  exact if_neg haddr

/-- A new buffer, with or without a registration. -/
theorem Inv.grow (h : Inv w) {a : Alloc} {fdlist : List MemToFd}
    (hfdlist : fdlist = w.state.fdlist ++ a.entry.toList) (hsound : a.Sound w.state.init)
    (happart : ∀ b ∈ w.live, Apart b.range a.range) (hfd : a.fd ∉ w.state.fds) :
    Inv ⟨{ w.state with
      fds := w.state.fds ++ [a.fd], mapped := w.state.mapped ++ [a.range],
      rpclst := w.state.rpclst ++ [⟨a.buf, wrap a.size, a.fd⟩], fdlist := fdlist },
      w.live ++ [a], false⟩ where
  alive := rfl
  rpclst := by simp only [h.rpclst, List.map_append, List.map_cons, List.map_nil]
  fds := by simp only [h.fds, List.map_append, List.map_cons, List.map_nil]
  mapped := by simp only [h.mapped, List.map_append, List.map_cons, List.map_nil]
  fdlist := by
    simp only [hfdlist, h.fdlist, List.filterMap_append, List.filterMap_cons, List.filterMap_nil]
    cases a.entry with
    | none => rfl
    | some e => rfl
  apart := by
    refine List.pairwise_append.mpr ⟨h.apart, List.pairwise_singleton _ _, ?_⟩
    intro b hb c hc
    rw [List.mem_singleton.mp hc]
    exact happart b hb
  nodup := by
    rw [List.map_append]
    refine List.nodup_append.mpr ⟨h.nodup, List.pairwise_singleton _ a.fd, ?_⟩
    rintro x hx y hy rfl
    rw [h.fds] at hfd
    obtain rfl : x = a.fd := List.mem_singleton.mp hy
    exact hfd hx
  sound := by
    intro b hb
    rcases List.mem_append.mp hb with hold | hone
    · exact h.sound b hold
    · rw [List.mem_singleton.mp hone]
      exact hsound

/-- **An allocation** that fails changes nothing, and one that succeeds adds one buffer everywhere. -/
theorem inv_alloc (h : Inv w) (hpossible : Possible w.state size o) {heapid : ℤ} {flags : UInt32}
    (hC : Orderly w (.alloc heapid flags size o)) :
    ∃ po s, rpcmemAllocInternal w.state size o = some (po, s) ∧
      Inv ⟨s, w.live ++ liveOf w.state size o, false⟩ := by
  unfold rpcmemAllocInternal liveOf
  rcases allocate_cases w.state size o with ⟨hnone, _⟩ | ⟨fd, hsize, hioctl, ⟨hopen, hrinfo⟩, hcases⟩
  · rw [hnone]
    refine ⟨0, w.state, rfl, ?_⟩
    obtain ⟨state, live, aborted⟩ := w
    obtain rfl : aborted = false := h.alive
    simpa using h
  · obtain ⟨hmmap, hzero⟩ := hC hopen hsize hrinfo (by rw [hioctl]; exact Option.some_ne_none fd)
    obtain ⟨hfd, hkernel⟩ := hpossible
    rcases hcases with ⟨hfailed, _⟩ | ⟨hnull, _⟩ | ⟨addr, hmapped, haddr, halloc⟩
    · exact absurd hfailed hmmap
    · exact absurd hnull hzero
    · rw [halloc, hmapped]
      rw [hmapped] at hkernel
      obtain ⟨hnew, hfresh⟩ := hkernel
      obtain ⟨hfd0, hfdnew⟩ := hfd fd hioctl
      have haddr' := Nat.pos_of_ne_zero haddr
      have hsize' := Nat.pos_of_ne_zero hsize
      -- no live buffer has the new address
      have happart : ∀ a ∈ w.live, Apart a.range (addr, size) := by
        intro a ha
        refine hfresh _ ?_
        rw [h.mapped]
        exact List.mem_map_of_mem ha
      have hbufs : ∀ e ∈ w.state.fdlist, e.buf ≠ addr := by
        intro e he hbuf
        rw [h.fdlist] at he
        obtain ⟨a, ha, hae⟩ := mem_fdlist he
        exact (happart a ha).ne (h.sound a ha).size hsize' (hae.trans hbuf)
      simp only [State.register]
      rcases remoteRegisterBuf_new w.state.init o.tofd (wrap size) hbufs
        (show fd ≠ -1 by omega) with ⟨e, hr⟩ | ⟨hinit, hne, hr⟩
      · rw [hr]
        have hsound : Alloc.Sound w.state.init ⟨addr, size, fd, none⟩ :=
          ⟨haddr', hsize', hnew, fun n hn => nomatch hn⟩
        exact ⟨addr, _, rfl, h.grow (List.append_nil _).symm hsound happart hfdnew⟩
      · rw [hr]
        have hsound : Alloc.Sound w.state.init ⟨addr, size, fd, some (sizeT (wrap size))⟩ := by
          refine ⟨haddr', hsize', hnew, ?_⟩
          intro n hn
          obtain rfl := Option.some.inj hn
          exact ⟨rfl, hne, hinit⟩
        exact ⟨addr, _, rfl, h.grow rfl hsound happart hfdnew⟩

end Allocations

/-! ### Frees -/

section Erase

variable {α β : Type} {l : List α} {p q : α → Bool}

theorem eraseP_congr (h : ∀ x ∈ l, p x = q x) : l.eraseP p = l.eraseP q := by
  induction l with
  | nil => rfl
  | cons x l ih =>
      have hx := h x List.mem_cons_self
      have hrest := ih (fun y hy => h y (List.mem_cons_of_mem x hy))
      cases hq : q x with
      | true => rw [List.eraseP_cons_of_pos (hx.trans hq), List.eraseP_cons_of_pos hq]
      | false =>
          have hp : ¬ p x = true := by rw [hx, hq]; exact Bool.false_ne_true
          have hq' : ¬ q x = true := by rw [hq]; exact Bool.false_ne_true
          rw [List.eraseP_cons_of_neg hp, List.eraseP_cons_of_neg hq', hrest]

/-- What is cut out of a list is what one of its elements stands for. -/
theorem flatMap_eq_map_eraseP {f : α → β} {g : α → List β} (hpos : ∀ x ∈ l, p x = true → g x = [])
    (hneg : ∀ x ∈ l, p x = false → g x = [f x])
    (hone : l.Pairwise (fun x y => p x = true → p y = false)) :
    l.flatMap g = (l.eraseP p).map f := by
  induction l with
  | nil => rfl
  | cons x l ih =>
      obtain ⟨hhead, htail⟩ := List.pairwise_cons.mp hone
      have hpos' := fun y hy => hpos y (List.mem_cons_of_mem x hy)
      have hneg' := fun y hy => hneg y (List.mem_cons_of_mem x hy)
      cases hp : p x with
      | false =>
          have hp' : ¬ p x = true := by rw [hp]; exact Bool.false_ne_true
          rw [List.flatMap_cons, hneg x List.mem_cons_self hp, List.eraseP_cons_of_neg hp',
            List.map_cons, ih hpos' hneg' htail]
          rfl
      | true =>
          have hrest : l.flatMap g = l.map f := by
            have hall : ∀ y ∈ l, p y = false := fun y hy => hhead y hy hp
            have herase := ih hpos' hneg' htail
            rw [List.eraseP_of_forall_not] at herase
            · exact herase
            · intro y hy
              rw [hall y hy]
              exact Bool.false_ne_true
          rw [List.flatMap_cons, hpos x List.mem_cons_self hp, List.eraseP_cons_of_pos hp, hrest]
          rfl

end Erase

/-- A length below `2 ^ 31` survives its field of type `int`. -/
theorem sizeT_wrap_small {size : ℕ} (h : size < 2 ^ 31) : sizeT (wrap size) = size := by
  have hmax := intMax_eq
  have hin : InRange (size : ℤ) := ⟨by omega, by omega⟩
  rw [wrap_of_inRange hin]
  unfold sizeT
  omega

section Frees

variable {w : World} {po : ℕ} {a : Alloc}

/-- A range that is apart from the one that is unmapped stays. -/
theorem pieces_apart {r : ℕ × ℕ} {addr len : ℕ} (hr : 0 < r.2) (h : Apart r (addr, len)) :
    pieces addr len r = [r] := by
  obtain ⟨b, n⟩ := r
  unfold pieces
  rcases h with h | h
  · simp only at h hr
    rw [if_pos (by omega : b < addr), if_neg (by omega), Nat.min_eq_left (by omega)]
    rfl
  · simp only at h hr
    rw [if_neg (by omega : ¬ b < addr), if_pos (by omega), Nat.max_eq_left (by omega),
      Nat.add_sub_cancel_left]
    rfl

theorem pieces_self (addr len : ℕ) : pieces addr len (addr, len) = [] := by
  simp [pieces]

/-- A buffer that is unmapped with a smaller length leaves something. -/
theorem pieces_short {addr len size : ℕ} (h : len < size) : pieces addr len (addr, size) ≠ [] := by
  unfold pieces
  rw [if_neg (lt_irrefl addr), if_pos (Nat.add_lt_add_left h addr)]
  exact List.cons_ne_nil _ _

/-- Live buffers with one address are one. -/
theorem Inv.once (h : Inv w) :
    w.live.Pairwise (fun x y => decide (x.buf = po) = true → decide (y.buf = po) = false) := by
  refine h.apart.imp_of_mem ?_
  intro x y hx hy hapart hxp
  refine decide_eq_false ?_
  intro hybuf
  exact hapart.ne (h.sound x hx).size (h.sound y hy).size
    ((of_decide_eq_true hxp).trans hybuf.symm)

/-- A live buffer with another address is apart from this one. -/
theorem Inv.apart_of_ne (h : Inv w) (ha : a ∈ w.live) {x : Alloc} (hx : x ∈ w.live)
    (hne : x.buf ≠ a.buf) : Apart x.range a.range :=
  h.apart.forall hx ha (fun hxa => hne (by rw [hxa]))

/-- The buffer that a pointer names. -/
theorem Inv.eq_of_buf (h : Inv w) (ha : a ∈ w.live) {x : Alloc} (hx : x ∈ w.live)
    (hbuf : x.buf = a.buf) : x = a := by
  by_contra hne
  exact (h.apart.forall hx ha hne).ne (h.sound x hx).size (h.sound a ha).size hbuf

/-- The registration that is taken back is that of the buffer. -/
theorem dropRef_live {l : List Alloc} {size : ℕ}
    (hone : l.Pairwise (fun x y => decide (x.buf = po) = true → decide (y.buf = po) = false))
    (hsize : ∀ x ∈ l, x.buf = po → ∀ n, x.reg = some n → n = size) :
    (dropRef po size (l.filterMap Alloc.entry) false).1 =
        (l.eraseP (fun x => x.buf = po)).filterMap Alloc.entry ∧
      (dropRef po size (l.filterMap Alloc.entry) false).2.2 = false := by
  induction l with
  | nil => exact ⟨rfl, rfl⟩
  | cons x l ih =>
      obtain ⟨hhead, htail⟩ := List.pairwise_cons.mp hone
      obtain ⟨hlist, hmatch⟩ := ih htail (fun y hy => hsize y (List.mem_cons_of_mem x hy))
      by_cases hx : x.buf = po
      · have hx' : decide (x.buf = po) = true := decide_eq_true hx
        have hrest : l.eraseP (fun y => y.buf = po) = l := by
          refine List.eraseP_of_forall_not ?_
          intro y hy
          rw [hhead y hy hx']
          exact Bool.false_ne_true
        rw [List.eraseP_cons_of_pos (p := fun y : Alloc => decide (y.buf = po)) hx']
        cases hreg : x.reg with
        | none =>
            rw [List.filterMap_cons_none (Alloc.entry_none hreg)]
            rw [hrest] at hlist
            exact ⟨hlist, hmatch⟩
        | some n =>
            have hn := hsize x List.mem_cons_self hx n hreg
            have hzero : wrap (1 - 1) ≤ 0 := by decide
            rw [List.filterMap_cons_some (Alloc.entry_some hreg)]
            simp only [dropRef, if_pos hx, if_pos hn, if_pos hzero]
            exact ⟨trivial, trivial⟩
      · have hx' : ¬ decide (x.buf = po) = true := by simpa using hx
        rw [List.eraseP_cons_of_neg (p := fun y : Alloc => decide (y.buf = po)) hx']
        cases hreg : x.reg with
        | none =>
            have hentry := Alloc.entry_none hreg
            rw [List.filterMap_cons_none hentry, List.filterMap_cons_none hentry]
            exact ⟨hlist, hmatch⟩
        | some n =>
            have hentry := Alloc.entry_some hreg
            rw [List.filterMap_cons_some hentry, List.filterMap_cons_some hentry]
            simp only [dropRef, if_neg hx]
            exact ⟨congrArg _ hlist, hmatch⟩

/-- **The registration of a live buffer is taken back.** -/
theorem Inv.unregister (h : Inv w) (ha : a ∈ w.live) :
    ∃ r, remoteRegisterBuf w.state.fdlist w.state.init true a.buf (wrap a.size) (-1) =
      some (r, (w.live.eraseP (fun x => x.buf = a.buf)).filterMap Alloc.entry) := by
  have hreg : ∀ x ∈ w.live, x.buf = a.buf → ∀ n, x.reg = some n →
      n = sizeT (wrap a.size) ∧ n ≠ 0 ∧ w.state.init = true := by
    intro x hx hbuf n hn
    obtain rfl := h.eq_of_buf ha hx hbuf
    exact (h.sound x hx).reg n hn
  obtain ⟨hlist, hmatch⟩ := dropRef_live h.once (fun x hx hbuf n hn => (hreg x hx hbuf n hn).1)
  -- a registration that is refused finds none to take back
  have hnone : (∀ n, a.reg ≠ some n) → (w.live.eraseP (fun x => x.buf = a.buf)).filterMap Alloc.entry =
      w.live.filterMap Alloc.entry := by
    intro hnot
    obtain ⟨pre, post, hsplit, herase⟩ : ∃ pre post, w.live = pre ++ a :: post ∧
        w.live.eraseP (fun x => x.buf = a.buf) = pre ++ post := by
      obtain ⟨b, pre, post, hpre, hb, hsplit, herase⟩ :=
        List.exists_of_eraseP (p := fun y : Alloc => decide (y.buf = a.buf)) ha (decide_eq_true rfl)
      have hmem : b ∈ w.live := by rw [hsplit]; simp
      obtain rfl := h.eq_of_buf ha hmem (of_decide_eq_true hb)
      exact ⟨pre, post, hsplit, herase⟩
    have hentry : a.entry = none := by
      cases hr : a.reg with
      | none => exact Alloc.entry_none hr
      | some n => exact absurd hr (hnot n)
    rw [herase, hsplit]
    simp [List.filterMap_append, hentry]
  have hbuf : a.buf ≠ 0 := Nat.pos_iff_ne_zero.mp (h.sound a ha).buf
  unfold remoteRegisterBuf remoteRegisterBufCommon
  rw [h.fdlist]
  by_cases hinit : w.state.init = true
  · by_cases hsize : sizeT (wrap a.size) = 0
    · refine ⟨.error .EBADPARM, ?_⟩
      rw [hnone (fun n hn => ?_)]
      · simp [hinit, hbuf, hsize]
      · obtain ⟨heq, hne, _⟩ := hreg a ha rfl n hn
        exact hne (heq.trans hsize)
    · refine ⟨.ok (), ?_⟩
      simp [hinit, hbuf, hsize, hmatch, hlist]
  · refine ⟨.error .init, ?_⟩
    rw [hnone (fun n hn => hinit (hreg a ha rfl n hn).2.2)]
    simp [hinit]

/-- What the rest of `rpcmem_free_internal` finds. -/
theorem Inv.free_eq (h : Inv w) (ha : a ∈ w.live) :
    rpcmemFreeInternal w.state a.buf = some { w.state with
      rpclst := (w.live.eraseP (fun x => x.buf = a.buf)).map (fun x => ⟨x.buf, wrap x.size, x.fd⟩)
      fdlist := (w.live.eraseP (fun x => x.buf = a.buf)).filterMap Alloc.entry
      fds := (w.live.eraseP (fun x => x.buf = a.buf)).map Alloc.fd
      mapped := munmap w.state.mapped a.buf (sizeT (wrap a.size)) } := by
  have hfind : w.state.rpclst.find? (fun r => r.buf = a.buf) = some ⟨a.buf, wrap a.size, a.fd⟩ := by
    rw [h.rpclst, List.find?_map]
    cases hf : w.live.find? ((fun r : RpcInfo => decide (r.buf = a.buf)) ∘
        (fun x : Alloc => ⟨x.buf, wrap x.size, x.fd⟩)) with
    | none =>
        have hnot := List.find?_eq_none.mp hf a ha
        simp at hnot
    | some x =>
        have hbuf : x.buf = a.buf := by simpa using List.find?_some hf
        obtain rfl := h.eq_of_buf ha (List.mem_of_find?_eq_some hf) hbuf
        rfl
  have hlist : w.state.rpclst.eraseP (fun r => r.buf = a.buf) =
      (w.live.eraseP (fun x => x.buf = a.buf)).map (fun x => ⟨x.buf, wrap x.size, x.fd⟩) := by
    rw [h.rpclst, List.eraseP_map]
    rfl
  -- the descriptor and the address name the same live buffer
  have hfds : w.state.fds.erase a.fd =
      (w.live.eraseP (fun x => x.buf = a.buf)).map Alloc.fd := by
    rw [h.fds, List.erase_eq_eraseP, List.eraseP_map]
    congr 1
    refine eraseP_congr ?_
    intro x hx
    by_cases hbuf : x.buf = a.buf
    · obtain rfl := h.eq_of_buf ha hx hbuf
      simp
    · have hfd : x.fd ≠ a.fd := by
        intro hfd
        exact hbuf (congrArg Alloc.buf (List.inj_on_of_nodup_map h.nodup hx ha hfd))
      simp [hbuf, Ne.symm hfd]
  obtain ⟨r, hr⟩ := h.unregister ha
  unfold rpcmemFreeInternal
  rw [hfind]
  simp only [State.register, hr, Option.map_some, hlist, hfds]

/-- **A free** of a buffer below `2 ^ 31` bytes takes it from every list, and a free of another pointer
changes nothing. -/
theorem inv_free (h : Inv w) (hC : Orderly w (.free po)) :
    ∃ s, rpcmemFreeInternal w.state po = some s ∧
      Inv ⟨s, w.live.eraseP (fun a => a.buf = po), false⟩ := by
  by_cases hlive : ∃ a ∈ w.live, a.buf = po
  · obtain ⟨a, ha, rfl⟩ := hlive
    have hsound := h.sound a ha
    have hfits : ∀ b ∈ w.live, b.buf = a.buf → b.size < 2 ^ 31 := hC
    have hmunmap : munmap w.state.mapped a.buf (sizeT (wrap a.size)) =
        (w.live.eraseP (fun x => x.buf = a.buf)).map Alloc.range := by
      have hsize := sizeT_wrap_small (hfits a ha rfl)
      have hone : ¬ (a.size = 0 ∨ userEnd < a.buf + a.size) := by
        have hpos := hsound.size
        have hbound := hsound.bound
        omega
      rw [hsize, munmap, if_neg hone, h.mapped, List.flatMap_map]
      refine flatMap_eq_map_eraseP ?_ ?_ h.once
      · intro x hx hxp
        obtain rfl := h.eq_of_buf ha hx (of_decide_eq_true hxp)
        exact pieces_self _ _
      · intro x hx hxp
        exact pieces_apart (h.sound x hx).size (h.apart_of_ne ha hx (of_decide_eq_false hxp))
    have hsub : List.Sublist (w.live.eraseP (fun x => x.buf = a.buf)) w.live := List.eraseP_sublist
    have heq := h.free_eq ha
    rw [hmunmap] at heq
    exact ⟨_, heq, rfl, rfl, rfl, rfl, rfl, h.apart.sublist hsub,
      h.nodup.sublist (hsub.map Alloc.fd), fun x hx => h.sound x (hsub.subset hx)⟩
  · have hnone : w.state.rpclst.find? (fun r => r.buf = po) = none := by
      refine List.find?_eq_none.mpr ?_
      intro r hr
      rw [h.rpclst] at hr
      obtain ⟨a, ha, rfl⟩ := List.mem_map.mp hr
      have hne : a.buf ≠ po := fun hbuf => hlive ⟨a, ha, hbuf⟩
      simpa using hne
    have herase : w.live.eraseP (fun a => a.buf = po) = w.live := by
      refine List.eraseP_of_forall_not ?_
      intro a ha
      have hne : a.buf ≠ po := fun hbuf => hlive ⟨a, ha, hbuf⟩
      simpa using hne
    refine ⟨w.state, by rw [rpcmemFreeInternal, hnone], ?_⟩
    rw [herase]
    obtain ⟨state, live, aborted⟩ := w
    obtain rfl : aborted = false := h.alive
    exact h

end Frees

/-! ### Runs -/

section Runs

variable {w t : World} {e : Event}

/-- **One call** that is orderly keeps everything paired. -/
theorem inv_step (h : Inv w) (hC : Orderly w e) (hstep : step w e = some t) : Inv t := by
  cases e with
  | alloc heapid flags size o =>
      simp only [step] at hstep
      split_ifs at hstep with hcan
      obtain ⟨po, s, hs, hinv⟩ := inv_alloc h hcan.2.2 hC
      rw [hs] at hstep
      exact Option.some.inj hstep ▸ hinv
  | free po =>
      obtain ⟨s, hs, hinv⟩ := inv_free h hC
      simp only [step, if_pos h.alive, hs] at hstep
      exact Option.some.inj hstep ▸ hinv

/-- The mappings after a free with another length are at least as many as before. -/
theorem length_munmap (h : Inv w) {a : Alloc} (ha : a ∈ w.live) {len : ℕ}
    (hlen : len < a.size ∨ userEnd < a.buf + len) :
    w.live.length ≤ (munmap w.state.mapped a.buf len).length := by
  unfold munmap
  rw [h.mapped]
  split_ifs with hnone
  · rw [List.length_map]
  · obtain ⟨_, hbound⟩ := not_or.mp hnone
    have hshort : len < a.size := hlen.resolve_right hbound
    rw [List.flatMap_map, List.length_flatMap]
    have hall : ∀ n ∈ w.live.map (fun x => (pieces a.buf len x.range).length), 1 ≤ n := by
      intro n hn
      obtain ⟨x, hx, rfl⟩ := List.mem_map.mp hn
      refine List.length_pos_iff.mpr ?_
      by_cases hbuf : x.buf = a.buf
      · obtain rfl := h.eq_of_buf ha hx hbuf
        exact pieces_short hshort
      · have hapart : Apart x.range (a.buf, len) := by
          rcases h.apart_of_ne ha hx hbuf with hap | hap
          · exact Or.inl hap
          · refine Or.inr ?_
            simp only [Alloc.range] at hap ⊢
            omega
        rw [pieces_apart (h.sound x hx).size hapart]
        exact List.cons_ne_nil _ _
    have hsum := List.length_le_sum_of_one_le _ hall
    simpa using hsum

/-- The `int` of a length from `2 ^ 31` on is another length, or none that `munmap` takes. -/
theorem sizeT_wrap_large {a : Alloc} (hbuf : 0 < a.buf) (hlarge : ¬ a.size < 2 ^ 31) :
    sizeT (wrap a.size) < a.size ∨ userEnd < a.buf + sizeT (wrap a.size) := by
  unfold sizeT wrap Int.bmod userEnd
  norm_num at *
  split_ifs with hlow
  · left
    omega
  · right
    omega

/-- An allocation after which everything is paired got its mapping. -/
theorem mmap_of_paired (h : Inv w) {heapid : ℤ} {flags : UInt32} {size : ℕ} {o : AllocOutcome}
    (hstep : step w (.alloc heapid flags size o) = some t) (hp : Paired t) :
    Orderly w (.alloc heapid flags size o) := by
  simp only [step] at hstep
  split_ifs at hstep with hcan
  have hfds := congrArg List.length h.fds
  intro hopen hsize hrinfo hioctl
  -- one descriptor more, and no live buffer
  have hmore : ∀ {s : State} {fd : ℤ}, s.fds = w.state.fds ++ [fd] → t ≠ ⟨s, w.live, false⟩ := by
    rintro s fd hs rfl
    have hlen := congrArg List.length hp.fds
    simp only [hs, List.length_append, List.length_map, List.length_singleton] at hlen hfds
    omega
  rcases allocate_cases w.state size o with
    ⟨_, hfails⟩ | ⟨fd, _, _, _, ⟨hmmap, halloc⟩ | ⟨hmmap, halloc⟩ | ⟨addr, hmmap, haddr, _⟩⟩
  · exact absurd (hfails hopen hsize hrinfo) hioctl
  · have hlive : liveOf w.state size o = [] := by rw [liveOf, halloc, hmmap]
    rw [rpcmemAllocInternal, halloc, hlive, List.append_nil] at hstep
    simp only [State.register] at hstep
    cases hr : remoteRegisterBuf w.state.fdlist w.state.init o.tofd mapFailed (wrap size) fd with
    | none =>
        rw [hr] at hstep
        obtain rfl := Option.some.inj hstep
        exact absurd hp.alive Bool.noConfusion
    | some r =>
        rw [hr] at hstep
        exact absurd (Option.some.inj hstep).symm (hmore rfl)
  · have hlive : liveOf w.state size o = [] := by rw [liveOf, halloc, hmmap]
    rw [rpcmemAllocInternal, halloc, hlive, List.append_nil] at hstep
    exact absurd (Option.some.inj hstep).symm (hmore rfl)
  · rw [hmmap]
    exact ⟨fun hf => (nomatch hf), fun hz => haddr (Mmap.mapped.inj hz)⟩

/-- **A call after which everything is paired was orderly.** -/
theorem orderly_of_paired (h : Inv w) (hstep : step w e = some t) (hp : Paired t) : Orderly w e := by
  cases e with
  | alloc heapid flags size o => exact mmap_of_paired h hstep hp
  | free po =>
      rintro a ha rfl
      by_contra hlarge
      simp only [step, if_pos h.alive, h.free_eq ha] at hstep
      obtain rfl := Option.some.inj hstep
      have hmapped := congrArg List.length hp.mapped
      have hlen := length_munmap h ha (sizeT_wrap_large (h.sound a ha).buf hlarge)
      have herase := List.length_eraseP_of_mem (p := fun x : Alloc => x.buf = a.buf) ha
        (show decide (a.buf = a.buf) = true from decide_eq_true rfl)
      have hpos := List.length_pos_of_mem ha
      simp only [List.length_map] at hmapped
      omega

/-- **Allocations and frees are paired** in every state of a run exactly when each of its calls is
orderly: an allocation whose `ioctl` succeeds gets a mapping, and no live buffer of `2 ^ 31` bytes or more
is freed. -/
theorem allocations_paired {dmafd rpcfd initOnce : Bool} {es : List Event}
    (hrun : run step (init dmafd rpcfd initOnce) es = some t) :
    Along step Paired (init dmafd rpcfd initOnce) es ↔
      Guarded step Orderly (init dmafd rpcfd initOnce) es :=
  along_iff_guarded (fun _ _ _ => inv_step) (fun _ => Inv.paired)
    (fun _ _ _ h hC hstep hp => hC (orderly_of_paired h hstep hp)) (inv_init _ _ _) hrun

end Runs

/-- Two buffers, one of which cannot be registered, are freed; an allocation fails. -/
def someCalls : List Event :=
  [.alloc 25 1 4096 ⟨true, some 7, .mapped 65536, true⟩,
    .alloc 25 1 100 ⟨true, some 8, .mapped 131072, false⟩,
    .alloc 25 1 100 ⟨true, none, .failed, true⟩, .free 65536, .free 65536, .free 131072]

theorem allocations_paired_someCalls : Along step Paired (init true false true) someCalls :=
  (allocations_paired (show run step (init true false true) someCalls = some _ from rfl)).mpr
    (by decide +kernel)

/-- After a failing `mmap` the descriptor is open, the buffer is listed and `MAP_FAILED` is registered;
the pointer that is returned is not `NULL`. -/
theorem map_failed_is_listed :
    ∃ t, run step (init true false true) [.alloc 25 1 4096 ⟨true, some 7, .failed, true⟩] = some t ∧
      t.state.fds = [7] ∧ t.state.rpclst = [⟨mapFailed, 4096, 7⟩] ∧
      t.state.fdlist = [⟨mapFailed, 4096, 7, 0, 0, 1⟩] ∧ ¬ Paired t := by
  refine ⟨_, rfl, by decide +kernel, by decide +kernel, by decide +kernel, fun hp => ?_⟩
  exact absurd hp.fds (by decide +kernel)

end FastRpc.RpcMem
