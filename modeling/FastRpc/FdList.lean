import FastRpc.CInt

/-! # The list of registered buffers

`fdlist` in `fastrpc_mem.c` holds the buffers whose file descriptor is known to the library, with a
count of their registrations.  `remote_register_buf_common` registers a buffer, or takes a registration
back when its descriptor is `-1`; `fdlist_fd_from_buf` finds the descriptor of the buffer that an
argument of a call lies in.  Addresses and sizes are natural numbers below `2 ^ 64`. -/

namespace FastRpc.FdList

open CInt

/-- The `size_t` of an `int`. -/
def sizeT (z : ℤ) : ℕ := (z % 2 ^ 64).toNat

/-- `struct mem_to_fd` without the table of its static mappings. -/
structure MemToFd where
  buf : ℕ
  size : ℕ
  fd : ℤ
  nova : ℤ
  attr : UInt32
  refcount : ℤ
  deriving DecidableEq, Repr

/-- The error codes of a registration; `init` is that of `fastrpc_init_once`. -/
inductive RegisterError
  | init
  | EBADPARM
  | ENOMEMORY
  deriving DecidableEq, Repr

/-- The loop that counts another registration of a buffer. -/
def countRef (buf size : ℕ) (fd : ℤ) (attr : UInt32) : List MemToFd → Option (List MemToFd)
  | [] => none
  | e :: rest =>
      if e.buf = buf ∧ e.size = size ∧ e.fd = fd then
        some ({ e with
          attr := if attr ≠ 0 then attr else e.attr, refcount := wrap (e.refcount + 1) } :: rest)
      else (countRef buf size fd attr rest).map (e :: ·)

/-- The loop that takes a registration back.  It also gives the entry that lost its last one, and says
whether it passed an entry of the same address and another size. -/
def dropRef (buf size : ℕ) : List MemToFd → Bool → List MemToFd × Option MemToFd × Bool
  | [], addrMatch => ([], none, addrMatch)
  | e :: rest, addrMatch =>
      if e.buf = buf then
        if e.size = size then
          if wrap (e.refcount - 1) ≤ 0 then (rest, some e, addrMatch)
          else ({ e with refcount := wrap (e.refcount - 1) } :: rest, none, addrMatch)
        else
          let r := dropRef buf size rest true
          (e :: r.1, r.2)
      else
        let r := dropRef buf size rest addrMatch
        (e :: r.1, r.2)

/-- `remote_register_buf_common`; `init` and `allocated` say that `fastrpc_init_once` and `calloc`
succeed.  It is `none` when the process is aborted, for a size that was not registered. -/
def remoteRegisterBufCommon (l : List MemToFd) (init allocated : Bool) (buf size : ℕ) (fd : ℤ)
    (attr : UInt32) : Option (Except RegisterError Unit × List MemToFd) :=
  if !init then some (.error .init, l)
  else if buf = 0 then some (.error .EBADPARM, l)
  else if size = 0 then some (.error .EBADPARM, l)
  else if fd ≠ -1 then
    match countRef buf size fd attr l with
    | some l' => some (.ok (), l')
    | none =>
        if !allocated then some (.error .ENOMEMORY, l)
        else some (.ok (), l ++ [⟨buf, size, fd, 0, attr, 1⟩])
  else
    let r := dropRef buf size l false
    if r.2.1 = none ∧ r.2.2 = true then none else some (.ok (), r.1)

/-- `remote_register_buf`. -/
def remoteRegisterBuf (l : List MemToFd) (init allocated : Bool) (buf : ℕ) (size fd : ℤ) :
    Option (Except RegisterError Unit × List MemToFd) :=
  remoteRegisterBufCommon l init allocated buf (sizeT size) fd 0

/-- What `fdlist_fd_from_buf` writes to its results. -/
structure FdInfo where
  nova : ℤ
  base : ℕ
  attr : UInt32
  fd : ℤ
  deriving DecidableEq, Repr

/-- `STD_BETWEEN`, whose subtractions are those of `unsigned long`. -/
def stdBetween (val minGE maxLT : ℕ) : Bool :=
  minGE ≤ val ∧ (val - minGE) % 2 ^ 64 < (maxLT + 2 ^ 64 - minGE) % 2 ^ 64

/-- The loop of `fdlist_fd_from_buf`.  It is `none` for a buffer that only starts in an entry. -/
def fdFromBufLoop (buf last : ℕ) : List MemToFd → FdInfo → Option FdInfo
  | [], r => some r
  | e :: rest, r =>
      if r.fd ≠ -1 then some r
      else
        let maxLT := (e.buf + e.size) % 2 ^ 64
        if stdBetween buf e.buf maxLT then
          if stdBetween last e.buf maxLT then
            fdFromBufLoop buf last rest ⟨e.nova, e.buf, e.attr, e.fd⟩
          else none
        else fdFromBufLoop buf last rest r

/-- `fdlist_fd_from_buf`; the error is `AEE_EBADPARM`. -/
def fdlistFdFromBuf (l : List MemToFd) (buf : ℕ) (bufLen : ℤ) : Option FdInfo :=
  fdFromBufLoop buf (sizeT (buf + bufLen - 1)) l ⟨0, 0, 0, -1⟩

end FastRpc.FdList
