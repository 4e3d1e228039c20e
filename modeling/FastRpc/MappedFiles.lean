import FastRpc.Basic
import FastRpc.BlockHeap
import FastRpc.CInt
import FastRpc.Transition

/-! # Files that are mapped to the DSP

`apps_std_fopen_fd` opens a file, reads it into a buffer and maps the buffer to the DSP; its entry in
`fdlist` says under which descriptor the three are found, and `apps_std_fclose_fd` releases them.  The
calls of the surroundings may fail at each step.

`released_iff` says when the failures are clean: the flag that should undo the mapping is never set, so a
mapping stays when there is no memory for the entry; and a close drops its entry before the one release
that it can fail at. -/

namespace FastRpc.MappedFiles

open BlockHeap Transition

/-! ### The code -/

/-! The error codes of `AEEStdErr.h`. -/

def aeeSuccess : ℤ := 0
def aeeENoMemory : ℤ := 0x2
def aeeEBadParm : ℤ := 0xe
def aeeENoSuchMap : ℤ := 0x48
def aeeENoRpcMemory : ℤ := 0x68
def aeeEFile : ℤ := 0x201

theorem aeeENoMemory_ne : aeeENoMemory ≠ aeeSuccess := by decide
theorem aeeENoSuchMap_ne : aeeENoSuchMap ≠ aeeSuccess := by decide

/-- `struct mem_io_to_fd`. -/
structure MemIoToFd where
  size : ℤ
  fd : ℤ
  fdfile : ℤ
  stream : ℕ
  buf : ℕ
  deriving DecidableEq, Repr

/-- The C streams, the buffers with their descriptors, the mappings of descriptors to the DSP of a domain,
and `fdlist`. -/
structure World where
  streams : Heap Unit
  buffers : Heap ℤ
  mappings : List (Domain × ℤ)
  fdlist : List MemIoToFd

/-- No file was ever opened. -/
def init : World := ⟨Heap.empty (), Heap.empty 0, [], []⟩

/-- What the calls in `apps_std_fopen_fd` answer: whether there is a name and `fopen` succeeds, `fileno`,
`st_size` when `fstat` succeeds, the descriptor of the buffer when there is one, `read`, `fastrpc_mmap`, and
whether there is memory for the entry. -/
structure Opening where
  domain : Domain
  name : Bool
  fopen : Bool
  fileno : ℤ
  fstat : Option ℤ
  rpcmem_alloc : Option ℤ
  read : ℤ
  fastrpc_mmap : ℤ
  calloc : Bool
  errno : ℤ
  deriving DecidableEq, Repr

/-- `ERRNO`. -/
def errnoOr (errno nErr : ℤ) : ℤ := if errno ≠ 0 then errno else if nErr ≠ 0 then nErr else -1

/-- The label of `apps_std_fopen_fd`, where `source` and `fd` are the buffer and its descriptor.  No path to
it sets `mmap_pass`, which is `false`. -/
def bail (w : World) (domain : Domain) (stream : ℕ) (source : Option ℕ) (fd : ℤ) (mmap_pass : Bool) : World :=
  let w := { w with streams := w.streams.free stream }
  let w := if mmap_pass then { w with mappings := w.mappings.erase (domain, fd) } else w
  match source with
  | some buf => { w with buffers := w.buffers.free buf }
  | none => w

/-- `apps_std_fopen_fd`: the result, and what is stored in `fd` and `len`. -/
def appsStdFopenFd (w : World) (env : Opening) : World × ℤ × Option (ℤ × ℤ) :=
  if !env.name then (w, aeeEBadParm, none)
  else if !env.fopen then (w, errnoOr env.errno 0, none)
  else
    let stream := w.streams.next
    let w := { w with streams := w.streams.alloc () }
    if env.fileno = -1 then (bail w env.domain stream none 0 false, errnoOr env.errno 0, none)
    else
      match env.fstat with
      | none => (bail w env.domain stream none 0 false, errnoOr env.errno 0, none)
      | some st_size =>
          match env.rpcmem_alloc with
          | none => (bail w env.domain stream none 0 false, aeeENoRpcMemory, none)
          | some fd =>
              let source := w.buffers.next
              let w := { w with buffers := w.buffers.alloc fd }
              let len := CInt.wrap st_size
              if env.read < 0 then (bail w env.domain stream (some source) fd false, aeeEFile, none)
              else if env.fastrpc_mmap ≠ aeeSuccess then
                (bail w env.domain stream (some source) fd false, env.fastrpc_mmap, some (fd, len))
              else
                let w := { w with mappings := (env.domain, fd) :: w.mappings }
                if !env.calloc then
                  (bail w env.domain stream (some source) fd false, aeeENoMemory, some (fd, len))
                else
                  let tofd : MemIoToFd := ⟨len, fd, env.fileno, stream, source⟩
                  ({ w with fdlist := w.fdlist ++ [tofd] }, aeeSuccess, some (fd, len))

/-- What the calls in `apps_std_fclose_fd` answer. -/
structure Closing where
  domain : Domain
  fastrpc_munmap : ℤ
  fclose : ℤ
  errno : ℤ
  deriving DecidableEq, Repr

/-- The entry of a descriptor. -/
def entryOf (w : World) (fd : ℤ) : Option MemIoToFd := w.fdlist.find? (·.fd = fd)

/-- `fastrpc_munmap`, which finds the mappings of its own domain. -/
def fastrpcMunmap (w : World) (env : Closing) (fd : ℤ) : World × ℤ :=
  if (env.domain, fd) ∉ w.mappings then (w, aeeENoSuchMap)
  else if env.fastrpc_munmap ≠ aeeSuccess then (w, env.fastrpc_munmap)
  else ({ w with mappings := w.mappings.erase (env.domain, fd) }, aeeSuccess)

/-- `apps_std_fclose_fd`. -/
def appsStdFcloseFd (w : World) (env : Closing) (fd : ℤ) : World × ℤ :=
  match entryOf w fd with
  | none => (w, aeeSuccess)
  | some freefd =>
      let w := { w with fdlist := w.fdlist.erase freefd }
      match fastrpcMunmap w env fd with
      | (w, nErr) =>
          if nErr ≠ aeeSuccess then (w, nErr)
          else
            let w := { w with
              buffers := w.buffers.free freefd.buf, streams := w.streams.free freefd.stream }
            if env.fclose ≠ aeeSuccess then (w, errnoOr env.errno env.fclose) else (w, aeeSuccess)

/-! ### Runs -/

/-- A call with what it is answered. -/
inductive Call
  | fopenFd (env : Opening)
  | fcloseFd (env : Closing) (fd : ℤ)
  deriving DecidableEq, Repr

/-- A new buffer has a descriptor that no live buffer has. -/
def Fresh (w : World) (fd : ℤ) : Prop :=
  ∀ buf < w.buffers.next, buf ∉ w.buffers.freed → w.buffers.cell buf ≠ fd

instance (w : World) (fd : ℤ) : Decidable (Fresh w fd) :=
  inferInstanceAs (Decidable (∀ buf < w.buffers.next, _))

def step (w : World) : Call → Option World
  | .fopenFd env =>
      if ∀ fd ∈ env.rpcmem_alloc, Fresh w fd then some (appsStdFopenFd w env).1 else none
  | .fcloseFd env fd => some (appsStdFcloseFd w env fd).1

/-! ### The property and the condition -/

/-- What a failing call leaves: an opening leaves nothing that was not there before, and a close can reach
what it did not release. -/
def Releases (w : World) : Call → Prop
  | .fopenFd env =>
      (appsStdFopenFd w env).2.1 ≠ aeeSuccess →
        (∀ n, (appsStdFopenFd w env).1.streams.Live n ↔ w.streams.Live n) ∧
        (∀ n, (appsStdFopenFd w env).1.buffers.Live n ↔ w.buffers.Live n) ∧
        (appsStdFopenFd w env).1.mappings = w.mappings
  | .fcloseFd env fd =>
      (appsStdFcloseFd w env fd).2 ≠ aeeSuccess →
        ∀ e, entryOf w fd = some e →
          ((appsStdFcloseFd w env fd).1.streams.Live e.stream ∨
            (appsStdFcloseFd w env fd).1.buffers.Live e.buf ∨
            ∃ domain, (domain, fd) ∈ (appsStdFcloseFd w env fd).1.mappings) →
          entryOf (appsStdFcloseFd w env fd).1 fd = some e

/-- Every call before the allocation of the entry succeeds. -/
def Opening.mapped (env : Opening) : Bool :=
  env.name && env.fopen && env.fileno ≠ -1 && env.fstat.isSome && env.rpcmem_alloc.isSome && 0 ≤ env.read &&
    env.fastrpc_mmap = aeeSuccess

/-- There is memory for the entry of a mapped file, and a mapping of a file that is closed is released. -/
def Serves (w : World) : Call → Prop
  | .fopenFd env => env.mapped = true → env.calloc = true
  | .fcloseFd env fd =>
      (entryOf w fd).isSome = true → (env.domain, fd) ∈ w.mappings ∧ env.fastrpc_munmap = aeeSuccess

instance (w : World) (c : Call) : Decidable (Serves w c) :=
  match c with
  | .fopenFd _ => inferInstanceAs (Decidable (_ → _))
  | .fcloseFd _ _ => inferInstanceAs (Decidable (_ → _))

/-! ### One call -/

section Calls

variable {w : World} {env : Opening} {fd : ℤ} {e : MemIoToFd}

/-- `w'` has the same resources and entries as `w`. -/
structure Same (w w' : World) : Prop where
  streams : ∀ n, w'.streams.Live n ↔ w.streams.Live n
  buffers : ∀ n, w'.buffers.Live n ↔ w.buffers.Live n
  cells : ∀ n, w.buffers.Live n → w'.buffers.cell n = w.buffers.cell n
  mappings : w'.mappings = w.mappings
  fdlist : w'.fdlist = w.fdlist
  streamsOld : (∀ n ∈ w.streams.freed, n < w.streams.next) → ∀ n ∈ w'.streams.freed, n < w'.streams.next
  buffersOld : (∀ n ∈ w.buffers.freed, n < w.buffers.next) → ∀ n ∈ w'.buffers.freed, n < w'.buffers.next

theorem Same.refl (w : World) : Same w w :=
  ⟨fun _ => Iff.rfl, fun _ => Iff.rfl, fun _ _ => rfl, rfl, rfl, id, id⟩

/-- A block that is allocated and freed again leaves the live blocks as they are. -/
theorem live_alloc_free {α : Type} (h : Heap α) (a : α) (n : ℕ) :
    ((h.alloc a).free h.next).Live n ↔ h.Live n := by
  simp only [Heap.Live, Heap.alloc, Heap.free, Heap.freeAll, List.mem_append, List.mem_singleton, not_or]
  constructor
  · rintro ⟨hlt, hold, hne⟩
    exact ⟨by omega, hold⟩
  · rintro ⟨hlt, hold⟩
    exact ⟨by omega, hold, hlt.ne⟩

theorem old_alloc_free {α : Type} (h : Heap α) (a : α) (hold : ∀ n ∈ h.freed, n < h.next) :
    ∀ n ∈ ((h.alloc a).free h.next).freed, n < ((h.alloc a).free h.next).next := by
  intro n hn
  rcases List.mem_append.mp hn with hn | hn
  · exact Nat.lt_succ_of_lt (hold n hn)
  · exact (List.mem_singleton.mp hn).le.trans_lt (Nat.lt_succ_self _)

theorem same_bail_stream (w : World) (domain : Domain) (fd : ℤ) :
    Same w (bail { w with streams := w.streams.alloc () } domain w.streams.next none fd false) :=
  ⟨live_alloc_free w.streams (), fun _ => Iff.rfl, fun _ _ => rfl, rfl, rfl, old_alloc_free w.streams (), id⟩

theorem same_bail (w : World) (domain : Domain) (fd : ℤ) :
    Same w (bail { w with streams := w.streams.alloc (), buffers := w.buffers.alloc fd } domain
      w.streams.next (some w.buffers.next) fd false) :=
  ⟨live_alloc_free w.streams (), live_alloc_free w.buffers fd,
    fun _ hn => Function.update_of_ne (Nat.ne_of_lt hn.1) _ _, rfl, rfl, old_alloc_free w.streams (),
    old_alloc_free w.buffers fd⟩

/-- The world of a file that was opened, read and mapped. -/
def World.opened (w : World) (domain : Domain) (fd : ℤ) : World :=
  { w with
    streams := w.streams.alloc (), buffers := w.buffers.alloc fd, mappings := (domain, fd) :: w.mappings }

/-- What `apps_std_fopen_fd` does. -/
theorem fopenFd_cases (w : World) (env : Opening) :
    (env.mapped = false ∧ Same w (appsStdFopenFd w env).1) ∨
      ∃ fd len, env.mapped = true ∧ env.rpcmem_alloc = some fd ∧
        appsStdFopenFd w env =
          if env.calloc = true then
            ({ w.opened env.domain fd with
                fdlist := w.fdlist ++ [⟨len, fd, env.fileno, w.streams.next, w.buffers.next⟩] },
              aeeSuccess, some (fd, len))
          else (bail (w.opened env.domain fd) env.domain w.streams.next (some w.buffers.next) fd false,
            aeeENoMemory, some (fd, len)) := by
  unfold appsStdFopenFd
  by_cases hname : env.name = true
  swap
  · exact .inl ⟨by simp [Opening.mapped, hname], by simpa [hname] using Same.refl w⟩
  by_cases hfopen : env.fopen = true
  swap
  · exact .inl ⟨by simp [Opening.mapped, hfopen], by simpa [hname, hfopen] using Same.refl w⟩
  simp only [hname, hfopen, Bool.not_true, Bool.false_eq_true, if_false]
  by_cases hfileno : env.fileno = -1
  · rw [if_pos hfileno]
    exact .inl ⟨by simp [Opening.mapped, hfileno], same_bail_stream w env.domain 0⟩
  rw [if_neg hfileno]
  cases hfstat : env.fstat with
  | none => exact .inl ⟨by simp [Opening.mapped, hfstat], same_bail_stream w env.domain 0⟩
  | some st_size =>
      cases halloc : env.rpcmem_alloc with
      | none => exact .inl ⟨by simp [Opening.mapped, halloc], same_bail_stream w env.domain 0⟩
      | some fd =>
          dsimp only
          by_cases hread : env.read < 0
          · rw [if_pos hread]
            exact .inl ⟨by simp [Opening.mapped, hread], same_bail w _ _⟩
          rw [if_neg hread]
          by_cases hmmap : env.fastrpc_mmap = aeeSuccess
          swap
          · rw [if_pos hmmap]
            exact .inl ⟨by simp [Opening.mapped, hmmap], same_bail w _ _⟩
          rw [if_neg (not_not.mpr hmmap)]
          refine .inr ⟨fd, CInt.wrap st_size, ?_, rfl, ?_⟩
          · simp [Opening.mapped, hname, hfopen, hfileno, hfstat, halloc, hmmap, not_lt.mp hread]
          · by_cases hcalloc : env.calloc = true
            · simp only [hcalloc, Bool.not_true, Bool.false_eq_true, if_false, if_true]
              rfl
            · simp only [hcalloc, Bool.not_false, if_true, Bool.false_eq_true, if_false]
              rfl

/-- What `apps_std_fclose_fd` does with an entry. -/
theorem fcloseFd_cases {env : Closing} (hfound : entryOf w fd = some e) :
    (¬ ((env.domain, fd) ∈ w.mappings ∧ env.fastrpc_munmap = aeeSuccess) ∧
        (appsStdFcloseFd w env fd).2 ≠ aeeSuccess ∧
        (appsStdFcloseFd w env fd).1 = { w with fdlist := w.fdlist.erase e }) ∨
      ((env.domain, fd) ∈ w.mappings ∧ env.fastrpc_munmap = aeeSuccess) ∧
        (appsStdFcloseFd w env fd).1 =
          ⟨w.streams.free e.stream, w.buffers.free e.buf, w.mappings.erase (env.domain, fd),
            w.fdlist.erase e⟩ := by
  unfold appsStdFcloseFd fastrpcMunmap
  rw [hfound]
  dsimp only
  by_cases hmap : (env.domain, fd) ∈ w.mappings
  swap
  · rw [if_pos hmap]
    dsimp only
    rw [if_pos aeeENoSuchMap_ne]
    exact .inl ⟨fun h => hmap h.1, aeeENoSuchMap_ne, rfl⟩
  by_cases hmunmap : env.fastrpc_munmap = aeeSuccess
  swap
  · rw [if_neg (not_not.mpr hmap), if_pos hmunmap]
    dsimp only
    rw [if_pos hmunmap]
    exact .inl ⟨fun h => hmunmap h.2, hmunmap, rfl⟩
  refine .inr ⟨⟨hmap, hmunmap⟩, ?_⟩
  rw [if_neg (not_not.mpr hmap), if_neg (not_not.mpr hmunmap)]
  dsimp only
  rw [if_neg (not_not.mpr rfl)]
  split <;> rfl

end Calls

/-! ### Whole runs -/

/-- **The invariant.** -/
structure Inv (w : World) : Prop where
  entries : ∀ e ∈ w.fdlist, w.streams.Live e.stream ∧ w.buffers.Live e.buf ∧ w.buffers.cell e.buf = e.fd
  fds : (w.fdlist.map (·.fd)).Nodup
  streams : (w.fdlist.map (·.stream)).Nodup
  mapped : (w.mappings.map Prod.snd).Nodup
  owned : ∀ m ∈ w.mappings, ∃ e ∈ w.fdlist, e.fd = m.2
  streamsOld : ∀ n ∈ w.streams.freed, n < w.streams.next
  buffersOld : ∀ n ∈ w.buffers.freed, n < w.buffers.next

section Runs

variable {w w' : World} {fd : ℤ} {e : MemIoToFd}

theorem inv_init : Inv init :=
  ⟨fun _ he => (nomatch he), List.nodup_nil, List.nodup_nil, List.nodup_nil, fun _ hm => (nomatch hm),
    fun _ hn => (nomatch hn), fun _ hn => (nomatch hn)⟩

theorem entryOf_eq_some (h : entryOf w fd = some e) : e ∈ w.fdlist ∧ e.fd = fd :=
  ⟨List.mem_of_find?_eq_some h, by simpa using List.find?_some h⟩

/-- Without its entry a descriptor leads nowhere. -/
theorem entryOf_erase (h : Inv w) (hfound : entryOf w fd = some e) :
    (w.fdlist.erase e).find? (·.fd = fd) = none := by
  obtain ⟨he, hfd⟩ := entryOf_eq_some hfound
  refine List.find?_eq_none.mpr fun e' he' hsame => ?_
  have hne := (List.Nodup.mem_erase_iff (h.fds.of_map _)).mp he'
  exact hne.1 (List.inj_on_of_nodup_map h.fds hne.2 he ((of_decide_eq_true hsame).trans hfd.symm))

/-- A descriptor is mapped once. -/
theorem not_mem_erase_mapping (h : Inv w) {domain : Domain} (hm : (domain, fd) ∈ w.mappings)
    (domain' : Domain) : (domain', fd) ∉ w.mappings.erase (domain, fd) := by
  intro hmem
  have hne := (List.Nodup.mem_erase_iff (h.mapped.of_map _)).mp hmem
  exact hne.1 (List.inj_on_of_nodup_map h.mapped hne.2 hm rfl)

theorem releases_iff (h : Inv w) (c : Call) : Releases w c ↔ Serves w c := by
  cases c with
  | fopenFd env =>
      rcases fopenFd_cases w env with ⟨hmapped, hsame⟩ | ⟨fd, len, hmapped, -, heq⟩
      · refine iff_of_true (fun _ => ⟨hsame.streams, hsame.buffers, hsame.mappings⟩) fun hm => ?_
        rw [hmapped] at hm
        exact nomatch hm
      · unfold Releases Serves
        dsimp only
        rw [heq]
        by_cases hcalloc : env.calloc = true
        · rw [if_pos hcalloc]
          exact iff_of_true (fun hne => absurd rfl hne) fun _ => hcalloc
        · rw [if_neg hcalloc]
          refine iff_of_false (fun hrel => ?_) fun hserves => hcalloc (hserves hmapped)
          obtain ⟨-, -, hmappings⟩ := hrel aeeENoMemory_ne
          exact absurd hmappings (List.cons_ne_self _ _)
  | fcloseFd env fd =>
      cases hfound : entryOf w fd with
      | none =>
          refine iff_of_true (fun _ e he => ?_) fun hsome => ?_
          · rw [hfound] at he
            exact nomatch he
          · rw [hfound] at hsome
            exact nomatch hsome
      | some e =>
          obtain ⟨he, hfd⟩ := entryOf_eq_some hfound
          rcases fcloseFd_cases hfound with ⟨hfails, hcode, hleft⟩ | ⟨hserved, hleft⟩
          · refine iff_of_false (fun hrel => ?_) fun hserves => hfails (hserves (by rw [hfound]; rfl))
            have hreach := hrel hcode e hfound (.inl (hleft ▸ (h.entries e he).1))
            rw [hleft] at hreach
            exact nomatch (entryOf_erase h hfound).symm.trans hreach
          · refine iff_of_true (fun _ e' he' hheld => ?_) fun _ => hserved
            obtain rfl := Option.some.inj (hfound.symm.trans he')
            rw [hleft] at hheld
            rcases hheld with hstream | hbuf | ⟨domain, hmap⟩
            · exact absurd (List.mem_append_right _ List.mem_cons_self) hstream.2
            · exact absurd (List.mem_append_right _ List.mem_cons_self) hbuf.2
            · exact absurd hmap (not_mem_erase_mapping h hserved.1 domain)

/-- The invariant is about the resources and the entries. -/
theorem Inv.same (h : Inv w) (hsame : Same w w') : Inv w' := by
  refine ⟨?_, ?_, ?_, ?_, ?_, hsame.streamsOld h.streamsOld, hsame.buffersOld h.buffersOld⟩
  · rw [hsame.fdlist]
    intro e he
    obtain ⟨hstream, hbuf, hcell⟩ := h.entries e he
    exact ⟨(hsame.streams _).mpr hstream, (hsame.buffers _).mpr hbuf, (hsame.cells _ hbuf).trans hcell⟩
  · rw [hsame.fdlist]
    exact h.fds
  · rw [hsame.fdlist]
    exact h.streams
  · rw [hsame.mappings]
    exact h.mapped
  · rw [hsame.mappings, hsame.fdlist]
    exact h.owned

/-- A file that is opened gets an entry of its own. -/
theorem inv_opened (h : Inv w) (hfresh : Fresh w fd) (domain : Domain) (len fdfile : ℤ) :
    Inv { w.opened domain fd with
      fdlist := w.fdlist ++ [⟨len, fd, fdfile, w.streams.next, w.buffers.next⟩] } := by
  have hother : ∀ e ∈ w.fdlist, e.fd ≠ fd := by
    intro e he hfd
    obtain ⟨-, hbuf, hcell⟩ := h.entries e he
    exact hfresh e.buf hbuf.1 hbuf.2 (hcell.trans hfd)
  constructor
  · intro e he
    rcases List.mem_append.mp he with he | he
    · obtain ⟨hstream, hbuf, hcell⟩ := h.entries e he
      exact ⟨Heap.live_alloc () hstream, Heap.live_alloc fd hbuf,
        (Function.update_of_ne (Nat.ne_of_lt hbuf.1) _ _).trans hcell⟩
    · obtain rfl := List.mem_singleton.mp he
      refine ⟨⟨Nat.lt_succ_self _, fun hfreed => ?_⟩, ⟨Nat.lt_succ_self _, fun hfreed => ?_⟩,
        Function.update_self _ _ _⟩
      · exact absurd (h.streamsOld _ hfreed) (lt_irrefl _)
      · exact absurd (h.buffersOld _ hfreed) (lt_irrefl _)
  · rw [List.map_append]
    refine h.fds.append (List.nodup_singleton _) fun d hd hd' => ?_
    obtain ⟨e, he, rfl⟩ := List.mem_map.mp hd
    exact hother e he (List.mem_singleton.mp hd')
  · rw [List.map_append]
    refine h.streams.append (List.nodup_singleton _) fun n hn hn' => ?_
    obtain ⟨e, he, rfl⟩ := List.mem_map.mp hn
    exact (h.entries e he).1.1.ne (List.mem_singleton.mp hn')
  · refine List.nodup_cons.mpr ⟨fun hmem => ?_, h.mapped⟩
    obtain ⟨m, hm, hfd⟩ := List.mem_map.mp hmem
    obtain ⟨e, he, hsame⟩ := h.owned m hm
    exact hother e he (hsame.trans hfd)
  · intro m hm
    rcases List.mem_cons.mp hm with rfl | hm
    · exact ⟨_, List.mem_append_right _ List.mem_cons_self, rfl⟩
    · obtain ⟨e, he, hfd⟩ := h.owned m hm
      exact ⟨e, List.mem_append_left _ he, hfd⟩
  · exact fun n hn => Nat.lt_succ_of_lt (h.streamsOld n hn)
  · exact fun n hn => Nat.lt_succ_of_lt (h.buffersOld n hn)

/-- A file that is closed takes its entry and its resources with it. -/
theorem inv_closed (h : Inv w) (hfound : entryOf w fd = some e) {domain : Domain}
    (hmap : (domain, fd) ∈ w.mappings) :
    Inv ⟨w.streams.free e.stream, w.buffers.free e.buf, w.mappings.erase (domain, fd), w.fdlist.erase e⟩ := by
  obtain ⟨he, hfd⟩ := entryOf_eq_some hfound
  have hsub := List.erase_sublist (a := e) (l := w.fdlist)
  have hrest : ∀ e' ∈ w.fdlist.erase e, e' ≠ e ∧ e' ∈ w.fdlist := fun e' he' =>
    (List.Nodup.mem_erase_iff (h.fds.of_map _)).mp he'
  refine ⟨fun e' he' => ?_, h.fds.sublist (hsub.map _), h.streams.sublist (hsub.map _),
    h.mapped.sublist (List.erase_sublist.map _), fun m hm => ?_, ?_, ?_⟩
  · obtain ⟨hne, he'⟩ := hrest e' he'
    obtain ⟨hstream, hbuf, hcell⟩ := h.entries e' he'
    refine ⟨Heap.live_freeAll hstream fun hsame => ?_, Heap.live_freeAll hbuf fun hsame => ?_, hcell⟩
    · exact hne (List.inj_on_of_nodup_map h.streams he' he (List.mem_singleton.mp hsame))
    · -- one buffer has one descriptor
      have hfds : e'.fd = e.fd := by
        rw [← hcell, ← (h.entries e he).2.2, List.mem_singleton.mp hsame]
      exact hne (List.inj_on_of_nodup_map h.fds he' he hfds)
  · obtain ⟨domain', fd'⟩ := m
    obtain ⟨e', he', hsame⟩ := h.owned _ (List.mem_of_mem_erase hm)
    refine ⟨e', (List.Nodup.mem_erase_iff (h.fds.of_map _)).mpr ⟨?_, he'⟩, hsame⟩
    rintro rfl
    obtain rfl : fd' = fd := hsame.symm.trans hfd
    exact not_mem_erase_mapping h hmap domain' hm
  · intro n hn
    rcases List.mem_append.mp hn with hn | hn
    · exact h.streamsOld n hn
    · exact List.mem_singleton.mp hn ▸ (h.entries e he).1.1
  · intro n hn
    rcases List.mem_append.mp hn with hn | hn
    · exact h.buffersOld n hn
    · exact List.mem_singleton.mp hn ▸ (h.entries e he).2.1.1

theorem inv_step (w : World) (c : Call) (w' : World) (h : Inv w) (hserves : Serves w c)
    (hstep : step w c = some w') : Inv w' := by
  cases c with
  | fopenFd env =>
      unfold step at hstep
      dsimp only at hstep
      split_ifs at hstep with hfresh
      obtain rfl := Option.some.inj hstep
      rcases fopenFd_cases w env with ⟨-, hsame⟩ | ⟨fd, len, hmapped, halloc, heq⟩
      · exact h.same hsame
      · rw [heq, if_pos (hserves hmapped)]
        exact inv_opened h (hfresh fd halloc) env.domain len env.fileno
  | fcloseFd env fd =>
      obtain rfl := Option.some.inj hstep
      cases hfound : entryOf w fd with
      | none =>
          unfold appsStdFcloseFd
          rw [hfound]
          exact h
      | some e =>
          have hmap := hserves (by rw [hfound]; rfl)
          rcases fcloseFd_cases hfound with ⟨hfails, -, -⟩ | ⟨-, hleft⟩
          · exact absurd hmap hfails
          · rw [hleft]
            exact inv_closed h hfound hmap.1

/-- **Every failure is clean** in a run exactly when there is memory for the entry of every file that was
mapped, and the mapping of every file that is closed is released. -/
theorem released_iff (cs : List Call) : Guarded step Releases init cs ↔ Guarded step Serves init cs :=
  (guarded_congr inv_step (fun _ c h => (releases_iff h c).symm) inv_init).symm

end Runs

/-- A file of three bytes. -/
def library : Opening := ⟨3, true, true, 7, some 3, some 12, 3, aeeSuccess, true, 0⟩

/-- There is no memory for the entry: the mapping stays.  The mapping is not released: the file cannot be
closed any more. -/
theorem file_kept :
    ¬ Guarded step Releases init [.fopenFd { library with calloc := false }] ∧
      ¬ Guarded step Releases init [.fopenFd library, .fcloseFd ⟨3, 1, 0, 0⟩ 12] := by
  constructor
  · rintro ⟨hreleases, -⟩
    have hmappings := (hreleases aeeENoMemory_ne).2.2
    exact absurd hmappings (by decide)
  · rintro ⟨-, hrest⟩
    have hreach := (hrest _ rfl).1 (by decide) ⟨3, 12, 7, 0, 0⟩ (by decide) (.inl ⟨by decide, by decide⟩)
    exact absurd hreach (by decide)

end FastRpc.MappedFiles
