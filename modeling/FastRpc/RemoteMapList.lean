import FastRpc.MapLifetime

/-! # The list of remote mappings

`remote_mmap64_internal` maps a buffer in one of two ways, by `MMAP_64` or as a static mapping, as its
flags say, and puts a node with the DSP address and the flags on `memlist`; `remote_munmap64` takes the
node off to know which way to unmap, and puts it back when the unmap fails.  `live` is what the list
should be: the mappings of the current session that were made and not unmapped.

The DSP gives no address to two mappings of a session at a time; in the next session the addresses come
again.  `remote_maps_tracked` says when the list and `live` agree: the allocation of a node must not fail
when the mapping is made; where the flags ask for `MMAP_64` the node is also made when the driver has
refused the mapping; and `fastrpc_mem_close` must find the list empty, because it does not clear it
(`stale_remote_map`). -/

namespace FastRpc.MemList

open StaticMap Transition

/-! ### Data -/

/-- `struct fastrpc_remote_map`. -/
structure RemoteMap where
  vadsp : ℕ
  flags : ℕ
  deriving DecidableEq, Repr

/-- `memlist` and the static mappings, by domain, and the live mappings of the session. -/
structure State where
  memlist : Domain → List RemoteMap
  maps : Store
  live : Domain → List RemoteMap

/-- The errors of the two functions: a code, `AEE_EBADDOMAIN`, or the driver's error, which
`convert_kernel_to_user_error` translates. -/
inductive MapError
  | result (code : AEEResult)
  | badDomain
  | driver (a : DriverAnswer)
  deriving DecidableEq, Repr

/-- The two ways to map and to unmap a buffer. -/
inductive MapPath
  | mmap64
  | staticMap
  deriving DecidableEq, Repr

/-- `ADSP_MMAP_ADD_PAGES`. -/
def addPages : ℕ := 0x1000

/-- `ADSP_MMAP_REMOTE_HEAP_ADDR`. -/
def remoteHeapAddr : ℕ := 8

/-- `flags == ADSP_MMAP_ADD_PAGES || flags == ADSP_MMAP_REMOTE_HEAP_ADDR`. -/
def pathOf (flags : ℕ) : MapPath :=
  if flags = addPages ∨ flags = remoteHeapAddr then .mmap64 else .staticMap

/-- What a call of `remote_mmap64_internal` may learn: the result of `malloc` for its node, and that of
`calloc` and of the driver for the mapping. -/
structure MapAnswer where
  malloc : Bool
  map : StaticMap.Answer

/-- No mapping. -/
def State.init : State := ⟨fun _ => [], Store.init, fun _ => []⟩

/-! ### Functions -/

section Functions

variable (s : State) (d : Domain)

/-- `QList_AppendNode(&memlist[domain].ql, &mNode->qn)`. -/
def State.append (m : RemoteMap) : State :=
  { s with memlist := Function.update s.memlist d (s.memlist d ++ [m]) }

/-- A mapping was made. -/
def State.made (m : RemoteMap) : State :=
  { s with live := Function.update s.live d (s.live d ++ [m]) }

/-- The mapping at this address, if there is one, was unmapped. -/
def State.unmapped (vadsp : ℕ) : State :=
  { s with live := Function.update s.live d ((s.live d).eraseP (·.vadsp = vadsp)) }

/-- The pieces of a call of the static mappings, one after the other. -/
def runCall (maps : Store) (pc : Pc) : List StaticMap.Answer → Store × Pc
  | [] => (maps, pc)
  | a :: as =>
      match advance maps a pc with
      | none => (maps, pc)
      | some r => runCall r.1 r.2 as

/-- A whole call of the static mappings; none has more than four pieces (`runCall_returns`). -/
def callStatic (maps : Store) (session : Session) (c : Call) (a : StaticMap.Answer) :
    Store × Outcome :=
  match runCall maps (enter session c) [a, a, a, a] with
  | (maps, .returned r) => (maps, r)
  | (maps, _) => (maps, .of none)

/-- The domain of the thread, its reference and its device. -/
def enterSession (session : Session) (bad : MapError) : Except MapError Domain :=
  match session.initOnce with
  | some nErr => .error (.result nErr)
  | none =>
      match effectiveDomain session.currentDomain with
      | none => .error bad
      | some d =>
          if session.sessionGet && session.sessionDev then .ok d
          else .error (.result .ENOTINITIALIZED)

/-- `fastrpc_remote_map_lookup`: the first node with this address, off the list. -/
def fastrpcRemoteMapLookup (vadsp : ℕ) : Option (RemoteMap × State) :=
  ((s.memlist d).find? (·.vadsp = vadsp)).map (fun m =>
    (m, { s with
      memlist := Function.update s.memlist d ((s.memlist d).eraseP (·.vadsp = vadsp)) }))

/-- The mapping of `remote_mmap64_internal`: an error, if it fails, and its variable `vaout`. -/
def mapBuffer (session : Session) (fd : ℤ) (flags vaddrin size : ℕ) (a : StaticMap.Answer) :
    Store × Option MapError × ℕ :=
  match pathOf flags with
  | .mmap64 =>
      (s.maps, if a.driver.iocErr = 0 then none else some (.driver a.driver), a.driver.vaddrout)
  | .staticMap =>
      let r := callStatic s.maps session (.mmapInternal (d : ℕ) fd vaddrin 0 size flags true) a
      (r.1, r.2.nErr.map .result, r.2.raddr.getD 0)

/-- `remote_mmap64_internal`.  Its own check of the mapping is missing where the flags ask for
`MMAP_64`. -/
def remoteMmap64Internal (session : Session) (fd : ℤ) (flags vaddrin size : ℕ) (a : MapAnswer) :
    State × Option MapError :=
  match enterSession session .badDomain with
  | .error nErr => (s, some nErr)
  | .ok d =>
      let r := mapBuffer s d session fd flags vaddrin size a.map
      let m : RemoteMap := ⟨r.2.2, flags⟩
      let s := { s with maps := r.1 }
      let s := if r.2.1 = none then s.made d m else s
      if r.2.1 ≠ none ∧ pathOf flags = .staticMap then (s, r.2.1)
      else (if a.malloc then s.append d m else s, r.2.1)

/-- The unmapping of `remote_munmap64` by one of the ways. -/
def unmapBuffer (session : Session) (path : MapPath) (vaddrout size : ℕ) (a : StaticMap.Answer) :
    Store × Option MapError :=
  match path with
  | .mmap64 => (s.maps, if a.driver.iocErr = 0 then none else some (.driver a.driver))
  | .staticMap =>
      let r := callStatic s.maps session (.munmapInternal (d : ℕ) vaddrout size) a
      (r.1, r.2.nErr.map .result)

/-- `remote_munmap64`, with the way by which it unmaps. -/
def remoteMunmap64 (session : Session) (vaddrout size : ℕ) (a : StaticMap.Answer) :
    State × Option MapError × Option MapPath :=
  match enterSession session (.result .ERPC) with
  | .error nErr => (s, some nErr, none)
  | .ok d =>
      match fastrpcRemoteMapLookup s d vaddrout with
      | some (m, s) =>
          let r := unmapBuffer s d session (pathOf m.flags) vaddrout size a
          let s := { s with maps := r.1 }
          (if r.2 = none then s.unmapped d vaddrout else s.append d m, r.2, some (pathOf m.flags))
      | none =>
          let r := unmapBuffer s d session .mmap64 vaddrout size a
          (if r.2 = none then s.unmapped d vaddrout else s, r.2, some .mmap64)

/-- `fastrpc_mem_close`, with which the session and its mappings end. -/
def fastrpcMemClose : State :=
  { s with
    maps := StaticMap.fastrpcMemClose s.maps d
    live := Function.update s.live d [] }

/-- A buffer that was registered before the session was opened. -/
structure Buffer where
  fd : ℤ
  buf : ℕ
  size : ℕ
  answer : StaticMap.Answer

/-- `fastrpc_mem_open`: it tries to map each buffer with `FASTRPC_MAP_STATIC`. -/
def fastrpcMemOpen (session : Session) (buffers : List Buffer) : State :=
  { s with
    maps := buffers.foldl (fun maps b =>
      (callStatic maps session (.mmap (d : ℕ) b.fd b.buf 0 b.size 0) b.answer).1) s.maps }

end Functions

/-! ### Runs -/

/-- The calls, with what they learn from their surroundings. -/
inductive MapOp
  | mmap (session : Session) (fd : ℤ) (flags vaddrin size : ℕ) (a : MapAnswer)
  | munmap (session : Session) (vaddrout size : ℕ) (a : StaticMap.Answer)
  | close (d : Domain)
  | reopen (d : Domain) (session : Session) (buffers : List Buffer)

/-- No two live mappings of a session have the same address. -/
def AddressesDiffer (s : State) (d : Domain) : Prop := ((s.live d).map RemoteMap.vadsp).Nodup

instance (s : State) (d : Domain) : Decidable (AddressesDiffer s d) :=
  inferInstanceAs (Decidable (List.Nodup _))

/-- One call.  The DSP gives a mapping an address that no live one has. -/
def step (s : State) : MapOp → Option State
  | .mmap session fd flags vaddrin size a =>
      let t := (remoteMmap64Internal s session fd flags vaddrin size a).1
      if ∀ d, AddressesDiffer t d then some t else none
  | .munmap session vaddrout size a => some (remoteMunmap64 s session vaddrout size a).1
  | .close d => some (fastrpcMemClose s d)
  | .reopen d session buffers => some (fastrpcMemOpen s d session buffers)

/-- Every list has one node for each live mapping of its session, with its flags. -/
def Tracks (s : State) : Prop := ∀ d, (s.memlist d).Perm (s.live d)

/-- A `remote_munmap64` of a live address unmaps the way it was mapped. -/
def PathMatches (s : State) : MapOp → Prop
  | .munmap session vaddrout size a => ∀ d, enterSession session (.result .ERPC) = .ok d →
      ∀ m ∈ s.live d, m.vadsp = vaddrout →
        (remoteMunmap64 s session vaddrout size a).2.2 = some (pathOf m.flags)
  | _ => True

/-- The node is allocated when the mapping is made, and only then where the mapping is not checked; and a
session ends with its list empty. -/
def KeepsTrack (s : State) : MapOp → Prop
  | .mmap session fd flags vaddrin size a => ∀ d, enterSession session .badDomain = .ok d →
      if (mapBuffer s d session fd flags vaddrin size a.map).2.1 = none then a.malloc = true
      else pathOf flags = .mmap64 → a.malloc = false
  | .close d => s.memlist d = []
  | _ => True

instance (s : State) : (op : MapOp) → Decidable (KeepsTrack s op)
  | .mmap session fd flags vaddrin size a =>
      match h : enterSession session .badDomain with
      | .error _ => isTrue (by simp [KeepsTrack, h])
      | .ok d => decidable_of_iff
          (if (mapBuffer s d session fd flags vaddrin size a.map).2.1 = none then a.malloc = true
            else pathOf flags = .mmap64 → a.malloc = false)
          (by simp only [KeepsTrack, h, Except.ok.injEq, forall_eq'])
  | .close d => decidable_of_iff ((s.memlist d).isEmpty = true) List.isEmpty_iff
  | .munmap _ _ _ _ => isTrue trivial
  | .reopen _ _ _ => isTrue trivial

/-! ### The calls of the static mappings -/

section Static

variable {maps : Store} {session : Session} {a : StaticMap.Answer}

/-- The pieces that a call at this place still has at most. -/
def pieces : Pc → ℕ
  | .returned _ => 0
  | .mmapEnter _ _ => 4
  | .mmapSearched _ _ _ => 3
  | .mmapAllocated _ _ => 2
  | .mmapMapped _ _ _ => 1
  | .munmapEnter _ _ => 3
  | .munmapFound _ _ => 2
  | .munmapCalled _ _ _ => 1
  | .refEnter _ _ _ => 1
  | .closeEnter _ => 1

theorem advance_pieces {pc : Pc} {r : Store × Pc} (h : advance maps a pc = some r) :
    pieces r.2 < pieces pc := by
  cases pc with
  | returned _ => cases h
  | mmapSearched _ _ _ =>
      simp only [advance] at h
      split at h <;> cases h <;> simp [pieces, Pc.fails]
  | mmapAllocated _ _ =>
      simp only [advance] at h
      split at h <;> cases h <;> simp [pieces]
  | munmapEnter _ _ =>
      simp only [advance] at h
      split at h <;> cases h <;> simp [pieces, Pc.fails]
  | _ =>
      cases h
      simp [pieces]

theorem advance_none {pc : Pc} (h : advance maps a pc = none) : ∃ r, pc = .returned r := by
  cases pc with
  | returned r => exact ⟨r, rfl⟩
  | mmapSearched _ _ _ =>
      simp only [advance] at h
      split at h <;> cases h
  | mmapAllocated _ _ =>
      simp only [advance] at h
      split at h <;> cases h
  | munmapEnter _ _ =>
      simp only [advance] at h
      split at h <;> cases h
  | _ => cases h

theorem runCall_returns (maps : Store) {pc : Pc} (answers : List StaticMap.Answer)
    (h : pieces pc ≤ answers.length) :
    ∃ r, (runCall maps pc answers).2 = .returned r := by
  induction answers generalizing maps pc with
  | nil =>
      cases hadv : advance maps ⟨true, 0, 0, 0⟩ pc with
      | none => exact advance_none hadv
      | some r =>
          have hlt := advance_pieces hadv
          rw [List.length_nil] at h
          omega
  | cons a as ih =>
      unfold runCall
      cases hadv : advance maps a pc with
      | none => exact advance_none hadv
      | some r =>
          have hlt := advance_pieces hadv
          rw [List.length_cons] at h
          exact ih r.1 (by omega)

theorem pieces_enter (c : Call) : pieces (enter session c) ≤ 4 := by
  have hopen : ∀ domain, ∀ next : Domain → Pc, (∀ d, pieces (next d) ≤ 4) →
      pieces (openSession session domain next) ≤ 4 := by
    intro domain next hnext
    unfold openSession
    split
    · exact Nat.zero_le _
    · split_ifs
      · exact hnext _
      · exact Nat.zero_le _
  cases c with
  | bufferRef domain fd ref => simp only [enter]; split <;> simp [pieces, Pc.fails]
  | memClose domain => simp only [enter]; split <;> simp [pieces, Pc.fails]
  | munmapInternal domain raddr length =>
      simp only [enter]
      split
      · exact Nat.zero_le _
      · exact hopen _ _ (fun _ => by simp [pieces])
  | _ =>
      simp only [enter]
      split
      · exact Nat.zero_le _
      · split_ifs <;> first | exact Nat.zero_le _ | exact hopen _ _ (fun _ => by simp [pieces])

/-- A call of the static mappings comes to its end. -/
theorem callStatic_returns (c : Call) :
    runCall maps (enter session c) [a, a, a, a] =
      ((callStatic maps session c a).1, .returned (callStatic maps session c a).2) := by
  obtain ⟨r, hr⟩ := runCall_returns maps [a, a, a, a] (pieces_enter c)
  unfold callStatic
  rw [← Prod.mk.eta (p := runCall maps (enter session c) [a, a, a, a]), hr]

end Static

/-! ### The list and the live mappings -/

/-- **The invariant.** -/
structure Inv (s : State) : Prop where
  tracks : Tracks s
  differ : ∀ d, AddressesDiffer s d

theorem inv_init : Inv State.init := ⟨fun _ => .refl _, fun _ => List.nodup_nil⟩

section Steps

variable {s t : State} {d : Domain} {m : RemoteMap} {l : List RemoteMap} {vadsp : ℕ}

/-- With different addresses at most one mapping has the address. -/
theorem pairwise_address (h : (l.map RemoteMap.vadsp).Nodup) (vadsp : ℕ) :
    l.Pairwise (fun a b => decide (a.vadsp = vadsp) = true → decide (b.vadsp = vadsp) = true →
      False) := by
  refine (List.pairwise_map.mp h).imp ?_
  intro a b hne ha hb
  exact hne ((of_decide_eq_true ha).trans (of_decide_eq_true hb).symm)

/-- The node that a lookup takes off, put back at the end. -/
theorem eraseP_append_perm {p : RemoteMap → Bool} (h : l.find? p = some m) :
    (l.eraseP p ++ [m]).Perm l := by
  obtain ⟨hp, as, bs, rfl, has⟩ := List.find?_eq_some_iff_append.mp h
  rw [List.eraseP_append_right _ (fun a ha => by simpa using has a ha), List.eraseP_cons_of_pos hp,
    List.append_assoc]
  have hcomm : (bs ++ [m]).Perm ([m] ++ bs) := List.perm_append_comm
  exact hcomm.append_left as

/-- A list that has grown on one side only. -/
theorem not_perm_append {l' : List RemoteMap} (h : l.Perm l') : ¬ (l ++ [m]).Perm l' := by
  intro hperm
  have hlength := (hperm.trans h.symm).length_eq
  rw [List.length_append, List.length_singleton] at hlength
  omega

theorem tracks_made_append (h : Tracks s) : Tracks ((s.made d m).append d m) := by
  intro d'
  rcases eq_or_ne d' d with rfl | hne
  · simp only [State.append, State.made, Function.update_self]
    exact (h d').append_right _
  · simp only [State.append, State.made, Function.update_of_ne hne]
    exact h d'

theorem not_tracks_made (h : Tracks s) : ¬ Tracks (s.made d m) := by
  intro htracks
  have hperm := htracks d
  simp only [State.made, Function.update_self] at hperm
  exact not_perm_append (h d).symm hperm.symm

theorem not_tracks_append (h : Tracks s) : ¬ Tracks (s.append d m) := by
  intro htracks
  have hperm := htracks d
  simp only [State.append, Function.update_self] at hperm
  exact not_perm_append (h d) hperm

/-- **`remote_mmap64_internal`** keeps the list right exactly when its node is allocated as it should. -/
theorem tracks_mmap (h : Tracks s) (session : Session) (fd : ℤ) (flags vaddrin size : ℕ)
    (a : MapAnswer) :
    Tracks (remoteMmap64Internal s session fd flags vaddrin size a).1 ↔
      KeepsTrack s (.mmap session fd flags vaddrin size a) := by
  simp only [remoteMmap64Internal, KeepsTrack]
  cases hd : enterSession session .badDomain with
  | error nErr => exact iff_of_true h (fun _ hd' => by cases hd')
  | ok d =>
      -- the static mappings are no part of the property
      have hmaps : Tracks { s with maps := (mapBuffer s d session fd flags vaddrin size a.map).1 } := h
      simp only [Except.ok.injEq, forall_eq']
      by_cases hmade : (mapBuffer s d session fd flags vaddrin size a.map).2.1 = none
      · rw [if_pos hmade, if_neg (fun hno => hno.1 hmade), if_pos hmade]
        cases a.malloc with
        | false => exact iff_of_false (not_tracks_made hmaps) (by decide)
        | true => exact iff_of_true (tracks_made_append hmaps) rfl
      · rw [if_neg hmade, if_neg hmade]
        by_cases hpath : pathOf flags = .staticMap
        · rw [if_pos ⟨hmade, hpath⟩, hpath]
          exact iff_of_true hmaps (fun hno => nomatch hno)
        · have hmmap : pathOf flags = .mmap64 := by
            cases hp : pathOf flags with
            | mmap64 => rfl
            | staticMap => exact absurd hp hpath
          rw [if_neg (fun hno => hpath hno.2), hmmap]
          cases a.malloc with
          | false => exact iff_of_true hmaps (fun _ => rfl)
          | true => exact iff_of_false (not_tracks_append hmaps) (fun hno => by cases hno rfl)

/-- The first node with an address on the list is the live mapping of this address. -/
theorem Inv.find_live (h : Inv s) (hm : m ∈ s.live d) :
    (s.memlist d).find? (·.vadsp = m.vadsp) = some m := by
  have hmem : m ∈ s.memlist d := (h.tracks d).mem_iff.mpr hm
  cases hfind : (s.memlist d).find? (·.vadsp = m.vadsp) with
  | none => exact absurd (List.find?_eq_none.mp hfind m hmem) (by simp)
  | some m' =>
      have hm' : m' ∈ s.live d := (h.tracks d).mem_iff.mp (List.mem_of_find?_eq_some hfind)
      have haddr : m'.vadsp = m.vadsp := by simpa using List.find?_some hfind
      rw [List.inj_on_of_nodup_map (h.differ d) hm' hm haddr]

/-- **`remote_munmap64`** keeps the list right. -/
theorem Inv.munmap (h : Inv s) (session : Session) (vaddrout size : ℕ) (a : StaticMap.Answer) :
    Inv (remoteMunmap64 s session vaddrout size a).1 := by
  unfold remoteMunmap64
  cases hd : enterSession session (.result .ERPC) with
  | error nErr => exact h
  | ok d =>
      have hdiffer : ∀ d', ((Function.update s.live d
          ((s.live d).eraseP (·.vadsp = vaddrout)) d').map RemoteMap.vadsp).Nodup := by
        intro d'
        rcases eq_or_ne d' d with rfl | hne
        · rw [Function.update_self]
          exact (h.differ d').sublist (List.eraseP_sublist.map _)
        · rw [Function.update_of_ne hne]
          exact h.differ d'
      cases hfind : (s.memlist d).find? (·.vadsp = vaddrout) with
      | none =>
          simp only [fastrpcRemoteMapLookup, hfind, Option.map_none]
          split_ifs
          · refine ⟨fun d' => ?_, hdiffer⟩
            rcases eq_or_ne d' d with rfl | hne
            · simp only [State.unmapped, Function.update_self]
              rw [List.eraseP_of_forall_not]
              · exact h.tracks d'
              · intro m hm
                exact List.find?_eq_none.mp hfind m ((h.tracks d').mem_iff.mpr hm)
            · simp only [State.unmapped, Function.update_of_ne hne]
              exact h.tracks d'
          · exact h
      | some m =>
          simp only [fastrpcRemoteMapLookup, hfind, Option.map_some]
          split_ifs
          · refine ⟨fun d' => ?_, hdiffer⟩
            rcases eq_or_ne d' d with rfl | hne
            · simp only [State.unmapped, Function.update_self]
              refine List.Perm.eraseP _ (pairwise_address ?_ vaddrout) (h.tracks d')
              exact ((h.tracks d').map _).nodup_iff.mpr (h.differ d')
            · simp only [State.unmapped, Function.update_of_ne hne]
              exact h.tracks d'
          · refine ⟨fun d' => ?_, h.differ⟩
            rcases eq_or_ne d' d with rfl | hne
            · simp only [State.append, Function.update_self]
              exact (eraseP_append_perm hfind).trans (h.tracks d')
            · simp only [State.append, Function.update_of_ne hne]
              exact h.tracks d'

/-- A live mapping is unmapped the way it was mapped. -/
theorem Inv.pathMatches (h : Inv s) (op : MapOp) : PathMatches s op := by
  cases op with
  | munmap session vaddrout size a =>
      intro d hd m hm haddr
      have hfind := h.find_live hm
      rw [haddr] at hfind
      simp only [remoteMunmap64, hd, fastrpcRemoteMapLookup, hfind, Option.map_some]
  | _ => trivial

/-- **`fastrpc_mem_close`** keeps the list right exactly when it is empty. -/
theorem tracks_close (h : Tracks s) : Tracks (fastrpcMemClose s d) ↔ s.memlist d = [] := by
  constructor
  · intro htracks
    have hperm := htracks d
    simp only [fastrpcMemClose, Function.update_self] at hperm
    exact hperm.eq_nil
  · intro hnil d'
    rcases eq_or_ne d' d with rfl | hne
    · simp only [fastrpcMemClose, Function.update_self, hnil]
      exact .refl _
    · simp only [fastrpcMemClose, Function.update_of_ne hne]
      exact h d'

/-- **A step keeps the lists right exactly when it meets the condition.** -/
theorem Inv.tracks_step (h : Inv s) {op : MapOp} (ht : step s op = some t) :
    Tracks t ↔ KeepsTrack s op := by
  cases op with
  | mmap session fd flags vaddrin size a =>
      simp only [step] at ht
      split_ifs at ht
      obtain rfl := Option.some.inj ht
      exact tracks_mmap h.tracks session fd flags vaddrin size a
  | munmap session vaddrout size a =>
      obtain rfl := Option.some.inj ht
      exact iff_of_true (h.munmap session vaddrout size a).tracks trivial
  | close d =>
      obtain rfl := Option.some.inj ht
      exact tracks_close h.tracks
  | reopen d session buffers =>
      obtain rfl := Option.some.inj ht
      exact iff_of_true h.tracks trivial

theorem Inv.step (h : Inv s) {op : MapOp} (hop : KeepsTrack s op) (ht : step s op = some t) :
    Inv t := by
  refine ⟨(h.tracks_step ht).mpr hop, ?_⟩
  cases op with
  | mmap session fd flags vaddrin size a =>
      simp only [MemList.step] at ht
      split_ifs at ht with hdiffer
      obtain rfl := Option.some.inj ht
      exact hdiffer
  | munmap session vaddrout size a =>
      obtain rfl := Option.some.inj ht
      exact (h.munmap session vaddrout size a).differ
  | close d =>
      obtain rfl := Option.some.inj ht
      intro d'
      rcases eq_or_ne d' d with rfl | hne
      · simp only [AddressesDiffer, fastrpcMemClose, Function.update_self]
        exact List.nodup_nil
      · simp only [AddressesDiffer, fastrpcMemClose, Function.update_of_ne hne]
        exact h.differ d'
  | reopen d session buffers =>
      obtain rfl := Option.some.inj ht
      exact h.differ

end Steps

/-- **The list tracks the live mappings exactly when every step keeps it.**  In such a run every live
mapping is unmapped the way it was mapped. -/
theorem remote_maps_tracked {ops : List MapOp} {t : State} (h : run step State.init ops = some t) :
    (Along step Tracks State.init ops ↔ Guarded step KeepsTrack State.init ops) ∧
      (Guarded step KeepsTrack State.init ops → Guarded step PathMatches State.init ops) := by
  refine ⟨along_iff_guarded (fun _ _ _ hs hop ht => hs.step hop ht) (fun _ hs => hs.tracks)
    (fun _ _ _ hs hop ht htracks => hop ((hs.tracks_step ht).mp htracks)) inv_init h, fun hg => ?_⟩
  exact (along_and_guarded (fun _ _ _ hs hop ht => hs.step hop ht) (fun _ hs => hs.tracks)
    (fun _ op hs _ => hs.pathMatches op) inv_init hg).2

/-- The allocation of the node succeeds, and everything else too. -/
def allocates : MapAnswer := ⟨true, succeeds⟩

/-- A heap mapping and, in the next session, a static mapping of the same address, each unmapped. -/
theorem remote_maps_tracked_reopen :
    let ops : List MapOp :=
      [.mmap openedSession (-1) addPages 0 4096 allocates,
        .munmap openedSession 0x4000 4096 succeeds, .close 3, .reopen 3 openedSession [],
        .mmap openedSession 5 0 0x1000 4096 allocates, .munmap openedSession 0x4000 4096 succeeds]
    Along step Tracks State.init ops ∧ Guarded step PathMatches State.init ops := by
  intro ops
  obtain ⟨t, ht⟩ := Option.isSome_iff_exists.mp
    (show (run step State.init ops).isSome = true by decide +kernel)
  obtain ⟨hexact, hpath⟩ := remote_maps_tracked ht
  have hg : Guarded step KeepsTrack State.init ops := by decide +kernel
  exact ⟨hexact.mpr hg, hpath hg⟩

/-- A session ends with a heap mapping at `0x4000`, and the next one has a static mapping there: the node
of the heap mapping is still on the list, and `remote_munmap64` unmaps with `MUNMAP_64`. -/
theorem stale_remote_map :
    ∃ t, run step State.init
        [.mmap openedSession (-1) addPages 0 4096 allocates, .close 3, .reopen 3 openedSession [],
          .mmap openedSession 5 0 0x1000 4096 allocates] = some t ∧
      ¬ Tracks t ∧ ¬ PathMatches t (.munmap openedSession 0x4000 4096 succeeds) := by
  obtain ⟨t, ht, hview⟩ := Option.map_eq_some_iff.mp (show
    (run step State.init
      [.mmap openedSession (-1) addPages 0 4096 allocates, .close 3, .reopen 3 openedSession [],
        .mmap openedSession 5 0 0x1000 4096 allocates]).map (fun t => (t.memlist 3, t.live 3)) =
      some ([⟨0x4000, addPages⟩, ⟨0x4000, 0⟩], [⟨0x4000, 0⟩]) by decide +kernel)
  obtain ⟨hmemlist, hlive⟩ := Prod.mk.inj hview
  refine ⟨t, ht, fun htracks => ?_, fun hpath => ?_⟩
  · have hlength := (htracks 3).length_eq
    rw [hmemlist, hlive] at hlength
    exact absurd hlength (by decide)
  · have htaken := hpath 3 rfl ⟨0x4000, 0⟩ (by rw [hlive]; exact List.mem_cons_self) rfl
    have hfind : (t.memlist 3).find? (·.vadsp = 0x4000) = some ⟨0x4000, addPages⟩ := by
      rw [hmemlist]
      rfl
    simp only [remoteMunmap64, show enterSession openedSession (.result .ERPC) = .ok 3 from rfl,
      fastrpcRemoteMapLookup, hfind, Option.map_some] at htaken
    exact absurd htaken (by decide)

end FastRpc.MemList
