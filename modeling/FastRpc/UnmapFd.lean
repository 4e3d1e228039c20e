import FastRpc.HandleTable
import Mathlib.Data.List.FinRange

/-! # Unmapping a kept descriptor

A buffer that was registered with `FASTRPC_ATTR_KEEP_MAP` stays mapped in the driver after the calls that
used it.  When its last registration is taken back, `fastrpc_unmap_fd` should unmap it on the device of
every open session.  `fastrpc_session_get` and `fastrpc_session_dev` return `0` for success, and both
tests of the loop take `0` for a failure: a session that could be taken is passed over with its
reference kept, and a domain without a session is unmapped on `INVALID_DEVICE`. -/

namespace FastRpc.UnmapFd

/-- `INVALID_DEVICE`. -/
def invalidDevice : ℤ := -1

/-- The fields of `handle_list` that the functions use. -/
structure Session where
  ref : ℕ
  state : DomainState
  dev : ℤ
  deriving DecidableEq, Repr

/-- `hlist`, which is `NULL` before `fastrpc_apps_user_init`, and the domain in the caller's thread
context. -/
structure Sessions where
  hlist : Option (Domain → Session)
  tlsKey : Option Domain

/-- `fastrpc_session_get`. -/
def fastrpcSessionGet (s : Sessions) (domain : Domain) : ℤ × Sessions :=
  match s.hlist with
  | none => (aeeENotInitialized, s)
  | some hlist =>
      if (hlist domain).state = .deinit then (aeeENotInitialized, s)
      else
        (0, ⟨some (Function.update hlist domain
          { hlist domain with ref := addU32 (hlist domain).ref 1 }), some domain⟩)

/-- `fastrpc_session_put`, without its result. -/
def fastrpcSessionPut (s : Sessions) (domain : Domain) : Sessions :=
  match s.hlist with
  | none => s
  | some hlist =>
      { s with hlist := some (Function.update hlist domain
        { hlist domain with ref := (hlist domain).ref - 1 }) }

/-- `fastrpc_session_dev`: its result, and what it writes to `dev`. -/
def fastrpcSessionDev (s : Sessions) (domain : Domain) : ℤ × ℤ :=
  match s.hlist with
  | none => (aeeENotInitialized, invalidDevice)
  | some hlist =>
      if (hlist domain).state = .deinit then (aeeENotInitialized, invalidDevice)
      else if (hlist domain).dev < 0 then (aeeENotInitialized, invalidDevice)
      else (0, (hlist domain).dev)

/-- An `ioctl` with `MUNMAP_FD`: the domain of the loop and the device. -/
abbrev Request := Domain × ℤ

/-- One round of the loop of `fastrpc_unmap_fd`: `nErr`, the sessions and the request.  `ioctl` are the
results of `ioctl_munmap`. -/
def unmapRound (ioctl : Request → ℤ) (s : Sessions) (domain : Domain) :
    ℤ × Sessions × List Request :=
  let (nErr, s) := fastrpcSessionGet s domain
  if nErr = 0 then (nErr, s, [])
  else
    let (nErr, dev) := fastrpcSessionDev s domain
    if nErr = 0 then (nErr, fastrpcSessionPut s domain, [])
    else (ioctl (domain, dev), fastrpcSessionPut s domain, [(domain, dev)])

/-- The loop of `fastrpc_unmap_fd`. -/
def unmapLoop (ioctl : Request → ℤ) : List Domain → ℤ → Sessions → ℤ × Sessions × List Request
  | [], nErr, s => (nErr, s, [])
  | domain :: domains, _, s =>
      let (nErr, s, request) := unmapRound ioctl s domain
      let (nErr, s, requests) := unmapLoop ioctl domains nErr s
      (nErr, s, request ++ requests)

/-- `fastrpc_unmap_fd`. -/
def fastrpcUnmapFd (ioctl : Request → ℤ) (s : Sessions) : ℤ × Sessions × List Request :=
  unmapLoop ioctl (List.finRange 32) 0 s

/-! ### What it should do -/

/-- The entry of a domain. -/
def Sessions.entry (s : Sessions) (domain : Domain) : Option Session :=
  s.hlist.map (fun hlist => hlist domain)

/-- The device of a domain whose session is open. -/
def Sessions.openDev (s : Sessions) (domain : Domain) : Option ℤ :=
  (s.entry domain).bind (fun e => if e.state ≠ .deinit ∧ 0 ≤ e.dev then some e.dev else none)

/-- One request on the device of each open session and no other, and the references as before. -/
structure UnmapsOpen (s s' : Sessions) (requests : List Request) : Prop where
  visits : requests.Perm
    ((List.finRange 32).filterMap (fun d => (s.openDev d).map (fun dev => (d, dev))))
  refs : ∀ d, (s'.entry d).map Session.ref = (s.entry d).map Session.ref

/-! ### What it does -/

section Loop

variable {ioctl : Request → ℤ} {s : Sessions} {d : Domain} {ds : List Domain}

/-- A session that can be taken is passed over, and its reference is kept. -/
theorem unmapRound_taken {e : Session} (he : s.entry d = some e) (hstate : e.state ≠ .deinit) :
    (unmapRound ioctl s d).2.1.entry d = some { e with ref := addU32 e.ref 1 } ∧
      (unmapRound ioctl s d).2.2 = [] := by
  obtain ⟨hlist, hs, rfl⟩ := Option.map_eq_some_iff.mp he
  simp [unmapRound, fastrpcSessionGet, hs, hstate, Sessions.entry]

/-- A domain without a session is unmapped on the invalid device. -/
theorem unmapRound_refused (h : ∀ e ∈ s.entry d, e.state = .deinit) :
    (unmapRound ioctl s d).2.2 = [(d, invalidDevice)] := by
  have hne : aeeENotInitialized ≠ 0 := by decide
  cases hs : s.hlist with
  | none => simp [unmapRound, fastrpcSessionGet, fastrpcSessionDev, hs, hne]
  | some hlist =>
      have hstate : (hlist d).state = .deinit := h _ (by simp [Sessions.entry, hs])
      simp [unmapRound, fastrpcSessionGet, fastrpcSessionDev, hs, hstate, hne]

/-- The round of one domain leaves the others alone. -/
theorem unmapRound_other {d' : Domain} (hne : d' ≠ d) :
    (unmapRound ioctl s d).2.1.entry d' = s.entry d' := by
  unfold unmapRound
  cases hs : s.hlist with
  | none =>
      have hcode : aeeENotInitialized ≠ 0 := by decide
      simp [fastrpcSessionGet, fastrpcSessionDev, fastrpcSessionPut, hs, hcode]
  | some hlist =>
      by_cases hstate : (hlist d).state = .deinit
      · have hcode : aeeENotInitialized ≠ 0 := by decide
        simp [fastrpcSessionGet, fastrpcSessionDev, fastrpcSessionPut, hs, hstate, hcode,
          Sessions.entry, hne]
      · simp [fastrpcSessionGet, hs, hstate, Sessions.entry, hne]

theorem unmapLoop_other {d' : Domain} (nErr : ℤ) (hnot : d' ∉ ds) :
    (unmapLoop ioctl ds nErr s).2.1.entry d' = s.entry d' := by
  induction ds generalizing nErr s with
  | nil => rfl
  | cons d ds ih =>
      obtain ⟨hne, hnot⟩ : d' ≠ d ∧ d' ∉ ds := by simpa using hnot
      exact (ih _ hnot).trans (unmapRound_other hne)

/-- Every session that can be taken keeps the reference. -/
theorem unmapLoop_taken {e : Session} (nErr : ℤ) (hd : d ∈ ds) (hnodup : ds.Nodup)
    (he : s.entry d = some e) (hstate : e.state ≠ .deinit) :
    (unmapLoop ioctl ds nErr s).2.1.entry d = some { e with ref := addU32 e.ref 1 } := by
  induction ds generalizing nErr s with
  | nil => cases hd
  | cons a ds ih =>
      obtain ⟨hnot, hnodup⟩ := List.nodup_cons.mp hnodup
      obtain rfl | hd := List.mem_cons.mp hd
      · exact (unmapLoop_other _ hnot).trans (unmapRound_taken he hstate).1
      · have hne : d ≠ a := fun h => hnot (h ▸ hd)
        exact ih _ hd hnodup ((unmapRound_other hne).trans he)

/-- Every other domain is unmapped on the invalid device. -/
theorem unmapLoop_refused (nErr : ℤ) (hd : d ∈ ds) (hnodup : ds.Nodup)
    (h : ∀ e ∈ s.entry d, e.state = .deinit) :
    (d, invalidDevice) ∈ (unmapLoop ioctl ds nErr s).2.2 := by
  induction ds generalizing nErr s with
  | nil => cases hd
  | cons a ds ih =>
      obtain ⟨hnot, hnodup⟩ := List.nodup_cons.mp hnodup
      obtain rfl | hd := List.mem_cons.mp hd
      · have hround : (d, invalidDevice) ∈ (unmapRound ioctl s d).2.2 := by
          rw [unmapRound_refused h]
          exact List.mem_singleton_self _
        exact List.mem_append_left _ hround
      · have hne : d ≠ a := fun h => hnot (h ▸ hd)
        have hd' : ∀ e ∈ (unmapRound ioctl s a).2.1.entry d, e.state = .deinit := fun e he =>
          h e ((unmapRound_other hne).symm.trans he)
        exact List.mem_append_right _ (ih _ hd hnodup hd')

end Loop

/-- **`fastrpc_unmap_fd` never does what it should**, whatever the state of the domains: a session that
can be taken keeps a reference, and any other domain is unmapped on the invalid device. -/
theorem never_unmaps_open (ioctl : Request → ℤ) (s : Sessions) :
    ¬ UnmapsOpen s (fastrpcUnmapFd ioctl s).2.1 (fastrpcUnmapFd ioctl s).2.2 := by
  rintro ⟨hvisits, hrefs⟩
  have hmem : (0 : Domain) ∈ List.finRange 32 := List.mem_finRange 0
  have hnodup := List.nodup_finRange 32
  by_cases htaken : ∃ e, s.entry 0 = some e ∧ e.state ≠ .deinit
  · obtain ⟨e, he, hstate⟩ := htaken
    have href := hrefs 0
    rw [fastrpcUnmapFd, unmapLoop_taken 0 hmem hnodup he hstate, he] at href
    exact addU32_one_ne_self e.ref (Option.some.inj href)
  · push Not at htaken
    rw [fastrpcUnmapFd] at hvisits
    have hrequest := hvisits.mem_iff.mp (unmapLoop_refused 0 hmem hnodup htaken)
    obtain ⟨d, _, hd⟩ := List.mem_filterMap.mp hrequest
    obtain ⟨dev, hopen, heq⟩ := Option.map_eq_some_iff.mp hd
    obtain ⟨rfl, rfl⟩ := Prod.mk.inj heq
    obtain ⟨e, he, hdev⟩ := Option.bind_eq_some_iff.mp hopen
    rw [htaken e he] at hdev
    cases hdev

/-- One open session on domain `3`: it is not unmapped, and its count goes from `1` to `2`. -/
theorem open_session_passed_over :
    let s : Sessions := ⟨some (fun d => if d = 3 then ⟨1, .init, 5⟩ else ⟨0, .clean, -1⟩), none⟩
    s.openDev 3 = some 5 ∧ (fastrpcUnmapFd (fun _ => 0) s).2.2 = [] ∧
      ((fastrpcUnmapFd (fun _ => 0) s).2.1.entry 3).map Session.ref = some 2 := by
  decide +kernel

end FastRpc.UnmapFd
