import FastRpc.HandleTable

/-! # Multi-domain contexts

`fastrpc_create_context` opens a session on every domain of a list and registers the context with the
kernel; `fastrpc_destroy_context` undoes it, and so does a create that fails.  Both do it with
`fastrpc_context_deinit`.

A session is shared when the domain has one (`hlist[domain].dev`), else `fastrpc_session_open` opens
a device node and returns its descriptor.  `devs` of the context keeps both kinds of descriptors alike,
nothing stores the new ones in `hlist`, and `fastrpc_context_deinit` closes by the field of `hlist`: a
shared session is closed (`shared_session_closed`), an own one never is.  So a context is neutral
exactly when the domains that it reaches are open and their descriptors are `0`, which the loop of
`fastrpc_context_deinit` takes for no session (`context_neutral`).

The results of `calloc`, of `open_device_node` and of the two requests to the kernel are given by a
`ContextEnv`.  The calls of `open` and `close` are recorded. -/

namespace FastRpc.DomainContext

/-- `AEE_EINVALIDDEVICE`. -/
def aeeEInvalidDevice : ℤ := 0x3b

/-- `AEE_EBADDOMAIN`. -/
def aeeEBadDomain : ℤ := 0x4b

/-- `AEE_EBADCONTEXT`. -/
def aeeEBadContext : ℤ := 0x54

/-- `AEE_ECONNREFUSED`. -/
def aeeEConnRefused : ℤ := 0x72

/-- `INVALID_DEVICE`. -/
def invalidDevice : ℤ := -1

/-- `struct fastrpc_context`. -/
structure Context where
  effec_domain_ids : List Domain
  devs : List ℤ
  ctxid : ℕ
  deriving DecidableEq, Repr

/-- The process: the device fields of `hlist` (`none` before it is allocated), the context table
`gctx`, and the descriptors opened and closed so far. -/
structure Process where
  hlist : Option (Domain → ℤ)
  init : Bool
  table : List Context
  opened : List ℤ
  closed : List ℤ

/-- What the calls outside the library return: the four allocations of a context, the device node of
the `i`-th domain of the list, and the requests to register and to remove the context. -/
structure ContextEnv where
  calloc : Fin 4 → Bool
  openDeviceNode : ℕ → ℤ
  mdctxSetup : ℤ
  ctxid : ℕ
  mdctxRemove : ℤ

/-- `fastrpc_context_create`; `none` is a `NULL` list. -/
structure Create where
  effec_domain_ids : Option (List ℕ)
  flags : ℕ
  deriving DecidableEq, Repr

/-! ### Sessions -/

/-- `get_device_fd`. -/
def getDeviceFd (s : Process) (domain : Domain) : ℤ :=
  match s.hlist with
  | some dev => dev domain
  | none => -1

/-- `fastrpc_session_open`, with the result of `open_device_node`. -/
def fastrpcSessionOpen (s : Process) (domain : Domain) (node : ℤ) : Process × Except ℤ ℤ :=
  if getDeviceFd s domain ≠ -1 then (s, .ok (getDeviceFd s domain))
  else if 0 ≤ node then ({ s with opened := s.opened ++ [node] }, .ok node)
  else (s, .error aeeEConnRefused)

/-- `fastrpc_session_close`. -/
def fastrpcSessionClose (s : Process) (domain : Domain) (dev : ℤ) : Process :=
  match s.hlist with
  | none => s
  | some devs =>
      if devs domain = invalidDevice ∧ dev ≠ invalidDevice then
        { s with closed := s.closed ++ [dev] }
      else if devs domain ≠ invalidDevice ∧ dev = invalidDevice then
        { s with hlist := some (Function.update devs domain invalidDevice),
                 closed := s.closed ++ [devs domain] }
      else s

/-! ### Contexts -/

/-- `IS_VALID_EFFECTIVE_DOMAIN_ID` on an `unsigned int`, with the domain of a valid id. -/
def effectiveDomain (id : ℕ) : Option Domain := if h : id < 32 then some ⟨id, h⟩ else none

/-- `GET_DOMAIN_FROM_EFFEC_DOMAIN_ID`. -/
def domainOf (d : Domain) : ℕ := d.val &&& 7

/-- `fastrpc_context_init_domains`: sessions of one domain, or one session on each of several
domains. -/
def fastrpcContextInitDomains (ids : List ℕ) : Except ℤ (List Domain) :=
  match ids.mapM effectiveDomain with
  | none => .error aeeEBadDomain
  | some ds =>
      let domainIds := ds.map domainOf
      if ∀ d ∈ domainIds, some d = domainIds.head? then .ok ds
      else if domainIds.Nodup then .ok ds
      else .error aeeEBadParm

/-- The loop of `fastrpc_create_context` that opens the sessions, from the `i`-th domain on: the
array `devs` (allocated with zeros) and the result. -/
def openSessions (env : ContextEnv) : Process → ℕ → List Domain → Process × List ℤ × ℤ
  | s, _, [] => (s, [], aeeSuccess)
  | s, i, d :: ds =>
      match fastrpcSessionOpen s d (env.openDeviceNode i) with
      | (s, .error code) => (s, List.replicate (ds.length + 1) 0, code)
      | (s, .ok dev) =>
          let (s, devs, nErr) := openSessions env s (i + 1) ds
          (s, dev :: devs, nErr)

/-- The loop of `fastrpc_context_deinit`. -/
def closeSessions : Process → List Domain → List ℤ → Process
  | s, d :: ds, dev :: devs =>
      if dev = 0 then closeSessions s ds devs
      else closeSessions (fastrpcSessionClose s d invalidDevice) ds devs
  | s, _, _ => s

/-- `fastrpc_context_deinit`. -/
def fastrpcContextDeinit (s : Process) (ctx : Context) : Process :=
  closeSessions s ctx.effec_domain_ids ctx.devs

/-- The checks of `fastrpc_create_context` up to its loop: the domains, or the error.  Nothing is
open yet, so that a failed check has nothing to undo. -/
def checkCreate (env : ContextEnv) (s : Process) (create : Create) : Except ℤ (List Domain) :=
  if s.init = false then .error aeeENotInitialized
  else
    match create.effec_domain_ids with
    | none => .error aeeEBadParm
    | some ids =>
        if create.flags ≠ 0 then .error aeeEBadParm
        else if ¬ (ids.length ≠ 0 ∧ ids.length < 32) then .error aeeEBadParm
        else if ∃ i, env.calloc i = false then .error aeeEBadContext
        else
          match fastrpcContextInitDomains ids with
          | .error _ => .error aeeEBadParm
          | .ok ds => .ok ds

/-- The result of `fastrpc_create_context` once its sessions are open. -/
def registerContext (env : ContextEnv) (s : Process) (ds : List Domain) : ℤ :=
  match ds with
  | [] => aeeEInvalidDevice
  | d :: _ => if getDeviceFd s d = -1 then aeeEInvalidDevice else env.mdctxSetup

/-- `fastrpc_create_context`, with the id of the context when it returns success. -/
def fastrpcCreateContext (env : ContextEnv) (s : Process) (create : Create) :
    Process × ℤ × Option ℕ :=
  match checkCreate env s create with
  | .error code => (s, code, none)
  | .ok ds =>
      let (s, devs, nErr) := openSessions env s 0 ds
      let ctx : Context := ⟨ds, devs, env.ctxid⟩
      let nErr := if nErr ≠ aeeSuccess then nErr else registerContext env s ds
      if nErr ≠ aeeSuccess then (fastrpcContextDeinit s ctx, nErr, none)
      else ({ s with table := ctx :: s.table }, aeeSuccess, some env.ctxid)

/-- `fastrpc_destroy_context`. -/
def fastrpcDestroyContext (env : ContextEnv) (s : Process) (ctxid : ℕ) : Process × ℤ :=
  if s.init = false then (s, aeeENotInitialized)
  else
    match s.table.find? (fun ctx => ctx.ctxid = ctxid) with
    | none => (s, aeeEBadContext)
    | some ctx =>
        let s := { s with table := s.table.erase ctx }
        match ctx.effec_domain_ids with
        | [] => (s, aeeEInvalidDevice)
        | d :: _ =>
            if getDeviceFd s d = -1 then (s, aeeEInvalidDevice)
            else if env.mdctxRemove ≠ aeeSuccess then (s, env.mdctxRemove)
            else (fastrpcContextDeinit s ctx, aeeSuccess)

/-- A create, followed by the destroy of its context when there is one. -/
def createDestroy (env : ContextEnv) (s : Process) (create : Create) : Process :=
  match fastrpcCreateContext env s create with
  | (s, _, none) => s
  | (s, _, some ctxid) => (fastrpcDestroyContext env s ctxid).1

/-! ### Neutrality -/

/-- Before the call nothing is recorded. -/
def Process.start (hlist : Option (Domain → ℤ)) (init : Bool) (table : List Context) : Process :=
  ⟨hlist, init, table, [], []⟩

/-- Every device field is as before, what was opened is closed once, and what was open is not
closed. -/
structure Neutral (s t : Process) : Prop where
  devs : t.hlist = s.hlist
  opened_closed : ∀ fd ∈ t.opened, t.closed.count fd = 1
  open_kept : ∀ d, getDeviceFd s d ≠ -1 → getDeviceFd s d ∉ t.closed

/-- The domains on which the loop gets a session: those up to the first one that is neither open nor
can be opened. -/
def reached (env : ContextEnv) (s : Process) : ℕ → List Domain → List Domain
  | _, [] => []
  | i, d :: ds =>
      if getDeviceFd s d ≠ -1 ∨ 0 ≤ env.openDeviceNode i then d :: reached env s (i + 1) ds else []

/-- The context is created on sessions that are all open, and the kernel refuses to remove it. -/
def StaysRegistered (env : ContextEnv) (s : Process) (ds : List Domain) : Prop :=
  (∀ d ∈ ds, getDeviceFd s d ≠ -1) ∧ env.mdctxSetup = aeeSuccess ∧ env.mdctxRemove ≠ aeeSuccess

/-- Every domain that the call reaches is open with descriptor `0`; where the context stays
registered, it is enough that they are open. -/
def SharesOnly (env : ContextEnv) (s : Process) (create : Create) : Prop :=
  ∀ ds, checkCreate env s create = .ok ds →
    ∀ d ∈ reached env s 0 ds, getDeviceFd s d = 0 ∨ StaysRegistered env s ds

/-! ### The loops -/

section Loops

variable {env : ContextEnv} {s t : Process} {i : ℕ} {d : Domain} {ds : List Domain} {devs : List ℤ}

theorem getDeviceFd_congr (h : t.hlist = s.hlist) (d : Domain) :
    getDeviceFd t d = getDeviceFd s d := by
  unfold getDeviceFd
  rw [h]

theorem reached_congr (h : t.hlist = s.hlist) (i : ℕ) (ds : List Domain) :
    reached env t i ds = reached env s i ds := by
  induction ds generalizing i with
  | nil => rfl
  | cons d ds ih => simp only [reached, getDeviceFd_congr h, ih]

/-- The loop reaches all domains when they are open. -/
theorem reached_of_open (h : ∀ d ∈ ds, getDeviceFd s d ≠ -1) : reached env s i ds = ds := by
  induction ds generalizing i with
  | nil => rfl
  | cons d ds ih =>
      rw [List.forall_mem_cons] at h
      rw [reached, if_pos (.inl h.1), ih h.2]

theorem mem_of_mem_reached (h : d ∈ reached env s i ds) : d ∈ ds := by
  induction ds generalizing i with
  | nil => exact h
  | cons e ds ih =>
      rw [reached] at h
      split_ifs at h
      · obtain rfl | h := List.mem_cons.mp h
        · exact List.mem_cons_self
        · exact List.mem_cons_of_mem _ (ih h)
      · exact absurd h List.not_mem_nil

/-- The process after a device node has been opened. -/
def afterOpen (s : Process) (node : ℤ) : Process := { s with opened := s.opened ++ [node] }

theorem reached_afterOpen (env : ContextEnv) (s : Process) (node : ℤ) (i : ℕ) (ds : List Domain) :
    reached env (afterOpen s node) i ds = reached env s i ds :=
  reached_congr (s := s) (t := afterOpen s node) rfl i ds

/-- One round of the loop: a shared session, an own one, or none. -/
theorem openSessions_cons (env : ContextEnv) (s : Process) (i : ℕ) (d : Domain)
    (ds : List Domain) :
    openSessions env s i (d :: ds) =
      if getDeviceFd s d ≠ -1 then
        let r := openSessions env s (i + 1) ds
        (r.1, getDeviceFd s d :: r.2.1, r.2.2)
      else if 0 ≤ env.openDeviceNode i then
        let r := openSessions env (afterOpen s (env.openDeviceNode i)) (i + 1) ds
        (r.1, env.openDeviceNode i :: r.2.1, r.2.2)
      else (s, List.replicate (ds.length + 1) 0, aeeEConnRefused) := by
  simp only [openSessions, fastrpcSessionOpen]
  split_ifs <;> rfl

/-- What the loop leaves alone: everything but the descriptors that it opens. -/
theorem openSessions_same (env : ContextEnv) (s : Process) (i : ℕ) (ds : List Domain) :
    (openSessions env s i ds).1 = { s with opened := (openSessions env s i ds).1.opened } := by
  induction ds generalizing s i with
  | nil => rfl
  | cons d ds ih =>
      rw [openSessions_cons]
      split_ifs
      · exact ih s (i + 1)
      · exact ih (afterOpen s (env.openDeviceNode i)) (i + 1)
      · rfl

theorem openSessions_hlist (env : ContextEnv) (s : Process) (i : ℕ) (ds : List Domain) :
    (openSessions env s i ds).1.hlist = s.hlist := by rw [openSessions_same]

theorem openSessions_closed (env : ContextEnv) (s : Process) (i : ℕ) (ds : List Domain) :
    (openSessions env s i ds).1.closed = s.closed := by rw [openSessions_same]

/-- The loop opens nothing exactly when it reaches only domains that are open. -/
theorem openSessions_opened (env : ContextEnv) (s : Process) (i : ℕ) (ds : List Domain) :
    s.opened <+: (openSessions env s i ds).1.opened ∧
      ((openSessions env s i ds).1.opened = s.opened ↔
        ∀ d ∈ reached env s i ds, getDeviceFd s d ≠ -1) := by
  induction ds generalizing s i with
  | nil => exact ⟨List.prefix_refl _, iff_of_true rfl (fun d hd => absurd hd List.not_mem_nil)⟩
  | cons d ds ih =>
      rw [openSessions_cons, reached]
      by_cases hd : getDeviceFd s d ≠ -1
      · rw [if_pos hd, if_pos (.inl hd), List.forall_mem_cons]
        obtain ⟨hstarts, hiff⟩ := ih s (i + 1)
        exact ⟨hstarts, hiff.trans ⟨fun h => ⟨hd, h⟩, fun h => h.2⟩⟩
      · rw [if_neg hd]
        by_cases hnode : 0 ≤ env.openDeviceNode i
        · rw [if_pos hnode, if_pos (.inr hnode)]
          obtain ⟨hstarts, _⟩ := ih (afterOpen s (env.openDeviceNode i)) (i + 1)
          refine ⟨(List.prefix_append _ _).trans hstarts, iff_of_false ?_ ?_⟩
          · intro hsame
            have hle := hstarts.length_le
            simp only at hsame
            rw [hsame, afterOpen, List.length_append, List.length_singleton] at hle
            omega
          · intro hall
            exact hd (hall d List.mem_cons_self)
        · rw [if_neg hnode, if_neg (not_or.mpr ⟨hd, hnode⟩)]
          exact ⟨List.prefix_refl _, iff_of_true rfl (fun d hd => absurd hd List.not_mem_nil)⟩

/-- The loop ends with success exactly when it reaches all domains. -/
theorem openSessions_success (env : ContextEnv) (s : Process) (i : ℕ) (ds : List Domain) :
    (openSessions env s i ds).2.2 = aeeSuccess ↔ reached env s i ds = ds := by
  induction ds generalizing s i with
  | nil => exact iff_of_true rfl rfl
  | cons d ds ih =>
      rw [openSessions_cons, reached]
      by_cases hd : getDeviceFd s d ≠ -1
      · rw [if_pos hd, if_pos (.inl hd), List.cons_inj_right]
        exact ih s (i + 1)
      · rw [if_neg hd]
        by_cases hnode : 0 ≤ env.openDeviceNode i
        · rw [if_pos hnode, if_pos (.inr hnode), List.cons_inj_right,
            ← reached_afterOpen env s (env.openDeviceNode i)]
          exact ih (afterOpen s (env.openDeviceNode i)) (i + 1)
        · rw [if_neg hnode, if_neg (not_or.mpr ⟨hd, hnode⟩)]
          exact iff_of_false (by decide : aeeEConnRefused ≠ aeeSuccess) (List.cons_ne_nil d ds).symm

/-- `devs` holds the descriptor of a shared session. -/
theorem openSessions_devs (hd : d ∈ reached env s i ds) (hopen : getDeviceFd s d ≠ -1) :
    (d, getDeviceFd s d) ∈ ds.zip (openSessions env s i ds).2.1 := by
  induction ds generalizing s i with
  | nil => exact absurd hd List.not_mem_nil
  | cons e ds ih =>
      rw [openSessions_cons]
      rw [reached] at hd
      by_cases he : getDeviceFd s e ≠ -1
      · rw [if_pos (.inl he)] at hd
        rw [if_pos he]
        obtain rfl | hd := List.mem_cons.mp hd
        · exact List.mem_cons_self
        · exact List.mem_cons_of_mem _ (ih hd hopen)
      · rw [if_neg he]
        by_cases hnode : 0 ≤ env.openDeviceNode i
        · rw [if_pos (.inr hnode)] at hd
          rw [if_pos hnode]
          obtain rfl | hd := List.mem_cons.mp hd
          · exact absurd hopen he
          · rw [← reached_afterOpen env s (env.openDeviceNode i)] at hd
            exact List.mem_cons_of_mem _ (ih hd hopen)
        · rw [if_neg (not_or.mpr ⟨he, hnode⟩)] at hd
          exact absurd hd List.not_mem_nil

/-- `devs` holds zeros when the sessions that the loop reaches are open with descriptor `0`. -/
theorem openSessions_zero (h : ∀ d ∈ reached env s i ds, getDeviceFd s d = 0) :
    ∀ dev ∈ (openSessions env s i ds).2.1, dev = 0 := by
  induction ds generalizing s i with
  | nil => exact fun dev hdev => absurd hdev List.not_mem_nil
  | cons d ds ih =>
      rw [openSessions_cons]
      rw [reached] at h
      by_cases hreach : getDeviceFd s d ≠ -1 ∨ 0 ≤ env.openDeviceNode i
      · rw [if_pos hreach, List.forall_mem_cons] at h
        rw [if_pos (by rw [h.1]; decide)]
        exact List.forall_mem_cons.mpr ⟨h.1, ih h.2⟩
      · obtain ⟨hd, hnode⟩ := not_or.mp hreach
        rw [if_neg hd, if_neg hnode]
        exact fun dev hdev => List.eq_of_mem_replicate hdev

theorem closeSessions_zero (hdevs : ∀ dev ∈ devs, dev = 0) : closeSessions s ds devs = s := by
  induction ds generalizing devs with
  | nil => rfl
  | cons d ds ih =>
      cases devs with
      | nil => rfl
      | cons dev devs =>
          rw [List.forall_mem_cons] at hdevs
          rw [closeSessions, if_pos hdevs.1]
          exact ih hdevs.2

/-- What `fastrpc_context_deinit` does to a domain: it closes the session that `hlist` has. -/
theorem fastrpcSessionClose_cases (s : Process) (d : Domain) :
    (getDeviceFd s d = -1 ∧ fastrpcSessionClose s d invalidDevice = s) ∨
    (getDeviceFd s d ≠ -1 ∧ getDeviceFd (fastrpcSessionClose s d invalidDevice) d = -1) := by
  unfold fastrpcSessionClose getDeviceFd
  cases s.hlist with
  | none => exact .inl ⟨rfl, rfl⟩
  | some dev =>
      simp only [ne_eq, not_true_eq_false, and_false, if_false, and_true]
      by_cases hd : dev d = invalidDevice
      · rw [if_neg (not_not.mpr hd)]
        exact .inl ⟨hd, rfl⟩
      · rw [if_pos hd]
        exact .inr ⟨hd, by simp only [Function.update_self]; rfl⟩

/-- A session that is closed stays closed. -/
theorem fastrpcSessionClose_closed (e : Domain) (h : getDeviceFd s d = -1) :
    getDeviceFd (fastrpcSessionClose s e invalidDevice) d = -1 := by
  by_cases hde : e = d
  · subst hde
    rcases fastrpcSessionClose_cases s e with ⟨_, hsame⟩ | ⟨_, hclosed⟩
    · rw [hsame, h]
    · exact hclosed
  · unfold fastrpcSessionClose
    cases hl : s.hlist with
    | none => exact h
    | some dev =>
        simp only [ne_eq, not_true_eq_false, and_false, if_false, and_true]
        split_ifs
        · exact h
        · simp only [getDeviceFd, hl] at h ⊢
          rw [Function.update_of_ne (Ne.symm hde)]
          exact h

theorem closeSessions_closed (h : getDeviceFd s d = -1) (ds : List Domain) (devs : List ℤ) :
    getDeviceFd (closeSessions s ds devs) d = -1 := by
  induction ds generalizing s devs with
  | nil => exact h
  | cons e ds ih =>
      cases devs with
      | nil => exact h
      | cons dev devs =>
          rw [closeSessions]
          split_ifs
          · exact ih h devs
          · exact ih (fastrpcSessionClose_closed e h) devs

/-- `fastrpc_context_deinit` closes the session of every domain whose descriptor is not `0`. -/
theorem closeSessions_devs {dev : ℤ} (hdev : dev ≠ 0) (h : (d, dev) ∈ ds.zip devs) :
    getDeviceFd (closeSessions s ds devs) d = -1 := by
  induction ds generalizing s devs with
  | nil => exact absurd h List.not_mem_nil
  | cons e ds ih =>
      cases devs with
      | nil => exact absurd h List.not_mem_nil
      | cons dev' devs =>
          rw [List.zip_cons_cons] at h
          rw [closeSessions]
          obtain heq | h := List.mem_cons.mp h
          · obtain ⟨rfl, rfl⟩ := Prod.mk.inj heq
            rw [if_neg hdev]
            apply closeSessions_closed
            rcases fastrpcSessionClose_cases s d with ⟨hclosed, hsame⟩ | ⟨_, hclosed⟩
            · rw [hsame, hclosed]
            · exact hclosed
          · split_ifs
            · exact ih h
            · exact ih h

/-- It closes nothing when it leaves every device field as it is. -/
theorem closeSessions_same (h : (closeSessions s ds devs).hlist = s.hlist) :
    closeSessions s ds devs = s := by
  induction ds generalizing s devs with
  | nil => rfl
  | cons d ds ih =>
      cases devs with
      | nil => rfl
      | cons dev devs =>
          rw [closeSessions] at h ⊢
          split_ifs at h ⊢
          · exact ih h
          · rcases fastrpcSessionClose_cases s d with ⟨_, hsame⟩ | ⟨hopen, hclosed⟩
            · rw [hsame] at h ⊢
              exact ih h
            · have hd := closeSessions_closed hclosed ds devs
              rw [getDeviceFd_congr h] at hd
              exact absurd hd hopen

end Loops

/-! ### Create and destroy -/

section CreateDestroy

variable {env : ContextEnv} {s : Process} {create : Create} {ds : List Domain}

/-- The destroy of the newest context on domains of which the first is open. -/
theorem fastrpcDestroyContext_newest {v : Process} {ctx : Context} {d : Domain}
    (hinit : v.init = true) (hids : ctx.effec_domain_ids = d :: ds)
    (hd : getDeviceFd v d ≠ -1) :
    (fastrpcDestroyContext env { v with table := ctx :: v.table } ctx.ctxid).1 =
      if env.mdctxRemove ≠ aeeSuccess then v else fastrpcContextDeinit v ctx := by
  have hfd : ¬ getDeviceFd { v with table := v.table } d = -1 := hd
  unfold fastrpcDestroyContext
  rw [if_neg (by rw [hinit]; decide)]
  simp only [List.find?_cons, decide_true, List.erase_cons_head, hids]
  rw [if_neg hfd]
  split_ifs <;> rfl

/-- **How a create and its destroy end**: with `fastrpc_context_deinit` of the context, or with a
context on sessions that the destroy has not closed, since the kernel refuses to remove it. -/
theorem createDestroy_cases (hds : checkCreate env s create = .ok ds) :
    let r := openSessions env s 0 ds
    ∃ table, let v := { r.1 with table := table }
      (createDestroy env s create = closeSessions v ds r.2.1 ∧
        (StaysRegistered env s ds → ds = [])) ∨
      (createDestroy env s create = v ∧ r.2.2 = aeeSuccess ∧ env.mdctxSetup = aeeSuccess ∧
        env.mdctxRemove ≠ aeeSuccess) := by
  intro r
  have hinit : (openSessions env s 0 ds).1.init = true := by
    have hs : s.init ≠ false := fun hs => by
      rw [checkCreate, if_pos hs] at hds
      cases hds
    rw [openSessions_same]
    simpa using hs
  have hfd : ∀ d, getDeviceFd (openSessions env s 0 ds).1 d = getDeviceFd s d :=
    getDeviceFd_congr (openSessions_hlist env s 0 ds)
  unfold createDestroy fastrpcCreateContext
  simp only [hds]
  by_cases hn : r.2.2 = aeeSuccess
  · rw [if_neg (not_not.mpr hn)]
    cases ds with
    | nil => exact ⟨r.1.table, .inl ⟨rfl, fun _ => rfl⟩⟩
    | cons d ds =>
        simp only [registerContext, hfd]
        by_cases hd : getDeviceFd s d = -1
        · rw [if_pos hd, if_pos (by decide)]
          exact ⟨r.1.table, .inl ⟨rfl, fun hstay => absurd hd (hstay.1 d List.mem_cons_self)⟩⟩
        · rw [if_neg hd]
          by_cases hsetup : env.mdctxSetup = aeeSuccess
          · rw [if_neg (not_not.mpr hsetup)]
            have hdestroy := @fastrpcDestroyContext_newest env ds _ ⟨d :: ds, r.2.1, env.ctxid⟩
              d hinit rfl (by rw [hfd]; exact hd)
            refine ⟨r.1.table, ?_⟩
            simp only
            rw [hdestroy]
            by_cases hremove : env.mdctxRemove = aeeSuccess
            · rw [if_neg (not_not.mpr hremove)]
              exact .inl ⟨rfl, fun hstay => absurd hremove hstay.2.2⟩
            · rw [if_pos hremove]
              exact .inr ⟨rfl, hn, hsetup, hremove⟩
          · rw [if_pos hsetup]
            exact ⟨r.1.table, .inl ⟨rfl, fun hstay => absurd hstay.2.1 hsetup⟩⟩
  · rw [if_pos hn, if_pos hn]
    refine ⟨r.1.table, .inl ⟨rfl, fun hstay => absurd ?_ hn⟩⟩
    rw [openSessions_success]
    exact reached_of_open hstay.1

end CreateDestroy

/-- A process that records nothing new is neutral. -/
theorem neutral_of_same {s t : Process} (hlist : t.hlist = s.hlist) (hopened : t.opened = [])
    (hclosed : t.closed = []) : Neutral s t := by
  refine ⟨hlist, ?_, ?_⟩
  · rw [hopened]
    exact fun fd hfd => absurd hfd List.not_mem_nil
  · rw [hclosed]
    exact fun d _ => List.not_mem_nil

/-- Where nothing is closed, nothing may have been opened. -/
theorem Neutral.opened_nil {s t : Process} (h : Neutral s t) (hclosed : t.closed = []) :
    t.opened = [] := by
  by_contra hne
  obtain ⟨fd, hfd⟩ := List.exists_mem_of_ne_nil _ hne
  have honce := h.opened_closed fd hfd
  rw [hclosed, List.count_nil] at honce
  omega

/-- **Creating and destroying a context is neutral exactly when the domains that the create reaches are
open with descriptor `0`**, or stay open with a context that the kernel does not remove. -/
theorem context_neutral (env : ContextEnv) (hlist : Option (Domain → ℤ)) (init : Bool)
    (table : List Context) (create : Create) :
    Neutral (.start hlist init table) (createDestroy env (.start hlist init table) create) ↔
      SharesOnly env (.start hlist init table) create := by
  set s := Process.start hlist init table with hs
  cases hds : checkCreate env s create with
  | error code =>
      have hsame : createDestroy env s create = s := by
        simp only [createDestroy, fastrpcCreateContext, hds]
      rw [hsame]
      refine iff_of_true (neutral_of_same rfl rfl rfl) ?_
      intro ds hok
      rw [hds] at hok
      cases hok
  | ok ds =>
      obtain ⟨table', hcases⟩ := createDestroy_cases hds
      simp only at hcases
      set r := openSessions env s 0 ds with hr
      have hhlist : r.1.hlist = s.hlist := openSessions_hlist env s 0 ds
      have hclosed : r.1.closed = [] := openSessions_closed env s 0 ds
      have hopened : r.1.opened = [] ↔ ∀ d ∈ reached env s 0 ds, getDeviceFd s d ≠ -1 :=
        (openSessions_opened env s 0 ds).2
      constructor
      · intro hneutral ds' hds' d hd
        obtain rfl := Except.ok.inj (hds'.symm.trans hds)
        -- with the device fields as before nothing is closed, so nothing was opened
        have hnone : r.1.opened = [] := by
          rcases hcases with ⟨hu, _⟩ | ⟨hu, _⟩
          · have hsame := @closeSessions_same { r.1 with table := table' } ds' r.2.1
              (by rw [← hu, hneutral.devs, ← hhlist])
            rw [hsame] at hu
            rw [hu] at hneutral
            exact hneutral.opened_nil hclosed
          · rw [hu] at hneutral
            exact hneutral.opened_nil hclosed
        have hopen := hopened.mp hnone
        by_contra hnot
        obtain ⟨hzero, hstay⟩ := not_or.mp hnot
        rcases hcases with ⟨hu, _⟩ | ⟨hu, hn, hsetup, hremove⟩
        · have hfd := closeSessions_devs (s := { r.1 with table := table' }) hzero
            (openSessions_devs hd (hopen d hd))
          rw [← hr, ← hu, getDeviceFd_congr hneutral.devs] at hfd
          exact hopen d hd hfd
        · have hall : reached env s 0 ds' = ds' := (openSessions_success env s 0 ds').mp hn
          rw [hall] at hopen
          exact hstay ⟨hopen, hsetup, hremove⟩
      · intro hshares
        have hopen : ∀ d ∈ reached env s 0 ds, getDeviceFd s d ≠ -1 := by
          intro d hd
          rcases hshares ds hds d hd with hzero | hstay
          · rw [hzero]
            decide
          · exact hstay.1 d (mem_of_mem_reached hd)
        rcases hcases with ⟨hu, hstay⟩ | ⟨hu, _⟩
        · have hzero : ∀ d ∈ reached env s 0 ds, getDeviceFd s d = 0 := by
            intro d hd
            refine (hshares ds hds d hd).resolve_right fun h => ?_
            exact List.ne_nil_of_mem (mem_of_mem_reached hd) (hstay h)
          rw [hu, closeSessions_zero (openSessions_zero hzero)]
          exact neutral_of_same hhlist (hopened.mpr hopen) hclosed
        · rw [hu]
          exact neutral_of_same hhlist (hopened.mpr hopen) hclosed

/-- Domain `3` has a session with descriptor `7`; creating a context on it and destroying the context
closes the session. -/
theorem shared_session_closed :
    ¬ Neutral (.start (some (fun _ => 7)) true [])
      (createDestroy ⟨fun _ => true, fun _ => 8, 0, 1, 0⟩ (.start (some (fun _ => 7)) true [])
        ⟨some [3], 0⟩) := by
  intro h
  have hd := getDeviceFd_congr h.devs 3
  exact absurd hd (by decide +kernel)

end FastRpc.DomainContext
