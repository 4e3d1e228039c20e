import FastRpc.ResponseWait

/-! # Who is counted in the wait counts

`dspqueue_read`, `dspqueue_peek`, `dspqueue_write` and the packet callback thread add themselves to the
`wait_count` of a direction before they wait, and take themselves off again when they are done.  `move` is
the control flow of the four loops, with the effect of each piece on the mutex and the count of its
direction; what the other functions answer is part of the label.  A thread is one call, or the callback
thread: a call that the client makes from the callback is a thread of its own.

The three functions leave through one `bail`.  The callback thread has its own ways out, and the one for
an error of `wait_signal_locked` other than `AEE_EINTERRUPTED` and `AEE_EBADSTATE` leaves its announcement
behind.  `own` keeps the balance of what each thread has added and taken off. -/

namespace FastRpc.WaitCounts

open Transition
open ResponseWait (Config)

/-! ### The loops -/

/-- The `read_state` of the response queue or the `write_state` of the request queue. -/
inductive Direction
  | response
  | request
  deriving DecidableEq, Repr

/-- The functions that wait. -/
inductive Blocking
  | read
  | peek
  | write
  deriving DecidableEq, Repr

def Blocking.direction : Blocking → Direction
  | read | peek => .response
  | write => .request

/-- Where a call is: `first`, `second` and `again` are about to call the `noblock` function, `clock` is in
front of `clock_gettime`. -/
inductive CallPlace
  | entry
  | first
  | announce
  | second
  | clock
  | enter
  | inWait
  | again
  | bail
  | unlock
  deriving DecidableEq, Repr

/-- A call, with its variable `waiting` and whether it has a timeout. -/
structure Call where
  function : Blocking
  timed : Bool
  place : CallPlace
  waiting : Bool
  deriving DecidableEq, Repr

/-- Where the callback thread is; `interrupted` and `failed` are behind a wait with an error. -/
inductive CallbackPlace
  | entry
  | check
  | announce
  | recheck
  | enter
  | inWait
  | withdraw
  | unlock
  | interrupted
  | unlockExit
  | failed
  | exited
  deriving DecidableEq, Repr

/-- A thread that is outside, in a call, or the callback thread. -/
inductive Pc
  | idle
  | call (c : Call)
  | callback (place : CallbackPlace)
  deriving DecidableEq, Repr

/-- The next piece of a thread. -/
inductive Label
  | call (function : Blocking) (timed : Bool)
  | lock
  | tried (wouldBlock : Bool)
  | announce
  | clock (ok : Bool)
  | check
  | enterWait
  | waited (nErr : Option AEEResult)
  | withdraw
  | unlock
  deriving DecidableEq, Repr

/-- What a piece does to the mutex and the count of its direction. -/
inductive Effect
  | quiet
  | acquire
  | release
  | add
  | sub
  deriving DecidableEq, Repr

/-- Behind a `noblock` call. -/
def Call.tried (cfg : Config) (c : Call) (wouldBlock : Bool) : Option Call :=
  match c.place with
  | .first =>
      some { c with place :=
        if wouldBlock then
          if cfg.haveWaitCounts then .announce else if c.timed then .clock else .enter
        else .bail }
  | .second =>
      some { c with place := if wouldBlock then if c.timed then .clock else .enter else .bail }
  | .again => some { c with place := if wouldBlock then .enter else .bail }
  | _ => none

/-- A piece of `dspqueue_read`, `dspqueue_peek` or `dspqueue_write`. -/
def Call.move (cfg : Config) (c : Call) : Label → Option (Pc × Effect)
  | .lock => if c.place = .entry then some (.call { c with place := .first }, .acquire) else none
  | .tried wouldBlock => (c.tried cfg wouldBlock).map (fun c => (.call c, .quiet))
  | .announce =>
      if c.place = .announce then some (.call { c with place := .second, waiting := true }, .add)
      else none
  | .clock ok =>
      if c.place = .clock then some (.call { c with place := if ok then .enter else .bail }, .quiet)
      else none
  | .enterWait =>
      if c.place = .enter then
        some (.call { c with place := .inWait }, if cfg.haveDriverSignaling then .quiet else .release)
      else none
  | .waited nErr =>
      if c.place = .inWait then
        some (.call { c with place := if nErr = none then .again else .bail },
          if cfg.haveDriverSignaling then .quiet else .acquire)
      else none
  | .withdraw =>
      if c.place = .bail then
        some (.call { c with place := .unlock, waiting := false }, if c.waiting then .sub else .quiet)
      else none
  | .unlock => if c.place = .unlock then some (.idle, .release) else none
  | _ => none

/-- Behind the wait of the callback thread. -/
def afterWait (nErr : Option AEEResult) : CallbackPlace :=
  if nErr = some .EINTERRUPTED ∨ nErr = some .EBADSTATE then .interrupted
  else if nErr ≠ none then .failed
  else .withdraw

/-- A piece of `dspqueue_packet_callback_thread`. -/
def CallbackPlace.move (cfg : Config) : CallbackPlace → Label → Option (Pc × Effect)
  | .entry, .lock => some (.callback .check, .acquire)
  | .check, .check => some (.callback .announce, .quiet)
  | .announce, .announce => some (.callback .recheck, if cfg.haveWaitCounts then .add else .quiet)
  | .recheck, .check => some (.callback .enter, .quiet)
  | .enter, .enterWait =>
      some (.callback .inWait, if cfg.haveDriverSignaling then .quiet else .release)
  | .inWait, .waited nErr =>
      some (.callback (afterWait nErr), if cfg.haveDriverSignaling then .quiet else .acquire)
  | .withdraw, .withdraw => some (.callback .unlock, if cfg.haveWaitCounts then .sub else .quiet)
  | .interrupted, .withdraw =>
      some (.callback .unlockExit, if cfg.haveWaitCounts then .sub else .quiet)
  | .unlock, .unlock => some (.callback .entry, .release)
  | .unlockExit, .unlock | .failed, .unlock => some (.callback .exited, .release)
  | _, _ => none

/-- The next piece of a thread, and its effect. -/
def Pc.move (cfg : Config) : Pc → Label → Option (Pc × Effect)
  | .idle, .call function timed => some (.call ⟨function, timed, .entry, false⟩, .quiet)
  | .idle, _ => none
  | .call c, l => c.move cfg l
  | .callback place, l => place.move cfg l

/-- The direction that a thread waits in. -/
def Pc.direction : Pc → Direction
  | .idle => .response
  | .call c => c.function.direction
  | .callback _ => .response

/-! ### The queue -/

/-- The mutexes and wait counts of the two directions, the threads, and what each thread has added to the
counts and not taken off. -/
structure State (ι : Type) where
  mutex : Direction → Option ι
  waitCount : Direction → ℕ
  own : ι → ℤ
  pc : ι → Pc

variable {ι : Type} [DecidableEq ι]

/-- A new queue, whose callback thread is `callback`. -/
def init (callback : Option ι) : State ι where
  mutex := fun _ => none
  waitCount := fun _ => 0
  own := fun _ => 0
  pc := fun i => if callback = some i then .callback .entry else .idle

/-- The effect of a piece of thread `i`. -/
def State.apply (s : State ι) (i : ι) (d : Direction) : Effect → Option (State ι)
  | .quiet => some s
  | .acquire =>
      if s.mutex d = none then some { s with mutex := Function.update s.mutex d (some i) } else none
  | .release => some { s with mutex := Function.update s.mutex d none }
  | .add =>
      some { s with
        waitCount := Function.update s.waitCount d (addU32 (s.waitCount d) 1)
        own := Function.update s.own i (s.own i + 1) }
  | .sub =>
      some { s with
        waitCount := Function.update s.waitCount d (subU32 (s.waitCount d) 1)
        own := Function.update s.own i (s.own i - 1) }

/-- One piece of thread `e.1`. -/
def step (cfg : Config) (s : State ι) (e : ι × Label) : Option (State ι) :=
  ((s.pc e.1).move cfg e.2).bind (fun r =>
    (s.apply e.1 ((s.pc e.1).direction) r.2).map (fun s =>
      { s with pc := Function.update s.pc e.1 r.1 }))

/-! ### Who is counted -/

/-- The direction in which the thread has announced a wait that it has not left. -/
def Pc.announced (cfg : Config) : Pc → Option Direction
  | .idle => none
  | .call c => if c.waiting then some c.function.direction else none
  | .callback .recheck | .callback .enter | .callback .inWait | .callback .withdraw
  | .callback .interrupted => if cfg.haveWaitCounts then some .response else none
  | .callback _ => none

/-- Each wait count is the number of threads that have announced a wait and not left it, and each thread has
taken its own announcements off. -/
structure Exact [Fintype ι] (cfg : Config) (s : State ι) : Prop where
  counts : ∀ d, s.waitCount d = Threads.count (fun pc => pc.announced cfg = some d) s.pc
  own : ∀ i, s.own i = if ((s.pc i).announced cfg).isSome then 1 else 0

/-- A wait ends with an error that is no cancellation. -/
def Label.otherError : Label → Bool
  | .waited (some nErr) => nErr ≠ .EINTERRUPTED ∧ nErr ≠ .EBADSTATE
  | _ => false

/-- The callback thread leaves its announcement behind. -/
def Leaks (cfg : Config) (pc : Pc) (l : Label) : Prop :=
  cfg.haveWaitCounts = true ∧ pc = .callback .inWait ∧ l.otherError = true

instance (cfg : Config) (pc : Pc) (l : Label) : Decidable (Leaks cfg pc l) :=
  inferInstanceAs (Decidable (_ ∧ _))

/-- The wait of the callback thread succeeds or is cancelled, and no announcement is the last that fits a
`uint32_t`. -/
def Regular (cfg : Config) (s : State ι) (e : ι × Label) : Prop :=
  ¬ Leaks cfg (s.pc e.1) e.2 ∧
    (((s.pc e.1).move cfg e.2).map Prod.snd = some .add →
      s.waitCount (s.pc e.1).direction + 1 < 2 ^ 32)

instance (cfg : Config) (s : State ι) (e : ι × Label) : Decidable (Regular cfg s e) :=
  inferInstanceAs (Decidable (_ ∧ _))

/-! ### One piece -/

section Moves

variable {cfg : Config} {c : Call} {pc pc' : Pc} {l : Label} {eff : Effect}

/-- A call has nothing announced at its beginning and when it unlocks. -/
def Pc.Placed : Pc → Prop
  | .call c =>
      c.place = .entry ∨ c.place = .first ∨ c.place = .announce ∨ c.place = .unlock → c.waiting = false
  | _ => True

/-- The announcements before and after a piece with this effect. -/
def Effect.Keeps (d : Direction) (a a' : Option Direction) : Effect → Prop
  | .add => a = none ∧ a' = some d
  | .sub => a = some d ∧ a' = none
  | _ => a' = a

/-- A piece that keeps the announcement. -/
theorem keeps_same {d : Direction} {a a' : Option Direction} (h : a' = a) (heff : eff ≠ .add ∧ eff ≠ .sub) :
    eff.Keeps d a a' := by
  cases eff with
  | add => exact absurd rfl heff.1
  | sub => exact absurd rfl heff.2
  | quiet | acquire | release => exact h

/-- Only the place changes, to one without a promise about `waiting`. -/
theorem Call.keeps_place {place : CallPlace}
    (h : place = .entry ∨ place = .first ∨ place = .announce ∨ place = .unlock → c.waiting = false)
    (heff : eff ≠ .add ∧ eff ≠ .sub) :
    eff.Keeps c.function.direction ((Pc.call c).announced cfg)
        ((Pc.call { c with place := place }).announced cfg) ∧
      (Pc.call { c with place := place }).Placed := by
  exact ⟨keeps_same rfl heff, h⟩

theorem Call.tried_keeps {c' : Call} {wouldBlock : Bool} (hc : (Pc.call c).Placed)
    (h : c.tried cfg wouldBlock = some c') :
    ∃ place, c' = { c with place := place } ∧
      (place = .entry ∨ place = .first ∨ place = .announce ∨ place = .unlock → c.waiting = false) := by
  unfold Call.tried at h
  split at h
  · rename_i hplace
    exact ⟨_, (Option.some.inj h).symm, fun _ => hc (.inr (.inl hplace))⟩
  · refine ⟨_, (Option.some.inj h).symm, ?_⟩
    split_ifs <;> simp
  · refine ⟨_, (Option.some.inj h).symm, ?_⟩
    split_ifs <;> simp
  · cases h

/-- The effect of a wait on the mutex is no change of the count. -/
theorem mutex_effect (b : Bool) {x y : Effect} (hx : x ≠ .add ∧ x ≠ .sub) (hy : y ≠ .add ∧ y ≠ .sub) :
    (if b then x else y) ≠ .add ∧ (if b then x else y) ≠ .sub := by
  cases b
  · exact hy
  · exact hx

theorem Call.move_keeps (hc : (Pc.call c).Placed) (h : c.move cfg l = some (pc', eff)) :
    eff.Keeps c.function.direction ((Pc.call c).announced cfg) (pc'.announced cfg) ∧ pc'.Placed := by
  cases l with
  | call | check => cases h
  | lock =>
      obtain ⟨hplace, rfl, rfl⟩ := by simpa [Call.move] using h
      exact Call.keeps_place (fun _ => hc (.inl hplace)) (by simp)
  | tried wouldBlock =>
      obtain ⟨c', htried, heq⟩ := Option.map_eq_some_iff.mp h
      obtain ⟨rfl, rfl⟩ := Prod.mk.inj heq
      obtain ⟨place, rfl, hplace⟩ := Call.tried_keeps hc htried
      exact Call.keeps_place hplace (by simp)
  | announce =>
      obtain ⟨hplace, rfl, rfl⟩ := by simpa [Call.move] using h
      have hwaiting : c.waiting = false := hc (.inr (.inr (.inl hplace)))
      refine ⟨⟨?_, rfl⟩, by simp [Pc.Placed]⟩
      simp [Pc.announced, hwaiting]
  | clock ok =>
      obtain ⟨hplace, rfl, rfl⟩ := by simpa [Call.move] using h
      exact Call.keeps_place (by split_ifs <;> simp) (by simp)
  | enterWait =>
      obtain ⟨hplace, rfl, rfl⟩ := by simpa [Call.move] using h
      exact Call.keeps_place (by simp) (mutex_effect _ (by simp) (by simp))
  | waited nErr =>
      obtain ⟨hplace, rfl, rfl⟩ := by simpa [Call.move] using h
      exact Call.keeps_place (by split_ifs <;> simp) (mutex_effect _ (by simp) (by simp))
  | withdraw =>
      obtain ⟨hplace, rfl, rfl⟩ := by simpa [Call.move] using h
      refine ⟨?_, fun _ => rfl⟩
      cases hwaiting : c.waiting with
      | false => simp [Effect.Keeps, Pc.announced, hwaiting]
      | true => simp [Effect.Keeps, Pc.announced, hwaiting]
  | unlock =>
      obtain ⟨hplace, rfl, rfl⟩ := by simpa [Call.move] using h
      have hwaiting : c.waiting = false := hc (.inr (.inr (.inr hplace)))
      exact ⟨by simp [Effect.Keeps, Pc.announced, hwaiting], trivial⟩

theorem otherError_waited (h : l.otherError = true) : ∃ nErr, l = .waited nErr ∧ afterWait nErr = .failed := by
  cases l with
  | waited nErr =>
      cases nErr with
      | none => cases h
      | some code => exact ⟨_, rfl, by simpa [Label.otherError, afterWait] using h⟩
  | _ => cases h

/-- Behind the wait the thread is still counted, unless it leaks. -/
theorem announced_afterWait {nErr : Option AEEResult} (h : ¬ Leaks cfg (.callback .inWait) (.waited nErr)) :
    (Pc.callback (afterWait nErr)).announced cfg = (Pc.callback .inWait).announced cfg := by
  unfold afterWait
  split_ifs with hexit herror
  · rfl
  · obtain ⟨code, rfl⟩ := Option.ne_none_iff_exists'.mp herror
    have hw : ¬ cfg.haveWaitCounts = true :=
      fun hw => h ⟨hw, rfl, by simpa [Label.otherError] using hexit⟩
    simp [Pc.announced, hw]
  · rfl

theorem CallbackPlace.move_keeps {place : CallbackPlace} (hleak : ¬ Leaks cfg (.callback place) l)
    (h : place.move cfg l = some (pc', eff)) :
    eff.Keeps .response ((Pc.callback place).announced cfg) (pc'.announced cfg) ∧ pc'.Placed := by
  unfold CallbackPlace.move at h
  split at h
  case h_12 => cases h
  case h_6 =>
      obtain ⟨rfl, rfl⟩ := Prod.mk.inj (Option.some.inj h)
      exact ⟨keeps_same (announced_afterWait hleak) (mutex_effect _ (by simp) (by simp)), trivial⟩
  case h_3 | h_7 | h_8 =>
      obtain ⟨rfl, rfl⟩ := Prod.mk.inj (Option.some.inj h)
      refine ⟨?_, trivial⟩
      cases hw : cfg.haveWaitCounts with
      | false => simp [Effect.Keeps, Pc.announced, hw]
      | true => simp [Effect.Keeps, Pc.announced, hw]
  case h_5 =>
      obtain ⟨rfl, rfl⟩ := Prod.mk.inj (Option.some.inj h)
      exact ⟨keeps_same rfl (mutex_effect _ (by simp) (by simp)), trivial⟩
  all_goals
    obtain ⟨rfl, rfl⟩ := Prod.mk.inj (Option.some.inj h)
    exact ⟨rfl, trivial⟩

theorem Pc.move_keeps (hpc : pc.Placed) (hleak : ¬ Leaks cfg pc l) (h : pc.move cfg l = some (pc', eff)) :
    eff.Keeps pc.direction (pc.announced cfg) (pc'.announced cfg) ∧ pc'.Placed := by
  cases pc with
  | idle =>
      cases l with
      | call function timed =>
          obtain ⟨rfl, rfl⟩ := Prod.mk.inj (Option.some.inj h)
          exact ⟨rfl, fun _ => rfl⟩
      | _ => cases h
  | call c => exact Call.move_keeps hpc h
  | callback place => exact CallbackPlace.move_keeps hleak h

end Moves

/-! ### Runs -/

section Runs

variable [Fintype ι] {cfg : Config} {s t : State ι} {e : ι × Label} {i : ι} {pc' : Pc} {d : Direction}

/-- The counts are exact, and every call is at a place that fits its variable `waiting`. -/
structure Inv (cfg : Config) (s : State ι) : Prop where
  exact : Exact cfg s
  placed : ∀ i, (s.pc i).Placed
  fits : ∀ d, s.waitCount d < 2 ^ 32

theorem init_inv (cfg : Config) (callback : Option ι) : Inv cfg (init callback) := by
  have hpc : ∀ i, ((init callback).pc i).announced cfg = none := by
    intro i
    unfold init
    dsimp only
    split_ifs <;> rfl
  refine ⟨⟨fun d => ?_, fun i => ?_⟩, fun i => ?_, fun d => Nat.two_pow_pos 32⟩
  · exact (Threads.count_eq_zero.mpr fun i => by rw [hpc i]; rfl).symm
  · rw [hpc i]
    rfl
  · unfold init
    dsimp only
    split_ifs <;> trivial

theorem Exact.same (h : Exact cfg s) (hcount : t.waitCount = s.waitCount) (hown : t.own = s.own)
    (hpc : t.pc = Function.update s.pc i pc') (hsame : pc'.announced cfg = (s.pc i).announced cfg) :
    Exact cfg t where
  counts := by
    intro d
    rw [hcount, hpc, h.counts, Threads.count_update_same]
    rw [hsame]
  own := by
    intro j
    rw [hown, hpc, h.own]
    rcases eq_or_ne j i with rfl | hne
    · rw [Function.update_self, hsame]
    · rw [Function.update_of_ne hne]

theorem Exact.add (h : Exact cfg s) (hnone : (s.pc i).announced cfg = none)
    (hsome : pc'.announced cfg = some d) (hfits : s.waitCount d + 1 < 2 ^ 32)
    (hcount : t.waitCount = Function.update s.waitCount d (addU32 (s.waitCount d) 1))
    (hown : t.own = Function.update s.own i (s.own i + 1)) (hpc : t.pc = Function.update s.pc i pc') :
    Exact cfg t where
  counts := by
    intro d'
    rw [hcount, hpc]
    rcases eq_or_ne d' d with rfl | hne
    · rw [Function.update_self, addU32_of_lt hfits, h.counts,
        Threads.count_update_enter s.pc (by rw [hnone]; rfl) (by rw [hsome]; exact decide_eq_true rfl)]
    · rw [Function.update_of_ne hne, h.counts, Threads.count_update_same]
      rw [hnone, hsome]
      simp [hne.symm]
  own := by
    intro j
    rw [hown, hpc]
    rcases eq_or_ne j i with rfl | hne
    · rw [Function.update_self, Function.update_self, h.own, hnone, hsome]
      rfl
    · rw [Function.update_of_ne hne, Function.update_of_ne hne, h.own]

theorem Exact.sub (h : Exact cfg s) (hsome : (s.pc i).announced cfg = some d)
    (hnone : pc'.announced cfg = none) (hfits : s.waitCount d < 2 ^ 32)
    (hcount : t.waitCount = Function.update s.waitCount d (subU32 (s.waitCount d) 1))
    (hown : t.own = Function.update s.own i (s.own i - 1)) (hpc : t.pc = Function.update s.pc i pc') :
    Exact cfg t where
  counts := by
    intro d'
    rw [hcount, hpc]
    rcases eq_or_ne d' d with rfl | hne
    · have hleave := Threads.count_update_leave (p := fun pc => pc.announced cfg = some d') (x := pc') s.pc
        (by rw [hsome]; exact decide_eq_true rfl) (by rw [hnone]; rfl)
      rw [h.counts] at hfits
      rw [Function.update_self, h.counts, subU32_of_le (by omega) hfits]
      omega
    · rw [Function.update_of_ne hne, h.counts, Threads.count_update_same]
      rw [hnone, hsome]
      simp [hne.symm]
  own := by
    intro j
    rw [hown, hpc]
    rcases eq_or_ne j i with rfl | hne
    · rw [Function.update_self, Function.update_self, h.own, hnone, hsome]
      rfl
    · rw [Function.update_of_ne hne, Function.update_of_ne hne, h.own]

omit [Fintype ι] in
theorem step_eq_some (h : step cfg s e = some t) : ∃ pc' eff s',
    (s.pc e.1).move cfg e.2 = some (pc', eff) ∧ s.apply e.1 (s.pc e.1).direction eff = some s' ∧
      t = { s' with pc := Function.update s.pc e.1 pc' } ∧ s'.pc = s.pc := by
  obtain ⟨⟨pc', eff⟩, hmove, h⟩ := Option.bind_eq_some_iff.mp h
  obtain ⟨s', happly, rfl⟩ := Option.map_eq_some_iff.mp h
  have hpc : s'.pc = s.pc := by
    cases eff with
    | quiet | release | add | sub =>
        obtain rfl := Option.some.inj happly
        rfl
    | acquire =>
        obtain ⟨_, rfl⟩ := by simpa [State.apply] using happly
        rfl
  exact ⟨pc', eff, s', hmove, happly, by rw [hpc], hpc⟩

/-- What a regular step keeps. -/
theorem inv_step (h : Inv cfg s) (hregular : Regular cfg s e) (ht : step cfg s e = some t) : Inv cfg t := by
  obtain ⟨pc', eff, s', hmove, happly, rfl, _⟩ := step_eq_some ht
  obtain ⟨hkeeps, hplaced⟩ := Pc.move_keeps (h.placed e.1) hregular.1 hmove
  have hplaced' : ∀ j, (Function.update s.pc e.1 pc' j).Placed :=
    Threads.forall_update (P := fun _ (pc : Pc) => pc.Placed) hplaced fun j _ => h.placed j
  cases eff with
  | quiet | release =>
      obtain rfl := Option.some.inj happly
      exact ⟨h.exact.same rfl rfl rfl hkeeps, hplaced', h.fits⟩
  | acquire =>
      obtain ⟨_, rfl⟩ := by simpa [State.apply] using happly
      exact ⟨h.exact.same rfl rfl rfl hkeeps, hplaced', h.fits⟩
  | add =>
      obtain rfl := Option.some.inj happly
      have hfits := hregular.2 (by rw [hmove]; rfl)
      refine ⟨h.exact.add hkeeps.1 hkeeps.2 hfits rfl rfl rfl, hplaced', fun d => ?_⟩
      exact Threads.forall_update (P := fun _ n => n < 2 ^ 32) (Nat.mod_lt _ (by decide))
        (fun d _ => h.fits d) d
  | sub =>
      obtain rfl := Option.some.inj happly
      refine ⟨h.exact.sub hkeeps.1 hkeeps.2 (h.fits _) rfl rfl rfl, hplaced', fun d => ?_⟩
      exact Threads.forall_update (P := fun _ n => n < 2 ^ 32) (Nat.mod_lt _ (by decide))
        (fun d _ => h.fits d) d

/-- A step that is not regular leaves a wrong count. -/
theorem inv_step_irregular (h : Inv cfg s) (hregular : ¬ Regular cfg s e) (ht : step cfg s e = some t) :
    ¬ Exact cfg t := by
  obtain ⟨pc', eff, s', hmove, happly, rfl, _⟩ := step_eq_some ht
  intro hexact
  by_cases hleak : Leaks cfg (s.pc e.1) e.2
  · -- the thread itself is not counted any more, and has not taken its announcement off
    obtain ⟨hw, hpc, hother⟩ := hleak
    obtain ⟨nErr, hl, hexit⟩ := otherError_waited hother
    rw [hpc, hl] at hmove
    obtain ⟨rfl, rfl⟩ := Prod.mk.inj (Option.some.inj hmove)
    have hown' : s'.own = s.own := by
      cases hd : cfg.haveDriverSignaling with
      | false =>
          obtain ⟨_, rfl⟩ := by simpa [State.apply, hd] using happly
          rfl
      | true =>
          rw [hd] at happly
          obtain rfl := Option.some.inj happly
          rfl
    have hbefore := h.exact.own e.1
    have hafter := hexact.own e.1
    rw [hpc] at hbefore
    simp [hown', hbefore, hexit, Pc.announced, hw] at hafter
  · have hadd : eff = .add ∧ ¬ s.waitCount (s.pc e.1).direction + 1 < 2 ^ 32 := by
      simpa [Regular, hleak, hmove] using hregular
    obtain ⟨rfl, hfull⟩ := hadd
    obtain rfl := Option.some.inj happly
    obtain ⟨hkeeps, _⟩ := Pc.move_keeps (h.placed e.1) hleak hmove
    have hcount := hexact.counts (s.pc e.1).direction
    have henter := Threads.count_update_enter
      (p := fun pc => decide (pc.announced cfg = some (s.pc e.1).direction)) (x := pc') s.pc
      (by rw [hkeeps.1]; rfl) (by rw [hkeeps.2]; exact decide_eq_true rfl)
    have hlt : addU32 (s.waitCount (s.pc e.1).direction) 1 < 2 ^ 32 := Nat.mod_lt _ (by decide)
    have hbefore := h.exact.counts (s.pc e.1).direction
    dsimp only at hcount
    rw [Function.update_self, henter] at hcount
    omega

/-- **The wait counts are exact along a run** whose waits in the callback thread all succeed or are
cancelled. -/
theorem wait_counts_exact (cfg : Config) (callback : Option ι) (es : List (ι × Label)) {t : State ι}
    (h : run (step cfg) (init callback) es = some t) :
    Along (step cfg) (Exact cfg) (init callback) es ↔
      Guarded (step cfg) (Regular cfg) (init callback) es :=
  along_iff_guarded (fun _ _ _ hs hC ht => inv_step hs hC ht) (fun _ hs => hs.exact)
    (fun _ _ _ hs hC ht => inv_step_irregular hs hC ht) (init_inv cfg callback) h

/-- A reader waits until its timeout, and the callback thread is woken and waits again. -/
def timeoutRun : List (Bool × Label) :=
  [(false, .lock), (false, .check), (false, .announce), (false, .check), (false, .enterWait),
    (true, .call .read true), (true, .lock), (true, .tried true), (true, .announce), (true, .tried true),
    (true, .clock true), (true, .enterWait), (false, .waited none), (false, .withdraw), (false, .unlock),
    (true, .waited (some .EEXPIRED)), (true, .withdraw), (true, .unlock)]

theorem wait_counts_exact_timeout :
    Along (step ⟨false, true⟩) (Exact ⟨false, true⟩) (init (some false)) timeoutRun := by
  obtain ⟨t, ht⟩ : ∃ t, run (step ⟨false, true⟩) (init (some false)) timeoutRun = some t :=
    Option.isSome_iff_exists.mp (by decide)
  exact (wait_counts_exact ⟨false, true⟩ (some false) timeoutRun ht).mpr (by decide +kernel)

/-- The wait of the callback thread in the driver fails: the thread ends, and the count stays `1`. -/
theorem wait_count_leaked :
    ∃ t, run (step ⟨true, true⟩) (init (some ()))
        [((), .lock), ((), .check), ((), .announce), ((), .check), ((), .enterWait),
          ((), .waited (some .EFAILED)), ((), .unlock)] = some t ∧
      t.pc () = .callback .exited ∧ t.waitCount .response = 1 ∧ ¬ Exact ⟨true, true⟩ t := by
  refine ⟨_, rfl, rfl, rfl, fun hexact => ?_⟩
  have hown := hexact.own ()
  revert hown
  decide

end Runs

end FastRpc.WaitCounts
