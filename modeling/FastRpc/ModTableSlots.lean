import FastRpc.ModTableInvariant
import FastRpc.ModTableTrace

/-! # Who uses a slot of the reverse modules

A slot is free when its `key` is zero.  `open_mod_table_close` clears the key before it calls into
the module, a failed open unlocks `rev_handle_table_lock` before it cleans up, and an invocation may
outlive its module: in these windows an open can take the slot, and the close then calls into the
new module (`closes_another_module`).  `slot_ownership` says that nothing else goes wrong with the
slots.

`is_reverse_handle_opened` looks at the keys only.  `reused_handle_live` says that the handle which
it returns is live except in the window between the last locked section of an unload and the
clearing of the key, and `handed_out_dead` is a run with such a handle. -/

namespace FastRpc.ModTable

open Transition

variable {ι : Type}

/-! ### What is claimed of the slots -/

/-- A call of a close goes into the module that the close was asked for. -/
def Obs.Right : Obs → Prop
  | .closesEntry asked called => asked = called
  | .dlcloses asked called => asked = called
  | _ => True

/-- **What is claimed of a state**: every module that a thread still uses is the one in its slot and
the one that the thread was asked for, no slot with an open module is free, and every call went into
the right module. -/
structure Owned (s : State ι) : Prop where
  current : ∀ j m, (s.pc j).role.uses = some m → s.table.holds m
  asked : ∀ j c m, (s.pc j).role = .unloads c m → c.asked m = m
  taken : ∀ i, s.table.isOpen i = true → (s.table.core i).key ≠ 0
  filled : ∀ j m, (s.pc j).role = .filled m → (s.table.core m.slot).key ≠ 0
  calls : ∀ o ∈ s.table.trace, o.Right

/-- The thread is behind the locked section of `open_mod_table_close` or a failed open, or in an
invocation. -/
def Role.Lingers (r : Role) (m : Mod) : Prop :=
  (∃ handle, r = .unloads (.table handle) m) ∨
    (∃ p uri nErr dlErr, r = .unloads (.failed p uri nErr dlErr) m) ∨ r = .runs m

/-- An open takes a slot only when nobody lingers in it, and the slot that it fills in has an address
that is not a multiple of `2 ^ 32`. -/
def SlotUnused (cfg : Config) (s : State ι) : Event ι → Prop
  | .call _ _ _ => True
  | .next i a =>
      match s.pc i with
      | .take _ _ => ∀ l, s.table.nextAvailableRevHandle = some l →
          ∀ k m, (s.pc k).role.Lingers m → m.slot ≠ l
      | .symbol p uri m =>
          (symbolStep cfg s.table p uri m a).2 = .entry p uri m → cfg.slotKey m.slot ≠ 0
      | _ => True

/-- Somebody lingers in the slot. -/
def Role.lingersIn (l : Slot) : Role → Bool
  | .unloads (.table _) m => m.slot == l
  | .unloads (.failed _ _ _ _) m => m.slot == l
  | .runs m => m.slot == l
  | _ => false

theorem Role.lingersIn_iff (r : Role) (l : Slot) :
    r.lingersIn l = false ↔ ∀ m, r.Lingers m → m.slot ≠ l := by
  unfold Role.Lingers
  cases r with
  | runs m => simp [Role.lingersIn]
  | unloads c m => cases c <;> simp [Role.lingersIn]
  | _ => simp [Role.lingersIn]

instance [Fintype ι] (cfg : Config) (s : State ι) (e : Event ι) : Decidable (SlotUnused cfg s e) :=
  match e with
  | .call _ _ _ => isTrue trivial
  | .next i a =>
      match h : s.pc i with
      | .take _ _ =>
          decidable_of_iff (∀ l, s.table.nextAvailableRevHandle = some l →
              ∀ k, (s.pc k).role.lingersIn l = false) (by
            unfold SlotUnused
            dsimp only
            rw [h]
            simp only [Role.lingersIn_iff])
      | .symbol p uri m =>
          decidable_of_iff ((symbolStep cfg s.table p uri m a).2 = .entry p uri m →
              cfg.slotKey m.slot ≠ 0) (by
            unfold SlotUnused
            dsimp only
            rw [h])
      | .idle | .lock _ _ | .search _ _ | .load _ _ | .entry _ _ _ | .add _ _ _ | .unlock
      | .fail _ _ _ _ _ | .close _ | .invoke _ | .invoking _ _ | .ended _ _ _ | .finish _ _ _ =>
          isTrue (by
            unfold SlotUnused
            dsimp only
            rw [h]
            trivial)

/-! ### What is seen of a step -/

/-- A step makes no wrong call when the thread's module is the one in its slot. -/
theorem calls_right [DecidableEq ι] {cfg : Config} {s s' : State ι} {e : Event ι} (hs : Owned s)
    (h : step cfg s e = some s') (o : Obs) (ho : o ∈ s'.table.trace) : o.Right := by
  obtain ⟨added, htrace, -, hcalls⟩ := step_trace h
  rw [htrace] at ho
  obtain ho | ho := List.mem_append.mp ho
  · exact hs.calls o ho
  · -- the call comes from an unload, whose module is in its slot
    have hright : ∀ call, o.call = some call → call.1 = call.2 := by
      intro call hcall
      obtain ⟨c, m, stage, hpc, rfl⟩ := hcalls o ho call hcall
      have hrole : (s.pc e.thread).role = .unloads c m := by rw [hpc]; rfl
      have hholds : s.table.holds m := by
        apply hs.current e.thread m
        rw [hrole]
        rfl
      exact (hs.asked e.thread c m hrole).trans (congrArg (Mod.mk m.slot) hholds).symm
    cases o with
    | closesEntry asked called => exact hright (asked, called) rfl
    | dlcloses asked called => exact hright (asked, called) rfl
    | _ => trivial

/-! ### Slot ownership -/

section Step

variable {cfg : Config} {s s' : State ι}

/-- The slots of the modules that an ending invocation unloads still have their keys. -/
def Keyed (s : State ι) : Prop :=
  ∀ j handle asked nErr m, (s.pc j).role = .unloads (.invoke handle asked nErr) m →
    (s.table.core m.slot).key ≠ 0

/-- What the proof of `Owned` carries along a run. -/
structure OwnedInv (s : State ι) : Prop where
  owned : Owned s
  inv : s.table.undefined = false → Inv s
  keyed : s.table.undefined = false → Keyed s

/-- A slot that is taken is used by nobody. -/
theorem take_unused {i : ι} {a : Answer} {p : Path} {uri : Str} {l : Slot} (hs : Inv s)
    (hkeyed : Keyed s) (hc : SlotUnused cfg s (.next i a)) (hpc : s.pc i = .take p uri)
    (hfree : s.table.nextAvailableRevHandle = some l) (k : ι) (m : Mod)
    (hm : (s.pc k).role.uses = some m) : m.slot ≠ l := by
  have hguard := hc
  unfold SlotUnused at hguard
  dsimp only at hguard
  rw [hpc] at hguard
  have hlingers := hguard l hfree k m
  have hopening : ((s.pc k).role = .opens m ∨ (s.pc k).role = .filled m) → m.slot ≠ l := by
    intro hrole
    have hk : k = i := hs.alone k i (locked_of_role hrole) (by rw [hpc]; rfl)
    rw [hk, hpc] at hrole
    rcases hrole with hrole | hrole <;> cases hrole
  cases hrole : (s.pc k).role with
  | none =>
      rw [hrole] at hm
      cases hm
  | opens m' =>
      rw [hrole] at hm
      obtain rfl := Option.some.inj hm
      exact hopening (Or.inl hrole)
  | filled m' =>
      rw [hrole] at hm
      obtain rfl := Option.some.inj hm
      exact hopening (Or.inr hrole)
  | unloads c m' =>
      rw [hrole] at hm
      obtain rfl := Option.some.inj hm
      cases c with
      | failed p uri nErr dlErr =>
          exact hlingers (Or.inr (Or.inl ⟨p, uri, nErr, dlErr, hrole⟩))
      | table handle => exact hlingers (Or.inl ⟨handle, hrole⟩)
      | invoke handle asked nErr =>
          intro hl
          exact hkeyed k handle asked nErr m' hrole (hl ▸ nextAvailable_key hfree)
  | runs m' =>
      rw [hrole] at hm
      obtain rfl := Option.some.inj hm
      exact hlingers (Or.inr (Or.inr hrole))

theorem ownedInv_init : OwnedInv (init : State ι) := by
  refine ⟨⟨?_, ?_, ?_, ?_, ?_⟩, fun _ => inv_init, fun _ => ?_⟩
  · intro j m h
    cases h
  · intro j c m h
    cases h
  · intro i h
    cases h
  · intro j m h
    cases h
  · intro o h
    cases h
  · intro j handle asked nErr m h
    cases h

variable [DecidableEq ι]

/-- A step of a call. -/
theorem step_next {i : ι} {a : Answer} (h : step cfg s (.next i a) = some s') :
    ∃ r, advance cfg s.table a (s.pc i) = some r ∧ s'.table = r.1 ∧ s'.pc i = r.2 := by
  unfold step at h
  dsimp only at h
  split_ifs at h
  obtain ⟨r, hr, rfl⟩ := Option.map_eq_some_iff.mp h
  exact ⟨r, hr, rfl, Function.update_self i r.2 s.pc⟩

/-- A thread that has a place in a call makes no other call. -/
theorem event_next {e : Event ι} (h : step cfg s e = some s') (hpc : s.pc e.thread ≠ .idle) :
    ∃ i a, e = .next i a := by
  cases e with
  | call i c a =>
      unfold step at h
      dsimp only at h
      split_ifs at h with hcall
      exact absurd hcall.2 hpc
  | next i a => exact ⟨i, a, rfl⟩

/-- A slot that is filled in gets a key. -/
theorem symbol_key {e : Event ι} (hc : SlotUnused cfg s e) (h : step cfg s e = some s') {p : Path}
    {uri : Str} {m : Mod} (hpc : s.pc e.thread = .symbol p uri m)
    (hpc' : s'.pc e.thread = .entry p uri m) : cfg.slotKey m.slot ≠ 0 := by
  obtain ⟨i, a, rfl⟩ := event_next h (by rw [hpc]; exact Pc.noConfusion)
  change s.pc i = _ at hpc
  change s'.pc i = _ at hpc'
  obtain ⟨r, hr, -, hr'⟩ := step_next h
  rw [hpc] at hr
  obtain rfl := Option.some.inj hr
  unfold SlotUnused at hc
  dsimp only at hc
  rw [hpc] at hc
  exact hc (hr'.symm.trans hpc')

variable {e : Event ι}

/-- The key of a slot that a step fills in. -/
theorem Stepped.fills_key (h : Stepped cfg s s' e.thread (s'.pc e.thread)) {p : Path} {uri : Str}
    {m : Mod} (hpc : s.pc e.thread = .symbol p uri m)
    (hpc' : s'.pc e.thread = .entry p uri m) :
    (s'.table.core m.slot).key = cfg.slotKey m.slot := by
  have hfilled : (s'.pc e.thread).role = .filled m := by rw [hpc']; rfl
  obtain ⟨hold, -⟩ | ⟨-, hkey, -⟩ := h.moves.filled hfilled
  · rw [hpc] at hold
    cases hold
  · exact hkey

/-- An owner's slot keeps its key. -/
theorem owner_keeps_key (hs : OwnedInv s) (hc : SlotUnused cfg s e)
    (hstep : step cfg s e = some s') {k : ι} {m : Mod} (howns : (s.pc k).role.owns = some m)
    (howns' : (s'.pc k).role.owns = some m) (hkey : (s.table.core m.slot).key ≠ 0) :
    (s'.table.core m.slot).key ≠ 0 := by
  obtain ⟨hdef, h⟩ := stepped hstep
  have hinv := hs.inv hdef
  have hm := hs.owned.current k m (Role.owns_uses howns)
  obtain hne | ⟨m', p, uri, hpc, hpc', hslot⟩ | ⟨hopen, -⟩ | ⟨m', hown, hslot, hnone⟩ :=
    h.moves.keeps_key hkey
  · exact hne
  · rw [← hslot, h.fills_key hpc hpc']
    exact symbol_key hc hstep hpc hpc'
  · rw [hinv.outside k m howns hm] at hopen
    cases hopen
  · -- the thread that clears the key owns the same module, and gives it up
    have heq := mod_eq hslot hm (hs.owned.current _ m' (Role.owns_uses hown))
    rw [heq] at hown
    rw [hinv.single k _ m howns hown hm, hnone] at howns'
    cases howns'

/-- A slot with an open module is not free. -/
theorem owned_taken (hs : OwnedInv s) (hstep : step cfg s e = some s') (l : Slot)
    (hl : s'.table.isOpen l = true) : (s'.table.core l).key ≠ 0 := by
  obtain ⟨hdef, h⟩ := stepped hstep
  have hinv := hs.inv hdef
  obtain hopen | ⟨m, hrole, rfl, -⟩ := h.moves.isOpen hl
  · have hclosed : ∀ m, (s.pc e.thread).role.owns = some m → m.slot ≠ l := by
      intro m hown hslot
      have hm := hs.owned.current _ m (Role.owns_uses hown)
      rw [← hslot, hinv.outside _ m hown hm] at hopen
      cases hopen
    obtain hne | ⟨m, p, uri, hpc, -, hslot⟩ | ⟨-, hopen'⟩ | ⟨m, hown, hslot, -⟩ :=
      h.moves.keeps_key (hs.owned.taken l hopen)
    · exact hne
    · exact absurd hslot (hclosed m (by rw [hpc]; rfl))
    · rw [hopen'] at hl
      cases hl
    · exact absurd hslot (hclosed m hown)
  · have hpos := Nat.pos_of_ne_zero (hs.owned.filled _ m hrole)
    exact (hpos.trans_le (h.moves.filled_key hrole)).ne'

theorem owned_filled (hs : OwnedInv s) (hc : SlotUnused cfg s e)
    (hstep : step cfg s e = some s') (k : ι) (m : Mod) (hk : (s'.pc k).role = .filled m) :
    (s'.table.core m.slot).key ≠ 0 := by
  obtain ⟨hdef, h⟩ := stepped hstep
  have hkeeps : (s.pc k).role = .filled m → (s'.table.core m.slot).key ≠ 0 := by
    intro hold
    exact owner_keeps_key hs hc hstep (by rw [hold]; rfl) (by rw [hk]; rfl)
      (hs.owned.filled k m hold)
  by_cases hki : k = e.thread
  · subst hki
    obtain ⟨hold, -⟩ | ⟨-, hkey, p, uri, hpc, hpc'⟩ := h.moves.filled hk
    · exact hkeeps hold
    · rw [hkey]
      exact symbol_key hc hstep hpc hpc'
  · exact hkeeps (h.other hki ▸ hk)

theorem owned_asked (hs : OwnedInv s) (hstep : step cfg s e = some s') (k : ι) (c : Closer)
    (m : Mod) (hk : (s'.pc k).role = .unloads c m) : c.asked m = m := by
  obtain ⟨hdef, h⟩ := stepped hstep
  by_cases hki : k = e.thread
  · subst hki
    obtain hold | ⟨p, uri, nErr, dlErr, rfl⟩ | ⟨handle, rfl⟩ |
      ⟨handle, asked, nErr, rfl, hpc, rfl, -⟩ := h.moves.unloads hk
    · exact hs.owned.asked _ c m hold
    · rfl
    · rfl
    · have hasked : s.table.holds asked := by
        apply hs.owned.current e.thread
        rw [hpc]
        rfl
      exact congrArg (Mod.mk asked.slot) hasked.symm
  · exact hs.owned.asked k c m (h.other hki ▸ hk)

theorem keyed_step (hs : OwnedInv s) (hc : SlotUnused cfg s e) (hstep : step cfg s e = some s')
    (hdef' : s'.table.undefined = false) : Keyed s' := by
  intro k handle asked nErr m hk
  obtain ⟨hdef, h⟩ := stepped hstep
  have hkeeps : (s.pc k).role = .unloads (.invoke handle asked nErr) m →
      (s'.table.core m.slot).key ≠ 0 := by
    intro hold
    exact owner_keeps_key hs hc hstep (by rw [hold]; rfl) (by rw [hk]; rfl)
      (hs.keyed hdef k handle asked nErr m hold)
  by_cases hki : k = e.thread
  · subst hki
    obtain hold | ⟨p, uri, nErr, dlErr, hc'⟩ | ⟨handle', hc'⟩ |
      ⟨handle', asked', nErr', hc', hpc, hm, hkey, hopen⟩ := h.moves.unloads hk
    · exact hkeeps hold
    · cases hc'
    · cases hc'
    · rw [hkey]
      exact hs.owned.taken _ (hopen hdef')
  · exact hkeeps (h.other hki ▸ hk)

theorem owned_current (hs : OwnedInv s) (hc : SlotUnused cfg s e)
    (hstep : step cfg s e = some s') (k : ι) (m : Mod) (hk : (s'.pc k).role.uses = some m) :
    s'.table.holds m := by
  obtain ⟨hdef, h⟩ := stepped hstep
  have hkeeps : (s.pc k).role.uses = some m → s'.table.holds m := by
    intro hold
    obtain hsame | ⟨l, p, uri, hpc, hfree, hcore, -⟩ := h.moves.number
    · exact (hsame m.slot).trans (hs.owned.current k m hold)
    · obtain ⟨i, a, rfl⟩ := event_next hstep (by rw [hpc]; exact Pc.noConfusion)
      have hne := take_unused (hs.inv hdef) (hs.keyed hdef) hc hpc hfree k m hold
      unfold Table.holds
      rw [hcore, Function.update_of_ne hne]
      exact hs.owned.current k m hold
  by_cases hki : k = e.thread
  · subst hki
    obtain hold | hnew := h.moves.uses hk
    · exact hkeeps hold
    · exact hnew.symm
  · exact hkeeps (h.other hki ▸ hk)

/-- **A step that meets the condition keeps the slots in order.** -/
theorem ownedInv_step (s : State ι) (e : Event ι) (s' : State ι) (hs : OwnedInv s)
    (hc : SlotUnused cfg s e) (hstep : step cfg s e = some s') : OwnedInv s' := by
  refine ⟨⟨owned_current hs hc hstep, owned_asked hs hstep, owned_taken hs hstep,
    owned_filled hs hc hstep, ?_⟩, inv_step e hs.inv hstep, keyed_step hs hc hstep⟩
  exact calls_right hs.owned hstep

/-- **A step that does not meet the condition leads out of it.** -/
theorem not_owned_step (s : State ι) (e : Event ι) (s' : State ι) (hs : OwnedInv s)
    (hc : ¬ SlotUnused cfg s e) (hstep : step cfg s e = some s') : ¬ Owned s' := by
  intro howned
  apply hc
  obtain ⟨hdef, h⟩ := stepped hstep
  cases e with
  | call i c a => trivial
  | next i a =>
      unfold SlotUnused
      dsimp only
      split
      · rename_i p uri hpc
        intro l hfree k m hlingers hslot
        have huses : (s.pc k).role.uses = some m := by
          obtain ⟨handle, hrole⟩ | ⟨p, uri, nErr, dlErr, hrole⟩ | hrole := hlingers <;>
            rw [hrole] <;> rfl
        have hki : k ≠ i := by
          rintro rfl
          rw [hpc] at huses
          cases huses
        have hold := hs.owned.current k m huses
        have hnew : s'.table.holds m := by
          apply howned.current k m
          rwa [h.other hki]
        have hcore : s'.table.core l = ⟨0, 0, (s.table.core l).number + 1, 0⟩ := by
          obtain ⟨r, hr, htable, -⟩ := step_next hstep
          rw [hpc] at hr
          obtain rfl := Option.some.inj hr
          rw [htable, takeStep_core cfg s.table p uri hfree, Function.update_self]
        unfold Table.holds at hold hnew
        rw [hslot] at hold hnew
        rw [hcore, ← hold] at hnew
        exact absurd hnew (Nat.succ_ne_self _)
      · rename_i p uri m hpc
        intro hentry
        have hpc' : s'.pc i = .entry p uri m := by
          obtain ⟨r, hr, -, hr'⟩ := step_next hstep
          rw [hpc] at hr
          obtain rfl := Option.some.inj hr
          exact hr'.trans hentry
        rw [← h.fills_key hpc hpc']
        apply howned.filled i m
        rw [hpc']
        rfl
      · trivial

/-- **Slot ownership.** In every run, the modules that are still used stay in their slots and every
call of a close goes into its own module exactly when no open takes a slot in which somebody lingers
and no slot at a multiple of `2 ^ 32` is filled in. -/
theorem slot_ownership {es : List (Event ι)} {s : State ι}
    (h : run (step cfg) init es = some s) :
    Along (step cfg) Owned init es ↔ Guarded (step cfg) (SlotUnused cfg) init es :=
  along_iff_guarded ownedInv_step (fun _ hs => hs.owned) not_owned_step ownedInv_init h

/-! ### Reused handles -/

/-- **What is claimed of a handle that an open reuses**: it is a key of the hash, and its module has
references. -/
structure Live (t : Table) (i : Slot) (handle : ℕ) : Prop where
  mem : (i, handle) ∈ t.openMods
  found : (t.find handle).isSome = true
  refs : 1 ≤ (t.slots i).refs

theorem openedSlot_key {t : Table} {uri : Str} {i : Slot} (h : t.openedSlot uri = some i) :
    (t.core i).key ≠ 0 := by
  have htest := List.find?_some (p := fun i => (t.slots i).key != 0 && (t.slots i).uri == uri) h
  exact bne_iff_ne.mp (Bool.and_eq_true_iff.mp htest).1

theorem reported_handle {t : Table} {uri : Str} {i : Slot} (h : t.openedSlot uri = some i)
    {handle : ℕ} (hhandle : (t.isReverseHandleOpened uri).2 = some handle) :
    handle = u32 (t.core i).key := by
  unfold Table.isReverseHandleOpened at hhandle
  rw [h] at hhandle
  exact (Option.some.inj hhandle).symm

theorem finish_of_role {pc : Pc} {c : Closer} {m : Mod} (h : pc.role = .unloads c m) :
    ∃ stage, pc = .finish c m stage := by
  cases pc with
  | finish c' m' stage =>
      obtain ⟨rfl, rfl⟩ := Role.unloads.inj h
      exact ⟨stage, rfl⟩
  | fail p uri m' nErr dlErr => cases m' <;> cases h
  | _ => cases h

/-- **Reused handles.** In every state of every run, the handle that `is_reverse_handle_opened`
returns is live exactly when nobody is behind the last locked section of an unload of its module. -/
theorem reused_handle_live {es : List (Event ι)} (h : run (step cfg) init es = some s) {j : ι}
    {a : Answer} (hstep : step cfg s (.next j a) = some s') {p : Path} {uri : Str}
    (hpc : s.pc j = .search p uri) {i : Slot} (hfound : s.table.openedSlot uri = some i)
    {handle : ℕ} (hhandle : (s.table.isReverseHandleOpened uri).2 = some handle) :
    Live s.table i handle ↔ ∀ k c stage, s.pc k ≠ .finish c (s.table.mod i) stage := by
  have hinv := inv_run h (stepped hstep).1
  have hkey := openedSlot_key hfound
  have heq := reported_handle hfound hhandle
  constructor
  · intro hlive k c stage hk
    have howns : (s.pc k).role.owns = some (s.table.mod i) := by rw [hk]; rfl
    have hclosed : s.table.isOpen i = false := hinv.outside k _ howns rfl
    rw [isOpen_iff.mpr ⟨handle, hlive.mem⟩] at hclosed
    cases hclosed
  · intro hnobody
    have hopen : s.table.isOpen i = true := by
      obtain hopen | ⟨k, hk⟩ := hinv.owned i hkey
      · exact hopen
      · -- an open would hold the lock, which the search holds
        exfalso
        have hopening : ∀ m, ¬ ((s.pc k).role = .opens m ∨ (s.pc k).role = .filled m) := by
          intro m hrole
          have hkj : k = j := hinv.alone k j (locked_of_role hrole) (by rw [hpc]; rfl)
          rw [hkj, hpc] at hrole
          rcases hrole with hrole | hrole <;> cases hrole
        cases hrole : (s.pc k).role with
        | none =>
            rw [hrole] at hk
            cases hk
        | opens m => exact hopening m (Or.inl hrole)
        | filled m => exact hopening m (Or.inr hrole)
        | unloads c m =>
            rw [hrole] at hk
            obtain rfl := Option.some.inj hk
            obtain ⟨stage, hstage⟩ := finish_of_role hrole
            exact hnobody k c stage hstage
        | runs m =>
            rw [hrole] at hk
            cases hk
    obtain ⟨key, hmem⟩ := isOpen_iff.mp hopen
    obtain ⟨hrefs, hlow⟩ := hinv.live _ hmem
    have hmem' : (i, handle) ∈ s.table.openMods := by rwa [heq, hlow hkey]
    refine ⟨hmem', ?_, hrefs⟩
    unfold Table.find
    rw [Option.isSome_map, List.find?_isSome]
    refine ⟨(i, handle), hmem', ?_⟩
    rw [Bool.and_eq_true, beq_iff_eq, beq_iff_eq]
    exact ⟨rfl, heq.symm⟩

end Step

/-! ### Runs -/

/-- Every library, symbol and entry point is there, and every call succeeds. -/
def quiet : Answer := ⟨true, fun _ => (0x7000, false), fun _ _ => 0x7100, fun _ => (0, 0x55), 0, 0⟩

/-- A table at `0x10000`, without static or const modules. -/
def plainConfig : Config := ⟨0x10000, 144, fun _ => none, fun _ => none, fun _ => false⟩

/-- The runs are of two threads. -/
instance twoThreads : NeZero 2 := ⟨by decide⟩

/-- A call and its first steps. -/
def callRun (i : Fin 2) (c : Call) (n : ℕ) : List (Event (Fin 2)) :=
  .call i c quiet :: List.replicate n (.next i quiet)

/-- The whole open of a dynamic module, which tries the overrides before. -/
def openRun (i : Fin 2) (uri : Str) : List (Event (Fin 2)) := callRun i (.openModTableOpen uri) 14

theorem slot_ownership_one_open :
    Along (step plainConfig) Owned init (openRun 0 ['a']) ↔
      Guarded (step plainConfig) (SlotUnused plainConfig) init (openRun 0 ['a']) := by
  have hrun : (run (step plainConfig) init (openRun 0 ['a'])).isSome = true := by decide +kernel
  obtain ⟨s, hs⟩ := Option.isSome_iff_exists.mp hrun
  exact slot_ownership hs

/-- The close of `a` clears the key of its slot; the open of `b` takes the slot and loads its library;
the close goes on. -/
def reuseRun : List (Event (Fin 2)) :=
  openRun 0 ['a'] ++ callRun 0 (.openModTableClose 0x10000) 1 ++
    callRun 1 (.openModTableOpen ['b']) 10 ++ [.next 0 quiet, .next 0 quiet]

/-- **A close unloads another module**: the module `a` was the second in its slot, and `dlclose` gets
the library of the fourth, which is `b`. -/
theorem closes_another_module :
    ∃ s, run (step plainConfig) init reuseRun = some s ∧
      .dlcloses ⟨0, 2⟩ ⟨0, 4⟩ ∈ s.table.trace ∧ (s.table.slots 0).uri = ['b'] ∧ ¬ Owned s := by
  have hrun : (run (step plainConfig) init reuseRun).map
      (fun s => (s.table.trace, (s.table.slots 0).uri)) =
        some ([.opened ['a'] 0x10000, .closed 0x10000 true, .dlcloses ⟨0, 2⟩ ⟨0, 4⟩,
          .closeResult 0x10000 0], ['b']) := by decide +kernel
  obtain ⟨s, hs, hseen⟩ := Option.map_eq_some_iff.mp hrun
  obtain ⟨htrace, huri⟩ := Prod.mk.inj hseen
  have hmem : .dlcloses ⟨0, 2⟩ ⟨0, 4⟩ ∈ s.table.trace := by
    rw [htrace]
    decide
  refine ⟨s, hs, hmem, huri, ?_⟩
  intro howned
  exact absurd (howned.calls _ hmem) (by unfold Obs.Right; decide)

/-- A module is opened, and opened again. -/
theorem reused_handle_live_twice :
    ∃ s, run (step plainConfig) init
        (openRun 0 ['a'] ++ callRun 0 (.openModTableOpen ['a']) 1) = some s ∧
      Live s.table 0 0x10000 := by
  have hrun : (run (step plainConfig) init
      (openRun 0 ['a'] ++ callRun 0 (.openModTableOpen ['a']) 1)).map
        (fun s => (s.pc 0, s.pc 1, s.table.openedSlot ['a'],
          (s.table.isReverseHandleOpened ['a']).2, (step plainConfig s (.next 0 quiet)).isSome)) =
      some (.search .override ['a'], .idle, some 0, some 0x10000, true) := by decide +kernel
  obtain ⟨s, hs, hseen⟩ := Option.map_eq_some_iff.mp hrun
  simp only [Prod.mk.injEq] at hseen
  obtain ⟨hpc, hpc', hfound, hhandle, hstep⟩ := hseen
  obtain ⟨s', hstep⟩ := Option.isSome_iff_exists.mp hstep
  refine ⟨s, hs, (reused_handle_live hs hstep hpc hfound hhandle).mpr ?_⟩
  intro k c stage hk
  match k with
  | 0 =>
      rw [hpc] at hk
      cases hk
  | 1 =>
      rw [hpc'] at hk
      cases hk

/-- The client closes the module during an invocation, whose end leaves the hash empty; the module is
opened again before its key is cleared. -/
def deadRun : List (Event (Fin 2)) :=
  openRun 0 ['a'] ++ callRun 1 (.openModTableHandleInvoke 0x10000) 1 ++
    callRun 0 (.openModTableClose 0x10000) 1 ++ [.next 1 quiet, .next 1 quiet] ++
      callRun 0 (.openModTableOpen ['a']) 1

/-- **A dead handle is handed out**: the hash is empty when the open reports the handle. -/
theorem handed_out_dead :
    ∃ s, run (step plainConfig) init deadRun = some s ∧ s.pc 0 = .search .override ['a'] ∧
      (step plainConfig s (.next 0 quiet)).isSome = true ∧
        (s.table.isReverseHandleOpened ['a']).2 = some 0x10000 ∧ s.table.openMods = [] ∧
          ∀ i, ¬ Live s.table i 0x10000 := by
  have hrun : (run (step plainConfig) init deadRun).map
      (fun s => (s.pc 0, (step plainConfig s (.next 0 quiet)).isSome,
        (s.table.isReverseHandleOpened ['a']).2, s.table.openMods)) =
      some (.search .override ['a'], true, some 0x10000, []) := by decide +kernel
  obtain ⟨s, hs, hseen⟩ := Option.map_eq_some_iff.mp hrun
  simp only [Prod.mk.injEq] at hseen
  obtain ⟨hpc, hstep, hhandle, hopen⟩ := hseen
  refine ⟨s, hs, hpc, hstep, hhandle, hopen, ?_⟩
  intro i hlive
  have hmem := hlive.mem
  rw [hopen] at hmem
  cases hmem

end FastRpc.ModTable
