import FastRpc.ModTableSlots

/-! # Invocations and closes of reverse modules

`refs` counts the opens of a module and its running invocations together, and
`open_mod_table_close` takes a reference whoever holds it.  A client that closes a module once too
often during an invocation takes the reference of the invocation, and the module is unloaded under
it (`unloaded_under_invocation`).  `no_unload_under_invocation` says that this is the only way: when
every close that comes during an invocation has an open, nothing is unloaded under an invocation,
and a close without an open fails and changes nothing. -/

namespace FastRpc.ModTable

open Transition

variable {ι : Type}

/-- The thread runs an invocation of the module in slot `i`. -/
def Pc.runsOn (i : Slot) (pc : Pc) : Bool :=
  match pc.role with
  | .runs m => m.slot == i
  | _ => false

theorem runsOn_iff {i : Slot} {pc : Pc} :
    pc.runsOn i = true ↔ ∃ m, pc.role = .runs m ∧ m.slot = i := by
  unfold Pc.runsOn
  cases pc.role with
  | runs m =>
      constructor
      · intro h
        exact ⟨m, rfl, beq_iff_eq.mp h⟩
      · rintro ⟨m', hm, hslot⟩
        obtain rfl := Role.runs.inj hm
        exact beq_iff_eq.mpr hslot
  | _ =>
      constructor
      · intro h
        cases h
      · rintro ⟨m', hm, -⟩
        cases hm

/-- **No unload under an invocation**: the module that an unload calls into is not running. -/
def NoUnload (s : State ι) : Prop :=
  ∀ j k c m stage, s.pc j = .finish c m stage → (s.pc k).role ≠ .runs (s.table.mod m.slot)

/-- A close that comes during an invocation of the module has an open without a close. -/
def ClosesAnOpen (s : State ι) : Event ι → Prop
  | .call _ _ _ => True
  | .next i _ =>
      match s.pc i with
      | .close handle => ∀ l, s.table.find handle = some l →
          (∃ k, (s.pc k).runsOn l = true) → 0 < s.table.opens l
      | _ => True

/-- No slot is taken while it is used, and no close takes the reference of an invocation. -/
def MatchedClose (cfg : Config) (s : State ι) (e : Event ι) : Prop :=
  SlotUnused cfg s e ∧ ClosesAnOpen s e

instance [Fintype ι] (s : State ι) (e : Event ι) : Decidable (ClosesAnOpen s e) :=
  match e with
  | .call _ _ _ => isTrue trivial
  | .next i a =>
      match h : s.pc i with
      | .close handle =>
          decidable_of_iff (∀ l, s.table.find handle = some l →
              (∃ k, (s.pc k).runsOn l = true) → 0 < s.table.opens l) (by
            unfold ClosesAnOpen
            dsimp only
            rw [h])
      | .idle | .lock _ _ | .search _ _ | .take _ _ | .load _ _ | .symbol _ _ _ | .entry _ _ _
      | .add _ _ _ | .unlock | .fail _ _ _ _ _ | .invoke _ | .invoking _ _ | .ended _ _ _
      | .finish _ _ _ =>
          isTrue (by
            unfold ClosesAnOpen
            dsimp only
            rw [h]
            trivial)

instance [Fintype ι] (cfg : Config) (s : State ι) (e : Event ι) :
    Decidable (MatchedClose cfg s e) :=
  inferInstanceAs (Decidable (_ ∧ _))

section Count

variable [Fintype ι]

/-- The invocations that run in a slot. -/
def running (s : State ι) (i : Slot) : ℕ := Threads.count (Pc.runsOn i) s.pc

theorem running_pos {s : State ι} {i : Slot} {k : ι} (h : (s.pc k).runsOn i = true) :
    0 < running s i := Threads.count_pos s.pc h

variable [DecidableEq ι] {s s' : State ι} {i : ι} {l : Slot}

theorem running_same (hpc : s'.pc = Function.update s.pc i (s'.pc i))
    (h : (s'.pc i).runsOn l = (s.pc i).runsOn l) : running s' l = running s l := by
  unfold running
  rw [hpc]
  exact Threads.count_update_same h

theorem running_enter (hpc : s'.pc = Function.update s.pc i (s'.pc i))
    (h : (s.pc i).runsOn l = false) (h' : (s'.pc i).runsOn l = true) :
    running s' l = running s l + 1 := by
  unfold running
  rw [hpc]
  exact Threads.count_update_enter s.pc h h'

theorem running_leave (hpc : s'.pc = Function.update s.pc i (s'.pc i))
    (h : (s.pc i).runsOn l = true) (h' : (s'.pc i).runsOn l = false) :
    running s' l + 1 = running s l := by
  unfold running
  rw [hpc]
  exact Threads.count_update_leave s.pc h h'

end Count

/-- The module in slot `l` is open, or an open has filled it in. -/
def Referenced (s : State ι) (l : Slot) : Prop :=
  s.table.isOpen l = true ∨ ∃ j m, (s.pc j).role = .filled m ∧ m.slot = l

/-- A module that has been filled in is not open yet. -/
theorem filled_closed {s : State ι} (hinv : Inv s) {j : ι} {m : Mod}
    (hrole : (s.pc j).role = .filled m) : s.table.isOpen m.slot = false :=
  hinv.outside j m (by rw [hrole]; rfl) (hinv.current j m (Or.inr hrole))

/-- What the proof carries along a run. -/
structure CountInv [Fintype ι] (s : State ι) : Prop where
  slots : OwnedInv s
  apart : ∀ j k m m', (s.pc j).role.owns = some m → (s.pc k).role = .runs m' → m'.slot ≠ m.slot
  opened : ∀ k m, (s.pc k).role = .runs m → s.table.isOpen m.slot = true
  counted : ∀ l, Referenced s l →
    (s.table.core l).refs = (s.table.core l).opens + running s l ∧ 0 ≤ (s.table.core l).opens

section Step

variable [Fintype ι] {cfg : Config} {s s' : State ι} {e : Event ι}

theorem countInv_init : CountInv (init : State ι) := by
  refine ⟨ownedInv_init, ?_, ?_, ?_⟩
  · intro j k m m' h
    cases h
  · intro k m h
    cases h
  · intro l h
    obtain h | ⟨j, m, h, -⟩ := h
    · cases h
    · cases h

/-- The last reference of an open module is its open or the invocation that ends. -/
theorem CountInv.last (hs : CountInv s) {l : Slot} (hopen : s.table.isOpen l = true)
    (hone : (s.table.core l).refs = 1) : (s.table.core l).opens + running s l = 1 := by
  rw [← (hs.counted l (Or.inl hopen)).1, hone]

theorem running_eq_zero {l : Slot} (h : ∀ k, (s.pc k).runsOn l ≠ true) : running s l = 0 := by
  unfold running Threads.count
  rw [Finset.card_eq_zero, Finset.filter_eq_empty_iff]
  exact fun k _ hk => h k hk

/-- A module that is being opened or unloaded is not running. -/
theorem CountInv.not_running (hs : CountInv s) {j : ι} {m : Mod}
    (howns : (s.pc j).role.owns = some m) : running s m.slot = 0 := by
  apply running_eq_zero
  intro k hk
  obtain ⟨m', hrole, hslot⟩ := runsOn_iff.mp hk
  exact hs.apart j k m m' howns hrole hslot

/-- A close that finds a module has an open. -/
theorem close_matched [DecidableEq ι] (hs : CountInv s) (hinv : Inv s) (hc : MatchedClose cfg s e)
    (hstep : step cfg s e = some s') {handle : ℕ} (hpc : s.pc e.thread = .close handle) {l : Slot}
    (hfind : s.table.find handle = some l) : 0 < (s.table.core l).opens := by
  obtain ⟨i, a, rfl⟩ := event_next hstep (by rw [hpc]; exact Pc.noConfusion)
  obtain ⟨-, hc⟩ := hc
  unfold ClosesAnOpen at hc
  dsimp only at hc
  change s.pc i = _ at hpc
  rw [hpc] at hc
  by_cases hruns : ∃ k, (s.pc k).runsOn l = true
  · exact hc l hfind hruns
  · have hopen := find_isOpen hfind
    obtain ⟨hcount, -⟩ := hs.counted l (Or.inl hopen)
    have hzero : running s l = 0 := running_eq_zero (fun k hk => hruns ⟨k, hk⟩)
    obtain ⟨key, hmem⟩ := isOpen_iff.mp hopen
    have hpos := (hinv.live _ hmem).1
    simp only at hpos
    omega

/-- A slot with a reference has a key. -/
theorem referenced_key (hs : CountInv s) {l : Slot} (hl : Referenced s l) :
    (s.table.core l).key ≠ 0 := by
  obtain hopen | ⟨j, m, hrole, rfl⟩ := hl
  · exact hs.slots.owned.taken l hopen
  · exact hs.slots.owned.filled j m hrole

variable [DecidableEq ι]

/-- Who takes the last reference of a module is the only one to run it. -/
theorem last_reference (hs : CountInv s) (hc : MatchedClose cfg s e)
    (hstep : step cfg s e = some s') {l : Slot}
    (hlast : LastReference s.table (s.pc e.thread) l) {k : ι} (hk : k ≠ e.thread) :
    (s.pc k).runsOn l ≠ true := by
  intro hruns
  obtain ⟨hdef, h⟩ := stepped hstep
  have hinv := hs.slots.inv hdef
  have hpos := running_pos hruns
  obtain ⟨hone, ⟨handle, hpc, hfind⟩ | ⟨handle, asked, nErr, hpc, rfl⟩⟩ := hlast
  · have hopens := close_matched hs hinv hc hstep hpc hfind
    have hsum := hs.last (find_isOpen hfind) hone
    omega
  · -- both the thread and `k` run the module, so it has two references
    have hrole : (s.pc e.thread).role = .runs asked := by rw [hpc]; rfl
    have hopen := hs.opened _ asked hrole
    have hsum := hs.last hopen hone
    have hopens := (hs.counted _ (Or.inl hopen)).2
    have hself : (s.pc e.thread).runsOn asked.slot = true := runsOn_iff.mpr ⟨asked, hrole, rfl⟩
    have htwo : 1 < running s asked.slot := by
      refine Finset.one_lt_card.mpr ⟨k, ?_, e.thread, ?_, hk⟩
      · exact Finset.mem_filter.mpr ⟨Finset.mem_univ k, hruns⟩
      · exact Finset.mem_filter.mpr ⟨Finset.mem_univ _, hself⟩
    omega

theorem apart_step (hs : CountInv s) (hc : MatchedClose cfg s e) (hstep : step cfg s e = some s')
    (j k : ι) (m m' : Mod) (hj : (s'.pc j).role.owns = some m)
    (hk : (s'.pc k).role = .runs m') : m'.slot ≠ m.slot := by
  obtain ⟨hdef, h⟩ := stepped hstep
  have hinv := hs.slots.inv hdef
  by_cases hki : k = e.thread
  · subst hki
    have hji : j ≠ e.thread := by
      rintro rfl
      rw [hk] at hj
      cases hj
    rw [h.other hji] at hj
    obtain hold | hopen := h.moves.runs hk
    · exact hs.apart j _ m m' hj hold
    · intro hslot
      rw [hslot, hinv.outside j m hj (hs.slots.owned.current j m (Role.owns_uses hj))] at hopen
      cases hopen
  · rw [h.other hki] at hk
    by_cases hji : j = e.thread
    · subst hji
      obtain hold | ⟨p, uri, hpc, hfree⟩ | hlast := h.moves.owns_cases hj
      · exact hs.apart _ k m m' hold hk
      · obtain ⟨i, a, rfl⟩ := event_next hstep (by rw [hpc]; exact Pc.noConfusion)
        apply take_unused hinv (hs.slots.keyed hdef) hc.1 hpc hfree k m'
        rw [hk]
        rfl
      · intro hslot
        exact last_reference hs hc hstep hlast hki (runsOn_iff.mpr ⟨m', hk, hslot⟩)
    · rw [h.other hji] at hj
      exact hs.apart j k m m' hj hk

theorem opened_step (hs : CountInv s) (hc : MatchedClose cfg s e) (hstep : step cfg s e = some s')
    (k : ι) (m : Mod) (hk : (s'.pc k).role = .runs m) : s'.table.isOpen m.slot = true := by
  obtain ⟨hdef, h⟩ := stepped hstep
  have hopen : s.table.isOpen m.slot = true := by
    by_cases hki : k = e.thread
    · subst hki
      obtain hold | hopen := h.moves.runs hk
      · exact hs.opened _ m hold
      · exact hopen
    · rw [h.other hki] at hk
      exact hs.opened k m hk
  obtain hopen' | ⟨hlast, c, m', hrole⟩ := h.moves.closed hopen
  · exact hopen'
  · by_cases hki : k = e.thread
    · subst hki
      rw [hk] at hrole
      cases hrole
    · rw [h.other hki] at hk
      exact absurd (runsOn_iff.mpr ⟨m, hk, rfl⟩) (last_reference hs hc hstep hlast hki)

theorem Role.Passes.runsOn {pc pc' : Pc} (h : pc.role.Passes pc'.role) (l : Slot) :
    pc'.runsOn l = pc.runsOn l := by
  unfold Pc.runsOn
  generalize pc.role = r at h ⊢
  generalize pc'.role = r' at h ⊢
  cases h with
  | same => rfl
  | gives m => rfl
  | fails p uri nErr dlErr m => rfl
  | leaves handle m => rfl

omit [Fintype ι] in
/-- A slot that has a reference had one before, unless it is filled in. -/
theorem referenced_step (hstep : step cfg s e = some s') {l : Slot} (hl : Referenced s' l) :
    Referenced s l ∨ ∃ m p uri, s.pc e.thread = .symbol p uri m ∧
      s'.pc e.thread = .entry p uri m ∧ m.slot = l := by
  obtain ⟨-, h⟩ := stepped hstep
  obtain hopen | ⟨j, m, hrole, rfl⟩ := hl
  · obtain hold | ⟨m, hrole, hslot, -⟩ := h.moves.isOpen hopen
    · exact Or.inl (Or.inl hold)
    · exact Or.inl (Or.inr ⟨e.thread, m, hrole, hslot⟩)
  · by_cases hj : j = e.thread
    · subst hj
      obtain ⟨hold, -⟩ | ⟨-, -, p, uri, hpc, hpc'⟩ := h.moves.filled hrole
      · exact Or.inl (Or.inr ⟨_, m, hold, rfl⟩)
      · exact Or.inr ⟨m, p, uri, hpc, hpc', rfl⟩
    · rw [h.other hj] at hrole
      exact Or.inl (Or.inr ⟨j, m, hrole, rfl⟩)

/-- A slot that leaves the hash has no reference. -/
theorem not_referenced (hs : CountInv s) (hstep : step cfg s e = some s') {l : Slot}
    (hlast : LastReference s.table (s.pc e.thread) l)
    (hfilter : s'.table.openMods = s.table.openMods.filter (fun e => e.1 != l)) {c : Closer}
    {m : Mod} (hrole' : (s'.pc e.thread).role = .unloads c m) : ¬ Referenced s' l := by
  obtain ⟨hdef, h⟩ := stepped hstep
  rintro (hopen | ⟨j, m', hrole, hslot⟩)
  · exact ((isOpen_filter hfilter l).mp hopen).2 rfl
  · have hj : j ≠ e.thread := by
      rintro rfl
      rw [hrole'] at hrole
      cases hrole
    rw [h.other hj] at hrole
    have hclosed := filled_closed (hs.slots.inv hdef) hrole
    rw [hslot] at hclosed
    obtain ⟨-, ⟨handle, -, hfind⟩ | ⟨handle, asked, nErr, hpc, hasked⟩⟩ := hlast
    · rw [find_isOpen hfind] at hclosed
      cases hclosed
    · have hopen := hs.opened e.thread asked (by rw [hpc]; rfl)
      rw [hasked, hclosed] at hopen
      cases hopen

omit [Fintype ι] [DecidableEq ι] in
/-- Another key keeps the references. -/
theorem update_key_refs {t t' : Table} {i : Slot} {key : ℕ}
    (hcore : t'.core = Function.update t.core i { t.core i with key := key }) (l : Slot) :
    (t'.core l).refs = (t.core l).refs ∧ (t'.core l).opens = (t.core l).opens := by
  rw [hcore]
  by_cases hi : l = i
  · rw [hi, Function.update_self]
    exact ⟨rfl, rfl⟩
  · rw [Function.update_of_ne hi]
    exact ⟨rfl, rfl⟩

/-- The references of a slot that the step does not change. -/
theorem counted_keeps (hs : CountInv s) (hpc : s'.pc = Function.update s.pc e.thread (s'.pc e.thread))
    {l : Slot} (hl : Referenced s l) (hrefs : (s'.table.core l).refs = (s.table.core l).refs)
    (hopens : (s'.table.core l).opens = (s.table.core l).opens)
    (hruns : (s'.pc e.thread).runsOn l = (s.pc e.thread).runsOn l) :
    (s'.table.core l).refs = (s'.table.core l).opens + running s' l ∧
      0 ≤ (s'.table.core l).opens := by
  rw [hrefs, hopens, running_same hpc hruns]
  exact hs.counted l hl

omit [Fintype ι] [DecidableEq ι] in
/-- What fills in a slot. -/
theorem Moves.fills_core {t t' : Table} {pc pc' : Pc} (h : Moves cfg t pc t' pc') {m : Mod}
    {p : Path} {uri : Str} (hpc : pc = .symbol p uri m) (hpc' : pc' = .entry p uri m) :
    t'.core = Function.update t.core m.slot
      ⟨cfg.slotKey m.slot, 1, (t.core m.slot).number, 1⟩ := by
  subst hpc
  subst hpc'
  cases h with
  | quiet hcore hopen hrole => cases hrole
  | fills m' p' uri' hpc hpc' hcore hopen =>
      obtain ⟨-, -, rfl⟩ := Pc.symbol.inj hpc
      exact hcore
  | reopens i p' uri' hpc => cases hpc
  | takes i p' uri' hpc => cases hpc
  | collides m' key p' uri' hpc => cases hpc
  | adds m' key p' uri' hpc => cases hpc
  | closes handle i hpc => cases hpc
  | closesLast handle i hpc => cases hpc
  | invokes handle i hpc => cases hpc
  | ends handle m' nErr hpc => cases hpc
  | endsLast handle m' nErr hpc => cases hpc
  | clears c m' hpc => cases hpc

/-- A slot that is filled in has one open and no invocation. -/
theorem counted_fills (hs : CountInv s) (hstep : step cfg s e = some s') {m : Mod} {p : Path}
    {uri : Str} (hpc : s.pc e.thread = .symbol p uri m)
    (hpc' : s'.pc e.thread = .entry p uri m) :
    (s'.table.core m.slot).refs = (s'.table.core m.slot).opens + running s' m.slot ∧
      0 ≤ (s'.table.core m.slot).opens := by
  obtain ⟨-, h⟩ := stepped hstep
  have hruns : running s' m.slot = 0 := by
    rw [running_same (i := e.thread) h.pc_eq (by rw [hpc, hpc']; rfl)]
    exact hs.not_running (j := e.thread) (by rw [hpc]; rfl)
  have hcore : s'.table.core m.slot =
      ⟨cfg.slotKey m.slot, 1, (s.table.core m.slot).number, 1⟩ := by
    rw [h.moves.fills_core hpc hpc', Function.update_self]
  rw [hcore, hruns]
  exact ⟨rfl, Int.one_nonneg⟩

/-- **Every step keeps the count of the references.** -/
theorem counted_step (hs : CountInv s) (hc : MatchedClose cfg s e)
    (hstep : step cfg s e = some s') (l : Slot) (hl : Referenced s' l) :
    (s'.table.core l).refs = (s'.table.core l).opens + running s' l ∧
      0 ≤ (s'.table.core l).opens := by
  obtain ⟨hdef, h⟩ := stepped hstep
  have hinv := hs.slots.inv hdef
  obtain hold | ⟨m, p, uri, hpc, hpc', rfl⟩ := referenced_step hstep hl
  · obtain ⟨hcount, hpos⟩ := hs.counted l hold
    have hsame : (s'.pc e.thread).runsOn l = (s.pc e.thread).runsOn l →
        running s' l = running s l := running_same h.pc_eq
    have hkeeps := fun hrefs hopens hruns => counted_keeps hs h.pc_eq hold hrefs hopens hruns
    cases h.moves with
    | quiet hcore hopen hrole => exact hkeeps (by rw [hcore]) (by rw [hcore]) (hrole.runsOn l)
    | reopens i p uri hpc hpc' hfind hcore hopen =>
        have hruns : (s'.pc e.thread).runsOn l = (s.pc e.thread).runsOn l := by
          rw [hpc, hpc']
          rfl
        by_cases hi : l = i
        · rw [hsame hruns, hcore, hi, Function.update_self, ← hi]
          dsimp only
          omega
        · exact hkeeps (by rw [hcore, Function.update_of_ne hi])
            (by rw [hcore, Function.update_of_ne hi]) hruns
    | takes i p uri hpc hfree hcore hopen hdef' hrole =>
        have hi : l ≠ i := by
          rintro rfl
          exact referenced_key hs hold (nextAvailable_key hfree)
        refine hkeeps (by rw [hcore, Function.update_of_ne hi])
          (by rw [hcore, Function.update_of_ne hi]) ?_
        unfold Pc.runsOn
        rw [hrole, hpc]
        rfl
    | fills m p uri hpc hpc' hcore hopen =>
        by_cases hi : l = m.slot
        · subst hi
          exact counted_fills hs hstep hpc hpc'
        · refine hkeeps (by rw [hcore, Function.update_of_ne hi])
            (by rw [hcore, Function.update_of_ne hi]) ?_
          rw [hpc, hpc']
          rfl
    | collides m key p uri hpc hkey hcore hopen hrole =>
        have hrest := update_key_refs hcore l
        refine hkeeps hrest.1 hrest.2 ?_
        unfold Pc.runsOn
        rw [hrole, hpc]
        rfl
    | adds m key p uri hpc hpc' hkey hcore hopen =>
        have hrest := update_key_refs hcore l
        refine hkeeps hrest.1 hrest.2 ?_
        rw [hpc, hpc']
        rfl
    | closes handle i hpc hpc' hfind hpos hcore hopen =>
        have hruns : (s'.pc e.thread).runsOn l = (s.pc e.thread).runsOn l := by
          rw [hpc, hpc']
          rfl
        by_cases hi : l = i
        · have hmatched := close_matched hs hinv hc hstep hpc hfind
          rw [hsame hruns, hcore, hi, Function.update_self]
          rw [hi] at hcount
          dsimp only
          omega
        · exact hkeeps (by rw [hcore, Function.update_of_ne hi])
            (by rw [hcore, Function.update_of_ne hi]) hruns
    | closesLast handle i hpc hfind hone hcore hopen hrole =>
        have hi : l ≠ i := by
          rintro rfl
          exact not_referenced hs hstep ⟨hone, Or.inl ⟨handle, hpc, hfind⟩⟩ hopen hrole hl
        refine hkeeps (by rw [hcore, Function.update_of_ne hi])
          (by rw [hcore, Function.update_of_ne hi]) ?_
        unfold Pc.runsOn
        rw [hrole, hpc]
        rfl
    | invokes handle i hpc hfind hcore hopen hrole =>
        have hbefore : (s.pc e.thread).runsOn l = false := by rw [hpc]; rfl
        by_cases hi : l = i
        · have hafter : (s'.pc e.thread).runsOn l = true := runsOn_iff.mpr ⟨_, hrole, hi.symm⟩
          rw [running_enter h.pc_eq hbefore hafter, hcore, hi, Function.update_self, ← hi]
          dsimp only
          omega
        · refine hkeeps (by rw [hcore, Function.update_of_ne hi])
            (by rw [hcore, Function.update_of_ne hi]) ?_
          rw [hbefore]
          unfold Pc.runsOn
          rw [hrole]
          exact beq_eq_false_iff_ne.mpr (Ne.symm hi)
    | ends handle m nErr hpc hpc' hpos hcore hopen =>
        have hafter : (s'.pc e.thread).runsOn l = false := by rw [hpc']; rfl
        by_cases hi : l = m.slot
        · have hbefore : (s.pc e.thread).runsOn l = true :=
            runsOn_iff.mpr ⟨m, by rw [hpc]; rfl, hi.symm⟩
          have hleave := running_leave h.pc_eq hbefore hafter
          rw [hcore, hi, Function.update_self, ← hi]
          dsimp only
          omega
        · refine hkeeps (by rw [hcore, Function.update_of_ne hi])
            (by rw [hcore, Function.update_of_ne hi]) ?_
          rw [hafter, hpc]
          exact (beq_eq_false_iff_ne.mpr (Ne.symm hi)).symm
    | endsLast handle m nErr hpc hone hcore hopen hdef' hrole =>
        have hi : l ≠ m.slot := by
          rintro rfl
          exact not_referenced hs hstep ⟨hone, Or.inr ⟨handle, m, nErr, hpc, rfl⟩⟩ hopen hrole hl
        refine hkeeps (by rw [hcore, Function.update_of_ne hi])
          (by rw [hcore, Function.update_of_ne hi]) ?_
        unfold Pc.runsOn
        rw [hrole, hpc]
        exact (beq_eq_false_iff_ne.mpr (Ne.symm hi)).symm
    | clears c m hpc hcore hopen hrole =>
        have hrest := update_key_refs hcore l
        refine hkeeps hrest.1 hrest.2 ?_
        unfold Pc.runsOn
        rw [hrole, hpc]
        rfl
  · exact counted_fills hs hstep hpc hpc'

/-- **A step that meets the condition keeps the invariant.** -/
theorem countInv_step (s : State ι) (e : Event ι) (s' : State ι) (hs : CountInv s)
    (hc : MatchedClose cfg s e) (hstep : step cfg s e = some s') : CountInv s' :=
  ⟨ownedInv_step s e s' hs.slots hc.1 hstep, apart_step hs hc hstep, opened_step hs hc hstep,
    counted_step hs hc hstep⟩

/-- A close of a module without opens finds no module, fails and changes nothing. -/
theorem unmatched_close (hs : CountInv s) (hinv : Inv s) {j : ι} {a : Answer} {handle : ℕ}
    (hpc : s.pc j = .close handle) (hc : MatchedClose cfg s (.next j a))
    (hstep : step cfg s (.next j a) = some s')
    (hunmatched : ∀ l, s.table.find handle = some l → s.table.opens l ≤ 0) :
    s'.table = s.table.emit (.notClosed handle) ∧ s'.pc j = .idle := by
  have hnone : s.table.find handle = none := by
    rw [Option.eq_none_iff_forall_not_mem]
    intro l hfind
    exact absurd (hunmatched l hfind) (not_le.mpr (close_matched hs hinv hc hstep hpc hfind))
  obtain ⟨r, hr, htable, hpc'⟩ := step_next hstep
  rw [hpc] at hr
  obtain rfl := Option.some.inj hr
  unfold closeStep Table.openModTableClose at htable hpc'
  rw [hnone] at htable hpc'
  exact ⟨htable, hpc'⟩

/-- **No unload under an invocation.** In every run in which no close takes the reference of an
invocation and no slot is taken while it is used, no module is unloaded under an invocation of it,
and a close without an open fails and changes nothing. -/
theorem no_unload_under_invocation {es : List (Event ι)} {s : State ι}
    (h : run (step cfg) init es = some s)
    (hg : Guarded (step cfg) (MatchedClose cfg) init es) :
    NoUnload s ∧ ∀ j a handle s', s.pc j = .close handle → MatchedClose cfg s (.next j a) →
      step cfg s (.next j a) = some s' →
      (∀ l, s.table.find handle = some l → s.table.opens l ≤ 0) →
        s'.table = s.table.emit (.notClosed handle) ∧ s'.pc j = .idle := by
  have hs : CountInv s := guarded_invariant countInv_step countInv_init hg h
  constructor
  · intro j k c m stage hpc hrole
    exact hs.apart j k m _ (by rw [hpc]; rfl) hrole rfl
  · intro j a handle s' hpc hc hstep hunmatched
    exact unmatched_close hs (inv_run h (stepped hstep).1) hpc hc hstep hunmatched

end Step

/-! ### Runs -/

/-- The module `a` is opened, invoked, and closed once during the invocation, which then ends. -/
def closeRun : List (Event (Fin 2)) :=
  openRun 0 ['a'] ++ callRun 1 (.openModTableHandleInvoke 0x10000) 1 ++
    callRun 0 (.openModTableClose 0x10000) 1 ++ List.replicate 2 (.next 1 quiet)

theorem no_unload_under_invocation_close_run :
    ∃ s, run (step plainConfig) init closeRun = some s ∧ NoUnload s := by
  have hrun : (run (step plainConfig) init closeRun).isSome = true := by decide +kernel
  obtain ⟨s, hs⟩ := Option.isSome_iff_exists.mp hrun
  have hg : Guarded (step plainConfig) (MatchedClose plainConfig) init closeRun := by
    decide +kernel
  exact ⟨s, hs, (no_unload_under_invocation hs hg).1⟩

/-- The client closes the module twice during the invocation. -/
def doubleCloseRun : List (Event (Fin 2)) :=
  openRun 0 ['a'] ++ callRun 1 (.openModTableHandleInvoke 0x10000) 1 ++
    callRun 0 (.openModTableClose 0x10000) 1 ++ callRun 0 (.openModTableClose 0x10000) 2

/-- **A module is unloaded under an invocation**: the second close finds the handle, and its
`dlclose` comes before the invocation has ended. -/
theorem unloaded_under_invocation :
    ∃ s, run (step plainConfig) init doubleCloseRun = some s ∧
      s.table.trace = [.opened ['a'] 0x10000, .closed 0x10000 false, .closed 0x10000 true] ∧
        s.pc 0 = .finish (.table 0x10000) ⟨0, 2⟩ .dlclose ∧ s.pc 1 = .invoking 0x10000 ⟨0, 2⟩ ∧
          ¬ NoUnload s := by
  have hrun : (run (step plainConfig) init doubleCloseRun).map
      (fun s => (s.table.trace, s.pc 0, s.pc 1, s.table.mod 0)) =
        some ([.opened ['a'] 0x10000, .closed 0x10000 false, .closed 0x10000 true],
          .finish (.table 0x10000) ⟨0, 2⟩ .dlclose, .invoking 0x10000 ⟨0, 2⟩, ⟨0, 2⟩) := by
    decide +kernel
  obtain ⟨s, hs, hseen⟩ := Option.map_eq_some_iff.mp hrun
  simp only [Prod.mk.injEq] at hseen
  obtain ⟨htrace, hpc, hpc', hmod⟩ := hseen
  refine ⟨s, hs, htrace, hpc, hpc', ?_⟩
  intro hno
  apply hno 0 1 _ _ _ hpc
  rw [hpc', hmod]
  rfl

end FastRpc.ModTable
