import FastRpc.ModTableMoves

/-! # The invariant of the table of reverse modules

`Inv` holds in every state of every run in which the run still has a meaning: whoever holds
`rev_handle_table_lock` is alone, a module in the hash has references, a slot with a key is in the
hash or belongs to the one thread that opens or unloads its module, and such a module is not in the
hash.  A thread may still use a slot that has been handed on (`number` is then smaller than the
slot's); nothing here excludes it.  `inv_step` derives each part from `Moves`. -/

namespace FastRpc.ModTable

/-! ### What a step keeps -/

section Moves

variable {cfg : Config} {t t' : Table} {pc pc' : Pc}

theorem isOpen_iff {i : Slot} : t.isOpen i = true ↔ ∃ k, (i, k) ∈ t.openMods := by
  unfold Table.isOpen
  rw [List.any_eq_true]
  constructor
  · rintro ⟨⟨j, k⟩, he, hj⟩
    exact ⟨k, beq_iff_eq.mp hj ▸ he⟩
  · rintro ⟨k, he⟩
    exact ⟨(i, k), he, beq_self_eq_true i⟩

theorem isOpen_congr (h : t'.openMods = t.openMods) (i : Slot) : t'.isOpen i = t.isOpen i := by
  unfold Table.isOpen
  rw [h]

/-- What `HASH_FIND_INT` returns. -/
theorem find_mem {handle : ℕ} {i : Slot} (h : t.find handle = some i) :
    (i, handle) ∈ t.openMods ∧ u32 (t.core i).key = handle := by
  obtain ⟨⟨j, k⟩, he, rfl⟩ := Option.map_eq_some_iff.mp h
  have hmem := List.mem_of_find?_eq_some he
  have htest := List.find?_some he
  simp only [Bool.and_eq_true, beq_iff_eq] at htest
  rw [← htest.1]
  exact ⟨hmem, htest.2.trans htest.1.symm⟩

theorem find_isOpen {handle : ℕ} {i : Slot} (h : t.find handle = some i) : t.isOpen i = true :=
  isOpen_iff.mpr ⟨handle, (find_mem h).1⟩

theorem isOpen_filter {i : Slot} (h : t'.openMods = t.openMods.filter (fun e => e.1 != i))
    (j : Slot) : t'.isOpen j = true ↔ t.isOpen j = true ∧ j ≠ i := by
  rw [isOpen_iff, isOpen_iff, h]
  constructor
  · rintro ⟨k, hk⟩
    obtain ⟨hk, hne⟩ := List.mem_filter.mp hk
    exact ⟨⟨k, hk⟩, bne_iff_ne.mp hne⟩
  · rintro ⟨⟨k, hk⟩, hne⟩
    exact ⟨k, List.mem_filter.mpr ⟨hk, bne_iff_ne.mpr hne⟩⟩

theorem isOpen_cons {i : Slot} {k : ℕ} (h : t'.openMods = (i, k) :: t.openMods) (j : Slot) :
    t'.isOpen j = true ↔ j = i ∨ t.isOpen j = true := by
  rw [isOpen_iff, isOpen_iff, h]
  constructor
  · rintro ⟨l, hl⟩
    cases hl with
    | head => exact Or.inl rfl
    | tail _ hl => exact Or.inr ⟨l, hl⟩
  · rintro (rfl | ⟨l, hl⟩)
    · exact ⟨k, List.mem_cons_self⟩
    · exact ⟨l, List.mem_cons_of_mem _ hl⟩

/-- A module that is being opened is opened under the lock. -/
theorem locked_of_role {pc : Pc} {m : Mod} (h : pc.role = .opens m ∨ pc.role = .filled m) :
    pc.locked = true := by
  cases pc <;> first | rfl | (rcases h with h | h <;> cases h)

theorem Role.owns_uses {r : Role} {m : Mod} (h : r.owns = some m) : r.uses = some m := by
  cases r <;> first | exact h | cases h

theorem Role.Passes.owns {r r' : Role} (h : r.Passes r') {m : Mod} (hm : r'.owns = some m) :
    r.owns = some m := by
  cases h with
  | same => exact hm
  | gives m' => exact hm
  | fails p uri nErr dlErr m' => exact hm
  | leaves handle m' => cases hm

theorem Role.Passes.uses {r r' : Role} (h : r.Passes r') {m : Mod} (hm : r'.uses = some m) :
    r.uses = some m := by
  cases h with
  | same => exact hm
  | gives m' => exact hm
  | fails p uri nErr dlErr m' => exact hm
  | leaves handle m' => cases hm

/-- The numbers of the slots do not change, unless an open takes a slot. -/
theorem Moves.number (h : Moves cfg t pc t' pc') :
    (∀ i, (t'.core i).number = (t.core i).number) ∨
      ∃ i p uri, pc = .take p uri ∧ t.nextAvailableRevHandle = some i ∧
        t'.core = Function.update t.core i ⟨0, 0, (t.core i).number + 1, 0⟩ ∧
          t'.openMods = t.openMods ∧ (t'.undefined = false → t.isOpen i = false) ∧
            pc'.role = .opens ⟨i, (t.core i).number + 1⟩ := by
  have hkeeps : ∀ {i : Slot} {c : SlotCore}, t'.core = Function.update t.core i c →
      c.number = (t.core i).number → ∀ j, (t'.core j).number = (t.core j).number := by
    intro i c hcore hc j
    rw [hcore]
    by_cases hj : j = i
    · rw [hj, Function.update_self, hc]
    · rw [Function.update_of_ne hj]
  cases h with
  | quiet hcore hopen hrole => exact Or.inl (fun i => by rw [hcore])
  | reopens i p uri hpc hpc' hfind hcore hopen => exact Or.inl (hkeeps hcore rfl)
  | takes i p uri hpc hfree hcore hopen hdef hrole =>
      exact Or.inr ⟨i, p, uri, hpc, hfree, hcore, hopen, hdef, hrole⟩
  | fills m p uri hpc hpc' hcore hopen => exact Or.inl (hkeeps hcore rfl)
  | collides m key p uri hpc hkey hcore hopen hrole => exact Or.inl (hkeeps hcore rfl)
  | adds m key p uri hpc hpc' hkey hcore hopen => exact Or.inl (hkeeps hcore rfl)
  | closes handle i hpc hpc' hfind hpos hcore hopen => exact Or.inl (hkeeps hcore rfl)
  | closesLast handle i hpc hfind hone hcore hopen hrole => exact Or.inl (hkeeps hcore rfl)
  | invokes handle i hpc hfind hcore hopen hrole => exact Or.inl (hkeeps hcore rfl)
  | ends handle m nErr hpc hpc' hpos hcore hopen => exact Or.inl (hkeeps hcore rfl)
  | endsLast handle m nErr hpc hone hcore hopen hdef hrole => exact Or.inl (hkeeps hcore rfl)
  | clears c m hpc hcore hopen hrole => exact Or.inl (hkeeps hcore rfl)

theorem Moves.number_le (h : Moves cfg t pc t' pc') (i : Slot) :
    (t.core i).number ≤ (t'.core i).number := by
  obtain hsame | ⟨j, p, uri, -, -, hcore, -⟩ := h.number
  · exact (hsame i).ge
  · rw [hcore]
    by_cases hi : i = j
    · rw [hi, Function.update_self]
      exact Nat.le_succ _
    · rw [Function.update_of_ne hi]

/-- A module that a thread newly uses is the one in its slot. -/
theorem Moves.uses (h : Moves cfg t pc t' pc') {m : Mod} (hm : pc'.role.uses = some m) :
    pc.role.uses = some m ∨ m.number = (t'.core m.slot).number := by
  cases h with
  | quiet hcore hopen hrole => exact Or.inl (hrole.uses hm)
  | reopens i p uri hpc hpc' hfind hcore hopen =>
      rw [hpc'] at hm
      cases hm
  | takes i p uri hpc hfree hcore hopen hdef hrole =>
      rw [hrole] at hm
      obtain rfl := Option.some.inj hm
      rw [hcore, Function.update_self]
      exact Or.inr rfl
  | fills m' p uri hpc hpc' hcore hopen =>
      rw [hpc'] at hm
      rw [hpc]
      exact Or.inl hm
  | collides m' key p uri hpc hkey hcore hopen hrole =>
      rw [hrole] at hm
      rw [hpc]
      exact Or.inl hm
  | adds m' key p uri hpc hpc' hkey hcore hopen =>
      rw [hpc'] at hm
      cases hm
  | closes handle i hpc hpc' hfind hpos hcore hopen =>
      rw [hpc'] at hm
      cases hm
  | closesLast handle i hpc hfind hone hcore hopen hrole =>
      rw [hrole] at hm
      obtain rfl := Option.some.inj hm
      rw [hcore, Function.update_self]
      exact Or.inr rfl
  | invokes handle i hpc hfind hcore hopen hrole =>
      rw [hrole] at hm
      obtain rfl := Option.some.inj hm
      rw [hcore, Function.update_self]
      exact Or.inr rfl
  | ends handle m' nErr hpc hpc' hpos hcore hopen =>
      rw [hpc'] at hm
      cases hm
  | endsLast handle m' nErr hpc hone hcore hopen hdef hrole =>
      rw [hrole] at hm
      obtain rfl := Option.some.inj hm
      rw [hcore, Function.update_self]
      exact Or.inr rfl
  | clears c m' hpc hcore hopen hrole =>
      rw [hrole] at hm
      cases hm

/-- A module that a thread newly owns has just been put into its slot, or has left the hash. -/
theorem Moves.owns (h : Moves cfg t pc t' pc') (hdef' : t'.undefined = false) {m : Mod}
    (hm : pc'.role.owns = some m) :
    pc.role.owns = some m ∨ (t.core m.slot).number < m.number ∨
      (t.isOpen m.slot = true ∧ t'.isOpen m.slot = false) := by
  cases h with
  | quiet hcore hopen hrole => exact Or.inl (hrole.owns hm)
  | reopens i p uri hpc hpc' hfind hcore hopen =>
      rw [hpc'] at hm
      cases hm
  | takes i p uri hpc hfree hcore hopen hdef hrole =>
      rw [hrole] at hm
      obtain rfl := Option.some.inj hm
      exact Or.inr (Or.inl (Nat.lt_succ_self _))
  | fills m' p uri hpc hpc' hcore hopen =>
      rw [hpc'] at hm
      rw [hpc]
      exact Or.inl hm
  | collides m' key p uri hpc hkey hcore hopen hrole =>
      rw [hrole] at hm
      rw [hpc]
      exact Or.inl hm
  | adds m' key p uri hpc hpc' hkey hcore hopen =>
      rw [hpc'] at hm
      cases hm
  | closes handle i hpc hpc' hfind hpos hcore hopen =>
      rw [hpc'] at hm
      cases hm
  | closesLast handle i hpc hfind hone hcore hopen hrole =>
      rw [hrole] at hm
      obtain rfl := Option.some.inj hm
      refine Or.inr (Or.inr ⟨find_isOpen hfind, Bool.eq_false_iff.mpr ?_⟩)
      intro hopen'
      exact ((isOpen_filter hopen i).mp hopen').2 rfl
  | invokes handle i hpc hfind hcore hopen hrole =>
      rw [hrole] at hm
      cases hm
  | ends handle m' nErr hpc hpc' hpos hcore hopen =>
      rw [hpc'] at hm
      cases hm
  | endsLast handle m' nErr hpc hone hcore hopen hdef hrole =>
      rw [hrole] at hm
      obtain rfl := Option.some.inj hm
      refine Or.inr (Or.inr ⟨hdef hdef', Bool.eq_false_iff.mpr ?_⟩)
      intro hopen'
      exact ((isOpen_filter hopen m'.slot).mp hopen').2 rfl
  | clears c m' hpc hcore hopen hrole =>
      rw [hrole] at hm
      cases hm

/-- A module that comes into the hash was being opened by the thread. -/
theorem Moves.isOpen (h : Moves cfg t pc t' pc') {i : Slot} (hi : t'.isOpen i = true) :
    t.isOpen i = true ∨ ∃ m, pc.role = .filled m ∧ m.slot = i ∧ pc'.role.owns = none := by
  cases h with
  | quiet hcore hopen hrole => exact Or.inl (isOpen_congr hopen i ▸ hi)
  | reopens j p uri hpc hpc' hfind hcore hopen => exact Or.inl (isOpen_congr hopen i ▸ hi)
  | takes j p uri hpc hfree hcore hopen hdef hrole => exact Or.inl (isOpen_congr hopen i ▸ hi)
  | fills m p uri hpc hpc' hcore hopen => exact Or.inl (isOpen_congr hopen i ▸ hi)
  | collides m key p uri hpc hkey hcore hopen hrole => exact Or.inl (isOpen_congr hopen i ▸ hi)
  | adds m key p uri hpc hpc' hkey hcore hopen =>
      obtain rfl | hi := (isOpen_cons hopen i).mp hi
      · rw [hpc, hpc']
        exact Or.inr ⟨m, rfl, rfl, rfl⟩
      · exact Or.inl hi
  | closes handle j hpc hpc' hfind hpos hcore hopen => exact Or.inl (isOpen_congr hopen i ▸ hi)
  | closesLast handle j hpc hfind hone hcore hopen hrole =>
      exact Or.inl ((isOpen_filter hopen i).mp hi).1
  | invokes handle j hpc hfind hcore hopen hrole => exact Or.inl (isOpen_congr hopen i ▸ hi)
  | ends handle m nErr hpc hpc' hpos hcore hopen => exact Or.inl (isOpen_congr hopen i ▸ hi)
  | endsLast handle m nErr hpc hone hcore hopen hdef hrole =>
      exact Or.inl ((isOpen_filter hopen i).mp hi).1
  | clears c m hpc hcore hopen hrole => exact Or.inl (isOpen_congr hopen i ▸ hi)

/-- A slot that gets another key has its module opened by the thread. -/
theorem Moves.key (h : Moves cfg t pc t' pc') {i : Slot} (hi : (t'.core i).key ≠ 0) :
    (t'.core i).key = (t.core i).key ∨
      ∃ m, (pc.role = .opens m ∨ pc.role = .filled m) ∧ m.slot = i ∧
        (pc'.role.owns = some m ∨ t'.isOpen i = true) := by
  have hkeeps : ∀ {j : Slot} {c : SlotCore}, t'.core = Function.update t.core j c →
      (c.key = (t.core j).key ∨ c.key = 0) → (t'.core i).key = (t.core i).key := by
    intro j c hcore hc
    rw [hcore] at hi ⊢
    by_cases hj : i = j
    · rw [hj, Function.update_self] at hi ⊢
      obtain hc | hc := hc
      · exact hc
      · exact absurd hc hi
    · rw [Function.update_of_ne hj]
  have hother : ∀ {j : Slot} {c : SlotCore}, t'.core = Function.update t.core j c → i ≠ j →
      (t'.core i).key = (t.core i).key := by
    intro j c hcore hj
    rw [hcore, Function.update_of_ne hj]
  cases h with
  | quiet hcore hopen hrole => exact Or.inl (by rw [hcore])
  | reopens j p uri hpc hpc' hfind hcore hopen => exact Or.inl (hkeeps hcore (Or.inl rfl))
  | takes j p uri hpc hfree hcore hopen hdef hrole => exact Or.inl (hkeeps hcore (Or.inr rfl))
  | fills m p uri hpc hpc' hcore hopen =>
      by_cases hj : i = m.slot
      · rw [hpc, hpc']
        exact Or.inr ⟨m, Or.inl rfl, hj.symm, Or.inl rfl⟩
      · exact Or.inl (hother hcore hj)
  | collides m key p uri hpc hkey hcore hopen hrole =>
      by_cases hj : i = m.slot
      · rw [hpc, hrole]
        exact Or.inr ⟨m, Or.inr rfl, hj.symm, Or.inl rfl⟩
      · exact Or.inl (hother hcore hj)
  | adds m key p uri hpc hpc' hkey hcore hopen =>
      by_cases hj : i = m.slot
      · rw [hpc]
        exact Or.inr ⟨m, Or.inr rfl, hj.symm, Or.inr ((isOpen_cons hopen i).mpr (Or.inl hj))⟩
      · exact Or.inl (hother hcore hj)
  | closes handle j hpc hpc' hfind hpos hcore hopen => exact Or.inl (hkeeps hcore (Or.inl rfl))
  | closesLast handle j hpc hfind hone hcore hopen hrole =>
      exact Or.inl (hkeeps hcore (Or.inr rfl))
  | invokes handle j hpc hfind hcore hopen hrole => exact Or.inl (hkeeps hcore (Or.inl rfl))
  | ends handle m nErr hpc hpc' hpos hcore hopen => exact Or.inl (hkeeps hcore (Or.inl rfl))
  | endsLast handle m nErr hpc hone hcore hopen hdef hrole =>
      exact Or.inl (hkeeps hcore (Or.inl rfl))
  | clears c m hpc hcore hopen hrole => exact Or.inl (hkeeps hcore (Or.inr rfl))

/-- A reference count stays positive, unless a take or the last reference ends its module. -/
theorem Moves.refs (h : Moves cfg t pc t' pc') (hdef' : t'.undefined = false) {i : Slot}
    (hi : 1 ≤ (t.core i).refs) :
    1 ≤ (t'.core i).refs ∨ (∃ p uri, pc = .take p uri ∧ t.isOpen i = false) ∨
      (t.isOpen i = true ∧ t'.isOpen i = false) := by
  have hkeeps : ∀ {j : Slot} {c : SlotCore}, t'.core = Function.update t.core j c →
      (1 ≤ (t.core j).refs → 1 ≤ c.refs) → 1 ≤ (t'.core i).refs := by
    intro j c hcore hc
    rw [hcore]
    by_cases hj : i = j
    · rw [hj, Function.update_self]
      exact hc (hj ▸ hi)
    · rwa [Function.update_of_ne hj]
  have hfilter : ∀ {j : Slot} {c : SlotCore}, t'.core = Function.update t.core j c →
      t'.openMods = t.openMods.filter (fun e => e.1 != j) → t.isOpen j = true →
        1 ≤ (t'.core i).refs ∨ (t.isOpen i = true ∧ t'.isOpen i = false) := by
    intro j c hcore hopen hj'
    by_cases hj : i = j
    · refine Or.inr ⟨hj ▸ hj', Bool.eq_false_iff.mpr ?_⟩
      exact fun hopen' => ((isOpen_filter hopen i).mp hopen').2 hj
    · left
      rwa [hcore, Function.update_of_ne hj]
  cases h with
  | quiet hcore hopen hrole => exact Or.inl (hcore ▸ hi)
  | reopens j p uri hpc hpc' hfind hcore hopen =>
      exact Or.inl (hkeeps hcore (fun hpos => hpos.trans (Int.le_add_one (le_refl _))))
  | takes j p uri hpc hfree hcore hopen hdef hrole =>
      by_cases hj : i = j
      · exact Or.inr (Or.inl ⟨p, uri, hpc, hj ▸ hdef hdef'⟩)
      · left
        rwa [hcore, Function.update_of_ne hj]
  | fills m p uri hpc hpc' hcore hopen => exact Or.inl (hkeeps hcore (fun _ => le_refl _))
  | collides m key p uri hpc hkey hcore hopen hrole => exact Or.inl (hkeeps hcore id)
  | adds m key p uri hpc hpc' hkey hcore hopen => exact Or.inl (hkeeps hcore id)
  | closes handle j hpc hpc' hfind hpos hcore hopen =>
      refine Or.inl (hkeeps hcore (fun hone => ?_))
      dsimp only
      omega
  | closesLast handle j hpc hfind hone hcore hopen hrole =>
      exact (hfilter hcore hopen (find_isOpen hfind)).imp_right Or.inr
  | invokes handle j hpc hfind hcore hopen hrole =>
      exact Or.inl (hkeeps hcore (fun hpos => hpos.trans (Int.le_add_one (le_refl _))))
  | ends handle m nErr hpc hpc' hpos hcore hopen =>
      refine Or.inl (hkeeps hcore (fun hone => ?_))
      dsimp only
      omega
  | endsLast handle m nErr hpc hone hcore hopen hdef hrole =>
      exact (hfilter hcore hopen (hdef hdef')).imp_right Or.inr
  | clears c m hpc hcore hopen hrole => exact Or.inl (hkeeps hcore id)

/-- What happens to the hash. -/
theorem Moves.openMods (h : Moves cfg t pc t' pc') :
    t'.openMods = t.openMods ∨ (∃ i, t'.openMods = t.openMods.filter (fun e => e.1 != i)) ∨
      ∃ m p uri, pc = .add p uri m ∧ pc' = .unlock ∧
        (t'.core m.slot).refs = (t.core m.slot).refs ∧
          t'.openMods = (m.slot, u32 (t'.core m.slot).key) :: t.openMods := by
  cases h with
  | quiet hcore hopen hrole => exact Or.inl hopen
  | reopens j p uri hpc hpc' hfind hcore hopen => exact Or.inl hopen
  | takes j p uri hpc hfree hcore hopen hdef hrole => exact Or.inl hopen
  | fills m p uri hpc hpc' hcore hopen => exact Or.inl hopen
  | collides m key p uri hpc hkey hcore hopen hrole => exact Or.inl hopen
  | adds m key p uri hpc hpc' hkey hcore hopen =>
      refine Or.inr (Or.inr ⟨m, p, uri, hpc, hpc', ?_, ?_⟩)
      · rw [hcore, Function.update_self]
      · rw [hopen, hcore, Function.update_self]
  | closes handle j hpc hpc' hfind hpos hcore hopen => exact Or.inl hopen
  | closesLast handle j hpc hfind hone hcore hopen hrole => exact Or.inr (Or.inl ⟨j, hopen⟩)
  | invokes handle j hpc hfind hcore hopen hrole => exact Or.inl hopen
  | ends handle m nErr hpc hpc' hpos hcore hopen => exact Or.inl hopen
  | endsLast handle m nErr hpc hone hcore hopen hdef hrole => exact Or.inr (Or.inl ⟨m.slot, hopen⟩)
  | clears c m hpc hcore hopen hrole => exact Or.inl hopen

/-- A slot that has been filled in by the thread. -/
theorem Moves.filled (h : Moves cfg t pc t' pc') {m : Mod} (hm : pc'.role = .filled m) :
    (pc.role = .filled m ∧ t'.core = t.core) ∨
      ((t'.core m.slot).refs = 1 ∧ (t'.core m.slot).key = cfg.slotKey m.slot ∧
        ∃ p uri, pc = .symbol p uri m ∧ pc' = .entry p uri m) := by
  cases h with
  | quiet hcore hopen hrole =>
      generalize pc.role = r at hrole ⊢
      rw [hm] at hrole
      cases hrole
      exact Or.inl ⟨rfl, hcore⟩
  | reopens i p uri hpc hpc' hfind hcore hopen =>
      rw [hpc'] at hm
      cases hm
  | takes i p uri hpc hfree hcore hopen hdef hrole =>
      rw [hrole] at hm
      cases hm
  | fills m' p uri hpc hpc' hcore hopen =>
      rw [hpc'] at hm
      obtain rfl := Role.filled.inj hm
      rw [hcore, Function.update_self]
      exact Or.inr ⟨rfl, rfl, p, uri, hpc, hpc'⟩
  | collides m' key p uri hpc hkey hcore hopen hrole =>
      rw [hrole] at hm
      cases hm
  | adds m' key p uri hpc hpc' hkey hcore hopen =>
      rw [hpc'] at hm
      cases hm
  | closes handle i hpc hpc' hfind hpos hcore hopen =>
      rw [hpc'] at hm
      cases hm
  | closesLast handle i hpc hfind hone hcore hopen hrole =>
      rw [hrole] at hm
      cases hm
  | invokes handle i hpc hfind hcore hopen hrole =>
      rw [hrole] at hm
      cases hm
  | ends handle m' nErr hpc hpc' hpos hcore hopen =>
      rw [hpc'] at hm
      cases hm
  | endsLast handle m' nErr hpc hone hcore hopen hdef hrole =>
      rw [hrole] at hm
      cases hm
  | clears c m' hpc hcore hopen hrole =>
      rw [hrole] at hm
      cases hm

/-- A close of a client clears the key of what it unloads. -/
theorem Moves.tables (h : Moves cfg t pc t' pc') {handle : ℕ} {m : Mod}
    (hm : pc'.role = .unloads (.table handle) m) :
    pc.role = .unloads (.table handle) m ∨ (t'.core m.slot).key = 0 := by
  cases h with
  | quiet hcore hopen hrole =>
      generalize pc.role = r at hrole ⊢
      rw [hm] at hrole
      cases hrole
      exact Or.inl rfl
  | reopens i p uri hpc hpc' hfind hcore hopen =>
      rw [hpc'] at hm
      cases hm
  | takes i p uri hpc hfree hcore hopen hdef hrole =>
      rw [hrole] at hm
      cases hm
  | fills m' p uri hpc hpc' hcore hopen =>
      rw [hpc'] at hm
      cases hm
  | collides m' key p uri hpc hkey hcore hopen hrole =>
      rw [hrole] at hm
      cases hm
  | adds m' key p uri hpc hpc' hkey hcore hopen =>
      rw [hpc'] at hm
      cases hm
  | closes handle i hpc hpc' hfind hpos hcore hopen =>
      rw [hpc'] at hm
      cases hm
  | closesLast handle' i hpc hfind hone hcore hopen hrole =>
      rw [hrole] at hm
      obtain ⟨-, rfl⟩ := Role.unloads.inj hm
      rw [hcore, Function.update_self]
      exact Or.inr rfl
  | invokes handle i hpc hfind hcore hopen hrole =>
      rw [hrole] at hm
      cases hm
  | ends handle m' nErr hpc hpc' hpos hcore hopen =>
      rw [hpc'] at hm
      cases hm
  | endsLast handle m' nErr hpc hone hcore hopen hdef hrole =>
      rw [hrole] at hm
      cases hm
  | clears c m' hpc hcore hopen hrole =>
      rw [hrole] at hm
      cases hm

/-- A module that leaves the hash loses its key or is unloaded by the thread. -/
theorem Moves.leaves (h : Moves cfg t pc t' pc') {i : Slot} (hi : t.isOpen i = true) :
    t'.isOpen i = true ∨ (t'.core i).key = 0 ∨
      pc'.role.owns = some ⟨i, (t'.core i).number⟩ := by
  cases h with
  | quiet hcore hopen hrole => exact Or.inl ((isOpen_congr hopen i).trans hi)
  | reopens j p uri hpc hpc' hfind hcore hopen => exact Or.inl ((isOpen_congr hopen i).trans hi)
  | takes j p uri hpc hfree hcore hopen hdef hrole =>
      exact Or.inl ((isOpen_congr hopen i).trans hi)
  | fills m p uri hpc hpc' hcore hopen => exact Or.inl ((isOpen_congr hopen i).trans hi)
  | collides m key p uri hpc hkey hcore hopen hrole =>
      exact Or.inl ((isOpen_congr hopen i).trans hi)
  | adds m key p uri hpc hpc' hkey hcore hopen =>
      exact Or.inl ((isOpen_cons hopen i).mpr (Or.inr hi))
  | closes handle j hpc hpc' hfind hpos hcore hopen =>
      exact Or.inl ((isOpen_congr hopen i).trans hi)
  | closesLast handle j hpc hfind hone hcore hopen hrole =>
      by_cases hj : i = j
      · rw [hcore, hj, Function.update_self]
        exact Or.inr (Or.inl rfl)
      · exact Or.inl ((isOpen_filter hopen i).mpr ⟨hi, hj⟩)
  | invokes handle j hpc hfind hcore hopen hrole =>
      exact Or.inl ((isOpen_congr hopen i).trans hi)
  | ends handle m nErr hpc hpc' hpos hcore hopen =>
      exact Or.inl ((isOpen_congr hopen i).trans hi)
  | endsLast handle m nErr hpc hone hcore hopen hdef hrole =>
      by_cases hj : i = m.slot
      · rw [hcore, hj, Function.update_self, hrole]
        exact Or.inr (Or.inr rfl)
      · exact Or.inl ((isOpen_filter hopen i).mpr ⟨hi, hj⟩)
  | clears c m hpc hcore hopen hrole => exact Or.inl ((isOpen_congr hopen i).trans hi)

/-- A module that its thread gives up is in the hash, or has no key. -/
theorem Moves.gives_up (h : Moves cfg t pc t' pc') {m : Mod} (hm : pc.role.owns = some m) :
    pc'.role.owns = some m ∨ t'.isOpen m.slot = true ∨ (t'.core m.slot).key = 0 ∨
      ∃ handle, pc.role = .unloads (.table handle) m ∧ t'.core = t.core := by
  cases h with
  | quiet hcore hopen hrole =>
      generalize hr : pc.role = r at hm hrole
      generalize pc'.role = r' at hrole
      cases hrole with
      | same => exact Or.inl hm
      | gives m' => exact Or.inl hm
      | fails p uri nErr dlErr m' => exact Or.inl hm
      | leaves handle m' =>
          obtain rfl := Option.some.inj hm
          exact Or.inr (Or.inr (Or.inr ⟨handle, rfl, hcore⟩))
  | reopens i p uri hpc hpc' hfind hcore hopen =>
      rw [hpc] at hm
      cases hm
  | takes i p uri hpc hfree hcore hopen hdef hrole =>
      rw [hpc] at hm
      cases hm
  | fills m' p uri hpc hpc' hcore hopen =>
      rw [hpc] at hm
      rw [hpc']
      exact Or.inl hm
  | collides m' key p uri hpc hkey hcore hopen hrole =>
      rw [hpc] at hm
      rw [hrole]
      exact Or.inl hm
  | adds m' key p uri hpc hpc' hkey hcore hopen =>
      rw [hpc] at hm
      obtain rfl := Option.some.inj hm
      exact Or.inr (Or.inl ((isOpen_cons hopen m'.slot).mpr (Or.inl rfl)))
  | closes handle i hpc hpc' hfind hpos hcore hopen =>
      rw [hpc] at hm
      cases hm
  | closesLast handle i hpc hfind hone hcore hopen hrole =>
      rw [hpc] at hm
      cases hm
  | invokes handle i hpc hfind hcore hopen hrole =>
      rw [hpc] at hm
      cases hm
  | ends handle m' nErr hpc hpc' hpos hcore hopen =>
      rw [hpc] at hm
      cases hm
  | endsLast handle m' nErr hpc hone hcore hopen hdef hrole =>
      rw [hpc] at hm
      cases hm
  | clears c m' hpc hcore hopen hrole =>
      rw [hpc] at hm
      obtain rfl := Option.some.inj hm
      rw [hcore, Function.update_self]
      exact Or.inr (Or.inr (Or.inl rfl))

/-- What is free has no key. -/
theorem nextAvailable_key {l : Slot} (h : t.nextAvailableRevHandle = some l) :
    (t.core l).key = 0 :=
  beq_iff_eq.mp (List.find?_some (p := fun i => (t.slots i).key == 0) h)

/-- How a slot can lose its key. -/
theorem Moves.keeps_key (h : Moves cfg t pc t' pc') {l : Slot} (hl : (t.core l).key ≠ 0) :
    (t'.core l).key ≠ 0 ∨
      (∃ m p uri, pc = .symbol p uri m ∧ pc' = .entry p uri m ∧ m.slot = l) ∨
        (t.isOpen l = true ∧ t'.isOpen l = false) ∨
          ∃ m, pc.role.owns = some m ∧ m.slot = l ∧ pc'.role = .none := by
  have hkeeps : ∀ {j : Slot} {c : SlotCore}, t'.core = Function.update t.core j c →
      (c.key = (t.core j).key ∨ l ≠ j) → (t'.core l).key ≠ 0 := by
    intro j c hcore hc
    rw [hcore]
    by_cases hj : l = j
    · rw [hj, Function.update_self, hc.resolve_right (not_not_intro hj), ← hj]
      exact hl
    · rwa [Function.update_of_ne hj]
  cases h with
  | quiet hcore hopen hrole => exact Or.inl (hcore ▸ hl)
  | reopens j p uri hpc hpc' hfind hcore hopen => exact Or.inl (hkeeps hcore (Or.inl rfl))
  | takes j p uri hpc hfree hcore hopen hdef hrole =>
      refine Or.inl (hkeeps hcore (Or.inr ?_))
      rintro rfl
      exact hl (nextAvailable_key hfree)
  | fills m p uri hpc hpc' hcore hopen =>
      by_cases hj : l = m.slot
      · exact Or.inr (Or.inl ⟨m, p, uri, hpc, hpc', hj.symm⟩)
      · exact Or.inl (hkeeps hcore (Or.inr hj))
  | collides m key p uri hpc hkey hcore hopen hrole =>
      left
      rw [hcore]
      by_cases hj : l = m.slot
      · rw [hj, Function.update_self]
        exact (Nat.pos_of_ne_zero (hj ▸ hl) |>.trans_le hkey).ne'
      · rwa [Function.update_of_ne hj]
  | adds m key p uri hpc hpc' hkey hcore hopen =>
      left
      rw [hcore]
      by_cases hj : l = m.slot
      · rw [hj, Function.update_self]
        exact (Nat.pos_of_ne_zero (hj ▸ hl) |>.trans_le hkey).ne'
      · rwa [Function.update_of_ne hj]
  | closes handle j hpc hpc' hfind hpos hcore hopen => exact Or.inl (hkeeps hcore (Or.inl rfl))
  | closesLast handle j hpc hfind hone hcore hopen hrole =>
      by_cases hj : l = j
      · subst hj
        refine Or.inr (Or.inr (Or.inl ⟨find_isOpen hfind, Bool.eq_false_iff.mpr ?_⟩))
        exact fun hopen' => ((isOpen_filter hopen l).mp hopen').2 rfl
      · exact Or.inl (hkeeps hcore (Or.inr hj))
  | invokes handle j hpc hfind hcore hopen hrole => exact Or.inl (hkeeps hcore (Or.inl rfl))
  | ends handle m nErr hpc hpc' hpos hcore hopen => exact Or.inl (hkeeps hcore (Or.inl rfl))
  | endsLast handle m nErr hpc hone hcore hopen hdef hrole =>
      exact Or.inl (hkeeps hcore (Or.inl rfl))
  | clears c m hpc hcore hopen hrole =>
      by_cases hj : l = m.slot
      · exact Or.inr (Or.inr (Or.inr ⟨m, by rw [hpc]; rfl, hj.symm, hrole⟩))
      · exact Or.inl (hkeeps hcore (Or.inr hj))

/-- A thread that newly unloads a module: its open has failed, its client has closed it, or the
invocation of the module in this slot has ended. -/
theorem Moves.unloads (h : Moves cfg t pc t' pc') {c : Closer} {m : Mod}
    (hm : pc'.role = .unloads c m) :
    pc.role = .unloads c m ∨ (∃ p uri nErr dlErr, c = .failed p uri nErr dlErr) ∨
      (∃ handle, c = .table handle) ∨
        ∃ handle asked nErr, c = .invoke handle asked nErr ∧ pc = .ended handle asked nErr ∧
          m = ⟨asked.slot, (t.core asked.slot).number⟩ ∧
            (t'.core m.slot).key = (t.core m.slot).key ∧
              (t'.undefined = false → t.isOpen m.slot = true) := by
  cases h with
  | quiet hcore hopen hrole =>
      generalize pc.role = r at hrole ⊢
      rw [hm] at hrole
      cases hrole with
      | same => exact Or.inl rfl
      | fails p uri nErr dlErr => exact Or.inr (Or.inl ⟨p, uri, nErr, dlErr, rfl⟩)
  | reopens i p uri hpc hpc' hfind hcore hopen =>
      rw [hpc'] at hm
      cases hm
  | takes i p uri hpc hfree hcore hopen hdef hrole =>
      rw [hrole] at hm
      cases hm
  | fills m' p uri hpc hpc' hcore hopen =>
      rw [hpc'] at hm
      cases hm
  | collides m' key p uri hpc hkey hcore hopen hrole =>
      rw [hrole] at hm
      cases hm
  | adds m' key p uri hpc hpc' hkey hcore hopen =>
      rw [hpc'] at hm
      cases hm
  | closes handle i hpc hpc' hfind hpos hcore hopen =>
      rw [hpc'] at hm
      cases hm
  | closesLast handle' i hpc hfind hone hcore hopen hrole =>
      rw [hrole] at hm
      obtain ⟨rfl, -⟩ := Role.unloads.inj hm
      exact Or.inr (Or.inr (Or.inl ⟨handle', rfl⟩))
  | invokes handle i hpc hfind hcore hopen hrole =>
      rw [hrole] at hm
      cases hm
  | ends handle m' nErr hpc hpc' hpos hcore hopen =>
      rw [hpc'] at hm
      cases hm
  | endsLast handle m' nErr hpc hone hcore hopen hdef hrole =>
      rw [hrole] at hm
      obtain ⟨rfl, rfl⟩ := Role.unloads.inj hm
      refine Or.inr (Or.inr (Or.inr ⟨handle, m', nErr, rfl, hpc, rfl, ?_, hdef⟩))
      rw [hcore, Function.update_self]
  | clears c m' hpc hcore hopen hrole =>
      rw [hrole] at hm
      cases hm

/-- The key of a module that is about to come into the hash does not get smaller. -/
theorem Moves.filled_key (h : Moves cfg t pc t' pc') {m : Mod} (hm : pc.role = .filled m) :
    (t.core m.slot).key ≤ (t'.core m.slot).key := by
  cases h with
  | quiet hcore hopen hrole => rw [hcore]
  | reopens i p uri hpc hpc' hfind hcore hopen =>
      rw [hpc] at hm
      cases hm
  | takes i p uri hpc hfree hcore hopen hdef hrole =>
      rw [hpc] at hm
      cases hm
  | fills m' p uri hpc hpc' hcore hopen =>
      rw [hpc] at hm
      cases hm
  | collides m' key p uri hpc hkey hcore hopen hrole =>
      rw [hpc] at hm
      obtain rfl := Role.filled.inj hm
      rwa [hcore, Function.update_self]
  | adds m' key p uri hpc hpc' hkey hcore hopen =>
      rw [hpc] at hm
      obtain rfl := Role.filled.inj hm
      rwa [hcore, Function.update_self]
  | closes handle i hpc hpc' hfind hpos hcore hopen =>
      rw [hpc] at hm
      cases hm
  | closesLast handle' i hpc hfind hone hcore hopen hrole =>
      rw [hpc] at hm
      cases hm
  | invokes handle i hpc hfind hcore hopen hrole =>
      rw [hpc] at hm
      cases hm
  | ends handle m' nErr hpc hpc' hpos hcore hopen =>
      rw [hpc] at hm
      cases hm
  | endsLast handle m' nErr hpc hone hcore hopen hdef hrole =>
      rw [hpc] at hm
      cases hm
  | clears c m' hpc hcore hopen hrole =>
      rw [hpc] at hm
      cases hm

/-- An invocation starts on an open module. -/
theorem Moves.runs (h : Moves cfg t pc t' pc') {m : Mod} (hm : pc'.role = .runs m) :
    pc.role = .runs m ∨ t.isOpen m.slot = true := by
  cases h with
  | quiet hcore hopen hrole =>
      generalize pc.role = r at hrole ⊢
      rw [hm] at hrole
      cases hrole
      exact Or.inl rfl
  | reopens i p uri hpc hpc' hfind hcore hopen =>
      rw [hpc'] at hm
      cases hm
  | takes i p uri hpc hfree hcore hopen hdef hrole =>
      rw [hrole] at hm
      cases hm
  | fills m' p uri hpc hpc' hcore hopen =>
      rw [hpc'] at hm
      cases hm
  | collides m' key p uri hpc hkey hcore hopen hrole =>
      rw [hrole] at hm
      cases hm
  | adds m' key p uri hpc hpc' hkey hcore hopen =>
      rw [hpc'] at hm
      cases hm
  | closes handle i hpc hpc' hfind hpos hcore hopen =>
      rw [hpc'] at hm
      cases hm
  | closesLast handle' i hpc hfind hone hcore hopen hrole =>
      rw [hrole] at hm
      cases hm
  | invokes handle i hpc hfind hcore hopen hrole =>
      rw [hrole] at hm
      obtain rfl := Role.runs.inj hm
      exact Or.inr (find_isOpen hfind)
  | ends handle m' nErr hpc hpc' hpos hcore hopen =>
      rw [hpc'] at hm
      cases hm
  | endsLast handle m' nErr hpc hone hcore hopen hdef hrole =>
      rw [hrole] at hm
      cases hm
  | clears c m' hpc hcore hopen hrole =>
      rw [hrole] at hm
      cases hm

/-- The thread takes the last reference of the module in slot `l`. -/
def LastReference (t : Table) (pc : Pc) (l : Slot) : Prop :=
  (t.core l).refs = 1 ∧ ((∃ handle, pc = .close handle ∧ t.find handle = some l) ∨
    ∃ handle asked nErr, pc = .ended handle asked nErr ∧ asked.slot = l)

/-- A module that a thread newly owns has just got its slot, or has lost its last reference. -/
theorem Moves.owns_cases (h : Moves cfg t pc t' pc') {m : Mod} (hm : pc'.role.owns = some m) :
    pc.role.owns = some m ∨
      (∃ p uri, pc = .take p uri ∧ t.nextAvailableRevHandle = some m.slot) ∨
        LastReference t pc m.slot := by
  cases h with
  | quiet hcore hopen hrole => exact Or.inl (hrole.owns hm)
  | reopens i p uri hpc hpc' hfind hcore hopen =>
      rw [hpc'] at hm
      cases hm
  | takes i p uri hpc hfree hcore hopen hdef hrole =>
      rw [hrole] at hm
      obtain rfl := Option.some.inj hm
      exact Or.inr (Or.inl ⟨p, uri, hpc, hfree⟩)
  | fills m' p uri hpc hpc' hcore hopen =>
      rw [hpc'] at hm
      rw [hpc]
      exact Or.inl hm
  | collides m' key p uri hpc hkey hcore hopen hrole =>
      rw [hrole] at hm
      rw [hpc]
      exact Or.inl hm
  | adds m' key p uri hpc hpc' hkey hcore hopen =>
      rw [hpc'] at hm
      cases hm
  | closes handle i hpc hpc' hfind hpos hcore hopen =>
      rw [hpc'] at hm
      cases hm
  | closesLast handle i hpc hfind hone hcore hopen hrole =>
      rw [hrole] at hm
      obtain rfl := Option.some.inj hm
      exact Or.inr (Or.inr ⟨hone, Or.inl ⟨handle, hpc, hfind⟩⟩)
  | invokes handle i hpc hfind hcore hopen hrole =>
      rw [hrole] at hm
      cases hm
  | ends handle m' nErr hpc hpc' hpos hcore hopen =>
      rw [hpc'] at hm
      cases hm
  | endsLast handle m' nErr hpc hone hcore hopen hdef hrole =>
      rw [hrole] at hm
      obtain rfl := Option.some.inj hm
      exact Or.inr (Or.inr ⟨hone, Or.inr ⟨handle, m', nErr, hpc, rfl⟩⟩)
  | clears c m' hpc hcore hopen hrole =>
      rw [hrole] at hm
      cases hm

/-- A module leaves the hash with its last reference. -/
theorem Moves.closed (h : Moves cfg t pc t' pc') {l : Slot} (hl : t.isOpen l = true) :
    t'.isOpen l = true ∨ (LastReference t pc l ∧ ∃ c m, pc'.role = .unloads c m) := by
  cases h with
  | quiet hcore hopen hrole => exact Or.inl ((isOpen_congr hopen l).trans hl)
  | reopens j p uri hpc hpc' hfind hcore hopen => exact Or.inl ((isOpen_congr hopen l).trans hl)
  | takes j p uri hpc hfree hcore hopen hdef hrole =>
      exact Or.inl ((isOpen_congr hopen l).trans hl)
  | fills m p uri hpc hpc' hcore hopen => exact Or.inl ((isOpen_congr hopen l).trans hl)
  | collides m key p uri hpc hkey hcore hopen hrole =>
      exact Or.inl ((isOpen_congr hopen l).trans hl)
  | adds m key p uri hpc hpc' hkey hcore hopen =>
      exact Or.inl ((isOpen_cons hopen l).mpr (Or.inr hl))
  | closes handle j hpc hpc' hfind hpos hcore hopen =>
      exact Or.inl ((isOpen_congr hopen l).trans hl)
  | closesLast handle j hpc hfind hone hcore hopen hrole =>
      by_cases hj : l = j
      · subst hj
        exact Or.inr ⟨⟨hone, Or.inl ⟨handle, hpc, hfind⟩⟩, _, _, hrole⟩
      · exact Or.inl ((isOpen_filter hopen l).mpr ⟨hl, hj⟩)
  | invokes handle j hpc hfind hcore hopen hrole =>
      exact Or.inl ((isOpen_congr hopen l).trans hl)
  | ends handle m nErr hpc hpc' hpos hcore hopen =>
      exact Or.inl ((isOpen_congr hopen l).trans hl)
  | endsLast handle m nErr hpc hone hcore hopen hdef hrole =>
      by_cases hj : l = m.slot
      · subst hj
        exact Or.inr ⟨⟨hone, Or.inr ⟨handle, m, nErr, hpc, rfl⟩⟩, _, _, hrole⟩
      · exact Or.inl ((isOpen_filter hopen l).mpr ⟨hl, hj⟩)
  | clears c m hpc hcore hopen hrole => exact Or.inl ((isOpen_congr hopen l).trans hl)

end Moves

/-! ### The invariant -/

variable {ι : Type}

/-- The module is still the one in its slot. -/
def Table.holds (t : Table) (m : Mod) : Prop := (t.core m.slot).number = m.number

theorem mod_eq {t : Table} {m m' : Mod} (hslot : m'.slot = m.slot) (hm : t.holds m)
    (hm' : t.holds m') : m' = m := by
  have hnumber : m'.number = m.number := by
    rw [← hm', hslot, hm]
  cases m
  cases m'
  simp only at hslot hnumber
  rw [hslot, hnumber]

/-- What holds in every state of every run. -/
structure Inv (s : State ι) : Prop where
  bound : ∀ j m, (s.pc j).role.uses = some m → m.number ≤ (s.table.core m.slot).number
  unlocked : s.table.revLock = false → ∀ j, (s.pc j).locked = false
  alone : ∀ j k, (s.pc j).locked = true → (s.pc k).locked = true → j = k
  current : ∀ j m, (s.pc j).role = .opens m ∨ (s.pc j).role = .filled m → s.table.holds m
  single : ∀ j k m, (s.pc j).role.owns = some m → (s.pc k).role.owns = some m →
    s.table.holds m → j = k
  outside : ∀ j m, (s.pc j).role.owns = some m → s.table.holds m → s.table.isOpen m.slot = false
  cleared : ∀ j handle m, (s.pc j).role = .unloads (.table handle) m → s.table.holds m →
    (s.table.core m.slot).key = 0
  owned : ∀ i, (s.table.core i).key ≠ 0 → s.table.isOpen i = true ∨
    ∃ j, (s.pc j).role.owns = some ⟨i, (s.table.core i).number⟩
  filled : ∀ j m, (s.pc j).role = .filled m → 1 ≤ (s.table.core m.slot).refs
  live : ∀ e ∈ s.table.openMods, 1 ≤ (s.table.core e.1).refs ∧
    ((s.table.core e.1).key ≠ 0 → u32 (s.table.core e.1).key = e.2)
  distinct : (s.table.openMods.map Prod.fst).Nodup

theorem inv_init : Inv (init : State ι) := by
  constructor
  · intro j m h
    cases h
  · exact fun _ _ => rfl
  · intro j k h
    cases h
  · intro j m h
    rcases h with h | h <;> cases h
  · intro j k m h
    cases h
  · intro j m h
    cases h
  · intro j handle m h
    cases h
  · exact fun i h => absurd rfl h
  · intro j m h
    cases h
  · intro e he
    cases he
  · exact List.nodup_nil

section Step

variable [DecidableEq ι] {cfg : Config} {s s' : State ι} {i : ι} {pc' : Pc}

/-- A step of thread `i`, as the proofs of the invariant use it. -/
structure Stepped (cfg : Config) (s s' : State ι) (i : ι) (pc' : Pc) : Prop where
  pc_eq : s'.pc = Function.update s.pc i pc'
  moves : Moves cfg s.table (s.pc i) s'.table pc'
  locks : Locks s.table (s.pc i) s'.table pc'

theorem Stepped.self (h : Stepped cfg s s' i pc') : s'.pc i = pc' := by
  rw [h.pc_eq, Function.update_self]

theorem Stepped.other (h : Stepped cfg s s' i pc') {j : ι} (hj : j ≠ i) : s'.pc j = s.pc j := by
  rw [h.pc_eq, Function.update_of_ne hj]

/-- A module used before is in its slot before when it is in its slot after. -/
theorem Stepped.holds (h : Stepped cfg s s' i pc') {m : Mod}
    (hbound : m.number ≤ (s.table.core m.slot).number) (hm : s'.table.holds m) :
    s.table.holds m :=
  le_antisymm ((h.moves.number_le m.slot).trans_eq hm) hbound

theorem Stepped.bound (h : Stepped cfg s s' i pc') (hs : Inv s) (j : ι) (m : Mod)
    (hm : (s'.pc j).role.uses = some m) : m.number ≤ (s'.table.core m.slot).number := by
  by_cases hj : j = i
  · subst hj
    rw [h.self] at hm
    obtain hold | hnew := h.moves.uses hm
    · exact (hs.bound j m hold).trans (h.moves.number_le m.slot)
    · exact hnew.le
  · rw [h.other hj] at hm
    exact (hs.bound j m hm).trans (h.moves.number_le m.slot)

theorem Stepped.unlocked (h : Stepped cfg s s' i pc') (hs : Inv s)
    (hrev : s'.table.revLock = false) (j : ι) : (s'.pc j).locked = false := by
  have hothers : ∀ j, j ≠ i → (s.pc j).locked = false := by
    intro j hj
    cases h.locks with
    | keeps hrev' hlocked => exact hs.unlocked (hrev' ▸ hrev) j
    | locks hfree hrev' hlocked hlocked' =>
        rw [hrev'] at hrev
        cases hrev
    | unlocks hrev' hlocked hlocked' =>
        rw [Bool.eq_false_iff]
        exact fun hj' => hj (hs.alone j i hj' hlocked)
  by_cases hj : j = i
  · rw [hj, h.self]
    cases h.locks with
    | keeps hrev' hlocked => exact hlocked ▸ hs.unlocked (hrev' ▸ hrev) i
    | locks hfree hrev' hlocked hlocked' =>
        rw [hrev'] at hrev
        cases hrev
    | unlocks hrev' hlocked hlocked' => exact hlocked'
  · rw [h.other hj]
    exact hothers j hj

theorem Stepped.alone (h : Stepped cfg s s' i pc') (hs : Inv s) (j k : ι)
    (hj : (s'.pc j).locked = true) (hk : (s'.pc k).locked = true) : j = k := by
  -- nobody else holds the lock when the thread holds it afterwards
  have hself : pc'.locked = true → ∀ l, l ≠ i → (s.pc l).locked = false := by
    intro hlocked l hl
    rw [Bool.eq_false_iff]
    intro hl'
    cases h.locks with
    | keeps hrev heq => exact hl (hs.alone l i hl' (heq ▸ hlocked))
    | locks hfree hrev hun hlocked' =>
        rw [hs.unlocked hfree l] at hl'
        cases hl'
    | unlocks hrev hlk hlocked' =>
        rw [hlocked'] at hlocked
        cases hlocked
  by_cases hji : j = i
  · by_cases hki : k = i
    · rw [hji, hki]
    · rw [hji, h.self] at hj
      rw [h.other hki, hself hj k hki] at hk
      cases hk
  · rw [h.other hji] at hj
    by_cases hki : k = i
    · rw [hki, h.self] at hk
      rw [hself hk j hji] at hj
      cases hj
    · rw [h.other hki] at hk
      exact hs.alone j k hj hk

/-- A module that is being opened by the thread was opened by it before, or has just got its slot. -/
theorem Moves.opens {t t' : Table} {pc pc' : Pc} (h : Moves cfg t pc t' pc') {m : Mod}
    (hm : pc'.role = .opens m ∨ pc'.role = .filled m) :
    (pc.role = .opens m ∨ pc.role = .filled m) ∨ t'.holds m := by
  cases h with
  | quiet hcore hopen hrole =>
      generalize pc.role = r at hrole ⊢
      generalize pc'.role = r' at hrole hm
      cases hrole with
      | same => exact Or.inl hm
      | gives m' =>
          obtain hm | hm := hm
          · obtain rfl := Role.opens.inj hm
            exact Or.inl (Or.inr rfl)
          · cases hm
      | fails p uri nErr dlErr m' => rcases hm with hm | hm <;> cases hm
      | leaves handle m' => rcases hm with hm | hm <;> cases hm
  | reopens i p uri hpc hpc' hfind hcore hopen =>
      rw [hpc'] at hm
      rcases hm with hm | hm <;> cases hm
  | takes i p uri hpc hfree hcore hopen hdef hrole =>
      rw [hrole] at hm
      obtain hm | hm := hm
      · obtain rfl := Role.opens.inj hm
        right
        unfold Table.holds
        rw [hcore, Function.update_self]
      · cases hm
  | fills m' p uri hpc hpc' hcore hopen =>
      rw [hpc'] at hm
      obtain hm | hm := hm
      · cases hm
      · obtain rfl := Role.filled.inj hm
        rw [hpc]
        exact Or.inl (Or.inl rfl)
  | collides m' key p uri hpc hkey hcore hopen hrole =>
      rw [hrole] at hm
      obtain hm | hm := hm
      · obtain rfl := Role.opens.inj hm
        rw [hpc]
        exact Or.inl (Or.inr rfl)
      · cases hm
  | adds m' key p uri hpc hpc' hkey hcore hopen =>
      rw [hpc'] at hm
      rcases hm with hm | hm <;> cases hm
  | closes handle i hpc hpc' hfind hpos hcore hopen =>
      rw [hpc'] at hm
      rcases hm with hm | hm <;> cases hm
  | closesLast handle i hpc hfind hone hcore hopen hrole =>
      rw [hrole] at hm
      rcases hm with hm | hm <;> cases hm
  | invokes handle i hpc hfind hcore hopen hrole =>
      rw [hrole] at hm
      rcases hm with hm | hm <;> cases hm
  | ends handle m' nErr hpc hpc' hpos hcore hopen =>
      rw [hpc'] at hm
      rcases hm with hm | hm <;> cases hm
  | endsLast handle m' nErr hpc hone hcore hopen hdef hrole =>
      rw [hrole] at hm
      rcases hm with hm | hm <;> cases hm
  | clears c m' hpc hcore hopen hrole =>
      rw [hrole] at hm
      rcases hm with hm | hm <;> cases hm

/-- No other thread opens a module while an open takes a slot. -/
theorem Stepped.current (h : Stepped cfg s s' i pc') (hs : Inv s) (j : ι) (m : Mod)
    (hm : (s'.pc j).role = .opens m ∨ (s'.pc j).role = .filled m) : s'.table.holds m := by
  have hkeeps : ((s.pc j).role = .opens m ∨ (s.pc j).role = .filled m) → s'.table.holds m := by
    intro hold
    obtain hsame | ⟨l, p, uri, hpc, -⟩ := h.moves.number
    · exact (hsame m.slot).trans (hs.current j m hold)
    · have hj : j = i := hs.alone j i (locked_of_role hold) (by rw [hpc]; rfl)
      rw [hj, hpc] at hold
      rcases hold with hold | hold <;> cases hold
  by_cases hj : j = i
  · subst hj
    rw [h.self] at hm
    obtain hold | hnew := h.moves.opens hm
    · exact hkeeps hold
    · exact hnew
  · rw [h.other hj] at hm
    exact hkeeps hm

/-- A module that the thread newly owns belonged to nobody. -/
theorem Stepped.new_owns (h : Stepped cfg s s' i pc') (hs : Inv s)
    (hdef : s'.table.undefined = false) {m : Mod}
    (hm : pc'.role.owns = some m) (hnot : (s.pc i).role.owns ≠ some m) (hholds : s'.table.holds m)
    {j : ι} (hj : (s.pc j).role.owns = some m) : False := by
  obtain hold | hfresh | ⟨hopen, -⟩ := h.moves.owns hdef hm
  · exact hnot hold
  · exact absurd (hs.bound j m (Role.owns_uses hj)) (not_le.mpr hfresh)
  · have hbound := hs.bound j m (Role.owns_uses hj)
    rw [hs.outside j m hj (h.holds hbound hholds)] at hopen
    cases hopen

theorem Stepped.single (h : Stepped cfg s s' i pc') (hs : Inv s)
    (hdef : s'.table.undefined = false) (j k : ι) (m : Mod)
    (hj : (s'.pc j).role.owns = some m) (hk : (s'.pc k).role.owns = some m)
    (hm : s'.table.holds m) : j = k := by
  have hold : ∀ {j k : ι}, (s.pc j).role.owns = some m → (s.pc k).role.owns = some m → j = k :=
    fun hj hk => hs.single _ _ m hj hk (h.holds (hs.bound _ m (Role.owns_uses hj)) hm)
  by_cases hji : j = i
  · by_cases hki : k = i
    · rw [hji, hki]
    · rw [hji, h.self] at hj
      rw [h.other hki] at hk
      by_cases hi : (s.pc i).role.owns = some m
      · rw [hji]
        exact hold hi hk
      · exact (h.new_owns hs hdef hj hi hm hk).elim
  · rw [h.other hji] at hj
    by_cases hki : k = i
    · rw [hki, h.self] at hk
      by_cases hi : (s.pc i).role.owns = some m
      · rw [hki]
        exact hold hj hi
      · exact (h.new_owns hs hdef hk hi hm hj).elim
    · rw [h.other hki] at hk
      exact hold hj hk

theorem Stepped.outside (h : Stepped cfg s s' i pc') (hs : Inv s)
    (hdef : s'.table.undefined = false) (j : ι) (m : Mod)
    (hj : (s'.pc j).role.owns = some m) (hm : s'.table.holds m) :
    s'.table.isOpen m.slot = false := by
  have hkeeps : (s.pc j).role.owns = some m → (s'.pc j).role.owns = some m →
      s'.table.isOpen m.slot = false := by
    intro hold hnew
    have hholds := h.holds (hs.bound j m (Role.owns_uses hold)) hm
    rw [Bool.eq_false_iff]
    intro hopen
    obtain hopen | ⟨m', hrole, hslot, hnone⟩ := h.moves.isOpen hopen
    · rw [hs.outside j m hold hholds] at hopen
      cases hopen
    · -- the module that comes into the hash is this one, and its thread gives it up
      have heq := mod_eq hslot hholds (hs.current i m' (Or.inr hrole))
      have hji : j = i := by
        apply hs.single j i m hold _ hholds
        rw [hrole, heq]
        rfl
      rw [hji, h.self, hnone] at hnew
      cases hnew
  by_cases hji : j = i
  · subst hji
    have hj' := hj
    rw [h.self] at hj'
    obtain hold | hfresh | ⟨-, hclosed⟩ := h.moves.owns hdef hj'
    · exact hkeeps hold hj
    · obtain hsame | ⟨l, p, uri, -, -, hcore, hopen, hclosed, hrole⟩ := h.moves.number
      · unfold Table.holds at hm
        rw [hsame m.slot] at hm
        exact absurd hm hfresh.ne
      · rw [hrole] at hj'
        obtain rfl := Option.some.inj hj'
        exact (isOpen_congr hopen l).trans (hclosed hdef)
    · exact hclosed
  · have hold := hj
    rw [h.other hji] at hold
    exact hkeeps hold hj

theorem Stepped.cleared (h : Stepped cfg s s' i pc') (hs : Inv s) (j : ι) (handle : ℕ) (m : Mod)
    (hj : (s'.pc j).role = .unloads (.table handle) m) (hm : s'.table.holds m) :
    (s'.table.core m.slot).key = 0 := by
  by_contra hne
  have hold : (s.pc j).role = .unloads (.table handle) m := by
    by_cases hji : j = i
    · subst hji
      rw [h.self] at hj
      exact (h.moves.tables hj).resolve_right hne
    · rwa [h.other hji] at hj
  have howns : (s.pc j).role.owns = some m := by rw [hold]; rfl
  have hholds := h.holds (hs.bound j m (Role.owns_uses howns)) hm
  obtain hkey | ⟨m', hrole, hslot, -⟩ := h.moves.key hne
  · rw [hkey] at hne
    exact hne (hs.cleared j handle m hold hholds)
  · have heq := mod_eq hslot hholds (hs.current i m' hrole)
    rw [heq] at hrole
    have hi : (s.pc i).role.owns = some m := by
      obtain hrole | hrole := hrole <;> rw [hrole] <;> rfl
    rw [← hs.single j i m howns hi hholds, hold] at hrole
    rcases hrole with hrole | hrole <;> cases hrole

/-- A slot with a key has had no new module. -/
theorem Stepped.number_of_key (h : Stepped cfg s s' i pc') {l : Slot}
    (hl : (s'.table.core l).key ≠ 0) : (s'.table.core l).number = (s.table.core l).number := by
  obtain hsame | ⟨k, p, uri, -, -, hcore, -⟩ := h.moves.number
  · exact hsame l
  · rw [hcore] at hl ⊢
    by_cases hk : l = k
    · rw [hk, Function.update_self] at hl
      exact absurd rfl hl
    · rw [Function.update_of_ne hk]

theorem Stepped.owned (h : Stepped cfg s s' i pc') (hs : Inv s) (l : Slot)
    (hl : (s'.table.core l).key ≠ 0) : s'.table.isOpen l = true ∨
      ∃ j, (s'.pc j).role.owns = some ⟨l, (s'.table.core l).number⟩ := by
  have hnumber := h.number_of_key hl
  rw [hnumber]
  obtain hkey | ⟨m, hrole, rfl, howns | hopen⟩ := h.moves.key hl
  · obtain hopen | ⟨j, hj⟩ := hs.owned l (hkey ▸ hl)
    · obtain hopen | hzero | howns := h.moves.leaves hopen
      · exact Or.inl hopen
      · exact absurd hzero hl
      · rw [← h.self, hnumber] at howns
        exact Or.inr ⟨i, howns⟩
    · by_cases hji : j = i
      · subst hji
        obtain howns | hopen | hzero | ⟨handle, hrole, -⟩ := h.moves.gives_up hj
        · rw [← h.self] at howns
          exact Or.inr ⟨j, howns⟩
        · exact Or.inl hopen
        · exact absurd hzero hl
        · rw [hkey] at hl
          exact absurd (hs.cleared j handle _ hrole rfl) hl
      · rw [← h.other hji] at hj
        exact Or.inr ⟨j, hj⟩
  · right
    refine ⟨i, ?_⟩
    rw [h.self, howns]
    exact congrArg (fun n => some (Mod.mk m.slot n)) (hs.current i m hrole).symm
  · exact Or.inl hopen

theorem Stepped.filled (h : Stepped cfg s s' i pc') (hs : Inv s)
    (hdef : s'.table.undefined = false) (j : ι) (m : Mod)
    (hj : (s'.pc j).role = .filled m) : 1 ≤ (s'.table.core m.slot).refs := by
  have hkeeps : (s.pc j).role = .filled m → 1 ≤ (s'.table.core m.slot).refs := by
    intro hold
    have howns : (s.pc j).role.owns = some m := by rw [hold]; rfl
    obtain hpos | ⟨p, uri, hpc, -⟩ | ⟨hopen, -⟩ := h.moves.refs hdef (hs.filled j m hold)
    · exact hpos
    · have hji : j = i := hs.alone j i (locked_of_role (Or.inr hold)) (by rw [hpc]; rfl)
      rw [hji, hpc] at hold
      cases hold
    · rw [hs.outside j m howns (hs.current j m (Or.inr hold))] at hopen
      cases hopen
  by_cases hji : j = i
  · subst hji
    rw [h.self] at hj
    obtain ⟨hold, -⟩ | hone := h.moves.filled hj
    · exact hkeeps hold
    · exact hone.1.ge
  · rw [h.other hji] at hj
    exact hkeeps hj

theorem Stepped.live (h : Stepped cfg s s' i pc') (hs : Inv s)
    (hdef : s'.table.undefined = false) (e : Slot × ℕ)
    (he : e ∈ s'.table.openMods) : 1 ≤ (s'.table.core e.1).refs ∧
      ((s'.table.core e.1).key ≠ 0 → u32 (s'.table.core e.1).key = e.2) := by
  have hopen' : s'.table.isOpen e.1 = true := isOpen_iff.mpr ⟨e.2, he⟩
  have hkeeps : e ∈ s.table.openMods → 1 ≤ (s'.table.core e.1).refs ∧
      ((s'.table.core e.1).key ≠ 0 → u32 (s'.table.core e.1).key = e.2) := by
    intro hold
    have hopen : s.table.isOpen e.1 = true := isOpen_iff.mpr ⟨e.2, hold⟩
    constructor
    · obtain hpos | ⟨p, uri, -, hclosed⟩ | ⟨-, hclosed⟩ :=
        h.moves.refs hdef (hs.live e hold).1
      · exact hpos
      · rw [hclosed] at hopen
        cases hopen
      · rw [hclosed] at hopen'
        cases hopen'
    · intro hne
      obtain hkey | ⟨m, hrole, hslot, -⟩ := h.moves.key hne
      · rw [hkey] at hne ⊢
        exact (hs.live e hold).2 hne
      · have howns : (s.pc i).role.owns = some m := by
          obtain hrole | hrole := hrole <;> rw [hrole] <;> rfl
        rw [← hslot, hs.outside i m howns (hs.current i m hrole)] at hopen
        cases hopen
  obtain hsame | ⟨l, hfilter⟩ | ⟨m, p, uri, hpc, -, hrefs, hcons⟩ := h.moves.openMods
  · exact hkeeps (hsame ▸ he)
  · rw [hfilter] at he
    exact hkeeps (List.mem_of_mem_filter he)
  · have hrole : (s.pc i).role = .filled m := by rw [hpc]; rfl
    rw [hcons] at he
    cases he with
    | head => exact ⟨hrefs ▸ hs.filled i m hrole, fun _ => rfl⟩
    | tail _ he => exact hkeeps he

theorem Stepped.distinct (h : Stepped cfg s s' i pc') (hs : Inv s) :
    (s'.table.openMods.map Prod.fst).Nodup := by
  obtain hsame | ⟨l, hfilter⟩ | ⟨m, p, uri, hpc, -, hrefs, hcons⟩ := h.moves.openMods
  · rw [hsame]
    exact hs.distinct
  · rw [hfilter]
    exact hs.distinct.sublist (List.filter_sublist.map Prod.fst)
  · rw [hcons, List.map_cons]
    refine List.nodup_cons.mpr ⟨?_, hs.distinct⟩
    intro hmem
    obtain ⟨⟨l, k⟩, he, rfl⟩ := List.mem_map.mp hmem
    have hopen : s.table.isOpen m.slot = true := isOpen_iff.mpr ⟨k, he⟩
    have hrole : (s.pc i).role = .filled m := by rw [hpc]; rfl
    have howns : (s.pc i).role.owns = some m := by rw [hrole]; rfl
    rw [hs.outside i m howns (hs.current i m (Or.inr hrole))] at hopen
    cases hopen

/-- **Every step keeps the invariant.** -/
theorem Stepped.inv (h : Stepped cfg s s' i pc') (hs : Inv s)
    (hdef : s'.table.undefined = false) : Inv s' :=
  ⟨h.bound hs, h.unlocked hs, h.alone hs, h.current hs, h.single hs hdef, h.outside hs hdef,
    h.cleared hs, h.owned hs, h.filled hs hdef, h.live hs hdef, h.distinct hs⟩

theorem stepped {e : Event ι} (h : step cfg s e = some s') :
    s.table.undefined = false ∧ Stepped cfg s s' e.thread (s'.pc e.thread) := by
  obtain ⟨hdef, pc', hpc, hmoves, hlocks⟩ := step_moves h
  have hself : s'.pc e.thread = pc' := by rw [hpc, Function.update_self]
  rw [hself]
  exact ⟨hdef, hpc, hmoves, hlocks⟩

/-- The invariant, as long as the run has a meaning. -/
theorem inv_step (e : Event ι) (hs : s.table.undefined = false → Inv s)
    (h : step cfg s e = some s') : s'.table.undefined = false → Inv s' := by
  intro hdef
  obtain ⟨hdef', hstepped⟩ := stepped h
  exact hstepped.inv (hs hdef') hdef

theorem inv_run {es : List (Event ι)} (h : Transition.run (step cfg) init es = some s)
    (hdef : s.table.undefined = false) : Inv s := by
  have hstep : ∀ (s : State ι) (e : Event ι) (s' : State ι),
      (s.table.undefined = false → Inv s) → step cfg s e = some s' →
        s'.table.undefined = false → Inv s' := fun _ e _ hs => inv_step e hs
  exact Transition.run_invariant hstep (fun _ => inv_init) h hdef

end Step

end FastRpc.ModTable
