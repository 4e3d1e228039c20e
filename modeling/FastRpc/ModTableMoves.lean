import FastRpc.ModTable

/-! # What a step does to the table of reverse modules

The invariants of the table are about a few data only: the key, the reference count, the number of
modules and of unmatched opens of each slot (`core`), and the hash.  `Role` is what a thread's place
says about the module it works on, and `Moves` lists what a step can do to these data and to the
role of its thread.  `advance_moves` and `enter_moves` are the only proofs that look into the steps
themselves; every invariant is derived from `Moves`. -/

namespace FastRpc.ModTable

/-- What the invariants read of a slot. -/
structure SlotCore where
  key : ℕ
  refs : ℤ
  number : ℕ
  opens : ℤ

/-- What the invariants read of the slots. -/
def Table.core (t : Table) (i : Slot) : SlotCore :=
  ⟨(t.slots i).key, (t.slots i).refs, t.number i, t.opens i⟩

/-- What a thread does with a module: it opens it, has filled in its slot, unloads it, or runs an
invocation of it. -/
inductive Role
  | none
  | opens (m : Mod)
  | filled (m : Mod)
  | unloads (c : Closer) (m : Mod)
  | runs (m : Mod)

/-- The module that only this thread may work on. -/
def Role.owns : Role → Option Mod
  | .opens m => some m
  | .filled m => some m
  | .unloads _ m => some m
  | _ => Option.none

/-- The module that the thread still uses. -/
def Role.uses : Role → Option Mod
  | .runs m => some m
  | r => r.owns

/-- The role changes and the table does not: an open fails, or an unload ends. -/
inductive Role.Passes : Role → Role → Prop
  | same (r : Role) : Passes r r
  | gives (m : Mod) : Passes (.filled m) (.opens m)
  | fails (p : Path) (uri : Str) (nErr dlErr : ℤ) (m : Mod) :
      Passes (.opens m) (.unloads (.failed p uri nErr dlErr) m)
  | leaves (handle : ℕ) (m : Mod) : Passes (.unloads (.table handle) m) .none

/-- The role of a place. -/
def Pc.role : Pc → Role
  | .load _ m => .opens m
  | .symbol _ _ m => .opens m
  | .entry _ _ m => .filled m
  | .add _ _ m => .filled m
  | .fail _ _ (some m) _ _ => .opens m
  | .invoking _ m => .runs m
  | .ended _ m _ => .runs m
  | .finish c m _ => .unloads c m
  | _ => .none

/-- The thread holds `rev_handle_table_lock`. -/
def Pc.locked : Pc → Bool
  | .search _ _ => true
  | .take _ _ => true
  | .load _ _ => true
  | .symbol _ _ _ => true
  | .entry _ _ _ => true
  | .add _ _ _ => true
  | .unlock => true
  | .fail _ _ _ _ _ => true
  | _ => false

/-- What a step can do to the slots, the hash and the role of its thread. -/
inductive Moves (cfg : Config) (t : Table) (pc : Pc) (t' : Table) (pc' : Pc) : Prop
  | quiet (hcore : t'.core = t.core) (hopen : t'.openMods = t.openMods)
      (hrole : pc.role.Passes pc'.role)
  | reopens (i : Slot) (p : Path) (uri : Str) (hpc : pc = .search p uri) (hpc' : pc' = .unlock)
      (hfind : t.openedSlot uri = some i)
      (hcore : t'.core = Function.update t.core i
        { t.core i with refs := (t.core i).refs + 1, opens := (t.core i).opens + 1 })
      (hopen : t'.openMods = t.openMods)
  | takes (i : Slot) (p : Path) (uri : Str) (hpc : pc = .take p uri)
      (hfree : t.nextAvailableRevHandle = some i)
      (hcore : t'.core = Function.update t.core i ⟨0, 0, (t.core i).number + 1, 0⟩)
      (hopen : t'.openMods = t.openMods) (hdef : t'.undefined = false → t.isOpen i = false)
      (hrole : pc'.role = .opens ⟨i, (t.core i).number + 1⟩)
  | fills (m : Mod) (p : Path) (uri : Str) (hpc : pc = .symbol p uri m)
      (hpc' : pc' = .entry p uri m)
      (hcore : t'.core = Function.update t.core m.slot
        ⟨cfg.slotKey m.slot, 1, (t.core m.slot).number, 1⟩)
      (hopen : t'.openMods = t.openMods)
  | collides (m : Mod) (key : ℕ) (p : Path) (uri : Str) (hpc : pc = .add p uri m)
      (hkey : (t.core m.slot).key ≤ key)
      (hcore : t'.core = Function.update t.core m.slot { t.core m.slot with key := key })
      (hopen : t'.openMods = t.openMods) (hrole : pc'.role = .opens m)
  | adds (m : Mod) (key : ℕ) (p : Path) (uri : Str) (hpc : pc = .add p uri m)
      (hpc' : pc' = .unlock) (hkey : (t.core m.slot).key ≤ key)
      (hcore : t'.core = Function.update t.core m.slot { t.core m.slot with key := key })
      (hopen : t'.openMods = (m.slot, u32 key) :: t.openMods)
  | closes (handle : ℕ) (i : Slot) (hpc : pc = .close handle) (hpc' : pc' = .idle)
      (hfind : t.find handle = some i) (hpos : (t.core i).refs - 1 ≠ 0)
      (hcore : t'.core = Function.update t.core i
        { t.core i with refs := (t.core i).refs - 1, opens := (t.core i).opens - 1 })
      (hopen : t'.openMods = t.openMods)
  | closesLast (handle : ℕ) (i : Slot) (hpc : pc = .close handle) (hfind : t.find handle = some i)
      (hone : (t.core i).refs = 1)
      (hcore : t'.core = Function.update t.core i
        ⟨0, 0, (t.core i).number, (t.core i).opens - 1⟩)
      (hopen : t'.openMods = t.openMods.filter (fun e => e.1 != i))
      (hrole : pc'.role = .unloads (.table handle) ⟨i, (t.core i).number⟩)
  | invokes (handle : ℕ) (i : Slot) (hpc : pc = .invoke handle) (hfind : t.find handle = some i)
      (hcore : t'.core = Function.update t.core i { t.core i with refs := (t.core i).refs + 1 })
      (hopen : t'.openMods = t.openMods) (hrole : pc'.role = .runs ⟨i, (t.core i).number⟩)
  | ends (handle : ℕ) (m : Mod) (nErr : ℤ) (hpc : pc = .ended handle m nErr) (hpc' : pc' = .idle)
      (hpos : (t.core m.slot).refs - 1 ≠ 0)
      (hcore : t'.core = Function.update t.core m.slot
        { t.core m.slot with refs := (t.core m.slot).refs - 1 })
      (hopen : t'.openMods = t.openMods)
  | endsLast (handle : ℕ) (m : Mod) (nErr : ℤ) (hpc : pc = .ended handle m nErr)
      (hone : (t.core m.slot).refs = 1)
      (hcore : t'.core = Function.update t.core m.slot { t.core m.slot with refs := 0 })
      (hopen : t'.openMods = t.openMods.filter (fun e => e.1 != m.slot))
      (hdef : t'.undefined = false → t.isOpen m.slot = true)
      (hrole : pc'.role =
        .unloads (.invoke handle m nErr) ⟨m.slot, (t.core m.slot).number⟩)
  | clears (c : Closer) (m : Mod) (hpc : pc = .finish c m .clearKey)
      (hcore : t'.core = Function.update t.core m.slot { t.core m.slot with key := 0 })
      (hopen : t'.openMods = t.openMods) (hrole : pc'.role = .none)

/-- What a step does to the lock. -/
inductive Locks (t : Table) (pc : Pc) (t' : Table) (pc' : Pc) : Prop
  | keeps (hrev : t'.revLock = t.revLock) (hlocked : pc'.locked = pc.locked)
  | locks (hfree : t.revLock = false) (hrev : t'.revLock = true) (hlocked : pc.locked = false)
      (hlocked' : pc'.locked = true)
  | unlocks (hrev : t'.revLock = false) (hlocked : pc.locked = true) (hlocked' : pc'.locked = false)

/-! ### The operations of the table -/

section Table

variable (t : Table) (i : Slot)

@[simp] theorem emit_openMods (o : Obs) : (t.emit o).openMods = t.openMods := rfl

/-- The core behind a change of one slot. -/
theorem core_update {t t' : Table} {i : Slot} {c : SlotCore} (hi : t'.core i = c)
    (hne : ∀ j, j ≠ i → t'.core j = t.core j) : t'.core = Function.update t.core i c := by
  funext j
  by_cases hj : j = i
  · rw [hj, Function.update_self, hi]
  · rw [Function.update_of_ne hj, hne j hj]

theorem setSlot_core (dm : OpenMod) :
    (t.setSlot i dm).core =
      Function.update t.core i ⟨dm.key, dm.refs, (t.core i).number, (t.core i).opens⟩ := by
  apply core_update
  · simp only [Table.core, Table.setSlot, Function.update_self]
  · intro j hj
    simp only [Table.core, Table.setSlot, Function.update_of_ne hj]

/-- A write that keeps the key and the count. -/
theorem setSlot_core_same {dm : OpenMod} (hkey : dm.key = (t.slots i).key)
    (hrefs : dm.refs = (t.slots i).refs) : (t.setSlot i dm).core = t.core := by
  rw [setSlot_core, hkey, hrefs]
  exact Function.update_eq_self i t.core

theorem addRefs_core (n : ℤ) :
    (t.addRefs i n).core =
      Function.update t.core i { t.core i with refs := (t.core i).refs + n } :=
  setSlot_core t i _

theorem take_core (uri : Str) (vals : ParsedUri) :
    (t.take i uri vals).core = Function.update t.core i ⟨0, 0, (t.core i).number + 1, 0⟩ := by
  apply core_update
  · simp only [Table.core, Table.take, Table.setSlot, Function.update_self, OpenMod.zero]
  · intro j hj
    simp only [Table.core, Table.take, Table.setSlot, Function.update_of_ne hj]

theorem fill_core (cfg : Config) (invoke handleInvoke : ℕ) :
    (t.fill cfg i invoke handleInvoke).core =
      Function.update t.core i ⟨cfg.slotKey i, 1, (t.core i).number, 1⟩ := by
  apply core_update
  · simp only [Table.core, Table.fill, Table.setSlot, Function.update_self]
  · intro j hj
    simp only [Table.core, Table.fill, Table.setSlot, Function.update_of_ne hj]

theorem clearKey_core :
    (t.clearKey i).core = Function.update t.core i { t.core i with key := 0 } :=
  setSlot_core t i _

theorem le_freshKey (n key : ℕ) : key ≤ t.freshKey n key := by
  induction n generalizing key with
  | zero => exact le_refl key
  | succ n ih =>
      unfold Table.freshKey
      split_ifs
      · exact (Nat.le_succ key).trans (ih (key + 1))
      · exact le_refl key

end Table

/-! ### The steps -/

section Steps

variable (cfg : Config) (t : Table) (a : Answer)

/-- What an open does outside the lock changes nothing. -/
structure Rests (t : Table) (r : Table × Pc) : Prop where
  core : r.1.core = t.core
  openMods : r.1.openMods = t.openMods
  revLock : r.1.revLock = t.revLock
  role : r.2.role = .none
  locked : r.2.locked = false

theorem rests_startStatic (uri : Str) (dlErr : ℤ) : Rests t (startStatic cfg t uri dlErr) := by
  unfold startStatic
  split_ifs
  · exact ⟨rfl, rfl, rfl, rfl, rfl⟩
  · exact ⟨rfl, rfl, rfl, rfl, rfl⟩

theorem rests_startDynamic (uri : Str) : Rests t (startDynamic cfg t uri a) := by
  unfold startDynamic
  split_ifs
  · exact ⟨rfl, rfl, rfl, rfl, rfl⟩
  · exact ⟨rfl, rfl, rfl, rfl, rfl⟩

theorem rests_startOpen (uri : Str) : Rests t (startOpen cfg t uri a) := by
  unfold startOpen
  split_ifs
  · exact ⟨rfl, rfl, rfl, rfl, rfl⟩
  · exact rests_startDynamic cfg t a uri

theorem rests_afterFailure (p : Path) (uri : Str) (nErr dlErr : ℤ) :
    Rests t (afterFailure cfg t p uri nErr dlErr a) := by
  cases p with
  | override => exact rests_startDynamic cfg t a uri
  | dynamic =>
      unfold afterFailure
      dsimp only
      split_ifs
      · exact ⟨rfl, rfl, rfl, rfl, rfl⟩
      · exact rests_startStatic cfg t uri dlErr
  | static dlErr => exact ⟨rfl, rfl, rfl, rfl, rfl⟩

theorem rests_finished (c : Closer) : Rests t (finished cfg t a c) := by
  cases c with
  | failed p uri nErr dlErr => exact rests_afterFailure cfg t a p uri nErr dlErr
  | table handle => exact ⟨rfl, rfl, rfl, rfl, rfl⟩
  | invoke handle asked nErr => exact ⟨rfl, rfl, rfl, rfl, rfl⟩

/-- A call starts without a module. -/
theorem rests_enter (c : Call) : Rests t (enter cfg t a c) := by
  cases c with
  | openModTableOpen uri => exact rests_startOpen cfg t a uri
  | openModTableClose handle => exact ⟨rfl, rfl, rfl, rfl, rfl⟩
  | openModTableHandleInvoke handle =>
      unfold enter
      dsimp only
      split_ifs
      · exact ⟨rfl, rfl, rfl, rfl, rfl⟩
      · exact ⟨rfl, rfl, rfl, rfl, rfl⟩

theorem take_undefined {t : Table} {i : Slot} {uri : Str} {vals : ParsedUri}
    (h : (t.take i uri vals).undefined = false) : t.isOpen i = false :=
  (Bool.or_eq_false_iff.mp h).2

theorem take_mod (i : Slot) (uri : Str) (vals : ParsedUri) :
    (t.take i uri vals).mod i = ⟨i, (t.core i).number + 1⟩ :=
  congrArg (Mod.mk i) (Function.update_self i _ _)

theorem takeDynamic_moves (p : Path) (uri : Str) {i : Slot}
    (hfree : t.nextAvailableRevHandle = some i) :
    Moves cfg t (.take p uri) (takeDynamic t uri i).1 (takeDynamic t uri i).2 :=
  .takes i p uri rfl hfree (take_core t i _ _) rfl take_undefined
    (congrArg Role.opens (take_mod t i _ _))

theorem takeStatic_moves (p : Path) (uri : Str) {i : Slot}
    (hfree : t.nextAvailableRevHandle = some i) :
    Moves cfg t (.take p uri) (takeStatic cfg t p uri i).1 (takeStatic cfg t p uri i).2 := by
  unfold takeStatic
  dsimp only
  cases (fromStatic (p.table cfg) uri).2 with
  | error nErr =>
      exact .takes i p uri rfl hfree (take_core t i _ _) rfl take_undefined
        (congrArg Role.opens (take_mod t i _ _))
  | ok sm =>
      exact .takes i p uri rfl hfree (take_core t i _ _) rfl take_undefined
        (congrArg Role.opens (take_mod t i _ _))

theorem takeStep_moves (p : Path) (uri : Str) :
    Moves cfg t (.take p uri) (takeStep cfg t p uri).1 (takeStep cfg t p uri).2 := by
  unfold takeStep
  cases hfree : t.nextAvailableRevHandle with
  | none => exact .quiet rfl rfl (.same .none)
  | some i =>
      dsimp only
      by_cases hp : p = .dynamic
      · rw [if_pos hp]
        exact takeDynamic_moves cfg t p uri hfree
      · rw [if_neg hp]
        exact takeStatic_moves cfg t p uri hfree

/-- An open that finds a free slot takes it. -/
theorem takeStep_core (p : Path) (uri : Str) {i : Slot} (hfree : t.nextAvailableRevHandle = some i) :
    (takeStep cfg t p uri).1.core =
      Function.update t.core i ⟨0, 0, (t.core i).number + 1, 0⟩ := by
  unfold takeStep
  rw [hfree]
  dsimp only
  split_ifs
  · exact take_core t i _ _
  · unfold takeStatic
    dsimp only
    cases (fromStatic (p.table cfg) uri).2 with
    | error nErr => exact take_core t i _ _
    | ok sm => exact take_core t i _ _

theorem loadStep_moves (uri : Str) (m : Mod) :
    Moves cfg t (.load uri m) (loadStep t uri m a).1 (loadStep t uri m a).2 := by
  have hcore : (t.setSlot m.slot { t.slots m.slot with
      dlhandle := openLibrary (t.slots m.slot) uri a }).core = t.core :=
    setSlot_core_same t m.slot rfl rfl
  unfold loadStep
  dsimp only
  split_ifs
  · exact .quiet hcore rfl (.same _)
  · exact .quiet hcore rfl (.same _)

theorem symbolStep_moves (p : Path) (uri : Str) (m : Mod) :
    Moves cfg t (.symbol p uri m) (symbolStep cfg t p uri m a).1 (symbolStep cfg t p uri m a).2 := by
  unfold symbolStep
  by_cases hp : p = .dynamic
  · rw [if_pos hp]
    unfold symbolDynamic
    dsimp only
    split_ifs
    · exact .quiet rfl rfl (.same _)
    · exact .fills m p uri rfl (hp ▸ rfl) (fill_core t m.slot cfg _ _) rfl
  · rw [if_neg hp]
    unfold symbolStatic
    cases (fromStatic (p.table cfg) uri).2 with
    | error nErr => exact .quiet rfl rfl (.same _)
    | ok sm => exact .fills m p uri rfl rfl (fill_core t m.slot cfg _ _) rfl

theorem entryStep_moves (p : Path) (uri : Str) (m : Mod) :
    Moves cfg t (.entry p uri m) (entryStep t p uri m a).1 (entryStep t p uri m a).2 := by
  unfold entryStep
  dsimp only
  split_ifs
  · exact .quiet rfl rfl (.same _)
  · exact .quiet rfl rfl (.gives m)
  · exact .quiet (setSlot_core_same t m.slot rfl rfl) rfl (.same _)

theorem addStep_moves (p : Path) (uri : Str) (m : Mod) :
    Moves cfg t (.add p uri m) (addStep cfg t p uri m).1 (addStep cfg t p uri m).2 := by
  unfold addStep
  by_cases hp : p = .dynamic
  · rw [if_pos hp]
    have hkey := le_freshKey t t.openMods.length (t.slots m.slot).key
    unfold Table.addDynamic
    dsimp only
    by_cases hconst : cfg.constMods (u32 (t.freshKey t.openMods.length (t.slots m.slot).key)) = true
    · rw [if_pos hconst]
      exact .collides m _ p uri rfl hkey (setSlot_core t m.slot _) rfl rfl
    · rw [if_neg hconst]
      refine .adds m _ p uri rfl rfl hkey (setSlot_core t m.slot _) ?_
      simp only [emit_openMods, Table.hashAdd, Table.setSlot, Function.update_self]
  · rw [if_neg hp]
    exact .adds m (t.slots m.slot).key p uri rfl rfl (le_refl _)
      (Function.update_eq_self m.slot t.core).symm rfl

theorem dec_refs (i : Slot) (opens : Slot → ℤ) :
    (({ t.addRefs i (-1) with opens := opens } : Table).slots i).refs = (t.core i).refs - 1 :=
  congrArg SlotCore.refs (congrFun (addRefs_core t i (-1)) i |>.trans (Function.update_self i _ _))

/-- The core behind a decrement of `refs`. -/
theorem dec_core (i : Slot) :
    ({ t.addRefs i (-1) with opens := Function.update t.opens i (t.opens i - 1) } : Table).core =
      Function.update t.core i
        { t.core i with refs := (t.core i).refs - 1, opens := (t.core i).opens - 1 } := by
  apply core_update
  · simp only [Table.core, Table.addRefs, Table.setSlot, Function.update_self]
    rfl
  · intro j hj
    simp only [Table.core, Table.addRefs, Table.setSlot, Function.update_of_ne hj]

theorem closeStep_moves (handle : ℕ) :
    Moves cfg t (.close handle) (closeStep t handle).1 (closeStep t handle).2 := by
  unfold closeStep Table.openModTableClose
  cases hfind : t.find handle with
  | none => exact .quiet rfl rfl (.same .none)
  | some i =>
      dsimp only
      by_cases hlast : (({ t.addRefs i (-1) with
          opens := Function.update t.opens i (t.opens i - 1) } : Table).slots i).refs = 0
      · rw [if_pos hlast]
        have hone : (t.core i).refs = 1 := by
          rw [dec_refs] at hlast
          omega
        refine .closesLast handle i rfl hfind hone ?_ rfl rfl
        apply core_update
        · simp only [Table.core, Table.emit, Table.setSlot, Table.hashDel, Table.addRefs,
            Function.update_self] at hlast ⊢
          rw [hlast]
        · intro j hj
          simp only [Table.core, Table.emit, Table.setSlot, Table.hashDel, Table.addRefs,
            Function.update_of_ne hj]
      · rw [if_neg hlast]
        refine .closes handle i rfl rfl hfind ?_ (dec_core t i) rfl
        rwa [← dec_refs]

theorem invokeStep_moves (handle : ℕ) :
    Moves cfg t (.invoke handle) (invokeStep t handle).1 (invokeStep t handle).2 := by
  unfold invokeStep Table.openModTableGetOpen
  cases hfind : t.find handle with
  | none => exact .quiet rfl rfl (.same .none)
  | some i => exact .invokes handle i rfl hfind (addRefs_core t i 1) rfl rfl

theorem endStep_moves (handle : ℕ) (m : Mod) (nErr : ℤ) :
    Moves cfg t (.ended handle m nErr) (endStep t handle m nErr).1 (endStep t handle m nErr).2 := by
  unfold endStep Table.openModClose
  dsimp only
  have hrefs : ((t.addRefs m.slot (-1)).slots m.slot).refs = (t.core m.slot).refs - 1 :=
    dec_refs t m.slot _
  by_cases hlast : ((t.addRefs m.slot (-1)).slots m.slot).refs = 0
  · rw [if_pos hlast]
    have hzero : (t.core m.slot).refs + -1 = 0 := by rwa [hrefs] at hlast
    have hone : (t.core m.slot).refs = 1 := by omega
    refine .endsLast handle m nErr rfl hone ?_ rfl ?_ rfl
    · refine (addRefs_core t m.slot (-1)).trans ?_
      rw [hzero]
    · intro hdef
      have hopen := (Bool.or_eq_false_iff.mp hdef).2
      rwa [Bool.not_eq_false'] at hopen
  · rw [if_neg hlast]
    refine .ends handle m nErr rfl rfl ?_ (addRefs_core t m.slot (-1)) rfl
    rwa [← hrefs]

theorem searchStep_moves (p : Path) (uri : Str) :
    Moves cfg t (.search p uri) (searchStep t p uri).1 (searchStep t p uri).2 := by
  unfold searchStep Table.isReverseHandleOpened
  cases hfind : t.openedSlot uri with
  | none => exact .quiet rfl rfl (.same .none)
  | some i =>
      refine .reopens i p uri rfl rfl hfind ?_ rfl
      apply core_update
      · simp only [Table.core, Table.emit, Table.addRefs, Table.setSlot, Function.update_self]
      · intro j hj
        simp only [Table.core, Table.emit, Table.addRefs, Table.setSlot, Function.update_of_ne hj]

theorem failStep_moves (p : Path) (uri : Str) (m : Option Mod) (nErr dlErr : ℤ) :
    Moves cfg t (.fail p uri m nErr dlErr) (failStep cfg t p uri m nErr dlErr a).1
      (failStep cfg t p uri m nErr dlErr a).2 := by
  cases m with
  | none =>
      have hrests := rests_afterFailure cfg { t with revLock := false } a p uri nErr dlErr
      exact .quiet hrests.core hrests.openMods (hrests.role ▸ .same .none)
  | some m => exact .quiet rfl rfl (.fails p uri nErr dlErr m)

theorem afterCloseEntry_quiet (c : Closer) (m : Mod) (stage : Stage) {t' : Table}
    (hcore : t'.core = t.core) (hopen : t'.openMods = t.openMods) :
    Moves cfg t (.finish c m stage) (afterCloseEntry t' c m).1 (afterCloseEntry t' c m).2 := by
  unfold afterCloseEntry
  split <;> exact .quiet hcore hopen (.same _)

theorem afterDlclose_quiet (c : Closer) (m : Mod) (stage : Stage) (dlErr : ℤ) {t' : Table}
    (hcore : t'.core = t.core) (hopen : t'.openMods = t.openMods) :
    Moves cfg t (.finish c m stage) (afterDlclose t' c m dlErr).1 (afterDlclose t' c m dlErr).2 := by
  unfold afterDlclose
  split
  · exact .quiet hcore hopen (.leaves _ m)
  · exact .quiet hcore hopen (.same _)

theorem finishStep_moves (c : Closer) (m : Mod) (stage : Stage) :
    Moves cfg t (.finish c m stage) (finishStep cfg t a c m stage).1
      (finishStep cfg t a c m stage).2 := by
  cases stage with
  | closeEntry =>
      unfold finishStep
      dsimp only
      split_ifs
      · exact afterCloseEntry_quiet cfg t c m _ rfl rfl
      · exact afterCloseEntry_quiet cfg t c m _ rfl rfl
  | dlclose =>
      unfold finishStep
      dsimp only
      split_ifs
      · exact afterDlclose_quiet cfg t c m _ _ rfl rfl
      · exact afterDlclose_quiet cfg t c m _ _ rfl rfl
  | clearKey =>
      have hrests := rests_finished cfg (t.clearKey m.slot) a c
      exact .clears c m rfl (hrests.core.trans (clearKey_core t m.slot)) hrests.openMods
        hrests.role

/-- **What a step can do.** -/
theorem advance_moves {pc : Pc} {r : Table × Pc} (h : advance cfg t a pc = some r) :
    Moves cfg t pc r.1 r.2 := by
  cases pc with
  | idle => cases h
  | lock p uri =>
      unfold advance at h
      dsimp only at h
      split_ifs at h
      obtain rfl := Option.some.inj h
      exact .quiet rfl rfl (.same .none)
  | search p uri =>
      obtain rfl := Option.some.inj h
      exact searchStep_moves cfg t p uri
  | take p uri =>
      obtain rfl := Option.some.inj h
      exact takeStep_moves cfg t p uri
  | load uri m =>
      obtain rfl := Option.some.inj h
      exact loadStep_moves cfg t a uri m
  | symbol p uri m =>
      obtain rfl := Option.some.inj h
      exact symbolStep_moves cfg t a p uri m
  | entry p uri m =>
      obtain rfl := Option.some.inj h
      exact entryStep_moves cfg t a p uri m
  | add p uri m =>
      obtain rfl := Option.some.inj h
      exact addStep_moves cfg t p uri m
  | unlock =>
      obtain rfl := Option.some.inj h
      exact .quiet rfl rfl (.same .none)
  | fail p uri m nErr dlErr =>
      obtain rfl := Option.some.inj h
      exact failStep_moves cfg t a p uri m nErr dlErr
  | close handle =>
      obtain rfl := Option.some.inj h
      exact closeStep_moves cfg t handle
  | invoke handle =>
      obtain rfl := Option.some.inj h
      exact invokeStep_moves cfg t handle
  | invoking handle m =>
      obtain rfl := Option.some.inj h
      exact .quiet rfl rfl (.same _)
  | ended handle m nErr =>
      obtain rfl := Option.some.inj h
      exact endStep_moves cfg t handle m nErr
  | finish c m stage =>
      obtain rfl := Option.some.inj h
      exact finishStep_moves cfg t a c m stage

theorem takeStep_locks (p : Path) (uri : Str) :
    Locks t (.take p uri) (takeStep cfg t p uri).1 (takeStep cfg t p uri).2 := by
  unfold takeStep
  cases t.nextAvailableRevHandle with
  | none => exact .keeps rfl rfl
  | some i =>
      dsimp only
      split_ifs
      · exact .keeps rfl rfl
      · unfold takeStatic
        dsimp only
        cases (fromStatic (p.table cfg) uri).2 with
        | error nErr => exact .keeps rfl rfl
        | ok sm => exact .keeps rfl rfl

theorem symbolStep_locks (p : Path) (uri : Str) (m : Mod) :
    Locks t (.symbol p uri m) (symbolStep cfg t p uri m a).1 (symbolStep cfg t p uri m a).2 := by
  unfold symbolStep
  by_cases hp : p = .dynamic
  · rw [if_pos hp]
    unfold symbolDynamic
    dsimp only
    split_ifs
    · exact .keeps rfl rfl
    · exact .keeps rfl rfl
  · rw [if_neg hp]
    unfold symbolStatic
    cases (fromStatic (p.table cfg) uri).2 with
    | error nErr => exact .keeps rfl rfl
    | ok sm => exact .keeps rfl rfl

theorem addStep_locks (p : Path) (uri : Str) (m : Mod) :
    Locks t (.add p uri m) (addStep cfg t p uri m).1 (addStep cfg t p uri m).2 := by
  unfold addStep
  by_cases hp : p = .dynamic
  · rw [if_pos hp]
    unfold Table.addDynamic
    dsimp only
    by_cases hconst : cfg.constMods (u32 (t.freshKey t.openMods.length (t.slots m.slot).key)) = true
    · rw [if_pos hconst]
      exact .keeps rfl rfl
    · rw [if_neg hconst]
      exact .keeps rfl rfl
  · rw [if_neg hp]
    exact .keeps rfl rfl

theorem closeStep_locks (handle : ℕ) :
    Locks t (.close handle) (closeStep t handle).1 (closeStep t handle).2 := by
  unfold closeStep Table.openModTableClose
  cases t.find handle with
  | none => exact .keeps rfl rfl
  | some i =>
      dsimp only
      by_cases hlast : (({ t.addRefs i (-1) with
          opens := Function.update t.opens i (t.opens i - 1) } : Table).slots i).refs = 0
      · rw [if_pos hlast]
        exact .keeps rfl rfl
      · rw [if_neg hlast]
        exact .keeps rfl rfl

theorem endStep_locks (handle : ℕ) (m : Mod) (nErr : ℤ) :
    Locks t (.ended handle m nErr) (endStep t handle m nErr).1 (endStep t handle m nErr).2 := by
  unfold endStep Table.openModClose
  dsimp only
  by_cases hlast : ((t.addRefs m.slot (-1)).slots m.slot).refs = 0
  · rw [if_pos hlast]
    exact .keeps rfl rfl
  · rw [if_neg hlast]
    exact .keeps rfl rfl

theorem finishStep_locks (c : Closer) (m : Mod) (stage : Stage) :
    Locks t (.finish c m stage) (finishStep cfg t a c m stage).1
      (finishStep cfg t a c m stage).2 := by
  cases stage with
  | closeEntry =>
      unfold finishStep afterCloseEntry
      dsimp only
      split_ifs
      · split <;> exact .keeps rfl rfl
      · split <;> exact .keeps rfl rfl
  | dlclose =>
      unfold finishStep afterDlclose
      dsimp only
      split_ifs
      · split <;> exact .keeps rfl rfl
      · split <;> exact .keeps rfl rfl
  | clearKey =>
      have hrests := rests_finished cfg (t.clearKey m.slot) a c
      exact .keeps hrests.revLock hrests.locked

/-- **What a step does to the lock.** -/
theorem advance_locks {pc : Pc} {r : Table × Pc} (h : advance cfg t a pc = some r) :
    Locks t pc r.1 r.2 := by
  cases pc with
  | idle => cases h
  | lock p uri =>
      unfold advance at h
      dsimp only at h
      split_ifs at h with hfree
      obtain rfl := Option.some.inj h
      exact .locks (Bool.eq_false_iff.mpr hfree) rfl rfl rfl
  | search p uri =>
      obtain rfl := Option.some.inj h
      unfold searchStep Table.isReverseHandleOpened
      cases t.openedSlot uri with
      | none => exact .keeps rfl rfl
      | some i => exact .keeps rfl rfl
  | take p uri =>
      obtain rfl := Option.some.inj h
      exact takeStep_locks cfg t p uri
  | load uri m =>
      obtain rfl := Option.some.inj h
      unfold loadStep
      dsimp only
      split_ifs
      · exact .keeps rfl rfl
      · exact .keeps rfl rfl
  | symbol p uri m =>
      obtain rfl := Option.some.inj h
      exact symbolStep_locks cfg t a p uri m
  | entry p uri m =>
      obtain rfl := Option.some.inj h
      unfold entryStep
      dsimp only
      split_ifs
      · exact .keeps rfl rfl
      · exact .keeps rfl rfl
      · exact .keeps rfl rfl
  | add p uri m =>
      obtain rfl := Option.some.inj h
      exact addStep_locks cfg t p uri m
  | unlock =>
      obtain rfl := Option.some.inj h
      exact .unlocks rfl rfl rfl
  | fail p uri m nErr dlErr =>
      obtain rfl := Option.some.inj h
      cases m with
      | none =>
          have hrests := rests_afterFailure cfg { t with revLock := false } a p uri nErr dlErr
          exact .unlocks hrests.revLock rfl hrests.locked
      | some m => exact .unlocks rfl rfl rfl
  | close handle =>
      obtain rfl := Option.some.inj h
      exact closeStep_locks t handle
  | invoke handle =>
      obtain rfl := Option.some.inj h
      unfold invokeStep Table.openModTableGetOpen
      cases t.find handle with
      | none => exact .keeps rfl rfl
      | some i => exact .keeps rfl rfl
  | invoking handle m =>
      obtain rfl := Option.some.inj h
      exact .keeps rfl rfl
  | ended handle m nErr =>
      obtain rfl := Option.some.inj h
      exact endStep_locks t handle m nErr
  | finish c m stage =>
      obtain rfl := Option.some.inj h
      exact finishStep_locks cfg t a c m stage

end Steps

/-- The thread that an event is about. -/
def Event.thread {ι : Type} : Event ι → ι
  | .call i _ _ => i
  | .next i _ => i

/-- A step of the system: the thread's place changes, and the table as `Moves` and `Locks` say. -/
theorem step_moves {ι : Type} [DecidableEq ι] {cfg : Config} {s s' : State ι} {e : Event ι}
    (h : step cfg s e = some s') :
    s.table.undefined = false ∧ ∃ pc', s'.pc = Function.update s.pc e.thread pc' ∧
      Moves cfg s.table (s.pc e.thread) s'.table pc' ∧
        Locks s.table (s.pc e.thread) s'.table pc' := by
  cases e with
  | call i c a =>
      unfold step at h
      dsimp only at h
      split_ifs at h with hcall
      obtain rfl := Option.some.inj h
      have hrests := rests_enter cfg s.table a c
      have hidle : s.pc (Event.call i c a).thread = .idle := hcall.2
      refine ⟨hcall.1, _, rfl, ?_, ?_⟩
      · rw [hidle]
        exact .quiet hrests.core hrests.openMods (hrests.role ▸ .same .none)
      · rw [hidle]
        exact .keeps hrests.revLock hrests.locked
  | next i a =>
      unfold step at h
      dsimp only at h
      split_ifs at h with hundefined
      obtain ⟨r, hr, rfl⟩ := Option.map_eq_some_iff.mp h
      exact ⟨Bool.eq_false_iff.mpr hundefined, r.2, rfl, advance_moves cfg s.table a hr,
        advance_locks cfg s.table a hr⟩

end FastRpc.ModTable
