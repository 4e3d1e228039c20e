import FastRpc.ModTableUris

/-! # The table of reverse modules is a registry

The proof that a single thread's opens and closes are those of a registry (`one_slot_per_uri`), and
the run in which they are not (`opens_twice`).  `UriInv` adds to the slot ownership that every hash
entry has the address of its slot as its key, and that the URI of an open in progress is that of no
open module. -/

namespace FastRpc.ModTable

open Transition

variable {cfg : Config}

/-! ### Keys -/

theorem slotKey_injective : Function.Injective cfg.slotKey := by
  intro i j h
  unfold Config.slotKey u32 revHandleSize at h
  have hi := i.isLt
  have hj := j.isLt
  unfold maxRevHandles at hi hj
  apply Fin.ext
  omega

@[simp] theorem u32_slotKey (i : Slot) : u32 (cfg.slotKey i) = cfg.slotKey i := by
  unfold Config.slotKey u32
  omega

theorem find_none {t : Table} {handle : ℕ} (h : ∀ e ∈ t.openMods, e.2 ≠ handle) :
    t.find handle = none := by
  unfold Table.find
  rw [Option.map_eq_none_iff, List.find?_eq_none]
  intro e he htest
  exact h e he (beq_iff_eq.mp (Bool.and_eq_true_iff.mp htest).1)

section Add

variable (cfg : Config) {t : Table} (p : Path) (uri : Str) {m : Mod}

/-- The key of the slot is kept when it is not in the hash. -/
theorem freshKey_new {key : ℕ} (h : t.find (u32 key) = none) (n : ℕ) : t.freshKey n key = key := by
  cases n with
  | zero => rfl
  | succ n =>
      unfold Table.freshKey
      rw [h]
      rfl

theorem setSlot_same (i : Slot) : (t.setSlot i (t.slots i)).slots = t.slots :=
  Function.update_eq_self i t.slots

/-- The slot of a new key is not written. -/
theorem addStep_slots (h : t.find (u32 (t.slots m.slot).key) = none) :
    (addStep cfg t p uri m).1.slots = t.slots := by
  unfold addStep
  by_cases hp : p = .dynamic
  · rw [if_pos hp]
    unfold Table.addDynamic
    dsimp only
    rw [freshKey_new h]
    split_ifs
    · exact setSlot_same m.slot
    · exact setSlot_same m.slot
  · rw [if_neg hp]
    rfl

/-- An add that succeeds adds the key of the slot. -/
theorem addStep_openMods (h : t.find (u32 (t.slots m.slot).key) = none) :
    (addStep cfg t p uri m).2 = .unlock ∧ (addStep cfg t p uri m).1.openMods =
        (m.slot, u32 (t.slots m.slot).key) :: t.openMods ∨
      (addStep cfg t p uri m).2 ≠ .unlock ∧
        (addStep cfg t p uri m).1.openMods = t.openMods := by
  unfold addStep
  by_cases hp : p = .dynamic
  · rw [if_pos hp]
    unfold Table.addDynamic
    dsimp only
    rw [freshKey_new h]
    by_cases hconst : cfg.constMods (u32 (t.slots m.slot).key) = true
    · rw [if_pos hconst]
      exact Or.inr ⟨Pc.noConfusion, rfl⟩
    · rw [if_neg hconst]
      refine Or.inl ⟨rfl, ?_⟩
      simp only [emit_openMods, Table.hashAdd, Table.setSlot, Function.update_self]
  · rw [if_neg hp]
    exact Or.inl ⟨rfl, rfl⟩

end Add

section Close

variable {t : Table} {handle : ℕ} {i : Slot}

theorem addRefs_self (n : ℤ) : ((t.addRefs i n).slots i).refs = (t.slots i).refs + n :=
  congrArg OpenMod.refs (Function.update_self i _ t.slots)

theorem addRefs_other (n : ℤ) {j : Slot} (hj : j ≠ i) :
    ((t.addRefs i n).slots j).refs = (t.slots j).refs :=
  congrArg OpenMod.refs (Function.update_of_ne hj _ t.slots)

theorem addRefs_uri (n : ℤ) (j : Slot) : ((t.addRefs i n).slots j).uri = (t.slots j).uri := by
  unfold Table.addRefs
  refine setSlot_uri ?_ j
  rfl

/-- A close that leaves references. -/
theorem closeStep_more (hfind : t.find handle = some i) (hone : (t.core i).refs ≠ 1) :
    (closeStep t handle).1.slots = (t.addRefs i (-1)).slots ∧
      (closeStep t handle).1.openMods = t.openMods := by
  unfold closeStep Table.openModTableClose
  rw [hfind]
  dsimp only
  have hlast : (({ t.addRefs i (-1) with
      opens := Function.update t.opens i (t.opens i - 1) } : Table).slots i).refs ≠ 0 := by
    rw [dec_refs]
    omega
  rw [if_neg hlast]
  exact ⟨rfl, rfl⟩

/-- A close of the last reference. -/
theorem closeStep_last (hfind : t.find handle = some i) (hone : (t.core i).refs = 1) :
    (closeStep t handle).1.openMods = t.openMods.filter (fun e => e.1 != i) ∧
      (∀ j, ((closeStep t handle).1.slots j).uri = (t.slots j).uri) ∧
        ∀ j, j ≠ i → ((closeStep t handle).1.slots j).refs = (t.slots j).refs := by
  unfold closeStep Table.openModTableClose
  rw [hfind]
  dsimp only
  have hlast : (({ t.addRefs i (-1) with
      opens := Function.update t.opens i (t.opens i - 1) } : Table).slots i).refs = 0 := by
    rw [dec_refs]
    omega
  rw [if_pos hlast]
  refine ⟨rfl, fun j => ?_, fun j hj => ?_⟩
  · exact (clearKey_uri (t := t.addRefs i (-1)) i j).trans (addRefs_uri (-1) j)
  · exact (congrArg OpenMod.refs (Function.update_of_ne hj _ (t.addRefs i (-1)).slots)).trans
      (addRefs_other (-1) hj)

end Close

/-- The registry sees the searches, adds and closes only. -/
theorem seen_other {t t' : Table} {pc pc' : Pc} (hsearch : ¬ ∃ p uri, pc = .search p uri)
    (hadd : ¬ ∃ p uri m, pc = .add p uri m) (hclose : ¬ ∃ handle, pc = .close handle) :
    seen t pc t' pc' = [] := by
  cases pc with
  | search p uri => exact absurd ⟨p, uri, rfl⟩ hsearch
  | add p uri m => exact absurd ⟨p, uri, m, rfl⟩ hadd
  | close handle => exact absurd ⟨handle, rfl⟩ hclose
  | _ => rfl

/-! ### The registry of a table -/

section Registry

variable {t t' : Table}

theorem registry_congr (hopen : t'.openMods = t.openMods)
    (huri : ∀ i, t.isOpen i = true → (t'.slots i).uri = (t.slots i).uri)
    (hrefs : ∀ i, t.isOpen i = true → (t'.slots i).refs = (t.slots i).refs) :
    t'.registry = t.registry := by
  unfold Table.registry
  rw [hopen]
  apply List.map_congr_left
  intro e he
  have hi : t.isOpen e.1 = true := isOpen_iff.mpr ⟨e.2, he⟩
  unfold Table.entryOf
  rw [huri e.1 hi, hrefs e.1 hi]

/-- A change of one reference count. -/
theorem registry_bump {i : Slot} {n : ℤ} (hkeys : ∀ e ∈ t.openMods, e.2 = cfg.slotKey e.1)
    (hopen : t'.openMods = t.openMods)
    (huri : ∀ j, (t'.slots j).uri = (t.slots j).uri)
    (hself : (t'.slots i).refs = (t.slots i).refs + n)
    (hother : ∀ j, j ≠ i → (t'.slots j).refs = (t.slots j).refs) :
    t'.registry = Registry.bump t.registry (cfg.slotKey i) n := by
  unfold Table.registry Registry.bump
  rw [hopen, List.map_map]
  apply List.map_congr_left
  intro e he
  simp only [Function.comp_apply]
  unfold Table.entryOf
  by_cases hi : e.1 = i
  · rw [if_pos ((hkeys e he).trans (congrArg cfg.slotKey hi)), huri, hi, hself]
  · have hne : e.2 ≠ cfg.slotKey i := by
      rw [hkeys e he]
      exact fun heq => hi (slotKey_injective heq)
    rw [if_neg hne, huri, hother e.1 hi]

/-- The module of one slot leaves the hash. -/
theorem registry_drop {i : Slot} (hkeys : ∀ e ∈ t.openMods, e.2 = cfg.slotKey e.1)
    (hopen : t'.openMods = t.openMods.filter (fun e => e.1 != i))
    (huri : ∀ j, (t'.slots j).uri = (t.slots j).uri)
    (hother : ∀ j, j ≠ i → (t'.slots j).refs = (t.slots j).refs) :
    t'.registry = Registry.drop t.registry (cfg.slotKey i) := by
  unfold Table.registry Registry.drop
  rw [hopen, List.filter_map]
  have hfilter : t.openMods.filter (fun e => e.1 != i) =
      t.openMods.filter ((fun e : Registry.Entry Str ℕ => e.handle ≠ cfg.slotKey i) ∘
        t.entryOf) := by
    apply List.filter_congr
    intro e he
    simp only [Function.comp_apply]
    unfold Table.entryOf
    rw [hkeys e he]
    by_cases hi : e.1 = i
    · simp [hi]
    · have hne : cfg.slotKey e.1 ≠ cfg.slotKey i := fun heq => hi (slotKey_injective heq)
      simp [hi, hne]
  rw [← hfilter]
  apply List.map_congr_left
  intro e he
  have hne : e.1 ≠ i := bne_iff_ne.mp (List.mem_filter.mp he).2
  unfold Table.entryOf
  rw [huri, hother e.1 hne]

end Registry

/-! ### The invariant -/

/-- What the proof carries along a run. -/
structure UriInv (cfg : Config) (s : State Unit) : Prop where
  slots : OwnedInv s
  defined : s.table.undefined = false
  small : ∀ i, s.table.isOpen i = true → (s.table.core i).refs < 2 ^ 31
  plain : (s.pc ()).invokes = false
  keys : ∀ e ∈ s.table.openMods, e.2 = cfg.slotKey e.1
  filled : ∀ m, (s.pc ()).role = .filled m →
    (s.table.slots m.slot).key = cfg.slotKey m.slot ∧ (s.table.slots m.slot).refs = 1
  missing : ∀ uri, (s.pc ()).missing = some uri → ∀ i, s.table.isOpen i = true →
    (s.table.slots i).uri ≠ uri
  stored : ∀ uri m, (s.pc ()).opening = some (uri, m) → (s.table.slots m.slot).uri = uri
  fresh : ∀ m, (s.pc ()).role.owns = some m → (s.table.core m.slot).key ≠ 0 →
    ∀ i, s.table.isOpen i = true → (s.table.slots i).uri ≠ (s.table.slots m.slot).uri
  replays : replay s.table.trace = some s.table.registry

theorem uriInv_init : UriInv cfg init := by
  refine ⟨ownedInv_init, rfl, ?_, rfl, ?_, ?_, ?_, ?_, ?_, rfl⟩
  · intro i hi
    cases hi
  · intro e he
    cases he
  · intro m h
    cases h
  · intro uri h
    cases h
  · intro uri m h
    cases h
  · intro m h
    cases h

variable {s s' : State Unit} {e : Event Unit}

theorem UriInv.inv (hs : UriInv cfg s) : Inv s := hs.slots.inv hs.defined

/-- One thread does not linger in the slot that it takes. -/
theorem slotUnused_of_known (h : KnownUri cfg s e) : SlotUnused cfg s e := by
  cases e with
  | call i c a => trivial
  | next i a =>
      unfold KnownUri at h
      unfold SlotUnused
      dsimp only at h ⊢
      cases hpc : s.pc i with
      | take p uri =>
          intro l hfree k m hlingers
          have hk : (s.pc k).role = .none := congrArg Pc.role hpc
          rw [hk] at hlingers
          obtain ⟨handle, hrole⟩ | ⟨p', uri', nErr, dlErr, hrole⟩ | hrole := hlingers
          · cases hrole
          · cases hrole
          · cases hrole
      | symbol p uri m =>
          rw [hpc] at h
          exact h
      | _ => trivial

/-- A step of the only thread. -/
theorem stepped_unit (h : step cfg s e = some s') :
    s.table.undefined = false ∧ Stepped cfg s s' () (s'.pc ()) := stepped h

/-- What a step of the only thread does to the URIs. -/
theorem step_places (hc : KnownUri cfg s e) (h : step cfg s e = some s') :
    Places cfg s.table (s.pc ()) s'.table (s'.pc ()) := by
  cases e with
  | call i c a =>
      unfold step at h
      dsimp only at h
      split_ifs at h
      obtain rfl := Option.some.inj h
      have hcall : ∀ handle, c ≠ .openModTableHandleInvoke handle := by
        rintro handle rfl
        exact hc
      have houtside : Outside s.table (enter cfg s.table a c) := outside_enter hcall
      have hplaces : Places cfg s.table (s.pc ()) _ _ := houtside.places (s.pc ())
      rwa [← Function.update_self i (enter cfg s.table a c).2 s.pc] at hplaces
  | next i a =>
      obtain ⟨r, hr, htable, hpc⟩ := step_next h
      rw [htable, show s'.pc () = r.2 from hpc]
      exact advance_places hr

theorem plain_step (hs : UriInv cfg s) (hc : KnownUri cfg s e) (h : step cfg s e = some s') :
    (s'.pc ()).invokes = false := by
  cases e with
  | call i c a =>
      unfold step at h
      dsimp only at h
      split_ifs at h
      obtain rfl := Option.some.inj h
      have hcall : ∀ handle, c ≠ .openModTableHandleInvoke handle := by
        rintro handle rfl
        exact hc
      have houtside : Outside s.table (enter cfg s.table a c) := outside_enter hcall
      have hinvokes := houtside.invokes
      rwa [← Function.update_self i (enter cfg s.table a c).2 s.pc] at hinvokes
  | next i a =>
      obtain ⟨r, hr, -, hpc⟩ := step_next h
      rw [show s'.pc () = r.2 from hpc]
      exact advance_invokes hr hs.plain

/-- A module that is found again keeps its count in `int`. -/
theorem known_search (hc : KnownUri cfg s e) (hstep : step cfg s e = some s') {p : Path}
    {uri : Str} (hpc : s.pc () = .search p uri) {l : Slot} (hfind : s.table.openedSlot uri = some l) :
    (s.table.core l).refs + 1 < 2 ^ 31 := by
  obtain ⟨i, a, rfl⟩ := event_next hstep
    (show s.pc () ≠ .idle by rw [hpc]; exact Pc.noConfusion)
  unfold KnownUri at hc
  dsimp only at hc
  rw [show s.pc i = _ from hpc] at hc
  exact hc l hfind

section Step

variable (hs : UriInv cfg s) (hc : KnownUri cfg s e) (hstep : step cfg s e = some s')

include hs

/-- The key of a module that has been filled in is not in the hash. -/
theorem UriInv.new_key {m : Mod}
    (hrole : (s.pc ()).role = .filled m) (e : Slot × ℕ) (he : e ∈ s.table.openMods) :
    e.2 ≠ cfg.slotKey m.slot := by
  intro heq
  have hslot : e.1 = m.slot := slotKey_injective ((hs.keys e he).symm.trans heq)
  have hclosed := hs.inv.outside () m (by rw [hrole]; rfl) (hs.inv.current () m (Or.inr hrole))
  rw [← hslot, isOpen_iff.mpr ⟨e.2, he⟩] at hclosed
  cases hclosed

/-- The add of a module finds its key free. -/
theorem UriInv.add_free {p : Path} {uri : Str} {m : Mod}
    (hpc : s.pc () = .add p uri m) : s.table.find (u32 (s.table.slots m.slot).key) = none := by
  have hrole : (s.pc ()).role = .filled m := by rw [hpc]; rfl
  rw [(hs.filled m hrole).1, u32_slotKey]
  exact find_none (hs.new_key hrole)

/-- What a search finds is open. -/
theorem UriInv.searched {p : Path} {uri : Str} (hpc : s.pc () = .search p uri) {l : Slot}
    (hfind : s.table.openedSlot uri = some l) : s.table.isOpen l = true := by
  obtain hopen | ⟨j, hj⟩ := hs.inv.owned l (openedSlot_key hfind)
  · exact hopen
  · rw [show s.pc j = _ from hpc] at hj
    cases hj

/-- A free slot is not in the hash. -/
theorem UriInv.free {l : Slot} (hfree : s.table.nextAvailableRevHandle = some l) :
    s.table.isOpen l = false := by
  rw [Bool.eq_false_iff]
  exact fun hi => hs.slots.owned.taken l hi (nextAvailable_key hfree)

/-- The count of an open module. -/
theorem UriInv.live {l : Slot} (hi : s.table.isOpen l = true) : 1 ≤ (s.table.core l).refs := by
  obtain ⟨k, hmem⟩ := isOpen_iff.mp hi
  exact (hs.inv.live _ hmem).1

include hstep

/-- What an add does. -/
theorem UriInv.added {p : Path} {uri : Str} {m : Mod} (hpc : s.pc () = .add p uri m) :
    s'.table.slots = s.table.slots ∧ (s'.table.core m.slot).key = cfg.slotKey m.slot := by
  obtain ⟨hdef, -⟩ := stepped_unit hstep
  obtain ⟨i, a, rfl⟩ := event_next hstep
    (show s.pc () ≠ .idle by rw [hpc]; exact Pc.noConfusion)
  obtain ⟨r, hr, htable, -⟩ := step_next hstep
  rw [show s.pc i = _ from hpc] at hr
  obtain rfl := Option.some.inj hr
  have hslots : s'.table.slots = s.table.slots := by
    rw [htable]
    exact addStep_slots cfg p uri (hs.add_free hpc)
  refine ⟨hslots, ?_⟩
  unfold Table.core
  dsimp only
  rw [hslots]
  exact (hs.filled m (by rw [hpc]; rfl)).1

theorem keys_step : ∀ e ∈ s'.table.openMods, e.2 = cfg.slotKey e.1 := by
  obtain ⟨hdef, h⟩ := stepped_unit hstep
  intro f hf
  obtain hsame | ⟨l, hfilter⟩ | ⟨m, p, uri, hpc, -, -, hcons⟩ := h.moves.openMods
  · exact hs.keys f (hsame ▸ hf)
  · rw [hfilter] at hf
    exact hs.keys f (List.mem_of_mem_filter hf)
  · rw [hcons] at hf
    cases hf with
    | head =>
        rw [(hs.added hstep hpc).2]
        exact u32_slotKey m.slot
    | tail _ hf => exact hs.keys f hf

theorem filled_step (m : Mod) (hrole : (s'.pc ()).role = .filled m) :
    (s'.table.slots m.slot).key = cfg.slotKey m.slot ∧ (s'.table.slots m.slot).refs = 1 := by
  obtain ⟨hdef, h⟩ := stepped_unit hstep
  obtain ⟨hold, hcore⟩ | ⟨hone, hkey, -⟩ := h.moves.filled hrole
  · obtain ⟨hkey, hone⟩ := hs.filled m hold
    have hsame := congrFun hcore m.slot
    exact ⟨(congrArg SlotCore.key hsame).trans hkey, (congrArg SlotCore.refs hsame).trans hone⟩
  · exact ⟨hkey, hone⟩

omit hs in
/-- Only the end of an open brings a module into the hash. -/
theorem open_before (hne : s'.pc () ≠ .unlock) {i : Slot} (hi : s'.table.isOpen i = true) :
    s.table.isOpen i = true := by
  obtain ⟨hdef, h⟩ := stepped_unit hstep
  obtain hsame | ⟨l, hfilter⟩ | ⟨m, p, uri, hpc, hpc', -⟩ := h.moves.openMods
  · exact (isOpen_congr hsame i) ▸ hi
  · exact ((isOpen_filter hfilter i).mp hi).1
  · exact absurd hpc' hne

include hc

theorem defined_step : s'.table.undefined = false := by
  cases e with
  | call i c a =>
      unfold step at hstep
      dsimp only at hstep
      split_ifs at hstep
      obtain rfl := Option.some.inj hstep
      have hcall : ∀ handle, c ≠ .openModTableHandleInvoke handle := by
        rintro handle rfl
        exact hc
      have houtside : Outside s.table (enter cfg s.table a c) := outside_enter hcall
      exact houtside.undefined.trans hs.defined
  | next i a =>
      obtain ⟨r, hr, htable, -⟩ := step_next hstep
      rw [htable]
      apply advance_defined hr hs.defined hs.plain
      · intro p uri l hpc hfind
        have hlive := hs.live (hs.searched hpc hfind)
        have hsmall := known_search hc hstep hpc hfind
        refine ⟨?_, hsmall⟩
        exact (show (-2 ^ 31 : ℤ) ≤ 1 by decide).trans (hlive.trans (Int.le_add_one (le_refl _)))
      · exact fun l hfree => hs.free hfree
      · exact fun l hi => ⟨hs.live hi, hs.small l hi⟩
      · exact fun handle l hfind => find_isOpen hfind

theorem small_step (l : Slot) (hi : s'.table.isOpen l = true) :
    (s'.table.core l).refs < 2 ^ 31 := by
  obtain ⟨hdef, h⟩ := stepped_unit hstep
  have hkeeps : ∀ {i : Slot} {c : SlotCore}, s'.table.core = Function.update s.table.core i c →
      s.table.isOpen l = true → (l = i → c.refs < 2 ^ 31) → (s'.table.core l).refs < 2 ^ 31 := by
    intro i c hcore hold hself
    rw [hcore]
    by_cases hl : l = i
    · rw [hl, Function.update_self]
      exact hself hl
    · rw [Function.update_of_ne hl]
      exact hs.small l hold
  have hsmaller : ∀ {i : Slot}, l = i → s.table.isOpen l = true →
      (s.table.core i).refs < 2 ^ 31 := fun hl hold => hl ▸ hs.small l hold
  cases h.moves with
  | quiet hcore hopen hrole =>
      rw [hcore]
      exact hs.small l (isOpen_congr hopen l ▸ hi)
  | reopens i p uri hpc hpc' hfind hcore hopen =>
      exact hkeeps hcore (isOpen_congr hopen l ▸ hi)
        (fun _ => known_search hc hstep hpc hfind)
  | takes i p uri hpc hfree hcore hopen hdef' hrole =>
      exact hkeeps hcore (isOpen_congr hopen l ▸ hi) (fun _ => show (0 : ℤ) < 2 ^ 31 by decide)
  | fills m p uri hpc hpc' hcore hopen =>
      exact hkeeps hcore (isOpen_congr hopen l ▸ hi) (fun _ => show (1 : ℤ) < 2 ^ 31 by decide)
  | collides m key p uri hpc hkey hcore hopen hrole =>
      have hold := isOpen_congr hopen l ▸ hi
      exact hkeeps hcore hold (fun hl => hsmaller hl hold)
  | adds m key p uri hpc hpc' hkey hcore hopen =>
      by_cases hl : l = m.slot
      · rw [hcore, hl, Function.update_self]
        exact lt_of_eq_of_lt (hs.filled m (by rw [hpc]; rfl)).2 (by decide)
      · rw [hcore, Function.update_of_ne hl]
        exact hs.small l (((isOpen_cons hopen l).mp hi).resolve_left hl)
  | closes handle i hpc hpc' hfind hpos hcore hopen =>
      have hold := isOpen_congr hopen l ▸ hi
      refine hkeeps hcore hold (fun hl => ?_)
      have hsmall := hsmaller hl hold
      dsimp only
      omega
  | closesLast handle i hpc hfind hone hcore hopen hrole =>
      exact hkeeps hcore ((isOpen_filter hopen l).mp hi).1
        (fun _ => show (0 : ℤ) < 2 ^ 31 by decide)
  | invokes handle i hpc =>
      have hplain := hs.plain
      rw [hpc] at hplain
      cases hplain
  | ends handle m nErr hpc =>
      have hplain := hs.plain
      rw [hpc] at hplain
      cases hplain
  | endsLast handle m nErr hpc =>
      have hplain := hs.plain
      rw [hpc] at hplain
      cases hplain
  | clears c m hpc hcore hopen hrole =>
      have hold := isOpen_congr hopen l ▸ hi
      exact hkeeps hcore hold (fun hl => hsmaller hl hold)

/-- An open module keeps its URI. -/
theorem open_uri {i : Slot} (hi : s.table.isOpen i = true) :
    (s'.table.slots i).uri = (s.table.slots i).uri := by
  cases step_places hc hstep with
  | keeps huri hopening hmissing => exact huri i
  | looks p uri hpc hpc' hnone ht => rw [ht]
  | takes p uri l hpc hfree huri hmissing hopening hstored =>
      apply huri
      rintro rfl
      exact hs.slots.owned.taken i hi (nextAvailable_key hfree)

theorem missing_step (uri : Str) (huri : (s'.pc ()).missing = some uri) (i : Slot)
    (hi : s'.table.isOpen i = true) : (s'.table.slots i).uri ≠ uri := by
  have hne : s'.pc () ≠ .unlock := by
    intro hpc'
    rw [hpc'] at huri
    cases huri
  have hold := open_before hstep hne hi
  rw [open_uri hs hc hstep hold]
  cases step_places hc hstep with
  | keeps _ hopening hmissing =>
      obtain hnone | hsame := hmissing
      · rw [hnone] at huri
        cases huri
      · exact hs.missing uri (hsame ▸ huri) i hold
  | looks p uri' hpc hpc' hnone ht =>
      rw [hpc'] at huri
      obtain rfl := Option.some.inj huri
      intro heq
      have hno := List.find?_eq_none.mp hnone i (List.mem_finRange i)
      have hkey := hs.slots.owned.taken i hold
      rw [Bool.and_eq_true] at hno
      exact hno ⟨bne_iff_ne.mpr hkey, beq_iff_eq.mpr heq⟩
  | takes p uri' l hpc hfree _ hmissing hopening hstored =>
      obtain hnone | hsame := hmissing
      · rw [hnone] at huri
        cases huri
      · rw [hsame] at huri
        obtain rfl := Option.some.inj huri
        exact hs.missing uri' (by rw [hpc]; rfl) i hold

theorem stored_step (uri : Str) (m : Mod) (hopen : (s'.pc ()).opening = some (uri, m)) :
    (s'.table.slots m.slot).uri = uri := by
  cases step_places hc hstep with
  | keeps huri hopening hmissing =>
      obtain hnone | hsame := hopening
      · rw [hnone] at hopen
        cases hopen
      · rw [huri]
        exact hs.stored uri m (hsame ▸ hopen)
  | looks p uri' hpc hpc' hnone ht =>
      rw [hpc'] at hopen
      cases hopen
  | takes p uri' l hpc hfree huri hmissing hopening hstored =>
      obtain hnone | hsame := hopening
      · rw [hnone] at hopen
        cases hopen
      · have hknown : p ≠ .dynamic → ∀ sm, (fromStatic (p.table cfg) uri').2 = .ok sm →
            p.table cfg uri' = some sm := by
          obtain ⟨i, a, rfl⟩ := event_next hstep
            (show s.pc () ≠ .idle by rw [hpc]; exact Pc.noConfusion)
          unfold KnownUri at hc
          dsimp only at hc
          rw [show s.pc i = _ from hpc] at hc
          exact hc
        have huri' := hstored hknown (by rw [hsame]; exact Option.some_ne_none _)
        rw [hsame] at hopen
        obtain ⟨rfl, rfl⟩ := Prod.mk.inj (Option.some.inj hopen)
        exact huri'

omit hs in
/-- A module that the thread owns keeps its URI. -/
theorem owned_uri {m : Mod} (howns : (s.pc ()).role.owns = some m) (i : Slot) :
    (s'.table.slots i).uri = (s.table.slots i).uri := by
  cases step_places hc hstep with
  | keeps huri hopening hmissing => exact huri i
  | looks p uri hpc hpc' hnone ht => rw [ht]
  | takes p uri l hpc hfree huri hmissing hopening hstored =>
      rw [hpc] at howns
      cases howns

theorem fresh_step (m : Mod) (howns : (s'.pc ()).role.owns = some m)
    (hkey : (s'.table.core m.slot).key ≠ 0) (i : Slot) (hi : s'.table.isOpen i = true) :
    (s'.table.slots i).uri ≠ (s'.table.slots m.slot).uri := by
  obtain ⟨hdef, h⟩ := stepped_unit hstep
  have hne : s'.pc () ≠ .unlock := by
    intro hpc'
    rw [hpc'] at howns
    cases howns
  have hold := open_before hstep hne hi
  rw [open_uri hs hc hstep hold]
  have hkeeps : (s.pc ()).role.owns = some m → (s.table.core m.slot).key ≠ 0 →
      (s.table.slots i).uri ≠ (s'.table.slots m.slot).uri := by
    intro howns' hkey'
    rw [owned_uri hc hstep howns']
    exact hs.fresh m howns' hkey' i hold
  cases h.moves with
  | quiet hcore hopen hrole => exact hkeeps (hrole.owns howns) (hcore ▸ hkey)
  | reopens l p uri hpc hpc' hfind hcore hopen => exact absurd hpc' hne
  | takes l p uri hpc hfree hcore hopen hdef' hrole =>
      rw [hrole] at howns
      obtain rfl := Option.some.inj howns
      rw [hcore, Function.update_self] at hkey
      exact absurd rfl hkey
  | fills m' p uri hpc hpc' hcore hopen =>
      rw [hpc'] at howns
      obtain rfl := Option.some.inj howns
      rw [owned_uri hc hstep (by rw [hpc]; rfl),
        hs.stored uri m' (by rw [hpc]; rfl)]
      exact hs.missing uri (by rw [hpc]; rfl) i hold
  | collides m' key p uri hpc hkey' hcore hopen hrole =>
      rw [hrole] at howns
      obtain rfl := Option.some.inj howns
      exact hkeeps (by rw [hpc]; rfl) (hs.slots.owned.filled () m' (by rw [hpc]; rfl))
  | adds m' key p uri hpc hpc' hkey' hcore hopen => exact absurd hpc' hne
  | closes handle l hpc hpc' hfind hpos hcore hopen =>
      rw [hpc'] at howns
      cases howns
  | closesLast handle l hpc hfind hone hcore hopen hrole =>
      rw [hrole] at howns
      obtain rfl := Option.some.inj howns
      rw [hcore, Function.update_self] at hkey
      exact absurd rfl hkey
  | invokes handle l hpc hfind hcore hopen hrole =>
      rw [hrole] at howns
      cases howns
  | ends handle m' nErr hpc hpc' hpos hcore hopen =>
      rw [hpc'] at howns
      cases howns
  | endsLast handle m' nErr hpc hone hcore hopen hdef' hrole =>
      have hplain := hs.plain
      rw [hpc] at hplain
      cases hplain
  | clears c m' hpc hcore hopen hrole =>
      rw [hrole] at howns
      cases howns

/-! ### The registry of a step -/

omit hstep hc in
/-- An open module and its entry. -/
theorem UriInv.entry {i : Slot} (hi : s.table.isOpen i = true) :
    ⟨(s.table.slots i).uri, cfg.slotKey i, (s.table.slots i).refs⟩ ∈ s.table.registry := by
  obtain ⟨k, hmem⟩ := isOpen_iff.mp hi
  rw [← hs.keys _ hmem]
  exact List.mem_map.mpr ⟨(i, k), hmem, rfl⟩

omit hstep hc in
theorem UriInv.wellFormed : Registry.WellFormed s.table.registry := replay_wellFormed hs.replays

/-- A step that opens and closes nothing. -/
theorem registry_other (hsearch : ∀ p uri, s.pc () ≠ .search p uri)
    (hadd : ∀ p uri m, s.pc () ≠ .add p uri m) (hclose : ∀ handle, s.pc () ≠ .close handle) :
    s'.table.registry = s.table.registry := by
  obtain ⟨hdef, h⟩ := stepped_unit hstep
  have hsame : s'.table.openMods = s.table.openMods →
      (∀ i, s.table.isOpen i = true → (s'.table.core i).refs = (s.table.core i).refs) →
        s'.table.registry = s.table.registry := fun hopen hrefs =>
    registry_congr hopen (fun i hi => open_uri hs hc hstep hi) hrefs
  cases h.moves with
  | quiet hcore hopen hrole => exact hsame hopen (fun i _ => by rw [hcore])
  | reopens l p uri hpc => exact absurd hpc (hsearch p uri)
  | takes l p uri hpc hfree hcore hopen hdef' hrole =>
      refine hsame hopen (fun i hi => ?_)
      have hi' : i ≠ l := by
        rintro rfl
        exact hs.slots.owned.taken i hi (nextAvailable_key hfree)
      rw [hcore, Function.update_of_ne hi']
  | fills m p uri hpc hpc' hcore hopen =>
      refine hsame hopen (fun i hi => ?_)
      have hi' : i ≠ m.slot := by
        rintro rfl
        rw [hs.inv.outside () m (by rw [hpc]; rfl) (hs.inv.current () m (by rw [hpc]; exact Or.inl rfl))]
          at hi
        cases hi
      rw [hcore, Function.update_of_ne hi']
  | collides m key p uri hpc => exact absurd hpc (hadd p uri m)
  | adds m key p uri hpc => exact absurd hpc (hadd p uri m)
  | closes handle l hpc => exact absurd hpc (hclose handle)
  | closesLast handle l hpc => exact absurd hpc (hclose handle)
  | invokes handle l hpc =>
      have hplain := hs.plain
      rw [hpc] at hplain
      cases hplain
  | ends handle m nErr hpc =>
      have hplain := hs.plain
      rw [hpc] at hplain
      cases hplain
  | endsLast handle m nErr hpc =>
      have hplain := hs.plain
      rw [hpc] at hplain
      cases hplain
  | clears c m hpc hcore hopen hrole =>
      refine hsame hopen (fun i _ => ?_)
      rw [hcore]
      by_cases hi' : i = m.slot
      · rw [hi', Function.update_self]
      · rw [Function.update_of_ne hi']

omit hstep hc in
/-- The key of an open module. -/
theorem UriInv.open_key {i : Slot} (hi : s.table.isOpen i = true) : u32 (s.table.slots i).key = cfg.slotKey i := by
  obtain ⟨k, hmem⟩ := isOpen_iff.mp hi
  have hlive := (hs.inv.live _ hmem).2 (hs.slots.owned.taken i hi)
  exact hlive.trans (hs.keys _ hmem)

theorem replays_search {p : Path} {uri : Str} (hpc : s.pc () = .search p uri) :
    replay s'.table.trace = some s'.table.registry := by
  obtain ⟨hdef, h⟩ := stepped_unit hstep
  have hadds := (step_trace hstep).replay hs.replays
  rw [show s.pc e.thread = _ from hpc] at hadds
  obtain ⟨i, a, rfl⟩ := event_next hstep
    (show s.pc () ≠ .idle by rw [hpc]; exact Pc.noConfusion)
  obtain ⟨r, hr, htable, -⟩ := step_next hstep
  rw [show s.pc i = _ from hpc] at hr
  obtain rfl := Option.some.inj hr
  unfold searchStep Table.isReverseHandleOpened at htable
  cases hfind : s.table.openedSlot uri with
  | none =>
      rw [seen_search_none hfind] at hadds
      rw [hfind] at htable
      rw [hadds, htable]
      rfl
  | some l =>
      have huri : (s.table.slots l).uri = uri := by
        have htest := List.find?_some
          (p := fun i => (s.table.slots i).key != 0 && (s.table.slots i).uri == uri) hfind
        exact beq_iff_eq.mp (Bool.and_eq_true_iff.mp htest).2
      have hopen := hs.searched hpc hfind
      rw [hfind] at htable
      have hbump : s'.table.registry = Registry.bump s.table.registry (cfg.slotKey l) 1 := by
        rw [htable]
        exact registry_bump hs.keys rfl (addRefs_uri 1) (addRefs_self 1)
          (fun j hj => addRefs_other 1 hj)
      rw [seen_search_some hfind, hs.open_key hopen, ← huri] at hadds
      rw [hadds, hbump]
      exact (bind_pure _).trans (Registry.opened_mem hs.wellFormed (hs.entry hopen))

theorem replays_add {p : Path} {uri : Str} {m : Mod} (hpc : s.pc () = .add p uri m) :
    replay s'.table.trace = some s'.table.registry := by
  obtain ⟨hdef, h⟩ := stepped_unit hstep
  have hrole : (s.pc ()).role = .filled m := by rw [hpc]; rfl
  have hadds := (step_trace hstep).replay hs.replays
  obtain ⟨hslots, hkey⟩ := hs.added hstep hpc
  rw [show s.pc e.thread = _ from hpc] at hadds
  obtain ⟨i, a, rfl⟩ := event_next hstep
    (show s.pc () ≠ .idle by rw [hpc]; exact Pc.noConfusion)
  obtain ⟨r, hr, htable, hpc'⟩ := step_next hstep
  rw [show s.pc i = _ from hpc] at hr
  obtain rfl := Option.some.inj hr
  have hkeep : ∀ i, s.table.isOpen i = true → (s'.table.slots i).uri = (s.table.slots i).uri ∧
      (s'.table.slots i).refs = (s.table.slots i).refs := by
    intro i _
    rw [hslots]
    exact ⟨rfl, rfl⟩
  have hresult := addStep_openMods cfg p uri (hs.add_free hpc)
  rw [← htable, ← show s'.pc i = _ from hpc'] at hresult
  unfold seen at hadds
  dsimp only at hadds
  obtain ⟨hunlock, hopen⟩ | ⟨hfail, hopen⟩ := hresult
  · rw [if_pos (show s'.pc _ = .unlock from hunlock), hslots, (hs.filled m hrole).1,
      u32_slotKey] at hadds
    have hcons : s'.table.registry = ⟨uri, cfg.slotKey m.slot, 1⟩ :: s.table.registry := by
      unfold Table.registry
      rw [hopen, List.map_cons]
      congr 1
      · unfold Table.entryOf
        dsimp only
        rw [hslots, (hs.filled m hrole).1, (hs.filled m hrole).2, u32_slotKey,
          hs.stored uri m (by rw [hpc]; rfl)]
      · unfold Table.entryOf
        rw [hslots]
    rw [hadds, hcons]
    refine (bind_pure _).trans (Registry.opened_new ?_ ?_)
    · intro x hx
      obtain ⟨f, hf, rfl⟩ := List.mem_map.mp hx
      exact hs.missing uri (by rw [hpc]; rfl) f.1 (isOpen_iff.mpr ⟨f.2, hf⟩)
    · intro x hx
      obtain ⟨f, hf, rfl⟩ := List.mem_map.mp hx
      exact hs.new_key hrole f hf
  · rw [if_neg (show s'.pc _ ≠ .unlock from hfail)] at hadds
    rw [hadds, registry_congr hopen (fun i hi => (hkeep i hi).1) (fun i hi => (hkeep i hi).2)]
    rfl

theorem replays_close {handle : ℕ} (hpc : s.pc () = .close handle) :
    replay s'.table.trace = some s'.table.registry := by
  obtain ⟨hdef, h⟩ := stepped_unit hstep
  have hadds := (step_trace hstep).replay hs.replays
  rw [show s.pc e.thread = _ from hpc] at hadds
  obtain ⟨i, a, rfl⟩ := event_next hstep
    (show s.pc () ≠ .idle by rw [hpc]; exact Pc.noConfusion)
  obtain ⟨r, hr, htable, -⟩ := step_next hstep
  rw [show s.pc i = _ from hpc] at hr
  obtain rfl := Option.some.inj hr
  cases hfind : s.table.find handle with
  | none =>
      rw [seen_close_none hfind] at hadds
      unfold closeStep Table.openModTableClose at htable
      rw [hfind] at htable
      rw [hadds, htable]
      refine (bind_pure _).trans (Registry.notClosed_absent ?_)
      intro x hx heq
      obtain ⟨f, hf, rfl⟩ := List.mem_map.mp hx
      have hkey := hs.open_key (isOpen_iff.mpr ⟨f.2, hf⟩)
      unfold Table.find at hfind
      rw [Option.map_eq_none_iff, List.find?_eq_none] at hfind
      apply hfind f hf
      rw [hkey, ← hs.keys f hf, Bool.and_self]
      exact beq_iff_eq.mpr heq
  | some l =>
      obtain ⟨hmem, -⟩ := find_mem hfind
      have hhandle : handle = cfg.slotKey l := hs.keys _ hmem
      have hentry := hs.entry (find_isOpen hfind)
      by_cases hone : (s.table.core l).refs = 1
      · obtain ⟨hopen, huri, hrefs⟩ := closeStep_last hfind hone
        rw [seen_close_some hfind, decide_eq_true hone, hhandle] at hadds
        rw [hadds, htable, registry_drop hs.keys hopen huri hrefs]
        exact (bind_pure _).trans (Registry.closed_last hs.wellFormed hentry hone)
      · obtain ⟨hslots, hopen⟩ := closeStep_more hfind hone
        have hbump : (closeStep s.table handle).1.registry =
            Registry.bump s.table.registry (cfg.slotKey l) (-1) := by
          apply registry_bump hs.keys hopen
          · intro j
            rw [hslots]
            exact addRefs_uri (-1) j
          · rw [hslots]
            exact addRefs_self (-1)
          · intro j hj
            rw [hslots]
            exact addRefs_other (-1) hj
        rw [seen_close_some hfind, decide_eq_false hone, hhandle] at hadds
        rw [hadds, htable, hbump]
        exact (bind_pure _).trans (Registry.closed_more hs.wellFormed hentry hone)

/-- **Every step is a step of the registry.** -/
theorem replays_step : replay s'.table.trace = some s'.table.registry := by
  by_cases hsearch : ∃ p uri, s.pc () = .search p uri
  · obtain ⟨p, uri, hpc⟩ := hsearch
    exact replays_search hs hc hstep hpc
  · by_cases hadd : ∃ p uri m, s.pc () = .add p uri m
    · obtain ⟨p, uri, m, hpc⟩ := hadd
      exact replays_add hs hc hstep hpc
    · by_cases hclose : ∃ handle, s.pc () = .close handle
      · obtain ⟨handle, hpc⟩ := hclose
        exact replays_close hs hc hstep hpc
      · have hadds := (step_trace hstep).replay hs.replays
        rw [seen_other hsearch hadd hclose] at hadds
        rw [hadds, registry_other hs hc hstep (fun p uri h => hsearch ⟨p, uri, h⟩)
          (fun p uri m h => hadd ⟨p, uri, m, h⟩) (fun handle h => hclose ⟨handle, h⟩)]
        rfl

end Step

/-- **A step that meets the condition keeps the invariant.** -/
theorem uriInv_step (s : State Unit) (e : Event Unit) (s' : State Unit) (hs : UriInv cfg s)
    (hc : KnownUri cfg s e) (hstep : step cfg s e = some s') : UriInv cfg s' :=
  ⟨ownedInv_step s e s' hs.slots (slotUnused_of_known hc) hstep, defined_step hs hc hstep,
    small_step hs hc hstep, plain_step hs hc hstep, keys_step hs hstep,
    filled_step hs hstep, missing_step hs hc hstep, stored_step hs hc hstep,
    fresh_step hs hc hstep, replays_step hs hc hstep⟩

/-- No two occupied slots have the same URI. -/
theorem UriInv.single (hs : UriInv cfg s) (i j : Slot)
    (hi : (s.table.slots i).key ≠ 0) (hj : (s.table.slots j).key ≠ 0)
    (huri : (s.table.slots i).uri = (s.table.slots j).uri) : i = j := by
  obtain hopen | ⟨k, howns⟩ := hs.inv.owned i hi
  · obtain hopen' | ⟨k', howns'⟩ := hs.inv.owned j hj
    · have hsame := List.inj_on_of_nodup_map hs.wellFormed.names (hs.entry hopen)
        (hs.entry hopen') huri
      exact slotKey_injective (congrArg Registry.Entry.handle hsame)
    · exact absurd huri (hs.fresh _ howns' hj i hopen)
  · obtain hopen' | ⟨k', howns'⟩ := hs.inv.owned j hj
    · exact absurd huri.symm (hs.fresh _ howns hi j hopen')
    · exact congrArg Mod.slot (Option.some.inj (howns.symm.trans howns'))

/-- **One slot per URI.** In every run of opens and closes in which every static module is found under
the URI of the caller and no slot at a multiple of `2 ^ 32` is filled in, every open and close is
that of a registry: an open module is opened again with its handle and one more reference, any other
with a new handle, and a close unloads the module exactly when it is the last. -/
theorem one_slot_per_uri {es : List (Event Unit)} {s : State Unit}
    (h : run (step cfg) init es = some s) (hg : Guarded (step cfg) (KnownUri cfg) init es) :
    OneSlot s.table := by
  have hs : UriInv cfg s := guarded_invariant uriInv_step uriInv_init hg h
  exact ⟨hs.replays, hs.single⟩

/-! ### Runs -/

/-- A call of the only thread and its steps. -/
def oneRun (a : Answer) (c : Call) (n : ℕ) : List (Event Unit) :=
  .call () c a :: List.replicate n (.next () a)

/-- The module `a` is opened twice, `b` once, and `a` is closed twice. -/
def balancedRun : List (Event Unit) :=
  oneRun quiet (.openModTableOpen ['a']) 14 ++ oneRun quiet (.openModTableOpen ['a']) 3 ++
    oneRun quiet (.openModTableOpen ['b']) 14 ++ oneRun quiet (.openModTableClose 0x10000) 1 ++
      oneRun quiet (.openModTableClose 0x10000) 3

theorem one_slot_per_uri_balanced :
    ∃ s, run (step plainConfig) init balancedRun = some s ∧ OneSlot s.table ∧
      s.table.registry = [⟨['b'], 0x10100, 1⟩] := by
  have hrun : (run (step plainConfig) init balancedRun).map (fun s => s.table.registry) =
      some [⟨['b'], 0x10100, 1⟩] := by decide +kernel
  obtain ⟨s, hs, hregistry⟩ := Option.map_eq_some_iff.mp hrun
  have hg : Guarded (step plainConfig) (KnownUri plainConfig) init balancedRun := by
    decide +kernel
  exact ⟨s, hs, one_slot_per_uri hs hg, hregistry⟩

/-- No library is there. -/
def absent : Answer := ⟨true, fun _ => (0, false), fun _ _ => 0, fun _ => (0, 0), 0, 0⟩

/-- `"file:///a?b"`. -/
def callerUri : Str := fileScheme ++ ['/', 'a', '?', 'b']

/-- `"file://a?b"`. -/
def builtUri : Str := fileScheme ++ ['a', '?', 'b']

/-- A table at `0x10000` with one static module, registered under `builtUri`. -/
def staticConfig : Config :=
  ⟨0x10000, 144, fun _ => none, fun uri => if uri = builtUri then some ⟨0x7100, 0⟩ else none,
    fun _ => false⟩

/-- The static module is opened twice under one URI. -/
def staticRun : List (Event Unit) :=
  oneRun absent (.openModTableOpen callerUri) 21 ++ oneRun absent (.openModTableOpen callerUri) 21

/-- **A URI gets two slots**: the second open of the URI does not find the first, and returns
another handle. -/
theorem opens_twice :
    ∃ s, run (step staticConfig) init staticRun = some s ∧
      s.table.trace = [.opened callerUri 0x10000, .opened callerUri 0x10100] ∧
        s.table.registry = [⟨builtUri, 0x10100, 1⟩, ⟨builtUri, 0x10000, 1⟩] ∧ ¬ OneSlot s.table := by
  have hrun : (run (step staticConfig) init staticRun).map
      (fun s => (s.table.trace, s.table.registry)) =
        some ([.opened callerUri 0x10000, .opened callerUri 0x10100],
          [⟨builtUri, 0x10100, 1⟩, ⟨builtUri, 0x10000, 1⟩]) := by decide +kernel
  obtain ⟨s, hs, hseen⟩ := Option.map_eq_some_iff.mp hrun
  obtain ⟨htrace, hregistry⟩ := Prod.mk.inj hseen
  refine ⟨s, hs, htrace, hregistry, ?_⟩
  intro hone
  have hreplays := hone.replays
  rw [htrace] at hreplays
  have hnone : replay [.opened callerUri 0x10000, .opened callerUri 0x10100] = none := by decide
  rw [hnone] at hreplays
  cases hreplays

end FastRpc.ModTable
