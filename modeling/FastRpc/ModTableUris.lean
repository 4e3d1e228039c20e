import FastRpc.ModTableSlots
import FastRpc.Registry

/-! # One slot for each URI

`is_reverse_handle_opened` compares the URI of the caller with the one in the slot.  A dynamic open
stores the caller's URI; a static open that does not find its module under this URI stores the one
that it builds from the parts, and the next open of the same URI takes another slot
(`opens_twice`).

The specification is the registry of `Registry`: replaying the opens and closes that were seen gives
the open modules with their handles and reference counts.  `one_slot_per_uri` says that the table
implements it when every static module is found under the URI of the caller.  The runs are those of
one thread. -/

namespace FastRpc.ModTable

open Transition

/-! ### What is claimed -/

/-- What an open or a close says about the registry. -/
def Obs.registers (r : List (Registry.Entry Str ℕ)) : Obs → Option (List (Registry.Entry Str ℕ))
  | .opened uri handle => Registry.opened r uri handle
  | .closed handle unloaded => Registry.closed r handle unloaded
  | .notClosed handle => Registry.notClosed r handle
  | _ => some r

/-- The registry behind the opens and closes of a trace. -/
def replay (trace : List Obs) : Option (List (Registry.Entry Str ℕ)) :=
  trace.foldlM Obs.registers []

/-- The open module of a hash entry. -/
def Table.entryOf (t : Table) (e : Slot × ℕ) : Registry.Entry Str ℕ :=
  ⟨(t.slots e.1).uri, e.2, (t.slots e.1).refs⟩

/-- The open modules. -/
def Table.registry (t : Table) : List (Registry.Entry Str ℕ) := t.openMods.map t.entryOf

/-- **What is claimed of a state**: the open modules are those of the registry that the opens and
closes describe, and no two occupied slots have the same URI. -/
structure OneSlot (t : Table) : Prop where
  replays : replay t.trace = some t.registry
  single : ∀ i j, (t.slots i).key ≠ 0 → (t.slots j).key ≠ 0 → (t.slots i).uri = (t.slots j).uri →
    i = j

/-- Only opens and closes are called, a static open finds its module under the URI of the caller or
not at all, the slot that is filled in has an address that is not a multiple of `2 ^ 32`, and the
count of a module that is opened again fits into `int`. -/
def KnownUri (cfg : Config) (s : State Unit) : Event Unit → Prop
  | .call _ (.openModTableHandleInvoke _) _ => False
  | .call _ _ _ => True
  | .next i a =>
      match s.pc i with
      | .search _ uri => ∀ l, s.table.openedSlot uri = some l → (s.table.slots l).refs + 1 < 2 ^ 31
      | .take p uri => p ≠ .dynamic → ∀ sm, (fromStatic (p.table cfg) uri).2 = .ok sm →
          p.table cfg uri = some sm
      | .symbol p uri m =>
          (symbolStep cfg s.table p uri m a).2 = .entry p uri m → cfg.slotKey m.slot ≠ 0
      | _ => True

instance (cfg : Config) (s : State Unit) (e : Event Unit) : Decidable (KnownUri cfg s e) :=
  match e with
  | .call _ (.openModTableHandleInvoke _) _ => isFalse id
  | .call _ (.openModTableOpen _) _ => isTrue trivial
  | .call _ (.openModTableClose _) _ => isTrue trivial
  | .next i a =>
      match h : s.pc i with
      | .search _ uri =>
          decidable_of_iff (∀ l, s.table.openedSlot uri = some l →
              (s.table.slots l).refs + 1 < 2 ^ 31) (by
            unfold KnownUri
            dsimp only
            rw [h])
      | .take p uri =>
          decidable_of_iff (p ≠ .dynamic → ∀ sm ∈ (fromStatic (p.table cfg) uri).2.toOption,
              p.table cfg uri = some sm) (by
            unfold KnownUri
            dsimp only
            rw [h]
            cases hfound : (fromStatic (p.table cfg) uri).2 <;> simp [Except.toOption, hfound])
      | .symbol p uri m =>
          decidable_of_iff ((symbolStep cfg s.table p uri m a).2 = .entry p uri m →
              cfg.slotKey m.slot ≠ 0) (by
            unfold KnownUri
            dsimp only
            rw [h])
      | .idle | .lock _ _ | .load _ _ | .entry _ _ _ | .add _ _ _ | .unlock
      | .fail _ _ _ _ _ | .close _ | .invoke _ | .invoking _ _ | .ended _ _ _ | .finish _ _ _ =>
          isTrue (by
            unfold KnownUri
            dsimp only
            rw [h]
            trivial)

/-! ### Replays -/

theorem replay_append (trace added : List Obs) :
    replay (trace ++ added) = (replay trace).bind (fun r => added.foldlM Obs.registers r) := by
  unfold replay
  rw [List.foldlM_append]
  rfl

/-- What is not listed changes nothing. -/
theorem foldlM_registers (added : List Obs) (r : List (Registry.Entry Str ℕ)) :
    (added.filter Obs.listed).foldlM Obs.registers r = added.foldlM Obs.registers r := by
  induction added generalizing r with
  | nil => rfl
  | cons o added ih =>
      cases o with
      | opened uri handle => simp only [List.filter, Obs.listed, List.foldlM_cons, ih]
      | closed handle unloaded => simp only [List.filter, Obs.listed, List.foldlM_cons, ih]
      | notClosed handle => simp only [List.filter, Obs.listed, List.foldlM_cons, ih]
      | _ => exact ih r

theorem registers_wellFormed {r r' : List (Registry.Entry Str ℕ)} {o : Obs}
    (hr : Registry.WellFormed r) (h : o.registers r = some r') : Registry.WellFormed r' := by
  cases o with
  | opened uri handle => exact hr.opened h
  | closed handle unloaded => exact hr.closed h
  | notClosed handle =>
      unfold Obs.registers Registry.notClosed at h
      dsimp only at h
      split_ifs at h
      exact Option.some.inj h ▸ hr
  | _ => exact Option.some.inj h ▸ hr

/-- The registry behind a trace is well formed. -/
theorem replay_wellFormed {trace : List Obs} {r : List (Registry.Entry Str ℕ)}
    (h : replay trace = some r) : Registry.WellFormed r := by
  have hfold : ∀ (trace : List Obs) (r r' : List (Registry.Entry Str ℕ)), Registry.WellFormed r →
      trace.foldlM Obs.registers r = some r' → Registry.WellFormed r' := by
    intro trace
    induction trace with
    | nil => exact fun r r' hr h => Option.some.inj h ▸ hr
    | cons o trace ih =>
        intro r r' hr h
        rw [List.foldlM_cons] at h
        obtain ⟨r'', ho, h⟩ := Option.bind_eq_some_iff.mp h
        exact ih r'' r' (registers_wellFormed hr ho) h
  exact hfold trace [] r Registry.wellFormed_nil h

/-- The replay after a step. -/
theorem Adds.replay {t t' : Table} {listed : List Obs} {P : Mod × Mod → Prop}
    (h : Adds t t' listed P) {r : List (Registry.Entry Str ℕ)} (hr : replay t.trace = some r) :
    replay t'.trace = listed.foldlM Obs.registers r := by
  obtain ⟨added, htrace, rfl, -⟩ := h
  rw [htrace, replay_append, hr, foldlM_registers]
  rfl

/-! ### The places of an open -/

/-- The URI and the module of an open that has taken a slot. -/
def Pc.opening : Pc → Option (Str × Mod)
  | .load uri m => some (uri, m)
  | .symbol _ uri m => some (uri, m)
  | .entry _ uri m => some (uri, m)
  | .add _ uri m => some (uri, m)
  | _ => none

/-- The URI that an open has not found. -/
def Pc.missing : Pc → Option Str
  | .take _ uri => some uri
  | pc => pc.opening.map Prod.fst

/-- The thread is in an invocation. -/
def Pc.invokes : Pc → Bool
  | .invoke _ => true
  | .invoking _ _ => true
  | .ended _ _ _ => true
  | .finish (.invoke _ _ _) _ _ => true
  | _ => false

/-- What a step does to the URIs of the slots and to its place in an open. -/
inductive Places (cfg : Config) (t : Table) (pc : Pc) (t' : Table) (pc' : Pc) : Prop
  | keeps (huri : ∀ i, (t'.slots i).uri = (t.slots i).uri)
      (hopening : pc'.opening = none ∨ pc'.opening = pc.opening)
      (hmissing : pc'.missing = none ∨ pc'.missing = pc.missing)
  | looks (p : Path) (uri : Str) (hpc : pc = .search p uri) (hpc' : pc' = .take p uri)
      (hnone : t.openedSlot uri = none) (ht : t' = t)
  | takes (p : Path) (uri : Str) (i : Slot) (hpc : pc = .take p uri)
      (hfree : t.nextAvailableRevHandle = some i)
      (huri : ∀ j, j ≠ i → (t'.slots j).uri = (t.slots j).uri)
      (hmissing : pc'.missing = none ∨ pc'.missing = some uri)
      (hopening : pc'.opening = none ∨ pc'.opening = some (uri, ⟨i, (t.core i).number + 1⟩))
      (hstored : (p ≠ .dynamic → ∀ sm, (fromStatic (p.table cfg) uri).2 = .ok sm →
        p.table cfg uri = some sm) → pc'.opening ≠ none → (t'.slots i).uri = uri)

section Steps

variable {cfg : Config} {t : Table} {a : Answer}

/-- A step that writes nothing into the slots. -/
theorem Places.same {t' : Table} {pc pc' : Pc} (h : t'.slots = t.slots)
    (hopening : pc'.opening = none ∨ pc'.opening = pc.opening)
    (hmissing : pc'.missing = none ∨ pc'.missing = pc.missing) : Places cfg t pc t' pc' :=
  .keeps (fun i => congrArg OpenMod.uri (congrFun h i)) hopening hmissing

/-- A step that keeps the URI of the slot that it writes. -/
theorem setSlot_uri {i : Slot} {dm : OpenMod} (h : dm.uri = (t.slots i).uri) (j : Slot) :
    ((t.setSlot i dm).slots j).uri = (t.slots j).uri := by
  unfold Table.setSlot
  dsimp only
  by_cases hj : j = i
  · rw [hj, Function.update_self, h]
  · rw [Function.update_of_ne hj]

theorem clearKey_uri (i j : Slot) : ((t.clearKey i).slots j).uri = (t.slots j).uri := by
  unfold Table.clearKey
  refine setSlot_uri ?_ j
  rfl

theorem take_uri {i j : Slot} (hj : j ≠ i) (uri : Str) (vals : ParsedUri) :
    ((t.take i uri vals).slots j).uri = (t.slots j).uri := by
  unfold Table.take Table.setSlot
  dsimp only
  rw [Function.update_of_ne hj]

theorem take_uri_self (i : Slot) (uri : Str) (vals : ParsedUri) :
    ((t.take i uri vals).slots i).uri = uri := by
  unfold Table.take Table.setSlot
  dsimp only
  rw [Function.update_self]

/-- What an open does between its attempts writes no slot. -/
structure Outside (t : Table) (r : Table × Pc) : Prop where
  slots : r.1.slots = t.slots
  undefined : r.1.undefined = t.undefined
  opening : r.2.opening = none
  missing : r.2.missing = none
  invokes : r.2.invokes = false

theorem outside_startStatic (uri : Str) (dlErr : ℤ) :
    Outside t (startStatic cfg t uri dlErr) := by
  unfold startStatic
  split_ifs
  · exact ⟨rfl, rfl, rfl, rfl, rfl⟩
  · exact ⟨rfl, rfl, rfl, rfl, rfl⟩

theorem outside_startDynamic (uri : Str) : Outside t (startDynamic cfg t uri a) := by
  unfold startDynamic
  split_ifs
  · exact ⟨rfl, rfl, rfl, rfl, rfl⟩
  · exact ⟨rfl, rfl, rfl, rfl, rfl⟩

theorem outside_afterFailure (p : Path) (uri : Str) (nErr dlErr : ℤ) :
    Outside t (afterFailure cfg t p uri nErr dlErr a) := by
  cases p with
  | override => exact outside_startDynamic uri
  | dynamic =>
      unfold afterFailure
      dsimp only
      split_ifs
      · exact ⟨rfl, rfl, rfl, rfl, rfl⟩
      · exact outside_startStatic uri dlErr
  | static dlErr => exact ⟨rfl, rfl, rfl, rfl, rfl⟩

theorem outside_finished (c : Closer) : Outside t (finished cfg t a c) := by
  cases c with
  | failed p uri nErr dlErr => exact outside_afterFailure p uri nErr dlErr
  | table handle => exact ⟨rfl, rfl, rfl, rfl, rfl⟩
  | invoke handle asked nErr => exact ⟨rfl, rfl, rfl, rfl, rfl⟩

/-- A call of an open or a close starts outside. -/
theorem outside_enter {c : Call} (hc : ∀ handle, c ≠ .openModTableHandleInvoke handle) :
    Outside t (enter cfg t a c) := by
  cases c with
  | openModTableOpen uri =>
      unfold enter startOpen
      dsimp only
      split_ifs
      · exact ⟨rfl, rfl, rfl, rfl, rfl⟩
      · exact outside_startDynamic uri
  | openModTableClose handle => exact ⟨rfl, rfl, rfl, rfl, rfl⟩
  | openModTableHandleInvoke handle => exact absurd rfl (hc handle)

theorem Outside.places {r : Table × Pc} (h : Outside t r) (pc : Pc) : Places cfg t pc r.1 r.2 :=
  .same h.slots (Or.inl h.opening) (Or.inl h.missing)

theorem places_takeStep (p : Path) (uri : Str) :
    Places cfg t (.take p uri) (takeStep cfg t p uri).1 (takeStep cfg t p uri).2 := by
  unfold takeStep
  cases hfree : t.nextAvailableRevHandle with
  | none => exact .same rfl (Or.inl rfl) (Or.inl rfl)
  | some i =>
      dsimp only
      by_cases hp : p = .dynamic
      · rw [if_pos hp]
        refine .takes p uri i rfl hfree (fun j hj => take_uri hj _ _) (Or.inr rfl) (Or.inr ?_)
          (fun _ _ => take_uri_self i _ _)
        exact congrArg (fun m => some (uri, m)) (take_mod t i _ _)
      · rw [if_neg hp]
        unfold takeStatic
        dsimp only
        cases hfound : (fromStatic (p.table cfg) uri).2 with
        | error nErr =>
            exact .takes p uri i rfl hfree (fun j hj => take_uri hj _ _) (Or.inl rfl) (Or.inl rfl)
              (fun _ hne => absurd rfl hne)
        | ok sm =>
            refine .takes p uri i rfl hfree (fun j hj => take_uri hj _ _) (Or.inr rfl) (Or.inr ?_)
              (fun hknown _ => ?_)
            · exact congrArg (fun m => some (uri, m)) (take_mod t i _ _)
            · rw [take_uri_self]
              unfold fromStatic
              rw [hknown hp sm hfound]

theorem places_symbolStep (p : Path) (uri : Str) (m : Mod) :
    Places cfg t (.symbol p uri m) (symbolStep cfg t p uri m a).1
      (symbolStep cfg t p uri m a).2 := by
  have hfill : ∀ invoke handleInvoke i,
      ((t.fill cfg m.slot invoke handleInvoke).slots i).uri = (t.slots i).uri :=
    fun _ _ => setSlot_uri rfl
  unfold symbolStep
  by_cases hp : p = .dynamic
  · rw [if_pos hp]
    unfold symbolDynamic
    dsimp only
    split_ifs
    · exact .same rfl (Or.inl rfl) (Or.inl rfl)
    · exact .keeps (hfill _ _) (Or.inr rfl) (Or.inr rfl)
  · rw [if_neg hp]
    unfold symbolStatic
    cases (fromStatic (p.table cfg) uri).2 with
    | error nErr => exact .same rfl (Or.inl rfl) (Or.inl rfl)
    | ok sm => exact .keeps (hfill _ _) (Or.inr rfl) (Or.inr rfl)

theorem places_addStep (p : Path) (uri : Str) (m : Mod) :
    Places cfg t (.add p uri m) (addStep cfg t p uri m).1 (addStep cfg t p uri m).2 := by
  unfold addStep
  by_cases hp : p = .dynamic
  · rw [if_pos hp]
    unfold Table.addDynamic
    dsimp only
    by_cases hconst : cfg.constMods (u32 (t.freshKey t.openMods.length (t.slots m.slot).key)) = true
    · rw [if_pos hconst]
      exact .keeps (setSlot_uri rfl) (Or.inl rfl) (Or.inl rfl)
    · rw [if_neg hconst]
      exact .keeps (setSlot_uri rfl) (Or.inl rfl) (Or.inl rfl)
  · rw [if_neg hp]
    exact .same rfl (Or.inl rfl) (Or.inl rfl)

theorem places_closeStep (handle : ℕ) :
    Places cfg t (.close handle) (closeStep t handle).1 (closeStep t handle).2 := by
  unfold closeStep Table.openModTableClose
  cases t.find handle with
  | none => exact .same rfl (Or.inl rfl) (Or.inl rfl)
  | some i =>
      have hdec : ∀ n j, ((t.addRefs i n).slots j).uri = (t.slots j).uri :=
        fun _ => setSlot_uri rfl
      dsimp only
      by_cases hlast : (({ t.addRefs i (-1) with
          opens := Function.update t.opens i (t.opens i - 1) } : Table).slots i).refs = 0
      · rw [if_pos hlast]
        refine .keeps (fun j => ?_) (Or.inl rfl) (Or.inl rfl)
        exact (clearKey_uri (t := t.addRefs i (-1)) i j).trans (hdec (-1) j)
      · rw [if_neg hlast]
        exact .keeps (hdec (-1)) (Or.inl rfl) (Or.inl rfl)

/-- **What a step does to the URIs.** -/
theorem advance_places {pc : Pc} {r : Table × Pc} (h : advance cfg t a pc = some r) :
    Places cfg t pc r.1 r.2 := by
  cases pc with
  | idle => cases h
  | lock p uri =>
      unfold advance at h
      dsimp only at h
      split_ifs at h
      obtain rfl := Option.some.inj h
      exact .same rfl (Or.inl rfl) (Or.inl rfl)
  | search p uri =>
      obtain rfl := Option.some.inj h
      unfold searchStep Table.isReverseHandleOpened
      cases hfind : t.openedSlot uri with
      | none => exact .looks p uri rfl rfl hfind rfl
      | some i => exact .keeps (setSlot_uri rfl) (Or.inl rfl) (Or.inl rfl)
  | take p uri =>
      obtain rfl := Option.some.inj h
      exact places_takeStep p uri
  | load uri m =>
      obtain rfl := Option.some.inj h
      unfold loadStep
      dsimp only
      split_ifs
      · exact .keeps (setSlot_uri rfl) (Or.inl rfl) (Or.inl rfl)
      · exact .keeps (setSlot_uri rfl) (Or.inr rfl) (Or.inr rfl)
  | symbol p uri m =>
      obtain rfl := Option.some.inj h
      exact places_symbolStep p uri m
  | entry p uri m =>
      obtain rfl := Option.some.inj h
      unfold entryStep
      dsimp only
      split_ifs
      · exact .same rfl (Or.inr rfl) (Or.inr rfl)
      · exact .same rfl (Or.inl rfl) (Or.inl rfl)
      · exact .keeps (setSlot_uri rfl) (Or.inr rfl) (Or.inr rfl)
  | add p uri m =>
      obtain rfl := Option.some.inj h
      exact places_addStep p uri m
  | unlock =>
      obtain rfl := Option.some.inj h
      exact .same rfl (Or.inl rfl) (Or.inl rfl)
  | fail p uri m nErr dlErr =>
      obtain rfl := Option.some.inj h
      cases m with
      | none =>
          have houtside : Outside { t with revLock := false } (afterFailure cfg _ p uri nErr dlErr a) :=
            outside_afterFailure p uri nErr dlErr
          exact .same houtside.slots (Or.inl houtside.opening) (Or.inl houtside.missing)
      | some m => exact .same rfl (Or.inl rfl) (Or.inl rfl)
  | close handle =>
      obtain rfl := Option.some.inj h
      exact places_closeStep handle
  | invoke handle =>
      obtain rfl := Option.some.inj h
      unfold invokeStep Table.openModTableGetOpen
      cases t.find handle with
      | none => exact .same rfl (Or.inl rfl) (Or.inl rfl)
      | some i => exact .keeps (setSlot_uri rfl) (Or.inl rfl) (Or.inl rfl)
  | invoking handle m =>
      obtain rfl := Option.some.inj h
      exact .same rfl (Or.inl rfl) (Or.inl rfl)
  | ended handle m nErr =>
      obtain rfl := Option.some.inj h
      unfold endStep Table.openModClose
      dsimp only
      by_cases hlast : ((t.addRefs m.slot (-1)).slots m.slot).refs = 0
      · rw [if_pos hlast]
        exact .keeps (setSlot_uri rfl) (Or.inl rfl) (Or.inl rfl)
      · rw [if_neg hlast]
        exact .keeps (setSlot_uri rfl) (Or.inl rfl) (Or.inl rfl)
  | finish c m stage =>
      obtain rfl := Option.some.inj h
      cases stage with
      | closeEntry =>
          unfold finishStep afterCloseEntry
          dsimp only
          split_ifs
          · split <;> exact .same rfl (Or.inl rfl) (Or.inl rfl)
          · split <;> exact .same rfl (Or.inl rfl) (Or.inl rfl)
      | dlclose =>
          unfold finishStep afterDlclose
          dsimp only
          split_ifs
          · split <;> exact .same rfl (Or.inl rfl) (Or.inl rfl)
          · split <;> exact .same rfl (Or.inl rfl) (Or.inl rfl)
      | clearKey =>
          have houtside : Outside (t.clearKey m.slot) (finished cfg _ a c) := outside_finished c
          refine .keeps (fun i => ?_) (Or.inl houtside.opening) (Or.inl houtside.missing)
          exact (congrArg OpenMod.uri (congrFun houtside.slots i)).trans (clearKey_uri m.slot i)

/-- An open or a close does not become an invocation. -/
theorem advance_invokes {pc : Pc} {r : Table × Pc} (h : advance cfg t a pc = some r)
    (hpc : pc.invokes = false) : r.2.invokes = false := by
  cases pc with
  | idle => cases h
  | lock p uri =>
      unfold advance at h
      dsimp only at h
      split_ifs at h
      obtain rfl := Option.some.inj h
      rfl
  | search p uri =>
      obtain rfl := Option.some.inj h
      unfold searchStep Table.isReverseHandleOpened
      cases t.openedSlot uri with
      | none => rfl
      | some i => rfl
  | take p uri =>
      obtain rfl := Option.some.inj h
      unfold takeStep takeStatic takeDynamic
      cases t.nextAvailableRevHandle with
      | none => rfl
      | some i =>
          dsimp only
          split_ifs
          · rfl
          · cases (fromStatic (p.table cfg) uri).2 with
            | error nErr => rfl
            | ok sm => rfl
  | load uri m =>
      obtain rfl := Option.some.inj h
      unfold loadStep
      dsimp only
      split_ifs <;> rfl
  | symbol p uri m =>
      obtain rfl := Option.some.inj h
      unfold symbolStep symbolDynamic symbolStatic
      dsimp only
      split_ifs
      · rfl
      · rfl
      · cases (fromStatic (p.table cfg) uri).2 with
        | error nErr => rfl
        | ok sm => rfl
  | entry p uri m =>
      obtain rfl := Option.some.inj h
      unfold entryStep
      dsimp only
      split_ifs <;> rfl
  | add p uri m =>
      obtain rfl := Option.some.inj h
      unfold addStep
      split <;> rfl
  | unlock =>
      obtain rfl := Option.some.inj h
      rfl
  | fail p uri m nErr dlErr =>
      obtain rfl := Option.some.inj h
      cases m with
      | none => exact (outside_afterFailure p uri nErr dlErr).invokes
      | some m => rfl
  | close handle =>
      obtain rfl := Option.some.inj h
      unfold closeStep
      split <;> rfl
  | finish c m stage =>
      obtain rfl := Option.some.inj h
      cases stage with
      | closeEntry =>
          unfold finishStep afterCloseEntry
          cases c with
          | failed p uri nErr dlErr => cases p <;> dsimp only <;> split_ifs <;> rfl
          | table handle => dsimp only; split_ifs <;> rfl
          | invoke handle asked nErr => cases hpc
      | dlclose =>
          unfold finishStep afterDlclose
          cases c with
          | failed p uri nErr dlErr => dsimp only; split_ifs <;> rfl
          | table handle => dsimp only; split_ifs <;> rfl
          | invoke handle asked nErr => cases hpc
      | clearKey => exact (outside_finished c).invokes
  | invoke handle => cases hpc
  | invoking handle m => cases hpc
  | ended handle m nErr => cases hpc

theorem addRefs_defined {i : Slot} {n : ℤ} (hdef : t.undefined = false)
    (hlow : -2 ^ 31 ≤ (t.slots i).refs + n) (hhigh : (t.slots i).refs + n < 2 ^ 31) :
    (t.addRefs i n).undefined = false := by
  unfold Table.addRefs
  dsimp only
  rw [hdef, decide_eq_false (not_le.mpr hhigh), decide_eq_false (not_lt.mpr hlow)]
  rfl

theorem takeStep_defined (hdef : t.undefined = false)
    (htake : ∀ i, t.nextAvailableRevHandle = some i → t.isOpen i = false) (p : Path) (uri : Str) :
    (takeStep cfg t p uri).1.undefined = false := by
  unfold takeStep
  cases hfree : t.nextAvailableRevHandle with
  | none => exact hdef
  | some i =>
      have htaken : ∀ uri vals, (t.take i uri vals).undefined = false := by
        intro uri vals
        unfold Table.take
        dsimp only
        rw [hdef, htake i hfree]
        rfl
      dsimp only
      split_ifs
      · exact htaken _ _
      · unfold takeStatic
        dsimp only
        cases (fromStatic (p.table cfg) uri).2 with
        | error nErr => exact htaken _ _
        | ok sm => exact htaken _ _

theorem closeStep_defined (hdef : t.undefined = false)
    (hopen : ∀ i, t.isOpen i = true → 1 ≤ (t.slots i).refs ∧ (t.slots i).refs < 2 ^ 31)
    {handle : ℕ} (hfound : ∀ i, t.find handle = some i → t.isOpen i = true) :
    (closeStep t handle).1.undefined = false := by
  unfold closeStep Table.openModTableClose
  cases hfind : t.find handle with
  | none => exact hdef
  | some i =>
      obtain ⟨hlow, hhigh⟩ := hopen i (hfound i hfind)
      have hdec : (t.addRefs i (-1)).undefined = false :=
        addRefs_defined hdef (by omega) (by omega)
      dsimp only
      by_cases hlast : (({ t.addRefs i (-1) with
          opens := Function.update t.opens i (t.opens i - 1) } : Table).slots i).refs = 0
      · rw [if_pos hlast]
        exact Bool.or_eq_false_iff.mpr ⟨hdec, congrArg Bool.not (hfound i hfind)⟩
      · rw [if_neg hlast]
        exact hdec

/-- Opens and closes keep their meaning when the free slots are not in the hash and the counts of the
open modules fit into `int`. -/
theorem advance_defined {pc : Pc} {r : Table × Pc} (h : advance cfg t a pc = some r)
    (hdef : t.undefined = false) (hpc : pc.invokes = false)
    (hsearch : ∀ p uri i, pc = .search p uri → t.openedSlot uri = some i →
      -2 ^ 31 ≤ (t.slots i).refs + 1 ∧ (t.slots i).refs + 1 < 2 ^ 31)
    (htake : ∀ i, t.nextAvailableRevHandle = some i → t.isOpen i = false)
    (hopen : ∀ i, t.isOpen i = true → 1 ≤ (t.slots i).refs ∧ (t.slots i).refs < 2 ^ 31)
    (hfound : ∀ handle i, t.find handle = some i → t.isOpen i = true) :
    r.1.undefined = false := by
  cases pc with
  | idle => cases h
  | lock p uri =>
      unfold advance at h
      dsimp only at h
      split_ifs at h
      obtain rfl := Option.some.inj h
      exact hdef
  | search p uri =>
      obtain rfl := Option.some.inj h
      unfold searchStep Table.isReverseHandleOpened
      cases hfind : t.openedSlot uri with
      | none => exact hdef
      | some i =>
          obtain ⟨hlow, hhigh⟩ := hsearch p uri i rfl hfind
          exact addRefs_defined hdef hlow hhigh
  | take p uri =>
      obtain rfl := Option.some.inj h
      exact takeStep_defined hdef htake p uri
  | load uri m =>
      obtain rfl := Option.some.inj h
      unfold loadStep
      dsimp only
      split_ifs <;> exact hdef
  | symbol p uri m =>
      obtain rfl := Option.some.inj h
      unfold symbolStep symbolDynamic symbolStatic
      dsimp only
      split_ifs
      · exact hdef
      · exact hdef
      · cases (fromStatic (p.table cfg) uri).2 with
        | error nErr => exact hdef
        | ok sm => exact hdef
  | entry p uri m =>
      obtain rfl := Option.some.inj h
      unfold entryStep
      dsimp only
      split_ifs <;> exact hdef
  | add p uri m =>
      obtain rfl := Option.some.inj h
      unfold addStep
      by_cases hp : p = .dynamic
      · rw [if_pos hp]
        unfold Table.addDynamic
        dsimp only
        by_cases hconst :
            cfg.constMods (u32 (t.freshKey t.openMods.length (t.slots m.slot).key)) = true
        · rw [if_pos hconst]
          exact hdef
        · rw [if_neg hconst]
          exact hdef
      · rw [if_neg hp]
        exact hdef
  | unlock =>
      obtain rfl := Option.some.inj h
      exact hdef
  | fail p uri m nErr dlErr =>
      obtain rfl := Option.some.inj h
      cases m with
      | none =>
          have houtside : Outside { t with revLock := false } (afterFailure cfg _ p uri nErr dlErr a) :=
            outside_afterFailure p uri nErr dlErr
          exact houtside.undefined.trans hdef
      | some m => exact hdef
  | close handle =>
      obtain rfl := Option.some.inj h
      exact closeStep_defined hdef hopen (hfound handle)
  | finish c m stage =>
      obtain rfl := Option.some.inj h
      cases stage with
      | closeEntry =>
          unfold finishStep afterCloseEntry
          dsimp only
          split_ifs
          · split <;> exact hdef
          · split <;> exact hdef
      | dlclose =>
          unfold finishStep afterDlclose
          dsimp only
          split_ifs
          · split <;> exact hdef
          · split <;> exact hdef
      | clearKey =>
          have houtside : Outside (t.clearKey m.slot) (finished cfg _ a c) := outside_finished c
          exact houtside.undefined.trans hdef
  | invoke handle => cases hpc
  | invoking handle m => cases hpc
  | ended handle m nErr => cases hpc

end Steps

end FastRpc.ModTable
