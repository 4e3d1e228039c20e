import FastRpc.ModTableMoves

/-! # What is seen of a step of the reverse modules

`advance_trace` lists what a step adds to the trace: the results of the opens and closes, exactly
(`seen`), and of the calls that an unload makes, which module they were asked for and which they go
into (`CallsFrom`). -/

namespace FastRpc.ModTable

/-- The result of an open or of the locked section of a close. -/
def Obs.listed : Obs → Bool
  | .opened _ _ => true
  | .closed _ _ => true
  | .notClosed _ => true
  | _ => false

/-- A call into a module: the one that it was asked for, and the one that it goes into. -/
def Obs.call : Obs → Option (Mod × Mod)
  | .closesEntry asked called => some (asked, called)
  | .dlcloses asked called => some (asked, called)
  | _ => none

/-- The calls that a step can make. -/
def Pc.Calls (t : Table) (pc : Pc) (call : Mod × Mod) : Prop :=
  ∃ c m stage, pc = .finish c m stage ∧ call = (c.asked m, t.mod m.slot)

/-- The results of opens and closes that a step adds. -/
def seen (t : Table) (pc : Pc) (t' : Table) (pc' : Pc) : List Obs :=
  match pc with
  | .search _ uri =>
      match t.openedSlot uri with
      | some i => [.opened uri (u32 (t.slots i).key)]
      | none => []
  | .add _ uri m => if pc' = .unlock then [.opened uri (u32 (t'.slots m.slot).key)] else []
  | .close handle =>
      match t.find handle with
      | some i => [.closed handle (decide ((t.core i).refs = 1))]
      | none => [.notClosed handle]
  | _ => []

section Seen

variable {t t' : Table} {pc' : Pc}

theorem seen_search_none {p : Path} {uri : Str} (h : t.openedSlot uri = none) :
    seen t (.search p uri) t' pc' = [] := by
  unfold seen
  dsimp only
  rw [h]

theorem seen_search_some {p : Path} {uri : Str} {i : Slot} (h : t.openedSlot uri = some i) :
    seen t (.search p uri) t' pc' = [.opened uri (u32 (t.slots i).key)] := by
  unfold seen
  dsimp only
  rw [h]

theorem seen_close_none {handle : ℕ} (h : t.find handle = none) :
    seen t (.close handle) t' pc' = [.notClosed handle] := by
  unfold seen
  dsimp only
  rw [h]

theorem seen_close_some {handle : ℕ} {i : Slot} (h : t.find handle = some i) :
    seen t (.close handle) t' pc' = [.closed handle (decide ((t.core i).refs = 1))] := by
  unfold seen
  dsimp only
  rw [h]

end Seen

/-- A step adds the results `listed`, and its calls satisfy `P`. -/
def Adds (t t' : Table) (listed : List Obs) (P : Mod × Mod → Prop) : Prop :=
  ∃ added, t'.trace = t.trace ++ added ∧ added.filter Obs.listed = listed ∧
    ∀ o ∈ added, ∀ call, o.call = some call → P call

section Adds

variable {t t' t'' : Table} {P : Mod × Mod → Prop}

theorem adds_none (h : t'.trace = t.trace) : Adds t t' [] P :=
  ⟨[], h.trans (List.append_nil _).symm, rfl, fun _ ho => nomatch ho⟩

theorem adds_listed {o : Obs} (h : t'.trace = t.trace ++ [o]) (ho : o.listed = true)
    (hcall : o.call = none) : Adds t t' [o] P := by
  refine ⟨[o], h, ?_, ?_⟩
  · rw [List.filter_singleton, ho]
    rfl
  · intro o' ho' call hsome
    obtain rfl := List.mem_singleton.mp ho'
    rw [hcall] at hsome
    cases hsome

theorem adds_unlisted {o : Obs} (h : t'.trace = t.trace ++ [o]) (ho : o.listed = false)
    (hP : ∀ call, o.call = some call → P call) : Adds t t' [] P := by
  refine ⟨[o], h, ?_, ?_⟩
  · rw [List.filter_singleton, ho]
    rfl
  · intro o' ho'
    obtain rfl := List.mem_singleton.mp ho'
    exact hP

/-- A result that the registry does not know. -/
theorem adds_result {o : Obs} (h : t'.trace = t.trace ++ [o]) (ho : o.listed = false)
    (hcall : o.call = none) : Adds t t' [] P := by
  apply adds_unlisted h ho
  intro call hsome
  rw [hcall] at hsome
  cases hsome

theorem Adds.trans {l l' : List Obs} (h : Adds t t' l P) (h' : Adds t' t'' l' P) :
    Adds t t'' (l ++ l') P := by
  obtain ⟨added, htrace, rfl, hP⟩ := h
  obtain ⟨added', htrace', rfl, hP'⟩ := h'
  refine ⟨added ++ added', ?_, List.filter_append .., ?_⟩
  · rw [htrace', htrace, List.append_assoc]
  · intro o ho
    obtain ho | ho := List.mem_append.mp ho
    · exact hP o ho
    · exact hP' o ho

end Adds

/-! ### The steps -/

section Steps

variable {cfg : Config} {t : Table} {a : Answer} {P : Mod × Mod → Prop}

theorem adds_startStatic (uri : Str) (dlErr : ℤ) :
    Adds t (startStatic cfg t uri dlErr).1 [] P := by
  unfold startStatic
  split_ifs
  · exact adds_none rfl
  · exact adds_result rfl rfl rfl

theorem adds_startDynamic (uri : Str) : Adds t (startDynamic cfg t uri a).1 [] P := by
  unfold startDynamic
  split_ifs
  · exact adds_none rfl
  · exact adds_result rfl rfl rfl

theorem adds_afterFailure (p : Path) (uri : Str) (nErr dlErr : ℤ) :
    Adds t (afterFailure cfg t p uri nErr dlErr a).1 [] P := by
  cases p with
  | override => exact adds_startDynamic uri
  | dynamic =>
      unfold afterFailure
      dsimp only
      split_ifs
      · exact adds_result rfl rfl rfl
      · exact adds_startStatic uri dlErr
  | static dlErr => exact adds_result rfl rfl rfl

theorem adds_finished (c : Closer) : Adds t (finished cfg t a c).1 [] P := by
  cases c with
  | failed p uri nErr dlErr => exact adds_afterFailure p uri nErr dlErr
  | table handle => exact adds_none rfl
  | invoke handle asked nErr => exact adds_result rfl rfl rfl

theorem adds_enter (c : Call) : Adds t (enter cfg t a c).1 [] P := by
  cases c with
  | openModTableOpen uri =>
      unfold enter startOpen
      dsimp only
      split_ifs
      · exact adds_none rfl
      · exact adds_startDynamic uri
  | openModTableClose handle => exact adds_none rfl
  | openModTableHandleInvoke handle =>
      unfold enter
      dsimp only
      split_ifs
      · exact adds_result rfl rfl rfl
      · exact adds_none rfl

theorem adds_afterCloseEntry (c : Closer) (m : Mod) :
    Adds t (afterCloseEntry t c m).1 [] P := by
  unfold afterCloseEntry
  split <;> exact adds_none rfl

theorem adds_afterDlclose (c : Closer) (m : Mod) (dlErr : ℤ) :
    Adds t (afterDlclose t c m dlErr).1 [] P := by
  unfold afterDlclose
  split
  · exact adds_result rfl rfl rfl
  · exact adds_none rfl

/-- The calls of an unload go into the module that is in its slot. -/
theorem adds_finishStep (c : Closer) (m : Mod) (stage : Stage) :
    Adds t (finishStep cfg t a c m stage).1 [] (Pc.Calls t (.finish c m stage)) := by
  have hcalls : ∀ call, some (c.asked m, t.mod m.slot) = some call →
      Pc.Calls t (.finish c m stage) call := by
    intro call hcall
    obtain rfl := Option.some.inj hcall
    exact ⟨c, m, stage, rfl, rfl⟩
  cases stage with
  | closeEntry =>
      unfold finishStep
      dsimp only
      split_ifs
      · exact (adds_unlisted (o := .closesEntry (c.asked m) (t.mod m.slot)) rfl rfl hcalls).trans
          (adds_afterCloseEntry c m)
      · exact adds_afterCloseEntry c m
  | dlclose =>
      unfold finishStep
      dsimp only
      split_ifs
      · exact (adds_unlisted (o := .dlcloses (c.asked m) (t.mod m.slot)) rfl rfl hcalls).trans
          (adds_afterDlclose c m _)
      · exact adds_afterDlclose c m _
  | clearKey => exact Adds.trans (show Adds t (t.clearKey m.slot) [] _ from adds_none rfl) (adds_finished c)

theorem adds_takeStep (p : Path) (uri : Str) : Adds t (takeStep cfg t p uri).1 [] P := by
  unfold takeStep
  cases t.nextAvailableRevHandle with
  | none => exact adds_none rfl
  | some i =>
      dsimp only
      split_ifs
      · exact adds_none rfl
      · unfold takeStatic
        dsimp only
        cases (fromStatic (p.table cfg) uri).2 with
        | error nErr => exact adds_none rfl
        | ok sm => exact adds_none rfl

theorem adds_symbolStep (p : Path) (uri : Str) (m : Mod) :
    Adds t (symbolStep cfg t p uri m a).1 [] P := by
  unfold symbolStep
  by_cases hp : p = .dynamic
  · rw [if_pos hp]
    unfold symbolDynamic
    dsimp only
    split_ifs
    · exact adds_none rfl
    · exact adds_none rfl
  · rw [if_neg hp]
    unfold symbolStatic
    cases (fromStatic (p.table cfg) uri).2 with
    | error nErr => exact adds_none rfl
    | ok sm => exact adds_none rfl

theorem adds_addStep (p : Path) (uri : Str) (m : Mod) :
    Adds t (addStep cfg t p uri m).1
      (seen t (.add p uri m) (addStep cfg t p uri m).1 (addStep cfg t p uri m).2) P := by
  unfold addStep
  by_cases hp : p = .dynamic
  · rw [if_pos hp]
    unfold Table.addDynamic
    dsimp only
    by_cases hconst : cfg.constMods (u32 (t.freshKey t.openMods.length (t.slots m.slot).key)) = true
    · rw [if_pos hconst]
      exact adds_none rfl
    · rw [if_neg hconst]
      refine adds_listed ?_ rfl rfl
      simp only [Table.emit, Table.hashAdd, Table.setSlot, Function.update_self]
  · rw [if_neg hp]
    exact adds_listed rfl rfl rfl

theorem adds_searchStep (p : Path) (uri : Str) :
    Adds t (searchStep t p uri).1
      (seen t (.search p uri) (searchStep t p uri).1 (searchStep t p uri).2) P := by
  unfold searchStep Table.isReverseHandleOpened
  cases hfind : t.openedSlot uri with
  | none =>
      rw [seen_search_none hfind]
      exact adds_none rfl
  | some i =>
      rw [seen_search_some hfind]
      exact adds_listed rfl rfl rfl

theorem adds_closeStep (handle : ℕ) :
    Adds t (closeStep t handle).1
      (seen t (.close handle) (closeStep t handle).1 (closeStep t handle).2) P := by
  unfold closeStep Table.openModTableClose
  cases hfind : t.find handle with
  | none =>
      rw [seen_close_none hfind]
      exact adds_listed rfl rfl rfl
  | some i =>
      rw [seen_close_some hfind]
      dsimp only
      by_cases hlast : (({ t.addRefs i (-1) with
          opens := Function.update t.opens i (t.opens i - 1) } : Table).slots i).refs = 0
      · have hone : (t.core i).refs = 1 := by
          rw [dec_refs] at hlast
          omega
        rw [if_pos hlast, decide_eq_true hone]
        exact adds_listed rfl rfl rfl
      · have hone : (t.core i).refs ≠ 1 := by
          rw [dec_refs] at hlast
          omega
        rw [if_neg hlast, decide_eq_false hone]
        exact adds_listed rfl rfl rfl

theorem adds_endStep (handle : ℕ) (m : Mod) (nErr : ℤ) :
    Adds t (endStep t handle m nErr).1 [] P := by
  unfold endStep Table.openModClose
  dsimp only
  by_cases hlast : ((t.addRefs m.slot (-1)).slots m.slot).refs = 0
  · rw [if_pos hlast]
    exact adds_none rfl
  · rw [if_neg hlast]
    exact adds_result rfl rfl rfl

/-- **What is seen of a step.** -/
theorem advance_trace {pc : Pc} {r : Table × Pc} (h : advance cfg t a pc = some r) :
    Adds t r.1 (seen t pc r.1 r.2) (Pc.Calls t pc) := by
  cases pc with
  | idle => cases h
  | lock p uri =>
      unfold advance at h
      dsimp only at h
      split_ifs at h
      obtain rfl := Option.some.inj h
      exact adds_none rfl
  | search p uri =>
      obtain rfl := Option.some.inj h
      exact adds_searchStep p uri
  | take p uri =>
      obtain rfl := Option.some.inj h
      exact adds_takeStep p uri
  | load uri m =>
      obtain rfl := Option.some.inj h
      unfold loadStep
      dsimp only
      split_ifs
      · exact adds_none rfl
      · exact adds_none rfl
  | symbol p uri m =>
      obtain rfl := Option.some.inj h
      exact adds_symbolStep p uri m
  | entry p uri m =>
      obtain rfl := Option.some.inj h
      unfold entryStep
      dsimp only
      split_ifs
      · exact adds_none rfl
      · exact adds_none rfl
      · exact adds_none rfl
  | add p uri m =>
      obtain rfl := Option.some.inj h
      exact adds_addStep p uri m
  | unlock =>
      obtain rfl := Option.some.inj h
      exact adds_none rfl
  | fail p uri m nErr dlErr =>
      obtain rfl := Option.some.inj h
      cases m with
      | none =>
          exact Adds.trans (show Adds t { t with revLock := false } [] _ from adds_none rfl)
            (adds_afterFailure p uri nErr dlErr)
      | some m => exact adds_none rfl
  | close handle =>
      obtain rfl := Option.some.inj h
      exact adds_closeStep handle
  | invoke handle =>
      obtain rfl := Option.some.inj h
      unfold invokeStep Table.openModTableGetOpen
      cases t.find handle with
      | none => exact adds_result rfl rfl rfl
      | some i => exact adds_none rfl
  | invoking handle m =>
      obtain rfl := Option.some.inj h
      exact adds_none rfl
  | ended handle m nErr =>
      obtain rfl := Option.some.inj h
      exact adds_endStep handle m nErr
  | finish c m stage =>
      obtain rfl := Option.some.inj h
      exact adds_finishStep c m stage

end Steps

/-- **What is seen of a step of the system.** -/
theorem step_trace {ι : Type} [DecidableEq ι] {cfg : Config} {s s' : State ι} {e : Event ι}
    (h : step cfg s e = some s') :
    Adds s.table s'.table (seen s.table (s.pc e.thread) s'.table (s'.pc e.thread))
      (Pc.Calls s.table (s.pc e.thread)) := by
  cases e with
  | call i c a =>
      unfold step at h
      dsimp only at h
      split_ifs at h with hcall
      obtain rfl := Option.some.inj h
      have hidle : s.pc (Event.call i c a).thread = .idle := hcall.2
      rw [hidle]
      exact adds_enter c
  | next i a =>
      unfold step at h
      dsimp only at h
      split_ifs at h
      obtain ⟨r, hr, rfl⟩ := Option.map_eq_some_iff.mp h
      have hseen := advance_trace hr
      rwa [← Function.update_self i r.2 s.pc] at hseen

end FastRpc.ModTable
