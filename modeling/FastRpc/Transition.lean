import Mathlib.Data.List.Basic

/-! # Runs of a partial step function

A system is given by `step : σ → ε → Option σ`: in state `s` the event `e` is either impossible
(`none`) or leads to one next state.  `run` takes a list of events; concurrency is in the list,
whose events are the atomic steps of all the parties in the order in which they happen.

`Along P` says that every state of a run satisfies `P`, and `Guarded C` that every step of it
meets the condition `C`, stated on the state before the step and its event.  The rules are
`run_invariant` (what every step preserves holds in every reachable state), `guarded_invariant`
(the same for runs whose steps all meet a condition) and `along_iff_guarded` (the condition is
exact when every step that fails it leads outside `P`). -/

namespace Transition

variable {σ ε : Type*} (step : σ → ε → Option σ)

/-- The state after the events `es`, if they are all possible. -/
def run : σ → List ε → Option σ
  | s, [] => some s
  | s, e :: es => (step s e).bind (fun t => run t es)

/-- Every state of the run satisfies `P`, the first one included. -/
def Along (P : σ → Prop) : σ → List ε → Prop
  | s, [] => P s
  | s, e :: es => P s ∧ ∀ t, step s e = some t → Along P t es

/-- Every step of the run meets the condition `C`. -/
def Guarded (C : σ → ε → Prop) : σ → List ε → Prop
  | _, [] => True
  | s, e :: es => C s e ∧ ∀ t, step s e = some t → Guarded C t es

variable {step}

@[simp] theorem run_nil (s : σ) : run step s [] = some s := rfl

theorem run_cons_eq_some {s u : σ} {e : ε} {es : List ε} :
    run step s (e :: es) = some u ↔ ∃ t, step s e = some t ∧ run step t es = some u :=
  Option.bind_eq_some_iff

theorem run_append (s : σ) (es fs : List ε) :
    run step s (es ++ fs) = (run step s es).bind (fun t => run step t fs) := by
  induction es generalizing s with
  | nil => rfl
  | cons e es ih =>
      cases h : step s e with
      | none => simp [run, h]
      | some t => simp [run, h, ih]

theorem run_append_some {s t : σ} {es : List ε} (h : run step s es = some t) (fs : List ε) :
    run step s (es ++ fs) = run step t fs := by
  rw [run_append, h, Option.bind_some]

/-- Where every event is possible, every list of events is a run. -/
theorem exists_run (hstep : ∀ s e, ∃ t, step s e = some t) (s : σ) (es : List ε) :
    ∃ t, run step s es = some t := by
  induction es generalizing s with
  | nil => exact ⟨s, rfl⟩
  | cons e es ih =>
      obtain ⟨u, hu⟩ := hstep s e
      obtain ⟨t, ht⟩ := ih u
      exact ⟨t, run_cons_eq_some.mpr ⟨u, hu, ht⟩⟩

/-- **Invariant rule.** What every step preserves holds in every reachable state. -/
theorem run_invariant {Inv : σ → Prop} (hstep : ∀ s e t, Inv s → step s e = some t → Inv t)
    {s t : σ} {es : List ε} (hs : Inv s) (h : run step s es = some t) : Inv t := by
  induction es generalizing s with
  | nil => exact Option.some.inj h ▸ hs
  | cons e es ih =>
      obtain ⟨u, hu, h⟩ := run_cons_eq_some.mp h
      exact ih (hstep s e u hs hu) h

/-- **Invariant rule under a condition on the steps.** -/
theorem guarded_invariant {Inv : σ → Prop} {C : σ → ε → Prop}
    (hstep : ∀ s e t, Inv s → C s e → step s e = some t → Inv t)
    {s t : σ} {es : List ε} (hs : Inv s) (hg : Guarded step C s es)
    (h : run step s es = some t) : Inv t := by
  induction es generalizing s with
  | nil => exact Option.some.inj h ▸ hs
  | cons e es ih =>
      obtain ⟨u, hu, h⟩ := run_cons_eq_some.mp h
      exact ih (hstep s e u hs hg.1 hu) (hg.2 u hu) h

/-- A condition that can be tested can be tested along a run. -/
instance decidableGuarded {C : σ → ε → Prop} [∀ s e, Decidable (C s e)] :
    ∀ (s : σ) (es : List ε), Decidable (Guarded step C s es)
  | _, [] => isTrue trivial
  | s, e :: es =>
      have : Decidable (∀ t, step s e = some t → Guarded step C t es) :=
        match step s e with
        | none => isTrue (fun _ ht => nomatch ht)
        | some u =>
            have := decidableGuarded (C := C) u es
            decidable_of_iff (Guarded step C u es)
              ⟨fun hu _ ht => Option.some.inj ht ▸ hu, fun hall => hall u rfl⟩
      inferInstanceAs (Decidable (C s e ∧ _))

/-- A condition that every step meets. -/
theorem guarded_of_forall {C : σ → ε → Prop} (hC : ∀ s e, C s e) (s : σ) (es : List ε) :
    Guarded step C s es := by
  induction es generalizing s with
  | nil => trivial
  | cons e es ih => exact ⟨hC s e, fun t _ => ih t⟩

theorem Guarded.mono {C D : σ → ε → Prop} (hCD : ∀ s e, C s e → D s e) {s : σ} {es : List ε}
    (h : Guarded step C s es) : Guarded step D s es := by
  induction es generalizing s with
  | nil => trivial
  | cons e es ih => exact ⟨hCD s e h.1, fun t ht => ih (h.2 t ht)⟩

theorem Guarded.and {C D : σ → ε → Prop} {s : σ} {es : List ε} (hC : Guarded step C s es)
    (hD : Guarded step D s es) : Guarded step (fun s e => C s e ∧ D s e) s es := by
  induction es generalizing s with
  | nil => trivial
  | cons e es ih => exact ⟨⟨hC.1, hD.1⟩, fun t ht => ih (hC.2 t ht) (hD.2 t ht)⟩

/-- A condition on the events alone joins a condition on the steps. -/
theorem Guarded.and_forall {C : σ → ε → Prop} {D : ε → Prop} {s : σ} {es : List ε}
    (h : Guarded step C s es) (hD : ∀ e ∈ es, D e) :
    Guarded step (fun s e => D e ∧ C s e) s es := by
  induction es generalizing s with
  | nil => trivial
  | cons e es ih =>
      exact ⟨⟨hD e List.mem_cons_self, h.1⟩,
        fun t ht => ih (h.2 t ht) (fun f hf => hD f (List.mem_cons_of_mem e hf))⟩

theorem Along.head {P : σ → Prop} {s : σ} {es : List ε} (h : Along step P s es) : P s := by
  cases es with
  | nil => exact h
  | cons e es => exact h.1

theorem Along.mono {P Q : σ → Prop} (hPQ : ∀ s, P s → Q s) {s : σ} {es : List ε}
    (h : Along step P s es) : Along step Q s es := by
  induction es generalizing s with
  | nil => exact hPQ s h
  | cons e es ih => exact ⟨hPQ s h.1, fun t ht => ih (h.2 t ht)⟩

/-- A system that records more than another one (`f` forgets it) has the same runs. -/
theorem run_forget {σ' : Type*} {step' : σ' → ε → Option σ'} {f : σ' → σ}
    (hf : ∀ w e, (step' w e).map f = step (f w) e) (w : σ') (es : List ε) :
    (run step' w es).map f = run step (f w) es := by
  induction es generalizing w with
  | nil => rfl
  | cons e es ih =>
      simp only [run]
      rw [← hf]
      cases step' w e with
      | none => rfl
      | some u => exact ih u

/-- Such a system also has the same states along its runs. -/
theorem along_forget {σ' : Type*} {step' : σ' → ε → Option σ'} {f : σ' → σ}
    (hf : ∀ w e, (step' w e).map f = step (f w) e) {P : σ → Prop} {w : σ'} {es : List ε} :
    Along step' (fun w => P (f w)) w es ↔ Along step P (f w) es := by
  induction es generalizing w with
  | nil => exact Iff.rfl
  | cons e es ih =>
      refine and_congr_right fun _ => ⟨fun h t ht => ?_, fun h u hu => ?_⟩
      · rw [← hf, Option.map_eq_some_iff] at ht
        obtain ⟨u, hu, rfl⟩ := ht
        exact ih.mp (h u hu)
      · exact ih.mpr (h (f u) (by rw [← hf, hu]; rfl))

/-- What the condition keeps holds along the run, and what it gives of a step holds of every step. -/
theorem along_and_guarded {Inv P : σ → Prop} {C D : σ → ε → Prop}
    (hstep : ∀ s e t, Inv s → C s e → step s e = some t → Inv t) (hP : ∀ s, Inv s → P s)
    (hD : ∀ s e, Inv s → C s e → D s e) {s : σ} {es : List ε} (hs : Inv s)
    (h : Guarded step C s es) : Along step P s es ∧ Guarded step D s es := by
  induction es generalizing s with
  | nil => exact ⟨hP s hs, trivial⟩
  | cons e es ih =>
      have hrest := fun t ht => ih (hstep s e t hs h.1 ht) (h.2 t ht)
      exact ⟨⟨hP s hs, fun t ht => (hrest t ht).1⟩, hD s e hs h.1, fun t ht => (hrest t ht).2⟩

/-- Conditions that agree on the states of such runs. -/
theorem guarded_congr {Inv : σ → Prop} {C D : σ → ε → Prop}
    (hstep : ∀ s e t, Inv s → C s e → step s e = some t → Inv t)
    (hCD : ∀ s e, Inv s → (C s e ↔ D s e)) {s : σ} {es : List ε} (hs : Inv s) :
    Guarded step C s es ↔ Guarded step D s es := by
  induction es generalizing s with
  | nil => exact Iff.rfl
  | cons e es ih =>
      constructor
      · rintro ⟨hC, hrest⟩
        exact ⟨(hCD s e hs).mp hC, fun t ht => (ih (hstep s e t hs hC ht)).mp (hrest t ht)⟩
      · rintro ⟨hD, hrest⟩
        have hC := (hCD s e hs).mpr hD
        exact ⟨hC, fun t ht => (ih (hstep s e t hs hC ht)).mpr (hrest t ht)⟩

/-- **Exact conditions.** If the steps that meet `C` keep an invariant which gives `P`, and the
possible steps that do not meet it lead outside `P`, then `P` holds in every state of a run exactly
when all its steps meet `C`. -/
theorem along_iff_guarded {Inv P : σ → Prop} {C : σ → ε → Prop}
    (hstep : ∀ s e t, Inv s → C s e → step s e = some t → Inv t)
    (hP : ∀ s, Inv s → P s)
    (hbad : ∀ s e t, Inv s → ¬ C s e → step s e = some t → ¬ P t)
    {s t : σ} {es : List ε} (hs : Inv s) (h : run step s es = some t) :
    Along step P s es ↔ Guarded step C s es := by
  induction es generalizing s with
  | nil => exact ⟨fun _ => trivial, fun _ => hP s hs⟩
  | cons e es ih =>
      obtain ⟨u, hu, h⟩ := run_cons_eq_some.mp h
      constructor
      · rintro ⟨_, ha⟩
        have hC : C s e := by
          by_contra hC
          exact hbad s e u hs hC hu (ha u hu).head
        refine ⟨hC, fun v hv => ?_⟩
        obtain rfl := Option.some.inj (hu.symm.trans hv)
        exact (ih (hstep s e u hs hC hu) h).mp (ha u hu)
      · rintro ⟨hC, hg⟩
        refine ⟨hP s hs, fun v hv => ?_⟩
        obtain rfl := Option.some.inj (hu.symm.trans hv)
        exact (ih (hstep s e u hs hC hu) h).mpr (hg u hu)

end Transition
