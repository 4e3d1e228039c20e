import FastRpc.Logged

/-! # Triples for logged computations

An invariant that a program breaks and restores cannot be proved step by step.  `Brings C P m Q`
says that `m`, started where `P` holds, ends where `Q` does, provided that every step it takes meets
the condition `C`; `Keeps C I m` is the case of an invariant.  The rules follow the program: a
sequence goes through an assertion in the middle, a branch takes its test along, and a program is
unfolded only as far as its own text goes.  `runAll_keeps` takes what every program of a run keeps
to all the states between them. -/

namespace Logged

open Transition

universe u v

variable {σ : Type u} {ε : Type v} {step : σ → ε → σ} {α β : Type u}

/-- The conditions on two lists of steps, one after the other. -/
theorem guarded_append {C : σ → ε → Prop} {s : σ} {es fs : List ε} :
    Guarded (asTransition step) C s (es ++ fs) ↔
      Guarded (asTransition step) C s es ∧ Guarded (asTransition step) C (es.foldl step s) fs := by
  induction es generalizing s with
  | nil => exact ⟨fun h => ⟨trivial, h⟩, fun h => h.2⟩
  | cons e es ih =>
      constructor
      · intro h
        obtain ⟨hes, hfs⟩ := ih.mp (h.2 _ rfl)
        refine ⟨⟨h.1, ?_⟩, hfs⟩
        rintro _ ⟨⟩
        exact hes
      · intro h
        refine ⟨h.1.1, ?_⟩
        rintro _ ⟨⟩
        exact ih.mpr ⟨h.1.2 _ rfl, h.2⟩

section Triples

variable (C : σ → ε → Prop)

/-- Every step of the program meets the condition. -/
def Meets (m : Logged step α) (s : σ) : Prop := Guarded (asTransition step) C s (m.log s)

/-- From `P` to `Q`, if every step meets the condition. -/
structure Brings (P : σ → Prop) (m : Logged step α) (Q : σ → Prop) : Prop where
  run : ∀ s, P s → Meets C m s → Q (m.after s)

/-- An invariant, if every step meets the condition. -/
abbrev Keeps (I : σ → Prop) (m : Logged step α) : Prop := Brings C I m I

end Triples

section Rules

variable {C : σ → ε → Prop} {P Q R : σ → Prop}

theorem meets_bind {m : Logged step α} {f : α → Logged step β} {s : σ} :
    Meets C (m >>= f) s ↔ Meets C m s ∧ Meets C (f (m.val s)) (m.after s) :=
  guarded_append

theorem keeps_pure (a : α) : Keeps C P (pure a : Logged step α) := ⟨fun _ hs _ => hs⟩

theorem brings_bind {m : Logged step α} {f : α → Logged step β} (hm : Brings C P m R)
    (hf : ∀ a, Brings C R (f a) Q) : Brings C P (m >>= f) Q := by
  constructor
  intro s hs hmeets
  rw [after_bind]
  obtain ⟨hmeets, hrest⟩ := meets_bind.mp hmeets
  exact (hf _).run _ (hm.run s hs hmeets) hrest

theorem brings_read_bind {f : σ → Logged step β} (hf : ∀ s, Brings C P (f s) Q) :
    Brings C P (read >>= f) Q :=
  ⟨fun s hs hmeets => (hf s).run s hs hmeets⟩

/-- What a program has read satisfies the assertion too. -/
theorem brings_read_bind_of {f : σ → Logged step β} (hf : ∀ s, P s → Brings C P (f s) Q) :
    Brings C P (read >>= f) Q :=
  ⟨fun s hs hmeets => (hf s hs).run s hs hmeets⟩

theorem brings_emit {e : ε} (h : ∀ s, P s → C s e → Q (step s e)) :
    Brings C P (emit e : Logged step PUnit) Q :=
  ⟨fun s hs hmeets => h s hs hmeets.1⟩

theorem brings_discard {m : Logged step α} (h : Brings C P m Q) : Brings C P (discard m) Q := by
  constructor
  intro s hs hmeets
  rw [after_discard]
  exact h.run s hs (meets_bind.mp hmeets).1

theorem brings_ite {c : Prop} [Decidable c] {m m' : Logged step α} (h : c → Brings C P m Q)
    (h' : ¬ c → Brings C P m' Q) : Brings C P (if c then m else m') Q := by
  split
  · exact h ‹_›
  · exact h' ‹_›

/-- A statement that is run only under a test. -/
theorem brings_optional {c : Prop} [Decidable c] {m : Logged step PUnit}
    {f : PUnit → Logged step β} (hm : Keeps C P m) (hf : ∀ a, Brings C P (f a) Q) :
    Brings C P (if c then m >>= f else f ⟨⟩) Q :=
  brings_ite (fun _ => brings_bind hm hf) (fun _ => hf ⟨⟩)

/-- Two alternatives with the same continuation. -/
theorem brings_branch {c : Prop} [Decidable c] {m m' : Logged step α} {f : α → Logged step β}
    (hm : Brings C P m R) (hm' : Brings C P m' R) (hf : ∀ a, Brings C R (f a) Q) :
    Brings C P (if c then m >>= f else m' >>= f) Q :=
  brings_ite (fun _ => brings_bind hm hf) (fun _ => brings_bind hm' hf)

end Rules

section Runs

variable {ο : Type*} {exec : ο → Logged step α} {C : σ → ε → Prop} {I : σ → Prop}

/-- **Run rule.** What every program keeps holds in all the states between the programs of a run
whose steps meet the condition. -/
theorem runAll_keeps (hexec : ∀ o, Keeps C I (exec o)) {os : List ο} {s : σ} (hs : I s)
    (h : Guarded (asTransition step) C s (history exec s os)) :
    Along (fun t o => some ((exec o).after t)) I s os := by
  induction os generalizing s with
  | nil => exact hs
  | cons o os ih =>
      obtain ⟨hmeets, hrest⟩ := guarded_append.mp h
      refine ⟨hs, ?_⟩
      rintro _ ⟨⟩
      exact ih ((hexec o).run s hs hmeets) hrest

end Runs

end Logged
