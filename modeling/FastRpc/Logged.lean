import FastRpc.Transition

/-! # Computations that change a state by logged steps

A sequential program that works on a shared state reads it freely, but changes it only through a
fixed set of small steps.  `Logged step α` is the type of such programs: from a state they give a
value and the list of steps they took, and the state they leave is the replay of this list.  What
every step preserves is then kept by every program (`after_invariant`), with no proof about the
program itself, and a condition on the steps can be asked of a whole run of programs, one after
the other (`history`). -/

universe u v

/-- A program that reads a state `σ` and changes it by the steps `ε`. -/
def Logged {σ : Type u} {ε : Type v} (_step : σ → ε → σ) (α : Type u) : Type (max u v) :=
  σ → α × List ε

namespace Logged

variable {σ : Type u} {ε : Type v} {step : σ → ε → σ} {α β : Type u}

/-- The value a program returns. -/
def val (m : Logged step α) (s : σ) : α := (m s).1

/-- The steps a program takes. -/
def log (m : Logged step α) (s : σ) : List ε := (m s).2

/-- The state a program leaves. -/
def after (m : Logged step α) (s : σ) : σ := (m.log s).foldl step s

instance : Monad (Logged step) where
  pure a := fun _ => (a, [])
  bind m f := fun s =>
    let r := m s
    let q := f r.1 (r.2.foldl step s)
    (q.1, r.2 ++ q.2)

/-- The state a program starts from. -/
def read : Logged step σ := fun s => (s, [])

/-- One step. -/
def emit (e : ε) : Logged step PUnit := fun _ => (⟨⟩, [e])

section Rules

variable (s : σ)

@[simp] theorem val_pure (a : α) : (pure a : Logged step α).val s = a := rfl

@[simp] theorem after_pure (a : α) : (pure a : Logged step α).after s = s := rfl

theorem val_bind (m : Logged step α) (f : α → Logged step β) :
    (m >>= f).val s = (f (m.val s)).val (m.after s) := rfl

theorem log_bind (m : Logged step α) (f : α → Logged step β) :
    (m >>= f).log s = m.log s ++ (f (m.val s)).log (m.after s) := rfl

theorem after_bind (m : Logged step α) (f : α → Logged step β) :
    (m >>= f).after s = (f (m.val s)).after (m.after s) :=
  List.foldl_append

/-! Programs that are the same at a state. -/

theorem val_of_eq {m m' : Logged step α} (h : m s = m' s) : m.val s = m'.val s := congrArg Prod.fst h

theorem log_of_eq {m m' : Logged step α} (h : m s = m' s) : m.log s = m'.log s := congrArg Prod.snd h

theorem after_of_eq {m m' : Logged step α} (h : m s = m' s) : m.after s = m'.after s :=
  congrArg (List.foldl step s) (log_of_eq s h)

/-- A sequence whose first program is known. -/
theorem bind_of_eq {m : Logged step α} {a : α} {l : List ε} (hm : m s = (a, l))
    (f : α → Logged step β) :
    (m >>= f) s = ((f a).val (l.foldl step s), l ++ (f a).log (l.foldl step s)) := by
  change ((f (m s).1).val ((m s).2.foldl step s), (m s).2 ++ (f (m s).1).log ((m s).2.foldl step s)) = _
  rw [hm]

theorem read_bind (f : σ → Logged step β) : (read >>= f) s = f s s := rfl

@[simp] theorem val_read_bind (f : σ → Logged step β) : (read >>= f).val s = (f s).val s := rfl

@[simp] theorem after_read_bind (f : σ → Logged step β) :
    (read >>= f).after s = (f s).after s := rfl

@[simp] theorem log_read_bind (f : σ → Logged step β) : (read >>= f).log s = (f s).log s := rfl

@[simp] theorem val_emit_bind (e : ε) (f : PUnit → Logged step β) :
    (emit e >>= f).val s = (f ⟨⟩).val (step s e) := rfl

@[simp] theorem after_emit_bind (e : ε) (f : PUnit → Logged step β) :
    (emit e >>= f).after s = (f ⟨⟩).after (step s e) := rfl

@[simp] theorem after_discard (m : Logged step α) : (discard m).after s = m.after s := by
  change ((m >>= fun _ => pure PUnit.unit) : Logged step PUnit).after s = _
  rw [after_bind, after_pure]

theorem val_ite (c : Prop) [Decidable c] (m m' : Logged step α) :
    (if c then m else m').val s = if c then m.val s else m'.val s :=
  apply_ite (fun p => p.val s) c m m'

theorem after_ite (c : Prop) [Decidable c] (m m' : Logged step α) :
    (if c then m else m').after s = if c then m.after s else m'.after s :=
  apply_ite (fun p => p.after s) c m m'

theorem log_ite (c : Prop) [Decidable c] (m m' : Logged step α) :
    (if c then m else m').log s = if c then m.log s else m'.log s :=
  apply_ite (fun p => p.log s) c m m'

end Rules

/-- **Invariant rule.** What every step preserves, every program preserves. -/
theorem after_invariant {Inv : σ → Prop} (hstep : ∀ s e, Inv s → Inv (step s e))
    (m : Logged step α) {s : σ} (hs : Inv s) : Inv (m.after s) := by
  rw [after]
  induction m.log s generalizing s with
  | nil => exact hs
  | cons e es ih => exact ih (hstep s e hs)

section History

variable {ο : Type*} (exec : ο → Logged step α)

/-- The steps that the programs of a run take, one program after the other. -/
def history : σ → List ο → List ε
  | _, [] => []
  | s, o :: os =>
      let l := (exec o).log s
      l ++ history (l.foldl step s) os

/-- The state after a run of programs. -/
def runAll (s : σ) (os : List ο) : σ := os.foldl (fun t o => (exec o).after t) s

variable {exec}

theorem runAll_invariant {Inv : σ → Prop} (hstep : ∀ s e, Inv s → Inv (step s e))
    (os : List ο) {s : σ} (hs : Inv s) : Inv (runAll exec s os) := by
  induction os generalizing s with
  | nil => exact hs
  | cons o os ih => exact ih (after_invariant hstep _ hs)

/-- The steps as a transition system in which every step is possible. -/
def asTransition (step : σ → ε → σ) : σ → ε → Option σ := fun s e => some (step s e)

theorem run_asTransition (s : σ) (es : List ε) :
    Transition.run (asTransition step) s es = some (es.foldl step s) := by
  induction es generalizing s with
  | nil => rfl
  | cons e es ih => exact ih (step s e)

/-- What holds in every state of a list of steps holds where a first part of it ends. -/
theorem along_append {P : σ → Prop} {s : σ} {es fs : List ε}
    (h : Transition.Along (asTransition step) P s (es ++ fs)) :
    Transition.Along (asTransition step) P (es.foldl step s) fs := by
  induction es generalizing s with
  | nil => exact h
  | cons e es ih => exact ih (h.2 _ rfl)

/-- **What holds after every step of a run holds after every program of it.** -/
theorem along_programs {P : σ → Prop} {s : σ} {os : List ο}
    (h : Transition.Along (asTransition step) P s (history exec s os)) :
    Transition.Along (fun t o => some ((exec o).after t)) P s os := by
  induction os generalizing s with
  | nil => exact h
  | cons o os ih =>
      refine ⟨h.head, ?_⟩
      rintro t ⟨⟩
      exact ih (along_append h)

end History

end Logged
