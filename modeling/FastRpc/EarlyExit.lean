import Mathlib.Logic.Basic

/-! # Programs with one common exit

A C function often runs its checks one after the other, and the first one that fails jumps to a
label near the end of the function, where the state is put in order.  `EarlyExit σ α` is the type of
what stands before such a label: a program over a state `σ` that either goes through with a value or
jumps.  `leaves m s` is the state at the label, however it was reached.

What the code at the label relies on is often a part of the state that hardly any of the checks
touch.  `Keeps f m` says that `m` leaves the part `f` as it is on every path; it is proved by the
rules of this file along the program, and `leaves_bind_of_keeps` uses it for the rest of a program
that has set the part before. -/

/-- A program over a state `σ` that may jump to its exit. -/
abbrev EarlyExit (σ α : Type) := OptionT (StateM σ) α

namespace EarlyExit

variable {σ α β γ ι : Type}

/-- The value of a program, if it did not jump. -/
def value (m : EarlyExit σ α) (s : σ) : Option α := (m.run.run s).1

/-- The state at the exit of a program. -/
def leaves (m : EarlyExit σ α) (s : σ) : σ := (m.run.run s).2

/-- Changes the state. -/
def update (g : σ → σ) : EarlyExit σ PUnit := modify g

section Rules

variable (s : σ)

@[simp] theorem leaves_update_bind (g : σ → σ) (k : PUnit → EarlyExit σ α) :
    (update g >>= k).leaves s = (k ⟨⟩).leaves (g s) := rfl

@[simp] theorem leaves_get_bind (k : σ → EarlyExit σ α) :
    ((get : EarlyExit σ σ) >>= k).leaves s = (k s).leaves s := rfl

theorem leaves_bind (m : EarlyExit σ α) (k : α → EarlyExit σ β) :
    (m >>= k).leaves s =
      match m.value s with
      | none => m.leaves s
      | some a => (k a).leaves (m.leaves s) := by
  unfold value leaves
  rw [OptionT.run_bind, Option.elimM, StateT.run_bind]
  cases m.run.run s with
  | mk o t => cases o <;> rfl

end Rules

/-- The program leaves the part `f` of the state as it is. -/
def Keeps (f : σ → γ) (m : EarlyExit σ α) : Prop := ∀ s, f (m.leaves s) = f s

section Keeps

variable {f : σ → γ}

theorem keeps_pure (a : α) : Keeps f (pure a : EarlyExit σ α) := fun _ => rfl

theorem keeps_failure : Keeps f (failure : EarlyExit σ α) := fun _ => rfl

theorem keeps_update {g : σ → σ} (h : ∀ s, f (g s) = f s) : Keeps f (update g) := h

theorem keeps_bind {m : EarlyExit σ α} {k : α → EarlyExit σ β} (hm : Keeps f m)
    (hk : ∀ a, Keeps f (k a)) : Keeps f (m >>= k) := by
  intro s
  rw [leaves_bind]
  cases m.value s with
  | none => exact hm s
  | some a => exact (hk a _).trans (hm s)

theorem keeps_get_bind {k : σ → EarlyExit σ α} (hk : ∀ s, Keeps f (k s)) :
    Keeps f ((get : EarlyExit σ σ) >>= k) := fun s => hk s s

theorem keeps_ite {c : Prop} [Decidable c] {m m' : EarlyExit σ α} (h : c → Keeps f m)
    (h' : ¬ c → Keeps f m') : Keeps f (if c then m else m') := by
  split
  · exact h ‹_›
  · exact h' ‹_›

theorem keeps_forM {body : ι → EarlyExit σ PUnit} (h : ∀ i, Keeps f (body i)) (l : List ι) :
    Keeps f (l.forM body) := by
  induction l with
  | nil => exact keeps_pure _
  | cons i l ih => exact keeps_bind (h i) (fun _ => ih)

end Keeps

/-! ### Known runs -/

/-- From `s` the program ends in `t`: with a value, or at its exit. -/
structure Ends (m : EarlyExit σ α) (s : σ) (o : Option α) (t : σ) : Prop where
  value : m.value s = o
  leaves : m.leaves s = t

section Ends

variable {m : EarlyExit σ α} {k : α → EarlyExit σ β} {a : α} {o : Option β} {s t u : σ}

theorem ends_pure (a : α) (s : σ) : Ends (pure a) s (some a) s := ⟨rfl, rfl⟩

theorem ends_failure (s : σ) : Ends (failure : EarlyExit σ α) s none s := ⟨rfl, rfl⟩

theorem ends_update (g : σ → σ) (s : σ) : Ends (update g) s (some ⟨⟩) (g s) := ⟨rfl, rfl⟩

theorem Ends.bind (hm : Ends m s (some a) t) (hk : Ends (k a) t o u) : Ends (m >>= k) s o u := by
  constructor
  · rw [← hk.value]
    have hvalue := hm.value
    have hleaves := hm.leaves
    unfold EarlyExit.value EarlyExit.leaves at *
    rw [OptionT.run_bind, Option.elimM, StateT.run_bind]
    cases h : m.run.run s with
    | mk o t' =>
        rw [h] at hvalue hleaves
        obtain rfl : o = some a := hvalue
        obtain rfl : t' = t := hleaves
        rfl
  · rw [leaves_bind, hm.value, hm.leaves]
    exact hk.leaves

/-- What comes after an exit is not run. -/
theorem Ends.exit (hm : Ends m s none t) (k : α → EarlyExit σ β) : Ends (m >>= k) s none t := by
  constructor
  · have hvalue := hm.value
    unfold EarlyExit.value at *
    rw [OptionT.run_bind, Option.elimM, StateT.run_bind]
    cases h : m.run.run s with
    | mk o t' =>
        rw [h] at hvalue
        obtain rfl : o = none := hvalue
        rfl
  · rw [leaves_bind, hm.value]
    exact hm.leaves

theorem Ends.update (g : σ → σ) {k : PUnit → EarlyExit σ β} (hk : Ends (k ⟨⟩) (g s) o u) :
    Ends (EarlyExit.update g >>= k) s o u := (ends_update g s).bind hk

theorem Ends.get {k : σ → EarlyExit σ β} (hk : Ends (k s) s o u) :
    Ends ((get : EarlyExit σ σ) >>= k) s o u := ⟨hk.value, hk.leaves⟩

end Ends

/-! ### Programs that record more -/

variable {τ : Type}

/-- A program on a part of the state. -/
def onPart (f : σ → τ) (put : τ → σ → σ) (m : EarlyExit τ α) : EarlyExit σ α :=
  OptionT.mk fun s => pure ((m.run.run (f s)).1, put (m.run.run (f s)).2 s)

/-- From a state in `P`, `m` ends as `m'` does on the part `f` of the state, in a state that `Q` allows for
the value, or `R` at the exit. -/
def Simulates (f : σ → τ) (P : σ → Prop) (m : EarlyExit σ α) (m' : EarlyExit τ α) (Q : α → σ → Prop)
    (R : σ → Prop) : Prop :=
  ∀ s, P s → ∃ o t, Ends m s o t ∧ Ends m' (f s) o (f t) ∧ o.elim (R t) (fun a => Q a t)

section Simulates

variable {f : σ → τ} {put : τ → σ → σ} {P P' R : σ → Prop} {Q Q' : α → σ → Prop} {S : β → σ → Prop}

theorem simulates_pure (a : α) : Simulates f (Q a) (pure a) (pure a) Q R :=
  fun s hs => ⟨some a, s, ends_pure a s, ends_pure a (f s), hs⟩

theorem simulates_bind {m : EarlyExit σ α} {m' : EarlyExit τ α} {k : α → EarlyExit σ β}
    {k' : α → EarlyExit τ β} (hm : Simulates f P m m' Q R) (hk : ∀ a, Simulates f (Q a) (k a) (k' a) S R) :
    Simulates f P (m >>= k) (m' >>= k') S R := by
  intro s hs
  obtain ⟨o, t, hends, hends', hpost⟩ := hm s hs
  cases o with
  | none => exact ⟨none, t, hends.exit k, hends'.exit k', hpost⟩
  | some a =>
      obtain ⟨o', u, hrest, hrest', hpost'⟩ := hk a t hpost
      exact ⟨o', u, hends.bind hrest, hends'.bind hrest', hpost'⟩

theorem simulates_weaken {m : EarlyExit σ α} {m' : EarlyExit τ α} (h : Simulates f P m m' Q R)
    (hP : ∀ s, P' s → P s) (hQ : ∀ a s, Q a s → Q' a s) : Simulates f P' m m' Q' R := by
  intro s hs
  obtain ⟨o, t, hends, hends', hpost⟩ := h s (hP s hs)
  refine ⟨o, t, hends, hends', ?_⟩
  cases o with
  | none => exact hpost
  | some a => exact hQ a t hpost

/-- A fact that does not depend on the state. -/
theorem simulates_and {c : Prop} {m : EarlyExit σ α} {m' : EarlyExit τ α} (h : c → Simulates f P m m' Q R) :
    Simulates f (fun s => P s ∧ c) m m' Q R := fun s hs => h hs.2 s hs.1

/-- A step that only the recording program takes. -/
theorem simulates_update_left {g : σ → σ} {k : EarlyExit σ α} {m' : EarlyExit τ α} (hg : ∀ s, f (g s) = f s)
    (hP : ∀ s, P s → P' (g s)) (h : Simulates f P' k m' Q R) :
    Simulates f P (update g >>= fun _ => k) m' Q R := by
  intro s hs
  obtain ⟨o, t, hends, hends', hpost⟩ := h (g s) (hP s hs)
  rw [hg] at hends'
  exact ⟨o, t, Ends.update g hends, hends', hpost⟩

/-- A program on the part is simulated by its own copy. -/
theorem simulates_onPart {m : EarlyExit τ α} (hf : ∀ u s, f (put u s) = u)
    (hm : ∀ s o u, P s → Ends m (f s) o u → o.elim (R (put u s)) (fun a => Q a (put u s))) :
    Simulates f P (onPart f put m) m Q R := by
  intro s hs
  refine ⟨m.value (f s), put (m.leaves (f s)) s, ⟨rfl, rfl⟩, ⟨rfl, (hf _ s).symm⟩, ?_⟩
  exact hm s _ _ hs ⟨rfl, rfl⟩

end Simulates

end EarlyExit
