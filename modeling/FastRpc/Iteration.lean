import Mathlib.Logic.Function.Iterate

/-! # Loops as iterated steps

A loop is the iteration of its step.  `Runs f P s t` says that some steps lead from `s` to `t` and that
all the states on the way satisfy `P`.  A loop that always comes back to states like the one it started
from goes on for ever (`forever`), and what is reached from a state on the way is reached from the
first (`Runs.reaches`). -/

namespace Iteration

variable {σ : Type*} {f : σ → σ} {P : σ → Prop} {s t u : σ}

/-- One or more steps lead from `s` to `t`, through states that satisfy `P`. -/
def Runs (f : σ → σ) (P : σ → Prop) (s t : σ) : Prop :=
  ∃ j, 0 < j ∧ f^[j] s = t ∧ ∀ i < j, P (f^[i] s)

theorem Runs.one (h : P s) : Runs f P s (f s) := by
  refine ⟨1, Nat.one_pos, rfl, fun i hi => ?_⟩
  obtain rfl := Nat.lt_one_iff.mp hi
  exact h

theorem Runs.trans (h : Runs f P s t) (h' : Runs f P t u) : Runs f P s u := by
  obtain ⟨j, hj, rfl, hP⟩ := h
  obtain ⟨k, hk, rfl, hP'⟩ := h'
  refine ⟨k + j, Nat.add_pos_left hk j, Function.iterate_add_apply f k j s, fun i hi => ?_⟩
  rcases Nat.lt_or_ge i j with hlt | hge
  · exact hP i hlt
  · obtain ⟨d, rfl⟩ := Nat.exists_eq_add_of_le' hge
    rw [Function.iterate_add_apply]
    exact hP' d (Nat.lt_of_add_lt_add_right hi)

theorem Runs.step (h : P s) (h' : Runs f P (f s) t) : Runs f P s t := (Runs.one h).trans h'

/-- What is reached from a state on the way is reached from the first one. -/
theorem Runs.reaches (h : Runs f P s t) {R : σ → Prop} (ht : ∃ n, R (f^[n] t)) : ∃ n, R (f^[n] s) := by
  obtain ⟨j, _, rfl, _⟩ := h
  obtain ⟨n, hn⟩ := ht
  exact ⟨n + j, by rwa [Function.iterate_add_apply]⟩

/-- **A loop that comes back.** If every state in `Q` leads to another one in `Q`, the loop that starts in
`Q` never leaves `P`. -/
theorem forever {Q : σ → Prop} (hQ : ∀ s, Q s → ∃ t, Q t ∧ Runs f P s t) (hs : Q s) (n : ℕ) :
    P (f^[n] s) := by
  induction n using Nat.strongRecOn generalizing s with
  | ind n ih =>
      obtain ⟨t, ht, j, hj, rfl, hP⟩ := hQ s hs
      rcases Nat.lt_or_ge n j with hlt | hge
      · exact hP n hlt
      · obtain ⟨d, rfl⟩ := Nat.exists_eq_add_of_le' hge
        rw [Function.iterate_add_apply]
        exact ih d (Nat.lt_add_of_pos_right hj) ht

end Iteration
