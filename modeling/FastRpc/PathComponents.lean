import Mathlib.Data.List.Basic
import Mathlib.Data.List.Infix
import Mathlib.Data.List.Flatten

/-! # Texts as components with a separator between them

A text is cut at every separator (`List.splitOn`), and its components are the pieces that are not empty.
`flat` puts a separator in front of each of several pieces, so that a text is its first piece and the
`flat` of the others (`eq_flat`).  One separator more or less where there is one already changes no
component (`components_double`). -/

namespace PathComponents

section Flat

variable {α : Type*} {sep : α} {c : List α} {cs : List (List α)}

/-- Several pieces, each with a separator in front of it. -/
def flat (sep : α) (cs : List (List α)) : List α := (cs.map (sep :: ·)).flatten

/-- A piece has no separator. -/
def Free (sep : α) (cs : List (List α)) : Prop := ∀ c ∈ cs, sep ∉ c

@[simp] theorem flat_nil : flat sep [] = [] := rfl

@[simp] theorem flat_cons : flat sep (c :: cs) = sep :: (c ++ flat sep cs) := rfl

theorem flat_append (cs ds : List (List α)) : flat sep (cs ++ ds) = flat sep cs ++ flat sep ds := by
  simp [flat]

/-- A text is its first piece and the other ones behind separators. -/
theorem eq_flat (sep : α) (s : List α) : ∃ c cs, s = c ++ flat sep cs ∧ sep ∉ c ∧ Free sep cs := by
  induction s with
  | nil => exact ⟨[], [], rfl, List.not_mem_nil, fun _ hc => absurd hc List.not_mem_nil⟩
  | cons a s ih =>
      obtain ⟨c, cs, rfl, hc, hcs⟩ := ih
      by_cases ha : sep = a
      · refine ⟨[], c :: cs, ?_, List.not_mem_nil, List.forall_mem_cons.mpr ⟨hc, hcs⟩⟩
        rw [ha, flat_cons, List.nil_append]
      · exact ⟨a :: c, cs, rfl, by simp [ha, hc], hcs⟩

end Flat

section Components

variable {α : Type*} [DecidableEq α] {sep : α} {c x : List α} {cs : List (List α)}

/-- The pieces that are not empty. -/
def components (sep : α) (s : List α) : List (List α) := (s.splitOn sep).filter (· ≠ [])

/-- The pieces of a text that is put together. -/
theorem splitOn_flat (hc : sep ∉ c) (hcs : Free sep cs) : (c ++ flat sep cs).splitOn sep = c :: cs := by
  induction cs generalizing c with
  | nil => rw [flat_nil, List.append_nil, List.splitOn_eq_singleton hc]
  | cons d ds ih =>
      obtain ⟨hd, hds⟩ := List.forall_mem_cons.mp hcs
      rw [flat_cons, List.splitOn_append_cons_self_of_not_mem hc, ih hd hds]

theorem components_flat (hc : sep ∉ c) (hcs : Free sep cs) :
    components sep (c ++ flat sep cs) = (c :: cs).filter (· ≠ []) := by
  rw [components, splitOn_flat hc hcs]

theorem components_append (x y : List α) :
    components sep (x ++ sep :: y) = components sep x ++ components sep y := by
  rw [components, List.splitOn_append_cons_self, List.filter_append, components, components]

theorem components_cons (y : List α) : components sep (sep :: y) = components sep y := by
  have h : components sep ([] ++ sep :: y) = components sep [] ++ components sep y := components_append [] y
  rw [List.nil_append] at h
  rw [h]
  rfl

/-- A second separator changes no component. -/
theorem components_double (x y : List α) :
    components sep (x ++ sep :: sep :: y) = components sep (x ++ sep :: y) := by
  rw [components_append, components_append, components_cons]

/-- A piece and a separator stand at the beginning of a text when it is the first piece of several. -/
theorem prefix_flat_iff (hx : sep ∉ x) (hc : sep ∉ c) :
    x ++ [sep] <+: c ++ flat sep cs ↔ c = x ∧ cs ≠ [] := by
  constructor
  · rintro ⟨t, ht⟩
    rw [List.append_assoc, List.singleton_append] at ht
    cases cs with
    | nil =>
        rw [flat_nil, List.append_nil] at ht
        exact absurd (ht ▸ List.mem_append_right x List.mem_cons_self) hc
    | cons d ds =>
        rw [flat_cons] at ht
        have hsplit := congrArg (List.splitOn sep) ht
        rw [List.splitOn_append_cons_self_of_not_mem hx, List.splitOn_append_cons_self_of_not_mem hc] at hsplit
        exact ⟨(List.cons.inj hsplit).1.symm, List.cons_ne_nil d ds⟩
  · rintro ⟨rfl, hne⟩
    obtain ⟨d, ds, rfl⟩ := List.exists_cons_of_ne_nil hne
    exact ⟨d ++ flat sep ds, by simp⟩

end Components

end PathComponents
