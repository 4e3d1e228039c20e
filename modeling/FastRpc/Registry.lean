import Mathlib.Data.Int.Notation
import Mathlib.Data.List.Nodup

/-! # A registry that counts opens

A registry gives every open name one handle and counts how often the name was opened and not closed
since.  An open of a name that is in the registry must return the name's handle, any other open a
handle that is not in use; a close must say whether it was the last.  `opened` and `closed` are
`none` when the answer is another one.

`WellFormed` is what the entries always satisfy: one entry for each name, one for each handle, and a
positive count. -/

namespace Registry

/-- A name that is open. -/
structure Entry (α β : Type*) where
  name : α
  handle : β
  count : ℤ
  deriving DecidableEq, Repr

variable {α β : Type*}

/-- What the entries of a registry satisfy. -/
structure WellFormed (r : List (Entry α β)) : Prop where
  names : (r.map Entry.name).Nodup
  handles : (r.map Entry.handle).Nodup
  counts : ∀ e ∈ r, 1 ≤ e.count

theorem wellFormed_nil : WellFormed ([] : List (Entry α β)) :=
  ⟨List.nodup_nil, List.nodup_nil, fun _ h => nomatch h⟩

/-- A search by something that is different in all the entries finds the entry itself. -/
theorem find?_of_nodup {γ : Type*} [DecidableEq γ] {f : Entry α β → γ} {r : List (Entry α β)}
    (h : (r.map f).Nodup) {e : Entry α β} (he : e ∈ r) :
    r.find? (fun x => f x = f e) = some e := by
  cases hfind : r.find? (fun x => f x = f e) with
  | none =>
      have hno := List.find?_eq_none.mp hfind e he
      simp only [decide_true, not_true_eq_false] at hno
  | some x =>
      have hx := List.mem_of_find?_eq_some hfind
      have heq : f x = f e := of_decide_eq_true (List.find?_some (p := fun x => f x = f e) hfind)
      rw [List.inj_on_of_nodup_map h hx he heq]

/-! ### Closes -/

section Handles

variable [DecidableEq β]

/-- The count of a handle changes. -/
def bump (r : List (Entry α β)) (handle : β) (n : ℤ) : List (Entry α β) :=
  r.map (fun e => if e.handle = handle then { e with count := e.count + n } else e)

/-- A handle is not open any more. -/
def drop (r : List (Entry α β)) (handle : β) : List (Entry α β) :=
  r.filter (fun e => e.handle ≠ handle)

/-- A close of `handle` succeeded, and said whether it was the last one. -/
def closed (r : List (Entry α β)) (handle : β) (last : Bool) : Option (List (Entry α β)) :=
  match r.find? (fun e => e.handle = handle) with
  | some e =>
      if e.count = 1 then (if last then some (drop r handle) else none)
      else if last then none else some (bump r handle (-1))
  | none => none

/-- A close of `handle` failed. -/
def notClosed (r : List (Entry α β)) (handle : β) : Option (List (Entry α β)) :=
  if r.any (fun e => e.handle = handle) then none else some r

variable {r : List (Entry α β)}

theorem any_handle {handle : β} :
    r.any (fun e => e.handle = handle) = false ↔ ∀ e ∈ r, e.handle ≠ handle := by
  simp only [List.any_eq_false, decide_eq_true_eq, ne_eq]

/-- The last close of a handle. -/
theorem closed_last (h : WellFormed r) {e : Entry α β} (he : e ∈ r) (hone : e.count = 1) :
    closed r e.handle true = some (drop r e.handle) := by
  unfold closed
  rw [find?_of_nodup h.handles he]
  dsimp only
  rw [if_pos hone, if_pos rfl]

/-- A close of a handle that stays open. -/
theorem closed_more (h : WellFormed r) {e : Entry α β} (he : e ∈ r) (hone : e.count ≠ 1) :
    closed r e.handle false = some (bump r e.handle (-1)) := by
  unfold closed
  rw [find?_of_nodup h.handles he]
  dsimp only
  rw [if_neg hone]
  rfl

theorem notClosed_absent {handle : β} (h : ∀ e ∈ r, e.handle ≠ handle) :
    notClosed r handle = some r := by
  unfold notClosed
  rw [any_handle.mpr h]
  rfl

theorem bump_names (handle : β) (n : ℤ) : (bump r handle n).map Entry.name = r.map Entry.name := by
  unfold bump
  rw [List.map_map]
  apply List.map_congr_left
  intro e _
  simp only [Function.comp_apply]
  split_ifs <;> rfl

theorem bump_handles (handle : β) (n : ℤ) :
    (bump r handle n).map Entry.handle = r.map Entry.handle := by
  unfold bump
  rw [List.map_map]
  apply List.map_congr_left
  intro e _
  simp only [Function.comp_apply]
  split_ifs <;> rfl

theorem WellFormed.bump (h : WellFormed r) {handle : β} {n : ℤ}
    (hcount : ∀ e ∈ r, e.handle = handle → 1 ≤ e.count + n) : WellFormed (bump r handle n) := by
  refine ⟨bump_names (r := r) handle n ▸ h.names, bump_handles (r := r) handle n ▸ h.handles, ?_⟩
  intro e he
  obtain ⟨x, hx, rfl⟩ := List.mem_map.mp he
  by_cases hhandle : x.handle = handle
  · rw [if_pos hhandle]
    exact hcount x hx hhandle
  · rw [if_neg hhandle]
    exact h.counts x hx

theorem WellFormed.drop (h : WellFormed r) (handle : β) : WellFormed (drop r handle) :=
  ⟨h.names.sublist (List.filter_sublist.map _), h.handles.sublist (List.filter_sublist.map _),
    fun e he => h.counts e (List.mem_of_mem_filter he)⟩

/-- **Every close keeps the registry well formed.** -/
theorem WellFormed.closed (h : WellFormed r) {handle : β} {last : Bool} {r' : List (Entry α β)}
    (hc : Registry.closed r handle last = some r') : WellFormed r' := by
  unfold Registry.closed at hc
  cases hfind : r.find? (fun e => e.handle = handle) with
  | none =>
      rw [hfind] at hc
      cases hc
  | some e =>
      rw [hfind] at hc
      dsimp only at hc
      have he := List.mem_of_find?_eq_some hfind
      have hhandle := of_decide_eq_true (List.find?_some
        (p := fun e : Entry α β => e.handle = handle) hfind)
      split_ifs at hc with hone
      · obtain rfl := Option.some.inj hc
        exact h.drop handle
      · obtain rfl := Option.some.inj hc
        refine h.bump ?_
        intro x hx hx'
        have hxe : x = e := List.inj_on_of_nodup_map h.handles hx he (hx'.trans hhandle.symm)
        have hpos := h.counts e he
        rw [hxe]
        omega

end Handles

/-! ### Opens -/

section Names

variable [DecidableEq α] [DecidableEq β] {r : List (Entry α β)}

/-- An open of `name` returned `handle`. -/
def opened (r : List (Entry α β)) (name : α) (handle : β) : Option (List (Entry α β)) :=
  match r.find? (fun e => e.name = name) with
  | some e => if e.handle = handle then some (bump r handle 1) else none
  | none =>
      if r.any (fun e => e.handle = handle) then none else some (⟨name, handle, 1⟩ :: r)

/-- A name that is open is opened again with its handle. -/
theorem opened_mem (h : WellFormed r) {e : Entry α β} (he : e ∈ r) :
    opened r e.name e.handle = some (bump r e.handle 1) := by
  unfold opened
  rw [find?_of_nodup h.names he]
  exact if_pos rfl

/-- A new name is opened with a new handle. -/
theorem opened_new {name : α} {handle : β} (hname : ∀ e ∈ r, e.name ≠ name)
    (hhandle : ∀ e ∈ r, e.handle ≠ handle) :
    opened r name handle = some (⟨name, handle, 1⟩ :: r) := by
  unfold opened
  have hfind : r.find? (fun e => e.name = name) = none := by
    rw [List.find?_eq_none]
    intro e he
    simpa only [decide_eq_true_eq] using hname e he
  rw [hfind, any_handle.mpr hhandle]
  rfl

/-- **Every open keeps the registry well formed.** -/
theorem WellFormed.opened (h : WellFormed r) {name : α} {handle : β} {r' : List (Entry α β)}
    (ho : Registry.opened r name handle = some r') : WellFormed r' := by
  unfold Registry.opened at ho
  cases hfind : r.find? (fun e => e.name = name) with
  | some e =>
      rw [hfind] at ho
      dsimp only at ho
      split_ifs at ho
      obtain rfl := Option.some.inj ho
      refine h.bump (fun e he _ => ?_)
      have hpos := h.counts e he
      omega
  | none =>
      rw [hfind] at ho
      dsimp only at ho
      split_ifs at ho with hany
      obtain rfl := Option.some.inj ho
      refine ⟨List.nodup_cons.mpr ⟨?_, h.names⟩, List.nodup_cons.mpr ⟨?_, h.handles⟩, ?_⟩
      · intro hmem
        obtain ⟨e, he, hname⟩ := List.mem_map.mp hmem
        exact List.find?_eq_none.mp hfind e he (decide_eq_true hname)
      · intro hmem
        obtain ⟨e, he, hhandle⟩ := List.mem_map.mp hmem
        exact any_handle.mp (Bool.eq_false_iff.mpr hany) e he hhandle
      · intro e he
        cases he with
        | head => exact Int.le_refl 1
        | tail _ he => exact h.counts e he

end Names

end Registry
