import FastRpc.CInt
import Mathlib.Data.Set.Card
import Mathlib.Data.Finset.Card
import Mathlib.Order.Interval.Finset.Basic
import Mathlib.Data.Int.Interval

/-! # The table of DMA handles

`remote_register_dma_handle_attr` counts a use of a file descriptor in the array `dhandles`, and
`unregister_dma_handle` takes one back and returns the length and the attribute.  The first
`dma_handle_count` slots of the array can be in use.  A registration looks for its descriptor, then for
a slot that is not in use, then appends; it is refused when nothing of this is left.  When the last slot
is released the count falls to the slot after the last used one that the search has passed.

`dma_table_is_map` says that the table is a map from descriptors to uses (`DmaMap`): every call answers
as the map does, in every run.  The map is full when `MAX_DMA_HANDLES` descriptors are in use. -/

namespace FastRpc.DmaHandles

open CInt

/-! ### The table -/

/-- `struct dma_handle_info`. -/
structure DmaHandleInfo where
  fd : ℤ
  len : UInt32
  used : ℤ
  attr : UInt32
  deriving DecidableEq, Repr

/-- `dhandles` and `dma_handle_count`. -/
structure DmaTable where
  dhandles : ℕ → DmaHandleInfo
  dmaHandleCount : ℕ

/-- `MAX_DMA_HANDLES`. -/
def maxDmaHandles : ℕ := 256

/-- `FASTRPC_ATTR_NOMAP`. -/
def fastrpcAttrNomap : UInt32 := 16

/-- The error codes of a registration; `init` is that of `fastrpc_init_once`. -/
inductive DmaError
  | init
  | EBADPARM
  | EINVHANDLE
  deriving DecidableEq, Repr

/-- The table after `fastrpc_mem_init`. -/
def DmaTable.empty : DmaTable := ⟨fun _ => ⟨0, 0, 0, 0⟩, 0⟩

namespace DmaTable

/-- A write of a slot. -/
def setSlot (s : DmaTable) (i : ℕ) (d : DmaHandleInfo) : DmaTable :=
  { s with dhandles := Function.update s.dhandles i d }

/-- The loop that looks for a used slot with the descriptor. -/
def findFd (s : DmaTable) (fd : ℤ) : Option ℕ :=
  (List.range s.dmaHandleCount).find? (fun i =>
    (s.dhandles i).used ≠ 0 ∧ (s.dhandles i).fd = fd)

/-- The loop that looks for a slot that is not in use. -/
def findUnused (s : DmaTable) : Option ℕ :=
  (List.range s.dmaHandleCount).find? (fun i => (s.dhandles i).used = 0)

/-- The first locked section of `remote_register_dma_handle_attr`: another use of a descriptor. -/
def countUse (s : DmaTable) (fd : ℤ) (attr : UInt32) : Option DmaTable :=
  (s.findFd fd).map (fun i =>
    let d := s.dhandles i
    s.setSlot i { d with used := wrap (d.used + 1), attr := if d.attr = 0 then attr else d.attr })

/-- The second locked section: the first use of a descriptor. -/
def insert (s : DmaTable) (fd : ℤ) (len attr : UInt32) : Except DmaError DmaTable :=
  match s.findUnused with
  | some i => .ok (s.setSlot i ⟨fd, len, 1, attr⟩)
  | none =>
      if maxDmaHandles ≤ s.dmaHandleCount then .error .EINVHANDLE
      else .ok { s.setSlot s.dmaHandleCount ⟨fd, len, 1, attr⟩ with
        dmaHandleCount := s.dmaHandleCount + 1 }

/-- The checks of `remote_register_dma_handle_attr`; `init` says that `fastrpc_init_once` succeeds. -/
def registerChecks (init : Bool) (fd : ℤ) (attr : UInt32) : Except DmaError Unit :=
  if !init then .error .init
  else if attr ≠ 0 ∧ attr ≠ fastrpcAttrNomap then .error .EBADPARM
  else if fd < 0 then .error .EBADPARM
  else .ok ()

/-- `remote_register_dma_handle_attr`. -/
def register (s : DmaTable) (init : Bool) (fd : ℤ) (len attr : UInt32) :
    Except DmaError Unit × DmaTable :=
  match registerChecks init fd attr with
  | .error e => (.error e, s)
  | .ok () =>
      match s.countUse fd attr with
      | some t => (.ok (), t)
      | none =>
          match s.insert fd len attr with
          | .ok t => (.ok (), t)
          | .error e => (.error e, s)

/-- The loop of `unregister_dma_handle` over some slots: the slot of the descriptor, and the used slot
that was passed last. -/
def findRelease (s : DmaTable) (fd : ℤ) (lastUsed : ℕ) : List ℕ → Option (ℕ × ℕ)
  | [] => none
  | i :: rest =>
      if (s.dhandles i).used ≠ 0 then
        if (s.dhandles i).fd = fd then some (i, lastUsed) else s.findRelease fd i rest
      else s.findRelease fd lastUsed rest

/-- `unregister_dma_handle`: `*len` and `*attr`, and the table. -/
def unregister (s : DmaTable) (fd : ℤ) : (UInt32 × UInt32) × DmaTable :=
  match s.findRelease fd 0 (List.range s.dmaHandleCount) with
  | none => ((0, 0), s)
  | some (i, lastUsed) =>
      let d := s.dhandles i
      let t := s.setSlot i { d with used := wrap (d.used - 1) }
      ((d.len, d.attr),
        if i + 1 = s.dmaHandleCount ∧ wrap (d.used - 1) = 0 then
          { t with dmaHandleCount := lastUsed + 1 }
        else t)

end DmaTable

/-! ### The map -/

/-- The uses of a descriptor: their number, an `int`, the length given first and the attribute. -/
structure Use where
  count : ℤ
  len : UInt32
  attr : UInt32
  deriving DecidableEq, Repr

/-- The descriptors in use. -/
abbrev DmaMap := ℤ → Option Use

/-- The uses with another count; no uses are left when it is 0. -/
def Use.withCount (u : Use) (count : ℤ) : Option Use :=
  if count = 0 then none else some { u with count := count }

namespace DmaMap

/-- The descriptors in use. -/
def inUse (m : DmaMap) : Set ℤ := { fd | m fd ≠ none }

open Classical in
/-- A registration that passes the checks.  A descriptor in use gets one more use, and the attribute if
it has none yet. -/
noncomputable def register (m : DmaMap) (init : Bool) (fd : ℤ) (len attr : UInt32) :
    Except DmaError Unit × DmaMap :=
  match DmaTable.registerChecks init fd attr with
  | .error e => (.error e, m)
  | .ok () =>
      match m fd with
      | some u =>
          let u' := { u with attr := if u.attr = 0 then attr else u.attr }
          (.ok (), Function.update m fd (u'.withCount (wrap (u.count + 1))))
      | none =>
          if m.inUse.ncard = maxDmaHandles then (.error .EINVHANDLE, m)
          else (.ok (), Function.update m fd (some ⟨1, len, attr⟩))

/-- The end of a use. -/
def unregister (m : DmaMap) (fd : ℤ) : (UInt32 × UInt32) × DmaMap :=
  match m fd with
  | some u => ((u.len, u.attr), Function.update m fd (u.withCount (wrap (u.count - 1))))
  | none => ((0, 0), m)

end DmaMap

/-! ### Runs of the two -/

/-- The calls. -/
inductive Call
  | register (init : Bool) (fd : ℤ) (len attr : UInt32)
  | unregister (fd : ℤ)
  deriving DecidableEq, Repr

/-- What a call returns. -/
inductive Answer
  | registered (result : Except DmaError Unit)
  | unregistered (len attr : UInt32)

/-- A call on the table. -/
def DmaTable.call (s : DmaTable) : Call → Answer × DmaTable
  | .register init fd len attr =>
      let r := s.register init fd len attr
      (.registered r.1, r.2)
  | .unregister fd =>
      let r := s.unregister fd
      (.unregistered r.1.1 r.1.2, r.2)

/-- A call on the map. -/
noncomputable def DmaMap.call (m : DmaMap) : Call → Answer × DmaMap
  | .register init fd len attr =>
      let r := m.register init fd len attr
      (.registered r.1, r.2)
  | .unregister fd =>
      let r := m.unregister fd
      (.unregistered r.1.1 r.1.2, r.2)

/-- The answers to a sequence of calls and the state after them. -/
def callAll {σ : Type} (call : σ → Call → Answer × σ) : σ → List Call → List Answer × σ
  | s, [] => ([], s)
  | s, c :: cs =>
      let r := call s c
      let q := callAll call r.2 cs
      (r.1 :: q.1, q.2)

/-! ### The map that a table stands for -/

/-- The uses that a slot counts. -/
def DmaHandleInfo.use (d : DmaHandleInfo) : Use := ⟨d.used, d.len, d.attr⟩

/-- The map that a table stands for. -/
def DmaTable.view (s : DmaTable) : DmaMap := fun fd =>
  (s.findFd fd).map (fun i => (s.dhandles i).use)

/-- The slot is in use for the descriptor. -/
def Holds (s : DmaTable) (fd : ℤ) (i : ℕ) : Prop :=
  i < s.dmaHandleCount ∧ (s.dhandles i).used ≠ 0 ∧ (s.dhandles i).fd = fd

instance (s : DmaTable) (fd : ℤ) (i : ℕ) : Decidable (Holds s fd i) :=
  inferInstanceAs (Decidable (_ ∧ _))

/-- The count is in range and no two slots are in use for one descriptor. -/
structure Inv (s : DmaTable) : Prop where
  count : s.dmaHandleCount ≤ maxDmaHandles
  once : ∀ fd i j, Holds s fd i → Holds s fd j → i = j

theorem inv_empty : Inv DmaTable.empty :=
  ⟨Nat.zero_le _, fun _ _ _ hi => absurd hi.1 (Nat.not_lt_zero _)⟩

section View

variable {s t : DmaTable} {fd : ℤ} {i : ℕ}

theorem findFd_some (h : s.findFd fd = some i) : Holds s fd i := by
  have hmem := List.mem_of_find?_eq_some h
  have hp := List.find?_some h
  exact ⟨List.mem_range.mp hmem, of_decide_eq_true hp⟩

theorem findFd_none (h : s.findFd fd = none) : ∀ i, ¬ Holds s fd i := by
  intro i hi
  exact List.find?_eq_none.mp h i (List.mem_range.mpr hi.1) (decide_eq_true hi.2)

theorem findFd_of_holds (h : Inv s) (hi : Holds s fd i) : s.findFd fd = some i := by
  cases hf : s.findFd fd with
  | none => exact absurd hi (findFd_none hf i)
  | some j => rw [h.once fd j i (findFd_some hf) hi]

theorem findFd_of_not_holds (h : ∀ i, ¬ Holds s fd i) : s.findFd fd = none := by
  cases hf : s.findFd fd with
  | none => rfl
  | some j => exact absurd (findFd_some hf) (h j)

theorem view_of_holds (h : Inv s) (hi : Holds s fd i) : s.view fd = some (s.dhandles i).use := by
  rw [DmaTable.view, findFd_of_holds h hi, Option.map_some]

theorem view_of_not_holds (h : ∀ i, ¬ Holds s fd i) : s.view fd = none := by
  rw [DmaTable.view, findFd_of_not_holds h, Option.map_none]

/-- Tables that use the same slots for a descriptor count the same uses of it. -/
theorem view_congr (hs : Inv s) (ht : Inv t) (h : ∀ i, Holds t fd i ↔ Holds s fd i)
    (hslot : ∀ i, Holds s fd i → t.dhandles i = s.dhandles i) : t.view fd = s.view fd := by
  cases hf : s.findFd fd with
  | none =>
      have hnone := findFd_none hf
      rw [view_of_not_holds hnone, view_of_not_holds (fun i hi => hnone i ((h i).mp hi))]
  | some i =>
      have hi := findFd_some hf
      rw [view_of_holds hs hi, view_of_holds ht ((h i).mpr hi), hslot i hi]

/-- **A write of one slot.** When all other used slots keep their place, the view changes for the
descriptor of the new contents only. -/
theorem view_write (hs : Inv s) (hcount : t.dmaHandleCount ≤ maxDmaHandles) {d : DmaHandleInfo}
    (hslots : t.dhandles = Function.update s.dhandles i d)
    (hi : d.used ≠ 0 → i < t.dmaHandleCount)
    (hothers : ∀ j, j ≠ i → (s.dhandles j).used ≠ 0 →
      (j < t.dmaHandleCount ↔ j < s.dmaHandleCount))
    (hown : ∀ j, Holds s d.fd j → j = i)
    (hold : i < s.dmaHandleCount → (s.dhandles i).used ≠ 0 → (s.dhandles i).fd = d.fd) :
    Inv t ∧ t.view = Function.update s.view d.fd (d.use.withCount d.used) := by
  have hself : t.dhandles i = d := by rw [hslots, Function.update_self]
  have hother : ∀ j, j ≠ i → t.dhandles j = s.dhandles j := by
    intro j hne
    rw [hslots, Function.update_of_ne hne]
  have hholds : ∀ fd j, j ≠ i → (Holds t fd j ↔ Holds s fd j) := by
    intro fd j hne
    unfold Holds
    rw [hother j hne]
    constructor
    · exact fun hj => ⟨(hothers j hne hj.2.1).mp hj.1, hj.2⟩
    · exact fun hj => ⟨(hothers j hne hj.2.1).mpr hj.1, hj.2⟩
  have hat : ∀ fd, Holds t fd i → fd = d.fd := by
    intro fd hj
    rw [← hj.2.2, hself]
  have hinv : Inv t := by
    refine ⟨hcount, fun fd j k hj hk => ?_⟩
    rcases eq_or_ne j i with rfl | hji
    · rcases eq_or_ne k j with rfl | hkj
      · rfl
      · obtain rfl := hat fd hj
        exact (hown k ((hholds _ k hkj).mp hk)).symm
    · rcases eq_or_ne k i with rfl | hki
      · obtain rfl := hat fd hk
        exact hown j ((hholds _ j hji).mp hj)
      · exact hs.once fd j k ((hholds fd j hji).mp hj) ((hholds fd k hki).mp hk)
  refine ⟨hinv, funext fun fd => ?_⟩
  rcases eq_or_ne fd d.fd with rfl | hne
  · rw [Function.update_self]
    by_cases hused : d.used = 0
    · rw [Use.withCount, if_pos hused]
      refine view_of_not_holds fun j hj => ?_
      rcases eq_or_ne j i with rfl | hji
      · exact hj.2.1 (hself ▸ hused)
      · exact hji (hown j ((hholds _ j hji).mp hj))
    · have hi' : Holds t d.fd i := ⟨hi hused, hself ▸ hused, hself ▸ rfl⟩
      rw [Use.withCount, if_neg hused, view_of_holds hinv hi', hself]
      rfl
  · rw [Function.update_of_ne hne]
    have hnot : ∀ j, Holds s fd j → j ≠ i := by
      rintro j hj rfl
      exact hne (hj.2.2.symm.trans (hold hj.1 hj.2.1))
    refine view_congr hs hinv (fun j => ?_) (fun j hj => hother j (hnot j hj))
    rcases eq_or_ne j i with rfl | hji
    · exact ⟨fun hj => absurd (hat fd hj) hne, fun hj => absurd rfl (hnot j hj)⟩
    · exact hholds fd j hji

end View

/-! ### The descriptors in use -/

/-- The slots in use. -/
def usedSlots (s : DmaTable) : Finset ℕ :=
  (Finset.range s.dmaHandleCount).filter (fun i => (s.dhandles i).used ≠ 0)

section Uses

variable {s t : DmaTable} {fd : ℤ} {i : ℕ} {len attr : UInt32}

theorem mem_usedSlots : i ∈ usedSlots s ↔ Holds s (s.dhandles i).fd i := by
  simp [usedSlots, Holds]

theorem inUse_eq (h : Inv s) :
    s.view.inUse = ((usedSlots s).image (fun i => (s.dhandles i).fd) : Finset ℤ) := by
  ext fd
  simp only [DmaMap.inUse, Set.mem_ofPred_eq, Finset.coe_image, Set.mem_image, Finset.mem_coe]
  constructor
  · intro hview
    cases hf : s.findFd fd with
    | none => exact absurd (view_of_not_holds (findFd_none hf)) hview
    | some i =>
        have hi := findFd_some hf
        exact ⟨i, mem_usedSlots.mpr (hi.2.2.symm ▸ hi), hi.2.2⟩
  · rintro ⟨i, hi, rfl⟩
    rw [view_of_holds h (mem_usedSlots.mp hi)]
    simp

/-- As many descriptors are in use as slots. -/
theorem ncard_inUse (h : Inv s) : s.view.inUse.ncard = (usedSlots s).card := by
  rw [inUse_eq h, Set.ncard_coe_finset, Finset.card_image_of_injOn]
  intro i hi j hj hfd
  have hfd' : (s.dhandles i).fd = (s.dhandles j).fd := hfd
  have hj' := mem_usedSlots.mp (Finset.mem_coe.mp hj)
  exact h.once _ i j (mem_usedSlots.mp (Finset.mem_coe.mp hi)) (hfd'.symm ▸ hj')

/-- An unused slot below the count leaves room. -/
theorem card_usedSlots_lt (hi : i < s.dmaHandleCount) (hunused : (s.dhandles i).used = 0) :
    (usedSlots s).card < s.dmaHandleCount := by
  have hsub : usedSlots s ⊆ (Finset.range s.dmaHandleCount).erase i := by
    intro j hj
    have hj' := mem_usedSlots.mp hj
    refine Finset.mem_erase.mpr ⟨?_, Finset.mem_range.mpr hj'.1⟩
    rintro rfl
    exact hj'.2.1 hunused
  have hcard := Finset.card_le_card hsub
  rw [Finset.card_erase_of_mem (Finset.mem_range.mpr hi), Finset.card_range] at hcard
  omega

theorem findUnused_some (h : s.findUnused = some i) :
    i < s.dmaHandleCount ∧ (s.dhandles i).used = 0 :=
  ⟨List.mem_range.mp (List.mem_of_find?_eq_some h), by
    simpa using List.find?_some (p := fun i => decide ((s.dhandles i).used = 0)) h⟩

/-- Without an unused slot all of them are in use. -/
theorem usedSlots_of_findUnused (h : s.findUnused = none) :
    usedSlots s = Finset.range s.dmaHandleCount := by
  refine Finset.filter_true_of_mem fun i hi => ?_
  simpa using List.find?_eq_none.mp h i (List.mem_range.mpr (Finset.mem_range.mp hi))

/-! ### The calls -/

/-- **Another use** is counted in the slot of the descriptor. -/
theorem countUse_view (attr : UInt32) (h : Inv s) (hf : s.findFd fd = some i) :
    ∃ t, s.countUse fd attr = some t ∧ Inv t ∧
      t.view = Function.update s.view fd
        (({ (s.dhandles i).use with
          attr := if (s.dhandles i).attr = 0 then attr else (s.dhandles i).attr } : Use).withCount
            (wrap ((s.dhandles i).used + 1))) := by
  have hi := findFd_some hf
  have hcount : s.countUse fd attr = some (s.setSlot i
      ⟨(s.dhandles i).fd, (s.dhandles i).len, wrap ((s.dhandles i).used + 1),
        if (s.dhandles i).attr = 0 then attr else (s.dhandles i).attr⟩) := by
    rw [DmaTable.countUse, hf, Option.map_some]
  refine ⟨_, hcount, ?_⟩
  obtain ⟨hlt, hused, rfl⟩ := hi
  exact view_write (t := s.setSlot i _) h h.count rfl (fun _ => hlt)
    (fun _ _ _ => Iff.rfl) (fun j hj => h.once _ j i hj ⟨hlt, hused, rfl⟩) (fun _ _ => rfl)

/-- **The first use** takes an unused slot, or the next one. -/
theorem insert_view (len attr : UInt32) (h : Inv s) (hnot : ∀ i, ¬ Holds s fd i) :
    (∃ t, s.insert fd len attr = .ok t ∧ Inv t ∧
      t.view = Function.update s.view fd (some ⟨1, len, attr⟩) ∧
        s.view.inUse.ncard ≠ maxDmaHandles) ∨
      s.insert fd len attr = .error .EINVHANDLE ∧ s.view.inUse.ncard = maxDmaHandles := by
  have hown : ∀ i j, Holds s fd j → j = i := fun i j hj => absurd hj (hnot j)
  have hcount := h.count
  rw [ncard_inUse h]
  unfold DmaTable.insert
  cases hfree : s.findUnused with
  | some i =>
      obtain ⟨hlt, hunused⟩ := findUnused_some hfree
      have hroom := card_usedSlots_lt hlt hunused
      obtain ⟨hinv, hview⟩ := view_write (d := ⟨fd, len, 1, attr⟩) (t := s.setSlot i _) h h.count rfl
        (fun _ => hlt) (fun _ _ _ => Iff.rfl) (hown i) (fun _ hused => absurd hunused hused)
      exact Or.inl ⟨_, rfl, hinv, hview, by omega⟩
  | none =>
      have hall : (usedSlots s).card = s.dmaHandleCount := by
        rw [usedSlots_of_findUnused hfree, Finset.card_range]
      simp only
      split_ifs with hfull
      · exact Or.inr ⟨rfl, by omega⟩
      · obtain ⟨hinv, hview⟩ := view_write (d := ⟨fd, len, 1, attr⟩)
          (t := { s.setSlot s.dmaHandleCount ⟨fd, len, 1, attr⟩ with
            dmaHandleCount := s.dmaHandleCount + 1 }) h
          (by show s.dmaHandleCount + 1 ≤ _; omega) rfl (fun _ => Nat.lt_succ_self _)
          (fun j hne _ => by show j < s.dmaHandleCount + 1 ↔ _; omega) (hown _)
          (fun hlt => absurd hlt (lt_irrefl _))
        exact Or.inl ⟨_, rfl, hinv, hview, by omega⟩

/-- **A registration** answers as on the map. -/
theorem register_view (h : Inv s) (init : Bool) (fd : ℤ) (len attr : UInt32) :
    Inv (s.register init fd len attr).2 ∧
      (s.register init fd len attr).1 = (s.view.register init fd len attr).1 ∧
      (s.register init fd len attr).2.view = (s.view.register init fd len attr).2 := by
  unfold DmaTable.register DmaMap.register
  cases DmaTable.registerChecks init fd attr with
  | error e => exact ⟨h, rfl, rfl⟩
  | ok u =>
      cases hf : s.findFd fd with
      | some i =>
          obtain ⟨t, ht, hinv, hview⟩ := countUse_view attr h hf
          rw [ht, view_of_holds h (findFd_some hf)]
          exact ⟨hinv, rfl, hview⟩
      | none =>
          have hnot := findFd_none hf
          have hcount : s.countUse fd attr = none := by rw [DmaTable.countUse, hf]; rfl
          rw [hcount, view_of_not_holds hnot]
          rcases insert_view len attr h hnot with
            ⟨t, ht, hinv, hview, hroom⟩ | ⟨ht, hfull⟩
          · simp only [ht]
            rw [if_neg hroom]
            exact ⟨hinv, rfl, hview⟩
          · simp only [ht]
            rw [if_pos hfull]
            exact ⟨h, rfl, rfl⟩

/-- The loop of `unregister_dma_handle` from slot `a` on stops at the slot of the descriptor, and no
slot between the last used one that it passed and this slot is in use. -/
theorem findRelease_some {l : ℕ} (n a last : ℕ) (hlast : last ≤ a)
    (h : s.findRelease fd last (List.range' a n) = some (i, l)) :
    (a ≤ i ∧ i < a + n) ∧ ((s.dhandles i).used ≠ 0 ∧ (s.dhandles i).fd = fd) ∧
      (last ≤ l ∧ l ≤ i) ∧ ∀ j, a ≤ j → j < i → (s.dhandles j).used ≠ 0 → j ≤ l := by
  induction n generalizing a last with
  | zero => exact absurd h (by simp [DmaTable.findRelease])
  | succ n ih =>
      rw [List.range'_succ, DmaTable.findRelease] at h
      split_ifs at h with hused hfd
      · obtain ⟨rfl, rfl⟩ := Prod.mk.inj (Option.some.inj h)
        exact ⟨⟨le_rfl, by omega⟩, ⟨hused, hfd⟩, ⟨le_rfl, hlast⟩, fun j h1 h2 _ => by omega⟩
      · obtain ⟨hrange, hat, hl, hpassed⟩ := ih (a + 1) a (by omega) h
        refine ⟨by omega, hat, by omega, fun j h1 h2 hj => ?_⟩
        rcases eq_or_ne j a with rfl | hne
        · exact hl.1
        · exact hpassed j (by omega) h2 hj
      · obtain ⟨hrange, hat, hl, hpassed⟩ := ih (a + 1) last (by omega) h
        refine ⟨by omega, hat, hl, fun j h1 h2 hj => ?_⟩
        rcases eq_or_ne j a with rfl | hne
        · exact absurd hj hused
        · exact hpassed j (by omega) h2 hj

/-- When it does not stop the descriptor is not in use. -/
theorem findRelease_none {last : ℕ} {slots : List ℕ} (h : s.findRelease fd last slots = none) :
    ∀ j ∈ slots, (s.dhandles j).used ≠ 0 → (s.dhandles j).fd ≠ fd := by
  induction slots generalizing last with
  | nil => exact fun j hj => absurd hj List.not_mem_nil
  | cons a rest ih =>
      rw [DmaTable.findRelease] at h
      intro j hj hused hfd
      split_ifs at h with hau haf
      · rcases List.mem_cons.mp hj with rfl | hj
        · exact haf hfd
        · exact ih h j hj hused hfd
      · rcases List.mem_cons.mp hj with rfl | hj
        · exact hau hused
        · exact ih h j hj hused hfd

/-- **The end of a use** answers as on the map. -/
theorem unregister_view (h : Inv s) (fd : ℤ) :
    Inv (s.unregister fd).2 ∧ (s.unregister fd).1 = (s.view.unregister fd).1 ∧
      (s.unregister fd).2.view = (s.view.unregister fd).2 := by
  unfold DmaTable.unregister DmaMap.unregister
  cases hr : s.findRelease fd 0 (List.range s.dmaHandleCount) with
  | none =>
      have hnot : ∀ i, ¬ Holds s fd i := fun i hi =>
        findRelease_none hr i (List.mem_range.mpr hi.1) hi.2.1 hi.2.2
      rw [view_of_not_holds hnot]
      exact ⟨h, rfl, rfl⟩
  | some p =>
      obtain ⟨i, l⟩ := p
      rw [List.range_eq_range'] at hr
      obtain ⟨⟨_, hlt⟩, ⟨hused, rfl⟩, ⟨_, hl⟩, hpassed⟩ := findRelease_some _ 0 0 le_rfl hr
      have hcount := h.count
      have hlt : i < s.dmaHandleCount := by omega
      have hi : Holds s (s.dhandles i).fd i := ⟨hlt, hused, rfl⟩
      have hown : ∀ j, Holds s (s.dhandles i).fd j → j = i := fun j hj => h.once _ j i hj hi
      simp only [view_of_holds h hi]
      split_ifs with hlast
      · obtain ⟨hinv, hview⟩ := view_write
          (d := { s.dhandles i with used := wrap ((s.dhandles i).used - 1) })
          (t := { s.setSlot i { s.dhandles i with used := wrap ((s.dhandles i).used - 1) } with
            dmaHandleCount := l + 1 }) h
          (by show l + 1 ≤ _; omega) rfl (fun hne => absurd hlast.2 hne)
          (fun j hne hj => by
            show j < l + 1 ↔ _
            refine ⟨fun _ => by omega, fun hjlt => ?_⟩
            have := hpassed j (Nat.zero_le _) (by omega) hj
            omega) hown (fun _ _ => rfl)
        exact ⟨hinv, rfl, hview⟩
      · obtain ⟨hinv, hview⟩ := view_write
          (d := { s.dhandles i with used := wrap ((s.dhandles i).used - 1) })
          (t := s.setSlot i { s.dhandles i with used := wrap ((s.dhandles i).used - 1) }) h h.count
          rfl (fun _ => hlt) (fun _ _ _ => Iff.rfl) hown (fun _ _ => rfl)
        exact ⟨hinv, rfl, hview⟩

end Uses

/-! ### Runs -/

theorem call_view {s : DmaTable} (h : Inv s) (c : Call) :
    Inv (s.call c).2 ∧ (s.call c).1 = (s.view.call c).1 ∧ (s.call c).2.view = (s.view.call c).2 := by
  cases c with
  | register init fd len attr =>
      obtain ⟨hinv, hres, hview⟩ := register_view h init fd len attr
      exact ⟨hinv, congrArg Answer.registered hres, hview⟩
  | unregister fd =>
      obtain ⟨hinv, hres, hview⟩ := unregister_view h fd
      refine ⟨hinv, ?_, hview⟩
      show Answer.unregistered _ _ = Answer.unregistered _ _
      rw [hres]

theorem callAll_view {s : DmaTable} (h : Inv s) (cs : List Call) :
    Inv (callAll DmaTable.call s cs).2 ∧
      (callAll DmaTable.call s cs).1 = (callAll DmaMap.call s.view cs).1 ∧
      (callAll DmaTable.call s cs).2.view = (callAll DmaMap.call s.view cs).2 := by
  induction cs generalizing s with
  | nil => exact ⟨h, rfl, rfl⟩
  | cons c cs ih =>
      obtain ⟨hinv, hanswer, hview⟩ := call_view h c
      obtain ⟨hinv', hanswers, hview'⟩ := ih hinv
      simp only [callAll, hanswer, hview ▸ hanswers, hview ▸ hview']
      exact ⟨hinv', trivial, trivial⟩

/-- **The table is a map.** In every sequence of calls the table of DMA handles answers as the map from
descriptors to their uses, and stands for the map's state after it.  A registration of a descriptor that
is not in use is refused as full exactly when `MAX_DMA_HANDLES` descriptors are in use, and one of a
descriptor in use never is. -/
theorem dma_table_is_map (cs : List Call) :
    (callAll DmaTable.call DmaTable.empty cs).1 = (callAll DmaMap.call (fun _ => none) cs).1 ∧
      (callAll DmaTable.call DmaTable.empty cs).2.view =
        (callAll DmaMap.call (fun _ => none) cs).2 ∧
      ∀ fd len attr, DmaTable.registerChecks true fd attr = .ok () →
        (((callAll DmaTable.call DmaTable.empty cs).2.register true fd len attr).1 =
            .error .EINVHANDLE ↔
          (callAll DmaTable.call DmaTable.empty cs).2.view fd = none ∧
            (callAll DmaTable.call DmaTable.empty cs).2.view.inUse.ncard = maxDmaHandles) := by
  obtain ⟨hinv, hanswers, hview⟩ := callAll_view inv_empty cs
  have hempty : DmaTable.empty.view = fun _ => none :=
    funext fun _ => view_of_not_holds (fun i hi => absurd hi.1 (Nat.not_lt_zero _))
  rw [hempty] at hanswers hview
  refine ⟨hanswers, hview, fun fd len attr hchecks => ?_⟩
  rw [(register_view hinv true fd len attr).2.1]
  unfold DmaMap.register
  rw [hchecks]
  cases hfd : (callAll DmaTable.call DmaTable.empty cs).2.view fd with
  | some u => simp
  | none =>
      simp only [true_and]
      split_ifs with hfull
      · exact ⟨fun _ => hfull, fun _ => rfl⟩
      · exact ⟨fun he => absurd he (by simp), fun he => absurd he hfull⟩

/-- Two descriptors are registered, one of them twice, and released; the table then has room. -/
def someCalls : List Call :=
  [.register true 7 4096 0, .register true 9 64 0, .register true 7 1 fastrpcAttrNomap,
    .unregister 9, .unregister 7, .unregister 8]

theorem dma_table_is_map_someCalls :
    (callAll DmaTable.call DmaTable.empty someCalls).1 =
        (callAll DmaMap.call (fun _ => none) someCalls).1 ∧
      (((callAll DmaTable.call DmaTable.empty someCalls).2.register true 9 64 0).1 =
          .error .EINVHANDLE ↔
        (callAll DmaTable.call DmaTable.empty someCalls).2.view 9 = none ∧
          (callAll DmaTable.call DmaTable.empty someCalls).2.view.inUse.ncard = maxDmaHandles) :=
  ⟨(dma_table_is_map someCalls).1, (dma_table_is_map someCalls).2.2 9 64 0 (by decide)⟩

/-! ### A full table -/

/-- The registrations of the descriptors below `n`. -/
def fill (n : ℕ) : List Call := (List.range n).map (fun (i : ℕ) => .register true i 4096 0)

/-- The map that has these in use. -/
def filled (n : ℕ) : DmaMap := fun fd => if 0 ≤ fd ∧ fd < n then some ⟨1, 4096, 0⟩ else none

theorem callAll_append {σ : Type} (call : σ → Call → Answer × σ) (s : σ) (cs ds : List Call) :
    (callAll call s (cs ++ ds)).2 = (callAll call (callAll call s cs).2 ds).2 := by
  induction cs generalizing s with
  | nil => rfl
  | cons c cs ih => exact ih (call s c).2

theorem ncard_filled (n : ℕ) : (filled n).inUse.ncard = n := by
  have hset : (filled n).inUse = ((Finset.Ico (0 : ℤ) n : Finset ℤ) : Set ℤ) := by
    ext fd
    simp [DmaMap.inUse, filled]
  rw [hset, Set.ncard_coe_finset, Int.card_Ico]
  simp

theorem callAll_fill {n : ℕ} (hn : n ≤ maxDmaHandles) :
    (callAll DmaMap.call (fun _ => none) (fill n)).2 = filled n := by
  induction n with
  | zero =>
      funext fd
      have hnot : ¬ (0 ≤ fd ∧ fd < ((0 : ℕ) : ℤ)) := by omega
      exact (if_neg hnot).symm
  | succ n ih =>
      have hroom : (filled n).inUse.ncard ≠ maxDmaHandles := by rw [ncard_filled]; omega
      have hnew : filled n (n : ℤ) = none := if_neg (by omega)
      have hchecks : DmaTable.registerChecks true (n : ℤ) 0 = .ok () := by
        simp [DmaTable.registerChecks]
      rw [fill, List.range_succ, List.map_append, callAll_append]
      rw [← fill, ih (by omega)]
      simp only [List.map_cons, List.map_nil, callAll, DmaMap.call, DmaMap.register, hchecks, hnew,
        if_neg hroom]
      funext fd
      unfold filled
      rcases eq_or_ne fd n with rfl | hne
      · rw [Function.update_self, if_pos (by omega)]
      · rw [Function.update_of_ne hne]
        exact if_congr (by omega) rfl rfl

/-- With `MAX_DMA_HANDLES` descriptors in use, a registration of one of them is not refused. -/
theorem full_table_counts_again :
    ∃ cs, (callAll DmaTable.call DmaTable.empty cs).2.view.inUse.ncard = maxDmaHandles ∧
      ((callAll DmaTable.call DmaTable.empty cs).2.register true 0 4096 0).1 = .ok () := by
  obtain ⟨hinv, _, hview⟩ := callAll_view inv_empty (fill maxDmaHandles)
  have hempty : DmaTable.empty.view = fun _ => none :=
    funext fun _ => view_of_not_holds (fun i hi => absurd hi.1 (Nat.not_lt_zero _))
  rw [hempty, callAll_fill le_rfl] at hview
  refine ⟨fill maxDmaHandles, by rw [hview, ncard_filled], ?_⟩
  rw [(register_view hinv true 0 4096 0).2.1, hview]
  have hzero : filled maxDmaHandles 0 = some ⟨1, 4096, 0⟩ := if_pos (by decide)
  have hchecks : DmaTable.registerChecks true 0 0 = .ok () := by decide
  simp only [DmaMap.register, hchecks, hzero]

end FastRpc.DmaHandles
