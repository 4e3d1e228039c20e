import Mathlib.Data.List.Nodup
import Mathlib.Logic.Function.Basic

/-! # Allocated blocks and their lifetimes

A heap of blocks of type `α`.  A block is named by its allocation, so the name of a freed block is
never used again, also where the allocator reuses its memory.  `freed` lists the frees in the
order in which they happen and `stale` the accesses to blocks that were freed before; a program
uses its heap well when no block is freed twice and no access is stale (`Clean`). -/

namespace BlockHeap

/-- The contents of the blocks, the number of blocks allocated so far, and the two logs. -/
structure Heap (α : Type*) where
  cell : ℕ → α
  next : ℕ
  freed : List ℕ
  stale : List ℕ

namespace Heap

variable {α : Type*} {h : Heap α} {n m : ℕ} {ns : List ℕ}

/-- Nothing is allocated yet. -/
def empty (a : α) : Heap α := ⟨fun _ => a, 0, [], []⟩

/-- The block is allocated and not freed. -/
def Live (h : Heap α) (n : ℕ) : Prop := n < h.next ∧ n ∉ h.freed

/-- No block was freed twice and no freed block was accessed. -/
def Clean (h : Heap α) : Prop := h.freed.Nodup ∧ h.stale = []

/-- A new block, named `h.next`. -/
def alloc (h : Heap α) (a : α) : Heap α :=
  { h with cell := Function.update h.cell h.next a, next := h.next + 1 }

/-- A read of block `n`. -/
def touch (h : Heap α) (n : ℕ) : Heap α :=
  if n ∈ h.freed then { h with stale := h.stale ++ [n] } else h

/-- Reads of several blocks. -/
def touchAll (h : Heap α) (ns : List ℕ) : Heap α := ns.foldl touch h

/-- A write to block `n`. -/
def write (h : Heap α) (n : ℕ) (a : α) : Heap α :=
  { h.touch n with cell := Function.update h.cell n a }

/-- `free` of several blocks, one after the other. -/
def freeAll (h : Heap α) (ns : List ℕ) : Heap α := { h with freed := h.freed ++ ns }

/-- `free` of block `n`. -/
def free (h : Heap α) (n : ℕ) : Heap α := h.freeAll [n]

theorem clean_empty (a : α) : (empty a).Clean := ⟨List.nodup_nil, rfl⟩

theorem touch_live (hn : h.Live n) : h.touch n = h := if_neg hn.2

theorem touchAll_live (hns : ∀ n ∈ ns, h.Live n) : h.touchAll ns = h := by
  unfold touchAll
  induction ns with
  | nil => rfl
  | cons n ns ih =>
      rw [List.foldl_cons, touch_live (hns n List.mem_cons_self)]
      exact ih (fun m hm => hns m (List.mem_cons_of_mem n hm))

theorem write_live (hn : h.Live n) (a : α) :
    h.write n a = { h with cell := Function.update h.cell n a } := by
  unfold write
  rw [touch_live hn]

theorem live_alloc (a : α) (hn : h.Live n) : (h.alloc a).Live n := ⟨Nat.lt_succ_of_lt hn.1, hn.2⟩

theorem live_freeAll (hn : h.Live n) (hns : n ∉ ns) : (h.freeAll ns).Live n := by
  refine ⟨hn.1, ?_⟩
  simp [freeAll, hn.2, hns]

theorem freeAll_freeAll (ms : List ℕ) : (h.freeAll ns).freeAll ms = h.freeAll (ns ++ ms) := by
  simp [freeAll]

/-- Freeing live blocks, each once, keeps the heap clean. -/
theorem Clean.freeAll (hc : h.Clean) (hnodup : ns.Nodup) (hlive : ∀ n ∈ ns, h.Live n) :
    (h.freeAll ns).Clean := by
  refine ⟨List.nodup_append.mpr ⟨hc.1, hnodup, ?_⟩, hc.2⟩
  rintro m hm _ hn rfl
  exact (hlive m hn).2 hm

theorem Clean.alloc (hc : h.Clean) (a : α) : (h.alloc a).Clean := hc

/-! ### Accesses to freed blocks stay in the log -/

theorem touch_stale (hn : n ∈ h.freed) : (h.touch n).stale ≠ [] := by
  simp [touch, hn]

theorem stale_touch (m : ℕ) (hs : h.stale ≠ []) : (h.touch m).stale ≠ [] := by
  unfold touch
  split_ifs
  · simp
  · exact hs

theorem stale_touchAll (ns : List ℕ) (hs : h.stale ≠ []) : (h.touchAll ns).stale ≠ [] := by
  unfold touchAll
  induction ns generalizing h with
  | nil => exact hs
  | cons m ns ih => exact ih (stale_touch m hs)

end Heap

end BlockHeap
