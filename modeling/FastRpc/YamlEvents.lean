import Mathlib.Data.List.Basic
import Mathlib.Tactic.Common

/-! # Documents and their events

A YAML document is a tree of scalars, sequences and mappings in which a node may be an alias of a node with
an anchor, also of one that it is in.  A parser delivers the tree as a list of events, in the order of the
text: a mapping is a start, its keys each with its value behind it, and an end, and an alias is a single
event.  `child` is the value of a key of a mapping. -/

namespace YamlEvents

/-- The events of a parser. -/
inductive Event (α : Type)
  | streamStart
  | streamEnd
  | documentStart
  | documentEnd
  | aliasOf
  | scalar (value : α)
  | sequenceStart
  | sequenceEnd
  | mappingStart
  | mappingEnd
  deriving DecidableEq, Repr

/-- A node of a document. -/
inductive Node (α : Type)
  | scalar (value : α)
  | aliasOf (anchor : ℕ)
  | sequence (items : List (Node α))
  | mapping (entries : List (Node α × Node α))

namespace Node

variable {α : Type}

mutual

/-- The events of a node. -/
def events : Node α → List (Event α)
  | .scalar value => [.scalar value]
  | .aliasOf _ => [.aliasOf]
  | .sequence items => .sequenceStart :: (eventsItems items ++ [.sequenceEnd])
  | .mapping entries => .mappingStart :: (eventsEntries entries ++ [.mappingEnd])

def eventsItems : List (Node α) → List (Event α)
  | [] => []
  | item :: items => item.events ++ eventsItems items

def eventsEntries : List (Node α × Node α) → List (Event α)
  | [] => []
  | (key, value) :: entries => key.events ++ (value.events ++ eventsEntries entries)

end

mutual

theorem streamEnd_not_mem_events : ∀ node : Node α, Event.streamEnd ∉ node.events
  | .scalar value => by simp [events]
  | .aliasOf target => by simp [events]
  | .sequence items => by simp [events, streamEnd_not_mem_items items]
  | .mapping entries => by simp [events, streamEnd_not_mem_entries entries]

theorem streamEnd_not_mem_items : ∀ items : List (Node α), Event.streamEnd ∉ eventsItems items
  | [] => by simp [eventsItems]
  | item :: items => by
      simp [eventsItems, streamEnd_not_mem_events item, streamEnd_not_mem_items items]

theorem streamEnd_not_mem_entries :
    ∀ entries : List (Node α × Node α), Event.streamEnd ∉ eventsEntries entries
  | [] => by simp [eventsEntries]
  | (key, value) :: entries => by
      simp [eventsEntries, streamEnd_not_mem_events key, streamEnd_not_mem_events value,
        streamEnd_not_mem_entries entries]

end

end Node

/-- A document, with the nodes that its aliases stand for. -/
structure Document (α : Type) where
  root : Node α
  anchored : ℕ → Node α

namespace Document

variable {α : Type}

/-- The events of a stream of one document. -/
def stream (doc : Document α) : List (Event α) :=
  .streamStart :: .documentStart :: (doc.root.events ++ [.documentEnd, .streamEnd])

/-- What a node stands for. -/
def resolve (doc : Document α) : Node α → Node α
  | .aliasOf anchor => doc.anchored anchor
  | node => node

/-- The text of a scalar. -/
def text (doc : Document α) (node : Node α) : Option α :=
  match doc.resolve node with
  | .scalar value => some value
  | _ => none

/-- The value of a key of a mapping. -/
def child [DecidableEq α] (doc : Document α) (node : Node α) (key : α) : Option (Node α) :=
  match doc.resolve node with
  | .mapping entries => (entries.find? (doc.text ·.1 = some key)).map Prod.snd
  | _ => none

theorem child_mapping_cons [DecidableEq α] (doc : Document α) (key : α) (k v : Node α)
    (entries : List (Node α × Node α)) : doc.child (.mapping ((k, v) :: entries)) key =
      if doc.text k = some key then some v else doc.child (.mapping entries) key := by
  unfold child resolve
  dsimp only
  rw [List.find?_cons]
  by_cases hk : doc.text k = some key
  · simp [hk]
  · simp [hk]

end Document

end YamlEvents
