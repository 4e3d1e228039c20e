import Mathlib.Data.List.Basic

/-! # Computations that leave a trace and may stop

An instrumented program records the events of its run, and ends with a value or with a fault.
`Traced ε φ α` is the type of such programs: `emit` records an event, and `lift` runs a computation
that has a result but no event.  What would come after a fault is not in the trace.

`Ensures P F m` says that every event of `m` satisfies `P` and its fault `F`.  The rules follow the
program and are exact, so that a safety property is proved along the text of the program, and an
event that violates it is found in the same way.  `Returns P a m` says that the program ends with the
value `a`. -/

/-- A program that records events `ε` and ends with a value or with a fault `φ`. -/
def Traced (ε φ α : Type) : Type := List ε × Except φ α

namespace Traced

variable {ε φ α β : Type}

/-- The events of a program. -/
def trace (m : Traced ε φ α) : List ε := m.1

/-- How a program ends. -/
def result (m : Traced ε φ α) : Except φ α := m.2

instance : Monad (Traced ε φ) where
  pure a := ([], .ok a)
  bind m f :=
    match m.result with
    | .ok a => (m.trace ++ (f a).trace, (f a).result)
    | .error e => (m.trace, .error e)

/-- Record an event. -/
def emit (e : ε) : Traced ε φ Unit := ([e], .ok ())

/-- A computation without events. -/
def lift (x : Except φ α) : Traced ε φ α := ([], x)

/-! ### Results and traces -/

section Results

variable {m : Traced ε φ α} {f : α → Traced ε φ β}

@[simp] theorem result_pure (a : α) : (pure a : Traced ε φ α).result = pure a := (rfl)

@[simp] theorem result_emit (e : ε) : (emit e : Traced ε φ Unit).result = pure () := (rfl)

@[simp] theorem result_lift (x : Except φ α) : (lift x : Traced ε φ α).result = x := (rfl)

@[simp] theorem result_emit_bind (e : ε) (f : Unit → Traced ε φ β) :
    (emit e >>= f).result = (f ()).result := (rfl)

/-- The results of a program, without its events. -/
@[simp] theorem result_bind (m : Traced ε φ α) (f : α → Traced ε φ β) :
    (m >>= f).result = m.result >>= fun a => (f a).result := by
  obtain ⟨l, x⟩ := m
  cases x <;> rfl

/-- A program has the result of a computation when its parts have. -/
theorem result_bind_of {x : Except φ α} {g : α → Except φ β} (hm : m.result = x)
    (hf : ∀ a, (f a).result = g a) : (m >>= f).result = x >>= g := by
  rw [result_bind, hm]
  exact congrArg (x >>= ·) (funext hf)

theorem result_bind_ok {a : α} (hm : m.result = .ok a) : (m >>= f).result = (f a).result := by
  rw [result_bind, hm]
  rfl

theorem result_ite_of {c : Prop} [Decidable c] {m m' : Traced ε φ α} {x x' : Except φ α}
    (h : m.result = x) (h' : m'.result = x') :
    (if c then m else m').result = if c then x else x' := by
  split
  · exact h
  · exact h'

theorem trace_bind_ok {a : α} (h : m.result = .ok a) :
    (m >>= f).trace = m.trace ++ (f a).trace := by
  obtain ⟨l, x⟩ := m
  obtain rfl : x = .ok a := h
  rfl

theorem trace_bind_error {e : φ} (h : m.result = .error e) : (m >>= f).trace = m.trace := by
  obtain ⟨l, x⟩ := m
  obtain rfl : x = .error e := h
  rfl

end Results

/-! ### Safety -/

/-- Every event satisfies `P`, and a fault `F`. -/
structure Ensures (P : ε → Prop) (F : φ → Prop) (m : Traced ε φ α) : Prop where
  events : ∀ e ∈ m.trace, P e
  fault : ∀ x, m.result = .error x → F x

section Rules

variable {P : ε → Prop} {F : φ → Prop}

@[simp] theorem ensures_pure (a : α) : Ensures P F (pure a : Traced ε φ α) where
  events := fun _ he => absurd he List.not_mem_nil
  fault := fun _ hx => nomatch hx

theorem ensures_lift {x : Except φ α} :
    Ensures P F (lift x : Traced ε φ α) ↔ ∀ e, x = .error e → F e :=
  ⟨fun h => h.fault, fun h => ⟨fun _ he => absurd he List.not_mem_nil, h⟩⟩

theorem ensures_emit {e : ε} : Ensures P F (emit e : Traced ε φ Unit) ↔ P e :=
  ⟨fun h => h.events e (List.mem_singleton.mpr rfl),
    fun h => ⟨fun _ he => List.mem_singleton.mp he ▸ h, fun _ hx => nomatch hx⟩⟩

/-- **Sequences.** The second part counts when the first one ends with a value. -/
theorem ensures_bind {m : Traced ε φ α} {f : α → Traced ε φ β} :
    Ensures P F (m >>= f) ↔
      Ensures P F m ∧ ∀ a, m.result = .ok a → Ensures P F (f a) := by
  cases h : m.result with
  | error x =>
      have hresult : (m >>= f).result = .error x := by rw [result_bind, h]; rfl
      constructor
      · intro hbind
        refine ⟨⟨fun e he => hbind.events e ?_, fun y hy => hbind.fault y ?_⟩, fun _ ha => nomatch ha⟩
        · rw [trace_bind_error h]
          exact he
        · cases h.symm.trans hy
          exact hresult
      · rintro ⟨hm, -⟩
        refine ⟨fun e he => hm.events e ?_, fun y hy => hm.fault y ?_⟩
        · rwa [trace_bind_error h] at he
        · cases hresult.symm.trans hy
          exact h
  | ok a =>
      have hresult : (m >>= f).result = (f a).result := result_bind_ok h
      constructor
      · intro hbind
        refine ⟨⟨fun e he => hbind.events e ?_, fun y hy => ?_⟩, ?_⟩
        · rw [trace_bind_ok h]
          exact List.mem_append_left _ he
        · rw [h] at hy
          cases hy
        · rintro b hb
          obtain rfl := Except.ok.inj hb
          refine ⟨fun e he => hbind.events e ?_, fun y hy => hbind.fault y (hresult.trans hy)⟩
          rw [trace_bind_ok h]
          exact List.mem_append_right _ he
      · rintro ⟨hm, hf⟩
        refine ⟨fun e he => ?_, fun y hy => (hf a rfl).fault y (hresult.symm.trans hy)⟩
        rw [trace_bind_ok h] at he
        exact (List.mem_append.mp he).elim (hm.events e) ((hf a rfl).events e)

/-- A check in front of a program. -/
theorem ensures_lift_bind {x : Except φ α} {f : α → Traced ε φ β} :
    Ensures P F (lift x >>= f) ↔
      (∀ e, x = .error e → F e) ∧ ∀ a, x = .ok a → Ensures P F (f a) := by
  rw [ensures_bind, ensures_lift, result_lift]

theorem Ensures.mono {P' : ε → Prop} {F' : φ → Prop} {m : Traced ε φ α}
    (hP : ∀ e, P e → P' e) (hF : ∀ x, F x → F' x) (h : Ensures P F m) : Ensures P' F' m :=
  ⟨fun e he => hP e (h.events e he), fun x hx => hF x (h.fault x hx)⟩

end Rules

/-! ### Programs with a known value -/

/-- Every event satisfies `P`, and the program ends with `a`. -/
structure Returns (P : ε → Prop) (a : α) (m : Traced ε φ α) : Prop where
  events : ∀ e ∈ m.trace, P e
  result : m.result = .ok a

section Values

variable {P : ε → Prop} {a : α} {b : β}

theorem returns_pure (a : α) : Returns P a (pure a : Traced ε φ α) :=
  ⟨fun _ he => absurd he List.not_mem_nil, rfl⟩

theorem returns_lift {x : Except φ α} (h : x = .ok a) : Returns P a (lift x : Traced ε φ α) :=
  ⟨fun _ he => absurd he List.not_mem_nil, h⟩

theorem returns_emit {e : ε} (h : P e) : Returns P () (emit e : Traced ε φ Unit) :=
  ⟨fun _ he => List.mem_singleton.mp he ▸ h, rfl⟩

theorem Returns.bind {m : Traced ε φ α} {f : α → Traced ε φ β} (hm : Returns P a m)
    (hf : Returns P b (f a)) : Returns P b (m >>= f) := by
  refine ⟨fun e he => ?_, (result_bind_ok hm.result).trans hf.result⟩
  rw [trace_bind_ok hm.result] at he
  exact (List.mem_append.mp he).elim (hm.events e) (hf.events e)

end Values

/-! ### Programs with a known run -/

/-- The program records exactly these events, and ends with `a`. -/
structure Yields (es : List ε) (a : α) (m : Traced ε φ α) : Prop where
  trace : m.trace = es
  result : m.result = .ok a

section Runs

variable {a : α} {b : β} {es fs : List ε}

theorem yields_pure (a : α) : Yields [] a (pure a : Traced ε φ α) := ⟨rfl, rfl⟩

theorem yields_emit (e : ε) : Yields [e] () (emit e : Traced ε φ Unit) := ⟨rfl, rfl⟩

theorem Yields.bind {m : Traced ε φ α} {f : α → Traced ε φ β} (hm : Yields es a m)
    (hf : Yields fs b (f a)) : Yields (es ++ fs) b (m >>= f) := by
  refine ⟨?_, (result_bind_ok hm.result).trans hf.result⟩
  rw [trace_bind_ok hm.result, hm.trace, hf.trace]

theorem Yields.emit {e : ε} {f : Unit → Traced ε φ β} (hf : Yields fs b (f ())) :
    Yields (e :: fs) b (Traced.emit e >>= f) := (yields_emit e).bind hf

/-- Recording a list of events. -/
theorem yields_emits (es : List ε) : Yields es () (es.forM (fun e => (emit e : Traced ε φ Unit))) := by
  induction es with
  | nil => exact yields_pure ()
  | cons e es ih => exact ih.emit

/-- What comes after a known run decides how the program ends. -/
theorem Yields.result_bind {m : Traced ε φ α} (hm : Yields es a m) (f : α → Traced ε φ β) :
    (m >>= f).result = (f a).result := result_bind_ok hm.result

end Runs

end Traced
