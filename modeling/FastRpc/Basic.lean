import FastRpc.ByteStore

/-! # Results, checks and 32-bit arithmetic of the C sources

A C function that can fail returns `Except Fault α`: `Fault.error` is an `AEEResult` returned to
the caller (through a `VERIFYC` or a `goto bail`), `Fault.assertion` is a failed `assert`.
`uint32_t` values are natural numbers below `2 ^ 32`; `subU32` and `addU32` are the wrapping
operations and `align8` is the source's `(n + 7) & (~7)`. -/

namespace FastRpc

open ByteStore

/-- An effective domain id: `NUM_DOMAINS_EXTEND = NUM_DOMAINS * NUM_SESSIONS`. -/
abbrev Domain := Fin 32

/-- Numerals are domains. -/
instance domainNumerals : NeZero 32 := ⟨by decide⟩

/-- An id that passed the range check is a domain. -/
theorem toNat_lt_of_domain {domain : ℤ} (h : 0 ≤ domain ∧ domain < 32) : domain.toNat < 32 := by
  omega

/-- The error codes of `AEEStdErr.h` and `AEEStdDef.h` that the modelled functions return. -/
inductive AEEResult
  | EFAILED
  | ENOMEMORY
  | EBADPARM
  | EBADITEM
  | EBADSTATE
  | EINTERRUPTED
  | EEXPIRED
  | EWOULDBLOCK
  | ENOSUCHMAP
  | ENOSUCHMOD
  | ERPC
  | EINVALIDDEVICE
  | EUNSUPPORTED
  | EALREADY
  | ENOTINITIALIZED
  deriving DecidableEq, Repr

/-- How a function stops short of its normal result. -/
inductive Fault
  | error (code : AEEResult)
  | assertion
  deriving DecidableEq, Repr

/-- `VERIFYC(cond, code)`. -/
def verifyC (cond : Bool) (code : AEEResult) : Except Fault Unit :=
  if cond then .ok () else .error (.error code)

/-- `assert(cond)`. -/
def cAssert (cond : Bool) : Except Fault Unit := if cond then .ok () else .error .assertion

@[simp] theorem verifyC_eq_ok {cond : Bool} {code : AEEResult} {u : Unit} :
    verifyC cond code = .ok u ↔ cond = true := by
  cases cond <;> simp [verifyC]

@[simp] theorem cAssert_eq_ok {cond : Bool} {u : Unit} : cAssert cond = .ok u ↔ cond = true := by
  cases cond <;> simp [cAssert]

@[simp] theorem verifyC_true (code : AEEResult) : verifyC true code = .ok () := rfl

@[simp] theorem verifyC_false (code : AEEResult) : verifyC false code = .error (.error code) := rfl

theorem verifyC_pos {p : Prop} [Decidable p] (h : p) (code : AEEResult) :
    verifyC (decide p) code = .ok () := by
  rw [decide_eq_true h]; rfl

theorem verifyC_neg {p : Prop} [Decidable p] (h : ¬ p) (code : AEEResult) :
    verifyC (decide p) code = .error (.error code) := by
  rw [decide_eq_false h]; rfl

theorem cAssert_pos {p : Prop} [Decidable p] (h : p) : cAssert (decide p) = .ok () := by
  rw [decide_eq_true h]; rfl

@[simp] theorem ok_bind {ε α β : Type} (a : α) (f : α → Except ε β) : (Except.ok a >>= f) = f a :=
  rfl

@[simp] theorem error_bind {ε α β : Type} (e : ε) (f : α → Except ε β) :
    (Except.error e >>= f) = .error e := rfl

@[simp] theorem pure_eq_ok {ε α : Type} (a : α) : (pure a : Except ε α) = .ok a := rfl

/-- A computation succeeds exactly when its first part does and the rest does on its value. -/
theorem bind_eq_ok {ε α β : Type} {x : Except ε α} {f : α → Except ε β} {b : β} :
    (x >>= f) = .ok b ↔ ∃ a, x = .ok a ∧ f a = .ok b := by
  cases x with
  | error e => simp [bind, Except.bind]
  | ok a => simp [bind, Except.bind]

/-- `a - b` on `uint32_t`. -/
def subU32 (a b : ℕ) : ℕ := (a + 2 ^ 32 - b) % 2 ^ 32

/-- `a + b` on `uint32_t`. -/
def addU32 (a b : ℕ) : ℕ := (a + b) % 2 ^ 32

/-- `(n + 7) & (~7)` on `uint32_t`. -/
def align8 (n : ℕ) : ℕ := addU32 n 7 / 8 * 8

theorem subU32_of_le {a b : ℕ} (h : b ≤ a) (ha : a < 2 ^ 32) : subU32 a b = a - b := by
  rw [subU32, show a + 2 ^ 32 - b = a - b + 2 ^ 32 by omega, Nat.add_mod_right,
    Nat.mod_eq_of_lt (by omega)]

theorem addU32_of_lt {a b : ℕ} (h : a + b < 2 ^ 32) : addU32 a b = a + b := Nat.mod_eq_of_lt h

theorem addU32_one_ne_self (n : ℕ) : addU32 n 1 ≠ n := by
  unfold addU32
  omega

theorem align8_of_lt {n : ℕ} (h : n + 7 < 2 ^ 32) : align8 n = alignUp 8 n := by
  rw [align8, addU32_of_lt h, alignUp_eight]

end FastRpc
