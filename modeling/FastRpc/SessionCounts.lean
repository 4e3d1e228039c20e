import FastRpc.HandleTable
import FastRpc.LoggedTriple

/-! # Opens and closes with their session references

`remote_handle_open` and `remote_handle64_open` take a reference on their domain (`FASTRPC_GET_REF`)
and keep it when they succeed; `remote_handle_close` and `remote_handle64_close` give one back
(`FASTRPC_PUT_REF`).  Here the four functions are written again over the table with its reference
counts.  What they call works on the table alone and is lifted; the end of a session sets the count
to 0.  The calls that these functions make through `remote_handle_invoke` and `remote_handle64_invoke`
take and give back a reference of their own around each call and leave the counts as they are.

`TableRefs.table` of the state after an operation is the table that the operation of `HandleTable`
leaves (`forgets_remoteHandleOpenRef` and so on), so that the two models agree. -/

namespace FastRpc

open Logged (read emit)
open Transition

/-! ### The table with its reference counts -/

/-- The handle table with the `ref` field of every domain. -/
structure TableRefs where
  table : HandleTable
  refs : Domain → ℕ

/-- The steps: those of the table, `fastrpc_session_get` and `fastrpc_session_put`. -/
inductive RefStep
  | table (e : TableStep)
  | get (domain : Domain)
  | put (domain : Domain)

/-- One step. -/
def refStep (env : TableEnv) (s : TableRefs) : RefStep → TableRefs
  | .table (.resetSession domain) =>
      ⟨tableStep env s.table (.resetSession domain), Function.update s.refs domain 0⟩
  | .table e => { s with table := tableStep env s.table e }
  | .get domain => { s with refs := Function.update s.refs domain (addU32 (s.refs domain) 1) }
  | .put domain => { s with refs := Function.update s.refs domain (s.refs domain - 1) }

/-- A program over the table and the counts. -/
abbrev RefM (env : TableEnv) := Logged (refStep env)

section Programs

variable {env : TableEnv} {α : Type}

/-- A program of the table. -/
def lift (m : TableM env α) : RefM env α := fun s => (m.val s.table, (m.log s.table).map .table)

/-- `FASTRPC_GET_REF`. -/
def getRef (domain : Domain) : RefM env ℤ := do
  let nErr ← lift (fastrpcSessionGet domain)
  if nErr = aeeSuccess then emit (.get domain)
  return nErr

/-- `remote_handle_close`. -/
def remoteHandleCloseRef (h : ℕ) : RefM env ℤ := do
  let s ← read
  let nErr ← lift (remoteHandleCloseDomain s.table.getCurrentDomain h)
  if nErr = aeeSuccess then do
    emit (.put s.table.getCurrentDomain)
    discard (lift (fastrpcUpdateModuleList (.dequeue .nonDomain) s.table.getCurrentDomain h))
    return aeeSuccess
  else
    let u ← read
    if u.table.isProcessExiting s.table.getCurrentDomain then return aeeSuccess else return nErr

/-- `remote_handle64_close`. -/
def remoteHandle64CloseRef (handle : ℕ) : RefM env ℤ := do
  let s ← read
  if isStaticpdHandle handle then return aeeSuccess
  else if handle = invalidHandle then return aeeEInvHandle
  else
    match s.table.getDomainFromHandle handle, s.table.getHandleRemote handle with
    | some domain, some remote => do
        emit (.table (.setThreadContext (some domain)))
        let nErr ← lift (closeOnDomain domain handle remote (s.table.startDeinit domain))
        if nErr = aeeSuccess then emit (.put domain)
        if nErr = aeeEInvHandle then return nErr
        else
          if s.table.startDeinit domain then lift (domainDeinit domain)
          let u ← read
          if nErr ≠ aeeSuccess ∧ u.table.isProcessExiting domain then return aeeSuccess
          else return nErr
    | _, _ => return aeeEInvHandle

/-- `remote_handle_open`: the error code and `*ph`. -/
def remoteHandleOpenRef (name : ModuleName) (ph : ℕ) : RefM env (ℤ × ℕ) := do
  let s ← read
  let ref ← getRef s.table.getCurrentDomain
  let r ← if ref ≠ aeeSuccess then pure (ref, none)
    else lift (remoteHandleOpenDomain s.table.getCurrentDomain name)
  let ph := r.2.getD ph
  if r.1 = aeeSuccess then do
    discard (lift (fastrpcUpdateModuleList (.prepend .nonDomain) s.table.getCurrentDomain ph))
    return (aeeSuccess, ph)
  else
    if ph ≠ 0 then discard (remoteHandle64CloseRef ph)
    else if ref = aeeSuccess then emit (.put s.table.getCurrentDomain)
    return (r.1, ph)

/-- `remote_handle64_open`: the error code and the handle. -/
def remoteHandle64OpenRef (domain : Option Domain) (name : ModuleName) :
    RefM env (ℤ × Option ℕ) := do
  match domain with
  | none => return (aeeEBadParm, none)
  | some domain => do
      let ref ← getRef domain
      let r ← if ref ≠ aeeSuccess then pure (ref, none)
        else lift (remoteHandleOpenDomain domain name)
      let h := r.2.getD 0
      if r.1 = aeeSuccess then
        if name = .geteventfd ∨ isStaticpdHandle h then return (aeeSuccess, some h)
        else do
          let addr ← lift (fastrpcUpdateModuleList (.prepend .multiDomain) domain h)
          return (aeeSuccess, addr)
      else
        if h ≠ 0 then discard (remoteHandleCloseRef h)
        else if ref = aeeSuccess then emit (.put domain)
        return (r.1, none)

end Programs

/-! ### The table under it -/

section Forget

variable {env : TableEnv} {α β : Type}

/-- The program does to the table what `m₀` does, and its result is that of `m₀` by `f`. -/
structure Forgets (m : RefM env α) (f : α → β) (m₀ : TableM env β) : Prop where
  val : ∀ s, f (m.val s) = m₀.val s.table
  table : ∀ s, (m.after s).table = m₀.after s.table

theorem foldl_table (s : TableRefs) (l : List TableStep) :
    ((l.map RefStep.table).foldl (refStep env) s).table = l.foldl (tableStep env) s.table := by
  induction l generalizing s with
  | nil => rfl
  | cons e l ih =>
      rw [List.map_cons, List.foldl_cons, List.foldl_cons, ih]
      congr 1
      cases e <;> rfl

theorem forgets_lift (m : TableM env α) : Forgets (lift m) id m :=
  ⟨fun _ => rfl, fun s => foldl_table s _⟩

variable {γ : Type} {f : α → β} {m : RefM env α} {m₀ : TableM env β}

theorem forgets_pure {a : α} {b : β} (h : f a = b) :
    Forgets (pure a : RefM env α) f (pure b) :=
  ⟨fun _ => h, fun _ => rfl⟩

theorem forgets_bind {α' β' : Type} {f' : α' → β'} {k : α → RefM env α'} {k₀ : β → TableM env β'}
    (hm : Forgets m f m₀) (hk : ∀ a, Forgets (k a) f' (k₀ (f a))) :
    Forgets (m >>= k) f' (m₀ >>= k₀) := by
  constructor
  · intro s
    rw [Logged.val_bind, Logged.val_bind, (hk _).val, hm.val, hm.table]
  · intro s
    rw [Logged.after_bind, Logged.after_bind, (hk _).table, hm.val, hm.table]

theorem forgets_read_bind {k : TableRefs → RefM env α} {k₀ : HandleTable → TableM env β}
    (hk : ∀ s, Forgets (k s) f (k₀ s.table)) : Forgets (read >>= k) f (read >>= k₀) :=
  ⟨fun s => (hk s).val s, fun s => (hk s).table s⟩

/-- A step of the counts alone. -/
theorem forgets_count {e : RefStep} (he : ∀ s, (refStep env s e).table = s.table)
    {k : PUnit → RefM env α} (hk : Forgets (k ⟨⟩) f m₀) : Forgets (emit e >>= k) f m₀ := by
  constructor
  · intro s
    exact (hk.val (refStep env s e)).trans (congrArg (Logged.val m₀) (he s))
  · intro s
    exact (hk.table (refStep env s e)).trans (congrArg (Logged.after m₀) (he s))

/-- Such a step under a test. -/
theorem forgets_optional_count {c : Prop} [Decidable c] {e : RefStep}
    (he : ∀ s, (refStep env s e).table = s.table) {k : PUnit → RefM env α}
    (hk : Forgets (k ⟨⟩) f m₀) : Forgets (if c then emit e >>= k else k ⟨⟩) f m₀ := by
  split
  · exact forgets_count he hk
  · exact hk

theorem forgets_emit {e : TableStep} : Forgets (emit (.table e) : RefM env PUnit) id (emit e) :=
  ⟨fun _ => rfl, fun s => foldl_table s [e]⟩

theorem forgets_ite {c : Prop} [Decidable c] {m' : RefM env α} {m₀' : TableM env β}
    (h : c → Forgets m f m₀) (h' : ¬ c → Forgets m' f m₀') :
    Forgets (if c then m else m') f (if c then m₀ else m₀') := by
  split
  · exact h ‹_›
  · exact h' ‹_›

/-- Two alternatives with the same continuation. -/
theorem forgets_branch {α' β' : Type} {f' : α' → β'} {c : Prop} [Decidable c] {m' : RefM env α}
    {m₀' : TableM env β} {k : α → RefM env α'} {k₀ : β → TableM env β'} (hm : Forgets m f m₀)
    (hm' : Forgets m' f m₀') (hk : ∀ a, Forgets (k a) f' (k₀ (f a))) :
    Forgets (if c then m >>= k else m' >>= k) f' (if c then m₀ >>= k₀ else m₀' >>= k₀) :=
  forgets_ite (fun _ => forgets_bind hm hk) (fun _ => forgets_bind hm' hk)

theorem forgets_discard (h : Forgets m f m₀) : Forgets (discard m) id (discard m₀) :=
  forgets_bind h (fun _ => forgets_pure rfl)

theorem forgets_getRef (domain : Domain) :
    Forgets (@getRef env domain) id (fastrpcSessionGet domain) := by
  have hbind : fastrpcSessionGet domain = (fastrpcSessionGet domain >>= pure : TableM env ℤ) := by
    funext t
    exact (Prod.ext rfl (List.append_nil _).symm)
  rw [hbind]
  apply forgets_bind (forgets_lift _)
  intro nErr
  split
  · exact forgets_count (fun _ => rfl) (forgets_pure rfl)
  · exact forgets_pure rfl

theorem forgets_remoteHandleCloseRef (h : ℕ) :
    Forgets (@remoteHandleCloseRef env h) id (remoteHandleClose h) := by
  apply forgets_read_bind
  intro s
  apply forgets_bind (forgets_lift _)
  intro nErr
  apply forgets_ite
  · intro _
    apply forgets_count (fun _ => rfl)
    exact forgets_bind (forgets_discard (forgets_lift _)) (fun _ => forgets_pure rfl)
  · intro _
    apply forgets_read_bind
    intro u
    exact forgets_ite (fun _ => forgets_pure rfl) (fun _ => forgets_pure rfl)

theorem forgets_remoteHandle64CloseRef (handle : ℕ) :
    Forgets (@remoteHandle64CloseRef env handle) id (remoteHandle64Close handle) := by
  unfold remoteHandle64CloseRef remoteHandle64Close
  apply forgets_read_bind
  intro s
  apply forgets_ite (fun _ => forgets_pure rfl)
  intro _
  apply forgets_ite (fun _ => forgets_pure rfl)
  intro _
  cases s.table.getDomainFromHandle handle with
  | none => exact forgets_pure rfl
  | some domain =>
      cases s.table.getHandleRemote handle with
      | none => exact forgets_pure rfl
      | some remote =>
          apply forgets_bind forgets_emit
          intro _
          apply forgets_bind (forgets_lift _)
          intro nErr
          apply forgets_optional_count (fun _ => rfl)
          apply forgets_ite (fun _ => forgets_pure rfl)
          intro _
          have hend : Forgets (do
              let u ← read
              if nErr ≠ aeeSuccess ∧ u.table.isProcessExiting domain then return aeeSuccess
              else return nErr : RefM env ℤ) id (do
              let u ← read
              if nErr ≠ aeeSuccess ∧ u.isProcessExiting domain then return aeeSuccess
              else return nErr) := by
            apply forgets_read_bind
            intro u
            exact forgets_ite (fun _ => forgets_pure rfl) (fun _ => forgets_pure rfl)
          apply forgets_ite
          · intro _
            exact forgets_bind (forgets_lift _) (fun _ => hend)
          · intro _
            exact hend

theorem forgets_remoteHandleOpenRef (name : ModuleName) (ph : ℕ) :
    Forgets (@remoteHandleOpenRef env name ph) Prod.fst (remoteHandleOpen name ph) := by
  unfold remoteHandleOpenRef remoteHandleOpen
  apply forgets_read_bind
  intro s
  apply forgets_bind (forgets_getRef _)
  intro ref
  apply forgets_branch (forgets_pure rfl) (forgets_lift _)
  intro r
  apply forgets_ite
  · intro _
    exact forgets_bind (forgets_discard (forgets_lift _)) (fun _ => forgets_pure rfl)
  · intro _
    apply forgets_ite
    · intro _
      exact forgets_bind (forgets_discard (forgets_remoteHandle64CloseRef _))
        (fun _ => forgets_pure rfl)
    · intro _
      exact forgets_optional_count (fun _ => rfl) (forgets_pure rfl)

theorem forgets_remoteHandle64OpenRef (domain : Option Domain) (name : ModuleName) :
    Forgets (@remoteHandle64OpenRef env domain name) id (remoteHandle64Open domain name) := by
  cases domain with
  | none => exact forgets_pure rfl
  | some domain =>
      apply forgets_bind (forgets_getRef domain)
      intro ref
      apply forgets_branch (forgets_pure rfl) (forgets_lift _)
      intro r
      apply forgets_ite
      · intro _
        apply forgets_ite (fun _ => forgets_pure rfl)
        intro _
        exact forgets_bind (forgets_lift _) (fun addr => forgets_pure rfl)
      · intro _
        apply forgets_ite
        · intro _
          exact forgets_bind (forgets_discard (forgets_remoteHandleCloseRef _))
            (fun _ => forgets_pure rfl)
        · intro _
          exact forgets_optional_count (fun _ => rfl) (forgets_pure rfl)

end Forget

end FastRpc
