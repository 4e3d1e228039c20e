import FastRpc.SearchPaths
import FastRpc.YamlEvents

/-! # The library path in the configuration files

`get_dsp_lib_path` looks up `DSP_LIBRARY_PATH` of a machine in a YAML document.  It reads the events of the
document one by one and keeps its place in two flags: `in_machines` is set by the first scalar `machines` and
never reset, and `in_target_machine` is set by a scalar with the name of the machine and reset by the end of
any mapping.  Keys are not told from values, and the event behind a scalar `DSP_LIBRARY_PATH` is dropped when
it is no scalar.

`lib_path_iff` says for which documents the path that is found is the one that the document has; those of the
schema are among them (`getDspLibPath_schema`). -/

namespace FastRpc.ConfigParser

open CString SearchPaths YamlEvents

/-! ### The code -/

/-- `PATH_MAX`. -/
def pathMax : ℕ := 4096

/-- `"machines"`. -/
def machines : Str := ascii "machines"

/-- `DSP_LIB_KEY`. -/
def dspLibKey : Str := ascii "DSP_LIBRARY_PATH"

/-- The string at the beginning of the text of a scalar. -/
def cstr (value : Str) : Str := value.takeWhile (· ≠ 0)

/-- `strlcpy` into an array of `PATH_MAX` characters. -/
def copied (value : Str) : Str := (strlcpy pathMax (cstr value)).getD []

/-- The loop over the events, with the two flags: what is written to `dsp_lib_paths`. -/
def parseEvents (machine_name : Str) : Bool → Bool → List (Event Str) → Option Str
  | _, _, [] => none
  | in_machines, in_target_machine, .scalar value :: es =>
      if !in_machines && cstr value = machines then parseEvents machine_name true in_target_machine es
      else if in_machines && !in_target_machine then
        parseEvents machine_name in_machines (copied value = machine_name) es
      else if in_target_machine && cstr value = dspLibKey then
        match es with
        | [] => none
        | .scalar path :: _ => some (copied path)
        | _ :: es => parseEvents machine_name in_machines in_target_machine es
      else parseEvents machine_name in_machines in_target_machine es
  | in_machines, in_target_machine, .mappingEnd :: es =>
      parseEvents machine_name in_machines (if in_target_machine then false else in_target_machine) es
  | _, _, .streamEnd :: _ => none
  | in_machines, in_target_machine, _ :: es => parseEvents machine_name in_machines in_target_machine es

theorem parseEvents_scalar (machine_name : Str) (in_machines in_target_machine : Bool) (value : Str)
    (es : List (Event Str)) : parseEvents machine_name in_machines in_target_machine (.scalar value :: es) =
      if !in_machines && cstr value = machines then parseEvents machine_name true in_target_machine es
      else if in_machines && !in_target_machine then
        parseEvents machine_name in_machines (copied value = machine_name) es
      else if in_target_machine && cstr value = dspLibKey then
        match es with
        | [] => none
        | .scalar path :: _ => some (copied path)
        | _ :: es => parseEvents machine_name in_machines in_target_machine es
      else parseEvents machine_name in_machines in_target_machine es := by
  rw [parseEvents.eq_def]

/-- `get_dsp_lib_path` of a document. -/
def getDspLibPath (machine_name : Str) (doc : Document Str) : Option Str :=
  parseEvents machine_name false false doc.stream

/-! ### What is claimed, and when -/

/-- The path that the document has for the machine. -/
def libPath (machine_name : Str) (doc : Document Str) : Option Str :=
  (((doc.child doc.root machines).bind (doc.child · machine_name)).bind (doc.child · dspLibKey)).bind doc.text

/-- Every mapping that ends among the events ends right behind a scalar `DSP_LIBRARY_PATH`; `key` says that
there is one before the events. -/
def NoEnd : Bool → List (Event Str) → Prop
  | _, [] => True
  | key, .mappingEnd :: es => key = true ∧ NoEnd false es
  | _, .scalar value :: es => NoEnd (cstr value = dspLibKey) es
  | _, _ :: es => NoEnd false es

/-- The events come behind a scalar with the name of the machine, and no mapping ends after it. -/
def BehindName (machine_name : Str) (es : List (Event Str)) : Prop :=
  ∃ front value rest, es = front ++ .scalar value :: rest ∧ copied value = machine_name ∧ NoEnd false rest

/-- Before that there is a scalar `machines`. -/
def InScope (machine_name : Str) (es : List (Event Str)) : Prop :=
  ∃ front value rest, es = front ++ .scalar value :: rest ∧ cstr value = machines ∧
    BehindName machine_name rest

/-- Behind `front`, which is in `scope`, there are two scalars `DSP_LIBRARY_PATH` and `path`. -/
def Hit (scope : List (Event Str) → Prop) (es front : List (Event Str)) (path : Str) : Prop :=
  ∃ key value rest, es = front ++ .scalar key :: .scalar value :: rest ∧ cstr key = dspLibKey ∧
    path = copied value ∧ scope front

/-- What is in the first place of that kind, if there is any. -/
def FirstHit (scope : List (Event Str) → Prop) (es : List (Event Str)) : Option Str → Prop
  | some path => ∃ front, Hit scope es front path ∧
      ∀ front' path', Hit scope es front' path' → front.length ≤ front'.length
  | none => ∀ front path, ¬ Hit scope es front path

/-! ### The first hit -/

section Hits

variable {machine_name : Str} {S T : List (Event Str) → Prop} {e d : Event Str} {es front : List (Event Str)}
  {o : Option Str} {path : Str}

theorem hit_cons (hS : ∀ front, T (e :: front) ↔ S front) :
    Hit T (e :: es) (e :: front) path ↔ Hit S es front path := by
  constructor
  · rintro ⟨key, value, rest, hes, hkey, hpath, hscope⟩
    exact ⟨key, value, rest, (List.cons.inj hes).2, hkey, hpath, (hS front).mp hscope⟩
  · rintro ⟨key, value, rest, hes, hkey, hpath, hscope⟩
    exact ⟨key, value, rest, congrArg _ hes, hkey, hpath, (hS front).mpr hscope⟩

/-- A hit is here or in the rest. -/
theorem hit_cons_cases (hS : ∀ front, T (e :: front) ↔ S front) (h : Hit T (e :: es) front path) :
    front = [] ∨ ∃ front', front = e :: front' ∧ Hit S es front' path := by
  cases front with
  | nil => exact .inl rfl
  | cons d front =>
      obtain ⟨key, value, rest, hes, -⟩ := id h
      obtain ⟨rfl, -⟩ := List.cons.inj hes
      exact .inr ⟨front, rfl, (hit_cons hS).mp h⟩

/-- An event that is no hit leaves the first hit where it is. -/
theorem FirstHit.cons (h : FirstHit S es o) (hS : ∀ front, T (e :: front) ↔ S front)
    (hhere : ∀ path, ¬ Hit T (e :: es) [] path) : FirstHit T (e :: es) o := by
  cases o with
  | none =>
      intro front path hhit
      rcases hit_cons_cases hS hhit with rfl | ⟨front', rfl, hrest⟩
      · exact hhere path hhit
      · exact h front' path hrest
  | some v =>
      obtain ⟨front, hhit, hfirst⟩ := h
      refine ⟨e :: front, (hit_cons hS).mpr hhit, fun front' path' hhit' => ?_⟩
      rcases hit_cons_cases hS hhit' with rfl | ⟨front', rfl, hrest⟩
      · exact absurd hhit' (hhere path')
      · exact Nat.succ_le_succ (hfirst front' path' hrest)

theorem firstHit_unique {o' : Option Str} (h : FirstHit S es o) (h' : FirstHit S es o') : o = o' := by
  cases o with
  | none =>
      cases o' with
      | none => rfl
      | some v =>
          obtain ⟨front, hhit, -⟩ := h'
          exact absurd hhit (h front v)
  | some v =>
      obtain ⟨front, hhit, hfirst⟩ := h
      cases o' with
      | none => exact absurd hhit (h' front v)
      | some v' =>
          obtain ⟨front', hhit', hfirst'⟩ := h'
          have hlength := le_antisymm (hfirst front' v' hhit') (hfirst' front v hhit)
          obtain ⟨key, value, rest, hes, -, rfl, -⟩ := hhit
          obtain ⟨key', value', rest', hes', -, rfl, -⟩ := hhit'
          obtain ⟨-, htail⟩ := List.append_inj (hes.symm.trans hes') hlength
          obtain ⟨-, hrest⟩ := List.cons.inj htail
          obtain ⟨hscalar, -⟩ := List.cons.inj hrest
          rw [Event.scalar.inj hscalar]

/-! What an event does to the scopes. -/

theorem not_behindName_nil : ¬ BehindName machine_name [] := by
  rintro ⟨front, value, rest, hes, -⟩
  exact absurd hes.symm (List.append_ne_nil_of_right_ne_nil _ (List.cons_ne_nil _ _))

theorem not_inScope_nil : ¬ InScope machine_name [] := by
  rintro ⟨front, value, rest, hes, -⟩
  exact absurd hes.symm (List.append_ne_nil_of_right_ne_nil _ (List.cons_ne_nil _ _))

theorem behindName_cons (e : Event Str) (es : List (Event Str)) : BehindName machine_name (e :: es) ↔
    (∃ value, e = .scalar value ∧ copied value = machine_name ∧ NoEnd false es) ∨ BehindName machine_name es := by
  constructor
  · rintro ⟨front, value, rest, hes, hname, hrest⟩
    cases front with
    | nil =>
        obtain ⟨rfl, rfl⟩ := List.cons.inj hes
        exact .inl ⟨value, rfl, hname, hrest⟩
    | cons d front => exact .inr ⟨front, value, rest, (List.cons.inj hes).2, hname, hrest⟩
  · rintro (⟨value, rfl, hname, hrest⟩ | ⟨front, value, rest, rfl, hname, hrest⟩)
    · exact ⟨[], value, es, rfl, hname, hrest⟩
    · exact ⟨e :: front, value, rest, rfl, hname, hrest⟩

theorem inScope_cons (e : Event Str) (es : List (Event Str)) : InScope machine_name (e :: es) ↔
    (∃ value, e = .scalar value ∧ cstr value = machines ∧ BehindName machine_name es) ∨
      InScope machine_name es := by
  constructor
  · rintro ⟨front, value, rest, hes, hmachines, hrest⟩
    cases front with
    | nil =>
        obtain ⟨rfl, rfl⟩ := List.cons.inj hes
        exact .inl ⟨value, rfl, hmachines, hrest⟩
    | cons d front => exact .inr ⟨front, value, rest, (List.cons.inj hes).2, hmachines, hrest⟩
  · rintro (⟨value, rfl, hmachines, hrest⟩ | ⟨front, value, rest, rfl, hmachines, hrest⟩)
    · exact ⟨[], value, es, rfl, hmachines, hrest⟩
    · exact ⟨e :: front, value, rest, rfl, hmachines, hrest⟩

theorem BehindName.of_inScope (h : InScope machine_name es) : BehindName machine_name es := by
  obtain ⟨front, value, rest, rfl, -, front', value', rest', rfl, hname, hrest⟩ := h
  exact ⟨front ++ .scalar value :: front', value', rest', by simp, hname, hrest⟩

/-- What is in scope for the flags. -/
def scopeOf (machine_name : Str) : Bool → Bool → List (Event Str) → Prop
  | false, _ => InScope machine_name
  | true, false => BehindName machine_name
  | true, true => fun es => NoEnd false es ∨ BehindName machine_name es

theorem scope_machines {value : Str} (h : cstr value = machines) (es : List (Event Str)) :
    InScope machine_name (.scalar value :: es) ↔ BehindName machine_name es := by
  rw [inScope_cons]
  constructor
  · rintro (⟨_, _, _, hrest⟩ | hrest)
    · exact hrest
    · exact BehindName.of_inScope hrest
  · exact fun hrest => .inl ⟨value, rfl, h, hrest⟩

theorem scope_name {value : Str} (h : copied value = machine_name) (es : List (Event Str)) :
    BehindName machine_name (.scalar value :: es) ↔ scopeOf machine_name true true es := by
  rw [behindName_cons]
  refine or_congr_left ⟨?_, fun hrest => ⟨value, rfl, h, hrest⟩⟩
  rintro ⟨_, _, _, hrest⟩
  exact hrest

/-- A scalar other than the name. -/
theorem scope_word {value : Str} (h : copied value ≠ machine_name) (es : List (Event Str)) :
    BehindName machine_name (.scalar value :: es) ↔ BehindName machine_name es := by
  rw [behindName_cons, or_iff_right]
  rintro ⟨value', hvalue, hname, -⟩
  obtain rfl := Event.scalar.inj hvalue
  exact h hname

/-- In the target an event counts only for the mappings that end. -/
theorem scope_target {e : Event Str} {es es' : List (Event Str)} (h : NoEnd false (e :: es) ↔ NoEnd false es')
    (hrest : NoEnd false es → NoEnd false es') (hname : BehindName machine_name es ↔ BehindName machine_name es') :
    scopeOf machine_name true true (e :: es) ↔ scopeOf machine_name true true es' := by
  change NoEnd false (e :: es) ∨ BehindName machine_name (e :: es) ↔ NoEnd false es' ∨ BehindName machine_name es'
  rw [h, behindName_cons, hname]
  constructor
  · rintro (hend | ⟨_, _, _, hend⟩ | hbehind)
    · exact .inl hend
    · exact .inl (hrest hend)
    · exact .inr hbehind
  · exact Or.imp_right .inr

/-- An event that is no scalar. -/
theorem behindName_other {e : Event Str} (he : ∀ value, e ≠ .scalar value) (es : List (Event Str)) :
    BehindName machine_name (e :: es) ↔ BehindName machine_name es := by
  rw [behindName_cons, or_iff_right]
  rintro ⟨value, rfl, -⟩
  exact he value rfl

theorem inScope_other {e : Event Str} (he : ∀ value, e = .scalar value → cstr value ≠ machines)
    (es : List (Event Str)) : InScope machine_name (e :: es) ↔ InScope machine_name es := by
  rw [inScope_cons, or_iff_right]
  rintro ⟨value, rfl, hmachines, -⟩
  exact he value rfl hmachines

/-- What comes behind the key is dropped. -/
theorem noEnd_dropped {e : Event Str} (he : ∀ value, e ≠ .scalar value) (es : List (Event Str)) :
    NoEnd true (e :: es) ↔ NoEnd false es := by
  cases e with
  | scalar value => exact absurd rfl (he value)
  | mappingEnd => exact and_iff_right rfl
  | _ => exact Iff.rfl

theorem noEnd_tail {e : Event Str} (he : ∀ value, e ≠ .scalar value) {es : List (Event Str)}
    (h : NoEnd false (e :: es)) : NoEnd false es := by
  cases e with
  | scalar value => exact absurd rfl (he value)
  | mappingEnd => exact h.2
  | _ => exact h

theorem scope_dropped {value : Str} (hkey : cstr value = dspLibKey) (hd : ∀ value, d ≠ .scalar value)
    (es : List (Event Str)) :
    scopeOf machine_name true true (.scalar value :: d :: es) ↔ scopeOf machine_name true true es := by
  refine scope_target ?_ (noEnd_tail hd) (behindName_other hd es)
  rw [NoEnd, decide_eq_true hkey, noEnd_dropped hd]

/-- The end of a mapping leads out of the target. -/
theorem scope_end (es : List (Event Str)) :
    scopeOf machine_name true true (.mappingEnd :: es) ↔ BehindName machine_name es := by
  change false = true ∧ NoEnd false es ∨ BehindName machine_name (.mappingEnd :: es) ↔ BehindName machine_name es
  rw [behindName_other (by simp), or_iff_right]
  rintro ⟨hfalse, -⟩
  cases hfalse

/-- An event that changes neither of the flags. -/
theorem scope_other (in_machines in_target_machine : Bool) (he : ∀ value, e ≠ .scalar value)
    (hend : e ≠ .mappingEnd) (es : List (Event Str)) :
    scopeOf machine_name in_machines in_target_machine (e :: es) ↔
      scopeOf machine_name in_machines in_target_machine es := by
  cases in_machines with
  | false => exact inScope_other (fun value h => absurd h (he value)) es
  | true =>
      cases in_target_machine with
      | false => exact behindName_other he es
      | true =>
          refine scope_target ?_ (fun h => h) Iff.rfl
          cases e with
          | scalar value => exact absurd rfl (he value)
          | mappingEnd => exact absurd rfl hend
          | _ => exact Iff.rfl

theorem not_hit_of_scope (h : ¬ S []) (path : Str) : ¬ Hit S es [] path := by
  rintro ⟨_, _, _, _, _, _, hscope⟩
  exact h hscope

theorem not_hit_of_event (h : ∀ key, e = .scalar key → cstr key ≠ dspLibKey) (path : Str) :
    ¬ Hit S (e :: es) [] path := by
  rintro ⟨key, value, rest, hes, hkey, -⟩
  exact h key (List.cons.inj hes).1 hkey

theorem not_hit_of_next (h : ∀ value, d ≠ .scalar value) (path : Str) : ¬ Hit S (e :: d :: es) [] path := by
  rintro ⟨key, value, rest, hes, -⟩
  exact h value (List.cons.inj (List.cons.inj hes).2).1

/-- **The loop finds the first hit.** -/
theorem parseEvents_firstHit (machine_name : Str) (in_machines in_target_machine : Bool) (es : List (Event Str))
    (hflags : in_target_machine = true → in_machines = true) (hes : Event.streamEnd ∉ es) :
    FirstHit (scopeOf machine_name in_machines in_target_machine) es
      (parseEvents machine_name in_machines in_target_machine es) := by
  fun_induction parseEvents machine_name in_machines in_target_machine es with
  | case1 =>
      rintro front path ⟨key, value, rest, hnil, -⟩
      exact absurd hnil.symm (List.append_ne_nil_of_right_ne_nil _ (List.cons_ne_nil _ _))
  | case2 in_machines in_target_machine value es hword ih =>
      -- the first `machines`
      simp only [Bool.and_eq_true, Bool.not_eq_true', decide_eq_true_eq] at hword
      obtain ⟨rfl, hmachines⟩ := hword
      obtain rfl : in_target_machine = false := by simpa using hflags
      exact (ih (fun _ => rfl) (List.not_mem_of_not_mem_cons hes)).cons (scope_machines hmachines)
        (not_hit_of_scope not_inScope_nil)
  | case3 in_machines in_target_machine value es hword hmachine ih =>
      -- a word that is compared with the name
      simp only [Bool.and_eq_true, Bool.not_eq_true'] at hmachine
      obtain ⟨rfl, rfl⟩ := hmachine
      have hrest := ih (fun _ => rfl) (List.not_mem_of_not_mem_cons hes)
      by_cases hname : copied value = machine_name
      · rw [decide_eq_true hname] at hrest ⊢
        exact hrest.cons (scope_name hname) (not_hit_of_scope not_behindName_nil)
      · rw [decide_eq_false hname] at hrest ⊢
        exact hrest.cons (scope_word hname) (not_hit_of_scope not_behindName_nil)
  | case4 in_machines in_target_machine value hword hmachine hkey =>
      -- the key ends the events
      rintro front path ⟨key, value', rest, hsplit, -⟩
      have hlength := congrArg List.length hsplit
      simp only [List.length_append, List.length_cons, List.length_nil] at hlength
      omega
  | case5 in_machines in_target_machine value hword hmachine hkey path es =>
      simp only [Bool.and_eq_true, decide_eq_true_eq] at hkey
      obtain ⟨rfl, hkey⟩ := hkey
      obtain rfl : in_machines = true := hflags rfl
      exact ⟨[], ⟨value, path, es, rfl, hkey, rfl, .inl trivial⟩, fun _ _ _ => Nat.zero_le _⟩
  | case6 in_machines in_target_machine value hword hmachine hkey d es hscalar ih =>
      -- what is behind the key is dropped
      simp only [Bool.and_eq_true, decide_eq_true_eq] at hkey
      obtain ⟨rfl, hkey⟩ := hkey
      obtain rfl : in_machines = true := hflags rfl
      have hd : ∀ value, d ≠ .scalar value := fun value h => hscalar value h
      have hrest := ih hflags (List.not_mem_of_not_mem_cons (List.not_mem_of_not_mem_cons hes))
      have hbehind : FirstHit (fun front => scopeOf machine_name true true (.scalar value :: front)) (d :: es) _ :=
        hrest.cons (scope_dropped hkey hd) (not_hit_of_event fun key h => absurd h (hd key))
      exact hbehind.cons (fun _ => Iff.rfl) (not_hit_of_next hd)
  | case7 in_machines in_target_machine value es hword hmachine hkey ih =>
      -- another word
      have hrest := ih hflags (List.not_mem_of_not_mem_cons hes)
      cases in_machines with
      | false =>
          have hother : cstr value ≠ machines := by simpa using hword
          exact hrest.cons (inScope_other fun _ h => Event.scalar.inj h ▸ hother) (not_hit_of_scope not_inScope_nil)
      | true =>
          cases in_target_machine with
          | false => exact absurd rfl hmachine
          | true =>
              have hother : cstr value ≠ dspLibKey := by simpa using hkey
              refine hrest.cons (fun rest => scope_target ?_ (fun h => h) Iff.rfl)
                (not_hit_of_event fun _ h => Event.scalar.inj h ▸ hother)
              rw [NoEnd, decide_eq_false hother]
  | case8 in_machines in_target_machine es ih =>
      -- a mapping ends
      have hscalar : ∀ value : Str, Event.mappingEnd ≠ .scalar value := by simp
      have hhere : ∀ path, ¬ Hit (scopeOf machine_name in_machines in_target_machine) (.mappingEnd :: es) [] path :=
        not_hit_of_event fun key h => absurd h (hscalar key)
      cases in_target_machine with
      | false =>
          have hrest := ih (by simp) (List.not_mem_of_not_mem_cons hes)
          cases in_machines with
          | false => exact hrest.cons (inScope_other fun value h => absurd h (hscalar value)) hhere
          | true => exact hrest.cons (behindName_other hscalar) hhere
      | true =>
          obtain rfl : in_machines = true := hflags rfl
          exact (ih (by simp) (List.not_mem_of_not_mem_cons hes)).cons scope_end hhere
  | case9 => exact absurd List.mem_cons_self hes
  | case10 in_machines in_target_machine d es hscalar hmapping hstream ih =>
      have hd : ∀ value, d ≠ .scalar value := fun value h => hscalar value h
      exact (ih hflags (List.not_mem_of_not_mem_cons hes)).cons
        (scope_other in_machines in_target_machine hd hmapping) (not_hit_of_event fun key h => absurd h (hd key))

end Hits

/-- The events behind the root change nothing. -/
theorem parseEvents_append_end (machine_name : Str) (in_machines in_target_machine : Bool)
    (es : List (Event Str)) :
    parseEvents machine_name in_machines in_target_machine (es ++ [.documentEnd, .streamEnd]) =
      parseEvents machine_name in_machines in_target_machine es := by
  fun_induction parseEvents machine_name in_machines in_target_machine es with
  | case1 => rfl
  | case2 in_machines in_target_machine value es hword ih =>
      rw [List.cons_append, parseEvents_scalar, if_pos hword, ih]
  | case3 in_machines in_target_machine value es hword hmachine ih =>
      rw [List.cons_append, parseEvents_scalar, if_neg hword, if_pos hmachine, ih]
  | case4 in_machines in_target_machine value hword hmachine hkey =>
      rw [List.cons_append, parseEvents_scalar, if_neg hword, if_neg hmachine, if_pos hkey]
      rfl
  | case5 in_machines in_target_machine value hword hmachine hkey path es =>
      rw [List.cons_append, parseEvents_scalar, if_neg hword, if_neg hmachine, if_pos hkey]
      rfl
  | case6 in_machines in_target_machine value hword hmachine hkey d es hscalar ih =>
      rw [List.cons_append, parseEvents_scalar, if_neg hword, if_neg hmachine, if_pos hkey, List.cons_append]
      cases d with
      | scalar value => exact absurd rfl (hscalar value)
      | _ => exact ih
  | case7 in_machines in_target_machine value es hword hmachine hkey ih =>
      rw [List.cons_append, parseEvents_scalar, if_neg hword, if_neg hmachine, if_neg hkey, ih]
  | case8 in_machines in_target_machine es ih => exact ih
  | case9 => rfl
  | case10 in_machines in_target_machine d es hscalar hmapping hstream ih =>
      cases d with
      | scalar value => exact absurd rfl (hscalar value)
      | mappingEnd => exact absurd rfl hmapping
      | streamEnd => exact absurd rfl hstream
      | _ => exact ih

/-- The path that is found is the first one in scope. -/
theorem getDspLibPath_firstHit (machine_name : Str) (doc : Document Str) :
    FirstHit (InScope machine_name) doc.root.events (getDspLibPath machine_name doc) := by
  have hstream : getDspLibPath machine_name doc = parseEvents machine_name false false doc.root.events :=
    parseEvents_append_end machine_name false false doc.root.events
  rw [hstream]
  exact parseEvents_firstHit machine_name false false doc.root.events (fun h => h)
    doc.root.streamEnd_not_mem_events

/-- **The path of the document is found if and only if, in the order of the text, it is behind the first
`DSP_LIBRARY_PATH` in scope that a scalar follows; a document without a path has no such place.** -/
theorem lib_path_iff (machine_name : Str) (doc : Document Str) :
    getDspLibPath machine_name doc = libPath machine_name doc ↔
      FirstHit (InScope machine_name) doc.root.events (libPath machine_name doc) := by
  have hfound := getDspLibPath_firstHit machine_name doc
  constructor
  · intro h
    rw [← h]
    exact hfound
  · exact fun h => firstHit_unique hfound h

/-- The path of a machine whose mapping has another mapping in front of it. -/
def nested : Document Str where
  root := .mapping [(.scalar machines, .mapping [(.scalar (ascii "A"), .mapping
    [(.scalar (ascii "options"), .mapping []), (.scalar dspLibKey, .scalar (ascii "/a/"))])])]
  anchored := .aliasOf

/-- A machine that names another one. -/
def named : Document Str where
  root := .mapping [(.scalar machines, .mapping [(.scalar (ascii "B"), .mapping
    [(.scalar (ascii "base"), .scalar (ascii "A")), (.scalar dspLibKey, .scalar (ascii "/b/"))])])]
  anchored := .aliasOf

/-- The path of the machine is missed behind a nested mapping, and a path of another machine is taken when the
name of the machine is a value there. -/
theorem path_missed_and_mistaken :
    libPath (ascii "A") nested = some (ascii "/a/") ∧ getDspLibPath (ascii "A") nested = none ∧
      libPath (ascii "A") named = none ∧ getDspLibPath (ascii "A") named = some (ascii "/b/") := by
  refine ⟨rfl, rfl, rfl, rfl⟩

/-! ### Documents of the schema -/

/-- The mapping of a machine. -/
def machineEntry (entry : Str × Str) : Node Str × Node Str :=
  (.scalar entry.1, .mapping [(.scalar dspLibKey, .scalar entry.2)])

/-- A document that the schema of the configuration files describes: machines, each with its path. -/
def schemaDocument (entries : List (Str × Str)) : Document Str where
  root := .mapping [(.scalar machines, .mapping (entries.map machineEntry))]
  anchored := .aliasOf

/-- A word that is compared with the name of the machine. -/
theorem parseEvents_name (machine_name value : Str) (es : List (Event Str)) :
    parseEvents machine_name true false (.scalar value :: es) =
      parseEvents machine_name true (copied value = machine_name) es :=
  parseEvents_scalar machine_name true false value es

/-- The key and the path behind it. -/
theorem parseEvents_key (machine_name path : Str) (es : List (Event Str)) :
    parseEvents machine_name true true (.mappingStart :: .scalar dspLibKey :: .scalar path :: es) =
      some (copied path) := by
  change parseEvents machine_name true true (.scalar dspLibKey :: .scalar path :: es) = some (copied path)
  have hkey : cstr dspLibKey = dspLibKey := by decide
  rw [parseEvents_scalar, if_neg (by simp), if_neg (by simp), if_pos (by simp [hkey])]

/-- The machine is looked for from one machine to the next. -/
theorem parseEvents_machines {machine_name : Str} (hkey : machine_name ≠ dspLibKey) (entries : List (Str × Str))
    (hentries : ∀ entry ∈ entries, copied entry.1 = entry.1 ∧ copied entry.2 = entry.2 ∧ entry.2 ≠ machine_name)
    (rest : List (Event Str)) :
    parseEvents machine_name true false (Node.eventsEntries (entries.map machineEntry) ++ rest) =
      match entries.find? (·.1 = machine_name) with
      | some entry => some entry.2
      | none => parseEvents machine_name true false rest := by
  induction entries with
  | nil => rfl
  | cons entry entries ih =>
      obtain ⟨hname, hpath, hother⟩ := hentries entry List.mem_cons_self
      have hrest := ih fun entry h => hentries entry (List.mem_cons_of_mem _ h)
      have hevents : Node.eventsEntries ((entry :: entries).map machineEntry) ++ rest =
          .scalar entry.1 :: .mappingStart :: .scalar dspLibKey :: .scalar entry.2 :: .mappingEnd ::
            (Node.eventsEntries (entries.map machineEntry) ++ rest) := by
        simp [machineEntry, Node.eventsEntries, Node.events]
      rw [hevents, parseEvents_name, hname, List.find?_cons]
      by_cases h : entry.1 = machine_name
      · rw [decide_eq_true h, parseEvents_key, hpath]
      · have hnext : parseEvents machine_name true false (.mappingStart :: .scalar dspLibKey :: .scalar entry.2 ::
            .mappingEnd :: (Node.eventsEntries (entries.map machineEntry) ++ rest)) =
              parseEvents machine_name true false (Node.eventsEntries (entries.map machineEntry) ++ rest) := by
          have hcopied : copied dspLibKey = dspLibKey := by decide
          change parseEvents machine_name true false (.scalar dspLibKey :: .scalar entry.2 :: .mappingEnd ::
            (Node.eventsEntries (entries.map machineEntry) ++ rest)) = _
          rw [parseEvents_name, hcopied, decide_eq_false hkey.symm, parseEvents_name, hpath,
            decide_eq_false hother]
          rfl
        rw [decide_eq_false h, hnext, hrest]

theorem child_machines (doc : Document Str) (machine_name : Str) (entries : List (Str × Str)) :
    doc.child (.mapping (entries.map machineEntry)) machine_name =
      (entries.find? (·.1 = machine_name)).map fun entry => .mapping [(.scalar dspLibKey, .scalar entry.2)] := by
  induction entries with
  | nil => rfl
  | cons entry entries ih =>
      have htext : doc.text (.scalar entry.1) = some entry.1 := rfl
      rw [List.map_cons, machineEntry, doc.child_mapping_cons, ih, htext, List.find?_cons]
      by_cases h : entry.1 = machine_name
      · rw [if_pos (congrArg some h), decide_eq_true h]
        rfl
      · rw [if_neg (fun hsome => h (Option.some.inj hsome)), decide_eq_false h]

/-- The path of a machine in a document of the schema. -/
theorem libPath_schema (machine_name : Str) (entries : List (Str × Str)) :
    libPath machine_name (schemaDocument entries) = (entries.find? (·.1 = machine_name)).map Prod.snd := by
  have hmachines : (schemaDocument entries).child (schemaDocument entries).root machines =
      some (.mapping (entries.map machineEntry)) :=
    (schemaDocument entries).child_mapping_cons machines (.scalar machines) _ []
  rw [libPath, hmachines, Option.bind_some, child_machines]
  cases entries.find? (·.1 = machine_name) with
  | none => rfl
  | some entry => rfl

/-- **In a document of the schema the path of the machine is found.** -/
theorem getDspLibPath_schema {machine_name : Str} (hkey : machine_name ≠ dspLibKey) (entries : List (Str × Str))
    (hentries : ∀ entry ∈ entries, copied entry.1 = entry.1 ∧ copied entry.2 = entry.2 ∧
      entry.2 ≠ machine_name) :
    getDspLibPath machine_name (schemaDocument entries) = libPath machine_name (schemaDocument entries) := by
  have hevents : getDspLibPath machine_name (schemaDocument entries) =
      parseEvents machine_name true false (Node.eventsEntries (entries.map machineEntry) ++
        [.mappingEnd, .mappingEnd, .documentEnd, .streamEnd]) := by
    have hmachines : cstr machines = machines := by decide
    have hstream : (schemaDocument entries).stream = .streamStart :: .documentStart :: .mappingStart ::
        .scalar machines :: .mappingStart :: (Node.eventsEntries (entries.map machineEntry) ++
          [.mappingEnd, .mappingEnd, .documentEnd, .streamEnd]) := by
      simp [schemaDocument, Document.stream, Node.events, Node.eventsEntries]
    rw [getDspLibPath, hstream]
    change parseEvents machine_name false false (.scalar machines :: .mappingStart :: _) = _
    rw [parseEvents_scalar, if_pos (by simp [hmachines])]
    rfl
  rw [hevents, parseEvents_machines hkey entries hentries, libPath_schema]
  cases entries.find? (·.1 = machine_name) with
  | none => rfl
  | some entry => rfl

end FastRpc.ConfigParser
