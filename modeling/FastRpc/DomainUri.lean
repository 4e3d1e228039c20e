import FastRpc.CInt
import FastRpc.CString
import FastRpc.SessionRefs
import Mathlib.Data.List.Find

/-! # Domains in URIs

A module URI names its domain and session behind two markers, as in `file:///f?s&_dom=cdsp&_session=1`.
`FASTRPC_GET_URI` puts them there, and `get_domain_from_name` finds them again: it looks for the names of
the domains one after the other, anywhere in the URI, and reads the session with `strtol` from behind the
first session marker.  Every marker begins with its only `&`, so that none is found across the place where
another one begins (`CString.splitFirst_skip`).

The session number is stored in an `int`, and is only compared with `NUM_SESSIONS`. -/

namespace FastRpc.DomainUri

open CString SessionControl EarlyExit

/-! ### The source -/

/-- `FASTRPC_DOMAIN_URI`. -/
def domainMarker : List Char := "&_dom=".toList

/-- `FASTRPC_SESSION_URI`. -/
def sessionMarker : List Char := "&_session=".toList

/-- The names of the domains with their ids, in the order in which `get_domain_from_name` looks for them. -/
def domainNames : List (List Char × ℤ) :=
  [("adsp".toList, 0), ("mdsp".toList, 1), ("sdsp".toList, 2), ("cdsp1".toList, 4), ("cdsp".toList, 3),
    ("gdsp0".toList, 5), ("gdsp1".toList, 6)]

/-- `ADSP_DOMAIN`, `MDSP_DOMAIN` and so on. -/
def domainSuffix (name : List Char) : List Char := domainMarker ++ name

/-- `strstr(uri, str) != NULL`. -/
def contains (uri str : List Char) : Bool := (splitFirst str uri).isSome

/-- The first domain of the list whose suffix is in the URI. -/
def findDomain (uri : List Char) : Option (List Char × ℤ) :=
  domainNames.find? (fun d => contains uri (domainSuffix d.1))

/-- `INVALID_DOMAIN_ID`. -/
def invalidDomainId : ℤ := -1

/-- `GET_EFFECTIVE_DOMAIN_ID`, on `int`. -/
def getEffectiveDomainId (domain session : ℤ) : ℤ := CInt.wrap (domain + 8 * session)

/-- `get_domain_from_name(uri, DOMAIN_NAME_IN_URI)`. -/
def getDomainFromUri (uri : List Char) : ℤ :=
  match findDomain uri with
  | none => invalidDomainId
  | some (_, domain) =>
      match splitFirst sessionMarker uri with
      | none => domain
      | some (_, session_uri) =>
          let session_id := CInt.wrap (strtol session_uri)
          if session_id < 4 then getEffectiveDomainId domain session_id else invalidDomainId

/-! ### Behind a module URI -/

/-- The string has neither the suffix of a domain nor that of a session. -/
structure Plain (uri : List Char) : Prop where
  domain : ∀ d ∈ domainNames, ¬ domainSuffix d.1 <:+: uri
  session : ¬ sessionMarker <:+: uri

theorem domainSuffix_cons (name : List Char) : domainSuffix name = '&' :: ("_dom=".toList ++ name) := rfl

theorem contains_iff {uri str : List Char} (hstr : str ≠ []) : contains uri str = true ↔ str <:+: uri :=
  splitFirst_isSome_iff hstr uri

theorem contains_suffix {uri name : List Char} :
    contains uri (domainSuffix name) = true ↔ domainSuffix name <:+: uri :=
  contains_iff (by simp [domainSuffix_cons])

/-- The suffix of a domain begins with its only `&`. -/
theorem amp_not_mem {d : List Char × ℤ} (hd : d ∈ domainNames) : '&' ∉ "_dom=".toList ++ d.1 := by
  revert d
  decide

section Append

variable {uri rest : List Char} (hplain : Plain uri) (hrest : rest.head? = some '&')
include hplain hrest

theorem findDomain_append : findDomain (uri ++ rest) = findDomain rest := by
  refine List.find?_congr fun d hd => ?_
  unfold contains
  rw [domainSuffix_cons, splitFirst_skip (amp_not_mem hd) (hplain.domain d hd) hrest, Option.isSome_map]

/-- What a plain URI has behind it decides the domain. -/
theorem getDomainFromUri_append : getDomainFromUri (uri ++ rest) = getDomainFromUri rest := by
  have hsession : splitFirst sessionMarker (uri ++ rest) =
      (splitFirst sessionMarker rest).map (fun r => (uri ++ r.1, r.2)) :=
    splitFirst_skip (by decide) hplain.session hrest
  unfold getDomainFromUri
  rw [findDomain_append hplain hrest, hsession]
  cases findDomain rest with
  | none => rfl
  | some d => cases splitFirst sessionMarker rest <;> rfl

end Append

/-! ### `FASTRPC_GET_URI` -/

/-- What `FASTRPC_GET_URI` appends to the module URI. -/
def uriSuffix (domain : ℤ) (session_id : ℕ) : List Char :=
  domainMarker ++ (subsystemName domain).toList ++ sessionMarker ++ Nat.toDigits 10 session_id

theorem sessionUri_append (module_uri : List Char) (domain : ℤ) (session_id : ℕ) :
    sessionUri module_uri domain session_id = module_uri ++ uriSuffix domain session_id := by
  simp only [sessionUri, uriSuffix, List.append_assoc]
  rfl

/-- The suffix of each domain and session is read back. -/
theorem getDomainFromUri_suffix :
    ∀ d ∈ domainNames, ∀ s < 4, getDomainFromUri (uriSuffix d.2 s) = d.2 + 8 * s := by
  decide +kernel

/-- A name of the list is the name of its domain. -/
theorem getDomainFromName_known : ∀ d ∈ domainNames, getDomainFromName d.1 = d.2 := by decide

section Success

variable {α : Type} {s : ControlState}

/-- A call that succeeds has passed the check. -/
theorem verifyc_success {cond : Prop} [Decidable cond] {code : ℤ} {k : PUnit → ControlM α}
    (hcode : code ≠ aeeSuccess) (h : ((verifyc cond code >>= k).leaves s).nErr = aeeSuccess) :
    cond ∧ (verifyc cond code >>= k).leaves s = (k ⟨⟩).leaves s := by
  rw [leaves_verifyc_bind] at h ⊢
  split_ifs at h ⊢ with hcond
  · exact ⟨hcond, rfl⟩
  · exact absurd h hcode

theorem leaves_verifyData_some {β : Type} (b : β) (k : β → ControlM α) :
    (verifyData (some b) >>= k).leaves s = (k b).leaves s := rfl

theorem verifyData_success {β : Type} {data : Option β} {k : β → ControlM α}
    (h : ((verifyData data >>= k).leaves s).nErr = aeeSuccess) :
    ∃ b, data = some b ∧ (verifyData data >>= k).leaves s = (k b).leaves s := by
  rw [leaves_verifyData_bind] at h ⊢
  cases data with
  | none => exact absurd h (by decide : aeeEBadParm ≠ aeeSuccess)
  | some b => exact ⟨b, rfl, rfl⟩

/-- The URI of a request that succeeds. -/
theorem getUri_success {datalen : ℕ} {rpc_uri : RpcGetUri}
    (h : ((getUri datalen (some rpc_uri)).leaves s).nErr = aeeSuccess) :
    ∃ name module_uri, rpc_uri.domain_name = some name ∧ rpc_uri.module_uri = some module_uri ∧
      rpc_uri.session_id < 4 ∧
      ((getUri datalen (some rpc_uri)).leaves s).reply =
        some (.uri (sessionUri module_uri (getDomainFromName name) rpc_uri.session_id)) := by
  have hparm : aeeEBadParm ≠ aeeSuccess := by decide
  unfold getUri at h ⊢
  obtain ⟨-, hleaves⟩ := verifyc_success hparm h
  rw [hleaves] at h ⊢
  rw [leaves_verifyData_some] at h ⊢
  obtain ⟨name, hname, hleaves⟩ := verifyData_success h
  rw [hleaves] at h ⊢
  obtain ⟨hsession, hleaves⟩ := verifyc_success hparm h
  rw [hleaves, leaves_setDomain_bind] at h
  rw [hleaves, leaves_setDomain_bind]
  obtain ⟨-, hleaves⟩ := verifyc_success hparm h
  rw [hleaves] at h ⊢
  obtain ⟨module_uri, hmodule, hleaves⟩ := verifyData_success h
  rw [hleaves] at h ⊢
  obtain ⟨-, hleaves⟩ := verifyc_success hparm h
  rw [hleaves] at h ⊢
  obtain ⟨-, hleaves⟩ := verifyc_success hparm h
  rw [hleaves] at h ⊢
  refine ⟨name, module_uri, hname, hmodule, hsession.2, ?_⟩
  -- the text is written as far as the buffer goes
  dsimp only at h ⊢
  by_cases hsize : rpc_uri.uri_len ≤ (sessionUri module_uri (getDomainFromName name) rpc_uri.session_id).length
  · rw [if_pos hsize] at h
    exact absurd h (by decide : aeeEBadSize ≠ aeeSuccess)
  · rw [if_neg hsize]
    change some (ControlReply.uri (List.take _ _)) = _
    rw [List.take_of_length_le (by omega)]

end Success

section RoundTrip

variable {env : ControlEnv} {datalen : ℕ} {t : ControlTable}

/-- A call that succeeds leaves what its request replies. -/
theorem remoteSessionControl_success {req : ControlRequest}
    (h : (remoteSessionControl env datalen req t).nErr = aeeSuccess) :
    ∃ s : ControlState, ((switch env datalen req).leaves s).nErr = aeeSuccess ∧
      (remoteSessionControl env datalen req t).reply = ((switch env datalen req).leaves s).reply := by
  have hput : ∀ u : ControlState, (putRef u).nErr = u.nErr ∧ (putRef u).reply = u.reply := by
    intro u
    unfold putRef
    split <;> exact ⟨rfl, rfl⟩
  unfold remoteSessionControl at h ⊢
  rw [(hput _).1] at h
  rw [(hput _).2]
  unfold atBail body at h ⊢
  rw [leaves_verify_bind] at h ⊢
  split_ifs at h ⊢ with hinit
  · exact absurd h hinit
  · rw [leaves_getRef_bind] at h ⊢
    split_ifs at h ⊢ with hstate
    · exact ⟨_, h, rfl⟩
    · exact absurd h (by decide : aeeENotInitialized ≠ aeeSuccess)

/-- **The round trip**: behind a plain module URI, the domain and the session of `FASTRPC_GET_URI` are those
that `get_domain_from_name` finds. -/
theorem get_uri_round_trip {rpc_uri : RpcGetUri} {module_uri name : List Char} {domain : ℤ}
    (hmodule : rpc_uri.module_uri = some module_uri) (hplain : Plain module_uri)
    (hname : rpc_uri.domain_name = some name) (hdomain : (name, domain) ∈ domainNames)
    (h : (remoteSessionControl env datalen (.getUri (some rpc_uri)) t).nErr = aeeSuccess) :
    ∃ uri, (remoteSessionControl env datalen (.getUri (some rpc_uri)) t).reply = some (.uri uri) ∧
      getDomainFromUri uri = domain + 8 * rpc_uri.session_id := by
  obtain ⟨s, hsuccess, hreply⟩ := remoteSessionControl_success h
  obtain ⟨name', module_uri', hname', hmodule', hsession, hleaves⟩ := getUri_success hsuccess
  obtain rfl := Option.some.inj (hname.symm.trans hname')
  obtain rfl := Option.some.inj (hmodule.symm.trans hmodule')
  refine ⟨_, hreply.trans hleaves, ?_⟩
  rw [sessionUri_append, getDomainFromUri_append hplain rfl, getDomainFromName_known _ hdomain]
  exact getDomainFromUri_suffix _ hdomain _ hsession

end RoundTrip

/-- A request for session 3 of `cdsp1`. -/
def cdsp1Request : RpcGetUri := ⟨some "cdsp1".toList, 5, 3, some "f?s".toList, 3, true, 40⟩

theorem plain_module : Plain "f?s".toList := by
  refine ⟨fun d hd => ?_, by decide⟩
  rw [← contains_suffix]
  revert d
  decide

theorem get_uri_round_trip_cdsp1 :
    ∃ uri, (remoteSessionControl quietControl 48 (.getUri (some cdsp1Request)) .start).reply = some (.uri uri) ∧
      getDomainFromUri uri = 4 + 8 * (3 : ℕ) :=
  get_uri_round_trip rfl plain_module rfl (by decide : ("cdsp1".toList, 4) ∈ domainNames) (by decide)

/-! ### What a URI names -/

/-- The URI has the suffix of the domain, and the name ends there. -/
def Names (uri : List Char) (domain : ℤ) : Prop :=
  ∃ name before after, (name, domain) ∈ domainNames ∧ uri = before ++ domainSuffix name ++ after ∧
    ∀ c, after.head? = some c → c = '&'

/-- The number behind the session marker, up to the next `&`, and 0 when there is no marker. -/
def sessionNumber (uri : List Char) : Option ℤ :=
  match splitFirst sessionMarker uri with
  | none => some 0
  | some (_, text) => number (text.takeWhile (fun c => c != '&'))

/-- The URI names a session of its own. -/
def NamesSession (uri : List Char) (session : ℤ) : Prop :=
  sessionNumber uri = some session ∧ 0 ≤ session ∧ session < 4

/-- The id is the invalid one, or a valid effective id with the domain and the session that the URI names. -/
def Checked (uri : List Char) (id : ℤ) : Prop :=
  id = invalidDomainId ∨
    (effectiveDomain id).isSome ∧
      ∃ domain session, Names uri domain ∧ NamesSession uri session ∧ id = domain + 8 * session

/-- The first domain of the list whose suffix is in the URI, whatever follows the suffix there. -/
def FirstFound (uri : List Char) (domain : ℤ) : Prop :=
  ∃ earlier name later, domainNames = earlier ++ (name, domain) :: later ∧ domainSuffix name <:+: uri ∧
    ∀ d ∈ earlier, ¬ domainSuffix d.1 <:+: uri

/-- The number that `strtol` reads behind the session marker is at least 4 in its low 32 bits. -/
def TooLarge (uri : List Char) : Prop :=
  ∃ before text, splitFirst sessionMarker uri = some (before, text) ∧ 4 ≤ CInt.wrap (strtol text)

theorem findDomain_eq_none {uri : List Char} :
    findDomain uri = none ↔ ∀ d ∈ domainNames, ¬ domainSuffix d.1 <:+: uri := by
  unfold findDomain
  rw [List.find?_eq_none]
  exact forall₂_congr fun d _ => not_congr contains_suffix

theorem firstFound_iff {uri : List Char} {domain : ℤ} :
    FirstFound uri domain ↔ ∃ name, findDomain uri = some (name, domain) := by
  unfold findDomain
  constructor
  · rintro ⟨earlier, name, later, hlist, hfound, hearlier⟩
    refine ⟨name, List.find?_eq_some_iff_append.mpr ⟨contains_suffix.mpr hfound, earlier, later, hlist, ?_⟩⟩
    intro d hd
    simpa using mt contains_suffix.mp (hearlier d hd)
  · rintro ⟨name, h⟩
    obtain ⟨hfound, earlier, later, hlist, hearlier⟩ := List.find?_eq_some_iff_append.mp h
    refine ⟨earlier, name, later, hlist, contains_suffix.mp hfound, fun d hd => mt contains_suffix.mpr ?_⟩
    simpa using hearlier d hd

theorem findDomain_range {uri name : List Char} {domain : ℤ} (h : findDomain uri = some (name, domain)) :
    0 ≤ domain ∧ domain < 7 := by
  have hrange : ∀ d ∈ domainNames, 0 ≤ d.2 ∧ d.2 < 7 := by decide
  exact hrange _ (List.mem_of_find?_eq_some h)

theorem getEffectiveDomainId_of_range {domain session : ℤ} (hdomain : 0 ≤ domain ∧ domain < 7)
    (hsession : 0 ≤ session ∧ session < 4) :
    getEffectiveDomainId domain session = domain + 8 * session := by
  refine CInt.wrap_of_inRange ⟨?_, ?_⟩
  · omega
  · rw [CInt.intMax_eq]
    omega

/-- No session makes a domain the invalid one. -/
theorem getEffectiveDomainId_ne_invalid {domain : ℤ} (hdomain : 0 ≤ domain ∧ domain < 7) (session : ℤ) :
    getEffectiveDomainId domain session ≠ invalidDomainId := by
  intro heq
  have hmod : getEffectiveDomainId domain session % 2 ^ 32 = (domain + 8 * session) % 2 ^ 32 :=
    Int.bmod_emod
  rw [heq, invalidDomainId] at hmod
  omega

/-- A session that the URI names is the one that is read. -/
theorem wrap_strtol {uri before text : List Char} {session : ℤ}
    (htext : splitFirst sessionMarker uri = some (before, text)) (h : NamesSession uri session) :
    CInt.wrap (strtol text) = session := by
  obtain ⟨hnumber, hlow, hhigh⟩ := h
  unfold sessionNumber at hnumber
  rw [htext] at hnumber
  have hsplit := List.takeWhile_append_dropWhile (p := fun c => c != '&') (l := text)
  have hbehind : ∀ c, (text.dropWhile (fun c => c != '&')).head? = some c → c.isDigit = false := by
    intro c hc
    have hnot := List.head?_dropWhile_not (fun c => c != '&') text
    rw [hc] at hnot
    obtain rfl : c = '&' := by simpa using hnot
    decide
  have hstrtol := strtol_number hnumber hbehind
  rw [hsplit] at hstrtol
  have hclamp : clampLong session = session := by
    rw [clampLong, if_neg (by omega), if_neg (by omega)]
  rw [hstrtol, hclamp]
  exact CInt.wrap_of_inRange ⟨by omega, by rw [CInt.intMax_eq]; omega⟩

theorem effectiveDomain_isSome {id : ℤ} : (effectiveDomain id).isSome = true ↔ 0 ≤ id ∧ id < 32 := by
  unfold effectiveDomain
  split_ifs with h
  · exact iff_of_true rfl h
  · exact iff_of_false nofun h

/-- Where `get_domain_from_name` reads a session that the URI names, it is right with the domain of the URI. -/
theorem checked_effective_iff {uri : List Char} {domain session_id : ℤ} (hdomain : 0 ≤ domain ∧ domain < 7)
    (hread : ∀ session, NamesSession uri session → session_id = session) :
    Checked uri (getEffectiveDomainId domain session_id) ↔
      Names uri domain ∧ ∃ session, NamesSession uri session := by
  constructor
  · rintro (hinvalid | ⟨-, domain', session, hnames, hsession, heq⟩)
    · exact absurd hinvalid (getEffectiveDomainId_ne_invalid hdomain session_id)
    · rw [hread session hsession, getEffectiveDomainId_of_range hdomain hsession.2] at heq
      obtain rfl : domain = domain' := by omega
      exact ⟨hnames, session, hsession⟩
  · rintro ⟨hnames, session, hsession⟩
    have hlow := hsession.2.1
    have hhigh := hsession.2.2
    rw [hread session hsession, getEffectiveDomainId_of_range hdomain ⟨hlow, hhigh⟩]
    exact .inr ⟨effectiveDomain_isSome.mpr (by omega), domain, session, hnames, hsession, rfl⟩

/-- **The domain of a URI is checked exactly** when it has no domain suffix, or a session number that is too
large once it is cut to an `int`, or when the suffix that is found first is the whole name of a domain of the
URI, and the URI names a session. -/
theorem domain_checked_iff (uri : List Char) :
    Checked uri (getDomainFromUri uri) ↔
      (∀ d ∈ domainNames, ¬ domainSuffix d.1 <:+: uri) ∨ TooLarge uri ∨
        ∃ domain session, FirstFound uri domain ∧ Names uri domain ∧ NamesSession uri session := by
  unfold getDomainFromUri
  cases hfind : findDomain uri with
  | none => exact iff_of_true (.inl rfl) (.inl (findDomain_eq_none.mp hfind))
  | some d =>
      obtain ⟨name, domain⟩ := d
      have hrange := findDomain_range hfind
      have hnone : ¬ ∀ d ∈ domainNames, ¬ domainSuffix d.1 <:+: uri := by
        rw [← findDomain_eq_none, hfind]
        exact nofun
      have hnamed : (∃ domain session, FirstFound uri domain ∧ Names uri domain ∧ NamesSession uri session) ↔
          Names uri domain ∧ ∃ session, NamesSession uri session := by
        simp only [firstFound_iff, hfind, Option.some_inj, Prod.mk.injEq]
        constructor
        · rintro ⟨_, session, ⟨_, _, rfl⟩, hnames, hsession⟩
          exact ⟨hnames, session, hsession⟩
        · rintro ⟨hnames, session, hsession⟩
          exact ⟨domain, session, ⟨name, rfl, rfl⟩, hnames, hsession⟩
      rw [or_iff_right hnone, hnamed]
      cases htext : splitFirst sessionMarker uri with
      | none =>
          have hlarge : ¬ TooLarge uri := by
            rintro ⟨before, text, hmarker, -⟩
            rw [htext] at hmarker
            cases hmarker
          have hread : ∀ session, NamesSession uri session → 0 = session := by
            intro session hsession
            have hnumber := hsession.1
            unfold sessionNumber at hnumber
            rw [htext] at hnumber
            exact Option.some.inj hnumber
          have hzero : getEffectiveDomainId domain 0 = domain := by
            rw [getEffectiveDomainId_of_range hrange (by omega)]
            omega
          rw [or_iff_right hlarge, ← checked_effective_iff hrange hread, hzero]
      | some r =>
          obtain ⟨before, text⟩ := r
          by_cases hlarge : CInt.wrap (strtol text) < 4
          · have hfits : ¬ TooLarge uri := by
              rintro ⟨_, _, hmarker, hfour⟩
              obtain ⟨rfl, rfl⟩ := Prod.mk.inj (Option.some.inj (htext.symm.trans hmarker))
              omega
            rw [or_iff_right hfits, ← checked_effective_iff hrange (fun _ => wrap_strtol htext)]
            dsimp only
            rw [if_pos hlarge]
          · dsimp only
            rw [if_neg hlarge]
            exact iff_of_true (.inl rfl) (.inl ⟨before, text, htext, by omega⟩)

/-- `f?s&_dom=cdsp&_session=-1`. -/
theorem negative_session_accepted :
    getDomainFromUri "f?s&_dom=cdsp&_session=-1".toList = -5 ∧
      ¬ Checked "f?s&_dom=cdsp&_session=-1".toList (getDomainFromUri "f?s&_dom=cdsp&_session=-1".toList) := by
  have heq : getDomainFromUri "f?s&_dom=cdsp&_session=-1".toList = -5 := by decide +kernel
  refine ⟨heq, ?_⟩
  rw [heq]
  rintro (h | ⟨h, -⟩)
  · exact absurd h (by decide)
  · exact absurd h (by decide)

end FastRpc.DomainUri
