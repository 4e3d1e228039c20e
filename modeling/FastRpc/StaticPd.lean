import FastRpc.DomainUri
import FastRpc.FdList

/-! # Names of static PDs

A static PD is attached by opening a name such as `'":;./\createstaticpd:audiopd&_dom=adsp&_session=0`.
`remote_handle_open_domain` copies the name, steps over the prefix and its colon, and cuts the suffixes off
behind the name of the PD.  It does not look for their beginning: it takes the lengths of the suffix of the
domain and of a session with one digit from the length of the whole (`cutLength`).

The prefix is compared without its colon, and the length of the name is an `int`.  The copy is a memory of
its own, and an access outside of it ends the call. -/

namespace FastRpc.StaticPd

open CString DomainUri FdList SessionControl

/-! ### The source -/

/-- `ITRANSPORT_PREFIX`. -/
def itransportPrefix : List Char := "'\":;./\\".toList

/-- `ITRANSPORT_PREFIX "createstaticpd"`. -/
def createstaticpd : List Char := itransportPrefix ++ "createstaticpd".toList

/-- `get_domain_from_id`. -/
def getDomainFromId : ℤ → List Char
  | 0 => "&_dom=adsp".toList
  | 3 => "&_dom=cdsp".toList
  | 4 => "&_dom=cdsp1".toList
  | 1 => "&_dom=mdsp".toList
  | 2 => "&_dom=sdsp".toList
  | 5 => "&_dom=gdsp0".toList
  | 6 => "&_dom=gdsp1".toList
  | _ => "invalid domain".toList

/-- `FASTRPC_SESSION1_URI`. -/
def session1Marker : List Char := "&_session=1".toList

/-- `GET_DOMAIN_FROM_EFFEC_DOMAIN_ID`. -/
def getDomainFromEffecDomainId (domain : ℤ) : ℤ := domain % 8

/-- The static PDs: the beginning of the name, the handle, and the type of the PD. -/
def staticPds : List (List Char × ℕ × ℕ) :=
  [("audiopd".toList, 257, 2), ("securepd".toList, 261, 4), ("sensorspd".toList, 258, 3),
    ("rootpd".toList, 260, 8), ("oispd".toList, 256, 5)]

/-- How a call of `remote_handle_open_domain` ends: with an access outside of the copy, with an error, with a
static PD (its `dsppdname`, and its handle and type where they are known), or as another kind of name. -/
inductive Opened
  | outside
  | failed (nErr : ℤ)
  | staticPd (dsppdname : List Char) (pd : Option (ℕ × ℕ))
  | other
  deriving DecidableEq, Repr

/-- `pdName[i] = '\0'`, and the string at `pdName` then; the address may wrap. -/
def truncate (pdname_uri : List (Option Char)) (i : ℤ) : Option (List Char) :=
  (terminate pdname_uri (sizeT (22 + i))).bind (fun m => strAt m 22)

/-- `pdName` behind the truncation. -/
def staticPdName (domain : ℤ) (pdname_uri : List (Option Char)) : Option (List Char) := do
  let pdName ← strAt pdname_uri 22
  let base := getDomainFromId (getDomainFromEffecDomainId domain)
  if contains pdName base && contains pdName sessionMarker then
    truncate pdname_uri (pdName.length - base.length - session1Marker.length)
  else if contains pdName (getDomainFromId domain) then
    truncate pdname_uri (pdName.length - (getDomainFromId domain).length)
  else some pdName

/-- `name_len + 1`, as `malloc` and `strlcpy` get it. -/
def copySize (name : List Char) : ℕ := sizeT (CInt.wrap (CInt.wrap name.length + 1))

/-- The branch for names that begin with `createstaticpd`. -/
def createStaticPd (malloc : ℕ → Bool) (domain : ℤ) (name : List Char) : Opened :=
  if malloc (copySize name) then
    let pdname_uri := (strlcpy (copySize name) name).elim [] cells
    match staticPdName domain pdname_uri with
    | none => .outside
    | some pdName =>
        if 30 > pdName.length then
          .staticPd pdName ((staticPds.find? (fun pd => pd.1.isPrefixOf pdName)).map Prod.snd)
        else .failed aeeEBadParm
  else .failed aeeENoMemory

/-- `remote_handle_open_domain`, for the names that it does not pass to the domain. -/
def remoteHandleOpenDomain (malloc : ℕ → Bool) (domain : ℤ) (name : List Char) : Opened :=
  if (itransportPrefix ++ "geteventfd".toList).isPrefixOf name then .other
  else if (itransportPrefix ++ "attachguestos".toList).isPrefixOf name then .other
  else if createstaticpd.isPrefixOf name then createStaticPd malloc domain name
  else .other

/-! ### The cut -/

/-- The number of characters that are cut off. -/
def cutLength (domain : ℤ) (pdName : List Char) : ℕ :=
  let base := getDomainFromId (getDomainFromEffecDomainId domain)
  if base <:+: pdName ∧ sessionMarker <:+: pdName then base.length + session1Marker.length
  else if getDomainFromId domain <:+: pdName then (getDomainFromId domain).length
  else 0

/-- The name of the PD with the suffixes cut off. -/
def cutName (domain : ℤ) (pdName : List Char) : List Char :=
  if cutLength domain pdName ≤ pdName.length then pdName.take (pdName.length - cutLength domain pdName)
  else pdName

theorem getDomainFromId_length (domain : ℤ) :
    10 ≤ (getDomainFromId domain).length ∧ (getDomainFromId domain).length ≤ 14 := by
  unfold getDomainFromId
  split <;> decide

theorem contains_domain {pdName : List Char} {domain : ℤ} :
    contains pdName (getDomainFromId domain) = true ↔ getDomainFromId domain <:+: pdName := by
  refine contains_iff fun hnil => ?_
  have hlength := (getDomainFromId_length domain).1
  rw [hnil] at hlength
  exact absurd hlength (by decide)

section Cut

variable {c : List Char}

theorem truncate_inside {i : ℕ} (hlong : 22 ≤ c.length) (hfits : c.length < 2 ^ 64)
    (hi : i ≤ (c.drop 22).length) : truncate (cells c) i = some ((c.drop 22).take i) := by
  rw [List.length_drop] at hi
  have hplace : sizeT (22 + (i : ℤ)) = 22 + i := by
    unfold sizeT
    omega
  rw [truncate, hplace, strAt_terminate (by omega) (by omega), List.drop_take, Nat.add_sub_cancel_left]

/-- An index below 0 is in front of the name of the PD. -/
theorem truncate_before {i : ℤ} (hlong : 22 ≤ c.length) (hi : i < 0) (hlow : -22 ≤ i) :
    truncate (cells c) i = some (c.drop 22) := by
  have hplace : sizeT (22 + i) < 22 := by
    unfold sizeT
    omega
  rw [truncate, strAt_terminate_before hplace hlong]

theorem staticPdName_cells (hlong : 22 ≤ c.length) (hfits : c.length < 2 ^ 64) (domain : ℤ) :
    staticPdName domain (cells c) = some (cutName domain (c.drop 22)) := by
  have hsession : contains (c.drop 22) sessionMarker = true ↔ sessionMarker <:+: c.drop 22 :=
    contains_iff (by decide)
  rw [staticPdName, strAt_cells hlong]
  dsimp only [Option.bind_eq_bind, Option.bind_some]
  simp only [Bool.and_eq_true, contains_domain, hsession]
  unfold cutName cutLength
  dsimp only
  generalize getDomainFromEffecDomainId domain = base
  have hbase := getDomainFromId_length base
  have hone : session1Marker.length = 11 := by decide
  by_cases hboth : getDomainFromId base <:+: c.drop 22 ∧ sessionMarker <:+: c.drop 22
  · have hle := hboth.1.length_le
    rw [if_pos hboth, if_pos hboth]
    split_ifs with hcut
    · have hplace : ((c.drop 22).length : ℤ) - (getDomainFromId base).length - session1Marker.length =
          ((c.drop 22).length - ((getDomainFromId base).length + session1Marker.length) : ℕ) := by
        omega
      rw [hplace]
      exact truncate_inside hlong hfits (Nat.sub_le _ _)
    · exact truncate_before hlong (by omega) (by omega)
  · rw [if_neg hboth, if_neg hboth]
    by_cases hdomain : getDomainFromId domain <:+: c.drop 22
    · have hle := hdomain.length_le
      have hplace : ((c.drop 22).length : ℤ) - (getDomainFromId domain).length =
          ((c.drop 22).length - (getDomainFromId domain).length : ℕ) := by
        omega
      rw [if_pos hdomain, if_pos hdomain, if_pos hle, hplace]
      exact truncate_inside hlong hfits (Nat.sub_le _ _)
    · rw [if_neg hdomain, if_neg hdomain, if_pos (Nat.zero_le _), Nat.sub_zero, List.take_length]

end Cut

/-! ### The name of the PD -/

/-- The text between the prefix with its colon and the first `&`. -/
def PdNameOf (name text : List Char) : Prop :=
  ∃ rest, name = createstaticpd ++ ':' :: (text ++ rest) ∧ '&' ∉ text ∧ ∀ c, rest.head? = some c → c = '&'

/-- A static PD is stored under the text of the name, and every access is inside of the copy. -/
def ParsedRight (name : List Char) : Opened → Prop
  | .outside => False
  | .failed _ => True
  | .staticPd dsppdname _ => PdNameOf name dsppdname
  | .other => False

/-- What is copied of the name: all of it, unless its length is cut in an `int`. -/
def copied (name : List Char) : List Char := name.take (copySize name - 1)

/-- What is copied of the name behind the prefix and one more character. -/
def pdText (name : List Char) : List Char := (copied name).drop 22

/-- A name of less than `INT_MAX` characters is copied whole. -/
theorem copied_whole {name : List Char} (h : name.length + 1 < 2 ^ 31) : copied name = name := by
  have hlen : CInt.wrap (name.length : ℤ) = name.length :=
    CInt.wrap_of_inRange (CInt.inRange_of_nonneg (by omega) (by rw [CInt.intMax_eq]; omega))
  have hnext : CInt.wrap ((name.length : ℤ) + 1) = name.length + 1 :=
    CInt.wrap_of_inRange (CInt.inRange_of_nonneg (by omega) (by rw [CInt.intMax_eq]; omega))
  have hsize : copySize name = name.length + 1 := by
    unfold copySize sizeT
    rw [hlen, hnext]
    omega
  rw [copied, hsize, Nat.add_sub_cancel, List.take_length]

theorem pdNameOf_starts {name text : List Char} (h : PdNameOf name text) : text <+: name.drop 22 := by
  obtain ⟨rest, rfl, -, -⟩ := h
  exact List.prefix_append text rest

section Cases

variable {name p : List Char} {domain : ℤ}

/-- Only where there are two suffixes can more be cut off than there is. -/
theorem sessionMarker_of_cutLength (h : p.length < cutLength domain p) :
    sessionMarker <:+: p ∧ p.length < 25 := by
  unfold cutLength at h
  dsimp only at h
  split_ifs at h with hboth hdomain
  · have hbase := getDomainFromId_length (getDomainFromEffecDomainId domain)
    have hone : session1Marker.length = 11 := by decide
    exact ⟨hboth.2, by omega⟩
  · exact absurd hdomain.length_le (by omega)
  · exact absurd h (by omega)

theorem cutName_length : (cutName domain p).length < 30 ↔ p.length < 30 + cutLength domain p := by
  unfold cutName
  split_ifs with hcut
  · rw [List.length_take]
    omega
  · have hshort := (sessionMarker_of_cutLength (Nat.lt_of_not_le hcut)).2
    exact iff_of_true (by omega) (by omega)

/-- The cut leaves the text of the name exactly when it takes off what is behind that text. -/
theorem pdNameOf_cutName (hp : p <+: name.drop 22) :
    PdNameOf name (cutName domain p) ↔
      ∃ text, PdNameOf name text ∧ text.length + cutLength domain p = p.length := by
  unfold cutName
  split_ifs with hcut
  · constructor
    · intro h
      refine ⟨_, h, ?_⟩
      rw [List.length_take]
      omega
    · rintro ⟨text, htext, hlength⟩
      have hprefix : text <+: p :=
        List.prefix_of_prefix_length_le (pdNameOf_starts htext) hp (by omega)
      have htake : p.take (p.length - cutLength domain p) = text := by
        rw [List.prefix_iff_eq_take.mp hprefix]
        congr 1
        omega
      rwa [htake]
  · have hsession := (sessionMarker_of_cutLength (Nat.lt_of_not_le hcut)).1
    constructor
    · rintro ⟨rest, -, hamp, -⟩
      exact absurd (hsession.subset (by decide : '&' ∈ sessionMarker)) hamp
    · rintro ⟨text, -, hlength⟩
      omega

theorem staticPdName_copy :
    staticPdName domain ((strlcpy (copySize name) name).elim [] cells) =
      if 22 ≤ (copied name).length then some (cutName domain (pdText name)) else none := by
  have hlt : copySize name < 2 ^ 64 := by
    unfold copySize sizeT
    omega
  unfold strlcpy pdText copied
  by_cases hzero : copySize name = 0
  · rw [if_pos hzero, hzero, List.take_zero, if_neg (by decide)]
    rfl
  · rw [if_neg hzero, Option.elim_some]
    have htake : (name.take (copySize name - 1)).length ≤ copySize name - 1 := List.length_take_le _ _
    split_ifs with hlong
    · exact staticPdName_cells hlong (by omega) domain
    · rw [staticPdName, strAt_beyond (by omega)]
      rfl

end Cases

theorem createStaticPd_right (malloc : ℕ → Bool) (domain : ℤ) (name : List Char) :
    ParsedRight name (createStaticPd malloc domain name) ↔
      malloc (copySize name) = false ∨
        22 ≤ (copied name).length ∧
          (30 + cutLength domain (pdText name) ≤ (pdText name).length ∨
            ∃ text, PdNameOf name text ∧
              text.length + cutLength domain (pdText name) = (pdText name).length) := by
  have hprefix : pdText name <+: name.drop 22 := (List.take_prefix _ name).drop 22
  unfold createStaticPd
  dsimp only
  rw [staticPdName_copy]
  cases hmalloc : malloc (copySize name) with
  | false => exact iff_of_true trivial (.inl rfl)
  | true =>
      rw [if_pos rfl]
      by_cases hlong : 22 ≤ (copied name).length
      · rw [if_pos hlong]
        dsimp only
        by_cases hroom : (cutName domain (pdText name)).length < 30
        · have hless := cutName_length.mp hroom
          rw [if_pos hroom]
          refine (pdNameOf_cutName hprefix).trans ⟨fun h => .inr ⟨hlong, .inr h⟩, ?_⟩
          rintro (h | ⟨-, h | h⟩)
          · cases h
          · omega
          · exact h
        · have hmore := mt cutName_length.mpr hroom
          rw [if_neg hroom]
          exact iff_of_true trivial (.inr ⟨hlong, .inl (by omega)⟩)
      · rw [if_neg hlong]
        exact iff_of_false id (by simp [hlong])

/-- A name with the suffix of the domain, and a session of one character behind it. -/
def withSuffixes (domain : ℤ) (text : List Char) (session : Char) : List Char :=
  createstaticpd ++ ':' :: (text ++
    (getDomainFromId (getDomainFromEffecDomainId domain) ++ (sessionMarker ++ [session])))

theorem getDomainFromId_head {domain : ℤ} (h : 0 ≤ domain ∧ domain < 7) :
    (getDomainFromId domain).head? = some '&' := by
  obtain rfl | rfl | rfl | rfl | rfl | rfl | rfl :
      domain = 0 ∨ domain = 1 ∨ domain = 2 ∨ domain = 3 ∨ domain = 4 ∨ domain = 5 ∨ domain = 6 := by omega
  all_goals rfl

/-- Such a name is read right, for every domain with a name. -/
theorem withSuffixes_right (malloc : ℕ → Bool) {domain : ℤ} {text : List Char} (session : Char)
    (hdomain : getDomainFromEffecDomainId domain ≠ 7) (hamp : '&' ∉ text) (hlength : text.length < 2 ^ 30) :
    ParsedRight (withSuffixes domain text session)
      (createStaticPd malloc domain (withSuffixes domain text session)) := by
  have hbase : 0 ≤ getDomainFromEffecDomainId domain ∧ getDomainFromEffecDomainId domain < 7 := by
    unfold getDomainFromEffecDomainId at hdomain ⊢
    omega
  have hone : session1Marker.length = 11 := by decide
  have hten : sessionMarker.length = 10 := by decide
  have hcreate : createstaticpd.length = 21 := by decide
  have hle := (getDomainFromId_length (getDomainFromEffecDomainId domain)).2
  have hcopied : copied (withSuffixes domain text session) = withSuffixes domain text session := by
    refine copied_whole ?_
    simp only [withSuffixes, List.length_append, List.length_cons, List.length_nil]
    omega
  rw [createStaticPd_right, pdText, hcopied]
  unfold withSuffixes
  generalize hb : getDomainFromId (getDomainFromEffecDomainId domain) = b at hle ⊢
  have hhead : b.head? = some '&' := hb ▸ getDomainFromId_head hbase
  have hdrop : (createstaticpd ++ ':' :: (text ++ (b ++ (sessionMarker ++ [session])))).drop 22 =
      text ++ (b ++ (sessionMarker ++ [session])) := rfl
  have hcut : cutLength domain (text ++ (b ++ (sessionMarker ++ [session]))) = b.length + 11 := by
    unfold cutLength
    dsimp only
    rw [hb, hone, if_pos]
    exact ⟨List.infix_append' text b _, ⟨text ++ b, [session], by simp⟩⟩
  rw [hdrop, hcut]
  refine .inr ⟨?_, .inr ⟨text, ⟨_, rfl, hamp, fun c hc => ?_⟩, ?_⟩⟩
  · simp only [List.length_append, List.length_cons, hcreate]
    omega
  · rw [List.head?_append, hhead] at hc
    exact (Option.some.inj hc).symm
  · simp only [List.length_append, List.length_cons, List.length_nil, hten]

/-- A name that begins with `createstaticpd` is of no other kind. -/
theorem not_isPrefixOf {name kind : List Char} (hname : createstaticpd <+: name)
    (hlength : kind.length ≤ createstaticpd.length) (hkind : ¬ kind <+: createstaticpd) :
    ¬ kind.isPrefixOf name = true := by
  rw [List.isPrefixOf_iff_prefix]
  exact fun h => hkind (List.prefix_of_prefix_length_le h hname hlength)

/-- **The name of a static PD is read right exactly** when there is no copy, or when the copy goes beyond the
prefix and the cut leaves too much, or just the text of the name. -/
theorem static_pd_name_iff (malloc : ℕ → Bool) (domain : ℤ) {name : List Char} (hname : createstaticpd <+: name) :
    ParsedRight name (remoteHandleOpenDomain malloc domain name) ↔
      malloc (copySize name) = false ∨
        22 ≤ (copied name).length ∧
          (30 + cutLength domain (pdText name) ≤ (pdText name).length ∨
            ∃ text, PdNameOf name text ∧
              text.length + cutLength domain (pdText name) = (pdText name).length) := by
  have hbranch : remoteHandleOpenDomain malloc domain name = createStaticPd malloc domain name := by
    unfold remoteHandleOpenDomain
    rw [if_neg (not_isPrefixOf hname (by decide) (by decide)),
      if_neg (not_isPrefixOf hname (by decide) (by decide)), if_pos (List.isPrefixOf_iff_prefix.mpr hname)]
  rw [hbranch]
  exact createStaticPd_right malloc domain name

/-- A name for the audio PD. -/
def audioName : List Char := withSuffixes 0 "audiopd".toList '0'

theorem static_pd_name_iff_audio :
    ParsedRight audioName (remoteHandleOpenDomain (fun _ => true) 0 audioName) := by
  have hcopied : copied audioName = audioName := copied_whole (by decide)
  have hname : createstaticpd <+: audioName := List.prefix_append _ _
  have htext : PdNameOf audioName "audiopd".toList :=
    ⟨"&_dom=adsp&_session=0".toList, rfl, by decide, fun _ hc => (Option.some.inj hc).symm⟩
  refine (static_pd_name_iff (fun _ => true) 0 hname).mpr (.inr ?_)
  rw [pdText, hcopied]
  exact ⟨by decide, .inr ⟨"audiopd".toList, htext, by decide⟩⟩

/-- The prefix alone, and a session without a number. -/
theorem colon_skipped :
    remoteHandleOpenDomain (fun _ => true) 3 createstaticpd = .outside ∧
      remoteHandleOpenDomain (fun _ => true) 0 (createstaticpd ++ ":oispd&_dom=adsp&_session=".toList) =
        .staticPd "oisp".toList none ∧
      ¬ ParsedRight createstaticpd (remoteHandleOpenDomain (fun _ => true) 3 createstaticpd) := by
  have houtside : remoteHandleOpenDomain (fun _ => true) 3 createstaticpd = .outside := by decide
  refine ⟨houtside, by decide, ?_⟩
  rw [houtside]
  exact id

end FastRpc.StaticPd
