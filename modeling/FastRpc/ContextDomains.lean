import FastRpc.DomainContext

/-! # The domains of a context

`fastrpc_context_init_domains` accepts two kinds of lists of effective domain ids, several sessions of one
domain and one session on each of several domains, and tells them apart by two flags that its loops compute
from the base domains.  `init_domains_iff` says which lists it accepts.  Sessions of one domain may be named
twice, since only the base domains are compared. -/

namespace FastRpc.ContextDomains

open DomainContext

/-! ### The code -/

/-- `IS_VALID_EFFECTIVE_DOMAIN_ID`; `NUM_DOMAINS_EXTEND` is 32. -/
def isValidEffectiveDomainId (id : UInt32) : Bool := id < 32

/-- `GET_DOMAIN_FROM_EFFEC_DOMAIN_ID`. -/
def getDomainFromEffecDomainId (id : UInt32) : UInt32 := id &&& 7

/-- The lists of the context, and the flag of the first loop. -/
structure Lists where
  effec_domain_ids : List UInt32
  domains : List UInt32
  multisess : Bool
  deriving DecidableEq, Repr

/-- One turn of the first loop with a valid id. -/
def Lists.add (ctx : Lists) (id : UInt32) : Lists :=
  let domains := ctx.domains ++ [getDomainFromEffecDomainId id]
  ⟨ctx.effec_domain_ids ++ [id], domains,
    if domains.head? ≠ some (getDomainFromEffecDomainId id) then false else ctx.multisess⟩

/-- The first loop. -/
def fillDomains : List UInt32 → Lists → Except ℤ Lists
  | [], ctx => .ok ctx
  | id :: ids, ctx =>
      if isValidEffectiveDomainId id then fillDomains ids (ctx.add id) else .error aeeEBadDomain

/-- The loop over `j`, which breaks at the first domain that is the same. -/
def laterDomains (domain : UInt32) : List UInt32 → Bool → Bool
  | [], multidom => multidom
  | d :: ds, multidom => if d = domain then false else laterDomains domain ds multidom

/-- The loop over `i`. -/
def checkUnique : List UInt32 → Bool → Bool
  | [], multidom => multidom
  | d :: ds, multidom => checkUnique ds (laterDomains d ds multidom)

/-- `fastrpc_context_init_domains`. -/
def fastrpcContextInitDomains (ids : List UInt32) : Except ℤ Lists := do
  let ctx ← fillDomains ids ⟨[], [], true⟩
  if ctx.multisess then .ok ctx
  else if checkUnique ctx.domains true then .ok ctx
  else .error aeeEBadParm

/-! ### The lists that are accepted -/

section Loops

variable {ids ds : List UInt32} {ctx c : Lists}

/-- What the first loop leaves when all ids are valid. -/
theorem fillDomains_valid (hvalid : ∀ id ∈ ids, isValidEffectiveDomainId id = true) (ctx : Lists) :
    fillDomains ids ctx = .ok (ids.foldl Lists.add ctx) := by
  induction ids generalizing ctx with
  | nil => rfl
  | cons id ids ih =>
      rw [fillDomains, if_pos (hvalid id List.mem_cons_self), List.foldl_cons]
      exact ih (fun i hi => hvalid i (List.mem_cons_of_mem _ hi)) _

theorem fillDomains_invalid (hinvalid : ¬ ∀ id ∈ ids, isValidEffectiveDomainId id = true) (ctx : Lists) :
    fillDomains ids ctx = .error aeeEBadDomain := by
  induction ids generalizing ctx with
  | nil => exact absurd (fun _ h => nomatch h) hinvalid
  | cons id ids ih =>
      rw [fillDomains]
      split_ifs with hid
      · exact ih (fun hrest => hinvalid (List.forall_mem_cons.mpr ⟨hid, hrest⟩)) _
      · rfl

theorem foldl_add (ids : List UInt32) (ctx : Lists) :
    (ids.foldl Lists.add ctx).effec_domain_ids = ctx.effec_domain_ids ++ ids ∧
      (ids.foldl Lists.add ctx).domains = ctx.domains ++ ids.map getDomainFromEffecDomainId := by
  induction ids generalizing ctx with
  | nil => simp
  | cons id ids ih =>
      obtain ⟨heffec, hdomains⟩ := ih (ctx.add id)
      rw [List.foldl_cons, heffec, hdomains]
      simp [Lists.add]

/-- The flag says that all base domains are the first one. -/
def Lists.Flagged (ctx : Lists) : Prop :=
  ctx.multisess = true ↔ ∀ d ∈ ctx.domains, ctx.domains.head? = some d

theorem flagged_add (h : ctx.Flagged) (id : UInt32) : (ctx.add id).Flagged := by
  unfold Lists.Flagged Lists.add at *
  cases hd : ctx.domains with
  | nil =>
      have hset : ctx.multisess = true := h.mpr (by simp [hd])
      simp [hset]
  | cons d ds =>
      rw [hd] at h
      by_cases hsame : d = getDomainFromEffecDomainId id
      · rw [← hsame]
        simpa [or_imp, forall_and] using h
      · simp [hsame]

theorem flagged_foldl (ids : List UInt32) (h : ctx.Flagged) : (ids.foldl Lists.add ctx).Flagged := by
  induction ids generalizing ctx with
  | nil => exact h
  | cons id ids ih => exact ih (flagged_add h id)

theorem laterDomains_eq (d : UInt32) (ds : List UInt32) (multidom : Bool) :
    laterDomains d ds multidom = (decide (d ∉ ds) && multidom) := by
  induction ds with
  | nil => simp [laterDomains]
  | cons e ds ih =>
      rw [laterDomains, ih]
      by_cases hsame : e = d
      · simp [hsame]
      · simp [hsame, Ne.symm hsame]

theorem checkUnique_eq (ds : List UInt32) (multidom : Bool) :
    checkUnique ds multidom = (decide ds.Nodup && multidom) := by
  induction ds generalizing multidom with
  | nil => simp [checkUnique]
  | cons d ds ih =>
      rw [checkUnique, ih, laterDomains_eq]
      by_cases hd : d ∈ ds
      · simp [hd]
      · simp [hd]

end Loops

/-- The base domains of a list of ids. -/
def baseDomains (ids : List UInt32) : List UInt32 := ids.map getDomainFromEffecDomainId

section Accepted

variable {ids ds : List UInt32}

/-- All entries are the first one when any two of them are the same. -/
theorem all_head_iff (ds : List UInt32) :
    (∀ d ∈ ds, ds.head? = some d) ↔ ∀ d ∈ ds, ∀ e ∈ ds, d = e := by
  constructor
  · intro h d hd e he
    exact Option.some.inj ((h d hd).symm.trans (h e he))
  · intro h d hd
    cases ds with
    | nil => cases hd
    | cons e ds => exact congrArg some (h e List.mem_cons_self d hd)

/-- What the function returns when all ids are valid. -/
theorem fastrpcContextInitDomains_valid (hvalid : ∀ id ∈ ids, isValidEffectiveDomainId id = true) :
    ((∀ d ∈ baseDomains ids, ∀ e ∈ baseDomains ids, d = e) ∨ (baseDomains ids).Nodup →
        ∃ multisess, fastrpcContextInitDomains ids = .ok ⟨ids, baseDomains ids, multisess⟩) ∧
      (¬ ((∀ d ∈ baseDomains ids, ∀ e ∈ baseDomains ids, d = e) ∨ (baseDomains ids).Nodup) →
        fastrpcContextInitDomains ids = .error aeeEBadParm) := by
  have hflag : (ids.foldl Lists.add ⟨[], [], true⟩).Flagged := flagged_foldl ids (by simp [Lists.Flagged])
  obtain ⟨heffec, hdomains⟩ := foldl_add ids ⟨[], [], true⟩
  have hfill := fillDomains_valid hvalid ⟨[], [], true⟩
  generalize ids.foldl Lists.add ⟨[], [], true⟩ = ctx at hflag heffec hdomains hfill
  have hbase : ctx.domains = baseDomains ids := by simpa [baseDomains] using hdomains
  have hids : ctx.effec_domain_ids = ids := by simpa using heffec
  have hlists : ctx = ⟨ids, baseDomains ids, ctx.multisess⟩ := by
    cases ctx
    rw [Lists.mk.injEq]
    exact ⟨hids, hbase, rfl⟩
  rw [Lists.Flagged, all_head_iff, hbase] at hflag
  have hreturn : fastrpcContextInitDomains ids =
      if ctx.multisess then .ok ctx
      else if (baseDomains ids).Nodup then .ok ctx
      else .error aeeEBadParm := by
    rw [fastrpcContextInitDomains, hfill]
    simp only [bind, Except.bind, checkUnique_eq, Bool.and_true, hbase, decide_eq_true_eq]
  rw [hreturn]
  by_cases hsess : ctx.multisess = true
  · rw [if_pos hsess]
    exact ⟨fun _ => ⟨ctx.multisess, congrArg Except.ok hlists⟩, fun h => absurd (.inl (hflag.mp hsess)) h⟩
  · rw [if_neg hsess]
    split_ifs with hnodup
    · exact ⟨fun _ => ⟨ctx.multisess, congrArg Except.ok hlists⟩, fun h => absurd (.inr hnodup) h⟩
    · exact ⟨fun h => absurd h (not_or.mpr ⟨mt hflag.mpr hsess, hnodup⟩), fun _ => rfl⟩

theorem fastrpcContextInitDomains_invalid (hinvalid : ¬ ∀ id ∈ ids, isValidEffectiveDomainId id = true) :
    fastrpcContextInitDomains ids = .error aeeEBadDomain := by
  rw [fastrpcContextInitDomains, fillDomains_invalid hinvalid]
  rfl

theorem effectiveDomain_toNat {id : UInt32} (hvalid : isValidEffectiveDomainId id = true) :
    ∃ d, effectiveDomain id.toNat = some d ∧ domainOf d = (getDomainFromEffecDomainId id).toNat := by
  have hlt : id.toNat < 32 := by simpa [isValidEffectiveDomainId, UInt32.lt_iff_toNat_lt] using hvalid
  exact ⟨⟨id.toNat, hlt⟩, dif_pos hlt, by simp [domainOf, getDomainFromEffecDomainId]⟩

theorem mapM_effectiveDomain (hvalid : ∀ id ∈ ids, isValidEffectiveDomainId id = true) :
    ∃ ds, (ids.map UInt32.toNat).mapM effectiveDomain = some ds ∧
      ds.map domainOf = (baseDomains ids).map UInt32.toNat := by
  induction ids with
  | nil => exact ⟨[], rfl, rfl⟩
  | cons id ids ih =>
      obtain ⟨ds, hds, hbase⟩ := ih fun i hi => hvalid i (List.mem_cons_of_mem _ hi)
      obtain ⟨d, hd, hdomain⟩ := effectiveDomain_toNat (hvalid id List.mem_cons_self)
      refine ⟨d :: ds, by simp [hd, hds], ?_⟩
      simpa [baseDomains, hdomain] using hbase

theorem mapM_effectiveDomain_none (hinvalid : ¬ ∀ id ∈ ids, isValidEffectiveDomainId id = true) :
    (ids.map UInt32.toNat).mapM effectiveDomain = none := by
  induction ids with
  | nil => simp at hinvalid
  | cons id ids ih =>
      by_cases hid : isValidEffectiveDomainId id = true
      · have hrest := ih (by simpa [hid] using hinvalid)
        obtain ⟨d, hd, -⟩ := effectiveDomain_toNat hid
        simp [hd, hrest]
      · have hge : ¬ id.toNat < 32 := by simpa [isValidEffectiveDomainId, UInt32.lt_iff_toNat_lt] using hid
        simp [effectiveDomain, hge]

/-- The two loops compute what the context model says of the list. -/
theorem fastrpcContextInitDomains_refines (ids : List UInt32) :
    (fastrpcContextInitDomains ids).map (fun _ => ()) =
      (DomainContext.fastrpcContextInitDomains (ids.map UInt32.toNat)).map (fun _ => ()) := by
  rw [DomainContext.fastrpcContextInitDomains]
  by_cases hvalid : ∀ id ∈ ids, isValidEffectiveDomainId id = true
  · obtain ⟨haccepted, hmixed⟩ := fastrpcContextInitDomains_valid hvalid
    obtain ⟨ds, hds, hbase⟩ := mapM_effectiveDomain hvalid
    have hinj : Function.Injective UInt32.toNat := fun _ _ => UInt32.toNat_inj.mp
    have hnodup : (ds.map domainOf).Nodup ↔ (baseDomains ids).Nodup := by
      rw [hbase, List.nodup_map_iff hinj]
    have hsame : (∀ d ∈ ds.map domainOf, some d = (ds.map domainOf).head?) ↔
        ∀ d ∈ baseDomains ids, ∀ e ∈ baseDomains ids, d = e := by
      rw [← all_head_iff (baseDomains ids)]
      simp [hbase, UInt32.toNat_inj]
    rw [hds]
    simp only [hnodup, hsame]
    by_cases hall : ∀ d ∈ baseDomains ids, ∀ e ∈ baseDomains ids, d = e
    · obtain ⟨multisess, hok⟩ := haccepted (.inl hall)
      rw [hok, if_pos hall]
      rfl
    · rw [if_neg hall]
      split_ifs with hdistinct
      · obtain ⟨multisess, hok⟩ := haccepted (.inr hdistinct)
        rw [hok]
        rfl
      · rw [hmixed (not_or.mpr ⟨hall, hdistinct⟩)]
        rfl
  · rw [fastrpcContextInitDomains_invalid hvalid, mapM_effectiveDomain_none hvalid]
    rfl

end Accepted

/-- A list is accepted when every id is valid and the base domains are all the same or pairwise
different. -/
theorem init_domains_iff (ids : List UInt32) :
    (∃ ctx, fastrpcContextInitDomains ids = .ok ctx) ↔
      (∀ id ∈ ids, isValidEffectiveDomainId id = true) ∧
        ((∀ d ∈ baseDomains ids, ∀ e ∈ baseDomains ids, d = e) ∨ (baseDomains ids).Nodup) := by
  constructor
  · rintro ⟨ctx, hok⟩
    have hvalid : ∀ id ∈ ids, isValidEffectiveDomainId id = true := by
      by_contra hinvalid
      rw [fastrpcContextInitDomains_invalid hinvalid] at hok
      cases hok
    refine ⟨hvalid, ?_⟩
    by_contra hmixed
    rw [(fastrpcContextInitDomains_valid hvalid).2 hmixed] at hok
    cases hok
  · rintro ⟨hvalid, hshape⟩
    obtain ⟨multisess, hok⟩ := (fastrpcContextInitDomains_valid hvalid).1 hshape
    exact ⟨_, hok⟩

/-- The same id named twice is accepted: its base domain is the only one. -/
theorem same_id_twice :
    (∃ ctx, fastrpcContextInitDomains [3, 3] = .ok ctx) ∧ ¬ ([3, 3] : List UInt32).Nodup :=
  ⟨⟨⟨[3, 3], [3, 3], true⟩, by decide⟩, by decide⟩

end FastRpc.ContextDomains
