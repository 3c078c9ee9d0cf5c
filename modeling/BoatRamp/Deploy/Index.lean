import BoatRamp.Deploy.Sites
import BoatRamp.Library.Fallible

/-!
# The index of hosts

The index is a second copy of what the stored configurations list.  Along every
sequence of calls the two agree: an entry exists exactly for the hosts that a
stored configuration lists, and its owner is the one site that lists it.
-/

namespace BoatRamp.Deploy

open Library DomainConfig List DomainOwner SortedMap KvWrite ResourceName

variable {Settings : Type}

def storedConfig (kv : Kv Settings) (site : SiteRef) : Option (SiteConfig Settings) :=
  match kv.get? (sitePointerKey site.project site.site) with
  | some (.text hash) =>
      match kv.get? (siteConfigBlobKey hash) with
      | some (.siteConfig config) => some config
      | _ => none
  | _ => none

theorem storedConfig_eq_some_iff {kv : Kv Settings} {site : SiteRef}
    {config : SiteConfig Settings} : storedConfig kv site = some config ↔
      ∃ h, kv.get? (sitePointerKey site.project site.site) = some (.text h) ∧
        kv.get? (siteConfigBlobKey h) = some (.siteConfig config) := by
  unfold storedConfig
  constructor
  · intro hf
    split at hf
    · next h hp =>
      split at hf
      · next hb =>
        cases hf
        exact ⟨h, hp, hb⟩
      · cases hf
    · cases hf
  rintro ⟨h, hp, hb⟩
  rw [hp]
  dsimp only
  rw [hb]

def DomainConfig.claimKeys (domains : DomainConfig) : List Text := domains.claims.map Claim.key

def Claims (kv : Kv Settings) (site : SiteRef) (key : Text) : Prop :=
  ∃ config, storedConfig kv site = some config ∧ key ∈ config.domains.claimKeys

def ownedBy (site : SiteRef) (context : Option Text) : Record Settings :=
  .owner ⟨site.project, site.site, context⟩

theorem ownedBy_inj {x y : SiteRef} {one o : Option Text}
    (hs : (ownedBy x one : Record Settings) = ownedBy y o) : x = y := by
  simp only [ownedBy, Record.owner.injEq, DomainOwner.mk.injEq, text_inj] at hs
  cases x
  cases y
  simp_all

inductive IsIndexKey : Text → Prop
  | domain (host : Text) : IsIndexKey (space.key .domain host)
  | wildcard (suffix : Text) : IsIndexKey (space.key .wildcard suffix)

variable (state : DeployState Settings) {dm : DomainConfig} {key : Text}

theorem isIndexKey_of_claim {c : Claim} (hc : c ∈ dm.claims) : IsIndexKey c.key := by
  rw [claims, mem_append] at hc
  rcases hc with exact | hw
  · obtain ⟨host, _, rfl⟩ := mem_map.mp exact
    exact .domain _
  obtain ⟨w, _, hm⟩ := mem_filterMap.mp hw
  obtain ⟨s, _, rfl⟩ := Option.map_eq_some_iff.mp hm
  exact .wildcard _

theorem isIndexKey_of_mem_claimKeys (hi : key ∈ dm.claimKeys) : IsIndexKey key := by
  obtain ⟨c, hc, rfl⟩ := mem_map.mp hi
  exact isIndexKey_of_claim hc

theorem IsIndexKey.ne_scopedKey {p rest : Text} {s : Scope} (hi : IsIndexKey key) :
    key ≠ scopedKey p s rest := by
  cases hi with
  | domain host | wildcard sf => exact (scopedKey_ne_key (by decide)).symm

theorem IsIndexKey.ne_siteConfigBlobKey {h : Text} (hi : IsIndexKey key) :
    key ≠ siteConfigBlobKey h := by
  cases hi with
  | domain host | wildcard s => simp [siteConfigBlobKey]

theorem siteConfigBlobKey_inj {x y : Text} : siteConfigBlobKey x = siteConfigBlobKey y ↔ x = y := by
  simp [siteConfigBlobKey]

theorem sitePointerKey_inj {x y : SiteRef} : sitePointerKey x.project x.site =
      sitePointerKey y.project y.site ↔ x = y := by
  rw [sitePointerKey, sitePointerKey, scopedKey_inj x.project.slash_not_mem y.project.slash_not_mem,
    text_inj, text_inj]
  cases x
  cases y
  simp

variable (formats : Formats Settings)

/-- Bodies are stored under their hashes, pointers lead to bodies, and the index holds what the
stored configurations claim. -/
structure Mirrored (kv : Kv Settings) : Prop where
  body : ∀ hash record, kv.get? (siteConfigBlobKey hash) = some record →
    ∃ config, record = .siteConfig config ∧ formats.configHash config = hash
  pointed : ∀ (site : SiteRef) record,
    kv.get? (sitePointerKey site.project site.site) = some record →
    ∃ config, record = .text (formats.configHash config) ∧ storedConfig kv site = some config
  indexed : ∀ key, IsIndexKey key → ∀ record, kv.get? key = some record →
    ∃ site context, record = ownedBy site context ∧ Claims kv site key
  claimed : ∀ site key, Claims kv site key → ∃ context, kv.get? key = some (ownedBy site context)

variable {formats}

inductive IsSiteKey : Text → Prop
  | index {key : Text} : IsIndexKey key → IsSiteKey key
  | body (hash : Text) : IsSiteKey (siteConfigBlobKey hash)
  | pointer (site : SiteRef) : IsSiteKey (sitePointerKey site.project site.site)

def Agree (first second : Kv Settings) : Prop :=
  ∀ key, IsSiteKey key → second.get? key = first.get? key

theorem Agree.storedConfig {x y : Kv Settings} (ha : Agree x y)
    (site : SiteRef) : storedConfig y site = storedConfig x site := by
  unfold Deploy.storedConfig
  rw [ha _ (.pointer site)]
  split
  · rw [ha _ (.body _)]
  · rfl

theorem Agree.mirrored {x y : Kv Settings} (ha : Agree x y)
    (hm : Mirrored formats x) : Mirrored formats y where
  body h r hs := hm.body h r ((ha _ (.body h)) ▸ hs)
  pointed site r hs := by
    rw [ha.storedConfig]
    exact hm.pointed site r ((ha _ (.pointer site)) ▸ hs)
  indexed key hin r hs := by
    obtain ⟨site, ctx, hsa, config, hf, hi⟩ :=
      hm.indexed key hin r ((ha _ (.index hin)) ▸ hs)
    exact ⟨site, ctx, hsa, config, ha.storedConfig site ▸ hf, hi⟩
  claimed site key hc := by
    obtain ⟨config, hf, hi⟩ := hc
    rw [ha.storedConfig] at hf
    rw [ha _ (.index (isIndexKey_of_mem_claimKeys hi))]
    exact hm.claimed site _ ⟨config, hf, hi⟩

theorem not_isSiteKey_scopedKey {p : ResourceName} {s : Scope} {rest : Text}
    (other : s ≠ .site) : ¬IsSiteKey (scopedKey p.text s rest) := by
  intro hsi
  generalize same : scopedKey p.text s rest = key at hsi
  cases hsi with
  | index index => exact index.ne_scopedKey same.symm
  | body h => exact scopedKey_ne_key (by decide) same
  | pointer site =>
    have parts := (scopedKey_inj p.slash_not_mem site.project.slash_not_mem).mp same
    exact other parts.2.1

theorem not_isSiteKey_httpchallenge {rest : Text} : ¬IsSiteKey (space.key .httpchallenge rest) := by
  intro hsi
  generalize same : space.key .httpchallenge rest = key at hsi
  cases hsi with
  | index index =>
    cases index with
    | domain host | wildcard s => simp at same
  | body h => simp [siteConfigBlobKey] at same
  | pointer site => exact scopedKey_ne_key (by decide) same.symm

theorem agree_of_writes {kv : Kv Settings} {wr : List (KvWrite (Record Settings))}
    (he : ∀ w ∈ wr, ¬IsSiteKey w.key) : Agree kv (writeBatch kv wr) := by
  intro key hs
  apply get?_writeBatch_of_unnamed
  rintro w hi rfl
  exact he w hi hs

/-- Reading a configuration never fails, and it claims what the stored one does. -/
theorem Mirrored.getSiteConfig {kv : Kv Settings} (hm : Mirrored formats kv) (site : SiteRef) :
    ∃ old, getSiteConfig kv site.project site.site = .ok old ∧
      old.map (fun old => old.domains.claims) =
        (storedConfig kv site).map (fun config => config.domains.claims) := by
  unfold Deploy.getSiteConfig
  cases hp : kv.get? (sitePointerKey site.project site.site) with
  | none => exact ⟨none, rfl, by simp [storedConfig, hp]⟩
  | some r =>
    obtain ⟨config, rfl, hf⟩ := hm.pointed site r hp
    obtain ⟨h, hs, hb⟩ := storedConfig_eq_some_iff.mp hf
    cases hp.symm.trans hs
    simp only [hb, hf, Option.map_some]
    exact ⟨_, rfl, rfl⟩

section Ops

variable (kv : Kv Settings) (site : SiteRef) (old : Option (SiteConfig Settings))
  (config : SiteConfig Settings) (contexts : SortedMap Text Text)

variable (formats) in
def configured : Kv Settings :=
  writeBatch kv
    (siteConfigOps formats site.project site.site old config contexts)

def staleKeys : List Text := ((old.map fun old => old.domains.claims).getD []).map Claim.key

theorem forClaim_owner (o : DomainOwner) (dm : DomainConfig) (c : Claim) :
    ∃ ctx, o.forClaim dm contexts c = ⟨o.project, o.site, ctx⟩ := by
  unfold forClaim
  dsimp only
  split <;> exact ⟨_, rfl⟩

variable {kv site old config contexts}

variable {key : Text}

theorem get?_configured_claimed (hc : key ∈ config.domains.claimKeys) :
    ∃ ctx, (configured formats kv site old config contexts).get? key = some (ownedBy site ctx) := by
  unfold configured siteConfigOps
  rw [writeBatch_append]
  obtain ⟨c, _, _, hs⟩ := get?_writeBatch_puts Claim.key (fun c => Record.owner (forClaim
      ⟨site.project, site.site, none⟩ config.domains contexts c)) hc _
  obtain ⟨ctx, o⟩ := forClaim_owner contexts ⟨site.project, site.site, none⟩
    config.domains c
  exact ⟨ctx, by rw [hs, o]; rfl⟩

/-- Keys that the new configuration does not claim are written by the first two parts only. -/
theorem get?_configured_unclaimed (hu : key ∉ config.domains.claimKeys) :
    (configured formats kv site old config contexts).get? key =
      (writeBatch (writeBatch kv ((staleKeys old).map .delete))
        [.put (siteConfigBlobKey (formats.configHash config)) (.siteConfig config),
          .put (sitePointerKey site.project site.site) (.text (formats.configHash config)),
          if contexts.entries = [] then
            .delete (siteContextsKey site.project site.site)
          else .put (siteContextsKey site.project site.site) (.contexts contexts)]).get?
        key := by
  unfold configured siteConfigOps staleKeys
  rw [writeBatch_append, get?_writeBatch_of_unnamed, writeBatch_append, map_map]
  · rfl
  intro w hi hs
  obtain ⟨c, hm, rfl⟩ := mem_map.mp hi
  exact hu (mem_map.mpr ⟨c, hm, hs.symm⟩)

theorem get?_configured_index (hi : IsIndexKey key) (hu : key ∉ config.domains.claimKeys) :
    (configured formats kv site old config contexts).get? key =
      if key ∈ staleKeys old then none else kv.get? key := by
  rw [get?_configured_unclaimed hu, get?_writeBatch_of_unnamed, get?_writeBatch_deletes]
  intro w hin
  simp only [mem_cons, not_mem_nil, or_false] at hin
  rcases hin with rfl | rfl | rfl
  · exact hi.ne_siteConfigBlobKey
  · exact hi.ne_scopedKey
  split <;> exact hi.ne_scopedKey

theorem not_claimKey {dm : DomainConfig} (ha : ¬IsIndexKey key) :
    key ∉ dm.claimKeys := fun hi => ha (isIndexKey_of_mem_claimKeys hi)

theorem not_staleKey (ha : ¬IsIndexKey key) : key ∉ staleKeys old := by
  intro hi
  cases old with
  | none => cases hi
  | some old => exact not_claimKey ha hi

theorem get?_configured_body (h : Text) :
    (configured formats kv site old config contexts).get? (siteConfigBlobKey h) =
      if h = formats.configHash config then some (.siteConfig config)
      else kv.get? (siteConfigBlobKey h) := by
  have ha : ¬IsIndexKey (siteConfigBlobKey h) := fun hi => hi.ne_siteConfigBlobKey rfl
  have hu (s : Scope) (rest : Text) : siteConfigBlobKey h ≠ scopedKey site.project s rest :=
    (scopedKey_ne_key (by decide)).symm
  have hk : (writeBatch kv ((staleKeys old).map .delete)).get? (siteConfigBlobKey h) =
      kv.get? (siteConfigBlobKey h) := by
    rw [get?_writeBatch_deletes, if_neg (not_staleKey ha)]
  rw [get?_configured_unclaimed (not_claimKey ha)]
  simp only [writeBatch_cons, writeBatch_nil]
  rw [get?_apply_of_ne, get?_apply_of_ne _ _ (hu _ _)]
  · simp only [apply, get?_insert, hk, siteConfigBlobKey_inj]
  split <;> exact hu _ _

theorem get?_configured_pointer (o : SiteRef) :
    (configured formats kv site old config contexts).get?
        (sitePointerKey o.project o.site) =
      if o = site then some (.text (formats.configHash config))
      else kv.get? (sitePointerKey o.project o.site) := by
  have ha : ¬IsIndexKey (sitePointerKey o.project o.site) :=
    fun hi => hi.ne_scopedKey rfl
  have hp : sitePointerKey o.project o.site ≠
      siteContextsKey site.project site.site := by
    intro hs
    have hpa := (scopedKey_inj o.project.slash_not_mem site.project.slash_not_mem).mp hs
    exact absurd hpa.2.1 (by decide)
  have hk : (writeBatch kv ((staleKeys old).map .delete)).get?
      (sitePointerKey o.project o.site) =
      kv.get? (sitePointerKey o.project o.site) := by
    rw [get?_writeBatch_deletes, if_neg (not_staleKey ha)]
  rw [get?_configured_unclaimed (not_claimKey ha)]
  simp only [writeBatch_cons, writeBatch_nil]
  rw [get?_apply_of_ne]
  · simp only [apply, get?_insert, sitePointerKey_inj]
    split
    · rfl
    · rw [if_neg (show sitePointerKey o.project o.site ≠ siteConfigBlobKey _ from
        scopedKey_ne_key (by decide)), hk]
  split <;> exact hp

end Ops

section Steps

variable {kv : Kv Settings} {site : SiteRef} {old : Option (SiteConfig Settings)}
  {cfg : SiteConfig Settings} {c : SortedMap Text Text}

theorem mem_staleKeys_iff {key : Text} (hr : old.map (fun old => old.domains.claims) =
      (storedConfig kv site).map fun cfg => cfg.domains.claims) :
    key ∈ staleKeys old ↔ Claims kv site key := by
  unfold staleKeys Claims claimKeys
  rw [hr]
  cases storedConfig kv site <;> simp

theorem storedConfig_configured (hm : Mirrored formats kv)
    (hc : ∀ sd, kv.get? (siteConfigBlobKey (formats.configHash cfg)) =
      some (.siteConfig sd) → sd = cfg) (o : SiteRef) :
    storedConfig (configured formats kv site old cfg c) o =
      if o = site then some cfg else storedConfig kv o := by
  apply Option.ext
  intro f
  rw [storedConfig_eq_some_iff]
  simp only [get?_configured_pointer, get?_configured_body]
  by_cases hs : o = site
  · simp [hs]
  rw [if_neg hs, if_neg hs, storedConfig_eq_some_iff]
  apply exists_congr
  intro h
  apply and_congr_right
  intro hp
  split
  · next equal =>
    -- the body was stored before, and it is the new one
    obtain ⟨sd, _, hr⟩ := hm.pointed o _ hp
    obtain ⟨_, ha, hb⟩ := storedConfig_eq_some_iff.mp hr
    cases hp.symm.trans ha
    rw [hb, hc sd (equal ▸ hb)]
  · exact Iff.rfl

theorem get?_configured_other (hm : Mirrored formats kv)
    (hr : old.map (fun old => old.domains.claims) =
      (storedConfig kv site).map fun cfg => cfg.domains.claims)
    (hc : ∀ key ∈ cfg.domains.claimKeys, ∀ record, kv.get? key = some record →
      ∃ ctx, record = ownedBy site ctx) {key : Text} (hi : IsIndexKey key) {o : SiteRef}
    (hd : o ≠ site) {ctx : Option Text} (hs : kv.get? key = some (ownedBy o ctx)) :
    (configured formats kv site old cfg c).get? key = some (ownedBy o ctx) := by
  have hu : key ∉ cfg.domains.claimKeys := by
    intro hin
    obtain ⟨_, hsa⟩ := hc key hin _ hs
    exact hd (ownedBy_inj hsa)
  have hf : key ∉ staleKeys old := by
    intro hst
    obtain ⟨_, ha⟩ := hm.claimed site key ((mem_staleKeys_iff hr).mp hst)
    exact hd (ownedBy_inj (Option.some.inj (hs.symm.trans ha)))
  rw [get?_configured_index hi hu, if_neg hf, hs]

/-- A write that the guard admits keeps the index and the configurations together. -/
theorem Mirrored.configured (hm : Mirrored formats kv)
    (hr : old.map (fun old => old.domains.claims) =
      (storedConfig kv site).map fun cfg => cfg.domains.claims)
    (hce : ∀ key ∈ cfg.domains.claimKeys, ∀ r, kv.get? key = some r → ∃ ctx, r = ownedBy site ctx)
    (hc : ∀ hs, kv.get? (siteConfigBlobKey (formats.configHash cfg)) =
      some (.siteConfig hs) → hs = cfg) :
    Mirrored formats (configured formats kv site old cfg c) where
  body h r hs := by
    rw [get?_configured_body] at hs
    split at hs
    · next he =>
      cases hs
      exact ⟨cfg, rfl, he.symm⟩
    · exact hm.body h r hs
  pointed o r hs := by
    rw [get?_configured_pointer] at hs
    rw [storedConfig_configured hm hc]
    split at hs
    · next hsa =>
      cases hs
      exact ⟨cfg, rfl, if_pos hsa⟩
    next hd =>
    rw [if_neg hd]
    exact hm.pointed o r hs
  indexed key hi r hs := by
    by_cases hin : key ∈ cfg.domains.claimKeys
    · obtain ⟨ctx, hw⟩ := get?_configured_claimed hin
      cases hs.symm.trans hw
      refine ⟨site, ctx, rfl, cfg, ?_, hin⟩
      rw [storedConfig_configured hm hc, if_pos rfl]
    rw [get?_configured_index hi hin] at hs
    split at hs
    · cases hs
    next fresh =>
    have hu : ¬Claims kv site key := fun own => fresh ((mem_staleKeys_iff hr).mpr own)
    obtain ⟨o, ctx, hsa, hcl⟩ := hm.indexed key hi r hs
    have hd : o ≠ site := fun he => hu (he ▸ hcl)
    obtain ⟨l, hf, hme⟩ := hcl
    refine ⟨o, ctx, hsa, l, ?_, hme⟩
    rw [storedConfig_configured hm hc, if_neg hd, hf]
  claimed o key hcl := by
    obtain ⟨l, hf, hme⟩ := hcl
    rw [storedConfig_configured hm hc] at hf
    split at hf
    · next hsa =>
      cases hf
      rw [hsa]
      exact get?_configured_claimed hme
    next hd =>
    have hi := isIndexKey_of_mem_claimKeys hme
    obtain ⟨ctx, hs⟩ := hm.claimed o key ⟨l, hf, hme⟩
    exact ⟨ctx, get?_configured_other hm hr hce hi hd hs⟩

theorem Mirrored.deleted (hm : Mirrored formats kv) {d : List Text}
    (hin : ∀ key, IsIndexKey key → (key ∈ d ↔ Claims kv site key))
    (hb : ∀ h, siteConfigBlobKey h ∉ d)
    (hp : ∀ o : SiteRef, sitePointerKey o.project o.site ∈ d ↔ o = site) :
    Mirrored formats (writeBatch kv (d.map .delete)) := by
  have hr (o : SiteRef) : storedConfig (writeBatch kv (d.map .delete)) o =
      if o = site then none else storedConfig kv o := by
    apply Option.ext
    intro f
    rw [storedConfig_eq_some_iff]
    simp only [get?_writeBatch_deletes, if_neg (hb _), hp]
    split
    · simp
    · rw [storedConfig_eq_some_iff]
  have hk {o : SiteRef} {key : Text} (hc : Claims kv o key) (hd : o ≠ site) :
      Claims (writeBatch kv (d.map .delete)) o key := by
    obtain ⟨l, f, hme⟩ := hc
    exact ⟨l, by rw [hr, if_neg hd, f], hme⟩
  constructor
  · intro h r hs
    rw [get?_writeBatch_deletes, if_neg (hb h)] at hs
    exact hm.body h r hs
  · intro o r hs
    rw [get?_writeBatch_deletes] at hs
    split at hs
    · cases hs
    next there =>
    have hd : o ≠ site := fun hsa => there ((hp o).mpr hsa)
    rw [hr, if_neg hd]
    exact hm.pointed o r hs
  · intro key hi r hs
    rw [get?_writeBatch_deletes] at hs
    split at hs
    · cases hs
    next there =>
    obtain ⟨o, ctx, hsa, hc⟩ := hm.indexed key hi r hs
    have hd : o ≠ site := fun he => there ((hin key hi).mpr (he ▸ hc))
    exact ⟨o, ctx, hsa, hk hc hd⟩
  intro o key hc
  obtain ⟨l, f, hme⟩ := hc
  rw [hr] at f
  split at f
  · cases f
  next hd =>
  have hi := isIndexKey_of_mem_claimKeys hme
  obtain ⟨ctx, hs⟩ := hm.claimed o key ⟨l, f, hme⟩
  have hsp : key ∉ d := by
    intro hie
    obtain ⟨_, ha⟩ := hm.claimed site key ((hin key hi).mp hie)
    exact hd (ownedBy_inj (Option.some.inj (hs.symm.trans ha)))
  exact ⟨ctx, by rw [get?_writeBatch_deletes, if_neg hsp, hs]⟩

end Steps

section Calls

variable {kv next : Kv Settings} {site : SiteRef}

variable (formats) in
/-- No two different bodies, one stored before and one after, have the same hash. -/
def NoCollision (kv next : Kv Settings) : Prop :=
  ∀ hash stored, kv.get? (siteConfigBlobKey hash) = some (.siteConfig stored) →
    ∀ other config, next.get? (siteConfigBlobKey other) = some (.siteConfig config) →
      formats.configHash stored = formats.configHash config → stored = config

variable {cfg : SiteConfig Settings} {host : Text}

theorem setSiteConfigLocked_written {c : Bool}
    (hd : setSiteConfigLocked formats kv site.project site.site cfg c = .ok next) :
    ∃ old w, getSiteConfig kv site.project site.site = .ok old ∧
      effectiveConfig kv site.project site.site old cfg c = .ok w ∧
      next = configured formats kv site old w (effectiveContexts old cfg) ∧ ∀ cl ∈ w.domains.claims,
        ensureHostClaimable kv ⟨site.project, site.site, none⟩ cl = .ok () := by
  obtain ⟨_, _, hd⟩ := bind_eq_ok_iff.mp hd
  obtain ⟨old, hr, hd⟩ := bind_eq_ok_iff.mp hd
  obtain ⟨w, hw, hd⟩ := bind_eq_ok_iff.mp hd
  obtain ⟨_, hc, hd⟩ := bind_eq_ok_iff.mp hd
  cases hd
  exact ⟨old, w, hr, hw, rfl, forM_eq_ok_iff.mp hc⟩

theorem setSiteConfigLocked_ok {c : Bool}
    (hd : setSiteConfigLocked formats kv site.project site.site cfg c = .ok next) :
    ∃ old w contexts, getSiteConfig kv site.project site.site = .ok old ∧
      next = configured formats kv site old w contexts ∧ ∀ cl ∈ w.domains.claims,
        ensureHostClaimable kv ⟨site.project, site.site, none⟩ cl = .ok () := by
  obtain ⟨old, w, hr, _, hn, hc⟩ := setSiteConfigLocked_written hd
  exact ⟨old, w, _, hr, hn, hc⟩

theorem ownedBy_of_claimable (hm : Mirrored formats kv) {c : Claim} (hi : IsIndexKey c.key)
    (hc : ensureHostClaimable kv ⟨site.project, site.site, none⟩ c = .ok ())
    {r : Record Settings} (hs : kv.get? c.key = some r) : ∃ ctx, r = ownedBy site ctx := by
  obtain ⟨h, ctx, rfl, _⟩ := hm.indexed _ hi r hs
  unfold ensureHostClaimable at hc
  rw [hs] at hc
  simp only [ownedBy] at hc
  split at hc
  · next same =>
    simp only [sameOwner, Bool.and_eq_true, decide_eq_true_eq] at same
    exact ⟨ctx, by rw [ownedBy, ownedBy, same.1, same.2]⟩
  · cases hc

theorem ownedBy_of_claimable_all (hm : Mirrored formats kv) (hcl : ∀ c ∈ cfg.domains.claims,
      ensureHostClaimable kv ⟨site.project, site.site, none⟩ c = .ok ()) (key : Text)
    (hi : key ∈ cfg.domains.claimKeys) (r : Record Settings)
    (hs : kv.get? key = some r) : ∃ ctx, r = ownedBy site ctx := by
  obtain ⟨c, hc, rfl⟩ := mem_map.mp hi
  exact ownedBy_of_claimable hm (isIndexKey_of_claim hc) (hcl c hc) hs

theorem Mirrored.setSiteConfigLocked (hm : Mirrored formats kv) {c : Bool}
    (hd : setSiteConfigLocked formats kv site.project site.site cfg c = .ok next)
    (hco : NoCollision formats kv next) : Mirrored formats next := by
  obtain ⟨old, w, contexts, hr, rfl, hc⟩ := setSiteConfigLocked_ok hd
  obtain ⟨_, ha, hcl⟩ := hm.getSiteConfig site
  cases hr.symm.trans ha
  apply hm.configured hcl (ownedBy_of_claimable_all hm hc)
  intro sd hb
  obtain ⟨_, hs, hh⟩ := hm.body _ _ hb
  cases hs
  apply hco _ _ hb (formats.configHash w)
  · rw [get?_configured_body, if_pos rfl]
  · exact hh

theorem Mirrored.attachVerifiedDomain (hm : Mirrored formats kv)
    (hd : attachVerifiedDomain formats kv site.project site.site host = .ok next)
    (hc : NoCollision formats kv next) : Mirrored formats next := by
  obtain ⟨_, _, hd⟩ := bind_eq_ok_iff.mp hd
  obtain ⟨_, _, hd⟩ := bind_eq_ok_iff.mp hd
  exact hm.setSiteConfigLocked hd hc

theorem agree_contexts (kv : Kv Settings) (site : SiteRef) (contexts : SortedMap Text Text) :
    Agree kv (if contexts.entries = [] then kv.erase (siteContextsKey site.project site.site)
      else kv.insert (siteContextsKey site.project site.site) (.contexts contexts)) := by
  intro key hs
  have ha : key ≠ siteContextsKey site.project site.site := by
    rintro rfl
    exact not_isSiteKey_scopedKey (by decide) hs
  split
  · rw [get?_erase, if_neg ha]
  · rw [get?_insert, if_neg ha]

variable (formats) in
theorem removeSiteContext_cases (kv : Kv Settings) (site : SiteRef) (host : Text) :
    (removeSiteContext formats kv site.project site.site host).1 = kv ∨ ∃ u, Agree kv u ∧
        ((removeSiteContext formats kv site.project site.site host).1 = u ∨
          (∃ cfg, setSiteConfigLocked formats u site.project site.site cfg
            false = .ok (removeSiteContext formats kv site.project site.site host).1) ∧
            (removeSiteContext formats kv site.project site.site host).2 = .ok true) := by
  unfold removeSiteContext
  split
  · exact .inl rfl
  next contexts _ =>
  dsimp only
  split
  · exact .inl rfl
  refine .inr ⟨_, agree_contexts kv site (contexts.erase host), ?_⟩
  split
  · exact .inl rfl
  · exact .inl rfl
  split
  · exact .inl rfl
  · next done => exact .inr ⟨⟨_, done⟩, rfl⟩

theorem Mirrored.removeSiteContext (hm : Mirrored formats kv) (hc : NoCollision formats kv
      (removeSiteContext formats kv site.project site.site host).1) :
    Mirrored formats (removeSiteContext formats kv site.project site.site host).1 := by
  obtain hs | ⟨u, ha, hs | ⟨⟨cfg, hd⟩, _⟩⟩ :=
    removeSiteContext_cases formats kv site host
  · rwa [hs]
  · rw [hs]
    exact ha.mirrored hm
  apply (ha.mirrored hm).setSiteConfigLocked hd
  intro h sd hb
  exact hc h sd (ha _ (.body h) ▸ hb)

theorem deleteSite_ok (hd : deleteSite kv site.project site.site = .ok next) :
    ∃ old, ∃ d : List Text, getSiteConfig kv site.project site.site = .ok old ∧
      next = writeBatch kv (d.map .delete) ∧ ∀ key, IsSiteKey key →
        (key ∈ d ↔ key = sitePointerKey site.project site.site ∨
          key ∈ staleKeys old) := by
  obtain ⟨old, hre, hd⟩ := bind_eq_ok_iff.mp hd
  cases hd
  refine ⟨old, _, hre, rfl, ?_⟩
  intro key hsi
  have hu {s : Scope} (ho : s ≠ .site) (rest : Text) :
      key ≠ scopedKey site.project s rest := by
    rintro rfl
    exact not_isSiteKey_scopedKey ho hsi
  have hun {s : Scope} (ho : s ≠ .site) (rest : Text) :
      key ∉ listPrefix kv (scopedKey site.project s rest) := by
    intro hl
    obtain ⟨_, hb⟩ := (mem_listPrefix_iff _ _ _).mp hl
    obtain ⟨m, hsa⟩ := eq_scopedKey_of_isPrefix hb
    exact hu ho _ hsa
  rw [mem_append, mem_append, mem_append, mem_cons]
  constructor
  · rintro ((((hp | hr) | hs) | ha) | hc)
    · exact .inl hp
    · simp only [mem_cons, not_mem_nil, or_false] at hr
      rcases hr with hsa | hsa | hsa | hsa <;> exact absurd hsa (hu (by decide) _)
    · exact .inr hs
    · exact absurd ha (hun (by decide) _)
    · exact absurd hc (hun (by decide) _)
  rintro (hp | hs)
  · exact .inl (.inl (.inl (.inl hp)))
  · exact .inl (.inl (.inr hs))

theorem Mirrored.deleteSite (hm : Mirrored formats kv)
    (hd : deleteSite kv site.project site.site = .ok next) : Mirrored formats next := by
  obtain ⟨old, d, hr, rfl, ht⟩ := deleteSite_ok hd
  obtain ⟨_, ha, hc⟩ := hm.getSiteConfig site
  cases hr.symm.trans ha
  apply hm.deleted
  · intro key hi
    rw [ht key (.index hi), mem_staleKeys_iff hc, or_iff_right]
    exact hi.ne_scopedKey
  · intro h hin
    rcases (ht _ (.body h)).mp hin with hp | hs
    · exact scopedKey_ne_key (by decide) hp.symm
    · exact not_staleKey (fun hi => hi.ne_siteConfigBlobKey rfl) hs
  intro o
  rw [ht _ (.pointer o), sitePointerKey_inj, or_iff_left]
  exact not_staleKey fun hi => hi.ne_scopedKey rfl

theorem not_isSiteKey_domainVerificationKey :
    ¬IsSiteKey (domainVerificationKey site.project site.site host) :=
  not_isSiteKey_scopedKey (by decide)

theorem agree_challenge {r t : KvWrite (Record Settings)} {m : VerificationMethod}
    (hr : ¬IsSiteKey r.key) (ht : ¬IsSiteKey t.key) :
    Agree kv (writeBatch kv (r :: match m with | .http => [t] | .dns => [])) := by
  apply agree_of_writes
  intro w hi
  rcases mem_cons.mp hi with rfl | hi
  · exact hr
  cases m with
  | http =>
    rw [mem_singleton.mp hi]
    exact ht
  | dns => cases hi

theorem agree_putDomainVerification (vf : DomainVerification) :
    Agree kv (putDomainVerification kv site.project site.site vf) :=
  agree_challenge not_isSiteKey_domainVerificationKey not_isSiteKey_httpchallenge

theorem agree_startDomainVerification {t : Text} {m : VerificationMethod} {nu : Nat}
    {res : DomainVerification}
    (hd : startDomainVerification kv site.project site.site host m nu t =
      .ok (next, res)) : Agree kv next := by
  obtain ⟨e, _, hd⟩ := bind_eq_ok_iff.mp hd
  split at hd
  · cases hd
    intro key _
    rfl
  obtain ⟨l, _, hd⟩ := bind_eq_ok_iff.mp hd
  dsimp only at hd
  split at hd
  · cases hd
  · cases hd
    exact agree_putDomainVerification _

theorem agree_markDomainVerified {res : DomainVerification}
    (hd : markDomainVerified kv site.project site.site host = .ok (next, res)) :
    Agree kv next := by
  obtain ⟨sd, _, hd⟩ := bind_eq_ok_iff.mp hd
  split at hd
  · cases hd
  · cases hd
    exact agree_putDomainVerification _

theorem agree_removeDomainVerification {res : Bool}
    (hd : removeDomainVerification kv site.project site.site host = .ok (next, res)) :
    Agree kv next := by
  obtain ⟨sd, _, hd⟩ := bind_eq_ok_iff.mp hd
  split at hd
  · cases hd
    intro key _
    rfl
  · cases hd
    exact agree_challenge not_isSiteKey_domainVerificationKey not_isSiteKey_httpchallenge

end Calls

def bodies (kv : Kv Settings) : List (SiteConfig Settings) :=
  kv.entries.filterMap (fun entry =>
    match entry.2 with
    | .siteConfig config => some config
    | _ => none)

theorem mem_bodies {kv : Kv Settings} {config : SiteConfig Settings}
    (hs : kv.get? key = some (.siteConfig config)) : config ∈ bodies kv :=
  mem_filterMap.mpr ⟨(key, .siteConfig config), (kv.mem_entries_iff _ _).mpr hs, rfl⟩

variable (formats)

/-- A body written by the call has the hash of a stored one only if it is the same. -/
def CollisionFreeConfigs (state : DeployState Settings) (action : SiteAction Settings) : Prop :=
  ∀ stored ∈ bodies state.kv, ∀ config ∈ bodies ((siteMachine formats).step state action).1.kv,
    formats.configHash stored = formats.configHash config → stored = config

instance [DecidableEq Settings] (state : DeployState Settings) (action : SiteAction Settings) :
    Decidable (CollisionFreeConfigs formats state action) :=
  inferInstanceAs (Decidable (∀ stored ∈ _, ∀ config ∈ _, _ → _))

variable {formats}

theorem mirrored_empty : Mirrored formats .empty where
  body _ _ hs := by cases hs
  pointed _ _ hs := by cases hs
  indexed _ _ _ hs := by cases hs
  claimed _ _ hc := by
    obtain ⟨_, hf, _⟩ := hc
    cases hf

theorem commit_mirrored {state : DeployState Settings}
    {written : Except DeployError (Kv Settings)} (hm : Mirrored formats state.kv)
    (hk : written = .ok (state.commit written).1.kv →
      Mirrored formats (state.commit written).1.kv) :
    Mirrored formats (state.commit written).1.kv := by
  cases written with
  | ok next => exact hk rfl
  | error error => exact hm

theorem record_mirrored {Result : Type} {state : DeployState Settings}
    {written : Except DeployError (Kv Settings × Result)} (hm : Mirrored formats state.kv)
    (hk : ∀ next result, written = .ok (next, result) → Agree state.kv next) :
    Mirrored formats (state.record written).1.kv := by
  cases written with
  | ok pair => exact (hk pair.1 pair.2 rfl).mirrored hm
  | error error => exact hm

theorem kv_resolveSiteByHost (host : Text) : (state.resolveSiteByHost host).1.kv = state.kv := by
  unfold DeployState.resolveSiteByHost
  dsimp only
  split <;> rfl

theorem kv_step_removeSiteContext (site : SiteRef) (host : Text) :
    ((siteMachine formats).step state (.removeSiteContext site host)).1.kv =
      (removeSiteContext formats state.kv site.project site.site host).1 := by
  simp only [siteMachine]
  split <;> simp_all [DeployState.bumped]

theorem step_mirrored (state : DeployState Settings) (act : SiteAction Settings)
    (hm : Mirrored formats state.kv) (hc : CollisionFreeConfigs formats state act) :
    Mirrored formats ((siteMachine formats).step state act).1.kv := by
  have ha : NoCollision formats state.kv ((siteMachine formats).step state act).1.kv :=
    fun _ sd hb _ config haf =>
      hc sd (mem_bodies hb) config (mem_bodies haf)
  cases act with
  | setSiteConfig site config | setSiteConfigCooperative site config =>
    apply commit_mirrored hm
    intro hd
    exact hm.setSiteConfigLocked hd ha
  | attachVerifiedDomain site host =>
    apply commit_mirrored hm
    intro hd
    exact hm.attachVerifiedDomain hd ha
  | removeSiteContext site host =>
    rw [kv_step_removeSiteContext] at ha ⊢
    exact hm.removeSiteContext ha
  | deleteSite site =>
    apply commit_mirrored hm
    intro hd
    exact hm.deleteSite hd
  | resolveSiteByHost host =>
    change Mirrored formats (state.resolveSiteByHost host).1.kv
    rw [kv_resolveSiteByHost]
    exact hm
  | startDomainVerification site host m nu t =>
    apply record_mirrored hm
    intro next res hd
    exact agree_startDomainVerification hd
  | markDomainVerified site host =>
    apply record_mirrored hm
    intro next res hd
    exact agree_markDomainVerified hd
  | removeDomainVerification site host =>
    apply record_mirrored hm
    intro next res hd
    exact agree_removeDomainVerification hd

theorem final_mirrored {acts : List (SiteAction Settings)}
    (hc : (siteMachine formats).Meets (CollisionFreeConfigs formats) .new acts) :
    Mirrored formats ((siteMachine formats).final .new acts).kv := by
  have hi : Mirrored formats (DeployState.new : DeployState Settings).kv := mirrored_empty
  exact Machine.invariant step_mirrored hi hc

def ListsHost (kv : Kv Settings) (canonical : Text) (site : SiteRef) : Prop :=
  ∃ config, getSiteConfig kv site.project site.site = .ok (some config) ∧
    ∃ host ∈ config.domains.exactHosts, canonHost host = canonical

def ListsPattern (kv : Kv Settings) (canonical : Text) (site : SiteRef) : Prop :=
  ∃ config, getSiteConfig kv site.project site.site = .ok (some config) ∧
    ∃ suffix, "*.".toList ++ suffix ∈ config.domains.wildcards ∧ canonHost suffix = canonical

def MirrorOf (entry : Option (Record Settings)) (lists : SiteRef → Prop) : Prop :=
  (entry.isSome ↔ ∃ site, lists site) ∧
    (∀ first second, lists first → lists second → first = second) ∧
    ∀ site, lists site →
      ∃ context, entry = some (.owner ⟨site.project, site.site, context⟩)

theorem stripHead_eq_some_iff {head text rest : Text} :
    stripHead head text = some rest ↔ text = head ++ rest := by
  unfold stripHead
  constructor
  · intro hs
    split at hs
    · next starts =>
      obtain ⟨m, rfl⟩ := starts
      simp only [drop_left, Option.some.injEq] at hs
      rw [hs]
    · cases hs
  · rintro rfl
    simp

theorem domain_mem_claimKeys {c : Text} : space.key .domain c ∈ dm.claimKeys ↔
      ∃ host ∈ dm.exactHosts, canonHost host = c := by
  simp only [claimKeys, claims, map_append, map_map,
    mem_append, mem_map, Function.comp, mem_filterMap, Option.map_eq_some_iff,
    domainKey, wildcardKey]
  constructor
  · rintro (⟨host, hl, hs⟩ | ⟨cl, ⟨_, _, s, _, rfl⟩, hs⟩)
    · exact ⟨host, hl, by simpa using hs⟩
    · simp at hs
  · rintro ⟨host, hl, rfl⟩
    exact .inl ⟨host, hl, rfl⟩

theorem wildcard_mem_claimKeys {c : Text} : space.key .wildcard c ∈ dm.claimKeys ↔
      ∃ s, "*.".toList ++ s ∈ dm.wildcards ∧ canonHost s = c := by
  simp only [claimKeys, claims, map_append, map_map,
    mem_append, mem_map, Function.comp, mem_filterMap, Option.map_eq_some_iff,
    domainKey, wildcardKey, stripHead_eq_some_iff]
  constructor
  · rintro (⟨host, hl, hs⟩ | ⟨cl, ⟨w, hl, s, rfl, rfl⟩, hs⟩)
    · simp at hs
    · exact ⟨s, hl, by simpa using hs⟩
  · rintro ⟨s, hl, rfl⟩
    exact .inr ⟨_, ⟨_, hl, s, rfl, rfl⟩, rfl⟩

theorem Mirrored.claims_iff {kv : Kv Settings} (hm : Mirrored formats kv) {site : SiteRef} :
    Claims kv site key ↔
      ∃ config, Deploy.getSiteConfig kv site.project site.site = .ok (some config) ∧
        key ∈ config.domains.claimKeys := by
  obtain ⟨old, hr, hc⟩ := hm.getSiteConfig site
  rw [← mem_staleKeys_iff hc, hr]
  cases old with
  | none => simp [staleKeys]
  | some old => simp [staleKeys, claimKeys]

theorem Mirrored.mirrorOf {kv : Kv Settings} (hm : Mirrored formats kv)
    (hi : IsIndexKey key) : MirrorOf (kv.get? key) (fun site => Claims kv site key) := by
  refine ⟨?_, ?_, fun site => hm.claimed site key⟩
  · constructor
    · intro hp
      obtain ⟨r, hs⟩ := Option.isSome_iff_exists.mp hp
      obtain ⟨site, _, _, hc⟩ := hm.indexed key hi r hs
      exact ⟨site, hc⟩
    rintro ⟨site, hc⟩
    obtain ⟨ctx, hs⟩ := hm.claimed site key hc
    rw [hs]
    rfl
  intro x y one ho
  obtain ⟨_, hs⟩ := hm.claimed x key one
  obtain ⟨_, ha⟩ := hm.claimed y key ho
  exact ownedBy_inj (Option.some.inj (hs.symm.trans ha))

/-- Along every sequence of calls the index mirrors the stored configurations. -/
theorem index_mirrors_configs {actions : List (SiteAction Settings)}
    (collisionFree : (siteMachine formats).Meets (CollisionFreeConfigs formats) .new actions)
    (canonical : Text) :
    MirrorOf (((siteMachine formats).final .new actions).kv.get? (space.key .domain canonical))
        (ListsHost ((siteMachine formats).final .new actions).kv canonical) ∧
      MirrorOf (((siteMachine formats).final .new actions).kv.get? (space.key .wildcard canonical))
        (ListsPattern ((siteMachine formats).final .new actions).kv canonical) := by
  have hmi := final_mirrored collisionFree
  constructor
  · have hm := hmi.mirrorOf (.domain canonical)
    simp only [hmi.claims_iff, domain_mem_claimKeys] at hm
    exact hm
  have hm := hmi.mirrorOf (.wildcard canonical)
  simp only [hmi.claims_iff, wildcard_mem_claimKeys] at hm
  exact hm

namespace TwoOwners

def shop : SiteRef := ⟨⟨"acme".toList, by decide⟩, ⟨"shop".toList, by decide⟩⟩

def blog : SiteRef := ⟨⟨"acme".toList, by decide⟩, ⟨"blog".toList, by decide⟩⟩

def hosting (primary : Option Text) (wildcards : List Text) : SiteConfig Unit :=
  ⟨⟨primary, [], wildcards, .empty⟩, ()⟩

def twoHashes : Formats Unit where
  configHash config :=
    if config.domains.wildcards = [] then
      "5f70bf18a086007016e948b04aed3b82103a36bea41755b6cddfaf10ace3c6ef".toList
    else "8d969eef6ecad3c29a3a629280e686cf0c3f5d5a86aff3ca12020c923adc6c92".toList
  manifestId _ := []
  standard := ()
  validateGateway _ := .ok ()

def calls : List (SiteAction Unit) :=
  [.setSiteConfig shop (hosting (some "Example.com.".toList) []),
    .setSiteConfig blog (hosting (some "example.com".toList) ["*.example.com".toList]),
    .setSiteConfig blog (hosting none ["*.example.com".toList])]

theorem mirrored_after_refusal : MirrorOf (((siteMachine twoHashes).final .new calls).kv.get?
        (space.key .domain "example.com".toList))
      (ListsHost ((siteMachine twoHashes).final .new calls).kv "example.com".toList) ∧ MirrorOf
      (((siteMachine twoHashes).final .new calls).kv.get?
        (space.key .wildcard "example.com".toList))
      (ListsPattern ((siteMachine twoHashes).final .new calls).kv "example.com".toList) := by
  apply index_mirrors_configs
  decide +kernel

end TwoOwners

end BoatRamp.Deploy
