import BoatRamp.Deploy.Index
import BoatRamp.Library.FirstMatch

/-!
# Which site a host leads to

A host is looked up exactly, then by its suffixes from the longest on.  What is
remembered of earlier lookups is what the index says now.  A site that writes
its configuration can change where a host leads only by listing it under a key
that comes before the one that was hit.
-/

namespace BoatRamp.Deploy

open Library

variable {Settings : Type} {formats : Formats Settings}

theorem isIndexKey_of_mem_parentKeys {fuel : Nat} {host key : Text}
    (hi : key ∈ parentKeys fuel host) : IsIndexKey key := by
  induction fuel generalizing host with
  | zero => cases hi
  | succ fuel ih =>
    unfold parentKeys at hi
    split at hi
    · cases hi
    rcases List.mem_cons.mp hi with rfl | hl
    · exact .wildcard _
    · exact ih hl

theorem isIndexKey_of_mem_hostKeys {host key : Text} (hi : key ∈ hostKeys host) :
    IsIndexKey key := by
  rcases List.mem_cons.mp hi with rfl | hp
  · exact .domain _
  · exact isIndexKey_of_mem_parentKeys hp

theorem Agree.resolveSiteByHostUncached {x y : Kv Settings} (ha : Agree x y) (host : Text) :
    resolveSiteByHostUncached y host = resolveSiteByHostUncached x host := by
  apply findSome?_congr
  intro key hi
  rw [ha key (.index (isIndexKey_of_mem_hostKeys hi))]

/-- Resolutions of the present generation are those of the present index. -/
structure Coherent (state : DeployState Settings) : Prop where
  behind : state.cacheEpoch ≤ state.domainEpoch
  fresh : state.cacheEpoch = state.domainEpoch → ∀ host owner, state.cache.get? host = some owner →
    owner = resolveSiteByHostUncached state.kv host

section Coherence

variable {s : DeployState Settings}

section Coherent

variable (hch : Coherent s)

include hch

theorem Coherent.bumped (kv : Kv Settings) : Coherent (s.bumped kv) where
  behind := Nat.le_succ_of_le hch.behind
  fresh hs := by
    have hb := hch.behind
    change s.cacheEpoch = s.domainEpoch + 1 at hs
    omega

theorem Coherent.agree {kv : Kv Settings} (ha : Agree s.kv kv) : Coherent { s with kv } where
  behind := hch.behind
  fresh hs host o hr := by
    rw [ha.resolveSiteByHostUncached]
    exact hch.fresh hs host o hr

theorem Coherent.resolved (host : Text) :
    (s.resolveSiteByHost host).2 = resolveSiteByHostUncached s.kv (canonHost host) := by
  unfold DeployState.resolveSiteByHost
  dsimp only
  split
  · next o hit =>
    split at hit
    · next same => exact hch.fresh same _ _ hit
    · cases hit
  · rfl

theorem Coherent.resolveSiteByHost (host : Text) : Coherent (s.resolveSiteByHost host).1 := by
  unfold DeployState.resolveSiteByHost
  dsimp only
  split
  · exact hch
  refine ⟨Nat.le_refl _, ?_⟩
  intro _ o ow hr
  rw [SortedMap.get?_insert] at hr
  split at hr
  · next same =>
    cases hr
    rw [same]
  -- whatever is left of the old resolutions is of the present generation
  have hk : s.cacheEpoch = s.domainEpoch ∧ s.cache.get? o = some ow := by
    by_cases hc : s.cacheEpoch = s.domainEpoch
    · rw [if_pos hc] at hr
      split at hr
      · cases hr
      · exact ⟨hc, hr⟩
    · rw [if_neg hc, ite_self] at hr
      cases hr
  exact hch.fresh hk.1 o ow hk.2

theorem Coherent.commit (written : Except DeployError (Kv Settings)) :
    Coherent (s.commit written).1 := by
  cases written with
  | ok kv => exact hch.bumped kv
  | error error => exact hch

theorem Coherent.record {Result : Type} {written : Except DeployError (Kv Settings × Result)}
    (hk : ∀ next result, written = .ok (next, result) → Agree s.kv next) :
    Coherent (s.record written).1 := by
  cases written with
  | ok pair => exact hch.agree (hk pair.1 pair.2 rfl)
  | error error => exact hch

end Coherent

theorem agree_removeSiteContext {kv : Kv Settings} {site : SiteRef} {host : Text}
    (hu : (removeSiteContext formats kv site.project site.site host).2 ≠ .ok true) :
    Agree kv (removeSiteContext formats kv site.project site.site host).1 := by
  obtain hs | ⟨u, ha, hs | ⟨_, hd⟩⟩ := removeSiteContext_cases formats kv site host
  · rw [hs]
    exact fun _ _ => rfl
  · rw [hs]
    exact ha
  · exact absurd hd hu

theorem Coherent.unbind (hc : Coherent s) (site : SiteRef) (host : Text) :
    Coherent ((siteMachine formats).step s (.removeSiteContext site host)).1 := by
  have hf := @agree_removeSiteContext _ formats s.kv site host
  simp only [siteMachine]
  split
  · exact hc.bumped _
  · next same =>
    rw [same] at hf
    exact hc.agree (hf (by simp))
  next same =>
  rw [same] at hf
  exact hc.agree (hf (by simp))

end Coherence

theorem step_coherent (sta : DeployState Settings) (act : SiteAction Settings)
    (hc : Coherent sta) : Coherent ((siteMachine formats).step sta act).1 := by
  cases act with
  | setSiteConfig site config | setSiteConfigCooperative site config | deleteSite site =>
    exact hc.commit _
  | attachVerifiedDomain site host => exact hc.commit _
  | removeSiteContext site host => exact hc.unbind site host
  | resolveSiteByHost host => exact hc.resolveSiteByHost host
  | startDomainVerification site host m nu t =>
    exact hc.record fun _ _ hd => agree_startDomainVerification hd
  | markDomainVerified site host =>
    exact hc.record fun _ _ hd => agree_markDomainVerified hd
  | removeDomainVerification site host =>
    exact hc.record fun _ _ hd => agree_removeDomainVerification hd

theorem final_coherent (acts : List (SiteAction Settings)) :
    Coherent ((siteMachine formats).final .new acts) := by
  have hi : Coherent (DeployState.new : DeployState Settings) := by
    refine ⟨Nat.le_refl _, ?_⟩
    intro _ host o hr
    cases hr
  exact Machine.invariant_always step_coherent hi acts

def SiteAction.configures : SiteAction Settings → Option SiteRef
  | .setSiteConfig site _ => some site
  | .setSiteConfigCooperative site _ => some site
  | .attachVerifiedDomain site _ => some site
  | _ => none

theorem step_configures {state : DeployState Settings} {action : SiteAction Settings}
    {site : SiteRef} (hc : action.configures = some site)
    (hs : ((siteMachine formats).step state action).2 = .done (.ok ())) : ∃ old written contexts,
      getSiteConfig state.kv site.project site.site = .ok old ∧
      ((siteMachine formats).step state action).1.kv =
        configured formats state.kv site old written contexts ∧ ∀ claim ∈ written.domains.claims,
        ensureHostClaimable state.kv ⟨site.project, site.site, none⟩ claim = .ok () := by
  have hco {result : Except DeployError (Kv Settings)}
      (hd : (state.commit result).2 = .done (.ok ())) :
      result = .ok (state.commit result).1.kv := by
    cases result with
    | ok kv => rfl
    | error error => cases hd
  cases action with
  | setSiteConfig owner config | setSiteConfigCooperative owner config =>
    cases hc
    exact setSiteConfigLocked_ok (hco hs)
  | attachVerifiedDomain owner host =>
    cases hc
    obtain ⟨_, _, hd⟩ := bind_eq_ok_iff.mp (hco hs)
    obtain ⟨_, _, hd⟩ := bind_eq_ok_iff.mp hd
    exact setSiteConfigLocked_ok hd
  | removeSiteContext owner host | deleteSite owner | resolveSiteByHost host => cases hc
  | startDomainVerification owner host method nowUnix token | markDomainVerified owner host =>
    cases hc
  | removeDomainVerification owner host => cases hc

def entryOwner (kv : Kv Settings) (key : Text) : Option DomainOwner :=
  (kv.get? key).bind Record.owner?

theorem entryOwner_ownedBy {kv : Kv Settings} {key : Text} {site : SiteRef}
    {ctx : Option Text} (hs : kv.get? key = some (ownedBy site ctx)) :
    entryOwner kv key = some ⟨site.project, site.site, ctx⟩ := by
  rw [entryOwner, hs]
  rfl

section Writing

variable {kv : Kv Settings} {site : SiteRef} {old : Option (SiteConfig Settings)}
  {config : SiteConfig Settings} {c : SortedMap Text Text} {key host : Text}

theorem Mirrored.get?_of_entryOwner_none (hm : Mirrored formats kv) (hi : IsIndexKey key)
    (ha : entryOwner kv key = none) : kv.get? key = none := by
  cases hs : kv.get? key with
  | none => rfl
  | some r =>
    obtain ⟨h, ctx, rfl, _⟩ := hm.indexed key hi r hs
    rw [entryOwner_ownedBy hs] at ha
    cases ha

theorem entryOwner_configured_other (hm : Mirrored formats kv)
    (hr : old.map (fun old => old.domains.claims) =
      (storedConfig kv site).map fun config => config.domains.claims)
    (hc : ∀ key ∈ config.domains.claimKeys, ∀ r, kv.get? key = some r → ∃ ctx, r = ownedBy site ctx)
    (hi : IsIndexKey key) {o : DomainOwner} (he : entryOwner kv key = some o)
    (ho : o.project ≠ site.project.text ∨ o.site ≠ site.site.text) :
    entryOwner (configured formats kv site old config c) key = some o := by
  obtain ⟨r, hs, hh⟩ := Option.bind_eq_some_iff.mp he
  obtain ⟨h, ctx, rfl, hcl⟩ := hm.indexed key hi r hs
  cases hh
  have hd : h ≠ site := by
    rintro rfl
    simp at ho
  exact entryOwner_ownedBy (get?_configured_other hm hr hc hi hd hs)

theorem entryOwner_configured_unclaimed (hi : IsIndexKey key) (hf : kv.get? key = none)
    (hu : key ∉ config.domains.claimKeys) :
    entryOwner (configured formats kv site old config c) key = none := by
  rw [entryOwner, get?_configured_index hi hu, hf, ite_self]
  rfl

instance (kv : Kv Settings) (site : SiteRef) (key : Text) : Decidable (Claims kv site key) :=
  decidable_of_iff (∃ config ∈ (storedConfig kv site).toList, key ∈ config.domains.claimKeys)
    (by simp [Claims])

theorem claims_configured : Claims (configured formats kv site old config c) site key ↔
      key ∈ config.domains.claimKeys := by
  have hs : storedConfig (configured formats kv site old config c) site =
      some config := by
    rw [storedConfig_eq_some_iff]
    exact ⟨formats.configHash config, by rw [get?_configured_pointer, if_pos rfl],
      by rw [get?_configured_body, if_pos rfl]⟩
  simp [Claims, hs]

def missedKeys (kv : Kv Settings) (host : Text) : List Text :=
  missed (entryOwner kv) (hostKeys host)

theorem Mirrored.free_of_missed (hm : Mirrored formats kv) (ht : key ∈ missedKeys kv host) :
    IsIndexKey key ∧ kv.get? key = none := by
  unfold missedKeys missed at ht
  have hi := isIndexKey_of_mem_hostKeys (List.takeWhile_subset _ ht)
  have ha : (entryOwner kv key).isNone :=
    List.mem_takeWhile_imp (p := fun key => (entryOwner kv key).isNone) ht
  exact ⟨hi, hm.get?_of_entryOwner_none hi (Option.isNone_iff_eq_none.mp ha)⟩

theorem Mirrored.missedKeys_of_exact (hm : Mirrored formats kv)
    (exact : (kv.get? (domainKey host)).isSome) : missedKeys kv host = [] := by
  obtain ⟨r, hs⟩ := Option.isSome_iff_exists.mp exact
  obtain ⟨h, ctx, rfl, _⟩ := hm.indexed _ (.domain _) r hs
  exact missed_cons_some (entryOwner_ownedBy hs)

theorem resolve_configured_stays (hm : Mirrored formats kv)
    (hr : old.map (fun old => old.domains.claims) =
      (storedConfig kv site).map fun config => config.domains.claims)
    (hc : ∀ key ∈ config.domains.claimKeys, ∀ record, kv.get? key = some record →
      ∃ context, record = ownedBy site context) {o : DomainOwner}
    (hl : resolveSiteByHostUncached kv host = some o)
    (ho : o.project ≠ site.project.text ∨ o.site ≠ site.site.text)
    (hu : ∀ key ∈ missedKeys kv host, key ∉ config.domains.claimKeys) :
    resolveSiteByHostUncached (configured formats kv site old config c) host = some o := by
  have hk : ∀ key ∈ hostKeys host, entryOwner kv key = some o →
      entryOwner (configured formats kv site old config c) key = some o := by
    intro key hin he
    exact entryOwner_configured_other hm hr hc (isIndexKey_of_mem_hostKeys hin) he ho
  apply findSome?_of_missed hl hk
  intro key ht
  obtain ⟨hi, hf⟩ := hm.free_of_missed ht
  exact entryOwner_configured_unclaimed hi hf (hu key ht)

theorem resolve_configured_moves (hm : Mirrored formats kv) (ht : key ∈ missedKeys kv host)
    (hc : key ∈ config.domains.claimKeys) :
    ∃ ctx, resolveSiteByHostUncached (configured formats kv site old config c) host =
      some ⟨site.project, site.site, ctx⟩ := by
  have hta {key : Text} (hc : key ∈ config.domains.claimKeys) :
      ∃ ctx, entryOwner (configured formats kv site old config c) key =
        some ⟨site.project, site.site, ctx⟩ := by
    obtain ⟨ctx, hs⟩ := get?_configured_claimed hc
    exact ⟨ctx, entryOwner_ownedBy hs⟩
  have ho : ∀ key ∈ missedKeys kv host, ∀ o,
      entryOwner (configured formats kv site old config c) key = some o →
      ∃ ctx, o = ⟨site.project, site.site, ctx⟩ := by
    intro key ht o he
    obtain ⟨hin, hfr⟩ := hm.free_of_missed ht
    by_cases hi : key ∈ config.domains.claimKeys
    · obtain ⟨ctx, hw⟩ := hta hi
      exact ⟨ctx, Option.some.inj (he.symm.trans hw)⟩
    · rw [entryOwner_configured_unclaimed hin hfr hi] at he
      cases he
  have hp : (entryOwner (configured formats kv site old config c) key).isSome := by
    obtain ⟨ctx, hw⟩ := hta hc
    rw [hw]
    rfl
  obtain ⟨o, hf, ctx, rfl⟩ := findSome?_of_match ht hp ho
  exact ⟨ctx, hf⟩

end Writing

/-- A configuration that another site writes moves a host exactly if it claims one of the keys
under which the host was looked up in vain; a host with an entry of its own never moves. -/
theorem host_moves_only_under_wildcard {actions : List (SiteAction Settings)}
    (collisionFree : (siteMachine formats).Meets (CollisionFreeConfigs formats) .new actions)
    {host : Text} {owner : DomainOwner}
    (live : (((siteMachine formats).final .new actions).resolveSiteByHost host).2 = some owner)
    {call : SiteAction Settings} {site : SiteRef} (configures : call.configures = some site)
    (other : owner.project ≠ site.project.text ∨ owner.site ≠ site.site.text)
    (succeeded : ((siteMachine formats).step ((siteMachine formats).final .new actions) call).2 =
      .done (.ok ())) :
    let state := (siteMachine formats).final .new actions
    let af := ((siteMachine formats).step state call).1
    ((∀ key ∈ missedKeys state.kv (canonHost host), ¬Claims af.kv site key) →
        (af.resolveSiteByHost host).2 = some owner) ∧
      ((∃ key ∈ missedKeys state.kv (canonHost host), Claims af.kv site key) →
        ∃ ctx, (af.resolveSiteByHost host).2 = some ⟨site.project, site.site, ctx⟩) ∧
      ((state.kv.get? (domainKey (canonHost host))).isSome →
        (af.resolveSiteByHost host).2 = some owner) := by
  intro state af
  have hm : Mirrored formats state.kv := final_mirrored collisionFree
  have hco : Coherent state := final_coherent actions
  have next : Coherent af := step_coherent state call hco
  rw [hco.resolved] at live
  rw [next.resolved]
  obtain ⟨old, w, cn, read, hs, hc⟩ := step_configures configures succeeded
  obtain ⟨_, ha, claims⟩ := hm.getSiteConfig site
  cases read.symm.trans ha
  change af.kv = _ at hs
  simp only [hs, claims_configured]
  have hst (hu : ∀ key ∈ missedKeys state.kv (canonHost host), key ∉ w.domains.claimKeys) :
      resolveSiteByHostUncached (configured formats state.kv site old w cn)
        (canonHost host) = some owner :=
    resolve_configured_stays hm claims (ownedBy_of_claimable_all hm hc) live other hu
  refine ⟨hst, ?_, ?_⟩
  · rintro ⟨key, ht, hcl⟩
    exact resolve_configured_moves hm ht hcl
  intro exact
  apply hst
  rw [hm.missedKeys_of_exact exact]
  intro key ht
  cases ht

namespace CarvedOut

open TwoOwners (shop hosting twoHashes)

def vip : SiteRef := ⟨⟨"other".toList, by decide⟩, ⟨"vip".toList, by decide⟩⟩

def pattern : List (SiteAction Unit) :=
  [.setSiteConfig shop (hosting none ["*.example.com".toList])]

def attached : SiteAction Unit := .setSiteConfig vip (hosting (some "vip.example.com".toList) [])

def leadsTo (actions : List (SiteAction Unit)) (host : Text) : Option DomainOwner :=
  (((siteMachine twoHashes).final .new actions).resolveSiteByHost host).2

theorem tenant_host_moves :
    leadsTo pattern "vip.example.com".toList = some ⟨"acme".toList, "shop".toList, none⟩ ∧
      ((siteMachine twoHashes).step ((siteMachine twoHashes).final .new pattern) attached).2 =
        .done (.ok ()) ∧ leadsTo (pattern ++ [attached]) "vip.example.com".toList =
        some ⟨"other".toList, "vip".toList, none⟩ := by
  decide +kernel

theorem neighbour_stays : leadsTo (pattern ++ [attached]) "tenant7.example.com".toList =
      some ⟨"acme".toList, "shop".toList, none⟩ := by
  have hc : (siteMachine twoHashes).Meets (CollisionFreeConfigs twoHashes) .new pattern := by
    decide +kernel
  have hl : leadsTo pattern "tenant7.example.com".toList =
      some ⟨"acme".toList, "shop".toList, none⟩ := by
    decide +kernel
  have hs : ((siteMachine twoHashes).step ((siteMachine twoHashes).final .new pattern)
      attached).2 = .done (.ok ()) := by
    decide +kernel
  apply (host_moves_only_under_wildcard hc hl rfl (by decide) hs).1
  decide +kernel

end CarvedOut

end BoatRamp.Deploy
