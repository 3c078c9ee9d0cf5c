import BoatRamp.Deploy.Hosts
import BoatRamp.Deploy.Ownership

/-!
# Attached hosts and applied configurations

A configuration that is applied as a whole keeps those aliases of the stored
one whose hosts are verified.  A host that was attached as the primary or as a
pattern is not among them.
-/

namespace BoatRamp.Deploy

open Library List

variable {Settings : Type} {formats : Formats Settings} {kv next : Kv Settings} {site : SiteRef}
  {host : Text} {config written : SiteConfig Settings}

/-- The site has another primary, and the host is verified under the name it is stored by. -/
structure TakenAsAlias (kv : Kv Settings) (site : SiteRef) (host : Text) : Prop where
  exact : stripHead "*.".toList host = none
  primary : ∃ config primary, getSiteConfig kv site.project site.site = .ok (some config) ∧
    config.domains.primary = some primary ∧ primary ≠ canonHost host
  spelling : normalizeHost (canonHost host) = normalizeHost host

structure KeptAlias (kv : Kv Settings) (site : SiteRef) (host : Text) : Prop where
  listed : ∃ config, getSiteConfig kv site.project site.site = .ok (some config) ∧
    host ∈ config.domains.aliases
  verified : isDomainVerified kv site.project site.site host = .ok true
  indexed : ∃ context, kv.get? (domainKey host) = some (ownedBy site context)

theorem mem_keepVerifiedAliases {a sd k : List Text}
    (hk : keepVerifiedAliases kv site.project site.site a sd = .ok k) (hm : host ∈ a ∨
      host ∈ sd ∧ isDomainVerified kv site.project site.site host = .ok true) :
    host ∈ k := by
  induction sd generalizing a with
  | nil =>
    cases hk
    rcases hm with hm | ⟨hm, _⟩
    · exact hm
    · cases hm
  | cons x rest ih =>
    unfold keepVerifiedAliases at hk
    split at hk
    · next hx =>
      apply ih hk
      rcases hm with hm | ⟨hm, hv⟩
      · exact .inl hm
      rcases mem_cons.mp hm with rfl | hm
      · exact .inl hx
      · exact .inr ⟨hm, hv⟩
    obtain ⟨v, hx, hk⟩ := bind_eq_ok_iff.mp hk
    apply ih hk
    rcases hm with hm | ⟨hm, hv⟩
    · left
      split
      · exact mem_append_left _ hm
      · exact hm
    rcases mem_cons.mp hm with rfl | hm
    · cases hv.symm.trans hx
      exact .inl (mem_append_right _ (mem_singleton_self _))
    · exact .inr ⟨hm, hv⟩

theorem mem_attach {d : DomainConfig} {p : Text}
    (hs : stripHead "*.".toList host = none) (hp : d.primary = some p)
    (hd : p ≠ canonHost host) : canonHost host ∈ (d.attach host).aliases := by
  unfold DomainConfig.attach
  rw [hs]
  dsimp only
  rw [hp]
  dsimp only
  split
  · exact mem_append_right _ (mem_singleton_self _)
  · next hn => exact not_not.mp fun hm => hn ⟨hd, hm⟩

theorem getSiteConfig_configured (old : Option (SiteConfig Settings)) (c : SortedMap Text Text) :
    ∃ r, getSiteConfig (configured formats kv site old written c) site.project
        site.site = .ok (some r) ∧ r.domains.aliases = written.domains.aliases := by
  unfold getSiteConfig
  rw [get?_configured_pointer, if_pos rfl]
  dsimp only
  rw [get?_configured_body, if_pos rfl]
  exact ⟨_, rfl, rfl⟩

theorem isDomainVerified_congr {o : Text}
    (hs : next.get? (recordKey site o) = kv.get? (recordKey site host)) :
    isDomainVerified next site.project site.site o =
      isDomainVerified kv site.project site.site host := by
  unfold isDomainVerified getDomainVerification
  unfold recordKey at hs
  rw [hs]

theorem keptAlias_of_written {c : Bool}
    (hd : setSiteConfigLocked formats kv site.project site.site config c = .ok next)
    (hv : isDomainVerified kv site.project site.site host = .ok true)
    (hm : ∀ old written, getSiteConfig kv site.project site.site = .ok old →
      effectiveConfig kv site.project site.site old config c = .ok written →
      host ∈ written.domains.aliases) : KeptAlias next site host := by
  have hn := get?_setSiteConfigLocked (o := host) hd
  obtain ⟨old, written, hr, hw, rfl, -⟩ := setSiteConfigLocked_written hd
  have ha := hm old written hr hw
  obtain ⟨r, hg, hs⟩ :=
    @getSiteConfig_configured _ formats kv site written old (effectiveContexts old config)
  have hc : domainKey host ∈ written.domains.claimKeys := by
    refine mem_map.mpr ⟨⟨domainKey host, host, true⟩, mem_append_left _ ?_, rfl⟩
    exact mem_map.mpr ⟨host, mem_append_right _ ha, rfl⟩
  exact ⟨⟨r, hg, hs ▸ ha⟩, (isDomainVerified_congr hn).trans hv, get?_configured_claimed hc⟩

theorem KeptAlias.applied (hk : KeptAlias kv site host)
    (hd : setSiteConfigLocked formats kv site.project site.site config true = .ok next) :
    KeptAlias next site host := by
  apply keptAlias_of_written hd hk.verified
  intro old written hr hw
  obtain ⟨config, hg, hm⟩ := hk.listed
  cases hr.symm.trans hg
  obtain ⟨k, hs, hw⟩ := bind_eq_ok_iff.mp hw
  cases hw
  exact mem_keepVerifiedAliases hs (.inr ⟨hm, hk.verified⟩)

theorem TakenAsAlias.attached (ht : TakenAsAlias kv site host)
    (hd : attachVerifiedDomain formats kv site.project site.site host = .ok next) :
    KeptAlias next site (canonHost host) := by
  obtain ⟨_, hv, hd⟩ := bind_eq_ok_iff.mp hd
  obtain ⟨v, hi, hv⟩ := bind_eq_ok_iff.mp hv
  obtain ⟨sd, hr, hd⟩ := bind_eq_ok_iff.mp hd
  obtain ⟨config, p, hg, hp, hn⟩ := ht.primary
  cases hr.symm.trans hg
  have hs : recordKey site (canonHost host) = recordKey site host := by
    rw [recordKey, recordKey, domainVerificationKey, domainVerificationKey, ht.spelling]
  cases v with
  | false => cases hv
  | true =>
    apply keptAlias_of_written hd
    · rw [isDomainVerified_congr (congrArg kv.get? hs)]
      exact hi
    intro old written _ hw
    obtain ⟨a, ha, hw⟩ := bind_eq_ok_iff.mp hw
    cases hw
    cases ha
    exact mem_attach ht.exact hp hn

inductive Applies (site : SiteRef) : SiteAction Settings → Prop
  | apply (config : SiteConfig Settings) : Applies site (.setSiteConfigCooperative site config)
  | resolve (host : Text) : Applies site (.resolveSiteByHost host)

variable (formats) in
theorem step_keptAlias {state : DeployState Settings} {action : SiteAction Settings}
    (hk : KeptAlias state.kv site host) (ha : Applies site action) :
    KeptAlias ((siteMachine formats).step state action).1.kv site host := by
  cases ha with
  | apply config =>
    simp only [siteMachine]
    cases hd : setSiteConfigLocked formats state.kv site.project site.site config true with
    | ok next => exact hk.applied hd
    | error error => exact hk
  | resolve other =>
    rw [show ((siteMachine formats).step state (.resolveSiteByHost other)).1.kv = state.kv from
      kv_resolveSiteByHost state other]
    exact hk

/-- A host that was attached beside another primary leads to its site whatever the site applies. -/
theorem attached_alias_survives {actions later : List (SiteAction Settings)}
    (taken : TakenAsAlias ((siteMachine formats).final .new actions).kv site host)
    (attached : ((siteMachine formats).step ((siteMachine formats).final .new actions)
      (.attachVerifiedDomain site host)).2 = .done (.ok ()))
    (applies : ∀ action ∈ later, Applies site action) :
    ∃ context, (((siteMachine formats).final .new
        (actions ++ .attachVerifiedDomain site host :: later)).resolveSiteByHost host).2 =
      some ⟨site.project, site.site, context⟩ := by
  rw [(final_coherent _).resolved, Machine.final_append, Machine.final_cons]
  generalize (siteMachine formats).final .new actions = state at taken attached ⊢
  have hk : KeptAlias ((siteMachine formats).step state (.attachVerifiedDomain site host)).1.kv site
      (canonHost host) := by
    simp only [siteMachine] at attached ⊢
    cases hd : attachVerifiedDomain formats state.kv site.project site.site host with
    | ok next => exact taken.attached hd
    | error error =>
      rw [hd] at attached
      cases attached
  have hs (s : DeployState Settings) (action : SiteAction Settings)
      (hk : KeptAlias s.kv site (canonHost host)) (ha : Applies site action) :=
    step_keptAlias formats hk ha
  obtain ⟨context, hi⟩ :=
    (Machine.invariant hs hk ((siteMachine formats).meets_of_forall _ applies)).indexed
  refine ⟨context, ?_⟩
  rw [resolveSiteByHostUncached, hostKeys, List.findSome?_cons, hi]
  rfl

namespace Omitted

open TwoOwners (shop hosting twoHashes)

open CarvedOut (leadsTo)

def verified (host : Text) : List (SiteAction Unit) :=
  [.startDomainVerification shop host .dns 1 "token".toList, .markDomainVerified shop host]

def attaching (host : Text) : List (SiteAction Unit) :=
  verified host ++ [.attachVerifiedDomain shop host]

def applied : SiteAction Unit :=
  .setSiteConfigCooperative shop (hosting none ["*.example.com".toList])

/-- The first host of a site and a pattern: both are attached, verified and then gone. -/
theorem attached_host_lost :
    (leadsTo (attaching "example.org".toList) "example.org".toList).isSome = true ∧
      leadsTo (attaching "example.org".toList ++ [applied]) "example.org".toList = none ∧
      (leadsTo (attaching "*.example.org".toList) "www.example.org".toList).isSome = true ∧
      leadsTo (attaching "*.example.org".toList ++ [applied]) "www.example.org".toList = none := by
  decide +kernel

def owned : List (SiteAction Unit) :=
  .setSiteConfig shop (hosting (some "example.com".toList) []) :: verified "example.org".toList

theorem second_host_survives : ∃ context, leadsTo
      (owned ++ [.attachVerifiedDomain shop "example.org".toList, applied]) "example.org".toList =
    some ⟨"acme".toList, "shop".toList, context⟩ := by
  apply attached_alias_survives
  · refine ⟨by decide, ⟨hosting (some "example.com".toList) [], "example.com".toList, ?_⟩, ?_⟩
    · decide +kernel
    · decide
  · decide +kernel
  · intro act hm
    rw [List.mem_singleton.mp hm]
    exact .apply _

end Omitted

end BoatRamp.Deploy
