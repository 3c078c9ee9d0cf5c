import BoatRamp.Deploy.Verification
import BoatRamp.Library.Machine

/-!
# Sites and their hosts

The calls that write the configuration of a site and with it the index of
hosts, and the resolution of a host.  Each call holds the claim lock, so they
follow one another.
-/

namespace BoatRamp.Deploy

open Library

variable {Settings : Type}

variable (kv : Kv Settings) (project site : Text)

def getSiteContexts : Option (SortedMap Text Text) :=
  (kv.get? (siteContextsKey project site)).map (fun record =>
    match record with
    | .contexts contexts => contexts
    | _ => .empty)

def getSiteConfig :
    Except DeployError (Option (SiteConfig Settings)) :=
  match kv.get? (sitePointerKey project site) with
  | none => .ok none
  | some (.text hash) =>
      match kv.get? (siteConfigBlobKey hash) with
      | none => .ok none
      | some (.siteConfig config) =>
          let contexts := (getSiteContexts kv project site).getD config.domains.contexts
          .ok (some { config with domains := { config.domains with contexts } })
      | some _ => .error .serde
  | some _ => .error .serde

/-- An entry of the index that a configuration asks for, under the host as it is written. -/
structure Claim where
  key : Text
  label : Text
  exact : Bool

def DomainConfig.claims (domains : DomainConfig) : List Claim :=
  domains.exactHosts.map (fun host => ⟨domainKey host, host, true⟩) ++
    domains.wildcards.filterMap fun wildcard =>
      (stripHead "*.".toList wildcard).map fun suffix => ⟨wildcardKey suffix, wildcard, false⟩

def ensureHostClaimable (owner : DomainOwner) (claim : Claim) :
    Except DeployError Unit :=
  match kv.get? claim.key with
  | none => .ok ()
  | some (.owner held) =>
      if held.sameOwner owner then .ok ()
      else .error (.conflict (claim.label ++ " is already attached to site `".toList ++ held.site ++
        "` in project `".toList ++ held.project ++ "`".toList))
  | some _ => .error .serde

def DomainOwner.forClaim (owner : DomainOwner) (domains : DomainConfig)
    (contexts : SortedMap Text Text) (claim : Claim) : DomainOwner :=
  let context := contexts.get? claim.label <|>
    (if claim.exact then domains.primary.bind contexts.get? else none)
  match context with
  | some tag => owner.withContext tag
  | none => owner

def keepVerifiedAliases (kv : Kv Settings) (project site : Text) (aliases : List Text) :
    List Text → Except DeployError (List Text)
  | [] => .ok aliases
  | host :: rest => do
      if host ∈ aliases then keepVerifiedAliases kv project site aliases rest
      else
        let verified ← isDomainVerified kv project site host
        keepVerifiedAliases kv project site (if verified then aliases ++ [host] else aliases) rest

/-- The contexts that are stored, with those of the incoming configuration over them. -/
def effectiveContexts (old : Option (SiteConfig Settings)) (config : SiteConfig Settings) :
    SortedMap Text Text :=
  config.domains.contexts.entries.foldl (fun contexts entry => contexts.insert entry.1 entry.2)
    ((old.map fun old => old.domains.contexts).getD .empty)

def effectiveConfig (old : Option (SiteConfig Settings))
    (config : SiteConfig Settings) (cooperative : Bool) :
    Except DeployError (SiteConfig Settings) := do
  let aliases ←
    match cooperative, old with
    | true, some old =>
        keepVerifiedAliases kv project site config.domains.aliases old.domains.aliases
    | _, _ => .ok config.domains.aliases
  return { config with domains := { config.domains with aliases, contexts := .empty } }

section Writes

variable (formats : Formats Settings)

def siteConfigOps (project site : Text) (old : Option (SiteConfig Settings))
    (config : SiteConfig Settings) (contexts : SortedMap Text Text) :
    List (KvWrite (Record Settings)) :=
  let owner : DomainOwner := ⟨project, site, none⟩
  let hash := formats.configHash config
  let stale := (old.map fun old => old.domains.claims).getD []
  stale.map (fun claim => .delete claim.key) ++
    [.put (siteConfigBlobKey hash) (.siteConfig config),
      .put (sitePointerKey project site) (.text hash),
      if contexts.entries = [] then .delete (siteContextsKey project site)
      else .put (siteContextsKey project site) (.contexts contexts)] ++
    config.domains.claims.map fun claim =>
      .put claim.key (.owner (owner.forClaim config.domains contexts claim))

variable (kv : Kv Settings)

def setSiteConfigLocked (project site : Text) (config : SiteConfig Settings)
    (cooperative : Bool) : Except DeployError (Kv Settings) := do
  (formats.validateGateway config.settings).mapError fun message =>
    .invalid ("gateway: ".toList ++ message)
  let old ← getSiteConfig kv project site
  let contexts := effectiveContexts old config
  let config ← effectiveConfig kv project site old config cooperative
  config.domains.claims.forM (ensureHostClaimable kv ⟨project, site, none⟩)
  return writeBatch kv (siteConfigOps formats project site old config contexts)

def DomainConfig.attach (domains : DomainConfig) (host : Text) : DomainConfig :=
  match stripHead "*.".toList host with
  | some suffix =>
      let wildcard := "*.".toList ++
        toAsciiLowercase (trimEnd (fun letter => letter = '.') suffix)
      if wildcard ∈ domains.wildcards then domains
      else { domains with wildcards := domains.wildcards ++ [wildcard] }
  | none =>
      let host := canonHost host
      match domains.primary with
      | none => { domains with primary := some host }
      | some primary =>
          if primary ≠ host ∧ host ∉ domains.aliases then
            { domains with aliases := domains.aliases ++ [host] }
          else domains

def unverified (site host : Text) : DeployError :=
  .notFound (host ++ " is not verified for ".toList ++ site ++
    "; run domain verification first".toList)

def unprovenWildcard (host : Text) : DeployError :=
  .conflict ("wildcard ".toList ++ host ++ " must be verified via DNS ".toList ++
    "(an HTTP token proves only the base host, not the subtree)".toList)

def isWildcard (host : Text) : Bool := decide ("*.".toList <+: trimStart isWhitespace host)

def ensureVerified (project site host : Text) : Except DeployError Unit := do
  let verified ← isDomainVerified kv project site host
  if !verified then .error (unverified site host)
  else if isWildcard host then
    let verification ← getDomainVerification kv project site host
    if verification.map DomainVerification.method ≠ some .dns then .error (unprovenWildcard host)
    else .ok ()
  else .ok ()

def attachLocked (project site host : Text) : Except DeployError (Kv Settings) := do
  let stored ← getSiteConfig kv project site
  let config := stored.getD ⟨⟨none, [], [], .empty⟩, formats.standard⟩
  setSiteConfigLocked formats kv project site
    { config with domains := config.domains.attach host } false

def attachVerifiedDomain (project site host : Text) :
    Except DeployError (Kv Settings) := do
  ensureVerified kv project site host
  attachLocked formats kv project site host

/-- The contexts are written first; the configuration is then written again from them. -/
def removeSiteContext (project site host : Text) :
    Kv Settings × Except DeployError Bool :=
  match getSiteContexts kv project site with
  | none => (kv, .ok false)
  | some contexts =>
      if contexts.get? host = none then (kv, .ok false)
      else
        let contexts := contexts.erase host
        let key := siteContextsKey project site
        let kv := if contexts.entries = [] then kv.erase key else kv.insert key (.contexts contexts)
        match getSiteConfig kv project site with
        | .error error => (kv, .error error)
        | .ok none => (kv, .ok true)
        | .ok (some config) =>
            match setSiteConfigLocked formats kv project site config false with
            | .error error => (kv, .error error)
            | .ok kv => (kv, .ok true)

def deleteSite (project site : Text) : Except DeployError (Kv Settings) := do
  let config ← getSiteConfig kv project site
  let claims := (config.map fun config => config.domains.claims).getD []
  let doomed := [sitePointerKey project site, currentKey project site,
    currentPrincipalKey project site, historyKey project site, siteContextsKey project site] ++
    claims.map Claim.key ++ listPrefix kv (aliasPrefix project site) ++
    listPrefix kv (domainVerificationPrefix project site)
  return writeBatch kv (doomed.map .delete)

end Writes

/-- The keys a host is looked up under: itself, then the suffixes from the longest on. -/
def parentKeys : (fuel : Nat) → Text → List Text
  | 0, _ => []
  | fuel + 1, host =>
      match splitOnceAt '.' host with
      | none => []
      | some (_, parent) => wildcardKey parent :: parentKeys fuel parent

def hostKeys (host : Text) : List Text := domainKey host :: parentKeys host.length host

def Record.owner? : Record Settings → Option DomainOwner
  | .owner held => some held
  | _ => none

def resolveSiteByHostUncached (kv : Kv Settings) (host : Text) : Option DomainOwner :=
  (hostKeys host).findSome? fun key => (kv.get? key).bind Record.owner?

/-- The most resolutions that are remembered. -/
def DOMAIN_CACHE_CAP : Nat := 4096

/-- The store, the generation of its index and the resolutions of one generation. -/
structure DeployState (Settings : Type) where
  kv : Kv Settings
  domainEpoch : Nat
  cacheEpoch : Nat
  cache : SortedMap Text (Option DomainOwner)

def DeployState.new : DeployState Settings := ⟨.empty, 0, 0, .empty⟩

def DeployState.bumped (state : DeployState Settings) (kv : Kv Settings) : DeployState Settings :=
  { state with kv, domainEpoch := state.domainEpoch + 1 }

def DeployState.resolveSiteByHost (state : DeployState Settings) (host : Text) :
    DeployState Settings × Option DomainOwner :=
  let host := canonHost host
  let hit := if state.cacheEpoch = state.domainEpoch then state.cache.get? host else none
  match hit with
  | some owner => (state, owner)
  | none =>
      let resolved := resolveSiteByHostUncached state.kv host
      let fresh := if state.cacheEpoch = state.domainEpoch then state.cache else .empty
      let fresh := if DOMAIN_CACHE_CAP ≤ fresh.entries.length then .empty else fresh
      ({ state with cacheEpoch := state.domainEpoch, cache := fresh.insert host resolved },
        resolved)

inductive SiteAction (Settings : Type) where
  | setSiteConfig (site : SiteRef) (config : SiteConfig Settings)
  | setSiteConfigCooperative (site : SiteRef) (config : SiteConfig Settings)
  | attachVerifiedDomain (site : SiteRef) (host : Text)
  | removeSiteContext (site : SiteRef) (host : Text)
  | deleteSite (site : SiteRef)
  | resolveSiteByHost (host : Text)
  | startDomainVerification (site : SiteRef) (host : Text) (method : VerificationMethod)
      (nowUnix : Nat) (token : Text)
  | markDomainVerified (site : SiteRef) (host : Text)
  | removeDomainVerification (site : SiteRef) (host : Text)

inductive SiteOutput where
  | done (result : Except DeployError Unit)
  | resolved (owner : Option DomainOwner)
  deriving DecidableEq

/-- A call that writes the index succeeds with a new store, or changes nothing. -/
def DeployState.commit (state : DeployState Settings)
    (written : Except DeployError (Kv Settings)) : DeployState Settings × SiteOutput :=
  match written with
  | .ok kv => (state.bumped kv, .done (.ok ()))
  | .error error => (state, .done (.error error))

def DeployState.record {Result : Type} (state : DeployState Settings)
    (written : Except DeployError (Kv Settings × Result)) : DeployState Settings × SiteOutput :=
  match written with
  | .ok (kv, _) => ({ state with kv }, .done (.ok ()))
  | .error error => (state, .done (.error error))

def siteMachine (formats : Formats Settings) :
    Machine (DeployState Settings) (SiteAction Settings) SiteOutput where
  step state
    | .setSiteConfig ⟨project, site⟩ config =>
        state.commit (setSiteConfigLocked formats state.kv project.text site.text config false)
    | .setSiteConfigCooperative ⟨project, site⟩ config =>
        state.commit (setSiteConfigLocked formats state.kv project.text site.text config true)
    | .attachVerifiedDomain ⟨project, site⟩ host =>
        state.commit (attachVerifiedDomain formats state.kv project.text site.text host)
    | .removeSiteContext ⟨project, site⟩ host =>
        match removeSiteContext formats state.kv project.text site.text host with
        | (kv, .ok true) => (state.bumped kv, .done (.ok ()))
        | (kv, .ok false) => ({ state with kv }, .done (.ok ()))
        | (kv, .error error) => ({ state with kv }, .done (.error error))
    | .deleteSite ⟨project, site⟩ =>
        state.commit (deleteSite state.kv project.text site.text)
    | .resolveSiteByHost host =>
        let (state, owner) := state.resolveSiteByHost host
        (state, .resolved owner)
    | .startDomainVerification ⟨project, site⟩ host method nowUnix token =>
        state.record
          (startDomainVerification state.kv project.text site.text host method nowUnix token)
    | .markDomainVerified ⟨project, site⟩ host =>
        state.record (markDomainVerified state.kv project.text site.text host)
    | .removeDomainVerification ⟨project, site⟩ host =>
        state.record (removeDomainVerification state.kv project.text site.text host)

end BoatRamp.Deploy
