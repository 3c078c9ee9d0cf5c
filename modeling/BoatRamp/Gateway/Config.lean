import BoatRamp.Routing.Resolve

/-!
# Gateway and site configuration

The declared upstreams of a site, the routes to them, and the settings that
stand in front of them.
-/

namespace BoatRamp.Gateway

open Library Routing

structure HeaderOps where
  set : SortedMap Text Text
  remove : List Text
  deriving DecidableEq

/-- A declared backend.  The settings that are only present or absent to the
functions here are kept as their stored text. -/
structure Upstream where
  target : Text
  targets : List Text
  activeHealth : Option Text
  discover : Option Text
  compute : Option Text
  hostHeader : Option Text
  stripPrefix : Option Text
  headerUp : HeaderOps
  headerDown : HeaderOps
  /-- The remaining settings. -/
  settings : Text
  deriving DecidableEq

namespace Upstream

def single (target : Text) : Upstream where
  target := target
  targets := []
  activeHealth := none
  discover := none
  compute := none
  hostHeader := none
  stripPrefix := none
  headerUp := ⟨.empty, []⟩
  headerDown := ⟨.empty, []⟩
  settings := []

def staticBackends (upstream : Upstream) : List Text :=
  if upstream.targets ≠ [] then upstream.targets
  else if upstream.target ≠ [] then [upstream.target]
  else []

def forwardPath (upstream : Upstream) (requestPath : Text) : Text :=
  match upstream.stripPrefix with
  | none => requestPath
  | some stripped =>
      let head := trimEnd (· = '/') stripped
      if head = [] then requestPath
      else match stripHead head requestPath with
      | some [] => ['/']
      | some ('/' :: rest) => '/' :: rest
      | _ => requestPath

end Upstream

structure GatewayRoute where
  glob : Text
  upstream : Text

structure GatewayConfig where
  upstreams : SortedMap Text Upstream
  routes : List GatewayRoute

namespace GatewayConfig

def isEnabled (gateway : GatewayConfig) : Bool := !gateway.routes.isEmpty

def matchRoute [CaseFolding] (gateway : GatewayConfig) (path : Text) : Option GatewayRoute :=
  gateway.routes.find? (fun route =>
    match Pattern.compile route.glob with
    | .ok pattern => pattern.isMatch path
    | .error _ => false)

end GatewayConfig

structure DomainConfig where
  primary : Option Text
  aliases : List Text
  canonicalRedirect : Bool

structure AccessConfig where
  basicAuth : Bool
  rateLimit : Bool
  ipAllow : List Text
  ipDeny : List Text
  trustedProxies : List Text
  waf : Bool

def AccessConfig.permissive (access : AccessConfig) : Bool :=
  !access.basicAuth && !access.rateLimit && access.ipAllow.isEmpty && access.ipDeny.isEmpty &&
    access.trustedProxies.isEmpty && !access.waf

structure SiteConfig where
  domains : DomainConfig
  httpsRedirect : Bool
  access : AccessConfig
  /-- Whether the site has handler settings. -/
  handlers : Bool
  gateway : Option GatewayConfig

def SiteConfig.proxying (gateway : GatewayConfig) : SiteConfig where
  domains := ⟨none, [], false⟩
  httpsRedirect := false
  access := ⟨false, false, [], [], [], false⟩
  handlers := false
  gateway := some gateway

def transportRedirect (site : SiteConfig) (scheme host pathAndQuery : Text) : Option Text :=
  let targetScheme := if site.httpsRedirect ∧ scheme = "http".toList then "https".toList else scheme
  let targetHost := match site.domains.primary with
    | some primary =>
        if site.domains.canonicalRedirect ∧ primary ≠ host ∧ host ∈ site.domains.aliases
        then primary else host
    | none => host
  if targetScheme = scheme ∧ targetHost = host then none
  else some (targetScheme ++ "://".toList ++ targetHost ++ pathAndQuery)

structure EffectiveConfig where
  defaultSite : Option Text
  consoleEnabled : Bool
  consoleHost : Option Text
  consolePath : Option Text

structure ConsoleMount where
  host : Text
  path : Text

def normalizePath (path : Option Text) : Text :=
  let raw := ((path.map trim).filter (· ≠ [])).getD "/_console".toList
  let core := trimEnd (· = '/') (trimStart (· = '/') raw)
  if core = [] then [] else '/' :: core

def ConsoleMount.fromEffective (effective : EffectiveConfig) : Option ConsoleMount :=
  if effective.consoleEnabled then
    some ⟨((effective.consoleHost.map trim).filter (· ≠ [])).getD ['*'],
      normalizePath effective.consolePath⟩
  else none

def hostMatches (pattern host : Text) : Bool :=
  if pattern = ['*'] then true
  else
    let host := toAsciiLowercase host
    let pattern := toAsciiLowercase pattern
    match stripHead "*.".toList pattern with
    | some parent => host == parent || decide ('.' :: parent <:+ host)
    | none => pattern == host

def pathUnder (mount requestPath : Text) : Bool :=
  mount == [] || requestPath == mount ||
    match stripHead mount requestPath with
    | some ('/' :: _) => true
    | _ => false

def wouldIntercept (effective : EffectiveConfig) (host path : Text) : Bool :=
  match ConsoleMount.fromEffective effective with
  | some mount => hostMatches mount.host host && pathUnder mount.path path
  | none => false

end BoatRamp.Gateway
