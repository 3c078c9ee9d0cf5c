import BoatRamp.Gateway.Config

/-!
# Which connections are spliced

A new connection's first request head is classified: either the serving
pipeline would forward it to one plaintext backend of the site's gateway, and
the connection is pinned to that backend, or the connection is left to the
pipeline.
-/

namespace BoatRamp.Splice

open Library Routing Gateway

structure RequestHead where
  method : Text
  target : Text
  headers : List (Text × Text)
  deriving DecidableEq

def headerFields : List Text → List (Text × Text)
  | [] => []
  | line :: lines =>
      if line = [] then []
      else match splitOnceAt ':' line with
      | some (name, value) => (trim name, trim value) :: headerFields lines
      | none => headerFields lines

def parseRequestHead (head : Octets) : Option RequestHead := do
  match splitLines (← fromUtf8 head) with
  | [] => none
  | requestLine :: lines =>
      match splitAll ' ' requestLine with
      | method :: target :: version :: _ =>
          if version = "HTTP/1.1".toList then some ⟨method, target, headerFields lines⟩ else none
      | _ => none

def header (headers : List (Text × Text)) (name : Text) : Option Text :=
  (headers.find? fun field => eqIgnoreAsciiCase field.1 name).map Prod.snd

def stripPort (host : Text) : Text :=
  let bare := match rsplitOnceAt ':' host with
    | some (name, _) => if ':' ∉ name ∨ ['['] <+: name then name else host
    | none => host
  trimEnd (· = ']') (trimStart (· = '[') bare)

def pathOnly (target : Text) : Text := target.takeWhile (· ≠ '?')

def RESERVED : List Text :=
  ["/healthz", "/readyz", "/api/", "/_sites/", "/_deploy/", "/_webhooks/",
    "/.well-known/boatramp-", "/mcp"].map String.toList

def isReservedPath (path : Text) : Bool := RESERVED.any fun head => decide (head <+: path)

namespace RequestHead

def host (request : RequestHead) : Text :=
  ((header request.headers "host".toList).map stripPort).getD []

def path (request : RequestHead) : Text := pathOnly request.target

def bodyless (request : RequestHead) : Bool :=
  request.method == "GET".toList || request.method == "HEAD".toList

/-- Whether the head announces a body or a change of protocol. -/
def framed (request : RequestHead) : Bool :=
  ["content-length", "transfer-encoding", "upgrade", "expect"].any
    (fun name => (header request.headers name.toList).isSome)

end RequestHead

structure DomainOwner where
  project : Text
  site : Text
  deriving DecidableEq

structure Manifest (Entry : Type) where
  config : DeployConfig
  files : SortedMap Text Entry

structure ResolvedTarget (Address : Type) where
  basePath : Text
  host : Text
  addr : Address
  deriving DecidableEq

/-- What classification reads.  The lookups in the store answer `none` when the
store fails; name resolution and the address policy are those of the moment. -/
structure SpliceCtx (Entry Address : Type) where
  resolveSiteByHost : Text → Option (Option DomainOwner)
  siteConfig : Text → Text → Option (Option SiteConfig)
  currentManifest : Text → Text → Option (Option (Manifest Entry))
  daemon : Option EffectiveConfig
  resolveTarget : Text → Option (ResolvedTarget Address)
  addrAllowed : Address → Bool

/-- A pinned backend for a connection. -/
structure SplicePlan (Address : Type) where
  resolved : ResolvedTarget Address
  upstream : Upstream
  site : Text
  project : Text
  deriving DecidableEq

def DEFAULT_PROJECT : Text := "default".toList

variable {Entry Address : Type}

namespace SpliceCtx

def ownerOf (ctx : SpliceCtx Entry Address) (host : Text) : Option DomainOwner := do
  match ← ctx.resolveSiteByHost host with
  | some owner => some owner
  | none => pure ⟨DEFAULT_PROJECT, ← (← ctx.daemon).defaultSite⟩

def consoleIntercepts (ctx : SpliceCtx Entry Address) (host path : Text) : Bool :=
  match ctx.daemon with
  | some effective => wouldIntercept effective host path
  | none => false

end SpliceCtx

def leavesToGateway : Outcome Entry → Bool
  | .redirect _ _ | .proxy _ => false
  | .file _ _ | .notFound _ => true

def plainBackend (upstream : Upstream) : Option Text :=
  match upstream.staticBackends with
  | [target] => if "http://".toList <+: target then some target else none
  | _ => none

variable [CaseFolding]

def gatewayUpstream (site : SiteConfig) (path : Text) : Option Upstream := do
  let gateway ← site.gateway.filter GatewayConfig.isEnabled
  let route ← gateway.matchRoute path
  gateway.upstreams.get? route.upstream

/-- What an upstream is pinned to, if it is one static plaintext backend. -/
def pinUpstream (ctx : SpliceCtx Entry Address) (upstream : Upstream) :
    Option (ResolvedTarget Address) := do
  guard (upstream.compute = none ∧ upstream.discover = none ∧ upstream.activeHealth = none)
  let resolved ← ctx.resolveTarget (← plainBackend upstream)
  guard (ctx.addrAllowed resolved.addr)
  pure resolved

def classifyRequest (ctx : SpliceCtx Entry Address) (request : RequestHead) :
    Option (SplicePlan Address) := do
  guard request.bodyless
  guard (!request.framed)
  guard (!isReservedPath request.path)
  guard (!ctx.consoleIntercepts request.host request.path)
  let owner ← ctx.ownerOf request.host
  let site ← (← ctx.siteConfig owner.project owner.site)
  guard site.access.permissive
  guard (transportRedirect site "http".toList request.host request.target = none)
  guard (!site.handlers)
  let manifest ← (← ctx.currentManifest owner.project owner.site)
  -- The routing outcome is computed without the request's attributes.
  guard (leavesToGateway (resolveCtx manifest.config manifest.files request.path .default).outcome)
  guard (matchHandler manifest.config.handlers request.method request.path = none)
  guard (manifest.config.streams = 0)
  let upstream ← gatewayUpstream site request.path
  let resolved ← pinUpstream ctx upstream
  pure ⟨resolved, upstream, owner.site, owner.project⟩

def classify (ctx : SpliceCtx Entry Address) (head : Octets) : Option (SplicePlan Address) := do
  classifyRequest ctx (← parseRequestHead head)

end BoatRamp.Splice
