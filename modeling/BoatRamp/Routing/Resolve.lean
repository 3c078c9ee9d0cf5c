import BoatRamp.Library.Tracked
import BoatRamp.Routing.Pattern
import BoatRamp.Routing.Predicate

/-!
# Request routing

Turn a request path, a deployment's configuration and its files into an
outcome: the trailing-slash policy, then the redirects, then the files, then
the rewrites, then not found.  The conditions and templates of the rules that
are reached are tracked with the headers they read.
-/

namespace BoatRamp.Routing

open Library

inductive TrailingSlash where
  | preserve
  | always
  | never

structure Redirect where
  source : Text
  dest : Text
  status : UInt16
  condition : Option Text

structure Rewrite where
  source : Text
  dest : Text
  condition : Option Text

structure HandlerConfig where
  route : Text
  methods : List Text

/-- The part of a deployment's configuration that routing reads. -/
structure DeployConfig where
  index : List Text
  cleanUrls : Bool
  caseInsensitive : Bool
  trailingSlash : TrailingSlash
  errorDocuments : SortedMap Nat Text
  redirects : List Redirect
  rewrites : List Rewrite
  handlers : List HandlerConfig
  /-- The number of declared event streams. -/
  streams : Nat

namespace DeployConfig

protected def default : DeployConfig where
  index := ["index.html".toList]
  cleanUrls := false
  caseInsensitive := false
  trailingSlash := .preserve
  errorDocuments := .empty
  redirects := []
  rewrites := []
  handlers := []
  streams := 0

end DeployConfig

variable {Entry : Type}

inductive Outcome (Entry : Type) where
  | redirect (location : Text) (status : UInt16)
  | file (path : Text) (entry : Entry)
  | proxy (url : Text)
  | notFound (error : Option (Text × Entry))
  deriving DecidableEq

structure ResolveResult (Entry : Type) where
  outcome : Outcome Entry
  vary : List Text
  deriving DecidableEq

def lastSegment (path : Text) : Text :=
  ((splitAll '/' (trimEnd (· = '/') path)).getLast?).getD []

def pushSegment (segments : List Text) (segment : Text) : List Text :=
  if segment = [] ∨ segment = ['.'] then segments
  else if segment = ['.', '.'] then segments.tail
  else segment :: segments

def normalizeDotSegments (path : Text) : Text :=
  let trailing := decide (['/'] <:+ path ∨ "/.".toList <:+ path ∨ "/..".toList <:+ path ∨
    path = ['.'] ∨ path = ['.', '.'])
  let normalized := '/' :: joinAll ['/'] ((splitAll '/' path).foldl pushSegment []).reverse
  if trailing ∧ ¬['/'] <:+ normalized then normalized ++ ['/'] else normalized

def routedPath (requestPath : Text) : Text :=
  normalizeDotSegments (if ['/'] <+: requestPath then requestPath else '/' :: requestPath)

def normalizeTrailingSlash (config : DeployConfig) (path : Text) : Option Text :=
  match config.trailingSlash with
  | .preserve => none
  | .always =>
      if path ≠ ['/'] ∧ ¬['/'] <:+ path ∧ '.' ∉ lastSegment path then some (path ++ ['/']) else none
  | .never =>
      if path ≠ ['/'] ∧ ['/'] <:+ path then some (trimEnd (· = '/') path) else none

def lookup (files : SortedMap Text Entry) (key : Text) (caseInsensitive : Bool) :
    Option (Text × Entry) :=
  match files.get? key with
  | some entry => some (key, entry)
  | none =>
      if caseInsensitive then files.entries.find? fun entry => eqIgnoreAsciiCase entry.1 key
      else none

def resolveFile (config : DeployConfig) (files : SortedMap Text Entry) (path : Text) :
    Option (Text × Entry) :=
  let key := trimStart (· = '/') path
  let found (key : Text) := lookup files key config.caseInsensitive
  let page := if config.cleanUrls ∧ key ≠ [] ∧ '.' ∉ lastSegment key then
    found (key ++ ".html".toList) else none
  let base := trimEnd (· = '/') key
  let candidate (index : Text) := if base = [] then index else base ++ '/' :: index
  (found key).or (page.or (config.index.findSome? fun index => found (candidate index)))

def isAbsoluteUrl (target : Text) : Bool :=
  decide ("http://".toList <+: target) || decide ("https://".toList <+: target)

def evalWhen (condition : Option Text) (env : EvalEnv) : Tracked Text Bool :=
  match condition with
  | none => pure true
  | some source =>
      match Predicate.compile source with
      | .ok predicate => ⟨predicate.eval env, predicate.vary⟩
      | .error _ => pure false

def interpolateTo (dest : Text) (env : EvalEnv) : Tracked Text Text :=
  if Template.isTemplate dest then
    match Template.compile dest with
    | .ok template => ⟨template.expand env, template.vary⟩
    | .error _ => pure dest
  else pure dest

variable [CaseFolding] (config : DeployConfig) (files : SortedMap Text Entry)

def matchRule (source path : Text) : Option Match :=
  match Pattern.compileWith source config.caseInsensitive with
  | .ok pattern => pattern.matchPath path
  | .error _ => none

def applyRedirects (config : DeployConfig) : List Redirect → EvalEnv →
    Tracked Text (Option (Outcome Entry))
  | [], _ => pure none
  | redirect :: rest, env =>
      match matchRule config redirect.source env.path with
      | none => applyRedirects config rest env
      | some found => do
          if ← evalWhen redirect.condition env then
            let dest ← interpolateTo redirect.dest env
            pure (some (.redirect (found.expand dest) redirect.status))
          else applyRedirects config rest env

def applyRewrites (config : DeployConfig) (files : SortedMap Text Entry) : List Rewrite → EvalEnv →
    Tracked Text (Option (Outcome Entry))
  | [], _ => pure none
  | rewrite :: rest, env =>
      match matchRule config rewrite.source env.path with
      | none => applyRewrites config files rest env
      | some found => do
          if ← evalWhen rewrite.condition env then
            let dest ← interpolateTo rewrite.dest env
            let target := found.expand dest
            if isAbsoluteUrl target then pure (some (.proxy target))
            else match resolveFile config files target with
            | some (path, entry) => pure (some (.file path entry))
            | none => applyRewrites config files rest env
          else applyRewrites config files rest env

def errorDocument (config : DeployConfig) (files : SortedMap Text Entry) :
    Option (Text × Entry) := do
  let document ← config.errorDocuments.get? 404
  let key := trimStart (· = '/') document
  let entry ← files.get? key
  pure (key, entry)

/-- The outcome for a path that the trailing-slash policy leaves alone. -/
def resolveRules (env : EvalEnv) :
    Tracked Text (Outcome Entry) := do
  match ← applyRedirects config config.redirects env with
  | some outcome => pure outcome
  | none =>
      match resolveFile config files env.path with
      | some (path, entry) => pure (.file path entry)
      | none =>
          match ← applyRewrites config files config.rewrites env with
          | some outcome => pure outcome
          | none => pure (.notFound (errorDocument config files))

def routingEnv (path : Text)
    (ctx : RequestContext) : EvalEnv where
  ctx := ctx
  path := path
  fileExists path := (resolveFile config files path).isSome

def resolveCtx (requestPath : Text)
    (ctx : RequestContext) : ResolveResult Entry :=
  let path := routedPath requestPath
  match normalizeTrailingSlash config path with
  | some location => ⟨.redirect location 308, []⟩
  | none =>
      let routed := resolveRules config files (routingEnv config files path ctx)
      ⟨routed.result, sortDedup routed.names⟩

def STANDARD_METHODS : List Text :=
  ["GET", "HEAD", "POST", "PUT", "PATCH", "DELETE", "OPTIONS"].map String.toList

def METHOD_WILDCARD : Text := ['*']

def methodMatches (methods : List Text) (method : Text) : Bool :=
  methods.isEmpty || methods.any fun declared =>
    if declared = METHOD_WILDCARD then true
    else if declared ∈ STANDARD_METHODS then eqIgnoreAsciiCase declared method
    else declared == method

def matchHandler (handlers : List HandlerConfig) (method requestPath : Text) :
    Option HandlerConfig :=
  let path := if ['/'] <+: requestPath then requestPath else '/' :: requestPath
  handlers.find? (fun handler =>
    methodMatches handler.methods method &&
      match Pattern.compile handler.route with
      | .ok pattern => pattern.isMatch path
      | .error _ => false)

end BoatRamp.Routing
