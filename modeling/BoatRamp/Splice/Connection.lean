import BoatRamp.Splice.Classify
import Mathlib.Data.Option.Basic

/-!
# A spliced connection

The loop over the requests of a pinned connection.  Each head is held against
fewer conditions than the first one was: its method, that nothing follows it
yet, and that the site's gateway still routes its path to some plaintext
backend.  What the loop does not check decides whether a forwarded request is
one that classification would have accepted.
-/

namespace BoatRamp.Splice

open Library Routing Gateway Option

section

variable {Entry Address : Type} [CaseFolding]

structure Accepted (ctx : SpliceCtx Entry Address) (request : RequestHead)
    (plan : SplicePlan Address) (site : SiteConfig) (manifest : Manifest Entry) : Prop where
  bodyless : request.bodyless = true
  unframed : request.framed = false
  unreserved : isReservedPath request.path = false
  noConsole : ctx.consoleIntercepts request.host request.path = false
  owner : ctx.ownerOf request.host = some ⟨plan.project, plan.site⟩
  siteConfig : ctx.siteConfig plan.project plan.site = some (some site)
  permissive : site.access.permissive = true
  transport : transportRedirect site "http".toList request.host request.target = none
  handlersOff : site.handlers = false
  current : ctx.currentManifest plan.project plan.site = some (some manifest)
  routed : leavesToGateway
    (resolveCtx manifest.config manifest.files request.path .default).outcome = true
  unhandled : matchHandler manifest.config.handlers request.method request.path = none
  noStreams : manifest.config.streams = 0
  upstream : gatewayUpstream site request.path = some plan.upstream
  pinned : pinUpstream ctx plan.upstream = some plan.resolved

theorem classifyRequest_eq_some_iff {ctx : SpliceCtx Entry Address} {req : RequestHead}
    {p : SplicePlan Address} :
    classifyRequest ctx req = some p ↔ ∃ s m, Accepted ctx req p s m := by
  simp only [classifyRequest, bind_eq_bind, bind_eq_some_iff, guard_eq_some',
    exists_const, Bool.not_eq_true']
  constructor
  · rintro ⟨hb, hu, hun, hno, o, ho, _, hs, s, rfl, hpe, ht, hh, _, hc, m, rfl, hro, hud, hn,
      up, hr, r, hp, hm⟩
    cases hm
    exact ⟨s, m, hb, hu, hun, hno, ho, hs, hpe, ht, hh, hc, hro, hud, hn, hr, hp⟩
  rintro ⟨s, m, ha⟩
  exact ⟨ha.bodyless, ha.unframed, ha.unreserved, ha.noConsole, _,
    ha.owner, _, ha.siteConfig, s, rfl, ha.permissive, ha.transport,
    ha.handlersOff, _, ha.current, m, rfl, ha.routed, ha.unhandled,
    ha.noStreams, _, ha.upstream, _, ha.pinned, rfl⟩

theorem classify_eq_some_iff {ctx : SpliceCtx Entry Address} {head : Octets}
    {p : SplicePlan Address} :
    classify ctx head = some p ↔ ∃ req, parseRequestHead head = some req ∧
        ∃ s m, Accepted ctx req p s m := by
  simp only [classify, bind_eq_bind, bind_eq_some_iff, classifyRequest_eq_some_iff]

/-- A head the client sent, with what was read past it, and whether the response
to it, if it is forwarded, ends the connection. -/
structure Arrival where
  head : Octets
  leftover : Octets
  closes : Bool

/-- What the loop does with a request. -/
inductive Handling where
  /-- Written to the pinned backend as this head. -/
  | forwarded (upHead : Octets)
  /-- Replayed, with the rest of the connection, to the normal server. -/
  | replayed (bytes : Octets)

def Handling.isForwarded : Handling → Bool
  | .forwarded _ => true
  | .replayed _ => false

def HOP_BY_HOP : List Text :=
  ["connection", "keep-alive", "proxy-authenticate", "proxy-authorization", "te", "trailer",
    "transfer-encoding", "upgrade"].map String.toList

def fieldLine (name value : Text) : Text := name ++ ": ".toList ++ value ++ "\r\n".toList

def buildUpstreamHead (plan : SplicePlan Address) (request : RequestHead) (clientIp : Text) :
    Octets :=
  let base := trimEnd (· = '/') plan.resolved.basePath
  let (requestPath, query) := match splitOnceAt '?' request.target with
    | some (path, query) => (path, '?' :: query)
    | none => (request.target, [])
  let dropped (name : Text) : Bool :=
    let name := toAsciiLowercase name
    name == "host".toList || HOP_BY_HOP.contains name ||
      plan.upstream.headerUp.remove.any (eqIgnoreAsciiCase name)
  toUtf8 (request.method ++ ' ' :: base ++ plan.upstream.forwardPath requestPath ++ query ++
    " HTTP/1.1\r\n".toList ++
    fieldLine "host".toList (plan.upstream.hostHeader.getD plan.resolved.host) ++
    ((request.headers.filter fun field => !dropped field.1).flatMap
      (fun field => fieldLine field.1 field.2)) ++
    fieldLine "x-forwarded-for".toList clientIp ++
    fieldLine "x-forwarded-proto".toList "http".toList ++
    ((header request.headers "host".toList).map (fieldLine "x-forwarded-host".toList)).getD [] ++
    plan.upstream.headerUp.set.entries.flatMap (fun field => fieldLine field.1 field.2) ++
    "\r\n".toList)

def upstreamRoute (ctx : SpliceCtx Entry Address) (plan : SplicePlan Address) (path : Text) :
    Bool :=
  match ctx.siteConfig plan.project plan.site with
  | some (some site) => ((gatewayUpstream site path).bind plainBackend).isSome
  | _ => false

/-- The parsed head of a request that passes the loop's own checks. -/
def eligible (ctx : SpliceCtx Entry Address) (plan : SplicePlan Address) (arrival : Arrival) :
    Option RequestHead := do
  let request ← parseRequestHead arrival.head
  guard (request.bodyless ∧ arrival.leftover = [])
  guard (upstreamRoute ctx plan request.path)
  pure request

def RequestHead.asksClose (request : RequestHead) : Bool :=
  match header request.headers "connection".toList with
  | some value => decide ("close".toList <:+: toAsciiLowercase value)
  | none => false

def spliceConn (ctx : SpliceCtx Entry Address) (plan : SplicePlan Address) (clientIp : Text) :
    List Arrival → List (Arrival × Handling)
  | [] => []
  | arrival :: rest =>
      match eligible ctx plan arrival with
      | none => [(arrival, .replayed (arrival.head ++ arrival.leftover))]
      | some request =>
          (arrival, .forwarded (buildUpstreamHead plan request clientIp)) ::
            if request.asksClose ∨ arrival.closes then [] else spliceConn ctx plan clientIp rest

section Handled

variable {ctx : SpliceCtx Entry Address} {p : SplicePlan Address} {ci : Text}
  {ar : List Arrival} {a : Arrival} {h : Handling}

theorem mem_spliceConn (hh : (a, h) ∈ spliceConn ctx p ci ar) :
    (eligible ctx p a = none ∧ h = .replayed (a.head ++ a.leftover)) ∨
      ∃ req, eligible ctx p a = some req ∧ h = .forwarded (buildUpstreamHead p req ci) := by
  induction ar with
  | nil => cases hh
  | cons x rest ih =>
    cases hc : eligible ctx p x with
    | none =>
      simp only [spliceConn, hc, List.mem_singleton] at hh
      cases hh
      exact .inl ⟨hc, rfl⟩
    | some req =>
      simp only [spliceConn, hc, List.mem_cons] at hh
      rcases hh with hhe | hl
      · cases hhe
        exact .inr ⟨req, hc, rfl⟩
      split_ifs at hl with he
      · cases hl
      · exact ih hl

theorem eligible_of_forwarded (hh : (a, h) ∈ spliceConn ctx p ci ar)
    (hs : h.isForwarded = true) : ∃ req, eligible ctx p a = some req := by
  rcases mem_spliceConn hh with ⟨-, rfl⟩ | ⟨req, hc, -⟩
  · cases hs
  · exact ⟨req, hc⟩

theorem replayed_of_not_forwarded (hh : (a, h) ∈ spliceConn ctx p ci ar)
    (hk : h.isForwarded = false) : h = .replayed (a.head ++ a.leftover) := by
  rcases mem_spliceConn hh with ⟨-, hr⟩ | ⟨req, -, rfl⟩
  · exact hr
  · cases hk

end Handled

def WhenStored {Value : Type} (stored : Option (Option Value)) (condition : Value → Prop) : Prop :=
  ∀ value, stored = some (some value) → condition value

instance {Value : Type} (stored : Option (Option Value)) (condition : Value → Prop)
    [DecidablePred condition] : Decidable (WhenStored stored condition) :=
  match stored with
  | none => .isTrue fun _ found => by cases found
  | some none => .isTrue fun _ found => by cases found
  | some (some value) =>
    decidable_of_iff (condition value)
      ⟨fun holds _ found => by cases found; exact holds, fun holds => holds value rfl⟩

/-- The conditions of classification that the loop does not check again. -/
@[mk_iff]
structure StaysEligible (ctx : SpliceCtx Entry Address) (plan : SplicePlan Address)
    (request : RequestHead) : Prop where
  unframed : request.framed = false
  unreserved : isReservedPath request.path = false
  noConsole : ctx.consoleIntercepts request.host request.path = false
  owner : ctx.ownerOf request.host = some ⟨plan.project, plan.site⟩
  transport : WhenStored (ctx.siteConfig plan.project plan.site) fun site =>
    transportRedirect site "http".toList request.host request.target = none
  upstream : WhenStored (ctx.siteConfig plan.project plan.site) fun site =>
    gatewayUpstream site request.path = some plan.upstream
  routed : WhenStored (ctx.currentManifest plan.project plan.site) fun manifest =>
    leavesToGateway (resolveCtx manifest.config manifest.files request.path .default).outcome = true
  unhandled : WhenStored (ctx.currentManifest plan.project plan.site) (fun manifest =>
    matchHandler manifest.config.handlers request.method request.path = none)

instance (ctx : SpliceCtx Entry Address) (plan : SplicePlan Address) (request : RequestHead) :
    Decidable (StaysEligible ctx plan request) :=
  decidable_of_iff' _ (staysEligible_iff ctx plan request)

/-- Classification on the request's own head gives the same route. -/
def AcceptedAlike (ctx : SpliceCtx Entry Address) (plan : SplicePlan Address) (head : Octets) :
    Prop :=
  ∃ own, classify ctx head = some own ∧
    own.project = plan.project ∧ own.site = plan.site ∧ own.upstream = plan.upstream

variable {ctx : SpliceCtx Entry Address}

theorem Accepted.staysEligible {p : SplicePlan Address} {req : RequestHead} {s : SiteConfig}
    {m : Manifest Entry} (ha : Accepted ctx req p s m) : StaysEligible ctx p req where
  unframed := ha.unframed
  unreserved := ha.unreserved
  noConsole := ha.noConsole
  owner := ha.owner
  transport o hs := by
    cases hs.symm.trans ha.siteConfig
    exact ha.transport
  upstream o hs := by
    cases hs.symm.trans ha.siteConfig
    exact ha.upstream
  routed o hs := by
    cases hs.symm.trans ha.current
    exact ha.routed
  unhandled o hs := by
    cases hs.symm.trans ha.current
    exact ha.unhandled

theorem Accepted.of_staysEligible {p : SplicePlan Address} {x req : RequestHead} {s : SiteConfig}
    {m : Manifest Entry} (ha : Accepted ctx x p s m) (hb : req.bodyless = true)
    (hs : StaysEligible ctx p req) : Accepted ctx req p s m where
  bodyless := hb
  unframed := hs.unframed
  unreserved := hs.unreserved
  noConsole := hs.noConsole
  owner := hs.owner
  siteConfig := ha.siteConfig
  permissive := ha.permissive
  transport := hs.transport s ha.siteConfig
  handlersOff := ha.handlersOff
  current := ha.current
  routed := hs.routed m ha.current
  unhandled := hs.unhandled m ha.current
  noStreams := ha.noStreams
  upstream := hs.upstream s ha.siteConfig
  pinned := ha.pinned

theorem acceptedAlike_iff {pl : SplicePlan Address} {x : Octets} (hc : classify ctx x = some pl)
    {head : Octets} {req : RequestHead} (hp : parseRequestHead head = some req)
    (hb : req.bodyless = true) : AcceptedAlike ctx pl head ↔ StaysEligible ctx pl req := by
  obtain ⟨_, _, s, m, ha⟩ := classify_eq_some_iff.mp hc
  constructor
  · rintro ⟨⟨r, up, os, p⟩, own, rfl, rfl, rfl⟩
    obtain ⟨o, hs, oc, om, ho⟩ := classify_eq_some_iff.mp own
    cases hs.symm.trans hp
    exact ⟨ho.unframed, ho.unreserved, ho.noConsole, ho.owner,
      ho.staysEligible.transport, ho.staysEligible.upstream,
      ho.staysEligible.routed, ho.staysEligible.unhandled⟩
  intro hst
  refine ⟨pl, classify_eq_some_iff.mpr ⟨req, hp, s, m, ?_⟩, rfl, rfl, rfl⟩
  exact ha.of_staysEligible hb hst

/-- On a connection pinned by its classification, every forwarded request is one
that classification accepts alike exactly when every forwarded request meets the
conditions the loop leaves out; what is not forwarded is replayed. -/
theorem forwarded_accepted_iff_staysEligible (ctx : SpliceCtx Entry Address) (first : Octets)
    (plan : SplicePlan Address) (classified : classify ctx first = some plan) (clientIp : Text)
    (arrivals : List Arrival) :
    ((∀ handled ∈ spliceConn ctx plan clientIp arrivals, handled.2.isForwarded = true →
        AcceptedAlike ctx plan handled.1.head) ↔
      ∀ handled ∈ spliceConn ctx plan clientIp arrivals, handled.2.isForwarded = true →
        ∀ request, parseRequestHead handled.1.head = some request →
          StaysEligible ctx plan request) ∧
    ∀ handled ∈ spliceConn ctx plan clientIp arrivals, handled.2.isForwarded = false →
      handled.2 = .replayed (handled.1.head ++ handled.1.leftover) := by
  have hpo : ∀ handled ∈ spliceConn ctx plan clientIp arrivals,
      handled.2.isForwarded = true → (AcceptedAlike ctx plan handled.1.head ↔
        ∀ request, parseRequestHead handled.1.head = some request →
          StaysEligible ctx plan request) := by
    intro handled hm hse
    obtain ⟨request, hc⟩ := eligible_of_forwarded hm hse
    simp only [eligible, Option.bind_eq_bind, Option.bind_eq_some_iff, Option.guard_eq_some',
      exists_const] at hc
    obtain ⟨head, hp, ⟨hb, _⟩, _, _⟩ := hc
    rw [acceptedAlike_iff classified hp hb]
    constructor
    · intro hs o hsa
      cases hsa.symm.trans hp
      exact hs
    · intro hs
      exact hs head hp
  refine ⟨?_, fun handled hm hk => replayed_of_not_forwarded hm hk⟩
  constructor
  · intro all handled hm hse
    exact (hpo handled hm hse).mp (all handled hm hse)
  · intro all handled hm hse
    exact (hpo handled hm hse).mpr (all handled hm hse)

end

namespace TwoSites

/-- A shop behind a gateway and a blog without one, each under its own host. -/
def shop : Upstream := .single "http://10.0.0.1:8080".toList

def ctx : SpliceCtx Unit Nat where
  resolveSiteByHost host :=
    if host = "shop.example".toList then some (some ⟨DEFAULT_PROJECT, "shop".toList⟩)
    else if host = "blog.example".toList then some (some ⟨DEFAULT_PROJECT, "blog".toList⟩)
    else some none
  siteConfig _ site :=
    if site = "shop".toList then
      some (some (.proxying
        ⟨SortedMap.empty.insert "app".toList shop, [⟨"/**".toList, "app".toList⟩]⟩))
    else some (some (.proxying ⟨.empty, []⟩))
  currentManifest _ _ := some (some ⟨.default, .empty⟩)
  daemon := none
  resolveTarget _ := some ⟨[], "10.0.0.1".toList, 1⟩
  addrAllowed _ := true

def plan : SplicePlan Nat := ⟨⟨[], "10.0.0.1".toList, 1⟩, shop, "shop".toList, DEFAULT_PROJECT⟩

def request (path host : String) : Arrival where
  head := toUtf8 ("GET ".toList ++ path.toList ++ " HTTP/1.1\r\nHost: ".toList ++ host.toList ++
    "\r\n\r\n".toList)
  leftover := []
  closes := false

theorem shop_requests_accepted :
    let arrivals := [request "/a" "shop.example", request "/b" "shop.example:80"]
    (@spliceConn _ _ asciiFolding ctx plan [] arrivals).map (fun handled => handled.2.isForwarded) =
        [true, true] ∧
      ∀ handled ∈ @spliceConn _ _ asciiFolding ctx plan [] arrivals, handled.2.isForwarded = true →
        @AcceptedAlike _ _ asciiFolding ctx plan handled.1.head := by
  refine ⟨by decide +kernel, ?_⟩
  refine (@forwarded_accepted_iff_staysEligible _ _ asciiFolding ctx
    (request "/a" "shop.example").head plan (by decide +kernel) [] _).1.mpr ?_
  intro handled hm _ parsedRequest hp
  have all : ∀ handled ∈ @spliceConn _ _ asciiFolding ctx plan []
      [request "/a" "shop.example", request "/b" "shop.example:80"],
      (parseRequestHead handled.1.head).all (fun parsedRequest =>
        decide (@StaysEligible _ _ asciiFolding ctx plan parsedRequest)) = true := by
    decide +kernel
  simpa [hp] using all handled hm

/-- A later request of the same connection for the blog goes to the shop's backend,
though classification does not accept it. -/
theorem blog_request_forwarded_to_shop :
    @classify _ _ asciiFolding ctx (request "/a" "shop.example").head = some plan ∧
      (@spliceConn _ _ asciiFolding ctx plan []
        [request "/a" "shop.example", request "/draft" "blog.example"]).map
          (fun handled => handled.2.isForwarded) = [true, true] ∧
      @classify _ _ asciiFolding ctx (request "/draft" "blog.example").head = none := by
  refine ⟨by decide +kernel, by decide +kernel, by decide +kernel⟩

end TwoSites

end BoatRamp.Splice
