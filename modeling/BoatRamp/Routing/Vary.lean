import BoatRamp.Routing.Resolve
import BoatRamp.Routing.Typing

/-!
# The reported headers decide the route

Two requests with the same method, host and query that agree on the headers a
resolution reports are resolved alike.  The check of an expression makes the
header names literals, so that the collected headers are all it can read;
the rules of the router then only sequence such expressions.
-/

namespace BoatRamp.Routing

open Library Tracked.Sound List Template

/-- Requests that agree on what is not a header. -/
structure Comparable (first second : RequestContext) : Prop where
  method : first.method = second.method
  host : first.host = second.host
  query : first.query = second.query

structure Agree (name : Text) (first second : RequestContext) : Prop where
  header : first.headers.get? name = second.headers.get? name
  cookies : name = "cookie".toList →
    ∀ cookie, first.cookies.get? cookie = second.cookies.get? cookie
  languages : name = "accept-language".toList → first.acceptLanguages = second.acceptLanguages

section

variable {x y : RequestContext} {path : Text} {fe : Text → Bool}

theorem acceptsLanguage_congr (hs : x.acceptLanguages = y.acceptLanguages) :
    x.acceptsLanguage = y.acceptsLanguage := by
  funext tag
  simp only [RequestContext.acceptsLanguage, hs]

theorem evalVar_agree (ha : Comparable x y) (name : Text) :
    evalVar ⟨x, path, fe⟩ name = evalVar ⟨y, path, fe⟩ name := by
  simp only [evalVar, ha.method, ha.host]

theorem evalCall_agree (hal : Comparable x y) {name : Text} {a : List Expr} {v : Option Value}
    (hl : name = "header".toList → ∃ text, a = [.str text] ∧ v = some (.str text))
    (ha : ∀ hdr ∈ varyOfCall name a, Agree hdr x y) :
    evalCall ⟨x, path, fe⟩ name v = evalCall ⟨y, path, fe⟩ name v := by
  unfold evalCall
  split_ifs with hdr c hq hf hac hp
  · obtain ⟨text, rfl, rfl⟩ := hl hdr
    have hs := (ha (toAsciiLowercase text) (by simp [varyOfCall, hdr])).header
    simp [asStr, hs]
  · have hs := (ha "cookie".toList (by simp [varyOfCall, c])).cookies rfl
    simp only [hs]
  · simp only [hal.query]
  · rfl
  · have hs := (ha "accept-language".toList (by simp [varyOfCall, hac])).languages rfl
    simp only [acceptsLanguage_congr hs]
  · have hs := (ha "accept-language".toList (by simp [varyOfCall, hp])).languages rfl
    simp only [RequestContext.prefersLanguage, acceptsLanguage_congr hs]
  · rfl

theorem evalAll_agree {xs : List Expr}
    (he : ∀ it ∈ xs, (∀ header ∈ collectVary it, Agree header x y) →
      evalExpr ⟨x, path, fe⟩ it = evalExpr ⟨y, path, fe⟩ it)
    (ha : ∀ header ∈ collectVaryAll xs, Agree header x y) :
    evalAll ⟨x, path, fe⟩ xs = evalAll ⟨y, path, fe⟩ xs := by
  induction xs with
  | nil => rfl
  | cons it xs ih =>
    obtain ⟨hh, hl⟩ := forall_mem_cons.mp he
    obtain ⟨hit, hi⟩ := forall_mem_append.mp ha
    simp only [evalAll, hh hit, ih hl hi]

theorem evalExpr_agree (hal : Comparable x y) {expr : Expr} (hc : Checked expr)
    (ha : ∀ hh ∈ collectVary expr, Agree hh x y) :
    evalExpr ⟨x, path, fe⟩ expr = evalExpr ⟨y, path, fe⟩ expr := by
  obtain ⟨t, hac⟩ := hc
  have ht := check_typed expr t hac
  clear hac
  induction ht with
  | str | int | bool => rfl
  | var => exact evalVar_agree hal _
  | list _ ih => simp only [evalExpr, evalAll_agree ih ha]
  | named text =>
    obtain ⟨own, _⟩ := forall_mem_append.mp ha
    exact evalCall_agree hal (fun _ => ⟨text, rfl, rfl⟩) own
  | test hk _ ih =>
    obtain ⟨own, har⟩ := forall_mem_append.mp ha
    simp only [evalExpr, evalFirst, ih (forall_mem_append.mp har).1]
    refine evalCall_agree hal (fun hh => ?_) own
    exact absurd (hh ▸ hk) (by decide)
  | prefers _ ih =>
    obtain ⟨own, har⟩ := forall_mem_append.mp ha
    simp only [evalExpr, evalFirst, evalAll_agree ih (forall_mem_append.mp har).1]
    exact evalCall_agree hal (fun hh => absurd hh (by decide)) own
  | method _ _ _ _ hre har =>
    obtain ⟨own, ho⟩ := forall_mem_append.mp ha
    simp only [evalExpr, evalFirst, hre own, har (forall_mem_append.mp ho).1]
  | not _ ih => simp only [evalExpr, ih ha]
  | and _ _ hl hr | or _ _ hl hr | eq _ _ hl hr | notEq _ _ hl hr
  | member _ _ hl hr | concat _ _ hl hr =>
    obtain ⟨hle, hri⟩ := forall_mem_append.mp ha
    simp only [evalExpr, hl hle, hr hri]

end

section

variable (path : Text) (fe : Text → Bool)

theorem evalWhen_sound (condition : Option Text) :
    Tracked.Sound Comparable Agree (fun ctx => evalWhen condition ⟨ctx, path, fe⟩) := by
  cases condition with
  | none => exact .const _
  | some source =>
    cases hc : Predicate.compile source with
    | error error => simpa only [evalWhen, hc] using .const _
    | ok predicate =>
      intro first second hal ha
      obtain ⟨ht, hr⟩ := Predicate.compile_checked hc
      simp only [evalWhen, hc, hr, mem_sortDedup] at ha ⊢
      simp only [Predicate.eval, evalExpr_agree hal ⟨_, ht⟩ ha]

theorem interpolateTo_sound (dest : Text) :
    Tracked.Sound Comparable Agree (fun ctx => interpolateTo dest ⟨ctx, path, fe⟩) := by
  unfold interpolateTo
  split_ifs with template
  · cases hco : compile dest with
    | error error => exact .const _
    | ok compiledTemplate =>
      obtain ⟨⟨parts, vary⟩, hc, hl⟩ := bind_eq_ok_iff.mp hco
      cases hl
      intro first second hal ha
      simp only [mem_sortDedup] at ha
      have he : ∀ part ∈ parts, expandPart ⟨first, path, fe⟩ part =
            expandPart ⟨second, path, fe⟩ part := by
        intro part hm
        cases part with
        | lit text => rfl
        | expr root =>
          obtain ⟨ht, hr⟩ := compileParts_checked hc hm
          have hs : evalExpr ⟨first, path, fe⟩ root = evalExpr ⟨second, path, fe⟩ root :=
            evalExpr_agree hal ⟨_, ht⟩ fun header hre => ha header (hr header hre)
          simp only [expandPart, hs]
      simp only [expand, flatMap_congr he]
  · exact .const _

variable [CaseFolding] {Entry : Type} (cfg : DeployConfig) (files : SortedMap Text Entry)

theorem applyRedirects_sound (rd : List Redirect) : Tracked.Sound Comparable Agree (fun ctx =>
      (applyRedirects cfg rd ⟨ctx, path, fe⟩ : Tracked Text (Option (Outcome Entry)))) := by
  induction rd with
  | nil => exact .const _
  | cons r rest ih =>
    cases f : matchRule cfg r.source path with
    | none => simpa only [applyRedirects, f] using ih
    | some c =>
      simp only [applyRedirects, f]
      apply bind (evalWhen_sound path fe r.condition)
      intro h
      cases h with
      | false => exact ih
      | true =>
        apply bind (interpolateTo_sound path fe r.dest)
        intro d
        exact .const _

theorem applyRewrites_sound (re : List Rewrite) : Tracked.Sound Comparable Agree (fun ctx =>
      applyRewrites cfg files re ⟨ctx, path, fe⟩) := by
  induction re with
  | nil => exact .const _
  | cons r rest ih =>
    cases f : matchRule cfg r.source path with
    | none => simpa only [applyRewrites, f] using ih
    | some c =>
      simp only [applyRewrites, f]
      apply bind (evalWhen_sound path fe r.condition)
      intro h
      cases h with
      | false => exact ih
      | true =>
        apply bind (interpolateTo_sound path fe r.dest)
        intro d
        by_cases ha : isAbsoluteUrl (c.expand d) = true
        · simpa only [if_pos ha] using .const _
        simp only [if_neg ha]
        cases resolveFile cfg files (c.expand d) with
        | none => exact ih
        | some fl => exact .const _

theorem resolveRules_sound :
    Tracked.Sound Comparable Agree (fun ctx => resolveRules cfg files ⟨ctx, path, fe⟩) := by
  unfold resolveRules
  apply bind (applyRedirects_sound path fe cfg cfg.redirects)
  intro r
  cases r with
  | some out => exact .const _
  | none =>
    cases hs : resolveFile cfg files path with
    | some f => simpa only [hs] using .const _
    | none =>
      simp only [hs]
      apply bind (applyRewrites_sound path fe cfg files cfg.rewrites)
      intro re
      cases re with
      | some out | none => exact .const _

end

/-- Requests with the same method, host and query that agree on the headers the
first one's resolution reports are resolved alike, with the same report. -/
theorem resolveCtx_eq_of_vary [CaseFolding] {Entry : Type} (config : DeployConfig)
    (files : SortedMap Text Entry) (requestPath : Text) (first second : RequestContext)
    (method : first.method = second.method) (host : first.host = second.host)
    (query : first.query = second.query)
    (headers : ∀ name ∈ (resolveCtx config files requestPath first).vary,
      first.headers.get? name = second.headers.get? name)
    (cookies : "cookie".toList ∈ (resolveCtx config files requestPath first).vary →
      ∀ cookie, first.cookies.get? cookie = second.cookies.get? cookie)
    (languages : "accept-language".toList ∈ (resolveCtx config files requestPath first).vary →
      first.acceptLanguages = second.acceptLanguages) :
    resolveCtx config files requestPath first = resolveCtx config files requestPath second := by
  have ha : ∀ name ∈ (resolveCtx config files requestPath first).vary,
      Agree name first second := by
    intro name hr
    refine ⟨headers name hr, fun same => ?_, fun same => ?_⟩
    · exact cookies (same ▸ hr)
    · exact languages (same ▸ hr)
  unfold resolveCtx at ha ⊢
  cases hm : normalizeTrailingSlash config (routedPath requestPath) with
  | some loc => simp only [hm]
  | none =>
    simp only [hm, mem_sortDedup] at ha ⊢
    have same := resolveRules_sound (routedPath requestPath)
      (fun path => (resolveFile config files path).isSome) config files first second
      ⟨method, host, query⟩ ha
    simp only [routingEnv, same]

namespace ByCountry

def config : DeployConfig :=
  { DeployConfig.default with
    redirects := [⟨"/".toList, "/it/".toList, 302, some "header('X-Country') == 'IT'".toList⟩] }

def visitor (agent : String) : RequestContext :=
  { RequestContext.default with
    headers := (SortedMap.empty.insert "x-country".toList "IT".toList).insert
      "user-agent".toList agent.toList
    cookies := SortedMap.empty.insert "session".toList agent.toList }

abbrev files : SortedMap Text Unit := .empty

/-- Two visitors of the country share the redirect, whatever else their requests carry. -/
theorem visitors_redirected_alike : visitor "a" ≠ visitor "b" ∧
      @resolveCtx Unit asciiFolding config files ['/'] (visitor "a") =
        ⟨.redirect "/it/".toList 302, ["x-country".toList]⟩ ∧
      @resolveCtx Unit asciiFolding config files ['/'] (visitor "a") =
        @resolveCtx Unit asciiFolding config files ['/'] (visitor "b") := by
  refine ⟨by decide +kernel, by decide +kernel, ?_⟩
  exact @resolveCtx_eq_of_vary asciiFolding Unit config files ['/'] (visitor "a") (visitor "b")
    rfl rfl rfl (by decide +kernel) (fun hr => absurd hr (by decide +kernel)) fun _ => rfl

end ByCountry

end BoatRamp.Routing
