import BoatRamp.Auth.Policy
import BoatRamp.Library.Cedar

/-!
# The Cedar authorizer

A policy is compiled to one `permit` for every template of every role; each
request is decided over entities built for it.  The principal lists the targets
it was granted each scoped role on, and a scoped `permit` asks whether the
resource's name, or its project, is among them.  The decision differs from the
expansion of the roles to rights where the resource has no such attribute and
where a granted target is itself a wildcard.
-/

namespace BoatRamp.Auth

open Library.Cedar Library.SortedMap
open List hiding lookup

def NS : Text := "BR".toList

def uid (typeName id : Text) : Uid Text := ⟨NS ++ "::".toList ++ typeName, id⟩

def isSafeIdent (text : Text) : Bool :=
  match text with
  | [] => false
  | first :: rest =>
      (isAsciiAlphabetic first || first == '_') &&
        rest.all fun letter => isAsciiAlphanumeric letter || letter == '_'

def resourceType : Resource → Text
  | .site => "Site".toList
  | .project => "Project".toList
  | .secrets => "Secrets".toList
  | .blobs => "Blobs".toList
  | .blobUpload => "BlobUpload".toList
  | .tokens => "Tokens".toList
  | .certs => "Certs".toList
  | .cache => "Cache".toList
  | .system => "System".toList
  | .overlay => "Overlay".toList

def actionScope : Action → ActionScope Text
  | .admin => .within [uid "Action".toList "admin".toList]
  | .read => .eq (uid "Action".toList Action.read.asStr)
  | .write => .eq (uid "Action".toList Action.write.asStr)
  | .deploy => .eq (uid "Action".toList Action.deploy.asStr)

variable (role : Text)

def sitesAttr : Text := role ++ "_sites".toList

def guardOf : TargetScope → Option (Guard Text)
  | .roleTarget => some ⟨⟨.principal, sitesAttr role⟩, ⟨.resource, "name".toList⟩⟩
  | .projectWildcard => some ⟨⟨.principal, sitesAttr role⟩, ⟨.resource, "project".toList⟩⟩
  | .anyTarget => none

def permitOf (template : RightTemplate) : Permit Text where
  principalIn := uid "Role".toList role
  actionScope := actionScope template.action
  resourceIs := NS ++ "::".toList ++ resourceType template.resource
  guard := guardOf role template.scope

def generatePolicies (policy : AuthzPolicy) : List (Permit Text) :=
  policy.roles.entries.flatMap fun role => role.2.map (permitOf role.1)

inductive CedarError where
  | roleName (name : Text)

def CedarError.message : CedarError → Text
  | .roleName name => "unsafe role name: ".toList ++ debugText name

structure CompiledCedar where
  policies : List (Permit Text)
  scopedRoles : List Text

/-- Role names that are no identifiers are refused, so the generated text parses to the generated
policies. -/
def CompiledCedar.compile (policy : AuthzPolicy) : Except CedarError CompiledCedar :=
  match policy.roles.entries.find? (fun role => !isSafeIdent role.1) with
  | some role => .error (.roleName role.1)
  | none =>
      .ok
        { policies := generatePolicies policy
          scopedRoles := (policy.roles.entries.filter fun role =>
            role.2.any fun template => template.scope.isTargeted).map Prod.fst }

def sitesOf (roles : List GrantedRole) (role : Text) : List Text :=
  ((roles.filter fun granted => granted.name == role).filterMap GrantedRole.target).filter
    isConformingRoleTarget

def principalEntity (principal : Uid Text) (roles : List GrantedRole) (scopedRoles : List Text) :
    Entity Text where
  uid := principal
  attrs := scopedRoles.map fun role => (sitesAttr role, .set (sitesOf roles role))
  parents := (roles.filter fun granted => isSafeIdent granted.name).map
    (fun granted => uid "Role".toList granted.name)

def resourceEntity (required : Right) : Entity Text :=
  let name := required.target.getD []
  match required.resource with
  | .site =>
      ⟨uid (resourceType .site) name,
        [("name".toList, .string name), ("project".toList, .string (projectOf name))], []⟩
  | .project => ⟨uid (resourceType .project) name, [("name".toList, .string name)], []⟩
  | .secrets => ⟨uid (resourceType .secrets) name, [("name".toList, .string name)], []⟩
  | .blobUpload => ⟨uid (resourceType .blobUpload) name, [("name".toList, .string name)], []⟩
  | other => ⟨uid (resourceType other) other.asStr, [], []⟩

def actionEntities : List (Entity Text) :=
  let admin := uid "Action".toList "admin".toList
  ⟨admin, [], []⟩ ::
    ["read".toList, "write".toList, "deploy".toList].map fun action =>
      ⟨uid "Action".toList action, [], [admin]⟩

def roleEntities (roles : List GrantedRole) : List (Entity Text) :=
  (roles.filter fun granted => isSafeIdent granted.name).map
    (fun granted => ⟨uid "Role".toList granted.name, [], []⟩)

def selfUid : Uid Text := uid "Principal".toList "self".toList

def entitiesFor (scopedRoles : List Text) (roles : List GrantedRole) (required : Right) :
    List (Entity Text) :=
  principalEntity selfUid roles scopedRoles :: resourceEntity required ::
    (actionEntities ++ roleEntities roles)

def requestFor (required : Right) : Request Text where
  principal := selfUid
  action := uid "Action".toList required.action.asStr
  resource := (resourceEntity required).uid

def CompiledCedar.authorize (compiled : CompiledCedar) (roles : List GrantedRole)
    (required : Right) : Bool :=
  isAuthorized compiled.policies (requestFor required)
    (entitiesFor compiled.scopedRoles roles required)

def Resource.isNamed : Resource → Bool
  | .site | .project | .secrets | .blobUpload => true
  | .blobs | .tokens | .certs | .cache | .system | .overlay => false

section Entities

variable {narrow : List Text} {r : List GrantedRole} {rq : Right}

theorem uid_inj {t ot id oi : Text} : uid t id = uid ot oi ↔ t = ot ∧ id = oi := by
  simp [uid]

theorem resourceType_injective : Function.Injective resourceType := by
  intro first second hs
  cases first <;> cases second <;> first | rfl | exact absurd hs (by decide)

theorem resourceEntity_uid_type :
    (resourceEntity rq).uid.type = NS ++ "::".toList ++ resourceType rq.resource := by
  unfold resourceEntity
  cases rq.resource <;> rfl

theorem resourceEntity_uid_ne {t id : Text} (hf : ∀ resource, resourceType resource ≠ t) :
    (resourceEntity rq).uid ≠ uid t id := by
  intro hs
  have ht := congrArg Uid.type hs
  rw [resourceEntity_uid_type] at ht
  exact hf rq.resource (append_cancel_left ht)

theorem lookup_principal : lookup (entitiesFor narrow r rq) selfUid =
      some (principalEntity selfUid r narrow) := by
  simp [entitiesFor, lookup, principalEntity]

theorem lookup_resource : lookup (entitiesFor narrow r rq) (resourceEntity rq).uid =
      some (resourceEntity rq) := by
  have ho : selfUid ≠ (resourceEntity rq).uid :=
    (resourceEntity_uid_ne (by intro rsc; cases rsc <;> decide)).symm
  simp [entitiesFor, lookup, principalEntity, ho]

theorem lookup_beyond {t id : Text} (hf : ∀ resource, resourceType resource ≠ t)
    (hno : t ≠ "Principal".toList) : lookup (entitiesFor narrow r rq) (uid t id) =
      lookup (actionEntities ++ roleEntities r) (uid t id) := by
  have hn : selfUid ≠ uid t id := fun hs => hno (uid_inj.mp hs).1.symm
  have hne : (resourceEntity rq).uid ≠ uid t id := resourceEntity_uid_ne hf
  simp [entitiesFor, lookup, principalEntity, hn, hne]

theorem parentsOf_action (act : Action) :
    parentsOf (entitiesFor narrow r rq) (uid "Action".toList act.asStr) =
      if act = .admin then [] else [uid "Action".toList Action.admin.asStr] := by
  unfold parentsOf
  rw [lookup_beyond (by intro rsc; cases rsc <;> decide) (by decide)]
  cases act <;> rfl

theorem parentsOf_role (rl : Text) :
    parentsOf (entitiesFor narrow r rq) (uid "Role".toList rl) = [] := by
  unfold parentsOf
  rw [lookup_beyond (by intro rsc; cases rsc <;> decide) (by decide)]
  have hc : ∀ e ∈ lookup (actionEntities ++ roleEntities r)
      (uid "Role".toList rl), e.parents = [] := by
    intro e hf
    have hl := mem_of_find?_eq_some hf
    have hn := find?_some hf
    rw [decide_eq_true_iff] at hn
    rw [mem_append] at hl
    cases hl with
    | inl ha =>
      have ht : ∀ e ∈ actionEntities, e.uid.type ≠ NS ++ "::".toList ++ "Role".toList := by
        decide
      exact absurd (congrArg Uid.type hn) (ht e ha)
    | inr hg =>
      obtain ⟨g, _, rfl⟩ := mem_map.mp hg
      rfl
  cases hf : lookup (actionEntities ++ roleEntities r) (uid "Role".toList rl) with
  | none => rfl
  | some e => exact hc e hf

theorem entitiesFor_ne_nil : entitiesFor narrow r rq ≠ [] := by
  simp [entitiesFor]

theorem principal_isIn_iff {role : Text} :
    isIn (entitiesFor narrow r rq) selfUid (uid "Role".toList role) = true ↔
      ∃ grant ∈ r, grant.name = role ∧ isSafeIdent role = true := by
  have parents : parentsOf (entitiesFor narrow r rq) selfUid =
      (principalEntity selfUid r narrow).parents := by
    unfold parentsOf
    rfl
  rw [isIn_iff_of_roots entitiesFor_ne_nil, parents]
  · have distinct : selfUid ≠ uid "Role".toList role := by
      intro same
      exact absurd (uid_inj.mp same).1 (by decide)
    simp only [distinct, false_or, principalEntity, mem_map, mem_filter, uid_inj, true_and]
    constructor
    · rintro ⟨grant, ⟨granted, safe⟩, rfl⟩
      exact ⟨grant, granted, rfl, safe⟩
    · rintro ⟨grant, granted, rfl, safe⟩
      exact ⟨grant, ⟨granted, safe⟩, rfl⟩
  intro parent listed
  obtain ⟨grant, _, rfl⟩ := mem_map.mp listed
  exact parentsOf_role grant.name

theorem Action.asStr_injective : Function.Injective Action.asStr := by
  intro first second hs
  cases first <;> cases second <;> first | rfl | exact absurd hs (by decide)

theorem action_isIn_admin (act : Action) :
    isIn (entitiesFor narrow r rq) (uid "Action".toList act.asStr)
      (uid "Action".toList "admin".toList) = true := by
  rw [isIn_iff_of_roots entitiesFor_ne_nil]
  · rw [parentsOf_action]
    cases act <;> decide
  intro p hl
  rw [parentsOf_action] at hl
  split at hl
  · cases hl
  · rw [mem_singleton.mp hl, parentsOf_action, if_pos rfl]

theorem actionScope_covers_iff {g act : Action} : (actionScope g).covers (entitiesFor narrow r rq)
        (uid "Action".toList act.asStr) = true ↔ covers g act := by
  have he (w : Action) (ho : w ≠ .admin) :
      decide (uid "Action".toList act.asStr = uid "Action".toList w.asStr) = true ↔
        covers w act := by
    unfold covers
    rw [decide_eq_true_iff, uid_inj, Action.asStr_injective.eq_iff, eq_comm (a := act),
      or_iff_left ho]
    exact and_iff_right rfl
  cases g with
  | admin =>
    refine iff_of_true ?_ (.inr rfl)
    simp only [actionScope, ActionScope.covers, any_cons, any_nil, Bool.or_false]
    exact action_isIn_admin act
  | read => exact he .read (by decide)
  | write => exact he .write (by decide)
  | deploy => exact he .deploy (by decide)

theorem resource_is_iff {rsc : Resource} :
    (requestFor rq).resource.type = NS ++ "::".toList ++ resourceType rsc ↔ rsc = rq.resource := by
  show (resourceEntity rq).uid.type = _ ↔ _
  rw [resourceEntity_uid_type, append_cancel_left_eq, resourceType_injective.eq_iff, eq_comm]

theorem mem_sitesOf_iff {rl tg : Text} : tg ∈ sitesOf r rl ↔
      (∃ g ∈ r, g.name = rl ∧ g.target = some tg) ∧ isConformingRoleTarget tg = true := by
  simp only [sitesOf, mem_filter, mem_filterMap, beq_iff_eq, and_assoc]

/-- Every scoped role has its attribute, even when the principal was not granted it. -/
theorem attributeOf_sites {rl : Text} (ht : rl ∈ narrow) :
    attributeOf (entitiesFor narrow r rq) (requestFor rq)
      ⟨.principal, sitesAttr rl⟩ = some (.set (sitesOf r rl)) := by
  have hp : lookup (entitiesFor narrow r rq) ((requestFor rq).uidOf .principal) =
      some (principalEntity selfUid r narrow) := lookup_principal
  simp only [attributeOf, hp, Option.bind_some, principalEntity, find?_map, Option.map_map]
  cases hf : narrow.find? ((fun e : Text × Value Text =>
      decide (e.1 = sitesAttr rl)) ∘ fun rl => (sitesAttr rl, Value.set (sitesOf r rl))) with
  | none => exact absurd (find?_eq_none.mp hf rl ht) (by simp)
  | some o =>
    have hs := find?_some hf
    simp only [Function.comp_apply, decide_eq_true_iff] at hs
    rw [append_cancel_right hs]
    rfl

theorem attributeOf_resource {name : Text} :
    attributeOf (entitiesFor narrow r rq) (requestFor rq) ⟨.resource, name⟩ =
      ((resourceEntity rq).attrs.find? fun e => decide (e.1 = name)).map
        Prod.snd := by
  have hr : lookup (entitiesFor narrow r rq)
      ((requestFor rq).uidOf .resource) = some (resourceEntity rq) := lookup_resource
  simp only [attributeOf, hr, Option.bind_some]

theorem resourceEntity_attrs : (resourceEntity rq).attrs =
    (if rq.resource.isNamed then [("name".toList, .string (rq.target.getD []))]
      else []) ++
    if rq.resource = .site then
      [("project".toList, .string (projectOf (rq.target.getD [])))] else [] := by
  unfold resourceEntity
  cases rq.resource <;> rfl

theorem project_ne_name : "project".toList ≠ "name".toList := by decide

theorem attributeOf_name_iff {text : Text} : attributeOf (entitiesFor narrow r rq) (requestFor rq)
        ⟨.resource, "name".toList⟩ = some (.string text) ↔
      rq.resource.isNamed = true ∧ rq.target.getD [] = text := by
  rw [attributeOf_resource, resourceEntity_attrs]
  cases hn : rq.resource.isNamed with
  | true =>
    simp only [if_true, singleton_append, find?_cons, decide_true, Option.map_some,
      Option.some.injEq, Value.string.injEq, true_and]
  | false =>
    have ho : rq.resource ≠ .site := by
      intro hs
      rw [hs] at hn
      cases hn
    rw [if_neg ho]
    simp only [Bool.false_eq_true, if_false, append_nil, find?_nil, Option.map_none,
      reduceCtorEq, false_and]

theorem attributeOf_project_iff {text : Text} :
    attributeOf (entitiesFor narrow r rq) (requestFor rq)
        ⟨.resource, "project".toList⟩ = some (.string text) ↔
      rq.resource = .site ∧ projectOf (rq.target.getD []) = text := by
  rw [attributeOf_resource, resourceEntity_attrs, find?_append]
  have hu : (if rq.resource.isNamed then
      [("name".toList, Value.string (rq.target.getD []))] else []).find?
        (fun e => decide (e.1 = "project".toList)) = none := by
    rw [find?_eq_none]
    intro e hi
    split at hi
    · rw [mem_singleton.mp hi]
      exact fun hsa => project_ne_name (of_decide_eq_true hsa).symm
    · cases hi
  rw [hu, Option.none_or]
  by_cases hs : rq.resource = .site
  · simp only [hs, if_true, find?_cons, decide_true, Option.map_some, Option.some.injEq,
      Value.string.injEq, true_and]
  · rw [if_neg hs]
    simp only [find?_nil, Option.map_none, reduceCtorEq, hs, false_and]

end Entities

/-- A granted right that a guard can express: a role's target is compared with the resource's name
as it stands, and only sites have a project. -/
def Expressible (granted : GrantedRole) (template : RightTemplate) (required : Right) : Prop :=
  match template.scope with
  | .anyTarget => True
  | .roleTarget => required.resource.isNamed = true ∧ required.target = granted.target
  | .projectWildcard => required.resource = .site

section Decisions

variable {pol : AuthzPolicy} {c : CompiledCedar} {r : List GrantedRole}
  {rq : Right}

open CompiledCedar

theorem compile_eq_ok (ha : compile pol = .ok c) :
    (∀ rl ∈ pol.roles.entries, isSafeIdent rl.1 = true) ∧ c.policies = generatePolicies pol ∧
      ∀ rl ∈ pol.roles.entries, rl.2.any (fun rule => rule.scope.isTargeted) = true →
        rl.1 ∈ c.scopedRoles := by
  unfold compile at ha
  split at ha
  next => cases ha
  next safe =>
  cases ha
  refine ⟨?_, rfl, ?_⟩
  · intro rl hl
    simpa using find?_eq_none.mp safe rl hl
  · intro rl hl ht
    exact mem_map.mpr ⟨rl, mem_filter.mpr ⟨hl, ht⟩, rfl⟩

theorem mem_generatePolicies_iff {p : Permit Text} : p ∈ generatePolicies pol ↔
      ∃ rl t rule, pol.roles.get? rl = some t ∧ rule ∈ t ∧ permitOf rl rule = p := by
  simp only [generatePolicies, mem_flatMap, mem_map, Prod.exists, mem_entries_iff]
  constructor
  · rintro ⟨rl, t, hf, rule, hl, hs⟩
    exact ⟨rl, t, rule, hf, hl, hs⟩
  · rintro ⟨rl, t, rule, hf, hl, hs⟩
    exact ⟨rl, t, hf, rule, hl, hs⟩

theorem guard_satisfied_iff {sc : List Text} {rl : Text} {rule : RightTemplate}
    (ht : rule.scope.isTargeted = true → rl ∈ sc) : (∀ gr ∈ guardOf rl rule.scope,
        gr.eval (entitiesFor sc r rq) (requestFor rq) = some true) ↔
      (rule.scope.isTargeted = true → ∃ g ∈ r, g.name = rl ∧ rule.scope.answers g.target rq.target ∧
        Expressible g rule rq) := by
  obtain ⟨rsc, act, s⟩ := rule
  cases s with
  | anyTarget => simp [guardOf, TargetScope.isTargeted]
  | roleTarget =>
    simp only [guardOf, Option.mem_some_iff, forall_eq', TargetScope.isTargeted, true_implies,
      Expressible]
    rw [Guard.eval_eq_some_true_iff (attributeOf_sites (ht rfl))]
    simp only [attributeOf_name_iff, mem_sitesOf_iff]
    constructor
    · rintro ⟨tg, ⟨⟨g, hh, hs, hb⟩, hc⟩, hn, hw⟩
      have ha := roleTarget_answers_iff.mpr ⟨tg, hb, hc, hw⟩
      exact ⟨g, hh, hs, ha.1, hn, ha.2⟩
    rintro ⟨g, hh, hs, ha, hn, he⟩
    obtain ⟨tg, hb, hc, hw⟩ := roleTarget_answers_iff.mp ⟨ha, he⟩
    exact ⟨tg, ⟨⟨g, hh, hs, hb⟩, hc⟩, hn, hw⟩
  | projectWildcard =>
    simp only [guardOf, Option.mem_some_iff, forall_eq', TargetScope.isTargeted, true_implies,
      Expressible]
    rw [Guard.eval_eq_some_true_iff (attributeOf_sites (ht rfl))]
    simp only [attributeOf_project_iff, mem_sitesOf_iff]
    constructor
    · rintro ⟨tg, ⟨⟨g, hh, hs, hb⟩, hc⟩, hsi, hw⟩
      have ha := projectWildcard_answers_iff.mpr ⟨tg, hb, hc, hw⟩
      exact ⟨g, hh, hs, ha, hsi⟩
    rintro ⟨g, hh, hs, ha, hsi⟩
    obtain ⟨tg, hb, hc, hw⟩ := projectWildcard_answers_iff.mp ha
    exact ⟨tg, ⟨⟨g, hh, hs, hb⟩, hc⟩, hsi, hw⟩

theorem permit_satisfied_iff {s : List Text} {rl : Text} {rule : RightTemplate}
    (hse : isSafeIdent rl = true) (hta : rule.scope.isTargeted = true → rl ∈ s) :
    (isIn (entitiesFor s r rq) selfUid (uid "Role".toList rl) = true ∧ ∀ gr ∈ guardOf rl rule.scope,
        gr.eval (entitiesFor s r rq) (requestFor rq) = some true) ↔ ∃ g ∈ r, g.name = rl ∧
        rule.scope.answers g.target rq.target ∧
        Expressible g rule rq := by
  rw [principal_isIn_iff, guard_satisfied_iff hta]
  constructor
  · intro hb
    by_cases ht : rule.scope.isTargeted = true
    · exact hb.2 ht
    -- without a guard, any grant of the role will do
    obtain ⟨g, hh, hsa, _⟩ := hb.1
    refine ⟨g, hh, hsa, ?_⟩
    unfold Expressible
    cases hs : rule.scope with
    | anyTarget => exact ⟨trivial, trivial⟩
    | roleTarget | projectWildcard => exact absurd (by rw [hs]; rfl) ht
  intro hf
  obtain ⟨g, hh, hsa, hr⟩ := hf
  exact ⟨⟨g, hh, hsa, hse⟩, fun _ => ⟨g, hh, hsa, hr⟩⟩

/-- The engine allows exactly what the granted roles confer through an expressible right. -/
theorem authorize_iff (hac : compile pol = .ok c) : c.authorize r rq = true ↔
      ∃ g rule, Granted pol r g rule ∧ Confers g rule rq ∧ Expressible g rule rq := by
  obtain ⟨hsa, hg, hta⟩ := compile_eq_ok hac
  unfold authorize
  rw [isAuthorized_iff, hg]
  constructor
  · rintro ⟨p, hl, hm, ha, hr, hgu⟩
    obtain ⟨rl, t, rule, hf, hi, rfl⟩ := mem_generatePolicies_iff.mp hl
    have he := (mem_entries_iff _ _ _).mpr hf
    have hs := (permit_satisfied_iff (hsa _ he) fun ht =>
      hta _ he (any_eq_true.mpr ⟨rule, hi, ht⟩)).mp ⟨hm, hgu⟩
    obtain ⟨g, hh, rfl, han, hex⟩ := hs
    exact ⟨g, rule, ⟨hh, t, hf, hi⟩,
      confers_iff.mpr ⟨resource_is_iff.mp hr, actionScope_covers_iff.mp ha, han⟩, hex⟩
  rintro ⟨g, rule, ⟨hh, t, hf, hi⟩, hc, hex⟩
  obtain ⟨hr, ha, han⟩ := confers_iff.mp hc
  have he := (mem_entries_iff _ _ _).mpr hf
  have hs := (permit_satisfied_iff (hsa _ he) fun ht =>
    hta _ he (any_eq_true.mpr ⟨rule, hi, ht⟩)).mpr ⟨g, hh, rfl, han, hex⟩
  exact ⟨permitOf g.name rule, mem_generatePolicies_iff.mpr ⟨_, t, rule, hf, hi, rfl⟩,
    hs.1, actionScope_covers_iff.mpr ha, resource_is_iff.mpr hr, hs.2⟩

/-- The engine never allows more than the roles confer. -/
theorem allows_of_authorize (ha : compile pol = .ok c)
    (hau : c.authorize r rq = true) : (pol.rightsFor r).allows rq = true := by
  obtain ⟨g, rule, hl, hc, _⟩ := (authorize_iff ha).mp hau
  exact AuthzPolicy.allows_rightsFor_iff.mpr ⟨g, rule, hl, hc⟩

end Decisions

/-- The engine and the expansion of the roles decide alike exactly when a right that is conferred
at all is also conferred in a way the guards can express. -/
theorem authorize_eq_allows_iff {policy : AuthzPolicy} {compiled : CompiledCedar}
    (accepted : CompiledCedar.compile policy = .ok compiled) (roles : List GrantedRole)
    (required : Right) :
    compiled.authorize roles required = (policy.rightsFor roles).allows required ↔
      ((∃ granted template, Granted policy roles granted template ∧
          Confers granted template required) →
        ∃ granted template, Granted policy roles granted template ∧
          Confers granted template required ∧ Expressible granted template required) := by
  rw [← authorize_iff accepted, ← AuthzPolicy.allows_rightsFor_iff]
  have hn := @allows_of_authorize policy compiled roles required accepted
  cases hd : compiled.authorize roles required with
  | true => simp [hn hd]
  | false => simp

namespace ProjectPublisher

def policy : AuthzPolicy where
  roles := ⟨[("publisher".toList, [⟨.site, .write, .roleTarget⟩])], by simp⟩

def compiled : CompiledCedar where
  policies := generatePolicies policy
  scopedRoles := ["publisher".toList]

theorem policy_accepted : CompiledCedar.compile policy = .ok compiled := rfl

def granted : GrantedRole := ⟨"publisher".toList, some "acme/*".toList⟩

def onSite (site : Text) : Right := ⟨.site, some site, .write⟩

/-- A grant on a single site is expressible, so the decisions agree there. -/
theorem blog_write_alike :
    compiled.authorize [⟨"publisher".toList, some "acme/blog".toList⟩] (onSite "acme/blog".toList) =
      (policy.rightsFor [⟨"publisher".toList, some "acme/blog".toList⟩]).allows
        (onSite "acme/blog".toList) := by
  refine (authorize_eq_allows_iff policy_accepted _ _).mpr fun _ => ?_
  refine ⟨⟨"publisher".toList, some "acme/blog".toList⟩, ⟨.site, .write, .roleTarget⟩,
    ⟨mem_singleton_self _, _, rfl, mem_singleton_self _⟩, by decide +kernel, rfl, rfl⟩

theorem wildcard_refused : CompiledCedar.compile policy = .ok compiled ∧
      compiled.authorize [granted] (onSite "acme/blog".toList) = false ∧
      (policy.rightsFor [granted]).allows (onSite "acme/blog".toList) = true := by
  refine ⟨rfl, ?_, ?_⟩
  · decide +kernel
  · decide +kernel

end ProjectPublisher

end BoatRamp.Auth
