import BoatRamp.Text
import BoatRamp.Library.SortedMap

/-!
# Rights and role policies

A right is an action on a resource, on one target or on any.  A policy maps
role names to right templates; the roles granted to a principal expand to the
rights it holds, and a request is allowed when one of them satisfies the right
it requires.
-/

namespace BoatRamp.Auth

open Library List

inductive Action where
  | read
  | write
  | deploy
  | admin
  deriving DecidableEq

def Action.asStr : Action → Text
  | .read => "read".toList
  | .write => "write".toList
  | .deploy => "deploy".toList
  | .admin => "admin".toList

inductive Resource where
  | site
  | project
  | secrets
  | blobs
  | blobUpload
  | tokens
  | certs
  | cache
  | system
  | overlay
  deriving DecidableEq

def Resource.asStr : Resource → Text
  | .site => "site".toList
  | .project => "project".toList
  | .secrets => "secrets".toList
  | .blobs => "blobs".toList
  | .blobUpload => "blob_upload".toList
  | .tokens => "tokens".toList
  | .certs => "certs".toList
  | .cache => "cache".toList
  | .system => "system".toList
  | .overlay => "overlay".toList

structure Right where
  resource : Resource
  target : Option Text
  action : Action
  deriving DecidableEq

inductive TargetScope where
  | anyTarget
  | roleTarget
  | projectWildcard

def TargetScope.isTargeted : TargetScope → Bool
  | .anyTarget => false
  | .roleTarget | .projectWildcard => true

structure RightTemplate where
  resource : Resource
  action : Action
  scope : TargetScope

structure GrantedRole where
  name : Text
  target : Option Text
  deriving DecidableEq

structure AuthzPolicy where
  roles : SortedMap Text (List RightTemplate)

def MAX_RESOURCE_NAME_LEN : Nat := 63

/-- A label of 1 to 63 letters and digits; underscores and hyphens stand inside only.  Every byte
of a character outside ASCII is refused as the character is. -/
def isValidResourceSlug (value : Text) : Bool :=
  let inner (letter : Char) := isAsciiAlphanumeric letter || letter == '_' || letter == '-'
  if value.isEmpty || MAX_RESOURCE_NAME_LEN < byteLength value then false
  else value.all inner && value.head?.all isAsciiAlphanumeric &&
    value.getLast?.all isAsciiAlphanumeric

def isConformingRoleTarget (target : Text) : Bool :=
  match splitOnceAt '/' target with
  | some (project, site) =>
      if site = ['*'] then isValidResourceSlug project
      else !site.contains '/' && isValidResourceSlug project && isValidResourceSlug site
  | none => isValidResourceSlug target

def projectOf (target : Text) : Text :=
  match splitOnceAt '/' target with
  | some (project, _) => project
  | none => target

def wildcardEnd : Text := "/*".toList

def targetMatches (granted required : Option Text) : Bool :=
  match granted with
  | none => true
  | some target =>
      if !isConformingRoleTarget target then false
      else
        match stripTail wildcardEnd target with
        | some project => required.any fun wanted => projectOf wanted == project
        | none => required == some target

def Right.satisfies (granted required : Right) : Bool :=
  granted.resource == required.resource &&
    (granted.action == required.action || granted.action == .admin) &&
    targetMatches granted.target required.target

structure RightSet where
  rights : List Right

def RightSet.insert (set : RightSet) (right : Right) : RightSet :=
  if set.rights.contains right then set else ⟨set.rights ++ [right]⟩

def RightSet.allows (set : RightSet) (required : Right) : Bool :=
  set.rights.any fun granted => granted.satisfies required

def RightTemplate.bindTo (template : RightTemplate) (granted : GrantedRole) : Option Right :=
  match template.scope with
  | .anyTarget => some ⟨template.resource, none, template.action⟩
  | .roleTarget =>
      granted.target.map fun target => ⟨template.resource, some target, template.action⟩
  | .projectWildcard =>
      granted.target.map fun target =>
        ⟨template.resource, some (target ++ wildcardEnd), template.action⟩

def AuthzPolicy.rightsFor (policy : AuthzPolicy) (roles : List GrantedRole) : RightSet :=
  roles.foldl (fun set granted =>
    match policy.roles.get? granted.name with
    | none => set
    | some templates =>
        templates.foldl (fun set template =>
          match template.bindTo granted with
          | none => set
          | some right => set.insert right) set) ⟨[]⟩

theorem RightSet.mem_insert_iff {set : RightSet} {r o : Right} :
    o ∈ (set.insert r).rights ↔ o ∈ set.rights ∨ o = r := by
  unfold RightSet.insert
  split
  next present =>
    rw [contains_iff_mem] at present
    exact ⟨.inl, fun hh => hh.elim id fun hs => hs ▸ present⟩
  next => simp

structure Granted (policy : AuthzPolicy) (roles : List GrantedRole) (granted : GrantedRole)
    (template : RightTemplate) : Prop where
  held : granted ∈ roles
  listed : ∃ templates, policy.roles.get? granted.name = some templates ∧ template ∈ templates

theorem mem_foldl_bindTo_iff {t : List RightTemplate} {g : GrantedRole}
    {set : RightSet} {r : Right} : r ∈ (t.foldl (fun set tm =>
        match tm.bindTo g with
        | none => set
        | some r => set.insert r) set).rights ↔
      r ∈ set.rights ∨ ∃ tm ∈ t, tm.bindTo g = some r := by
  induction t generalizing set with
  | nil => simp
  | cons tm rest ih =>
    rw [foldl_cons, ih]
    cases hb : tm.bindTo g with
    | none => simp [hb]
    | some x =>
      simp only [RightSet.mem_insert_iff, mem_cons, exists_eq_or_imp, hb,
        Option.some.injEq, or_assoc]
      rw [eq_comm (a := r)]

theorem AuthzPolicy.mem_rightsFor_iff {pol : AuthzPolicy} {rl : List GrantedRole} {r : Right} :
    r ∈ (pol.rightsFor rl).rights ↔ ∃ g tm, Granted pol rl g tm ∧ tm.bindTo g = some r := by
  suffices hg : ∀ set : RightSet, r ∈ (rl.foldl (fun set g =>
      match pol.roles.get? g.name with
      | none => set
      | some t =>
        t.foldl (fun set tm =>
          match tm.bindTo g with
          | none => set
          | some r => set.insert r) set) set).rights ↔
      r ∈ set.rights ∨ ∃ g tm, Granted pol rl g tm ∧ tm.bindTo g = some r by
    refine (hg ⟨[]⟩).trans ?_
    simp
  induction rl with
  | nil =>
    intro set
    refine ⟨.inl, fun hh => hh.elim id ?_⟩
    rintro ⟨g, tm, ⟨hh, _⟩, _⟩
    cases hh
  | cons g rest ih =>
    intro set
    rw [foldl_cons, ih]
    have hs : (∃ o tm, Granted pol (g :: rest) o tm ∧ tm.bindTo o = some r) ↔
        (∃ t, pol.roles.get? g.name = some t ∧ ∃ tm ∈ t, tm.bindTo g = some r) ∨
        ∃ o tm, Granted pol rest o tm ∧ tm.bindTo o = some r := by
      constructor
      · rintro ⟨o, tm, ⟨hh, t, hf, hl⟩, hb⟩
        cases hh with
        | head => exact .inl ⟨t, hf, tm, hl, hb⟩
        | tail _ hla => exact .inr ⟨o, tm, ⟨hla, t, hf, hl⟩, hb⟩
      rintro (⟨t, hf, tm, hl, hb⟩ | ⟨o, tm, hla, hb⟩)
      · exact ⟨g, tm, ⟨mem_cons_self, t, hf, hl⟩, hb⟩
      · exact ⟨o, tm, ⟨mem_cons_of_mem _ hla.held, hla.listed⟩, hb⟩
    rw [hs, ← or_assoc]
    apply or_congr_left
    cases pol.roles.get? g.name with
    | none => simp
    | some t => simp [mem_foldl_bindTo_iff]

def Confers (granted : GrantedRole) (template : RightTemplate) (required : Right) : Prop :=
  ∃ right, template.bindTo granted = some right ∧ right.satisfies required = true

instance (granted : GrantedRole) (template : RightTemplate) (required : Right) :
    Decidable (Confers granted template required) :=
  match bound : template.bindTo granted with
  | none => isFalse fun ⟨_, same, _⟩ => by simp [bound] at same
  | some right =>
    decidable_of_iff (right.satisfies required = true)
      ⟨fun satisfied => ⟨right, bound, satisfied⟩, fun ⟨_, same, satisfied⟩ =>
        Option.some.inj (bound.symm.trans same) ▸ satisfied⟩

theorem AuthzPolicy.allows_rightsFor_iff {pol : AuthzPolicy} {rl : List GrantedRole} {rq : Right} :
    (pol.rightsFor rl).allows rq = true ↔ ∃ g tm, Granted pol rl g tm ∧ Confers g tm rq := by
  unfold RightSet.allows
  rw [any_eq_true]
  constructor
  · rintro ⟨r, hh, hs⟩
    obtain ⟨g, tm, hl, hb⟩ := mem_rightsFor_iff.mp hh
    exact ⟨g, tm, hl, r, hb, hs⟩
  · rintro ⟨g, tm, hl, r, hb, hs⟩
    exact ⟨r, mem_rightsFor_iff.mpr ⟨g, tm, hl, hb⟩, hs⟩

/-- The expansion of a template conforms to the granted action when the actions agree or the
granted one is the superuser's. -/
def covers (granted required : Action) : Prop := granted = required ∨ granted = .admin

def TargetScope.answers (scope : TargetScope) (granted required : Option Text) : Prop :=
  match scope with
  | .anyTarget => True
  | .roleTarget => ∃ target, granted = some target ∧ targetMatches (some target) required = true
  | .projectWildcard =>
      ∃ target, granted = some target ∧
        targetMatches (some (target ++ wildcardEnd)) required = true

theorem confers_iff {g : GrantedRole} {tm : RightTemplate} {rq : Right} : Confers g tm rq ↔
      tm.resource = rq.resource ∧ covers tm.action rq.action ∧
        tm.scope.answers g.target rq.target := by
  unfold Confers RightTemplate.bindTo TargetScope.answers covers
  cases tm.scope with
  | anyTarget => simp [Right.satisfies, targetMatches, and_assoc]
  | roleTarget | projectWildcard => cases g.target <;> simp [Right.satisfies, and_assoc]

theorem ne_nil_of_slug {v : Text} (hs : isValidResourceSlug v = true) : v ≠ [] := by
  rintro rfl
  exact absurd hs (by decide)

theorem not_mem_slash_of_slug {v : Text} (hsl : isValidResourceSlug v = true) : '/' ∉ v := by
  intro hs
  simp only [isValidResourceSlug, Bool.if_false_left, Bool.and_eq_true, all_eq_true] at hsl
  exact absurd (hsl.2.1.1 '/' hs) (by decide)

variable {tg pr : Text} {r : Option Text}

theorem ne_nil_of_conforming (hc : isConformingRoleTarget tg = true) : tg ≠ [] := by
  rintro rfl
  exact absurd hc (by decide)

theorem slash_not_mem_projectOf (tg : Text) : '/' ∉ projectOf tg := by
  unfold projectOf
  split
  next split => exact (splitOnceAt_eq_some_iff.mp split).2
  next unsplit => exact splitOnceAt_eq_none_iff.mp unsplit

theorem stripTail_append (text tail : Text) : stripTail tail (text ++ tail) = some text := by
  simp [stripTail]

theorem eq_append_of_stripTail {tail text rest : Text} (hs : stripTail tail text = some rest) :
    text = rest ++ tail := by
  unfold stripTail at hs
  split at hs
  next suffix =>
    cases hs
    obtain ⟨f, rfl⟩ := suffix
    simp
  next => cases hs

theorem splitOnce_wildcard (hw : '/' ∉ pr) :
    splitOnceAt '/' (pr ++ wildcardEnd) = some (pr, ['*']) :=
  splitOnceAt_eq_some_iff.mpr ⟨rfl, hw⟩

theorem slug_of_conforming_wildcard (hc : isConformingRoleTarget (pr ++ wildcardEnd) = true) :
    isValidResourceSlug pr = true := by
  by_cases hw : '/' ∈ pr
  · -- a second slash would stand in the site, which is then no slug
    obtain ⟨f, b, rfl, hcl⟩ : ∃ f b, pr = f ++ '/' :: b ∧ '/' ∉ f := by
      cases hs : splitOnceAt '/' pr with
      | none => exact absurd hw (splitOnceAt_eq_none_iff.mp hs)
      | some p => exact ⟨p.1, p.2, splitOnceAt_eq_some_iff.mp hs⟩
    have hs : splitOnceAt '/' (f ++ '/' :: b ++ wildcardEnd) = some (f, b ++ wildcardEnd) :=
      splitOnceAt_eq_some_iff.mpr ⟨by simp, hcl⟩
    have hl : b ++ wildcardEnd ≠ ['*'] := by
      intro hsa
      have hco := congrArg length hsa
      simp [wildcardEnd] at hco
    unfold isConformingRoleTarget at hc
    rw [hs] at hc
    simp only [hl, if_false, Bool.and_eq_true] at hc
    exact absurd hc.1.1 (by simp [wildcardEnd])
  · simpa [isConformingRoleTarget, splitOnce_wildcard hw] using hc

theorem conforming_wildcard_iff :
    isConformingRoleTarget (pr ++ wildcardEnd) = true ↔ isValidResourceSlug pr = true := by
  refine ⟨slug_of_conforming_wildcard, fun hs => ?_⟩
  simpa [isConformingRoleTarget, splitOnce_wildcard (not_mem_slash_of_slug hs)] using hs

theorem conforming_iff_slug (hb : '/' ∉ tg) :
    isConformingRoleTarget tg = true ↔ isValidResourceSlug tg = true := by
  simp [isConformingRoleTarget, splitOnceAt_eq_none_iff.mpr hb]

theorem targetMatches_self (hc : isConformingRoleTarget tg = true) :
    targetMatches (some tg) (some tg) = true := by
  simp only [targetMatches, hc, Bool.not_true, Bool.false_eq_true, if_false]
  cases hs : stripTail wildcardEnd tg with
  | none => simp
  | some pr =>
    have hj := eq_append_of_stripTail hs
    rw [hj] at hc
    have hw := not_mem_slash_of_slug (slug_of_conforming_wildcard hc)
    simp [hj, projectOf, splitOnce_wildcard hw]

theorem conforming_of_targetMatches (hc : targetMatches (some tg) r = true) :
    isConformingRoleTarget tg = true := by
  by_contra hu
  simp [targetMatches, hu] at hc

theorem roleTarget_answers_iff {g : Option Text} : TargetScope.roleTarget.answers g r ∧ r = g ↔
      ∃ tg, g = some tg ∧ isConformingRoleTarget tg = true ∧ r.getD [] = tg := by
  constructor
  · rintro ⟨⟨tg, rfl, hco⟩, rfl⟩
    exact ⟨tg, rfl, conforming_of_targetMatches hco, rfl⟩
  rintro ⟨tg, rfl, hc, hn⟩
  have hs : r = some tg := by
    cases r with
    | none => exact absurd hn.symm (ne_nil_of_conforming hc)
    | some w => exact congrArg some hn
  exact ⟨⟨tg, rfl, hs ▸ targetMatches_self hc⟩, hs⟩

theorem projectWildcard_answers_iff {g : Option Text} : TargetScope.projectWildcard.answers g r ↔
      ∃ tg, g = some tg ∧ isConformingRoleTarget tg = true ∧ projectOf (r.getD []) = tg := by
  constructor
  · rintro ⟨tg, rfl, hc⟩
    have hs := slug_of_conforming_wildcard (conforming_of_targetMatches hc)
    have hb := not_mem_slash_of_slug hs
    refine ⟨tg, rfl, (conforming_iff_slug hb).mpr hs, ?_⟩
    simp only [targetMatches, conforming_wildcard_iff.mpr hs, stripTail_append, Bool.not_true,
      Bool.false_eq_true, if_false] at hc
    cases r with
    | none => cases hc
    | some w => simpa using hc
  rintro ⟨tg, rfl, hco, pr⟩
  have hb : '/' ∉ tg := pr ▸ slash_not_mem_projectOf _
  have hs := (conforming_iff_slug hb).mp hco
  refine ⟨tg, rfl, ?_⟩
  cases r with
  | none => exact absurd pr.symm (ne_nil_of_slug hs)
  | some w =>
    simpa [targetMatches, conforming_wildcard_iff.mpr hs, stripTail_append] using pr

end BoatRamp.Auth
