import BoatRamp.Kv.Store
import BoatRamp.Library.Keyspace
import Mathlib.Data.Fintype.Basic

/-!
# Keys of the deploy store

The keys of the key/value store: bodies that are shared by all projects, the
index of hosts, and below `project/` what belongs to a project.  Names of
projects and sites have no slash in them.
-/

namespace BoatRamp.Deploy

open Library Keyspace

def MAX_RESOURCE_NAME_LEN : Nat := 63

def isSlugLetter (letter : Char) : Bool :=
  isAsciiAlphanumeric letter || letter = '-' || letter = '_'

/-- Letters, digits, dashes and underscores, with a letter or digit at both ends. -/
def isValidResourceSlug (name : Text) : Bool :=
  decide (name.length ≤ MAX_RESOURCE_NAME_LEN) && name.all isSlugLetter &&
    (name.head?.map isAsciiAlphanumeric).getD false &&
    (name.getLast?.map isAsciiAlphanumeric).getD false

/-- A name of a project, a site or a function. -/
structure ResourceName where
  text : Text
  valid : isValidResourceSlug text = true
  deriving DecidableEq

theorem ResourceName.slash_not_mem (name : ResourceName) : '/' ∉ name.text := by
  have hv := name.valid
  simp only [isValidResourceSlug, Bool.and_eq_true, List.all_eq_true] at hv
  intro hi
  exact absurd (hv.1.1.2 '/' hi) (by decide)

theorem ResourceName.text_inj {x second : ResourceName} : x.text = second.text ↔ x = second := by
  cases x
  cases second
  simp

instance : Coe ResourceName Text := ⟨ResourceName.text⟩

structure SiteRef where
  project : ResourceName
  site : ResourceName
  deriving DecidableEq

/-- Trimmed, without trailing dots and in small letters. -/
def canonHost (host : Text) : Text :=
  toAsciiLowercase (trimEnd (fun letter => letter = '.') (trim host))

/-- As `canonHost`, and without a leading wildcard. -/
def normalizeHost (host : Text) : Text :=
  let host := trimEnd (fun letter => letter = '.') (trim host)
  toAsciiLowercase ((stripHead "*.".toList host).getD host)

inductive Family where
  | manifests | deployMeta | siteconfig | domain | wildcard | httpchallenge | computever | project
  deriving DecidableEq

instance : Fintype Family where
  elems := {.manifests, .deployMeta, .siteconfig, .domain, .wildcard, .httpchallenge, .computever,
    .project}
  complete := by rintro (_ | _) <;> decide

def Family.tag : Family → Text
  | .manifests => "manifests/".toList
  | .deployMeta => "meta/".toList
  | .siteconfig => "siteconfig/".toList
  | .domain => "domain/".toList
  | .wildcard => "wildcard/".toList
  | .httpchallenge => "httpchallenge/".toList
  | .computever => "computever/".toList
  | .project => "project/".toList

def space : Keyspace Family Char where
  tag := Family.tag
  apart := by decide

inductive Scope where
  | current | currentPrincipal | aliases | site | sitecontexts | domainverify | history | functions
  | compute
  deriving DecidableEq

instance : Fintype Scope where
  elems := {.current, .currentPrincipal, .aliases, .site, .sitecontexts, .domainverify, .history,
    .functions, .compute}
  complete := by rintro (_ | _) <;> decide

def Scope.tag : Scope → Text
  | .current => "current/".toList
  | .currentPrincipal => "current-principal/".toList
  | .aliases => "alias/".toList
  | .site => "site/".toList
  | .sitecontexts => "sitecontexts/".toList
  | .domainverify => "domainverify/".toList
  | .history => "history/".toList
  | .functions => "functions/".toList
  | .compute => "compute/".toList

def scopes : Keyspace Scope Char where
  tag := Scope.tag
  apart := by decide

def scopedKey (project : Text) (scope : Scope) (rest : Text) : Text :=
  space.key .project (project ++ '/' :: scopes.key scope rest)

def manifestKey (id : Text) : Text := space.key .manifests id
def deployMetaKey (id : Text) : Text := space.key .deployMeta id
def siteConfigBlobKey (hash : Text) : Text := space.key .siteconfig hash
def domainKey (host : Text) : Text := space.key .domain (canonHost host)
def wildcardKey (suffix : Text) : Text := space.key .wildcard (canonHost suffix)
def httpChallengeIndexKey (host token : Text) : Text :=
  space.key .httpchallenge (normalizeHost host ++ '/' :: token)
def specKey (hash : Text) : Text := space.key .computever hash

variable (project site : Text)

def currentKey : Text := scopedKey project .current site
def currentPrefix (project : Text) : Text := scopedKey project .current []
def currentPrincipalKey : Text := scopedKey project .currentPrincipal site
def aliasPrefix : Text := scopedKey project .aliases (site ++ ['/'])
def aliasProjectPrefix (project : Text) : Text := scopedKey project .aliases []
def sitePointerKey : Text := scopedKey project .site site
def sitePrefix (project : Text) : Text := scopedKey project .site []
def siteContextsKey : Text := scopedKey project .sitecontexts site
def domainVerificationKey (project site host : Text) : Text :=
  scopedKey project .domainverify (site ++ '/' :: normalizeHost host)
def domainVerificationPrefix : Text :=
  scopedKey project .domainverify (site ++ ['/'])
def historyKey : Text := scopedKey project .history site
def historyPrefix (project : Text) : Text := scopedKey project .history []
def functionKey (project name : Text) : Text := scopedKey project .functions name
def functionsPrefix (project : Text) : Text := scopedKey project .functions []
def workloadKey (project name : Text) : Text := scopedKey project .compute name

def projectOfKey (key : Text) : Option Text :=
  (stripHead Family.project.tag key).bind fun rest =>
    (splitAll '/' rest).head?.filter fun project => project ≠ []

section Scoped

variable {p other : Text} {scope second : Scope} {rest last : Text}

theorem scopedKey_inj (hc : '/' ∉ p) (ha : '/' ∉ other) :
    scopedKey p scope rest = scopedKey other second last ↔
      p = other ∧ scope = second ∧ rest = last := by
  rw [scopedKey, scopedKey, key_inj, segment_inj hc ha, key_inj]
  simp

@[simp]
theorem scopedKey_ne_key {fam : Family} (hd : fam ≠ .project) :
    scopedKey p scope rest ≠ space.key fam last := by
  intro hs
  rw [scopedKey, key_inj] at hs
  exact hd hs.1.symm

theorem eq_scopedKey_of_isPrefix {key : Text} (hb : scopedKey p scope rest <+: key) :
    ∃ m, key = scopedKey p scope (rest ++ m) := by
  obtain ⟨m, rfl⟩ := hb
  exact ⟨m, by simp [scopedKey, key]⟩

end Scoped

end BoatRamp.Deploy
