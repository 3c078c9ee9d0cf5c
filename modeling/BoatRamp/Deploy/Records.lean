import BoatRamp.Deploy.Keys

/-!
# Records of the deploy store

What is stored under the keys.  A record is written in an encoding that is read
back as the record it was written from; a record of the wrong kind does not
parse.
-/

namespace BoatRamp.Deploy

open Library

inductive DeployError where
  | storage
  | hashMismatch (expected actual : Text)
  | notFound (message : Text)
  | conflict (message : Text)
  | invalid (message : Text)
  | incomplete (missing : List Text)
  | serde
  | pruneUnsafeWithFallback
  | aborted
  deriving DecidableEq

structure DomainConfig where
  primary : Option Text
  aliases : List Text
  wildcards : List Text
  contexts : SortedMap Text Text
  deriving DecidableEq

def DomainConfig.exactHosts (domains : DomainConfig) : List Text :=
  domains.primary.toList ++ domains.aliases

/-- The configuration of a site; what the store does not look at is `settings`. -/
structure SiteConfig (Settings : Type) where
  domains : DomainConfig
  settings : Settings
  deriving DecidableEq

structure DomainOwner where
  project : Text
  site : Text
  context : Option Text
  deriving DecidableEq

namespace DomainOwner

def withContext (owner : DomainOwner) (context : Text) : DomainOwner :=
  { owner with context := if context = [] then none else some context }

def sameOwner (first second : DomainOwner) : Bool :=
  first.project = second.project && first.site = second.site

end DomainOwner

inductive VerificationMethod where
  | dns
  | http
  deriving DecidableEq

structure DomainVerification where
  host : Text
  token : Text
  method : VerificationMethod
  verified : Bool
  createdAtUnix : Nat
  deriving DecidableEq

structure Variant where
  hash : Text
  size : Nat
  deriving DecidableEq

structure FileEntry where
  hash : Text
  size : Nat
  variants : SortedMap Text Variant
  deriving DecidableEq

structure Manifest (Settings : Type) where
  files : SortedMap Text FileEntry
  config : Settings
  deriving DecidableEq

def Manifest.blobHashes {Settings : Type} (manifest : Manifest Settings) : List Text :=
  manifest.files.entries.flatMap fun file =>
    file.2.hash :: file.2.variants.entries.map fun variant => variant.2.hash

structure DeployMeta where
  createdAt : Nat
  fileCount : Nat
  totalSize : Nat
  source : Option Text
  branch : Option Text
  author : Option Text
  message : Option Text
  tag : Option Text
  tags : SortedMap Text Text
  deriving DecidableEq

structure HistoryEntry where
  id : Text
  activatedAt : Nat
  deriving DecidableEq

structure FunctionVersion where
  id : Text
  component : Text
  deriving DecidableEq

structure Function where
  versions : List FunctionVersion
  active : Text
  deriving DecidableEq

inductive RootSource where
  | image (reference : Text)
  | tar (hash : Text)
  | rootfs (hash : Text)
  deriving DecidableEq

structure ComputeSpec (Settings : Type) where
  root : RootSource
  settings : Settings
  deriving DecidableEq

structure ComputeWorkload where
  name : Text
  active : Text
  deriving DecidableEq

/-- Pointers and markers are plain texts, everything else is an object. -/
inductive Record (Settings : Type) where
  | text (text : Text)
  | siteConfig (config : SiteConfig Settings)
  | contexts (contexts : SortedMap Text Text)
  | owner (owner : DomainOwner)
  | verification (verification : DomainVerification)
  | manifest (manifest : Manifest Settings)
  | deployMeta (deployMeta : DeployMeta)
  | history (history : List HistoryEntry)
  | function (function : Function)
  | spec (spec : ComputeSpec Settings)
  | workload (workload : ComputeWorkload)
  deriving DecidableEq

abbrev Kv (Settings : Type) := Store (Record Settings)

/-- The hashes of encoded bodies, and what the store asks about the settings of a site. -/
structure Formats (Settings : Type) where
  configHash : SiteConfig Settings → Text
  manifestId : Manifest Settings → Text
  standard : Settings
  validateGateway : Settings → Except Text Unit

end BoatRamp.Deploy
