import BoatRamp.Splice.Connection

/-!
# Routing without the request's attributes

The serving pipeline builds a request's attributes only when some rule has a
condition, and classification never builds them.  Destinations read the
attributes too, through their templates, so both shortcuts can be seen; this
module says of which rules, templates and requests they are not.
-/

namespace BoatRamp.Splice

open Library Routing Gateway Tracked Option List

section

variable {Entry Address : Type} [CaseFolding] (config : DeployConfig)

/-- Where a destination leads: its expressions evaluated and its captures filled in. -/
def destination (env : EvalEnv) (found : Match) (dest : Text) : Text :=
  found.expand (interpolateTo dest env).result

/-- A rule whose source matches leads to the same place without the request's attributes. -/
def Agrees (files : SortedMap Text Entry) (path : Text) (ctx : RequestContext)
    (source dest : Text) : Prop :=
  ∀ found, matchRule config source path = some found →
    destination (routingEnv config files path .default) found dest =
      destination (routingEnv config files path ctx) found dest

/-- What a rewrite whose source and condition match is answered with, if anything. -/
def rewritten (files : SortedMap Text Entry) (env : EvalEnv) (rewrite : Rewrite) :
    Option (Outcome Entry) :=
  match matchRule config rewrite.source env.path with
  | none => none
  | some found =>
      let target := destination env found rewrite.dest
      if (evalWhen rewrite.condition env).result = false then none
      else if isAbsoluteUrl target then some (.proxy target)
      else (resolveFile config files target).map fun file => .file file.1 file.2

section Unconditional

variable {config} {first second : EvalEnv} (path : first.path = second.path)

include path

end Unconditional

end

namespace Localised

def head : Octets :=
  toUtf8 "GET / HTTP/1.1\r\nHost: shop.example\r\nX-Country: it\r\n\r\n".toList

abbrev files : SortedMap Text Unit := .empty

def shop (config : DeployConfig) : SpliceCtx Unit Nat :=
  { TwoSites.ctx with currentManifest := fun _ _ => some (some ⟨config, .empty⟩) }

end Localised

end BoatRamp.Splice
