import BoatRamp.Library.SortedMap
import BoatRamp.Routing.Syntax

/-!
# Path patterns

A pattern is compiled to a sequence of items and matched, anchored at both
ends, the way the regular expression it stands for is: each item takes the
longest run for which the rest of the pattern still matches.
-/

namespace BoatRamp.Routing

open Library

class CaseFolding where
  same : Char → Char → Bool

@[reducible]
def asciiFolding : CaseFolding where
  same first second := first.toLower == second.toLower

inductive PatternItem where
  | literal (letter : Char)
  /-- A single star: a run within one segment. -/
  | star
  /-- A double star: any run. -/
  | splat
  | param (name : Text)

def PatternItem.name? : PatternItem → Option Text
  | .param name => some name
  | _ => none

structure Pattern where
  items : List PatternItem
  caseInsensitive : Bool

structure Match where
  params : SortedMap Text Text
  splat : Option Text

namespace Pattern

def compileItems (pattern : Text) : (fuel : Nat) → (hasSplat : Bool) → Text →
    Except ConfigError (List PatternItem)
  | _, _, [] => pure []
  | 0, _, _ => .error (.pattern pattern [])
  | fuel + 1, hasSplat, '*' :: '*' :: rest =>
      if hasSplat then .error (.pattern pattern "at most one `**` allowed".toList)
      else do
        pure (.splat :: (← compileItems pattern fuel true rest))
  | fuel + 1, hasSplat, '*' :: rest => do
      pure (.star :: (← compileItems pattern fuel hasSplat rest))
  | fuel + 1, hasSplat, ':' :: rest =>
      let name := rest.takeWhile isIdentLetter
      if name = [] then .error (.pattern pattern "`:` must be followed by a name".toList)
      else if name = "splat".toList then
        .error (.pattern pattern "`:splat` is reserved; use `**`".toList)
      else do
        pure (.param name :: (← compileItems pattern fuel hasSplat (rest.dropWhile isIdentLetter)))
  | fuel + 1, hasSplat, letter :: rest => do
      pure (.literal letter :: (← compileItems pattern fuel hasSplat rest))

def names (items : List PatternItem) : List Text := items.filterMap PatternItem.name?

def groupNamesValid (items : List PatternItem) : Bool :=
  decide (names items).Nodup && (names items).all fun name => !(name.head?.any isAsciiDigit)

def compileWith (pattern : Text) (caseInsensitive : Bool) : Except ConfigError Pattern := do
  let items ← compileItems pattern pattern.length false pattern
  if groupNamesValid items then pure ⟨items, caseInsensitive⟩
  else .error (.pattern pattern "regex parse error".toList)

def compile (pattern : Text) : Except ConfigError Pattern := compileWith pattern false

def runs (allowed : Char → Bool) : Text → List (Text × Text)
  | [] => [([], [])]
  | letter :: rest =>
      (if allowed letter then (runs allowed rest).map fun cut => (letter :: cut.1, cut.2) else []) ++
        [([], letter :: rest)]

variable [CaseFolding]

def sameLetter (caseInsensitive : Bool) (first second : Char) : Bool :=
  first == second || (caseInsensitive && CaseFolding.same first second)

def matchItems (caseInsensitive : Bool) : List PatternItem → Text → Option (List (Text × Text))
  | [], [] => some []
  | [], _ :: _ => none
  | .literal _ :: _, [] => none
  | .literal letter :: items, found :: rest =>
      if sameLetter caseInsensitive letter found then matchItems caseInsensitive items rest
      else none
  | .star :: items, text =>
      (runs (· ≠ '/') text).findSome? fun cut => matchItems caseInsensitive items cut.2
  | .splat :: items, text =>
      (runs (· ≠ '\n') text).findSome? (fun cut =>
        (matchItems caseInsensitive items cut.2).map (("splat".toList, cut.1) :: ·))
  | .param name :: items, text =>
      ((runs (· ≠ '/') text).filter fun cut => cut.1 ≠ []).findSome? (fun cut =>
        (matchItems caseInsensitive items cut.2).map ((name, cut.1) :: ·))

def capture (captures : List (Text × Text)) (name : Text) : Option Text :=
  (captures.find? fun entry => entry.1 = name).map Prod.snd

def matchPath (pattern : Pattern) (path : Text) : Option Match :=
  (matchItems pattern.caseInsensitive pattern.items path).map (fun captures =>
    { params := (names pattern.items).foldl (fun params name =>
        match capture captures name with
        | some value => params.insert name value
        | none => params) .empty
      splat := capture captures "splat".toList })

def isMatch (pattern : Pattern) (path : Text) : Bool :=
  (matchItems pattern.caseInsensitive pattern.items path).isSome

end Pattern

namespace Match

/-- What a placeholder stands for; unknown ones stay as they are. -/
def placeholder (found : Match) (name : Text) : Text :=
  if name = "splat".toList then found.splat.getD []
  else match found.params.get? name with
  | some value => value
  | none => ':' :: name

def expandFrom (found : Match) : (fuel : Nat) → Text → Text
  | _, [] => []
  | 0, target => target
  | fuel + 1, ':' :: rest =>
      found.placeholder (rest.takeWhile isIdentLetter) ++
        expandFrom found fuel (rest.dropWhile isIdentLetter)
  | fuel + 1, letter :: rest => letter :: expandFrom found fuel rest

def expand (found : Match) (target : Text) : Text := found.expandFrom target.length target

end Match

end BoatRamp.Routing
