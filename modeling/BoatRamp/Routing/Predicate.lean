import BoatRamp.Library.SortedMap
import BoatRamp.Routing.Syntax

/-!
# Routing conditions and destination templates

An expression is type-checked once, when it is compiled; the check also yields
the request headers its value may depend on.  Evaluation reads the request, the
routed path and the files of the deployment.
-/

namespace BoatRamp.Routing

open Library List

/-- The request attributes an expression can read. -/
structure RequestContext where
  method : Text
  host : Text
  /-- Keyed by lower-case name. -/
  headers : SortedMap Text Text
  cookies : SortedMap Text Text
  query : SortedMap Text Text
  /-- Accepted language tags, the preferred ones first, in lower case. -/
  acceptLanguages : List Text
  deriving DecidableEq

namespace RequestContext

protected def default : RequestContext where
  method := []
  host := []
  headers := .empty
  cookies := .empty
  query := .empty
  acceptLanguages := []

def primarySubtag (tag : Text) : Text := tag.takeWhile (· ≠ '-')

def acceptsLanguage (ctx : RequestContext) (tag : Text) : Bool :=
  let want := toAsciiLowercase tag
  ctx.acceptLanguages.any
    (fun accepted => accepted == want || primarySubtag accepted == primarySubtag want)

def prefersLanguage (ctx : RequestContext) (available : List Text) : Text :=
  (available.find? ctx.acceptsLanguage).getD []

end RequestContext

inductive ValueType where
  | bool
  | str
  | int
  | list
  deriving DecidableEq

def ValueType.name : ValueType → Text
  | .bool => "bool".toList
  | .str => "string".toList
  | .int => "int".toList
  | .list => "list".toList

def expectType (got : Except ConfigError ValueType) (want : ValueType) :
    Except ConfigError Unit := do
  let got ← got
  if got = want then pure ()
  else .error (.parse
    ("expected ".toList ++ want.name ++ " in routing `when`, got ".toList ++ got.name))

variable (name : Text)

def checkVar : Except ConfigError ValueType :=
  if name ∈ ["method".toList, "host".toList, "path".toList] then pure .str
  else .error (.parse ("unknown variable ".toList ++ debugText name ++
    " in routing `when` (known: method, host, path)".toList))

def arity (args : List Expr) (count : Nat) : Except ConfigError Unit :=
  if args.length = count then pure ()
  else .error (.parse (name ++ "() takes ".toList ++ (toString count).toList ++
    " argument(s), got ".toList ++ (toString args.length).toList ++ " in routing `when`".toList))

def checkCall (args : List Expr) (first : Except ConfigError ValueType) :
    Except ConfigError ValueType :=
  if name ∈ ["header".toList, "cookie".toList, "query".toList] then do
    arity name args 1
    match args with
    | .str _ :: _ => pure .str
    | _ => .error (.parse (name ++ "() needs a string-literal name in routing `when`".toList))
  else if name ∈ ["file_exists".toList, "accepts_language".toList] then do
    arity name args 1
    expectType first .str
    pure .bool
  else if name = "prefers_language".toList then do
    arity name args 1
    expectType first .list
    pure .str
  else
    .error (.parse ("unknown function ".toList ++ debugText name ++
      (" in routing `when` (known: header, cookie, " ++
        "query, file_exists, accepts_language, prefers_language)").toList))

def checkReceiver (recv : ValueType) : Except ConfigError Unit :=
  if name = "contains".toList then
    if recv ≠ .str ∧ recv ≠ .list then
      .error (.parse ".contains() applies to a string or list in routing `when`".toList)
    else pure ()
  else if recv ≠ .str then
    .error (.parse ('.' :: name ++ "() applies to a string in routing `when`".toList))
  else pure ()

def checkMethod (recv : Except ConfigError ValueType) (name : Text) (args : List Expr)
    (first : Except ConfigError ValueType) : Except ConfigError ValueType :=
  if name ∈ ["startsWith".toList, "endsWith".toList, "contains".toList] then
    if args.length ≠ 1 then
      .error (.parse ('.' :: name ++ "() takes 1 argument in routing `when`".toList))
    else do
      checkReceiver name (← recv)
      let _ ← first
      pure .bool
  else
    .error (.parse ("unknown method .".toList ++ name ++
      "() in routing `when` (known: startsWith, endsWith, contains)".toList))

def checkComparison (lhs rhs : Except ConfigError ValueType) : Except ConfigError ValueType := do
  let lhs ← lhs
  let rhs ← rhs
  if lhs = rhs then pure .bool
  else .error (.parse ("cannot compare ".toList ++ lhs.name ++ " to ".toList ++ rhs.name ++
    " in routing `when`".toList))

mutual

def check : Expr → Except ConfigError ValueType
  | .str _ => pure .str
  | .int _ => pure .int
  | .bool _ => pure .bool
  | .list items => do
      checkAll items
      pure .list
  | .var name => checkVar name
  | .call name args => checkCall name args (checkFirst args)
  | .method recv name args => checkMethod (check recv) name args (checkFirst args)
  | .not inner => do
      expectType (check inner) .bool
      pure .bool
  | .and lhs rhs => do
      expectType (check lhs) .bool
      expectType (check rhs) .bool
      pure .bool
  | .or lhs rhs => do
      expectType (check lhs) .bool
      expectType (check rhs) .bool
      pure .bool
  | .eq lhs rhs => checkComparison (check lhs) (check rhs)
  | .notEq lhs rhs => checkComparison (check lhs) (check rhs)
  | .in lhs rhs => do
      let _ ← check lhs
      expectType (check rhs) .list
      pure .bool
  | .concat lhs rhs => do
      expectType (check lhs) .str
      expectType (check rhs) .str
      pure .str

def checkAll : List Expr → Except ConfigError Unit
  | [] => pure ()
  | item :: items => do
      let _ ← check item
      checkAll items

def checkFirst : List Expr → Except ConfigError ValueType
  | [] => .error (expected "expected an argument")
  | item :: _ => check item

end

def varyOfCall (name : Text) (args : List Expr) : List Text :=
  if name = "header".toList then
    match args with
    | .str header :: _ => [toAsciiLowercase header]
    | _ => []
  else if name = "cookie".toList then ["cookie".toList]
  else if name ∈ ["accepts_language".toList, "prefers_language".toList] then
    ["accept-language".toList]
  else []

mutual

def collectVary : Expr → List Text
  | .call name args => varyOfCall name args ++ collectVaryAll args
  | .method recv _ args => collectVary recv ++ collectVaryAll args
  | .list items => collectVaryAll items
  | .not inner => collectVary inner
  | .and lhs rhs => collectVary lhs ++ collectVary rhs
  | .or lhs rhs => collectVary lhs ++ collectVary rhs
  | .eq lhs rhs => collectVary lhs ++ collectVary rhs
  | .notEq lhs rhs => collectVary lhs ++ collectVary rhs
  | .in lhs rhs => collectVary lhs ++ collectVary rhs
  | .concat lhs rhs => collectVary lhs ++ collectVary rhs
  | .str _ | .int _ | .bool _ | .var _ => []

def collectVaryAll : List Expr → List Text
  | [] => []
  | item :: items => collectVary item ++ collectVaryAll items

end

def dedup : List Text → List Text
  | [] => []
  | [name] => [name]
  | first :: second :: rest =>
      if first = second then dedup (second :: rest) else first :: dedup (second :: rest)

def sortDedup (vary : List Text) : List Text := dedup (vary.insertionSort (· ≤ ·))

@[simp] theorem mem_dedup {name : Text} {vary : List Text} : name ∈ dedup vary ↔ name ∈ vary := by
  fun_induction dedup vary with
  | case1 => rfl
  | case2 only => rfl
  | case3 x rest ih =>
    rw [ih]
    simp
  | case4 x y rest hd ih =>
    simp only [List.mem_cons, ih]

@[simp] theorem mem_sortDedup {name : Text} {v : List Text} : name ∈ sortDedup v ↔ name ∈ v := by
  rw [sortDedup, mem_dedup, List.mem_insertionSort]

inductive Value where
  | bool (value : Bool)
  | str (text : Text)
  | int (value : Nat)
  | list (items : List Value)
  deriving Repr

mutual

def Value.same : Value → Value → Bool
  | .bool first, .bool second => first == second
  | .str first, .str second => first == second
  | .int first, .int second => first == second
  | .list first, .list second => Value.sameAll first second
  | _, _ => false

def Value.sameAll : List Value → List Value → Bool
  | [], [] => true
  | first :: firsts, second :: seconds => Value.same first second && Value.sameAll firsts seconds
  | _, _ => false

end

/-- Everything an evaluation reads. -/
structure EvalEnv where
  ctx : RequestContext
  path : Text
  fileExists : Text → Bool

def asBool : Value → Option Bool
  | .bool value => some value
  | _ => none

def asStr : Value → Option Text
  | .str text => some text
  | _ => none

def evalVar (env : EvalEnv) (name : Text) : Option Value :=
  if name = "method".toList then some (.str env.ctx.method)
  else if name = "host".toList then some (.str env.ctx.host)
  else if name = "path".toList then some (.str env.path)
  else none

def evalCall (env : EvalEnv) (name : Text) (first : Option Value) : Option Value :=
  if name = "header".toList then do
    let key ← asStr (← first)
    pure (.str ((env.ctx.headers.get? (toAsciiLowercase key)).getD []))
  else if name = "cookie".toList then do
    let key ← asStr (← first)
    pure (.str ((env.ctx.cookies.get? key).getD []))
  else if name = "query".toList then do
    let key ← asStr (← first)
    pure (.str ((env.ctx.query.get? key).getD []))
  else if name = "file_exists".toList then do
    let path ← asStr (← first)
    pure (.bool (env.fileExists path))
  else if name = "accepts_language".toList then do
    let tag ← asStr (← first)
    pure (.bool (env.ctx.acceptsLanguage tag))
  else if name = "prefers_language".toList then do
    match ← first with
    | .list items => pure (.str (env.ctx.prefersLanguage (← items.mapM asStr)))
    | _ => none
  else none

def evalMethod (recv : Option Value) (name : Text) (first : Option Value) : Option Value := do
  let recv ← recv
  let arg ← first
  match recv with
  | .str text =>
      if name = "startsWith".toList then pure (.bool (decide ((← asStr arg) <+: text)))
      else if name = "endsWith".toList then pure (.bool (decide ((← asStr arg) <:+ text)))
      else if name = "contains".toList then pure (.bool (decide ((← asStr arg) <:+: text)))
      else none
  | .list items =>
      if name = "contains".toList then pure (.bool (items.any fun item => item.same arg))
      else none
  | _ => none

mutual

def evalExpr (env : EvalEnv) : Expr → Option Value
  | .str text => some (.str text)
  | .int value => some (.int value)
  | .bool value => some (.bool value)
  | .list items => (evalAll env items).map .list
  | .var name => evalVar env name
  | .call name args => evalCall env name (evalFirst env args)
  | .method recv name args => evalMethod (evalExpr env recv) name (evalFirst env args)
  | .not inner => do
      pure (.bool (!(← asBool (← evalExpr env inner))))
  | .and lhs rhs => do
      -- The right side is evaluated only when the left one does not decide.
      if ← asBool (← evalExpr env lhs) then pure (.bool (← asBool (← evalExpr env rhs)))
      else pure (.bool false)
  | .or lhs rhs => do
      if ← asBool (← evalExpr env lhs) then pure (.bool true)
      else pure (.bool (← asBool (← evalExpr env rhs)))
  | .eq lhs rhs => do
      pure (.bool ((← evalExpr env lhs).same (← evalExpr env rhs)))
  | .notEq lhs rhs => do
      pure (.bool (!((← evalExpr env lhs).same (← evalExpr env rhs))))
  | .in lhs rhs => do
      let needle ← evalExpr env lhs
      match ← evalExpr env rhs with
      | .list items => pure (.bool (items.any fun item => item.same needle))
      | _ => none
  | .concat lhs rhs => do
      let lhs ← evalExpr env lhs
      let rhs ← evalExpr env rhs
      pure (.str ((← asStr lhs) ++ (← asStr rhs)))

def evalAll (env : EvalEnv) : List Expr → Option (List Value)
  | [] => some []
  | item :: items => do
      let value ← evalExpr env item
      pure (value :: (← evalAll env items))

def evalFirst (env : EvalEnv) : List Expr → Option Value
  | [] => none
  | item :: _ => evalExpr env item

end

/-- A compiled condition: its expression and the headers it reads. -/
structure Predicate where
  root : Expr
  vary : List Text

namespace Predicate

def compile (source : Text) : Except ConfigError Predicate := do
  let root ← parseSource source
  let type ← check root
  if type = .bool then pure ⟨root, sortDedup (collectVary root)⟩
  else .error (.parse ("routing `when` must be a boolean expression, got ".toList ++ type.name ++
    ": ".toList ++ debugText source))

def eval (predicate : Predicate) (env : EvalEnv) : Bool :=
  match evalExpr env predicate.root with
  | some (.bool true) => true
  | _ => false

end Predicate

inductive TemplatePart where
  | lit (text : Text)
  | expr (root : Expr)

/-- Literal text with embedded expressions, and the headers those read. -/
structure Template where
  parts : List TemplatePart
  vary : List Text

/-- The source of an interpolation up to its closing brace, and what follows it;
braces inside string literals do not count. -/
def scanInterpolation : (inString : Option Char) → Text → Except ConfigError (Text × Text)
  | _, [] =>
      .error (.parse "unterminated `$\x7b…\x7d` in a routing destination template".toList)
  | some quote, '\\' :: escaped :: rest => do
      let (source, rest) ← scanInterpolation (some quote) rest
      pure ('\\' :: escaped :: source, rest)
  | inString, letter :: rest => do
      if inString = none ∧ letter = '\x7d' then pure ([], rest)
      else
        let next :=
          if inString = some letter then none
          else if inString = none ∧ (letter = '\x27' ∨ letter = '"') then some letter
          else inString
        let (source, rest) ← scanInterpolation next rest
        pure (letter :: source, rest)

namespace Template

def isTemplate (dest : Text) : Bool := decide ("$\x7b".toList <:+: dest)

def literalPart (literal : Text) : List TemplatePart :=
  if literal = [] then [] else [.lit literal]

def compileExpr (source : Text) : Except ConfigError Expr := do
  let expr ← parseSource source
  let type ← check expr
  if type = .str then pure expr
  else .error (.parse ("template `$\x7b…\x7d` must be a string expression, got ".toList ++
    type.name ++ ": ".toList ++ debugText source))

def compileParts : (fuel : Nat) → (literal : Text) → Text →
    Except ConfigError (List TemplatePart × List Text)
  | _, literal, [] => pure (literalPart literal, [])
  | 0, _, _ => .error (expected "unterminated")
  | fuel + 1, literal, '$' :: '\x7b' :: rest => do
      let (source, rest) ← scanInterpolation none rest
      let expr ← compileExpr source
      let (parts, vary) ← compileParts fuel [] rest
      pure (literalPart literal ++ .expr expr :: parts, collectVary expr ++ vary)
  | fuel + 1, literal, letter :: rest => compileParts fuel (literal ++ [letter]) rest

def compile (source : Text) : Except ConfigError Template := do
  let (parts, vary) ← compileParts source.length [] source
  pure ⟨parts, sortDedup vary⟩

def expandPart (env : EvalEnv) : TemplatePart → Text
  | .lit text => text
  | .expr root =>
      match evalExpr env root with
      | some (.str text) => text
      | _ => []

def expand (template : Template) (env : EvalEnv) : Text :=
  template.parts.flatMap (expandPart env)

end Template

end BoatRamp.Routing
