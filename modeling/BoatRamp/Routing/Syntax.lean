import BoatRamp.Text

/-!
# The language of routing conditions

The lexer and the recursive-descent parser of the expressions that stand in a
rule's `when` and in the interpolations of its destination.  The lexer reads
the bytes of the source, each as one character.
-/

namespace BoatRamp.Routing

inductive ConfigError where
  | parse (message : Text)
  | pattern (pattern message : Text)

inductive Token where
  | str (text : Text)
  | int (value : Nat)
  | ident (name : Text)
  | lParen
  | rParen
  | lBracket
  | rBracket
  | comma
  | dot
  | bang
  | plus
  | andAnd
  | orOr
  | eqEq
  | notEq
  deriving DecidableEq

def Token.debug : Token → Text
  | .str text => "Str(".toList ++ debugText text ++ [')']
  | .int value => "Int(".toList ++ (toString value).toList ++ [')']
  | .ident name => "Ident(".toList ++ debugText name ++ [')']
  | .lParen => "LParen".toList
  | .rParen => "RParen".toList
  | .lBracket => "LBracket".toList
  | .rBracket => "RBracket".toList
  | .comma => "Comma".toList
  | .dot => "Dot".toList
  | .bang => "Bang".toList
  | .plus => "Plus".toList
  | .andAnd => "AndAnd".toList
  | .orOr => "OrOr".toList
  | .eqEq => "EqEq".toList
  | .notEq => "NotEq".toList

variable (letter : Char)

def escapedLetter : Char :=
  if letter = 'n' then '\n' else if letter = 't' then '\t' else letter

/-- What is left of the letters behind a token. -/
abbrev Behind (letters : List Char) := {rest : List Char // rest.length ≤ letters.length}

def lexString (quote : Char) : (letters : List Char) → Except ConfigError (Text × Behind letters)
  | [] => .error (.parse "unterminated string literal in routing `when`".toList)
  | '\\' :: escaped :: rest => do
      let (text, ⟨rest, fewer⟩) ← lexString quote rest
      pure (escapedLetter escaped :: text, ⟨rest, by grind⟩)
  | letter :: rest =>
      if letter = quote then pure ([], ⟨rest, by simp⟩)
      else do
        let (text, ⟨rest, fewer⟩) ← lexString quote rest
        pure (letter :: text, ⟨rest, by grind⟩)

def isIdentLetter : Bool := isAsciiAlphanumeric letter || letter == '_'

def lexInt (digits : Text) : Except ConfigError Token :=
  if decimalValue digits < 2 ^ 63 then pure (.int (decimalValue digits))
  else .error (.parse
    "bad integer in `when`: number too large to fit in target type".toList)

def unexpectedCharacter : ConfigError :=
  .parse ("unexpected character '".toList ++ [letter] ++ "' in routing `when`".toList)

def lexToken (rest : List Char) : Except ConfigError (Token × Behind rest) :=
  match letter, rest with
  | '(', rest => pure (.lParen, ⟨rest, le_rfl⟩)
  | ')', rest => pure (.rParen, ⟨rest, le_rfl⟩)
  | '[', rest => pure (.lBracket, ⟨rest, le_rfl⟩)
  | ']', rest => pure (.rBracket, ⟨rest, le_rfl⟩)
  | ',', rest => pure (.comma, ⟨rest, le_rfl⟩)
  | '.', rest => pure (.dot, ⟨rest, le_rfl⟩)
  | '+', rest => pure (.plus, ⟨rest, le_rfl⟩)
  | '!', '=' :: rest => pure (.notEq, ⟨rest, by simp⟩)
  | '!', rest => pure (.bang, ⟨rest, le_rfl⟩)
  | '=', '=' :: rest => pure (.eqEq, ⟨rest, by simp⟩)
  | '&', '&' :: rest => pure (.andAnd, ⟨rest, by simp⟩)
  | '|', '|' :: rest => pure (.orOr, ⟨rest, by simp⟩)
  | letter, rest =>
      let behind (member : Char → Bool) : Behind rest :=
        ⟨rest.dropWhile member, (List.dropWhile_suffix member).length_le⟩
      if letter = '\x27' ∨ letter = '"' then do
        let (text, rest) ← lexString letter rest
        pure (.str text, rest)
      else if isAsciiDigit letter then do
        let number ← lexInt (letter :: rest.takeWhile isAsciiDigit)
        pure (number, behind isAsciiDigit)
      else if isAsciiAlphabetic letter ∨ letter = '_' then
        pure (.ident (letter :: rest.takeWhile isIdentLetter), behind isIdentLetter)
      else .error (unexpectedCharacter letter)

def lexFrom : List Char → Except ConfigError (List Token)
  | [] => pure []
  | letter :: rest =>
      if isWhitespace letter then lexFrom rest
      else do
        let (token, ⟨rest, _⟩) ← lexToken letter rest
        pure (token :: (← lexFrom rest))
termination_by letters => letters.length
decreasing_by all_goals grind

def lex (source : Text) : Except ConfigError (List Token) := lexFrom (utf8Bytes source)

inductive Expr where
  | str (text : Text)
  | int (value : Nat)
  | bool (value : Bool)
  | list (items : List Expr)
  | var (name : Text)
  | call (name : Text) (args : List Expr)
  | method (recv : Expr) (name : Text) (args : List Expr)
  | not (inner : Expr)
  | and (lhs rhs : Expr)
  | or (lhs rhs : Expr)
  | eq (lhs rhs : Expr)
  | notEq (lhs rhs : Expr)
  | in (lhs rhs : Expr)
  | concat (lhs rhs : Expr)
  deriving Repr

def expected (message : String) : ConfigError := .parse message.toList

def unexpectedToken (token : Option Token) : ConfigError :=
  let shown := match token with
    | none => "None".toList
    | some token => "Some(".toList ++ token.debug ++ [')']
  .parse ("unexpected token ".toList ++ shown ++ " in routing `when`".toList)

/-- What a parser leaves of its tokens: it has taken one at least. -/
abbrev Left (tokens : List Token) := {rest : List Token // rest.length < tokens.length}

-- Every call takes a token first or is of a function with a smaller summand in its measure, so the
-- parser ends on every input.
mutual

def parseExpr (tokens : List Token) : Except ConfigError (Expr × Left tokens) :=
  parseOr tokens
termination_by 12 * tokens.length + 8

def parseOr (tokens : List Token) : Except ConfigError (Expr × Left tokens) := do
  let (lhs, ⟨rest, fewer⟩) ← parseAnd tokens
  parseOrs lhs ⟨rest, fewer⟩
termination_by 12 * tokens.length + 7

/-- The loop of `parseOr`: operands for as long as an operator follows. -/
def parseOrs {tokens : List Token} :
    Expr → Left tokens → Except ConfigError (Expr × Left tokens)
  | lhs, ⟨.orOr :: next, _⟩ => do
      let (rhs, ⟨rest, fewer⟩) ← parseAnd next
      parseOrs (.or lhs rhs) ⟨rest, by grind⟩
  | lhs, rest => pure (lhs, rest)
termination_by _ rest => 12 * rest.1.length
decreasing_by all_goals grind

def parseAnd (tokens : List Token) : Except ConfigError (Expr × Left tokens) := do
  let (lhs, ⟨rest, fewer⟩) ← parseUnary tokens
  parseAnds lhs ⟨rest, fewer⟩
termination_by 12 * tokens.length + 6

def parseAnds {tokens : List Token} :
    Expr → Left tokens → Except ConfigError (Expr × Left tokens)
  | lhs, ⟨.andAnd :: next, _⟩ => do
      let (rhs, ⟨rest, fewer⟩) ← parseUnary next
      parseAnds (.and lhs rhs) ⟨rest, by grind⟩
  | lhs, rest => pure (lhs, rest)
termination_by _ rest => 12 * rest.1.length
decreasing_by all_goals grind

def parseUnary (tokens : List Token) : Except ConfigError (Expr × Left tokens) :=
  match tokens with
  | .bang :: next => do
      let (inner, ⟨rest, fewer⟩) ← parseUnary next
      pure (.not inner, ⟨rest, by grind⟩)
  | tokens => parseCompare tokens
termination_by 12 * tokens.length + 5

def parseCompare (tokens : List Token) : Except ConfigError (Expr × Left tokens) := do
  match ← parseConcat tokens with
  | (lhs, ⟨.eqEq :: next, _⟩) =>
      let (rhs, ⟨rest, fewer⟩) ← parseConcat next
      pure (.eq lhs rhs, ⟨rest, by grind⟩)
  | (lhs, ⟨.notEq :: next, _⟩) =>
      let (rhs, ⟨rest, fewer⟩) ← parseConcat next
      pure (.notEq lhs rhs, ⟨rest, by grind⟩)
  | (lhs, ⟨.ident name :: next, left⟩) =>
      if name = "in".toList then
        let (rhs, ⟨rest, fewer⟩) ← parseConcat next
        pure (.in lhs rhs, ⟨rest, by grind⟩)
      else pure (lhs, ⟨.ident name :: next, left⟩)
  | (lhs, rest) => pure (lhs, rest)
termination_by 12 * tokens.length + 4
decreasing_by all_goals grind

def parseConcat (tokens : List Token) : Except ConfigError (Expr × Left tokens) := do
  let (lhs, ⟨rest, fewer⟩) ← parsePostfix tokens
  parseConcats lhs ⟨rest, fewer⟩
termination_by 12 * tokens.length + 3

def parseConcats {tokens : List Token} :
    Expr → Left tokens → Except ConfigError (Expr × Left tokens)
  | lhs, ⟨.plus :: next, _⟩ => do
      let (rhs, ⟨rest, fewer⟩) ← parsePostfix next
      parseConcats (.concat lhs rhs) ⟨rest, by grind⟩
  | lhs, rest => pure (lhs, rest)
termination_by _ rest => 12 * rest.1.length
decreasing_by all_goals grind

def parsePostfix (tokens : List Token) : Except ConfigError (Expr × Left tokens) := do
  let (recv, ⟨rest, fewer⟩) ← parsePrimary tokens
  parseMethods recv ⟨rest, fewer⟩
termination_by 12 * tokens.length + 2

/-- The loop of `parsePostfix`: method calls for as long as a dot follows. -/
def parseMethods {tokens : List Token} :
    Expr → Left tokens → Except ConfigError (Expr × Left tokens)
  | recv, ⟨.dot :: .ident name :: .lParen :: next, _⟩ => do
      let (args, ⟨rest, fewer⟩) ← parseArgs next
      parseMethods (.method recv name args) ⟨rest, by grind⟩
  | recv, rest => match rest.1 with
      | .dot :: .ident name :: _ =>
          .error (.parse ("expected `(` after `.".toList ++ name ++ ['\x60']))
      | .dot :: _ => .error (expected "expected method name after `.`")
      | _ => pure (recv, rest)
termination_by _ rest => 12 * rest.1.length
decreasing_by all_goals grind

def parsePrimary (tokens : List Token) : Except ConfigError (Expr × Left tokens) :=
  match tokens with
  | .str text :: rest => pure (.str text, ⟨rest, by simp⟩)
  | .int value :: rest => pure (.int value, ⟨rest, by simp⟩)
  | .lParen :: next => do
      match ← parseExpr next with
      | (inner, ⟨.rParen :: rest, fewer⟩) => pure (inner, ⟨rest, by grind⟩)
      | _ => .error (expected "expected `)`")
  | .lBracket :: next => do
      match ← parseItems .rBracket next with
      | (items, ⟨.rBracket :: rest, fewer⟩) => pure (.list items, ⟨rest, by grind⟩)
      | _ => .error (expected "expected `]` to close a list")
  | .ident name :: rest =>
      if name = "true".toList then pure (.bool true, ⟨rest, by simp⟩)
      else if name = "false".toList then pure (.bool false, ⟨rest, by simp⟩)
      else match rest with
      | .lParen :: next => do
          let (args, ⟨rest, fewer⟩) ← parseArgs next
          pure (.call name args, ⟨rest, by grind⟩)
      | rest => pure (.var name, ⟨rest, by simp⟩)
  | tokens => .error (unexpectedToken tokens.head?)
termination_by 12 * tokens.length + 1
decreasing_by all_goals grind

def parseArgs (tokens : List Token) : Except ConfigError (List Expr × Left tokens) := do
  match ← parseItems .rParen tokens with
  | (args, ⟨.rParen :: rest, fewer⟩) => pure (args, ⟨rest, by grind⟩)
  | _ => .error (expected "expected `)` to close a call")
termination_by 12 * tokens.length + 11

/-- Expressions with commas between them, or none before the closing token. -/
def parseItems (close : Token) (tokens : List Token) :
    Except ConfigError (List Expr × {rest : List Token // rest.length ≤ tokens.length}) := do
  if tokens.head? = some close then pure ([], ⟨tokens, le_rfl⟩)
  else
    let (items, ⟨rest, fewer⟩) ← parseMore tokens
    pure (items, ⟨rest, fewer.le⟩)
termination_by 12 * tokens.length + 10

def parseMore (tokens : List Token) : Except ConfigError (List Expr × Left tokens) := do
  match ← parseExpr tokens with
  | (item, ⟨.comma :: next, _⟩) =>
      let (items, ⟨rest, fewer⟩) ← parseMore next
      pure (item :: items, ⟨rest, by grind⟩)
  | (item, rest) => pure ([item], rest)
termination_by 12 * tokens.length + 9
decreasing_by all_goals grind

end

/-- Parse a whole source: nothing may follow the expression. -/
def parseSource (source : Text) : Except ConfigError Expr := do
  let tokens ← lex source
  let (root, ⟨rest, _⟩) ← parseExpr tokens
  match rest with
  | [] => pure root
  | _ :: _ =>
      .error (.parse ("trailing tokens in routing `when` (near token ".toList ++
        (toString (tokens.length - rest.length)).toList ++ [')']))

end BoatRamp.Routing
