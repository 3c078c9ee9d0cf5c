import BoatRamp.Http.Fields

/-!
# Request heads

The parser of HTTP/1.1 request heads.  It refuses whatever another server could
read in a different way: lines without CRLF, folded fields, two lengths, a
length next to a transfer coding.
-/

namespace BoatRamp.Http1

open Http

inductive BodyFraming where
  | empty
  | length (octets : Nat)
  | chunked
  deriving DecidableEq

inductive Version where
  | http10
  | http11
  deriving DecidableEq

structure RequestHead where
  method : Method
  uri : Octets
  version : Version
  headers : HeaderMap
  framing : BodyFraming

inductive Reject where
  | badRequestLine
  | badVersion
  | badHeader
  | obsFold
  | bareCrlf
  | badContentLength
  | conflictingFraming
  | badTransferEncoding
  | tooLarge
  | badChunk
  deriving DecidableEq

inductive ParseResult where
  | complete (head : RequestHead) (consumed : Nat)
  | incomplete
  | reject (reason : Reject)

def MAX_HEAD : Nat := 64 * 1024

def nextLine (buffer : Octets) : Except Reject (Option (Octets × Octets)) :=
  match buffer.dropWhile (fun byte => byte ≠ LF) with
  | [] => .ok none
  | _ :: after =>
      let line := buffer.takeWhile fun byte => byte ≠ LF
      if line.getLast? ≠ some CR then .error .bareCrlf
      else if line.dropLast.contains CR then .error .bareCrlf
      else .ok (some (line.dropLast, after))

def splitHeader (line : Octets) : Except Reject (Octets × Octets) :=
  match line.dropWhile (fun byte => byte ≠ 0x3A) with
  | [] => .error .badHeader
  | _ :: after =>
      let name := line.takeWhile fun byte => byte ≠ 0x3A
      if name = [] ∨ !name.all isTchar then .error .badHeader
      else
        let value := trimOws after
        if !value.all isFieldByte then .error .badHeader else .ok (name, value)

theorem nextLine_append {l : Octets} (hu : CR ∉ l ∧ LF ∉ l) (rest : Octets) :
    nextLine (l ++ CRLF ++ rest) = .ok (some (l, rest)) := by
  have hs : l ++ CRLF ++ rest = (l ++ [CR]) ++ LF :: rest := by simp [CRLF]
  have hp : ∀ b ∈ l ++ [CR], decide (b ≠ LF) = true := by
    intro b hi
    rcases List.mem_append.mp hi with he | hl
    · exact decide_eq_true fun hsa => hu.2 (hsa ▸ he)
    · rw [List.mem_singleton.mp hl]
      decide
  unfold nextLine
  rw [hs, List.dropWhile_append_of_pos hp, List.takeWhile_append_of_pos hp]
  simp [hu.1]

def isFolded (line : Octets) : Bool := line.head?.any isOws

def isAbsolute (target : Octets) : Bool :=
  target.tails.any fun tail => (ascii "://").isPrefixOf tail

def parseTarget (acceptsUri : Octets → Bool) (method : Method) (target : Octets) :
    Except Reject Octets :=
  if target = [] ∨ target.any (fun byte => byte ≤ 0x20 || byte = 0x7F || byte = 0x23) then
    .error .badRequestLine
  else
    let isAsterisk := decide (target = ascii "*")
    let isOrigin := decide (target.head? = some 0x2F)
    let valid :=
      if method = .OPTIONS then isAsterisk || isOrigin || isAbsolute target
      else if method = .CONNECT then
        !isAsterisk && !isOrigin && !isAbsolute target && target.contains 0x3A
      else isOrigin || isAbsolute target
    if !valid then .error .badRequestLine
    else if !acceptsUri target then .error .badRequestLine
    else .ok target

def parseVersion (version : Octets) : Except Reject Version :=
  if version = ascii "HTTP/1.1" then .ok .http11
  else if version = ascii "HTTP/1.0" then .ok .http10
  else .error .badVersion

def parseRequestLine (acceptsUri : Octets → Bool) (line : Octets) :
    Except Reject (Method × Octets × Version) :=
  match splitOn SP line with
  | [method, target, version] =>
      match Method.fromBytes method with
      | none => .error .badRequestLine
      | some method => do
          let version ← parseVersion version
          let uri ← parseTarget acceptsUri method target
          return (method, uri, version)
  | _ => .error .badRequestLine

def codingsOf (values : List Octets) : List Octets :=
  values.flatMap fun value => (splitOn 0x2C value).map fun token =>
    (trimOws token).map toLowercase

/-- How the body is delimited; every ambiguity is refused. -/
def resolveFraming (clTokens teValues : List Octets) (isHttp11 : Bool) :
    Except Reject BodyFraming :=
  if clTokens ≠ [] ∧ teValues ≠ [] then .error .conflictingFraming
  else if teValues ≠ [] then
    if !isHttp11 then .error .badTransferEncoding
    else if teValues.length ≠ 1 then .error .badTransferEncoding
    else
      let codings := codingsOf teValues
      if codings.any List.isEmpty then .error .badTransferEncoding
      else if codings.count (ascii "chunked") ≠ 1 ∨ codings.getLast? ≠ some (ascii "chunked") then
        .error .badTransferEncoding
      else .ok .chunked
  else
    match clTokens with
    | [] => .ok .empty
    | [token] =>
        if token = [] ∨ !token.all isDigit then .error .badContentLength
        else
          match parseU64 token with
          | none => .error .badContentLength
          | some octets => .ok (.length octets)
    | _ => .error .badContentLength

/-- What the field lines so far have said. -/
structure Gathered where
  headers : HeaderMap := []
  clTokens : List Octets := []
  teValues : List Octets := []
  hostCount : Nat := 0
  hostEmpty : Bool := false

def Gathered.read (gathered : Gathered) (line : Octets) : Except Reject Gathered :=
  if isFolded line then .error .obsFold
  else do
    let (name, value) ← splitHeader line
    let lower := name.map toLowercase
    let gathered :=
      if lower = ascii "content-length" then
        { gathered with clTokens := gathered.clTokens ++ (splitOn 0x2C value).map trimOws }
      else if lower = ascii "transfer-encoding" then
        { gathered with teValues := gathered.teValues ++ [value] }
      else if lower = ascii "host" then
        { gathered with
          hostCount := gathered.hostCount + 1, hostEmpty := decide (trimOws value = []) }
      else gathered
    match HeaderName.fromBytes name, HeaderValue.fromBytes value with
    | some name, some value =>
        return { gathered with headers := gathered.headers.append name value }
    | _, _ => .error .badHeader

def unfinished {Result : Type} (total : Nat) : Except Reject (Option Result) :=
  if MAX_HEAD < total then .error .tooLarge else .ok none

/-- Field lines up to the empty one, from the given position of a buffer of `total` bytes. -/
def parseFields (total : Nat) : (fuel pos : Nat) → Octets → Gathered →
    Except Reject (Option (Gathered × Nat))
  | 0, _, _, _ => .ok none
  | fuel + 1, pos, rest, gathered =>
      if MAX_HEAD < total ∧ MAX_HEAD ≤ pos then .error .tooLarge
      else
        match nextLine rest with
        | .error reason => .error reason
        | .ok none => unfinished total
        | .ok (some (line, after)) =>
            if line = [] then .ok (some (gathered, pos + 2))
            else
              match gathered.read line with
              | .error reason => .error reason
              | .ok gathered => parseFields total fuel (pos + line.length + 2) after gathered

def hostCoherent (version : Version) (gathered : Gathered) : Bool :=
  match version with
  | .http11 => gathered.hostCount = 1 && !gathered.hostEmpty
  | .http10 => gathered.hostCount ≤ 1

def parseHeadFrom (acceptsUri : Octets → Bool) (total pos : Nat) (rest : Octets) :
    Except Reject (Option (RequestHead × Nat)) := do
  match ← nextLine rest with
  | none => unfinished total
  | some (line, after) =>
      let (method, uri, version) ← parseRequestLine acceptsUri line
      match ← parseFields total (after.length + 1) (pos + line.length + 2) after {} with
      | none => return none
      | some (gathered, consumed) =>
          if !hostCoherent version gathered then .error .badHeader
          else
            let framing ← resolveFraming gathered.clTokens gathered.teValues (version = .http11)
            return some (⟨method, uri, version, gathered.headers, framing⟩, consumed)

def parseHeadInner (acceptsUri : Octets → Bool) (buffer : Octets) :
    Except Reject (Option (RequestHead × Nat)) := do
  match ← nextLine buffer with
  | some ([], after) => parseHeadFrom acceptsUri buffer.length 2 after
  | _ => parseHeadFrom acceptsUri buffer.length 0 buffer

def parseRequestHead (acceptsUri : Octets → Bool) (buffer : Octets) : ParseResult :=
  match parseHeadInner acceptsUri buffer with
  | .ok (some (head, consumed)) => .complete head consumed
  | .ok none => .incomplete
  | .error reason => .reject reason

end BoatRamp.Http1
