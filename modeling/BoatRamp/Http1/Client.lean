import BoatRamp.Http1.Chunked

/-!
# The client codec

Encoding of request heads, parsing of response heads, and reading a response
body off a connection piece by piece.
-/

namespace BoatRamp.Http1

open Http

def fieldLine (field : HeaderName × HeaderValue) : Octets :=
  field.1.bytes ++ ascii ": " ++ field.2.bytes

def requestLine (method : Method) (target : Octets) : Octets :=
  method.bytes ++ [SP] ++ target ++ [SP] ++ ascii "HTTP/1.1"

def encodeRequestHead (method : Method) (target : Octets) (headers : HeaderMap) : Octets :=
  requestLine method target ++ CRLF ++
    headers.flatMap (fun field => fieldLine field ++ CRLF) ++ CRLF

structure ResponseHead where
  version : Version
  status : Nat
  headers : HeaderMap

inductive RespParse where
  | complete (head : ResponseHead) (consumed : Nat)
  | incomplete
  | reject

def parseStatusLine (line : Octets) : Option (Version × Nat) :=
  match splitOn SP line with
  | version :: code :: _ =>
      match parseVersion version with
      | .error _ => none
      | .ok version =>
          if code.length ≠ 3 ∨ !code.all isDigit then none
          else
            let status := digitsValue code
            if status < 100 then none else some (version, status)
  | _ => none

def parseResponseFields (total : Nat) : (fuel pos : Nat) → Octets → HeaderMap →
    Option (Option (HeaderMap × Nat))
  | 0, _, _, _ => some none
  | fuel + 1, pos, rest, headers =>
      if MAX_HEAD < total ∧ MAX_HEAD ≤ pos then none
      else
        match nextLine rest with
        | .error _ => none
        | .ok none => if MAX_HEAD < total then none else some none
        | .ok (some (line, after)) =>
            if line = [] then some (some (headers, pos + 2))
            else if isFolded line then none
            else
              match splitHeader line with
              | .error _ => none
              | .ok (name, value) =>
                  match HeaderName.fromBytes name, HeaderValue.fromBytes value with
                  | some name, some value =>
                      parseResponseFields total fuel (pos + line.length + 2) after
                        (headers.append name value)
                  | _, _ => none

def parseResponseHead (buffer : Octets) : RespParse :=
  match nextLine buffer with
  | .error _ => .reject
  | .ok none => if MAX_HEAD < buffer.length then .reject else .incomplete
  | .ok (some (line, after)) =>
      match parseStatusLine line with
      | none => .reject
      | some (version, status) =>
          match parseResponseFields buffer.length (after.length + 1) (line.length + 2) after [] with
          | none => .reject
          | some none => .incomplete
          | some (some (headers, consumed)) => .complete ⟨version, status, headers⟩ consumed

inductive ResponseFraming where
  | none
  | length (octets : Nat)
  | chunked
  | closeDelimited

def declaredLen (headers : HeaderMap) : Option Nat :=
  ((headers.get .CONTENT_LENGTH).bind HeaderValue.toStr).bind fun text => parseU64 (trimOws text)

/-- The answer to a request with this method has no body whatever its fields say. -/
def noBody (status : Nat) (method : Method) : Bool :=
  method = .HEAD || (100 ≤ status && status < 200) || status = 204 || status = 304 ||
    (method = .CONNECT && (200 ≤ status && status < 300))

def responseFraming (status : Nat) (method : Method) (headers : HeaderMap) : ResponseFraming :=
  if noBody status method then .none
  else if headers.containsKey .TRANSFER_ENCODING then .chunked
  else
    match declaredLen headers with
    | some octets => .length octets
    | Option.none => .closeDelimited

/-- How the body is read; a length counts what remains. -/
abbrev BodyReader := ResponseFraming

def BodyReader.for (method : Method) (head : ResponseHead) : BodyReader :=
  responseFraming head.status method head.headers

/-- What the reader makes of the bytes it has: a piece of the body with the reader and the buffer
after it, the end of the body, a wish for more, or an error. -/
inductive BodyStep where
  | chunk (bytes : Octets) (reader : BodyReader) (buffer : Octets)
  | finished (buffer : Octets)
  | wantMore
  | malformed

def BodyReader.step (reader : BodyReader) (buffer : Octets) : BodyStep :=
  match reader with
  | ResponseFraming.none => .finished buffer
  | .length remaining =>
      if remaining = 0 then .finished buffer
      else if buffer = [] then .wantMore
      else
        let size := min remaining buffer.length
        .chunk (buffer.take size) (.length (remaining - size)) (buffer.drop size)
  | .chunked =>
      match Chunked.nextChunk buffer with
      | .data dataStart dataEnd next =>
          .chunk ((buffer.drop dataStart).take (dataEnd - dataStart)) .chunked (buffer.drop next)
      | .last finish => .finished (buffer.drop finish)
      | .incomplete => .wantMore
      | .reject _ => .malformed
  | .closeDelimited => if buffer = [] then .wantMore else .chunk buffer .closeDelimited []

/-- What the end of the stream means to a reader that wants more. -/
def BodyReader.atEof : BodyReader → Bool
  | .closeDelimited => true
  | _ => false

end BoatRamp.Http1
