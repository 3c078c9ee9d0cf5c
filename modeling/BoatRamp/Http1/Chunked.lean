import BoatRamp.Http1.Parse

/-!
# The chunked transfer coding

Decoding a body in one walk or chunk by chunk, and the encoder.  What the
encoder writes is walked to its end and gives back the payload.
-/

namespace BoatRamp.Http1

open Http

namespace Chunked

def MAX_CHUNK_SIZE_LINE : Nat := 1024

/-- The fields a trailer section may not hold. -/
def forbiddenTrailer (name : Octets) : Bool :=
  (["content-length", "transfer-encoding", "host", "trailer", "te", "connection", "expect",
    "upgrade", "content-type"].map ascii).contains (name.map toLowercase)

def hexDigitValue (byte : UInt8) : Nat :=
  if isDigit byte then byte.toNat - 0x30
  else if 0x61 ≤ byte then byte.toNat - 0x61 + 10
  else byte.toNat - 0x41 + 10

def hexValue (digits : Octets) : Nat :=
  digits.foldl (fun value digit => value * 16 + hexDigitValue digit) 0

def parseChunkSize (bytes : Octets) : Except Reject Nat :=
  let digits := trimOws bytes
  if digits = [] ∨ 16 < digits.length ∨ !digits.all isHexDigit then .error .badChunk
  else .ok (hexValue digits)

def sizeOfLine (line : Octets) : Except Reject Nat :=
  if MAX_CHUNK_SIZE_LINE < line.length then .error .tooLarge
  else parseChunkSize (line.takeWhile fun byte => byte ≠ 0x3B)

def trailers : (fuel pos : Nat) → Octets → Except Reject (Option Nat)
  | 0, _, _ => .ok none
  | fuel + 1, pos, rest =>
      match nextLine rest with
      | .error reason => .error reason
      | .ok none => .ok none
      | .ok (some (line, after)) =>
          if line = [] then .ok (some (pos + 2))
          else if isFolded line then .error .obsFold
          else
            match splitHeader line with
            | .error reason => .error reason
            | .ok (name, _) =>
                if forbiddenTrailer name then .error .badChunk
                else trailers fuel (pos + line.length + 2) after

inductive ChunkStep where
  | data (dataStart dataEnd next : Nat)
  | last (finish : Nat)
  | incomplete
  | reject (reason : Reject)

def chunkAt (pos : Nat) (rest : Octets) : Except Reject ChunkStep :=
  match nextLine rest with
  | .error reason => .error reason
  | .ok none => .ok .incomplete
  | .ok (some (line, after)) => do
      let size ← sizeOfLine line
      let next := pos + line.length + 2
      if size = 0 then
        match ← trailers (after.length + 1) next after with
        | none => return .incomplete
        | some finish => return .last finish
      else if 2 ^ 64 ≤ next + size + 2 then .error .badChunk
      else if after.length < size + 2 then return .incomplete
      else if (after.drop size).take 2 ≠ CRLF then .error .badChunk
      else return .data next (next + size) (next + size + 2)

def nextChunk (buffer : Octets) : ChunkStep :=
  match chunkAt 0 buffer with
  | .ok step => step
  | .error reason => .reject reason

def walk : (fuel pos : Nat) → Octets → (collected : Octets) →
    Except Reject (Option (Octets × Nat))
  | 0, _, _, _ => .ok none
  | fuel + 1, pos, rest, collected => do
      match ← chunkAt pos rest with
      | .data dataStart dataEnd next =>
          let payload := (rest.drop (dataStart - pos)).take (dataEnd - dataStart)
          walk fuel next (rest.drop (next - pos)) (collected ++ payload)
      | .last finish => return some (collected, finish)
      | .incomplete | .reject _ => return none

inductive ChunkDecode where
  | complete (data : Octets) (finish : Nat)
  | incomplete
  | reject (reason : Reject)
  deriving DecidableEq

def decode (buffer : Octets) : ChunkDecode :=
  match walk (buffer.length + 1) 0 buffer [] with
  | .ok (some (data, finish)) => .complete data finish
  | .ok none => .incomplete
  | .error reason => .reject reason

def encode (data : Octets) : Octets := hexadecimal data.length ++ CRLF ++ data ++ CRLF

def encodeLast (fields : HeaderMap) : Octets :=
  ascii "0" ++ CRLF ++
    fields.flatMap (fun field => field.1.bytes ++ ascii ": " ++ field.2.bytes ++ CRLF) ++ CRLF

end Chunked

end BoatRamp.Http1
