import BoatRamp.Http1.Respond

/-!
# Serving a connection

The loop over the requests of a connection: read a head, read the body that it
frames, answer, and go on with what follows.  What the handler is given, what is
written and how the connection ends depend on the bytes, not on the reads that
deliver them.
-/

namespace BoatRamp.Http1

open Http Library.Incremental BodyReader

/-- A request as the handler sees it after reading its body, which may have been cut off. -/
structure Request where
  method : Method
  uri : Octets
  version : Version
  headers : HeaderMap
  body : Octets
  whole : Bool
  deriving DecidableEq

def RequestHead.request (head : RequestHead) (body : Octets) (whole : Bool) : Request :=
  ⟨head.method, head.uri, head.version, head.headers, body, whole⟩

variable (headers : HeaderMap)

def connectionTokens : Octets :=
  ((headers.get .CONNECTION).bind HeaderValue.toStr).getD []

/-- Whether the client asks that the connection be closed after this request. -/
def wantsClose (version : Version) : Bool :=
  hasToken (ascii "close") (connectionTokens headers) ||
    (version = .http10 && !hasToken (ascii "keep-alive") (connectionTokens headers))

def isUpgradeRequest : Bool :=
  hasToken (ascii "upgrade") (connectionTokens headers) && headers.containsKey .UPGRADE

def expectsContinue : Bool :=
  headers.any fun field =>
    field.1 = .EXPECT && field.2.bytes.map toLowercase = ascii "100-continue"

def BodyFraming.reader : BodyFraming → BodyReader
  | .empty => .none
  | .length octets => .length octets
  | .chunked => .chunked

/-- Pump the body of a request from the connection: its pieces, and what follows it unless it was
malformed or cut off. -/
def pumpBody (framing : BodyFraming) (source : Source UInt8) :
    Octets × Option (Source UInt8) :=
  match readSource BodyReader.look framing.reader source with
  | (body, some (true, after)) => (body, some after)
  | (body, _) => (body, none)

/-- How a connection ends; after an upgrade the rest of its bytes belongs to another protocol. -/
inductive Ending where
  | closed
  | badRequest
  | upgraded (remaining : Octets)
  deriving DecidableEq

structure Served where
  requests : List Request
  output : Octets
  ending : Ending
  deriving DecidableEq

def Served.after (served : Served) (request : Request) (output : Octets) : Served :=
  ⟨request :: served.requests, output ++ served.output, served.ending⟩

section Loop

variable (acceptsUri : Octets → Bool) (canonicalReason : Nat → Option ReasonPhrase)
  (transport : Transport) (handler : List Request → Response)

def writeStatus (status : Nat) : Octets :=
  statusLine canonicalReason status ++ CRLF ++ ascii "content-length: 0" ++ CRLF ++
    ascii "connection: close" ++ CRLF ++ CRLF

def buildUpgradeHead (response : Response) : Octets :=
  ascii "HTTP/1.1 101 Switching Protocols" ++ CRLF ++
    response.headers.flatMap (fun field => fieldLine field ++ CRLF) ++ CRLF

/-- What is written for a request, and whether the connection may go on.  A request with a body is
answered over half of the connection, which is no socket. -/
def answer (head : RequestHead) (history : List Request) : Octets × Bool :=
  let bodiless : Bool := head.framing = .empty
  let invited :=
    if !bodiless && expectsContinue head.headers then
      ascii "HTTP/1.1 100 Continue" ++ CRLF ++ CRLF
    else []
  let written := writeResponse canonicalReason (if bodiless then transport else .wrapped)
    (handler history) head.method (wantsClose head.headers head.version)
  (invited ++ written.bytes, written.succeeded && !written.mustClose)

def serveUpgrade (head : RequestHead) (history : List Request) (remaining : Octets) : Served :=
  let request := head.request [] true
  let response := handler (history ++ [request])
  if response.status.code = 101 then
    ⟨[request], buildUpgradeHead response, .upgraded remaining⟩
  else
    ⟨[request], (writeResponse canonicalReason transport response head.method true).bytes, .closed⟩

def serveConnection : (fuel : Nat) → (history : List Request) → Source UInt8 → Served
  | 0, _, _ => ⟨[], [], .closed⟩
  | fuel + 1, history, source =>
      match await (decodeRequestHead acceptsUri) source with
      | none => ⟨[], [], .closed⟩
      | some (none, _) => ⟨[], writeStatus canonicalReason 400, .badRequest⟩
      | some (some head, source) =>
          if isUpgradeRequest head.headers then
            serveUpgrade canonicalReason transport handler head history source.rest
          else
            match pumpBody head.framing source with
            | (body, some source) =>
                let request := head.request body true
                let history := history ++ [request]
                let (output, goesOn) := answer canonicalReason transport handler head history
                if goesOn then (serveConnection fuel history source).after request output
                else ⟨[request], output, .closed⟩
            | (body, none) =>
                let request := head.request body false
                let (output, _) :=
                  answer canonicalReason transport handler head (history ++ [request])
                ⟨[request], output, .closed⟩

/-- The same over bytes that are all there: after a request comes what its body leaves. -/
def serveBytes : (fuel : Nat) → (history : List Request) → Octets → Served
  | 0, _, _ => ⟨[], [], .closed⟩
  | fuel + 1, history, bytes =>
      match decodeRequestHead acceptsUri bytes with
      | none => ⟨[], [], .closed⟩
      | some (none, _) => ⟨[], writeStatus canonicalReason 400, .badRequest⟩
      | some (some head, bytes) =>
          if isUpgradeRequest head.headers then
            serveUpgrade canonicalReason transport handler head history bytes
          else
            match readWhole BodyReader.look head.framing.reader bytes with
            | (body, some (true, bytes)) =>
                let request := head.request body true
                let history := history ++ [request]
                let (output, goesOn) := answer canonicalReason transport handler head history
                if goesOn then (serveBytes fuel history bytes).after request output
                else ⟨[request], output, .closed⟩
            | (body, _) =>
                let request := head.request body false
                let (output, _) :=
                  answer canonicalReason transport handler head (history ++ [request])
                ⟨[request], output, .closed⟩

theorem pumpBody_cases (f : BodyFraming) (s : Source UInt8) :
    (∃ b l a, readWhole look f.reader s.rest =
        (b, some (true, l)) ∧ pumpBody f s = (b, some a) ∧ a.rest = l) ∨
      ∃ b e, readWhole look f.reader s.rest = (b, e) ∧
        (∀ l, e ≠ some (true, l)) ∧ pumpBody f s = (b, none) := by
  obtain ⟨hs, hf⟩ := look_coherent.readSource_eq f.reader s
  unfold pumpBody
  cases hp : readSource look f.reader s with
  | mk b e =>
    rw [hp] at hs hf
    cases hw : readWhole look f.reader s.rest with
    | mk pl final' =>
      rw [hw] at hs hf
      cases hs
      cases e with
      | none =>
        cases hf
        exact .inr ⟨b, none, rfl, by simp, rfl⟩
      | some p =>
        obtain ⟨c, a⟩ := p
        cases hf
        cases c with
        | true => exact .inl ⟨b, a.rest, a, rfl, rfl, rfl⟩
        | false => exact .inr ⟨b, some (false, a.rest), rfl, by simp, rfl⟩

/-- The loop over a source does what the loop over its bytes does. -/
theorem serveConnection_eq (fuel : Nat) (h : List Request) (s : Source UInt8) :
    serveConnection acceptsUri canonicalReason transport handler fuel h s =
      serveBytes acceptsUri canonicalReason transport handler fuel h s.rest := by
  induction fuel generalizing h s with
  | zero => rfl
  | succ fuel ih =>
    rw [serveConnection, serveBytes]
    have hs := (@decodeRequestHead_stable acceptsUri).await_eq s
    cases f : await (decodeRequestHead acceptsUri) s with
    | none =>
      rw [f] at hs
      rw [← hs]
      rfl
    | some p =>
      obtain ⟨head, af⟩ := p
      rw [f] at hs
      rw [← hs]
      cases head with
      | none => rfl
      | some head =>
        dsimp only [Option.map_some]
        split
        · rfl
        rcases pumpBody_cases head.framing af with
          ⟨b, lf, l, hw, hp, hr⟩ | ⟨b, e, hw, hu, hp⟩
        · rw [hp, hw]
          dsimp only
          rw [ih, hr]
        rw [hp, hw]
        dsimp only
        cases e with
        | none => rfl
        | some p =>
          obtain ⟨c, lf⟩ := p
          cases c with
          | true => exact absurd rfl (hu lf)
          | false => rfl

theorem serveBytes_of_enough {fuel o : Nat} {h : List Request} {bs : Octets}
    (he : bs.length < fuel) (hp : bs.length < o) :
    serveBytes acceptsUri canonicalReason transport handler fuel h bs =
      serveBytes acceptsUri canonicalReason transport handler o h bs := by
  induction fuel generalizing o h bs with
  | zero => omega
  | succ fuel ih =>
    obtain ⟨o, rfl⟩ := Nat.exists_eq_succ_of_ne_zero (Nat.ne_of_gt (Nat.zero_lt_of_lt hp))
    rw [serveBytes, serveBytes]
    cases hd : decodeRequestHead acceptsUri bs with
    | none => rfl
    | some p =>
      obtain ⟨head, l⟩ := p
      cases head with
      | none => rfl
      | some head =>
        have hle := length_lt_of_decodeRequestHead hd
        dsimp only
        split
        · rfl
        split
        next b rest whole =>
          have hf : rest.length ≤ l.length :=
            length_le_of_readWhole look_consumes (by rw [whole])
          have hl := @ih o (h ++ [head.request b true]) rest (by omega) (by omega)
          rw [hl]
        · rfl

def serveAll (bytes : Octets) : Served :=
  serveBytes acceptsUri canonicalReason transport handler (bytes.length + 1) [] bytes

/-- Two ways in which the same bytes are read give the handler the same requests, write the same
and end alike: as the bytes alone decide, each request starting where the one before ends. -/
theorem serving_ignores_reads {first second : Source UInt8} (same : first.rest = second.rest)
    {fuel other : Nat} (enough : first.rest.length < fuel) (plenty : second.rest.length < other) :
    serveConnection acceptsUri canonicalReason transport handler fuel [] first =
        serveConnection acceptsUri canonicalReason transport handler other [] second ∧
      serveConnection acceptsUri canonicalReason transport handler fuel [] first =
        serveAll acceptsUri canonicalReason transport handler first.rest := by
  rw [serveConnection_eq, serveConnection_eq, ← same]
  rw [← same] at plenty
  exact ⟨serveBytes_of_enough _ _ _ _ enough plenty,
    serveBytes_of_enough _ _ _ _ enough (Nat.lt_succ_self _)⟩

end Loop

namespace Pipelined

/-- A request without a body, and one with a body in chunks right after it. -/
def bytes : Octets :=
  ascii "GET / HTTP/1.1" ++ CRLF ++ ascii "host: a" ++ CRLF ++ CRLF ++
    ascii "POST /b HTTP/1.1" ++ CRLF ++ ascii "host: a" ++ CRLF ++
    ascii "transfer-encoding: chunked" ++ CRLF ++ CRLF ++
    Chunked.encode (ascii "hi") ++ Chunked.encodeLast []

def canonicalReason (status : Nat) : Option ReasonPhrase :=
  if status = 200 then some .OK else none

def handler (_ : List Request) : Response := ⟨.OK, [], .bytes .empty⟩

def served : Source UInt8 → Served :=
  serveConnection (fun _ => true) canonicalReason .plaintextSocket handler 200 []

theorem packets_alike : served (Source.itemwise bytes) = served (Source.whole bytes) ∧
      (served (Source.whole bytes)).requests.map Request.body = [[], ascii "hi"] := by
  have ha := serving_ignores_reads (fun _ => true) canonicalReason .plaintextSocket handler
    (show (Source.itemwise bytes).rest = (Source.whole bytes).rest by simp)
    (show (Source.itemwise bytes).rest.length < 200 by rw [Source.rest_itemwise]; decide +kernel)
    (show (Source.whole bytes).rest.length < 200 by rw [Source.rest_whole]; decide +kernel)
  exact ⟨ha.1, by decide +kernel⟩

end Pipelined

end BoatRamp.Http1
