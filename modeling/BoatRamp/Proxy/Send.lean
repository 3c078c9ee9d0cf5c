import BoatRamp.Http.Numerals
import BoatRamp.Http1.Client

/-!
# Requests to an upstream

What the upstream client writes for a request.  It removes the framing fields
it was given and frames the body itself: with the declared length if there is
one, and in chunks if there is a body without one.
-/

namespace BoatRamp.Proxy

open Http Http1

/-- The fields that belong to a connection and are not forwarded. -/
def HOP : List Octets :=
  ["connection", "keep-alive", "proxy-authenticate", "proxy-authorization", "te", "trailer",
    "transfer-encoding", "upgrade"].map ascii

def isHopByHop (name : HeaderName) : Bool := HOP.contains name.bytes

/-- A request on its way to an upstream: where it goes, and its body as it arrives. -/
structure Outgoing where
  method : Method
  authority : Option Octets
  pathAndQuery : Option Octets
  headers : HeaderMap
  body : List Octets

inductive BodyPlan where
  | none
  | fixed
  | chunked (first : Octets)

namespace Outgoing

def target (outgoing : Outgoing) : Octets := outgoing.pathAndQuery.getD (ascii "/")

/-- The fields without the framing, and with a host. -/
def baseHeaders (outgoing : Outgoing) : HeaderMap :=
  let headers : HeaderMap := HeaderMap.remove (HeaderMap.remove outgoing.headers .CONTENT_LENGTH)
    .TRANSFER_ENCODING
  if headers.containsKey .HOST then headers
  else
    match outgoing.authority.bind HeaderValue.fromStr with
    | some host => headers.insert .HOST host
    | none => headers

/-- How the body is framed, with the fields that say so and the data that is left to read. -/
def plan (outgoing : Outgoing) : BodyPlan × HeaderMap × List Octets :=
  match declaredLen outgoing.headers with
  | some 0 => (.none, outgoing.baseHeaders, outgoing.body)
  | some length =>
      (.fixed, outgoing.baseHeaders.insert .CONTENT_LENGTH (HeaderValue.ofNat length),
        outgoing.body)
  | none =>
      match outgoing.body with
      | [] => (.none, outgoing.baseHeaders, [])
      | first :: rest =>
          (.chunked first,
            outgoing.baseHeaders.insert .TRANSFER_ENCODING HeaderValue.CHUNKED, rest)

def headBytes (outgoing : Outgoing) : Octets :=
  encodeRequestHead outgoing.method outgoing.target outgoing.plan.2.1

end Outgoing

def bodyBytes (plan : BodyPlan) (data : List Octets) : Octets :=
  match plan with
  | .none => []
  | .fixed => data.flatten
  | .chunked first =>
      ((first :: data).filter fun piece => piece ≠ []).flatMap Chunked.encode ++
        Chunked.encodeLast []

def Outgoing.written (outgoing : Outgoing) : Octets :=
  outgoing.headBytes ++ bodyBytes outgoing.plan.1 outgoing.plan.2.2

end BoatRamp.Proxy
