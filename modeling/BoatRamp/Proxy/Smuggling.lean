import BoatRamp.Http2.Delivery
import BoatRamp.Proxy.Forwarding

/-!
# From multiplexed streams to upstream connections

A request that a client sends on a stream is handed over with the data of the
stream as its body, and forwarded to an upstream.  What is written there is one
request with that data just when the request can be forwarded as it is.
-/

namespace BoatRamp.Proxy

open Library Http Http1 Http2

/-- A request of a stream is written as one request with the data of the stream, exactly when the
length that it declares is the length of that data, its method is not CONNECT and its head is
small. -/
theorem stream_forwarded_iff (config : Config) (actions : List Action) {action : Action}
    {sid : Nat} {request : Http2.Request} {body : Octets}
    (handed : ((connection config).final Mux.start actions).hands action =
      some (sid, request, body))
    (uri : UpstreamUri config.acceptsUri) (pieces : List Octets) (whole : pieces.flatten = body)
    (fits : (forward uri request.method request.headers pieces).written.length < 2 ^ 64) :
    OneRequest config.acceptsUri (forward uri request.method request.headers pieces).written
        ((transcribe config .start Mux.start actions).data sid) ↔
      Forwardable uri request.method request.headers pieces := by
  have hs := ((Transcript.delivers_reachable config actions).hands handed).body
  rw [← hs, ← whole]
  exact oneRequest_forward_iff uri request.method request.headers pieces fits

namespace Padded

def config : Config := ⟨1024, fun _ => true⟩

def actions (length body : Octets) : List Action :=
  [.frame ⟨.headers, END_HEADERS, 1,
     [0x83, 0x84, 0x87, 0x0F, 0x0D, UInt8.ofNat length.length] ++ length⟩, .reader,
   .frame ⟨.data, END_STREAM, 1, body⟩, .reader]

def request (length : HeaderValue) : Http2.Request :=
  ⟨.POST, ascii "/", [(.CONTENT_LENGTH, length)]⟩

def uri : UpstreamUri config.acceptsUri :=
  ⟨ascii "a", by decide, by decide, ⟨ascii "/", by decide, by decide, by decide⟩⟩

def hidden : Octets := ascii "helloGET /admin HTTP/1.1\r\n\r\n"

/-- The declared length has a space before it, so the connection does not check it and the upstream
client does: what follows the first five bytes is left over as a second request. -/
theorem second_request_smuggled :
    ((connection config).final Mux.start (actions (ascii " 5") hidden)).hands .reader =
        some (1, request ⟨ascii " 5", by decide⟩, hidden) ∧ ¬ OneRequest config.acceptsUri
        (forward uri (request ⟨ascii " 5", by decide⟩).method
          (request ⟨ascii " 5", by decide⟩).headers [hidden]).written
        ((transcribe config .start Mux.start (actions (ascii " 5") hidden)).data 1) := by
  refine ⟨by decide +kernel, fun one => ?_⟩
  have hs : (transcribe config .start Mux.start (actions (ascii " 5") hidden)).data 1 =
      [hidden].flatten := by decide +kernel
  rw [hs, oneRequest_forward_iff _ _ _ _ (by decide +kernel)] at one
  exact absurd (one.declared 5 (by decide +kernel)) (by decide)

theorem plain_length_forwarded : OneRequest config.acceptsUri
      (forward uri (request ⟨ascii "5", by decide⟩).method
        (request ⟨ascii "5", by decide⟩).headers [ascii "hello"]).written
      ((transcribe config .start Mux.start (actions (ascii "5") (ascii "hello"))).data 1) := by
  have hh : ((connection config).final Mux.start
      (actions (ascii "5") (ascii "hello"))).hands .reader =
        some (1, request ⟨ascii "5", by decide⟩, ascii "hello") := by decide +kernel
  have hf : declaredLen (request ⟨ascii "5", by decide⟩).headers = some 5 := by decide +kernel
  rw [stream_forwarded_iff config _ hh uri [ascii "hello"] rfl (by decide +kernel)]
  refine ⟨fun len hd => ?_, by decide, by decide +kernel⟩
  cases hf.symm.trans hd
  decide

end Padded

end BoatRamp.Proxy
