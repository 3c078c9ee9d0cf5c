import BoatRamp.Http.Fields

/-!
# Frames, settings and stream states

The frame layer of HTTP/2 and the two small state machines on top of it: the
settings of a peer and the life of a stream.
-/

namespace BoatRamp.Http2

inductive ErrorCode where
  | noError
  | protocolError
  | internalError
  | flowControlError
  | settingsTimeout
  | streamClosed
  | frameSizeError
  | refusedStream
  | cancel
  | compressionError
  | connectError
  | enhanceYourCalm
  | inadequateSecurity
  | http11Required
  | unknown (code : Nat)
  deriving DecidableEq

def ErrorCode.code : ErrorCode → Nat
  | .noError => 0x0
  | .protocolError => 0x1
  | .internalError => 0x2
  | .flowControlError => 0x3
  | .settingsTimeout => 0x4
  | .streamClosed => 0x5
  | .frameSizeError => 0x6
  | .refusedStream => 0x7
  | .cancel => 0x8
  | .compressionError => 0x9
  | .connectError => 0xa
  | .enhanceYourCalm => 0xb
  | .inadequateSecurity => 0xc
  | .http11Required => 0xd
  | .unknown code => code

inductive H2Error where
  | stream (id : Nat) (code : ErrorCode)
  | connection (code : ErrorCode)

inductive FrameType where
  | data
  | headers
  | priority
  | rstStream
  | settings
  | pushPromise
  | ping
  | goAway
  | windowUpdate
  | continuation
  | unknown (code : UInt8)
  deriving DecidableEq

def FrameType.asU8 : FrameType → UInt8
  | .data => 0x0
  | .headers => 0x1
  | .priority => 0x2
  | .rstStream => 0x3
  | .settings => 0x4
  | .pushPromise => 0x5
  | .ping => 0x6
  | .goAway => 0x7
  | .windowUpdate => 0x8
  | .continuation => 0x9
  | .unknown code => code

def END_STREAM : UInt8 := 0x1

def ACK : UInt8 := 0x1

def END_HEADERS : UInt8 := 0x4

def PADDED : UInt8 := 0x8

def PRIORITY : UInt8 := 0x20

/-- A received frame: its header with the payload whose length it announced. -/
structure Frame where
  kind : FrameType
  flags : UInt8
  streamId : Nat
  payload : Octets

def Frame.hasFlag (frame : Frame) (flag : UInt8) : Bool := frame.flags &&& flag != 0

def bigEndian : (width : Nat) → Nat → Octets
  | 0, _ => []
  | width + 1, number => bigEndian width (number / 256) ++ [UInt8.ofNat (number % 256)]

def ofBigEndian (bytes : Octets) : Nat := bytes.foldl (fun value byte => value * 256 + byte.toNat) 0

def masked (number : Nat) : Nat := number % 2 ^ 31

def writeFrame (kind : FrameType) (flags : UInt8) (streamId : Nat) (payload : Octets) : Octets :=
  bigEndian 3 payload.length ++ [kind.asU8, flags] ++ bigEndian 4 (masked streamId) ++ payload

def rstStream (streamId : Nat) (code : ErrorCode) : Octets :=
  writeFrame .rstStream 0 streamId (bigEndian 4 code.code)

def goaway (last : Nat) (code : ErrorCode) : Octets :=
  writeFrame .goAway 0 0 (bigEndian 4 (masked last) ++ bigEndian 4 code.code)

variable (payload : Octets)

def stripPadding (padded : Bool) : Except H2Error Octets :=
  if !padded then .ok payload
  else
    match payload with
    | [] => .error (.connection .protocolError)
    | pad :: rest =>
        if rest.length < pad.toNat then .error (.connection .protocolError)
        else .ok (rest.take (rest.length - pad.toNat))

def settingsPairs : Octets → List (Nat × Nat)
  | first :: second :: third :: fourth :: fifth :: sixth :: rest =>
      (ofBigEndian [first, second], ofBigEndian [third, fourth, fifth, sixth]) :: settingsPairs rest
  | _ => []

def parseSettings : Except H2Error (List (Nat × Nat)) :=
  if payload.length % 6 ≠ 0 then .error (.connection .frameSizeError)
  else .ok (settingsPairs payload)

def parseWindowUpdate : Except H2Error Nat :=
  if payload.length ≠ 4 then .error (.connection .frameSizeError)
  else .ok (masked (ofBigEndian payload))

def parseRstStream : Except H2Error Unit :=
  if payload.length ≠ 4 then .error (.connection .frameSizeError) else .ok ()

def parsePing : Except H2Error Octets :=
  if payload.length ≠ 8 then .error (.connection .frameSizeError) else .ok payload

def parsePriority : Except H2Error Nat :=
  if payload.length ≠ 5 then .error (.connection .frameSizeError)
  else .ok (masked (ofBigEndian (payload.take 4)))

def parseGoaway : Except H2Error Unit :=
  if payload.length < 8 then .error (.connection .frameSizeError) else .ok ()

def DEFAULT_CONNECTION_WINDOW : Int := 65535

def DEFAULT_INITIAL_WINDOW_SIZE : Nat := 65535

def DEFAULT_MAX_FRAME_SIZE : Nat := 16384

def MIN_MAX_FRAME_SIZE : Nat := 16384

def MAX_MAX_FRAME_SIZE : Nat := 2 ^ 24 - 1

def MAX_WINDOW_SIZE : Nat := 2 ^ 31 - 1

def DEFAULT_HEADER_TABLE_SIZE : Nat := 4096

structure Settings where
  headerTableSize : Nat := DEFAULT_HEADER_TABLE_SIZE
  enablePush : Bool := true
  maxConcurrentStreams : Option Nat := none
  initialWindowSize : Nat := DEFAULT_INITIAL_WINDOW_SIZE
  maxFrameSize : Nat := DEFAULT_MAX_FRAME_SIZE
  maxHeaderListSize : Option Nat := none

/-- Apply one parameter; unknown identifiers are ignored. -/
def Settings.apply (settings : Settings) (id value : Nat) : Except H2Error Settings :=
  match id with
  | 0x1 => .ok { settings with headerTableSize := value }
  | 0x2 =>
      match value with
      | 0 => .ok { settings with enablePush := false }
      | 1 => .ok { settings with enablePush := true }
      | _ => .error (.connection .protocolError)
  | 0x3 => .ok { settings with maxConcurrentStreams := some value }
  | 0x4 =>
      if MAX_WINDOW_SIZE < value then .error (.connection .flowControlError)
      else .ok { settings with initialWindowSize := value }
  | 0x5 =>
      if value < MIN_MAX_FRAME_SIZE ∨ MAX_MAX_FRAME_SIZE < value then
        .error (.connection .protocolError)
      else .ok { settings with maxFrameSize := value }
  | 0x6 => .ok { settings with maxHeaderListSize := some value }
  | _ => .ok settings

/-- Apply the parameters of a frame in their order; those before a refused one stay applied. -/
def Settings.applyAll (settings : Settings) : List (Nat × Nat) → Settings × Except H2Error Unit
  | [] => (settings, .ok ())
  | pair :: rest =>
      match settings.apply pair.1 pair.2 with
      | .error error => (settings, .error error)
      | .ok next => next.applyAll rest

inductive StreamState where
  | idle
  | opened
  | halfClosedRemote
  | halfClosedLocal
  | closed
  deriving DecidableEq

def StreamState.onRecv (state : StreamState) (id : Nat) (kind : FrameType) (endStream : Bool) :
    Except H2Error StreamState :=
  match state, kind with
  | .idle, .headers => .ok (if endStream then .halfClosedRemote else .opened)
  | .idle, .priority => .ok .idle
  | .idle, _ => .error (.connection .protocolError)
  | .opened, .data | .opened, .headers => .ok (if endStream then .halfClosedRemote else .opened)
  | .opened, .continuation | .opened, .windowUpdate | .opened, .priority => .ok .opened
  | .opened, .rstStream => .ok .closed
  | .halfClosedRemote, .windowUpdate | .halfClosedRemote, .priority => .ok .halfClosedRemote
  | .halfClosedRemote, .rstStream => .ok .closed
  | .halfClosedRemote, _ => .error (.stream id .streamClosed)
  | .halfClosedLocal, .data | .halfClosedLocal, .headers =>
      .ok (if endStream then .closed else .halfClosedLocal)
  | .halfClosedLocal, .continuation | .halfClosedLocal, .windowUpdate
  | .halfClosedLocal, .priority => .ok .halfClosedLocal
  | .halfClosedLocal, .rstStream => .ok .closed
  | .closed, .priority | .closed, .windowUpdate | .closed, .rstStream => .ok .closed
  | .closed, _ => .error (.stream id .streamClosed)
  | _, .settings | _, .ping | _, .goAway | _, .pushPromise => .error (.connection .protocolError)
  | state, .unknown _ => .ok state

end BoatRamp.Http2
