import BoatRamp.Http2.Streams

/-!
# The reader

The reader routes the frames of a client to its streams and starts a handler
for every complete request.  Taking a frame is one critical section; what a
frame asks for beyond that is left as a list of further sections.
-/

namespace BoatRamp.Http2

open Library Http Option SortedMap MuxStream Settings

def OUR_MAX_FRAME_SIZE : Nat := DEFAULT_MAX_FRAME_SIZE

def MAX_HEADER_BLOCK : Nat := 64 * 1024

def MAX_CONTINUATION_FRAMES : Nat := 64

def RAPID_RESET_MIN : Nat := 100

structure ReaderState where
  headerBuf : Octets := []
  headerSid : Nat := 0
  headerEndStream : Bool := false
  expectingContinuation : Bool := false
  continuationCount : Nat := 0
  lastClientId : Nat := 0
  requests : SortedMap Nat Request := SortedMap.empty
  bodies : SortedMap Nat Octets := SortedMap.empty
  contentLen : SortedMap Nat (Option Nat) := SortedMap.empty
  hpack : Hpack := Hpack.new

/-- The reader's further sections for a frame. -/
inductive ReaderOp where
  | pushCtrl (bytes : Octets)
  | capCheck (sid : Nat) (headers : HeaderList) (endStream : Bool)
  | resetLocal (sid : Nat) (code : ErrorCode)
  | spawn (sid : Nat) (request : Request) (body : Octets)
  | failStream (id : Nat) (code : ErrorCode)
  | setDone
  | teardown
  deriving DecidableEq

/-- How a frame was taken: what is left to do, the client's farewell, or an error. -/
inductive Outcome where
  | proceed (ops : List ReaderOp)
  | stop
  | fail (error : H2Error)

/-- A frame's outcome, after which further sections may follow. -/
def Outcome.andThen (first : List ReaderOp) : Outcome → Outcome
  | .proceed ops => .proceed (first ++ ops)
  | .stop => .stop
  | .fail (.stream id code) => .proceed (first ++ [.failStream id code])
  | .fail (.connection code) => .fail (.connection code)

def ofExcept {Result : Type} (result : Except H2Error Result) (next : Result → Outcome) : Outcome :=
  match result with
  | .error error => .fail error
  | .ok result => next result

def Request.contentLength (request : Request) : Option Nat :=
  ((request.headers.get .CONTENT_LENGTH).bind HeaderValue.toStr).bind parseU64

def deliver (sid : Nat) (request : Option Request) (declared : Option Nat) (body : Octets) :
    Outcome :=
  if declared.any (fun length => length ≠ body.length) then .fail (.stream sid .protocolError)
  else
    match request with
    | none => .proceed []
    | some request => .proceed [.spawn sid request body]

namespace ReaderState

def bodyOf (reader : ReaderState) (sid : Nat) : Octets := (reader.bodies.get? sid).getD []

def declared (reader : ReaderState) (sid : Nat) : Option Nat :=
  ((reader.contentLen.get? sid).getD none)

/-- Decode a complete header block: trailers end a request that waits for its body; any other
block opens one, which is checked against the number of streams first. -/
def finishHeaders (reader : ReaderState) (sid : Nat) (endStream : Bool) :
    ReaderState × Outcome :=
  let (decoded, hpack) := reader.hpack.decode reader.headerBuf
  let reader := { reader with hpack := hpack }
  match decoded with
  | .error error => (reader, .fail error)
  | .ok headers =>
      match reader.requests.get? sid with
      | some request =>
          if !endStream || headers.any (fun field => field.1.head? = some 0x3A) then
            (reader, .fail (.stream sid .protocolError))
          else
            ({ reader with
               requests := reader.requests.erase sid, bodies := reader.bodies.erase sid },
              deliver sid (some request) (reader.declared sid) (reader.bodyOf sid))
      | none => (reader, .proceed [.capCheck sid headers endStream])

def openRequest (config : Config) (reader : ReaderState) (overCap : Bool) (sid : Nat)
    (headers : HeaderList) (endStream : Bool) : ReaderState × Outcome :=
  if overCap then
    ({ reader with
       contentLen := reader.contentLen.erase sid, bodies := reader.bodies.erase sid },
      .proceed [.resetLocal sid .refusedStream])
  else
    match requestFromHeaders config.acceptsUri sid headers with
    | .error error => (reader, .fail error)
    | .ok request =>
        let reader :=
          { reader with contentLen := reader.contentLen.insert sid request.contentLength }
        if endStream then
          ({ reader with bodies := reader.bodies.erase sid },
            deliver sid (some request) request.contentLength (reader.bodyOf sid))
        else
          ({ reader with requests := reader.requests.insert sid request }, .proceed [])

end ReaderState

variable (reader : ReaderState) (shared : Shared) (frame : Frame)

def onSettings : Shared × Outcome :=
  if frame.streamId ≠ 0 then (shared, .fail (.connection .protocolError))
  else if frame.hasFlag ACK then
    if frame.payload = [] then (shared, .proceed [])
    else (shared, .fail (.connection .frameSizeError))
  else
    match parseSettings frame.payload with
    | .error error => (shared, .fail error)
    | .ok pairs =>
        match shared.peer.applyAll pairs with
        | (peer, .error error) => ({ shared with peer := peer }, .fail error)
        | (peer, .ok _) =>
            let delta := (peer.initialWindowSize : Int) - shared.peer.initialWindowSize
            let applied := { shared with peer := peer }
            let acknowledged (shared : Shared) := shared.pushCtrl (writeFrame .settings ACK 0 [])
            if delta = 0 then (acknowledged applied, .proceed [])
            else
              let (shifted, overflow) := applied.shiftWindows delta
              if overflow then (shifted, .fail (.connection .flowControlError))
              else (acknowledged shifted.markAllReady, .proceed [])

def onPing : Shared × Outcome :=
  if frame.streamId ≠ 0 then (shared, .fail (.connection .protocolError))
  else (shared, ofExcept (parsePing frame.payload) fun data =>
    if frame.hasFlag ACK then .proceed []
    else .proceed [.pushCtrl (writeFrame .ping ACK 0 data)])

def onGoAway : Shared × Outcome :=
  (shared, ofExcept (parseGoaway frame.payload) fun _ => .stop)

def onWindowUpdate : Shared × Outcome :=
  match parseWindowUpdate frame.payload with
  | .error error => (shared, .fail error)
  | .ok increment =>
      if frame.streamId = 0 then
        if increment = 0 then (shared, .fail (.connection .protocolError))
        else
          let raised := { shared with connSendWindow := shared.connSendWindow + increment }
          if (MAX_WINDOW_SIZE : Int) < raised.connSendWindow then
            (raised, .fail (.connection .flowControlError))
          else (raised.markAllReady, .proceed [])
      else if !shared.streams.contains frame.streamId && reader.lastClientId < frame.streamId then
        (shared, .fail (.connection .protocolError))
      else if increment = 0 then (shared, .fail (.stream frame.streamId .protocolError))
      else
        let raised := shared.modify frame.streamId fun stream =>
          { stream with sendWindow := stream.sendWindow + increment }
        if ((raised.streams.get? frame.streamId).map fun stream =>
            decide ((MAX_WINDOW_SIZE : Int) < stream.sendWindow)).getD false then
          (raised, .fail (.stream frame.streamId .flowControlError))
        else (raised.markReady frame.streamId, .proceed [])

def onRstStream : Shared × Outcome :=
  if frame.streamId = 0 then (shared, .fail (.connection .protocolError))
  else
    match parseRstStream frame.payload with
    | .error error => (shared, .fail error)
    | .ok _ =>
        if !shared.streams.contains frame.streamId && reader.lastClientId < frame.streamId then
          (shared, .fail (.connection .protocolError))
        else
          let counted := { shared.abort frame.streamId with resets := shared.resets + 1 }
          if RAPID_RESET_MIN ≤ counted.resets ∧ counted.opened < counted.resets * 2 then
            (counted, .fail (.connection .enhanceYourCalm))
          else (counted, .proceed [])

def onPriority : Shared × Outcome :=
  if frame.streamId = 0 then (shared, .fail (.connection .protocolError))
  else (shared, ofExcept (parsePriority frame.payload) fun dependency =>
    if dependency = frame.streamId then .fail (.stream frame.streamId .protocolError)
    else .proceed [])

def headerFragment : Except H2Error Octets := do
  let block ← stripPadding frame.payload (frame.hasFlag PADDED)
  if frame.hasFlag PRIORITY then
    if block.length < 5 then .error (.connection .frameSizeError)
    else
      let dependency ← parsePriority (block.take 5)
      if dependency = frame.streamId then .error (.stream frame.streamId .protocolError)
      else return block.drop 5
  else return block

def openStream (sid : Nat) (endStream : Bool) :
    (Shared × ReaderState) × Except H2Error Unit :=
  let new := !shared.streams.contains sid
  if new && sid ≤ reader.lastClientId then ((shared, reader), .error (.connection .protocolError))
  else if ((shared.streams.get? sid).map fun stream => decide (stream.state = .closed)).getD false
    then ((shared, reader), .error (.connection .streamClosed))
  else
    let (shared, reader) :=
      if new then
        ({ shared with
           opened := shared.opened + 1
           streams := shared.streams.insert sid (MuxStream.new shared.peer.initialWindowSize) },
          { reader with lastClientId := sid })
      else (shared, reader)
    let current := ((shared.streams.get? sid).map MuxStream.state).getD .idle
    match current.onRecv sid .headers endStream with
    | .error error => ((shared, reader), .error error)
    | .ok next =>
        ((shared.modify sid (fun stream => { stream with state := next }), reader), .ok ())

def onHeaders :
    Shared × ReaderState × Outcome :=
  let sid := frame.streamId
  if sid = 0 ∨ sid % 2 = 0 then (shared, reader, .fail (.connection .protocolError))
  else
    match headerFragment frame with
    | .error error => (shared, reader, .fail error)
    | .ok block =>
        let endStream := frame.hasFlag END_STREAM
        match openStream reader shared sid endStream with
        | ((shared, reader), .error error) => (shared, reader, .fail error)
        | ((shared, reader), .ok _) =>
            if MAX_HEADER_BLOCK < block.length then
              (shared, { reader with headerBuf := [], continuationCount := 0 },
                .fail (.connection .enhanceYourCalm))
            else
              let reader :=
                { reader with
                  headerBuf := block, headerSid := sid, headerEndStream := endStream
                  continuationCount := 0 }
              if frame.hasFlag END_HEADERS then (shared, reader.finishHeaders sid endStream)
              else (shared, { reader with expectingContinuation := true }, .proceed [])

def onContinuation :
    Shared × ReaderState × Outcome :=
  let sid := frame.streamId
  if !reader.expectingContinuation ∨ sid ≠ reader.headerSid then
    (shared, reader, .fail (.connection .protocolError))
  else
    let reader := { reader with continuationCount := reader.continuationCount + 1 }
    if MAX_CONTINUATION_FRAMES < reader.continuationCount ∨
        MAX_HEADER_BLOCK < reader.headerBuf.length + frame.payload.length then
      (shared, reader, .fail (.connection .enhanceYourCalm))
    else
      let reader := { reader with headerBuf := reader.headerBuf ++ frame.payload }
      if frame.hasFlag END_HEADERS then
        let reader := { reader with expectingContinuation := false }
        (shared, reader.finishHeaders sid reader.headerEndStream)
      else (shared, reader, .proceed [])

def windowUpdates (sid length : Nat) : Octets :=
  writeFrame .windowUpdate 0 0 (bigEndian 4 length) ++
    writeFrame .windowUpdate 0 sid (bigEndian 4 length)

def onData :
    Shared × ReaderState × Outcome :=
  let sid := frame.streamId
  if sid = 0 then (shared, reader, .fail (.connection .protocolError))
  else
    let endStream := frame.hasFlag END_STREAM
    match shared.streams.get? sid with
    | none => (shared, reader, .fail (.connection .protocolError))
    | some stream =>
        match stream.state.onRecv sid .data endStream with
        | .error error => (shared, reader, .fail error)
        | .ok next =>
            let shared := shared.modify sid fun stream => { stream with state := next }
            match stripPadding frame.payload (frame.hasFlag PADDED) with
            | .error error => (shared, reader, .fail error)
            | .ok data =>
                let body := reader.bodyOf sid ++ data
                let credit := if frame.payload = [] then []
                  else [ReaderOp.pushCtrl (windowUpdates sid frame.payload.length)]
                if endStream then
                  let outcome := deliver sid (reader.requests.get? sid) (reader.declared sid) body
                  let reader := { reader with bodies := reader.bodies.erase sid }
                  let reader :=
                    if (reader.declared sid).any (fun length => length ≠ body.length) then reader
                    else { reader with requests := reader.requests.erase sid }
                  (shared, reader, outcome.andThen credit)
                else
                  (shared, { reader with bodies := reader.bodies.insert sid body },
                    .proceed credit)

def dispatch (reader : ReaderState) (shared : Shared) (frame : Frame) :
    Shared × ReaderState × Outcome :=
  let plain (result : Shared × Outcome) := (result.1, reader, result.2)
  match frame.kind with
  | .settings => plain (onSettings shared frame)
  | .ping => plain (onPing shared frame)
  | .goAway => plain (onGoAway shared frame)
  | .windowUpdate => plain (onWindowUpdate reader shared frame)
  | .rstStream => plain (onRstStream reader shared frame)
  | .priority => plain (onPriority shared frame)
  | .headers => onHeaders reader shared frame
  | .continuation => onContinuation reader shared frame
  | .data => onData reader shared frame
  | .pushPromise => (shared, reader, .fail (.connection .protocolError))
  | .unknown _ => (shared, reader, .proceed [])

variable (reader : ReaderState) (shared : Shared) (frame : Frame)

theorem dispatch_headers {frame : Frame} (hk : frame.kind = .headers) :
    dispatch reader shared frame = onHeaders reader shared frame := by
  simp only [dispatch, hk]

theorem dispatch_continuation {frame : Frame} (hk : frame.kind = .continuation) :
    dispatch reader shared frame = onContinuation reader shared frame := by
  simp only [dispatch, hk]

theorem dispatch_data {frame : Frame} (hk : frame.kind = .data) :
    dispatch reader shared frame = onData reader shared frame := by
  simp only [dispatch, hk]

theorem Settings.apply_error {s : Settings} {id v : Nat} {err : H2Error}
    (hf : s.apply id v = .error err) : ∃ c, err = .connection c := by
  unfold apply at hf
  split at hf
  case h_2 =>
    split at hf
    all_goals cases hf
    exact ⟨_, rfl⟩
  case h_4 =>
    split at hf
    · cases hf
      exact ⟨_, rfl⟩
    · cases hf
  case h_5 =>
    split at hf
    · cases hf
      exact ⟨_, rfl⟩
    · cases hf
  all_goals cases hf

theorem Settings.applyAll_error {s next : Settings} {p : List (Nat × Nat)}
    {err : H2Error} (hf : s.applyAll p = (next, .error err)) : ∃ c, err = .connection c := by
  induction p generalizing s with
  | nil => cases hf
  | cons pr rest ih =>
    unfold applyAll at hf
    split at hf
    next hr =>
      cases hf
      exact apply_error hr
    next => exact ih hf

def Addressed : Prop :=
  shared.streams.contains frame.streamId = true ∨ frame.streamId ≤ reader.lastClientId

/-- The frame neither grants nor resets anything. -/
def Frame.Plain (frame : Frame) : Prop :=
  frame.kind ≠ .windowUpdate ∧ frame.kind ≠ .rstStream ∧
    (frame.kind = .settings → frame.hasFlag ACK = true)

/-- The streams when the client's initial window changes with its settings. -/
def Shared.adjust (shared : Shared) (peer : Settings) : Shared × Bool :=
  { shared with peer := peer }.shiftWindows (peer.initialWindowSize - shared.peer.initialWindowSize)

def Shared.raise (shared : Shared) (increment : Nat) : Shared :=
  { shared with connSendWindow := shared.connSendWindow + increment }

def Shared.grant (shared : Shared) (id increment : Nat) : Shared :=
  shared.modify id fun stream => { stream with sendWindow := stream.sendWindow + increment }

/-- What a frame that touches no request does to the shared state, and what it leaves to do. -/
inductive Settles : Shared × Outcome → Prop
  | fatal (code : ErrorCode) : Settles (shared, .fail (.connection code))
  | quiet : frame.Plain → Settles (shared, .proceed [])
  | reply (bytes : Octets) : frame.Plain → Settles (shared, .proceed [.pushCtrl bytes])
  | stop : frame.Plain → Settles (shared, .stop)
  | dependent : frame.kind = .priority →
      (parsePriority frame.payload).toOption = some frame.streamId →
      Settles (shared, .fail (.stream frame.streamId .protocolError))
  | refused (code : ErrorCode) :
      Settles ({ shared with peer := (shared.peer.applyAll (settingsPairs frame.payload)).1 },
        .fail (.connection code))
  | adopted {peer : Settings} : frame.kind = .settings → frame.hasFlag ACK = false →
      shared.peer.applyAll (settingsPairs frame.payload) = (peer, .ok ()) →
      (peer.initialWindowSize : Int) - shared.peer.initialWindowSize = 0 →
      Settles ({ shared with peer := peer }.pushCtrl (writeFrame .settings ACK 0 []), .proceed [])
  | adjusted {peer : Settings} : frame.kind = .settings → frame.hasFlag ACK = false →
      shared.peer.applyAll (settingsPairs frame.payload) = (peer, .ok ()) →
      (shared.adjust peer).2 = false →
      Settles ((shared.adjust peer).1.markAllReady.pushCtrl (writeFrame .settings ACK 0 []),
        .proceed [])
  | overflowed {peer : Settings} (code : ErrorCode) : frame.kind = .settings →
      frame.hasFlag ACK = false →
      shared.peer.applyAll (settingsPairs frame.payload) = (peer, .ok ()) →
      (shared.adjust peer).2 = true →
      Settles ((shared.adjust peer).1, .fail (.connection code))
  | raised {increment : Nat} : frame.kind = .windowUpdate → frame.streamId = 0 →
      parseWindowUpdate frame.payload = .ok increment →
      Settles ((shared.raise increment).markAllReady, .proceed [])
  | raisedOver {increment : Nat} (code : ErrorCode) :
      parseWindowUpdate frame.payload = .ok increment →
      (MAX_WINDOW_SIZE : Int) < shared.connSendWindow + increment →
      Settles (shared.raise increment, .fail (.connection code))
  | granted {increment : Nat} : frame.kind = .windowUpdate → frame.streamId ≠ 0 →
      parseWindowUpdate frame.payload = .ok increment → Addressed reader shared frame →
      Settles ((shared.grant frame.streamId increment).markReady frame.streamId, .proceed [])
  | grantedOver {increment : Nat} (code : ErrorCode) : frame.kind = .windowUpdate →
      frame.streamId ≠ 0 → parseWindowUpdate frame.payload = .ok increment →
      Addressed reader shared frame →
      (∀ stream, shared.streams.get? frame.streamId = some stream →
        (MAX_WINDOW_SIZE : Int) < stream.sendWindow + increment) →
      Settles (shared.grant frame.streamId increment, .fail (.stream frame.streamId code))
  | ungranted (code : ErrorCode) : frame.kind = .windowUpdate → frame.streamId ≠ 0 →
      parseWindowUpdate frame.payload = .ok 0 → Addressed reader shared frame →
      Settles (shared, .fail (.stream frame.streamId code))
  | aborted : frame.kind = .rstStream → Addressed reader shared frame →
      Settles ({ shared.abort frame.streamId with resets := shared.resets + 1 }, .proceed [])
  | abortedOver (code : ErrorCode) :
      Settles ({ shared.abort frame.streamId with resets := shared.resets + 1 },
        .fail (.connection code))

theorem addressed_of_not (ha : ¬(!shared.streams.contains frame.streamId &&
    decide (reader.lastClientId < frame.streamId)) = true) : Addressed reader shared frame := by
  simp only [Bool.and_eq_true, Bool.not_eq_true', decide_eq_true_eq, not_and_or,
    Bool.not_eq_false, Nat.not_lt] at ha
  exact ha

theorem onSettings_settles {frame : Frame} (hk : frame.kind = .settings) :
    Settles reader shared frame (onSettings shared frame) := by
  unfold onSettings
  split
  · exact .fatal _
  split
  next ack =>
    split
    · exact .quiet ⟨by simp [hk], by simp [hk], fun _ => ack⟩
    · exact .fatal _
  next notAck =>
  have hpa : frame.hasFlag ACK = false := by simpa using notAck
  unfold parseSettings
  split
  next err hf =>
    split at hf
    · cases hf
      exact .fatal _
    · cases hf
  next p hp =>
  split at hp
  · cases hp
  cases hp
  split
  next pr err hr =>
    obtain ⟨c, rfl⟩ := applyAll_error hr
    have hs := @Settles.refused reader shared frame c
    rwa [hr] at hs
  next pr _ a =>
  dsimp only
  split
  next same => exact .adopted hk hpa a same
  cases o : (shared.adjust pr).2 with
  | true =>
    unfold Shared.adjust at o
    rw [o, if_pos rfl]
    exact .overflowed _ hk hpa a o
  | false =>
    unfold Shared.adjust at o
    rw [o, if_neg Bool.false_ne_true]
    exact .adjusted hk hpa a o

theorem onPing_settles {frame : Frame} (hk : frame.kind = .ping) :
    Settles reader shared frame (onPing shared frame) := by
  have hp : frame.Plain := by simp [Frame.Plain, hk]
  unfold onPing parsePing
  split
  · exact .fatal _
  split
  · exact .fatal _
  simp only [ofExcept]
  split
  · exact .quiet hp
  · exact .reply _ hp

theorem onGoAway_settles {frame : Frame} (hk : frame.kind = .goAway) :
    Settles reader shared frame (onGoAway shared frame) := by
  unfold onGoAway parseGoaway
  split
  · exact .fatal _
  · exact .stop (by simp [Frame.Plain, hk])

theorem onWindowUpdate_settles {frame : Frame} (hki : frame.kind = .windowUpdate) :
    Settles reader shared frame (onWindowUpdate reader shared frame) := by
  unfold onWindowUpdate
  split
  next err hf =>
    unfold parseWindowUpdate at hf
    split at hf
    · cases hf
      exact .fatal _
    · cases hf
  next i parsed =>
  split
  next whole =>
    split
    · exact .fatal _
    dsimp only
    split
    next overflow => exact .raisedOver _ parsed overflow
    next => exact .raised hki whole parsed
  next one =>
  split
  · exact .fatal _
  next addressed =>
  have hk := addressed_of_not reader shared frame addressed
  split
  next nothing => exact .ungranted _ hki one (nothing ▸ parsed) hk
  dsimp only
  split
  next overflow =>
    refine .grantedOver _ hki one parsed hk fun st hfo => ?_
    rw [Shared.get?_modify, if_pos rfl, hfo] at overflow
    simpa using overflow
  next => exact .granted hki one parsed hk

theorem onRstStream_settles {frame : Frame} (hk : frame.kind = .rstStream) :
    Settles reader shared frame (onRstStream reader shared frame) := by
  unfold onRstStream parseRstStream
  split
  · exact .fatal _
  split
  next err hf =>
    split at hf
    · cases hf
      exact .fatal _
    · cases hf
  split
  · exact .fatal _
  next addressed =>
  dsimp only
  split
  · exact .abortedOver _
  · exact .aborted hk (addressed_of_not reader shared frame addressed)

theorem onPriority_settles {frame : Frame} (hk : frame.kind = .priority) :
    Settles reader shared frame (onPriority shared frame) := by
  unfold onPriority
  split
  · exact .fatal _
  cases hp : parsePriority frame.payload with
  | error error =>
    unfold parsePriority at hp
    split at hp
    · cases hp
      exact .fatal _
    · cases hp
  | ok dependency =>
    simp only [ofExcept]
    split
    next same => exact .dependent hk (by simp [hp, Except.toOption, same])
    next => exact .quiet (by simp [Frame.Plain, hk])

theorem dispatch_settles {frame : Frame} (hh : frame.kind ≠ .headers)
    (hc : frame.kind ≠ .continuation) (hd : frame.kind ≠ .data) :
    ∃ res, Settles reader shared frame res ∧
      dispatch reader shared frame = (res.1, reader, res.2) := by
  unfold dispatch
  split
  next kind => exact ⟨_, onSettings_settles reader shared kind, rfl⟩
  next kind => exact ⟨_, onPing_settles reader shared kind, rfl⟩
  next kind => exact ⟨_, onGoAway_settles reader shared kind, rfl⟩
  next kind => exact ⟨_, onWindowUpdate_settles reader shared kind, rfl⟩
  next kind => exact ⟨_, onRstStream_settles reader shared kind, rfl⟩
  next kind => exact ⟨_, onPriority_settles reader shared kind, rfl⟩
  next kind => exact absurd kind hh
  next kind => exact absurd kind hc
  next kind => exact absurd kind hd
  next => exact ⟨(shared, .fail (.connection .protocolError)), .fatal _, rfl⟩
  next kind => exact ⟨(shared, .proceed []), .quiet (by simp [Frame.Plain, kind]), rfl⟩

def MuxStream.opened (peerInitialWindow : Int) (endStream : Bool) : MuxStream :=
  { MuxStream.new peerInitialWindow with
    state := if endStream then .halfClosedRemote else .opened }

def Shared.open (shared : Shared) (sid : Nat) (endStream : Bool) : Shared :=
  { shared with
    opened := shared.opened + 1
    streams := shared.streams.insert sid
      (MuxStream.opened shared.peer.initialWindowSize endStream) }

theorem openStream_cases (sid : Nat) (endStream : Bool) :
    (∃ error, openStream reader shared sid endStream = ((shared, reader), .error error) ∧
      ((∃ code, error = .connection code) ∨ error = .stream sid .streamClosed ∧
          (shared.streams.get? sid).map state = some .halfClosedRemote)) ∨
    (∃ stream next, shared.streams.get? sid = some stream ∧ stream.state ≠ .closed ∧
      stream.state.onRecv sid .headers endStream = .ok next ∧
      openStream reader shared sid endStream =
        ((shared.modify sid (fun stream => { stream with state := next }), reader), .ok ())) ∨
    (shared.streams.get? sid = none ∧ reader.lastClientId < sid ∧
      openStream reader shared sid endStream =
        ((shared.open sid endStream, { reader with lastClientId := sid }), .ok ())) := by
  unfold openStream
  cases hf : shared.streams.get? sid with
  | none =>
    by_cases hk : sid ≤ reader.lastClientId
    · exact .inl ⟨.connection .protocolError, by simp [contains, hf, hk], .inl ⟨_, rfl⟩⟩
    refine .inr (.inr ⟨rfl, Nat.lt_of_not_le hk, ?_⟩)
    simp only [contains, hf, isSome_none, Bool.not_false, Bool.true_and,
      decide_eq_true_eq, hk, if_false, map_none, getD_none,
      Bool.false_eq_true, if_true, get?_insert_self, map_some,
      getD_some, new, StreamState.onRecv, Shared.modify]
    simp [Shared.open, opened, new, insert_insert_self]
  | some stream =>
    simp only [contains, hf, isSome_some, Bool.not_true, Bool.false_and,
      Bool.false_eq_true, if_false, map_some, getD_some, decide_eq_true_eq]
    by_cases closed : stream.state = .closed
    · exact .inl ⟨_, by rw [if_pos closed], .inl ⟨_, rfl⟩⟩
    rw [if_neg closed]
    cases hr : stream.state.onRecv sid .headers endStream with
    | error error =>
      refine .inl ⟨error, rfl, .inr ?_⟩
      cases state : stream.state with
      | halfClosedRemote =>
        rw [state] at hr
        exact ⟨(Except.error.inj hr).symm, rfl⟩
      | closed => exact absurd state closed
      | idle | opened | halfClosedLocal =>
        rw [state] at hr
        cases hr
    | ok next => exact .inr (.inl ⟨stream, next, rfl, closed, hr, rfl⟩)

def ReaderState.begin (reader : ReaderState) (sid : Nat) (endStream : Bool) (block : Octets) :
    ReaderState :=
  { reader with
    headerBuf := block, headerSid := sid, headerEndStream := endStream, continuationCount := 0 }

/-- A HEADERS frame is refused, or its stream takes it; then its block is too large, complete or
under way. -/
theorem onHeaders_eq : (∃ err, onHeaders reader shared frame = (shared, reader, .fail err) ∧
      ((∃ c, err = .connection c) ∨ headerFragment frame = .error err ∨
        err = .stream frame.streamId .streamClosed ∧
          (shared.streams.get? frame.streamId).map state = some .halfClosedRemote)) ∨
    ∃ b next a, headerFragment frame = .ok b ∧
      openStream reader shared frame.streamId (frame.hasFlag END_STREAM) = ((next, a), .ok ()) ∧
      ((∃ c, onHeaders reader shared frame =
          (next, { a with headerBuf := [], continuationCount := 0 }, .fail (.connection c))) ∨
        (frame.hasFlag END_HEADERS = true ∧ onHeaders reader shared frame =
          (next, (a.begin frame.streamId (frame.hasFlag END_STREAM) b).finishHeaders
            frame.streamId (frame.hasFlag END_STREAM))) ∨
        (frame.hasFlag END_HEADERS = false ∧ onHeaders reader shared frame =
          (next, { a.begin frame.streamId (frame.hasFlag END_STREAM) b with
            expectingContinuation := true }, .proceed []))) := by
  unfold onHeaders
  dsimp only
  split
  · exact .inl ⟨_, rfl, .inl ⟨_, rfl⟩⟩
  split
  next err failed => exact .inl ⟨err, rfl, .inr (.inl failed)⟩
  next b parsed =>
  rcases openStream_cases reader shared frame.streamId (frame.hasFlag END_STREAM) with
    ⟨err, hr, hre⟩ | ⟨st, s, _, _, _, ha⟩ | ⟨_, _, ha⟩
  · rw [hr]
    exact .inl ⟨err, rfl, hre.imp_right .inr⟩
  all_goals
    refine .inr ⟨b, _, _, parsed, ha, ?_⟩
    rw [ha]
    dsimp only
    split
    · exact .inl ⟨_, rfl⟩
    split
    next complete => exact .inr (.inl ⟨complete, rfl⟩)
    next partly => exact .inr (.inr ⟨by simpa using partly, rfl⟩)

theorem onContinuation_eq : (∃ c cd, onContinuation reader shared frame =
      (shared, { reader with continuationCount := c }, .fail (.connection cd))) ∨
    reader.expectingContinuation = true ∧ frame.streamId = reader.headerSid ∧
      ∃ c, let l : ReaderState := { reader with
          continuationCount := c, headerBuf := reader.headerBuf ++ frame.payload }
        (frame.hasFlag END_HEADERS = true ∧ onContinuation reader shared frame =
          (shared, ({ l with expectingContinuation := false } : ReaderState).finishHeaders
            frame.streamId reader.headerEndStream)) ∨
        (frame.hasFlag END_HEADERS = false ∧ onContinuation reader shared frame =
          (shared, l, .proceed [])) := by
  unfold onContinuation
  dsimp only
  split
  · exact .inl ⟨reader.continuationCount, _, rfl⟩
  next expected =>
  simp only [Bool.not_eq_true', not_or, Bool.not_eq_false, ne_eq, not_not] at expected
  split
  · exact .inl ⟨_, _, rfl⟩
  refine .inr ⟨expected.1, expected.2, reader.continuationCount + 1, ?_⟩
  split
  next complete => exact .inl ⟨complete, rfl⟩
  next partly => exact .inr ⟨by simpa using partly, rfl⟩

/-- A complete block is refused, ends a request that waits for its body, or opens one. -/
theorem finishHeaders_cases (reader : ReaderState) (sid : Nat) (es : Bool) :
    let d : ReaderState := { reader with hpack := (reader.hpack.decode reader.headerBuf).2 }
    (∃ err, reader.finishHeaders sid es = (d, .fail err) ∧
      ((reader.hpack.decode reader.headerBuf).1 = .error err ∨ err = .stream sid .protocolError)) ∨
    ∃ hdrs, (reader.hpack.decode reader.headerBuf).1 = .ok hdrs ∧
      ((reader.requests.get? sid = none ∧ reader.finishHeaders sid es =
          (d, .proceed [.capCheck sid hdrs es])) ∨
        ∃ req, reader.requests.get? sid = some req ∧ es = true ∧ reader.finishHeaders sid es =
            ({ d with
               requests := reader.requests.erase sid, bodies := reader.bodies.erase sid },
              deliver sid (some req) (reader.declared sid) (reader.bodyOf sid))) := by
  unfold ReaderState.finishHeaders
  dsimp only
  split
  next err failed => exact .inl ⟨err, rfl, .inl failed⟩
  next hdrs d =>
  cases hw : reader.requests.get? sid with
  | none => exact .inr ⟨hdrs, d, .inl ⟨rfl, rfl⟩⟩
  | some req =>
    dsimp only
    split
    · exact .inl ⟨_, rfl, .inr rfl⟩
    next ha =>
    refine .inr ⟨hdrs, d, .inr ⟨req, rfl, ?_, rfl⟩⟩
    cases es with
    | true => rfl
    | false => simp at ha

def ReaderState.takeData (reader : ReaderState) (sid : Nat) (endStream : Bool) (data : Octets)
    (credit : List ReaderOp) : ReaderState × Outcome :=
  let body := reader.bodyOf sid ++ data
  if endStream then
    if (reader.declared sid).any (fun length => length ≠ body.length) then
      ({ reader with bodies := reader.bodies.erase sid },
        .proceed (credit ++ [.failStream sid .protocolError]))
    else
      ({ reader with
         bodies := reader.bodies.erase sid, requests := reader.requests.erase sid },
        .proceed (credit ++ ((reader.requests.get? sid).map (ReaderOp.spawn sid · body)).toList))
  else ({ reader with bodies := reader.bodies.insert sid body }, .proceed credit)

def creditOf (frame : Frame) : List ReaderOp :=
  if frame.payload = [] then []
  else [.pushCtrl (windowUpdates frame.streamId frame.payload.length)]

theorem stripPadding_error {pl : Octets} {p : Bool} {err : H2Error}
    (hf : stripPadding pl p = .error err) : err = .connection .protocolError := by
  unfold stripPadding at hf
  split at hf
  · cases hf
  split at hf
  · exact (Except.error.inj hf).symm
  split at hf
  · exact (Except.error.inj hf).symm
  · cases hf

theorem StreamState.onRecv_error {s : StreamState} {id : Nat} {k : FrameType}
    {es : Bool} {err : H2Error} (hf : s.onRecv id k es = .error err) :
    (∃ c, err = .connection c) ∨ ∃ c, err = .stream id c := by
  unfold onRecv at hf
  split at hf
  all_goals cases hf
  all_goals first
    | exact .inl ⟨_, rfl⟩
    | exact .inr ⟨_, rfl⟩

theorem onData_cases : (∃ err, onData reader shared frame = (shared, reader, .fail err) ∧
      ((∃ c, err = .connection c) ∨ ∃ c st, err = .stream frame.streamId c ∧
        shared.streams.get? frame.streamId = some st ∧ st.state ≠ .opened)) ∨
    ∃ st next, shared.streams.get? frame.streamId = some st ∧
      st.state.onRecv frame.streamId .data (frame.hasFlag END_STREAM) = .ok next ∧
      let m := shared.modify frame.streamId fun st => { st with state := next }
      ((∃ c, onData reader shared frame = (m, reader, .fail (.connection c))) ∨
        ∃ d, stripPadding frame.payload (frame.hasFlag PADDED) = .ok d ∧
          onData reader shared frame = (m, reader.takeData frame.streamId
            (frame.hasFlag END_STREAM) d (creditOf frame))) := by
  unfold onData
  dsimp only
  split
  · exact .inl ⟨_, rfl, .inl ⟨_, rfl⟩⟩
  split
  · exact .inl ⟨_, rfl, .inl ⟨_, rfl⟩⟩
  next st found =>
  split
  next err hr =>
    refine .inl ⟨err, rfl, (StreamState.onRecv_error hr).imp_right ?_⟩
    rintro ⟨c, rfl⟩
    refine ⟨c, st, rfl, found, fun ho => ?_⟩
    rw [ho] at hr
    cases hr
  next next received =>
  refine .inr ⟨st, next, found, received, ?_⟩
  split
  next err broken => exact .inl ⟨_, by rw [stripPadding_error broken]⟩
  next d stripped =>
  refine .inr ⟨d, stripped, ?_⟩
  unfold ReaderState.takeData deliver creditOf
  cases he : frame.hasFlag END_STREAM with
  | false => rfl
  | true =>
    have hs (b : SortedMap Nat Octets) :
        ReaderState.declared { reader with bodies := b } frame.streamId =
          reader.declared frame.streamId := rfl
    simp only [if_true, hs]
    cases (reader.declared frame.streamId).any (fun len =>
        decide (len ≠ (reader.bodyOf frame.streamId ++ d).length)) with
    | true => rfl
    | false =>
      cases reader.requests.get? frame.streamId with
      | none | some req => simp [Outcome.andThen]

end BoatRamp.Http2
