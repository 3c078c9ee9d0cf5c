import BoatRamp.Http2.Reader
import BoatRamp.Http2.Writer
import BoatRamp.Library.Machine

/-!
# The multiplexed connection

The reader, the writer and the handlers of a connection share one state under a
lock; a step of the connection is one critical section of one of them.
-/

namespace BoatRamp.Http2

open Library Http ReaderState

structure Mux where
  shared : Shared
  reader : ReaderState
  program : List ReaderOp
  listening : Bool
  handlers : List HandlerTask

/-- What can happen next: a frame arrives, the client closes, or one of the tasks runs its next
section. -/
inductive Action where
  | frame (frame : Frame)
  | eof
  | reader
  | handler (index : Nat) (event : HandlerEvent)
  | writer

def ReaderState.after (reader : ReaderState) : Outcome → List ReaderOp × Bool
  | .proceed ops => (ops, true)
  | .stop => ([.teardown], false)
  | .fail (.stream id code) => ([.failStream id code], true)
  | .fail (.connection code) =>
      ([.pushCtrl (goaway reader.lastClientId code), .setDone, .teardown], false)

def takeFrame (mux : Mux) (frame : Frame) : Shared × ReaderState × Outcome :=
  if OUR_MAX_FRAME_SIZE < frame.payload.length then
    (mux.shared, mux.reader, .fail (.connection .frameSizeError))
  else if mux.reader.expectingContinuation ∧
      (frame.kind ≠ .continuation ∨ frame.streamId ≠ mux.reader.headerSid) then
    (mux.shared, mux.reader, .fail (.connection .protocolError))
  else dispatch mux.reader mux.shared frame

def Mux.settle (mux : Mux) (shared : Shared) (result : ReaderState × Outcome) : Mux :=
  { mux with
    shared := shared
    reader := result.1
    program := (result.1.after result.2).1
    listening := (result.1.after result.2).2 }

def receive (mux : Mux) (frame : Frame) : Mux :=
  mux.settle (takeFrame mux frame).1 (takeFrame mux frame).2

def ReaderOp.run (config : Config) (mux : Mux) (rest : List ReaderOp) : ReaderOp → Mux
  | .pushCtrl bytes => { mux with shared := mux.shared.pushCtrl bytes, program := rest }
  | .capCheck sid headers endStream =>
      let (reader, outcome) :=
        mux.reader.openRequest config mux.shared.overCap sid headers endStream
      let (program, listening) := reader.after outcome
      { mux with reader := reader, program := program ++ rest, listening := listening }
  | .resetLocal sid code =>
      let (shared, effective) := mux.shared.resetLocal sid
      { mux with
        shared := shared
        program := (if effective then [.pushCtrl (rstStream sid code)] else []) ++ rest }
  | .spawn sid request body =>
      { mux with
        shared := { mux.shared with activeHandlers := mux.shared.activeHandlers + 1 }
        program := rest
        handlers := mux.handlers ++ [⟨sid, request, body, .handling⟩] }
  | .failStream id code =>
      { mux with
        shared := mux.shared.abort id, program := .pushCtrl (rstStream id code) :: rest }
  | .setDone => { mux with shared := { mux.shared with readerDone := true }, program := rest }
  | .teardown =>
      { mux with
        shared :=
          mux.shared.ids.foldl (fun shared id =>
            shared.modify id fun stream => { stream with drain := true })
            { mux.shared with readerDone := true }
        program := rest }

def step (config : Config) (mux : Mux) (action : Action) : Mux × Batch :=
  match action with
  | .frame frame =>
      if mux.listening ∧ mux.program = [] then (receive mux frame, []) else (mux, [])
  | .eof =>
      if mux.listening ∧ mux.program = [] then
        ({ mux with program := [.teardown], listening := false }, [])
      else (mux, [])
  | .reader =>
      match mux.program with
      | [] => (mux, [])
      | op :: rest => (op.run config mux rest, [])
  | .handler index event =>
      match mux.handlers[index]? with
      | none => (mux, [])
      | some task =>
          let (shared, phase) := task.step config mux.shared event
          ({ mux with
             shared := shared
             handlers := match phase with
               | none => mux.handlers.eraseIdx index
               | some phase => mux.handlers.set index { task with phase := phase } }, [])
  | .writer =>
      let written := buildBatch config mux.shared
      ({ mux with shared := written.1 }, written.2)

theorem step_writer (cfg : Config) (mux : Mux) : ∃ w, w = buildBatch cfg mux.shared ∧
      step cfg mux .writer = ({ mux with shared := w.1 }, w.2) :=
  ⟨_, rfl, rfl⟩

def connection (config : Config) : Machine Mux Action Batch where
  step := step config

def Mux.takes (mux : Mux) : Action → Option Frame
  | .frame frame => if mux.listening ∧ mux.program = [] then some frame else none
  | _ => none

def received (config : Config) : Mux → List Action → List Frame
  | _, [] => []
  | mux, action :: rest =>
      (mux.takes action).toList ++ received config (step config mux action).1 rest

def Mux.start : Mux where
  shared := Shared.new.pushCtrl
    (writeFrame .settings 0 0 (bigEndian 2 0x3 ++ bigEndian 4 MAX_CONCURRENT_STREAMS))
  reader := {}
  program := []
  listening := true
  handlers := []

/-- A section that neither opens a request nor hands one over. -/
def ReaderOp.routine : ReaderOp → Bool
  | .capCheck .. | .spawn .. => false
  | _ => true

def Routine (ops : List ReaderOp) : Prop := ∀ op ∈ ops, op.routine = true

variable (reader : ReaderState) (sh : Shared) (frame : Frame)

theorem routine_fail (err : H2Error) : Routine (reader.after (.fail err)).1 := by
  cases err <;> simp [Routine, after, ReaderOp.routine]

theorem routine_idle : Routine (reader.after (.proceed [])).1 := by
  simp [Routine, after, ReaderOp.routine]

variable {reader sh frame} in
theorem Settles.routine {res : Shared × Outcome} (hs : Settles reader sh frame res) :
    Routine (reader.after res.2).1 := by
  cases hs <;> simp [Routine, after, ReaderOp.routine]

theorem routine_creditOf : Routine (creditOf frame) := by
  unfold creditOf
  split <;> simp [Routine, ReaderOp.routine]

theorem takeFrame_rule {mux : Mux} {frame : Frame} {p : Shared × ReaderState × Outcome → Prop}
    (hr : ∀ code, p (mux.shared, mux.reader, .fail (.connection code)))
    (hh : frame.kind = .headers → mux.reader.expectingContinuation = false →
      p (onHeaders mux.reader mux.shared frame))
    (hc : frame.kind = .continuation → p (onContinuation mux.reader mux.shared frame))
    (hd : frame.kind = .data → mux.reader.expectingContinuation = false →
      p (onData mux.reader mux.shared frame))
    (hse : ∀ res, Settles mux.reader mux.shared frame res →
      mux.reader.expectingContinuation = false → frame.kind ≠ .headers →
      frame.kind ≠ .continuation → frame.kind ≠ .data →
      p (res.1, mux.reader, res.2)) : p (takeFrame mux frame) := by
  unfold takeFrame
  split
  · exact hr _
  split
  · exact hr _
  next expected =>
  have hs (ho : frame.kind ≠ .continuation) : mux.reader.expectingContinuation = false := by
    by_contra he
    exact expected ⟨by simpa using he, .inl ho⟩
  by_cases hfi : frame.kind = .headers
  · rw [dispatch_headers _ _ hfi]
    exact hh hfi (hs (by simp [hfi]))
  by_cases hf : frame.kind = .continuation
  · rw [dispatch_continuation _ _ hf]
    exact hc hf
  by_cases hb : frame.kind = .data
  · rw [dispatch_data _ _ hb]
    exact hd hb (hs hf)
  obtain ⟨res, hou, hsa⟩ :=
    dispatch_settles mux.reader mux.shared hfi hf hb
  rw [hsa]
  exact hse res hou (hs hf) hfi hf hb

theorem finishHeaders_lastClientId (sid : Nat) (es : Bool) :
    (reader.finishHeaders sid es).1.lastClientId = reader.lastClientId := by
  unfold finishHeaders
  dsimp only
  split
  · rfl
  split
  · split <;> rfl
  · rfl

theorem takeData_lastClientId (sid : Nat) (es : Bool) (d : Octets) (c : List ReaderOp) :
    (reader.takeData sid es d c).1.lastClientId = reader.lastClientId := by
  unfold takeData
  dsimp only
  split
  · split <;> rfl
  · rfl

inductive Receives (mux : Mux) (frame : Frame) : Shared × ReaderState × Outcome → Prop
  | refused (code : ErrorCode) :
      Receives mux frame (mux.shared, mux.reader, .fail (.connection code))
  | kept {reader : ReaderState} {outcome : Outcome} : frame.Plain →
      reader.lastClientId = mux.reader.lastClientId →
      Receives mux frame (mux.shared, reader, outcome)
  | moved {stream : MuxStream} {state : StreamState} {reader : ReaderState} {outcome : Outcome} :
      frame.Plain → mux.shared.streams.get? frame.streamId = some stream →
      reader.lastClientId = mux.reader.lastClientId →
      Receives mux frame (mux.shared.modify frame.streamId
        (fun stream => { stream with state := state }), reader, outcome)
  | opened {reader : ReaderState} {outcome : Outcome} : frame.kind = .headers →
      mux.shared.streams.get? frame.streamId = none →
      mux.reader.lastClientId < frame.streamId → reader.lastClientId = frame.streamId →
      Receives mux frame
        (mux.shared.open frame.streamId (frame.hasFlag END_STREAM), reader, outcome)
  | settled {result : Shared × Outcome} : Settles mux.reader mux.shared frame result →
      frame.kind ≠ .headers → Receives mux frame (result.1, mux.reader, result.2)

theorem takeFrame_receives (mux : Mux) (frame : Frame) :
    Receives mux frame (takeFrame mux frame) := by
  refine takeFrame_rule .refused (fun hk _ => ?_) (fun hk => ?_) (fun hk _ => ?_)
    (fun _ hs _ hh _ _ => .settled hs hh)
  all_goals have hp : frame.Plain := by simp [Frame.Plain, hk]
  · rcases onHeaders_eq mux.reader mux.shared frame with
      ⟨err, hr, _⟩ | ⟨b, next, a, _, ho, hou⟩
    · rw [hr]
      exact .kept hp rfl
    obtain ⟨reader, hlt, hsa⟩ : ∃ res : ReaderState × Outcome, res.1.lastClientId = a.lastClientId ∧
          onHeaders mux.reader mux.shared frame = (next, res) := by
      rcases hou with ⟨c, hla⟩ | ⟨_, hfi⟩ | ⟨_, hb⟩
      · exact ⟨_, rfl, hla⟩
      · exact ⟨_, finishHeaders_lastClientId (a.begin _ _ b) _ _, hfi⟩
      · exact ⟨_, rfl, hb⟩
    rw [hsa]
    rcases openStream_cases mux.reader mux.shared frame.streamId
      (frame.hasFlag END_STREAM) with ⟨_, hr, _⟩ | ⟨st, s, hf, _, _, hg⟩ | ⟨hfr, hl, hop⟩
    · rw [hr] at ho
      cases ho
    · rw [hg] at ho
      cases ho
      exact .moved hp hf hlt
    rw [hop] at ho
    cases ho
    exact .opened hk hfr hl hlt
  · rcases onContinuation_eq mux.reader mux.shared frame with
      ⟨_, _, hr⟩ | ⟨_, _, _, ⟨_, hfi⟩ | ⟨_, hb⟩⟩
    · rw [hr]
      exact .kept hp rfl
    · rw [hfi]
      exact .kept hp (finishHeaders_lastClientId _ _ _)
    · rw [hb]
      exact .kept hp rfl
  rcases onData_cases mux.reader mux.shared frame with ⟨err, hr, _⟩ |
    ⟨st, s, hf, _, ⟨c, hbr⟩ | ⟨_, _, ht⟩⟩
  · rw [hr]
    exact .kept hp rfl
  · rw [hbr]
    exact .moved hp hf rfl
  · rw [ht]
    exact .moved hp hf (takeData_lastClientId _ _ _ _ _)

/-- A relation between a stream before and after the sections that neither send nor receive. -/
structure Lenient (related : MuxStream → MuxStream → Prop) : Prop where
  refl : ∀ stream, related stream stream
  trans : ∀ first second third, related first second → related second third →
    related first third
  queue : ∀ stream, related stream { stream with queued := true }
  shift : ∀ (delta : Int) stream,
    related stream { stream with sendWindow := stream.sendWindow + delta }
  wake : ∀ flag stream, related stream { stream with drain := flag }
  reset : ∀ stream, related stream { stream with reset := true, state := .closed }

namespace Lenient

variable {r : MuxStream → MuxStream → Prop} (hle : Lenient r)

include hle

theorem markReady (sh : Shared) (id : Nat) : Shared.Evolves r sh (sh.markReady id) :=
  .markReady hle.refl hle.queue sh id

theorem markAllReady (sh : Shared) : Shared.Evolves r sh sh.markAllReady :=
  .foldl hle.refl hle.trans hle.markReady sh sh.ids

theorem abort (sh : Shared) (id : Nat) : Shared.Evolves r sh (sh.abort id) :=
  .modify hle.refl fun st =>
    hle.trans _ _ _ (hle.reset st) (hle.wake true _)

theorem resetLocal (sh : Shared) (id : Nat) : Shared.Evolves r sh (sh.resetLocal id).1 := by
  unfold Shared.resetLocal
  split
  · exact .refl hle.refl
  split
  · exact .refl hle.refl
  · exact .modify hle.refl hle.reset

theorem settles {reader : ReaderState} {sh : Shared} {frame : Frame} {res : Shared × Outcome}
    (hs : Settles reader sh frame res) : Shared.Evolves r sh res.1 := by
  have adjusted (p : Settings) : Shared.Evolves r sh (sh.adjust p).1 :=
    Shared.Evolves.foldl_shiftWindow hle.refl hle.trans hle.shift
      (p.initialWindowSize - sh.peer.initialWindowSize) { sh with peer := p } false sh.ids
  have granted (i : Nat) : Shared.Evolves r sh (sh.grant frame.streamId i) :=
    .modify hle.refl (hle.shift i)
  cases hs with
  | fatal | quiet | reply | stop | dependent | ungranted => exact .refl hle.refl
  | refused | adopted | raisedOver => exact .of_eq hle.refl rfl
  | adjusted => exact (adjusted _).trans hle.trans (hle.markAllReady _)
  | overflowed => exact adjusted _
  | raised => exact .trans hle.trans (.of_eq hle.refl rfl) (hle.markAllReady _)
  | granted => exact (granted _).trans hle.trans (hle.markReady _ _)
  | grantedOver => exact granted _
  | aborted | abortedOver => exact hle.abort sh frame.streamId

theorem run (cfg : Config) (mux : Mux) (rest : List ReaderOp) (op : ReaderOp) :
    Shared.Evolves r mux.shared (op.run cfg mux rest).shared := by
  cases op with
  | pushCtrl bs | spawn sid req b | setDone => exact .of_eq hle.refl rfl
  | capCheck sid hdrs es => exact .refl hle.refl
  | resetLocal sid c => exact hle.resetLocal mux.shared sid
  | failStream id c => exact hle.abort mux.shared id
  | teardown =>
    have hw (sh : Shared) (id : Nat) : Shared.Evolves r sh
        (sh.modify id fun st => { st with drain := true }) :=
      .modify hle.refl (hle.wake true)
    exact Shared.Evolves.foldl hle.refl hle.trans hw
      { mux.shared with readerDone := true } mux.shared.ids

end Lenient

end BoatRamp.Http2
