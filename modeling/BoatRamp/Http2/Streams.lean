import BoatRamp.Http2.Request
import BoatRamp.Library.SortedMap

/-!
# Streams and handlers

The state that the reader, the writer and the handlers of a connection share
under a lock, and the sections in which a handler queues its response.
-/

namespace BoatRamp.Http2

open Library Http

def MAX_CONCURRENT_STREAMS : Nat := 256

/-- What a deployment chooses: the depth at which a streaming producer pauses, and the grammar of
request targets. -/
structure Config where
  highWater : Nat
  acceptsUri : Octets → Bool

def Config.lowWater (config : Config) : Nat := config.highWater / 2

inductive OutFrame where
  | headers (fields : HeaderList) (endStream : Bool)
  | data (bytes : Octets) (off : Nat) (endStream : Bool)
  deriving DecidableEq

def OutFrame.unsent : OutFrame → Nat
  | .headers .. => 0
  | .data bytes off _ => bytes.length - off

structure MuxStream where
  state : StreamState
  sendWindow : Int
  outbox : List OutFrame
  queued : Bool
  reset : Bool
  unsent : Nat
  /-- A wake-up for the producer is stored. -/
  drain : Bool
  deriving DecidableEq

def MuxStream.new (peerInitialWindow : Int) : MuxStream :=
  ⟨.idle, peerInitialWindow, [], false, false, 0, false⟩

structure Shared where
  streams : SortedMap Nat MuxStream
  ready : List Nat
  connSendWindow : Int
  peer : Settings
  ctrl : Octets
  activeHandlers : Nat
  readerDone : Bool
  opened : Nat
  resets : Nat

namespace Shared

def new : Shared where
  streams := SortedMap.empty
  ready := []
  connSendWindow := DEFAULT_CONNECTION_WINDOW
  peer := {}
  ctrl := []
  activeHandlers := 0
  readerDone := false
  opened := 0
  resets := 0

def modify (shared : Shared) (id : Nat) (change : MuxStream → MuxStream) : Shared :=
  match shared.streams.get? id with
  | none => shared
  | some stream => { shared with streams := shared.streams.insert id (change stream) }

variable (shared : Shared) (id : Nat)

def markReady : Shared :=
  match shared.streams.get? id with
  | none => shared
  | some stream =>
      if !stream.queued && !stream.reset && !stream.outbox.isEmpty then
        { shared with
          streams := shared.streams.insert id { stream with queued := true }
          ready := shared.ready ++ [id] }
      else shared

def ids (shared : Shared) : List Nat := shared.streams.entries.map Prod.fst

def markAllReady : Shared := shared.ids.foldl markReady shared

def pushCtrl (bytes : Octets) : Shared :=
  { shared with ctrl := shared.ctrl ++ bytes }

def pushOut (frame : OutFrame) : Shared × Bool :=
  match shared.streams.get? id with
  | none => (shared, false)
  | some stream =>
      if stream.reset then (shared, false)
      else
        ((shared.modify id fun stream =>
          { stream with
            unsent := stream.unsent + frame.unsent
            outbox := stream.outbox ++ [frame] }).markReady id, true)

def resetLocal : Shared × Bool :=
  match shared.streams.get? id with
  | none => (shared, false)
  | some stream =>
      if stream.reset then (shared, false)
      else (shared.modify id (fun stream => { stream with reset := true, state := .closed }), true)

/-- A stream that the peer or an error has ended; its producer is woken. -/
def abort : Shared :=
  shared.modify id fun stream => { stream with state := .closed, reset := true, drain := true }

def closeLocal : Shared :=
  shared.modify id fun stream =>
    { stream with
      state := if stream.state = .halfClosedRemote then .closed else .halfClosedLocal }

def active (shared : Shared) : Nat :=
  (shared.streams.entries.filter fun entry =>
    entry.2.state ≠ .closed && !entry.2.reset).length

def overCap : Bool :=
  MAX_CONCURRENT_STREAMS < shared.streams.entries.length && MAX_CONCURRENT_STREAMS < shared.active

/-- Shift the window of a stream, unless one before it became too large. -/
def shiftWindow (delta : Int) : Shared × Bool → Nat → Shared × Bool
  | (shared, true), _ => (shared, true)
  | (shared, false), id =>
      let next := shared.modify id fun stream =>
        { stream with sendWindow := stream.sendWindow + delta }
      (next, ((next.streams.get? id).map fun stream =>
        decide ((MAX_WINDOW_SIZE : Int) < stream.sendWindow)).getD false)

/-- Shift the windows of all streams, and say whether one of them is then too large. -/
def shiftWindows (delta : Int) : Shared × Bool :=
  shared.ids.foldl (shiftWindow delta) (shared, false)

end Shared

section Evolution

variable {related : MuxStream → MuxStream → Prop} {shared next : Shared} {id : Nat}

theorem Shared.get?_modify (shared : Shared) (id : Nat) (c : MuxStream → MuxStream) (o : Nat) :
    (shared.modify id c).streams.get? o =
      if o = id then (shared.streams.get? id).map c else shared.streams.get? o := by
  unfold Shared.modify
  cases hf : shared.streams.get? id with
  | none =>
    by_cases same : o = id
    · simp [same, hf]
    · simp [same]
  | some stream =>
    rw [SortedMap.get?_insert]
    simp only [Option.map_some]

def Shared.Evolves (related : MuxStream → MuxStream → Prop) (shared next : Shared) : Prop :=
  ∀ id stream, next.streams.get? id = some stream →
    ∃ before, shared.streams.get? id = some before ∧ related before stream

namespace Shared

theorem Evolves.refl (same : ∀ stream, related stream stream) : Evolves related shared shared :=
  fun _ stream hf => ⟨stream, hf, same stream⟩

theorem Evolves.of_eq (same : ∀ stream, related stream stream)
    (hk : next.streams = shared.streams) : Evolves related shared next := by
  intro id stream hf
  rw [hk] at hf
  exact ⟨stream, hf, same stream⟩

theorem Evolves.trans (hc : ∀ x y third, related x y → related y third → related x third)
    {m l : Shared} (he : Evolves related shared m) (hl : Evolves related m l) :
    Evolves related shared l := by
  intro id stream hf
  obtain ⟨y, hth, ho⟩ := hl id stream hf
  obtain ⟨x, b, ht⟩ := he id y hth
  exact ⟨x, b, hc x y stream ht ho⟩

variable (same : ∀ stream, related stream stream)

include same

theorem Evolves.change {c : MuxStream → MuxStream} (hc : ∀ o, next.streams.get? o =
      if o = id then (shared.streams.get? id).map c else shared.streams.get? o)
    (hch : ∀ stream, shared.streams.get? id = some stream → related stream (c stream)) :
    Evolves related shared next := by
  intro o stream hf
  rw [hc] at hf
  by_cases hh : o = id
  · rw [if_pos hh, Option.map_eq_some_iff] at hf
    obtain ⟨b, ht, rfl⟩ := hf
    exact ⟨b, hh ▸ ht, hch b ht⟩
  · rw [if_neg hh] at hf
    exact ⟨stream, hf, same stream⟩

theorem Evolves.modify {c : MuxStream → MuxStream} (hc : ∀ stream, related stream (c stream)) :
    Evolves related shared (shared.modify id c) :=
  .change same (get?_modify shared id c) fun stream _ => hc stream

theorem Evolves.markReady (hq : ∀ stream, related stream { stream with queued := true })
    (shared : Shared) (id : Nat) : Evolves related shared (shared.markReady id) := by
  unfold Shared.markReady
  cases hf : shared.streams.get? id with
  | none => exact .refl same
  | some stream =>
    dsimp only
    split
    · intro o a ht
      rw [SortedMap.get?_insert] at ht
      split at ht
      next here =>
        cases ht
        exact ⟨stream, here ▸ hf, hq stream⟩
      next => exact ⟨a, ht, same a⟩
    · exact .refl same

theorem Evolves.foldl
    (hc : ∀ first second third, related first second → related second third → related first third)
    {op : Shared → Nat → Shared} (he : ∀ shared id, Evolves related shared (op shared id))
    (shared : Shared) (ids : List Nat) : Evolves related shared (ids.foldl op shared) := by
  induction ids generalizing shared with
  | nil => exact .refl same
  | cons id rest ih =>
    exact (he shared id).trans hc (ih _)

theorem Evolves.foldl_shiftWindow
    (hc : ∀ first second third, related first second → related second third → related first third)
    (hs : ∀ (d : Int) stream, related stream { stream with sendWindow := stream.sendWindow + d })
    (d : Int) (shared : Shared) (o : Bool) (ids : List Nat) :
    Evolves related shared (ids.foldl (shiftWindow d) (shared, o)).1 := by
  induction ids generalizing shared o with
  | nil => exact .refl same
  | cons id rest ih =>
    rw [List.foldl_cons]
    cases o with
    | true => exact ih shared true
    | false =>
      exact (Evolves.modify same (hs d)).trans hc (ih _ _)

end Shared

end Evolution

@[simp] theorem Shared.modify_connSendWindow (shared : Shared) (id : Nat)
    (c : MuxStream → MuxStream) : (shared.modify id c).connSendWindow = shared.connSendWindow := by
  unfold Shared.modify
  split <;> rfl

@[simp] theorem Shared.modify_peer (shared : Shared) (id : Nat) (c : MuxStream → MuxStream) :
    (shared.modify id c).peer = shared.peer := by
  unfold Shared.modify
  split <;> rfl

@[simp] theorem Shared.modify_ready (shared : Shared) (id : Nat)
    (c : MuxStream → MuxStream) : (shared.modify id c).ready = shared.ready := by
  unfold Shared.modify
  split <;> rfl

inductive ResponseBody where
  | bytes (body : Octets)
  | stream

structure ResponseParts where
  status : Nat
  headers : HeaderMap

def responseFields (parts : ResponseParts) (contentLength : Option Nat) : HeaderList :=
  (ascii ":status", decimal parts.status) ::
    (parts.headers.filter fun field => !isConnectionSpecific field.1.bytes).map
      (fun field => (field.1.bytes, field.2.bytes)) ++
    match contentLength with
    | some length =>
        if parts.headers.containsKey .CONTENT_LENGTH then []
        else [(ascii "content-length", decimal length)]
    | none => []

def responseToFrames (parts : ResponseParts) (body : Octets) : List OutFrame :=
  if body = [] then [.headers (responseFields parts none) true]
  else [.headers (responseFields parts (some body.length)) false, .data body 0 true]

inductive HandlerPhase where
  | handling
  | buffered (frames : List OutFrame)
  | streamHead (fields : HeaderList)
  | streamDrain
  | streaming
  | pushing (chunk : Octets)
  | checking
  | parked
  | failing
  | failed
  | closing
  | finishing
  deriving DecidableEq

structure HandlerTask where
  sid : Nat
  request : Request
  body : Octets
  phase : HandlerPhase

/-- What happens outside the connection: the handler answers, or its body goes on, ends or fails. -/
inductive HandlerEvent where
  | respond (parts : ResponseParts) (body : ResponseBody)
  | chunk (bytes : Octets)
  | ended
  | failed
  | proceed

def HandlerTask.step (config : Config) (shared : Shared) (task : HandlerTask)
    (event : HandlerEvent) : Shared × Option HandlerPhase :=
  match task.phase, event with
  | .handling, .respond parts (.bytes body) =>
      (shared, some (.buffered (responseToFrames parts body)))
  | .handling, .respond parts .stream => (shared, some (.streamHead (responseFields parts none)))
  | .buffered frames, .proceed =>
      let queued := match shared.streams.get? task.sid with
        | none => shared
        | some stream =>
            if stream.reset then shared
            else shared.modify task.sid fun stream =>
              { stream with unsent := (frames.map OutFrame.unsent).sum, outbox := frames }
      (queued.markReady task.sid, some .finishing)
  | .streamHead fields, .proceed =>
      let (next, accepted) := shared.pushOut task.sid (.headers fields false)
      (next, some (if accepted then .streamDrain else .finishing))
  | .streamDrain, .proceed =>
      (shared, some (if ((shared.streams.get? task.sid).map fun stream => !stream.reset).getD false
        then .streaming else .finishing))
  | .streaming, .chunk bytes => (shared, some (if bytes = [] then .streaming else .pushing bytes))
  | .streaming, .failed => (shared, some .failing)
  | .streaming, .ended => (shared, some .closing)
  | .pushing bytes, .proceed =>
      let (next, accepted) := shared.pushOut task.sid (.data bytes 0 false)
      (next, some (if accepted then .checking else .finishing))
  | .checking, .proceed =>
      match shared.streams.get? task.sid with
      | none => (shared, some .finishing)
      | some stream =>
          if stream.reset then (shared, some .finishing)
          else if config.highWater < stream.unsent then
            (shared, some (if shared.readerDone then .finishing else .parked))
          else (shared, some .streaming)
  | .parked, .proceed =>
      match shared.streams.get? task.sid with
      | none => (shared, some .parked)
      | some stream =>
          if stream.drain then
            (shared.modify task.sid (fun stream => { stream with drain := false }), some .checking)
          else (shared, some .parked)
  | .failing, .proceed =>
      let (next, effective) := shared.resetLocal task.sid
      (next, some (if effective then .failed else .finishing))
  | .failed, .proceed => (shared.pushCtrl (rstStream task.sid .internalError), some .finishing)
  | .closing, .proceed => ((shared.pushOut task.sid (.data [] 0 true)).1, some .finishing)
  | .finishing, .proceed => ({ shared with activeHandlers := shared.activeHandlers - 1 }, none)
  | phase, _ => (shared, some phase)

/-- The phases between which a task goes without touching the shared state. -/
inductive HandlerPhase.Moves : HandlerEvent → HandlerPhase → HandlerPhase → Prop
  | respondBytes (parts : ResponseParts) (body : Octets) :
      Moves (.respond parts (.bytes body)) .handling (.buffered (responseToFrames parts body))
  | respondStream (parts : ResponseParts) :
      Moves (.respond parts .stream) .handling (.streamHead (responseFields parts none))
  | start : Moves .proceed .streamDrain .streaming
  | refused : Moves .proceed .streamDrain .finishing
  | skip : Moves (.chunk []) .streaming .streaming
  | produce {bytes : Octets} : bytes ≠ [] → Moves (.chunk bytes) .streaming (.pushing bytes)
  | fail : Moves .failed .streaming .failing
  | close : Moves .ended .streaming .closing
  | stopped : Moves .proceed .checking .finishing
  | park : Moves .proceed .checking .parked
  | resume : Moves .proceed .checking .streaming
  | ignore (event : HandlerEvent) (phase : HandlerPhase) :
      (∀ parts body, phase = .handling → event ≠ .respond parts body) →
      (∀ bytes, phase = .streaming → event ≠ .chunk bytes) →
      (phase = .streaming → event ≠ .failed ∧ event ≠ .ended) → Moves event phase phase

inductive HandlerPhase.Pushes : HandlerPhase → OutFrame → HandlerPhase → Prop
  | head (fields : HeaderList) : Pushes (.streamHead fields) (.headers fields false) .streamDrain
  | chunk (bytes : Octets) : Pushes (.pushing bytes) (.data bytes 0 false) .checking
  | last : Pushes .closing (.data [] 0 true) .finishing

inductive HandlerTask.Runs (shared : Shared) (task : HandlerTask) :
    HandlerEvent → Shared × Option HandlerPhase → Prop
  | move {event : HandlerEvent} {next : HandlerPhase} :
      HandlerPhase.Moves event task.phase next → Runs shared task event (shared, some next)
  | fill {frames : List OutFrame} {stream : MuxStream} : task.phase = .buffered frames →
      shared.streams.get? task.sid = some stream → stream.reset = false →
      Runs shared task .proceed ((shared.modify task.sid fun stream =>
        { stream with unsent := (frames.map OutFrame.unsent).sum, outbox := frames }).markReady
          task.sid, some .finishing)
  | drop {frames : List OutFrame} : task.phase = .buffered frames →
      (∀ stream, shared.streams.get? task.sid = some stream → stream.reset = true) →
      Runs shared task .proceed (shared.markReady task.sid, some .finishing)
  | push {frame : OutFrame} {next : HandlerPhase} : HandlerPhase.Pushes task.phase frame next →
      Runs shared task .proceed ((shared.pushOut task.sid frame).1,
        some (if (shared.pushOut task.sid frame).2 then next else .finishing))
  | wake : task.phase = .parked →
      Runs shared task .proceed
        (shared.modify task.sid (fun stream => { stream with drain := false }), some .checking)
  | reset : task.phase = .failing →
      Runs shared task .proceed ((shared.resetLocal task.sid).1,
        some (if (shared.resetLocal task.sid).2 then .failed else .finishing))
  | report : task.phase = .failed →
      Runs shared task .proceed
        (shared.pushCtrl (rstStream task.sid .internalError), some .finishing)
  | finish : task.phase = .finishing →
      Runs shared task .proceed
        ({ shared with activeHandlers := shared.activeHandlers - 1 }, none)

open HandlerTask

theorem HandlerTask.step_runs (config : Config) (shared : Shared) (task : HandlerTask)
    (event : HandlerEvent) : task.Runs shared event (task.step config shared event) := by
  rcases task with ⟨sid, request, body, phase⟩
  cases event with
  | respond parts answer =>
    cases phase with
    | handling =>
      cases answer with
      | bytes body => exact .move (.respondBytes parts body)
      | stream => exact .move (.respondStream parts)
    | _ => exact .move (.ignore _ _ nofun nofun fun _ => ⟨nofun, nofun⟩)
  | chunk bytes =>
    cases phase with
    | streaming =>
      simp only [step]
      split
      next empty => exact empty ▸ .move .skip
      next some => exact .move (.produce some)
    | _ => exact .move (.ignore _ _ nofun nofun nofun)
  | failed =>
    cases phase with
    | streaming => exact .move .fail
    | _ => exact .move (.ignore _ _ nofun nofun nofun)
  | ended =>
    cases phase with
    | streaming => exact .move .close
    | _ => exact .move (.ignore _ _ nofun nofun nofun)
  | proceed =>
    cases phase with
    | handling => exact .move (.ignore _ _ nofun nofun nofun)
    | buffered frames =>
      simp only [step]
      cases hf : shared.streams.get? sid with
      | none => exact .drop rfl fun stream ht => by simp [hf] at ht
      | some stream =>
        dsimp only
        split
        next reset =>
          refine .drop rfl fun other ht => ?_
          cases hf.symm.trans ht
          exact reset
        next running => exact .fill rfl hf (by simpa using running)
    | streamHead fields => exact .push (.head fields)
    | streamDrain =>
      simp only [step]
      split
      · exact .move .start
      · exact .move .refused
    | streaming => exact .move (.ignore _ _ nofun nofun fun _ => ⟨nofun, nofun⟩)
    | pushing bytes => exact .push (.chunk bytes)
    | checking =>
      simp only [step]
      split
      · exact .move .stopped
      split
      · exact .move .stopped
      split
      · split
        · exact .move .stopped
        · exact .move .park
      · exact .move .resume
    | parked =>
      simp only [step]
      split
      · exact .move (.ignore _ _ nofun nofun nofun)
      split
      · exact .wake rfl
      · exact .move (.ignore _ _ nofun nofun nofun)
    | failing => exact .reset rfl
    | failed => exact .report rfl
    | closing =>
      have hp : (mk sid request body .closing).Runs shared .proceed _ :=
        .push .last
      rwa [ite_self] at hp
    | finishing => exact .finish rfl

end BoatRamp.Http2
