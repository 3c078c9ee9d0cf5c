import BoatRamp.Http2.Streams

/-!
# The writer

The writer drains the ready streams in batches, a frame of each in turn, within
the windows of the stream and of the connection.
-/

namespace BoatRamp.Http2

open Library Http Shared Option

def MAX_OUT_FRAME : Nat := 128 * 1024

def WRITE_BATCH_TARGET : Nat := 64 * 1024

inductive Segment where
  | control (bytes : Octets)
  | headers (sid : Nat) (endStream : Bool) (block : Octets)
  | data (sid : Nat) (payload : Octets) (endStream : Bool)

def Segment.bytes : Segment → Octets
  | .control bytes => bytes
  | .headers sid endStream block =>
      writeFrame .headers (END_HEADERS ||| if endStream then END_STREAM else 0) sid block
  | .data sid payload endStream =>
      writeFrame .data (if endStream then END_STREAM else 0) sid payload

abbrev Batch := List Segment

def Batch.len (batch : Batch) : Nat := (batch.map fun segment => segment.bytes.length).sum

variable (shared : Shared) (config : Config)

/-- How many bytes of a stream's next frame may be sent now. -/
def sendable (stream : MuxStream) (remaining : Nat) : Nat :=
  if remaining = 0 then 0
  else
    let maxFrame : Int := min (shared.peer.maxFrameSize : Int) MAX_OUT_FRAME
    min remaining (min (min (max stream.sendWindow 0) (max shared.connSendWindow 0)) maxFrame).toNat

def sendData (shared : Shared) (id chunk : Nat) (bytes : Octets) (off : Nat)
    (endStream : Bool) : Shared × Segment :=
  let isLast := decide (chunk = bytes.length - off)
  let sent := { shared with connSendWindow := shared.connSendWindow - chunk }.modify id
    (fun stream =>
      { stream with
        sendWindow := stream.sendWindow - chunk
        outbox := if isLast then stream.outbox.tail
          else .data bytes (off + chunk) endStream :: stream.outbox.tail
        unsent := stream.unsent - chunk
        drain := stream.drain ||
          decide (config.lowWater < stream.unsent ∧ stream.unsent - chunk ≤ config.lowWater) })
  (if isLast && endStream then sent.closeLocal id else sent,
    .data id ((bytes.drop off).take chunk) (isLast && endStream))

def sendHeaders (id : Nat) (fields : HeaderList) (endStream : Bool) :
    Shared × Segment :=
  let sent := shared.modify id fun stream => { stream with outbox := stream.outbox.tail }
  (if endStream then sent.closeLocal id else sent, .headers id endStream (Hpack.encode fields))

def goesOn (stream : MuxStream) : Bool :=
  match stream.outbox with
  | [] => false
  | .headers .. :: _ => true
  | .data .. :: _ => decide (0 < stream.sendWindow ∧ 0 < shared.connSendWindow)

def requeue (id : Nat) : Shared :=
  match shared.streams.get? id with
  | none => shared
  | some stream =>
      if goesOn shared stream then
        { shared.modify id (fun stream => { stream with queued := true }) with
          ready := shared.ready ++ [id] }
      else shared

/-- Drop a stream that is closed and has nothing left to send. -/
def reap (id : Nat) : Shared :=
  match shared.streams.get? id with
  | none => shared
  | some stream =>
      if stream.state = .closed ∧ stream.outbox = [] then
        { shared with streams := shared.streams.erase id }
      else shared

def visit (shared : Shared) (id : Nat) : Shared × Batch :=
  let shared := shared.modify id fun stream => { stream with queued := false }
  match shared.streams.get? id with
  | none => (shared, [])
  | some stream =>
      if stream.reset then (shared, [])
      else
        match stream.outbox with
        | [] => (shared, [])
        | .headers fields endStream :: _ =>
            let (sent, segment) := sendHeaders shared id fields endStream
            (reap (requeue sent id) id, [segment])
        | .data bytes off endStream :: _ =>
            let chunk := sendable shared stream (bytes.length - off)
            if chunk = 0 ∧ bytes.length - off ≠ 0 then (shared, [])
            else
              let (sent, segment) := sendData config shared id chunk bytes off endStream
              (reap (requeue sent id) id, [segment])

/-- Visit the ready streams in turn until the batch is large enough or none is left. -/
def drainReady (config : Config) : (fuel : Nat) → Shared → (length : Nat) → Shared × Batch
  | 0, shared, _ => (shared, [])
  | fuel + 1, shared, length =>
      if WRITE_BATCH_TARGET ≤ length then (shared, [])
      else
        match shared.ready with
        | [] => (shared, [])
        | id :: ready =>
            let (visited, segments) := visit config { shared with ready := ready } id
            let (last, later) := drainReady config fuel visited (length + segments.len)
            (last, segments ++ later)

def controlBatch (shared : Shared) : Batch :=
  if shared.ctrl = [] then [] else [.control shared.ctrl]

/-- Pending control frames first, then the ready streams.  A visit either sends at least the nine
bytes of a frame header or leaves the queue shorter, so the number of visits is bounded. -/
def buildBatch (shared : Shared) : Shared × Batch :=
  let control := controlBatch shared
  let drained := drainReady config (shared.ready.length + 2 * WRITE_BATCH_TARGET)
    { shared with ctrl := [] } control.len
  (drained.1, control ++ drained.2)

def StreamState.ended (state : StreamState) : StreamState :=
  if state = .halfClosedRemote then .closed else .halfClosedLocal

def MuxStream.sentHeaders (endStream : Bool) (stream : MuxStream) : MuxStream :=
  { stream with
    outbox := stream.outbox.tail
    state := if endStream then stream.state.ended else stream.state }

def MuxStream.sentData (chunk : Nat) (bytes : Octets) (off : Nat)
    (endStream : Bool) (stream : MuxStream) : MuxStream :=
  let isLast := decide (chunk = bytes.length - off)
  { stream with
    sendWindow := stream.sendWindow - chunk
    outbox := if isLast then stream.outbox.tail
      else .data bytes (off + chunk) endStream :: stream.outbox.tail
    unsent := stream.unsent - chunk
    drain := stream.drain ||
      decide (config.lowWater < stream.unsent ∧ stream.unsent - chunk ≤ config.lowWater)
    state := if isLast && endStream then stream.state.ended else stream.state }

variable (config : Config) (shared : Shared) (id : Nat)

theorem sendHeaders_get? (fs : HeaderList) (es : Bool) (o : Nat) :
    (sendHeaders shared id fs es).1.streams.get? o =
      if o = id then (shared.streams.get? id).map (MuxStream.sentHeaders es)
      else shared.streams.get? o := by
  cases es with
  | true =>
    simp only [sendHeaders, if_true, closeLocal, get?_modify, map_map]
    split <;> rfl
  | false => exact get?_modify ..

variable (c : Nat) (bs : Octets) (off : Nat) (es : Bool)

theorem sendData_get? (o : Nat) : (sendData config shared id c bs off es).1.streams.get? o =
      if o = id then
        (shared.streams.get? id).map (MuxStream.sentData config c bs off es)
      else shared.streams.get? o := by
  unfold sendData MuxStream.sentData
  dsimp only
  cases (decide (c = bs.length - off) && es) with
  | true =>
    simp only [if_true, closeLocal, get?_modify, map_map]
    split <;> rfl
  | false => exact get?_modify ..

theorem sendData_connSendWindow :
    (sendData config shared id c bs off es).1.connSendWindow = shared.connSendWindow - c := by
  unfold sendData
  dsimp only
  split
  · exact (modify_connSendWindow ..).trans (modify_connSendWindow ..)
  · exact modify_connSendWindow ..

theorem sendData_peer : (sendData config shared id c bs off es).1.peer = shared.peer := by
  unfold sendData
  dsimp only
  split
  · exact (modify_peer ..).trans (modify_peer ..)
  · exact modify_peer ..

theorem requeue_get? (o : Nat) : (requeue shared id).streams.get? o =
      if o = id then (shared.streams.get? id).map fun st =>
        { st with queued := st.queued || goesOn shared st }
      else shared.streams.get? o := by
  unfold requeue
  cases hf : shared.streams.get? id with
  | none =>
    by_cases here : o = id
    · simp [here, hf]
    · simp [here]
  | some st =>
    dsimp only
    split
    next goes =>
      rw [get?_modify, hf]
      simp [goes]
    next stays =>
    by_cases here : o = id
    · simp [here, hf, stays]
    · simp [here]

theorem reap_get? (o : Nat) : (reap shared id).streams.get? o =
      if o = id then (shared.streams.get? id).filter fun st =>
        !decide (st.state = .closed ∧ st.outbox = [])
      else shared.streams.get? o := by
  unfold reap
  cases hf : shared.streams.get? id with
  | none =>
    by_cases here : o = id
    · simp [here, hf]
    · simp [here]
  | some st =>
    dsimp only
    split
    next done =>
      rw [SortedMap.get?_erase]
      by_cases here : o = id
      · simp [here, Option.filter, done]
      · simp [here]
    next kept =>
    by_cases here : o = id
    · simp only [here, hf, if_true, Option.filter, kept, decide_false, Bool.not_false]
    · simp [here]

theorem sendable_le_remaining (st : MuxStream) (r : Nat) : sendable shared st r ≤ r := by
  unfold sendable
  split
  · exact Nat.zero_le r
  · exact Nat.min_le_left ..

theorem closed_of_sendable_eq_zero {shared : Shared} {st : MuxStream} {r : Nat}
    (hf : 0 < shared.peer.maxFrameSize) (hm : r ≠ 0) (hn : sendable shared st r = 0) :
    st.sendWindow ≤ 0 ∨ shared.connSendWindow ≤ 0 := by
  unfold sendable MAX_OUT_FRAME at hn
  rw [if_neg hm] at hn
  dsimp only at hn
  omega

def Blocked (shared : Shared) (stream : MuxStream) : Prop :=
  stream.reset = true ∨ stream.outbox = [] ∨
    ∃ bytes off endStream rest, stream.outbox = .data bytes off endStream :: rest ∧
      sendable shared stream (bytes.length - off) = 0 ∧ bytes.length - off ≠ 0

theorem visit_cases (config : Config) (shared : Shared) (id : Nat) :
    let t := shared.modify id fun st => { st with queued := false }
    (visit config shared id = (t, []) ∧ ∀ st, t.streams.get? id = some st → Blocked t st) ∨
    ∃ st, t.streams.get? id = some st ∧ st.reset = false ∧
      ((∃ fs es rest, st.outbox = .headers fs es :: rest ∧ visit config shared id =
          (reap (requeue (sendHeaders t id fs es).1 id) id, [(sendHeaders t id fs es).2])) ∨
      ∃ bs off es rest c, st.outbox = .data bs off es :: rest ∧
        c = sendable t st (bs.length - off) ∧ (c = 0 → bs.length - off = 0) ∧
        visit config shared id = (reap (requeue (sendData config t id c bs off es).1 id) id,
            [(sendData config t id c bs off es).2])) := by
  unfold visit
  dsimp only
  split
  next gone => exact .inl ⟨rfl, fun st hf => by simp [gone] at hf⟩
  next st hf =>
  split
  next reset =>
    refine .inl ⟨rfl, fun o ht => ?_⟩
    cases hf.symm.trans ht
    exact .inl reset
  next running =>
  split
  next empty =>
    refine .inl ⟨rfl, fun o ht => ?_⟩
    cases hf.symm.trans ht
    exact .inr (.inl empty)
  next fs es rest outbox =>
    exact .inr ⟨st, hf, by simpa using running, .inl ⟨fs, es, rest, outbox, rfl⟩⟩
  next bs off es rest outbox =>
  split
  next stalled =>
    refine .inl ⟨rfl, fun o ht => ?_⟩
    cases hf.symm.trans ht
    exact .inr (.inr ⟨bs, off, es, rest, outbox, stalled⟩)
  next moves =>
  refine .inr ⟨st, hf, by simpa using running, .inr ⟨bs, off, es, rest, _, outbox, rfl, ?_, rfl⟩⟩
  intro hn
  exact Decidable.byContradiction fun hm => moves ⟨hn, hm⟩

theorem sendHeaders_ready (fs : HeaderList) (es : Bool) :
    (sendHeaders shared id fs es).1.ready = shared.ready := by
  unfold sendHeaders
  split
  · exact (modify_ready ..).trans (modify_ready ..)
  · exact modify_ready ..

theorem sendData_ready : (sendData config shared id c bs off es).1.ready = shared.ready := by
  unfold sendData
  dsimp only
  split
  · exact (modify_ready ..).trans (modify_ready ..)
  · exact modify_ready ..

/-- A batch is the control frames and then what the ready streams send.  The number of visits is a
variable here, so that a proof does not run them. -/
theorem buildBatch_eq : ∃ v, v = shared.ready.length + 2 * WRITE_BATCH_TARGET ∧
      buildBatch config shared =
        ((drainReady config v { shared with ctrl := [] } (controlBatch shared).len).1,
          controlBatch shared ++
            (drainReady config v { shared with ctrl := [] } (controlBatch shared).len).2) :=
  ⟨_, rfl, rfl⟩

theorem Shared.Evolves.leave {r : MuxStream → MuxStream → Prop}
    (hq : ∀ flag st, r st { st with queued := flag }) (hs : ∀ st, r st st) :
    Shared.Evolves r shared (reap (requeue shared id) id) := by
  intro o st hf
  rw [reap_get?, requeue_get?, requeue_get?] at hf
  by_cases here : o = id
  · subst here
    simp only [if_true, filter_eq_some_iff, map_eq_some_iff] at hf
    obtain ⟨⟨b, ht, rfl⟩, _⟩ := hf
    exact ⟨b, ht, hq _ b⟩
  · rw [if_neg here, if_neg here] at hf
    exact ⟨st, hf, hs st⟩

/-- What holds of the shared state and of the segments sent so far, whatever the writer does. -/
structure Writing (config : Config) (kept : Shared → Batch → Prop) : Prop where
  flush : ∀ {shared sent}, kept shared sent →
    kept { shared with ctrl := [] } (sent ++ controlBatch shared)
  pop : ∀ {shared sent} ready, kept shared sent → kept { shared with ready := ready } sent
  unqueue : ∀ {shared sent} id, kept shared sent →
    kept (shared.modify id fun stream => { stream with queued := false }) sent
  headers : ∀ {shared sent id stream fields endStream rest},
    shared.streams.get? id = some stream → stream.reset = false →
    stream.outbox = .headers fields endStream :: rest → kept shared sent →
    kept (sendHeaders shared id fields endStream).1
      (sent ++ [(sendHeaders shared id fields endStream).2])
  data : ∀ {shared sent id stream bytes off endStream rest chunk},
    shared.streams.get? id = some stream → stream.reset = false →
    stream.outbox = .data bytes off endStream :: rest →
    chunk = sendable shared stream (bytes.length - off) → kept shared sent →
    kept (sendData config shared id chunk bytes off endStream).1
      (sent ++ [(sendData config shared id chunk bytes off endStream).2])
  leave : ∀ {shared sent} id, kept shared sent → kept (reap (requeue shared id) id) sent

namespace Writing

variable {cfg : Config} {kept : Shared → Batch → Prop} {s : Shared}

theorem visit (hw : Writing cfg kept) (sn : Batch) (id : Nat) (hb : kept s sn) :
    kept (visit cfg s id).1 (sn ++ (visit cfg s id).2) := by
  have hc := visit_cases cfg s id
  have hp := hw.unqueue id hb
  rcases hc with ⟨hv, _⟩ | ⟨st, hf, hr, ⟨fs, es, rest, ho, hv⟩ |
      ⟨bs, off, es, rest, c, ho, hs, _, hv⟩⟩
  · rw [hv, List.append_nil]
    exact hp
  · rw [hv]
    exact hw.leave id (hw.headers hf hr ho hp)
  · rw [hv]
    exact hw.leave id (hw.data hf hr ho hs hp)

theorem drainReady (hw : Writing cfg kept) (sn : Batch) (fuel l : Nat) (hb : kept s sn) :
    kept (drainReady cfg fuel s l).1 (sn ++ (drainReady cfg fuel s l).2) := by
  induction fuel generalizing s sn l with
  | zero => simpa [Http2.drainReady] using hb
  | succ fuel ih =>
    unfold Http2.drainReady
    split
    · simpa using hb
    split
    · simpa using hb
    next id r _ =>
    have la := ih _ (l + (Http2.visit cfg { s with ready := r } id).2.len)
      (hw.visit sn id (hw.pop r hb))
    simpa only [List.append_assoc] using la

theorem buildBatch (hw : Writing cfg kept) (hb : kept s []) :
    kept (buildBatch cfg s).1 (buildBatch cfg s).2 := by
  obtain ⟨v, _, hwh⟩ := buildBatch_eq cfg s
  rw [hwh]
  exact hw.drainReady _ v _ (hw.flush hb)

end Writing

end BoatRamp.Http2
