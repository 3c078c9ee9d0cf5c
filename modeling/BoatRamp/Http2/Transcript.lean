import BoatRamp.Http2.Discipline
import BoatRamp.Http2.Synchronisation

/-!
# The transcript of a connection

A transcript is kept from the frames of the client and from what the connection
does with its streams: the first header block of every stream, its data, and
whether it was ended, aborted or handed over.  What the reader holds for its
requests agrees with the transcript after every frame.
-/

namespace BoatRamp.Http2

open Library ReaderOp Mux List Nat Option SortedMap

def unpadded (frame : Frame) : Octets :=
  (stripPadding frame.payload (frame.hasFlag PADDED)).toOption.getD []

def dependsOnItself (frame : Frame) : Bool :=
  match frame.kind with
  | .headers => selfDependent frame
  | .priority => decide ((parsePriority frame.payload).toOption = some frame.streamId)
  | _ => false

structure Transcript where
  /-- The fragments of the header block under way. -/
  pending : Octets
  /-- The first header block of a stream. -/
  headers : Nat → Option HeaderList
  data : Nat → Octets
  /-- The client has ended the stream. -/
  ended : Nat → Bool
  /-- The client has reset the stream, or it had an error. -/
  aborted : Nat → Bool
  /-- A handler was started. -/
  started : Nat → Bool
  /-- The stream was made to depend on itself before it was opened. -/
  early : Nat → Bool

namespace Transcript

def start : Transcript :=
  ⟨[], fun _ => none, fun _ => [], fun _ => false, fun _ => false, fun _ => false, fun _ => false⟩

def block (transcript : Transcript) (hpack : Hpack) (frame : Frame) (fragments : Octets) :
    Transcript :=
  if frame.hasFlag END_HEADERS then
    { transcript with
      headers := fun sid =>
        if sid = frame.streamId ∧ transcript.headers sid = none then
          (hpack.decode fragments).1.toOption
        else transcript.headers sid }
  else { transcript with pending := fragments }

def finish (transcript : Transcript) (frame : Frame) : Transcript :=
  { transcript with
    ended := fun sid =>
      transcript.ended sid || decide (frame.hasFlag END_STREAM = true ∧ sid = frame.streamId) }

def abort (transcript : Transcript) (id : Nat) : Transcript :=
  { transcript with aborted := fun sid => decide (sid = id) || transcript.aborted sid }

def mark (transcript : Transcript) (reader : ReaderState) (frame : Frame) : Transcript :=
  { transcript with
    early := fun sid => transcript.early sid ||
      decide (sid = frame.streamId ∧ dependsOnItself frame = true ∧ reader.lastClientId < sid) }

def take (transcript : Transcript) (reader : ReaderState) (frame : Frame) : Transcript :=
  match frame.kind with
  | .headers =>
      ((transcript.mark reader frame).finish frame).block reader.hpack frame (fragmentOf frame)
  | .continuation => transcript.block reader.hpack frame (transcript.pending ++ frame.payload)
  | .data =>
      { transcript.finish frame with
        data := fun sid =>
          if sid = frame.streamId then transcript.data sid ++ unpadded frame
          else transcript.data sid }
  | .rstStream => transcript.abort frame.streamId
  | .priority => transcript.mark reader frame
  | _ => transcript

def run (transcript : Transcript) : ReaderOp → Transcript
  | .failStream id _ | .resetLocal id _ => transcript.abort id
  | .spawn id _ _ =>
      { transcript with started := fun sid => decide (sid = id) || transcript.started sid }
  | _ => transcript

def observe (transcript : Transcript) (mux : Mux) (action : Action) : Transcript :=
  match mux.takes action with
  | some frame => transcript.take mux.reader frame
  | none =>
      match action, mux.program with
      | .reader, op :: _ => transcript.run op
      | _, _ => transcript

end Transcript

def transcribe (config : Config) : Transcript → Mux → List Action → Transcript
  | transcript, _, [] => transcript
  | transcript, mux, action :: rest =>
      transcribe config (transcript.observe mux action) (step config mux action).1 rest

namespace Transcript

variable (transcript : Transcript) (reader : ReaderState) (sid : Nat)

/-- Nothing has gone wrong with the stream since it was opened and no handler was started. -/
structure Clean : Prop where
  aborted : transcript.early sid = false → transcript.aborted sid = false
  started : transcript.started sid = false

/-- Nothing of the stream has arrived. -/
structure Fresh : Prop extends transcript.Clean sid where
  headers : transcript.early sid = false → transcript.headers sid = none
  data : transcript.data sid = []
  request : reader.requests.get? sid = none
  body : reader.bodyOf sid = []

/-- The request is what the first header block of the stream says. -/
def Requests (config : Config) (request : Request) : Prop :=
  transcript.early sid = false → ∃ headers, transcript.headers sid = some headers ∧
    requestFromHeaders config.acceptsUri sid headers = .ok request

structure Waits (config : Config) : Prop extends transcript.Clean sid where
  body : reader.bodyOf sid = transcript.data sid
  request : ∃ request, reader.requests.get? sid = some request ∧
    transcript.Requests sid config request ∧ reader.declared sid = request.contentLength

structure Complete (config : Config) (request : Request) (body : Octets) : Prop
    extends transcript.Clean sid where
  ended : transcript.ended sid = true
  body : body = transcript.data sid
  request : transcript.Requests sid config request

/-- The header block of the stream is decoded and its request not yet checked. -/
structure Opens (headers : HeaderList) (endStream : Bool) : Prop
    extends transcript.Clean sid where
  headers : transcript.early sid = false → transcript.headers sid = some headers
  data : transcript.data sid = []
  body : reader.bodyOf sid = []
  ended : endStream = true → transcript.ended sid = true

end Transcript

/-- The section decides about a stream whose request is not stored. -/
def ReaderOp.decides (sid : Nat) : ReaderOp → Bool
  | .capCheck id _ _ | .failStream id _ | .resetLocal id _ => id = sid
  | _ => false

def ReaderOp.resets : ReaderOp → Option Nat
  | .failStream id _ | .resetLocal id _ => some id
  | _ => none

structure Mux.Tracks (config : Config) (transcript : Transcript) (mux : Mux) (sid : Nat) :
    Prop where
  unopened : mux.reader.lastClientId < sid → transcript.Fresh mux.reader sid
  opened : ∀ stream, mux.shared.streams.get? sid = some stream → stream.state = .opened →
    transcript.Waits mux.reader sid config ∨
      (mux.reader.expectingContinuation = true ∧ mux.reader.headerSid = sid) ∨
      ∃ op ∈ mux.program, op.decides sid = true

/-- What the reader knows while a header block is under way. -/
structure Transcript.Underway (config : Config) (transcript : Transcript) (reader : ReaderState) :
    Prop where
  known : transcript.Fresh reader reader.headerSid ∨ transcript.Waits reader reader.headerSid config
  opened : reader.headerSid ≤ reader.lastClientId
  pending : transcript.pending = reader.headerBuf
  ended : reader.headerEndStream = true → transcript.ended reader.headerSid = true

/-- The sections ahead are routine, or the last of them opens a request or hands one over. -/
def Shaped (program : List ReaderOp) : Prop :=
  Routine program ∨
    ∃ pushes op, program = pushes ++ [op] ∧ ∀ push ∈ pushes, ∃ bytes, push = .pushCtrl bytes

structure Mux.Delivers (config : Config) (transcript : Transcript) (mux : Mux) : Prop where
  streams : mux.listening = true → ∀ sid, mux.Tracks config transcript sid
  underway : mux.listening = true → mux.reader.expectingContinuation = true →
    mux.program = [] ∧ transcript.Underway config mux.reader
  opening : ∀ sid headers endStream, ReaderOp.capCheck sid headers endStream ∈ mux.program →
    mux.listening = true ∧ transcript.Opens mux.reader sid headers endStream ∧
      sid ≤ mux.reader.lastClientId
  handing : ∀ sid request body, ReaderOp.spawn sid request body ∈ mux.program →
    transcript.Complete sid config request body
  failing : mux.listening = true → ∀ op ∈ mux.program, ∀ sid, op.resets = some sid →
    sid ≤ mux.reader.lastClientId ∨ transcript.early sid = true
  shaped : Shaped mux.program

/-- The transcript says the same about a stream, except for what an early error leaves open. -/
structure Transcript.SameAt (transcript next : Transcript) (sid : Nat) : Prop where
  early : next.early sid = false → transcript.early sid = false
  aborted : next.early sid = false → next.aborted sid = transcript.aborted sid
  started : next.started sid = transcript.started sid
  headers : next.early sid = false → next.headers sid = transcript.headers sid
  data : next.data sid = transcript.data sid

structure ReaderState.SameAt (reader next : ReaderState) (sid : Nat) : Prop where
  request : next.requests.get? sid = reader.requests.get? sid
  body : next.bodyOf sid = reader.bodyOf sid
  declared : next.declared sid = reader.declared sid

section Congruence

variable {cfg : Config} {tr next : Transcript} {rd a : ReaderState} {sid : Nat}

theorem Transcript.SameAt.refl (tr : Transcript) (sid : Nat) :
    tr.SameAt tr sid := ⟨id, fun _ => rfl, rfl, fun _ => rfl, rfl⟩

theorem Transcript.SameAt.trans {last : Transcript} (early : tr.SameAt next sid)
    (hl : next.SameAt last sid) : tr.SameAt last sid where
  early ht := early.early (hl.early ht)
  aborted ht := (hl.aborted ht).trans (early.aborted (hl.early ht))
  started := hl.started.trans early.started
  headers ht := (hl.headers ht).trans (early.headers (hl.early ht))
  data := hl.data.trans early.data

theorem ReaderState.SameAt.refl (rd : ReaderState) (sid : Nat) : rd.SameAt rd sid :=
  ⟨rfl, rfl, rfl⟩

theorem Transcript.Clean.congr (hc : tr.Clean sid) (hs : tr.SameAt next sid) : next.Clean sid :=
  ⟨fun ht => (hs.aborted ht).trans (hc.aborted (hs.early ht)), hs.started.trans hc.started⟩

theorem Transcript.Fresh.congr (hf : tr.Fresh rd sid)
    (hs : tr.SameAt next sid) (kept : rd.SameAt a sid) : next.Fresh a sid :=
  ⟨hf.toClean.congr hs, fun ht => (hs.headers ht).trans (hf.headers (hs.early ht)),
    hs.data.trans hf.data, kept.request.trans hf.request, kept.body.trans hf.body⟩

theorem Transcript.Requests.congr {req : Request} (hr : tr.Requests sid cfg req)
    (hs : tr.SameAt next sid) : next.Requests sid cfg req := by
  intro ht
  obtain ⟨hdrs, hf, hp⟩ := hr (hs.early ht)
  exact ⟨hdrs, (hs.headers ht).trans hf, hp⟩

theorem Transcript.Waits.congr (hw : tr.Waits rd sid cfg) (hsa : tr.SameAt next sid)
    (kept : rd.SameAt a sid) : next.Waits a sid cfg := by
  obtain ⟨req, hs, hr, hd⟩ := hw.request
  exact ⟨hw.toClean.congr hsa, (kept.body.trans hw.body).trans hsa.data.symm,
    req, kept.request.trans hs, hr.congr hsa, kept.declared.trans hd⟩

theorem Transcript.held_congr (hh : tr.Fresh rd sid ∨ tr.Waits rd sid cfg) (hs : tr.SameAt next sid)
    (kept : rd.SameAt a sid) : next.Fresh a sid ∨ next.Waits a sid cfg :=
  hh.imp (fun hf => hf.congr hs kept) fun hw => hw.congr hs kept

end Congruence

namespace Transcript

variable (tr : Transcript) (rd : ReaderState) {fr : Frame} {sid : Nat}

theorem block_sameAt (hp : Hpack) (f : Octets)
    (other : sid ≠ fr.streamId ∨ (tr.early sid = false → tr.headers sid ≠ none)) :
    tr.SameAt (tr.block hp fr f) sid := by
  unfold block
  split
  · refine ⟨id, fun _ => rfl, rfl, fun ht => ?_, rfl⟩
    dsimp only
    rw [if_neg fun hh => other.elim (fun hd => hd hh.1) fun hs => hs ht hh.2]
  · exact ⟨id, fun _ => rfl, rfl, fun _ => rfl, rfl⟩

theorem finish_sameAt (fr : Frame) (sid : Nat) :
    tr.SameAt (tr.finish fr) sid := ⟨id, fun _ => rfl, rfl, fun _ => rfl, rfl⟩

theorem mark_sameAt (fr : Frame) (sid : Nat) : tr.SameAt (tr.mark rd fr) sid := by
  refine ⟨fun ht => ?_, fun _ => rfl, rfl, fun _ => rfl, rfl⟩
  simp only [mark, Bool.or_eq_false_iff] at ht
  exact ht.1

theorem begin_sameAt (fr : Frame) (sid : Nat) : tr.SameAt ((tr.mark rd fr).finish fr) sid :=
  (tr.mark_sameAt rd fr sid).trans (finish_sameAt _ fr sid)

theorem abort_sameAt {id : Nat} (other : sid ≠ id) : tr.SameAt (tr.abort id) sid :=
  ⟨fun ht => ht, fun _ => by simp [abort, other], rfl, fun _ => rfl, rfl⟩

theorem take_sameAt (other : sid ≠ fr.streamId) : tr.SameAt (tr.take rd fr) sid := by
  unfold take
  split
  · exact (tr.begin_sameAt rd fr sid).trans (block_sameAt _ _ _ (.inl other))
  · exact block_sameAt tr _ _ (.inl other)
  · exact ⟨id, fun _ => rfl, rfl, fun _ => rfl, if_neg other⟩
  · exact tr.abort_sameAt other
  · exact tr.mark_sameAt rd fr sid
  · exact .refl tr sid

/-- A stream that depends on itself before it is opened is noted, and nothing else of it counts. -/
theorem take_early (hd : dependsOnItself fr = true) (hl : rd.lastClientId < fr.streamId) :
    tr.SameAt (tr.take rd fr) fr.streamId ∧ (tr.take rd fr).early fr.streamId = true := by
  have hm : (tr.mark rd fr).early fr.streamId = true := by
    simp [mark, hd, hl]
  unfold take
  split
  next =>
    unfold block
    split
    · exact ⟨⟨fun ht => absurd ht (by simp [finish, hm]),
        fun _ => rfl, rfl, fun ht => absurd ht (by simp [finish, hm]), rfl⟩, hm⟩
    · exact ⟨⟨fun ht => absurd ht (by simp [finish, hm]), fun _ => rfl, rfl, fun _ => rfl, rfl⟩, hm⟩
  next kind => simp [dependsOnItself, kind] at hd
  next kind => simp [dependsOnItself, kind] at hd
  next kind => simp [dependsOnItself, kind] at hd
  next => exact ⟨tr.mark_sameAt rd fr _, hm⟩
  next headers _ _ _ priority =>
  unfold dependsOnItself at hd
  split at hd
  next kind => exact absurd kind headers
  next kind => exact absurd kind priority
  next => cases hd

end Transcript

theorem Hpack.decodeFields_error (fuel : Nat) (hpack : Hpack) (seenField : Bool) (block : Octets)
    {error : H2Error} (hf : (Hpack.decodeFields fuel hpack seenField block).1 = .error error) :
    error = .connection .compressionError := by
  induction fuel generalizing hpack seenField block with
  | zero =>
    cases block with
    | nil => cases hf
    | cons octet rest => exact (Except.error.inj hf).symm
  | succ fuel ih =>
    cases block with
    | nil => cases hf
    | cons octet rest =>
      rw [Hpack.decodeFields.eq_def] at hf
      dsimp only at hf
      split at hf
      · exact (Except.error.inj hf).symm
      next field next rest _ =>
      cases later : (Hpack.decodeFields fuel next (seenField || field.isSome) rest).1 with
      | error reason =>
        rw [later] at hf
        cases hf
        exact ih next _ rest later
      | ok fields =>
        rw [later] at hf
        cases hf

theorem Hpack.decode_error {hp : Hpack} {b : Octets} {err : H2Error}
    (hf : (hp.decode b).1 = .error err) : err = .connection .compressionError :=
  Hpack.decodeFields_error _ hp false b hf

section Tracks

variable {cfg : Config} {tr next : Transcript} {mux after : Mux} {sid : Nat}

theorem Mux.Tracks.other (ht : mux.Tracks cfg tr sid) (idle : mux.program = [])
    (hfr : mux.reader.expectingContinuation = true → mux.reader.headerSid ≠ sid)
    (last : mux.reader.lastClientId ≤ after.reader.lastClientId)
    (same : tr.SameAt next sid) (kept : mux.reader.SameAt after.reader sid)
    (opened : ∀ st, after.shared.streams.get? sid = some st → st.state = .opened →
      ∃ b, mux.shared.streams.get? sid = some b ∧ b.state = .opened) :
    after.Tracks cfg next sid where
  unopened later := (ht.unopened (lt_of_le_of_lt last later)).congr same kept
  opened st hf state := by
    obtain ⟨b, hth, was⟩ := opened st hf state
    rcases ht.opened b hth was with hw | ⟨hex, here⟩ | ⟨op, inside, _⟩
    · exact .inl (hw.congr same kept)
    · exact absurd here (hfr hex)
    · simp [idle] at inside

theorem Mux.Tracks.decided (hk : sid ≤ mux.reader.lastClientId) {op : ReaderOp}
    (ha : op ∈ mux.program) (hd : op.decides sid = true) : mux.Tracks cfg tr sid where
  unopened hl := absurd hk (Nat.not_le_of_lt hl)
  opened _ _ _ := .inr (.inr ⟨op, ha, hd⟩)

theorem Mux.Tracks.ended (hk : sid ≤ mux.reader.lastClientId)
    (hc : ∀ st, mux.shared.streams.get? sid = some st → st.state ≠ .opened) :
    mux.Tracks cfg tr sid where
  unopened hl := absurd hk (Nat.not_le_of_lt hl)
  opened st hf hs := absurd hs (hc st hf)

end Tracks

theorem Shared.Evolves.opened {shared next : Shared} (he : Shared.Evolves Tamed shared next)
    {sid : Nat} (st : MuxStream) (hf : next.streams.get? sid = some st) (hs : st.state = .opened) :
    ∃ b, shared.streams.get? sid = some b ∧ b.state = .opened := by
  obtain ⟨b, ht, ⟨_, hc⟩ | ⟨_, hsa, _⟩⟩ := he sid st hf
  · simp [hc] at hs
  · exact ⟨b, ht, hsa ▸ hs⟩

namespace Mux.Delivers

variable {cfg : Config} {tr next : Transcript} {mux : Mux} {frame : Frame}

theorem deaf (hs : mux.listening = false) (hr : Routine mux.program) : mux.Delivers cfg tr where
  streams listening := absurd listening (by simp [hs])
  underway listening := absurd listening (by simp [hs])
  opening _ _ _ hi := absurd (hr _ hi) (by simp [routine])
  handing _ _ _ hi := absurd (hr _ hi) (by simp [routine])
  failing listening := absurd listening (by simp [hs])
  shaped := .inl hr

theorem resting (program : mux.program = [])
    (streams : mux.listening = true → ∀ sid, mux.Tracks cfg tr sid)
    (underway : mux.listening = true → mux.reader.expectingContinuation = true →
      tr.Underway cfg mux.reader) : mux.Delivers cfg tr where
  streams := streams
  underway listening hex := ⟨program, underway listening hex⟩
  opening _ _ _ inside := by simp [program] at inside
  handing _ _ _ inside := by simp [program] at inside
  failing _ _ inside := by simp [program] at inside
  shaped := .inl fun _ inside => by simp [program] at inside

theorem fatal (tr : Transcript) (shared : Shared) (reader : ReaderState) (c : ErrorCode) :
    (mux.settle shared (reader, .fail (.connection c))).Delivers cfg tr :=
  deaf rfl (routine_fail reader _)

variable (hds : mux.Delivers cfg tr) (l : mux.listening = true)
  (idle : mux.program = []) (hse : mux.reader.expectingContinuation = false)

include hds l idle hse

theorem refuse {sid : Nat} {c : ErrorCode}
    (hh : sid ≤ mux.reader.lastClientId ∨ tr.SameAt next sid ∧ next.early sid = true)
    (hs : ∀ other, other ≠ sid → tr.SameAt next other) {shared : Shared}
    (he : Shared.Evolves Tamed mux.shared shared) :
    (mux.settle shared (mux.reader, .fail (.stream sid c))).Delivers cfg next where
  streams _ other := by
    by_cases hhe : other = sid
    · subst hhe
      refine ⟨fun hl => ?_, fun _ _ _ => .inr (.inr ⟨_, mem_singleton.mpr rfl, ?_⟩)⟩
      · rcases hh with hk | ⟨kept, _⟩
        · exact absurd hk (Nat.not_le_of_lt hl)
        · exact ((hds.streams l other).unopened hl).congr kept (.refl _ _)
      · simp [decides]
    · exact (hds.streams l other).other idle (by simp [hse]) (Nat.le_refl _)
        (hs other hhe) (.refl _ _) he.opened
  underway _ hex := absurd hex (by simp [settle, hse])
  opening _ _ _ hi := absurd (mem_singleton.mp hi) nofun
  handing _ _ _ hi := absurd (mem_singleton.mp hi) nofun
  failing _ op hi other hr := by
    rw [mem_singleton.mp hi] at hr
    cases hr
    exact hh.imp_right And.right
  shaped := .inl (routine_fail _ _)

theorem pass {shared : Shared} {o : Outcome} (he : Shared.Evolves Tamed mux.shared shared)
    (hr : Routine (mux.reader.after o).1) (same : ∀ sid, tr.SameAt next sid)
    (failing : ∀ op ∈ (mux.reader.after o).1, ∀ sid, op.resets = some sid →
      sid ≤ mux.reader.lastClientId ∨ next.early sid = true) :
    (mux.settle shared (mux.reader, o)).Delivers cfg next where
  streams _ sid := (hds.streams l sid).other idle (by simp [hse]) (le_refl _)
    (same sid) (.refl _ _) he.opened
  underway _ hex := absurd hex (by simp [settle, hse])
  opening _ _ _ inside := absurd (hr _ inside) (by simp [routine])
  handing _ _ _ inside := absurd (hr _ inside) (by simp [routine])
  failing _ := failing
  shaped := .inl hr

end Mux.Delivers

theorem resets_of_fatal {reader : ReaderState} {c : ErrorCode} {op : ReaderOp} {sid : Nat}
    (hi : op ∈ (reader.after (.fail (.connection c))).1) (hr : op.resets = some sid) : False := by
  simp only [ReaderState.after, mem_cons, not_mem_nil, or_false] at hi
  rcases hi with rfl | rfl | rfl <;> cases hr

theorem Settles.resets {reader : ReaderState} {shared : Shared} {frame : Frame}
    {res : Shared × Outcome} {op : ReaderOp} {sid : Nat} (hs : Settles reader shared frame res)
    (hi : op ∈ (reader.after res.2).1) (hr : op.resets = some sid) :
    sid = frame.streamId ∧ (Addressed reader shared frame ∨ dependsOnItself frame = true) := by
  cases hs with
  | fatal | refused | overflowed | raisedOver | abortedOver =>
    exact (resets_of_fatal hi hr).elim
  | quiet | adopted | adjusted | raised | granted | aborted => cases hi
  | reply | stop =>
    rw [mem_singleton.mp hi] at hr
    cases hr
  | dependent hk hd =>
    rw [mem_singleton.mp hi] at hr
    cases hr
    exact ⟨rfl, .inr (by simp [dependsOnItself, hk, hd])⟩
  | grantedOver _ _ _ _ ha | ungranted _ _ _ _ ha =>
    rw [mem_singleton.mp hi] at hr
    cases hr
    exact ⟨rfl, .inl ha⟩

theorem Mux.Orderly.known_of_addressed {mux : Mux} (hor : mux.Orderly) {frame : Frame}
    (ha : Addressed mux.reader mux.shared frame) : frame.streamId ≤ mux.reader.lastClientId := by
  rcases ha with ht | hb
  · obtain ⟨st, hf⟩ := isSome_iff_exists.mp ht
    exact Disciplined.known hor _ st hf
  · exact hb

namespace Mux.Delivers

variable {config : Config} {tr : Transcript} {mux : Mux} {f : Frame}
  (hds : mux.Delivers config tr) (l : mux.listening = true)
  (idle : mux.program = []) (hse : mux.reader.expectingContinuation = false)
  (hor : mux.Orderly)

include hds l idle hse hor

theorem aborted (ha : Addressed mux.reader mux.shared f) (r : Nat) :
    (mux.settle { mux.shared.abort f.streamId with resets := r }
      (mux.reader, .proceed [])).Delivers config (tr.abort f.streamId) := by
  refine resting rfl (fun _ sid => ?_) ?_
  · by_cases hh : sid = f.streamId
    · subst hh
      refine .ended (hor.known_of_addressed ha) fun st hf => ?_
      simp only [settle, Shared.abort, Shared.get?_modify, if_true, map_eq_some_iff] at hf
      obtain ⟨b, _, rfl⟩ := hf
      simp
    refine (hds.streams l sid).other idle (by simp [hse]) (le_refl _)
      (tr.abort_sameAt hh) (.refl _ _) ?_
    exact (lenient_tamed.abort mux.shared f.streamId).opened
  · intro _ hex
    exact absurd hex (by simp [settle, hse])

theorem settles (headers : f.kind ≠ .headers) (continuation : f.kind ≠ .continuation)
    (data : f.kind ≠ .data) {res : Shared × Outcome} (hs : Settles mux.reader mux.shared f res) :
    (mux.settle res.1 (mux.reader, res.2)).Delivers config (tr.take mux.reader f) := by
  by_cases reset : f.kind = .rstStream
  · have ht : tr.take mux.reader f = tr.abort f.streamId := by
      simp only [Transcript.take, reset]
    rw [ht]
    cases hs with
    | fatal c | refused c | overflowed c | raisedOver c | abortedOver c =>
      exact fatal _ _ mux.reader c
    | aborted _ ha =>
      exact hds.aborted l idle hse hor ha _
    | quiet plain | reply _ plain | stop plain => exact absurd reset plain.2.1
    | dependent kind | adopted kind | adjusted kind | raised kind | granted kind
      | grantedOver _ kind | ungranted _ kind => simp [kind] at reset
  have ht (sid : Nat) : tr.SameAt (tr.take mux.reader f) sid := by
    unfold Transcript.take
    split
    next kind => exact absurd kind headers
    next kind => exact absurd kind continuation
    next kind => exact absurd kind data
    next kind => exact absurd kind reset
    next => exact tr.mark_sameAt mux.reader f sid
    next => exact .refl tr sid
  refine hds.pass l idle hse (lenient_tamed.settles hs) hs.routine ht
    (fun op inside sid resets => ?_)
  obtain ⟨rfl, ha | dependent⟩ := hs.resets inside resets
  · exact .inl (hor.known_of_addressed ha)
  · refine (lt_or_ge mux.reader.lastClientId f.streamId).symm.imp id (fun later => ?_)
    exact (tr.take_early mux.reader dependent later).2

end Mux.Delivers

theorem ReaderState.SameAt.erase {reader next : ReaderState} {sid other : Nat} (hd : other ≠ sid)
    (hr : next.requests = reader.requests ∨ next.requests = reader.requests.erase sid)
    (hb : next.bodies = reader.bodies ∨ next.bodies = reader.bodies.erase sid)
    (hde : next.contentLen = reader.contentLen) : reader.SameAt next other where
  request := by
    rcases hr with hs | he
    · rw [hs]
    · rw [he, get?_erase_of_ne _ hd]
  body := by
    unfold ReaderState.bodyOf
    rcases hb with hs | he
    · rw [hs]
    · rw [he, get?_erase_of_ne _ hd]
  declared := by
    unfold ReaderState.declared
    rw [hde]

namespace Mux.Delivers

variable {config : Config} {next : Transcript} {mux : Mux} {reader : ReaderState} {s : Shared}
  {sid : Nat} {endStream : Bool}

/-- What is known of a stream whose header block is complete. -/
inductive Completes (config : Config) (next : Transcript) (reader : ReaderState) (sid : Nat) : Prop
  | first (clean : next.Clean sid) (data : next.data sid = [])
      (request : reader.requests.get? sid = none) (body : reader.bodyOf sid = [])
      (headers : next.early sid = false →
        next.headers sid = (reader.hpack.decode reader.headerBuf).1.toOption)
  | trailers (waits : next.Waits reader sid config)

def Justifies (config : Config) (next : Transcript) (reader : ReaderState) (sid : Nat) :
    ReaderOp → Prop
  | .capCheck id headers endStream => id = sid ∧ next.Opens reader sid headers endStream
  | .spawn id request body => id = sid ∧ next.Complete sid config request body
  | .failStream id _ | .resetLocal id _ => id = sid
  | _ => True

section Ahead

variable {a : ReaderState} {out : Outcome} {p : List ReaderOp} {op : ReaderOp}
  (hse : reader.expectingContinuation = false) (k : sid ≤ reader.lastClientId)
  (hot : ∀ other, other ≠ sid →
    (mux.settle s (reader, .proceed [])).Tracks config next other)
  (kept : ∀ other, other ≠ sid → reader.SameAt a other)
  (last : a.lastClientId = reader.lastClientId)
  (hex : a.expectingContinuation = false)
  (pl : ∀ push ∈ p, ∃ bytes, push = ReaderOp.pushCtrl bytes)
  (ah : a.after out = (p ++ [op], true))

include hse hot kept last in
theorem tracks_others {other : Nat} (hd : other ≠ sid) :
    (mux.settle s (a, out)).Tracks config next other :=
  (hot other hd).other rfl (by simp [settle, hse]) (le_of_eq last.symm)
    (.refl _ _) (kept other hd) fun st hf hs => ⟨st, hf, hs⟩

include pl in
theorem mem_ahead {x : ReaderOp} (hi : x ∈ p ++ [op]) :
    (∃ bytes, x = .pushCtrl bytes) ∨ x = op := by
  rcases mem_append.mp hi with push | hs
  · exact .inl (pl x push)
  · exact .inr (mem_singleton.mp hs)

include hse k hot kept last hex pl ah in
/-- The last section ahead concerns the stream of the frame, as the transcript allows it. -/
theorem settle_ahead (hh : (mux.settle s (a, out)).Tracks config next sid)
    (hj : Justifies config next a sid op) : (mux.settle s (a, out)).Delivers config next := by
  have program : (mux.settle s (a, out)).program = p ++ [op] :=
    congrArg Prod.fst ah
  have listening : (mux.settle s (a, out)).listening = true :=
    congrArg Prod.snd ah
  have hw : sid ≤ a.lastClientId := le_trans k (le_of_eq last.symm)
  refine ⟨fun _ other => ?_, fun _ hwa => ?_, ?_, ?_, ?_, ?_⟩
  · by_cases hs : other = sid
    · exact hs ▸ hh
    · exact tracks_others hse hot kept last hs
  · exact absurd hwa (by simp [settle, hex])
  · intro id hdrs endStream hi
    rw [program] at hi
    rcases mem_ahead pl hi with ⟨_, hs⟩ | rfl
    · cases hs
    · obtain ⟨rfl, ho⟩ := hj
      exact ⟨listening, ho, hw⟩
  · intro id req b hi
    rw [program] at hi
    rcases mem_ahead pl hi with ⟨_, hs⟩ | rfl
    · cases hs
    · obtain ⟨rfl, hc⟩ := hj
      exact hc
  · intro _ x hi id hr
    rw [program] at hi
    rcases mem_ahead pl hi with ⟨_, rfl⟩ | rfl
    · cases hr
    cases x with
    | failStream | resetLocal =>
      cases hr
      exact .inl (hj ▸ hw)
    | pushCtrl | capCheck | spawn | setDone | teardown => cases hr
  · rw [program]
    exact .inr ⟨p, op, rfl, pl⟩

include hse k hot kept last hex pl in
theorem fail {c : ErrorCode} (ah : a.after out = (p ++ [.failStream sid c], true)) :
    (mux.settle s (a, out)).Delivers config next := by
  refine settle_ahead hse k hot kept last hex pl ah ?_ rfl
  have hi : failStream sid c ∈ (a.after out).1 := by simp [ah]
  refine .decided ?_ hi (by simp [decides])
  exact le_trans k (le_of_eq last.symm)

include hse k hot kept last hex pl in
theorem hand {req : Request} {b : Octets} (ah : a.after out = (p ++ [.spawn sid req b], true))
    (hc : ∀ stream, s.streams.get? sid = some stream → stream.state ≠ .opened)
    (hco : next.Complete sid config req b) : (mux.settle s (a, out)).Delivers config next := by
  refine settle_ahead hse k hot kept last hex pl ah ?_ ⟨rfl, hco⟩
  exact .ended (le_trans k (le_of_eq last.symm)) hc

end Ahead

theorem finish (hse : reader.expectingContinuation = false) (hk : sid ≤ reader.lastClientId)
    (hot : ∀ other, other ≠ sid → (mux.settle s (reader, .proceed [])).Tracks config next other)
    (closed : endStream = true → ∀ stream, s.streams.get? sid = some stream →
      stream.state ≠ .opened) (he : endStream = true → next.ended sid = true)
    (hc : Completes config next reader sid) :
    (mux.settle s (reader.finishHeaders sid endStream)).Delivers config next := by
  have hp : ∀ push ∈ ([] : List ReaderOp), ∃ bytes, push = .pushCtrl bytes := by simp
  rcases finishHeaders_cases reader sid endStream with
    ⟨err, hr, hrn⟩ | ⟨hdrs, hde, ⟨_, ho⟩ | ⟨req, hs, rfl, hdd⟩⟩
  · rw [hr]
    rcases hrn with hf | rfl
    · rw [Hpack.decode_error hf]
      exact fatal _ _ _ _
    · exact fail hse hk hot (fun _ _ => ⟨rfl, rfl, rfl⟩) rfl hse hp rfl
  · rw [ho]
    cases hc with
    | trailers hw =>
      obtain ⟨req, hs, _⟩ := hw.request
      simp [hs] at *
    | first hcl data _ body first =>
      rw [hde] at first
      refine settle_ahead hse hk hot (fun _ _ => ⟨rfl, rfl, rfl⟩) rfl hse hp
        rfl ?_ ⟨rfl, hcl, first, data, body, he⟩
      exact .decided hk (mem_singleton.mpr rfl) (by simp [decides])
  rw [hdd]
  cases hc with
  | first _ _ none => simp [none] at hs
  | trailers hw =>
    obtain ⟨other, hh, hre, hhd⟩ := hw.request
    cases hs.symm.trans hh
    have kept (id : Nat) (hd : id ≠ sid) : reader.SameAt { reader with
        hpack := (reader.hpack.decode reader.headerBuf).2
        requests := reader.requests.erase sid, bodies := reader.bodies.erase sid } id :=
      .erase hd (.inr rfl) (.inr rfl) rfl
    unfold deliver
    split
    · exact fail hse hk hot kept rfl hse hp rfl
    · exact hand hse hk hot kept rfl hse hp rfl (closed rfl) ⟨hw.toClean, he rfl, hw.body, hre⟩

end Mux.Delivers

namespace Transcript

variable {tr : Transcript} {rd : ReaderState} {h : Hpack} {fr : Frame}

theorem take_headers (hk : fr.kind = .headers) : tr.take rd fr =
    ((tr.mark rd fr).finish fr).block rd.hpack fr (fragmentOf fr) := by
  simp only [take, hk]

theorem take_continuation (hk : fr.kind = .continuation) : tr.take rd fr =
    tr.block rd.hpack fr (tr.pending ++ fr.payload) := by
  simp only [take, hk]

theorem block_ended (f : Octets) (sid : Nat) : (tr.block h fr f).ended sid = tr.ended sid := by
  unfold block
  split <;> rfl

theorem block_incomplete (h : Hpack) (hp : fr.hasFlag END_HEADERS = false)
    (f : Octets) (sid : Nat) : tr.SameAt (tr.block h fr f) sid ∧ (tr.block h fr f).pending = f := by
  unfold block
  rw [if_neg (by simp [hp])]
  exact ⟨⟨id, fun _ => rfl, rfl, fun _ => rfl, rfl⟩, rfl⟩

theorem block_complete (h : Hpack) (hc : fr.hasFlag END_HEADERS = true)
    (f : Octets) (hf : tr.early fr.streamId = false → tr.headers fr.streamId = none) :
    let next := tr.block h fr f
    next.early = tr.early ∧ (tr.early fr.streamId = false →
        next.headers fr.streamId = (h.decode f).1.toOption) ∧
      next.aborted = tr.aborted ∧ next.started = tr.started ∧
      next.data = tr.data := by
  unfold block
  rw [if_pos hc]
  refine ⟨rfl, fun ht => ?_, rfl, rfl, rfl⟩
  simp [hf ht]

end Transcript

namespace Mux.Delivers

variable {cfg : Config} {tr : Transcript} {mux : Mux} {fr : Frame}
  {rd : ReaderState} {sh : Shared}

theorem completes_block {hp : Hpack} {f : Octets}
    (hc : fr.hasFlag END_HEADERS = true) (hd : rd.hpack = hp) (hb : rd.headerBuf = f)
    (hh : tr.Fresh rd fr.streamId ∨ tr.Waits rd fr.streamId cfg) :
    Completes cfg (tr.block hp fr f) rd fr.streamId := by
  rcases hh with hf | hw
  · obtain ⟨he, hdrs, ha, hs, hda⟩ :=
      tr.block_complete hp hc f hf.headers
    refine .first ⟨?_, ?_⟩ ?_ hf.request hf.body ?_
    · rw [he, ha]
      exact hf.aborted
    · rw [hs]
      exact hf.started
    · rw [hda]
      exact hf.data
    · rw [he, hd, hb]
      exact hdrs
  obtain ⟨req, hst, hr, hde⟩ := hw.request
  have hsa : tr.SameAt (tr.block hp fr f) fr.streamId := by
    refine tr.block_sameAt hp f (.inr fun ht => ?_)
    obtain ⟨hdrs, hfi, _⟩ := hr ht
    simp [hfi]
  exact .trailers (hw.congr hsa (.refl _ _))

open Transcript (held_congr take_headers take_continuation block_ended)

theorem headers_taken {after : ReaderState} {b : Octets} (hk : fr.kind = .headers)
    (hhp : after.hpack = mux.reader.hpack) (hse : after.expectingContinuation = false)
    (hkn : fr.streamId ≤ after.lastClientId) (hf : b = fragmentOf fr)
    (hot : ∀ other, other ≠ fr.streamId → ∀ header : ReaderState,
      header.lastClientId = after.lastClientId → after.SameAt header other → ∀ ho,
      (mux.settle sh (header, ho)).Tracks cfg (tr.take mux.reader fr) other)
    (hcl : fr.hasFlag END_STREAM = true → ∀ stream,
      sh.streams.get? fr.streamId = some stream → stream.state ≠ .opened)
    (hhe : tr.Fresh after fr.streamId ∨ tr.Waits after fr.streamId cfg)
    (ho : (∃ c, onHeaders mux.reader mux.shared fr =
        (sh, { after with headerBuf := [], continuationCount := 0 }, .fail (.connection c))) ∨
      (fr.hasFlag END_HEADERS = true ∧ onHeaders mux.reader mux.shared fr =
        (sh, (after.begin fr.streamId (fr.hasFlag END_STREAM) b).finishHeaders
          fr.streamId (fr.hasFlag END_STREAM))) ∨
      (fr.hasFlag END_HEADERS = false ∧ onHeaders mux.reader mux.shared fr =
        (sh, { after.begin fr.streamId (fr.hasFlag END_STREAM) b with
          expectingContinuation := true }, .proceed []))) :
    (mux.settle (onHeaders mux.reader mux.shared fr).1
      (onHeaders mux.reader mux.shared fr).2).Delivers cfg (tr.take mux.reader fr) := by
  have he (hfl : fr.hasFlag END_STREAM = true) :
      (tr.take mux.reader fr).ended fr.streamId = true := by
    rw [take_headers hk, block_ended]
    simp [Transcript.finish, hfl]
  have hfi : ((tr.mark mux.reader fr).finish fr).Fresh after fr.streamId ∨
        ((tr.mark mux.reader fr).finish fr).Waits after fr.streamId cfg :=
    held_congr hhe (tr.begin_sameAt _ _ _) (.refl _ _)
  rcases ho with ⟨c, hla⟩ | ⟨hc, hde⟩ | ⟨hp, hb⟩
  · rw [hla]
    exact fatal _ _ _ c
  · rw [hde]
    refine finish hse hkn (fun other hd => ?_) hcl he ?_
    · refine hot other hd _ ?_ ?_ _
      · rfl
      · exact ⟨rfl, rfl, rfl⟩
    have hb : ((tr.mark mux.reader fr).finish fr).Fresh
          (after.begin fr.streamId (fr.hasFlag END_STREAM) b) fr.streamId ∨
        ((tr.mark mux.reader fr).finish fr).Waits
          (after.begin fr.streamId (fr.hasFlag END_STREAM) b) fr.streamId cfg :=
      held_congr hfi (.refl _ _) ⟨rfl, rfl, rfl⟩
    rw [take_headers hk]
    exact completes_block hc hhp hf hb
  rw [hb]
  have ht := ((tr.mark mux.reader fr).finish fr).block_incomplete mux.reader.hpack hp
    (fragmentOf fr) fr.streamId
  rw [← take_headers hk] at ht
  refine resting rfl (fun _ other => ?_) fun _ _ => ?_
  · by_cases hh : other = fr.streamId
    · subst hh
      exact ⟨fun hl => absurd hkn (Nat.not_le_of_lt hl), fun _ _ _ => .inr (.inl ⟨rfl, rfl⟩)⟩
    refine hot other hh _ ?_ ?_ _
    · rfl
    · exact ⟨rfl, rfl, rfl⟩
  · refine ⟨?_, hkn, ht.2.trans hf.symm, he⟩
    exact held_congr hfi ht.1 ⟨rfl, rfl, rfl⟩

section Idle

variable (hds : mux.Delivers cfg tr) (l : mux.listening = true)
  (idle : mux.program = []) (hse : mux.reader.expectingContinuation = false)
  (hor : mux.Orderly)

include hds l idle hse in
/-- An open stream waits for its body when no block is under way and no section is ahead. -/
theorem waits {sid : Nat} {st : MuxStream} (hf : mux.shared.streams.get? sid = some st)
    (hs : st.state = .opened) : tr.Waits mux.reader sid cfg := by
  rcases (hds.streams l sid).opened st hf hs with
    hw | ⟨hex, _⟩ | ⟨op, hi, _⟩
  · exact hw
  · simp [hse] at hex
  · simp [idle] at hi

include hds l idle hse hor in
theorem onHeaders (hk : fr.kind = .headers) : (mux.settle (onHeaders mux.reader mux.shared fr).1
      (onHeaders mux.reader mux.shared fr).2).Delivers cfg (tr.take mux.reader fr) := by
  have hs (other : Nat) (hd : other ≠ fr.streamId) : tr.SameAt (tr.take mux.reader fr) other :=
    tr.take_sameAt mux.reader hd
  rcases onHeaders_eq mux.reader mux.shared fr with
    ⟨err, hr, hre⟩ | ⟨b, sh, after, hp, ha, hou⟩
  · rw [hr]
    rcases hre with ⟨c, rfl⟩ | hfa | ⟨rfl, he⟩
    · exact fatal _ _ _ c
    · rcases headerFragment_error hfa with ⟨c, rfl⟩ | ⟨rfl, hde⟩
      · exact fatal _ _ _ c
      refine hds.refuse l idle hse ?_ hs (.refl Tamed.refl)
      refine (lt_or_ge mux.reader.lastClientId fr.streamId).symm.imp id fun hl => ?_
      exact tr.take_early mux.reader (by simp [dependsOnItself, hk, hde]) hl
    obtain ⟨st, hf, _⟩ := map_eq_some_iff.mp he
    exact hds.refuse l idle hse (.inl (Disciplined.known hor _ st hf)) hs (.refl Tamed.refl)
  have hfr := headerFragment_ok hp
  rcases openStream_cases mux.reader mux.shared fr.streamId (fr.hasFlag END_STREAM) with
    ⟨_, hr, _⟩ | ⟨st, s, hf, _, hrd, hg⟩ | ⟨hfh, hl, ho⟩
  · rw [hr] at ha
    cases ha
  · rw [hg] at ha
    cases ha
    obtain ⟨_, was, _, rfl⟩ :=
      (Disciplined.streams hor _ st hf).received (.inr rfl) hrd
    refine headers_taken hk rfl hse (Disciplined.known hor _ st hf) hfr
      ?_ ?_ (.inr (hds.waits l idle hse hf was)) hou
    · intro other hd hdr last kept _
      refine (hds.streams l other).other idle (by simp [hse])
        (le_of_eq last.symm) (hs other hd) kept fun st ht s => ?_
      simp only [settle, Shared.get?_modify, if_neg hd] at ht
      exact ⟨st, ht, s⟩
    intro hfl other ht
    simp only [Shared.get?_modify, if_true, hf, map_some, some.injEq] at ht
    subst ht
    simp [hfl]
  rw [ho] at ha
  cases ha
  have new := (hds.streams l fr.streamId).unopened hl
  have hh : ({ mux.reader with lastClientId := fr.streamId } : ReaderState).hpack =
      mux.reader.hpack := rfl
  refine headers_taken hk hh hse (le_refl _) hfr ?_ ?_
    (.inl (new.congr (.refl _ _) ⟨rfl, rfl, rfl⟩)) hou
  · intro other hd hdr last kept _
    refine (hds.streams l other).other idle (by simp [hse])
      (le_trans (le_of_lt hl) (le_of_eq last.symm)) (hs other hd)
      ⟨kept.request, kept.body, kept.declared⟩ fun st ht s => ?_
    simp only [settle, Shared.open, get?_insert, if_neg hd] at ht
    exact ⟨st, ht, s⟩
  intro hfl other ht
  simp only [Shared.open, get?_insert_self, some.injEq] at ht
  subst ht
  simp [MuxStream.opened, hfl]

include hds l idle hor in
theorem onContinuation (hk : fr.kind = .continuation) :
    (mux.settle (onContinuation mux.reader mux.shared fr).1
      (onContinuation mux.reader mux.shared fr).2).Delivers cfg (tr.take mux.reader fr) := by
  have hsa (other : Nat) (hd : other ≠ fr.streamId) : tr.SameAt (tr.take mux.reader fr) other :=
    tr.take_sameAt mux.reader hd
  rcases onContinuation_eq mux.reader mux.shared fr with
    ⟨c, cd, hr⟩ | ⟨hex, hh, c, ⟨hco, hfi⟩ | ⟨hp, hb⟩⟩
  · rw [hr]
    exact fatal _ _ _ cd
  all_goals
    have hu := (hds.underway l hex).2
    have hhe := hu.known
    rw [← hh] at hhe
    have hot (other : Nat) (hd : other ≠ fr.streamId) (hdr : ReaderState)
        (last : hdr.lastClientId = mux.reader.lastClientId)
        (kept : mux.reader.SameAt hdr other) (o : Outcome) :
        (mux.settle mux.shared (hdr, o)).Tracks cfg (tr.take mux.reader fr) other :=
      (hds.streams l other).other idle (fun _ he => hd (he ▸ hh.symm))
        (Nat.le_of_eq last.symm) (hsa other hd) kept fun st hf hs =>
          ⟨st, hf, hs⟩
  · rw [hfi]
    refine finish rfl (hh ▸ hu.opened) (fun other hd => ?_) ?_ ?_ ?_
    · refine hot other hd _ ?_ ?_ _
      · rfl
      · exact ⟨rfl, rfl, rfl⟩
    · intro hfl st hf ho
      have hc : 0 < mux.claims fr.streamId := by
        rw [claims_idle idle]
        simp [ReaderState.claims, hex, hfl, hh]
      exact (Disciplined.streams hor _ st hf).not_opened hc ho
    · intro hfl
      rw [take_continuation hk, block_ended, hh]
      exact hu.ended hfl
    rw [take_continuation hk, hu.pending]
    refine completes_block hco ?_ ?_ ?_
    · rfl
    · rfl
    · exact held_congr hhe (.refl _ _) ⟨rfl, rfl, rfl⟩
  rw [hb]
  have ht := tr.block_incomplete mux.reader.hpack hp (tr.pending ++ fr.payload) fr.streamId
  rw [← take_continuation hk] at ht
  refine resting rfl (fun _ other => ?_) fun _ _ => ?_
  · by_cases he : other = fr.streamId
    · subst he
      refine ⟨fun hl => absurd (hh ▸ hu.opened) (Nat.not_le_of_lt hl), fun _ _ _ => ?_⟩
      exact .inr (.inl ⟨hex, hh.symm⟩)
    refine hot other he _ ?_ ?_ _
    · rfl
    · exact ⟨rfl, rfl, rfl⟩
  refine ⟨?_, hu.opened, ?_, ?_⟩
  · dsimp only [settle]
    rw [← hh]
    exact held_congr hhe ht.1 ⟨rfl, rfl, rfl⟩
  · rw [ht.2, hu.pending]
    rfl
  intro hfl
  rw [take_continuation hk, block_ended]
  exact hu.ended hfl

include hds l idle hse in
theorem takeData (hk : fr.kind = .data) {d : Octets}
    (hst : stripPadding fr.payload (fr.hasFlag PADDED) = .ok d)
    (hkn : fr.streamId ≤ mux.reader.lastClientId) (hw : tr.Waits mux.reader fr.streamId cfg)
    {s : StreamState} (hc : fr.hasFlag END_STREAM = true → s ≠ .opened) :
    (mux.settle (mux.shared.modify fr.streamId fun st => { st with state := s })
      (mux.reader.takeData fr.streamId (fr.hasFlag END_STREAM) d
        (creditOf fr))).Delivers cfg (tr.take mux.reader fr) := by
  have ht : tr.take mux.reader fr = { tr.finish fr with
      data := fun sid => if sid = fr.streamId then tr.data sid ++ d
        else tr.data sid } := by
    simp only [Transcript.take, hk, unpadded, hst, Except.toOption, getD_some]
  have hot (other : Nat) (hd : other ≠ fr.streamId) :
      (mux.settle (mux.shared.modify fr.streamId fun st => { st with state := s })
        (mux.reader, .proceed [])).Tracks cfg (tr.take mux.reader fr) other := by
    refine (hds.streams l other).other idle (by simp [hse]) (Nat.le_refl _)
      (tr.take_sameAt _ hd) (.refl _ _) fun st hf ho => ?_
    simp only [settle, Shared.get?_modify, if_neg hd] at hf
    exact ⟨st, hf, ho⟩
  have hp : ∀ push ∈ creditOf fr, ∃ bytes, push = pushCtrl bytes := by
    unfold creditOf
    split <;> simp
  obtain ⟨req, hs, hre, hde⟩ := hw.request
  unfold ReaderState.takeData
  dsimp only
  split
  next flag =>
    split
    · refine fail hse hkn hot (fun other hd => ?_) rfl hse hp rfl
      exact .erase hd (.inl rfl) (.inr rfl) rfl
    rw [hs]
    refine hand hse hkn hot (fun other hd => ?_) rfl hse hp rfl (fun st hf => ?_) ?_
    · exact .erase hd (.inr rfl) (.inr rfl) rfl
    · simp only [Shared.get?_modify, if_true, map_eq_some_iff] at hf
      obtain ⟨b, _, rfl⟩ := hf
      exact hc flag
    rw [ht]
    refine ⟨⟨hw.aborted, hw.started⟩, ?_, ?_, hre⟩
    · simp [Transcript.finish, flag]
    · simp [hw.body]
  next flag =>
  refine ⟨fun _ other => ?_, fun _ hex => ?_, ?_, ?_, ?_, ?_⟩
  · by_cases hh : other = fr.streamId
    · subst hh
      refine ⟨fun hl => absurd hkn (Nat.not_le_of_lt hl), fun _ _ _ => .inl ?_⟩
      rw [ht]
      refine ⟨⟨hw.aborted, hw.started⟩, ?_, req, hs, hre, hde⟩
      simp [settle, ReaderState.bodyOf, ← hw.body]
    refine (hot other hh).other rfl (by simp [settle, hse]) (Nat.le_refl _)
      (.refl _ _) ⟨rfl, ?_, rfl⟩ fun st hf ho => ⟨st, hf, ho⟩
    simp [settle, ReaderState.bodyOf, get?_insert_of_ne _ _ hh]
  · exact absurd hex (by simp [settle, hse])
  · intro _ _ _ hi
    obtain ⟨_, hsa⟩ := hp _ hi
    cases hsa
  · intro _ _ _ hi
    obtain ⟨_, hsa⟩ := hp _ hi
    cases hsa
  · intro _ op hi _ hr
    obtain ⟨_, rfl⟩ := hp op hi
    cases hr
  · exact .inl (routine_creditOf fr)

include hds l idle hse hor in
theorem onData (hk : fr.kind = .data) : (mux.settle (onData mux.reader mux.shared fr).1
      (onData mux.reader mux.shared fr).2).Delivers cfg (tr.take mux.reader fr) := by
  rcases onData_cases mux.reader mux.shared fr with ⟨err, hr, hre⟩ |
    ⟨st, next, hf, ha, ⟨c, hb⟩ | ⟨d, hs, ht⟩⟩
  · rw [hr]
    rcases hre with ⟨c, rfl⟩ | ⟨c, st, rfl, hf, _⟩
    · exact fatal _ _ _ c
    · exact hds.refuse l idle hse (.inl (Disciplined.known hor _ st hf))
        (fun other hd => tr.take_sameAt _ hd) (.refl Tamed.refl)
  · rw [hb]
    exact fatal _ _ _ c
  rw [ht]
  obtain ⟨_, was, _, rfl⟩ :=
    (Disciplined.streams hor _ st hf).received (.inl rfl) ha
  exact hds.takeData l idle hse hk hs (Disciplined.known hor _ st hf)
    (hds.waits l idle hse hf was) fun hfl => by simp [hfl]

include hds l idle hor in
theorem receive : (receive mux fr).Delivers cfg (tr.take mux.reader fr) :=
  @takeFrame_rule mux fr (fun res => (mux.settle res.1 res.2).Delivers cfg
      (tr.take mux.reader fr)) (fun c => fatal _ _ _ c)
    (fun hk hse => hds.onHeaders l idle hse hor hk) (fun hk => hds.onContinuation l idle hor hk)
    (fun hk hse => hds.onData l idle hse hor hk) fun _ hs hse hh hc hd =>
      hds.settles l idle hse hor hh hc hd hs

end Idle

end Mux.Delivers

end BoatRamp.Http2
