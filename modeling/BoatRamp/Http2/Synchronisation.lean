import BoatRamp.Http2.Connection

/-!
# The header decoder and the client's encoder

The dynamic table is shared by all streams, so the decoder has to see every
header block that the client completes.  A block of a frame that is refused
before it is decoded is the only one it can miss.
-/

namespace BoatRamp.Http2

open Library ReaderState Mux

def fragmentOf (frame : Frame) : Octets :=
  let data := (stripPadding frame.payload (frame.hasFlag PADDED)).toOption.getD []
  if frame.hasFlag PRIORITY then data.drop 5 else data

/-- The header blocks that a client has completed, and the one under way. -/
structure Assembly where
  blocks : List Octets
  pending : Option Octets

namespace Assembly

def start : Assembly := ⟨[], none⟩

def extend (assembly : Assembly) (block : Octets) (frame : Frame) : Assembly :=
  if frame.hasFlag END_HEADERS then ⟨assembly.blocks ++ [block], none⟩
  else { assembly with pending := some block }

def take (assembly : Assembly) (frame : Frame) : Assembly :=
  match frame.kind with
  | .headers => assembly.extend (fragmentOf frame) frame
  | .continuation =>
      match assembly.pending with
      | some block => assembly.extend (block ++ frame.payload) frame
      | none => assembly
  | _ => assembly

end Assembly

def decodeAll (hpack : Hpack) (blocks : List Octets) : Hpack :=
  blocks.foldl (fun hpack block => (hpack.decode block).2) hpack

def assembled (config : Config) (actions : List Action) : Assembly :=
  (received config Mux.start actions).foldl Assembly.take Assembly.start

def selfDependent (frame : Frame) : Bool :=
  frame.hasFlag PRIORITY &&
    match stripPadding frame.payload (frame.hasFlag PADDED) with
    | .ok block => decide ((parsePriority (block.take 5)).toOption = some frame.streamId)
    | .error _ => false

def endedByClient (shared : Shared) (id : Nat) : Bool :=
  (shared.streams.get? id).any fun stream => decide (stream.state = .halfClosedRemote)

/-- No complete block comes in a frame that depends on itself, or on a stream that the client has
ended. -/
def ReachesDecoder (mux : Mux) (action : Action) : Prop :=
  ∀ frame, mux.takes action = some frame → frame.kind = .headers →
    frame.hasFlag END_HEADERS = true →
    selfDependent frame = false ∧ endedByClient mux.shared frame.streamId = false

def OpensNothing (ops : List ReaderOp) : Prop :=
  ∀ sid headers endStream, ReaderOp.capCheck sid headers endStream ∉ ops

theorem Routine.opensNothing {ops : List ReaderOp} (hr : Routine ops) : OpensNothing ops :=
  fun _ _ _ ho => absurd (hr _ ho) (by simp [ReaderOp.routine])

/-- The frame leaves the decoder and the block under way alone. -/
structure SparesDecoder (reader : ReaderState) (result : ReaderState × Outcome) : Prop where
  hpack : result.1.hpack = reader.hpack
  expecting : result.1.expectingContinuation = reader.expectingContinuation
  buffer : result.1.headerBuf = reader.headerBuf
  ops : OpensNothing (result.1.after result.2).1

variable (reader : ReaderState)

theorem opensNothing_deliver (sid : Nat) (req : Option Request) (d : Option Nat)
    (b : Octets) : OpensNothing (reader.after (deliver sid req d b)).1 := by
  unfold deliver
  split
  · exact (routine_fail reader _).opensNothing
  · cases req <;> simp [OpensNothing, after]

theorem listens_of_opens {reader : ReaderState} {out : Outcome} {sid : Nat}
    {hdrs : HeaderList} {es : Bool} (ho : ReaderOp.capCheck sid hdrs es ∈ (reader.after out).1) :
    (reader.after out).2 = true := by
  match out with
  | .proceed ops => rfl
  | .fail (.stream id c) => rfl
  | .stop => simp [after] at ho
  | .fail (.connection c) => simp [after] at ho

/-- A complete block is decoded, whatever becomes of its request. -/
theorem finishHeaders_decodes (reader : ReaderState) (sid : Nat) (es : Bool) :
    let r := reader.finishHeaders sid es
    r.1.hpack = (reader.hpack.decode reader.headerBuf).2 ∧
      r.1.expectingContinuation = reader.expectingContinuation ∧
      ∀ id hdrs e, ReaderOp.capCheck id hdrs e ∈ (r.1.after r.2).1 →
        (r.1.after r.2).1 = [.capCheck id hdrs e] ∧
          (reader.hpack.decode reader.headerBuf).1 = .ok hdrs := by
  rcases finishHeaders_cases reader sid es with
    ⟨err, hr, _⟩ | ⟨hdrs, hd, ⟨_, hop⟩ | ⟨req, _, _, hde⟩⟩
  · rw [hr]
    refine ⟨rfl, rfl, fun id hdrs e ho => ?_⟩
    exact absurd ho ((routine_fail _ err).opensNothing id hdrs e)
  · rw [hop]
    refine ⟨rfl, rfl, fun id o e ho => ?_⟩
    have hs := List.mem_singleton.mp ho
    refine ⟨congrArg (fun op => [op]) hs.symm, ?_⟩
    cases hs
    exact hd
  rw [hde]
  refine ⟨rfl, rfl, fun id hdrs e ho => ?_⟩
  dsimp only at ho
  exact absurd ho (opensNothing_deliver _ _ _ _ _ id hdrs e)

theorem takeData_sparesDecoder (fr : Frame) (d : Octets) :
    SparesDecoder reader (reader.takeData fr.streamId (fr.hasFlag END_STREAM) d (creditOf fr)) := by
  have hc := (routine_creditOf fr).opensNothing
  unfold takeData
  dsimp only
  split
  · split
    · refine ⟨rfl, rfl, rfl, fun sid hdrs es ho => ?_⟩
      rcases List.mem_append.mp ho with he | hl
      · exact hc sid hdrs es he
      · simp at hl
    refine ⟨rfl, rfl, rfl, fun sid hdrs es ho => ?_⟩
    rcases List.mem_append.mp ho with he | hl
    · exact hc sid hdrs es he
    · simp at hl
  · exact ⟨rfl, rfl, rfl, hc⟩

theorem onData_sparesDecoder (s : Shared) (fr : Frame) :
    SparesDecoder reader (onData reader s fr).2 := by
  rcases onData_cases reader s fr with
    ⟨err, hr, _⟩ | ⟨_, _, _, _, ⟨c, hb⟩ | ⟨d, _, ht⟩⟩
  · rw [hr]
    exact ⟨rfl, rfl, rfl, (routine_fail _ _).opensNothing⟩
  · rw [hb]
    exact ⟨rfl, rfl, rfl, (routine_fail _ _).opensNothing⟩
  · rw [ht]
    exact takeData_sparesDecoder reader fr d

theorem headerFragment_ok {frame : Frame} {block : Octets}
    (hp : headerFragment frame = .ok block) : block = fragmentOf frame := by
  unfold headerFragment at hp
  unfold fragmentOf
  cases hs : stripPadding frame.payload (frame.hasFlag PADDED) with
  | error error => simp [hs, bind, Except.bind] at hp
  | ok data =>
    simp only [hs, bind, Except.bind, pure, Except.pure] at hp
    split at hp
    next priority =>
      rw [if_pos priority]
      split at hp
      · cases hp
      split at hp
      · cases hp
      split at hp
      · cases hp
      · exact (Except.ok.inj hp).symm
    next plain =>
      rw [if_neg plain]
      exact (Except.ok.inj hp).symm

theorem headerFragment_error {frame : Frame} {error : H2Error}
    (hf : headerFragment frame = .error error) : (∃ code, error = .connection code) ∨
      error = .stream frame.streamId .protocolError ∧ selfDependent frame = true := by
  unfold headerFragment at hf
  cases hs : stripPadding frame.payload (frame.hasFlag PADDED) with
  | error refused =>
    simp only [hs, bind, Except.bind, Except.error.injEq] at hf
    exact .inl ⟨_, hf ▸ stripPadding_error hs⟩
  | ok data =>
    simp only [hs, bind, Except.bind, pure, Except.pure] at hf
    split at hf
    next priority =>
      split at hf
      · exact .inl ⟨_, (Except.error.inj hf).symm⟩
      next long =>
      have hp : parsePriority (data.take 5) =
          .ok (masked (ofBigEndian ((data.take 5).take 4))) := by
        have hl : (data.take 5).length = 5 := by
          rw [List.length_take]
          omega
        simp [parsePriority, hl]
      rw [hp] at hf
      dsimp only at hf
      split at hf
      next same =>
        refine .inr ⟨(Except.error.inj hf).symm, ?_⟩
        simp [selfDependent, priority, hs, hp, Except.toOption, same]
      next => cases hf
    next => cases hf

theorem openStream_spares {reader a : ReaderState} {s next : Shared} {sid : Nat}
    {es : Bool} (ho : openStream reader s sid es = ((next, a), .ok ())) :
    a.hpack = reader.hpack ∧ a.expectingContinuation = reader.expectingContinuation := by
  rcases openStream_cases reader s sid es with
    ⟨err, hr, _⟩ | ⟨_, _, _, _, _, hg⟩ | ⟨_, _, hop⟩
  · rw [hr] at ho
    cases ho
  · rw [hg] at ho
    cases ho
    exact ⟨rfl, rfl⟩
  rw [hop] at ho
  cases ho
  exact ⟨rfl, rfl⟩

theorem onHeaders_cases (reader : ReaderState) (s : Shared) (fr : Frame) :
    let r := onHeaders reader s fr
    (∃ c, r.2.2 = .fail (.connection c)) ∨
      ((selfDependent fr = true ∨ endedByClient s fr.streamId = true) ∧
        (∃ err, r.2.2 = .fail err) ∧ r.2.1.hpack = reader.hpack ∧
        r.2.1.expectingContinuation = reader.expectingContinuation) ∨
      (fr.hasFlag END_HEADERS = false ∧ r.2.2 = .proceed [] ∧
        r.2.1.hpack = reader.hpack ∧ r.2.1.headerBuf = fragmentOf fr) ∨
      (fr.hasFlag END_HEADERS = true ∧ ∃ b : ReaderState,
        b.hpack = reader.hpack ∧
        b.expectingContinuation = reader.expectingContinuation ∧
        b.headerBuf = fragmentOf fr ∧
        r.2 = b.finishHeaders fr.streamId (fr.hasFlag END_STREAM)) := by
  rcases onHeaders_eq reader s fr with
    ⟨err, hr, hre⟩ | ⟨bl, next, a, hp, hop, ho⟩
  · dsimp only
    rw [hr]
    rcases hre with ⟨c, rfl⟩ | hfa | ⟨rfl, he⟩
    · exact .inl ⟨c, rfl⟩
    · rcases headerFragment_error hfa with ⟨c, rfl⟩ | ⟨_, hd⟩
      · exact .inl ⟨c, rfl⟩
      · exact .inr (.inl ⟨.inl hd, ⟨err, rfl⟩, rfl, rfl⟩)
    refine .inr (.inl ⟨.inr ?_, ⟨_, rfl⟩, rfl, rfl⟩)
    obtain ⟨st, hfo, hs⟩ := Option.map_eq_some_iff.mp he
    simp [endedByClient, hfo, hs]
  obtain ⟨hh, hex⟩ := openStream_spares hop
  have hf := headerFragment_ok hp
  rcases ho with ⟨c, hl⟩ | ⟨hc, hfi⟩ | ⟨hi, hb⟩
  · rw [hl]
    exact .inl ⟨c, rfl⟩
  · rw [hfi]
    exact .inr (.inr (.inr ⟨hc, a.begin fr.streamId (fr.hasFlag END_STREAM) bl,
      hh, hex, hf, rfl⟩))
  · rw [hb]
    exact .inr (.inr (.inl ⟨hi, rfl, hh, hf⟩))

theorem onContinuation_cases (reader : ReaderState) (s : Shared) (fr : Frame) :
    let r := onContinuation reader s fr
    (∃ cd, r.2.2 = .fail (.connection cd)) ∨
      reader.expectingContinuation = true ∧
        ((fr.hasFlag END_HEADERS = false ∧ r.2.2 = .proceed [] ∧
          r.2.1.hpack = reader.hpack ∧
          r.2.1.headerBuf = reader.headerBuf ++ fr.payload) ∨
        (fr.hasFlag END_HEADERS = true ∧ ∃ b : ReaderState,
          b.hpack = reader.hpack ∧ b.expectingContinuation = false ∧
          b.headerBuf = reader.headerBuf ++ fr.payload ∧
          r.2 = b.finishHeaders fr.streamId reader.headerEndStream)) := by
  rcases onContinuation_eq reader s fr with
    ⟨c, cd, hr⟩ | ⟨he, _, c, ⟨hc, hf⟩ | ⟨hi, hb⟩⟩
  · dsimp only
    rw [hr]
    exact .inl ⟨cd, rfl⟩
  · dsimp only
    rw [hf]
    refine .inr ⟨he, .inr ⟨hc, { reader with
      continuationCount := c, headerBuf := reader.headerBuf ++ fr.payload
      expectingContinuation := false }, rfl, rfl, rfl, rfl⟩⟩
  dsimp only
  rw [hb]
  exact .inr ⟨he, .inl ⟨hi, rfl, rfl, rfl⟩⟩

/-- The decoder has seen the client's blocks, the reader holds the block under way, and a request
about to be opened has the fields of the last block. -/
structure Synchronised (assembly : Assembly) (mux : Mux) : Prop where
  decoder : mux.listening = true → mux.reader.hpack = decodeAll Hpack.new assembly.blocks
  pending : mux.listening = true → mux.reader.expectingContinuation = true →
    assembly.pending = some mux.reader.headerBuf
  opening : ∀ sid headers endStream, ReaderOp.capCheck sid headers endStream ∈ mux.program →
    mux.listening = true ∧ mux.program = [.capCheck sid headers endStream] ∧
      ∃ earlier block, assembly.blocks = earlier ++ [block] ∧
        ((decodeAll Hpack.new earlier).decode block).1 = .ok headers

theorem decodeAll_append (h : Hpack) (b : List Octets) (bl : Octets) :
    decodeAll h (b ++ [bl]) = ((decodeAll h b).decode bl).2 := by
  simp [decodeAll]

namespace Synchronised

variable {a next : Assembly} {mux : Mux} {f : Frame}

theorem closed (hd : mux.listening = false) (hq : OpensNothing mux.program) :
    Synchronised a mux where
  decoder := fun hl => absurd hl (by simp [hd])
  pending := fun hl => absurd hl (by simp [hd])
  opening := fun sid hdrs es ho => absurd ho (hq sid hdrs es)

variable {res : ReaderState × Outcome}

theorem fail {s : Shared} (hf : ∃ c, res.2 = .fail (.connection c)) :
    Synchronised a (mux.settle s res) := by
  obtain ⟨reader, out⟩ := res
  obtain ⟨c, rfl⟩ := hf
  exact closed rfl (routine_fail reader _).opensNothing

theorem suspend (hs : Synchronised a mux) (hl : mux.listening = true)
    {s : Shared} (hp : res.2 = .proceed []) (hh : res.1.hpack = mux.reader.hpack) :
    Synchronised { a with pending := some res.1.headerBuf } (mux.settle s res) := by
  refine ⟨fun _ => hh.trans (hs.decoder hl), fun _ _ => rfl, ?_⟩
  intro sid hdrs es ho
  rw [settle, hp] at ho
  exact absurd ho ((routine_idle res.1).opensNothing sid hdrs es)

theorem spare (hsy : Synchronised a mux) (hl : mux.listening = true)
    (hs : SparesDecoder mux.reader res) (s : Shared) : Synchronised a (mux.settle s res) where
  decoder := fun _ => hs.hpack.trans (hsy.decoder hl)
  pending := by
    intro _ he
    dsimp only [settle] at he ⊢
    rw [hs.buffer]
    exact hsy.pending hl (hs.expecting ▸ he)
  opening := fun sid hdrs es ho =>
    absurd ho (hs.ops sid hdrs es)

theorem finish {e : List Octets} {bl : Octets} {b : ReaderState}
    (hde : b.hpack = decodeAll Hpack.new e) (hs : b.expectingContinuation = false)
    (hb : b.headerBuf = bl) (hc : next.blocks = e ++ [bl]) (s : Shared) (sid : Nat) (es : Bool) :
    Synchronised next (mux.settle s (b.finishHeaders sid es)) := by
  obtain ⟨hh, he, ho⟩ := finishHeaders_decodes b sid es
  rw [hb, hde] at hh ho
  refine ⟨fun _ => ?_, fun _ hw => ?_, fun id hdrs en hop => ?_⟩
  · rw [hc, decodeAll_append]
    exact hh
  · dsimp only [settle] at hw
    rw [he, hs] at hw
    cases hw
  · obtain ⟨ha, hd⟩ := ho id hdrs en hop
    exact ⟨listens_of_opens hop, ha, e, bl, hc, hd⟩

open Assembly

theorem onHeaders (hsy : Synchronised a mux) (hl : mux.listening = true)
    (hs : mux.reader.expectingContinuation = false) (hk : f.kind = .headers)
    (hre : f.hasFlag END_HEADERS = true →
      selfDependent f = false ∧ endedByClient mux.shared f.streamId = false) :
    Synchronised (a.take f) (mux.settle (onHeaders mux.reader mux.shared f).1
      (onHeaders mux.reader mux.shared f).2) := by
  have hd := hsy.decoder hl
  simp only [take, hk, extend]
  rcases onHeaders_cases mux.reader mux.shared f with
    hf | ⟨hsk, ⟨err, hr⟩, hh, he⟩ |
    ⟨hi, hp, hh, hb⟩ | ⟨hc, b, hh, he, hb, hfi⟩
  · exact fail hf
  · -- A refused frame has not completed its block.
    have hi : ¬f.hasFlag END_HEADERS = true := by
      intro hc
      obtain ⟨hin, hru⟩ := hre hc
      rcases hsk with hde | e
      · exact absurd hde (by simp [hin])
      · exact absurd e (by simp [hru])
    rw [if_neg hi]
    refine ⟨fun _ => hh.trans hd, fun _ hw => ?_, fun sid hdrs e ho => ?_⟩
    · exact absurd (he.symm.trans hw) (by simp [hs])
    · rw [settle, hr] at ho
      exact absurd ho ((routine_fail _ _).opensNothing sid hdrs e)
  · rw [if_neg (by simp [hi]), ← hb]
    exact hsy.suspend hl hp hh
  · rw [if_pos hc, hfi]
    exact finish (hh.trans hd) (he.trans hs) hb rfl _ _ _

theorem onContinuation (hsy : Synchronised a mux)
    (hl : mux.listening = true) (hk : f.kind = .continuation) :
    Synchronised (a.take f) (mux.settle (onContinuation mux.reader mux.shared f).1
      (onContinuation mux.reader mux.shared f).2) := by
  have hd := hsy.decoder hl
  rcases onContinuation_cases mux.reader mux.shared f with
    hf | ⟨he, ⟨hi, hp, hh, hb⟩ |
      ⟨hc, b, hh, hs, hb, hfi⟩⟩
  · exact fail hf
  · simp only [take, hk, hsy.pending hl he, extend]
    rw [if_neg (by simp [hi]), ← hb]
    exact hsy.suspend hl hp hh
  simp only [take, hk, hsy.pending hl he, extend]
  rw [if_pos hc, hfi]
  exact finish (hh.trans hd) hs hb rfl _ _ _

theorem receive (hsy : Synchronised a mux) (hl : mux.listening = true) (hi : mux.program = [])
    (hr : ReachesDecoder mux (.frame f)) : Synchronised (a.take f) (receive mux f) := by
  have ht : mux.takes (.frame f) = some f := by simp [takes, hl, hi]
  refine @takeFrame_rule mux f (fun res =>
      Synchronised (a.take f) (mux.settle res.1 res.2)) (fun c => fail ⟨c, rfl⟩)
    (fun hk hs => hsy.onHeaders hl hs hk (hr f ht hk))
    (fun hk => hsy.onContinuation hl hk) (fun hk _ => ?_) ?_
  · simp only [take, hk]
    exact hsy.spare hl (onData_sparesDecoder mux.reader mux.shared f) _
  intro res hse _ hh hc _
  have hu : a.take f = a := by
    unfold take
    split
    · contradiction
    · contradiction
    · rfl
  rw [hu]
  exact hsy.spare hl ⟨rfl, rfl, rfl, hse.routine.opensNothing⟩ _

end Synchronised

theorem openRequest_spares (cfg : Config) (reader : ReaderState) (oc : Bool) (sid : Nat)
    (hdrs : HeaderList) (es : Bool) :
    SparesDecoder reader (reader.openRequest cfg oc sid hdrs es) := by
  unfold openRequest
  split
  · exact ⟨rfl, rfl, rfl, by simp [OpensNothing, after]⟩
  split
  · exact ⟨rfl, rfl, rfl, (routine_fail _ _).opensNothing⟩
  dsimp only
  split
  · refine ⟨rfl, rfl, rfl, ?_⟩
    dsimp only
    exact opensNothing_deliver _ _ _ _ _
  · exact ⟨rfl, rfl, rfl, (routine_idle _).opensNothing⟩

namespace Synchronised

variable {a : Assembly} {mux next : Mux} (hsy : Synchronised a mux)

include hsy

theorem keep (reader : next.reader = mux.reader) (hl : next.listening = mux.listening)
    (hp : next.program = mux.program) : Synchronised a next where
  decoder := by
    rw [hl, reader]
    exact hsy.decoder
  pending := by
    rw [hl, reader]
    exact hsy.pending
  opening := by
    rw [hl, hp]
    exact hsy.opening

theorem quiet (reader : next.reader = mux.reader) (hl : next.listening = mux.listening)
    (hp : OpensNothing next.program) : Synchronised a next where
  decoder := by
    rw [hl, reader]
    exact hsy.decoder
  pending := by
    rw [hl, reader]
    exact hsy.pending
  opening := fun sid hdrs es ho => absurd ho (hp sid hdrs es)

theorem rest_opensNothing {op : ReaderOp} {rest : List ReaderOp}
    (hp : mux.program = op :: rest) : OpensNothing rest := by
  intro sid hdrs es ho
  obtain ⟨_, ha, _⟩ := hsy.opening sid hdrs es (by rw [hp]; exact List.mem_cons_of_mem op ho)
  rw [hp, List.cons.injEq] at ha
  rw [ha.2] at ho
  cases ho

theorem run (cfg : Config) {op : ReaderOp} {rest : List ReaderOp}
    (hp : mux.program = op :: rest) : Synchronised a (op.run cfg mux rest) := by
  have hn := hsy.rest_opensNothing hp
  cases op with
  | capCheck sid hdrs es =>
    obtain ⟨l, ha, _⟩ :=
      hsy.opening sid hdrs es (by simp [hp])
    have hl : rest = [] := by simpa [hp] using ha
    subst hl
    have hsp := hsy.spare l
      (openRequest_spares cfg mux.reader mux.shared.overCap sid hdrs es) mux.shared
    simpa [ReaderOp.run, settle] using hsp
  | resetLocal sid c =>
    refine hsy.quiet rfl rfl fun id hdrs e ho => ?_
    rcases List.mem_append.mp ho with hf | hs
    · split at hf <;> simp at hf
    · exact hn id hdrs e hs
  | failStream id c =>
    refine hsy.quiet rfl rfl fun id hdrs e ho => ?_
    rcases List.mem_cons.mp ho with hf | hs
    · cases hf
    · exact hn id hdrs e hs
  | pushCtrl bs | spawn sid req b | setDone | teardown => exact hsy.quiet rfl rfl hn

theorem step (cfg : Config) {act : Action} (hr : ReachesDecoder mux act) :
    Synchronised ((mux.takes act).toList.foldl Assembly.take a) (step cfg mux act).1 := by
  cases act with
  | frame frame =>
    simp only [Http2.step, takes]
    split
    next ready => exact hsy.receive ready.1 ready.2 hr
    next => exact hsy
  | eof =>
    simp only [Http2.step, takes]
    split
    · exact closed rfl (by simp [OpensNothing])
    · exact hsy
  | reader =>
    simp only [Http2.step, takes]
    split
    · exact hsy
    next op rest program => exact hsy.run cfg program
  | handler i ev =>
    simp only [Http2.step, takes]
    split
    · exact hsy
    · exact hsy.keep rfl rfl rfl
  | writer =>
    obtain ⟨w, _, hs⟩ := step_writer cfg mux
    exact hsy.keep rfl rfl rfl

end Synchronised

theorem synchronised_run (cfg : Config) {acts : List Action} {assembly : Assembly} {mux : Mux}
    (hs : Synchronised assembly mux) (hr : (connection cfg).Meets ReachesDecoder mux acts) :
    Synchronised ((received cfg mux acts).foldl Assembly.take assembly)
      ((connection cfg).final mux acts) := by
  induction acts generalizing assembly mux with
  | nil => exact hs
  | cons act rest ih =>
    rw [received, List.foldl_append]
    exact ih (hs.step cfg hr.1) hr.2

theorem synchronised_start : Synchronised Assembly.start start where
  decoder := fun _ => rfl
  pending := by
    intro _ he
    cases he
  opening := by
    intro sid hdrs es ho
    cases ho

theorem reachesDecoder_iff (mux : Mux) (act : Action) :
    ReachesDecoder mux act ↔ (mux.takes act).all (fun fr =>
      decide (fr.kind = .headers → fr.hasFlag END_HEADERS = true →
        selfDependent fr = false ∧ endedByClient mux.shared fr.streamId = false)) = true := by
  unfold ReachesDecoder
  cases mux.takes act with
  | none => simp
  | some fr => simp only [Option.some.injEq, forall_eq', Option.all_some, decide_eq_true_eq]

instance (mux : Mux) (action : Action) : Decidable (ReachesDecoder mux action) :=
  decidable_of_iff _ (reachesDecoder_iff mux action).symm

/-- While the reader listens its decoder has decoded the client's blocks, and a request that is
about to be opened has the fields that the client encoded. -/
theorem decoder_synchronised (config : Config) (actions : List Action)
    (reaches : (connection config).Meets ReachesDecoder Mux.start actions) :
    let mux := (connection config).final Mux.start actions
    let blocks := (assembled config actions).blocks
    (mux.listening = true → mux.reader.hpack = decodeAll Hpack.new blocks) ∧
      ∀ sid hdrs es, ReaderOp.capCheck sid hdrs es ∈ mux.program → ∃ e b, blocks = e ++ [b] ∧
          ((decodeAll Hpack.new e).decode b).1 = .ok hdrs := by
  have hs := synchronised_run config synchronised_start reaches
  refine ⟨hs.decoder, ?_⟩
  intro sid hdrs es opened
  exact (hs.opening sid hdrs es opened).2.2

/-! Three requests name a user; the block of the second is refused before it is decoded. -/

namespace SelfDependent

open Http

def config : Config := ⟨1024, fun _ => true⟩

def request : Octets := [0x82, 0x84, 0x87]

def remember (user : String) : Octets :=
  [0x40, 4] ++ ascii "user" ++ [UInt8.ofNat user.length] ++ ascii user

def alice : Frame := ⟨.headers, END_STREAM ||| END_HEADERS, 1, request ++ remember "alice"⟩

def bob (dependency : UInt8) : Frame :=
  ⟨.headers, END_STREAM ||| END_HEADERS ||| PRIORITY, 3,
    [0, 0, 0, dependency, 0] ++ request ++ remember "bob"⟩

def again : Frame := ⟨.headers, END_STREAM ||| END_HEADERS, 5, request ++ [0xbe]⟩

def actions (dependency : UInt8) : List Action :=
  [.frame alice, .reader, .reader, .frame (bob dependency), .reader, .reader, .frame again]

def fields (user : String) : HeaderList :=
  [(ascii ":method", ascii "GET"), (ascii ":path", ascii "/"), (ascii ":scheme", ascii "https"),
    (ascii "user", ascii user)]

theorem third_request_opens_as_alice :
    let mux := (connection config).final Mux.start (actions 3)
    let b := (assembled config (actions 3)).blocks
    mux.listening = true ∧ mux.reader.hpack ≠ decodeAll Hpack.new b ∧
      mux.program = [.capCheck 5 (fields "alice") true] ∧
      ((decodeAll Hpack.new b.dropLast).decode again.payload).1.toOption = some (fields "bob") := by
  decide +kernel

theorem independent_blocks_decoded :
    (connection config).Meets ReachesDecoder Mux.start (actions 1) ∧
      let mux := (connection config).final Mux.start (actions 1)
      let b := (assembled config (actions 1)).blocks
      (mux.listening = true → mux.reader.hpack = decodeAll Hpack.new b) ∧
        ∀ sid hdrs es, ReaderOp.capCheck sid hdrs es ∈ mux.program → ∃ e block, b = e ++ [block] ∧
            ((decodeAll Hpack.new e).decode block).1 = .ok hdrs :=
  have hr : (connection config).Meets ReachesDecoder Mux.start (actions 1) := by
    decide +kernel
  ⟨hr, decoder_synchronised config (actions 1) hr⟩

end SelfDependent

end BoatRamp.Http2
