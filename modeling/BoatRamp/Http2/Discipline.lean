import BoatRamp.Http2.Windows

/-!
# One response for one request

A stream that the client has ended is answered once: whoever may still end it on
our side holds a claim, and the claims of a stream together with the endings in
its outbox are at most one.  So a stream never opens again after it was closed.
-/

namespace BoatRamp.Http2

open Library ReaderState Shared Nat
open List hiding after

def OutFrame.endsStream : OutFrame → Bool
  | .headers _ endStream => endStream
  | .data _ _ endStream => endStream

def endings (outbox : List OutFrame) : Nat := outbox.countP OutFrame.endsStream

/-- A section that is about to hand the request of a stream over. -/
def ReaderOp.claims (sid : Nat) : ReaderOp → Bool
  | .capCheck id _ endStream => id = sid && endStream
  | .spawn id _ _ => id = sid
  | _ => false

def HandlerTask.claims (sid : Nat) (task : HandlerTask) : Bool :=
  task.sid = sid && task.phase ≠ .finishing

def ReaderState.claims (reader : ReaderState) (sid : Nat) : Nat :=
  if reader.expectingContinuation ∧ reader.headerEndStream ∧ reader.headerSid = sid then 1 else 0

def Mux.claims (mux : Mux) (sid : Nat) : Nat :=
  mux.reader.claims sid + mux.program.countP (ReaderOp.claims sid) +
    mux.handlers.countP (HandlerTask.claims sid)

structure Orderly (claims : Nat) (stream : MuxStream) : Prop where
  reset : stream.reset = true → stream.state = .closed
  begun : stream.state ≠ .idle
  unanswered : stream.state ≠ .halfClosedLocal
  single : stream.reset = false → claims + endings stream.outbox ≤ 1
  ended : stream.reset = false → 0 < claims + endings stream.outbox →
    stream.state = .halfClosedRemote

def Tamed (before after : MuxStream) : Prop :=
  (after.reset = true ∧ after.state = .closed) ∨
    after.reset = before.reset ∧ after.state = before.state ∧
      endings after.outbox ≤ endings before.outbox

theorem Tamed.refl (stream : MuxStream) : Tamed stream stream := .inr ⟨rfl, rfl, le_refl _⟩

theorem Tamed.trans {x y t : MuxStream} (he : Tamed x y) (hl : Tamed y t) : Tamed x t := by
  rcases hl with hc | ⟨hr, hs, hf⟩
  · exact .inl hc
  rcases he with ⟨hw, hwa⟩ | ⟨hre, hst, hfe⟩
  · exact .inl ⟨hr.trans hw, hs.trans hwa⟩
  · exact .inr ⟨hr.trans hre, hs.trans hst, hf.trans hfe⟩

variable {cl l id : Nat} {b a : MuxStream} {s : Shared}

theorem Orderly.tamed {f : Nat} (ho : Orderly cl b) (ht : Tamed b a) (hl : f ≤ cl) :
    Orderly f a := by
  rcases ht with ⟨hr, hc⟩ | ⟨hr, hs, hou⟩
  · exact ⟨fun _ => hc, by simp [hc], by simp [hc], by simp [hr], by simp [hr]⟩
  refine ⟨?_, ?_, ?_, ?_, ?_⟩
  · rw [hr, hs]
    exact ho.reset
  · exact hs ▸ ho.begun
  · exact hs ▸ ho.unanswered
  · intro hru
    have hsi := ho.single (hr ▸ hru)
    omega
  intro hru hso
  rw [hs]
  exact ho.ended (hr ▸ hru) (by omega)

variable {stream : MuxStream} {es : Bool} {reader : ReaderState}

theorem Orderly.not_opened (ho : Orderly cl stream) (hc : 0 < cl) : stream.state ≠ .opened := by
  cases hr : stream.reset with
  | true => simp [ho.reset hr]
  | false => simp [ho.ended hr (by omega)]

structure Disciplined (claims : Nat → Nat) (lastClientId : Nat) (shared : Shared) : Prop where
  streams : ∀ sid stream, shared.streams.get? sid = some stream → Orderly (claims sid) stream
  known : ∀ sid stream, shared.streams.get? sid = some stream → sid ≤ lastClientId
  claimed : ∀ sid, 0 < claims sid → sid ≤ lastClientId

theorem Disciplined.evolve {cl f : Nat → Nat} {next : Shared} (hd : Disciplined cl l s)
    (he : Shared.Evolves Tamed s next) (hl : ∀ sid, f sid ≤ cl sid) : Disciplined f l next where
  streams := by
    intro sid stream hf
    obtain ⟨b, ht, hta⟩ := he sid stream hf
    exact (hd.streams sid b ht).tamed hta (hl sid)
  known := by
    intro sid stream hf
    obtain ⟨b, ht, _⟩ := he sid stream hf
    exact hd.known sid b ht
  claimed := by
    intro sid hs
    exact hd.claimed sid (lt_of_lt_of_le hs (hl sid))

theorem Disciplined.change {cl o : Nat → Nat} {next : Shared}
    {c : MuxStream → MuxStream} (hd : Disciplined cl l s) (hc : ∀ other, next.streams.get? other =
      if other = id then (s.streams.get? id).map c else s.streams.get? other)
    (hs : ∀ sid, sid ≠ id → o sid ≤ cl sid)
    (hch : ∀ stream, s.streams.get? id = some stream → Orderly (o id) (c stream))
    (hcl : 0 < o id → id ≤ l) : Disciplined o l next where
  streams := by
    intro sid stream hf
    rw [hc] at hf
    by_cases hh : sid = id
    · subst hh
      rw [if_pos rfl, Option.map_eq_some_iff] at hf
      obtain ⟨b, ht, rfl⟩ := hf
      exact hch b ht
    · rw [if_neg hh] at hf
      exact (hd.streams sid stream hf).tamed (.refl stream) (hs sid hh)
  known := by
    intro sid stream hf
    rw [hc] at hf
    by_cases hh : sid = id
    · subst hh
      rw [if_pos rfl, Option.map_eq_some_iff] at hf
      obtain ⟨b, ht, rfl⟩ := hf
      exact hd.known sid b ht
    · rw [if_neg hh] at hf
      exact hd.known sid stream hf
  claimed := by
    intro sid some
    by_cases hh : sid = id
    · exact hh ▸ hcl (hh ▸ some)
    · exact hd.claimed sid (lt_of_lt_of_le some (hs sid hh))

theorem Tamed.same (hr : a.reset = b.reset) (hs : a.state = b.state) (ho : a.outbox = b.outbox) :
    Tamed b a :=
  .inr ⟨hr, hs, by rw [ho]⟩

open Tamed

theorem lenient_tamed : Lenient Tamed where
  refl := refl
  trans _ _ _ := trans
  queue _ := .same rfl rfl rfl
  shift _ _ := .same rfl rfl rfl
  wake _ _ := .same rfl rfl rfl
  reset _ := .inl ⟨rfl, rfl⟩

theorem Tamed.pushOut (s : Shared) (id : Nat) {fr : OutFrame} (hg : fr.endsStream = false) :
    Shared.Evolves Tamed s (s.pushOut id fr).1 := by
  unfold Shared.pushOut
  split
  · exact .refl refl
  split
  · exact .refl refl
  refine Shared.Evolves.trans lenient_tamed.trans ?_ (lenient_tamed.markReady _ _)
  refine .modify refl fun stream => .inr ⟨rfl, rfl, ?_⟩
  simp [endings, hg]

/-- A stream only takes a frame while the client may still send, and nobody claims it then. -/
theorem Orderly.received {k : FrameType} {next : StreamState} (ho : Orderly cl stream)
    (hc : k = .data ∨ k = .headers) (ha : stream.state.onRecv id k es = .ok next) :
    stream.reset = false ∧ stream.state = .opened ∧ cl + endings stream.outbox = 0 ∧
      next = if es then .halfClosedRemote else .opened := by
  have hs : stream.state = .opened ∧ next = if es then .halfClosedRemote else .opened := by
    rcases hc with rfl | rfl
    all_goals
      cases hs : stream.state with
      | idle => exact absurd hs ho.begun
      | halfClosedLocal => exact absurd hs ho.unanswered
      | opened =>
        rw [hs] at ha
        exact ⟨rfl, (Except.ok.inj ha).symm⟩
      | halfClosedRemote | closed =>
        rw [hs] at ha
        cases ha
  have hr : stream.reset = false := by
    cases hre : stream.reset with
    | false => rfl
    | true => exact absurd (ho.reset hre) (by simp [hs.1])
  refine ⟨hr, hs.1, ?_, hs.2⟩
  by_contra hso
  have he := ho.ended hr (pos_of_ne_zero hso)
  simp [hs.1] at he

theorem Orderly.move {f : Nat} {k : FrameType} {next : StreamState} (ho : Orderly cl stream)
    (hc : k = .data ∨ k = .headers) (ha : stream.state.onRecv id k es = .ok next)
    (few : f ≤ if es then 1 else 0) : Orderly f { stream with state := next } := by
  obtain ⟨hr, _, hu, rfl⟩ := ho.received hc ha
  cases es with
  | true =>
    simp only [if_true] at few ⊢
    refine ⟨fun r => ?_, by simp, by simp, fun _ => ?_, fun _ _ => rfl⟩
    · simp [hr] at r
    · dsimp only
      omega
  | false =>
    simp only [Bool.false_eq_true, if_false, le_zero] at few ⊢
    refine ⟨fun r => ?_, by simp, by simp, fun _ => ?_, fun _ hs => ?_⟩
    · simp [hr] at r
    · dsimp only
      omega
    · dsimp only at hs
      omega

def granted (result : ReaderState × Outcome) (sid : Nat) : Nat :=
  result.1.claims sid + (result.1.after result.2).1.countP (ReaderOp.claims sid)

theorem Mux.claims_settle (mux : Mux) (s : Shared) (res : ReaderState × Outcome)
    (sid : Nat) : (mux.settle s res).claims sid =
      granted res sid + mux.handlers.countP (HandlerTask.claims sid) := rfl

theorem ReaderState.claims_of_settled (hs : reader.expectingContinuation = false) (sid : Nat) :
    reader.claims sid = 0 := by
  simp [claims, hs]

theorem Routine.countP {ops : List ReaderOp} (hr : Routine ops) (sid : Nat) :
    ops.countP (ReaderOp.claims sid) = 0 := by
  rw [countP_eq_zero]
  intro op hi hc
  have hp := hr op hi
  cases op <;> simp [ReaderOp.routine, ReaderOp.claims] at hp hc

theorem granted_routine {out : Outcome} (hr : Routine (reader.after out).1) (sid : Nat) :
    granted (reader, out) sid = reader.claims sid := by
  simp [granted, hr.countP]

theorem granted_deliver (hs : reader.expectingContinuation = false) (sid : Nat)
    (req : Option Request) (d : Option Nat) (b : Octets) (id : Nat) :
    granted (reader, deliver sid req d b) id ≤ if sid = id then 1 else 0 := by
  rw [granted, reader.claims_of_settled hs, zero_add]
  unfold deliver
  split
  · rw [(routine_fail reader _).countP]
    exact zero_le _
  cases req with
  | none => simp [after]
  | some req =>
    simp [after, countP_singleton, ReaderOp.claims]

theorem granted_finishHeaders (hs : reader.expectingContinuation = false) (sid : Nat) (es : Bool)
    (id : Nat) : granted (reader.finishHeaders sid es) id ≤ if sid = id ∧ es then 1 else 0 := by
  rcases finishHeaders_cases reader sid es with
    ⟨err, hr, _⟩ | ⟨hdrs, _, ⟨_, ho⟩ | ⟨req, _, rfl, hd⟩⟩
  · rw [hr, granted_routine (routine_fail _ err), claims_of_settled (by exact hs)]
    exact zero_le _
  · rw [ho, granted, claims_of_settled (by exact hs)]
    simp [after, ReaderOp.claims, countP_singleton]
  · rw [hd]
    simpa using granted_deliver (by exact hs) sid (some req) _ _ id

theorem granted_takeData (hs : reader.expectingContinuation = false) (fr : Frame)
    (es : Bool) (d : Octets) (id : Nat) :
    granted (reader.takeData fr.streamId es d (creditOf fr)) id ≤
      if fr.streamId = id ∧ es then 1 else 0 := by
  have hc := (routine_creditOf fr).countP id
  unfold takeData
  dsimp only
  split
  next ended =>
    split
    · rw [granted, claims_of_settled (by exact hs)]
      simp [after, hc, ReaderOp.claims]
    rw [granted, claims_of_settled (by exact hs)]
    cases reader.requests.get? fr.streamId with
    | none => simp [after, hc]
    | some req =>
      simp [after, hc, ReaderOp.claims, countP_singleton, ended]
  rw [granted, claims_of_settled (by exact hs)]
  simp [after, hc]

theorem Disciplined.opened {cl ot : Nat → Nat} {sid : Nat}
    (hd : Disciplined cl l s) (hl : l < sid) (hsa : ∀ o, o ≠ sid → ot o ≤ cl o)
    (few : ot sid ≤ if es then 1 else 0) : Disciplined ot sid (s.open sid es) where
  streams := by
    intro o stream hf
    simp only [Shared.open, SortedMap.get?_insert] at hf
    split at hf
    next hh =>
      subst hh
      cases hf
      have he : endings (MuxStream.opened s.peer.initialWindowSize es).outbox = 0 := rfl
      cases es with
      | true =>
        refine ⟨?_, ?_, ?_, fun _ => ?_, fun _ _ => rfl⟩
        · intro r
          cases r
        · simp [MuxStream.opened]
        · simp [MuxStream.opened]
        · simpa [he] using few
      | false =>
        simp only [Bool.false_eq_true, if_false, le_zero] at few
        refine ⟨?_, ?_, ?_, fun _ => ?_, fun _ hs => ?_⟩
        · intro r
          cases r
        · simp [MuxStream.opened]
        · simp [MuxStream.opened]
        · simp [he, few]
        · simp [he, few] at hs
    next different =>
      exact (hd.streams o stream hf).tamed (.refl stream) (hsa o different)
  known := by
    intro o stream hf
    simp only [Shared.open, SortedMap.get?_insert] at hf
    split at hf
    next hh => exact le_of_eq hh
    next => exact le_trans (hd.known o stream hf) (le_of_lt hl)
  claimed := by
    intro o hs
    by_cases hh : o = sid
    · exact le_of_eq hh
    · have hb := hd.claimed o (lt_of_lt_of_le hs (hsa o hh))
      exact le_trans hb (le_of_lt hl)

def Mux.Orderly (mux : Mux) : Prop :=
  Disciplined mux.claims mux.reader.lastClientId mux.shared

section Receive

variable {mux : Mux} {f : Frame}

theorem Mux.claims_idle (hi : mux.program = []) (sid : Nat) :
    mux.claims sid = mux.reader.claims sid + mux.handlers.countP (HandlerTask.claims sid) := by
  simp [Mux.claims, hi]

open Disciplined

theorem Mux.Orderly.settle (ho : mux.Orderly) (hi : mux.program = []) {s : Shared}
    {res : ReaderState × Outcome} (he : Shared.Evolves Tamed mux.shared s)
    (hla : res.1.lastClientId = mux.reader.lastClientId)
    (hl : ∀ sid, granted res sid ≤ mux.reader.claims sid) : (mux.settle s res).Orderly := by
  unfold Mux.Orderly
  have hk : (mux.settle s res).reader.lastClientId = mux.reader.lastClientId := hla
  rw [hk]
  refine evolve ho he fun sid => ?_
  rw [mux.claims_settle, Mux.claims_idle hi]
  exact Nat.add_le_add_right (hl sid) _

theorem Mux.Orderly.accept (ho : mux.Orderly) (hi : mux.program = []) {stream : MuxStream}
    {id : Nat} {k : FrameType} {es : Bool} {next : StreamState} {res : ReaderState × Outcome}
    (hf : mux.shared.streams.get? id = some stream) (hc : k = .data ∨ k = .headers)
    (ha : stream.state.onRecv id k es = .ok next)
    (hla : res.1.lastClientId = mux.reader.lastClientId)
    (hl : ∀ sid, granted res sid ≤ if id = sid ∧ es then 1 else 0) :
    (mux.settle (mux.shared.modify id fun stream => { stream with state := next })
      res).Orderly := by
  unfold Mux.Orderly
  have hk : (mux.settle (mux.shared.modify id fun stream => { stream with state := next })
      res).reader.lastClientId = mux.reader.lastClientId := hla
  rw [hk]
  have hh := streams ho id stream hf
  have hfr := (hh.received hc ha).2.2.1
  rw [Mux.claims_idle hi] at hfr
  refine change ho (get?_modify _ _ _) (fun sid hd => ?_) (fun o ht => ?_) fun _ => ?_
  · have none := hl sid
    rw [if_neg fun hs => hd hs.1.symm] at none
    rw [mux.claims_settle, Mux.claims_idle hi]
    omega
  · cases hf.symm.trans ht
    refine hh.move hc ha ?_
    have hon := hl id
    simp only [true_and] at hon
    rw [mux.claims_settle]
    omega
  · exact known ho id stream hf

theorem onHeaders_granted {reader a : ReaderState} {s next : Shared}
    {b : Octets} (hs : a.expectingContinuation = false) (ho : (∃ c, onHeaders reader s f =
        (next, { a with headerBuf := [], continuationCount := 0 }, .fail (.connection c))) ∨
      (f.hasFlag END_HEADERS = true ∧ onHeaders reader s f =
        (next, (a.begin f.streamId (f.hasFlag END_STREAM) b).finishHeaders
          f.streamId (f.hasFlag END_STREAM))) ∨
      (f.hasFlag END_HEADERS = false ∧ onHeaders reader s f =
        (next, { a.begin f.streamId (f.hasFlag END_STREAM) b with
          expectingContinuation := true }, .proceed []))) : (onHeaders reader s f).1 = next ∧
      (onHeaders reader s f).2.1.lastClientId = a.lastClientId ∧
      ∀ sid, granted (onHeaders reader s f).2 sid ≤
        if f.streamId = sid ∧ f.hasFlag END_STREAM then 1 else 0 := by
  rcases ho with ⟨c, hl⟩ | ⟨_, hf⟩ | ⟨_, hb⟩
  · rw [hl]
    refine ⟨rfl, rfl, fun sid => ?_⟩
    rw [granted_routine (routine_fail _ _), claims_of_settled (by exact hs)]
    exact zero_le _
  · rw [hf]
    exact ⟨rfl, finishHeaders_lastClientId _ _ _, granted_finishHeaders (by exact hs) _ _⟩
  rw [hb]
  refine ⟨rfl, rfl, fun sid => ?_⟩
  rw [granted_routine (routine_idle _)]
  simp only [claims, begin, true_and, and_comm]
  exact le_refl _

theorem Mux.Orderly.onHeaders (hor : mux.Orderly) (hi : mux.program = [])
    (hs : mux.reader.expectingContinuation = false) :
    (mux.settle (onHeaders mux.reader mux.shared f).1
      (onHeaders mux.reader mux.shared f).2).Orderly := by
  rcases onHeaders_eq mux.reader mux.shared f with
    ⟨err, hr, _⟩ | ⟨b, next, a, _, ho, hou⟩
  · rw [hr]
    exact hor.settle hi (.refl refl) rfl
      (fun sid => le_of_eq (granted_routine (routine_fail _ err) sid))
  rcases openStream_cases mux.reader mux.shared f.streamId (f.hasFlag END_STREAM) with
    ⟨err, hr, _⟩ | ⟨stream, s, hfo, _, ha, hg⟩ | ⟨_, hl, hop⟩
  · rw [hr] at ho
    cases ho
  · rw [hg] at ho
    cases ho
    obtain ⟨hf, hla, hle⟩ := onHeaders_granted hs hou
    rw [hf]
    exact hor.accept hi hfo (.inr rfl) ha hla hle
  rw [hop] at ho
  cases ho
  obtain ⟨hf, hla, hle⟩ := onHeaders_granted (by exact hs) hou
  rw [hf]
  have hc (sid : Nat) := mux.claims_settle (mux.shared.open f.streamId
    (f.hasFlag END_STREAM)) (Http2.onHeaders mux.reader mux.shared f).2 sid
  have hfr : mux.claims f.streamId = 0 := by
    by_contra hso
    exact absurd (claimed hor _ (pos_of_ne_zero hso)) (by omega)
  rw [Mux.claims_idle hi] at hfr
  unfold Mux.Orderly
  have hk : (mux.settle (mux.shared.open f.streamId (f.hasFlag END_STREAM))
      (Http2.onHeaders mux.reader mux.shared f).2).reader.lastClientId =
      f.streamId := hla
  rw [hk]
  refine opened hor hl (fun o hd => ?_) ?_
  · have hn := hle o
    rw [if_neg fun hsa => hd hsa.1.symm] at hn
    rw [hc, Mux.claims_idle hi]
    omega
  have hon := hle f.streamId
  simp only [true_and] at hon
  rw [hc]
  omega

theorem Mux.Orderly.onContinuation (ho : mux.Orderly) (hi : mux.program = []) :
    (mux.settle (onContinuation mux.reader mux.shared f).1
      (onContinuation mux.reader mux.shared f).2).Orderly := by
  rcases onContinuation_eq mux.reader mux.shared f with
    ⟨c, cd, hr⟩ | ⟨he, hs, c, ⟨_, hf⟩ | ⟨_, hb⟩⟩
  · rw [hr]
    exact ho.settle hi (.refl refl) rfl
      (fun sid => le_of_eq (granted_routine (routine_fail _ _) sid))
  · rw [hf]
    refine ho.settle hi (.refl refl) (finishHeaders_lastClientId _ _ _) fun sid => ?_
    -- The block under way held the claim that its request takes over.
    refine le_trans (granted_finishHeaders (by rfl) _ _ sid) ?_
    simp only [ReaderState.claims, he, true_and, hs, and_comm]
    exact le_refl _
  rw [hb]
  exact ho.settle hi (.refl refl) rfl fun sid => le_of_eq (granted_routine (routine_idle _) sid)

theorem Mux.Orderly.onData (ho : mux.Orderly) (hi : mux.program = [])
    (hs : mux.reader.expectingContinuation = false) : (mux.settle (onData mux.reader mux.shared f).1
      (onData mux.reader mux.shared f).2).Orderly := by
  rcases onData_cases mux.reader mux.shared f with
    ⟨err, hr, _⟩ | ⟨stream, next, hf, ha, ⟨c, hb⟩ | ⟨d, _, ht⟩⟩
  · rw [hr]
    exact ho.settle hi (.refl refl) rfl
      (fun sid => le_of_eq (granted_routine (routine_fail _ err) sid))
  · rw [hb]
    refine ho.accept hi hf (.inl rfl) ha rfl fun sid => ?_
    rw [granted_routine (routine_fail _ _), claims_of_settled hs]
    exact zero_le _
  rw [ht]
  exact ho.accept hi hf (.inl rfl) ha (takeData_lastClientId ..) (granted_takeData hs f _ d)

theorem Mux.Orderly.receive (ho : mux.Orderly) (hi : mux.program = []) :
    (receive mux f).Orderly := by
  refine @takeFrame_rule mux f (fun res => (mux.settle res.1 res.2).Orderly) ?_
    (fun _ => ho.onHeaders hi) (fun _ => ho.onContinuation hi) (fun _ => ho.onData hi) ?_
  · exact fun c => ho.settle hi (.refl refl) rfl
      (fun sid => le_of_eq (granted_routine (routine_fail _ _) sid))
  · exact fun res hs _ _ _ _ => ho.settle hi (lenient_tamed.settles hs) rfl
      (fun sid => le_of_eq (granted_routine hs.routine sid))

end Receive

theorem openRequest_claims (cfg : Config) (reader : ReaderState) (oc : Bool) (sid : Nat)
    (hdrs : HeaderList) (es : Bool) (id : Nat) :
    let res := reader.openRequest cfg oc sid hdrs es
    res.1.claims id = reader.claims id ∧ (res.1.after res.2).1.countP (ReaderOp.claims id) ≤
      if (ReaderOp.capCheck sid hdrs es).claims id then 1 else 0 := by
  unfold openRequest
  dsimp only
  split
  · exact ⟨rfl, by simp [after, ReaderOp.claims]⟩
  split
  · refine ⟨rfl, ?_⟩
    rw [(routine_fail _ _).countP]
    exact zero_le _
  split
  next ended =>
    refine ⟨rfl, ?_⟩
    unfold deliver
    split
    · rw [(routine_fail _ _).countP]
      exact zero_le _
    · simp [after, ReaderOp.claims, countP_singleton, ended]
  next => exact ⟨rfl, by simp [after]⟩

theorem Mux.Orderly.run {mux : Mux} {op : ReaderOp} {rest : List ReaderOp} (ho : mux.Orderly)
    (hn : mux.program = op :: rest) (cfg : Config) : (op.run cfg mux rest).Orderly := by
  unfold Mux.Orderly
  rw [(op.run_keeps cfg mux rest).2]
  refine Disciplined.evolve ho (lenient_tamed.run cfg mux rest op) fun sid => ?_
  have hb : mux.claims sid = mux.reader.claims sid +
      (rest.countP (ReaderOp.claims sid) + if op.claims sid then 1 else 0) +
      mux.handlers.countP (HandlerTask.claims sid) := by
    rw [Mux.claims, hn, countP_cons]
  rw [hb]
  cases op with
  | capCheck id hdrs es =>
    have hop := openRequest_claims cfg mux.reader mux.shared.overCap id hdrs es sid
    simp only [ReaderOp.run, Mux.claims, countP_append]
    omega
  | spawn id req b =>
    simp only [ReaderOp.run, Mux.claims, countP_append, countP_singleton,
      HandlerTask.claims, ReaderOp.claims]
    simp
    omega
  | resetLocal id c =>
    simp only [ReaderOp.run, Mux.claims, countP_append]
    split <;> simp [ReaderOp.claims]
  | pushCtrl bs | failStream id c | setDone | teardown =>
    simp [ReaderOp.run, Mux.claims, ReaderOp.claims]

/-- The response that a task holds ends its stream once. -/
def HandlerPhase.Sound : HandlerPhase → Prop
  | .buffered frames => endings frames ≤ 1
  | _ => True

theorem Orderly.answer {f : Nat} (ho : Orderly cl b) (hre : a.reset = b.reset)
    (hs : a.state = b.state) (hl : f + 1 ≤ cl)
    (hon : b.reset = false → endings b.outbox = 0 → endings a.outbox ≤ 1) : Orderly f a := by
  have hb := ho.single
  refine ⟨?_, hs ▸ ho.begun, hs ▸ ho.unanswered, ?_, ?_⟩
  · rw [hre, hs]
    exact ho.reset
  · rw [hre]
    intro hr
    have old := hb hr
    have new := hon hr (by omega)
    omega
  rw [hre, hs]
  intro hr _
  exact ho.ended hr (by omega)

/-- What a section of a handler does: it answers with its last frame, or leaves the streams as they
are and claims no more than before. -/
def HandlerTask.Proceeds (task : HandlerTask) (shared : Shared)
    (result : Shared × Option HandlerPhase) : Prop :=
  (Shared.Evolves Tamed shared result.1 ∧
    ∀ phase, result.2 = some phase → phase.Sound ∧ (phase ≠ .finishing → task.phase ≠ .finishing)) ∨
  (task.phase ≠ .finishing ∧ result.2 = some .finishing ∧
    ∃ change : MuxStream → MuxStream,
      Shared.Evolves Tamed (shared.modify task.sid change) result.1 ∧
      ∀ stream, (change stream).reset = stream.reset ∧ (change stream).state = stream.state ∧
        (stream.reset = false → endings stream.outbox = 0 → endings (change stream).outbox ≤ 1))

theorem endings_responseToFrames (p : ResponseParts) (b : Octets) :
    endings (responseToFrames p b) = 1 := by
  unfold responseToFrames
  split <;> simp [endings, OutFrame.endsStream]

theorem HandlerTask.step_proceeds (cfg : Config) (s : Shared) (t : HandlerTask)
    (ev : HandlerEvent) (hs : t.phase.Sound) : t.Proceeds s (t.step cfg s ev) := by
  have hru := t.step_runs cfg s ev
  generalize t.step cfg s ev = res at hru ⊢
  cases hru with
  | move hm =>
    refine .inl ⟨.refl refl, ?_⟩
    rintro _ ⟨⟩
    generalize t.phase = p at hs hm
    cases hm with
    | respondBytes pr b =>
      exact ⟨le_of_eq (endings_responseToFrames pr b), fun _ => nofun⟩
    | ignore => exact ⟨hs, fun hc => hc⟩
    | respondStream | start | refused | skip | produce | fail | close | stopped | park | resume =>
      exact ⟨trivial, fun _ => nofun⟩
  | @fill f stream p hf hr =>
    rw [p] at hs
    exact .inr ⟨by simp [p], rfl, _, lenient_tamed.markReady _ _,
      fun _ => ⟨rfl, rfl, fun _ _ => hs⟩⟩
  | drop =>
    refine .inl ⟨lenient_tamed.markReady _ _, ?_⟩
    rintro _ ⟨⟩
    exact ⟨trivial, fun hc => absurd rfl hc⟩
  | push hp =>
    generalize hb : t.phase = p at hp
    cases hp with
    | head fs | chunk bs =>
      refine .inl ⟨pushOut _ _ rfl, ?_⟩
      rintro _ ⟨⟩
      split <;> exact ⟨trivial, fun _ => by simp [hb]⟩
    | last =>
      unfold Shared.pushOut
      have hd : t.Proceeds s (s, some .finishing) := by
        refine .inl ⟨.refl refl, ?_⟩
        rintro _ ⟨⟩
        exact ⟨trivial, fun hc => absurd rfl hc⟩
      split
      · exact hd
      split
      · exact hd
      refine .inr ⟨by simp [hb], rfl, _, lenient_tamed.markReady _ _, fun stream => ?_⟩
      refine ⟨rfl, rfl, fun _ hn => ?_⟩
      unfold endings at hn ⊢
      simp [hn, OutFrame.endsStream]
  | wake p =>
    refine .inl ⟨.modify refl (lenient_tamed.wake false), ?_⟩
    rintro _ ⟨⟩
    exact ⟨trivial, fun _ => by simp [p]⟩
  | reset p =>
    refine .inl ⟨lenient_tamed.resetLocal _ _, ?_⟩
    rintro _ ⟨⟩
    split <;> exact ⟨trivial, fun _ => by simp [p]⟩
  | report p =>
    refine .inl ⟨.of_eq refl rfl, ?_⟩
    rintro _ ⟨⟩
    exact ⟨trivial, fun _ => by simp [p]⟩
  | finish p => exact .inl ⟨.of_eq refl rfl, nofun⟩

theorem countP_set_add {Item : Type} (t : Item → Bool) {xs : List Item} {i : Nat}
    {old : Item} (hf : xs[i]? = some old) (new : Item) :
    (xs.set i new).countP t + (if t old then 1 else 0) = xs.countP t + if t new then 1 else 0 := by
  obtain ⟨hb, rfl⟩ := List.getElem?_eq_some_iff.mp hf
  rw [List.countP_set hb]
  have some : (if t xs[i] then 1 else 0) ≤ xs.countP t := by
    split
    next passes => exact List.countP_pos_iff.mpr ⟨_, List.getElem_mem hb, passes⟩
    next => exact zero_le _
  omega

def Mux.proceed (mux : Mux) (index : Nat) (task : HandlerTask)
    (result : Shared × Option HandlerPhase) : Mux :=
  { mux with
    shared := result.1
    handlers := match result.2 with
      | none => mux.handlers.eraseIdx index
      | some phase => mux.handlers.set index { task with phase := phase } }

theorem Mux.Orderly.proceed {mux : Mux} {i : Nat} {t : HandlerTask}
    {res : Shared × Option HandlerPhase} (ho : mux.Orderly) (hf : mux.handlers[i]? = some t)
    (hpr : t.Proceeds mux.shared res) : (mux.proceed i t res).Orderly := by
  unfold Mux.Orderly Mux.proceed Mux.claims
  rcases hpr with ⟨he, hp⟩ | ⟨hcs, hfi, c, he, ha⟩
  · refine Disciplined.evolve ho he (fun sid => Nat.add_le_add_left ?_ _)
    rcases res with ⟨s, _ | p⟩
    · exact (eraseIdx_sublist mux.handlers i).countP_le
    have hc := countP_set_add (HandlerTask.claims sid) hf { t with phase := p }
    have hk : HandlerTask.claims sid { t with phase := p } = true →
        HandlerTask.claims sid t = true := by
      simp only [HandlerTask.claims, Bool.and_eq_true, decide_eq_true_eq]
      exact fun hcl => ⟨hcl.1, (hp p rfl).2 hcl.2⟩
    dsimp only
    split at hc
    · split at hc <;> omega
    next unclaimed =>
      rw [if_neg fun hcl => unclaimed (hk hcl)] at hc
      omega
  rcases res with ⟨s, p⟩
  cases hfi
  -- The task holds a claim of its own stream and gives it up.
  have hc (sid : Nat) : (mux.handlers.set i { t with phase := .finishing }).countP
          (HandlerTask.claims sid) + (if t.sid = sid then 1 else 0) =
        mux.handlers.countP (HandlerTask.claims sid) := by
    have hco := countP_set_add (HandlerTask.claims sid) hf { t with phase := .finishing }
    simpa [HandlerTask.claims, hcs] using hco
  have own := hc t.sid
  rw [if_pos rfl] at own
  refine Disciplined.evolve (Disciplined.change ho (get?_modify _ _ c) ?_ ?_ ?_) he
    (fun sid => Nat.le_refl _)
  · intro sid hd
    have hot := hc sid
    unfold Mux.claims
    dsimp only
    omega
  · intro stream ht
    obtain ⟨hr, hs, hon⟩ := ha stream
    refine (Disciplined.streams ho t.sid stream ht).answer hr hs ?_ hon
    unfold Mux.claims
    dsimp only
    omega
  intro some
  apply Disciplined.claimed ho
  unfold Mux.claims
  omega

theorem endings_cons (fr : OutFrame) (rest : List OutFrame) :
    endings (fr :: rest) = endings rest + if fr.endsStream then 1 else 0 :=
  countP_cons

theorem Orderly.last (ho : Orderly cl b)
    (hr : b.reset = false) (he : endings b.outbox = endings a.outbox + 1)
    (hs : a.state = b.state.ended) : Orderly cl a := by
  have hsi := ho.single hr
  have hre := ho.ended hr (by omega)
  have hc : a.state = .closed := by
    rw [hs, hre]
    rfl
  exact ⟨fun _ => hc, by simp [hc], by simp [hc], fun _ => by omega, fun _ => by omega⟩

theorem Orderly.sentHeaders {fs : HeaderList} {rest : List OutFrame}
    (ho : Orderly cl stream) (hr : stream.reset = false)
    (hou : stream.outbox = .headers fs es :: rest) : Orderly cl (stream.sentHeaders es) := by
  have hc := endings_cons (.headers fs es) rest
  rw [← hou] at hc
  have hp : (stream.sentHeaders es).outbox = rest := by
    simp [MuxStream.sentHeaders, hou]
  cases es with
  | true => exact ho.last hr (by rw [hp]; exact hc) rfl
  | false =>
    refine ho.tamed (.inr ⟨rfl, rfl, ?_⟩) (le_refl _)
    rw [hp, hc]
    exact le_refl _

theorem Orderly.sentData {bs : Octets} {off c : Nat} {rest : List OutFrame}
    (cfg : Config) (ho : Orderly cl stream) (hr : stream.reset = false)
    (o : stream.outbox = .data bs off es :: rest) :
    Orderly cl (stream.sentData cfg c bs off es) := by
  have hc := endings_cons (.data bs off es) rest
  rw [← o] at hc
  by_cases hl : c = bs.length - off
  · have hp : (stream.sentData cfg c bs off es).outbox = rest := by
      simp [MuxStream.sentData, o, hl]
    cases es with
    | true =>
      refine ho.last hr (by rw [hp]; exact hc) ?_
      simp [MuxStream.sentData, hl]
    | false =>
      refine ho.tamed (.inr ⟨rfl, by simp [MuxStream.sentData], ?_⟩) (le_refl _)
      rw [hp, hc]
      exact le_refl _
  refine ho.tamed (.inr ⟨rfl, by simp [MuxStream.sentData, hl], ?_⟩) (le_refl _)
  have hk : (stream.sentData cfg c bs off es).outbox = .data bs (off + c) es :: rest := by
    simp [MuxStream.sentData, hl, o]
  rw [hk, o, endings_cons, endings_cons]
  exact le_refl _

theorem Disciplined.writing (cl : Nat → Nat) (l : Nat) (cfg : Config) :
    Writing cfg (fun s _ => Disciplined cl l s) := by
  have he {s next : Shared} (hd : Disciplined cl l s)
      (hev : Shared.Evolves Tamed s next) : Disciplined cl l next :=
    hd.evolve hev fun _ => le_refl _
  refine ⟨fun hk => he hk (.of_eq refl rfl), fun _ hk => he hk (.of_eq refl rfl),
    fun _ hk => he hk (.modify refl fun _ => .same rfl rfl rfl), ?_, ?_,
    fun _ hk => he hk (.leave _ _ (fun _ _ => .same rfl rfl rfl) refl)⟩
  · intro s _ id stream fs es rest hf hr ho hk
    refine hk.change (sendHeaders_get? s id fs es) (fun _ _ => le_refl _)
      (fun o ht => ?_) fun _ => hk.known id stream hf
    cases hf.symm.trans ht
    exact (hk.streams id stream hf).sentHeaders hr ho
  intro s _ id stream bs off es rest c hf hr ho _ hk
  refine hk.change (sendData_get? cfg s id c bs off es)
    (fun _ _ => le_refl _) (fun o ht => ?_) fun _ => hk.known id stream hf
  cases hf.symm.trans ht
  exact (hk.streams id stream hf).sentData cfg hr ho

structure Mux.Steady (mux : Mux) : Prop where
  orderly : mux.Orderly
  sound : ∀ task ∈ mux.handlers, task.phase.Sound

namespace Mux.Steady

variable {mux : Mux}

theorem settled (hs : mux.Steady) {next : Mux} (ho : next.Orderly)
    (hh : next.handlers = mux.handlers) : next.Steady :=
  ⟨ho, hh ▸ hs.sound⟩

theorem run (hs : mux.Steady) {op : ReaderOp} {rest : List ReaderOp} (cfg : Config)
    (hn : mux.program = op :: rest) : (op.run cfg mux rest).Steady := by
  refine ⟨hs.orderly.run hn cfg, ?_⟩
  cases op with
  | spawn sid req b =>
    intro t hi
    rcases mem_append.mp hi with hb | new
    · exact hs.sound t hb
    · rw [mem_singleton.mp new]
      trivial
  | pushCtrl | capCheck | resetLocal | failStream | setDone | teardown => exact hs.sound

theorem handler (hs : mux.Steady) (cfg : Config) {i : Nat} {t : HandlerTask}
    (hf : mux.handlers[i]? = some t) (ev : HandlerEvent) :
    (mux.proceed i t (t.step cfg mux.shared ev)).Steady := by
  have hm := mem_of_getElem? hf
  have hp := t.step_proceeds cfg mux.shared ev (hs.sound t hm)
  refine ⟨hs.orderly.proceed hf hp, ?_⟩
  generalize t.step cfg mux.shared ev = result at hp
  rcases result with ⟨s, _ | p⟩
  · exact fun o hi =>
      hs.sound o ((eraseIdx_sublist mux.handlers i).subset hi)
  intro o hi
  rcases mem_or_eq_of_mem_set hi with hb | new
  · exact hs.sound o hb
  subst new
  rcases hp with ⟨_, hph⟩ | ⟨_, hfi, _⟩
  · exact (hph p rfl).1
  · cases hfi
    trivial

theorem step (hs : mux.Steady) (cfg : Config) (act : Action) : (step cfg mux act).1.Steady := by
  cases act with
  | frame frame =>
    simp only [Http2.step]
    split
    next ready => exact hs.settled (hs.orderly.receive ready.2) rfl
    next => exact hs
  | eof =>
    simp only [Http2.step]
    split
    next ready =>
      refine hs.settled (Disciplined.evolve hs.orderly (.refl refl) ?_) rfl
      intro sid
      simp [Mux.claims, ready.2, ReaderOp.claims]
    next => exact hs
  | reader =>
    simp only [Http2.step]
    split
    · exact hs
    next op rest next => exact hs.run cfg next
  | handler i ev =>
    simp only [Http2.step]
    split
    · exact hs
    next task found => exact hs.handler cfg found ev
  | writer =>
    obtain ⟨w, hba, hst⟩ := step_writer cfg mux
    have hb := (Disciplined.writing _ _ cfg).buildBatch hs.orderly
    rw [← hba] at hb
    rw [hst]
    exact hs.settled hb rfl

theorem start : Mux.start.Steady where
  orderly := by
    refine ⟨?_, ?_, fun sid hs => ?_⟩
    · intro sid stream hf
      exact absurd hf (by simp [Mux.start, pushCtrl, new])
    · intro sid stream hf
      exact absurd hf (by simp [Mux.start, pushCtrl, new])
    · simp [Mux.claims, Mux.start, ReaderState.claims] at hs
  sound := nofun

theorem reachable (cfg : Config) (acts : List Action) :
    ((connection cfg).final Mux.start acts).Steady :=
  Machine.invariant_always (fun _ act hs => hs.step cfg act) start acts

end Mux.Steady

/-- In every state a stream that was not reset is being answered, or has its last frame to write, at
most once, and then its client has ended it. -/
theorem answered_once (config : Config) (actions : List Action) (sid : Nat) :
    let mux := (connection config).final Mux.start actions
    (mux.shared.streams.get? sid).all fun stream =>
      stream.reset ∨ mux.claims sid + endings stream.outbox = 0 ∨
        mux.claims sid + endings stream.outbox = 1 ∧ stream.state = .halfClosedRemote := by
  intro mux
  rw [Option.all_eq_true]
  intro stream hf
  have ho := (Mux.Steady.reachable config actions).orderly.streams sid stream hf
  rw [decide_eq_true_eq]
  cases hr : stream.reset with
  | true => exact .inl rfl
  | false =>
    rcases Nat.le_one_iff_eq_zero_or_eq_one.mp (ho.single hr) with hz | h1
    · exact .inr (.inl hz)
    · exact .inr (.inr ⟨h1, ho.ended hr (h1 ▸ Nat.one_pos)⟩)

/-- What lies beyond the last id seen, the one a GOAWAY carries, has no state and no handler: the
client may send it again. -/
theorem goaway_covers (config : Config) (actions : List Action) (sid : Nat) :
    let mux := (connection config).final Mux.start actions
    sid ≤ mux.reader.lastClientId ∨ mux.shared.streams.get? sid = none ∧ mux.claims sid = 0 := by
  intro mux
  have ho := (Mux.Steady.reachable config actions).orderly
  rw [or_iff_not_imp_left]
  intro hb
  refine ⟨Option.eq_none_iff_forall_ne_some.mpr fun stream hf => hb (ho.known sid stream hf), ?_⟩
  exact Nat.eq_zero_of_not_pos fun hp => hb (ho.claimed sid hp)

end BoatRamp.Http2
