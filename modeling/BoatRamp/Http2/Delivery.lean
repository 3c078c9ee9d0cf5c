import BoatRamp.Http2.Transcript

/-!
# Delivery of requests

A request is handed over as the transcript of the connection has it: once, when
its client has ended it and nothing went wrong with its stream.
-/

namespace BoatRamp.Http2

open Library Http Transcript List Mux SortedMap Option

theorem Shaped.tail {op : ReaderOp} {rest : List ReaderOp} (hs : Shaped (op :: rest)) :
    Shaped rest := by
  rcases hs with hr | ⟨p, l, hp, hpl⟩
  · exact .inl fun o hi => hr o (mem_cons_of_mem _ hi)
  cases p with
  | nil =>
    cases hp
    exact .inl nofun
  | cons ps p =>
    cases hp
    exact .inr ⟨p, l, rfl, fun o hi =>
      hpl o (mem_cons_of_mem _ hi)⟩

theorem Shaped.routine_tail {op : ReaderOp} {rest : List ReaderOp} (hs : Shaped (op :: rest))
    (ho : ∀ bs, op ≠ .pushCtrl bs) : Routine rest := by
  rcases hs with hr | ⟨p, l, hp, hpl⟩
  · exact fun x hi => hr x (mem_cons_of_mem _ hi)
  cases p with
  | nil =>
    cases hp
    exact nofun
  | cons ps p =>
    cases hp
    obtain ⟨bs, hsa⟩ := hpl op mem_cons_self
    exact absurd hsa (ho bs)

theorem Shaped.last {op : ReaderOp} {rest : List ReaderOp} (hs : Shaped (op :: rest))
    (ho : op.routine = false) : rest = [] := by
  rcases hs with hr | ⟨p, l, hp, hpl⟩
  · exact absurd (hr op mem_cons_self) (by simp [ho])
  cases p with
  | nil =>
    cases hp
    rfl
  | cons ps p =>
    cases hp
    obtain ⟨bs, rfl⟩ := hpl op mem_cons_self
    cases ho

theorem requestFromHeaders_error {au : Octets → Bool} {sid : Nat} {hdrs : HeaderList}
    {err : H2Error} (hf : requestFromHeaders au sid hdrs = .error err) :
    err = .stream sid .protocolError := by
  unfold requestFromHeaders at hf
  split at hf
  · exact (Except.error.inj hf).symm
  split at hf
  · exact (Except.error.inj hf).symm
  · cases hf

namespace Mux.Delivers

variable {cfg : Config} {tr next : Transcript} {mux af : Mux} {op : ReaderOp}
  {rest : List ReaderOp}

/-- A step that leaves the reader alone and opens no stream, and before which at most a section
that decides nothing has run. -/
theorem proceed (hd : mux.Delivers cfg tr) (hr : af.reader = mux.reader)
    (hli : af.listening = mux.listening) (ha : af.program = mux.program ∨
      ∃ op, mux.program = op :: af.program ∧ ∀ sid, op.decides sid = false)
    (ho : ∀ sid st, af.shared.streams.get? sid = some st → st.state = .opened →
      ∃ b, mux.shared.streams.get? sid = some b ∧ b.state = .opened) :
    af.Delivers cfg tr := by
  have hf (x : ReaderOp) (hi : x ∈ af.program) : x ∈ mux.program := by
    rcases ha with hsa | ⟨op, hp, _⟩
    · exact hsa ▸ hi
    · rw [hp]
      exact mem_cons_of_mem _ hi
  refine ⟨fun hl sid => ⟨?_, ?_⟩, ?_, ?_, ?_, ?_, ?_⟩
  · rw [hr]
    exact (hd.streams (hli ▸ hl) sid).unopened
  · intro st hfo hs
    obtain ⟨b, ht, was⟩ := ho sid st hfo hs
    rw [hr]
    refine ((hd.streams (hli ▸ hl) sid).opened b ht was).imp_right (Or.imp_right ?_)
    rintro ⟨x, hi, hde⟩
    refine ⟨x, ?_, hde⟩
    rcases ha with hsa | ⟨op, hp, hsi⟩
    · exact hsa ▸ hi
    rw [hp] at hi
    rcases mem_cons.mp hi with rfl | hla
    · simp [hsi] at hde
    · exact hla
  · intro hl he
    rw [hr] at he ⊢
    obtain ⟨hid, hu⟩ := hd.underway (hli ▸ hl) he
    refine ⟨?_, hu⟩
    rcases ha with hsa | ⟨op, hp, _⟩
    · exact hsa.trans hid
    · simp [hp] at hid
  · intro sid hdrs es hi
    rw [hli, hr]
    exact hd.opening sid hdrs es (hf _ hi)
  · intro sid req bd hi
    exact hd.handing sid req bd (hf _ hi)
  · intro hl x hi
    rw [hr]
    exact hd.failing (hli ▸ hl) x (hf _ hi)
  rcases ha with hsa | ⟨op, hp, _⟩
  · exact hsa ▸ hd.shaped
  · exact Shaped.tail (hp ▸ hd.shaped)

theorem decide (hd : mux.Delivers cfg tr) (hp : mux.program = op :: rest)
    (sid : Nat) (p : List ReaderOp) (hab : ∀ o, op.decides o = true → o = sid)
    {s : Shared} {hnd : List HandlerTask} (hev : Shared.Evolves Tamed mux.shared s)
    (hc : ∀ st, s.streams.get? sid = some st → st.state ≠ .opened)
    (hpl : ∀ ps ∈ p, ∃ bs, ps = ReaderOp.pushCtrl bs) (hro : Routine rest)
    (hs : ∀ o, o ≠ sid → tr.SameAt next o) (hea : ∀ o, tr.early o = true → next.early o = true)
    (hhe : mux.listening = true → sid ≤ mux.reader.lastClientId ∨ tr.SameAt next sid) :
    ({ mux with shared := s, program := p ++ rest, handlers := hnd } : Mux).Delivers cfg next := by
  have ha : Routine (p ++ rest) := by
    intro x hi
    rcases mem_append.mp hi with ps | hl
    · obtain ⟨bs, rfl⟩ := hpl x ps
      rfl
    · exact hro x hl
  refine ⟨fun hli o => ?_, ?_, ?_, ?_, ?_, .inl ha⟩
  · have ht := hd.streams hli o
    by_cases hh : o = sid
    · subst hh
      refine ⟨fun hl => ?_, fun st hf ho => absurd ho (hc st hf)⟩
      rcases hhe hli with hk | hke
      · exact absurd hk (Nat.not_le_of_lt hl)
      · exact (ht.unopened hl).congr hke (.refl _ _)
    refine ⟨fun hl => (ht.unopened hl).congr (hs o hh) (.refl _ _), ?_⟩
    intro st hf ho
    obtain ⟨b, hth, was⟩ := hev.opened st hf ho
    rcases ht.opened b hth was with hw | he | ⟨x, hi, hde⟩
    · exact .inl (hw.congr (hs o hh) (.refl _ _))
    · exact .inr (.inl he)
    rw [hp] at hi
    rcases mem_cons.mp hi with rfl | hl
    · exact absurd (hab o hde) hh
    · exact .inr (.inr ⟨x, mem_append_right _ hl, hde⟩)
  · intro hli he
    have hid := (hd.underway hli he).1
    simp [hp] at hid
  · intro _ _ _ hi
    exact absurd (ha _ hi) (by simp [ReaderOp.routine])
  · intro _ _ _ hi
    exact absurd (ha _ hi) (by simp [ReaderOp.routine])
  intro hli x hi id hr
  rcases mem_append.mp hi with ps | hl
  · obtain ⟨bs, rfl⟩ := hpl x ps
    cases hr
  refine (hd.failing hli x ?_ id hr).imp_right (hea id)
  rw [hp]
  exact mem_cons_of_mem _ hl

theorem openRequest {sid : Nat} {hdrs : HeaderList} {es : Bool}
    (hde : mux.Delivers cfg tr) (hor : mux.Orderly) (hpr : mux.program = [.capCheck sid hdrs es]) :
    (mux.settle mux.shared (mux.reader.openRequest cfg mux.shared.overCap sid hdrs
      es)).Delivers cfg tr := by
  obtain ⟨l, ho, hk⟩ := hde.opening sid hdrs es (by simp [hpr])
  have hs : mux.reader.expectingContinuation = false := by
    by_contra he
    have hid := (hde.underway l (by simpa using he)).1
    simp [hpr] at hid
  have hot (o : Nat) (hd : o ≠ sid) :
      (mux.settle mux.shared (mux.reader, .proceed [])).Tracks cfg tr o := by
    have ht := hde.streams l o
    refine ⟨ht.unopened, fun st hf hop => ?_⟩
    rcases ht.opened st hf hop with hw | he | ⟨op, hi, hds⟩
    · exact .inl hw
    · exact .inr (.inl he)
    rw [hpr, mem_singleton] at hi
    subst hi
    simp [ReaderOp.decides, hd.symm] at hds
  have hp : ∀ p ∈ ([] : List ReaderOp), ∃ bs, p = .pushCtrl bs := by simp
  unfold ReaderState.openRequest
  split
  · refine settle_ahead hs hk hot (fun o hd => ?_) rfl hs hp rfl ?_
      rfl
    · refine ⟨rfl, ?_, ?_⟩
      · simp [ReaderState.bodyOf, get?_erase_of_ne _ hd]
      · simp [ReaderState.declared, get?_erase_of_ne _ hd]
    · exact .decided hk (mem_singleton.mpr rfl) (by simp [ReaderOp.decides])
  split
  next err malformed =>
    rw [requestFromHeaders_error malformed]
    exact fail hs hk hot (fun _ _ => .refl _ _) rfl hs hp rfl
  next req hpa =>
  have hr : tr.Requests sid cfg req :=
    fun hti => ⟨hdrs, ho.headers hti, hpa⟩
  have hdd (o : Nat) (hd : o ≠ sid) : (mux.reader.contentLen.insert sid req.contentLength).get? o =
        mux.reader.contentLen.get? o := get?_insert_of_ne _ _ hd
  dsimp only
  split
  next ended =>
    have hke (o : Nat) (hd : o ≠ sid) : mux.reader.SameAt { mux.reader with
        contentLen := mux.reader.contentLen.insert sid req.contentLength
        bodies := mux.reader.bodies.erase sid } o := by
      refine ⟨rfl, ?_, ?_⟩
      · simp [ReaderState.bodyOf, get?_erase_of_ne _ hd]
      · simp only [ReaderState.declared, hdd o hd]
    unfold deliver
    split
    · exact fail hs hk hot hke rfl hs hp rfl
    refine hand hs hk hot hke rfl hs hp rfl (fun st hf => ?_)
      ⟨ho.toClean, ho.ended ended, ho.body.trans ho.data.symm, hr⟩
    -- A block that ends its stream holds the claim to answer it.
    have hc : 0 < mux.claims sid := by
      simp [claims, hpr, ReaderOp.claims, ended]
    exact (Disciplined.streams hor sid st hf).not_opened hc
  have hke (o : Nat) (hd : o ≠ sid) : mux.reader.SameAt { mux.reader with
      contentLen := mux.reader.contentLen.insert sid req.contentLength
      requests := mux.reader.requests.insert sid req } o := by
    refine ⟨get?_insert_of_ne _ _ hd, rfl, ?_⟩
    simp only [ReaderState.declared, hdd o hd]
  refine resting rfl (fun _ o => ?_) ?_
  · by_cases hh : o = sid
    · subst hh
      refine ⟨fun hl => absurd hk (Nat.not_le_of_lt hl), fun _ _ _ => .inl ?_⟩
      refine ⟨ho.toClean, ho.body.trans ho.data.symm, req, ?_, hr, ?_⟩
      · simp [settle]
      · simp [settle, ReaderState.declared]
    · refine tracks_others hs hot hke ?_ hh
      rfl
  · intro _ he
    exact absurd he (by simp [settle, hs])

theorem resets_closed (ho : mux.Orderly) (sid : Nat) (st : MuxStream)
    (hf : (mux.shared.resetLocal sid).1.streams.get? sid = some st) : st.state ≠ .opened := by
  unfold Shared.resetLocal at hf
  split at hf
  next none => simp [none] at hf
  next b ht =>
  split at hf
  next hr =>
    have hc := (Disciplined.streams ho sid b ht).reset hr
    cases ht.symm.trans hf
    simp [hc]
  simp only [Shared.get?_modify, if_true, ht, map_some, some.injEq] at hf
  subst hf
  simp

theorem run (hd : mux.Delivers cfg tr) (ho : mux.Orderly) (hp : mux.program = op :: rest) :
    (op.run cfg mux rest).Delivers cfg (tr.run op) := by
  have hs : Shaped (op :: rest) := hp ▸ hd.shaped
  have he := lenient_tamed.run cfg mux rest op
  have ha (sid : Nat) (hr : op.resets = some sid) (l : mux.listening = true) :
      sid ≤ mux.reader.lastClientId ∨ tr.SameAt (tr.abort sid) sid := by
    refine (hd.failing l op (by simp [hp]) sid hr).imp_right ?_
    intro hea
    exact ⟨fun ht => ht, fun ht => absurd ht (by simp [abort, hea]),
      rfl, fun _ => rfl, rfl⟩
  cases op with
  | pushCtrl | setDone | teardown =>
    exact hd.proceed rfl rfl (.inr ⟨_, hp, fun _ => rfl⟩) fun sid st => he.opened st
  | capCheck sid hdrs es =>
    cases hs.last rfl
    have hop := hd.openRequest ho hp
    simpa only [ReaderOp.run, run, settle, append_nil] using hop
  | spawn sid req bd =>
    have hc : 0 < mux.claims sid := by
      simp [claims, hp, ReaderOp.claims]
    refine hd.decide hp sid [] ?_ he ?_ ?_ (hs.routine_tail (by simp))
      (fun o hdi => ?_) (fun _ => id) fun _ => ?_
    · intro o hde
      cases hde
    · intro st hf
      exact (Disciplined.streams ho sid st hf).not_opened hc
    · intro p hi
      cases hi
    · exact ⟨id, fun _ => rfl, by simp [run, hdi], fun _ => rfl, rfl⟩
    · exact .inl (Disciplined.claimed ho sid hc)
  | failStream sid c =>
    refine hd.decide hp sid [.pushCtrl (rstStream sid c)] ?_ he ?_ ?_
      (hs.routine_tail (by simp)) (fun o => tr.abort_sameAt) (fun _ => id) (ha sid rfl)
    · intro o hde
      exact (of_decide_eq_true hde).symm
    · intro st hf
      simp only [Shared.abort, Shared.get?_modify, if_true, map_eq_some_iff] at hf
      obtain ⟨b, _, rfl⟩ := hf
      simp
    · intro p hi
      exact ⟨_, mem_singleton.mp hi⟩
  | resetLocal sid c =>
    refine hd.decide hp sid
      (if (mux.shared.resetLocal sid).2 then [.pushCtrl (rstStream sid c)] else []) ?_ he
      (resets_closed ho sid) ?_ (hs.routine_tail (by simp))
      (fun o => tr.abort_sameAt) (fun _ => id) (ha sid rfl)
    · intro o hde
      exact (of_decide_eq_true hde).symm
    intro p hi
    cases hef : (mux.shared.resetLocal sid).2 with
    | true =>
      rw [hef] at hi
      exact ⟨_, mem_singleton.mp hi⟩
    | false =>
      rw [hef] at hi
      cases hi

end Mux.Delivers

def Shuts (before after : MuxStream) : Prop := after.state = .opened → before.state = .opened

theorem Shuts.refl (st : MuxStream) : Shuts st st := id

theorem Shuts.trans {x y t : MuxStream} (he : Shuts x y)
    (hl : Shuts y t) : Shuts x t := fun ho => he (hl ho)

theorem StreamState.ended_ne_opened (s : StreamState) : s.ended ≠ .opened := by
  cases s <;> decide

theorem Shuts.of_tamed {s next : Shared} (he : Shared.Evolves Tamed s next) :
    Shared.Evolves Shuts s next := by
  intro sid st hf
  obtain ⟨b, hth, ht⟩ := he sid st hf
  refine ⟨b, hth, fun ho => ?_⟩
  rcases ht with ⟨_, hc⟩ | ⟨_, hs, _⟩
  · simp [hc] at ho
  · exact hs ▸ ho

namespace Shuts

open Shuts

theorem chain {s m l : Shared} (he : Shared.Evolves Shuts s m)
    (hl : Shared.Evolves Shuts m l) : Shared.Evolves Shuts s l := by
  refine Shared.Evolves.trans ?_ he hl
  exact fun _ _ _ => trans

theorem writing (cn : Config) (start : Shared) :
    Writing cn (fun s _ => Shared.Evolves Shuts start s) := by
  refine ⟨fun hk => chain hk (.of_eq refl rfl), fun _ hk => chain hk (.of_eq refl rfl),
    fun _ hk => chain hk (.modify refl fun _ ho => ho), ?_, ?_,
    fun _ hk => chain hk (.leave _ _ (fun _ _ ho => ho) refl)⟩
  · intro s _ id _ fs es _ _ _ _ hk
    refine chain hk (.change refl (sendHeaders_get? s id fs es) ?_)
    intro st _ ho
    cases es with
    | true => exact absurd ho st.state.ended_ne_opened
    | false => exact ho
  intro s _ id _ bs off es _ c _ _ _ _ hk
  refine chain hk (.change refl (sendData_get? cn s id c bs off es) ?_)
  intro st _ ho
  simp only [MuxStream.sentData] at ho
  split at ho
  · exact absurd ho st.state.ended_ne_opened
  · exact ho

theorem handler {ts : HandlerTask} {s : Shared} {res : Shared × Option HandlerPhase}
    (hp : ts.Proceeds s res) : Shared.Evolves Shuts s res.1 := by
  rcases hp with ⟨he, _⟩ | ⟨_, _, c, he, ha⟩
  · exact of_tamed he
  · refine chain (.modify refl fun st ho => ?_) (of_tamed he)
    exact (ha st).2.1 ▸ ho

end Shuts

namespace Mux.Delivers

variable {cfg : Config} {tr : Transcript} {mux : Mux}

theorem aside (hd : mux.Delivers cfg tr) {s : Shared}
    {hnd : List HandlerTask} (hs : Shared.Evolves Shuts mux.shared s) :
    ({ mux with shared := s, handlers := hnd } : Mux).Delivers cfg tr := by
  refine hd.proceed rfl rfl (.inl rfl) fun sid st hf ho => ?_
  obtain ⟨b, ht, was⟩ := hs sid st hf
  exact ⟨b, ht, was ho⟩

theorem step (hd : mux.Delivers cfg tr) (hs : mux.Steady) (action : Action) :
    (step cfg mux action).1.Delivers cfg (tr.observe mux action) := by
  cases action with
  | frame frame =>
    simp only [Http2.step, observe, takes]
    by_cases hr : mux.listening = true ∧ mux.program = []
    · simp only [if_pos hr]
      exact hd.receive hr.1 hr.2 hs.orderly
    · simp only [if_neg hr]
      exact hd
  | eof =>
    simp only [Http2.step, observe, takes]
    split
    next => exact deaf rfl (by simp [Routine, ReaderOp.routine])
    next => exact hd
  | reader =>
    simp only [Http2.step, observe, takes]
    cases hp : mux.program with
    | nil => exact hd
    | cons op rest => exact hd.run hs.orderly hp
  | handler index event =>
    simp only [Http2.step, observe, takes]
    split
    · exact hd
    next task found =>
      refine hd.aside (Shuts.handler (task.step_proceeds cfg mux.shared event ?_))
      exact hs.sound task (mem_of_getElem? found)
  | writer =>
    obtain ⟨written, hb, hst⟩ := step_writer cfg mux
    have hsh := (Shuts.writing cfg mux.shared).buildBatch (.refl Shuts.refl)
    rw [← hb] at hsh
    rw [hst]
    exact hd.aside hsh

theorem start (cfg : Config) : start.Delivers cfg .start := by
  refine resting rfl (fun _ sid => ⟨fun _ => ?_, fun st hf => ?_⟩) fun _ he => ?_
  · exact ⟨⟨fun _ => rfl, rfl⟩, fun _ => rfl, rfl, rfl, rfl⟩
  · cases hf
  · cases he

end Mux.Delivers

def Mux.hands (mux : Mux) (action : Action) : Option (Nat × Request × Octets) :=
  match action, mux.program with
  | .reader, .spawn sid request body :: _ => some (sid, request, body)
  | _, _ => none

def delivered (config : Config) : Mux → List Action → List (Nat × Request × Octets)
  | _, [] => []
  | mux, action :: rest =>
      (mux.hands action).toList ++ delivered config (step config mux action).1 rest

theorem Mux.hands_eq_some {mux : Mux} {act : Action} {sid : Nat} {req : Request}
    {b : Octets} (hh : mux.hands act = some (sid, req, b)) :
    act = .reader ∧ ∃ rest, mux.program = .spawn sid req b :: rest := by
  unfold hands at hh
  split at hh
  next rest hp =>
    cases hh
    exact ⟨rfl, rest, hp⟩
  · cases hh

theorem Mux.Delivers.hands {c : Config} {transcript : Transcript} {mux : Mux}
    (hd : mux.Delivers c transcript) {act : Action} {sid : Nat} {req : Request} {b : Octets}
    (hh : mux.hands act = some (sid, req, b)) : transcript.Complete sid c req b := by
  obtain ⟨_, rest, hp⟩ := hands_eq_some hh
  exact hd.handing sid req b (by simp [hp])

namespace Transcript

variable {cfg : Config}

theorem delivers_run {transcript : Transcript} {mux : Mux} (acts : List Action)
    (hd : mux.Delivers cfg transcript) (hs : mux.Steady) :
    ((connection cfg).final mux acts).Delivers cfg (transcribe cfg transcript mux acts) := by
  induction acts generalizing transcript mux with
  | nil => exact hd
  | cons act rest ih =>
    exact ih (hd.step hs act) (hs.step cfg act)

theorem delivers_reachable (cfg : Config) (acts : List Action) :
    ((connection cfg).final Mux.start acts).Delivers cfg (transcribe cfg .start Mux.start acts) :=
  delivers_run acts (.start cfg) .start

variable (tr : Transcript)

theorem block_started (h : Hpack) (f : Frame) (fr : Octets) :
    (tr.block h f fr).started = tr.started := by
  unfold block
  split <;> rfl

theorem take_started (rd : ReaderState) (f : Frame) : (tr.take rd f).started = tr.started := by
  unfold take
  split
  · rw [block_started]
    rfl
  · exact block_started ..
  all_goals rfl

theorem observe_started (mux : Mux) (action : Action) (sid : Nat) :
    (tr.observe mux action).started sid =
      ((mux.hands action).any (fun handed => handed.1 = sid) || tr.started sid) := by
  unfold observe hands
  cases action with
  | frame frame =>
    simp only [takes, any_none, Bool.false_or]
    split
    · rw [take_started]
    · rfl
  | reader =>
    simp only [takes]
    cases mux.program with
    | nil => rfl
    | cons op rest =>
      cases op with
      | spawn id request body => simp [run, eq_comm]
      | pushCtrl | capCheck | resetLocal | failStream | setDone | teardown => rfl
  | eof | handler | writer => rfl

theorem delivered_nodup {tr : Transcript} {mux : Mux} (acts : List Action)
    (hd : mux.Delivers cfg tr) (hs : mux.Steady) : ((delivered cfg mux acts).map Prod.fst).Nodup ∧
      ∀ sid ∈ (delivered cfg mux acts).map Prod.fst, tr.started sid = false := by
  induction acts generalizing tr mux with
  | nil => simp [delivered]
  | cons act rest ih =>
    obtain ⟨ho, hl⟩ :=
      ih (hd.step hs act) (hs.step cfg act)
    have hu (sid : Nat) (hi : sid ∈ (delivered cfg (step cfg mux act).1 rest).map Prod.fst) :
        (mux.hands act).any (fun h => h.1 = sid) = false ∧ tr.started sid = false := by
      have hf := hl sid hi
      rw [observe_started, Bool.or_eq_false_iff] at hf
      exact hf
    unfold delivered
    cases h : mux.hands act with
    | none => exact ⟨ho, fun sid hi => (hu sid hi).2⟩
    | some hn =>
      obtain ⟨sid, req, b⟩ := hn
      simp only [toList_some, singleton_append, map_cons, nodup_cons, mem_cons]
      refine ⟨⟨fun ha => ?_, ho⟩, ?_⟩
      · simpa [h] using (hu sid ha).1
      rintro o (rfl | hi)
      · exact (hd.hands h).started
      · exact (hu o hi).2

end Transcript

def ErrsOnOpened (mux : Mux) (action : Action) : Prop :=
  ∀ frame ∈ mux.takes action, dependsOnItself frame = true →
    frame.streamId ≤ mux.reader.lastClientId

instance (mux : Mux) (action : Action) : Decidable (ErrsOnOpened mux action) :=
  inferInstanceAs (Decidable (∀ frame ∈ mux.takes action, _))

namespace Transcript

/-- No stream had an error before it was opened. -/
def Timely (transcript : Transcript) : Prop := ∀ sid, transcript.early sid = false

variable {transcript : Transcript}

section Timely

variable (t : transcript.Timely)

include t

theorem Timely.mark {rd : ReaderState} {f : Frame}
    (ho : dependsOnItself f = true → f.streamId ≤ rd.lastClientId) :
    (transcript.mark rd f).Timely := by
  intro sid
  simp only [Transcript.mark, t sid, Bool.false_or, decide_eq_false_iff_not]
  intro he
  obtain ⟨rfl, hd, hl⟩ := he
  exact Nat.not_le_of_lt hl (ho hd)

theorem Timely.take {rd : ReaderState} {f : Frame}
    (ho : dependsOnItself f = true → f.streamId ≤ rd.lastClientId) :
    (transcript.take rd f).Timely := by
  have hb (b : Transcript) (h : Hpack) (fr : Octets) (hf : b.Timely) : (b.block h f fr).Timely := by
    unfold Transcript.block
    split <;> exact hf
  unfold Transcript.take
  split
  · exact hb _ _ _ (t.mark ho)
  · exact hb _ _ _ t
  · exact t
  · exact t
  · exact t.mark ho
  · exact t

theorem Timely.run (op : ReaderOp) : (transcript.run op).Timely := by
  cases op <;> exact t

theorem Timely.observe {mux : Mux} {act : Action} (ho : ErrsOnOpened mux act) :
    (transcript.observe mux act).Timely := by
  unfold Transcript.observe
  split
  next f taken => exact t.take (ho f taken)
  split
  · exact t.run _
  · exact t

theorem Timely.transcribe {c : Config} {mux : Mux} {acts : List Action}
    (met : (connection c).Meets ErrsOnOpened mux acts) :
    (transcribe c transcript mux acts).Timely := by
  induction acts generalizing transcript mux with
  | nil => exact t
  | cons act rest ih =>
    exact ih (t.observe met.1) met.2

end Timely

structure Hands (transcript : Transcript) (sid : Nat) (request : Request) (body : Octets) :
    Prop where
  ended : transcript.ended sid = true
  aborted : transcript.aborted sid = false
  body : body = transcript.data sid
  headers : ∃ block, transcript.headers sid = some block ∧ Describes block request

end Transcript

/-- Every stream is handed over at most once, when its client has ended it and before anything went
wrong with it, with the data and the first header block that the client sent. -/
theorem requests_delivered (config : Config) (actions : List Action)
    (met : (connection config).Meets ErrsOnOpened Mux.start actions) :
    ((delivered config Mux.start actions).map Prod.fst).Nodup ∧ ∀ action sid request body,
        ((connection config).final Mux.start actions).hands action = some (sid, request, body) →
        (transcribe config .start Mux.start actions).Hands sid request body := by
  refine ⟨(Transcript.delivered_nodup actions (.start config) .start).1, ?_⟩
  intro action sid request body handed
  have hc := (Transcript.delivers_reachable config actions).hands handed
  have hi : Transcript.start.Timely := fun _ => rfl
  have ht := hi.transcribe met sid
  obtain ⟨block, first, ha⟩ := hc.request ht
  exact ⟨hc.ended, hc.aborted ht, hc.body, block, first, requestFromHeaders_describes ha⟩

namespace Revived

def config : Config := ⟨1024, fun _ => true⟩

/-- A stream is made to depend on itself before it is opened; it is reset, and opened later. -/
def actions : List Action :=
  [.frame ⟨.priority, 0, 1, [0, 0, 0, 1, 0]⟩, .reader, .reader,
   .frame ⟨.headers, END_STREAM ||| END_HEADERS, 1, [0x82, 0x84, 0x87]⟩, .reader]

/-- The request of a stream that had an error is handed over. -/
theorem delivered_after_error : ((connection config).final Mux.start actions).hands .reader =
        some (1, ⟨.GET, [0x2F], []⟩, []) ∧
      (transcribe config .start Mux.start actions).aborted 1 = true := by
  decide +kernel

/-- A request whose body comes in two frames, the second of them padded. -/
def upload : List Action :=
  [.frame ⟨.headers, END_HEADERS, 1, [0x83, 0x84, 0x87, 0x41, 0x01, 0x61]⟩, .reader,
   .frame ⟨.data, 0, 1, [0x68]⟩, .reader,
   .frame ⟨.data, PADDED ||| END_STREAM, 1, [1, 0x69, 0]⟩, .reader]

def request : Request :=
  ⟨.POST, ascii "/", [(.HOST, ⟨ascii "a", by decide⟩)]⟩

theorem upload_delivered : (connection config).Meets ErrsOnOpened Mux.start upload ∧
      ((connection config).final Mux.start upload).hands .reader = some (1, request, [0x68, 0x69]) ∧
      (transcribe config .start Mux.start upload).Hands 1 request [0x68, 0x69] := by
  have met : (connection config).Meets ErrsOnOpened Mux.start upload := by decide +kernel
  have hh : ((connection config).final Mux.start upload).hands .reader =
      some (1, request, [0x68, 0x69]) := by decide +kernel
  exact ⟨met, hh, (requests_delivered config upload met).2 _ _ _ _ hh⟩

end Revived

end BoatRamp.Http2
