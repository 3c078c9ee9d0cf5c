import BoatRamp.Http2.Delivery
import BoatRamp.Library.Pool

/-!
# Responses as their handlers produced them

What is written for a stream is the beginning of one response: a header block
with the fields of the answer, then data that is its body.  What was written,
what waits in the outbox and what the task still holds add up to the body that
the handler has produced so far.
-/

namespace BoatRamp.Http2

open Library Http List Shared Transcript OutFrame Concurrent Option Segment

inductive Source where
  | going
  | ended
  | failed
  deriving DecidableEq

/-- What the handler of a stream has produced so far. -/
structure Answer where
  fields : HeaderList
  body : Octets
  source : Source

def Answer.after (answer : Option Answer) : HandlerPhase → HandlerEvent → Option Answer
  | .handling, .respond parts (.bytes body) =>
      some ⟨responseFields parts (if body = [] then none else some body.length), body, .ended⟩
  | .handling, .respond parts .stream => some ⟨responseFields parts none, [], .going⟩
  | .streaming, .chunk bytes =>
      answer.map fun answer => { answer with body := answer.body ++ bytes }
  | .streaming, .ended => answer.map fun answer => { answer with source := .ended }
  | .streaming, .failed => answer.map fun answer => { answer with source := .failed }
  | _, _ => answer

def observeAnswers (answers : Nat → Option Answer) (mux : Mux) (action : Action) :
    Nat → Option Answer :=
  match action with
  | .handler index event =>
      match mux.handlers[index]? with
      | some task => fun sid =>
          if sid = task.sid then Answer.after (answers sid) task.phase event else answers sid
      | none => answers
  | _ => answers

def produced (config : Config) : (Nat → Option Answer) → Mux → List Action → Nat → Option Answer
  | answers, _, [] => answers
  | answers, mux, action :: rest =>
      produced config (observeAnswers answers mux action) (step config mux action).1 rest

def Segment.isOn (sid : Nat) : Segment → Bool
  | .control _ => false
  | .headers id .. | .data id .. => id = sid

def written (config : Config) (sid : Nat) : Mux → List Action → List Segment
  | _, [] => []
  | mux, action :: rest =>
      (step config mux action).2.filter (Segment.isOn sid) ++
        written config sid (step config mux action).1 rest

def dataFrames (sid : Nat) (complete : Bool) : List Octets → List Segment
  | [] => []
  | [last] => [.data sid last complete]
  | piece :: rest => .data sid piece false :: dataFrames sid complete rest

def response (sid : Nat) (answer : Answer) : List Octets → List Segment
  | [] => [.headers sid (answer.source = .ended) (Hpack.encode answer.fields)]
  | piece :: rest =>
      .headers sid false (Hpack.encode answer.fields) ::
        dataFrames sid (answer.source = .ended) (piece :: rest)

/-- How much of a response was written. -/
inductive Progress where
  | unsent
  | going (payload : Octets)
  | ended (payload : Octets)

namespace Progress

def headed : Progress → Bool
  | .unsent => false
  | .going _ | .ended _ => true

def payload : Progress → Octets
  | .unsent => []
  | .going payload | .ended payload => payload

def isEnded : Progress → Bool
  | .ended _ => true
  | .unsent | .going _ => false

/-- No more was written than the handler has produced, and the end only when it was reached. -/
def Within (answer : Answer) : Progress → Prop
  | .unsent => True
  | .going payload => payload <+: answer.body
  | .ended payload => payload = answer.body ∧ answer.source = .ended

end Progress

open Progress (isEnded)

/-- The frames of a stream that were written, with the progress they make. -/
inductive Written (sid : Nat) (fields : HeaderList) : List Segment → Progress → Prop
  | unsent : Written sid fields [] .unsent
  | whole : Written sid fields [.headers sid true (Hpack.encode fields)] (.ended [])
  | head : Written sid fields [.headers sid false (Hpack.encode fields)] (.going [])
  | data {segments : List Segment} {payload : Octets} (bytes : Octets) :
      Written sid fields segments (.going payload) →
      Written sid fields (segments ++ [.data sid bytes false]) (.going (payload ++ bytes))
  | last {segments : List Segment} {payload : Octets} (bytes : Octets) :
      Written sid fields segments (.going payload) →
      Written sid fields (segments ++ [.data sid bytes true]) (.ended (payload ++ bytes))

variable {sg : List Segment} {progress : Progress} {answer : Answer} {ot : List OutFrame}

theorem Written.pieces {sid : Nat} {fs : HeaderList} (written : Written sid fs sg progress)
    {pl : Octets} (going : progress = .going pl) : ∃ ps : List Octets, ps.flatten = pl ∧
      sg = .headers sid false (Hpack.encode fs) :: ps.map (fun pc => .data sid pc false) := by
  induction written generalizing pl with
  | unsent | whole | last => cases going
  | head =>
    cases going
    exact ⟨[], rfl, rfl⟩
  | data bs _ ih =>
    cases going
    obtain ⟨ps, whole, rfl⟩ := ih rfl
    refine ⟨ps ++ [bs], ?_, ?_⟩
    · simp [whole]
    · simp

def OutFrame.payload : OutFrame → Octets
  | .headers .. => []
  | .data bytes off _ => bytes.drop off

def outstanding (outbox : List OutFrame) : Octets := outbox.flatMap OutFrame.payload

/-- The frames go on with a response whose header block was sent or not, and end it or not. -/
inductive Shape (fields : HeaderList) : (headed : Bool) → List OutFrame → (ends : Bool) → Prop
  | nothing (headed : Bool) : Shape fields headed [] false
  | whole : Shape fields false [.headers fields true] true
  | head {rest : List OutFrame} {ends : Bool} : Shape fields true rest ends →
      Shape fields false (.headers fields false :: rest) ends
  | data {bytes : Octets} {off : Nat} {rest : List OutFrame} {ends : Bool} :
      Shape fields true rest ends → Shape fields true (.data bytes off false :: rest) ends
  | last {bytes : Octets} {off : Nat} : Shape fields true [.data bytes off true] true

theorem Shape.push {fs : HeaderList} {h ends : Bool} (hs : Shape fs h ot ends) (hg : ends = false)
    (hb : h = true ∨ ot ≠ []) (bs : Octets) (last : Bool) :
    Shape fs h (ot ++ [.data bs 0 last]) last := by
  induction hs with
  | nothing h =>
    obtain rfl := hb.resolve_right fun hso => hso rfl
    cases last with
    | true => exact .last
    | false => exact .data (.nothing true)
  | whole | last => cases hg
  | head _ ih => exact .head (ih hg (.inl rfl))
  | data _ ih => exact .data (ih hg (.inl rfl))

theorem shape_responseToFrames (p : ResponseParts) (b : Octets) :
    Shape (responseFields p (if b = [] then none else some b.length)) false
      (responseToFrames p b) true ∧ outstanding (responseToFrames p b) = b := by
  unfold responseToFrames
  split
  next empty => exact ⟨.whole, by simp [outstanding, payload, empty]⟩
  next => exact ⟨.head .last, by simp [outstanding, payload]⟩

def pending : Option HandlerPhase → Octets
  | some (.pushing bytes) => bytes
  | some (.buffered frames) => outstanding frames
  | _ => []

/-- The task pushes nothing more. -/
def Quiet (phase : Option HandlerPhase) : Prop := phase = none ∨ phase = some .finishing

/-- What a phase says about the stream, as long as it is not reset. -/
def Staged (answer : Answer) (progress : Progress) (outbox : List OutFrame) :
    Option HandlerPhase → Prop
  | some (.buffered frames) => progress = .unsent ∧ outbox = [] ∧
      Shape answer.fields false frames true ∧ answer.source = .ended
  | some (.streamHead fields) => progress = .unsent ∧ outbox = [] ∧ fields = answer.fields
  | some .closing => (progress.headed = true ∨ outbox ≠ []) ∧ answer.source = .ended
  | some .streamDrain | some .streaming | some (.pushing _) | some .checking | some .parked =>
      progress.headed = true ∨ outbox ≠ []
  | _ => True

theorem Staged.advance {next : Progress} {rest : List OutFrame}
    {phase : Option HandlerPhase} (hs : Staged answer progress ot phase)
    (hso : ot ≠ []) (hh : next.headed = true) : Staged answer next rest phase := by
  unfold Staged at hs ⊢
  split at hs
  next => exact absurd hs.2.1 hso
  next => exact absurd hs.2.1 hso
  next => exact ⟨.inl hh, hs.2⟩
  all_goals first | exact .inl hh | trivial

/-- A stream that is not reset carries on with its answer. -/
structure Active (answer : Answer) (progress : Progress) (outbox : List OutFrame)
    (phase : Option HandlerPhase) : Prop where
  shape : ∃ ends, Shape answer.fields progress.headed outbox ends ∧
    (ends = true → answer.source = .ended ∧ Quiet phase)
  finished : progress.isEnded = true → outbox = [] ∧ Quiet phase
  bytes : progress.payload ++ outstanding outbox ++ pending phase = answer.body
  staged : Staged answer progress outbox phase

inductive Conveyed (sid : Nat) (stream : Option MuxStream) (phase : Option HandlerPhase) :
    Option Answer → List Segment → Prop
  | silent (unanswered : phase = none ∨ phase = some .handling)
      (empty : ∀ live, stream = some live → live.reset = false → live.outbox = []) :
      Conveyed sid stream phase none []
  | answered {answer : Answer} {segments : List Segment} (progress : Progress)
      (handled : phase ≠ some .handling) (written : Written sid answer.fields segments progress)
      (within : progress.Within answer) (quiet : progress.isEnded = true → Quiet phase)
      (active : ∀ live, stream = some live → live.reset = false →
        Active answer progress live.outbox phase) :
      Conveyed sid stream phase (some answer) segments

namespace Conveyed

variable {sid : Nat} {stream next : Option MuxStream} {p : Option HandlerPhase}
  {a : Option Answer} {sgs : List Segment}

theorem keep (hc : Conveyed sid stream p a sgs)
    (hk : ∀ after, next = some after → after.reset = false →
      ∃ b, stream = some b ∧ b.reset = false ∧ after.outbox = b.outbox) :
    Conveyed sid next p a sgs := by
  cases hc with
  | silent hu he =>
    refine .silent hu fun after hf hr => ?_
    obtain ⟨b, ht, was, hs⟩ := hk after hf hr
    rw [hs]
    exact he b ht was
  | answered progress hh hwr hw hq ha =>
    refine .answered progress hh hwr hw hq fun after hf hr => ?_
    obtain ⟨b, ht, was, hs⟩ := hk after hf hr
    rw [hs]
    exact ha b ht was

theorem sendHeaders {live : MuxStream} (hc : Conveyed sid (some live) p a sgs)
    (running : live.reset = false) {fields : HeaderList} {endStream : Bool}
    {rest : List OutFrame} (outbox : live.outbox = .headers fields endStream :: rest) :
    Conveyed sid (some (live.sentHeaders endStream)) p a
      (sgs ++ [.headers sid endStream (Hpack.encode fields)]) := by
  have hp : (live.sentHeaders endStream).outbox = rest := by
    simp [MuxStream.sentHeaders, outbox]
  cases hc with
  | silent _ empty =>
    have nothing := empty live rfl running
    simp [outbox] at nothing
  | @answered a _ progress hh written within quiet active =>
    have now := active live rfl running
    obtain ⟨ends, shape, ending⟩ := now.shape
    have bytes := now.bytes
    rw [outbox] at shape bytes
    cases progress with
    | going | ended => cases shape
    | unsent =>
      cases written
      cases shape with
      | whole =>
        obtain ⟨ended, hst⟩ := ending rfl
        have held : pending p = [] := by rcases hst with rfl | rfl <;> rfl
        have body : a.body = [] := by
          simpa [Progress.payload, outstanding, payload, held] using bytes.symm
        refine .answered (.ended []) hh .whole ⟨body.symm, ended⟩ (fun _ => hst) ?_
        intro after same _
        cases same
        rw [hp]
        refine ⟨⟨false, .nothing true, by simp⟩, fun _ => ⟨rfl, hst⟩, bytes, ?_⟩
        exact now.staged.advance (by simp [outbox]) rfl
      | head later =>
        refine .answered (.going []) hh .head nil_prefix (by simp [isEnded]) ?_
        intro after same _
        cases same
        rw [hp]
        refine ⟨⟨ends, later, ending⟩, by simp [isEnded], bytes, ?_⟩
        exact now.staged.advance (by simp [outbox]) rfl

theorem sendData {live : MuxStream} (config : Config) (hc : Conveyed sid (some live) p a sgs)
    (running : live.reset = false) {bytes : Octets} {off chunk : Nat} {endStream : Bool}
    {rest : List OutFrame} (outbox : live.outbox = .data bytes off endStream :: rest) :
    Conveyed sid (some (live.sentData config chunk bytes off endStream)) p a
      (sgs ++ [.data sid ((bytes.drop off).take chunk)
        (decide (chunk = bytes.length - off) && endStream)]) := by
  cases hc with
  | silent _ empty =>
    have nothing := empty live rfl running
    simp [outbox] at nothing
  | @answered a _ progress hh written within quiet active =>
    have now := active live rfl running
    obtain ⟨ends, shape, ending⟩ := now.shape
    have sum := now.bytes
    rw [outbox] at shape sum
    have cut : bytes.drop off = (bytes.drop off).take chunk ++ bytes.drop (off + chunk) := by
      rw [← drop_drop, take_append_drop]
    cases progress with
    | unsent => cases shape
    | ended =>
      have nothing := (now.finished rfl).1
      simp [outbox] at nothing
    | going payload =>
      -- What is left of the frame, and the bytes that it still carries.
      by_cases whole : chunk = bytes.length - off
      · have hp : (live.sentData config chunk bytes off endStream).outbox = rest := by
          simp [MuxStream.sentData, outbox, whole]
        have sent : (bytes.drop off).take chunk = bytes.drop off := by
          rw [take_of_length_le (by simp [whole])]
        have moved : (payload ++ bytes.drop off) ++ outstanding rest ++ pending p =
            a.body := by
          simpa [Progress.payload, outstanding, OutFrame.payload] using sum
        rw [sent, decide_eq_true whole, Bool.true_and]
        cases shape with
        | last =>
          obtain ⟨ended, hst⟩ := ending rfl
          have held : pending p = [] := by rcases hst with rfl | rfl <;> rfl
          have body : payload ++ bytes.drop off = a.body := by
            simpa [outstanding, held] using moved
          refine .answered (.ended _) hh (.last _ written) ⟨body, ended⟩ (fun _ => hst) ?_
          intro after same _
          cases same
          rw [hp]
          refine ⟨⟨false, .nothing true, by simp⟩, fun _ => ⟨rfl, hst⟩, moved, ?_⟩
          exact now.staged.advance (by simp [outbox]) rfl
        | data later =>
          refine .answered (.going _) hh (.data _ written) ?_ (by simp [isEnded]) ?_
          · exact ⟨outstanding rest ++ pending p, by rw [← moved]; simp⟩
          intro after same _
          cases same
          rw [hp]
          refine ⟨⟨ends, later, ending⟩, by simp [isEnded], moved, ?_⟩
          exact now.staged.advance (by simp [outbox]) rfl
      have kept : (live.sentData config chunk bytes off endStream).outbox =
          .data bytes (off + chunk) endStream :: rest := by
        simp [MuxStream.sentData, outbox, whole]
      have moved : (payload ++ (bytes.drop off).take chunk) ++
          outstanding (.data bytes (off + chunk) endStream :: rest) ++ pending p =
            a.body := by
        rw [← sum]
        simp only [Progress.payload, outstanding, OutFrame.payload, flatMap_cons, append_assoc]
        rw [← append_assoc ((bytes.drop off).take chunk), ← cut]
      rw [decide_eq_false whole, Bool.false_and]
      refine .answered (.going _) hh (.data _ written) ?_ (by simp [isEnded]) ?_
      · exact ⟨outstanding (.data bytes (off + chunk) endStream :: rest) ++ pending p,
          by rw [← moved]; simp⟩
      intro after same _
      cases same
      rw [kept]
      refine ⟨⟨ends, ?_, ending⟩, by simp [isEnded], moved, ?_⟩
      · cases shape with
        | last => exact .last
        | data later => exact .data later
      · exact now.staged.advance (by simp [outbox]) rfl

end Conveyed

def Keeps (before after : MuxStream) : Prop :=
  after.reset = false → before.reset = false ∧ after.outbox = before.outbox

theorem Keeps.same {b after : MuxStream} (hre : after.reset = b.reset)
    (ho : after.outbox = b.outbox) : Keeps b after :=
  fun hr => ⟨hre ▸ hr, ho⟩

theorem lenient_keeps : Lenient Keeps where
  refl _ := .same rfl rfl
  trans _ _ _ he hl := fun hr =>
    ⟨(he (hl hr).1).1, (hl hr).2.trans (he (hl hr).1).2⟩
  queue _ := .same rfl rfl
  shift _ _ := .same rfl rfl
  wake _ _ := .same rfl rfl
  reset _ := fun hr => by cases hr

namespace Conveyed

variable {sid : Nat} {stream : Option MuxStream} {phase : HandlerPhase}
  {next : Option HandlerPhase} {a af : Answer} {sgs : List Segment}

theorem evolve {sh l : Shared} {next : Option HandlerPhase} {a : Option Answer}
    (hc : Conveyed sid (sh.streams.get? sid) next a sgs) (he : Shared.Evolves Keeps sh l) :
    Conveyed sid (l.streams.get? sid) next a sgs := by
  refine hc.keep fun af hf hr => ?_
  obtain ⟨b, ht, hk⟩ := he sid af hf
  exact ⟨b, ht, (hk hr).1, (hk hr).2⟩

theorem shift {l : Option MuxStream} (hc : Conveyed sid stream (some phase) (some a) sgs)
    (hb : phase ≠ .finishing) (hh : next ≠ some .handling)
    (fields : af.fields = a.fields) (hg : a.body <+: af.body)
    (active : ∀ progress live, l = some live → live.reset = false →
      ∃ b, stream = some b ∧ b.reset = false ∧ (Active a progress b.outbox (some phase) →
          Active af progress live.outbox next)) : Conveyed sid l next (some af) sgs := by
  cases hc with
  | answered progress _ written within quiet live =>
    have running : progress.isEnded = false := by
      by_contra ended
      rcases quiet (by simpa using ended) with none | finishing
      · cases none
      · exact hb (some.inj finishing)
    refine .answered progress hh (fields ▸ written) ?_ (by simp [running]) ?_
    · cases progress with
      | unsent => trivial
      | going pl => exact List.IsPrefix.trans within hg
      | ended pl => cases running
    intro now hfo hu
    obtain ⟨b, ht, was, hca⟩ := active progress now hfo hu
    exact hca (live b ht was)

theorem stop {ls : Option MuxStream}
    (hc : Conveyed sid stream (some phase) (some a) sgs) (hb : phase ≠ .finishing)
    (hh : next ≠ some .handling) (hd : ∀ l, ls = some l → l.reset = true) :
    Conveyed sid ls next (some a) sgs := by
  refine hc.shift hb hh rfl (prefix_refl _) fun _ l hf hr => ?_
  simp [hd l hf] at hr

end Conveyed

namespace Active

variable {p : HandlerPhase} {next : Option HandlerPhase} {a after : Answer}
  {pr : Progress} {o : List OutFrame}

theorem going (ha : Active a pr o (some p)) (hb : p ≠ .finishing) :
    pr.isEnded = false ∧ Shape a.fields pr.headed o false := by
  have hs : ¬ Quiet (some p) := by
    rintro (hn | hf)
    · cases hn
    · exact hb (some.inj hf)
  obtain ⟨e, hsh, hen⟩ := ha.shape
  cases e with
  | true => exact absurd (hen rfl).2 hs
  | false =>
    refine ⟨?_, hsh⟩
    by_contra he
    exact hs (ha.finished (by simpa using he)).2

theorem move (ha : Active a pr o (some p)) (hb : p ≠ .finishing) (hf : after.fields = a.fields)
    {m : Octets} (hbo : after.body = a.body ++ m) (hh : pending next = pending (some p) ++ m)
    (hst : Staged after pr o next) : Active after pr o next := by
  obtain ⟨hr, hs⟩ := ha.going hb
  refine ⟨⟨false, hf ▸ hs, by simp⟩, by simp [hr], ?_, hst⟩
  rw [hh, hbo, ← ha.bytes]
  simp

end Active

namespace Conveyed

variable {sid : Nat} {st : Option MuxStream} {p : HandlerPhase}
  {next : Option HandlerPhase} {a af : Answer} {sgs : List Segment}

theorem move (hc : Conveyed sid st (some p) (some a) sgs) (hb : p ≠ .finishing)
    (hh : next ≠ some .handling) (hf : af.fields = a.fields) {m : Octets}
    (hbo : af.body = a.body ++ m) (hhe : pending next = pending (some p) ++ m)
    (hs : ∀ progress outbox, Staged a progress outbox (some p) → Staged af progress outbox next) :
    Conveyed sid st next (some af) sgs := by
  refine hc.shift hb hh hf ⟨m, hbo.symm⟩ fun progress l hfo hr => ?_
  exact ⟨l, hfo, hr, fun ha =>
    ha.move hb hf hbo hhe (hs _ _ ha.staged)⟩

theorem some_of_handled {a : Option Answer} (hc : Conveyed sid st (some p) a sgs)
    (hha : p ≠ .handling) : ∃ answered, a = some answered := by
  cases hc with
  | silent hu =>
    rcases hu with hn | hh
    · cases hn
    · exact absurd (some.inj hh) hha
  | @answered a => exact ⟨a, rfl⟩

theorem respond {b : Option Answer} (hc : Conveyed sid st (some .handling) b sgs)
    (hha : next ≠ some .handling) (hhe : pending next = af.body)
    (hs : Staged af .unsent [] next) : Conveyed sid st next (some af) sgs := by
  cases hc with
  | answered _ hh => exact absurd rfl hh
  | silent _ he =>
    refine .answered .unsent hha .unsent trivial (by simp [isEnded]) ?_
    intro l hf hr
    rw [he l hf hr]
    exact ⟨⟨false, .nothing false, by simp⟩, by simp [isEnded], by simp [hhe,
      Progress.payload, outstanding], hs⟩

theorem leave {a : Option Answer} (hc : Conveyed sid st (some .finishing) a sgs) :
    Conveyed sid st none a sgs := by
  cases hc with
  | silent hu => simp at hu
  | answered progress _ hwr hw _ ha =>
    refine .answered progress (by simp) hwr hw (fun _ => .inl rfl) ?_
    intro l hf hr
    have now := ha l hf hr
    obtain ⟨e, hs, hen⟩ := now.shape
    exact ⟨⟨e, hs, fun hl => ⟨(hen hl).1, .inl rfl⟩⟩,
      fun he => ⟨(now.finished he).1, .inl rfl⟩, now.bytes, trivial⟩

end Conveyed

open Answer

theorem Answer.after_ignored (answer : Option Answer) {phase : HandlerPhase} {ev : HandlerEvent}
    (hun : ∀ p b, phase = .handling → ev ≠ .respond p b)
    (hud : ∀ bs, phase = .streaming → ev ≠ .chunk bs)
    (hu : phase = .streaming → ev ≠ .failed ∧ ev ≠ .ended) : after answer phase ev = answer := by
  unfold after
  split
  next => exact absurd rfl (hun _ _ rfl)
  next => exact absurd rfl (hun _ _ rfl)
  next => exact absurd rfl (hud _ rfl)
  next => exact absurd rfl (hu rfl).2
  next => exact absurd rfl (hu rfl).1
  next => rfl

theorem Answer.after_proceed (answer : Option Answer) (phase : HandlerPhase) :
    after answer phase .proceed = answer :=
  after_ignored answer (by simp) (by simp) (by simp)

theorem Conveyed.moves {sid : Nat} {stream : Option MuxStream} {phase next : HandlerPhase}
    {ev : HandlerEvent} {answer : Option Answer}
    (hc : Conveyed sid stream (some phase) answer sg) (hm : HandlerPhase.Moves ev phase next) :
    Conveyed sid stream (some next) (after answer phase ev) sg := by
  cases hm with
  | respondBytes p b =>
    obtain ⟨hs, hw⟩ := shape_responseToFrames p b
    exact hc.respond (by simp) hw ⟨rfl, rfl, hs, rfl⟩
  | respondStream p => exact hc.respond (by simp) rfl ⟨rfl, rfl, rfl⟩
  | ignore ev phase hud hu hun =>
    rw [after_ignored answer hud hu hun]
    exact hc
  | start | resume | park =>
    obtain ⟨a, rfl⟩ := hc.some_of_handled (by simp)
    exact hc.move (by simp) (by simp) rfl (append_nil _).symm rfl fun _ _ => id
  | refused | stopped | fail =>
    obtain ⟨a, rfl⟩ := hc.some_of_handled (by simp)
    exact hc.move (by simp) (by simp) rfl (append_nil _).symm rfl fun _ _ _ => trivial
  | skip | produce =>
    obtain ⟨a, rfl⟩ := hc.some_of_handled (by simp)
    exact hc.move (by simp) (by simp) rfl rfl rfl fun _ _ => id
  | close =>
    obtain ⟨a, rfl⟩ := hc.some_of_handled (by simp)
    exact hc.move (by simp) (by simp) rfl (append_nil _).symm rfl fun _ _ hb => ⟨hb, rfl⟩

theorem Active.push
    {phase next : HandlerPhase} {f : OutFrame} (ha : Active answer progress ot (some phase))
    (hp : HandlerPhase.Pushes phase f next) : Active answer progress (ot ++ [f]) (some next) := by
  have hs := ha.staged
  cases hp with
  | head fs =>
    obtain ⟨rfl, rfl, rfl⟩ := hs
    refine ⟨⟨false, .head (.nothing true), by simp⟩, by simp [isEnded], ha.bytes, ?_⟩
    exact .inr (by simp)
  | chunk bs =>
    obtain ⟨hr, hsh⟩ := ha.going (by simp)
    refine ⟨⟨false, hsh.push rfl hs bs false, by simp⟩, by simp [hr], ?_, ?_⟩
    · rw [← ha.bytes]
      simp [outstanding, payload, pending]
    · exact .inr (by simp)
  | last =>
    obtain ⟨hr, hsh⟩ := ha.going (by simp)
    refine ⟨⟨true, hsh.push rfl hs.1 [] true, fun _ => ⟨hs.2, .inr rfl⟩⟩, by simp [hr], ?_, trivial⟩
    rw [← ha.bytes]
    simp [outstanding, payload, pending]

variable (sh : Shared)

theorem Shared.pushOut_cases (id : Nat) (f : OutFrame) : (sh.pushOut id f = (sh, false) ∧
      ∀ stream, sh.streams.get? id = some stream → stream.reset = true) ∨
    ∃ stream, sh.streams.get? id = some stream ∧ stream.reset = false ∧
      sh.pushOut id f = ((sh.modify id fun stream => { stream with
        unsent := stream.unsent + f.unsent, outbox := stream.outbox ++ [f] }).markReady id,
        true) := by
  unfold pushOut
  cases hf : sh.streams.get? id with
  | none => exact .inl ⟨rfl, by simp⟩
  | some stream =>
    cases hr : stream.reset with
    | true => exact .inl ⟨by simp [hr], by simpa using hr⟩
    | false => exact .inr ⟨stream, rfl, hr, by simp [hr]⟩

theorem Shared.resetLocal_dead (id : Nat) (stream : MuxStream)
    (hf : (sh.resetLocal id).1.streams.get? id = some stream) : stream.reset = true := by
  unfold resetLocal at hf
  split at hf
  next none => simp [none] at hf
  next b ht =>
  split at hf
  next hr =>
    cases ht.symm.trans hf
    exact hr
  simp only [get?_modify, if_true, ht, map_some, some.injEq] at hf
  exact hf ▸ rfl

open Conveyed

theorem HandlerTask.step_conveyed (c : Config) (sh : Shared) (t : HandlerTask)
    (ev : HandlerEvent) {answer : Option Answer}
    (hc : Conveyed t.sid (sh.streams.get? t.sid) (some t.phase) answer sg) :
    Conveyed t.sid ((t.step c sh ev).1.streams.get? t.sid)
      (t.step c sh ev).2 (after answer t.phase ev) sg := by
  have hru := t.step_runs c sh ev
  generalize t.step c sh ev = res at hru ⊢
  cases hru with
  | move hm => exact hc.moves hm
  | @fill f stream phase hf hr =>
    rw [after_proceed]
    rw [phase] at hc
    obtain ⟨a, rfl⟩ := hc.some_of_handled (by simp)
    refine evolve ?_ (lenient_keeps.markReady _ t.sid)
    refine hc.shift (by simp) (by simp) rfl (prefix_refl _) ?_
    intro progress l ht _
    simp only [get?_modify, if_true, hf, map_some, some.injEq] at ht
    refine ⟨stream, hf, hr, fun ha => ?_⟩
    obtain ⟨rfl, he, hs, hen⟩ := ha.staged
    have hb := ha.bytes
    rw [he] at hb
    rw [← ht]
    refine ⟨⟨true, hs, fun _ => ⟨hen, .inr rfl⟩⟩, by simp [isEnded], ?_, trivial⟩
    simpa [Progress.payload, outstanding, pending] using hb
  | @drop f phase hd =>
    rw [after_proceed]
    rw [phase] at hc
    obtain ⟨a, rfl⟩ := hc.some_of_handled (by simp)
    refine evolve ?_ (lenient_keeps.markReady sh t.sid)
    exact hc.stop (by simp) (by simp) hd
  | @push fr next hp =>
    rw [after_proceed]
    have hbu : t.phase ≠ .finishing ∧ t.phase ≠ .handling := by
      generalize t.phase = phase at hp
      cases hp <;> simp
    have hh : next ≠ .handling := by
      generalize t.phase = phase at hp
      cases hp <;> simp
    obtain ⟨a, rfl⟩ := hc.some_of_handled hbu.2
    rcases sh.pushOut_cases t.sid fr with ⟨hre, hd⟩ | ⟨stream, hf, hr, hta⟩
    · rw [hre]
      exact hc.stop hbu.1 (by simp) hd
    rw [hta]
    refine evolve ?_ (lenient_keeps.markReady _ t.sid)
    refine hc.shift hbu.1 (by simpa using hh) rfl (prefix_refl _) ?_
    intro progress l ht _
    simp only [get?_modify, if_true, hf, map_some, some.injEq] at ht
    refine ⟨stream, hf, hr, fun ha => ?_⟩
    rw [← ht]
    exact ha.push hp
  | wake phase =>
    rw [after_proceed]
    rw [phase] at hc
    obtain ⟨a, rfl⟩ := hc.some_of_handled (by simp)
    refine evolve ?_ (.modify lenient_keeps.refl (lenient_keeps.wake false))
    exact hc.move (by simp) (by simp) rfl (append_nil _).symm rfl fun _ _ => id
  | reset phase =>
    rw [after_proceed]
    rw [phase] at hc
    obtain ⟨a, rfl⟩ := hc.some_of_handled (by simp)
    refine hc.stop (by simp) ?_ (sh.resetLocal_dead t.sid)
    split <;> simp
  | report phase =>
    rw [after_proceed]
    rw [phase] at hc
    obtain ⟨a, rfl⟩ := hc.some_of_handled (by simp)
    exact hc.move (by simp) (by simp) rfl (append_nil _).symm rfl fun _ _ _ => trivial
  | finish phase =>
    rw [after_proceed]
    rw [phase] at hc
    exact hc.leave

theorem Shared.get?_markReady_of_ne {id o : Nat} (hd : o ≠ id) :
    (sh.markReady id).streams.get? o = sh.streams.get? o := by
  unfold markReady
  split
  · rfl
  split
  · exact SortedMap.get?_insert_of_ne _ _ hd
  · rfl

theorem HandlerTask.step_elsewhere (c : Config) (sh : Shared) (t : HandlerTask) (ev : HandlerEvent)
    {o : Nat} (hd : o ≠ t.sid) : (t.step c sh ev).1.streams.get? o = sh.streams.get? o := by
  have hru := t.step_runs c sh ev
  generalize t.step c sh ev = res at hru ⊢
  cases hru with
  | move | report | finish => rfl
  | fill => rw [get?_markReady_of_ne _ hd, get?_modify, if_neg hd]
  | drop => exact sh.get?_markReady_of_ne hd
  | @push f =>
    rcases sh.pushOut_cases t.sid f with ⟨hr, _⟩ | ⟨_, _, _, ht⟩
    · rw [hr]
    · rw [ht, get?_markReady_of_ne _ hd, get?_modify, if_neg hd]
  | wake => rw [get?_modify, if_neg hd]
  | reset =>
    unfold resetLocal
    split
    · rfl
    split
    · rfl
    · rw [get?_modify, if_neg hd]

def phaseIn (handlers : List HandlerTask) (sid : Nat) : Option HandlerPhase :=
  (handlers.find? fun task => task.sid = sid).map HandlerTask.phase

theorem phaseIn_eq_none {hnd : List HandlerTask} {sid : Nat}
    (ha : sid ∉ hnd.map HandlerTask.sid) : phaseIn hnd sid = none := by
  rw [phaseIn, map_eq_none_iff, find?_eq_none]
  intro t hi
  simp only [decide_eq_true_eq]
  exact fun hs => ha (mem_map.mpr ⟨t, hi, hs⟩)

theorem phaseIn_around (b after : List HandlerTask) (t : HandlerTask) (sid : Nat)
    (hd : ((b ++ t :: after).map HandlerTask.sid).Nodup) : phaseIn (b ++ t :: after) sid =
      if sid = t.sid then some t.phase else phaseIn (b ++ after) sid := by
  unfold phaseIn
  rw [find?_append, find?_append]
  by_cases hh : sid = t.sid
  · subst hh
    have ha : b.find? (fun o => o.sid = t.sid) = none := by
      rw [find?_eq_none]
      intro o hi
      simp only [decide_eq_true_eq]
      intro hs
      rw [map_append, nodup_append] at hd
      exact hd.2.2 o.sid (mem_map_of_mem hi) t.sid (by simp) hs
    simp [ha]
  · rw [if_neg hh, find?_cons_of_neg (by simp [Ne.symm hh])]

theorem phaseIn_without (b after : List HandlerTask) (t : HandlerTask)
    (hd : ((b ++ t :: after).map HandlerTask.sid).Nodup) : phaseIn (b ++ after) t.sid = none := by
  apply phaseIn_eq_none
  rw [map_append, map_cons, nodup_middle, nodup_cons] at hd
  simpa using hd.1

theorem receive_keeps (mux : Mux) (f : Frame) {sid : Nat} {stream : MuxStream}
    (hf : (receive mux f).shared.streams.get? sid = some stream) :
    (∃ b, mux.shared.streams.get? sid = some b ∧ Keeps b stream) ∨
      mux.reader.lastClientId < sid ∧ stream.outbox = [] := by
  have hr := takeFrame_receives mux f
  simp only [receive, Mux.settle] at hf
  generalize takeFrame mux f = res at hf hr
  cases hr with
  | refused | kept => exact .inl ⟨stream, hf, lenient_keeps.refl stream⟩
  | moved =>
    refine .inl (Shared.Evolves.modify lenient_keeps.refl ?_ sid stream hf)
    exact fun _ => .same rfl rfl
  | opened _ _ hl =>
    simp only [Shared.open, SortedMap.get?_insert] at hf
    split at hf
    next here =>
      cases hf
      exact .inr ⟨here ▸ hl, rfl⟩
    next => exact .inl ⟨stream, hf, lenient_keeps.refl stream⟩
  | settled hs => exact .inl (lenient_keeps.settles hs sid stream hf)

def Conveying (answers : Nat → Option Answer) (phases : Nat → Option HandlerPhase)
    (sent : Nat → List Segment) (shared : Shared) : Prop :=
  ∀ sid, Conveyed sid (shared.streams.get? sid) (phases sid) (answers sid) (sent sid)

namespace Conveying

variable {a : Nat → Option Answer} {p : Nat → Option HandlerPhase}
  {sent : Nat → List Segment} {s : Shared}

theorem evolve {next : Shared} (hc : Conveying a p sent s)
    (he : Shared.Evolves Keeps s next) : Conveying a p sent next :=
  fun sid => (hc sid).evolve he

theorem send {next : Shared} {id : Nat} {c : MuxStream → MuxStream} {sg : Segment}
    (hc : Conveying a p sent s) (hch : ∀ o, next.streams.get? o =
      if o = id then (s.streams.get? id).map c else s.streams.get? o)
    (on : ∀ sid, sg.isOn sid = decide (id = sid)) {stream : MuxStream}
    (hf : s.streams.get? id = some stream) (hs : Conveyed id (some stream) (p id) (a id) (sent id) →
      Conveyed id (some (c stream)) (p id) (a id) (sent id ++ [sg])) :
    Conveying a p (fun sid => sent sid ++ [sg].filter (isOn sid)) next := by
  intro sid
  simp only [hch, filter_singleton, on]
  by_cases hh : sid = id
  · subst hh
    simpa [hf] using hs (hf ▸ hc sid)
  · simpa [hh, Ne.symm hh] using hc sid

theorem writing (a : Nat → Option Answer) (p : Nat → Option HandlerPhase)
    (sent : Nat → List Segment) (cn : Config) : Writing cn (fun s b =>
      Conveying a p (fun sid => sent sid ++ b.filter (isOn sid)) s) := by
  refine ⟨fun {s _} hk => ?_, fun _ hk => hk.evolve (.of_eq lenient_keeps.refl rfl),
    fun _ hk => hk.evolve (.modify lenient_keeps.refl fun _ => .same rfl rfl), ?_, ?_,
    fun _ hk => hk.evolve (.leave _ _ (fun _ _ => .same rfl rfl) lenient_keeps.refl)⟩
  · have hc (sid : Nat) : (controlBatch s).filter (isOn sid) = [] := by
      unfold controlBatch
      split <;> simp [isOn]
    simp only [filter_append, hc, append_nil]
    exact hk.evolve (.of_eq lenient_keeps.refl rfl)
  · intro s _ id stream fs es rest hf hr ho hk
    simp only [filter_append, ← append_assoc]
    exact hk.send (sendHeaders_get? s id fs es) (fun _ => rfl) hf fun hh => hh.sendHeaders hr ho
  intro s _ id stream bs off es rest c hf hr ho _ hk
  simp only [filter_append, ← append_assoc]
  exact hk.send (sendData_get? cn s id c bs off es) (fun _ => rfl) hf
    (fun hh => hh.sendData cn hr ho)

end Conveying

structure Mux.Conveys (transcript : Transcript) (answers : Nat → Option Answer)
    (sent : Nat → List Segment) (mux : Mux) : Prop where
  distinct : (mux.handlers.map HandlerTask.sid).Nodup
  started : ∀ task ∈ mux.handlers, transcript.started task.sid = true
  unstarted : ∀ sid, transcript.started sid = false → answers sid = none
  streams : Conveying answers (phaseIn mux.handlers) sent mux.shared

namespace Mux.Conveys

variable {cfg : Config} {tr : Transcript} {an : Nat → Option Answer}
  {sent : Nat → List Segment} {mux : Mux}

section Conveys

variable (hco : mux.Conveys tr an sent)

include hco

theorem absent {sid : Nat} (hu : tr.started sid = false) :
    sid ∉ mux.handlers.map HandlerTask.sid := by
  intro hi
  obtain ⟨t, hr, rfl⟩ := mem_map.mp hi
  simp [hco.started t hr] at hu

theorem aside {after : Mux} {next : Transcript} {w : Nat → List Segment}
    (hh : after.handlers = mux.handlers) (hsa : next.started = tr.started)
    (hs : Conveying an (phaseIn mux.handlers) w after.shared) : after.Conveys next an w where
  distinct := hh ▸ hco.distinct
  started := by
    rw [hh, hsa]
    exact hco.started
  unstarted := by
    rw [hsa]
    exact hco.unstarted
  streams := hh ▸ hs

theorem receive (hd : mux.Delivers cfg tr) (hli : mux.listening = true)
    (f : Frame) : Conveying an (phaseIn mux.handlers) sent (receive mux f).shared := by
  intro sid
  have hc := hco.streams sid
  by_cases hl : mux.reader.lastClientId < sid
  · -- Nothing was answered on a stream that is opened now.
    have hun := ((hd.streams hli sid).unopened hl).started
    rw [hco.unstarted sid hun] at hc ⊢
    generalize sent sid = sg at hc ⊢
    cases hc with
    | silent hu he =>
      refine .silent hu fun l hf hr => ?_
      rcases receive_keeps mux f hf with ⟨b, ht, hk⟩ | ⟨_, hn⟩
      · rw [(hk hr).2]
        exact he b ht (hk hr).1
      · exact hn
  refine hc.keep fun l hf hr => ?_
  rcases receive_keeps mux f hf with ⟨b, ht, hk⟩ | ⟨ho, _⟩
  · exact ⟨b, ht, hk hr⟩
  · exact absurd ho hl

theorem spawn {sid : Nat} {req : Request} {b : Octets} (hu : tr.started sid = false) {sh : Shared}
    (hev : Shared.Evolves Keeps mux.shared sh) {prog : List ReaderOp} {next : Transcript}
    (hs : ∀ o, next.started o = (decide (sid = o) || tr.started o)) : ({ mux with
      shared := sh, program := prog
      handlers := mux.handlers ++ [⟨sid, req, b, .handling⟩] } : Mux).Conveys next an
        sent := by
  have ha := hco.absent hu
  have hd : ((mux.handlers ++ [(⟨sid, req, b, .handling⟩ : HandlerTask)]).map
      HandlerTask.sid).Nodup := by
    rw [map_append, map_singleton, nodup_append]
    exact ⟨hco.distinct, by simp, by simpa using ha⟩
  refine ⟨hd, ?_, ?_, fun o => ?_⟩
  · intro t hi
    rw [hs]
    rcases mem_append.mp hi with hb | new
    · simp [hco.started t hb]
    · simp [mem_singleton.mp new]
  · intro o hf
    rw [hs, Bool.or_eq_false_iff] at hf
    exact hco.unstarted o hf.2
  have hc := (hco.streams o).evolve hev
  rw [phaseIn_around mux.handlers [] _ o hd, append_nil]
  split
  next here =>
    subst here
    rw [phaseIn_eq_none ha, hco.unstarted _ hu] at hc
    rw [hco.unstarted _ hu]
    generalize sent _ = sg at hc ⊢
    cases hc with
    | silent _ he => exact .silent (.inr rfl) he
  next => exact hc

theorem run (hd : mux.Delivers cfg tr) {op : ReaderOp} {rest : List ReaderOp}
    (hp : mux.program = op :: rest) : (op.run cfg mux rest).Conveys (tr.run op) an sent := by
  have he := lenient_keeps.run cfg mux rest op
  cases op with
  | spawn sid req b =>
    have hc := hd.handing sid req b (by simp [hp])
    refine hco.spawn hc.started he fun o => ?_
    simp [Transcript.run, eq_comm]
  | pushCtrl | capCheck | resetLocal | failStream | setDone | teardown =>
    exact hco.aside rfl rfl (hco.streams.evolve he)

theorem handler {i : Nat} {t : HandlerTask} (hfo : mux.handlers[i]? = some t) (ev : HandlerEvent) :
    (mux.proceed i t (t.step cfg mux.shared ev)).Conveys tr
      (fun sid => if sid = t.sid then Answer.after (an sid) t.phase ev
        else an sid) sent := by
  obtain ⟨b, after, hsp, rfl⟩ := split_at_index hfo
  have hd := hco.distinct
  have hr := hco.started
  have hh := hco.streams t.sid
  rw [hsp] at hd hr hh
  rw [phaseIn_around b after t t.sid hd, if_pos rfl] at hh
  have hm := t.step_conveyed cfg mux.shared ev hh
  have he (sid : Nat) (hdi : sid ≠ t.sid) :=
    t.step_elsewhere cfg mux.shared ev hdi
  have hu (sid : Nat) (hf : tr.started sid = false) :
      (if sid = t.sid then Answer.after (an sid) t.phase ev else an sid) =
        none := by
    have hdi : sid ≠ t.sid := by
      rintro rfl
      simp [hr t (by simp)] at hf
    rw [if_neg hdi]
    exact hco.unstarted sid hf
  -- What the connection knows of a stream, given its phase after the step.
  have hs (ph : Nat → Option HandlerPhase) (own : ph t.sid = (t.step cfg mux.shared ev).2)
      (ho : ∀ sid, sid ≠ t.sid → ph sid = phaseIn (b ++ after) sid) :
      Conveying (fun sid => if sid = t.sid then Answer.after (an sid) t.phase ev
        else an sid) ph sent (t.step cfg mux.shared ev).1 := by
    intro sid
    by_cases hsa : sid = t.sid
    · subst hsa
      rw [own]
      simpa using hm
    have hc := hco.streams sid
    rw [hsp, phaseIn_around b after t sid hd, if_neg hsa] at hc
    rw [ho sid hsa, he sid hsa]
    simpa [hsa] using hc
  unfold Mux.proceed
  cases phase : (t.step cfg mux.shared ev).2 with
  | none =>
    rw [phase] at hs
    have hk : ((b ++ after).map HandlerTask.sid).Sublist ((b ++ t :: after).map HandlerTask.sid) :=
      ((sublist_cons_self t after).append_left b).map _
    simp only [hsp, eraseIdx_around]
    refine ⟨hd.sublist hk, fun o hi => ?_, hu, ?_⟩
    · exact hr o (mem_around.mpr (.inr hi))
    · exact hs _ (phaseIn_without b after t hd) fun _ _ => rfl
  | some next =>
    rw [phase] at hs
    have set : (b ++ t :: after).set b.length { t with phase := next } =
        b ++ { t with phase := next } :: after := by simp
    have hsi : (b ++ { t with phase := next } :: after).map HandlerTask.sid =
        (b ++ t :: after).map HandlerTask.sid := by simp
    simp only [hsp, set]
    refine ⟨hsi ▸ hd, fun o hi => ?_, hu, ?_⟩
    · rcases mem_around.mp hi with rfl | ha
      · exact hr t (by simp)
      · exact hr o (mem_around.mpr (.inr ha))
    refine hs _ ?_ fun sid hdi => ?_
    · rw [phaseIn_around b after _ _ (hsi ▸ hd), if_pos rfl]
    · rw [phaseIn_around b after _ _ (hsi ▸ hd), if_neg hdi]

theorem step (hd : mux.Delivers cfg tr) (action : Action) :
    (step cfg mux action).1.Conveys (tr.observe mux action) (observeAnswers an mux action)
      (fun sid => sent sid ++ (step cfg mux action).2.filter (isOn sid)) := by
  -- Only the writer adds to what was sent.
  have hsa : sent = fun sid => sent sid ++ [].filter (isOn sid) := by simp
  cases action with
  | frame frame =>
    simp only [Http2.step, observe, Mux.takes, observeAnswers]
    by_cases hr : mux.listening = true ∧ mux.program = []
    · simp only [if_pos hr, ← hsa]
      exact hco.aside rfl (take_started ..) (hco.receive hd hr.1 frame)
    · simp only [if_neg hr, ← hsa]
      exact hco
  | eof =>
    simp only [Http2.step, observe, Mux.takes, observeAnswers]
    split
    · rw [← hsa]
      exact hco.aside rfl rfl hco.streams
    · rw [← hsa]
      exact hco
  | reader =>
    simp only [Http2.step, observe, Mux.takes, observeAnswers]
    cases hp : mux.program with
    | nil =>
      rw [← hsa]
      exact hco
    | cons op rest =>
      rw [← hsa]
      exact hco.run hd hp
  | handler index event =>
    simp only [Http2.step, observe, Mux.takes, observeAnswers]
    cases hf : mux.handlers[index]? with
    | none =>
      rw [← hsa]
      exact hco
    | some task =>
      rw [← hsa]
      exact hco.handler hf event
  | writer =>
    obtain ⟨batch, hb, hst⟩ := step_writer cfg mux
    have hs := (Conveying.writing an _ sent cfg).buildBatch (by simpa using hco.streams)
    rw [← hb] at hs
    rw [hst]
    exact hco.aside rfl rfl hs

end Conveys

theorem start : Mux.start.Conveys .start (fun _ => none) (fun _ => []) where
  distinct := nodup_nil
  started _ hi := by cases hi
  unstarted _ _ := rfl
  streams sid := by
    refine .silent (.inl rfl) fun l hf _ => ?_
    cases hf

end Mux.Conveys

end BoatRamp.Http2
