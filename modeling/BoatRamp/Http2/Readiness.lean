import BoatRamp.Http2.Windows

/-!
# The ready queue

The writer only looks at the streams of the ready queue, so a stream that could
send something has to be there.  The one frame that can be overlooked is an
empty one behind another: it needs no window, but the stream is only queued
again for it while both windows are open.
-/

namespace BoatRamp.Http2

open Library OutFrame Shared SortedMap Settings
open List hiding isEmpty

def OutFrame.isEmpty : OutFrame → Bool
  | .headers .. => false
  | .data bytes off _ => bytes.length - off = 0

/-- The first frame of the stream can be sent now. -/
def MuxStream.CanSend (stream : MuxStream) (connWindow : Int) : Prop :=
  stream.reset = false ∧
    match stream.outbox with
    | [] => False
    | .headers .. :: _ => True
    | .data bytes off _ :: _ =>
        bytes.length - off = 0 ∨ 0 < stream.sendWindow ∧ 0 < connWindow

theorem MuxStream.CanSend.imp {b a : MuxStream} {l u : Int} (ha : a.CanSend u)
    (hre : b.reset = a.reset) (ho : b.outbox = a.outbox)
    (hw : 0 < a.sendWindow ∧ 0 < u → 0 < b.sendWindow ∧ 0 < l) : b.CanSend l := by
  obtain ⟨hr, hf⟩ := ha
  refine ⟨hre.trans hr, ?_⟩
  rw [ho]
  split at hf
  · exact hf
  · trivial
  · exact hf.imp (fun hs => hs) hw

structure Attended (exempt : Nat → Prop) (shared : Shared) : Prop where
  nodup : shared.ready.Nodup
  queued : ∀ id, id ∈ shared.ready ↔
    ∃ stream, shared.streams.get? id = some stream ∧ stream.queued = true
  sendable : ∀ id stream, shared.streams.get? id = some stream →
    stream.CanSend shared.connSendWindow → ¬ exempt id → id ∈ shared.ready

abbrev Served (shared : Shared) : Prop := Attended (fun _ => False) shared

namespace Attended

variable {e o : Nat → Prop} {s next : Shared} {id : Nat}

section Attended

variable (hat : Attended e s)

include hat

theorem weaken (hm : ∀ id, e id → o id) : Attended o s where
  nodup := hat.nodup
  queued := hat.queued
  sendable id st hf hs hi :=
    hat.sendable id st hf hs fun he => hi (hm id he)

/-- A section that leaves the queue and the flags alone, and lets no stream send that could not. -/
theorem calm (hr : next.ready = s.ready) (hf : ∀ id, (next.streams.get? id).map MuxStream.queued =
      (s.streams.get? id).map MuxStream.queued) (hs : ∀ id st, next.streams.get? id = some st →
      st.CanSend next.connSendWindow → ¬ o id → ¬ e id ∧ ∃ b, s.streams.get? id = some b ∧
        b.CanSend s.connSendWindow) : Attended o next where
  nodup := hr ▸ hat.nodup
  queued := by
    intro id
    have hsa := hf id
    rw [hr, hat.queued]
    simp only [← Option.map_eq_some_iff, hsa]
  sendable := by
    intro id st hfo ha hi
    obtain ⟨hn, b, ht, hc⟩ := hs id st hfo ha hi
    rw [hr]
    exact hat.sendable id b ht hc hn

theorem of_fields (hr : next.ready = s.ready) (hs : next.streams = s.streams)
    (hw : next.connSendWindow = s.connSendWindow) : Attended e next := by
  refine hat.calm hr (by simp [hs]) ?_
  intro id st hf ha hi
  exact ⟨hi, st, hs ▸ hf, hw ▸ ha⟩

theorem modify {c : MuxStream → MuxStream} (hfl : ∀ st, (c st).queued = st.queued)
    (hs : ∀ st, s.streams.get? id = some st → (c st).CanSend s.connSendWindow → ¬ e id →
      st.CanSend s.connSendWindow) : Attended e (s.modify id c) := by
  refine hat.calm (modify_ready ..) ?_ ?_
  · intro other
    rw [get?_modify]
    by_cases hh : other = id
    · subst hh
      simp [Function.comp_def, hfl]
    · simp [hh]
  intro other st hf ha hi
  refine ⟨hi, ?_⟩
  rw [get?_modify] at hf
  rw [modify_connSendWindow] at ha
  by_cases hh : other = id
  · subst hh
    rw [if_pos rfl, Option.map_eq_some_iff] at hf
    obtain ⟨b, ht, rfl⟩ := hf
    exact ⟨b, ht, hs b ht ha hi⟩
  · rw [if_neg hh] at hf
    exact ⟨st, hf, ha⟩

theorem enqueue {st : MuxStream} (ha : id ∉ s.ready) (hr : next.ready = s.ready ++ [id])
    (hs : ∀ other, next.streams.get? other =
      if other = id then some { st with queued := true } else s.streams.get? other)
    (hw : next.connSendWindow = s.connSendWindow) :
    Attended (fun other => e other ∧ other ≠ id) next where
  nodup := by
    rw [hr, ← concat_eq_append]
    exact hat.nodup.concat ha
  queued := by
    intro other
    rw [hr, mem_append, mem_singleton, hs]
    by_cases hh : other = id
    · simp [hh]
    · simp [hh, hat.queued]
  sendable := by
    intro other a ht hab hi
    rw [hr, mem_append, mem_singleton]
    by_cases hh : other = id
    · exact .inr hh
    rw [hs, if_neg hh] at ht
    rw [hw] at hab
    exact .inl (hat.sendable other a ht hab fun he => hi ⟨he, hh⟩)

theorem markReady (id : Nat) : Attended (fun other => e other ∧ other ≠ id) (s.markReady id) := by
  unfold Shared.markReady
  cases hf : s.streams.get? id with
  | none =>
    refine ⟨hat.nodup, hat.queued, ?_⟩
    intro other st ht hab hi
    refine hat.sendable other st ht hab fun he => hi ⟨he, ?_⟩
    rintro rfl
    exact absurd ht (by simp [hf])
  | some st =>
    dsimp only
    split
    next waiting =>
      simp only [Bool.and_eq_true, Bool.not_eq_true'] at waiting
      have ha : id ∉ s.ready := by
        intro hin
        obtain ⟨other, ht, hfl⟩ := (hat.queued id).mp hin
        rw [hf] at ht
        cases ht
        simp [waiting.1.1] at hfl
      exact hat.enqueue ha rfl (get?_insert _ _ _) rfl
    next settled =>
    refine ⟨hat.nodup, hat.queued, ?_⟩
    intro other a ht hab hi
    by_cases hh : other = id
    · subst hh
      rw [hf] at ht
      cases ht
      -- It runs and has output, so it was already queued.
      refine (hat.queued other).mpr ⟨st, hf, ?_⟩
      obtain ⟨hr, hfr⟩ := hab
      cases ho : st.outbox with
      | nil => simp [ho] at hfr
      | cons f rest => simpa [hr, ho] using settled
    · exact hat.sendable other a ht hab fun he => hi ⟨he, hh⟩

theorem foldl_markReady (ids : List Nat) :
    Attended (fun other => e other ∧ other ∉ ids) (ids.foldl Shared.markReady s) := by
  induction ids generalizing e s with
  | nil => exact hat.weaken fun _ he => ⟨he, by simp⟩
  | cons id rest ih =>
    refine (ih (hat.markReady id)).weaken ?_
    rintro other ⟨⟨he, hd⟩, ha⟩
    exact ⟨he, by simp [hd, ha]⟩

theorem markAllReady : Served s.markAllReady := by
  have hm := hat.foldl_markReady s.ids
  refine ⟨hm.nodup, hm.queued, ?_⟩
  intro id st hf ha _
  obtain ⟨b, ht, _⟩ := (KeepsWindows.markAllReady s).streams id st hf
  exact hm.sendable id st hf ha fun he => he.2 (mem_ids ht)

end Attended

theorem none_of_markReady (ha : Attended (fun other => other = id) s) :
    Served (s.markReady id) :=
  (ha.markReady id).weaken fun _ he => he.2 he.1

end Attended

namespace Attended

variable {s : Shared} (hat : Served s)

include hat

variable (id : Nat)

theorem refill {c : MuxStream → MuxStream} (hf : ∀ stream, (c stream).queued = stream.queued) :
    Attended (fun other => other = id) (s.modify id c) :=
  (hat.weaken fun _ => False.elim).modify hf fun _ _ _ hi => absurd rfl hi

theorem pushOut (f : OutFrame) : Served (s.pushOut id f).1 := by
  unfold Shared.pushOut
  split
  · exact hat
  split
  · exact hat
  · apply none_of_markReady
    exact hat.refill id fun _ => rfl

theorem silence {c : MuxStream → MuxStream} (hf : ∀ st, (c st).queued = st.queued)
    (hr : ∀ st, (c st).reset = true) : Served (s.modify id c) :=
  hat.modify hf fun st _ ha => by simp [MuxStream.CanSend, hr] at ha

theorem resetLocal : Served (s.resetLocal id).1 := by
  unfold Shared.resetLocal
  split
  · exact hat
  split
  · exact hat
  · exact hat.silence id (fun _ => rfl) fun _ => rfl

theorem abort : Served (s.abort id) :=
  hat.silence id (fun _ => rfl) fun _ => rfl

theorem handler (cfg : Config) (t : HandlerTask) (ev : HandlerEvent) :
    Served (t.step cfg s ev).1 := by
  have hr := t.step_runs cfg s ev
  generalize t.step cfg s ev = res at hr ⊢
  cases hr with
  | move => exact hat
  | fill => exact none_of_markReady (hat.refill _ (by intro; rfl))
  | drop => exact (hat.weaken fun _ => False.elim).none_of_markReady
  | push => exact hat.pushOut ..
  | wake => exact hat.modify (fun _ => rfl) fun _ _ ha _ => ha
  | reset => exact hat.resetLocal _
  | report | finish => exact hat.of_fields rfl rfl rfl

end Attended

def backlog (outbox : List OutFrame) : Nat := (outbox.map OutFrame.unsent).sum

/-- The windows last for every stream with an empty frame behind another: its own window for all
its output, and that of the connection down to the given rest. -/
def Outlasts (rest : Int) (shared : Shared) : Prop :=
  ∀ entry ∈ shared.streams.entries, entry.2.reset = false →
    entry.2.outbox.tail.any OutFrame.isEmpty = true →
    (backlog entry.2.outbox : Int) < entry.2.sendWindow ∧ 0 < rest

instance (rest : Int) (shared : Shared) : Decidable (Outlasts rest shared) :=
  decidableBAll _ _

/-- The stream has sent something, or is as before. -/
def Lighter (before after : MuxStream) : Prop :=
  after.reset = before.reset ∧
    (after.outbox.tail.any OutFrame.isEmpty = true →
      before.outbox.tail.any OutFrame.isEmpty = true) ∧
    backlog after.outbox - after.sendWindow ≤ backlog before.outbox - before.sendWindow

theorem Lighter.refl (st : MuxStream) : Lighter st st := ⟨rfl, id, Int.le_refl _⟩

theorem Lighter.trans {x y t : MuxStream} (he : Lighter x y) (hl : Lighter y t) : Lighter x t :=
  ⟨hl.1.trans he.1, fun ht => he.2.1 (hl.2.1 ht), Int.le_trans hl.2.2 he.2.2⟩

theorem Outlasts.evolve {rest : Int} {shared next : Shared} (outlasts : Outlasts rest shared)
    (evolves : Shared.Evolves Lighter shared next) : Outlasts rest next := by
  rintro ⟨id, after⟩ listed running behind
  obtain ⟨before, present, reset, kept, lighter⟩ :=
    evolves id after ((next.streams.mem_entries_iff id after).mp listed)
  obtain ⟨enough, left⟩ := outlasts (id, before)
    ((shared.streams.mem_entries_iff id before).mpr present) (reset ▸ running) (kept behind)
  exact ⟨by dsimp only at *; omega, left⟩

structure Spends (shared next : Shared) : Prop where
  streams : Shared.Evolves Lighter shared next
  peer : next.peer = shared.peer

namespace Spends

variable {sh next : Shared}

theorem trans {l : Shared} (he : Spends sh next) (hl : Spends next l) : Spends sh l where
  streams := he.streams.trans (fun _ _ _ hf hs => hf.trans hs) hl.streams
  peer := hl.peer.trans he.peer

theorem refl (sh : Shared) : Spends sh sh :=
  ⟨.refl Lighter.refl, rfl⟩

theorem tail_any {o : List OutFrame} (ht : o.tail.tail.any isEmpty = true) :
    o.tail.any isEmpty = true :=
  any_eq_true.mpr ((any_eq_true.mp ht).imp
    (fun _ hf => ⟨mem_of_mem_tail hf.1, hf.2⟩))

theorem sendHeaders (sh : Shared) (id : Nat) (fs : HeaderList) (es : Bool) :
    Spends sh (sendHeaders sh id fs es).1 where
  streams := by
    refine .change Lighter.refl (sendHeaders_get? sh id fs es) ?_
    refine fun b _ => ⟨rfl, tail_any, ?_⟩
    cases ho : b.outbox with
    | nil => simp [MuxStream.sentHeaders, ho]
    | cons f rest => simp [MuxStream.sentHeaders, ho, backlog]
  peer := (KeepsWindows.sendHeaders ..).peer

theorem sendData {st : MuxStream} {bs : Octets} {off : Nat} {es : Bool}
    {l : List OutFrame} (cfg : Config) {id c : Nat} (hf : sh.streams.get? id = some st)
    (ho : st.outbox = .data bs off es :: l) (hfi : c ≤ bs.length - off) :
    Spends sh (sendData cfg sh id c bs off es).1 where
  streams := by
    refine .change Lighter.refl (sendData_get? cfg sh id c bs off es) ?_
    intro b hth
    cases hf.symm.trans hth
    refine ⟨rfl, fun ht => ?_, ?_⟩
    · unfold MuxStream.sentData at ht
      dsimp only at ht
      split at ht
      · exact tail_any ht
      · exact ht
    unfold MuxStream.sentData
    rw [ho]
    dsimp only [tail_cons]
    split
    next last =>
      simp only [backlog, map_cons, sum_cons, unsent]
      omega
    simp only [backlog, map_cons, sum_cons, unsent]
    omega
  peer := sendData_peer ..

theorem writing (cfg : Config) (s : Shared) : Writing cfg (fun sh _ => Spends s sh) := by
  have hr (f : Bool) (st : MuxStream) : Lighter st { st with queued := f } :=
    ⟨rfl, fun ht => ht, Int.le_refl _⟩
  have ha {sh next : Shared} (hk : KeepsWindows sh next)
      (hst : Shared.Evolves Lighter sh next) : Spends sh next :=
    ⟨hst, hk.peer⟩
  refine ⟨fun hs => hs.trans (ha (.of_fields rfl rfl rfl) (.of_eq Lighter.refl rfl)),
    fun _ hs => hs.trans (ha (.of_fields rfl rfl rfl) (.of_eq Lighter.refl rfl)),
    fun id hs => hs.trans (ha (.modify _ id (by intro; rfl))
      (.modify Lighter.refl (hr false))), ?_, ?_,
    fun id hs => hs.trans (ha ((KeepsWindows.requeue _ id).trans (.reap _ id))
      (.leave _ _ hr Lighter.refl))⟩
  · intro sh _ id st fs es rest _ _ _ hs
    exact hs.trans (sendHeaders sh id fs es)
  · rintro sh _ id st bs off es rest _ hf _ ho rfl hs
    exact hs.trans (sendData cfg hf ho (sendable_le_remaining ..))

end Spends

theorem leave_connSendWindow (shared : Shared) (id : Nat) :
    (reap (requeue shared id) id).connSendWindow = shared.connSendWindow := by
  rw [(KeepsWindows.reap _ id).connection, (KeepsWindows.requeue _ id).connection]

def Shared.unsentOf (shared : Shared) (id : Nat) : Nat :=
  (shared.streams.get? id).elim 0 fun stream => backlog stream.outbox

/-- The unsent bytes of the streams that the writer will look at. -/
def Shared.readyBacklog (shared : Shared) : Nat := (shared.ready.map shared.unsentOf).sum

theorem readyBacklog_leave {before sent : Shared} {id : Nat} (absent : id ∉ before.ready)
    (queue : sent.ready = before.ready)
    (others : ∀ other ≠ id, sent.streams.get? other = before.streams.get? other) :
    (reap (requeue sent id) id).readyBacklog ≤ before.readyBacklog + sent.unsentOf id := by
  have kept (other : Nat) : (reap (requeue sent id) id).unsentOf other ≤ sent.unsentOf other := by
    rw [unsentOf, reap_get?, requeue_get?, requeue_get?, unsentOf]
    by_cases here : other = id
    · subst here
      cases sent.streams.get? other with
      | none => simp
      | some stream =>
        simp only [if_true, Option.map_some, Option.filter_some]
        split <;> simp
    · simp [here]
  have same : before.ready.map sent.unsentOf = before.ready.map before.unsentOf := by
    apply map_congr_left
    intro other listed
    rw [unsentOf, others other (fun here => absent (here ▸ listed)), unsentOf]
  have ready : (reap (requeue sent id) id).ready = (requeue sent id).ready := by
    unfold reap
    split
    · rfl
    · split <;> rfl
  rw [readyBacklog, readyBacklog, ready, ← same, ← queue]
  refine (sum_le_sum fun other _ => kept other).trans ?_
  unfold requeue
  split
  · exact Nat.le_add_right ..
  split
  · simp
  · exact Nat.le_add_right ..

/-- What a visit takes from the connection's window, it takes from the unsent bytes of the queue
and puts into the batch, one frame at most. -/
theorem visit_backlog (config : Config) {shared : Shared} {id : Nat} {ready : List Nat}
    (waiting : shared.ready = id :: ready) (absent : id ∉ ready) :
    let visited := visit config { shared with ready := ready } id
    ∃ sent ≤ MAX_OUT_FRAME, visited.1.connSendWindow = shared.connSendWindow - sent ∧
      sent ≤ visited.2.len ∧ visited.1.readyBacklog + sent ≤ shared.readyBacklog := by
  have cases := visit_cases config { shared with ready := ready } id
  have queue := modify_ready { shared with ready := ready } id
    (fun stream => { stream with queued := false })
  have window := modify_connSendWindow { shared with ready := ready } id
    (fun stream => { stream with queued := false })
  have unsent (other : Nat) : (Shared.modify { shared with ready := ready } id
      (fun stream => { stream with queued := false })).unsentOf other = shared.unsentOf other := by
    rw [unsentOf, get?_modify, unsentOf]
    by_cases here : other = id
    · subst here
      cases shared.streams.get? other <;> simp
    · simp [here]
  generalize Shared.modify { shared with ready := ready } id
    (fun stream => { stream with queued := false }) = taken at cases queue window unsent
  have before : shared.readyBacklog = taken.unsentOf id + taken.readyBacklog := by
    simp only [readyBacklog, waiting, queue, map_cons, sum_cons, unsent]
    rw [show taken.unsentOf = shared.unsentOf from funext unsent]
  have fresh : id ∉ taken.ready := queue ▸ absent
  dsimp only at cases queue window ⊢
  rcases cases with ⟨stalled, _⟩ | ⟨stream, found, _,
      ⟨fields, endStream, rest, outbox, visited⟩ |
      ⟨bytes, off, endStream, rest, chunk, outbox, chosen, _, visited⟩⟩
  · rw [stalled]
    exact ⟨0, Nat.zero_le _, by simpa using window, Nat.zero_le _, by dsimp only; omega⟩
  · have left := readyBacklog_leave fresh (sendHeaders_ready taken id fields endStream)
      (fun other elsewhere => by rw [sendHeaders_get?, if_neg elsewhere])
    have behind : (sendHeaders taken id fields endStream).1.unsentOf id ≤ taken.unsentOf id := by
      simp [unsentOf, sendHeaders_get?, found, MuxStream.sentHeaders, outbox, backlog]
    rw [visited]
    refine ⟨0, Nat.zero_le _, ?_, Nat.zero_le _, by dsimp only; omega⟩
    rw [leave_connSendWindow, (KeepsWindows.sendHeaders ..).connection]
    simpa using window
  · have fits : chunk ≤ bytes.length - off := chosen ▸ sendable_le_remaining ..
    have left := readyBacklog_leave fresh
      (sendData_ready config taken id chunk bytes off endStream)
      (fun other elsewhere => by rw [sendData_get?, if_neg elsewhere])
    have behind : (sendData config taken id chunk bytes off endStream).1.unsentOf id + chunk =
        taken.unsentOf id := by
      simp only [unsentOf, sendData_get?, found, if_true, Option.map_some, Option.elim_some,
        MuxStream.sentData, outbox, tail_cons]
      split <;> simp_all [backlog, OutFrame.unsent] <;> omega
    rw [visited]
    refine ⟨chunk, ?_, ?_, ?_, by dsimp only; omega⟩
    · rw [chosen]
      unfold sendable
      split
      · exact Nat.zero_le _
      · dsimp only
        omega
    · rw [leave_connSendWindow, sendData_connSendWindow, window]
    · simp [Batch.len, sendData, Segment.bytes, writeFrame]
      omega

theorem goesOn_of_canSend {shared : Shared} {st : MuxStream} (ha : st.CanSend shared.connSendWindow)
    (hw : st.outbox.head?.any isEmpty = true → 0 < st.sendWindow ∧ 0 < shared.connSendWindow) :
    goesOn shared st = true := by
  obtain ⟨_, hf⟩ := ha
  unfold goesOn
  cases ho : st.outbox with
  | nil => simp [ho] at hf
  | cons f rest =>
    cases f with
    | headers fs es => rfl
    | data bs off es =>
      simp only [ho] at hf
      refine decide_eq_true (hf.elim (fun hs => hw ?_) id)
      simp [ho, isEmpty, hs]

namespace Attended

variable {s : Shared} {id : Nat}

theorem requeue (hat : Attended (fun other => other = id) s) (ha : id ∉ s.ready)
    (hn : ∀ st, s.streams.get? id = some st → st.CanSend s.connSendWindow → goesOn s st = true) :
    Served (requeue s id) := by
  unfold Http2.requeue
  cases hf : s.streams.get? id with
  | none =>
    refine ⟨hat.nodup, hat.queued, ?_⟩
    intro other st ht hab _
    refine hat.sendable other st ht hab ?_
    rintro rfl
    exact absurd ht (by simp [hf])
  | some st =>
    dsimp only
    split
    next goes =>
      have hs (other : Nat) :
          (s.modify id fun st => { st with queued := true }).streams.get? other =
            if other = id then some { st with queued := true }
            else s.streams.get? other := by
        simp [get?_modify, hf]
      refine weaken ?_ fun other (he : other = id ∧ other ≠ id) => he.2 he.1
      exact hat.enqueue ha rfl hs (modify_connSendWindow ..)
    next stays =>
    refine ⟨hat.nodup, hat.queued, ?_⟩
    intro other a ht hab _
    refine hat.sendable other a ht hab ?_
    rintro rfl
    rw [hf] at ht
    cases ht
    exact stays (hn st hf hab)

theorem reap (hat : Served s)
    (hi : ∀ st, s.streams.get? id = some st → st.outbox = [] → id ∉ s.ready) :
    Served (reap s id) := by
  unfold Http2.reap
  cases hf : s.streams.get? id with
  | none => exact hat
  | some st =>
    dsimp only
    split
    next done =>
      refine ⟨hat.nodup, ?_, ?_⟩
      · intro other
        rw [hat.queued, get?_erase]
        by_cases hh : other = id
        · subst hh
          have ha := hi st hf done.2
          rw [hat.queued] at ha
          simpa using ha
        · simp [hh]
      intro other a ht hab _
      rw [get?_erase] at ht
      split at ht
      · cases ht
      · exact hat.sendable other a ht hab not_false
    next => exact hat

theorem pop (hat : Served s) {r : List Nat} (hw : s.ready = id :: r) :
    Attended (fun other => other = id) ({ s with ready := r }.modify id
      (fun st => { st with queued := false })) := by
  have hn := hat.nodup
  rw [hw, nodup_cons] at hn
  refine ⟨?_, ?_, ?_⟩
  · rw [modify_ready]
    exact hn.2
  · intro other
    rw [modify_ready, get?_modify]
    by_cases hh : other = id
    · subst hh
      simp [hn.1]
    · rw [if_neg hh, ← hat.queued, hw]
      simp [hh]
  intro other st hf ha hd
  rw [get?_modify, if_neg hd] at hf
  rw [modify_connSendWindow] at ha
  rw [modify_ready]
  have hi := hat.sendable other st hf ha not_false
  rw [hw] at hi
  exact (mem_cons.mp hi).resolve_left hd

variable (hat : Attended (fun other => other = id) s)

include hat

theorem lower (c : Nat) : Attended (fun other => other = id)
      { s with connSendWindow := s.connSendWindow - c } :=
  hat.calm rfl (fun _ => rfl) fun _ st hf ha hd =>
    ⟨hd, st, hf, ha.imp rfl rfl (by dsimp only; omega)⟩

theorem touch {c : MuxStream → MuxStream} (hf : ∀ stream, (c stream).queued = stream.queued) :
    Attended (fun other => other = id) (s.modify id c) :=
  hat.modify hf fun _ _ _ hd => absurd rfl hd

/-- The end of a visit: the stream is queued again if it could send, or dropped. -/
theorem leave (ha : id ∉ s.ready)
    (hn : ∀ st, s.streams.get? id = some st → st.CanSend s.connSendWindow → goesOn s st = true) :
    Served (Http2.reap (Http2.requeue s id) id) := by
  refine (hat.requeue ha hn).reap ?_
  intro st hf he
  unfold Http2.requeue at hf ⊢
  cases ht : s.streams.get? id with
  | none => exact ha
  | some b =>
    simp only [ht] at hf ⊢
    split at hf
    next goes =>
      rw [get?_modify, if_pos rfl, ht] at hf
      cases hf
      dsimp only at he
      simp [goesOn, he] at goes
    next stays =>
      rw [if_neg stays]
      exact ha

end Attended

theorem goesOn_of_outlasts {rest : Int} {shared : Shared} {b a : MuxStream}
    {f : OutFrame} {l : List OutFrame} (ho : b.outbox = f :: l)
    (hou : b.outbox.tail.any isEmpty = true → (backlog b.outbox : Int) < b.sendWindow ∧ 0 < rest)
    (hl : rest ≤ shared.connSendWindow) (sn : Nat) (hs : sn ≤ f.unsent)
    (hw : a.sendWindow = b.sendWindow - sn) (hp : a.outbox = l)
    (ha : a.CanSend shared.connSendWindow) : goesOn shared a = true := by
  refine goesOn_of_canSend ha fun he => ?_
  rw [hp] at he
  cases l with
  | nil => simp at he
  | cons next ot =>
    have ht : b.outbox.tail.any isEmpty = true := by
      rw [ho]
      simp only [head?_cons, Option.any_some] at he
      simp [he]
    obtain ⟨hen, hso⟩ := hou ht
    have hto : backlog b.outbox = f.unsent + backlog (next :: ot) := by
      simp [backlog, ho]
    omega

namespace Attended

variable {s : Shared} {id : Nat} {rest : Int}

theorem sendHeaders {st : MuxStream} {fs : HeaderList} {es : Bool}
    {l : List OutFrame} (hat : Attended (fun other => other = id) s)
    (ha : id ∉ s.ready) (hf : s.streams.get? id = some st)
    (hr : st.reset = false) (ho : st.outbox = .headers fs es :: l) (hou : Outlasts rest s)
    (hl : rest ≤ (sendHeaders s id fs es).1.connSendWindow) : Served
      (Http2.reap (Http2.requeue
        (Http2.sendHeaders s id fs es).1 id) id) := by
  apply leave
  · unfold Http2.sendHeaders
    split
    · exact (hat.touch (by intro; rfl)).touch (by intro; rfl)
    · exact hat.touch (by intro; rfl)
  · rw [sendHeaders_ready]
    exact ha
  intro a ht hab
  rw [sendHeaders_get?, if_pos rfl, hf] at ht
  cases ht
  refine goesOn_of_outlasts ho (hou _ ((mem_entries_iff _ id st).mpr hf) hr) hl 0
    (Nat.zero_le _) ?_ ?_ hab
  · simp [MuxStream.sentHeaders]
  · simp [MuxStream.sentHeaders, ho]

theorem sendData {st : MuxStream} {bs : Octets} {off c : Nat} {es : Bool} {l : List OutFrame}
    (cfg : Config) (hat : Attended (fun other => other = id) s) (ha : id ∉ s.ready)
    (hf : s.streams.get? id = some st) (hr : st.reset = false)
    (o : st.outbox = .data bs off es :: l) (hfi : c ≤ bs.length - off) (ho : Outlasts rest s)
    (hle : rest ≤ (sendData cfg s id c bs off es).1.connSendWindow) : Served
      (Http2.reap (Http2.requeue
        (Http2.sendData cfg s id c bs off es).1 id) id) := by
  apply leave
  · unfold Http2.sendData
    dsimp only
    split
    · exact ((hat.lower c).touch (by intro; rfl)).touch (by intro; rfl)
    · exact (hat.lower c).touch (by intro; rfl)
  · rw [sendData_ready]
    exact ha
  intro a ht hab
  rw [sendData_get?, if_pos rfl, hf] at ht
  cases ht
  by_cases hl : c = bs.length - off
  · refine goesOn_of_outlasts o (ho _ ((mem_entries_iff _ id st).mpr hf) hr) hle c hfi rfl ?_ hab
    simp [MuxStream.sentData, hl, o]
  -- The frame in front is not empty yet.
  refine goesOn_of_canSend hab fun he => ?_
  simp only [MuxStream.sentData, hl, decide_false, Bool.false_eq_true, if_false,
    head?_cons, Option.any_some, isEmpty, decide_eq_true_eq] at he
  omega

theorem none_of_blocked (hat : Attended (fun other => other = id) s) (hfd : 0 < s.peer.maxFrameSize)
    (hb : ∀ st, s.streams.get? id = some st → Blocked s st) : Served s := by
  refine ⟨hat.nodup, hat.queued, ?_⟩
  intro other st hf ha _
  refine hat.sendable other st hf ha ?_
  rintro rfl
  obtain ⟨hr, hfr⟩ := ha
  rcases hb st hf with hre | he | ⟨bs, off, es, rest, ho, hn, hm⟩
  · simp [hr] at hre
  · simp [he] at hfr
  simp only [ho] at hfr
  have hc := closed_of_sendable_eq_zero hfd hm hn
  omega

theorem visit {r : List Nat} (cfg : Config) (hat : Served s)
    (hw : s.ready = id :: r) (hfr : 0 < s.peer.maxFrameSize) (hou : Outlasts rest s)
    (hle : rest ≤ (visit cfg { s with ready := r } id).1.connSendWindow) :
    Served (visit cfg { s with ready := r } id).1 := by
  have hp := hat.pop hw
  have ha : id ∉ r := by
    have hn := hat.nodup
    rw [hw, nodup_cons] at hn
    exact hn.1
  have hc := visit_cases cfg { s with ready := r } id
  have hl : Outlasts rest ({ s with ready := r }.modify id
      (fun st => { st with queued := false })) :=
    hou.evolve (.modify Lighter.refl fun _ => ⟨rfl, fun ht => ht, Int.le_refl _⟩)
  have ready_eq := modify_ready { s with ready := r } id
    (fun st => { st with queued := false })
  have framed_eq := modify_peer { s with ready := r } id
    (fun st => { st with queued := false })
  generalize Shared.modify { s with ready := r } id
    (fun st => { st with queued := false }) = taken at hp hc hl ready_eq framed_eq
  rcases hc with ⟨hv, hb⟩ | ⟨st, hf, hr, hs⟩
  · rw [hv]
    exact hp.none_of_blocked (framed_eq ▸ hfr) hb
  rcases hs with ⟨fs, es, l, ho, hv⟩ | ⟨bs, off, es, l, c, ho, rfl, _, hv⟩
  · rw [hv] at hle ⊢
    rw [leave_connSendWindow] at hle
    exact hp.sendHeaders (ready_eq ▸ ha) hf hr ho hl hle
  rw [hv] at hle ⊢
  rw [leave_connSendWindow] at hle
  exact hp.sendData cfg (ready_eq ▸ ha) hf hr ho (sendable_le_remaining ..) hl hle

open Spends

theorem drainReady (cfg : Config) (fuel length : Nat) (attended : Served s)
    (framed : 0 < s.peer.maxFrameSize) (outlasts : Outlasts rest s)
    (left : rest ≤ s.connSendWindow -
      min (s.readyBacklog : Int) (WRITE_BATCH_TARGET - length + MAX_OUT_FRAME)) :
    Served (drainReady cfg fuel s length).1 := by
  induction fuel generalizing s length with
  | zero => exact attended
  | succ fuel ih =>
    unfold Http2.drainReady
    split
    · exact attended
    next room =>
    split
    · exact attended
    next id ready waiting =>
    have absent : id ∉ ready := (nodup_cons.mp (waiting ▸ attended.nodup)).1
    have spends := (writing cfg _).visit [] id (refl { s with ready := ready })
    obtain ⟨sent, small, window, counted, drained⟩ := visit_backlog cfg waiting absent
    refine ih _ ?_ ?_ ?_ ?_
    · exact attended.visit cfg waiting framed outlasts (by omega)
    · rw [spends.peer]
      exact framed
    · exact outlasts.evolve spends.streams
    · push_cast
      omega

theorem buildBatch (cfg : Config) (attended : Served s)
    (framed : 0 < s.peer.maxFrameSize)
    (outlasts : Outlasts (s.connSendWindow -
      min s.readyBacklog (WRITE_BATCH_TARGET + MAX_OUT_FRAME)) s) :
    Served (buildBatch cfg s).1 := by
  obtain ⟨visits, _, whole⟩ := buildBatch_eq cfg s
  rw [whole]
  refine drainReady cfg visits _ (attended.of_fields rfl rfl rfl) framed outlasts ?_
  change _ ≤ s.connSendWindow - min (s.readyBacklog : Int) _
  omega

end Attended

/-- The client's settings take no window of a stream past the limit. -/
def Fits (shared : Shared) (frame : Frame) : Prop :=
  let applied := shared.peer.applyAll (settingsPairs frame.payload)
  applied.2.toBool = true → ∀ entry ∈ shared.streams.entries,
    entry.2.sendWindow + (applied.1.initialWindowSize - shared.peer.initialWindowSize) ≤
      MAX_WINDOW_SIZE

instance (shared : Shared) (frame : Frame) : Decidable (Fits shared frame) :=
  inferInstanceAs (Decidable (_ → ∀ entry ∈ _, _))

theorem foldl_shiftWindow_fits {d : Int} {shared : Shared} {ids : List Nat} (hd : ids.Nodup)
    (hfi : ∀ id ∈ ids, ∀ st, shared.streams.get? id = some st →
      st.sendWindow + d ≤ MAX_WINDOW_SIZE) :
    (ids.foldl (shiftWindow d) (shared, false)).2 = false := by
  induction ids generalizing shared with
  | nil => rfl
  | cons id rest ih =>
    obtain ⟨hfr, hd⟩ := nodup_cons.mp hd
    have hf : shiftWindow d (shared, false) id = (shared.modify id (fun st =>
          { st with sendWindow := st.sendWindow + d }), false) := by
      unfold shiftWindow
      dsimp only
      rw [get?_modify, if_pos rfl]
      cases hfo : shared.streams.get? id with
      | none => rfl
      | some st =>
        have fit := hfi id (by simp) st hfo
        simpa using fit
    rw [foldl_cons, hf]
    apply ih hd
    intro other hi st ht
    have hdi : other ≠ id := fun hs => hfr (hs ▸ hi)
    rw [get?_modify, if_neg hdi] at ht
    exact hfi other (mem_cons_of_mem _ hi) st ht

theorem Settings.apply_framed {s next : Settings} {id v : Nat}
    (ha : s.apply id v = .ok next) (hf : 0 < s.maxFrameSize) : 0 < next.maxFrameSize := by
  unfold apply at ha
  split at ha
  case h_5 =>
    split at ha
    · cases ha
    next within =>
    cases ha
    simp only [not_or, Nat.not_lt, MIN_MAX_FRAME_SIZE] at within
    dsimp only
    omega
  case h_2 =>
    split at ha
    all_goals
      cases ha
      try exact hf
  case h_4 =>
    split at ha
    · cases ha
    · cases ha
      exact hf
  all_goals
    cases ha
    exact hf

theorem Settings.applyAll_framed {s : Settings} (p : List (Nat × Nat))
    (hf : 0 < s.maxFrameSize) : 0 < (s.applyAll p).1.maxFrameSize := by
  induction p generalizing s with
  | nil => exact hf
  | cons pr rest ih =>
    unfold applyAll
    split
    · exact hf
    next applied => exact ih (apply_framed applied hf)

/-- All sendable streams are queued, and a frame has room for data. -/
structure Tended (shared : Shared) : Prop where
  attended : Served shared
  framed : 0 < shared.peer.maxFrameSize

namespace Attended

variable {s : Shared}

theorem shiftWindow (ha : Attended (fun _ => True) s) (d : Int) (o : Bool)
    (id : Nat) : Attended (fun _ => True) (shiftWindow d (s, o) id).1 := by
  cases o with
  | true => exact ha
  | false => exact ha.modify (by intro; rfl) fun _ _ _ hi => absurd trivial hi

theorem foldl_shiftWindow (ha : Attended (fun _ => True) s) (d : Int) (o : Bool) (ids : List Nat) :
    Attended (fun _ => True) (ids.foldl (Shared.shiftWindow d) (s, o)).1 := by
  induction ids generalizing s o with
  | nil => exact ha
  | cons id rest ih =>
    exact ih (ha.shiftWindow d o id) _

end Attended

/-- An increment that takes a window past the limit finds it open. -/
theorem open_of_overflow {pl : Octets} {i : Nat} {w : Int} (hp : parseWindowUpdate pl = .ok i)
    (ho : (MAX_WINDOW_SIZE : Int) < w + i) : 0 < w := by
  unfold parseWindowUpdate at hp
  split at hp
  · cases hp
  cases hp
  unfold masked MAX_WINDOW_SIZE at *
  omega

namespace Tended

variable {s : Shared}

theorem quiet (ht : Tended s) (id : Nat) {c : MuxStream → MuxStream}
    (hf : ∀ st, (c st).queued = st.queued) (hr : ∀ st, (c st).reset = st.reset)
    (ho : ∀ st, (c st).outbox = st.outbox) (hw : ∀ st, (c st).sendWindow = st.sendWindow) :
    Tended (s.modify id c) where
  attended := ht.attended.modify hf fun st _ ha _ =>
    ha.imp (hr st).symm (ho st).symm (by rw [hw]; exact fun hwi => hwi)
  framed := by
    rw [modify_peer]
    exact ht.framed

theorem moved (ht : Tended s) (id : Nat) (next : StreamState) :
    Tended (s.modify id fun st => { st with state := next }) :=
  ht.quiet id (by intro; rfl) (by intro; rfl) (by intro; rfl) (by intro; rfl)

theorem opened (ht : Tended s) {sid : Nat} (hfr : s.streams.get? sid = none)
    (es : Bool) : Tended (s.open sid es) where
  attended := by
    refine ⟨ht.attended.nodup, ?_, ?_⟩
    · intro other
      have hb := ht.attended.queued other
      simp only [Shared.open, get?_insert]
      by_cases hh : other = sid
      · subst hh
        simpa [hfr, MuxStream.opened, MuxStream.new] using hb
      · simpa [hh] using hb
    intro other st hf ha hi
    simp only [Shared.open, get?_insert] at hf
    split at hf
    · -- The new stream has nothing to send.
      cases hf
      exact absurd ha.2 (by simp [MuxStream.opened, MuxStream.new])
    · exact ht.attended.sendable other st hf ha hi
  framed := ht.framed

theorem settles (ht : Tended s) {rd : ReaderState} {f : Frame}
    {res : Shared × Outcome} (hs : Settles rd s f res)
    (fits : f.kind = .settings → f.hasFlag ACK = false → Fits s f) : Tended res.1 := by
  have attended := ht.attended
  have framed := applyAll_framed (settingsPairs f.payload) ht.framed
  have within {p : Settings} (kind : f.kind = .settings) (hps : f.hasFlag ACK = false)
      (applied : s.peer.applyAll (settingsPairs f.payload) = (p, .ok ())) :
      (s.adjust p).2 = false :=
    foldl_shiftWindow_fits s.nodup_ids fun id _ st found => by
      have fit := fits kind hps
      rw [Fits, applied] at fit
      exact fit rfl (id, st) ((mem_entries_iff _ id st).mpr found)
  cases hs with
  | fatal | quiet | reply | stop | dependent | ungranted => exact ht
  | refused => exact ⟨attended.of_fields rfl rfl rfl, framed⟩
  | adopted _ _ applied =>
    rw [applied] at framed
    exact ⟨attended.of_fields rfl rfl rfl, framed⟩
  | @adjusted p _ _ applied small =>
    rw [applied] at framed
    have whole : Attended (fun _ => True) { s with peer := p } :=
      (attended.weaken fun _ => False.elim).of_fields rfl rfl rfl
    have moved := whole.foldl_shiftWindow
      (p.initialWindowSize - s.peer.initialWindowSize) false s.ids
    refine ⟨moved.markAllReady.of_fields rfl rfl rfl, ?_⟩
    have kept := (KeepsWindows.markAllReady (s.adjust p).1).peer
    exact (kept.trans (shiftWindows_shifted (Prod.ext rfl small)).peer) ▸ framed
  | overflowed _ kind hps applied he => simp [within kind hps applied] at he
  | @raised i =>
    have raised : Attended (fun _ => True) (s.raise i) :=
      attended.calm rfl (fun _ => rfl) fun _ _ _ _ hi => absurd trivial hi
    refine ⟨raised.markAllReady, ?_⟩
    rw [(KeepsWindows.markAllReady _).peer]
    exact ht.framed
  | raisedOver _ parsed he =>
    refine ⟨attended.calm rfl (fun _ => rfl) ?_, ht.framed⟩
    intro id st hf hab hi
    have positive := open_of_overflow parsed he
    exact ⟨hi, st, hf, hab.imp rfl rfl fun hw => ⟨hw.1, positive⟩⟩
  | granted =>
    refine ⟨(attended.refill _ (by intro; rfl)).none_of_markReady, ?_⟩
    rw [(KeepsWindows.markReady _ _).peer]
    exact (modify_peer s _ _) ▸ ht.framed
  | grantedOver _ _ _ parsed _ he =>
    refine ⟨attended.modify (by intro; rfl) (fun st hf hab _ => ?_), ?_⟩
    · have positive := open_of_overflow parsed (he st hf)
      exact hab.imp rfl rfl fun hw => ⟨positive, hw.2⟩
    · exact (modify_peer s _ _) ▸ ht.framed
  | aborted | abortedOver =>
    refine ⟨(attended.abort _).of_fields rfl rfl rfl, ?_⟩
    exact (KeepsWindows.abort s _).peer ▸ ht.framed

theorem takeFrame {mux : Mux} (ht : Tended mux.shared) {f : Frame}
    (hfi : f.kind = .settings → f.hasFlag ACK = false → Fits mux.shared f) :
    Tended (takeFrame mux f).1 := by
  have hr := takeFrame_receives mux f
  generalize Http2.takeFrame mux f = res at hr ⊢
  cases hr with
  | refused | kept => exact ht
  | moved => exact ht.moved ..
  | opened _ hf => exact ht.opened hf _
  | settled hs => exact ht.settles hs hfi

theorem foldl_drain (ht : Tended s) (ids : List Nat) : Tended (ids.foldl (fun s id =>
      s.modify id fun st => { st with drain := true }) s) := by
  induction ids generalizing s with
  | nil => exact ht
  | cons id rest ih =>
    apply ih
    exact ht.quiet id (by intro; rfl) (by intro; rfl) (by intro; rfl) (by intro; rfl)

theorem run {mux : Mux} (ht : Tended mux.shared) (cfg : Config) (rest : List ReaderOp)
    (op : ReaderOp) : Tended (op.run cfg mux rest).shared := by
  have hp := (op.run_keeps cfg mux rest).1.peer
  have hf : 0 < (op.run cfg mux rest).shared.peer.maxFrameSize := hp ▸ ht.framed
  cases op with
  | pushCtrl bs | spawn sid req b | setDone => exact ⟨ht.attended.of_fields rfl rfl rfl, hf⟩
  | capCheck sid hdrs es => exact ht
  | resetLocal sid c => exact ⟨ht.attended.resetLocal sid, hf⟩
  | failStream id c => exact ⟨ht.attended.abort id, hf⟩
  | teardown =>
    apply foldl_drain
    exact ⟨ht.attended.of_fields rfl rfl rfl, ht.framed⟩

end Tended

/-- When the writer takes its turn, the windows last for empty frames behind others: the stream's
for all its unsent bytes, the connection's for those of the queue or of the largest batch.  The
client's settings take no window past the limit. -/
def Attentive (mux : Mux) : Action → Prop
  | .writer => Outlasts (mux.shared.connSendWindow -
      min mux.shared.readyBacklog (WRITE_BATCH_TARGET + MAX_OUT_FRAME)) mux.shared
  | .frame frame => mux.listening = true ∧ mux.program = [] →
      frame.kind = .settings → frame.hasFlag ACK = false → Fits mux.shared frame
  | _ => True

instance (mux : Mux) : (action : Action) → Decidable (Attentive mux action)
  | .writer => inferInstanceAs (Decidable (Outlasts _ _))
  | .frame _ => inferInstanceAs (Decidable (_ → _ → _ → _))
  | .eof | .reader | .handler _ _ => .isTrue trivial

theorem buildBatch_peer (cfg : Config) (shared : Shared) :
    (buildBatch cfg shared).1.peer = shared.peer :=
  ((Spends.writing cfg shared).buildBatch (Spends.refl shared)).peer

theorem Tended.step {mux : Mux} (ht : Tended mux.shared) {config : Config} {action : Action}
    (ha : Attentive mux action) : Tended (step config mux action).1.shared := by
  cases action with
  | frame frame =>
    simp only [Http2.step]
    split
    next ready => exact ht.takeFrame (ha ready)
    next => exact ht
  | eof =>
    simp only [Http2.step]
    split <;> exact ht
  | reader =>
    simp only [Http2.step]
    split
    · exact ht
    next op rest _ => exact ht.run config rest op
  | handler index event =>
    simp only [Http2.step]
    split
    · exact ht
    next task _ =>
      refine ⟨ht.attended.handler config task event, ?_⟩
      rw [(KeepsWindows.handler config mux.shared task event).peer]
      exact ht.framed
  | writer =>
    obtain ⟨written, hba, hs⟩ := step_writer config mux
    have hb := ht.attended.buildBatch config ht.framed ha
    have hp := buildBatch_peer config mux.shared
    rw [← hba] at hb hp
    rw [hs]
    exact ⟨hb, hp ▸ ht.framed⟩

theorem tended_start : Tended Mux.start.shared where
  attended := by
    refine ⟨by decide, ?_, ?_⟩
    · intro id
      simp [Mux.start, pushCtrl, new]
    · intro id st hf
      exact absurd hf (by simp [Mux.start, pushCtrl, new])
  framed := by decide

/-- While the windows last, however the sections interleave, the queue holds every stream that
could send, each queued stream once, and no other. -/
theorem sendable_streams_queued (config : Config) (actions : List Action)
    (attentive : (connection config).Meets Attentive Mux.start actions) :
    let shared := ((connection config).final Mux.start actions).shared
    shared.ready.Nodup ∧
      (∀ id, id ∈ shared.ready ↔
        ∃ stream, shared.streams.get? id = some stream ∧ stream.queued = true) ∧
      ∀ id stream, shared.streams.get? id = some stream →
        stream.CanSend shared.connSendWindow → id ∈ shared.ready := by
  have hk (mux : Mux) (act : Action) (ht : Tended mux.shared)
      (ha : Attentive mux act) :
      Tended ((connection config).step mux act).1.shared := ht.step ha
  have ht := Machine.invariant hk tended_start attentive
  refine ⟨ht.attended.nodup, ht.attended.queued, ?_⟩
  intro id stream hf hab
  exact ht.attended.sendable id stream hf hab not_false

/-! A handler streams a response while the client's windows for streams start at the given size. -/

namespace Overlooked

def config : Config := ⟨1024, fun _ => true⟩

def actions (window : Nat) (produced : List Action) : List Action :=
  [.frame ⟨.settings, 0, 0, bigEndian 2 4 ++ bigEndian 4 window⟩,
   .frame ⟨.headers, END_STREAM ||| END_HEADERS, 1, [0x82, 0x84, 0x87]⟩,
   .reader, .reader, .handler 0 (.respond ⟨200, []⟩ .stream), .handler 0 .proceed,
   .handler 0 .proceed] ++ produced ++ [.handler 0 .ended, .handler 0 .proceed, .writer]

/-- With a window of zero the frame that ends an empty response stays behind the header block. -/
theorem last_frame_forgotten :
    let shared := ((connection config).final Mux.start (actions 0 [])).shared
    ∃ st, shared.streams.get? 1 = some st ∧ st.CanSend shared.connSendWindow ∧
      1 ∉ shared.ready := by
  refine ⟨⟨.halfClosedRemote, 0, [.data [] 0 true], false, false, 0, false⟩, ?_, ?_, ?_⟩
  · decide +kernel
  · exact ⟨rfl, .inl rfl⟩
  · decide +kernel

def chunk : List Action :=
  [.handler 0 (.chunk [0x68, 0x69]), .handler 0 .proceed, .handler 0 .proceed]

theorem small_response_attended :
    (connection config).Meets Attentive Mux.start (actions 3 chunk) ∧
      let shared := ((connection config).final Mux.start (actions 3 chunk)).shared
      ∀ id st, shared.streams.get? id = some st →
        st.CanSend shared.connSendWindow → id ∈ shared.ready := by
  have ha : (connection config).Meets Attentive Mux.start (actions 3 chunk) := by
    decide +kernel
  exact ⟨ha, (sendable_streams_queued config (actions 3 chunk) ha).2.2⟩

end Overlooked

end BoatRamp.Http2
