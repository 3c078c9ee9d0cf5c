import BoatRamp.Http2.Connection

/-!
# What the sections of a connection do to the send windows

Most sections leave every window alone.  The exceptions are the settings of the
client, which shift all of them, its window updates, a stream that opens, and
the data that the writer sends.
-/

namespace BoatRamp.Http2

open Library Shared

def SameWindow (before after : MuxStream) : Prop := after.sendWindow = before.sendWindow

structure KeepsWindows (shared next : Shared) : Prop where
  streams : Shared.Evolves SameWindow shared next
  connection : next.connSendWindow = shared.connSendWindow
  peer : next.peer = shared.peer

namespace KeepsWindows

variable {s next : Shared}

theorem refl (s : Shared) : KeepsWindows s s :=
  ⟨.refl (fun _ => rfl), rfl, rfl⟩

theorem trans {m l : Shared} (he : KeepsWindows s m)
    (hl : KeepsWindows m l) : KeepsWindows s l where
  streams := he.streams.trans (fun _ _ _ hf hs => hs.trans hf) hl.streams
  connection := hl.connection.trans he.connection
  peer := hl.peer.trans he.peer

theorem modify (s : Shared) (id : Nat) {c : MuxStream → MuxStream}
    (hs : ∀ stream, (c stream).sendWindow = stream.sendWindow) :
    KeepsWindows s (s.modify id c) where
  streams := .modify (fun _ => (rfl : SameWindow _ _)) hs
  connection := by simp
  peer := by simp

theorem markReady (s : Shared) (id : Nat) : KeepsWindows s (s.markReady id) := by
  have hq (st : MuxStream) : SameWindow st { st with queued := true } := rfl
  refine ⟨.markReady (fun st => (rfl : SameWindow st st)) hq s id, ?_, ?_⟩
  all_goals
    unfold Shared.markReady
    split
    · rfl
    · split <;> rfl

theorem foldl {op : Shared → Nat → Shared} (he : ∀ s id, KeepsWindows s (op s id)) (s : Shared)
    (ids : List Nat) : KeepsWindows s (ids.foldl op s) := by
  induction ids generalizing s with
  | nil => exact refl s
  | cons id rest ih => exact (he s id).trans (ih _)

theorem markAllReady (s : Shared) : KeepsWindows s s.markAllReady :=
  foldl markReady s s.ids

theorem pushCtrl (s : Shared) (bs : Octets) : KeepsWindows s (s.pushCtrl bs) :=
  ⟨.of_eq (fun _ => rfl) rfl, rfl, rfl⟩

theorem pushOut (s : Shared) (id : Nat) (f : OutFrame) : KeepsWindows s (s.pushOut id f).1 := by
  unfold Shared.pushOut
  split
  · exact refl s
  split
  · exact refl s
  · exact (modify s id (by intro; rfl)).trans (markReady _ id)

theorem resetLocal (s : Shared) (id : Nat) : KeepsWindows s (s.resetLocal id).1 := by
  unfold Shared.resetLocal
  split
  · exact refl s
  split
  · exact refl s
  · exact modify s id (by intro; rfl)

theorem abort (s : Shared) (id : Nat) : KeepsWindows s (s.abort id) :=
  modify s id (by intro; rfl)

theorem closeLocal (s : Shared) (id : Nat) : KeepsWindows s (s.closeLocal id) :=
  modify s id (by intro; rfl)

theorem of_fields (hs : next.streams = s.streams) (hc : next.connSendWindow = s.connSendWindow)
    (hp : next.peer = s.peer) : KeepsWindows s next :=
  ⟨.of_eq (fun _ => rfl) hs, hc, hp⟩

theorem ite {c : Prop} [Decidable c] {o : Shared}
    (hf : KeepsWindows s next) (hs : KeepsWindows s o) :
    KeepsWindows s (if c then next else o) := by
  split
  · exact hf
  · exact hs

theorem handler (cfg : Config) (s : Shared) (t : HandlerTask) (ev : HandlerEvent) :
    KeepsWindows s (t.step cfg s ev).1 := by
  have hr := t.step_runs cfg s ev
  generalize t.step cfg s ev = res at hr ⊢
  cases hr with
  | move => exact refl s
  | fill => exact (modify s _ (by intro; rfl)).trans (markReady _ _)
  | drop => exact markReady ..
  | push => exact pushOut ..
  | wake => exact modify s _ (by intro; rfl)
  | reset => exact resetLocal ..
  | report => exact pushCtrl ..
  | finish => exact of_fields rfl rfl rfl

end KeepsWindows

namespace KeepsWindows

variable (s : Shared)

theorem sendHeaders (id : Nat) (fs : HeaderList) (es : Bool) :
    KeepsWindows s (sendHeaders s id fs es).1 := by
  unfold Http2.sendHeaders
  dsimp only
  split
  · exact (modify s id (by intro; rfl)).trans (closeLocal _ id)
  · exact modify s id (by intro; rfl)

theorem requeue (id : Nat) : KeepsWindows s (requeue s id) := by
  unfold Http2.requeue
  split
  · exact refl s
  apply ite
  · exact (modify s id (by intro; rfl)).trans (of_fields rfl rfl rfl)
  · exact refl s

theorem reap (id : Nat) : KeepsWindows s (reap s id) := by
  unfold Http2.reap
  split
  · exact refl s
  split
  · refine ⟨?_, rfl, rfl⟩
    intro o st hf
    rw [SortedMap.get?_erase] at hf
    split at hf
    · exact absurd hf (by simp)
    · exact ⟨st, hf, rfl⟩
  · exact refl s

end KeepsWindows

structure Shifted (ids : List Nat) (delta : Int) (shared next : Shared) : Prop where
  streams : ∀ id, (next.streams.get? id).map MuxStream.sendWindow =
    if id ∈ ids then (shared.streams.get? id).map fun stream => stream.sendWindow + delta
    else (shared.streams.get? id).map MuxStream.sendWindow
  connection : next.connSendWindow = shared.connSendWindow
  peer : next.peer = shared.peer

theorem foldl_shiftWindow_overflow (d : Int) (sh : Shared) (ids : List Nat) :
    (ids.foldl (shiftWindow d) (sh, true)).2 = true := by
  induction ids with
  | nil => rfl
  | cons id rest ih => exact ih

theorem foldl_shiftWindow (d : Int) (sh : Shared) {ids : List Nat} (hd : ids.Nodup)
    (hfi : (ids.foldl (shiftWindow d) (sh, false)).2 = false) :
    Shifted ids d sh (ids.foldl (shiftWindow d) (sh, false)).1 := by
  induction ids generalizing sh with
  | nil => exact ⟨fun _ => by simp, rfl, rfl⟩
  | cons id rest ih =>
    obtain ⟨hfr, hd⟩ := List.nodup_cons.mp hd
    rw [List.foldl_cons] at hfi ⊢
    rcases hf : shiftWindow d (sh, false) id with ⟨next, o⟩
    rw [hf] at hfi
    cases o with
    | true => exact absurd (foldl_shiftWindow_overflow d next rest) (by simp [hfi])
    | false =>
      have hl := ih next hd hfi
      have hs : next = sh.modify id (fun st =>
          { st with sendWindow := st.sendWindow + d }) :=
        (congrArg Prod.fst hf).symm
      refine ⟨?_, ?_, ?_⟩
      · intro ot
        rw [hl.streams, hs, get?_modify]
        by_cases hh : ot = id
        · subst hh
          simp [hfr, Function.comp_def]
        · simp [hh]
      · rw [hl.connection, hs, modify_connSendWindow]
      · rw [hl.peer, hs, modify_peer]

def WindowGrown (delta : Int) (before after : MuxStream) : Prop :=
  after.sendWindow = before.sendWindow + delta

theorem Shared.nodup_ids (sh : Shared) : sh.ids.Nodup := by
  unfold ids List.Nodup
  rw [List.pairwise_map]
  exact sh.streams.sorted.imp fun hb => Nat.ne_of_lt hb

theorem Shared.mem_ids {sh : Shared} {id : Nat} {st : MuxStream}
    (hf : sh.streams.get? id = some st) : id ∈ sh.ids :=
  List.mem_map.mpr ⟨(id, st), (sh.streams.mem_entries_iff id st).mpr hf, rfl⟩

theorem shiftWindows_shifted {sh next : Shared} {d : Int}
    (hm : sh.shiftWindows d = (next, false)) : Shifted sh.ids d sh next := by
  unfold shiftWindows at hm
  have hs := foldl_shiftWindow d sh sh.nodup_ids (by rw [hm])
  rwa [hm] at hs

theorem Shifted.evolves {sh next : Shared} {d : Int} (hs : Shifted sh.ids d sh next) :
    Shared.Evolves (WindowGrown d) sh next := by
  intro id st hf
  have hw := hs.streams id
  rw [hf] at hw
  cases ht : sh.streams.get? id with
  | none => simp [ht] at hw
  | some b =>
    refine ⟨b, rfl, ?_⟩
    simpa [mem_ids ht, ht, WindowGrown] using hw

theorem openRequest_lastClientId (cfg : Config) (rd : ReaderState) (oc : Bool) (sid : Nat)
    (hdrs : HeaderList) (es : Bool) :
    (rd.openRequest cfg oc sid hdrs es).1.lastClientId = rd.lastClientId := by
  unfold ReaderState.openRequest
  split
  · rfl
  split
  · rfl
  · dsimp only
    split <;> rfl

theorem ReaderOp.run_keeps (cfg : Config) (mux : Mux) (rest : List ReaderOp) (op : ReaderOp) :
    KeepsWindows mux.shared (op.run cfg mux rest).shared ∧
      (op.run cfg mux rest).reader.lastClientId = mux.reader.lastClientId := by
  cases op with
  | pushCtrl bs => exact ⟨.pushCtrl _ _, rfl⟩
  | capCheck sid hdrs es => exact ⟨.refl _, openRequest_lastClientId ..⟩
  | resetLocal sid c => exact ⟨.resetLocal _ _, rfl⟩
  | spawn sid req b | setDone => exact ⟨.of_fields rfl rfl rfl, rfl⟩
  | failStream id c => exact ⟨.abort _ _, rfl⟩
  | teardown =>
    have hd : KeepsWindows mux.shared { mux.shared with readerDone := true } :=
      .of_fields rfl rfl rfl
    refine ⟨hd.trans (KeepsWindows.foldl ?_ _ _), rfl⟩
    exact fun sh id => .modify sh id (by intro; rfl)

end BoatRamp.Http2
