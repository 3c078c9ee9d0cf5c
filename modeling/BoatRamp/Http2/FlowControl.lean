import BoatRamp.Http2.Windows

/-!
# Flow control of the sender

A ledger, kept from the frames of the client alone, says how many bytes it has
granted to the connection and to every stream, and how large a frame may be.
The windows of the driver are what the ledger has granted less what was sent,
so every data frame stays within them when it is committed to a batch.
-/

namespace BoatRamp.Http2

open Library Shared

inductive Event where
  | received (frame : Frame)
  | sent (segment : Segment)

/-- What the client has granted, and what was sent against it. -/
structure Ledger where
  initialWindow : Int
  maxFrame : Nat
  connectionCredit : Int
  connectionSpent : Int
  /-- The credit of every stream that was opened. -/
  streamCredit : Nat → Option Int
  streamSpent : Nat → Int

namespace Ledger

def start : Ledger where
  initialWindow := 65535
  maxFrame := 16384
  connectionCredit := 65535
  connectionSpent := 0
  streamCredit _ := none
  streamSpent _ := 0

variable (ledger : Ledger)

/-- One parameter of the client's settings; a new initial window shifts every stream. -/
def applySetting (pair : Nat × Nat) : Ledger :=
  if pair.1 = 4 then
    { ledger with
      initialWindow := pair.2
      streamCredit := fun id =>
        (ledger.streamCredit id).map (fun credit => credit + (pair.2 - ledger.initialWindow)) }
  else if pair.1 = 5 then { ledger with maxFrame := pair.2 }
  else ledger

def grant (ledger : Ledger) (id increment : Nat) : Ledger :=
  { ledger with
    streamCredit := fun other =>
      if other = id then (ledger.streamCredit id).map (· + (increment : Int))
      else ledger.streamCredit other }

def openStream (id : Nat) : Ledger :=
  { ledger with
    streamCredit := fun other =>
      if other = id then some ((ledger.streamCredit id).getD ledger.initialWindow)
      else ledger.streamCredit other }

def receive (frame : Frame) : Ledger :=
  match frame.kind with
  | .settings =>
      if frame.hasFlag ACK then ledger
      else (settingsPairs frame.payload).foldl applySetting ledger
  | .windowUpdate =>
      let increment := masked (ofBigEndian frame.payload)
      if frame.streamId = 0 then
        { ledger with connectionCredit := ledger.connectionCredit + increment }
      else ledger.grant frame.streamId increment
  | .headers => ledger.openStream frame.streamId
  | _ => ledger

def send (ledger : Ledger) : Segment → Ledger
  | .data id payload _ =>
      { ledger with
        connectionSpent := ledger.connectionSpent + payload.length
        streamSpent := fun other =>
          if other = id then ledger.streamSpent id + payload.length else ledger.streamSpent other }
  | _ => ledger

def Permits : Segment → Prop
  | .data id payload _ =>
      payload.length ≤ ledger.maxFrame ∧
        (payload ≠ [] →
          ledger.connectionSpent + payload.length ≤ ledger.connectionCredit ∧
          ∃ credit, ledger.streamCredit id = some credit ∧
            ledger.streamSpent id + payload.length ≤ credit)
  | _ => True

/-- At every moment the connection's credit covers what was sent, and everything that is sent is
permitted then. -/
def Respects (ledger : Ledger) : List Event → Prop
  | [] => ledger.connectionSpent ≤ ledger.connectionCredit
  | .received frame :: rest =>
      ledger.connectionSpent ≤ ledger.connectionCredit ∧ (ledger.receive frame).Respects rest
  | .sent segment :: rest =>
      ledger.connectionSpent ≤ ledger.connectionCredit ∧ ledger.Permits segment ∧
        (ledger.send segment).Respects rest

end Ledger

def eventsOf (mux : Mux) (action : Action) (batch : Batch) : List Event :=
  match action with
  | .frame frame => if mux.listening ∧ mux.program = [] then [.received frame] else []
  | _ => batch.map .sent

def events (config : Config) : Mux → List Action → List Event
  | _, [] => []
  | mux, action :: rest =>
      eventsOf mux action (step config mux action).2 ++
        events config (step config mux action).1 rest

def Handled (mux : Mux) (action : Action) : Prop :=
  ∀ frame code, action = .frame frame → mux.listening = true → mux.program = [] →
    (takeFrame mux frame).2.2 ≠ .fail (.connection code)

/-- The windows are the credits less what was sent; streams that may still open have no more than
the initial window. -/
structure Balanced (ledger : Ledger) (shared : Shared) (lastClientId : Nat) : Prop where
  initialWindow : (shared.peer.initialWindowSize : Int) = ledger.initialWindow
  maxFrame : shared.peer.maxFrameSize = ledger.maxFrame
  connection : shared.connSendWindow = ledger.connectionCredit - ledger.connectionSpent
  solvent : 0 ≤ shared.connSendWindow
  streams : ∀ id stream, shared.streams.get? id = some stream →
    ∃ credit, ledger.streamCredit id = some credit ∧
      stream.sendWindow = credit - ledger.streamSpent id
  known : ∀ id stream, shared.streams.get? id = some stream → id ≤ lastClientId
  unopened : ∀ id, lastClientId < id → ledger.streamSpent id = 0 ∧
    ∀ credit, ledger.streamCredit id = some credit → credit = ledger.initialWindow

namespace Balanced

variable {lg : Ledger} {shared next : Shared} {last : Nat}

theorem keep (hba : Balanced lg shared last) (hk : KeepsWindows shared next) :
    Balanced lg next last where
  initialWindow := hk.peer ▸ hba.initialWindow
  maxFrame := hk.peer ▸ hba.maxFrame
  connection := hk.connection.trans hba.connection
  solvent := hk.connection ▸ hba.solvent
  streams := by
    intro id str hf
    obtain ⟨b, ht, hs⟩ := hk.streams id str hf
    obtain ⟨c, hg, hw⟩ := hba.streams id b ht
    exact ⟨c, hg, Eq.trans hs hw⟩
  known := by
    intro id str hf
    obtain ⟨b, ht, _⟩ := hk.streams id str hf
    exact hba.known id b ht
  unopened := hba.unopened

theorem covered (hba : Balanced lg shared last) : lg.connectionSpent ≤ lg.connectionCredit := by
  have hw := hba.connection
  have hs := hba.solvent
  omega

end Balanced

def Ledger.Passes (ledger : Ledger) (stretch : List Event) (next : Ledger) : Prop :=
  ∀ rest, next.Respects rest → ledger.Respects (stretch ++ rest)

theorem Ledger.Passes.nil (ledger : Ledger) : ledger.Passes [] ledger := fun _ hr => hr

theorem Ledger.Passes.append {ledger m next : Ledger} {x y : List Event}
    (he : ledger.Passes x m) (hl : m.Passes y next) : ledger.Passes (x ++ y) next := by
  intro rest hr
  rw [List.append_assoc]
  exact he _ (hl rest hr)

theorem Ledger.Passes.received {ledger : Ledger} (frame : Frame)
    (hc : ledger.connectionSpent ≤ ledger.connectionCredit) :
    ledger.Passes [.received frame] (ledger.receive frame) :=
  fun _ hr => ⟨hc, hr⟩

theorem Ledger.Passes.sent {ledger : Ledger} {sg : Segment}
    (hc : ledger.connectionSpent ≤ ledger.connectionCredit)
    (hp : ledger.Permits sg) : ledger.Passes [.sent sg] (ledger.send sg) :=
  fun _ hr => ⟨hc, hp, hr⟩

variable {st : MuxStream}

theorem sendable_le {shared : Shared} {r : Nat} (hp : sendable shared st r ≠ 0) :
    (sendable shared st r : Int) ≤ st.sendWindow ∧
      (sendable shared st r : Int) ≤ shared.connSendWindow ∧
      sendable shared st r ≤ shared.peer.maxFrameSize := by
  unfold sendable at hp ⊢
  split at hp
  · exact absurd rfl hp
  rename_i more
  rw [if_neg more]
  dsimp only at hp ⊢
  omega

theorem length_stretch {bs : Octets} {off c : Nat} (hf : c ≤ bs.length - off) :
    ((bs.drop off).take c).length = c := by
  rw [List.length_take, List.length_drop]
  exact Nat.min_eq_left hf

theorem Balanced.permits_stretch {ledger : Ledger} {shared : Shared} {last id : Nat}
    (hba : Balanced ledger shared last) (hf : shared.streams.get? id = some st)
    (bs : Octets) (off : Nat) (es : Bool) : ledger.Permits (.data id
      ((bs.drop off).take (sendable shared st (bs.length - off))) es) := by
  have hl := length_stretch (sendable_le_remaining shared st (bs.length - off))
  obtain ⟨c, hg, hww⟩ := hba.streams id st hf
  have hc := hba.connection
  have hm := hba.maxFrame
  by_cases hi : sendable shared st (bs.length - off) = 0
  · have he : (bs.drop off).take (sendable shared st (bs.length - off)) = [] := by
      rw [hi, List.take_zero]
    rw [he]
    exact ⟨Nat.zero_le _, fun some => absurd rfl some⟩
  · obtain ⟨hwi, hw, hwe⟩ := sendable_le hi
    refine ⟨?_, fun _ => ⟨?_, c, hg, ?_⟩⟩ <;> rw [hl] <;> omega

open Ledger

theorem Balanced.spend {ledger : Ledger} {shared : Shared} {last id : Nat}
    (hba : Balanced ledger shared last) (hf : shared.streams.get? id = some st)
    {pl : Octets} {c : Nat} (es : Bool) (hle : pl.length = c)
    (hw : (c : Int) ≤ shared.connSendWindow) {ch : MuxStream → MuxStream}
    (hs : ∀ st, (ch st).sendWindow = st.sendWindow - c) : Balanced (ledger.send (.data id pl es))
      ({ shared with connSendWindow := shared.connSendWindow - c }.modify id ch) last where
  initialWindow := by simpa [send] using hba.initialWindow
  maxFrame := by simpa [send] using hba.maxFrame
  connection := by
    have hc := hba.connection
    simp only [modify_connSendWindow, send]
    omega
  solvent := by
    simp only [modify_connSendWindow]
    omega
  streams := by
    intro o after ht
    rw [get?_modify] at ht
    by_cases hh : o = id
    · subst hh
      rw [if_pos rfl, hf] at ht
      cases ht
      obtain ⟨cr, hg, hwi⟩ := hba.streams o st hf
      refine ⟨cr, hg, ?_⟩
      simp only [send, if_true]
      have hsh := hs st
      omega
    · rw [if_neg hh] at ht
      simpa only [send, if_neg hh] using hba.streams o after ht
  known := by
    intro o after ht
    rw [get?_modify] at ht
    split at ht
    next hh => exact hh ▸ hba.known id st hf
    next => exact hba.known o after ht
  unopened := by
    intro o hl
    have hd : o ≠ id := by
      have hk := hba.known id st hf
      omega
    simpa only [send, if_neg hd] using hba.unopened o hl

theorem Balanced.sendData {ledger : Ledger} {shared : Shared} {last id : Nat}
    (hba : Balanced ledger shared last) (hf : shared.streams.get? id = some st)
    (cfg : Config) (bs : Octets) (off : Nat) (es : Bool) :
    let sn := sendData cfg shared id (sendable shared st (bs.length - off)) bs off es
    Balanced (ledger.send sn.2) sn.1 last := by
  have hl := length_stretch (sendable_le_remaining shared st (bs.length - off))
  have hw : (sendable shared st (bs.length - off) : Int) ≤ shared.connSendWindow := by
    by_cases hi : sendable shared st (bs.length - off) = 0
    · have hs := hba.solvent
      omega
    · exact (sendable_le hi).2.1
  generalize sendable shared st (bs.length - off) = chunk at hl hw
  unfold Http2.sendData
  dsimp only
  split
  · exact (hba.spend hf _ hl hw (by intro; rfl)).keep (.closeLocal _ id)
  · exact hba.spend hf _ hl hw (by intro; rfl)

theorem Balanced.writing (cfg : Config) (ledger : Ledger) (last : Nat) :
    Writing cfg (fun shared sn => ∃ next,
      Balanced next shared last ∧ ledger.Passes (sn.map .sent) next) := by
  have hk {shared next : Shared} {sn : Batch} (hc : KeepsWindows shared next)
      (hke : ∃ m, Balanced m shared last ∧ ledger.Passes (sn.map .sent) m) :
      ∃ m, Balanced m next last ∧ ledger.Passes (sn.map .sent) m :=
    hke.imp fun _ hb => ⟨hb.1.keep hc, hb.2⟩
  refine ⟨fun {shared sn} hke => ?_, fun _ => hk (.of_fields rfl rfl rfl),
    fun id => hk (.modify _ id (by intro; rfl)), ?_, ?_,
    fun id => hk ((KeepsWindows.requeue _ id).trans (.reap _ id))⟩
  · obtain ⟨m, hba, hp⟩ := hke
    refine ⟨m, hba.keep (.of_fields rfl rfl rfl), ?_⟩
    unfold controlBatch
    split
    · simpa using hp
    · rw [List.map_append]
      exact hp.append (.sent hba.covered trivial)
  · rintro shared sn id st fs es rest _ _ _ ⟨m, hba, hp⟩
    refine ⟨m, hba.keep (.sendHeaders shared id fs es), ?_⟩
    rw [List.map_append]
    exact hp.append (.sent hba.covered trivial)
  rintro shared sn id st bs off es rest _ hf _ _ rfl ⟨m, hba, hp⟩
  refine ⟨_, hba.sendData hf cfg bs off es, ?_⟩
  rw [List.map_append]
  exact hp.append (.sent hba.covered (hba.permits_stretch hf bs off _))

namespace Ledger

variable (ledger : Ledger)

theorem grant_zero (id : Nat) : ledger.grant id 0 = ledger := by
  have hs : (ledger.grant id 0).streamCredit = ledger.streamCredit := by
    funext o
    by_cases hh : o = id <;> simp [grant, hh]
  unfold grant at hs ⊢
  simp only at hs
  rw [hs]

structure Reset (ledger next : Ledger) : Prop where
  credit : next.connectionCredit = ledger.connectionCredit
  spent : next.connectionSpent = ledger.connectionSpent
  streamSpent : next.streamSpent = ledger.streamSpent
  streamCredit : ∀ id, next.streamCredit id =
    (ledger.streamCredit id).map (· + (next.initialWindow - ledger.initialWindow))

theorem Reset.refl : ledger.Reset ledger where
  credit := rfl
  spent := rfl
  streamSpent := rfl
  streamCredit := by
    intro id
    cases ledger.streamCredit id with
    | none => rfl
    | some c => simp

theorem Reset.trans {ledger m next : Ledger} (he : ledger.Reset m)
    (hl : m.Reset next) : ledger.Reset next where
  credit := hl.credit.trans he.credit
  spent := hl.spent.trans he.spent
  streamSpent := hl.streamSpent.trans he.streamSpent
  streamCredit := by
    intro id
    rw [hl.streamCredit, he.streamCredit, Option.map_map]
    congr 1
    funext c
    simp only [Function.comp_apply]
    omega

theorem applySetting_reset (p : Nat × Nat) : ledger.Reset (ledger.applySetting p) := by
  unfold applySetting
  split
  · exact ⟨rfl, rfl, rfl, fun _ => rfl⟩
  split
  · exact { Reset.refl ledger with }
  · exact Reset.refl ledger

theorem foldl_applySetting_reset (p : List (Nat × Nat)) :
    ledger.Reset (p.foldl applySetting ledger) := by
  induction p generalizing ledger with
  | nil => exact .refl ledger
  | cons pr rest ih =>
    exact (applySetting_reset ledger pr).trans (ih _)

def Tracks (ledger : Ledger) (settings : Settings) : Prop :=
  (settings.initialWindowSize : Int) = ledger.initialWindow ∧
    settings.maxFrameSize = ledger.maxFrame

theorem Tracks.apply {ledger : Ledger} {s next : Settings} {p : Nat × Nat} (ht : ledger.Tracks s)
    (ha : s.apply p.1 p.2 = .ok next) : (ledger.applySetting p).Tracks next := by
  obtain ⟨id, v⟩ := p
  unfold Settings.apply at ha
  dsimp only at ha
  split at ha
  case h_4 =>
    split at ha
    · cases ha
    · cases ha
      exact ⟨rfl, ht.2⟩
  case h_5 =>
    split at ha
    · cases ha
    · cases ha
      exact ⟨ht.1, rfl⟩
  case h_7 notWindow notFrame _ =>
    cases ha
    simpa only [applySetting, if_neg notWindow, if_neg notFrame] using ht
  case h_2 =>
    split at ha
    all_goals
      cases ha
      try exact ht
  all_goals
    cases ha
    exact ht

theorem Tracks.applyAll {ledger : Ledger} {s next : Settings} {p : List (Nat × Nat)}
    (ht : ledger.Tracks s) (ha : s.applyAll p = (next, .ok ())) :
    (p.foldl applySetting ledger).Tracks next := by
  induction p generalizing ledger s with
  | nil =>
    cases ha
    exact ht
  | cons pr rest ih =>
    unfold Settings.applyAll at ha
    split at ha
    · cases ha
    next middle first => exact ih (ht.apply first) ha

end Ledger

namespace Balanced

variable {lg next : Ledger} {s after : Shared} {last : Nat}

theorem tracks (hba : Balanced lg s last) : lg.Tracks s.peer :=
  ⟨hba.initialWindow, hba.maxFrame⟩

theorem reset (hba : Balanced lg s last) (hr : lg.Reset next) (ht : next.Tracks after.peer)
    (he : Shared.Evolves
      (WindowGrown (after.peer.initialWindowSize - s.peer.initialWindowSize)) s after)
    (hc : after.connSendWindow = s.connSendWindow) : Balanced next after last where
  initialWindow := ht.1
  maxFrame := ht.2
  connection := by rw [hc, hr.credit, hr.spent, hba.connection]
  solvent := hc ▸ hba.solvent
  streams := by
    intro id st hf
    obtain ⟨b, hth, hgr⟩ := he id st hf
    obtain ⟨c, hg, hw⟩ := hba.streams id b hth
    refine ⟨c + (next.initialWindow - lg.initialWindow), ?_, ?_⟩
    · rw [hr.streamCredit, hg, Option.map_some]
    have old := hba.initialWindow
    have new := ht.1
    have window' : st.sendWindow = _ := hgr
    rw [hr.streamSpent]
    omega
  known := by
    intro id st hf
    obtain ⟨b, hth, _⟩ := he id st hf
    exact hba.known id b hth
  unopened := by
    intro id hl
    obtain ⟨hu, hi⟩ := hba.unopened id hl
    refine ⟨by rw [hr.streamSpent, hu], ?_⟩
    intro c hg
    rw [hr.streamCredit, Option.map_eq_some_iff] at hg
    obtain ⟨old, was, rfl⟩ := hg
    have hs := hi old was
    omega

variable {frame : Frame} (hba : Balanced lg s last)

include hba

theorem raise (i : Nat) : Balanced { lg with connectionCredit := lg.connectionCredit + i }
      { s with connSendWindow := s.connSendWindow + i } last where
  initialWindow := hba.initialWindow
  maxFrame := hba.maxFrame
  connection := by
    have hc := hba.connection
    dsimp only
    omega
  solvent := by
    have hs := hba.solvent
    dsimp only
    omega
  streams := hba.streams
  known := hba.known
  unopened := hba.unopened

theorem grant {id : Nat} (hk : id ≤ last) (i : Nat) : Balanced (lg.grant id i)
      (s.modify id fun st => { st with sendWindow := st.sendWindow + i }) last where
  initialWindow := by simpa [Ledger.grant] using hba.initialWindow
  maxFrame := by simpa [Ledger.grant] using hba.maxFrame
  connection := by simpa [Ledger.grant] using hba.connection
  solvent := by simpa using hba.solvent
  streams := by
    intro o st hf
    rw [get?_modify] at hf
    by_cases hh : o = id
    · subst hh
      rw [if_pos rfl, Option.map_eq_some_iff] at hf
      obtain ⟨b, ht, rfl⟩ := hf
      obtain ⟨c, hg, hw⟩ := hba.streams o b ht
      refine ⟨c + i, by simp [Ledger.grant, hg], ?_⟩
      simp only [Ledger.grant]
      omega
    · rw [if_neg hh] at hf
      simpa only [Ledger.grant, if_neg hh] using hba.streams o st hf
  known := by
    intro o st hf
    rw [get?_modify] at hf
    split at hf
    next hh => exact hh ▸ hk
    next => exact hba.known o st hf
  unopened := by
    intro o hl
    have hd : o ≠ id := by omega
    simpa only [Ledger.grant, if_neg hd] using hba.unopened o hl

theorem opened (id : Nat) : Balanced (lg.openStream id) s last where
  initialWindow := hba.initialWindow
  maxFrame := hba.maxFrame
  connection := hba.connection
  solvent := hba.solvent
  streams := by
    intro o st hf
    obtain ⟨c, hg, hw⟩ := hba.streams o st hf
    refine ⟨c, ?_, hw⟩
    by_cases hh : o = id
    · subst hh
      simp [Ledger.openStream, hg]
    · simpa [Ledger.openStream, hh] using hg
  known := hba.known
  unopened := by
    intro o hl
    obtain ⟨hu, hi⟩ := hba.unopened o hl
    refine ⟨hu, ?_⟩
    intro c hg
    by_cases hh : o = id
    · subst hh
      cases hb : lg.streamCredit o with
      | none => simpa [Ledger.openStream, hb, eq_comm] using hg
      | some old =>
        have hs : old = c := by simpa [Ledger.openStream, hb] using hg
        exact hi c (hs ▸ hb)
    · exact hi c (by simpa [Ledger.openStream, hh] using hg)

theorem insert {id : Nat} (hl : last < id) (es : Bool) :
    Balanced (lg.openStream id) (s.open id es) id := by
  have ho := hba.opened id
  obtain ⟨hu, hi⟩ := hba.unopened id hl
  refine { ho with streams := ?_, known := ?_, unopened := ?_ }
  · intro o st hf
    simp only [Shared.open, SortedMap.get?_insert] at hf
    split at hf
    next here =>
      cases hf
      subst here
      refine ⟨lg.initialWindow, ?_, ?_⟩
      · cases hb : lg.streamCredit o with
        | none => simp [Ledger.openStream, hb]
        | some c => simp [Ledger.openStream, hb, hi c hb]
      have hw := hba.initialWindow
      simp only [MuxStream.opened, MuxStream.new, Ledger.openStream]
      omega
    next => exact ho.streams o st hf
  · intro o st hf
    simp only [Shared.open, SortedMap.get?_insert] at hf
    split at hf
    next here => exact Nat.le_of_eq here
    have hk := hba.known o st hf
    omega
  · intro o hbe
    exact ho.unopened o (by omega)

theorem plain (hp : frame.Plain) : Balanced (lg.receive frame) s last := by
  unfold Ledger.receive
  split
  next kind =>
    rw [if_pos (hp.2.2 kind)]
    exact hba
  next kind => exact absurd kind hp.1
  next => exact hba.opened _
  next => exact hba

end Balanced

theorem increment_eq {pl : Octets} {i : Nat} (hp : parseWindowUpdate pl = .ok i) :
    i = masked (ofBigEndian pl) := by
  unfold parseWindowUpdate at hp
  split at hp
  · cases hp
  · exact (Except.ok.inj hp).symm

namespace Balanced

variable {lg : Ledger} {f : Frame}

theorem settles {shared : Shared} {rd : ReaderState} {res : Shared × Outcome}
    (hba : Balanced lg shared rd.lastClientId) (hse : Settles rd shared f res)
    (hh : ∀ c, res.2 ≠ .fail (.connection c)) : Balanced (lg.receive f) res.1 rd.lastClientId := by
  have hk (ha : Addressed rd shared f) : f.streamId ≤ rd.lastClientId := by
    refine ha.elim (fun ht => ?_) id
    obtain ⟨st, hf⟩ := Option.isSome_iff_exists.mp ht
    exact hba.known _ st hf
  cases hse with
  | fatal c | refused c | overflowed c | raisedOver c | abortedOver c =>
    exact absurd rfl (hh c)
  | quiet hpl | reply _ hpl | stop hpl => exact hba.plain hpl
  | dependent hki => exact hba.plain (by simp [Frame.Plain, hki])
  | @adopted p hki hpa hap hsa =>
    simp only [Ledger.receive, hki, hpa, Bool.false_eq_true, if_false]
    have hr : Balanced _ { shared with peer := p } _ :=
      hba.reset (lg.foldl_applySetting_reset _) (hba.tracks.applyAll hap)
        (fun id st hf => ⟨st, hf, by simp only [WindowGrown]; omega⟩) rfl
    exact hr.keep (.pushCtrl ..)
  | @adjusted p hki hpa hap hfi =>
    simp only [Ledger.receive, hki, hpa, Bool.false_eq_true, if_false]
    have hs := shiftWindows_shifted (Prod.ext rfl hfi)
    suffices hr : Balanced _ (shared.adjust p).1 rd.lastClientId from
      hr.keep ((KeepsWindows.markAllReady _).trans (.pushCtrl ..))
    have hsa : (shared.adjust p).1.peer = p := hs.peer
    refine hba.reset (lg.foldl_applySetting_reset _) ?_ ?_ hs.connection
    · exact hsa.symm ▸ hba.tracks.applyAll hap
    · rw [hsa]
      exact fun id st hf => hs.evolves id st hf
  | raised hki hw hp =>
    obtain rfl := increment_eq hp
    simp only [Ledger.receive, hki, hw, if_true]
    exact (hba.raise _).keep (.markAllReady _)
  | granted hki one hp ha =>
    obtain rfl := increment_eq hp
    simp only [Ledger.receive, hki, if_neg one]
    exact (hba.grant (hk ha) _).keep (.markReady _ _)
  | grantedOver _ hki one hp ha =>
    obtain rfl := increment_eq hp
    simp only [Ledger.receive, hki, if_neg one]
    exact hba.grant (hk ha) _
  | ungranted _ hki one hp =>
    simp only [Ledger.receive, hki, if_neg one, ← increment_eq hp, Ledger.grant_zero]
    exact hba
  | aborted hki =>
    simp only [Ledger.receive, hki]
    exact hba.keep ((KeepsWindows.abort shared _).trans (.of_fields rfl rfl rfl))

theorem takeFrame {mux : Mux} (hba : Balanced lg mux.shared mux.reader.lastClientId)
    (hh : ∀ c, (takeFrame mux f).2.2 ≠ .fail (.connection c)) :
    Balanced (lg.receive f) (takeFrame mux f).1 (takeFrame mux f).2.1.lastClientId := by
  have hr := takeFrame_receives mux f
  generalize Http2.takeFrame mux f = res at hh hr ⊢
  cases hr with
  | refused c => exact absurd rfl (hh c)
  | kept hp last => exact last ▸ hba.plain hp
  | moved hp _ last => exact last ▸ (hba.plain hp).keep (.modify _ _ (by intro; rfl))
  | opened hk _ hl last =>
    simp only [Ledger.receive, hk, last]
    exact hba.insert hl _
  | settled hs => exact hba.settles hs hh

end Balanced

theorem Balanced.step {ledger : Ledger} {mux : Mux} {act : Action}
    (hba : Balanced ledger mux.shared mux.reader.lastClientId) (hh : Handled mux act)
    (cfg : Config) :
    let res := step cfg mux act
    ∃ next, Balanced next res.1.shared res.1.reader.lastClientId ∧
      ledger.Passes (eventsOf mux act res.2) next := by
  cases act with
  | frame frame =>
    simp only [Http2.step, eventsOf]
    split
    next ready =>
      have ht := hba.takeFrame (hh frame · rfl ready.1 ready.2)
      exact ⟨_, ht, .received frame hba.covered⟩
    next => exact ⟨ledger, hba, .nil ledger⟩
  | eof =>
    simp only [Http2.step, eventsOf]
    split <;> exact ⟨ledger, hba, .nil ledger⟩
  | reader =>
    simp only [Http2.step, eventsOf]
    split
    · exact ⟨ledger, hba, .nil ledger⟩
    next op rest _ =>
    obtain ⟨hk, hsa⟩ := op.run_keeps cfg mux rest
    refine ⟨ledger, ?_, .nil ledger⟩
    rw [hsa]
    exact hba.keep hk
  | handler i ev =>
    simp only [Http2.step, eventsOf]
    split
    · exact ⟨ledger, hba, .nil ledger⟩
    next t _ =>
      exact ⟨ledger, hba.keep (.handler cfg mux.shared t ev), .nil ledger⟩
  | writer =>
    obtain ⟨w, hb, hs⟩ := step_writer cfg mux
    have hw := (Balanced.writing cfg ledger _).buildBatch
      ⟨ledger, hba, .nil ledger⟩
    rw [← hb] at hw
    rw [hs]
    exact hw

theorem respects_of_balanced {cfg : Config} {acts : List Action} {ledger : Ledger} {mux : Mux}
    (hba : Balanced ledger mux.shared mux.reader.lastClientId)
    (hh : (connection cfg).Meets Handled mux acts) : ledger.Respects (events cfg mux acts) := by
  induction acts generalizing ledger mux with
  | nil => exact hba.covered
  | cons act rest ih =>
    obtain ⟨next, after, hp⟩ := hba.step hh.1 cfg
    exact hp _ (ih after hh.2)

theorem balanced_start : Balanced start Mux.start.shared Mux.start.reader.lastClientId where
  initialWindow := rfl
  maxFrame := rfl
  connection := rfl
  solvent := by decide
  streams := by
    intro id st hf
    exact absurd hf (by simp [Mux.start, pushCtrl, new])
  known := by
    intro id st hf
    exact absurd hf (by simp [Mux.start, pushCtrl, new])
  unopened := by
    intro id _
    exact ⟨rfl, fun c hg => nomatch hg⟩

def Outcome.fatal : Outcome → Bool
  | .fail (.connection _) => true
  | _ => false

theorem Outcome.fatal_eq_false_iff (out : Outcome) :
    out.fatal = false ↔ ∀ c, out ≠ .fail (.connection c) := by
  match out with
  | .proceed _ | .stop | .fail (.stream _ _) => simp [fatal]
  | .fail (.connection c) => simp [fatal]

theorem handled_frame_iff (mux : Mux) (frame : Frame) : Handled mux (.frame frame) ↔
      (mux.listening = true → mux.program = [] → (takeFrame mux frame).2.2.fatal = false) := by
  simp only [Outcome.fatal_eq_false_iff]
  constructor
  · intro hh hl hi c
    exact hh frame c rfl hl hi
  intro hh o c hs hl hi
  cases hs
  exact hh hl hi c

instance (mux : Mux) : (action : Action) → Decidable (Handled mux action)
  | .frame frame => decidable_of_iff _ (handled_frame_iff mux frame).symm
  | .eof | .reader | .handler _ _ | .writer => .isTrue (by
      intro frame code same
      cases same)

/-- Whatever the handlers push and however the sections interleave, nothing is sent beyond what the
client has granted. -/
theorem sends_within_grants (config : Config) (actions : List Action)
    (handled : (connection config).Meets Handled Mux.start actions) :
    Ledger.start.Respects (events config Mux.start actions) :=
  respects_of_balanced balanced_start handled

/-! A client with a small window asks for a response of twenty bytes and grants the rest later. -/

namespace SmallWindow

def config : Config := ⟨1024, fun _ => true⟩

def body : Octets := List.replicate 20 0x61

def actions : List Action :=
  [.frame ⟨.settings, 0, 0, bigEndian 2 4 ++ bigEndian 4 8⟩,
   .frame ⟨.headers, END_STREAM ||| END_HEADERS, 1, [0x82, 0x84, 0x87]⟩,
   .reader, .reader, .handler 0 (.respond ⟨200, []⟩ (.bytes body)), .handler 0 .proceed, .writer,
   .frame ⟨.windowUpdate, 0, 1, bigEndian 4 12⟩, .writer]

theorem stays_within_grants : (connection config).Meets Handled Mux.start actions ∧
      Ledger.start.Respects (events config Mux.start actions) :=
  have hh : (connection config).Meets Handled Mux.start actions := by decide +kernel
  ⟨hh, sends_within_grants config actions hh⟩

end SmallWindow

end BoatRamp.Http2
