import BoatRamp.Cluster.Groups

/-!
# Delivery to consumer groups

A message retained for a topic's consumer groups must reach each group that was
registered when it was published.  Ids are minted by the publishing node before
the proposal is ordered, so the state machine may apply them out of order,
while a group remembers only the largest id it has taken.  The main result says
exactly which publishes a group cannot lose: those whose id lies beyond its
high-water when they are applied.
-/

namespace BoatRamp.Cluster

open Library Messaging List Option GroupState Machine

section Traffic

variable {Bytes : Type}

/-- The operations of a fan-out topic in normal use. -/
def IsTraffic (topic : Text) : WriteOp Bytes → Prop
  | .mqPublish target id retain _ _ _ _ _ => target = topic ∧ retain = true ∧ IsSegment id
  | .mqClaimGrouped target _ _ _ _ _ _ => target = topic
  | .mqAckGrouped target _ _ => target = topic
  | .mqNackGrouped target _ _ _ => target = topic
  | _ => False

instance (topic : Text) (op : WriteOp Bytes) : Decidable (IsTraffic topic op) :=
  match op with
  | .mqPublish target id retain _ _ _ _ _ =>
    inferInstanceAs (Decidable (target = topic ∧ retain = true ∧ IsSegment id))
  | .mqClaimGrouped target _ _ _ _ _ _ | .mqAckGrouped target _ _ | .mqNackGrouped target _ _ _ =>
    inferInstanceAs (Decidable (target = topic))
  | .put .. | .delete .. | .batch .. | .compareAndSwap .. | .mqClaim .. | .mqAck ..
  | .mqNack .. | .mqSetLastError .. | .mqRedriveGroupedDead .. | .mqResetGroup ..
  | .mqDeleteGroup .. | .mqSetPaused .. | .mqSweepGrouped .. | .meshAdmit .. => .isFalse id

def ClaimsFor (topic group : Text) : WriteOp Bytes → Prop
  | .mqClaimGrouped target claimer _ _ _ _ _ => target = topic ∧ claimer = group
  | _ => False

instance (topic group : Text) (op : WriteOp Bytes) : Decidable (ClaimsFor topic group op) :=
  match op with
  | .mqClaimGrouped target claimer _ _ _ _ _ =>
    inferInstanceAs (Decidable (target = topic ∧ claimer = group))
  | .put .. | .delete .. | .batch .. | .compareAndSwap .. | .mqPublish .. | .mqClaim ..
  | .mqAck .. | .mqNack .. | .mqSetLastError .. | .mqAckGrouped .. | .mqNackGrouped ..
  | .mqRedriveGroupedDead .. | .mqResetGroup .. | .mqDeleteGroup .. | .mqSetPaused ..
  | .mqSweepGrouped .. | .meshAdmit .. => .isFalse id

def publishedId? : WriteOp Bytes → Option Text
  | .mqPublish _ id _ _ _ _ _ _ => some id
  | _ => none

def WasClaimed (topic group id : Text) (history : List (WriteOp Bytes × WriteResponse)) :
    Prop :=
  ∃ entry ∈ history, ClaimsFor topic group entry.1 ∧ id ∈ entry.2.claimedIds

def WasAcked (topic group id : Text) (history : List (WriteOp Bytes × WriteResponse)) :
    Prop :=
  ∃ earlier later, history = earlier ++ later ∧ WasClaimed topic group id earlier ∧
    ∃ response, (.mqAckGrouped topic group id, response) ∈ later

variable [Codec Bytes]

/-- A group has not lost a message: a later claim can still lease it, or it is
in flight, dead-lettered, or was delivered and acked. -/
def Accounted (topic group id : Text) (history : List (WriteOp Bytes × WriteResponse))
    (data : Store Bytes) : Prop :=
  ∃ state, loadGroupState data topic group = some state ∧
    ((state.hwm < id ∧ data.contains (glogKey topic id) = true ∧
        state.hwm < readText data (logmaxKey topic)) ∨
      id ∈ state.ids ∨
      data.contains (gdeadKey topic group id) = true ∨
      WasAcked topic group id history)

end Traffic

section Publish

variable {Bytes : Type} [Codec Bytes] (tg : ApplyTarget Bytes) {op : WriteOp Bytes} (t id : Text)

theorem retainPublished_logged : (retainPublished tg t id).data.contains (glogKey t id) = true := by
  unfold retainPublished
  dsimp only
  split <;> simp

theorem readText_retainPublished : readText (retainPublished tg t id).data (logmaxKey t) =
      max (readText tg.data (logmaxKey t)) id := by
  have hg : readText (tg.putNew (glogKey t id) Codec.empty).data (logmaxKey t) =
      readText tg.data (logmaxKey t) := by
    unfold readText
    rw [ApplyTarget.get?_putNew, if_neg (by simp [logmaxKey, glogKey])]
  unfold retainPublished
  dsimp only
  rw [hg]
  split
  · rename_i larger
    rw [max_eq_right larger.le]
    simp [readText]
  · rename_i notLarger
    rw [hg, max_eq_left (not_lt.mp notLarger)]

theorem readText_applyMqPublish (r : Record) :
    readText (applyMqPublish tg t id true r).data (logmaxKey t) =
      max (readText tg.data (logmaxKey t)) id := by
  unfold applyMqPublish
  rw [if_pos rfl, readText_retainPublished]
  unfold readText
  rw [ApplyTarget.put_data, SortedMap.get?_insert_of_ne _ _ (by simp [logmaxKey, readyKey]),
    ApplyTarget.get?_putNew, if_neg (by simp [logmaxKey, metaKey])]

/-- No key present before is missing afterwards. -/
def Keeps (before after : ApplyTarget Bytes) : Prop :=
  ∀ key, before.data.contains key = true → after.data.contains key = true

theorem applyMqPublish_keeps (r : Bool) (rc : Record) : Keeps tg (applyMqPublish tg t id r rc) := by
  intro key hp
  unfold applyMqPublish retainPublished
  dsimp only
  split_ifs <;> simp [hp]

theorem applyMqClaimGrouped_keeps (t g : Text) (s : StartPosition) (nm lm : UInt64) (mb : Nat)
    (ma : UInt32) : Keeps tg (applyMqClaimGrouped tg t g s nm lm mb ma).1 := by
  intro key hp
  unfold applyMqClaimGrouped
  dsimp only
  have hb := fun d => putGroupedDead_foldl_contains t g d tg key (.inl hp)
  split_ifs
  · simp [putGroupState, hb]
  · exact hb _

theorem applyMqAckGrouped_keeps (t g id : Text) : Keeps tg (applyMqAckGrouped tg t g id) := by
  intro key hp
  unfold applyMqAckGrouped
  split
  · exact hp
  dsimp only
  split_ifs
  · simp [putGroupState, hp]
  · exact hp

theorem applyMqNackGrouped_keeps (t g id : Text) (um : UInt64) :
    Keeps tg (applyMqNackGrouped tg t g id um) := by
  intro key hp
  unfold applyMqNackGrouped
  split
  · exact hp
  split
  · exact hp
  · simp [putGroupState, hp]

variable [DecidableEq Bytes]

/-- Normal use of a fan-out topic removes nothing. -/
theorem traffic_keeps {t : Text} (ht : IsTraffic t op) (tg : ApplyTarget Bytes) :
    Keeps tg (applyOp tg op).1 := by
  cases op with
  | mqPublish t id r sc i nbm eam p =>
    exact applyMqPublish_keeps tg t id r _
  | mqClaimGrouped t g s nm lm mb ma =>
    unfold applyOp
    exact applyMqClaimGrouped_keeps tg t g s nm lm _ ma
  | mqAckGrouped t g id => exact applyMqAckGrouped_keeps tg t g id
  | mqNackGrouped t g id um =>
    exact applyMqNackGrouped_keeps tg t g id um
  | _ => exact ht.elim

theorem traffic_logmax_le {t : Text} (ht : IsTraffic t op) (data : Store Bytes) :
    readText data (logmaxKey t) ≤ readText (stateMachine.step data op).1 (logmaxKey t) := by
  have hu : ¬MayWrite data op (logmaxKey t) → readText data (logmaxKey t) ≤
        readText (stateMachine.step data op).1 (logmaxKey t) := by
    intro hun
    unfold readText
    rw [step_get?_of_not_mayWrite hun]
  cases op with
  | mqPublish tg id r sc i nbm eam p =>
    rcases ht with ⟨rfl, rfl, _⟩
    exact (le_max_left _ id).trans_eq (readText_applyMqPublish (.new data) _ id _).symm
  | mqClaimGrouped tg g s nm lm mb ma =>
    exact hu (by simp [MayWrite, logmaxKey, gstateKey, gdeadKey])
  | mqAckGrouped tg g id => exact hu (by simp [MayWrite, logmaxKey, gstateKey])
  | mqNackGrouped tg g id um =>
    exact hu (by simp [MayWrite, logmaxKey, gstateKey, readyKey])
  | _ => exact ht.elim

inductive GroupMove (topic group : Text) (data next : Store Bytes) :
    WriteOp Bytes → WriteResponse → Prop where
  | same {op response} :
      ¬ClaimsFor topic group op →
      (loadGroupState next topic group).map (fun state => (state.hwm, state.ids)) =
        (loadGroupState data topic group).map (fun state => (state.hwm, state.ids)) →
      GroupMove topic group data next op response
  | ack {id response} :
      loadGroupState next topic group =
        (loadGroupState data topic group).map (GroupState.acked · id) →
      GroupMove topic group data next (.mqAckGrouped topic group id) response
  | claim {op response start maxBatch after dead} :
      ClaimsFor topic group op →
      loadGroupState next topic group = some after →
      ClaimEffect (groupOrNew data topic group start)
        (newLogIds data topic (groupOrNew data topic group start).hwm maxBatch) after
        response.claimedIds dead →
      (∀ id ∈ dead, next.contains (gdeadKey topic group id) = true) →
      GroupMove topic group data next op response

theorem traffic_groupMove {t : Text} (ht : IsTraffic t op) (g : Text) (data : Store Bytes) :
    GroupMove t g data (stateMachine.step data op).1 op (stateMachine.step data op).2 := by
  have hu : ¬ClaimsFor t g op → ¬MayWrite data op (gstateKey t g) →
      GroupMove t g data (stateMachine.step data op).1 op (stateMachine.step data op).2 := by
    intro hno hun
    refine .same hno ?_
    rw [loadGroupState_congr (step_get?_of_not_mayWrite hun)]
  cases op with
  | mqPublish tg id r sc i nbm eam p =>
    exact hu not_false (by simp [MayWrite, gstateKey, metaKey, readyKey, glogKey, logmaxKey])
  | mqClaimGrouped tg c s nm lm mb ma =>
    cases ht
    by_cases hs : c = g
    · subst hs
      rcases applyMqClaimGrouped_effect (.new data) t c s nm lm mb.toNat ma with ⟨af, d, hl, he, hb⟩
      exact .claim ⟨rfl, rfl⟩ hl he hb
    · exact hu (fun hc => hs hc.2) (by simp [MayWrite, gstateKey, gdeadKey, Ne.symm hs])
  | mqAckGrouped tg a id =>
    cases ht
    by_cases hs : a = g
    · subst hs
      exact .ack (loadGroupState_applyMqAckGrouped (.new data) t a id)
    · exact hu not_false (by simp [MayWrite, gstateKey, Ne.symm hs])
  | mqNackGrouped tg n id um =>
    cases ht
    by_cases hs : n = g
    · subst hs
      have hn := loadGroupState_applyMqNackGrouped (.new data) t n id um
      refine .same not_false ((congrArg _ hn).trans ?_)
      simp [Function.comp_def, nacked_ids, nacked_hwm]
    · exact hu not_false (by simp [MayWrite, gstateKey, readyKey, Ne.symm hs])
  | _ => exact ht.elim

end Publish

section Tracking

variable {Bytes : Type}
  {history : List (WriteOp Bytes × WriteResponse)} {data : Store Bytes} {op : WriteOp Bytes}
  {ops : List (WriteOp Bytes)} {t g id : Text}

theorem WasClaimed.append (hc : WasClaimed t g id history)
    (m : List (WriteOp Bytes × WriteResponse)) : WasClaimed t g id (history ++ m) := by
  rcases hc with ⟨e, hi, hr⟩
  exact ⟨e, mem_append_left _ hi, hr⟩

theorem WasAcked.append (ha : WasAcked t g id history)
    (m : List (WriteOp Bytes × WriteResponse)) : WasAcked t g id (history ++ m) := by
  rcases ha with ⟨e, l, rfl, hc, r, hi⟩
  exact ⟨e, l ++ m, by simp, hc, r, mem_append_left _ hi⟩

variable [Codec Bytes]

/-- The invariant behind `Accounted`: the message stays in the log, and the
group still has it ahead, holds it from a claim, buried it, or is done with it. -/
def Tracked (topic group id : Text) (history : List (WriteOp Bytes × WriteResponse))
    (data : Store Bytes) : Prop :=
  data.contains (glogKey topic id) = true ∧
  id ≤ readText data (logmaxKey topic) ∧
  ∃ state, loadGroupState data topic group = some state ∧
    (state.hwm < id ∨
      (id ∈ state.ids ∧ WasClaimed topic group id history) ∨
      data.contains (gdeadKey topic group id) = true ∨
      WasAcked topic group id history)

theorem Tracked.accounted (ht : Tracked t g id history data) : Accounted t g id history data := by
  rcases ht with ⟨hl, hg, s, hlo, hc⟩
  refine ⟨s, hlo, ?_⟩
  rcases hc with ha | ⟨hh, _⟩ | hb | hac
  · exact .inl ⟨ha, hl, ha.trans_le hg⟩
  · exact .inr (.inl hh)
  · exact .inr (.inr (.inl hb))
  · exact .inr (.inr (.inr hac))

variable [DecidableEq Bytes]

theorem Tracked.step (segment : IsSegment id)
    (tracked : Tracked t g id history data) (traffic : IsTraffic t op) :
    Tracked t g id (history ++ [(op, (stateMachine.step data op).2)])
      (stateMachine.step data op).1 := by
  rcases tracked with ⟨logged, gate, b, registered, cases⟩
  have kept := traffic_keeps traffic (.new data)
  refine ⟨kept _ logged, gate.trans (traffic_logmax_le traffic data), ?_⟩
  have settled : data.contains (gdeadKey t g id) = true ∨ WasAcked t g id history →
      (stateMachine.step data op).1.contains (gdeadKey t g id) = true ∨
      WasAcked t g id (history ++ [(op, (stateMachine.step data op).2)]) :=
    Or.imp (kept _) (WasAcked.append · _)
  cases traffic_groupMove traffic g data with
  | same _ view =>
    rw [registered, map_some, map_eq_some_iff] at view
    rcases view with ⟨a, loaded, unchanged⟩
    rcases Prod.mk.inj unchanged with ⟨hwm, ids⟩
    refine ⟨a, loaded, ?_⟩
    rcases cases with ahead | ⟨held, claimed⟩ | done
    · exact .inl (hwm ▸ ahead)
    · exact .inr (.inl ⟨ids ▸ held, claimed.append _⟩)
    · exact .inr (.inr (settled done))
  | @ack o _ loaded =>
    rw [registered] at loaded
    refine ⟨b.acked o, loaded, ?_⟩
    rcases cases with ahead | ⟨held, claimed⟩ | done
    · exact .inl ahead
    · by_cases same : id = o
      · subst same
        exact .inr (.inr (.inr ⟨history, _, rfl, claimed, _, mem_singleton.mpr rfl⟩))
      · exact .inr (.inl ⟨mem_acked_ids.mpr ⟨held, same⟩, claimed.append _⟩)
    · exact .inr (.inr (settled done))
  | @claim _ _ s mb a d claims loaded effect dying =>
    have current : groupOrNew data t g s = b := by
      simp [groupOrNew, registered]
    rw [current] at effect
    refine ⟨a, loaded, ?_⟩
    rcases cases with ahead | ⟨held, claimed⟩ | done
    · have inLog := (mem_glogIds_iff data t id).mpr ⟨segment, logged⟩
      rcases effect.pending_or_delivered (newLogIds_sorted data t _ mb) ahead
        (newLogIds_covers mb inLog ahead) with still | ⟨now, delivered⟩
      · exact .inl still
      · exact .inr (.inl ⟨now, (op, _),
          mem_append_right _ (mem_singleton.mpr rfl), claims, delivered⟩)
    · rcases effect.held_or_dead held with still | inDead
      · exact .inr (.inl ⟨still, claimed.append _⟩)
      · exact .inr (.inr (.inl (dying id inDead)))
    · exact .inr (.inr (settled done))

theorem Tracked.run (hs : IsSegment id)
    (htr : Tracked t g id history data) (ht : ∀ op ∈ ops, IsTraffic t op) :
    Tracked t g id (history ++ stateMachine.history data ops) (stateMachine.final data ops) := by
  refine invariant_history (fun _ _ _ hc ha => ?_) htr (stateMachine.meets_of_forall data ht)
  exact Tracked.step hs hc ha

structure Sourced (topic : Text) (published : List Text) (data : Store Bytes) : Prop where
  logged : ∀ id ∈ glogIds data topic, id ∈ published
  held : ∀ group state, loadGroupState data topic group = some state →
    ∀ id ∈ state.ids, IsSegment id ∧ id ∈ published
  buried : ∀ group id, IsSegment id →
    data.contains (gdeadKey topic group id) = true → id ∈ published

omit [DecidableEq Bytes] in
theorem GroupMove.source {next : Store Bytes} {r : WriteResponse}
    (hmo : GroupMove t g data next op r)
    (hm : (∃ af, loadGroupState next t g = some af ∧ id ∈ af.ids) ∨
      (ClaimsFor t g op ∧ id ∈ r.claimedIds)) : id ∈ glogIds data t ∨
      ∃ s, loadGroupState data t g = some s ∧ id ∈ s.ids := by
  cases hmo with
  | same hn hv =>
    rcases hm with ⟨af, hl, hh⟩ | ⟨hc, _⟩
    · rw [hl, map_some, eq_comm, map_eq_some_iff] at hv
      rcases hv with ⟨b, hf, hu⟩
      exact .inr ⟨b, hf, (Prod.mk.inj hu).2 ▸ hh⟩
    · exact absurd hc hn
  | ack ha =>
    rcases hm with ⟨af, hl, hh⟩ | ⟨hc, _⟩
    · rw [hl, eq_comm, map_eq_some_iff] at ha
      rcases ha with ⟨b, hf, rfl⟩
      exact .inr ⟨b, hf, (mem_acked_ids.mp hh).1⟩
    · exact hc.elim
  | @claim _ _ st mb af d _ hl he _ =>
    have hg : id ∈ r.claimedIds → id ∈ glogIds data t ∨
        ∃ s, loadGroupState data t g = some s ∧ id ∈ s.ids := by
      intro hd
      rcases he.mem_of_delivered hd with hh | new
      · exact .inr (mem_groupOrNew_ids hh)
      · exact .inl (mem_glogIds_of_mem_newLogIds new)
    rcases hm with ⟨s, hf, hh⟩ | ⟨_, hd⟩
    · cases hl.symm.trans hf
      rcases he.held_or_delivered hh with b | hd
      · exact .inr (mem_groupOrNew_ids b)
      · exact hg hd
    · exact hg hd

theorem Sourced.step {p : List Text} (hs : Sourced t p data) (ht : IsTraffic t op) :
    Sourced t (p ++ (publishedId? op).toList) (stateMachine.step data op).1 := by
  have hk : ∀ {g id : Text}, (id ∈ glogIds data t ∨
      ∃ s, loadGroupState data t g = some s ∧ id ∈ s.ids) → IsSegment id ∧ id ∈ p := by
    rintro g id (hi | ⟨s, hl, hh⟩)
    · exact ⟨((mem_glogIds_iff data t id).mp hi).1, hs.logged id hi⟩
    · exact hs.held g s hl id hh
  refine ⟨?_, ?_, ?_⟩
  · intro id hi
    rcases (mem_glogIds_iff _ t id).mp hi with ⟨hse, hp⟩
    by_cases hw : MayWrite data op (glogKey t id)
    · cases op with
      | mqPublish tgt o r sc i nbm eam pr =>
        cases ht.1
        simp only [MayWrite, glogKey, metaKey, readyKey, logmaxKey, Family.key_inj,
          joined_last_inj] at hw
        simp_all [publishedId?]
      | mqClaimGrouped | mqAckGrouped | mqNackGrouped =>
        simp [MayWrite, glogKey, gstateKey, gdeadKey, readyKey] at hw
      | _ => exact ht.elim
    refine mem_append_left _ (hs.logged id ?_)
    rw [mem_glogIds_iff, SortedMap.contains, ← step_get?_of_not_mayWrite hw]
    exact ⟨hse, hp⟩
  · intro g a hl id hh
    have hso := hk ((traffic_groupMove ht g data).source (.inl ⟨a, hl, hh⟩))
    exact ⟨hso.1, mem_append_left _ hso.2⟩
  intro g id hse hp
  refine mem_append_left _ ?_
  by_cases hw : MayWrite data op (gdeadKey t g id)
  · cases op with
    | mqClaimGrouped tgt c st nm lm mb ma =>
      cases ht
      simp only [MayWrite, gdeadKey, gstateKey, Family.key_inj, joined_last_inj, reduceCtorEq,
        false_and, true_and, false_or] at hw
      rcases hw with ⟨s, hl, o, hh, hsa⟩
      have hso := hs.held c s hl o hh
      rw [((joined_inj hse.2 hso.1.2).mp hsa).2]
      exact hso.2
    | mqPublish | mqAckGrouped | mqNackGrouped =>
      simp [MayWrite, glogKey, gstateKey, gdeadKey, readyKey, metaKey, logmaxKey] at hw
    | _ => exact ht.elim
  refine hs.buried g id hse ?_
  rw [SortedMap.contains, ← step_get?_of_not_mayWrite hw]
  exact hp

def publishedIds (ops : List (WriteOp Bytes)) : List Text := ops.filterMap publishedId?

theorem sourced_run (ht : ∀ op ∈ ops, IsTraffic t op) :
    Sourced t (publishedIds ops) (stateMachine.final .empty ops) ∧
      ∀ g id, WasClaimed t g id (stateMachine.history .empty ops) → id ∈ publishedIds ops := by
  let Known := fun (p : List (WriteOp Bytes × WriteResponse)) (data : Store Bytes) =>
    Sourced t (publishedIds (p.map Prod.fst)) data ∧
      ∀ g id, WasClaimed t g id p → id ∈ publishedIds (p.map Prod.fst)
  have hiy : Known [] .empty := by
    refine ⟨⟨?_, ?_, ?_⟩, ?_⟩
    · intro id hi
      simpa [SortedMap.contains] using ((mem_glogIds_iff _ t id).mp hi).2
    · simp [loadGroupState]
    · simp [SortedMap.contains]
    · rintro g id ⟨e, hin, _⟩
      simp at hin
  have hk : ∀ p data op, Known p data → IsTraffic t op →
      Known (p ++ [(op, (stateMachine.step data op).2)]) (stateMachine.step data op).1 := by
    rintro p data op ⟨hs, hcl⟩ ht
    have ids : publishedIds ((p ++ [(op, (stateMachine.step data op).2)]).map Prod.fst) =
        publishedIds (p.map Prod.fst) ++ (publishedId? op).toList := by
      cases hp : publishedId? op <;> simp [publishedIds, hp]
    simp only [Known, ids]
    refine ⟨hs.step ht, ?_⟩
    rintro g id ⟨e, hin, hc, hr⟩
    refine mem_append_left _ ?_
    rcases mem_append.mp hin with hit | now
    · exact hcl g id ⟨e, hit, hc, hr⟩
    cases mem_singleton.mp now
    rcases (traffic_groupMove ht g data).source (.inr ⟨hc, hr⟩) with
      hi | ⟨s, hl, hh⟩
    · exact hs.logged id hi
    · exact (hs.held g s hl id hh).2
  have run := invariant_history hk hiy (stateMachine.meets_of_forall .empty ht)
  simpa [Known, history_map_fst] using run

theorem registered_step (ht : IsTraffic t op)
    (hc : (loadGroupState data t g).isSome ∨ ClaimsFor t g op) :
    (loadGroupState (stateMachine.step data op).1 t g).isSome := by
  cases traffic_groupMove ht g data with
  | same hn hv =>
    have hk := hc.resolve_right hn
    simpa using (congrArg isSome hv).trans (by simpa using hk)
  | ack ha =>
    rw [ha, isSome_map]
    exact hc.resolve_right not_false
  | claim _ hl _ _ => simp [hl]

theorem registered_run (ht : ∀ op ∈ ops, IsTraffic t op) (data : Store Bytes)
    (hc : (loadGroupState data t g).isSome ∨ ∃ op ∈ ops, ClaimsFor t g op) :
    (loadGroupState (stateMachine.final data ops) t g).isSome := by
  induction ops generalizing data with
  | nil => simpa using hc
  | cons op rest ih =>
    have now := ht op (by simp)
    refine ih (fun o hi => ht o (mem_cons_of_mem _ hi)) _ ?_
    rcases hc with hk | ⟨c, hi, hcl⟩
    · exact .inl (registered_step now (.inl hk))
    rcases mem_cons.mp hi with rfl | hin
    · exact .inl (registered_step now (.inr hcl))
    · exact .inr ⟨c, hin, hcl⟩

theorem tracked_of_publish {p : WriteOp Bytes} (ht : IsTraffic t p) (hp : publishedId? p = some id)
    {s : GroupState} (hr : loadGroupState data t g = some s) (hb : s.hwm < id)
    (history : List (WriteOp Bytes × WriteResponse)) :
    Tracked t g id history (stateMachine.step data p).1 := by
  cases p with
  | mqPublish tgt o r sc i nbm eam pr =>
    rcases ht with ⟨rfl, rfl, _⟩
    cases hp
    refine ⟨?_, ?_, s, ?_, .inl hb⟩
    · exact retainPublished_logged _ tgt id
    · exact (le_max_right _ id).trans_eq (readText_applyMqPublish (.new data) tgt id _).symm
    rw [← hr]
    refine loadGroupState_congr (step_get?_of_not_mayWrite ?_)
    simp [MayWrite, gstateKey, metaKey, readyKey, glogKey, logmaxKey]
  | _ => simp [publishedId?] at hp

/-- A fresh id that is accounted for right after its publish lies beyond the
group's high-water: nothing else can account for it yet. -/
theorem beyond_of_accounted {e : List (WriteOp Bytes)}
    {p : WriteOp Bytes} (ht : ∀ op ∈ e, IsTraffic t op)
    (hpu : IsTraffic t p) (hp : publishedId? p = some id)
    (hf : id ∉ publishedIds e) (ha : Accounted t g id
      (stateMachine.history .empty (e ++ [p])) (stateMachine.final .empty (e ++ [p]))) :
    ∃ s, loadGroupState (stateMachine.final .empty e) t g = some s ∧ s.hwm < id := by
  rcases sourced_run ht with ⟨hs, hcn⟩
  cases p with
  | mqPublish tgt o r sc i nbm eam pr =>
    rcases hpu with ⟨rfl, rfl, segment⟩
    cases hp
    rw [final_append, history_append] at ha
    rcases ha with ⟨s, hl, cases⟩
    have hu : ∀ key, key ≠ metaKey tgt id → key ≠ readyKey tgt →
        key ≠ glogKey tgt id → key ≠ logmaxKey tgt →
        (stateMachine.final (stateMachine.final .empty e) [.mqPublish tgt id true sc i nbm eam
            pr]).get? key = (stateMachine.final .empty e).get? key := by
      intro key hna hn hno hnx
      exact step_get?_of_not_mayWrite (by simp [MayWrite, *])
    rw [loadGroupState_congr (hu _ (by simp [gstateKey, metaKey])
      (by simp [gstateKey, readyKey]) (by simp [gstateKey, glogKey])
      (by simp [gstateKey, logmaxKey]))] at hl
    rcases cases with ⟨hah, _⟩ | hh | hb | ⟨x, y, split, hcl, _⟩
    · exact ⟨s, hl, hah⟩
    · exact absurd (hs.held g s hl id hh).2 hf
    · rw [SortedMap.contains, hu _ (by simp [gdeadKey, metaKey])
        (by simp [gdeadKey, readyKey]) (by simp [gdeadKey, glogKey])
        (by simp [gdeadKey, logmaxKey])] at hb
      exact absurd (hs.buried g id segment hb) hf
    -- The publish is no claim, so the claim happened before it.
    have hbe : WasClaimed tgt g id (stateMachine.history .empty e) := by
      rcases hcl with ⟨en, hin, hc, hr⟩
      have hi : en ∈ x ++ y := mem_append_left _ hin
      rw [← split] at hi
      rcases mem_append.mp hi with hir | now
      · exact ⟨en, hir, hc, hr⟩
      · cases mem_singleton.mp now
        exact hc.elim
    exact absurd (hcn g id hbe) hf
  | _ => simp [publishedId?] at hp

/-- No message is lost to a registered group exactly when its publish is applied
while its id lies beyond the group's high-water. -/
theorem accounted_iff_beyond_hwm (topic group id : Text) (earlier : List (WriteOp Bytes))
    (publish : WriteOp Bytes) (traffic : ∀ op ∈ earlier ++ [publish], IsTraffic topic op)
    (registered : ∃ op ∈ earlier, ClaimsFor topic group op)
    (publishes : publishedId? publish = some id)
    (distinct : (publishedIds (earlier ++ [publish])).Nodup) :
    (∀ later : List (WriteOp Bytes), (∀ op ∈ later, IsTraffic topic op) →
        (publishedIds (earlier ++ publish :: later)).Nodup → Accounted topic group id
          (stateMachine.history .empty (earlier ++ publish :: later))
          (stateMachine.final .empty (earlier ++ publish :: later))) ↔
      ∀ state, loadGroupState (stateMachine.final .empty earlier) topic group = some state →
        state.hwm < id := by
  have he : ∀ op ∈ earlier, IsTraffic topic op := fun op hi =>
    traffic op (List.mem_append_left _ hi)
  have hp : IsTraffic topic publish := traffic publish (by simp)
  constructor
  · intro ha state hl
    have hf : id ∉ publishedIds earlier := by
      simp only [publishedIds, List.filterMap_append, List.filterMap_cons, publishes,
        List.filterMap_nil] at distinct
      exact fun hi => (List.nodup_append.mp distinct).2.2 id hi id (by simp) rfl
    rcases beyond_of_accounted he hp publishes hf (ha [] (by simp) distinct) with ⟨c, hfo, beyond⟩
    cases hl.symm.trans hfo
    exact beyond
  intro beyond later hla _
  rcases Option.isSome_iff_exists.mp (registered_run he .empty (.inr registered)) with ⟨state, hl⟩
  have hs : IsSegment id := by
    cases publish with
    | mqPublish =>
      cases publishes
      exact hp.2.2
    | _ => simp [publishedId?] at publishes
  have hst := tracked_of_publish hp publishes hl (beyond state hl)
    (stateMachine.history .empty (earlier ++ [publish]))
  have hsp : earlier ++ publish :: later = (earlier ++ [publish]) ++ later := by simp
  have hr : stateMachine.final .empty (earlier ++ [publish]) =
      (stateMachine.step (stateMachine.final .empty earlier) publish).1 :=
    stateMachine.final_append .empty earlier [publish]
  rw [hsp, stateMachine.history_append .empty (earlier ++ [publish]) later,
    stateMachine.final_append .empty (earlier ++ [publish]) later, hr]
  exact (hst.run hs hla).accounted

/-- The group has gone past the message and does not hold it. -/
def Past (topic group id : Text) (data : Store Bytes) : Prop :=
  ∃ state, loadGroupState data topic group = some state ∧ id ≤ state.hwm ∧ id ∉ state.ids

theorem Past.step (hp : Past t g id data) (ht : IsTraffic t op) :
    Past t g id (stateMachine.step data op).1 ∧
      (ClaimsFor t g op → id ∉ (stateMachine.step data op).2.claimedIds) := by
  obtain ⟨s, hl, hw, hn⟩ := hp
  cases traffic_groupMove ht g data with
  | same hc hv =>
    rw [hl, map_some, map_eq_some_iff] at hv
    obtain ⟨a, ha, he⟩ := hv
    obtain ⟨hh, hi⟩ := Prod.mk.inj he
    exact ⟨⟨a, ha, hh ▸ hw, hi ▸ hn⟩, (absurd · hc)⟩
  | ack ha =>
    rw [hl] at ha
    exact ⟨⟨_, ha, hw, fun h => hn (mem_acked_ids.mp h).1⟩, False.elim⟩
  | @claim _ _ sp mb a _ _ ha he _ =>
    rw [show groupOrNew data t g sp = s by simp [groupOrNew, hl]] at he
    have ho := newLogIds_sorted data t s.hwm mb
    have hd : id ∉ (stateMachine.step data op).2.claimedIds := fun h =>
      (he.mem_of_delivered h).elim hn fun h => not_le.mpr ((pairwise_cons.mp ho).1 id h) hw
    refine ⟨⟨a, ha, ?_, fun h => (he.held_or_delivered h).elim hn hd⟩, fun _ => hd⟩
    obtain ⟨_, _, _, _, hr, _, _, hm, _⟩ := he
    rw [hm]
    exact hw.trans (le_getLastD_of_sorted (ClaimEffect.taken_sorted (hr ▸ ho)) (by simp))

/-- An ack is final: once a group has gone past a message, no claim after its ack returns it,
whatever is published, claimed, acked and nacked. -/
theorem acked_not_redelivered {topic group id : Text} {data : Store Bytes} {state : GroupState}
    (registered : loadGroupState data topic group = some state) (seen : id ≤ state.hwm)
    {later : List (WriteOp Bytes)} (traffic : ∀ op ∈ later, IsTraffic topic op) :
    ¬WasClaimed topic group id
      (stateMachine.history (stateMachine.step data (.mqAckGrouped topic group id)).1 later) := by
  have hl := loadGroupState_applyMqAckGrouped (.new data) topic group id
  have hp : Past topic group id (stateMachine.step data (.mqAckGrouped topic group id)).1 :=
    ⟨state.acked id, hl.trans (by simp [registered]), seen, fun h => (mem_acked_ids.mp h).2 rfl⟩
  rintro ⟨entry, hm, hc, hi⟩
  exact outputs_of_invariant (fun op r => ClaimsFor topic group op → id ∉ r.claimedIds)
    (fun _ _ hp ht => (hp.step ht).1) (fun _ _ hp ht => (hp.step ht).2) hp
    (stateMachine.meets_of_forall _ traffic) entry hm hc hi

end Tracking

namespace Overtaken

def topic : Text := "orders".toList

def group : Text := "billing".toList

/-- Node 2 mints `firstId` before node 1 mints `secondId`. -/
def firstId : Text := nextId 1000 2 0

def secondId : Text := nextId 1001 1 0

def publish (id : Text) : WriteOp Stored := .mqPublish topic id true none none 0 0 0

def claim (nowMs : UInt64) : WriteOp Stored :=
  .mqClaimGrouped topic group .earliest nowMs 30 8 3

/-- In minting order the group loses neither message. -/
theorem inOrder_accounted : Accounted topic group secondId (stateMachine.history .empty
        [publish firstId, claim 1002, publish secondId, claim 1003]) (stateMachine.final .empty
        [publish firstId, claim 1002, publish secondId, claim 1003]) := by
  refine (accounted_iff_beyond_hwm topic group secondId [publish firstId, claim 1002]
    (publish secondId) (by decide) (by decide) rfl (by decide)).mpr ?_ [claim 1003]
    (by decide) (by decide)
  intro s hl
  have hk : loadGroupState (stateMachine.final .empty [publish firstId, claim 1002])
      topic group = some ⟨1, firstId, [⟨firstId, 1, 1032⟩]⟩ := by
    decide
  cases hl.symm.trans hk
  decide

/-- Applied the other way round, with a claim in between, the group never sees
the message that was minted first. -/
theorem overtaken_not_accounted :
    (∀ op ∈ [publish secondId, claim 1002, publish firstId], IsTraffic topic op) ∧
    (publishedIds [publish secondId, claim 1002, publish firstId]).Nodup ∧
    ¬Accounted topic group firstId
      (stateMachine.history .empty [publish secondId, claim 1002, publish firstId])
      (stateMachine.final .empty [publish secondId, claim 1002, publish firstId]) := by
  refine ⟨by decide, by decide, ?_⟩
  rintro ⟨s, hl, cases⟩
  have hk : loadGroupState (stateMachine.final .empty
      [publish secondId, claim 1002, publish firstId]) topic group =
      some ⟨1, secondId, [⟨secondId, 1, 1032⟩]⟩ := by
    decide
  cases hl.symm.trans hk
  rcases cases with ⟨hah, _⟩ | hh | hb | ⟨first, y, split, _, r, hac⟩
  · exact absurd hah (by decide)
  · exact absurd hh (by decide)
  · exact absurd hb (by decide)
  have ha := congrArg (List.map Prod.fst) split
  rw [Machine.history_map_fst, List.map_append] at ha
  have hi : WriteOp.mqAckGrouped topic group firstId ∈
      [publish secondId, claim 1002, publish firstId] :=
    ha ▸ List.mem_append_right _ (List.mem_map_of_mem hac)
  simp [publish, claim] at hi

theorem firstId_acked : ¬WasClaimed topic group firstId (stateMachine.history
    (stateMachine.step (stateMachine.final .empty [publish firstId, claim 1002])
      (.mqAckGrouped topic group firstId)).1 [claim 9000]) := by
  have hl : loadGroupState (stateMachine.final .empty [publish firstId, claim 1002]) topic group =
      some ⟨1, firstId, [⟨firstId, 1, 1032⟩]⟩ := by
    decide
  exact acked_not_redelivered hl (le_refl _) (by decide)

end Overtaken

end BoatRamp.Cluster
