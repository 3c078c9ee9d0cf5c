import BoatRamp.Node.Effects
import BoatRamp.Node.Interleaved

/-!
# The backlog gate

A grouped topic keeps the largest id of its log beside the log, so that a group
that has read that far need not scan.  A publish reads the gate, and moves it
to its own id in the batch that adds its entry.  Between the two another publish
may commit: a batch with a smaller id then moves the gate back.  As long as no
batch does that, the gate stays at or above every entry.
-/

namespace BoatRamp.Node

open Library Messaging List KvWrite Concurrent

variable {Bytes : Type} [Codec Bytes]

/-- No entry of a log lies beyond the gate of its topic. -/
def Covered (kv : Store Bytes) : Prop :=
  ∀ topic id, IsSegment id → (kv.get? (glogKey topic id)).isSome → id ≤ readLogmax kv topic

/-- No gate moves back. -/
def Advances (before after : Store Bytes) : Prop :=
  ∀ topic, readLogmax before topic ≤ readLogmax after topic

theorem readLogmax_congr {x y : Store Bytes} {t : Text}
    (hs : x.get? (logmaxKey t) = y.get? (logmaxKey t)) : readLogmax x t = readLogmax y t := by
  simp only [readLogmax, readText, hs]

/-- Writes to other keyspaces than those of the logs and their gates. -/
def Elsewhere (ops : List (KvWrite Bytes)) : Prop :=
  ∀ op ∈ ops, ∃ family name, op.key = Family.key family name ∧ family ≠ .glog ∧ family ≠ .logmax

omit [Codec Bytes] in
theorem Elsewhere.get?_writeBatch {ops : List (KvWrite Bytes)} (he : Elsewhere ops)
    (kv : Store Bytes) {fam : Family} (log : fam = .glog ∨ fam = .logmax) (name : Text) :
    (writeBatch kv ops).get? (fam.key name) = kv.get? (fam.key name) := by
  apply get?_writeBatch_of_unnamed
  intro op hm hs
  obtain ⟨o, rest, key, hn, hno⟩ := he op hm
  rw [key, Family.key_inj] at hs
  rcases log with rfl | rfl
  · exact hn hs.1.symm
  · exact hno hs.1.symm

omit [Codec Bytes] in
theorem Elsewhere.nil : Elsewhere ([] : List (KvWrite Bytes)) := by
  intro op hm
  cases hm

omit [Codec Bytes] in
theorem Elsewhere.cons {op : KvWrite Bytes} {ops : List (KvWrite Bytes)} {fam : Family}
    {name : Text} (key : op.key = fam.key name) (hn : fam ≠ .glog)
    (hno : fam ≠ .logmax) (hr : Elsewhere ops) : Elsewhere (op :: ops) := by
  intro o hm
  rcases mem_cons.mp hm with rfl | hl
  · exact ⟨fam, name, key, hn, hno⟩
  · exact hr o hl

def SameLogs (before after : Store Bytes) : Prop :=
  ∃ ops, Elsewhere ops ∧ after = writeBatch before ops

omit [Codec Bytes] in
theorem SameLogs.refl (kv : Store Bytes) : SameLogs kv kv := ⟨[], .nil, rfl⟩

theorem SameLogs.advances {b a : Store Bytes} (hs : SameLogs b a) : Advances b a := by
  obtain ⟨ops, he, rfl⟩ := hs
  intro t
  rw [readLogmax_congr (he.get?_writeBatch b (.inr rfl) t)]

theorem SameLogs.covered {b a : Store Bytes} (hsa : SameLogs b a) (hc : Covered b) : Covered a := by
  obtain ⟨ops, he, rfl⟩ := hsa
  intro t id hs hf
  rw [readLogmax_congr (he.get?_writeBatch b (.inr rfl) t)]
  apply hc t id hs
  rwa [glogKey, he.get?_writeBatch b (.inl rfl)] at hf

section Steps

variable (sh : Shared Bytes)

theorem groupStep_sameLogs (cl : Call) (t g : Text)
    (c : GroupState → Option GroupState) (r : Bool) :
    SameLogs sh.node.kv (groupStep sh cl t g c r).1.node.kv := by
  unfold groupStep
  split_ifs
  · exact .refl _
  split
  · exact .refl _
  · exact .refl _
  · split <;> exact .refl _

theorem recordStep_sameLogs (t id : Text) (r : Rewrite) :
    SameLogs sh.node.kv (recordStep sh t id r).1.node.kv := by
  unfold recordStep
  split
  · exact .refl _
  · split <;> exact .refl _

theorem regroupStep_sameLogs (t g : Text) (s : GroupState) (r : Bool) :
    SameLogs sh.node.kv (regroupStep sh t g s r).1.node.kv := by
  refine ⟨_, ?_, rfl⟩
  apply Elsewhere.cons rfl (by decide) (by decide)
  cases r with
  | true => exact .cons rfl (by decide) (by decide) .nil
  | false => exact .nil

theorem rewriteStep_sameLogs (t id : Text) (r : Rewrite) (rc : Record) :
    SameLogs sh.node.kv (rewriteStep sh t id r rc).1.node.kv := by
  refine ⟨_, ?_, rfl⟩
  cases r with
  | nack um =>
    exact .cons rfl (by decide) (by decide) (.cons rfl (by decide) (by decide) .nil)
  | lastError rsn => exact .cons rfl (by decide) (by decide) .nil

theorem elsewhere_actions (t : Text) (acts : List ClaimAction) :
    Elsewhere (acts.flatMap (actionOps t) : List (KvWrite Bytes)) := by
  induction acts with
  | nil => exact .nil
  | cons act rest ih =>
    cases act with
    | lease id r => exact .cons rfl (by decide) (by decide) ih
    | deadLetter id r =>
      exact .cons rfl (by decide) (by decide) (.cons rfl (by decide) (by decide) ih)

theorem startAck_sameLogs (msg : ClaimedMessage) :
    SameLogs sh.node.kv (startAck sh msg).1.node.kv := by
  unfold startAck
  have d : SameLogs sh.node.kv (sh.node.deleteKey (metaKey msg.topic msg.id)).kv :=
    ⟨[.delete (metaKey msg.topic msg.id)], .cons rfl (by decide) (by decide) .nil, rfl⟩
  split_ifs
  · exact groupStep_sameLogs sh _ _ _ _ _
  · exact d
  · exact d

theorem readStep_sameLogs (t : Text) (dn : List ClaimAction) (c : List ClaimedMessage)
    (d : Bool) (p : List ClaimAction) : SameLogs sh.node.kv (readStep sh t dn c d p).1.node.kv := by
  cases p with
  | nil =>
    have w : SameLogs sh.node.kv (sh.commit (dn.flatMap (actionOps t))).node.kv :=
      ⟨_, elsewhere_actions t dn, rfl⟩
    unfold readStep
    split_ifs
    · exact w
    · exact w
  | cons act p =>
    simp only [readStep]
    split <;> exact .refl _

theorem loadStep_sameLogs (req : ClaimRequest) (nowMs : UInt64) (rs : List (Text × Record))
    (s : List Text) : SameLogs sh.node.kv (loadStep sh req nowMs rs s).1.node.kv := by
  cases s with
  | nil => exact .refl _
  | cons sf rest =>
    simp only [loadStep]
    split_ifs
    · split
      · exact .refl _
      · split <;> exact .refl _
    · exact .refl _

theorem startStep_sameLogs (nowMs : UInt64) (c : Call) :
    SameLogs sh.node.kv (startStep sh nowMs c).1.node.kv := by
  cases c with
  | publish p =>
    refine ⟨[], .nil, ?_⟩
    simp [startStep, startPublish, Shared.withNode]
  | claim req =>
    simp only [startStep]
    split_ifs <;> exact .refl _
  | ack msg => exact startAck_sameLogs sh msg
  | nackAfter msg dm =>
    simp only [startStep, startNack]
    split_ifs
    · exact groupStep_sameLogs sh _ _ _ _ _
    · exact recordStep_sameLogs sh _ _ _
  | setLastError msg rsn =>
    simp only [startStep, startSetLastError]
    split_ifs
    · exact .refl _
    · exact recordStep_sameLogs sh _ _ _

theorem taskStep_sameLogs {task : Task} (nowMs : UInt64)
    (ho : ∀ pb mn lg, task ≠ .committing pb mn lg) :
    SameLogs sh.node.kv (taskStep sh task nowMs).1.node.kv := by
  cases task with
  | committing pb mn lg => exact absurd rfl (ho pb mn lg)
  | start cl => exact startStep_sameLogs sh nowMs cl
  | storing pb mn | retaining pb mn | gating pb mn | dropping msg => exact .refl _
  | entering req =>
    simp only [taskStep, enterClaim]
    split_ifs <;> exact .refl _
  | loading req cm s rs => exact loadStep_sameLogs sh _ _ _ _
  | reading t dn p c d => exact readStep_sameLogs sh _ _ _ _ _
  | checking t c =>
    refine ⟨[], .nil, ?_⟩
    simp only [taskStep, checkStep]
    split_ifs <;> simp [Shared.finishClaim, Shared.withNode]
  | pruning t c =>
    simp only [taskStep, pruneStep]
    split_ifs <;> exact .refl _
  | unmarking t c =>
    exact ⟨[.delete (readyKey t)], .cons rfl (by decide) (by decide) .nil, rfl⟩
  | rewriting t id re rc => exact rewriteStep_sameLogs sh _ _ _ _
  | regrouping t g sta r => exact regroupStep_sameLogs sh _ _ _ _

end Steps

section Commit

variable (kv : Store Bytes) (pub : Publication) (m : Minted) (l : Text)

theorem readLogmax_insert_of_ne {fam : Family} (ho : fam ≠ .logmax) (name : Text)
    (v : Bytes) (t : Text) : readLogmax (kv.insert (fam.key name) v) t = readLogmax kv t := by
  apply readLogmax_congr
  apply kv.get?_insert_of_ne
  simp [logmaxKey, ho.symm]

theorem readLogmax_insert (id t o : Text) :
    readLogmax (kv.insert (logmaxKey t) (Codec.intoBytes id)) o =
      if o = t then id else readLogmax kv o := by
  by_cases hs : o = t
  · simp [readLogmax, readText, hs]
  have hd : logmaxKey o ≠ logmaxKey t := by simp [logmaxKey, hs]
  rw [if_neg hs]
  exact readLogmax_congr (kv.get?_insert_of_ne _ hd)

theorem readLogmax_publishWrites (t : Text) : readLogmax (writeBatch kv (publishWrites pub m l)) t =
      if m.retain = true ∧ l < m.id ∧ t = pub.topic then m.id
      else readLogmax kv t := by
  have hre : ∀ (kv : Store Bytes) name v,
      readLogmax (kv.insert (Family.mq.key name) v) t = readLogmax kv t :=
    fun kv name v => readLogmax_insert_of_ne kv (by decide) name v t
  have hm : ∀ (kv : Store Bytes) name v,
      readLogmax (kv.insert (Family.ready.key name) v) t = readLogmax kv t :=
    fun kv name v => readLogmax_insert_of_ne kv (by decide) name v t
  have he : ∀ (kv : Store Bytes) name v,
      readLogmax (kv.insert (Family.glog.key name) v) t = readLogmax kv t :=
    fun kv name v => readLogmax_insert_of_ne kv (by decide) name v t
  unfold publishWrites
  by_cases hr : m.retain = true
  · by_cases hb : l < m.id
    · simp [hr, hb, apply, readLogmax_insert, metaKey, readyKey, glogKey, hre, hm, he]
    · simp [hr, hb, apply, metaKey, readyKey, glogKey, hre, hm, he]
  · simp [hr, apply, metaKey, readyKey, hre, hm]

theorem isSome_get?_publishWrites {t id : Text}
    (hfo : ((writeBatch kv (publishWrites pub m l)).get? (glogKey t id)).isSome) :
    (kv.get? (glogKey t id)).isSome ∨ m.retain = true ∧ glogKey t id = glogKey pub.topic m.id := by
  by_cases he : m.retain = true ∧ glogKey t id = glogKey pub.topic m.id
  · exact .inr he
  left
  rwa [get?_writeBatch_of_unnamed] at hfo
  intro w hm hs
  rcases mem_append.mp hm with hf | log
  · simp only [mem_cons, not_mem_nil, or_false] at hf
    rcases hf with rfl | rfl
    · simp [key, glogKey, metaKey] at hs
    · simp [key, glogKey, readyKey] at hs
  split_ifs at log with hr hb
  · simp only [mem_cons, not_mem_nil, or_false] at log
    rcases log with rfl | rfl
    · exact he ⟨hr, hs⟩
    · simp [key, glogKey, logmaxKey] at hs
  · obtain rfl := mem_singleton.mp log
    exact he ⟨hr, hs⟩
  · cases log

variable {kv pub m l}

/-- A batch whose id is not below the gate moves no gate back. -/
theorem advances_publishWrites (ho : m.retain = true → l < m.id → readLogmax kv pub.topic ≤ m.id) :
    Advances kv (writeBatch kv (publishWrites pub m l)) := by
  intro t
  rw [readLogmax_publishWrites]
  split_ifs with hm
  · obtain ⟨hr, hb, rfl⟩ := hm
    exact ho hr hb
  · exact le_refl _

theorem covered_publishWrites (hs : IsSegment m.id) (hc : Covered kv)
    (hre : l ≤ readLogmax kv pub.topic) (ho : m.retain = true → l < m.id →
      readLogmax kv pub.topic ≤ m.id) : Covered (writeBatch kv (publishWrites pub m l)) := by
  intro t id he hf
  rcases isSome_get?_publishWrites kv pub m l hf with old | ⟨hr, hsa⟩
  · exact le_trans (hc t id he old) (advances_publishWrites ho t)
  obtain ⟨rfl, rfl⟩ := (joined_inj he.2 hs.2).mp (Family.key_inj.mp hsa).2
  rw [readLogmax_publishWrites]
  by_cases hb : l < m.id
  · rw [if_pos ⟨hr, hb, rfl⟩]
  · rw [if_neg fun hm => hb hm.2.1]
    exact le_trans (not_lt.mp hb) hre

end Commit

def Task.Gated (kv : Store Bytes) : Task → Prop
  | .storing _ minted => IsSegment minted.id
  | .retaining _ minted => IsSegment minted.id
  | .gating _ minted => IsSegment minted.id
  | .committing publication minted logmax =>
      IsSegment minted.id ∧ logmax ≤ readLogmax kv publication.topic
  | _ => True

variable {task : Task}

theorem Task.Gated.mono {b a : Store Bytes} (ha : Advances b a)
    (hg : task.Gated b) : task.Gated a := by
  cases task with
  | committing p mn lg =>
    exact ⟨hg.1, le_trans hg.2 (ha p.topic)⟩
  | _ => exact hg

/-- No publish that found the gate below its id commits when the gate has passed that id. -/
def InOrder (pool : Pool (Shared Bytes) Task) : Schedule Call UInt64 → Prop
  | .invoke _ => True
  | .run index _ =>
      match pool.running[index]? with
      | some (.committing publication minted logmax) =>
          minted.retain = true → logmax < minted.id →
            readLogmax pool.shared.node.kv publication.topic ≤ minted.id
      | _ => True

instance (pool : Pool (Shared Bytes) Task) (action : Schedule Call UInt64) :
    Decidable (InOrder pool action) := by
  unfold InOrder
  split
  · infer_instance
  · split <;> infer_instance

structure GateSound (pool : Pool (Shared Bytes) Task) : Prop where
  covered : Covered pool.shared.node.kv
  gated : ∀ task ∈ pool.running, task.Gated pool.shared.node.kv

section Continuations

variable {sh : Shared Bytes} {kv : Store Bytes} {cn : Task}

theorem groupStep_gated {cl : Call} {t g : Text} {c : GroupState → Option GroupState} {r : Bool}
    (hs : (Task.start cl).Gated kv) (hc : (groupStep sh cl t g c r).2 = .inl cn) : cn.Gated kv := by
  unfold groupStep at hc
  split_ifs at hc
  · cases hc
    exact hs
  split at hc
  · cases hc
  · cases hc
  split at hc
  · cases hc
  · cases hc
    trivial

theorem recordStep_gated {t id : Text} {r : Rewrite}
    (hc : (recordStep sh t id r).2 = .inl cn) : cn.Gated kv := by
  unfold recordStep at hc
  split at hc
  · cases hc
  split at hc
  · cases hc
  · cases hc
    trivial

variable {nowMs : UInt64}

theorem startStep_gated {c : Call} (hc : (startStep sh nowMs c).2 = .inl cn) : cn.Gated kv := by
  cases c with
  | publish p =>
    have hs := mint_isSegment sh.node nowMs p.topic p.payload
    simp only [startStep, startPublish, Sum.inl.injEq] at hc
    split_ifs at hc
    · subst hc
      exact ⟨hs, not_lt.mp (not_lt_nil _)⟩
    · subst hc
      exact hs
  | claim req =>
    simp only [startStep] at hc
    split_ifs at hc
    cases hc
    trivial
  | ack msg =>
    simp only [startStep, startAck] at hc
    split_ifs at hc
    · exact groupStep_gated trivial hc
    · cases hc
    · cases hc
      trivial
  | nackAfter msg dm =>
    simp only [startStep, startNack] at hc
    split_ifs at hc
    · exact groupStep_gated trivial hc
    · exact recordStep_gated hc
  | setLastError msg rsn =>
    simp only [startStep, startSetLastError] at hc
    split_ifs at hc
    · cases hc
    · exact recordStep_gated hc

theorem loadStep_gated {req : ClaimRequest} {rs : List (Text × Record)} {s : List Text}
    (hc : (loadStep sh req nowMs rs s).2 = .inl cn) : cn.Gated kv := by
  cases s with
  | nil =>
    cases hc
    trivial
  | cons sf rest =>
    simp only [loadStep] at hc
    split_ifs at hc
    · split at hc
      · cases hc
        trivial
      split at hc
      · cases hc
      · cases hc
        trivial
    · cases hc
      trivial

theorem readStep_gated {t : Text} {dn p : List ClaimAction} {c : List ClaimedMessage} {d : Bool}
    (hc : (readStep sh t dn c d p).2 = .inl cn) : cn.Gated kv := by
  cases p with
  | nil =>
    simp only [readStep] at hc
    split_ifs at hc
    · cases hc
      trivial
    · cases hc
  | cons act p =>
    simp only [readStep] at hc
    split at hc
    · cases hc
    · cases hc
      trivial

theorem taskStep_gated {task : Task} (hg : task.Gated sh.node.kv)
    (hs : (taskStep sh task nowMs).1.node.kv = sh.node.kv → kv = sh.node.kv)
    (hc : (taskStep sh task nowMs).2 = .inl cn) : cn.Gated kv := by
  cases task with
  | start cl => exact startStep_gated hc
  | storing pb mn =>
    simp only [taskStep, storePayloadStep, Sum.inl.injEq] at hc
    split_ifs at hc
    · subst hc
      exact hg
    · subst hc
      exact ⟨hg, not_lt.mp (not_lt_nil _)⟩
  | retaining pb mn =>
    cases hc
    exact hg
  | gating pb mn =>
    cases hc
    rw [hs rfl]
    exact ⟨hg, le_refl _⟩
  | committing pb mn lg =>
    simp only [taskStep, commitStep] at hc hs
    split_ifs at hc hs
    · cases hc
      rw [hs rfl]
      exact hg
    · cases hc
  | entering req =>
    simp only [taskStep, enterClaim] at hc
    split_ifs at hc
    · cases hc
      trivial
    · cases hc
      trivial
  | loading req cm s rs => exact loadStep_gated hc
  | reading t dn p c d => exact readStep_gated hc
  | checking t c =>
    simp only [taskStep, checkStep] at hc
    split_ifs at hc
    · cases hc
    · cases hc
      trivial
  | pruning t c =>
    simp only [taskStep, pruneStep] at hc
    split_ifs at hc
    · cases hc
      trivial
    · cases hc
      trivial
    · cases hc
  | unmarking t c | dropping msg | rewriting t id re rc | regrouping t g sta r => cases hc

end Continuations

theorem taskStep_covered {s : Shared Bytes} (nowMs : UInt64) (hc : Covered s.node.kv)
    (hg : task.Gated s.node.kv) (ho : ∀ p mn lg, task = .committing p mn lg →
      mn.retain = true → lg < mn.id → readLogmax s.node.kv p.topic ≤ mn.id) :
    Advances s.node.kv (taskStep s task nowMs).1.node.kv ∧
      Covered (taskStep s task nowMs).1.node.kv := by
  by_cases hco : ∃ p mn lg, task = .committing p mn lg
  · obtain ⟨p, mn, lg, rfl⟩ := hco
    simp only [taskStep, commitStep]
    split_ifs
    · exact ⟨fun t => le_refl _, hc⟩
    have hi := ho p mn lg rfl
    exact ⟨advances_publishWrites hi, covered_publishWrites hg.1 hc hg.2 hi⟩
  have hs : SameLogs s.node.kv (taskStep s task nowMs).1.node.kv := by
    apply taskStep_sameLogs
    intro p mn lg hcg
    exact hco ⟨p, mn, lg, hcg⟩
  exact ⟨hs.advances, hs.covered hc⟩

theorem inOrder_committing {s : Shared Bytes} {b a : List Task} {nowMs : UInt64}
    (ho : InOrder ⟨s, b ++ task :: a⟩ (.run b.length nowMs)) :
    ∀ p mn lg, task = .committing p mn lg → mn.retain = true → lg < mn.id →
        readLogmax s.node.kv p.topic ≤ mn.id := by
  rintro p mn lg rfl
  simpa [InOrder] using ho

theorem inOrder_step (p : Pool (Shared Bytes) Task) (act : Schedule Call UInt64)
    (hs : GateSound p) (ho : InOrder p act) : GateSound (operations.machine.step p act).1 := by
  refine kept_of_tasks InOrder ?_ ?_ ?_ p act hs ho
  · intro s r cl hs _
    refine ⟨hs.covered, ?_⟩
    intro task hme
    rcases mem_append.mp hme with old | new
    · exact hs.gated task old
    · obtain rfl := mem_singleton.mp new
      trivial
  · intro s b task a nowMs next c hs ho hm
    have hme : task ∈ b ++ task :: a := by simp
    have hi := inOrder_committing ho
    obtain ⟨ha, hc⟩ :=
      taskStep_covered nowMs hs.covered (hs.gated task hme) hi
    have hm : taskStep s task nowMs = (next, .inl c) := hm
    have hg : c.Gated next.node.kv := by
      have hco : (taskStep s task nowMs).2 = .inl c := by rw [hm]
      apply taskStep_gated (hs.gated task hme) _ hco
      rw [hm]
      exact id
    rw [hm] at ha hc
    refine ⟨hc, ?_⟩
    intro o r
    rcases mem_around.mp r with rfl | hw
    · exact hg
    · exact (hs.gated o (mem_around.mpr (.inr hw))).mono ha
  intro s b task a nowMs next an hs ho hm
  have hme : task ∈ b ++ task :: a := by simp
  have hi := inOrder_committing ho
  obtain ⟨ha, hc⟩ :=
    taskStep_covered nowMs hs.covered (hs.gated task hme) hi
  have hm : taskStep s task nowMs = (next, .inr an) := hm
  rw [hm] at ha hc
  refine ⟨hc, ?_⟩
  intro o hw
  exact (hs.gated o (mem_around.mpr (.inr hw))).mono ha

/-- Along every schedule whose publishes commit in order, the gate of a topic is at or above
every id of its log. -/
theorem gate_covers_of_inOrder (start : Shared Bytes) (covered : Covered start.node.kv)
    (actions : List (Schedule Call UInt64))
    (ordered : operations.machine.Meets InOrder ⟨start, []⟩ actions) :
    Covered (operations.machine.final ⟨start, []⟩ actions).shared.node.kv := by
  have hi : GateSound ⟨start, []⟩ := by
    refine ⟨covered, ?_⟩
    intro task hr
    cases hr
  exact (Machine.invariant inOrder_step hi ordered).covered

namespace Overtaking

def topic : Text := "events".toList

def start : Shared Stored :=
  ⟨{ LogMessaging.new .empty .empty with groupedTopics := some [topic] }, false, false, []⟩

def publication : Publication := ⟨topic, [7], none, 0, 0, 0⟩

def both : List (Schedule Call UInt64) :=
  [.invoke (.publish publication), .invoke (.publish publication)] ++
    List.replicate 4 (.run 0 1000) ++ List.replicate 4 (.run 1 1000)

def orderly : List (Schedule Call UInt64) := both ++ [.run 0 1000, .run 0 1000]

def overtaking : List (Schedule Call UInt64) := both ++ [.run 1 1000, .run 0 1000]

def final (actions : List (Schedule Call UInt64)) : Pool (Shared Stored) Task :=
  operations.machine.final ⟨start, []⟩ actions

theorem covered_start : Covered start.node.kv := by
  intro t id hs hf
  cases hf

theorem orderly_covered : operations.machine.Meets InOrder ⟨start, []⟩ orderly ∧
      (directChildren (final orderly).shared.node.kv (glogPrefix topic)).map Prod.fst =
        [singleNodeId 1000 0, singleNodeId 1000 1] ∧ Covered (final orderly).shared.node.kv := by
  refine ⟨by decide +kernel, by decide +kernel, ?_⟩
  exact gate_covers_of_inOrder start covered_start orderly (by decide +kernel)

theorem overtaken_beyond_gate : (final overtaking).running.length = 0 ∧
      readLogmax (final overtaking).shared.node.kv topic = singleNodeId 1000 0 ∧
      ¬Covered (final overtaking).shared.node.kv := by
  have gate : readLogmax (final overtaking).shared.node.kv topic = singleNodeId 1000 0 := by
    decide +kernel
  refine ⟨by decide +kernel, gate, ?_⟩
  intro hc
  have below := hc topic (singleNodeId 1000 1) (singleNodeId_isSegment _ _) (by decide +kernel)
  exact absurd below (by decide +kernel)

end Overtaking

end BoatRamp.Node
