import BoatRamp.Deploy.Index
import BoatRamp.Library.Pool

/-!
# Proofs of ownership

Checks of a challenge read it, wait for the network and mark it in separate
steps, and a host is attached in a step of its own after its challenge was
looked at.  Other calls run in between.  As long as none of them takes the
challenge away that such a call relies on, a challenge is marked verified only
after a probe for itself, and a host is attached only while its challenge is
verified.
-/

namespace BoatRamp.Deploy

open Library List.Subset Concurrent Option

variable {Settings : Type}

structure Challenge where
  host : Text
  method : VerificationMethod
  token : Text
  deriving DecidableEq

def DomainVerification.challenge (verification : DomainVerification) : Challenge :=
  ⟨verification.host, verification.method, verification.token⟩

/-- The store, and the challenges for which a probe has succeeded. -/
structure Claimed (Settings : Type) where
  kv : Kv Settings
  proven : List Challenge

inductive VerifyCall where
  | start (host : Text) (method : VerificationMethod) (nowUnix : Nat) (token : Text)
  | check (host : Text)
  | remove (host : Text)
  | attach (host : Text)

/-- Where a call is between two of its steps. -/
inductive VerifyTask where
  | enter (call : VerifyCall)
  /-- A check that waits for the network. -/
  | probing (host : Text) (verification : DomainVerification)
  /-- A check whose probe has succeeded. -/
  | marking (host : Text) (verification : DomainVerification)
  /-- An attachment of a wildcard that is verified, about to look at the method. -/
  | confirming (host : Text)
  /-- An attachment about to take the lock and write. -/
  | writing (host : Text)

inductive VerifyOutcome where
  | done
  | noChallenge
  | notFoundYet
  | probeFailed (error : VerifyError)
  | failed (error : DeployError)

section Steps

variable (formats : Formats Settings) (site : SiteRef)

def Claimed.finish {Result : Type} (shared : Claimed Settings) (kv : Result → Kv Settings)
    (result : Except DeployError Result) : Claimed Settings × (VerifyTask ⊕ VerifyOutcome) :=
  match result with
  | .ok value => ({ shared with kv := kv value }, .inr .done)
  | .error error => (shared, .inr (.failed error))

variable (shared : Claimed Settings)

def enterStep :
    VerifyCall → Claimed Settings × (VerifyTask ⊕ VerifyOutcome)
  | .start host method nowUnix token =>
      shared.finish Prod.fst (startDomainVerification shared.kv site.project site.site
        host method nowUnix token)
  | .check host =>
      match getDomainVerification shared.kv site.project site.site host with
      | .ok (some verification) => (shared, .inl (.probing host verification))
      | .ok none => (shared, .inr .noChallenge)
      | .error error => (shared, .inr (.failed error))
  | .remove host =>
      shared.finish Prod.fst
        (removeDomainVerification shared.kv site.project site.site host)
  | .attach host =>
      match isDomainVerified shared.kv site.project site.site host with
      | .ok true => (shared, .inl (if isWildcard host then .confirming host else .writing host))
      | .ok false => (shared, .inr (.failed (unverified site.site host)))
      | .error error => (shared, .inr (.failed error))

def probeStep (probe : DomainProbe) (host : Text)
    (verification : DomainVerification) : Claimed Settings × (VerifyTask ⊕ VerifyOutcome) :=
  match checkOwnership probe verification with
  | .ok true =>
      ({ shared with proven := verification.challenge :: shared.proven },
        .inl (.marking host verification))
  | .ok false => (shared, .inr .notFoundYet)
  | .error error => (shared, .inr (.probeFailed error))

/-- Once the challenge is marked, the check goes on as an attachment. -/
def markStep (host : Text) :
    Claimed Settings × (VerifyTask ⊕ VerifyOutcome) :=
  match markDomainVerified shared.kv site.project site.site host with
  | .ok (kv, _) => ({ shared with kv }, .inl (.enter (.attach host)))
  | .error error => (shared, .inr (.failed error))

def confirmStep (host : Text) :
    Claimed Settings × (VerifyTask ⊕ VerifyOutcome) :=
  match getDomainVerification shared.kv site.project site.site host with
  | .ok verification =>
      if verification.map DomainVerification.method = some .dns then (shared, .inl (.writing host))
      else (shared, .inr (.failed (unprovenWildcard host)))
  | .error error => (shared, .inr (.failed error))

def writeStep (host : Text) :
    Claimed Settings × (VerifyTask ⊕ VerifyOutcome) :=
  shared.finish id (attachLocked formats shared.kv site.project site.site host)

/-- The calls for one site; a choice is what the network answers at that moment. -/
def verifying : Concurrent (Claimed Settings) VerifyCall DomainProbe VerifyTask VerifyOutcome where
  start := .enter
  step shared task probe :=
    match task with
    | .enter call => enterStep site shared call
    | .probing host verification => probeStep shared probe host verification
    | .marking host _ => markStep site shared host
    | .confirming host => confirmStep site shared host
    | .writing host => writeStep formats site shared host

end Steps

section Records

variable {kv next : Kv Settings} {site : SiteRef} {host o : Text}

def recordKey (site : SiteRef) (host : Text) : Text :=
  domainVerificationKey site.project site.site host

theorem getDomainVerification_ok {vf : DomainVerification} :
    getDomainVerification kv site.project site.site host = .ok (some vf) ↔
      kv.get? (recordKey site host) = some (.verification vf) := by
  unfold getDomainVerification recordKey
  split <;> simp_all

theorem get?_putDomainVerification (vf : DomainVerification) :
    (putDomainVerification kv site.project site.site vf).get? (recordKey site o) =
      if recordKey site o = recordKey site vf.host then
        some (.verification vf)
      else kv.get? (recordKey site o) := by
  unfold putDomainVerification
  rw [writeBatch_cons, get?_writeBatch_of_unnamed]
  · by_cases hs : recordKey site o = recordKey site vf.host
    · rw [if_pos hs, hs]
      exact kv.get?_insert_self _ _
    · rw [if_neg hs]
      exact kv.get?_insert_of_ne _ hs
  intro w hi
  split at hi
  · rw [List.mem_singleton.mp hi]
    exact scopedKey_ne_key (by decide)
  · cases hi

def returnsExisting (site : SiteRef) (kv : Kv Settings) (host : Text)
    (method : VerificationMethod) : Bool :=
  match getDomainVerification kv site.project site.site host with
  | .ok (some existing) => existing.verified || existing.method = method
  | _ => false

theorem startDomainVerification_ok {m : VerificationMethod} {nu : Nat} {t : Text}
    {r : DomainVerification}
    (hd : startDomainVerification kv site.project site.site host m nu t = .ok (next, r)) :
    next = kv ∨ returnsExisting site kv host m = false ∧
      next = putDomainVerification kv site.project site.site (.new host m nu t) := by
  obtain ⟨e, hr, hd⟩ := bind_eq_ok_iff.mp hd
  split at hd
  · cases hd
    exact .inl rfl
  next hu =>
  obtain ⟨l, _, hd⟩ := bind_eq_ok_iff.mp hd
  dsimp only at hd
  split at hd
  · cases hd
  cases hd
  refine .inr ⟨?_, rfl⟩
  unfold returnsExisting
  rw [hr]
  cases e with
  | none => rfl
  | some e => simpa [Option.filter] using hu

theorem markDomainVerified_ok {r : DomainVerification}
    (hd : markDomainVerified kv site.project site.site host = .ok (next, r)) :
    ∃ sd, kv.get? (recordKey site host) = some (.verification sd) ∧
      next = putDomainVerification kv site.project site.site
        { sd with verified := true } := by
  obtain ⟨sd, hr, hd⟩ := bind_eq_ok_iff.mp hd
  split at hd
  · cases hd
  next sd =>
  cases hd
  exact ⟨_, getDomainVerification_ok.mp hr, rfl⟩

theorem getDomainVerification_none
    (hr : getDomainVerification kv site.project site.site host = .ok none) :
    kv.get? (recordKey site host) = none := by
  unfold getDomainVerification at hr
  split at hr
  · next absent => exact absent
  · cases hr
  · cases hr

theorem isDomainVerified_ok
    (hr : isDomainVerified kv site.project site.site host = .ok true) :
    ∃ sd, kv.get? (recordKey site host) = some (.verification sd) ∧ sd.verified := by
  obtain ⟨vf, hr, hv⟩ := bind_eq_ok_iff.mp hr
  cases vf with
  | none => cases hv
  | some sd => exact ⟨sd, getDomainVerification_ok.mp hr, Except.ok.inj hv⟩

theorem get?_removeDomainVerification {r : Bool}
    (hd : removeDomainVerification kv site.project site.site host = .ok (next, r)) :
    next.get? (recordKey site o) =
      if recordKey site o = recordKey site host then none
      else kv.get? (recordKey site o) := by
  obtain ⟨sd, hr, hd⟩ := bind_eq_ok_iff.mp hd
  split at hd
  · cases hd
    split
    · next hs =>
      rw [hs]
      exact getDomainVerification_none hr
    · rfl
  cases hd
  rw [writeBatch_cons, get?_writeBatch_of_unnamed]
  · by_cases hs : recordKey site o = recordKey site host
    · rw [if_pos hs, hs]
      exact kv.get?_erase_self _
    · rw [if_neg hs]
      exact kv.get?_erase_of_ne hs
  intro w hi
  split at hi
  · rw [List.mem_singleton.mp hi]
    exact scopedKey_ne_key (by decide)
  · cases hi

theorem get?_setSiteConfigLocked {formats : Formats Settings} {cfg : SiteConfig Settings} {c : Bool}
    (hdo : setSiteConfigLocked formats kv site.project site.site cfg c = .ok next) :
    next.get? (recordKey site o) = kv.get? (recordKey site o) := by
  obtain ⟨old, wr, c, _, rfl, _⟩ := setSiteConfigLocked_ok hdo
  have ha : ¬IsIndexKey (recordKey site o) := fun hin => hin.ne_scopedKey rfl
  have hu {s : Scope} (hd : .domainverify ≠ s) (rest : Text) :
      recordKey site o ≠ scopedKey site.project s rest := by
    intro hs
    have hp := (scopedKey_inj site.project.slash_not_mem site.project.slash_not_mem).mp hs
    exact hd hp.2.1
  rw [get?_configured_unclaimed (not_claimKey ha), get?_writeBatch_of_unnamed,
    get?_writeBatch_deletes, if_neg (not_staleKey ha)]
  intro w hi
  simp only [List.mem_cons, List.not_mem_nil, or_false] at hi
  rcases hi with rfl | rfl | rfl
  · exact scopedKey_ne_key (by decide)
  · exact hu (by decide) _
  split <;> exact hu (by decide) _

theorem get?_attachLocked {formats : Formats Settings}
    (hdo : attachLocked formats kv site.project site.site host = .ok next) :
    next.get? (recordKey site o) = kv.get? (recordKey site o) := by
  obtain ⟨_, _, hdo⟩ := bind_eq_ok_iff.mp hdo
  exact get?_setSiteConfigLocked hdo

end Records

variable (site : SiteRef)

def Placed (kv : Kv Settings) : Prop :=
  ∀ host stored, kv.get? (recordKey site host) = some (.verification stored) →
    recordKey site stored.host = recordKey site host

def Keeps (kv next : Kv Settings) (key : Text) : Prop :=
  ∀ stored, kv.get? key = some (.verification stored) →
    ∃ kept, next.get? key = some (.verification kept) ∧ kept.challenge = stored.challenge ∧
      (stored.verified → kept.verified)

theorem keeps_of_eq {kv next : Kv Settings} {key : Text} (hs : next.get? key = kv.get? key) :
    Keeps kv next key :=
  fun sd hf => ⟨sd, hs.trans hf, rfl, id⟩

def VerifyTask.held : VerifyTask → Option Text
  | .enter _ => none
  | .probing host _ => some (recordKey site host)
  | .marking host _ => some (recordKey site host)
  | .confirming host => some (recordKey site host)
  | .writing host => some (recordKey site host)

/-- What a call has found out still holds. -/
def VerifyTask.Backed (shared : Claimed Settings) : VerifyTask → Prop
  | .enter _ => True
  | .probing host verification =>
      ∃ stored, shared.kv.get? (recordKey site host) = some (.verification stored) ∧
        stored.challenge = verification.challenge
  | .marking host verification =>
      (∃ stored, shared.kv.get? (recordKey site host) = some (.verification stored) ∧
        stored.challenge = verification.challenge) ∧ verification.challenge ∈ shared.proven
  | .confirming host =>
      ∃ stored, shared.kv.get? (recordKey site host) = some (.verification stored) ∧
        stored.verified
  | .writing host =>
      ∃ stored, shared.kv.get? (recordKey site host) = some (.verification stored) ∧
        stored.verified ∧ (isWildcard host → stored.method = .dns)

theorem VerifyTask.Backed.kept {site : SiteRef} {shared next : Claimed Settings}
    {task : VerifyTask} (hb : task.Backed site shared)
    (hk : ∀ key, task.held site = some key → Keeps shared.kv next.kv key)
    (hpr : shared.proven ⊆ next.proven) : task.Backed site next := by
  cases task with
  | enter c => trivial
  | probing host vf =>
    obtain ⟨sd, hf, hse⟩ := hb
    obtain ⟨k, now, he, _⟩ := hk _ rfl sd hf
    exact ⟨k, now, he.trans hse⟩
  | marking host vf =>
    obtain ⟨⟨sd, hf, hse⟩, hp⟩ := hb
    obtain ⟨k, now, he, _⟩ := hk _ rfl sd hf
    exact ⟨⟨k, now, he.trans hse⟩, hpr hp⟩
  | confirming host =>
    obtain ⟨sd, hf, hv⟩ := hb
    obtain ⟨k, now, _, hs⟩ := hk _ rfl sd hf
    exact ⟨k, now, hs hv⟩
  | writing host =>
    obtain ⟨sd, hf, hv, hm⟩ := hb
    obtain ⟨k, now, he, hs⟩ := hk _ rfl sd hf
    have hsa : k.method = sd.method := congrArg Challenge.method he
    exact ⟨k, now, hs hv, fun hw => hsa.trans (hm hw)⟩

section Conditions

variable (site : SiteRef)

/-- No call in progress relies on the challenge under a key. -/
def Unheld (running : List VerifyTask) (key : Text) : Prop :=
  ∀ task ∈ running, task.held site ≠ some key

instance (running : List VerifyTask) (key : Text) : Decidable (Unheld site running key) :=
  inferInstanceAs (Decidable (∀ task ∈ running, _ ≠ _))

/-- A step that replaces or removes no challenge that a call in progress relies on. -/
def VerifyTask.Undisturbing (shared : Claimed Settings) (running : List VerifyTask) :
    VerifyTask → Prop
  | .enter (.start host method _ _) =>
      returnsExisting site shared.kv host method ∨
        Unheld site running (recordKey site (normalizeHost host))
  | .enter (.remove host) => Unheld site running (recordKey site host)
  | _ => True

instance (shared : Claimed Settings) (running : List VerifyTask) (task : VerifyTask) :
    Decidable (task.Undisturbing site shared running) := by
  unfold VerifyTask.Undisturbing
  split <;> infer_instance

/-- Challenges are replaced and removed only while no call relies on them. -/
def Undisturbed (pool : Pool (Claimed Settings) VerifyTask) :
    Schedule VerifyCall DomainProbe → Prop
  | .invoke _ => True
  | .run index _ =>
      ∀ task ∈ pool.running[index]?, task.Undisturbing site pool.shared pool.running

instance (pool : Pool (Claimed Settings) VerifyTask) (action : Schedule VerifyCall DomainProbe) :
    Decidable (Undisturbed site pool action) :=
  match action with
  | .invoke _ => instDecidableTrue
  | .run _ _ => inferInstanceAs (Decidable (∀ task ∈ _, VerifyTask.Undisturbing _ _ _ task))

end Conditions

section Effects

variable {formats : Formats Settings} {site : SiteRef} {shared next : Claimed Settings}
  {running : List VerifyTask} {task : VerifyTask} {p : DomainProbe}
  {res : VerifyTask ⊕ VerifyOutcome}

/-- What a step leaves to the other calls in progress. -/
structure Leaves (site : SiteRef) (running : List VerifyTask) (shared next : Claimed Settings) :
    Prop where
  placed : Placed site next.kv
  kept : ∀ task ∈ running, ∀ key, task.held site = some key → Keeps shared.kv next.kv key
  proven : shared.proven ⊆ next.proven

theorem leaves_of_eq (hpl : Placed site shared.kv) (hs : next.kv = shared.kv)
    (hp : shared.proven ⊆ next.proven) : Leaves site running shared next where
  placed := hs ▸ hpl
  kept _ _ _ _ := keeps_of_eq (by rw [hs])
  proven := hp

theorem VerifyTask.held_isRecordKey {key : Text} (hh : task.held site = some key) :
    ∃ host, key = recordKey site host := by
  cases task with
  | enter c => cases hh
  | probing host vf | marking host vf | confirming host | writing host =>
    exact ⟨host, (some.inj hh).symm⟩

open VerifyTask

theorem leaves_put (hp : Placed site shared.kv) {vf : DomainVerification}
    (hfr : Unheld site running (recordKey site vf.host) ∨ vf.verified ∧ ∃ sd,
        shared.kv.get? (recordKey site vf.host) = some (.verification sd) ∧
          vf.challenge = sd.challenge) : Leaves site running shared { shared with
        kv := putDomainVerification shared.kv site.project site.site vf } where
  placed := by
    intro host sd hf
    rw [get?_putDomainVerification] at hf
    split at hf
    · next same =>
      cases hf
      exact same.symm
    · exact hp host sd hf
  kept := by
    intro task hi key hh
    obtain ⟨host, rfl⟩ := held_isRecordKey hh
    intro sd hf
    rw [get?_putDomainVerification]
    split
    · next same =>
      rcases hfr with hu | ⟨hv, b, ht, he⟩
      · exact absurd (hh.trans (congrArg some same)) (hu task hi)
      rw [same, ht] at hf
      cases hf
      exact ⟨vf, rfl, he, fun _ => hv⟩
    · exact ⟨sd, hf, rfl, id⟩
  proven := refl _

theorem finish_cases {Result : Type} {kv : Result → Kv Settings}
    {written : Except DeployError Result} (hm : shared.finish kv written = (next, res)) :
    (∀ continued, res ≠ .inl continued) ∧
      (next = shared ∨ ∃ value, written = .ok value ∧ next = { shared with kv := kv value }) := by
  cases written with
  | ok value =>
    cases hm
    exact ⟨by simp, .inr ⟨value, rfl, rfl⟩⟩
  | error error =>
    cases hm
    exact ⟨by simp, .inl rfl⟩

variable {host : Text}

section Placed

variable (hpl : Placed site shared.kv)

include hpl

theorem leaves_remove (hfr : Unheld site running (recordKey site host)) {kv : Kv Settings}
    {r : Bool} (hd : removeDomainVerification shared.kv site.project site.site host =
      .ok (kv, r)) : Leaves site running shared { shared with kv } where
  placed := by
    intro ot sd hf
    rw [get?_removeDomainVerification hd] at hf
    split at hf
    · cases hf
    · exact hpl ot sd hf
  kept := by
    intro task hi key hh
    obtain ⟨ot, rfl⟩ := held_isRecordKey hh
    have ha : recordKey site ot ≠ recordKey site host := fun hs =>
      hfr task hi (hh.trans (congrArg some hs))
    apply keeps_of_eq
    rw [get?_removeDomainVerification hd, if_neg ha]
  proven := refl _

theorem enterStep_leaves {cl : VerifyCall} (hu : (enter cl).Undisturbing site shared running)
    (hm : enterStep site shared cl = (next, res)) : Leaves site running shared next ∧
      ∀ c, res = .inl c → c.Backed site next := by
  have hi : Leaves site running shared shared :=
    leaves_of_eq hpl rfl (refl _)
  cases cl with
  | start host m nu t =>
    obtain ⟨hen, rfl | ⟨⟨kv, s⟩, hd, rfl⟩⟩ := finish_cases hm
    · exact ⟨hi, fun c he => absurd he (hen c)⟩
    refine ⟨?_, fun c he => absurd he (hen c)⟩
    rcases startDomainVerification_ok hd with rfl | ⟨hfr, rfl⟩
    · exact hi
    · have hfe := hu.resolve_left (by rw [hfr]; exact Bool.false_ne_true)
      exact leaves_put hpl (.inl hfe)
  | check host =>
    simp only [enterStep] at hm
    split at hm
    · next verification read =>
      cases hm
      refine ⟨hi, ?_⟩
      rintro c ⟨⟩
      exact ⟨verification, getDomainVerification_ok.mp read, rfl⟩
    · cases hm
      exact ⟨hi, by simp⟩
    · cases hm
      exact ⟨hi, by simp⟩
  | remove host =>
    obtain ⟨hen, rfl | ⟨⟨kv, r⟩, hd, rfl⟩⟩ := finish_cases hm
    · exact ⟨hi, fun c he => absurd he (hen c)⟩
    · exact ⟨leaves_remove hpl hu hd, fun c he => absurd he (hen c)⟩
  | attach host =>
    simp only [enterStep] at hm
    split at hm
    · next read =>
      cases hm
      refine ⟨hi, ?_⟩
      rintro c ⟨⟩
      obtain ⟨sd, hf, hv⟩ := isDomainVerified_ok read
      split
      · exact ⟨sd, hf, hv⟩
      · next plain => exact ⟨sd, hf, hv, fun hw => absurd hw plain⟩
    · cases hm
      exact ⟨hi, by simp⟩
    · cases hm
      exact ⟨hi, by simp⟩

theorem probeStep_leaves {vf : DomainVerification} (hb : (probing host vf).Backed site shared)
    (hm : probeStep shared p host vf = (next, res)) : Leaves site running shared next ∧
      ∀ c, res = .inl c → c.Backed site next := by
  have hi : Leaves site running shared shared :=
    leaves_of_eq hpl rfl (refl _)
  unfold probeStep at hm
  split at hm
  · cases hm
    refine ⟨leaves_of_eq hpl rfl (List.subset_cons_self _ _), ?_⟩
    rintro c ⟨⟩
    exact ⟨hb, List.mem_cons_self⟩
  · cases hm
    exact ⟨hi, by simp⟩
  · cases hm
    exact ⟨hi, by simp⟩

theorem markStep_leaves (hm : markStep site shared host = (next, res)) :
    Leaves site running shared next ∧ ∀ c, res = .inl c → c.Backed site next := by
  unfold markStep at hm
  split at hm
  · next kv marked hd =>
    cases hm
    constructor
    · obtain ⟨sd, hf, rfl⟩ := markDomainVerified_ok hd
      apply leaves_put hpl
      refine .inr ⟨rfl, sd, ?_, rfl⟩
      rw [hpl host sd hf]
      exact hf
    · rintro c ⟨⟩
      trivial
  · cases hm
    exact ⟨leaves_of_eq hpl rfl (refl _), by simp⟩

theorem confirmStep_leaves (hb : (confirming host).Backed site shared)
    (hm : confirmStep site shared host = (next, res)) : Leaves site running shared next ∧
      ∀ c, res = .inl c → c.Backed site next := by
  have hi : Leaves site running shared shared :=
    leaves_of_eq hpl rfl (refl _)
  unfold confirmStep at hm
  split at hm
  · next vf hr =>
    split at hm
    · next hme =>
      cases hm
      refine ⟨hi, ?_⟩
      rintro c ⟨⟩
      obtain ⟨sd, hf, hv⟩ := hb
      rw [getDomainVerification_ok.mpr hf] at hr
      cases hr
      exact ⟨sd, hf, hv, fun _ => some.inj hme⟩
    · cases hm
      exact ⟨hi, by simp⟩
  · cases hm
    exact ⟨hi, by simp⟩

theorem writeStep_leaves (hm : writeStep formats site shared host = (next, res)) :
    Leaves site running shared next ∧ ∀ c, res = .inl c → c.Backed site next := by
  obtain ⟨hen, hs | ⟨kv, hd, hs⟩⟩ := finish_cases hm
  · subst hs
    exact ⟨leaves_of_eq hpl rfl (refl _), fun c he => absurd he (hen c)⟩
  subst hs
  refine ⟨⟨?_, ?_, refl _⟩, fun c he => absurd he (hen c)⟩
  · intro ot sd hf
    dsimp only [id] at hf
    rw [get?_attachLocked hd] at hf
    exact hpl ot sd hf
  intro task hi key hh
  obtain ⟨ot, rfl⟩ := held_isRecordKey hh
  exact keeps_of_eq (get?_attachLocked hd)

theorem step_leaves (hb : task.Backed site shared) (hu : task.Undisturbing site shared running)
    (hm : (verifying formats site).step shared task p = (next, res)) :
    Leaves site running shared next ∧ ∀ c, res = .inl c → c.Backed site next := by
  cases task with
  | enter cl => exact enterStep_leaves hpl hu hm
  | probing host vf => exact probeStep_leaves hpl hb hm
  | marking host vf => exact markStep_leaves hpl hm
  | confirming host => exact confirmStep_leaves hpl hb hm
  | writing host => exact writeStep_leaves hpl hm

end Placed

inductive StoreStep (formats : Formats Settings) (site : SiteRef) (kv next : Kv Settings) :
    VerifyTask → Prop
  | started {host token : Text} {method : VerificationMethod} {nowUnix : Nat}
      {challenge : DomainVerification} :
      startDomainVerification kv site.project site.site host method nowUnix token =
        .ok (next, challenge) →
      StoreStep formats site kv next (.enter (.start host method nowUnix token))
  | removed {host : Text} {existed : Bool} :
      removeDomainVerification kv site.project site.site host = .ok (next, existed) →
      StoreStep formats site kv next (.enter (.remove host))
  | marked {host : Text} {verification challenge : DomainVerification} :
      markDomainVerified kv site.project site.site host = .ok (next, challenge) →
      StoreStep formats site kv next (.marking host verification)
  | attached {host : Text} :
      attachLocked formats kv site.project site.site host = .ok next →
      StoreStep formats site kv next (.writing host)

theorem step_cases (hm : (verifying formats site).step shared task p = (next, res)) :
    next.kv = shared.kv ∨
      next.proven = shared.proven ∧ StoreStep formats site shared.kv next.kv task := by
  cases task with
  | enter c =>
    cases c with
    | start host m nu t =>
      obtain ⟨_, rfl | ⟨⟨kv, s⟩, hd, rfl⟩⟩ := finish_cases hm
      · exact .inl rfl
      · exact .inr ⟨rfl, .started hd⟩
    | check host | attach host =>
      simp only [verifying, enterStep] at hm
      split at hm <;> (cases hm; exact .inl rfl)
    | remove host =>
      obtain ⟨_, rfl | ⟨⟨kv, e⟩, hd, rfl⟩⟩ := finish_cases hm
      · exact .inl rfl
      · exact .inr ⟨rfl, .removed hd⟩
  | probing host vf =>
    simp only [verifying, probeStep] at hm
    split at hm <;> (cases hm; exact .inl rfl)
  | marking host vf =>
    simp only [verifying, markStep] at hm
    split at hm
    · next hd =>
      cases hm
      exact .inr ⟨rfl, .marked hd⟩
    · cases hm
      exact .inl rfl
  | confirming host =>
    simp only [verifying, confirmStep] at hm
    split at hm
    · split at hm <;> (cases hm; exact .inl rfl)
    · cases hm
      exact .inl rfl
  | writing host =>
    obtain ⟨_, rfl | ⟨kv, hd, rfl⟩⟩ := finish_cases hm
    · exact .inl rfl
    · exact .inr ⟨rfl, .attached hd⟩

/-- A step after which a verified challenge is stored that was not stored before has a probe for
that challenge behind it. -/
theorem step_proves (hb : task.Backed site shared)
    (hm : (verifying formats site).step shared task p = (next, res)) {r : DomainVerification}
    (sd : next.kv.get? (recordKey site host) = some (.verification r)) (hv : r.verified)
    (hf : shared.kv.get? (recordKey site host) ≠ some (.verification r)) :
    r.challenge ∈ next.proven := by
  rcases step_cases hm with hs | ⟨hpr, hw⟩
  · rw [hs] at sd
    exact absurd sd hf
  generalize next.kv = kv at hw sd
  cases hw with
  | started hd =>
    rcases startDomainVerification_ok hd with hs | ⟨_, hs⟩
    · rw [hs] at sd
      exact absurd sd hf
    rw [hs, get?_putDomainVerification] at sd
    split at sd
    · cases sd
      cases hv
    · exact absurd sd hf
  | removed hd =>
    rw [get?_removeDomainVerification hd] at sd
    split at sd
    · cases sd
    · exact absurd sd hf
  | marked hd =>
    obtain ⟨b, hfo, hs⟩ := markDomainVerified_ok hd
    obtain ⟨⟨_, ha, he⟩, hp⟩ := hb
    rw [hs, get?_putDomainVerification] at sd
    split at sd
    · cases sd
      cases hfo.symm.trans ha
      rw [hpr, show DomainVerification.challenge { b with verified := true } = _ from he]
      exact hp
    · exact absurd sd hf
  | attached hd =>
    rw [get?_attachLocked hd] at sd
    exact absurd sd hf

theorem step_index (hm : (verifying formats site).step shared task p = (next, res))
    (he : ∀ host, task ≠ .writing host) : Agree shared.kv next.kv := by
  rcases step_cases hm with hs | ⟨_, hw⟩
  · rw [hs]
    exact fun _ _ => rfl
  generalize next.kv = kv at hw
  cases hw with
  | started hd => exact agree_startDomainVerification hd
  | removed hd => exact agree_removeDomainVerification hd
  | marked hd => exact agree_markDomainVerified hd
  | attached hd => exact absurd rfl (he _)

end Effects

section Runs

variable (formats : Formats Settings) (site : SiteRef)

structure Sound (pool : Pool (Claimed Settings) VerifyTask) : Prop where
  placed : Placed site pool.shared.kv
  backed : ∀ task ∈ pool.running, task.Backed site pool.shared

variable {formats site}

theorem step_sound (pl : Pool (Claimed Settings) VerifyTask)
    (act : Schedule VerifyCall DomainProbe) (hs : Sound site pl) (hu : Undisturbed site pl act) :
    Sound site ((verifying formats site).machine.step pl act).1 := by
  have hst {shared next : Claimed Settings} {running : List VerifyTask}
      (hl : Leaves site running shared next)
      (hb : ∀ task ∈ running, task.Backed site shared) {task : VerifyTask}
      (hi : task ∈ running) : task.Backed site next :=
    (hb task hi).kept (hl.kept task hi) hl.proven
  apply kept_of_tasks (Undisturbed site) _ _ _ pl act hs hu
  · intro shared running cl hs _
    refine ⟨hs.placed, ?_⟩
    intro task hi
    rcases List.mem_append.mp hi with old | new
    · exact hs.backed task old
    · rw [List.mem_singleton.mp new]
      trivial
  · intro shared b task a c next cn hs hu hm
    have hun := hu task (by simp)
    obtain ⟨hl, hg⟩ := step_leaves hs.placed (hs.backed task (by simp)) hun hm
    refine ⟨hl.placed, ?_⟩
    intro ot hi
    rcases mem_around.mp hi with rfl | hi
    · exact hg _ rfl
    · exact hst hl hs.backed (mem_around.mpr (.inr hi))
  intro shared b task a c next o hs hu hm
  have hun := hu task (by simp)
  obtain ⟨hl, _⟩ := step_leaves hs.placed (hs.backed task (by simp)) hun hm
  refine ⟨hl.placed, ?_⟩
  intro ot hi
  exact hst hl hs.backed (mem_around.mpr (.inr hi))

/-- A challenge that becomes verified has been probed, and a host is attached only while its
challenge is verified, a wildcard by the name service. -/
theorem verified_means_proven {kv : Kv Settings} (placed : Placed site kv)
    {actions : List (Schedule VerifyCall DomainProbe)} {action : Schedule VerifyCall DomainProbe}
    (undisturbed : (verifying formats site).machine.Meets (Undisturbed site) ⟨⟨kv, []⟩, []⟩
      (actions ++ [action])) :
    let pool := (verifying formats site).machine.final ⟨⟨kv, []⟩, []⟩ actions
    let af := ((verifying formats site).machine.step pool action).1
    (∀ host r, af.shared.kv.get? (recordKey site host) = some (.verification r) → r.verified →
        pool.shared.kv.get? (recordKey site host) ≠ some (.verification r) →
        r.challenge ∈ af.shared.proven) ∧ (∀ i pr host, action = .run i pr →
        pool.running[i]? = some (.writing host) →
        ∃ r, pool.shared.kv.get? (recordKey site host) = some (.verification r) ∧
          r.verified ∧ (isWildcard host → r.method = .dns)) ∧
      ∀ key, IsIndexKey key → af.shared.kv.get? key ≠ pool.shared.kv.get? key →
        ∃ i pr host, action = .run i pr ∧ pool.running[i]? = some (.writing host) := by
  intro pool af
  have hso : Sound site pool := by
    have hi : Sound site (⟨⟨kv, []⟩, []⟩ : Pool (Claimed Settings) VerifyTask) :=
      ⟨placed, fun task hin => by cases hin⟩
    exact Machine.invariant step_sound hi ((Machine.meets_append _ _ _ _ _).mp undisturbed).1
  have hm := (verifying formats site).shared_of_step pool action
  refine ⟨?_, ?_, ?_⟩
  · intro host r hs verified hfr
    rcases hm with hsa | ⟨i, pr, task, rfl, hf, hsa⟩
    · rw [hsa] at hs
      exact absurd hs hfr
    · rw [hsa] at hs ⊢
      exact step_proves (hso.backed task (List.mem_of_getElem? hf)) rfl hs verified hfr
  · intro i pr host _ hf
    exact hso.backed _ (List.mem_of_getElem? hf)
  intro key his hc
  rcases hm with hsa | ⟨i, pr, task, rfl, hf, hsa⟩
  · exact absurd (congrArg (fun shared => shared.kv.get? key) hsa) hc
  by_contra hn
  apply hc
  rw [hsa]
  apply step_index rfl _ key (.index his)
  rintro host rfl
  exact hn ⟨i, pr, host, rfl, hf⟩

end Runs

namespace Swapped

open TwoOwners (shop twoHashes)

def showing (text : Text) : DomainProbe := ⟨fun _ => .ok [text], fun _ => .ok text⟩

def calling (call : VerifyCall) (index : Nat) : List (Schedule VerifyCall DomainProbe) :=
  [.invoke call, .run index (showing [])]

def webToken : Text := "00112233445566778899aabbccddeeff".toList

def dnsToken : Text := "ffeeddccbbaa99887766554433221100".toList

/-- While the web token is being fetched, a challenge by the name service takes its place. -/
def race : List (Schedule VerifyCall DomainProbe) :=
  calling (.start "example.com".toList .http 100 webToken) 0 ++
    calling (.check "*.example.com".toList) 0 ++ [.run 0 (showing webToken)] ++
    calling (.start "example.com".toList .dns 101 dnsToken) 1 ++
    List.replicate 4 (.run 0 (showing []))

def raced : Pool (Claimed Unit) VerifyTask :=
  (verifying twoHashes shop).machine.final ⟨⟨.empty, []⟩, []⟩ race

/-- The challenge by the name service is verified and the wildcard attached, and the only probe
was one for the web token. -/
theorem web_proof_attaches_wildcard : raced.shared.kv.get? (recordKey shop "example.com".toList) =
        some (.verification ⟨"example.com".toList, dnsToken, .dns, true, 101⟩) ∧
      raced.shared.proven = [⟨"example.com".toList, .http, webToken⟩] ∧
      raced.shared.kv.get? (wildcardKey "example.com".toList) =
        some (.owner ⟨"acme".toList, "shop".toList, none⟩) := by
  decide +kernel

/-- A check that nothing disturbs, up to its mark. -/
def quiet : List (Schedule VerifyCall DomainProbe) :=
  calling (.start "example.com".toList .dns 101 dnsToken) 0 ++
    calling (.check "*.example.com".toList) 0 ++ [.run 0 (showing dnsToken)]

theorem quiet_mark_proven : (⟨"example.com".toList, .dns, dnsToken⟩ : Challenge) ∈
      ((verifying twoHashes shop).machine.step
        ((verifying twoHashes shop).machine.final ⟨⟨.empty, []⟩, []⟩ quiet)
        (.run 0 (showing []))).1.shared.proven := by
  have hpl : Placed shop (.empty : Kv Unit) := fun _ _ hs => by cases hs
  have hu : (verifying twoHashes shop).machine.Meets (Undisturbed shop)
      ⟨⟨.empty, []⟩, []⟩ (quiet ++ [.run 0 (showing [])]) := by
    decide +kernel
  have hp := (verified_means_proven hpl hu).1 "example.com".toList
    ⟨"example.com".toList, dnsToken, .dns, true, 101⟩
  exact hp (by decide +kernel) rfl (by decide +kernel)

end Swapped

end BoatRamp.Deploy
