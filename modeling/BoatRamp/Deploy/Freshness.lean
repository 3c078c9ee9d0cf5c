import BoatRamp.Deploy.Sites
import BoatRamp.Library.Pool

/-!
# Resolutions under concurrent writes

A resolution loads the generation of the index, looks into the cache, reads one
key after the other and remembers what it found, and a write replaces entries of
the index and then advances the generation.  Whatever happens in between, no
answer rests on an entry that was replaced by a call that had returned.
-/

namespace BoatRamp.Deploy

open Library List Concurrent Nat

variable {Settings : Type}

/-- The state with the stores that were replaced, and the number of the last one that was written
by a call that has returned. -/
structure Versioned (Settings : Type) extends DeployState Settings where
  earlier : List (Kv Settings)
  returned : Nat

def Versioned.versions (shared : Versioned Settings) : List (Kv Settings) :=
  shared.earlier ++ [shared.kv]

/-- A write is any batch, whichever call has put it together under the claim lock. -/
inductive HostCall (Settings : Type) where
  | write (writes : List (KvWrite (Record Settings)))
  | resolveSiteByHost (host : Text)
  | cachedOwner (host : Text)

/-- What a call does next; a resolution knows the generation it loaded, and what had returned. -/
inductive HostTask (Settings : Type) where
  | enter (call : HostCall Settings)
  | bump (version : Nat)
  | check (resolves : Bool) (host : Text) (epoch since : Nat)
  | read (host : Text) (epoch since : Nat) (keys : List Text)
  | store (host : Text) (epoch since : Nat) (owner : Option DomainOwner)

inductive HostOutput (Settings : Type) where
  | failed
  | written (version : Nat)
  | uncertain
  | resolved (host : Text) (since : Nat) (versions : List (Kv Settings))
      (owner : Option DomainOwner)

def hostStep (shared : Versioned Settings) :
    HostTask Settings → Bool → Versioned Settings × (HostTask Settings ⊕ HostOutput Settings)
  | .enter (.write _), true => (shared, .inr .failed)
  | .enter (.write writes), false =>
      ({ shared with
        kv := writeBatch shared.kv writes
        earlier := shared.versions }, .inl (.bump shared.versions.length))
  | .bump version, _ =>
      ({ shared with
        domainEpoch := shared.domainEpoch + 1
        returned := max shared.returned version }, .inr (.written version))
  | .enter (.resolveSiteByHost host), _ =>
      (shared, .inl (.check true (canonHost host) shared.domainEpoch shared.returned))
  | .enter (.cachedOwner host), _ =>
      (shared, .inl (.check false (canonHost host) shared.domainEpoch shared.returned))
  | .check resolves host epoch since, _ =>
      match if shared.cacheEpoch = epoch then shared.cache.get? host else none with
      | some owner =>
          if resolves ∨ owner ≠ none then
            (shared, .inr (.resolved host since shared.versions owner))
          else (shared, .inr .uncertain)
      | none =>
          if resolves then (shared, .inl (.read host epoch since (hostKeys host)))
          else (shared, .inr .uncertain)
  | .read host epoch since [], _ => (shared, .inl (.store host epoch since none))
  | .read _ _ _ (_ :: _), true => (shared, .inr .failed)
  | .read host epoch since (key :: rest), false =>
      match (shared.kv.get? key).bind Record.owner? with
      | some owner => (shared, .inl (.store host epoch since (some owner)))
      | none => (shared, .inl (.read host epoch since rest))
  | .store host epoch since owner, _ =>
      let cache := if shared.cacheEpoch = shared.domainEpoch then shared.cache else .empty
      let cache := if shared.domainEpoch = epoch then
          (if DOMAIN_CACHE_CAP ≤ cache.entries.length then .empty else cache).insert host owner
        else cache
      ({ shared with cacheEpoch := shared.domainEpoch, cache },
        .inr (.resolved host since shared.versions owner))

def hosts : Concurrent (Versioned Settings) (HostCall Settings) Bool (HostTask Settings)
    (HostOutput Settings) where
  start := .enter
  step := hostStep

/-- The first entry under the keys, each looked up in a version from the given one on. -/
inductive ReadSince (versions : List (Kv Settings)) (since : Nat) :
    List Text → Option DomainOwner → Prop
  | nothing : ReadSince versions since [] none
  | found {version : Nat} {kv : Kv Settings} {key : Text} {owner : DomainOwner} (rest : List Text)
      (hs : since ≤ version) (hv : versions[version]? = some kv)
      (hf : (kv.get? key).bind Record.owner? = some owner) :
      ReadSince versions since (key :: rest) (some owner)
  | missed {version : Nat} {kv : Kv Settings} {key : Text} {rest : List Text}
      {owner : Option DomainOwner} (hs : since ≤ version) (hv : versions[version]? = some kv)
      (hf : (kv.get? key).bind Record.owner? = none) (hr : ReadSince versions since rest owner) :
      ReadSince versions since (key :: rest) owner

def HostOutput.Rests : HostOutput Settings → Prop
  | .resolved host since versions owner => ReadSince versions since (hostKeys host) owner
  | _ => True

theorem ReadSince.extend {v : List (Kv Settings)} {s : Nat} {keys : List Text}
    {o : Option DomainOwner} (hr : ReadSince v s keys o)
    (l : List (Kv Settings)) : ReadSince (v ++ l) s keys o := by
  have hl {ver : Nat} {kv : Kv Settings} (hv : v[ver]? = some kv) :
      (v ++ l)[ver]? = some kv := by
    rw [List.getElem?_append_left (List.getElem?_eq_some_iff.mp hv).1]
    exact hv
  induction hr with
  | nothing => exact .nothing
  | found rest hs hv hf => exact .found rest hs (hl hv) hf
  | missed hs hv hf _ ih => exact .missed hs (hl hv) hf ih

/-- The versions that had returned in each generation bound what is remembered of it from below. -/
structure Fresh (floor : Nat → Nat) (shared : Versioned Settings) : Prop where
  present : floor shared.domainEpoch = shared.returned
  known : ∀ epoch ≤ shared.domainEpoch, floor epoch < shared.versions.length
  behind : shared.cacheEpoch ≤ shared.domainEpoch
  cached : ∀ host owner, shared.cache.get? host = some owner →
    ReadSince shared.versions (floor shared.cacheEpoch) (hostKeys host) owner

/-- A task has loaded its generation; what it reads from now on completes what it has read. -/
def HostTask.Fresh (floor : Nat → Nat) (shared : Versioned Settings) : HostTask Settings → Prop
  | .enter _ => True
  | .bump version => version < shared.versions.length
  | .check _ _ epoch since => epoch ≤ shared.domainEpoch ∧ floor epoch = since
  | .read host epoch since keys => (epoch ≤ shared.domainEpoch ∧ floor epoch = since) ∧
      ∀ later owner, ReadSince (shared.versions ++ later) since keys owner →
        ReadSince (shared.versions ++ later) since (hostKeys host) owner
  | .store host epoch since owner => (epoch ≤ shared.domainEpoch ∧ floor epoch = since) ∧
      ReadSince shared.versions since (hostKeys host) owner

structure Grows (floor next : Nat → Nat) (b a : Versioned Settings) : Prop where
  epoch : b.domainEpoch ≤ a.domainEpoch
  versions : ∃ later, a.versions = b.versions ++ later
  floor : ∀ epoch ≤ b.domainEpoch, next epoch = floor epoch

section Steps

variable {floor next : Nat → Nat} {b a : Versioned Settings} {task : HostTask Settings}

theorem Grows.of_versions (he : a.domainEpoch = b.domainEpoch) (hv : a.versions = b.versions) :
    Grows floor floor b a :=
  ⟨he.ge, ⟨[], by rw [hv, append_nil]⟩, fun _ _ => rfl⟩

theorem HostTask.Fresh.grows (hg : Grows floor next b a) (ht : task.Fresh floor b) :
    task.Fresh next a := by
  obtain ⟨l, hv⟩ := hg.versions
  have hl {e s : Nat} (he : e ≤ b.domainEpoch ∧ floor e = s) :
      e ≤ a.domainEpoch ∧ next e = s :=
    ⟨he.1.trans hg.epoch, (hg.floor _ he.1).trans he.2⟩
  cases task with
  | enter call => trivial
  | bump ver =>
    unfold HostTask.Fresh at ht ⊢
    rw [hv, length_append]
    omega
  | check r host e s => exact hl ht
  | read host e s keys =>
    refine ⟨hl ht.1, ?_⟩
    rw [hv]
    intro more o hr
    rw [append_assoc] at hr ⊢
    exact ht.2 _ o hr
  | store host e s o =>
    refine ⟨hl ht.1, ?_⟩
    rw [hv]
    exact ht.2.extend l

open Versioned

theorem getElem?_versions (s : Versioned Settings) : s.versions[s.earlier.length]? = some s.kv := by
  simp [versions]

theorem Fresh.wrote (hs : Fresh floor b) (w : List (KvWrite (Record Settings))) :
    Fresh floor { b with kv := writeBatch b.kv w, earlier := b.versions } where
  present := hs.present
  known e he := by
    have hk := hs.known e he
    rw [versions, length_append]
    exact hk.trans_le (le_add_right _ _)
  behind := hs.behind
  cached host o hc := (hs.cached host o hc).extend _

theorem Fresh.bumped (hs : Fresh floor b) {ver : Nat} (hv : ver < b.versions.length) :
    Fresh (fun e => if e ≤ b.domainEpoch then floor e else max b.returned ver)
      { b with domainEpoch := b.domainEpoch + 1, returned := max b.returned ver } where
  present := if_neg (Nat.not_succ_le_self _)
  known e _ := by
    split
    · next he => exact hs.known e he
    · have hk := hs.known _ (Nat.le_refl _)
      rw [hs.present] at hk
      exact Nat.max_lt.mpr ⟨hk, hv⟩
  behind := Nat.le_succ_of_le hs.behind
  cached host o hc := by
    rw [if_pos hs.behind]
    exact hs.cached host o hc

theorem Fresh.stored (hs : Fresh floor b) {host : Text} {e : Nat} {ow : Option DomainOwner}
    (hr : ReadSince b.versions (floor e) (hostKeys host) ow) :
    Fresh floor (hostStep b (.store host e (floor e) ow) false).1 where
  present := hs.present
  known := hs.known
  behind := le_refl _
  cached := by
    have hk (o : Text) (f : Option DomainOwner)
        (hf : (if b.cacheEpoch = b.domainEpoch then b.cache else .empty).get? o = some f) :
        ReadSince b.versions (floor b.domainEpoch) (hostKeys o) f := by
      split at hf
      · next he => exact he ▸ hs.cached o f hf
      · cases hf
    intro o f hf
    dsimp only [hostStep] at hf
    generalize (if b.cacheEpoch = b.domainEpoch then b.cache else .empty) = cache at hk hf
    split at hf
    · next he =>
      rw [SortedMap.get?_insert] at hf
      split at hf
      · next hh =>
        cases hf
        change ReadSince b.versions (floor b.domainEpoch) _ _
        rw [he, hh]
        exact hr
      · split at hf
        · cases hf
        · exact hk o f hf
    · exact hk o f hf

theorem hostStep_fresh (hs : Fresh floor b) (ht : task.Fresh floor b) {f : Bool}
    {answer : HostTask Settings ⊕ HostOutput Settings} (hm : hostStep b task f = (a, answer)) :
    ∃ next, Fresh next a ∧ Grows floor next b a ∧
      answer.elim (HostTask.Fresh next a) HostOutput.Rests := by
  have hid {answer : HostTask Settings ⊕ HostOutput Settings}
      (ha : answer.elim (HostTask.Fresh floor b) HostOutput.Rests) : ∃ next, Fresh next b ∧
        Grows floor next b b ∧ answer.elim (HostTask.Fresh next b) HostOutput.Rests :=
    ⟨floor, hs, .of_versions rfl rfl, ha⟩
  have hc := getElem?_versions b
  unfold hostStep at hm
  split at hm
  · cases hm
    exact hid trivial
  · cases hm
    exact ⟨floor, hs.wrote _, ⟨le_refl _, ⟨_, rfl⟩, fun _ _ => rfl⟩,
      by simp [HostTask.Fresh, versions]⟩
  · cases hm
    exact ⟨_, hs.bumped ht, ⟨le_succ _, ⟨[], (List.append_nil _).symm⟩,
      fun _ he => if_pos he⟩, trivial⟩
  · cases hm
    exact hid ⟨le_refl _, hs.present⟩
  · cases hm
    exact hid ⟨le_refl _, hs.present⟩
  · next resolves host e s =>
    split at hm
    · next o hf =>
      split at hm
      · cases hm
        split at hf
        · next he =>
          apply hid
          rw [← ht.2, ← he]
          exact hs.cached host o hf
        · cases hf
      · cases hm
        exact hid trivial
    · split at hm
      · cases hm
        exact hid ⟨ht, fun _ _ => id⟩
      · cases hm
        exact hid trivial
  · cases hm
    exact hid ⟨ht.1, by simpa using ht.2 [] none .nothing⟩
  · cases hm
    exact hid trivial
  · next host e s key rest =>
    have hl : s ≤ b.earlier.length := by
      have hk := hs.known e ht.1.1
      rw [ht.1.2, versions, List.length_append] at hk
      exact le_of_lt_succ hk
    split at hm
    · next o hf =>
      cases hm
      exact hid ⟨ht.1, by simpa using ht.2 [] _ (.found rest hl (by simpa using hc) hf)⟩
    · next hf =>
      cases hm
      refine hid ⟨ht.1, fun l o hr => ht.2 l o (.missed hl ?_ hf hr)⟩
      rw [List.getElem?_append_left (List.getElem?_eq_some_iff.mp hc).1, hc]
  · next host e s o =>
    obtain ⟨⟨he, rfl⟩, hr⟩ := ht
    cases hm
    exact ⟨floor, hs.stored hr, .of_versions rfl rfl, hr⟩

end Steps

def Versioned.new : Versioned Settings := { DeployState.new with earlier := [], returned := 0 }

def FreshPool (pool : Pool (Versioned Settings) (HostTask Settings)) : Prop :=
  ∃ floor, Fresh floor pool.shared ∧ ∀ task ∈ pool.running, task.Fresh floor pool.shared

theorem step_freshPool (pool : Pool (Versioned Settings) (HostTask Settings))
    (act : Schedule (HostCall Settings) Bool) (hf : FreshPool pool) :
    FreshPool (hosts.machine.step pool act).1 := by
  refine kept_of_tasks (fun _ _ => True) ?_ ?_ ?_ pool act hf trivial
  · rintro s r call ⟨floor, hs, ht⟩ _
    refine ⟨floor, hs, fun task hm => ?_⟩
    rcases mem_append.mp hm with hm | hm
    · exact ht task hm
    · rw [mem_singleton.mp hm]
      trivial
  · rintro s b task a f next m ⟨floor, hs, ht⟩ _ hm
    obtain ⟨l, hn, hg, hr⟩ := hostStep_fresh hs (ht task (by simp)) hm
    refine ⟨l, hn, fun o ho => ?_⟩
    rcases mem_around.mp ho with rfl | ho
    · exact hr
    · exact (ht o (mem_around.mpr (.inr ho))).grows hg
  · rintro s b task a f next ot ⟨floor, hs, ht⟩ _ hm
    obtain ⟨l, hn, hg, _⟩ := hostStep_fresh hs (ht task (by simp)) hm
    exact ⟨l, hn, fun o ho => (ht o (mem_around.mpr (.inr ho))).grows hg⟩

/-- No answer rests on an entry that was replaced by a call that had returned before. -/
theorem resolution_never_stale (schedule : List (Schedule (HostCall Settings) Bool)) :
    ∀ entry ∈ hosts.machine.history ⟨.new, []⟩ schedule, ∀ output, entry.2 = some output →
      output.Rests := by
  have hi : FreshPool (⟨.new, []⟩ : Pool (Versioned Settings) (HostTask Settings)) :=
    ⟨fun _ => 0, ⟨rfl, fun _ _ => one_pos, le_refl _, nofun⟩, nofun⟩
  apply Machine.outputs_of_invariant (fun _ answer => ∀ output, answer = some output → output.Rests)
    (fun pool act hf _ => step_freshPool pool act hf) ?_ hi
    (hosts.machine.meets_of_forall _ fun _ _ => trivial)
  rintro pool act ⟨floor, hs, ht⟩ _ output ha
  obtain ⟨task, hm, f, next, he⟩ := output_of_task ha
  obtain ⟨_, _, _, hr⟩ := hostStep_fresh hs (ht task hm) he
  exact hr

namespace NewHost

def owner : DomainOwner := ⟨['p'], ['s'], none⟩

def calls : List (Schedule (HostCall Unit) Bool) :=
  [.invoke (.write [.put (domainKey ['a']) (.owner owner)]), .run 0 false, .run 0 false,
    .invoke (.resolveSiteByHost ['a'])] ++ replicate 4 (.run 0 false)

theorem claimed_host_resolved : ∃ versions,
    (hosts.machine.history ⟨.new, []⟩ calls).getLast?.bind Prod.snd =
      some (.resolved ['a'] 1 versions (some owner)) ∧
    ReadSince versions 1 (hostKeys ['a']) (some owner) :=
  ⟨_, rfl, resolution_never_stale calls _ (mem_of_getLast? rfl) _ rfl⟩

end NewHost

end BoatRamp.Deploy
