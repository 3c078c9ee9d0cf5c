import BoatRamp.Kv.Store
import BoatRamp.Library.Lru
import BoatRamp.Library.Pool

/-!
# The write-through cache

A bounded cache in front of a key/value store.  An entry holds a value or a
cached absence.  Calls run concurrently; each is split into its lookup in the
cache, its call to the inner store and its update of the cache, and the steps
of different calls interleave freely.
-/

namespace BoatRamp

open Library Concurrent List

/-- Whether an absence may be cached: only in the secret keyspaces. -/
def negativeCacheable (key : Text) : Bool :=
  if "secret/".toList <+: key then true
  else
    match (stripHead "project/".toList key).bind (splitOnceAt '/') with
    | none => false
    | some (_, tail) =>
        decide ("secret/".toList <+: tail) || decide ("tenant-secret/".toList <+: tail)

structure CachedKv (Bytes : Type) where
  inner : Store Bytes
  cache : LruCache Text (Option Bytes)

namespace CachedKv

variable {Bytes : Type}

def new (inner : Store Bytes) (capacity : Nat) : CachedKv Bytes :=
  ⟨inner, .empty (max capacity 1) (by omega)⟩

inductive Call (Bytes : Type) where
  | get (key : Text)
  | put (key : Text) (value : Bytes)
  | delete (key : Text)
  | compareAndSwap (key : Text) (expected : Option Bytes) (new : Bytes)
  | writeBatch (ops : List (KvWrite Bytes))
  | invalidateCache
  | invalidateKeys (keys : List Text)
  deriving DecidableEq

inductive Outcome (Bytes : Type) where
  | got (key : Text) (value : Option Bytes)
  | done
  | swapped (swapped : Bool)
  | failed
  deriving DecidableEq

inductive Task (Bytes : Type) where
  | start (call : Call Bytes)
  /-- A read that found nothing in the cache. -/
  | missed (key : Text)
  /-- A read about to cache what the inner store returned. -/
  | fill (key : Text) (value : Option Bytes)
  /-- A write the inner store has taken, about to be mirrored. -/
  | mirror (ops : List (KvWrite Bytes)) (outcome : Outcome Bytes)

/-- Whether a call to the inner store succeeds; a failed call has no effect. -/
inductive Reply where
  | ok
  | error
  deriving DecidableEq

def mirrorOne (cache : LruCache Text (Option Bytes)) : KvWrite Bytes →
    LruCache Text (Option Bytes)
  | .put key value => cache.put key (some value)
  | .delete key => if negativeCacheable key then cache.put key none else cache.pop key

def mirrorAll (cache : LruCache Text (Option Bytes)) (ops : List (KvWrite Bytes)) :
    LruCache Text (Option Bytes) :=
  ops.foldl mirrorOne cache

/-- Commit to the inner store; the cache follows in a step of its own. -/
def commit (kv : CachedKv Bytes) (ops : List (KvWrite Bytes)) (outcome : Outcome Bytes) :
    Reply → CachedKv Bytes × (Task Bytes ⊕ Outcome Bytes)
  | .ok => ({ kv with inner := BoatRamp.writeBatch kv.inner ops }, .inl (.mirror ops outcome))
  | .error => (kv, .inr .failed)

/-- The first step of a read: serve a hit, or go on to the inner store. -/
def lookup (kv : CachedKv Bytes) (key : Text) : CachedKv Bytes × (Task Bytes ⊕ Outcome Bytes) :=
  match kv.cache.get key with
  | (cache, some cached) => ({ kv with cache := cache }, .inr (.got key cached))
  | (cache, none) => ({ kv with cache := cache }, .inl (.missed key))

/-- Read through; an absence goes on to the cache only where it may be cached. -/
def readInner (kv : CachedKv Bytes) (key : Text) : Reply →
    CachedKv Bytes × (Task Bytes ⊕ Outcome Bytes)
  | .ok =>
      let value := kv.inner.get? key
      if value.isSome || negativeCacheable key then (kv, .inl (.fill key value))
      else (kv, .inr (.got key value))
  | .error => (kv, .inr .failed)

section Calls

variable [DecidableEq Bytes]

def startStep (kv : CachedKv Bytes) (reply : Reply) : Call Bytes →
    CachedKv Bytes × (Task Bytes ⊕ Outcome Bytes)
  | .get key => kv.lookup key
  | .put key value => kv.commit [.put key value] .done reply
  | .delete key => kv.commit [.delete key] .done reply
  | .compareAndSwap key expected new =>
      if kv.inner.get? key = expected then kv.commit [.put key new] (.swapped true) reply
      else
        match reply with
        | .ok => (kv, .inr (.swapped false))
        | .error => (kv, .inr .failed)
  | .writeBatch ops => kv.commit ops .done reply
  | .invalidateCache => ({ kv with cache := kv.cache.clear }, .inr .done)
  | .invalidateKeys keys =>
      ({ kv with cache := keys.foldl LruCache.pop kv.cache }, .inr .done)

def step (kv : CachedKv Bytes) (task : Task Bytes) (reply : Reply) :
    CachedKv Bytes × (Task Bytes ⊕ Outcome Bytes) :=
  match task with
  | .start call => kv.startStep reply call
  | .missed key => kv.readInner key reply
  | .fill key value => ({ kv with cache := kv.cache.put key value }, .inr (.got key value))
  | .mirror ops outcome => ({ kv with cache := mirrorAll kv.cache ops }, .inr outcome)

def calls : Concurrent (CachedKv Bytes) (Call Bytes) Reply (Task Bytes) (Outcome Bytes) where
  start := .start
  step := step

end Calls

def Caches : KvWrite Bytes → Bool
  | .put _ _ => true
  | .delete key => negativeCacheable key

/-- The keys for which mirroring a batch puts an entry into the cache. -/
def storedKeys : List (KvWrite Bytes) → List Text
  | [] => []
  | op :: rest =>
      if Caches op ∧ op.key ∉ rest.map KvWrite.key then op.key :: storedKeys rest
      else storedKeys rest

/-- The keys for which a call is past the inner store and about to put an entry
into the cache. -/
def Task.stores : Task Bytes → List Text
  | .fill key _ => [key]
  | .mirror ops _ => storedKeys ops
  | .start _ | .missed _ => []

/-- The keys a call has written to the inner store and not yet mirrored. -/
def Task.mirrors : Task Bytes → List Text
  | .mirror ops _ => ops.map KvWrite.key
  | .start _ | .missed _ | .fill _ _ => []

variable {cache : LruCache Text (Option Bytes)} {entry : Option Bytes} {ops : List (KvWrite Bytes)}
  {task : Task Bytes} {kv : CachedKv Bytes}

theorem peek_mirrorOne_self {op : KvWrite Bytes}
    (hf : (mirrorOne cache op).peek op.key = some entry) :
    Caches op = true ∧ ∀ s, (op.apply s).get? op.key = entry := by
  cases op with
  | put key v =>
    obtain rfl : some v = entry := by simpa [mirrorOne, KvWrite.key] using hf
    exact ⟨rfl, fun s => s.get?_insert_self key v⟩
  | delete key =>
    simp only [mirrorOne, KvWrite.key] at hf
    split_ifs at hf with hc
    · obtain rfl : none = entry := by simpa using hf
      exact ⟨hc, fun s => s.get?_erase_self key⟩
    · simp at hf

theorem peek_mirrorOne_of_ne {op : KvWrite Bytes} {key : Text} (ha : key ≠ op.key)
    (hf : (mirrorOne cache op).peek key = some entry) : cache.peek key = some entry := by
  cases op with
  | put tg v => exact cache.peek_put_of_ne _ ha hf
  | delete tg =>
    simp only [mirrorOne] at hf
    split_ifs at hf
    · exact cache.peek_put_of_ne _ ha hf
    · exact (cache.peek_pop_of_ne ha).symm.trans hf

theorem peek_mirrorAll {key : Text} (hf : (mirrorAll cache ops).peek key = some entry) :
    (key ∈ storedKeys ops ∧ ∀ s, (BoatRamp.writeBatch s ops).get? key = entry) ∨
      (key ∉ ops.map KvWrite.key ∧ cache.peek key = some entry) := by
  induction ops generalizing cache with
  | nil => exact .inr ⟨by simp, hf⟩
  | cons op rest ih =>
    rcases ih hf with ⟨hs, left⟩ | ⟨hu, hk⟩
    · left
      refine ⟨?_, fun s => left (op.apply s)⟩
      simp only [storedKeys]
      split_ifs
      · exact mem_cons_of_mem _ hs
      · exact hs
    by_cases hsa : key = op.key
    · -- The head is the last write to the key.
      left
      subst hsa
      obtain ⟨hc, ha⟩ := peek_mirrorOne_self hk
      refine ⟨by simp [storedKeys, hc, hu], fun s => ?_⟩
      rw [writeBatch_cons, get?_writeBatch_of_unnamed _ _ ?_, ha]
      rintro l hi hn
      exact hu (hn ▸ mem_map_of_mem hi)
    · right
      exact ⟨by simp [hsa, hu], peek_mirrorOne_of_ne hsa hk⟩

def Task.IsRead : Task Bytes → Prop
  | .start (.get _) | .missed _ | .fill _ _ => True
  | .start (.put _ _) | .start (.delete _) | .start (.compareAndSwap _ _ _)
  | .start (.writeBatch _) | .start .invalidateCache | .start (.invalidateKeys _)
  | .mirror _ _ => False

instance (task : Task Bytes) : Decidable task.IsRead :=
  match task with
  | .start (.get _) | .missed _ | .fill _ _ => .isTrue trivial
  | .start (.put _ _) | .start (.delete _) | .start (.compareAndSwap _ _ _)
  | .start (.writeBatch _) | .start .invalidateCache | .start (.invalidateKeys _)
  | .mirror _ _ => .isFalse id

/-- What a pending update puts into the cache is what the inner store holds. -/
def Task.Agrees (inner : Store Bytes) : Task Bytes → Prop
  | .fill key value => inner.get? key = value
  | .mirror ops _ =>
      ∀ key ∈ storedKeys ops, ∀ store, (BoatRamp.writeBatch store ops).get? key = inner.get? key
  | .start _ | .missed _ => True

/-- Every cached entry is the inner store's value, or a write of its key has
still to be mirrored. -/
structure Coherent (pool : Pool (CachedKv Bytes) (Task Bytes)) : Prop where
  agrees : ∀ task ∈ pool.running, task.Agrees pool.shared.inner
  cached : ∀ key entry, pool.shared.cache.peek key = some entry →
    entry = pool.shared.inner.get? key ∨ ∃ task ∈ pool.running, key ∈ task.mirrors

theorem Task.Agrees.congr {inner next : Store Bytes} (ha : task.Agrees inner)
    (hk : ∀ key ∈ task.stores, next.get? key = inner.get? key) : task.Agrees next := by
  cases task with
  | start c | missed key => trivial
  | fill key v => exact (hk key (by simp [Task.stores])).trans ha
  | mirror ops out =>
    intro key hs s
    exact (ha key hs s).trans (hk key hs).symm

theorem mem_storedKeys_named {key : Text} (hs : key ∈ storedKeys ops) :
    key ∈ ops.map KvWrite.key := by
  induction ops with
  | nil => simp [storedKeys] at hs
  | cons op rest ih =>
    simp only [storedKeys] at hs
    split_ifs at hs
    · rcases mem_cons.mp hs with rfl | hl
      · simp
      · exact mem_cons_of_mem _ (ih hl)
    · exact mem_cons_of_mem _ (ih hs)

theorem agrees_writeBatch (inner : Store Bytes) (ops : List (KvWrite Bytes))
    (out : Outcome Bytes) : (Task.mirror ops out).Agrees (BoatRamp.writeBatch inner ops) := by
  intro key hs s
  exact get?_writeBatch_of_named (mem_storedKeys_named hs) s inner

/-- A step that leaves the inner store alone keeps coherence if every entry it
leaves in the cache is right or was there before. -/
theorem Coherent.of_entries {b a : List (Task Bytes)} (hc : Coherent ⟨kv, b ++ task :: a⟩)
    (hen : ∀ key entry, cache.peek key = some entry → entry = kv.inner.get? key ∨
      (key ∉ task.mirrors ∧ kv.cache.peek key = some entry)) :
    Coherent ⟨⟨kv.inner, cache⟩, b ++ a⟩ := by
  refine ⟨fun o hru => ?_, fun key entry hf => ?_⟩
  · exact hc.agrees o (mem_around.mpr (.inr hru))
  rcases hen key entry hf with hr | ⟨hu, hk⟩
  · exact .inl hr
  rcases hc.cached key entry hk with hr | ⟨o, hru, hm⟩
  · exact .inl hr
  rcases mem_around.mp hru with rfl | he
  · exact absurd hm hu
  · exact .inr ⟨o, he, hm⟩

theorem Coherent.join {b a : List (Task Bytes)} (hc : Coherent ⟨kv, b ++ a⟩)
    (ha : task.Agrees kv.inner) : Coherent ⟨kv, b ++ task :: a⟩ := by
  refine ⟨fun o hr => ?_, fun key entry hf => ?_⟩
  · rcases mem_around.mp hr with rfl | he
    · exact ha
    · exact hc.agrees o he
  rcases hc.cached key entry hf with hri | ⟨o, hr, hm⟩
  · exact .inl hri
  · exact .inr ⟨o, mem_around.mpr (.inr hr), hm⟩

/-- A commit keeps coherence: the other pending updates do not put its keys into
the cache, and its own update is pending. -/
theorem Coherent.commit {b a : List (Task Bytes)}
    (hc : Coherent ⟨kv, b ++ task :: a⟩) (out : Outcome Bytes)
    (ha : ∀ key ∈ ops.map KvWrite.key, ∀ o ∈ b ++ a, key ∉ o.stores) (hid : task.mirrors = []) :
    Coherent ⟨⟨BoatRamp.writeBatch kv.inner ops, kv.cache⟩, b ++ .mirror ops out :: a⟩ := by
  have hu : ∀ key, key ∉ ops.map KvWrite.key →
      (BoatRamp.writeBatch kv.inner ops).get? key = kv.inner.get? key := by
    intro key hun
    apply get?_writeBatch_of_unnamed
    rintro op hi rfl
    exact hun (mem_map_of_mem hi)
  refine ⟨fun o hr => ?_, fun key entry hf => ?_⟩
  · rcases mem_around.mp hr with rfl | he
    · exact agrees_writeBatch kv.inner ops out
    apply (hc.agrees o (mem_around.mpr (.inr he))).congr
    intro key hs
    exact hu key fun hn => ha key hn o he hs
  by_cases hn : key ∈ ops.map KvWrite.key
  · exact .inr ⟨.mirror ops out, mem_around.mpr (.inl rfl), hn⟩
  rw [hu key hn]
  rcases hc.cached key entry hf with hri | ⟨o, hr, hm⟩
  · exact .inl hri
  rcases mem_around.mp hr with rfl | he
  · simp [hid] at hm
  · exact .inr ⟨o, mem_around.mpr (.inr he), hm⟩

structure ReadsOver (inner : Store Bytes) (pool : Pool (CachedKv Bytes) (Task Bytes)) :
    Prop where
  reads : ∀ task ∈ pool.running, task.IsRead
  unchanged : pool.shared.inner = inner

theorem Task.IsRead.mirrors (hr : task.IsRead) : task.mirrors = [] := by
  cases task with
  | mirror ops out => exact hr.elim
  | start c | missed key | fill key v => rfl

theorem Coherent.entry_eq {inner : Store Bytes} {pool : Pool (CachedKv Bytes) (Task Bytes)}
    (hc : Coherent pool) (hr : ReadsOver inner pool) {key : Text}
    (hf : pool.shared.cache.peek key = some entry) : entry = inner.get? key := by
  rcases hc.cached key entry hf with hri | ⟨task, hru, hm⟩
  · rw [hri, hr.unchanged]
  · simp [(hr.reads task hru).mirrors] at hm

section Interleaving

variable [DecidableEq Bytes]

def Task.innerWrites (kv : CachedKv Bytes) : Task Bytes → List Text
  | .start (.put key _) => [key]
  | .start (.delete key) => [key]
  | .start (.compareAndSwap key expected _) => if kv.inner.get? key = expected then [key] else []
  | .start (.writeBatch ops) => ops.map KvWrite.key
  | .start (.get _) | .start .invalidateCache | .start (.invalidateKeys _) => []
  | .missed _ | .fill _ _ | .mirror _ _ => []

/-- A step writes a key in the inner store only when no other call is about to
put an entry for that key into the cache. -/
def Quiet (pool : Pool (CachedKv Bytes) (Task Bytes)) : Schedule (Call Bytes) Reply → Prop
  | .invoke _ => True
  | .run index _ =>
      ∀ task ∈ pool.running[index]?, ∀ key ∈ task.innerWrites pool.shared,
        ∀ other ∈ pool.running.eraseIdx index, key ∉ other.stores

instance (pool : Pool (CachedKv Bytes) (Task Bytes)) (action : Schedule (Call Bytes) Reply) :
    Decidable (Quiet pool action) :=
  match action with
  | .invoke _ => .isTrue trivial
  | .run index _ =>
    match found : pool.running[index]? with
    | none => .isTrue (by simp [Quiet, found])
    | some task =>
      decidable_of_iff (∀ key ∈ task.innerWrites pool.shared,
        ∀ other ∈ pool.running.eraseIdx index, key ∉ other.stores) (by simp [Quiet, found])

inductive Effect (kv : CachedKv Bytes) : Task Bytes →
    CachedKv Bytes × (Task Bytes ⊕ Outcome Bytes) → Prop where
  /-- The call returns; entries may leave the cache. -/
  | returns {task cache outcome}
      (kept : ∀ key entry, cache.peek key = some entry → kv.cache.peek key = some entry)
      (idle : task.mirrors = [])
      (read : ∀ key value, outcome = .got key value →
        kv.cache.peek key = some value ∨ value = kv.inner.get? key) :
      Effect kv task (⟨kv.inner, cache⟩, .inr outcome)
  /-- A read goes on. -/
  | reads {task cache next}
      (kept : ∀ key entry, cache.peek key = some entry → kv.cache.peek key = some entry)
      (idle : task.mirrors = []) (read : next.IsRead) (agrees : next.Agrees kv.inner) :
      Effect kv task (⟨kv.inner, cache⟩, .inl next)
  | commits {task ops outcome} (writes : task.innerWrites kv = ops.map KvWrite.key)
      (idle : task.mirrors = []) (write : ¬task.IsRead) :
      Effect kv task (⟨BoatRamp.writeBatch kv.inner ops, kv.cache⟩, .inl (.mirror ops outcome))
  | fills {key value} :
      Effect kv (.fill key value) (⟨kv.inner, kv.cache.put key value⟩, .inr (.got key value))
  | mirrors {ops outcome} :
      Effect kv (.mirror ops outcome) (⟨kv.inner, mirrorAll kv.cache ops⟩, .inr outcome)

variable (pool : Pool (CachedKv Bytes) (Task Bytes)) (kv : CachedKv Bytes)
  (action : Schedule (Call Bytes) Reply) {task : Task Bytes} {inner : Store Bytes}

theorem commit_effect {ops : List (KvWrite Bytes)} (out : Outcome Bytes)
    (hw : task.innerWrites kv = ops.map KvWrite.key) (hi : task.mirrors = [])
    (hwr : ¬task.IsRead) (r : Reply) : Effect kv task (kv.commit ops out r) := by
  cases r with
  | ok => exact .commits hw hi hwr
  | error => exact .returns (fun _ _ hf => hf) hi fun _ _ hs => by cases hs

theorem lookup_effect (key : Text) : Effect kv (.start (.get key)) (kv.lookup key) := by
  have c := kv.cache.get_snd key
  have hk : ∀ o entry, (kv.cache.get key).1.peek o = some entry → kv.cache.peek o = some entry := by
    intro o entry hf
    exact (kv.cache.peek_get key o).symm.trans hf
  unfold lookup
  split
  · rename_i cache entry hit
    rw [hit] at c hk
    refine .returns hk rfl fun o v hs => ?_
    cases hs
    exact .inl c.symm
  rename_i cache miss
  rw [miss] at hk
  exact .reads hk rfl trivial trivial

theorem readInner_effect (key : Text) (r : Reply) :
    Effect kv (.missed key) (kv.readInner key r) := by
  cases r with
  | error => exact .returns (fun _ _ hf => hf) rfl fun _ _ hs => by cases hs
  | ok =>
    simp only [readInner]
    split_ifs
    · exact .reads (fun _ _ hf => hf) rfl trivial rfl
    refine .returns (fun _ _ hf => hf) rfl fun o v hs => ?_
    cases hs
    exact .inr rfl

theorem step_effect (task : Task Bytes) (r : Reply) : Effect kv task (kv.step task r) := by
  cases task with
  | missed key => exact kv.readInner_effect key r
  | fill key v => exact .fills
  | mirror ops out => exact .mirrors
  | start c =>
    cases c with
    | get key => exact kv.lookup_effect key
    | put key v | delete key | writeBatch ops => exact kv.commit_effect _ rfl rfl id r
    | compareAndSwap key e new =>
      simp only [step, startStep]
      split_ifs with hs
      · exact kv.commit_effect _ (by simp [Task.innerWrites, hs, KvWrite.key]) rfl id r
      cases r with
      | ok | error => exact .returns (fun _ _ hf => hf) rfl fun _ _ hs => by cases hs
    | invalidateCache =>
      exact .returns (fun _ _ hf => by simp at hf) rfl fun _ _ hs => by cases hs
    | invalidateKeys k =>
      exact .returns (fun _ _ hf => kv.cache.peek_foldl_pop hf) rfl fun _ _ hs => by cases hs

theorem Quiet.around {kv : CachedKv Bytes} {b a : List (Task Bytes)} {r : Reply}
    (hq : Quiet ⟨kv, b ++ task :: a⟩ (.run b.length r)) :
    ∀ key ∈ task.innerWrites kv, ∀ o ∈ b ++ a, key ∉ o.stores := by
  intro key hw o hr
  refine hq task (by simp) key hw o ?_
  exact (eraseIdx_around b a task).symm ▸ hr

theorem Coherent.step (hc : Coherent pool) (hq : Quiet pool action) :
    Coherent (calls.machine.step pool action).1 := by
  refine kept_of_tasks Quiet ?_ ?_ ?_ pool action hc hq
  · intro kv rn cl hc _
    exact Coherent.join (by simpa using hc) trivial
  · intro kv b task a r next c hc hq hm
    have he := kv.step_effect task r
    rw [show kv.step task r = _ from hm] at he
    cases he with
    | reads hk hi _ ha =>
      refine Coherent.join (hc.of_entries fun key entry hf => ?_) ha
      exact .inr ⟨by simp [hi], hk key entry hf⟩
    | commits hw hi _ =>
      exact hc.commit _ (fun key hn => hq.around key (hw ▸ hn)) hi
  intro kv b task a r next out hc hq hm
  have he := kv.step_effect task r
  rw [show kv.step task r = _ from hm] at he
  cases he with
  | returns hk hi read =>
    refine hc.of_entries fun key entry hf => ?_
    exact .inr ⟨by simp [hi], hk key entry hf⟩
  | @fills key v =>
    refine hc.of_entries fun o entry hf => ?_
    by_cases hsa : o = key
    · subst hsa
      left
      have ha : kv.inner.get? o = v :=
        hc.agrees _ (mem_around.mpr (.inl rfl))
      simpa [ha, eq_comm] using hf
    · exact .inr ⟨by simp [Task.mirrors], kv.cache.peek_put_of_ne v hsa hf⟩
  | @mirrors ops _ =>
    refine hc.of_entries fun key entry hf => ?_
    rcases peek_mirrorAll hf with ⟨hs, left⟩ | hk
    · have ha : ∀ key ∈ storedKeys ops, ∀ s,
          (BoatRamp.writeBatch s ops).get? key = kv.inner.get? key :=
        hc.agrees _ (mem_around.mpr (.inl rfl))
      exact .inl ((left kv.inner).symm.trans (ha key hs kv.inner))
    · exact .inr hk

def OnlyReads : Schedule (Call Bytes) Reply → Prop
  | .invoke call => (Task.start call).IsRead
  | .run _ _ => True

instance (action : Schedule (Call Bytes) Reply) : Decidable (OnlyReads action) :=
  match action with
  | .invoke call => inferInstanceAs (Decidable (Task.start call).IsRead)
  | .run _ _ => .isTrue trivial

theorem Task.IsRead.innerWrites (hr : task.IsRead) (kv : CachedKv Bytes) :
    task.innerWrites kv = [] := by
  cases task with
  | start c =>
    cases c with
    | get key => rfl
    | put | delete | compareAndSwap | writeBatch | invalidateCache | invalidateKeys =>
      exact hr.elim
  | missed key | fill key v | mirror ops out => rfl

theorem ReadsOver.quiet {pool : Pool (CachedKv Bytes) (Task Bytes)} (hr : ReadsOver inner pool)
    (action : Schedule (Call Bytes) Reply) : Quiet pool action := by
  cases action with
  | invoke c => trivial
  | run i r =>
    intro task hf key hw
    have hre := hr.reads task (mem_of_getElem? hf)
    simp [hre.innerWrites] at hw

theorem ReadsOver.step (hrr : ReadsOver inner pool) (ho : OnlyReads action) :
    ReadsOver inner (calls.machine.step pool action).1 := by
  refine kept_of_tasks (fun _ action => OnlyReads action) ?_ ?_ ?_ pool action hrr ho
  · intro kv rn cl ⟨reads, unchanged⟩ read
    refine ⟨fun task inside => ?_, unchanged⟩
    rcases mem_append.mp inside with hea | new
    · exact reads task hea
    · exact mem_singleton.mp new ▸ read
  · intro kv b task a r next c ⟨reads, unchanged⟩ _ moved
    have he := kv.step_effect task r
    rw [show kv.step task r = _ from moved] at he
    cases he with
    | reads kept idle read agrees =>
      refine ⟨fun o rn => ?_, unchanged⟩
      rcases mem_around.mp rn with rfl | elsewhere
      · exact read
      · exact reads o (mem_around.mpr (.inr elsewhere))
    | commits hwr idle write =>
      exact absurd (reads task (mem_around.mpr (.inl rfl))) write
  intro kv b task a r next out ⟨reads, unchanged⟩ _ moved
  have he := kv.step_effect task r
  rw [show kv.step task r = _ from moved] at he
  have hot : ∀ o ∈ b ++ a, o.IsRead :=
    fun o rn => reads o (mem_around.mpr (.inr rn))
  cases he with
  | returns | fills | mirrors => exact ⟨hot, unchanged⟩

theorem Coherent.read_eq {pool : Pool (CachedKv Bytes) (Task Bytes)} (hc : Coherent pool)
    (hr : ReadsOver inner pool) {action : Schedule (Call Bytes) Reply} {key : Text}
    {v : Option Bytes} (ha : (calls.machine.step pool action).2 = some (.got key v)) :
    v = inner.get? key := by
  obtain ⟨task, hru, r, next, hm⟩ := output_of_task ha
  have he := pool.shared.step_effect task r
  rw [show pool.shared.step task r = _ from hm] at he
  cases he with
  | returns hk hi hre =>
    rcases hre key v rfl with hf | hri
    · exact hc.entry_eq hr hf
    · rw [hri, hr.unchanged]
  | fills =>
    have hag : pool.shared.inner.get? key = v := hc.agrees _ hru
    rw [← hag, hr.unchanged]
  | mirrors => exact (hr.reads _ hru).elim

structure Settled (inner : Store Bytes) (pool : Pool (CachedKv Bytes) (Task Bytes)) : Prop
    extends ReadsOver inner pool where
  coherent : Coherent pool

theorem Settled.step (hs : Settled inner pool) (ho : OnlyReads action) :
    Settled inner (calls.machine.step pool action).1 where
  toReadsOver := hs.toReadsOver.step pool action ho
  coherent := hs.coherent.step pool action (hs.quiet action)

/-- After every run in which no step writes a key of the inner store while
another call is about to put an entry for it into the cache: once only reads
are in progress, each cached entry is the inner store's value, and from there on
every read returns the inner store's value until the next write starts. -/
theorem cache_coherent_of_quiet (inner : Store Bytes) (capacity : Nat)
    (actions : List (Schedule (Call Bytes) Reply))
    (quiet : calls.machine.Meets Quiet ⟨new inner capacity, []⟩ actions)
    (settled : ∀ task ∈ (calls.machine.final ⟨new inner capacity, []⟩ actions).running,
      task.IsRead) :
    let pool := calls.machine.final ⟨new inner capacity, []⟩ actions
    (∀ key entry, pool.shared.cache.peek key = some entry → entry = pool.shared.inner.get? key) ∧
    ∀ reads : List (Schedule (Call Bytes) Reply), (∀ action ∈ reads, OnlyReads action) →
      ∀ p ∈ calls.machine.history pool reads, ∀ key value,
        p.2 = some (.got key value) → value = pool.shared.inner.get? key := by
  intro pool
  have hi : Coherent (⟨new inner capacity, []⟩ : Pool (CachedKv Bytes) (Task Bytes)) :=
    ⟨by simp, fun key entry hf => by simp [new] at hf⟩
  have hc : Coherent pool := Machine.invariant Coherent.step hi quiet
  have hr : ReadsOver pool.shared.inner pool := ⟨settled, rfl⟩
  refine ⟨fun key entry hf => hc.entry_eq hr hf, fun reads only => ?_⟩
  have settled : Settled pool.shared.inner pool := ⟨hr, hc⟩
  apply Machine.outputs_of_invariant (fun _ o => ∀ key value,
    o = some (Outcome.got key value) → value = pool.shared.inner.get? key) ?_ ?_ settled
    (Machine.meets_of_forall _ _ only)
  · intro s action settled only
    exact settled.step s action only
  · intro s action settled _ key value ha
    exact settled.coherent.read_eq settled.toReadsOver ha

end Interleaving

namespace SlowFill

def key : Text := "policy/a".toList

def other : Text := "policy/b".toList

def stored : Store Nat := SortedMap.empty.insert key 1

def opening : List (Schedule (Call Nat) Reply) :=
  [.invoke (.get key), .run 0 .ok, .invoke (.put other 2), .run 1 .ok]

/-- The read fills the cache before the write to its key is committed. -/
def orderly : List (Schedule (Call Nat) Reply) :=
  opening ++ [.run 0 .ok, .run 0 .ok, .run 0 .ok,
    .invoke (.put key 3), .run 0 .ok, .run 0 .ok]

/-- Calls on different keys overlap, and the write to the key comes after the
fill: the next read returns what was written. -/
theorem orderly_read_current : (.run 0 .ok, some (.got key (some 3))) ∈ calls.machine.history
        (calls.machine.final ⟨new stored 4, []⟩ orderly) [.invoke (.get key), .run 0 .ok] ∧
    some 3 = (calls.machine.final ⟨new stored 4, []⟩ orderly).shared.inner.get? key := by
  refine ⟨by decide, ?_⟩
  exact (cache_coherent_of_quiet stored 4 orderly (by decide) (by decide)).2
    [.invoke (.get key), .run 0 .ok] (by decide) (.run 0 .ok, some (.got key (some 3)))
    (by decide) key (some 3) rfl

/-- The read takes the old value from the inner store, a write to the same key
runs from start to end, and only then does the read fill the cache. -/
def overtaken : List (Schedule (Call Nat) Reply) :=
  [.invoke (.get key), .run 0 .ok, .run 0 .ok,
    .invoke (.put key 3), .run 1 .ok, .run 1 .ok, .run 0 .ok]

/-- The stale fill stays: with no call in progress the cache disagrees with the
inner store, and the next read returns the old value. -/
theorem overtaken_fill_stale : (calls.machine.final ⟨new stored 4, []⟩ overtaken).running = [] ∧
    (calls.machine.final ⟨new stored 4, []⟩ overtaken).shared.cache.peek key = some (some 1) ∧
    (calls.machine.final ⟨new stored 4, []⟩ overtaken).shared.inner.get? key = some 3 ∧
    calls.machine.history (calls.machine.final ⟨new stored 4, []⟩ overtaken)
        [.invoke (.get key), .run 0 .ok] =
      [(.invoke (.get key), none), (.run 0 .ok, some (.got key (some 1)))] := by
  refine ⟨by decide, by decide, by decide, by decide⟩

end SlowFill

end CachedKv

end BoatRamp
