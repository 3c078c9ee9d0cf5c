import BoatRamp.Deploy.Blobs
import BoatRamp.Library.Fallible

/-!
# Garbage collection

A collection scans the records of every project for the deployments that are
live, keeps what their manifests and the functions name, and deletes the other
blobs, the configuration bodies no site points to and the other manifests.
-/

namespace BoatRamp.Deploy

open Library List Record Keyspace Family SortedMap

variable {Settings : Type}

structure GcOptions where
  graceSecs : Nat
  keepLast : Option Nat
  keepAgeSecs : Option Nat

structure GcReport where
  manifestsTotal : Nat
  manifestsRemoved : Nat
  blobsTotal : Nat
  blobsRemoved : Nat
  bytesReclaimed : Nat

def isAsciiHexdigit (letter : Char) : Bool :=
  ('0' ≤ letter && letter ≤ '9') || ('a' ≤ letter && letter ≤ 'f') ||
    ('A' ≤ letter && letter ≤ 'F')

def isBlobKey (key : Text) : Bool :=
  match splitOnceAt '/' key with
  | some (shard, hash) =>
      byteLength shard = 2 && byteLength hash = 64 && shard.all isAsciiHexdigit &&
        hash.all isAsciiHexdigit
  | none => false

def blobHash (key : Text) : Text := ((rsplitOnceAt '/' key).map Prod.snd).getD key

variable (kv : Kv Settings)

def discoverProjects : List Text :=
  ((listPrefix kv Family.project.tag).filterMap projectOfKey).dedup

/-- The entries that the retention policy keeps, most recent first. -/
def GcOptions.retained (opts : GcOptions) (now : Nat) (history : List HistoryEntry) : List Text :=
  history.zipIdx.filterMap fun (entry, index) =>
    if opts.keepLast.all (fun count => index < count) ||
        opts.keepAgeSecs.any (fun age => now - entry.activatedAt ≤ age) then
      some entry.id
    else none

def Record.history? : Record Settings → Option (List HistoryEntry)
  | .history entries => some entries
  | _ => none

def Record.text? : Record Settings → Option Text
  | .text held => some held
  | _ => none

def Record.function? : Record Settings → Option Function
  | .function stored => some stored
  | _ => none

def Record.manifest? : Record Settings → Option (Manifest Settings)
  | .manifest stored => some stored
  | _ => none

def readAll {Result : Type} (kv : Kv Settings) (read : Record Settings → Option Result)
    (keys : List Text) : List Result :=
  keys.filterMap fun key => (kv.get? key).bind read

def liveDeploymentIds (opts : GcOptions) (now : Nat) : List Text :=
  (discoverProjects kv).flatMap fun project =>
    (readAll kv Record.history? (listPrefix kv (historyPrefix project))).flatMap
        (opts.retained now) ++
      [currentPrefix project, aliasProjectPrefix project].flatMap fun head =>
        readAll kv Record.text? (listPrefix kv head)

def getMeta (id : Text) : Except DeployError (Option DeployMeta) :=
  match kv.get? (deployMetaKey id) with
  | none => .ok none
  | some (.deployMeta found) => .ok (some found)
  | some _ => .error .serde

def withinGrace (id : Text) (now : Nat) (opts : GcOptions) :
    Except DeployError Bool :=
  if opts.graceSecs = 0 then .ok false
  else do
    let found ← getMeta kv id
    return found.any fun found => now - found.createdAt < opts.graceSecs

def manifestId (key : Text) : Text := (stripHead Family.manifests.tag key).getD key

def isProtected (live : List Text) (opts : GcOptions) (now : Nat)
    (key : Text) : Except DeployError Bool :=
  if manifestId key ∈ live then .ok true else withinGrace kv (manifestId key) now opts

def listStoredFunctions (project : Text) : List Function :=
  readAll kv Record.function? ((listPrefix kv (functionsPrefix project)).filter fun key =>
    '/' ∉ key.drop (functionsPrefix project).length)

def Function.components (function : Function) : List Text :=
  (if function.active = [] then [] else [function.active]) ++
    function.versions.map FunctionVersion.component

def liveFunctionComponents : List Text :=
  (discoverProjects kv).flatMap fun project =>
    (listStoredFunctions kv project).flatMap Function.components

def referencedConfigs : List Text :=
  (discoverProjects kv).flatMap fun project =>
    readAll kv Record.text? (listPrefix kv (sitePrefix project))

def unreferencedBlobs (objects : Objects) (referenced : List Text) : List (Text × Octets) :=
  objects.entries.filter fun object =>
    isBlobKey object.1 && decide (blobHash object.1 ∉ referenced)

def judgeManifests (live : List Text) (opts : GcOptions) (now : Nat) :
    Except DeployError (List (Text × Bool)) := do
  let manifestKeys := listPrefix kv Family.manifests.tag
  let verdicts ← manifestKeys.mapM (isProtected kv live opts now)
  return manifestKeys.zip verdicts

def orphanManifests (judged : List (Text × Bool)) : List Text :=
  (judged.filter fun verdict => !verdict.2).map Prod.fst

def referencedBy (judged : List (Text × Bool)) : List Text :=
  (readAll kv Record.manifest? ((judged.filter Prod.snd).map Prod.fst)).flatMap
      Manifest.blobHashes ++
    liveFunctionComponents kv

def staleConfigs : List Text :=
  (listPrefix kv Family.siteconfig.tag).filter fun key =>
    (stripHead Family.siteconfig.tag key).getD key ∉ referencedConfigs kv

/-- The clock is read before the scan for live deployments and again after it. -/
def collectGarbageWith (allowsPrune : Bool) (kv : Kv Settings) (objects : Objects) (prune : Bool)
    (opts : GcOptions) (liveNow now : Nat) :
    Except DeployError (Kv Settings × Objects × GcReport) :=
  if prune && !allowsPrune then .error .pruneUnsafeWithFallback
  else do
    let live := liveDeploymentIds kv opts liveNow
    let judged ← judgeManifests kv live opts now
    let orphans := orphanManifests judged
    let swept := unreferencedBlobs objects (referencedBy kv judged)
    let report : GcReport := {
      manifestsTotal := judged.length
      manifestsRemoved := orphans.length
      blobsTotal := objects.entries.length
      blobsRemoved := swept.length
      bytesReclaimed := (swept.map fun object => object.2.length).sum }
    if prune then
      let objects := (swept.map Prod.fst).foldl SortedMap.erase objects
      let dropped := orphans.flatMap fun key => [key, deployMetaKey (manifestId key)]
      return (writeBatch kv ((staleConfigs kv ++ dropped).map .delete), objects, report)
    else return (kv, objects, report)

/-- A name that can be the first segment of a key. -/
def IsProject (project : Text) : Prop := project ≠ [] ∧ '/' ∉ project

theorem projectOfKey_scopedKey {p rest : Text} {s : Scope} (hn : IsProject p) :
    projectOfKey (scopedKey p s rest) = some p := by
  have hs : stripHead project.tag (scopedKey p s rest) = some (p ++ '/' :: scopes.key s rest) := by
    simp [stripHead, scopedKey, key, space]
  rw [projectOfKey, hs]
  simp [splitAll_append hn.2, hn.1]

theorem isProject_of_projectOfKey {key p : Text} (hn : projectOfKey key = some p) :
    IsProject p := by
  obtain ⟨rest, _, hf⟩ := Option.bind_eq_some_iff.mp hn
  obtain ⟨hs, hfi⟩ := Option.filter_eq_some_iff.mp hf
  exact ⟨by simpa using hfi, clean_of_mem_splitAll (mem_of_mem_head? hs)⟩

section Scans

variable {kv : Kv Settings}

theorem mem_discoverProjects {p : Text} : p ∈ discoverProjects kv ↔
      ∃ key, (kv.get? key).isSome ∧ project.tag <+: key ∧ projectOfKey key = some p := by
  simp [discoverProjects, mem_listPrefix_iff, and_assoc]

theorem mem_readAll {Result : Type} {rd : Record Settings → Option Result} {k : List Text}
    {v : Result} : v ∈ readAll kv rd k ↔
      ∃ key ∈ k, ∃ rc, kv.get? key = some rc ∧ rd rc = some v := by
  simp [readAll, Option.bind_eq_some_iff]

theorem scanned_iff {s : Scope} {Good : Text → Text → Record Settings → Prop} :
    (∃ p ∈ discoverProjects kv, ∃ key ∈ listPrefix kv (scopedKey p s []),
        ∃ rc, kv.get? key = some rc ∧ Good p key rc) ↔ ∃ p rest rc, IsProject p ∧
        kv.get? (scopedKey p s rest) = some rc ∧ Good p (scopedKey p s rest) rc := by
  constructor
  · rintro ⟨p, hd, key, hl, rc, hs, hg⟩
    obtain ⟨_, _, _, hn⟩ := mem_discoverProjects.mp hd
    obtain ⟨_, hb⟩ := (mem_listPrefix_iff _ _ _).mp hl
    obtain ⟨rest, rfl⟩ := eq_scopedKey_of_isPrefix hb
    exact ⟨p, rest, rc, isProject_of_projectOfKey hn, hs, hg⟩
  rintro ⟨p, rest, rc, hn, hs, hg⟩
  have hp : (kv.get? (scopedKey p s rest)).isSome := by rw [hs]; rfl
  have hb : scopedKey p s [] <+: scopedKey p s rest := by
    simp [scopedKey, key]
  have ht : project.tag <+: scopedKey p s rest := prefix_append _ _
  exact ⟨p, mem_discoverProjects.mpr ⟨_, hp, ht, projectOfKey_scopedKey hn⟩,
    _, (mem_listPrefix_iff _ _ _).mpr ⟨hp, hb⟩, rc, hs, hg⟩

theorem mem_scan {Result : Type} {rd : Record Settings → Option Result} {s : Scope} {v : Result} :
    (∃ p ∈ discoverProjects kv, v ∈ readAll kv rd (listPrefix kv (scopedKey p s []))) ↔
      ∃ p rest rc, IsProject p ∧ kv.get? (scopedKey p s rest) = some rc ∧ rd rc = some v := by
  simp only [mem_readAll]
  exact scanned_iff

variable {r : Record Settings}

@[simp]
theorem Record.text?_eq_some_iff {h : Text} : r.text? = some h ↔ r = .text h := by
  cases r <;> simp [text?]

@[simp]
theorem Record.history?_eq_some_iff {es : List HistoryEntry} :
    r.history? = some es ↔ r = .history es := by
  cases r <;> simp [history?]

@[simp]
theorem Record.function?_eq_some_iff {sd : Function} :
    r.function? = some sd ↔ r = .function sd := by
  cases r <;> simp [function?]

@[simp]
theorem Record.manifest?_eq_some_iff {sd : Manifest Settings} :
    r.manifest? = some sd ↔ r = .manifest sd := by
  cases r <;> simp [manifest?]

end Scans

section Uses

variable (kv : Kv Settings) (opts : GcOptions)

/-- A deployment that a `current` pointer, an alias or the retained part of a history names. -/
inductive Live (now : Nat) (id : Text) : Prop
  | current {project site : Text} : IsProject project →
      kv.get? (currentKey project site) = some (.text id) → Live now id
  | aliased {project rest : Text} : IsProject project →
      kv.get? (scopedKey project .aliases rest) = some (.text id) → Live now id
  | retained {project site : Text} {history : List HistoryEntry} : IsProject project →
      kv.get? (historyKey project site) = some (.history history) →
      id ∈ opts.retained now history → Live now id

/-- A deployment whose manifest is too young to be collected. -/
def InGrace (now : Nat) (id : Text) : Prop :=
  opts.graceSecs ≠ 0 ∧ ∃ found, kv.get? (deployMetaKey id) = some (.deployMeta found) ∧
    now - found.createdAt < opts.graceSecs

def FileOf (hash id : Text) : Prop :=
  ∃ manifest, kv.get? (manifestKey id) = some (.manifest manifest) ∧ hash ∈ manifest.blobHashes

def ComponentOf (hash : Text) : Prop :=
  ∃ project name function, IsProject project ∧ '/' ∉ name ∧
    kv.get? (functionKey project name) = some (.function function) ∧ hash ∈ function.components

def PointedConfig (hash : Text) : Prop :=
  ∃ project site, IsProject project ∧ kv.get? (sitePointerKey project site) = some (.text hash)

def RootSource.blob? : RootSource → Option Text
  | .image _ => none
  | .tar hash => some hash
  | .rootfs hash => some hash

def RootOf (hash : Text) : Prop :=
  ∃ project name workload spec, kv.get? (workloadKey project name) = some (.workload workload) ∧
    kv.get? (specKey workload.active) = some (.spec spec) ∧ spec.root.blob? = some hash

variable {kv opts}

theorem mem_liveDeploymentIds {now : Nat} {id : Text} :
    id ∈ liveDeploymentIds kv opts now ↔ Live kv opts now id := by
  have ht {s : Scope} : (∃ p ∈ discoverProjects kv,
        id ∈ readAll kv text? (listPrefix kv (scopedKey p s []))) ↔
      ∃ p rest, IsProject p ∧ kv.get? (scopedKey p s rest) = some (.text id) := by
    simp [mem_scan]
  have hh (h : List HistoryEntry) : (∃ p ∈ discoverProjects kv,
        h ∈ readAll kv history? (listPrefix kv (historyPrefix p))) ↔ ∃ p st, IsProject p ∧
        kv.get? (historyKey p st) = some (.history h) := by
    simp [historyPrefix, historyKey, mem_scan]
  simp only [liveDeploymentIds, mem_flatMap, mem_append, mem_cons, not_mem_nil, or_false]
  constructor
  · rintro ⟨p, hd, ⟨h, hf, hi⟩ | ⟨_, rfl | rfl, hf⟩⟩
    · obtain ⟨_, _, hn, hs⟩ := (hh h).mp ⟨p, hd, hf⟩
      exact .retained hn hs hi
    · obtain ⟨_, _, hn, hs⟩ := ht.mp ⟨p, hd, hf⟩
      exact .current hn hs
    · obtain ⟨_, _, hn, hs⟩ := ht.mp ⟨p, hd, hf⟩
      exact .aliased hn hs
  intro hl
  cases hl with
  | current hn hs =>
    obtain ⟨p, hd, hf⟩ := ht.mpr ⟨_, _, hn, hs⟩
    exact ⟨p, hd, .inr ⟨_, .inl rfl, hf⟩⟩
  | aliased hn hs =>
    obtain ⟨p, hd, hf⟩ := ht.mpr ⟨_, _, hn, hs⟩
    exact ⟨p, hd, .inr ⟨_, .inr rfl, hf⟩⟩
  | retained hn hs hi =>
    obtain ⟨p, hd, hf⟩ := (hh _).mpr ⟨_, _, hn, hs⟩
    exact ⟨p, hd, .inl ⟨_, hf, hi⟩⟩

theorem mem_referencedConfigs {h : Text} : h ∈ referencedConfigs kv ↔ PointedConfig kv h := by
  simp only [referencedConfigs, mem_flatMap, sitePrefix]
  rw [mem_scan]
  simp [PointedConfig, sitePointerKey]

theorem drop_scopedKey (p rest : Text) (s : Scope) :
    (scopedKey p s rest).drop (scopedKey p s []).length = rest := by
  have hs : scopedKey p s rest = scopedKey p s [] ++ rest := by
    simp [scopedKey, key]
  rw [hs, drop_left]

theorem mem_liveFunctionComponents {h : Text} :
    h ∈ liveFunctionComponents kv ↔ ComponentOf kv h := by
  have hfu := @scanned_iff _ kv .functions fun p key rc =>
    '/' ∉ key.drop (functionsPrefix p).length ∧ ∃ f, rc = .function f ∧ h ∈ f.components
  simp only [liveFunctionComponents, listStoredFunctions, mem_flatMap, mem_readAll,
    mem_filter, decide_eq_true_eq, function?_eq_some_iff]
  constructor
  · rintro ⟨p, hd, f, ⟨key, ⟨hl, hp⟩, rc, hs, rfl⟩, hi⟩
    obtain ⟨o, name, _, hn, hf, hc, a, rfl, hu⟩ := hfu.mp ⟨p, hd, key, hl, _, hs, hp, f, rfl, hi⟩
    rw [functionsPrefix, drop_scopedKey] at hc
    exact ⟨o, name, a, hn, hc, hf, hu⟩
  rintro ⟨o, name, f, hn, hc, hf, hu⟩
  obtain ⟨p, hd, key, hl, rc, hs, hp, a, rfl, hi⟩ :=
    hfu.mpr ⟨o, name, _, hn, hf, by rwa [functionsPrefix, drop_scopedKey], f, rfl, hu⟩
  exact ⟨p, hd, a, ⟨key, ⟨hl, hp⟩, _, hs, rfl⟩, hi⟩

theorem withinGrace_ok {now : Nat} {id : Text} {v : Bool}
    (hj : withinGrace kv id now opts = .ok v) : v = true ↔ InGrace kv opts now id := by
  unfold withinGrace at hj
  split at hj
  · next none =>
    cases hj
    simp [InGrace, none]
  next some =>
  obtain ⟨f, hr, hv⟩ := bind_eq_ok_iff.mp hj
  cases hv
  unfold getMeta at hr
  unfold InGrace
  split at hr
  · next absent =>
    cases hr
    simp [absent]
  · next stored =>
    cases hr
    simp [stored, some]
  · cases hr

theorem isProtected_ok {liveNow now : Nat} {id : Text} {v : Bool}
    (hj : isProtected kv (liveDeploymentIds kv opts liveNow) opts now (manifestKey id) = .ok v) :
    v = true ↔ Live kv opts liveNow id ∨ InGrace kv opts now id := by
  have hn : manifestId (manifestKey id) = id := by
    simp [manifestId, manifestKey, key, space, stripHead]
  unfold isProtected at hj
  rw [hn] at hj
  split at hj
  · next inside =>
    cases hj
    simp [mem_liveDeploymentIds.mp inside]
  · next outside =>
    rw [withinGrace_ok hj, or_iff_right fun hl => outside (mem_liveDeploymentIds.mpr hl)]

end Uses

section Deletes

variable {kv next : Kv Settings} {objects swept : Objects} {opts : GcOptions}
  {liveNow now : Nat} {report : GcReport}

/-- A blob that a live or young deployment or a function names. -/
def Referenced (kv : Kv Settings) (opts : GcOptions) (liveNow now : Nat) (hash : Text) : Prop :=
  (∃ id, (Live kv opts liveNow id ∨ InGrace kv opts now id) ∧ FileOf kv hash id) ∨
    ComponentOf kv hash

structure Collected (kv next : Kv Settings) (objects swept : Objects) (opts : GcOptions)
    (liveNow now : Nat) : Prop where
  manifest : ∀ id, Live kv opts liveNow id ∨ InGrace kv opts now id →
    next.get? (manifestKey id) = kv.get? (manifestKey id)
  config : ∀ hash, PointedConfig kv hash →
    next.get? (siteConfigBlobKey hash) = kv.get? (siteConfigBlobKey hash)
  blob : ∀ key, (isBlobKey key → Referenced kv opts liveNow now (blobHash key)) →
    swept.get? key = objects.get? key
  fresh : ∀ key, objects.get? key = none → swept.get? key = none
  garbage : ∀ key, isBlobKey key → ¬Referenced kv opts liveNow now (blobHash key) →
    swept.get? key = none

section Judged

variable {j : List (Text × Bool)}
  (done : judgeManifests kv (liveDeploymentIds kv opts liveNow) opts now = .ok j)

include done

theorem mem_judged {key : Text} {v : Bool} : (key, v) ∈ j ↔
      (kv.get? key).isSome ∧ ∃ id, key = manifestKey id ∧
        (v = true ↔ Live kv opts liveNow id ∨ InGrace kv opts now id) := by
  obtain ⟨vr, he, hs⟩ := bind_eq_ok_iff.mp done
  cases hs
  rw [mem_zip_of_mapM he, mem_listPrefix_iff]
  constructor
  · rintro ⟨⟨hp, id, rfl⟩, hr⟩
    exact ⟨hp, id, rfl, isProtected_ok hr⟩
  rintro ⟨hp, id, rfl, hm⟩
  refine ⟨⟨hp, prefix_append _ _⟩, ?_⟩
  -- every listed key was judged, and the judgement means the same
  have hl : manifestKey id ∈ listPrefix kv manifests.tag :=
    (mem_listPrefix_iff _ _ _).mpr ⟨hp, prefix_append _ _⟩
  obtain ⟨r, hr⟩ := exists_of_mapM he hl
  rw [hr, Bool.eq_iff_iff.mpr ((isProtected_ok hr).trans hm.symm)]

theorem mem_orphanManifests {key : Text} : key ∈ orphanManifests j ↔
      (kv.get? key).isSome ∧ ∃ id, key = manifestKey id ∧
        ¬(Live kv opts liveNow id ∨ InGrace kv opts now id) := by
  simp only [orphanManifests, mem_map, mem_filter, Prod.exists, exists_and_right,
    exists_eq_right, mem_judged done]
  constructor
  · rintro ⟨v, ⟨hp, id, rfl, hm⟩, ho⟩
    refine ⟨hp, id, rfl, fun hk => ?_⟩
    rw [hm.mpr hk] at ho
    cases ho
  · rintro ⟨hp, id, rfl, ho⟩
    exact ⟨false, ⟨hp, id, rfl, by simp [ho]⟩, rfl⟩

theorem mem_referencedBy {h : Text} : h ∈ referencedBy kv j ↔ Referenced kv opts liveNow now h := by
  rw [referencedBy, mem_append, mem_liveFunctionComponents, Referenced]
  apply or_congr_left
  simp only [mem_flatMap, mem_readAll, mem_map, mem_filter, Prod.exists,
    exists_and_right, exists_eq_right, manifest?_eq_some_iff, mem_judged done]
  constructor
  · rintro ⟨m, ⟨key, ⟨_, id, rfl, hm⟩, hs⟩, hi⟩
    exact ⟨id, hm.mp trivial, m, hs, hi⟩
  rintro ⟨id, hk, m, hs, hi⟩
  refine ⟨m, ⟨manifestKey id, ⟨?_, id, rfl, by simp [hk]⟩, hs⟩, hi⟩
  rw [hs]
  rfl

end Judged

theorem mem_staleConfigs {h : Text} : siteConfigBlobKey h ∈ staleConfigs kv ↔
      (kv.get? (siteConfigBlobKey h)).isSome ∧ ¬PointedConfig kv h := by
  have hn : stripHead siteconfig.tag (siteConfigBlobKey h) = some h := by
    simp [stripHead, siteConfigBlobKey, key, space]
  simp only [staleConfigs, mem_filter, mem_listPrefix_iff, hn, Option.getD_some,
    mem_referencedConfigs, decide_eq_true_eq]
  rw [and_iff_left (show siteconfig.tag <+: siteConfigBlobKey h from prefix_append _ _)]

theorem isConfig_of_mem_staleConfigs {key : Text} (hi : key ∈ staleConfigs kv) :
    ∃ h, key = siteConfigBlobKey h := by
  obtain ⟨_, h, rfl⟩ := (mem_listPrefix_iff _ _ _).mp (mem_of_mem_filter hi)
  exact ⟨h, rfl⟩

theorem mem_unreferencedBlobs {r : List Text} {key : Text} :
    key ∈ (unreferencedBlobs objects r).map Prod.fst ↔
      (objects.get? key).isSome ∧ isBlobKey key ∧ blobHash key ∉ r := by
  simp only [unreferencedBlobs, mem_map, mem_filter, Prod.exists, exists_and_right,
    exists_eq_right, objects.mem_entries_iff, Bool.and_eq_true, decide_eq_true_eq,
    Option.isSome_iff_exists]

theorem collected {ap : Bool} (done : collectGarbageWith ap kv objects true opts liveNow now =
      .ok (next, swept, report)) : Collected kv next objects swept opts liveNow now := by
  unfold collectGarbageWith at done
  split at done
  · cases done
  obtain ⟨jd, hj, done⟩ := bind_eq_ok_iff.mp done
  cases done
  have d {key : Text} (hi : key ∈ (orphanManifests jd).flatMap fun key =>
        [key, deployMetaKey (manifestId key)]) :
      key ∈ orphanManifests jd ∨ ∃ id, key = deployMetaKey id := by
    obtain ⟨o, hm, hsa⟩ := mem_flatMap.mp hi
    simp only [mem_cons, not_mem_nil, or_false] at hsa
    rcases hsa with rfl | rfl
    · exact .inl hm
    · exact .inr ⟨_, rfl⟩
  constructor
  · intro id hk
    rw [get?_writeBatch_deletes, if_neg]
    intro hi
    rcases mem_append.mp hi with hs | hi
    · obtain ⟨h, hsa⟩ := isConfig_of_mem_staleConfigs hs
      simp [manifestKey, siteConfigBlobKey] at hsa
    rcases d hi with o | ⟨ot, hsa⟩
    · obtain ⟨_, ot, hsa, hun⟩ := (mem_orphanManifests hj).mp o
      simp only [manifestKey, key_inj, true_and] at hsa
      exact hun (hsa ▸ hk)
    · simp [manifestKey, deployMetaKey] at hsa
  · intro h hpo
    rw [get?_writeBatch_deletes, if_neg]
    intro hi
    rcases mem_append.mp hi with hs | hi
    · exact (mem_staleConfigs.mp hs).2 hpo
    rcases d hi with o | ⟨ot, hsa⟩
    · obtain ⟨_, ot, hsa, _⟩ := (mem_orphanManifests hj).mp o
      simp [manifestKey, siteConfigBlobKey] at hsa
    · simp [siteConfigBlobKey, deployMetaKey] at hsa
  · intro key hus
    rw [get?_foldl_erase, if_neg]
    rw [mem_unreferencedBlobs, mem_referencedBy hj]
    rintro ⟨_, his, hu⟩
    exact hu (hus his)
  · intro key ha
    rw [get?_foldl_erase, ha, ite_self]
  intro key his hu
  rw [get?_foldl_erase]
  split
  · rfl
  next spared =>
  rw [mem_unreferencedBlobs, mem_referencedBy hj] at spared
  by_contra hp
  exact spared ⟨Option.isSome_iff_ne_none.mpr hp, his, hu⟩

end Deletes

theorem isBlobKey_shape {key : Text} (hi : isBlobKey key) :
    ∃ s h, key = s ++ '/' :: h ∧ '/' ∉ s ∧ byteLength s = 2 ∧ blobHash key = h := by
  unfold isBlobKey at hi
  split at hi
  · next s h split =>
    obtain ⟨rfl, hc⟩ := splitOnceAt_eq_some_iff.mp split
    simp only [Bool.and_eq_true, decide_eq_true_eq, all_eq_true] at hi
    have hp : '/' ∉ h := fun hin => absurd (hi.2 '/' hin) (by decide)
    refine ⟨s, h, rfl, hc, hi.1.1.1, ?_⟩
    rw [blobHash, rsplitOnceAt_append hp]
    rfl
  · cases hi

theorem blobHash_blobKey {h key : Text} (hn : blobKey h = some key)
    (his : isBlobKey key) : blobHash key = h := by
  obtain ⟨s, f, hs, hc, two, rfl⟩ := isBlobKey_shape his
  rcases blobKey_shape hn with ⟨rfl, hsh⟩ | ⟨x, rest, hsa, hw, ha⟩ | ⟨x, y, rest, hsa, hna, ha⟩
  · rw [hs] at hsh
    simp only [byteLength, map_append, map_cons, sum_append, sum_cons] at hsh two
    omega
  · have hap : '/' ∉ [x] := by
      intro hi
      rw [← mem_singleton.mp hi] at hw
      exact absurd hw (by decide)
    have hp : [x] ++ '/' :: h = s ++ '/' :: blobHash key := ha.symm.trans hs
    exact ((segment_inj hap hc).mp hp).2.symm
  have hap : '/' ∉ [x, y] := by
    intro hi
    simp only [mem_cons, not_mem_nil, or_false] at hi
    rw [ha] at hs
    cases s with
    | nil => cases two
    | cons head tail =>
      obtain ⟨rfl, hm⟩ := cons.inj hs
      rcases hi with rfl | rfl
      · exact hc (by simp)
      cases tail with
      | nil =>
        simp only [byteLength, map_cons, map_nil, sum_cons, sum_nil] at two
        omega
      | cons next o =>
        obtain ⟨rfl, _⟩ := cons.inj hm
        simp at hc
  have hp : [x, y] ++ '/' :: h = s ++ '/' :: blobHash key :=
    ha.symm.trans hs
  exact ((segment_inj hap hc).mp hp).2.symm

/-- A blob that is still named by a live deployment, a function or a workload. -/
def InUse (kv : Kv Settings) (opts : GcOptions) (liveNow : Nat) (hash : Text) : Prop :=
  (∃ id, Live kv opts liveNow id ∧ FileOf kv hash id) ∨ ComponentOf kv hash ∨ RootOf kv hash

/-- A collection that takes nothing that is still in use. -/
structure KeepsReachable (kv next : Kv Settings) (objects swept : Objects) (opts : GcOptions)
    (liveNow : Nat) : Prop where
  manifest : ∀ id, Live kv opts liveNow id →
    next.get? (manifestKey id) = kv.get? (manifestKey id)
  config : ∀ hash, PointedConfig kv hash →
    next.get? (siteConfigBlobKey hash) = kv.get? (siteConfigBlobKey hash)
  blob : ∀ hash key, InUse kv opts liveNow hash → blobKey hash = some key →
    swept.get? key = objects.get? key

/-- The stored root filesystems of the workloads are also files of kept deployments or
components of functions. -/
def RootsReferenced (kv : Kv Settings) (objects : Objects) (opts : GcOptions)
    (liveNow now : Nat) : Prop :=
  ∀ hash key, RootOf kv hash → blobKey hash = some key → isBlobKey key →
    (objects.get? key).isSome → Referenced kv opts liveNow now hash

/-- A collection keeps everything reachable exactly if the roots of the workloads happen to be
referenced in another way. -/
theorem reachable_kept_iff {kv next : Kv Settings} {objects swept : Objects} {opts : GcOptions}
    {liveNow now : Nat} {report : GcReport} {allowsPrune : Bool}
    (done : collectGarbageWith allowsPrune kv objects true opts liveNow now =
      .ok (next, swept, report)) : KeepsReachable kv next objects swept opts liveNow ↔
      RootsReferenced kv objects opts liveNow now := by
  have ht := collected done
  constructor
  · intro keeps h key hr hn hi hp
    by_contra hu
    have hg := ht.garbage key hi (by rwa [blobHash_blobKey hn hi])
    rw [keeps.blob h key (.inr (.inr hr)) hn] at hg
    rw [hg] at hp
    cases hp
  intro referenced
  refine ⟨fun id hl => ht.manifest id (.inl hl), ht.config, ?_⟩
  intro h key hus hn
  by_cases hp : (objects.get? key).isSome
  · apply ht.blob
    intro hi
    rw [blobHash_blobKey hn hi]
    rcases hus with ⟨id, hl, hf⟩ | hc | hr
    · exact .inl ⟨id, .inl hl, hf⟩
    · exact .inr hc
    · exact referenced h key hr hn hi hp
  · have ha := Option.not_isSome_iff_eq_none.mp hp
    rw [ht.fresh key ha, ha]

namespace Uprooted

def rootHash : Text := "ca978112ca1bbdcafac231b39a23dc4da786eff8147c4f72b9807785afee48bb".toList

def specHash : Text := "3e23e8160039594a33894f6564e1b1348bbd7a0088d42c4acb73eeaed59c009d".toList

def workloads : Kv Unit :=
  writeBatch .empty
    [.put (specKey specHash) (.spec ⟨.tar rootHash, ()⟩),
      .put (workloadKey "acme".toList "api".toList) (.workload ⟨"api".toList, specHash⟩)]

def blobs : Objects := SortedMap.empty.insert ("ca/".toList ++ rootHash) [0x61]

theorem workload_root_deleted : workloads.get? (workloadKey "acme".toList "api".toList) =
        some (.workload ⟨"api".toList, specHash⟩) ∧
      workloads.get? (specKey specHash) = some (.spec ⟨.tar rootHash, ()⟩) ∧
      hasBlob blobs rootHash = true ∧
      (collectGarbageWith true workloads blobs true ⟨86400, none, none⟩ 100 100).map
          (fun collected => hasBlob collected.2.1 rootHash) =
        .ok false := by
  decide +kernel

def shared : Kv Unit :=
  workloads.insert (functionKey "acme".toList "resize".toList)
    (.function ⟨[⟨rootHash, rootHash⟩], rootHash⟩)

theorem component_shared : ComponentOf shared rootHash := by
  refine ⟨"acme".toList, "resize".toList, ⟨[⟨rootHash, rootHash⟩], rootHash⟩,
    ⟨by decide, by decide⟩, by decide, ?_, by simp [Function.components]⟩
  exact get?_insert_self _ _ _

theorem root_shared {h : Text} (hr : RootOf shared h) : h = rootHash := by
  obtain ⟨p, name, w, s, hf, hs, hsa⟩ := hr
  have hw : shared.entries.filterMap (fun e =>
      match e.2 with
      | .workload w => some w
      | _ => none) = [⟨"api".toList, specHash⟩] := by
    decide +kernel
  have hi : w ∈ shared.entries.filterMap (fun e =>
      match e.2 with
      | .workload w => some w
      | _ => none) :=
    mem_filterMap.mpr ⟨_, (shared.mem_entries_iff _ _).mpr hf, rfl⟩
  rw [hw, mem_singleton] at hi
  subst hi
  have hst : shared.get? (specKey specHash) = some (.spec ⟨.tar rootHash, ()⟩) := by
    decide +kernel
  cases hs.symm.trans hst
  exact (Option.some.inj hsa).symm

theorem shared_root_kept : ∃ next swept report,
    collectGarbageWith true shared blobs true ⟨86400, none, none⟩ 100 100 =
        .ok (next, swept, report) ∧
      KeepsReachable shared next blobs swept ⟨86400, none, none⟩ 100 := by
  have hs : (collectGarbageWith true shared blobs true ⟨86400, none, none⟩ 100 100).isOk := by
    decide +kernel
  cases hc : collectGarbageWith true shared blobs true ⟨86400, none, none⟩ 100 100 with
  | error error =>
    rw [hc] at hs
    cases hs
  | ok result =>
    obtain ⟨next, swept, report⟩ := result
    refine ⟨next, swept, report, rfl, (reachable_kept_iff hc).mpr ?_⟩
    intro hash key hr hn hi hp
    rw [root_shared hr]
    exact .inr component_shared

end Uprooted

end BoatRamp.Deploy
