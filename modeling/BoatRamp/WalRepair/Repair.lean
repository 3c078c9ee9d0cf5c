import BoatRamp.Messaging.Ids

/-!
# Repair of a torn log tail

The write-ahead log of the control-plane store is one object per id.  Objects
beyond the durable frontier that end in no valid footer are moved to a
quarantine, if no readable object stands above them: first all are copied, then
a description is stored, then the originals are deleted.  The functions run over
the contents of an object store; a crash may come after any of the operations.
What comes after the deletes, an open of the repaired store, is not modelled.
-/

namespace BoatRamp.WalRepair

open Library Messaging

def NUM_FOOTER_BYTES : Nat := 10

def SUPPORTED_SST_VERSIONS : List Nat := [1, 2]

inductive RepairMode where
  | dryRun
  | apply
  deriving DecidableEq

inductive WalClass where
  | readable
  | fence
  | torn
  deriving DecidableEq

/-- A log object beyond the frontier. -/
structure WalCandidate where
  id : Nat
  size : Nat
  walClass : WalClass

inductive TornKind where
  | compactedSst
  | walNonTrailing

structure TornObject where
  path : Text
  size : Nat
  walClass : WalClass
  kind : TornKind

structure RepairReport where
  frontier : Nat
  candidates : List WalCandidate
  quarantined : List Nat
  quarantineDir : Option Text
  applied : Bool
  outOfScopeTorn : List TornObject

inductive WalRepairError where
  | midRangeGap (root : Text) (tornId readableId : Nat)
  | notBeyondFrontier (id frontier : Nat)
  | walIdHole (root : Text) (missingId aboveReadableId : Nat)
  | unrepairableTornObject (root : Text) (objects : List Text) (detail : Text)
  | store (detail : Text)

def filename (location : Text) : Text :=
  ((rsplitOnceAt '/' location).map Prod.snd).getD location

def SST : Text := ".sst".toList

/-- The id in the name of a log object; zeros in front are not asked for. -/
def parseWalId (location : Text) : Option Nat :=
  ((stripTail SST (filename location)).bind parseU64).map UInt64.toNat

def beValue (bytes : Octets) : Nat := bytes.foldl (fun value byte => 256 * value + byte.toNat) 0

/-- Look at the footer: the offset of the metadata in eight bytes, and the version in two. -/
def classify (contents : Octets) : WalClass :=
  if contents.length ≤ NUM_FOOTER_BYTES then .fence
  else
    let body := contents.length - NUM_FOOTER_BYTES
    let footer := contents.drop body
    if body < beValue (footer.take 8) then .torn
    else if beValue (footer.drop 8) ∈ SUPPORTED_SST_VERSIONS then .readable
    else .torn

def walScope (root : Text) : Text := root ++ "/wal/".toList

def compactedScope (root : Text) : Text := root ++ "/compacted/".toList

section Scans

-- An object store lists the objects of a directory in an order of its own.
variable (order : List Text → List Text) (objects : Store Octets) (root : Text) (frontier : Nat)

def list (scope : Text) : List Text := order (listPrefix objects scope)

def candidateAt (location : Text) : Option WalCandidate := do
  let id ← parseWalId location
  let contents ← objects.get? location
  if id ≤ frontier then none else some ⟨id, contents.length, classify contents⟩

def scanCandidates : List WalCandidate :=
  ((list order objects (walScope root)).filterMap (candidateAt objects frontier)).insertionSort
    fun first second => second.id ≤ first.id

def tornAt (kind : TornKind) (location : Text) : Option TornObject := do
  let contents ← objects.get? location
  if classify contents = .torn then some ⟨location, contents.length, .torn, kind⟩ else none

def scanOutOfScopeTorn : List TornObject :=
  let compacted := (list order objects (compactedScope root)).filter fun location =>
    (stripTail SST (filename location)).isSome
  let below := (list order objects (walScope root)).filter fun location =>
    (parseWalId location).any fun id => id ≤ frontier
  (compacted.filterMap (tornAt objects .compactedSst) ++
    below.filterMap (tornAt objects .walNonTrailing)).insertionSort
      fun first second => first.path ≤ second.path

end Scans

/-- Walk down from the highest id.  Below a readable object nothing may be torn. -/
def planFrom (root : Text) (readableAbove : Option Nat) :
    List WalCandidate → Except WalRepairError (List Nat)
  | [] => .ok []
  | candidate :: rest =>
    match candidate.walClass with
    | .readable => planFrom root (readableAbove.or (some candidate.id)) rest
    | .fence => planFrom root readableAbove rest
    | .torn =>
      match readableAbove with
      | some readableId => .error (.midRangeGap root candidate.id readableId)
      | none => (planFrom root none rest).map (candidate.id :: ·)

variable (candidates : List WalCandidate) (root : Text)

def planTrailingTail :
    Except WalRepairError (List Nat) :=
  planFrom root none candidates

def survivors (quarantined : List Nat) : List WalCandidate :=
  candidates.filter fun candidate =>
    candidate.walClass = .readable && !quarantined.contains candidate.id

def checkSurvivorContiguity (quarantined : List Nat)
    (frontier : Nat) (root : Text) : Except WalRepairError Unit :=
  match ((survivors candidates quarantined).map WalCandidate.id).max? with
  | none => .ok ()
  | some maxReadable =>
    let present := (candidates.map WalCandidate.id).filter fun id => !quarantined.contains id
    match (List.range' (frontier + 1) (maxReadable - frontier)).find? fun id =>
        !present.contains id with
    | some missing => .error (.walIdHole root missing maxReadable)
    | none => .ok ()

def idText (id : Nat) : Text := padded 20 10 id

def outOfScopeRefusal (outOfScopeTorn : List TornObject) (quarantined : List Nat) :
    Option WalRepairError :=
  if outOfScopeTorn = [] then none
  else
    let note := if quarantined = [] then
        "No safe trailing WAL tail was present to quarantine (this apply mutated nothing).".toList
      else
        "The safe trailing WAL tail [".toList ++
          List.intercalate ", ".toList (quarantined.map idText) ++
          ("] WAS quarantined first, but the store still holds the torn object(s) below.").toList
    some (.unrepairableTornObject root (outOfScopeTorn.map TornObject.path) (note ++
      (" This needs manifest-aware recovery / escalation — a compacted SST must be dropped via " ++
        "a manifest rollback, never by removing the object out from under the manifest.").toList))

/-- An operation of the object store, or a check between two of them that fails. -/
inductive StoreOp where
  | copy (source target : Text)
  | put (target : Text) (contents : Octets)
  | delete (location : Text)
  | refuse (error : WalRepairError)

def notFound (location : Text) : WalRepairError :=
  .store ("Object at location ".toList ++ location ++ " not found".toList)

def StoreOp.run (reportsMissing : Bool) (objects : Store Octets) :
    StoreOp → Except WalRepairError (Store Octets)
  | .copy source target =>
    match objects.get? source with
    | none => .error (notFound source)
    | some contents => .ok (objects.insert target contents)
  | .put target contents => .ok (objects.insert target contents)
  | .delete location =>
    if reportsMissing && (objects.get? location).isNone then .error (notFound location)
    else .ok (objects.erase location)
  | .refuse error => .error error

def runAll (reportsMissing : Bool) :
    List StoreOp → Store Octets → Store Octets × Except WalRepairError Unit
  | [], objects => (objects, .ok ())
  | op :: rest, objects =>
    match op.run reportsMissing objects with
    | .ok after => runAll reportsMissing rest after
    | .error error => (objects, .error error)

def walObjectPath (id : Nat) : Text := walScope root ++ idText id ++ SST

def quarantineScope : Text := root ++ "/wal-quarantine/".toList

def quarantineObjectPath (root stamp : Text) (id : Nat) : Text :=
  quarantineScope root ++ stamp ++ '/' :: idText id ++ SST

def quarantineManifestPath (root stamp : Text) : Text :=
  quarantineScope root ++ stamp ++ "/MANIFEST.json".toList

def buildQuarantineManifest (frontier : Nat) (candidates : List WalCandidate) (ids : List Nat)
    (stamp : Text) : Text :=
  let sizeOf (id : Nat) : Nat :=
    ((candidates.find? fun candidate => candidate.id = id).map WalCandidate.size).getD 0
  let objects := ids.map fun id =>
    "    \x7b \"id\": ".toList ++ Nat.toDigits 10 id ++ ", \"file\": \"".toList ++ idText id ++
      ".sst\", \"size\": ".toList ++ Nat.toDigits 10 (sizeOf id) ++ " \x7d".toList
  ("\x7b\n  \"reason\": \"trailing torn WAL tail beyond the durable frontier (partial " ++
    "crash/snapshot tail); quarantined by boatramp kv repair\",\n  \"stamp\": \"").toList ++
    stamp ++
    "\",\n  \"observed_frontier_replay_after_wal_id\": ".toList ++ Nat.toDigits 10 frontier ++
    ",\n  \"quarantined\": [\n".toList ++ List.intercalate ",\n".toList objects ++
    "\n  ]\n\x7d\n".toList

section Apply

variable (root : Text) (frontier : Nat)

def copyOp (stamp : Text) (id : Nat) : StoreOp :=
  if id ≤ frontier then .refuse (.notBeyondFrontier id frontier)
  else .copy (walObjectPath root id) (quarantineObjectPath root stamp id)

def deleteOp (id : Nat) : StoreOp := .delete (walObjectPath root id)

def applyQuarantine (candidates : List WalCandidate) (ids : List Nat) (stamp : Text) :
    List StoreOp :=
  ids.map (copyOp root frontier stamp) ++
    .put (quarantineManifestPath root stamp)
      (toUtf8 (buildQuarantineManifest frontier candidates ids stamp)) ::
    ids.map (deleteOp root)

/-- The tail to quarantine, or why there is none. -/
def plan (order : List Text → List Text) (objects : Store Octets) :
    Except WalRepairError (List Nat) :=
  let candidates := scanCandidates order objects root frontier
  (planTrailingTail candidates root).bind fun ids =>
    (checkSurvivorContiguity candidates ids frontier root).map fun _ => ids

variable (order : List Text → List Text) (mode : RepairMode) (now : Nat) (objects : Store Octets)

def operations (ids : List Nat) : List StoreOp :=
  match mode with
  | .dryRun => []
  | .apply =>
    if ids = [] then []
    else applyQuarantine root frontier (scanCandidates order objects root frontier) ids (idText now)

def repairWalTailAtFrontier (reportsMissing : Bool) :
    Store Octets × Except WalRepairError RepairReport :=
  match plan root frontier order objects with
  | .error error => (objects, .error error)
  | .ok ids =>
    let candidates := scanCandidates order objects root frontier
    let outOfScopeTorn := scanOutOfScopeTorn order objects root frontier
    let report (quarantineDir : Text) : RepairReport :=
      ⟨frontier, candidates, ids, if ids = [] then none else some quarantineDir,
        mode = .apply && ids ≠ [], outOfScopeTorn⟩
    let (after, result) := runAll reportsMissing
      (operations root frontier order mode now objects ids) objects
    (after, result.bind fun _ =>
      match mode with
      | .dryRun =>
        .ok (report (root ++ "/wal-quarantine/<stamp>/ (dry-run: not created)".toList))
      | .apply =>
        match outOfScopeRefusal root outOfScopeTorn ids with
        | some error => .error error
        | none => .ok (report (root ++ "/wal-quarantine/".toList ++ idText now)))

def crashedRepair (reportsMissing : Bool) (count : Nat) : Store Octets :=
  match plan root frontier order objects with
  | .error _ => objects
  | .ok ids =>
    (runAll reportsMissing ((operations root frontier order mode now objects ids).take count)
      objects).1

end Apply

end BoatRamp.WalRepair
