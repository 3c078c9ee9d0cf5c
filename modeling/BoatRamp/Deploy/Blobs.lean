import BoatRamp.Deploy.Records
import BoatRamp.Library.Machine

/-!
# Blobs

A blob is stored under the hash of its contents.  The contents are written
first and compared with the name afterwards; if they differ, the object is
deleted.  So an upload that fails is harmless only where nothing was stored.
-/

namespace BoatRamp.Deploy

open Library SortedMap Option List

abbrev Objects := SortedMap Text Octets

/-- Two bytes of the hash, a slash and the hash; cutting a letter in two aborts the call. -/
def blobKey (hash : Text) : Option Text :=
  if byteLength hash < 2 then some hash
  else
    match hash with
    | first :: second :: _ =>
        if first.utf8Size = 1 ∧ second.utf8Size = 1 then some (first :: second :: '/' :: hash)
        else if first.utf8Size = 2 then some (first :: '/' :: hash)
        else none
    | [first] => if first.utf8Size = 2 then some (first :: '/' :: hash) else none
    | [] => none

theorem blobKey_shape {h key : Text} (hn : blobKey h = some key) : (key = h ∧ byteLength h < 2) ∨
      (∃ x rest, h = x :: rest ∧ x.utf8Size = 2 ∧ key = x :: '/' :: h) ∨
      ∃ x y rest, h = x :: y :: rest ∧ x.utf8Size = 1 ∧ key = x :: y :: '/' :: h := by
  unfold blobKey at hn
  split at hn
  · next short => exact .inl ⟨(some.inj hn).symm, short⟩
  split at hn
  · next x y rest _ =>
    split at hn
    · next narrow => exact .inr (.inr ⟨x, y, rest, rfl, narrow.1, (some.inj hn).symm⟩)
    split at hn
    · next wide => exact .inr (.inl ⟨x, y :: rest, rfl, wide, (some.inj hn).symm⟩)
    · cases hn
  · next x _ =>
    split at hn
    · next wide => exact .inr (.inl ⟨x, [], rfl, wide, (some.inj hn).symm⟩)
    · cases hn
  · cases hn

theorem length_lt_two_of_byteLength {text : Text} (hs : byteLength text < 2) : text.length < 2 := by
  have hb : text.length ≤ byteLength text := by
    unfold byteLength
    rw [← length_map (f := Char.utf8Size)]
    exact length_le_sum_of_one_le _ (by
      intro s hi
      obtain ⟨c, _, rfl⟩ := mem_map.mp hi
      exact Char.utf8Size_pos c)
  omega

theorem blobKey_inj {x y key : Text} (one : blobKey x = some key)
    (ho : blobKey y = some key) : x = y := by
  have hsh {h : Text} (hsa : key = h) (hst : byteLength h < 2) :
      key.length < 2 := hsa ▸ length_lt_two_of_byteLength hst
  rcases blobKey_shape one with ⟨hsa, hst⟩ | ⟨a, as, rfl, hw, hs⟩ | ⟨a, b, as, rfl, hn, hs⟩ <;>
    rcases blobKey_shape ho with
      ⟨same', short'⟩ | ⟨c, cs, rfl, wide', shape'⟩ | ⟨c, d, cs, rfl, narrow', shape'⟩
  · exact hsa.symm.trans same'
  · exact absurd (hsh hsa hst) (by simp [shape'])
  · exact absurd (hsh hsa hst) (by simp [shape'])
  · exact absurd (hsh same' short') (by simp [hs])
  · simpa using hs.symm.trans shape'
  · obtain ⟨rfl, _⟩ := cons.inj (hs.symm.trans shape')
    omega
  · exact absurd (hsh same' short') (by simp [hs])
  · obtain ⟨rfl, _⟩ := cons.inj (hs.symm.trans shape')
    omega
  · exact (cons.inj (cons.inj (cons.inj (hs.symm.trans shape')).2).2).2

/-- What arrives of a body, and whether it breaks off with an error. -/
structure ByteStream where
  chunks : List Octets
  breaksOff : Bool

def ByteStream.received (body : ByteStream) : Octets := body.chunks.flatten

/-- What a backend leaves under the key of an object whose body broke off. -/
inductive Remains where
  | untouched
  | received
  | nothing

structure Backend where
  remains : Remains

/-- The backend of local files creates the file first and copies into it. -/
def fsStorage : Backend := ⟨.received⟩

def Backend.put (backend : Backend) (objects : Objects) (key : Text) (body : ByteStream) :
    Objects × Bool :=
  if body.breaksOff then
    match backend.remains with
    | .untouched => (objects, false)
    | .received => (objects.insert key body.received, false)
    | .nothing => (objects.erase key, false)
  else (objects.insert key body.received, true)

section Uploads

variable (backend : Backend) (sha256Hex : Octets → Text) (objects : Objects)

def hasBlob (hash : Text) : Bool :=
  ((blobKey hash).bind objects.get?).isSome

def putBlob (hash : Text) (body : ByteStream) :
    Objects × Except DeployError Unit :=
  match blobKey hash with
  | none => (objects, .error .aborted)
  | some key =>
      match backend.put objects key body with
      | (objects, false) => (objects, .error .storage)
      | (objects, true) =>
          let actual := sha256Hex body.received
          if actual ≠ hash then (objects.erase key, .error (.hashMismatch hash actual))
          else (objects, .ok ())

inductive BlobAction where
  | upload (hash : Text) (body : ByteStream)
  | collect (key : Text)

/-- Uploads, one after the other, and what garbage collection removes in between. -/
def blobMachine : Machine Objects BlobAction (Option (Except DeployError Unit)) where
  step objects
    | .upload hash body =>
        let (objects, result) := putBlob backend sha256Hex objects hash body
        (objects, some result)
    | .collect key => (objects.erase key, none)

/-- Every object is stored under the hash of its contents. -/
def Addressed : Prop :=
  ∀ key bytes, objects.get? key = some bytes → blobKey (sha256Hex bytes) = some key

/-- An upload that is not what its name says is complete and names nothing that is stored.  Where
the body breaks off, it depends on what the backend leaves. -/
def Harmless : BlobAction → Prop
  | .collect _ => True
  | .upload hash body =>
      match body.breaksOff, backend.remains with
      | true, .untouched => True
      | true, .received => sha256Hex body.received = hash
      | true, .nothing => hasBlob objects hash = false
      | false, _ => sha256Hex body.received = hash ∨ hasBlob objects hash = false

/-- Nothing else is stored that has the hash of the uploaded contents. -/
def CollisionFree : BlobAction → Prop
  | .collect _ => True
  | .upload _ body => ∀ key bytes, objects.get? key = some bytes →
      sha256Hex bytes = sha256Hex body.received → bytes = body.received

end Uploads

section Kept

variable {b : Backend} {sha256Hex : Octets → Text} {obs : Objects}

theorem get?_of_hasBlob {h key : Text} (hn : blobKey h = some key)
    (hm : hasBlob obs h = false) : obs.get? key = none := by
  rw [hasBlob, hn, bind_some] at hm
  exact not_isSome_iff_eq_none.mp (by simp [hm])

theorem putBlob_cases {h : Text} {bd : ByteStream} (hh : Harmless b sha256Hex obs (.upload h bd)) :
    (putBlob b sha256Hex obs h bd).1 = obs ∨
      ∃ key, blobKey h = some key ∧ sha256Hex bd.received = h ∧
        (putBlob b sha256Hex obs h bd).1 = obs.insert key bd.received := by
  unfold putBlob
  cases hn : blobKey h with
  | none => exact .inl rfl
  | some key =>
    simp only [Harmless] at hh
    unfold Backend.put
    cases hb : bd.breaksOff with
    | true =>
      rw [hb] at hh
      cases hr : b.remains with
      | untouched => exact .inl rfl
      | received =>
        rw [hr] at hh
        exact .inr ⟨key, rfl, hh, rfl⟩
      | nothing =>
        rw [hr] at hh
        left
        simp [erase_of_absent (get?_of_hasBlob hn hh)]
    | false =>
      rw [hb] at hh
      by_cases hm : sha256Hex bd.received = h
      · right
        exact ⟨key, rfl, hm, by simp [hm]⟩
      left
      have ha := get?_of_hasBlob hn (hh.resolve_left hm)
      simp [hm, erase_of_absent ha]

theorem step_keeps {act : BlobAction} (ha : Addressed sha256Hex obs)
    (hh : Harmless b sha256Hex obs act) (hc : CollisionFree sha256Hex obs act) :
    Addressed sha256Hex ((blobMachine b sha256Hex).step obs act).1 ∧
      ∀ key bs, obs.get? key = some bs → act ≠ .collect key →
        ((blobMachine b sha256Hex).step obs act).1.get? key = some bs := by
  cases act with
  | collect tg =>
    constructor
    · intro key bs hs
      change (obs.erase tg).get? key = some bs at hs
      rw [get?_erase] at hs
      split at hs
      · cases hs
      · exact ha key bs hs
    intro key bs hs ho
    have hap : key ≠ tg := fun hsa => ho (by rw [hsa])
    exact (obs.get?_erase_of_ne hap).trans hs
  | upload h bd =>
    change Addressed sha256Hex (putBlob b sha256Hex obs h bd).1 ∧
      ∀ key bs, obs.get? key = some bs → _ → (putBlob b sha256Hex obs h bd).1.get? key = some bs
    rcases putBlob_cases hh with hsa | ⟨tg, hn, hm, hs⟩
    · rw [hsa]
      exact ⟨ha, fun key bs hs _ => hs⟩
    rw [hs]
    constructor
    · intro key bs hf
      rw [get?_insert] at hf
      split at hf
      · next hsa =>
        cases hf
        rw [hm, hn, hsa]
      · exact ha key bs hf
    intro key bs hf _
    rw [get?_insert]
    split
    · next hsa =>
      have he := blobKey_inj (ha key bs hf) (hsa ▸ hn)
      rw [hc key bs hf (he.trans hm.symm)]
    · exact hf

end Kept

variable (backend : Backend) (sha256Hex : Octets → Text)

/-- If every upload is harmless, then after every part of a run all objects are stored under their
hashes, and in the rest of it they stay until they are collected. -/
theorem blobs_stay {first second : List BlobAction}
    (harmless : (blobMachine backend sha256Hex).Meets (Harmless backend sha256Hex) .empty
      (first ++ second))
    (collisionFree : (blobMachine backend sha256Hex).Meets (CollisionFree sha256Hex) .empty
      (first ++ second)) :
    Addressed sha256Hex ((blobMachine backend sha256Hex).final .empty first) ∧ ∀ key bytes,
        ((blobMachine backend sha256Hex).final .empty first).get? key = some bytes →
        .collect key ∉ second →
        ((blobMachine backend sha256Hex).final .empty (first ++ second)).get? key = some bytes := by
  obtain ⟨hh, hha⟩ := (Machine.meets_append _ _ _ _ _).mp harmless
  obtain ⟨hf, hfr⟩ := (Machine.meets_append _ _ _ _ _).mp collisionFree
  have had : Addressed sha256Hex ((blobMachine backend sha256Hex).final .empty first) := by
    apply Machine.invariant _ _ ((Machine.meets_and _ _ _ _ _).mpr ⟨hh, hf⟩)
    · intro objects act had ha
      exact (step_keeps had ha.1 ha.2).1
    · intro key bytes stored
      cases stored
  refine ⟨had, ?_⟩
  intro key bytes stored hu
  have hsp : (blobMachine backend sha256Hex).Meets (fun _ act => act ≠ .collect key)
      ((blobMachine backend sha256Hex).final .empty first) second :=
    Machine.meets_of_forall _ _ fun act hi hsa => hu (hsa ▸ hi)
  rw [Machine.final_append]
  have hs (objects : Objects) (act : BlobAction)
      (hk : Addressed sha256Hex objects ∧ objects.get? key = some bytes)
      (ha : (Harmless backend sha256Hex objects act ∧
        CollisionFree sha256Hex objects act) ∧ act ≠ .collect key) :
      Addressed sha256Hex ((blobMachine backend sha256Hex).step objects act).1 ∧
        ((blobMachine backend sha256Hex).step objects act).1.get? key = some bytes := by
    obtain ⟨hn, hp⟩ := step_keeps hk.1 ha.1.1 ha.1.2
    exact ⟨hn, hp key bytes hk.2 ha.2⟩
  have hm := (Machine.meets_and _ _ _ _ _).mpr ⟨(Machine.meets_and _ _ _ _ _).mpr ⟨hha, hfr⟩, hsp⟩
  exact (Machine.invariant hs ⟨had, stored⟩ hm).2

namespace Overwritten

def hashOfA : Text := "ca978112ca1bbdcafac231b39a23dc4da786eff8147c4f72b9807785afee48bb".toList

def hashOfB : Text := "3e23e8160039594a33894f6564e1b1348bbd7a0088d42c4acb73eeaed59c009d".toList

def digest (bytes : Octets) : Text := if bytes = [0x61] then hashOfA else hashOfB

def good : BlobAction := .upload hashOfA ⟨[[0x61]], false⟩

def bad : BlobAction := .upload hashOfA ⟨[[0x62]], false⟩

/-- The second upload is refused, and the blob of the first one is gone. -/
theorem good_blob_lost : ((blobMachine fsStorage digest).history .empty [good, bad]).map Prod.snd =
        [some (.ok ()), some (.error (.hashMismatch hashOfA hashOfB))] ∧
      hasBlob ((blobMachine fsStorage digest).final .empty [good]) hashOfA = true ∧
      hasBlob ((blobMachine fsStorage digest).final .empty [good, bad]) hashOfA = false := by
  decide +kernel

/-- A bad upload under another name leaves the blob alone. -/
theorem other_name_spared : ((blobMachine fsStorage digest).final .empty
        ([good] ++ [.upload hashOfB ⟨[[0x61]], false⟩])).get? ("ca/".toList ++ hashOfA) =
      some [0x61] := by
  have hh : (blobMachine fsStorage digest).Meets (Harmless fsStorage digest) .empty
      ([good] ++ [.upload hashOfB ⟨[[0x61]], false⟩]) := by
    refine ⟨.inl (by decide +kernel), .inr (by decide +kernel), trivial⟩
  have hc : (blobMachine fsStorage digest).Meets (CollisionFree digest) .empty
      ([good] ++ [.upload hashOfB ⟨[[0x61]], false⟩]) := by
    refine ⟨(fun key bs hs => by cases hs), ?_, trivial⟩
    intro key bs hs hsa
    change digest bs = hashOfA at hsa
    unfold digest at hsa
    split at hsa
    · next equal => exact equal
    · exact absurd hsa (by decide +kernel)
  apply (blobs_stay fsStorage digest hh hc).2
  · decide +kernel
  · simp

end Overwritten

end BoatRamp.Deploy
