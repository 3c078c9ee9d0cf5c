import BoatRamp.Messaging.Keys

/-!
# Queue records

The index record of a message, the compact state of a consumer group, and the
byte encodings under which both are stored.  `serde_json` is not part of the
repository: `Codec` takes its two directions as given, with the round trips
that the queue relies on.
-/

namespace BoatRamp.Messaging

def SCHEMA_VERSION : UInt32 := 1

structure Record where
  version : UInt32
  attempts : UInt32
  /-- Unix millis until which the message is leased; `0` is claimable now. -/
  leaseUntilMs : UInt64
  signedContext : Option Text
  /-- A small payload rides in the record; `none` means object storage. -/
  inline : Option (List UInt8)
  lastError : Option Text
  /-- `0` is no expiry. -/
  expiresAtMs : UInt64
  priority : UInt8
  deriving DecidableEq

/-- A freshly published record: never delivered, claimable immediately. -/
def Record.fresh (signedContext : Option Text) : Record where
  version := SCHEMA_VERSION
  attempts := 0
  leaseUntilMs := 0
  signedContext := signedContext
  inline := none
  lastError := none
  expiresAtMs := 0
  priority := 0

/-- One leased but unacked message of a consumer group. -/
structure InFlight where
  id : Text
  attempts : UInt32
  leaseUntilMs : UInt64
  deriving DecidableEq

/-- A consumer group's whole durable state: its high-water id and the leased
but unacked messages. -/
structure GroupState where
  version : UInt32
  hwm : Text
  inFlight : List InFlight
  deriving DecidableEq

def GroupState.new (hwm : Text) : GroupState where
  version := SCHEMA_VERSION
  hwm := hwm
  inFlight := []

def GroupState.ids (state : GroupState) : List Text := state.inFlight.map InFlight.id

/-- Where a new consumer group starts consuming. -/
inductive StartPosition where
  | latest
  | earliest

/-- Stored byte strings, with the encodings the queue writes and reads back. -/
class Codec (Bytes : Type) where
  /-- The value of a marker key. -/
  empty : Bytes
  recordToVec : Record → Bytes
  recordFromSlice : Bytes → Except Text Record
  groupToVec : GroupState → Bytes
  groupFromSlice : Bytes → Except Text GroupState
  intoBytes : Text → Bytes
  fromUtf8Lossy : Bytes → Text
  record_round : ∀ record, recordFromSlice (recordToVec record) = .ok record
  group_round : ∀ state, groupFromSlice (groupToVec state) = .ok state
  text_round : ∀ text, fromUtf8Lossy (intoBytes text) = text

attribute [simp] Codec.record_round Codec.group_round Codec.text_round

/-- Byte strings by what they encode: an executable reading of `Codec`. -/
inductive Stored where
  | empty
  | record (record : Record)
  | group (state : GroupState)
  | text (text : Text)
  deriving DecidableEq

instance : Codec Stored where
  empty := .empty
  recordToVec := .record
  recordFromSlice
    | .record record => .ok record
    | _ => .error "invalid type: expected struct Record".toList
  groupToVec := .group
  groupFromSlice
    | .group state => .ok state
    | _ => .error "invalid type: expected struct GroupState".toList
  intoBytes := .text
  fromUtf8Lossy
    | .text text => text
    | _ => []
  record_round _ := rfl
  group_round _ := rfl
  text_round _ := rfl

section Reading

variable {Bytes : Type} [Codec Bytes] (store : Store Bytes)

def readRecord (key : Text) : Option Record :=
  (store.get? key).bind fun raw => (Codec.recordFromSlice raw).toOption

def readText (key : Text) : Text :=
  ((store.get? key).map Codec.fromUtf8Lossy).getD []

def loadGroupState (topic group : Text) : Option GroupState :=
  (store.get? (gstateKey topic group)).bind
    (fun raw => (Codec.groupFromSlice raw).toOption)

theorem readRecord_eq_some_iff {s : Store Bytes} {key : Text} {r : Record} :
    readRecord s key = some r ↔
      ∃ raw, s.get? key = some raw ∧ Codec.recordFromSlice raw = .ok r := by
  simp only [readRecord, Option.bind_eq_some_iff]
  refine exists_congr fun raw => and_congr_right fun _ => ?_
  cases Codec.recordFromSlice raw <;> simp [Except.toOption]

theorem readRecord_congr {x y : Store Bytes} {key : Text}
    (hs : x.get? key = y.get? key) : readRecord x key = readRecord y key := by
  simp only [readRecord, hs]

theorem loadGroupState_congr {x y : Store Bytes} {t g : Text}
    (hs : x.get? (gstateKey t g) = y.get? (gstateKey t g)) :
    loadGroupState x t g = loadGroupState y t g := by
  simp only [loadGroupState, hs]

end Reading

end BoatRamp.Messaging
