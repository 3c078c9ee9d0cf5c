import BoatRamp.Messaging.Ids

/-!
# Messages and dead letters

What the queue hands out and what its operators see: claimed messages, dead
letters, the filter over them, and the sanitised failure reason.  Both
coordinators, the single node and the cluster, use these.
-/

namespace BoatRamp.Messaging

abbrev Payload := List UInt8

/-- Payloads up to this many bytes may ride in the index record. -/
def INLINE_MAX : Nat := 4096

/-- The inlined bytes a node keeps in flight before publishes go to object storage. -/
def INLINE_INFLIGHT_MAX_BYTES : Nat := 32 * 1024 * 1024

inductive MessagingError where
  | backend (text : Text)
  | decode (text : Text)
  deriving DecidableEq

/-- A message leased to a consumer; `group` is empty on the work queue. -/
structure ClaimedMessage where
  id : Text
  topic : Text
  payload : Payload
  attempts : UInt32
  group : Text
  signedContext : Option Text
  inline : Bool
  deriving DecidableEq

abbrev Duration := Nat

/-- Whole milliseconds, cut to a machine word. -/
def Duration.asMillis (duration : Duration) : UInt64 := UInt64.ofNat (duration / 1000000)

def saturatingAdd (first second : UInt64) : UInt64 :=
  if first.toNat + second.toNat < UInt64.size then first + second
  else UInt64.ofNat (UInt64.size - 1)

def saturatingSub (first second : UInt64) : UInt64 :=
  if second ≤ first then first - second else 0

/-- The time until which a nacked message stays leased. -/
def nackUntil (nowMs delayMs : UInt64) : UInt64 :=
  if delayMs = 0 then 0 else saturatingAdd nowMs delayMs

def LAST_ERROR_MAX : Nat := 256

def isControl (letter : Char) : Bool :=
  letter.toNat < 32 || (127 ≤ letter.toNat && letter.toNat < 160)

/-- Replace control characters and stop before the size in bytes passes the bound. -/
def boundedReason : Text → (size : Nat) → Text
  | [], _ => []
  | letter :: rest, size =>
      let shown := if isControl letter then ' ' else letter
      if LAST_ERROR_MAX < size + shown.utf8Size then []
      else shown :: boundedReason rest (size + shown.utf8Size)

def sanitizeReason (reason : Text) : Text := trim (boundedReason reason 0)

/-- A dead letter as listed, without its payload; `group` is empty on the work
queue. -/
structure DeadLetter where
  id : Text
  group : Text
  attempts : UInt32
  lastError : Option Text
  signedContext : Option Text

def DeadLetter.of (group id : Text) (record : Record) : DeadLetter :=
  ⟨id, group, record.attempts, record.lastError, record.signedContext⟩

/-- A dead record made claimable again: a fresh life with its context, payload
and priority kept. -/
def Record.rearmed (record : Record) : Record :=
  { record with attempts := 0, leaseUntilMs := 0, lastError := none, expiresAtMs := 0 }

/-- Every set field must match; `limit` caps what is acted on. -/
structure DeadLetterFilter where
  id : Option Text
  group : Option Text
  olderThanMs : Option UInt64
  matchLastError : Option Text
  limit : Option Nat

def idAgeMs (id : Text) (nowMs : UInt64) : Option UInt64 :=
  (parseU64 (beforeDash id)).map (saturatingSub nowMs)

def DeadLetterFilter.matches (filter : DeadLetterFilter) (letter : DeadLetter)
    (nowMs : UInt64) : Bool :=
  (filter.id.all fun id => decide (letter.id = id)) &&
    (filter.group.all fun group => decide (letter.group = group)) &&
    (filter.olderThanMs.all fun older =>
      (idAgeMs letter.id nowMs).any fun age => decide (older ≤ age)) &&
    filter.matchLastError.all fun needle =>
      letter.lastError.any fun error => decide (needle <:+: error)

/-- The dead letters an operation acts on: those that match, in id order, up to
the limit. -/
def DeadLetterFilter.select (filter : DeadLetterFilter) (letters : List DeadLetter)
    (nowMs : UInt64) : List DeadLetter :=
  let matched := letters.filter fun letter => filter.matches letter nowMs
  match filter.limit with
  | none => matched
  | some limit => matched.take limit

theorem DeadLetterFilter.select_sublist (f : DeadLetterFilter) (cs : List DeadLetter)
    (nm : UInt64) : (f.select cs nm).Sublist cs := by
  unfold select
  dsimp only
  split
  · exact List.filter_sublist
  · exact (List.take_sublist _ _).trans List.filter_sublist

end BoatRamp.Messaging
