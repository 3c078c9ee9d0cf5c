import BoatRamp.Deploy.Records

/-!
# Verification of hosts

A challenge is started for a host of a site, marked verified once a probe has
found its token, and removed when the host is detached.  A wildcard and its
base name share one challenge.
-/

namespace BoatRamp.Deploy

open Library

variable {Settings : Type}

def CHALLENGE_TTL_SECS : Nat := 7 * 24 * 60 * 60

def MAX_PENDING_VERIFICATIONS_PER_SITE : Nat := 64

namespace DomainVerification

def new (host : Text) (method : VerificationMethod) (nowUnix : Nat) (token : Text) :
    DomainVerification where
  host := normalizeHost host
  token := token
  method := method
  verified := false
  createdAtUnix := nowUnix

variable (verification : DomainVerification)

/-- A verified one never expires, an unstamped pending one always has. -/
def isExpired (nowUnix : Nat) : Bool :=
  if verification.verified then false
  else if verification.createdAtUnix = 0 then true
  else decide (CHALLENGE_TTL_SECS < nowUnix - verification.createdAtUnix)

def isMatch (value : Text) : Bool :=
  trim value = verification.token

def dnsRecordName : Text :=
  "_boatramp-verify.".toList ++ normalizeHost verification.host

def httpChallengeUrl : Text :=
  "http://".toList ++ verification.host ++
    "/.well-known/boatramp-domain-verification/".toList ++ verification.token

end DomainVerification

inductive VerifyError where
  | probe (message : Text)
  | unsupported (method : VerificationMethod)

/-- What the network answers while a check runs. -/
structure DomainProbe where
  lookupTxt : Text → Except VerifyError (List Text)
  fetchHttp : Text → Except VerifyError Text

/-- Whether the network shows the token where its method asks for it. -/
def checkOwnership (probe : DomainProbe) (verification : DomainVerification) :
    Except VerifyError Bool :=
  match verification.method with
  | .dns => do
      let values ← probe.lookupTxt verification.dnsRecordName
      return values.any verification.isMatch
  | .http => do
      let body ← probe.fetchHttp verification.httpChallengeUrl
      return verification.isMatch body

variable (kv : Kv Settings)

def getDomainVerification (project site host : Text) :
    Except DeployError (Option DomainVerification) :=
  match kv.get? (domainVerificationKey project site host) with
  | none => .ok none
  | some (.verification verification) => .ok (some verification)
  | some _ => .error .serde

def isDomainVerified (project site host : Text) : Except DeployError Bool := do
  let verification ← getDomainVerification kv project site host
  return (verification.map DomainVerification.verified).getD false

def listDomainVerifications (project site : Text) :
    Except DeployError (List DomainVerification) :=
  (kv.scan (domainVerificationPrefix project site)).mapM (fun entry =>
    match entry.2 with
    | .verification verification => .ok verification
    | _ => .error .serde)

def putDomainVerification (project site : Text)
    (verification : DomainVerification) : Kv Settings :=
  writeBatch kv (.put (domainVerificationKey project site verification.host)
      (.verification verification) ::
    match verification.method with
    | .http => [.put (httpChallengeIndexKey verification.host verification.token)
        (.owner ⟨project, site, none⟩)]
    | .dns => [])

def startDomainVerification (project site host : Text)
    (method : VerificationMethod) (nowUnix : Nat) (token : Text) :
    Except DeployError (Kv Settings × DomainVerification) := do
  let existing ← getDomainVerification kv project site host
  match existing.filter (fun existing => existing.verified || existing.method = method) with
  | some existing => return (kv, existing)
  | none =>
      let listed ← listDomainVerifications kv project site
      let pending := listed.filter fun listed => !listed.verified && !listed.isExpired nowUnix
      if MAX_PENDING_VERIFICATIONS_PER_SITE ≤ pending.length then
        .error (.conflict ("too many pending domain verifications for site ".toList ++ site ++
          " (max 64); verify or remove some first".toList))
      else
        let verification := DomainVerification.new host method nowUnix token
        return (putDomainVerification kv project site verification, verification)

def markDomainVerified (project site host : Text) :
    Except DeployError (Kv Settings × DomainVerification) := do
  let stored ← getDomainVerification kv project site host
  match stored with
  | none => .error (.notFound ("no verification challenge for ".toList ++ host))
  | some verification =>
      let verification := { verification with verified := true }
      return (putDomainVerification kv project site verification, verification)

def removeDomainVerification (project site host : Text) :
    Except DeployError (Kv Settings × Bool) := do
  let stored ← getDomainVerification kv project site host
  match stored with
  | none => return (kv, false)
  | some verification =>
      let ops := .delete (domainVerificationKey project site host) ::
        match verification.method with
        | .http => [.delete (httpChallengeIndexKey verification.host verification.token)]
        | .dns => []
      return (writeBatch kv ops, true)

end BoatRamp.Deploy
