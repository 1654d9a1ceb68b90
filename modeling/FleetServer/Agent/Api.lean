import FleetServer.Agent.DesiredState
import FleetServer.Facts.Exchange

/-!
# The agents' requests

Every agent request passes the tier layer, which checks the presented
certificate's standing first.  Whether the rate limiters admit the request is
part of the request.
-/

namespace FleetServer
namespace Agent

open FleetServer.Core
open Storage
open Server
open Concurrency

variable (deps : Deps)

/-!
# The tier layer
-/

/-- Retire what a newer certificate leaves behind; a failure is only logged. -/
def retireIfSuperseded (ctx : PeerHostContext) (standing : CertStanding) : Prog Unit :=
  if 0 < standing.superseded then
    executeLogged (Statement.retireSuperseded ctx.tenantId ctx.hostId ctx.serialHex)
  else return ()

def tierLayer (ctx : PeerHostContext) (admitted : Bool) (next : Prog Response) :
    Prog Response :=
  askOr (Query.certStanding ctx.tenantId ctx.hostId ctx.serialHex) Response.internal
    fun standing =>
      if !standing.active then return Response.error 403 "cert revoked or unknown"
      else do
        retireIfSuperseded ctx standing
        askOr (Query.tenant ctx.tenantId) Response.internal fun
          | none => return Response.error 403 "tenant missing"
          | some _ =>
              if !admitted then return Response.error 429 "rate limited"
              else next

/-!
# heartbeat
-/

def heartbeat (ctx : PeerHostContext) : Prog Response := do
  executeLogged (Statement.touchLastSeen ctx.tenantId ctx.hostId)
  return Response.ok (Payload.json (Json.object []))

/-!
# desired_state
-/

def lastSeenRefreshSecs : Int := 300

structure DesiredStateQuery where
  currentHash : Option String
  factsHash : Option String

/-- The tier and the version a poll goes by; a tenant that cannot be read has
neither. -/
def pollTenant (r : Except DbError (Option Tenant)) : TierLimits × Option Int :=
  match r with
  | Except.ok (some t) => (deps.limits t.tier t.tierOverridesJson, some t.configVersion)
  | _ => (Tier.free, none)

def computeForPoll (ctx : PeerHostContext) (configVersion : Option Int) :
    Prog (Except ComputeError DesiredState) :=
  match configVersion with
  | some v => computeThroughCache deps ctx.tenantId ctx.hostId v
  | none => computeUncached deps ctx.tenantId ctx.hostId

def bundleRef (b : DesiredBundle) : BundleRef :=
  { id := b.id, name := b.name, version := b.version, sha256 := b.sha256,
    signature := b.signature, priority := b.priority,
    url := "/agent/v1/bundles/" ++ b.id, format := b.format }

def pollAnswer (ctx : PeerHostContext) (q : DesiredStateQuery) (nextPoll : Nat)
    (ds : DesiredState) : Response :=
  if q.currentHash = some ds.stateHash then
    { status := 304, payload := Payload.notModified nextPoll }
  else
    Response.ok (Payload.desiredState ctx.tenantId ds.stateHash nextPoll ds.mergedConfig
      (ds.bundles.map bundleRef))

def desiredState (ctx : PeerHostContext) (q : DesiredStateQuery) : Prog Response := do
  let (tier, configVersion) := pollTenant deps (← ask (Query.tenant ctx.tenantId))
  executeLogged
    (Statement.touchLastSeenIfStale ctx.tenantId ctx.hostId lastSeenRefreshSecs)
  let factsHeader ← Facts.advertise deps ctx.tenantId ctx.hostId q.factsHash
  match ← computeForPoll deps ctx configVersion with
  | Except.error _ => return Response.internal
  | Except.ok ds =>
      return (pollAnswer ctx q tier.minPollIntervalSecs ds).withHeader factsHeader

/-!
# download
-/

def contentTypeOf (bytes : Bytes) : String :=
  if EncBundle.isEncrypted bytes then "application/octet-stream" else "application/zip"

/-- A host may fetch the bundles of its desired state. -/
def download (ctx : PeerHostContext) (bundleId : String) : Prog Response := do
  match ← computeDesiredState deps ctx.tenantId ctx.hostId with
  | Except.error _ => return Response.internal
  | Except.ok ds =>
      if !ds.bundles.any fun b => b.id == bundleId then
        return Response.error 403 "bundle not assigned to this host"
      else
        match ← storeGet ctx.tenantId bundleId with
        | Except.error _ => return Response.error 404 "bundle bytes missing"
        | Except.ok bytes => return Response.ok (Payload.file (contentTypeOf bytes) bytes)

/-!
# state_report
-/

structure StateReport where
  appliedStateHash : Option String
  /-- The host's own tags, by distinct keys; `none` says nothing about them. -/
  reportedTags : Option (List (String × String))
  localConfigPresent : Option Bool
  hostOverrideLast : Option Bool
  factsHash : Option String

def validStateHash (h : String) : Bool :=
  byteLen h == 64 && h.toList.all isAsciiHexdigit

def checkReportedTags (tags : List (String × String)) : Except String Unit :=
  if maxTagsPerHost < tags.length then Except.error "too many tags"
  else
    match tags.find? fun t => (trim t.1).isEmpty || decide (maxKeyLen < byteLen t.1) ||
        decide (maxValueLen < byteLen t.2) with
    | none => Except.ok ()
    | some t =>
        if (trim t.1).isEmpty || decide (maxKeyLen < byteLen t.1) then
          Except.error "tag key is empty or too long"
        else Except.error "tag value is too long"

def reportFlags (ctx : PeerHostContext) (body : StateReport) : Prog Unit := do
  match body.localConfigPresent with
  | some present =>
      executeLogged (Statement.setLocalConfigPresent ctx.tenantId ctx.hostId present)
  | none => pure ()
  -- Silence means an agent on which bundles beat the override.
  executeLogged
    (Statement.setHostOverrideLast ctx.tenantId ctx.hostId (body.hostOverrideLast.getD false))

def reportFacts (ctx : PeerHostContext) (body : StateReport) : Prog Response := do
  let factsHeader ← Facts.advertise deps ctx.tenantId ctx.hostId body.factsHash
  return (Response.ok (Payload.json (Json.object []))).withHeader factsHeader

def reportTags (ctx : PeerHostContext) (body : StateReport) : Prog Response :=
  match body.reportedTags with
  | none => reportFacts deps ctx body
  | some reported =>
      match checkReportedTags reported with
      | Except.error message => return Response.error 400 message
      | Except.ok () =>
          executeOr (Statement.replaceAgentTags ctx.tenantId ctx.hostId reported)
            Response.internal fun changed => do
              if changed then invalidateHost (ctx.tenantId, ctx.hostId)
              reportFacts deps ctx body

def reportRest (ctx : PeerHostContext) (body : StateReport) : Prog Response := do
  reportFlags ctx body
  reportTags deps ctx body

def stateReport (ctx : PeerHostContext) (body : StateReport) : Prog Response :=
  match body.appliedStateHash with
  | some hash =>
      if !validStateHash hash then
        return Response.error 400 "applied_state_hash must be 64 hex characters"
      else
        executeOr (Statement.updateCurrentStateHash ctx.tenantId ctx.hostId hash)
          Response.internal fun _ => reportRest deps ctx body
  | none => do
      executeLogged (Statement.touchLastSeen ctx.tenantId ctx.hostId)
      reportRest deps ctx body

/-!
# renew
-/

def caKeyPem (tenantId : Int) (secrets : TenantSecretsRow) : Except Response String :=
  match deps.decrypt (Purpose.tenantCaKey tenantId) secrets.caKeyEncrypted with
  | Except.error _ => Except.error (Response.error 500 "ca key decrypt failed")
  | Except.ok bytes =>
      match Deps.fromUtf8 bytes with
      | none => Except.error (Response.error 500 "ca key corrupt")
      | some s => Except.ok s

def enrolledCert (issued : SignedCert) : EnrolledCert :=
  { serial := issued.serialHex, fingerprintSha256 := issued.fingerprintSha256Hex,
    issuedAt := issued.notBeforeUnix, expiresAt := issued.notAfterUnix }

def recordRenewed (ctx : PeerHostContext) (secrets : TenantSecretsRow)
    (issued : SignedCert) : Prog Response :=
  executeOr (Statement.recordCert ctx.tenantId ctx.hostId (enrolledCert issued))
    (Response.error 500 "record failed") fun _ =>
      return Response.ok (Payload.renewed issued.certPem secrets.caCertPem
        deps.config.mtlsServerCertPem secrets.bundleSigningPubPem)

def renew (request : Nat) (ctx : PeerHostContext) (csrPem : String) : Prog Response :=
  askOr (Query.tenantSecrets ctx.tenantId) (Response.error 500 "tenant secrets missing") fun
    | none => return Response.error 500 "tenant secrets missing"
    | some secrets =>
        guarded (caKeyPem deps ctx.tenantId secrets) fun caKey => do
          let now ← nowUnix
          match deps.signClientCert request now csrPem secrets.caCertPem caKey ctx.tenantSlug
              ctx.hostId with
          | Except.error e => return Response.error 400 ("sign failed: " ++ e)
          | Except.ok issued => recordRenewed deps ctx secrets issued

end Agent
end FleetServer
