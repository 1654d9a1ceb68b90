import FleetServer.Agent.Api
import FleetServer.Hosts.ConfigApi

/-!
# Hosts

Creating, enrolling, revoking and deleting hosts, and the two bulk requests.
-/

namespace FleetServer
namespace Hosts

open FleetServer.Core
open Storage
open Server
open Concurrency

variable (deps : Deps)

/-!
# create
-/

def tenantMissing : Response := Response.error 500 "tenant missing"

/-- The base URL without its trailing slashes. -/
def serverUrl : String :=
  String.ofList ((deps.config.baseUrl.toList.reverse.dropWhile fun c => c == '/').reverse)

/-- A bootstrap token for a host, issued at `now`. -/
def bootstrapToken (tenantId : Int) (hostId nonce : String) (now : Int) : String :=
  deps.encodeBootstrap
    { hostId := hostId, tenantId := tenantId, nonce := nonce, iat := now,
      exp := now + deps.config.bootstrapTtlSecs }

def installCommand (token : String) : String :=
  "nscp enroll --server " ++ serverUrl deps ++ " --token " ++ token

def createPending (request : Nat) (tenantId : Int) : Prog Response := do
  let nonce := deps.randomToken request 0
  let expiresAt := (← nowUnix) + deps.config.bootstrapTtlSecs
  executeOr (Statement.createPending (deps.ulid request 0) tenantId (deps.hashToken nonce)
    expiresAt) (Response.error 500 "create failed") fun host => do
      let token := bootstrapToken deps tenantId host.id nonce (← nowUnix)
      return Response.ok (Payload.hostCreated host.id token (serverUrl deps)
        (installCommand deps token) expiresAt)

def create (request : Nat) (who : AuthedUser) : Prog Response :=
  if !who.role.canAddHosts then return forbidden "add hosts"
  else
    askOr (Query.tenant who.tenantId) tenantMissing fun
      | none => return tenantMissing
      | some tenant =>
          let limits := deps.limits tenant.tier tenant.tierOverridesJson
          askOr (Query.countActive tenant.id) (Response.error 500 "count failed") fun active =>
            if limits.maxHosts ≤ active then
              return { status := 403,
                       payload := Payload.tierLimit limits.maxHosts active limits.name }
            else createPending deps request tenant.id

/-!
# revoke_host_certs
-/

def revokeHostCerts (request : Nat) (who : AuthedUser) (hostId : String) : Prog Response :=
  guarded (mayWrite who) fun () =>
  askOr (Query.tenant who.tenantId) tenantMissing fun
    | none => return tenantMissing
    | some tenant => do
        let nonce := deps.randomToken request 0
        let expiresAt := (← nowUnix) + deps.config.bootstrapTtlSecs
        executeOr (Statement.revokeCertsAndResetToPending who.tenantId hostId
          (deps.hashToken nonce) expiresAt) Response.internal fun
            | none => return notFound
            | some revoked => do
                -- No longer enrolled: its desired state is no longer anyone's to serve.
                forgetHost (who.tenantId, hostId)
                let token := bootstrapToken deps tenant.id hostId nonce (← nowUnix)
                return Response.ok (Payload.certsRevoked hostId revoked token
                  (installCommand deps token) expiresAt)

/-!
# desired
-/

def desiredView (host : Host) (ds : Server.DesiredState) : Response :=
  Response.ok (Payload.desired ds.stateHash (host.currentStateHash == some ds.stateHash)
    (ds.bundles.map DesiredBundleView.of))

def desired (who : AuthedUser) (hostId : String) : Prog Response :=
  askOr (Query.host who.tenantId hostId) Response.internal fun
    | none => return notFound
    | some host => do
        match ← Agent.computeDesiredState deps who.tenantId hostId with
        | Except.error _ => return Response.internal
        | Except.ok ds => return desiredView host ds

/-!
# delete_host
-/

def deleteHost (who : AuthedUser) (hostId : String) : Prog Response :=
  guarded (mayWrite who) fun () =>
  askOr (Query.host who.tenantId hostId) Response.internal fun
    | none => return notFound
    | some _ =>
        executeOr (Statement.deleteHost who.tenantId hostId) Response.internal fun
          | true => do
              forgetHost (who.tenantId, hostId)
              bumpCatalog who.tenantId CatalogChange.removed
              return Response.noContent
          | false => return notFound

/-!
# The bulk requests
-/

def bulkMaxHosts : Nat := 1000

/-- Each id once, in the order first sent. -/
def dedupIds (hostIds : List String) : List String :=
  (hostIds.reverse.dedup).reverse

def validateBulkIds (hostIds : List String) : Except Response (List String) :=
  let ids := dedupIds hostIds
  if ids.isEmpty then Except.error (Response.error 400 "host_ids is empty")
  else if bulkMaxHosts < ids.length then
    Except.error (Response.error 400
      ("too many hosts (max " ++ toString bulkMaxHosts ++ ")"))
  else Except.ok ids

/-- The answer to a batch, once what it deleted is off the catalog. -/
def bulkDeleted (tenantId : Int) (deleted : Nat) (missing : List String) :
    Prog Response := do
  if 0 < deleted then bumpCatalog tenantId CatalogChange.removed
  return Response.ok (Payload.bulk deleted missing)

/-- The rest of the batch; an error ends the request at once. -/
def bulkDeleteLoop (tenantId : Int) (deleted : Nat) (missing : List String) :
    List String -> Prog Response
  | [] => bulkDeleted tenantId deleted missing
  | hostId :: rest =>
      askOr (Query.host tenantId hostId) Response.internal fun
        | none => bulkDeleteLoop tenantId deleted (missing ++ [hostId]) rest
        | some _ =>
            executeOr (Statement.deleteHost tenantId hostId) Response.internal fun
              | true => do
                  forgetHost (tenantId, hostId)
                  bulkDeleteLoop tenantId (deleted + 1) missing rest
              | false => bulkDeleteLoop tenantId deleted (missing ++ [hostId]) rest

def bulkDelete (who : AuthedUser) (hostIds : List String) : Prog Response :=
  guarded (mayWrite who) fun () =>
  guarded (validateBulkIds hostIds) fun ids =>
    bulkDeleteLoop who.tenantId 0 [] ids

structure BulkTagsBody where
  hostIds : List String
  set : List (String × String)
  remove : List String

def checkBulkTags (body : BulkTagsBody) : Except Response (List String) := do
  let ids ← validateBulkIds body.hostIds
  if body.set.isEmpty ∧ body.remove.isEmpty then
    Except.error (Response.error 400 "nothing to set or remove")
  else if (body.set.map Prod.fst ++ body.remove).any fun key =>
      (trim key).isEmpty || decide (128 < byteLen key) then
    Except.error (Response.error 400 "invalid key")
  else return ids

/-- Set the tags of one host; `next` is told whether anything changed. -/
def bulkSet (tenantId : Int) (hostId : String) (changed : Bool)
    (next : Bool -> Prog Response) : List (String × String) -> Prog Response
  | [] => next changed
  | tag :: rest =>
      upsertManualTag tenantId hostId tag.1 tag.2 Response.internal fun c =>
        bulkSet tenantId hostId (changed || c) next rest

def bulkRemove (tenantId : Int) (hostId : String) (changed : Bool)
    (next : Bool -> Prog Response) : List String -> Prog Response
  | [] => next changed
  | key :: rest =>
      executeOr (Statement.deleteManualTag tenantId hostId key) Response.internal fun c =>
        bulkRemove tenantId hostId (changed || c) next rest

/-- Drop the touched hosts' entries, then answer. -/
def bulkTagged (tenantId : Int) (updated : Nat) (missing : List String) :
    List String -> Prog Response
  | [] => return Response.ok (Payload.bulk updated missing)
  | hostId :: rest => do
      invalidateHost (tenantId, hostId)
      bulkTagged tenantId updated missing rest

/-- The rest of the batch.  What was touched is only invalidated at its end. -/
def bulkTagsLoop (tenantId : Int) (body : BulkTagsBody) (updated : Nat)
    (missing touched : List String) : List String -> Prog Response
  | [] => bulkTagged tenantId updated missing touched
  | hostId :: rest =>
      askOr (Query.host tenantId hostId) Response.internal fun
        | none => bulkTagsLoop tenantId body updated (missing ++ [hostId]) touched rest
        | some _ =>
            bulkSet tenantId hostId false (fun changed =>
              bulkRemove tenantId hostId changed (fun changed =>
                bulkTagsLoop tenantId body (updated + 1) missing
                  (if changed then touched ++ [hostId] else touched) rest)
                body.remove)
              body.set

def bulkTags (who : AuthedUser) (body : BulkTagsBody) : Prog Response :=
  guarded (mayWrite who) fun () =>
  guarded (checkBulkTags body) fun ids =>
    bulkTagsLoop who.tenantId body 0 [] [] ids

/-!
# enroll
-/

structure EnrollBody where
  bootstrapToken : String
  csrPem : String
  hostname : Option String
  os : Option String

def maxHostDescriptorLen : Nat := 256

/-- What a host says about itself, trimmed and bounded. -/
def clampDescriptor (v : Option String) : Option String :=
  ((v.map trim).filter fun s => !s.isEmpty).map fun s =>
    String.ofList (s.toList.take maxHostDescriptorLen)

def nonceSpent : Response :=
  Response.error 401 "bootstrap nonce already used or expired"

/-- Burn the nonce and record the certificate, then answer. -/
def finishEnroll (claims : BootstrapClaims) (body : EnrollBody) (secrets : TenantSecretsRow)
    (issued : SignedCert) : Prog Response :=
  executeOr (Statement.enroll claims.tenantId claims.hostId (deps.hashToken claims.nonce)
    (clampDescriptor body.hostname) (clampDescriptor body.os) (Agent.enrolledCert issued))
    Response.internal fun
      | true => return Response.ok (Payload.enrolled issued.certPem secrets.caCertPem
          secrets.bundleSigningPubPem deps.config.baseUrl deps.config.agentMtlsUrl
          deps.config.mtlsServerCertPem)
      | false => return nonceSpent

def signEnrollment (request : Nat) (claims : BootstrapClaims) (body : EnrollBody)
    (tenant : Tenant) (secrets : TenantSecretsRow) : Prog Response :=
  guarded (Agent.caKeyPem deps claims.tenantId secrets) fun caKey => do
    let now ← nowUnix
    match deps.signClientCert request now body.csrPem secrets.caCertPem caKey tenant.slug
        claims.hostId with
    | Except.error e => return Response.error 400 ("sign failed: " ++ e)
    | Except.ok issued => finishEnroll deps claims body secrets issued

def enrollTenant (request : Nat) (claims : BootstrapClaims) (body : EnrollBody) :
    Prog Response :=
  askOr (Query.tenant claims.tenantId) (Response.error 401 "tenant missing") fun
    | none => return Response.error 401 "tenant missing"
    | some tenant =>
        askOr (Query.tenantSecrets claims.tenantId)
          (Response.error 500 "tenant secrets missing") fun
            | none => return Response.error 500 "tenant secrets missing"
            | some secrets => signEnrollment deps request claims body tenant secrets

/-- `admitted` says whether both enrollment rate limits let the request pass. -/
def enroll (request : Nat) (admitted : Bool) (body : EnrollBody) : Prog Response := do
  let now ← nowUnix
  match deps.decodeBootstrap body.bootstrapToken now with
  | none => return Response.error 401 "invalid bootstrap token"
  | some claims =>
      if !admitted then return Response.error 429 "enrollment rate limit exceeded"
      else
        -- The burn below checks all of this again.
        askOr (Query.bootstrapPending claims.tenantId claims.hostId
          (deps.hashToken claims.nonce)) Response.internal fun
            | true => enrollTenant deps request claims body
            | false => return nonceSpent

end Hosts
end FleetServer
