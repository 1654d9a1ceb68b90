import FleetServer.Facts.Store

/-!
# The facts hash in both directions

What a poll or a report learns about the hash the server holds, when an empty
document may replace an inventory, and the upload of a document.
-/

namespace FleetServer
namespace Facts

open FleetServer.Core
open Storage
open Server
open Concurrency

variable (deps : Deps)

def emptyClearGraceSecs : Int := 600

/-!
# When an empty document clears an inventory
-/

inductive EmptyOverInventory where
  | notApplicable
  | pending
  | due
deriving DecidableEq

def holdsInventory (h : FactsHashes) : Bool :=
  h.held.any fun held => held != emptyFactsHash

/-- Whether the empty document was reported for the whole grace period. -/
def emptyForLongEnough (h : FactsHashes) (now : Int) : Bool :=
  h.reported == some emptyFactsHash &&
    h.reportedSince.any fun since => decide (emptyClearGraceSecs ≤ now - since)

def emptyOverInventory (h : FactsHashes) (hash : String) (now : Int) : EmptyOverInventory :=
  if hash ≠ emptyFactsHash || !holdsInventory h then EmptyOverInventory.notApplicable
  else if emptyForLongEnough h now then EmptyOverInventory.due
  else EmptyOverInventory.pending

/-!
# advertise
-/

/-- Forget what the agent last said, when it no longer says anything. -/
def forgetReported (tenantId : Int) (hostId : String) : Prog Unit :=
  askOr (Query.factsHashes tenantId hostId) () fun hashes =>
    if (hashes.bind FactsHashes.reported).isSome then
      executeLogged (Statement.clearReportedHash tenantId hostId)
    else return ()

/-- Record what the agent says it holds, if that moved. -/
def recordReported (tenantId : Int) (hostId reported : String) (hashes : FactsHashes) :
    Prog Unit :=
  if hashes.reported ≠ some reported then
    executeLogged (Statement.setReportedHash tenantId hostId reported)
  else return ()

def clearWhenDue (tenantId : Int) (hostId reported : String) (hashes : FactsHashes)
    (now : Int) : Prog (Option String) :=
  match emptyOverInventory hashes reported now with
  | EmptyOverInventory.notApplicable => return hashes.held
  | EmptyOverInventory.pending => return some emptyFactsHash
  | EmptyOverInventory.due => do
      match ← store deps tenantId hostId agentSource emptyFactsHash "{}" none with
      | Except.ok ReplaceOutcome.stored => return some emptyFactsHash
      | Except.ok ReplaceOutcome.unchanged => return some emptyFactsHash
      | Except.ok _ => return hashes.held
      | Except.error _ => return hashes.held

/-- The header for this host, recording the reported hash on the way; `none`
when the host cannot be read. -/
def advertise (tenantId : Int) (hostId : String) (reported : Option String) :
    Prog (Option String) :=
  match reported.bind normalizeHash with
  | none => do
      forgetReported tenantId hostId
      return some factsHashNone
  | some reported =>
      askOr (Query.factsHashes tenantId hostId) none fun
        | none => return none
        | some hashes => do
            recordReported tenantId hostId reported hashes
            let now ← nowUnix
            let advertised ← clearWhenDue deps tenantId hostId reported hashes now
            return some (advertised.getD factsHashNone)

/-!
# upload
-/

/-- The body as it came off the connection. -/
inductive UploadBody where
  | tooLarge
  | unreadable
  | bytes (body : Bytes)

def refuse (ctx : PeerHostContext) (status : Nat) (hash : Option String)
    (message : String) : Prog Response := do
  executeLogged (Statement.recordRefusal ctx.tenantId ctx.hostId status hash)
  return Response.error status message

/-- The agent holds what it just sent. -/
def uploadAccepted (ctx : PeerHostContext) (upload : FactsUpload) : Prog Response := do
  executeLogged (Statement.setReportedHash ctx.tenantId ctx.hostId upload.factsHash)
  return (Response.ok (Payload.json (Json.object []))).withHeader (some upload.factsHash)

/-- Only the collection time of a document already held can have moved. -/
def refreshCollected (ctx : PeerHostContext) (upload : FactsUpload) : Prog Unit :=
  match upload.collectedAt with
  | none => return ()
  | some collectedAt =>
      executeLogged (Statement.refreshCollectedAt ctx.tenantId ctx.hostId agentSource
        upload.factsHash collectedAt)

def storeUpload (ctx : PeerHostContext) (upload : FactsUpload) : Prog Response := do
  match ← store deps ctx.tenantId ctx.hostId agentSource upload.factsHash upload.facts
      upload.collectedAt with
  | Except.ok ReplaceOutcome.stored => uploadAccepted ctx upload
  | Except.ok ReplaceOutcome.unchanged => uploadAccepted ctx upload
  | Except.ok ReplaceOutcome.conflict => return Response.error 503 "busy"
  | Except.ok ReplaceOutcome.noHost => return Response.error 404 "host not found"
  | Except.error _ => return Response.internal

def uploadParsed (ctx : PeerHostContext) (upload : FactsUpload) : Prog Response :=
  askOr (Query.factsHashes ctx.tenantId ctx.hostId) Response.internal fun
    | none => return Response.error 404 "host not found"
    | some hashes =>
        if hashes.held = some upload.factsHash then do
          refreshCollected ctx upload
          uploadAccepted ctx upload
        else do
          let now ← nowUnix
          -- An empty document over a real one waits out the grace period.
          if emptyOverInventory hashes upload.factsHash now = EmptyOverInventory.pending then
            uploadAccepted ctx upload
          else storeUpload deps ctx upload

def upload (ctx : PeerHostContext) (body : UploadBody) : Prog Response :=
  match body with
  | UploadBody.tooLarge => refuse ctx 413 none "facts upload too large"
  | UploadBody.unreadable => return Response.error 503 "body could not be read"
  | UploadBody.bytes bytes =>
      match deps.parseUpload bytes with
      | Except.error e => refuse ctx 400 e.declaredHash e.message
      | Except.ok upload => uploadParsed deps ctx upload

end Facts
end FleetServer
