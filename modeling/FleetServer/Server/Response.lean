import FleetServer.Server.World

/-!
# Requests' callers and answers
-/

namespace FleetServer
namespace Server

open FleetServer.Core
open Storage

/-!
# Who asks
-/

inductive Role where
  | owner
  | admin
  | addHosts
  | viewOnly
deriving DecidableEq

def Role.canWriteConfig : Role -> Bool
  | owner => true
  | admin => true
  | addHosts => false
  | viewOnly => false

def Role.canAddHosts : Role -> Bool
  | owner => true
  | admin => true
  | addHosts => true
  | viewOnly => false

structure AuthedUser where
  userId : Int
  tenantId : Int
  role : Role

/-- The host a client certificate was resolved to. -/
structure PeerHostContext where
  tenantId : Int
  tenantSlug : String
  hostId : String
  serialHex : String

/-!
# What is answered
-/

structure BundleView where
  id : String
  name : String
  version : String
  sha256 : String
  sizeBytes : Int
  signature : String
  uploadedAt : Int
  format : String
  keyFingerprint : Option String

def BundleView.of (b : BundleRow) : BundleView :=
  { id := b.id, name := b.name, version := b.version, sha256 := b.sha256,
    sizeBytes := b.sizeBytes, signature := b.signature, uploadedAt := b.uploadedAt,
    format := b.format, keyFingerprint := b.keyFingerprint }

structure GroupView where
  id : String
  name : String
  selector : Json
  createdAt : Int

structure BundleRef where
  id : String
  name : String
  version : String
  sha256 : String
  url : String
  signature : String
  priority : Int
  format : String

structure DesiredBundleView where
  id : String
  name : String
  version : String
  sha256 : String
  priority : Int
  format : String

def DesiredBundleView.of (b : DesiredBundle) : DesiredBundleView :=
  { id := b.id, name := b.name, version := b.version, sha256 := b.sha256,
    priority := b.priority, format := b.format }

inductive RowStatus where
  | matched (hostId : String) (hostname : Option String)
  | ambiguous (hostIds : List String)
  | unmatched
  | duplicate (hostId : String) (of : Nat)
  | skipped

structure RowView where
  index : Nat
  status : RowStatus

structure ResolveStats where
  matched : Nat
  ambiguous : Nat
  unmatched : Nat
  duplicate : Nat
  skipped : Nat

/-- A host no row resolved to; `hasSource` is whether a prune would touch it. -/
structure AbsentHost where
  id : String
  hostname : Option String
  hasSource : Bool

structure PreviewMatch where
  id : String
  hostname : Option String

inductive Payload where
  | empty
  | text (message : String)
  | json (value : Json)
  | tierLimit (limit current : Nat) (tier : String)
  | bundle (view : BundleView)
  | bundles (views : List BundleView)
  | staged (stagedId : String)
  | group (view : GroupView)
  | preview (hosts : List PreviewMatch)
  | hostCreated (hostId bootstrapToken serverUrl installCommand : String) (expiresAt : Int)
  | certsRevoked (hostId : String) (revokedCerts : Nat)
      (bootstrapToken installCommand : String) (expiresAt : Int)
  | enrolled (certPem caPem bundleSigningPubPem serverUrl mtlsUrl mtlsServerCertPem : String)
  | renewed (certPem caPem mtlsServerCertPem bundleSigningPubPem : String)
  | bulk (updated : Nat) (notFound : List String)
  | notModified (nextPollInSeconds : Nat)
  | desiredState (tenantId : Int) (stateHash : String) (nextPollInSeconds : Nat)
      (mergedConfigJson : Json) (bundles : List BundleRef)
  | desired (stateHash : String) (inSync : Bool) (bundles : List DesiredBundleView)
  | file (contentType : String) (bytes : Bytes)
  | deleted (count : Nat)
  | resolvedRows (source : String) (rows : List RowView) (absent : List AbsentHost)
      (absentTotal : Nat) (stats : ResolveStats)
  | unresolvedRows (rows : List RowView)
  | imported (source : String) (stored unchanged skipped pruned failed : Nat)

structure Response where
  status : Nat
  payload : Payload
  /-- The `x-facts-hash` header, when there is one. -/
  factsHash : Option String := none

namespace Response

def ok (payload : Payload) : Response := { status := 200, payload := payload }

def noContent : Response := { status := 204, payload := Payload.empty }

def error (status : Nat) (message : String) : Response :=
  { status := status, payload := Payload.text message }

def internal : Response := error 500 "internal"

def withHeader (r : Response) (factsHash : Option String) : Response :=
  { r with factsHash := factsHash }

end Response

/-- The answer to a caller whose role is not enough. -/
def forbidden (need : String) : Response :=
  Response.error 403 ("your role does not allow this (" ++ need ++ ")")

/-- The refusal of every group, bundle and assignment write while a directory is
in charge of the tenant. -/
def refuseIfManaged (deps : Deps) (tenantId : Int) : Option Response :=
  if deps.config.managedTenant = some tenantId then
    some (Response.error 409
      ("groups and bundles are managed in files (CONFIG_SOURCE_DIR) — change them there " ++
        "and reload"))
  else none

/-- Refuse a caller who may not write, and a tenant that is managed in files. -/
def mayChange (deps : Deps) (who : AuthedUser) : Except Response Unit :=
  if !who.role.canWriteConfig then Except.error (forbidden "change configuration")
  else
    match refuseIfManaged deps who.tenantId with
    | some refused => Except.error refused
    | none => Except.ok ()

/-- Answer with the first refusal, or go on. -/
def guarded {alpha : Type} (check : Except Response alpha) (next : alpha -> Prog Response) :
    Prog Response :=
  match check with
  | Except.error refused => return refused
  | Except.ok a => next a

def bumpConfigVersion (tenantId : Int) : Prog Unit :=
  executeLogged (Statement.bumpConfigVersion tenantId)

end Server
end FleetServer
