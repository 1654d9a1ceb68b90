import FleetServer.Bundles.Archive

/-!
# Storing bundles

Upload and compose, and the tail they share: the tier's limits, the signature,
the row, the bytes, and the version bump, in this order.
-/

namespace FleetServer
namespace Bundles

open FleetServer.Core
open Storage
open Server
open Concurrency
open Hosts (validBundleToken)

variable (deps : Deps)

def bundleTokenRule : String :=
  "name and version must be 1-128 characters of letters, digits, '.', '_' or '-'"

/-!
# Signing
-/

def loadSigningKey (tenantId : Int) (secrets : Option TenantSecretsRow) : Option Bytes := do
  let secrets ← secrets
  let key ← (deps.decrypt (Purpose.tenantBundleSigningKey tenantId)
    secrets.bundleSigningKeyEncrypted).toOption
  deps.signingKeyFromPem (← Deps.fromUtf8 key)

def signDescriptor (key : Bytes) (d : BundleDescriptor) : String :=
  deps.base64 (deps.signWith key d.toSigningBytes)

/-!
# persist_bundle
-/

structure NewBundle where
  name : String
  version : String
  bytes : Bytes
  format : String
  keyFingerprint : Option String

def descriptorOf (tenantId : Int) (bundleId : String) (b : NewBundle) : BundleDescriptor :=
  { tenantId := tenantId, bundleId := bundleId, name := b.name, version := b.version,
    format := b.format, sha256Hex := deps.sha256Hex b.bytes }

/-- The row's insert, then its bytes, then the bump. -/
def insertAndStore (request : Nat) (tenantId : Int) (b : NewBundle) (signature : String)
    (answer : BundleRow -> Response) : Prog Response :=
  executeOr (Statement.createBundle (deps.ulid request 0) tenantId b.name b.version
    (deps.sha256Hex b.bytes) b.bytes.length signature b.format b.keyFingerprint)
    (Response.error 409 "(name, version) already exists") fun row => do
      match ← storePut tenantId row.id b.bytes with
      | Except.error _ => return Response.error 500 "store failed"
      | Except.ok () =>
          bumpConfigVersion tenantId
          return answer row

def signAndInsert (request : Nat) (tenantId : Int) (b : NewBundle)
    (answer : BundleRow -> Response) : Prog Response :=
  let failed := Response.error 500 "sign failed"
  askOr (Query.tenantSecrets tenantId) failed fun secrets =>
    match loadSigningKey deps tenantId secrets with
    | none => return failed
    | some key =>
        let signature := signDescriptor deps key
          (descriptorOf deps tenantId (deps.ulid request 0) b)
        insertAndStore deps request tenantId b signature answer

def maxBytes (limits : TierLimits) : Nat :=
  limits.maxBundleMb * 1024 * 1024

def persistBundle (request : Nat) (tenantId : Int) (b : NewBundle)
    (answer : BundleRow -> Response) : Prog Response :=
  let tenantMissing := Response.error 500 "tenant missing"
  askOr (Query.tenant tenantId) tenantMissing fun
    | none => return tenantMissing
    | some tenant =>
        let limits := deps.limits tenant.tier tenant.tierOverridesJson
        askOr (Query.bundleCount tenantId) Response.internal fun n =>
          if limits.maxBundles ≤ n then
            return { status := 403,
                     payload := Payload.tierLimit limits.maxBundles n limits.name }
          else if maxBytes limits < b.bytes.length then
            return Response.error 413
              ("bundle exceeds tier limit (" ++ toString limits.maxBundleMb ++ " MB)")
          else signAndInsert deps request tenantId b answer

/-!
# upload
-/

/-- The parts of the form that could be read. -/
structure UploadForm where
  name : Option String
  version : Option String
  format : Option String
  baseBundleId : Option String
  bytes : Option Bytes

def bundleToken (s : Option String) : Except Response String :=
  match (s.map trim).filter validBundleToken with
  | some s => Except.ok s
  | none => Except.error (Response.error 400 bundleTokenRule)

def bundleBytes (bytes : Option Bytes) : Except Response Bytes :=
  match bytes.filter fun b => !b.isEmpty with
  | some b => Except.ok b
  | none => Except.error (Response.error 400 "missing or empty bundle")

def editedBundleGone : Response :=
  Response.error 404 "the bundle you were editing is gone (renamed or deleted) — reopen it"

def editedBundleRenamed (base : BundleRow) : Response :=
  Response.error 409
    ("the bundle you were editing has been renamed to '" ++ base.name ++ "' — reopen it")

def checkBase (tenantId : Int) (baseBundleId : Option String) (name : String)
    (next : Prog Response) : Prog Response :=
  match baseBundleId.filter fun s => !s.isEmpty with
  | none => next
  | some baseId =>
      askOr (Query.bundle tenantId baseId) Response.internal fun
        | none => return editedBundleGone
        | some base => if base.name = name then next else return editedBundleRenamed base

def formatOf (format : Option String) : Except Response String :=
  match format.map trim with
  | none => Except.ok EncBundle.formatPlain
  | some f =>
      if f = "" ∨ f = EncBundle.formatPlain then Except.ok EncBundle.formatPlain
      else if f = EncBundle.formatEncV1 then Except.ok EncBundle.formatEncV1
      else
        Except.error (Response.error 400
          ("unknown format '" ++ f ++ "' (expected 'plain' or 'enc-v1')"))

/-- The declared format and the bytes have to agree, in both directions. -/
def keyFingerprintOf (format : String) (bytes : Bytes) :
    Except Response (Option String) :=
  if format = EncBundle.formatEncV1 then
    match EncBundle.parseHeader bytes with
    | Except.ok h => Except.ok (some h.fingerprintHex)
    | Except.error e =>
        Except.error (Response.error 400 ("not a valid encrypted bundle: " ++ e.message))
  else if EncBundle.isEncrypted bytes then
    Except.error (Response.error 400
      ("bundle carries the encrypted-bundle magic but format is 'plain' — " ++
        "upload with format=enc-v1"))
  else Except.ok none

def upload (request : Nat) (who : AuthedUser) (form : UploadForm) : Prog Response :=
  guarded (mayChange deps who) fun () =>
  guarded (bundleToken form.name) fun name =>
  guarded (bundleToken form.version) fun version =>
  guarded (bundleBytes form.bytes) fun bytes =>
  checkBase who.tenantId form.baseBundleId name <|
  guarded (formatOf form.format) fun format =>
  guarded (keyFingerprintOf format bytes) fun keyFingerprint =>
    persistBundle deps request who.tenantId
      { name := name, version := version, bytes := bytes, format := format,
        keyFingerprint := keyFingerprint }
      fun row => Response.ok (Payload.bundle (BundleView.of row))

/-!
# compose
-/

structure ScriptFile where
  path : String
  contentB64 : String

structure ComposeBody where
  name : String
  version : String
  configJson : Json
  baseBundleId : Option String
  template : Option String
  scripts : Option (List ScriptFile)

structure Composed where
  name : String
  version : String
  template : Option String

def composeToken (what s : String) : Except Response String :=
  if validBundleToken (trim s) then Except.ok (trim s)
  else
    Except.error (Response.error 400
      ("invalid " ++ what ++ " (allowed: alphanumerics, dot, dash, underscore)"))

def checkCompose (body : ComposeBody) : Except Response Composed := do
  let name ← composeToken "name" body.name
  let version ← composeToken "version" body.version
  if !body.configJson.isObject then
    Except.error (Response.error 400 "config_json must be a JSON object")
  else
    let template ← Hosts.templateOf body.template
    return { name := name, version := version, template := template }

/-- Everything but the configuration and the manifest. -/
def carriedEntries (entries : List (String × Bytes)) : List (String × Bytes) :=
  entries.filter fun e => e.1 != "config.json" && e.1 != "bundle.toml"

def readBase (bytes : Bytes) : Except Response (List (String × Bytes)) :=
  match readZipEntries deps bytes with
  | Except.ok entries => Except.ok (carriedEntries entries)
  | Except.error e =>
      Except.error (Response.error 409 ("base bundle is not a readable zip: " ++ e))

def withCarried (tenantId : Int) (baseBundleId : Option String) (name : String)
    (next : List (String × Bytes) -> Prog Response) : Prog Response :=
  match baseBundleId with
  | none => next []
  | some baseId =>
      askOr (Query.bundle tenantId baseId) editedBundleGone fun
        | none => return editedBundleGone
        | some base =>
            if base.name ≠ name then return editedBundleRenamed base
            else if base.format ≠ EncBundle.formatPlain then
              return Response.error 409
                ("base bundle is encrypted — the server cannot read it; edit and " ++
                  "re-encrypt client-side")
            else do
              match ← storeGet tenantId baseId with
              | Except.error _ => return Response.error 500 "base bundle bytes missing"
              | Except.ok bytes => guarded (readBase deps bytes) next

def isScript (name : String) : Bool :=
  "scripts/".toList.isPrefixOf name.toList

def firstClash (newPaths all : List String) : Option (String × String) :=
  newPaths.findSome? fun path => (pathClash path all).map fun other => (path, other)

def decodeScripts (seen : List String) :
    List ScriptFile -> Except Response (List (String × Bytes))
  | [] => Except.ok []
  | script :: rest =>
      if seen.contains script.path then
        Except.error (Response.error 400
          ("duplicate script path " ++ deps.debugStr script.path))
      else
        match deps.base64Decode script.contentB64 with
        | none =>
            Except.error (Response.error 400
              ("script " ++ deps.debugStr script.path ++ " is not valid base64"))
        | some data => do
            let decoded ← decodeScripts (script.path :: seen) rest
            return (script.path, data) :: decoded

def replaceScripts (carried : List (String × Bytes)) (scripts : List ScriptFile) :
    Except Response (List (String × Bytes)) :=
  -- Paths the base already shipped are kept even when the editor could not make them.
  let grandfathered := ((carried.map Prod.fst).filter isScript).dedup
  let newPaths := (scripts.map ScriptFile.path).filter fun p => !grandfathered.contains p
  if max maxScriptFiles grandfathered.length < scripts.length then
    Except.error (Response.error 400
      ("too many script files (limit " ++ toString maxScriptFiles ++ ")"))
  else
    match newPaths.find? fun p => !validScriptPath p with
    | some path =>
        Except.error (Response.error 400
          ("invalid script path " ++ deps.debugStr path ++
            " (scripts/ followed by letters, digits, '.', '_', '-' and '/')"))
    | none =>
        match firstClash newPaths (scripts.map ScriptFile.path) with
        | some (path, other) =>
            Except.error (Response.error 400
              ("script path " ++ deps.debugStr path ++ " clashes with " ++
                deps.debugStr other))
        | none => do
            let decoded ← decodeScripts deps [] scripts
            return carried.filter (fun e => !isScript e.1) ++ decoded

def withScripts (carried : List (String × Bytes)) :
    Option (List ScriptFile) -> Except Response (List (String × Bytes))
  | none => Except.ok carried
  | some scripts => replaceScripts deps carried scripts

def composedBytes (now : Int) (c : Composed) (configJson : Json)
    (carried : List (String × Bytes)) : Except Response Bytes :=
  match buildComposed deps now (manifestToml c.name c.version c.template)
      (deps.jsonToStringPretty configJson) carried with
  | some bytes => Except.ok bytes
  | none => Except.error (Response.error 500 "zip build failed")

def compose (request : Nat) (who : AuthedUser) (body : ComposeBody) : Prog Response :=
  guarded (mayChange deps who) fun () =>
  guarded (checkCompose body) fun c =>
  withCarried deps who.tenantId body.baseBundleId c.name fun carried =>
  guarded (withScripts deps carried body.scripts) fun carried => do
    let now ← nowUnix
    guarded (composedBytes deps now c body.configJson carried) fun bytes =>
      persistBundle deps request who.tenantId
        { name := c.name, version := c.version, bytes := bytes,
          format := EncBundle.formatPlain, keyFingerprint := none }
        fun row => { status := 201, payload := Payload.bundle (BundleView.of row) }

/-!
# delete_bundle
-/

def bundleNotFound : Response := Response.error 404 "bundle not found"

def deleteBundle (who : AuthedUser) (bundleId : String) : Prog Response :=
  guarded (mayChange deps who) fun () =>
  askOr (Query.bundle who.tenantId bundleId) Response.internal fun
    | none => return bundleNotFound
    | some _ =>
        executeOr (Statement.deleteBundle who.tenantId bundleId) Response.internal fun
          | true => do
              -- After the row: a file with no row is only wasted space.
              let _ ← storeDelete who.tenantId bundleId
              bumpConfigVersion who.tenantId
              return Response.noContent
          | false => return bundleNotFound

/-!
# Assignments
-/

def groupNotFound : Response := Response.error 404 "group not found"

def assignToGroup (who : AuthedUser) (groupId bundleId : String) (priority : Int) :
    Prog Response :=
  guarded (mayChange deps who) fun () =>
  askOr (Query.group who.tenantId groupId) groupNotFound fun
    | none => return groupNotFound
    | some _ =>
        askOr (Query.bundle who.tenantId bundleId) bundleNotFound fun
          | none => return bundleNotFound
          | some _ =>
              executeOr (Statement.assign who.tenantId groupId bundleId priority)
                Response.internal fun _ => do
                  bumpConfigVersion who.tenantId
                  return Response.noContent

def unassignFromGroup (who : AuthedUser) (groupId bundleId : String) : Prog Response :=
  guarded (mayChange deps who) fun () =>
  executeOr (Statement.unassign who.tenantId groupId bundleId) Response.internal fun
    | true => do
        bumpConfigVersion who.tenantId
        return Response.noContent
    | false => return Response.error 404 "assignment not found"

end Bundles
end FleetServer
