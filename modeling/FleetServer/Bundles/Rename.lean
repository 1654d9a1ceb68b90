import FleetServer.Bundles.Upload

/-!
# Renaming bundles

Plain versions are renamed in place; encrypted versions move to ciphertext
staged for the new name.
-/

namespace FleetServer
namespace Bundles

open FleetServer.Core
open Storage
open Server
open Concurrency
open Hosts (validBundleToken)

variable (deps : Deps)

/-!
# Staging a re-sealed version
-/

/-- Whether `bytes` can stand in for an encrypted version under a new name; its
key fingerprint. -/
def checkResealed (version : BundleRow) (bytes : Bytes) : Except String String :=
  if (bytes.length : Int) ≠ version.sizeBytes then
    Except.error ("version " ++ version.version ++
      ": the re-sealed bundle is not the same size as the original")
  else
    match EncBundle.parseHeader bytes with
    | Except.error e =>
        Except.error ("version " ++ version.version ++ ": not a valid encrypted bundle: " ++
          e.message)
    | Except.ok h =>
        if version.keyFingerprint ≠ some h.fingerprintHex then
          Except.error ("version " ++ version.version ++ " is sealed with key " ++
            version.keyFingerprint.getD "?" ++ "; it must be re-sealed with the same key")
        else if deps.sha256Hex bytes = version.sha256 then
          Except.error ("version " ++ version.version ++
            ": this is the original ciphertext, not one sealed under the new name")
        else Except.ok h.fingerprintHex

def badRequest {alpha : Type} (r : Except String alpha) : Except Response alpha :=
  match r with
  | Except.ok a => Except.ok a
  | Except.error e => Except.error (Response.error 400 e)

def boundedBody (version : BundleRow) (body : Bytes) : Except String Bytes :=
  if version.sizeBytes.toNat < body.length then
    Except.error ("version " ++ version.version ++ ": larger than the original")
  else Except.ok body

def stageReseal (request : Nat) (who : AuthedUser) (bundleId : String) (body : Bytes) :
    Prog Response :=
  guarded (mayChange deps who) fun () =>
  askOr (Query.bundle who.tenantId bundleId) Response.internal fun
    | none => return bundleNotFound
    | some version =>
        if version.format = EncBundle.formatPlain then
          return Response.error 400 "a plain bundle is renamed without re-sealing"
        else
          guarded (badRequest (boundedBody version body)) fun bytes =>
          guarded (badRequest (checkResealed deps version bytes)) fun _ => do
            let stagedId := deps.ulid request 0
            match ← storePut who.tenantId stagedId bytes with
            | Except.error _ => return Response.error 500 "store failed"
            | Except.ok () => return Response.ok (Payload.staged stagedId)

/-!
# rename
-/

structure RenameBody where
  from_ : String
  to_ : String
  /-- For each encrypted version, the id staged for it. -/
  resealed : List (String × String)

def validBundleId (s : String) : Bool :=
  byteLen s == 26 && s.toList.all fun c => isAsciiDigit c || ('A' ≤ c && c ≤ 'Z')

def checkRename (body : RenameBody) : Except Response String :=
  let to_ := trim body.to_
  if body.from_.isEmpty then Except.error (Response.error 400 "missing 'from'")
  else if !validBundleToken to_ then Except.error (Response.error 400 bundleTokenRule)
  else if body.from_ = to_ then
    Except.error (Response.error 400 "the new name is the current name")
  else Except.ok to_

def nameTaken (to_ : String) : Response :=
  Response.error 409 ("a bundle named '" ++ to_ ++ "' already exists")

def isPlain (b : BundleRow) : Bool :=
  b.format == EncBundle.formatPlain

def checkStaged (body : RenameBody) (versions : List BundleRow) : Except Response Unit :=
  let encrypted := versions.filter fun b => !isPlain b
  match body.resealed.find? fun r => !encrypted.any fun b => b.id == r.1 with
  | some r =>
      Except.error (Response.error 400
        ("'" ++ r.1 ++ "' is not an encrypted version of '" ++ body.from_ ++ "'"))
  | none =>
      match encrypted.find? fun b => (body.resealed.lookup b.id).isNone with
      | some b =>
          Except.error (Response.error 400 ("version " ++ b.version ++
            " is encrypted: re-seal it under the new name in the browser"))
      | none => Except.ok ()

def signRenamed (tenantId : Int) (key : Bytes) (to_ id : String) (version : BundleRow)
    (sha256 : String) : String :=
  signDescriptor deps key
    { tenantId := tenantId, bundleId := id, name := to_, version := version.version,
      format := version.format, sha256Hex := sha256 }

def signFailed : Response := Response.error 500 "sign failed"

def movedBundle (tenantId : Int) (key : Bytes) (to_ staged : String) (version : BundleRow)
    (bytes : Bytes) : Except Response MovedBundle := do
  let fingerprint ← badRequest (checkResealed deps version bytes)
  let sha256 := deps.sha256Hex bytes
  return { oldId := version.id, newId := staged, sha256 := sha256,
           sizeBytes := bytes.length,
           signature := signRenamed deps tenantId key to_ staged version sha256,
           keyFingerprint := some fingerprint }

def withMoved (tenantId : Int) (key : Bytes) (to_ staged : String) (version : BundleRow)
    (next : MovedBundle -> Prog Response) : Prog Response :=
  askOr (Query.bundle tenantId staged) Response.internal fun row =>
    if !validBundleId staged ∨ row.isSome then
      return Response.error 400 ("version " ++ version.version ++ ": '" ++ staged ++
        "' is not a staged re-seal")
    else do
      match ← storeGet tenantId staged with
      | Except.error _ =>
          return Response.error 400 ("version " ++ version.version ++
            ": the staged re-seal is gone — re-seal it again")
      | Except.ok bytes =>
          guarded (movedBundle deps tenantId key to_ staged version bytes) next

def withAllMoved (tenantId : Int) (key : Bytes) (to_ : String)
    (resealed : List (String × String)) (moved : List MovedBundle)
    (next : List MovedBundle -> Prog Response) :
    List BundleRow -> Prog Response
  | [] => next moved
  | version :: rest =>
      match resealed.lookup version.id with
      | none => return Response.internal
      | some staged =>
          withMoved deps tenantId key to_ staged version fun m =>
            withAllMoved tenantId key to_ resealed (moved ++ [m]) next rest

/-- The plain versions, signed under the new name. -/
def renamedInPlace (tenantId : Int) (key : Bytes) (to_ : String)
    (versions : List BundleRow) : List RenamedInPlace :=
  (versions.filter isPlain).map fun b =>
    { id := b.id, signature := signRenamed deps tenantId key to_ b.id b b.sha256 }

def renameAnswer (tenantId : Int) (to_ : String) : RenameOutcome -> Prog Response
  | RenameOutcome.nameTaken => return nameTaken to_
  | RenameOutcome.changed =>
      return Response.error 409
        "the bundle changed while it was being renamed — reload and try again"
  | RenameOutcome.renamed =>
      askOr (Query.bundlesNamed tenantId to_) Response.noContent fun rows =>
        return Response.ok (Payload.bundles (rows.map BundleView.of))

def renameVersions (tenantId : Int) (body : RenameBody) (to_ : String) (key : Bytes)
    (versions : List BundleRow) : Prog Response :=
  withAllMoved deps tenantId key to_ body.resealed []
    (fun moved =>
      executeOr (Statement.renameBundle tenantId body.from_ to_
        (renamedInPlace deps tenantId key to_ versions) moved) Response.internal
        fun outcome => renameAnswer tenantId to_ outcome)
    (versions.filter fun b => !isPlain b)

def rename (who : AuthedUser) (body : RenameBody) : Prog Response :=
  guarded (mayChange deps who) fun () =>
  guarded (checkRename body) fun to_ =>
  askOr (Query.bundlesNamed who.tenantId to_) Response.internal fun taken =>
    if !taken.isEmpty then return nameTaken to_
    else
      askOr (Query.bundlesNamed who.tenantId body.from_) Response.internal fun versions =>
        if versions.isEmpty then return bundleNotFound
        else
          guarded (checkStaged body versions) fun () =>
          askOr (Query.tenantSecrets who.tenantId) signFailed fun secrets =>
            match loadSigningKey deps who.tenantId secrets with
            | none => return signFailed
            | some key => renameVersions deps who.tenantId body to_ key versions

end Bundles
end FleetServer
