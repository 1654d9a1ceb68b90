import FleetServer.Concurrency.Alone
import FleetServer.Server.Deps
import FleetServer.Storage.Secrets

/-!
# Binding old ciphertexts to their purpose

Ciphertexts that an earlier version wrote have no associated data.  When the
server starts, those that open unbound are written back bound, and those that
open under neither stay as they are.  No request is served meanwhile.
-/

namespace FleetServer
namespace Runtime
namespace Rebind

open FleetServer.Core
open Storage
open Table
open Server
open Concurrency

/-!
# Calls
-/

inductive Op where
  | listAllCas
  | getByTenant (tenantId : Int)
  | replaceEncryptedKeys (tenantId : Int) (caKeyEncrypted bundleSigningKeyEncrypted : Bytes)
  | listAllOverrides
  | replaceCiphertext (tenantId : Int) (hostId : String) (patchEncrypted : Bytes)

def Op.writes : Op -> Bool
  | replaceEncryptedKeys _ _ _ => true
  | replaceCiphertext _ _ _ => true
  | _ => false

@[reducible] def Op.Res : Op -> Type
  | listAllCas => Except DbError (List (TenantSecretsRow × Tenant))
  | getByTenant _ => Except DbError (Option TenantSecretsRow)
  | replaceEncryptedKeys _ _ _ => Except DbError Unit
  | listAllOverrides => Except DbError (List (Int × String × Bytes))
  | replaceCiphertext _ _ _ => Except DbError Unit

def execTx (m : Tx Unit) (db : Db) : Except DbError Unit × Db :=
  match m db with
  | Except.ok (u, db') => (Except.ok u, db')
  | Except.error e => (Except.error e, db)

def exec : (op : Op) -> Db -> op.Res × Db
  | Op.listAllCas, db => (Except.ok (TenantSecretsRepo.listAllCas db), db)
  | Op.getByTenant tenantId, db => (Except.ok (TenantSecretsRepo.getByTenant tenantId db), db)
  | Op.replaceEncryptedKeys tenantId ca sign, db =>
      execTx (TenantSecretsRepo.replaceEncryptedKeys tenantId ca sign) db
  | Op.listAllOverrides, db => (Except.ok (HostOverridesRepo.listAll db), db)
  | Op.replaceCiphertext tenantId hostId patch, db =>
      execTx (HostOverridesRepo.replaceCiphertext tenantId hostId patch) db

def fault : (op : Op) -> Option op.Res
  | Op.listAllCas => some (Except.error DbError.unavailable)
  | Op.getByTenant _ => some (Except.error DbError.unavailable)
  | Op.replaceEncryptedKeys _ _ _ => some (Except.error DbError.unavailable)
  | Op.listAllOverrides => some (Except.error DbError.unavailable)
  | Op.replaceCiphertext _ _ _ => some (Except.error DbError.unavailable)

@[reducible] def machine : Machine Op.Res where
  World := Db
  exec := exec
  fault := fault

abbrev Prog (alpha : Type) : Type := Program Op.Res alpha

/-!
# rebind_legacy_ciphertexts
-/

variable (deps : Deps)

/-- `MasterKey::encrypt`, with the nonce it draws. -/
def encryptWith (nonce : Bytes) (purpose : Purpose) (plaintext : Bytes) : Bytes :=
  nonce ++ deps.aeadSeal nonce purpose.aad plaintext

def decryptUnbound (blob : Bytes) : Except AeadError Bytes :=
  if blob.length < 12 + 16 then Except.error AeadError.truncated
  else
    match deps.aeadOpen (blob.take 12) [] (blob.drop 12) with
    | none => Except.error AeadError.decrypt
    | some plaintext => Except.ok plaintext

def isBound (purpose : Purpose) (blob : Bytes) : Bool :=
  (deps.decrypt purpose blob).isOk

/-- The plaintext under whichever binding the blob was found to have. -/
def openEither (purpose : Purpose) (blob : Bytes) : Except AeadError Bytes :=
  if isBound deps purpose blob then deps.decrypt purpose blob else decryptUnbound deps blob

/-- The plaintexts of a tenant's keys if they are to be written back.  Both columns are
rewritten together or neither is. -/
def keysToBind (tenantId : Int) (stored : TenantSecretsRow) : Option (Bytes × Bytes) :=
  if isBound deps (Purpose.tenantCaKey tenantId) stored.caKeyEncrypted
      && isBound deps (Purpose.tenantBundleSigningKey tenantId)
        stored.bundleSigningKeyEncrypted then none
  else
    match openEither deps (Purpose.tenantCaKey tenantId) stored.caKeyEncrypted with
    | Except.error _ => none
    | Except.ok caPlain =>
        match openEither deps (Purpose.tenantBundleSigningKey tenantId)
          stored.bundleSigningKeyEncrypted with
        | Except.error _ => none
        | Except.ok signPlain => some (caPlain, signPlain)

def patchToBind (purpose : Purpose) (blob : Bytes) : Option Bytes :=
  if isBound deps purpose blob then none
  else
    match decryptUnbound deps blob with
    | Except.error _ => none
    | Except.ok plain => some plain

/-- `n` is the number of the start, and `k` the number of nonces it has drawn. -/
def rebindCas (n : Nat) : List (TenantSecretsRow × Tenant) -> (k : Nat) ->
    Prog (Except DbError Nat)
  | [], k => return Except.ok k
  | ca :: rest, k => do
      match ← Program.perform (Op.getByTenant ca.1.tenantId) with
      | Except.error e => return Except.error e
      | Except.ok none => rebindCas n rest k
      | Except.ok (some stored) =>
          match keysToBind deps ca.1.tenantId stored with
          | none => rebindCas n rest k
          | some (caPlain, signPlain) =>
              match ← Program.perform (Op.replaceEncryptedKeys ca.1.tenantId
                (encryptWith deps (deps.aeadNonce n k) (Purpose.tenantCaKey ca.1.tenantId) caPlain)
                (encryptWith deps (deps.aeadNonce n (k + 1))
                  (Purpose.tenantBundleSigningKey ca.1.tenantId) signPlain)) with
              | Except.error e => return Except.error e
              | Except.ok () => rebindCas n rest (k + 2)

def rebindOverrides (n : Nat) : List (Int × String × Bytes) -> (k : Nat) ->
    Prog (Except DbError Unit)
  | [], _ => return Except.ok ()
  | (tenantId, hostId, blob) :: rest, k => do
      match patchToBind deps (Purpose.hostOverride tenantId hostId) blob with
      | none => rebindOverrides n rest k
      | some plain =>
          match ← Program.perform (Op.replaceCiphertext tenantId hostId
            (encryptWith deps (deps.aeadNonce n k) (Purpose.hostOverride tenantId hostId)
              plain)) with
          | Except.error e => return Except.error e
          | Except.ok () => rebindOverrides n rest (k + 1)

def rebindLegacyCiphertexts (n : Nat) : Prog (Except DbError Unit) := do
  match ← Program.perform Op.listAllCas with
  | Except.error e => return Except.error e
  | Except.ok cas =>
      match ← rebindCas deps n cas 0 with
      | Except.error e => return Except.error e
      | Except.ok k =>
          match ← Program.perform Op.listAllOverrides with
          | Except.error e => return Except.error e
          | Except.ok rows => rebindOverrides deps n rows k

end Rebind
end Runtime
end FleetServer
