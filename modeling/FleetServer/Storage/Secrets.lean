import FleetServer.Data.Visited
import FleetServer.Storage.Hosts
import FleetServer.Storage.Tenants

/-!
# Stored ciphertexts

What is read and written by the walk over every ciphertext of the database: the
keys of all tenants and the overrides of all hosts.
-/

namespace FleetServer
namespace Storage

open FleetServer.Core
open Table

namespace TenantSecretsRepo

/-- `INNER JOIN tenants`. -/
def listAllCas (db : Db) : List (TenantSecretsRow × Tenant) :=
  db.tenantSecrets.flatMap fun s =>
    (db.tenants.filter fun t => t.id == s.tenantId).map fun t => (s, t)

def replaceEncryptedKeys (tenantId : Int) (caKeyEncrypted bundleSigningKeyEncrypted : Bytes) :
    Tx Unit :=
  Tx.total fun db => ((), { db with
    tenantSecrets := updateWhere (fun s => s.tenantId == tenantId)
      (fun s => { s with
        caKeyEncrypted := caKeyEncrypted
        bundleSigningKeyEncrypted := bundleSigningKeyEncrypted })
      db.tenantSecrets })

end TenantSecretsRepo

namespace HostOverridesRepo

def listAll (db : Db) : List (Int × String × Bytes) :=
  db.hostOverrides.map fun r => (r.tenantId, r.hostId, r.patchEncrypted)

/-- Just the ciphertext, leaving priority and authorship alone. -/
def replaceCiphertext (tenantId : Int) (hostId : String) (patchEncrypted : Bytes) : Tx Unit :=
  Tx.total fun db => ((), { db with
    hostOverrides := updateWhere (fun r => ofHost tenantId hostId r.tenantId r.hostId)
      (fun r => { r with patchEncrypted := patchEncrypted }) db.hostOverrides })

end HostOverridesRepo

/-- The keys of the tables that hold ciphertexts, and what they refer to. -/
structure SecretKeys (db : Db) : Prop where
  tenantIds : (db.tenants.map Tenant.id).Nodup
  secretIds : (db.tenantSecrets.map TenantSecretsRow.tenantId).Nodup
  secretRefs : forall s, s ∈ db.tenantSecrets -> exists t, t ∈ db.tenants ∧ t.id = s.tenantId
  overrideIds : (db.hostOverrides.map HostOverrideRow.hostId).Nodup

theorem map_listAllCas {db : Db} (hkeys : SecretKeys db) :
    (TenantSecretsRepo.listAllCas db).map Prod.fst = db.tenantSecrets := by
  unfold TenantSecretsRepo.listAllCas
  have hone : forall s, s ∈ db.tenantSecrets ->
      ((db.tenants.filter fun t => t.id == s.tenantId).map fun t => (s, t)).map Prod.fst =
        [s] := by
    intro s hs
    rcases hkeys.secretRefs s hs with ⟨t, ht, hid⟩
    rw [← hid, filter_key hkeys.tenantIds ht]
    rfl
  rw [List.map_flatMap, List.flatMap_congr hone]
  exact List.flatMap_singleton' _

end Storage
end FleetServer
