import FleetServer.Core.Selector
import FleetServer.Data.Table

/-!
# Tables

The rows of the tables the modelled requests read and write, as columns of the
migrations.  A table is the list of its rows in insertion order.
-/

namespace FleetServer
namespace Storage

open FleetServer.Core

structure Tenant where
  id : Int
  slug : String
  name : String
  tier : String
  tierOverridesJson : Option String
  trialExpiresAt : Option Int
  configVersion : Int
  createdAt : Int

structure TenantSecretsRow where
  tenantId : Int
  caCertPem : String
  caKeyEncrypted : Bytes
  caSubjectDn : String
  bundleSigningPubPem : String
  bundleSigningKeyEncrypted : Bytes

structure TenantBundleKeyRow where
  tenantId : Int
  fingerprint : String

structure HostRow where
  id : String
  tenantId : Int
  hostname : Option String
  os : Option String
  enrolledAt : Option Int
  lastSeenAt : Option Int
  currentStateHash : Option String
  bootstrapNonceHash : Option String
  bootstrapExpiresAt : Option Int
  localConfigPresent : Option Bool
  hostOverrideLast : Option Bool
  factsReportedHash : Option String
  factsReportedAt : Option Int
  factsRefusedHash : Option String
  factsRefusedAt : Option Int
  factsRefusedStatus : Option Int
  createdAt : Int

structure HostCertRow where
  tenantId : Int
  hostId : String
  serial : String
  fingerprintSha256 : String
  issuedAt : Int
  expiresAt : Int
  revokedAt : Option Int

structure HostTagRow where
  tenantId : Int
  hostId : String
  key : String
  value : String
  source : TagSource
  updatedAt : Int

structure HostOverrideRow where
  tenantId : Int
  hostId : String
  patchEncrypted : Bytes
  priority : Int
  template : Option String
  updatedAt : Int
  updatedByUser : Option Int

structure HostFactsRow where
  tenantId : Int
  hostId : String
  source : String
  factsHash : String
  factsJson : String
  collectedAt : Option String
  receivedAt : Int
  sizeBytes : Int

structure HostFactChangeRow where
  tenantId : Int
  hostId : String
  source : String
  at_ : Int
  factsHash : String
  changesJson : String

structure GroupRow where
  id : String
  tenantId : Int
  name : String
  selectorJson : String
  createdAt : Int
deriving DecidableEq

structure BundleRow where
  id : String
  tenantId : Int
  name : String
  version : String
  sha256 : String
  sizeBytes : Int
  signature : String
  uploadedAt : Int
  format : String
  keyFingerprint : Option String
deriving DecidableEq

structure BundleAssignmentRow where
  tenantId : Int
  groupId : String
  bundleId : String
  priority : Int
  assignedAt : Int
deriving DecidableEq

structure Db where
  tenants : List Tenant
  tenantSecrets : List TenantSecretsRow
  tenantBundleKeys : List TenantBundleKeyRow
  hosts : List HostRow
  hostCerts : List HostCertRow
  hostTags : List HostTagRow
  hostOverrides : List HostOverrideRow
  hostFacts : List HostFactsRow
  hostFactChanges : List HostFactChangeRow
  groups : List GroupRow
  bundles : List BundleRow
  bundleAssignments : List BundleAssignmentRow

def Db.empty : Db :=
  { tenants := [], tenantSecrets := [], tenantBundleKeys := [], hosts := [],
    hostCerts := [], hostTags := [], hostOverrides := [], hostFacts := [],
    hostFactChanges := [], groups := [], bundles := [], bundleAssignments := [] }

/-- Why a storage call fails. -/
inductive DbError where
  /-- A key, a unique index or a foreign key refused the statement. -/
  | constraint
  /-- The call did not reach the database, or came back with an error. -/
  | unavailable
  /-- Refused before any statement was made. -/
  | refused
deriving DecidableEq

/-- A statement or a transaction: an error leaves the database as it was. -/
abbrev Tx (alpha : Type) : Type := StateT Db (Except DbError) alpha

/-- A statement that cannot fail. -/
def Tx.total {alpha : Type} (f : Db -> alpha × Db) : Tx alpha :=
  fun db => Except.ok (f db)

/-- A statement refused with a constraint error unless `ok` holds. -/
def Tx.guarded {alpha : Type} (ok : Db -> Bool) (f : Db -> alpha × Db) : Tx alpha :=
  fun db => if ok db then Except.ok (f db) else Except.error DbError.constraint

/-!
# Keys other rows refer to
-/

namespace Db

def hasHost (db : Db) (id : String) : Bool :=
  db.hosts.any fun h => h.id == id

def hasTenant (db : Db) (id : Int) : Bool :=
  db.tenants.any fun t => t.id == id

def hasGroup (db : Db) (id : String) : Bool :=
  db.groups.any fun g => g.id == id

def hasBundle (db : Db) (id : String) : Bool :=
  db.bundles.any fun b => b.id == id

def bundleAssigned (db : Db) (id : String) : Bool :=
  db.bundleAssignments.any fun a => a.bundleId == id

def groupAssigned (db : Db) (id : String) : Bool :=
  db.bundleAssignments.any fun a => a.groupId == id

def hostReferenced (db : Db) (id : String) : Bool :=
  db.hostCerts.any (fun r => r.hostId == id) || db.hostTags.any (fun r => r.hostId == id) ||
    db.hostOverrides.any (fun r => r.hostId == id) ||
    db.hostFacts.any (fun r => r.hostId == id) ||
    db.hostFactChanges.any (fun r => r.hostId == id)

/-- Every id a host, a group or a bundle is stored under. -/
def ids (db : Db) : List String :=
  db.hosts.map HostRow.id ++ db.groups.map GroupRow.id ++ db.bundles.map BundleRow.id

end Db

end Storage
end FleetServer
