import FleetServer.Storage.Schema

/-!
# Tenants, their keys and their groups
-/

namespace FleetServer
namespace Storage

open Table

namespace TenantRepo

def get (tenantId : Int) (db : Db) : Option Tenant :=
  db.tenants.find? fun t => t.id == tenantId

/-- `UPDATE ... RETURNING config_version`, which fails when no row matches. -/
def bumpConfigVersion (tenantId : Int) : Tx Int := fun db =>
  match TenantRepo.get tenantId db with
  | none => Except.error DbError.unavailable
  | some t =>
      Except.ok (t.configVersion + 1, { db with
        tenants := updateWhere (fun t => t.id == tenantId)
          (fun t => { t with configVersion := t.configVersion + 1 }) db.tenants })

end TenantRepo

namespace TenantSecretsRepo

def getByTenant (tenantId : Int) (db : Db) : Option TenantSecretsRow :=
  db.tenantSecrets.find? fun s => s.tenantId == tenantId

end TenantSecretsRepo

namespace TenantBundleKeysRepo

def get (tenantId : Int) (db : Db) : Option String :=
  (db.tenantBundleKeys.find? fun k => k.tenantId == tenantId).map
    TenantBundleKeyRow.fingerprint

end TenantBundleKeysRepo

def Db.configVersion (db : Db) (tenantId : Int) : Option Int :=
  (TenantRepo.get tenantId db).map Tenant.configVersion

/-- The version every tenant update inside a transaction moves. -/
def bumpInside (tenantId : Int) : Tx Unit :=
  Tx.total fun db => ((), { db with
    tenants := updateWhere (fun t => t.id == tenantId)
      (fun t => { t with configVersion := t.configVersion + 1 }) db.tenants })

/-!
# Groups
-/

namespace GroupsRepo

/-- `WHERE tenant_id = ? AND id = ?`. -/
def isGroup (tenantId : Int) (id : String) (g : GroupRow) : Bool :=
  g.tenantId == tenantId && g.id == id

/-- `UNIQUE (tenant_id, name)` among all rows but the one with `id`. -/
def nameFree (tenantId : Int) (name id : String) (db : Db) : Bool :=
  !(db.groups.any fun g => g.tenantId == tenantId && g.name == name && g.id != id)

def insertRow (row : GroupRow) : Tx Unit :=
  Tx.guarded
    (fun db => db.hasTenant row.tenantId && !db.hasGroup row.id &&
      nameFree row.tenantId row.name row.id db)
    (fun db => ((), { db with groups := db.groups ++ [row] }))

/-- `id` is the one the function generates. -/
def create (id : String) (tenantId : Int) (name selectorJson : String) (now : Int) :
    Tx GroupRow := do
  let row : GroupRow :=
    { id := id, tenantId := tenantId, name := name, selectorJson := selectorJson,
      createdAt := now }
  insertRow row
  return row

def updated (name selectorJson : Option String) (g : GroupRow) : GroupRow :=
  { g with name := name.getD g.name, selectorJson := selectorJson.getD g.selectorJson }

def update (tenantId : Int) (id : String) (name selectorJson : Option String) : Tx Bool :=
  Tx.guarded
    (fun db => !(db.groups.any (isGroup tenantId id)) ||
      name.all fun n => nameFree tenantId n id db)
    (fun db => (db.groups.any (isGroup tenantId id), { db with
      groups := updateWhere (isGroup tenantId id) (updated name selectorJson) db.groups }))

/-- Refused while an assignment refers to the group. -/
def delete (tenantId : Int) (id : String) : Tx Bool :=
  Tx.guarded
    (fun db => !(db.groups.any (isGroup tenantId id) && db.groupAssigned id))
    (fun db => (db.groups.any (isGroup tenantId id), { db with
      groups := deleteWhere (isGroup tenantId id) db.groups }))

def get (tenantId : Int) (id : String) (db : Db) : Option GroupRow :=
  db.groups.find? (isGroup tenantId id)

/-- `ORDER BY name`. -/
def list (tenantId : Int) (db : Db) : List GroupRow :=
  (db.groups.filter fun g => g.tenantId == tenantId).insertionSort
    (fun a b => a.name ≤ b.name)

end GroupsRepo

end Storage
end FleetServer
