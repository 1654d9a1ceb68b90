import FleetServer.Storage.Bundles

/-!
# Replacing a tenant's configuration wholesale

`ConfigSourceRepo`: the write side of a configuration directory.
-/

namespace FleetServer
namespace Storage

open Table

/-- One group as the directory has it; `id` is the existing row's unless
`create`. -/
structure PlannedGroup where
  id : String
  name : String
  selectorJson : String
  create : Bool

/-- A bundle row to insert; its bytes are already in the store under `id`. -/
structure PlannedBundle where
  id : String
  name : String
  version : String
  sha256 : String
  sizeBytes : Int
  signature : String
  format : String
  keyFingerprint : Option String

structure ConfigPlan where
  expectedBundleIds : List String
  expectedGroupIds : List String
  deleteBundleIds : List String
  insertBundles : List PlannedBundle
  deleteGroupIds : List String
  groups : List PlannedGroup
  /-- Group id, bundle id and priority of every assignment afterwards. -/
  assignments : List (String × String × Int)

inductive ApplyOutcome where
  | applied
  | changed
deriving DecidableEq

namespace ConfigSourceRepo

def listAssignments (tenantId : Int) (db : Db) : List (String × String × Int) :=
  (db.bundleAssignments.filter fun a => a.tenantId == tenantId).map fun a =>
    (a.groupId, a.bundleId, a.priority)

def sameSet (xs ys : List String) : Bool :=
  xs.all ys.contains && ys.all xs.contains

def bundleIds (tenantId : Int) (db : Db) : List String :=
  (db.bundles.filter fun b => b.tenantId == tenantId).map BundleRow.id

def groupIds (tenantId : Int) (db : Db) : List String :=
  (db.groups.filter fun g => g.tenantId == tenantId).map GroupRow.id

def plannedRow (tenantId now : Int) (b : PlannedBundle) : BundleRow :=
  { id := b.id, tenantId := tenantId, name := b.name, version := b.version,
    sha256 := b.sha256, sizeBytes := b.sizeBytes, signature := b.signature,
    uploadedAt := now, format := b.format, keyFingerprint := b.keyFingerprint }

def deleteAssignments (tenantId : Int) : Tx Unit :=
  Tx.total fun db => ((), { db with
    bundleAssignments := deleteWhere (fun a => a.tenantId == tenantId) db.bundleAssignments })

/-- Insert a group the directory adds, or give an existing one its selector. -/
def putGroup (tenantId now : Int) (g : PlannedGroup) : Tx Unit :=
  if g.create then
    GroupsRepo.insertRow
      { id := g.id, tenantId := tenantId, name := g.name, selectorJson := g.selectorJson,
        createdAt := now }
  else do
    let _ ← GroupsRepo.update tenantId g.id (some g.name) (some g.selectorJson)
    return ()

def deleteGroup (tenantId : Int) (id : String) : Tx Unit := do
  let _ ← GroupsRepo.delete tenantId id
  return ()

def insertAssignment (tenantId now : Int) (a : String × String × Int) : Tx Unit :=
  Tx.guarded
    (fun db => db.hasTenant tenantId && db.hasGroup a.1 && db.hasBundle a.2.1 &&
      !(db.bundleAssignments.any fun r => r.groupId == a.1 && r.bundleId == a.2.1))
    (fun db => ((), { db with
      bundleAssignments := db.bundleAssignments ++
        [{ tenantId := tenantId, groupId := a.1, bundleId := a.2.1, priority := a.2.2,
           assignedAt := now }] }))

/-- Make a statement for every element, in order. -/
def forEach {alpha : Type} (step : alpha -> Tx Unit) : List alpha -> Tx Unit
  | [] => pure ()
  | x :: rest => do
      step x
      forEach step rest

/-- What `apply` does once the ids are still the ones the plan was made for. -/
def replaceAll (tenantId : Int) (plan : ConfigPlan) (now : Int) : Tx Unit := do
  -- Assignments first: they reference both of the tables changed below.
  deleteAssignments tenantId
  -- Deletes before inserts: a changed bundle keeps its unique name and version.
  forEach (BundlesRepo.deleteRow tenantId) plan.deleteBundleIds
  forEach (fun b => BundlesRepo.insertRow (plannedRow tenantId now b)) plan.insertBundles
  forEach (deleteGroup tenantId) plan.deleteGroupIds
  forEach (putGroup tenantId now) plan.groups
  forEach (insertAssignment tenantId now) plan.assignments
  bumpInside tenantId

def apply (tenantId : Int) (plan : ConfigPlan) (now : Int) : Tx ApplyOutcome := fun db =>
  if sameSet (bundleIds tenantId db) plan.expectedBundleIds &&
      sameSet (groupIds tenantId db) plan.expectedGroupIds then
    (do
      replaceAll tenantId plan now
      return ApplyOutcome.applied : Tx ApplyOutcome) db
  else Except.ok (ApplyOutcome.changed, db)

end ConfigSourceRepo

end Storage
end FleetServer
