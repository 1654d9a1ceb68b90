import FleetServer.Storage.Tenants

/-!
# Bundles and their assignments to groups
-/

namespace FleetServer
namespace Storage

open Table

/-- A version renamed in place: same id and bytes, a signature over the new name. -/
structure RenamedInPlace where
  id : String
  signature : String

/-- A version whose bytes changed with its name, stored under a new id. -/
structure MovedBundle where
  oldId : String
  newId : String
  sha256 : String
  sizeBytes : Int
  signature : String
  keyFingerprint : Option String

inductive RenameOutcome where
  | renamed
  | nameTaken
  | changed
deriving DecidableEq

namespace BundlesRepo

/-- `WHERE tenant_id = ? AND id = ?`. -/
def isBundle (tenantId : Int) (id : String) (b : BundleRow) : Bool :=
  b.tenantId == tenantId && b.id == id

/-- `WHERE tenant_id = ? AND name = ?`. -/
def isNamed (tenantId : Int) (name : String) (b : BundleRow) : Bool :=
  b.tenantId == tenantId && b.name == name

/-- `UNIQUE (tenant_id, name, version)` among all rows but the one with `id`. -/
def versionFree (tenantId : Int) (name version id : String) (db : Db) : Bool :=
  !(db.bundles.any fun b =>
    b.tenantId == tenantId && b.name == name && b.version == version && b.id != id)

def insertRow (row : BundleRow) : Tx Unit :=
  Tx.guarded
    (fun db => db.hasTenant row.tenantId && !db.hasBundle row.id &&
      versionFree row.tenantId row.name row.version row.id db)
    (fun db => ((), { db with bundles := db.bundles ++ [row] }))

def create (id : String) (tenantId : Int) (name version sha256 : String) (sizeBytes : Int)
    (signature format : String) (keyFingerprint : Option String) (now : Int) :
    Tx BundleRow := do
  let row : BundleRow :=
    { id := id, tenantId := tenantId, name := name, version := version, sha256 := sha256,
      sizeBytes := sizeBytes, signature := signature, uploadedAt := now, format := format,
      keyFingerprint := keyFingerprint }
  insertRow row
  return row

def get (tenantId : Int) (id : String) (db : Db) : Option BundleRow :=
  db.bundles.find? (isBundle tenantId id)

def count (tenantId : Int) (db : Db) : Nat :=
  affected (fun b => b.tenantId == tenantId) db.bundles

def delete (tenantId : Int) (id : String) : Tx Bool := fun db =>
  let db' := { db with
    bundleAssignments :=
      deleteWhere (fun a => a.tenantId == tenantId && a.bundleId == id) db.bundleAssignments }
  let found := db.bundles.any (isBundle tenantId id)
  if found && db'.bundleAssigned id then Except.error DbError.constraint
  else Except.ok (found, { db' with bundles := deleteWhere (isBundle tenantId id) db'.bundles })

/-- A row that was deleted is gone. -/
theorem delete_eq_ok {tenantId : Int} {id : String} {found : Bool} {db db' : Db}
    (h : delete tenantId id db = Except.ok (found, db')) :
    db'.bundles = deleteWhere (isBundle tenantId id) db.bundles := by
  unfold delete at h
  simp only at h
  split at h
  · cases h
  · cases h
    rfl

def listAll (db : Db) : List BundleRow :=
  db.bundles

def replaceSignature (tenantId : Int) (id signature : String) : Tx Unit :=
  Tx.total fun db => ((), { db with
    bundles := updateWhere (isBundle tenantId id) (fun b => { b with signature := signature })
      db.bundles })

/-- `ORDER BY uploaded_at DESC`. -/
def list (tenantId : Int) (db : Db) : List BundleRow :=
  (db.bundles.filter fun b => b.tenantId == tenantId).insertionSort
    (fun a b => b.uploadedAt ≤ a.uploadedAt)

/-- `ORDER BY uploaded_at, id`. -/
def listByName (tenantId : Int) (name : String) (db : Db) : List BundleRow :=
  (db.bundles.filter (isNamed tenantId name)).insertionSort
    (fun a b => a.uploadedAt < b.uploadedAt ∨ (a.uploadedAt = b.uploadedAt ∧ a.id ≤ b.id))

/-!
## rename
-/

/-- Give one version its new name; `false` when it is no longer there. -/
def renameRow (tenantId : Int) (from_ to_ : String) (r : RenamedInPlace) : Tx Bool :=
  let p := fun b => isBundle tenantId r.id b && b.name == from_
  Tx.guarded
    (fun db => db.bundles.all fun b => !p b || versionFree tenantId to_ b.version b.id db)
    (fun db => (db.bundles.any p, { db with
      bundles := updateWhere p (fun b => { b with name := to_, signature := r.signature })
        db.bundles }))

def movedRow (to_ : String) (r : MovedBundle) (b : BundleRow) : BundleRow :=
  { b with
    id := r.newId
    name := to_
    sha256 := r.sha256
    sizeBytes := r.sizeBytes
    signature := r.signature
    keyFingerprint := r.keyFingerprint }

def deleteRow (tenantId : Int) (id : String) : Tx Unit :=
  Tx.guarded
    (fun db => !(db.bundles.any (isBundle tenantId id) && db.bundleAssigned id))
    (fun db => ((), { db with bundles := deleteWhere (isBundle tenantId id) db.bundles }))

/-- `UPDATE bundle_assignments SET bundle_id = ?`, under the key and the foreign
key of the table. -/
def repoint (tenantId : Int) (oldId newId : String) : Tx Unit :=
  let p := fun a : BundleAssignmentRow => a.tenantId == tenantId && a.bundleId == oldId
  Tx.guarded
    (fun db => db.hasBundle newId && db.bundleAssignments.all fun a =>
      !p a || !(db.bundleAssignments.any fun a' =>
        a'.groupId == a.groupId && a'.bundleId == newId))
    (fun db => ((), { db with
      bundleAssignments := updateWhere p (fun a => { a with bundleId := newId })
        db.bundleAssignments }))

/-- Store one version under its new id and let its assignments follow. -/
def moveRow (tenantId : Int) (from_ to_ : String) (r : MovedBundle) : Tx Bool := fun db =>
  match db.bundles.find? (fun b => isBundle tenantId r.oldId b && b.name == from_) with
  | none => Except.ok (false, db)
  | some b =>
      (do
        insertRow (movedRow to_ r b)
        repoint tenantId r.oldId r.newId
        deleteRow tenantId r.oldId
        return true : Tx Bool) db

/-- Apply `step` to every element until one answers `false`. -/
def allRows {alpha : Type} (step : alpha -> Tx Bool) : List alpha -> Tx Bool
  | [] => pure true
  | r :: rest => do
      if ← step r then allRows step rest else pure false

/-- Bump the version once nothing is left under the old name. -/
def finishRename (tenantId : Int) (from_ : String) : Tx RenameOutcome := fun db =>
  if db.bundles.any (isNamed tenantId from_) then Except.ok (RenameOutcome.changed, db)
  else (do
    bumpInside tenantId
    return RenameOutcome.renamed : Tx RenameOutcome) db

/-- The body of `rename`: any outcome but `renamed` is rolled back. -/
def renameBody (tenantId : Int) (from_ to_ : String) (inPlace : List RenamedInPlace)
    (moved : List MovedBundle) : Tx RenameOutcome := fun db =>
  if db.bundles.any (isNamed tenantId to_) then Except.ok (RenameOutcome.nameTaken, db)
  else (do
    if ← allRows (renameRow tenantId from_ to_) inPlace then
      if ← allRows (moveRow tenantId from_ to_) moved then finishRename tenantId from_
      else return RenameOutcome.changed
    else return RenameOutcome.changed : Tx RenameOutcome) db

def rename (tenantId : Int) (from_ to_ : String) (inPlace : List RenamedInPlace)
    (moved : List MovedBundle) : Tx RenameOutcome := fun db =>
  match renameBody tenantId from_ to_ inPlace moved db with
  | Except.error e => Except.error e
  | Except.ok (RenameOutcome.renamed, db') => Except.ok (RenameOutcome.renamed, db')
  | Except.ok (outcome, _) => Except.ok (outcome, db)

end BundlesRepo

namespace BundleAssignmentsRepo

/-- `ON CONFLICT(group_id, bundle_id) DO UPDATE SET priority`. -/
def assign (tenantId : Int) (groupId bundleId : String) (priority now : Int) : Tx Unit :=
  Tx.guarded
    (fun db => db.hasTenant tenantId && db.hasGroup groupId && db.hasBundle bundleId)
    (fun db => ((), { db with
      bundleAssignments := Table.upsert
        (fun a => a.groupId == groupId && a.bundleId == bundleId)
        (fun a => { a with priority := priority })
        { tenantId := tenantId, groupId := groupId, bundleId := bundleId,
          priority := priority, assignedAt := now } db.bundleAssignments }))

def unassign (tenantId : Int) (groupId bundleId : String) : Tx Bool :=
  let p := fun a : BundleAssignmentRow =>
    a.tenantId == tenantId && a.groupId == groupId && a.bundleId == bundleId
  Tx.total fun db =>
    (db.bundleAssignments.any p, { db with
      bundleAssignments := deleteWhere p db.bundleAssignments })

def joined (tenantId : Int) (db : Db) : List (BundleAssignmentRow × BundleRow) :=
  (db.bundleAssignments.filter fun a => a.tenantId == tenantId).filterMap fun a =>
    (db.bundles.find? fun b => b.id == a.bundleId).map fun b => (a, b)

def listForGroups (tenantId : Int) (groupIds : List String) (db : Db) :
    List (BundleRow × Int) :=
  ((joined tenantId db).filter fun r => groupIds.contains r.1.groupId).map fun r =>
    (r.2, r.1.priority)

end BundleAssignmentsRepo

end Storage
end FleetServer
