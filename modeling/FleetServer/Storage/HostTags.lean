import FleetServer.Storage.Hosts

/-!
# Host tags

`HostTagsRepo`.  The operator's tags and the host's own live in one table, apart
by source.
-/

namespace FleetServer
namespace Storage

open FleetServer.Core
open Table

namespace HostTagsRepo

def isTag (hostId key : String) (source : TagSource) (r : HostTagRow) : Bool :=
  r.hostId == hostId && r.key == key && r.source == source

/-- `INSERT ... ON CONFLICT(host_id, key, source) DO UPDATE`. -/
def putRow (row : HostTagRow) (tags : List HostTagRow) : List HostTagRow :=
  Table.upsert (isTag row.hostId row.key row.source) (fun _ => row) row tags

def valueOf (hostId key : String) (source : TagSource) (tags : List HostTagRow) :
    Option String :=
  (tags.find? (isTag hostId key source)).map HostTagRow.value

/-- The read `upsert_manual_tag` decides `changed` by. -/
def manualValue (hostId key : String) (db : Db) : Option String :=
  valueOf hostId key TagSource.manual db.hostTags

def newRow (tenantId : Int) (hostId key value : String) (source : TagSource) (now : Int) :
    HostTagRow :=
  { tenantId := tenantId, hostId := hostId, key := key, value := value, source := source,
    updatedAt := now }

/-- The write of `upsert_manual_tag`, a statement of its own. -/
def upsertManual (tenantId : Int) (hostId key value : String) (now : Int) : Tx Unit :=
  let row := newRow tenantId hostId key value TagSource.manual now
  Tx.guarded (fun db => db.hasTenant tenantId && db.hasHost hostId)
    (fun db => ((), { db with hostTags := putRow row db.hostTags }))

/-- `WHERE tenant_id = ? AND host_id = ? AND key = ? AND source = ?`. -/
def isTagOf (tenantId : Int) (hostId key : String) (source : TagSource)
    (r : HostTagRow) : Bool :=
  r.tenantId == tenantId && isTag hostId key source r

def deleteManualTag (tenantId : Int) (hostId key : String) : Tx Bool :=
  Tx.total fun db =>
    let p := isTagOf tenantId hostId key TagSource.manual
    (db.hostTags.any p, { db with hostTags := deleteWhere p db.hostTags })

/-- Store one reported tag; whether the stored value changed. -/
def putAgentTag (tenantId : Int) (hostId : String) (now : Int) (tag : String × String)
    (tags : List HostTagRow) : Bool × List HostTagRow :=
  (decide (valueOf hostId tag.1 TagSource.agent tags ≠ some tag.2),
    putRow (newRow tenantId hostId tag.1 tag.2 TagSource.agent now) tags)

def putAgentTags (tenantId : Int) (hostId : String) (now : Int) :
    List (String × String) -> List HostTagRow -> Bool × List HostTagRow
  | [], tags => (false, tags)
  | tag :: rest, tags =>
      let first := putAgentTag tenantId hostId now tag tags
      let others := putAgentTags tenantId hostId now rest first.2
      (first.1 || others.1, others.2)

/-- The agent tags of the host that `reported` no longer names. -/
def isStale (tenantId : Int) (hostId : String) (reported : List (String × String))
    (r : HostTagRow) : Bool :=
  ofHost tenantId hostId r.tenantId r.hostId && r.source == TagSource.agent &&
    !(reported.any fun tag => tag.1 == r.key)

/-- Replace the host's own tags with exactly `reported`, whose keys are
distinct; whether anything changed. -/
def replaceAgentTags (tenantId : Int) (hostId : String) (reported : List (String × String))
    (now : Int) : Tx Bool := fun db =>
  if !reported.isEmpty && !(db.hasTenant tenantId && db.hasHost hostId) then
    Except.error DbError.constraint
  else
    let stale := isStale tenantId hostId reported
    let kept := deleteWhere stale db.hostTags
    let put := putAgentTags tenantId hostId now reported kept
    Except.ok (db.hostTags.any stale || put.1, { db with hostTags := put.2 })

/-- Every tag of a host as `(key, value, source)`, in row order. -/
def rowsForHost (tenantId : Int) (hostId : String) (db : Db) :
    List (String × TagValue) :=
  view (fun r => if ofHost tenantId hostId r.tenantId r.hostId then
    some (r.key, { value := r.value, source := r.source }) else none) db.hostTags

def valuesForKey (tenantId : Int) (key : String) (db : Db) : List (String × String) :=
  view (fun r => if r.tenantId == tenantId && r.key == key then
    some (r.hostId, r.value) else none) db.hostTags

def toMap (rows : List (String × TagValue)) : HostTags := fun key =>
  (rows.filter fun r => r.1 == key).map Prod.snd

def mapForHost (tenantId : Int) (hostId : String) (db : Db) : HostTags :=
  toMap (rowsForHost tenantId hostId db)

/-- Every tag of a tenant as `(host_id, key, value, source)`, in row order. -/
def rowsForTenant (tenantId : Int) (db : Db) : List (String × String × TagValue) :=
  view (fun r => if r.tenantId == tenantId then
    some (r.hostId, r.key, { value := r.value, source := r.source }) else none) db.hostTags

def mapsForTenant (tenantId : Int) (db : Db) : String -> HostTags := fun hostId =>
  toMap (((rowsForTenant tenantId db).filter fun r => r.1 == hostId).map Prod.snd)

/-- The two ways to read a host's tags. -/
theorem mapsForTenant_eq (tenantId : Int) (hostId : String) (db : Db) :
    mapsForTenant tenantId db hostId = mapForHost tenantId hostId db := by
  have hrows : ((rowsForTenant tenantId db).filter fun r => r.1 == hostId).map Prod.snd =
      rowsForHost tenantId hostId db := by
    unfold rowsForTenant rowsForHost view ofHost
    rw [List.filter_filterMap, List.map_filterMap]
    apply List.filterMap_congr
    intro r _
    by_cases htenant : r.tenantId = tenantId
    · by_cases hhost : r.hostId = hostId
      · simp [htenant, hhost]
      · simp [htenant, hhost]
    · simp [htenant]
  unfold mapsForTenant mapForHost
  rw [hrows]

end HostTagsRepo

end Storage
end FleetServer
