import FleetServer.Storage.Hosts

/-!
# Facts documents

`HostFactsRepo`: one document per host and source, replaced by compare-and-set,
with a bounded history beside it.
-/

namespace FleetServer
namespace Storage

open FleetServer.Core
open Table

/-- A host's stored facts document from one source. -/
structure StoredFacts where
  source : String
  factsHash : String
  factsJson : String
  collectedAt : Option String
  receivedAt : Int
  sizeBytes : Int

structure FactsRefusal where
  hash : Option String
  at_ : Int
  status : Int

structure FactsHashes where
  held : Option String
  reported : Option String
  reportedSince : Option Int
  refused : Option FactsRefusal

structure NewFacts where
  source : String
  factsHash : String
  factsJson : String
  collectedAt : Option String
  /-- Hash of the document the caller diffed against. -/
  expectedPrevious : Option String
  history : Option String

inductive ReplaceOutcome where
  | stored
  | unchanged
  | conflict
  | noHost
deriving DecidableEq

namespace HostFactsRepo

/-- `WHERE tenant_id = ? AND host_id = ? AND source = ?`. -/
def isDoc (tenantId : Int) (hostId source : String) (r : HostFactsRow) : Bool :=
  ofHost tenantId hostId r.tenantId r.hostId && r.source == source

def isChange (tenantId : Int) (hostId source : String) (r : HostFactChangeRow) : Bool :=
  ofHost tenantId hostId r.tenantId r.hostId && r.source == source

def stored (r : HostFactsRow) : StoredFacts :=
  { source := r.source, factsHash := r.factsHash, factsJson := r.factsJson,
    collectedAt := r.collectedAt, receivedAt := r.receivedAt, sizeBytes := r.sizeBytes }

def get (tenantId : Int) (hostId source : String) (db : Db) : Option StoredFacts :=
  (db.hostFacts.find? (isDoc tenantId hostId source)).map stored

def hashOf (tenantId : Int) (hostId source : String) (db : Db) : Option String :=
  (get tenantId hostId source db).map StoredFacts.factsHash

def hashes (tenantId : Int) (hostId : String) (db : Db) : Option FactsHashes :=
  (db.hosts.find? (isHost tenantId hostId)).map fun h =>
    { held := hashOf tenantId hostId agentSource db
      reported := h.factsReportedHash
      reportedSince := h.factsReportedAt
      refused := h.factsRefusedAt.bind fun at_ => h.factsRefusedStatus.map fun status =>
        { hash := h.factsRefusedHash, at_ := at_, status := status } }

def recordRefusal (tenantId : Int) (hostId : String) (status : Int) (hash : Option String)
    (now : Int) : Tx Unit :=
  HostRepo.setHost_ tenantId hostId (fun _ => true) fun h =>
    { h with
      factsRefusedHash := hash.orElse fun _ => h.factsReportedHash
      factsRefusedAt := some now
      factsRefusedStatus := some status }

/-- Whether the stored value changed. -/
def setReportedHash (tenantId : Int) (hostId hash : String) (now : Int) : Tx Bool :=
  HostRepo.setHost tenantId hostId (fun h => h.factsReportedHash != some hash) fun h =>
    { h with factsReportedHash := some hash, factsReportedAt := some now }

def clearReportedHash (tenantId : Int) (hostId : String) (now : Int) : Tx Bool :=
  HostRepo.setHost tenantId hostId (fun h => h.factsReportedHash.isSome) fun h =>
    { h with factsReportedHash := none, factsReportedAt := some now }

/-- `INSERT ... ON CONFLICT(host_id, source) DO UPDATE`. -/
def putDoc (row : HostFactsRow) (rows : List HostFactsRow) : List HostFactsRow :=
  Table.upsert (fun r => r.hostId == row.hostId && r.source == row.source)
    (fun r => { row with tenantId := r.tenantId }) row rows

/-- Drop all but the newest `keep` of the rows `p` matches. -/
def keepNewest (p : HostFactChangeRow -> Bool) (keep : Int)
    (rows : List HostFactChangeRow) : List HostFactChangeRow :=
  let excess := rows.countP p - keep.toNat
  (rows.foldl (fun acc r =>
    if p r && decide (acc.2 < excess) then (acc.1, acc.2 + 1)
    else (acc.1 ++ [r], acc.2)) (([] : List HostFactChangeRow), 0)).1

def storeRows (tenantId : Int) (hostId : String) (doc : NewFacts) (keepHistory now : Int)
    (db : Db) : Db :=
  { db with
    hostFacts := putDoc
      { tenantId := tenantId, hostId := hostId, source := doc.source,
        factsHash := doc.factsHash, factsJson := doc.factsJson,
        collectedAt := doc.collectedAt, receivedAt := now,
        sizeBytes := byteLen doc.factsJson } db.hostFacts
    hostFactChanges :=
      match doc.history with
      | none => db.hostFactChanges
      | some entry =>
          keepNewest (isChange tenantId hostId doc.source) keepHistory
            (db.hostFactChanges ++
              [{ tenantId := tenantId, hostId := hostId, source := doc.source, at_ := now,
                 factsHash := doc.factsHash, changesJson := entry }]) }

/-- Compare-and-set against the hash the caller read. -/
def replace (tenantId : Int) (hostId : String) (doc : NewFacts) (keepHistory now : Int) :
    Tx ReplaceOutcome := fun db =>
  if !validSource doc.source then
    Except.error DbError.refused
  else if !(db.hosts.any (isHost tenantId hostId)) then
    Except.ok (ReplaceOutcome.noHost, db)
  else
    let current := hashOf tenantId hostId doc.source db
    if current = some doc.factsHash then Except.ok (ReplaceOutcome.unchanged, db)
    else if current ≠ doc.expectedPrevious then Except.ok (ReplaceOutcome.conflict, db)
    else Except.ok (ReplaceOutcome.stored, storeRows tenantId hostId doc keepHistory now db)

/-- Record when a document the server already holds was collected again. -/
def refreshCollectedAt (tenantId : Int) (hostId source factsHash collectedAt : String)
    (now : Int) : Tx Bool :=
  let p := fun r : HostFactsRow => isDoc tenantId hostId source r &&
    r.factsHash == factsHash && r.collectedAt != some collectedAt
  Tx.total fun db =>
    (db.hostFacts.any p, { db with
      hostFacts := updateWhere p
        (fun r => { r with collectedAt := some collectedAt, receivedAt := now })
        db.hostFacts })

/-- The hosts holding a document from `source`, in host id order. -/
def hostsWithSource (tenantId : Int) (source : String) (db : Db) : List String :=
  ((db.hostFacts.filter fun r => r.tenantId == tenantId && r.source == source).map
    HostFactsRow.hostId).insertionSort (fun a b => a ≤ b)

/-- A tenant's documents from any of `sources`, by host and source. -/
def documents (tenantId : Int) (sources : List String) (db : Db) :
    List (String × String × String) :=
  ((db.hostFacts.filter fun r =>
    r.tenantId == tenantId && sources.contains r.source).insertionSort
      (fun a b => a.hostId < b.hostId ∨ (a.hostId = b.hostId ∧ a.source ≤ b.source))).map
    fun r => (r.hostId, r.source, r.factsJson)

def delete (tenantId : Int) (hostId source : String) : Tx Bool :=
  Tx.total fun db =>
    (db.hostFacts.any (isDoc tenantId hostId source), { db with
      hostFacts := deleteWhere (isDoc tenantId hostId source) db.hostFacts
      hostFactChanges := deleteWhere (isChange tenantId hostId source) db.hostFactChanges })

def deleteSource (tenantId : Int) (source : String) : Tx (List String) :=
  Tx.total fun db =>
    let p := fun r : HostFactsRow => r.tenantId == tenantId && r.source == source
    ((db.hostFacts.filter p).map HostFactsRow.hostId, { db with
      hostFacts := deleteWhere p db.hostFacts
      hostFactChanges :=
        deleteWhere (fun r => r.tenantId == tenantId && r.source == source)
          db.hostFactChanges })

end HostFactsRepo

end Storage
end FleetServer
