import FleetServer.Facts.Store

/-!
# Importing facts from an operator's file

Each row is a facts document for one host.  A commit matches the rows, refuses
when any of them does not land on exactly one host of its own, and stores each
document through the one write path for facts.
-/

namespace FleetServer
namespace Facts

open FleetServer.Core
open Storage
open Server
open Concurrency

variable (deps : Deps)

def maxFactsBodyBytes : Nat := 4 * 1024 * 1024

structure PreparedRow where
  keys : List String
  hostId : Option String
  hash : String
  json : String
deriving DecidableEq

/-- A validated request, documents serialized and hashed. -/
structure Prepared where
  source : String
  keys : List KeyTarget
  normalize : Normalize
  collectedAt : Option String
  rows : List PreparedRow
  skip : List Nat
  prune : Bool
deriving DecidableEq

def bad {alpha : Type} (message : String) : Except Response alpha :=
  Except.error (Response.error 400 message)

/-!
# Validation
-/

def prepareKey (i : Nat) (v : Json) : Except Response String :=
  match v with
  | Json.null => Except.ok ""
  | other =>
      match scalarText other with
      | some s => Except.ok s
      | none => bad ("row " ++ toString i ++ ": key values must be strings")

def prepareRow (keyCount i : Nat) (row : ImportRow) : Except Response PreparedRow := do
  let hostId := row.hostId.filter fun h => !h.isEmpty
  if hostId = none ∧ row.keys.length ≠ keyCount then
    bad ("row " ++ toString i ++ ": " ++ toString row.keys.length ++ " key values for " ++
      toString keyCount ++ " keys")
  else
    let keys ← row.keys.mapM (prepareKey i)
    if !row.facts.isObject then
      bad ("row " ++ toString i ++ ": facts must be a JSON object")
    else
      let json := deps.jsonToString row.facts
      if maxFactsBodyBytes < byteLen json then
        Except.error (Response.error 413 ("row " ++ toString i ++
          ": facts document larger than " ++ toString maxFactsBodyBytes ++ " bytes"))
      else
        return { keys := keys, hostId := hostId, hash := deps.sha256Hex (utf8 json),
                 json := json }

def checkTargets : List KeyTarget -> Except Response Unit
  | [] => Except.ok ()
  | k :: rest =>
      match k.validate deps.debugStr with
      | Except.error message => bad message
      | Except.ok () => checkTargets rest

def prepareBody (body : ImportBody) : Except Response Prepared := do
  if !validImportName body.name then
    bad ("invalid import name: lowercase letters, digits and _ . - only, starting with a " ++
      "letter, no ':', not \"agent\", at most 57 characters")
  else if body.keys.isEmpty ∨ maxImportKeys < body.keys.length then
    bad ("between 1 and " ++ toString maxImportKeys ++ " keys are required")
  else
    checkTargets deps body.keys
    if body.rows.isEmpty then bad "no rows"
    else if maxImportRows < body.rows.length then
      bad ("too many rows (max " ++ toString maxImportRows ++ ")")
    else
      match body.skip.find? fun i => decide (body.rows.length ≤ i) with
      | some i => bad ("skip index " ++ toString i ++ " is out of range")
      | none =>
          let rows ← (body.rows.zipIdx).mapM fun r =>
            prepareRow deps body.keys.length r.2 r.1
          return { source := importSource body.name, keys := body.keys,
                   normalize := body.normalize,
                   collectedAt := clampCollectedAt body.collectedAt, rows := rows,
                   skip := body.skip.dedup, prune := body.prune }

def prepare (body : Bytes) : Except Response Prepared :=
  match deps.parseImportBody body with
  | Except.error text => bad ("invalid import body: " ++ text)
  | Except.ok body => prepareBody deps body

def isJsonContentType (contentType : Option String) : Bool :=
  contentType.any fun v =>
    toAsciiLowercase (trim (String.ofList (v.toList.takeWhile fun c => c != ';'))) ==
      "application/json"

/-- The checks every import route shares. -/
def accept (who : AuthedUser) (contentType : Option String) (body : Bytes) :
    Except Response Prepared :=
  if !who.role.canWriteConfig then Except.error (forbidden "change configuration")
  else if !isJsonContentType contentType then
    Except.error (Response.error 415 "expected Content-Type: application/json")
  else prepare deps body

/-!
# Matching
-/

def indexOf (hosts : List Host) (hostId : String) : Option Nat :=
  hosts.findIdx? fun h => h.id == hostId

def addHostField (field : HostField) (t : Nat) (index : KeyIndex) (h : Host × Nat) :
    KeyIndex :=
  match field with
  | HostField.id => index.add t h.2 h.1.id
  | HostField.hostname =>
      match h.1.hostname with
      | some name => index.add t h.2 name
      | none => index

def addValue (hosts : List Host) (t : Nat) (index : KeyIndex) (v : String × String) :
    KeyIndex :=
  match indexOf hosts v.1 with
  | some i => index.add t i v.2
  | none => index

def addTargets (tenantId : Int) (hosts : List Host) (t : Nat) (index : KeyIndex) :
    List KeyTarget -> Prog (Except StoreFailure KeyIndex)
  | [] => return Except.ok index
  | KeyTarget.host field :: rest =>
      addTargets tenantId hosts (t + 1)
        (hosts.zipIdx.foldl (addHostField field t) index) rest
  | KeyTarget.tag key :: rest =>
      askOr (Query.tagValuesForKey tenantId key) (Except.error StoreFailure.database)
        fun values =>
          addTargets tenantId hosts (t + 1) (values.foldl (addValue hosts t) index) rest
  | KeyTarget.fact _ _ :: rest => addTargets tenantId hosts (t + 1) index rest

def factTargets (keys : List KeyTarget) : List (Nat × String × FactPath) :=
  keys.zipIdx.filterMap fun k =>
    match k.1 with
    | KeyTarget.fact source path => some (k.2, source, path)
    | _ => none

def factValues (targets : List (Nat × String × FactPath)) (hostId : String)
    (facts : HostFacts) : List (Nat × String × String) :=
  targets.flatMap fun t =>
    match facts t.2.1 with
    | some doc => (factKeyValues t.2.2 doc).map fun v => (t.1, hostId, v)
    | none => []

def buildIndex (tenantId : Int) (keys : List KeyTarget) (normalize : Normalize) :
    Prog (Except StoreFailure (List Host × KeyIndex)) :=
  askOr (Query.hosts tenantId) (Except.error StoreFailure.database) fun hosts => do
    let empty := KeyIndex.new keys.length normalize deps.toLowercase
    match ← addTargets tenantId hosts 0 empty keys with
    | Except.error e => return Except.error e
    | Except.ok index =>
        let targets := factTargets keys
        let values ← foldHostFacts deps tenantId
          (sortedSet (targets.map fun t => t.2.1)) []
          (fun acc hostId facts => acc ++ factValues targets hostId facts)
        match values with
        | Except.error e => return Except.error e
        | Except.ok values =>
            return Except.ok (hosts,
              values.foldl (fun index v => addValue hosts v.1 index v.2) index)

def rowKey (hosts : List Host) (p : Prepared) (r : PreparedRow × Nat) : RowKey :=
  if p.skip.contains r.2 then RowKey.skipped
  else
    match r.1.hostId with
    | some h => RowKey.host (indexOf hosts h)
    | none => RowKey.keys r.1.keys

def matchRows (hosts : List Host) (index : KeyIndex) (p : Prepared) : List Resolution :=
  resolveRows index (p.rows.zipIdx.map (rowKey hosts p))

def rowStatus (hosts : List Host) : Resolution -> RowStatus
  | Resolution.matched h =>
      RowStatus.matched ((hosts[h]?.map Host.id).getD "") (hosts[h]?.bind Host.hostname)
  | Resolution.ambiguous hs =>
      RowStatus.ambiguous (hs.filterMap fun h => hosts[h]?.map Host.id)
  | Resolution.unmatched => RowStatus.unmatched
  | Resolution.duplicate h of =>
      RowStatus.duplicate ((hosts[h]?.map Host.id).getD "") of
  | Resolution.skipped => RowStatus.skipped

def rowView (hosts : List Host) (r : Resolution × Nat) : RowView :=
  { index := r.2, status := rowStatus hosts r.1 }

def isOffending : Resolution -> Bool
  | Resolution.matched _ => false
  | Resolution.skipped => false
  | _ => true

/-!
# resolve
-/

def maxAbsentShown : Nat := 500

def resolveStats (resolved : List Resolution) : ResolveStats :=
  { matched := resolved.countP fun r => r matches Resolution.matched _
    ambiguous := resolved.countP fun r => r matches Resolution.ambiguous _
    unmatched := resolved.countP fun r => r matches Resolution.unmatched
    duplicate := resolved.countP fun r => r matches Resolution.duplicate _ _
    skipped := resolved.countP fun r => r matches Resolution.skipped }

/-- The order absent hosts are shown in: holders of the source first, then by
name, hosts without one last, then by id. -/
def absentLe (a b : AbsentHost) : Bool :=
  if a.hasSource != b.hasSource then a.hasSource
  else if a.hostname != b.hostname then
    match a.hostname, b.hostname with
    | some x, some y => decide (x ≤ y)
    | some _, none => true
    | none, _ => false
  else decide (a.id ≤ b.id)

def absentHosts (hosts : List Host) (holding : List String) (resolved : List Resolution) :
    List AbsentHost :=
  let absent := hosts.zipIdx.filter fun h => !resolved.contains (Resolution.matched h.2)
  (absent.map fun h =>
    { id := h.1.id, hostname := h.1.hostname, hasSource := holding.contains h.1.id }).insertionSort
      (fun a b => absentLe a b = true)

/-- Match every row and write nothing. -/
def resolve (who : AuthedUser) (contentType : Option String) (body : Bytes) : Prog Response :=
  guarded (accept deps who contentType body) fun p => do
    match ← buildIndex deps who.tenantId p.keys p.normalize with
    | Except.error _ => return Response.internal
    | Except.ok (hosts, index) =>
        askOr (Query.hostsWithSource who.tenantId p.source) Response.internal fun holding =>
          let resolved := matchRows hosts index p
          let absent := absentHosts hosts holding resolved
          return Response.ok (Payload.resolvedRows p.source (resolved.zipIdx.map (rowView hosts))
            (absent.take maxAbsentShown) absent.length (resolveStats resolved))

/-!
# commit
-/

structure CommitTally where
  stored : Nat
  unchanged : Nat
  pruned : Nat
  failed : Nat

def CommitTally.zero : CommitTally :=
  { stored := 0, unchanged := 0, pruned := 0, failed := 0 }

def CommitTally.count (out : CommitTally) : ReplaceOutcome -> CommitTally
  | ReplaceOutcome.stored => { out with stored := out.stored + 1 }
  | ReplaceOutcome.unchanged => { out with unchanged := out.unchanged + 1 }
  | ReplaceOutcome.conflict => { out with failed := out.failed + 1 }
  | ReplaceOutcome.noHost => { out with failed := out.failed + 1 }

def matchedRows (hosts : List Host) (rows : List PreparedRow) (resolved : List Resolution) :
    List (String × PreparedRow) :=
  (rows.zip resolved).filterMap fun r =>
    match r.2 with
    | Resolution.matched h => hosts[h]?.map fun host => (host.id, r.1)
    | _ => none

def storeRows (tenantId : Int) (p : Prepared) (out : CommitTally) :
    List (String × PreparedRow) -> Prog (CommitTally × Bool)
  | [] => return (out, true)
  | (hostId, row) :: rest => do
      match ← store deps tenantId hostId p.source row.hash row.json p.collectedAt with
      | Except.ok outcome => storeRows tenantId p (out.count outcome) rest
      | Except.error _ => return (out, false)

/-- Delete the source's document from hosts the file does not name. -/
def pruneHosts (tenantId : Int) (source : String) (out : CommitTally) :
    List String -> Prog (CommitTally × Bool)
  | [] => return (out, true)
  | hostId :: rest => do
      match ← remove tenantId hostId source false with
      | Except.ok true =>
          pruneHosts tenantId source { out with pruned := out.pruned + 1 } rest
      | Except.ok false => pruneHosts tenantId source out rest
      | Except.error _ => return (out, false)

def pruneAbsent (tenantId : Int) (p : Prepared) (present : List String)
    (out : CommitTally) : Prog (CommitTally × Bool) :=
  askOr (Query.hostsWithSource tenantId p.source) (out, false) fun holding =>
    pruneHosts tenantId p.source out (holding.filter fun h => !present.contains h)

/-- Store and prune, as far as the calls succeed. -/
def commitRows (tenantId : Int) (p : Prepared) (rows : List (String × PreparedRow)) :
    Prog (CommitTally × Bool) := do
  let stored ← storeRows deps tenantId p CommitTally.zero rows
  if stored.2 && p.prune then pruneAbsent tenantId p (rows.map Prod.fst) stored.1
  else return stored

def commitAnswer (p : Prepared) (done : CommitTally × Bool) : Response :=
  if done.2 then
    Response.ok (Payload.imported p.source done.1.stored done.1.unchanged p.skip.length
      done.1.pruned done.1.failed)
  else
    Response.error 500 ("import failed part way: " ++ toString done.1.stored ++ " stored, " ++
      toString done.1.pruned ++ " pruned before the failure")

def commit (who : AuthedUser) (contentType : Option String) (body : Bytes) :
    Prog Response :=
  guarded (accept deps who contentType body) fun p => do
    match ← buildIndex deps who.tenantId p.keys p.normalize with
    | Except.error _ => return Response.internal
    | Except.ok (hosts, index) =>
        let resolved := matchRows hosts index p
        let offending := resolved.zipIdx.filter fun r => isOffending r.1
        if !offending.isEmpty then
          return { status := 409,
                   payload := Payload.unresolvedRows (offending.map (rowView hosts)) }
        else
          let done ← commitRows deps who.tenantId p (matchedRows hosts p.rows resolved)
          if 0 < done.1.stored ∨ 0 < done.1.pruned then
            bumpCatalog who.tenantId CatalogChange.operator
          return commitAnswer p done

/-!
# Deleting imported documents
-/

def deletableSource (source : String) : Except Response Unit :=
  if source = agentSource then
    bad "the agent's own facts cannot be deleted; they are replaced by its next upload"
  else if !validSource source then bad "invalid facts source"
  else Except.ok ()

def mayDelete (who : AuthedUser) (source : String) : Except Response Unit :=
  if !who.role.canWriteConfig then Except.error (forbidden "change configuration")
  else deletableSource source

def deleteHostSource (who : AuthedUser) (hostId source : String) : Prog Response :=
  guarded (mayDelete who source) fun () =>
    askOr (Query.host who.tenantId hostId) Response.internal fun
      | none => return Response.error 404 "host not found"
      | some _ => do
          match ← remove who.tenantId hostId source true with
          | Except.ok true => return Response.noContent
          | Except.ok false =>
              return Response.error 404 "the host holds no document from this source"
          | Except.error _ => return Response.internal

def deleteSource (who : AuthedUser) (source : String) : Prog Response :=
  guarded (mayDelete who source) fun () => do
    match ← removeSource who.tenantId source with
    | Except.ok deleted => return Response.ok (Payload.deleted deleted)
    | Except.error _ => return Response.internal

end Facts
end FleetServer
