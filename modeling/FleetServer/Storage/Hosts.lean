import FleetServer.Storage.Schema

/-!
# Hosts, their certificates and their overrides

`HostRepo`, `HostCertRepo` and `HostOverridesRepo`.  A function that changes the
database takes the clock it stamps rows with.
-/

namespace FleetServer
namespace Storage

open Table

/-- A host row as it is handed out: without its nonce. -/
structure Host where
  id : String
  tenantId : Int
  hostname : Option String
  os : Option String
  enrolledAt : Option Int
  lastSeenAt : Option Int
  currentStateHash : Option String
  bootstrapExpiresAt : Option Int
  localConfigPresent : Option Bool
  hostOverrideLast : Option Bool
  createdAt : Int

def mapHost (r : HostRow) : Host :=
  { id := r.id, tenantId := r.tenantId, hostname := r.hostname, os := r.os,
    enrolledAt := r.enrolledAt, lastSeenAt := r.lastSeenAt,
    currentStateHash := r.currentStateHash, bootstrapExpiresAt := r.bootstrapExpiresAt,
    localConfigPresent := r.localConfigPresent, hostOverrideLast := r.hostOverrideLast,
    createdAt := r.createdAt }

/-- A fresh row: created, nothing known about it yet. -/
def newHostRow (id : String) (tenantId now : Int) : HostRow :=
  { id := id, tenantId := tenantId, hostname := none, os := none, enrolledAt := none,
    lastSeenAt := none, currentStateHash := none, bootstrapNonceHash := none,
    bootstrapExpiresAt := none, localConfigPresent := none, hostOverrideLast := none,
    factsReportedHash := none, factsReportedAt := none, factsRefusedHash := none,
    factsRefusedAt := none, factsRefusedStatus := none, createdAt := now }

/-- `WHERE tenant_id = ? AND id = ?`. -/
def isHost (tenantId : Int) (hostId : String) (h : HostRow) : Bool :=
  h.tenantId == tenantId && h.id == hostId

theorem isHost_iff {tenantId : Int} {hostId : String} {h : HostRow} :
    isHost tenantId hostId h = true <-> h.tenantId = tenantId ∧ h.id = hostId := by
  simp [isHost]

/-- `WHERE tenant_id = ? AND host_id = ?`. -/
def ofHost (tenantId : Int) (hostId : String) (rowTenant : Int) (rowHost : String) : Bool :=
  rowTenant == tenantId && rowHost == hostId

structure EnrolledCert where
  serial : String
  fingerprintSha256 : String
  issuedAt : Int
  expiresAt : Int

def certRow (tenantId : Int) (hostId : String) (cert : EnrolledCert) : HostCertRow :=
  { tenantId := tenantId, hostId := hostId, serial := cert.serial,
    fingerprintSha256 := cert.fingerprintSha256, issuedAt := cert.issuedAt,
    expiresAt := cert.expiresAt, revokedAt := none }

def insertCert (row : HostCertRow) : Tx Unit :=
  Tx.guarded
    (fun db => db.hasTenant row.tenantId && db.hasHost row.hostId &&
      !(db.hostCerts.any fun c => c.serial == row.serial))
    (fun db => ((), { db with hostCerts := db.hostCerts ++ [row] }))

namespace HostRepo

def get (tenantId : Int) (hostId : String) (db : Db) : Option Host :=
  (db.hosts.find? (isHost tenantId hostId)).map mapHost

def list (tenantId : Int) (db : Db) : List Host :=
  ((db.hosts.filter fun h => h.tenantId == tenantId).map mapHost).insertionSort
    (fun a b => b.createdAt ≤ a.createdAt)

/-- Whether a row counts against `max_hosts`: enrolled, or created within the
last day. -/
def isActive (now : Int) (h : HostRow) : Bool :=
  h.enrolledAt.isSome || (h.enrolledAt.isNone && decide (now - 86400 < h.createdAt))

def countActive (tenantId now : Int) (db : Db) : Nat :=
  affected (fun h => h.tenantId == tenantId && isActive now h) db.hosts

def createPending (id : String) (tenantId : Int) (nonceHash : String)
    (bootstrapExpiresAt now : Int) : Tx Host :=
  let row := { newHostRow id tenantId now with
    bootstrapNonceHash := some nonceHash
    bootstrapExpiresAt := some bootstrapExpiresAt }
  Tx.guarded (fun db => db.hasTenant tenantId && !db.hasHost id)
    (fun db => (mapHost row, { db with hosts := db.hosts ++ [row] }))

def waitsFor (tenantId : Int) (hostId nonceHash : String) (now : Int) (h : HostRow) :
    Bool :=
  isHost tenantId hostId h && h.bootstrapNonceHash == some nonceHash &&
    h.enrolledAt.isNone && h.bootstrapExpiresAt.any (fun e => decide (now < e))

def bootstrapPending (tenantId : Int) (hostId nonceHash : String) (now : Int) (db : Db) :
    Bool :=
  db.hosts.any (waitsFor tenantId hostId nonceHash now)

def enrolled (hostname os : Option String) (now : Int) (h : HostRow) : HostRow :=
  { h with
    enrolledAt := some now
    hostname := hostname.orElse fun _ => h.hostname
    os := os.orElse fun _ => h.os
    bootstrapNonceHash := none
    bootstrapExpiresAt := none }

/-- Burn the nonce and record the certificate, or neither. -/
def enroll (tenantId : Int) (hostId nonceHash : String) (hostname os : Option String)
    (cert : EnrolledCert) (now : Int) : Tx Bool := fun db =>
  let waiting := waitsFor tenantId hostId nonceHash now
  if affected waiting db.hosts ≠ 1 then Except.ok (false, db)
  else
    let burned := { db with
      hosts := updateWhere waiting (enrolled hostname os now) db.hosts }
    match insertCert (certRow tenantId hostId cert) burned with
    | Except.error e => Except.error e
    | Except.ok ((), db) => Except.ok (true, db)

def delete (tenantId : Int) (hostId : String) : Tx Bool := fun db =>
  let db' := { db with
    hostTags := deleteWhere (fun r => ofHost tenantId hostId r.tenantId r.hostId) db.hostTags
    hostOverrides :=
      deleteWhere (fun r => ofHost tenantId hostId r.tenantId r.hostId) db.hostOverrides
    hostFacts := deleteWhere (fun r => ofHost tenantId hostId r.tenantId r.hostId) db.hostFacts
    hostFactChanges :=
      deleteWhere (fun r => ofHost tenantId hostId r.tenantId r.hostId) db.hostFactChanges
    hostCerts := deleteWhere (fun r => ofHost tenantId hostId r.tenantId r.hostId) db.hostCerts }
  let found := db.hosts.any (isHost tenantId hostId)
  if found && db'.hostReferenced hostId then Except.error DbError.constraint
  else Except.ok (found, { db' with hosts := deleteWhere (isHost tenantId hostId) db'.hosts })

def setHost (tenantId : Int) (hostId : String) (p : HostRow -> Bool)
    (f : HostRow -> HostRow) : Tx Bool :=
  Tx.total fun db =>
    (db.hosts.any (fun h => isHost tenantId hostId h && p h), { db with
      hosts := updateWhere (fun h => isHost tenantId hostId h && p h) f db.hosts })

/-- As `setHost`, for a caller that does not ask what matched. -/
def setHost_ (tenantId : Int) (hostId : String) (p : HostRow -> Bool)
    (f : HostRow -> HostRow) : Tx Unit :=
  Tx.total fun db =>
    ((), { db with
      hosts := updateWhere (fun h => isHost tenantId hostId h && p h) f db.hosts })

def touchLastSeen (tenantId : Int) (hostId : String) (now : Int) : Tx Unit :=
  setHost_ tenantId hostId (fun _ => true) fun h => { h with lastSeenAt := some now }

def touchLastSeenIfStale (tenantId : Int) (hostId : String) (staleAfterSecs now : Int) :
    Tx Unit :=
  setHost_ tenantId hostId
    (fun h => h.lastSeenAt.all fun seen => decide (seen ≤ now - staleAfterSecs))
    fun h => { h with lastSeenAt := some now }

/-- Whether the stored answer changed. -/
def setLocalConfigPresent (tenantId : Int) (hostId : String) (present : Bool) : Tx Bool :=
  setHost tenantId hostId (fun h => h.localConfigPresent != some present)
    fun h => { h with localConfigPresent := some present }

def setHostOverrideLast (tenantId : Int) (hostId : String) (last : Bool) : Tx Bool :=
  setHost tenantId hostId (fun h => h.hostOverrideLast != some last)
    fun h => { h with hostOverrideLast := some last }

def updateCurrentStateHash (tenantId : Int) (hostId stateHash : String) (now : Int) :
    Tx Unit :=
  setHost_ tenantId hostId (fun _ => true) fun h =>
    { h with currentStateHash := some stateHash, lastSeenAt := some now }

/-- Revoke the host's live certificates and give it a new nonce; the number of
certificates revoked, or `none` when there is no such host. -/
def revokeCertsAndResetToPending (tenantId : Int) (hostId nonceHash : String)
    (bootstrapExpiresAt now : Int) : Tx (Option Nat) :=
  Tx.total fun db =>
    let live := fun c : HostCertRow =>
      ofHost tenantId hostId c.tenantId c.hostId && c.revokedAt.isNone
    if db.hosts.any (isHost tenantId hostId) then
      (some (affected live db.hostCerts), { db with
        hostCerts := updateWhere live (fun c => { c with revokedAt := some now }) db.hostCerts
        hosts := updateWhere (isHost tenantId hostId)
          (fun h => { h with
            enrolledAt := none
            bootstrapNonceHash := some nonceHash
            bootstrapExpiresAt := some bootstrapExpiresAt }) db.hosts })
    else (none, db)

end HostRepo

/-!
# Certificates

The rowid order of the table is the insertion order of the list.
-/

/-- What a presented certificate is worth: live, and how many live ones of the
same host it leaves behind. -/
structure CertStanding where
  active : Bool
  superseded : Nat
deriving DecidableEq

namespace HostCertRepo

def record (tenantId : Int) (hostId : String) (cert : EnrolledCert) : Tx Unit :=
  insertCert (certRow tenantId hostId cert)

def isLive (tenantId : Int) (hostId : String) (now : Int) (c : HostCertRow) : Bool :=
  ofHost tenantId hostId c.tenantId c.hostId && c.revokedAt.isNone &&
    decide (now < c.expiresAt)

/-- How many of `certs` come before the first one with `serial`. -/
def supersededBy (serial : String) (certs : List HostCertRow) : CertStanding :=
  match certs.findIdx? fun c => c.serial == serial with
  | none => { active := false, superseded := 0 }
  | some i => { active := true, superseded := i }

def standing (tenantId : Int) (hostId serial : String) (now : Int) (db : Db) :
    CertStanding :=
  supersededBy serial (db.hostCerts.filter (isLive tenantId hostId now))

def retireRows (tenantId : Int) (hostId serial : String) (now : Int) :
    List HostCertRow -> List HostCertRow
  | [] => []
  | c :: rest =>
      if ofHost tenantId hostId c.tenantId c.hostId && c.serial == serial then c :: rest
      else
        (if isLive tenantId hostId now c then { c with revokedAt := some now } else c) ::
          retireRows tenantId hostId serial now rest

/-- Revoke every live certificate of the host older than `serial`; none when the
host has no certificate with that serial. -/
def retireSuperseded (tenantId : Int) (hostId serial : String) (now : Int) : Tx Nat :=
  Tx.total fun db =>
    if db.hostCerts.any fun c =>
        ofHost tenantId hostId c.tenantId c.hostId && c.serial == serial then
      (affected (isLive tenantId hostId now)
        (db.hostCerts.takeWhile fun c =>
          !(ofHost tenantId hostId c.tenantId c.hostId && c.serial == serial)),
        { db with hostCerts := retireRows tenantId hostId serial now db.hostCerts })
    else (0, db)

end HostCertRepo

/-!
# Overrides
-/

structure StoredHostOverride where
  hostId : String
  patchEncrypted : Core.Bytes
  priority : Int
  template : Option String

namespace HostOverridesRepo

def get (tenantId : Int) (hostId : String) (db : Db) : Option StoredHostOverride :=
  (db.hostOverrides.find? fun r => ofHost tenantId hostId r.tenantId r.hostId).map fun r =>
    { hostId := r.hostId, patchEncrypted := r.patchEncrypted, priority := r.priority,
      template := r.template }

def upsert (row : HostOverrideRow) : Tx Unit :=
  Tx.guarded (fun db => db.hasTenant row.tenantId && db.hasHost row.hostId)
    (fun db => ((), { db with
      hostOverrides := Table.upsert (fun r => r.hostId == row.hostId) (fun _ => row) row
        db.hostOverrides }))

def delete (tenantId : Int) (hostId : String) : Tx Bool :=
  Tx.total fun db =>
    (db.hostOverrides.any (fun r => ofHost tenantId hostId r.tenantId r.hostId), { db with
      hostOverrides :=
        deleteWhere (fun r => ofHost tenantId hostId r.tenantId r.hostId) db.hostOverrides })

end HostOverridesRepo

end Storage
end FleetServer
