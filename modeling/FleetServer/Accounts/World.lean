import FleetServer.Concurrency.Record
import FleetServer.Core.Crypto
import FleetServer.Core.Json
import FleetServer.Core.Split
import FleetServer.Server.Response
import FleetServer.Storage.Schema

/-!
# Accounts and the tables they are kept in

Users, the credentials that name them, and the tenants they belong to.  The
requests on them read and write these tables one statement or transaction at a
time, next to the rest of the server, whose tables they leave alone.
-/

namespace FleetServer
namespace Accounts

open FleetServer.Core
open Concurrency
open Server (Role)
open Storage (Tenant TenantSecretsRow DbError)

/-!
# Rows
-/

structure User where
  id : Int
  tenantId : Int
  email : String
  role : Role
  blockedAt : Option Int
  isPlatformAdmin : Bool
  createdAt : Int
deriving DecidableEq

def User.isBlocked (u : User) : Bool :=
  u.blockedAt.isSome

structure Session where
  idHash : String
  tenantId : Int
  userId : Int
  expiresAt : Int
  lastUsedAt : Int
  createdAt : Int

structure ApiKeyRow where
  id : String
  tenantId : Int
  userId : Int
  tokenHash : String
  expiresAt : Option Int
  lastUsedAt : Option Int

structure MagicLinkRow where
  tokenHash : String
  tenantId : Int
  userId : Int
  expiresAt : Int
  usedAt : Option Int
  createdAt : Int

structure AuditRow where
  tenantId : Int
  userId : Option Int
  action : String
  targetType : String
  targetId : String
  metadata : Option Json
  ts : Int

structure OverrideAuthorRow where
  tenantId : Int
  hostId : String
  updatedByUser : Option Int

structure SettingRow where
  key : String
  value : String
  updatedByUser : Option Int

structure Tables where
  tenants : List Tenant
  tenantSecrets : List TenantSecretsRow
  users : List User
  sessions : List Session
  apiKeys : List ApiKeyRow
  magicLinks : List MagicLinkRow
  auditLog : List AuditRow
  overrideAuthors : List OverrideAuthorRow
  platformSettings : List SettingRow

namespace Tables

def hasTenant (db : Tables) (id : Int) : Bool :=
  db.tenants.any fun t => t.id == id

def hasUser (db : Tables) (id : Int) : Bool :=
  db.users.any fun u => u.id == id

def userReferenced (db : Tables) (id : Int) : Bool :=
  db.sessions.any (fun r => r.userId == id) || db.apiKeys.any (fun r => r.userId == id) ||
    db.magicLinks.any (fun r => r.userId == id) ||
    db.auditLog.any (fun r => r.userId == some id) ||
    db.overrideAuthors.any (fun r => r.updatedByUser == some id) ||
    db.platformSettings.any (fun r => r.updatedByUser == some id)

end Tables

def nextId (ids : List Int) : Int :=
  ids.foldl max 0 + 1

/-- A statement or a transaction: it is carried out, or it is refused and leaves
the tables as they were. -/
abbrev Stmt (alpha : Type) : Type := Tables -> Except DbError (alpha × Tables)

def Stmt.read {alpha : Type} (f : Tables -> alpha) : Stmt alpha :=
  fun db => Except.ok (f db, db)

/-- A statement the constraints refuse unless `ok` holds. -/
def Stmt.guarded {alpha : Type} (ok : Tables -> Bool) (f : Tables -> alpha × Tables) :
    Stmt alpha :=
  fun db => if ok db then Except.ok (f db) else Except.error DbError.constraint

/-!
# Users
-/

namespace UserRepo

def atId (id : Int) (u : User) : Bool :=
  u.id == id

def atTenantId (tenantId id : Int) (u : User) : Bool :=
  u.tenantId == tenantId && u.id == id

def create (now tenantId : Int) (email : String) (role : Role) : Stmt User :=
  Stmt.guarded (fun db => db.hasTenant tenantId && !db.users.any fun u => u.email == email)
    fun db =>
      let user : User :=
        { id := nextId (db.users.map User.id), tenantId := tenantId, email := email, role := role,
          blockedAt := none, isPlatformAdmin := false, createdAt := now }
      (user, { db with users := db.users ++ [user] })

def getAny (id : Int) (db : Tables) : Option User :=
  db.users.find? (atId id)

def get (tenantId id : Int) (db : Tables) : Option User :=
  db.users.find? (atTenantId tenantId id)

def findByEmail (email : String) (db : Tables) : Option User :=
  db.users.find? fun u => u.email == email

/-- Blocking signs the user out in the same transaction. -/
def setBlocked (now id : Int) (blocked : Bool) (db : Tables) : Bool × Tables :=
  (Table.affected (atId id) db.users == 1,
    { db with
      users := Table.updateWhere (atId id)
        (fun u => { u with blockedAt := if blocked then some now else none }) db.users
      sessions :=
        if blocked then Table.deleteWhere (fun s => s.userId == id) db.sessions
        else db.sessions })

def setPlatformAdmin (id : Int) (isAdmin : Bool) (db : Tables) : Bool × Tables :=
  (Table.affected (atId id) db.users == 1,
    { db with
      users := Table.updateWhere (atId id)
        (fun u => { u with isPlatformAdmin := isAdmin }) db.users })

def owns (tenantId : Int) (u : User) : Bool :=
  u.tenantId == tenantId && u.role == Role.owner

def countOwners (tenantId : Int) (db : Tables) : Nat :=
  db.users.countP (owns tenantId)

def setRole (tenantId id : Int) (role : Role) (db : Tables) : Bool × Tables :=
  (Table.affected (atTenantId tenantId id) db.users == 1,
    { db with
      users := Table.updateWhere (atTenantId tenantId id) (fun u => { u with role := role })
        db.users })

/-- What a user leaves behind, removed or no longer attributed to it. -/
def detach (tenantId id : Int) (db : Tables) : Tables :=
  { db with
    sessions := Table.deleteWhere (fun s => s.tenantId == tenantId && s.userId == id) db.sessions
    magicLinks :=
      Table.deleteWhere (fun l => l.tenantId == tenantId && l.userId == id) db.magicLinks
    apiKeys := Table.deleteWhere (fun k => k.tenantId == tenantId && k.userId == id) db.apiKeys
    auditLog := Table.updateWhere (fun r => r.tenantId == tenantId && r.userId == some id)
      (fun r => { r with userId := none }) db.auditLog
    overrideAuthors :=
      Table.updateWhere (fun r => r.tenantId == tenantId && r.updatedByUser == some id)
        (fun r => { r with updatedByUser := none }) db.overrideAuthors
    platformSettings := Table.updateWhere (fun r => r.updatedByUser == some id)
      (fun r => { r with updatedByUser := none }) db.platformSettings }

/-- Refused while a row that stays still refers to the user. -/
def delete (tenantId id : Int) : Stmt Bool :=
  Stmt.guarded
    (fun db =>
      !(db.users.any (atTenantId tenantId id)) || !(detach tenantId id db).userReferenced id)
    fun db =>
      (Table.affected (atTenantId tenantId id) db.users == 1,
        { detach tenantId id db with
          users := Table.deleteWhere (atTenantId tenantId id) db.users })

end UserRepo

/-!
# Credentials
-/

namespace SessionRepo

def live (now idleTtl : Int) (idHash : String) (s : Session) : Bool :=
  s.idHash == idHash && now < s.expiresAt && now - idleTtl < s.lastUsedAt

def touch (now idleTtl : Int) (idHash : String) (db : Tables) : Option Session × Tables :=
  ((db.sessions.find? (live now idleTtl idHash)).map fun s => { s with lastUsedAt := now },
    { db with
      sessions := Table.updateWhere (live now idleTtl idHash)
        (fun s => { s with lastUsedAt := now }) db.sessions })

end SessionRepo

namespace ApiKeyRepo

def findByHash (now : Int) (tokenHash : String) (db : Tables) : Option ApiKeyRow :=
  db.apiKeys.find? fun k =>
    k.tokenHash == tokenHash &&
      match k.expiresAt with
      | none => true
      | some at_ => now < at_

def touchLastUsed (now : Int) (id : String) (db : Tables) : Unit × Tables :=
  ((),
    { db with
      apiKeys := Table.updateWhere (fun k => k.id == id)
        (fun k => { k with lastUsedAt := some now }) db.apiKeys })

end ApiKeyRepo

namespace MagicLinkRepo

def create (now : Int) (tokenHash : String) (tenantId userId expiresAt : Int) : Stmt Unit :=
  Stmt.guarded
    (fun db => db.hasTenant tenantId && db.hasUser userId &&
      !db.magicLinks.any fun l => l.tokenHash == tokenHash)
    fun db =>
      ((),
        { db with
          magicLinks := db.magicLinks ++
            [{ tokenHash := tokenHash, tenantId := tenantId, userId := userId,
               expiresAt := expiresAt, usedAt := none, createdAt := now }] })

end MagicLinkRepo

namespace AuditRepo

def record (row : AuditRow) : Stmt Unit :=
  Stmt.guarded
    (fun db => db.hasTenant row.tenantId &&
      match row.userId with
      | none => true
      | some id => db.hasUser id)
    fun db => ((), { db with auditLog := db.auditLog ++ [row] })

end AuditRepo

/-!
# Tenants
-/

/-- The slug rule, which the table checks too. -/
def validSlug (s : String) : Bool :=
  !s.isEmpty && byteLen s ≤ 63 &&
    s.toList.all (fun c => isAsciiLowercase c || isAsciiDigit c || c == '-') &&
    s.toList.head? != some '-' && s.toList.getLast? != some '-'

namespace TenantRepo

def create (now : Int) (slug name tier : String) (trialExpiresAt : Option Int) : Stmt Tenant :=
  Stmt.guarded (fun db => validSlug slug && !db.tenants.any fun t => t.slug == slug)
    fun db =>
      let tenant : Tenant :=
        { id := nextId (db.tenants.map Tenant.id), slug := slug, name := name, tier := tier,
          tierOverridesJson := none, trialExpiresAt := trialExpiresAt, configVersion := 0,
          createdAt := now }
      (tenant, { db with tenants := db.tenants ++ [tenant] })

def getBySlug (slug : String) (db : Tables) : Option Tenant :=
  db.tenants.find? fun t => t.slug == slug

end TenantRepo

namespace TenantSecretsRepo

def getByTenant (tenantId : Int) (db : Tables) : Option TenantSecretsRow :=
  db.tenantSecrets.find? fun s => s.tenantId == tenantId

/-- One row for a tenant, and no two tenants share a CA subject. -/
def create (row : TenantSecretsRow) : Stmt Unit :=
  Stmt.guarded
    (fun db => db.hasTenant row.tenantId &&
      !db.tenantSecrets.any fun s =>
        s.tenantId == row.tenantId || s.caSubjectDn == row.caSubjectDn)
    fun db => ((), { db with tenantSecrets := db.tenantSecrets ++ [row] })

end TenantSecretsRepo

namespace PlatformSettingsRepo

def get (key : String) (db : Tables) : Option String :=
  (db.platformSettings.find? fun r => r.key == key).map SettingRow.value

end PlatformSettingsRepo

/-!
# Calls
-/

inductive RateDecision where
  | allow
  | emailLimited
  | ipLimited
  | budgetExceeded

def maxEmailLen : Nat := 254

/-- One `@`, something before it, and a dot inside what follows it. -/
def plausibleParts : Option (List Char × List Char) -> Bool
  | none => false
  | some (user, domain) =>
      !domain.contains '@' && !user.isEmpty && domain.contains '.' &&
        domain.head? != some '.' && domain.getLast? != some '.'

/-- The shape an address needs before a limiter is keyed on it. -/
def plausibleEmail (email : String) : Bool :=
  if email.isEmpty || decide (maxEmailLen < byteLen email) then false
  else if email.toList.any fun c => isWhitespace c || isControl c then false
  else plausibleParts (splitOnce '@' email.toList)

structure TenantCa where
  certPem : String
  keyPem : String
  subjectDn : String
  bundleSigningKeyPem : String
  bundleSigningPubPem : String

/-- What the requests meet outside the tables.  `rateLimits` is what the quotas
of the address and of the caller answer. -/
structure Surroundings where
  now : Int
  rateLimits : String -> RateDecision
  turnstile : String -> Bool
  generateTenantCa : String -> Option TenantCa
  sendMagicLink : String -> Bool

structure World where
  db : Tables
  around : Surroundings

inductive Op where
  | touch (idleTtl : Int) (idHash : String)
  | findByHash (tokenHash : String)
  | touchLastUsed (id : String)
  | getUser (tenantId id : Int)
  | getAny (id : Int)
  | findByEmail (email : String)
  | countOwners (tenantId : Int)
  | setBlocked (id : Int) (blocked : Bool)
  | setPlatformAdmin (id : Int) (isAdmin : Bool)
  | setRole (tenantId id : Int) (role : Role)
  | deleteUser (tenantId id : Int)
  | createUser (tenantId : Int) (email : String) (role : Role)
  | createLink (tokenHash : String) (tenantId userId expiresAt : Int)
  | record (row : AuditRow)
  | getSetting (key : String)
  | getBySlug (slug : String)
  | createTenant (slug name tier : String) (trialExpiresAt : Option Int)
  | secretsOf (tenantId : Int)
  | createSecrets (row : TenantSecretsRow)
  | nowUnix
  | rateLimit (email : String)
  | turnstile (token : String)
  | generateTenantCa (slug : String)
  | sendMagicLink (email link : String)

@[reducible] def Op.Res : Op -> Type
  | touch _ _ => Except DbError (Option Session)
  | findByHash _ => Except DbError (Option ApiKeyRow)
  | touchLastUsed _ => Except DbError Unit
  | getUser _ _ => Except DbError (Option User)
  | getAny _ => Except DbError (Option User)
  | findByEmail _ => Except DbError (Option User)
  | countOwners _ => Except DbError Nat
  | setBlocked _ _ => Except DbError Bool
  | setPlatformAdmin _ _ => Except DbError Bool
  | setRole _ _ _ => Except DbError Bool
  | deleteUser _ _ => Except DbError Bool
  | createUser _ _ _ => Except DbError User
  | createLink _ _ _ _ => Except DbError Unit
  | record _ => Except DbError Unit
  | getSetting _ => Except DbError (Option String)
  | getBySlug _ => Except DbError (Option Tenant)
  | createTenant _ _ _ _ => Except DbError Tenant
  | secretsOf _ => Except DbError (Option TenantSecretsRow)
  | createSecrets _ => Except DbError Unit
  | nowUnix => Int
  | rateLimit _ => RateDecision
  | turnstile _ => Bool
  | generateTenantCa _ => Option TenantCa
  | sendMagicLink _ _ => Bool

namespace World

/-- Carry a statement out. -/
def apply {alpha : Type} (w : World) (stmt : Stmt alpha) : Except DbError alpha × World :=
  match stmt w.db with
  | Except.ok (a, db) => (Except.ok a, { w with db := db })
  | Except.error e => (Except.error e, w)

/-- A statement that no constraint refuses. -/
def change {alpha : Type} (w : World) (f : Tables -> alpha × Tables) :
    Except DbError alpha × World :=
  w.apply fun db => Except.ok (f db)

/-- A query. -/
def look {alpha : Type} (w : World) (f : Tables -> alpha) : Except DbError alpha × World :=
  w.apply (Stmt.read f)

end World

/-- `AuthRateLimits::check`: no quota is looked at for what is no address. -/
def Surroundings.checkRate (around : Surroundings) (email : String) : RateDecision :=
  if !plausibleEmail email then RateDecision.emailLimited
  else around.rateLimits email

def exec : (op : Op) -> World -> op.Res × World
  | Op.touch idleTtl idHash, w => w.change (SessionRepo.touch w.around.now idleTtl idHash)
  | Op.findByHash tokenHash, w => w.look (ApiKeyRepo.findByHash w.around.now tokenHash)
  | Op.touchLastUsed id, w => w.change (ApiKeyRepo.touchLastUsed w.around.now id)
  | Op.getUser tenantId id, w => w.look (UserRepo.get tenantId id)
  | Op.getAny id, w => w.look (UserRepo.getAny id)
  | Op.findByEmail email, w => w.look (UserRepo.findByEmail email)
  | Op.countOwners tenantId, w => w.look (UserRepo.countOwners tenantId)
  | Op.setBlocked id blocked, w => w.change (UserRepo.setBlocked w.around.now id blocked)
  | Op.setPlatformAdmin id isAdmin, w => w.change (UserRepo.setPlatformAdmin id isAdmin)
  | Op.setRole tenantId id role, w => w.change (UserRepo.setRole tenantId id role)
  | Op.deleteUser tenantId id, w => w.apply (UserRepo.delete tenantId id)
  | Op.createUser tenantId email role, w =>
      w.apply (UserRepo.create w.around.now tenantId email role)
  | Op.createLink tokenHash tenantId userId expiresAt, w =>
      w.apply (MagicLinkRepo.create w.around.now tokenHash tenantId userId expiresAt)
  | Op.record row, w => w.apply (AuditRepo.record { row with ts := w.around.now })
  | Op.getSetting key, w => w.look (PlatformSettingsRepo.get key)
  | Op.getBySlug slug, w => w.look (TenantRepo.getBySlug slug)
  | Op.createTenant slug name tier trialExpiresAt, w =>
      w.apply (TenantRepo.create w.around.now slug name tier trialExpiresAt)
  | Op.secretsOf tenantId, w => w.look (TenantSecretsRepo.getByTenant tenantId)
  | Op.createSecrets row, w => w.apply (TenantSecretsRepo.create row)
  | Op.nowUnix, w => (w.around.now, w)
  | Op.rateLimit email, w => (w.around.checkRate email, w)
  | Op.turnstile token, w => (w.around.turnstile token, w)
  | Op.generateTenantCa slug, w => (w.around.generateTenantCa slug, w)
  | Op.sendMagicLink email _, w => (w.around.sendMagicLink email, w)

/-- A statement that does not reach the tables. -/
def fault : (op : Op) -> Option op.Res
  | Op.touch _ _ => some (Except.error DbError.unavailable)
  | Op.findByHash _ => some (Except.error DbError.unavailable)
  | Op.touchLastUsed _ => some (Except.error DbError.unavailable)
  | Op.getUser _ _ => some (Except.error DbError.unavailable)
  | Op.getAny _ => some (Except.error DbError.unavailable)
  | Op.findByEmail _ => some (Except.error DbError.unavailable)
  | Op.countOwners _ => some (Except.error DbError.unavailable)
  | Op.setBlocked _ _ => some (Except.error DbError.unavailable)
  | Op.setPlatformAdmin _ _ => some (Except.error DbError.unavailable)
  | Op.setRole _ _ _ => some (Except.error DbError.unavailable)
  | Op.deleteUser _ _ => some (Except.error DbError.unavailable)
  | Op.createUser _ _ _ => some (Except.error DbError.unavailable)
  | Op.createLink _ _ _ _ => some (Except.error DbError.unavailable)
  | Op.record _ => some (Except.error DbError.unavailable)
  | Op.getSetting _ => some (Except.error DbError.unavailable)
  | Op.getBySlug _ => some (Except.error DbError.unavailable)
  | Op.createTenant _ _ _ _ => some (Except.error DbError.unavailable)
  | Op.secretsOf _ => some (Except.error DbError.unavailable)
  | Op.createSecrets _ => some (Except.error DbError.unavailable)
  | Op.nowUnix => none
  | Op.rateLimit _ => none
  | Op.turnstile _ => none
  | Op.generateTenantCa _ => none
  | Op.sendMagicLink _ _ => none

@[reducible] def machine : Machine Op.Res where
  World := World
  exec := exec
  fault := fault

abbrev Prog (alpha : Type) : Type := Program Op.Res alpha

/-!
# What one call can do to the tables
-/

namespace World

variable {alpha : Type} {w : World}

/-- A statement is refused, or leads to the tables it gives. -/
theorem apply_cases (w : World) (stmt : Stmt alpha) :
    (exists a db, stmt w.db = Except.ok (a, db) ∧
      w.apply stmt = (Except.ok a, { w with db := db })) ∨
    exists e, stmt w.db = Except.error e ∧ w.apply stmt = (Except.error e, w) := by
  unfold apply
  cases h : stmt w.db with
  | ok r => exact Or.inl ⟨r.1, r.2, rfl, rfl⟩
  | error e => exact Or.inr ⟨e, rfl, rfl⟩

@[simp] theorem look_snd (w : World) (f : Tables -> alpha) : (w.look f).2 = w := rfl

@[simp] theorem look_fst (w : World) (f : Tables -> alpha) :
    (w.look f).1 = Except.ok (f w.db) := rfl

@[simp] theorem change_db (w : World) (f : Tables -> alpha × Tables) :
    (w.change f).2.db = (f w.db).2 := rfl

/-- What a guarded statement leads to, if it is not refused. -/
theorem apply_guarded_db {P : Tables -> Prop} {ok : Tables -> Bool}
    {f : Tables -> alpha × Tables} (hsame : P w.db)
    (hchange : ok w.db = true -> P (f w.db).2) : P (w.apply (Stmt.guarded ok f)).2.db := by
  unfold apply Stmt.guarded
  cases h : ok w.db with
  | true => exact hchange h
  | false => exact hsame

end World

end Accounts
end FleetServer
