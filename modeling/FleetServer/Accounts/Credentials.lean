import FleetServer.Accounts.Service
import FleetServer.Concurrency.Once

/-!
# Handing out credentials, and taking them back

The statements behind signing in and out: redeeming a link, making and ending
sessions, making and revoking API keys, and the hourly sweep.  They work on the
same tables as the requests on accounts.
-/

namespace FleetServer
namespace Accounts

open FleetServer.Core
open Concurrency
open Storage (Tenant DbError)

/-!
# Statements
-/

namespace MagicLinkRepo

/-- Unused, and not past its time. -/
def redeemable (now : Int) (tokenHash : String) (l : MagicLinkRow) : Bool :=
  l.tokenHash == tokenHash && l.usedAt.isNone && now < l.expiresAt

/-- Burn a link, and say whose it was. -/
def redeem (now : Int) (tokenHash : String) (db : Tables) : Option (Int × Int) × Tables :=
  ((db.magicLinks.find? (redeemable now tokenHash)).map fun l => (l.tenantId, l.userId),
    { db with
      magicLinks := Table.updateWhere (redeemable now tokenHash)
        (fun l => { l with usedAt := some now }) db.magicLinks })

def deleteExpired (now : Int) (db : Tables) : Nat × Tables :=
  (Table.affected (fun l => l.expiresAt < now) db.magicLinks,
    { db with magicLinks := Table.deleteWhere (fun l => l.expiresAt < now) db.magicLinks })

end MagicLinkRepo

namespace SessionRepo

def create (now : Int) (idHash : String) (tenantId userId ttlSeconds : Int) : Stmt Unit :=
  Stmt.guarded
    (fun db => db.hasTenant tenantId && db.hasUser userId &&
      !db.sessions.any fun s => s.idHash == idHash)
    fun db =>
      ((),
        { db with
          sessions := db.sessions ++
            [{ idHash := idHash, tenantId := tenantId, userId := userId,
               expiresAt := now + ttlSeconds, lastUsedAt := now, createdAt := now }] })

def delete (idHash : String) (db : Tables) : Unit × Tables :=
  ((), { db with sessions := Table.deleteWhere (fun s => s.idHash == idHash) db.sessions })

def ofUser (tenantId userId : Int) (s : Session) : Bool :=
  s.tenantId == tenantId && s.userId == userId

def deleteForUser (tenantId userId : Int) (db : Tables) : Nat × Tables :=
  (Table.affected (ofUser tenantId userId) db.sessions,
    { db with sessions := Table.deleteWhere (ofUser tenantId userId) db.sessions })

/-- Past its lifetime, or idle for too long. -/
def expired (now idleTtl : Int) (s : Session) : Bool :=
  s.expiresAt < now || s.lastUsedAt < now - idleTtl

def deleteExpired (now idleTtl : Int) (db : Tables) : Nat × Tables :=
  (Table.affected (expired now idleTtl) db.sessions,
    { db with sessions := Table.deleteWhere (expired now idleTtl) db.sessions })

end SessionRepo

namespace ApiKeyRepo

def ofUser (tenantId userId : Int) (k : ApiKeyRow) : Bool :=
  k.tenantId == tenantId && k.userId == userId

def listForUser (tenantId userId : Int) (db : Tables) : List ApiKeyRow :=
  db.apiKeys.filter (ofUser tenantId userId)

/-- Ids and hashes are unique; the time the key was made at is answered. -/
def create (now : Int) (id : String) (tenantId userId : Int) (tokenHash : String)
    (expiresAt : Option Int) : Stmt Int :=
  Stmt.guarded
    (fun db => db.hasTenant tenantId && db.hasUser userId &&
      !db.apiKeys.any fun k => k.id == id || k.tokenHash == tokenHash)
    fun db =>
      (now,
        { db with
          apiKeys := db.apiKeys ++
            [{ id := id, tenantId := tenantId, userId := userId, tokenHash := tokenHash,
               expiresAt := expiresAt, lastUsedAt := none }] })

/-- Only the user a key belongs to can revoke it. -/
def delete (tenantId userId : Int) (id : String) (db : Tables) : Bool × Tables :=
  (Table.affected (fun k => ofUser tenantId userId k && k.id == id) db.apiKeys == 1,
    { db with
      apiKeys := Table.deleteWhere (fun k => ofUser tenantId userId k && k.id == id)
        db.apiKeys })

end ApiKeyRepo

namespace TenantRepo

def get (id : Int) (db : Tables) : Option Tenant :=
  db.tenants.find? fun t => t.id == id

end TenantRepo

namespace SignIn

/-!
# Calls
-/

/-- The tables and their surroundings, and what the limiter on addresses says. -/
structure World where
  accounts : Accounts.World
  ipAllowed : Bool

inductive Op where
  | account (op : Accounts.Op)
  | redeem (tokenHash : String)
  | createSession (idHash : String) (tenantId userId ttlSeconds : Int)
  | deleteSession (idHash : String)
  | deleteForUser (tenantId userId : Int)
  | listForUser (tenantId userId : Int)
  | createKey (id : String) (tenantId userId : Int) (tokenHash : String) (expiresAt : Option Int)
  | deleteKey (tenantId userId : Int) (id : String)
  | getTenant (id : Int)
  | deleteExpiredSessions (idleTtl : Int)
  | deleteExpiredLinks
  | checkIp
  | forgetEmail (email : String)

@[reducible] def Op.Res : Op -> Type
  | account op => op.Res
  | redeem _ => Except DbError (Option (Int × Int))
  | createSession _ _ _ _ => Except DbError Unit
  | deleteSession _ => Except DbError Unit
  | deleteForUser _ _ => Except DbError Nat
  | listForUser _ _ => Except DbError (List ApiKeyRow)
  | createKey _ _ _ _ _ => Except DbError Int
  | deleteKey _ _ _ => Except DbError Bool
  | getTenant _ => Except DbError (Option Tenant)
  | deleteExpiredSessions _ => Except DbError Nat
  | deleteExpiredLinks => Except DbError Nat
  | checkIp => Bool
  | forgetEmail _ => Unit

namespace World

def db (w : World) : Tables :=
  w.accounts.db

def now (w : World) : Int :=
  w.accounts.around.now

def within {alpha : Type} (w : World) (r : alpha × Accounts.World) : alpha × World :=
  (r.1, { w with accounts := r.2 })

end World

/-- What the limiter on emails answers is left to the surroundings, also once it
was told to forget one. -/
def exec : (op : Op) -> World -> op.Res × World
  | Op.account op, w => w.within (Accounts.exec op w.accounts)
  | Op.redeem tokenHash, w =>
      w.within (w.accounts.change (MagicLinkRepo.redeem w.now tokenHash))
  | Op.createSession idHash tenantId userId ttlSeconds, w =>
      w.within (w.accounts.apply (SessionRepo.create w.now idHash tenantId userId ttlSeconds))
  | Op.deleteSession idHash, w => w.within (w.accounts.change (SessionRepo.delete idHash))
  | Op.deleteForUser tenantId userId, w =>
      w.within (w.accounts.change (SessionRepo.deleteForUser tenantId userId))
  | Op.listForUser tenantId userId, w =>
      w.within (w.accounts.look (ApiKeyRepo.listForUser tenantId userId))
  | Op.createKey id tenantId userId tokenHash expiresAt, w =>
      w.within (w.accounts.apply
        (ApiKeyRepo.create w.now id tenantId userId tokenHash expiresAt))
  | Op.deleteKey tenantId userId id, w =>
      w.within (w.accounts.change (ApiKeyRepo.delete tenantId userId id))
  | Op.getTenant id, w => w.within (w.accounts.look (TenantRepo.get id))
  | Op.deleteExpiredSessions idleTtl, w =>
      w.within (w.accounts.change (SessionRepo.deleteExpired w.now idleTtl))
  | Op.deleteExpiredLinks, w => w.within (w.accounts.change (MagicLinkRepo.deleteExpired w.now))
  | Op.checkIp, w => (w.ipAllowed, w)
  | Op.forgetEmail _, w => ((), w)

/-- A statement that does not reach the tables. -/
def fault : (op : Op) -> Option op.Res
  | Op.account op => Accounts.fault op
  | Op.redeem _ => some (Except.error DbError.unavailable)
  | Op.createSession _ _ _ _ => some (Except.error DbError.unavailable)
  | Op.deleteSession _ => some (Except.error DbError.unavailable)
  | Op.deleteForUser _ _ => some (Except.error DbError.unavailable)
  | Op.listForUser _ _ => some (Except.error DbError.unavailable)
  | Op.createKey _ _ _ _ _ => some (Except.error DbError.unavailable)
  | Op.deleteKey _ _ _ => some (Except.error DbError.unavailable)
  | Op.getTenant _ => some (Except.error DbError.unavailable)
  | Op.deleteExpiredSessions _ => some (Except.error DbError.unavailable)
  | Op.deleteExpiredLinks => some (Except.error DbError.unavailable)
  | Op.checkIp => none
  | Op.forgetEmail _ => none

@[reducible] def machine : Machine Op.Res where
  World := World
  exec := exec
  fault := fault

abbrev Prog (alpha : Type) : Type := Program Op.Res alpha

/-- What a request on accounts does, as part of the larger machine. -/
def account {alpha : Type} (p : Accounts.Prog alpha) : Prog alpha :=
  Program.embed Op.account p

end SignIn
end Accounts
end FleetServer
