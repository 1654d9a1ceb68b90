import FleetServer.Accounts.Members
import FleetServer.Accounts.Platform

/-!
# The requests on accounts as a service
-/

namespace FleetServer
namespace Accounts

open Concurrency
open Server (Role)
open Storage (Tenant)

inductive Request where
  | updateUser (creds : Credentials) (userId : Int) (body : Platform.UpdateUserBody)
  | deleteUser (creds : Credentials) (userId : Int)
  | createTenant (creds : Credentials) (body : Platform.CreateTenantBody)
  | setMemberRole (creds : Credentials) (userId : Int) (role : Role)
  | deleteMember (creds : Credentials) (userId : Int)
  | invite (creds : Credentials) (body : Members.InviteBody)
  | signup (body : SignupBody)

def program (deps : Deps) (n : Nat) : Request -> Prog Response
  | Request.updateUser creds userId body =>
      guarded deps platformAdmin creds (Platform.updateUser userId body)
  | Request.deleteUser creds userId =>
      guarded deps platformAdmin creds (Platform.deleteUser userId)
  | Request.createTenant creds body =>
      guarded deps platformAdmin creds (Platform.createTenant deps n body)
  | Request.setMemberRole creds userId role =>
      guarded deps signedIn creds (Members.setRole userId role)
  | Request.deleteMember creds userId =>
      guarded deps signedIn creds (Members.deleteUser userId)
  | Request.invite creds body => guarded deps signedIn creds (Members.invite deps n body)
  | Request.signup body => signup deps n body

/-- The requests, with everything outside the tables free to change. -/
@[reducible] def accounts (deps : Deps) : Service Op.Res where
  machine := machine
  Request := Request
  Response := Response
  program := program deps
  Env := Surroundings
  disturb := fun around w => { w with around := around }

def answer {deps : Deps} (t : Thread (accounts deps)) : Option Response :=
  match t.rest with
  | Program.done response => some response
  | Program.call _ _ => none

/-!
# A small installation
-/

def plainDeps : Deps :=
  { onPrem := false, sessionIdleTtlSecs := 100, magicLinkTtlSecs := 100, baseUrl := "",
    platformAdminEmails := [], hashToken := id, randomToken := fun n => toString n,
    encrypt := fun _ _ _ => [], toLowercase := id }

/-- Nothing outside the tables stands in the way. -/
def calm : Surroundings :=
  { now := 0, rateLimits := fun _ => RateDecision.allow, turnstile := fun _ => true,
    generateTenantCa := fun slug =>
      some { certPem := "", keyPem := "", subjectDn := slug, bundleSigningKeyPem := "",
             bundleSigningPubPem := "" },
    sendMagicLink := fun _ => true }

def noTables : Tables :=
  { tenants := [], tenantSecrets := [], users := [], sessions := [], apiKeys := [],
    magicLinks := [], auditLog := [], overrideAuthors := [], platformSettings := [] }

def sampleTenant (id : Int) (slug : String) : Tenant :=
  { id := id, slug := slug, name := slug, tier := "free", tierOverridesJson := none,
    trialExpiresAt := none, configVersion := 0, createdAt := 0 }

def sampleUser (id tenantId : Int) (role : Role) (isPlatformAdmin : Bool) : User :=
  { id := id, tenantId := tenantId, email := toString id, role := role, blockedAt := none,
    isPlatformAdmin := isPlatformAdmin, createdAt := 0 }

def sampleSession (idHash : String) (tenantId userId : Int) : Session :=
  { idHash := idHash, tenantId := tenantId, userId := userId, expiresAt := 1000, lastUsedAt := 0,
    createdAt := 0 }

def withCookie (cookie : String) : Credentials :=
  { cookie := some cookie, bearer := none }

end Accounts
end FleetServer
