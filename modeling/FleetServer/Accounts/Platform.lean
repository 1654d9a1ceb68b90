import FleetServer.Accounts.Signup
import FleetServer.Core.Tier

/-!
# The platform console

What platform administrators do to tenants and users of any tenant.
-/

namespace FleetServer
namespace Accounts

open FleetServer.Core
open Concurrency
open Server (Role)
open Storage (Tenant DbError)

variable (deps : Deps) (n : Nat)

namespace Platform

def userView (u : User) (caller : Int) : PlatformUserView :=
  { isSelf := u.id == caller, id := u.id, tenantId := u.tenantId, email := u.email, role := u.role,
    blockedAt := u.blockedAt, isPlatformAdmin := u.isPlatformAdmin, createdAt := u.createdAt }

/-- The caller's email as the audit log shows it. -/
def actorEmail (userId : Int) : Prog Json := do
  match foundOr (← Program.perform (Op.getAny userId)) with
  | some u => return Json.string u.email
  | none => return Json.null

def recordUser (target : User) (who : AuthedUser) (action : String)
    (metadata : List (String × Json)) : Prog Unit := do
  let actor ← actorEmail who.userId
  audit (auditRow target.tenantId (some who.userId) action "user" target.id
    (metadata ++ [("by", Json.string "platform"), ("actor", actor)]))

/-!
# update_user
-/

structure UpdateUserBody where
  blocked : Option Bool
  platformAdmin : Option Bool

def updateFailed : Response :=
  Response.error 500 "update failed"

/-- Make a change unless the target already is as asked; `false` when it failed. -/
def changeIf (asked : Option Bool) (current : Bool) (write : Bool -> Prog (Except DbError Bool))
    (log : Bool -> Prog Unit) : Prog Bool :=
  match asked with
  | none => return true
  | some value =>
      if value = current then return true
      else do
        match ← write value with
        | Except.error _ => return false
        | Except.ok _ => do
            log value
            return true

def updateUser (userId : Int) (body : UpdateUserBody) (who : AuthedUser) : Prog Response :=
  if body.blocked = none ∧ body.platformAdmin = none then
    return Response.error 400 "nothing to change"
  else if userId = who.userId then
    return Response.error 400 "you cannot block or demote your own account"
  else do
    match ← Program.perform (Op.getAny userId) with
    | Except.error _ => return Response.error 500 "lookup failed"
    | Except.ok none => return Response.error 404 "user not found"
    | Except.ok (some target) => do
        let blocked ← changeIf body.blocked target.isBlocked
          (fun value => Program.perform (Op.setBlocked userId value))
          (fun value => recordUser target who
            (if value then "user.blocked" else "user.unblocked")
            [("email", Json.string target.email)])
        if !blocked then return updateFailed
        else do
          let changed ← changeIf body.platformAdmin target.isPlatformAdmin
            (fun value => Program.perform (Op.setPlatformAdmin userId value))
            (fun value => recordUser target who
              (if value then "user.platform_admin_granted" else "user.platform_admin_revoked")
              [("email", Json.string target.email)])
          if !changed then return updateFailed
          else
            match foundOr (← Program.perform (Op.getAny userId)) with
            | some u =>
                return { status := 200, payload := Payload.platformUser (userView u who.userId) }
            | none => return Response.noContent

/-!
# delete_user
-/

def removed (target : User) (who : AuthedUser) : Except DbError Bool -> Prog Response
  | Except.error _ => return Response.error 500 "delete failed"
  | Except.ok false => return Response.error 404 "user not found"
  | Except.ok true => do
      recordUser target who "user.deleted"
        [("email", Json.string target.email), ("role", Json.string target.role.asDb)]
      return Response.noContent

/-- The removal, once nothing speaks against it. -/
def removeUser (target : User) (userId : Int) (who : AuthedUser) : Prog Response :=
  Program.call (Op.deleteUser target.tenantId userId) (removed target who)

/-- An owner is removed only while its tenant has another. -/
def deleteUser (userId : Int) (who : AuthedUser) : Prog Response :=
  if userId = who.userId then return Response.error 400 "you cannot delete your own account"
  else do
    match ← Program.perform (Op.getAny userId) with
    | Except.error _ => return Response.error 500 "lookup failed"
    | Except.ok none => return Response.error 404 "user not found"
    | Except.ok (some target) =>
        if target.role = Role.owner then
          match ← Program.perform (Op.countOwners target.tenantId) with
          | Except.error _ => return Response.error 500 "lookup failed"
          | Except.ok owners =>
              if owners ≤ 1 then
                return Response.error 409 ("this is the tenant's only owner — block the " ++
                  "account instead, or delete it once another owner exists")
              else removeUser target userId who
        else removeUser target userId who

/-!
# create_tenant
-/

structure CreateTenantBody where
  slug : String
  name : String
  tier : String
  trialDays : Option Int
  ownerEmail : Option String

/-- The owner's address, or why it cannot be one. -/
def ownerEmail (asked : Option String) : Except Response (Option String) :=
  match asked.map fun e => deps.toLowercase (trim e) with
  | none => Except.ok none
  | some e =>
      if e.isEmpty then Except.ok none
      else if !e.toList.contains '@' then
        Except.error (Response.error 400 "invalid owner email")
      else Except.ok (some e)

/-- Grant the flag to an address of the bootstrap list. -/
def platformAdminBootstrap (user : User) : Prog Unit :=
  if !deps.isBootstrapPlatformAdmin user.email then return ()
  else if user.isPlatformAdmin then return ()
  else Program.call (Op.setPlatformAdmin user.id true) fun _ => Program.done ()

def inviteOwner (tenant : Tenant) (who : AuthedUser) : Option String -> Prog (Bool × Bool)
  | none => return (false, false)
  | some email => do
      match ← Program.perform (Op.createUser tenant.id email Role.owner) with
      | Except.error _ => return (false, false)
      | Except.ok user => do
          platformAdminBootstrap deps user
          let invited ← issueAndSendLink deps n user.email tenant.id user.id
          audit (auditRow tenant.id (some who.userId) "user.invited" "user" user.id
            [("email", Json.string user.email), ("role", Json.string user.role.asDb),
              ("by", Json.string "platform")])
          return (true, invited)

def buildTenant (slug name tier : String) (trial : Option Int) (owner : Option String)
    (who : AuthedUser) : Prog Response := do
  let now ← Program.perform Op.nowUnix
  match ← Program.perform
    (Op.createTenant slug name tier (trial.map fun days => now + days * 86400)) with
  | Except.error _ => return Response.error 500 "create failed"
  | Except.ok tenant => do
      let secured ← ensureSecrets deps n tenant
      if !secured then return Response.error 500 "create failed"
      else do
        let actor ← actorEmail who.userId
        audit (auditRow tenant.id (some who.userId) "tenant.created" "tenant" tenant.id
          [("slug", Json.string tenant.slug), ("tier", Json.string tenant.tier),
            ("by", Json.string "platform"), ("actor", actor)])
        let invited ← inviteOwner deps n tenant who owner
        return {
          status := 201
          payload := Payload.tenant
            { tenant := tenant, userCount := if invited.1 then 1 else 0,
              ownerInvited := invited.2 } }

def createTenant (body : CreateTenantBody) (who : AuthedUser) : Prog Response :=
  let slug := deps.toLowercase (trim body.slug)
  let name := trim body.name
  if !validSlug slug then return Response.error 400 slugRule
  else if name.isEmpty then return Response.error 400 "name is required"
  else if (Tier.lookup body.tier).isNone then return Response.error 400 "unknown tier"
  else
    match ownerEmail deps body.ownerEmail with
    | Except.error refusal => return refusal
    | Except.ok owner =>
        if deps.onPrem && owner.isSome then
          return Response.error 400 ("on-prem mode has no magic links, so a tenant cannot be " ++
            "created with an owner. Create it without one.")
        else do
          let taken ← Program.perform (Op.getBySlug slug)
          if (foundOr taken).isSome then return Response.error 409 "slug taken"
          else
            match owner with
            | none => buildTenant deps n slug name body.tier body.trialDays owner who
            | some email => do
                let registered ← Program.perform (Op.findByEmail email)
                if (foundOr registered).isSome then
                  return Response.error 409 "email already registered"
                else buildTenant deps n slug name body.tier body.trialDays owner who

end Platform

end Accounts
end FleetServer
