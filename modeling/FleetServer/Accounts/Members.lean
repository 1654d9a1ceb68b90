import FleetServer.Accounts.Signup

/-!
# A tenant's members

Inviting, re-roling and removing the users of one's own tenant.
-/

namespace FleetServer
namespace Accounts

open FleetServer.Core
open Concurrency
open Server (Role)
open Storage (DbError)

variable (deps : Deps) (n : Nat)

namespace Members

structure InviteBody where
  email : String
  role : Role

def invite (body : InviteBody) (who : AuthedUser) : Prog Response :=
  if !who.role.canManageUsers then return forbidden "manage users"
  else if deps.onPrem then
    return Response.error 404 "user invitations are disabled in on-prem mode"
  else if !body.role.isAssignable then return Response.error 400 "role cannot be assigned"
  else
    let email := deps.toLowercase (trim body.email)
    if email.isEmpty || !email.toList.contains '@' then return Response.error 400 "invalid email"
    else do
      let taken ← Program.perform (Op.findByEmail email)
      if (foundOr taken).isSome then return Response.error 409 "email already registered"
      else
        match ← Program.perform (Op.createUser who.tenantId email body.role) with
        | Except.error _ => return Response.error 500 "create failed"
        | Except.ok user => do
            let sent ← issueAndSendLink deps n user.email who.tenantId user.id
            if !sent then do
              -- The row is taken back; whether that worked does not show.
              let _ ← Program.perform (Op.deleteUser who.tenantId user.id)
              return Response.error 503
                "could not send the invitation email — check SMTP configuration"
            else do
              audit (auditRow who.tenantId (some who.userId) "user.invited" "user" user.id
                [("email", Json.string user.email), ("role", Json.string user.role.asDb)])
              return {
                status := 200
                payload := Payload.user
                  { id := user.id, email := user.email, role := user.role,
                    createdAt := user.createdAt, isSelf := false, blocked := false } }

/-- Look up the member to change, who may not be the owner. -/
def withMember (who : AuthedUser) (userId : Int) (refusal : Response)
    (next : User -> Prog Response) : Prog Response := do
  match ← Program.perform (Op.getUser who.tenantId userId) with
  | Except.error _ => return Response.error 500 "lookup failed"
  | Except.ok none => return Response.error 404 "user not found"
  | Except.ok (some target) =>
      if target.role = Role.owner then return refusal
      else next target

def setRole (userId : Int) (role : Role) (who : AuthedUser) : Prog Response :=
  if !who.role.canManageUsers then return forbidden "manage users"
  else if !role.isAssignable then return Response.error 400 "role cannot be assigned"
  else if userId = who.userId then return Response.error 400 "you cannot change your own role"
  else
    withMember who userId (Response.error 403 "the owner's role cannot be changed")
      fun target => do
        match ← Program.perform (Op.setRole who.tenantId userId role) with
        | Except.error _ => return Response.error 500 "update failed"
        | Except.ok false => return Response.error 404 "user not found"
        | Except.ok true => do
            audit (auditRow who.tenantId (some who.userId) "user.role_changed" "user" userId
              [("email", Json.string target.email), ("from", Json.string target.role.asDb),
                ("to", Json.string role.asDb)])
            return Response.noContent

def deleteUser (userId : Int) (who : AuthedUser) : Prog Response :=
  if !who.role.canManageUsers then return forbidden "manage users"
  else if userId = who.userId then return Response.error 400 "you cannot delete yourself"
  else
    withMember who userId
      (Response.error 403 "the owner cannot be removed — it is the tenant's last resort")
      fun target => do
        match ← Program.perform (Op.deleteUser who.tenantId userId) with
        | Except.error _ => return Response.error 500 "delete failed"
        | Except.ok false => return Response.error 404 "user not found"
        | Except.ok true => do
            audit (auditRow who.tenantId (some who.userId) "user.deleted" "user" userId
              [("email", Json.string target.email), ("role", Json.string target.role.asDb)])
            return Response.noContent

end Members

end Accounts
end FleetServer
