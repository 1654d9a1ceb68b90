import FleetServer.Accounts.World

/-!
# Who a request comes from

The session layer resolves a cookie or a bearer token to a user, reading the
user's row anew on every request.  The guards of the routes decide on that.
-/

namespace FleetServer

namespace Server

def Role.canManageUsers : Role -> Bool
  | owner => true
  | admin => true
  | addHosts => false
  | viewOnly => false

/-- `Owner` is not handed out: it is established at signup. -/
def Role.isAssignable : Role -> Bool
  | owner => false
  | admin => true
  | addHosts => true
  | viewOnly => true

def Role.asDb : Role -> String
  | owner => "owner"
  | admin => "admin"
  | addHosts => "add_hosts"
  | viewOnly => "view_only"

end Server

namespace Accounts

open FleetServer.Core
open Concurrency
open Server (Role)
open Storage (Tenant TenantSecretsRow DbError)

/-!
# Configuration and random sources
-/

structure Deps where
  onPrem : Bool
  sessionIdleTtlSecs : Int
  magicLinkTtlSecs : Int
  baseUrl : String
  platformAdminEmails : List String
  hashToken : String -> String
  /-- The token the n-th request draws. -/
  randomToken : Nat -> String
  /-- What the n-th request encrypts under the master key. -/
  encrypt : Nat -> Purpose -> String -> Bytes
  toLowercase : String -> String

def Deps.isBootstrapPlatformAdmin (deps : Deps) (email : String) : Bool :=
  deps.platformAdminEmails.contains (deps.toLowercase (trim email))

/-!
# Answers
-/

structure UserView where
  id : Int
  email : String
  role : Role
  createdAt : Int
  isSelf : Bool
  blocked : Bool

structure PlatformUserView where
  isSelf : Bool
  id : Int
  tenantId : Int
  email : String
  role : Role
  blockedAt : Option Int
  isPlatformAdmin : Bool
  createdAt : Int

structure CreateTenantResponse where
  tenant : Tenant
  userCount : Nat
  ownerInvited : Bool

inductive Payload where
  | empty
  | text (message : String)
  | user (view : UserView)
  | platformUser (view : PlatformUserView)
  | tenant (view : CreateTenantResponse)

structure Response where
  status : Nat
  payload : Payload

namespace Response

def noContent : Response :=
  { status := 204, payload := Payload.empty }

def error (status : Nat) (message : String) : Response :=
  { status := status, payload := Payload.text message }

end Response

def forbidden (need : String) : Response :=
  Response.error 403 ("your role does not allow this (" ++ need ++ ")")

/-!
# session_layer
-/

inductive Credential where
  | session
  | apiKey
deriving DecidableEq

structure AuthedUser where
  via : Credential
  userId : Int
  tenantId : Int
  role : Role
  isPlatformAdmin : Bool

/-- What a request carries of its sender. -/
structure Credentials where
  cookie : Option String
  bearer : Option String

variable (deps : Deps)

/-- `.ok()??`: a failed lookup counts as no such row. -/
def foundOr {alpha : Type} : Except DbError (Option alpha) -> Option alpha
  | Except.ok found => found
  | Except.error _ => none

def fromSession (cookie : String) : Prog (Option AuthedUser) := do
  match foundOr (← Program.perform
    (Op.touch deps.sessionIdleTtlSecs (deps.hashToken cookie))) with
  | none => return none
  | some session =>
      match foundOr (← Program.perform (Op.getUser session.tenantId session.userId)) with
      | none => return none
      | some user =>
          if user.isBlocked then return none
          else
            return some
              { via := Credential.session, userId := session.userId, tenantId := session.tenantId,
                role := user.role, isPlatformAdmin := user.isPlatformAdmin }

/-- A key carries its owner's current role. -/
def fromApiKey (token : String) : Prog (Option AuthedUser) := do
  match foundOr (← Program.perform (Op.findByHash (deps.hashToken token))) with
  | none => return none
  | some key =>
      match foundOr (← Program.perform (Op.getUser key.tenantId key.userId)) with
      | none => return none
      | some user =>
          if user.isBlocked then return none
          else do
            let _ ← Program.perform (Op.touchLastUsed key.id)
            return some
              { via := Credential.apiKey, userId := key.userId, tenantId := key.tenantId,
                role := user.role, isPlatformAdmin := user.isPlatformAdmin }

/-- A cookie decides, and a bearer token only where there is none. -/
def identify (creds : Credentials) : Prog (Option AuthedUser) :=
  match creds.cookie with
  | some cookie => fromSession deps cookie
  | none =>
      match creds.bearer with
      | some token => fromApiKey deps token
      | none => return none

/-!
# Guards
-/

def signedIn (who : Option AuthedUser) : Except Response AuthedUser :=
  match who with
  | none => Except.error (Response.error 401 "not signed in")
  | some who => Except.ok who

/-- The flag, held by a signed-in session. -/
def platformAdmin (who : Option AuthedUser) : Except Response AuthedUser :=
  match who with
  | none => Except.error (Response.error 401 "not signed in")
  | some who =>
      if !who.isPlatformAdmin then Except.error (forbidden "platform administration")
      else if who.via ≠ Credential.session then
        Except.error (Response.error 403
          "the platform console requires a signed-in session, not an API key")
      else Except.ok who

def behind (guard : Option AuthedUser -> Except Response AuthedUser)
    (handler : AuthedUser -> Prog Response) (who : Option AuthedUser) : Prog Response :=
  match guard who with
  | Except.error refusal => return refusal
  | Except.ok who => handler who

/-- A request behind the session layer and a guard. -/
def guarded (guard : Option AuthedUser -> Except Response AuthedUser) (creds : Credentials)
    (handler : AuthedUser -> Prog Response) : Prog Response := do
  let who ← identify deps creds
  behind guard handler who

theorem platformAdmin_eq_ok {found : Option AuthedUser} {who : AuthedUser}
    (h : platformAdmin found = Except.ok who) :
    found = some who ∧ who.isPlatformAdmin = true ∧ who.via = Credential.session := by
  unfold platformAdmin at h
  split at h
  · cases h
  · split at h
    · cases h
    · rename_i hflag
      split at h
      · cases h
      · rename_i hvia
        cases h
        rw [Bool.not_eq_true', Bool.not_eq_false] at hflag
        exact ⟨rfl, hflag, not_not.mp hvia⟩

end Accounts
end FleetServer
