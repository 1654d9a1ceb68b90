import FleetServer.Accounts.Session

/-!
# Signing up

A signup makes a tenant, its keys and its owner, one statement after the other,
and mails the owner a link.
-/

namespace FleetServer
namespace Accounts

open FleetServer.Core
open Concurrency
open Server (Role)
open Storage (Tenant TenantSecretsRow DbError)

variable (deps : Deps) (n : Nat)

/-!
# What signing up shares with the other ways to make a tenant or a user
-/

/-- Best effort: a failed write is logged and changes nothing else. -/
def audit (row : AuditRow) : Prog Unit :=
  Program.call (Op.record row) fun _ => Program.done ()

/-- An audit entry before it is given its time. -/
def auditRow (tenantId : Int) (userId : Option Int) (action targetType : String)
    (targetId : Int) (metadata : List (String × Json)) : AuditRow :=
  { tenantId := tenantId, userId := userId, action := action, targetType := targetType,
    targetId := toString targetId, metadata := some (Json.object metadata), ts := 0 }

/-- Whether the link was stored and handed to the mail server. -/
def issueAndSendLink (email : String) (tenantId userId : Int) : Prog Bool := do
  let now ← Program.perform Op.nowUnix
  match ← Program.perform (Op.createLink (deps.hashToken (deps.randomToken n)) tenantId userId
    (now + deps.magicLinkTtlSecs)) with
  | Except.error _ => return false
  | Except.ok () =>
      Program.perform (Op.sendMagicLink email
        (String.ofList (deps.baseUrl.toList.reverse.dropWhile (· == '/')).reverse ++
          "/api/auth/exchange?t=" ++ deps.randomToken n))

/-- Generate a tenant's keys unless it has them. -/
def ensureSecrets (tenant : Tenant) : Prog Bool := do
  match ← Program.perform (Op.secretsOf tenant.id) with
  | Except.error _ => return false
  | Except.ok (some _) => return true
  | Except.ok none =>
      match ← Program.perform (Op.generateTenantCa tenant.slug) with
      | none => return false
      | some ca =>
          match ← Program.perform (Op.createSecrets
            { tenantId := tenant.id, caCertPem := ca.certPem,
              caKeyEncrypted := deps.encrypt n (Purpose.tenantCaKey tenant.id) ca.keyPem,
              caSubjectDn := ca.subjectDn, bundleSigningPubPem := ca.bundleSigningPubPem,
              bundleSigningKeyEncrypted :=
                deps.encrypt n (Purpose.tenantBundleSigningKey tenant.id)
                  ca.bundleSigningKeyPem }) with
          | Except.error _ => return false
          | Except.ok () => return true

def signupsEnabled (setting : Option String) : Bool :=
  match setting with
  | some v => v == "true"
  | none => true

/-!
# signup
-/

structure SignupBody where
  tenantName : String
  tenantSlug : String
  email : String
  turnstileToken : Option String

def trialDays : Int := 14

def slugRule : String :=
  "slug must be 1-63 characters of a-z, 0-9 and dashes, not starting or ending with a dash"

/-- The link for an address that has an account; its fate does not show. -/
def remind (existing : User) : Prog Response :=
  if existing.isBlocked then return Response.noContent
  else do
    let _ ← issueAndSendLink deps n existing.email existing.tenantId existing.id
    return Response.noContent

def signupOwner (tenant : Tenant) (email : String) : Prog Response := do
  match ← Program.perform (Op.createUser tenant.id email Role.owner) with
  | Except.error _ => return Response.error 500 "create failed"
  | Except.ok user => do
      let _ ← issueAndSendLink deps n user.email tenant.id user.id
      return Response.noContent

def signupTenant (slug name email : String) : Prog Response := do
  let now ← Program.perform Op.nowUnix
  match ← Program.perform (Op.createTenant slug name "free" (some (now + trialDays * 86400))) with
  | Except.error _ => return Response.error 500 "create failed"
  | Except.ok tenant => do
      let secured ← ensureSecrets deps n tenant
      if secured then do
        audit (auditRow tenant.id none "tenant.created" "tenant" tenant.id
          [("slug", Json.string tenant.slug)])
        signupOwner deps n tenant email
      else return Response.error 500 "create failed"

/-- What the form and the limiters let through. -/
def signupAllowed (body : SignupBody) (slug email : String) : Prog Response := do
  match ← Program.perform (Op.rateLimit email) with
  | RateDecision.emailLimited =>
      return Response.error 429 "too many attempts — wait a minute and try again"
  | RateDecision.ipLimited =>
      return Response.error 429 "too many attempts — wait a minute and try again"
  | RateDecision.budgetExceeded =>
      return Response.error 503 "sign-in mail is temporarily unavailable — try again later"
  | RateDecision.allow => do
      let human ← Program.perform (Op.turnstile (body.turnstileToken.getD ""))
      if !human then return Response.error 403 "turnstile failed"
      else do
        let taken ← Program.perform (Op.getBySlug slug)
        if (foundOr taken).isSome then return Response.error 409 "slug taken"
        else
          match foundOr (← Program.perform (Op.findByEmail email)) with
          | some existing => remind deps n existing
          | none => signupTenant deps n slug (trim body.tenantName) email

def signup (body : SignupBody) : Prog Response :=
  if deps.onPrem then return Response.error 404 "signup disabled in on-prem mode"
  else do
    match ← Program.perform (Op.getSetting "signups_enabled") with
    | Except.error _ => return Response.error 500 "signup unavailable"
    | Except.ok setting =>
        if !signupsEnabled setting then
          return Response.error 403 ("self-service signup is currently closed — contact your " ++
            "administrator for an invitation")
        else
          let email := deps.toLowercase (trim body.email)
          let slug := deps.toLowercase (trim body.tenantSlug)
          if email.isEmpty || slug.isEmpty || (trim body.tenantName).isEmpty then
            return Response.error 400 "missing field"
          else if !validSlug slug then return Response.error 400 slugRule
          else signupAllowed deps n body slug email

end Accounts
end FleetServer
