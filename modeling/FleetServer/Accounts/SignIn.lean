import FleetServer.Accounts.Credentials
import FleetServer.Core.Lowercase
import FleetServer.Core.Split

/-!
# Signing in and out

The routes that mint and end credentials, behind the layers every request passes:
the origin check, the session layer and the trial check.
-/

namespace FleetServer
namespace Accounts
namespace SignIn

open FleetServer.Core
open Concurrency
open Server (Role)
open Storage (Tenant DbError)

/-!
# Configuration and random sources
-/

structure Deps extends Accounts.Deps where
  cookieSecure : Bool
  sessionTtlSecs : Int
  onPremAdminEmail : Option String
  onPremAdminPassword : Option String
  onPremAdminPasswordHash : Option String
  /-- Whether a text is a password hash, and whether a password is the one hashed. -/
  isPhc : String -> Bool
  verifyPassword : String -> String -> Bool
  /-- The id the n-th request gives a key. -/
  newUlid : Nat -> String
  isManaged : Int -> Bool

variable (deps : Deps) (n : Nat)

/-!
# Cookies
-/

inductive SameSite where
  | strict
  | lax

structure Cookie where
  name : String
  value : String
  httpOnly : Bool
  sameSite : Option SameSite
  path : Option String
  secure : Bool
  maxAgeSecs : Option Int

/-- The cookies a request came with, and what was done to them since. -/
structure CookieJar where
  original : List Cookie
  added : List Cookie
  removed : List String

namespace CookieJar

def named (name : String) (c : Cookie) : Bool :=
  c.name == name

def get (jar : CookieJar) (name : String) : Option Cookie :=
  match jar.added.find? (named name) with
  | some c => some c
  | none => if jar.removed.contains name then none else jar.original.find? (named name)

def add (jar : CookieJar) (c : Cookie) : CookieJar :=
  { jar with
    added := jar.added.filter (fun a => !named c.name a) ++ [c]
    removed := jar.removed.filter (· != c.name) }

/-- Only a cookie the request came with leaves a trace. -/
def remove (jar : CookieJar) (name : String) : CookieJar :=
  { jar with
    added := jar.added.filter fun a => !named name a
    removed := if jar.original.any (named name) then name :: jar.removed else jar.removed }

def iter (jar : CookieJar) : List Cookie :=
  jar.added ++ jar.original.filter fun c =>
    !jar.removed.contains c.name && !jar.added.any (named c.name)

end CookieJar

def sessionCookieName : String :=
  if deps.cookieSecure then "__Host-fleet_session" else "fleet_session"

def exchangeCookie : String := "fleet_exchange"

/-!
# Answers
-/

structure MeResponse where
  userId : Int
  email : String
  role : Role
  tenantId : Int
  tenantSlug : String
  tenantName : String
  onPrem : Bool
  trialExpiresAt : Option Int
  trialExpired : Bool
  isPlatformAdmin : Bool
  configManaged : Bool

structure ApiKeyView where
  id : String
  name : String
  tokenPrefix : String
  createdAt : Int
  lastUsedAt : Option Int
  expiresAt : Option Int

structure CreatedApiKey where
  key : ApiKeyView
  token : String

inductive Body where
  | empty
  | text (message : String)
  | account (payload : Payload)
  /-- The attribute values of the confirmation page's form. -/
  | confirmPage (t csrf : String)
  | redirect (location : String)
  | me (view : MeResponse)
  | createdKey (key : CreatedApiKey)
  | trialExpired (trialExpiresAt : Int) (tenantSlug : String)

structure Response where
  status : Nat
  setCookies : List Cookie
  body : Body

namespace Response

def noContent : Response :=
  { status := 204, setCookies := [], body := Body.empty }

def error (status : Nat) (message : String) : Response :=
  { status := status, setCookies := [], body := Body.text message }

def ofAccount (r : Accounts.Response) : Response :=
  { status := r.status, setCookies := [], body := Body.account r.payload }

end Response

/-!
# Layers
-/

/-- What a request carries besides its route. -/
structure Head where
  jar : CookieJar
  authorization : Option String
  secFetchSite : Option String

def lowerAscii (s : String) : String :=
  String.ofList (s.toList.map Lowercase.asciiLower)

def hasBearer (head : Head) : Bool :=
  match head.authorization with
  | some v => "bearer ".toList.isPrefixOf (lowerAscii v).toList
  | none => false

/-- `csrf::layer`: a change asked for by another site's page is refused. -/
def originLayer (head : Head) (mutating : Bool) (next : Prog Response) : Prog Response :=
  if !mutating || hasBearer head then next
  else
    match head.secFetchSite.map lowerAscii with
    | none => next
    | some site =>
        if site == "same-origin" || site == "none" then next
        else return Response.error 403 "this request did not come from this site"

def bearerToken (authorization : Option String) : Option String :=
  match authorization with
  | none => none
  | some raw =>
      match splitOnce ' ' raw.toList with
      | none => none
      | some (scheme, value) =>
          if lowerAscii (String.ofList scheme) != "bearer" then none
          else
            let value := trim (String.ofList value)
            if value.isEmpty then none else some value

def credentials (head : Head) : Credentials :=
  { cookie := (head.jar.get (sessionCookieName deps)).map Cookie.value
    bearer := bearerToken head.authorization }

/-- Paths that work even with an expired trial. -/
def isAllowlisted (path : String) : Bool :=
  !("/api/".toList.isPrefixOf path.toList) || "/api/platform/".toList.isPrefixOf path.toList ||
    path == "/api/me" || path == "/api/auth/logout" || path == "/api/auth/logout-all" ||
    path == "/api/public-config"

def trialExpiryLayer (path : String) (who : Option AuthedUser) (next : Prog Response) :
    Prog Response :=
  if isAllowlisted path then next
  else
    match who with
    | none => next
    | some who => do
        match ← Program.perform (Op.getTenant who.tenantId) with
        | Except.error _ => return Response.error 500 "internal"
        | Except.ok none => return Response.error 403 "tenant missing"
        | Except.ok (some tenant) =>
            match tenant.trialExpiresAt with
            | none => next
            | some exp => do
                let now ← Program.perform (Op.account Accounts.Op.nowUnix)
                if exp < now then
                  return { status := 402, setCookies := [],
                           body := Body.trialExpired exp tenant.slug }
                else next

def sessionLayer (head : Head) (next : Option AuthedUser -> Prog Response) : Prog Response := do
  let who ← account (identify deps.toDeps (credentials deps head))
  next who

def behind (guard : Option AuthedUser -> Except Accounts.Response AuthedUser)
    (handler : AuthedUser -> Prog Response) (who : Option AuthedUser) : Prog Response :=
  match guard who with
  | Except.error refusal => return Response.ofAccount refusal
  | Except.ok who => handler who

def answered (p : Accounts.Prog Accounts.Response) : Prog Response := do
  let r ← account p
  return Response.ofAccount r

/-!
# issue_session_cookie
-/

def sessionCookie (token : String) : Cookie :=
  { name := sessionCookieName deps, value := token, httpOnly := true,
    sameSite := some SameSite.lax, path := some "/", secure := deps.cookieSecure,
    maxAgeSecs := some deps.sessionTtlSecs }

def mintSession (jar : CookieJar) (tenantId userId : Int) (user : User) : Prog Response := do
  account (Platform.platformAdminBootstrap deps.toDeps user)
  let token := deps.randomToken n
  match ← Program.perform (Op.createSession (deps.hashToken token) tenantId userId
    deps.sessionTtlSecs) with
  | Except.error _ => return Response.error 500 "session create failed"
  | Except.ok () =>
      return { status := 303, setCookies := (jar.add (sessionCookie deps token)).iter,
               body := Body.redirect "/" }

def issueSessionCookie (jar : CookieJar) (tenantId userId : Int) : Prog Response := do
  match ← Program.perform (Op.account (Accounts.Op.getUser tenantId userId)) with
  | Except.error _ => return Response.error 500 "sign-in failed"
  | Except.ok none => return Response.error 401 "no such account"
  | Except.ok (some user) =>
      if user.isBlocked then return Response.error 403 "this account has been blocked"
      else mintSession deps n jar tenantId userId user

/-!
# Magic links
-/

def magicLinksDisabled : Response :=
  Response.error 404 "magic-link login disabled in on-prem mode"

/-- A link for the address, if an account may have one; the answer never tells. -/
def sendTo (found : Except DbError (Option User)) : Accounts.Prog Accounts.Response :=
  match found with
  | Except.ok (some user) => remind deps.toDeps n user
  | _ => return Accounts.Response.noContent

def sendLink (email : String) : Accounts.Prog Accounts.Response :=
  if deps.onPrem then
    return Accounts.Response.error 404 "magic-link login disabled in on-prem mode"
  else
    let email := deps.toLowercase (trim email)
    if email.isEmpty then return Accounts.Response.noContent
    else do
      match ← Program.perform (Accounts.Op.rateLimit email) with
      | RateDecision.allow => do
          let found ← Program.perform (Accounts.Op.findByEmail email)
          sendTo deps n found
      | _ => return Accounts.Response.noContent

def htmlEscape (c : Char) : List Char :=
  if c = '&' then "&amp;".toList
  else if c = '<' then "&lt;".toList
  else if c = '>' then "&gt;".toList
  else if c = '"' then "&quot;".toList
  else if c = Char.ofNat 39 then "&#x27;".toList
  else [c]

def htmlAttrEscape (s : String) : String :=
  String.ofList (s.toList.flatMap htmlEscape)

/-- Following a link signs nobody in: it shows the form that does. -/
def exchange (jar : CookieJar) (t : String) : Prog Response :=
  if deps.onPrem then return magicLinksDisabled
  else
    let csrf := deps.randomToken n
    let cookie : Cookie :=
      { name := exchangeCookie, value := csrf, httpOnly := true,
        sameSite := some SameSite.strict, path := some "/", secure := deps.cookieSecure,
        maxAgeSecs := some 600 }
    return { status := 200, setCookies := (jar.add cookie).iter,
             body := Body.confirmPage (htmlAttrEscape t) (htmlAttrEscape csrf) }

def constantTimeEq (a b : Bytes) : Bool :=
  if a.length ≠ b.length then false
  else (a.zip b).foldl (fun diff (x : UInt8 × UInt8) => diff ||| (x.1 ^^^ x.2)) 0 == 0

structure ConfirmForm where
  t : String
  csrf : String

def confirms (jar : CookieJar) (form : ConfirmForm) : Bool :=
  match jar.get exchangeCookie with
  | some c => constantTimeEq (utf8 c.value) (utf8 form.csrf)
  | none => false

/-- Whoever signed in with a link reads the inbox it was sent to. -/
def forgetEmail (tenantId userId : Int) (response : Response) : Prog Response :=
  if 300 ≤ response.status ∧ response.status < 400 then do
    match ← Program.perform (Op.account (Accounts.Op.getUser tenantId userId)) with
    | Except.ok (some user) => do
        Program.perform (Op.forgetEmail user.email)
        return response
    | _ => return response
  else return response

def redeemed (jar : CookieJar) : Except DbError (Option (Int × Int)) -> Prog Response
  | Except.error _ => return Response.error 500 "redeem failed"
  | Except.ok none => return Response.error 401 "invalid or expired link"
  | Except.ok (some (tenantId, userId)) => do
      let response ← issueSessionCookie deps n (jar.remove exchangeCookie) tenantId userId
      forgetEmail tenantId userId response

def exchangeConfirm (jar : CookieJar) (form : ConfirmForm) : Prog Response :=
  if deps.onPrem then return magicLinksDisabled
  else if !confirms jar form then
    return Response.error 403 "sign-in confirmation missing or expired — open the link again"
  else do
    let found ← Program.perform (Op.redeem (deps.hashToken form.t))
    redeemed deps n jar found

/-!
# The administrator's password
-/

structure OnPremLoginBody where
  email : String
  password : String

/-- `none` when no credential is configured. -/
def verifyAdminPassword (offered : String) : Option Bool :=
  match deps.onPremAdminPasswordHash with
  | some phc => if deps.isPhc phc then some (deps.verifyPassword offered phc) else none
  | none =>
      match deps.onPremAdminPassword with
      | none => none
      | some plain =>
          if plain.isEmpty then none else some (constantTimeEq (utf8 offered) (utf8 plain))

/-- The address and the password are the administrator's. -/
def isAdminLogin (body : OnPremLoginBody) : Bool :=
  lowerAscii (trim body.email) == lowerAscii (deps.onPremAdminEmail.getD "") &&
    verifyAdminPassword deps body.password == some true

def onPremLogin (jar : CookieJar) (body : OnPremLoginBody) : Prog Response :=
  if !deps.onPrem then return Response.error 404 "password login is on-prem only"
  else do
    let allowed ← Program.perform Op.checkIp
    if !allowed then return Response.error 429 "too many attempts — wait and try again"
    else if (deps.onPremAdminEmail.getD "").isEmpty then
      return Response.error 503 "admin not configured"
    else if (verifyAdminPassword deps body.password).isNone then
      return Response.error 503 "admin not configured"
    else if !isAdminLogin deps body then return Response.error 401 "bad credentials"
    else do
      match ← Program.perform (Op.account (Accounts.Op.findByEmail
        (deps.toLowercase (deps.onPremAdminEmail.getD "")))) with
      | Except.ok (some user) => issueSessionCookie deps n jar user.tenantId user.id
      | _ => return Response.error 500 "admin user missing"

/-!
# Signing out
-/

def signedOut (jar : CookieJar) : Response :=
  { status := 204, setCookies := (jar.remove (sessionCookieName deps)).iter, body := Body.empty }

/-- A deletion that fails is not told. -/
def logout (jar : CookieJar) : Prog Response :=
  match jar.get (sessionCookieName deps) with
  | none => return signedOut deps jar
  | some c => do
      let _ ← Program.perform (Op.deleteSession (deps.hashToken c.value))
      return signedOut deps jar

def logoutEverywhere (jar : CookieJar) (who : AuthedUser) : Prog Response := do
  match ← Program.perform (Op.deleteForUser who.tenantId who.userId) with
  | Except.error _ => return Response.error 500 "sign-out failed"
  | Except.ok removed => do
      account (audit (auditRow who.tenantId (some who.userId) "user.sessions_revoked" "user"
        who.userId [("sessions", Json.number (toString removed))]))
      return signedOut deps jar

def me (who : AuthedUser) : Prog Response := do
  match foundOr (← Program.perform
    (Op.account (Accounts.Op.getUser who.tenantId who.userId))) with
  | none => return Response.error 401 "stale session"
  | some user =>
      match foundOr (← Program.perform (Op.getTenant who.tenantId)) with
      | none => return Response.error 500 "tenant missing"
      | some tenant => do
          let now ← Program.perform (Op.account Accounts.Op.nowUnix)
          return {
            status := 200
            setCookies := []
            body := Body.me
              { userId := user.id, email := user.email, role := user.role,
                tenantId := tenant.id, tenantSlug := tenant.slug, tenantName := tenant.name,
                onPrem := deps.onPrem, trialExpiresAt := tenant.trialExpiresAt,
                trialExpired :=
                  match tenant.trialExpiresAt with
                  | some exp => exp < now
                  | none => false
                isPlatformAdmin := user.isPlatformAdmin,
                configManaged := deps.isManaged tenant.id } }

/-!
# API keys
-/

namespace ApiKeys

def maxNameLen : Nat := 128
def maxKeysPerUser : Nat := 25
def maxExpiryDays : Int := 730
def tokenPrefix : String := "nsk_"

def prefixOf (token : String) : String :=
  String.ofList (token.toList.take (tokenPrefix.toList.length + 8))

def newToken : String :=
  tokenPrefix ++ deps.randomToken n

structure CreateBody where
  name : String
  expiresInDays : Option Int

def jsonOf (at_ : Option Int) : Json :=
  match at_ with
  | some t => Json.number (toString t)
  | none => Json.null

def keyAudit (who : AuthedUser) (action id : String) (metadata : Option Json) : AuditRow :=
  { tenantId := who.tenantId, userId := some who.userId, action := action,
    targetType := "api_key", targetId := id, metadata := metadata, ts := 0 }

def createWith (name : String) (expiresAt : Option Int) (who : AuthedUser) : Prog Response := do
  match ← Program.perform (Op.listForUser who.tenantId who.userId) with
  | Except.error _ => return Response.error 500 "create failed"
  | Except.ok existing =>
      if maxKeysPerUser ≤ existing.length then
        return Response.error 409 "too many API keys — delete one before creating another"
      else do
        let token := newToken deps n
        match ← Program.perform (Op.createKey (deps.newUlid n) who.tenantId who.userId
          (deps.hashToken token) expiresAt) with
        | Except.error _ => return Response.error 500 "create failed"
        | Except.ok createdAt => do
            account (audit (keyAudit who "api_key.created" (deps.newUlid n)
              (some (Json.object
                [("expires_at", jsonOf expiresAt), ("name", Json.string name),
                  ("prefix", Json.string (prefixOf token))]))))
            return {
              status := 200
              setCookies := []
              body := Body.createdKey
                { key :=
                    { id := deps.newUlid n, name := name, tokenPrefix := prefixOf token,
                      createdAt := createdAt, lastUsedAt := none, expiresAt := expiresAt }
                  token := token } }

/-- A key cannot mint another key. -/
def create (body : CreateBody) (who : AuthedUser) : Prog Response :=
  if who.via ≠ Credential.session then
    return Response.error 403
      "API keys are created from a signed-in session, not with another API key"
  else
    let name := trim body.name
    if name.isEmpty || maxNameLen < byteLen name then return Response.error 400 "invalid name"
    else
      match body.expiresInDays with
      | none => createWith deps n name none who
      | some d =>
          if 1 ≤ d ∧ d ≤ maxExpiryDays then do
            let now ← Program.perform (Op.account Accounts.Op.nowUnix)
            createWith deps n name (some (now + d * 86400)) who
          else return Response.error 400 "expires_in_days must be between 1 and 730"

def deleteKey (id : String) (who : AuthedUser) : Prog Response := do
  match ← Program.perform (Op.deleteKey who.tenantId who.userId id) with
  | Except.error _ => return Response.error 500 "delete failed"
  | Except.ok false => return Response.error 404 "key not found"
  | Except.ok true => do
      account (audit (keyAudit who "api_key.revoked" id none))
      return Response.noContent

end ApiKeys

/-!
# The service
-/

inductive Route where
  | signup (body : SignupBody)
  | sendLink (email : String)
  | exchange (t : String)
  | exchangeConfirm (form : ConfirmForm)
  | login (body : OnPremLoginBody)
  | logout
  | logoutAll
  | me
  | createKey (body : ApiKeys.CreateBody)
  | deleteKey (id : String)
  | invite (body : Members.InviteBody)
  | setMemberRole (userId : Int) (role : Role)
  | deleteMember (userId : Int)
  | createTenant (body : Platform.CreateTenantBody)
  | updateUser (userId : Int) (body : Platform.UpdateUserBody)
  | deleteUser (userId : Int)

namespace Route

def path : Route -> String
  | signup _ => "/api/auth/signup"
  | sendLink _ => "/api/auth/send-link"
  | exchange _ => "/api/auth/exchange"
  | exchangeConfirm _ => "/api/auth/exchange"
  | login _ => "/api/auth/login"
  | logout => "/api/auth/logout"
  | logoutAll => "/api/auth/logout-all"
  | me => "/api/me"
  | createKey _ => "/api/keys"
  | deleteKey id => "/api/keys/" ++ id
  | invite _ => "/api/users"
  | setMemberRole userId _ => "/api/users/" ++ toString userId
  | deleteMember userId => "/api/users/" ++ toString userId
  | createTenant _ => "/api/platform/tenants"
  | updateUser userId _ => "/api/platform/users/" ++ toString userId
  | deleteUser userId => "/api/platform/users/" ++ toString userId

/-- `POST`, `PUT`, `PATCH` and `DELETE`. -/
def mutating : Route -> Bool
  | exchange _ => false
  | me => false
  | _ => true

end Route

/-- The handler of a route, given whom the session layer found. -/
def handler (jar : CookieJar) (who : Option AuthedUser) : Route -> Prog Response
  | Route.signup body => answered (signup deps.toDeps n body)
  | Route.sendLink email => answered (sendLink deps n email)
  | Route.exchange t => exchange deps n jar t
  | Route.exchangeConfirm form => exchangeConfirm deps n jar form
  | Route.login body => onPremLogin deps n jar body
  | Route.logout => logout deps jar
  | Route.logoutAll => behind signedIn (logoutEverywhere deps jar) who
  | Route.me => behind signedIn (me deps) who
  | Route.createKey body => behind signedIn (ApiKeys.create deps n body) who
  | Route.deleteKey id => behind signedIn (ApiKeys.deleteKey id) who
  | Route.invite body =>
      behind signedIn (fun who => answered (Members.invite deps.toDeps n body who)) who
  | Route.setMemberRole userId role =>
      behind signedIn (fun who => answered (Members.setRole userId role who)) who
  | Route.deleteMember userId =>
      behind signedIn (fun who => answered (Members.deleteUser userId who)) who
  | Route.createTenant body =>
      behind platformAdmin
        (fun who => answered (Platform.createTenant deps.toDeps n body who)) who
  | Route.updateUser userId body =>
      behind platformAdmin (fun who => answered (Platform.updateUser userId body who)) who
  | Route.deleteUser userId =>
      behind platformAdmin (fun who => answered (Platform.deleteUser userId who)) who

/-- Within the session layer. -/
def routed (jar : CookieJar) (route : Route) (who : Option AuthedUser) : Prog Response :=
  trialExpiryLayer route.path who (handler deps n jar who route)

/-- A request, or the hourly sweep of what can no longer do anything. -/
inductive Request where
  | http (head : Head) (route : Route)
  | sweep

inductive Answer where
  | http (response : Response)
  | swept

def sweep : Prog Answer := do
  let _ ← Program.perform (Op.deleteExpiredSessions deps.sessionIdleTtlSecs)
  let _ ← Program.perform Op.deleteExpiredLinks
  return Answer.swept

def program : Request -> Prog Answer
  | Request.http head route => do
      let response ← originLayer head route.mutating
        (sessionLayer deps head (routed deps n head.jar route))
      return Answer.http response
  | Request.sweep => sweep deps

/-- The requests, with everything outside the tables free to change. -/
@[reducible] def service : Service Op.Res where
  machine := machine
  Request := Request
  Response := Answer
  program := program deps
  Env := Surroundings × Bool
  disturb := fun e w => { accounts := { w.accounts with around := e.1 }, ipAllowed := e.2 }

end SignIn
end Accounts
end FleetServer
