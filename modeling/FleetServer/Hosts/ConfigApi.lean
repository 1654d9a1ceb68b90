import FleetServer.Server.Response

/-!
# Tags, groups and overrides

The operator's requests of `config_api.rs`.
-/

namespace FleetServer
namespace Hosts

open FleetServer.Core
open Storage
open Server
open Concurrency

variable (deps : Deps)

def mayWrite (who : AuthedUser) : Except Response Unit :=
  if !who.role.canWriteConfig then Except.error (forbidden "change configuration")
  else Except.ok ()

def notFound : Response := Response.error 404 "host not found"

def ifHostBelongs (tenantId : Int) (hostId : String) (next : Prog Response) :
    Prog Response :=
  askOr (Query.host tenantId hostId) notFound fun
    | none => return notFound
    | some _ => next

/-!
# Tags
-/

def checkTag (key value : String) : Except Response Unit :=
  if (trim key).isEmpty ∨ maxKeyLen < byteLen key then
    Except.error (Response.error 400 "invalid key")
  else if maxValueLen < byteLen value then Except.error (Response.error 400 "value too long")
  else Except.ok ()

/-- `upsert_manual_tag`: read, then write; the read decides whether the write
counts as a change. -/
def upsertManualTag {beta : Type} (tenantId : Int) (hostId key value : String)
    (failed : beta) (next : Bool -> Prog beta) : Prog beta :=
  askOr (Query.manualTag hostId key) failed fun existing =>
  executeOr (Statement.upsertManualTag tenantId hostId key value) failed fun _ =>
    next (decide (existing ≠ some value))

def putTag (who : AuthedUser) (hostId key value : String) : Prog Response :=
  guarded (mayWrite who) fun () =>
  ifHostBelongs who.tenantId hostId <|
  guarded (checkTag key value) fun () =>
  upsertManualTag who.tenantId hostId key value Response.internal fun changed => do
    if changed then invalidateHost (who.tenantId, hostId)
    return Response.noContent

def deleteTag (who : AuthedUser) (hostId key : String) : Prog Response :=
  guarded (mayWrite who) fun () =>
  ifHostBelongs who.tenantId hostId <|
  executeOr (Statement.deleteManualTag who.tenantId hostId key) Response.internal fun
    | true => do
        invalidateHost (who.tenantId, hostId)
        return Response.noContent
    | false => return { status := 404, payload := Payload.empty }

/-!
# Groups
-/

/-- A selector from a request body, as the database stores it. -/
def selectorJson (v : Json) : Except Response String :=
  match Selector.fromJson deps.decodeSelector v with
  | Except.error e =>
      Except.error (Response.error 400 ("bad selector: " ++ e.message deps.debugStr))
  | Except.ok s => Except.ok (deps.selectorToString s)

def groupView (g : GroupRow) : GroupView :=
  { id := g.id, name := g.name,
    selector := (deps.parseJson g.selectorJson).getD (Json.object []),
    createdAt := g.createdAt }

def maxGroupNameLen : Nat := 128

def checkGroupName (name : String) : Except Response Unit :=
  if (trim name).isEmpty ∨ maxGroupNameLen < byteLen name then
    Except.error (Response.error 400 "invalid name")
  else Except.ok ()

def createGroup (request : Nat) (who : AuthedUser) (name : String) (selector : Json) :
    Prog Response :=
  guarded (mayChange deps who) fun () =>
  guarded (checkGroupName name) fun () =>
  guarded (selectorJson deps selector) fun selectorJson =>
  executeOr (Statement.createGroup (deps.ulid request 0) who.tenantId name selectorJson)
    (Response.error 409 "name already exists") fun g => do
      bumpConfigVersion who.tenantId
      return { status := 201, payload := Payload.group (groupView deps g) }

def patchSelector : Option Json -> Except Response (Option String)
  | none => Except.ok none
  | some v => (selectorJson deps v).map some

def patchGroup (who : AuthedUser) (groupId : String) (name : Option String)
    (selector : Option Json) : Prog Response :=
  guarded (mayChange deps who) fun () =>
  guarded (patchSelector deps selector) fun selectorJson =>
  executeOr (Statement.updateGroup who.tenantId groupId name selectorJson)
    Response.internal fun
      | true => do
          bumpConfigVersion who.tenantId
          return Response.noContent
      | false => return { status := 404, payload := Payload.empty }

def deleteGroup (who : AuthedUser) (groupId : String) : Prog Response :=
  guarded (mayChange deps who) fun () =>
  executeOr (Statement.deleteGroup who.tenantId groupId)
    (Response.error 409 "group has bundle assignments — remove them first") fun
      | true => do
          bumpConfigVersion who.tenantId
          return Response.noContent
      | false => return { status := 404, payload := Payload.empty }

/-!
# Overrides
-/

def isTokenChar (c : Char) : Bool :=
  isAsciiAlphanumeric c || c == '.' || c == '_' || c == '-'

def validBundleToken (s : String) : Bool :=
  !s.isEmpty && decide (byteLen s ≤ 128) && s.toList.all isTokenChar

/-- A template id: blank is none, anything else has to be a token. -/
def templateOf (template : Option String) : Except Response (Option String) :=
  let template := (template.map trim).filter fun s => !s.isEmpty
  if template.any fun t => !validBundleToken t then
    Except.error (Response.error 400
      "invalid template (allowed: alphanumerics, dot, dash, underscore)")
  else Except.ok template

def checkPatch (patch : Json) : Except Response Unit :=
  if patch.isObject then Except.ok ()
  else Except.error (Response.error 400 "patch must be a JSON object")

def defaultOverridePriority : Int := 1000

def putOverride (request : Nat) (who : AuthedUser) (hostId : String) (patch : Json)
    (priority : Option Int) (template : Option String) : Prog Response :=
  guarded (mayWrite who) fun () =>
  ifHostBelongs who.tenantId hostId <|
  guarded (checkPatch patch) fun () =>
  guarded (templateOf template) fun template =>
    let encrypted := deps.encrypt request (Purpose.hostOverride who.tenantId hostId)
      (utf8 (deps.jsonToString patch))
    executeOr (Statement.upsertOverride who.tenantId hostId encrypted
      (priority.getD defaultOverridePriority) template (some who.userId))
      Response.internal fun _ => do
        bumpConfigVersion who.tenantId
        return Response.noContent

def deleteOverride (who : AuthedUser) (hostId : String) : Prog Response :=
  guarded (mayWrite who) fun () =>
  ifHostBelongs who.tenantId hostId <|
  executeOr (Statement.deleteOverride who.tenantId hostId) Response.internal fun
    | true => do
        bumpConfigVersion who.tenantId
        return Response.noContent
    | false => return { status := 404, payload := Payload.empty }

end Hosts
end FleetServer
