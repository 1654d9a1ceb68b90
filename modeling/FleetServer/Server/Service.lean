import FleetServer.Bundles.Rename
import FleetServer.Concurrency.Limit
import FleetServer.ConfigSource.Reconcile
import FleetServer.Facts.Import
import FleetServer.Hosts.Handlers
import FleetServer.Hosts.Preview

/-!
# The server as a service

Every request that reads or changes what the modelled tables hold, with the
program it runs.  The clock is the only thing that moves on its own.
-/

namespace FleetServer
namespace Server

open FleetServer.Core
open Storage
open Concurrency

/-- A request on the mTLS listener, behind the tier layer. -/
inductive AgentRequest where
  | heartbeat
  | desiredState (q : Agent.DesiredStateQuery)
  | stateReport (body : Agent.StateReport)
  | renew (csrPem : String)
  | download (bundleId : String)
  | uploadFacts (body : Facts.UploadBody)

inductive HttpRequest where
  | agent (ctx : PeerHostContext) (admitted : Bool) (request : AgentRequest)
  | enroll (admitted : Bool) (body : Hosts.EnrollBody)
  | createHost (who : AuthedUser)
  | revokeHostCerts (who : AuthedUser) (hostId : String)
  | desired (who : AuthedUser) (hostId : String)
  | deleteHost (who : AuthedUser) (hostId : String)
  | bulkDelete (who : AuthedUser) (hostIds : List String)
  | bulkTags (who : AuthedUser) (body : Hosts.BulkTagsBody)
  | putTag (who : AuthedUser) (hostId key value : String)
  | deleteTag (who : AuthedUser) (hostId key : String)
  | createGroup (who : AuthedUser) (name : String) (selector : Json)
  | patchGroup (who : AuthedUser) (groupId : String) (name : Option String)
      (selector : Option Json)
  | deleteGroup (who : AuthedUser) (groupId : String)
  | previewSelector (who : AuthedUser) (selector : Json)
  | putOverride (who : AuthedUser) (hostId : String) (patch : Json)
      (priority : Option Int) (template : Option String)
  | deleteOverride (who : AuthedUser) (hostId : String)
  | uploadBundle (who : AuthedUser) (form : Bundles.UploadForm)
  | composeBundle (who : AuthedUser) (body : Bundles.ComposeBody)
  | deleteBundle (who : AuthedUser) (bundleId : String)
  | assign (who : AuthedUser) (groupId bundleId : String) (priority : Int)
  | unassign (who : AuthedUser) (groupId bundleId : String)
  | stageReseal (who : AuthedUser) (bundleId : String) (body : Bytes)
  | renameBundle (who : AuthedUser) (body : Bundles.RenameBody)
  | resolveFacts (who : AuthedUser) (contentType : Option String) (body : Bytes)
  | importFacts (who : AuthedUser) (contentType : Option String) (body : Bytes)
  | deleteHostSource (who : AuthedUser) (hostId source : String)
  | deleteSource (who : AuthedUser) (source : String)

inductive Request where
  | http (request : HttpRequest)
  | reconcile (tenantId : Int) (shown : String) (dir : ConfigSource.Node) (dryRun : Bool)

inductive Answer where
  | response (r : Response)
  | reconciled (r : Except ConfigSource.ReconcileError ConfigSource.ReloadReport)

variable (deps : Deps)

def agentHandler (request : Nat) (ctx : PeerHostContext) : AgentRequest -> Prog Response
  | AgentRequest.heartbeat => Agent.heartbeat ctx
  | AgentRequest.desiredState q => Agent.desiredState deps ctx q
  | AgentRequest.stateReport body => Agent.stateReport deps ctx body
  | AgentRequest.renew csrPem => Agent.renew deps request ctx csrPem
  | AgentRequest.download bundleId => Agent.download deps ctx bundleId
  | AgentRequest.uploadFacts body => Facts.upload deps ctx body

def handler (n : Nat) : HttpRequest -> Prog Response
  | HttpRequest.agent ctx admitted request =>
      Agent.tierLayer ctx admitted (agentHandler deps n ctx request)
  | HttpRequest.enroll admitted body => Hosts.enroll deps n admitted body
  | HttpRequest.createHost who => Hosts.create deps n who
  | HttpRequest.revokeHostCerts who hostId => Hosts.revokeHostCerts deps n who hostId
  | HttpRequest.desired who hostId => Hosts.desired deps who hostId
  | HttpRequest.deleteHost who hostId => Hosts.deleteHost who hostId
  | HttpRequest.bulkDelete who hostIds => Hosts.bulkDelete who hostIds
  | HttpRequest.bulkTags who body => Hosts.bulkTags who body
  | HttpRequest.putTag who hostId key value => Hosts.putTag who hostId key value
  | HttpRequest.deleteTag who hostId key => Hosts.deleteTag who hostId key
  | HttpRequest.createGroup who name selector => Hosts.createGroup deps n who name selector
  | HttpRequest.patchGroup who groupId name selector =>
      Hosts.patchGroup deps who groupId name selector
  | HttpRequest.deleteGroup who groupId => Hosts.deleteGroup deps who groupId
  | HttpRequest.previewSelector who selector => Hosts.previewSelector deps who selector
  | HttpRequest.putOverride who hostId patch priority template =>
      Hosts.putOverride deps n who hostId patch priority template
  | HttpRequest.deleteOverride who hostId => Hosts.deleteOverride who hostId
  | HttpRequest.uploadBundle who form => Bundles.upload deps n who form
  | HttpRequest.composeBundle who body => Bundles.compose deps n who body
  | HttpRequest.deleteBundle who bundleId => Bundles.deleteBundle deps who bundleId
  | HttpRequest.assign who groupId bundleId priority =>
      Bundles.assignToGroup deps who groupId bundleId priority
  | HttpRequest.unassign who groupId bundleId =>
      Bundles.unassignFromGroup deps who groupId bundleId
  | HttpRequest.stageReseal who bundleId body => Bundles.stageReseal deps n who bundleId body
  | HttpRequest.renameBundle who body => Bundles.rename deps who body
  | HttpRequest.resolveFacts who contentType body => Facts.resolve deps who contentType body
  | HttpRequest.importFacts who contentType body => Facts.commit deps who contentType body
  | HttpRequest.deleteHostSource who hostId source => Facts.deleteHostSource who hostId source
  | HttpRequest.deleteSource who source => Facts.deleteSource who source

def program (n : Nat) : Request -> Prog Answer
  | Request.http request => do
      let response ← handler deps n request
      return Answer.response response
  | Request.reconcile tenantId shown dir dryRun => do
      let result ← ConfigSource.reconcile deps n tenantId shown dir dryRun
      return Answer.reconciled result

theorem uses_program_http {P : Op -> Prop} (n : Nat) (request : HttpRequest)
    (h : Program.Uses P (handler deps n request)) :
    Program.Uses P (program deps n (Request.http request)) :=
  Program.uses_bind h (fun response => Program.uses_done P (Answer.response response))

/-- Seconds pass. -/
structure Tick where
  secs : Nat

def Tick.on (t : Tick) (w : World) : World :=
  { w with now := w.now + t.secs }

@[reducible] def service : Service Op.Res where
  machine := machine
  Request := Request
  Response := Answer
  program := program deps
  Env := Tick
  disturb := Tick.on

/-!
# Counting before adding
-/

section Quota

variable {deps} {Q : Quota (service deps)} {i : Nat} {request : Request}
  {x : World × (Nat -> Bool)} {alpha beta : Type}

theorem obeysQuota_askOr {q : Query} {failed : beta} {next : q.Answer -> Prog beta}
    (hnext : forall y, Q.contract.Rely i x y ->
      Q.contract.Obeys i request (next (q.eval y.1.now y.1.db))
        (y.1, Q.overtaking.onCall i request (Op.query q) y.1 y.1 y.2)) :
    Q.contract.Obeys i request (askOr q failed next) x := by
  apply Quota.obeys_read
  · exact fun _ => rfl
  · intro a y hrely houtcome
    rcases outcome_cases houtcome with ⟨ha, _⟩ | ⟨ha, _⟩
    · rw [ha]
      exact hnext y hrely
    · cases ha
      trivial

theorem obeysQuota_guarded {check : Except Response alpha} {next : alpha -> Prog Response}
    (hnext : forall a, Q.contract.Obeys i request (next a) x) :
    Q.contract.Obeys i request (guarded check next) x := by
  cases check with
  | ok a => exact hnext a
  | error refused => trivial

end Quota

end Server
end FleetServer
