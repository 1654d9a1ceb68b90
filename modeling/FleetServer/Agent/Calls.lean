import FleetServer.Agent.Api
import FleetServer.Server.Walk

/-!
# The calls of agents' requests

What agents' requests write, and that everything in them but the exchange of
facts hashes is quiet: it neither looks hashes up nor stores a document.
-/

namespace FleetServer
namespace Agent

open FleetServer.Core
open Storage
open Server
open Concurrency

def agentStatement : Statement -> Bool
  | Statement.touchLastSeen _ _ => true
  | Statement.touchLastSeenIfStale _ _ _ => true
  | Statement.setLocalConfigPresent _ _ _ => true
  | Statement.setHostOverrideLast _ _ _ => true
  | Statement.updateCurrentStateHash _ _ _ => true
  | Statement.recordCert _ _ _ => true
  | Statement.retireSuperseded _ _ _ => true
  | Statement.replaceAgentTags _ _ _ => true
  | Statement.recordRefusal _ _ _ _ => true
  | Statement.setReportedHash _ _ _ => true
  | Statement.clearReportedHash _ _ => true
  | Statement.refreshCollectedAt _ _ _ _ _ => true
  | Statement.replaceFacts _ _ _ _ => true
  | _ => false

def agentCall : Op -> Bool
  | Op.statement s => agentStatement s
  | _ => true

/-- Those that neither look a host's facts hashes up nor store a document. -/
def quiet : Op -> Bool
  | Op.query (Query.factsHashes _ _) => false
  | Op.statement (Statement.replaceFacts _ _ _ _) => false
  | op => agentCall op

theorem agentCall_of_quiet {op : Op} (h : quiet op = true) : agentCall op = true := by
  cases op with
  | statement s =>
      cases s with
      | _ =>
          first
          | exact h
          | cases h
  | _ => rfl

abbrev Quiet {alpha : Type} (p : Prog alpha) : Prop :=
  Program.Uses (fun op => quiet op = true) p

theorem quiet_askOr {beta : Type} {q : Query} {failed : beta} {next : q.Answer -> Prog beta}
    (hq : quiet (Op.query q) = true) (hnext : forall a, Quiet (next a)) :
    Quiet (askOr q failed next) :=
  uses_askOr hq hnext

theorem quiet_executeOr {beta : Type} {s : Statement} {failed : beta}
    {next : s.Answer -> Prog beta} (hs : quiet (Op.statement s) = true)
    (hnext : forall a, Quiet (next a)) : Quiet (executeOr s failed next) :=
  uses_executeOr hs hnext

variable (deps : Deps)

/-!
# Computing a state
-/

theorem quiet_loadForHost (tenantId : Int) (hostId : String) (sources : List String) :
    Quiet (loadForHost deps tenantId hostId sources) := by
  induction sources with
  | nil => trivial
  | cons source rest ih =>
      apply quiet_askOr rfl
      intro stored
      apply Program.uses_bind ih
      intro facts
      cases facts with
      | error e => trivial
      | ok facts => trivial

theorem quiet_computeUncached (tenantId : Int) (hostId : String) :
    Quiet (computeUncached deps tenantId hostId) := by
  apply quiet_askOr rfl
  intro tags
  apply quiet_askOr rfl
  intro groups
  apply Program.uses_bind (quiet_loadForHost deps tenantId hostId _)
  intro facts
  cases facts with
  | error e => trivial
  | ok facts =>
      have hrest : forall groupBundles : List (BundleRow × Int), Quiet
          (askOr (Query.hostOverride tenantId hostId) (Except.error ComputeError.database)
            fun stored => Program.done ((mergedConfig deps tenantId hostId stored).map
              fun merged => desiredStateOf deps merged groupBundles)) :=
        fun _ => quiet_askOr rfl (fun _ => trivial)
      simp only
      unfold bundlesForGroups
      split
      · exact hrest []
      · exact quiet_askOr rfl hrest

theorem quiet_computeThroughCache (tenantId : Int) (hostId : String) (version : Int) :
    Quiet (computeThroughCache deps tenantId hostId version) := by
  refine ⟨rfl, fun cached => ?_⟩
  cases cached with
  | some state => trivial
  | none =>
      refine ⟨rfl, fun ticket => ?_⟩
      apply Program.uses_bind (quiet_computeUncached deps tenantId hostId)
      intro computed
      cases computed with
      | error e => trivial
      | ok state => exact ⟨rfl, fun _ => trivial⟩

theorem quiet_computeForPoll (ctx : PeerHostContext) (version : Option Int) :
    Quiet (computeForPoll deps ctx version) := by
  cases version with
  | none => exact quiet_computeUncached deps ctx.tenantId ctx.hostId
  | some v => exact quiet_computeThroughCache deps ctx.tenantId ctx.hostId v

theorem quiet_computeDesiredState (tenantId : Int) (hostId : String) :
    Quiet (computeDesiredState deps tenantId hostId) := by
  apply quiet_askOr rfl
  intro tenant
  cases tenant with
  | none => trivial
  | some t => exact quiet_computeThroughCache deps tenantId hostId t.configVersion

/-!
# Handlers
-/

theorem quiet_retireIfSuperseded (ctx : PeerHostContext) (standing : CertStanding) :
    Quiet (retireIfSuperseded ctx standing) := by
  unfold retireIfSuperseded
  split
  · exact ⟨rfl, fun _ => trivial⟩
  · trivial

theorem quiet_heartbeat (ctx : PeerHostContext) : Quiet (heartbeat ctx) :=
  ⟨rfl, fun _ => trivial⟩

theorem quiet_download (ctx : PeerHostContext) (bundleId : String) :
    Quiet (download deps ctx bundleId) := by
  apply Program.uses_bind (quiet_computeDesiredState deps ctx.tenantId ctx.hostId)
  intro computed
  cases computed with
  | error e => trivial
  | ok state =>
      simp only
      split
      · trivial
      · refine ⟨rfl, fun stored => ?_⟩
        cases stored with
        | error e => trivial
        | ok bytes => trivial

theorem quiet_renew (n : Nat) (ctx : PeerHostContext) (csrPem : String) :
    Quiet (renew deps n ctx csrPem) := by
  apply quiet_askOr rfl
  intro secrets
  cases secrets with
  | none => trivial
  | some secrets =>
      apply uses_guarded
      intro caKey
      refine ⟨rfl, fun now => ?_⟩
      simp only [Program.bind]
      split
      · trivial
      · exact quiet_executeOr rfl (fun _ => trivial)

theorem quiet_reportFlags (ctx : PeerHostContext) (body : StateReport) :
    Quiet (reportFlags ctx body) := by
  unfold reportFlags
  cases body.localConfigPresent with
  | none => exact ⟨rfl, fun _ => trivial⟩
  | some present => exact ⟨rfl, fun _ => ⟨rfl, fun _ => trivial⟩⟩

end Agent
end FleetServer
