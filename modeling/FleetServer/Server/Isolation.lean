import FleetServer.Bundles.Writes
import FleetServer.ConfigSource.Mirror
import FleetServer.Server.Calls
import FleetServer.Server.Tenancy

/-!
# Tenants are isolated

The ids a request gives out are drawn by itself, or known to be its tenant's.
Hence no id is ever named for two tenants, and no request reaches the rows and
files of a tenant it does not act for.
-/

namespace FleetServer
namespace Server

open FleetServer.Core
open Storage
open Concurrency

variable (deps : Deps)

/-!
# Calls that give out ids
-/

section Follows

variable {deps} {n : Nat} {request : Request} {t : Int} {k : List (String × Int)}
  {alpha beta : Type}

variable {hostId : String} {existing : Existing} {spec : Spec}

theorem follows_askOr {q : Query} {failed : beta} {next : q.Answer -> Prog beta}
    (hq : (lessons deps n request).May k (Op.query q))
    (hnext : forall a, q.Honest a ->
      Program.Follows (lessons deps n request) (q.teaches a ++ k) (next a)) :
    Program.Follows (lessons deps n request) k (askOr q failed next) := by
  constructor
  · exact hq
  · intro r hr
    cases r with
    | error e => trivial
    | ok a => exact hnext a (hr a rfl)

theorem follows_executeOr {s : Statement} {failed : beta} {next : s.Answer -> Prog beta}
    (hs : (lessons deps n request).May k (Op.statement s))
    (hnext : forall a, s.Honest a -> Program.Follows (lessons deps n request) k (next a)) :
    Program.Follows (lessons deps n request) k (executeOr s failed next) := by
  constructor
  · exact hs
  · intro r hr
    cases r with
    | error e => trivial
    | ok a => exact hnext a (hr a rfl)

theorem follows_performThen {op : Op} {f : op.Res -> Prog beta}
    (hop : (lessons deps n request).May k op)
    (hf : forall r, op.Honest r ->
      Program.Follows (lessons deps n request) (op.teaches r ++ k) (f r)) :
    Program.Follows (lessons deps n request) k (Program.perform op >>= f) :=
  ⟨hop, hf⟩

theorem follows_guarded {check : Except Response alpha} {next : alpha -> Prog Response}
    (hnext : forall a, check = Except.ok a ->
      Program.Follows (lessons deps n request) k (next a)) :
    Program.Follows (lessons deps n request) k (guarded check next) := by
  cases check with
  | ok a => exact hnext a rfl
  | error refused => trivial

/-!
## Hosts
-/

section Hosts

variable {who : AuthedUser} (ht : request.tenant = some who.tenantId)

include ht

theorem follows_create : Program.Follows (lessons deps n request) k (Hosts.create deps n who) := by
  unfold Hosts.create
  split
  · trivial
  · refine follows_askOr (may_plain (Or.inl ht) ⟨rfl, rfl⟩) ?_
    intro tenant hhonest
    cases tenant with
    | none => trivial
    | some tenant =>
        have hid : tenant.id = who.tenantId := hhonest tenant rfl
        refine follows_askOr (may_plain (Or.inl ht) ⟨hid, rfl⟩) ?_
        intro active _
        split
        · trivial
        · rw [hid]
          constructor
          · exact may_plain (Or.inl ht) ⟨trivial, rfl⟩
          · intro now _
            apply follows_executeOr
            · refine may_drawn ht rfl ?_
              intro id hmem
              exact ⟨0, List.mem_singleton.mp hmem⟩
            · intro host _
              constructor
              · exact may_plain (Or.inl ht) ⟨trivial, rfl⟩
              · intro now' _
                trivial

theorem follows_ifHostBelongs {next : Prog Response}
    (hnext : Program.Follows (lessons deps n request) ((hostId, who.tenantId) :: k) next) :
    Program.Follows (lessons deps n request) k
      (Hosts.ifHostBelongs who.tenantId hostId next) := by
  refine follows_askOr (may_plain (Or.inl ht) ⟨rfl, rfl⟩) ?_
  intro host _
  cases host with
  | none => trivial
  | some host => exact hnext

omit ht in
theorem follows_upsertManualTag {key value : String} {failed : beta} {next : Bool -> Prog beta}
    (ht : request.tenant = some t) (hhost : (hostId, t) ∈ k)
    (hnext : forall changed, Program.Follows (lessons deps n request) k (next changed)) :
    Program.Follows (lessons deps n request) k
      (Hosts.upsertManualTag t hostId key value failed next) := by
  have hids : forall id, id ∈ [hostId] -> (id, t) ∈ k := by
    intro id hmem
    rw [List.mem_singleton.mp hmem]
    exact hhost
  refine follows_askOr (may_known ht trivial hids) ?_
  intro existing _
  refine follows_executeOr (may_known ht rfl hids) ?_
  intro _ _
  exact hnext _

theorem follows_putTag (hostId key value : String) :
    Program.Follows (lessons deps n request) k (Hosts.putTag who hostId key value) := by
  apply follows_guarded
  intro _ _
  apply follows_ifHostBelongs ht
  apply follows_guarded
  intro _ _
  apply follows_upsertManualTag ht List.mem_cons_self
  intro changed
  apply follows_plain (Or.inl ht)
  cases changed with
  | false => trivial
  | true => exact ⟨⟨rfl, rfl⟩, fun _ => trivial⟩

omit ht in
theorem follows_bulkSet {changed : Bool} {next : Bool -> Prog Response}
    (ht : request.tenant = some t) (hhost : (hostId, t) ∈ k)
    (hnext : forall changed, Program.Follows (lessons deps n request) k (next changed))
    (tags : List (String × String)) :
    Program.Follows (lessons deps n request) k (Hosts.bulkSet t hostId changed next tags) := by
  induction tags generalizing changed with
  | nil => exact hnext changed
  | cons tag rest ih =>
      apply follows_upsertManualTag ht hhost
      intro c
      exact ih

omit ht in
theorem follows_bulkRemove {changed : Bool} {next : Bool -> Prog Response}
    (ht : request.tenant = some t)
    (hnext : forall changed, Program.Follows (lessons deps n request) k (next changed))
    (keys : List String) :
    Program.Follows (lessons deps n request) k (Hosts.bulkRemove t hostId changed next keys) := by
  induction keys generalizing changed with
  | nil => exact hnext changed
  | cons key rest ih =>
      refine follows_executeOr (may_plain (Or.inl ht) ⟨rfl, rfl⟩) ?_
      intro c _
      exact ih

omit ht in
theorem plain_bulkTagged (updated : Nat) (missing hostIds : List String) :
    Program.Uses (Plain t) (Hosts.bulkTagged t updated missing hostIds) := by
  induction hostIds with
  | nil => trivial
  | cons hostId rest ih => exact ⟨⟨rfl, rfl⟩, fun _ => ih⟩

omit ht in
theorem follows_bulkTagsLoop (ht : request.tenant = some t) (body : Hosts.BulkTagsBody)
    (updated : Nat) (missing touched hostIds : List String) :
    Program.Follows (lessons deps n request) k
      (Hosts.bulkTagsLoop t body updated missing touched hostIds) := by
  induction hostIds generalizing updated missing touched k with
  | nil => exact follows_plain (Or.inl ht) (plain_bulkTagged updated missing touched)
  | cons hostId rest ih =>
      refine follows_askOr (may_plain (Or.inl ht) ⟨rfl, rfl⟩) ?_
      intro host _
      cases host with
      | none => exact ih _ _ _
      | some host =>
          have hhost : (hostId, t) ∈ (Query.host t hostId).teaches (some host) ++ k :=
            List.mem_append_left k (List.mem_singleton_self _)
          apply follows_bulkSet ht hhost
          intro changed
          apply follows_bulkRemove ht
          intro changed
          exact ih _ _ _

theorem follows_bulkTags (body : Hosts.BulkTagsBody) :
    Program.Follows (lessons deps n request) k (Hosts.bulkTags who body) := by
  apply follows_guarded
  intro _ _
  apply follows_guarded
  intro hostIds _
  exact follows_bulkTagsLoop ht body 0 [] [] hostIds

theorem follows_putOverride (hostId : String) (patch : Json) (priority : Option Int)
    (template : Option String) :
    Program.Follows (lessons deps n request) k
      (Hosts.putOverride deps n who hostId patch priority template) := by
  apply follows_guarded
  intro _ _
  apply follows_ifHostBelongs ht
  apply follows_guarded
  intro _ _
  apply follows_guarded
  intro template _
  apply follows_executeOr
  · refine may_known ht rfl ?_
    intro id hmem
    rw [List.mem_singleton.mp hmem]
    exact List.mem_cons_self
  · intro _ _
    exact follows_plain (Or.inl ht) plain_bump

end Hosts

/-!
## Groups and bundles
-/

section Bundles

variable {who : AuthedUser} (ht : request.tenant = some who.tenantId)

include ht

theorem follows_createGroup (name : String) (selector : Json) :
    Program.Follows (lessons deps n request) k
      (Hosts.createGroup deps n who name selector) := by
  apply follows_guarded
  intro _ _
  apply follows_guarded
  intro _ _
  apply follows_guarded
  intro selectorJson _
  apply follows_executeOr
  · refine may_drawn ht rfl ?_
    intro id hmem
    exact ⟨0, List.mem_singleton.mp hmem⟩
  · intro g _
    exact follows_plain (Or.inl ht) plain_bump

theorem follows_assignToGroup (groupId bundleId : String) (priority : Int) :
    Program.Follows (lessons deps n request) k
      (Bundles.assignToGroup deps who groupId bundleId priority) := by
  apply follows_guarded
  intro _ _
  refine follows_askOr (may_plain (Or.inl ht) ⟨rfl, rfl⟩) ?_
  intro group _
  cases group with
  | none => trivial
  | some group =>
      refine follows_askOr (may_plain (Or.inl ht) ⟨rfl, rfl⟩) ?_
      intro bundle _
      cases bundle with
      | none => trivial
      | some bundle =>
          apply follows_executeOr
          · refine may_known ht rfl ?_
            intro id hmem
            rcases List.mem_cons.mp hmem with hgroup | hbundle
            · rw [hgroup]
              exact List.mem_append_right _ List.mem_cons_self
            · rw [List.mem_singleton.mp hbundle]
              exact List.mem_cons_self
          · intro _ _
            exact follows_plain (Or.inl ht) plain_bump

theorem follows_insertAndStore (b : Bundles.NewBundle) (signature : String)
    (answer : BundleRow -> Response) :
    Program.Follows (lessons deps n request) k
      (Bundles.insertAndStore deps n who.tenantId b signature answer) := by
  apply follows_executeOr
  · refine may_drawn ht rfl ?_
    intro id hmem
    exact ⟨0, List.mem_singleton.mp hmem⟩
  · intro row hhonest
    have hid : row.id = deps.ulid n 0 := hhonest
    constructor
    · refine may_drawn ht rfl ?_
      intro id hmem
      exact ⟨0, (List.mem_singleton.mp hmem).trans hid⟩
    · intro stored _
      cases stored with
      | error e => trivial
      | ok _ => exact follows_plain (Or.inl ht) plain_bump

theorem follows_persistBundle (b : Bundles.NewBundle) (answer : BundleRow -> Response) :
    Program.Follows (lessons deps n request) k
      (Bundles.persistBundle deps n who.tenantId b answer) := by
  refine follows_askOr (may_plain (Or.inl ht) ⟨rfl, rfl⟩) ?_
  intro tenant _
  cases tenant with
  | none => trivial
  | some tenant =>
      refine follows_askOr (may_plain (Or.inl ht) ⟨rfl, rfl⟩) ?_
      intro count _
      split
      · trivial
      · split
        · trivial
        · refine follows_askOr (may_plain (Or.inl ht) ⟨rfl, rfl⟩) ?_
          intro secrets _
          split
          · trivial
          · exact follows_insertAndStore ht b _ answer

theorem follows_upload (form : Bundles.UploadForm) :
    Program.Follows (lessons deps n request) k (Bundles.upload deps n who form) := by
  apply follows_guarded
  intro _ _
  apply follows_guarded
  intro name _
  apply follows_guarded
  intro version _
  apply follows_guarded
  intro bytes _
  have hrest : forall k, Program.Follows (lessons deps n request) k
      (guarded (Bundles.formatOf form.format) fun format =>
        guarded (Bundles.keyFingerprintOf format bytes) fun keyFingerprint =>
          Bundles.persistBundle deps n who.tenantId
            { name := name, version := version, bytes := bytes, format := format,
              keyFingerprint := keyFingerprint }
            fun row => Response.ok (Payload.bundle (BundleView.of row))) := by
    intro k
    apply follows_guarded
    intro format _
    apply follows_guarded
    intro keyFingerprint _
    exact follows_persistBundle ht _ _
  unfold Bundles.checkBase
  split
  · exact hrest k
  · refine follows_askOr (may_plain (Or.inl ht) ⟨rfl, rfl⟩) ?_
    intro base _
    split
    · trivial
    · split
      · exact hrest _
      · trivial

theorem follows_withCarried (baseBundleId : Option String) (name : String)
    {next : List (String × Bytes) -> Prog Response}
    (hnext : forall k carried, Program.Follows (lessons deps n request) k (next carried)) :
    Program.Follows (lessons deps n request) k
      (Bundles.withCarried deps who.tenantId baseBundleId name next) := by
  unfold Bundles.withCarried
  split
  · exact hnext k []
  · refine follows_askOr (may_plain (Or.inl ht) ⟨rfl, rfl⟩) ?_
    intro base _
    split
    · trivial
    · split
      · trivial
      · split
        · trivial
        · constructor
          · exact may_plain (Or.inl ht) ⟨rfl, rfl⟩
          · intro stored _
            cases stored with
            | error e => trivial
            | ok bytes =>
                apply follows_guarded
                intro carried _
                exact hnext _ carried

theorem follows_compose (body : Bundles.ComposeBody) :
    Program.Follows (lessons deps n request) k (Bundles.compose deps n who body) := by
  apply follows_guarded
  intro _ _
  apply follows_guarded
  intro c _
  apply follows_withCarried ht
  intro k carried
  apply follows_guarded
  intro carried _
  constructor
  · exact may_plain (Or.inl ht) ⟨trivial, rfl⟩
  · intro now _
    apply follows_guarded
    intro bytes _
    exact follows_persistBundle ht _ _

theorem follows_stageReseal (bundleId : String) (body : Bytes) :
    Program.Follows (lessons deps n request) k
      (Bundles.stageReseal deps n who bundleId body) := by
  apply follows_guarded
  intro _ _
  refine follows_askOr (may_plain (Or.inl ht) ⟨rfl, rfl⟩) ?_
  intro version _
  cases version with
  | none => trivial
  | some version =>
      simp only
      split
      · trivial
      · apply follows_guarded
        intro bytes _
        apply follows_guarded
        intro _ _
        constructor
        · refine may_drawn ht rfl ?_
          intro id hmem
          exact ⟨0, List.mem_singleton.mp hmem⟩
        · intro stored _
          cases stored with
          | error e => trivial
          | ok _ => trivial

theorem follows_withAllMoved (key : Bytes) (to_ : String) (resealed : List (String × String))
    (moved : List MovedBundle) {next : List MovedBundle -> Prog Response}
    (hmoved : forall m, m ∈ moved -> (m.newId, who.tenantId) ∈ k)
    (hnext : forall k moved, (forall m, m ∈ moved -> (m.newId, who.tenantId) ∈ k) ->
      Program.Follows (lessons deps n request) k (next moved))
    (versions : List BundleRow) :
    Program.Follows (lessons deps n request) k
      (Bundles.withAllMoved deps who.tenantId key to_ resealed moved next versions) := by
  induction versions generalizing moved k with
  | nil => exact hnext k moved hmoved
  | cons version rest ih =>
      unfold Bundles.withAllMoved
      split
      · trivial
      · rename_i staged _
        refine follows_askOr (may_plain (Or.inl ht) ⟨rfl, rfl⟩) ?_
        intro row _
        split
        · trivial
        · constructor
          · exact may_plain (Or.inl ht) ⟨rfl, rfl⟩
          · intro stored _
            cases stored with
            | error e => trivial
            | ok bytes =>
                apply follows_guarded
                intro m hm
                apply ih
                intro m' hmem
                rcases List.mem_append.mp hmem with hold | hnew
                · exact List.mem_append_right _ (List.mem_append_right _ (hmoved m' hold))
                · rcases Bundles.movedBundle_eq_ok hm with ⟨_, _, hmade⟩
                  rw [List.mem_singleton.mp hnew, hmade]
                  exact List.mem_cons_self

theorem follows_rename (body : Bundles.RenameBody) :
    Program.Follows (lessons deps n request) k (Bundles.rename deps who body) := by
  apply follows_guarded
  intro _ _
  apply follows_guarded
  intro to_ _
  refine follows_askOr (may_plain (Or.inl ht) ⟨rfl, rfl⟩) ?_
  intro taken _
  split
  · trivial
  · refine follows_askOr (may_plain (Or.inl ht) ⟨rfl, rfl⟩) ?_
    intro versions _
    split
    · trivial
    · apply follows_guarded
      intro _ _
      refine follows_askOr (may_plain (Or.inl ht) ⟨rfl, rfl⟩) ?_
      intro secrets _
      split
      · trivial
      · apply follows_withAllMoved ht
        · intro m hm
          cases hm
        · intro k moved hmoved
          apply follows_executeOr
          · refine may_known ht rfl ?_
            intro id hmem
            rcases List.mem_map.mp hmem with ⟨m, hm, rfl⟩
            exact hmoved m hm
          · intro outcome _
            apply follows_plain (Or.inl ht)
            cases outcome with
            | nameTaken => trivial
            | changed => trivial
            | renamed => exact uses_askOr ⟨rfl, rfl⟩ (fun _ => trivial)

end Bundles

/-!
## Agents
-/

section Agents

variable {ctx : PeerHostContext} (ht : request.tenant = some ctx.tenantId)

include ht

theorem follows_renew (csrPem : String) (hhost : (ctx.hostId, ctx.tenantId) ∈ k) :
    Program.Follows (lessons deps n request) k (Agent.renew deps n ctx csrPem) := by
  refine follows_askOr (may_plain (Or.inl ht) ⟨rfl, rfl⟩) ?_
  intro secrets _
  cases secrets with
  | none => trivial
  | some secrets =>
      apply follows_guarded
      intro caKey _
      refine follows_performThen (may_plain (Or.inl ht) ⟨trivial, rfl⟩) ?_
      intro now _
      split
      · trivial
      · apply follows_executeOr
        · refine may_known ht rfl ?_
          intro id hmem
          rw [List.mem_singleton.mp hmem]
          exact hhost
        · intro _ _
          trivial

theorem follows_reportTags (body : Agent.StateReport)
    (hhost : (ctx.hostId, ctx.tenantId) ∈ k) :
    Program.Follows (lessons deps n request) k (Agent.reportTags deps ctx body) := by
  have hfacts : Program.Uses (Plain ctx.tenantId) (Agent.reportFacts deps ctx body) :=
    Program.uses_bind (plain_advertise deps body.factsHash) (fun _ => trivial)
  unfold Agent.reportTags
  split
  · exact follows_plain (Or.inl ht) hfacts
  · split
    · trivial
    · apply follows_executeOr
      · refine may_known ht rfl ?_
        intro id hmem
        rw [List.mem_singleton.mp hmem]
        exact hhost
      · intro changed _
        apply follows_plain (Or.inl ht)
        cases changed with
        | false => exact hfacts
        | true => exact ⟨⟨rfl, rfl⟩, fun _ => hfacts⟩

theorem follows_reportRest (body : Agent.StateReport)
    (hhost : (ctx.hostId, ctx.tenantId) ∈ k) :
    Program.Follows (lessons deps n request) k (Agent.reportRest deps ctx body) := by
  have hflags : Program.Uses (Plain ctx.tenantId) (Agent.reportFlags ctx body) := by
    unfold Agent.reportFlags
    split
    · exact ⟨⟨rfl, rfl⟩, fun _ => ⟨⟨rfl, rfl⟩, fun _ => trivial⟩⟩
    · exact ⟨⟨rfl, rfl⟩, fun _ => trivial⟩
  apply Program.follows_bind (G := fun k => (ctx.hostId, ctx.tenantId) ∈ k)
    (follows_plain (Or.inl ht) hflags) (Program.ends_true _) hhost
  · intro k op r hk
    exact List.mem_append_right _ hk
  · intro _ k' _ hk'
    exact follows_reportTags ht body hk'

theorem follows_stateReport (body : Agent.StateReport)
    (hhost : (ctx.hostId, ctx.tenantId) ∈ k) :
    Program.Follows (lessons deps n request) k (Agent.stateReport deps ctx body) := by
  unfold Agent.stateReport
  split
  · split
    · trivial
    · refine follows_executeOr (may_plain (Or.inl ht) ⟨rfl, rfl⟩) ?_
      intro _ _
      exact follows_reportRest ht body hhost
  · constructor
    · exact may_plain (Or.inl ht) ⟨rfl, rfl⟩
    · intro _ _
      exact follows_reportRest ht body hhost

theorem follows_agentHandler (agent : AgentRequest) (hhost : (ctx.hostId, ctx.tenantId) ∈ k) :
    Program.Follows (lessons deps n request) k (agentHandler deps n ctx agent) := by
  cases agent with
  | heartbeat => exact follows_plain (Or.inl ht) plain_heartbeat
  | desiredState q => exact follows_plain (Or.inl ht) (plain_desiredState deps q)
  | stateReport body => exact follows_stateReport ht body hhost
  | renew csrPem => exact follows_renew ht csrPem hhost
  | download bundleId => exact follows_plain (Or.inl ht) (plain_download deps bundleId)
  | uploadFacts body => exact follows_plain (Or.inl ht) (plain_uploadFacts deps body)

theorem follows_tierLayer (admitted : Bool) {next : Prog Response}
    (hnext : forall k, (ctx.hostId, ctx.tenantId) ∈ k ->
      Program.Follows (lessons deps n request) k next) :
    Program.Follows (lessons deps n request) k (Agent.tierLayer ctx admitted next) := by
  refine follows_askOr (may_plain (Or.inl ht) ⟨rfl, rfl⟩) ?_
  intro standing _
  split
  · trivial
  · rename_i hactive
    have hhost : (ctx.hostId, ctx.tenantId) ∈
        (Query.certStanding ctx.tenantId ctx.hostId ctx.serialHex).teaches standing ++ k := by
      apply List.mem_append_left
      show _ ∈ if standing.active then [(ctx.hostId, ctx.tenantId)] else []
      rw [if_pos (by simpa using hactive)]
      exact List.mem_singleton_self _
    have hretire : Program.Uses (Plain ctx.tenantId) (Agent.retireIfSuperseded ctx standing) := by
      unfold Agent.retireIfSuperseded
      split
      · exact ⟨⟨rfl, rfl⟩, fun _ => trivial⟩
      · trivial
    apply Program.follows_bind (G := fun k => (ctx.hostId, ctx.tenantId) ∈ k)
      (follows_plain (Or.inl ht) hretire) (Program.ends_true _) hhost
    · intro k op r hk
      exact List.mem_append_right _ hk
    · intro _ k' _ hk'
      refine follows_askOr (may_plain (Or.inl ht) ⟨rfl, rfl⟩) ?_
      intro tenant _
      cases tenant with
      | none => trivial
      | some tenant =>
          cases admitted with
          | false => trivial
          | true => exact hnext _ (List.mem_append_right _ hk')

end Agents

theorem follows_enroll {admitted : Bool} {body : Hosts.EnrollBody}
    (hrequest : request = Request.http (HttpRequest.enroll admitted body)) :
    Program.Follows (lessons deps n request) k (Hosts.enroll deps n admitted body) := by
  refine follows_performThen (Or.inl rfl) ?_
  intro now _
  split
  · trivial
  · rename_i claims hclaims
    have hacts : request.ActsFor deps claims.tenantId :=
      Or.inr ⟨admitted, body, now, claims, hrequest, hclaims, rfl⟩
    apply follows_plain hacts
    split
    · trivial
    · apply uses_askOr ⟨rfl, rfl⟩
      intro pending
      cases pending with
      | false => trivial
      | true => exact plain_enrollTenant deps n claims body

/-!
## Reconciles
-/

section Reconcile

open ConfigSource

/-- Whether an id is one of the tenant's, or drawn by the request. -/
def Usable (deps : Deps) (n : Nat) (t : Int) (k : List (String × Int)) (id : String) : Prop :=
  (id, t) ∈ k ∨ exists j, id = deps.ulid n j

theorem may_usable (ht : request.tenant = some t) {op : Op} (hop : op.Of t)
    (hids : forall id, id ∈ op.names -> Usable deps n t k id) :
    (lessons deps n request).May k op := by
  refine Or.inr ⟨t, Or.inl ht, hop, ?_⟩
  intro id hid
  rcases hids id hid with hknown | hdrawn
  · exact Or.inl hknown
  · exact Or.inr ⟨ht, hdrawn⟩

theorem may_grows (k : List (String × Int)) (op : Op) (r : op.Res) (op' : Op)
    (h : (lessons deps n request).May k op') :
    (lessons deps n request).May ((lessons deps n request).learn k op r) op' := by
  rcases h with hnow | ⟨t, hacts, hop, hids⟩
  · exact Or.inl hnow
  · refine Or.inr ⟨t, hacts, hop, ?_⟩
    intro id hid
    rcases hids id hid with hknown | hdrawn
    · exact Or.inl (List.mem_append_right _ hknown)
    · exact Or.inr hdrawn

structure Read (t : Int) (existing : Existing) (k : List (String × Int)) : Prop where
  bundles : forall row, row ∈ existing.bundles -> (row.id, t) ∈ k
  groups : forall row, row ∈ existing.groups -> (row.id, t) ∈ k

theorem usable_picked (hread : Read t existing k) {b : BuiltBundle} {choice : Choice}
    (h : Picks deps n existing.bundles (fun _ _ => True) (fun _ _ => True) b choice) :
    Usable deps n t k choice.id := by
  cases h with
  | keep hrow _ => exact Or.inl (hread.bundles _ (mem_of_byIdentity hrow).1)
  | insert _ => exact Or.inr ⟨_, rfl⟩

theorem usable_bundleIdOf (hread : Read t existing k) {p : Planning}
    {picked : List (BuiltBundle × Choice)} (hextends : Planning.start.Extends picked p)
    (hpicks : forall x, x ∈ picked ->
      Picks deps n existing.bundles (fun _ _ => True) (fun _ _ => True) x.1 x.2)
    {name version : String} (hmem : exists x, x ∈ picked ∧ x.1.name = name ∧ x.1.version = version)
    :
    Usable deps n t k (bundleIdOf p.bundleIds name version) := by
  have hids : p.bundleIds = picked.map fun x => ((x.1.name, x.1.version), x.2.id) :=
    hextends.ids
  have hsome : (p.bundleIds.reverse.lookup (name, version)).isSome = true := by
    rcases hmem with ⟨x, hx, rfl, rfl⟩
    rw [List.lookup_isSome_iff, hids]
    refine ⟨_, List.mem_reverse.mpr (List.mem_map.mpr ⟨x, hx, rfl⟩), ?_⟩
    exact beq_self_eq_true _
  rcases Option.isSome_iff_exists.mp hsome with ⟨id, hid⟩
  rcases List.lookup_eq_some_iff.mp hid with ⟨before, after, hsplit, _⟩
  have hthere : ((name, version), id) ∈ p.bundleIds := by
    rw [← List.mem_reverse, hsplit]
    exact List.mem_append_right _ List.mem_cons_self
  rw [hids] at hthere
  rcases List.mem_map.mp hthere with ⟨x, hx, hsame⟩
  have hchosen : x.2.id = id := congrArg Prod.snd hsame
  unfold bundleIdOf
  rw [hid, Option.getD_some, ← hchosen]
  exact usable_picked hread (hpicks x hx)

theorem usable_placed (hread : Read t existing k) {d : Nat} {specs : List GroupSpec}
    {planned : List PlannedGroup} (hplaces : Places deps n existing.groups d specs planned)
    {g : PlannedGroup} (hg : g ∈ planned) : Usable deps n t k g.id := by
  rcases places_cases hplaces g hg with ⟨_, row, hrow, hid⟩ | ⟨_, _, j, _, hid⟩
  · rw [hid]
    exact Or.inl (hread.groups _ (mem_of_groupByName hrow).1)
  · exact Or.inr ⟨j, hid⟩

theorem usable_groupIdOf (hread : Read t existing k) {d : Nat} {specs : List GroupSpec}
    {planned : List PlannedGroup} (hplaces : Places deps n existing.groups d specs planned)
    {g : GroupSpec} (hg : g ∈ specs) :
    Usable deps n t k (groupIdOf planned g.name) := by
  have hpair : (g.name, g.selectorJson) ∈ planned.map fun g => (g.name, g.selectorJson) := by
    rw [places_map hplaces]
    exact List.mem_map.mpr ⟨g, hg, rfl⟩
  rcases List.mem_map.mp hpair with ⟨g', hg', hsame⟩
  have hname : g'.name = g.name := congrArg Prod.fst hsame
  have hsome : (planned.reverse.find? fun g' => g'.name == g.name).isSome = true := by
    rw [List.find?_isSome]
    exact ⟨g', List.mem_reverse.mpr hg', beq_iff_eq.mpr hname⟩
  rcases Option.isSome_iff_exists.mp hsome with ⟨found, hfound⟩
  unfold groupIdOf
  rw [hfound]
  exact usable_placed hread hplaces (List.mem_reverse.mp (List.mem_of_find?_eq_some hfound))

/-- The bundles a group refers to are in the directory. -/
def Referring (spec : Spec) : Prop :=
  forall g, g ∈ spec.groups -> forall r, r ∈ g.bundles ->
    exists b, b ∈ spec.bundles ∧ b.name = r.name ∧ b.version = r.version

theorem referring_of_load {shown : String} {dir : Node} (h : load deps shown dir = Except.ok spec) :
    Referring spec := by
  rcases load_eq_ok h with ⟨entries, _, hspec, _, hrefs⟩
  rw [hspec]
  intro g hg
  exact unknownRefs_eq_nil (List.flatMap_eq_nil_iff.mp hrefs g hg)

theorem usable_configPlan (hread : Read t existing k) (hrefs : Referring spec)
    {built : List BuiltBundle} (hbuilt : List.Forall₂ (BuiltFrom deps) spec.bundles built)
    {p : Planning} {picked : List (BuiltBundle × Choice)} (hpicked : picked.map Prod.fst = built)
    (hextends : Planning.start.Extends picked p) (hpicks : forall x, x ∈ picked ->
      Picks deps n existing.bundles (fun _ _ => True) (fun _ _ => True) x.1 x.2)
    (hstaged : Staged deps n p) :
    forall id, id ∈ (configPlan deps n existing spec p).names -> Usable deps n t k id := by
  have hdrawn : Drawn deps n (configPlan deps n existing spec p) := drawn_configPlan hstaged
  intro id hid
  rcases List.mem_append.mp hid with hbundle | hid
  · rcases List.mem_map.mp hbundle with ⟨b, hb, hsame⟩
    rcases hdrawn.1 b hb with ⟨j, hj⟩
    exact Or.inr ⟨j, hsame.symm.trans hj⟩
  · rcases List.mem_append.mp hid with hgroup | hassigned
    · rcases List.mem_map.mp hgroup with ⟨g, hg, hsame⟩
      have hcreated := List.mem_filter.mp hg
      rcases hdrawn.2 g hcreated.1 hcreated.2 with ⟨j, hj⟩
      exact Or.inr ⟨j, hsame.symm.trans hj⟩
    · rcases List.mem_flatMap.mp hassigned with ⟨a, ha, hid⟩
      rcases List.mem_flatMap.mp ha with ⟨g, hg, ha⟩
      rcases List.mem_map.mp ha with ⟨r, hr, hsame⟩
      rcases places_foldl n existing.groups (GroupPlan.start p.drawn) spec.groups with
        ⟨planned, hgroups, hplaces⟩
      have hgroup : Usable deps n t k a.1 := by
        rw [← hsame]
        have hplan : (planGroups deps n existing.groups p.drawn spec.groups).groups = planned :=
          hgroups
        show Usable deps n t k (groupIdOf _ g.name)
        rw [hplan]
        exact usable_groupIdOf hread hplaces hg
      have hbundle : Usable deps n t k a.2.1 := by
        rw [← hsame]
        apply usable_bundleIdOf hread hextends hpicks
        rcases hrefs g hg r hr with ⟨b, hb, hname, hversion⟩
        rcases Table.forall₂_exists_right hbuilt hb with ⟨b', hb', hfrom⟩
        rw [← hpicked] at hb'
        rcases List.mem_map.mp hb' with ⟨x, hx, hx'⟩
        refine ⟨x, hx, ?_, ?_⟩
        · rw [hx', hfrom.name, hname]
        · rw [hx', hfrom.version, hversion]
      rcases List.mem_cons.mp hid with hfirst | hid
      · rw [hfirst]
        exact hgroup
      · rw [List.mem_singleton.mp hid]
        exact hbundle

theorem plain_planBundles {dryRun : Bool} {existing : List BundleRow}
    (hrows : forall row, row ∈ existing -> row.tenantId = t) (p : Planning)
    (built : List BuiltBundle) :
    Program.Uses (Plain t) (planBundles deps n t dryRun existing p built) := by
  induction built generalizing p with
  | nil => trivial
  | cons b rest ih =>
      have hcompared : Program.Uses (Plain t)
          (unchangedRow deps (byIdentity existing b.name b.version) b) := by
        unfold unchangedRow
        split
        · trivial
        · rename_i row hrow
          apply Program.uses_bind
          · unfold unchanged
            split
            · trivial
            · split
              · trivial
              · split
                · trivial
                · constructor
                  · exact ⟨hrows row (mem_of_byIdentity hrow).1, rfl⟩
                  · intro stored
                    cases stored with
                    | error e => trivial
                    | ok bytes => trivial
          · intro same
            cases same with
            | false => trivial
            | true => trivial
      apply Program.uses_bind hcompared
      intro same
      cases same with
      | some row => exact ih _
      | none =>
          have hinserted : Program.Uses (Plain t) (planInsert deps n t dryRun
              (p.report (byIdentity existing b.name b.version) b) b) := by
            unfold planInsert withSigningKey
            simp only
            split
            · trivial
            · split
              · trivial
              · apply uses_askOr ⟨rfl, rfl⟩
                intro secrets
                split
                · trivial
                · trivial
          apply Program.uses_bind hinserted
          intro planned
          cases planned with
          | error e => trivial
          | ok p => exact ih p

theorem ends_planned {dryRun : Bool} {limits : TierLimits} {built : List BuiltBundle}
    (hids : deps.UniqueIds) (hrefs : Referring spec)
    (hbuilt : builtWithin deps limits spec.bundles = Except.ok built) :
    Program.Ends (fun r => forall p, r = Except.ok p -> Staged deps n p ∧
        forall k, Read t existing k ->
          forall id, id ∈ (configPlan deps n existing spec p).names -> Usable deps n t k id)
      (planBundles deps n t dryRun existing.bundles Planning.start built) := by
  have hstaged : Program.Ends (staysStaged deps n)
      (planBundles deps n t dryRun existing.bundles Planning.start built) :=
    ends_planBundles hids (staged_start n) (builtWithin_sha256 hbuilt)
  have hpicks : Program.Ends (fun r => forall q, r = Except.ok q ->
      exists picked : List (BuiltBundle × Choice), picked.map Prod.fst = built ∧
        Planning.start.Extends picked q ∧ forall x, x ∈ picked ->
          Picks deps n existing.bundles (fun _ _ => True) (fun _ _ => True) x.1 x.2)
      (planBundles deps n t dryRun existing.bundles Planning.start built) := by
    apply Program.ends_of_endsGiven
    apply endsGiven_planBundles
    intro row b _
    apply Program.endsGiven_mono (Program.endsGiven_true _)
    intro r _
    cases r with
    | true => trivial
    | false => trivial
  refine Program.ends_mono (Program.ends_and hstaged hpicks) ?_
  intro r hr p hp
  rcases hr.2 p hp with ⟨picked, hpicked, hextends, hpicks⟩
  refine ⟨hr.1 p hp, ?_⟩
  intro k hread
  exact usable_configPlan hread hrefs (builtFrom_of_builtWithin hbuilt) hpicked hextends hpicks
    (hr.1 p hp)

theorem follows_reconcileExisting (ht : request.tenant = some t) (hids : deps.UniqueIds)
    (hread : Read t existing k) (hrows : forall row, row ∈ existing.bundles -> row.tenantId = t)
    (hrefs : Referring spec) (dryRun : Bool) (limits : TierLimits) :
    Program.Follows (lessons deps n request) k
      (reconcileExisting deps n t dryRun limits spec existing) := by
  unfold reconcileExisting
  split
  · trivial
  · rename_i built hbuilt
    apply Program.follows_bind (G := fun k => Read t existing k)
      (follows_plain (Or.inl ht) (plain_planBundles hrows _ built))
      (ends_planned hids hrefs hbuilt) hread
    · intro k op r hk
      constructor
      · exact fun row hrow => List.mem_append_right _ (hk.bundles row hrow)
      · exact fun row hrow => List.mem_append_right _ (hk.groups row hrow)
    · intro planned k' hplanned hk'
      cases planned with
      | error e => trivial
      | ok p =>
          rcases hplanned p rfl with ⟨hstaged, hnames⟩
          show Program.Follows _ k' (reconcilePlanned deps n t dryRun existing spec p)
          unfold reconcilePlanned
          simp only
          split
          · trivial
          · apply Program.follows_of_kept may_grows
            apply uses_applyPlan
            · intro e he
              refine may_usable ht rfl ?_
              intro id hid
              rcases hstaged.drawn e he with ⟨j, _, hj⟩
              exact Or.inr ⟨j, (List.mem_singleton.mp hid).trans hj⟩
            · exact fun id => may_plain (Or.inl ht) ⟨rfl, rfl⟩
            · exact may_usable ht rfl (hnames k' hk')

theorem follows_reconcile (ht : request.tenant = some t) (hids : deps.UniqueIds)
    (shown : String) (dir : Node) (dryRun : Bool) :
    Program.Follows (lessons deps n request) k (reconcile deps n t shown dir dryRun) := by
  unfold reconcile
  split
  · trivial
  · rename_i spec hspec
    refine follows_askOr (may_plain (Or.inl ht) ⟨rfl, rfl⟩) ?_
    intro tenant _
    cases tenant with
    | none => trivial
    | some tenant =>
        refine follows_askOr (may_plain (Or.inl ht) ⟨rfl, rfl⟩) ?_
        intro bundles hbundles
        refine follows_askOr (may_plain (Or.inl ht) ⟨rfl, rfl⟩) ?_
        intro groups _
        refine follows_askOr (may_plain (Or.inl ht) ⟨rfl, rfl⟩) ?_
        intro assignments _
        refine follows_reconcileExisting ht hids ?_ ?_ (referring_of_load hspec) dryRun _
        rotate_left
        · exact hbundles
        constructor
        · intro row hrow
          apply List.mem_append_right
          apply List.mem_append_right
          exact List.mem_append_left _ (List.mem_map.mpr ⟨row, hrow, rfl⟩)
        · intro row hrow
          apply List.mem_append_right
          exact List.mem_append_left _ (List.mem_map.mpr ⟨row, hrow, rfl⟩)

end Reconcile

/-!
## Requests
-/

theorem follows_handler (http : HttpRequest) (hrequest : request = Request.http http) :
    Program.Follows (lessons deps n request) k (handler deps n http) := by
  have ht : request.tenant = http.tenant := by
    rw [hrequest]
    rfl
  cases http with
  | agent ctx admitted agent =>
      apply follows_tierLayer ht
      intro k hhost
      exact follows_agentHandler ht agent hhost
  | enroll admitted body => exact follows_enroll hrequest
  | createHost who => exact follows_create ht
  | revokeHostCerts who hostId =>
      exact follows_plain (Or.inl ht) (plain_revokeHostCerts deps n hostId)
  | desired who hostId => exact follows_plain (Or.inl ht) (plain_desired deps hostId)
  | deleteHost who hostId => exact follows_plain (Or.inl ht) (plain_deleteHost hostId)
  | bulkDelete who hostIds =>
      apply follows_guarded
      intro _ _
      apply follows_guarded
      intro ids _
      exact follows_plain (Or.inl ht) (plain_bulkDeleteLoop 0 [] ids)
  | bulkTags who body => exact follows_bulkTags ht body
  | putTag who hostId key value => exact follows_putTag ht hostId key value
  | deleteTag who hostId key => exact follows_plain (Or.inl ht) (plain_deleteTag hostId key)
  | createGroup who name selector => exact follows_createGroup ht name selector
  | patchGroup who groupId name selector =>
      exact follows_plain (Or.inl ht) (plain_patchGroup deps groupId name selector)
  | deleteGroup who groupId => exact follows_plain (Or.inl ht) (plain_deleteGroup deps groupId)
  | previewSelector who selector =>
      exact follows_plain (Or.inl ht) (plain_previewSelector deps selector)
  | putOverride who hostId patch priority template =>
      exact follows_putOverride ht hostId patch priority template
  | deleteOverride who hostId => exact follows_plain (Or.inl ht) (plain_deleteOverride hostId)
  | uploadBundle who form => exact follows_upload ht form
  | composeBundle who body => exact follows_compose ht body
  | deleteBundle who bundleId =>
      exact follows_plain (Or.inl ht) (plain_deleteBundle deps bundleId)
  | assign who groupId bundleId priority =>
      exact follows_assignToGroup ht groupId bundleId priority
  | unassign who groupId bundleId =>
      exact follows_plain (Or.inl ht) (plain_unassign deps groupId bundleId)
  | stageReseal who bundleId body => exact follows_stageReseal ht bundleId body
  | renameBundle who body => exact follows_rename ht body
  | resolveFacts who contentType body =>
      exact follows_plain (Or.inl ht) (plain_resolve deps contentType body)
  | importFacts who contentType body =>
      exact follows_plain (Or.inl ht) (plain_commit deps contentType body)
  | deleteHostSource who hostId source =>
      exact follows_plain (Or.inl ht) (plain_deleteHostSource hostId source)
  | deleteSource who source => exact follows_plain (Or.inl ht) (plain_deleteSource source)

theorem follows_program (hids : deps.UniqueIds) (n : Nat) (request : Request) :
    Program.Follows (lessons deps n request) [] (program deps n request) := by
  cases request with
  | http http =>
      apply Program.follows_bind (G := fun _ => True) (follows_handler http rfl)
        (Program.ends_true _) trivial
      · intro _ _ _ _
        trivial
      · intro _ _ _ _
        trivial
  | reconcile tenantId shown dir dryRun =>
      apply Program.follows_bind (G := fun _ => True)
        (follows_reconcile rfl hids shown dir dryRun) (Program.ends_true _) trivial
      · intro _ _ _ _
        trivial
      · intro _ _ _ _
        trivial

end Follows

/-!
# Whose an id is
-/

section Runs

variable {deps} {w : World} {p q : Pool (service deps)} {id : String} {t : Int}

/-- An id is a tenant's that named it from the start, or the one a request acts for
that drew it. -/
def Owner (deps : Deps) (w : World) (p : Pool (service deps)) (id : String) (t : Int) : Prop :=
  w.Names id t ∨ exists n j th, id = deps.ulid n j ∧ p.threads[n]? = some th ∧
    th.request.tenant = some t

/-- Ids that are drawn are not in use. -/
def World.Undrawn (deps : Deps) (w : World) : Prop :=
  forall id t, w.Names id t -> forall n j, id ≠ deps.ulid n j

theorem owner_unique (hids : deps.UniqueIds) (hsingle : w.Single) (hundrawn : w.Undrawn deps)
    {t' : Int} (h : Owner deps w p id t) (h' : Owner deps w p id t') : t = t' := by
  rcases h with hnames | ⟨n, j, th, hid, hget, ht⟩
  · rcases h' with hnames' | ⟨n, j, th, hid, _, _⟩
    · exact hsingle id t t' hnames hnames'
    · exact absurd hid (hundrawn id t hnames n j)
  · rcases h' with hnames' | ⟨n', j', th', hid', hget', ht'⟩
    · exact absurd hid (hundrawn id t' hnames' n j)
    · have hn := (hids n j n' j' (hid.symm.trans hid')).1
      rw [hn, hget'] at hget
      cases hget
      rw [ht'] at ht
      exact (Option.some.inj ht).symm

theorem owner_step {c : Choice (service deps)} (hstep : p.step c = some q)
    (h : Owner deps w p id t) : Owner deps w q id t := by
  rcases h with hnames | ⟨n, j, th, hid, hget, ht⟩
  · exact Or.inl hnames
  · rcases Pool.request_stays hstep hget with ⟨u, hu, hsame⟩
    exact Or.inr ⟨n, j, u, hid, hu, hsame ▸ ht⟩

/-- Every id that is named is named for its owner. -/
def Rooted (deps : Deps) (w : World) (p : Pool (service deps)) : Prop :=
  forall id t, p.world.Names id t -> Owner deps w p id t

theorem single_of_rooted (hids : deps.UniqueIds) (hsingle : w.Single)
    (hundrawn : w.Undrawn deps) (h : Rooted deps w p) : p.world.Single :=
  fun id t t' hid hid' => owner_unique hids hsingle hundrawn (h id t hid) (h id t' hid')

/-- What a request learnt are owners. -/
def Sure (deps : Deps) (w : World) (p : Pool (service deps)) (k : List (String × Int)) : Prop :=
  forall x, x ∈ k -> Owner deps w p x.1 x.2

theorem owner_of_may {i : Nat} {request : Request} {rest : Prog Answer}
    {k : List (String × Int)} (hget : p.threads[i]? = some ⟨request, rest⟩)
    (hsure : Sure deps w p k)
    (h : (id, t) ∈ k ∨ (request.tenant = some t ∧ exists j, id = deps.ulid i j)) :
    Owner deps w p id t := by
  rcases h with hknown | ⟨ht, j, hid⟩
  · exact hsure _ hknown
  · exact Or.inr ⟨i, j, _, hid, hget, ht⟩

theorem names_own (hids : deps.UniqueIds) (hsingle : w.Single) (hundrawn : w.Undrawn deps)
    (hrooted : Rooted deps w p) {i : Nat} {request : Request} {rest : Prog Answer}
    {k : List (String × Int)} (hget : p.threads[i]? = some ⟨request, rest⟩)
    (hsure : Sure deps w p k) {op : Op}
    (hnames : forall id, id ∈ op.names ->
      (id, t) ∈ k ∨ (request.tenant = some t ∧ exists j, id = deps.ulid i j)) :
    forall id, id ∈ op.names -> forall t', p.world.db.Names id t' -> t' = t := by
  intro id hid t' hthere
  apply owner_unique hids hsingle hundrawn (hrooted id t' (Or.inl hthere))
  exact owner_of_may hget hsure (hnames id hid)

theorem rooted_step (hids : deps.UniqueIds) (hsingle : w.Single) (hundrawn : w.Undrawn deps)
    {c : Choice (service deps)} (hrooted : Rooted deps w p) (hstep : p.step c = some q)
    (hmay : forall i request op next, p.threads[i]? = some ⟨request, Program.call op next⟩ ->
      exists k, Sure deps w p k ∧ (lessons deps i request).May k op) : Rooted deps w q := by
  rcases Pool.step_cases hstep with ⟨request, _, _, hq⟩ | ⟨e, _, _, hq⟩ |
    ⟨i, request, op, next, a, _, hget, houtcome, _⟩
  · intro id t hthere
    rw [hq] at hthere
    exact owner_step hstep (hrooted id t hthere)
  · intro id t hthere
    rw [hq] at hthere
    exact owner_step hstep (hrooted id t hthere)
  · intro id t hthere
    rcases outcome_cases houtcome with ⟨_, hworld⟩ | ⟨_, hworld⟩
    · rw [hworld] at hthere
      rcases hmay i request op next hget with ⟨k, hsure, hnow | ⟨t', _, hop, hnames⟩⟩
      · rw [hnow] at hthere
        exact owner_step hstep (hrooted id t hthere)
      · have hown := names_own hids hsingle hundrawn hrooted hget hsure hnames
        have hdb := World.single_db (single_of_rooted hids hsingle hundrawn hrooted)
        rcases names_exec hop hdb hown hthere with hold | ⟨hmem, ht⟩
        · exact owner_step hstep (hrooted id t hold)
        · rw [ht]
          exact owner_step hstep (owner_of_may hget hsure (hnames id hmem))
    · rw [hworld] at hthere
      exact owner_step hstep (hrooted id t hthere)

theorem rooted_run (hids : deps.UniqueIds) (hsingle : w.Single) (hundrawn : w.Undrawn deps)
    (hrun : Pool.Run (fun _ _ => True) (Pool.init w) q) :
    Rooted deps w q ∧ forall i request op next,
      q.threads[i]? = some ⟨request, Program.call op next⟩ ->
        exists k, Sure deps w q k ∧ (lessons deps i request).May k op := by
  have hlearnt := hrun.learnt (lessons deps) [] (fun _ => True)
    (fun r _ _ k => Sure deps w r k) (Rooted deps w)
    (fun n request _ => follows_program hids n request)
    (by
      intro r i request op a _ ha
      rcases ha with hexec | hfault
      · rw [hexec]
        exact honest_exec op r.world
      · exact honest_of_fault hfault)
    (by
      intro r request _ x hx
      cases hx)
    (by
      intro r c r' i request k _ hstep hsure x hx
      exact owner_step hstep (hsure x hx))
    (by
      intro r i request op next k a _ hrooted _ hsure _ ha x hx
      rcases List.mem_append.mp hx with htaught | hold
      · rcases ha with hexec | hfault
        · rw [hexec] at htaught
          exact hrooted x.1 x.2 (names_of_teaches htaught)
        · rw [teaches_of_fault hfault] at htaught
          cases htaught
      · exact hsure x hold)
    (by
      intro r c r' _ hrooted _ hstep hmay
      apply rooted_step hids hsingle hundrawn hrooted hstep
      intro i request op next hget
      exact hmay i request op next (Nat.zero_le i) hget trivial)
    (fun id t hthere => Or.inl hthere)
  constructor
  · exact hlearnt.1
  · intro i request op next hget
    rcases hlearnt.2 i _ (Nat.zero_le i) hget trivial with ⟨k, hsure, hfollows⟩
    exact ⟨k, hsure, hfollows.1⟩

/-- Whatever the interleaving, a request only makes calls for a tenant it acts for,
is answered from that tenant's rows, and touches nothing of any other tenant. -/
theorem tenants_isolated (hids : deps.UniqueIds) (hsingle : w.Single)
    (hundrawn : w.Undrawn deps) (hrun : Pool.Run (fun _ _ => True) (Pool.init w) q) :
    (forall (i : Nat) (request : Request) (op : Op) (next : op.Res -> Prog Answer),
      q.threads[i]? = some ⟨request, Program.call op next⟩ -> op = Op.nowUnix ∨
        exists t, request.ActsFor deps t ∧ op.Of t ∧ forall query, op = Op.query query ->
          query.eval q.world.now (q.world.db.of t) = query.eval q.world.now q.world.db) ∧
      forall c q', q.step c = some q' -> forall t, q.world.Untouched t q'.world ∨
        exists (i : Nat) (request : Request) (rest : Prog Answer),
          c = Choice.exec i ∧ q.threads[i]? = some ⟨request, rest⟩ ∧
            request.ActsFor deps t := by
  rcases rooted_run hids hsingle hundrawn hrun with ⟨hrooted, hmay⟩
  have hdb := World.single_db (single_of_rooted hids hsingle hundrawn hrooted)
  constructor
  · intro i request op next hget
    rcases hmay i request op next hget with ⟨k, hsure, hnow | ⟨t, hacts, hop, hnames⟩⟩
    · exact Or.inl hnow
    · have hown := names_own hids hsingle hundrawn hrooted hget hsure hnames
      refine Or.inr ⟨t, hacts, hop, ?_⟩
      intro query hquery
      subst hquery
      exact Query.eval_of hop hdb hown
  · intro c q' hstep t
    cases c with
    | spawn request =>
        cases hstep
        exact Or.inl (q.world.untouched_refl t)
    | env e =>
        cases hstep
        left
        exact ⟨rfl, fun _ => rfl, rfl, fun _ _ _ h => h⟩
    | fault i =>
        rcases Pool.step_fault hstep with ⟨_, _, _, _, _, _, hworld, _⟩
        rw [hworld]
        exact Or.inl (q.world.untouched_refl t)
    | exec i =>
        rcases Pool.step_exec hstep with ⟨request, op, next, hget, hworld, _⟩
        rcases hmay i request op next hget with ⟨k, hsure, hnow | ⟨t', hacts, hop, hnames⟩⟩
        · left
          rw [hworld, hnow]
          exact q.world.untouched_refl t
        · by_cases hsame : t = t'
          · rw [hsame]
            exact Or.inr ⟨i, request, _, rfl, hget, hacts⟩
          · left
            rw [hworld]
            exact untouched_exec hop hsame hdb
              (names_own hids hsingle hundrawn hrooted hget hsure hnames)

end Runs

/-!
# A tag of one of two tenants
-/

def oneHostEach : World :=
  World.start { sampleDb with
    tenants := sampleDb.tenants ++
      [{ id := 2, slug := "other", name := "Other", tier := "free", tierOverridesJson := none,
         trialExpiresAt := none, configVersion := 1, createdAt := 0 }]
    hosts := [newHostRow "x" 1 0, newHostRow "y" 2 0] } ∅ 0

theorem names_oneHostEach {id : String} {t : Int} (h : oneHostEach.Names id t) :
    (id = "x" ∧ t = 1) ∨ (id = "y" ∧ t = 2) := by
  have hhosts : (id, t) ∈ oneHostEach.db.namedIn Db.Naming.hosts := by
    rcases h with ⟨table, hmem⟩ | hfile
    · cases table with
      | hosts => exact hmem
      | _ => cases hmem
    · cases hfile
  have hlist : oneHostEach.db.namedIn Db.Naming.hosts = [("x", 1), ("y", 2)] := by
    decide +kernel
  rw [hlist] at hhosts
  simpa using hhosts

theorem single_oneHostEach : oneHostEach.Single := by
  intro id t t' h h'
  rcases names_oneHostEach h with ⟨hid, ht⟩ | ⟨hid, ht⟩
  · rcases names_oneHostEach h' with ⟨_, ht'⟩ | ⟨hid', _⟩
    · exact ht.trans ht'.symm
    · rw [hid] at hid'
      exact absurd hid' (by decide)
  · rcases names_oneHostEach h' with ⟨hid', _⟩ | ⟨_, ht'⟩
    · rw [hid] at hid'
      exact absurd hid' (by decide)
    · exact ht.trans ht'.symm

theorem undrawn_oneHostEach : oneHostEach.Undrawn Deps.sample := by
  intro id t h n j hid
  have hdrawn : id.toList = List.replicate n 'a' ++ 'b' :: List.replicate j 'a' := by
    rw [hid]
    exact Deps.sampleId_toList n j
  have hletter : 'b' ∈ id.toList := by
    rw [hdrawn]
    exact List.mem_append_right _ List.mem_cons_self
  rcases names_oneHostEach h with ⟨hx, _⟩ | ⟨hy, _⟩
  · rw [hx] at hletter
    revert hletter
    decide
  · rw [hy] at hletter
    revert hletter
    decide

def firstOperator : AuthedUser :=
  { userId := 1, tenantId := 1, role := Role.admin }

def tagsFirst : List (Choice (service Deps.sample)) :=
  Choice.spawn (Request.http (HttpRequest.putTag firstOperator "x" "role" "web")) ::
    List.replicate 2 (Choice.exec 0)

theorem tenants_isolated_tagging :
    exists q q' : Pool (service Deps.sample), q.step (Choice.exec 0) = some q' ∧
      q.world.db.hostTags.length = 0 ∧ q'.world.db.hostTags.length = 1 ∧
      q.world.Untouched 2 q'.world := by
  let q := Pool.after (Pool.init oneHostEach) tagsFirst (by decide +kernel)
  have hrun : Pool.Run (fun _ _ => True) (Pool.init oneHostEach) q :=
    Pool.run_after (Pool.init oneHostEach) tagsFirst (by decide +kernel)
  let q' := Pool.after q [Choice.exec 0] (by decide +kernel)
  have hstep : q.step (Choice.exec 0) = some q' := rfl
  have hrequest : (q.threads[0]?).map Thread.request =
      some (Request.http (HttpRequest.putTag firstOperator "x" "role" "web")) := rfl
  have hbefore : q.world.db.hostTags.length = 0 := by decide +kernel
  have hafter : q'.world.db.hostTags.length = 1 := by decide +kernel
  clear_value q'
  clear_value q
  refine ⟨q, q', hstep, hbefore, hafter, ?_⟩
  have hisolated := tenants_isolated Deps.uniqueIds_sample single_oneHostEach
    undrawn_oneHostEach hrun
  rcases hisolated.2 (Choice.exec 0) q' hstep 2 with
    huntouched | ⟨i, request, rest, hc, hget, hacts⟩
  · exact huntouched
  · cases hc
    rw [hget] at hrequest
    cases Option.some.inj hrequest
    rcases hacts with htenant | ⟨_, _, _, _, henroll, _⟩
    · cases htenant
    · cases henroll

end Server
end FleetServer
