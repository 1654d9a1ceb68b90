import FleetServer.Concurrency.Learning
import FleetServer.Server.Parts
import FleetServer.Server.Service
import FleetServer.Server.Walk

/-!
# Whom a request acts for

A request acts for one tenant, and the answers it gets teach it which ids are that
tenant's.  Most requests give out no ids: what they write is found by tenant and id.
-/

namespace FleetServer
namespace Server

open FleetServer.Core
open Storage
open Concurrency

variable (deps : Deps)

/-!
# The tenant of a request
-/

def HttpRequest.tenant : HttpRequest -> Option Int
  | agent ctx _ _ => some ctx.tenantId
  | enroll _ _ => none
  | createHost who => some who.tenantId
  | revokeHostCerts who _ => some who.tenantId
  | desired who _ => some who.tenantId
  | deleteHost who _ => some who.tenantId
  | bulkDelete who _ => some who.tenantId
  | bulkTags who _ => some who.tenantId
  | putTag who _ _ _ => some who.tenantId
  | deleteTag who _ _ => some who.tenantId
  | createGroup who _ _ => some who.tenantId
  | patchGroup who _ _ _ => some who.tenantId
  | deleteGroup who _ => some who.tenantId
  | previewSelector who _ => some who.tenantId
  | putOverride who _ _ _ _ => some who.tenantId
  | deleteOverride who _ => some who.tenantId
  | uploadBundle who _ => some who.tenantId
  | composeBundle who _ => some who.tenantId
  | deleteBundle who _ => some who.tenantId
  | assign who _ _ _ => some who.tenantId
  | unassign who _ _ => some who.tenantId
  | stageReseal who _ _ => some who.tenantId
  | renameBundle who _ => some who.tenantId
  | resolveFacts who _ _ => some who.tenantId
  | importFacts who _ _ => some who.tenantId
  | deleteHostSource who _ _ => some who.tenantId
  | deleteSource who _ => some who.tenantId

def Request.tenant : Request -> Option Int
  | http request => request.tenant
  | reconcile tenantId _ _ _ => some tenantId

/-- An enrollment acts for the tenant its token is for when it is read. -/
def Request.ActsFor (request : Request) (t : Int) : Prop :=
  request.tenant = some t ∨ exists admitted body now claims,
    request = Request.http (HttpRequest.enroll admitted body) ∧
      deps.decodeBootstrap body.bootstrapToken now = some claims ∧ claims.tenantId = t

/-!
# What answers teach
-/

/-- The ids found among a tenant's rows. -/
def Query.teaches : (q : Query) -> q.Answer -> List (String × Int)
  | Query.host tenantId hostId => fun host =>
      if host.isSome then [(hostId, tenantId)] else []
  | Query.certStanding tenantId hostId _ => fun standing =>
      if standing.active then [(hostId, tenantId)] else []
  | Query.groups tenantId => fun groups => groups.map fun g => (g.id, tenantId)
  | Query.group tenantId id => fun group => if group.isSome then [(id, tenantId)] else []
  | Query.bundles tenantId => fun bundles => bundles.map fun b => (b.id, tenantId)
  | Query.bundle tenantId id => fun bundle => if bundle.isSome then [(id, tenantId)] else []
  | _ => fun _ => []

def Op.teaches : (op : Op) -> op.Res -> List (String × Int)
  | Op.query q => fun r =>
      match r with
      | Except.ok answer => q.teaches answer
      | Except.error _ => []
  | Op.storeGet tenantId id => fun r =>
      match r with
      | Except.ok _ => [(id, tenantId)]
      | Except.error _ => []
  | _ => fun _ => []

def Query.Honest : (q : Query) -> q.Answer -> Prop
  | Query.tenant tenantId => fun tenant => forall row, tenant = some row -> row.id = tenantId
  | Query.bundles tenantId => fun bundles =>
      forall row, row ∈ bundles -> row.tenantId = tenantId
  | _ => fun _ => True

def Statement.Honest : (s : Statement) -> s.Answer -> Prop
  | Statement.createBundle id _ _ _ _ _ _ _ _ => fun row => row.id = id
  | _ => fun _ => True

def Op.Honest : (op : Op) -> op.Res -> Prop
  | Op.query q => fun r => forall answer, r = Except.ok answer -> q.Honest answer
  | Op.statement s => fun r => forall answer, r = Except.ok answer -> s.Honest answer
  | _ => fun _ => True

/-- A request makes calls for a tenant it acts for, and gives out ids that it drew
or knows to be the tenant's. -/
def lessons (n : Nat) (request : Request) : Lessons Op.Res (List (String × Int)) where
  learn k op r := op.teaches r ++ k
  May k op := op = Op.nowUnix ∨ exists t, request.ActsFor deps t ∧ op.Of t ∧
    forall id, id ∈ op.names ->
      (id, t) ∈ k ∨ (request.tenant = some t ∧ exists j, id = deps.ulid n j)
  Answers op r := op.Honest r

section Taught

variable {deps} {w : World} {id : String} {t : Int}

theorem cert_of_active {hostId serial : String} {db : Db} {now : Int}
    (h : (HostCertRepo.standing t hostId serial now db).active = true) :
    exists c, c ∈ db.hostCerts ∧ c.tenantId = t ∧ c.hostId = hostId := by
  unfold HostCertRepo.standing HostCertRepo.supersededBy at h
  cases hfind : (db.hostCerts.filter (HostCertRepo.isLive t hostId now)).findIdx?
      fun c => c.serial == serial with
  | none =>
      rw [hfind] at h
      cases h
  | some i =>
      have hlength := (List.findIdx?_eq_some_iff_findIdx_eq.mp hfind).1
      have hmem := List.mem_filter.mp (List.getElem_mem hlength)
      simp only [HostCertRepo.isLive, ofHost, Bool.and_eq_true, beq_iff_eq] at hmem
      exact ⟨_, hmem.1, hmem.2.1.1.1, hmem.2.1.1.2⟩

/-- What is learnt from a row or a file is so. -/
theorem names_of_teaches {op : Op} (h : (id, t) ∈ op.teaches (exec op w).1) : w.Names id t := by
  cases op with
  | query q =>
      left
      have h : (id, t) ∈ q.teaches (q.eval w.now w.db) := h
      cases q with
      | host tenantId hostId =>
          have h : (id, t) ∈ if (HostRepo.get tenantId hostId w.db).isSome then
            [(hostId, tenantId)] else [] := h
          split at h
          · rename_i hsome
            cases List.mem_singleton.mp h
            rcases Option.isSome_iff_exists.mp hsome with ⟨host, hhost⟩
            rcases Option.map_eq_some_iff.mp hhost with ⟨r, hr, _⟩
            have hname := Db.names_host (List.mem_of_find?_eq_some hr)
            have hrow := isHost_iff.mp (List.find?_some hr)
            rw [hrow.1, hrow.2] at hname
            exact hname
          · cases h
      | certStanding tenantId hostId serial =>
          have h : (id, t) ∈
            if (HostCertRepo.standing tenantId hostId serial w.now w.db).active then
              [(hostId, tenantId)] else [] := h
          split at h
          · rename_i hactive
            cases List.mem_singleton.mp h
            rcases cert_of_active hactive with ⟨c, hc, htenant, hhost⟩
            have hname := Db.names_cert hc
            rw [htenant, hhost] at hname
            exact hname
          · cases h
      | groups tenantId =>
          rcases List.mem_map.mp h with ⟨g, hg, hsame⟩
          cases hsame
          have hmem := List.mem_filter.mp ((List.mem_insertionSort _).mp hg)
          have hname := Db.names_group hmem.1
          rw [beq_iff_eq.mp hmem.2] at hname
          exact hname
      | group tenantId id' =>
          have h : (id, t) ∈ if (GroupsRepo.get tenantId id' w.db).isSome then
            [(id', tenantId)] else [] := h
          split at h
          · rename_i hsome
            cases List.mem_singleton.mp h
            rcases Option.isSome_iff_exists.mp hsome with ⟨g, hg⟩
            have hrow := List.find?_some hg
            simp only [GroupsRepo.isGroup, Bool.and_eq_true, beq_iff_eq] at hrow
            have hname := Db.names_group (List.mem_of_find?_eq_some hg)
            rw [hrow.1, hrow.2] at hname
            exact hname
          · cases h
      | bundles tenantId =>
          rcases List.mem_map.mp h with ⟨b, hb, hsame⟩
          cases hsame
          have hmem := List.mem_filter.mp ((List.mem_insertionSort _).mp hb)
          have hname := Db.names_bundle hmem.1
          rw [beq_iff_eq.mp hmem.2] at hname
          exact hname
      | bundle tenantId id' =>
          have h : (id, t) ∈ if (BundlesRepo.get tenantId id' w.db).isSome then
            [(id', tenantId)] else [] := h
          split at h
          · rename_i hsome
            cases List.mem_singleton.mp h
            rcases Option.isSome_iff_exists.mp hsome with ⟨b, hb⟩
            have hrow := List.find?_some hb
            simp only [BundlesRepo.isBundle, Bool.and_eq_true, beq_iff_eq] at hrow
            have hname := Db.names_bundle (List.mem_of_find?_eq_some hb)
            rw [hrow.1, hrow.2] at hname
            exact hname
          · cases h
      | _ => cases h
  | storeGet tenantId id' =>
      right
      generalize hr : (exec (Op.storeGet tenantId id') w).1 = r at h
      cases r with
      | error e => cases h
      | ok bytes =>
          cases List.mem_singleton.mp h
          rw [lookup_of_storeGet hr]
          rfl
  | _ => cases h

theorem honest_exec (op : Op) (w : World) : op.Honest (exec op w).1 := by
  cases op with
  | query q =>
      intro answer hanswer
      cases hanswer
      cases q with
      | tenant tenantId =>
          intro row hrow
          exact beq_iff_eq.mp (List.find?_some (p := fun r : Tenant => r.id == tenantId) hrow)
      | bundles tenantId =>
          intro row hrow
          exact beq_iff_eq.mp (List.mem_filter.mp ((List.mem_insertionSort _).mp hrow)).2
      | _ => trivial
  | statement s =>
      intro answer hanswer
      cases s with
      | createBundle id tenantId name version sha256 sizeBytes signature format keyFingerprint =>
          rcases statement_exec (Statement.createBundle id tenantId name version sha256 sizeBytes
            signature format keyFingerprint) w with ⟨e, _, hexec⟩ | ⟨row, db, htx, hexec⟩
          · have hanswer : (Statement.exec _ w).1 = Except.ok answer := hanswer
            rw [hexec] at hanswer
            cases hanswer
          · have hanswer : (Statement.exec _ w).1 = Except.ok answer := hanswer
            rw [hexec] at hanswer
            cases hanswer
            exact congrArg BundleRow.id (BundlesRepo.create_eq_ok htx).1
      | _ => trivial
  | _ => trivial

theorem honest_of_fault {op : Op} {r : op.Res} (h : fault op = some r) : op.Honest r := by
  cases op with
  | query q =>
      cases h
      intro answer hanswer
      cases hanswer
  | statement s =>
      cases h
      intro answer hanswer
      cases hanswer
  | _ => trivial

theorem teaches_of_fault {op : Op} {r : op.Res} (h : fault op = some r) : op.teaches r = [] := by
  cases op with
  | query q =>
      cases h
      rfl
  | storeGet tenantId id =>
      cases h
      rfl
  | _ => rfl

end Taught

/-!
# Calls that give out no ids
-/

def Plain (t : Int) (op : Op) : Prop :=
  op.Of t ∧ op.names = []

section May

variable {deps} {n : Nat} {request : Request} {t : Int} {k : List (String × Int)} {op : Op}

theorem may_plain (hacts : request.ActsFor deps t) (hop : Plain t op) :
    (lessons deps n request).May k op := by
  refine Or.inr ⟨t, hacts, hop.1, ?_⟩
  intro id hid
  rw [hop.2] at hid
  cases hid

theorem may_drawn (ht : request.tenant = some t) (hop : op.Of t)
    (hids : forall id, id ∈ op.names -> exists j, id = deps.ulid n j) :
    (lessons deps n request).May k op :=
  Or.inr ⟨t, Or.inl ht, hop, fun id hid => Or.inr ⟨ht, hids id hid⟩⟩

theorem may_known (ht : request.tenant = some t) (hop : op.Of t)
    (hids : forall id, id ∈ op.names -> (id, t) ∈ k) : (lessons deps n request).May k op :=
  Or.inr ⟨t, Or.inl ht, hop, fun id hid => Or.inl (hids id hid)⟩

theorem follows_plain {alpha : Type} {p : Prog alpha} (hacts : request.ActsFor deps t)
    (h : Program.Uses (Plain t) p) : Program.Follows (lessons deps n request) k p :=
  Program.follows_of_may (fun _ _ hop => may_plain hacts hop) h

end May

/-!
## Desired states
-/

section Plain

variable {tenantId : Int} {hostId : String}

theorem plain_loadForHost (sources : List String) :
    Program.Uses (Plain tenantId) (Agent.loadForHost deps tenantId hostId sources) := by
  induction sources with
  | nil => trivial
  | cons source rest ih =>
      apply uses_askOr ⟨rfl, rfl⟩
      intro stored
      apply Program.uses_bind ih
      intro facts
      cases facts with
      | error e => trivial
      | ok facts => trivial

theorem plain_bundlesForGroups {beta : Type} (groupIds : List String) (failed : beta)
    {next : List (BundleRow × Int) -> Prog beta}
    (hnext : forall bundles, Program.Uses (Plain tenantId) (next bundles)) :
    Program.Uses (Plain tenantId) (Agent.bundlesForGroups tenantId groupIds failed next) := by
  cases groupIds with
  | nil => exact hnext []
  | cons id rest => exact uses_askOr ⟨rfl, rfl⟩ hnext

theorem plain_computeUncached :
    Program.Uses (Plain tenantId) (Agent.computeUncached deps tenantId hostId) := by
  apply uses_askOr ⟨rfl, rfl⟩
  intro tags
  apply uses_askOr ⟨rfl, rfl⟩
  intro groups
  apply Program.uses_bind (plain_loadForHost deps _)
  intro facts
  cases facts with
  | error e => trivial
  | ok facts =>
      apply plain_bundlesForGroups
      intro bundles
      apply uses_askOr ⟨rfl, rfl⟩
      intro stored
      trivial

theorem plain_computeThroughCache (version : Int) :
    Program.Uses (Plain tenantId) (Agent.computeThroughCache deps tenantId hostId version) := by
  constructor
  · exact ⟨rfl, rfl⟩
  · intro cached
    cases cached with
    | some state => trivial
    | none =>
        constructor
        · exact ⟨rfl, rfl⟩
        · intro ticket
          apply Program.uses_bind (plain_computeUncached deps)
          intro computed
          cases computed with
          | error e => trivial
          | ok state => exact ⟨⟨rfl, rfl⟩, fun _ => trivial⟩

theorem plain_computeDesiredState :
    Program.Uses (Plain tenantId) (Agent.computeDesiredState deps tenantId hostId) := by
  apply uses_askOr ⟨rfl, rfl⟩
  intro tenant
  cases tenant with
  | none => trivial
  | some tenant => exact plain_computeThroughCache deps _

/-!
## Documents
-/

theorem plain_storeRounds {source hash json : String} {collectedAt : Option String}
    (rounds : Nat) :
    Program.Uses (Plain tenantId)
      (Facts.storeRounds deps tenantId hostId source hash json collectedAt rounds) := by
  induction rounds with
  | zero => trivial
  | succ rounds ih =>
      apply uses_askOr ⟨rfl, rfl⟩
      intro previous
      simp only
      split
      · trivial
      · split
        · trivial
        · apply uses_executeOr ⟨rfl, rfl⟩
          intro outcome
          have hagain : Program.Uses (Plain tenantId)
              (if outcome = ReplaceOutcome.conflict then
                Facts.storeRounds deps tenantId hostId source hash json collectedAt rounds
              else return Except.ok outcome) := by
            split
            · exact ih
            · trivial
          cases outcome with
          | stored => exact ⟨⟨rfl, rfl⟩, fun _ => ⟨⟨rfl, rfl⟩, fun _ => hagain⟩⟩
          | unchanged => exact hagain
          | conflict => exact hagain
          | noHost => exact hagain

theorem plain_store {source hash json : String} {collectedAt : Option String} :
    Program.Uses (Plain tenantId)
      (Facts.store deps tenantId hostId source hash json collectedAt) :=
  plain_storeRounds deps Facts.storeAttempts

theorem plain_remove {source : String} {bump : Bool} :
    Program.Uses (Plain tenantId) (Facts.remove tenantId hostId source bump) := by
  apply uses_executeOr ⟨rfl, rfl⟩
  intro removed
  cases removed with
  | false => trivial
  | true =>
      constructor
      · exact ⟨rfl, rfl⟩
      · intro _
        cases bump with
        | false => trivial
        | true => exact ⟨⟨rfl, rfl⟩, fun _ => trivial⟩

theorem plain_invalidateAll (hostIds : List String) :
    Program.Uses (Plain tenantId) (Facts.invalidateAll tenantId hostIds) := by
  induction hostIds with
  | nil => trivial
  | cons hostId rest ih => exact ⟨⟨rfl, rfl⟩, fun _ => ih⟩

theorem plain_removeSource {source : String} :
    Program.Uses (Plain tenantId) (Facts.removeSource tenantId source) := by
  apply uses_executeOr ⟨rfl, rfl⟩
  intro hosts
  apply Program.uses_bind (plain_invalidateAll hosts)
  intro _
  split
  · exact ⟨⟨rfl, rfl⟩, fun _ => trivial⟩
  · trivial

theorem plain_foldHostFacts {alpha : Type} (sources : List String) (acc : alpha)
    (f : alpha -> String -> HostFacts -> alpha) :
    Program.Uses (Plain tenantId) (Facts.foldHostFacts deps tenantId sources acc f) := by
  cases sources with
  | nil => trivial
  | cons source rest => exact uses_askOr ⟨rfl, rfl⟩ (fun _ => trivial)

/-- What the agent says it holds. -/
theorem plain_advertise (reported : Option String) :
    Program.Uses (Plain tenantId) (Facts.advertise deps tenantId hostId reported) := by
  unfold Facts.advertise
  split
  · have hforget : Program.Uses (Plain tenantId) (Facts.forgetReported tenantId hostId) := by
      apply uses_askOr ⟨rfl, rfl⟩
      intro hashes
      split
      · exact ⟨⟨rfl, rfl⟩, fun _ => trivial⟩
      · trivial
    exact Program.uses_bind hforget (fun _ => trivial)
  · rename_i reported _
    apply uses_askOr ⟨rfl, rfl⟩
    intro hashes
    cases hashes with
    | none => trivial
    | some hashes =>
        have hrecord : Program.Uses (Plain tenantId)
            (Facts.recordReported tenantId hostId reported hashes) := by
          unfold Facts.recordReported
          split
          · exact ⟨⟨rfl, rfl⟩, fun _ => trivial⟩
          · trivial
        apply Program.uses_bind hrecord
        intro _
        constructor
        · exact ⟨trivial, rfl⟩
        · intro now
          have hclear : Program.Uses (Plain tenantId)
              (Facts.clearWhenDue deps tenantId hostId reported hashes now) := by
            unfold Facts.clearWhenDue
            split
            · trivial
            · trivial
            · apply Program.uses_bind (plain_store deps)
              intro outcome
              split <;> trivial
          have hrest : Program.Uses (Plain tenantId)
              (do
                let advertised ← Facts.clearWhenDue deps tenantId hostId reported hashes now
                return some (advertised.getD factsHashNone) : Prog (Option String)) :=
            Program.uses_bind hclear (fun _ => trivial)
          exact hrest

end Plain

/-!
## Agents
-/

section Agents

variable {ctx : PeerHostContext}

theorem plain_logged {alpha : Type} {t : Int} {s : Statement} {next : Unit -> Prog alpha}
    (hs : Plain t (Op.statement s)) (hnext : Program.Uses (Plain t) (next ())) :
    Program.Uses (Plain t) (executeLogged s >>= next) :=
  ⟨hs, fun _ => hnext⟩

theorem plain_heartbeat : Program.Uses (Plain ctx.tenantId) (Agent.heartbeat ctx) :=
  plain_logged ⟨rfl, rfl⟩ trivial

theorem plain_desiredState (q : Agent.DesiredStateQuery) :
    Program.Uses (Plain ctx.tenantId) (Agent.desiredState deps ctx q) := by
  constructor
  · exact ⟨rfl, rfl⟩
  · intro tenant
    apply plain_logged ⟨rfl, rfl⟩
    apply Program.uses_bind (plain_advertise deps q.factsHash)
    intro header
    have hcompute : Program.Uses (Plain ctx.tenantId)
        (Agent.computeForPoll deps ctx (Agent.pollTenant deps tenant).2) := by
      unfold Agent.computeForPoll
      split
      · exact plain_computeThroughCache deps _
      · exact plain_computeUncached deps
    apply Program.uses_bind hcompute
    intro computed
    cases computed with
    | error e => trivial
    | ok state => trivial

theorem plain_download (bundleId : String) :
    Program.Uses (Plain ctx.tenantId) (Agent.download deps ctx bundleId) := by
  apply Program.uses_bind (plain_computeDesiredState deps)
  intro computed
  cases computed with
  | error e => trivial
  | ok state =>
      simp only
      split
      · trivial
      · constructor
        · exact ⟨rfl, rfl⟩
        · intro stored
          cases stored with
          | error e => trivial
          | ok bytes => trivial

theorem plain_uploadAccepted (upload : FactsUpload) :
    Program.Uses (Plain ctx.tenantId) (Facts.uploadAccepted ctx upload) :=
  plain_logged ⟨rfl, rfl⟩ trivial

theorem plain_uploadParsed (upload : FactsUpload) :
    Program.Uses (Plain ctx.tenantId) (Facts.uploadParsed deps ctx upload) := by
  apply uses_askOr ⟨rfl, rfl⟩
  intro hashes
  cases hashes with
  | none => trivial
  | some hashes =>
      simp only
      split
      · have hrefresh : Program.Uses (Plain ctx.tenantId)
            (Facts.refreshCollected ctx upload) := by
          unfold Facts.refreshCollected
          split
          · trivial
          · exact ⟨⟨rfl, rfl⟩, fun _ => trivial⟩
        exact Program.uses_bind hrefresh (fun _ => plain_uploadAccepted upload)
      · constructor
        · exact ⟨trivial, rfl⟩
        · intro now
          have hrest : Program.Uses (Plain ctx.tenantId)
              (if Facts.emptyOverInventory hashes upload.factsHash now =
                  Facts.EmptyOverInventory.pending then Facts.uploadAccepted ctx upload
                else Facts.storeUpload deps ctx upload) := by
            split
            · exact plain_uploadAccepted upload
            · apply Program.uses_bind (plain_store deps)
              intro outcome
              cases outcome with
              | error e => trivial
              | ok outcome =>
                  cases outcome with
                  | stored => exact plain_uploadAccepted upload
                  | unchanged => exact plain_uploadAccepted upload
                  | conflict => trivial
                  | noHost => trivial
          exact hrest

theorem plain_uploadFacts (body : Facts.UploadBody) :
    Program.Uses (Plain ctx.tenantId) (Facts.upload deps ctx body) := by
  unfold Facts.upload
  split
  · exact plain_logged ⟨rfl, rfl⟩ trivial
  · trivial
  · split
    · exact plain_logged ⟨rfl, rfl⟩ trivial
    · exact plain_uploadParsed deps _

end Agents

theorem plain_enrollTenant (n : Nat) (claims : BootstrapClaims) (body : Hosts.EnrollBody) :
    Program.Uses (Plain claims.tenantId) (Hosts.enrollTenant deps n claims body) := by
  apply uses_askOr ⟨rfl, rfl⟩
  intro tenant
  cases tenant with
  | none => trivial
  | some tenant =>
      apply uses_askOr ⟨rfl, rfl⟩
      intro secrets
      cases secrets with
      | none => trivial
      | some secrets =>
          apply uses_guarded
          intro caKey
          apply uses_performThen ⟨trivial, rfl⟩
          intro now
          split
          · trivial
          · apply uses_executeOr ⟨rfl, rfl⟩
            intro burned
            cases burned <;> trivial

/-!
## Operators
-/

section Operators

variable {who : AuthedUser}

theorem plain_bump {alpha : Type} {t : Int} {a : alpha} :
    Program.Uses (Plain t) (do
      bumpConfigVersion t
      return a : Prog alpha) :=
  ⟨⟨rfl, rfl⟩, fun _ => trivial⟩

theorem plain_revokeHostCerts (n : Nat) (hostId : String) :
    Program.Uses (Plain who.tenantId) (Hosts.revokeHostCerts deps n who hostId) := by
  apply uses_guarded
  intro _
  apply uses_askOr ⟨rfl, rfl⟩
  intro tenant
  cases tenant with
  | none => trivial
  | some tenant =>
      constructor
      · exact ⟨trivial, rfl⟩
      · intro now
        apply uses_executeOr ⟨rfl, rfl⟩
        intro revoked
        cases revoked with
        | none => trivial
        | some revoked =>
            exact ⟨⟨rfl, rfl⟩, fun _ => ⟨⟨trivial, rfl⟩, fun _ => trivial⟩⟩

theorem plain_desired (hostId : String) :
    Program.Uses (Plain who.tenantId) (Hosts.desired deps who hostId) := by
  apply uses_askOr ⟨rfl, rfl⟩
  intro host
  cases host with
  | none => trivial
  | some host =>
      apply Program.uses_bind (plain_computeDesiredState deps)
      intro computed
      cases computed with
      | error e => trivial
      | ok state => trivial

theorem plain_deleteHost (hostId : String) :
    Program.Uses (Plain who.tenantId) (Hosts.deleteHost who hostId) := by
  apply uses_guarded
  intro _
  apply uses_askOr ⟨rfl, rfl⟩
  intro host
  cases host with
  | none => trivial
  | some host =>
      apply uses_executeOr ⟨rfl, rfl⟩
      intro found
      cases found with
      | false => trivial
      | true => exact ⟨⟨rfl, rfl⟩, fun _ => ⟨⟨rfl, rfl⟩, fun _ => trivial⟩⟩

theorem plain_bulkDeleteLoop {t : Int} (deleted : Nat) (missing hostIds : List String) :
    Program.Uses (Plain t) (Hosts.bulkDeleteLoop t deleted missing hostIds) := by
  induction hostIds generalizing deleted missing with
  | nil =>
      show Program.Uses (Plain t) (Hosts.bulkDeleted t deleted missing)
      unfold Hosts.bulkDeleted
      split
      · exact ⟨⟨rfl, rfl⟩, fun _ => trivial⟩
      · trivial
  | cons hostId rest ih =>
      apply uses_askOr ⟨rfl, rfl⟩
      intro host
      cases host with
      | none => exact ih _ _
      | some host =>
          apply uses_executeOr ⟨rfl, rfl⟩
          intro found
          cases found with
          | false => exact ih _ _
          | true => exact ⟨⟨rfl, rfl⟩, fun _ => ih _ _⟩

theorem plain_deleteTag (hostId key : String) :
    Program.Uses (Plain who.tenantId) (Hosts.deleteTag who hostId key) := by
  apply uses_guarded
  intro _
  apply uses_askOr ⟨rfl, rfl⟩
  intro host
  cases host with
  | none => trivial
  | some host =>
      apply uses_executeOr ⟨rfl, rfl⟩
      intro found
      cases found with
      | false => trivial
      | true => exact ⟨⟨rfl, rfl⟩, fun _ => trivial⟩

theorem plain_patchGroup (groupId : String) (name : Option String) (selector : Option Json) :
    Program.Uses (Plain who.tenantId) (Hosts.patchGroup deps who groupId name selector) := by
  apply uses_guarded
  intro _
  apply uses_guarded
  intro selectorJson
  apply uses_executeOr ⟨rfl, rfl⟩
  intro found
  cases found with
  | false => trivial
  | true => exact plain_bump

theorem plain_deleteGroup (groupId : String) :
    Program.Uses (Plain who.tenantId) (Hosts.deleteGroup deps who groupId) := by
  apply uses_guarded
  intro _
  apply uses_executeOr ⟨rfl, rfl⟩
  intro found
  cases found with
  | false => trivial
  | true => exact plain_bump

theorem plain_deleteOverride (hostId : String) :
    Program.Uses (Plain who.tenantId) (Hosts.deleteOverride who hostId) := by
  apply uses_guarded
  intro _
  apply uses_askOr ⟨rfl, rfl⟩
  intro host
  cases host with
  | none => trivial
  | some host =>
      apply uses_executeOr ⟨rfl, rfl⟩
      intro found
      cases found with
      | false => trivial
      | true => exact plain_bump

theorem plain_unassign (groupId bundleId : String) :
    Program.Uses (Plain who.tenantId)
      (Bundles.unassignFromGroup deps who groupId bundleId) := by
  apply uses_guarded
  intro _
  apply uses_executeOr ⟨rfl, rfl⟩
  intro found
  cases found with
  | false => trivial
  | true => exact plain_bump

theorem plain_deleteBundle (bundleId : String) :
    Program.Uses (Plain who.tenantId) (Bundles.deleteBundle deps who bundleId) := by
  apply uses_guarded
  intro _
  apply uses_askOr ⟨rfl, rfl⟩
  intro bundle
  cases bundle with
  | none => trivial
  | some bundle =>
      apply uses_executeOr ⟨rfl, rfl⟩
      intro found
      cases found with
      | false => trivial
      | true => exact ⟨⟨rfl, rfl⟩, fun _ => plain_bump⟩

theorem plain_previewSelector (selector : Json) :
    Program.Uses (Plain who.tenantId) (Hosts.previewSelector deps who selector) := by
  unfold Hosts.previewSelector
  split
  · trivial
  · apply uses_askOr ⟨rfl, rfl⟩
    intro hosts
    apply uses_askOr ⟨rfl, rfl⟩
    intro tags
    apply Program.uses_bind (plain_foldHostFacts deps _ _ _)
    intro streamed
    cases streamed with
    | error e => trivial
    | ok streamed => trivial

/-!
## Imports
-/

theorem plain_addTargets {t : Int} (hosts : List Host) (keys : List KeyTarget) (at_ : Nat)
    (index : KeyIndex) :
    Program.Uses (Plain t) (Facts.addTargets t hosts at_ index keys) := by
  induction keys generalizing at_ index with
  | nil => trivial
  | cons key rest ih =>
      cases key with
      | host field => exact ih _ _
      | fact source path => exact ih _ _
      | tag key => exact uses_askOr ⟨rfl, rfl⟩ (fun _ => ih _ _)

theorem plain_buildIndex {t : Int} (keys : List KeyTarget) (normalize : Normalize) :
    Program.Uses (Plain t) (Facts.buildIndex deps t keys normalize) := by
  apply uses_askOr ⟨rfl, rfl⟩
  intro hosts
  apply Program.uses_bind (plain_addTargets hosts keys _ _)
  intro index
  cases index with
  | error e => trivial
  | ok index =>
      apply Program.uses_bind (plain_foldHostFacts deps _ _ _)
      intro values
      cases values with
      | error e => trivial
      | ok values => trivial

theorem plain_resolve (contentType : Option String) (body : Bytes) :
    Program.Uses (Plain who.tenantId) (Facts.resolve deps who contentType body) := by
  apply uses_guarded
  intro p
  apply Program.uses_bind (plain_buildIndex deps _ _)
  intro found
  cases found with
  | error e => trivial
  | ok found =>
      apply uses_askOr ⟨rfl, rfl⟩
      intro holding
      trivial

theorem plain_storeRows {t : Int} (p : Facts.Prepared) (out : Facts.CommitTally)
    (rows : List (String × Facts.PreparedRow)) :
    Program.Uses (Plain t) (Facts.storeRows deps t p out rows) := by
  induction rows generalizing out with
  | nil => trivial
  | cons row rest ih =>
      apply Program.uses_bind (plain_store deps)
      intro outcome
      cases outcome with
      | error e => trivial
      | ok outcome => exact ih _

theorem plain_pruneHosts {t : Int} (source : String) (out : Facts.CommitTally)
    (hostIds : List String) :
    Program.Uses (Plain t) (Facts.pruneHosts t source out hostIds) := by
  induction hostIds generalizing out with
  | nil => trivial
  | cons hostId rest ih =>
      apply Program.uses_bind plain_remove
      intro removed
      cases removed with
      | error e => trivial
      | ok removed =>
          cases removed with
          | false => exact ih _
          | true => exact ih _

theorem plain_commitRows {t : Int} (p : Facts.Prepared)
    (rows : List (String × Facts.PreparedRow)) :
    Program.Uses (Plain t) (Facts.commitRows deps t p rows) := by
  apply Program.uses_bind (plain_storeRows deps p _ rows)
  intro stored
  split
  · apply uses_askOr ⟨rfl, rfl⟩
    intro holding
    exact plain_pruneHosts _ _ _
  · trivial

theorem plain_commit (contentType : Option String) (body : Bytes) :
    Program.Uses (Plain who.tenantId) (Facts.commit deps who contentType body) := by
  apply uses_guarded
  intro p
  apply Program.uses_bind (plain_buildIndex deps _ _)
  intro found
  cases found with
  | error e => trivial
  | ok found =>
      simp only
      split
      · trivial
      · apply Program.uses_bind (plain_commitRows deps _ _)
        intro done
        split
        · exact ⟨⟨rfl, rfl⟩, fun _ => trivial⟩
        · trivial

theorem plain_deleteHostSource (hostId source : String) :
    Program.Uses (Plain who.tenantId) (Facts.deleteHostSource who hostId source) := by
  apply uses_guarded
  intro _
  apply uses_askOr ⟨rfl, rfl⟩
  intro host
  cases host with
  | none => trivial
  | some host =>
      apply Program.uses_bind plain_remove
      intro removed
      cases removed with
      | error e => trivial
      | ok removed => cases removed <;> trivial

theorem plain_deleteSource (source : String) :
    Program.Uses (Plain who.tenantId) (Facts.deleteSource who source) := by
  apply uses_guarded
  intro _
  apply Program.uses_bind plain_removeSource
  intro deleted
  cases deleted with
  | error e => trivial
  | ok deleted => trivial

end Operators

end Server
end FleetServer
