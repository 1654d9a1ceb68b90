import FleetServer.Bundles.Rename
import FleetServer.ConfigSource.Staging
import FleetServer.Hosts.ConfigApi
import FleetServer.Server.Tenancy
import FleetServer.Server.Walk

/-!
# The calls of the configuration's writers

What has to be known of `P` for every call of a request to be in `P`: the reads,
and the calls by which the request changes rows and files.
-/

namespace FleetServer
namespace Server

open FleetServer.Core
open Storage
open Concurrency

variable {deps : Deps} {P : Op -> Prop} {n : Nat}
variable {tenantId : Int} {bundleId groupId hostId : String} {who : AuthedUser} {dryRun : Bool}

/-!
# Tags
-/

section Tags

open Hosts

variable (hreads : forall op : Op, op.reads = true -> P op)

include hreads

theorem uses_ifHostBelongs {next : Prog Response} (hnext : Program.Uses P next) :
    Program.Uses P (ifHostBelongs tenantId hostId next) := by
  apply uses_askOr (hreads _ rfl)
  intro host
  cases host with
  | none => trivial
  | some host => exact hnext

theorem uses_putTag {key value : String}
    (hupsert : P (Op.statement (Statement.upsertManualTag who.tenantId hostId key value)))
    (hinvalidate : P (Op.invalidateHost (who.tenantId, hostId))) :
    Program.Uses P (putTag who hostId key value) := by
  apply uses_guarded
  intro _
  apply uses_ifHostBelongs hreads
  apply uses_guarded
  intro _
  apply uses_askOr (hreads _ rfl)
  intro existing
  apply uses_executeOr hupsert
  intro _
  cases decide (existing ≠ some value) with
  | true => exact ⟨hinvalidate, fun _ => trivial⟩
  | false => trivial

theorem uses_deleteTag {key : String}
    (hdelete : P (Op.statement (Statement.deleteManualTag who.tenantId hostId key)))
    (hinvalidate : P (Op.invalidateHost (who.tenantId, hostId))) :
    Program.Uses P (deleteTag who hostId key) := by
  apply uses_guarded
  intro _
  apply uses_ifHostBelongs hreads
  apply uses_executeOr hdelete
  intro found
  cases found with
  | true => exact ⟨hinvalidate, fun _ => trivial⟩
  | false => trivial

end Tags

/-!
# Groups and assignments
-/

section Groups

open Hosts
open Bundles

variable (hreads : forall op : Op, op.reads = true -> P op)
  (hbump : forall tenantId, P (Op.statement (Statement.bumpConfigVersion tenantId)))

include hbump

theorem uses_createGroup {name : String} {selector : Json}
    (hcreate : forall selectorJson, P (Op.statement
      (Statement.createGroup (deps.ulid n 0) who.tenantId name selectorJson))) :
    Program.Uses P (createGroup deps n who name selector) := by
  refine uses_guarded (fun _ => uses_guarded (fun _ => uses_guarded (fun selectorJson => ?_)))
  refine uses_executeOr (hcreate selectorJson) (fun g => ?_)
  exact ⟨hbump _, fun _ => trivial⟩

theorem uses_patchGroup {name : Option String} {selector : Option Json}
    (hupdate : forall selectorJson, P (Op.statement
      (Statement.updateGroup who.tenantId groupId name selectorJson))) :
    Program.Uses P (patchGroup deps who groupId name selector) := by
  refine uses_guarded (fun _ => uses_guarded (fun selectorJson => ?_))
  refine uses_executeOr (hupdate selectorJson) (fun found => ?_)
  cases found with
  | false => trivial
  | true => exact ⟨hbump _, fun _ => trivial⟩

theorem uses_deleteGroup (hdelete : P (Op.statement (Statement.deleteGroup who.tenantId groupId))) :
    Program.Uses P (deleteGroup deps who groupId) := by
  refine uses_guarded (fun _ => uses_executeOr hdelete (fun found => ?_))
  cases found with
  | false => trivial
  | true => exact ⟨hbump _, fun _ => trivial⟩

theorem uses_unassignFromGroup
    (hunassign : P (Op.statement (Statement.unassign who.tenantId groupId bundleId))) :
    Program.Uses P (unassignFromGroup deps who groupId bundleId) := by
  refine uses_guarded (fun _ => uses_executeOr hunassign (fun found => ?_))
  cases found with
  | false => trivial
  | true => exact ⟨hbump _, fun _ => trivial⟩

include hreads

theorem uses_assignToGroup {priority : Int}
    (hassign : P (Op.statement (Statement.assign who.tenantId groupId bundleId priority))) :
    Program.Uses P (assignToGroup deps who groupId bundleId priority) := by
  refine uses_guarded (fun _ => uses_askOr (hreads _ rfl) (fun group => ?_))
  cases group with
  | none => trivial
  | some group =>
      refine uses_askOr (hreads _ rfl) (fun bundle => ?_)
      cases bundle with
      | none => trivial
      | some bundle =>
          refine uses_executeOr hassign (fun _ => ?_)
          exact ⟨hbump _, fun _ => trivial⟩

end Groups

/-!
# Bundles
-/

section Bundles

open Bundles

variable (hreads : forall op : Op, op.reads = true -> P op)
  (hbump : forall tenantId, P (Op.statement (Statement.bumpConfigVersion tenantId)))

include hreads

theorem uses_stageReseal {body : Bytes}
    (hput : forall bytes, P (Op.storePut who.tenantId (deps.ulid n 0) bytes)) :
    Program.Uses P (stageReseal deps n who bundleId body) := by
  refine uses_guarded (fun _ => uses_askOr (hreads _ rfl) (fun version => ?_))
  cases version with
  | none => trivial
  | some version =>
      simp only
      split
      · trivial
      · refine uses_guarded (fun bytes => uses_guarded (fun _ => ⟨hput bytes, fun stored => ?_⟩))
        cases stored <;> trivial

theorem uses_withAllMoved (tenantId : Int) (key : Bytes) (to_ : String)
    (resealed : List (String × String)) (moved : List MovedBundle)
    {next : List MovedBundle -> Prog Response}
    (hnext : forall moved, Program.Uses P (next moved)) (versions : List BundleRow) :
    Program.Uses P (withAllMoved deps tenantId key to_ resealed moved next versions) := by
  induction versions generalizing moved with
  | nil => exact hnext moved
  | cons version rest ih =>
      unfold withAllMoved
      split
      · trivial
      · refine uses_askOr (hreads _ rfl) (fun row => ?_)
        split
        · trivial
        · refine ⟨hreads _ rfl, fun stored => ?_⟩
          cases stored with
          | error e => trivial
          | ok bytes => exact uses_guarded (fun m => ih _)

theorem uses_renameAnswer (tenantId : Int) (to_ : String) (outcome : RenameOutcome) :
    Program.Uses P (renameAnswer tenantId to_ outcome) := by
  cases outcome with
  | nameTaken => trivial
  | changed => trivial
  | renamed => exact uses_askOr (hreads _ rfl) (fun _ => trivial)

theorem uses_rename {body : RenameBody} (hrename : forall to_ inPlace moved, P (Op.statement
      (Statement.renameBundle who.tenantId body.from_ to_ inPlace moved))) :
    Program.Uses P (rename deps who body) := by
  refine uses_guarded (fun _ => uses_guarded (fun to_ =>
    uses_askOr (hreads _ rfl) (fun taken => ?_)))
  split
  · trivial
  · refine uses_askOr (hreads _ rfl) (fun versions => ?_)
    split
    · trivial
    · refine uses_guarded (fun _ => uses_askOr (hreads _ rfl) (fun secrets => ?_))
      split
      · trivial
      · apply uses_withAllMoved hreads
        intro moved
        exact uses_executeOr (hrename _ _ _) (uses_renameAnswer hreads _ _)

theorem uses_withCarried (tenantId : Int) (baseBundleId : Option String) (name : String)
    {next : List (String × Bytes) -> Prog Response}
    (hnext : forall carried, Program.Uses P (next carried)) :
    Program.Uses P (withCarried deps tenantId baseBundleId name next) := by
  unfold withCarried
  split
  · exact hnext []
  · refine uses_askOr (hreads _ rfl) (fun base => ?_)
    split
    · trivial
    · split
      · trivial
      · split
        · trivial
        · refine uses_performThen (hreads _ rfl) (fun stored => ?_)
          cases stored with
          | error e => trivial
          | ok bytes => exact uses_guarded hnext

include hbump

theorem uses_deleteBundle
    (hdelete : P (Op.statement (Statement.deleteBundle who.tenantId bundleId)))
    (herase : P (Op.storeDelete who.tenantId bundleId)) :
    Program.Uses P (deleteBundle deps who bundleId) := by
  refine uses_guarded (fun _ => uses_askOr (hreads _ rfl) (fun row => ?_))
  cases row with
  | none => trivial
  | some row =>
      refine uses_executeOr hdelete (fun found => ?_)
      cases found with
      | false => trivial
      | true => exact ⟨herase, fun _ => ⟨hbump _, fun _ => trivial⟩⟩

omit hreads in
theorem uses_insertAndStore {b : NewBundle} {signature : String} {answer : BundleRow -> Response}
    (hcreate : P (Op.statement (Statement.createBundle (deps.ulid n 0) tenantId b.name b.version
      (deps.sha256Hex b.bytes) b.bytes.length signature b.format b.keyFingerprint)))
    (hput : forall id, P (Op.storePut tenantId id b.bytes)) :
    Program.Uses P (insertAndStore deps n tenantId b signature answer) := by
  refine uses_executeOr hcreate (fun row => uses_performThen (hput _) (fun stored => ?_))
  cases stored with
  | error e => trivial
  | ok _ => exact ⟨hbump _, fun _ => trivial⟩

variable (hcreate : forall tenantId name version sha256 sizeBytes signature format keyFingerprint,
    P (Op.statement (Statement.createBundle (deps.ulid n 0) tenantId name version sha256 sizeBytes
      signature format keyFingerprint)))
  (hput : forall tenantId id bytes, P (Op.storePut tenantId id bytes))

include hcreate hput

theorem uses_persistBundle (tenantId : Int) (b : NewBundle) (answer : BundleRow -> Response) :
    Program.Uses P (persistBundle deps n tenantId b answer) := by
  refine uses_askOr (hreads _ rfl) (fun tenant => ?_)
  cases tenant with
  | none => trivial
  | some tenant =>
      refine uses_askOr (hreads _ rfl) (fun count => ?_)
      split
      · trivial
      · split
        · trivial
        · refine uses_askOr (hreads _ rfl) (fun secrets => ?_)
          split
          · trivial
          · apply uses_insertAndStore hbump
            · exact hcreate _ _ _ _ _ _ _ _
            · exact fun id => hput _ id _

theorem uses_upload (who : AuthedUser) (form : UploadForm) :
    Program.Uses P (upload deps n who form) := by
  refine uses_guarded (fun _ => uses_guarded (fun name => uses_guarded (fun version =>
    uses_guarded (fun bytes => ?_))))
  have hrest : Program.Uses P
      (guarded (formatOf form.format) fun format =>
        guarded (keyFingerprintOf format bytes) fun keyFingerprint =>
          persistBundle deps n who.tenantId
            { name := name, version := version, bytes := bytes, format := format,
              keyFingerprint := keyFingerprint }
            fun row => Response.ok (Payload.bundle (BundleView.of row))) :=
    uses_guarded (fun _ => uses_guarded (fun _ =>
      uses_persistBundle hreads hbump hcreate hput _ _ _))
  unfold checkBase
  split
  · exact hrest
  · refine uses_askOr (hreads _ rfl) (fun base => ?_)
    split
    · trivial
    · split
      · exact hrest
      · trivial

theorem uses_compose (who : AuthedUser) (body : ComposeBody) :
    Program.Uses P (compose deps n who body) := by
  refine uses_guarded (fun _ => uses_guarded (fun c => ?_))
  refine uses_withCarried hreads _ _ _ (fun carried => uses_guarded (fun carried => ?_))
  refine uses_performThen (hreads _ rfl) (fun now => uses_guarded (fun bytes => ?_))
  exact uses_persistBundle hreads hbump hcreate hput _ _ _

end Bundles

/-!
# Reconciles
-/

section Reconcile

open ConfigSource

theorem uses_discard (herase : forall id, P (Op.storeDelete tenantId id)) (ids : List String) :
    Program.Uses P (discard tenantId ids) := by
  induction ids with
  | nil => trivial
  | cons id rest ih => exact ⟨herase id, fun _ => ih⟩

theorem uses_storeAll {es : List (String × Bytes)}
    (hput : forall e, e ∈ es -> P (Op.storePut tenantId e.1 e.2)) :
    Program.Uses P (storeAll tenantId es) := by
  induction es with
  | nil => trivial
  | cons e rest ih =>
      refine ⟨hput e List.mem_cons_self, fun stored => ?_⟩
      cases stored with
      | error e => trivial
      | ok u => exact ih (fun e' he' => hput e' (List.mem_cons_of_mem e he'))

theorem uses_giveUp (herase : forall id, P (Op.storeDelete tenantId id))
    (es : List (String × Bytes)) (e : ReconcileError) :
    Program.Uses P (giveUp tenantId es e) :=
  Program.uses_bind (uses_discard herase _) (fun _ => trivial)

/-- A plan of one request: its new rows and groups have ids the request draws. -/
def Drawn (deps : Deps) (n : Nat) (plan : ConfigPlan) : Prop :=
  (forall b, b ∈ plan.insertBundles -> exists k, b.id = deps.ulid n k) ∧
    forall g, g ∈ plan.groups -> g.create = true -> exists k, g.id = deps.ulid n k

theorem foldl_planGroup_drawn {existing : List GroupRow} (specs : List GroupSpec)
    {p : GroupPlan}
    (hp : forall g, g ∈ p.groups -> g.create = true -> exists k, g.id = deps.ulid n k) :
    forall g, g ∈ (specs.foldl (planGroup deps n existing) p).groups -> g.create = true ->
      exists k, g.id = deps.ulid n k := by
  induction specs generalizing p with
  | nil => exact hp
  | cons spec rest ih =>
      apply ih
      intro g hg hcreate
      unfold planGroup at hg
      split at hg
      · simp only at hg
        split at hg
        · rcases List.mem_append.mp hg with hg | hg
          · exact hp g hg hcreate
          · rw [List.mem_singleton.mp hg] at hcreate
            cases hcreate
        · rcases List.mem_append.mp hg with hg | hg
          · exact hp g hg hcreate
          · rw [List.mem_singleton.mp hg] at hcreate
            cases hcreate
      · rcases List.mem_append.mp hg with hg | hg
        · exact hp g hg hcreate
        · rw [List.mem_singleton.mp hg]
          exact ⟨p.drawn, rfl⟩

theorem drawn_configPlan {existing : Existing} {spec : Spec} {p : Planning}
    (hstaged : Staged deps n p) : Drawn deps n (configPlan deps n existing spec p) := by
  constructor
  · intro b hb
    rcases hstaged.rows b hb with ⟨bytes, hbytes, _⟩
    rcases hstaged.drawn _ hbytes with ⟨k, _, hdrawn⟩
    exact ⟨k, hdrawn⟩
  · exact foldl_planGroup_drawn spec.groups (fun g hg => absurd hg List.not_mem_nil)

theorem uses_applyPlan {plan : ConfigPlan} {es : List (String × Bytes)} {report : ReloadReport}
    (hput : forall e, e ∈ es -> P (Op.storePut tenantId e.1 e.2))
    (herase : forall id, P (Op.storeDelete tenantId id))
    (happly : P (Op.statement (Statement.applyConfig tenantId plan))) :
    Program.Uses P (applyPlan tenantId plan es report) := by
  refine Program.uses_bind (uses_storeAll hput) (fun ok => ?_)
  cases ok with
  | false => exact uses_giveUp herase _ _
  | true =>
      refine ⟨happly, fun r => ?_⟩
      cases r with
      | error e => exact uses_giveUp herase _ _
      | ok outcome =>
          cases outcome with
          | changed => exact uses_giveUp herase _ _
          | applied =>
              have hdiscard : Program.Uses P
                  (do
                    discard tenantId plan.deleteBundleIds
                    return Except.ok report : Prog (Except ReconcileError ReloadReport)) :=
                Program.uses_bind (uses_discard herase _) (fun _ => trivial)
              exact hdiscard

theorem uses_reconcileExisting {limits : TierLimits} {spec : Spec} {existing : Existing}
    (hids : deps.UniqueIds) (hreads : forall op : Op, op.reads = true -> P op)
    (hput : forall k bytes, P (Op.storePut tenantId (deps.ulid n k) bytes))
    (herase : forall id, P (Op.storeDelete tenantId id)) (happly : forall plan, Drawn deps n plan ->
      P (Op.statement (Statement.applyConfig tenantId plan))) :
    Program.Uses P (reconcileExisting deps n tenantId dryRun limits spec existing) := by
  unfold reconcileExisting
  split
  · trivial
  · rename_i built hbuilt
    refine Program.uses_bind_ends
      (Program.uses_mono hreads (uses_planBundles n tenantId dryRun _ _ built))
      (ends_planBundles hids (staged_start n) (builtWithin_sha256 hbuilt)) ?_
    intro planned hplanned
    cases planned with
    | error e => trivial
    | ok p =>
        have hstaged : Staged deps n p := hplanned p rfl
        refine (?_ : Program.Uses P (reconcilePlanned deps n tenantId dryRun existing spec p))
        unfold reconcilePlanned
        simp only
        split
        · trivial
        · refine uses_applyPlan (fun e he => ?_) herase (happly _ (drawn_configPlan hstaged))
          rcases hstaged.drawn e he with ⟨k, _, hdrawn⟩
          rw [hdrawn]
          exact hput k e.2

theorem uses_reconcile_of {shown : String} {dir : Node}
    (hreads : forall op : Op, op.reads = true -> P op)
    (hexisting : forall limits spec existing,
      Program.Uses P (reconcileExisting deps n tenantId dryRun limits spec existing)) :
    Program.Uses P (reconcile deps n tenantId shown dir dryRun) := by
  unfold reconcile
  split
  · trivial
  · refine uses_askOr (hreads _ rfl) (fun tenant => ?_)
    cases tenant with
    | none => trivial
    | some tenant =>
        refine uses_askOr (hreads _ rfl) (fun bundles => ?_)
        refine uses_askOr (hreads _ rfl) (fun groups => ?_)
        refine uses_askOr (hreads _ rfl) (fun assignments => ?_)
        exact hexisting _ _ _

theorem uses_reconcile {shown : String} {dir : Node} (hids : deps.UniqueIds)
    (hreads : forall op : Op, op.reads = true -> P op)
    (hput : forall k bytes, P (Op.storePut tenantId (deps.ulid n k) bytes))
    (herase : forall id, P (Op.storeDelete tenantId id)) (happly : forall plan, Drawn deps n plan ->
      P (Op.statement (Statement.applyConfig tenantId plan))) :
    Program.Uses P (reconcile deps n tenantId shown dir dryRun) :=
  uses_reconcile_of hreads fun _ _ _ => uses_reconcileExisting hids hreads hput herase happly

theorem uses_reconcile_any {shown : String} {dir : Node}
    (hreads : forall op : Op, op.reads = true -> P op)
    (hput : forall id bytes, P (Op.storePut tenantId id bytes))
    (herase : forall id, P (Op.storeDelete tenantId id))
    (happly : forall plan, P (Op.statement (Statement.applyConfig tenantId plan))) :
    Program.Uses P (reconcile deps n tenantId shown dir dryRun) := by
  apply uses_reconcile_of hreads
  intro limits spec existing
  unfold reconcileExisting
  split
  · trivial
  · apply Program.uses_bind (Program.uses_mono hreads (uses_planBundles n tenantId dryRun _ _ _))
    intro planned
    cases planned with
    | error e => trivial
    | ok p =>
        show Program.Uses P (reconcilePlanned deps n tenantId dryRun _ _ p)
        unfold reconcilePlanned
        simp only
        split
        · trivial
        · exact uses_applyPlan (fun e _ => hput e.1 e.2) herase (happly _)

end Reconcile

/-!
# Agents
-/

section Agents

variable {ctx : PeerHostContext} (hreads : forall op : Op, op.reads = true -> P op)

include hreads

theorem uses_renew {csrPem : String}
    (hrecord : forall cert, P (Op.statement (Statement.recordCert ctx.tenantId ctx.hostId cert))) :
    Program.Uses P (Agent.renew deps n ctx csrPem) := by
  apply uses_askOr (hreads _ rfl)
  intro secrets
  cases secrets with
  | none => trivial
  | some secrets =>
      apply uses_guarded
      intro caKey
      refine ⟨hreads _ rfl, fun now => ?_⟩
      simp only [Program.bind]
      split
      · trivial
      · exact uses_executeOr (hrecord _) (fun _ => trivial)

theorem uses_tierLayer {admitted : Bool} {next : Prog Response}
    (hretire : P (Op.statement
      (Statement.retireSuperseded ctx.tenantId ctx.hostId ctx.serialHex)))
    (hnext : Program.Uses P next) : Program.Uses P (Agent.tierLayer ctx admitted next) := by
  apply uses_askOr (hreads _ rfl)
  intro standing
  split
  · trivial
  · apply Program.uses_bind
    · unfold Agent.retireIfSuperseded
      split
      · exact ⟨hretire, fun _ => trivial⟩
      · trivial
    · intro _
      apply uses_askOr (hreads _ rfl)
      intro tenant
      cases tenant with
      | none => trivial
      | some tenant =>
          cases admitted with
          | false => trivial
          | true => exact hnext

end Agents

/-!
# Requests that create no host and record no certificate
-/

section Ordinary

open Hosts

/-- The call inserts no host and records no certificate. -/
def Ordinary (op : Op) : Prop :=
  match op with
  | Op.statement (Statement.createPending _ _ _ _) => False
  | Op.statement (Statement.recordCert _ _ _) => False
  | _ => True

variable {alpha : Type} {t : Int}

theorem ordinary_of_reads {op : Op} (hop : op.reads = true) : Ordinary op := by
  cases op with
  | statement s => cases hop
  | _ => trivial

theorem ordinary_of_plain_call {op : Op} (hop : Plain t op) : Ordinary op := by
  cases op with
  | statement s =>
      cases s with
      | createPending id t nonceHash expires => cases hop.2
      | recordCert t h cert => cases hop.2
      | _ => trivial
  | _ => trivial

theorem ordinary_of_plain {p : Prog alpha} (h : Program.Uses (Plain t) p) :
    Program.Uses Ordinary p :=
  Program.uses_mono (fun _ => ordinary_of_plain_call) h

theorem ordinary_askOr {q : Query} {failed : alpha} {next : q.Answer -> Prog alpha}
    (hnext : forall a, Program.Uses Ordinary (next a)) :
    Program.Uses Ordinary (askOr q failed next) :=
  uses_askOr trivial hnext

theorem ordinary_executeOr {s : Statement} {failed : alpha} {next : s.Answer -> Prog alpha}
    (hs : Ordinary (Op.statement s)) (hnext : forall a, Program.Uses Ordinary (next a)) :
    Program.Uses Ordinary (executeOr s failed next) :=
  uses_executeOr hs hnext

theorem ordinary_bulkTagsLoop (t : Int) (body : BulkTagsBody) (updated : Nat)
    (missing touched ids : List String) : Program.Uses (Ordinary)
      (bulkTagsLoop t body updated missing touched ids) := by
  induction ids generalizing updated missing touched with
  | nil =>
      show Program.Uses _ (bulkTagged t updated missing touched)
      induction touched with
      | nil => trivial
      | cons id rest ih => exact ⟨trivial, fun _ => ih⟩
  | cons id rest ih =>
      have hremove : forall (keys : List String) (changed : Bool) {next : Bool -> Prog Response},
          (forall changed, Program.Uses (Ordinary) (next changed)) ->
            Program.Uses (Ordinary) (bulkRemove t id changed next keys) := by
        intro keys changed next hnext
        induction keys generalizing changed with
        | nil => exact hnext changed
        | cons key keys ihKeys => exact ordinary_executeOr trivial (fun _ => ihKeys _)
      have hset : forall (tags : List (String × String)) (changed : Bool)
          {next : Bool -> Prog Response},
          (forall changed, Program.Uses (Ordinary) (next changed)) ->
            Program.Uses (Ordinary) (bulkSet t id changed next tags) := by
        intro tags changed next hnext
        induction tags generalizing changed with
        | nil => exact hnext changed
        | cons tag tags ihTags =>
            exact ordinary_askOr (fun _ => ordinary_executeOr trivial (fun _ => ihTags _))
      apply ordinary_askOr
      intro host
      cases host with
      | none => exact ih _ _ _
      | some host => exact hset _ _ (fun _ => hremove _ _ (fun _ => ih _ _ _))

theorem ordinary_putOverride (n : Nat) (who : AuthedUser) (id : String) (patch : Json)
    (priority : Option Int) (template : Option String) :
    Program.Uses (Ordinary)
      (putOverride deps n who id patch priority template) := by
  apply uses_guarded
  intro _
  apply uses_ifHostBelongs (fun _ => ordinary_of_reads)
  apply uses_guarded
  intro _
  apply uses_guarded
  intro template
  exact ordinary_executeOr trivial (fun _ => ⟨trivial, fun _ => trivial⟩)

theorem ordinary_enroll (n : Nat) (admitted : Bool) (body : EnrollBody) :
    Program.Uses (Ordinary) (enroll deps n admitted body) := by
  refine ⟨trivial, fun now => ?_⟩
  simp only [Program.bind]
  split
  · trivial
  · split
    · trivial
    · apply ordinary_askOr
      intro pending
      cases pending with
      | false => trivial
      | true => exact ordinary_of_plain (plain_enrollTenant deps n _ body)

theorem ordinary_stateReport (ctx : PeerHostContext) (body : Agent.StateReport) :
    Program.Uses (Ordinary) (Agent.stateReport deps ctx body) := by
  have hfacts : Program.Uses (Ordinary) (Agent.reportFacts deps ctx body) :=
    Program.uses_bind (ordinary_of_plain (plain_advertise deps body.factsHash)) (fun _ => trivial)
  have htags : Program.Uses (Ordinary) (Agent.reportTags deps ctx body) := by
    unfold Agent.reportTags
    split
    · exact hfacts
    · split
      · trivial
      · refine ordinary_executeOr ?_ (fun changed => ?_)
        · trivial
        · cases changed with
          | false => exact hfacts
          | true => exact ⟨trivial, fun _ => hfacts⟩
  have hrest : Program.Uses (Ordinary) (Agent.reportRest deps ctx body) := by
    apply Program.uses_bind _ (fun _ => htags)
    unfold Agent.reportFlags
    split
    · exact ⟨trivial, fun _ => ⟨trivial, fun _ => trivial⟩⟩
    · exact ⟨trivial, fun _ => trivial⟩
  unfold Agent.stateReport
  split
  · split
    · trivial
    · refine ordinary_executeOr ?_ (fun _ => hrest)
      trivial
  · exact ⟨trivial, fun _ => hrest⟩

theorem ordinary_handler (n : Nat) (request : HttpRequest)
    (hoperator : forall ctx admitted agent, request ≠ HttpRequest.agent ctx admitted agent)
    (hcreate : forall who, request ≠ HttpRequest.createHost who) :
    Program.Uses (Ordinary) (handler deps n request) := by
  have hreads : forall op : Op, op.reads = true -> Ordinary op :=
    fun _ => ordinary_of_reads
  cases request with
  | agent ctx admitted agent => exact absurd rfl (hoperator ctx admitted agent)
  | enroll admitted body => exact ordinary_enroll n admitted body
  | createHost who => exact absurd rfl (hcreate who)
  | revokeHostCerts who id => exact ordinary_of_plain (plain_revokeHostCerts deps n id)
  | desired who id => exact ordinary_of_plain (plain_desired deps id)
  | deleteHost who id => exact ordinary_of_plain (plain_deleteHost id)
  | bulkDelete who ids =>
      apply uses_guarded
      intro _
      apply uses_guarded
      intro ids
      exact ordinary_of_plain (plain_bulkDeleteLoop 0 [] ids)
  | bulkTags who body =>
      apply uses_guarded
      intro _
      apply uses_guarded
      intro ids
      exact ordinary_bulkTagsLoop who.tenantId body 0 [] [] ids
  | putTag who id key value => exact uses_putTag hreads trivial trivial
  | deleteTag who id key => exact ordinary_of_plain (plain_deleteTag id key)
  | createGroup who name selector => exact uses_createGroup (fun _ => trivial) (fun _ => trivial)
  | patchGroup who groupId name selector =>
      exact uses_patchGroup (fun _ => trivial) (fun _ => trivial)
  | deleteGroup who groupId => exact uses_deleteGroup (fun _ => trivial) trivial
  | previewSelector who selector => exact ordinary_of_plain (plain_previewSelector deps selector)
  | putOverride who id patch priority template =>
      exact ordinary_putOverride n who id patch priority template
  | deleteOverride who id => exact ordinary_of_plain (plain_deleteOverride id)
  | uploadBundle who form =>
      exact uses_upload hreads (fun _ => trivial) (fun _ _ _ _ _ _ _ _ => trivial)
        (fun _ _ _ => trivial) who form
  | composeBundle who body =>
      exact uses_compose hreads (fun _ => trivial) (fun _ _ _ _ _ _ _ _ => trivial)
        (fun _ _ _ => trivial) who body
  | deleteBundle who id => exact ordinary_of_plain (plain_deleteBundle deps id)
  | assign who groupId id priority => exact uses_assignToGroup hreads (fun _ => trivial) trivial
  | unassign who groupId id => exact ordinary_of_plain (plain_unassign deps groupId id)
  | stageReseal who id body => exact uses_stageReseal hreads (fun _ => trivial)
  | renameBundle who body => exact uses_rename hreads (fun _ _ _ => trivial)
  | resolveFacts who contentType body =>
      exact ordinary_of_plain (plain_resolve deps contentType body)
  | importFacts who contentType body => exact ordinary_of_plain (plain_commit deps contentType body)
  | deleteHostSource who id source => exact ordinary_of_plain (plain_deleteHostSource id source)
  | deleteSource who source => exact ordinary_of_plain (plain_deleteSource source)

theorem ordinary_reconcile (t : Int) (shown : String) (dir : ConfigSource.Node)
    (dryRun : Bool) : Program.Uses Ordinary (ConfigSource.reconcile deps n t shown dir dryRun) :=
  uses_reconcile_any (fun _ => ordinary_of_reads) (fun _ _ => trivial) (fun _ => trivial)
    (fun _ => trivial)

end Ordinary

end Server
end FleetServer
