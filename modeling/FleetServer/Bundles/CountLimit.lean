import FleetServer.Server.Calls
import FleetServer.Server.Frame
import FleetServer.Server.Service
import FleetServer.Server.Walk

/-!
# The tier's bundle limit

An upload counts the tenant's bundles before it signs and inserts its own.  The
limit holds of every interleaving in which no other upload of the tenant inserts
its bundle in between.
-/

namespace FleetServer
namespace Bundles

open FleetServer.Core
open Storage
open Table
open Server
open Concurrency

variable (deps : Deps)
variable {id name signature : String} {tenantId' : Int} {op : Op}

/-- The tenant's effective `max_bundles`. -/
def maxBundles (tenantId : Int) (db : Db) : Nat :=
  ((tenantLimits deps tenantId db).map TierLimits.maxBundles).getD 0

theorem maxBundles_exec (tenantId : Int) (op : Op) (w : World) :
    maxBundles deps tenantId (exec op w).2.db = maxBundles deps tenantId w.db := by
  unfold maxBundles
  rw [tenantLimits_exec]

/-!
# What each statement does to the count
-/

variable {tenantId : Int} {db db' : Db} {limit : Nat}

theorem count_create {version sha256 : String} {sizeBytes : Int} {format : String}
    {keyFingerprint : Option String} {now : Int} {row : BundleRow}
    (hdb : BundlesRepo.count tenantId db ≤ limit)
    (hbelow : tenantId' = tenantId -> BundlesRepo.count tenantId db < limit)
    (h : BundlesRepo.create id tenantId' name version sha256 sizeBytes signature format
      keyFingerprint now db = Except.ok (row, db')) :
    BundlesRepo.count tenantId db' ≤ limit := by
  rcases BundlesRepo.create_eq_ok h with ⟨hrow, hinsert⟩
  rcases BundlesRepo.insertRow_eq_ok.mp hinsert with ⟨_, rfl⟩
  subst hrow
  unfold BundlesRepo.count affected at hdb hbelow ⊢
  rw [List.countP_append, List.countP_singleton]
  by_cases htenant : tenantId' = tenantId
  · have hbelow' := hbelow htenant
    split <;> omega
  · simp [htenant, hdb]

theorem count_delete {found : Bool} (hdb : BundlesRepo.count tenantId db ≤ limit)
    (h : BundlesRepo.delete tenantId' id db = Except.ok (found, db')) :
    BundlesRepo.count tenantId db' ≤ limit := by
  unfold BundlesRepo.delete at h
  simp only at h
  split at h
  · cases h
  · cases h
    exact (countP_deleteWhere_le _ _ _).trans hdb

theorem count_replaceSignature {u : Unit} (hdb : BundlesRepo.count tenantId db ≤ limit)
    (h : BundlesRepo.replaceSignature tenantId' id signature db = Except.ok (u, db')) :
    BundlesRepo.count tenantId db' ≤ limit := by
  cases Tx.total_eq_ok.mp h
  have hcount : (updateWhere (BundlesRepo.isBundle tenantId' id)
      (fun b : BundleRow => { b with signature := signature }) db.bundles).countP
        (fun b => b.tenantId == tenantId) ≤ db.bundles.countP fun b => b.tenantId == tenantId :=
    countP_updateWhere_le (fun _ _ _ h => h)
  exact hcount.trans hdb

def reworksBundles : Op -> Bool
  | Op.statement (Statement.applyConfig _ _) => true
  | Op.statement (Statement.renameBundle _ _ _ _ _) => true
  | _ => false

theorem count_exec {w : World} (hw : BundlesRepo.count tenantId w.db ≤ limit)
    (hreworks : reworksBundles op = false)
    (hinsert : forall id name version sha256 sizeBytes signature format keyFingerprint,
      op = Op.statement (Statement.createBundle id tenantId name version sha256 sizeBytes
        signature format keyFingerprint) -> BundlesRepo.count tenantId w.db < limit) :
    BundlesRepo.count tenantId (exec op w).2.db ≤ limit := by
  by_cases hwrites : Part.bundles ∈ op.writes
  · cases op with
    | statement s =>
        change BundlesRepo.count tenantId (s.exec w).2.db ≤ limit
        rcases statement_exec s w with ⟨e, _, hexec⟩ | ⟨answer, db, htx, hexec⟩
        · rw [hexec]
          exact hw
        · rw [hexec]
          cases s with
          | createBundle id tenantId' name version sha256 sizeBytes signature format
              keyFingerprint =>
              refine count_create hw (fun htenant => ?_) htx
              subst htenant
              exact hinsert id name version sha256 sizeBytes signature format keyFingerprint rfl
          | deleteBundle tenantId' id => exact count_delete hw htx
          | renameBundle tenantId' from_ to_ inPlace moved => cases hreworks
          | replaceSignature tenantId' id signature =>
              exact count_replaceSignature hw htx
          | applyConfig tenantId' plan => cases hreworks
          | _ => simp [Op.writes, Statement.writes] at hwrites
    | _ => simp [Op.writes] at hwrites
  · have hsame : (exec op w).2.db.bundles = w.db.bundles := exec_same hwrites w
    unfold BundlesRepo.count at hw ⊢
    rw [hsame]
    exact hw

/-!
# The requests
-/

def storesBundles : Request -> Bool
  | Request.http (HttpRequest.uploadBundle _ _) => true
  | Request.http (HttpRequest.composeBundle _ _) => true
  | Request.http (HttpRequest.deleteBundle _ _) => true
  | _ => false

section Uses

variable {deps}

theorem reworksBundles_of_reads (hop : op.reads = true) : reworksBundles op = false := by
  cases op with
  | statement s => cases hop
  | _ => rfl

theorem uses_storesBundles (n : Nat) {r : Request} (hr : storesBundles r = true) :
    Program.Uses (fun op => reworksBundles op = false) (program deps n r) := by
  cases r with
  | reconcile tenantId shown dir dryRun => cases hr
  | http request =>
      cases request with
      | uploadBundle who form =>
          exact uses_program_http deps n (HttpRequest.uploadBundle who form)
            (uses_upload (fun _ => reworksBundles_of_reads) (fun _ => rfl)
              (fun _ _ _ _ _ _ _ _ => rfl) (fun _ _ _ => rfl) who form)
      | composeBundle who body =>
          exact uses_program_http deps n (HttpRequest.composeBundle who body)
            (uses_compose (fun _ => reworksBundles_of_reads) (fun _ => rfl)
              (fun _ _ _ _ _ _ _ _ => rfl) (fun _ _ _ => rfl) who body)
      | deleteBundle who bundleId =>
          exact uses_program_http deps n (HttpRequest.deleteBundle who bundleId)
            (uses_deleteBundle (fun _ => reworksBundles_of_reads) (fun _ => rfl) rfl rfl)
      | _ => cases hr

end Uses

/-!
# The count an upload compares
-/

def countsBundles (tenantId : Int) : Op -> Bool
  | Op.query (Query.bundleCount t) => t == tenantId
  | _ => false

def insertsBundle (tenantId : Int) : Op -> Bool
  | Op.statement (Statement.createBundle _ t _ _ _ _ _ _ _) => t == tenantId
  | _ => false

def bundleQuota (tenantId : Int) : Quota (service deps) where
  count := fun w => BundlesRepo.count tenantId w.db
  bound := fun w => maxBundles deps tenantId w.db
  counts := countsBundles tenantId
  adds := insertsBundle tenantId
  Fits := fun op _ => reworksBundles op = false
  bound_exec := fun op w => maxBundles_exec deps tenantId op w
  count_exec := by
    intro op w hw hadds hreworks
    apply count_exec hw hreworks
    intro id name version sha256 sizeBytes signature format keyFingerprint hop
    apply hadds
    rw [hop]
    exact beq_self_eq_true tenantId
  bound_disturb := fun _ _ => rfl
  count_disturb := fun _ _ => le_rfl

section Obeys

variable {deps} {n i : Nat} {request : Request} {x : World × (Nat -> Bool)}

theorem insertsBundle_of_reads (hop : op.reads = true) :
    insertsBundle tenantId op = false := by
  cases op with
  | statement s => cases hop
  | _ => rfl

theorem obeys_persistBundle_other {t : Int} (ht : t ≠ tenantId) (b : NewBundle)
    (answer : BundleRow -> Response) :
    (bundleQuota deps tenantId).contract.Obeys i request (persistBundle deps n t b answer) x := by
  apply Quota.obeys_of_none
  refine uses_askOr rfl (fun tenant => ?_)
  cases tenant with
  | none => trivial
  | some tenant =>
      refine uses_askOr rfl (fun count => ?_)
      split
      · trivial
      · split
        · trivial
        · refine uses_askOr rfl (fun secrets => ?_)
          split
          · trivial
          · apply uses_insertAndStore (fun _ => rfl)
            · exact beq_false_of_ne ht
            · exact fun _ => rfl

theorem obeys_insertAndStore {b : NewBundle} {answer : BundleRow -> Response}
    (hx : (bundleQuota deps tenantId).Room i x) :
    (bundleQuota deps tenantId).contract.Obeys i request
      (insertAndStore deps n tenantId b signature answer) x := by
  apply Quota.obeys_add hx
  intro inserted
  cases inserted with
  | error e => trivial
  | ok row =>
      refine ⟨rfl, fun stored => ?_⟩
      cases stored with
      | error e => trivial
      | ok _ => exact ⟨rfl, fun _ => trivial⟩

theorem obeys_persistBundle (t : Int) (b : NewBundle) (answer : BundleRow -> Response) :
    (bundleQuota deps tenantId).contract.Obeys i request (persistBundle deps n t b answer) x := by
  by_cases ht : t = tenantId
  · subst ht
    apply obeysQuota_askOr
    intro y _
    cases hget : (Query.tenant t).eval y.1.now y.1.db with
    | none => trivial
    | some tenant =>
        have hlimit : maxBundles deps t y.1.db =
            (deps.limits tenant.tier tenant.tierOverridesJson).maxBundles := by
          unfold maxBundles tenantLimits
          rw [show TenantRepo.get t y.1.db = some tenant from hget]
          rfl
        apply obeysQuota_askOr
        intro z hz
        split
        · trivial
        · rename_i hbelow
          have hroom : BundlesRepo.count t z.1.db < maxBundles deps t z.1.db := by
            rw [show maxBundles deps t z.1.db = maxBundles deps t y.1.db from hz.1, hlimit]
            exact Nat.lt_of_not_le hbelow
          split
          · trivial
          · apply obeysQuota_askOr
            intro u hu
            split
            · trivial
            · have hu' : (bundleQuota deps t).Room i u := by
                apply Quota.room_rely _ hu
                exact fun _ => hroom
              exact obeys_insertAndStore (Quota.room_call hu' rfl)
  · exact obeys_persistBundle_other ht b answer

theorem obeys_checkBase {baseBundleId : Option String} {next : Prog Response}
    (hnext : forall y, (bundleQuota deps tenantId).contract.Obeys i request next y) (t : Int) :
    (bundleQuota deps tenantId).contract.Obeys i request (checkBase t baseBundleId name next)
      x := by
  unfold checkBase
  split
  · exact hnext x
  · apply obeysQuota_askOr
    intro y _
    split
    · trivial
    · split
      · exact hnext _
      · trivial

theorem obeys_upload (who : AuthedUser) (form : UploadForm) :
    (bundleQuota deps tenantId).contract.Obeys i request (upload deps n who form) x := by
  apply obeysQuota_guarded
  intro _
  apply obeysQuota_guarded
  intro name
  apply obeysQuota_guarded
  intro version
  apply obeysQuota_guarded
  intro bytes
  apply obeys_checkBase
  intro y
  apply obeysQuota_guarded
  intro format
  apply obeysQuota_guarded
  intro keyFingerprint
  exact obeys_persistBundle who.tenantId _ _

theorem obeys_withCarried {baseBundleId : Option String}
    {next : List (String × Bytes) -> Prog Response} (hnext : forall carried y,
      (bundleQuota deps tenantId).contract.Obeys i request (next carried) y) (t : Int) :
    (bundleQuota deps tenantId).contract.Obeys i request
      (withCarried deps t baseBundleId name next) x := by
  unfold withCarried
  split
  · exact hnext [] x
  · apply obeysQuota_askOr
    intro y _
    split
    · trivial
    · split
      · trivial
      · split
        · trivial
        · apply Quota.obeys_read
          · intro w
            exact exec_of_reads rfl w
          · intro stored z _ _
            cases stored with
            | error e => trivial
            | ok bytes => exact obeysQuota_guarded (fun carried => hnext carried _)

theorem obeys_compose (who : AuthedUser) (body : ComposeBody) :
    (bundleQuota deps tenantId).contract.Obeys i request (compose deps n who body) x := by
  apply obeysQuota_guarded
  intro _
  apply obeysQuota_guarded
  intro c
  apply obeys_withCarried
  intro carried y
  apply obeysQuota_guarded
  intro carried
  apply Quota.obeys_read (fun _ => rfl)
  intro now z _ _
  apply obeysQuota_guarded
  intro bytes
  exact obeys_persistBundle who.tenantId _ _

theorem obeys_storesBundles {r : Request} (hr : storesBundles r = true) :
    (bundleQuota deps tenantId).contract.Obeys i request (program deps n r) x := by
  cases r with
  | reconcile tenantId shown dir dryRun => cases hr
  | http r =>
      cases r with
      | uploadBundle who form =>
          exact Contract.obeys_bind (obeys_upload who form) (fun _ _ => trivial)
      | composeBundle who body =>
          exact Contract.obeys_bind (obeys_compose who body) (fun _ _ => trivial)
      | deleteBundle who bundleId =>
          apply Quota.obeys_of_none
          exact uses_program_http deps n (HttpRequest.deleteBundle who bundleId)
            (uses_deleteBundle (fun _ => insertsBundle_of_reads) (fun _ => rfl) rfl rfl)
      | _ => cases hr

end Obeys

/-!
# Runs
-/

variable {deps}

def startsStoring : Choice (service deps) -> Bool
  | Choice.spawn r => storesBundles r
  | _ => true

/-- A tenant never has more bundles than its tier allows, where no bundle of it
is inserted between the count of another upload and that upload's insert. -/
theorem count_le_maxBundles {w : World} {q : Pool (service deps)} {overtaken : Nat -> Bool}
    (hstart : BundlesRepo.count tenantId w.db ≤ maxBundles deps tenantId w.db)
    (hrun : Recorded (bundleQuota deps tenantId).overtaking
      (fun p overtaken c q => startsStoring c = true ∧
        (bundleQuota deps tenantId).inTime p overtaken c q = true)
      (Pool.init w) (fun _ => false) q overtaken) :
    BundlesRepo.count tenantId q.world.db ≤ maxBundles deps tenantId q.world.db := by
  apply (bundleQuota deps tenantId).count_le_bound _ _ _ hrun.within hstart
  · exact fun p note r q hallowed => obeys_storesBundles hallowed.1.1
  · exact fun p note c q hallowed => hallowed.1.2
  · intro p note c q op hallowed hcall
    apply Pool.Run.uses_call? _ hallowed.2.run hcall
    intro p r hallowed
    rcases hallowed with ⟨_, _, hstarts, _⟩
    exact uses_storesBundles p.threads.length hstarts

/-!
# Two uploads at once

A tier of one bundle, and two uploads that both count before either inserts.
-/

def oneBundlePool : Pool (service Deps.sample) :=
  Pool.init (World.start sampleDb ∅ 0)

def uploadOf (version : String) : Choice (service Deps.sample) :=
  Choice.spawn (Request.http (HttpRequest.uploadBundle
    { userId := 1, tenantId := 1, role := Role.owner }
    { name := some "base", version := some version, format := none, baseBundleId := none,
      bytes := some [1] }))

/-- Both uploads up to their inserts. -/
def bothCounted : List (Choice (service Deps.sample)) :=
  [uploadOf "1", uploadOf "2", Choice.exec 0, Choice.exec 0, Choice.exec 0, Choice.exec 1,
    Choice.exec 1, Choice.exec 1]

theorem count_gt_maxBundles :
    ¬ forall (deps : Deps) (tenantId : Int) (w : World) (q : Pool (service deps)),
      BundlesRepo.count tenantId w.db ≤ maxBundles deps tenantId w.db ->
      Pool.Run (fun _ c => startsStoring c = true) (Pool.init w) q ->
      BundlesRepo.count tenantId q.world.db ≤ maxBundles deps tenantId q.world.db := by
  intro h
  let schedule := bothCounted ++ [Choice.exec 0, Choice.exec 1]
  let q := oneBundlePool.afterIf (fun _ c => startsStoring c) schedule (by decide +kernel)
  have hle := h Deps.sample 1 (World.start sampleDb ∅ 0) q (by decide +kernel)
    (Pool.run_afterIf (fun _ c => startsStoring c) oneBundlePool schedule (by decide +kernel))
  have hgt : maxBundles Deps.sample 1 q.world.db < BundlesRepo.count 1 q.world.db := by
    decide +kernel
  exact Nat.not_le_of_lt hgt hle

/-- The second upload only counts once the first has inserted. -/
theorem count_le_maxBundles_second :
    let schedule := [uploadOf "1", uploadOf "2", Choice.exec 0, Choice.exec 1, Choice.exec 0,
      Choice.exec 0, Choice.exec 0, Choice.exec 1]
    let ok := fun p overtaken c q =>
      startsStoring c && (bundleQuota Deps.sample 1).inTime p overtaken c q
    let x := Recorded.after (bundleQuota Deps.sample 1).overtaking ok oneBundlePool
      (fun _ => false) schedule (by decide +kernel)
    BundlesRepo.count 1 x.1.world.db ≤ maxBundles Deps.sample 1 x.1.world.db := by
  intro schedule ok x
  have hrun := Recorded.of_after (bundleQuota Deps.sample 1).overtaking ok oneBundlePool
    (fun _ => false) schedule (by decide +kernel)
  exact count_le_maxBundles (by decide +kernel)
    (hrun.mono (fun p overtaken c q hok => by simpa [ok] using hok))

end Bundles
end FleetServer
