import FleetServer.Server.World
import FleetServer.Storage.Effects

/-!
# Which parts a call writes

Every statement names the parts of the database it may change; all others are
the same after it.  Calls on the cache, the catalog and the file store do not
reach the database, and statements reach nothing else.
-/

namespace FleetServer
namespace Server

open Storage
open Table

def Statement.writes : Statement -> List Part
  | bumpConfigVersion _ => [Part.versions]
  | createPending _ _ _ _ => [Part.hosts]
  | enroll _ _ _ _ _ _ => [Part.hosts, Part.certs]
  | deleteHost _ _ =>
      [Part.hosts, Part.certs, Part.tags, Part.overrides, Part.documents]
  | touchLastSeen _ _ => []
  | touchLastSeenIfStale _ _ _ => []
  | setLocalConfigPresent _ _ _ => []
  | setHostOverrideLast _ _ _ => []
  | updateCurrentStateHash _ _ _ => []
  | revokeCertsAndResetToPending _ _ _ _ => [Part.hosts, Part.certs]
  | recordCert _ _ _ => [Part.certs]
  | retireSuperseded _ _ _ => [Part.certs]
  | upsertOverride _ _ _ _ _ _ => [Part.overrides]
  | deleteOverride _ _ => [Part.overrides]
  | upsertManualTag _ _ _ _ => [Part.tags]
  | deleteManualTag _ _ _ => [Part.tags]
  | replaceAgentTags _ _ _ => [Part.tags]
  | createGroup _ _ _ _ => [Part.groups]
  | updateGroup _ _ _ _ => [Part.groups]
  | deleteGroup _ _ => [Part.groups]
  | createBundle _ _ _ _ _ _ _ _ _ => [Part.bundles]
  | deleteBundle _ _ => [Part.bundles, Part.assignments]
  | renameBundle _ _ _ _ _ => [Part.bundles, Part.assignments, Part.versions]
  | replaceSignature _ _ _ => [Part.bundles]
  | assign _ _ _ _ => [Part.assignments]
  | unassign _ _ _ => [Part.assignments]
  | applyConfig _ _ => [Part.groups, Part.bundles, Part.assignments, Part.versions]
  | recordRefusal _ _ _ _ => []
  | setReportedHash _ _ _ => []
  | clearReportedHash _ _ => []
  | replaceFacts _ _ _ _ => [Part.documents]
  | refreshCollectedAt _ _ _ _ _ => []
  | deleteFacts _ _ _ => [Part.documents]
  | deleteFactsSource _ _ => [Part.documents]

def Op.writes : Op -> List Part
  | Op.statement s => s.writes
  | _ => []

/-!
# Transactions of one table
-/

variable {part : Part}

theorem keeps_bumpConfigVersion (tenantId : Int) (hpart : part ≠ Part.versions) :
    Tx.Keeps part (TenantRepo.bumpConfigVersion tenantId) := by
  intro db a db' h
  unfold TenantRepo.bumpConfigVersion at h
  split at h
  · cases h
  · cases h
    exact Keeps.bumpInside tenantId hpart db () _ rfl

theorem keeps_deleteHost (tenantId : Int) (hostId : String)
    (hpart : part ∉ (Statement.deleteHost tenantId hostId).writes) :
    Tx.Keeps part (HostRepo.delete tenantId hostId) := by
  intro db a db' h
  unfold HostRepo.delete at h
  simp only at h
  split at h
  · cases h
  · cases h
    cases part <;> first | rfl | exact absurd (by simp [Statement.writes]) hpart

theorem keeps_revoke (tenantId : Int) (hostId nonceHash : String)
    (bootstrapExpiresAt now : Int) (hhosts : part ≠ Part.hosts) (hcerts : part ≠ Part.certs) :
    Tx.Keeps part (HostRepo.revokeCertsAndResetToPending tenantId hostId nonceHash
      bootstrapExpiresAt now) := by
  refine Keeps.total (fun db => ?_)
  simp only
  split
  · cases part <;> first | rfl | exact absurd rfl hhosts | exact absurd rfl hcerts
  · exact Db.same_refl part db

theorem keeps_retireSuperseded (tenantId : Int) (hostId serial : String) (now : Int)
    (hpart : part ≠ Part.certs) :
    Tx.Keeps part (HostCertRepo.retireSuperseded tenantId hostId serial now) := by
  refine Keeps.total (fun db => ?_)
  split
  · cases part <;> first | rfl | exact absurd rfl hpart
  · exact Db.same_refl part db

theorem keeps_replaceAgentTags (tenantId : Int) (hostId : String)
    (reported : List (String × String)) (now : Int) (hpart : part ≠ Part.tags) :
    Tx.Keeps part (HostTagsRepo.replaceAgentTags tenantId hostId reported now) := by
  intro db a db' h
  unfold HostTagsRepo.replaceAgentTags at h
  split at h
  · cases h
  · cases h
    cases part <;> first | rfl | exact absurd rfl hpart

theorem keeps_deleteBundle (tenantId : Int) (id : String) (hbundles : part ≠ Part.bundles)
    (hassignments : part ≠ Part.assignments) :
    Tx.Keeps part (BundlesRepo.delete tenantId id) := by
  intro db a db' h
  unfold BundlesRepo.delete at h
  simp only at h
  split at h
  · cases h
  · cases h
    cases part <;> first | rfl | exact absurd rfl hbundles | exact absurd rfl hassignments

theorem keeps_replaceFacts (tenantId : Int) (hostId : String) (doc : NewFacts)
    (keepHistory now : Int) (hpart : part ≠ Part.documents) :
    Tx.Keeps part (HostFactsRepo.replace tenantId hostId doc keepHistory now) := by
  intro db a db' h
  unfold HostFactsRepo.replace at h
  split at h
  · cases h
  · split at h
    · cases h
      exact Db.same_refl part db
    · simp only at h
      split at h
      · cases h
        exact Db.same_refl part db
      · split at h
        · cases h
          exact Db.same_refl part db
        · cases h
          cases part <;> first | rfl | exact absurd rfl hpart

theorem keeps_refreshCollectedAt (tenantId : Int)
    (hostId source factsHash collectedAt : String) (now : Int) :
    Tx.Keeps part
      (HostFactsRepo.refreshCollectedAt tenantId hostId source factsHash collectedAt now) := by
  have hrow : forall r : HostFactsRow,
      ({ r with collectedAt := some collectedAt, receivedAt := now } : HostFactsRow).document =
        r.document := fun _ => rfl
  refine Keeps.total (fun db => ?_)
  cases part with
  | documents => exact map_updateWhere_eq hrow db.hostFacts
  | profiles => rfl
  | versions => rfl
  | hosts => rfl
  | certs => rfl
  | tags => rfl
  | overrides => rfl
  | groups => rfl
  | bundles => rfl
  | assignments => rfl
  | secrets => rfl

/-!
# Statements and calls
-/

theorem Statement.keeps {s : Statement} {now : Int} (hpart : part ∉ s.writes) :
    Tx.Keeps part (s.tx now) := by
  cases s with
  | bumpConfigVersion tenantId =>
      exact keeps_bumpConfigVersion tenantId (fun h => hpart (by simp [h, writes]))
  | createPending id tenantId nonceHash bootstrapExpiresAt =>
      refine Keeps.guarded (fun db => ?_)
      cases part <;> first | rfl | exact absurd (by simp [Statement.writes]) hpart
  | enroll tenantId hostId nonceHash hostname os cert =>
      exact Keeps.enroll tenantId hostId nonceHash hostname os cert now
        (fun h => hpart (by simp [h, writes])) (fun h => hpart (by simp [h, writes]))
  | deleteHost tenantId hostId => exact keeps_deleteHost tenantId hostId hpart
  | touchLastSeen tenantId hostId =>
      exact Keeps.setHost_ tenantId hostId _ (fun _ => rfl)
  | touchLastSeenIfStale tenantId hostId staleAfterSecs =>
      exact Keeps.setHost_ tenantId hostId _ (fun _ => rfl)
  | setLocalConfigPresent tenantId hostId present =>
      exact Keeps.setHost tenantId hostId _ (fun _ => rfl)
  | setHostOverrideLast tenantId hostId last =>
      exact Keeps.setHost tenantId hostId _ (fun _ => rfl)
  | updateCurrentStateHash tenantId hostId stateHash =>
      exact Keeps.setHost_ tenantId hostId _ (fun _ => rfl)
  | revokeCertsAndResetToPending tenantId hostId nonceHash bootstrapExpiresAt =>
      exact keeps_revoke tenantId hostId nonceHash bootstrapExpiresAt now
        (fun h => hpart (by simp [h, writes])) (fun h => hpart (by simp [h, writes]))
  | recordCert tenantId hostId cert =>
      exact Keeps.insertCert _ (fun h => hpart (by simp [h, writes]))
  | retireSuperseded tenantId hostId serial =>
      exact keeps_retireSuperseded tenantId hostId serial now
        (fun h => hpart (by simp [h, writes]))
  | upsertOverride tenantId hostId patchEncrypted priority template updatedByUser =>
      refine Keeps.guarded (fun db => ?_)
      cases part <;> first | rfl | exact absurd (by simp [Statement.writes]) hpart
  | deleteOverride tenantId hostId =>
      refine Keeps.total (fun db => ?_)
      cases part <;> first | rfl | exact absurd (by simp [Statement.writes]) hpart
  | upsertManualTag tenantId hostId key value =>
      refine Keeps.guarded (fun db => ?_)
      cases part <;> first | rfl | exact absurd (by simp [Statement.writes]) hpart
  | deleteManualTag tenantId hostId key =>
      refine Keeps.total (fun db => ?_)
      cases part <;> first | rfl | exact absurd (by simp [Statement.writes]) hpart
  | replaceAgentTags tenantId hostId reported =>
      exact keeps_replaceAgentTags tenantId hostId reported now
        (fun h => hpart (by simp [h, writes]))
  | createGroup id tenantId name selectorJson =>
      exact Keeps.bind_ (Keeps.insertGroup _ (fun h => hpart (by simp [h, writes])))
        (fun _ => Keeps.pure_ _)
  | updateGroup tenantId id name selectorJson =>
      exact Keeps.updateGroup tenantId id name selectorJson
        (fun h => hpart (by simp [h, writes]))
  | deleteGroup tenantId id =>
      exact Keeps.deleteGroup tenantId id (fun h => hpart (by simp [h, writes]))
  | createBundle id tenantId name version sha256 sizeBytes signature format keyFingerprint =>
      exact Keeps.bind_ (Keeps.insertBundle _ (fun h => hpart (by simp [h, writes])))
        (fun _ => Keeps.pure_ _)
  | deleteBundle tenantId id =>
      exact keeps_deleteBundle tenantId id (fun h => hpart (by simp [h, writes]))
        (fun h => hpart (by simp [h, writes]))
  | renameBundle tenantId from_ to_ inPlace moved =>
      exact Keeps.rename tenantId from_ to_ inPlace moved
        (fun h => hpart (by simp [h, writes])) (fun h => hpart (by simp [h, writes]))
        (fun h => hpart (by simp [h, writes]))
  | replaceSignature tenantId id signature =>
      refine Keeps.total (fun db => ?_)
      cases part <;> first | rfl | exact absurd (by simp [Statement.writes]) hpart
  | assign tenantId groupId bundleId priority =>
      refine Keeps.guarded (fun db => ?_)
      cases part <;> first | rfl | exact absurd (by simp [Statement.writes]) hpart
  | unassign tenantId groupId bundleId =>
      refine Keeps.total (fun db => ?_)
      cases part <;> first | rfl | exact absurd (by simp [Statement.writes]) hpart
  | applyConfig tenantId plan =>
      exact Keeps.apply tenantId plan now
        (fun h => hpart (by simp [h, writes])) (fun h => hpart (by simp [h, writes]))
        (fun h => hpart (by simp [h, writes])) (fun h => hpart (by simp [h, writes]))
  | recordRefusal tenantId hostId status hash =>
      exact Keeps.setHost_ tenantId hostId _ (fun _ => rfl)
  | setReportedHash tenantId hostId hash =>
      exact Keeps.setHost tenantId hostId _ (fun _ => rfl)
  | clearReportedHash tenantId hostId =>
      exact Keeps.setHost tenantId hostId _ (fun _ => rfl)
  | replaceFacts tenantId hostId doc keepHistory =>
      exact keeps_replaceFacts tenantId hostId doc keepHistory now
        (fun h => hpart (by simp [h, writes]))
  | refreshCollectedAt tenantId hostId source factsHash collectedAt =>
      exact keeps_refreshCollectedAt tenantId hostId source factsHash collectedAt now
  | deleteFacts tenantId hostId source =>
      refine Keeps.total (fun db => ?_)
      cases part <;> first | rfl | exact absurd (by simp [Statement.writes]) hpart
  | deleteFactsSource tenantId source =>
      refine Keeps.total (fun db => ?_)
      cases part <;> first | rfl | exact absurd (by simp [Statement.writes]) hpart

theorem lookup_of_storeGet {tenantId : Int} {id : String} {w : World} {bytes : Core.Bytes}
    (h : (exec (Op.storeGet tenantId id) w).1 = Except.ok bytes) :
    w.files.lookup (tenantId, id) = some bytes := by
  unfold exec at h
  simp only at h
  split at h
  · cases h
    assumption
  · cases h

theorem exec_storeGet_world (tenantId : Int) (id : String) (w : World) :
    (exec (Op.storeGet tenantId id) w).2 = w := by
  cases h : w.files.lookup (tenantId, id) with
  | none => simp [exec, h]
  | some bytes => simp [exec, h]

/-- Calls that only look. -/
def Op.reads : Op -> Bool
  | Op.query _ => true
  | Op.cacheTicket _ => true
  | Op.storeGet _ _ => true
  | Op.nowUnix => true
  | _ => false

theorem exec_of_reads {op : Op} (hop : op.reads = true) (w : World) : (exec op w).2 = w := by
  cases op with
  | query q => rfl
  | cacheTicket key => rfl
  | storeGet tenantId id => exact exec_storeGet_world tenantId id w
  | nowUnix => rfl
  | _ => cases hop

/-- The database after a call differs only in what the call writes. -/
theorem exec_same {op : Op} (hpart : part ∉ op.writes) (w : World) :
    w.db.Same part (exec op w).2.db := by
  cases op with
  | statement s =>
      change w.db.Same part (s.exec w).2.db
      unfold Statement.exec
      split
      · rename_i answer db h
        exact Statement.keeps hpart w.db answer db h
      · exact Db.same_refl part w.db
  | storeGet tenantId id =>
      rw [exec_storeGet_world]
      exact Db.same_refl part w.db
  | query q => exact Db.same_refl part w.db
  | cacheGet key version => exact Db.same_refl part w.db
  | cacheTicket key => exact Db.same_refl part w.db
  | cachePut key ticket version state => exact Db.same_refl part w.db
  | invalidateHost key => exact Db.same_refl part w.db
  | forgetHost key => exact Db.same_refl part w.db
  | bumpCatalog tenantId change => exact Db.same_refl part w.db
  | storePut tenantId id bytes => exact Db.same_refl part w.db
  | storeDelete tenantId id => exact Db.same_refl part w.db
  | nowUnix => exact Db.same_refl part w.db

def Op.writesFiles : Op -> Bool
  | Op.storePut _ _ _ => true
  | Op.storeDelete _ _ => true
  | _ => false

theorem exec_files {op : Op} (hop : op.writesFiles = false) (w : World) :
    (exec op w).2.files = w.files := by
  cases op with
  | statement s =>
      change (s.exec w).2.files = w.files
      unfold Statement.exec
      split <;> rfl
  | storeGet tenantId id => rw [exec_storeGet_world]
  | storePut tenantId id bytes => cases hop
  | storeDelete tenantId id => cases hop
  | _ => rfl

/-- Nothing changes what a tenant is, apart from its version. -/
theorem profiles_unwritten (op : Op) : Part.profiles ∉ op.writes := by
  cases op with
  | statement s => cases s <;> simp [Op.writes, Statement.writes]
  | _ => simp [Op.writes]

def tenantLimits (deps : Deps) (tenantId : Int) (db : Db) : Option Core.TierLimits :=
  (TenantRepo.get tenantId db).map fun t => deps.limits t.tier t.tierOverridesJson

theorem tenantLimits_eq (deps : Deps) (tenantId : Int) (db : Db) :
    tenantLimits deps tenantId db =
      ((db.tenants.map Tenant.profile).find? fun t => t.id == tenantId).map fun t =>
        deps.limits t.tier t.tierOverridesJson := by
  rw [List.find?_map, Option.map_map]
  rfl

theorem tenantLimits_exec (deps : Deps) (tenantId : Int) (op : Op) (w : World) :
    tenantLimits deps tenantId (exec op w).2.db = tenantLimits deps tenantId w.db := by
  have hsame : (exec op w).2.db.tenants.map Tenant.profile = w.db.tenants.map Tenant.profile :=
    exec_same (profiles_unwritten op) w
  rw [tenantLimits_eq, tenantLimits_eq, hsame]

/-- No call moves the clock. -/
theorem exec_now (op : Op) (w : World) : (exec op w).2.now = w.now := by
  cases op with
  | statement s =>
      change (s.exec w).2.now = w.now
      unfold Statement.exec
      split <;> rfl
  | storeGet tenantId id => rw [exec_storeGet_world]
  | _ => rfl

/-- A statement's outcome: refused, or its transaction's. -/
theorem statement_exec (s : Statement) (w : World) :
    (exists e, s.tx w.now w.db = Except.error e ∧ s.exec w = (Except.error e, w)) ∨
      exists answer db, s.tx w.now w.db = Except.ok (answer, db) ∧
        s.exec w = (Except.ok answer, { w with db := db }) := by
  unfold Statement.exec
  cases h : s.tx w.now w.db with
  | error e => exact Or.inl ⟨e, rfl, rfl⟩
  | ok x => exact Or.inr ⟨x.1, x.2, rfl, rfl⟩

theorem exec_guarded {s : Statement} {w : World} {ok : Db -> Bool}
    {f : Db -> s.Answer × Db} (hs : s.tx w.now = Tx.guarded ok f) :
    s.exec w =
      if ok w.db = true then (Except.ok (f w.db).1, { w with db := (f w.db).2 })
      else (Except.error DbError.constraint, w) := by
  unfold Statement.exec
  rw [hs]
  unfold Tx.guarded
  by_cases hok : ok w.db = true
  · rw [if_pos hok, if_pos hok]
  · rw [if_neg hok, if_neg hok]

end Server
end FleetServer
