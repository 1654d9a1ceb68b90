import FleetServer.Server.Frame
import FleetServer.Storage.Owners

/-!
# Calls of one tenant

Every statement and almost every query is made for a tenant.  Statements change
that tenant's rows only, and queries answer from them only.
-/

namespace FleetServer
namespace Server

open Storage
open Table

/-!
# Statements
-/

namespace Statement

def tenant : Statement -> Int
  | bumpConfigVersion tenantId => tenantId
  | createPending _ tenantId _ _ => tenantId
  | enroll tenantId _ _ _ _ _ => tenantId
  | deleteHost tenantId _ => tenantId
  | touchLastSeen tenantId _ => tenantId
  | touchLastSeenIfStale tenantId _ _ => tenantId
  | setLocalConfigPresent tenantId _ _ => tenantId
  | setHostOverrideLast tenantId _ _ => tenantId
  | updateCurrentStateHash tenantId _ _ => tenantId
  | revokeCertsAndResetToPending tenantId _ _ _ => tenantId
  | recordCert tenantId _ _ => tenantId
  | retireSuperseded tenantId _ _ => tenantId
  | upsertOverride tenantId _ _ _ _ _ => tenantId
  | deleteOverride tenantId _ => tenantId
  | upsertManualTag tenantId _ _ _ => tenantId
  | deleteManualTag tenantId _ _ => tenantId
  | replaceAgentTags tenantId _ _ => tenantId
  | createGroup _ tenantId _ _ => tenantId
  | updateGroup tenantId _ _ _ => tenantId
  | deleteGroup tenantId _ => tenantId
  | createBundle _ tenantId _ _ _ _ _ _ _ => tenantId
  | deleteBundle tenantId _ => tenantId
  | renameBundle tenantId _ _ _ _ => tenantId
  | replaceSignature tenantId _ _ => tenantId
  | assign tenantId _ _ _ => tenantId
  | unassign tenantId _ _ => tenantId
  | applyConfig tenantId _ => tenantId
  | recordRefusal tenantId _ _ _ => tenantId
  | setReportedHash tenantId _ _ => tenantId
  | clearReportedHash tenantId _ => tenantId
  | replaceFacts tenantId _ _ _ => tenantId
  | refreshCollectedAt tenantId _ _ _ _ => tenantId
  | deleteFacts tenantId _ _ => tenantId
  | deleteFactsSource tenantId _ => tenantId

/-- The ids rows are given, or refer to, on the word of the caller. -/
def names : Statement -> List String
  | createPending id _ _ _ => [id]
  | recordCert _ hostId _ => [hostId]
  | upsertOverride _ hostId _ _ _ _ => [hostId]
  | upsertManualTag _ hostId _ _ => [hostId]
  | replaceAgentTags _ hostId _ => [hostId]
  | createGroup id _ _ _ => [id]
  | createBundle id _ _ _ _ _ _ _ _ => [id]
  | renameBundle _ _ _ _ moved => moved.map MovedBundle.newId
  | assign _ groupId bundleId _ => [groupId, bundleId]
  | applyConfig _ plan => plan.names
  | _ => []

theorem stays {s : Statement} {now : Int} {db db' : Db} {answer : s.Answer}
    (hsingle : db.Single)
    (hnames : forall id, id ∈ s.names -> forall t', db.Names id t' -> t' = s.tenant)
    (h : s.tx now db = Except.ok (answer, db')) : Stays s.tenant s.names db db' := by
  cases s with
  | bumpConfigVersion tenantId => exact within_bumpConfigVersion _ _ _ h
  | createPending id tenantId nonceHash bootstrapExpiresAt => exact within_createPending _ _ _ h
  | enroll tenantId hostId nonceHash hostname os cert => exact stays_enroll h
  | deleteHost tenantId hostId => exact stays_deleteHost h
  | touchLastSeen tenantId hostId =>
      refine within_setHost_ ?_ _ _ _ h
      exact fun _ => ⟨rfl, rfl⟩
  | touchLastSeenIfStale tenantId hostId staleAfterSecs =>
      refine within_setHost_ ?_ _ _ _ h
      exact fun _ => ⟨rfl, rfl⟩
  | setLocalConfigPresent tenantId hostId present =>
      refine within_setHost ?_ _ _ _ h
      exact fun _ => ⟨rfl, rfl⟩
  | setHostOverrideLast tenantId hostId last =>
      refine within_setHost ?_ _ _ _ h
      exact fun _ => ⟨rfl, rfl⟩
  | updateCurrentStateHash tenantId hostId stateHash =>
      refine within_setHost_ ?_ _ _ _ h
      exact fun _ => ⟨rfl, rfl⟩
  | revokeCertsAndResetToPending tenantId hostId nonceHash bootstrapExpiresAt =>
      exact within_revoke _ _ _ h
  | recordCert tenantId hostId cert => exact within_insertCert _ _ _ h
  | retireSuperseded tenantId hostId serial => exact within_retireSuperseded _ _ _ h
  | upsertOverride tenantId hostId patchEncrypted priority template updatedByUser =>
      exact stays_upsertOverride rfl (hnames _ (List.mem_singleton_self _)) h
  | deleteOverride tenantId hostId => exact within_deleteOverride _ _ _ h
  | upsertManualTag tenantId hostId key value =>
      exact stays_upsertManual (hnames _ (List.mem_singleton_self _)) h
  | deleteManualTag tenantId hostId key => exact within_deleteManualTag _ _ _ h
  | replaceAgentTags tenantId hostId reported =>
      exact stays_replaceAgentTags (hnames _ (List.mem_singleton_self _)) h
  | createGroup id tenantId name selectorJson =>
      have hcreate : Tx.Within (Stays tenantId [id])
          (GroupsRepo.create id tenantId name selectorJson now) := by
        apply Tx.within_bind stays_trans
        · exact within_insertGroup rfl (List.mem_singleton_self id)
        · intro _
          exact Tx.within_pure stays_refl _
      exact hcreate _ _ _ h
  | updateGroup tenantId id name selectorJson => exact within_updateGroup _ _ _ h
  | deleteGroup tenantId id => exact within_deleteGroup _ _ _ h
  | createBundle id tenantId name version sha256 sizeBytes signature format keyFingerprint =>
      have hcreated := BundlesRepo.create_eq_ok h
      rw [hcreated.1] at hcreated
      refine within_insertBundle ?_ ?_ _ _ _ hcreated.2
      · rfl
      · exact List.mem_singleton_self id
  | deleteBundle tenantId id => exact stays_deleteBundle h
  | renameBundle tenantId from_ to_ inPlace moved => exact within_rename (fun m hm => List.mem_map.mpr ⟨m, hm, rfl⟩) _ _ _ h
  | replaceSignature tenantId id signature => exact within_replaceSignature _ _ _ h
  | assign tenantId groupId bundleId priority => exact stays_assign (hnames _ List.mem_cons_self) h
  | unassign tenantId groupId bundleId => exact within_unassign _ _ _ h
  | applyConfig tenantId plan => exact within_apply _ _ _ h
  | recordRefusal tenantId hostId status hash =>
      refine within_setHost_ ?_ _ _ _ h
      exact fun _ => ⟨rfl, rfl⟩
  | setReportedHash tenantId hostId hash =>
      refine within_setHost ?_ _ _ _ h
      exact fun _ => ⟨rfl, rfl⟩
  | clearReportedHash tenantId hostId =>
      refine within_setHost ?_ _ _ _ h
      exact fun _ => ⟨rfl, rfl⟩
  | replaceFacts tenantId hostId doc keepHistory => exact stays_replaceFacts hsingle h
  | refreshCollectedAt tenantId hostId source factsHash collectedAt => exact within_refreshCollectedAt _ _ _ h
  | deleteFacts tenantId hostId source => exact within_deleteFacts _ _ _ h
  | deleteFactsSource tenantId source => exact within_deleteFactsSource _ _ _ h

end Statement

/-!
# Queries
-/

namespace Query

def Of (t : Int) : Query -> Prop
  | tenant tenantId => tenantId = t
  | tenantSecrets tenantId => tenantId = t
  | host tenantId _ => tenantId = t
  | hosts tenantId => tenantId = t
  | countActive tenantId => tenantId = t
  | bootstrapPending tenantId _ _ => tenantId = t
  | certStanding tenantId _ _ => tenantId = t
  | hostOverride tenantId _ => tenantId = t
  | manualTag _ _ => True
  | tagsForHost tenantId _ => tenantId = t
  | tagsForTenant tenantId => tenantId = t
  | tagValuesForKey tenantId _ => tenantId = t
  | groups tenantId => tenantId = t
  | group tenantId _ => tenantId = t
  | allBundles => False
  | bundles tenantId => tenantId = t
  | bundle tenantId _ => tenantId = t
  | bundlesNamed tenantId _ => tenantId = t
  | bundleCount tenantId => tenantId = t
  | bundlesForGroups tenantId _ => tenantId = t
  | assignments tenantId => tenantId = t
  | facts tenantId _ _ => tenantId = t
  | factsHashes tenantId _ => tenantId = t
  | hostsWithSource tenantId _ => tenantId = t
  | factsDocuments tenantId _ => tenantId = t

def names : Query -> List String
  | manualTag hostId _ => [hostId]
  | _ => []

end Query

section Part

variable {t : Int} {db : Db}

theorem tenant_of_and {a : Int} {rest : Bool} (h : (a == t && rest) = true) :
    (a == t) = true :=
  ((Bool.and_eq_true _ _).mp h).1

theorem factsGet_of (hostId source : String) :
    HostFactsRepo.get t hostId source (db.of t) = HostFactsRepo.get t hostId source db := by
  apply congrArg (Option.map HostFactsRepo.stored)
  apply find?_of_part
  intro r _ hr
  exact tenant_of_and ((Bool.and_eq_true _ _).mp hr).1

theorem joined_of (hsingle : db.Single) :
    BundleAssignmentsRepo.joined t (db.of t) = BundleAssignmentsRepo.joined t db := by
  unfold BundleAssignmentsRepo.joined
  have hrows : (db.of t).bundleAssignments.filter (fun a => a.tenantId == t) =
      db.bundleAssignments.filter fun a => a.tenantId == t :=
    filter_of_part (fun r _ hr => hr)
  rw [hrows]
  apply List.filterMap_congr
  intro a ha
  have hmem := List.mem_filter.mp ha
  have hfind : (db.of t).bundles.find? (fun b => b.id == a.bundleId) =
      db.bundles.find? fun b => b.id == a.bundleId := by
    apply find?_of_part
    intro b hb hid
    have hown := (Db.names_assignment hmem.1).2
    rw [← beq_iff_eq.mp hid, beq_iff_eq.mp hmem.2] at hown
    exact beq_iff_eq.mpr (hsingle _ _ _ (Db.names_bundle hb) hown)
  rw [hfind]

/-- What a query of a tenant answers is in that tenant's rows. -/
theorem Query.eval_of {q : Query} {now : Int} (hq : q.Of t) (hsingle : db.Single)
    (hnames : forall id, id ∈ q.names -> forall t', db.Names id t' -> t' = t) :
    q.eval now (db.of t) = q.eval now db := by
  cases q with
  | tenant tenantId =>
      cases hq
      exact find?_of_part (fun r _ hr => hr)
  | tenantSecrets tenantId =>
      cases hq
      exact find?_of_part (fun r _ hr => hr)
  | host tenantId hostId =>
      cases hq
      apply congrArg (Option.map mapHost)
      exact find?_of_part (fun r _ hr => tenant_of_and hr)
  | hosts tenantId =>
      cases hq
      have hrows : (db.of t).hosts.filter (fun h => h.tenantId == t) =
          db.hosts.filter fun h => h.tenantId == t := filter_of_part (fun r _ hr => hr)
      show HostRepo.list t (db.of t) = HostRepo.list t db
      unfold HostRepo.list
      rw [hrows]
  | countActive tenantId =>
      cases hq
      exact affected_of_part (fun r _ hr => tenant_of_and hr)
  | bootstrapPending tenantId hostId nonceHash =>
      cases hq
      apply any_of_part
      intro r _ hr
      simp only [HostRepo.waitsFor, isHost, Bool.and_eq_true] at hr
      exact hr.1.1.1.1
  | certStanding tenantId hostId serial =>
      cases hq
      apply congrArg (HostCertRepo.supersededBy serial)
      apply filter_of_part
      intro r _ hr
      simp only [HostCertRepo.isLive, ofHost, Bool.and_eq_true] at hr
      exact hr.1.1.1
  | hostOverride tenantId hostId =>
      cases hq
      apply congrArg (Option.map _)
      exact find?_of_part (fun r _ hr => tenant_of_and hr)
  | manualTag hostId key =>
      apply congrArg (Option.map HostTagRow.value)
      apply find?_of_part
      intro r hr hmatch
      simp only [HostTagsRepo.isTag, Bool.and_eq_true, beq_iff_eq] at hmatch
      have hname := Db.names_tag hr
      rw [hmatch.1.1] at hname
      exact beq_iff_eq.mpr (hnames hostId (List.mem_singleton_self _) _ hname)
  | tagsForHost tenantId hostId =>
      cases hq
      apply congrArg HostTagsRepo.toMap
      apply view_of_part
      intro r _ hr
      split at hr
      · rename_i hmatch
        exact tenant_of_and hmatch
      · cases hr
  | tagsForTenant tenantId =>
      cases hq
      have hrows : HostTagsRepo.rowsForTenant t (db.of t) =
          HostTagsRepo.rowsForTenant t db := by
        apply view_of_part
        intro r _ hr
        split at hr
        · rename_i hmatch
          exact hmatch
        · cases hr
      show HostTagsRepo.mapsForTenant t (db.of t) =
        HostTagsRepo.mapsForTenant t db
      unfold HostTagsRepo.mapsForTenant
      rw [hrows]
  | tagValuesForKey tenantId key =>
      cases hq
      apply view_of_part
      intro r _ hr
      split at hr
      · rename_i hmatch
        exact tenant_of_and hmatch
      · cases hr
  | groups tenantId =>
      cases hq
      have hrows : (db.of t).groups.filter (fun g => g.tenantId == t) =
          db.groups.filter fun g => g.tenantId == t := filter_of_part (fun r _ hr => hr)
      show GroupsRepo.list t (db.of t) = GroupsRepo.list t db
      unfold GroupsRepo.list
      rw [hrows]
  | group tenantId id =>
      cases hq
      exact find?_of_part (fun r _ hr => tenant_of_and hr)
  | allBundles => cases hq
  | bundles tenantId =>
      cases hq
      have hrows : (db.of t).bundles.filter (fun b => b.tenantId == t) =
          db.bundles.filter fun b => b.tenantId == t := filter_of_part (fun r _ hr => hr)
      show BundlesRepo.list t (db.of t) = BundlesRepo.list t db
      unfold BundlesRepo.list
      rw [hrows]
  | bundle tenantId id =>
      cases hq
      exact find?_of_part (fun r _ hr => tenant_of_and hr)
  | bundlesNamed tenantId name =>
      cases hq
      have hrows : (db.of t).bundles.filter (BundlesRepo.isNamed t name) =
          db.bundles.filter (BundlesRepo.isNamed t name) :=
        filter_of_part (fun r _ hr => tenant_of_and hr)
      show BundlesRepo.listByName t name (db.of t) =
        BundlesRepo.listByName t name db
      unfold BundlesRepo.listByName
      rw [hrows]
  | bundleCount tenantId =>
      cases hq
      exact affected_of_part (fun r _ hr => hr)
  | bundlesForGroups tenantId groupIds =>
      cases hq
      show BundleAssignmentsRepo.listForGroups t groupIds (db.of t) =
        BundleAssignmentsRepo.listForGroups t groupIds db
      unfold BundleAssignmentsRepo.listForGroups
      rw [joined_of hsingle]
  | assignments tenantId =>
      cases hq
      apply congrArg (List.map _)
      exact filter_of_part (fun r _ hr => hr)
  | facts tenantId hostId source =>
      cases hq
      exact factsGet_of hostId source
  | factsHashes tenantId hostId =>
      cases hq
      have hhosts : (db.of t).hosts.find? (isHost t hostId) =
          db.hosts.find? (isHost t hostId) :=
        find?_of_part (fun r _ hr => tenant_of_and hr)
      show HostFactsRepo.hashes t hostId (db.of t) =
        HostFactsRepo.hashes t hostId db
      unfold HostFactsRepo.hashes HostFactsRepo.hashOf
      rw [hhosts, factsGet_of]
  | hostsWithSource tenantId source =>
      cases hq
      have hrows : (db.of t).hostFacts.filter
            (fun r => r.tenantId == t && r.source == source) =
          db.hostFacts.filter fun r => r.tenantId == t && r.source == source :=
        filter_of_part (fun r _ hr => tenant_of_and hr)
      show HostFactsRepo.hostsWithSource t source (db.of t) =
        HostFactsRepo.hostsWithSource t source db
      unfold HostFactsRepo.hostsWithSource
      rw [hrows]
  | factsDocuments tenantId sources =>
      cases hq
      have hrows : (db.of t).hostFacts.filter
            (fun r => r.tenantId == t && sources.contains r.source) =
          db.hostFacts.filter fun r => r.tenantId == t && sources.contains r.source :=
        filter_of_part (fun r _ hr => tenant_of_and hr)
      show HostFactsRepo.documents t sources (db.of t) =
        HostFactsRepo.documents t sources db
      unfold HostFactsRepo.documents
      rw [hrows]

end Part

/-!
# Calls
-/

namespace Op

def Of (t : Int) : Op -> Prop
  | query q => q.Of t
  | statement s => s.tenant = t
  | cacheGet key _ => key.1 = t
  | cacheTicket key => key.1 = t
  | cachePut key _ _ _ => key.1 = t
  | invalidateHost key => key.1 = t
  | forgetHost key => key.1 = t
  | bumpCatalog tenantId _ => tenantId = t
  | storePut tenantId _ _ => tenantId = t
  | storeGet tenantId _ => tenantId = t
  | storeDelete tenantId _ => tenantId = t
  | nowUnix => True

def names : Op -> List String
  | query q => q.names
  | statement s => s.names
  | storePut _ id _ => [id]
  | _ => []

end Op

namespace World

/-- A row or a stored file of the tenant `t` names the id. -/
def Names (w : World) (id : String) (t : Int) : Prop :=
  w.db.Names id t ∨ (w.files.lookup (t, id)).isSome = true

/-- No id is named for two tenants. -/
def Single (w : World) : Prop :=
  forall id t t', w.Names id t -> w.Names id t' -> t = t'

theorem single_db {w : World} (h : w.Single) : w.db.Single :=
  fun id t t' hid hid' => h id t t' (Or.inl hid) (Or.inl hid')

/-- A tenant's rows, files and generations are as they were, and what is served to
its hosts was served before. -/
structure Untouched (t : Int) (w w' : World) : Prop where
  rows : w'.db.of t = w.db.of t
  files : forall id, w'.files.lookup (t, id) = w.files.lookup (t, id)
  catalog : w'.catalog.lookup t = w.catalog.lookup t
  served : forall hostId version state,
    w'.cache.served (t, hostId) version = some state ->
      w.cache.served (t, hostId) version = some state

theorem untouched_refl (t : Int) (w : World) : w.Untouched t w :=
  ⟨rfl, fun _ => rfl, rfl, fun _ _ _ h => h⟩

end World

section Exec

variable {t t' : Int} {w : World}

theorem host_ne {key : Agent.HostKey} (hkey : key.1 = t) (hne : t' ≠ t) (hostId : String) :
    (t', hostId) ≠ key := by
  intro h
  exact hne ((congrArg Prod.fst h).trans hkey)

theorem file_ne (hne : t' ≠ t) (id id' : String) : ((t', id') : Int × String) ≠ (t, id) := by
  intro h
  exact hne (congrArg Prod.fst h)

/-- A call of one tenant touches nothing of another's. -/
theorem untouched_exec {op : Op} (hop : op.Of t) (hne : t' ≠ t) (hsingle : w.db.Single)
    (hnames : forall id, id ∈ op.names -> forall t', w.db.Names id t' -> t' = t) :
    w.Untouched t' (exec op w).2 := by
  cases op with
  | query q => exact w.untouched_refl t'
  | statement s =>
      cases hop
      show w.Untouched t' (s.exec w).2
      rcases statement_exec s w with ⟨e, _, hexec⟩ | ⟨answer, db, htx, hexec⟩
      · rw [hexec]
        exact w.untouched_refl t'
      · rw [hexec]
        constructor
        · exact (Statement.stays hsingle hnames htx).others t' hne
        · intro id
          rfl
        · rfl
        · intro hostId version state h
          exact h
  | cacheGet key version =>
      constructor
      · rfl
      · intro id
        rfl
      · rfl
      · intro hostId version' state h
        rw [← Agent.DesiredStateCache.get_served w.cache key (t', hostId) version version' w.now]
        exact h
  | cacheTicket key => exact w.untouched_refl t'
  | cachePut key ticket version state =>
      constructor
      · rfl
      · intro id
        rfl
      · rfl
      · intro hostId version' state' h
        rcases Agent.DesiredStateCache.served_of_putIfCurrent h with hold | ⟨_, hsame, _⟩
        · exact hold
        · exact absurd hsame (host_ne hop hne hostId)
  | invalidateHost key =>
      constructor
      · rfl
      · intro id
        rfl
      · rfl
      · intro hostId version state h
        rw [← Agent.DesiredStateCache.invalidateHost_served_ne w.cache version w.now
          (host_ne hop hne hostId)]
        exact h
  | forgetHost key =>
      constructor
      · rfl
      · intro id
        rfl
      · rfl
      · intro hostId version state h
        rw [← Agent.DesiredStateCache.forgetHost_served_ne w.cache version
          (host_ne hop hne hostId)]
        exact h
  | bumpCatalog tenantId change =>
      constructor
      · rfl
      · intro id
        rfl
      · apply AList.lookup_insert_ne
        rw [hop]
        exact hne
      · intro hostId version state h
        exact h
  | storePut tenantId id bytes =>
      constructor
      · rfl
      · intro id'
        apply AList.lookup_insert_ne
        rw [hop]
        exact file_ne hne id id'
      · rfl
      · intro hostId version state h
        exact h
  | storeGet tenantId id =>
      rw [show (exec (Op.storeGet tenantId id) w).2 = w from exec_storeGet_world tenantId id w]
      exact w.untouched_refl t'
  | storeDelete tenantId id =>
      constructor
      · rfl
      · intro id'
        apply AList.lookup_erase_ne
        rw [hop]
        exact file_ne hne id id'
      · rfl
      · intro hostId version state h
        exact h
  | nowUnix => exact w.untouched_refl t'

/-- What a call adds to the names are ids it was given, as its tenant's. -/
theorem names_exec {op : Op} {id : String} (hop : op.Of t) (hsingle : w.db.Single)
    (hnames : forall id, id ∈ op.names -> forall t', w.db.Names id t' -> t' = t)
    (h : (exec op w).2.Names id t') : w.Names id t' ∨ (id ∈ op.names ∧ t' = t) := by
  cases op with
  | statement s =>
      cases hop
      have h : (s.exec w).2.Names id t' := h
      rcases statement_exec s w with ⟨e, _, hexec⟩ | ⟨answer, db, htx, hexec⟩
      · rw [hexec] at h
        exact Or.inl h
      · rw [hexec] at h
        rcases h with hrow | hfile
        · rcases (Statement.stays hsingle hnames htx).names id t' hrow with hold | hnew
          · exact Or.inl (Or.inl hold)
          · exact Or.inr hnew
        · exact Or.inl (Or.inr hfile)
  | storePut tenantId id' bytes =>
      cases hop
      rcases h with hrow | hfile
      · exact Or.inl (Or.inl hrow)
      · by_cases hkey : ((t', id) : Int × String) = (t, id')
        · cases hkey
          exact Or.inr ⟨List.mem_singleton_self _, rfl⟩
        · have hfile : ((w.files.insert (t, id') bytes).lookup (t', id)).isSome = true := hfile
          rw [AList.lookup_insert_ne hkey] at hfile
          exact Or.inl (Or.inr hfile)
  | storeDelete tenantId id' =>
      rcases h with hrow | hfile
      · exact Or.inl (Or.inl hrow)
      · have hfile : ((w.files.erase (tenantId, id')).lookup (t', id)).isSome = true := hfile
        by_cases hkey : ((t', id) : Int × String) = (tenantId, id')
        · rw [hkey, AList.lookup_erase] at hfile
          cases hfile
        · rw [AList.lookup_erase_ne hkey] at hfile
          exact Or.inl (Or.inr hfile)
  | storeGet tenantId id' =>
      rw [show (exec (Op.storeGet tenantId id') w).2 = w from exec_storeGet_world tenantId id' w]
        at h
      exact Or.inl h
  | query q => exact Or.inl h
  | cacheGet key version => exact Or.inl h
  | cacheTicket key => exact Or.inl h
  | cachePut key ticket version state => exact Or.inl h
  | invalidateHost key => exact Or.inl h
  | forgetHost key => exact Or.inl h
  | bumpCatalog tenantId change => exact Or.inl h
  | nowUnix => exact Or.inl h

end Exec

end Server
end FleetServer
