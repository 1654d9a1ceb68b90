import FleetServer.Server.Frame
import FleetServer.Server.Service
import FleetServer.Storage.Renaming

/-!
# The constraints of the schema hold throughout

Every call keeps the keys and the foreign keys of the configuration tables, so
every database a run reaches meets them if the first one did.
-/

namespace FleetServer
namespace Server

open Storage
open Concurrency

/-- Whatever touches none of the configuration tables keeps their constraints. -/
theorem configKeys_of_same {db db' : Db} (hprofiles : db.Same Part.profiles db')
    (hgroups : db.Same Part.groups db') (hbundles : db.Same Part.bundles db')
    (hassignments : db.Same Part.assignments db') (hdb : ConfigKeys db) : ConfigKeys db' := by
  have htenants : db'.tenants.map Tenant.id = db.tenants.map Tenant.id := by
    have h : db'.tenants.map Tenant.profile = db.tenants.map Tenant.profile := hprofiles
    have hids := congrArg (List.map Tenant.id) h
    rw [List.map_map, List.map_map] at hids
    exact hids
  have hg : db'.groups = db.groups := hgroups
  have hb : db'.bundles = db.bundles := hbundles
  have ha : db'.bundleAssignments = db.bundleAssignments := hassignments
  constructor
  · rw [htenants]
    exact hdb.tenantIds
  · rw [hb]
    exact hdb.bundleIds
  · rw [hb]
    exact hdb.bundleVersions
  · rw [hg]
    exact hdb.groupIds
  · rw [hg]
    exact hdb.groupNames
  · rw [ha]
    exact hdb.pairs
  · intro a hmem
    unfold Db.hasGroup
    rw [hg]
    rw [ha] at hmem
    exact hdb.groupRefs a hmem
  · intro a hmem
    unfold Db.hasBundle
    rw [hb]
    rw [ha] at hmem
    exact hdb.bundleRefs a hmem

theorem Statement.keepsKeys_of_writes {s : Statement} {now : Int}
    (hgroups : Part.groups ∉ s.writes) (hbundles : Part.bundles ∉ s.writes)
    (hassignments : Part.assignments ∉ s.writes) : Tx.KeepsKeys (s.tx now) := by
  intro db answer db' h
  apply configKeys_of_same
  · exact Statement.keeps (profiles_unwritten (Op.statement s)) db answer db' h
  · exact Statement.keeps hgroups db answer db' h
  · exact Statement.keeps hbundles db answer db' h
  · exact Statement.keeps hassignments db answer db' h

theorem Statement.keepsKeys (s : Statement) (now : Int) : Tx.KeepsKeys (s.tx now) := by
  cases s with
  | createGroup id tenantId name selectorJson =>
      exact KeepsKeys.bind_ (KeepsKeys.insertGroup _) (fun _ => KeepsKeys.pure_ _)
  | updateGroup tenantId id name selectorJson =>
      exact KeepsKeys.updateGroup tenantId id name selectorJson
  | deleteGroup tenantId id => exact KeepsKeys.deleteGroup tenantId id
  | createBundle id tenantId name version sha256 sizeBytes signature format keyFingerprint =>
      exact KeepsKeys.bind_ (KeepsKeys.insertBundle _) (fun _ => KeepsKeys.pure_ _)
  | deleteBundle tenantId id => exact KeepsKeys.deleteBundle tenantId id
  | renameBundle tenantId from_ to_ inPlace moved =>
      exact KeepsKeys.rename tenantId from_ to_ inPlace moved
  | replaceSignature tenantId id signature =>
      exact KeepsKeys.replaceSignature tenantId id signature
  | assign tenantId groupId bundleId priority =>
      exact KeepsKeys.assign tenantId groupId bundleId priority now
  | unassign tenantId groupId bundleId => exact KeepsKeys.unassign tenantId groupId bundleId
  | applyConfig tenantId plan => exact KeepsKeys.apply tenantId plan now
  | _ =>
      apply Statement.keepsKeys_of_writes <;> simp [Statement.writes]

theorem Statement.configKeys_exec (s : Statement) {w : World} (hw : ConfigKeys w.db) :
    ConfigKeys (s.exec w).2.db := by
  rcases statement_exec s w with ⟨e, _, hexec⟩ | ⟨answer, db, htx, hexec⟩
  · rw [hexec]
    exact hw
  · rw [hexec]
    exact Statement.keepsKeys s w.now w.db answer db htx hw

theorem configKeys_exec (op : Op) {w : World} (hw : ConfigKeys w.db) :
    ConfigKeys (exec op w).2.db := by
  cases op with
  | statement s => exact s.configKeys_exec hw
  | storeGet tenantId id =>
      rw [exec_storeGet_world]
      exact hw
  | _ => exact hw

theorem configKeys_run {deps : Deps}
    {Allowed : Pool (service deps) -> Choice (service deps) -> Prop}
    {p q : Pool (service deps)} (hrun : Pool.Run Allowed p q) (hp : ConfigKeys p.world.db) :
    ConfigKeys q.world.db := by
  refine hrun.world_invariant (fun w : World => ConfigKeys w.db) ?_ ?_ hp
  · intro _ _ op _ _ hw
    exact configKeys_exec op hw
  · intro _ _ hw
    exact hw

end Server
end FleetServer
