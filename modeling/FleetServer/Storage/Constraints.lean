import FleetServer.Storage.Effects

/-!
# Keys and foreign keys

The constraints of the schema on tenants, groups, bundles and assignments.
Every transaction keeps them.
-/

namespace FleetServer
namespace Storage

open Table

variable {db : Db} {id : String} {tenantId : Int}

/-- Primary keys, unique indices and foreign keys. -/
structure ConfigKeys (db : Db) : Prop where
  tenantIds : (db.tenants.map Tenant.id).Nodup
  bundleIds : (db.bundles.map BundleRow.id).Nodup
  bundleVersions : (db.bundles.map fun b => (b.tenantId, b.name, b.version)).Nodup
  groupIds : (db.groups.map GroupRow.id).Nodup
  groupNames : (db.groups.map fun g => (g.tenantId, g.name)).Nodup
  pairs : (db.bundleAssignments.map fun a => (a.groupId, a.bundleId)).Nodup
  groupRefs : forall a, a ∈ db.bundleAssignments -> db.hasGroup a.groupId = true
  bundleRefs : forall a, a ∈ db.bundleAssignments -> db.hasBundle a.bundleId = true

namespace Db

theorem hasBundle_iff :
    db.hasBundle id = true <-> exists b, b ∈ db.bundles ∧ b.id = id := by
  unfold hasBundle
  rw [List.any_eq_true]
  simp only [beq_iff_eq]

theorem hasGroup_iff :
    db.hasGroup id = true <-> exists g, g ∈ db.groups ∧ g.id = id := by
  unfold hasGroup
  rw [List.any_eq_true]
  simp only [beq_iff_eq]

theorem bundleAssigned_iff :
    db.bundleAssigned id = true <-> exists a, a ∈ db.bundleAssignments ∧ a.bundleId = id := by
  unfold bundleAssigned
  rw [List.any_eq_true]
  simp only [beq_iff_eq]

theorem groupAssigned_iff :
    db.groupAssigned id = true <-> exists a, a ∈ db.bundleAssignments ∧ a.groupId = id := by
  unfold groupAssigned
  rw [List.any_eq_true]
  simp only [beq_iff_eq]

end Db

/-- A transaction after which the constraints hold if they held before. -/
def Tx.KeepsKeys {alpha : Type} (m : Tx alpha) : Prop :=
  Tx.Within (fun db db' => ConfigKeys db -> ConfigKeys db') m

namespace KeepsKeys

variable {alpha beta : Type}

theorem pure_ (a : alpha) : Tx.KeepsKeys (pure a : Tx alpha) :=
  Tx.within_pure (fun _ h => h) a

theorem bind_ {m : Tx alpha} {f : alpha -> Tx beta} (hm : Tx.KeepsKeys m)
    (hf : forall a, Tx.KeepsKeys (f a)) : Tx.KeepsKeys (m >>= f) :=
  Tx.within_bind (fun _ _ _ hab hbc h => hbc (hab h)) hm hf

theorem forEach {step : alpha -> Tx Unit} (hstep : forall x, Tx.KeepsKeys (step x))
    (xs : List alpha) : Tx.KeepsKeys (ConfigSourceRepo.forEach step xs) :=
  within_forEach (fun _ h => h) (fun _ _ _ hab hbc h => hbc (hab h)) (fun x _ => hstep x)

theorem allRows {step : alpha -> Tx Bool} (hstep : forall x, Tx.KeepsKeys (step x))
    (xs : List alpha) : Tx.KeepsKeys (BundlesRepo.allRows step xs) :=
  within_allRows (fun _ h => h) (fun _ _ _ hab hbc h => hbc (hab h)) (fun x _ => hstep x)

/-!
# Bundles
-/

theorem insertBundle (row : BundleRow) : Tx.KeepsKeys (BundlesRepo.insertRow row) := by
  intro db u db' h hdb
  rcases BundlesRepo.insertRow_eq_ok.mp h with ⟨⟨_, hid, hfree⟩, rfl⟩
  have hfresh : forall b, b ∈ db.bundles -> b.id ≠ row.id := by
    intro b hb hsame
    rw [Bool.eq_false_iff] at hid
    exact hid (Db.hasBundle_iff.mpr ⟨b, hb, hsame⟩)
  refine { hdb with
    bundleIds := nodup_append hdb.bundleIds hfresh
    bundleVersions := nodup_append hdb.bundleVersions (fun b hb hsame => ?_)
    bundleRefs := fun a ha => ?_ }
  · unfold BundlesRepo.versionFree at hfree
    rw [Bool.not_eq_true', List.any_eq_false] at hfree
    simp only [Prod.mk.injEq] at hsame
    exact hfree b hb (by simp [hsame, hfresh b hb])
  · rcases Db.hasBundle_iff.mp (hdb.bundleRefs a ha) with ⟨b, hb, hsame⟩
    exact Db.hasBundle_iff.mpr ⟨b, List.mem_append_left _ hb, hsame⟩

theorem isBundle_iff {b : BundleRow} :
    BundlesRepo.isBundle tenantId id b = true <-> b.tenantId = tenantId ∧ b.id = id := by
  simp [BundlesRepo.isBundle]

theorem bundleRefs_deleteWhere {assignments : List BundleAssignmentRow}
    (hrefs : forall a, a ∈ assignments -> db.hasBundle a.bundleId = true)
    (hno : db.bundles.any (BundlesRepo.isBundle tenantId id) = true ->
      forall a, a ∈ assignments -> a.bundleId ≠ id) :
    forall a, a ∈ assignments ->
      exists b, b ∈ deleteWhere (BundlesRepo.isBundle tenantId id) db.bundles ∧
        b.id = a.bundleId := by
  intro a ha
  rcases Db.hasBundle_iff.mp (hrefs a ha) with ⟨b, hb, hsame⟩
  refine ⟨b, mem_deleteWhere.mpr ⟨hb, ?_⟩, hsame⟩
  rw [Bool.eq_false_iff]
  intro his
  exact hno (List.any_eq_true.mpr ⟨b, hb, his⟩) a ha (hsame.symm.trans (isBundle_iff.mp his).2)

theorem deleteBundleRow (tenantId : Int) (id : String) :
    Tx.KeepsKeys (BundlesRepo.deleteRow tenantId id) := by
  intro db u db' h hdb
  rcases Tx.guarded_eq_ok.mp h with ⟨hok, heq⟩
  cases heq
  refine { hdb with
    bundleIds := nodup_deleteWhere hdb.bundleIds _
    bundleVersions := nodup_deleteWhere hdb.bundleVersions _
    bundleRefs := fun a ha => ?_ }
  refine Db.hasBundle_iff.mpr
    (bundleRefs_deleteWhere hdb.bundleRefs (fun hany a ha hsame => ?_) a ha)
  rw [hany, Bool.true_and, Bool.not_eq_true', Bool.eq_false_iff] at hok
  exact hok (Db.bundleAssigned_iff.mpr ⟨a, ha, hsame⟩)

theorem deleteBundle (tenantId : Int) (id : String) :
    Tx.KeepsKeys (BundlesRepo.delete tenantId id) := by
  intro db found db' h hdb
  unfold BundlesRepo.delete at h
  simp only at h
  split at h
  · cases h
  · rename_i hok
    cases h
    refine { hdb with
      bundleIds := nodup_deleteWhere hdb.bundleIds _
      bundleVersions := nodup_deleteWhere hdb.bundleVersions _
      pairs := nodup_deleteWhere hdb.pairs _
      groupRefs := fun a ha => hdb.groupRefs a (mem_of_mem_deleteWhere ha)
      bundleRefs := fun a ha => ?_ }
    refine Db.hasBundle_iff.mpr (bundleRefs_deleteWhere
      (fun a ha => hdb.bundleRefs a (mem_of_mem_deleteWhere ha)) (fun hany a ha hsame => ?_) a ha)
    rw [hany, Bool.true_and] at hok
    exact hok (Db.bundleAssigned_iff.mpr ⟨a, ha, hsame⟩)

theorem mem_map_updateWhere {Row Key : Type} {key : Row -> Key} {p : Row -> Bool}
    {f : Row -> Row} (hf : forall r, key (f r) = key r) {rows : List Row} {k : Key} :
    (exists r, r ∈ updateWhere p f rows ∧ key r = k) <-> exists r, r ∈ rows ∧ key r = k := by
  rw [← List.mem_map, ← List.mem_map, map_updateWhere_eq hf rows]

theorem replaceSignature (tenantId : Int) (id signature : String) :
    Tx.KeepsKeys (BundlesRepo.replaceSignature tenantId id signature) := by
  intro db answer db' h hdb
  cases Tx.total_eq_ok.mp h
  have hkey : forall {Key : Type} (key : BundleRow -> Key),
      (forall b : BundleRow, key { b with signature := signature } = key b) ->
      (updateWhere (BundlesRepo.isBundle tenantId id)
        (fun b : BundleRow => { b with signature := signature }) db.bundles).map key =
        db.bundles.map key :=
    fun _ hkey => map_updateWhere_eq hkey db.bundles
  constructor
  · exact hdb.tenantIds
  · show (List.map BundleRow.id _).Nodup
    rw [hkey BundleRow.id (fun _ => rfl)]
    exact hdb.bundleIds
  · show (List.map (fun b : BundleRow => (b.tenantId, b.name, b.version)) _).Nodup
    rw [hkey _ (fun _ => rfl)]
    exact hdb.bundleVersions
  · exact hdb.groupIds
  · exact hdb.groupNames
  · exact hdb.pairs
  · exact hdb.groupRefs
  · intro a ha
    have hid : forall b : BundleRow,
        ({ b with signature := signature } : BundleRow).id = b.id := fun _ => rfl
    apply Db.hasBundle_iff.mpr
    exact (mem_map_updateWhere hid).mpr (Db.hasBundle_iff.mp (hdb.bundleRefs a ha))

theorem renameRow (tenantId : Int) (from_ to_ : String) (r : RenamedInPlace) :
    Tx.KeepsKeys (BundlesRepo.renameRow tenantId from_ to_ r) := by
  intro db found db' h hdb
  unfold BundlesRepo.renameRow at h
  rcases Tx.guarded_eq_ok.mp h with ⟨hfree, heq⟩
  cases heq
  have hid : forall b : BundleRow,
      ({ b with name := to_, signature := r.signature } : BundleRow).id = b.id := fun _ => rfl
  refine { hdb with
    bundleIds := ?_
    bundleVersions := nodup_updateWhere hdb.bundleVersions ?_ ?_
    bundleRefs := ?_ }
  · rw [map_updateWhere_eq hid]
    exact hdb.bundleIds
  · -- Only one row has the id.
    intro b c hb hc hpb hpc _
    rw [Bool.and_eq_true] at hpb hpc
    have hsame : b = c := eq_of_key_eq hdb.bundleIds hb hc
      ((isBundle_iff.mp hpb.1).2.trans (isBundle_iff.mp hpc.1).2.symm)
    rw [hsame]
  · intro b c hb hc hpb hpc hsame
    have hversion := List.all_eq_true.mp hfree b hb
    beta_reduce at hversion
    rw [hpb, Bool.not_true, Bool.false_or] at hversion
    unfold BundlesRepo.versionFree at hversion
    rw [Bool.not_eq_true', List.any_eq_false] at hversion
    simp only [Prod.mk.injEq] at hsame
    have hne : c.id ≠ b.id := by
      intro hids
      rw [eq_of_key_eq hdb.bundleIds hc hb hids, hpb] at hpc
      cases hpc
    rw [Bool.and_eq_true] at hpb
    have htenant := (isBundle_iff.mp hpb.1).1
    apply hversion c hc
    simp [← hsame.1, ← hsame.2.1, ← hsame.2.2, htenant, hne]
  · intro a ha
    apply Db.hasBundle_iff.mpr
    exact (mem_map_updateWhere hid).mpr (Db.hasBundle_iff.mp (hdb.bundleRefs a ha))

theorem repoint (tenantId : Int) (oldId newId : String) :
    Tx.KeepsKeys (BundlesRepo.repoint tenantId oldId newId) := by
  intro db u db' h hdb
  unfold BundlesRepo.repoint at h
  rcases Tx.guarded_eq_ok.mp h with ⟨hok, heq⟩
  cases heq
  rw [Bool.and_eq_true] at hok
  rcases hok with ⟨hnew, hfree⟩
  refine { hdb with
    pairs := nodup_updateWhere hdb.pairs ?_ ?_
    groupRefs := fun a ha => ?_
    bundleRefs := fun a ha => ?_ }
  · intro a b _ _ ha hb hsame
    rw [Bool.and_eq_true, beq_iff_eq, beq_iff_eq] at ha hb
    simp only [Prod.mk.injEq, and_true] at hsame
    rw [hsame, ha.2, hb.2]
  · intro a b ha hb hpa _ hsame
    have hother := List.all_eq_true.mp hfree a ha
    beta_reduce at hother
    rw [hpa, Bool.not_true, Bool.false_or, Bool.not_eq_true', List.any_eq_false] at hother
    simp only [Prod.mk.injEq] at hsame
    apply hother b hb
    simp [← hsame.1, ← hsame.2]
  · rcases mem_updateWhere.mp ha with ⟨a', ha', rfl⟩
    split <;> exact hdb.groupRefs a' ha'
  · rcases mem_updateWhere.mp ha with ⟨a', ha', rfl⟩
    split
    · exact hnew
    · exact hdb.bundleRefs a' ha'

theorem moveRow (tenantId : Int) (from_ to_ : String) (r : MovedBundle) :
    Tx.KeepsKeys (BundlesRepo.moveRow tenantId from_ to_ r) := by
  intro db found db' h hdb
  unfold BundlesRepo.moveRow at h
  split at h
  · cases h
    exact hdb
  · exact bind_ (insertBundle _) (fun _ => bind_ (repoint tenantId _ _) (fun _ =>
      bind_ (deleteBundleRow tenantId _) (fun _ => pure_ true))) db found db' h hdb

theorem bumpInside (tenantId : Int) : Tx.KeepsKeys (Storage.bumpInside tenantId) := by
  intro db u db' h hdb
  have heq := Tx.total_eq_ok.mp h
  cases heq
  have hid : forall t : Tenant,
      ({ t with configVersion := t.configVersion + 1 } : Tenant).id = t.id := fun _ => rfl
  refine { hdb with tenantIds := ?_ }
  rw [map_updateWhere_eq hid]
  exact hdb.tenantIds

theorem bumpConfigVersion (tenantId : Int) :
    Tx.KeepsKeys (TenantRepo.bumpConfigVersion tenantId) := by
  intro db version db' h hdb
  unfold TenantRepo.bumpConfigVersion at h
  split at h
  · cases h
  · cases h
    exact bumpInside tenantId db () _ rfl hdb

theorem finishRename (tenantId : Int) (from_ : String) :
    Tx.KeepsKeys (BundlesRepo.finishRename tenantId from_) := by
  intro db outcome db' h hdb
  unfold BundlesRepo.finishRename at h
  split at h
  · cases h
    exact hdb
  · exact bind_ (bumpInside tenantId) (fun _ => pure_ _) db outcome db' h hdb

theorem renameBody (tenantId : Int) (from_ to_ : String) (inPlace : List RenamedInPlace)
    (moved : List MovedBundle) :
    Tx.KeepsKeys (BundlesRepo.renameBody tenantId from_ to_ inPlace moved) := by
  intro db outcome db' h hdb
  unfold BundlesRepo.renameBody at h
  split at h
  · cases h
    exact hdb
  · refine bind_ (allRows (renameRow tenantId from_ to_) inPlace) (fun ok => ?_)
      db outcome db' h hdb
    cases ok with
    | false => exact pure_ _
    | true =>
        refine bind_ (allRows (moveRow tenantId from_ to_) moved) (fun ok => ?_)
        cases ok with
        | false => exact pure_ _
        | true => exact finishRename tenantId from_

theorem rename (tenantId : Int) (from_ to_ : String) (inPlace : List RenamedInPlace)
    (moved : List MovedBundle) :
    Tx.KeepsKeys (BundlesRepo.rename tenantId from_ to_ inPlace moved) := by
  intro db outcome db' h hdb
  unfold BundlesRepo.rename at h
  split at h
  · cases h
  · rename_i db'' hbody
    cases h
    exact renameBody tenantId from_ to_ inPlace moved db _ _ hbody hdb
  · cases h
    exact hdb

/-!
# Groups
-/

theorem isGroup_iff {g : GroupRow} :
    GroupsRepo.isGroup tenantId id g = true <-> g.tenantId = tenantId ∧ g.id = id := by
  simp [GroupsRepo.isGroup]

theorem insertGroup (row : GroupRow) : Tx.KeepsKeys (GroupsRepo.insertRow row) := by
  intro db u db' h hdb
  unfold GroupsRepo.insertRow at h
  rcases Tx.guarded_eq_ok.mp h with ⟨hok, heq⟩
  cases heq
  rw [Bool.and_eq_true, Bool.and_eq_true, Bool.not_eq_true', Bool.eq_false_iff] at hok
  rcases hok with ⟨⟨_, hid⟩, hfree⟩
  have hfresh : forall g, g ∈ db.groups -> g.id ≠ row.id :=
    fun g hg hsame => hid (Db.hasGroup_iff.mpr ⟨g, hg, hsame⟩)
  refine { hdb with
    groupIds := nodup_append hdb.groupIds hfresh
    groupNames := nodup_append hdb.groupNames (fun g hg hsame => ?_)
    groupRefs := fun a ha => ?_ }
  · unfold GroupsRepo.nameFree at hfree
    rw [Bool.not_eq_true', List.any_eq_false] at hfree
    simp only [Prod.mk.injEq] at hsame
    apply hfree g hg
    simp [hsame, hfresh g hg]
  · rcases Db.hasGroup_iff.mp (hdb.groupRefs a ha) with ⟨g, hg, hsame⟩
    exact Db.hasGroup_iff.mpr ⟨g, List.mem_append_left _ hg, hsame⟩

theorem updateGroup (tenantId : Int) (id : String) (name selectorJson : Option String) :
    Tx.KeepsKeys (GroupsRepo.update tenantId id name selectorJson) := by
  intro db found db' h hdb
  unfold GroupsRepo.update at h
  rcases Tx.guarded_eq_ok.mp h with ⟨hok, heq⟩
  cases heq
  have hid : forall g : GroupRow, (GroupsRepo.updated name selectorJson g).id = g.id :=
    fun _ => rfl
  refine { hdb with
    groupIds := ?_
    groupNames := nodup_updateWhere hdb.groupNames ?_ ?_
    groupRefs := ?_ }
  · rw [map_updateWhere_eq hid]
    exact hdb.groupIds
  · intro g k hg hk hpg hpk _
    have hsame : g = k := eq_of_key_eq hdb.groupIds hg hk
      ((isGroup_iff.mp hpg).2.trans (isGroup_iff.mp hpk).2.symm)
    rw [hsame]
  · intro g k hg hk hpg hpk hsame
    have hne : k ≠ g := by
      intro heq
      rw [heq, hpg] at hpk
      cases hpk
    cases name with
    | none =>
        exact hne (eq_of_key_eq hdb.groupNames hk hg hsame.symm)
    | some n =>
        have hany : db.groups.any (GroupsRepo.isGroup tenantId id) = true :=
          List.any_eq_true.mpr ⟨g, hg, hpg⟩
        rw [hany, Bool.not_true, Bool.false_or, Option.all_some] at hok
        unfold GroupsRepo.nameFree at hok
        rw [Bool.not_eq_true', List.any_eq_false] at hok
        simp only [Prod.mk.injEq] at hsame
        rcases isGroup_iff.mp hpg with ⟨htenant, hgid⟩
        have hids : k.id ≠ id := fun heq =>
          hne (eq_of_key_eq hdb.groupIds hk hg (heq.trans hgid.symm))
        apply hok k hk
        have hname : n = k.name := hsame.2
        have hkt : g.tenantId = k.tenantId := hsame.1
        simp [← hname, ← hkt, htenant, hids]
  · intro a ha
    apply Db.hasGroup_iff.mpr
    exact (mem_map_updateWhere hid).mpr (Db.hasGroup_iff.mp (hdb.groupRefs a ha))

theorem deleteGroup (tenantId : Int) (id : String) :
    Tx.KeepsKeys (GroupsRepo.delete tenantId id) := by
  intro db found db' h hdb
  unfold GroupsRepo.delete at h
  rcases Tx.guarded_eq_ok.mp h with ⟨hok, heq⟩
  cases heq
  refine { hdb with
    groupIds := nodup_deleteWhere hdb.groupIds _
    groupNames := nodup_deleteWhere hdb.groupNames _
    groupRefs := fun a ha => ?_ }
  rcases Db.hasGroup_iff.mp (hdb.groupRefs a ha) with ⟨g, hg, hsame⟩
  refine Db.hasGroup_iff.mpr ⟨g, mem_deleteWhere.mpr ⟨hg, ?_⟩, hsame⟩
  rw [Bool.eq_false_iff]
  intro his
  have hany : db.groups.any (GroupsRepo.isGroup tenantId id) = true :=
    List.any_eq_true.mpr ⟨g, hg, his⟩
  rw [hany, Bool.true_and, Bool.not_eq_true', Bool.eq_false_iff] at hok
  exact hok (Db.groupAssigned_iff.mpr ⟨a, ha, hsame.symm.trans (isGroup_iff.mp his).2⟩)

theorem putGroup (tenantId now : Int) (g : PlannedGroup) :
    Tx.KeepsKeys (ConfigSourceRepo.putGroup tenantId now g) := by
  unfold ConfigSourceRepo.putGroup
  split
  · exact insertGroup _
  · exact bind_ (updateGroup tenantId g.id _ _) (fun _ => pure_ ())

/-!
# Assignments
-/

theorem deleteAssignments (tenantId : Int) :
    Tx.KeepsKeys (ConfigSourceRepo.deleteAssignments tenantId) := by
  intro db u db' h hdb
  have heq := Tx.total_eq_ok.mp h
  cases heq
  exact { hdb with
    pairs := nodup_deleteWhere hdb.pairs _
    groupRefs := fun a ha => hdb.groupRefs a (mem_of_mem_deleteWhere ha)
    bundleRefs := fun a ha => hdb.bundleRefs a (mem_of_mem_deleteWhere ha) }

theorem unassign (tenantId : Int) (groupId bundleId : String) :
    Tx.KeepsKeys (BundleAssignmentsRepo.unassign tenantId groupId bundleId) := by
  intro db found db' h hdb
  have heq := Tx.total_eq_ok.mp h
  cases heq
  exact { hdb with
    pairs := nodup_deleteWhere hdb.pairs _
    groupRefs := fun a ha => hdb.groupRefs a (mem_of_mem_deleteWhere ha)
    bundleRefs := fun a ha => hdb.bundleRefs a (mem_of_mem_deleteWhere ha) }

theorem configKeys_assigned (hdb : ConfigKeys db) {a : BundleAssignmentRow}
    (hgroup : db.hasGroup a.groupId = true) (hbundle : db.hasBundle a.bundleId = true)
    (hfree : forall r, r ∈ db.bundleAssignments ->
      ¬(r.groupId = a.groupId ∧ r.bundleId = a.bundleId)) :
    ConfigKeys { db with bundleAssignments := db.bundleAssignments ++ [a] } := by
  refine { hdb with
    pairs := nodup_append hdb.pairs (fun r hr hsame => ?_)
    groupRefs := fun r hr => ?_
    bundleRefs := fun r hr => ?_ }
  · rw [Prod.mk.injEq] at hsame
    exact hfree r hr hsame
  · rcases List.mem_append.mp hr with hold | hnew
    · exact hdb.groupRefs r hold
    · rw [List.mem_singleton.mp hnew]
      exact hgroup
  · rcases List.mem_append.mp hr with hold | hnew
    · exact hdb.bundleRefs r hold
    · rw [List.mem_singleton.mp hnew]
      exact hbundle

theorem insertAssignment (tenantId now : Int) (a : String × String × Int) :
    Tx.KeepsKeys (ConfigSourceRepo.insertAssignment tenantId now a) := by
  intro db u db' h hdb
  unfold ConfigSourceRepo.insertAssignment at h
  rcases Tx.guarded_eq_ok.mp h with ⟨hok, heq⟩
  cases heq
  simp only [Bool.and_eq_true, Bool.not_eq_true', List.any_eq_false, beq_iff_eq] at hok
  exact configKeys_assigned hdb hok.1.1.2 hok.1.2 hok.2

theorem assign (tenantId : Int) (groupId bundleId : String) (priority now : Int) :
    Tx.KeepsKeys
      (BundleAssignmentsRepo.assign tenantId groupId bundleId priority now) := by
  intro db u db' h hdb
  unfold BundleAssignmentsRepo.assign at h
  rcases Tx.guarded_eq_ok.mp h with ⟨hok, heq⟩
  cases heq
  rw [Bool.and_eq_true, Bool.and_eq_true] at hok
  unfold Table.upsert
  split
  · have hpair : forall a : BundleAssignmentRow,
        (({ a with priority := priority } : BundleAssignmentRow).groupId,
          ({ a with priority := priority } : BundleAssignmentRow).bundleId) =
          (a.groupId, a.bundleId) := fun _ => rfl
    refine { hdb with
      pairs := ?_
      groupRefs := fun a ha => ?_
      bundleRefs := fun a ha => ?_ }
    · rw [map_updateWhere_eq hpair]
      exact hdb.pairs
    · rcases mem_updateWhere.mp ha with ⟨a', ha', rfl⟩
      split <;> exact hdb.groupRefs a' ha'
    · rcases mem_updateWhere.mp ha with ⟨a', ha', rfl⟩
      split <;> exact hdb.bundleRefs a' ha'
  · rename_i hany
    rw [Bool.not_eq_true, List.any_eq_false] at hany
    refine configKeys_assigned hdb hok.1.2 hok.2 (fun r hr hsame => hany r hr ?_)
    simp [hsame]

/-!
# Replacing a configuration
-/

theorem replaceAll (tenantId : Int) (plan : ConfigPlan) (now : Int) :
    Tx.KeepsKeys (ConfigSourceRepo.replaceAll tenantId plan now) := by
  unfold ConfigSourceRepo.replaceAll
  refine bind_ (deleteAssignments tenantId) (fun _ => ?_)
  refine bind_ (forEach (deleteBundleRow tenantId) _) (fun _ => ?_)
  refine bind_ (forEach (fun b => insertBundle _) _) (fun _ => ?_)
  refine bind_ (forEach (fun id => bind_ (deleteGroup tenantId id) (fun _ => pure_ ())) _)
    (fun _ => ?_)
  refine bind_ (forEach (putGroup tenantId now) _) (fun _ => ?_)
  refine bind_ (forEach (insertAssignment tenantId now) _) (fun _ => ?_)
  exact bumpInside tenantId

theorem apply (tenantId : Int) (plan : ConfigPlan) (now : Int) :
    Tx.KeepsKeys (ConfigSourceRepo.apply tenantId plan now) := by
  intro db outcome db' h hdb
  unfold ConfigSourceRepo.apply at h
  split at h
  · exact bind_ (replaceAll tenantId plan now) (fun _ => pure_ _) db outcome db' h hdb
  · cases h
    exact hdb

end KeepsKeys

end Storage
end FleetServer
