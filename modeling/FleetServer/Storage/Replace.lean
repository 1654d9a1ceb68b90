import FleetServer.Storage.Effects

/-!
# A replaced configuration

What the tables of a tenant hold once a plan was applied.
-/

namespace FleetServer
namespace Storage

open Table

variable {db db' : Db} {now tenantId : Int} {plan : ConfigPlan} {rows : List GroupRow}
variable {row : GroupRow} {gs : List PlannedGroup}

theorem forEach_eq_ok {alpha beta : Type} {step : alpha -> Tx Unit} (part : Db -> beta)
    (f : beta -> alpha -> beta)
    (hstep : forall x db u db', step x db = Except.ok (u, db') -> part db' = f (part db) x)
    {xs : List alpha} {u : Unit} (h : ConfigSourceRepo.forEach step xs db = Except.ok (u, db')) :
    part db' = xs.foldl f (part db) := by
  induction xs generalizing db with
  | nil =>
      rcases Tx.pure_eq_ok.mp h with ⟨_, rfl⟩
      rfl
  | cons x xs ih =>
      rcases Tx.bind_eq_ok.mp h with ⟨_, mid, hx, hxs⟩
      rw [List.foldl_cons, ← hstep x db _ mid hx]
      exact ih hxs

namespace ConfigSourceRepo

def plannedAssignment (tenantId now : Int) (a : String × String × Int) :
    BundleAssignmentRow :=
  { tenantId := tenantId, groupId := a.1, bundleId := a.2.1, priority := a.2.2,
    assignedAt := now }

def plannedGroupRow (tenantId now : Int) (g : PlannedGroup) : GroupRow :=
  { id := g.id, tenantId := tenantId, name := g.name, selectorJson := g.selectorJson,
    createdAt := now }

def withGroup (tenantId now : Int) (groups : List GroupRow) (g : PlannedGroup) :
    List GroupRow :=
  if g.create then groups ++ [plannedGroupRow tenantId now g]
  else
    updateWhere (GroupsRepo.isGroup tenantId g.id)
      (GroupsRepo.updated (some g.name) (some g.selectorJson)) groups

def bundlesAfter (tenantId : Int) (plan : ConfigPlan) (now : Int)
    (bundles : List BundleRow) : List BundleRow :=
  deleteWhere (fun b => plan.deleteBundleIds.any fun id => BundlesRepo.isBundle tenantId id b)
    bundles ++ plan.insertBundles.map (plannedRow tenantId now)

def groupsAfter (tenantId : Int) (plan : ConfigPlan) (now : Int) (groups : List GroupRow) :
    List GroupRow :=
  plan.groups.foldl (withGroup tenantId now)
    (deleteWhere (fun g => plan.deleteGroupIds.any fun id => GroupsRepo.isGroup tenantId id g)
      groups)

def assignmentsAfter (tenantId : Int) (plan : ConfigPlan) (now : Int)
    (assignments : List BundleAssignmentRow) : List BundleAssignmentRow :=
  deleteWhere (fun a => a.tenantId == tenantId) assignments ++
    plan.assignments.map (plannedAssignment tenantId now)

theorem deleteRow_bundles (tenantId : Int) (id : String) (db : Db) (u : Unit) (db' : Db)
    (h : BundlesRepo.deleteRow tenantId id db = Except.ok (u, db')) :
    db'.bundles = deleteWhere (BundlesRepo.isBundle tenantId id) db.bundles := by
  rcases Tx.guarded_eq_ok.mp h with ⟨_, heq⟩
  cases heq
  rfl

theorem insertRow_bundles (row : BundleRow) (db : Db) (u : Unit) (db' : Db)
    (h : BundlesRepo.insertRow row db = Except.ok (u, db')) :
    db'.bundles = db.bundles ++ [row] := by
  rcases BundlesRepo.insertRow_eq_ok.mp h with ⟨_, rfl⟩
  rfl

theorem deleteGroup_groups (tenantId : Int) (id : String) (db : Db) (u : Unit) (db' : Db)
    (h : deleteGroup tenantId id db = Except.ok (u, db')) :
    db'.groups = deleteWhere (GroupsRepo.isGroup tenantId id) db.groups := by
  rcases Tx.bind_eq_ok.mp h with ⟨_, mid, hdelete, hpure⟩
  rcases Tx.pure_eq_ok.mp hpure with ⟨_, rfl⟩
  rcases Tx.guarded_eq_ok.mp hdelete with ⟨_, heq⟩
  cases heq
  rfl

theorem putGroup_groups (tenantId now : Int) (g : PlannedGroup) (db : Db) (u : Unit)
    (db' : Db) (h : putGroup tenantId now g db = Except.ok (u, db')) :
    db'.groups = withGroup tenantId now db.groups g := by
  unfold putGroup at h
  unfold withGroup
  split at h
  · rename_i hcreate
    rw [if_pos hcreate]
    rcases Tx.guarded_eq_ok.mp h with ⟨_, heq⟩
    cases heq
    rfl
  · rename_i hcreate
    rw [if_neg hcreate]
    rcases Tx.bind_eq_ok.mp h with ⟨_, mid, hupdate, hpure⟩
    rcases Tx.pure_eq_ok.mp hpure with ⟨_, rfl⟩
    rcases Tx.guarded_eq_ok.mp hupdate with ⟨_, heq⟩
    cases heq
    rfl

theorem insertAssignment_assignments (tenantId now : Int) (a : String × String × Int)
    (db : Db) (u : Unit) (db' : Db)
    (h : insertAssignment tenantId now a db = Except.ok (u, db')) :
    db'.bundleAssignments =
      db.bundleAssignments ++ [plannedAssignment tenantId now a] := by
  rcases Tx.guarded_eq_ok.mp h with ⟨_, heq⟩
  cases heq
  rfl

theorem replaceAll_eq_ok {u : Unit} (h : replaceAll tenantId plan now db = Except.ok (u, db')) :
    db'.bundles = bundlesAfter tenantId plan now db.bundles ∧
      db'.groups = groupsAfter tenantId plan now db.groups ∧
      db'.bundleAssignments = assignmentsAfter tenantId plan now db.bundleAssignments := by
  unfold replaceAll at h
  rcases Tx.bind_eq_ok.mp h with ⟨_, db1, h1, h⟩
  rcases Tx.bind_eq_ok.mp h with ⟨_, db2, h2, h⟩
  rcases Tx.bind_eq_ok.mp h with ⟨_, db3, h3, h⟩
  rcases Tx.bind_eq_ok.mp h with ⟨_, db4, h4, h⟩
  rcases Tx.bind_eq_ok.mp h with ⟨_, db5, h5, h⟩
  rcases Tx.bind_eq_ok.mp h with ⟨_, db6, h6, h7⟩
  -- What each batch does to the table it is about.
  have hassignments1 : db1.bundleAssignments =
      deleteWhere (fun a => a.tenantId == tenantId) db.bundleAssignments := by
    have heq := Tx.total_eq_ok.mp h1
    cases heq
    rfl
  have hbundles2 := forEach_eq_ok Db.bundles
    (fun rows id => deleteWhere (BundlesRepo.isBundle tenantId id) rows)
    (deleteRow_bundles tenantId) h2
  have hbundles3 := forEach_eq_ok Db.bundles
    (fun rows b => rows ++ [plannedRow tenantId now b])
    (fun b => insertRow_bundles (plannedRow tenantId now b)) h3
  have hgroups4 := forEach_eq_ok Db.groups
    (fun rows id => deleteWhere (GroupsRepo.isGroup tenantId id) rows)
    (deleteGroup_groups tenantId) h4
  have hgroups5 := forEach_eq_ok Db.groups (withGroup tenantId now)
    (putGroup_groups tenantId now) h5
  have hassignments6 := forEach_eq_ok Db.bundleAssignments
    (fun rows a => rows ++ [plannedAssignment tenantId now a])
    (insertAssignment_assignments tenantId now) h6
  rw [foldl_deleteWhere] at hbundles2 hgroups4
  rw [foldl_append] at hbundles3 hassignments6
  refine ⟨?_, ?_, ?_⟩
  · have hbefore : db.Same Part.bundles db1 :=
      Keeps.deleteAssignments tenantId (by decide) db _ db1 h1
    have hk4 : db3.Same Part.bundles db4 :=
      Keeps.forEach (fun id => Keeps.deleteGroup_ tenantId id (by decide)) _ db3 _ db4 h4
    have hk5 : db4.Same Part.bundles db5 :=
      Keeps.forEach (fun g => Keeps.putGroup tenantId now g (by decide)) _ db4 _ db5 h5
    have hk6 : db5.Same Part.bundles db6 :=
      Keeps.forEach (fun a => Keeps.insertAssignment tenantId now a (by decide)) _ db5 _ db6 h6
    have hk7 : db6.Same Part.bundles db' := Keeps.bumpInside tenantId (by decide) db6 _ db' h7
    have hafter : db'.bundles = db3.bundles := (hk7.trans hk6).trans (hk5.trans hk4)
    have hbefore : db1.bundles = db.bundles := hbefore
    unfold bundlesAfter
    rw [hafter, hbundles3, hbundles2, hbefore]
  · have hk1 : db.Same Part.groups db1 :=
      Keeps.deleteAssignments tenantId (by decide) db _ db1 h1
    have hk2 : db1.Same Part.groups db2 :=
      Keeps.forEach (fun id => Keeps.deleteBundleRow tenantId id (by decide)) _ db1 _ db2 h2
    have hk3 : db2.Same Part.groups db3 :=
      Keeps.forEach (fun b => Keeps.insertBundle (plannedRow tenantId now b) (by decide)) _
        db2 _ db3 h3
    have hk6 : db5.Same Part.groups db6 :=
      Keeps.forEach (fun a => Keeps.insertAssignment tenantId now a (by decide)) _ db5 _ db6 h6
    have hk7 : db6.Same Part.groups db' := Keeps.bumpInside tenantId (by decide) db6 _ db' h7
    have hbefore : db3.groups = db.groups := (hk3.trans hk2).trans hk1
    have hafter : db'.groups = db5.groups := hk7.trans hk6
    unfold groupsAfter
    rw [hafter, hgroups5, hgroups4, hbefore]
  · have hk2 : db1.Same Part.assignments db2 :=
      Keeps.forEach (fun id => Keeps.deleteBundleRow tenantId id (by decide)) _ db1 _ db2 h2
    have hk3 : db2.Same Part.assignments db3 :=
      Keeps.forEach (fun b => Keeps.insertBundle (plannedRow tenantId now b) (by decide)) _
        db2 _ db3 h3
    have hk4 : db3.Same Part.assignments db4 :=
      Keeps.forEach (fun id => Keeps.deleteGroup_ tenantId id (by decide)) _ db3 _ db4 h4
    have hk5 : db4.Same Part.assignments db5 :=
      Keeps.forEach (fun g => Keeps.putGroup tenantId now g (by decide)) _ db4 _ db5 h5
    have hk7 : db6.Same Part.assignments db' :=
      Keeps.bumpInside tenantId (by decide) db6 _ db' h7
    have hmid : db5.bundleAssignments = db1.bundleAssignments :=
      (hk5.trans hk4).trans (hk3.trans hk2)
    have hafter : db'.bundleAssignments = db6.bundleAssignments := hk7
    unfold assignmentsAfter
    rw [hafter, hassignments6, hmid, hassignments1]

/-- What a successful plan leaves, and that nothing had been added or removed
since it was made. -/
theorem apply_eq_ok (h : apply tenantId plan now db = Except.ok (ApplyOutcome.applied, db')) :
    (sameSet (bundleIds tenantId db) plan.expectedBundleIds = true ∧
        sameSet (groupIds tenantId db) plan.expectedGroupIds = true) ∧
      db'.bundles = bundlesAfter tenantId plan now db.bundles ∧
      db'.groups = groupsAfter tenantId plan now db.groups ∧
      db'.bundleAssignments = assignmentsAfter tenantId plan now db.bundleAssignments := by
  unfold apply at h
  split at h
  · rename_i hsame
    rw [Bool.and_eq_true] at hsame
    rcases Tx.bind_eq_ok.mp h with ⟨_, mid, hreplace, hpure⟩
    rcases Tx.pure_eq_ok.mp hpure with ⟨_, rfl⟩
    exact ⟨hsame, replaceAll_eq_ok hreplace⟩
  · cases h

/-- A plan made for other rows changes nothing. -/
theorem apply_eq_changed (h : apply tenantId plan now db = Except.ok (ApplyOutcome.changed, db')) :
    db' = db := by
  unfold apply at h
  split at h
  · rcases Tx.bind_eq_ok.mp h with ⟨_, mid, _, hpure⟩
    cases (Tx.pure_eq_ok.mp hpure).1
  · cases h
    rfl

/-!
# The groups of a plan
-/

def IsPlanned (tenantId : Int) (g : PlannedGroup) (row : GroupRow) : Prop :=
  row.tenantId = tenantId ∧ row.id = g.id ∧ row.name = g.name ∧
    row.selectorJson = g.selectorJson

theorem mem_withGroup {g : PlannedGroup} (h : row ∈ withGroup tenantId now rows g) :
    IsPlanned tenantId g row ∨
      (row ∈ rows ∧ (g.create = false -> GroupsRepo.isGroup tenantId g.id row = false)) := by
  unfold withGroup at h
  split at h
  · rename_i hcreate
    rcases List.mem_append.mp h with h | h
    · exact Or.inr ⟨h, fun hno => absurd (hcreate.symm.trans hno) (by decide)⟩
    · rw [List.mem_singleton.mp h]
      exact Or.inl ⟨rfl, rfl, rfl, rfl⟩
  · rcases mem_updateWhere.mp h with ⟨row', hrow', rfl⟩
    cases his : GroupsRepo.isGroup tenantId g.id row' with
    | true =>
        rw [if_pos rfl]
        unfold GroupsRepo.isGroup at his
        rw [Bool.and_eq_true, beq_iff_eq, beq_iff_eq] at his
        exact Or.inl ⟨his.1, his.2, rfl, rfl⟩
    | false =>
        rw [if_neg Bool.false_ne_true]
        exact Or.inr ⟨hrow', fun _ => his⟩

theorem mem_foldl_withGroup (h : row ∈ gs.foldl (withGroup tenantId now) rows) :
    (exists g, g ∈ gs ∧ IsPlanned tenantId g row) ∨
      (row ∈ rows ∧ forall g, g ∈ gs -> g.create = false ->
        GroupsRepo.isGroup tenantId g.id row = false) := by
  induction gs generalizing rows with
  | nil => exact Or.inr ⟨h, fun _ hg => absurd hg List.not_mem_nil⟩
  | cons g gs ih =>
      rcases ih h with ⟨g', hg', hplanned⟩ | ⟨hrow, hothers⟩
      · exact Or.inl ⟨g', List.mem_cons_of_mem g hg', hplanned⟩
      · rcases mem_withGroup hrow with hplanned | ⟨hrow, hno⟩
        · exact Or.inl ⟨g, List.mem_cons_self, hplanned⟩
        · refine Or.inr ⟨hrow, ?_⟩
          intro g' hg'
          rcases List.mem_cons.mp hg' with rfl | hg'
          · exact hno
          · exact hothers g' hg'

theorem id_of_mem_foldl_withGroup (h : row ∈ gs.foldl (withGroup tenantId now) rows) :
    (exists row', row' ∈ rows ∧ row'.id = row.id) ∨
      exists g, g ∈ gs ∧ g.create = true ∧ row.id = g.id := by
  induction gs generalizing rows with
  | nil => exact Or.inl ⟨row, h, rfl⟩
  | cons g gs ih =>
      rcases ih h with ⟨row', hrow', hid⟩ | ⟨g', hg', hcreate, hid⟩
      · unfold withGroup at hrow'
        split at hrow'
        · rename_i hcreate
          rcases List.mem_append.mp hrow' with hrow' | hrow'
          · exact Or.inl ⟨row', hrow', hid⟩
          · rw [List.mem_singleton.mp hrow'] at hid
            exact Or.inr ⟨g, List.mem_cons_self, hcreate, hid.symm⟩
        · rcases mem_updateWhere.mp hrow' with ⟨row0, hrow0, rfl⟩
          refine Or.inl ⟨row0, hrow0, ?_⟩
          rw [← hid]
          split <;> rfl
      · exact Or.inr ⟨g', List.mem_cons_of_mem g hg', hcreate, hid⟩

theorem mem_foldl_withGroup_of_same (hrow : row ∈ rows)
    (hsame : forall g, g ∈ gs -> g.create = false ->
      GroupsRepo.isGroup tenantId g.id row = true ->
        g.name = row.name ∧ g.selectorJson = row.selectorJson) :
    row ∈ gs.foldl (withGroup tenantId now) rows := by
  induction gs generalizing rows with
  | nil => exact hrow
  | cons g gs ih =>
      apply ih _ (fun g' hg' => hsame g' (List.mem_cons_of_mem g hg'))
      unfold withGroup
      split
      · exact List.mem_append_left _ hrow
      · rename_i hcreate
        apply mem_updateWhere.mpr
        refine ⟨row, hrow, ?_⟩
        split
        · rename_i his
          obtain ⟨hname, hselector⟩ :=
            hsame g List.mem_cons_self (Bool.eq_false_iff.mpr hcreate) his
          unfold GroupsRepo.updated
          rw [Option.getD_some, Option.getD_some, hname, hselector]
        · rfl

theorem exists_foldl_withGroup (hids : (gs.map PlannedGroup.id).Nodup) {g : PlannedGroup}
    (hg : g ∈ gs) (hrow : g.create = false ->
      exists row, row ∈ rows ∧ GroupsRepo.isGroup tenantId g.id row = true) :
    exists row, row ∈ gs.foldl (withGroup tenantId now) rows ∧ IsPlanned tenantId g row := by
  induction gs generalizing rows with
  | nil => cases hg
  | cons g' gs ih =>
      rw [List.map_cons, List.nodup_cons] at hids
      rcases List.mem_cons.mp hg with rfl | hg
      · -- Its row is in place after the first step, and none of the rest has its id.
        have hplaced : exists row, row ∈ withGroup tenantId now rows g ∧
            IsPlanned tenantId g row := by
          unfold withGroup
          split
          · exact ⟨plannedGroupRow tenantId now g,
              List.mem_append_right _ (List.mem_singleton.mpr rfl), rfl, rfl, rfl, rfl⟩
          · rename_i hcreate
            rcases hrow (Bool.eq_false_iff.mpr hcreate) with ⟨row, hmem, his⟩
            refine ⟨_, mem_updateWhere.mpr ⟨row, hmem, rfl⟩, ?_⟩
            rw [if_pos his]
            unfold GroupsRepo.isGroup at his
            rw [Bool.and_eq_true, beq_iff_eq, beq_iff_eq] at his
            exact ⟨his.1, his.2, rfl, rfl⟩
        rcases hplaced with ⟨row, hmem, hplanned⟩
        rw [List.foldl_cons]
        refine ⟨row, mem_foldl_withGroup_of_same hmem ?_, hplanned⟩
        intro g' hg' _ his
        unfold GroupsRepo.isGroup at his
        rw [Bool.and_eq_true, beq_iff_eq, beq_iff_eq] at his
        have hsame : g'.id = g.id := his.2.symm.trans hplanned.2.1
        exact absurd (List.mem_map.mpr ⟨g', hg', hsame⟩) hids.1
      · apply ih hids.2 hg
        intro hcreate
        rcases hrow hcreate with ⟨row, hmem, his⟩
        unfold withGroup
        split
        · exact ⟨row, List.mem_append_left _ hmem, his⟩
        · refine ⟨_, mem_updateWhere.mpr ⟨row, hmem, rfl⟩, ?_⟩
          split <;> exact his

theorem listAssignments_assignmentsAfter (h : db'.bundleAssignments =
      assignmentsAfter tenantId plan now db.bundleAssignments) :
    listAssignments tenantId db' = plan.assignments := by
  unfold listAssignments
  rw [h]
  unfold assignmentsAfter
  have hnone : (deleteWhere (fun a : BundleAssignmentRow => a.tenantId == tenantId)
      db.bundleAssignments).filter (fun a => a.tenantId == tenantId) = [] := by
    rw [List.filter_eq_nil_iff]
    intro a ha
    rw [(mem_deleteWhere.mp ha).2]
    exact Bool.false_ne_true
  have hall : (plan.assignments.map (plannedAssignment tenantId now)).filter
      (fun a => a.tenantId == tenantId) =
        plan.assignments.map (plannedAssignment tenantId now) := by
    rw [List.filter_eq_self]
    intro a ha
    rcases List.mem_map.mp ha with ⟨x, _, rfl⟩
    exact beq_self_eq_true tenantId
  rw [List.filter_append, hnone, hall, List.nil_append, List.map_map]
  exact List.map_id _

end ConfigSourceRepo

end Storage
end FleetServer
