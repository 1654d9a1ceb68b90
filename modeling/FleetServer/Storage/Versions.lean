import FleetServer.Storage.Renaming
import FleetServer.Storage.Replace

/-!
# Configuration versions only grow

No statement takes a tenant's version back, and none makes a tenant.  A rename or
a plan that goes through moves the version of its tenant in the same transaction.
-/

namespace FleetServer
namespace Storage

open Table

namespace Db

/-- No tenant is new, and no tenant's version went back. -/
def VersionsGrow (db db' : Db) : Prop :=
  forall tenantId v', db'.configVersion tenantId = some v' ->
    exists v, db.configVersion tenantId = some v ∧ v ≤ v'

theorem versionsGrow_refl (db : Db) : db.VersionsGrow db := by
  intro tenantId v' hv'
  exact ⟨v', hv', Int.le_refl v'⟩

theorem versionsGrow_trans (a b c : Db) (hab : a.VersionsGrow b) (hbc : b.VersionsGrow c) :
    a.VersionsGrow c := by
  intro tenantId v' hv'
  rcases hbc tenantId v' hv' with ⟨v, hv, hle⟩
  rcases hab tenantId v hv with ⟨u, hu, hule⟩
  exact ⟨u, hu, Int.le_trans hule hle⟩

theorem configVersion_of_same {db db' : Db} (h : db.Same Part.versions db') (tenantId : Int) :
    db'.configVersion tenantId = db.configVersion tenantId := by
  unfold configVersion TenantRepo.get
  rw [show db'.tenants = db.tenants from h]

theorem versionsGrow_of_same {db db' : Db} (h : db.Same Part.versions db') :
    db.VersionsGrow db' := by
  intro tenantId v' hv'
  rw [configVersion_of_same h] at hv'
  exact ⟨v', hv', Int.le_refl v'⟩

def bumped (db : Db) (tenantId : Int) : Db :=
  { db with
    tenants := updateWhere (fun t => t.id == tenantId)
      (fun t => { t with configVersion := t.configVersion + 1 }) db.tenants }

theorem configVersion_bumped_self (db : Db) (tenantId : Int) :
    (db.bumped tenantId).configVersion tenantId =
      (db.configVersion tenantId).map (fun v => v + 1) :=
  BundlesRepo.configVersion_bumped db _ rfl

theorem configVersion_bumped_other (db : Db) {tenantId other : Int} (h : other ≠ tenantId) :
    (db.bumped tenantId).configVersion other = db.configVersion other := by
  unfold configVersion TenantRepo.get
  change (List.find? _ (updateWhere _ _ db.tenants)).map _ = _
  induction db.tenants with
  | nil => rfl
  | cons t rest ih =>
      rw [updateWhere_cons, List.find?_cons, List.find?_cons]
      cases ht : t.id == tenantId with
      | false =>
          rw [if_neg Bool.false_ne_true]
          cases t.id == other with
          | false => exact ih
          | true => rfl
      | true =>
          have hne : (t.id == other) = false := by
            rw [beq_iff_eq] at ht
            rw [ht]
            exact beq_false_of_ne (fun heq => h heq.symm)
          rw [if_pos rfl]
          simpa [hne] using ih

theorem versionsGrow_bumped (db : Db) (tenantId : Int) : db.VersionsGrow (db.bumped tenantId) := by
  intro other v' hv'
  by_cases hother : other = tenantId
  · rw [hother, configVersion_bumped_self, Option.map_eq_some_iff] at hv'
    rcases hv' with ⟨v, hv, hsum⟩
    rw [hother]
    exact ⟨v, hv, by omega⟩
  · rw [configVersion_bumped_other db hother] at hv'
    exact ⟨v', hv', Int.le_refl v'⟩

def Moved (db db' : Db) (tenantId : Int) : Prop :=
  forall v, db.configVersion tenantId = some v -> db'.configVersion tenantId ≠ some v

theorem moved_bumped (db : Db) (tenantId : Int) : db.Moved (db.bumped tenantId) tenantId := by
  intro v hv hsame
  rw [configVersion_bumped_self, hv, Option.map_some, Option.some.injEq] at hsame
  omega

end Db

/-- A transaction that takes no version back. -/
def Tx.GrowsVersions {alpha : Type} (m : Tx alpha) : Prop :=
  Tx.Within Db.VersionsGrow m

theorem growsVersions_of_keeps {alpha : Type} {m : Tx alpha} (h : Tx.Keeps Part.versions m) :
    Tx.GrowsVersions m :=
  fun db a db' hm => Db.versionsGrow_of_same (h db a db' hm)

theorem bumpConfigVersion_eq_ok {tenantId v : Int} {db db' : Db}
    (h : TenantRepo.bumpConfigVersion tenantId db = Except.ok (v, db')) :
    db' = db.bumped tenantId := by
  unfold TenantRepo.bumpConfigVersion at h
  split at h
  · cases h
  · cases h
    rfl

namespace BundlesRepo

variable {tenantId : Int} {from_ to_ : String} {inPlace : List RenamedInPlace}
  {moved : List MovedBundle} {db db' : Db}

theorem rename_bumped
    (h : rename tenantId from_ to_ inPlace moved db =
      Except.ok (RenameOutcome.renamed, db')) :
    exists mid, db.Same Part.versions mid ∧ db' = mid.bumped tenantId := by
  rcases rename_eq_finished h with ⟨db1, db2, _, hinPlace, hmoved, hfinish⟩
  have hrows : Tx.Keeps Part.versions (allRows (renameRow tenantId from_ to_) inPlace) :=
    within_allRows (Db.same_refl _) (Db.same_trans _)
      (fun r _ => Keeps.renameRow tenantId from_ to_ r (by decide))
  have hmoves : Tx.Keeps Part.versions (allRows (moveRow tenantId from_ to_) moved) :=
    within_allRows (Db.same_refl _) (Db.same_trans _)
      (fun r _ => Keeps.moveRow tenantId from_ to_ r (by decide) (by decide))
  exact ⟨db2, Db.same_trans _ db db1 db2 (hrows db true db1 hinPlace) (hmoves db1 true db2 hmoved),
    (finishRename_eq_ok hfinish).2⟩

theorem rename_growsVersions : Tx.GrowsVersions (rename tenantId from_ to_ inPlace moved) := by
  intro db outcome db' h
  by_cases houtcome : outcome = RenameOutcome.renamed
  · rw [houtcome] at h
    rcases rename_bumped h with ⟨mid, hsame, hdb'⟩
    rw [hdb']
    exact Db.versionsGrow_trans db mid _ (Db.versionsGrow_of_same hsame)
      (Db.versionsGrow_bumped mid tenantId)
  · rw [rename_eq_self houtcome h]
    exact Db.versionsGrow_refl db

end BundlesRepo

namespace ConfigSourceRepo

variable {tenantId now : Int} {plan : ConfigPlan} {db db' : Db}

/-- As `rename_bumped`, for a plan. -/
theorem apply_bumped (h : apply tenantId plan now db = Except.ok (ApplyOutcome.applied, db')) :
    exists mid, db.Same Part.versions mid ∧ db' = mid.bumped tenantId := by
  unfold apply at h
  split at h
  · rcases Tx.bind_eq_ok.mp h with ⟨u, mid, hreplace, hpure⟩
    rcases Tx.pure_eq_ok.mp hpure with ⟨_, hmid⟩
    rw [hmid] at hreplace
    unfold replaceAll at hreplace
    rcases Tx.bind_eq_ok.mp hreplace with ⟨_, db1, h1, hreplace⟩
    rcases Tx.bind_eq_ok.mp hreplace with ⟨_, db2, h2, hreplace⟩
    rcases Tx.bind_eq_ok.mp hreplace with ⟨_, db3, h3, hreplace⟩
    rcases Tx.bind_eq_ok.mp hreplace with ⟨_, db4, h4, hreplace⟩
    rcases Tx.bind_eq_ok.mp hreplace with ⟨_, db5, h5, hreplace⟩
    rcases Tx.bind_eq_ok.mp hreplace with ⟨_, db6, h6, h7⟩
    have hk1 : db.Same Part.versions db1 :=
      Keeps.deleteAssignments tenantId (by decide) db _ db1 h1
    have hk2 : db1.Same Part.versions db2 :=
      Keeps.forEach (fun id => Keeps.deleteBundleRow tenantId id (by decide)) _ db1 _ db2 h2
    have hk3 : db2.Same Part.versions db3 :=
      Keeps.forEach (fun b => Keeps.insertBundle (plannedRow tenantId now b) (by decide)) _
        db2 _ db3 h3
    have hk4 : db3.Same Part.versions db4 :=
      Keeps.forEach (fun id => Keeps.deleteGroup_ tenantId id (by decide)) _ db3 _ db4 h4
    have hk5 : db4.Same Part.versions db5 :=
      Keeps.forEach (fun g => Keeps.putGroup tenantId now g (by decide)) _ db4 _ db5 h5
    have hk6 : db5.Same Part.versions db6 :=
      Keeps.forEach (fun a => Keeps.insertAssignment tenantId now a (by decide)) _ db5 _ db6 h6
    have hsame : db.Same Part.versions db6 :=
      ((((hk6.trans hk5).trans hk4).trans hk3).trans hk2).trans hk1
    refine ⟨db6, hsame, ?_⟩
    have heq := Tx.total_eq_ok.mp h7
    cases heq
    rfl
  · cases h

theorem apply_growsVersions : Tx.GrowsVersions (apply tenantId plan now) := by
  intro db outcome db' h
  cases outcome with
  | applied =>
      rcases apply_bumped h with ⟨mid, hsame, hdb'⟩
      rw [hdb']
      exact Db.versionsGrow_trans db mid _ (Db.versionsGrow_of_same hsame)
        (Db.versionsGrow_bumped mid tenantId)
  | changed =>
      rw [apply_eq_changed h]
      exact Db.versionsGrow_refl db

end ConfigSourceRepo

end Storage
end FleetServer
