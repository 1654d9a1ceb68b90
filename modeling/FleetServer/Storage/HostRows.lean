import FleetServer.Storage.Effects

/-!
# Transactions that leave the host rows alone
-/

namespace FleetServer
namespace Storage

open Table

namespace Db

def SameHosts (db db' : Db) : Prop :=
  db'.hosts = db.hosts

theorem sameHosts_refl (db : Db) : db.SameHosts db := rfl

theorem sameHosts_trans (a b c : Db) (hab : a.SameHosts b) (hbc : b.SameHosts c) :
    a.SameHosts c := hbc.trans hab

end Db

def Tx.KeepsHosts {alpha : Type} (m : Tx alpha) : Prop :=
  Tx.Within Db.SameHosts m

namespace KeepsHosts

variable {alpha beta : Type}

theorem pure_ (a : alpha) : Tx.KeepsHosts (pure a : Tx alpha) :=
  Tx.within_pure Db.sameHosts_refl a

theorem bind_ {m : Tx alpha} {f : alpha -> Tx beta} (hm : Tx.KeepsHosts m)
    (hf : forall a, Tx.KeepsHosts (f a)) : Tx.KeepsHosts (m >>= f) :=
  Tx.within_bind Db.sameHosts_trans hm hf

theorem total {f : Db -> alpha × Db} (hf : forall db, (f db).2.hosts = db.hosts) :
    Tx.KeepsHosts (Tx.total f) := Tx.within_total hf

theorem guarded {ok : Db -> Bool} {f : Db -> alpha × Db}
    (hf : forall db, (f db).2.hosts = db.hosts) : Tx.KeepsHosts (Tx.guarded ok f) :=
  Tx.within_guarded (fun db _ => hf db)

theorem forEach {step : alpha -> Tx Unit} (hstep : forall x, Tx.KeepsHosts (step x))
    (xs : List alpha) : Tx.KeepsHosts (ConfigSourceRepo.forEach step xs) :=
  within_forEach Db.sameHosts_refl Db.sameHosts_trans (fun x _ => hstep x)

theorem allRows {step : alpha -> Tx Bool} (hstep : forall x, Tx.KeepsHosts (step x))
    (xs : List alpha) : Tx.KeepsHosts (BundlesRepo.allRows step xs) :=
  within_allRows Db.sameHosts_refl Db.sameHosts_trans (fun x _ => hstep x)

/-!
# Transactions made of several statements
-/

theorem bumpInside (tenantId : Int) : Tx.KeepsHosts (Storage.bumpInside tenantId) :=
  total (fun _ => rfl)

theorem bumpConfigVersion (tenantId : Int) :
    Tx.KeepsHosts (TenantRepo.bumpConfigVersion tenantId) := by
  intro db version db' h
  unfold TenantRepo.bumpConfigVersion at h
  split at h <;> cases h
  rfl

theorem insertBundle (row : BundleRow) : Tx.KeepsHosts (BundlesRepo.insertRow row) :=
  guarded (fun _ => rfl)

theorem deleteBundleRow (tenantId : Int) (id : String) :
    Tx.KeepsHosts (BundlesRepo.deleteRow tenantId id) :=
  guarded (fun _ => rfl)

theorem deleteBundle (tenantId : Int) (id : String) :
    Tx.KeepsHosts (BundlesRepo.delete tenantId id) := by
  intro db found db' h
  unfold BundlesRepo.delete at h
  simp only at h
  split at h <;> cases h
  rfl

theorem moveRow (tenantId : Int) (from_ to_ : String) (r : MovedBundle) :
    Tx.KeepsHosts (BundlesRepo.moveRow tenantId from_ to_ r) := by
  intro db found db' h
  unfold BundlesRepo.moveRow at h
  split at h
  · cases h
    rfl
  · have hrepoint : Tx.KeepsHosts (BundlesRepo.repoint tenantId r.oldId r.newId) :=
      guarded (fun _ => rfl)
    exact bind_ (insertBundle _) (fun _ => bind_ hrepoint (fun _ =>
      bind_ (deleteBundleRow tenantId _) (fun _ => pure_ true))) db found db' h

theorem rename (tenantId : Int) (from_ to_ : String) (inPlace : List RenamedInPlace)
    (moved : List MovedBundle) :
    Tx.KeepsHosts (BundlesRepo.rename tenantId from_ to_ inPlace moved) := by
  have hbody : Tx.KeepsHosts (BundlesRepo.renameBody tenantId from_ to_ inPlace moved) := by
    intro db outcome db' h
    unfold BundlesRepo.renameBody at h
    split at h
    · cases h
      rfl
    · have hrow : forall r, Tx.KeepsHosts (BundlesRepo.renameRow tenantId from_ to_ r) :=
        fun _ => guarded (fun _ => rfl)
      have hfinish : Tx.KeepsHosts (BundlesRepo.finishRename tenantId from_) := by
        intro db outcome db' h
        unfold BundlesRepo.finishRename at h
        split at h
        · cases h
          rfl
        · exact bind_ (bumpInside tenantId) (fun _ => pure_ _) db outcome db' h
      refine bind_ (allRows hrow inPlace) (fun ok => ?_) db outcome db' h
      cases ok with
      | false => exact pure_ _
      | true =>
          refine bind_ (allRows (moveRow tenantId from_ to_) moved) (fun ok => ?_)
          cases ok with
          | false => exact pure_ _
          | true => exact hfinish
  intro db outcome db' h
  unfold BundlesRepo.rename at h
  split at h
  · cases h
  · rename_i db'' hrenamed
    cases h
    exact hbody db _ _ hrenamed
  · cases h
    rfl

theorem putGroup (tenantId now : Int) (g : PlannedGroup) :
    Tx.KeepsHosts (ConfigSourceRepo.putGroup tenantId now g) := by
  have hupdate : Tx.KeepsHosts
      (GroupsRepo.update tenantId g.id (some g.name) (some g.selectorJson)) :=
    guarded (fun _ => rfl)
  unfold ConfigSourceRepo.putGroup
  split
  · exact guarded (fun _ => rfl)
  · exact bind_ hupdate (fun _ => pure_ ())

theorem apply (tenantId : Int) (plan : ConfigPlan) (now : Int) :
    Tx.KeepsHosts (ConfigSourceRepo.apply tenantId plan now) := by
  have hassignments : Tx.KeepsHosts (ConfigSourceRepo.deleteAssignments tenantId) :=
    total (fun _ => rfl)
  have hdelete : forall id, Tx.KeepsHosts (ConfigSourceRepo.deleteGroup tenantId id) := by
    intro id
    have hgroup : Tx.KeepsHosts (GroupsRepo.delete tenantId id) := guarded (fun _ => rfl)
    exact bind_ hgroup (fun _ => pure_ ())
  have hinsert : forall a, Tx.KeepsHosts (ConfigSourceRepo.insertAssignment tenantId now a) :=
    fun _ => guarded (fun _ => rfl)
  have hreplace : Tx.KeepsHosts (ConfigSourceRepo.replaceAll tenantId plan now) := by
    unfold ConfigSourceRepo.replaceAll
    refine bind_ hassignments (fun _ => ?_)
    refine bind_ (forEach (deleteBundleRow tenantId) _) (fun _ => ?_)
    refine bind_ (forEach (fun b => insertBundle _) _) (fun _ => ?_)
    refine bind_ (forEach hdelete _) (fun _ => ?_)
    refine bind_ (forEach (putGroup tenantId now) _) (fun _ => ?_)
    exact bind_ (forEach hinsert _) (fun _ => bumpInside tenantId)
  intro db outcome db' h
  unfold ConfigSourceRepo.apply at h
  split at h
  · exact bind_ hreplace (fun _ => pure_ _) db outcome db' h
  · cases h
    rfl

theorem retireSuperseded (tenantId : Int) (hostId serial : String) (now : Int) :
    Tx.KeepsHosts (HostCertRepo.retireSuperseded tenantId hostId serial now) := by
  refine total (fun db => ?_)
  split <;> rfl

theorem replaceAgentTags (tenantId : Int) (hostId : String)
    (reported : List (String × String)) (now : Int) :
    Tx.KeepsHosts (HostTagsRepo.replaceAgentTags tenantId hostId reported now) := by
  intro db changed db' h
  unfold HostTagsRepo.replaceAgentTags at h
  split at h <;> cases h
  rfl

theorem replaceFacts (tenantId : Int) (hostId : String) (doc : NewFacts)
    (keepHistory now : Int) :
    Tx.KeepsHosts (HostFactsRepo.replace tenantId hostId doc keepHistory now) := by
  intro db outcome db' h
  unfold HostFactsRepo.replace at h
  split at h
  · cases h
  · split at h
    · cases h
      rfl
    · simp only at h
      split at h
      · cases h
        rfl
      · split at h <;> cases h <;> rfl

end KeepsHosts

end Storage
end FleetServer
