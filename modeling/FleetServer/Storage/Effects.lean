import FleetServer.Storage.ConfigSource
import FleetServer.Storage.Facts
import FleetServer.Storage.HostTags

/-!
# What statements leave alone

A database is seen in parts.  Some parts are whole tables; of hosts, documents
and tenants a part is only the columns that decide something.  A transaction
stays within a relation when every success leads to a related database.
-/

namespace FleetServer
namespace Storage

open Table

/-!
# When a transaction succeeds
-/

namespace Tx

variable {alpha beta : Type}

theorem total_eq_ok {f : Db -> alpha × Db} {db db' : Db} {a : alpha} :
    Tx.total f db = Except.ok (a, db') <-> f db = (a, db') := by
  unfold Tx.total
  rw [Except.ok.injEq]

theorem guarded_eq_ok {ok : Db -> Bool} {f : Db -> alpha × Db} {db db' : Db} {a : alpha} :
    Tx.guarded ok f db = Except.ok (a, db') <-> ok db = true ∧ f db = (a, db') := by
  unfold Tx.guarded
  split
  · rename_i hok
    rw [Except.ok.injEq]
    exact ⟨fun h => ⟨hok, h⟩, fun h => h.2⟩
  · rename_i hok
    constructor
    · intro h
      cases h
    · intro h
      exact absurd h.1 hok

theorem bind_eq_ok {m : Tx alpha} {f : alpha -> Tx beta} {db db' : Db} {b : beta} :
    (m >>= f) db = Except.ok (b, db') <->
      exists a mid, m db = Except.ok (a, mid) ∧ f a mid = Except.ok (b, db') := by
  change (m db).bind (fun x => f x.1 x.2) = Except.ok (b, db') <-> _
  cases hmdb : m db with
  | error e =>
      constructor
      · intro h
        cases h
      · rintro ⟨a, mid, h, _⟩
        cases h
  | ok x =>
      constructor
      · intro h
        exact ⟨x.1, x.2, rfl, h⟩
      · rintro ⟨a, mid, h, hf⟩
        cases h
        exact hf

theorem pure_eq_ok {a a' : alpha} {db db' : Db} :
    (pure a : Tx alpha) db = Except.ok (a', db') <-> a = a' ∧ db = db' := by
  change Except.ok (a, db) = Except.ok (a', db') <-> _
  rw [Except.ok.injEq, Prod.mk.injEq]

end Tx

/-!
# Staying within a relation
-/

namespace Tx

variable {alpha beta : Type} {R : Db -> Db -> Prop}

def Within (R : Db -> Db -> Prop) (m : Tx alpha) : Prop :=
  forall db a db', m db = Except.ok (a, db') -> R db db'

theorem within_pure (hrefl : forall db, R db db) (a : alpha) :
    Within R (pure a : Tx alpha) := by
  intro db a' db' h
  cases h
  exact hrefl db

theorem within_bind (htrans : forall a b c, R a b -> R b c -> R a c) {m : Tx alpha}
    {f : alpha -> Tx beta} (hm : Within R m) (hf : forall a, Within R (f a)) :
    Within R (m >>= f) := by
  intro db b db' h
  rcases bind_eq_ok.mp h with ⟨a, mid, hmdb, hfdb⟩
  exact htrans db mid db' (hm db a mid hmdb) (hf a mid b db' hfdb)

theorem within_total {f : Db -> alpha × Db} (hf : forall db, R db (f db).2) :
    Within R (Tx.total f) := by
  intro db a db' h
  rw [show db' = (f db).2 by rw [total_eq_ok.mp h]]
  exact hf db

theorem within_guarded {ok : Db -> Bool} {f : Db -> alpha × Db}
    (hf : forall db, ok db = true -> R db (f db).2) : Within R (Tx.guarded ok f) := by
  intro db a db' h
  rcases guarded_eq_ok.mp h with ⟨hok, heq⟩
  rw [show db' = (f db).2 by rw [heq]]
  exact hf db hok

end Tx

theorem within_forEach {R : Db -> Db -> Prop} (hrefl : forall db, R db db)
    (htrans : forall a b c, R a b -> R b c -> R a c) {alpha : Type}
    {step : alpha -> Tx Unit} {xs : List alpha}
    (hstep : forall x, x ∈ xs -> Tx.Within R (step x)) :
    Tx.Within R (ConfigSourceRepo.forEach step xs) := by
  induction xs with
  | nil => exact Tx.within_pure hrefl ()
  | cons x xs ih =>
      refine Tx.within_bind htrans (hstep x List.mem_cons_self) (fun _ => ih ?_)
      exact fun y hy => hstep y (List.mem_cons_of_mem x hy)

theorem within_allRows {R : Db -> Db -> Prop} (hrefl : forall db, R db db)
    (htrans : forall a b c, R a b -> R b c -> R a c) {alpha : Type}
    {step : alpha -> Tx Bool} {xs : List alpha}
    (hstep : forall x, x ∈ xs -> Tx.Within R (step x)) :
    Tx.Within R (BundlesRepo.allRows step xs) := by
  induction xs with
  | nil => exact Tx.within_pure hrefl true
  | cons x xs ih =>
      refine Tx.within_bind htrans (hstep x List.mem_cons_self) (fun ok => ?_)
      cases ok with
      | true => exact ih (fun y hy => hstep y (List.mem_cons_of_mem x hy))
      | false => exact Tx.within_pure hrefl false

theorem keeps_allRows {Inv : Db -> Prop} {alpha : Type} {step : alpha -> Tx Bool}
    {xs : List alpha} {ok : Bool} {db db' : Db}
    (hstep : forall x, x ∈ xs -> forall db found db', Inv db ->
      step x db = Except.ok (found, db') -> Inv db')
    (h : BundlesRepo.allRows step xs db = Except.ok (ok, db')) (hdb : Inv db) : Inv db' := by
  have hwithin : Tx.Within (fun a b => Inv a -> Inv b) (BundlesRepo.allRows step xs) := by
    refine within_allRows (fun _ ha => ha) (fun _ _ _ hab hbc ha => hbc (hab ha)) ?_
    intro x hx a found b hrow ha
    exact hstep x hx a found b ha hrow
  exact hwithin db ok db' h hdb

/-!
# Inserting bundles
-/

namespace BundlesRepo

theorem insertRow_eq_ok {row : BundleRow} {db db' : Db} {u : Unit} :
    insertRow row db = Except.ok (u, db') <->
      (db.hasTenant row.tenantId = true ∧ db.hasBundle row.id = false ∧
        versionFree row.tenantId row.name row.version row.id db = true) ∧
      db' = { db with bundles := db.bundles ++ [row] } := by
  unfold insertRow
  rw [Tx.guarded_eq_ok, Bool.and_eq_true, Bool.and_eq_true, Bool.not_eq_true', Prod.mk.injEq]
  constructor
  · rintro ⟨⟨⟨htenant, hid⟩, hfree⟩, _, hdb⟩
    exact ⟨⟨htenant, hid, hfree⟩, hdb.symm⟩
  · rintro ⟨⟨htenant, hid, hfree⟩, hdb⟩
    exact ⟨⟨⟨htenant, hid⟩, hfree⟩, rfl, hdb.symm⟩

theorem create_eq_ok {id : String} {tenantId : Int} {name version sha256 : String}
    {sizeBytes : Int} {signature format : String} {keyFingerprint : Option String}
    {now : Int} {row : BundleRow} {db db' : Db}
    (h : create id tenantId name version sha256 sizeBytes signature format
      keyFingerprint now db = Except.ok (row, db')) :
    row = { id := id, tenantId := tenantId, name := name, version := version,
            sha256 := sha256, sizeBytes := sizeBytes, signature := signature,
            uploadedAt := now, format := format, keyFingerprint := keyFingerprint } ∧
      insertRow row db = Except.ok ((), db') := by
  unfold create at h
  rcases Tx.bind_eq_ok.mp h with ⟨u, mid, hinsert, hpure⟩
  rcases Tx.pure_eq_ok.mp hpure with ⟨hrow, hdb⟩
  subst hrow hdb
  exact ⟨rfl, hinsert⟩

end BundlesRepo

/-!
# Parts of a database
-/

structure Lifecycle where
  id : String
  tenantId : Int
  enrolledAt : Option Int
  bootstrapNonceHash : Option String
  bootstrapExpiresAt : Option Int
  createdAt : Int
deriving DecidableEq

def HostRow.lifecycle (h : HostRow) : Lifecycle :=
  { id := h.id, tenantId := h.tenantId, enrolledAt := h.enrolledAt,
    bootstrapNonceHash := h.bootstrapNonceHash,
    bootstrapExpiresAt := h.bootstrapExpiresAt, createdAt := h.createdAt }

/-- A document without what is only said about it. -/
def HostFactsRow.document (r : HostFactsRow) : Int × String × String × String :=
  (r.tenantId, r.hostId, r.source, r.factsJson)

/-- A tenant without its configuration version. -/
def Tenant.profile (t : Tenant) : Tenant :=
  { t with configVersion := 0 }

inductive Part where
  | profiles
  | versions
  | hosts
  | certs
  | tags
  | overrides
  | documents
  | groups
  | bundles
  | assignments
  | secrets
deriving DecidableEq

def Db.Same (part : Part) (db db' : Db) : Prop :=
  match part with
  | Part.profiles => db'.tenants.map Tenant.profile = db.tenants.map Tenant.profile
  | Part.versions => db'.tenants = db.tenants
  | Part.hosts => db'.hosts.map HostRow.lifecycle = db.hosts.map HostRow.lifecycle
  | Part.certs => db'.hostCerts = db.hostCerts
  | Part.tags => db'.hostTags = db.hostTags
  | Part.overrides => db'.hostOverrides = db.hostOverrides
  | Part.documents =>
      db'.hostFacts.map HostFactsRow.document = db.hostFacts.map HostFactsRow.document
  | Part.groups => db'.groups = db.groups
  | Part.bundles => db'.bundles = db.bundles
  | Part.assignments => db'.bundleAssignments = db.bundleAssignments
  | Part.secrets => db'.tenantSecrets = db.tenantSecrets

namespace Db

theorem same_refl (part : Part) (db : Db) : db.Same part db := by
  cases part <;> rfl

theorem same_trans (part : Part) (a b c : Db) (hab : a.Same part b) (hbc : b.Same part c) :
    a.Same part c := by
  cases part <;> exact hbc.trans hab

end Db

theorem same_describeHosts {f : HostRow -> HostRow}
    (hf : forall h, (f h).lifecycle = h.lifecycle) (p : HostRow -> Bool) (part : Part)
    (db : Db) : db.Same part { db with hosts := updateWhere p f db.hosts } := by
  cases part with
  | hosts => exact map_updateWhere_eq hf db.hosts
  | profiles => rfl
  | versions => rfl
  | certs => rfl
  | tags => rfl
  | overrides => rfl
  | documents => rfl
  | groups => rfl
  | bundles => rfl
  | assignments => rfl
  | secrets => rfl

/-- A transaction that leaves a part as it was. -/
def Tx.Keeps (part : Part) {alpha : Type} (m : Tx alpha) : Prop :=
  Tx.Within (Db.Same part) m

namespace Keeps

variable {part : Part} {alpha beta : Type}

theorem pure_ (a : alpha) : Tx.Keeps part (pure a : Tx alpha) :=
  Tx.within_pure (Db.same_refl part) a

theorem bind_ {m : Tx alpha} {f : alpha -> Tx beta} (hm : Tx.Keeps part m)
    (hf : forall a, Tx.Keeps part (f a)) : Tx.Keeps part (m >>= f) :=
  Tx.within_bind (Db.same_trans part) hm hf

theorem total {f : Db -> alpha × Db} (hf : forall db : Db, db.Same part (f db).2) :
    Tx.Keeps part (Tx.total f) := Tx.within_total hf

theorem guarded {ok : Db -> Bool} {f : Db -> alpha × Db}
    (hf : forall db : Db, db.Same part (f db).2) : Tx.Keeps part (Tx.guarded ok f) :=
  Tx.within_guarded (fun db _ => hf db)

/-!
# Transactions made of several statements
-/

theorem setHost (tenantId : Int) (hostId : String) (p : HostRow -> Bool)
    {f : HostRow -> HostRow} (hf : forall h, (f h).lifecycle = h.lifecycle) :
    Tx.Keeps part (HostRepo.setHost tenantId hostId p f) :=
  total (fun db => same_describeHosts hf _ part db)

theorem setHost_ (tenantId : Int) (hostId : String) (p : HostRow -> Bool)
    {f : HostRow -> HostRow} (hf : forall h, (f h).lifecycle = h.lifecycle) :
    Tx.Keeps part (HostRepo.setHost_ tenantId hostId p f) :=
  total (fun db => same_describeHosts hf _ part db)

theorem insertCert (row : HostCertRow) (hpart : part ≠ Part.certs) :
    Tx.Keeps part (Storage.insertCert row) := by
  refine guarded (fun db => ?_)
  cases part <;> first | rfl | exact absurd rfl hpart

theorem enroll (tenantId : Int) (hostId nonceHash : String) (hostname os : Option String)
    (cert : EnrolledCert) (now : Int) (hhosts : part ≠ Part.hosts)
    (hcerts : part ≠ Part.certs) :
    Tx.Keeps part (HostRepo.enroll tenantId hostId nonceHash hostname os cert now) := by
  intro db a db' h
  unfold HostRepo.enroll at h
  simp only at h
  split at h
  · cases h
    exact Db.same_refl part db
  · split at h
    · cases h
    · rename_i db'' hinsert
      cases h
      refine Db.same_trans part db _ _ ?_ (insertCert _ hcerts _ _ _ hinsert)
      cases part <;> first | rfl | exact absurd rfl hhosts

theorem profile_bumped (p : Tenant -> Bool) (tenants : List Tenant) :
    (updateWhere p (fun t => { t with configVersion := t.configVersion + 1 })
      tenants).map Tenant.profile = tenants.map Tenant.profile := by
  have hbump : forall t : Tenant,
      ({ t with configVersion := t.configVersion + 1 } : Tenant).profile = t.profile :=
    fun _ => rfl
  exact map_updateWhere_eq hbump tenants

theorem bumpInside (tenantId : Int) (hpart : part ≠ Part.versions) :
    Tx.Keeps part (Storage.bumpInside tenantId) := by
  refine total (fun db => ?_)
  cases part with
  | profiles => exact profile_bumped _ db.tenants
  | versions => exact absurd rfl hpart
  | hosts => rfl
  | certs => rfl
  | tags => rfl
  | overrides => rfl
  | documents => rfl
  | groups => rfl
  | bundles => rfl
  | assignments => rfl
  | secrets => rfl

theorem insertBundle (row : BundleRow) (hpart : part ≠ Part.bundles) :
    Tx.Keeps part (BundlesRepo.insertRow row) := by
  refine guarded (fun db => ?_)
  cases part <;> first | rfl | exact absurd rfl hpart

theorem deleteBundleRow (tenantId : Int) (id : String) (hpart : part ≠ Part.bundles) :
    Tx.Keeps part (BundlesRepo.deleteRow tenantId id) := by
  refine guarded (fun db => ?_)
  cases part <;> first | rfl | exact absurd rfl hpart

theorem renameRow (tenantId : Int) (from_ to_ : String) (r : RenamedInPlace)
    (hpart : part ≠ Part.bundles) :
    Tx.Keeps part (BundlesRepo.renameRow tenantId from_ to_ r) := by
  refine guarded (fun db => ?_)
  cases part <;> first | rfl | exact absurd rfl hpart

theorem repoint (tenantId : Int) (oldId newId : String) (hpart : part ≠ Part.assignments) :
    Tx.Keeps part (BundlesRepo.repoint tenantId oldId newId) := by
  refine guarded (fun db => ?_)
  cases part <;> first | rfl | exact absurd rfl hpart

theorem moveRow (tenantId : Int) (from_ to_ : String) (r : MovedBundle)
    (hbundles : part ≠ Part.bundles) (hassignments : part ≠ Part.assignments) :
    Tx.Keeps part (BundlesRepo.moveRow tenantId from_ to_ r) := by
  intro db a db' h
  unfold BundlesRepo.moveRow at h
  split at h
  · cases h
    exact Db.same_refl part db
  · rename_i b _
    exact bind_ (insertBundle _ hbundles) (fun _ =>
      bind_ (repoint tenantId _ _ hassignments) (fun _ =>
        bind_ (deleteBundleRow tenantId _ hbundles) (fun _ => pure_ true))) db a db' h

theorem finishRename (tenantId : Int) (from_ : String) (hpart : part ≠ Part.versions) :
    Tx.Keeps part (BundlesRepo.finishRename tenantId from_) := by
  intro db a db' h
  unfold BundlesRepo.finishRename at h
  split at h
  · cases h
    exact Db.same_refl part db
  · exact bind_ (bumpInside tenantId hpart) (fun _ => pure_ _) db a db' h

theorem renameBody (tenantId : Int) (from_ to_ : String) (inPlace : List RenamedInPlace)
    (moved : List MovedBundle) (hbundles : part ≠ Part.bundles)
    (hassignments : part ≠ Part.assignments) (hversions : part ≠ Part.versions) :
    Tx.Keeps part (BundlesRepo.renameBody tenantId from_ to_ inPlace moved) := by
  have hrows : Tx.Keeps part
      (BundlesRepo.allRows (BundlesRepo.renameRow tenantId from_ to_) inPlace) :=
    within_allRows (Db.same_refl part) (Db.same_trans part)
      (fun r _ => renameRow tenantId from_ to_ r hbundles)
  have hmoved : Tx.Keeps part
      (BundlesRepo.allRows (BundlesRepo.moveRow tenantId from_ to_) moved) :=
    within_allRows (Db.same_refl part) (Db.same_trans part)
      (fun r _ => moveRow tenantId from_ to_ r hbundles hassignments)
  intro db a db' h
  unfold BundlesRepo.renameBody at h
  split at h
  · cases h
    exact Db.same_refl part db
  · refine bind_ hrows (fun ok => ?_) db a db' h
    cases ok with
    | false => exact pure_ _
    | true =>
        refine bind_ hmoved (fun ok => ?_)
        cases ok with
        | false => exact pure_ _
        | true => exact finishRename tenantId from_ hversions

theorem rename (tenantId : Int) (from_ to_ : String) (inPlace : List RenamedInPlace)
    (moved : List MovedBundle) (hbundles : part ≠ Part.bundles)
    (hassignments : part ≠ Part.assignments) (hversions : part ≠ Part.versions) :
    Tx.Keeps part (BundlesRepo.rename tenantId from_ to_ inPlace moved) := by
  intro db a db' h
  unfold BundlesRepo.rename at h
  split at h
  · cases h
  · rename_i db'' hbody
    cases h
    exact renameBody tenantId from_ to_ inPlace moved hbundles hassignments hversions
      db _ _ hbody
  · cases h
    exact Db.same_refl part db

theorem insertGroup (row : GroupRow) (hpart : part ≠ Part.groups) :
    Tx.Keeps part (GroupsRepo.insertRow row) := by
  refine guarded (fun db => ?_)
  cases part <;> first | rfl | exact absurd rfl hpart

theorem updateGroup (tenantId : Int) (id : String) (name selectorJson : Option String)
    (hpart : part ≠ Part.groups) :
    Tx.Keeps part (GroupsRepo.update tenantId id name selectorJson) := by
  refine guarded (fun db => ?_)
  cases part <;> first | rfl | exact absurd rfl hpart

theorem deleteGroup (tenantId : Int) (id : String) (hpart : part ≠ Part.groups) :
    Tx.Keeps part (GroupsRepo.delete tenantId id) := by
  refine guarded (fun db => ?_)
  cases part <;> first | rfl | exact absurd rfl hpart

theorem deleteGroup_ (tenantId : Int) (id : String) (hpart : part ≠ Part.groups) :
    Tx.Keeps part (ConfigSourceRepo.deleteGroup tenantId id) :=
  bind_ (deleteGroup tenantId id hpart) (fun _ => pure_ ())

theorem putGroup (tenantId now : Int) (g : PlannedGroup) (hpart : part ≠ Part.groups) :
    Tx.Keeps part (ConfigSourceRepo.putGroup tenantId now g) := by
  unfold ConfigSourceRepo.putGroup
  split
  · exact insertGroup _ hpart
  · exact bind_ (updateGroup tenantId g.id _ _ hpart) (fun _ => pure_ ())

theorem deleteAssignments (tenantId : Int) (hpart : part ≠ Part.assignments) :
    Tx.Keeps part (ConfigSourceRepo.deleteAssignments tenantId) := by
  refine total (fun db => ?_)
  cases part <;> first | rfl | exact absurd rfl hpart

theorem insertAssignment (tenantId now : Int) (a : String × String × Int)
    (hpart : part ≠ Part.assignments) :
    Tx.Keeps part (ConfigSourceRepo.insertAssignment tenantId now a) := by
  refine guarded (fun db => ?_)
  cases part <;> first | rfl | exact absurd rfl hpart

theorem forEach {step : alpha -> Tx Unit} (hstep : forall x, Tx.Keeps part (step x))
    (xs : List alpha) : Tx.Keeps part (ConfigSourceRepo.forEach step xs) :=
  within_forEach (Db.same_refl part) (Db.same_trans part) (fun x _ => hstep x)

theorem replaceAll (tenantId : Int) (plan : ConfigPlan) (now : Int)
    (hgroups : part ≠ Part.groups) (hbundles : part ≠ Part.bundles)
    (hassignments : part ≠ Part.assignments) (hversions : part ≠ Part.versions) :
    Tx.Keeps part (ConfigSourceRepo.replaceAll tenantId plan now) := by
  unfold ConfigSourceRepo.replaceAll
  refine bind_ (deleteAssignments tenantId hassignments) (fun _ => ?_)
  refine bind_ (forEach (fun id => deleteBundleRow tenantId id hbundles) _) (fun _ => ?_)
  refine bind_ (forEach (fun b => insertBundle _ hbundles) _) (fun _ => ?_)
  refine bind_ (forEach (fun id => deleteGroup_ tenantId id hgroups) _) (fun _ => ?_)
  refine bind_ (forEach (fun g => putGroup tenantId now g hgroups) _) (fun _ => ?_)
  refine bind_ (forEach (fun a => insertAssignment tenantId now a hassignments) _)
    (fun _ => ?_)
  exact bumpInside tenantId hversions

theorem apply (tenantId : Int) (plan : ConfigPlan) (now : Int)
    (hgroups : part ≠ Part.groups) (hbundles : part ≠ Part.bundles)
    (hassignments : part ≠ Part.assignments) (hversions : part ≠ Part.versions) :
    Tx.Keeps part (ConfigSourceRepo.apply tenantId plan now) := by
  intro db a db' h
  unfold ConfigSourceRepo.apply at h
  split at h
  · exact bind_ (replaceAll tenantId plan now hgroups hbundles hassignments hversions)
      (fun _ => pure_ _) db a db' h
  · cases h
    exact Db.same_refl part db

end Keeps

end Storage
end FleetServer
