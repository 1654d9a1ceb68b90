import FleetServer.Storage.Changes
import FleetServer.Storage.Effects

/-!
# Whose a row is

Every row belongs to a tenant and names hosts, groups or bundles by their ids.  A
statement made for one tenant adds only rows of that tenant and leaves the rows of
all others as they are, as long as the ids it is given are not another tenant's.
-/

namespace FleetServer

/-!
# Tables of several tenants
-/

namespace Table

section Owned

variable {Row : Type} {tenant : Row -> Int} {names : Row -> List String} {t : Int}
  {ids : List String} {rows rows' : List Row}

def named (tenant : Row -> Int) (names : Row -> List String) (rows : List Row) :
    List (String × Int) :=
  rows.flatMap fun r => (names r).map fun id => (id, tenant r)

theorem mem_named {id : String} {t : Int} :
    (id, t) ∈ named tenant names rows <-> exists r, r ∈ rows ∧ id ∈ names r ∧ tenant r = t := by
  unfold named
  simp only [List.mem_flatMap, List.mem_map, Prod.mk.injEq]
  constructor
  · intro h
    rcases h with ⟨r, hr, id', hid', rfl, rfl⟩
    exact ⟨r, hr, hid', rfl⟩
  · intro h
    rcases h with ⟨r, hr, hid, rfl⟩
    exact ⟨r, hr, id, hid, rfl, rfl⟩

structure Moves (tenant : Row -> Int) (names : Row -> List String) (t : Int)
    (ids : List String) (rows rows' : List Row) : Prop where
  names : forall id t', (id, t') ∈ named tenant names rows' ->
    (id, t') ∈ named tenant names rows ∨ (id ∈ ids ∧ t' = t)
  others : forall t', t' ≠ t ->
    rows'.filter (fun r => tenant r == t') = rows.filter fun r => tenant r == t'

theorem moves_of_rows
    (hnames : forall r', r' ∈ rows' -> r' ∈ rows ∨ (tenant r' = t ∧ forall id, id ∈ names r' ->
      id ∈ ids ∨ (id, t) ∈ named tenant names rows))
    (hothers : forall t', t' ≠ t ->
      rows'.filter (fun r => tenant r == t') = rows.filter fun r => tenant r == t') :
    Moves tenant names t ids rows rows' := by
  constructor
  · intro id t' hmem
    rcases mem_named.mp hmem with ⟨r', hr', hid, rfl⟩
    rcases hnames r' hr' with hold | ⟨ht, hnew⟩
    · exact Or.inl (mem_named.mpr ⟨r', hold, hid, rfl⟩)
    · rcases hnew id hid with hids | hthere
      · exact Or.inr ⟨hids, ht⟩
      · rw [ht]
        exact Or.inl hthere
  · exact hothers

theorem other_tenant {t' : Int} (hne : t' ≠ t) {r : Row} (hr : tenant r = t) :
    (tenant r == t') = false := by
  rw [hr]
  exact beq_eq_false_iff_ne.mpr (Ne.symm hne)

theorem moves_deleteWhere {p : Row -> Bool}
    (hp : forall r, r ∈ rows -> p r = true -> tenant r = t) :
    Moves tenant names t ids rows (deleteWhere p rows) := by
  apply moves_of_rows
  · intro r' hr'
    exact Or.inl (mem_of_mem_deleteWhere hr')
  · intro t' hne
    apply filter_deleteWhere
    intro r hr hpr
    exact other_tenant hne (hp r hr hpr)

theorem moves_updateWhere {p : Row -> Bool} {f : Row -> Row}
    (hp : forall r, r ∈ rows -> p r = true -> tenant r = t ∧ tenant (f r) = t ∧
      forall id, id ∈ names (f r) -> id ∈ ids ∨ id ∈ names r) :
    Moves tenant names t ids rows (updateWhere p f rows) := by
  apply moves_of_rows
  · intro r' hr'
    rcases of_mem_updateWhere hr' with ⟨r, hr, ⟨_, hsame⟩ | ⟨hpr, hnew⟩⟩
    · rw [hsame]
      exact Or.inl hr
    · have hrow := hp r hr hpr
      rw [hnew]
      refine Or.inr ⟨hrow.2.1, ?_⟩
      intro id hid
      rcases hrow.2.2 id hid with hids | hold
      · exact Or.inl hids
      · exact Or.inr (mem_named.mpr ⟨r, hr, hold, hrow.1⟩)
  · intro t' hne
    apply filter_updateWhere
    intro r hr hpr
    have hrow := hp r hr hpr
    exact ⟨other_tenant hne hrow.1, other_tenant hne hrow.2.1⟩

theorem moves_append {new : Row} (ht : tenant new = t)
    (hids : forall id, id ∈ names new -> id ∈ ids ∨ (id, t) ∈ named tenant names rows) :
    Moves tenant names t ids rows (rows ++ [new]) := by
  apply moves_of_rows
  · intro r' hr'
    rcases List.mem_append.mp hr' with hold | hnew
    · exact Or.inl hold
    · rw [List.mem_singleton.mp hnew]
      exact Or.inr ⟨ht, hids⟩
  · intro t' hne
    rw [List.filter_append, List.filter_cons_of_neg (by rw [other_tenant hne ht]; decide),
      List.filter_nil, List.append_nil]

theorem moves_upsert {conflict : Row -> Bool} {f : Row -> Row} {new : Row}
    (hp : forall r, r ∈ rows -> conflict r = true -> tenant r = t ∧ tenant (f r) = t ∧
      forall id, id ∈ names (f r) -> id ∈ ids ∨ id ∈ names r)
    (ht : tenant new = t) (hids : forall id, id ∈ names new -> id ∈ ids) :
    Moves tenant names t ids rows (upsert conflict f new rows) := by
  unfold upsert
  split
  · exact moves_updateWhere hp
  · exact moves_append ht (fun id hid => Or.inl (hids id hid))

theorem moves_rows_refl (rows : List Row) : Moves tenant names t ids rows rows :=
  ⟨fun _ _ h => Or.inl h, fun _ _ => rfl⟩

theorem moves_rows_trans {rows'' : List Row} (h : Moves tenant names t ids rows rows')
    (h' : Moves tenant names t ids rows' rows'') : Moves tenant names t ids rows rows'' := by
  constructor
  · intro id t' hmem
    rcases h'.names id t' hmem with hold | hnew
    · exact h.names id t' hold
    · exact Or.inr hnew
  · intro t' hne
    rw [h'.others t' hne, h.others t' hne]

end Owned

/-!
## What a table and one tenant's part of it agree on
-/

section Part

variable {Row Col : Type} {p q : Row -> Bool} {rows : List Row}

theorem filter_of_part (h : forall r, r ∈ rows -> q r = true -> p r = true) :
    (rows.filter p).filter q = rows.filter q := by
  rw [List.filter_filter]
  apply List.filter_congr
  intro r hr
  cases hq : q r with
  | false => rfl
  | true => rw [h r hr hq, Bool.true_and]

theorem find?_of_part (h : forall r, r ∈ rows -> q r = true -> p r = true) :
    (rows.filter p).find? q = rows.find? q := by
  rw [← List.head?_filter, ← List.head?_filter, filter_of_part h]

theorem any_of_part (h : forall r, r ∈ rows -> q r = true -> p r = true) :
    (rows.filter p).any q = rows.any q := by
  rw [Bool.eq_iff_iff, List.any_eq_true, List.any_eq_true]
  constructor
  · intro hany
    rcases hany with ⟨r, hr, hqr⟩
    exact ⟨r, (List.mem_filter.mp hr).1, hqr⟩
  · intro hany
    rcases hany with ⟨r, hr, hqr⟩
    exact ⟨r, List.mem_filter.mpr ⟨hr, h r hr hqr⟩, hqr⟩

theorem affected_of_part (h : forall r, r ∈ rows -> q r = true -> p r = true) :
    affected q (rows.filter p) = affected q rows := by
  unfold affected
  rw [List.countP_eq_length_filter, List.countP_eq_length_filter, filter_of_part h]

theorem view_of_part {sel : Row -> Option Col}
    (h : forall r, r ∈ rows -> (sel r).isSome = true -> p r = true) :
    view sel (rows.filter p) = view sel rows := by
  unfold view
  rw [List.filterMap_filter]
  apply List.filterMap_congr
  intro r hr
  cases hsel : sel r with
  | none => exact ite_self none
  | some c =>
      rw [h r hr (by rw [hsel]; rfl), if_pos rfl]

end Part

end Table

namespace Storage

open Table

/-!
# One tenant's part of a database
-/

namespace Db

def of (t : Int) (db : Db) : Db :=
  { tenants := db.tenants.filter fun r => r.id == t
    tenantSecrets := db.tenantSecrets.filter fun r => r.tenantId == t
    tenantBundleKeys := db.tenantBundleKeys.filter fun r => r.tenantId == t
    hosts := db.hosts.filter fun r => r.tenantId == t
    hostCerts := db.hostCerts.filter fun r => r.tenantId == t
    hostTags := db.hostTags.filter fun r => r.tenantId == t
    hostOverrides := db.hostOverrides.filter fun r => r.tenantId == t
    hostFacts := db.hostFacts.filter fun r => r.tenantId == t
    hostFactChanges := db.hostFactChanges.filter fun r => r.tenantId == t
    groups := db.groups.filter fun r => r.tenantId == t
    bundles := db.bundles.filter fun r => r.tenantId == t
    bundleAssignments := db.bundleAssignments.filter fun r => r.tenantId == t }

inductive Naming where
  | hosts
  | certs
  | tags
  | overrides
  | facts
  | changes
  | groups
  | bundles
  | assignments

def namedIn (db : Db) : Naming -> List (String × Int)
  | Naming.hosts => named HostRow.tenantId (fun r => [r.id]) db.hosts
  | Naming.certs => named HostCertRow.tenantId (fun r => [r.hostId]) db.hostCerts
  | Naming.tags => named HostTagRow.tenantId (fun r => [r.hostId]) db.hostTags
  | Naming.overrides => named HostOverrideRow.tenantId (fun r => [r.hostId]) db.hostOverrides
  | Naming.facts => named HostFactsRow.tenantId (fun r => [r.hostId]) db.hostFacts
  | Naming.changes => named HostFactChangeRow.tenantId (fun r => [r.hostId]) db.hostFactChanges
  | Naming.groups => named GroupRow.tenantId (fun r => [r.id]) db.groups
  | Naming.bundles => named BundleRow.tenantId (fun r => [r.id]) db.bundles
  | Naming.assignments =>
      named BundleAssignmentRow.tenantId (fun r => [r.groupId, r.bundleId]) db.bundleAssignments

/-- Some row of the tenant `t` names the id. -/
def Names (db : Db) (id : String) (t : Int) : Prop :=
  exists table, (id, t) ∈ db.namedIn table

/-- No id is named for two tenants. -/
def Single (db : Db) : Prop :=
  forall id t t', db.Names id t -> db.Names id t' -> t = t'

theorem names_host {db : Db} {r : HostRow} (hr : r ∈ db.hosts) : db.Names r.id r.tenantId :=
  ⟨Naming.hosts, mem_named.mpr ⟨r, hr, List.mem_singleton_self _, rfl⟩⟩

theorem names_cert {db : Db} {r : HostCertRow} (hr : r ∈ db.hostCerts) :
    db.Names r.hostId r.tenantId :=
  ⟨Naming.certs, mem_named.mpr ⟨r, hr, List.mem_singleton_self _, rfl⟩⟩

theorem names_tag {db : Db} {r : HostTagRow} (hr : r ∈ db.hostTags) :
    db.Names r.hostId r.tenantId :=
  ⟨Naming.tags, mem_named.mpr ⟨r, hr, List.mem_singleton_self _, rfl⟩⟩

theorem names_override {db : Db} {r : HostOverrideRow} (hr : r ∈ db.hostOverrides) :
    db.Names r.hostId r.tenantId :=
  ⟨Naming.overrides, mem_named.mpr ⟨r, hr, List.mem_singleton_self _, rfl⟩⟩

theorem names_facts {db : Db} {r : HostFactsRow} (hr : r ∈ db.hostFacts) :
    db.Names r.hostId r.tenantId :=
  ⟨Naming.facts, mem_named.mpr ⟨r, hr, List.mem_singleton_self _, rfl⟩⟩

theorem names_group {db : Db} {r : GroupRow} (hr : r ∈ db.groups) : db.Names r.id r.tenantId :=
  ⟨Naming.groups, mem_named.mpr ⟨r, hr, List.mem_singleton_self _, rfl⟩⟩

theorem names_bundle {db : Db} {r : BundleRow} (hr : r ∈ db.bundles) :
    db.Names r.id r.tenantId :=
  ⟨Naming.bundles, mem_named.mpr ⟨r, hr, List.mem_singleton_self _, rfl⟩⟩

theorem names_assignment {db : Db} {r : BundleAssignmentRow} (hr : r ∈ db.bundleAssignments) :
    db.Names r.groupId r.tenantId ∧ db.Names r.bundleId r.tenantId :=
  ⟨⟨Naming.assignments, mem_named.mpr ⟨r, hr, List.mem_cons_self, rfl⟩⟩,
    ⟨Naming.assignments, mem_named.mpr ⟨r, hr, List.mem_cons_of_mem _ List.mem_cons_self, rfl⟩⟩⟩

end Db

/-!
# What a statement of one tenant does to the rows
-/

/-- New names are in `ids` and the tenant's; all other tenants' rows are as they
were. -/
structure Stays (t : Int) (ids : List String) (db db' : Db) : Prop where
  names : forall id t', db'.Names id t' -> db.Names id t' ∨ (id ∈ ids ∧ t' = t)
  others : forall t', t' ≠ t -> db'.of t' = db.of t'

section Stays

variable {t : Int} {ids : List String} {db : Db}
variable {db' : Db} {from_ hostId id nonceHash source to_ : String} {f : HostRow -> HostRow}
variable {now : Int} {found : Bool} {u : Unit}

theorem stays_refl (db : Db) : Stays t ids db db :=
  ⟨fun _ _ h => Or.inl h, fun _ _ => rfl⟩

theorem stays_trans (a b c : Db) (hab : Stays t ids a b) (hbc : Stays t ids b c) :
    Stays t ids a c := by
  constructor
  · intro id t' h
    rcases hbc.names id t' h with hold | hnew
    · exact hab.names id t' hold
    · exact Or.inr hnew
  · intro t' hne
    exact (hbc.others t' hne).trans (hab.others t' hne)

/-- A new name the tenant has in another table is no new name. -/
theorem stays_known (h : Stays t ids db db') (hids : forall id, id ∈ ids -> db.Names id t) :
    Stays t [] db db' := by
  constructor
  · intro id t' hnames
    rcases h.names id t' hnames with hold | ⟨hmem, ht⟩
    · exact Or.inl hold
    · rw [ht]
      exact Or.inl (hids id hmem)
  · exact h.others

/-!
## One table at a time
-/

theorem stays_of_table (table : Db.Naming)
    (hsame : forall table', table' ≠ table -> db'.namedIn table' = db.namedIn table')
    (hnames : forall id t', (id, t') ∈ db'.namedIn table ->
      (id, t') ∈ db.namedIn table ∨ (id ∈ ids ∧ t' = t))
    (hothers : forall t', t' ≠ t -> db'.of t' = db.of t') : Stays t ids db db' := by
  constructor
  · intro id t' hmem
    rcases hmem with ⟨table', hmem⟩
    by_cases htable : table' = table
    · rw [htable] at hmem
      rcases hnames id t' hmem with hold | hnew
      · exact Or.inl ⟨table, hold⟩
      · exact Or.inr hnew
    · rw [hsame table' htable] at hmem
      exact Or.inl ⟨table', hmem⟩
  · exact hothers

theorem stays_tenants {rows : List Tenant}
    (h : Moves Tenant.id (fun _ => []) t ids db.tenants rows) :
    Stays t ids db { db with tenants := rows } := by
  constructor
  · intro id t' hnames
    exact Or.inl hnames
  · intro t' hne
    unfold Db.of
    rw [h.others t' hne]

theorem stays_hosts {rows : List HostRow}
    (h : Moves HostRow.tenantId (fun r => [r.id]) t ids db.hosts rows) :
    Stays t ids db { db with hosts := rows } := by
  apply stays_of_table Db.Naming.hosts
  · intro table hne
    cases table with
    | hosts => exact absurd rfl hne
    | _ => rfl
  · exact h.names
  · intro t' hne
    unfold Db.of
    rw [h.others t' hne]

theorem stays_certs {rows : List HostCertRow}
    (h : Moves HostCertRow.tenantId (fun r => [r.hostId]) t ids db.hostCerts rows) :
    Stays t ids db { db with hostCerts := rows } := by
  apply stays_of_table Db.Naming.certs
  · intro table hne
    cases table with
    | certs => exact absurd rfl hne
    | _ => rfl
  · exact h.names
  · intro t' hne
    unfold Db.of
    rw [h.others t' hne]

theorem stays_tags {rows : List HostTagRow}
    (h : Moves HostTagRow.tenantId (fun r => [r.hostId]) t ids db.hostTags rows) :
    Stays t ids db { db with hostTags := rows } := by
  apply stays_of_table Db.Naming.tags
  · intro table hne
    cases table with
    | tags => exact absurd rfl hne
    | _ => rfl
  · exact h.names
  · intro t' hne
    unfold Db.of
    rw [h.others t' hne]

theorem stays_overrides {rows : List HostOverrideRow}
    (h : Moves HostOverrideRow.tenantId (fun r => [r.hostId]) t ids db.hostOverrides rows) :
    Stays t ids db { db with hostOverrides := rows } := by
  apply stays_of_table Db.Naming.overrides
  · intro table hne
    cases table with
    | overrides => exact absurd rfl hne
    | _ => rfl
  · exact h.names
  · intro t' hne
    unfold Db.of
    rw [h.others t' hne]

theorem stays_facts {rows : List HostFactsRow}
    (h : Moves HostFactsRow.tenantId (fun r => [r.hostId]) t ids db.hostFacts rows) :
    Stays t ids db { db with hostFacts := rows } := by
  apply stays_of_table Db.Naming.facts
  · intro table hne
    cases table with
    | facts => exact absurd rfl hne
    | _ => rfl
  · exact h.names
  · intro t' hne
    unfold Db.of
    rw [h.others t' hne]

theorem stays_changes {rows : List HostFactChangeRow}
    (h : Moves HostFactChangeRow.tenantId (fun r => [r.hostId]) t ids db.hostFactChanges rows) :
    Stays t ids db { db with hostFactChanges := rows } := by
  apply stays_of_table Db.Naming.changes
  · intro table hne
    cases table with
    | changes => exact absurd rfl hne
    | _ => rfl
  · exact h.names
  · intro t' hne
    unfold Db.of
    rw [h.others t' hne]

theorem stays_groups {rows : List GroupRow}
    (h : Moves GroupRow.tenantId (fun r => [r.id]) t ids db.groups rows) :
    Stays t ids db { db with groups := rows } := by
  apply stays_of_table Db.Naming.groups
  · intro table hne
    cases table with
    | groups => exact absurd rfl hne
    | _ => rfl
  · exact h.names
  · intro t' hne
    unfold Db.of
    rw [h.others t' hne]

theorem stays_bundles {rows : List BundleRow}
    (h : Moves BundleRow.tenantId (fun r => [r.id]) t ids db.bundles rows) :
    Stays t ids db { db with bundles := rows } := by
  apply stays_of_table Db.Naming.bundles
  · intro table hne
    cases table with
    | bundles => exact absurd rfl hne
    | _ => rfl
  · exact h.names
  · intro t' hne
    unfold Db.of
    rw [h.others t' hne]

theorem stays_assignments {rows : List BundleAssignmentRow}
    (h : Moves BundleAssignmentRow.tenantId (fun r => [r.groupId, r.bundleId]) t ids
      db.bundleAssignments rows) :
    Stays t ids db { db with bundleAssignments := rows } := by
  apply stays_of_table Db.Naming.assignments
  · intro table hne
    cases table with
    | assignments => exact absurd rfl hne
    | _ => rfl
  · exact h.names
  · intro t' hne
    unfold Db.of
    rw [h.others t' hne]

/-!
## Hosts and what hangs off them
-/

theorem isHost_tenant {h : HostRow} (hrow : isHost t hostId h = true) :
    h.tenantId = t :=
  (isHost_iff.mp hrow).1

theorem ofHost_tenant {rowHost : String} {rowTenant : Int}
    (h : ofHost t hostId rowTenant rowHost = true) : rowTenant = t :=
  beq_iff_eq.mp ((Bool.and_eq_true _ _).mp h).1

theorem moves_setHost {p : HostRow -> Bool}
    (hf : forall h : HostRow, (f h).tenantId = h.tenantId ∧ (f h).id = h.id)
    (hp : forall h, p h = true -> isHost t hostId h = true) (rows : List HostRow) :
    Moves HostRow.tenantId (fun r => [r.id]) t ids rows (updateWhere p f rows) := by
  apply moves_updateWhere
  intro r _ hr
  have ht : r.tenantId = t := isHost_tenant (hp r hr)
  refine ⟨ht, (hf r).1.trans ht, ?_⟩
  intro id hid
  rw [(hf r).2] at hid
  exact Or.inr hid

theorem within_setHost {p : HostRow -> Bool}
    (hf : forall h : HostRow, (f h).tenantId = h.tenantId ∧ (f h).id = h.id) :
    Tx.Within (Stays t ids) (HostRepo.setHost t hostId p f) := by
  apply Tx.within_total
  intro db
  apply stays_hosts
  apply moves_setHost hf
  intro h hmatch
  exact ((Bool.and_eq_true _ _).mp hmatch).1

theorem within_setHost_ {p : HostRow -> Bool}
    (hf : forall h : HostRow, (f h).tenantId = h.tenantId ∧ (f h).id = h.id) :
    Tx.Within (Stays t ids) (HostRepo.setHost_ t hostId p f) := by
  apply Tx.within_total
  intro db
  apply stays_hosts
  apply moves_setHost hf
  intro h hmatch
  exact ((Bool.and_eq_true _ _).mp hmatch).1

theorem within_createPending {expiresAt : Int} :
    Tx.Within (Stays t [id]) (HostRepo.createPending id t nonceHash expiresAt now) := by
  apply Tx.within_guarded
  intro db _
  apply stays_hosts
  apply moves_append
  · rfl
  · intro id' hid
    exact Or.inl hid

theorem within_insertCert {cert : EnrolledCert} :
    Tx.Within (Stays t [hostId]) (insertCert (certRow t hostId cert)) := by
  apply Tx.within_guarded
  intro db _
  apply stays_certs
  apply moves_append
  · rfl
  · intro id hid
    exact Or.inl hid

theorem stays_enroll {hostname os : Option String} {cert : EnrolledCert}
    (h : HostRepo.enroll t hostId nonceHash hostname os cert now db = Except.ok (found, db')) :
    Stays t [] db db' := by
  have hwaits : forall r, HostRepo.waitsFor t hostId nonceHash now r = true ->
      isHost t hostId r = true := by
    intro r hr
    simp only [HostRepo.waitsFor, Bool.and_eq_true] at hr
    exact hr.1.1.1
  unfold HostRepo.enroll at h
  simp only at h
  split at h
  · cases h
    exact stays_refl db
  · rename_i haffected
    split at h
    · cases h
    · rename_i burned hinsert
      cases h
      have hburned : Stays t [hostId] db { db with
          hosts := updateWhere (HostRepo.waitsFor t hostId nonceHash now)
            (HostRepo.enrolled hostname os now) db.hosts } := by
        apply stays_hosts
        apply moves_setHost _ hwaits
        intro r
        exact ⟨rfl, rfl⟩
      apply stays_known (stays_trans _ _ _ hburned (within_insertCert _ _ _ hinsert))
      intro id hid
      have hpos : 0 < affected (HostRepo.waitsFor t hostId nonceHash now) db.hosts := by
        rw [Classical.not_not.mp haffected]
        exact Nat.one_pos
      rcases List.countP_pos_iff.mp hpos with ⟨r, hr, hmatch⟩
      have hrow := isHost_iff.mp (hwaits r hmatch)
      have hname := Db.names_host hr
      rw [hrow.1, hrow.2] at hname
      rw [List.mem_singleton.mp hid]
      exact hname

theorem stays_deleteHost (h : HostRepo.delete t hostId db = Except.ok (found, db')) :
    Stays t ids db db' := by
  unfold HostRepo.delete at h
  simp only at h
  split at h
  · cases h
  · cases h
    apply stays_trans _ _ _ (stays_tags (moves_deleteWhere (fun r _ hr => ofHost_tenant hr)))
    apply stays_trans _ _ _ (stays_overrides (moves_deleteWhere (fun r _ hr => ofHost_tenant hr)))
    apply stays_trans _ _ _ (stays_facts (moves_deleteWhere (fun r _ hr => ofHost_tenant hr)))
    apply stays_trans _ _ _ (stays_changes (moves_deleteWhere (fun r _ hr => ofHost_tenant hr)))
    apply stays_trans _ _ _ (stays_certs (moves_deleteWhere (fun r _ hr => ofHost_tenant hr)))
    exact stays_hosts (moves_deleteWhere (fun r _ hr => isHost_tenant hr))

theorem within_revoke {expiresAt : Int} :
    Tx.Within (Stays t ids)
      (HostRepo.revokeCertsAndResetToPending t hostId nonceHash expiresAt now) := by
  apply Tx.within_total
  intro db
  simp only
  split
  · apply stays_trans _ _ _ (stays_certs (moves_updateWhere (fun r _ hr => ?_)))
    · apply stays_hosts
      apply moves_setHost
      · intro r
        exact ⟨rfl, rfl⟩
      · intro r hr
        exact hr
    · have ht := ofHost_tenant ((Bool.and_eq_true _ _).mp hr).1
      exact ⟨ht, ht, fun id hid => Or.inr hid⟩
  · exact stays_refl db

theorem moves_retireRows {serial : String} (rows : List HostCertRow) :
    Moves HostCertRow.tenantId (fun r => [r.hostId]) t ids rows
      (HostCertRepo.retireRows t hostId serial now rows) := by
  induction rows with
  | nil => exact moves_rows_refl _
  | cons c rest ih =>
      unfold HostCertRepo.retireRows
      split
      · exact moves_rows_refl _
      · constructor
        · intro id t' hmem
          rcases mem_named.mp hmem with ⟨r, hr, hid, ht⟩
          rcases List.mem_cons.mp hr with hhead | htail
          · left
            refine mem_named.mpr ⟨c, List.mem_cons_self, ?_, ?_⟩
            · rw [hhead] at hid
              split at hid
              · exact hid
              · exact hid
            · rw [← ht, hhead]
              split
              · rfl
              · rfl
          · rcases ih.names id t' (mem_named.mpr ⟨r, htail, hid, ht⟩) with hold | hnew
            · rcases mem_named.mp hold with ⟨r', hr', hid', ht'⟩
              exact Or.inl (mem_named.mpr ⟨r', List.mem_cons_of_mem c hr', hid', ht'⟩)
            · exact Or.inr hnew
        · intro t' hne
          rw [List.filter_cons, List.filter_cons, ih.others t' hne]
          split
          · rename_i hlive
            have hc : c.tenantId = t := by
              simp only [HostCertRepo.isLive, Bool.and_eq_true] at hlive
              exact ofHost_tenant hlive.1.1
            rw [if_neg, if_neg]
            · rw [other_tenant hne hc]
              decide
            · show ¬(c.tenantId == t') = true
              rw [other_tenant hne hc]
              decide
          · rfl

theorem within_retireSuperseded {serial : String} :
    Tx.Within (Stays t ids) (HostCertRepo.retireSuperseded t hostId serial now) := by
  apply Tx.within_total
  intro db
  split
  · exact stays_certs (moves_retireRows db.hostCerts)
  · exact stays_refl db

/-!
## Upserts by host
-/

theorem tenant_of_conflict {Row : Type} {tenant : Row -> Int} {hostOf : Row -> String}
    {rows : List Row} (hnames : forall r, r ∈ rows -> db.Names (hostOf r) (tenant r))
    (hhost : forall t', db.Names hostId t' -> t' = t) {r : Row} (hr : r ∈ rows)
    (hid : hostOf r = hostId) : tenant r = t := by
  have hname := hnames r hr
  rw [hid] at hname
  exact hhost _ hname

theorem stays_upsertOverride {row : HostOverrideRow} (ht : row.tenantId = t)
    (hhost : forall t', db.Names row.hostId t' -> t' = t)
    (h : HostOverridesRepo.upsert row db = Except.ok (u, db')) :
    Stays t [row.hostId] db db' := by
  rw [show db' = _ from (congrArg Prod.snd (Tx.guarded_eq_ok.mp h).2).symm]
  apply stays_overrides
  apply moves_upsert
  · intro r hr hconflict
    have hown := tenant_of_conflict (fun r => Db.names_override) hhost hr
      (beq_iff_eq.mp hconflict)
    exact ⟨hown, ht, fun id hid => Or.inl hid⟩
  · exact ht
  · intro id hid
    exact hid

theorem moves_putRow {row : HostTagRow} {tags : List HostTagRow} (ht : row.tenantId = t)
    (hrow : row.hostId = hostId) (hhost : forall r, r ∈ tags -> r.hostId = hostId -> r.tenantId = t)
    :
    Moves HostTagRow.tenantId (fun r => [r.hostId]) t [hostId] tags
      (HostTagsRepo.putRow row tags) := by
  rw [← hrow] at hhost ⊢
  apply moves_upsert
  · intro r hr hconflict
    simp only [HostTagsRepo.isTag, Bool.and_eq_true, beq_iff_eq] at hconflict
    exact ⟨hhost r hr hconflict.1.1, ht, fun id hid => Or.inl hid⟩
  · exact ht
  · intro id hid
    exact hid

theorem stays_upsertManual {key value : String} (hhost : forall t', db.Names hostId t' -> t' = t)
    (h : HostTagsRepo.upsertManual t hostId key value now db = Except.ok (u, db')) :
    Stays t [hostId] db db' := by
  unfold HostTagsRepo.upsertManual at h
  rw [show db' = _ from (congrArg Prod.snd (Tx.guarded_eq_ok.mp h).2).symm]
  apply stays_tags
  apply moves_putRow
  · rfl
  · rfl
  · intro r hr hid
    exact tenant_of_conflict (fun r => Db.names_tag) hhost hr hid

theorem moves_putAgentTags (reported : List (String × String)) (tags : List HostTagRow)
    (hhost : forall r, r ∈ tags -> r.hostId = hostId -> r.tenantId = t) :
    Moves HostTagRow.tenantId (fun r => [r.hostId]) t [hostId] tags
      (HostTagsRepo.putAgentTags t hostId now reported tags).2 := by
  induction reported generalizing tags with
  | nil => exact moves_rows_refl _
  | cons tag rest ih =>
      have hput : Moves HostTagRow.tenantId (fun r => [r.hostId]) t [hostId] tags
          (HostTagsRepo.putAgentTag t hostId now tag tags).2 := by
        apply moves_putRow
        · rfl
        · rfl
        · exact hhost
      apply moves_rows_trans hput
      apply ih
      intro r hr hid
      have hname : (hostId, r.tenantId) ∈ named HostTagRow.tenantId (fun r => [r.hostId])
          (HostTagsRepo.putAgentTag t hostId now tag tags).2 :=
        mem_named.mpr ⟨r, hr, by rw [hid]; exact List.mem_singleton_self _, rfl⟩
      rcases hput.names _ _ hname with hold | hnew
      · rcases mem_named.mp hold with ⟨r', hr', hid', ht'⟩
        rw [← ht']
        exact hhost r' hr' (List.mem_singleton.mp hid').symm
      · exact hnew.2

theorem stays_replaceAgentTags {reported : List (String × String)} {changed : Bool}
    (hhost : forall t', db.Names hostId t' -> t' = t)
    (h : HostTagsRepo.replaceAgentTags t hostId reported now db = Except.ok (changed, db')) :
    Stays t [hostId] db db' := by
  unfold HostTagsRepo.replaceAgentTags at h
  split at h
  · cases h
  · cases h
    apply stays_tags
    have hstale : Moves HostTagRow.tenantId (fun r => [r.hostId]) t [hostId] db.hostTags
        (deleteWhere (HostTagsRepo.isStale t hostId reported) db.hostTags) := by
      apply moves_deleteWhere
      intro r _ hr
      simp only [HostTagsRepo.isStale, Bool.and_eq_true] at hr
      exact ofHost_tenant hr.1.1
    apply moves_rows_trans hstale
    apply moves_putAgentTags
    intro r hr hid
    exact tenant_of_conflict (fun r => Db.names_tag) hhost (mem_of_mem_deleteWhere hr) hid

/-!
## Documents
-/

theorem mem_of_mem_keepNewest {p : HostFactChangeRow -> Bool} {keep : Int}
    {rows : List HostFactChangeRow} {r : HostFactChangeRow}
    (hr : r ∈ HostFactsRepo.keepNewest p keep rows) : r ∈ rows := by
  cases hp : p r with
  | true =>
      have hmem := List.mem_filter.mpr ⟨hr, hp⟩
      rw [HostFactsRepo.filter_keepNewest] at hmem
      exact (List.mem_filter.mp (List.mem_of_mem_drop hmem)).1
  | false =>
      have hmem : r ∈ (HostFactsRepo.keepNewest p keep rows).filter fun r => !p r :=
        List.mem_filter.mpr ⟨hr, by rw [hp]; rfl⟩
      rw [HostFactsRepo.filter_keepNewest_other keep (fun r h => by rw [h]; rfl)] at hmem
      exact (List.mem_filter.mp hmem).1

theorem moves_keepNewest {p : HostFactChangeRow -> Bool} (keep : Int)
    (hp : forall r, p r = true -> r.tenantId = t) (rows : List HostFactChangeRow) :
    Moves HostFactChangeRow.tenantId (fun r => [r.hostId]) t ids rows
      (HostFactsRepo.keepNewest p keep rows) := by
  apply moves_of_rows
  · intro r hr
    exact Or.inl (mem_of_mem_keepNewest hr)
  · intro t' hne
    apply HostFactsRepo.filter_keepNewest_other
    intro r hr
    exact other_tenant hne (hp r hr)

theorem stays_storeRows {doc : NewFacts} {keepHistory : Int}
    (hhost : forall t', db.Names hostId t' -> t' = t) :
    Stays t [hostId] db (HostFactsRepo.storeRows t hostId doc keepHistory now db) := by
  have hfacts : Moves HostFactsRow.tenantId (fun r => [r.hostId]) t [hostId] db.hostFacts
      (HostFactsRepo.storeRows t hostId doc keepHistory now db).hostFacts := by
    apply moves_upsert
    · intro r hr hconflict
      simp only [Bool.and_eq_true, beq_iff_eq] at hconflict
      have hown := tenant_of_conflict (fun r => Db.names_facts) hhost hr hconflict.1
      exact ⟨hown, hown, fun id hid => Or.inl hid⟩
    · rfl
    · intro id hid
      exact hid
  have hchanges : Moves HostFactChangeRow.tenantId (fun r => [r.hostId]) t [hostId]
      db.hostFactChanges
      (HostFactsRepo.storeRows t hostId doc keepHistory now db).hostFactChanges := by
    unfold HostFactsRepo.storeRows
    cases doc.history with
    | none => exact moves_rows_refl _
    | some entry =>
        have hadded : Moves HostFactChangeRow.tenantId (fun r => [r.hostId]) t [hostId]
            db.hostFactChanges (db.hostFactChanges ++
              [HostFactsRepo.changeRow t hostId doc now entry]) := by
          apply moves_append
          · rfl
          · intro id hid
            exact Or.inl hid
        apply moves_rows_trans hadded
        apply moves_keepNewest
        intro r hr
        exact (HostFactsRepo.isChange_iff.mp hr).1
  exact stays_trans _ _ _ (stays_facts hfacts) (stays_changes hchanges)

/-- The host is there, so that no other tenant's rows name it. -/
theorem stays_replaceFacts {doc : NewFacts} {keepHistory : Int} {outcome : ReplaceOutcome}
    (hsingle : db.Single)
    (h : HostFactsRepo.replace t hostId doc keepHistory now db = Except.ok (outcome, db')) :
    Stays t [] db db' := by
  unfold HostFactsRepo.replace at h
  simp only at h
  split at h
  · cases h
  · split at h
    · cases h
      exact stays_refl db
    · rename_i hthere
      simp only [Bool.not_eq_true', Bool.not_eq_false] at hthere
      rcases List.any_eq_true.mp hthere with ⟨r, hr, hrow⟩
      have hname := Db.names_host hr
      rw [(isHost_iff.mp hrow).1, (isHost_iff.mp hrow).2] at hname
      split at h
      · cases h
        exact stays_refl db
      · split at h
        · cases h
          exact stays_refl db
        · cases h
          apply stays_known (stays_storeRows (fun t' ht' => hsingle _ _ _ ht' hname))
          intro id hid
          rw [List.mem_singleton.mp hid]
          exact hname

theorem within_refreshCollectedAt {factsHash collectedAt : String} :
    Tx.Within (Stays t ids)
      (HostFactsRepo.refreshCollectedAt t hostId source factsHash collectedAt now) := by
  apply Tx.within_total
  intro db
  apply stays_facts
  apply moves_updateWhere
  intro r _ hr
  simp only [HostFactsRepo.isDoc, Bool.and_eq_true] at hr
  have ht := ofHost_tenant hr.1.1.1
  exact ⟨ht, ht, fun id hid => Or.inr hid⟩

theorem within_deleteFacts :
    Tx.Within (Stays t ids) (HostFactsRepo.delete t hostId source) := by
  apply Tx.within_total
  intro db
  apply stays_trans _ _ _ (stays_facts (moves_deleteWhere ?_))
    (stays_changes (moves_deleteWhere ?_))
  · intro r _ hr
    exact ofHost_tenant ((Bool.and_eq_true _ _).mp hr).1
  · intro r _ hr
    exact (HostFactsRepo.isChange_iff.mp hr).1

theorem within_deleteFactsSource :
    Tx.Within (Stays t ids) (HostFactsRepo.deleteSource t source) := by
  apply Tx.within_total
  intro db
  apply stays_trans _ _ _ (stays_facts (moves_deleteWhere ?_))
    (stays_changes (moves_deleteWhere ?_))
  · intro r _ hr
    exact beq_iff_eq.mp ((Bool.and_eq_true _ _).mp hr).1
  · intro r _ hr
    exact beq_iff_eq.mp ((Bool.and_eq_true _ _).mp hr).1

/-!
## Tags and overrides without a conflict
-/

theorem within_deleteOverride :
    Tx.Within (Stays t ids) (HostOverridesRepo.delete t hostId) := by
  apply Tx.within_total
  intro db
  apply stays_overrides
  apply moves_deleteWhere
  intro r _ hr
  exact ofHost_tenant hr

theorem within_deleteManualTag {key : String} :
    Tx.Within (Stays t ids) (HostTagsRepo.deleteManualTag t hostId key) := by
  apply Tx.within_total
  intro db
  apply stays_tags
  apply moves_deleteWhere
  intro r _ hr
  exact beq_iff_eq.mp ((Bool.and_eq_true _ _).mp hr).1

/-!
## Groups
-/

theorem isGroup_tenant {g : GroupRow} (hg : GroupsRepo.isGroup t id g = true) :
    g.tenantId = t :=
  beq_iff_eq.mp ((Bool.and_eq_true _ _).mp hg).1

theorem within_insertGroup {row : GroupRow} (ht : row.tenantId = t) (hid : row.id ∈ ids) :
    Tx.Within (Stays t ids) (GroupsRepo.insertRow row) := by
  apply Tx.within_guarded
  intro db _
  apply stays_groups
  apply moves_append
  · exact ht
  · intro id hid'
    rw [List.mem_singleton.mp hid']
    exact Or.inl hid

theorem within_updateGroup {name selectorJson : Option String} :
    Tx.Within (Stays t ids) (GroupsRepo.update t id name selectorJson) := by
  apply Tx.within_guarded
  intro db _
  apply stays_groups
  apply moves_updateWhere
  intro g _ hg
  exact ⟨isGroup_tenant hg, isGroup_tenant hg, fun id hid => Or.inr hid⟩

theorem within_deleteGroup :
    Tx.Within (Stays t ids) (GroupsRepo.delete t id) := by
  apply Tx.within_guarded
  intro db _
  apply stays_groups
  apply moves_deleteWhere
  intro g _ hg
  exact isGroup_tenant hg

/-!
## Bundles
-/

theorem isBundle_tenant {b : BundleRow} (hb : BundlesRepo.isBundle t id b = true) :
    b.tenantId = t :=
  beq_iff_eq.mp ((Bool.and_eq_true _ _).mp hb).1

theorem within_insertBundle {row : BundleRow} (ht : row.tenantId = t) (hid : row.id ∈ ids) :
    Tx.Within (Stays t ids) (BundlesRepo.insertRow row) := by
  apply Tx.within_guarded
  intro db _
  apply stays_bundles
  apply moves_append
  · exact ht
  · intro id hid'
    rw [List.mem_singleton.mp hid']
    exact Or.inl hid

theorem within_deleteBundleRow :
    Tx.Within (Stays t ids) (BundlesRepo.deleteRow t id) := by
  apply Tx.within_guarded
  intro db _
  apply stays_bundles
  apply moves_deleteWhere
  intro b _ hb
  exact isBundle_tenant hb

theorem stays_deleteBundle (h : BundlesRepo.delete t id db = Except.ok (found, db')) :
    Stays t ids db db' := by
  unfold BundlesRepo.delete at h
  simp only at h
  split at h
  · cases h
  · cases h
    apply stays_trans _ _ _ (stays_assignments (moves_deleteWhere ?_))
      (stays_bundles (moves_deleteWhere ?_))
    · intro r _ hr
      exact beq_iff_eq.mp ((Bool.and_eq_true _ _).mp hr).1
    · intro b _ hb
      exact isBundle_tenant hb

theorem within_replaceSignature {signature : String} :
    Tx.Within (Stays t ids) (BundlesRepo.replaceSignature t id signature) := by
  apply Tx.within_total
  intro db
  apply stays_bundles
  apply moves_updateWhere
  intro b _ hb
  exact ⟨isBundle_tenant hb, isBundle_tenant hb, fun id hid => Or.inr hid⟩

theorem within_renameRow {r : RenamedInPlace} :
    Tx.Within (Stays t ids) (BundlesRepo.renameRow t from_ to_ r) := by
  apply Tx.within_guarded
  intro db _
  apply stays_bundles
  apply moves_updateWhere
  intro b _ hb
  have ht := isBundle_tenant ((Bool.and_eq_true _ _).mp hb).1
  exact ⟨ht, ht, fun id hid => Or.inr hid⟩

theorem within_repoint {oldId newId : String} (hid : newId ∈ ids) :
    Tx.Within (Stays t ids) (BundlesRepo.repoint t oldId newId) := by
  apply Tx.within_guarded
  intro db _
  apply stays_assignments
  apply moves_updateWhere
  intro r _ hr
  have ht : r.tenantId = t := beq_iff_eq.mp ((Bool.and_eq_true _ _).mp hr).1
  refine ⟨ht, ht, ?_⟩
  intro id hnames
  rcases List.mem_cons.mp hnames with hgroup | hbundle
  · rw [hgroup]
    exact Or.inr List.mem_cons_self
  · rw [List.mem_singleton.mp hbundle]
    exact Or.inl hid

theorem within_moveRow {m : MovedBundle} (hid : m.newId ∈ ids) :
    Tx.Within (Stays t ids) (BundlesRepo.moveRow t from_ to_ m) := by
  intro db a db' h
  unfold BundlesRepo.moveRow at h
  split at h
  · cases h
    exact stays_refl db
  · rename_i b hfind
    have hrow := List.find?_some hfind
    simp only [Bool.and_eq_true] at hrow
    have ht : b.tenantId = t := isBundle_tenant hrow.1
    have hmoved : Tx.Within (Stays t ids)
        (do
          BundlesRepo.insertRow (BundlesRepo.movedRow to_ m b)
          BundlesRepo.repoint t m.oldId m.newId
          BundlesRepo.deleteRow t m.oldId
          return true : Tx Bool) := by
      have hinsert : Tx.Within (Stays t ids)
          (BundlesRepo.insertRow (BundlesRepo.movedRow to_ m b)) := by
        apply within_insertBundle
        · exact ht
        · exact hid
      apply Tx.within_bind stays_trans hinsert
      intro _
      apply Tx.within_bind stays_trans (within_repoint hid)
      intro _
      apply Tx.within_bind stays_trans within_deleteBundleRow
      intro _
      exact Tx.within_pure stays_refl true
    exact hmoved db a db' h

theorem within_bumpInside : Tx.Within (Stays t ids) (bumpInside t) := by
  apply Tx.within_total
  intro db
  apply stays_tenants
  apply moves_updateWhere
  intro r _ hr
  exact ⟨beq_iff_eq.mp hr, beq_iff_eq.mp hr, fun id hid => Or.inr hid⟩

theorem within_bumpConfigVersion : Tx.Within (Stays t ids) (TenantRepo.bumpConfigVersion t) := by
  intro db a db' h
  unfold TenantRepo.bumpConfigVersion at h
  split at h
  · cases h
  · cases h
    exact within_bumpInside db () _ rfl

theorem within_finishRename :
    Tx.Within (Stays t ids) (BundlesRepo.finishRename t from_) := by
  intro db a db' h
  unfold BundlesRepo.finishRename at h
  split at h
  · cases h
    exact stays_refl db
  · have hbump : Tx.Within (Stays t ids)
        (do
          bumpInside t
          return RenameOutcome.renamed : Tx RenameOutcome) := by
      apply Tx.within_bind stays_trans within_bumpInside
      intro _
      exact Tx.within_pure stays_refl RenameOutcome.renamed
    exact hbump db a db' h

theorem within_renameBody {inPlace : List RenamedInPlace} {moved : List MovedBundle}
    (hids : forall m, m ∈ moved -> m.newId ∈ ids) :
    Tx.Within (Stays t ids) (BundlesRepo.renameBody t from_ to_ inPlace moved) := by
  have hbody : Tx.Within (Stays t ids)
      (do
        if ← BundlesRepo.allRows (BundlesRepo.renameRow t from_ to_) inPlace then
          if ← BundlesRepo.allRows (BundlesRepo.moveRow t from_ to_) moved then
            BundlesRepo.finishRename t from_
          else return RenameOutcome.changed
        else return RenameOutcome.changed : Tx RenameOutcome) := by
    apply Tx.within_bind stays_trans
    · exact within_allRows stays_refl stays_trans (fun r _ => within_renameRow)
    · intro renamed
      cases renamed with
      | false => exact Tx.within_pure stays_refl _
      | true =>
          apply Tx.within_bind stays_trans
          · exact within_allRows stays_refl stays_trans
              (fun m hm => within_moveRow (hids m hm))
          · intro ok
            cases ok with
            | false => exact Tx.within_pure stays_refl _
            | true => exact within_finishRename
  intro db a db' h
  unfold BundlesRepo.renameBody at h
  split at h
  · cases h
    exact stays_refl db
  · exact hbody db a db' h

theorem within_rename {inPlace : List RenamedInPlace} {moved : List MovedBundle}
    (hids : forall m, m ∈ moved -> m.newId ∈ ids) :
    Tx.Within (Stays t ids) (BundlesRepo.rename t from_ to_ inPlace moved) := by
  intro db a db' h
  unfold BundlesRepo.rename at h
  split at h
  · cases h
  · rename_i after hbody
    cases h
    exact within_renameBody hids db _ _ hbody
  · cases h
    exact stays_refl db

/-!
## Assignments
-/

theorem stays_assign {groupId bundleId : String} {priority : Int}
    (hgroup : forall t', db.Names groupId t' -> t' = t)
    (h : BundleAssignmentsRepo.assign t groupId bundleId priority now db =
      Except.ok (u, db')) : Stays t [groupId, bundleId] db db' := by
  unfold BundleAssignmentsRepo.assign at h
  rw [show db' = _ from (congrArg Prod.snd (Tx.guarded_eq_ok.mp h).2).symm]
  apply stays_assignments
  apply moves_upsert
  · intro r hr hconflict
    have hsame := beq_iff_eq.mp ((Bool.and_eq_true _ _).mp hconflict).1
    have hown := tenant_of_conflict (fun r hr => (Db.names_assignment hr).1) hgroup hr hsame
    exact ⟨hown, hown, fun id hid => Or.inr hid⟩
  · rfl
  · intro id hid
    exact hid

theorem within_unassign {groupId bundleId : String} :
    Tx.Within (Stays t ids) (BundleAssignmentsRepo.unassign t groupId bundleId) := by
  apply Tx.within_total
  intro db
  apply stays_assignments
  apply moves_deleteWhere
  intro r _ hr
  simp only [Bool.and_eq_true, beq_iff_eq] at hr
  exact hr.1.1

/-!
## A whole configuration
-/

theorem within_deleteAssignments :
    Tx.Within (Stays t ids) (ConfigSourceRepo.deleteAssignments t) := by
  apply Tx.within_total
  intro db
  apply stays_assignments
  apply moves_deleteWhere
  intro r _ hr
  exact beq_iff_eq.mp hr

theorem within_putGroup {g : PlannedGroup} (hid : g.create = true -> g.id ∈ ids) :
    Tx.Within (Stays t ids) (ConfigSourceRepo.putGroup t now g) := by
  unfold ConfigSourceRepo.putGroup
  split
  · rename_i hcreate
    exact within_insertGroup rfl (hid hcreate)
  · apply Tx.within_bind stays_trans within_updateGroup
    intro _
    exact Tx.within_pure stays_refl ()

theorem within_insertAssignment {a : String × String × Int} (hgroup : a.1 ∈ ids)
    (hbundle : a.2.1 ∈ ids) :
    Tx.Within (Stays t ids) (ConfigSourceRepo.insertAssignment t now a) := by
  apply Tx.within_guarded
  intro db _
  apply stays_assignments
  apply moves_append
  · rfl
  · intro id hid
    left
    rcases List.mem_cons.mp hid with hfirst | hsecond
    · rw [hfirst]
      exact hgroup
    · rw [List.mem_singleton.mp hsecond]
      exact hbundle

/-- The ids a plan gives to rows or refers to. -/
def ConfigPlan.names (plan : ConfigPlan) : List String :=
  plan.insertBundles.map PlannedBundle.id ++
    ((plan.groups.filter PlannedGroup.create).map PlannedGroup.id ++
      plan.assignments.flatMap fun a => [a.1, a.2.1])

theorem within_replaceAll {plan : ConfigPlan} :
    Tx.Within (Stays t plan.names) (ConfigSourceRepo.replaceAll t plan now) := by
  apply Tx.within_bind stays_trans within_deleteAssignments
  intro _
  apply Tx.within_bind stays_trans
    (within_forEach stays_refl stays_trans (fun id _ => within_deleteBundleRow))
  intro _
  apply Tx.within_bind stays_trans
  · apply within_forEach stays_refl stays_trans
    intro b hb
    apply within_insertBundle
    · rfl
    · exact List.mem_append_left _ (List.mem_map.mpr ⟨b, hb, rfl⟩)
  · intro _
    apply Tx.within_bind stays_trans
    · apply within_forEach stays_refl stays_trans
      intro id _
      apply Tx.within_bind stays_trans within_deleteGroup
      intro _
      exact Tx.within_pure stays_refl ()
    · intro _
      apply Tx.within_bind stays_trans
      · apply within_forEach stays_refl stays_trans
        intro g hg
        apply within_putGroup
        intro hcreate
        exact List.mem_append_right _ (List.mem_append_left _
          (List.mem_map.mpr ⟨g, List.mem_filter.mpr ⟨hg, hcreate⟩, rfl⟩))
      · intro _
        apply Tx.within_bind stays_trans
        · apply within_forEach stays_refl stays_trans
          intro a ha
          apply within_insertAssignment
          · exact List.mem_append_right _ (List.mem_append_right _
              (List.mem_flatMap.mpr ⟨a, ha, List.mem_cons_self⟩))
          · exact List.mem_append_right _ (List.mem_append_right _
              (List.mem_flatMap.mpr ⟨a, ha, List.mem_cons_of_mem _ List.mem_cons_self⟩))
        · intro _
          exact within_bumpInside

theorem within_apply {plan : ConfigPlan} :
    Tx.Within (Stays t plan.names) (ConfigSourceRepo.apply t plan now) := by
  intro db a db' h
  unfold ConfigSourceRepo.apply at h
  split at h
  · have hall : Tx.Within (Stays t plan.names)
        (do
          ConfigSourceRepo.replaceAll t plan now
          return ApplyOutcome.applied : Tx ApplyOutcome) := by
      apply Tx.within_bind stays_trans within_replaceAll
      intro _
      exact Tx.within_pure stays_refl _
    exact hall db a db' h
  · cases h
    exact stays_refl db

end Stays

end Storage

end FleetServer
