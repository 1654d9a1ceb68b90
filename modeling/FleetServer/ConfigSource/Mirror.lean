import FleetServer.ConfigSource.Plan

/-!
# A tenant that equals its directory

What it means that the tables hold a configuration, and that an applied plan,
or one that had nothing to change, makes them hold it.
-/

namespace FleetServer
namespace ConfigSource

open FleetServer.Core
open Storage
open Table
open Server
open Concurrency
open KeyedMap

variable {deps : Deps}

/-!
# Contents
-/

/-- A row and its file hold what the directory has: the bytes by their digest,
or the same files in a zip made otherwise. -/
def HasContents (deps : Deps) (files : Map (Int × String) Bytes) (row : BundleRow) :
    BundleContents -> Prop
  | BundleContents.tree entries =>
      row.format = EncBundle.formatPlain ∧
        ((exists bytes, Bundles.buildZipFromEntries deps entries = some bytes ∧
            row.sha256 = deps.sha256Hex bytes) ∨
          exists stored read, files.lookup (row.tenantId, row.id) = some stored ∧
            Bundles.readZipEntries deps stored = Except.ok read ∧ sortByPath read = entries)
  | BundleContents.plainBlob bytes =>
      row.format = EncBundle.formatPlain ∧ row.sha256 = deps.sha256Hex bytes
  | BundleContents.encrypted bytes =>
      row.format = EncBundle.formatEncV1 ∧ row.sha256 = deps.sha256Hex bytes

def sameContents (deps : Deps) (files : Map (Int × String) Bytes) (row : BundleRow)
    (b : BuiltBundle) : Bool :=
  decide (row.format = b.format) && (decide (row.sha256 = b.sha256) ||
    match b.tree, files.lookup (row.tenantId, row.id) with
    | some tree, some stored => sameTree deps tree stored
    | _, _ => false)

theorem sameContents_congr {files files' : Map (Int × String) Bytes} {row : BundleRow}
    (h : files'.lookup (row.tenantId, row.id) = files.lookup (row.tenantId, row.id))
    (b : BuiltBundle) : sameContents deps files' row b = sameContents deps files row b := by
  unfold sameContents
  rw [h]

theorem sameTree_iff {tree : List (String × Bytes)} {stored : Bytes} :
    sameTree deps tree stored = true <-> exists read,
      Bundles.readZipEntries deps stored = Except.ok read ∧ sortByPath read = tree := by
  unfold sameTree
  cases hread : Bundles.readZipEntries deps stored with
  | error e =>
      constructor
      · intro h
        cases h
      · rintro ⟨read, h, _⟩
        cases h
  | ok entries =>
      simp only [beq_iff_eq]
      constructor
      · intro h
        exact ⟨entries, rfl, h⟩
      · rintro ⟨read, h, hsorted⟩
        cases h
        exact hsorted

/-- The comparison is right about the directory's contents. -/
theorem sameContents_iff {files : Map (Int × String) Bytes} {row : BundleRow}
    {spec : BundleSpec} {b : BuiltBundle} (hb : BuiltFrom deps spec b) :
    sameContents deps files row b = true <-> HasContents deps files row spec.contents := by
  rcases hb.contents with ⟨label, hcontents⟩
  unfold sameContents HasContents
  rw [hb.sha256]
  cases hspec : spec.contents with
  | tree entries =>
      rw [hspec] at hcontents
      unfold contentsOf at hcontents
      simp only at hcontents
      split at hcontents
      · rename_i bytes hzip
        rw [Except.ok.injEq, Prod.mk.injEq, Prod.mk.injEq, Prod.mk.injEq] at hcontents
        rcases hcontents with ⟨hformat, hbytes, _, htree⟩
        rw [← hformat, ← hbytes, ← htree]
        cases hstored : files.lookup (row.tenantId, row.id) with
        | none => simp [hzip]
        | some stored => simp [hzip, sameTree_iff]
      · cases hcontents
  | plainBlob bytes =>
      rw [hspec] at hcontents
      unfold contentsOf at hcontents
      simp only at hcontents
      split at hcontents
      · cases hcontents
      · rw [Except.ok.injEq, Prod.mk.injEq, Prod.mk.injEq, Prod.mk.injEq] at hcontents
        rcases hcontents with ⟨hformat, hbytes, _, htree⟩
        rw [← hformat, ← hbytes, ← htree]
        simp
  | encrypted bytes =>
      rw [hspec] at hcontents
      unfold contentsOf at hcontents
      simp only at hcontents
      split at hcontents
      · rw [Except.ok.injEq, Prod.mk.injEq, Prod.mk.injEq, Prod.mk.injEq] at hcontents
        rcases hcontents with ⟨hformat, hbytes, _, htree⟩
        rw [← hformat, ← hbytes, ← htree]
        simp
      · cases hcontents

/-!
# Mirrors
-/

def tenantBundles (tenantId : Int) (db : Db) : List BundleRow :=
  db.bundles.filter fun b => b.tenantId == tenantId

def tenantGroups (tenantId : Int) (db : Db) : List GroupRow :=
  db.groups.filter fun g => g.tenantId == tenantId

theorem mem_tenantBundles {tenantId : Int} {db : Db} {row : BundleRow} :
    row ∈ tenantBundles tenantId db <-> row ∈ db.bundles ∧ row.tenantId = tenantId := by
  unfold tenantBundles
  rw [List.mem_filter, beq_iff_eq]

theorem mem_tenantGroups {tenantId : Int} {db : Db} {row : GroupRow} :
    row ∈ tenantGroups tenantId db <-> row ∈ db.groups ∧ row.tenantId = tenantId := by
  unfold tenantGroups
  rw [List.mem_filter, beq_iff_eq]

theorem nodup_tenantBundles {db : Db} (hkeys : ConfigKeys db) (tenantId : Int) :
    ((tenantBundles tenantId db).map fun b => (b.name, b.version)).Nodup := by
  have hall := hkeys.bundleVersions.sublist ((List.filter_sublist
    (p := fun b : BundleRow => b.tenantId == tenantId)).map
      fun b => (b.tenantId, b.name, b.version))
  apply List.Nodup.of_map (fun x => (tenantId, x))
  rw [List.map_map]
  have hsame : (tenantBundles tenantId db).map
      ((fun x => (tenantId, x)) ∘ fun b => (b.name, b.version)) =
        (tenantBundles tenantId db).map fun b => (b.tenantId, b.name, b.version) := by
    apply List.map_congr_left
    intro b hb
    rw [(mem_tenantBundles.mp hb).2]
    rfl
  rw [hsame]
  exact hall

theorem nodup_tenantGroups {db : Db} (hkeys : ConfigKeys db) (tenantId : Int) :
    ((tenantGroups tenantId db).map GroupRow.name).Nodup := by
  have hall := hkeys.groupNames.sublist ((List.filter_sublist
    (p := fun g : GroupRow => g.tenantId == tenantId)).map fun g => (g.tenantId, g.name))
  apply List.Nodup.of_map (fun x => (tenantId, x))
  rw [List.map_map]
  have hsame : (tenantGroups tenantId db).map ((fun x => (tenantId, x)) ∘ GroupRow.name) =
      (tenantGroups tenantId db).map fun g => (g.tenantId, g.name) := by
    apply List.map_congr_left
    intro g hg
    rw [(mem_tenantGroups.mp hg).2]
    rfl
  rw [hsame]
  exact hall

def Assigned (tenantId : Int) (db : Db) (group name version : String) (priority : Int) :
    Prop :=
  exists g b, g ∈ tenantGroups tenantId db ∧ b ∈ tenantBundles tenantId db ∧
    g.name = group ∧ b.name = name ∧ b.version = version ∧
      (g.id, b.id, priority) ∈ ConfigSourceRepo.listAssignments tenantId db

def Spec.Assigns (spec : Spec) (group name version : String) (priority : Int) : Prop :=
  exists g r, g ∈ spec.groups ∧ r ∈ g.bundles ∧
    g.name = group ∧ r.name = name ∧ r.version = version ∧ r.priority = priority

/-- The tenant's groups, bundles and assignments are exactly the directory's. -/
structure Mirrors (deps : Deps) (tenantId : Int) (spec : Spec) (w : World) : Prop where
  groups : ((tenantGroups tenantId w.db).map fun g => (g.name, g.selectorJson)).Perm
    (spec.groups.map fun g => (g.name, g.selectorJson))
  bundles : ((tenantBundles tenantId w.db).map fun b => (b.name, b.version)).Perm
    (spec.bundles.map fun b => (b.name, b.version))
  contents : forall row, row ∈ tenantBundles tenantId w.db -> forall b, b ∈ spec.bundles ->
    b.name = row.name -> b.version = row.version -> HasContents deps w.files row b.contents
  assignments : forall group name version priority,
    Assigned tenantId w.db group name version priority <->
      spec.Assigns group name version priority
  between : forall a, a ∈ ConfigSourceRepo.listAssignments tenantId w.db ->
    exists g b, g ∈ tenantGroups tenantId w.db ∧ b ∈ tenantBundles tenantId w.db ∧
      a.1 = g.id ∧ a.2.1 = b.id

theorem mirrors_congr {tenantId : Int} {spec : Spec} {w v : World} (hdb : v.db = w.db)
    (hfiles : v.files = w.files) (h : Mirrors deps tenantId spec w) :
    Mirrors deps tenantId spec v := by
  constructor
  · rw [hdb]
    exact h.groups
  · rw [hdb]
    exact h.bundles
  · rw [hdb, hfiles]
    exact h.contents
  · rw [hdb]
    exact h.assignments
  · rw [hdb]
    exact h.between

/-!
# Rows of a plan
-/

structure Realizes (deps : Deps) (tenantId : Int) (w : World)
    (picked : List (BuiltBundle × Choice)) (planned : List PlannedGroup)
    (assignments : List (String × String × Int)) : Prop where
  bundles : forall row, row ∈ tenantBundles tenantId w.db ->
    exists x, x ∈ picked ∧ row.id = x.2.id
  picked : forall x, x ∈ picked -> exists row, row ∈ tenantBundles tenantId w.db ∧
    row.id = x.2.id ∧ row.name = x.1.name ∧ row.version = x.1.version ∧
      sameContents deps w.files row x.1 = true
  groups : forall row, row ∈ tenantGroups tenantId w.db ->
    exists g, g ∈ planned ∧ row.id = g.id
  planned : forall g, g ∈ planned -> exists row, row ∈ tenantGroups tenantId w.db ∧
    row.id = g.id ∧ row.name = g.name ∧ row.selectorJson = g.selectorJson
  assignments : forall a,
    a ∈ ConfigSourceRepo.listAssignments tenantId w.db <-> a ∈ assignments

/-- The plan of a directory: its bundles as they were built and picked, its
groups as they were placed, and the references resolved. -/
structure PlanOf (deps : Deps) (n : Nat) (existing : Existing)
    (same differs : BundleRow -> BuiltBundle -> Prop) (spec : Spec) (p : Planning)
    (picked : List (BuiltBundle × Choice)) (planned : List PlannedGroup) : Prop where
  valid : spec.Valid
  built : List.Forall₂ (BuiltFrom deps) spec.bundles (picked.map Prod.fst)
  extends_ : Planning.start.Extends picked p
  picks : forall x, x ∈ picked -> Picks deps n existing.bundles same differs x.1 x.2
  groups : (planGroups deps n existing.groups p.drawn spec.groups).groups = planned
  places : Places deps n existing.groups p.drawn spec.groups planned

section Directory

variable {n : Nat} {existing : Existing} {same differs : BundleRow -> BuiltBundle -> Prop}
  {spec : Spec} {p : Planning} {picked : List (BuiltBundle × Choice)}
  {planned : List PlannedGroup} {tenantId : Int} {w : World}

theorem exists_picked (h : PlanOf deps n existing same differs spec p picked planned)
    {b : BundleSpec} (hb : b ∈ spec.bundles) :
    exists x, x ∈ picked ∧ BuiltFrom deps b x.1 := by
  rcases forall₂_exists_right h.built hb with ⟨built, hmem, hbuilt⟩
  rcases List.mem_map.mp hmem with ⟨x, hx, rfl⟩
  exact ⟨x, hx, hbuilt⟩

theorem exists_spec (h : PlanOf deps n existing same differs spec p picked planned)
    {x : BuiltBundle × Choice} (hx : x ∈ picked) :
    exists b, b ∈ spec.bundles ∧ BuiltFrom deps b x.1 :=
  forall₂_exists_left h.built (List.mem_map.mpr ⟨x, hx, rfl⟩)

theorem nodup_picked (h : PlanOf deps n existing same differs spec p picked planned) :
    (picked.map fun x => x.1.identity).Nodup := by
  have hsame : spec.bundles.map BundleSpec.identity =
      (picked.map Prod.fst).map BuiltBundle.identity := by
    rw [← List.forall₂_eq_eq_eq, List.forall₂_map_left_iff, List.forall₂_map_right_iff]
    apply h.built.imp
    intro b built hbuilt
    unfold BundleSpec.identity BuiltBundle.identity
    rw [hbuilt.name, hbuilt.version]
  have hidentities := h.valid.identities
  rw [hsame, List.map_map] at hidentities
  exact hidentities

theorem nodup_planned (h : PlanOf deps n existing same differs spec p picked planned) :
    (planned.map PlannedGroup.name).Nodup := by
  have hmap := congrArg (List.map Prod.fst) (places_map h.places)
  rw [List.map_map, List.map_map] at hmap
  have hnames : planned.map PlannedGroup.name = spec.groups.map GroupSpec.name := hmap
  rw [hnames]
  exact h.valid.names

theorem exists_planned (h : PlanOf deps n existing same differs spec p picked planned)
    {g : GroupSpec} (hg : g ∈ spec.groups) :
    exists g', g' ∈ planned ∧ g'.name = g.name ∧ g'.selectorJson = g.selectorJson := by
  have hpair : (g.name, g.selectorJson) ∈ planned.map fun g => (g.name, g.selectorJson) := by
    rw [places_map h.places]
    exact List.mem_map.mpr ⟨g, hg, rfl⟩
  rcases List.mem_map.mp hpair with ⟨g', hg', hsame⟩
  exact ⟨g', hg', congrArg Prod.fst hsame, congrArg Prod.snd hsame⟩

theorem exists_groupSpec (h : PlanOf deps n existing same differs spec p picked planned)
    {g : PlannedGroup} (hg : g ∈ planned) :
    exists g', g' ∈ spec.groups ∧ g'.name = g.name ∧ g'.selectorJson = g.selectorJson := by
  have hpair : (g.name, g.selectorJson) ∈ spec.groups.map fun g => (g.name, g.selectorJson) := by
    rw [← places_map h.places]
    exact List.mem_map.mpr ⟨g, hg, rfl⟩
  rcases List.mem_map.mp hpair with ⟨g', hg', hsame⟩
  exact ⟨g', hg', congrArg Prod.fst hsame, congrArg Prod.snd hsame⟩

theorem exists_groupIdOf (h : PlanOf deps n existing same differs spec p picked planned)
    {g : GroupSpec} (hg : g ∈ spec.groups) :
    exists g', g' ∈ planned ∧ g'.name = g.name ∧ groupIdOf planned g.name = g'.id := by
  rcases exists_planned h hg with ⟨g', hg', hname, _⟩
  refine ⟨g', hg', hname, ?_⟩
  rw [← hname]
  exact groupIdOf_placed (nodup_planned h) hg'

theorem exists_bundleIdOf (h : PlanOf deps n existing same differs spec p picked planned)
    {g : GroupSpec} (hg : g ∈ spec.groups) {r : GroupBundleRef} (hr : r ∈ g.bundles) :
    exists x, x ∈ picked ∧ x.1.name = r.name ∧ x.1.version = r.version ∧
      bundleIdOf p.bundleIds r.name r.version = x.2.id := by
  rcases h.valid.known g hg r hr with ⟨b, hb, hname, hversion⟩
  rcases exists_picked h hb with ⟨x, hx, hbuilt⟩
  have hxname : x.1.name = r.name := hbuilt.name.trans hname
  have hxversion : x.1.version = r.version := hbuilt.version.trans hversion
  refine ⟨x, hx, hxname, hxversion, ?_⟩
  rw [← hxname, ← hxversion]
  exact bundleIdOf_picked h.extends_ (nodup_picked h) hx

/-- An assignment of the plan is one of the directory, with the ids its names
were given. -/
theorem mem_planAssignments (h : PlanOf deps n existing same differs spec p picked planned)
    {a : String × String × Int} :
    a ∈ planAssignments p planned spec.groups <->
      exists g x, g ∈ planned ∧ x ∈ picked ∧ a.1 = g.id ∧ a.2.1 = x.2.id ∧
        spec.Assigns g.name x.1.name x.1.version a.2.2 := by
  unfold planAssignments
  rw [List.mem_flatMap]
  constructor
  · rintro ⟨g, hg, ha⟩
    rcases List.mem_map.mp ha with ⟨r, hr, rfl⟩
    rcases exists_groupIdOf h hg with ⟨g', hg', hname, hgid⟩
    rcases exists_bundleIdOf h hg hr with ⟨x, hx, hxname, hxversion, hbid⟩
    exact ⟨g', x, hg', hx, hgid, hbid, g, r, hg, hr, hname.symm, hxname.symm,
      hxversion.symm, rfl⟩
  · rintro ⟨g, x, hg, hx, ha1, ha2, g', r, hg', hr, hname, hrname, hrversion, hpriority⟩
    refine ⟨g', hg', List.mem_map.mpr ⟨r, hr, ?_⟩⟩
    rw [hname, hrname, hrversion, groupIdOf_placed (nodup_planned h) hg,
      bundleIdOf_picked h.extends_ (nodup_picked h) hx, hpriority, ← ha1, ← ha2]

theorem nodup_planAssignments (h : PlanOf deps n existing same differs spec p picked planned)
    (hpicked : forall x y, x ∈ picked -> y ∈ picked -> x.2.id = y.2.id ->
      x.1.name = y.1.name ∧ x.1.version = y.1.version)
    (hplanned : forall g g', g ∈ planned -> g' ∈ planned -> g.id = g'.id -> g.name = g'.name) :
    (planAssignments p planned spec.groups).Nodup := by
  unfold planAssignments
  rw [List.nodup_flatMap]
  constructor
  · intro g hg
    have honce : (g.bundles.map fun r => (r.name, r.version)).Nodup := h.valid.once g hg
    apply List.Nodup.map_on _ honce.of_map
    intro r hr r' hr' hsame
    rcases exists_bundleIdOf h hg hr with ⟨x, hx, hname, hversion, hid⟩
    rcases exists_bundleIdOf h hg hr' with ⟨x', hx', hname', hversion', hid'⟩
    have hids : x.2.id = x'.2.id := by
      rw [← hid, ← hid']
      exact (Prod.mk.inj (Prod.mk.inj hsame).2).1
    rcases hpicked x x' hx hx' hids with ⟨hsamename, hsameversion⟩
    apply List.inj_on_of_nodup_map honce hr hr'
    rw [← hname, ← hname', ← hversion, ← hversion', hsamename, hsameversion]
  · have hnames := List.pairwise_map.mp h.valid.names
    refine hnames.imp_of_mem ?_
    intro g g' hg hg' hne a ha ha'
    apply hne
    rcases List.mem_map.mp ha with ⟨r, _, rfl⟩
    rcases List.mem_map.mp ha' with ⟨r', _, hsame⟩
    rcases exists_groupIdOf h hg with ⟨g1, hg1, hname1, hid1⟩
    rcases exists_groupIdOf h hg' with ⟨g2, hg2, hname2, hid2⟩
    rw [← hname1, ← hname2]
    apply hplanned g1 g2 hg1 hg2
    rw [← hid1, ← hid2]
    exact (Prod.mk.inj hsame).1.symm

/-- Tables that hold the rows of a directory's plan equal the directory. -/
theorem mirrors_of_realizes (h : PlanOf deps n existing same differs spec p picked planned)
    (hkeys : ConfigKeys w.db)
    (hw : Realizes deps tenantId w picked planned (planAssignments p planned spec.groups)) :
    Mirrors deps tenantId spec w := by
  have hbundleRow : forall row x, row ∈ tenantBundles tenantId w.db -> x ∈ picked ->
      row.id = x.2.id -> row.name = x.1.name ∧ row.version = x.1.version ∧
        sameContents deps w.files row x.1 = true := by
    intro row x hrow hx hid
    rcases hw.picked x hx with ⟨row', hrow', hid', hfields⟩
    have hsame : row = row' := eq_of_key_eq hkeys.bundleIds (mem_tenantBundles.mp hrow).1
      (mem_tenantBundles.mp hrow').1 (hid.trans hid'.symm)
    rw [hsame]
    exact hfields
  have hgroupRow : forall row g, row ∈ tenantGroups tenantId w.db -> g ∈ planned ->
      row.id = g.id -> row.name = g.name ∧ row.selectorJson = g.selectorJson := by
    intro row g hrow hg hid
    rcases hw.planned g hg with ⟨row', hrow', hid', hfields⟩
    have hsame : row = row' := eq_of_key_eq hkeys.groupIds (mem_tenantGroups.mp hrow).1
      (mem_tenantGroups.mp hrow').1 (hid.trans hid'.symm)
    rw [hsame]
    exact hfields
  constructor
  · apply (List.perm_ext_iff_of_nodup ?_ ?_).mpr
    · rintro ⟨name, selector⟩
      rw [List.mem_map, List.mem_map]
      constructor
      · rintro ⟨row, hrow, heq⟩
        cases heq
        rcases hw.groups row hrow with ⟨g, hg, hid⟩
        rcases hgroupRow row g hrow hg hid with ⟨hname, hselector⟩
        rcases exists_groupSpec h hg with ⟨g', hg', hname', hselector'⟩
        exact ⟨g', hg', by rw [hname, hselector, hname', hselector']⟩
      · rintro ⟨g', hg', heq⟩
        cases heq
        rcases exists_planned h hg' with ⟨g, hg, hname, hselector⟩
        rcases hw.planned g hg with ⟨row, hrow, _, hrowname, hrowselector⟩
        exact ⟨row, hrow, by rw [hrowname, hrowselector, hname, hselector]⟩
    · apply List.Nodup.of_map Prod.fst
      rw [List.map_map]
      exact nodup_tenantGroups hkeys tenantId
    · apply List.Nodup.of_map Prod.fst
      rw [List.map_map]
      exact h.valid.names
  · apply (List.perm_ext_iff_of_nodup (nodup_tenantBundles hkeys tenantId)
      h.valid.identities).mpr
    rintro ⟨name, version⟩
    rw [List.mem_map, List.mem_map]
    constructor
    · rintro ⟨row, hrow, heq⟩
      cases heq
      rcases hw.bundles row hrow with ⟨x, hx, hid⟩
      rcases hbundleRow row x hrow hx hid with ⟨hname, hversion, _⟩
      rcases exists_spec h hx with ⟨b, hb, hbuilt⟩
      exact ⟨b, hb, by rw [hname, hversion, hbuilt.name, hbuilt.version]; rfl⟩
    · rintro ⟨b, hb, heq⟩
      cases heq
      rcases exists_picked h hb with ⟨x, hx, hbuilt⟩
      rcases hw.picked x hx with ⟨row, hrow, _, hname, hversion, _⟩
      exact ⟨row, hrow, by rw [hname, hversion, hbuilt.name, hbuilt.version]⟩
  · intro row hrow b hb hname hversion
    rcases exists_picked h hb with ⟨x, hx, hbuilt⟩
    rcases hw.picked x hx with ⟨row', hrow', hid, hname', hversion', hsame⟩
    have hrows : row' = row := by
      apply eq_of_key_eq (nodup_tenantBundles hkeys tenantId) hrow' hrow
      rw [hname', hversion', hbuilt.name, hbuilt.version, hname, hversion]
    rw [← hrows]
    exact (sameContents_iff hbuilt).mp hsame
  · intro group name version priority
    constructor
    · rintro ⟨g, b, hg, hb, rfl, rfl, rfl, hmem⟩
      obtain ⟨g', x, hg', hx, hgid, hbid, hassigns⟩ :=
        (mem_planAssignments h).mp ((hw.assignments _).mp hmem)
      rw [(hgroupRow g g' hg hg' hgid).1, (hbundleRow b x hb hx hbid).1,
        (hbundleRow b x hb hx hbid).2.1]
      exact hassigns
    · rintro ⟨g, r, hg, hr, rfl, rfl, rfl, rfl⟩
      rcases exists_planned h hg with ⟨g', hg', hname, _⟩
      rcases h.valid.known g hg r hr with ⟨b, hb, hbname, hbversion⟩
      rcases exists_picked h hb with ⟨x, hx, hbuilt⟩
      rcases hw.planned g' hg' with ⟨grow, hgrow, hgid, hgname, _⟩
      rcases hw.picked x hx with ⟨brow, hbrow, hbid, hbrname, hbrversion, _⟩
      refine ⟨grow, brow, hgrow, hbrow, hgname.trans hname,
        hbrname.trans (hbuilt.name.trans hbname),
        hbrversion.trans (hbuilt.version.trans hbversion), ?_⟩
      rw [hw.assignments, mem_planAssignments h]
      exact ⟨g', x, hg', hx, hgid, hbid, g, r, hg, hr, hname.symm,
        (hbuilt.name.trans hbname).symm, (hbuilt.version.trans hbversion).symm, rfl⟩
  · intro a ha
    obtain ⟨g', x, hg', hx, hgid, hbid, _⟩ :=
      (mem_planAssignments h).mp ((hw.assignments a).mp ha)
    rcases hw.planned g' hg' with ⟨grow, hgrow, hgrowid, _⟩
    rcases hw.picked x hx with ⟨brow, hbrow, hbrowid, _⟩
    exact ⟨grow, brow, hgrow, hbrow, hgid.trans hgrowid.symm, hbid.trans hbrowid.symm⟩

/-!
# Applied plans
-/

/-- What was read has the keys of the tables it was read from. -/
structure Existing.Keyed (existing : Existing) : Prop where
  identities : (existing.bundles.map fun b => (b.name, b.version)).Nodup
  groupIds : (existing.groups.map GroupRow.id).Nodup
  groupNames : (existing.groups.map GroupRow.name).Nodup

theorem mem_of_sameSet {xs ys : List String} (h : ConfigSourceRepo.sameSet xs ys = true)
    {x : String} : x ∈ xs <-> x ∈ ys := by
  unfold ConfigSourceRepo.sameSet at h
  rw [Bool.and_eq_true, List.all_eq_true, List.all_eq_true] at h
  constructor
  · intro hx
    exact List.contains_iff_mem.mp (h.1 x hx)
  · intro hx
    exact List.contains_iff_mem.mp (h.2 x hx)

theorem mem_kept (h : PlanOf deps n existing same differs spec p picked planned)
    {id : String} :
    id ∈ p.kept <-> exists x row, x ∈ picked ∧ x.2 = Choice.keep row ∧ row.id = id := by
  have hkept : p.kept = picked.filterMap fun x => x.2.kept := h.extends_.kept
  rw [hkept, List.mem_filterMap]
  constructor
  · rintro ⟨⟨b, choice⟩, hx, hid⟩
    cases choice with
    | keep row =>
        cases hid
        exact ⟨_, row, hx, rfl, rfl⟩
    | insert planned => cases hid
  · rintro ⟨x, row, hx, hchoice, rfl⟩
    refine ⟨x, hx, ?_⟩
    rw [hchoice]
    rfl

theorem mem_inserted (h : PlanOf deps n existing same differs spec p picked planned)
    {b : PlannedBundle} :
    b ∈ p.insertBundles <-> exists x, x ∈ picked ∧ x.2 = Choice.insert b := by
  have hinserted : p.insertBundles = picked.filterMap fun x => x.2.inserted :=
    h.extends_.inserted
  rw [hinserted, List.mem_filterMap]
  constructor
  · rintro ⟨⟨b', choice⟩, hx, hb⟩
    cases choice with
    | keep row => cases hb
    | insert planned =>
        cases hb
        exact ⟨_, hx, rfl⟩
  · rintro ⟨x, hx, hchoice⟩
    refine ⟨x, hx, ?_⟩
    rw [hchoice]
    rfl

section Applied

variable {now : Int} {db' : Db}

theorem mem_bundlesAfter (h : PlanOf deps n existing same differs spec p picked planned)
    (hset : ConfigSourceRepo.sameSet (ConfigSourceRepo.bundleIds tenantId w.db)
      (existing.bundles.map BundleRow.id) = true) {row : BundleRow} :
    (row ∈ ConfigSourceRepo.bundlesAfter tenantId
        (configPlan deps n existing spec p) now w.db.bundles ∧ row.tenantId = tenantId) <->
      (row ∈ tenantBundles tenantId w.db ∧ row.id ∈ p.kept) ∨
        exists x b, x ∈ picked ∧ x.2 = Choice.insert b ∧
          row = ConfigSourceRepo.plannedRow tenantId now b := by
  unfold ConfigSourceRepo.bundlesAfter
  rw [List.mem_append, mem_deleteWhere, List.any_eq_false]
  constructor
  · rintro ⟨hrow | hrow, htenant⟩
    · refine Or.inl ⟨mem_tenantBundles.mpr ⟨hrow.1, htenant⟩, ?_⟩
      have hmem : row.id ∈ ConfigSourceRepo.bundleIds tenantId w.db :=
        List.mem_map.mpr ⟨row, mem_tenantBundles.mpr ⟨hrow.1, htenant⟩, rfl⟩
      rcases List.mem_map.mp ((mem_of_sameSet hset).mp hmem) with ⟨e, he, hid⟩
      by_contra hnot
      have hdelete : e.id ∈ (notKept existing.bundles p).map BundleRow.id := by
        refine List.mem_map.mpr ⟨e, List.mem_filter.mpr ⟨he, ?_⟩, rfl⟩
        rw [hid, Bool.not_eq_true', ← Bool.not_eq_true, List.contains_iff_mem]
        exact hnot
      exact hrow.2 e.id hdelete (KeepsKeys.isBundle_iff.mpr ⟨htenant, hid.symm⟩)
    · rcases List.mem_map.mp hrow with ⟨b, hb, rfl⟩
      rcases (mem_inserted h).mp hb with ⟨x, hx, hchoice⟩
      exact Or.inr ⟨x, b, hx, hchoice, rfl⟩
  · rintro (⟨hrow, hkept⟩ | ⟨x, b, hx, hchoice, rfl⟩)
    · rcases mem_tenantBundles.mp hrow with ⟨hmem, htenant⟩
      refine ⟨Or.inl ⟨hmem, ?_⟩, htenant⟩
      intro id hid his
      rcases List.mem_map.mp hid with ⟨e, he, rfl⟩
      have hnot := (List.mem_filter.mp he).2
      rw [Bool.not_eq_true', ← Bool.not_eq_true, List.contains_iff_mem] at hnot
      exact hnot ((KeepsKeys.isBundle_iff.mp his).2 ▸ hkept)
    · refine ⟨Or.inr (List.mem_map.mpr ⟨b, (mem_inserted h).mpr ⟨x, hx, hchoice⟩, rfl⟩), rfl⟩

theorem mem_groupsAfter (h : PlanOf deps n existing same differs spec p picked planned)
    (hread : existing.Keyed)
    (hset : ConfigSourceRepo.sameSet (ConfigSourceRepo.groupIds tenantId w.db)
      (existing.groups.map GroupRow.id) = true) {row : GroupRow}
    (hrow : row ∈ ConfigSourceRepo.groupsAfter tenantId
      (configPlan deps n existing spec p) now w.db.groups) (htenant : row.tenantId = tenantId) :
    exists g, g ∈ planned ∧ ConfigSourceRepo.IsPlanned tenantId g row := by
  unfold ConfigSourceRepo.groupsAfter at hrow
  have hgroups : (configPlan deps n existing spec p).groups = planned := h.groups
  rw [hgroups] at hrow
  rcases ConfigSourceRepo.mem_foldl_withGroup hrow with hplanned | ⟨hrow, huntouched⟩
  · exact hplanned
  · rcases mem_deleteWhere.mp hrow with ⟨hmem, hkept⟩
    have hid : row.id ∈ ConfigSourceRepo.groupIds tenantId w.db :=
      List.mem_map.mpr ⟨row, mem_tenantGroups.mpr ⟨hmem, htenant⟩, rfl⟩
    rcases List.mem_map.mp ((mem_of_sameSet hset).mp hid) with ⟨e, he, hid⟩
    have his : GroupsRepo.isGroup tenantId e.id row = true :=
      KeepsKeys.isGroup_iff.mpr ⟨htenant, hid.symm⟩
    cases hname : spec.groups.any fun g => g.name == e.name with
    | true =>
        -- Its name is planned for, under its id.
        rcases List.any_eq_true.mp hname with ⟨g, hg, hgname⟩
        rw [beq_iff_eq] at hgname
        rcases exists_planned h hg with ⟨g', hg', hname', _⟩
        have hfound := groupByName_of_mem hread.groupNames he
        rw [← hgname, ← hname'] at hfound
        rcases places_cases h.places g' hg' with ⟨hcreate, row', hrow', hid'⟩ | ⟨_, hnone, _⟩
        · rw [hfound] at hrow'
          cases hrow'
          have hno := huntouched g' hg' hcreate
          rw [hid', his] at hno
          cases hno
        · rw [hfound] at hnone
          cases hnone
    | false =>
        rw [List.any_eq_false] at hkept
        refine absurd his (hkept e.id (List.mem_map.mpr ⟨e, List.mem_filter.mpr ⟨he, ?_⟩, rfl⟩))
        rw [hname]
        rfl

theorem exists_groupsAfter (h : PlanOf deps n existing same differs spec p picked planned)
    (hids : deps.UniqueIds) (hread : existing.Keyed)
    (hfresh : forall row, row ∈ existing.groups -> forall k, row.id ≠ deps.ulid n k)
    (hset : ConfigSourceRepo.sameSet (ConfigSourceRepo.groupIds tenantId w.db)
      (existing.groups.map GroupRow.id) = true) {g : PlannedGroup} (hg : g ∈ planned) :
    exists row, row ∈ ConfigSourceRepo.groupsAfter tenantId
      (configPlan deps n existing spec p) now w.db.groups ∧
        ConfigSourceRepo.IsPlanned tenantId g row := by
  unfold ConfigSourceRepo.groupsAfter
  have hgroups : (configPlan deps n existing spec p).groups = planned := h.groups
  rw [hgroups]
  apply ConfigSourceRepo.exists_foldl_withGroup
    (places_nodup h.places hids hread.groupIds hfresh h.valid.names) hg
  intro hcreate
  rcases places_cases h.places g hg with ⟨_, e, he, hid⟩ | ⟨hnew, _⟩
  · rcases mem_of_groupByName he with ⟨hmem, hname⟩
    have hexpected : e.id ∈ existing.groups.map GroupRow.id := List.mem_map.mpr ⟨e, hmem, rfl⟩
    rcases List.mem_map.mp ((mem_of_sameSet hset).mpr hexpected) with ⟨row, hrow, hrowid⟩
    rcases mem_tenantGroups.mp hrow with ⟨hrow, htenant⟩
    refine ⟨row, mem_deleteWhere.mpr ⟨hrow, ?_⟩,
      KeepsKeys.isGroup_iff.mpr ⟨htenant, hrowid.trans hid.symm⟩⟩
    rw [List.any_eq_false]
    intro id hid' his
    rcases List.mem_map.mp hid' with ⟨e', he', rfl⟩
    rcases List.mem_filter.mp he' with ⟨hmem', hremoved⟩
    have hsame : e' = e := eq_of_key_eq hread.groupIds hmem' hmem
      ((KeepsKeys.isGroup_iff.mp his).2.symm.trans hrowid)
    rcases exists_groupSpec h hg with ⟨spec', hspec', hspecname, _⟩
    rw [Bool.not_eq_true', List.any_eq_false] at hremoved
    apply hremoved spec' hspec'
    rw [hspecname, hsame, hname]
    exact beq_self_eq_true _
  · rw [hcreate] at hnew
    cases hnew

/-- An applied plan leaves the rows it chose, when the rows it keeps are still
what they were. -/
theorem realizes_of_applied (h : PlanOf deps n existing same differs spec p picked planned)
    (hids : deps.UniqueIds) (hread : existing.Keyed)
    (hfresh : forall row, row ∈ existing.groups -> forall k, row.id ≠ deps.ulid n k)
    (hkept : forall x row, x ∈ picked -> x.2 = Choice.keep row ->
      exists row', row' ∈ tenantBundles tenantId w.db ∧ row'.id = row.id ∧
        row'.name = x.1.name ∧ row'.version = x.1.version ∧
          sameContents deps w.files row' x.1 = true)
    (happly : ConfigSourceRepo.apply tenantId (configPlan deps n existing spec p) now w.db =
      Except.ok (ApplyOutcome.applied, db')) :
    Realizes deps tenantId { w with db := db' } picked planned
      (planAssignments p planned spec.groups) := by
  obtain ⟨⟨hbundleSet, hgroupSet⟩, hbundles, hgroups, hassignments⟩ :=
    ConfigSourceRepo.apply_eq_ok happly
  have hbundle : forall row, row ∈ tenantBundles tenantId db' <->
      (row ∈ tenantBundles tenantId w.db ∧ row.id ∈ p.kept) ∨
        exists x b, x ∈ picked ∧ x.2 = Choice.insert b ∧
          row = ConfigSourceRepo.plannedRow tenantId now b := by
    intro row
    rw [mem_tenantBundles, hbundles]
    exact mem_bundlesAfter h hbundleSet
  constructor
  · intro row hrow
    rcases (hbundle row).mp hrow with ⟨_, hid⟩ | ⟨x, b, hx, hchoice, rfl⟩
    · rcases (mem_kept h).mp hid with ⟨x, row0, hx, hchoice, hid⟩
      exact ⟨x, hx, by rw [hchoice, ← hid]; rfl⟩
    · exact ⟨x, hx, by rw [hchoice]; rfl⟩
  · intro x hx
    rcases exists_spec h hx with ⟨spec', _, hbuilt⟩
    rcases x with ⟨b, choice⟩
    have hpick : Picks deps n existing.bundles same differs b choice := h.picks _ hx
    cases hpick with
    | @keep row hrow hsame =>
        rcases hkept _ row hx rfl with ⟨row', hrow', hid, hname, hversion, hcontents⟩
        refine ⟨row', (hbundle row').mpr (Or.inl ⟨hrow', ?_⟩), hid, hname, hversion, hcontents⟩
        exact (mem_kept h).mpr ⟨_, row, hx, rfl, hid.symm⟩
    | @insert k signature hdiffers =>
        refine ⟨_, (hbundle _).mpr (Or.inr ⟨_, _, hx, rfl, rfl⟩), rfl, rfl, rfl, ?_⟩
        unfold sameContents
        rw [Bool.and_eq_true, Bool.or_eq_true, decide_eq_true_iff, decide_eq_true_iff]
        exact ⟨rfl, Or.inl rfl⟩
  · intro row hrow
    rcases mem_tenantGroups.mp hrow with ⟨hmem, htenant⟩
    have hmem : row ∈ db'.groups := hmem
    rw [hgroups] at hmem
    rcases mem_groupsAfter h hread hgroupSet hmem htenant with ⟨g, hg, hplanned⟩
    exact ⟨g, hg, hplanned.2.1⟩
  · intro g hg
    obtain ⟨row, hrow, htenant, hfields⟩ :=
      exists_groupsAfter h hids hread hfresh hgroupSet hg
    rw [← hgroups] at hrow
    exact ⟨row, mem_tenantGroups.mpr ⟨hrow, htenant⟩, hfields⟩
  · intro a
    have hlist := ConfigSourceRepo.listAssignments_assignmentsAfter hassignments
    change a ∈ ConfigSourceRepo.listAssignments tenantId db' <-> _
    rw [hlist, ← h.groups]
    rfl

end Applied

end Directory

end ConfigSource
end FleetServer
