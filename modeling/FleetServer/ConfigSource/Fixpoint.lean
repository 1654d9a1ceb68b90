import FleetServer.Bundles.StoredBytes
import FleetServer.ConfigSource.Failure
import FleetServer.ConfigSource.Mirror

/-!
# Reconciling by oneself

With no one else around, a reconcile that succeeds leaves the tenant equal to
the directory, and the next one finds nothing to do.
-/

namespace FleetServer
namespace ConfigSource

open FleetServer.Core
open Storage
open Table
open Server
open Concurrency
open KeyedMap

variable {deps : Deps}

/-!
# What is read
-/

def existingOf (tenantId : Int) (db : Db) : Existing :=
  { bundles := BundlesRepo.list tenantId db
    groups := GroupsRepo.list tenantId db
    assignments := ConfigSourceRepo.listAssignments tenantId db }

theorem mem_listBundles {tenantId : Int} {db : Db} {row : BundleRow} :
    row ∈ BundlesRepo.list tenantId db <-> row ∈ tenantBundles tenantId db := by
  unfold BundlesRepo.list
  rw [List.mem_insertionSort]
  rfl

theorem mem_listGroups {tenantId : Int} {db : Db} {row : GroupRow} :
    row ∈ GroupsRepo.list tenantId db <-> row ∈ tenantGroups tenantId db := by
  unfold GroupsRepo.list
  rw [List.mem_insertionSort]
  rfl

theorem keyed_existingOf {db : Db} (hkeys : ConfigKeys db) (tenantId : Int) :
    (existingOf tenantId db).Keyed := by
  have hbundles : (BundlesRepo.list tenantId db).Perm (tenantBundles tenantId db) :=
    List.perm_insertionSort _ _
  have hgroups : (GroupsRepo.list tenantId db).Perm (tenantGroups tenantId db) :=
    List.perm_insertionSort _ _
  constructor
  · exact (hbundles.map _).nodup_iff.mpr (nodup_tenantBundles hkeys tenantId)
  · apply (hgroups.map _).nodup_iff.mpr
    exact hkeys.groupIds.sublist (List.filter_sublist.map GroupRow.id)
  · exact (hgroups.map _).nodup_iff.mpr (nodup_tenantGroups hkeys tenantId)

/-!
# Planning in one world
-/

theorem uses_world {alpha : Type} {p : Prog alpha} (w : World)
    (hp : Program.Uses (fun op => op.reads = true) p) :
    Program.Uses (fun op => (exec op w).2 = w) p :=
  Program.uses_mono (fun _ hop => exec_of_reads hop w) hp

theorem run_unchanged (row : BundleRow) (b : BuiltBundle) (w : World) :
    (unchanged deps row b).run machine w = (sameContents deps w.files row b, w) := by
  unfold unchanged sameContents
  by_cases hformat : row.format = b.format
  · rw [if_neg (not_not.mpr hformat), decide_eq_true hformat, Bool.true_and]
    by_cases hsha : row.sha256 = b.sha256
    · rw [if_pos hsha, decide_eq_true hsha, Bool.true_or]
      rfl
    · rw [if_neg hsha, decide_eq_false hsha, Bool.false_or]
      cases b.tree with
      | none => rfl
      | some tree =>
          simp only
          have hget : (storeGet row.tenantId row.id).run machine w =
              exec (Op.storeGet row.tenantId row.id) w := rfl
          rw [Program.run_bind, hget]
          unfold exec
          simp only
          cases hstored : w.files.lookup (row.tenantId, row.id) with
          | none => rfl
          | some stored => rfl
  · rw [if_pos hformat, decide_eq_false hformat, Bool.false_and]
    rfl

theorem compares_world (existing : List BundleRow) (w : World) :
    Compares deps (fun op r => (exec op w).1 = r)
      (fun row b => sameContents deps w.files row b = true)
      (fun row b => sameContents deps w.files row b = false) existing := by
  intro row b _
  have hanswer : (fun r : Bool => if r = true then sameContents deps w.files row b = true
      else sameContents deps w.files row b = false)
        ((unchanged deps row b).run machine w).1 := by
    rw [run_unchanged]
    cases hsame : sameContents deps w.files row b with
    | true => rfl
    | false => rfl
  exact Program.endsGiven_run (M := machine) hanswer (uses_world w (uses_unchanged row b))

theorem run_planBundles_settled {n : Nat} {tenantId : Int} {w : World}
    {existing : List BundleRow} {built : List BuiltBundle}
    (hsettled : forall b, b ∈ built -> exists row,
      byIdentity existing b.name b.version = some row ∧
        sameContents deps w.files row b = true) (p : Planning) :
    exists q, (planBundles deps n tenantId false existing p built).run machine w =
      (Except.ok q, w) ∧ q.added = p.added ∧ q.replaced = p.replaced ∧
        q.kept.length = p.kept.length + built.length := by
  induction built generalizing p with
  | nil => exact ⟨p, rfl, rfl, rfl, rfl⟩
  | cons b rest ih =>
      rcases hsettled b List.mem_cons_self with ⟨row, hrow, hsame⟩
      obtain ⟨q, hrun, hadded, hreplaced, hkept⟩ :=
        ih (fun b' hb' => hsettled b' (List.mem_cons_of_mem b hb')) (p.keep row b)
      have hlength : q.kept.length = p.kept.length + (rest.length + 1) := by
        rw [hkept]
        unfold Planning.keep
        rw [List.length_append, List.length_singleton]
        omega
      refine ⟨q, ?_, hadded, hreplaced, hlength⟩
      have hcurrent : (unchangedRow deps (some row) b).run machine w = (some row, w) := by
        unfold unchangedRow
        simp only
        rw [Program.run_bind, run_unchanged, hsame]
        rfl
      unfold planBundles
      rw [hrow]
      simp only
      rw [Program.run_bind, hcurrent]
      exact hrun

/-!
# Reports

## The order of sorted assignments
-/

instance : Std.Total fun a b => assignmentLe a b = true where
  total a b := by
    unfold assignmentLe
    grind

instance : IsTrans (String × String × Int) fun a b => assignmentLe a b = true where
  trans a b c hab hbc := by
    unfold assignmentLe at *
    grind

instance : Std.Antisymm fun a b => assignmentLe a b = true where
  antisymm a b hab hba := by
    unfold assignmentLe at *
    grind

theorem sortAssignments_eq_iff {xs ys : List (String × String × Int)} :
    sortAssignments xs = sortAssignments ys <-> xs.Perm ys := by
  unfold sortAssignments
  constructor
  · intro h
    exact (List.perm_insertionSort _ xs).symm.trans (h ▸ List.perm_insertionSort _ ys)
  · intro h
    apply List.Perm.eq_of_pairwise' (List.pairwise_insertionSort _ xs)
      (List.pairwise_insertionSort _ ys)
    exact (List.perm_insertionSort _ xs).trans (h.trans (List.perm_insertionSort _ ys).symm)

/-!
## What is reported as changed
-/

def GroupSpec.Stands (existing : List GroupRow) (g : GroupSpec) : Prop :=
  exists row, groupByName existing g.name = some row ∧ row.selectorJson = g.selectorJson

theorem foldl_planGroup_iff {n : Nat} {existing : List GroupRow} {specs : List GroupSpec}
    (p : GroupPlan) :
    (((specs.foldl (planGroup deps n existing) p).added = [] ∧
        (specs.foldl (planGroup deps n existing) p).updated = []) <->
      (p.added = [] ∧ p.updated = []) ∧ forall g, g ∈ specs -> g.Stands existing) ∧
    ((forall g, g ∈ specs -> g.Stands existing) ->
      (specs.foldl (planGroup deps n existing) p).unchanged = p.unchanged + specs.length) := by
  induction specs generalizing p with
  | nil => simp
  | cons g rest ih =>
      rw [List.foldl_cons, List.forall_mem_cons]
      rcases ih (planGroup deps n existing p g) with ⟨hiff, hcount⟩
      rw [hiff]
      cases hrow : groupByName existing g.name with
      | none =>
          have hno : ¬ g.Stands existing := by
            rintro ⟨row, hfound, _⟩
            rw [hrow] at hfound
            cases hfound
          have hadded : (planGroup deps n existing p g).added = p.added ++ [g.name] := by
            unfold planGroup
            rw [hrow]
          constructor
          · constructor
            · intro h
              rw [hadded] at h
              exact absurd h.1.1 (by simp)
            · intro h
              exact absurd h.2.1 hno
          · intro h
            exact absurd h.1 hno
      | some row =>
          by_cases hselector : row.selectorJson = g.selectorJson
          · have hstands : g.Stands existing := ⟨row, hrow, hselector⟩
            have hplan : (planGroup deps n existing p g).added = p.added ∧
                (planGroup deps n existing p g).updated = p.updated ∧
                  (planGroup deps n existing p g).unchanged = p.unchanged + 1 := by
              unfold planGroup
              rw [hrow]
              simp only
              rw [if_pos hselector]
              exact ⟨rfl, rfl, rfl⟩
            constructor
            · rw [hplan.1, hplan.2.1]
              constructor
              · intro h
                exact ⟨h.1, hstands, h.2⟩
              · intro h
                exact ⟨h.1, h.2.2⟩
            · intro h
              rw [hcount h.2, hplan.2.2, List.length_cons]
              omega
          · have hno : ¬ g.Stands existing := by
              rintro ⟨row', hfound, hsame⟩
              rw [hrow] at hfound
              cases hfound
              exact hselector hsame
            have hupdated : (planGroup deps n existing p g).updated = p.updated ++ [g.name] := by
              unfold planGroup
              rw [hrow]
              simp only
              rw [if_neg hselector]
            constructor
            · constructor
              · intro h
                rw [hupdated] at h
                exact absurd h.1.2 (by simp)
              · intro h
                exact absurd h.2.1 hno
            · intro h
              exact absurd h.1 hno

theorem changed_eq_false {n : Nat} {existing : Existing} {spec : Spec} {p : Planning}
    {planned : List PlannedGroup}
    (hgroups : (planGroups deps n existing.groups p.drawn spec.groups).groups = planned) :
    (reloadReport deps n false existing spec p).changed = false <->
      p.insertBundles = [] ∧ notKept existing.bundles p = [] ∧
        (forall g, g ∈ spec.groups -> g.Stands existing.groups) ∧
          removedGroups existing.groups spec.groups = [] ∧
            existing.assignments.Perm (planAssignments p planned spec.groups) := by
  have hstart : (planGroups deps n existing.groups p.drawn spec.groups).added = [] ∧
      (planGroups deps n existing.groups p.drawn spec.groups).updated = [] <-> _ :=
    (foldl_planGroup_iff (GroupPlan.start p.drawn)).1
  unfold reloadReport configPlan
  simp only [hgroups]
  rw [← sortAssignments_eq_iff]
  simp only [Bool.or_eq_false_iff, Bool.not_eq_false', List.isEmpty_iff, List.map_eq_nil_iff,
    decide_eq_false_iff_not, not_not]
  constructor
  · rintro ⟨⟨⟨⟨⟨hinsert, hdelete⟩, hadded⟩, hupdated⟩, hremoved⟩, hassign⟩
    exact ⟨hinsert, hdelete, (hstart.mp ⟨hadded, hupdated⟩).2, hremoved, hassign⟩
  · rintro ⟨hinsert, hdelete, hstands, hremoved, hassign⟩
    rcases hstart.mpr ⟨⟨rfl, rfl⟩, hstands⟩ with ⟨hadded, hupdated⟩
    exact ⟨⟨⟨⟨⟨hinsert, hdelete⟩, hadded⟩, hupdated⟩, hremoved⟩, hassign⟩

section World

variable {n : Nat} {tenantId : Int} {w : World} {spec : Spec} {p : Planning}
  {picked : List (BuiltBundle × Choice)} {planned : List PlannedGroup}

abbrev PlanIn (deps : Deps) (n : Nat) (tenantId : Int) (w : World) (spec : Spec)
    (p : Planning) (picked : List (BuiltBundle × Choice)) (planned : List PlannedGroup) :
    Prop :=
  PlanOf deps n (existingOf tenantId w.db)
    (fun row b => sameContents deps w.files row b = true)
    (fun row b => sameContents deps w.files row b = false) spec p picked planned

theorem keep_of_not_inserted (h : PlanIn deps n tenantId w spec p picked planned)
    {x : BuiltBundle × Choice} (hx : x ∈ picked)
    (hno : forall b, x.2 ≠ Choice.insert b) :
    exists row, x.2 = Choice.keep row ∧ row ∈ tenantBundles tenantId w.db ∧
      row.name = x.1.name ∧ row.version = x.1.version ∧
        sameContents deps w.files row x.1 = true := by
  rcases x with ⟨b, choice⟩
  have hpick : Picks deps n (BundlesRepo.list tenantId w.db) _ _ b choice := h.picks _ hx
  cases hpick with
  | @keep row hrow hsame =>
      rcases mem_of_byIdentity hrow with ⟨hmem, hname, hversion⟩
      exact ⟨row, rfl, mem_listBundles.mp hmem, hname, hversion, hsame⟩
  | insert hdiffers => exact absurd rfl (hno _)

theorem realizes_of_unchanged (h : PlanIn deps n tenantId w spec p picked planned)
    (hkeys : ConfigKeys w.db)
    (hunchanged : (reloadReport deps n false (existingOf tenantId w.db) spec p).changed = false) :
    Realizes deps tenantId w picked planned (planAssignments p planned spec.groups) := by
  rcases (changed_eq_false h.groups).mp hunchanged with ⟨hinsert, hkept, hstands, hremoved, hassign⟩
  have hread := keyed_existingOf hkeys tenantId
  constructor
  · intro row hrow
    by_contra hnot
    have hmem : row ∈ notKept (existingOf tenantId w.db).bundles p := by
      apply List.mem_filter.mpr
      refine ⟨mem_listBundles.mpr hrow, ?_⟩
      rw [Bool.not_eq_true', ← Bool.not_eq_true, List.contains_iff_mem]
      intro hid
      rcases (mem_kept h).mp hid with ⟨x, row', hx, hchoice, hid⟩
      exact hnot ⟨x, hx, by rw [hchoice, ← hid]; rfl⟩
    rw [hkept] at hmem
    cases hmem
  · intro x hx
    have hno : forall b, x.2 ≠ Choice.insert b := by
      intro b hchoice
      have hmem := (mem_inserted h).mpr ⟨x, hx, hchoice⟩
      rw [hinsert] at hmem
      cases hmem
    rcases keep_of_not_inserted h hx hno with ⟨row, hchoice, hrow, hfields⟩
    exact ⟨row, hrow, by rw [hchoice]; rfl, hfields⟩
  · intro row hrow
    have hname : spec.groups.any (fun g => g.name == row.name) = true := by
      by_contra hnot
      have hmem : row ∈ removedGroups (existingOf tenantId w.db).groups spec.groups := by
        apply List.mem_filter.mpr
        refine ⟨mem_listGroups.mpr hrow, ?_⟩
        rw [Bool.not_eq_true', Bool.eq_false_iff]
        exact hnot
      rw [hremoved] at hmem
      cases hmem
    rcases List.any_eq_true.mp hname with ⟨g, hg, hgname⟩
    rw [beq_iff_eq] at hgname
    rcases exists_planned h hg with ⟨g', hg', hname', _⟩
    have hfound := groupByName_of_mem hread.groupNames (mem_listGroups.mpr hrow)
    rw [← hgname, ← hname'] at hfound
    rcases places_cases h.places g' hg' with ⟨_, row', hrow', hid⟩ | ⟨_, hnone, _⟩
    · rw [hfound] at hrow'
      cases hrow'
      exact ⟨g', hg', hid.symm⟩
    · rw [hfound] at hnone
      cases hnone
  · intro g hg
    rcases exists_groupSpec h hg with ⟨g', hg', hname, hselector⟩
    rcases hstands g' hg' with ⟨row, hrow, hrowselector⟩
    rw [hname] at hrow
    rcases mem_of_groupByName hrow with ⟨hmem, hrowname⟩
    rcases places_cases h.places g hg with ⟨_, row', hrow', hid⟩ | ⟨_, hnone, _⟩
    · rw [hrow] at hrow'
      cases hrow'
      exact ⟨row, mem_listGroups.mp hmem, hid.symm, hrowname, hrowselector.trans hselector⟩
    · rw [hrow] at hnone
      cases hnone
  · intro a
    exact hassign.mem_iff

/-!
# A directory that is already there
-/

theorem exists_row_of_mirrors (hw : Mirrors deps tenantId spec w) {b : BundleSpec}
    (hb : b ∈ spec.bundles) : exists row, row ∈ tenantBundles tenantId w.db ∧
      row.name = b.name ∧ row.version = b.version ∧ HasContents deps w.files row b.contents := by
  have hmem : (b.name, b.version) ∈
      (tenantBundles tenantId w.db).map fun b => (b.name, b.version) :=
    hw.bundles.mem_iff.mpr (List.mem_map.mpr ⟨b, hb, rfl⟩)
  rcases List.mem_map.mp hmem with ⟨row, hrow, hsame⟩
  have hname : row.name = b.name := congrArg Prod.fst hsame
  have hversion : row.version = b.version := congrArg Prod.snd hsame
  exact ⟨row, hrow, hname, hversion, hw.contents row hrow b hb hname.symm hversion.symm⟩

theorem byIdentity_of_mirrors (hw : Mirrors deps tenantId spec w) (hkeys : ConfigKeys w.db)
    {spec' : BundleSpec} (hspec : spec' ∈ spec.bundles) {b : BuiltBundle}
    (hb : BuiltFrom deps spec' b) :
    exists row, byIdentity (BundlesRepo.list tenantId w.db) b.name b.version = some row ∧
      sameContents deps w.files row b = true := by
  rcases exists_row_of_mirrors hw hspec with ⟨row, hrow, hname, hversion, hcontents⟩
  have hread := keyed_existingOf hkeys tenantId
  refine ⟨row, ?_, (sameContents_iff hb).mpr hcontents⟩
  rw [hb.name, hb.version, ← hname, ← hversion]
  exact byIdentity_of_mem hread.identities (mem_listBundles.mpr hrow)

theorem keep_of_mirrors (h : PlanIn deps n tenantId w spec p picked planned)
    (hw : Mirrors deps tenantId spec w) (hkeys : ConfigKeys w.db)
    {x : BuiltBundle × Choice} (hx : x ∈ picked) :
    exists row, x.2 = Choice.keep row ∧ row ∈ tenantBundles tenantId w.db ∧
      row.name = x.1.name ∧ row.version = x.1.version := by
  rcases exists_spec h hx with ⟨b, hb, hbuilt⟩
  obtain ⟨row, hrow, hsame⟩ := byIdentity_of_mirrors hw hkeys hb hbuilt
  rcases x with ⟨built, choice⟩
  have hpick : Picks deps n (BundlesRepo.list tenantId w.db) _ _ built choice := h.picks _ hx
  cases hpick with
  | @keep row' hrow' _ =>
      rcases mem_of_byIdentity hrow' with ⟨hmem, hname, hversion⟩
      exact ⟨row', rfl, mem_listBundles.mp hmem, hname, hversion⟩
  | insert hdiffers =>
      have hno := hdiffers row hrow
      rw [hsame] at hno
      cases hno

theorem stands_of_mirrors (hw : Mirrors deps tenantId spec w) (hkeys : ConfigKeys w.db)
    {g : GroupSpec} (hg : g ∈ spec.groups) : g.Stands (GroupsRepo.list tenantId w.db) := by
  have hmem : (g.name, g.selectorJson) ∈
      (tenantGroups tenantId w.db).map fun g => (g.name, g.selectorJson) :=
    hw.groups.mem_iff.mpr (List.mem_map.mpr ⟨g, hg, rfl⟩)
  rcases List.mem_map.mp hmem with ⟨row, hrow, hsame⟩
  have hread := keyed_existingOf hkeys tenantId
  have hname : row.name = g.name := congrArg Prod.fst hsame
  refine ⟨row, ?_, congrArg Prod.snd hsame⟩
  rw [← hname]
  exact groupByName_of_mem hread.groupNames (mem_listGroups.mpr hrow)

theorem placed_of_mirrors (h : PlanIn deps n tenantId w spec p picked planned)
    (hw : Mirrors deps tenantId spec w) (hkeys : ConfigKeys w.db) {g : PlannedGroup}
    (hg : g ∈ planned) :
    exists row, row ∈ tenantGroups tenantId w.db ∧ row.id = g.id ∧ row.name = g.name := by
  rcases exists_groupSpec h hg with ⟨g', hg', hname, _⟩
  rcases stands_of_mirrors hw hkeys hg' with ⟨row, hrow, _⟩
  rw [hname] at hrow
  rcases mem_of_groupByName hrow with ⟨hmem, hrowname⟩
  rcases places_cases h.places g hg with ⟨_, row', hrow', hid⟩ | ⟨_, hnone, _⟩
  · have hsame : some row = some row' := hrow.symm.trans hrow'
    cases hsame
    exact ⟨row, mem_listGroups.mp hmem, hid.symm, hrowname⟩
  · have hsame : some row = none := hrow.symm.trans hnone
    cases hsame

theorem perm_planAssignments_of_mirrors (h : PlanIn deps n tenantId w spec p picked planned)
    (hw : Mirrors deps tenantId spec w) (hkeys : ConfigKeys w.db) :
    (ConfigSourceRepo.listAssignments tenantId w.db).Perm
      (planAssignments p planned spec.groups) := by
  apply (List.perm_ext_iff_of_nodup ?_ ?_).mpr
  · rintro ⟨groupId, bundleId, priority⟩
    rw [mem_planAssignments h]
    constructor
    · intro ha
      rcases hw.between _ ha with ⟨g, b, hg, hb, rfl, rfl⟩
      have hassigns : spec.Assigns g.name b.name b.version priority :=
        (hw.assignments _ _ _ _).mp ⟨g, b, hg, hb, rfl, rfl, rfl, ha⟩
      rcases hassigns with ⟨g', r, hg', hr, hgname, hrname, hrversion, _⟩
      rcases exists_groupIdOf h hg' with ⟨planned', hplanned', hname', _⟩
      rcases exists_bundleIdOf h hg' hr with ⟨x, hx, hxname, hxversion, _⟩
      rcases placed_of_mirrors h hw hkeys hplanned' with ⟨grow, hgrow, hgid, hgrowname⟩
      rcases keep_of_mirrors h hw hkeys hx with ⟨brow, hchoice, hbrow, hbname, hbversion⟩
      have hgsame : grow = g := eq_of_key_eq (nodup_tenantGroups hkeys tenantId) hgrow hg
        (hgrowname.trans (hname'.trans hgname))
      have hbsame : brow = b := by
        apply eq_of_key_eq (nodup_tenantBundles hkeys tenantId) hbrow hb
        rw [hbname, hbversion, hxname, hxversion, hrname, hrversion]
      refine ⟨planned', x, hplanned', hx, hgsame ▸ hgid, ?_, ?_⟩
      · rw [hchoice, hbsame]
        rfl
      · rw [hname', hgname, hxname, hxversion, hrname, hrversion]
        exact (hw.assignments _ _ _ _).mp ⟨g, b, hg, hb, rfl, rfl, rfl, ha⟩
    · rintro ⟨g, x, hg, hx, hgid, hbid, hassigns⟩
      obtain ⟨grow, brow, hgrow, hbrow, hgname, hbname, hbversion, hmem⟩ :=
        (hw.assignments _ _ _ _).mpr hassigns
      rcases placed_of_mirrors h hw hkeys hg with ⟨grow', hgrow', hgid', hgname'⟩
      rcases keep_of_mirrors h hw hkeys hx with ⟨brow', hchoice, hbrow', hbname', hbversion'⟩
      have hgsame : grow = grow' := eq_of_key_eq (nodup_tenantGroups hkeys tenantId) hgrow
        hgrow' (hgname.trans hgname'.symm)
      have hbsame : brow = brow' := by
        apply eq_of_key_eq (nodup_tenantBundles hkeys tenantId) hbrow hbrow'
        rw [hbname, hbversion, hbname', hbversion']
      have hbid' : bundleId = brow'.id := by
        change bundleId = x.2.id at hbid
        rw [hbid, hchoice]
        rfl
      have hgid'' : groupId = grow'.id := hgid.trans hgid'.symm
      rw [hgid'', hbid', ← hgsame, ← hbsame]
      exact hmem
  · have hpairs : ((ConfigSourceRepo.listAssignments tenantId w.db).map
        fun a => (a.1, a.2.1)).Nodup := by
      unfold ConfigSourceRepo.listAssignments
      rw [List.map_map]
      exact hkeys.pairs.sublist (List.filter_sublist.map _)
    exact hpairs.of_map
  · apply nodup_planAssignments h
    · intro x y hx hy hid
      rcases keep_of_mirrors h hw hkeys hx with ⟨row, hchoice, hrow, hname, hversion⟩
      rcases keep_of_mirrors h hw hkeys hy with ⟨row', hchoice', hrow', hname', hversion'⟩
      rw [hchoice, hchoice'] at hid
      have hsame : row = row' := eq_of_key_eq hkeys.bundleIds (mem_tenantBundles.mp hrow).1
        (mem_tenantBundles.mp hrow').1 hid
      rw [← hname, ← hname', ← hversion, ← hversion', hsame]
      exact ⟨rfl, rfl⟩
    · intro g g' hg hg' hid
      rcases placed_of_mirrors h hw hkeys hg with ⟨row, hrow, hrowid, hname⟩
      rcases placed_of_mirrors h hw hkeys hg' with ⟨row', hrow', hrowid', hname'⟩
      have hsame : row = row' := eq_of_key_eq hkeys.groupIds (mem_tenantGroups.mp hrow).1
        (mem_tenantGroups.mp hrow').1 (hrowid.trans (hid.trans hrowid'.symm))
      rw [← hname, ← hname', hsame]

theorem unchanged_of_mirrors (h : PlanIn deps n tenantId w spec p picked planned)
    (hw : Mirrors deps tenantId spec w) (hkeys : ConfigKeys w.db) :
    p.insertBundles = [] ∧ notKept (BundlesRepo.list tenantId w.db) p = [] ∧
      (forall g, g ∈ spec.groups -> g.Stands (GroupsRepo.list tenantId w.db)) ∧
        removedGroups (GroupsRepo.list tenantId w.db) spec.groups = [] ∧
          (ConfigSourceRepo.listAssignments tenantId w.db).Perm
            (planAssignments p planned spec.groups) := by
  refine ⟨?_, ?_, fun g hg => stands_of_mirrors hw hkeys hg, ?_,
    perm_planAssignments_of_mirrors h hw hkeys⟩
  · apply List.eq_nil_iff_forall_not_mem.mpr
    intro b hb
    rcases (mem_inserted h).mp hb with ⟨x, hx, hchoice⟩
    rcases keep_of_mirrors h hw hkeys hx with ⟨row, hkeep, _⟩
    rw [hkeep] at hchoice
    cases hchoice
  · apply List.eq_nil_iff_forall_not_mem.mpr
    intro row hrow
    rcases List.mem_filter.mp hrow with ⟨hmem, hnot⟩
    rw [Bool.not_eq_true', ← Bool.not_eq_true, List.contains_iff_mem] at hnot
    apply hnot
    have hrow' := mem_listBundles.mp hmem
    have hidentity : (row.name, row.version) ∈ spec.bundles.map fun b => (b.name, b.version) :=
      hw.bundles.mem_iff.mp (List.mem_map.mpr ⟨row, hrow', rfl⟩)
    rcases List.mem_map.mp hidentity with ⟨b, hb, hsame⟩
    rcases exists_picked h hb with ⟨x, hx, hbuilt⟩
    rcases keep_of_mirrors h hw hkeys hx with ⟨row', hkeep, hrow'', hname, hversion⟩
    have hrows : row' = row := by
      apply eq_of_key_eq (nodup_tenantBundles hkeys tenantId) hrow'' hrow'
      rw [hname, hversion, hbuilt.name, hbuilt.version, hsame]
    exact (mem_kept h).mpr ⟨x, row', hx, hkeep, by rw [hrows]⟩
  · apply List.eq_nil_iff_forall_not_mem.mpr
    intro row hrow
    rcases List.mem_filter.mp hrow with ⟨hmem, hnot⟩
    rw [Bool.not_eq_true', List.any_eq_false] at hnot
    have hgroup : (row.name, row.selectorJson) ∈
        spec.groups.map fun g => (g.name, g.selectorJson) :=
      hw.groups.mem_iff.mp (List.mem_map.mpr ⟨row, mem_listGroups.mp hmem, rfl⟩)
    rcases List.mem_map.mp hgroup with ⟨g, hg, hsame⟩
    apply hnot g hg
    rw [beq_iff_eq]
    exact congrArg Prod.fst hsame

theorem unchanged_iff_mirrors (h : PlanIn deps n tenantId w spec p picked planned)
    (hkeys : ConfigKeys w.db) :
    (reloadReport deps n false (existingOf tenantId w.db) spec p).changed = false <->
      Mirrors deps tenantId spec w := by
  constructor
  · intro hunchanged
    exact mirrors_of_realizes h hkeys (realizes_of_unchanged h hkeys hunchanged)
  · intro hw
    exact (changed_eq_false h.groups).mpr (unchanged_of_mirrors h hw hkeys)

end World

/-!
# Runs
-/

theorem run_storeAll (tenantId : Int) {es : List (String × Bytes)} (w : World)
    (hdistinct : (es.map Prod.fst).Nodup) :
    exists u, (storeAll tenantId es).run machine w = (true, u) ∧ u.db = w.db ∧
      u.now = w.now ∧ Bundles.Stores tenantId es w u := by
  induction es generalizing w with
  | nil => exact ⟨w, rfl, rfl, rfl, fun _ he => absurd he List.not_mem_nil, fun _ _ => rfl⟩
  | cons e rest ih =>
      rcases e with ⟨id, bytes⟩
      rw [List.map_cons, List.nodup_cons] at hdistinct
      obtain ⟨u, hrun, hdb, hnow, hstores⟩ :=
        ih { w with files := w.files.insert (tenantId, id) bytes } hdistinct.2
      exact ⟨u, hrun, hdb, hnow, Bundles.stores_cons hdistinct.1 hstores⟩

theorem run_discard (tenantId : Int) (ids : List String) (w : World) :
    exists u, (discard tenantId ids).run machine w = ((), u) ∧ u.db = w.db ∧
      forall id, id ∉ ids -> u.files.lookup (tenantId, id) = w.files.lookup (tenantId, id) := by
  induction ids generalizing w with
  | nil => exact ⟨w, rfl, rfl, fun _ _ => rfl⟩
  | cons id rest ih =>
      obtain ⟨u, hrun, hdb, hfiles⟩ := ih { w with files := w.files.erase (tenantId, id) }
      refine ⟨u, hrun, hdb, ?_⟩
      intro id' hid'
      rw [List.mem_cons, not_or] at hid'
      rw [hfiles id' hid'.2]
      exact AList.lookup_erase_ne (fun hkey => hid'.1 (congrArg Prod.snd hkey))

theorem run_applyPlan {tenantId : Int} {plan : ConfigPlan} {es : List (String × Bytes)}
    {report answer : ReloadReport} {w v : World} (hdistinct : (es.map Prod.fst).Nodup)
    (hrun : (applyPlan tenantId plan es report).run machine w = (Except.ok answer, v)) :
    answer = report ∧
      ConfigSourceRepo.apply tenantId plan w.now w.db =
        Except.ok (ApplyOutcome.applied, v.db) ∧
      exists u, Bundles.Stores tenantId es w u ∧
        forall id, id ∉ plan.deleteBundleIds ->
          v.files.lookup (tenantId, id) = u.files.lookup (tenantId, id) := by
  rcases run_storeAll tenantId w hdistinct with ⟨u, hstore, hdb, hnow, hstores⟩
  unfold applyPlan at hrun
  rw [Program.run_bind, hstore] at hrun
  simp only [Bool.not_true, Bool.false_eq_true, if_false] at hrun
  rw [Program.run_bind] at hrun
  have hexecute : (execute (Statement.applyConfig tenantId plan)).run machine u =
      (Statement.applyConfig tenantId plan).exec u := rfl
  rw [hexecute] at hrun
  have hgiveUp : forall (u' : World) (e : ReconcileError),
      (giveUp tenantId es e).run machine u' ≠ (Except.ok answer, v) := by
    intro u' e h
    rcases run_discard tenantId (es.map Prod.fst) u' with ⟨_, hdiscard, _⟩
    unfold giveUp at h
    rw [Program.run_bind, hdiscard] at h
    cases h
  rcases statement_exec (Statement.applyConfig tenantId plan) u with
    ⟨e, _, hexec⟩ | ⟨outcome, db, htx, hexec⟩
  · rw [hexec] at hrun
    exact absurd hrun (hgiveUp _ _)
  · rw [hexec] at hrun
    cases outcome with
    | changed => exact absurd hrun (hgiveUp _ _)
    | applied =>
        obtain ⟨v', hdiscard, hdb', hfiles⟩ :=
          run_discard tenantId plan.deleteBundleIds { u with db := db }
        simp only at hrun
        rw [Program.run_bind, hdiscard] at hrun
        cases hrun
        refine ⟨rfl, ?_, u, hstores, hfiles⟩
        rw [hdb', ← hnow, ← hdb]
        exact htx

theorem planIn_of_run {n : Nat} {tenantId : Int} {limits : TierLimits} {spec : Spec}
    {built : List BuiltBundle} {w v : World} {p : Planning} (hvalid : spec.Valid)
    (hbuilt : builtWithin deps limits spec.bundles = Except.ok built)
    (hrun : (planBundles deps n tenantId false (BundlesRepo.list tenantId w.db)
      Planning.start built).run machine w = (Except.ok p, v)) :
    v = w ∧ exists picked planned, PlanIn deps n tenantId w spec p picked planned := by
  have hreads : Program.Uses (fun op => (exec op w).2 = w)
      (planBundles deps n tenantId false (BundlesRepo.list tenantId w.db)
        Planning.start built) := uses_world w (uses_planBundles _ _ _ _ _ _)
  obtain ⟨hpicked, hworld⟩ := Program.run_endsGiven (M := machine)
    (endsGiven_planBundles (n := n) (compares_world _ w) Planning.start built) hreads
  rw [hrun] at hpicked hworld
  rcases hpicked p rfl with ⟨picked, hfst, hextends, hpicks⟩
  have hplaced : exists planned, (planGroups deps n (GroupsRepo.list tenantId w.db)
        p.drawn spec.groups).groups = planned ∧
      Places deps n (GroupsRepo.list tenantId w.db) p.drawn spec.groups planned :=
    places_foldl n _ (GroupPlan.start p.drawn) spec.groups
  rcases hplaced with ⟨planned, hgroups, hplaces⟩
  refine ⟨hworld, picked, planned, ?_⟩
  constructor
  · exact hvalid
  · rw [hfst]
    exact builtFrom_of_builtWithin hbuilt
  · exact hextends
  · exact hpicks
  · exact hgroups
  · exact hplaces

theorem run_reconcile_eq {n : Nat} {tenantId : Int} {shown : String} {dir : Node} {spec : Spec}
    {w : World} {limits : TierLimits} (hload : load deps shown dir = Except.ok spec)
    (hlimits : tenantLimits deps tenantId w.db = some limits) :
    (reconcile deps n tenantId shown dir false).run machine w =
      (reconcileExisting deps n tenantId false limits spec (existingOf tenantId w.db)).run
        machine w := by
  unfold tenantLimits at hlimits
  rcases Option.map_eq_some_iff.mp hlimits with ⟨tenant, htenant, rfl⟩
  unfold reconcile
  rw [hload]
  change (onOk _ _ (Except.ok (TenantRepo.get tenantId w.db))).run machine w = _
  rw [htenant]
  rfl

theorem run_reconcile {n : Nat} {tenantId : Int} {shown : String} {dir : Node} {spec : Spec}
    {w v : World} {report : ReloadReport} (hids : deps.UniqueIds)
    (hdir : dir.distinct = true) (hload : load deps shown dir = Except.ok spec)
    (hrun : (reconcile deps n tenantId shown dir false).run machine w =
      (Except.ok report, v)) :
    exists limits built p picked planned,
      tenantLimits deps tenantId w.db = some limits ∧
        builtWithin deps limits spec.bundles = Except.ok built ∧
          PlanIn deps n tenantId w spec p picked planned ∧ Staged deps n p ∧
            (reconcilePlanned deps n tenantId false (existingOf tenantId w.db) spec p).run
              machine w = (Except.ok report, v) := by
  cases hlimits : tenantLimits deps tenantId w.db with
  | none =>
      have htenant : TenantRepo.get tenantId w.db = none := Option.map_eq_none_iff.mp hlimits
      unfold reconcile at hrun
      rw [hload] at hrun
      change (onOk _ _ (Except.ok (TenantRepo.get tenantId w.db))).run machine w = _ at hrun
      rw [htenant] at hrun
      cases hrun
  | some limits =>
      rw [run_reconcile_eq hload hlimits] at hrun
      unfold reconcileExisting at hrun
      cases hbuilt : builtWithin deps limits spec.bundles with
      | error e =>
          rw [hbuilt] at hrun
          cases hrun
      | ok built =>
          rw [hbuilt] at hrun
          simp only at hrun
          rw [Program.run_bind] at hrun
          have hends : Program.Ends (staysStaged deps n)
              (planBundles deps n tenantId false (existingOf tenantId w.db).bundles
                Planning.start built) :=
            ends_planBundles hids (staged_start n) (builtWithin_sha256 hbuilt)
          have hstaged := Program.ends_run (M := machine) hends w
          cases hplanned : (planBundles deps n tenantId false
              (existingOf tenantId w.db).bundles Planning.start built).run machine w with
          | mk answer u =>
              rw [hplanned] at hrun hstaged
              cases answer with
              | error e => cases hrun
              | ok p =>
                  obtain ⟨rfl, picked, planned, hplan⟩ :=
                    planIn_of_run (valid_of_load hdir hload) hbuilt hplanned
                  exact ⟨limits, built, p, picked, planned, rfl, hbuilt, hplan,
                    hstaged p rfl, hrun⟩

/-!
# What a successful reconcile leaves
-/

/-- No group and no bundle has an id this request draws. -/
def Unseen (deps : Deps) (n : Nat) (w : World) : Prop :=
  forall k, deps.ulid n k ∉ w.db.groups.map GroupRow.id ∧
    deps.ulid n k ∉ w.db.bundles.map BundleRow.id

attribute [ext] ReloadReport

def unchangedReport (spec : Spec) : ReloadReport :=
  { changed := false, dryRun := false, bundlesAdded := [], bundlesReplaced := [],
    bundlesRemoved := [], bundlesUnchanged := spec.bundles.length, groupsAdded := [],
    groupsUpdated := [], groupsRemoved := [], groupsUnchanged := spec.groups.length,
    assignmentsChanged := false }

/-- A reconcile of the directory finds nothing to do, and leaves the world as it
is. -/
def Settled (deps : Deps) (tenantId : Int) (shown : String) (dir : Node) (spec : Spec)
    (w : World) : Prop :=
  forall n, (reconcile deps n tenantId shown dir false).run machine w =
    (Except.ok (unchangedReport spec), w)

/-- What a reconcile made of `w`: `v` equals the directory, what was equal kept
its row, new rows have their files, and there is nothing left to do. -/
structure Reconciled (deps : Deps) (tenantId : Int) (shown : String) (dir : Node) (spec : Spec)
    (w v : World) : Prop where
  mirrors : Mirrors deps tenantId spec v
  bundlesKept : forall row, row ∈ tenantBundles tenantId w.db -> forall b, b ∈ spec.bundles ->
    b.name = row.name -> b.version = row.version -> HasContents deps w.files row b.contents ->
      row ∈ tenantBundles tenantId v.db
  groupsKept : forall row, row ∈ tenantGroups tenantId w.db -> forall g, g ∈ spec.groups ->
    g.name = row.name -> g.selectorJson = row.selectorJson -> row ∈ tenantGroups tenantId v.db
  stored : forall row, row ∈ tenantBundles tenantId v.db -> row ∉ w.db.bundles ->
    Bundles.HasBytes deps v.files row
  settled : forall u : World, u.db = v.db -> u.files = v.files ->
    Settled deps tenantId shown dir spec u

section Reconciles

variable {n : Nat} {tenantId : Int} {shown : String} {dir : Node} {spec : Spec} {w v : World}

theorem settled_of_mirrors {limits : TierLimits} {built : List BuiltBundle}
    (hdir : dir.distinct = true)
    (hload : load deps shown dir = Except.ok spec)
    (hlimits : tenantLimits deps tenantId w.db = some limits)
    (hbuilt : builtWithin deps limits spec.bundles = Except.ok built)
    (hkeys : ConfigKeys w.db) (hw : Mirrors deps tenantId spec w) :
    Settled deps tenantId shown dir spec w := by
  intro n
  have hfrom := builtFrom_of_builtWithin hbuilt
  have hsettled : forall b, b ∈ built -> exists row,
      byIdentity (BundlesRepo.list tenantId w.db) b.name b.version = some row ∧
        sameContents deps w.files row b = true := by
    intro b hb
    rcases forall₂_exists_left hfrom hb with ⟨spec', hspec', hbuilt'⟩
    exact byIdentity_of_mirrors hw hkeys hspec' hbuilt'
  obtain ⟨q, hrun, hadded, hreplaced, hkept⟩ :=
    run_planBundles_settled (n := n) hsettled Planning.start
  rcases planIn_of_run (valid_of_load hdir hload) hbuilt hrun with ⟨_, picked, planned, hplan⟩
  rcases unchanged_of_mirrors hplan hw hkeys with ⟨hinsert, hnotKept, hstands, hremoved, hassign⟩
  have hunchanged := (unchanged_iff_mirrors hplan hkeys).mpr hw
  have hgroups : (planGroups deps n (existingOf tenantId w.db).groups q.drawn
      spec.groups).added = [] ∧ (planGroups deps n (existingOf tenantId w.db).groups q.drawn
        spec.groups).updated = [] :=
    (foldl_planGroup_iff (GroupPlan.start q.drawn)).1.mpr ⟨⟨rfl, rfl⟩, hstands⟩
  have hcount : (planGroups deps n (existingOf tenantId w.db).groups q.drawn
      spec.groups).unchanged = 0 + spec.groups.length :=
    (foldl_planGroup_iff (GroupPlan.start q.drawn)).2 hstands
  have hreport : reloadReport deps n false (existingOf tenantId w.db) spec q =
      unchangedReport spec := by
    have hassigned : (reloadReport deps n false (existingOf tenantId w.db) spec
        q).assignmentsChanged = false := by
      apply decide_eq_false
      rw [not_not]
      apply sortAssignments_eq_iff.mpr
      have hplanned : (configPlan deps n (existingOf tenantId w.db) spec q).assignments =
          planAssignments q planned spec.groups := by
        rw [← hplan.groups]
        rfl
      rw [hplanned]
      exact hassign
    have hremovedBundles : (reloadReport deps n false (existingOf tenantId w.db) spec
        q).bundlesRemoved = [] := by
      change (((notKept (BundlesRepo.list tenantId w.db) q).map _).filter _) = []
      rw [hnotKept]
      rfl
    have hremovedGroups : (reloadReport deps n false (existingOf tenantId w.db) spec
        q).groupsRemoved = [] := by
      change (removedGroups (GroupsRepo.list tenantId w.db) spec.groups).map _ = []
      rw [hremoved]
      rfl
    have hlength : q.kept.length = spec.bundles.length := by
      rw [hkept, hfrom.length_eq]
      exact Nat.zero_add _
    have hgroupsLength : (reloadReport deps n false (existingOf tenantId w.db) spec
        q).groupsUnchanged = spec.groups.length := hcount.trans (Nat.zero_add _)
    apply ReloadReport.ext
    · exact hunchanged
    · rfl
    · exact hadded
    · exact hreplaced
    · exact hremovedBundles
    · exact hlength
    · exact hgroups.1
    · exact hgroups.2
    · exact hremovedGroups
    · exact hgroupsLength
    · exact hassigned
  rw [run_reconcile_eq hload hlimits]
  unfold reconcileExisting
  rw [hbuilt]
  simp only
  rw [Program.run_bind, show (existingOf tenantId w.db).bundles =
    BundlesRepo.list tenantId w.db from rfl, hrun]
  simp only
  unfold reconcilePlanned
  simp only [hunchanged, Bool.false_or, Bool.not_false, if_true]
  rw [hreport]
  rfl

theorem unseen_groups {n : Nat} {w : World} (h : Unseen deps n w) (tenantId : Int) :
    forall row, row ∈ GroupsRepo.list tenantId w.db -> forall k, row.id ≠ deps.ulid n k := by
  intro row hrow k hid
  apply (h k).1
  rw [← hid]
  exact List.mem_map.mpr ⟨row, (mem_tenantGroups.mp (mem_listGroups.mp hrow)).1, rfl⟩

section Applied

variable {limits : TierLimits} {built : List BuiltBundle} {p : Planning}
  {picked : List (BuiltBundle × Choice)} {planned : List PlannedGroup} {db' : Db}

theorem tenantLimits_apply {now : Int} {plan : ConfigPlan} {outcome : ApplyOutcome}
    (happly : ConfigSourceRepo.apply tenantId plan now w.db = Except.ok (outcome, db')) :
    tenantLimits deps tenantId db' = tenantLimits deps tenantId w.db := by
  have hsame : w.db.Same Part.profiles db' := Keeps.apply tenantId plan now (by decide)
    (by decide) (by decide) (by decide) w.db outcome db' happly
  have htenants : db'.tenants.map Tenant.profile = w.db.tenants.map Tenant.profile := hsame
  rw [tenantLimits_eq, htenants, ← tenantLimits_eq]

theorem not_deleted_of_kept {existing : List BundleRow} {id : String} (hkept : id ∈ p.kept) :
    id ∉ (notKept existing p).map BundleRow.id := by
  intro hdeleted
  rcases List.mem_map.mp hdeleted with ⟨e, he, rfl⟩
  have hnot := (List.mem_filter.mp he).2
  rw [Bool.not_eq_true', ← Bool.not_eq_true, List.contains_iff_mem] at hnot
  exact hnot hkept

theorem kept_of_contents (h : PlanIn deps n tenantId w spec p picked planned)
    (hkeys : ConfigKeys w.db) {row : BundleRow} (hrow : row ∈ tenantBundles tenantId w.db)
    {b : BundleSpec} (hb : b ∈ spec.bundles) (hname : b.name = row.name)
    (hversion : b.version = row.version)
    (hcontents : HasContents deps w.files row b.contents) : row.id ∈ p.kept := by
  rcases exists_picked h hb with ⟨⟨built, choice⟩, hx, hbuilt⟩
  have hread := keyed_existingOf hkeys tenantId
  have hfound : byIdentity (BundlesRepo.list tenantId w.db) built.name built.version =
      some row := by
    rw [hbuilt.name, hbuilt.version, hname, hversion]
    exact byIdentity_of_mem hread.identities (mem_listBundles.mpr hrow)
  have hpick : Picks deps n (BundlesRepo.list tenantId w.db) _ _ built choice := h.picks _ hx
  cases hpick with
  | @keep row' hrow' _ =>
      rw [hfound] at hrow'
      cases hrow'
      exact (mem_kept h).mpr ⟨_, row, hx, rfl, rfl⟩
  | insert hdiffers =>
      have hno := hdiffers row hfound
      rw [(sameContents_iff hbuilt).mpr hcontents] at hno
      cases hno

theorem group_kept (h : PlanIn deps n tenantId w spec p picked planned)
    (hkeys : ConfigKeys w.db) {now : Int} {row : GroupRow}
    (hrow : row ∈ tenantGroups tenantId w.db) {g : GroupSpec} (hg : g ∈ spec.groups)
    (hname : g.name = row.name) (hselector : g.selectorJson = row.selectorJson) :
    row ∈ ConfigSourceRepo.groupsAfter tenantId
      (configPlan deps n (existingOf tenantId w.db) spec p) now w.db.groups := by
  rcases mem_tenantGroups.mp hrow with ⟨hmem, htenant⟩
  unfold ConfigSourceRepo.groupsAfter
  have hgroups : (configPlan deps n (existingOf tenantId w.db) spec p).groups = planned :=
    h.groups
  rw [hgroups]
  apply ConfigSourceRepo.mem_foldl_withGroup_of_same
  · apply mem_deleteWhere.mpr
    refine ⟨hmem, ?_⟩
    rw [List.any_eq_false]
    intro id hid his
    rcases List.mem_map.mp hid with ⟨e, he, rfl⟩
    rcases List.mem_filter.mp he with ⟨helist, hremoved⟩
    have hsame : e = row := eq_of_key_eq hkeys.groupIds
      (mem_tenantGroups.mp (mem_listGroups.mp helist)).1 hmem
      (KeepsKeys.isGroup_iff.mp his).2.symm
    rw [hsame, Bool.not_eq_true', List.any_eq_false] at hremoved
    exact hremoved g hg (beq_iff_eq.mpr hname)
  · intro g' hg' hcreate his
    rcases places_cases h.places g' hg' with ⟨_, e, he, hid⟩ | ⟨hnew, _⟩
    · rcases mem_of_groupByName he with ⟨helist, hename⟩
      have hsame : e = row := eq_of_key_eq hkeys.groupIds
        (mem_tenantGroups.mp (mem_listGroups.mp helist)).1 hmem
        (hid.symm.trans (KeepsKeys.isGroup_iff.mp his).2.symm)
      have hrowname : g'.name = row.name := by rw [← hename, hsame]
      rcases exists_groupSpec h hg' with ⟨g'', hg'', hname'', hselector''⟩
      have hspecs : g'' = g := eq_of_key_eq h.valid.names hg'' hg
        (hname''.trans (hrowname.trans hname.symm))
      exact ⟨hrowname, by rw [← hselector'', hspecs, hselector]⟩
    · rw [hcreate] at hnew
      cases hnew

theorem reconciled_of_applied {report answer : ReloadReport} (hids : deps.UniqueIds)
    (hdir : dir.distinct = true) (hload : load deps shown dir = Except.ok spec)
    (hlimits : tenantLimits deps tenantId w.db = some limits)
    (hbuilt : builtWithin deps limits spec.bundles = Except.ok built)
    (hkeys : ConfigKeys w.db) (hunseen : Unseen deps n w)
    (h : PlanIn deps n tenantId w spec p picked planned) (hstaged : Staged deps n p)
    (hrun : (applyPlan tenantId (configPlan deps n (existingOf tenantId w.db) spec p) p.toStore
      report).run machine w = (Except.ok answer, v)) :
    Reconciled deps tenantId shown dir spec w v := by
  rcases run_applyPlan hstaged.distinct hrun with ⟨_, happly, u, hstores, hfiles⟩
  have hread := keyed_existingOf hkeys tenantId
  have hkeys' : ConfigKeys v.db := KeepsKeys.apply tenantId _ _ _ _ _ happly hkeys
  have hlimits' : tenantLimits deps tenantId v.db = some limits :=
    (tenantLimits_apply happly).trans hlimits
  rcases ConfigSourceRepo.apply_eq_ok happly with ⟨⟨hset, _⟩, hbundles, hgroups, _⟩
  have hbundle : forall row, row ∈ tenantBundles tenantId v.db <->
      (row ∈ tenantBundles tenantId w.db ∧ row.id ∈ p.kept) ∨
        exists x b, x ∈ picked ∧ x.2 = Choice.insert b ∧
          row = ConfigSourceRepo.plannedRow tenantId w.now b := by
    intro row
    rw [mem_tenantBundles, hbundles]
    exact mem_bundlesAfter h hset
  -- The rows that are kept still have the files they had.
  have hkeptFile : forall row, row ∈ tenantBundles tenantId w.db -> row.id ∈ p.kept ->
      v.files.lookup (row.tenantId, row.id) = w.files.lookup (row.tenantId, row.id) := by
    intro row hrow hkept
    rw [(mem_tenantBundles.mp hrow).2, hfiles row.id (not_deleted_of_kept hkept)]
    apply hstores.2
    intro hstored
    rcases List.mem_map.mp hstored with ⟨e, he, hid⟩
    rcases hstaged.drawn e he with ⟨k, _, hdrawn⟩
    apply (hunseen k).2
    rw [← hdrawn, hid]
    exact List.mem_map.mpr ⟨row, (mem_tenantBundles.mp hrow).1, rfl⟩
  have hrealizes : Realizes deps tenantId { w with
      db := v.db
      files := v.files } picked planned (planAssignments p planned spec.groups) := by
    apply realizes_of_applied (w := { w with files := v.files }) h hids hread
      (unseen_groups hunseen tenantId) _ happly
    intro x row hx hchoice
    have hrow : row.id ∈ p.kept := (mem_kept h).mpr ⟨x, row, hx, hchoice, rfl⟩
    obtain ⟨row', hchoice', hrow', hname, hversion, hsame⟩ :=
      keep_of_not_inserted h hx (fun b hinsert => by rw [hchoice] at hinsert; cases hinsert)
    rw [hchoice] at hchoice'
    cases hchoice'
    refine ⟨row, hrow', rfl, hname, hversion, ?_⟩
    rw [sameContents_congr (hkeptFile row hrow' hrow)]
    exact hsame
  have hcommit : Mirrors deps tenantId spec { w with
      db := v.db
      files := v.files } := mirrors_of_realizes h hkeys' hrealizes
  have hmirrors : Mirrors deps tenantId spec v := by
    apply mirrors_congr _ _ hcommit
    · rfl
    · rfl
  constructor
  · exact hmirrors
  · intro row hrow b hb hname hversion hcontents
    exact (hbundle row).mpr
      (Or.inl ⟨hrow, kept_of_contents h hkeys hrow hb hname hversion hcontents⟩)
  · intro row hrow g hg hname hselector
    apply mem_tenantGroups.mpr
    refine ⟨?_, (mem_tenantGroups.mp hrow).2⟩
    rw [hgroups]
    exact group_kept h hkeys hrow hg hname hselector
  · intro row hrow hnew
    rcases (hbundle row).mp hrow with ⟨hold, _⟩ | ⟨x, b, hx, hchoice, rfl⟩
    · exact absurd (mem_tenantBundles.mp hold).1 hnew
    · rcases hstaged.rows b ((mem_inserted h).mpr ⟨x, hx, hchoice⟩) with ⟨bytes, hbytes, hsha⟩
      rcases hstaged.drawn _ hbytes with ⟨k, _, hdrawn⟩
      refine ⟨bytes, ?_, hsha⟩
      change v.files.lookup (tenantId, b.id) = some bytes
      rw [hfiles b.id]
      · exact hstores.1 _ hbytes
      · intro hdeleted
        rcases List.mem_map.mp hdeleted with ⟨e, he, hid⟩
        have helist := (List.mem_filter.mp he).1
        apply (hunseen k).2
        rw [← hdrawn, ← hid]
        exact List.mem_map.mpr
          ⟨e, (mem_tenantBundles.mp (mem_listBundles.mp helist)).1, rfl⟩
  · intro u' hdb hfiles'
    apply settled_of_mirrors hdir hload _ hbuilt
    · rw [hdb]
      exact hkeys'
    · exact mirrors_congr hdb hfiles' hmirrors
    · rw [hdb]
      exact hlimits'

end Applied

/-- A reconcile by itself that succeeds leaves the tenant equal to the directory:
its groups, its bundles and its assignments are exactly the directory's.  Bundles
and groups that were equal before kept their rows, and reconciling the directory
again changes nothing. -/
theorem reconcile_settles {report : ReloadReport} (hids : deps.UniqueIds)
    (hdir : dir.distinct = true) (hload : load deps shown dir = Except.ok spec)
    (hkeys : ConfigKeys w.db) (hunseen : Unseen deps n w)
    (hrun : (reconcile deps n tenantId shown dir false).run machine w =
      (Except.ok report, v)) : Reconciled deps tenantId shown dir spec w v := by
  obtain ⟨limits, built, p, picked, planned, hlimits, hbuilt, h, hstaged, hrun⟩ :=
    run_reconcile hids hdir hload hrun
  unfold reconcilePlanned at hrun
  simp only [Bool.false_or] at hrun
  split at hrun
  · rename_i hchanged
    cases hrun
    rw [Bool.not_eq_true'] at hchanged
    have hmirrors := (unchanged_iff_mirrors h hkeys).mp hchanged
    constructor
    · exact hmirrors
    · intro row hrow b _ _ _ _
      exact hrow
    · intro row hrow g _ _ _
      exact hrow
    · intro row hrow hnew
      exact absurd (mem_tenantBundles.mp hrow).1 hnew
    · intro u hdb hfiles
      apply settled_of_mirrors hdir hload _ hbuilt
      · rw [hdb]
        exact hkeys
      · exact mirrors_congr hdb hfiles hmirrors
      · rw [hdb]
        exact hlimits
  · exact reconciled_of_applied hids hdir hload hlimits hbuilt hkeys hunseen h hstaged hrun

end Reconciles

/-- A server whose group files all define one group, which has one bundle. -/
def siteDeps : Deps :=
  { Deps.sample with
    decodeSelector := fun _ => Except.ok { clauses := [] }
    parseGroupFile := fun _ => Except.ok
      { name := "all", selector := Json.null,
        bundles := [{ name := "base", version := "1", priority := 0 }] } }

def siteDir : Node :=
  Node.dir [("bundles", Node.dir [("base", Node.dir [("1.zip", Node.file [1])])]),
    ("groups", Node.dir [("all.json", Node.file [])])]

def siteSpec : Spec :=
  { bundles := [{ name := "base", version := "1", contents := BundleContents.plainBlob [1] }]
    groups := [{ name := "all", selectorJson := "",
                 bundles := [{ name := "base", version := "1", priority := 0 }] }] }

theorem load_siteDir : load siteDeps "" siteDir = Except.ok siteSpec := rfl

/-- The group is there already, beside one the directory does not have. -/
def siteDb : Db :=
  { sampleDb with
    groups := [{ id := "g1", tenantId := 1, name := "all", selectorJson := "", createdAt := 0 },
      { id := "g2", tenantId := 1, name := "old", selectorJson := "", createdAt := 0 }] }

theorem configKeys_siteDb : ConfigKeys siteDb := by
  constructor
  · decide
  · decide
  · decide
  · decide
  · decide
  · decide
  · intro a ha
    cases ha
  · intro a ha
    cases ha

theorem unseen_siteDb : Unseen siteDeps 0 (World.start siteDb ∅ 0) := by
  intro k
  constructor
  · intro hmem
    have hid : Deps.sampleId 0 k = "g1" ∨ Deps.sampleId 0 k = "g2" := by
      rcases List.mem_cons.mp hmem with hid | hmem
      · exact Or.inl hid
      · exact Or.inr (List.mem_singleton.mp hmem)
    rcases hid with hid | hid
    · have hlists := congrArg String.toList hid
      rw [Deps.sampleId_toList] at hlists
      cases hlists
    · have hlists := congrArg String.toList hid
      rw [Deps.sampleId_toList] at hlists
      cases hlists
  · exact List.not_mem_nil

theorem reconcile_settles_siteDir :
    exists report v, (reconcile siteDeps 0 1 "" siteDir false).run machine
        (World.start siteDb ∅ 0) = (Except.ok report, v) ∧
      Reconciled siteDeps 1 "" siteDir siteSpec (World.start siteDb ∅ 0) v := by
  have hok : ((reconcile siteDeps 0 1 "" siteDir false).run machine
      (World.start siteDb ∅ 0)).1.isOk = true := by decide +kernel
  cases hrun : (reconcile siteDeps 0 1 "" siteDir false).run machine (World.start siteDb ∅ 0) with
  | mk answer v =>
      rw [hrun] at hok
      cases answer with
      | error e => cases hok
      | ok report =>
          exact ⟨report, v, rfl, reconcile_settles Deps.uniqueIds_sample rfl load_siteDir
            configKeys_siteDb unseen_siteDb hrun⟩

end ConfigSource
end FleetServer
