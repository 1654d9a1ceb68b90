import FleetServer.ConfigSource.Staging
import FleetServer.ConfigSource.Validity
import FleetServer.Storage.Constraints
import FleetServer.Storage.Replace

/-!
# What a plan consists of

Every bundle of the directory keeps a row that was read or gets a row of its
own, and so does every group.
-/

namespace FleetServer
namespace ConfigSource

open FleetServer.Core
open Storage
open Table
open Server
open Concurrency
open KeyedMap

variable {deps : Deps}

/-!
# Bundles
-/

/-- What becomes of a bundle of the directory. -/
inductive Choice where
  | keep (row : BundleRow)
  | insert (planned : PlannedBundle)

def Choice.id : Choice -> String
  | keep row => row.id
  | insert planned => planned.id

def Choice.kept : Choice -> Option String
  | keep row => some row.id
  | insert _ => none

def Choice.inserted : Choice -> Option PlannedBundle
  | keep _ => none
  | insert planned => some planned

/-- What decides between the two: whether the row of that name and version is
the `same`, or `differs`. -/
inductive Picks (deps : Deps) (n : Nat) (existing : List BundleRow)
    (same differs : BundleRow -> BuiltBundle -> Prop) : BuiltBundle -> Choice -> Prop where
  | keep {b : BuiltBundle} {row : BundleRow} :
      byIdentity existing b.name b.version = some row -> same row b ->
        Picks deps n existing same differs b (Choice.keep row)
  | insert {b : BuiltBundle} {k : Nat} {signature : String} :
      (forall row, byIdentity existing b.name b.version = some row -> differs row b) ->
        Picks deps n existing same differs b
          (Choice.insert (plannedBundle (deps.ulid n k) signature b))

/-- The plan `q` is `p` with the choices made for some more bundles. -/
structure Planning.Extends (p : Planning) (picked : List (BuiltBundle × Choice))
    (q : Planning) : Prop where
  kept : q.kept = p.kept ++ picked.filterMap fun x => x.2.kept
  inserted : q.insertBundles = p.insertBundles ++ picked.filterMap fun x => x.2.inserted
  ids : q.bundleIds = p.bundleIds ++ picked.map fun x => ((x.1.name, x.1.version), x.2.id)

variable {p q : Planning} {row : BundleRow} {b : BuiltBundle} {picked : List (BuiltBundle × Choice)}

theorem extends_refl (p : Planning) : p.Extends [] p :=
  ⟨(List.append_nil _).symm, (List.append_nil _).symm, (List.append_nil _).symm⟩

theorem extends_keep (h : (p.keep row b).Extends picked q) :
    p.Extends ((b, Choice.keep row) :: picked) q := by
  constructor
  · rw [h.kept]
    exact List.append_assoc _ _ _
  · exact h.inserted
  · rw [h.ids]
    exact List.append_assoc _ _ _

theorem extends_insert {p' : Planning} {id signature : String} (hkept : p'.kept = p.kept)
    (hinserted : p'.insertBundles = p.insertBundles) (hids : p'.bundleIds = p.bundleIds)
    (h : (p'.insert id signature b).Extends picked q) :
    p.Extends ((b, Choice.insert (plannedBundle id signature b)) :: picked) q := by
  constructor
  · rw [h.kept, ← hkept]
    rfl
  · rw [h.inserted, ← hinserted]
    exact List.append_assoc _ _ _
  · rw [h.ids, ← hids]
    exact List.append_assoc _ _ _

section Picking

variable {Known : (op : Op) -> op.Res -> Prop} {same differs : BundleRow -> BuiltBundle -> Prop}
  {n : Nat} {tenantId : Int} {dryRun : Bool} {existing : List BundleRow}

def Compares (deps : Deps) (Known : (op : Op) -> op.Res -> Prop)
    (same differs : BundleRow -> BuiltBundle -> Prop) (existing : List BundleRow) : Prop :=
  forall row b, row ∈ existing ->
    Program.EndsGiven Known (fun r => if r = true then same row b else differs row b)
      (unchanged deps row b)

theorem mem_of_byIdentity {name version : String} (h : byIdentity existing name version = some row)
    :
    row ∈ existing ∧ row.name = name ∧ row.version = version := by
  unfold byIdentity at h
  have hfound := List.find?_some h
  rw [Bool.and_eq_true, beq_iff_eq, beq_iff_eq] at hfound
  exact ⟨List.mem_reverse.mp (List.mem_of_find?_eq_some h), hfound⟩

theorem endsGiven_unchangedRow (hcompare : Compares deps Known same differs existing)
    {current : Option BundleRow} (hcurrent : forall row, current = some row -> row ∈ existing) :
    Program.EndsGiven Known (fun r =>
      (forall row, r = some row -> current = some row ∧ same row b) ∧
        (r = none -> forall row, current = some row -> differs row b))
      (unchangedRow deps current b) := by
  unfold unchangedRow
  cases current with
  | none =>
      refine ⟨?_, ?_⟩
      · intro row hrow
        cases hrow
      · intro _ row hrow
        cases hrow
  | some row =>
      refine Program.endsGiven_bind (hcompare row b (hcurrent row rfl)) ?_
      intro r hr
      cases r with
      | true =>
          refine ⟨?_, ?_⟩
          · rintro _ ⟨⟩
            exact ⟨rfl, hr⟩
          · rintro ⟨⟩
      | false =>
          refine ⟨?_, ?_⟩
          · rintro _ ⟨⟩
          · rintro _ _ ⟨⟩
            exact hr

theorem endsGiven_planInsert :
    Program.EndsGiven Known (fun r => forall q, r = Except.ok q ->
      exists key signature,
        q = Planning.insert { p with signingKey := key } (deps.ulid n p.drawn) signature b)
      (planInsert deps n tenantId dryRun p b) := by
  have hfinish : forall key signature,
      forall q, (Except.ok (Planning.insert { p with signingKey := key } (deps.ulid n p.drawn)
        signature b) : Except ReconcileError Planning) = Except.ok q ->
        exists key signature,
          q = Planning.insert { p with signingKey := key } (deps.ulid n p.drawn) signature b := by
    rintro key signature _ ⟨⟩
    exact ⟨key, signature, rfl⟩
  unfold planInsert
  simp only
  split
  · exact hfinish p.signingKey ""
  · unfold withSigningKey
    split
    · exact hfinish _ _
    · intro secrets _
      cases secrets with
      | error e => rintro _ ⟨⟩
      | ok secrets =>
          simp only [onOk]
          split
          · rintro _ ⟨⟩
          · exact hfinish _ _

theorem endsGiven_planBundles (hcompare : Compares deps Known same differs existing)
    (p : Planning) (built : List BuiltBundle) :
    Program.EndsGiven Known (fun r => forall q, r = Except.ok q ->
      exists picked : List (BuiltBundle × Choice), picked.map Prod.fst = built ∧
        p.Extends picked q ∧
          forall x, x ∈ picked -> Picks deps n existing same differs x.1 x.2)
      (planBundles deps n tenantId dryRun existing p built) := by
  induction built generalizing p with
  | nil =>
      rintro q ⟨⟩
      exact ⟨[], rfl, extends_refl p, fun _ hx => absurd hx List.not_mem_nil⟩
  | cons b rest ih =>
      refine Program.endsGiven_bind (endsGiven_unchangedRow hcompare (b := b)
        (fun row hrow => (mem_of_byIdentity hrow).1)) ?_
      intro r hr
      cases r with
      | some row =>
          refine Program.endsGiven_mono (ih (p.keep row b)) ?_
          intro answer hanswer q hq
          rcases hanswer q hq with ⟨picked, hbuilt, hextends, hpicks⟩
          rcases hr.1 row rfl with ⟨hrow, hsame⟩
          refine ⟨(b, Choice.keep row) :: picked, by rw [List.map_cons, hbuilt],
            extends_keep hextends, ?_⟩
          intro x hx
          rcases List.mem_cons.mp hx with rfl | hx
          · exact Picks.keep hrow hsame
          · exact hpicks x hx
      | none =>
          refine Program.endsGiven_bind endsGiven_planInsert ?_
          intro planned hplanned
          cases planned with
          | error e => rintro q ⟨⟩
          | ok p' =>
              rcases hplanned p' rfl with ⟨key, signature, rfl⟩
              refine Program.endsGiven_mono (ih _) ?_
              intro answer hanswer q hq
              rcases hanswer q hq with ⟨picked, hbuilt, hextends, hpicks⟩
              refine ⟨(b, Choice.insert (plannedBundle (deps.ulid n
                (p.report (byIdentity existing b.name b.version) b).drawn) signature b)) ::
                  picked, by rw [List.map_cons, hbuilt], ?_, ?_⟩
              · apply extends_insert _ _ _ hextends
                · cases byIdentity existing b.name b.version <;> rfl
                · cases byIdentity existing b.name b.version <;> rfl
                · cases byIdentity existing b.name b.version <;> rfl
              · intro x hx
                rcases List.mem_cons.mp hx with rfl | hx
                · exact Picks.insert (hr.2 rfl)
                · exact hpicks x hx

end Picking

/-!
# Identities
-/

def BuiltBundle.identity (b : BuiltBundle) : String × String :=
  (b.name, b.version)

theorem bundleIdOf_picked (hextends : Planning.start.Extends picked q)
    (hnodup : (picked.map fun x => x.1.identity).Nodup) {x : BuiltBundle × Choice} (hx : x ∈ picked)
    : bundleIdOf q.bundleIds x.1.name x.1.version = x.2.id := by
  have hids : q.bundleIds = picked.map fun x => ((x.1.name, x.1.version), x.2.id) :=
    hextends.ids
  have hkeys : (q.bundleIds.reverse.map Prod.fst).Nodup := by
    rw [List.map_reverse, List.nodup_reverse, hids, List.map_map]
    exact hnodup
  have hmem : ((x.1.name, x.1.version), x.2.id) ∈ q.bundleIds.reverse := by
    rw [List.mem_reverse, hids]
    exact List.mem_map.mpr ⟨x, hx, rfl⟩
  unfold bundleIdOf
  rw [lookup_of_mem hkeys hmem]
  rfl

theorem byIdentity_of_mem {existing : List BundleRow}
    (hkeys : (existing.map fun b => (b.name, b.version)).Nodup) (hrow : row ∈ existing) :
    byIdentity existing row.name row.version = some row := by
  have hkeys' : (existing.reverse.map fun b => (b.name, b.version)).Nodup := by
    rw [List.map_reverse]
    exact List.nodup_reverse.mpr hkeys
  apply find?_eq_of_mem hkeys' _ (List.mem_reverse.mpr hrow)
  · rw [beq_self_eq_true, beq_self_eq_true]
    rfl
  · intro r s hr hs
    rw [Bool.and_eq_true, beq_iff_eq, beq_iff_eq] at hr hs
    rw [hr.1, hr.2, hs.1, hs.2]

/-!
# Groups
-/

/-- The groups a plan makes of the directory's, when `d` ids were drawn before. -/
inductive Places (deps : Deps) (n : Nat) (existing : List GroupRow) :
    Nat -> List GroupSpec -> List PlannedGroup -> Prop where
  | nil (d : Nat) : Places deps n existing d [] []
  | update {d : Nat} {g : GroupSpec} {row : GroupRow} {rest : List GroupSpec}
      {planned : List PlannedGroup} :
      groupByName existing g.name = some row -> Places deps n existing d rest planned ->
        Places deps n existing d (g :: rest)
          ({ id := row.id, name := g.name, selectorJson := g.selectorJson, create := false } ::
            planned)
  | create {d : Nat} {g : GroupSpec} {rest : List GroupSpec} {planned : List PlannedGroup} :
      groupByName existing g.name = none -> Places deps n existing (d + 1) rest planned ->
        Places deps n existing d (g :: rest)
          ({ id := deps.ulid n d, name := g.name, selectorJson := g.selectorJson,
             create := true } :: planned)

theorem places_foldl (n : Nat) (existing : List GroupRow) (p : GroupPlan)
    (specs : List GroupSpec) :
    exists planned, (specs.foldl (planGroup deps n existing) p).groups = p.groups ++ planned ∧
      Places deps n existing p.drawn specs planned := by
  induction specs generalizing p with
  | nil => exact ⟨[], (List.append_nil _).symm, Places.nil _⟩
  | cons g rest ih =>
      rw [List.foldl_cons]
      rcases ih (planGroup deps n existing p g) with ⟨planned, hgroups, hplaces⟩
      cases hrow : groupByName existing g.name with
      | some row =>
          have hstep : (planGroup deps n existing p g).groups = p.groups ++
                [{ id := row.id, name := g.name, selectorJson := g.selectorJson,
                   create := false }] ∧ (planGroup deps n existing p g).drawn = p.drawn := by
            unfold planGroup
            rw [hrow]
            simp only
            split <;> exact ⟨rfl, rfl⟩
          rw [hstep.1, List.append_assoc] at hgroups
          rw [hstep.2] at hplaces
          exact ⟨_, hgroups, Places.update hrow hplaces⟩
      | none =>
          have hstep : (planGroup deps n existing p g).groups = p.groups ++
                [{ id := deps.ulid n p.drawn, name := g.name,
                   selectorJson := g.selectorJson, create := true }] ∧
              (planGroup deps n existing p g).drawn = p.drawn + 1 := by
            unfold planGroup
            rw [hrow]
            exact ⟨rfl, rfl⟩
          rw [hstep.1, List.append_assoc] at hgroups
          rw [hstep.2] at hplaces
          exact ⟨_, hgroups, Places.create hrow hplaces⟩

theorem mem_of_groupByName {existing : List GroupRow} {name : String} {row : GroupRow}
    (h : groupByName existing name = some row) : row ∈ existing ∧ row.name = name := by
  unfold groupByName at h
  have hname := List.find?_some h
  rw [beq_iff_eq] at hname
  exact ⟨List.mem_reverse.mp (List.mem_of_find?_eq_some h), hname⟩

theorem groupByName_of_mem {existing : List GroupRow}
    (hkeys : (existing.map GroupRow.name).Nodup) {row : GroupRow} (hrow : row ∈ existing) :
    groupByName existing row.name = some row := by
  have hkeys' : (existing.reverse.map GroupRow.name).Nodup := by
    rw [List.map_reverse]
    exact List.nodup_reverse.mpr hkeys
  apply find?_eq_of_mem hkeys' _ (List.mem_reverse.mpr hrow)
  · exact beq_self_eq_true _
  · intro r s hr hs
    rw [beq_iff_eq] at hr hs
    rw [hr, hs]

section Placing

variable {n d : Nat} {existing : List GroupRow} {specs : List GroupSpec}
  {planned : List PlannedGroup}

theorem places_map (h : Places deps n existing d specs planned) :
    planned.map (fun g => (g.name, g.selectorJson)) =
      specs.map fun g => (g.name, g.selectorJson) := by
  induction h with
  | nil d => rfl
  | update _ _ ih => rw [List.map_cons, List.map_cons, ih]
  | create _ _ ih => rw [List.map_cons, List.map_cons, ih]

theorem places_cases (h : Places deps n existing d specs planned) : forall g, g ∈ planned ->
    (g.create = false ∧ exists row, groupByName existing g.name = some row ∧ g.id = row.id) ∨
      (g.create = true ∧ groupByName existing g.name = none ∧
        exists k, d ≤ k ∧ g.id = deps.ulid n k) := by
  induction h with
  | nil d =>
      intro g hg
      cases hg
  | update hrow _ ih =>
      intro g hg
      rcases List.mem_cons.mp hg with rfl | hg
      · exact Or.inl ⟨rfl, _, hrow, rfl⟩
      · exact ih g hg
  | create hrow _ ih =>
      intro g hg
      rcases List.mem_cons.mp hg with rfl | hg
      · exact Or.inr ⟨rfl, hrow, _, Nat.le_refl _, rfl⟩
      · rcases ih g hg with hkept | ⟨hcreate, hnone, k, hk, hid⟩
        · exact Or.inl hkept
        · exact Or.inr ⟨hcreate, hnone, k, by omega, hid⟩

theorem places_nodup (h : Places deps n existing d specs planned) (hids : deps.UniqueIds)
    (hexisting : (existing.map GroupRow.id).Nodup)
    (hfresh : forall row, row ∈ existing -> forall k, row.id ≠ deps.ulid n k)
    (hnames : (specs.map GroupSpec.name).Nodup) : (planned.map PlannedGroup.id).Nodup := by
  induction h with
  | nil d => exact List.nodup_nil
  | update hrow hrest ih =>
      rename_i g row rest planned'
      rw [List.map_cons, List.nodup_cons] at hnames
      rw [List.map_cons, List.nodup_cons]
      refine ⟨?_, ih hnames.2⟩
      intro hmem
      rcases List.mem_map.mp hmem with ⟨g', hg', hid⟩
      rcases places_cases hrest g' hg' with ⟨_, row', hrow', hid'⟩ | ⟨_, _, k, _, hid'⟩
      · have hsame : row' = row := eq_of_key_eq hexisting (mem_of_groupByName hrow').1
          (mem_of_groupByName hrow).1 (hid'.symm.trans hid)
        apply hnames.1
        rw [← (mem_of_groupByName hrow).2, ← hsame, (mem_of_groupByName hrow').2]
        have hpair : (g'.name, g'.selectorJson) ∈ rest.map fun g => (g.name, g.selectorJson) := by
          rw [← places_map hrest]
          exact List.mem_map.mpr ⟨g', hg', rfl⟩
        rcases List.mem_map.mp hpair with ⟨spec, hspec, hpair⟩
        exact List.mem_map.mpr ⟨spec, hspec, congrArg Prod.fst hpair⟩
      · exact hfresh row (mem_of_groupByName hrow).1 k (hid.symm.trans hid')
  | create hrow hrest ih =>
      rw [List.map_cons, List.nodup_cons] at hnames
      rw [List.map_cons, List.nodup_cons]
      refine ⟨?_, ih hnames.2⟩
      intro hmem
      rcases List.mem_map.mp hmem with ⟨g', hg', hid⟩
      rcases places_cases hrest g' hg' with ⟨_, row', hrow', hid'⟩ | ⟨_, _, k, hk, hid'⟩
      · exact hfresh row' (mem_of_groupByName hrow').1 _ (hid'.symm.trans hid)
      · have heq := (hids _ _ _ _ (hid'.symm.trans hid)).2
        omega

theorem groupIdOf_placed (hnames : (planned.map PlannedGroup.name).Nodup) {g : PlannedGroup}
    (hg : g ∈ planned) : groupIdOf planned g.name = g.id := by
  have hkeys : (planned.reverse.map PlannedGroup.name).Nodup := by
    rw [List.map_reverse]
    exact List.nodup_reverse.mpr hnames
  have hfind : planned.reverse.find? (fun g' => g'.name == g.name) = some g := by
    apply find?_eq_of_mem hkeys _ (List.mem_reverse.mpr hg)
    · exact beq_self_eq_true _
    · intro r s hr hs
      rw [beq_iff_eq] at hr hs
      rw [hr, hs]
  unfold groupIdOf
  rw [hfind]
  rfl

end Placing

end ConfigSource
end FleetServer
