import FleetServer.ConfigSource.Fixpoint
import FleetServer.ConfigSource.Writers

/-!
# Imports among other writers

The transaction that applies a plan checks that the tenant still has the bundles
and groups that were read, by their ids.  Groups are put in place by their ids,
so a group patched in between ends up as the directory has it.  A bundle that was
kept is not written again: it has to be what the import found.
-/

namespace FleetServer
namespace ConfigSource

open FleetServer.Core
open Storage
open Table
open Server
open Concurrency
open KeyedMap

variable {deps : Deps}

/-!
# What an import found
-/

inductive Looked (events : List (Event machine)) (row : BundleRow) :
    Map (Int × String) Bytes -> Prop where
  | nowhere : Looked events row ∅
  | at_ {u : World} : ⟨Op.storeGet row.tenantId row.id, u⟩ ∈ events -> Looked events row u.files

def Found (deps : Deps) (events : List (Event machine)) (row : BundleRow)
    (contents : BundleContents) : Prop :=
  exists files, Looked events row files ∧ HasContents deps files row contents

def PlannedFrom (deps : Deps) (n : Nat) (tenantId : Int) (spec : Spec)
    (events : List (Event machine)) (plan : ConfigPlan) : Prop :=
  exists (u u' : World) (existing : Existing) (p : Planning)
      (picked : List (BuiltBundle × Choice)) (planned : List PlannedGroup),
    (⟨Op.query (Query.bundles tenantId), u⟩ ∈ events ∧
        existing.bundles = BundlesRepo.list tenantId u.db) ∧
      (⟨Op.query (Query.groups tenantId), u'⟩ ∈ events ∧
        existing.groups = GroupsRepo.list tenantId u'.db) ∧
      PlanOf deps n existing
        (fun row b => exists files, Looked events row files ∧
          sameContents deps files row b = true) (fun _ _ => True) spec p picked planned ∧
      plan = configPlan deps n existing spec p

section Walk

variable {events : List (Event machine)} {n : Nat} {tenantId : Int} {P : Op -> Prop}

theorem usesGiven_askOr {Known : (op : Op) -> op.Res -> Prop} {alpha : Type} {q : Query}
    {failed : alpha} {next : q.Answer -> Prog alpha} (hq : P (Op.query q))
    (hnext : forall a, Known (Op.query q) (Except.ok a) ->
      Program.UsesGiven Known P (next a)) :
    Program.UsesGiven Known P (askOr q failed next) := by
  refine ⟨hq, fun r hr => ?_⟩
  cases r with
  | ok answer => exact hnext answer hr
  | error e => trivial

theorem answered_query {q : Query} {a : q.Answer}
    (h : Pool.Answered events (Op.query q) (Except.ok a)) :
    exists u : World, ⟨Op.query q, u⟩ ∈ events ∧ q.eval u.now u.db = a := by
  rcases h with ⟨u, hu, hanswer⟩ | hfault
  · cases hanswer
    exact ⟨u, hu, rfl⟩
  · cases hfault

theorem answered_storeGet {id : String} {stored : Bytes}
    (h : Pool.Answered events (Op.storeGet tenantId id) (Except.ok stored)) :
    exists u : World, ⟨Op.storeGet tenantId id, u⟩ ∈ events ∧
      u.files.lookup (tenantId, id) = some stored := by
  rcases h with ⟨u, hu, hanswer⟩ | hfault
  · exact ⟨u, hu, lookup_of_storeGet hanswer⟩
  · cases hfault

theorem compares_answered (existing : List BundleRow) :
    Compares deps (Pool.Answered events)
      (fun row b => exists files, Looked events row files ∧
        sameContents deps files row b = true) (fun _ _ => True) existing := by
  intro row b _
  unfold unchanged
  split
  · trivial
  · rename_i hformat
    rw [not_not] at hformat
    split
    · rename_i hsha
      refine ⟨∅, Looked.nowhere, ?_⟩
      unfold sameContents
      rw [decide_eq_true hformat, decide_eq_true hsha]
      rfl
    · split
      · trivial
      · rename_i tree htree
        intro r hr
        cases r with
        | error e => trivial
        | ok stored =>
            rcases answered_storeGet hr with ⟨u, hu, hstored⟩
            change if sameTree deps tree stored = true then _ else True
            split
            · rename_i hsame
              refine ⟨u.files, Looked.at_ hu, ?_⟩
              unfold sameContents
              rw [decide_eq_true hformat, htree, hstored]
              simp only [hsame, Bool.or_true, Bool.and_true]
            · trivial

theorem usesGiven_reconcile {shown : String} {dir : Node} {dryRun : Bool} {spec : Spec}
    (hdir : dir.distinct = true) (hload : load deps shown dir = Except.ok spec) :
    Program.UsesGiven (Pool.Answered events)
      (fun op => forall plan, op = Op.statement (Statement.applyConfig tenantId plan) ->
        PlannedFrom deps n tenantId spec events plan)
      (reconcile deps n tenantId shown dir dryRun) := by
  have hreads : forall op : Op, op.reads = true ->
      forall plan, op = Op.statement (Statement.applyConfig tenantId plan) ->
        PlannedFrom deps n tenantId spec events plan := by
    rintro op hop plan rfl
    cases hop
  unfold reconcile
  rw [hload]
  refine usesGiven_askOr (hreads _ rfl) (fun tenant _ => ?_)
  cases tenant with
  | none => trivial
  | some tenant =>
      refine usesGiven_askOr (hreads _ rfl) (fun bundles hbundles => ?_)
      refine usesGiven_askOr (hreads _ rfl) (fun groups hgroups => ?_)
      refine usesGiven_askOr (hreads _ rfl) (fun assignments _ => ?_)
      rcases answered_query hbundles with ⟨u, hu, rfl⟩
      rcases answered_query hgroups with ⟨u', hu', rfl⟩
      unfold reconcileExisting
      split
      · trivial
      · rename_i built hbuilt
        refine Program.usesGiven_bind
          (Program.usesGiven_of_uses (Program.uses_mono hreads (uses_planBundles _ _ _ _ _ _)))
          (endsGiven_planBundles (compares_answered _) Planning.start built) ?_
        intro answer hanswer
        cases answer with
        | error e => trivial
        | ok p =>
            rcases hanswer p rfl with ⟨picked, hfst, hextends, hpicks⟩
            have hplaced : exists planned, (planGroups deps n (GroupsRepo.list tenantId u'.db)
                  p.drawn spec.groups).groups = planned ∧
                Places deps n (GroupsRepo.list tenantId u'.db) p.drawn spec.groups planned :=
              places_foldl n _ (GroupPlan.start p.drawn) spec.groups
            rcases hplaced with ⟨planned, hplanned, hplaces⟩
            change Program.UsesGiven _ _ (reconcilePlanned deps n tenantId dryRun _ spec p)
            unfold reconcilePlanned
            simp only
            split
            · trivial
            · apply Program.usesGiven_of_uses
              apply uses_applyPlan
              · rintro e _ plan ⟨⟩
              · rintro id plan ⟨⟩
              · rintro plan ⟨⟩
                refine ⟨u, u', _, p, picked, planned, ⟨hu, rfl⟩, ⟨hu', rfl⟩, ?_, rfl⟩
                constructor
                · exact valid_of_load hdir hload
                · rw [hfst]
                  exact builtFrom_of_builtWithin hbuilt
                · exact hextends
                · exact hpicks
                · exact hplanned
                · exact hplaces

end Walk

/-!
# What an applied import leaves
-/

/-- What the import found as the directory has it is still so, for every row
that is still there. -/
def Stands (deps : Deps) (tenantId : Int) (spec : Spec) (events : List (Event machine))
    (w : World) : Prop :=
  forall u, ⟨Op.query (Query.bundles tenantId), u⟩ ∈ events ->
    forall row, row ∈ tenantBundles tenantId u.db -> forall b, b ∈ spec.bundles ->
      row.name = b.name -> row.version = b.version -> Found deps events row b.contents ->
        forall row', row' ∈ tenantBundles tenantId w.db -> row'.id = row.id ->
          row'.name = b.name ∧ row'.version = b.version ∧
            HasContents deps w.files row' b.contents

theorem keyed_of_reads {existing : Existing} {tenantId : Int} {u u' : World}
    (hu : ConfigKeys u.db) (hu' : ConfigKeys u'.db)
    (hbundles : existing.bundles = BundlesRepo.list tenantId u.db)
    (hgroups : existing.groups = GroupsRepo.list tenantId u'.db) : existing.Keyed := by
  constructor
  · rw [hbundles]
    exact (keyed_existingOf hu tenantId).identities
  · rw [hgroups]
    exact (keyed_existingOf hu' tenantId).groupIds
  · rw [hgroups]
    exact (keyed_existingOf hu' tenantId).groupNames

theorem kept_of_stands {n : Nat} {tenantId : Int} {spec : Spec} {existing : Existing}
    {events : List (Event machine)} {differs : BundleRow -> BuiltBundle -> Prop} {p : Planning}
    {picked : List (BuiltBundle × Choice)} {planned : List PlannedGroup} {u w : World}
    (h : PlanOf deps n existing (fun row b => exists files, Looked events row files ∧
      sameContents deps files row b = true) differs spec p picked planned)
    (hu : ⟨Op.query (Query.bundles tenantId), u⟩ ∈ events)
    (hbundles : existing.bundles = BundlesRepo.list tenantId u.db)
    (hset : ConfigSourceRepo.sameSet (ConfigSourceRepo.bundleIds tenantId w.db)
      (existing.bundles.map BundleRow.id) = true)
    (hstands : Stands deps tenantId spec events w) {x : BuiltBundle × Choice} {row : BundleRow}
    (hx : x ∈ picked) (hchoice : x.2 = Choice.keep row) :
    exists row', row' ∈ tenantBundles tenantId w.db ∧ row'.id = row.id ∧
      row'.name = x.1.name ∧ row'.version = x.1.version ∧
        sameContents deps w.files row' x.1 = true := by
  rcases exists_spec h hx with ⟨b, hb, hbuilt⟩
  rcases x with ⟨built, choice⟩
  cases hchoice
  have hpick : Picks deps n existing.bundles _ _ built (Choice.keep row) := h.picks _ hx
  cases hpick with
  | keep hrow hsame =>
      rcases mem_of_byIdentity hrow with ⟨hmem, hname, hversion⟩
      rcases hsame with ⟨files, hlooked, hsame⟩
      have hexpected : row.id ∈ existing.bundles.map BundleRow.id :=
        List.mem_map.mpr ⟨row, hmem, rfl⟩
      rcases List.mem_map.mp ((mem_of_sameSet hset).mpr hexpected) with ⟨row', hrow', hid⟩
      rw [hbundles] at hmem
      obtain ⟨hname', hversion', hcontents⟩ := hstands u hu row (mem_listBundles.mp hmem) b hb
        (hname.trans hbuilt.name) (hversion.trans hbuilt.version)
        ⟨files, hlooked, (sameContents_iff hbuilt).mp hsame⟩ row' hrow' hid
      refine ⟨row', hrow', hid, ?_, ?_, (sameContents_iff hbuilt).mpr hcontents⟩
      · rw [hname', hbuilt.name]
      · rw [hversion', hbuilt.version]

section Runs

variable {tenantId : Int} {shown : String} {dir : Node} {dryRun : Bool} {spec : Spec}
  {plan : ConfigPlan} {w : World} {p q r : Pool (service deps)} {events : List (Event machine)}

/-- An import's plan either is not applied, and nothing is written, or the
tenant's groups, bundles and assignments equal the directory's at the commit. -/
theorem apply_mirrors (hids : deps.UniqueIds) (hkeys : ConfigKeys w.db)
    (hfresh : forall row, row ∈ w.db.groups -> forall n k, row.id ≠ deps.ulid n k)
    (hstart : Pool.Run startsWriters (Pool.init w) p)
    (hspawn : p.step (Choice.spawn (Request.reconcile tenantId shown dir dryRun)) = some q)
    (hdir : dir.distinct = true) (hload : load deps shown dir = Except.ok spec)
    (hrun : Pool.Traced startsWriters p.threads.length q events r)
    (hcall : r.call? (Choice.exec p.threads.length) =
      some (Op.statement (Statement.applyConfig tenantId plan)))
    (hstands : Stands deps tenantId spec events r.world) :
    let outcome := (Statement.applyConfig tenantId plan).exec r.world
    (outcome.1 ≠ Except.ok ApplyOutcome.applied ∧ outcome.2 = r.world) ∨
      (outcome.1 = Except.ok ApplyOutcome.applied ∧ Mirrors deps tenantId spec outcome.2) := by
  intro outcome
  have hq : Pool.Run startsWriters (Pool.init w) q :=
    Pool.Run.tail hstart (by exact rfl) hspawn
  have hget : q.threads[p.threads.length]? =
      some ⟨Request.reconcile tenantId shown dir dryRun,
        program deps p.threads.length (Request.reconcile tenantId shown dir dryRun)⟩ := by
    cases hspawn
    change (p.threads ++ _)[p.threads.length]? = _
    rw [List.getElem?_append_right (Nat.le_refl _), Nat.sub_self]
    rfl
  have hprogram : Program.UsesGiven (Pool.Answered events)
      (fun op => forall plan, op = Op.statement (Statement.applyConfig tenantId plan) ->
        PlannedFrom deps p.threads.length tenantId spec events plan)
      (program deps p.threads.length (Request.reconcile tenantId shown dir dryRun)) :=
    Program.usesGiven_bind (usesGiven_reconcile hdir hload) (Program.endsGiven_true _)
      (fun _ _ => trivial)
  obtain ⟨u, u', existing, planning, picked, planned, ⟨hu, hbundles⟩, ⟨hu', hgroups⟩, h, rfl⟩ :=
    Pool.call_of_traced hrun hget hprogram hcall plan rfl
  rcases Pool.exists_pool_of_mem hrun hu with ⟨qu, hqu, hworld, _⟩
  rcases Pool.exists_pool_of_mem hrun hu' with ⟨qu', hqu', hworld', hcall'⟩
  have hkeysOf : forall v, Pool.Run startsWriters q v -> ConfigKeys v.world.db :=
    fun v hv => configKeys_run (hq.trans hv) hkeys
  have hread : existing.Keyed := by
    apply keyed_of_reads _ _ hbundles hgroups
    · have hkeysU := hkeysOf qu hqu
      rw [hworld] at hkeysU
      exact hkeysU
    · have hkeysU := hkeysOf qu' hqu'
      rw [hworld'] at hkeysU
      exact hkeysU
  have hnew : forall row, row ∈ existing.groups ->
      forall k, row.id ≠ deps.ulid p.threads.length k := by
    intro row hrow
    apply fresh_of_tended (tended_run hids hfresh (hq.trans hqu')) hcall'
    rw [hgroups] at hrow
    rw [hworld']
    exact (mem_tenantGroups.mp (mem_listGroups.mp hrow)).1
  rcases statement_exec (Statement.applyConfig tenantId _) r.world with
    ⟨e, _, hexec⟩ | ⟨answer, db', htx, hexec⟩
  · refine Or.inl ?_
    rw [show outcome = _ from hexec]
    exact ⟨by rintro ⟨⟩, rfl⟩
  · cases answer with
    | changed =>
        refine Or.inl ?_
        rw [show outcome = _ from hexec, ConfigSourceRepo.apply_eq_changed htx]
        exact ⟨by rintro ⟨⟩, rfl⟩
    | applied =>
        refine Or.inr ?_
        rw [show outcome = _ from hexec]
        refine ⟨rfl, ?_⟩
        rcases ConfigSourceRepo.apply_eq_ok htx with ⟨⟨hset, _⟩, _⟩
        have hkeys' : ConfigKeys db' := KeepsKeys.apply tenantId _ _ _ _ _ htx
          (configKeys_run (hq.trans (Pool.run_of_traced hrun)) hkeys)
        apply mirrors_of_realizes h hkeys'
        apply realizes_of_applied h hids hread hnew _ htx
        intro x row hx hchoice
        exact kept_of_stands h hu hbundles hset hstands hx hchoice

end Runs

/-- The directory's bundle is there, beside a group the directory does not have. -/
def editedDb : Db :=
  { siteDb with
    bundles := [{ id := "b1", tenantId := 1, name := "base", version := "1",
                  sha256 := siteDeps.sha256Hex [1], sizeBytes := 1, signature := "",
                  uploadedAt := 0, format := EncBundle.formatPlain, keyFingerprint := none }] }

def editedPool : Pool (service siteDeps) :=
  Pool.init (World.start editedDb ∅ 0)

theorem configKeys_editedDb : ConfigKeys editedDb := by
  constructor
  · decide
  · decide
  · decide
  · decide
  · decide
  · decide
  · intro a ha
    cases ha
  · intro a ha
    cases ha

theorem fresh_editedDb : forall row, row ∈ editedDb.groups ->
    forall n k, row.id ≠ siteDeps.ulid n k := by
  intro row hrow n k hid
  have hb : 'b' ∈ row.id.toList := by
    rw [hid]
    change 'b' ∈ (Deps.sampleId n k).toList
    rw [Deps.sampleId_toList]
    exact List.mem_append_right _ List.mem_cons_self
  rcases List.mem_cons.mp hrow with rfl | hrow
  · revert hb
    decide
  · rw [List.mem_singleton.mp hrow] at hb
    revert hb
    decide

def importMeets (request : HttpRequest) (calls : Nat) :
    List (Concurrency.Choice (service siteDeps)) :=
  List.replicate 4 (Choice.exec 0) ++ Choice.spawn (Request.http request) ::
    List.replicate calls (Choice.exec 1)

def editor : AuthedUser :=
  { userId := 1, tenantId := 1, role := Role.owner }

def importStarted : Pool (service siteDeps) :=
  { editedPool with threads := [editedPool.spawned (Request.reconcile 1 "" siteDir false)] }

def editedPlan : ConfigPlan :=
  { expectedBundleIds := ["b1"], expectedGroupIds := ["g1", "g2"], deleteBundleIds := [],
    insertBundles := [], deleteGroupIds := ["g2"],
    groups := [{ id := "g1", name := "all", selectorJson := "", create := false }],
    assignments := [("g1", "b1", 0)] }

def followed (request : HttpRequest) (calls : Nat) :
    Option (List (Event machine) × Pool (service siteDeps)) :=
  importStarted.follow (fun _ c => startsWriter c) 0 (importMeets request calls)

/-- Gives the directory's group another name. -/
def patchAll : HttpRequest :=
  HttpRequest.patchGroup editor "g1" (some "none") none

/-- Gives the directory's bundle another name. -/
def renameBase : HttpRequest :=
  HttpRequest.renameBundle editor { from_ := "base", to_ := "other", resealed := [] }

theorem traced_followed {request : HttpRequest} {calls : Nat}
    (h : (followed request calls).isSome) :
    Pool.Traced startsWriters 0 importStarted ((followed request calls).get h).1
      ((followed request calls).get h).2 := by
  have hfollow : importStarted.follow (fun _ c => startsWriter c) 0 (importMeets request calls) =
      some ((followed request calls).get h) := (Option.some_get h).symm
  exact Pool.traced_of_follow hfollow

/-- The group is patched after the import read it; the import puts it back. -/
theorem apply_mirrors_patched :
    let x := (followed patchAll 1).get (by decide +kernel)
    let outcome := (Statement.applyConfig 1 editedPlan).exec x.2.world
    (outcome.1 ≠ Except.ok ApplyOutcome.applied ∧ outcome.2 = x.2.world) ∨
      (outcome.1 = Except.ok ApplyOutcome.applied ∧ Mirrors siteDeps 1 siteSpec outcome.2) := by
  intro x
  have hstart : Pool.Run startsWriters (Pool.init (World.start editedDb ∅ 0)) editedPool :=
    Pool.Run.refl
  have hspawn : editedPool.step (Choice.spawn (Request.reconcile 1 "" siteDir false)) =
      some importStarted := rfl
  have hrun : Pool.Traced startsWriters editedPool.threads.length importStarted x.1 x.2 :=
    traced_followed _
  have hcall : x.2.call? (Choice.exec editedPool.threads.length) =
      some (Op.statement (Statement.applyConfig 1 editedPlan)) := by rfl
  have hevents : x.1.map (fun e => e.before.db) = List.replicate 4 editedDb := by rfl
  have hrows : x.2.world.db.bundles = editedDb.bundles := by rfl
  have hstands : Stands siteDeps 1 siteSpec x.1 x.2.world := by
    intro u hu row hrow b hb _ _ _ row' hrow' _
    have hu : u.db = editedDb := by
      have hmem : u.db ∈ x.1.map (fun e => e.before.db) := List.mem_map.mpr ⟨_, hu, rfl⟩
      rw [hevents] at hmem
      exact List.eq_of_mem_replicate hmem
    have hrow' : row' ∈ editedDb.bundles := by
      rw [← hrows]
      exact (mem_tenantBundles.mp hrow').1
    rw [List.mem_singleton.mp hb, List.mem_singleton.mp hrow']
    exact ⟨rfl, rfl, rfl, rfl⟩
  clear_value x
  exact apply_mirrors Deps.uniqueIds_sample configKeys_editedDb fresh_editedDb hstart hspawn rfl
    load_siteDir hrun hcall hstands

/-- The bundle is renamed after it was read: its id is the same, and the plan is
applied with the new name in place. -/
theorem apply_overlooks_rename :
    ¬ forall (deps : Deps) (tenantId : Int) (shown : String) (dir : Node) (dryRun : Bool)
      (spec : Spec) (plan : ConfigPlan) (w : World) (p q r : Pool (service deps))
      (events : List (Event machine)),
      deps.UniqueIds -> ConfigKeys w.db ->
      (forall row, row ∈ w.db.groups -> forall n k, row.id ≠ deps.ulid n k) ->
      Pool.Run startsWriters (Pool.init w) p ->
      p.step (Choice.spawn (Request.reconcile tenantId shown dir dryRun)) = some q ->
      dir.distinct = true -> load deps shown dir = Except.ok spec ->
      Pool.Traced startsWriters p.threads.length q events r ->
      r.call? (Choice.exec p.threads.length) =
        some (Op.statement (Statement.applyConfig tenantId plan)) ->
      let outcome := (Statement.applyConfig tenantId plan).exec r.world
      (outcome.1 ≠ Except.ok ApplyOutcome.applied ∧ outcome.2 = r.world) ∨
        (outcome.1 = Except.ok ApplyOutcome.applied ∧
          Mirrors deps tenantId spec outcome.2) := by
  intro h
  let x := (followed renameBase 4).get (by decide +kernel)
  have hspawn : editedPool.step (Choice.spawn (Request.reconcile 1 "" siteDir false)) =
      some importStarted := rfl
  have hrun : Pool.Traced startsWriters editedPool.threads.length importStarted x.1 x.2 :=
    traced_followed _
  have hcall : x.2.call? (Choice.exec editedPool.threads.length) =
      some (Op.statement (Statement.applyConfig 1 editedPlan)) := by rfl
  let outcome := (Statement.applyConfig 1 editedPlan).exec x.2.world
  have happlied : outcome.1.toOption = some ApplyOutcome.applied := by decide +kernel
  have hnames : (tenantBundles 1 outcome.2.db).map (fun b => (b.name, b.version)) =
      [("other", "1")] := by decide +kernel
  have hcommit : (outcome.1 ≠ Except.ok ApplyOutcome.applied ∧ outcome.2 = x.2.world) ∨
      (outcome.1 = Except.ok ApplyOutcome.applied ∧ Mirrors siteDeps 1 siteSpec outcome.2) :=
    h siteDeps 1 "" siteDir false siteSpec editedPlan _ editedPool importStarted x.2 x.1
      Deps.uniqueIds_sample configKeys_editedDb fresh_editedDb Pool.Run.refl hspawn rfl
      load_siteDir hrun hcall
  clear_value outcome
  rcases hcommit with ⟨hno, _⟩ | ⟨_, hmirrors⟩
  · cases hanswer : outcome.1 with
    | error e =>
        rw [hanswer] at happlied
        cases happlied
    | ok answer =>
        rw [hanswer] at happlied hno
        cases happlied
        exact hno rfl
  · have hperm := hmirrors.bundles
    rw [hnames] at hperm
    have hbase : ("base", "1") ∈ [("other", "1")] := hperm.mem_iff.mpr List.mem_cons_self
    revert hbase
    decide

end ConfigSource
end FleetServer
