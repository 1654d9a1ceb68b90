import FleetServer.Agent.Matching

/-!
# The order the database returns rows in

Neither the groups nor their assignments have to come in one particular order.
The walk sorts the bundles by priority before it hashes them, which settles the
order of all but those with equal priorities.
-/

namespace FleetServer
namespace Agent

open FleetServer.Core
open Storage
open Server
open Concurrency

variable (deps : Deps)

def AnyOrder (w : World) : (op : Op) -> op.Res -> Prop
  | Op.query (Query.groups tenantId), r =>
      exists rows, r = Except.ok rows ∧ rows.Perm (GroupsRepo.list tenantId w.db)
  | Op.query (Query.bundlesForGroups tenantId ids), r =>
      exists rows, r = Except.ok rows ∧
        rows.Perm (BundleAssignmentsRepo.listForGroups tenantId ids w.db)
  | op, r => (exec op w).1 = r

/-!
# What does not depend on the order
-/

theorem sortedSet_perm {xs ys : List String} (h : xs.Perm ys) : sortedSet xs = sortedSet ys := by
  unfold sortedSet
  have hx := List.perm_insertionSort (fun a b : String => a ≤ b) xs.dedup
  have hy := List.perm_insertionSort (fun a b : String => a ≤ b) ys.dedup
  apply List.Perm.eq_of_pairwise _ (List.pairwise_insertionSort _ xs.dedup)
    (List.pairwise_insertionSort _ ys.dedup) (hx.trans (h.dedup.trans hy.symm))
  intro a b _ _ hab hba
  exact String.le_antisymm hab hba

theorem parsedSelectors_perm {groups groups' : List GroupRow} (h : groups.Perm groups') :
    (parsedSelectors deps groups).Perm (parsedSelectors deps groups') := by
  unfold parsedSelectors
  exact h.filterMap _

theorem matchingAmong_perm (tenantId : Int) (hostId : String) {groups groups' : List GroupRow}
    (h : groups.Perm groups') (db : Db) :
    (matchingAmong deps tenantId hostId groups db).Perm
      (matchingAmong deps tenantId hostId groups' db) := by
  have hselectors := parsedSelectors_perm deps h
  have hsources : sourcesOf (parsedSelectors deps groups) =
      sourcesOf (parsedSelectors deps groups') := by
    unfold sourcesOf
    exact sortedSet_perm (hselectors.flatMap_right _)
  unfold matchingAmong matchingGroupIds
  simp only
  rw [hsources]
  exact (hselectors.filter _).map _

theorem listForGroups_perm (tenantId : Int) {ids ids' : List String} (h : ids.Perm ids')
    (db : Db) :
    BundleAssignmentsRepo.listForGroups tenantId ids db =
      BundleAssignmentsRepo.listForGroups tenantId ids' db := by
  have hcontains : forall id, ids.contains id = ids'.contains id := by
    intro id
    rw [Bool.eq_iff_iff, List.contains_iff_mem, List.contains_iff_mem]
    exact h.mem_iff
  unfold BundleAssignmentsRepo.listForGroups
  simp only [hcontains]

/-!
# The walk in any order
-/

theorem yields_askOr {beta : Type} {Known : (op : Op) -> op.Res -> Prop} {q : Query}
    {failed a : beta} {next : q.Answer -> Prog beta} :
    Program.Yields Known (askOr q failed next) a <->
      (exists x, Known (Op.query q) (Except.ok x) ∧ Program.Yields Known (next x) a) ∨
        (exists e, Known (Op.query q) (Except.error e) ∧ failed = a) := by
  constructor
  · intro h
    rcases h with ⟨r, hr, h⟩
    cases r with
    | ok x => exact Or.inl ⟨x, hr, h⟩
    | error e => exact Or.inr ⟨e, hr, h⟩
  · intro h
    rcases h with ⟨x, hx, h⟩ | ⟨e, he, h⟩
    · exact ⟨Except.ok x, hx, h⟩
    · exact ⟨Except.error e, he, h⟩

variable {deps}

theorem yields_askOr_fixed {beta : Type} {w : World} {q : Query} {failed a : beta}
    {next : q.Answer -> Prog beta}
    (hq : forall r, AnyOrder w (Op.query q) r <-> Except.ok (q.eval w.now w.db) = r) :
    Program.Yields (AnyOrder w) (askOr q failed next) a <->
      Program.Yields (AnyOrder w) (next (q.eval w.now w.db)) a := by
  rw [yields_askOr]
  constructor
  · intro h
    rcases h with ⟨x, hx, h⟩ | ⟨e, he, _⟩
    · have heq := (hq _).mp hx
      cases heq
      exact h
    · have heq := (hq _).mp he
      cases heq
  · intro h
    exact Or.inl ⟨_, (hq _).mpr rfl, h⟩

theorem yields_loadForHost {tenantId : Int} {hostId : String} {sources : List String}
    {w : World} {a : Except ComputeError HostFacts} :
    Program.Yields (AnyOrder w) (loadForHost deps tenantId hostId sources) a <->
      Except.ok (documentsOf deps tenantId hostId sources w.db) = a := by
  induction sources generalizing a with
  | nil => exact Iff.rfl
  | cons source rest ih =>
      unfold loadForHost
      rw [yields_askOr_fixed (fun _ => Iff.rfl), Program.yields_bind]
      constructor
      · intro h
        rcases h with ⟨facts, hfacts, h⟩
        cases ih.mp hfacts
        rw [← h, ← withDocument_documentsOf]
        rfl
      · intro h
        exact ⟨_, ih.mpr rfl, by rw [← h, ← withDocument_documentsOf]; rfl⟩

theorem yields_computeUncached {tenantId : Int} {hostId : String} {w : World}
    {a : Except ComputeError DesiredState} :
    Program.Yields (AnyOrder w) (computeUncached deps tenantId hostId) a <->
      exists rows, rows.Perm (assignedBundles deps tenantId hostId w.db) ∧
        a = (storedConfig deps tenantId hostId w.db).map fun merged =>
          desiredStateOf deps merged rows := by
  unfold computeUncached
  rw [yields_askOr_fixed (fun _ => Iff.rfl), yields_askOr]
  constructor
  · intro h
    rcases h with ⟨groups, hgroups, h⟩ | ⟨e, he, _⟩
    · rcases hgroups with ⟨groups', heq, hperm⟩
      cases heq
      rcases Program.yields_bind.mp h with ⟨facts, hfacts, h⟩
      cases yields_loadForHost.mp hfacts
      have hids := matchingAmong_perm deps tenantId hostId hperm w.db
      have hlist := listForGroups_perm tenantId hids w.db
      change Program.Yields _ (bundlesForGroups tenantId
        (matchingAmong deps tenantId hostId groups w.db) _ _) a at h
      unfold assignedBundles matchingGroups
      rw [← hlist]
      unfold bundlesForGroups at h
      cases hmatching : matchingAmong deps tenantId hostId groups w.db with
      | nil =>
          rw [hmatching] at h
          have h' := (yields_askOr_fixed (fun _ => Iff.rfl)).mp h
          rw [listForGroups_nil]
          exact ⟨[], List.Perm.refl _, h'.symm⟩
      | cons id rest =>
          rw [hmatching] at h
          rcases yields_askOr.mp h with ⟨rows, hrows, h⟩ | ⟨e, he, _⟩
          · rcases hrows with ⟨rows', heq, hrows⟩
            cases heq
            have h' := (yields_askOr_fixed (fun _ => Iff.rfl)).mp h
            exact ⟨rows, hrows, h'.symm⟩
          · rcases he with ⟨_, heq, _⟩
            cases heq
    · rcases he with ⟨_, heq, _⟩
      cases heq
  · intro h
    rcases h with ⟨rows, hrows, ha⟩
    apply Or.inl
    refine ⟨GroupsRepo.list tenantId w.db, ⟨_, rfl, List.Perm.refl _⟩, ?_⟩
    apply Program.yields_bind.mpr
    refine ⟨_, yields_loadForHost.mpr rfl, ?_⟩
    show Program.Yields _ (bundlesForGroups tenantId (matchingGroups deps tenantId hostId w.db)
      _ _) a
    unfold assignedBundles at hrows
    unfold bundlesForGroups
    cases hmatching : matchingGroups deps tenantId hostId w.db with
    | nil =>
        rw [hmatching, listForGroups_nil] at hrows
        rw [List.perm_nil.mp hrows] at ha
        exact (yields_askOr_fixed (fun _ => Iff.rfl)).mpr ha.symm
    | cons id rest =>
        rw [hmatching] at hrows
        apply yields_askOr.mpr
        exact Or.inl ⟨rows, ⟨rows, rfl, hrows⟩,
          (yields_askOr_fixed (fun _ => Iff.rfl)).mpr ha.symm⟩

/-!
# Bundles with equal priorities
-/

def TiesAgree (rows : List (BundleRow × Int)) : Prop :=
  forall r s, r ∈ rows -> s ∈ rows -> r.2 = s.2 -> desiredBundle r = desiredBundle s

section Sorting

variable {alpha : Type} {key : alpha -> Int}

theorem pairwise_sortByKey (key : alpha -> Int) (xs : List alpha) :
    (sortByKey key xs).Pairwise fun a b => key a ≤ key b := by
  have htotal : Std.Total fun a b : alpha => key a ≤ key b :=
    ⟨fun a b => Int.le_total (key a) (key b)⟩
  have htrans : IsTrans alpha fun a b => key a ≤ key b :=
    ⟨fun _ _ _ hab hbc => Int.le_trans hab hbc⟩
  exact List.pairwise_insertionSort _ xs

theorem filter_sortByKey (key : alpha -> Int) (k : Int) (xs : List alpha) :
    (sortByKey key xs).filter (fun a => key a == k) = xs.filter fun a => key a == k := by
  apply Table.filter_insertionSort
  intro a b ha hb
  rw [beq_iff_eq] at ha hb
  omega

end Sorting

def orderedBundles (rows : List (BundleRow × Int)) : List DesiredBundle :=
  (sortByKey Prod.snd rows).map desiredBundle

theorem orderedBundles_perm {rows rows' : List (BundleRow × Int)} (h : rows.Perm rows')
    (hties : TiesAgree rows) : orderedBundles rows = orderedBundles rows' := by
  have hrows := List.perm_insertionSort (fun a b : BundleRow × Int => a.2 ≤ b.2) rows
  have hrows' := List.perm_insertionSort (fun a b : BundleRow × Int => a.2 ≤ b.2) rows'
  have hperm : (orderedBundles rows).Perm (orderedBundles rows') :=
    (hrows.trans (h.trans hrows'.symm)).map desiredBundle
  have hsorted : forall rows,
      (orderedBundles rows).Pairwise fun b c => b.priority ≤ c.priority := by
    intro rows
    unfold orderedBundles
    rw [List.pairwise_map]
    exact pairwise_sortByKey Prod.snd rows
  apply List.Perm.eq_of_pairwise _ (hsorted rows) (hsorted rows') hperm
  intro b c hb hc hbc hcb
  rcases List.mem_map.mp hb with ⟨r, hr, hbr⟩
  rcases List.mem_map.mp hc with ⟨s, hs, hcs⟩
  rw [← hbr, ← hcs] at hbc hcb
  rw [← hbr, ← hcs]
  exact hties r s (hrows.mem_iff.mp hr) (h.mem_iff.mpr (hrows'.mem_iff.mp hs))
    (Int.le_antisymm hbc hcb)

theorem head?_orderedBundles (r : BundleRow × Int) (rows : List (BundleRow × Int)) :
    ((orderedBundles (r :: rows)).filter fun b => b.priority == r.2).head? =
      some (desiredBundle r) := by
  unfold orderedBundles
  rw [List.filter_map]
  show (((sortByKey Prod.snd (r :: rows)).filter fun s => s.2 == r.2).map desiredBundle).head? = _
  rw [filter_sortByKey, List.filter_cons, if_pos (beq_self_eq_true r.2)]
  rfl

theorem desiredBundle_eq_of_orderedBundles {r s : BundleRow × Int}
    {rows : List (BundleRow × Int)} (hpriority : r.2 = s.2)
    (h : orderedBundles (r :: s :: rows) = orderedBundles (s :: r :: rows)) :
    desiredBundle r = desiredBundle s := by
  have hr := head?_orderedBundles r (s :: rows)
  rw [h, hpriority, head?_orderedBundles] at hr
  exact (Option.some.inj hr).symm

theorem exists_perm_cons_cons {alpha : Type} {a b : alpha} {xs : List alpha} (ha : a ∈ xs)
    (hb : b ∈ xs) (hne : a ≠ b) : exists rest, xs.Perm (a :: b :: rest) := by
  rcases List.mem_iff_append.mp ha with ⟨front, back, hxs⟩
  have hfirst : xs.Perm (a :: (front ++ back)) := by
    rw [hxs]
    exact List.perm_middle
  have hmem : b ∈ front ++ back := by
    rcases List.mem_cons.mp (hfirst.mem_iff.mp hb) with h | h
    · exact absurd h.symm hne
    · exact h
  rcases List.mem_iff_append.mp hmem with ⟨front', back', hrest⟩
  exact ⟨front' ++ back', hfirst.trans (by rw [hrest]; exact List.perm_middle.cons a)⟩

theorem tiesAgree_of_orderedBundles {rows : List (BundleRow × Int)}
    (h : forall rows' rows'', rows'.Perm rows -> rows''.Perm rows ->
      orderedBundles rows' = orderedBundles rows'') : TiesAgree rows := by
  intro r s hr hs hpriority
  by_cases hrs : r = s
  · rw [hrs]
  · rcases exists_perm_cons_cons hr hs hrs with ⟨rest, hperm⟩
    exact desiredBundle_eq_of_orderedBundles hpriority
      (h _ _ hperm.symm ((List.Perm.swap r s rest).trans hperm.symm))

/-- The desired state does not depend on the order of the rows exactly when the
host's groups assign no two bundles with one priority, or the host's override
cannot be read. -/
theorem computed_any_order_iff (deps : Deps) (tenantId : Int) (hostId : String) (w : World) :
    (forall s s',
      Program.Yields (AnyOrder w) (computeUncached deps tenantId hostId) (Except.ok s) ->
      Program.Yields (AnyOrder w) (computeUncached deps tenantId hostId) (Except.ok s') ->
        s.bundles = s'.bundles ∧ s.stateHash = s'.stateHash) <->
      TiesAgree (assignedBundles deps tenantId hostId w.db) ∨
        exists e, storedConfig deps tenantId hostId w.db = Except.error e := by
  constructor
  · intro h
    cases hconfig : storedConfig deps tenantId hostId w.db with
    | error e => exact Or.inr ⟨e, rfl⟩
    | ok merged =>
        apply Or.inl
        apply tiesAgree_of_orderedBundles
        intro rows rows' hrows hrows'
        have hyields : forall rows, rows.Perm (assignedBundles deps tenantId hostId w.db) ->
            Program.Yields (AnyOrder w) (computeUncached deps tenantId hostId)
              (Except.ok (desiredStateOf deps merged rows)) := by
          intro rows hrows
          apply yields_computeUncached.mpr
          exact ⟨rows, hrows, by rw [hconfig]; rfl⟩
        exact (h _ _ (hyields rows hrows) (hyields rows' hrows')).1
  · intro h s s' hs hs'
    rcases yields_computeUncached.mp hs with ⟨rows, hrows, heq⟩
    rcases yields_computeUncached.mp hs' with ⟨rows', hrows', heq'⟩
    cases hconfig : storedConfig deps tenantId hostId w.db with
    | error e =>
        rw [hconfig] at heq
        cases heq
    | ok merged =>
        rw [hconfig] at heq heq'
        cases heq
        cases heq'
        rcases h with hties | ⟨e, he⟩
        · have hbundles : orderedBundles rows = orderedBundles rows' := by
            rw [← orderedBundles_perm hrows.symm hties, ← orderedBundles_perm hrows'.symm hties]
          refine ⟨hbundles, ?_⟩
          show hex (deps.mac _ (stateHashMessage merged (orderedBundles rows))) =
            hex (deps.mac _ (stateHashMessage merged (orderedBundles rows')))
          rw [hbundles]
        · rw [hconfig] at he
          cases he

/-!
## Two bundles of one priority
-/

/-- A server whose stored selectors match every host. -/
def matchAllDeps : Deps :=
  { Deps.sample with
    parseJson := fun _ => some (Json.object [])
    decodeSelector := fun _ => Except.ok { clauses := [] } }

def plainBundle (id : String) : BundleRow :=
  { id := id, tenantId := 1, name := id, version := "1", sha256 := id, sizeBytes := 0,
    signature := "", uploadedAt := 0, format := EncBundle.formatPlain, keyFingerprint := none }

/-- One group with two bundles, assigned with the default priority. -/
def tiedWorld : World :=
  World.start
    { sampleDb with
      groups := [{ id := "g", tenantId := 1, name := "all", selectorJson := "{}",
                   createdAt := 0 }]
      bundles := [plainBundle "a", plainBundle "b"]
      bundleAssignments :=
        ["a", "b"].map fun id =>
          { tenantId := 1, groupId := "g", bundleId := id, priority := 0, assignedAt := 0 } }
    ∅ 0

/-- The same rows in two orders: two lists and two hashes. -/
theorem tied_bundles_follow_rows :
    exists s s', Program.Yields (AnyOrder tiedWorld) (computeUncached matchAllDeps 1 "h")
        (Except.ok s) ∧
      Program.Yields (AnyOrder tiedWorld) (computeUncached matchAllDeps 1 "h")
        (Except.ok s') ∧
      s.bundles ≠ s'.bundles ∧ s.stateHash ≠ s'.stateHash := by
  let rows := [(plainBundle "a", (0 : Int)), (plainBundle "b", 0)]
  have hassigned : assignedBundles matchAllDeps 1 "h" tiedWorld.db = rows := by
    decide +kernel
  have hyields : forall rows', rows'.Perm rows ->
      Program.Yields (AnyOrder tiedWorld) (computeUncached matchAllDeps 1 "h")
        (Except.ok (desiredStateOf matchAllDeps (Json.object []) rows')) := by
    intro rows' hperm
    apply yields_computeUncached.mpr
    exact ⟨rows', by rw [hassigned]; exact hperm, rfl⟩
  refine ⟨_, _, hyields rows (List.Perm.refl _), hyields rows.reverse (List.reverse_perm rows),
    ?_, ?_⟩
  · intro h
    have hids := congrArg (List.map DesiredBundle.id) h
    exact absurd hids (by decide +kernel)
  · decide +kernel

end Agent
end FleetServer
