import FleetServer.Agent.DesiredState
import FleetServer.Core.SelectorJson
import FleetServer.Server.Walk

/-!
# The groups a host is in

What `compute_uncached` reads, and the desired state it makes of it, as
functions of the database.
-/

namespace FleetServer
namespace Agent

open FleetServer.Core
open Storage
open Server
open Concurrency

variable (deps : Deps)

/-- The host's stored document of each of `sources`, parsed. -/
def documentsOf (tenantId : Int) (hostId : String) (sources : List String) (db : Db) :
    HostFacts := fun source =>
  if source ∈ sources then
    ((HostFactsRepo.get tenantId hostId source db).map StoredFacts.factsJson).bind
      deps.parseJson
  else none

def matchingAmong (tenantId : Int) (hostId : String) (groups : List GroupRow) (db : Db) :
    List String :=
  let selectors := parsedSelectors deps groups
  matchingGroupIds selectors (HostTagsRepo.mapForHost tenantId hostId db)
    (documentsOf deps tenantId hostId (sourcesOf selectors) db)

def matchingGroups (tenantId : Int) (hostId : String) (db : Db) : List String :=
  matchingAmong deps tenantId hostId (GroupsRepo.list tenantId db) db

/-- The bundles of the host's groups, with their priorities, as they are
stored. -/
def assignedBundles (tenantId : Int) (hostId : String) (db : Db) : List (BundleRow × Int) :=
  BundleAssignmentsRepo.listForGroups tenantId (matchingGroups deps tenantId hostId db) db

def storedConfig (tenantId : Int) (hostId : String) (db : Db) : Except ComputeError Json :=
  mergedConfig deps tenantId hostId (HostOverridesRepo.get tenantId hostId db)

/-!
# Reading the documents
-/

theorem withDocument_documentsOf (tenantId : Int) (hostId source : String)
    (sources : List String) (db : Db) :
    withDocument deps source
        ((HostFactsRepo.get tenantId hostId source db).map StoredFacts.factsJson)
        (documentsOf deps tenantId hostId sources db) =
      documentsOf deps tenantId hostId (source :: sources) db := by
  funext s
  unfold withDocument documentsOf
  by_cases hs : s = source
  · rw [if_pos hs, if_pos (by rw [hs]; exact List.mem_cons_self), hs]
  · rw [if_neg hs]
    by_cases hmem : s ∈ sources
    · rw [if_pos hmem, if_pos (List.mem_cons_of_mem _ hmem)]
    · rw [if_neg hmem, if_neg]
      intro h
      rcases List.mem_cons.mp h with h | h
      · exact hs h
      · exact hmem h

theorem run_loadForHost (tenantId : Int) (hostId : String) (sources : List String) (w : World) :
    (loadForHost deps tenantId hostId sources).run machine w =
      (Except.ok (documentsOf deps tenantId hostId sources w.db), w) := by
  induction sources with
  | nil => rfl
  | cons source rest ih =>
      unfold loadForHost
      rw [run_askOr, Program.run_bind, ih, ← withDocument_documentsOf]
      rfl

/-!
# Which groups match
-/

variable {deps}

theorem mem_parsedSelectors {groups : List GroupRow} {id : String} {s : Selector} :
    (id, s) ∈ parsedSelectors deps groups <->
      exists g v, g ∈ groups ∧ g.id = id ∧ deps.parseJson g.selectorJson = some v ∧
        Selector.fromJson deps.decodeSelector v = Except.ok s := by
  unfold parsedSelectors
  rw [List.mem_filterMap]
  constructor
  · intro h
    rcases h with ⟨g, hg, h⟩
    rcases Option.bind_eq_some_iff.mp h with ⟨v, hv, h⟩
    rcases Option.bind_eq_some_iff.mp h with ⟨s', hs', h⟩
    cases h
    refine ⟨g, v, hg, rfl, hv, ?_⟩
    cases hfrom : Selector.fromJson deps.decodeSelector v with
    | error e =>
        rw [hfrom] at hs'
        cases hs'
    | ok s'' =>
        rw [hfrom] at hs'
        cases hs'
        rfl
  · intro h
    rcases h with ⟨g, v, hg, hid, hv, hs⟩
    refine ⟨g, hg, ?_⟩
    rw [hv, ← hid]
    show ((Selector.fromJson deps.decodeSelector v).toOption.bind fun s => some (g.id, s)) = _
    rw [hs]
    rfl

theorem mem_groupsList {tenantId : Int} {db : Db} {g : GroupRow} :
    g ∈ GroupsRepo.list tenantId db <-> g ∈ db.groups ∧ g.tenantId = tenantId := by
  unfold GroupsRepo.list
  rw [List.mem_insertionSort, List.mem_filter, beq_iff_eq]

/-- A group matches on what its own selector reads, whatever the other groups
of the tenant have loaded beside it. -/
theorem mem_matchingGroups {tenantId : Int} {hostId : String} {db : Db} {g : GroupRow} {v : Json}
    {s : Selector} (hids : (db.groups.map GroupRow.id).Nodup) (hg : g ∈ db.groups)
    (htenant : g.tenantId = tenantId) (hv : deps.parseJson g.selectorJson = some v)
    (hs : Selector.fromJson deps.decodeSelector v = Except.ok s) :
    g.id ∈ matchingGroups deps tenantId hostId db <->
      s.matches (HostTagsRepo.mapForHost tenantId hostId db)
        (documentsOf deps tenantId hostId s.factSources db) = true := by
  let selectors := parsedSelectors deps (GroupsRepo.list tenantId db)
  have hmem : (g.id, s) ∈ selectors :=
    mem_parsedSelectors.mpr ⟨g, v, mem_groupsList.mpr ⟨hg, htenant⟩, rfl, hv, hs⟩
  have honly : forall s', (g.id, s') ∈ selectors -> s' = s := by
    intro s' hs'
    rcases mem_parsedSelectors.mp hs' with ⟨g', v', hg', hid, hv', hs'⟩
    have hsame : g' = g :=
      List.inj_on_of_nodup_map hids (mem_groupsList.mp hg').1 hg hid
    rw [hsame, hv] at hv'
    cases hv'
    rw [hs] at hs'
    cases hs'
    rfl
  have hfacts : s.matches (HostTagsRepo.mapForHost tenantId hostId db)
      (documentsOf deps tenantId hostId (sourcesOf selectors) db) =
      s.matches (HostTagsRepo.mapForHost tenantId hostId db)
        (documentsOf deps tenantId hostId s.factSources db) := by
    apply Selector.matches_congr
    intro source hsource
    have hall : source ∈ sourcesOf selectors :=
      mem_sortedSet.mpr (List.mem_flatMap.mpr ⟨(g.id, s), hmem, hsource⟩)
    unfold documentsOf
    rw [if_pos hall, if_pos hsource]
  rw [← hfacts]
  unfold matchingGroups matchingAmong matchingGroupIds
  rw [List.mem_map]
  constructor
  · intro h
    rcases h with ⟨⟨id, s'⟩, hs', hid⟩
    rcases List.mem_filter.mp hs' with ⟨hs', hmatches⟩
    rw [show id = g.id from hid] at hs'
    rw [show s' = s from honly s' hs'] at hmatches
    exact hmatches
  · intro hmatches
    exact ⟨(g.id, s), List.mem_filter.mpr ⟨hmem, hmatches⟩, rfl⟩

/-!
# The whole walk
-/

variable (deps)

theorem listForGroups_nil (tenantId : Int) (db : Db) :
    BundleAssignmentsRepo.listForGroups tenantId [] db = [] := by
  unfold BundleAssignmentsRepo.listForGroups
  simp

/-- Undisturbed, the walk answers from the database it started in. -/
theorem run_computeUncached (tenantId : Int) (hostId : String) (w : World) :
    (computeUncached deps tenantId hostId).run machine w =
      ((storedConfig deps tenantId hostId w.db).map fun merged =>
        desiredStateOf deps merged (assignedBundles deps tenantId hostId w.db), w) := by
  unfold computeUncached
  rw [run_askOr, run_askOr, Program.run_bind, run_loadForHost]
  show Program.run machine (bundlesForGroups tenantId (matchingGroups deps tenantId hostId w.db)
    (Except.error ComputeError.database) _) w = _
  unfold assignedBundles bundlesForGroups
  cases matchingGroups deps tenantId hostId w.db with
  | nil =>
      rw [listForGroups_nil]
      rfl
  | cons id rest => rfl

end Agent
end FleetServer
