import FleetServer.Agent.Matching

/-!
# What a host's desired state is computed from

Everything `compute_uncached` reads of a host and its tenant, as one value.  A
change of the database that leaves it alone leaves the computed state alone.
-/

namespace FleetServer
namespace Agent

open FleetServer.Core
open Storage
open Server
open Concurrency

structure HostInputs where
  tags : HostTags
  groups : List GroupRow
  /-- The stored text of each source's document. -/
  documents : String -> Option String
  /-- The bundles assigned to any of some groups. -/
  bundles : List String -> List (BundleRow × Int)
  stored : Option StoredHostOverride

def hostInputs (key : HostKey) (db : Db) : HostInputs where
  tags := HostTagsRepo.mapForHost key.1 key.2 db
  groups := GroupsRepo.list key.1 db
  documents := fun source =>
    (HostFactsRepo.get key.1 key.2 source db).map StoredFacts.factsJson
  bundles := fun ids => BundleAssignmentsRepo.listForGroups key.1 ids db
  stored := HostOverridesRepo.get key.1 key.2 db

variable (deps : Deps)

/-- The documents of `sources`, parsed. -/
def HostInputs.facts (i : HostInputs) (sources : List String) : HostFacts := fun source =>
  if source ∈ sources then (i.documents source).bind deps.parseJson else none

def HostInputs.matching (i : HostInputs) : List String :=
  let selectors := parsedSelectors deps i.groups
  matchingGroupIds selectors i.tags (i.facts deps (sourcesOf selectors))

def HostInputs.state (i : HostInputs) (key : HostKey) : Except ComputeError DesiredState :=
  (mergedConfig deps key.1 key.2 i.stored).map fun merged =>
    desiredStateOf deps merged (i.bundles (i.matching deps))

theorem computeUncached_answer (key : HostKey) (w : World) :
    ((computeUncached deps key.1 key.2).run machine w).1 =
      (hostInputs key w.db).state deps key := by
  rw [run_computeUncached]
  rfl

/-!
# Parts that are read
-/

/-- The parts of a database that a desired state depends on. -/
def inputParts : List Part :=
  [Part.tags, Part.overrides, Part.documents, Part.groups, Part.bundles, Part.assignments]

variable {db db' : Db}

theorem documents_of_same (h : db.Same Part.documents db') (tenantId : Int)
    (hostId source : String) :
    (HostFactsRepo.get tenantId hostId source db').map StoredFacts.factsJson =
      (HostFactsRepo.get tenantId hostId source db).map StoredFacts.factsJson := by
  have hrows : forall rows : List HostFactsRow,
      ((rows.find? (HostFactsRepo.isDoc tenantId hostId source)).map HostFactsRepo.stored).map
          StoredFacts.factsJson =
        ((rows.map HostFactsRow.document).find? fun d =>
          ofHost tenantId hostId d.1 d.2.1 && d.2.2.1 == source).map fun d => d.2.2.2 := by
    intro rows
    rw [List.find?_map, Option.map_map, Option.map_map]
    rfl
  unfold HostFactsRepo.get
  rw [hrows, hrows, show db'.hostFacts.map HostFactsRow.document = _ from h]

theorem hostInputs_of_same (h : forall part, part ∈ inputParts -> db.Same part db')
    (key : HostKey) : hostInputs key db' = hostInputs key db := by
  have htags : db'.hostTags = db.hostTags := h Part.tags (by simp [inputParts])
  have hoverrides : db'.hostOverrides = db.hostOverrides :=
    h Part.overrides (by simp [inputParts])
  have hgroups : db'.groups = db.groups := h Part.groups (by simp [inputParts])
  have hbundles : db'.bundles = db.bundles := h Part.bundles (by simp [inputParts])
  have hassignments : db'.bundleAssignments = db.bundleAssignments :=
    h Part.assignments (by simp [inputParts])
  have hdocuments := documents_of_same (h Part.documents (by simp [inputParts])) key.1 key.2
  unfold hostInputs HostTagsRepo.mapForHost HostTagsRepo.rowsForHost GroupsRepo.list
    BundleAssignmentsRepo.listForGroups BundleAssignmentsRepo.joined HostOverridesRepo.get
  rw [htags, hoverrides, hgroups, hbundles, hassignments]
  simp only [hdocuments]

theorem hostInputs_of_rows {key : HostKey}
    (h : HostTagsRepo.rowsForHost key.1 key.2 db' = HostTagsRepo.rowsForHost key.1 key.2 db)
    (hsame : forall part, part ∈ inputParts -> part ≠ Part.tags -> db.Same part db') :
    hostInputs key db' = hostInputs key db := by
  have hrest : hostInputs key { db' with hostTags := db.hostTags } = hostInputs key db := by
    apply hostInputs_of_same
    intro part hpart
    by_cases htags : part = Part.tags
    · rw [htags]
      rfl
    · have hpart' := hsame part hpart htags
      simp only [inputParts, List.mem_cons, List.not_mem_nil, or_false] at hpart
      rcases hpart with h | h | h | h | h | h <;> subst h
      · exact absurd rfl htags
      all_goals exact hpart'
  rw [← hrest]
  unfold hostInputs HostTagsRepo.mapForHost
  rw [h]
  rfl

theorem hostInputs_exec {op : Op} (h : forall part, part ∈ inputParts -> part ∉ op.writes)
    (w : World) (key : HostKey) :
    hostInputs key (exec op w).2.db = hostInputs key w.db :=
  hostInputs_of_same (fun part hpart => exec_same (h part hpart) w) key

end Agent
end FleetServer
