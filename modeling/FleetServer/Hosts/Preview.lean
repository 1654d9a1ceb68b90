import FleetServer.Agent.Matching
import FleetServer.Facts.Fleet
import FleetServer.Hosts.ConfigApi

/-!
# Previewing a selector

`POST /api/groups/preview` evaluates a selector against the whole fleet: hosts
that hold one of the documents it reads as these stream by, all others on their
tags alone.  An agent's poll evaluates the selectors of all groups against the
documents of one host.
-/

namespace FleetServer
namespace Hosts

open FleetServer.Core
open Storage
open Server
open Concurrency
open Facts

variable (deps : Deps)

structure Streamed where
  withFacts : List String
  matched : List String

def Streamed.visit (s : Selector) (tags : String -> HostTags) (acc : Streamed)
    (hostId : String) (facts : HostFacts) : Streamed :=
  { withFacts := acc.withFacts ++ [hostId]
    matched := if s.matches (tags hostId) facts then acc.matched ++ [hostId] else acc.matched }

def noFacts : HostFacts := fun _ => none

/-- Whether a host is listed: as it matched with its documents, or on its tags
and the absence of facts. -/
def isPreviewed (s : Selector) (tags : String -> HostTags) (streamed : Streamed)
    (h : Host) : Bool :=
  if streamed.withFacts.contains h.id then streamed.matched.contains h.id
  else s.matches (tags h.id) noFacts

def previewMatch (h : Host) : PreviewMatch :=
  { id := h.id, hostname := h.hostname }

def previewSelector (who : AuthedUser) (selector : Json) : Prog Response :=
  match Selector.fromJson deps.decodeSelector selector with
  | Except.error e =>
      return Response.error 400 ("bad selector: " ++ e.message deps.debugStr)
  | Except.ok s =>
      askOr (Query.hosts who.tenantId) Response.internal fun hosts =>
      askOr (Query.tagsForTenant who.tenantId) Response.internal fun tags => do
        match ← foldHostFacts deps who.tenantId s.factSources
            { withFacts := [], matched := [] } (Streamed.visit s tags) with
        | Except.error _ => return Response.internal
        | Except.ok streamed =>
            return Response.ok (Payload.preview
              ((hosts.filter (isPreviewed s tags streamed)).map previewMatch))

/-!
# What is streamed
-/

section Stream

variable {s : Selector} {tags : String -> HostTags}

theorem mem_withFacts (f : List (String × String) -> HostFacts)
    (groups : List (String × List (String × String))) (acc : Streamed) (hostId : String) :
    hostId ∈ (groups.foldl (fun acc g => Streamed.visit s tags acc g.1 (f g.2)) acc).withFacts <->
      hostId ∈ acc.withFacts ∨ hostId ∈ groups.map Prod.fst := by
  induction groups generalizing acc with
  | nil => simp
  | cons g groups ih =>
      rw [List.foldl_cons, ih, List.map_cons, List.mem_cons]
      unfold Streamed.visit
      rw [List.mem_append, List.mem_singleton, or_assoc]

theorem mem_matched (f : List (String × String) -> HostFacts)
    (groups : List (String × List (String × String))) (acc : Streamed) (hostId : String) :
    hostId ∈ (groups.foldl (fun acc g => Streamed.visit s tags acc g.1 (f g.2)) acc).matched <->
      hostId ∈ acc.matched ∨
        exists docs, (hostId, docs) ∈ groups ∧ s.matches (tags hostId) (f docs) = true := by
  induction groups generalizing acc with
  | nil => simp
  | cons g groups ih =>
      rw [List.foldl_cons, ih]
      rcases g with ⟨other, docs⟩
      unfold Streamed.visit
      by_cases hmatches : s.matches (tags other) (f docs) = true
      · simp only [hmatches, if_true, List.mem_append, List.mem_cons, List.not_mem_nil, or_false,
          Prod.mk.injEq]
        constructor
        · intro h
          rcases h with (h | h) | ⟨docs', hmem, h⟩
          · exact Or.inl h
          · rw [h]
            exact Or.inr ⟨docs, Or.inl ⟨rfl, rfl⟩, hmatches⟩
          · exact Or.inr ⟨docs', Or.inr hmem, h⟩
        · intro h
          rcases h with h | ⟨docs', ⟨hhost, _⟩ | hmem, h⟩
          · exact Or.inl (Or.inl h)
          · exact Or.inl (Or.inr hhost)
          · exact Or.inr ⟨docs', hmem, h⟩
      · simp only [hmatches, List.mem_cons, Prod.mk.injEq]
        constructor
        · intro h
          rcases h with h | ⟨docs', hmem, h⟩
          · exact Or.inl h
          · exact Or.inr ⟨docs', Or.inr hmem, h⟩
        · intro h
          rcases h with h | ⟨docs', ⟨hhost, hdocs⟩ | hmem, h⟩
          · exact Or.inl h
          · rw [hhost, hdocs] at h
            exact absurd h hmatches
          · exact Or.inr ⟨docs', hmem, h⟩

end Stream

theorem parsedDocuments_rowsOf (tenantId : Int) (hostId : String) (sources : List String)
    (db : Db) :
    parsedDocuments deps (rowsOf hostId (HostFactsRepo.documents tenantId sources db)) =
      Agent.documentsOf deps tenantId hostId sources db := by
  funext source
  unfold parsedDocuments Agent.documentsOf
  rw [lookup_documents]
  split <;> rfl

theorem isPreviewed_streamed (tenantId : Int) (s : Selector) (db : Db) (h : Host) :
    isPreviewed s (HostTagsRepo.mapsForTenant tenantId db)
        ((groupByHost (HostFactsRepo.documents tenantId s.factSources db)).foldl
          (fun acc g => Streamed.visit s (HostTagsRepo.mapsForTenant tenantId db) acc g.1
            (parsedDocuments deps g.2)) { withFacts := [], matched := [] }) h =
      s.matches (HostTagsRepo.mapForHost tenantId h.id db)
        (Agent.documentsOf deps tenantId h.id s.factSources db) := by
  have hgrouped := grouped_groupByHost (documents_pairwise tenantId s.factSources db)
  rw [← HostTagsRepo.mapsForTenant_eq, ← parsedDocuments_rowsOf, Bool.eq_iff_iff]
  unfold isPreviewed
  split
  · rename_i hwith
    rw [List.contains_iff_mem, mem_withFacts] at hwith
    rw [List.contains_iff_mem, mem_matched]
    rcases hwith with hwith | hwith
    · cases hwith
    · rcases List.mem_map.mp hwith with ⟨⟨hostId, docs⟩, hmem, hhost⟩
      rw [show hostId = h.id from hhost] at hmem
      constructor
      · intro hmatched
        rcases hmatched with hmatched | ⟨docs', hmem', hmatches⟩
        · cases hmatched
        · have hdocs : docs' = rowsOf h.id _ := hgrouped.documents _ hmem'
          rw [hdocs] at hmatches
          exact hmatches
      · intro hmatches
        have hdocs : docs = rowsOf h.id _ := hgrouped.documents _ hmem
        rw [← hdocs] at hmatches
        exact Or.inr ⟨docs, hmem, hmatches⟩
  · rename_i hwithout
    rw [List.contains_iff_mem, mem_withFacts, hgrouped.hosts] at hwithout
    have hnone : rowsOf h.id (HostFactsRepo.documents tenantId s.factSources db) = [] :=
      rowsOf_eq_nil (fun hmem => hwithout (Or.inr hmem))
    rw [hnone]
    exact Iff.rfl

/-!
# The preview and the poll
-/

theorem run_previewSelector {who : AuthedUser} {v : Json} {s : Selector}
    (hs : Selector.fromJson deps.decodeSelector v = Except.ok s) (w : World) :
    (previewSelector deps who v).run machine w =
      (Response.ok (Payload.preview
        (((HostRepo.list who.tenantId w.db).filter fun h : Host =>
          s.matches (HostTagsRepo.mapForHost who.tenantId h.id w.db)
            (Agent.documentsOf deps who.tenantId h.id s.factSources w.db)).map previewMatch)),
        w) := by
  have hfilter : (fun h : Host => s.matches (HostTagsRepo.mapForHost who.tenantId h.id w.db)
      (Agent.documentsOf deps who.tenantId h.id s.factSources w.db)) = _ :=
    funext fun h => (isPreviewed_streamed deps who.tenantId s w.db h).symm
  unfold previewSelector
  rw [hs, run_askOr, run_askOr, Program.run_bind, run_foldHostFacts, hfilter]
  rfl

variable {deps}

/-- A host is listed when, and only when, its own poll would count a group with
the previewed selector among the host's, whatever other groups there are. -/
theorem previewSelector_agrees {who : AuthedUser} {v : Json} {s : Selector} {w : World}
    (hs : Selector.fromJson deps.decodeSelector v = Except.ok s) :
    exists listed, (previewSelector deps who v).run machine w =
        (Response.ok (Payload.preview listed), w) ∧
      forall groups : List GroupRow, (groups.map GroupRow.id).Nodup ->
      forall g, g ∈ groups -> g.tenantId = who.tenantId ->
      forall stored, deps.parseJson g.selectorJson = some stored ->
        Selector.fromJson deps.decodeSelector stored = Except.ok s ->
      forall h, h ∈ HostRepo.list who.tenantId w.db ->
        (previewMatch h ∈ listed <->
          g.id ∈ Agent.matchingGroups deps who.tenantId h.id { w.db with groups := groups }) := by
  refine ⟨_, run_previewSelector deps hs w, ?_⟩
  intro groups hids g hg htenant stored hstored hfrom h hh
  have hpoll : g.id ∈ Agent.matchingGroups deps who.tenantId h.id { w.db with groups := groups } <->
      _ := Agent.mem_matchingGroups hids hg htenant hstored hfrom
  rw [hpoll, List.mem_map]
  constructor
  · intro hlisted
    rcases hlisted with ⟨h', hh', hsame⟩
    have hid : h'.id = h.id := congrArg PreviewMatch.id hsame
    have hmatches := (List.mem_filter.mp hh').2
    rw [hid] at hmatches
    exact hmatches
  · intro hmatches
    exact ⟨h, List.mem_filter.mpr ⟨hh, hmatches⟩, rfl⟩

/-- A server whose one selector asks for hosts that report no `os`. -/
def withoutOsDeps : Deps :=
  { Deps.sample with
    parseJson := fun s =>
      if s == "doc" then some (Json.object [("os", Json.string "linux")])
      else if s == "selector" then some Json.null
      else none
    decodeSelector := fun _ =>
      let path : FactPath := { raw := "os", segments := [{ key := "os", ids := [] }] }
      Except.ok { clauses := [Expr.not (Expr.fact agentSource path FactTest.exists_)] } }

def reported (hostId factsJson : String) : HostFactsRow :=
  { tenantId := 1, hostId := hostId, source := agentSource, factsHash := factsJson,
    factsJson := factsJson, collectedAt := none, receivedAt := 0, sizeBytes := 0 }

/-- One host with a document, one whose document does not parse, one without. -/
def threeHosts : World :=
  World.start
    { sampleDb with
      hosts := ["a", "b", "c"].map fun id => newHostRow id 1 0
      hostFacts := [reported "a" "doc", reported "b" "broken"] }
    ∅ 0

theorem previewSelector_without_os :
    exists listed, (previewSelector withoutOsDeps { userId := 1, tenantId := 1, role := Role.admin }
        Json.null).run machine threeHosts = (Response.ok (Payload.preview listed), threeHosts) ∧
      { id := "a", hostname := none } ∉ listed ∧
      { id := "b", hostname := none } ∈ listed ∧
      { id := "c", hostname := none } ∈ listed := by
  let g : GroupRow :=
    { id := "g", tenantId := 1, name := "g", selectorJson := "selector", createdAt := 0 }
  let host (id : String) : Host := mapHost (newHostRow id 1 0)
  have hhost : forall id, id ∈ ["a", "b", "c"] -> host id ∈ HostRepo.list 1 threeHosts.db := by
    intro id hid
    unfold HostRepo.list
    rw [List.mem_insertionSort]
    apply List.mem_map_of_mem
    exact List.mem_filter.mpr ⟨List.mem_map_of_mem hid, rfl⟩
  rcases @previewSelector_agrees withoutOsDeps { userId := 1, tenantId := 1, role := Role.admin }
    Json.null _ threeHosts rfl with ⟨listed, hrun, hlisted⟩
  have hpoll := hlisted [g] (by decide +kernel) g List.mem_cons_self rfl Json.null rfl rfl
  refine ⟨listed, hrun, ?_, ?_, ?_⟩
  · intro hmem
    exact absurd ((hpoll (host "a") (hhost "a" (by decide))).mp hmem) (by decide +kernel)
  · exact (hpoll (host "b") (hhost "b" (by decide))).mpr (by decide +kernel)
  · exact (hpoll (host "c") (hhost "c" (by decide))).mpr (by decide +kernel)

end Hosts
end FleetServer
