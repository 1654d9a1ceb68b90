import FleetServer.Server.Response

/-!
# Storing and removing facts documents

The one write path for facts, whatever the source.
-/

namespace FleetServer
namespace Facts

open FleetServer.Core
open Storage
open Server
open Concurrency

variable (deps : Deps)

inductive StoreFailure where
  | database
  | badJson
deriving DecidableEq

/-- Attempts at storing a document when another write keeps replacing it. -/
def storeAttempts : Nat := 3

/-- A stored document took effect: drop what was derived from the old one. -/
def afterReplace (tenantId : Int) (hostId : String) (outcome : ReplaceOutcome) : Prog Unit :=
  match outcome with
  | ReplaceOutcome.stored => do
      invalidateHost (tenantId, hostId)
      bumpCatalog tenantId CatalogChange.stored
  | _ => return ()

/-- The rounds of `store` that are left. -/
def storeRounds (tenantId : Int) (hostId source hash json : String)
    (collectedAt : Option String) : Nat -> Prog (Except StoreFailure ReplaceOutcome)
  | 0 => return Except.ok ReplaceOutcome.conflict
  | rounds + 1 =>
      let failed := Except.error StoreFailure.database
      askOr (Query.facts tenantId hostId source) failed fun previous =>
        let previousHash := previous.map StoredFacts.factsHash
        if previousHash = some hash then return Except.ok ReplaceOutcome.unchanged
        else
          match deps.parseJson json with
          | none => return Except.error StoreFailure.badJson
          | some document =>
              let doc : NewFacts :=
                { source := source, factsHash := hash, factsJson := json,
                  collectedAt := collectedAt, expectedPrevious := previousHash,
                  history := deps.historyEntry (previous.map StoredFacts.factsJson) document }
              executeOr (Statement.replaceFacts tenantId hostId doc keepHistory) failed
                fun outcome => do
                  afterReplace tenantId hostId outcome
                  if outcome = ReplaceOutcome.conflict then
                    storeRounds tenantId hostId source hash json collectedAt rounds
                  else return Except.ok outcome

def store (tenantId : Int) (hostId source hash json : String)
    (collectedAt : Option String) : Prog (Except StoreFailure ReplaceOutcome) :=
  storeRounds deps tenantId hostId source hash json collectedAt storeAttempts

/-- Delete one host's document from a source; whether there was one. -/
def remove (tenantId : Int) (hostId source : String) (bump : Bool) :
    Prog (Except StoreFailure Bool) :=
  executeOr (Statement.deleteFacts tenantId hostId source)
    (Except.error StoreFailure.database) fun removed =>
      if removed then do
        invalidateHost (tenantId, hostId)
        if bump then bumpCatalog tenantId CatalogChange.operator
        return Except.ok true
      else return Except.ok false

def invalidateAll (tenantId : Int) : List String -> Prog Unit
  | [] => return ()
  | hostId :: rest => do
      invalidateHost (tenantId, hostId)
      invalidateAll tenantId rest

/-- Delete every document of a source; how many there were. -/
def removeSource (tenantId : Int) (source : String) : Prog (Except StoreFailure Nat) :=
  executeOr (Statement.deleteFactsSource tenantId source)
    (Except.error StoreFailure.database) fun hosts => do
      invalidateAll tenantId hosts
      if !hosts.isEmpty then bumpCatalog tenantId CatalogChange.operator
      return Except.ok hosts.length

/-!
# Reading every host's documents
-/

def groupByHost : List (String × String × String) -> List (String × List (String × String))
  | [] => []
  | (hostId, source, json) :: rows =>
      match groupByHost rows with
      | [] => [(hostId, [(source, json)])]
      | (other, docs) :: others =>
          if hostId = other then (hostId, (source, json) :: docs) :: others
          else (hostId, [(source, json)]) :: (other, docs) :: others

def parsedDocuments (docs : List (String × String)) : HostFacts :=
  fun source => (docs.lookup source).bind deps.parseJson

/-- Fold `f` over the hosts holding a document from any of `sources`. -/
def foldHostFacts {alpha : Type} (tenantId : Int) (sources : List String) (acc : alpha)
    (f : alpha -> String -> HostFacts -> alpha) : Prog (Except StoreFailure alpha) :=
  match sources with
  | [] => return Except.ok acc
  | s :: rest =>
      askOr (Query.factsDocuments tenantId (s :: rest)) (Except.error StoreFailure.database)
        fun rows =>
          return Except.ok ((groupByHost rows).foldl
            (fun acc host => f acc host.1 (parsedDocuments deps host.2)) acc)

end Facts
end FleetServer
