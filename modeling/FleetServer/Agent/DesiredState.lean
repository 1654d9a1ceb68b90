import FleetServer.Server.Response

/-!
# Computing a host's desired state

The walk of `compute_uncached`: the host's tags, the tenant's groups, the facts
documents their selectors read, the bundles of the groups that match, and the
host's override.
-/

namespace FleetServer
namespace Agent

open FleetServer.Core
open Storage
open Server
open Concurrency

inductive ComputeError where
  | database
  | tenantMissing (tenantId : Int)
  | overrideDecrypt (e : AeadError)
  | overrideUtf8
  | overrideJson
deriving DecidableEq

variable (deps : Deps)

/-!
# Groups and facts
-/

def parsedSelectors (groups : List GroupRow) : List (String × Selector) :=
  groups.filterMap fun g => do
    let v ← deps.parseJson g.selectorJson
    let s ← (Selector.fromJson deps.decodeSelector v).toOption
    return (g.id, s)

def sourcesOf (selectors : List (String × Selector)) : List String :=
  sortedSet (selectors.flatMap fun s => s.2.factSources)

def matchingGroupIds (selectors : List (String × Selector)) (tags : HostTags)
    (facts : HostFacts) : List String :=
  (selectors.filter fun s => s.2.«matches» tags facts).map Prod.fst

/-- The document of one source beside the others; one that does not parse is
left out. -/
def withDocument (source : String) (json : Option String) (facts : HostFacts) : HostFacts :=
  fun s => if s = source then json.bind deps.parseJson else facts s

/-- A host's documents from `sources`, parsed. -/
def loadForHost (tenantId : Int) (hostId : String) :
    List String -> Prog (Except ComputeError HostFacts)
  | [] => return Except.ok fun _ => none
  | source :: rest =>
      askOr (Query.facts tenantId hostId source) (Except.error ComputeError.database)
        fun stored => do
          match ← loadForHost tenantId hostId rest with
          | Except.error e => return Except.error e
          | Except.ok facts =>
              return Except.ok
                (withDocument deps source (stored.map StoredFacts.factsJson) facts)

/-!
# The state from its inputs
-/

/-- The override as it goes to the agent; anything but an object is ignored. -/
def mergedConfig (tenantId : Int) (hostId : String) :
    Option StoredHostOverride -> Except ComputeError Json
  | none => Except.ok (Json.object [])
  | some o =>
      match deps.decrypt (Purpose.hostOverride tenantId hostId) o.patchEncrypted with
      | Except.error e => Except.error (ComputeError.overrideDecrypt e)
      | Except.ok plaintext =>
          match Deps.fromUtf8 plaintext with
          | none => Except.error ComputeError.overrideUtf8
          | some s =>
              match deps.parseJson s with
              | none => Except.error ComputeError.overrideJson
              | some patch =>
                  Except.ok (if patch.isObject then patch else Json.object [])

def desiredBundle (b : BundleRow × Int) : DesiredBundle :=
  { id := b.1.id, name := b.1.name, version := b.1.version, sha256 := b.1.sha256,
    signature := b.1.signature, priority := b.2, format := b.1.format }

def hashField (bytes : Bytes) : Bytes :=
  leBytes bytes.length 8 ++ bytes

def bundleFields (b : DesiredBundle) : List Bytes :=
  [utf8 b.id, utf8 b.name, utf8 b.version, utf8 b.format, utf8 b.sha256, utf8 b.signature,
    i64LeBytes b.priority]

def stateHashMessage (merged : Json) (bundles : List DesiredBundle) : Bytes :=
  hashField (utf8 merged.canonicalString) ++
    (bundles.flatMap bundleFields).flatMap hashField

def stateHashInfo : String := "desired-state-hash/v1"

def desiredStateOf (merged : Json) (groupBundles : List (BundleRow × Int)) : DesiredState :=
  -- Ascending by priority, so that later layers win.
  let bundles := (sortByKey Prod.snd groupBundles).map desiredBundle
  { stateHash := hex (deps.mac stateHashInfo (stateHashMessage merged bundles))
    mergedConfig := merged
    bundles := bundles }

def bundlesForGroups {beta : Type} (tenantId : Int) (groupIds : List String) (failed : beta)
    (next : List (BundleRow × Int) -> Prog beta) : Prog beta :=
  match groupIds with
  | [] => next []
  | id :: rest => askOr (Query.bundlesForGroups tenantId (id :: rest)) failed next

def computeUncached (tenantId : Int) (hostId : String) :
    Prog (Except ComputeError DesiredState) :=
  let failed := Except.error ComputeError.database
  askOr (Query.tagsForHost tenantId hostId) failed fun tags =>
  askOr (Query.groups tenantId) failed fun groups => do
    let selectors := parsedSelectors deps groups
    match ← loadForHost deps tenantId hostId (sourcesOf selectors) with
    | Except.error e => return Except.error e
    | Except.ok facts =>
        bundlesForGroups tenantId (matchingGroupIds selectors tags facts) failed
          fun groupBundles =>
        askOr (Query.hostOverride tenantId hostId) failed fun stored =>
          return (mergedConfig deps tenantId hostId stored).map fun merged =>
            desiredStateOf deps merged groupBundles

/-!
# Through the cache
-/

def computeThroughCache (tenantId : Int) (hostId : String) (configVersion : Int) :
    Prog (Except ComputeError DesiredState) :=
  let key := (tenantId, hostId)
  computeDesiredStateAt (cacheGet key configVersion) (cacheTicket key)
    (computeUncached deps tenantId hostId)
    (fun ticket computed => putIfCurrent key ticket configVersion computed)

/-- `compute_desired_state`, for callers that do not know the version. -/
def computeDesiredState (tenantId : Int) (hostId : String) :
    Prog (Except ComputeError DesiredState) :=
  askOr (Query.tenant tenantId) (Except.error ComputeError.database) fun
    | none => return Except.error (ComputeError.tenantMissing tenantId)
    | some t => computeThroughCache deps tenantId hostId t.configVersion

end Agent
end FleetServer
