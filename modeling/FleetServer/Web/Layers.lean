import FleetServer.Web.Objects

/-!
# The effective configuration

`layerConfigs` of `hosts/hostConfig.ts`: the rows the bundles' configuration and
the host override come to.  Maps and objects list their entries in insertion
order.
-/

namespace FleetServer
namespace Web

open FleetServer.Core
open Core.Json

/-- A JSON object as `JSON.parse` returns it. -/
structure ConfigObject where
  members : List Member
  distinct : Json.distinct (object members) = true

inductive LayerKind where
  | bundle
  | override
deriving DecidableEq

structure Layer where
  id : String
  label : String
  kind : LayerKind
  config : ConfigObject

structure Provenance where
  value : String
  layer : Layer

structure EffectiveRow where
  /-- Canonical section path, `"/"` for the root. -/
  section_ : String
  key : String
  /-- The value in force, or none when a layer removed the key. -/
  value : Option String
  layer : Layer
  replaced : List Provenance

mutual

def render : Json -> String
  | Json.string s => s
  | Json.bool b => if b then "true" else "false"
  | Json.array items => String.intercalate "," (renderItems items)
  | v => String.ofList (write v)

def renderItems : List Json -> List String
  | [] => []
  | v :: rest => render v :: renderItems rest

end

def rowId (section_ key : String) : String :=
  section_ ++ "\x00" ++ key

def sectionOf (segments : List String) : String :=
  "/" ++ String.intercalate "/" segments

def lastOf (segments : List String) : String :=
  segments.getLast?.getD ""

def startsWith (s start : String) : Bool :=
  start.toList.isPrefixOf s.toList

/-!
# The rows
-/

/-- `Map<string, EffectiveRow>` -/
abbrev Rows : Type := List (String × EffectiveRow)

/-- Whether a removal of `segments` takes a row away. -/
def hit (segments : List String) (section_ key : String) : Bool :=
  (section_ == sectionOf segments.dropLast && key == lastOf segments) ||
    section_ == sectionOf segments || startsWith section_ (sectionOf segments ++ "/")

/-- The row of a value the override removed; a bundle's removal leaves none. -/
def removedRow (layer : Layer) (row : EffectiveRow) : Option EffectiveRow :=
  match layer.kind, row.value with
  | LayerKind.override, some value =>
      some
        { row with
          value := none
          layer := layer
          replaced := row.replaced ++ [{ value := value, layer := row.layer }] }
  | _, _ => none

def removeUnder (layer : Layer) (segments : List String) (rows : Rows) : Rows :=
  let section_ := sectionOf segments
  let parent := sectionOf segments.dropLast
  let key := lastOf segments
  let rows := rows.filterMap fun e =>
    if hit segments e.2.section_ e.2.key then (removedRow layer e.2).map fun row => (e.1, row)
    else some e
  -- The override's removal of something nothing set is a row of its own.
  if layer.kind == LayerKind.override && !rows.any (fun e => e.1 == rowId parent key) &&
      !rows.any (fun e => e.2.section_ == section_ || startsWith e.2.section_ (section_ ++ "/"))
  then
    mapSet (rowId parent key)
      { section_ := parent, key := key, value := none, layer := layer, replaced := [] } rows
  else rows

def replacedBy (prev : Option EffectiveRow) : List Provenance :=
  match prev with
  | none => []
  | some prev =>
      match prev.value with
      | none => prev.replaced
      | some value => prev.replaced ++ [{ value := value, layer := prev.layer }]

/-- A removal row that stands for a section in which something is set again. -/
def overtaken (section_ : String) (row : EffectiveRow) : Bool :=
  let removed := (if row.section_ == "/" then "" else row.section_) ++ "/" ++ row.key
  row.value.isNone && (section_ == removed || startsWith section_ (removed ++ "/"))

def setLeaf (layer : Layer) (path : List String) (k : String) (v : Json) (rows : Rows) : Rows :=
  let section_ := sectionOf path
  let rows := rows.filter fun e => !overtaken section_ e.2
  let id := rowId section_ k
  mapSet id
    { section_ := section_
      key := k
      value := some (render v)
      layer := layer
      replaced := replacedBy (rows.lookup id) } rows

mutual

def walkAt (layer : Layer) (path : List String) (rows : Rows) (k : String) : Json -> Rows
  | Json.null => removeUnder layer (path ++ [k]) rows
  | Json.object members => walk layer (path ++ [k]) rows members
  | v => setLeaf layer path k v rows

def walk (layer : Layer) (path : List String) (rows : Rows) : List Member -> Rows
  | [] => rows
  | (k, v) :: rest => walk layer path (walkAt layer path rows k v) rest

end

def compareRows (localeCompare : String -> String -> Int) (a b : EffectiveRow) : Int :=
  let bySection := localeCompare a.section_ b.section_
  if bySection ≠ 0 then bySection else localeCompare a.key b.key

def sortsBefore (localeCompare : String -> String -> Int) (a b : EffectiveRow) : Prop :=
  compareRows localeCompare a b ≤ 0

instance (localeCompare : String -> String -> Int) :
    DecidableRel (sortsBefore localeCompare) := fun a b =>
  inferInstanceAs (Decidable (compareRows localeCompare a b ≤ 0))

def layerRows (layers : List Layer) : Rows :=
  layers.foldl (fun rows layer => walk layer [] rows layer.config.members) []

/-- `localeCompare` is the browser's collation. -/
def layerConfigs (localeCompare : String -> String -> Int) (layers : List Layer) :
    List EffectiveRow :=
  ((layerRows layers).map Prod.snd).insertionSort (sortsBefore localeCompare)

end Web
end FleetServer
