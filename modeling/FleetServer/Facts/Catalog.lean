import FleetServer.Core.Facts
import FleetServer.Data.Gathered

/-!
# The facts catalog

The paths the documents of a fleet have, with the values seen at them and the
number of hosts that have each.
-/

namespace FleetServer
namespace Facts
namespace Catalog

open FleetServer.Core
open KeyedMap
open Gathered

def maxCatalogPaths : Nat := 2000
def maxDistinctValues : Nat := 500
def maxValuesShown : Nat := 50
def maxCatalogDepth : Nat := 16

inductive PathKind where
  | scalar
  | list
  | map
  | mixed
deriving DecidableEq

def PathKind.merge (self other : PathKind) : PathKind :=
  if self = other then self else PathKind.mixed

structure CatalogPath where
  path : String
  kind : PathKind
  hosts : Nat
  values : List (String × Nat)
deriving DecidableEq

structure CatalogSource where
  source : String
  hosts : Nat
  paths : List CatalogPath
  truncated : Bool

structure FactsCatalog where
  sources : List CatalogSource

/-!
# One document
-/

/-- One path's kind, and a value under it. -/
abbrev Note : Type := String × PathKind × Option String

/-- The values are a set: what was inserted is read in order, each value once. -/
abbrev LocalPaths : Type := Map String (PathKind × List String)

/-- A value is recorded when it is short enough to compare. -/
def noteGather : Gather (PathKind × Option String) (PathKind × List String) where
  room := fun _ => true
  blank := fun e => (e.1, [])
  add := fun entry e =>
    (entry.1.merge e.1,
      entry.2 ++ (e.2.filter fun v => decide (byteLen v ≤ maxValueLen)).toList)

def note (seen : LocalPaths) (n : Note) : LocalPaths :=
  noteGather.offer seen n

mutual

/-- What `walk` notes of a value at a path, in order. -/
def walk (path : String) (depth : Nat) : Json -> List Note
  | Json.null => []
  | Json.object members =>
      -- Its keys are what `has` compares against on a map.
      (path, PathKind.map, none) ::
        ((members.map fun m => (path, PathKind.map, some m.1)) ++
          walkChildren path false depth members)
  | Json.array items => (path, PathKind.list, none) :: walkItems path depth items
  | Json.bool b => [(path, PathKind.scalar, scalarText (Json.bool b))]
  | Json.number text => [(path, PathKind.scalar, scalarText (Json.number text))]
  | Json.string s => [(path, PathKind.scalar, scalarText (Json.string s))]

def walkItems (path : String) (depth : Nat) : List Json -> List Note
  | [] => []
  | item :: rest => walkItem path depth item ++ walkItems path depth rest

def walkItem (path : String) (depth : Nat) : Json -> List Note
  -- A record: offer its id to `has`, and fan out into its fields.
  | Json.object record =>
      (path, PathKind.list, ((Json.object record).get "id").bind Json.asString) ::
        walkChildren path true depth record
  | other => [(path, PathKind.list, scalarText other)]

def walkChildren (path : String) (inRecord : Bool) (depth : Nat) :
    List (String × Json) -> List Note
  | [] => []
  | (k, v) :: rest =>
      (if maxCatalogDepth ≤ depth then []
        else
          -- A key the grammar has no spelling for is not offered.
          match FactPath.child path k inRecord with
          | none => []
          | some child => walk child (depth + 1) v) ++
        walkChildren path inRecord depth rest

end

/-- Per host first, so a host with the same path in forty records counts once. -/
def localPaths : Json -> LocalPaths
  | Json.object members => (walkChildren "" false 0 members).foldl note ∅
  | _ => ∅

def inOrder {alpha : Type} (m : Map String alpha) : List (String × alpha) :=
  (m.entries.map fun e => (e.1, e.2)).insertionSort fun a b => a.1 ≤ b.1

/-!
# The builder
-/

structure PathAcc where
  kind : PathKind
  hosts : Nat
  values : Map String Nat

/-- Past the limit new values are not counted. -/
def valueGather : Gather Unit Nat where
  room := fun n => decide (n < maxDistinctValues)
  blank := fun _ => 0
  add := fun n _ => n + 1

def pathGather : Gather (PathKind × List String) PathAcc where
  room := fun n => decide (n < maxCatalogPaths)
  blank := fun e => { kind := e.1, hosts := 0, values := ∅ }
  add := fun acc e =>
    { kind := acc.kind.merge e.1
      hosts := acc.hosts + 1
      values := ((sortedSet e.2).map fun v => (v, ())).foldl valueGather.offer acc.values }

structure CatalogAcc where
  paths : Map String PathAcc
  truncated : Bool

namespace CatalogAcc

def empty : CatalogAcc :=
  { paths := ∅, truncated := false }

def addPath (acc : CatalogAcc) (e : String × PathKind × List String) : CatalogAcc :=
  { paths := pathGather.offer acc.paths e
    truncated := acc.truncated ||
      ((acc.paths.lookup e.1).isNone && decide (maxCatalogPaths ≤ size acc.paths)) }

def addDocument (acc : CatalogAcc) (doc : Json) : CatalogAcc :=
  (inOrder (localPaths doc)).foldl addPath acc

/-- Most common first, then in the order of the values. -/
def shown (values : Map String Nat) : List (String × Nat) :=
  ((values.entries.map fun e => (e.1, e.2)).insertionSort
    fun a b => b.2 < a.2 ∨ (a.2 = b.2 ∧ a.1 ≤ b.1)).take maxValuesShown

def finish (acc : CatalogAcc) (source : String) (hosts : Nat) : CatalogSource :=
  { source := source
    hosts := hosts
    paths := (inOrder acc.paths).map fun e =>
      { path := e.1, kind := e.2.kind, hosts := e.2.hosts, values := shown e.2.values }
    truncated := acc.truncated }

end CatalogAcc

/-!
# One source's part
-/

structure SourceBuild where
  acc : CatalogAcc
  /-- Documents folded in. -/
  hosts : Nat
  /-- Rows offered, parsed or not. -/
  seen : Nat
  cap : Nat

namespace SourceBuild

def new (cap : Nat) : SourceBuild :=
  { acc := CatalogAcc.empty, hosts := 0, seen := 0, cap := cap }

/-- The row past the limit is only evidence that something was left out. -/
def offer (parse : String -> Option Json) (b : SourceBuild) (json : String) : SourceBuild :=
  if b.cap < b.seen + 1 then
    { b with seen := b.seen + 1, acc := { b.acc with truncated := true } }
  else
    match parse json with
    | none => { b with seen := b.seen + 1 }
    | some doc =>
        { b with seen := b.seen + 1, acc := b.acc.addDocument doc, hosts := b.hosts + 1 }

def finish (b : SourceBuild) (source : String) : CatalogSource :=
  b.acc.finish source b.hosts

end SourceBuild

end Catalog
end Facts
end FleetServer
