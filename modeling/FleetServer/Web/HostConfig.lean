import FleetServer.Web.Ini

/-!
# The host override

The rest of `hosts/hostConfig.ts`: what a patch removes, the configuration a table
stands for, and the override that turns one configuration into another.
-/

namespace FleetServer
namespace Web

open FleetServer.Core
open Core.Json

/-- A path the override removes: the segments of a `null` leaf. -/
abbrev Removal : Type := List String

mutual

def removalsAt (path : List String) (k : String) : Json -> List Removal
  | Json.null => [path ++ [k]]
  | Json.object members => removalsBeneath (path ++ [k]) members
  | _ => []

def removalsBeneath (path : List String) : List Member -> List Removal
  | [] => []
  | (k, v) :: rest => removalsAt path k v ++ removalsBeneath path rest

end

def removalsOf (patch : ConfigObject) : List Removal :=
  removalsBeneath [] patch.members

def removalFor (section_ key : String) : Removal :=
  ((splitOn '/' section_.toList).filter fun s => !s.isEmpty).map String.ofList ++ [key]

/-- The object a path of segments leads to, with objects made on the way; none is
the error that `Object.prototype` cannot be given a prototype. -/
def makePath : Heap -> Ref -> List String -> Option (Heap × Ref)
  | h, node, [] => some (h, node)
  | h, node, segment :: rest =>
      match h.read node segment with
      | JsValue.reference next => makePath h next rest
      | _ =>
          if segment = protoKey then none
          else makePath (h.write node segment (object [])) (node.child segment) rest

def putRow (h : Heap) (row : EffectiveRow) : Option Heap :=
  match row.value with
  | none => some h
  | some text =>
      let path := removalFor row.section_ row.key
      (makePath h documentRef path.dropLast).map fun r =>
        r.1.write r.2 (lastOf path) (Json.string text)

/-- The settings rows put in force, as one config document. -/
def configFromRows (rows : List EffectiveRow) : Option (List Member) :=
  (rows.foldlM putRow emptyHeap).map Heap.document

/-- A setting of a document. -/
structure LeafEntry where
  path : Removal
  value : String
deriving DecidableEq

mutual

def leavesAt (path : List String) (k : String) : Json -> List LeafEntry
  | Json.null => []
  | Json.object members => leavesBeneath (path ++ [k]) members
  | v => [{ path := path ++ [k], value := render v }]

def leavesBeneath (path : List String) : List Member -> List LeafEntry
  | [] => []
  | (k, v) :: rest => leavesAt path k v ++ leavesBeneath path rest

end

def leafId (path : List String) : String :=
  rowId (sectionOf path.dropLast) (lastOf path)

/-- `Map<string, { path, value }>` -/
abbrev Leaves : Type := List (String × LeafEntry)

def leaves (config : List Member) : Leaves :=
  (leavesBeneath [] config).foldl (fun out l => mapSet (leafId l.path) l out) []

mutual

def pruneAt : Json -> Json
  | Json.object members => Json.object (pruneEmpty members)
  | v => v

/-- Drop objects left with nothing in them. -/
def pruneEmpty : List Member -> List Member
  | [] => []
  | (k, v) :: rest =>
      match pruneAt v with
      | Json.object [] => pruneEmpty rest
      | pruned => (k, pruned) :: pruneEmpty rest

end

def isPrefix (p q : Removal) : Bool :=
  p.isPrefixOf q

/-- Set a value where nothing is yet. -/
def put : Heap -> Ref -> List String -> Json -> Heap
  | h, _, [], _ => h
  | h, node, [last], value =>
      match h.read node last with
      | JsValue.undefined => h.write node last value
      | _ => h
  | h, node, segment :: rest, value =>
      match h.read node segment with
      | JsValue.undefined =>
          put (h.write node segment (object [])) (node.child segment) rest value
      | JsValue.reference next => put h next rest value
      | _ => h

def inForce (has_ : Leaves) (r : Removal) : Bool :=
  !has_.any fun w => isPrefix r w.2.path

/-- What the new configuration adds or changes. -/
def changedLeaves (had has_ : Leaves) : List LeafEntry :=
  (has_.filter fun w => (had.lookup w.1).map LeafEntry.value != some w.2.value).map Prod.snd

def covered (had has_ : Leaves) (kept : List Removal) : List String :=
  (kept.filter fun r => inForce has_ r).flatMap fun r =>
    (had.filter fun b => isPrefix r b.2.path).map Prod.fst

def droppedLeaves (had has_ : Leaves) (kept : List Removal) : List LeafEntry :=
  (had.filter fun b =>
    !has_.any (fun w => w.1 == b.1) && !(covered had has_ kept).contains b.1).map Prod.snd

def puts (had has_ : Leaves) (kept : List Removal) : List (Removal × Json) :=
  ((changedLeaves had has_).map fun w => (w.path, Json.string w.value)) ++
    ((kept.filter fun r => inForce has_ r).map fun r => (r, Json.null)) ++
      (droppedLeaves had has_ kept).map fun b => (b.path, Json.null)

def overrideDiff (base working : List Member) (kept : List Removal) : List Member :=
  let patch := (puts (leaves base) (leaves working) kept).foldl (fun h p =>
    put h documentRef p.1 p.2) emptyHeap
  pruneEmpty patch.document

end Web
end FleetServer
