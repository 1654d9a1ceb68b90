import FleetServer.Core.Selector

/-!
# Facts documents

Hashes as an agent sends them, the verification of an upload, and the diff of
two documents that is recorded as history.
-/

namespace FleetServer
namespace Core

def factsHashNone : String := "none"

/-- The hash of the empty document `{}`. -/
def emptyFactsHash : String :=
  "44136fa355b3678a1146ad16f7e8649e94fb4fc21fe77e8310c060f61caaff8a"

def maxCollectedAtLen : Nat := 64

def isAsciiHexdigit (c : Char) : Bool :=
  isAsciiDigit c || ('a' ≤ c && c ≤ 'f') || ('A' ≤ c && c ≤ 'F')

def toAsciiLowercase (s : String) : String :=
  s.map fun c => if 'A' ≤ c && c ≤ 'Z' then Char.ofNat (c.toNat + 32) else c

/-- A facts hash in lower case, if it is one. -/
def normalizeHash (h : String) : Option String :=
  if byteLen h = 64 ∧ h.toList.all isAsciiHexdigit then some (toAsciiLowercase h) else none

/-- A collection time as it is stored: trimmed, bounded, and not empty. -/
def clampCollectedAt (collectedAt : Option String) : Option String :=
  (collectedAt.map fun c => String.ofList ((trim c).toList.take maxCollectedAtLen)).filter
    fun c => !c.isEmpty

structure FactsUpload where
  factsHash : String
  collectedAt : Option String
  facts : String

inductive UploadError where
  | malformed (text : String)
  | badHash
  | notAnObject (declared : String)
  | hashMismatch (declared : String)
deriving DecidableEq

namespace UploadError

def message : UploadError -> String
  | malformed text => "body is not a facts upload: " ++ text
  | badHash => "facts_hash must be 64 hex characters"
  | notAnObject _ => "facts must be a JSON object"
  | hashMismatch _ => "facts_hash does not match the facts document"

/-- The hash the body declared, when it got far enough to say one. -/
def declaredHash : UploadError -> Option String
  | malformed _ => none
  | badHash => none
  | notAnObject h => some h
  | hashMismatch h => some h

end UploadError

def verifyUpload (sha256Hex : Bytes -> String) (factsHash : String)
    (collectedAt : Option String) (facts : String) : Except UploadError FactsUpload :=
  match normalizeHash factsHash with
  | none => Except.error UploadError.badHash
  | some hash =>
      if facts.toList.head? ≠ some '{' then Except.error (UploadError.notAnObject hash)
      else if sha256Hex (utf8 facts) ≠ hash then Except.error (UploadError.hashMismatch hash)
      else
        Except.ok
          { factsHash := hash, collectedAt := clampCollectedAt collectedAt, facts := facts }

/-!
# Spelling paths
-/

namespace FactPath

def withinLimit (path : String) : Option String :=
  if byteLen path ≤ maxFactPathLen then some path else none

/-- How the path to `key` under `parent` is written, if it can be. -/
def child (parent key : String) (inRecord : Bool) : Option String :=
  if key.isEmpty then none
  else if key.toList.any isKeyEnd then
    if parent.isEmpty || inRecord || key.toList.contains ']' then none
    else withinLimit (parent ++ "[" ++ key ++ "]")
  else if parent.isEmpty then withinLimit key
  else withinLimit (parent ++ "." ++ key)

/-- How the path to the record `id` of the list at `parent` is written. -/
def pickPath (parent id : String) : Option String :=
  if parent.isEmpty || id.isEmpty || id.toList.contains ']' then none
  else withinLimit (parent ++ "[" ++ id ++ "]")

end FactPath

/-!
# Differences
-/

/-- Floats are compared by value, and `-0.0` is the one that has another text, too. -/
def unsignedZero (text : String) : String :=
  if text = "-0.0" then "0.0" else text

mutual

/-- Equality of two values, members in their stored order. -/
def Json.same : Json -> Json -> Bool
  | Json.null, Json.null => true
  | Json.bool a, Json.bool b => a == b
  | Json.number a, Json.number b => unsignedZero a == unsignedZero b
  | Json.string a, Json.string b => a == b
  | Json.array xs, Json.array ys => Json.sameItems xs ys
  | Json.object xs, Json.object ys => Json.sameMembers xs ys
  | _, _ => false

def Json.sameItems : List Json -> List Json -> Bool
  | [], [] => true
  | x :: xs, y :: ys => Json.same x y && Json.sameItems xs ys
  | _, _ => false

def Json.sameMembers : List (String × Json) -> List (String × Json) -> Bool
  | [], [] => true
  | (k, x) :: xs, (l, y) :: ys => k == l && Json.same x y && Json.sameMembers xs ys
  | _, _ => false

end

inductive ChangeKind where
  | added
  | removed
  | changed
deriving DecidableEq

structure FactChange where
  path : String
  kind : ChangeKind
  old : Option Json
  new : Option Json

structure FactsDiff where
  changes : List FactChange
  truncated : Nat

def FactsDiff.isEmpty (d : FactsDiff) : Bool :=
  d.changes.isEmpty && d.truncated == 0

def maxShownString : Nat := 200
def maxShownList : Nat := 16

/-- A string cut to `max` characters, with an ellipsis marking the cut. -/
def clipTo (s : String) (max : Nat) : String :=
  if s.toList.length ≤ max then s else String.ofList (s.toList.take max ++ ['…'])

def clip (s : String) : String :=
  clipTo s maxShownString

def isScalar : Json -> Bool
  | Json.array _ => false
  | Json.object _ => false
  | _ => true

def clipItem : Json -> Json
  | Json.string s => Json.string (clip s)
  | other => other

/-- The value as it is worth showing in a change. -/
def shown : Json -> Option Json
  | Json.string s => some (Json.string (clip s))
  | Json.array items =>
      if items.length ≤ maxShownList ∧ items.all isScalar then
        some (Json.array (items.map clipItem))
      else none
  | Json.object _ => none
  | scalar => some scalar

/-- The ids of a list of records: every element an object with a string `id`,
unique in the list. -/
def recordIds (items : List Json) : Option (List String) := do
  let ids ← items.mapM fun v =>
    if v.isObject then (v.get "id").bind Json.asString else none
  if ids.Nodup then some ids else none

structure Differ where
  out : FactsDiff
  max : Nat
  /-- Parents already reported for a change that has no path of its own. -/
  atParent : List String

namespace Differ

def push (d : Differ) (path : String) (kind : ChangeKind) (old new : Option Json) : Differ :=
  if d.max ≤ d.out.changes.length then
    { d with out := { d.out with truncated := d.out.truncated + 1 } }
  else
    let change : FactChange :=
      { path := path, kind := kind, old := old.bind shown, new := new.bind shown }
    { d with out := { d.out with changes := d.out.changes ++ [change] } }

/-- Report a parent as changed, once. -/
def changedBeneath (d : Differ) (path : String) : Differ :=
  if d.atParent.contains path then d
  else { d with atParent := path :: d.atParent }.push path ChangeKind.changed none none

end Differ

def byId (ids : List String) (items : List Json) (id : String) : Option Json :=
  (ids.zip items).reverse.lookup id

def sameOption : Option Json -> Option Json -> Bool
  | none, none => true
  | some a, some b => a.same b
  | _, _ => false

def removedRecord (path : String) (d : Differ) (r : String × Json) : Differ :=
  match FactPath.pickPath path r.1 with
  | some p => d.push p ChangeKind.removed (some r.2) none
  | none => d.changedBeneath path

/-- Walk two values.  `fuel` bounds the depth of the walk. -/
def diffValue : Nat -> String -> Json -> Json -> Differ -> Differ
  | 0, _, _, _, d => d
  | fuel + 1, path, old, new, d =>
      match old, new with
      | Json.object o, Json.object n =>
          (sortedSet (o.map Prod.fst ++ n.map Prod.fst)).foldl (fun d k =>
            match FactPath.child path k false with
            | none =>
                if sameOption (o.lookup k) (n.lookup k) then d else d.changedBeneath path
            | some p =>
                match o.lookup k, n.lookup k with
                | some ov, some nv => diffValue fuel p ov nv d
                | some ov, none => d.push p ChangeKind.removed (some ov) none
                | none, some nv => d.push p ChangeKind.added none (some nv)
                | none, none => d) d
      | Json.array o, Json.array n =>
          match recordIds o, recordIds n with
          | some oi, some ni =>
              let d := ((oi.zip o).filter fun r => !ni.contains r.1).foldl
                (removedRecord path) d
              (ni.zip n).foldl (fun d r =>
                match FactPath.pickPath path r.1 with
                | none =>
                    if sameOption (byId oi o r.1) (some r.2) then d else d.changedBeneath path
                | some p =>
                    match byId oi o r.1 with
                    | some ov => diffValue fuel p ov r.2 d
                    | none => d.push p ChangeKind.added none (some r.2)) d
          | _, _ =>
              if old.same new then d
              else d.push path ChangeKind.changed (some old) (some new)
      | _, _ =>
          if old.same new then d else d.push path ChangeKind.changed (some old) (some new)

mutual

/-- How deeply a value is nested. -/
def Json.depth : Json -> Nat
  | Json.array items => Json.depthItems items + 1
  | Json.object members => Json.depthMembers members + 1
  | _ => 0

def Json.depthItems : List Json -> Nat
  | [] => 0
  | v :: rest => max (Json.depth v) (Json.depthItems rest)

def Json.depthMembers : List (String × Json) -> Nat
  | [] => 0
  | (_, v) :: rest => max (Json.depth v) (Json.depthMembers rest)

end

/-- The differences from `old` to `new`, at most `maxChanges` of them listed. -/
def diff (old new : Json) (maxChanges : Nat) : FactsDiff :=
  (diffValue (old.depth + 1) "" old new
    { out := { changes := [], truncated := 0 }, max := maxChanges, atParent := [] }).out

/-!
# History entries
-/

def keepHistory : Int := 100
def maxChangesPerEntry : Nat := 200

structure HistoryEntry where
  initial : Bool
  diff : FactsDiff

/-- What to record about replacing `previous` with `document`, if anything. -/
def historyEntryOf (parse : String -> Option Json) (previous : Option String)
    (document : Json) : Option HistoryEntry :=
  match previous with
  | none =>
      match document with
      | Json.object [] => none
      | _ => some { initial := true, diff := { changes := [], truncated := 0 } }
  | some text =>
      let d := diff ((parse text).getD (Json.object [])) document maxChangesPerEntry
      if d.isEmpty then none else some { initial := false, diff := d }

end Core
end FleetServer
