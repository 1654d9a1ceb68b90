import FleetServer.Hosts.ConfigApi

/-!
# Bundle archives

The manifest and the paths of a bundle zip, and the reading of an archive under
limits that its maker does not control.
-/

namespace FleetServer
namespace Bundles

open FleetServer.Core
open Server

variable (deps : Deps)

def manifestToml (name version : String) (template : Option String) : String :=
  "name = \"" ++ name ++ "\"\nversion = \"" ++ version ++ "\"\nschema_version = 1\n" ++
    (match template with
      | some t => "template = \"" ++ t ++ "\"\n"
      | none => "")

def maxScriptFiles : Nat := 500

/-- A path below `scripts/` that needs no quoting. -/
def validScriptPath (path : String) : Bool :=
  if !"scripts/".toList.isPrefixOf path.toList then false
  else
    let segments := (path.toList.drop "scripts/".length).splitOn '/'
    decide (byteLen path ≤ 256) && decide (segments.length ≤ 8) &&
      segments.all fun s =>
        !s.isEmpty && s != ['.'] && s != ['.', '.'] && s.all Hosts.isTokenChar

/-- `b` lies below the folder `a`. -/
def isBelow (a b : String) : Bool :=
  (a.toList ++ ['/']).isPrefixOf b.toList

/-- Another of `paths` that `path` cannot sit beside. -/
def pathClash (path : String) (paths : List String) : Option String :=
  let lower := toAsciiLowercase path
  paths.find? fun other =>
    let o := toAsciiLowercase other
    other != path && (o == lower || isBelow lower o || isBelow o lower)

def maxInflatedTotal : Nat := 512 * 1024 * 1024
def maxZipEntries : Nat := 10000

/-- A name the library would rewrite rather than refuse. -/
def isAbsolute (rawName : String) : Bool :=
  match rawName.toList with
  | '/' :: _ => true
  | '\\' :: _ => true
  | d :: ':' :: _ => isAsciiAlphanumeric d && !isAsciiDigit d
  | _ => false

/-- One entry's name and data, and what is left of the budget. -/
def readEntry (budget : Nat) (e : ZipEntry) :
    Except String (Option (String × Bytes) × Nat) :=
  if e.isDir then Except.ok (none, budget)
  else
    match if isAbsolute e.rawName then none else e.enclosedName with
    | none => Except.error ("bundle entry " ++ deps.debugStr e.rawName ++ " escapes the archive")
    | some components =>
        let name := String.intercalate "/" components
        if name.isEmpty then Except.ok (none, budget)
        else if budget < e.data.length then
          Except.error ("bundle expands past " ++ toString (budget / (1024 * 1024)) ++ " MiB")
        else Except.ok (some (name, e.data), budget - e.data.length)

def readEntries (budget : Nat) : List ZipEntry -> Except String (List (String × Bytes))
  | [] => Except.ok []
  | e :: rest => do
      let (entry, budget) ← readEntry deps budget e
      let entries ← readEntries budget rest
      return entry.toList ++ entries

/-- The entries of a bundle zip, within the limits. -/
def readZipEntries (bytes : Bytes) : Except String (List (String × Bytes)) := do
  let entries ← deps.readZip bytes
  if maxZipEntries < entries.length then
    Except.error ("bundle declares " ++ toString entries.length ++ " entries (limit " ++
      toString maxZipEntries ++ ")")
  else readEntries deps maxInflatedTotal entries

/-- A composed bundle's zip, stamped with the time it is made at. -/
def buildComposed (now : Int) (manifest config : String) (carried : List (String × Bytes)) :
    Option Bytes :=
  deps.buildZip (some now)
    (("bundle.toml", utf8 manifest) :: ("config.json", utf8 config) :: carried)

/-- The entries exactly as given, with every timestamp fixed. -/
def buildZipFromEntries (entries : List (String × Bytes)) : Option Bytes :=
  deps.buildZip none entries

end Bundles
end FleetServer
