import FleetServer.Bundles.Archive

/-!
# The configuration directory

What the directory looks like on disk, and how it is read into the groups and
bundles it holds.  Every problem found is reported, not just the first.
-/

namespace FleetServer
namespace ConfigSource

open FleetServer.Core
open Server
open Bundles (maxInflatedTotal maxZipEntries)
open Hosts (validBundleToken)

variable (deps : Deps)

/-- What a directory entry is; nothing else is followed. -/
inductive Node where
  | file (bytes : Bytes)
  | dir (entries : List (String × Node))
  | other

abbrev Entries : Type := List (String × Node)

def Node.isDir : Node -> Bool
  | dir _ => true
  | _ => false

inductive BundleContents where
  /-- Files by path, sorted by path. -/
  | tree (files : List (String × Bytes))
  | plainBlob (bytes : Bytes)
  | encrypted (bytes : Bytes)

structure BundleSpec where
  name : String
  version : String
  contents : BundleContents

structure GroupSpec where
  name : String
  /-- The selector as the database stores it. -/
  selectorJson : String
  bundles : List GroupBundleRef

structure Spec where
  bundles : List BundleSpec
  groups : List GroupSpec

def groupsDir : String := "groups"
def bundlesDir : String := "bundles"
def plainBlobExt : String := "zip"
def encryptedExt : String := "nseb"

/-!
# Directories and files
-/

/-- The entries by name, sorted, without dot-names. -/
def listDir (entries : Entries) : Entries :=
  (entries.filter fun e => e.1.toList.head? != some '.').insertionSort
    (fun a b => a.1 ≤ b.1)

def mebibytes (n : Nat) : String :=
  toString (n / (1024 * 1024))

def notRegular (shown : String) : String :=
  shown ++ ": not a regular file (links are not followed)"

def readFile (shown : String) : Node -> Except String Bytes
  | Node.file bytes =>
      if maxInflatedTotal < bytes.length then
        Except.error (shown ++ ": larger than " ++ mebibytes maxInflatedTotal ++ " MiB")
      else Except.ok bytes
  | _ => Except.error (notRegular shown)

structure TreeRead where
  files : List (String × Bytes)
  budget : Nat

def readTreeFile (shown rel : String) (bytes : Bytes) (acc : TreeRead) :
    Except String TreeRead :=
  if maxZipEntries ≤ acc.files.length then
    Except.error (shown ++ ": more than " ++ toString maxZipEntries ++ " files")
  else if acc.budget < bytes.length then
    Except.error (shown ++ ": larger than " ++ mebibytes maxInflatedTotal ++ " MiB in total")
  else
    Except.ok { files := (rel, bytes) :: acc.files, budget := acc.budget - bytes.length }

def relative (pre name : String) : String :=
  if pre.isEmpty then name else pre ++ "/" ++ name

mutual

def readNode (shown rel : String) (acc : TreeRead) : Node -> Except String TreeRead
  | Node.file bytes => readTreeFile shown rel bytes acc
  | Node.dir entries => readNodes shown rel acc entries
  | Node.other => Except.error (notRegular (shown ++ "/" ++ rel))

def readNodes (shown pre : String) (acc : TreeRead) :
    List (String × Node) -> Except String TreeRead
  | [] => Except.ok acc
  | (name, node) :: rest => do
      let acc ← readNode shown (relative pre name) acc node
      readNodes shown pre acc rest

end

def checkConfig (shown : String) (files : List (String × Bytes)) : Except String Unit :=
  match files.find? fun f => f.1 == "config.json" with
  | none => Except.ok ()
  | some f =>
      match deps.parseJsonBytes f.2 with
      | Except.ok v =>
          if v.isObject then Except.ok ()
          else Except.error (shown ++ "/config.json: must be a JSON object")
      | Except.error e => Except.error (shown ++ "/config.json: " ++ e)

def sortByPath (files : List (String × Bytes)) : List (String × Bytes) :=
  files.insertionSort (fun a b => a.1 ≤ b.1)

/-- Every file of a version directory, by path. -/
def readTree (shown : String) (entries : Entries) : Except String (List (String × Bytes)) := do
  let read ← readNodes shown "" { files := [], budget := maxInflatedTotal } entries
  if read.files.isEmpty then
    Except.error (shown ++ ": the version directory is empty")
  else
    checkConfig deps shown read.files
    return sortByPath read.files

/-!
# Bundles
-/

def stripExt (ext name : String) : Option String :=
  let suffix := '.' :: ext.toList
  if suffix.isSuffixOf name.toList then
    some (String.ofList (name.toList.take (name.toList.length - suffix.length)))
  else none

def readVersion (shown entry : String) (node : Node) :
    Except String (String × BundleContents) :=
  match node with
  | Node.dir entries => do
      let files ← readTree deps shown entries
      return (entry, BundleContents.tree files)
  | node =>
      match stripExt plainBlobExt entry, stripExt encryptedExt entry with
      | some v, _ => do
          let bytes ← readFile shown node
          return (v, BundleContents.plainBlob bytes)
      | none, some v => do
          let bytes ← readFile shown node
          return (v, BundleContents.encrypted bytes)
      | none, none =>
          Except.error (shown ++ ": expected a version directory, <version>." ++
            plainBlobExt ++ " or <version>." ++ encryptedExt)

/-- A version that may stand beside the ones read so far. -/
def checkVersion (shown : String) (seen : List (String × BundleContents))
    (v : String × BundleContents) : Except String (String × BundleContents) :=
  if !validBundleToken v.1 then
    Except.error (shown ++ ": versions are 1-128 letters, digits, '.', '_' or '-'")
  else if seen.any fun s => s.1 == v.1 then
    Except.error (shown ++ ": version " ++ v.1 ++ " is given more than once")
  else Except.ok v

def readVersions (shown : String) (errors : List String)
    (seen : List (String × BundleContents)) :
    Entries -> List String × List (String × BundleContents)
  | [] => (errors, seen)
  | (entry, node) :: rest =>
      let shownEntry := shown ++ "/" ++ entry
      match (readVersion deps shownEntry entry node).bind (checkVersion shownEntry seen) with
      | Except.ok v => readVersions shown errors (seen ++ [v]) rest
      | Except.error e => readVersions shown (errors ++ [e]) seen rest

def sortByVersion (versions : List (String × BundleContents)) :
    List (String × BundleContents) :=
  versions.insertionSort (fun a b => a.1 ≤ b.1)

def bundleSpec (name : String) (v : String × BundleContents) : BundleSpec :=
  { name := name, version := v.1, contents := v.2 }

def loadBundles (errors : List String) : Entries -> List String × List BundleSpec
  | [] => (errors, [])
  | (name, node) :: rest =>
      let shown := bundlesDir ++ "/" ++ name
      match node with
      | Node.dir entries =>
          if !validBundleToken name then
            loadBundles (errors ++
              [shown ++ ": bundle names are 1-128 letters, digits, '.', '_' or '-'"]) rest
          else
            let versions := readVersions deps shown errors [] (listDir entries)
            let others := loadBundles versions.1 rest
            (others.1, (sortByVersion versions.2).map (bundleSpec name) ++ others.2)
      | _ =>
          loadBundles (errors ++
            [shown ++ ": expected a directory per bundle, holding its versions"]) rest

/-!
# Groups
-/

def readGroupFile (shown file : String) (node : Node) : Except String GroupFile :=
  if !(".json".toList.isSuffixOf file.toList) || node.isDir then
    Except.error (shown ++ ": expected <group>.json files only")
  else do
    let bytes ← readFile shown node
    match deps.parseGroupFile bytes with
    | Except.ok g => return g
    | Except.error e => throw (shown ++ ": " ++ e)

/-- The group a file defines, beside the names defined so far. -/
def groupSpec (shown : String) (seen : List String) (g : GroupFile) :
    Except String GroupSpec :=
  let name := trim g.name
  if name.isEmpty || decide (128 < byteLen name) then
    Except.error (shown ++ ": name must be 1-128 characters")
  else if seen.contains name then
    Except.error (shown ++ ": another file already defines group " ++ deps.debugStr name)
  else
    match Selector.fromJson deps.decodeSelector g.selector with
    | Except.error e =>
        Except.error (shown ++ ": bad selector: " ++ e.message deps.debugStr)
    | Except.ok s =>
        Except.ok { name := name, selectorJson := deps.selectorToString s,
                    bundles := g.bundles }

def repeatedRefs (shown : String) (seen : List (String × String)) :
    List GroupBundleRef -> List String
  | [] => []
  | r :: rest =>
      if seen.contains (r.name, r.version) then
        (shown ++ ": " ++ r.name ++ "@" ++ r.version ++ " is assigned more than once") ::
          repeatedRefs shown seen rest
      else repeatedRefs shown ((r.name, r.version) :: seen) rest

/-- A trimmed name that passed the name check counts as seen even when the rest
of its file is wrong. -/
def seenAfter (seen : List String) (g : GroupFile) : List String :=
  let name := trim g.name
  if name.isEmpty || decide (128 < byteLen name) then seen else name :: seen

def loadGroups (errors seen : List String) : Entries -> List String × List GroupSpec
  | [] => (errors, [])
  | (file, node) :: rest =>
      let shown := groupsDir ++ "/" ++ file
      match readGroupFile deps shown file node with
      | Except.error e => loadGroups (errors ++ [e]) seen rest
      | Except.ok g =>
          match groupSpec deps shown seen g with
          | Except.error e => loadGroups (errors ++ [e]) (seenAfter seen g) rest
          | Except.ok spec =>
              let others := loadGroups (errors ++ repeatedRefs shown [] g.bundles)
                (seenAfter seen g) rest
              (others.1, spec :: others.2)

/-!
# load
-/

def unknownRefs (bundles : List BundleSpec) (g : GroupSpec) : List String :=
  (g.bundles.filter fun r =>
    !bundles.any fun b => b.name == r.name && b.version == r.version).map fun r =>
      "group " ++ deps.debugStr g.name ++ " assigns " ++ r.name ++ "@" ++ r.version ++
        ", which is not under " ++ bundlesDir ++ "/"

/-- A directory below the top one; anything but a directory is not there. -/
def subdir (name : String) (entries : Entries) : Option Entries :=
  match entries.lookup name with
  | some (Node.dir below) => some below
  | _ => none

def load (shown : String) (dir : Node) : Except (List String) Spec :=
  match dir with
  | Node.dir entries =>
      match subdir groupsDir entries, subdir bundlesDir entries with
      | none, none =>
          Except.error [shown ++ " has neither a " ++ groupsDir ++ "/ nor a " ++ bundlesDir ++
            "/ directory — refusing to treat it as an empty configuration"]
      | groups, bundles =>
          let b := loadBundles deps [] (listDir (bundles.getD []))
          let g := loadGroups deps b.1 [] (listDir (groups.getD []))
          let errors := g.1 ++ g.2.flatMap (unknownRefs deps b.2)
          if errors.isEmpty then Except.ok { bundles := b.2, groups := g.2 }
          else Except.error errors
  | _ => Except.error [shown ++ " is not a directory"]

end ConfigSource
end FleetServer
