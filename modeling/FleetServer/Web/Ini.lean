import FleetServer.Web.Crypto
import FleetServer.Web.Layers
import Mathlib.Data.List.Lex

/-!
# Between INI and JSON

`config/ini.ts`: the text the bundle editor shows for a configuration, and the
configuration it reads back.
-/

namespace FleetServer
namespace Web

open FleetServer.Core
open Core.Json

def formatValue (v : Json) : String :=
  render v

/-!
# Writing
-/

/-- `Map<string, Map<string, string>>` -/
abbrev Sections : Type := List (String × List (String × String))

def addLine (path key : String) (value : Json) (sections : Sections) : Sections :=
  let section_ := if path = "" then "/" else path
  let entries := (sections.lookup section_).getD []
  mapSet section_ (mapSet key (formatValue value) entries) sections

mutual

def collectAt (path : String) (sections : Sections) (key : String) : Json -> Sections
  | Json.null => sections
  | Json.object members => collect (path ++ "/" ++ key) sections members
  | v => addLine path key v sections

def collect (path : String) (sections : Sections) : List Member -> Sections
  | [] => sections
  | (key, v) :: rest => collect path (collectAt path sections key v) rest

end

def codeUnits (c : Char) : List Nat :=
  if c.toNat < 65536 then [c.toNat]
  else [55296 + (c.toNat - 65536) / 1024, 56320 + (c.toNat - 65536) % 1024]

def utf16 (s : String) : List Nat :=
  s.toList.flatMap codeUnits

/-- `Array.prototype.sort` of strings. -/
def sortStrings (xs : List String) : List String :=
  xs.insertionSort fun a b => utf16 a ≤ utf16 b

def sectionLines (section_ : String) (entries : List (String × String)) : List String :=
  ("[" ++ section_ ++ "]") ::
    (sortStrings (entries.map Prod.fst)).map fun key =>
      key ++ "=" ++ (entries.lookup key).getD ""

def iniLines (sections : Sections) : List String :=
  (sortStrings (sections.map Prod.fst)).foldl (fun lines section_ =>
    (if lines.isEmpty then lines else lines ++ [""]) ++
      sectionLines section_ ((sections.lookup section_).getD [])) []

def jsonToIni (config : List Member) : String :=
  let lines := iniLines (collect "" [] config)
  String.intercalate "\n" lines ++ (if lines.isEmpty then "" else "\n")

/-!
# Reading
-/

structure IniParseError where
  line : Nat
  message : String
deriving DecidableEq

/-- `text.split(/\r?\n/)` -/
def splitLines : List Char -> List (List Char)
  | [] => [[]]
  | '\r' :: '\n' :: rest => [] :: splitLines rest
  | '\n' :: rest => [] :: splitLines rest
  | c :: rest =>
      match splitLines rest with
      | [] => [[c]]
      | line :: lines => (c :: line) :: lines

/-- `text.split(sep)` -/
def splitOn (sep : Char) : List Char -> List (List Char)
  | [] => [[]]
  | c :: rest =>
      if c = sep then [] :: splitOn sep rest
      else
        match splitOn sep rest with
        | [] => [[c]]
        | part :: parts => (c :: part) :: parts

/-- `text.trim()` -/
def trimChars (text : List Char) : List Char :=
  ((text.dropWhile isSpace).reverse.dropWhile isSpace).reverse

/-- The document read so far, and the segments of the current section. -/
structure IniState where
  heap : Heap
  current : Option (List String)

def sectionObject (line : Nat) : Heap -> Ref -> List String -> Except IniParseError (Heap × Ref)
  | h, node, [] => Except.ok (h, node)
  | h, node, segment :: rest =>
      match h.read node segment with
      | JsValue.undefined =>
          sectionObject line (h.write node segment (object [])) (node.child segment) rest
      | JsValue.reference existing => sectionObject line h existing rest
      | _ =>
          Except.error
            { line := line
              message := "section path segment \"" ++ segment
                ++ "\" collides with a value of the same name" }

def headerSegments (line : List Char) : List (List Char) :=
  (splitOn '/' (trimChars (line.drop 1).dropLast)).filter fun s => !s.isEmpty

def readHeader (lineNo : Nat) (line : List Char) (state : IniState) :
    Except IniParseError IniState :=
  if line.getLast? ≠ some ']' then
    Except.error { line := lineNo, message := "unterminated section header" }
  else if (headerSegments line).any fun s => (trimChars s).isEmpty then
    Except.error { line := lineNo, message := "empty section path segment" }
  else
    let segments := (headerSegments line).map String.ofList
    match sectionObject lineNo state.heap documentRef segments with
    | Except.error e => Except.error e
    | Except.ok (h, _) => Except.ok { heap := h, current := some segments }

def setKey (lineNo : Nat) (key value : String) (state : IniState) (h : Heap) (target : Ref) :
    Except IniParseError IniState :=
  match h.read target key with
  | JsValue.reference _ =>
      Except.error
        { line := lineNo
          message := "key \"" ++ key ++ "\" collides with a section of the same name" }
  | JsValue.undefined =>
      Except.ok { state with heap := h.write target key (Json.string value) }
  | _ =>
      Except.error
        { line := lineNo
          message := "duplicate key \"" ++ key ++ "\" in this section" }

def readEntry (lineNo : Nat) (line : List Char) (state : IniState) :
    Except IniParseError IniState :=
  let before := line.takeWhile fun c => c != '='
  let after := line.dropWhile fun c => c != '='
  if before.isEmpty || after.isEmpty then
    Except.error { line := lineNo, message := "expected \"key=value\" or \"[section]\"" }
  else
    let key := String.ofList (trimChars before)
    let value := String.ofList (trimChars (after.drop 1))
    if key = "" then Except.error { line := lineNo, message := "empty key" }
    else
      match sectionObject lineNo state.heap documentRef (state.current.getD []) with
      | Except.error e => Except.error e
      | Except.ok (h, target) => setKey lineNo key value state h target

def readLine (lineNo : Nat) (raw : List Char) (state : IniState) :
    Except IniParseError IniState :=
  let line := trimChars raw
  if line.isEmpty || line.head? == some ';' || line.head? == some '#' then Except.ok state
  else if line.head? == some '[' then readHeader lineNo line state
  else readEntry lineNo line state

def readLines : Nat -> List (List Char) -> IniState -> Except IniParseError IniState
  | _, [], state => Except.ok state
  | lineNo, raw :: rest, state =>
      match readLine lineNo raw state with
      | Except.error e => Except.error e
      | Except.ok state => readLines (lineNo + 1) rest state

def iniToJson (text : String) : Except IniParseError (List Member) :=
  match readLines 1 (splitLines text.toList) { heap := emptyHeap, current := none } with
  | Except.error e => Except.error e
  | Except.ok state => Except.ok state.heap.document

end Web
end FleetServer
