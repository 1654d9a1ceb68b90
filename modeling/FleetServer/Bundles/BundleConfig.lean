import FleetServer.Bundles.Upload

/-!
# What a stored bundle says

The template its manifest names, and the answer of `get_config` once the bundle's row
and bytes were found.
-/

namespace FleetServer
namespace Bundles

open FleetServer.Core
open Server

variable (deps : Deps)

/-!
# The manifest
-/

def trimBlanks (text : List Char) : List Char :=
  ((text.dropWhile isWhitespace).reverse.dropWhile isWhitespace).reverse

def stripReturn (line : List Char) : List Char :=
  if line.getLast? = some '\r' then line.dropLast else line

/-- `str::lines` -/
def textLines (text : List Char) : List (List Char) :=
  let parts := text.splitOn '\n'
  let last := parts.getLastD []
  parts.dropLast.map stripReturn ++ (if last.isEmpty then [] else [last])

def stripFront (front text : List Char) : Option (List Char) :=
  if front.isPrefixOf text then some (text.drop front.length) else none

def stripBack (back : Char) (text : List Char) : Option (List Char) :=
  if text.getLast? = some back then some text.dropLast else none

def templateOfLine (line : List Char) : Option String := do
  let rest ← stripFront "template".toList (trimBlanks line)
  let value ← stripFront ['='] (rest.dropWhile isWhitespace)
  let value ← stripFront ['"'] (trimBlanks value)
  let value ← stripBack '"' value
  if Hosts.validBundleToken (String.ofList value) then some (String.ofList value) else none

def templateFromManifest (bytes : Bytes) : Option String :=
  (Deps.fromUtf8 bytes).bind fun text => (textLines text.toList).findSome? templateOfLine

/-!
# The configuration view
-/

structure BundleContents where
  configJson : Json
  scripts : List String
  template : Option String

def contentsStep (c : BundleContents) (e : String × Bytes) : Except String BundleContents :=
  if e.1 = "bundle.toml" then Except.ok { c with template := templateFromManifest e.2 }
  else if e.1 = "config.json" then
    match deps.parseJsonBytes e.2 with
    | Except.ok v => Except.ok { c with configJson := v }
    | Except.error err => Except.error ("bundle config.json is invalid JSON: " ++ err)
  else if isScript e.1 && e.1.toList.getLast? != some '/' then
    Except.ok { c with scripts := c.scripts ++ [e.1] }
  else Except.ok c

def emptyContents : BundleContents where
  configJson := Json.object []
  scripts := []
  template := none

def getConfig (bytes : Bytes) : Except Response BundleContents :=
  match readZipEntries deps bytes with
  | Except.error e => Except.error (Response.error 409 ("bundle is not a readable zip: " ++ e))
  | Except.ok entries =>
      match entries.foldlM (contentsStep deps) emptyContents with
      | Except.error e => Except.error (Response.error 409 e)
      | Except.ok c =>
          Except.ok { c with scripts := c.scripts.insertionSort fun a b => a ≤ b }

end Bundles
end FleetServer
