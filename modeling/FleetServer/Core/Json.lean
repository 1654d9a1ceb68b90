import FleetServer.Core.Text

/-!
# JSON values

A number is kept as the text it is printed as.  An object lists its members in
key order, each key once.
-/

namespace FleetServer
namespace Core

inductive Json where
  | null
  | bool (b : Bool)
  | number (text : String)
  | string (s : String)
  | array (items : List Json)
  | object (members : List (String × Json))
deriving Inhabited

namespace Json

def isNull : Json -> Bool
  | null => true
  | _ => false

def isObject : Json -> Bool
  | object _ => true
  | _ => false

def asString : Json -> Option String
  | string s => some s
  | _ => none

/-- The value under a key; `none` on anything but an object. -/
def get (v : Json) (key : String) : Option Json :=
  match v with
  | object members => members.lookup key
  | _ => none

def hex4 (n : Nat) : List Char :=
  [hexDigit (n / 4096 % 16), hexDigit (n / 256 % 16), hexDigit (n / 16 % 16),
    hexDigit (n % 16)]

def escapeChar (c : Char) : List Char :=
  match c.toNat with
  | 0x22 => ['\\', '"']
  | 0x5C => ['\\', '\\']
  | 0x08 => ['\\', 'b']
  | 0x09 => ['\\', 't']
  | 0x0A => ['\\', 'n']
  | 0x0C => ['\\', 'f']
  | 0x0D => ['\\', 'r']
  | n => if n < 0x20 then '\\' :: 'u' :: hex4 n else [c]

def quote (s : String) : List Char :=
  '"' :: (s.toList.flatMap escapeChar ++ ['"'])

def commaSeparated (parts : List (List Char)) : List Char :=
  (parts.intersperse [',']).flatten

def insertMember (m : String × List Char) :
    List (String × List Char) -> List (String × List Char)
  | [] => [m]
  | n :: rest => if m.1 ≤ n.1 then m :: n :: rest else n :: insertMember m rest

mutual

def writeCanonical : Json -> List Char
  | null => "null".toList
  | bool b => (if b then "true" else "false").toList
  | number text => text.toList
  | string s => quote s
  | array items => '[' :: (commaSeparated (writeItems items) ++ [']'])
  | object members =>
      '{' :: (commaSeparated
        ((writeMembers members).map fun m => quote m.1 ++ ':' :: m.2) ++ ['}'])

def writeItems : List Json -> List (List Char)
  | [] => []
  | v :: rest => writeCanonical v :: writeItems rest

def writeMembers : List (String × Json) -> List (String × List Char)
  | [] => []
  | (key, v) :: rest => insertMember (key, writeCanonical v) (writeMembers rest)

end

def canonicalString (v : Json) : String :=
  String.ofList (writeCanonical v)

end Json

end Core
end FleetServer
