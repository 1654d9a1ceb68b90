import FleetServer.Core.Merge

/-!
# JSON as it is written

The grammar of a JSON text, read once for the parsers of both sides.  The reader keeps
what parsers differ in: how the numbers are spelled, how deep the values are nested, and
whether an escape stands for half of a character.
-/

namespace FleetServer
namespace Core

/-- A JSON text, with every number of the value as it is spelled. -/
structure JsonText where
  value : Json
  /-- The arrays and objects that are open at the deepest place. -/
  depth : Nat
  /-- Every number, those included that a later member of the same name replaces. -/
  numbers : List String
  /-- No escape is half of a surrogate pair. -/
  paired : Bool

namespace JsonText

def isBlank (c : Char) : Bool :=
  c == ' ' || c == '\t' || c == '\n' || c == '\r'

/-!
# Strings
-/

def hexValue (c : Char) : Option Nat :=
  if isAsciiDigit c then some (c.toNat - 48)
  else if 'a' ≤ c && c ≤ 'f' then some (c.toNat - 87)
  else if 'A' ≤ c && c ≤ 'F' then some (c.toNat - 55)
  else none

/-- `\uXXXX` -/
def hexUnit (digits : List Char) : Option Nat :=
  (digits.mapM hexValue).map fun values => values.foldl (fun n v => 16 * n + v) 0

def escaped (c : Char) : Option Nat :=
  match c with
  | '"' => some 0x22
  | '\\' => some 0x5C
  | '/' => some 0x2F
  | 'b' => some 0x08
  | 'f' => some 0x0C
  | 'n' => some 0x0A
  | 'r' => some 0x0D
  | 't' => some 0x09
  | _ => none

/-- What follows an opening quote: characters, and halves of them, up to the next. -/
def readUnits : List Char -> Option (List Nat × List Char)
  | [] => none
  | '"' :: rest => some ([], rest)
  | '\\' :: 'u' :: a :: b :: c :: d :: rest => do
      let unit ← hexUnit [a, b, c, d]
      let (units, rest) ← readUnits rest
      return (unit :: units, rest)
  | '\\' :: c :: rest => do
      let unit ← escaped c
      let (units, rest) ← readUnits rest
      return (unit :: units, rest)
  | c :: rest => do
      if c == '\\' || c.toNat < 0x20 then none
      let (units, rest) ← readUnits rest
      return (c.toNat :: units, rest)

def isHigh (unit : Nat) : Bool :=
  0xD800 ≤ unit && unit < 0xDC00

def isLow (unit : Nat) : Bool :=
  0xDC00 ≤ unit && unit < 0xE000

def joinUnits : List Nat -> List Char × Bool
  | [] => ([], true)
  | [unit] => if isHigh unit || isLow unit then (['\uFFFD'], false) else ([Char.ofNat unit], true)
  | high :: low :: rest =>
      if isHigh high && isLow low then
        let (chars, paired) := joinUnits rest
        (Char.ofNat (0x10000 + (high - 0xD800) * 0x400 + (low - 0xDC00)) :: chars, paired)
      else
        let (chars, paired) := joinUnits (low :: rest)
        if isHigh high || isLow high then ('\uFFFD' :: chars, false)
        else (Char.ofNat high :: chars, paired)

def readString (text : List Char) : Option (String × Bool × List Char) := do
  let (units, rest) ← readUnits text
  let (chars, paired) := joinUnits units
  return (String.ofList chars, paired, rest)

/-!
# Numbers
-/

/-- `(\.[0-9]+)?` -/
def readFraction (text : List Char) : Option (List Char × List Char) :=
  match text with
  | '.' :: rest =>
      let digits := rest.takeWhile isAsciiDigit
      if digits.isEmpty then none else some ('.' :: digits, rest.dropWhile isAsciiDigit)
  | _ => some ([], text)

/-- `([eE][+-]?[0-9]+)?` -/
def readExponent (text : List Char) : Option (List Char × List Char) :=
  match text with
  | [] => some ([], [])
  | c :: rest =>
      if c == 'e' || c == 'E' then
        let sign := (rest.take 1).filter fun s => s == '+' || s == '-'
        let rest := rest.drop sign.length
        let digits := rest.takeWhile isAsciiDigit
        if digits.isEmpty then none
        else some (c :: (sign ++ digits), rest.dropWhile isAsciiDigit)
      else some ([], text)

/-- `-?(0|[1-9][0-9]*)`, then a fraction and an exponent. -/
def readNumber (text : List Char) : Option (String × List Char) := do
  let sign := (text.take 1).filter fun s => s == '-'
  let rest := text.drop sign.length
  let whole := rest.takeWhile isAsciiDigit
  if whole.isEmpty || (whole.head? == some '0' && whole.length != 1) then none
  let (fraction, rest) ← readFraction (rest.dropWhile isAsciiDigit)
  let (exponent, rest) ← readExponent rest
  return (String.ofList (sign ++ whole ++ fraction ++ exponent), rest)

/-!
# Values
-/

def plain (value : Json) : JsonText where
  value := value
  depth := 0
  numbers := []
  paired := true

def emptyArray : JsonText := { plain (Json.array []) with depth := 1 }

def emptyObject : JsonText := { plain (Json.object []) with depth := 1 }

def holding (t item : JsonText) (value : Json) (paired : Bool) : JsonText where
  value := value
  depth := max t.depth (item.depth + 1)
  numbers := t.numbers ++ item.numbers
  paired := t.paired && item.paired && paired

def withItem (t item : JsonText) : JsonText :=
  match t.value with
  | Json.array items => holding t item (Json.array (items ++ [item.value])) true
  | _ => t

/-- Of two members of one name the later one stays. -/
def withMember (t : JsonText) (name : String) (paired : Bool) (item : JsonText) : JsonText :=
  holding t item (Json.object (Json.insertKey name item.value (Json.membersOf t.value))) paired

def readWord (text : List Char) : Option (JsonText × List Char) :=
  if "null".toList.isPrefixOf text then some (plain Json.null, text.drop 4)
  else if "true".toList.isPrefixOf text then some (plain (Json.bool true), text.drop 4)
  else if "false".toList.isPrefixOf text then some (plain (Json.bool false), text.drop 5)
  else
    (readNumber text).map fun (number, rest) =>
      ({ plain (Json.number number) with numbers := [number] }, rest)

mutual

def readValue : Nat -> List Char -> Option (JsonText × List Char)
  | 0, _ => none
  | fuel + 1, text =>
      match text.dropWhile isBlank with
      | '[' :: rest =>
          match rest.dropWhile isBlank with
          | ']' :: rest => some (emptyArray, rest)
          | rest => readItems fuel emptyArray rest
      | '{' :: rest =>
          match rest.dropWhile isBlank with
          | '}' :: rest => some (emptyObject, rest)
          | rest => readMembers fuel emptyObject rest
      | '"' :: rest =>
          (readString rest).map fun (s, paired, rest) =>
            ({ plain (Json.string s) with paired := paired }, rest)
      | rest => readWord rest

def readItems : Nat -> JsonText -> List Char -> Option (JsonText × List Char)
  | 0, _, _ => none
  | fuel + 1, t, text => do
      let (item, rest) ← readValue fuel text
      match rest.dropWhile isBlank with
      | ',' :: rest => readItems fuel (t.withItem item) rest
      | ']' :: rest => return (t.withItem item, rest)
      | _ => none

def readMembers : Nat -> JsonText -> List Char -> Option (JsonText × List Char)
  | 0, _, _ => none
  | fuel + 1, t, text =>
      match text.dropWhile isBlank with
      | '"' :: rest => do
          let (name, paired, rest) ← readString rest
          match rest.dropWhile isBlank with
          | ':' :: rest => do
              let (item, rest) ← readValue fuel rest
              match rest.dropWhile isBlank with
              | ',' :: rest => readMembers fuel (t.withMember name paired item) rest
              | '}' :: rest => return (t.withMember name paired item, rest)
              | _ => none
          | _ => none
      | _ => none

end

/-- The whole text; two calls a character are more than it can take. -/
def read (text : List Char) : Option JsonText := do
  let (t, rest) ← readValue (2 * text.length + 2) text
  if (rest.dropWhile isBlank).isEmpty then some t else none

example : (read ['{', '"', 'a', '"', ':', '[', '1', 'e', '3', ']', '}']).map JsonText.numbers =
    some [String.ofList ['1', 'e', '3']] := by
  rfl

/-- A byte order mark is neither a blank nor the start of a value. -/
theorem read_mark (text : List Char) : read ('\uFEFF' :: text) = none := by
  rfl

end JsonText

/-!
# What the numbers stand for
-/

namespace Json

mutual

/-- The value with every number printed as `f` has it. -/
def withNumbers (f : String -> String) : Json -> Json
  | number text => number (f text)
  | array items => array (itemsWithNumbers f items)
  | object members => object (membersWithNumbers f members)
  | other => other

def itemsWithNumbers (f : String -> String) : List Json -> List Json
  | [] => []
  | v :: rest => withNumbers f v :: itemsWithNumbers f rest

def membersWithNumbers (f : String -> String) : List Member -> List Member
  | [] => []
  | (k, v) :: rest => (k, withNumbers f v) :: membersWithNumbers f rest

end

mutual

def numbers : Json -> List String
  | number text => [text]
  | array items => itemNumbers items
  | object members => memberNumbers members
  | _ => []

def itemNumbers : List Json -> List String
  | [] => []
  | v :: rest => numbers v ++ itemNumbers rest

def memberNumbers : List Member -> List String
  | [] => []
  | (_, v) :: rest => numbers v ++ memberNumbers rest

end

variable {f g : String -> String}

mutual

theorem withNumbers_eq_iff : forall v : Json,
    withNumbers f v = withNumbers g v <-> forall n, n ∈ numbers v -> f n = g n
  | null => ⟨fun _ _ h => (List.not_mem_nil h).elim, fun _ => rfl⟩
  | bool _ => ⟨fun _ _ h => (List.not_mem_nil h).elim, fun _ => rfl⟩
  | string _ => ⟨fun _ _ h => (List.not_mem_nil h).elim, fun _ => rfl⟩
  | number text => by
      rw [withNumbers, withNumbers, numbers, Json.number.injEq, List.forall_mem_singleton]
  | array items => by
      rw [withNumbers, withNumbers, numbers, Json.array.injEq]
      exact itemsWithNumbers_eq_iff items
  | object members => by
      rw [withNumbers, withNumbers, numbers, Json.object.injEq]
      exact membersWithNumbers_eq_iff members

theorem itemsWithNumbers_eq_iff : forall items : List Json,
    itemsWithNumbers f items = itemsWithNumbers g items <->
      forall n, n ∈ itemNumbers items -> f n = g n
  | [] => ⟨fun _ _ h => (List.not_mem_nil h).elim, fun _ => rfl⟩
  | v :: rest => by
      rw [itemsWithNumbers, itemsWithNumbers, itemNumbers, List.cons.injEq,
        withNumbers_eq_iff v, itemsWithNumbers_eq_iff rest, List.forall_mem_append]

theorem membersWithNumbers_eq_iff : forall members : List Member,
    membersWithNumbers f members = membersWithNumbers g members <->
      forall n, n ∈ memberNumbers members -> f n = g n
  | [] => ⟨fun _ _ h => (List.not_mem_nil h).elim, fun _ => rfl⟩
  | (k, v) :: rest => by
      rw [membersWithNumbers, membersWithNumbers, memberNumbers, List.cons.injEq,
        Prod.mk.injEq, withNumbers_eq_iff v, membersWithNumbers_eq_iff rest,
        List.forall_mem_append]
      exact and_congr_left fun _ => and_iff_right rfl

end

end Json

end Core
end FleetServer
