import FleetServer.Core.Json
import Mathlib.Data.List.Dedup

/-!
# Group selectors

The selector tree of `selector/`, its validation, and its evaluation against a
host's tags and facts documents.
-/

namespace FleetServer
namespace Core

/-!
# Tags
-/

def maxKeyLen : Nat := 128
def maxValueLen : Nat := 256
def maxTagsPerHost : Nat := 128

/-- Where a stored tag came from. -/
inductive TagSource where
  | manual
  | agent
deriving DecidableEq

/-- Which sources a selector leaf accepts a value from. -/
inductive SourceFilter where
  | manual
  | agent
  | any
deriving DecidableEq

def SourceFilter.accepts : SourceFilter -> TagSource -> Bool
  | manual, source => source == TagSource.manual
  | agent, source => source == TagSource.agent
  | any, _ => true

def SourceFilter.isHostControlled : SourceFilter -> Bool
  | manual => false
  | agent => true
  | any => true

structure TagValue where
  value : String
  source : TagSource
deriving DecidableEq

/-- The values stored under each key. -/
abbrev HostTags : Type := String -> List TagValue

abbrev HostFacts : Type := String -> Option Json

/-- The values under `key` that `source` is willing to look at. -/
def matching (tags : HostTags) (key : String) (source : SourceFilter) : List TagValue :=
  (tags key).filter fun t => source.accepts t.source

/-!
# Fact paths
-/

def maxFactPathLen : Nat := 512

def scalarText : Json -> Option String
  | Json.string s => some s
  | Json.number text => some text
  | Json.bool b => some (if b then "true" else "false")
  | Json.null => none
  | Json.array _ => none
  | Json.object _ => none

structure Segment where
  key : String
  ids : List String
deriving DecidableEq

structure FactPath where
  raw : String
  segments : List Segment
deriving DecidableEq

namespace FactPath

def isKeyEnd (c : Char) : Bool :=
  c == '.' || c == '[' || c == ']'

/-- The `[id]` picks at the front of `rest`, and what follows them. -/
def parseIds : Nat -> List Char -> Except String (List String × List Char)
  | fuel + 1, '[' :: after =>
      let id := after.takeWhile (fun c => c != ']')
      match after.dropWhile (fun c => c != ']') with
      | [] => Except.error "unclosed ["
      | _ :: rest =>
        if id.isEmpty then Except.error "empty [id]"
        else do
          let (ids, rest) ← parseIds fuel rest
          return (String.ofList id :: ids, rest)
  | _, rest => Except.ok ([], rest)

def parseSegments : Nat -> List Char -> Except String (List Segment)
  | 0, _ => Except.error "empty key"
  | fuel + 1, rest =>
      let key := rest.takeWhile (fun c => !isKeyEnd c)
      if key.isEmpty then Except.error "empty key"
      else do
        let (ids, rest) ← parseIds rest.length (rest.dropWhile fun c => !isKeyEnd c)
        let seg : Segment := { key := String.ofList key, ids := ids }
        match rest with
        | '.' :: rest => return seg :: (← parseSegments fuel rest)
        | [] => return [seg]
        | _ => throw "expected . after ]"

def parse (path : String) : Except String FactPath :=
  if path.isEmpty then Except.error "empty"
  else do
    -- Every segment takes at least one character.
    let segments ← parseSegments (path.length + 1) path.toList
    return { raw := path, segments := segments }

/-- `[id]` applied to one value. -/
def pick (v : Json) (id : String) : List Json :=
  match v with
  | Json.array items => items.filter fun i => (i.get "id").bind Json.asString == some id
  | Json.object _ => (v.get id).toList
  | _ => []

def stepKey (key : String) (v : Json) : List Json :=
  match v with
  | Json.object _ => (v.get key).toList
  | Json.array items => items.filterMap fun i => i.get key
  | _ => []

def resolveSegment (seg : Segment) (current : List Json) : List Json :=
  seg.ids.foldl (fun next id => next.flatMap fun v => pick v id)
    (current.flatMap (stepKey seg.key))

/-- Every value the path reaches in `doc`. -/
def resolve (p : FactPath) (doc : Json) : List Json :=
  p.segments.foldl (fun current seg => resolveSegment seg current) [doc]

end FactPath

/-!
# The selector tree
-/

def maxNodes : Nat := 64
def maxDepth : Nat := 8
def maxInValues : Nat := 64
def agentSource : String := "agent"
def maxSourceLen : Nat := 64

def validSource (s : String) : Bool :=
  !s.isEmpty && decide (byteLen s ≤ maxSourceLen) &&
    s.toList.head?.any isAsciiLowercase &&
    s.toList.all fun c =>
      isAsciiLowercase c || isAsciiDigit c || c == '_' || c == '.' || c == ':' || c == '-'

inductive FactTest where
  | exists_
  | eq (value : String)
  | in_ (values : List String)
  | has (value : String)
deriving DecidableEq

inductive Expr where
  | fact (facts : String) (path : FactPath) (test : FactTest)
  | eq (key value : String) (source : SourceFilter)
  | in_ (key : String) (values : List String) (source : SourceFilter)
  | exists_ (key : String) (source : SourceFilter)
  | not (expr : Expr)
  | and (exprs : List Expr)
  | or (exprs : List Expr)

structure Selector where
  clauses : List Expr

inductive SelectorError where
  | tooManyNodes
  | tooDeep
  | tooManyInValues
  | keyTooLong
  | valueTooLong
  | emptyKey
  | emptyCompound
  | badFactsSource (source : String)
  | badFactPath (reason : String)
  | json (text : String)
deriving DecidableEq

/-- The error's text; `debug` is how `{:?}` prints a string. -/
def SelectorError.message (debug : String -> String) : SelectorError -> String
  | tooManyNodes => "too many nodes (max 64)"
  | tooDeep => "nested too deeply (max 8)"
  | tooManyInValues => "too many IN values (max 64)"
  | keyTooLong => "key too long (max 128)"
  | valueTooLong => "value too long (max 256)"
  | emptyKey => "empty key"
  | emptyCompound => "empty compound (and/or with no children)"
  | badFactsSource source => "unknown facts source " ++ debug source
  | badFactPath reason => "bad fact path: " ++ reason
  | json text => "invalid JSON: " ++ text

/-!
# Validation
-/

def checkKey (key : String) : Except SelectorError Unit :=
  if key.isEmpty then Except.error SelectorError.emptyKey
  else if maxKeyLen < byteLen key then Except.error SelectorError.keyTooLong
  else Except.ok ()

def checkValue (value : String) : Except SelectorError Unit :=
  if maxValueLen < byteLen value then Except.error SelectorError.valueTooLong
  else Except.ok ()

def checkInValues (values : List String) : Except SelectorError Unit :=
  if maxInValues < values.length then Except.error SelectorError.tooManyInValues
  else if values.any (fun v => decide (maxValueLen < byteLen v)) then
    Except.error SelectorError.valueTooLong
  else Except.ok ()

def checkTest : FactTest -> Except SelectorError Unit
  | FactTest.exists_ => Except.ok ()
  | FactTest.eq value => checkValue value
  | FactTest.has value => checkValue value
  | FactTest.in_ values => checkInValues values

/-- Count a node at `depth`; the new count. -/
def enterNode (depth nodes : Nat) : Except SelectorError Nat :=
  if maxDepth < depth then Except.error SelectorError.tooDeep
  else if maxNodes < nodes + 1 then Except.error SelectorError.tooManyNodes
  else Except.ok (nodes + 1)

def checkFact (source : String) (path : FactPath) (test : FactTest) :
    Except SelectorError Unit :=
  if !validSource source then Except.error (SelectorError.badFactsSource source)
  else if maxFactPathLen < byteLen path.raw then
    Except.error (SelectorError.badFactPath "too long")
  else checkTest test

mutual

/-- Check one node at `depth`, with `nodes` counted before it; the new count. -/
def validateExpr (depth nodes : Nat) : Expr -> Except SelectorError Nat
  | Expr.eq key value _ => do
      let nodes ← enterNode depth nodes
      checkKey key
      checkValue value
      return nodes
  | Expr.in_ key values _ => do
      let nodes ← enterNode depth nodes
      checkKey key
      checkInValues values
      return nodes
  | Expr.exists_ key _ => do
      let nodes ← enterNode depth nodes
      checkKey key
      return nodes
  | Expr.fact source path test => do
      let nodes ← enterNode depth nodes
      checkFact source path test
      return nodes
  | Expr.not expr => do
      let nodes ← enterNode depth nodes
      validateExpr (depth + 1) nodes expr
  | Expr.and exprs => do
      let nodes ← enterNode depth nodes
      if exprs.isEmpty then Except.error SelectorError.emptyCompound
      else validateAll (depth + 1) nodes exprs
  | Expr.or exprs => do
      let nodes ← enterNode depth nodes
      if exprs.isEmpty then Except.error SelectorError.emptyCompound
      else validateAll (depth + 1) nodes exprs

def validateAll (depth nodes : Nat) : List Expr -> Except SelectorError Nat
  | [] => Except.ok nodes
  | e :: rest => do
      let nodes ← validateExpr depth nodes e
      validateAll depth nodes rest

end

/-!
# Evaluation
-/

def hasElement (value : String) : Json -> Bool
  | Json.object members =>
      ((Json.object members).get "id").bind Json.asString == some value
  | other => scalarText other == some value

def factTest : FactTest -> Json -> Bool
  | FactTest.exists_, v => !v.isNull
  | FactTest.eq value, v => scalarText v == some value
  | FactTest.in_ values, v => (scalarText v).any values.contains
  | FactTest.has value, v =>
      match v with
      | Json.array items => items.any (hasElement value)
      | Json.object members => (members.lookup value).isSome
      | _ => false

mutual

def eval (tags : HostTags) (facts : HostFacts) : Expr -> Bool
  | Expr.eq key value source =>
      (matching tags key source).any fun t => t.value == value
  | Expr.in_ key values source =>
      (matching tags key source).any fun t => values.contains t.value
  | Expr.exists_ key source => !(matching tags key source).isEmpty
  | Expr.fact source path test =>
      match facts source with
      | none => false
      | some doc => (path.resolve doc).any (factTest test)
  | Expr.not expr => !eval tags facts expr
  | Expr.and exprs => evalAll tags facts exprs
  | Expr.or exprs => evalAny tags facts exprs

def evalAll (tags : HostTags) (facts : HostFacts) : List Expr -> Bool
  | [] => true
  | e :: rest => eval tags facts e && evalAll tags facts rest

def evalAny (tags : HostTags) (facts : HostFacts) : List Expr -> Bool
  | [] => false
  | e :: rest => eval tags facts e || evalAny tags facts rest

end

mutual

def exprFactSources : Expr -> List String
  | Expr.fact source _ _ => [source]
  | Expr.not expr => exprFactSources expr
  | Expr.and exprs => allFactSources exprs
  | Expr.or exprs => allFactSources exprs
  | Expr.eq _ _ _ => []
  | Expr.in_ _ _ _ => []
  | Expr.exists_ _ _ => []

def allFactSources : List Expr -> List String
  | [] => []
  | e :: rest => exprFactSources e ++ allFactSources rest

end

mutual

def exprIsHostControlled : Expr -> Bool
  | Expr.eq _ _ source => source.isHostControlled
  | Expr.in_ _ _ source => source.isHostControlled
  | Expr.exists_ _ source => source.isHostControlled
  | Expr.fact source _ _ => source == agentSource
  | Expr.not expr => exprIsHostControlled expr
  | Expr.and exprs => anyIsHostControlled exprs
  | Expr.or exprs => anyIsHostControlled exprs

def anyIsHostControlled : List Expr -> Bool
  | [] => false
  | e :: rest => exprIsHostControlled e || anyIsHostControlled rest

end

namespace Selector

def validate (s : Selector) : Except SelectorError Unit := do
  let _ ← validateAll 1 0 s.clauses
  return ()

/-- `decode` is the derived decoding, which fails with a text. -/
def fromJson (decode : Json -> Except String Selector) (v : Json) :
    Except SelectorError Selector :=
  match decode v with
  | Except.error text => Except.error (SelectorError.json text)
  | Except.ok s => do
      s.validate
      return s

def «matches» (s : Selector) (tags : HostTags) (facts : HostFacts) : Bool :=
  evalAll tags facts s.clauses

def factSources (s : Selector) : List String :=
  sortedSet (allFactSources s.clauses)

def isHostControlled (s : Selector) : Bool :=
  anyIsHostControlled s.clauses

end Selector

/-!
# What an evaluation reads
-/

variable {facts facts' : HostFacts}

mutual

theorem eval_congr (tags : HostTags) :
    forall e : Expr, (forall source, source ∈ exprFactSources e -> facts source = facts' source) ->
      eval tags facts e = eval tags facts' e
  | Expr.eq _ _ _, _ => rfl
  | Expr.in_ _ _ _, _ => rfl
  | Expr.exists_ _ _, _ => rfl
  | Expr.fact source path test, h => by
      unfold eval
      rw [h source (by unfold exprFactSources; exact List.mem_cons_self)]
  | Expr.not e, h => by
      unfold eval
      rw [eval_congr tags e h]
  | Expr.and es, h => by
      unfold eval
      exact (evalAll_congr tags es h).1
  | Expr.or es, h => by
      unfold eval
      exact (evalAll_congr tags es h).2

theorem evalAll_congr (tags : HostTags) :
    forall es : List Expr,
      (forall source, source ∈ allFactSources es -> facts source = facts' source) ->
        evalAll tags facts es = evalAll tags facts' es ∧
          evalAny tags facts es = evalAny tags facts' es
  | [], _ => ⟨rfl, rfl⟩
  | e :: rest, h => by
      unfold allFactSources at h
      have he := eval_congr tags e (fun source hs => h source (List.mem_append_left _ hs))
      have hrest := evalAll_congr tags rest
        (fun source hs => h source (List.mem_append_right _ hs))
      unfold evalAll evalAny
      rw [he, hrest.1, hrest.2]
      exact ⟨rfl, rfl⟩

end

theorem mem_sortedSet {x : String} {xs : List String} : x ∈ sortedSet xs <-> x ∈ xs := by
  unfold sortedSet
  rw [List.mem_insertionSort, List.mem_dedup]

theorem Selector.matches_congr {s : Selector} {tags : HostTags}
    (h : forall source, source ∈ s.factSources -> facts source = facts' source) :
    s.matches tags facts = s.matches tags facts' := by
  apply (evalAll_congr tags s.clauses _).1
  intro source hs
  exact h source (mem_sortedSet.mpr hs)

end Core
end FleetServer
