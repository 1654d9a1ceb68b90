import FleetServer.Core.Canonical
import FleetServer.Core.Selector

/-!
# Selectors as JSON

What the derived encoder and decoder of a selector do.  The decoder takes
structures as lists of their fields too, ignores members it does not know, and
below the root takes a variant's position for its name.
-/

namespace FleetServer
namespace Core

/-!
# Encoding
-/

/-- An object with the given members, which its map keeps sorted. -/
def Json.ofMembers (members : List (String × Json)) : Json :=
  Json.object (members.insertionSort fun a b => a.1 ≤ b.1)

def SourceFilter.name : SourceFilter -> String
  | manual => "manual"
  | agent => "agent"
  | any => "any"

def SourceFilter.isDefault (source : SourceFilter) : Bool :=
  source == manual

def sourceMember (source : SourceFilter) : List (String × Json) :=
  if source.isDefault then [] else [("source", Json.string source.name)]

def stringList (values : List String) : Json :=
  Json.array (values.map Json.string)

def FactTest.members : FactTest -> List (String × Json)
  | exists_ => [("test", Json.string "exists")]
  | eq value => [("test", Json.string "eq"), ("value", Json.string value)]
  | in_ values => [("test", Json.string "in"), ("values", stringList values)]
  | has value => [("test", Json.string "has"), ("value", Json.string value)]

mutual

def Expr.members : Expr -> List (String × Json)
  | Expr.fact facts path test =>
      [("op", Json.string "fact"), ("facts", Json.string facts),
        ("path", Json.string path.raw)] ++ test.members
  | Expr.eq key value source =>
      [("op", Json.string "eq"), ("key", Json.string key), ("value", Json.string value)] ++
        sourceMember source
  | Expr.in_ key values source =>
      [("op", Json.string "in"), ("key", Json.string key), ("values", stringList values)] ++
        sourceMember source
  | Expr.exists_ key source =>
      [("op", Json.string "exists"), ("key", Json.string key)] ++ sourceMember source
  | Expr.not expr => [("op", Json.string "not"), ("expr", Json.ofMembers expr.members)]
  | Expr.and exprs =>
      [("op", Json.string "and"), ("exprs", Json.array (Expr.toJsonAll exprs))]
  | Expr.or exprs =>
      [("op", Json.string "or"), ("exprs", Json.array (Expr.toJsonAll exprs))]

def Expr.toJsonAll : List Expr -> List Json
  | [] => []
  | e :: rest => Json.ofMembers e.members :: Expr.toJsonAll rest

end

def Selector.toJson (s : Selector) : Json :=
  Json.ofMembers [("clauses", Json.array (Expr.toJsonAll s.clauses))]

/-!
# Decoding
-/

section Variants

variable {alpha : Type}

def byName (variants : List (String × alpha)) : Json -> Option alpha
  | Json.string name => variants.lookup name
  | _ => none

def byNameOrIndex (variants : List (String × alpha)) : Json -> Option alpha
  | Json.string name => variants.lookup name
  | Json.number text =>
      (variants.zipIdx.find? fun v => toString v.2 == text).map fun v => v.1.2
  | _ => none

end Variants

inductive ExprOp where
  | fact
  | eq
  | in_
  | exists_
  | not
  | and
  | or
deriving DecidableEq

def exprOps : List (String × ExprOp) :=
  [("fact", ExprOp.fact), ("eq", ExprOp.eq), ("in", ExprOp.in_), ("exists", ExprOp.exists_),
    ("not", ExprOp.not), ("and", ExprOp.and), ("or", ExprOp.or)]

inductive TestOp where
  | exists_
  | eq
  | in_
  | has
deriving DecidableEq

def testOps : List (String × TestOp) :=
  [("exists", TestOp.exists_), ("eq", TestOp.eq), ("in", TestOp.in_), ("has", TestOp.has)]

def sourceFilters : List (String × SourceFilter) :=
  [("manual", SourceFilter.manual), ("agent", SourceFilter.agent), ("any", SourceFilter.any)]

def SourceFilter.ofJson : Json -> Option SourceFilter
  | Json.string name => sourceFilters.lookup name
  | Json.object [(name, Json.null)] => sourceFilters.lookup name
  | Json.object [(name, Json.object [])] => sourceFilters.lookup name
  | _ => none

def stringsOf : Json -> Option (List String)
  | Json.array items => items.mapM Json.asString
  | _ => none

def FactPath.tryFrom (raw : String) : Except String FactPath :=
  if maxFactPathLen < byteLen raw then Except.error "fact path too long"
  else
    match FactPath.parse raw with
    | Except.error e => Except.error ("bad fact path: " ++ e)
    | Except.ok path => Except.ok path

def FactPath.ofJson (v : Json) : Option FactPath :=
  v.asString.bind fun raw => (FactPath.tryFrom raw).toOption

structure View where
  json : Json
  expr : Option Expr
  exprs : Option (List Expr)

abbrev Fields : Type := List (String × View)

section Fields

variable {alpha : Type}

def required (fields : Fields) (name : String) (read : View -> Option alpha) : Option alpha :=
  (fields.lookup name).bind read

def defaulted (fields : Fields) (name : String) (default : alpha) (read : View -> Option alpha) :
    Option alpha :=
  match fields.lookup name with
  | none => some default
  | some v => read v

end Fields

def View.string (v : View) : Option String :=
  v.json.asString

def View.strings (v : View) : Option (List String) :=
  stringsOf v.json

def View.source (v : View) : Option SourceFilter :=
  SourceFilter.ofJson v.json

def View.path (v : View) : Option FactPath :=
  FactPath.ofJson v.json

def testOf (fields : Fields) : Option FactTest := do
  match ← required fields "test" fun v => byNameOrIndex testOps v.json with
  | TestOp.exists_ => return FactTest.exists_
  | TestOp.eq => return FactTest.eq (← required fields "value" View.string)
  | TestOp.in_ => return FactTest.in_ (← required fields "values" View.strings)
  | TestOp.has => return FactTest.has (← required fields "value" View.string)

def exprOf (op : ExprOp) (fields : Fields) : Option Expr :=
  match op with
  | ExprOp.fact => do
      let facts ← defaulted fields "facts" agentSource View.string
      let path ← required fields "path" View.path
      let test ← testOf fields
      return Expr.fact facts path test
  | ExprOp.eq => do
      let key ← required fields "key" View.string
      let value ← required fields "value" View.string
      let source ← defaulted fields "source" SourceFilter.manual View.source
      return Expr.eq key value source
  | ExprOp.in_ => do
      let key ← required fields "key" View.string
      let values ← required fields "values" View.strings
      let source ← defaulted fields "source" SourceFilter.manual View.source
      return Expr.in_ key values source
  | ExprOp.exists_ => do
      let key ← required fields "key" View.string
      let source ← defaulted fields "source" SourceFilter.manual View.source
      return Expr.exists_ key source
  | ExprOp.not => do
      let expr ← required fields "expr" View.expr
      return Expr.not expr
  | ExprOp.and => do
      let exprs ← required fields "exprs" View.exprs
      return Expr.and exprs
  | ExprOp.or => do
      let exprs ← required fields "exprs" View.exprs
      return Expr.or exprs

def fieldNames : ExprOp -> Option (List String)
  | ExprOp.fact => none
  | ExprOp.eq => some ["key", "value", "source"]
  | ExprOp.in_ => some ["key", "values", "source"]
  | ExprOp.exists_ => some ["key", "source"]
  | ExprOp.not => some ["expr"]
  | ExprOp.and => some ["exprs"]
  | ExprOp.or => some ["exprs"]

def exprOfMembers (readOp : Json -> Option ExprOp) (members : Fields) : Option Expr := do
  let op ← required members "op" fun v => readOp v.json
  exprOf op members

def exprOfItems (readOp : Json -> Option ExprOp) (items : List View) : Option Expr :=
  match items with
  | [] => none
  | tag :: rest => do
      let op ← readOp tag.json
      let names ← fieldNames op
      if names.length < rest.length then none
      else exprOf op (names.zip rest)

mutual

def viewOf : Json -> View
  | Json.array items =>
      { json := Json.array items
        expr := exprOfItems (byNameOrIndex exprOps) (viewItems items)
        exprs := (viewItems items).mapM View.expr }
  | Json.object members =>
      { json := Json.object members
        expr := exprOfMembers (byNameOrIndex exprOps) (viewMembers members)
        exprs := none }
  | v => { json := v, expr := none, exprs := none }

def viewItems : List Json -> List View
  | [] => []
  | v :: rest => viewOf v :: viewItems rest

def viewMembers : List (String × Json) -> Fields
  | [] => []
  | (name, v) :: rest => (name, viewOf v) :: viewMembers rest

end

def clauseOf : Json -> Option Expr
  | Json.array items => exprOfItems (byName exprOps) (viewItems items)
  | Json.object members => exprOfMembers (byName exprOps) (viewMembers members)
  | _ => none

def clausesOf : Json -> Option (List Expr)
  | Json.array items => items.mapM clauseOf
  | _ => none

def Selector.ofJson : Json -> Option Selector
  | Json.object members =>
      match members.lookup "clauses" with
      | none => some { clauses := [] }
      | some v => (clausesOf v).map Selector.mk
  | Json.array [] => some { clauses := [] }
  | Json.array [v] => (clausesOf v).map Selector.mk
  | _ => none

/-- The derived decoder; `text` is what it says about a value it refuses. -/
def Selector.decode (text : Json -> String) (v : Json) : Except String Selector :=
  match Selector.ofJson v with
  | none => Except.error (text v)
  | some s => Except.ok s

/-!
# Reading what was written
-/

section Members

variable {members : List (String × Json)}

def sortMembers (members : List (String × Json)) : List (String × Json) :=
  members.insertionSort fun a b => a.1 ≤ b.1

theorem lookup_sortMembers (hnodup : (members.map Prod.fst).Nodup) (name : String) :
    (sortMembers members).lookup name = members.lookup name := by
  have hperm : (sortMembers members).Perm members := List.perm_insertionSort _ members
  have hsorted : ((sortMembers members).map Prod.fst).Nodup :=
    (hperm.map Prod.fst).nodup_iff.mpr hnodup
  apply Option.ext
  intro v
  constructor
  · intro h
    exact Table.lookup_of_mem hnodup (hperm.mem_iff.mp (Table.mem_of_lookup h))
  · intro h
    exact Table.lookup_of_mem hsorted (hperm.mem_iff.mpr (Table.mem_of_lookup h))

theorem lookup_viewMembers (members : List (String × Json)) (name : String) :
    (viewMembers members).lookup name = (members.lookup name).map viewOf := by
  induction members with
  | nil => rfl
  | cons m rest ih =>
      rcases m with ⟨key, v⟩
      unfold viewMembers
      rw [List.lookup_cons, List.lookup_cons]
      split
      · rfl
      · exact ih

end Members

theorem nodup_members (e : Expr) : (e.members.map Prod.fst).Nodup := by
  cases e with
  | fact facts path test =>
      cases test with
      | exists_ => simp [Expr.members, FactTest.members]
      | eq value => simp [Expr.members, FactTest.members]
      | in_ values => simp [Expr.members, FactTest.members]
      | has value => simp [Expr.members, FactTest.members]
  | eq key value source =>
      cases source <;> simp [Expr.members, sourceMember, SourceFilter.isDefault]
  | in_ key values source =>
      cases source <;> simp [Expr.members, sourceMember, SourceFilter.isDefault]
  | exists_ key source => cases source <;> simp [Expr.members, sourceMember, SourceFilter.isDefault]
  | not expr => simp [Expr.members]
  | and exprs => simp [Expr.members]
  | or exprs => simp [Expr.members]

theorem mapM_asString (values : List String) :
    (values.map Json.string).mapM Json.asString = some values := by
  induction values with
  | nil => rfl
  | cons value rest ih =>
      rw [List.map_cons, List.mapM_cons, ih]
      rfl

theorem stringsOf_stringList (values : List String) :
    stringsOf (stringList values) = some values :=
  mapM_asString values

section Lookups

variable {fields fields' : Fields}

theorem testOf_congr (h : forall name, fields.lookup name = fields'.lookup name) :
    testOf fields = testOf fields' := by
  unfold testOf required
  simp only [h]

theorem exprOf_congr (h : forall name, fields.lookup name = fields'.lookup name) (op : ExprOp) :
    exprOf op fields = exprOf op fields' := by
  unfold exprOf required defaulted
  simp only [h, testOf_congr h]

theorem exprOfMembers_congr (h : forall name, fields.lookup name = fields'.lookup name)
    (readOp : Json -> Option ExprOp) :
    exprOfMembers readOp fields = exprOfMembers readOp fields' := by
  unfold exprOfMembers required
  simp only [h, exprOf_congr h]

end Lookups

theorem exprOfMembers_sortMembers (readOp : Json -> Option ExprOp) (e : Expr) :
    exprOfMembers readOp (viewMembers (sortMembers e.members)) =
      exprOfMembers readOp (viewMembers e.members) := by
  apply exprOfMembers_congr
  intro name
  rw [lookup_viewMembers, lookup_viewMembers, lookup_sortMembers (nodup_members e)]

mutual

def Expr.Parsed : Expr -> Prop
  | Expr.fact _ path _ => FactPath.tryFrom path.raw = Except.ok path
  | Expr.not expr => expr.Parsed
  | Expr.and exprs => Expr.AllParsed exprs
  | Expr.or exprs => Expr.AllParsed exprs
  | Expr.eq _ _ _ => True
  | Expr.in_ _ _ _ => True
  | Expr.exists_ _ _ => True

def Expr.AllParsed : List Expr -> Prop
  | [] => True
  | e :: rest => e.Parsed ∧ Expr.AllParsed rest

end

theorem testOf_members (facts raw : Json) (test : FactTest) :
    testOf (viewMembers ([("op", Json.string "fact"), ("facts", facts), ("path", raw)] ++
      test.members)) = some test := by
  cases test with
  | exists_ => rfl
  | eq value => rfl
  | in_ values =>
      show (stringsOf (stringList values)).bind (fun values => some (FactTest.in_ values)) = _
      rw [stringsOf_stringList]
      rfl
  | has value => rfl

theorem source_members (source : SourceFilter) (before : List (String × Json))
    (hbefore : before.lookup "source" = none) :
    defaulted (viewMembers (before ++ sourceMember source)) "source" SourceFilter.manual
      View.source = some source := by
  unfold defaulted
  rw [lookup_viewMembers, List.lookup_append, hbefore]
  cases source with
  | manual => rfl
  | agent => rfl
  | any => rfl

def ReadsNames (readOp : Json -> Option ExprOp) : Prop :=
  forall name, readOp (Json.string name) = exprOps.lookup name

theorem readsNames_byName : ReadsNames (byName exprOps) := fun _ => rfl

theorem readsNames_byNameOrIndex : ReadsNames (byNameOrIndex exprOps) := fun _ => rfl

theorem exprOfMembers_op {readOp : Json -> Option ExprOp} (hread : ReadsNames readOp)
    {op : ExprOp} {name : String} {members : List (String × Json)}
    (hname : members.lookup "op" = some (Json.string name))
    (hop : exprOps.lookup name = some op) :
    exprOfMembers readOp (viewMembers members) = exprOf op (viewMembers members) := by
  unfold exprOfMembers required
  rw [lookup_viewMembers, hname]
  show (readOp (Json.string name)).bind _ = _
  rw [hread, hop]
  rfl

mutual

theorem exprOf_members {readOp : Json -> Option ExprOp} (hread : ReadsNames readOp) :
    forall e : Expr, e.Parsed -> exprOfMembers readOp (viewMembers e.members) = some e
  | Expr.fact facts path test, h => by
      have hop : exprOps.lookup "fact" = some ExprOp.fact := rfl
      have hpath : FactPath.ofJson (Json.string path.raw) = some path := by
        show (FactPath.tryFrom path.raw).toOption = some path
        rw [show FactPath.tryFrom path.raw = Except.ok path from h]
        rfl
      rw [exprOfMembers_op hread rfl hop]
      show (FactPath.ofJson (Json.string path.raw)).bind (fun path' =>
        (testOf (viewMembers (Expr.fact facts path test).members)).bind fun test =>
          some (Expr.fact facts path' test)) = _
      unfold Expr.members
      rw [hpath, testOf_members]
      rfl
  | Expr.eq key value source, _ => by
      have hop : exprOps.lookup "eq" = some ExprOp.eq := rfl
      rw [exprOfMembers_op hread rfl hop]
      show (defaulted (viewMembers (_ ++ sourceMember source)) "source" SourceFilter.manual
        View.source).bind (fun source => some (Expr.eq key value source)) = _
      rw [source_members source _ rfl]
      rfl
  | Expr.in_ key values source, _ => by
      have hop : exprOps.lookup "in" = some ExprOp.in_ := rfl
      rw [exprOfMembers_op hread rfl hop]
      show (stringsOf (stringList values)).bind (fun values =>
        (defaulted (viewMembers (_ ++ sourceMember source)) "source" SourceFilter.manual
          View.source).bind fun source => some (Expr.in_ key values source)) = _
      rw [stringsOf_stringList, source_members source _ rfl]
      rfl
  | Expr.exists_ key source, _ => by
      have hop : exprOps.lookup "exists" = some ExprOp.exists_ := rfl
      rw [exprOfMembers_op hread rfl hop]
      show (defaulted (viewMembers (_ ++ sourceMember source)) "source" SourceFilter.manual
        View.source).bind (fun source => some (Expr.exists_ key source)) = _
      rw [source_members source _ rfl]
      rfl
  | Expr.not expr, h => by
      have hop : exprOps.lookup "not" = some ExprOp.not := rfl
      rw [exprOfMembers_op hread rfl hop]
      show (exprOfMembers (byNameOrIndex exprOps)
        (viewMembers (sortMembers expr.members))).bind (fun expr => some (Expr.not expr)) = _
      rw [exprOfMembers_sortMembers, exprOf_members readsNames_byNameOrIndex expr h]
      rfl
  | Expr.and exprs, h => by
      have hop : exprOps.lookup "and" = some ExprOp.and := rfl
      rw [exprOfMembers_op hread rfl hop]
      show ((viewItems (Expr.toJsonAll exprs)).mapM View.expr).bind
        (fun exprs => some (Expr.and exprs)) = _
      rw [exprsOf_toJsonAll exprs h]
      rfl
  | Expr.or exprs, h => by
      have hop : exprOps.lookup "or" = some ExprOp.or := rfl
      rw [exprOfMembers_op hread rfl hop]
      show ((viewItems (Expr.toJsonAll exprs)).mapM View.expr).bind
        (fun exprs => some (Expr.or exprs)) = _
      rw [exprsOf_toJsonAll exprs h]
      rfl

theorem exprsOf_toJsonAll :
    forall exprs : List Expr, Expr.AllParsed exprs ->
      (viewItems (Expr.toJsonAll exprs)).mapM View.expr = some exprs
  | [], _ => rfl
  | e :: rest, h => by
      have he : (viewOf (Json.ofMembers e.members)).expr = some e := by
        show exprOfMembers (byNameOrIndex exprOps) (viewMembers (sortMembers e.members)) = some e
        rw [exprOfMembers_sortMembers]
        exact exprOf_members readsNames_byNameOrIndex e h.1
      unfold Expr.toJsonAll viewItems
      rw [List.mapM_cons, he, exprsOf_toJsonAll rest h.2]
      rfl

end

theorem clauses_toJsonAll :
    forall exprs : List Expr, Expr.AllParsed exprs ->
      (Expr.toJsonAll exprs).mapM clauseOf = some exprs
  | [], _ => rfl
  | e :: rest, h => by
      have he : clauseOf (Json.ofMembers e.members) = some e := by
        show exprOfMembers (byName exprOps) (viewMembers (sortMembers e.members)) = some e
        rw [exprOfMembers_sortMembers]
        exact exprOf_members readsNames_byName e h.1
      unfold Expr.toJsonAll
      rw [List.mapM_cons, he, clauses_toJsonAll rest h.2]
      rfl

theorem ofJson_toJson (s : Selector) (h : Expr.AllParsed s.clauses) :
    Selector.ofJson s.toJson = some s := by
  show (clausesOf (Json.array (Expr.toJsonAll s.clauses))).map Selector.mk = some s
  unfold clausesOf
  simp only
  rw [clauses_toJsonAll s.clauses h]
  rfl

/-!
# What is read is parsed
-/

theorem raw_parse {text : String} {path : FactPath} (h : FactPath.parse text = Except.ok path) :
    path.raw = text := by
  unfold FactPath.parse at h
  split at h
  · cases h
  · cases hsegments : FactPath.parseSegments (text.length + 1) text.toList with
    | error e =>
        rw [hsegments] at h
        cases h
    | ok segments =>
        rw [hsegments] at h
        cases h
        rfl

theorem tryFrom_ofJson {v : Json} {path : FactPath} (h : FactPath.ofJson v = some path) :
    FactPath.tryFrom path.raw = Except.ok path := by
  rcases Option.bind_eq_some_iff.mp h with ⟨raw, _, h⟩
  have htry : FactPath.tryFrom raw = Except.ok path := by
    cases hraw : FactPath.tryFrom raw with
    | error e =>
        rw [hraw] at h
        cases h
    | ok path' =>
        rw [hraw] at h
        cases h
        rfl
  have hraw : path.raw = raw := by
    unfold FactPath.tryFrom at htry
    split at htry
    · cases htry
    · split at htry
      · cases htry
      · rename_i path' hparse
        cases htry
        exact raw_parse hparse
  rw [hraw]
  exact htry

/-- Whatever a value is read as is parsed. -/
structure View.Parsed (v : View) : Prop where
  expr : forall e, v.expr = some e -> e.Parsed
  exprs : forall es, v.exprs = some es -> Expr.AllParsed es

theorem parsed_of_unread {v : View} (hexpr : v.expr = none) (hexprs : v.exprs = none) :
    v.Parsed := by
  constructor
  · intro e h
    rw [hexpr] at h
    cases h
  · intro es h
    rw [hexprs] at h
    cases h

theorem exprOf_parsed {op : ExprOp} {fields : Fields} {e : Expr}
    (hfields : forall name v, fields.lookup name = some v -> v.Parsed)
    (h : exprOf op fields = some e) : e.Parsed := by
  cases op with
  | fact =>
      rcases Option.bind_eq_some_iff.mp h with ⟨facts, _, h⟩
      rcases Option.bind_eq_some_iff.mp h with ⟨path, hpath, h⟩
      rcases Option.bind_eq_some_iff.mp h with ⟨test, _, h⟩
      cases h
      rcases Option.bind_eq_some_iff.mp hpath with ⟨v, _, hpath⟩
      exact tryFrom_ofJson hpath
  | eq =>
      rcases Option.bind_eq_some_iff.mp h with ⟨key, _, h⟩
      rcases Option.bind_eq_some_iff.mp h with ⟨value, _, h⟩
      rcases Option.bind_eq_some_iff.mp h with ⟨source, _, h⟩
      cases h
      exact trivial
  | in_ =>
      rcases Option.bind_eq_some_iff.mp h with ⟨key, _, h⟩
      rcases Option.bind_eq_some_iff.mp h with ⟨values, _, h⟩
      rcases Option.bind_eq_some_iff.mp h with ⟨source, _, h⟩
      cases h
      exact trivial
  | exists_ =>
      rcases Option.bind_eq_some_iff.mp h with ⟨key, _, h⟩
      rcases Option.bind_eq_some_iff.mp h with ⟨source, _, h⟩
      cases h
      exact trivial
  | not =>
      rcases Option.bind_eq_some_iff.mp h with ⟨expr, hexpr, h⟩
      cases h
      rcases Option.bind_eq_some_iff.mp hexpr with ⟨v, hv, hexpr⟩
      exact (hfields "expr" v hv).expr expr hexpr
  | and =>
      rcases Option.bind_eq_some_iff.mp h with ⟨exprs, hexprs, h⟩
      cases h
      rcases Option.bind_eq_some_iff.mp hexprs with ⟨v, hv, hexprs⟩
      exact (hfields "exprs" v hv).exprs exprs hexprs
  | or =>
      rcases Option.bind_eq_some_iff.mp h with ⟨exprs, hexprs, h⟩
      cases h
      rcases Option.bind_eq_some_iff.mp hexprs with ⟨v, hv, hexprs⟩
      exact (hfields "exprs" v hv).exprs exprs hexprs

theorem exprOfMembers_parsed {readOp : Json -> Option ExprOp} {members : Fields} {e : Expr}
    (hmembers : forall m, m ∈ members -> m.2.Parsed)
    (h : exprOfMembers readOp members = some e) : e.Parsed := by
  rcases Option.bind_eq_some_iff.mp h with ⟨op, _, h⟩
  apply exprOf_parsed _ h
  intro name v hv
  exact hmembers (name, v) (Table.mem_of_lookup hv)

theorem exprOfItems_parsed {readOp : Json -> Option ExprOp} {items : List View} {e : Expr}
    (hitems : forall v, v ∈ items -> v.Parsed) (h : exprOfItems readOp items = some e) :
    e.Parsed := by
  cases items with
  | nil => cases h
  | cons tag rest =>
      rcases Option.bind_eq_some_iff.mp h with ⟨op, _, h⟩
      rcases Option.bind_eq_some_iff.mp h with ⟨names, _, h⟩
      split at h
      · cases h
      · apply exprOf_parsed _ h
        intro name v hv
        have hmem := (List.of_mem_zip (Table.mem_of_lookup hv)).2
        exact hitems v (List.mem_cons_of_mem _ hmem)

theorem allParsed_mapM {alpha : Type} {read : alpha -> Option Expr} :
    forall {xs : List alpha} {es : List Expr},
      (forall x e, x ∈ xs -> read x = some e -> e.Parsed) -> xs.mapM read = some es ->
        Expr.AllParsed es
  | [], es, _, h => by
      cases h
      exact trivial
  | x :: xs, es, hread, h => by
      rw [List.mapM_cons] at h
      rcases Option.bind_eq_some_iff.mp h with ⟨e, he, h⟩
      rcases Option.bind_eq_some_iff.mp h with ⟨rest, hrest, h⟩
      cases h
      constructor
      · exact hread x e List.mem_cons_self he
      · exact allParsed_mapM (fun y e' hy => hread y e' (List.mem_cons_of_mem _ hy)) hrest

mutual

theorem viewOf_parsed : forall v : Json, (viewOf v).Parsed
  | Json.null => parsed_of_unread rfl rfl
  | Json.bool _ => parsed_of_unread rfl rfl
  | Json.number _ => parsed_of_unread rfl rfl
  | Json.string _ => parsed_of_unread rfl rfl
  | Json.array items => by
      constructor
      · intro e h
        exact exprOfItems_parsed (viewItems_parsed items) h
      · intro es h
        exact allParsed_mapM (fun v e hv => (viewItems_parsed items v hv).expr e) h
  | Json.object members => by
      constructor
      · intro e h
        exact exprOfMembers_parsed (viewMembers_parsed members) h
      · intro es h
        cases h

theorem viewItems_parsed : forall items : List Json, forall v, v ∈ viewItems items -> v.Parsed
  | [], v, h => by cases h
  | item :: rest, v, h => by
      unfold viewItems at h
      rcases List.mem_cons.mp h with h | h
      · rw [h]
        exact viewOf_parsed item
      · exact viewItems_parsed rest v h

theorem viewMembers_parsed :
    forall members : List (String × Json), forall m, m ∈ viewMembers members -> m.2.Parsed
  | [], m, h => by cases h
  | (name, v) :: rest, m, h => by
      unfold viewMembers at h
      rcases List.mem_cons.mp h with h | h
      · rw [h]
        exact viewOf_parsed v
      · exact viewMembers_parsed rest m h

end

theorem clauseOf_parsed {v : Json} {e : Expr} (h : clauseOf v = some e) : e.Parsed := by
  cases v with
  | array items => exact exprOfItems_parsed (viewItems_parsed items) h
  | object members => exact exprOfMembers_parsed (viewMembers_parsed members) h
  | null => cases h
  | bool b => cases h
  | number text => cases h
  | string s => cases h

theorem clausesOf_parsed {v : Json} {es : List Expr} (h : clausesOf v = some es) :
    Expr.AllParsed es := by
  cases v with
  | array items => exact allParsed_mapM (fun v e _ he => clauseOf_parsed he) h
  | object members => cases h
  | null => cases h
  | bool b => cases h
  | number text => cases h
  | string s => cases h

theorem ofJson_parsed {v : Json} {s : Selector} (h : Selector.ofJson v = some s) :
    Expr.AllParsed s.clauses := by
  have hclauses : forall v, (clausesOf v).map Selector.mk = some s ->
      Expr.AllParsed s.clauses := by
    intro v h
    rcases Option.map_eq_some_iff.mp h with ⟨es, hes, h⟩
    rw [← h]
    exact clausesOf_parsed hes
  unfold Selector.ofJson at h
  split at h
  · split at h
    · cases h
      exact trivial
    · exact hclauses _ h
  · cases h
    exact trivial
  · exact hclauses _ h
  · cases h

/-!
# The round trip
-/

theorem ofJson_of_fromJson {text : Json -> String} {v : Json} {s : Selector}
    (h : Selector.fromJson (Selector.decode text) v = Except.ok s) :
    Selector.ofJson v = some s ∧ s.validate = Except.ok () := by
  unfold Selector.fromJson Selector.decode at h
  cases hread : Selector.ofJson v with
  | none =>
      rw [hread] at h
      cases h
  | some s' =>
      rw [hread] at h
      simp only at h
      cases hvalid : s'.validate with
      | error e =>
          rw [hvalid] at h
          cases h
      | ok u =>
          rw [hvalid] at h
          cases h
          exact ⟨rfl, hvalid⟩

theorem fromJson_toJson {text : Json -> String} {v : Json} {s : Selector}
    (h : Selector.fromJson (Selector.decode text) v = Except.ok s) :
    Selector.fromJson (Selector.decode text) s.toJson = Except.ok s := by
  rcases ofJson_of_fromJson h with ⟨hread, hvalid⟩
  unfold Selector.fromJson Selector.decode
  rw [ofJson_toJson s (ofJson_parsed hread)]
  simp only
  rw [hvalid]
  rfl

/-- Written and read again, an accepted selector is the same, matches the same
hosts and reads the same sources. -/
theorem selector_round_trip {text : Json -> String} {v : Json} {s : Selector}
    (h : Selector.fromJson (Selector.decode text) v = Except.ok s) :
    exists s', Selector.fromJson (Selector.decode text) s.toJson = Except.ok s' ∧ s' = s ∧
      (forall tags facts, s'.matches tags facts = s.matches tags facts) ∧
      s'.factSources = s.factSources :=
  ⟨s, fromJson_toJson h, rfl, fun _ _ => rfl, rfl⟩

/-- A selector in a form it is never written in: lists for the structures, a
variant by its position, a source as a map. -/
def oddlyWritten : Json :=
  let leaf := Json.object
    [("op", Json.number "0"), ("path", Json.string "os.family"), ("test", Json.string "eq"),
      ("unknown", Json.null), ("value", Json.string "linux")]
  Json.array
    [Json.array
      [Json.object [("expr", leaf), ("op", Json.string "not")],
       Json.array
        [Json.string "eq", Json.string "env", Json.string "prod",
          Json.object [("any", Json.null)]]]]

def plainlyRead : Selector :=
  let path : FactPath :=
    { raw := "os.family", segments := [{ key := "os", ids := [] }, { key := "family", ids := [] }] }
  { clauses :=
      [Expr.not (Expr.fact agentSource path (FactTest.eq "linux")),
       Expr.eq "env" "prod" SourceFilter.any] }

theorem selector_round_trip_oddlyWritten :
    exists s', Selector.fromJson (Selector.decode fun _ => "") plainlyRead.toJson =
        Except.ok s' ∧ s' = plainlyRead ∧
      (forall tags facts, s'.matches tags facts = plainlyRead.matches tags facts) ∧
      s'.factSources = plainlyRead.factSources := by
  have hread : Selector.fromJson (Selector.decode fun _ => "") oddlyWritten =
      Except.ok plainlyRead := by
    rfl
  exact selector_round_trip hread

end Core
end FleetServer
