import FleetServer.Facts.CatalogCounts

/-!
# The catalog tells the truth

Its counts are the numbers of documents that have a path or show a value at it, and
the selectors made from its entries match those documents.
-/

namespace FleetServer
namespace Facts
namespace Catalog

open FleetServer.Core
open Core.FactPath
open KeyedMap
open Gathered

/-!
# Counting documents
-/

noncomputable def countDocs (P : Json -> Prop) (docs : List Json) : Nat := by
  classical
  exact docs.countP fun doc => decide (P doc)

theorem countP_eq_countDocs {P : Json -> Prop} {b : Json -> Bool} {docs : List Json}
    (h : forall doc, doc ∈ docs -> (b doc = true <-> P doc)) :
    docs.countP b = countDocs P docs := by
  classical
  unfold countDocs
  apply List.countP_congr
  intro doc hdoc
  exact (h doc hdoc).trans decide_eq_true_iff.symm

theorem countDocs_all {P : Json -> Prop} {docs : List Json}
    (h : forall doc, doc ∈ docs -> P doc) : countDocs P docs = docs.length := by
  classical
  unfold countDocs
  apply List.countP_eq_length.mpr
  intro doc hdoc
  exact decide_eq_true_iff.mpr (h doc hdoc)

def catalogOf (docs : List Json) (source : String) (hosts : Nat) : CatalogSource :=
  (docs.foldl CatalogAcc.addDocument CatalogAcc.empty).finish source hosts

section Listed

variable {docs : List Json} {source p x : String} {hosts n : Nat} {P : CatalogPath}
  {acc : PathAcc}

theorem mem_inOrder {alpha : Type} {m : Map String alpha} {k : String} {v : alpha} :
    (k, v) ∈ inOrder m <-> m.lookup k = some v := by
  rw [← mem_itemsOf, itemsOf_inOrder, Option.mem_toList]

theorem kept_of_listed (h : P ∈ (catalogOf docs source hosts).paths) :
    exists acc, accAt docs P.path = some acc ∧ P.kind = acc.kind ∧ P.hosts = acc.hosts ∧
      P.values = CatalogAcc.shown acc.values := by
  rcases List.mem_map.mp h with ⟨e, he, heq⟩
  rcases e with ⟨path, acc⟩
  cases heq
  exact ⟨acc, mem_inOrder.mp he, rfl, rfl, rfl⟩

theorem acc_of_kept (h : accAt docs p = some acc) :
    acc.hosts = (entriesAt docs p).length ∧
      (acc.kind ≠ PathKind.mixed -> forall e, e ∈ entriesAt docs p -> e.1 = acc.kind) ∧
      acc.values = ((entriesAt docs p).flatMap fun e =>
        (sortedSet e.2).map fun v => (v, ())).foldl valueGather.offer ∅ := by
  have hall := all_of_kept h
  cases hentries : entriesAt docs p with
  | nil =>
      rw [hentries] at hall
      cases hall
  | cons first rest =>
      rw [hentries] at hall
      have hacc := Option.some.inj hall
      rw [foldl_path] at hacc
      rw [← hacc]
      refine ⟨?_, ?_, rfl⟩
      · show 0 + (first :: rest).length = _
        rw [Nat.zero_add]
      · intro hkind e he
        apply merged_eq hkind
        exact List.mem_cons_of_mem _ (List.mem_map_of_mem he)

theorem hosts_of_kept (h : accAt docs p = some acc) :
    acc.hosts = countDocs (fun doc => HasPath doc p) docs := by
  rw [(acc_of_kept h).1]
  unfold entriesAt
  rw [List.length_filterMap_eq_countP]
  exact countP_eq_countDocs fun doc _ => isSome_lookup (shallow_of_kept h)

theorem value_of_kept (h : accAt docs p = some acc) (hx : acc.values.lookup x = some n) :
    n = (entriesAt docs p).countP (fun e => decide (x ∈ e.2)) ∧ byteLen x ≤ maxValueLen := by
  rw [(acc_of_kept h).2.2] at hx
  have hroom : forall n, valueGather.room n = false -> valueGather.room (n + 1) = false := by
    intro n hn
    have hfull : ¬ n < maxDistinctValues := of_decide_eq_false hn
    apply decide_eq_false
    omega
  have hcomplete : Complete valueGather
      ([] ++ (entriesAt docs p).flatMap fun e => (sortedSet e.2).map fun v => (v, ()))
      (((entriesAt docs p).flatMap fun e => (sortedSet e.2).map fun v => (v, ())).foldl
        valueGather.offer ∅) := complete_foldl hroom complete_empty
  have hall := hcomplete.kept x n hx
  rw [List.nil_append] at hall
  have hn := valueGather_all hall
  constructor
  · rw [hn, length_itemsOf_values]
  · cases hitems : itemsOf x ((entriesAt docs p).flatMap fun e =>
        (sortedSet e.2).map fun v => (v, ())) with
    | nil =>
        rw [hitems] at hall
        cases hall
    | cons first rest =>
        have hmem : (x, first) ∈ (entriesAt docs p).flatMap fun e =>
            (sortedSet e.2).map fun v => (v, ()) := by
          apply mem_itemsOf.mp
          rw [hitems]
          exact List.mem_cons_self
        rcases List.mem_flatMap.mp hmem with ⟨e, he, hvalue⟩
        rcases List.mem_map.mp hvalue with ⟨v, hv, heq⟩
        cases heq
        rcases List.mem_filterMap.mp he with ⟨doc, _, hentry⟩
        exact ((mem_entry (shallow_of_kept h) hentry).mp (mem_sortedSet.mp hv)).2

theorem count_of_kept (h : accAt docs p = some acc) (hx : acc.values.lookup x = some n) :
    n = countDocs (fun doc => HasValue doc p x) docs := by
  rcases value_of_kept h hx with ⟨hn, hshort⟩
  rw [hn]
  unfold entriesAt
  rw [List.countP_filterMap]
  apply countP_eq_countDocs
  intro doc _
  cases hentry : (localPaths doc).lookup p with
  | some entry =>
      show decide (x ∈ entry.2) = true <-> _
      rw [decide_eq_true_iff, mem_entry (shallow_of_kept h) hentry]
      exact and_iff_left hshort
  | none =>
      constructor
      · intro hnone
        cases hnone
      · intro hvalue
        rcases hvalue with ⟨v, hreached, kind, hshown⟩
        have hpath : HasPath doc p := ⟨v, hreached, shownAt_ne_nil.mp ⟨_, hshown⟩⟩
        have hsome := (isSome_lookup (shallow_of_kept h)).mpr hpath
        rw [hentry] at hsome
        cases hsome

theorem lookup_of_shown {values : Map String Nat} (h : (x, n) ∈ CatalogAcc.shown values) :
    values.lookup x = some n := by
  unfold CatalogAcc.shown at h
  have hmem := List.mem_of_mem_take h
  rw [List.mem_insertionSort] at hmem
  rcases List.mem_map.mp hmem with ⟨e, he, heq⟩
  cases heq
  exact AList.mem_lookup_iff.mpr he

end Listed

/-!
# Rows and documents
-/

section Rows

variable (parse : String -> Option Json)

end Rows

/-!
# Selectors made from the catalog
-/

def ScalarAt (doc : Json) (p x : String) : Prop :=
  exists v, Reaches doc p v ∧ (PathKind.scalar, some x) ∈ shownAt v

/-- A value at the path is a list with an element or a record `x`, or a map with the
key `x`. -/
def InsideAt (doc : Json) (p x : String) : Prop :=
  exists v, Reaches doc p v ∧
    ((PathKind.list, some x) ∈ shownAt v ∨ (PathKind.map, some x) ∈ shownAt v)

def Matched (source : String) (doc : Json) (p : String) (test : FactTest) : Prop :=
  exists path, FactPath.parse p = Except.ok path ∧
    forall (tags : HostTags) (facts : HostFacts), facts source = some doc ->
      Selector.matches { clauses := [Expr.fact source path test] } tags facts = true

section Selectors

variable {source p x : String} {doc v : Json} {test : FactTest}

theorem matched_of_reached (hkeyed : Json.keyed doc = true) (h : Reaches doc p v)
    (htest : factTest test v = true) : Matched source doc p test := by
  rcases resolve_of_reaches hkeyed h with ⟨path, hparse, hmem⟩
  refine ⟨path, hparse, ?_⟩
  intro tags facts hfacts
  have hany : (path.resolve doc).any (factTest test) = true :=
    List.any_eq_true.mpr ⟨v, hmem, htest⟩
  have heval : eval tags facts (Expr.fact source path test) = true := by
    rw [eval, hfacts]
    exact hany
  show evalAll tags facts [Expr.fact source path test] = true
  rw [evalAll, evalAll, heval]
  rfl

theorem matched_exists (hkeyed : Json.keyed doc = true) (h : HasPath doc p) :
    Matched source doc p FactTest.exists_ := by
  rcases h with ⟨v, hreached, hnull⟩
  apply matched_of_reached hkeyed hreached
  cases v with
  | null => exact absurd rfl hnull
  | bool b => rfl
  | number text => rfl
  | string s => rfl
  | array items => rfl
  | object members => rfl

theorem matched_eq (hkeyed : Json.keyed doc = true) (h : ScalarAt doc p x) :
    Matched source doc p (FactTest.eq x) := by
  rcases h with ⟨v, hreached, hshown⟩
  apply matched_of_reached hkeyed hreached
  have hleaf : (PathKind.scalar, some x) ∈ [(PathKind.scalar, scalarText v)] ->
      factTest (FactTest.eq x) v = true := by
    intro hone
    have hsame : some x = scalarText v := congrArg Prod.snd (List.mem_singleton.mp hone)
    show (scalarText v == some x) = true
    rw [← hsame]
    exact beq_self_eq_true _
  cases v with
  | null => cases hshown
  | bool b => exact hleaf hshown
  | number text => exact hleaf hshown
  | string s => exact hleaf hshown
  | array items =>
      rcases List.mem_cons.mp hshown with hfirst | hlater
      · cases hfirst
      · rcases List.mem_map.mp hlater with ⟨item, _, heq⟩
        cases congrArg Prod.fst heq
  | object members =>
      rcases List.mem_cons.mp hshown with hfirst | hlater
      · cases hfirst
      · rcases List.mem_map.mp hlater with ⟨m, _, heq⟩
        cases congrArg Prod.fst heq

theorem hasElement_of_elementText {item : Json} (h : elementText item = some x) :
    hasElement x item = true := by
  have hsame : (elementText item == some x) = true := by
    rw [h]
    exact beq_self_eq_true _
  cases item with
  | object record => exact hsame
  | null => exact hsame
  | bool b => exact hsame
  | number text => exact hsame
  | string s => exact hsame
  | array items => exact hsame

theorem factTest_has {kind : PathKind} (hkind : kind ≠ PathKind.scalar)
    (h : (kind, some x) ∈ shownAt v) : factTest (FactTest.has x) v = true := by
  have hleaf : forall text : Option String,
      Not ((kind, some x) ∈ [(PathKind.scalar, text)]) := by
    intro text hone
    exact hkind (congrArg Prod.fst (List.mem_singleton.mp hone))
  cases v with
  | null => cases h
  | bool b => exact absurd h (hleaf _)
  | number text => exact absurd h (hleaf _)
  | string s => exact absurd h (hleaf _)
  | array items =>
      rcases List.mem_cons.mp h with hfirst | hlater
      · cases congrArg Prod.snd hfirst
      · rcases List.mem_map.mp hlater with ⟨item, hitem, heq⟩
        apply List.any_eq_true.mpr
        exact ⟨item, hitem, hasElement_of_elementText (congrArg Prod.snd heq)⟩
  | object members =>
      rcases List.mem_cons.mp h with hfirst | hlater
      · cases congrArg Prod.snd hfirst
      · rcases List.mem_map.mp hlater with ⟨m, hm, heq⟩
        have hkey : m.1 = x := Option.some.inj (congrArg Prod.snd heq)
        show (members.lookup x).isSome = true
        rw [← hkey]
        cases hlookup : members.lookup m.1 with
        | some w => rfl
        | none =>
            have habsent := List.lookup_eq_none_iff.mp hlookup m hm
            rw [bne_self_eq_false] at habsent
            cases habsent

theorem matched_has (hkeyed : Json.keyed doc = true) (h : InsideAt doc p x) :
    Matched source doc p (FactTest.has x) := by
  rcases h with ⟨v, hreached, hlist | hmap⟩
  · exact matched_of_reached hkeyed hreached (factTest_has (fun h => by cases h) hlist)
  · exact matched_of_reached hkeyed hreached (factTest_has (fun h => by cases h) hmap)

theorem kind_shown {e : PathKind × Option String} (h : e ∈ shownAt v) :
    e.1 = PathKind.scalar ∨ e.1 = PathKind.list ∨ e.1 = PathKind.map := by
  cases v with
  | null => cases h
  | bool b => exact Or.inl (congrArg Prod.fst (List.mem_singleton.mp h))
  | number text => exact Or.inl (congrArg Prod.fst (List.mem_singleton.mp h))
  | string s => exact Or.inl (congrArg Prod.fst (List.mem_singleton.mp h))
  | array items =>
      rcases List.mem_cons.mp h with hfirst | hlater
      · exact Or.inr (Or.inl (congrArg Prod.fst hfirst))
      · rcases List.mem_map.mp hlater with ⟨item, _, heq⟩
        exact Or.inr (Or.inl (congrArg Prod.fst heq.symm))
  | object members =>
      rcases List.mem_cons.mp h with hfirst | hlater
      · exact Or.inr (Or.inr (congrArg Prod.fst hfirst))
      · rcases List.mem_map.mp hlater with ⟨m, _, heq⟩
        exact Or.inr (Or.inr (congrArg Prod.fst heq.symm))

theorem scalar_or_inside (h : HasValue doc p x) : ScalarAt doc p x ∨ InsideAt doc p x := by
  rcases h with ⟨v, hreached, kind, hshown⟩
  rcases kind_shown hshown with hkind | hkind | hkind
  · cases hkind
    exact Or.inl ⟨v, hreached, hshown⟩
  · cases hkind
    exact Or.inr ⟨v, hreached, Or.inl hshown⟩
  · cases hkind
    exact Or.inr ⟨v, hreached, Or.inr hshown⟩

end Selectors

/-!
# What a listed path says
-/

structure Honest (source : String) (docs : List Json) (P : CatalogPath) : Prop where
  hosts : P.hosts = countDocs (fun doc => HasPath doc P.path) docs
  values : forall x n, (x, n) ∈ P.values ->
    n = countDocs (fun doc => HasValue doc P.path x) docs
  matchedExists : forall doc, doc ∈ docs -> HasPath doc P.path ->
    Matched source doc P.path FactTest.exists_
  matchedEq : forall x doc, doc ∈ docs -> ScalarAt doc P.path x ->
    Matched source doc P.path (FactTest.eq x)
  matchedHas : forall x doc, doc ∈ docs -> InsideAt doc P.path x ->
    Matched source doc P.path (FactTest.has x)
  scalars : forall x doc, P.kind = PathKind.scalar -> doc ∈ docs -> HasValue doc P.path x ->
    ScalarAt doc P.path x
  insides : forall x doc, P.kind = PathKind.list ∨ P.kind = PathKind.map -> doc ∈ docs ->
    HasValue doc P.path x -> InsideAt doc P.path x
  either : forall x doc, HasValue doc P.path x ->
    ScalarAt doc P.path x ∨ InsideAt doc P.path x

theorem kind_of_kept {docs : List Json} {p : String} {acc : PathAcc}
    (h : accAt docs p = some acc) (hkind : acc.kind ≠ PathKind.mixed) {doc v : Json}
    (hdoc : doc ∈ docs) (hreached : Reaches doc p v) {e : PathKind × Option String}
    (he : e ∈ shownAt v) : e.1 = acc.kind := by
  have hshallow := shallow_of_kept h
  have hpath : HasPath doc p := ⟨v, hreached, shownAt_ne_nil.mp ⟨e, he⟩⟩
  rcases Option.isSome_iff_exists.mp ((isSome_lookup hshallow).mpr hpath) with ⟨entry, hentry⟩
  have hmem : entry ∈ entriesAt docs p := List.mem_filterMap.mpr ⟨doc, hdoc, hentry⟩
  have hsame := (acc_of_kept h).2.1 hkind entry hmem
  rw [← hsame]
  apply kind_entry hshallow hentry _ hreached he
  rw [hsame]
  exact hkind

/-- Whatever documents are fed to the builder, every path it lists is counted in full,
value by value, and the selectors made from it match the documents counted. -/
theorem listed_honest {source : String} {docs : List Json.Value} {hosts : Nat} {P : CatalogPath}
    (h : P ∈ (catalogOf (docs.map Json.Value.json) source hosts).paths) :
    Honest source (docs.map Json.Value.json) P := by
  rcases kept_of_listed h with ⟨acc, hkept, hkind, hhosts, hvalues⟩
  have hkeyed : forall doc, doc ∈ docs.map Json.Value.json -> Json.keyed doc = true := by
    intro doc hdoc
    rcases List.mem_map.mp hdoc with ⟨value, _, hvalue⟩
    rw [← hvalue]
    exact value.keyed
  constructor
  · rw [hhosts]
    exact hosts_of_kept hkept
  · intro x n hshown
    rw [hvalues] at hshown
    exact count_of_kept hkept (lookup_of_shown hshown)
  · exact fun doc hdoc hpath => matched_exists (hkeyed doc hdoc) hpath
  · exact fun x doc hdoc hscalar => matched_eq (hkeyed doc hdoc) hscalar
  · exact fun x doc hdoc hinside => matched_has (hkeyed doc hdoc) hinside
  · intro x doc hscalar hdoc hvalue
    rcases hvalue with ⟨v, hreached, kind, hshown⟩
    have hmixed : acc.kind ≠ PathKind.mixed := by
      rw [← hkind, hscalar]
      intro hsame
      cases hsame
    have hsame := kind_of_kept hkept hmixed hdoc hreached hshown
    rw [← hkind, hscalar] at hsame
    cases hsame
    exact ⟨v, hreached, hshown⟩
  · intro x doc hinside hdoc hvalue
    rcases hvalue with ⟨v, hreached, kind, hshown⟩
    have hmixed : acc.kind ≠ PathKind.mixed := by
      rw [← hkind]
      cases hinside with
      | inl hlist =>
          rw [hlist]
          intro hsame
          cases hsame
      | inr hmap =>
          rw [hmap]
          intro hsame
          cases hsame
    have hsame := kind_of_kept hkept hmixed hdoc hreached hshown
    rw [← hkind] at hsame
    cases hinside with
    | inl hlist =>
        rw [hlist] at hsame
        cases hsame
        exact ⟨v, hreached, Or.inl hshown⟩
    | inr hmap =>
        rw [hmap] at hsame
        cases hsame
        exact ⟨v, hreached, Or.inr hshown⟩
  · exact fun x doc hvalue => scalar_or_inside hvalue

def oneMember (k : String) (v : Json) (h : Json.keyed v = true) : Json.Value where
  json := Json.object [(k, v)]
  keyed := by
    apply Json.keyed_object.mpr
    constructor
    · exact List.pairwise_singleton _ _
    · intro m hm
      rw [List.mem_singleton.mp hm]
      exact h

def linuxDocument : Json.Value :=
  oneMember "os" (Json.string "linux") rfl

def listedOs (hosts : Nat) : CatalogPath :=
  { path := "os", kind := PathKind.scalar, hosts := hosts, values := [("linux", hosts)] }

theorem listed_honest_os :
    Honest "agent" ([linuxDocument].map Json.Value.json) (listedOs 1) := by
  have hlisted : listedOs 1
      ∈ (catalogOf ([linuxDocument].map Json.Value.json) "agent" 1).paths := by
    decide +kernel
  exact listed_honest hlisted

/-- The documents in which something, be it null, is reached at the path. -/
def ReachesAny (doc : Json) (p : String) : Prop :=
  exists v, Reaches doc p v

def nullDocument : Json.Value :=
  oneMember "os" Json.null rfl

/-- A document that has null at a path is not counted. -/
theorem null_not_counted :
    Not (forall (source : String) (docs : List Json.Value) (hosts : Nat) (P : CatalogPath),
      P ∈ (catalogOf (docs.map Json.Value.json) source hosts).paths ->
        P.hosts = countDocs (fun doc => ReachesAny doc P.path) (docs.map Json.Value.json)) := by
  intro h
  have hlisted : listedOs 1 ∈
      (catalogOf ([linuxDocument, nullDocument].map Json.Value.json) "agent" 2).paths := by
    decide +kernel
  have hcount := h "agent" [linuxDocument, nullDocument] 2 (listedOs 1) hlisted
  have hchild : child "" "os" false = some "os" := by decide +kernel
  have hboth : forall doc, doc ∈ [linuxDocument, nullDocument].map Json.Value.json ->
      ReachesAny doc "os" := by
    intro doc hdoc
    rcases List.mem_cons.mp hdoc with hfirst | hrest
    · rw [hfirst]
      exact ⟨_, rfl, 0, Beneath.entry (List.mem_singleton_self _) hchild (Beneath.here _ _)⟩
    · rw [List.mem_singleton.mp hrest]
      exact ⟨_, rfl, 0, Beneath.entry (List.mem_singleton_self _) hchild (Beneath.here _ _)⟩
  rw [show (listedOs 1).path = "os" from rfl, countDocs_all hboth] at hcount
  cases hcount

end Catalog
end Facts
end FleetServer
