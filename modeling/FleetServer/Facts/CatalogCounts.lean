import FleetServer.Core.Rfc7396
import FleetServer.Core.Spelling
import FleetServer.Data.Visited
import FleetServer.Facts.Catalog
import FleetServer.Facts.Places

/-!
# What the catalog counts

A path is reached by stepping through maps by key and fanning lists out into their
records.  Every count of the catalog is the number of documents in which the path,
or the value at it, is reached.
-/

namespace FleetServer
namespace Facts
namespace Catalog

open FleetServer.Core
open Core.FactPath
open KeyedMap
open Gathered

/-!
# Reaching
-/

/-- From a value at `path`, so many steps down to a value at another path. -/
inductive Beneath : Json -> String -> Nat -> String -> Json -> Prop where
  | here (v : Json) (path : String) : Beneath v path 0 path v
  | entry {members : List (String × Json)} {path k q p : String} {w u : Json} {n : Nat}
      (hmember : (k, w) ∈ members) (hchild : child path k false = some q)
      (hbelow : Beneath w q n p u) : Beneath (Json.object members) path (n + 1) p u
  | field {items : List Json} {record : List (String × Json)} {path k q p : String}
      {w u : Json} {n : Nat} (hrecord : Json.object record ∈ items)
      (hmember : (k, w) ∈ record) (hchild : child path k true = some q)
      (hbelow : Beneath w q n p u) : Beneath (Json.array items) path (n + 1) p u

/-- A document is a map, and every path of it starts with a key. -/
def Reaches (doc : Json) (path : String) (v : Json) : Prop :=
  doc.isObject = true ∧ exists n, Beneath doc "" (n + 1) path v

def elementText : Json -> Option String
  | Json.object record => ((Json.object record).get "id").bind Json.asString
  | other => scalarText other

def shownAt : Json -> List (PathKind × Option String)
  | Json.null => []
  | Json.object members => (PathKind.map, none) :: members.map fun m => (PathKind.map, some m.1)
  | Json.array items =>
      (PathKind.list, none) :: items.map fun item => (PathKind.list, elementText item)
  | Json.bool b => [(PathKind.scalar, scalarText (Json.bool b))]
  | Json.number text => [(PathKind.scalar, scalarText (Json.number text))]
  | Json.string s => [(PathKind.scalar, scalarText (Json.string s))]

section Walks

variable {path p : String} {depth : Nat} {e : PathKind × Option String}

def NotedBelow (path : String) (inRecord : Bool) (depth : Nat) (members : List (String × Json))
    (p : String) (e : PathKind × Option String) : Prop :=
  exists k w q n u, (k, w) ∈ members ∧ child path k inRecord = some q ∧ Beneath w q n p u ∧
    depth + 1 + n ≤ maxCatalogDepth ∧ e ∈ shownAt u

theorem notedBelow_cons {inRecord : Bool} {k : String} {v : Json}
    {rest : List (String × Json)} :
    NotedBelow path inRecord depth ((k, v) :: rest) p e <->
      (exists q n u, child path k inRecord = some q ∧ Beneath v q n p u ∧
        depth + 1 + n ≤ maxCatalogDepth ∧ e ∈ shownAt u) ∨
        NotedBelow path inRecord depth rest p e := by
  constructor
  · intro h
    rcases h with ⟨l, w, q, n, u, hmem, hrest⟩
    cases List.mem_cons.mp hmem with
    | inl hfirst =>
        cases hfirst
        exact Or.inl ⟨q, n, u, hrest⟩
    | inr hlater => exact Or.inr ⟨l, w, q, n, u, hlater, hrest⟩
  · intro h
    cases h with
    | inl hfirst =>
        rcases hfirst with ⟨q, n, u, hrest⟩
        exact ⟨k, v, q, n, u, List.mem_cons_self, hrest⟩
    | inr hlater =>
        rcases hlater with ⟨l, w, q, n, u, hmem, hrest⟩
        exact ⟨l, w, q, n, u, List.mem_cons_of_mem _ hmem, hrest⟩

/-- A note at `p` of the value at `path` or of something below it. -/
def NotedFrom (v : Json) (path : String) (depth : Nat) (p : String)
    (e : PathKind × Option String) : Prop :=
  exists n u, Beneath v path n p u ∧ (n = 0 ∨ depth + n ≤ maxCatalogDepth) ∧ e ∈ shownAt u

theorem notedFrom_object {members : List (String × Json)} :
    NotedFrom (Json.object members) path depth p e <->
      (p = path ∧ e ∈ shownAt (Json.object members)) ∨
        NotedBelow path false depth members p e := by
  constructor
  · intro h
    rcases h with ⟨n, u, hbeneath, hdepth, he⟩
    cases hbeneath with
    | here v path => exact Or.inl ⟨rfl, he⟩
    | entry hmember hchild hbelow =>
        right
        refine ⟨_, _, _, _, u, hmember, hchild, hbelow, ?_, he⟩
        omega
  · intro h
    cases h with
    | inl hhere =>
        rw [hhere.1]
        exact ⟨0, _, Beneath.here _ _, Or.inl rfl, hhere.2⟩
    | inr hbelow =>
        rcases hbelow with ⟨k, w, q, n, u, hmember, hchild, hbeneath, hdepth, he⟩
        refine ⟨n + 1, u, Beneath.entry hmember hchild hbeneath, Or.inr ?_, he⟩
        omega

theorem notedFrom_array {items : List Json} :
    NotedFrom (Json.array items) path depth p e <->
      (p = path ∧ e ∈ shownAt (Json.array items)) ∨
        exists record, Json.object record ∈ items ∧ NotedBelow path true depth record p e := by
  constructor
  · intro h
    rcases h with ⟨n, u, hbeneath, hdepth, he⟩
    cases hbeneath with
    | here v path => exact Or.inl ⟨rfl, he⟩
    | field hrecord hmember hchild hbelow =>
        right
        refine ⟨_, hrecord, _, _, _, _, u, hmember, hchild, hbelow, ?_, he⟩
        omega
  · intro h
    cases h with
    | inl hhere =>
        rw [hhere.1]
        exact ⟨0, _, Beneath.here _ _, Or.inl rfl, hhere.2⟩
    | inr hbelow =>
        rcases hbelow with ⟨record, hrecord, k, w, q, n, u, hmember, hchild, hbeneath, hdepth, he⟩
        refine ⟨n + 1, u, Beneath.field hrecord hmember hchild hbeneath, Or.inr ?_, he⟩
        omega

/-- A value with nothing below it. -/
theorem notedFrom_leaf {v : Json} (hobject : forall members, v ≠ Json.object members)
    (harray : forall items, v ≠ Json.array items) :
    NotedFrom v path depth p e <-> p = path ∧ e ∈ shownAt v := by
  constructor
  · intro h
    rcases h with ⟨n, u, hbeneath, hdepth, he⟩
    cases hbeneath with
    | here v path => exact ⟨rfl, he⟩
    | entry hmember hchild hbelow => exact absurd rfl (hobject _)
    | field hrecord hmember hchild hbelow => exact absurd rfl (harray _)
  · intro h
    rw [h.1]
    exact ⟨0, v, Beneath.here v path, Or.inl rfl, h.2⟩

theorem mem_notes {es : List (PathKind × Option String)} :
    (p, e) ∈ (es.map fun e => (path, e)) <-> p = path ∧ e ∈ es := by
  rw [List.mem_map]
  constructor
  · intro h
    rcases h with ⟨e', he', heq⟩
    cases heq
    exact ⟨rfl, he'⟩
  · intro h
    rw [h.1]
    exact ⟨e, h.2, rfl⟩

theorem walk_object (path : String) (depth : Nat) (members : List (String × Json)) :
    walk path depth (Json.object members) =
      ((shownAt (Json.object members)).map fun e => (path, e)) ++
        walkChildren path false depth members := by
  rw [walk, shownAt, List.map_cons, List.map_map]
  rfl

theorem walk_leaf {v : Json} (hobject : forall members, v ≠ Json.object members)
    (harray : forall items, v ≠ Json.array items) :
    walk path depth v = (shownAt v).map fun e => (path, e) := by
  cases v with
  | null => rfl
  | bool b => rfl
  | number text => rfl
  | string s => rfl
  | array items => exact absurd rfl (harray items)
  | object members => exact absurd rfl (hobject members)

theorem mem_walk_leaf {v : Json} (hobject : forall members, v ≠ Json.object members)
    (harray : forall items, v ≠ Json.array items) :
    (p, e) ∈ walk path depth v <-> NotedFrom v path depth p e := by
  rw [notedFrom_leaf hobject harray, walk_leaf hobject harray, mem_notes]

def NotedItem (path : String) (depth : Nat) (item : Json) (p : String)
    (e : PathKind × Option String) : Prop :=
  (p = path ∧ e = (PathKind.list, elementText item)) ∨
    exists record, item = Json.object record ∧ NotedBelow path true depth record p e

theorem mem_walkItem_leaf {item : Json} (h : forall record, item ≠ Json.object record) :
    (p, e) ∈ walkItem path depth item <-> NotedItem path depth item p e := by
  have hitem : walkItem path depth item = [(path, PathKind.list, elementText item)] := by
    cases item with
    | null => rfl
    | bool b => rfl
    | number text => rfl
    | string s => rfl
    | array items => rfl
    | object record => exact absurd rfl (h record)
  rw [hitem, List.mem_singleton, Prod.mk.injEq]
  constructor
  · intro hhere
    exact Or.inl hhere
  · intro hnoted
    rcases hnoted with hhere | ⟨record, hrecord, _⟩
    · exact hhere
    · exact absurd hrecord (h record)

mutual

theorem mem_walk (path : String) (depth : Nat) : forall v : Json,
    (p, e) ∈ walk path depth v <-> NotedFrom v path depth p e
  | Json.null => mem_walk_leaf (fun _ h => by cases h) (fun _ h => by cases h)
  | Json.bool _ => mem_walk_leaf (fun _ h => by cases h) (fun _ h => by cases h)
  | Json.number _ => mem_walk_leaf (fun _ h => by cases h) (fun _ h => by cases h)
  | Json.string _ => mem_walk_leaf (fun _ h => by cases h) (fun _ h => by cases h)
  | Json.object members => by
      rw [notedFrom_object, ← mem_walkChildren path false depth members, walk_object,
        List.mem_append, mem_notes]
  | Json.array items => by
      rw [notedFrom_array, walk, List.mem_cons, mem_walkItems path depth items, shownAt,
        List.mem_cons, List.mem_map, Prod.mk.injEq]
      constructor
      · intro h
        rcases h with hhere | ⟨item, hitem, hshown | ⟨record, hrecord, hbelow⟩⟩
        · exact Or.inl ⟨hhere.1, Or.inl hhere.2⟩
        · exact Or.inl ⟨hshown.1, Or.inr ⟨item, hitem, hshown.2.symm⟩⟩
        · rw [hrecord] at hitem
          exact Or.inr ⟨record, hitem, hbelow⟩
      · intro h
        rcases h with ⟨hpath, hfirst | ⟨item, hitem, hshown⟩⟩ | ⟨record, hrecord, hbelow⟩
        · exact Or.inl ⟨hpath, hfirst⟩
        · exact Or.inr ⟨item, hitem, Or.inl ⟨hpath, hshown.symm⟩⟩
        · exact Or.inr ⟨_, hrecord, Or.inr ⟨record, rfl, hbelow⟩⟩

theorem mem_walkItems (path : String) (depth : Nat) : forall items : List Json,
    (p, e) ∈ walkItems path depth items <->
      exists item, item ∈ items ∧ NotedItem path depth item p e
  | [] => by
      show (p, e) ∈ [] <-> _
      constructor
      · intro h
        cases h
      · intro h
        rcases h with ⟨item, hitem, _⟩
        cases hitem
  | item :: rest => by
      rw [walkItems, List.mem_append, mem_walkItem path depth item,
        mem_walkItems path depth rest]
      constructor
      · intro h
        rcases h with hfirst | ⟨other, hother, hnoted⟩
        · exact ⟨item, List.mem_cons_self, hfirst⟩
        · exact ⟨other, List.mem_cons_of_mem _ hother, hnoted⟩
      · intro h
        rcases h with ⟨other, hother, hnoted⟩
        cases List.mem_cons.mp hother with
        | inl hsame =>
            rw [hsame] at hnoted
            exact Or.inl hnoted
        | inr hlater => exact Or.inr ⟨other, hlater, hnoted⟩

theorem mem_walkItem (path : String) (depth : Nat) : forall item : Json,
    (p, e) ∈ walkItem path depth item <-> NotedItem path depth item p e
  | Json.object record => by
      rw [walkItem, List.mem_cons, mem_walkChildren path true depth record, Prod.mk.injEq]
      constructor
      · intro h
        cases h with
        | inl hhere => exact Or.inl hhere
        | inr hbelow => exact Or.inr ⟨record, rfl, hbelow⟩
      · intro h
        rcases h with hhere | ⟨other, hsame, hbelow⟩
        · exact Or.inl hhere
        · cases hsame
          exact Or.inr hbelow
  | Json.null => mem_walkItem_leaf (fun _ h => by cases h)
  | Json.bool _ => mem_walkItem_leaf (fun _ h => by cases h)
  | Json.number _ => mem_walkItem_leaf (fun _ h => by cases h)
  | Json.string _ => mem_walkItem_leaf (fun _ h => by cases h)
  | Json.array _ => mem_walkItem_leaf (fun _ h => by cases h)

theorem mem_walkChildren (path : String) (inRecord : Bool) (depth : Nat) :
    forall members : List (String × Json),
      (p, e) ∈ walkChildren path inRecord depth members <->
        NotedBelow path inRecord depth members p e
  | [] => by
      show (p, e) ∈ [] <-> _
      constructor
      · intro h
        cases h
      · intro h
        rcases h with ⟨k, w, q, n, u, hmember, _⟩
        cases hmember
  | (k, v) :: rest => by
      rw [walkChildren, List.mem_append, notedBelow_cons,
        mem_walkChildren path inRecord depth rest]
      apply or_congr _ Iff.rfl
      split
      · rename_i hdeep
        constructor
        · intro h
          cases h
        · intro h
          rcases h with ⟨q, n, u, _, _, hdepth, _⟩
          omega
      · rename_i hshallow
        split
        · rename_i hchild
          constructor
          · intro h
            cases h
          · intro h
            rcases h with ⟨q, n, u, hother, _⟩
            rw [hchild] at hother
            cases hother
        · rename_i q hchild
          rw [mem_walk q (depth + 1) v]
          constructor
          · intro h
            rcases h with ⟨n, u, hbeneath, hdepth, he⟩
            refine ⟨q, n, u, hchild, hbeneath, ?_, he⟩
            omega
          · intro h
            rcases h with ⟨q', n, u, hother, hbeneath, hdepth, he⟩
            rw [hchild] at hother
            cases hother
            exact ⟨n, u, hbeneath, Or.inr hdepth, he⟩

end

end Walks

/-!
# Reaching is spelled
-/

section Spelled

open FactStep

variable {path p k q : String} {v u : Json} {n : Nat} {steps : List FactStep}

theorem child_of_record (h : child path k true = some q) :
    child path k false = some q ∧ keyStep k = FactStep.key k := by
  unfold child at h ⊢
  split at h
  · cases h
  · rename_i hkey
    rw [if_neg hkey]
    split at h
    · rw [Bool.or_true, Bool.true_or, if_pos rfl] at h
      cases h
    · rename_i hplain
      rw [if_neg hplain]
      exact ⟨h, if_neg hplain⟩

theorem walk_eq_flatMap (steps : List FactStep) (current : List Json) :
    FactStep.walk steps current = current.flatMap fun w => FactStep.walk steps [w] := by
  induction steps generalizing current with
  | nil =>
      show current = current.flatMap fun w => [w]
      exact (List.flatMap_singleton' current).symm
  | cons step steps ih =>
      have hstep : forall ws, FactStep.walk (step :: steps) ws =
          FactStep.walk steps (ws.flatMap step.values) := fun _ => rfl
      simp only [hstep]
      rw [ih, List.flatMap_assoc]
      apply List.flatMap_congr
      intro w _
      rw [ih ([w].flatMap step.values), List.flatMap_singleton]

theorem mem_walk_cons {step : FactStep} {w : Json} (hstep : w ∈ step.values v)
    (hrest : u ∈ FactStep.walk steps [w]) : u ∈ FactStep.walk (step :: steps) [v] := by
  show u ∈ FactStep.walk steps ([v].flatMap step.values)
  rw [List.flatMap_singleton, walk_eq_flatMap]
  exact List.mem_flatMap.mpr ⟨w, hstep, hrest⟩

theorem keyed_array {items : List Json} (h : Json.keyed (Json.array items) = true) :
    forall item, item ∈ items -> Json.keyed item = true := by
  have hitems : Json.keyedItems items = true := h
  clear h
  induction items with
  | nil =>
      intro item hitem
      cases hitem
  | cons first rest ih =>
      have hboth : (Json.keyed first && Json.keyedItems rest) = true := hitems
      rw [Bool.and_eq_true] at hboth
      intro item hitem
      cases List.mem_cons.mp hitem with
      | inl hsame =>
          rw [hsame]
          exact hboth.1
      | inr hlater => exact ih hboth.2 item hlater

theorem lookup_of_keyed {members : List (String × Json)}
    (h : Json.keyed (Json.object members) = true) (hmember : (k, v) ∈ members) :
    members.lookup k = some v ∧ Json.keyed v = true := by
  have hparts := Json.keyed_object.mp h
  exact ⟨Table.lookup_of_mem (Json.nodup_of_pairwise hparts.1) hmember,
    hparts.2 (k, v) hmember⟩

theorem spells_beneath (h : Beneath v path n p u) (hpath : Spells path steps) :
    exists more, more.length = n ∧ Spells p (steps ++ more) ∧
      (Json.keyed v = true -> u ∈ FactStep.walk more [v]) := by
  induction h generalizing steps with
  | here v path =>
      refine ⟨[], rfl, ?_, fun _ => List.mem_singleton_self v⟩
      rw [List.append_nil]
      exact hpath
  | @entry members path k q p w u n hmember hchild hbelow ih =>
      rcases ih (child_spells hpath hchild).1 with ⟨more, hlength, hspells, hreached⟩
      refine ⟨keyStep k :: more, congrArg Nat.succ hlength, ?_, ?_⟩
      · rw [List.append_cons]
        exact hspells
      · intro hkeyed
        rcases lookup_of_keyed hkeyed hmember with ⟨hlookup, hw⟩
        apply mem_walk_cons _ (hreached hw)
        rw [values_keyStep, hlookup]
        exact Option.mem_toList.mpr rfl
  | @field items record path k q p w u n hrecord hmember hchild hbelow ih =>
      rcases child_of_record hchild with ⟨hplain, hstep⟩
      rcases ih (child_spells hpath hplain).1 with ⟨more, hlength, hspells, hreached⟩
      refine ⟨keyStep k :: more, congrArg Nat.succ hlength, ?_, ?_⟩
      · rw [List.append_cons]
        exact hspells
      · intro hkeyed
        rcases lookup_of_keyed (keyed_array hkeyed _ hrecord) hmember with ⟨hlookup, hw⟩
        apply mem_walk_cons _ (hreached hw)
        rw [hstep]
        exact List.mem_filterMap.mpr ⟨Json.object record, hrecord, hlookup⟩

theorem depth_unique {doc doc' u' : Json} {m : Nat} (h : Beneath doc "" n p u)
    (h' : Beneath doc' "" m p u') : n = m := by
  rcases spells_beneath h Spells.top with ⟨more, hlength, hspells, _⟩
  rcases spells_beneath h' Spells.top with ⟨more', hlength', hspells', _⟩
  have hsame := hspells.unique hspells'
  rw [List.nil_append, List.nil_append] at hsame
  rw [← hlength, ← hlength', hsame]

theorem resolve_of_reaches {doc : Json} (hkeyed : Json.keyed doc = true)
    (h : Reaches doc p v) :
    exists path, FactPath.parse p = Except.ok path ∧ v ∈ path.resolve doc := by
  rcases h.2 with ⟨n, hbeneath⟩
  rcases spells_beneath hbeneath Spells.top with ⟨more, hlength, hspells, hreached⟩
  rw [List.nil_append] at hspells
  have hne : more ≠ [] := by
    intro hnil
    rw [hnil] at hlength
    cases hlength
  rcases hspells.parse (hspells.ne_nil hne) with ⟨path, hparse, hsteps⟩
  refine ⟨path, hparse, ?_⟩
  rw [resolve_eq_walk, hsteps]
  exact hreached hkeyed

end Spelled

/-!
# Kinds and values gathered
-/

section Kinds

variable {kind : PathKind} {kinds : List PathKind}

theorem merge_eq {self other : PathKind} (h : self.merge other ≠ PathKind.mixed) :
    self = self.merge other ∧ other = self.merge other := by
  unfold PathKind.merge at h ⊢
  split
  · rename_i hsame
    exact ⟨rfl, hsame.symm⟩
  · rename_i hdiffer
    rw [if_neg hdiffer] at h
    exact absurd rfl h

theorem merged_eq {first : PathKind} (h : kinds.foldl PathKind.merge first ≠ PathKind.mixed) :
    forall other, other ∈ first :: kinds -> other = kinds.foldl PathKind.merge first := by
  induction kinds generalizing first with
  | nil =>
      intro other hother
      exact List.mem_singleton.mp hother
  | cons next rest ih =>
      intro other hother
      have hmerged := ih h
      have hfirst := hmerged _ List.mem_cons_self
      have hparts : first = first.merge next ∧ next = first.merge next := by
        apply merge_eq
        rw [hfirst]
        exact h
      show other = rest.foldl PathKind.merge (first.merge next)
      rcases List.mem_cons.mp hother with hhere | hother
      · rw [hhere, ← hfirst]
        exact hparts.1
      · rcases List.mem_cons.mp hother with hhere | hlater
        · rw [hhere, ← hfirst]
          exact hparts.2
        · exact hmerged other (List.mem_cons_of_mem _ hlater)

end Kinds

section Notes

variable {items : List (PathKind × Option String)} {kind : PathKind} {values : List String}

def shortValue (e : PathKind × Option String) : List String :=
  (e.2.filter fun v => decide (byteLen v ≤ maxValueLen)).toList

theorem foldl_note (entry : PathKind × List String) :
    items.foldl noteGather.add entry =
      ((items.map Prod.fst).foldl PathKind.merge entry.1,
        entry.2 ++ items.flatMap shortValue) := by
  induction items generalizing entry with
  | nil =>
      show entry = (entry.1, entry.2 ++ [])
      rw [List.append_nil]
  | cons e rest ih =>
      rw [List.foldl_cons, ih, List.flatMap_cons, ← List.append_assoc]
      rfl

theorem mem_shortValue {e : PathKind × Option String} {x : String} :
    x ∈ shortValue e <-> e.2 = some x ∧ byteLen x ≤ maxValueLen := by
  unfold shortValue
  rw [Option.mem_toList, Option.filter_eq_some_iff, decide_eq_true_iff]

theorem noted_all (h : noteGather.all items = some (kind, values)) :
    (kind ≠ PathKind.mixed -> forall e, e ∈ items -> e.1 = kind) ∧
      forall x, x ∈ values <->
        (exists e, e ∈ items ∧ e.2 = some x) ∧ byteLen x ≤ maxValueLen := by
  cases items with
  | nil => cases h
  | cons first rest =>
      have hentry := Option.some.inj h
      rw [foldl_note] at hentry
      cases hentry
      constructor
      · intro hkind e he
        have hkinds : ((first :: rest).map Prod.fst).foldl PathKind.merge first.1 =
            (rest.map Prod.fst).foldl PathKind.merge first.1 := by
          show (rest.map Prod.fst).foldl PathKind.merge (first.1.merge first.1) = _
          rw [show first.1.merge first.1 = first.1 from if_pos rfl]
        have hkind : (rest.map Prod.fst).foldl PathKind.merge first.1 ≠ PathKind.mixed := by
          rw [← hkinds]
          exact hkind
        show e.1 = ((first :: rest).map Prod.fst).foldl PathKind.merge first.1
        rw [hkinds]
        apply merged_eq hkind
        exact List.mem_map_of_mem (f := Prod.fst) he
      · intro x
        show x ∈ [] ++ _ <-> _
        rw [List.nil_append, List.mem_flatMap]
        constructor
        · intro hx
          rcases hx with ⟨e, he, hshort⟩
          exact ⟨⟨e, he, (mem_shortValue.mp hshort).1⟩, (mem_shortValue.mp hshort).2⟩
        · intro hx
          rcases hx with ⟨⟨e, he, hvalue⟩, hshort⟩
          exact ⟨e, he, mem_shortValue.mpr ⟨hvalue, hshort⟩⟩

def docNotes : Json -> List Note
  | Json.object members => walkChildren "" false 0 members
  | _ => []

theorem localPaths_eq (doc : Json) : localPaths doc = (docNotes doc).foldl note ∅ := by
  cases doc with
  | object members => rfl
  | null => rfl
  | bool b => rfl
  | number text => rfl
  | string s => rfl
  | array items => rfl

theorem lookup_localPaths (doc : Json) (p : String) :
    (localPaths doc).lookup p = noteGather.all (itemsOf p (docNotes doc)) := by
  rw [localPaths_eq]
  apply lookup_of_complete (fun _ => rfl)
  exact complete_foldl (fun _ h => by cases h) complete_empty

theorem mem_docNotes {doc : Json} {p : String} {e : PathKind × Option String} :
    (p, e) ∈ docNotes doc <->
      doc.isObject = true ∧ exists n u, Beneath doc "" (n + 1) p u ∧
        n + 1 ≤ maxCatalogDepth ∧ e ∈ shownAt u := by
  cases doc with
  | object members =>
      show (p, e) ∈ walkChildren "" false 0 members <-> _
      rw [mem_walkChildren]
      constructor
      · intro h
        rcases h with ⟨k, w, q, n, u, hmember, hchild, hbeneath, hdepth, he⟩
        refine ⟨rfl, n, u, Beneath.entry hmember hchild hbeneath, ?_, he⟩
        omega
      · intro h
        rcases h with ⟨_, n, u, hbeneath, hdepth, he⟩
        cases hbeneath with
        | entry hmember hchild hbelow =>
            refine ⟨_, _, _, n, u, hmember, hchild, hbelow, ?_, he⟩
            omega
  | null => exact ⟨fun h => absurd h List.not_mem_nil, fun h => absurd h.1 Bool.false_ne_true⟩
  | bool b => exact ⟨fun h => absurd h List.not_mem_nil, fun h => absurd h.1 Bool.false_ne_true⟩
  | number text =>
      exact ⟨fun h => absurd h List.not_mem_nil, fun h => absurd h.1 Bool.false_ne_true⟩
  | string s =>
      exact ⟨fun h => absurd h List.not_mem_nil, fun h => absurd h.1 Bool.false_ne_true⟩
  | array items =>
      exact ⟨fun h => absurd h List.not_mem_nil, fun h => absurd h.1 Bool.false_ne_true⟩

end Notes

/-!
# Documents folded in
-/

section Fold

variable {docs : List Json} {p x : String}

theorem itemsOf_inOrder {alpha : Type} (m : Map String alpha) (k : String) :
    itemsOf k (inOrder m) = (m.lookup k).toList := by
  have hperm : (inOrder m).Perm (m.entries.map fun e => (e.1, e.2)) :=
    List.perm_insertionSort _ _
  have hkeys : ((inOrder m).map Prod.fst).Nodup := by
    apply (hperm.map Prod.fst).nodup_iff.mpr
    rw [List.map_map]
    exact m.nodupKeys
  have hmem : forall v, (k, v) ∈ inOrder m <-> m.lookup k = some v := by
    intro v
    rw [hperm.mem_iff, List.mem_map]
    constructor
    · intro h
      rcases h with ⟨e, he, heq⟩
      cases heq
      exact AList.mem_lookup_iff.mpr he
    · intro h
      exact ⟨⟨k, v⟩, AList.mem_lookup_iff.mp h, rfl⟩
  cases hlookup : m.lookup k with
  | some v =>
      have honly : ((inOrder m).filter fun e => e.1 == k) = [(k, v)] :=
        Table.filter_key hkeys ((hmem v).mpr hlookup)
      unfold itemsOf
      have hsame : (fun e : String × alpha => decide (e.1 = k)) = fun e => e.1 == k :=
        funext fun e => (beq_eq_decide e.1 k).symm
      rw [hsame, honly]
      rfl
  | none =>
      show itemsOf k (inOrder m) = []
      apply List.eq_nil_iff_forall_not_mem.mpr
      intro v hv
      have hsome := (hmem v).mp (mem_itemsOf.mp hv)
      rw [hlookup] at hsome
      cases hsome

/-- The entries the documents offer to the builder. -/
def offered (docs : List Json) : List (String × PathKind × List String) :=
  docs.flatMap fun doc => inOrder (localPaths doc)

theorem paths_addDocument (acc : CatalogAcc) (doc : Json) :
    (acc.addDocument doc).paths =
      (inOrder (localPaths doc)).foldl pathGather.offer acc.paths := by
  unfold CatalogAcc.addDocument
  generalize inOrder (localPaths doc) = es
  induction es generalizing acc with
  | nil => rfl
  | cons e es ih =>
      rw [List.foldl_cons, ih, List.foldl_cons]
      rfl

theorem paths_foldl (acc : CatalogAcc) :
    (docs.foldl CatalogAcc.addDocument acc).paths =
      (offered docs).foldl pathGather.offer acc.paths := by
  induction docs generalizing acc with
  | nil => rfl
  | cons doc docs ih =>
      rw [List.foldl_cons, ih, paths_addDocument]
      unfold offered
      rw [List.flatMap_cons, List.foldl_append]

theorem itemsOf_offered (docs : List Json) (p : String) :
    itemsOf p (offered docs) = docs.filterMap fun doc => (localPaths doc).lookup p := by
  induction docs with
  | nil => rfl
  | cons doc docs ih =>
      unfold offered at ih ⊢
      rw [List.flatMap_cons, itemsOf_append, ih, itemsOf_inOrder, List.filterMap_cons]
      cases (localPaths doc).lookup p with
      | none => rfl
      | some entry => rfl

theorem foldl_path {items : List (PathKind × List String)} (acc : PathAcc) :
    items.foldl pathGather.add acc =
      { kind := (items.map Prod.fst).foldl PathKind.merge acc.kind
        hosts := acc.hosts + items.length
        values := (items.flatMap fun e => (sortedSet e.2).map fun v => (v, ())).foldl
          valueGather.offer acc.values } := by
  induction items generalizing acc with
  | nil => rfl
  | cons e rest ih =>
      rw [List.foldl_cons, ih, List.flatMap_cons, List.foldl_append, List.length_cons]
      show PathAcc.mk _ (acc.hosts + 1 + rest.length) _ = PathAcc.mk _ _ _
      rw [Nat.add_assoc, Nat.add_comm 1]
      rfl

theorem valueGather_all {items : List Unit} {n : Nat} (h : valueGather.all items = some n) :
    n = items.length := by
  have hcount : forall (items : List Unit) (n : Nat),
      items.foldl valueGather.add n = n + items.length := by
    intro items
    induction items with
    | nil => exact fun n => rfl
    | cons item rest ih =>
        intro n
        rw [List.foldl_cons, ih, List.length_cons]
        show n + 1 + rest.length = _
        omega
  cases items with
  | nil => cases h
  | cons first rest =>
      have hn := Option.some.inj h
      rw [← hn, hcount]
      show 0 + _ = _
      rw [Nat.zero_add]

/-- A value is offered once by every entry that has it. -/
theorem length_itemsOf_values (items : List (PathKind × List String)) (x : String) :
    (itemsOf x (items.flatMap fun e => (sortedSet e.2).map fun v => (v, ()))).length =
      items.countP fun e => decide (x ∈ e.2) := by
  induction items with
  | nil => rfl
  | cons e rest ih =>
      rw [List.flatMap_cons, itemsOf_append, List.length_append, ih, List.countP_cons,
        Nat.add_comm]
      congr 1
      have hone : (itemsOf x ((sortedSet e.2).map fun v => (v, ()))).length =
          (sortedSet e.2).count x := by
        unfold itemsOf
        rw [List.length_map, List.filter_map, List.length_map, List.count_eq_length_filter]
        congr 1
      rw [hone, (nodup_sortedSet e.2).count]
      simp only [mem_sortedSet, decide_eq_true_eq]

end Fold

/-!
# What is listed
-/

section Listed

variable {docs : List Json} {p x : String} {doc : Json} {acc : PathAcc} {n : Nat}

def HasPath (doc : Json) (p : String) : Prop :=
  exists v, Reaches doc p v ∧ v ≠ Json.null

def HasValue (doc : Json) (p x : String) : Prop :=
  exists v, Reaches doc p v ∧ exists kind, (kind, some x) ∈ shownAt v

/-- Some document reaches the path within the depth that is walked. -/
def Shallow (p : String) : Prop :=
  exists doc n u, Beneath doc "" (n + 1) p u ∧ n + 1 ≤ maxCatalogDepth

theorem shownAt_ne_nil {v : Json} : (exists e, e ∈ shownAt v) <-> v ≠ Json.null := by
  cases v with
  | null =>
      constructor
      · intro h
        rcases h with ⟨e, he⟩
        cases he
      · intro h
        exact absurd rfl h
  | bool b => exact ⟨fun _ => (fun h => by cases h), fun _ => ⟨_, List.mem_cons_self⟩⟩
  | number text => exact ⟨fun _ => (fun h => by cases h), fun _ => ⟨_, List.mem_cons_self⟩⟩
  | string s => exact ⟨fun _ => (fun h => by cases h), fun _ => ⟨_, List.mem_cons_self⟩⟩
  | array items => exact ⟨fun _ => (fun h => by cases h), fun _ => ⟨_, List.mem_cons_self⟩⟩
  | object members => exact ⟨fun _ => (fun h => by cases h), fun _ => ⟨_, List.mem_cons_self⟩⟩

theorem noted_iff (h : Shallow p) {e : PathKind × Option String} :
    (p, e) ∈ docNotes doc <-> exists v, Reaches doc p v ∧ e ∈ shownAt v := by
  rcases h with ⟨other, m, u, hother, hdepth⟩
  rw [mem_docNotes]
  constructor
  · intro hnoted
    rcases hnoted with ⟨hobject, n, v, hbeneath, _, he⟩
    exact ⟨v, ⟨hobject, n, hbeneath⟩, he⟩
  · intro hreached
    rcases hreached with ⟨v, ⟨hobject, n, hbeneath⟩, he⟩
    refine ⟨hobject, n, v, hbeneath, ?_, he⟩
    have hsame := depth_unique hbeneath hother
    omega

theorem isSome_all {items : List (PathKind × Option String)} :
    (noteGather.all items).isSome = true <-> exists e, e ∈ items := by
  cases items with
  | nil =>
      constructor
      · intro h
        cases h
      · intro h
        rcases h with ⟨e, he⟩
        cases he
  | cons first rest => exact ⟨fun _ => ⟨first, List.mem_cons_self⟩, fun _ => rfl⟩

theorem isSome_lookup (h : Shallow p) :
    ((localPaths doc).lookup p).isSome = true <-> HasPath doc p := by
  rw [lookup_localPaths, isSome_all]
  constructor
  · intro hitems
    rcases hitems with ⟨e, he⟩
    rcases (noted_iff h).mp (mem_itemsOf.mp he) with ⟨v, hreached, hshown⟩
    exact ⟨v, hreached, shownAt_ne_nil.mp ⟨e, hshown⟩⟩
  · intro hpath
    rcases hpath with ⟨v, hreached, hnull⟩
    rcases shownAt_ne_nil.mpr hnull with ⟨e, hshown⟩
    exact ⟨e, mem_itemsOf.mpr ((noted_iff h).mpr ⟨v, hreached, hshown⟩)⟩

theorem mem_entry (h : Shallow p) {entry : PathKind × List String}
    (hentry : (localPaths doc).lookup p = some entry) :
    x ∈ entry.2 <-> HasValue doc p x ∧ byteLen x ≤ maxValueLen := by
  rw [lookup_localPaths] at hentry
  rw [(noted_all hentry).2 x]
  apply and_congr _ Iff.rfl
  constructor
  · intro hitems
    rcases hitems with ⟨e, he, hx⟩
    rcases (noted_iff h).mp (mem_itemsOf.mp he) with ⟨v, hreached, hshown⟩
    refine ⟨v, hreached, e.1, ?_⟩
    rw [← hx]
    exact hshown
  · intro hvalue
    rcases hvalue with ⟨v, hreached, kind, hshown⟩
    exact ⟨_, mem_itemsOf.mpr ((noted_iff h).mpr ⟨v, hreached, hshown⟩), rfl⟩

theorem kind_entry (h : Shallow p) {entry : PathKind × List String}
    (hentry : (localPaths doc).lookup p = some entry) (hkind : entry.1 ≠ PathKind.mixed)
    {v : Json} (hreached : Reaches doc p v) {e : PathKind × Option String}
    (he : e ∈ shownAt v) : e.1 = entry.1 := by
  rw [lookup_localPaths] at hentry
  exact (noted_all hentry).1 hkind e (mem_itemsOf.mpr ((noted_iff h).mpr ⟨v, hreached, he⟩))

/-- The builder's entry for a path, after some documents. -/
def accAt (docs : List Json) (p : String) : Option PathAcc :=
  (docs.foldl CatalogAcc.addDocument CatalogAcc.empty).paths.lookup p

def entriesAt (docs : List Json) (p : String) : List (PathKind × List String) :=
  docs.filterMap fun doc => (localPaths doc).lookup p

theorem all_of_kept (h : accAt docs p = some acc) :
    pathGather.all (entriesAt docs p) = some acc := by
  unfold accAt at h
  rw [paths_foldl] at h
  have hroom : forall n, pathGather.room n = false -> pathGather.room (n + 1) = false := by
    intro n hn
    have hfull : ¬ n < maxCatalogPaths := of_decide_eq_false hn
    apply decide_eq_false
    omega
  have hcomplete : Complete pathGather ([] ++ offered docs)
      ((offered docs).foldl pathGather.offer ∅) := complete_foldl hroom complete_empty
  have hkept := hcomplete.kept p acc h
  rw [List.nil_append, itemsOf_offered] at hkept
  exact hkept

theorem shallow_of_kept (h : accAt docs p = some acc) : Shallow p := by
  have hall := all_of_kept h
  cases hentries : entriesAt docs p with
  | nil =>
      rw [hentries] at hall
      cases hall
  | cons entry rest =>
      have hmem : entry ∈ entriesAt docs p := by
        rw [hentries]
        exact List.mem_cons_self
      rcases List.mem_filterMap.mp hmem with ⟨doc, _, hlookup⟩
      have hsome : (noteGather.all (itemsOf p (docNotes doc))).isSome = true := by
        rw [← lookup_localPaths, hlookup]
        rfl
      rcases isSome_all.mp hsome with ⟨e, he⟩
      rcases (mem_docNotes.mp (mem_itemsOf.mp he)).2 with ⟨n, u, hbeneath, hdepth, _⟩
      exact ⟨doc, n, u, hbeneath, hdepth⟩

end Listed

end Catalog
end Facts
end FleetServer
