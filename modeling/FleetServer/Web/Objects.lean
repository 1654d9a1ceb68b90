import FleetServer.Core.Merge

/-!
# Maps and objects of the browser

A `Map` lists its entries in insertion order.  A plain object is read with what
every object inherits, and a write through `__proto__` changes what they all
inherit, so the objects one function builds are kept in a heap with the additions
to `Object.prototype`.
-/

namespace FleetServer
namespace Web

open FleetServer.Core
open Core.Json

/-!
# Maps
-/

variable {beta : Type}

/-- `Map.prototype.set` -/
def mapSet (id : String) (row : beta) : List (String × beta) -> List (String × beta)
  | [] => [(id, row)]
  | e :: rest => if e.1 = id then (id, row) :: rest else e :: mapSet id row rest

theorem mem_mapSet {id : String} {row : beta} {e : String × beta} :
    forall {rows : List (String × beta)}, (rows.map Prod.fst).Nodup ->
      (e ∈ mapSet id row rows <-> e = (id, row) ∨ (e ∈ rows ∧ e.1 ≠ id))
  | [], _ => by
      show e ∈ [(id, row)] <-> _
      rw [List.mem_singleton]
      constructor
      · intro h
        exact Or.inl h
      · rintro (h | h)
        · exact h
        · cases h.1
  | first :: rest, hnodup => by
      have hparts := List.nodup_cons.mp hnodup
      unfold mapSet
      split
      · rename_i hid
        have hrest : forall x, x ∈ rest -> x.1 ≠ id := by
          intro x hx heq
          apply hparts.1
          rw [hid, ← heq]
          exact List.mem_map.mpr ⟨x, hx, rfl⟩
        constructor
        · intro h
          rcases List.mem_cons.mp h with h | h
          · exact Or.inl h
          · exact Or.inr ⟨List.mem_cons_of_mem _ h, hrest e h⟩
        · rintro (h | ⟨h, hne⟩)
          · rw [h]
            exact List.mem_cons_self
          · rcases List.mem_cons.mp h with rfl | h
            · exact absurd hid hne
            · exact List.mem_cons_of_mem _ h
      · rename_i hid
        rw [List.mem_cons, mem_mapSet hparts.2]
        constructor
        · rintro (rfl | h | h)
          · exact Or.inr ⟨List.mem_cons_self, hid⟩
          · exact Or.inl h
          · exact Or.inr ⟨List.mem_cons_of_mem _ h.1, h.2⟩
        · rintro (h | ⟨h, hne⟩)
          · exact Or.inr (Or.inl h)
          · rcases List.mem_cons.mp h with h | h
            · exact Or.inl h
            · exact Or.inr (Or.inr ⟨h, hne⟩)

theorem map_fst_mapSet (id : String) (row : beta) :
    forall rows : List (String × beta), (mapSet id row rows).map Prod.fst =
      if id ∈ rows.map Prod.fst then rows.map Prod.fst else rows.map Prod.fst ++ [id]
  | [] => rfl
  | first :: rest => by
      unfold mapSet
      split
      · rename_i hid
        rw [if_pos]
        · rw [List.map_cons, List.map_cons, hid]
        · rw [List.map_cons, hid]
          exact List.mem_cons_self
      · rename_i hid
        rw [List.map_cons, map_fst_mapSet id row rest, List.map_cons]
        have hmem : id ∈ first.1 :: rest.map Prod.fst <-> id ∈ rest.map Prod.fst := by
          rw [List.mem_cons]
          constructor
          · rintro (h | h)
            · exact absurd h.symm hid
            · exact h
          · intro h
            exact Or.inr h
        by_cases hin : id ∈ rest.map Prod.fst
        · rw [if_pos hin, if_pos (hmem.mpr hin)]
        · rw [if_neg hin, if_neg (fun h => hin (hmem.mp h))]
          rfl

theorem lookup_mapSet (id other : String) (row : beta)
    (rows : List (String × beta)) :
    (mapSet id row rows).lookup other =
      if other = id then some row else rows.lookup other := by
  induction rows with
  | nil =>
      show List.lookup other [(id, row)] = _
      rw [List.lookup_cons]
      split
      · rename_i h
        rw [if_pos (beq_iff_eq.mp h)]
      · rename_i h
        rw [if_neg (beq_eq_false_iff_ne.mp h)]
  | cons first rest ih =>
      rcases first with ⟨name, old⟩
      rw [mapSet]
      split
      · rename_i hname
        have hname : name = id := hname
        subst hname
        rw [List.lookup_cons, List.lookup_cons]
        split
        · rename_i h
          rw [if_pos (beq_iff_eq.mp h)]
        · rename_i h
          rw [if_neg (beq_eq_false_iff_ne.mp h)]
      · rename_i hname
        rw [List.lookup_cons, List.lookup_cons, ih]
        split
        · rename_i h
          have hother : other ≠ id := by
            intro heq
            exact hname ((beq_iff_eq.mp h).symm.trans heq)
          rw [if_neg hother]
        · rfl

/-- `new Map(entries)` -/
def newMap (entries : List (String × beta)) : List (String × beta) :=
  entries.foldl (fun rows e => mapSet e.1 e.2 rows) []

/-!
# Objects
-/

def decimalKey (k : String) : Option Nat :=
  match k.toList with
  | [] => none
  | ['0'] => some 0
  | '0' :: _ => none
  | cs =>
      if cs.all isAsciiDigit then some (cs.foldl (fun n c => n * 10 + (c.toNat - 48)) 0)
      else none

def arrayIndex (k : String) : Option Nat :=
  (decimalKey k).filter fun n => decide (n < 4294967295)

def listedBefore (k l : String) : Bool :=
  match arrayIndex k, arrayIndex l with
  | some m, some n => decide (m < n)
  | some _, none => true
  | none, _ => false

/-- Set a property the object has. -/
def replaceOwn (k : String) (v : Json) : List Member -> List Member
  | [] => []
  | (l, u) :: rest => if k = l then (k, v) :: rest else (l, u) :: replaceOwn k v rest

/-- Set an own property. -/
def insertOwn (k : String) (v : Json) (members : List Member) : List Member :=
  if (members.lookup k).isSome then replaceOwn k v members
  else insertBy listedBefore k v members

def membersAt (members : List Member) : List String -> List Member
  | [] => members
  | k :: rest =>
      match members.lookup k with
      | some (object m) => membersAt m rest
      | _ => []

def updateAt (f : List Member -> List Member) (members : List Member) :
    List String -> List Member
  | [] => f members
  | k :: rest =>
      match members.lookup k with
      | some (object m) => replaceOwn k (object (updateAt f m rest)) members
      | _ => members

/-- Where an object hangs. -/
inductive Root where
  | document
  | prototype
deriving DecidableEq

structure Ref where
  root : Root
  path : List String
deriving DecidableEq

/-- The document being built, and what was added to `Object.prototype`. -/
structure Heap where
  document : List Member
  prototype : List Member

inductive JsValue where
  | undefined
  | function
  | null_
  | primitive (v : Json)
  | reference (r : Ref)

/-- The methods of `Object.prototype`, and its `constructor`. -/
def objectMethods : List String :=
  ["constructor", "__defineGetter__", "__defineSetter__", "hasOwnProperty",
    "__lookupGetter__", "__lookupSetter__", "isPrototypeOf", "propertyIsEnumerable",
    "toString", "valueOf", "toLocaleString"]

def protoKey : String := "__proto__"

def emptyHeap : Heap where
  document := []
  prototype := []

def documentRef : Ref where
  root := Root.document
  path := []

def prototypeRef : Ref where
  root := Root.prototype
  path := []

def Ref.child (r : Ref) (k : String) : Ref where
  root := r.root
  path := r.path ++ [k]

namespace Heap

def members (h : Heap) (r : Ref) : List Member :=
  match r.root with
  | Root.document => membersAt h.document r.path
  | Root.prototype => membersAt h.prototype r.path

def valueOf (r : Ref) (k : String) : Json -> JsValue
  | Json.null => JsValue.null_
  | Json.object _ => JsValue.reference (r.child k)
  | v => JsValue.primitive v

/-- What every object inherits under a key, but for `__proto__`. -/
def inherited (h : Heap) (k : String) : JsValue :=
  match h.prototype.lookup k with
  | some v => valueOf prototypeRef k v
  | none => if objectMethods.contains k then JsValue.function else JsValue.undefined

/-- `node[k]` -/
def read (h : Heap) (r : Ref) (k : String) : JsValue :=
  match (h.members r).lookup k with
  | some v => valueOf r k v
  | none =>
      if k = protoKey then
        if r = prototypeRef then JsValue.null_ else JsValue.reference prototypeRef
      else h.inherited k

/-- `node[k] = v` for a string or a fresh object; `__proto__` takes no string. -/
def write (h : Heap) (r : Ref) (k : String) (v : Json) : Heap :=
  if k = protoKey then h
  else
    match r.root with
    | Root.document => { h with document := updateAt (insertOwn k v) h.document r.path }
    | Root.prototype => { h with prototype := updateAt (insertOwn k v) h.prototype r.path }

end Heap

/-!
# Reading back
-/

variable {k l : String} {v u : Json} {members : List Member}

theorem lookup_replaceOwn (h : (members.lookup k).isSome = true) :
    (replaceOwn k v members).lookup l = if l = k then some v else members.lookup l := by
  induction members with
  | nil => cases h
  | cons m rest ih =>
      rcases m with ⟨j, w⟩
      unfold replaceOwn
      split
      · rename_i hkj
        subst hkj
        rw [List.lookup_cons, List.lookup_cons]
        split
        · rename_i hl
          rw [if_pos (beq_iff_eq.mp hl)]
        · rename_i hl
          rw [if_neg (beq_eq_false_iff_ne.mp hl)]
      · rename_i hkj
        rw [List.lookup_cons, beq_eq_false_iff_ne.mpr hkj] at h
        rw [List.lookup_cons, List.lookup_cons, ih h]
        split
        · rename_i hl
          have hlk : l ≠ k := by
            rintro rfl
            exact hkj (beq_iff_eq.mp hl)
          rw [if_neg hlk]
        · rfl

theorem lookup_insertOwn (k l : String) (v : Json) (members : List Member) :
    (insertOwn k v members).lookup l = if l = k then some v else members.lookup l := by
  unfold insertOwn
  split
  · rename_i h
    exact lookup_replaceOwn h
  · exact lookup_insertBy _ k l v members

theorem replaceOwn_replaceOwn (members : List Member) :
    replaceOwn k v (replaceOwn k u members) = replaceOwn k v members := by
  induction members with
  | nil => rfl
  | cons m rest ih =>
      rcases m with ⟨l, w⟩
      by_cases hkl : k = l
      · have hinner : replaceOwn k u ((l, w) :: rest) = (k, u) :: rest := if_pos hkl
        have houter : replaceOwn k v ((l, w) :: rest) = (k, v) :: rest := if_pos hkl
        rw [hinner, houter]
        exact if_pos rfl
      · have hinner : replaceOwn k u ((l, w) :: rest) = (l, w) :: replaceOwn k u rest :=
          if_neg hkl
        have houter : replaceOwn k v ((l, w) :: rest) = (l, w) :: replaceOwn k v rest :=
          if_neg hkl
        rw [hinner, houter, ← ih]
        exact if_neg hkl

theorem replaceOwn_same :
    forall {members : List Member}, members.lookup k = some v -> replaceOwn k v members = members
  | [], h => by cases h
  | (l, w) :: rest, h => by
      rw [List.lookup_cons] at h
      by_cases hkl : k = l
      · subst hkl
        rw [beq_self_eq_true] at h
        cases h
        exact if_pos rfl
      · rw [beq_eq_false_iff_ne.mpr hkl] at h
        have hcons : replaceOwn k v ((l, w) :: rest) = (l, w) :: replaceOwn k v rest :=
          if_neg hkl
        rw [hcons, replaceOwn_same h]

theorem replaceOwn_insertBy (before : String -> String -> Bool) :
    forall {members : List Member}, members.lookup k = none ->
      replaceOwn k v (insertBy before k u members) = insertBy before k v members
  | [], _ => if_pos rfl
  | (l, w) :: rest, h => by
      rw [List.lookup_cons] at h
      have hkl : k ≠ l := by
        rintro rfl
        rw [beq_self_eq_true] at h
        cases h
      rw [beq_eq_false_iff_ne.mpr hkl] at h
      unfold insertBy
      rw [if_neg hkl, if_neg hkl]
      split
      · exact if_pos rfl
      · have hcons : replaceOwn k v ((l, w) :: insertBy before k u rest)
            = (l, w) :: replaceOwn k v (insertBy before k u rest) := if_neg hkl
        rw [hcons, replaceOwn_insertBy before h]

/-- Setting a property again. -/
theorem replaceOwn_insertOwn (h : members.lookup k = none) :
    replaceOwn k v (insertOwn k u members) = insertOwn k v members := by
  unfold insertOwn
  rw [h]
  exact replaceOwn_insertBy listedBefore h

/-!
# Changing an object
-/

variable {f g : List Member -> List Member}

theorem updateAt_object {m : List Member} (hk : members.lookup k = some (object m))
    (p : List String) :
    updateAt f members (k :: p) = replaceOwn k (object (updateAt f m p)) members := by
  rw [updateAt, hk]

/-- Below anything but an object there is nothing to change. -/
theorem updateAt_other (hk : forall m, members.lookup k ≠ some (object m))
    (p : List String) : updateAt f members (k :: p) = members := by
  rw [updateAt]
  split
  · rename_i m hm
    exact absurd hm (hk m)
  · rfl

theorem object_or_other (o : Option Json) :
    (exists m, o = some (object m)) ∨ (forall m, o ≠ some (object m)) := by
  by_cases h : exists m, o = some (object m)
  · exact Or.inl h
  · exact Or.inr fun m hm => h ⟨m, hm⟩

theorem membersAt_object {m : List Member} (hk : members.lookup k = some (object m))
    (p : List String) : membersAt members (k :: p) = membersAt m p := by
  rw [membersAt, hk]

theorem updateAt_append (f : List Member -> List Member) (q : List String) :
    forall (p : List String) (members : List Member),
      updateAt f members (p ++ q) = updateAt (fun m => updateAt f m q) members p
  | [], _ => rfl
  | k :: p, members => by
      rw [List.cons_append]
      cases object_or_other (members.lookup k) with
      | inl hk =>
          cases hk with
          | intro m hk => rw [updateAt_object hk, updateAt_object hk, updateAt_append f q p m]
      | inr hk => rw [updateAt_other hk, updateAt_other hk]

theorem updateAt_congr :
    forall (p : List String) {members : List Member},
      f (membersAt members p) = g (membersAt members p) ->
        updateAt f members p = updateAt g members p
  | [], _, h => h
  | k :: p, members, h => by
      cases object_or_other (members.lookup k) with
      | inl hk =>
          cases hk with
          | intro m hk =>
              rw [membersAt_object hk] at h
              rw [updateAt_object hk, updateAt_object hk, updateAt_congr p h]
      | inr hk => rw [updateAt_other hk, updateAt_other hk]

theorem updateAt_same :
    forall (p : List String) {members : List Member},
      f (membersAt members p) = membersAt members p -> updateAt f members p = members
  | [], _, h => h
  | k :: p, members, h => by
      cases object_or_other (members.lookup k) with
      | inl hk =>
          cases hk with
          | intro m hk =>
              rw [membersAt_object hk] at h
              rw [updateAt_object hk, updateAt_same p h]
              exact replaceOwn_same hk
      | inr hk => exact updateAt_other hk p

theorem updateAt_updateAt :
    forall (p : List String) (members : List Member),
      updateAt g (updateAt f members p) p = updateAt (fun m => g (f m)) members p
  | [], _ => rfl
  | k :: p, members => by
      cases object_or_other (members.lookup k) with
      | inl hk =>
          cases hk with
          | intro m hk =>
              have hsome : (members.lookup k).isSome = true := by
                rw [hk]
                rfl
              have hnew : (replaceOwn k (object (updateAt f m p)) members).lookup k
                  = some (object (updateAt f m p)) := by
                rw [lookup_replaceOwn hsome]
                exact if_pos rfl
              rw [updateAt_object hk, updateAt_object hnew, replaceOwn_replaceOwn,
                updateAt_object hk, updateAt_updateAt p m]
      | inr hk => rw [updateAt_other hk, updateAt_other hk, updateAt_other hk]

end Web
end FleetServer
