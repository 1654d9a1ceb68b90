import FleetServer.Web.IniAccepts

/-!
# What a text leaves behind

A section beneath a `__proto__` is made on `Object.prototype`, and stays there when the
text has been read.  Which names are there can be told from the headers and the keys.
-/

namespace FleetServer
namespace Web

open FleetServer.Core
open Core.Json

variable {members : List Member} {h h' : Heap} {r r' : Ref} {k l key value s : String}
variable {p q pre segments : List String} {v u : Json} {item : Item} {items : List Item}
variable {state state' : IniState}

/-- The names a walk puts on `Object.prototype`; `here` tells whether it stands there. -/
def placedFrom (here : Bool) : List String -> List String
  | [] => []
  | s :: rest => (if here then [s] else []) ++ placedFrom (s == protoKey) rest

def endsThere (here : Bool) : List String -> Bool
  | [] => here
  | s :: rest => endsThere (s == protoKey) rest

/-- The names a text puts on `Object.prototype`. -/
def placedNames : List String -> List Item -> List String
  | _, [] => []
  | current, Item.blank :: rest => placedNames current rest
  | _, Item.header segments :: rest => placedFrom false segments ++ placedNames segments rest
  | current, Item.entry key _ :: rest =>
      (if endsThere false current then [key] else []) ++ placedNames current rest

/-- A name all objects have since it was put on `Object.prototype`. -/
def Bound (h : Heap) (k : String) : Prop :=
  (h.prototype.lookup k).isSome = true

/-!
# One write
-/

theorem lookup_updateAt_isSome {f : List Member -> List Member} (hp : p ≠ []) :
    ((updateAt f members p).lookup k).isSome = (members.lookup k).isSome := by
  cases p with
  | nil => exact absurd rfl hp
  | cons j p =>
      rcases object_or_other (members.lookup j) with ⟨m, hj⟩ | hj
      · have hsome : (members.lookup j).isSome = true := by
          rw [hj]
          rfl
        rw [updateAt_object hj, lookup_replaceOwn hsome]
        split
        · rename_i heq
          rw [heq, hsome]
          rfl
        · rfl
      · rw [updateAt_other hj]

theorem bound_write (hread : h.read r l = JsValue.undefined) :
    Bound (h.write r l v) k <-> Bound h k ∨ (r = prototypeRef ∧ k = l) := by
  have hl : l ≠ protoKey := ne_protoKey (not_inherited_of_undefined hread)
  unfold Bound Heap.write
  rw [if_neg hl]
  rcases r with ⟨root, path⟩
  cases root with
  | document =>
      constructor
      · exact Or.inl
      · rintro (hbound | ⟨hr, _⟩)
        · exact hbound
        · cases hr
  | prototype =>
      show ((updateAt (insertOwn l v) h.prototype path).lookup k).isSome = true <-> _
      cases path with
      | nil =>
          show ((insertOwn l v h.prototype).lookup k).isSome = true <-> _
          rw [lookup_insertOwn]
          by_cases hkl : k = l
          · rw [if_pos hkl]
            constructor
            · intro _
              exact Or.inr ⟨rfl, hkl⟩
            · intro _
              rfl
          · rw [if_neg hkl]
            constructor
            · exact Or.inl
            · rintro (hbound | ⟨_, heq⟩)
              · exact hbound
              · exact absurd heq hkl
      | cons j path =>
          rw [lookup_updateAt_isSome (List.cons_ne_nil j path)]
          constructor
          · exact Or.inl
          · rintro (hbound | ⟨hr, _⟩)
            · exact hbound
            · cases hr

/-!
# One read
-/

theorem lookup_method (hown : OwnKeys members) (hk : inherits k = true) :
    members.lookup k = none := by
  cases hlookup : members.lookup k with
  | none => rfl
  | some v =>
      have hallowed := (wellKeyed_lookup hown hlookup).1
      rw [hk] at hallowed
      cases hallowed

theorem ownKeys_members (hown : OwnHeap h) (r : Ref) : OwnKeys (h.members r) := by
  unfold Heap.members
  split
  · exact ownKeys_membersAt hown.1
  · exact ownKeys_membersAt hown.2

theorem child_ne_prototype (r : Ref) (k : String) : r.child k ≠ prototypeRef := by
  intro heq
  have hpath : r.path ++ [k] = [] := congrArg Ref.path heq
  simp at hpath

/-- `__proto__` leads to `Object.prototype` from everywhere else, and nothing else does. -/
theorem read_leads (hown : OwnHeap h) (hread : h.read r k = JsValue.reference r') :
    (k = protoKey ∧ r ≠ prototypeRef ∧ r' = prototypeRef) ∨
      (k ≠ protoKey ∧ r' ≠ prototypeRef) := by
  by_cases hk : k = protoKey
  · left
    subst hk
    have hnone := lookup_method (ownKeys_members hown r) (k := protoKey) rfl
    rw [Heap.read, hnone] at hread
    simp only [if_true] at hread
    split at hread
    · cases hread
    · rename_i hr
      cases hread
      exact ⟨rfl, hr, rfl⟩
  · right
    refine ⟨hk, ?_⟩
    unfold Heap.read at hread
    split at hread
    · rw [root_valueOf hread]
      exact child_ne_prototype r k
    · rw [if_neg hk] at hread
      unfold Heap.inherited at hread
      split at hread
      · rw [root_valueOf hread]
        exact child_ne_prototype _ k
      · split at hread
        · cases hread
        · cases hread

/-- What is read of `Object.prototype` itself was put there. -/
theorem bound_of_read (hread : h.read prototypeRef k = JsValue.reference r') : Bound h k := by
  unfold Bound
  have hmembers : h.members prototypeRef = h.prototype := rfl
  unfold Heap.read at hread
  rw [hmembers] at hread
  cases hlookup : h.prototype.lookup k with
  | some v => rfl
  | none =>
      rw [hlookup] at hread
      simp only [if_true] at hread
      split at hread
      · cases hread
      · unfold Heap.inherited at hread
        rw [hlookup] at hread
        simp only at hread
        split at hread
        · cases hread
        · cases hread

/-!
# Whole texts
-/

theorem enterSection_leaves :
    forall {segments : List String} {h : Heap} {r : Ref}, OwnHeap h ->
      enterSection h r segments = some (h', r') ->
        (forall k, Bound h' k <->
          Bound h k ∨ k ∈ placedFrom (decide (r = prototypeRef)) segments) ∧
        decide (r' = prototypeRef) = endsThere (decide (r = prototypeRef)) segments := by
  intro segments
  induction segments with
  | nil =>
      intro h r _ hok
      cases hok
      refine ⟨?_, rfl⟩
      intro k
      constructor
      · exact Or.inl
      · rintro (hbound | hmem)
        · exact hbound
        · cases hmem
  | cons s rest ih =>
      intro h r hown hok
      rw [enterSection] at hok
      have hmem : forall (k : String) (b : Bool), k ∈ placedFrom b (s :: rest) <->
          (b = true ∧ k = s) ∨ k ∈ placedFrom (s == protoKey) rest := by
        intro k b
        show k ∈ (if b = true then [s] else []) ++ _ <-> _
        rw [List.mem_append]
        cases b with
        | true => simp
        | false => simp
      split at hok
      · rename_i hread
        have hs : (s == protoKey) = false :=
          beq_eq_false_iff_ne.mpr (ne_protoKey (not_inherited_of_undefined hread))
        have hchild : decide (r.child s = prototypeRef) = false :=
          decide_eq_false (child_ne_prototype r s)
        have hnext := ih (ownHeap_write hown hread rfl) hok
        rw [hchild] at hnext
        constructor
        · intro k
          rw [hnext.1 k, bound_write hread, hmem, hs, decide_eq_true_eq, or_assoc]
        · rw [hnext.2]
          show _ = endsThere (s == protoKey) rest
          rw [hs]
      · rename_i existing hread
        have hnext := ih hown hok
        have hthere : decide (existing = prototypeRef) = (s == protoKey) := by
          rcases read_leads hown hread with ⟨heq, _, hr⟩ | ⟨hne, hr⟩
          · rw [heq, hr]
            rfl
          · rw [beq_eq_false_iff_ne.mpr hne]
            exact decide_eq_false hr
        rw [hthere] at hnext
        constructor
        · intro k
          rw [hnext.1 k, hmem, decide_eq_true_eq]
          constructor
          · rintro (hbound | hplaced)
            · exact Or.inl hbound
            · exact Or.inr (Or.inr hplaced)
          · rintro (hbound | ⟨hr, hk⟩ | hplaced)
            · exact Or.inl hbound
            · rw [hr] at hread
              rw [hk]
              exact Or.inl (bound_of_read hread)
            · exact Or.inr hplaced
        · exact hnext.2
      · cases hok

theorem setEntry_leaves (hok : setEntry key value h r = some h') :
    Bound h' k <-> Bound h k ∨ (r = prototypeRef ∧ k = key) := by
  unfold setEntry at hok
  split at hok
  · rename_i hread
    cases hok
    exact bound_write hread
  · cases hok

/-- What a text leaves on `Object.prototype`; entering the current section once more
leaves nothing else there. -/
theorem applyItems_leaves :
    forall {items : List Item} {state : IniState}, OwnHeap state.heap ->
      (forall k, k ∈ placedFrom false (state.current.getD []) -> Bound state.heap k) ->
        applyItems state items = some state' -> forall k,
          Bound state'.heap k <->
            Bound state.heap k ∨ k ∈ placedNames (state.current.getD []) items := by
  intro items
  induction items with
  | nil =>
      intro state _ _ hok k
      cases hok
      constructor
      · exact Or.inl
      · rintro (hbound | hmem)
        · exact hbound
        · cases hmem
  | cons item items ih =>
      intro state hown hcurrent hok k
      rcases Option.bind_eq_some_iff.mp hok with ⟨next, hitem, hrest⟩
      have hhere : decide (documentRef = prototypeRef) = false := rfl
      cases item with
      | blank =>
          cases hitem
          exact ih hown hcurrent hrest k
      | header segments =>
          rcases Option.map_eq_some_iff.mp hitem with ⟨entered, henter, hnext⟩
          cases hnext
          have hentered := enterSection_leaves hown henter
          rw [hhere] at hentered
          have hplaced : forall k, k ∈ placedFrom false segments -> Bound entered.1 k := by
            intro k hk
            exact (hentered.1 k).mpr (Or.inr hk)
          have hnext := @ih { heap := entered.1, current := some segments }
            (no_method_entered hown henter).1 hplaced hrest k
          rw [hnext, hentered.1 k, or_assoc]
          show _ <-> _ ∨ k ∈ placedFrom false segments ++ placedNames segments items
          rw [List.mem_append]
          rfl
      | entry key value =>
          rcases Option.map_eq_some_iff.mp hitem with ⟨heap, hset, hnext⟩
          cases hnext
          rcases Option.bind_eq_some_iff.mp hset with ⟨entered, henter, hset⟩
          have hentered := enterSection_leaves hown henter
          rw [hhere] at hentered
          have hown' := (no_method_entered hown henter).1
          have hsame : forall k, Bound entered.1 k <-> Bound state.heap k := by
            intro k
            rw [hentered.1 k]
            constructor
            · rintro (hbound | hplaced)
              · exact hbound
              · exact hcurrent k hplaced
            · exact Or.inl
          have hafter : forall k, Bound heap k <->
              Bound state.heap k ∨ (endsThere false (state.current.getD []) = true ∧ k = key) := by
            intro k
            rw [setEntry_leaves hset, hsame k, ← hentered.2, decide_eq_true_eq]
          have hplaced : forall k, k ∈ placedFrom false (state.current.getD []) -> Bound heap k := by
            intro k hk
            exact (hafter k).mpr (Or.inl (hcurrent k hk))
          rw [ih (ownHeap_setEntry hown' hset) hplaced hrest k, hafter k, or_assoc]
          show _ <-> _ ∨ k ∈ (if endsThere false (state.current.getD []) = true then [key] else [])
            ++ placedNames (state.current.getD []) items
          rw [List.mem_append]
          split
          · rename_i hends
            rw [List.mem_singleton]
            simp [hends]
          · rename_i hends
            simp [hends]

/-!
# Names that are taken
-/

theorem still_nothing_write (hbound : Bound h s) (hread : h.read r k = JsValue.undefined)
    (hv : isBare v = true) (hnothing : nodeAt h.document (q ++ [s]) = Node.nothing) :
    nodeAt (h.write r k v).document (q ++ [s]) = Node.nothing := by
  have hk : k ≠ s := by
    rintro rfl
    unfold Bound at hbound
    have hproto := ne_protoKey (not_inherited_of_undefined hread)
    unfold Heap.read at hread
    split at hread
    · exact valueOf_defined _ _ _ hread
    · rw [if_neg hproto] at hread
      unfold Heap.inherited at hread
      split at hread
      · exact valueOf_defined _ _ _ hread
      · rename_i hnone
        rw [hnone] at hbound
        cases hbound
  unfold Heap.write
  split
  · exact hnothing
  · split
    · rcases nodeAt_write_cases hv r.path h.document (q ++ [s]) with hsame | hgone | ⟨heq, _⟩
      · exact hsame.trans hnothing
      · exact hgone
      · have hlast := congrArg List.getLast? heq
        rw [List.getLast?_concat, List.getLast?_concat] at hlast
        exact absurd (Option.some.inj hlast).symm hk
    · exact hnothing

theorem bound_write_of_bound (hbound : Bound h s) (hread : h.read r k = JsValue.undefined) :
    Bound (h.write r k v) s :=
  (bound_write hread).mpr (Or.inl hbound)

theorem still_nothing_entered :
    forall {segments : List String} {h : Heap} {r : Ref}, Bound h s ->
      nodeAt h.document (q ++ [s]) = Node.nothing ->
        enterSection h r segments = some (h', r') ->
          Bound h' s ∧ nodeAt h'.document (q ++ [s]) = Node.nothing := by
  intro segments
  induction segments with
  | nil =>
      intro h r hbound hnothing hok
      cases hok
      exact ⟨hbound, hnothing⟩
  | cons k rest ih =>
      intro h r hbound hnothing hok
      rw [enterSection] at hok
      split at hok
      · rename_i hread
        exact ih (bound_write_of_bound hbound hread)
          (still_nothing_write hbound hread rfl hnothing) hok
      · exact ih hbound hnothing hok
      · cases hok

theorem still_nothing :
    forall {items : List Item} {state : IniState}, Bound state.heap s ->
      nodeAt state.heap.document (q ++ [s]) = Node.nothing ->
        applyItems state items = some state' ->
          nodeAt state'.heap.document (q ++ [s]) = Node.nothing := by
  intro items
  induction items with
  | nil =>
      intro state _ hnothing hok
      cases hok
      exact hnothing
  | cons item items ih =>
      intro state hbound hnothing hok
      rcases Option.bind_eq_some_iff.mp hok with ⟨next, hitem, hrest⟩
      cases item with
      | blank =>
          cases hitem
          exact ih hbound hnothing hrest
      | header segments =>
          rcases Option.map_eq_some_iff.mp hitem with ⟨entered, henter, hnext⟩
          cases hnext
          have hentered := still_nothing_entered hbound hnothing henter
          exact ih hentered.1 hentered.2 hrest
      | entry key value =>
          rcases Option.map_eq_some_iff.mp hitem with ⟨heap, hset, hnext⟩
          cases hnext
          rcases Option.bind_eq_some_iff.mp hset with ⟨entered, henter, hset⟩
          have hentered := still_nothing_entered hbound hnothing henter
          unfold setEntry at hset
          split at hset
          · rename_i hread
            cases hset
            exact ih (bound_write_of_bound hentered.1 hread)
              (still_nothing_write hentered.1 hread rfl hentered.2) hrest
          · cases hset

end Web
end FleetServer
