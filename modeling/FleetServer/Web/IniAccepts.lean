import FleetServer.Web.IniWriter

/-!
# What the INI reader accepts

A section or a key is made where nothing is in the way and its name is not one that
every object inherits.  What headers through `__proto__` put on `Object.prototype` is
inherited as well, so names are ordinary only as long as they were not put there.
-/

namespace FleetServer
namespace Web

open FleetServer.Core
open Core.Json

variable {members : List Member} {h h' : Heap} {r r' : Ref} {k key value s : String}
variable {p q pre segments : List String} {v u : Json} {item : Item} {items : List Item}
variable {state state' : IniState}

/-!
# One section, one key
-/

/-- A name that no object has unless it was given it. -/
def Free (h : Heap) (k : String) : Prop :=
  inherits k = false ∧ h.prototype.lookup k = none

theorem read_free (hk : Free h k) (hsection : nodeAt h.document pre = Node.section_)
    (hnode : nodeAt h.document (pre ++ [k]) = Node.nothing) :
    h.read (inDocument pre) k = JsValue.undefined := by
  rw [← lookup_of_node hsection] at hnode
  rcases lookup_cases (membersAt h.document pre) k with hnone | ⟨m, hm⟩ | ⟨w, hw, hvalue⟩
  · have hlookup : (h.members (inDocument pre)).lookup k = none := hnone
    have hmethods : objectMethods.contains k = false := by
      have hfree := hk.1
      unfold inherits at hfree
      exact (Bool.or_eq_false_iff.mp hfree).2
    rw [Heap.read, hlookup]
    show (if k = protoKey then _ else h.inherited k) = _
    rw [if_neg (ne_protoKey hk.1), Heap.inherited, hk.2]
    show (if objectMethods.contains k = true then _ else _) = _
    rw [hmethods]
    rfl
  · rw [nodeAt_object hm] at hnode
    cases hnode
  · rw [nodeAt_value hvalue hw, if_pos rfl] at hnode
    cases hnode

theorem write_free (hv : isBare v = true) (hk : Free h k)
    (hsection : nodeAt h.document pre = Node.section_)
    (hnode : nodeAt h.document (pre ++ [k]) = Node.nothing) :
    (h.write (inDocument pre) k v).prototype = h.prototype ∧
      forall s, nodeAt (h.write (inDocument pre) k v).document s =
        if s = pre ++ [k] then nodeOf v else nodeAt h.document s := by
  rw [write_document (ne_protoKey hk.1)]
  exact ⟨rfl, nodeAt_write hv hsection hnode⟩

theorem enterSection_accepts :
    forall {segments : List String} {h : Heap} {pre : List String},
      nodeAt h.document pre = Node.section_ -> (forall k, k ∈ segments -> Free h k) ->
        (forall s u, s <+: pre ++ segments -> nodeAt h.document s ≠ Node.value u) ->
          exists h', enterSection h (inDocument pre) segments =
              some (h', inDocument (pre ++ segments)) ∧
            h'.prototype = h.prototype ∧
              forall s, nodeAt h'.document s =
                if s <+: pre ++ segments then Node.section_ else nodeAt h.document s := by
  intro segments
  induction segments with
  | nil =>
      intro h pre hsection _ _
      refine ⟨h, ?_, rfl, ?_⟩
      · rw [List.append_nil]
        rfl
      · intro s
        rw [List.append_nil]
        split
        · rename_i habove
          exact section_above habove hsection
        · rfl
  | cons k rest ih =>
      intro h pre hsection hfree hvalues
      have hassoc : pre ++ k :: rest = (pre ++ [k]) ++ rest := by
        rw [List.append_assoc]
        rfl
      have habove : pre ++ [k] <+: (pre ++ [k]) ++ rest := List.prefix_append _ _
      have hk := hfree k List.mem_cons_self
      rw [hassoc] at hvalues ⊢
      rw [enterSection]
      cases hnode : nodeAt h.document (pre ++ [k]) with
      | nothing =>
          rw [read_free hk hsection hnode]
          have hwrite := write_free (v := object []) rfl hk hsection hnode
          have hmade := hwrite.2 (pre ++ [k])
          rw [if_pos rfl] at hmade
          have hnext := @ih (h.write (inDocument pre) k (object [])) (pre ++ [k]) hmade ?_ ?_
          · rcases hnext with ⟨h', hentered, hsame, hnodes⟩
            refine ⟨h', hentered, hsame.trans hwrite.1, ?_⟩
            intro s
            rw [hnodes s, hwrite.2 s]
            split
            · rfl
            · rename_i hnot
              rw [if_neg]
              intro heq
              rw [heq] at hnot
              exact hnot habove
          · intro l hl
            have hfreeL := hfree l (List.mem_cons_of_mem _ hl)
            constructor
            · exact hfreeL.1
            · rw [hwrite.1]
              exact hfreeL.2
          · intro s u hs hvalue
            rw [hwrite.2 s] at hvalue
            split at hvalue
            · cases hvalue
            · exact hvalues s u hs hvalue
      | section_ =>
          rw [read_of_section hsection hnode]
          exact ih hnode (fun l hl => hfree l (List.mem_cons_of_mem _ hl)) hvalues
      | value u => exact absurd hnode (hvalues _ u habove)

theorem setEntry_accepts (hk : Free h key) (hsection : nodeAt h.document pre = Node.section_)
    (hnode : nodeAt h.document (pre ++ [key]) = Node.nothing) :
    exists h', setEntry key value h (inDocument pre) = some h' ∧
      h'.prototype = h.prototype ∧
        forall s, nodeAt h'.document s =
          if s = pre ++ [key] then Node.value (Json.string value) else nodeAt h.document s := by
  have hwrite := write_free (v := Json.string value) rfl hk hsection hnode
  refine ⟨h.write (inDocument pre) key (Json.string value), ?_, hwrite.1, hwrite.2⟩
  unfold setEntry
  rw [read_free hk hsection hnode]

/-!
# All items
-/

/-- Nothing stands in the way of the items: every header leads past values, every entry
goes where there is nothing, and no entry is met twice. -/
structure Unhindered (document : List Member) (current : List String) (items : List Item) :
    Prop where
  headers : forall segments, segments ∈ headersOf items -> forall s u, s <+: segments ->
    nodeAt document s ≠ Node.value u
  entries : forall p t, (p, t) ∈ entriesOf current items -> nodeAt document p = Node.nothing
  distinct : ((entriesOf current items).map Prod.fst).Nodup
  beside : forall p t segments, (p, t) ∈ entriesOf current items ->
    segments ∈ headersOf items -> ¬ p <+: segments

structure AllFree (h : Heap) (current : List String) (items : List Item) : Prop where
  headers : forall segments, segments ∈ headersOf items -> forall k, k ∈ segments -> Free h k
  entries : forall p t, (p, t) ∈ entriesOf current items -> forall k, k ∈ p -> Free h k

theorem free_of_same (hsame : h'.prototype = h.prototype) (hk : Free h k) : Free h' k := by
  unfold Free at hk ⊢
  rw [hsame]
  exact hk

theorem applyItem_header_accepts (hfree : forall k, k ∈ segments -> Free state.heap k)
    (hvalues : forall s u, s <+: segments -> nodeAt state.heap.document s ≠ Node.value u) :
    exists heap, applyItem state (Item.header segments) =
        some { heap := heap, current := some segments } ∧
      heap.prototype = state.heap.prototype ∧
      forall s, nodeAt heap.document s =
        if s <+: segments then Node.section_ else nodeAt state.heap.document s := by
  have hroot : nodeAt state.heap.document [] = Node.section_ := rfl
  rcases enterSection_accepts hroot hfree hvalues with ⟨heap, hentered, hsame, hnodes⟩
  refine ⟨heap, ?_, hsame, hnodes⟩
  show (enterSection state.heap (inDocument []) segments).map _ = _
  rw [hentered]
  rfl

theorem applyItem_entry_accepts
    (hsection : nodeAt state.heap.document (state.current.getD []) = Node.section_)
    (hfree : forall k, k ∈ state.current.getD [] ++ [key] -> Free state.heap k)
    (hnothing : nodeAt state.heap.document (state.current.getD [] ++ [key]) = Node.nothing) :
    exists heap, applyItem state (Item.entry key value) =
        some { heap := heap, current := state.current } ∧
      heap.prototype = state.heap.prototype ∧
      forall s, nodeAt heap.document s =
        if s = state.current.getD [] ++ [key] then Node.value (Json.string value)
        else nodeAt state.heap.document s := by
  have hroot : nodeAt state.heap.document [] = Node.section_ := rfl
  have hvalues : forall s u, s <+: [] ++ state.current.getD [] ->
      nodeAt state.heap.document s ≠ Node.value u := by
    intro s u hs hvalue
    rw [section_above hs hsection] at hvalue
    cases hvalue
  rcases enterSection_accepts hroot (fun k hk => hfree k (List.mem_append_left _ hk)) hvalues with
    ⟨entered, hentered, hsame, hnodes⟩
  have hkept : forall s, nodeAt entered.document s = nodeAt state.heap.document s := by
    intro s
    rw [hnodes s]
    split
    · rename_i habove
      exact (section_above habove hsection).symm
    · rfl
  have hkey : Free entered key :=
    free_of_same hsame (hfree key (List.mem_append_right _ (List.mem_singleton.mpr rfl)))
  rcases @setEntry_accepts _ key value _ hkey ((hkept _).trans hsection)
    ((hkept _).trans hnothing) with ⟨heap, hset, hsame', hnodes'⟩
  refine ⟨heap, ?_, hsame'.trans hsame, ?_⟩
  · show ((enterSection state.heap (inDocument []) _).bind _).map _ = _
    rw [hentered]
    show (setEntry key value entered _).map _ = _
    rw [List.nil_append, hset]
    rfl
  · intro s
    rw [hnodes' s, hkept s]

theorem allFree_behind_header (hsame : h'.prototype = h.prototype) {current : List String}
    (hfree : AllFree h current (Item.header segments :: items)) : AllFree h' segments items := by
  constructor
  · intro other hother k hk
    exact free_of_same hsame (hfree.headers other (List.mem_cons_of_mem _ hother) k hk)
  · intro p t hp k hk
    exact free_of_same hsame (hfree.entries p t hp k hk)

theorem allFree_behind_entry (hsame : h'.prototype = h.prototype) {current : List String}
    (hfree : AllFree h current (Item.entry key value :: items)) : AllFree h' current items := by
  constructor
  · intro other hother k hk
    exact free_of_same hsame (hfree.headers other hother k hk)
  · intro p t hp k hk
    exact free_of_same hsame (hfree.entries p t (List.mem_cons_of_mem _ hp) k hk)

theorem unhindered_behind_header {document document' : List Member} {current : List String}
    (hnodes : forall s, nodeAt document' s =
      if s <+: segments then Node.section_ else nodeAt document s)
    (hclear : Unhindered document current (Item.header segments :: items)) :
    Unhindered document' segments items := by
  constructor
  · intro other hother s u hs hvalue
    rw [hnodes s] at hvalue
    split at hvalue
    · cases hvalue
    · exact hclear.headers other (List.mem_cons_of_mem _ hother) s u hs hvalue
  · intro p t hp
    rw [hnodes p, if_neg (hclear.beside p t segments hp List.mem_cons_self)]
    exact hclear.entries p t hp
  · exact hclear.distinct
  · intro p t other hp hother
    exact hclear.beside p t other hp (List.mem_cons_of_mem _ hother)

theorem unhindered_behind_entry {document document' : List Member} {current : List String}
    (hnodes : forall s, nodeAt document' s =
      if s = current ++ [key] then Node.value (Json.string value) else nodeAt document s)
    (hclear : Unhindered document current (Item.entry key value :: items)) :
    Unhindered document' current items := by
  have hdistinct := List.nodup_cons.mp hclear.distinct
  constructor
  · intro other hother s u hs hvalue
    rw [hnodes s] at hvalue
    split at hvalue
    · rename_i heq
      rw [heq] at hs
      exact hclear.beside _ _ other List.mem_cons_self hother hs
    · exact hclear.headers other hother s u hs hvalue
  · intro p t hp
    rw [hnodes p, if_neg]
    · exact hclear.entries p t (List.mem_cons_of_mem _ hp)
    · intro heq
      rw [heq] at hp
      exact hdistinct.1 (List.mem_map.mpr ⟨_, hp, rfl⟩)
  · exact hdistinct.2
  · intro p t other hp hother
    exact hclear.beside p t other (List.mem_cons_of_mem _ hp) hother

theorem applyItems_of_item {next : IniState} (hitem : applyItem state item = some next)
    (hrest : applyItems next items = some state') :
    applyItems state (item :: items) = some state' := by
  show (applyItem state item).bind _ = _
  rw [hitem]
  exact hrest

theorem applyItems_accepts :
    forall {items : List Item} {state : IniState},
      nodeAt state.heap.document (state.current.getD []) = Node.section_ ->
        AllFree state.heap (state.current.getD []) items ->
          Unhindered state.heap.document (state.current.getD []) items ->
            exists state', applyItems state items = some state' ∧
              state'.heap.prototype = state.heap.prototype ∧ Effect state items state' := by
  intro items
  induction items with
  | nil =>
      intro state _ _ _
      exact ⟨state, rfl, rfl, effect_nil state⟩
  | cons item items ih =>
      intro state hsection hfree hclear
      cases item with
      | blank =>
          exact ih hsection ⟨hfree.headers, hfree.entries⟩
            ⟨hclear.headers, hclear.entries, hclear.distinct, hclear.beside⟩
      | header segments =>
          have hvalues := hclear.headers segments List.mem_cons_self
          rcases applyItem_header_accepts (hfree.headers segments List.mem_cons_self) hvalues with
            ⟨heap, hitem, hsame, hnodes⟩
          have hmade : nodeAt heap.document segments = Node.section_ := by
            rw [hnodes segments]
            exact if_pos List.prefix_rfl
          rcases @ih { heap := heap, current := some segments } hmade
            (allFree_behind_header hsame hfree) (unhindered_behind_header hnodes hclear) with
            ⟨state', hrun, hprototype, heffect⟩
          exact ⟨state', applyItems_of_item hitem hrun, hprototype.trans hsame,
            effect_header rfl hvalues hnodes heffect⟩
      | entry key value =>
          have hnothing := hclear.entries _ _ List.mem_cons_self
          rcases @applyItem_entry_accepts key value state hsection
            (hfree.entries _ _ List.mem_cons_self) hnothing with ⟨heap, hitem, hsame, hnodes⟩
          have hkept : nodeAt heap.document (state.current.getD []) = Node.section_ := by
            rw [hnodes, if_neg]
            · exact hsection
            · intro heq
              have hlength := congrArg List.length heq
              rw [List.length_append, List.length_singleton] at hlength
              omega
          have hcurrent : ({ heap := heap, current := state.current } : IniState).current =
              state.current := rfl
          rcases @ih { heap := heap, current := state.current } hkept
            (allFree_behind_entry hsame hfree) (unhindered_behind_entry hnodes hclear) with
            ⟨state', hrun, hprototype, heffect⟩
          exact ⟨state', applyItems_of_item hitem hrun, hprototype.trans hsame,
            effect_entry hcurrent hnothing hnodes heffect⟩

/-!
# What no text can name
-/

/-- Neither the document nor `Object.prototype` was given an inherited name. -/
def OwnHeap (h : Heap) : Prop :=
  OwnKeys h.document ∧ OwnKeys h.prototype

theorem ownHeap_write (hown : OwnHeap h) (hread : h.read r k = JsValue.undefined)
    (hv : wellKeyed (fun k => !inherits k) v = true) : OwnHeap (h.write r k v) := by
  have hk : (!inherits k) = true := by
    rw [not_inherited_of_undefined hread]
    rfl
  unfold Heap.write
  split
  · exact hown
  · split
    · constructor
      · exact wellKeyed_updateAt (fun m hm => wellKeyed_insertOwn hm hk hv) hown.1
      · exact hown.2
    · constructor
      · exact hown.1
      · exact wellKeyed_updateAt (fun m hm => wellKeyed_insertOwn hm hk hv) hown.2

theorem ownKeys_membersAt :
    forall {p : List String} {members : List Member}, OwnKeys members ->
      OwnKeys (membersAt members p) := by
  intro p
  induction p with
  | nil =>
      intro members h
      exact h
  | cons k p ih =>
      intro members h
      rcases lookup_cases members k with hk | ⟨m, hk⟩ | ⟨w, hk, hw⟩
      · unfold membersAt
        rw [hk]
        exact wellKeyed_empty
      · rw [membersAt_object hk]
        exact ih (wellKeyed_lookup h hk).2
      · unfold membersAt
        rw [hk]
        cases w with
        | object m => cases hw
        | null => exact wellKeyed_empty
        | bool b => exact wellKeyed_empty
        | number t => exact wellKeyed_empty
        | string t => exact wellKeyed_empty
        | array items => exact wellKeyed_empty

theorem read_method (hown : OwnHeap h) (hk : objectMethods.contains k = true) :
    h.read r k = JsValue.function := by
  have hinherits : (!inherits k) = false := by
    unfold inherits
    rw [hk, Bool.or_true]
    rfl
  have hproto : k ≠ protoKey := by
    rintro rfl
    cases hk
  have hnone : forall {members : List Member}, OwnKeys members -> members.lookup k = none := by
    intro members hkeys
    cases hlookup : members.lookup k with
    | none => rfl
    | some v =>
        have hallowed := (wellKeyed_lookup hkeys hlookup).1
        rw [hinherits] at hallowed
        cases hallowed
  have hmembers : (h.members r).lookup k = none := by
    apply hnone
    unfold Heap.members
    split
    · exact ownKeys_membersAt hown.1
    · exact ownKeys_membersAt hown.2
  rw [Heap.read, hmembers]
  show (if k = protoKey then _ else h.inherited k) = _
  rw [if_neg hproto, Heap.inherited, hnone hown.2]
  show (if objectMethods.contains k = true then _ else _) = _
  rw [if_pos hk]

theorem no_method_entered :
    forall {segments : List String} {h : Heap} {r : Ref}, OwnHeap h ->
      enterSection h r segments = some (h', r') ->
        OwnHeap h' ∧ forall k, k ∈ segments -> objectMethods.contains k = false := by
  intro segments
  induction segments with
  | nil =>
      intro h r hown hok
      cases hok
      exact ⟨hown, fun k hk => absurd hk List.not_mem_nil⟩
  | cons k rest ih =>
      intro h r hown hok
      rw [enterSection] at hok
      have hname : objectMethods.contains k = false := by
        rw [Bool.eq_false_iff]
        intro hmethod
        rw [read_method hown hmethod] at hok
        cases hok
      have hnext : OwnHeap h' ∧ forall l, l ∈ rest -> objectMethods.contains l = false := by
        split at hok
        · rename_i hread
          exact ih (ownHeap_write hown hread rfl) hok
        · exact ih hown hok
        · cases hok
      refine ⟨hnext.1, ?_⟩
      intro l hl
      cases List.mem_cons.mp hl with
      | inl heq =>
          rw [heq]
          exact hname
      | inr hin => exact hnext.2 l hin

theorem ownHeap_setEntry (hown : OwnHeap h) (hok : setEntry key value h r = some h') :
    OwnHeap h' := by
  unfold setEntry at hok
  split at hok
  · rename_i hread
    cases hok
    exact ownHeap_write hown hread rfl
  · cases hok

theorem ownHeap_applyItems :
    forall {items : List Item} {state : IniState}, OwnHeap state.heap ->
      applyItems state items = some state' -> OwnHeap state'.heap := by
  intro items
  induction items with
  | nil =>
      intro state hown hok
      cases hok
      exact hown
  | cons item items ih =>
      intro state hown hok
      rcases Option.bind_eq_some_iff.mp hok with ⟨next, hitem, hrest⟩
      apply ih _ hrest
      cases item with
      | blank =>
          cases hitem
          exact hown
      | header segments =>
          rcases Option.map_eq_some_iff.mp hitem with ⟨entered, henter, hnext⟩
          cases hnext
          exact (no_method_entered hown henter).1
      | entry key value =>
          rcases Option.map_eq_some_iff.mp hitem with ⟨heap, hset, hnext⟩
          cases hnext
          rcases Option.bind_eq_some_iff.mp hset with ⟨entered, henter, hset⟩
          exact ownHeap_setEntry (no_method_entered hown henter).1 hset

theorem ownHeap_empty : OwnHeap emptyHeap :=
  ⟨wellKeyed_empty, wellKeyed_empty⟩

theorem no_method_in_headers :
    forall {items : List Item} {state : IniState}, OwnHeap state.heap ->
      applyItems state items = some state' ->
        forall segments, segments ∈ headersOf items -> forall k, k ∈ segments ->
          objectMethods.contains k = false := by
  intro items
  induction items with
  | nil =>
      intro state _ _ segments h
      cases h
  | cons item items ih =>
      intro state hown hok
      rcases Option.bind_eq_some_iff.mp hok with ⟨next, hitem, hrest⟩
      cases item with
      | blank =>
          cases hitem
          exact ih hown hrest
      | header first =>
          rcases Option.map_eq_some_iff.mp hitem with ⟨entered, henter, hnext⟩
          cases hnext
          have hentered := no_method_entered hown henter
          intro segments hsegments
          cases List.mem_cons.mp hsegments with
          | inl heq =>
              rw [heq]
              exact hentered.2
          | inr hin => exact ih hentered.1 hrest segments hin
      | entry key value =>
          rcases Option.map_eq_some_iff.mp hitem with ⟨heap, hset, hnext⟩
          cases hnext
          rcases Option.bind_eq_some_iff.mp hset with ⟨entered, henter, hset⟩
          exact ih (ownHeap_setEntry (no_method_entered hown henter).1 hset) hrest

/-- What stands in a document of its own names is reached by them. -/
theorem own_of_node :
    forall {p : List String} {members : List Member}, OwnKeys members ->
      nodeAt members p ≠ Node.nothing -> forall k, k ∈ p -> inherits k = false := by
  intro p
  induction p with
  | nil =>
      intro members _ _ k hk
      cases hk
  | cons l p ih =>
      intro members hown hnode k hk
      have hname : forall {v : Json}, members.lookup l = some v -> inherits l = false := by
        intro v hv
        have hallowed := (wellKeyed_lookup hown hv).1
        rw [Bool.not_eq_true'] at hallowed
        exact hallowed
      rcases lookup_cases members l with hl | ⟨m, hl⟩ | ⟨w, hl, hw⟩
      · exact absurd (nodeAt_missing hl) hnode
      · rw [nodeAt_object hl] at hnode
        cases List.mem_cons.mp hk with
        | inl heq =>
            rw [heq]
            exact hname hl
        | inr hin => exact ih (wellKeyed_lookup hown hl).2 hnode k hin
      · rw [nodeAt_value hw hl] at hnode
        split at hnode
        · rename_i hp
          rw [hp, List.mem_singleton] at hk
          rw [hk]
          exact hname hl
        · exact absurd rfl hnode

end Web
end FleetServer
