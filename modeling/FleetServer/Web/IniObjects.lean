import FleetServer.Web.IniText
import FleetServer.Web.Override

/-!
# The object an INI text builds

What every document read from a text looks like, and, while nothing is written to
`Object.prototype`, what each item of the text does to it.
-/

namespace FleetServer
namespace Web

open FleetServer.Core
open Core.Json

variable {members m : List Member} {h h' : Heap} {r r' : Ref} {k key value : String}
variable {p q s pre segments : List String} {v u : Json} {item : Item} {items : List Item}
variable {state state' : IniState} {allowed : List String -> Json -> Prop}

/-!
# One write
-/

/-- Neither a removal nor a section that holds something. -/
def isBare : Json -> Bool
  | object members => members.isEmpty
  | _ => true

def nodeOf : Json -> Node
  | object _ => Node.section_
  | v => Node.value v

theorem nodeAt_bare (hv : isBare v = true) (hk : members.lookup k = some v) (q : List String) :
    nodeAt members (k :: q) = if q = [] then nodeOf v else Node.nothing := by
  cases hobject : v.isObject with
  | false =>
      rw [nodeAt_value hobject hk]
      cases v with
      | object m => cases hobject
      | null => rfl
      | bool b => rfl
      | number t => rfl
      | string s => rfl
      | array items => rfl
  | true =>
      cases v with
      | object m =>
          have hm : m = [] := List.isEmpty_iff.mp hv
          rw [nodeAt_object hk, hm]
          cases q with
          | nil => rfl
          | cons l q => rfl
      | null => cases hobject
      | bool b => cases hobject
      | number t => cases hobject
      | string s => cases hobject
      | array items => cases hobject

theorem nodeAt_write_cases (hv : isBare v = true) :
    forall (p : List String) (members : List Member) (s : List String),
      nodeAt (updateAt (insertOwn k v) members p) s = nodeAt members s ∨
        nodeAt (updateAt (insertOwn k v) members p) s = Node.nothing ∨
          (s = p ++ [k] ∧ nodeAt (updateAt (insertOwn k v) members p) s = nodeOf v) := by
  intro p
  induction p with
  | nil =>
      intro members s
      cases s with
      | nil => exact Or.inl rfl
      | cons l q =>
          have hlookup := lookup_insertOwn k l v members
          by_cases hl : l = k
          · rw [if_pos hl] at hlookup
            have hnode := nodeAt_bare hv hlookup q
            by_cases hq : q = []
            · rw [if_pos hq] at hnode
              apply Or.inr
              apply Or.inr
              constructor
              · rw [hl, hq]
                rfl
              · exact hnode
            · rw [if_neg hq] at hnode
              exact Or.inr (Or.inl hnode)
          · rw [if_neg hl] at hlookup
            exact Or.inl (nodeAt_congr hlookup)
  | cons j p ih =>
      intro members s
      cases object_or_other (members.lookup j) with
      | inr hj =>
          rw [updateAt_other hj]
          exact Or.inl rfl
      | inl hj =>
          rcases hj with ⟨m, hj⟩
          have hsome : (members.lookup j).isSome = true := by
            rw [hj]
            rfl
          rw [updateAt_object hj]
          cases s with
          | nil => exact Or.inl rfl
          | cons l q =>
              have hlookup := @lookup_replaceOwn j l (object (updateAt (insertOwn k v) m p))
                members hsome
              by_cases hl : l = j
              · subst hl
                rw [if_pos rfl] at hlookup
                rw [nodeAt_object hlookup, nodeAt_object hj]
                rcases ih m q with hsame | hnothing | ⟨hpath, hnew⟩
                · exact Or.inl hsame
                · exact Or.inr (Or.inl hnothing)
                · rw [hpath] at hnew ⊢
                  exact Or.inr (Or.inr ⟨rfl, hnew⟩)
              · rw [if_neg hl] at hlookup
                exact Or.inl (nodeAt_congr hlookup)

theorem nodeAt_append :
    forall {p : List String} {members : List Member}, nodeAt members p = Node.section_ ->
      nodeAt members (p ++ q) = nodeAt (membersAt members p) q := by
  intro p
  induction p with
  | nil =>
      intro members _
      rfl
  | cons k p ih =>
      intro members hsection
      rcases lookup_cases members k with hk | ⟨m, hk⟩ | ⟨w, hk, hw⟩
      · rw [nodeAt_missing hk] at hsection
        cases hsection
      · rw [nodeAt_object hk] at hsection
        rw [List.cons_append, nodeAt_object hk, membersAt_object hk]
        exact ih hsection
      · rw [nodeAt_value hw hk] at hsection
        split at hsection
        · cases hsection
        · cases hsection

theorem nodeAt_write (hv : isBare v = true) :
    forall {p : List String} {members : List Member}, nodeAt members p = Node.section_ ->
      nodeAt members (p ++ [k]) = Node.nothing -> forall s,
        nodeAt (updateAt (insertOwn k v) members p) s =
          if s = p ++ [k] then nodeOf v else nodeAt members s := by
  intro p
  induction p with
  | nil =>
      intro members _ hfree s
      have hnone : members.lookup k = none := by
        rcases lookup_cases members k with hk | ⟨m, hk⟩ | ⟨w, hk, hw⟩
        · exact hk
        · have hnode : nodeAt members [k] = Node.section_ := nodeAt_object hk
          rw [List.nil_append, hnode] at hfree
          cases hfree
        · have hnode : nodeAt members [k] = Node.value w :=
            (nodeAt_value hw hk).trans (if_pos rfl)
          rw [List.nil_append, hnode] at hfree
          cases hfree
      cases s with
      | nil => rfl
      | cons l q =>
          have hlookup := lookup_insertOwn k l v members
          by_cases hl : l = k
          · subst hl
            rw [if_pos rfl] at hlookup
            have hsame : (l :: q = [] ++ [l]) = (q = []) := by
              rw [List.nil_append, List.cons.injEq]
              exact propext (and_iff_right rfl)
            rw [if_congr (Iff.of_eq hsame) rfl rfl, nodeAt_missing hnone]
            exact nodeAt_bare hv hlookup q
          · rw [if_neg hl] at hlookup
            have hother : l :: q ≠ [] ++ [k] := fun heq => hl (List.cons.inj heq).1
            rw [if_neg hother]
            exact nodeAt_congr hlookup
  | cons j p ih =>
      intro members hsection hfree s
      rcases lookup_cases members j with hj | ⟨m, hj⟩ | ⟨w, hj, hw⟩
      · rw [nodeAt_missing hj] at hsection
        cases hsection
      · rw [nodeAt_object hj] at hsection
        rw [List.cons_append, nodeAt_object hj] at hfree
        have hsome : (members.lookup j).isSome = true := by
          rw [hj]
          rfl
        rw [updateAt_object hj]
        cases s with
        | nil => rfl
        | cons l q =>
            have hlookup := @lookup_replaceOwn j l (object (updateAt (insertOwn k v) m p))
              members hsome
            by_cases hl : l = j
            · subst hl
              rw [if_pos rfl] at hlookup
              have hsame : (l :: q = l :: p ++ [k]) = (q = p ++ [k]) := by
                rw [List.cons_append, List.cons.injEq]
                exact propext (and_iff_right rfl)
              rw [if_congr (Iff.of_eq hsame) rfl rfl, nodeAt_object hlookup, nodeAt_object hj]
              exact ih hsection hfree q
            · rw [if_neg hl] at hlookup
              have hother : l :: q ≠ j :: p ++ [k] := fun heq => hl (List.cons.inj heq).1
              rw [if_neg hother]
              exact nodeAt_congr hlookup
      · rw [nodeAt_value hw hj] at hsection
        split at hsection
        · cases hsection
        · cases hsection

theorem section_above (habove : p <+: q) (hsection : nodeAt members q = Node.section_) :
    nodeAt members p = Node.section_ := by
  cases hp : nodeAt members p with
  | section_ => rfl
  | nothing =>
      have hq : nodeAt members q ≠ Node.nothing := by
        rw [hsection]
        intro hnothing
        cases hnothing
      exact absurd hp (node_above habove hq)
  | value u =>
      by_cases hpq : p = q
      · rw [hpq, hsection] at hp
        cases hp
      · rw [nothing_beneath_value habove hpq hp] at hsection
        cases hsection

/-!
# Every document that is read
-/

/-- The entries, each with its path; the first ones are in the section `current`. -/
def entriesOf : List String -> List Item -> List (List String × String)
  | _, [] => []
  | current, Item.blank :: rest => entriesOf current rest
  | _, Item.header segments :: rest => entriesOf segments rest
  | current, Item.entry key value :: rest => (current ++ [key], value) :: entriesOf current rest

def headersOf : List Item -> List (List String)
  | [] => []
  | Item.header segments :: rest => segments :: headersOf rest
  | _ :: rest => headersOf rest

def Opened (items : List Item) (segments : List String) : Prop :=
  segments = [] ∨ Item.header segments ∈ items

def EntryAt (items : List Item) (p : List String) (u : Json) : Prop :=
  exists segments key text, p = segments ++ [key] ∧ u = Json.string text ∧
    Opened items segments ∧ Item.entry key text ∈ items

def ReadFrom (items : List Item) (members : List Member) : Prop :=
  forall p u, nodeAt members p = Node.value u -> EntryAt items p u

def OnlyValues (allowed : List String -> Json -> Prop) (members : List Member) : Prop :=
  forall p u, nodeAt members p = Node.value u -> allowed p u

theorem onlyValues_nil : OnlyValues allowed [] := by
  intro p u hp
  cases p with
  | nil => cases hp
  | cons k p => cases hp

def LeadsTo (r : Ref) (pre : List String) : Prop :=
  r.root = Root.prototype ∨ r = inDocument pre

theorem root_valueOf (hr : Heap.valueOf r k v = JsValue.reference r') : r' = r.child k := by
  cases v with
  | object m =>
      cases hr
      rfl
  | null => cases hr
  | bool b => cases hr
  | number t => cases hr
  | string s => cases hr
  | array items => cases hr

theorem read_reference (hread : h.read r k = JsValue.reference r') :
    r' = r.child k ∨ r'.root = Root.prototype := by
  unfold Heap.read at hread
  split at hread
  · exact Or.inl (root_valueOf hread)
  · split at hread
    · split at hread
      · cases hread
      · cases hread
        exact Or.inr rfl
    · unfold Heap.inherited at hread
      split at hread
      · rw [root_valueOf hread]
        exact Or.inr rfl
      · split at hread
        · cases hread
        · cases hread

theorem leadsTo_document : LeadsTo documentRef [] :=
  Or.inr rfl

theorem leadsTo_child (hr : LeadsTo r pre) : LeadsTo (r.child k) (pre ++ [k]) := by
  cases hr with
  | inl hroot => exact Or.inl hroot
  | inr hpath =>
      rw [hpath]
      exact Or.inr rfl

theorem onlyValues_write (hdoc : OnlyValues allowed h.document) (hr : LeadsTo r pre)
    (hv : isBare v = true)
    (hvalue : forall u, nodeOf v = Node.value u -> allowed (pre ++ [k]) u) :
    OnlyValues allowed (h.write r k v).document := by
  unfold Heap.write
  split
  · exact hdoc
  · split
    · rename_i hroot
      have hpath : r.path = pre := by
        cases hr with
        | inl hprototype =>
            rw [hprototype] at hroot
            cases hroot
        | inr hpath => rw [hpath]; rfl
      rw [hpath]
      intro p u hp
      rcases nodeAt_write_cases hv pre h.document p with hsame | hnothing | ⟨heq, hnew⟩
      · rw [hsame] at hp
        exact hdoc p u hp
      · rw [hnothing] at hp
        cases hp
      · rw [hnew] at hp
        rw [heq]
        exact hvalue u hp
    · exact hdoc

theorem onlyValues_enterSection :
    forall {segments : List String} {h : Heap} {r : Ref} {pre : List String},
      OnlyValues allowed h.document -> LeadsTo r pre ->
        enterSection h r segments = some (h', r') ->
          OnlyValues allowed h'.document ∧ LeadsTo r' (pre ++ segments) := by
  intro segments
  induction segments with
  | nil =>
      intro h r pre hdoc hr hok
      cases hok
      rw [List.append_nil]
      exact ⟨hdoc, hr⟩
  | cons k rest ih =>
      intro h r pre hdoc hr hok
      have hassoc : pre ++ k :: rest = (pre ++ [k]) ++ rest := by
        rw [List.append_assoc]
        rfl
      rw [hassoc]
      rw [enterSection] at hok
      split at hok
      · apply ih _ (leadsTo_child hr) hok
        apply onlyValues_write hdoc hr rfl
        intro u hu
        cases hu
      · rename_i existing hread
        apply ih hdoc _ hok
        cases read_reference hread with
        | inl hchild =>
            rw [hchild]
            exact leadsTo_child hr
        | inr hroot => exact Or.inl hroot
      · cases hok

theorem onlyValues_setEntry (hdoc : OnlyValues allowed h.document) (hr : LeadsTo r segments)
    (hallowed : allowed (segments ++ [key]) (Json.string value))
    (hok : setEntry key value h r = some h') : OnlyValues allowed h'.document := by
  unfold setEntry at hok
  split at hok
  · cases hok
    apply onlyValues_write hdoc hr rfl
    intro u hu
    cases hu
    exact hallowed
  · cases hok

theorem onlyValues_applyItems :
    forall {items : List Item} {state : IniState}, OnlyValues allowed state.heap.document ->
      (forall p t, (p, t) ∈ entriesOf (state.current.getD []) items ->
        allowed p (Json.string t)) ->
          applyItems state items = some state' -> OnlyValues allowed state'.heap.document := by
  intro items
  induction items with
  | nil =>
      intro state hdoc _ hok
      cases hok
      exact hdoc
  | cons item items ih =>
      intro state hdoc hallowed hok
      rcases Option.bind_eq_some_iff.mp hok with ⟨next, hitem, hrest⟩
      cases item with
      | blank =>
          cases hitem
          exact ih hdoc hallowed hrest
      | header segments =>
          rcases Option.map_eq_some_iff.mp hitem with ⟨entered, henter, hnext⟩
          cases hnext
          have hentered := onlyValues_enterSection hdoc leadsTo_document henter
          apply ih hentered.1 _ hrest
          exact hallowed
      | entry key value =>
          rcases Option.map_eq_some_iff.mp hitem with ⟨heap, hset, hnext⟩
          cases hnext
          rcases Option.bind_eq_some_iff.mp hset with ⟨entered, henter, hset⟩
          have hentered := onlyValues_enterSection hdoc leadsTo_document henter
          have hkey := hallowed _ _ List.mem_cons_self
          apply ih (onlyValues_setEntry hentered.1 hentered.2 hkey hset) _ hrest
          intro p t hp
          exact hallowed p t (List.mem_cons_of_mem _ hp)

theorem entryAt_of_mem {t : String} :
    forall {rest : List Item} {current : List String}, Opened items current ->
      (forall item, item ∈ rest -> item ∈ items) -> (p, t) ∈ entriesOf current rest ->
        EntryAt items p (Json.string t) := by
  intro rest
  induction rest with
  | nil =>
      intro current _ _ hp
      cases hp
  | cons item rest ih =>
      intro current hopened hitems hp
      have hlater := fun i hi => hitems i (List.mem_cons_of_mem item hi)
      have hfirst := hitems item List.mem_cons_self
      cases item with
      | blank => exact ih hopened hlater hp
      | header segments => exact ih (Or.inr hfirst) hlater hp
      | entry key text =>
          cases List.mem_cons.mp hp with
          | inl heq =>
              injection heq with hpath htext
              exact ⟨current, key, text, hpath, congrArg Json.string htext, hopened, hfirst⟩
          | inr hin => exact ih hopened hlater hin

theorem readFrom_items (hempty : state.heap.document = [])
    (hcurrent : state.current = none) (happly : applyItems state items = some state') :
    ReadFrom items state'.heap.document := by
  have hstart : OnlyValues (EntryAt items) state.heap.document := by
    rw [hempty]
    exact onlyValues_nil
  have hentries : forall p t, (p, t) ∈ entriesOf (state.current.getD []) items ->
      EntryAt items p (Json.string t) := by
    rw [hcurrent]
    intro p t hp
    exact entryAt_of_mem (Or.inl rfl) (fun _ hitem => hitem) hp
  exact onlyValues_applyItems hstart hentries happly

theorem mem_of_mapM_itemOf :
    forall {lines : List (List Char)} {items : List Item}, lines.mapM itemOf = some items ->
      item ∈ items -> exists raw, raw ∈ lines ∧ itemOf raw = some item := by
  intro lines
  induction lines with
  | nil =>
      intro items hitems hmem
      cases hitems
      cases hmem
  | cons raw lines ih =>
      intro items hitems hmem
      rw [List.mapM_cons] at hitems
      rcases Option.bind_eq_some_iff.mp hitems with ⟨first, hfirst, hrest⟩
      rcases Option.bind_eq_some_iff.mp hrest with ⟨more, hmore, hall⟩
      cases hall
      cases List.mem_cons.mp hmem with
      | inl heq =>
          rw [heq]
          exact ⟨raw, List.mem_cons_self, hfirst⟩
      | inr hin =>
          rcases ih hmore hin with ⟨other, hother, hitem⟩
          exact ⟨other, List.mem_cons_of_mem _ hother, hitem⟩

def ItemText : Item -> Prop
  | Item.blank => True
  | Item.header segments => forall s, s ∈ segments -> SegmentText s
  | Item.entry key value => KeyText key ∧ ValueText value

theorem itemText_of_lines {text : List Char}
    (hitems : (splitLines text).mapM itemOf = some items) (hitem : item ∈ items) :
    ItemText item := by
  rcases mem_of_mapM_itemOf hitems hitem with ⟨raw, hraw, hsame⟩
  have hline := (mem_splitLines hraw).1
  cases item with
  | blank => trivial
  | header segments => exact segmentText_of_header hline hsame
  | entry key value => exact texts_of_entry hline hsame

/-- A value of a document that is read has a path and a text of the INI format. -/
theorem texts_of_value {text : String} (hok : iniToJson text = Except.ok members)
    (hp : nodeAt members p = Node.value u) :
    exists segments key value, p = segments ++ [key] ∧ u = Json.string value ∧
      (forall s, s ∈ segments -> SegmentText s) ∧ KeyText key ∧ ValueText value := by
  rcases iniToJson_iff.mp hok with ⟨items, final, hitems, happly, hdocument⟩
  rw [← hdocument] at hp
  rcases readFrom_items rfl rfl happly p u hp with ⟨segments, key, value, hpath, hu, hopened, hentry⟩
  have htexts := itemText_of_lines hitems hentry
  refine ⟨segments, key, value, hpath, hu, ?_, htexts.1, htexts.2⟩
  intro s hs
  cases hopened with
  | inl hroot =>
      rw [hroot] at hs
      cases hs
  | inr hheader => exact itemText_of_lines hitems hheader s hs

/-!
# Objects of the document only

As long as no section is called `__proto__`, nothing but the document changes.
-/

theorem lookup_of_node (hsection : nodeAt h.document pre = Node.section_) :
    nodeAt (membersAt h.document pre) [k] = nodeAt h.document (pre ++ [k]) :=
  (nodeAt_append hsection).symm

theorem read_of_nothing (hprototype : h.prototype = []) (hk : k ≠ protoKey)
    (hsection : nodeAt h.document pre = Node.section_)
    (hnode : nodeAt h.document (pre ++ [k]) = Node.nothing) :
    h.read (inDocument pre) k = if inherits k then JsValue.function else JsValue.undefined := by
  rw [← lookup_of_node hsection] at hnode
  rcases lookup_cases (membersAt h.document pre) k with hnone | ⟨m, hm⟩ | ⟨w, hw, hvalue⟩
  · exact read_missing hprototype hk hnone
  · rw [nodeAt_object hm] at hnode
    cases hnode
  · rw [nodeAt_value hvalue hw, if_pos rfl] at hnode
    cases hnode

theorem read_of_section (hsection : nodeAt h.document pre = Node.section_)
    (hnode : nodeAt h.document (pre ++ [k]) = Node.section_) :
    h.read (inDocument pre) k = JsValue.reference (inDocument (pre ++ [k])) := by
  rw [← lookup_of_node hsection] at hnode
  rcases lookup_cases (membersAt h.document pre) k with hnone | ⟨m, hm⟩ | ⟨w, hw, hvalue⟩
  · rw [nodeAt_missing hnone] at hnode
    cases hnode
  · exact read_object hm
  · rw [nodeAt_value hvalue hw, if_pos rfl] at hnode
    cases hnode

theorem read_of_value (hsection : nodeAt h.document pre = Node.section_)
    (hnode : nodeAt h.document (pre ++ [k]) = Node.value u) :
    h.read (inDocument pre) k = JsValue.null_ ∨
      h.read (inDocument pre) k = JsValue.primitive u := by
  rw [← lookup_of_node hsection] at hnode
  rcases lookup_cases (membersAt h.document pre) k with hnone | ⟨m, hm⟩ | ⟨w, hw, hvalue⟩
  · rw [nodeAt_missing hnone] at hnode
    cases hnode
  · rw [nodeAt_object hm] at hnode
    cases hnode
  · rw [nodeAt_value hvalue hw, if_pos rfl] at hnode
    cases hnode
    exact read_value hvalue hw

theorem ne_protoKey (hk : inherits k = false) : k ≠ protoKey := by
  intro heq
  rw [heq] at hk
  cases hk

theorem write_of_nothing (hv : isBare v = true) (hprototype : h.prototype = [])
    (hk : k ≠ protoKey) (hsection : nodeAt h.document pre = Node.section_)
    (hnode : nodeAt h.document (pre ++ [k]) = Node.nothing) :
    (h.write (inDocument pre) k v).prototype = [] ∧
      forall s, nodeAt (h.write (inDocument pre) k v).document s =
        if s = pre ++ [k] then nodeOf v else nodeAt h.document s := by
  rw [write_document hk]
  exact ⟨hprototype, nodeAt_write hv hsection hnode⟩

theorem enterSection_spec :
    forall {segments : List String} {h : Heap} {pre : List String}, h.prototype = [] ->
      nodeAt h.document pre = Node.section_ -> protoKey ∉ segments ->
        enterSection h (inDocument pre) segments = some (h', r') ->
          h'.prototype = [] ∧ r' = inDocument (pre ++ segments) ∧
            (forall s u, s <+: pre ++ segments -> nodeAt h.document s ≠ Node.value u) ∧
              forall s, nodeAt h'.document s =
                if s <+: pre ++ segments then Node.section_ else nodeAt h.document s := by
  intro segments
  induction segments with
  | nil =>
      intro h pre hprototype hsection _ hok
      cases hok
      rw [List.append_nil]
      refine ⟨hprototype, rfl, ?_, ?_⟩
      · intro s u habove hvalue
        rw [section_above habove hsection] at hvalue
        cases hvalue
      · intro s
        split
        · rename_i habove
          exact section_above habove hsection
        · rfl
  | cons k rest ih =>
      intro h pre hprototype hsection hproto hok
      have hk : k ≠ protoKey := fun heq => hproto (by rw [heq]; exact List.mem_cons_self)
      have hrest : protoKey ∉ rest := fun hmem => hproto (List.mem_cons_of_mem _ hmem)
      have hassoc : pre ++ k :: rest = (pre ++ [k]) ++ rest := by
        rw [List.append_assoc]
        rfl
      have habove : pre ++ [k] <+: (pre ++ [k]) ++ rest := List.prefix_append _ _
      rw [hassoc]
      rw [enterSection] at hok
      cases hnode : nodeAt h.document (pre ++ [k]) with
      | nothing =>
          rw [read_of_nothing hprototype hk hsection hnode] at hok
          cases hin : inherits k with
          | true =>
              rw [hin] at hok
              cases hok
          | false =>
              rw [hin] at hok
              have hwrite := write_of_nothing (v := object []) rfl hprototype hk hsection hnode
              have hmade := hwrite.2 (pre ++ [k])
              rw [if_pos rfl] at hmade
              have hnext := ih hwrite.1 hmade hrest hok
              refine ⟨hnext.1, hnext.2.1, ?_, ?_⟩
              · intro s u hs hvalue
                have hnone := hnext.2.2.1 s u hs
                rw [hwrite.2 s] at hnone
                split at hnone
                · rename_i heq
                  rw [heq, hnode] at hvalue
                  cases hvalue
                · exact hnone hvalue
              · intro s
                rw [hnext.2.2.2 s, hwrite.2 s]
                split
                · rfl
                · rename_i hnot
                  rw [if_neg]
                  intro heq
                  rw [heq] at hnot
                  exact hnot habove
      | section_ =>
          rw [read_of_section hsection hnode] at hok
          exact ih hprototype hnode hrest hok
      | value u =>
          cases read_of_value hsection hnode with
          | inl hread =>
              rw [hread] at hok
              cases hok
          | inr hread =>
              rw [hread] at hok
              cases hok

theorem setEntry_spec (hprototype : h.prototype = [])
    (hsection : nodeAt h.document pre = Node.section_)
    (hok : setEntry key value h (inDocument pre) = some h') :
    h'.prototype = [] ∧ nodeAt h.document (pre ++ [key]) = Node.nothing ∧
      forall s, nodeAt h'.document s =
        if s = pre ++ [key] then Node.value (Json.string value) else nodeAt h.document s := by
  unfold setEntry at hok
  split at hok
  · rename_i hread
    cases hok
    have hk := ne_protoKey (not_inherited_of_undefined hread)
    have hnode : nodeAt h.document (pre ++ [key]) = Node.nothing := by
      cases hnode : nodeAt h.document (pre ++ [key]) with
      | nothing => rfl
      | section_ =>
          rw [read_of_section hsection hnode] at hread
          cases hread
      | value u =>
          cases read_of_value hsection hnode with
          | inl hother =>
              rw [hother] at hread
              cases hread
          | inr hother =>
              rw [hother] at hread
              cases hread
    have hwrite := write_of_nothing (v := Json.string value) rfl hprototype hk hsection hnode
    exact ⟨hwrite.1, hnode, hwrite.2⟩
  · cases hok

/-!
# What the items say
-/

structure InDocument (state : IniState) : Prop where
  prototype : state.heap.prototype = []
  not_proto : protoKey ∉ state.current.getD []
  current : nodeAt state.heap.document (state.current.getD []) = Node.section_

theorem inDocument_start : InDocument { heap := emptyHeap, current := none } where
  prototype := rfl
  not_proto := List.not_mem_nil
  current := rfl

theorem applyItem_header (hstate : InDocument state) (hproto : protoKey ∉ segments)
    (hok : applyItem state (Item.header segments) = some state') :
    InDocument state' ∧ state'.current = some segments ∧
      (forall s u, s <+: segments -> nodeAt state.heap.document s ≠ Node.value u) ∧
        forall s, nodeAt state'.heap.document s =
          if s <+: segments then Node.section_ else nodeAt state.heap.document s := by
  rcases Option.map_eq_some_iff.mp hok with ⟨entered, henter, hnext⟩
  cases hnext
  have hroot : nodeAt state.heap.document [] = Node.section_ := rfl
  have hentered := enterSection_spec hstate.prototype hroot hproto henter
  refine ⟨⟨hentered.1, hproto, ?_⟩, rfl, hentered.2.2.1, hentered.2.2.2⟩
  show nodeAt entered.1.document segments = Node.section_
  rw [hentered.2.2.2]
  exact if_pos List.prefix_rfl

theorem applyItem_entry (hstate : InDocument state)
    (hok : applyItem state (Item.entry key value) = some state') :
    InDocument state' ∧ state'.current = state.current ∧
      nodeAt state.heap.document (state.current.getD [] ++ [key]) = Node.nothing ∧
        forall s, nodeAt state'.heap.document s =
          if s = state.current.getD [] ++ [key] then Node.value (Json.string value)
          else nodeAt state.heap.document s := by
  rcases Option.map_eq_some_iff.mp hok with ⟨heap, hset, hnext⟩
  cases hnext
  rcases Option.bind_eq_some_iff.mp hset with ⟨entered, henter, hset⟩
  have hroot : nodeAt state.heap.document [] = Node.section_ := rfl
  have hentered := enterSection_spec hstate.prototype hroot hstate.not_proto henter
  rw [List.nil_append] at hentered
  -- The current section is there, so entering it again makes nothing.
  have hsame : forall s, nodeAt entered.1.document s = nodeAt state.heap.document s := by
    intro s
    rw [hentered.2.2.2]
    split
    · rename_i habove
      exact (section_above habove hstate.current).symm
    · rfl
  have hcurrent := hstate.current
  rw [← hsame] at hcurrent
  rw [hentered.2.1] at hset
  have hsetted := setEntry_spec hentered.1 hcurrent hset
  refine ⟨⟨hsetted.1, hstate.not_proto, ?_⟩, rfl, ?_, ?_⟩
  · show nodeAt heap.document (state.current.getD []) = Node.section_
    rw [hsetted.2.2, if_neg]
    · exact hcurrent
    · intro heq
      have hlength := congrArg List.length heq
      rw [List.length_append, List.length_singleton] at hlength
      omega
  · rw [← hsame]
    exact hsetted.2.1
  · intro s
    show nodeAt heap.document s = _
    rw [hsetted.2.2, hsame]

/-- The values of the document are the entries that were read, and its sections the
ones that a header names. -/
def Effect (state : IniState) (items : List Item) (state' : IniState) : Prop :=
  (forall p u, nodeAt state'.heap.document p = Node.value u <->
    nodeAt state.heap.document p = Node.value u ∨
      exists t, (p, t) ∈ entriesOf (state.current.getD []) items ∧ u = Json.string t) ∧
  forall p, nodeAt state'.heap.document p = Node.section_ <->
    nodeAt state.heap.document p = Node.section_ ∨
      exists segments, segments ∈ headersOf items ∧ p <+: segments

theorem effect_nil (state : IniState) : Effect state [] state := by
  constructor
  · intro p u
    constructor
    · exact Or.inl
    · rintro (h | ⟨t, hmem, _⟩)
      · exact h
      · cases hmem
  · intro p
    constructor
    · exact Or.inl
    · rintro (h | ⟨segments, hmem, _⟩)
      · exact h
      · cases hmem

theorem effect_header {next : IniState} (hcurrent : next.current = some segments)
    (hvalues : forall s u, s <+: segments -> nodeAt state.heap.document s ≠ Node.value u)
    (hnodes : forall s, nodeAt next.heap.document s =
      if s <+: segments then Node.section_ else nodeAt state.heap.document s)
    (hrest : Effect next items state') : Effect state (Item.header segments :: items) state' := by
  unfold Effect at hrest
  rw [hcurrent] at hrest
  constructor
  · intro p u
    rw [hrest.1 p u, hnodes p]
    have hvalue : (if p <+: segments then Node.section_
        else nodeAt state.heap.document p) = Node.value u <->
        nodeAt state.heap.document p = Node.value u := by
      split
      · rename_i habove
        constructor
        · intro h
          cases h
        · intro h
          exact absurd h (hvalues p u habove)
      · exact Iff.rfl
    rw [hvalue]
    exact Iff.rfl
  · intro p
    rw [hrest.2 p, hnodes p]
    constructor
    · rintro (h | ⟨other, hmem, habove⟩)
      · split at h
        · rename_i habove
          exact Or.inr ⟨segments, List.mem_cons_self, habove⟩
        · exact Or.inl h
      · exact Or.inr ⟨other, List.mem_cons_of_mem _ hmem, habove⟩
    · rintro (h | ⟨other, hmem, habove⟩)
      · apply Or.inl
        split
        · rfl
        · exact h
      · cases List.mem_cons.mp hmem with
        | inl heq =>
            rw [heq] at habove
            exact Or.inl (if_pos habove)
        | inr hin => exact Or.inr ⟨other, hin, habove⟩

theorem effect_entry {next : IniState} (hcurrent : next.current = state.current)
    (hnothing : nodeAt state.heap.document (state.current.getD [] ++ [key]) = Node.nothing)
    (hnodes : forall s, nodeAt next.heap.document s =
      if s = state.current.getD [] ++ [key] then Node.value (Json.string value)
      else nodeAt state.heap.document s)
    (hrest : Effect next items state') :
    Effect state (Item.entry key value :: items) state' := by
  unfold Effect at hrest
  rw [hcurrent] at hrest
  constructor
  · intro p u
    rw [hrest.1 p u, hnodes p]
    constructor
    · rintro (h | ⟨t, hmem, hu⟩)
      · split at h
        · rename_i heq
          cases h
          rw [heq]
          exact Or.inr ⟨value, List.mem_cons_self, rfl⟩
        · exact Or.inl h
      · exact Or.inr ⟨t, List.mem_cons_of_mem _ hmem, hu⟩
    · rintro (h | ⟨t, hmem, hu⟩)
      · apply Or.inl
        split
        · rename_i heq
          rw [heq, hnothing] at h
          cases h
        · exact h
      · cases List.mem_cons.mp hmem with
        | inl heq =>
            cases heq
            rw [hu]
            exact Or.inl (if_pos rfl)
        | inr hin => exact Or.inr ⟨t, hin, hu⟩
  · intro p
    rw [hrest.2 p, hnodes p]
    have hsection : (if p = state.current.getD [] ++ [key]
        then Node.value (Json.string value) else nodeAt state.heap.document p)
          = Node.section_ <-> nodeAt state.heap.document p = Node.section_ := by
      split
      · rename_i heq
        rw [heq, hnothing]
        constructor
        · intro h
          cases h
        · intro h
          cases h
      · exact Iff.rfl
    rw [hsection]
    exact Iff.rfl

theorem applyItems_spec :
    forall {items : List Item} {state : IniState}, InDocument state ->
      (forall segments, segments ∈ headersOf items -> protoKey ∉ segments) ->
        applyItems state items = some state' -> Effect state items state' := by
  intro items
  induction items with
  | nil =>
      intro state _ _ hok
      cases hok
      exact effect_nil _
  | cons item items ih =>
      intro state hstate hproto hok
      rcases Option.bind_eq_some_iff.mp hok with ⟨next, hitem, hrest⟩
      cases item with
      | blank =>
          cases hitem
          exact ih hstate hproto hrest
      | header segments =>
          have hstep := applyItem_header hstate (hproto segments List.mem_cons_self) hitem
          exact effect_header hstep.2.1 hstep.2.2.1 hstep.2.2.2
            (ih hstep.1 (fun s hs => hproto s (List.mem_cons_of_mem _ hs)) hrest)
      | entry key value =>
          have hstep := applyItem_entry hstate hitem
          exact effect_entry hstep.2.1 hstep.2.2.1 hstep.2.2.2 (ih hstep.1 hproto hrest)

end Web
end FleetServer
