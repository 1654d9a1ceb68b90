import FleetServer.Web.IniExact

/-!
# Which items are accepted

Of items without a header through `__proto__`: those that are well formed and use
ordinary names, and no others.
-/

namespace FleetServer
namespace Web

open FleetServer.Core
open Core.Json

variable {members : List Member} {k key value text : String} {p q segments : List String}
variable {u : Json} {item : Item} {items : List Item} {raw : List Char}
variable {state state' : IniState} {n m : Node}

def NoProto (items : List Item) : Prop :=
  forall segments, segments ∈ headersOf items -> protoKey ∉ segments

/-!
# What was accepted met nothing
-/

theorem unhindered_header {next : IniState} (hcurrent : next.current = some segments)
    (hvalues : forall s u, s <+: segments -> nodeAt state.heap.document s ≠ Node.value u)
    (hnodes : forall s, nodeAt next.heap.document s =
      if s <+: segments then Node.section_ else nodeAt state.heap.document s)
    (hrest : Unhindered next.heap.document (next.current.getD []) items) :
    Unhindered state.heap.document (state.current.getD []) (Item.header segments :: items) := by
  rw [hcurrent] at hrest
  have hfree : forall p t, (p, t) ∈ entriesOf segments items ->
      ¬ p <+: segments ∧ nodeAt state.heap.document p = Node.nothing := by
    intro p t hp
    have hnothing := hrest.entries p t hp
    rw [hnodes p] at hnothing
    split at hnothing
    · cases hnothing
    · rename_i hnot
      exact ⟨hnot, hnothing⟩
  constructor
  · intro other hother s u habove hvalue
    cases List.mem_cons.mp hother with
    | inl heq =>
        rw [heq] at habove
        exact hvalues s u habove hvalue
    | inr hin =>
        apply hrest.headers other hin s u habove
        rw [hnodes s, if_neg]
        · exact hvalue
        · intro hmade
          exact hvalues s u hmade hvalue
  · intro p t hp
    exact (hfree p t hp).2
  · exact hrest.distinct
  · intro p t other hp hother
    cases List.mem_cons.mp hother with
    | inl heq =>
        rw [heq]
        exact (hfree p t hp).1
    | inr hin => exact hrest.beside p t other hp hin

theorem unhindered_entry {next : IniState} (hcurrent : next.current = state.current)
    (hnothing : nodeAt state.heap.document (state.current.getD [] ++ [key]) = Node.nothing)
    (hnodes : forall s, nodeAt next.heap.document s =
      if s = state.current.getD [] ++ [key] then Node.value (Json.string value)
      else nodeAt state.heap.document s)
    (hrest : Unhindered next.heap.document (next.current.getD []) items) :
    Unhindered state.heap.document (state.current.getD []) (Item.entry key value :: items) := by
  rw [hcurrent] at hrest
  have hset := hnodes (state.current.getD [] ++ [key])
  rw [if_pos rfl] at hset
  have hfree : forall p t, (p, t) ∈ entriesOf (state.current.getD []) items ->
      p ≠ state.current.getD [] ++ [key] ∧ nodeAt state.heap.document p = Node.nothing := by
    intro p t hp
    have hnode := hrest.entries p t hp
    rw [hnodes p] at hnode
    split at hnode
    · cases hnode
    · rename_i hne
      exact ⟨hne, hnode⟩
  constructor
  · intro other hother s u habove hvalue
    apply hrest.headers other hother s u habove
    rw [hnodes s, if_neg]
    · exact hvalue
    · intro heq
      rw [heq, hnothing] at hvalue
      cases hvalue
  · intro p t hp
    cases List.mem_cons.mp hp with
    | inl heq =>
        cases heq
        exact hnothing
    | inr hin => exact (hfree p t hin).2
  · show (_ :: (entriesOf _ items).map Prod.fst).Nodup
    rw [List.nodup_cons]
    constructor
    · intro hmem
      rcases List.mem_map.mp hmem with ⟨e, he, hsame⟩
      exact (hfree e.1 e.2 he).1 hsame
    · exact hrest.distinct
  · intro p t other hp hother
    cases List.mem_cons.mp hp with
    | inl heq =>
        cases heq
        intro habove
        exact hrest.headers other hother _ _ habove hset
    | inr hin => exact hrest.beside p t other hin hother

theorem unhindered_of_accepted :
    forall {items : List Item} {state : IniState}, InDocument state -> NoProto items ->
      applyItems state items = some state' ->
        Unhindered state.heap.document (state.current.getD []) items := by
  intro items
  induction items with
  | nil =>
      intro state _ _ _
      constructor
      · intro segments h
        cases h
      · intro p t h
        cases h
      · exact List.nodup_nil
      · intro p t segments h
        cases h
  | cons item items ih =>
      intro state hstate hproto hok
      rcases Option.bind_eq_some_iff.mp hok with ⟨next, hitem, hrest⟩
      cases item with
      | blank =>
          cases hitem
          have hclear := ih hstate hproto hrest
          exact ⟨hclear.headers, hclear.entries, hclear.distinct, hclear.beside⟩
      | header segments =>
          have hstep := applyItem_header hstate (hproto segments List.mem_cons_self) hitem
          exact unhindered_header hstep.2.1 hstep.2.2.1 hstep.2.2.2
            (ih hstep.1 (fun s hs => hproto s (List.mem_cons_of_mem _ hs)) hrest)
      | entry key value =>
          have hstep := applyItem_entry hstate hitem
          exact unhindered_entry hstep.2.1 hstep.2.2.1 hstep.2.2.2 (ih hstep.1 hproto hrest)

/-!
# The document of accepted items
-/

structure Denotes (members : List Member) (items : List Item) : Prop where
  values : forall p u, nodeAt members p = Node.value u <->
    exists t, (p, t) ∈ entriesOf [] items ∧ u = Json.string t
  sections : forall p, nodeAt members p = Node.section_ <->
    p = [] ∨ exists segments, segments ∈ headersOf items ∧ p <+: segments

theorem denotes_of_effect
    (heffect : Effect { heap := emptyHeap, current := none } items state') :
    Denotes state'.heap.document items := by
  constructor
  · intro p u
    rw [heffect.1 p u]
    constructor
    · intro h
      cases h with
      | inl hstart => exact absurd hstart (no_value_at_start p u)
      | inr hentry => exact hentry
    · exact Or.inr
  · intro p
    rw [heffect.2 p]
    constructor
    · intro h
      cases h with
      | inl hstart => exact Or.inl (section_start hstart)
      | inr hheader => exact Or.inr hheader
    · intro h
      cases h with
      | inl hroot =>
          rw [hroot]
          exact Or.inl rfl
      | inr hheader => exact Or.inr hheader

theorem accepts_ordinary (hitems : (splitLines text.toList).mapM itemOf = some items)
    (hformed : WellFormed items) (hnames : OrdinaryNames items) :
    exists members, iniToJson text = Except.ok members ∧ Denotes members items := by
  have hroot : nodeAt emptyHeap.document [] = Node.section_ := rfl
  have hfree : AllFree emptyHeap [] items := by
    constructor
    · intro segments h k hk
      exact free_start (hnames.headers segments h k hk)
    · intro p t h k hk
      exact free_start (hnames.entries p t h k hk)
  have hclear : Unhindered emptyHeap.document [] items := by
    constructor
    · intro segments _ s u _
      exact no_value_at_start s u
    · intro p t hp
      rcases path_of_entry hp with ⟨segments, key, rfl⟩
      cases segments with
      | nil => rfl
      | cons k rest => rfl
    · exact hformed.distinct
    · exact hformed.beside
  have haccepts := @applyItems_accepts items { heap := emptyHeap, current := none } hroot
    hfree hclear
  rcases haccepts with ⟨state', hrun, _, heffect⟩
  exists state'.heap.document
  constructor
  · exact iniToJson_iff.mpr ⟨items, state', hitems, hrun, rfl⟩
  · exact denotes_of_effect heffect

theorem accepted (hok : iniToJson text = Except.ok members)
    (hitems : (splitLines text.toList).mapM itemOf = some items) (hproto : NoProto items) :
    WellFormed items ∧ OrdinaryNames items ∧ Denotes members items := by
  rcases iniToJson_iff.mp hok with ⟨items', final, hitems', happly, hdocument⟩
  rw [hitems] at hitems'
  cases hitems'
  have hclear := unhindered_of_accepted inDocument_start hproto happly
  have hdenotes := denotes_of_effect (applyItems_spec inDocument_start hproto happly)
  have hmethods := @no_method_in_headers _ items { heap := emptyHeap, current := none }
    ownHeap_empty happly
  rw [hdocument] at hdenotes
  constructor
  · exact ⟨hclear.distinct, hclear.beside⟩
  · constructor
    · constructor
      · intro segments hsegments k hk
        unfold inherits
        rw [hmethods segments hsegments k hk, beq_eq_false_iff_ne.mpr]
        · rfl
        · intro heq
          apply hproto segments hsegments
          rw [← heq]
          exact hk
      · intro p t hp
        apply own_of_node (ownKeys_iniToJson hok)
        rw [(hdenotes.values p (Json.string t)).mpr ⟨t, hp, rfl⟩]
        intro h
        cases h
    · exact hdenotes

/-- Whatever the headers lead to, a value of the document is an entry with its path. -/
theorem entry_of_value (hok : iniToJson text = Except.ok members)
    (hitems : (splitLines text.toList).mapM itemOf = some items)
    (hp : nodeAt members p = Node.value u) :
    exists t, (p, t) ∈ entriesOf [] items ∧ u = Json.string t := by
  rcases iniToJson_iff.mp hok with ⟨items', final, hitems', happly, hdocument⟩
  rw [hitems] at hitems'
  cases hitems'
  rw [← hdocument] at hp
  have hstart : OnlyValues (fun p u => exists t, (p, t) ∈ entriesOf [] items ∧
      u = Json.string t) emptyHeap.document := onlyValues_nil
  exact @onlyValues_applyItems _ _ items { heap := emptyHeap, current := none } hstart
    (fun p t hmem => ⟨t, hmem, rfl⟩) happly p u hp

/-!
# Nodes
-/

theorem node_ext (hvalue : forall u, n = Node.value u <-> m = Node.value u)
    (hsection : n = Node.section_ <-> m = Node.section_) : n = m := by
  cases n with
  | value u => exact ((hvalue u).mp rfl).symm
  | section_ => exact (hsection.mp rfl).symm
  | nothing =>
      cases m with
      | value u => exact (hvalue u).mpr rfl
      | section_ => exact hsection.mpr rfl
      | nothing => rfl

theorem text_unique {t t' : String} (hformed : WellFormed items)
    (hp : (p, t) ∈ entriesOf [] items) (hp' : (p, t') ∈ entriesOf [] items) : t = t' := by
  have hnodup := hformed.distinct
  have hsame := List.inj_on_of_nodup_map hnodup hp hp' rfl
  injection hsame

end Web
end FleetServer
