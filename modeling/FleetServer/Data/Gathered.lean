import FleetServer.Data.KeyedMap

/-!
# Values gathered by key

A map that gathers the items offered under each key and may have no room for
further keys.  Once it has none it never has again, so what is kept under a key
is made from every item offered under it.
-/

namespace FleetServer
namespace Gathered

open KeyedMap

variable {Key Item Group : Type} [DecidableEq Key]

/-- How items are gathered, and whether a map of some size takes another key. -/
structure Gather (Item Group : Type) where
  room : Nat -> Bool
  blank : Item -> Group
  add : Group -> Item -> Group

variable (g : Gather Item Group)

namespace Gather

def offer (m : Map Key Group) (e : Key × Item) : Map Key Group :=
  match m.lookup e.1 with
  | some group => m.insert e.1 (g.add group e.2)
  | none => if g.room (size m) then m.insert e.1 (g.add (g.blank e.2) e.2) else m

def all : List Item -> Option Group
  | [] => none
  | item :: rest => some ((item :: rest).foldl g.add (g.blank item))

end Gather

def itemsOf (k : Key) (es : List (Key × Item)) : List Item :=
  (es.filter fun e => decide (e.1 = k)).map Prod.snd

variable {g} {es : List (Key × Item)} {m : Map Key Group}

theorem itemsOf_append (k : Key) (es more : List (Key × Item)) :
    itemsOf k (es ++ more) = itemsOf k es ++ itemsOf k more := by
  unfold itemsOf
  rw [List.filter_append, List.map_append]

theorem itemsOf_one (k : Key) (item : Item) : itemsOf k [(k, item)] = [item] := by
  unfold itemsOf
  rw [List.filter_singleton, decide_eq_true rfl]
  rfl

theorem itemsOf_other {k l : Key} (hne : l ≠ k) (item : Item) :
    itemsOf k [(l, item)] = [] := by
  unfold itemsOf
  rw [List.filter_singleton, decide_eq_false hne]
  rfl

theorem mem_itemsOf {k : Key} {item : Item} : item ∈ itemsOf k es <-> (k, item) ∈ es := by
  unfold itemsOf
  rw [List.mem_map]
  constructor
  · intro h
    rcases h with ⟨e, he, hitem⟩
    rcases List.mem_filter.mp he with ⟨hmem, hkey⟩
    rw [← of_decide_eq_true hkey, ← hitem]
    exact hmem
  · intro h
    exact ⟨(k, item), List.mem_filter.mpr ⟨h, decide_eq_true rfl⟩, rfl⟩

theorem all_snoc {items : List Item} {group : Group} (item : Item)
    (h : g.all items = some group) : g.all (items ++ [item]) = some (g.add group item) := by
  cases items with
  | nil => cases h
  | cons first rest =>
      have hgroup := Option.some.inj h
      rw [← hgroup]
      show some ((first :: (rest ++ [item])).foldl g.add (g.blank first)) = _
      rw [← List.cons_append, List.foldl_append]
      rfl

omit [DecidableEq Key] in
theorem size_eq_keys (m : Map Key Group) : size m = m.keys.length := by
  show m.entries.length = (m.entries.map Sigma.fst).length
  rw [List.length_map]

theorem size_insert_new {k : Key} {group : Group} (h : m.lookup k = none) :
    size (m.insert k group) = size m + 1 := by
  rw [size_eq_keys, size_eq_keys, AList.keys_insert,
    List.erase_of_not_mem (AList.lookup_eq_none.mp h)]
  rfl

theorem size_insert_old {k : Key} {group old : Group} (h : m.lookup k = some old) :
    size (m.insert k group) = size m := by
  have hmem : k ∈ m := AList.lookup_isSome.mp (by rw [h]; rfl)
  have hkeys : k ∈ m.keys := hmem
  rw [size_eq_keys, size_eq_keys, AList.keys_insert, List.length_cons,
    List.length_erase_of_mem hkeys]
  have hpos : 0 < m.keys.length := List.length_pos_of_mem hkeys
  omega

/-- What is kept is complete, and what is not kept was never offered, or there is no
room any more. -/
structure Complete (g : Gather Item Group) (es : List (Key × Item)) (m : Map Key Group) :
    Prop where
  kept : forall k group, m.lookup k = some group -> g.all (itemsOf k es) = some group
  left : forall k, m.lookup k = none -> itemsOf k es = [] ∨ g.room (size m) = false

theorem complete_empty : Complete g [] (∅ : Map Key Group) := by
  constructor
  · intro k group h
    rw [AList.lookup_empty] at h
    cases h
  · intro k _
    exact Or.inl rfl

theorem complete_insert {k : Key} {item : Item} {group : Group} (h : Complete g es m)
    (hgroup : g.all (itemsOf k es ++ [item]) = some group)
    (hroom : g.room (size m) = false -> g.room (size (m.insert k group)) = false) :
    Complete g (es ++ [(k, item)]) (m.insert k group) := by
  constructor
  · intro l found hfound
    rw [itemsOf_append]
    by_cases hkey : l = k
    · subst hkey
      rw [AList.lookup_insert] at hfound
      cases hfound
      rw [itemsOf_one]
      exact hgroup
    · rw [AList.lookup_insert_ne hkey] at hfound
      rw [itemsOf_other (fun heq => hkey heq.symm), List.append_nil]
      exact h.kept l found hfound
  · intro l hleft
    by_cases hkey : l = k
    · subst hkey
      rw [AList.lookup_insert] at hleft
      cases hleft
    · rw [AList.lookup_insert_ne hkey] at hleft
      rw [itemsOf_append, itemsOf_other (fun heq => hkey heq.symm), List.append_nil]
      cases h.left l hleft with
      | inl hnone => exact Or.inl hnone
      | inr hfull => exact Or.inr (hroom hfull)

theorem complete_offer (hroom : forall n, g.room n = false -> g.room (n + 1) = false)
    (h : Complete g es m) (e : Key × Item) : Complete g (es ++ [e]) (g.offer m e) := by
  rcases e with ⟨k, item⟩
  unfold Gather.offer
  cases hlookup : m.lookup k with
  | some group =>
      apply complete_insert h (all_snoc item (h.kept k group hlookup))
      rw [size_insert_old hlookup]
      exact fun hfull => hfull
  | none =>
      simp only
      cases hfits : g.room (size m) with
      | true =>
          have hnone : itemsOf k es = [] := by
            cases h.left k hlookup with
            | inl hnone => exact hnone
            | inr hfull =>
                rw [hfits] at hfull
                cases hfull
          apply complete_insert h
          · rw [hnone]
            rfl
          · rw [size_insert_new hlookup]
            exact hroom _
      | false =>
          rw [if_neg Bool.false_ne_true]
          constructor
          · intro l group hgroup
            have hkey : k ≠ l := by
              intro heq
              rw [heq, hgroup] at hlookup
              cases hlookup
            rw [itemsOf_append, itemsOf_other hkey, List.append_nil]
            exact h.kept l group hgroup
          · intro l _
            exact Or.inr hfits

theorem complete_foldl (hroom : forall n, g.room n = false -> g.room (n + 1) = false)
    {more : List (Key × Item)} (h : Complete g es m) :
    Complete g (es ++ more) (more.foldl g.offer m) := by
  induction more generalizing es m with
  | nil =>
      rw [List.append_nil]
      exact h
  | cons e more ih =>
      rw [List.foldl_cons, List.append_cons]
      exact ih (complete_offer hroom h e)

/-- A map that always has room keeps everything. -/
theorem lookup_of_complete (hroom : forall n, g.room n = true) (h : Complete g es m) (k : Key) :
    m.lookup k = g.all (itemsOf k es) := by
  cases hlookup : m.lookup k with
  | some group => exact (h.kept k group hlookup).symm
  | none =>
      cases h.left k hlookup with
      | inl hnone =>
          rw [hnone]
          rfl
      | inr hfull =>
          rw [hroom] at hfull
          cases hfull

end Gathered
end FleetServer
