import FleetServer.Web.Editing

/-!
# Settings by row id

The map of a document's settings, and what of two such maps an override puts.
-/

namespace FleetServer
namespace Web

open FleetServer.Core
open Core.Json

variable {members base working : List Member} {k text : String} {l : LeafEntry}
variable {p q path : List String} {v u : Json} {kept : List Removal}

/-- A document gives a setting a text. -/
def Sets (doc : List Member) (path : List String) (text : String) : Prop :=
  exists v, Leaf (object doc) path v ∧ render v = text

def Has (doc : List Member) (path : List String) : Prop :=
  exists text, Sets doc path text

theorem sets_unique {text' : String} (h : Sets members p text) (h' : Sets members p text') :
    text = text' := by
  rcases h with ⟨v, hleaf, htext⟩
  rcases h' with ⟨u, hleaf', htext'⟩
  rw [← htext, ← htext', leaf_unique hleaf hleaf']

theorem has_above (habove : p <+: q) (hp : Has members p) (hq : Has members q) : p = q := by
  rcases hp with ⟨_, v, hleaf, _⟩
  rcases hq with ⟨_, u, hleaf', _⟩
  exact leaf_above habove hleaf hleaf'

theorem valueAt_setting (hv : v.isSetting = true) :
    valueAt v q = some u <-> q = [] ∧ u = v := by
  cases q with
  | nil =>
      constructor
      · intro h
        cases h
        exact ⟨rfl, rfl⟩
      · intro h
        rw [h.2]
        rfl
  | cons k q =>
      have hget : v.get k = none := by
        cases v with
        | object m => cases hv
        | null => rfl
        | bool b => rfl
        | number t => rfl
        | string s => rfl
        | array items => rfl
      constructor
      · intro h
        have hnone : (v.get k).bind (fun w => valueAt w q) = some u := h
        rw [hget] at hnone
        cases hnone
      · intro h
        cases h.1

theorem leaf_cons {rest : List Member} (hk : k ∉ rest.map Prod.fst) :
    Leaf (object ((k, v) :: rest)) path u <->
      (exists q, path = k :: q ∧ valueAt v q = some u ∧ u.isSetting = true) ∨
        Leaf (object rest) path u := by
  cases path with
  | nil =>
      constructor
      · intro h
        exact absurd h leaf_nil
      · intro h
        cases h with
        | inl hfirst =>
            rcases hfirst with ⟨q, hq, _⟩
            cases hq
        | inr hrest => exact absurd hrest leaf_nil
  | cons l path =>
      by_cases hl : l = k
      · subst hl
        have hfirst : ((l, v) :: rest).lookup l = some v := by
          rw [List.lookup_cons, beq_self_eq_true]
        constructor
        · intro h
          have hvalue := h.2.1
          rw [valueAt_object, hfirst] at hvalue
          exact Or.inl ⟨path, rfl, hvalue, h.2.2⟩
        · intro h
          cases h with
          | inl hfound =>
              rcases hfound with ⟨q, hq, hvalue, hsetting⟩
              cases hq
              constructor
              · exact List.cons_ne_nil _ _
              · rw [valueAt_object, hfirst]
                exact ⟨hvalue, hsetting⟩
          | inr hrest =>
              exact absurd hrest (not_leaf_missing (lookup_eq_none_of_not_mem hk))
      · have hsame : ((k, v) :: rest).lookup l = rest.lookup l := by
          rw [List.lookup_cons, beq_eq_false_iff_ne.mpr hl]
        rw [leaf_congr hsame]
        constructor
        · intro h
          exact Or.inr h
        · intro h
          cases h with
          | inl hfound =>
              rcases hfound with ⟨q, hq, _⟩
              cases hq
              exact absurd rfl hl
          | inr hrest => exact hrest

theorem mem_leavesAt_setting (path : List String) (k : String) (hv : v.isSetting = true)
    (hleaves : leavesAt path k v = [{ path := path ++ [k], value := render v }]) :
    l ∈ leavesAt path k v <->
      exists q u, l = { path := path ++ k :: q, value := render u } ∧
        valueAt v q = some u ∧ u.isSetting = true := by
  rw [hleaves, List.mem_singleton]
  constructor
  · intro h
    exact ⟨[], v, h, rfl, hv⟩
  · intro h
    rcases h with ⟨q, u, hl, hvalue, _⟩
    rcases (valueAt_setting hv).mp hvalue with ⟨hq, hu⟩
    rw [hl, hq, hu]

mutual

theorem mem_leavesAt (path : List String) (k : String) {l : LeafEntry} :
    forall v : Json, distinct v = true ->
      (l ∈ leavesAt path k v <->
        exists q u, l = { path := path ++ k :: q, value := render u } ∧
          valueAt v q = some u ∧ u.isSetting = true)
  | Json.null, _ => by
      rw [leavesAt]
      constructor
      · intro h
        cases h
      · intro h
        rcases h with ⟨q, u, _, hvalue, hsetting⟩
        cases q with
        | nil =>
            cases hvalue
            cases hsetting
        | cons j q => cases hvalue
  | Json.object members, hdistinct => by
      rw [leavesAt, mem_leavesBeneath (path ++ [k]) members hdistinct]
      constructor
      · intro h
        rcases h with ⟨q, u, hl, hleaf⟩
        rw [List.append_assoc] at hl
        exact ⟨q, u, hl, hleaf.2⟩
      · intro h
        rcases h with ⟨q, u, hl, hvalue, hsetting⟩
        exists q, u
        constructor
        · rw [List.append_assoc]
          exact hl
        · constructor
          · intro hnil
            rw [hnil] at hvalue
            cases hvalue
            cases hsetting
          · exact ⟨hvalue, hsetting⟩
  | Json.bool _, _ => mem_leavesAt_setting path k rfl rfl
  | Json.number _, _ => mem_leavesAt_setting path k rfl rfl
  | Json.string _, _ => mem_leavesAt_setting path k rfl rfl
  | Json.array _, _ => mem_leavesAt_setting path k rfl rfl

theorem mem_leavesBeneath (path : List String) {l : LeafEntry} :
    forall members : List Member, distinct (object members) = true ->
      (l ∈ leavesBeneath path members <->
        exists q u, l = { path := path ++ q, value := render u } ∧ Leaf (object members) q u)
  | [], _ => by
      rw [leavesBeneath]
      constructor
      · intro h
        cases h
      · intro h
        rcases h with ⟨q, u, _, hleaf⟩
        exact absurd hleaf (not_leaf_empty q u)
  | (k, v) :: rest, hdistinct => by
      have hparts := distinct_object hdistinct
      have hnodup := List.nodup_cons.mp hparts.1
      have hdistinct : distinct v = true ∧ distinctMembers rest = true := by
        rw [← Bool.and_eq_true]
        exact hparts.2
      have hobject : distinct (object rest) = true := by
        show (decide ((rest.map Prod.fst).Nodup) && distinctMembers rest) = true
        rw [Bool.and_eq_true, decide_eq_true_iff]
        exact ⟨hnodup.2, hdistinct.2⟩
      rw [leavesBeneath, List.mem_append, mem_leavesAt path k v hdistinct.1,
        mem_leavesBeneath path rest hobject]
      constructor
      · intro h
        cases h with
        | inl hfirst =>
            rcases hfirst with ⟨q, u, hl, hvalue⟩
            exact ⟨k :: q, u, hl, (leaf_cons hnodup.1).mpr (Or.inl ⟨q, rfl, hvalue⟩)⟩
        | inr hrest =>
            rcases hrest with ⟨q, u, hl, hleaf⟩
            exact ⟨q, u, hl, (leaf_cons hnodup.1).mpr (Or.inr hleaf)⟩
      · intro h
        rcases h with ⟨q, u, hl, hleaf⟩
        cases (leaf_cons hnodup.1).mp hleaf with
        | inl hfirst =>
            rcases hfirst with ⟨q', hq, hvalue⟩
            rw [hq] at hl
            exact Or.inl ⟨q', u, hl, hvalue⟩
        | inr hrest => exact Or.inr ⟨q, u, hl, hrest⟩

end

/-- The settings a document lists are those it has. -/
theorem mem_leavesBeneath_root (hdistinct : distinct (object members) = true) :
    l ∈ leavesBeneath [] members <-> Sets members l.path l.value := by
  rw [mem_leavesBeneath [] members hdistinct]
  constructor
  · intro h
    rcases h with ⟨q, u, hl, hleaf⟩
    rw [hl]
    exact ⟨u, hleaf, rfl⟩
  · intro h
    rcases h with ⟨u, hleaf, htext⟩
    exists l.path, u
    constructor
    · rcases l with ⟨lpath, lvalue⟩
      simp only at htext
      rw [htext]
      rfl
    · exact hleaf

/-!
# The map
-/

theorem mem_foldl_mapSet {beta : Type} {id : beta -> String} {all : List beta}
    (hid : forall a b, a ∈ all -> b ∈ all -> id a = id b -> a = b) :
    forall {xs : List beta} {rows : List (String × beta)},
      (forall a, a ∈ xs -> a ∈ all) -> (forall e, e ∈ rows -> e.2 ∈ all ∧ e.1 = id e.2) ->
        (rows.map Prod.fst).Nodup ->
          ((xs.foldl (fun out a => mapSet (id a) a out) rows).map Prod.fst).Nodup ∧
            forall e, e ∈ xs.foldl (fun out a => mapSet (id a) a out) rows <->
              e ∈ rows ∨ (e.2 ∈ xs ∧ e.1 = id e.2) := by
  intro xs
  induction xs with
  | nil =>
      intro rows _ _ hnodup
      constructor
      · exact hnodup
      · intro e
        constructor
        · intro h
          exact Or.inl h
        · intro h
          cases h with
          | inl hrow => exact hrow
          | inr hnone => cases hnone.1
  | cons a xs ih =>
      intro rows hxs hrows hnodup
      have ha := hxs a List.mem_cons_self
      have hmem : forall e, e ∈ mapSet (id a) a rows <-> e = (id a, a) ∨ e ∈ rows := by
        intro e
        rw [mem_mapSet hnodup]
        constructor
        · intro h
          cases h with
          | inl hnew => exact Or.inl hnew
          | inr hold => exact Or.inr hold.1
        · intro h
          cases h with
          | inl hnew => exact Or.inl hnew
          | inr hold =>
              by_cases hsame : e.1 = id a
              · have he := hrows e hold
                have heq : e.2 = a := hid e.2 a he.1 ha (he.2.symm.trans hsame)
                exact Or.inl (Prod.ext hsame heq)
              · exact Or.inr ⟨hold, hsame⟩
      have hkeys : ((mapSet (id a) a rows).map Prod.fst).Nodup := by
        rw [map_fst_mapSet]
        split
        · exact hnodup
        · rename_i hnew
          exact List.nodup_append.mpr ⟨hnodup, List.nodup_singleton _, by
            intro b hb c hc heq
            rw [heq, List.mem_singleton.mp hc] at hb
            exact hnew hb⟩
      have hall : forall e, e ∈ mapSet (id a) a rows -> e.2 ∈ all ∧ e.1 = id e.2 := by
        intro e he
        cases (hmem e).mp he with
        | inl hnew =>
            rw [hnew]
            exact ⟨ha, rfl⟩
        | inr hold => exact hrows e hold
      have hrest := ih (fun b hb => hxs b (List.mem_cons_of_mem _ hb)) hall hkeys
      constructor
      · exact hrest.1
      · intro e
        show e ∈ xs.foldl _ (mapSet (id a) a rows) <-> _
        rw [hrest.2 e, hmem e, List.mem_cons]
        constructor
        · intro h
          rcases h with (hnew | hold) | hlater
          · rw [hnew]
            exact Or.inr ⟨Or.inl rfl, rfl⟩
          · exact Or.inl hold
          · exact Or.inr ⟨Or.inr hlater.1, hlater.2⟩
        · intro h
          rcases h with hold | ⟨hfirst | hlater, hid⟩
          · exact Or.inl (Or.inr hold)
          · rw [hfirst] at hid
            exact Or.inl (Or.inl (Prod.ext hid hfirst))
          · exact Or.inr ⟨hlater, hid⟩

/-- No two settings of the documents have the same row id. -/
def ApartIds (base working : List Member) : Prop :=
  forall p q, Has base p ∨ Has working p -> Has base q ∨ Has working q ->
    leafId p = leafId q -> p = q

/-- Nothing the document sets is at a removal or beneath it. -/
def StillStands (doc : List Member) (r : Removal) : Prop :=
  forall p, Has doc p -> Not (r <+: p)

variable {doc : List Member}

/-- The map has the document's settings, each under its own id. -/
structure Listed (base working doc : List Member) (rows : Leaves) : Prop where
  nodup : (rows.map Prod.fst).Nodup
  mem : forall e, e ∈ rows <-> Sets doc e.2.path e.2.value ∧ e.1 = leafId e.2.path
  one : forall p, Has doc p -> Has base p ∨ Has working p

theorem listed (hids : ApartIds base working)
    (hone : forall p, Has doc p -> Has base p ∨ Has working p)
    (hdistinct : distinct (object doc) = true) : Listed base working doc (leaves doc) := by
  have hsets : forall l, l ∈ leavesBeneath [] doc <-> Sets doc l.path l.value :=
    fun l => mem_leavesBeneath_root hdistinct
  have hid : forall a b, a ∈ leavesBeneath [] doc -> b ∈ leavesBeneath [] doc ->
      leafId a.path = leafId b.path -> a = b := by
    intro a b ha hb heq
    have ha := (hsets a).mp ha
    have hb := (hsets b).mp hb
    have hpath := hids a.path b.path (hone _ ⟨_, ha⟩) (hone _ ⟨_, hb⟩) heq
    rcases a with ⟨apath, avalue⟩
    rcases b with ⟨bpath, bvalue⟩
    simp only at ha hb hpath
    subst hpath
    rw [sets_unique ha hb]
  have hfold := mem_foldl_mapSet hid (fun a ha => ha)
    (fun e (he : e ∈ ([] : Leaves)) => by cases he) List.nodup_nil
  constructor
  · exact hfold.1
  · intro e
    rw [← hsets]
    constructor
    · intro he
      cases (hfold.2 e).mp he with
      | inl hnone => cases hnone
      | inr hfound => exact hfound
    · intro he
      exact (hfold.2 e).mpr (Or.inr he)
  · exact hone

namespace Listed

variable {rows had has_ : Leaves}

theorem sets_of_mem {id : String} (h : Listed base working doc rows) (hmem : (id, l) ∈ rows) :
    Sets doc l.path l.value ∧ id = leafId l.path :=
  (h.mem (id, l)).mp hmem

theorem value_iff (hids : ApartIds base working) (h : Listed base working doc rows)
    (hp : Has base p ∨ Has working p) :
    (rows.lookup (leafId p)).map LeafEntry.value = some text <-> Sets doc p text := by
  constructor
  · intro hlookup
    rcases Option.map_eq_some_iff.mp hlookup with ⟨found, hfound, htext⟩
    have hmem := h.sets_of_mem (Table.mem_of_lookup hfound)
    have hpath := hids p found.path hp (h.one _ ⟨_, hmem.1⟩) hmem.2
    rw [hpath, ← htext]
    exact hmem.1
  · intro hsets
    have hmem : (leafId p, ({ path := p, value := text } : LeafEntry)) ∈ rows :=
      (h.mem _).mpr ⟨hsets, rfl⟩
    rw [Table.lookup_of_mem h.nodup hmem]
    rfl

theorem any_id_iff (hids : ApartIds base working) (h : Listed base working doc rows)
    (hp : Has base p ∨ Has working p) :
    (rows.any fun w => w.1 == leafId p) = true <-> Has doc p := by
  rw [List.any_eq_true]
  constructor
  · intro hany
    rcases hany with ⟨w, hw, hid⟩
    have hmem := (h.mem w).mp hw
    have hpath := hids p w.2.path hp (h.one _ ⟨_, hmem.1⟩)
      ((beq_iff_eq.mp hid).symm.trans hmem.2)
    rw [hpath]
    exact ⟨_, hmem.1⟩
  · intro hhas
    rcases hhas with ⟨text, hsets⟩
    exists (leafId p, { path := p, value := text })
    exact ⟨(h.mem _).mpr ⟨hsets, rfl⟩, beq_self_eq_true _⟩

theorem inForce_iff (h : Listed base working doc rows) {r : Removal} :
    inForce rows r = true <-> StillStands doc r := by
  show (!rows.any fun w => isPrefix r w.2.path) = true <-> _
  rw [Bool.not_eq_true', List.any_eq_false]
  constructor
  · intro hnone p hp habove
    rcases hp with ⟨text, hsets⟩
    have hmem : (leafId p, ({ path := p, value := text } : LeafEntry)) ∈ rows :=
      (h.mem _).mpr ⟨hsets, rfl⟩
    exact hnone _ hmem (List.isPrefixOf_iff_prefix.mpr habove)
  · intro hstands w hw habove
    have hmem := (h.mem w).mp hw
    exact hstands _ ⟨_, hmem.1⟩ (List.isPrefixOf_iff_prefix.mp habove)

/-- The changed settings are the edited ones that the old document does not give. -/
theorem mem_changed (hids : ApartIds base working) (hhad : Listed base working base had)
    (hhas : Listed base working working has_) :
    l ∈ changedLeaves had has_ <->
      Sets working l.path l.value ∧ Not (Sets base l.path l.value) := by
  unfold changedLeaves
  rw [List.mem_map]
  constructor
  · intro h
    rcases h with ⟨w, hw, hl⟩
    rw [List.mem_filter, bne_iff_ne] at hw
    have hmem := (hhas.mem w).mp hw.1
    rw [← hl]
    constructor
    · exact hmem.1
    · intro hsets
      apply hw.2
      rw [hmem.2]
      exact (hhad.value_iff hids (Or.inr ⟨_, hmem.1⟩)).mpr hsets
  · intro h
    exists (leafId l.path, l)
    constructor
    · rw [List.mem_filter, bne_iff_ne]
      constructor
      · exact (hhas.mem _).mpr ⟨h.1, rfl⟩
      · intro heq
        exact h.2 ((hhad.value_iff hids (Or.inr ⟨_, h.1⟩)).mp heq)
    · rfl

theorem mem_covered (hids : ApartIds base working) (hhad : Listed base working base had)
    (hhas : Listed base working working has_) (hp : Has base p) :
    leafId p ∈ covered had has_ kept <-> exists r, r ∈ kept ∧ StillStands working r ∧ r <+: p := by
  unfold covered
  rw [List.mem_flatMap]
  constructor
  · intro h
    rcases h with ⟨r, hr, hid⟩
    rw [List.mem_filter] at hr
    rcases List.mem_map.mp hid with ⟨b, hb, hsame⟩
    rw [List.mem_filter] at hb
    have hmem := (hhad.mem b).mp hb.1
    have hpath := hids p b.2.path (Or.inl hp) (Or.inl ⟨_, hmem.1⟩) (hsame.symm.trans hmem.2)
    rw [hpath]
    exact ⟨r, hr.1, hhas.inForce_iff.mp hr.2, List.isPrefixOf_iff_prefix.mp hb.2⟩
  · intro h
    rcases h with ⟨r, hr, hstands, habove⟩
    rcases hp with ⟨text, hsets⟩
    exists r
    constructor
    · exact List.mem_filter.mpr ⟨hr, hhas.inForce_iff.mpr hstands⟩
    · apply List.mem_map.mpr
      exists (leafId p, { path := p, value := text })
      constructor
      · apply List.mem_filter.mpr
        exact ⟨(hhad.mem _).mpr ⟨hsets, rfl⟩, List.isPrefixOf_iff_prefix.mpr habove⟩
      · rfl

/-- The dropped settings are the old ones that are neither edited nor covered. -/
theorem mem_dropped (hids : ApartIds base working) (hhad : Listed base working base had)
    (hhas : Listed base working working has_) :
    l ∈ droppedLeaves had has_ kept <->
      Sets base l.path l.value ∧ Not (Has working l.path) ∧
        forall r, r ∈ kept -> StillStands working r -> Not (r <+: l.path) := by
  unfold droppedLeaves
  rw [List.mem_map]
  have htest : forall b : String × LeafEntry, Sets base b.2.path b.2.value ->
      b.1 = leafId b.2.path ->
        ((!has_.any (fun w => w.1 == b.1) && !(covered had has_ kept).contains b.1) = true <->
          Not (Has working b.2.path) ∧
            forall r, r ∈ kept -> StillStands working r -> Not (r <+: b.2.path)) := by
    intro b hsets hid
    have hp : Has base b.2.path := ⟨_, hsets⟩
    rw [Bool.and_eq_true, Bool.not_eq_true', Bool.not_eq_true', hid, Bool.eq_false_iff,
      Bool.eq_false_iff, ne_eq, ne_eq, hhas.any_id_iff hids (Or.inl hp), List.contains_iff_mem,
      mem_covered hids hhad hhas hp]
    constructor
    · intro h
      exact ⟨h.1, fun r hr hstands habove => h.2 ⟨r, hr, hstands, habove⟩⟩
    · intro h
      constructor
      · exact h.1
      · intro hcovered
        rcases hcovered with ⟨r, hr, hstands, habove⟩
        exact h.2 r hr hstands habove
  constructor
  · intro h
    rcases h with ⟨b, hb, hl⟩
    rw [List.mem_filter] at hb
    have hmem := (hhad.mem b).mp hb.1
    rw [← hl]
    exact ⟨hmem.1, (htest b hmem.1 hmem.2).mp hb.2⟩
  · intro h
    exists (leafId l.path, l)
    constructor
    · apply List.mem_filter.mpr
      exact ⟨(hhad.mem _).mpr ⟨h.1, rfl⟩, (htest (leafId l.path, l) h.1 rfl).mpr h.2⟩
    · rfl

end Listed

end Web
end FleetServer
