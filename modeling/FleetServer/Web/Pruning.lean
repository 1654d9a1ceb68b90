import FleetServer.Web.Keyed

/-!
# Patches without empty sections

Dropping the sections that hold nothing keeps every value.  What a document keeps
under such a patch is what no value of the patch is above or beneath.
-/

namespace FleetServer
namespace Web

open FleetServer.Core
open Core.Json

def isEmptySection : Json -> Bool
  | Json.object [] => true
  | _ => false

variable {allowed : String -> Bool} {members m : List Member} {k : String}
variable {p q s t path rest : List String} {v u : Json}

theorem pruneEmpty_cons (k : String) (v : Json) (rest : List Member) :
    pruneEmpty ((k, v) :: rest) =
      if isEmptySection (pruneAt v) then pruneEmpty rest
      else (k, pruneAt v) :: pruneEmpty rest := by
  rw [pruneEmpty]
  split
  · rename_i hempty
    rw [hempty]
    rfl
  · rename_i hne
    cases hv : pruneAt v with
    | object members =>
        cases members with
        | nil => exact absurd hv hne
        | cons first rest => rfl
    | null => rfl
    | bool b => rfl
    | number t => rfl
    | string s => rfl
    | array items => rfl

theorem pruneAt_object (m : List Member) : pruneAt (object m) = object (pruneEmpty m) := by
  rw [pruneAt]

theorem pruneAt_value (hv : v.isObject = false) : pruneAt v = v := by
  cases v with
  | object m => cases hv
  | null => rw [pruneAt]; intro m hm; cases hm
  | bool b => rw [pruneAt]; intro m hm; cases hm
  | number t => rw [pruneAt]; intro m hm; cases hm
  | string s => rw [pruneAt]; intro m hm; cases hm
  | array items => rw [pruneAt]; intro m hm; cases hm

theorem not_emptySection (hv : v.isObject = false) : isEmptySection v = false := by
  cases v with
  | object m => cases hv
  | null => rfl
  | bool b => rfl
  | number t => rfl
  | string s => rfl
  | array items => rfl

theorem emptySection_iff : isEmptySection (object m) = true <-> m = [] := by
  cases m with
  | nil => exact ⟨fun _ => rfl, fun _ => rfl⟩
  | cons first rest =>
      constructor
      · intro h
        cases h
      · intro h
        cases h

def prunedLookup : Option Json -> Option Json
  | none => none
  | some v => if isEmptySection (pruneAt v) then none else some (pruneAt v)

theorem lookup_pruneEmpty (hnodup : (members.map Prod.fst).Nodup) :
    (pruneEmpty members).lookup k = prunedLookup (members.lookup k) := by
  induction members with
  | nil => rfl
  | cons first rest ih =>
      rcases first with ⟨l, w⟩
      have hparts := List.nodup_cons.mp hnodup
      rw [pruneEmpty_cons, List.lookup_cons]
      by_cases hkl : k = l
      · subst hkl
        rw [beq_self_eq_true]
        split
        · rename_i hempty
          rw [ih hparts.2, lookup_eq_none_of_not_mem hparts.1]
          exact (if_pos hempty).symm
        · rename_i hne
          rw [List.lookup_cons, beq_self_eq_true]
          exact (if_neg hne).symm
      · rw [beq_eq_false_iff_ne.mpr hkl]
        split
        · exact ih hparts.2
        · rw [List.lookup_cons, beq_eq_false_iff_ne.mpr hkl]
          exact ih hparts.2

theorem nodup_of_wellKeyed (h : wellKeyed allowed (object members) = true) :
    (members.map Prod.fst).Nodup :=
  (wellKeyed_object.mp h).1

theorem value_pruned :
    forall {s : List String} {members : List Member},
      wellKeyed allowed (object members) = true ->
        (nodeAt (pruneEmpty members) s = Node.value u <-> nodeAt members s = Node.value u) := by
  intro s
  induction s with
  | nil =>
      intro members _
      exact Iff.rfl
  | cons k s ih =>
      intro members h
      have hlookup := lookup_pruneEmpty (k := k) (nodup_of_wellKeyed h)
      rcases lookup_cases members k with hk | ⟨m, hk⟩ | ⟨w, hk, hw⟩
      · rw [hk] at hlookup
        rw [nodeAt_missing hk, nodeAt_missing hlookup]
      · have hm := ih (wellKeyed_lookup h hk).2
        rw [hk] at hlookup
        rw [nodeAt_object hk, ← hm]
        cases hempty : isEmptySection (pruneAt (object m)) with
        | true =>
            have hnone : (pruneEmpty members).lookup k = none :=
              hlookup.trans (if_pos hempty)
            rw [pruneAt_object] at hempty
            rw [nodeAt_missing hnone, emptySection_iff.mp hempty]
            constructor
            · intro hnothing
              cases hnothing
            · intro hvalue
              cases s with
              | nil => cases hvalue
              | cons j s => cases hvalue
        | false =>
            have hsome : (pruneEmpty members).lookup k = some (object (pruneEmpty m)) := by
              rw [← pruneAt_object]
              exact hlookup.trans (if_neg (Bool.eq_false_iff.mp hempty))
            rw [nodeAt_object hsome]
      · have hsome : (pruneEmpty members).lookup k = some w := by
          rw [hk] at hlookup
          apply hlookup.trans
          show (if isEmptySection (pruneAt w) then none else some (pruneAt w)) = some w
          rw [pruneAt_value hw, not_emptySection hw]
          rfl
        rw [nodeAt_value hw hk, nodeAt_value hw hsome]

mutual

theorem value_in_section :
    forall v : Json, v.isObject = true -> isEmptySection (pruneAt v) = false ->
      exists t u, nodeAt (membersOf (pruneAt v)) t = Node.value u
  | Json.object m, _, h => by
      rw [pruneAt_object] at h ⊢
      apply value_in_members m
      intro hnil
      rw [emptySection_iff.mpr hnil] at h
      cases h
  | Json.null, h, _ => by cases h
  | Json.bool _, h, _ => by cases h
  | Json.number _, h, _ => by cases h
  | Json.string _, h, _ => by cases h
  | Json.array _, h, _ => by cases h

theorem value_in_members :
    forall members : List Member, pruneEmpty members ≠ [] ->
      exists t u, nodeAt (pruneEmpty members) t = Node.value u
  | [], h => absurd rfl h
  | (k, v) :: rest, h => by
      rw [pruneEmpty_cons] at h ⊢
      cases hempty : isEmptySection (pruneAt v) with
      | true =>
          rw [hempty] at h
          exact value_in_members rest h
      | false =>
          have hlookup : ((k, pruneAt v) :: pruneEmpty rest).lookup k = some (pruneAt v) := by
            rw [List.lookup_cons, beq_self_eq_true]
          show exists t u, nodeAt ((k, pruneAt v) :: pruneEmpty rest) t = Node.value u
          cases hobject : v.isObject with
          | true =>
              rcases value_in_section v hobject hempty with ⟨t, u, hvalue⟩
              exists k :: t, u
              cases v with
              | object m =>
                  rw [pruneAt_object] at hlookup hvalue ⊢
                  rw [nodeAt_object hlookup]
                  exact hvalue
              | null => cases hobject
              | bool b => cases hobject
              | number t => cases hobject
              | string s => cases hobject
              | array items => cases hobject
          | false =>
              exists [k], v
              rw [pruneAt_value hobject] at hlookup ⊢
              rw [nodeAt_value hobject hlookup]
              exact if_pos rfl

end

theorem value_beneath :
    forall {s : List String} {members : List Member},
      wellKeyed allowed (object members) = true -> s ≠ [] ->
        nodeAt (pruneEmpty members) s = Node.section_ ->
          exists t u, s <+: t ∧ nodeAt (pruneEmpty members) t = Node.value u := by
  intro s
  induction s with
  | nil =>
      intro members _ hne _
      exact absurd rfl hne
  | cons k s ih =>
      intro members h _ hsection
      have hlookup := lookup_pruneEmpty (k := k) (nodup_of_wellKeyed h)
      rcases lookup_cases members k with hk | ⟨m, hk⟩ | ⟨w, hk, hw⟩
      · rw [hk] at hlookup
        rw [nodeAt_missing hlookup] at hsection
        cases hsection
      · rw [hk] at hlookup
        cases hempty : isEmptySection (pruneAt (object m)) with
        | true =>
            rw [nodeAt_missing (hlookup.trans (if_pos hempty))] at hsection
            cases hsection
        | false =>
            have hsome : (pruneEmpty members).lookup k = some (object (pruneEmpty m)) := by
              rw [← pruneAt_object]
              exact hlookup.trans (if_neg (Bool.eq_false_iff.mp hempty))
            have hbelow : exists t u, s <+: t ∧ nodeAt (pruneEmpty m) t = Node.value u := by
              cases s with
              | nil =>
                  have hne : pruneEmpty m ≠ [] := by
                    intro hnil
                    rw [pruneAt_object, emptySection_iff.mpr hnil] at hempty
                    cases hempty
                  rcases value_in_members m hne with ⟨t, u, hvalue⟩
                  exact ⟨t, u, List.nil_prefix, hvalue⟩
              | cons j s =>
                  rw [nodeAt_object hsome] at hsection
                  exact ih (wellKeyed_lookup h hk).2 (List.cons_ne_nil _ _) hsection
            rcases hbelow with ⟨t, u, habove, hvalue⟩
            exists k :: t, u
            constructor
            · exact List.cons_prefix_cons.mpr ⟨rfl, habove⟩
            · rw [nodeAt_object hsome]
              exact hvalue
      · have hsome : (pruneEmpty members).lookup k = some w := by
          rw [hk] at hlookup
          apply hlookup.trans
          show (if isEmptySection (pruneAt w) then none else some (pruneAt w)) = some w
          rw [pruneAt_value hw, not_emptySection hw]
          rfl
        rw [nodeAt_value hw hsome] at hsection
        split at hsection
        · cases hsection
        · cases hsection

theorem node_above :
    forall {s : List String} {t : List String} {members : List Member}, s <+: t ->
      nodeAt members t ≠ Node.nothing -> nodeAt members s ≠ Node.nothing := by
  intro s
  induction s with
  | nil =>
      intro t members _ _ hnothing
      cases hnothing
  | cons k s ih =>
      intro t members habove ht
      cases t with
      | nil => cases List.prefix_nil.mp habove
      | cons l t =>
          rcases List.cons_prefix_cons.mp habove with ⟨hkey, hrest⟩
          subst hkey
          rcases lookup_cases members k with hk | ⟨m, hk⟩ | ⟨w, hk, hw⟩
          · exact absurd (nodeAt_missing hk) ht
          · rw [nodeAt_object hk] at ht ⊢
            exact ih hrest ht
          · rw [nodeAt_value hw hk] at ht
            have hnil : t = [] := by
              by_contra hne
              exact ht (if_neg hne)
            rw [hnil] at hrest
            rw [nodeAt_value hw hk, if_pos (List.prefix_nil.mp hrest)]
            intro hnothing
            cases hnothing

theorem misses_iff :
    forall {q : List String} {members : List Member}, q ≠ [] ->
      (misses members q = true <->
        nodeAt members q = Node.nothing ∧
          forall t u, t <+: q -> nodeAt members t ≠ Node.value u) := by
  intro q
  induction q with
  | nil =>
      intro members hne
      exact absurd rfl hne
  | cons k q ih =>
      intro members _
      rcases lookup_cases members k with hk | ⟨m, hk⟩ | ⟨w, hk, hw⟩
      · constructor
        · intro _
          constructor
          · exact nodeAt_missing hk
          · intro t u habove hvalue
            cases t with
            | nil => cases hvalue
            | cons l t =>
                rcases List.cons_prefix_cons.mp habove with ⟨hkey, _⟩
                rw [hkey, nodeAt_missing hk] at hvalue
                cases hvalue
        · intro _
          exact misses_missing hk
      · rw [misses_section hk, nodeAt_object hk]
        have hpaths : (forall t u, t <+: k :: q -> nodeAt members t ≠ Node.value u) <->
            forall t u, t <+: q -> nodeAt m t ≠ Node.value u := by
          constructor
          · intro h t u habove
            have hbelow := h (k :: t) u (List.cons_prefix_cons.mpr ⟨rfl, habove⟩)
            rw [nodeAt_object hk] at hbelow
            exact hbelow
          · intro h t u habove hvalue
            cases t with
            | nil => cases hvalue
            | cons l t =>
                rcases List.cons_prefix_cons.mp habove with ⟨hkey, hrest⟩
                rw [hkey, nodeAt_object hk] at hvalue
                exact h t u hrest hvalue
        rw [hpaths]
        cases q with
        | nil =>
            constructor
            · intro h
              cases h
            · intro h
              cases h.1
        | cons l q => exact ih (List.cons_ne_nil _ _)
      · rw [misses_value hk hw]
        constructor
        · intro h
          cases h
        · intro h
          have hvalue : nodeAt members [k] = Node.value w :=
            (nodeAt_value hw hk).trans (if_pos rfl)
          have habove : [k] <+: k :: q := List.cons_prefix_cons.mpr ⟨rfl, List.nil_prefix⟩
          exact absurd hvalue (h.2 [k] w habove)

/-- What a patch without empty sections says nothing about. -/
theorem misses_pruned (h : wellKeyed allowed (object members) = true) (hq : q ≠ []) :
    misses (pruneEmpty members) q = true <->
      forall t u, nodeAt members t = Node.value u -> Not (t <+: q) ∧ Not (q <+: t) := by
  rw [misses_iff hq]
  constructor
  · intro hmisses t u hvalue
    have hpruned := (value_pruned h).mpr hvalue
    constructor
    · intro habove
      exact hmisses.2 t u habove hpruned
    · intro habove
      apply node_above habove _ hmisses.1
      rw [hpruned]
      intro hnothing
      cases hnothing
  · intro hvalues
    constructor
    · cases hnode : nodeAt (pruneEmpty members) q with
      | nothing => rfl
      | value u => exact absurd List.prefix_rfl (hvalues q u ((value_pruned h).mp hnode)).1
      | section_ =>
          rcases value_beneath h hq hnode with ⟨t, u, habove, hvalue⟩
          exact absurd habove (hvalues t u ((value_pruned h).mp hvalue)).2
    · intro t u habove hvalue
      exact (hvalues t u ((value_pruned h).mp hvalue)).1 habove

theorem leaf_iff_node :
    forall {path : List String} {members : List Member},
      Leaf (object members) path v <-> nodeAt members path = Node.value v ∧ v.isSetting = true := by
  intro path
  induction path with
  | nil =>
      intro members
      constructor
      · intro h
        exact absurd h leaf_nil
      · intro h
        cases h.1
  | cons k path ih =>
      intro members
      rcases lookup_cases members k with hk | ⟨m, hk⟩ | ⟨w, hk, hw⟩
      · rw [nodeAt_missing hk]
        constructor
        · intro h
          exact absurd h (not_leaf_missing hk)
        · intro h
          cases h.1
      · rw [nodeAt_object hk, leaf_section hk]
        exact ih
      · rw [nodeAt_value hw hk]
        cases hsetting : w.isSetting with
        | true =>
            rw [leaf_setting hsetting hk]
            constructor
            · intro h
              rw [if_pos h.1, h.2]
              exact ⟨rfl, hsetting⟩
            · intro h
              have hvalue := h.1
              split at hvalue
              · rename_i hnil
                cases hvalue
                exact ⟨hnil, rfl⟩
              · cases hvalue
        | false =>
            have hnull : w = null := by
              cases w with
              | null => rfl
              | object m => cases hw
              | bool b => cases hsetting
              | number t => cases hsetting
              | string s => cases hsetting
              | array items => cases hsetting
            rw [hnull] at hk hsetting ⊢
            constructor
            · intro h
              exact absurd h (not_leaf_null hk)
            · intro h
              rcases h with ⟨hvalue, hv⟩
              split at hvalue
              · cases hvalue
                cases hv
              · cases hvalue

mutual

theorem distinct_pruneAt : forall v : Json, distinct v = true -> distinct (pruneAt v) = true
  | Json.object m, h => by
      have hparts := distinct_object h
      rw [pruneAt_object]
      show (decide (((pruneEmpty m).map Prod.fst).Nodup) && distinctMembers (pruneEmpty m)) = true
      rw [Bool.and_eq_true, decide_eq_true_iff]
      have hrest := distinct_pruneEmpty m hparts.2
      exact ⟨hparts.1.sublist hrest.1, hrest.2⟩
  | Json.null, h => by rw [pruneAt_value rfl]; exact h
  | Json.bool _, h => by rw [pruneAt_value rfl]; exact h
  | Json.number _, h => by rw [pruneAt_value rfl]; exact h
  | Json.string _, h => by rw [pruneAt_value rfl]; exact h
  | Json.array _, h => by rw [pruneAt_value rfl]; exact h

theorem distinct_pruneEmpty :
    forall members : List Member, distinctMembers members = true ->
      ((pruneEmpty members).map Prod.fst).Sublist (members.map Prod.fst) ∧
        distinctMembers (pruneEmpty members) = true
  | [], _ => by
      rw [pruneEmpty]
      exact ⟨List.Sublist.refl _, rfl⟩
  | (k, v) :: rest, h => by
      have hparts : distinct v = true ∧ distinctMembers rest = true := by
        rw [← Bool.and_eq_true]
        exact h
      have hrest := distinct_pruneEmpty rest hparts.2
      rw [pruneEmpty_cons]
      split
      · exact ⟨hrest.1.cons _, hrest.2⟩
      · constructor
        · exact hrest.1.cons_cons _
        · show (distinct (pruneAt v) && distinctMembers (pruneEmpty rest)) = true
          rw [Bool.and_eq_true]
          exact ⟨distinct_pruneAt v hparts.1, hrest.2⟩

end

end Web
end FleetServer
