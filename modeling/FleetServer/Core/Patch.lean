import FleetServer.Core.Merge

/-!
# A merge seen from one setting

A setting of a patched document is one of the patch, or one of the document that
the patch says nothing about.
-/

namespace FleetServer
namespace Core
namespace Json

/-- The patch has nothing at the path, and no value above it. -/
def misses (patch : List Member) : List String -> Bool
  | [] => false
  | k :: rest =>
      match patch.lookup k with
      | none => true
      | some (object m) => misses m rest
      | some _ => false

def mergedValue (existing : Option Json) (v : Json) : Json :=
  match existing with
  | some e => mergePatch e v
  | none => stripNulls v

def mergedLookup (existing : Option Json) : Option Json -> Option Json
  | none => existing
  | some null => none
  | some v => some (mergedValue existing v)

def strippedLookup (existing : Option Json) : Option Json -> Option Json
  | none => existing
  | some null => existing
  | some v => some (stripNulls v)

variable {o : List Member} {k : String} {path r : List String} {v u : Json}

theorem lookup_eq_none_of_not_mem {members : List Member}
    (h : k ∉ members.map Prod.fst) : members.lookup k = none := by
  induction members with
  | nil => rfl
  | cons m rest ih =>
      rcases m with ⟨l, w⟩
      have hkl : k ≠ l := by
        rintro rfl
        exact h List.mem_cons_self
      rw [List.lookup_cons, beq_eq_false_iff_ne.mpr hkl]
      exact ih fun hmem => h (List.mem_cons_of_mem _ hmem)

theorem lookup_mergeMembers :
    forall {patch : List Member} {o : List Member}, (patch.map Prod.fst).Nodup ->
      (mergeMembers o patch).lookup k = mergedLookup (o.lookup k) (patch.lookup k)
  | [], o, _ => rfl
  | (l, w) :: rest, o, hnodup => by
      have hparts := List.nodup_cons.mp hnodup
      rw [mergeMembers, lookup_mergeMembers hparts.2, List.lookup_cons]
      by_cases hkl : k = l
      · subst hkl
        have hrest : rest.lookup k = none := lookup_eq_none_of_not_mem hparts.1
        rw [hrest, beq_self_eq_true]
        show List.lookup k _ = mergedLookup (o.lookup k) (some w)
        cases w with
        | null =>
            show (removeKey k o).lookup k = none
            rw [lookup_removeKey, if_pos rfl]
        | bool b => cases hk : o.lookup k <;> exact (lookup_insertKey _ _ _ _).trans (if_pos rfl)
        | number t => cases hk : o.lookup k <;> exact (lookup_insertKey _ _ _ _).trans (if_pos rfl)
        | string s => cases hk : o.lookup k <;> exact (lookup_insertKey _ _ _ _).trans (if_pos rfl)
        | array items =>
            cases hk : o.lookup k <;> exact (lookup_insertKey _ _ _ _).trans (if_pos rfl)
        | object m => cases hk : o.lookup k <;> exact (lookup_insertKey _ _ _ _).trans (if_pos rfl)
      · rw [beq_eq_false_iff_ne.mpr hkl]
        apply congrArg fun existing => mergedLookup existing (rest.lookup k)
        split
        · rw [lookup_removeKey, if_neg hkl]
        · split
          · rw [lookup_insertKey, if_neg hkl]
          · rw [lookup_insertKey, if_neg hkl]

theorem lookup_stripMembers :
    forall {patch : List Member} {o : List Member}, (patch.map Prod.fst).Nodup ->
      (stripMembers o patch).lookup k = strippedLookup (o.lookup k) (patch.lookup k)
  | [], o, _ => rfl
  | (l, w) :: rest, o, hnodup => by
      have hparts := List.nodup_cons.mp hnodup
      rw [stripMembers, lookup_stripMembers hparts.2, List.lookup_cons]
      by_cases hkl : k = l
      · subst hkl
        have hrest : rest.lookup k = none := lookup_eq_none_of_not_mem hparts.1
        rw [hrest, beq_self_eq_true]
        show List.lookup k _ = strippedLookup (o.lookup k) (some w)
        cases w with
        | null => rfl
        | bool b => exact (lookup_insertKey _ _ _ _).trans (if_pos rfl)
        | number t => exact (lookup_insertKey _ _ _ _).trans (if_pos rfl)
        | string s => exact (lookup_insertKey _ _ _ _).trans (if_pos rfl)
        | array items => exact (lookup_insertKey _ _ _ _).trans (if_pos rfl)
        | object m => exact (lookup_insertKey _ _ _ _).trans (if_pos rfl)
      · rw [beq_eq_false_iff_ne.mpr hkl]
        apply congrArg fun existing => strippedLookup existing (rest.lookup k)
        split
        · rfl
        · rw [lookup_insertKey, if_neg hkl]

theorem distinct_object {members : List Member} (h : distinct (object members) = true) :
    (members.map Prod.fst).Nodup ∧ distinctMembers members = true := by
  unfold distinct at h
  have hparts := Bool.and_eq_true_iff.mp h
  exact ⟨of_decide_eq_true hparts.1, hparts.2⟩

theorem distinct_lookup :
    forall {members : List Member}, distinctMembers members = true ->
      members.lookup k = some v -> distinct v = true
  | [], _, h => by cases h
  | (l, w) :: rest, hdistinct, h => by
      unfold distinctMembers at hdistinct
      have hparts := Bool.and_eq_true_iff.mp hdistinct
      rw [List.lookup_cons] at h
      split at h
      · cases h
        exact hparts.1
      · exact distinct_lookup hparts.2 h

theorem not_leaf_null (hk : o.lookup k = some null) : Not (Leaf (object o) (k :: r) v) := by
  rintro ⟨_, hvalue, hsetting⟩
  rw [valueAt_object, hk] at hvalue
  cases r with
  | nil =>
      cases hvalue
      cases hsetting
  | cons l rest => cases hvalue

theorem leaf_cleaned :
    forall (path : List String) {members : List Member} {v : Json},
      distinct (object members) = true ->
        (Leaf (object (stripMembers [] members)) path v <-> Leaf (object members) path v)
  | [], _, _, _ => ⟨fun h => absurd h leaf_nil, fun h => absurd h leaf_nil⟩
  | k :: r, members, v, hdistinct => by
      have hparts := distinct_object hdistinct
      have hlookup := lookup_stripMembers hparts.1 (k := k) (o := [])
      cases hk : members.lookup k with
      | none =>
          rw [hk] at hlookup
          exact ⟨fun h => absurd h (not_leaf_missing hlookup),
            fun h => absurd h (not_leaf_missing hk)⟩
      | some w =>
          rw [hk] at hlookup
          cases w with
          | null =>
              exact ⟨fun h => absurd h (not_leaf_missing hlookup),
                fun h => absurd h (not_leaf_null hk)⟩
          | bool b => exact (leaf_setting rfl hlookup).trans (leaf_setting rfl hk).symm
          | number t => exact (leaf_setting rfl hlookup).trans (leaf_setting rfl hk).symm
          | string s => exact (leaf_setting rfl hlookup).trans (leaf_setting rfl hk).symm
          | array items => exact (leaf_setting rfl hlookup).trans (leaf_setting rfl hk).symm
          | object m =>
              rw [leaf_section hlookup, leaf_section hk]
              exact leaf_cleaned r (distinct_lookup hparts.2 hk)

/-!
# One name of the patch

What the patch has under the first name of a path decides where the settings below it
come from.
-/

variable {patch m : List Member}

theorem misses_missing (hk : patch.lookup k = none) : misses patch (k :: r) = true := by
  unfold misses
  rw [hk]

theorem misses_value (hk : patch.lookup k = some u) (hu : u.isObject = false) :
    misses patch (k :: r) = false := by
  unfold misses
  rw [hk]
  cases u with
  | object m => cases hu
  | null => rfl
  | bool b => rfl
  | number t => rfl
  | string s => rfl
  | array items => rfl

theorem misses_section (hk : patch.lookup k = some (object m)) :
    misses patch (k :: r) = misses m r := by
  rw [misses, hk]

theorem leaf_merged_missing (hpatch : (patch.map Prod.fst).Nodup) (hk : patch.lookup k = none) :
    Leaf (object (mergeMembers o patch)) (k :: r) v <-> Leaf (object o) (k :: r) v := by
  apply leaf_congr
  rw [lookup_mergeMembers hpatch, hk]
  rfl

theorem leaf_merged_null (hpatch : (patch.map Prod.fst).Nodup)
    (hk : patch.lookup k = some null) :
    Not (Leaf (object (mergeMembers o patch)) (k :: r) v) := by
  apply not_leaf_missing
  rw [lookup_mergeMembers hpatch, hk]
  rfl

theorem leaf_merged_setting (hpatch : (patch.map Prod.fst).Nodup) (hk : patch.lookup k = some u)
    (hu : u.isSetting = true) :
    Leaf (object (mergeMembers o patch)) (k :: r) v <-> Leaf (object patch) (k :: r) v := by
  have hstays : (mergeMembers o patch).lookup k = some u := by
    rw [lookup_mergeMembers hpatch, hk]
    cases u with
    | null => cases hu
    | object m => cases hu
    | bool b => cases o.lookup k <;> rfl
    | number t => cases o.lookup k <;> rfl
    | string s => cases o.lookup k <;> rfl
    | array items => cases o.lookup k <;> rfl
  rw [leaf_setting hu hstays, leaf_setting hu hk]

theorem leaf_merged_section (hpatch : (patch.map Prod.fst).Nodup)
    (hk : patch.lookup k = some (object m)) (hm : distinct (object m) = true)
    (hbelow : forall o : List Member, Leaf (object (mergeMembers o m)) r v <->
      Leaf (object m) r v ∨ (misses m r = true ∧ Leaf (object o) r v)) :
    Leaf (object (mergeMembers o patch)) (k :: r) v <->
      Leaf (object m) r v ∨ (misses m r = true ∧ Leaf (object o) (k :: r) v) := by
  have hlookup := lookup_mergeMembers hpatch (k := k) (o := o)
  rw [hk] at hlookup
  cases ho : o.lookup k with
  | none =>
      rw [ho] at hlookup
      have hnew : (mergeMembers o patch).lookup k = some (object (stripMembers [] m)) := hlookup
      rw [leaf_section hnew, leaf_cleaned r hm]
      constructor
      · intro h
        exact Or.inl h
      · rintro (h | h)
        · exact h
        · exact absurd h.2 (not_leaf_missing ho)
  | some e =>
      rw [ho] at hlookup
      have hnew : (mergeMembers o patch).lookup k
          = some (object (mergeMembers (membersOf e) m)) := hlookup
      rw [leaf_section hnew, hbelow]
      cases r with
      | nil =>
          constructor
          · rintro (h | h)
            · exact Or.inl h
            · exact absurd h.2 leaf_nil
          · rintro (h | h)
            · exact Or.inl h
            · cases h.1
      | cons l rest =>
          have hmembers := leaf_membersOf (o := o) (k := k) (v := v) (List.cons_ne_nil l rest)
          rw [ho] at hmembers
          rw [← hmembers]
          rfl

theorem leaf_merged :
    forall (path : List String) {patch o : List Member} {v : Json},
      distinct (object patch) = true ->
        (Leaf (object (mergeMembers o patch)) path v <->
          Leaf (object patch) path v ∨ (misses patch path = true ∧ Leaf (object o) path v))
  | [], _, _, _, _ => by
      constructor
      · intro h
        exact absurd h leaf_nil
      · rintro (h | h)
        · exact absurd h leaf_nil
        · exact absurd h.2 leaf_nil
  | k :: r, patch, o, v, hdistinct => by
      have hparts := distinct_object hdistinct
      have hsetting : forall {u : Json}, patch.lookup k = some u -> u.isSetting = true ->
          u.isObject = false -> (Leaf (object (mergeMembers o patch)) (k :: r) v <->
            Leaf (object patch) (k :: r) v ∨
              (misses patch (k :: r) = true ∧ Leaf (object o) (k :: r) v)) := by
        intro u hk hu hobject
        rw [leaf_merged_setting hparts.1 hk hu, misses_value hk hobject]
        simp only [Bool.false_eq_true, false_and, or_false]
      cases hk : patch.lookup k with
      | none =>
          rw [leaf_merged_missing hparts.1 hk, misses_missing hk,
            iff_false_intro (not_leaf_missing hk), false_or, eq_self, true_and]
      | some w =>
          cases w with
          | bool b => exact hsetting hk rfl rfl
          | number t => exact hsetting hk rfl rfl
          | string s => exact hsetting hk rfl rfl
          | array items => exact hsetting hk rfl rfl
          | null =>
              rw [iff_false_intro (leaf_merged_null hparts.1 hk), misses_value hk rfl,
                iff_false_intro (not_leaf_null hk), false_or, Bool.false_eq_true, false_and]
          | object m =>
              have hm := distinct_lookup hparts.2 hk
              rw [misses_section hk, leaf_section hk]
              exact leaf_merged_section hparts.1 hk hm fun o => leaf_merged r hm

/-!
# The settings of one document
-/

theorem leaf_unique {doc : Json} (h : Leaf doc path v) (h' : Leaf doc path u) : v = u := by
  have hsame := h.2.1
  rw [h'.2.1] at hsame
  exact (Option.some.inj hsame).symm

/-- No setting is beneath another. -/
theorem leaf_above :
    forall {p q : List String} {members : List Member} {v u : Json}, p <+: q ->
      Leaf (object members) p v -> Leaf (object members) q u -> p = q
  | [], _, _, _, _, _, h, _ => absurd h leaf_nil
  | k :: p, [], _, _, _, habove, _, _ => by
      have hlength := habove.length_le
      simp only [List.length_cons, List.length_nil] at hlength
      omega
  | k :: p, l :: q, members, v, u, habove, hp, hq => by
      rcases List.cons_prefix_cons.mp habove with ⟨rfl, hrest⟩
      cases hk : members.lookup k with
      | none => exact absurd hp (not_leaf_missing hk)
      | some w =>
          cases w with
          | null => exact absurd hp (not_leaf_null hk)
          | object m =>
              rw [leaf_section hk] at hp hq
              rw [leaf_above hrest hp hq]
          | bool b => rw [((leaf_setting rfl hk).mp hp).1, ((leaf_setting rfl hk).mp hq).1]
          | number t => rw [((leaf_setting rfl hk).mp hp).1, ((leaf_setting rfl hk).mp hq).1]
          | string s => rw [((leaf_setting rfl hk).mp hp).1, ((leaf_setting rfl hk).mp hq).1]
          | array items => rw [((leaf_setting rfl hk).mp hp).1, ((leaf_setting rfl hk).mp hq).1]

end Json
end Core
end FleetServer
