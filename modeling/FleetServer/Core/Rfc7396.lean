import FleetServer.Core.Patch

/-!
# The merge patch of RFC 7396

The RFC's `MergePatch`, which takes the same steps whether or not a name exists in
the target, and the code's merge, which treats a new name on its own.
-/

namespace FleetServer
namespace Core
namespace Json

def startingFrom : Option Json -> List Member
  | some (object members) => members
  | _ => []

mutual

/-- `MergePatch` of RFC 7396; a name the target does not have is no value. -/
def rfcMergePatch (target : Option Json) : Json -> Json
  | object patch => object (rfcMembers (startingFrom target) patch)
  | other => other

def rfcMembers (target : List Member) : List Member -> List Member
  | [] => target
  | (k, v) :: rest =>
      rfcMembers
        (if v.isNull then removeKey k target
        else insertKey k (rfcMergePatch (target.lookup k) v) target) rest

end

mutual

/-- Every object lists its keys in order, each once. -/
def keyed : Json -> Bool
  | object members =>
      decide ((members.map Prod.fst).Pairwise (· < ·)) && keyedMembers members
  | array items => keyedItems items
  | _ => true

def keyedItems : List Json -> Bool
  | [] => true
  | v :: rest => keyed v && keyedItems rest

def keyedMembers : List Member -> Bool
  | [] => true
  | (_, v) :: rest => keyed v && keyedMembers rest

end

/-- A JSON value as `serde_json` keeps it. -/
structure Value where
  json : Json
  keyed : keyed json = true

variable {members o a b : List Member} {k l : String} {v w : Json}

theorem keyed_object :
    keyed (object members) = true <->
      (members.map Prod.fst).Pairwise (· < ·) ∧ forall m, m ∈ members -> keyed m.2 = true := by
  have hmembers : forall members : List Member,
      keyedMembers members = true <-> forall m, m ∈ members -> keyed m.2 = true := by
    intro members
    induction members with
    | nil =>
        constructor
        · intro _ m hm
          cases hm
        · intro _
          rfl
    | cons first rest ih =>
        show (keyed first.2 && keyedMembers rest) = true <-> _
        rw [Bool.and_eq_true, ih, List.forall_mem_cons]
  show (decide ((members.map Prod.fst).Pairwise (· < ·)) && keyedMembers members) = true <-> _
  rw [Bool.and_eq_true, decide_eq_true_iff, hmembers]

theorem nodup_of_pairwise (h : (members.map Prod.fst).Pairwise (· < ·)) :
    (members.map Prod.fst).Nodup := by
  apply h.imp
  intro x y hxy heq
  rw [heq] at hxy
  exact String.lt_irrefl y hxy

/-!
# The two merges agree
-/

theorem membersOf_eq (target : Json) : membersOf target = startingFrom (some target) := by
  cases target with
  | object members => rfl
  | null => rfl
  | bool b => rfl
  | number t => rfl
  | string s => rfl
  | array items => rfl

theorem removeKey_missing (h : o.lookup k = none) : removeKey k o = o := by
  unfold removeKey
  apply List.filter_eq_self.mpr
  intro m hm
  rw [List.lookup_eq_none_iff] at h
  have hne := h m hm
  rw [bne_iff_ne] at hne ⊢
  exact hne.symm

mutual

theorem stripNulls_eq : forall v : Json, keyed v = true -> stripNulls v = rfcMergePatch none v
  | object members, h => by
      have hparts := keyed_object.mp h
      rw [stripNulls, rfcMergePatch,
        stripMembers_eq members [] hparts.1 hparts.2 fun _ _ => rfl]
      rfl
  | null, _ => by rw [stripNulls, rfcMergePatch] <;> intro m hm <;> cases hm
  | Json.bool _, _ => by rw [stripNulls, rfcMergePatch] <;> intro m hm <;> cases hm
  | number _, _ => by rw [stripNulls, rfcMergePatch] <;> intro m hm <;> cases hm
  | string _, _ => by rw [stripNulls, rfcMergePatch] <;> intro m hm <;> cases hm
  | array _, _ => by rw [stripNulls, rfcMergePatch] <;> intro m hm <;> cases hm

theorem stripMembers_eq :
    forall (members cleaned : List Member), (members.map Prod.fst).Pairwise (· < ·) ->
      (forall m, m ∈ members -> keyed m.2 = true) ->
        (forall k, k ∈ members.map Prod.fst -> cleaned.lookup k = none) ->
          stripMembers cleaned members = rfcMembers cleaned members
  | [], _, _, _, _ => by rw [stripMembers, rfcMembers]
  | (k, v) :: rest, cleaned, hpairwise, hkeyed, hnew => by
      have hk := hnew k List.mem_cons_self
      have hparts := List.pairwise_cons.mp hpairwise
      have hv := stripNulls_eq v (hkeyed (k, v) List.mem_cons_self)
      have hrest := stripMembers_eq rest
      rw [stripMembers, rfcMembers, hk, hv, removeKey_missing hk]
      apply hrest _ hparts.2
      · intro m hm
        exact hkeyed m (List.mem_cons_of_mem _ hm)
      · intro j hj
        have hjk : j ≠ k := by
          intro heq
          have hlt := hparts.1 j hj
          rw [heq] at hlt
          exact String.lt_irrefl k hlt
        have hold := hnew j (List.mem_cons_of_mem _ hj)
        split
        · exact hold
        · rw [lookup_insertKey, if_neg hjk]
          exact hold

end

mutual

theorem mergePatch_eq :
    forall (v target : Json), keyed v = true -> mergePatch target v = rfcMergePatch (some target) v
  | object members, target, h => by
      have hparts := keyed_object.mp h
      rw [mergePatch, rfcMergePatch, membersOf_eq, mergeMembers_eq members _ hparts.2]
  | null, _, _ => by rw [mergePatch, rfcMergePatch] <;> intro m hm <;> cases hm
  | Json.bool _, _, _ => by rw [mergePatch, rfcMergePatch] <;> intro m hm <;> cases hm
  | number _, _, _ => by rw [mergePatch, rfcMergePatch] <;> intro m hm <;> cases hm
  | string _, _, _ => by rw [mergePatch, rfcMergePatch] <;> intro m hm <;> cases hm
  | array _, _, _ => by rw [mergePatch, rfcMergePatch] <;> intro m hm <;> cases hm

theorem mergeMembers_eq :
    forall (patch o : List Member), (forall m, m ∈ patch -> keyed m.2 = true) ->
      mergeMembers o patch = rfcMembers o patch
  | [], _, _ => by rw [mergeMembers, rfcMembers]
  | (k, v) :: rest, o, hkeyed => by
      have hv := hkeyed (k, v) List.mem_cons_self
      have hmerge := fun target => mergePatch_eq v target hv
      have hrest := mergeMembers_eq rest
      rw [mergeMembers, rfcMembers, hrest _ fun m hm => hkeyed m (List.mem_cons_of_mem _ hm)]
      cases hk : o.lookup k with
      | none => rw [← stripNulls_eq v hv]
      | some existing => rw [← hmerge existing]

end

/-!
# Keys stay in order
-/

theorem mem_insertKey {m : Member} (h : m ∈ insertKey k v o) : m = (k, v) ∨ m ∈ o := by
  unfold insertKey at h
  induction o with
  | nil => exact Or.inl (List.mem_singleton.mp h)
  | cons first rest ih =>
      rcases first with ⟨l, u⟩
      rw [insertBy] at h
      split at h
      · cases List.mem_cons.mp h with
        | inl heq => exact Or.inl heq
        | inr hmem => exact Or.inr (List.mem_cons_of_mem _ hmem)
      · split at h
        · exact List.mem_cons.mp h
        · cases List.mem_cons.mp h with
          | inl heq =>
              rw [heq]
              exact Or.inr List.mem_cons_self
          | inr hmem =>
              cases ih hmem with
              | inl hnew => exact Or.inl hnew
              | inr hold => exact Or.inr (List.mem_cons_of_mem _ hold)

theorem pairwise_insertKey (h : (o.map Prod.fst).Pairwise (· < ·)) :
    ((insertKey k v o).map Prod.fst).Pairwise (· < ·) := by
  induction o with
  | nil => exact List.pairwise_singleton _ _
  | cons first rest ih =>
      rcases first with ⟨l, u⟩
      have hparts := List.pairwise_cons.mp h
      unfold insertKey at ih ⊢
      rw [insertBy]
      split
      · rename_i hkl
        rw [hkl]
        exact h
      · rename_i hkl
        split
        · rename_i hlt
          have hlt : k < l := of_decide_eq_true hlt
          apply List.pairwise_cons.mpr
          constructor
          · intro j hj
            cases List.mem_cons.mp hj with
            | inl heq =>
                rw [heq]
                exact hlt
            | inr hmem => exact String.lt_trans hlt (hparts.1 j hmem)
          · exact h
        · rename_i hlt
          have hle : l ≤ k := String.not_lt.mp fun hkl => hlt (decide_eq_true hkl)
          have hlk : l < k := by
            apply String.not_le.mp
            intro hback
            exact hkl (String.le_antisymm hback hle)
          apply List.pairwise_cons.mpr
          constructor
          · intro j hj
            rcases List.mem_map.mp hj with ⟨m, hm, hkey⟩
            rw [← hkey]
            cases mem_insertKey hm with
            | inl hnew =>
                rw [hnew]
                exact hlk
            | inr hold => exact hparts.1 m.1 (List.mem_map.mpr ⟨m, hold, rfl⟩)
          · exact ih hparts.2

theorem keyed_insertKey (h : keyed (object o) = true) (hv : keyed v = true) :
    keyed (object (insertKey k v o)) = true := by
  have hparts := keyed_object.mp h
  apply keyed_object.mpr
  constructor
  · exact pairwise_insertKey hparts.1
  · intro m hm
    cases mem_insertKey hm with
    | inl hnew =>
        rw [hnew]
        exact hv
    | inr hold => exact hparts.2 m hold

theorem keyed_removeKey (h : keyed (object o) = true) : keyed (object (removeKey k o)) = true := by
  have hparts := keyed_object.mp h
  apply keyed_object.mpr
  constructor
  · exact hparts.1.sublist (List.filter_sublist.map Prod.fst)
  · intro m hm
    exact hparts.2 m (List.mem_of_mem_filter hm)

theorem keyed_startingFrom {target : Option Json}
    (h : forall t, target = some t -> keyed t = true) :
    keyed (object (startingFrom target)) = true := by
  unfold startingFrom
  split
  · rename_i members
    exact h _ rfl
  · rfl

mutual

theorem keyed_rfcMergePatch :
    forall (v : Json) (target : Option Json), keyed v = true ->
      (forall t, target = some t -> keyed t = true) -> keyed (rfcMergePatch target v) = true
  | object members, target, h, htarget => by
      rw [rfcMergePatch]
      exact keyed_rfcMembers members _ (keyed_object.mp h).2 (keyed_startingFrom htarget)
  | null, _, h, _ => by rw [rfcMergePatch]; exact h; intro m hm; cases hm
  | Json.bool _, _, h, _ => by rw [rfcMergePatch]; exact h; intro m hm; cases hm
  | number _, _, h, _ => by rw [rfcMergePatch]; exact h; intro m hm; cases hm
  | string _, _, h, _ => by rw [rfcMergePatch]; exact h; intro m hm; cases hm
  | array _, _, h, _ => by rw [rfcMergePatch]; exact h; intro m hm; cases hm

theorem keyed_rfcMembers :
    forall (patch o : List Member), (forall m, m ∈ patch -> keyed m.2 = true) ->
      keyed (object o) = true -> keyed (object (rfcMembers o patch)) = true
  | [], _, _, h => by
      rw [rfcMembers]
      exact h
  | (k, v) :: rest, o, hkeyed, h => by
      have hv := keyed_rfcMergePatch v (o.lookup k) (hkeyed (k, v) List.mem_cons_self) (by
        intro t ht
        exact (keyed_object.mp h).2 (k, t) (Table.mem_of_lookup ht))
      rw [rfcMembers]
      apply keyed_rfcMembers rest _ fun m hm => hkeyed m (List.mem_cons_of_mem _ hm)
      split
      · exact keyed_removeKey h
      · exact keyed_insertKey h hv

end

theorem eq_of_lookup :
    forall {a b : List Member}, (a.map Prod.fst).Pairwise (· < ·) ->
      (b.map Prod.fst).Pairwise (· < ·) -> (forall k, a.lookup k = b.lookup k) -> a = b := by
  have hmissing : forall {k : String} {b : List Member},
      (forall j, j ∈ b.map Prod.fst -> k < j) -> b.lookup k = none := by
    intro k b hb
    apply lookup_eq_none_of_not_mem
    intro hmem
    exact String.lt_irrefl k (hb k hmem)
  intro a
  induction a with
  | nil =>
      intro b _ _ h
      cases b with
      | nil => rfl
      | cons second b =>
          have hlookup := h second.1
          rw [List.lookup_cons, beq_self_eq_true] at hlookup
          cases hlookup
  | cons first a ih =>
      rcases first with ⟨k, v⟩
      intro b ha hb h
      have haparts := List.pairwise_cons.mp ha
      cases b with
      | nil =>
          have hlookup := h k
          rw [List.lookup_cons, beq_self_eq_true] at hlookup
          cases hlookup
      | cons second b =>
          rcases second with ⟨l, w⟩
          have hbparts := List.pairwise_cons.mp hb
          have hkl : k = l := by
            apply String.le_antisymm
            · apply String.not_lt.mp
              intro hlt
              have hlookup := h l
              have hnone : ((k, v) :: a).lookup l = none := by
                apply hmissing
                intro j hj
                cases List.mem_cons.mp hj with
                | inl heq =>
                    rw [heq]
                    exact hlt
                | inr hmem => exact String.lt_trans hlt (haparts.1 j hmem)
              rw [hnone, List.lookup_cons, beq_self_eq_true] at hlookup
              cases hlookup
            · apply String.not_lt.mp
              intro hlt
              have hlookup := h k
              have hnone : ((l, w) :: b).lookup k = none := by
                apply hmissing
                intro j hj
                cases List.mem_cons.mp hj with
                | inl heq =>
                    rw [heq]
                    exact hlt
                | inr hmem => exact String.lt_trans hlt (hbparts.1 j hmem)
              rw [hnone, List.lookup_cons, beq_self_eq_true] at hlookup
              cases hlookup
          subst hkl
          have hvw := h k
          rw [List.lookup_cons, List.lookup_cons, beq_self_eq_true] at hvw
          have htails : a = b := by
            apply ih haparts.2 hbparts.2
            intro j
            by_cases hjk : j = k
            · rw [hjk, hmissing haparts.1, hmissing hbparts.1]
            · have hlookup := h j
              rw [List.lookup_cons, List.lookup_cons, beq_eq_false_iff_ne.mpr hjk] at hlookup
              exact hlookup
          rw [htails, Option.some.inj hvw]

/-!
# Merging twice
-/

def rfcLookup (existing : Option Json) : Option Json -> Option Json
  | none => existing
  | some null => none
  | some v => some (rfcMergePatch existing v)

theorem rfcLookup_value {existing : Option Json} (hv : v.isNull = false) :
    rfcLookup existing (some v) = some (rfcMergePatch existing v) := by
  cases v with
  | null => cases hv
  | object members => rfl
  | bool b => rfl
  | number t => rfl
  | string s => rfl
  | array items => rfl

theorem lookup_rfcMembers :
    forall {patch : List Member} {o : List Member}, (patch.map Prod.fst).Nodup ->
      (rfcMembers o patch).lookup k = rfcLookup (o.lookup k) (patch.lookup k)
  | [], o, _ => by
      rw [rfcMembers]
      rfl
  | (l, w) :: rest, o, hnodup => by
      have hparts := List.nodup_cons.mp hnodup
      rw [rfcMembers, lookup_rfcMembers hparts.2, List.lookup_cons]
      by_cases hkl : k = l
      · subst hkl
        rw [lookup_eq_none_of_not_mem hparts.1, beq_self_eq_true]
        show List.lookup k _ = rfcLookup (o.lookup k) (some w)
        cases hnull : w.isNull with
        | true =>
            cases w with
            | null => exact (lookup_removeKey k k o).trans (if_pos rfl)
            | object members => cases hnull
            | bool b => cases hnull
            | number t => cases hnull
            | string s => cases hnull
            | array items => cases hnull
        | false =>
            rw [rfcLookup_value hnull]
            exact (lookup_insertKey k k _ o).trans (if_pos rfl)
      · rw [beq_eq_false_iff_ne.mpr hkl]
        apply congrArg fun existing => rfcLookup existing (rest.lookup k)
        split
        · rw [lookup_removeKey, if_neg hkl]
        · rw [lookup_insertKey, if_neg hkl]

mutual

theorem rfcMergePatch_twice :
    forall (v : Json) (target : Option Json), keyed v = true ->
      (forall t, target = some t -> keyed t = true) ->
        rfcMergePatch (some (rfcMergePatch target v)) v = rfcMergePatch target v
  | object members, target, h, htarget => by
      have hparts := keyed_object.mp h
      have hstart := keyed_startingFrom htarget
      have hvalues := rfcMembers_twice members hparts.2
      have honce := keyed_rfcMembers members _ hparts.2 hstart
      have htwice := keyed_rfcMembers members _ hparts.2 honce
      have hnodup := nodup_of_pairwise hparts.1
      rw [rfcMergePatch, rfcMergePatch]
      show object (rfcMembers (rfcMembers (startingFrom target) members) members) = _
      apply congrArg object
      apply eq_of_lookup (keyed_object.mp htwice).1 (keyed_object.mp honce).1
      intro k
      rw [lookup_rfcMembers hnodup, lookup_rfcMembers hnodup]
      cases hk : members.lookup k with
      | none => rfl
      | some w =>
          cases hnull : w.isNull with
          | true =>
              cases w with
              | null => rfl
              | object members => cases hnull
              | bool b => cases hnull
              | number t => cases hnull
              | string s => cases hnull
              | array items => cases hnull
          | false =>
              rw [rfcLookup_value hnull, rfcLookup_value hnull]
              apply congrArg some
              apply hvalues (k, w) (Table.mem_of_lookup hk)
              intro t ht
              exact (keyed_object.mp hstart).2 (k, t) (Table.mem_of_lookup ht)
  | null, _, _, _ => by rw [rfcMergePatch, rfcMergePatch] <;> intro m hm <;> cases hm
  | Json.bool _, _, _, _ => by rw [rfcMergePatch, rfcMergePatch] <;> intro m hm <;> cases hm
  | number _, _, _, _ => by rw [rfcMergePatch, rfcMergePatch] <;> intro m hm <;> cases hm
  | string _, _, _, _ => by rw [rfcMergePatch, rfcMergePatch] <;> intro m hm <;> cases hm
  | array _, _, _, _ => by rw [rfcMergePatch, rfcMergePatch] <;> intro m hm <;> cases hm

theorem rfcMembers_twice :
    forall members : List Member, (forall m, m ∈ members -> keyed m.2 = true) ->
      forall m, m ∈ members -> forall target : Option Json,
        (forall t, target = some t -> keyed t = true) ->
          rfcMergePatch (some (rfcMergePatch target m.2)) m.2 = rfcMergePatch target m.2
  | [], _, _, hm, _, _ => by cases hm
  | (k, v) :: rest, hkeyed, m, hm, target, htarget => by
      have hv := rfcMergePatch_twice v target (hkeyed (k, v) List.mem_cons_self) htarget
      have hrest := rfcMembers_twice rest
      cases List.mem_cons.mp hm with
      | inl heq =>
          rw [heq]
          exact hv
      | inr hmem =>
          exact hrest (fun m hm => hkeyed m (List.mem_cons_of_mem _ hm)) m hmem target htarget

end

/-- The code's merge is the RFC's, and a second merge of the same patch does nothing. -/
theorem merge_patch_is_rfc (target patch : Value) :
    mergePatch target.json patch.json = rfcMergePatch (some target.json) patch.json ∧
      mergePatch (mergePatch target.json patch.json) patch.json =
        mergePatch target.json patch.json := by
  constructor
  · exact mergePatch_eq patch.json target.json patch.keyed
  · rw [mergePatch_eq patch.json _ patch.keyed, mergePatch_eq patch.json _ patch.keyed]
    apply rfcMergePatch_twice patch.json _ patch.keyed
    intro t ht
    cases ht
    exact target.keyed

end Json
end Core
end FleetServer
