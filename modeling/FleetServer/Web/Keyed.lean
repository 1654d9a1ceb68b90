import FleetServer.Core.Patch
import FleetServer.Web.HostConfig
import FleetServer.Web.Puts

/-!
# Documents by their keys

Which keys a document has, kept through every change one function makes to it, and
what is left of a document once its empty sections are dropped.
-/

namespace FleetServer
namespace Web

open FleetServer.Core
open Core.Json

mutual

def wellKeyed (allowed : String -> Bool) : Json -> Bool
  | object members =>
      decide ((members.map Prod.fst).Nodup) && wellKeyedMembers allowed members
  | v => distinct v

def wellKeyedMembers (allowed : String -> Bool) : List Member -> Bool
  | [] => true
  | (k, v) :: rest => allowed k && wellKeyed allowed v && wellKeyedMembers allowed rest

end

variable {allowed : String -> Bool} {members m : List Member} {k : String}
variable {p q s t path rest : List String} {v u : Json}

theorem wellKeyedMembers_iff :
    wellKeyedMembers allowed members = true <->
      forall e, e ∈ members -> allowed e.1 = true ∧ wellKeyed allowed e.2 = true := by
  induction members with
  | nil =>
      constructor
      · intro _ e he
        cases he
      · intro _
        rfl
  | cons first rest ih =>
      show (allowed first.1 && wellKeyed allowed first.2 && wellKeyedMembers allowed rest) = true
        <-> _
      rw [Bool.and_eq_true, Bool.and_eq_true, ih, List.forall_mem_cons]

theorem wellKeyed_object :
    wellKeyed allowed (object members) = true <->
      (members.map Prod.fst).Nodup ∧
        forall e, e ∈ members -> allowed e.1 = true ∧ wellKeyed allowed e.2 = true := by
  show (decide ((members.map Prod.fst).Nodup) && wellKeyedMembers allowed members) = true <-> _
  rw [Bool.and_eq_true, decide_eq_true_iff, wellKeyedMembers_iff]

mutual

theorem distinct_of_wellKeyed : forall v : Json, wellKeyed allowed v = true -> distinct v = true
  | object members, h => by
      have hparts := wellKeyed_object.mp h
      show (decide ((members.map Prod.fst).Nodup) && distinctMembers members) = true
      rw [Bool.and_eq_true, decide_eq_true_iff]
      exact ⟨hparts.1, distinctMembers_of_wellKeyed members (wellKeyedMembers_iff.mpr hparts.2)⟩
  | Json.null, h => h
  | Json.bool _, h => h
  | Json.number _, h => h
  | Json.string _, h => h
  | Json.array _, h => h

theorem distinctMembers_of_wellKeyed :
    forall members : List Member, wellKeyedMembers allowed members = true ->
      distinctMembers members = true
  | [], _ => rfl
  | (k, v) :: rest, h => by
      have hparts := wellKeyedMembers_iff.mp h
      show (distinct v && distinctMembers rest) = true
      rw [Bool.and_eq_true]
      constructor
      · exact distinct_of_wellKeyed v (hparts (k, v) List.mem_cons_self).2
      · apply distinctMembers_of_wellKeyed rest
        exact wellKeyedMembers_iff.mpr fun e he => hparts e (List.mem_cons_of_mem _ he)

end

theorem wellKeyed_lookup (h : wellKeyed allowed (object members) = true)
    (hk : members.lookup k = some v) : allowed k = true ∧ wellKeyed allowed v = true :=
  (wellKeyed_object.mp h).2 (k, v) (Table.mem_of_lookup hk)

theorem allowed_of_leaf :
    forall {path : List String} {members : List Member},
      wellKeyed allowed (object members) = true -> Leaf (object members) path v ->
        forall k, k ∈ path -> allowed k = true := by
  intro path
  induction path with
  | nil =>
      intro _ _ _ k hk
      cases hk
  | cons l path ih =>
      intro members h hleaf k hk
      rcases lookup_cases members l with hl | ⟨m, hl⟩ | ⟨u, hl, hu⟩
      · exact absurd hleaf (not_leaf_missing hl)
      · have hparts := wellKeyed_lookup h hl
        cases List.mem_cons.mp hk with
        | inl heq =>
            rw [heq]
            exact hparts.1
        | inr hmem => exact ih hparts.2 ((leaf_section hl).mp hleaf) k hmem
      · have hpath : path = [] := by
          cases path with
          | nil => rfl
          | cons j path =>
              rcases hleaf with ⟨_, hvalue, _⟩
              rw [valueAt_object, hl] at hvalue
              cases u with
              | object m => cases hu
              | null => cases hvalue
              | bool b => cases hvalue
              | number t => cases hvalue
              | string s => cases hvalue
              | array items => cases hvalue
        rw [hpath] at hk
        rw [List.mem_singleton.mp hk]
        exact (wellKeyed_lookup h hl).1

/-!
# Changing a document
-/

theorem map_fst_replaceOwn (k : String) (v : Json) (members : List Member) :
    (replaceOwn k v members).map Prod.fst = members.map Prod.fst := by
  induction members with
  | nil => rfl
  | cons m rest ih =>
      rcases m with ⟨l, u⟩
      by_cases hkl : k = l
      · have hcons : replaceOwn k v ((l, u) :: rest) = (k, v) :: rest := if_pos hkl
        rw [hcons, hkl]
        rfl
      · have hcons : replaceOwn k v ((l, u) :: rest) = (l, u) :: replaceOwn k v rest :=
          if_neg hkl
        rw [hcons, List.map_cons, List.map_cons, ih]

theorem mem_replaceOwn {e : Member} :
    forall {members : List Member}, e ∈ replaceOwn k v members ->
      e ∈ members ∨ (e = (k, v) ∧ k ∈ members.map Prod.fst)
  | [], h => Or.inl h
  | (l, u) :: rest, h => by
      by_cases hkl : k = l
      · have hcons : replaceOwn k v ((l, u) :: rest) = (k, v) :: rest := if_pos hkl
        rw [hcons] at h
        cases List.mem_cons.mp h with
        | inl heq =>
            apply Or.inr
            rw [hkl] at heq ⊢
            exact ⟨heq, List.mem_cons_self⟩
        | inr hmem => exact Or.inl (List.mem_cons_of_mem _ hmem)
      · have hcons : replaceOwn k v ((l, u) :: rest) = (l, u) :: replaceOwn k v rest :=
          if_neg hkl
        rw [hcons] at h
        cases List.mem_cons.mp h with
        | inl heq =>
            rw [heq]
            exact Or.inl List.mem_cons_self
        | inr hmem =>
            cases mem_replaceOwn hmem with
            | inl hold => exact Or.inl (List.mem_cons_of_mem _ hold)
            | inr hnew => exact Or.inr ⟨hnew.1, List.mem_cons_of_mem _ hnew.2⟩

theorem insertBy_perm (before : String -> String -> Bool) (k : String) (v : Json) :
    forall {members : List Member}, members.lookup k = none ->
      (insertBy before k v members).Perm ((k, v) :: members)
  | [], _ => List.Perm.refl _
  | (l, u) :: rest, h => by
      rw [List.lookup_cons] at h
      have hkl : k ≠ l := by
        intro heq
        rw [heq, beq_self_eq_true] at h
        cases h
      rw [beq_eq_false_iff_ne.mpr hkl] at h
      rw [insertBy, if_neg hkl]
      split
      · exact List.Perm.refl _
      · exact ((insertBy_perm before k v h).cons (l, u)).trans (List.Perm.swap _ _ _)

theorem not_mem_of_lookup (h : members.lookup k = none) : k ∉ members.map Prod.fst := by
  intro hmem
  rcases List.mem_map.mp hmem with ⟨e, he, hkey⟩
  rw [List.lookup_eq_none_iff] at h
  have hne := h e he
  rw [hkey, bne_self_eq_false] at hne
  cases hne

theorem wellKeyed_replaceOwn (h : wellKeyed allowed (object members) = true)
    (hv : wellKeyed allowed v = true) :
    wellKeyed allowed (object (replaceOwn k v members)) = true := by
  have hparts := wellKeyed_object.mp h
  apply wellKeyed_object.mpr
  constructor
  · rw [map_fst_replaceOwn]
    exact hparts.1
  · intro e he
    cases mem_replaceOwn he with
    | inl hold => exact hparts.2 e hold
    | inr hnew =>
        rcases List.mem_map.mp hnew.2 with ⟨old, hold, hkey⟩
        rw [hnew.1]
        constructor
        · show allowed k = true
          rw [← hkey]
          exact (hparts.2 old hold).1
        · exact hv

theorem wellKeyed_insertOwn (h : wellKeyed allowed (object members) = true)
    (hk : allowed k = true) (hv : wellKeyed allowed v = true) :
    wellKeyed allowed (object (insertOwn k v members)) = true := by
  unfold insertOwn
  split
  · exact wellKeyed_replaceOwn h hv
  · rename_i hnone
    have hparts := wellKeyed_object.mp h
    have hnone : members.lookup k = none := Option.not_isSome_iff_eq_none.mp hnone
    have hperm := insertBy_perm listedBefore k v hnone
    apply wellKeyed_object.mpr
    constructor
    · apply (hperm.map Prod.fst).nodup_iff.mpr
      exact List.nodup_cons.mpr ⟨not_mem_of_lookup hnone, hparts.1⟩
    · intro e he
      cases List.mem_cons.mp (hperm.mem_iff.mp he) with
      | inl heq =>
          rw [heq]
          exact ⟨hk, hv⟩
      | inr hmem => exact hparts.2 e hmem

theorem wellKeyed_empty : wellKeyed allowed (object []) = true :=
  rfl

theorem wellKeyed_updateAt {f : List Member -> List Member}
    (hf : forall m, wellKeyed allowed (object m) = true ->
      wellKeyed allowed (object (f m)) = true) :
    forall {path : List String} {members : List Member},
      wellKeyed allowed (object members) = true ->
        wellKeyed allowed (object (updateAt f members path)) = true := by
  intro path
  induction path with
  | nil =>
      intro members h
      exact hf members h
  | cons l path ih =>
      intro members h
      cases object_or_other (members.lookup l) with
      | inl hl =>
          cases hl with
          | intro m hl =>
              rw [updateAt_object hl]
              exact wellKeyed_replaceOwn h (ih (wellKeyed_lookup h hl).2)
      | inr hl =>
          rw [updateAt_other hl]
          exact h

theorem wellKeyed_putTree (hv : wellKeyed (fun k => !inherits k) v = true) :
    forall {p : List String} {members : List Member},
      wellKeyed (fun k => !inherits k) (object members) = true ->
        wellKeyed (fun k => !inherits k) (object (putTree members p v)) = true := by
  intro p
  induction p with
  | nil =>
      intro members h
      exact h
  | cons k p ih =>
      intro members h
      rcases lookup_cases members k with hk | ⟨m, hk⟩ | ⟨u, hk, hu⟩
      · cases hin : inherits k with
        | true =>
            rw [putTree_inherited hk hin]
            exact h
        | false =>
            have hkey : (!inherits k) = true := by
              rw [hin]
              rfl
            rw [putTree_missing hk hin]
            apply wellKeyed_insertOwn h hkey
            split
            · exact hv
            · exact ih wellKeyed_empty
      · rw [putTree_object hk]
        exact wellKeyed_replaceOwn h (ih (wellKeyed_lookup h hk).2)
      · rw [putTree_value hu hk]
        exact h

theorem wellKeyed_putAll :
    forall {ps : List (List String × Json)} {members : List Member},
      (forall p, p ∈ ps -> wellKeyed (fun k => !inherits k) p.2 = true) ->
        wellKeyed (fun k => !inherits k) (object members) = true ->
          wellKeyed (fun k => !inherits k) (object (putAll members ps)) = true := by
  intro ps
  induction ps with
  | nil =>
      intro members _ h
      exact h
  | cons p ps ih =>
      intro members hvalues h
      apply ih (fun q hq => hvalues q (List.mem_cons_of_mem _ hq))
      exact wellKeyed_putTree (hvalues p List.mem_cons_self) h

end Web
end FleetServer
