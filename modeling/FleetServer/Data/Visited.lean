import FleetServer.Data.Table
import Mathlib.Data.List.Forall2

/-!
# Rows visited one at a time

A walk goes through the keys of a table and, at each key, leaves the row or
updates it.  The rows of the keys still to come are as they were at the start,
and every other row is related to its old self.
-/

namespace FleetServer
namespace Table

variable {Row Id : Type}

theorem filter_key [DecidableEq Id] {key : Row -> Id} {rows : List Row}
    (hids : (rows.map key).Nodup) {r : Row} (hr : r ∈ rows) :
    (rows.filter fun s => key s == key r) = [r] := by
  induction rows with
  | nil => cases hr
  | cons s rows ih =>
      rw [List.map_cons, List.nodup_cons] at hids
      have hfresh : forall q, q ∈ rows -> key q ≠ key s := by
        intro q hq hsame
        rw [← hsame] at hids
        exact hids.1 (List.mem_map_of_mem hq)
      cases List.mem_cons.mp hr with
      | inl hhead =>
          subst hhead
          have hhere : (key r == key r) = true := beq_self_eq_true _
          rw [List.filter_cons_of_pos (p := fun s => key s == key r) hhere,
            List.filter_eq_nil_iff.mpr]
          intro q hq hkey
          exact hfresh q hq (eq_of_beq hkey)
      | inr htail =>
          rw [List.filter_cons_of_neg, ih hids.2 htail]
          intro hkey
          exact hfresh r htail (eq_of_beq hkey).symm

theorem forall₂_updateWhere {Old : Type} {R R' : Old -> Row -> Prop} {p : Row -> Bool}
    {f : Row -> Row} {old : List Old} {rows : List Row} (h : List.Forall₂ R old rows)
    (hstep : forall o r, o ∈ old -> R o r -> R' o (if p r then f r else r)) :
    List.Forall₂ R' old (updateWhere p f rows) := by
  induction h with
  | nil => exact List.Forall₂.nil
  | cons hfirst hrest ih =>
      rw [updateWhere_cons]
      apply List.Forall₂.cons
      · exact hstep _ _ List.mem_cons_self hfirst
      · exact ih (fun o r ho => hstep o r (List.mem_cons_of_mem _ ho))

/-!
# The walk
-/

section Walk

variable {After : Row -> Row -> Prop} {key : Row -> Id} {waiting : List Id} {id : Id}
  {old rows : List Row}

structure Visited (After : Row -> Row -> Prop) (key : Row -> Id) (waiting : List Id)
    (r r' : Row) : Prop where
  ahead : key r ∈ waiting -> r' = r
  behind : key r ∉ waiting -> After r r'

theorem visited_start (hall : forall r, r ∈ rows -> key r ∈ waiting) :
    List.Forall₂ (Visited After key waiting) rows rows := by
  apply List.forall₂_same.mpr
  intro r hr
  constructor
  · intro _
    rfl
  · intro hnot
    exact absurd (hall r hr) hnot

theorem visited_end (h : List.Forall₂ (Visited After key []) old rows) :
    List.Forall₂ After old rows :=
  h.imp fun _ _ hvisited => hvisited.behind List.not_mem_nil

theorem visited_cons_of_ne {r r' : Row} (h : Visited After key (id :: waiting) r r')
    (hne : key r ≠ id) : Visited After key waiting r r' := by
  constructor
  · intro hmem
    exact h.ahead (List.mem_cons_of_mem _ hmem)
  · intro hnot
    apply h.behind
    intro hmem
    cases List.mem_cons.mp hmem with
    | inl hhere => exact hne hhere
    | inr hlater => exact hnot hlater

theorem visited_leave (h : List.Forall₂ (Visited After key (id :: waiting)) old rows)
    (hafter : forall r, r ∈ old -> key r = id -> After r r) :
    List.Forall₂ (Visited After key waiting) old rows := by
  have hpairs := (List.forall₂_and_left (p := fun r => r ∈ old) old rows).mpr
    ⟨fun _ hr => hr, h⟩
  apply hpairs.imp
  intro r r' hpair
  by_cases hkey : key r = id
  · have hsame : r' = r := hpair.2.ahead (by rw [hkey]; exact List.mem_cons_self)
    subst hsame
    exact ⟨fun _ => rfl, fun _ => hafter r' hpair.1 hkey⟩
  · exact visited_cons_of_ne hpair.2 hkey

theorem visited_update {p : Row -> Bool} {f : Row -> Row}
    (h : List.Forall₂ (Visited After key (id :: waiting)) old rows) (hnext : id ∉ waiting)
    (hmatched : forall r r', r ∈ old -> r' = r ∨ After r r' -> (p r' = true <-> key r = id))
    (hafter : forall r, r ∈ old -> key r = id -> After r (f r)) :
    List.Forall₂ (Visited After key waiting) old (updateWhere p f rows) := by
  apply forall₂_updateWhere h
  intro r r' hr hvisited
  by_cases hkey : key r = id
  · have hsame : r' = r := hvisited.ahead (by rw [hkey]; exact List.mem_cons_self)
    subst hsame
    rw [if_pos ((hmatched r' r' hr (Or.inl rfl)).mpr hkey)]
    constructor
    · intro hmem
      rw [hkey] at hmem
      exact absurd hmem hnext
    · intro _
      exact hafter r' hr hkey
  · have hafter' : r' = r ∨ After r r' := by
      by_cases hmem : key r ∈ id :: waiting
      · exact Or.inl (hvisited.ahead hmem)
      · exact Or.inr (hvisited.behind hmem)
    rw [if_neg (fun hp => hkey ((hmatched r r' hr hafter').mp hp))]
    exact visited_cons_of_ne hvisited hkey

theorem find?_visited {p : Row -> Bool}
    (h : List.Forall₂ (Visited After key (id :: waiting)) old rows)
    (hmatched : forall r r', r ∈ old -> r' = r ∨ After r r' -> (p r' = true <-> key r = id)) :
    rows.find? p = old.find? p := by
  induction h with
  | nil => rfl
  | @cons r r' olds news hfirst hrest ih =>
      have hmore := ih fun r r' hr => hmatched r r' (List.mem_cons_of_mem _ hr)
      by_cases hkey : key r = id
      · have hsame : r' = r := hfirst.ahead (by rw [hkey]; exact List.mem_cons_self)
        subst hsame
        have hp : p r' = true := (hmatched r' r' List.mem_cons_self (Or.inl rfl)).mpr hkey
        rw [List.find?_cons_of_pos hp, List.find?_cons_of_pos hp]
      · have hold : Not (p r = true) := fun hp =>
          hkey ((hmatched r r List.mem_cons_self (Or.inl rfl)).mp hp)
        have hnew : Not (p r' = true) := by
          intro hp
          apply hkey
          apply (hmatched r r' List.mem_cons_self _).mp hp
          by_cases hmem : key r ∈ id :: waiting
          · exact Or.inl (hfirst.ahead hmem)
          · exact Or.inr (hfirst.behind hmem)
        rw [List.find?_cons_of_neg hnew, List.find?_cons_of_neg hold, hmore]

end Walk

end Table
end FleetServer
