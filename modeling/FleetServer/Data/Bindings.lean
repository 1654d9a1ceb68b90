import Mathlib.Data.List.Basic

/-!
# Lists of bindings

A list that binds keys to values, where the first binding of a key counts and the
others stay where they are.  A put replaces the first binding of its key, or adds
one anywhere when there is none.
-/

namespace FleetServer
namespace Bindings

variable {alpha beta : Type} [BEq alpha] [LawfulBEq alpha]
variable {p q : alpha} {u v : beta} {bs cs before after : List (alpha × beta)}

def Unbound (p : alpha) (bs : List (alpha × beta)) : Prop :=
  forall b, b ∈ bs -> b.1 ≠ p

/-- `Put p v bs cs`: binding `p` to `v` makes `cs` of `bs`. -/
inductive Put (p : alpha) (v : beta) : List (alpha × beta) -> List (alpha × beta) -> Prop where
  | replace {before after : List (alpha × beta)} {u : beta} :
      Unbound p before ->
      Put p v (before ++ (p, u) :: after) (before ++ (p, v) :: after)
  | insert {before after : List (alpha × beta)} :
      Unbound p before ->
      Unbound p after ->
      Put p v (before ++ after) (before ++ (p, v) :: after)

theorem lookup_unbound (h : Unbound p bs) : bs.lookup p = none := by
  rw [List.lookup_eq_none_iff]
  intro b hb
  exact bne_iff_ne.mpr (h b hb).symm

/-- A binding behind others of other keys. -/
theorem lookup_append_cons (h : Unbound p before) (v : beta) (after : List (alpha × beta)) :
    (before ++ (p, v) :: after).lookup p = some v := by
  rw [List.lookup_append, lookup_unbound h, List.lookup_cons_self]
  rfl

/-- Another key does not see a binding. -/
theorem lookup_append_other (hne : q ≠ p) (v : beta) (before after : List (alpha × beta)) :
    (before ++ (p, v) :: after).lookup q = (before ++ after).lookup q := by
  rw [List.lookup_append, List.lookup_append, List.lookup_cons, beq_eq_false_iff_ne.mpr hne]

/-!
# Put and get
-/

theorem lookup_put (h : Put p v bs cs) : cs.lookup p = some v := by
  cases h with
  | replace hbefore => exact lookup_append_cons hbefore _ _
  | insert hbefore hafter => exact lookup_append_cons hbefore _ _

theorem lookup_put_other (h : Put p v bs cs) (hne : q ≠ p) : cs.lookup q = bs.lookup q := by
  cases h with
  | replace hbefore => rw [lookup_append_other hne, lookup_append_other hne]
  | insert hbefore hafter => rw [lookup_append_other hne]

/-!
# Removing
-/

/-- Drop every binding of a key. -/
def remove (p : alpha) (bs : List (alpha × beta)) : List (alpha × beta) :=
  bs.filter fun b => !(b.1 == p)

theorem lookup_remove (p : alpha) (bs : List (alpha × beta)) : (remove p bs).lookup p = none := by
  apply lookup_unbound
  intro b hb heq
  have hkept := (List.mem_filter.mp hb).2
  rw [heq, beq_self_eq_true] at hkept
  cases hkept

theorem lookup_remove_other (hne : q ≠ p) : (remove p bs).lookup q = bs.lookup q := by
  induction bs with
  | nil => rfl
  | cons b rest ih =>
      unfold remove at ih ⊢
      by_cases hb : b.1 = p
      · have hdropped : (!(b.1 == p)) = false := by simp [hb]
        have hother : (q == b.1) = false := by
          rw [hb]
          exact beq_eq_false_iff_ne.mpr hne
        rw [List.filter_cons, hdropped, List.lookup_cons, hother]
        exact ih
      · have hkept : (!(b.1 == p)) = true := by simp [hb]
        rw [List.filter_cons, hkept, if_pos rfl, List.lookup_cons, List.lookup_cons, ih]

end Bindings
end FleetServer
