import Mathlib.Data.List.Basic

/-!
# Codes that split off the front of a text

A code of values as lists of symbols, where the code of a value can be told from
what follows it.  Concatenations of such codes determine the values, in order,
without a count or a separator.
-/

namespace FleetServer
namespace PrefixCode

variable {alpha beta gamma : Type}

/-- Codes of values in `P` are told from any continuation in `After`. -/
def Splits (P : alpha -> Prop) (After : List beta -> Prop) (f : alpha -> List beta) : Prop :=
  forall a b u v, P a -> P b -> After u -> After v -> f a ++ u = f b ++ v -> a = b ∧ u = v

/-- Any continuation. -/
def anything (_ : List beta) : Prop := True

variable {P : alpha -> Prop} {After : List beta -> Prop} {f : alpha -> List beta}

theorem splits_of_header {header : List alpha -> List alpha} {n : Nat}
    {P : List alpha -> Prop} (hlength : forall xs, (header xs).length = n)
    (hinj : forall xs ys, P xs -> P ys -> header xs = header ys -> xs.length = ys.length) :
    Splits P anything (fun xs => header xs ++ xs) := by
  intro xs ys u v hx hy _ _ heq
  rw [List.append_assoc, List.append_assoc] at heq
  have hheader := List.append_inj heq (by rw [hlength xs, hlength ys])
  exact List.append_inj hheader.2 (hinj xs ys hx hy hheader.1)

/-- As many codes one after another. -/
theorem splits_flatMap (h : Splits P anything f) (n : Nat) :
    Splits (fun xs : List alpha => xs.length = n ∧ forall a, a ∈ xs -> P a) anything
      (fun xs => xs.flatMap f) := by
  induction n with
  | zero =>
      intro xs ys u v hx hy _ _ heq
      rw [List.length_eq_zero_iff.mp hx.1, List.length_eq_zero_iff.mp hy.1] at heq ⊢
      exact ⟨rfl, heq⟩
  | succ n ih =>
      intro xs ys u v hx hy _ _ heq
      cases xs with
      | nil => cases hx.1
      | cons a xs =>
          cases ys with
          | nil => cases hy.1
          | cons b ys =>
              simp only [List.flatMap_cons, List.append_assoc] at heq
              have hhead := h a b _ _ (hx.2 a List.mem_cons_self) (hy.2 b List.mem_cons_self)
                trivial trivial heq
              have htail := ih xs ys u v
                ⟨Nat.succ.inj hx.1, fun c hc => hx.2 c (List.mem_cons_of_mem _ hc)⟩
                ⟨Nat.succ.inj hy.1, fun c hc => hy.2 c (List.mem_cons_of_mem _ hc)⟩
                trivial trivial hhead.2
              exact ⟨by rw [hhead.1, htail.1], htail.2⟩

/-- Any number of codes up to the end of the text, none of them empty, where a code
can be told from the ones that come next. -/
theorem flatMap_eq (h : Splits P After f) (hafter : forall xs : List alpha, After (xs.flatMap f))
    (hne : forall a, P a -> f a ≠ []) :
    forall xs ys : List alpha, (forall a, a ∈ xs -> P a) -> (forall a, a ∈ ys -> P a) ->
      xs.flatMap f = ys.flatMap f -> xs = ys
  | [], [], _, _, _ => rfl
  | [], b :: ys, _, hy, heq => by
      rw [List.flatMap_nil, List.flatMap_cons] at heq
      have hb : f b = [] := (List.append_eq_nil_iff.mp heq.symm).1
      exact absurd hb (hne b (hy b List.mem_cons_self))
  | a :: xs, [], hx, _, heq => by
      rw [List.flatMap_nil, List.flatMap_cons] at heq
      have ha : f a = [] := (List.append_eq_nil_iff.mp heq).1
      exact absurd ha (hne a (hx a List.mem_cons_self))
  | a :: xs, b :: ys, hx, hy, heq => by
      rw [List.flatMap_cons, List.flatMap_cons] at heq
      have hhead := h a b _ _ (hx a List.mem_cons_self) (hy b List.mem_cons_self)
        (hafter xs) (hafter ys) heq
      have htail := flatMap_eq h hafter hne xs ys (fun c hc => hx c (List.mem_cons_of_mem _ hc))
        (fun c hc => hy c (List.mem_cons_of_mem _ hc)) hhead.2
      rw [hhead.1, htail]

def endOr (sep : beta) (u : List beta) : Prop :=
  u = [] ∨ exists v, u = sep :: v

theorem splits_of_separator (sep : beta) :
    Splits (fun xs : List beta => sep ∉ xs) (endOr sep) (fun xs => sep :: xs) := by
  have hinside : forall xs ys u v : List beta, sep ∉ xs -> sep ∉ ys -> endOr sep u ->
      endOr sep v -> xs ++ u = ys ++ v -> xs = ys ∧ u = v := by
    -- A text that goes on where the other one ends meets no separator there.
    have hshort : forall (y : beta) (ys u v : List beta), sep ∉ y :: ys -> endOr sep u ->
        u = y :: ys ++ v -> False := by
      intro y ys u v hy hu heq
      cases hu with
      | inl hnil =>
          rw [hnil] at heq
          cases heq
      | inr hsep =>
          rcases hsep with ⟨w, hw⟩
          rw [hw] at heq
          injection heq with hhead htail
          apply hy
          rw [hhead]
          exact List.mem_cons_self
    intro xs
    induction xs with
    | nil =>
        intro ys u v hx hy hu hv heq
        cases ys with
        | nil => exact ⟨rfl, heq⟩
        | cons y ys => exact absurd heq (fun heq => hshort y ys u v hy hu heq)
    | cons x xs ih =>
        intro ys u v hx hy hu hv heq
        cases ys with
        | nil => exact absurd heq.symm (fun heq => hshort x xs v u hx hv heq)
        | cons y ys =>
            injection heq with hhead htail
            have hrest := ih ys u v (fun hmem => hx (List.mem_cons_of_mem _ hmem))
              (fun hmem => hy (List.mem_cons_of_mem _ hmem)) hu hv htail
            exact ⟨by rw [hhead, hrest.1], hrest.2⟩
  intro xs ys u v hx hy hu hv heq
  injection heq with hsep hrest
  exact hinside xs ys u v hx hy hu hv hrest

/-- The code of what a value is made of. -/
theorem splits_comp {Q : gamma -> Prop} {g : gamma -> alpha} (h : Splits P After f)
    (hP : forall c, Q c -> P (g c)) (hinj : forall c d, Q c -> Q d -> g c = g d -> c = d) :
    Splits Q After (fun c => f (g c)) := by
  intro c d u v hc hd hu hv heq
  have hparts := h (g c) (g d) u v (hP c hc) (hP d hd) hu hv heq
  exact ⟨hinj c d hc hd hparts.1, hparts.2⟩

end PrefixCode
end FleetServer
