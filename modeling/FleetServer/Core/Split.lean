import FleetServer.Core.Text
import Mathlib.Data.List.TakeWhile

/-!
# Splitting text

What `strip_prefix`, `trim_start_matches`, `split_once` and `rsplit_once` give, on
lists of characters.
-/

namespace FleetServer
namespace Core

def stripPrefix (front text : List Char) : Option (List Char) :=
  if front.isPrefixOf text then some (text.drop front.length) else none

/-- `trim_start_matches`: the pattern is taken off as often as it stands there. -/
def trimStartMatches (front : List Char) : Nat -> List Char -> List Char
  | 0, text => text
  | fuel + 1, text =>
      match stripPrefix front text with
      | none => text
      | some rest => trimStartMatches front fuel rest

/-- `split(c).next()`. -/
def upTo (c : Char) (text : List Char) : List Char :=
  text.takeWhile (· != c)

def splitOnce (c : Char) (text : List Char) : Option (List Char × List Char) :=
  match text.dropWhile (· != c) with
  | [] => none
  | _ :: rest => some (upTo c text, rest)

def rsplitOnce (c : Char) (text : List Char) : Option (List Char × List Char) :=
  (splitOnce c text.reverse).map fun parts => (parts.2.reverse, parts.1.reverse)

variable {front text rest xs ys : List Char} {c : Char}

theorem takeWhile_until {q : Char -> Bool} {xs rest : List Char}
    (hxs : forall c, c ∈ xs -> q c = true) (hrest : forall c, rest.head? = some c -> q c = false) :
    (xs ++ rest).takeWhile q = xs ∧ (xs ++ rest).dropWhile q = rest := by
  have hnone : rest.takeWhile q = [] ∧ rest.dropWhile q = rest := by
    cases rest with
    | nil => exact ⟨rfl, rfl⟩
    | cons c cs =>
        have hc := hrest c rfl
        constructor
        · rw [List.takeWhile_cons, hc]
          rfl
        · rw [List.dropWhile_cons, hc]
          rfl
  constructor
  · rw [List.takeWhile_append_of_pos hxs, hnone.1, List.append_nil]
  · rw [List.dropWhile_append_of_pos hxs, hnone.2]

theorem stripPrefix_append (front rest : List Char) :
    stripPrefix front (front ++ rest) = some rest := by
  unfold stripPrefix
  rw [if_pos (List.isPrefixOf_iff_prefix.mpr (List.prefix_append _ _)), List.drop_left]

theorem stripPrefix_singleton (c x : Char) (xs : List Char) :
    stripPrefix [c] (x :: xs) = if c == x then some xs else none := by
  unfold stripPrefix
  simp

theorem upTo_of_not_mem (h : c ∉ xs) : upTo c xs = xs := by
  unfold upTo
  rw [List.takeWhile_eq_self_iff]
  intro x hx
  exact bne_iff_ne.mpr fun heq => h (heq ▸ hx)

theorem upTo_append_cons (h : c ∉ xs) : upTo c (xs ++ c :: ys) = xs := by
  unfold upTo
  rw [List.takeWhile_append_of_pos]
  · simp
  · intro x hx
    exact bne_iff_ne.mpr fun heq => h (heq ▸ hx)

theorem not_mem_upTo (c : Char) (xs : List Char) : c ∉ upTo c xs := by
  intro hmem
  have hne := List.all_eq_true.mp (List.all_takeWhile (p := (· != c)) (l := xs)) c hmem
  simp at hne

theorem splitOnce_append_cons (h : c ∉ xs) : splitOnce c (xs ++ c :: ys) = some (xs, ys) := by
  unfold splitOnce
  have hdrop : (xs ++ c :: ys).dropWhile (· != c) = c :: ys := by
    rw [List.dropWhile_append_of_pos]
    · simp
    · intro x hx
      exact bne_iff_ne.mpr fun heq => h (heq ▸ hx)
  rw [hdrop, upTo_append_cons h]

theorem trimStartMatches_none (h : stripPrefix front text = none) (fuel : Nat) :
    trimStartMatches front fuel text = text := by
  cases fuel with
  | zero => rfl
  | succ fuel =>
      unfold trimStartMatches
      rw [h]

theorem trimStartMatches_once (h : stripPrefix front rest = none) (fuel : Nat) :
    trimStartMatches front (fuel + 1) (front ++ rest) = rest := by
  unfold trimStartMatches
  rw [stripPrefix_append]
  exact trimStartMatches_none h fuel

theorem stripPrefix_eq_none (h : forall rest, text ≠ front ++ rest) :
    stripPrefix front text = none := by
  unfold stripPrefix
  apply if_neg
  intro hprefix
  rcases List.isPrefixOf_iff_prefix.mp hprefix with ⟨rest, hrest⟩
  exact h rest hrest.symm

theorem splitOnce_of_not_mem (h : c ∉ xs) : splitOnce c xs = none := by
  unfold splitOnce
  have hdrop : xs.dropWhile (· != c) = [] := by
    rw [List.dropWhile_eq_nil_iff]
    intro x hx
    exact bne_iff_ne.mpr fun heq => h (heq ▸ hx)
  rw [hdrop]

theorem rsplitOnce_append_cons (h : c ∉ ys) : rsplitOnce c (xs ++ c :: ys) = some (xs, ys) := by
  have hreverse : (xs ++ c :: ys).reverse = ys.reverse ++ c :: xs.reverse := by
    simp
  unfold rsplitOnce
  rw [hreverse, splitOnce_append_cons (fun hmem => h (List.mem_reverse.mp hmem))]
  simp

theorem rsplitOnce_of_not_mem (h : c ∉ xs) : rsplitOnce c xs = none := by
  unfold rsplitOnce
  rw [splitOnce_of_not_mem (fun hmem => h (List.mem_reverse.mp hmem))]
  rfl

end Core
end FleetServer
