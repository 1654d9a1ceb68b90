import FleetServer.Storage.Documents
import Mathlib.Data.List.DropRight

/-!
# The history beside the documents

What the transactions on facts do to the recorded changes of every host and
source, oldest first.
-/

namespace FleetServer
namespace Storage

open FleetServer.Core
open Table

/-!
# The last rows of a table
-/

section Last

variable {Row Col : Type}

theorem length_rtake_le (n : Nat) (rows : List Row) : (rows.rtake n).length ≤ n := by
  rw [List.rtake, List.length_drop]
  omega

theorem map_rtake (f : Row -> Col) (n : Nat) (rows : List Row) :
    (rows.rtake n).map f = (rows.map f).rtake n := by
  rw [List.rtake, List.rtake, List.map_drop, List.length_map]

/-- What was dropped earlier would be dropped later. -/
theorem rtake_rtake_append (n : Nat) (rows new : List Row) :
    (rows.rtake n ++ new).rtake n = (rows ++ new).rtake n := by
  rw [List.rtake_eq_reverse_take_reverse, List.rtake_eq_reverse_take_reverse,
    List.rtake_eq_reverse_take_reverse, List.reverse_append, List.reverse_append,
    List.reverse_reverse, List.take_append, List.take_append, List.take_take,
    Nat.min_eq_left (Nat.sub_le n _)]

end Last

namespace HostFactsRepo

variable {db : Db} {tenantId : Int} {hostId source : String}

def changes (tenantId : Int) (hostId source : String) (db : Db) : List HostFactChangeRow :=
  db.hostFactChanges.filter (isChange tenantId hostId source)

theorem isChange_iff {r : HostFactChangeRow} : isChange tenantId hostId source r = true <->
    r.tenantId = tenantId ∧ r.hostId = hostId ∧ r.source = source := by
  unfold isChange ofHost
  rw [Bool.and_eq_true, Bool.and_eq_true, beq_iff_eq, beq_iff_eq, beq_iff_eq, and_assoc]

theorem isChange_other {t : Int} {h s : String} {r : HostFactChangeRow}
    (hother : ¬ (t = tenantId ∧ h = hostId ∧ s = source))
    (hr : isChange tenantId hostId source r = true) : isChange t h s r = false := by
  rw [Bool.eq_false_iff]
  intro hsame
  have hr := isChange_iff.mp hr
  have hsame := isChange_iff.mp hsame
  apply hother
  rw [← hsame.1, ← hsame.2.1, ← hsame.2.2]
  exact hr

/-!
# Pruning
-/

/-- One row seen by `keepNewest`: dropped while rows are to be dropped. -/
def pruneStep (p : HostFactChangeRow -> Bool) (excess : Nat)
    (acc : List HostFactChangeRow × Nat) (r : HostFactChangeRow) :
    List HostFactChangeRow × Nat :=
  if p r && decide (acc.2 < excess) then (acc.1, acc.2 + 1) else (acc.1 ++ [r], acc.2)

theorem keepNewest_eq_foldl (p : HostFactChangeRow -> Bool) (keep : Int)
    (rows : List HostFactChangeRow) :
    keepNewest p keep rows =
      (rows.foldl (pruneStep p (rows.countP p - keep.toNat)) ([], 0)).1 := rfl

theorem filter_foldl_pruneStep (p : HostFactChangeRow -> Bool) (excess : Nat)
    (rows : List HostFactChangeRow) :
    forall acc dropped, (rows.foldl (pruneStep p excess) (acc, dropped)).1.filter p =
      acc.filter p ++ (rows.filter p).drop (excess - dropped) := by
  induction rows with
  | nil =>
      intro acc dropped
      rw [List.foldl_nil, List.filter_nil, List.drop_nil, List.append_nil]
  | cons r rest ih =>
      intro acc dropped
      rw [List.foldl_cons]
      unfold pruneStep
      cases hp : p r with
      | false =>
          rw [Bool.false_and, if_neg Bool.false_ne_true]
          change ((rest.foldl (pruneStep p excess) (acc ++ [r], dropped)).1).filter p = _
          rw [ih, List.filter_append, List.filter_singleton, hp, List.filter_cons, hp]
          simp
      | true =>
          rw [Bool.true_and]
          by_cases hmore : dropped < excess
          · rw [if_pos (decide_eq_true hmore)]
            change ((rest.foldl (pruneStep p excess) (acc, dropped + 1)).1).filter p = _
            have hnext : excess - dropped = (excess - (dropped + 1)) + 1 := by
              omega
            rw [ih, List.filter_cons, hp, if_pos rfl, hnext, List.drop_succ_cons]
          · have hdone : excess - dropped = 0 := by
              omega
            rw [if_neg (fun h => hmore (of_decide_eq_true h))]
            change ((rest.foldl (pruneStep p excess) (acc ++ [r], dropped)).1).filter p = _
            rw [ih, List.filter_append, List.filter_singleton, hp, List.filter_cons, hp, hdone]
            simp

theorem filter_foldl_pruneStep_other {p q : HostFactChangeRow -> Bool} (excess : Nat)
    (hpq : forall r, p r = true -> q r = false) (rows : List HostFactChangeRow) :
    forall acc dropped, (rows.foldl (pruneStep p excess) (acc, dropped)).1.filter q =
      acc.filter q ++ rows.filter q := by
  induction rows with
  | nil =>
      intro acc dropped
      rw [List.foldl_nil, List.filter_nil, List.append_nil]
  | cons r rest ih =>
      intro acc dropped
      rw [List.foldl_cons]
      unfold pruneStep
      split
      · rename_i hdrop
        rw [Bool.and_eq_true] at hdrop
        change ((rest.foldl (pruneStep p excess) (acc, dropped + 1)).1).filter q = _
        rw [ih, List.filter_cons, hpq r hdrop.1, if_neg Bool.false_ne_true]
      · change ((rest.foldl (pruneStep p excess) (acc ++ [r], dropped)).1).filter q = _
        rw [ih, List.filter_append, List.append_assoc, ← List.filter_append,
          List.singleton_append]

theorem filter_keepNewest (p : HostFactChangeRow -> Bool) (keep : Int)
    (rows : List HostFactChangeRow) :
    (keepNewest p keep rows).filter p = (rows.filter p).rtake keep.toNat := by
  rw [keepNewest_eq_foldl, filter_foldl_pruneStep, List.filter_nil, List.nil_append,
    Nat.sub_zero, List.rtake, List.countP_eq_length_filter]

theorem filter_keepNewest_other {p q : HostFactChangeRow -> Bool} (keep : Int)
    (hpq : forall r, p r = true -> q r = false) (rows : List HostFactChangeRow) :
    (keepNewest p keep rows).filter q = rows.filter q := by
  rw [keepNewest_eq_foldl, filter_foldl_pruneStep_other _ hpq, List.filter_nil,
    List.nil_append]

/-!
# Storing and deleting
-/

section Stored

variable {doc : NewFacts} {keepHistory now : Int}

def changeRow (tenantId : Int) (hostId : String) (doc : NewFacts) (now : Int) (entry : String) :
    HostFactChangeRow :=
  { tenantId := tenantId, hostId := hostId, source := doc.source, at_ := now,
    factsHash := doc.factsHash, changesJson := entry }

theorem changes_storeRows_self (hsource : doc.source = source) :
    changes tenantId hostId source (storeRows tenantId hostId doc keepHistory now db) =
      match doc.history with
      | none => changes tenantId hostId source db
      | some entry =>
          (changes tenantId hostId source db ++
            [changeRow tenantId hostId doc now entry]).rtake keepHistory.toNat := by
  unfold changes storeRows
  cases hhistory : doc.history with
  | none => rfl
  | some entry =>
      simp only
      rw [hsource, filter_keepNewest, List.filter_append, List.filter_singleton]
      have hrow : isChange tenantId hostId source
          { tenantId := tenantId, hostId := hostId, source := source, at_ := now,
            factsHash := doc.factsHash, changesJson := entry } = true :=
        isChange_iff.mpr ⟨rfl, rfl, rfl⟩
      rw [hrow, cond_true]
      unfold changeRow
      rw [hsource]

theorem changes_storeRows_other {t : Int} {h s : String}
    (hother : ¬ (t = tenantId ∧ h = hostId ∧ s = doc.source)) :
    changes t h s (storeRows tenantId hostId doc keepHistory now db) = changes t h s db := by
  unfold changes storeRows
  cases doc.history with
  | none => rfl
  | some entry =>
      simp only
      rw [filter_keepNewest_other _ (fun r hr => isChange_other hother hr), List.filter_append,
        List.filter_singleton]
      have hrow : isChange t h s
          { tenantId := tenantId, hostId := hostId, source := doc.source, at_ := now,
            factsHash := doc.factsHash, changesJson := entry } = false :=
        isChange_other hother (isChange_iff.mpr ⟨rfl, rfl, rfl⟩)
      rw [hrow, cond_false, List.append_nil]

end Stored

theorem changes_delete {removed : Bool} {db' : Db}
    (h : delete tenantId hostId source db = Except.ok (removed, db')) :
    changes tenantId hostId source db' = [] ∧
      forall t k s, ¬ (t = tenantId ∧ k = hostId ∧ s = source) ->
        changes t k s db' = changes t k s db := by
  have heq := Tx.total_eq_ok.mp h
  cases heq
  unfold changes deleteWhere
  constructor
  · rw [List.filter_filter, List.filter_eq_nil_iff]
    intro r _
    simp
  · intro t k s hother
    rw [List.filter_filter]
    apply List.filter_congr
    intro r _
    cases hr : isChange tenantId hostId source r with
    | false => simp
    | true => simp [isChange_other hother hr]

end HostFactsRepo

end Storage
end FleetServer
