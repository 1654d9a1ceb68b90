import Mathlib.Data.List.Nodup
import Mathlib.Data.List.Sort

/-!
# Tables as lists of rows

What the statements of a database do to one table, and what they leave alone.
-/

namespace FleetServer
namespace Table

variable {Row : Type}
variable {p q : Row -> Bool} {f : Row -> Row} {new r : Row} {Row' alpha : Type} {g : Row -> Row'}

/-- `UPDATE ... SET f WHERE p`. -/
def updateWhere (p : Row -> Bool) (f : Row -> Row) (rows : List Row) : List Row :=
  rows.map fun r => if p r then f r else r

/-- `DELETE ... WHERE p`. -/
def deleteWhere (p : Row -> Bool) (rows : List Row) : List Row :=
  rows.filter fun r => !p r

/-- How many rows a statement matches. -/
def affected (p : Row -> Bool) (rows : List Row) : Nat :=
  rows.countP p

/-- `INSERT ... ON CONFLICT DO UPDATE`: `conflict` finds the existing row. -/
def upsert (conflict : Row -> Bool) (f : Row -> Row) (new : Row) (rows : List Row) :
    List Row :=
  if rows.any conflict then updateWhere conflict f rows else rows ++ [new]

theorem updateWhere_cons (p : Row -> Bool) (f : Row -> Row) (r : Row) (rows : List Row) :
    updateWhere p f (r :: rows) = (if p r then f r else r) :: updateWhere p f rows := rfl

theorem mem_updateWhere {rows : List Row} :
    r ∈ updateWhere p f rows <->
      exists s, s ∈ rows ∧ r = if p s then f s else s := by
  unfold updateWhere
  rw [List.mem_map]
  constructor
  · rintro ⟨s, hs, rfl⟩
    exact ⟨s, hs, rfl⟩
  · rintro ⟨s, hs, rfl⟩
    exact ⟨s, hs, rfl⟩

theorem of_mem_updateWhere {rows : List Row} (h : r ∈ updateWhere p f rows) :
    exists s, s ∈ rows ∧ ((p s = false ∧ r = s) ∨ (p s = true ∧ r = f s)) := by
  rcases mem_updateWhere.mp h with ⟨s, hs, rfl⟩
  refine ⟨s, hs, ?_⟩
  cases hp : p s with
  | false => exact Or.inl ⟨rfl, rfl⟩
  | true => exact Or.inr ⟨rfl, rfl⟩

theorem mem_deleteWhere {rows : List Row} :
    r ∈ deleteWhere p rows <-> r ∈ rows ∧ p r = false := by
  unfold deleteWhere
  rw [List.mem_filter, Bool.not_eq_true']

theorem mem_of_mem_deleteWhere {rows : List Row} (h : r ∈ deleteWhere p rows) : r ∈ rows :=
  (mem_deleteWhere.mp h).1

theorem map_updateWhere {p' : Row' -> Bool} {f' : Row' -> Row'} (hp : forall r, p' (g r) = p r)
    (hf : forall r, g (f r) = f' (g r)) (rows : List Row) :
    (updateWhere p f rows).map g = updateWhere p' f' (rows.map g) := by
  unfold updateWhere
  rw [List.map_map, List.map_map]
  apply List.map_congr_left
  intro r _
  simp only [Function.comp_apply, hp]
  split
  · exact hf r
  · rfl

theorem map_updateWhere_of_mem {Col : Type} {g : Row -> Col} {rows : List Row}
    (h : forall r, r ∈ rows -> p r = true -> g (f r) = g r) :
    (updateWhere p f rows).map g = rows.map g := by
  unfold updateWhere
  rw [List.map_map]
  apply List.map_congr_left
  intro r hr
  simp only [Function.comp_apply]
  split
  · rename_i hp
    exact h r hr hp
  · rfl

/-- An update the columns do not show. -/
theorem map_updateWhere_eq {Col : Type} {g : Row -> Col} (h : forall r, g (f r) = g r)
    (rows : List Row) :
    (updateWhere p f rows).map g = rows.map g :=
  map_updateWhere_of_mem (fun r _ _ => h r)

theorem map_deleteWhere {p' : Row' -> Bool} (hp : forall r, p' (g r) = p r) (rows : List Row) :
    (deleteWhere p rows).map g = deleteWhere p' (rows.map g) := by
  unfold deleteWhere
  rw [List.filter_map]
  congr 1
  apply List.filter_congr
  intro r _
  simp only [Function.comp_apply, hp]

theorem map_upsert {conflict : Row -> Bool} {conflict' : Row' -> Bool} {f' : Row' -> Row'}
    (hc : forall r, conflict' (g r) = conflict r) (hf : forall r, g (f r) = f' (g r)) (new : Row)
    (rows : List Row) :
    (upsert conflict f new rows).map g = upsert conflict' f' (g new) (rows.map g) := by
  unfold upsert
  rw [List.any_map, show conflict' ∘ g = conflict from funext hc]
  split
  · exact map_updateWhere hc hf rows
  · rw [List.map_append]
    rfl

/-!
## One statement for every element
-/

theorem foldl_deleteWhere (p : alpha -> Row -> Bool) (xs : List alpha) (rows : List Row) :
    xs.foldl (fun rows x => deleteWhere (p x) rows) rows =
      deleteWhere (fun r => xs.any fun x => p x r) rows := by
  induction xs generalizing rows with
  | nil => simp [deleteWhere]
  | cons x xs ih =>
      rw [List.foldl_cons, ih]
      unfold deleteWhere
      rw [List.filter_filter]
      apply List.filter_congr
      intro r _
      simp only [List.any_cons, Bool.not_or, Bool.and_comm]

theorem foldl_append (row : alpha -> Row) (xs : List alpha) (rows : List Row) :
    xs.foldl (fun rows x => rows ++ [row x]) rows = rows ++ xs.map row := by
  induction xs generalizing rows with
  | nil => simp
  | cons x xs ih =>
      rw [List.foldl_cons, ih, List.append_assoc, List.map_cons, List.singleton_append]

/-!
## `ORDER BY`
-/

section Order

variable {le : Row -> Row -> Prop} [DecidableRel le]

theorem filter_orderedInsert (htied : forall a b, p a = true -> p b = true -> le a b) (a : Row)
    (rows : List Row) :
    (rows.orderedInsert le a).filter p = (a :: rows).filter p := by
  induction rows with
  | nil => rfl
  | cons b rows ih =>
      rw [List.orderedInsert_cons]
      by_cases hle : le a b
      · rw [if_pos hle]
      · rw [if_neg hle, List.filter_cons, ih]
        -- Only one of two rows in order can be among the tied ones.
        cases ha : p a with
        | false => simp [List.filter_cons, ha]
        | true =>
            cases hb : p b with
            | false => simp [List.filter_cons, hb]
            | true => exact absurd (htied a b ha hb) hle

/-- The sort keeps the order among rows it does not tell apart. -/
theorem filter_insertionSort (htied : forall a b, p a = true -> p b = true -> le a b)
    (rows : List Row) :
    (rows.insertionSort le).filter p = rows.filter p := by
  induction rows with
  | nil => rfl
  | cons a rows ih =>
      rw [List.insertionSort_cons, filter_orderedInsert htied, List.filter_cons,
        List.filter_cons, ih]

end Order

/-!
## Statements that change nothing
-/

/-- A deletion that leaves every row of a view deletes nothing, when all it
could delete is in the view. -/
theorem deleteWhere_eq_of_filter {rows : List Row} (hpq : forall r, p r = true -> q r = true)
    (h : (deleteWhere p rows).filter q = rows.filter q) : deleteWhere p rows = rows := by
  unfold deleteWhere
  rw [List.filter_eq_self]
  intro r hr
  rw [Bool.not_eq_true']
  by_contra hp
  rw [Bool.not_eq_false] at hp
  have hmem : r ∈ (deleteWhere p rows).filter q := by
    rw [h]
    exact List.mem_filter.mpr ⟨hr, hpq r hp⟩
  have hkept := (mem_deleteWhere.mp (List.mem_filter.mp hmem).1).2
  rw [hp] at hkept
  cases hkept

section Count

variable [DecidableEq Row]

theorem count_le_count_updateWhere (p : Row -> Bool) (new : Row) (rows : List Row) :
    rows.count new ≤ (updateWhere p (fun _ => new) rows).count new := by
  induction rows with
  | nil => exact Nat.le_refl 0
  | cons r rows ih =>
      rw [updateWhere_cons, List.count_cons, List.count_cons]
      by_cases hp : p r = true
      · rw [if_pos hp, beq_self_eq_true, if_pos rfl]
        split <;> omega
      · rw [if_neg hp]
        omega

/-- Overwriting rows with one that does not become more frequent changes none. -/
theorem updateWhere_eq_of_count {rows : List Row}
    (h : (updateWhere p (fun _ => new) rows).count new = rows.count new) :
    updateWhere p (fun _ => new) rows = rows := by
  induction rows with
  | nil => rfl
  | cons r rows ih =>
      have hle := count_le_count_updateWhere p new rows
      rw [updateWhere_cons, List.count_cons, List.count_cons] at h
      rw [updateWhere_cons]
      by_cases hp : p r = true
      · rw [if_pos hp, beq_self_eq_true, if_pos rfl] at h
        rw [if_pos hp]
        by_cases hr : r = new
        · rw [hr, beq_self_eq_true, if_pos rfl] at h
          rw [hr, ih (by omega)]
        · rw [if_neg (by simpa using hr)] at h
          omega
      · rw [if_neg hp] at h ⊢
        rw [ih (by omega)]

theorem upsert_eq_of_filter {conflict : Row -> Bool} {rows : List Row} (hnew : q new = true)
    (h : (upsert conflict (fun _ => new) new rows).filter q = rows.filter q) :
    upsert conflict (fun _ => new) new rows = rows := by
  have hcount : (upsert conflict (fun _ => new) new rows).count new = rows.count new := by
    rw [← List.count_filter hnew, h, List.count_filter hnew]
  unfold upsert at hcount ⊢
  split
  · rename_i hany
    rw [if_pos hany] at hcount
    exact updateWhere_eq_of_count hcount
  · rename_i hany
    rw [if_neg hany, List.count_append, List.count_singleton_self] at hcount
    omega

end Count

/-!
## Keys
-/

section Keys

variable {Key : Type} {key : Row -> Key} {rows : List Row}

theorem nodup_deleteWhere (h : (rows.map key).Nodup) (p : Row -> Bool) :
    ((deleteWhere p rows).map key).Nodup :=
  h.sublist (List.filter_sublist.map key)

theorem nodup_append (h : (rows.map key).Nodup) (hnew : forall r, r ∈ rows -> key r ≠ key new) :
    ((rows ++ [new]).map key).Nodup := by
  rw [List.map_append, List.nodup_append]
  refine ⟨h, List.nodup_singleton _, fun k hk k' hk' => ?_⟩
  rcases List.mem_map.mp hk with ⟨r, hr, rfl⟩
  rw [List.map_singleton, List.mem_singleton] at hk'
  rw [hk']
  exact hnew r hr

/-- An update that changes keys: the changed ones stay apart and meet no other. -/
theorem nodup_updateWhere (h : (rows.map key).Nodup)
    (hinj : forall r s, r ∈ rows -> s ∈ rows -> p r = true -> p s = true ->
      key (f r) = key (f s) -> key r = key s)
    (hfree : forall r s, r ∈ rows -> s ∈ rows -> p r = true -> p s = false ->
      key (f r) ≠ key s) : ((updateWhere p f rows).map key).Nodup := by
  have hpairs : rows.Pairwise (fun r s => key r ≠ key s) := List.pairwise_map.mp h
  unfold updateWhere
  rw [List.map_map, List.Nodup, List.pairwise_map]
  refine hpairs.imp_of_mem (fun {r s} hr hs hne => ?_)
  simp only [Function.comp_apply]
  cases hpr : p r with
  | true =>
      cases hps : p s with
      | true => exact fun heq => hne (hinj r s hr hs hpr hps heq)
      | false => exact hfree r s hr hs hpr hps
  | false =>
      cases hps : p s with
      | true => exact (hfree s r hs hr hps hpr).symm
      | false => exact hne

theorem eq_of_key_eq (h : (rows.map key).Nodup) {s : Row} (hr : r ∈ rows) (hs : s ∈ rows)
    (hkey : key r = key s) : r = s :=
  List.inj_on_of_nodup_map h hr hs hkey

theorem perm_deleteWhere_append (h : (rows.map key).Nodup) {b : Row} (hb : b ∈ rows)
    (hp : forall r, r ∈ rows -> (p r = true <-> key r = key b)) :
    (deleteWhere p rows ++ [b]).Perm rows := by
  have hpb : p b = true := (hp b hb).mpr rfl
  have hnot : b ∉ deleteWhere p rows := by
    intro hmem
    rw [(mem_deleteWhere.mp hmem).2] at hpb
    cases hpb
  have hleft : (deleteWhere p rows ++ [b]).Nodup :=
    (h.of_map.sublist List.filter_sublist).append (List.nodup_singleton b)
      (List.disjoint_singleton.mpr hnot)
  apply (List.perm_ext_iff_of_nodup hleft h.of_map).mpr
  intro r
  rw [List.mem_append, List.mem_singleton, mem_deleteWhere]
  constructor
  · rintro (hkept | rfl)
    · exact hkept.1
    · exact hb
  · intro hr
    cases hpr : p r with
    | false => exact Or.inl ⟨hr, rfl⟩
    | true => exact Or.inr (eq_of_key_eq h hr hb ((hp r hr).mp hpr))

theorem countP_eq_one (h : (rows.map key).Nodup) {b : Row} (hb : b ∈ rows)
    (hp : forall r, r ∈ rows -> (p r = true <-> key r = key b)) :
    rows.countP p = 1 := by
  have hnone : (deleteWhere p rows).countP p = 0 := by
    rw [List.countP_eq_zero]
    intro r hr
    rw [(mem_deleteWhere.mp hr).2]
    exact Bool.false_ne_true
  rw [← (perm_deleteWhere_append h hb hp).countP_eq p, List.countP_append, hnone,
    List.countP_singleton, if_pos ((hp b hb).mpr rfl)]

end Keys

/-!
## The first row of a key
-/

theorem find?_updateWhere_of_mem {rows : List Row}
    (hq : forall r, r ∈ rows -> p r = true -> q (f r) = q r) :
    (updateWhere p f rows).find? q = (rows.find? q).map fun r => if p r then f r else r := by
  induction rows with
  | nil => rfl
  | cons r rows ih =>
      have hsame : q (if p r then f r else r) = q r := by
        split
        · rename_i hp
          exact hq r List.mem_cons_self hp
        · rfl
      rw [updateWhere_cons, List.find?_cons, List.find?_cons, hsame,
        ih (fun s hs => hq s (List.mem_cons_of_mem _ hs))]
      cases q r <;> rfl

theorem find?_updateWhere (hq : forall r, q (f r) = q r) (rows : List Row) :
    (updateWhere p f rows).find? q = (rows.find? q).map fun r => if p r then f r else r :=
  find?_updateWhere_of_mem (fun r _ _ => hq r)

theorem find?_deleteWhere_self (q : Row -> Bool) (rows : List Row) :
    (deleteWhere q rows).find? q = none := by
  rw [List.find?_eq_none]
  intro r hr hq
  rw [(mem_deleteWhere.mp hr).2] at hq
  cases hq

theorem find?_deleteWhere (h : forall r, q r = true -> p r = false) (rows : List Row) :
    (deleteWhere p rows).find? q = rows.find? q := by
  unfold deleteWhere
  rw [List.find?_filter]
  congr 1
  funext r
  cases hq : q r with
  | false => simp
  | true => simp [h r hq]

theorem find?_eq_of_mem {Key : Type} {key : Row -> Key} {rows : List Row} (h : (rows.map key).Nodup)
    (hq : forall r s, q r = true -> q s = true -> key r = key s) (hr : r ∈ rows) (hqr : q r = true)
    : rows.find? q = some r := by
  cases hfind : rows.find? q with
  | none =>
      rw [List.find?_eq_none] at hfind
      exact absurd hqr (hfind r hr)
  | some s =>
      have hs := List.mem_of_find?_eq_some hfind
      have hqs := List.find?_some hfind
      rw [eq_of_key_eq h hs hr (hq s r hqs hqr)]

/-- The value of a key that stands in a list of pairs once. -/
theorem lookup_of_mem {Key Value : Type} [BEq Key] [LawfulBEq Key] {rows : List (Key × Value)}
    (h : (rows.map Prod.fst).Nodup) {k : Key} {v : Value} (hmem : (k, v) ∈ rows) :
    rows.lookup k = some v := by
  induction rows with
  | nil => cases hmem
  | cons row rows ih =>
      rw [List.map_cons, List.nodup_cons] at h
      rw [List.lookup_cons]
      rcases List.mem_cons.mp hmem with rfl | hmem
      · rw [beq_self_eq_true]
      · have hne : (k == row.1) = false := by
          rw [beq_eq_false_iff_ne]
          rintro rfl
          exact h.1 (List.mem_map.mpr ⟨_, hmem, rfl⟩)
        rw [hne]
        exact ih h.2 hmem

theorem mem_of_lookup {Key Value : Type} [BEq Key] [LawfulBEq Key] {rows : List (Key × Value)}
    {k : Key} {v : Value} (h : rows.lookup k = some v) : (k, v) ∈ rows := by
  induction rows with
  | nil => cases h
  | cons row rest ih =>
      rw [List.lookup_cons] at h
      split at h
      · rename_i hk
        rw [beq_iff_eq] at hk
        cases h
        rw [hk]
        exact List.mem_cons_self
      · exact List.mem_cons_of_mem _ (ih h)

theorem forall₂_exists_right {beta : Type} {R : alpha -> beta -> Prop} {xs : List alpha}
    {ys : List beta} (h : List.Forall₂ R xs ys) {x : alpha} (hx : x ∈ xs) :
    exists y, y ∈ ys ∧ R x y := by
  induction h with
  | nil => cases hx
  | cons hxy _ ih =>
      rcases List.mem_cons.mp hx with rfl | hx
      · exact ⟨_, List.mem_cons_self, hxy⟩
      · rcases ih hx with ⟨y, hy, hR⟩
        exact ⟨y, List.mem_cons_of_mem _ hy, hR⟩

theorem forall₂_exists_left {beta : Type} {R : alpha -> beta -> Prop} {xs : List alpha}
    {ys : List beta} (h : List.Forall₂ R xs ys) {y : beta} (hy : y ∈ ys) :
    exists x, x ∈ xs ∧ R x y :=
  forall₂_exists_right h.flip hy

/-!
## Rows outside a statement
-/

theorem filter_updateWhere {rows : List Row}
    (h : forall r, r ∈ rows -> p r = true -> q r = false ∧ q (f r) = false) :
    (updateWhere p f rows).filter q = rows.filter q := by
  induction rows with
  | nil => rfl
  | cons r rows ih =>
      have ih' := ih (fun s hs => h s (List.mem_cons_of_mem r hs))
      rw [updateWhere_cons, List.filter_cons, List.filter_cons, ih']
      cases hp : p r with
      | false => rfl
      | true =>
          rcases h r List.mem_cons_self hp with ⟨hq, hqf⟩
          simp [hq, hqf]

theorem map_filter_updateWhere {Col : Type} {g : Row -> Col} {rows : List Row}
    (h : forall r, r ∈ rows -> p r = true -> q (f r) = q r ∧ g (f r) = g r) :
    ((updateWhere p f rows).filter q).map g = (rows.filter q).map g := by
  induction rows with
  | nil => rfl
  | cons r rows ih =>
      have ih' := ih (fun s hs => h s (List.mem_cons_of_mem r hs))
      rw [updateWhere_cons, List.filter_cons, List.filter_cons]
      cases hp : p r with
      | false =>
          rw [if_neg Bool.false_ne_true]
          split
          · rw [List.map_cons, List.map_cons, ih']
          · exact ih'
      | true =>
          rcases h r List.mem_cons_self hp with ⟨hq, hg⟩
          rw [if_pos rfl, hq]
          split
          · rw [List.map_cons, List.map_cons, ih', hg]
          · exact ih'

theorem filter_deleteWhere {rows : List Row} (h : forall r, r ∈ rows -> p r = true -> q r = false) :
    (deleteWhere p rows).filter q = rows.filter q := by
  unfold deleteWhere
  rw [List.filter_filter]
  apply List.filter_congr
  intro r hr
  cases hp : p r with
  | false => simp
  | true => simp [h r hr hp]

/-!
## Counting rows
-/

theorem countP_updateWhere_le {rows : List Row}
    (h : forall r, r ∈ rows -> p r = true -> q (f r) = true -> q r = true) :
    (updateWhere p f rows).countP q ≤ rows.countP q := by
  unfold updateWhere
  rw [List.countP_map]
  refine List.countP_mono_left (fun r hr hq => ?_)
  by_cases hp : p r = true
  · simp only [Function.comp_apply, hp, if_true] at hq
    exact h r hr hp hq
  · simpa [Function.comp_apply, hp] using hq

theorem countP_updateWhere_le_add (p q : Row -> Bool) (f : Row -> Row) (rows : List Row) :
    (updateWhere p f rows).countP q ≤ rows.countP q + rows.countP p := by
  induction rows with
  | nil => exact Nat.le_refl 0
  | cons r rows ih =>
      have hhead : (if q (if p r then f r else r) = true then 1 else 0) ≤
          (if q r = true then 1 else 0) + (if p r = true then 1 else 0) := by
        cases hp : p r with
        | true =>
            simp only [if_true]
            split <;> omega
        | false => simp
      unfold updateWhere at ih ⊢
      rw [List.map_cons, List.countP_cons, List.countP_cons, List.countP_cons]
      omega

theorem countP_deleteWhere_le (p q : Row -> Bool) (rows : List Row) :
    (deleteWhere p rows).countP q ≤ rows.countP q :=
  List.filter_sublist.countP_le

/-!
## Views

A view of a table is the image of the rows it selects.  A statement that only
touches rows outside a view, or whose change the view does not show, leaves the
view as it was.
-/

variable {Col : Type}

def view (sel : Row -> Option Col) (rows : List Row) : List Col :=
  rows.filterMap sel

end Table
end FleetServer
