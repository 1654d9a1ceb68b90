import FleetServer.Core.SelectorJson
import FleetServer.Core.Spelling
import FleetServer.Web.Cells
import FleetServer.Web.IniText
import FleetServer.Web.Objects

/-!
# Imported documents

`targetPathError`, `targetConflicts`, `unflatten` and `buildDocuments` of `parse.ts`:
the columns of a table become the keys of nested documents.  Members stand in the
order they were set; the order JavaScript lists integer keys in is not modelled.
-/

namespace FleetServer
namespace Web

open FleetServer.Core
open Core.Json

/-!
# Targets
-/

def maxTargetLen : Nat := 512

/-- `target.split(".")` -/
def targetKeys (target : String) : List String :=
  (splitOn '.' target.toList).map String.ofList

def targetPathError (path : String) : Option String :=
  if path = "" then some "Required"
  else if maxTargetLen < (utf16 path).length then
    some ("Longer than " ++ toString maxTargetLen ++ " characters")
  else if path.toList.any fun c => c == '[' || c == ']' then some "[ and ] are not allowed"
  else if (targetKeys path).any (· == "") then
    some "Empty key (leading, trailing or double dot)"
  else none

/-- `b.startsWith(a + ".")` -/
def isInside (b a : String) : Bool :=
  (a.toList ++ ['.']).isPrefixOf b.toList

/-- What is wrong with the target `a` next to the target `b`. -/
def conflictWith (a b : String) : Option String :=
  if a = "" ∨ b = "" then none
  else if a = b then some "Same target as another column"
  else if isInside b a then some ("\"" ++ b ++ "\" is nested inside this path")
  else if isInside a b then some ("Nested inside \"" ++ b ++ "\", which is a value")
  else none

/-- The colliding targets by index; of several collisions the last one is told. -/
def targetConflicts (targets : List String) : List (Nat × String) :=
  targets.zipIdx.filterMap fun a =>
    let found := targets.zipIdx.filterMap fun b =>
      if a.2 = b.2 then none else conflictWith a.1 b.1
    found.getLast?.map fun message => (a.2, message)

/-!
# Documents
-/

def setPath : List String -> Json -> List Member -> List Member
  | [], _, members => members
  | [k], v, members => mapSet k v members
  | k :: keys, v, members =>
      let next :=
        match members.lookup k with
        | some (object inner) => inner
        | _ => []
      mapSet k (object (setPath keys v next)) members

def unflatten (entries : List (String × Json)) : List Member :=
  entries.foldl (fun root e => setPath (targetKeys e.1) e.2 root) []

structure ColumnMapping where
  included : Bool
  target : String
  type : ColumnType

/-- The rows of a table; a row may be short of cells and a cell may be undefined. -/
structure Table where
  rows : List (List (Option Json))

structure CellError where
  row : Nat
  column : Nat
  message : String

structure Built where
  documents : List (List Member)
  errors : List CellError
  errorCount : Nat

def cellAt (row : List (Option Json)) (i : Nat) : Option Json :=
  (row[i]?).join

def usedColumns (mapping : List ColumnMapping) : List (ColumnMapping × Nat) :=
  mapping.zipIdx.filter fun m => m.1.included && (targetPathError m.1.target).isNone

def columnEntry (engine : Engine) (row : List (Option Json)) (m : ColumnMapping × Nat) :
    Option (String × Json) :=
  match coerceCell engine (cellAt row m.2) m.1.type with
  | Coerced.value v => v.map fun v => (m.1.target, v)
  | Coerced.error _ => none

def columnError (engine : Engine) (row : List (Option Json)) (r : Nat)
    (m : ColumnMapping × Nat) : Option CellError :=
  match coerceCell engine (cellAt row m.2) m.1.type with
  | Coerced.value _ => none
  | Coerced.error message => some { row := r, column := m.2, message := message }

def rowEntries (engine : Engine) (used : List (ColumnMapping × Nat))
    (row : List (Option Json)) : List (String × Json) :=
  used.filterMap (columnEntry engine row)

def buildDocuments (engine : Engine) (table : Table) (mapping : List ColumnMapping)
    (maxErrors : Nat) : Built :=
  let used := usedColumns mapping
  let errors := table.rows.zipIdx.flatMap fun row =>
    used.filterMap (columnError engine row.1 row.2)
  { documents := table.rows.map fun row => unflatten (rowEntries engine used row)
    errors := errors.take maxErrors
    errorCount := errors.length }

/-!
# Values by path
-/

def reach : List String -> Json -> Option Json
  | [], v => some v
  | k :: keys, v => (v.get k).bind (reach keys)

variable {p q keys rest : List String} {k l : String} {u v : Json} {members : List Member}

theorem reach_set (k : String) (v : Json) (keys : List String) :
    reach (k :: keys) (object (mapSet k v members)) = reach keys v := by
  show (List.lookup k (mapSet k v members)).bind _ = _
  rw [lookup_mapSet, if_pos rfl]
  rfl

theorem reach_set_other (h : l ≠ k) :
    reach (l :: keys) (object (mapSet k v members)) =
      reach (l :: keys) (object members) := by
  show (List.lookup l (mapSet k v members)).bind _ = _
  rw [lookup_mapSet, if_neg h]
  rfl

def mapUnder (k : String) (members : List Member) : List Member :=
  match members.lookup k with
  | some (object inner) => inner
  | _ => []

theorem setPath_cons (k l : String) (keys : List String) (v : Json) (members : List Member) :
    setPath (k :: l :: keys) v members =
      mapSet k (object (setPath (l :: keys) v (mapUnder k members))) members :=
  rfl

theorem reach_mapUnder :
    reach (l :: keys) (object (mapUnder k members)) =
      reach (k :: l :: keys) (object members) := by
  show _ = (List.lookup k members).bind _
  unfold mapUnder
  cases List.lookup k members with
  | none => rfl
  | some v =>
      cases v with
      | object inner => rfl
      | null => rfl
      | bool b => rfl
      | number t => rfl
      | string s => rfl
      | array items => rfl

/-!
# One value set
-/

theorem reach_setPath_beneath (hq : q ≠ []) :
    reach (q ++ rest) (object (setPath q v members)) = reach rest v := by
  induction q generalizing members with
  | nil => exact absurd rfl hq
  | cons k q ih =>
      cases q with
      | nil => exact reach_set k v rest
      | cons l q =>
          rw [setPath_cons]
          show reach (k :: (l :: q ++ rest)) _ = _
          rw [reach_set]
          exact ih (List.cons_ne_nil l q)

theorem reach_setPath_above (hp : p <+: q) (hne : p ≠ q) :
    exists inner, reach p (object (setPath q v members)) = some (object inner) := by
  induction q generalizing p members with
  | nil => exact absurd (List.prefix_nil.mp hp) hne
  | cons k q ih =>
      cases p with
      | nil => exact ⟨_, rfl⟩
      | cons l p =>
          rw [List.cons_prefix_cons] at hp
          rcases hp with ⟨rfl, hp⟩
          have hrest : p ≠ q := fun h => hne (congrArg (List.cons l) h)
          cases q with
          | nil => exact absurd (List.prefix_nil.mp hp) hrest
          | cons k q =>
              rw [setPath_cons, reach_set]
              exact ih hp hrest

theorem reach_setPath_apart (hp : ¬ p <+: q) (hq : ¬ q <+: p) :
    reach p (object (setPath q v members)) = reach p (object members) := by
  induction q generalizing p members with
  | nil => exact absurd List.nil_prefix hq
  | cons k q ih =>
      cases p with
      | nil => exact absurd List.nil_prefix hp
      | cons l p =>
          by_cases hl : l = k
          · subst hl
            have hp' : ¬ p <+: q := fun h => hp (List.cons_prefix_cons.mpr ⟨rfl, h⟩)
            have hq' : ¬ q <+: p := fun h => hq (List.cons_prefix_cons.mpr ⟨rfl, h⟩)
            cases q with
            | nil => exact absurd List.nil_prefix hq'
            | cons k q =>
                cases p with
                | nil => exact absurd List.nil_prefix hp'
                | cons m p =>
                    rw [setPath_cons, reach_set, ih hp' hq', reach_mapUnder]
          · cases q with
            | nil => exact reach_set_other hl
            | cons m q =>
                rw [setPath_cons]
                exact reach_set_other hl

/-!
# All values set
-/

/-- Neither path lies on the way to the other. -/
def Apart (p q : List String) : Prop :=
  ¬ p <+: q ∧ ¬ q <+: p

/-- The document holds the entries, the maps that lead to them, and nothing else. -/
structure Nested (entries : List (String × Json)) (members : List Member) : Prop where
  beneath : forall e, e ∈ entries -> forall rest : List String,
    reach (targetKeys e.1 ++ rest) (object members) = reach rest e.2
  above : forall e, e ∈ entries -> forall p : List String, p <+: targetKeys e.1 ->
    p ≠ targetKeys e.1 -> exists inner, reach p (object members) = some (object inner)
  elsewhere : forall p : List String, p ≠ [] ->
    (forall e, e ∈ entries -> Apart p (targetKeys e.1)) -> reach p (object members) = none

theorem targetKeys_ne_nil (target : String) : targetKeys target ≠ [] := by
  intro h
  exact splitOn_ne_nil _ _ (List.map_eq_nil_iff.mp h)

theorem nested_nil : Nested [] [] where
  beneath e he := by cases he
  above e he := by cases he
  elsewhere p hp _ := by
    cases p with
    | nil => exact absurd rfl hp
    | cons k p => rfl

variable {entries : List (String × Json)} {e : String × Json}

theorem nested_setPath (h : Nested entries members)
    (hapart : forall d, d ∈ entries -> Apart (targetKeys d.1) (targetKeys e.1)) :
    Nested (entries ++ [e]) (setPath (targetKeys e.1) e.2 members) := by
  have hne := targetKeys_ne_nil e.1
  constructor
  · intro d hd rest
    rcases List.mem_append.mp hd with hd | hd
    · have hd' := hapart d hd
      rw [reach_setPath_apart, h.beneath d hd]
      · -- A path through `d` is no way to `e`, or `d` would be one.
        intro hp
        exact hd'.1 ((List.prefix_append _ _).trans hp)
      · intro hp
        rcases List.prefix_or_prefix_of_prefix hp (List.prefix_append _ rest) with h' | h'
        · exact hd'.2 h'
        · exact hd'.1 h'
    · rw [List.mem_singleton.mp hd]
      exact reach_setPath_beneath hne
  · intro d hd p hp hpne
    rcases List.mem_append.mp hd with hd | hd
    · have hd' := hapart d hd
      by_cases habove : p <+: targetKeys e.1
      · apply reach_setPath_above habove
        rintro rfl
        exact hd'.2 hp
      · rw [reach_setPath_apart habove]
        · exact h.above d hd p hp hpne
        · intro hq
          exact hd'.2 (hq.trans hp)
    · rw [List.mem_singleton.mp hd] at hp hpne
      exact reach_setPath_above hp hpne
  · intro p hpne hp
    have he := hp e (List.mem_append_right _ (List.mem_singleton.mpr rfl))
    rw [reach_setPath_apart he.1 he.2]
    exact h.elsewhere p hpne fun d hd => hp d (List.mem_append_left _ hd)

theorem nested_unflatten
    (h : entries.Pairwise fun d e => Apart (targetKeys d.1) (targetKeys e.1)) :
    Nested entries (unflatten entries) := by
  induction entries using List.reverseRecOn with
  | nil => exact nested_nil
  | append_singleton entries e ih =>
      rw [List.pairwise_append] at h
      unfold unflatten at ih ⊢
      rw [List.foldl_append]
      apply nested_setPath (ih h.1)
      intro d hd
      exact h.2.2 d hd e (List.mem_singleton.mpr rfl)

/-!
# Targets as paths
-/

variable {a b target : String}

theorem intercalate_targetKeys (target : String) :
    List.intercalate ['.'] ((targetKeys target).map String.toList) = target.toList := by
  have hmap : (targetKeys target).map String.toList = splitOn '.' target.toList := by
    unfold targetKeys
    rw [List.map_map]
    have hid : String.toList ∘ String.ofList = id := by
      funext xs
      exact String.toList_ofList
    rw [hid, List.map_id]
  rw [hmap, splitOn_eq]
  exact List.intercalate_splitOn '.'

theorem intercalate_append {sep : List Char} {xs ys : List (List Char)} (hx : xs ≠ [])
    (hy : ys ≠ []) :
    List.intercalate sep (xs ++ ys) =
      List.intercalate sep xs ++ sep ++ List.intercalate sep ys := by
  induction xs with
  | nil => exact absurd rfl hx
  | cons x xs ih =>
      cases xs with
      | nil =>
          cases ys with
          | nil => exact absurd rfl hy
          | cons y ys =>
              show List.intercalate sep (x :: y :: ys) = _
              rw [List.intercalate_cons_cons, List.intercalate_singleton]
      | cons x' xs =>
          show List.intercalate sep (x :: x' :: (xs ++ ys)) = _
          rw [List.intercalate_cons_cons, List.intercalate_cons_cons]
          have hrest := ih (List.cons_ne_nil x' xs)
          rw [List.cons_append] at hrest
          rw [hrest]
          simp only [List.append_assoc]

theorem prefix_targetKeys (h : targetKeys a <+: targetKeys b) : a = b ∨ isInside b a = true := by
  rcases h with ⟨more, hmore⟩
  cases more with
  | nil =>
      left
      rw [List.append_nil] at hmore
      apply String.toList_injective
      rw [← intercalate_targetKeys, hmore, intercalate_targetKeys]
  | cons k more =>
      right
      have hjoined := intercalate_targetKeys b
      rw [← hmore, List.map_append, intercalate_append, intercalate_targetKeys] at hjoined
      · unfold isInside
        rw [List.isPrefixOf_iff_prefix, ← hjoined]
        exact List.prefix_append _ _
      · intro hnil
        exact targetKeys_ne_nil a (List.map_eq_nil_iff.mp hnil)
      · exact List.cons_ne_nil _ _

theorem apart_of_no_conflict (ha : a ≠ "") (hb : b ≠ "") (h : conflictWith a b = none) :
    Apart (targetKeys a) (targetKeys b) := by
  unfold conflictWith at h
  rw [if_neg (not_or.mpr ⟨ha, hb⟩)] at h
  split at h
  · cases h
  · rename_i hne
    split at h
    · cases h
    · rename_i hinside
      split at h
      · cases h
      · rename_i hinside'
        constructor
        · intro hp
          rcases prefix_targetKeys hp with heq | hin
          · exact hne heq
          · exact hinside hin
        · intro hp
          rcases prefix_targetKeys hp with heq | hin
          · exact hne heq.symm
          · exact hinside' hin

theorem no_conflict {targets : List String} {i j : Nat} (h : targetConflicts targets = [])
    (ha : targets[i]? = some a) (hb : targets[j]? = some b) (hij : i ≠ j) :
    conflictWith a b = none := by
  unfold targetConflicts at h
  rw [List.filterMap_eq_nil_iff] at h
  have hi := h (a, i) (List.mk_mem_zipIdx_iff_getElem?.mpr ha)
  simp only [Option.map_eq_none_iff, List.getLast?_eq_none_iff,
    List.filterMap_eq_nil_iff] at hi
  have hj := hi (b, j) (List.mk_mem_zipIdx_iff_getElem?.mpr hb)
  simpa only [if_neg hij] using hj

theorem spellAll_keys (k : String) (keys : List String) :
    k.toList ++ FactStep.spellAll (keys.map FactStep.key) =
      List.intercalate ['.'] ((k :: keys).map String.toList) := by
  induction keys generalizing k with
  | nil => simp [FactStep.spellAll]
  | cons l keys ih =>
      have hrest := ih l
      rw [List.map_cons] at hrest
      rw [List.map_cons, List.map_cons, List.map_cons, List.intercalate_cons_cons, ← hrest]
      simp [FactStep.spellAll, FactStep.spell]

theorem plain_key (hbrackets : (target.toList.any fun c => c == '[' || c == ']') = false)
    (hk : k ∈ targetKeys target) (hne : k ≠ "") : (FactStep.key k).Plain := by
  rcases List.mem_map.mp hk with ⟨part, hpart, rfl⟩
  have hsplit := mem_splitOn hpart
  constructor
  · exact hne
  · rw [String.toList_ofList, List.any_eq_false]
    intro c hc hend
    have hmem := hsplit.2 c hc
    have hplain := List.any_eq_false.mp hbrackets c hmem
    unfold FactPath.isKeyEnd at hend
    simp only [Bool.or_eq_true, beq_iff_eq] at hend hplain
    rcases hend with (hdot | hopen) | hclose
    · rw [hdot] at hc
      exact hsplit.1 hc
    · exact hplain (Or.inl hopen)
    · exact hplain (Or.inr hclose)

theorem spells_target (h : targetPathError target = none) :
    target ≠ "" ∧ FactPath.Spells target ((targetKeys target).map FactStep.key) := by
  unfold targetPathError at h
  split at h
  · cases h
  · rename_i hne
    split at h
    · cases h
    · split at h
      · cases h
      · rename_i hbrackets
        split at h
        · cases h
        · rename_i hempty
          rw [Bool.not_eq_true] at hbrackets hempty
          have hplain : forall step, step ∈ (targetKeys target).map FactStep.key ->
              step.Plain := by
            intro step hstep
            rcases List.mem_map.mp hstep with ⟨k, hk, rfl⟩
            apply plain_key hbrackets hk
            simpa using List.any_eq_false.mp hempty k hk
          have hjoined := intercalate_targetKeys target
          cases hkeys : targetKeys target with
          | nil => exact absurd hkeys (targetKeys_ne_nil target)
          | cons k keys =>
              rw [hkeys, ← spellAll_keys] at hjoined
              rw [hkeys] at hplain
              exact ⟨hne, FactPath.Spells.beneath target k _ hjoined.symm hplain⟩

theorem tryFrom_target (h : targetPathError target = none) :
    (byteLen target ≤ maxFactPathLen ->
      exists path, FactPath.tryFrom target = Except.ok path ∧
        path.steps = (targetKeys target).map FactStep.key) ∧
    (maxFactPathLen < byteLen target -> forall path,
      FactPath.tryFrom target ≠ Except.ok path) := by
  rcases spells_target h with ⟨hne, hspells⟩
  rcases hspells.parse hne with ⟨path, hparse, hsteps⟩
  unfold FactPath.tryFrom
  constructor
  · intro hshort
    rw [if_neg (by omega), hparse]
    exact ⟨path, rfl, hsteps⟩
  · intro hlong path hpath
    rw [if_pos hlong] at hpath
    cases hpath

theorem walk_keys (hmaps : forall p : List String, p <+: keys -> p ≠ keys ->
      forall u, reach p v = some u -> u.isObject = true) :
    FactStep.walk (keys.map FactStep.key) [v] = (reach keys v).toList := by
  induction keys generalizing v with
  | nil => rfl
  | cons k keys ih =>
      have hobject := hmaps [] List.nil_prefix (List.cons_ne_nil k keys).symm v rfl
      have hstep : FactStep.values (FactStep.key k) v = (v.get k).toList := by
        cases v with
        | object members => rfl
        | null => cases hobject
        | bool b => cases hobject
        | number t => cases hobject
        | string s => cases hobject
        | array items => cases hobject
      show FactStep.walk (keys.map FactStep.key)
        ([v].flatMap (FactStep.values (FactStep.key k))) = ((v.get k).bind (reach keys)).toList
      rw [List.flatMap_singleton, hstep]
      cases hget : v.get k with
      | none =>
          show FactStep.walk _ [] = []
          unfold FactStep.walk
          induction keys.map FactStep.key with
          | nil => rfl
          | cons step steps ih => exact ih
      | some u =>
          apply ih
          intro p hp hne w hw
          apply hmaps (k :: p) (List.cons_prefix_cons.mpr ⟨rfl, hp⟩)
          · intro heq
            exact hne (List.cons.inj heq).2
          · show (v.get k).bind (reach p) = some w
            rw [hget]
            exact hw

/-!
# The documents of a table
-/

variable {engine : Engine} {mapping : List ColumnMapping} {row : List (Option Json)}
variable {m : ColumnMapping} {i : Nat}

def Maps (engine : Engine) (mapping : List ColumnMapping) (row : List (Option Json))
    (m : ColumnMapping) (v : Option Json) : Prop :=
  exists i, mapping[i]? = some m ∧ m.included = true ∧
    coerceCell engine (cellAt row i) m.type = Coerced.value v

/-- Selectors find what the columns put in, and there is nothing else to be found. -/
structure Carried (engine : Engine) (mapping : List ColumnMapping) (row : List (Option Json))
    (document : List Member) : Prop where
  reached : forall i m, mapping[i]? = some m -> m.included = true ->
    exists path v, FactPath.tryFrom m.target = Except.ok path ∧
      coerceCell engine (cellAt row i) m.type = Coerced.value v ∧
      path.resolve (object document) = v.toList
  nothing_else : forall keys v, keys ≠ [] -> reach keys (object document) = some v ->
    exists m u, Maps engine mapping row m (some u) ∧
      ((exists rest, keys = targetKeys m.target ++ rest ∧ reach rest u = some v) ∨
        (keys <+: targetKeys m.target ∧ v.isObject = true))

structure Mapped (mapping : List ColumnMapping) : Prop where
  targets : forall m, m ∈ mapping -> m.included = true -> targetPathError m.target = none
  conflicts : targetConflicts (mapping.map fun m => if m.included then m.target else "") = []

theorem mem_usedColumns (hmapped : Mapped mapping) :
    (m, i) ∈ usedColumns mapping <-> mapping[i]? = some m ∧ m.included = true := by
  unfold usedColumns
  rw [List.mem_filter, List.mk_mem_zipIdx_iff_getElem?, Bool.and_eq_true]
  constructor
  · rintro ⟨hm, hincluded, _⟩
    exact ⟨hm, hincluded⟩
  · rintro ⟨hm, hincluded⟩
    rw [hmapped.targets m (List.mem_of_getElem? hm) hincluded]
    exact ⟨hm, hincluded, rfl⟩

theorem target_apart {m' : ColumnMapping} {j : Nat} (hmapped : Mapped mapping)
    (hm : mapping[i]? = some m) (hincluded : m.included = true) (hm' : mapping[j]? = some m')
    (hincluded' : m'.included = true) (hij : i ≠ j) :
    Apart (targetKeys m.target) (targetKeys m'.target) := by
  have hne := (spells_target (hmapped.targets m (List.mem_of_getElem? hm) hincluded)).1
  have hne' := (spells_target (hmapped.targets m' (List.mem_of_getElem? hm') hincluded')).1
  apply apart_of_no_conflict hne hne'
  apply no_conflict hmapped.conflicts _ _ hij
  · rw [List.getElem?_map, hm, Option.map_some, if_pos hincluded]
  · rw [List.getElem?_map, hm', Option.map_some, if_pos hincluded']

theorem usedColumns_apart (hmapped : Mapped mapping) :
    (usedColumns mapping).Pairwise fun a b =>
      Apart (targetKeys a.1.target) (targetKeys b.1.target) := by
  have hindices : (usedColumns mapping).Pairwise fun a b => a.2 ≠ b.2 := by
    apply List.Pairwise.filter
    have hnodup : ((mapping.zipIdx).map Prod.snd).Nodup := by
      rw [List.zipIdx_map_snd]
      exact List.nodup_range'
    exact List.pairwise_map.mp hnodup
  apply hindices.imp_of_mem
  intro a b ha hb hne
  have ha := (mem_usedColumns hmapped).mp ha
  have hb := (mem_usedColumns hmapped).mp hb
  exact target_apart hmapped ha.1 ha.2 hb.1 hb.2 hne

theorem columnEntry_eq_some {d : String × Json} {a : ColumnMapping × Nat} :
    columnEntry engine row a = some d <->
      coerceCell engine (cellAt row a.2) a.1.type = Coerced.value (some d.2) ∧
        a.1.target = d.1 := by
  unfold columnEntry
  constructor
  · intro h
    split at h
    · rename_i v hv
      rcases Option.map_eq_some_iff.mp h with ⟨u, rfl, rfl⟩
      exact ⟨hv, rfl⟩
    · cases h
  · rintro ⟨hv, htarget⟩
    rw [hv, htarget]
    rfl

theorem mem_rowEntries {e : String × Json} (hmapped : Mapped mapping) :
    e ∈ rowEntries engine (usedColumns mapping) row <->
      exists m, Maps engine mapping row m (some e.2) ∧ m.target = e.1 := by
  unfold rowEntries
  rw [List.mem_filterMap]
  constructor
  · rintro ⟨⟨m, i⟩, hm, he⟩
    have hm := (mem_usedColumns hmapped).mp hm
    have he := columnEntry_eq_some.mp he
    exact ⟨m, ⟨i, hm.1, hm.2, he.1⟩, he.2⟩
  · rintro ⟨m, ⟨i, hm, hincluded, hv⟩, htarget⟩
    exact ⟨(m, i), (mem_usedColumns hmapped).mpr ⟨hm, hincluded⟩,
      columnEntry_eq_some.mpr ⟨hv, htarget⟩⟩

theorem rowEntries_apart (hmapped : Mapped mapping) :
    (rowEntries engine (usedColumns mapping) row).Pairwise fun d e =>
      Apart (targetKeys d.1) (targetKeys e.1) := by
  unfold rowEntries
  rw [List.pairwise_filterMap]
  apply (usedColumns_apart hmapped).imp
  intro a b hapart d hd e he
  rw [← (columnEntry_eq_some.mp hd).2, ← (columnEntry_eq_some.mp he).2]
  exact hapart

theorem rowEntries_nested (engine : Engine) (row : List (Option Json))
    (hmapped : Mapped mapping) :
    Nested (rowEntries engine (usedColumns mapping) row)
      (unflatten (rowEntries engine (usedColumns mapping) row)) :=
  nested_unflatten (rowEntries_apart hmapped)

theorem reach_comparable (hnested : Nested entries members) (hp : p ≠ [])
    (h : reach p (object members) = some v) :
    exists e, e ∈ entries ∧
      ((exists rest, p = targetKeys e.1 ++ rest ∧ reach rest e.2 = some v) ∨
        (p <+: targetKeys e.1 ∧ v.isObject = true)) := by
  by_contra hnone
  have hmissing := hnested.elsewhere p hp ?_
  · rw [hmissing] at h
    cases h
  · intro e he
    constructor
    · intro habove
      by_cases hsame : p = targetKeys e.1
      · apply hnone
        refine ⟨e, he, Or.inl ⟨[], (List.append_nil _).symm ▸ hsame, ?_⟩⟩
        have hbeneath := hnested.beneath e he []
        rw [List.append_nil, ← hsame, h] at hbeneath
        exact hbeneath.symm
      · rcases hnested.above e he p habove hsame with ⟨inner, hinner⟩
        rw [h] at hinner
        cases hinner
        exact hnone ⟨e, he, Or.inr ⟨habove, rfl⟩⟩
    · rintro ⟨rest, rfl⟩
      apply hnone
      refine ⟨e, he, Or.inl ⟨rest, rfl, ?_⟩⟩
      rw [← h, hnested.beneath e he rest]

theorem reach_target (hmapped : Mapped mapping) (hm : mapping[i]? = some m)
    (hincluded : m.included = true)
    {w : Option Json} (hw : coerceCell engine (cellAt row i) m.type = Coerced.value w) :
    FactStep.walk ((targetKeys m.target).map FactStep.key)
      [object (unflatten (rowEntries engine (usedColumns mapping) row))] = w.toList := by
  have hnested := rowEntries_nested engine row hmapped
  have hbetween : forall m' v, Maps engine mapping row m' (some v) ->
      m' = m ∧ w = some v ∨ Apart (targetKeys m.target) (targetKeys m'.target) := by
    rintro m' v ⟨j, hm', hincluded', hv⟩
    by_cases hij : i = j
    · left
      subst hij
      rw [hm] at hm'
      cases hm'
      rw [hw] at hv
      cases hv
      exact ⟨rfl, rfl⟩
    · right
      exact target_apart hmapped hm hincluded hm' hincluded' hij
  have hmaps : forall p : List String, p <+: targetKeys m.target -> p ≠ targetKeys m.target ->
      forall u, reach p (object (unflatten (rowEntries engine (usedColumns mapping) row)))
        = some u -> u.isObject = true := by
    intro p hp hne u hu
    by_cases hnil : p = []
    · subst hnil
      cases hu
      rfl
    · rcases reach_comparable hnested hnil hu with ⟨e, he, hat | hobject⟩
      · rcases hat with ⟨rest, rfl, _⟩
        rcases (mem_rowEntries hmapped).mp he with ⟨m', hm', htarget⟩
        rcases hbetween m' e.2 hm' with ⟨rfl, _⟩ | hapart
        · rw [htarget] at hp hne
          have hrest : rest = [] := by
            rcases hp with ⟨more, hmore⟩
            have hlength := congrArg List.length hmore
            simp only [List.length_append] at hlength
            apply List.eq_nil_of_length_eq_zero
            omega
          rw [hrest, List.append_nil] at hne
          exact absurd rfl hne
        · rw [htarget] at hapart
          exact absurd ((List.prefix_append _ rest).trans hp) hapart.2
      · exact hobject.2
  rw [walk_keys hmaps]
  congr 1
  cases hw' : w with
  | some v =>
      have he : (m.target, v) ∈ rowEntries engine (usedColumns mapping) row := by
        rw [mem_rowEntries hmapped]
        rw [hw'] at hw
        exact ⟨m, ⟨i, hm, hincluded, hw⟩, rfl⟩
      have hbeneath := hnested.beneath _ he []
      rw [List.append_nil] at hbeneath
      exact hbeneath
  | none =>
      apply hnested.elsewhere _ (targetKeys_ne_nil m.target)
      intro e he
      rcases (mem_rowEntries hmapped).mp he with ⟨m', hm', htarget⟩
      rcases hbetween m' e.2 hm' with ⟨_, hsome⟩ | hapart
      · rw [hw'] at hsome
        cases hsome
      · rw [← htarget]
        exact hapart

theorem carried (hmapped : Mapped mapping)
    (hcells : forall i m, mapping[i]? = some m -> m.included = true -> forall message,
      coerceCell engine (cellAt row i) m.type ≠ Coerced.error message)
    (hshort : forall m, m ∈ mapping -> m.included = true ->
      byteLen m.target ≤ maxFactPathLen) :
    Carried engine mapping row (unflatten (rowEntries engine (usedColumns mapping) row)) where
  reached i m hm hincluded := by
    have hmem := List.mem_of_getElem? hm
    have htarget := tryFrom_target (hmapped.targets m hmem hincluded)
    rcases htarget.1 (hshort m hmem hincluded) with ⟨path, hpath, hsteps⟩
    cases hcell : coerceCell engine (cellAt row i) m.type with
    | error message => exact absurd hcell (hcells i m hm hincluded message)
    | value v =>
        refine ⟨path, v, hpath, rfl, ?_⟩
        rw [FactPath.resolve_eq_walk, hsteps]
        exact reach_target hmapped hm hincluded hcell
  nothing_else keys v hkeys h := by
    rcases reach_comparable (rowEntries_nested engine row hmapped) hkeys h with ⟨e, he, hat⟩
    rcases (mem_rowEntries hmapped).mp he with ⟨m, hm, htarget⟩
    rw [← htarget] at hat
    exact ⟨m, e.2, hm, hat⟩

/-- Imported columns are what selectors find exactly when the targets are short enough
in UTF-8, the length the server limits. -/
theorem imported_columns_found_iff {table : Table} {maxErrors r : Nat}
    (hmapped : Mapped mapping) (hrow : table.rows[r]? = some row)
    (hcells : forall i m, mapping[i]? = some m -> m.included = true -> forall message,
      coerceCell engine (cellAt row i) m.type ≠ Coerced.error message) :
    (exists document,
      (buildDocuments engine table mapping maxErrors).documents[r]? = some document ∧
        Carried engine mapping row document) <->
      forall m, m ∈ mapping -> m.included = true -> byteLen m.target ≤ maxFactPathLen := by
  have hdocument : (buildDocuments engine table mapping maxErrors).documents[r]? =
      some (unflatten (rowEntries engine (usedColumns mapping) row)) := by
    show (table.rows.map _)[r]? = _
    rw [List.getElem?_map, hrow]
    rfl
  constructor
  · rintro ⟨document, _, hcarried⟩ m hm hincluded
    rcases List.mem_iff_getElem?.mp hm with ⟨i, hi⟩
    rcases hcarried.reached i m hi hincluded with ⟨path, v, hpath, _⟩
    by_contra hlong
    exact (tryFrom_target (hmapped.targets m hm hincluded)).2 (Nat.lt_of_not_le hlong) path hpath
  · intro hshort
    exact ⟨_, hdocument, carried hmapped hcells hshort⟩

def ownerMapping : List ColumnMapping :=
  [{ included := true, target := "cmdb.owner", type := ColumnType.string },
    { included := false, target := "", type := ColumnType.auto },
    { included := true, target := "cmdb.site", type := ColumnType.auto }]

def ownerRow : List (Option Json) :=
  [some (Json.string "ops"), some (Json.string "unused"), some (Json.bool true)]

theorem owner_mapped : Mapped ownerMapping where
  targets m hm hincluded := by
    cases List.mem_cons.mp hm with
    | inl heq =>
        subst heq
        decide
    | inr hm =>
        cases List.mem_cons.mp hm with
        | inl heq =>
            subst heq
            cases hincluded
        | inr hm =>
            rw [List.mem_singleton.mp hm]
            decide
  conflicts := by decide

theorem imported_columns_found_for_owner :
    (exists document,
      (buildDocuments integerEngine { rows := [ownerRow] } ownerMapping 50).documents[0]? =
        some document ∧ Carried integerEngine ownerMapping ownerRow document) <->
      forall m, m ∈ ownerMapping -> m.included = true -> byteLen m.target ≤ maxFactPathLen := by
  apply imported_columns_found_iff owner_mapped rfl
  intro i m hm hincluded message
  rcases i with - | - | - | i
  · cases hm
    intro h
    cases h
  · cases hm
    cases hincluded
  · cases hm
    intro h
    cases h
  · cases hm

theorem targetPathError_one_key {xs : List Char} (hne : xs ≠ [])
    (hunits : (xs.flatMap codeUnits).length ≤ maxTargetLen) (hdot : '.' ∉ xs)
    (hbrackets : (xs.any fun c => c == '[' || c == ']') = false) :
    targetPathError (String.ofList xs) = none := by
  have hnonempty : String.ofList xs ≠ "" := by
    intro h
    exact hne (String.ofList_eq_empty_iff.mp h)
  unfold targetPathError utf16 targetKeys
  rw [String.toList_ofList, if_neg hnonempty, if_neg (by omega), hbrackets,
    splitOn_plain hdot]
  simp [hne]

/-- 300 characters of two bytes each. -/
def longMapping : List ColumnMapping :=
  [{ included := true, target := String.ofList (List.replicate 300 'é')
     type := ColumnType.string }]

theorem long_target_not_found :
    Mapped longMapping ∧
      (forall i m, longMapping[i]? = some m -> m.included = true -> forall message,
        coerceCell integerEngine (cellAt [some (Json.string "x")] i) m.type ≠
          Coerced.error message) ∧
      ¬ exists document,
        (buildDocuments integerEngine { rows := [[some (Json.string "x")]] } longMapping
          50).documents[0]? = some document ∧
        Carried integerEngine longMapping [some (Json.string "x")] document := by
  have hmapped : Mapped longMapping := by
    constructor
    · intro m hm _
      rw [List.mem_singleton.mp hm]
      apply targetPathError_one_key
      · decide
      · rw [List.flatMap_replicate, List.length_flatten, List.map_replicate,
          List.sum_replicate_nat]
        decide
      · intro hdot
        exact absurd (List.eq_of_mem_replicate hdot) (by decide)
      · rw [List.any_eq_false]
        intro c hc
        rw [List.eq_of_mem_replicate hc]
        decide
    · rfl
  refine ⟨hmapped, ?_, ?_⟩
  · intro i m hm hincluded message
    rcases i with - | i
    · cases hm
      intro h
      cases h
    · cases hm
  · rintro ⟨document, _, hcarried⟩
    rcases hcarried.reached 0 _ rfl rfl with ⟨path, v, hpath, _⟩
    have hlong : maxFactPathLen < byteLen (String.ofList (List.replicate 300 'é')) := by
      rw [byteLen_replicate]
      decide
    exact (tryFrom_target (hmapped.targets _ List.mem_cons_self rfl)).2 hlong path hpath

end Web
end FleetServer
