import FleetServer.Web.Segments

/-!
# The table and the merged document

The table is kept row by row while the layers are walked; the agent merges the
layers as documents.  Both are replays of the same writes, which lose different
settings.
-/

namespace FleetServer
namespace Web

open FleetServer.Core
open Core.Json
open Replay

variable {rows : Rows} {row : EffectiveRow} {localeCompare : String -> String -> Int}
variable {layers : List Layer}

/-- A line of the table: section, key and rendered value. -/
structure Setting where
  section_ : String
  key : String
  text : String
deriving DecidableEq

def settingOf (path : List String) (v : Json) : Setting where
  section_ := sectionOf path.dropLast
  key := lastOf path
  text := render v

def rowGives : Write -> Setting -> Prop
  | Write.set p v, s => s = settingOf p v
  | Write.remove _, _ => False
  | Write.enter _, _ => False

def rowLoses : Write -> Setting -> Prop
  | Write.set p v, s =>
      rowId s.section_ s.key = rowId (settingOf p v).section_ (settingOf p v).key
  | Write.remove p, s => hit p s.section_ s.key = true
  | Write.enter _, _ => False

def beneath (path : List String) : Write -> Write
  | Write.set p v => Write.set (path ++ p) v
  | Write.remove p => Write.remove (path ++ p)
  | Write.enter p => Write.enter (path ++ p)

def tableStep (layer : Layer) (rows : Rows) : Write -> Rows
  | Write.set p v => setLeaf layer p.dropLast (lastOf p) v rows
  | Write.remove p => removeUnder layer p rows
  | Write.enter _ => rows

/-!
# The walk as a replay
-/

theorem beneath_under (path : List String) (k : String) (w : Write) :
    beneath path (w.under k) = beneath (path ++ [k]) w := by
  have hpath : forall p : List String, path ++ k :: p = (path ++ [k]) ++ p := by
    intro p
    rw [List.append_assoc]
    rfl
  cases w with
  | set p v => exact congrArg (fun p => Write.set p v) (hpath p)
  | remove p => exact congrArg Write.remove (hpath p)
  | enter p => exact congrArg Write.enter (hpath p)

theorem beneath_nil (w : Write) : beneath [] w = w := by
  cases w <;> rfl

theorem lastOf_concat (path : List String) (k : String) : lastOf (path ++ [k]) = k := by
  unfold lastOf
  rw [List.getLast?_concat]
  rfl

theorem tableStep_set (layer : Layer) (path : List String) (k : String) (v : Json)
    (rows : Rows) :
    tableStep layer rows (beneath path (Write.set [k] v)) = setLeaf layer path k v rows := by
  show setLeaf layer (path ++ [k]).dropLast (lastOf (path ++ [k])) v rows = _
  rw [List.dropLast_concat, lastOf_concat]

mutual

theorem walkAt_eq (layer : Layer) (k : String) :
    forall (v : Json) (path : List String) (rows : Rows),
      walkAt layer path rows k v
        = ((writesAt k v).map (beneath path)).foldl (tableStep layer) rows
  | Json.null, _, _ => rfl
  | Json.bool b, path, rows => (tableStep_set layer path k (Json.bool b) rows).symm
  | Json.number t, path, rows => (tableStep_set layer path k (Json.number t) rows).symm
  | Json.string s, path, rows => (tableStep_set layer path k (Json.string s) rows).symm
  | Json.array items, path, rows => (tableStep_set layer path k (Json.array items) rows).symm
  | Json.object members, path, rows => by
      have hwalk := walk_eq layer members (path ++ [k]) rows
      have hmap : ((writes members).map (Write.under k)).map (beneath path)
          = (writes members).map (beneath (path ++ [k])) := by
        rw [List.map_map]
        apply List.map_congr_left
        intro w _
        exact beneath_under path k w
      show walk layer (path ++ [k]) rows members
        = (((writes members).map (Write.under k)).map (beneath path)).foldl (tableStep layer) rows
      rw [hmap, hwalk]

theorem walk_eq (layer : Layer) :
    forall (members : List Member) (path : List String) (rows : Rows),
      walk layer path rows members
        = ((writes members).map (beneath path)).foldl (tableStep layer) rows
  | [], _, _ => rfl
  | (k, v) :: rest, path, rows => by
      show walk layer path (walkAt layer path rows k v) rest
        = ((writesAt k v ++ writes rest).map (beneath path)).foldl (tableStep layer) rows
      rw [List.map_append, List.foldl_append, walkAt_eq layer k v path rows,
        walk_eq layer rest path]

end

/-!
# One write
-/

structure Keyed (rows : Rows) : Prop where
  ids : forall e, e ∈ rows -> e.1 = rowId e.2.section_ e.2.key
  nodup : (rows.map Prod.fst).Nodup

def Shown (rows : Rows) (s : Setting) : Prop :=
  exists e, e ∈ rows ∧ e.2.section_ = s.section_ ∧ e.2.key = s.key ∧ e.2.value = some s.text

theorem Keyed.mapSet (h : Keyed rows) {id : String} (hid : id = rowId row.section_ row.key) :
    Keyed (mapSet id row rows) where
  ids := by
    intro e he
    rcases (mem_mapSet h.nodup).mp he with rfl | he
    · exact hid
    · exact h.ids e he.1
  nodup := by
    rw [map_fst_mapSet]
    split
    · exact h.nodup
    · rename_i hnew
      apply List.Nodup.append h.nodup (List.nodup_singleton _)
      intro id hid hnewId
      rw [List.mem_singleton.mp hnewId] at hid
      exact hnew hid

theorem Keyed.filterMap (h : Keyed rows)
    {f : String × EffectiveRow -> Option (String × EffectiveRow)}
    (hf : forall e e', f e = some e' ->
      e'.1 = e.1 ∧ e'.2.section_ = e.2.section_ ∧ e'.2.key = e.2.key) :
    Keyed (rows.filterMap f) where
  ids := by
    intro e he
    rcases List.mem_filterMap.mp he with ⟨e', he', hfe⟩
    have hsame := hf e' e hfe
    rw [hsame.1, hsame.2.1, hsame.2.2]
    exact h.ids e' he'
  nodup := by
    have hsub : List.Sublist ((rows.filterMap f).map Prod.fst) (rows.map Prod.fst) := by
      clear h
      induction rows with
      | nil => exact List.Sublist.slnil
      | cons e rest ih =>
          rw [List.filterMap_cons]
          cases hfe : f e with
          | none => exact ih.cons _
          | some e' =>
              rw [List.map_cons, List.map_cons, (hf e e' hfe).1]
              exact ih.cons_cons _
    exact h.nodup.sublist hsub

theorem keep_of_removedRow {layer : Layer} {row' : EffectiveRow}
    (h : removedRow layer row = some row') :
    row'.section_ = row.section_ ∧ row'.key = row.key ∧ row'.value = none := by
  unfold removedRow at h
  split at h
  · cases h
    exact ⟨rfl, rfl, rfl⟩
  · cases h

theorem Keyed.removeUnder (h : Keyed rows) (layer : Layer) (segments : List String) :
    Keyed (removeUnder layer segments rows) := by
  have hkept : Keyed (rows.filterMap fun e =>
      if hit segments e.2.section_ e.2.key then
        (removedRow layer e.2).map fun row => (e.1, row)
      else some e) := by
    apply h.filterMap
    intro e e' he
    split at he
    · rcases Option.map_eq_some_iff.mp he with ⟨row, hrow, rfl⟩
      have hsame := keep_of_removedRow hrow
      exact ⟨rfl, hsame.1, hsame.2.1⟩
    · cases he
      exact ⟨rfl, rfl, rfl⟩
  unfold Web.removeUnder
  simp only
  split
  · exact hkept.mapSet rfl
  · exact hkept

theorem Keyed.setLeaf (h : Keyed rows) (layer : Layer) (path : List String) (k : String) (v : Json)
    : Keyed (setLeaf layer path k v rows) := by
  have hkept : Keyed (rows.filter fun e => !overtaken (sectionOf path) e.2) := by
    rw [← List.filterMap_eq_filter]
    apply h.filterMap
    intro e e' he
    rcases Option.guard_eq_some_iff.mp he with ⟨rfl, _⟩
    exact ⟨rfl, rfl, rfl⟩
  exact hkept.mapSet rfl

theorem Keyed.tableStep (layer : Layer) (w : Write) (h : Keyed rows) :
    Keyed (tableStep layer rows w) := by
  cases w with
  | set p v => exact h.setLeaf layer _ _ v
  | remove p => exact h.removeUnder layer p
  | enter p => exact h

theorem shown_setLeaf (h : Keyed rows) (layer : Layer) (p : List String) (v : Json) (s : Setting) :
    Shown (setLeaf layer p.dropLast (lastOf p) v rows) s <->
      s = settingOf p v ∨ (Shown rows s ∧ Not (rowLoses (Write.set p v) s)) := by
  have hnodup : ((rows.filter fun e => !overtaken (sectionOf p.dropLast) e.2).map
      Prod.fst).Nodup := h.nodup.sublist (List.filter_sublist.map _)
  unfold setLeaf Shown
  simp only [mem_mapSet hnodup]
  constructor
  · rintro ⟨e, rfl | ⟨he, hid⟩, hsection, hkey, hvalue⟩
    · refine Or.inl ?_
      cases s
      cases hsection
      cases hkey
      cases hvalue
      rfl
    · have hmem := (List.mem_filter.mp he).1
      refine Or.inr ⟨⟨e, hmem, hsection, hkey, hvalue⟩, ?_⟩
      intro hloses
      apply hid
      rw [h.ids e hmem, hsection, hkey]
      exact hloses
  · rintro (rfl | ⟨⟨e, he, hsection, hkey, hvalue⟩, hloses⟩)
    · exact ⟨_, Or.inl rfl, rfl, rfl, rfl⟩
    · refine ⟨e, Or.inr ⟨List.mem_filter.mpr ⟨he, ?_⟩, ?_⟩, hsection, hkey, hvalue⟩
      · unfold overtaken
        rw [hvalue]
        rfl
      · intro hid
        apply hloses
        show rowId s.section_ s.key = _
        rw [← hsection, ← hkey, ← h.ids e he]
        exact hid

theorem shown_removeUnder (h : Keyed rows) (layer : Layer) (p : List String) (s : Setting) :
    Shown (removeUnder layer p rows) s <->
      Shown rows s ∧ Not (hit p s.section_ s.key = true) := by
  let kept := rows.filterMap fun e =>
    if hit p e.2.section_ e.2.key then (removedRow layer e.2).map fun row => (e.1, row)
    else some e
  have hkept : Shown kept s <-> Shown rows s ∧ Not (hit p s.section_ s.key = true) := by
    constructor
    · rintro ⟨e, he, hsection, hkey, hvalue⟩
      rcases List.mem_filterMap.mp he with ⟨e', he', hfe⟩
      split at hfe
      · rcases Option.map_eq_some_iff.mp hfe with ⟨row, hrow, rfl⟩
        rw [(keep_of_removedRow hrow).2.2] at hvalue
        cases hvalue
      · rename_i hmiss
        cases hfe
        rw [hsection, hkey] at hmiss
        exact ⟨⟨e, he', hsection, hkey, hvalue⟩, hmiss⟩
    · rintro ⟨⟨e, he, hsection, hkey, hvalue⟩, hmiss⟩
      refine ⟨e, List.mem_filterMap.mpr ⟨e, he, ?_⟩, hsection, hkey, hvalue⟩
      rw [hsection, hkey, if_neg hmiss]
  have hnodup : (kept.map Prod.fst).Nodup := by
    have hkeyed : Keyed kept := by
      apply h.filterMap
      intro e e' he
      split at he
      · rcases Option.map_eq_some_iff.mp he with ⟨row, hrow, rfl⟩
        have hsame := keep_of_removedRow hrow
        exact ⟨rfl, hsame.1, hsame.2.1⟩
      · cases he
        exact ⟨rfl, rfl, rfl⟩
    exact hkeyed.nodup
  unfold Web.removeUnder
  simp only
  split
  · rename_i hnew
    -- The removal's own row is shown without a value.
    rw [← hkept]
    have habsent : forall e, e ∈ kept -> e.1 ≠ rowId (sectionOf p.dropLast) (lastOf p) := by
      intro e he heq
      simp only [Bool.and_eq_true, Bool.not_eq_true', List.any_eq_false, beq_iff_eq] at hnew
      exact hnew.1.2 e he heq
    constructor
    · rintro ⟨e, he, hsection, hkey, hvalue⟩
      rcases (mem_mapSet hnodup).mp he with rfl | he
      · cases hvalue
      · exact ⟨e, he.1, hsection, hkey, hvalue⟩
    · rintro ⟨e, he, hsection, hkey, hvalue⟩
      exact ⟨e, (mem_mapSet hnodup).mpr (Or.inr ⟨he, habsent e he⟩), hsection, hkey, hvalue⟩
  · exact hkept

theorem shown_tableStep (h : Keyed rows) (layer : Layer) (w : Write) (s : Setting) :
    Shown (tableStep layer rows w) s <->
      rowGives w s ∨ (Shown rows s ∧ Not (rowLoses w s)) := by
  cases w with
  | set p v => exact shown_setLeaf h layer p v s
  | remove p =>
      show Shown (removeUnder layer p rows) s <-> False ∨ _
      rw [false_or]
      exact shown_removeUnder h layer p s
  | enter p =>
      show Shown rows s <-> False ∨ (Shown rows s ∧ Not False)
      rw [false_or, not_false_eq_true, and_true]

/-!
# All layers
-/

def writesOf (layers : List Layer) : List Write :=
  layers.flatMap fun layer => writes layer.config.members

theorem keyed_foldl (layer : Layer) (ws : List Write) (h : Keyed rows) :
    Keyed (ws.foldl (tableStep layer) rows) := by
  induction ws generalizing rows with
  | nil => exact h
  | cons w rest ih => exact ih (h.tableStep layer w)

theorem walk_top (layer : Layer) (members : List Member) (rows : Rows) :
    walk layer [] rows members = (writes members).foldl (tableStep layer) rows := by
  have hnil : (writes members).map (beneath []) = writes members := by
    rw [List.map_congr_left fun w _ => beneath_nil w, List.map_id']
  rw [walk_eq, hnil]

theorem layers_spec (s : Setting) :
    forall (layers : List Layer) (rows : Rows), Keyed rows ->
      Keyed (layers.foldl (fun rows layer => walk layer [] rows layer.config.members) rows) ∧
        (Shown (layers.foldl (fun rows layer => walk layer [] rows layer.config.members) rows) s
          <-> replay rowGives rowLoses (writesOf layers) (Shown rows) s)
  | [], rows, h => ⟨h, Iff.rfl⟩
  | layer :: rest, rows, h => by
      have hnext : Keyed (walk layer [] rows layer.config.members) := by
        rw [walk_top]
        exact keyed_foldl layer _ h
      have hlayer : forall a, Shown (walk layer [] rows layer.config.members) a <->
          replay rowGives rowLoses (writes layer.config.members) (Shown rows) a := by
        intro a
        rw [walk_top]
        exact replay_step (fun rows w h => Keyed.tableStep layer w h)
          (fun rows w a h => shown_tableStep h layer w a) rows h
      have hrest := layers_spec s rest (walk layer [] rows layer.config.members) hnext
      refine ⟨hrest.1, ?_⟩
      rw [List.foldl_cons]
      apply hrest.2.trans
      show _ <-> replay rowGives rowLoses (writes layer.config.members ++ writesOf rest) _ s
      rw [replay_append]
      exact replay_congr hlayer

theorem keyed_layerRows (layers : List Layer) : Keyed (layerRows layers) := by
  have hempty : Keyed [] := by
    constructor
    · intro e he
      cases he
    · exact List.nodup_nil
  exact (layers_spec { section_ := "", key := "", text := "" } layers [] hempty).1

theorem shown_layerRows (layers : List Layer) (s : Setting) :
    Shown (layerRows layers) s <-> Stands rowGives rowLoses (writesOf layers) s := by
  have hempty : Keyed [] := by
    constructor
    · intro e he
      cases he
    · exact List.nodup_nil
  rw [← replay_none]
  apply (layers_spec s layers [] hempty).2.trans
  apply replay_congr
  intro a
  constructor
  · rintro ⟨e, he, _⟩
    cases he
  · exact False.elim

theorem layerConfigs_functional {row' : EffectiveRow}
    (hrow : row ∈ layerConfigs localeCompare layers)
    (hrow' : row' ∈ layerConfigs localeCompare layers) (hsection : row.section_ = row'.section_)
    (hkey : row.key = row'.key) : row = row' := by
  have hkeyed := keyed_layerRows layers
  rcases List.mem_map.mp ((List.mem_insertionSort _).mp hrow) with ⟨e, he, rfl⟩
  rcases List.mem_map.mp ((List.mem_insertionSort _).mp hrow') with ⟨e', he', rfl⟩
  have hid : e.1 = e'.1 := by
    rw [hkeyed.ids e he, hkeyed.ids e' he', hsection, hkey]
  rw [List.inj_on_of_nodup_map hkeyed.nodup he he' hid]

/-- The rows with a value, read by section and key, are the rendered settings of the
merged document. -/
def ShowsMerged (localeCompare : String -> String -> Int) (layers : List Layer) : Prop :=
  forall s : Setting,
    (exists row, row ∈ layerConfigs localeCompare layers ∧ row.section_ = s.section_ ∧
      row.key = s.key ∧ row.value = some s.text) <->
    exists path v, Leaf (mergeAll (layers.map fun layer => layer.config.members)) path v ∧
      settingOf path v = s

/-- A write the table still shows was overwritten in the document, and nothing equal
stands there. -/
def StaleRow (ws : List Write) : Prop :=
  exists front path v back, ws = front ++ Write.set path v :: back ∧
    (forall w, w ∈ back -> Not (rowLoses w (settingOf path v))) ∧
      forall path' v', settingOf path' v' = settingOf path v ->
        Not (Stands Write.gives Write.loses ws (path', v'))

/-- A write the document still holds was taken out of the table, and nothing equal is
shown there. -/
def LostRow (ws : List Write) : Prop :=
  exists front path v back, ws = front ++ Write.set path v :: back ∧
    (forall w, w ∈ back -> Not (w.loses (path, v))) ∧
      Not (Stands rowGives rowLoses ws (settingOf path v))

theorem mem_layerConfigs {s : Setting} :
    (exists row, row ∈ layerConfigs localeCompare layers ∧ row.section_ = s.section_ ∧
      row.key = s.key ∧ row.value = some s.text) <-> Shown (layerRows layers) s := by
  constructor
  · rintro ⟨row, hrow, hparts⟩
    rcases List.mem_map.mp ((List.mem_insertionSort _).mp hrow) with ⟨e, he, rfl⟩
    exact ⟨e, he, hparts⟩
  · rintro ⟨e, he, hparts⟩
    exact ⟨e.2, (List.mem_insertionSort _).mpr (List.mem_map.mpr ⟨e, he, rfl⟩), hparts⟩

theorem leaf_layers (layers : List Layer) (path : List String) (v : Json) :
    Leaf (mergeAll (layers.map fun layer => layer.config.members)) path v <->
      Stands Write.gives Write.loses (writesOf layers) (path, v) := by
  have hdistinct : forall members, members ∈ layers.map (fun layer => layer.config.members) ->
      distinctMembers members = true := by
    intro members hmembers
    rcases List.mem_map.mp hmembers with ⟨layer, _, rfl⟩
    have hlayer := layer.config.distinct
    unfold Json.distinct at hlayer
    exact (Bool.and_eq_true_iff.mp hlayer).2
  rw [leaf_mergeAll hdistinct, List.flatMap_map]
  rfl

theorem shows_merged_iff_stands :
    ShowsMerged localeCompare layers <->
      forall s, Stands rowGives rowLoses (writesOf layers) s <->
        exists path v, Stands Write.gives Write.loses (writesOf layers) (path, v) ∧
          settingOf path v = s := by
  unfold ShowsMerged
  simp only [mem_layerConfigs, shown_layerRows, leaf_layers]

/-!
# Plain keys
-/

theorem plain_loses {w : Write} {path : List String} {v : Json} (hw : PlainPath w.path)
    (hwne : w.path ≠ []) (hpath : PlainPath path) (hne : path ≠ [])
    (h : rowLoses w (settingOf path v)) : w.loses (path, v) := by
  cases w with
  | set p u =>
      have hrow := rowId_inj (dropLast_plain hpath) (dropLast_plain hw) h
      rw [path_eq_of_row hpath hw hne hwne hrow.1 hrow.2]
      exact Or.inl (List.prefix_refl _)
  | remove p => exact prefix_of_hit hw hpath hwne hne h
  | enter p => exact False.elim h

theorem cut_cases {alpha : Type} {a b : alpha} :
    forall {front front' back back' : List alpha}, front ++ a :: back = front' ++ b :: back' ->
      (a = b ∧ back = back') ∨ b ∈ back ∨ a ∈ back'
  | [], [], back, back', h => by
      cases h
      exact Or.inl ⟨rfl, rfl⟩
  | [], x :: front', back, back', h => by
      cases h
      exact Or.inr (Or.inl (List.mem_append_right _ List.mem_cons_self))
  | x :: front, [], back, back', h => by
      cases h
      exact Or.inr (Or.inr (List.mem_append_right _ List.mem_cons_self))
  | x :: front, y :: front', back, back', h => cut_cases (List.cons.inj h).2

theorem writesOf_path_ne_nil {w : Write} (h : w ∈ writesOf layers) :
    w.path ≠ [] := by
  rcases List.mem_flatMap.mp h with ⟨layer, _, hw⟩
  exact path_ne_nil_of_mem_writes hw

/-- Keys that hold a `/`, a NUL or nothing aside, the table and the document agree
exactly when no later write goes over a setting that the table still shows: as a
value above or beneath it, or as a section in its place. -/
theorem shows_merged_plain_iff (hplain : forall w, w ∈ writesOf layers -> PlainPath w.path) :
    ShowsMerged localeCompare layers <->
      forall front path v back, writesOf layers = front ++ Write.set path v :: back ->
        (forall w, w ∈ back -> Not (rowLoses w (settingOf path v))) ->
          forall w, w ∈ back -> Not (w.loses (path, v)) := by
  have hmem : forall {front back : List Write} {w : Write},
      writesOf layers = front ++ w :: back -> w ∈ writesOf layers := by
    intro front back w hws
    rw [hws]
    exact List.mem_append_right _ List.mem_cons_self
  have hlater : forall {front back : List Write} {w w' : Write},
      writesOf layers = front ++ w :: back -> w' ∈ back -> w' ∈ writesOf layers := by
    intro front back w w' hws hw'
    rw [hws]
    exact List.mem_append_right _ (List.mem_cons_of_mem _ hw')
  rw [shows_merged_iff_stands]
  constructor
  · intro h front path v back hws hkept w hw hloses
    have hset := hmem hws
    have hshown : Stands rowGives rowLoses (writesOf layers) (settingOf path v) :=
      ⟨front, Write.set path v, back, hws, rfl, hkept⟩
    rcases (h _).mp hshown with ⟨path', v', ⟨front', w', back', hws', hgives, hkept'⟩, hsame⟩
    cases w' with
    | remove p => exact hgives
    | enter p => exact hgives
    | set p u =>
        cases hgives
        have hset' := hmem hws'
        have hpath : path' = path :=
          path_eq_of_row (hplain _ hset') (hplain _ hset) (writesOf_path_ne_nil hset')
            (writesOf_path_ne_nil hset) (congrArg Setting.section_ hsame)
            (congrArg Setting.key hsame)
        subst hpath
        rcases cut_cases (hws.symm.trans hws') with ⟨hwrite, hback⟩ | hbehind | hbehind
        · rw [hback] at hw
          cases hwrite
          exact hkept' w hw hloses
        · exact hkept _ hbehind rfl
        · exact hkept' _ hbehind (Or.inl (List.prefix_refl _))
  · intro h s
    constructor
    · rintro ⟨front, w, back, hws, hgives, hkept⟩
      cases w with
      | set path v =>
          have hs : s = settingOf path v := hgives
          subst hs
          exact ⟨path, v, ⟨front, _, back, hws, rfl, h front path v back hws hkept⟩, rfl⟩
      | remove p => exact False.elim hgives
      | enter p => exact False.elim hgives
    · rintro ⟨path, v, ⟨front, w, back, hws, hgives, hkept⟩, rfl⟩
      cases w with
      | remove p => exact False.elim hgives
      | enter p => exact False.elim hgives
      | set p u =>
          cases hgives
          have hset := hmem hws
          refine ⟨front, _, back, hws, rfl, ?_⟩
          intro later hlaterMem hrow
          have hlaterSet := hlater hws hlaterMem
          exact hkept later hlaterMem (plain_loses (hplain _ hlaterSet)
            (writesOf_path_ne_nil hlaterSet) (hplain _ hset) (writesOf_path_ne_nil hset) hrow)

/-!
# The exact condition
-/

/-- The table shows what the agent gets exactly when the layers' writes leave neither
a stale row nor a lost one. -/
theorem table_shows_merged_iff (localeCompare : String -> String -> Int)
    (layers : List Layer) :
    ShowsMerged localeCompare layers <->
      Not (StaleRow (writesOf layers)) ∧ Not (LostRow (writesOf layers)) := by
  rw [shows_merged_iff_stands]
  constructor
  · intro h
    constructor
    · rintro ⟨front, path, v, back, hws, hkept, hnone⟩
      have hshown : Stands rowGives rowLoses (writesOf layers) (settingOf path v) :=
        ⟨front, Write.set path v, back, hws, rfl, hkept⟩
      rcases (h (settingOf path v)).mp hshown with ⟨path', v', hstands, hsame⟩
      exact hnone path' v' hsame hstands
    · rintro ⟨front, path, v, back, hws, hkept, hnone⟩
      apply hnone
      exact (h (settingOf path v)).mpr
        ⟨path, v, ⟨front, Write.set path v, back, hws, rfl, hkept⟩, rfl⟩
  · rintro ⟨hstale, hlost⟩ s
    constructor
    · rintro ⟨front, w, back, hws, hgives, hkept⟩
      cases w with
      | set path v =>
          have hs : s = settingOf path v := hgives
          subst hs
          by_contra hnone
          apply hstale
          refine ⟨front, path, v, back, hws, hkept, ?_⟩
          intro path' v' hsame hstands
          exact hnone ⟨path', v', hstands, hsame⟩
      | remove p => exact False.elim hgives
      | enter p => exact False.elim hgives
    · rintro ⟨path, v, ⟨front, w, back, hws, hgives, hkept⟩, rfl⟩
      cases w with
      | set p u =>
          cases hgives
          by_contra hnone
          exact hlost ⟨front, path, v, back, hws, hkept, hnone⟩
      | remove p => exact False.elim hgives
      | enter p => exact False.elim hgives

/-!
# A section replaced by a value
-/

def bundleLayer (id : String) (config : ConfigObject) : Layer where
  id := id
  label := id
  kind := LayerKind.bundle
  config := config

/-- `{"a": {"b": "1"}}` -/
def sectionConfig : ConfigObject where
  members := [("a", Json.object [("b", Json.string "1")])]
  distinct := rfl

/-- `{"a": "5"}` -/
def valueConfig : ConfigObject where
  members := [("a", Json.string "5")]
  distinct := rfl

def replacedSection : List Layer :=
  [bundleLayer "first" sectionConfig, bundleLayer "second" valueConfig]

/-- The table still shows `b` of `/a`, which the agent does not have. -/
theorem replaced_section_still_shown : Not (ShowsMerged (fun _ _ => 0) replacedSection) := by
  intro h
  have hshown : Shown (layerRows replacedSection)
      { section_ := "/a", key := "b", text := "1" } := by
    have hrows : (layerRows replacedSection).head?.map (fun e => (e.2.section_, e.2.key, e.2.value))
        = some ("/a", "b", some "1") := by decide +kernel
    rcases Option.map_eq_some_iff.mp hrows with ⟨e, he, hparts⟩
    exact ⟨e, List.mem_of_mem_head? he, congrArg Prod.fst hparts,
      congrArg (fun x => x.2.1) hparts, congrArg (fun x => x.2.2) hparts⟩
  rcases (h _).mp (mem_layerConfigs.mpr hshown) with ⟨path, v, hleaf, hsame⟩
  have hdoc : mergeAll (replacedSection.map fun layer => layer.config.members)
      = object [("a", Json.string "5")] := rfl
  rw [hdoc] at hleaf
  cases path with
  | nil => exact leaf_nil hleaf
  | cons k r =>
      by_cases hk : k = "a"
      · subst hk
        have hvalue := (leaf_setting rfl rfl).mp hleaf
        rw [hvalue.1] at hsame
        have hkey : ("a" : String) = "b" := congrArg Setting.key hsame
        revert hkey
        decide
      · have hnone : List.lookup k [("a", Json.string "5")] = none := by
          rw [List.lookup_cons, beq_eq_false_iff_ne.mpr hk]
          rfl
        exact not_leaf_missing hnone hleaf

end Web
end FleetServer
