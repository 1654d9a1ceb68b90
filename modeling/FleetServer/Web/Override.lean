import FleetServer.Web.RowIds

/-!
# What a saved override produces

Merged onto the base document, the override gives the edited settings unless a kept
removal is put beneath a setting that stays, or a dropped setting cannot be removed.
-/

namespace FleetServer
namespace Web

open FleetServer.Core
open Core.Json

/-!
# Puts into the heap
-/

section

variable {h : Heap} {k : String} {pre : List String} {m : List Member} {v w : Json}

def inDocument (pre : List String) : Ref where
  root := Root.document
  path := pre

theorem read_object (hk : (membersAt h.document pre).lookup k = some (object m)) :
    h.read (inDocument pre) k = JsValue.reference (inDocument (pre ++ [k])) := by
  have hlookup : (h.members (inDocument pre)).lookup k = some (object m) := hk
  rw [Heap.read, hlookup]
  rfl

theorem read_value (hw : w.isObject = false)
    (hk : (membersAt h.document pre).lookup k = some w) :
    h.read (inDocument pre) k = JsValue.null_ ∨
      h.read (inDocument pre) k = JsValue.primitive w := by
  have hlookup : (h.members (inDocument pre)).lookup k = some w := hk
  rw [Heap.read, hlookup]
  cases w with
  | object m => cases hw
  | null => exact Or.inl rfl
  | bool b => exact Or.inr rfl
  | number t => exact Or.inr rfl
  | string s => exact Or.inr rfl
  | array items => exact Or.inr rfl

theorem read_missing (hprototype : h.prototype = []) (hproto : k ≠ protoKey)
    (hk : (membersAt h.document pre).lookup k = none) :
    h.read (inDocument pre) k =
      if inherits k then JsValue.function else JsValue.undefined := by
  have hlookup : (h.members (inDocument pre)).lookup k = none := hk
  have hinherits : inherits k = objectMethods.contains k := by
    unfold inherits
    rw [beq_eq_false_iff_ne.mpr hproto]
    rfl
  rw [Heap.read, hlookup, hinherits]
  show (if k = protoKey then _ else h.inherited k) = _
  rw [if_neg hproto, Heap.inherited, hprototype]
  rfl

theorem write_document (hproto : k ≠ protoKey) :
    h.write (inDocument pre) k v =
      { h with document := updateAt (insertOwn k v) h.document pre } := by
  rw [Heap.write, if_neg hproto]
  rfl

theorem put_stops {rest : List String}
    (hundefined : h.read (inDocument pre) k ≠ JsValue.undefined)
    (hreference : forall r, h.read (inDocument pre) k ≠ JsValue.reference r) :
    put h (inDocument pre) (k :: rest) v = h := by
  cases rest with
  | nil =>
      rw [put]
      split
      · rename_i heq
        exact absurd heq hundefined
      · rfl
  | cons l rest =>
      rw [put]
      · split
        · rename_i heq
          exact absurd heq hundefined
        · rename_i r heq
          exact absurd heq (hreference r)
        · rfl
      · intro heq
        cases heq

/-- The heap a put into the document at `pre` should leave. -/
def putInto (h : Heap) (pre path : List String) (v : Json) : Heap :=
  { h with document := updateAt (fun m => putTree m path v) h.document pre }

theorem putInto_same {path : List String}
    (hsame : putTree (membersAt h.document pre) path v = membersAt h.document pre) :
    h = putInto h pre path v := by
  unfold putInto
  rw [updateAt_same (f := fun m => putTree m path v) pre hsame]

/-- A setting in the way stops a put. -/
theorem put_value {path : List String} (hw : w.isObject = false)
    (hk : (membersAt h.document pre).lookup k = some w) :
    put h (inDocument pre) (k :: path) v = putInto h pre (k :: path) v := by
  have hstops : put h (inDocument pre) (k :: path) v = h := by
    rcases read_value hw hk with hread | hread
    · apply put_stops
      · rw [hread]
        exact nofun
      · rw [hread]
        exact nofun
    · apply put_stops
      · rw [hread]
        exact nofun
      · rw [hread]
        exact nofun
  rw [hstops]
  exact putInto_same (putTree_value hw hk)

theorem put_inherited {path : List String} (hprototype : h.prototype = []) (hproto : k ≠ protoKey)
    (hk : (membersAt h.document pre).lookup k = none) (hin : inherits k = true) :
    put h (inDocument pre) (k :: path) v = putInto h pre (k :: path) v := by
  have hread := read_missing hprototype hproto hk
  rw [hin] at hread
  have hread : h.read (inDocument pre) k = JsValue.function := hread
  have hstops : put h (inDocument pre) (k :: path) v = h := by
    apply put_stops
    · rw [hread]
      exact nofun
    · rw [hread]
      exact nofun
  rw [hstops]
  exact putInto_same (putTree_inherited hk hin)

theorem put_object {path : List String}
    (hk : (membersAt h.document pre).lookup k = some (object m))
    (hrest : put h (inDocument (pre ++ [k])) path v = putInto h (pre ++ [k]) path v) :
    put h (inDocument pre) (k :: path) v = putInto h pre (k :: path) v := by
  have hread := read_object hk
  cases path with
  | nil =>
      rw [put, hread]
      apply putInto_same
      rw [putTree_object hk]
      exact replaceOwn_same hk
  | cons l path =>
      have hnode : put h (inDocument pre) (k :: l :: path) v =
          put h (inDocument (pre ++ [k])) (l :: path) v := by
        rw [put, hread]
        exact nofun
      have htree : updateAt (fun m => putTree m (l :: path) v)
          (membersAt h.document pre) [k] =
            putTree (membersAt h.document pre) (k :: l :: path) v := by
        rw [updateAt_object hk, putTree_object hk]
        rfl
      rw [hnode, hrest]
      unfold putInto
      rw [updateAt_append, updateAt_congr
        (f := fun m => updateAt (fun m => putTree m (l :: path) v) m [k])
        (g := fun m => putTree m (k :: l :: path) v) pre htree]

/-- Where nothing stands, the objects on the way are made first. -/
theorem put_missing {path : List String} (hprototype : h.prototype = []) (hproto : k ≠ protoKey)
    (hk : (membersAt h.document pre).lookup k = none) (hin : inherits k = false)
    (hrest : forall made : Heap, made.prototype = [] ->
      put made (inDocument (pre ++ [k])) path v = putInto made (pre ++ [k]) path v) :
    put h (inDocument pre) (k :: path) v = putInto h pre (k :: path) v := by
  have hread := read_missing hprototype hproto hk
  rw [hin] at hread
  have hread : h.read (inDocument pre) k = JsValue.undefined := hread
  cases path with
  | nil =>
      rw [put, hread]
      show h.write (inDocument pre) k v = _
      have htree : insertOwn k v (membersAt h.document pre) =
          putTree (membersAt h.document pre) [k] v := by
        rw [putTree_missing hk hin]
        rfl
      rw [write_document hproto,
        updateAt_congr (f := insertOwn k v) (g := fun m => putTree m [k] v) pre htree]
      rfl
  | cons l path =>
      have hnode : put h (inDocument pre) (k :: l :: path) v =
          put (h.write (inDocument pre) k (object [])) (inDocument (pre ++ [k]))
            (l :: path) v := by
        rw [put, hread]
        · rfl
        · exact nofun
      let made : Heap :=
        { h with document := updateAt (insertOwn k (object [])) h.document pre }
      rw [hnode, write_document hproto]
      show put made (inDocument (pre ++ [k])) (l :: path) v = _
      have htree : updateAt (fun m => putTree m (l :: path) v)
          (insertOwn k (object []) (membersAt h.document pre)) [k] =
            putTree (membersAt h.document pre) (k :: l :: path) v := by
        have hnew : (insertOwn k (object []) (membersAt h.document pre)).lookup k =
            some (object []) := by
          rw [lookup_insertOwn]
          exact if_pos rfl
        rw [updateAt_object hnew, replaceOwn_insertOwn hk, putTree_missing hk hin]
        rfl
      rw [hrest made hprototype]
      show ({ h with document := _ } : Heap) = putInto h pre (k :: l :: path) v
      unfold putInto
      rw [updateAt_append, updateAt_updateAt]
      rw [updateAt_congr
        (f := fun m => updateAt (fun m => putTree m (l :: path) v)
          (insertOwn k (object []) m) [k])
        (g := fun m => putTree m (k :: l :: path) v) pre htree]

/-- Puts never reach beyond the document when no path names `__proto__`. -/
theorem put_eq : forall (path : List String) (h : Heap) (pre : List String), h.prototype = [] ->
    protoKey ∉ path -> put h (inDocument pre) path v = putInto h pre path v := by
  intro path
  induction path with
  | nil =>
      intro h pre _ _
      exact putInto_same rfl
  | cons k path ih =>
      intro h pre hprototype hpath
      rw [List.mem_cons, not_or] at hpath
      have hproto : k ≠ protoKey := fun heq => hpath.1 heq.symm
      rcases lookup_cases (membersAt h.document pre) k with hk | ⟨m, hk⟩ | ⟨w, hk, hw⟩
      · cases hin : inherits k with
        | true => exact put_inherited hprototype hproto hk hin
        | false =>
            exact put_missing hprototype hproto hk hin fun made hmade =>
              ih made (pre ++ [k]) hmade hpath.2
      · exact put_object hk (ih h (pre ++ [k]) hprototype hpath.2)
      · exact put_value hw hk

theorem puts_eq :
    forall (ps : List (Removal × Json)) (h : Heap), h.prototype = [] ->
      (forall p, p ∈ ps -> protoKey ∉ p.1) ->
        ps.foldl (fun h p => put h documentRef p.1 p.2) h =
          { h with document := putAll h.document ps } := by
  intro ps
  induction ps with
  | nil =>
      intro h _ _
      rfl
  | cons p ps ih =>
      intro h hprototype hps
      have hp := hps p List.mem_cons_self
      have hput : put h documentRef p.1 p.2 =
          { h with document := putTree h.document p.1 p.2 } :=
        put_eq p.1 h [] hprototype hp
      let next : Heap := { h with document := putTree h.document p.1 p.2 }
      rw [List.foldl_cons, hput]
      exact ih next hprototype fun q hq => hps q (List.mem_cons_of_mem _ hq)

end

/-!
# What is put
-/

/-- The document a merge gives has exactly the settings of the edited one. -/
def Produces (base working patch : List Member) : Prop :=
  forall path text, Sets (mergeMembers base patch) path text <-> Sets working path text

/-- Something the override puts removes a setting that is not edited any more. -/
def Taken (working : List Member) (kept : List Removal) (q : List String) : Prop :=
  (exists r, r ∈ kept ∧ Clean r ∧ StillStands working r ∧ (r <+: q ∨ q <+: r)) ∨
    (exists p, Has working p ∧ (p <+: q ∨ q <+: p)) ∨
      (Clean q ∧ forall r, r ∈ kept -> Not (q <+: r))

/-- When an override does what was edited. -/
structure Restores (base working : List Member) (kept : List Removal) : Prop where
  stays : forall p text r, Sets base p text -> Sets working p text -> r ∈ kept -> Clean r ->
    p <+: r -> r = p
  drops : forall q, Has base q -> Not (Has working q) -> Taken working kept q

section

variable {base working : List Member} {kept : List Removal} {p q r s : List String}
variable {text : String} {v u : Json}

structure Edited (base working : List Member) (kept : List Removal) : Prop where
  base_distinct : distinct (object base) = true
  base_keys : forall q, Has base q -> protoKey ∉ q
  working_distinct : distinct (object working) = true
  working_clean : forall p, Has working p -> Clean p
  kept_apart : forall r r', r ∈ kept -> r' ∈ kept -> r <+: r' -> r = r'
  kept_path : forall r, r ∈ kept -> r ≠ [] ∧ protoKey ∉ r
  ids : ApartIds base working

def overridePuts (base working : List Member) (kept : List Removal) : List (Removal × Json) :=
  puts (leaves base) (leaves working) kept

def putPatch (base working : List Member) (kept : List Removal) : List Member :=
  putAll [] (overridePuts base working kept)

def keptPuts (base working : List Member) (kept : List Removal) : List (Removal × Json) :=
  ((changedLeaves (leaves base) (leaves working)).map fun w => (w.path, Json.string w.value)) ++
    (kept.filter fun r => inForce (leaves working) r).map fun r => (r, Json.null)

def droppedPuts (base working : List Member) (kept : List Removal) : List (Removal × Json) :=
  (droppedLeaves (leaves base) (leaves working) kept).map fun b => (b.path, Json.null)

def Changed (base working : List Member) (s : List String) (u : Json) : Prop :=
  exists text, u = Json.string text ∧ Sets working s text ∧ Not (Sets base s text)

def Kept (working : List Member) (kept : List Removal) (s : List String) (u : Json) : Prop :=
  u = Json.null ∧ s ∈ kept ∧ StillStands working s

def Dropped (base working : List Member) (kept : List Removal) (s : List String) (u : Json) :
    Prop :=
  u = Json.null ∧ Has base s ∧ Not (Has working s) ∧
    forall r, r ∈ kept -> StillStands working r -> Not (r <+: s)

namespace Edited

theorem listed_base (h : Edited base working kept) :
    Listed base working base (leaves base) :=
  listed h.ids (fun _ hp => Or.inl hp) h.base_distinct

theorem listed_working (h : Edited base working kept) :
    Listed base working working (leaves working) :=
  listed h.ids (fun _ hp => Or.inr hp) h.working_distinct

theorem mem_changedPuts (h : Edited base working kept) :
    (s, u) ∈ (changedLeaves (leaves base) (leaves working)).map
        (fun w => (w.path, Json.string w.value)) <-> Changed base working s u := by
  rw [List.mem_map]
  constructor
  · intro hmem
    rcases hmem with ⟨w, hw, heq⟩
    cases heq
    exact ⟨w.value, rfl, (Listed.mem_changed h.ids h.listed_base h.listed_working).mp hw⟩
  · intro hchanged
    rcases hchanged with ⟨text, hu, hsets⟩
    exists { path := s, value := text }
    constructor
    · exact (Listed.mem_changed h.ids h.listed_base h.listed_working).mpr hsets
    · rw [hu]

theorem mem_keptPuts (h : Edited base working kept) :
    (s, u) ∈ keptPuts base working kept <-> Changed base working s u ∨ Kept working kept s u := by
  unfold keptPuts
  rw [List.mem_append, h.mem_changedPuts, List.mem_map]
  apply or_congr Iff.rfl
  constructor
  · intro hmem
    rcases hmem with ⟨r, hr, heq⟩
    cases heq
    rw [List.mem_filter] at hr
    exact ⟨rfl, hr.1, h.listed_working.inForce_iff.mp hr.2⟩
  · intro hkept
    exists s
    constructor
    · exact List.mem_filter.mpr ⟨hkept.2.1, h.listed_working.inForce_iff.mpr hkept.2.2⟩
    · rw [hkept.1]

theorem mem_droppedPuts (h : Edited base working kept) :
    (s, u) ∈ droppedPuts base working kept <-> Dropped base working kept s u := by
  unfold droppedPuts
  rw [List.mem_map]
  constructor
  · intro hmem
    rcases hmem with ⟨b, hb, heq⟩
    cases heq
    have hdropped := (Listed.mem_dropped h.ids h.listed_base h.listed_working).mp hb
    exact ⟨rfl, ⟨_, hdropped.1⟩, hdropped.2⟩
  · intro hdropped
    rcases hdropped with ⟨hu, ⟨text, hsets⟩, hrest⟩
    exists { path := s, value := text }
    constructor
    · exact (Listed.mem_dropped h.ids h.listed_base h.listed_working).mpr ⟨hsets, hrest⟩
    · rw [hu]

theorem mem_overridePuts (h : Edited base working kept) :
    (s, u) ∈ overridePuts base working kept <->
      Changed base working s u ∨ Kept working kept s u ∨ Dropped base working kept s u := by
  show (s, u) ∈ keptPuts base working kept ++ droppedPuts base working kept <-> _
  rw [List.mem_append, h.mem_keptPuts, h.mem_droppedPuts, or_assoc]

theorem overridePuts_value (h : Edited base working kept) :
    forall p, p ∈ overridePuts base working kept -> p.2.isObject = false := by
  intro p hp
  rcases p with ⟨s, u⟩
  rcases h.mem_overridePuts.mp hp with ⟨text, hu, _⟩ | hkept | hdropped
  · show u.isObject = false
    rw [hu]
    rfl
  · show u.isObject = false
    rw [hkept.1]
    rfl
  · show u.isObject = false
    rw [hdropped.1]
    rfl

theorem overridePuts_path (h : Edited base working kept) :
    forall p, p ∈ overridePuts base working kept -> protoKey ∉ p.1 := by
  intro p hp
  rcases p with ⟨s, u⟩
  rcases h.mem_overridePuts.mp hp with ⟨text, _, hsets, _⟩ | hkept | hdropped
  · intro hmem
    have hclean := h.working_clean s ⟨text, hsets⟩ protoKey hmem
    cases hclean
  · exact (h.kept_path s hkept.2.1).2
  · exact h.base_keys s hdropped.2.1

theorem overrideDiff_eq (h : Edited base working kept) :
    overrideDiff base working kept = pruneEmpty (putPatch base working kept) := by
  show pruneEmpty ((overridePuts base working kept).foldl
    (fun h p => put h documentRef p.1 p.2) emptyHeap).document = _
  rw [puts_eq _ emptyHeap rfl fun p hp => h.overridePuts_path p hp]
  rfl

theorem putPatch_wellKeyed (h : Edited base working kept) :
    wellKeyed (fun k => !inherits k) (object (putPatch base working kept)) = true := by
  apply wellKeyed_putAll
  · intro p hp
    rcases p with ⟨s, u⟩
    rcases h.mem_overridePuts.mp hp with ⟨text, hu, _⟩ | hkept | hdropped
    · rw [hu]
      rfl
    · rw [hkept.1]
      rfl
    · rw [hdropped.1]
      rfl
  · exact wellKeyed_empty

/-!
# What the patch has
-/

theorem node_put (h : Edited base working kept)
    (hnode : nodeAt (putPatch base working kept) s = Node.value u) :
    (s, u) ∈ overridePuts base working kept ∧ Clean s := by
  constructor
  · cases putAll_value h.overridePuts_value hnode with
    | inl hempty =>
        cases s with
        | nil => cases hempty
        | cons k s => cases hempty
    | inr hmem => exact hmem
  · apply tidy_putAll h.overridePuts_value tidy_nil
    show nodeAt (putPatch base working kept) s ≠ Node.nothing
    rw [hnode]
    intro hnothing
    cases hnothing

theorem section_put {ps : List (Removal × Json)}
    (hps : forall p, p ∈ ps -> p ∈ overridePuts base working kept)
    (h : Edited base working kept) (hs : s ≠ [])
    (hnode : nodeAt (putAll [] ps) s = Node.section_) :
    exists t u, (t, u) ∈ ps ∧ s <+: t ∧ s ≠ t := by
  cases putAll_section (fun p hp => h.overridePuts_value p (hps p hp)) hnode with
  | inl hempty =>
      rw [nodeAt_nil s hs] at hempty
      cases hempty
  | inr hmem =>
      rcases hmem with ⟨p, hp, hbelow⟩
      exact ⟨p.1, p.2, hp, hbelow⟩

theorem has_ne_nil {doc : List Member} (h : Has doc p) : p ≠ [] := by
  rcases h with ⟨_, v, hleaf, _⟩
  exact hleaf.1

theorem changed_lands (h : Edited base working kept) (hsets : Sets working p text)
    (hnot : Not (Sets base p text)) :
    nodeAt (putPatch base working kept) p = Node.value (Json.string text) := by
  let ps := (changedLeaves (leaves base) (leaves working)).map
    fun w => (w.path, Json.string w.value)
  have hps : forall t u, (t, u) ∈ ps <-> Changed base working t u :=
    fun t u => h.mem_changedPuts
  have hall : forall p, p ∈ ps -> p ∈ overridePuts base working kept := by
    intro p hp
    exact h.mem_overridePuts.mpr (Or.inl ((hps p.1 p.2).mp hp))
  have hvalues : forall p, p ∈ ps -> p.2.isObject = false :=
    fun p hp => h.overridePuts_value p (hall p hp)
  have hp : Has working p := ⟨text, hsets⟩
  have hmem : (p, Json.string text) ∈ ps := (hps _ _).mpr ⟨text, rfl, hsets, hnot⟩
  have hfirst : nodeAt (putAll [] ps) p = Node.value (Json.string text) := by
    cases @settled_putAll _ _ [] hvalues _ hmem List.prefix_rfl (h.working_clean p hp) with
    | inl hsection =>
        rcases section_put hall h (has_ne_nil hp) hsection with ⟨t, u, ht, hbelow, hne⟩
        rcases (hps t u).mp ht with ⟨other, _, hother, _⟩
        exact absurd (has_above hbelow hp ⟨other, hother⟩) hne
    | inr hvalue =>
        rcases hvalue with ⟨t, u, habove, hvalue⟩
        have hput : (t, u) ∈ ps := by
          cases putAll_value hvalues hvalue with
          | inl hempty =>
              cases t with
              | nil => cases hempty
              | cons k t => cases hempty
          | inr hput => exact hput
        rcases (hps t u).mp hput with ⟨other, hu, hother, _⟩
        have heq : t = p := has_above habove ⟨other, hother⟩ hp
        subst heq
        rw [hvalue, hu, sets_unique hother hsets]
  have hkeeps : nodeAt (putAll (putAll [] ps)
      (((kept.filter fun r => inForce (leaves working) r).map fun r => (r, Json.null)) ++
        droppedPuts base working kept)) p = nodeAt (putAll [] ps) p := by
    apply putAll_keeps
    rw [hfirst]
    intro hnothing
    cases hnothing
  rw [← putAll_append, ← List.append_assoc] at hkeeps
  exact hkeeps.trans hfirst

theorem kept_lands (h : Edited base working kept) (hr : r ∈ kept) (hstands : StillStands working r)
    (hclean : Clean r) :
    exists t u, t <+: r ∧ nodeAt (putPatch base working kept) t = Node.value u := by
  have hmem : (r, Json.null) ∈ overridePuts base working kept :=
    h.mem_overridePuts.mpr (Or.inr (Or.inl ⟨rfl, hr, hstands⟩))
  cases @settled_putAll _ _ [] h.overridePuts_value _ hmem List.prefix_rfl hclean with
  | inr hvalue => exact hvalue
  | inl hsection =>
      rcases section_put (fun p hp => hp) h (h.kept_path r hr).1 hsection with
        ⟨t, u, ht, hbelow, hne⟩
      rcases h.mem_overridePuts.mp ht with ⟨text, _, hsets, _⟩ | hkept | hdropped
      · exact absurd hbelow (hstands t ⟨text, hsets⟩)
      · exact absurd (h.kept_apart r t hr hkept.2.1 hbelow) hne
      · exact absurd hbelow (hdropped.2.2.2 r hr hstands)

/-- The patch has a value above a path or beneath it. -/
def Touched (base working : List Member) (kept : List Removal) (q : List String) : Prop :=
  exists t u, nodeAt (putPatch base working kept) t = Node.value u ∧ (t <+: q ∨ q <+: t)

theorem touched_by_kept (h : Edited base working kept) (hr : r ∈ kept)
    (hstands : StillStands working r) (hclean : Clean r) (hnear : r <+: q ∨ q <+: r) :
    Touched base working kept q := by
  rcases h.kept_lands hr hstands hclean with ⟨t, u, habove, hvalue⟩
  exists t, u
  constructor
  · exact hvalue
  · cases hnear with
    | inl hrq => exact Or.inl (habove.trans hrq)
    | inr hqr => exact List.prefix_or_prefix_of_prefix habove hqr

theorem touched_agreed (h : Edited base working kept) (hbase : Sets base p text)
    (hworking : Sets working p text) :
    Touched base working kept p <-> exists r, r ∈ kept ∧ Clean r ∧ p <+: r ∧ r ≠ p := by
  have hp : Has working p := ⟨text, hworking⟩
  constructor
  · intro htouched
    rcases htouched with ⟨t, u, hvalue, hnear⟩
    rcases h.node_put hvalue with ⟨hput, hclean⟩
    rcases h.mem_overridePuts.mp hput with ⟨other, _, hother, hnot⟩ | hkept | hdropped
    · have heq : t = p := by
        cases hnear with
        | inl habove => exact has_above habove ⟨other, hother⟩ hp
        | inr hbelow => exact (has_above hbelow hp ⟨other, hother⟩).symm
      subst heq
      rw [sets_unique hother hworking] at hnot
      exact absurd hbase hnot
    · cases hnear with
      | inl habove => exact absurd habove (hkept.2.2 p hp)
      | inr hbelow =>
          exists t
          constructor
          · exact hkept.2.1
          · constructor
            · exact hclean
            · constructor
              · exact hbelow
              · intro heq
                subst heq
                exact hkept.2.2 t hp List.prefix_rfl
    · have heq : t = p := by
        cases hnear with
        | inl habove => exact has_above habove hdropped.2.1 ⟨text, hbase⟩
        | inr hbelow => exact (has_above hbelow ⟨text, hbase⟩ hdropped.2.1).symm
      subst heq
      exact absurd hp hdropped.2.2.1
  · intro hremoval
    rcases hremoval with ⟨r, hr, hclean, hbelow, hne⟩
    apply h.touched_by_kept hr _ hclean (Or.inr hbelow)
    intro p' hp' hrp'
    have heq : p = p' := has_above (hbelow.trans hrp') hp hp'
    rw [← heq] at hrp'
    exact hne (hrp'.eq_of_length_le hbelow.length_le)

theorem touched_of_taken (h : Edited base working kept) (hbase : Has base q)
    (hnot : Not (Has working q)) (htaken : Taken working kept q) :
    Touched base working kept q := by
  have hedited : forall p, Has working p -> p <+: q ∨ q <+: p ->
      Touched base working kept q := by
    intro p hp hnear
    rcases hp with ⟨text, hsets⟩
    have hchanged : Not (Sets base p text) := by
      intro hold
      apply hnot
      have heq : p = q := by
        cases hnear with
        | inl habove => exact has_above habove ⟨text, hold⟩ hbase
        | inr hbelow => exact (has_above hbelow hbase ⟨text, hold⟩).symm
      rw [← heq]
      exact ⟨text, hsets⟩
    exact ⟨p, Json.string text, h.changed_lands hsets hchanged, hnear⟩
  rcases htaken with ⟨r, hr, hclean, hstands, hnear⟩ | ⟨p, hp, hnear⟩ | ⟨hclean, hkept⟩
  · exact h.touched_by_kept hr hstands hclean hnear
  · exact hedited p hp hnear
  · by_cases hcovered : exists r, r ∈ kept ∧ StillStands working r ∧ r <+: q
    · rcases hcovered with ⟨r, hr, hstands, habove⟩
      exact h.touched_by_kept hr hstands (clean_above habove hclean) (Or.inl habove)
    · have hmem : (q, Json.null) ∈ overridePuts base working kept := by
        apply h.mem_overridePuts.mpr (Or.inr (Or.inr ⟨rfl, hbase, hnot, _⟩))
        intro r hr hstands habove
        exact hcovered ⟨r, hr, hstands, habove⟩
      cases @settled_putAll _ _ [] h.overridePuts_value _ hmem List.prefix_rfl hclean with
      | inr hvalue =>
          rcases hvalue with ⟨t, u, habove, hvalue⟩
          exact ⟨t, u, hvalue, Or.inl habove⟩
      | inl hsection =>
          rcases section_put (fun p hp => hp) h (has_ne_nil hbase) hsection with
            ⟨t, u, ht, hbelow, hne⟩
          rcases h.mem_overridePuts.mp ht with ⟨text, _, hsets, _⟩ | hkeptPut | hdropped
          · exact hedited t ⟨text, hsets⟩ (Or.inr hbelow)
          · exact absurd hbelow (hkept t hkeptPut.2.1)
          · exact absurd (has_above hbelow hbase hdropped.2.1) hne

theorem taken_of_touched (h : Edited base working kept) (hbase : Has base q)
    (hnot : Not (Has working q)) (htouched : Touched base working kept q) :
    Taken working kept q := by
  rcases htouched with ⟨t, u, hvalue, hnear⟩
  rcases h.node_put hvalue with ⟨hput, hclean⟩
  rcases h.mem_overridePuts.mp hput with ⟨text, _, hsets, _⟩ | hkept | hdropped
  · exact Or.inr (Or.inl ⟨t, ⟨text, hsets⟩, hnear⟩)
  · exact Or.inl ⟨t, hkept.2.1, hclean, hkept.2.2, hnear⟩
  · have heq : t = q := by
      cases hnear with
      | inl habove => exact has_above habove hdropped.2.1 hbase
      | inr hbelow => exact (has_above hbelow hbase hdropped.2.1).symm
    subst heq
    by_contra htaken
    apply htaken
    refine Or.inr (Or.inr ⟨hclean, ?_⟩)
    intro r hr hbelow
    -- A kept removal beneath the setting makes its section before the setting's turn.
    have hstands : StillStands working r := by
      intro p hp hrp
      exact htaken (Or.inr (Or.inl ⟨p, hp, Or.inr (hbelow.trans hrp)⟩))
    have hmem : (r, Json.null) ∈ keptPuts base working kept :=
      h.mem_keptPuts.mpr (Or.inr ⟨rfl, hr, hstands⟩)
    have hall : forall p, p ∈ keptPuts base working kept ->
        p ∈ overridePuts base working kept :=
      fun p hp => List.mem_append_left _ hp
    have hvalues : forall p, p ∈ keptPuts base working kept -> p.2.isObject = false :=
      fun p hp => h.overridePuts_value p (hall p hp)
    have hlater : forall s, nodeAt (putAll [] (keptPuts base working kept)) s ≠ Node.nothing ->
        nodeAt (putPatch base working kept) s =
          nodeAt (putAll [] (keptPuts base working kept)) s := by
      intro s hs
      show nodeAt (putAll [] (keptPuts base working kept ++ droppedPuts base working kept)) s = _
      rw [putAll_append]
      exact putAll_keeps hs
    cases @settled_putAll _ _ [] hvalues _ hmem hbelow hclean with
    | inl hsection =>
        have hsame := hlater t (by rw [hsection]; intro hnothing; cases hnothing)
        rw [hvalue, hsection] at hsame
        cases hsame
    | inr hfound =>
        rcases hfound with ⟨s, w, habove, hfound⟩
        have hsame := hlater s (by rw [hfound]; intro hnothing; cases hnothing)
        rw [hfound] at hsame
        by_cases hst : s = t
        · subst hst
          have hkeptPut : (s, w) ∈ keptPuts base working kept := by
            cases putAll_value hvalues hfound with
            | inl hempty =>
                rw [nodeAt_nil s (has_ne_nil hbase)] at hempty
                cases hempty
            | inr hmem => exact hmem
          cases h.mem_keptPuts.mp hkeptPut with
          | inl hchanged =>
              rcases hchanged with ⟨text, _, hsets, _⟩
              exact hnot ⟨text, hsets⟩
          | inr hkept =>
              exact htaken (Or.inl ⟨s, hkept.2.1, hclean, hkept.2.2, Or.inl List.prefix_rfl⟩)
        · rw [nothing_beneath_value habove hst hsame] at hvalue
          cases hvalue

/-!
# What the merge gives
-/

theorem sets_patch (h : Edited base working kept) :
    Sets (pruneEmpty (putPatch base working kept)) p text <->
      Sets working p text ∧ Not (Sets base p text) := by
  constructor
  · intro hsets
    rcases hsets with ⟨v, hleaf, htext⟩
    have hnode := leaf_iff_node.mp hleaf
    have hvalue := (value_pruned h.putPatch_wellKeyed).mp hnode.1
    rcases h.mem_overridePuts.mp (h.node_put hvalue).1 with ⟨other, hv, hchanged⟩ | hkept | hdropped
    · rw [hv] at htext
      have hsame : other = text := htext
      rw [← hsame]
      exact hchanged
    · rw [hkept.1] at hnode
      cases hnode.2
    · rw [hdropped.1] at hnode
      cases hnode.2
  · intro hchanged
    have hvalue := h.changed_lands hchanged.1 hchanged.2
    exists Json.string text
    constructor
    · exact leaf_iff_node.mpr ⟨(value_pruned h.putPatch_wellKeyed).mpr hvalue, rfl⟩
    · rfl

theorem sets_merged (h : Edited base working kept) :
    Sets (mergeMembers base (pruneEmpty (putPatch base working kept))) p text <->
      (Sets working p text ∧ Not (Sets base p text)) ∨
        (Sets base p text ∧ Not (Touched base working kept p)) := by
  have hdistinct : distinct (object (pruneEmpty (putPatch base working kept))) = true := by
    rw [← pruneAt_object]
    exact distinct_pruneAt _ (distinct_of_wellKeyed _ h.putPatch_wellKeyed)
  have hmisses : p ≠ [] -> (misses (pruneEmpty (putPatch base working kept)) p = true <->
      Not (Touched base working kept p)) := by
    intro hp
    rw [misses_pruned h.putPatch_wellKeyed hp]
    constructor
    · intro hvalues htouched
      rcases htouched with ⟨t, u, hvalue, hnear⟩
      cases hnear with
      | inl habove => exact (hvalues t u hvalue).1 habove
      | inr hbelow => exact (hvalues t u hvalue).2 hbelow
    · intro hnot t u hvalue
      exact ⟨fun habove => hnot ⟨t, u, hvalue, Or.inl habove⟩,
        fun hbelow => hnot ⟨t, u, hvalue, Or.inr hbelow⟩⟩
  rw [← h.sets_patch]
  constructor
  · intro hsets
    rcases hsets with ⟨v, hleaf, htext⟩
    cases (leaf_merged p hdistinct).mp hleaf with
    | inl hpatch => exact Or.inl ⟨v, hpatch, htext⟩
    | inr hold => exact Or.inr ⟨⟨v, hold.2, htext⟩, (hmisses hleaf.1).mp hold.1⟩
  · intro hsets
    rcases hsets with ⟨v, hleaf, htext⟩ | ⟨⟨v, hleaf, htext⟩, hnot⟩
    · exact ⟨v, (leaf_merged p hdistinct).mpr (Or.inl hleaf), htext⟩
    · exact ⟨v, (leaf_merged p hdistinct).mpr (Or.inr ⟨(hmisses hleaf.1).mpr hnot, hleaf⟩), htext⟩

theorem produces_iff (h : Edited base working kept) :
    Produces base working (overrideDiff base working kept) <-> Restores base working kept := by
  rw [h.overrideDiff_eq]
  constructor
  · intro hproduces
    constructor
    · intro p text r hbase hworking hr hclean hbelow
      by_contra hne
      have htouched := (h.touched_agreed hbase hworking).mpr ⟨r, hr, hclean, hbelow, hne⟩
      cases h.sets_merged.mp ((hproduces p text).mpr hworking) with
      | inl hchanged => exact hchanged.2 hbase
      | inr hold => exact hold.2 htouched
    · intro q hbase hnot
      apply h.taken_of_touched hbase hnot
      by_contra htouched
      rcases hbase with ⟨text, hsets⟩
      apply hnot
      exact ⟨text, (hproduces q text).mp (h.sets_merged.mpr (Or.inr ⟨hsets, htouched⟩))⟩
  · intro hrestores path text
    rw [h.sets_merged]
    constructor
    · intro hsets
      cases hsets with
      | inl hchanged => exact hchanged.1
      | inr hold =>
          by_contra hnot
          apply hold.2
          by_cases hhas : Has working path
          · rcases hhas with ⟨other, hother⟩
            have hchanged : Not (Sets base path other) := by
              intro hbase
              rw [sets_unique hbase hold.1] at hother
              exact hnot hother
            exact ⟨path, Json.string other, h.changed_lands hother hchanged,
              Or.inl List.prefix_rfl⟩
          · exact h.touched_of_taken ⟨text, hold.1⟩ hhas
              (hrestores.drops path ⟨text, hold.1⟩ hhas)
    · intro hworking
      by_cases hbase : Sets base path text
      · apply Or.inr
        constructor
        · exact hbase
        · intro htouched
          rcases (h.touched_agreed hbase hworking).mp htouched with ⟨r, hr, hclean, hbelow, hne⟩
          exact hne (hrestores.stays path text r hbase hworking hr hclean hbelow)
      · exact Or.inl ⟨hworking, hbase⟩

end Edited

end

/-!
# The host editor
-/

theorem removal_ne_nil {patch : ConfigObject} {r : Removal} (hr : r ∈ removalsOf patch) :
    r ≠ [] := by
  rcases null_of_removalsBeneath [] patch.members patch.distinct hr with ⟨q, hq, hnull⟩
  intro hnil
  have hroot : q = [] := hq.symm.trans hnil
  rw [hroot] at hnull
  cases hnull

theorem edited {rows : List EffectiveRow} {text : String} {patch : ConfigObject}
    {base working : List Member} (hbase : configFromRows rows = some base)
    (hworking : iniToJson text = Except.ok working)
    (hproto : forall r, r ∈ removalsOf patch -> protoKey ∉ r) (hids : ApartIds base working) :
    Edited base working (removalsOf patch) := by
  have hbaseKeys := notProto_configFromRows hbase
  have hworkingKeys := ownKeys_iniToJson hworking
  constructor
  · exact distinct_of_wellKeyed _ hbaseKeys
  · intro q hq hmem
    rcases hq with ⟨_, v, hleaf, _⟩
    have hkey := allowed_of_leaf hbaseKeys hleaf protoKey hmem
    cases hkey
  · exact distinct_of_wellKeyed _ hworkingKeys
  · intro p hp k hk
    rcases hp with ⟨_, v, hleaf, _⟩
    have hkey := allowed_of_leaf hworkingKeys hleaf k hk
    cases hin : inherits k with
    | false => rfl
    | true =>
        rw [hin] at hkey
        cases hkey
  · intro r r' hr hr' habove
    exact removal_prefix hr hr' habove
  · intro r hr
    exact ⟨removal_ne_nil hr, hproto r hr⟩
  · exact hids

/-- A saved override gives the edited configuration exactly when it restores it. -/
theorem saved_override_produces_iff {rows : List EffectiveRow} {text : String}
    {patch : ConfigObject} {base working : List Member} (hbase : configFromRows rows = some base)
    (hworking : iniToJson text = Except.ok working)
    (hproto : forall r, r ∈ removalsOf patch -> protoKey ∉ r) (hids : ApartIds base working) :
    Produces base working (overrideDiff base working (removalsOf patch)) <->
      Restores base working (removalsOf patch) :=
  (edited hbase hworking hproto hids).produces_iff

def oneSetting (text : String) : List Member :=
  [("a", object [("b", Json.string text)])]

def oneRow (text : String) : EffectiveRow where
  section_ := "/a"
  key := "b"
  value := some text
  layer :=
    { id := "base@1"
      label := "base@1"
      kind := LayerKind.bundle
      config := { members := oneSetting text, distinct := rfl } }
  replaced := []

theorem has_oneSetting {text : String} {p : List String} (h : Has (oneSetting text) p) :
    p = ["a", "b"] := by
  rcases h with ⟨found, hsets⟩
  have hmem : ({ path := p, value := found } : LeafEntry) ∈ leavesBeneath [] (oneSetting text) :=
    (mem_leavesBeneath_root rfl).mpr hsets
  have hleaves : leavesBeneath [] (oneSetting text) = [{ path := ["a", "b"], value := text }] :=
    rfl
  rw [hleaves] at hmem
  exact congrArg LeafEntry.path (List.mem_singleton.mp hmem)

theorem saved_override_changes_a_text :
    Produces (oneSetting "5") (oneSetting "6")
        (overrideDiff (oneSetting "5") (oneSetting "6")
          (removalsOf { members := [("c", Json.null)], distinct := rfl })) <->
      Restores (oneSetting "5") (oneSetting "6")
        (removalsOf { members := [("c", Json.null)], distinct := rfl }) := by
  have hbase : configFromRows [oneRow "5"] = some (oneSetting "5") := rfl
  have hworking : iniToJson "[/a]\nb=6\n" = Except.ok (oneSetting "6") := rfl
  apply saved_override_produces_iff hbase hworking
  · decide
  · intro p q hp hq _
    have hone : forall r, Has (oneSetting "5") r ∨ Has (oneSetting "6") r -> r = ["a", "b"] := by
      intro r hr
      cases hr with
      | inl hr => exact has_oneSetting hr
      | inr hr => exact has_oneSetting hr
    rw [hone p hp, hone q hq]

/-- The patch of the host takes `/a/b · c` away, and `b` of `/a` is a text again. -/
theorem kept_removal_takes_the_setting :
    Not (forall (rows : List EffectiveRow) (text : String) (patch : ConfigObject)
      (base working : List Member), configFromRows rows = some base ->
        iniToJson text = Except.ok working ->
          Produces base working (overrideDiff base working (removalsOf patch))) := by
  intro h
  have hbase : configFromRows [oneRow "5"] = some (oneSetting "5") := rfl
  have hworking : iniToJson "[/a]\nb=5\n" = Except.ok (oneSetting "5") := rfl
  let patch : ConfigObject :=
    { members := [("a", object [("b", object [("c", Json.null)])])], distinct := rfl }
  have hproduces := h [oneRow "5"] "[/a]\nb=5\n" patch _ _ hbase hworking
  have hsets : Sets (oneSetting "5") ["a", "b"] "5" :=
    ⟨Json.string "5", ⟨List.cons_ne_nil _ _, rfl, rfl⟩, rfl⟩
  rcases (hproduces ["a", "b"] "5").mpr hsets with ⟨v, hleaf, _⟩
  have hvalue : valueAt (object (mergeMembers (oneSetting "5")
      (overrideDiff (oneSetting "5") (oneSetting "5") (removalsOf patch)))) ["a", "b"] =
        some (object []) := rfl
  have hfound := hleaf.2.1
  rw [hvalue] at hfound
  cases hfound
  cases hleaf.2.2

end Web
end FleetServer
