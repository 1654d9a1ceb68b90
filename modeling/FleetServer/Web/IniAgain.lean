import FleetServer.Web.IniPrototype
import FleetServer.Web.IniRoundTrip

/-!
# Rendering what was parsed

A document that was read from a text is written, and its text read again by the same
page: what the first text left on `Object.prototype` is still there.
-/

namespace FleetServer
namespace Web

open FleetServer.Core
open Core.Json

variable {members : List Member} {h h' : Heap} {k : String} {text : String}
variable {p q segments : List String} {v u : Json} {items : List Item}
variable {sections : Sections}

/-!
# Every setting once
-/

structure Once (sections : Sections) : Prop where
  names : (sections.map Prod.fst).Nodup
  keys : forall e, e ∈ sections -> (e.2.map Prod.fst).Nodup

theorem nodup_mapSet {beta : Type} (id : String) (row : beta) {rows : List (String × beta)}
    (h : (rows.map Prod.fst).Nodup) : ((mapSet id row rows).map Prod.fst).Nodup := by
  rw [map_fst_mapSet]
  split
  · exact h
  · rename_i hid
    rw [List.nodup_append]
    refine ⟨h, List.nodup_singleton _, ?_⟩
    rintro a ha b hb rfl
    rw [List.mem_singleton.mp hb] at ha
    exact hid ha

theorem once_addLeaf (honce : Once sections) (l : LeafEntry) : Once (addLeaf sections l) where
  names := nodup_mapSet _ _ honce.names
  keys e he := by
    rcases (mem_mapSet honce.names).mp he with rfl | ⟨he, _⟩
    · apply nodup_mapSet
      cases hlookup : sections.lookup (sectionOf l.path.dropLast) with
      | none => exact List.nodup_nil
      | some entries => exact honce.keys _ (Table.mem_of_lookup hlookup)
    · exact honce.keys e he

theorem once_collect (config : List Member) : Once (collect "" [] config) := by
  have hfold : forall (ls : List LeafEntry) {sections : Sections}, Once sections ->
      Once (ls.foldl addLeaf sections) := by
    intro ls
    induction ls with
    | nil =>
        intro sections honce
        exact honce
    | cons l ls ih =>
        intro sections honce
        exact ih (once_addLeaf honce l)
  have hcollect : collect "" [] config = (leavesBeneath [] config).foldl addLeaf [] :=
    collect_eq config [] []
  rw [hcollect]
  exact hfold _ ⟨List.nodup_nil, fun e he => absurd he List.not_mem_nil⟩

theorem nodup_keysIn (honce : Once sections) (section_ : String) :
    (keysIn sections section_).Nodup := by
  unfold keysIn sortStrings
  rw [(List.perm_insertionSort _ _).nodup_iff]
  cases hlookup : sections.lookup section_ with
  | none => exact List.nodup_nil
  | some entries => exact honce.keys _ (Table.mem_of_lookup hlookup)

theorem nodup_entries_shown {config : List Member} (hconfig : distinct (object config) = true)
    (hspell : AllSpellable config) :
    ((entriesOf [] (shownItems config)).map Prod.fst).Nodup := by
  have honce := once_collect config
  have hsegments : forall path v, Leaf (object config) path v ->
      forall s, s ∈ path.dropLast -> SegmentText s :=
    fun path v hleaf => ((fits_of_spellable hspell) path v hleaf).1
  unfold shownItems
  rw [entriesOf_blank, entriesOf_blocks]
  show ((List.flatMap _ _).map Prod.fst).Nodup
  rw [List.map_flatMap, List.nodup_flatMap]
  constructor
  · intro section_ _
    rw [List.map_map]
    apply List.Nodup.map _ (nodup_keysIn honce section_)
    intro k l hkl
    exact List.singleton_inj.mp (List.append_cancel_left hkl)
  · have hnames : (sortStrings ((collect "" [] config).map Prod.fst)).Nodup := by
      unfold sortStrings
      rw [(List.perm_insertionSort _ _).nodup_iff]
      exact honce.names
    apply hnames.imp_of_mem
    intro a b ha hb hne p hp hp'
    simp only [List.map_map] at hp hp'
    rcases List.mem_map.mp hp with ⟨k, _, rfl⟩
    rcases List.mem_map.mp hp' with ⟨l, _, heq⟩
    have hsame : namedPath a = namedPath b := (List.append_inj' heq rfl).1.symm
    rcases (section_collected hconfig hsegments).mp (mem_sortStrings.mp ha) with
      ⟨path, v, hleaf, rfl⟩
    rcases (section_collected hconfig hsegments).mp (mem_sortStrings.mp hb) with
      ⟨path', v', hleaf', rfl⟩
    rw [namedPath_spellable hspell hleaf, namedPath_spellable hspell hleaf'] at hsame
    rw [hsame] at hne
    exact hne rfl

/-!
# Reading in a page that has read before
-/

/-- `iniToJson` where `Object.prototype` was added to, with what it is left with. -/
def iniToJsonAfter (prototype : List Member) (text : String) : Except IniParseError Heap :=
  match readLines 1 (splitLines text.toList)
      { heap := { document := [], prototype := prototype }, current := none } with
  | Except.error e => Except.error e
  | Except.ok state => Except.ok state.heap

theorem iniToJsonAfter_iff {prototype : List Member} :
    iniToJsonAfter prototype text = Except.ok h <->
      exists items state', (splitLines text.toList).mapM itemOf = some items ∧
        applyItems { heap := { document := [], prototype := prototype }, current := none } items =
          some state' ∧ state'.heap = h := by
  have hlines := readLines_eq (splitLines text.toList) 1
    { heap := { document := [], prototype := prototype }, current := none }
  unfold iniToJsonAfter
  constructor
  · intro hok
    split at hok
    · cases hok
    · rename_i final hread
      cases hok
      rw [hread] at hlines
      rcases Option.bind_eq_some_iff.mp hlines.symm with ⟨items, hitems, happly⟩
      exact ⟨items, final, hitems, happly, rfl⟩
  · rintro ⟨items, final, hitems, happly, hheap⟩
    rw [hitems] at hlines
    have hread : (readLines 1 (splitLines text.toList)
        { heap := { document := [], prototype := prototype }, current := none }).toOption =
          some final := hlines.trans happly
    cases hok : readLines 1 (splitLines text.toList)
        { heap := { document := [], prototype := prototype }, current := none } with
    | error e =>
        rw [hok] at hread
        cases hread
    | ok other =>
        rw [hok] at hread
        cases hread
        rw [← hheap]

theorem iniToJson_of_fresh (hok : iniToJsonAfter [] text = Except.ok h) :
    iniToJson text = Except.ok h.document := by
  rcases iniToJsonAfter_iff.mp hok with ⟨items, final, hitems, happly, hheap⟩
  exact iniToJson_iff.mpr ⟨items, final, hitems, happly, congrArg Heap.document hheap⟩

def itemsOf (text : String) : List Item :=
  ((splitLines text.toList).mapM itemOf).getD []

/-- What the text put on `Object.prototype` is there afterwards, and nothing else. -/
theorem bound_fresh (hok : iniToJsonAfter [] text = Except.ok h) :
    OwnHeap h ∧ forall k, Bound h k <-> k ∈ placedNames [] (itemsOf text) := by
  rcases iniToJsonAfter_iff.mp hok with ⟨items, final, hitems, happly, hheap⟩
  have hleaves := @applyItems_leaves _ items { heap := emptyHeap, current := none }
    ownHeap_empty (fun k hk => absurd hk List.not_mem_nil) happly
  rw [hheap] at hleaves
  constructor
  · rw [← hheap]
    exact @ownHeap_applyItems _ items { heap := emptyHeap, current := none } ownHeap_empty happly
  · intro k
    unfold itemsOf
    rw [hleaves k, hitems]
    constructor
    · rintro (hbound | hplaced)
      · cases hbound
      · exact hplaced
    · exact Or.inr

/-- The document is read again from its text, less the sections that hold no setting. -/
def ReadAgain (h : Heap) : Prop :=
  exists h', iniToJsonAfter h.prototype (jsonToIni h.document) = Except.ok h' ∧
    (forall p u, nodeAt h'.document p = Node.value u <-> nodeAt h.document p = Node.value u) ∧
    forall p, nodeAt h'.document p = Node.section_ <->
      p = [] ∨ exists q u, nodeAt h.document q = Node.value u ∧ p <+: q ∧ p ≠ q

/-- No section of a setting ends in a blank, and no setting has a name on its path that
the text put on `Object.prototype`. -/
structure Repeatable (text : String) (document : List Member) : Prop where
  section_end : forall p u, nodeAt document p = Node.value u -> forall s,
    p.dropLast.getLast? = some s -> trimEnd s.toList = s.toList
  not_placed : forall p u, nodeAt document p = Node.value u -> forall k, k ∈ p ->
    k ∉ placedNames [] (itemsOf text)

/-!
# The document of a text
-/

theorem setting_text (hok : iniToJsonAfter [] text = Except.ok h)
    (hp : nodeAt h.document p = Node.value u) :
    exists segments key value, p = segments ++ [key] ∧ u = Json.string value ∧
      (forall s, s ∈ segments -> SegmentText s) ∧ KeyText key ∧ ValueText value :=
  texts_of_value (iniToJson_of_fresh hok) hp

theorem leaf_of_value (hok : iniToJsonAfter [] text = Except.ok h) :
    Leaf (object h.document) p v <-> nodeAt h.document p = Node.value v := by
  rw [leaf_iff_node]
  constructor
  · exact And.left
  · intro hp
    rcases setting_text hok hp with ⟨segments, key, value, _, rfl, _⟩
    exact ⟨hp, rfl⟩

theorem allFits (hok : iniToJsonAfter [] text = Except.ok h) : Fits h.document := by
  intro path v hleaf
  rcases setting_text hok ((leaf_of_value hok).mp hleaf) with
    ⟨segments, key, value, rfl, rfl, hsegments, hkey, hvalue⟩
  rw [List.dropLast_concat, lastOf_concat]
  exact ⟨hsegments, hkey, hvalue⟩

theorem allSpellable (hok : iniToJsonAfter [] text = Except.ok h)
    (hend : forall p u, nodeAt h.document p = Node.value u -> forall s,
      p.dropLast.getLast? = some s -> trimEnd s.toList = s.toList) :
    AllSpellable h.document := by
  intro path v hleaf
  have hvalue := (leaf_of_value hok).mp hleaf
  have hfits := allFits hok path v hleaf
  have hown : forall k, k ∈ path -> inherits k = false := by
    apply own_of_node (ownKeys_iniToJson (iniToJson_of_fresh hok))
    rw [hvalue]
    intro h
    cases h
  constructor
  · intro s hs
    exact ⟨hfits.1 s hs, ne_protoKey (hown s (List.mem_of_mem_dropLast hs))⟩
  · exact hend path v hvalue
  · exact hfits.2.1
  · exact hfits.2.2

theorem distinct_document (hok : iniToJsonAfter [] text = Except.ok h) :
    distinct (object h.document) = true :=
  distinct_of_wellKeyed _ (ownKeys_iniToJson (iniToJson_of_fresh hok))

theorem not_above_setting (hp : nodeAt members p = Node.value u)
    (hq : nodeAt members q = Node.value v) (habove : p <+: q.dropLast) : False := by
  have hbelow : q.dropLast <+: q := List.dropLast_prefix q
  have hne : p ≠ q := by
    rintro rfl
    have hlength := habove.length_le
    rw [List.length_dropLast] at hlength
    cases p with
    | nil => cases hp
    | cons k p =>
        rw [List.length_cons] at hlength
        omega
  rw [nothing_beneath_value (habove.trans hbelow) hne hp] at hq
  cases hq

/-!
# Read again
-/

theorem readAgain_of_repeatable (hok : iniToJsonAfter [] text = Except.ok h)
    (hrepeat : Repeatable text h.document) : ReadAgain h := by
  have hconfig := distinct_document hok
  have hspell := allSpellable hok hrepeat.section_end
  have hbound := (bound_fresh hok).2
  have hownKeys := ownKeys_iniToJson (iniToJson_of_fresh hok)
  -- The names of a setting are free in the page that has read the text.
  have hfree : forall p u, nodeAt h.document p = Node.value u -> forall k, k ∈ p ->
      Free { document := [], prototype := h.prototype } k := by
    intro p u hp k hk
    constructor
    · apply own_of_node hownKeys _ k hk
      rw [hp]
      intro hnothing
      cases hnothing
    · have hunbound : ¬ Bound h k := fun hk' =>
        hrepeat.not_placed p u hp k hk ((hbound k).mp hk')
      unfold Bound at hunbound
      rw [Bool.not_eq_true, Option.isSome_eq_false_iff, Option.isNone_iff_eq_none] at hunbound
      exact hunbound
  have haccepts := @applyItems_accepts (shownItems h.document)
    { heap := { document := [], prototype := h.prototype }, current := none } rfl ?_ ?_
  · rcases haccepts with ⟨final, hrun, _, heffect⟩
    refine ⟨final.heap, ?_, ?_, ?_⟩
    · exact iniToJsonAfter_iff.mpr
        ⟨_, final, items_shown (readsBack hconfig (fits_of_spellable hspell)), hrun, rfl⟩
    · intro p u
      rw [heffect.1 p u]
      constructor
      · rintro (hnone | ⟨t, hmem, hu⟩)
        · exact absurd hnone (no_value_at_start p u)
        · rcases (entries_shown hconfig hspell).mp hmem with ⟨v, hleaf, ht⟩
          have hvalue := (leaf_of_value hok).mp hleaf
          rcases setting_text hok hvalue with ⟨_, _, value, _, rfl, _⟩
          rw [hu, ht]
          exact hvalue
      · intro hp
        rcases setting_text hok hp with ⟨_, _, value, _, rfl, _⟩
        exact Or.inr ⟨_, (entries_shown hconfig hspell).mpr
          ⟨_, (leaf_of_value hok).mpr hp, rfl⟩, rfl⟩
    · intro p
      rw [heffect.2 p]
      constructor
      · rintro (hroot | ⟨segments, hmem, habove⟩)
        · exact Or.inl (section_start hroot)
        · rcases (headers_shown hconfig hspell).mp hmem with ⟨path, v, hleaf, rfl⟩
          have hvalue := (leaf_of_value hok).mp hleaf
          refine Or.inr ⟨path, v, hvalue, habove.trans (List.dropLast_prefix path), ?_⟩
          rintro rfl
          exact not_above_setting hvalue hvalue habove
      · rintro (hroot | ⟨q, u, hq, habove, hne⟩)
        · rw [hroot]
          exact Or.inl rfl
        · refine Or.inr ⟨q.dropLast, (headers_shown hconfig hspell).mpr
            ⟨q, u, (leaf_of_value hok).mpr hq, rfl⟩, ?_⟩
          have hparts := dropLast_append_lastOf ((leaf_of_value hok).mpr hq).1
          rw [← hparts, List.prefix_concat_iff] at habove
          rcases habove with heq | habove
          · rw [hparts] at heq
            exact absurd heq hne
          · exact habove
  · constructor
    · intro segments hsegments k hk
      rcases (headers_shown hconfig hspell).mp hsegments with ⟨path, v, hleaf, rfl⟩
      exact hfree path v ((leaf_of_value hok).mp hleaf) k (List.mem_of_mem_dropLast hk)
    · intro p t hp k hk
      rcases (entries_shown hconfig hspell).mp hp with ⟨v, hleaf, _⟩
      exact hfree p v ((leaf_of_value hok).mp hleaf) k hk
  · constructor
    · intro segments _ s u _
      exact no_value_at_start s u
    · intro p t hp
      rcases (entries_shown hconfig hspell).mp hp with ⟨v, hleaf, _⟩
      cases p with
      | nil => exact absurd rfl hleaf.1
      | cons k p => rfl
    · exact nodup_entries_shown hconfig hspell
    · intro p t segments hp hsegments habove
      rcases (entries_shown hconfig hspell).mp hp with ⟨v, hleaf, _⟩
      rcases (headers_shown hconfig hspell).mp hsegments with ⟨path, w, hleaf', rfl⟩
      exact not_above_setting ((leaf_of_value hok).mp hleaf) ((leaf_of_value hok).mp hleaf')
        habove

theorem repeatable_of_readAgain (hok : iniToJsonAfter [] text = Except.ok h)
    (hagain : ReadAgain h) : Repeatable text h.document := by
  rcases hagain with ⟨h', hok', hvalues, _⟩
  rcases iniToJsonAfter_iff.mp hok' with ⟨items, final, hitems, happly, rfl⟩
  have hreads := readsBack (distinct_document hok) (allFits hok)
  rw [items_shown hreads] at hitems
  cases hitems
  constructor
  · intro p u hp s hs
    have hfrom := readFrom_items rfl rfl happly
    rcases hfrom p u ((hvalues p u).mpr hp) with ⟨segments, key, _, rfl, _, hopened, _⟩
    rw [List.dropLast_concat] at hs
    rcases hopened with rfl | hheader
    · cases hs
    · rcases mem_headersOf_shown.mp (mem_headersOf.mpr hheader) with ⟨section_, hsection, rfl⟩
      have hsegments : forall path v, Leaf (object h.document) path v ->
          forall s, s ∈ path.dropLast -> SegmentText s :=
        fun path v hleaf => (allFits hok path v hleaf).1
      rcases (section_collected (distinct_document hok) hsegments).mp hsection with
        ⟨path, v, hleaf, rfl⟩
      rw [namedPath_sectionOf (hsegments path v hleaf)] at hs
      exact readPath_end hs
  · intro p u hp k hk hplaced
    have hbound : Bound { document := [], prototype := h.prototype } k :=
      ((bound_fresh hok).2 k).mpr hplaced
    rcases List.append_of_mem hk with ⟨q, rest, rfl⟩
    have hstart : nodeAt ([] : List Member) (q ++ [k]) = Node.nothing := by
      cases q with
      | nil => rfl
      | cons j q => rfl
    have hnothing : nodeAt final.heap.document (q ++ [k]) = Node.nothing :=
      still_nothing hbound hstart happly
    have habove : q ++ [k] <+: q ++ k :: rest := ⟨rest, by simp⟩
    have hnode : nodeAt final.heap.document (q ++ k :: rest) ≠ Node.nothing := by
      rw [(hvalues _ u).mpr hp]
      intro hnone
      cases hnone
    exact node_above habove hnode hnothing

/-- A document is read again from its text just when no section of a setting ends in a
blank and no name on the way to a setting was put on `Object.prototype`. -/
theorem rendering_undoes_parsing_iff (hok : iniToJsonAfter [] text = Except.ok h) :
    ReadAgain h <-> Repeatable text h.document := by
  constructor
  · exact repeatable_of_readAgain hok
  · exact readAgain_of_repeatable hok

theorem rendering_undoes_parsing_iff_plain :
    ReadAgain { document := [("a", object [("k", Json.string "v")])], prototype := [] } <->
      Repeatable "[ a ]\r\nk = v" [("a", object [("k", Json.string "v")])] :=
  rendering_undoes_parsing_iff rfl

/-- A section that ends in a blank before a slash loses the blank. -/
theorem blank_before_slash_is_lost :
    iniToJsonAfter [] "[a /]\nk=v" =
        Except.ok { document := [("a ", object [("k", Json.string "v")])], prototype := [] } ∧
      ¬ ReadAgain { document := [("a ", object [("k", Json.string "v")])], prototype := [] } := by
  have hok : iniToJsonAfter [] "[a /]\nk=v" =
      Except.ok { document := [("a ", object [("k", Json.string "v")])], prototype := [] } := rfl
  constructor
  · exact hok
  · intro hagain
    have hend := (repeatable_of_readAgain hok hagain).section_end ["a ", "k"]
      (Json.string "v") rfl "a " rfl
    exact absurd hend (by decide)

/-- A key put on `Object.prototype` is in the way of the same key elsewhere. -/
theorem placed_key_is_in_the_way :
    iniToJsonAfter [] "[a]\nk=w\n[__proto__]\nk=v" =
        Except.ok
          { document := [("a", object [("k", Json.string "w")])]
            prototype := [("k", Json.string "v")] } ∧
      ¬ ReadAgain
          { document := [("a", object [("k", Json.string "w")])]
            prototype := [("k", Json.string "v")] } := by
  have hok : iniToJsonAfter [] "[a]\nk=w\n[__proto__]\nk=v" =
      Except.ok
        { document := [("a", object [("k", Json.string "w")])]
          prototype := [("k", Json.string "v")] } := rfl
  constructor
  · exact hok
  · intro hagain
    have hfree := (repeatable_of_readAgain hok hagain).not_placed ["a", "k"]
      (Json.string "w") rfl "k" (by decide)
    exact hfree (by decide)

end Web
end FleetServer
