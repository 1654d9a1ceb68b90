import FleetServer.Web.IniAccepts

/-!
# Well-formed INI texts

Sections and settings one per line, with blank and comment lines between them, and
what the reader makes of them.
-/

namespace FleetServer
namespace Web

open FleetServer.Core
open Core.Json

variable {members : List Member} {p segments : List String} {key value text : String}
variable {v u : Json} {item : Item} {items : List Item} {raw : List Char} {k : String}

/-!
# Lines
-/

structure SegmentName (s : String) : Prop where
  not_empty : s ≠ ""
  trimmed : Trimmed s.toList
  no_slash : '/' ∉ s.toList

inductive LineOf : Item -> List Char -> Prop where
  | blank {raw : List Char} (h : trimChars raw = []) : LineOf Item.blank raw
  | comment {raw : List Char} {mark : Char} (h : (trimChars raw).head? = some mark)
      (hmark : mark = ';' ∨ mark = '#') : LineOf Item.blank raw
  | header {segments : List String} {slash : List Char} (hslash : slash = [] ∨ slash = ['/'])
      (h : forall s, s ∈ segments -> SegmentName s) :
      LineOf (Item.header segments)
        ('[' :: (slash ++ List.intercalate ['/'] (segments.map String.toList) ++ [']']))
  | entry {key value : String} (hkey : KeyText key) (hvalue : ValueText value) :
      LineOf (Item.entry key value) (key.toList ++ '=' :: value.toList)

def Written (items : List Item) (text : String) : Prop :=
  List.Forall₂ LineOf items (splitLines text.toList)

theorem head_intercalate {parts : List (List Char)} {c : Char}
    (h : forall s, s ∈ parts -> s ≠ [])
    (hc : (List.intercalate ['/'] parts).head? = some c) :
    exists s, s ∈ parts ∧ s.head? = some c := by
  cases parts with
  | nil => cases hc
  | cons s rest =>
      exists s
      constructor
      · exact List.mem_cons_self
      · have hne := h s List.mem_cons_self
        cases rest with
        | nil => rwa [List.intercalate_singleton] at hc
        | cons s' rest =>
            rw [List.intercalate_cons_cons, List.append_assoc,
              List.head?_append_of_ne_nil _ hne] at hc
            exact hc

theorem last_intercalate {parts : List (List Char)} {c : Char}
    (h : forall s, s ∈ parts -> s ≠ [])
    (hc : (List.intercalate ['/'] parts).getLast? = some c) :
    exists s, s ∈ parts ∧ s.getLast? = some c := by
  induction parts with
  | nil => cases hc
  | cons s rest ih =>
      cases rest with
      | nil =>
          rw [List.intercalate_singleton] at hc
          exact ⟨s, List.mem_cons_self, hc⟩
      | cons s' rest =>
          have hrest : forall t, t ∈ s' :: rest -> t ≠ [] := fun t ht =>
            h t (List.mem_cons_of_mem _ ht)
          have hne : List.intercalate ['/'] (s' :: rest) ≠ [] := by
            have hs' := hrest s' List.mem_cons_self
            cases rest with
            | nil => rwa [List.intercalate_singleton]
            | cons s'' rest =>
                rw [List.intercalate_cons_cons]
                simp [hs']
          rw [List.intercalate_cons_cons, List.getLast?_append_of_ne_nil _ hne] at hc
          rcases ih hrest hc with ⟨t, ht, hlast⟩
          exact ⟨t, List.mem_cons_of_mem _ ht, hlast⟩

theorem trimmed_intercalate (h : forall s, s ∈ segments -> SegmentName s) {slash : List Char}
    (hslash : slash = [] ∨ slash = ['/']) :
    Trimmed (slash ++ List.intercalate ['/'] (segments.map String.toList)) := by
  have hparts : forall s, s ∈ segments.map String.toList -> s ≠ [] ∧ Trimmed s := by
    intro s hs
    rcases List.mem_map.mp hs with ⟨name, hname, rfl⟩
    constructor
    · intro hnil
      exact (h name hname).not_empty (String.toList_eq_nil_iff.mp hnil)
    · exact (h name hname).trimmed
  have hnonempty := fun s hs => (hparts s hs).1
  have hhead : forall c, (List.intercalate ['/'] (segments.map String.toList)).head? = some c ->
      isSpace c = false := by
    intro c hc
    rcases head_intercalate hnonempty hc with ⟨s, hs, hfirst⟩
    exact (trimmed_iff.mp (hparts s hs).2).1 c hfirst
  have hlast : forall c,
      (List.intercalate ['/'] (segments.map String.toList)).getLast? = some c ->
        isSpace c = false := by
    intro c hc
    rcases last_intercalate hnonempty hc with ⟨s, hs, hend⟩
    exact (trimmed_iff.mp (hparts s hs).2).2 c hend
  cases hslash with
  | inl hnone =>
      rw [hnone, List.nil_append]
      exact trimmed_iff.mpr ⟨hhead, hlast⟩
  | inr hone =>
      rw [hone]
      by_cases hnil : List.intercalate ['/'] (segments.map String.toList) = []
      · rw [hnil]
        decide
      · apply trimmed_append (List.cons_ne_nil _ _) hnil
        · intro c hc
          cases hc
          decide
        · exact hlast

theorem headerSegments_written (h : forall s, s ∈ segments -> SegmentName s)
    {slash : List Char} (hslash : slash = [] ∨ slash = ['/']) :
    headerSegments
      ('[' :: (slash ++ List.intercalate ['/'] (segments.map String.toList) ++ [']'])) =
        segments.map String.toList := by
  have hkept : (segments.map String.toList).filter (fun s => !s.isEmpty) =
      segments.map String.toList := by
    rw [List.filter_eq_self]
    intro cs hcs
    rcases List.mem_map.mp hcs with ⟨s, hs, rfl⟩
    rw [Bool.not_eq_true', List.isEmpty_eq_false_iff]
    intro hnil
    exact (h s hs).not_empty (String.toList_eq_nil_iff.mp hnil)
  have hparts : (splitOn '/' (List.intercalate ['/'] (segments.map String.toList))).filter
      (fun s => !s.isEmpty) = segments.map String.toList := by
    cases segments with
    | nil => decide
    | cons s rest =>
        rw [splitOn_eq, List.splitOn_intercalate, hkept]
        · intro part hpart
          rcases List.mem_map.mp hpart with ⟨name, hname, rfl⟩
          exact (h name hname).no_slash
        · exact List.cons_ne_nil _ _
  unfold headerSegments
  show (splitOn '/' (trimChars (_ ++ [']']).dropLast)).filter _ = _
  rw [List.dropLast_concat, trimChars_of_trimmed (trimmed_intercalate h hslash)]
  cases hslash with
  | inl hnone =>
      rw [hnone, List.nil_append]
      exact hparts
  | inr hone =>
      rw [hone, List.singleton_append, splitOn, if_pos rfl, List.filter_cons]
      exact hparts

theorem itemOf_line (h : LineOf item raw) : itemOf raw = some item := by
  cases h with
  | blank h =>
      unfold itemOf
      simp [h]
  | comment h hmark =>
      unfold itemOf
      rcases hmark with rfl | rfl
      · simp [h]
      · simp [h]
  | header hslash h =>
      rename_i segments slash
      have htrimmed : Trimmed
          ('[' :: (slash ++ List.intercalate ['/'] (segments.map String.toList) ++ [']'])) := by
        rw [← List.cons_append]
        apply trimmed_append (List.cons_ne_nil _ _) (List.cons_ne_nil _ _)
        · intro c hc
          cases hc
          decide
        · intro c hc
          cases hc
          decide
      unfold itemOf
      rw [trimChars_of_trimmed htrimmed]
      show headerItem _ = _
      unfold headerItem
      have hlast : ('[' :: (slash ++ List.intercalate ['/'] (segments.map String.toList) ++
          [']'])).getLast? = some ']' := by
        rw [← List.cons_append, List.getLast?_concat]
      rw [if_neg (not_not.mpr hlast), headerSegments_written h hslash, if_neg]
      · rw [List.map_map]
        have hback : segments.map (String.ofList ∘ String.toList) = segments := by
          apply List.map_id''
          intro s
          exact String.ofList_toList
        rw [hback]
      · rw [List.any_eq_true]
        rintro ⟨cs, hcs, hblank⟩
        rcases List.mem_map.mp hcs with ⟨s, hs, rfl⟩
        rw [trimChars_of_trimmed (h s hs).trimmed, List.isEmpty_iff] at hblank
        exact (h s hs).not_empty (String.toList_eq_nil_iff.mp hblank)
  | entry hkey hvalue =>
      rename_i key value
      have hline : (key ++ "=" ++ value).toList = key.toList ++ '=' :: value.toList := by
        rw [String.toList_append, String.toList_append, List.append_assoc]
        rfl
      rw [← hline]
      exact itemOf_entry hkey hvalue

theorem items_of_written (h : Written items text) :
    (splitLines text.toList).mapM itemOf = some items := by
  unfold Written at h
  generalize splitLines text.toList = lines at h
  induction h with
  | nil => rfl
  | cons hline _ ih =>
      rw [List.mapM_cons, itemOf_line hline, ih]
      rfl

/-!
# What is read
-/

/-- No setting is there twice, and none is called as a section beside it. -/
structure WellFormed (items : List Item) : Prop where
  distinct : ((entriesOf [] items).map Prod.fst).Nodup
  beside : forall p t segments, (p, t) ∈ entriesOf [] items -> segments ∈ headersOf items ->
    ¬ p <+: segments

/-- The text is accepted, and the settings are its document's own values. -/
def ReadExactly (items : List Item) (text : String) : Prop :=
  exists members, iniToJson text = Except.ok members ∧
    forall p u, nodeAt members p = Node.value u <->
      exists t, (p, t) ∈ entriesOf [] items ∧ u = Json.string t

/-- No section and no key has a name that every object inherits. -/
structure OrdinaryNames (items : List Item) : Prop where
  headers : forall segments, segments ∈ headersOf items -> forall k, k ∈ segments ->
    inherits k = false
  entries : forall p t, (p, t) ∈ entriesOf [] items -> forall k, k ∈ p -> inherits k = false

theorem path_of_entry {t : String} :
    forall {items : List Item} {current : List String}, (p, t) ∈ entriesOf current items ->
      exists segments key, p = segments ++ [key] := by
  intro items
  induction items with
  | nil =>
      intro current h
      cases h
  | cons item items ih =>
      intro current h
      cases item with
      | blank => exact ih h
      | header segments => exact ih h
      | entry key value =>
          cases List.mem_cons.mp h with
          | inl heq =>
              cases heq
              exact ⟨current, key, rfl⟩
          | inr hin => exact ih hin

theorem free_start (hk : inherits k = false) : Free emptyHeap k :=
  ⟨hk, rfl⟩

theorem readExactly_of_ordinary (hwritten : Written items text) (hformed : WellFormed items)
    (hordinary : OrdinaryNames items) : ReadExactly items text := by
  have hroot : nodeAt emptyHeap.document [] = Node.section_ := rfl
  have haccepts := @applyItems_accepts items { heap := emptyHeap, current := none } hroot
    ⟨fun segments h k hk => free_start (hordinary.headers segments h k hk),
      fun p t h k hk => free_start (hordinary.entries p t h k hk)⟩ ?_
  · rcases haccepts with ⟨state', hrun, _, heffect⟩
    refine ⟨state'.heap.document, ?_, ?_⟩
    · exact iniToJson_iff.mpr ⟨items, state', items_of_written hwritten, hrun, rfl⟩
    · intro p u
      rw [heffect.1 p u]
      constructor
      · rintro (h | h)
        · exact absurd h (no_value_at_start p u)
        · exact h
      · exact Or.inr
  · constructor
    · intro segments _ s u _
      exact no_value_at_start s u
    · intro p t hp
      rcases path_of_entry hp with ⟨segments, key, rfl⟩
      cases segments with
      | nil => rfl
      | cons k rest => rfl
    · exact hformed.distinct
    · exact hformed.beside

theorem ordinary_of_readExactly (hwritten : Written items text)
    (hheld : forall segments, segments ∈ headersOf items -> protoKey ∈ segments ->
      exists k t, (segments ++ [k], t) ∈ entriesOf [] items)
    (hread : ReadExactly items text) : OrdinaryNames items := by
  rcases hread with ⟨members, hok, hvalues⟩
  have hentries : forall p t, (p, t) ∈ entriesOf [] items -> forall k, k ∈ p ->
      inherits k = false := by
    intro p t hp
    apply own_of_node (ownKeys_iniToJson hok)
    rw [(hvalues p (Json.string t)).mpr ⟨t, hp, rfl⟩]
    intro h
    cases h
  rcases iniToJson_iff.mp hok with ⟨items', final, hitems, happly, _⟩
  rw [items_of_written hwritten] at hitems
  cases hitems
  have hmethods := @no_method_in_headers _ items { heap := emptyHeap, current := none }
    ownHeap_empty happly
  constructor
  · intro segments hsegments k hk
    by_cases hproto : k = protoKey
    · rw [hproto] at hk
      rcases hheld segments hsegments hk with ⟨key, t, hentry⟩
      rw [hproto]
      exact hentries _ t hentry protoKey (List.mem_append_left _ hk)
    · unfold inherits
      rw [beq_eq_false_iff_ne.mpr hproto, hmethods segments hsegments k hk]
      rfl
  · exact hentries

/-- Well-formed texts are read exactly when no name is inherited; for the converse every
section beneath a `__proto__` holds a setting. -/
theorem iniToJson_reads_exactly (hwritten : Written items text) (hformed : WellFormed items) :
    (OrdinaryNames items -> ReadExactly items text) ∧
    ((forall segments, segments ∈ headersOf items -> protoKey ∈ segments ->
        exists k t, (segments ++ [k], t) ∈ entriesOf [] items) ->
      ReadExactly items text -> OrdinaryNames items) := by
  constructor
  · exact readExactly_of_ordinary hwritten hformed
  · exact ordinary_of_readExactly hwritten

def settingItems (section_ key value : String) : List Item :=
  [Item.header [section_], Item.entry key value]

theorem written_settingItems {section_ key value text : String} (hsection : SegmentName section_)
    (hkey : KeyText key) (hvalue : ValueText value)
    (hlines : splitLines text.toList =
      ['[' :: (section_.toList ++ [']']), key.toList ++ '=' :: value.toList]) :
    Written (settingItems section_ key value) text := by
  unfold Written
  rw [hlines]
  have hname : forall s, s ∈ [section_] -> SegmentName s := by
    intro s hs
    rw [List.mem_singleton.mp hs]
    exact hsection
  have hheader := LineOf.header (Or.inl rfl) hname
  rw [List.nil_append, List.map_singleton, List.intercalate_singleton] at hheader
  exact List.Forall₂.cons hheader (List.Forall₂.cons (LineOf.entry hkey hvalue)
    List.Forall₂.nil)

theorem wellFormed_settingItems (section_ key value : String) :
    WellFormed (settingItems section_ key value) where
  distinct := List.nodup_singleton _
  beside p t segments hp hsegments habove := by
    cases List.mem_singleton.mp hp
    rw [List.mem_singleton.mp hsegments] at habove
    have hlength := habove.length_le
    simp at hlength

theorem iniToJson_reads_exactly_plain :
    ReadExactly (settingItems "a" "k" "v") "[a]\nk=v" := by
  have hkey : KeyText "k" :=
    plain_keyText (c := 'k') rfl (by decide) (by decide) (by decide) (by decide)
  have hwritten : Written (settingItems "a" "k" "v") "[a]\nk=v" := by
    apply written_settingItems _ hkey
    · exact ⟨by decide, by decide⟩
    · decide
    · exact ⟨by decide, by decide, by decide⟩
  apply (iniToJson_reads_exactly hwritten (wellFormed_settingItems "a" "k" "v")).1
  constructor
  · intro segments hsegments k hk
    rw [List.mem_singleton.mp hsegments, List.mem_singleton] at hk
    rw [hk]
    decide
  · intro p t hp k hk
    cases List.mem_singleton.mp hp
    cases List.mem_cons.mp hk with
    | inl heq =>
        rw [heq]
        decide
    | inr hin =>
        rw [List.mem_singleton.mp hin]
        decide

/-- A key called `toString` is taken for one that is already there. -/
theorem toString_is_refused :
    Written (settingItems "a" "toString" "v") "[a]\ntoString=v" ∧
      WellFormed (settingItems "a" "toString" "v") ∧
      ¬ ReadExactly (settingItems "a" "toString" "v") "[a]\ntoString=v" := by
  have hkey : KeyText "toString" :=
    plain_keyText (c := 't') rfl (by decide) (by decide) (by decide) (by decide)
  refine ⟨?_, wellFormed_settingItems _ _ _, ?_⟩
  · apply written_settingItems _ hkey
    · exact ⟨by decide, by decide⟩
    · decide
    · exact ⟨by decide, by decide, by decide⟩
  · rintro ⟨members, hok, hvalues⟩
    have hvalue := (hvalues ["a", "toString"] (Json.string "v")).mpr
      ⟨"v", List.mem_singleton.mpr rfl, rfl⟩
    have hnode : nodeAt members ["a", "toString"] ≠ Node.nothing := by
      rw [hvalue]
      intro h
      cases h
    have hname := own_of_node (ownKeys_iniToJson hok) hnode "toString"
      (List.mem_cons_of_mem _ (List.mem_singleton.mpr rfl))
    cases hname

end Web
end FleetServer
