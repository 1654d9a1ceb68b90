import FleetServer.Web.IniFormEdits

/-!
# The edits agree with the parser

When an edit of the text is the edit of the document: the form and `iniToJson` have
to find the key in the same lines, and what is written has to be read back.
-/

namespace FleetServer
namespace Web

open FleetServer.Core
open Core.Json

variable {raw : List Char} {ls before after : List (List Char)}
variable {key newKey value t : String} {p q path : List String} {items items' : List Item}
variable {es fs : List (List String × String)} {old new members : List Member}
variable {text text' section_ : String} {xs : List Item}

/-!
# One entry more
-/

theorem without_entry {u : String} (h : ((es ++ (p, u) :: fs).map Prod.fst).Nodup) :
    forall t, (p, t) ∉ es ++ fs := by
  have hperm : (es ++ (p, u) :: fs).map Prod.fst |>.Perm (p :: (es ++ fs).map Prod.fst) :=
    List.perm_middle.map Prod.fst
  rw [hperm.nodup_iff, List.nodup_cons] at h
  intro t hmem
  exact h.1 (List.mem_map.mpr ⟨_, hmem, rfl⟩)

theorem accepts_with (hformed : WellFormed items) (hnames : OrdinaryNames items)
    (hitems : (splitLines text'.toList).mapM itemOf = some items')
    (hheaders : headersOf items' = headersOf items)
    (hentries : entriesOf [] items' = es ++ (p, value) :: fs)
    (hsub : (es ++ fs).Sublist (entriesOf [] items)) (hnew : forall t, (p, t) ∉ es ++ fs)
    (hhere : forall segments, segments ∈ headersOf items -> ¬ p <+: segments)
    (hp : forall k, k ∈ p -> inherits k = false) :
    exists new, iniToJson text' = Except.ok new ∧ Denotes new items' := by
  apply accepts_ordinary hitems
  · apply wellFormed_with hentries (hformed.distinct.sublist (hsub.map Prod.fst)) hnew
    · intro q t segments hq hsegments
      rw [hheaders] at hsegments
      exact hformed.beside q t segments (hsub.subset hq) hsegments
    · intro segments hsegments
      rw [hheaders] at hsegments
      exact hhere segments hsegments
  · apply ordinary_with hentries
    · intro q t hq
      exact hnames.entries q t (hsub.subset hq)
    · exact hp
    · intro segments hsegments
      rw [hheaders] at hsegments
      exact hnames.headers segments hsegments

theorem endSegments_opened (h : ls.mapM itemOf = some xs) (current : List String) :
    endSegments current ls = current ∨ endSegments current ls ∈ headersOf xs := by
  induction ls generalizing current xs with
  | nil => exact Or.inl rfl
  | cons raw rest ih =>
      rcases mapM_itemOf_cons h with ⟨item, ys, hitem, hys, rfl⟩
      show endSegments (nextSegments current raw) rest = current ∨
        endSegments (nextSegments current raw) rest ∈ _
      cases item with
      | blank =>
          rw [nextSegments_blank hitem]
          exact ih hys current
      | header segments =>
          rw [nextSegments_header hitem]
          cases ih hys segments with
          | inl hsame =>
              rw [hsame]
              exact Or.inr List.mem_cons_self
          | inr hin => exact Or.inr (List.mem_cons_of_mem _ hin)
      | entry k v =>
          rw [nextSegments_entry hitem]
          exact ih hys current

theorem ordinary_section (hnames : OrdinaryNames items)
    (h : path = [] ∨ exists segments, segments ∈ headersOf items ∧ path <+: segments) :
    forall k, k ∈ path -> inherits k = false := by
  intro k hk
  cases h with
  | inl hroot =>
      rw [hroot] at hk
      cases hk
  | inr hheader =>
      rcases hheader with ⟨segments, hmem, habove⟩
      exact hnames.headers segments hmem k (habove.subset hk)

theorem no_header_beneath (hold : Denotes old items)
    (hnode : nodeAt old p ≠ Node.section_) :
    forall segments, segments ∈ headersOf items -> ¬ p <+: segments := by
  intro segments hsegments habove
  exact hnode ((hold.sections p).mpr (Or.inr ⟨segments, hsegments, habove⟩))

/-!
# Reading
-/

theorem mem_of_line (hitems : (splitLines text.toList).mapM itemOf = some items)
    (hlines : splitLines text.toList = before ++ raw :: after)
    (hsetting : keySetting raw = some (key.toList, t.toList)) :
    (endSegments [] before ++ [key], t) ∈ entriesOf [] items := by
  rw [hlines] at hitems
  rcases entry_of_line hitems hsetting with ⟨xs, ys, hxs, -, rfl⟩
  rw [entriesOf_entry hxs, String.ofList_toList, String.ofList_toList]
  exact List.mem_append_right _ List.mem_cons_self

theorem unset_of_no_line (hitems : (splitLines text.toList).mapM itemOf = some items)
    (hsame : SameLines text section_ key) (hnone : NoLine text section_ key) :
    forall t, (sectionPath section_ ++ [key], t) ∉ entriesOf [] items := by
  intro t hmem
  rcases line_of_entry hitems hmem with ⟨before, raw, after, k, hlines, hsetting, hpath⟩
  have hparts := List.append_inj' hpath rfl
  have hkey : k = key.toList := by
    rw [List.singleton_inj.mp hparts.2, String.toList_ofList]
  rw [hkey] at hsetting
  exact no_line_at hnone hlines hsetting
    ((hsame before raw after _ hlines hsetting).mpr hparts.1.symm)

theorem get_agrees (hitems : (splitLines text.toList).mapM itemOf = some items)
    (hold : Denotes old items) (hsame : SameLines text section_ key) :
    getIniValue text section_ key = settingAt old (sectionPath section_ ++ [key]) := by
  cases firstLine_or_none text section_ key with
  | inl hnone =>
      rw [get_of_no_line hnone]
      cases hset : settingAt old (sectionPath section_ ++ [key]) with
      | none => rfl
      | some t =>
          exact absurd ((settingAt_iff hold).mp hset) (unset_of_no_line hitems hsame hnone t)
  | inr hsome =>
      rcases hsome with ⟨before, raw, after, v, hfirst⟩
      have hsetting := hfirst.setting
      rw [← String.toList_ofList (l := v)] at hsetting
      have hmem := mem_of_line hitems hfirst.lines hsetting
      rw [(hsame before raw after v hfirst.lines hfirst.setting).mp hfirst.in_section] at hmem
      rw [hfirst.get, (settingAt_iff hold).mpr hmem]

/-!
# Setting
-/

theorem section_of_canonical (section_ : String) :
    canonicalSection section_.toList = (sectionOf (sectionPath section_)).toList := by
  have hparts : (sectionPath section_).map String.toList = pathSegments section_.toList := by
    unfold sectionPath
    rw [List.map_map]
    apply List.map_id''
    intro s
    exact String.toList_ofList
  unfold sectionOf
  rw [String.toList_append, String.toList_intercalate, hparts]
  rfl

theorem segment_of_path {s : String} (hs : s ∈ sectionPath section_) :
    trimChars s.toList ≠ [] ∧ '/' ∉ s.toList := by
  rcases List.mem_map.mp hs with ⟨cs, hcs, hsame⟩
  unfold pathSegments at hcs
  rw [List.mem_filter, Bool.not_eq_true', List.isEmpty_eq_false_iff] at hcs
  rw [← hsame, String.toList_ofList]
  exact ⟨hcs.2, (mem_splitOn hcs.1).1⟩

theorem items_of_edit {ys : List Item} {v : List Char} (hxs : before.mapM itemOf = some xs)
    (hys : after.mapM itemOf = some ys)
    (hlines : forall line, line ∈ before ++ after -> '\n' ∉ line) (hkey : KeyText key)
    (hv : '\n' ∉ v) :
    (splitLines (String.ofList
        (joinLines (before ++ entryLine key.toList v :: after))).toList).mapM itemOf =
      some (xs ++ Item.entry key (String.ofList (trimChars v)) :: ys) := by
  have hall := items_with_setting hxs hys (setting_entryLine hkey v)
  rw [String.ofList_toList] at hall
  rw [String.toList_ofList]
  apply items_of_join _ _ hall
  · intro line hline
    cases List.mem_append.mp hline with
    | inl hin => exact hlines line (List.mem_append_left _ hin)
    | inr hin =>
        cases List.mem_cons.mp hin with
        | inl heq =>
            rw [heq]
            exact one_line_entryLine hkey hv
        | inr hrest => exact hlines line (List.mem_append_right _ hrest)
  · simp

theorem leafSet_among {ys : List Item} (hformed : WellFormed items) (hnames : OrdinaryNames items)
    (hold : Denotes old items) (hxs : before.mapM itemOf = some xs)
    (hend : endSegments [] before = path)
    (hitems : (splitLines text'.toList).mapM itemOf = some (xs ++ Item.entry key value :: ys))
    (hheaders : headersOf (xs ++ ys) = headersOf items)
    (hsub : (entriesOf [] xs ++ entriesOf path ys).Sublist (entriesOf [] items))
    (hall : forall q t, (q, t) ∈ entriesOf [] items ->
      q = path ++ [key] ∨ (q, t) ∈ entriesOf [] xs ++ entriesOf path ys)
    (hnew : forall t, (path ++ [key], t) ∉ entriesOf [] xs ++ entriesOf path ys)
    (hfree : NoCollision old path key) (hname : inherits key = false) :
    exists new, iniToJson text' = Except.ok new ∧ LeafSet path key value old new := by
  have hentries : entriesOf [] (xs ++ Item.entry key value :: ys) =
      entriesOf [] xs ++ (path ++ [key], value) :: entriesOf path ys := by
    rw [entriesOf_entry hxs, hend]
  have hsame : headersOf (xs ++ Item.entry key value :: ys) = headersOf items := by
    rw [headersOf_entry, hheaders]
  have hmade : path = [] ∨ exists segments, segments ∈ headersOf items ∧ path <+: segments := by
    rw [← hheaders, headersOf_append]
    cases endSegments_opened hxs [] with
    | inl hroot => exact Or.inl (hend.symm.trans hroot)
    | inr hin =>
        rw [hend] at hin
        exact Or.inr ⟨path, List.mem_append_left _ hin, List.prefix_rfl⟩
  have hpath : forall k, k ∈ path ++ [key] -> inherits k = false := by
    intro k hk
    cases List.mem_append.mp hk with
    | inl hin => exact ordinary_section hnames hmade k hin
    | inr hin =>
        rw [List.mem_singleton.mp hin]
        exact hname
  rcases accepts_with hformed hnames hitems hsame hentries hsub hnew
    (no_header_beneath hold hfree.here) hpath with ⟨new, hok, hdenotes⟩
  refine ⟨new, hok, leafSet_of hold hdenotes ?_ ?_ ?_ ?_⟩
  · rw [hentries]
    exact List.mem_append_right _ List.mem_cons_self
  · intro q t hq
    rw [hentries, mem_with]
    constructor
    · intro h
      cases h with
      | inl hhere => exact absurd hhere.1 hq
      | inr hin => exact hsub.subset hin
    · intro h
      cases hall q t h with
      | inl hhere => exact absurd hhere hq
      | inr hin => exact Or.inr hin
  · rw [hsame]
    exact hmade
  · intro q _
    rw [hsame]

structure Lands (text section_ : String) : Prop where
  behind : forall before last after, LastContent text section_ before last after ->
    endSegments [] (before ++ [last]) = sectionPath section_
  one_line : NoContent text section_ -> forall s, s ∈ sectionPath section_ -> '\n' ∉ s.toList
  section_end : NoContent text section_ -> forall s, (sectionPath section_).getLast? = some s ->
    trimEnd s.toList = s.toList
  ordinary : NoContent text section_ -> forall s, s ∈ sectionPath section_ -> inherits s = false

theorem items_without_newlines (text : List Char) {items : List Item}
    (h : (splitLines text).mapM itemOf = some items) :
    exists xs, (splitLines (text.rdropWhile fun c => c == '\n')).mapM itemOf = some xs ∧
      headersOf xs = headersOf items ∧
        forall current, entriesOf current xs = entriesOf current items := by
  induction text using List.reverseRecOn generalizing items with
  | nil => exact ⟨items, h, rfl, fun _ => rfl⟩
  | append_singleton front x ih =>
      rw [List.rdropWhile_concat]
      split
      · rename_i hx
        rw [beq_iff_eq.mp hx] at h
        rw [mapM_itemOf_congr (trimmed_splitLines_append front [])] at h
        rcases mapM_itemOf_split h with ⟨zs, ys, hzs, hys, rfl⟩
        cases hys
        rcases ih hzs with ⟨xs, hxs, hheaders, hentries⟩
        refine ⟨xs, hxs, ?_, ?_⟩
        · rw [hheaders, headersOf_append]
          exact (List.append_nil _).symm
        · intro current
          rw [hentries]
          exact (entriesOf_blank zs current).symm
      · exact ⟨items, h, rfl, fun _ => rfl⟩

theorem items_appended {v : List Char}
    (hitems : (splitLines text.toList).mapM itemOf = some items)
    (hpath : forall s, s ∈ path -> SegmentText s) (hkey : KeyText key) (hv : '\n' ∉ v) :
    exists items', (splitLines (String.ofList (appendSection text.toList
        (sectionOf path).toList (entryLine key.toList v))).toList).mapM itemOf = some items' ∧
      headersOf items' = headersOf items ++ [readPath path] ∧
        entriesOf [] items' = entriesOf [] items ++
          [(readPath path ++ [key], String.ofList (trimChars v))] := by
  rcases lines_appended text.toList (one_line_sectionOf hpath) (one_line_entryLine hkey hv) with
    ⟨front, hfront, hlines⟩
  rcases items_without_newlines text.toList hitems with ⟨xs, hxs, hheaders, hentries⟩
  have hbefore : exists ys, front.mapM itemOf = some ys ∧ headersOf ys = headersOf items ∧
      entriesOf [] ys = entriesOf [] items := by
    cases hfront with
    | inl hnil =>
        rw [hnil.2] at hxs
        cases hxs
        rw [hnil.1]
        exact ⟨[], rfl, hheaders, hentries []⟩
    | inr hdoc =>
        rw [hdoc]
        refine ⟨xs ++ [Item.blank], mapM_itemOf_append hxs rfl, ?_, ?_⟩
        · rw [headersOf_append, hheaders]
          exact List.append_nil _
        · rw [entriesOf_blank, hentries]
  rcases hbefore with ⟨ys, hys, hheadersYs, hentriesYs⟩
  have hheader := itemOf_header hpath
  have hline : ("[" ++ sectionOf path ++ "]").toList =
      '[' :: ((sectionOf path).toList ++ [']']) := by
    rw [String.toList_append, String.toList_append]
    rfl
  rw [hline] at hheader
  have hentry := itemOf_of_setting (setting_entryLine hkey v)
  rw [String.ofList_toList] at hentry
  have hback : ['[' :: ((sectionOf path).toList ++ [']']), entryLine key.toList v, []].mapM
      itemOf = some [Item.header (readPath path),
        Item.entry key (String.ofList (trimChars v)), Item.blank] := by
    rw [List.mapM_cons, hheader, List.mapM_cons, hentry]
    rfl
  refine ⟨ys ++ [Item.header (readPath path), Item.entry key (String.ofList (trimChars v)),
    Item.blank], ?_, ?_, ?_⟩
  · rw [String.toList_ofList, mapM_itemOf_congr hlines]
    exact mapM_itemOf_append hys hback
  · rw [headersOf_append, hheadersYs]
    rfl
  · rw [entriesOf_append_header, hentriesYs]
    rfl

theorem entries_around (hxs : before.mapM itemOf = some xs) (hend : endSegments [] before = path)
    {ys : List Item} : entriesOf [] (xs ++ ys) = entriesOf [] xs ++ entriesOf path ys := by
  rw [entriesOf_behind hxs, hend]

theorem items_at_firstLine {v : List Char}
    (hitems : (splitLines text.toList).mapM itemOf = some items)
    (hsame : SameLines text section_ key)
    (hfirst : FirstLine text section_ key before raw after v) :
    exists xs ys, before.mapM itemOf = some xs ∧ after.mapM itemOf = some ys ∧
      endSegments [] before = sectionPath section_ ∧
        items = xs ++ Item.entry key (String.ofList v) :: ys ∧
          entriesOf [] items = entriesOf [] xs ++
            (sectionPath section_ ++ [key], String.ofList v) ::
              entriesOf (sectionPath section_) ys := by
  rw [hfirst.lines] at hitems
  rcases entry_of_line hitems hfirst.setting with ⟨xs, ys, hxs, hys, rfl⟩
  have hend := (hsame before raw after v hfirst.lines hfirst.setting).mp hfirst.in_section
  rw [String.ofList_toList]
  refine ⟨xs, ys, hxs, hys, hend, rfl, ?_⟩
  rw [entriesOf_entry hxs, hend]

theorem lines_of_text (hlines : splitLines text.toList = before ++ raw :: after) :
    forall line, line ∈ before ++ after -> '\n' ∉ line := by
  intro line hline
  have hmem : line ∈ splitLines text.toList := by
    rw [hlines]
    cases List.mem_append.mp hline with
    | inl hin => exact List.mem_append_left _ hin
    | inr hin => exact List.mem_append_right _ (List.mem_cons_of_mem _ hin)
  exact (mem_splitLines hmem).1

theorem sublist_around (e : List String × String) :
    (es ++ fs).Sublist (es ++ e :: fs) :=
  List.Sublist.append_left (List.sublist_cons_self _ _) _

theorem set_replaces {v : List Char}
    (hitems : (splitLines text.toList).mapM itemOf = some items)
    (hformed : WellFormed items) (hnames : OrdinaryNames items) (hold : Denotes old items)
    (hkey : KeyText key) (hvalue : ValueText value) (hsame : SameLines text section_ key)
    (hfirst : FirstLine text section_ key before raw after v)
    (hfree : NoCollision old (sectionPath section_) key) :
    exists new, iniToJson (setIniValue text section_ key value) = Except.ok new ∧
      LeafSet (sectionPath section_) key value old new := by
  rcases items_at_firstLine hitems hsame hfirst with ⟨xs, ys, hxs, hys, hend, hsplit, hE⟩
  have hset := items_of_edit hxs hys (lines_of_text hfirst.lines) hkey hvalue.one_line
  rw [trimChars_of_trimmed hvalue.trimmed, String.ofList_toList] at hset
  have hname : inherits key = false := by
    apply hnames.entries (sectionPath section_ ++ [key]) (String.ofList v)
    · rw [hE]
      exact List.mem_append_right _ List.mem_cons_self
    · exact List.mem_append_right _ (List.mem_singleton.mpr rfl)
  have hdistinct := hformed.distinct
  rw [hE] at hdistinct
  rw [hfirst.set]
  apply leafSet_among hformed hnames hold hxs hend hset _ _ _ (without_entry hdistinct) hfree hname
  · rw [hsplit, headersOf_entry]
  · rw [hE]
    exact sublist_around _
  · intro q t hq
    rw [hE, mem_with] at hq
    cases hq with
    | inl hhere => exact Or.inl hhere.1
    | inr hin => exact Or.inr hin

theorem set_inserts {last : List Char}
    (hitems : (splitLines text.toList).mapM itemOf = some items)
    (hformed : WellFormed items) (hnames : OrdinaryNames items) (hold : Denotes old items)
    (hkey : KeyText key) (hvalue : ValueText value)
    (hunset : forall t, (sectionPath section_ ++ [key], t) ∉ entriesOf [] items)
    (hlast : LastContent text section_ before last after)
    (hend : endSegments [] (before ++ [last]) = sectionPath section_)
    (hfree : NoCollision old (sectionPath section_) key) (hname : inherits key = false) :
    exists new, iniToJson (String.ofList
        (joinLines ((before ++ [last]) ++ entryLine key.toList value.toList :: after))) =
          Except.ok new ∧ LeafSet (sectionPath section_) key value old new := by
  have hlines : splitLines text.toList = (before ++ [last]) ++ after := by
    rw [hlast.lines, List.append_assoc]
    rfl
  rw [hlines] at hitems
  rcases mapM_itemOf_split hitems with ⟨xs, ys, hxs, hys, rfl⟩
  have hplain : forall line, line ∈ (before ++ [last]) ++ after -> '\n' ∉ line := by
    intro line hline
    rw [← hlines] at hline
    exact (mem_splitLines hline).1
  have hset := items_of_edit hxs hys hplain hkey hvalue.one_line
  rw [trimChars_of_trimmed hvalue.trimmed, String.ofList_toList] at hset
  have hE := @entries_around _ _ _ hxs hend ys
  apply leafSet_among hformed hnames hold hxs hend hset rfl _ _ _ hfree hname
  · rw [hE]
  · intro q t hq
    rw [hE] at hq
    exact Or.inr hq
  · intro t ht
    rw [← hE] at ht
    exact hunset t ht

theorem set_appends (hitems : (splitLines text.toList).mapM itemOf = some items)
    (hformed : WellFormed items) (hnames : OrdinaryNames items) (hold : Denotes old items)
    (hkey : KeyText key) (hvalue : ValueText value)
    (hunset : forall t, (sectionPath section_ ++ [key], t) ∉ entriesOf [] items)
    (hempty : NoContent text section_) (hlands : Lands text section_)
    (hfree : NoCollision old (sectionPath section_) key) (hname : inherits key = false) :
    exists new, iniToJson (String.ofList (appendSection text.toList
        (canonicalSection section_.toList) (entryLine key.toList value.toList))) =
          Except.ok new ∧ LeafSet (sectionPath section_) key value old new := by
  have hpath : forall s, s ∈ sectionPath section_ -> SegmentText s := by
    intro s hs
    have hsegment := segment_of_path hs
    exact ⟨hsegment.1, hsegment.2, hlands.one_line hempty s hs⟩
  rcases items_appended hitems hpath hkey hvalue.one_line with
    ⟨items', hitems', hheaders, hentries⟩
  rw [readPath_same (hlands.section_end hempty)] at hheaders hentries
  rw [trimChars_of_trimmed hvalue.trimmed, String.ofList_toList] at hentries
  rw [← section_of_canonical] at hitems'
  have hmem : forall {segments : List String}, segments ∈ headersOf items' <->
      segments ∈ headersOf items ∨ segments = sectionPath section_ := by
    intro segments
    rw [hheaders, List.mem_append, List.mem_singleton]
  have hentriesNil : entriesOf [] items' =
      entriesOf [] items ++ (sectionPath section_ ++ [key], value) :: [] := hentries
  have hbase : entriesOf [] items ++ [] = entriesOf [] items := List.append_nil _
  have hnames' : forall k, k ∈ sectionPath section_ ++ [key] -> inherits k = false := by
    intro k hk
    cases List.mem_append.mp hk with
    | inl hin => exact hlands.ordinary hempty k hin
    | inr hin =>
        rw [List.mem_singleton.mp hin]
        exact hname
  have haccepts := accepts_ordinary hitems' (wellFormed_with hentriesNil ?_ ?_ ?_ ?_)
    (ordinary_with hentriesNil ?_ hnames' ?_)
  · rcases haccepts with ⟨new, hok, hdenotes⟩
    refine ⟨new, hok, leafSet_of hold hdenotes ?_ ?_ ?_ ?_⟩
    · rw [hentries]
      exact List.mem_append_right _ (List.mem_singleton.mpr rfl)
    · intro q t hq
      rw [hentriesNil, mem_with, hbase]
      constructor
      · intro h
        cases h with
        | inl hhere => exact absurd hhere.1 hq
        | inr hin => exact hin
      · exact Or.inr
    · exact Or.inr ⟨_, hmem.mpr (Or.inr rfl), List.prefix_rfl⟩
    · intro q hq
      constructor
      · intro h
        rcases h with ⟨segments, hsegments, habove⟩
        cases hmem.mp hsegments with
        | inl hin => exact ⟨segments, hin, habove⟩
        | inr heq =>
            rw [heq] at habove
            exact absurd habove hq
      · intro h
        rcases h with ⟨segments, hsegments, habove⟩
        exact ⟨segments, hmem.mpr (Or.inl hsegments), habove⟩
  · rw [hbase]
    exact hformed.distinct
  · rw [hbase]
    exact hunset
  · intro q t segments hq hsegments
    rw [hbase] at hq
    cases hmem.mp hsegments with
    | inl hin => exact hformed.beside q t segments hq hin
    | inr heq =>
        rw [heq]
        intro habove
        exact hfree.above q _ habove ((hold.values q _).mpr ⟨t, hq, rfl⟩)
  · intro segments hsegments
    cases hmem.mp hsegments with
    | inl hin => exact no_header_beneath hold hfree.here segments hin
    | inr heq =>
        rw [heq]
        intro habove
        have hlength := habove.length_le
        rw [List.length_append, List.length_singleton] at hlength
        omega
  · intro q t hq
    rw [hbase] at hq
    exact hnames.entries q t hq
  · intro segments hsegments
    cases hmem.mp hsegments with
    | inl hin => exact hnames.headers segments hin
    | inr heq =>
        rw [heq]
        exact hlands.ordinary hempty

theorem set_agrees (hitems : (splitLines text.toList).mapM itemOf = some items)
    (hformed : WellFormed items) (hnames : OrdinaryNames items) (hold : Denotes old items)
    (hkey : KeyText key) (hvalue : ValueText value) (hsame : SameLines text section_ key)
    (hfree : NoCollision old (sectionPath section_) key)
    (hname : NoLine text section_ key -> inherits key = false)
    (hlands : NoLine text section_ key -> Lands text section_) :
    exists new, iniToJson (setIniValue text section_ key value) = Except.ok new ∧
      LeafSet (sectionPath section_) key value old new := by
  cases firstLine_or_none text section_ key with
  | inr hsome =>
      rcases hsome with ⟨before, raw, after, v, hfirst⟩
      exact set_replaces hitems hformed hnames hold hkey hvalue hsame hfirst hfree
  | inl hnone =>
      have hunset := unset_of_no_line hitems hsame hnone
      cases lastContent_or_none text section_ with
      | inl hsome =>
          rcases hsome with ⟨before, last, after, hlast⟩
          rw [set_behind hnone hlast]
          exact set_inserts hitems hformed hnames hold hkey hvalue hunset hlast
            ((hlands hnone).behind before last after hlast) hfree (hname hnone)
      | inr hempty =>
          rw [set_new hnone hempty]
          exact set_appends hitems hformed hnames hold hkey hvalue hunset hempty (hlands hnone)
            hfree (hname hnone)

theorem ordinary_of_node (hok : iniToJson text = Except.ok members)
    (hnode : nodeAt members p ≠ Node.nothing) : forall k, k ∈ p -> inherits k = false :=
  own_of_node (ownKeys_iniToJson hok) hnode

theorem ordinary_of_set (hok : iniToJson text' = Except.ok new)
    (hset : LeafSet path key value old new) :
    forall k, k ∈ path ++ [key] -> inherits k = false := by
  apply ordinary_of_node hok
  rw [hset, if_pos rfl]
  intro h
  cases h

theorem lands_of_set (hitems : (splitLines text.toList).mapM itemOf = some items)
    (hkey : KeyText key) (hvalue : ValueText value) (hsame : SameLines text section_ key)
    (hnone : NoLine text section_ key)
    (hok : iniToJson (setIniValue text section_ key value) = Except.ok new)
    (hset : LeafSet (sectionPath section_) key value old new) : Lands text section_ := by
  have hunset := unset_of_no_line hitems hsame hnone
  have hnode : nodeAt new (sectionPath section_ ++ [key]) = Node.value (Json.string value) := by
    rw [hset, if_pos rfl]
  have happended : NoContent text section_ ->
      (forall s, s ∈ sectionPath section_ -> SegmentText s) ∧
        readPath (sectionPath section_) = sectionPath section_ := by
    intro hempty
    rw [set_new hnone hempty] at hok
    rcases texts_of_value hok hnode with ⟨segments, k, v, hpath, -, hsegments, -, -⟩
    have hparts := List.append_inj' hpath rfl
    rw [← hparts.1] at hsegments
    rcases items_appended hitems hsegments hkey hvalue.one_line with
      ⟨items', hitems', -, hentries⟩
    rw [← section_of_canonical] at hitems'
    rcases entry_of_value hok hitems' hnode with ⟨t, hmem, -⟩
    refine ⟨hsegments, ?_⟩
    rw [hentries] at hmem
    cases List.mem_append.mp hmem with
    | inl hin => exact absurd hin (hunset t)
    | inr hin =>
        have hread : sectionPath section_ ++ [key] = readPath (sectionPath section_) ++ [key] :=
          congrArg Prod.fst (List.mem_singleton.mp hin)
        exact (List.append_inj' hread rfl).1.symm
  constructor
  · intro before last after hlast
    have hlines : splitLines text.toList = (before ++ [last]) ++ after := by
      rw [hlast.lines, List.append_assoc]
      rfl
    have hsplit := hitems
    rw [hlines] at hsplit
    rcases mapM_itemOf_split hsplit with ⟨xs, ys, hxs, hys, rfl⟩
    have hplain : forall line, line ∈ (before ++ [last]) ++ after -> '\n' ∉ line := by
      intro line hline
      rw [← hlines] at hline
      exact (mem_splitLines hline).1
    rw [set_behind hnone hlast] at hok
    rcases entry_of_value hok (items_of_edit hxs hys hplain hkey hvalue.one_line) hnode with
      ⟨t, hmem, -⟩
    rw [entriesOf_entry hxs, mem_with, ← entriesOf_behind hxs] at hmem
    cases hmem with
    | inl hhere => exact (List.append_inj' hhere.1 rfl).1.symm
    | inr hin => exact absurd hin (hunset t)
  · intro hempty s hs
    exact ((happended hempty).1 s hs).one_line
  · intro hempty s hs
    rw [← (happended hempty).2] at hs
    exact readPath_end hs
  · intro _ s hs
    exact ordinary_of_set hok hset s (List.mem_append_left _ hs)

/-!
# Renaming
-/

theorem value_text_of_setting {k v : List Char} (hraw : '\n' ∉ raw)
    (hsetting : keySetting raw = some (k, v)) : trimChars v = v ∧ '\n' ∉ v := by
  have htexts := (texts_of_entry hraw (itemOf_of_setting hsetting)).2
  have htrimmed := htexts.trimmed
  have hline := htexts.one_line
  rw [String.toList_ofList] at htrimmed hline
  exact ⟨htrimmed, hline⟩

/-- One entry under another key, and the same headers. -/
theorem leafRenamed_of {items' : List Item} {es fs : List (List String × String)} {t : String}
    (hformed : WellFormed items) (hold : Denotes old items) (hdenotes : Denotes new items')
    (hE : entriesOf [] items = es ++ (sectionPath section_ ++ [key], t) :: fs)
    (hE' : entriesOf [] items' = es ++ (sectionPath section_ ++ [newKey], t) :: fs)
    (hheaders : headersOf items' = headersOf items)
    (hfree : nodeAt old (sectionPath section_ ++ [newKey]) = Node.nothing) :
    LeafRenamed (sectionPath section_) key newKey old new := by
  have hdistinct := hformed.distinct
  rw [hE] at hdistinct
  have hgone := without_entry hdistinct
  have hmem : (sectionPath section_ ++ [key], t) ∈ entriesOf [] items := by
    rw [hE]
    exact List.mem_append_right _ List.mem_cons_self
  constructor
  · intro habsent
    rw [(settingAt_iff hold).mpr hmem] at habsent
    cases habsent
  · intro u hu q
    have hvalue := (settingAt_iff hold).mp hu
    rw [text_unique hformed hvalue hmem]
    have hother : sectionPath section_ ++ [key] ≠ sectionPath section_ ++ [newKey] := by
      intro heq
      have hset := settingAt_eq_some.mp hu
      rw [heq, hfree] at hset
      cases hset
    by_cases hq : q = sectionPath section_ ++ [key]
    · rw [if_pos hq, hq]
      apply node_ext
      · intro u
        rw [hdenotes.values]
        constructor
        · intro h
          rcases h with ⟨t', ht', -⟩
          rw [hE', mem_with] at ht'
          cases ht' with
          | inl hhere => exact absurd hhere.1 hother
          | inr hin => exact absurd hin (hgone t')
        · intro h
          cases h
      · rw [hdenotes.sections, hheaders, ← hold.sections, settingAt_eq_some.mp hu]
        constructor
        · intro h
          cases h
        · intro h
          cases h
    · rw [if_neg hq]
      by_cases hq' : q = sectionPath section_ ++ [newKey]
      · rw [if_pos hq', hq', hdenotes.values]
        refine ⟨_, ?_, rfl⟩
        rw [hE']
        exact List.mem_append_right _ List.mem_cons_self
      · rw [if_neg hq']
        apply node_ext
        · intro u
          rw [hdenotes.values, hold.values, hE', hE]
          simp only [mem_with, hq, hq', false_and, false_or]
        · rw [hdenotes.sections, hold.sections, hheaders]

theorem rename_first {v : List Char}
    (hitems : (splitLines text.toList).mapM itemOf = some items)
    (hformed : WellFormed items) (hnames : OrdinaryNames items) (hold : Denotes old items)
    (hnew : KeyText newKey) (hsame : SameLines text section_ key)
    (hfirst : FirstLine text section_ key before raw after v)
    (hfree : nodeAt old (sectionPath section_ ++ [newKey]) = Node.nothing)
    (hname : inherits newKey = false) :
    exists new, iniToJson (renameIniKey text section_ key newKey) = Except.ok new ∧
      LeafRenamed (sectionPath section_) key newKey old new := by
  rcases items_at_firstLine hitems hsame hfirst with ⟨xs, ys, hxs, hys, hend, hsplit, hE⟩
  have hraw : '\n' ∉ raw := by
    apply (@mem_splitLines text.toList raw _).1
    rw [hfirst.lines]
    exact List.mem_append_right _ List.mem_cons_self
  have hv := value_text_of_setting hraw hfirst.setting
  have hrenamed := items_of_edit hxs hys (lines_of_text hfirst.lines) hnew hv.2
  rw [hv.1] at hrenamed
  have hentries : entriesOf [] (xs ++ Item.entry newKey (String.ofList v) :: ys) =
      entriesOf [] xs ++ (sectionPath section_ ++ [newKey], String.ofList v) ::
        entriesOf (sectionPath section_) ys := by
    rw [entriesOf_entry hxs, hend]
  have hheaders : headersOf (xs ++ Item.entry newKey (String.ofList v) :: ys) =
      headersOf items := by
    rw [hsplit, headersOf_entry, headersOf_entry]
  have hsub := @sublist_around (entriesOf [] xs) (entriesOf (sectionPath section_) ys)
    (sectionPath section_ ++ [key], String.ofList v)
  rw [← hE] at hsub
  have hfresh : forall t, (sectionPath section_ ++ [newKey], t) ∉
      entriesOf [] xs ++ entriesOf (sectionPath section_) ys := by
    intro t ht
    have hvalue := (hold.values _ _).mpr ⟨t, hsub.subset ht, rfl⟩
    rw [hfree] at hvalue
    cases hvalue
  have hpath : forall k, k ∈ sectionPath section_ ++ [newKey] -> inherits k = false := by
    intro k hk
    have hmem : (sectionPath section_ ++ [key], String.ofList v) ∈ entriesOf [] items := by
      rw [hE]
      exact List.mem_append_right _ List.mem_cons_self
    cases List.mem_append.mp hk with
    | inl hin => exact hnames.entries _ _ hmem k (List.mem_append_left _ hin)
    | inr hin =>
        rw [List.mem_singleton.mp hin]
        exact hname
  have hnot : nodeAt old (sectionPath section_ ++ [newKey]) ≠ Node.section_ := by
    rw [hfree]
    intro h
    cases h
  rw [hfirst.rename]
  rcases accepts_with hformed hnames hrenamed hheaders hentries hsub hfresh
    (no_header_beneath hold hnot) hpath with ⟨new, hok, hdenotes⟩
  exact ⟨new, hok, leafRenamed_of hformed hold hdenotes hE hentries hheaders hfree⟩

theorem rename_agrees (hitems : (splitLines text.toList).mapM itemOf = some items)
    (hformed : WellFormed items) (hnames : OrdinaryNames items) (hold : Denotes old items)
    (hnew : KeyText newKey) (hsame : SameLines text section_ key)
    (hfree : nodeAt old (sectionPath section_ ++ [newKey]) = Node.nothing)
    (hname : ¬ NoLine text section_ key -> inherits newKey = false) :
    exists new, iniToJson (renameIniKey text section_ key newKey) = Except.ok new ∧
      LeafRenamed (sectionPath section_) key newKey old new := by
  cases firstLine_or_none text section_ key with
  | inr hsome =>
      rcases hsome with ⟨before, raw, after, v, hfirst⟩
      apply rename_first hitems hformed hnames hold hnew hsame hfirst hfree
      apply hname
      intro hnone
      exact no_line_at hnone hfirst.lines hfirst.setting hfirst.in_section
  | inl hnone =>
      have hlines : forall line, line ∈ splitLines text.toList -> '\n' ∉ line :=
        fun line hline => (mem_splitLines hline).1
      have hsplit := items_of_join hlines (splitLines_ne_nil _) hitems
      rw [rename_of_no_line hnone]
      have haccepts := @accepts_ordinary (String.ofList (joinLines (splitLines text.toList)))
        items ?_ hformed hnames
      · rcases haccepts with ⟨new, hok, hdenotes⟩
        refine ⟨new, hok, ?_, ?_⟩
        · intro _ q
          apply node_ext
          · intro u
            rw [hdenotes.values, hold.values]
          · rw [hdenotes.sections, hold.sections]
        · intro t ht
          exact absurd ((settingAt_iff hold).mp ht) (unset_of_no_line hitems hsame hnone t)
      · rw [String.toList_ofList]
        exact hsplit

/-!
# The claim of the form
-/

/-- No header leads through `__proto__`. -/
def OwnHeaders (text : String) : Prop :=
  forall raw segments, raw ∈ splitLines text.toList ->
    itemOf raw = some (Item.header segments) -> protoKey ∉ segments

/-- The form reads the value of the document, and its edits of the text are those of the
document, as far as no value and no section stand in each other's place. -/
structure EditsAgree (members : List Member) (text section_ key value newKey : String) :
    Prop where
  get : getIniValue text section_ key = settingAt members (sectionPath section_ ++ [key])
  set : NoCollision members (sectionPath section_) key ->
    exists new, iniToJson (setIniValue text section_ key value) = Except.ok new ∧
      LeafSet (sectionPath section_) key value members new
  remove : exists new, iniToJson (removeIniKey text section_ key) = Except.ok new ∧
    LeafRemoved (sectionPath section_) key members new
  rename : nodeAt members (sectionPath section_ ++ [newKey]) = Node.nothing ->
    exists new, iniToJson (renameIniKey text section_ key newKey) = Except.ok new ∧
      LeafRenamed (sectionPath section_) key newKey members new

/-- The key has the same lines in the section for the form and for the parser.  A key that
has none is no inherited name and is put where the parser finds the section; a key that
has one gets no inherited name. -/
structure ReadAlike (members : List Member) (text section_ key newKey : String) : Prop where
  key_lines : SameLines text section_ key
  name : NoLine text section_ key -> NoCollision members (sectionPath section_) key ->
    inherits key = false
  lands : NoLine text section_ key -> NoCollision members (sectionPath section_) key ->
    Lands text section_
  new_name : ¬ NoLine text section_ key -> inherits newKey = false

theorem noProto_of_own (hown : OwnHeaders text)
    (hitems : (splitLines text.toList).mapM itemOf = some items) : NoProto items := by
  intro segments hsegments
  rcases mem_of_mapM_itemOf hitems (mem_headersOf.mp hsegments) with ⟨raw, hraw, hitem⟩
  exact hown raw segments hraw hitem

theorem agree_of_alike (hok : iniToJson text = Except.ok members) (hown : OwnHeaders text)
    (hkey : KeyText key) (hvalue : ValueText value) (hnew : KeyText newKey)
    (halike : ReadAlike members text section_ key newKey) :
    EditsAgree members text section_ key value newKey := by
  rcases iniToJson_iff.mp hok with ⟨items, final, hitems, -, -⟩
  rcases accepted hok hitems (noProto_of_own hown hitems) with ⟨hformed, hnames, hdenotes⟩
  constructor
  · exact get_agrees hitems hdenotes halike.key_lines
  · intro hfree
    exact set_agrees hitems hformed hnames hdenotes hkey hvalue halike.key_lines hfree
      (fun hnone => halike.name hnone hfree) (fun hnone => halike.lands hnone hfree)
  · exact remove_agrees hitems hformed hnames hdenotes halike.key_lines
  · intro hfree
    exact rename_agrees hitems hformed hnames hdenotes hnew halike.key_lines hfree
      halike.new_name

theorem alike_of_agree (hok : iniToJson text = Except.ok members) (hown : OwnHeaders text)
    (hkey : KeyText key) (hvalue : ValueText value)
    (hagree : EditsAgree members text section_ key value newKey) :
    ReadAlike members text section_ key newKey := by
  rcases iniToJson_iff.mp hok with ⟨items, final, hitems, -, -⟩
  have hproto := noProto_of_own hown hitems
  rcases accepted hok hitems hproto with ⟨hformed, hnames, hdenotes⟩
  have hsame : SameLines text section_ key := by
    rcases hagree.remove with ⟨new, hremove, hleaf⟩
    exact sameLines_of_remove hitems hproto hformed hdenotes hremove hleaf
  constructor
  · exact hsame
  · intro _ hfree
    rcases hagree.set hfree with ⟨new, hset, hleaf⟩
    exact ordinary_of_set hset hleaf key (List.mem_append_right _ (List.mem_singleton.mpr rfl))
  · intro hnone hfree
    rcases hagree.set hfree with ⟨new, hset, hleaf⟩
    exact lands_of_set hitems hkey hvalue hsame hnone hset hleaf
  · intro hsome
    have hlast : newKey ∈ sectionPath section_ ++ [newKey] :=
      List.mem_append_right _ (List.mem_singleton.mpr rfl)
    by_cases hfree : nodeAt members (sectionPath section_ ++ [newKey]) = Node.nothing
    · rcases hagree.rename hfree with ⟨new, hrename, hleaf⟩
      cases firstLine_or_none text section_ key with
      | inl hnone => exact absurd hnone hsome
      | inr hline =>
          rcases hline with ⟨before, raw, after, v, hfirst⟩
          have hget := hagree.get.symm.trans hfirst.get
          apply ordinary_of_node hrename _ newKey hlast
          have hthere := hleaf.present _ hget (sectionPath section_ ++ [newKey])
          rw [if_neg, if_pos rfl] at hthere
          · rw [hthere]
            intro h
            cases h
          · intro heq
            have hset := settingAt_eq_some.mp hget
            rw [← heq, hfree] at hset
            cases hset
    · exact ordinary_of_node hok hfree newKey hlast

/-!
# How headers are spelled
-/

def headerPath (ls : List (List Char)) : List (List Char) :=
  pathSegments (lastHeader ls)

def Unset (text section_ key : String) : Prop :=
  forall before raw after v, splitLines text.toList = before ++ raw :: after ->
    keySetting raw = some (key.toList, v) -> headerPath before ≠ pathSegments section_.toList

/-- There is no header of the section, and at the top only blank lines. -/
def Untouched (text section_ : String) : Prop :=
  forall before raw after, splitLines text.toList = before ++ raw :: after ->
    trimChars raw ≠ [] -> headerPath (before ++ [raw]) ≠ pathSegments section_.toList

structure LastLine (text section_ : String) (before : List (List Char)) (last : List Char)
    (after : List (List Char)) : Prop where
  lines : splitLines text.toList = before ++ last :: after
  in_section : headerPath (before ++ [last]) = pathSegments section_.toList
  not_blank : trimChars last ≠ []
  rest : forall more raw others, after = more ++ raw :: others -> trimChars raw ≠ [] ->
    headerPath (before ++ [last] ++ more ++ [raw]) ≠ pathSegments section_.toList

/-- A line of the key is under a header without blanks next to its outer segments, or
under one that is not the section's with them nor without them. -/
def TightAbove (text section_ key : String) : Prop :=
  forall before raw after v, splitLines text.toList = before ++ raw :: after ->
    keySetting raw = some (key.toList, v) ->
      tight (lastHeader before) = true ∨
        (headerPath before ≠ pathSegments section_.toList ∧
          pathSegments (trimChars (lastHeader before)) ≠ pathSegments section_.toList)

/-- The section's last header has no blanks next to its outer segments; where there is
none, its path is one line, has no blank at its end and no inherited name. -/
structure LandsTight (text section_ : String) : Prop where
  behind : forall before last after, LastLine text section_ before last after ->
    tight (lastHeader (before ++ [last])) = true
  one_line : Untouched text section_ -> forall s, s ∈ sectionPath section_ -> '\n' ∉ s.toList
  section_end : Untouched text section_ ->
    forall s, (sectionPath section_).getLast? = some s -> trimEnd s.toList = s.toList
  ordinary : Untouched text section_ -> forall s, s ∈ sectionPath section_ -> inherits s = false

/-- How the headers of the section are spelled, and which names are given: a key without
a line is no inherited name, and neither is the new name of a key with one. -/
structure SpelledAlike (members : List Member) (text section_ key newKey : String) : Prop where
  key_lines : TightAbove text section_ key
  name : Unset text section_ key -> NoCollision members (sectionPath section_) key ->
    inherits key = false
  lands : Unset text section_ key -> NoCollision members (sectionPath section_) key ->
    LandsTight text section_
  new_name : ¬ Unset text section_ key -> inherits newKey = false

/-!
## Headers and the scanners
-/

theorem sections_at (hitems : (splitLines text.toList).mapM itemOf = some items)
    (hlines : splitLines text.toList = before ++ after) :
    (endSection ['/'] before = canonicalSection section_.toList <->
      headerPath before = pathSegments section_.toList) ∧
    (endSegments [] before = sectionPath section_ <->
      pathSegments (trimChars (lastHeader before)) = pathSegments section_.toList) := by
  rw [hlines] at hitems
  rcases mapM_itemOf_split hitems with ⟨xs, ys, hxs, -, -⟩
  rcases sections_behind hxs with ⟨hform, hparser⟩
  constructor
  · rw [hform]
    exact canonical_iff
  · rw [hparser]
    unfold sectionPath
    have hinjective : Function.Injective String.ofList :=
      fun _ _ h => String.ofList_injective h
    exact (List.map_injective_iff.mpr hinjective).eq_iff

theorem sameLines_iff (hitems : (splitLines text.toList).mapM itemOf = some items) :
    SameLines text section_ key <-> TightAbove text section_ key := by
  constructor
  · intro h before raw after v hlines hsetting
    have hsame := h before raw after v hlines hsetting
    have hat := @sections_at before (raw :: after) items text section_ hitems hlines
    rw [hat.1, hat.2] at hsame
    by_cases hhere : headerPath before = pathSegments section_.toList
    · exact Or.inl (tight_iff.mpr (hhere.trans (hsame.mp hhere).symm))
    · exact Or.inr ⟨hhere, fun hthere => hhere (hsame.mpr hthere)⟩
  · intro h before raw after v hlines hsetting
    have hat := @sections_at before (raw :: after) items text section_ hitems hlines
    rw [hat.1, hat.2]
    rcases h before raw after v hlines hsetting with htight | ⟨hhere, hthere⟩
    · unfold headerPath
      rw [tight_iff.mp htight]
    · exact iff_of_false hhere hthere

theorem noLine_iff (hitems : (splitLines text.toList).mapM itemOf = some items) :
    NoLine text section_ key <-> Unset text section_ key := by
  constructor
  · intro h before raw after v hlines hsetting hhere
    exact no_line_at h hlines hsetting ((sections_at hitems hlines).1.mpr hhere)
  · intro h
    cases firstLine_or_none text section_ key with
    | inl hnone => exact hnone
    | inr hsome =>
        rcases hsome with ⟨before, raw, after, v, hfirst⟩
        have hhere := (sections_at hitems hfirst.lines).1.mp hfirst.in_section
        exact absurd hhere (h before raw after v hfirst.lines hfirst.setting)

theorem lines_through (hlines : splitLines text.toList = before ++ raw :: after) :
    splitLines text.toList = (before ++ [raw]) ++ after := by
  rw [hlines, List.append_assoc]
  rfl

theorem noContent_iff (hitems : (splitLines text.toList).mapM itemOf = some items) :
    NoContent text section_ <-> Untouched text section_ := by
  constructor
  · intro h before raw after hlines hblank hhere
    have hat := (sections_at hitems (lines_through hlines)).1.mpr hhere
    rw [endSection_append] at hat
    have hcontent := h _ (scanned_at hlines)
    rw [Bool.eq_false_iff] at hcontent
    apply hcontent
    unfold isContent
    rw [Bool.and_eq_true, beq_iff_eq, Bool.not_eq_true', List.isEmpty_eq_false_iff]
    exact ⟨hat, hblank⟩
  · intro h
    cases lastContent_or_none text section_ with
    | inr hnone => exact hnone
    | inl hsome =>
        rcases hsome with ⟨before, last, after, hlast⟩
        have hhere := (sections_at hitems (lines_through hlast.lines)).1.mp hlast.in_section
        exact absurd hhere (h before last after hlast.lines hlast.not_blank)

theorem scanFrom_at (current : List Char) (more others : List (List Char)) (raw : List Char) :
    { section_ := endSection current (more ++ [raw]), raw := raw } ∈
      scanFrom current (more ++ raw :: others) := by
  rw [scanFrom_append, endSection_append]
  exact List.mem_append_right _ List.mem_cons_self

theorem mem_scanFrom {current : List Char} {l : Scanned} (h : l ∈ scanFrom current ls) :
    exists more raw others, ls = more ++ raw :: others ∧
      l = { section_ := endSection current (more ++ [raw]), raw := raw } := by
  induction ls generalizing current with
  | nil => cases h
  | cons first rest ih =>
      cases List.mem_cons.mp h with
      | inl heq => exact ⟨[], first, rest, rfl, heq⟩
      | inr hin =>
          rcases ih hin with ⟨more, raw, others, rfl, hl⟩
          exact ⟨first :: more, raw, others, rfl, hl⟩

theorem lastLine_iff {last : List Char}
    (hitems : (splitLines text.toList).mapM itemOf = some items) :
    LastContent text section_ before last after <-> LastLine text section_ before last after := by
  -- Lines behind the last one, as the form sees them and as they stand.
  have hbehind : forall {more raw others}, splitLines text.toList = before ++ last :: after ->
      endSection ['/'] (before ++ [last]) = canonicalSection section_.toList ->
      after = more ++ raw :: others ->
      (endSection (canonicalSection section_.toList) (more ++ [raw]) =
          canonicalSection section_.toList <->
        headerPath (before ++ [last] ++ more ++ [raw]) = pathSegments section_.toList) := by
    intro more raw others hlines hsection hafter
    have hsplit : splitLines text.toList =
        (before ++ [last] ++ more ++ [raw]) ++ others := by
      rw [hlines, hafter]
      simp only [List.append_assoc, List.cons_append, List.nil_append]
    have hat := (@sections_at _ _ _ _ section_ hitems hsplit).1
    rw [List.append_assoc, endSection_append, hsection] at hat
    rw [List.append_assoc]
    exact hat
  constructor
  · intro h
    refine ⟨h.lines, (sections_at hitems (lines_through h.lines)).1.mp h.in_section, h.not_blank,
      ?_⟩
    intro more raw others hafter hblank hhere
    have hsection := (hbehind h.lines h.in_section hafter).mpr hhere
    have hmem := scanFrom_at (canonicalSection section_.toList) more others raw
    rw [← hafter] at hmem
    have hcontent := h.rest _ hmem
    rw [Bool.eq_false_iff] at hcontent
    apply hcontent
    unfold isContent
    rw [Bool.and_eq_true, beq_iff_eq, Bool.not_eq_true', List.isEmpty_eq_false_iff]
    exact ⟨hsection, hblank⟩
  · intro h
    have hsection := (sections_at hitems (lines_through h.lines)).1.mpr h.in_section
    refine ⟨h.lines, hsection, h.not_blank, ?_⟩
    intro l hl
    rcases mem_scanFrom hl with ⟨more, raw, others, hafter, rfl⟩
    rw [Bool.eq_false_iff]
    intro hcontent
    unfold isContent at hcontent
    rw [Bool.and_eq_true, beq_iff_eq, Bool.not_eq_true', List.isEmpty_eq_false_iff] at hcontent
    exact h.rest more raw others hafter hcontent.2
      ((hbehind h.lines hsection hafter).mp hcontent.1)

theorem lands_iff (hitems : (splitLines text.toList).mapM itemOf = some items) :
    Lands text section_ <-> LandsTight text section_ := by
  have hplace : forall {before last after}, LastLine text section_ before last after ->
      (endSegments [] (before ++ [last]) = sectionPath section_ <->
        tight (lastHeader (before ++ [last])) = true) := by
    intro before last after hlast
    rw [(@sections_at _ _ _ _ section_ hitems (lines_through hlast.lines)).2, tight_iff]
    constructor
    · intro h
      exact hlast.in_section.trans h.symm
    · intro h
      exact h.symm.trans hlast.in_section
  constructor
  · intro h
    refine ⟨?_, ?_, ?_, ?_⟩
    · intro before last after hlast
      exact (hplace hlast).mp (h.behind before last after ((lastLine_iff hitems).mpr hlast))
    · exact fun hnone => h.one_line ((noContent_iff hitems).mpr hnone)
    · exact fun hnone => h.section_end ((noContent_iff hitems).mpr hnone)
    · exact fun hnone => h.ordinary ((noContent_iff hitems).mpr hnone)
  · intro h
    refine ⟨?_, ?_, ?_, ?_⟩
    · intro before last after hlast
      have hlast := (lastLine_iff hitems).mp hlast
      exact (hplace hlast).mpr (h.behind before last after hlast)
    · exact fun hnone => h.one_line ((noContent_iff hitems).mp hnone)
    · exact fun hnone => h.section_end ((noContent_iff hitems).mp hnone)
    · exact fun hnone => h.ordinary ((noContent_iff hitems).mp hnone)

theorem readAlike_iff (hitems : (splitLines text.toList).mapM itemOf = some items) :
    ReadAlike members text section_ key newKey <->
      SpelledAlike members text section_ key newKey := by
  constructor
  · intro h
    refine ⟨(sameLines_iff hitems).mp h.key_lines, ?_, ?_, ?_⟩
    · exact fun hnone => h.name ((noLine_iff hitems).mpr hnone)
    · intro hnone hfree
      exact (lands_iff hitems).mp (h.lands ((noLine_iff hitems).mpr hnone) hfree)
    · exact fun hsome => h.new_name (fun hnone => hsome ((noLine_iff hitems).mp hnone))
  · intro h
    refine ⟨(sameLines_iff hitems).mpr h.key_lines, ?_, ?_, ?_⟩
    · exact fun hnone => h.name ((noLine_iff hitems).mp hnone)
    · intro hnone hfree
      exact (lands_iff hitems).mpr (h.lands ((noLine_iff hitems).mp hnone) hfree)
    · exact fun hsome => h.new_name (fun hnone => hsome ((noLine_iff hitems).mpr hnone))

/-- In a text without a header through `__proto__` the edits agree with the parser just
when no blank in the brackets of a header stands in the way of the key's lines or of a
new one, and no inherited name is given. -/
theorem edits_agree_iff (hok : iniToJson text = Except.ok members) (hkey : KeyText key)
    (hvalue : ValueText value) (hnew : KeyText newKey) :
    (OwnHeaders text ∧ SpelledAlike members text section_ key newKey ->
      EditsAgree members text section_ key value newKey) ∧
    (OwnHeaders text -> EditsAgree members text section_ key value newKey ->
      SpelledAlike members text section_ key newKey) := by
  rcases iniToJson_iff.mp hok with ⟨items, final, hitems, -, -⟩
  constructor
  · intro h
    exact agree_of_alike hok h.1 hkey hvalue hnew ((readAlike_iff hitems).mpr h.2)
  · intro hown hagree
    exact (readAlike_iff hitems).mp (alike_of_agree hok hown hkey hvalue hagree)

def oneKey : List Member :=
  [("a", object [("k", Json.string "v")])]

theorem lines_oneKey :
    splitLines "[a]\nk=v".toList = [['[', 'a', ']'], ['k', '=', 'v']] := by
  decide

theorem edits_agree_iff_oneKey : EditsAgree oneKey "[a]\nk=v" "/a" "k" "w" "n" := by
  have hkey : KeyText "k" :=
    plain_keyText (c := 'k') rfl (by decide) (by decide) (by decide) (by decide)
  have hnew : KeyText "n" :=
    plain_keyText (c := 'n') rfl (by decide) (by decide) (by decide) (by decide)
  have hvalue : ValueText "w" := ⟨by decide, by decide⟩
  apply (@edits_agree_iff "k" "n" "w" oneKey "[a]\nk=v" "/a" rfl hkey hvalue hnew).1
  constructor
  · intro raw segments hraw hitem
    rw [lines_oneKey] at hraw
    cases List.mem_cons.mp hraw with
    | inl heq =>
        rw [heq] at hitem
        cases hitem
        decide
    | inr hin =>
        rw [List.mem_singleton.mp hin] at hitem
        cases hitem
  · constructor
    · intro before raw after v hlines hsetting
      rw [lines_oneKey] at hlines
      cases before with
      | nil =>
          injection hlines with hraw _
          rw [← hraw] at hsetting
          cases hsetting
      | cons first rest =>
          injection hlines with hfirst hrest
          cases rest with
          | nil =>
              rw [← hfirst]
              exact Or.inl (by decide)
          | cons second more =>
              injection hrest with _ hmore
              cases more with
              | nil => cases hmore
              | cons third more => cases hmore
    · intro _ _
      decide
    · intro hnone _
      exact absurd (by decide) (hnone [['[', 'a', ']']] ['k', '=', 'v'] [] ['v'] lines_oneKey rfl)
    · intro _
      decide

/-- A header with blanks in its brackets hides its keys from the form. -/
theorem blanks_in_brackets_hide_a_key :
    iniToJson "[ a ]\nk=v" = Except.ok oneKey ∧
      ¬ EditsAgree oneKey "[ a ]\nk=v" "/a" "k" "w" "n" := by
  constructor
  · rfl
  · intro hagree
    have hget := hagree.get
    cases hget

end Web
end FleetServer
