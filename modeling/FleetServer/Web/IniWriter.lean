import FleetServer.Web.EffectiveTable
import FleetServer.Web.IniObjects

/-!
# The text a configuration is shown as

The sections that are collected from a document, the lines they are written on, and
the items those lines are read as.
-/

namespace FleetServer
namespace Web

open FleetServer.Core
open Core.Json

variable {c : Char} {xs ys : List Char} {path segments : List String}
variable {section_ key text : String} {sections : Sections} {l : LeafEntry}
variable {members : List Member}

/-!
# Collecting
-/

def entryIn (sections : Sections) (section_ key : String) : Option String :=
  ((sections.lookup section_).getD []).lookup key

/-- Set one setting of a document. -/
def addLeaf (sections : Sections) (l : LeafEntry) : Sections :=
  mapSet (sectionOf l.path.dropLast)
    (mapSet (lastOf l.path) l.value ((sections.lookup (sectionOf l.path.dropLast)).getD []))
    sections

theorem entryIn_addLeaf (sections : Sections) (l : LeafEntry) (section_ key : String) :
    entryIn (addLeaf sections l) section_ key =
      if section_ = sectionOf l.path.dropLast ∧ key = lastOf l.path then some l.value
      else entryIn sections section_ key := by
  unfold entryIn addLeaf
  rw [lookup_mapSet]
  by_cases hsection : section_ = sectionOf l.path.dropLast
  · rw [if_pos hsection]
    show (mapSet (lastOf l.path) l.value _).lookup key = _
    rw [lookup_mapSet, ← hsection]
    by_cases hkey : key = lastOf l.path
    · rw [if_pos hkey, if_pos ⟨rfl, hkey⟩]
    · rw [if_neg hkey, if_neg fun h => hkey h.2]
  · rw [if_neg hsection, if_neg fun h => hsection h.1]

def spell (path : List String) : String :=
  String.ofList (spelledSection path)

theorem spell_snoc (path : List String) (k : String) :
    spell path ++ "/" ++ k = spell (path ++ [k]) := by
  apply String.toList_inj.mp
  unfold spell spelledSection
  rw [String.toList_append, String.toList_append, String.toList_ofList, String.toList_ofList,
    List.flatMap_append, List.append_assoc, List.flatMap_singleton, String.toList_ofList]
  rfl

theorem sectionOf_spell (path : List String) :
    (if spell path = "" then "/" else spell path) = sectionOf path := by
  cases path with
  | nil => exact if_pos rfl
  | cons k rest =>
      have hspelled : spell (k :: rest) = sectionOf (k :: rest) := by
        apply String.toList_inj.mp
        rw [toList_sectionOf (List.cons_ne_nil _ _)]
        exact String.toList_ofList
      rw [if_neg, hspelled]
      intro hempty
      have hchars := congrArg String.toList hempty
      unfold spell at hchars
      rw [String.toList_ofList] at hchars
      cases hchars

theorem addLine_eq (path : List String) (k : String) (v : Json) (sections : Sections) :
    addLine (spell path) k v sections =
      addLeaf sections { path := path ++ [k], value := render v } := by
  unfold addLine addLeaf
  simp only [sectionOf_spell, List.dropLast_concat, lastOf_concat]
  rfl

mutual

theorem collectAt_eq (k : String) :
    forall (v : Json) (path : List String) (sections : Sections),
      collectAt (spell path) sections k v = (leavesAt path k v).foldl addLeaf sections
  | Json.null, _, _ => by
      rw [collectAt, leavesAt]
      rfl
  | Json.object members, path, sections => by
      rw [collectAt, leavesAt, spell_snoc]
      exact collect_eq members (path ++ [k]) sections
  | Json.bool b, path, sections => addLine_eq path k (Json.bool b) sections
  | Json.number t, path, sections => addLine_eq path k (Json.number t) sections
  | Json.string s, path, sections => addLine_eq path k (Json.string s) sections
  | Json.array items, path, sections => addLine_eq path k (Json.array items) sections

theorem collect_eq :
    forall (members : List Member) (path : List String) (sections : Sections),
      collect (spell path) sections members = (leavesBeneath path members).foldl addLeaf sections
  | [], _, _ => by
      rw [collect, leavesBeneath]
      rfl
  | (k, v) :: rest, path, sections => by
      rw [collect, leavesBeneath, List.foldl_append, collectAt_eq k v path sections]
      exact collect_eq rest path _

end

theorem entryIn_collected {ls : List LeafEntry}
    (hapart : forall l l', l ∈ ls -> l' ∈ ls ->
      sectionOf l.path.dropLast = sectionOf l'.path.dropLast -> lastOf l.path = lastOf l'.path ->
        l = l') :
    entryIn (ls.foldl addLeaf []) section_ key = some text <->
      exists l, l ∈ ls ∧ section_ = sectionOf l.path.dropLast ∧ key = lastOf l.path ∧
        text = l.value := by
  induction ls using List.reverseRecOn with
  | nil =>
      constructor
      · intro h
        cases h
      · rintro ⟨l, hl, _⟩
        cases hl
  | append_singleton ls last ih =>
      have hprevious : forall l l', l ∈ ls -> l' ∈ ls ->
          sectionOf l.path.dropLast = sectionOf l'.path.dropLast ->
            lastOf l.path = lastOf l'.path -> l = l' := by
        intro l l' hl hl'
        exact hapart l l' (List.mem_append_left _ hl) (List.mem_append_left _ hl')
      rw [List.foldl_append]
      show entryIn (addLeaf (ls.foldl addLeaf []) last) section_ key = some text <-> _
      rw [entryIn_addLeaf]
      split
      · rename_i hplace
        constructor
        · intro h
          cases h
          exact ⟨last, List.mem_append_right _ List.mem_cons_self, hplace.1, hplace.2, rfl⟩
        · rintro ⟨l, hl, hsection, hkey, htext⟩
          have hsame := hapart l last hl (List.mem_append_right _ List.mem_cons_self)
            (hsection.symm.trans hplace.1) (hkey.symm.trans hplace.2)
          rw [htext, hsame]
      · rename_i hplace
        rw [ih hprevious]
        constructor
        · rintro ⟨l, hl, hrest⟩
          exact ⟨l, List.mem_append_left _ hl, hrest⟩
        · rintro ⟨l, hl, hsection, hkey, htext⟩
          cases List.mem_append.mp hl with
          | inl hin => exact ⟨l, hin, hsection, hkey, htext⟩
          | inr hlast =>
              rw [List.mem_singleton.mp hlast] at hsection hkey
              exact absurd ⟨hsection, hkey⟩ hplace

theorem entry_of_section {ls : List LeafEntry}
    (h : section_ ∈ (ls.foldl addLeaf []).map Prod.fst) :
    exists key text, entryIn (ls.foldl addLeaf []) section_ key = some text := by
  induction ls using List.reverseRecOn with
  | nil => cases h
  | append_singleton ls last ih =>
      rw [List.foldl_append] at h ⊢
      show exists key text,
        entryIn (addLeaf (ls.foldl addLeaf []) last) section_ key = some text
      have hnames : section_ ∈ (addLeaf (ls.foldl addLeaf []) last).map Prod.fst := h
      unfold addLeaf at hnames
      rw [map_fst_mapSet] at hnames
      have hcases : section_ = sectionOf last.path.dropLast ∨
          section_ ∈ (ls.foldl addLeaf []).map Prod.fst := by
        split at hnames
        · exact Or.inr hnames
        · cases List.mem_append.mp hnames with
          | inl hold => exact Or.inr hold
          | inr hnew => exact Or.inl (List.mem_singleton.mp hnew)
      by_cases hplace : section_ = sectionOf last.path.dropLast
      · exists lastOf last.path, last.value
        rw [entryIn_addLeaf, if_pos ⟨hplace, rfl⟩]
      · cases hcases with
        | inl heq => exact absurd heq hplace
        | inr hold =>
            rcases ih hold with ⟨key, text, hentry⟩
            exists key, text
            rw [entryIn_addLeaf, if_neg fun h => hplace h.1]
            exact hentry

/-!
# Lines
-/

def readPath : List String -> List String
  | [] => []
  | [last] => [String.ofList (trimEnd last.toList)]
  | segment :: next :: rest => segment :: readPath (next :: rest)

theorem segmentText_trimEnd {s : String} (h : SegmentText s) :
    SegmentText (String.ofList (trimEnd s.toList)) := by
  have hnot : trimEnd s.toList ≠ [] := by
    intro hnil
    exact h.not_blank (trimChars_eq_nil.mpr (trimEnd_eq_nil.mp hnil))
  constructor
  · rw [String.toList_ofList]
    intro hblank
    have hlast := List.getLast?_eq_some_getLast hnot
    have hspace := trimChars_eq_nil.mp hblank _ (List.getLast_mem hnot)
    rw [getLast_trimEnd hlast] at hspace
    cases hspace
  · rw [String.toList_ofList]
    intro hslash
    exact h.no_slash ((trimEnd_front _).subset hslash)
  · rw [String.toList_ofList]
    intro hnewline
    exact h.one_line ((trimEnd_front _).subset hnewline)

theorem segmentText_readPath :
    forall {path : List String}, (forall s, s ∈ path -> SegmentText s) ->
      forall s, s ∈ readPath path -> SegmentText s := by
  intro path
  induction path using readPath.induct with
  | case1 =>
      intro h s hs
      cases hs
  | case2 last =>
      intro h s hs
      rw [readPath] at hs
      rw [List.mem_singleton.mp hs]
      exact segmentText_trimEnd (h last List.mem_cons_self)
  | case3 segment next rest ih =>
      intro h s hs
      rw [readPath] at hs
      cases List.mem_cons.mp hs with
      | inl heq =>
          rw [heq]
          exact h segment List.mem_cons_self
      | inr hin => exact ih (fun t ht => h t (List.mem_cons_of_mem _ ht)) s hin

theorem trimEnd_spelled :
    forall {path : List String}, (forall s, s ∈ path -> SegmentText s) ->
      trimEnd (spelledSection path) = spelledSection (readPath path) := by
  intro path
  induction path using readPath.induct with
  | case1 =>
      intro h
      rfl
  | case2 last =>
      intro h
      have hlast := h last List.mem_cons_self
      have hnot : trimEnd last.toList ≠ [] := by
        intro hnil
        exact hlast.not_blank (trimChars_eq_nil.mpr (trimEnd_eq_nil.mp hnil))
      show trimEnd (['/'] ++ (last.toList ++ [])) =
        '/' :: ((String.ofList (trimEnd last.toList)).toList ++ [])
      rw [List.append_nil, trimEnd_append hnot, String.toList_ofList, List.append_nil]
      rfl
  | case3 segment next rest ih =>
      intro h
      have hrest := ih fun t ht => h t (List.mem_cons_of_mem _ ht)
      have hnot : trimEnd (spelledSection (next :: rest)) ≠ [] := by
        rw [hrest]
        cases rest with
        | nil => exact List.cons_ne_nil _ _
        | cons l rest => exact List.cons_ne_nil _ _
      show trimEnd (('/' :: segment.toList) ++ spelledSection (next :: rest)) = _
      rw [trimEnd_append hnot, hrest]
      rfl

theorem splitOn_spelled :
    forall {rest : List String} {k : String}, (forall s, s ∈ k :: rest -> '/' ∉ s.toList) ->
      splitOn '/' (k.toList ++ spelledSection rest) = (k :: rest).map String.toList := by
  intro rest
  induction rest with
  | nil =>
      intro k h
      show splitOn '/' (k.toList ++ []) = [k.toList]
      rw [List.append_nil]
      exact splitOn_plain (h k List.mem_cons_self)
  | cons l rest ih =>
      intro k h
      show splitOn '/' (k.toList ++ '/' :: (l.toList ++ spelledSection rest)) = _
      rw [splitOn_append (h k List.mem_cons_self),
        ih fun s hs => h s (List.mem_cons_of_mem _ hs)]
      rfl

theorem head_sectionOf (path : List String) :
    exists rest, (sectionOf path).toList = '/' :: rest := by
  cases path with
  | nil => exact ⟨[], rfl⟩
  | cons k rest =>
      rw [toList_sectionOf (List.cons_ne_nil _ _)]
      exact ⟨_, rfl⟩

theorem headerSegments_sectionOf (h : forall s, s ∈ path -> SegmentText s) :
    headerSegments ('[' :: ((sectionOf path).toList ++ [']'])) =
      (readPath path).map String.toList := by
  unfold headerSegments
  show ((splitOn '/' (trimChars ((sectionOf path).toList ++ [']']).dropLast)).filter _) = _
  rw [List.dropLast_concat]
  have hslash : isSpace '/' = false := by decide
  rcases head_sectionOf path with ⟨tail, htail⟩
  have htrim : trimChars (sectionOf path).toList = trimEnd (sectionOf path).toList := by
    apply trimChars_of_head
    intro c hc
    rw [htail] at hc
    cases hc
    exact hslash
  rw [htrim]
  cases path with
  | nil => decide
  | cons k rest =>
      have hread := segmentText_readPath h
      rw [toList_sectionOf (List.cons_ne_nil _ _), trimEnd_spelled h]
      cases hpath : readPath (k :: rest) with
      | nil =>
          cases rest with
          | nil => cases hpath
          | cons l rest => cases hpath
      | cons j more =>
          rw [hpath] at hread
          show (splitOn '/' ('/' :: (j.toList ++ spelledSection more))).filter _ = _
          rw [splitOn, if_pos rfl, splitOn_spelled fun s hs => (hread s hs).no_slash]
          rw [List.filter_cons, if_neg (by decide), List.filter_eq_self]
          intro cs hcs
          rcases List.mem_map.mp hcs with ⟨s, hs, hsame⟩
          rw [Bool.not_eq_true', List.isEmpty_eq_false_iff]
          intro hnil
          apply (hread s hs).not_blank
          rw [hsame, hnil]
          rfl

theorem itemOf_header (h : forall s, s ∈ path -> SegmentText s) :
    itemOf ("[" ++ sectionOf path ++ "]").toList = some (Item.header (readPath path)) := by
  have hline : ("[" ++ sectionOf path ++ "]").toList =
      '[' :: ((sectionOf path).toList ++ [']']) := by
    rw [String.toList_append, String.toList_append]
    rfl
  have htrimmed : Trimmed ('[' :: ((sectionOf path).toList ++ [']'])) := by
    apply @trimmed_append ('[' :: (sectionOf path).toList) [']'] (List.cons_ne_nil _ _)
      (List.cons_ne_nil _ _)
    · intro c hc
      cases hc
      decide
    · intro c hc
      cases hc
      decide
  have hread := segmentText_readPath h
  unfold itemOf
  rw [hline, trimChars_of_trimmed htrimmed]
  show headerItem _ = _
  unfold headerItem
  have hlast : ('[' :: ((sectionOf path).toList ++ [']'])).getLast? = some ']' := by
    rw [← List.cons_append, List.getLast?_concat]
  rw [if_neg (not_not.mpr hlast), headerSegments_sectionOf h, if_neg]
  · rw [List.map_map]
    have hback : (readPath path).map (String.ofList ∘ String.toList) = readPath path := by
      apply List.map_id''
      intro s
      exact String.ofList_toList
    rw [hback]
  · rw [List.any_eq_true]
    rintro ⟨cs, hcs, hblank⟩
    rcases List.mem_map.mp hcs with ⟨s, hs, hsame⟩
    apply (hread s hs).not_blank
    rw [hsame]
    exact List.isEmpty_iff.mp hblank

theorem itemOf_entry (hkey : KeyText key) (htext : ValueText text) :
    itemOf (key ++ "=" ++ text).toList = some (Item.entry key text) := by
  have hline : (key ++ "=" ++ text).toList = key.toList ++ '=' :: text.toList := by
    rw [String.toList_append, String.toList_append, List.append_assoc]
    rfl
  have hequals : isSpace '=' = false := by decide
  have hne : key.toList ≠ [] := by
    intro hnil
    exact hkey.not_empty (String.toList_eq_nil_iff.mp hnil)
  rcases List.exists_cons_of_ne_nil hne with ⟨first, more, hfirst⟩
  have htrimmed : Trimmed (key.toList ++ '=' :: text.toList) := by
    apply trimmed_append hne (List.cons_ne_nil _ _) (trimmed_iff.mp hkey.trimmed).1
    intro c hc
    cases htail : text.toList with
    | nil =>
        rw [htail] at hc
        cases hc
        exact hequals
    | cons d rest =>
        rw [htail, List.getLast?_cons_cons, ← htail] at hc
        exact (trimmed_iff.mp htext.trimmed).2 c hc
  have hmark := hkey.no_mark first (by rw [hfirst]; rfl)
  have hbefore : (key.toList ++ '=' :: text.toList).takeWhile (fun c => c != '=') =
      key.toList := by
    rw [List.takeWhile_append_of_pos]
    · rw [List.takeWhile_cons, bne_self_eq_false]
      exact List.append_nil _
    · intro c hc
      exact bne_iff_ne.mpr fun heq => hkey.no_equals (by rw [← heq]; exact hc)
  have hafter : (key.toList ++ '=' :: text.toList).dropWhile (fun c => c != '=') =
      '=' :: text.toList := by
    rw [List.dropWhile_append_of_pos]
    · rw [List.dropWhile_cons, bne_self_eq_false]
      rfl
    · intro c hc
      exact bne_iff_ne.mpr fun heq => hkey.no_equals (by rw [← heq]; exact hc)
  unfold itemOf
  rw [hline, trimChars_of_trimmed htrimmed]
  have hhead : (key.toList ++ '=' :: text.toList).head? = some first := by
    rw [hfirst]
    rfl
  have hempty : (key.toList ++ '=' :: text.toList).isEmpty = false := by
    rw [hfirst]
    rfl
  simp only [hhead, hempty, Bool.false_or, Bool.or_eq_true, beq_iff_eq, Option.some.injEq]
  rw [if_neg (by rintro (h | h); exacts [hmark.2.1 h, hmark.2.2 h]), if_neg hmark.1]
  unfold entryItem
  simp only [hbefore, hafter, List.drop_succ_cons, List.drop_zero]
  rw [if_neg, trimChars_of_trimmed hkey.trimmed, trimChars_of_trimmed htext.trimmed,
    String.ofList_toList, String.ofList_toList, if_neg hkey.not_empty]
  rw [Bool.or_eq_true, not_or]
  constructor
  · rw [hfirst]
    intro h
    cases h
  · intro h
    cases h

/-!
# The whole text
-/

def PlainLine (line : String) : Prop :=
  '\n' ∉ line.toList ∧ line.toList.getLast? ≠ some '\r'

theorem toList_text (lines : List String) :
    (String.intercalate "\n" lines ++ (if lines.isEmpty then "" else "\n")).toList =
      lines.flatMap fun line => line.toList ++ ['\n'] := by
  induction lines with
  | nil => rfl
  | cons line rest ih =>
      cases rest with
      | nil =>
          rw [String.intercalate_singleton, String.toList_append, List.flatMap_singleton]
          simp only [List.isEmpty_cons, Bool.false_eq_true, if_false]
          rfl
      | cons next rest =>
          rw [List.flatMap_cons, ← ih, String.intercalate_cons_cons, String.toList_append,
            String.toList_append, String.toList_append, String.toList_append]
          simp only [List.isEmpty_cons, Bool.false_eq_true, if_false, List.append_assoc]
          rfl

theorem splitLines_text {lines : List String} (h : forall line, line ∈ lines -> PlainLine line) :
    splitLines (String.intercalate "\n" lines ++ (if lines.isEmpty then "" else "\n")).toList =
      lines.map String.toList ++ [[]] := by
  rw [toList_text]
  induction lines with
  | nil => rfl
  | cons line rest ih =>
      have hline := h line List.mem_cons_self
      rw [List.flatMap_cons, List.append_assoc]
      show splitLines (line.toList ++ '\n' ::
        rest.flatMap fun line => line.toList ++ ['\n']) = _
      rw [splitLines_append hline.1 hline.2, ih fun l hl => h l (List.mem_cons_of_mem _ hl)]
      rfl

theorem mapM_itemOf_append {ls ms : List (List Char)} {is js : List Item}
    (hls : ls.mapM itemOf = some is) (hms : ms.mapM itemOf = some js) :
    (ls ++ ms).mapM itemOf = some (is ++ js) := by
  rw [List.mapM_append, hls]
  show ((ms.mapM itemOf).bind fun more => some (is ++ more)) = _
  rw [hms]
  rfl

theorem mapM_itemOf_map {alpha : Type} {xs : List alpha} {line : alpha -> String}
    {item : alpha -> Item} (h : forall x, x ∈ xs -> itemOf (line x).toList = some (item x)) :
    ((xs.map line).map String.toList).mapM itemOf = some (xs.map item) := by
  induction xs with
  | nil => rfl
  | cons x rest ih =>
      rw [List.map_cons, List.map_cons, List.mapM_cons, h x List.mem_cons_self,
        ih fun y hy => h y (List.mem_cons_of_mem _ hy)]
      rfl

/-- The segments a section's name is read as. -/
def namedPath (section_ : String) : List String :=
  (headerSegments ("[" ++ section_ ++ "]").toList).map String.ofList

def keysIn (sections : Sections) (section_ : String) : List String :=
  sortStrings (((sections.lookup section_).getD []).map Prod.fst)

def textIn (sections : Sections) (section_ key : String) : String :=
  (entryIn sections section_ key).getD ""

def blockOf (sections : Sections) (section_ : String) : List Item :=
  Item.header (namedPath section_) ::
    (keysIn sections section_).map fun key => Item.entry key (textIn sections section_ key)

def blocksOf (sections : Sections) (names : List String) (before : List Item) : List Item :=
  names.foldl (fun items section_ =>
    (if items.isEmpty then items else items ++ [Item.blank]) ++ blockOf sections section_) before

structure ReadsBack (sections : Sections) : Prop where
  header : forall section_, section_ ∈ sections.map Prod.fst ->
    itemOf ("[" ++ section_ ++ "]").toList = some (Item.header (namedPath section_))
  entry : forall section_ key text, entryIn sections section_ key = some text ->
    itemOf (key ++ "=" ++ text).toList = some (Item.entry key text)
  header_line : forall section_, section_ ∈ sections.map Prod.fst ->
    PlainLine ("[" ++ section_ ++ "]")
  entry_line : forall section_ key text, entryIn sections section_ key = some text ->
    PlainLine (key ++ "=" ++ text)

theorem mem_sortStrings {x : String} {xs : List String} : x ∈ sortStrings xs <-> x ∈ xs := by
  unfold sortStrings
  exact List.mem_insertionSort _

theorem mem_keysIn : key ∈ keysIn sections section_ <->
    exists text, entryIn sections section_ key = some text := by
  unfold keysIn entryIn
  rw [mem_sortStrings]
  constructor
  · intro h
    cases hlookup : ((sections.lookup section_).getD []).lookup key with
    | none => exact absurd h (fun hmem => by
        rcases List.mem_map.mp hmem with ⟨e, he, hkey⟩
        have hne := List.lookup_eq_none_iff.mp hlookup e he
        rw [hkey, bne_self_eq_false] at hne
        cases hne)
    | some text => exact ⟨text, rfl⟩
  · rintro ⟨text, h⟩
    exact List.mem_map_of_mem (f := Prod.fst) (Table.mem_of_lookup h)

theorem textIn_of_entry (h : entryIn sections section_ key = some text) :
    textIn sections section_ key = text := by
  unfold textIn
  rw [h]
  rfl

theorem sectionLines_eq (sections : Sections) (section_ : String) :
    sectionLines section_ ((sections.lookup section_).getD []) =
      ("[" ++ section_ ++ "]") ::
        (keysIn sections section_).map fun key =>
          key ++ "=" ++ textIn sections section_ key :=
  rfl

theorem items_of_section (h : ReadsBack sections) (hsection : section_ ∈ sections.map Prod.fst) :
    ((sectionLines section_ ((sections.lookup section_).getD [])).map String.toList).mapM itemOf =
      some (blockOf sections section_) := by
  rw [sectionLines_eq, List.map_cons, List.mapM_cons, h.header section_ hsection]
  have hentries : (((keysIn sections section_).map fun key =>
      key ++ "=" ++ textIn sections section_ key).map String.toList).mapM itemOf =
        some ((keysIn sections section_).map fun key =>
          Item.entry key (textIn sections section_ key)) := by
    apply mapM_itemOf_map
    intro key hkey
    rcases mem_keysIn.mp hkey with ⟨text, htext⟩
    rw [textIn_of_entry htext]
    exact h.entry section_ key text htext
  rw [hentries]
  rfl

theorem items_of_lines (h : ReadsBack sections) :
    forall (names lines : List String) (items : List Item),
      (forall section_, section_ ∈ names -> section_ ∈ sections.map Prod.fst) ->
        (lines.map String.toList).mapM itemOf = some items ->
          ((names.foldl (fun lines section_ =>
            (if lines.isEmpty then lines else lines ++ [""]) ++
              sectionLines section_ ((sections.lookup section_).getD [])) lines).map
                String.toList).mapM itemOf = some (blocksOf sections names items) := by
  intro names
  induction names with
  | nil =>
      intro lines items _ hitems
      exact hitems
  | cons section_ rest ih =>
      intro lines items hnames hitems
      apply ih _ _ fun s hs => hnames s (List.mem_cons_of_mem _ hs)
      rw [List.map_append]
      apply mapM_itemOf_append _ (items_of_section h (hnames section_ List.mem_cons_self))
      cases lines with
      | nil =>
          cases hitems
          rfl
      | cons line lines =>
          cases items with
          | nil =>
              rw [List.map_cons, List.mapM_cons] at hitems
              rcases Option.bind_eq_some_iff.mp hitems with ⟨item, _, hrest⟩
              rcases Option.bind_eq_some_iff.mp hrest with ⟨more, _, hall⟩
              cases hall
          | cons item items =>
              simp only [List.isEmpty_cons, Bool.false_eq_true, if_false]
              rw [List.map_append]
              exact mapM_itemOf_append hitems rfl

theorem entriesOf_append_header (xs ys : List Item) (segments : List String) :
    forall current : List String, entriesOf current (xs ++ Item.header segments :: ys) =
      entriesOf current xs ++ entriesOf segments ys := by
  induction xs with
  | nil =>
      intro current
      rfl
  | cons x xs ih =>
      intro current
      cases x with
      | blank => exact ih current
      | header other => exact ih other
      | entry key value =>
          show (current ++ [key], value) :: entriesOf current (xs ++ _) = _
          rw [ih current]
          rfl

theorem entriesOf_entries (segments : List String) (f : String -> String) (keys : List String) :
    entriesOf segments (keys.map fun key => Item.entry key (f key)) =
      keys.map fun key => (segments ++ [key], f key) := by
  induction keys with
  | nil => rfl
  | cons key rest ih =>
      show (segments ++ [key], f key) :: entriesOf segments (rest.map _) = _
      rw [ih]
      rfl

theorem headersOf_append (xs ys : List Item) :
    headersOf (xs ++ ys) = headersOf xs ++ headersOf ys := by
  induction xs with
  | nil => rfl
  | cons x xs ih =>
      cases x with
      | blank => exact ih
      | header segments => exact congrArg (segments :: ·) ih
      | entry key value => exact ih

theorem headersOf_entries (f : String -> String) (keys : List String) :
    headersOf (keys.map fun key => Item.entry key (f key)) = [] := by
  induction keys with
  | nil => rfl
  | cons key rest ih => exact ih

theorem entriesOf_blank (xs : List Item) :
    forall current : List String,
      entriesOf current (xs ++ [Item.blank]) = entriesOf current xs := by
  induction xs with
  | nil =>
      intro current
      rfl
  | cons x xs ih =>
      intro current
      cases x with
      | blank => exact ih current
      | header other => exact ih other
      | entry key value => exact congrArg ((current ++ [key], value) :: ·) (ih current)

theorem entriesOf_blocks (names : List String) (before : List Item) :
    entriesOf [] (blocksOf sections names before) =
      entriesOf [] before ++ names.flatMap fun section_ =>
        (keysIn sections section_).map fun key =>
          (namedPath section_ ++ [key], textIn sections section_ key) := by
  induction names generalizing before with
  | nil => exact (List.append_nil _).symm
  | cons section_ rest ih =>
      have hblank : entriesOf [] (if before.isEmpty then before else before ++ [Item.blank]) =
          entriesOf [] before := by
        split
        · rfl
        · exact entriesOf_blank before []
      have hblock : forall items, entriesOf [] (items ++ blockOf sections section_) =
          entriesOf [] items ++ (keysIn sections section_).map fun key =>
            (namedPath section_ ++ [key], textIn sections section_ key) := by
        intro items
        unfold blockOf
        rw [entriesOf_append_header, entriesOf_entries]
      show entriesOf [] (blocksOf sections rest _) = _
      rw [ih, hblock, hblank, List.flatMap_cons, List.append_assoc]

theorem headersOf_blocks (names : List String) (before : List Item) :
    headersOf (blocksOf sections names before) = headersOf before ++ names.map namedPath := by
  induction names generalizing before with
  | nil => exact (List.append_nil _).symm
  | cons section_ rest ih =>
      show headersOf (blocksOf sections rest _) = _
      have hblank : headersOf (if before.isEmpty then before else before ++ [Item.blank]) =
          headersOf before := by
        split
        · rfl
        · rw [headersOf_append]
          exact List.append_nil _
      have hblock : headersOf (blockOf sections section_) = [namedPath section_] :=
        congrArg (namedPath section_ :: ·) (headersOf_entries _ _)
      rw [ih, headersOf_append, hblank, hblock, List.map_cons, List.append_assoc]
      rfl

theorem plainLine_of_mem (h : ReadsBack sections) :
    forall names lines : List String,
      (forall section_, section_ ∈ names -> section_ ∈ sections.map Prod.fst) ->
        (forall line, line ∈ lines -> PlainLine line) ->
          forall line, line ∈ names.foldl (fun lines section_ =>
            (if lines.isEmpty then lines else lines ++ [""]) ++
              sectionLines section_ ((sections.lookup section_).getD [])) lines ->
                PlainLine line := by
  intro names
  induction names with
  | nil =>
      intro lines _ hlines
      exact hlines
  | cons section_ rest ih =>
      intro lines hnames hlines
      apply ih _ fun s hs => hnames s (List.mem_cons_of_mem _ hs)
      intro line hline
      cases List.mem_append.mp hline with
      | inl hbefore =>
          split at hbefore
          · exact hlines line hbefore
          · cases List.mem_append.mp hbefore with
            | inl hold => exact hlines line hold
            | inr hblank =>
                rw [List.mem_singleton.mp hblank]
                constructor
                · exact List.not_mem_nil
                · intro hreturn
                  cases hreturn
      | inr hblock =>
          rw [sectionLines_eq] at hblock
          cases List.mem_cons.mp hblock with
          | inl hheader =>
              rw [hheader]
              exact h.header_line section_ (hnames section_ List.mem_cons_self)
          | inr hentry =>
              rcases List.mem_map.mp hentry with ⟨key, hkey, hsame⟩
              rcases mem_keysIn.mp hkey with ⟨text, htext⟩
              rw [← hsame, textIn_of_entry htext]
              exact h.entry_line section_ key text htext

theorem mem_names_of_entry (h : entryIn sections section_ key = some text) :
    section_ ∈ sections.map Prod.fst := by
  unfold entryIn at h
  cases hlookup : sections.lookup section_ with
  | none =>
      rw [hlookup] at h
      cases h
  | some entries => exact List.mem_map_of_mem (f := Prod.fst) (Table.mem_of_lookup hlookup)

theorem no_value_at_start (p : List String) (u : Json) :
    nodeAt emptyHeap.document p ≠ Node.value u := by
  intro h
  cases p with
  | nil => cases h
  | cons k p => cases h

theorem section_start {p : List String} (h : nodeAt emptyHeap.document p = Node.section_) :
    p = [] := by
  cases p with
  | nil => rfl
  | cons k p => cases h

def shownItems (members : List Member) : List Item :=
  blocksOf (collect "" [] members) (sortStrings ((collect "" [] members).map Prod.fst)) [] ++
    [Item.blank]

theorem items_shown (hreads : ReadsBack (collect "" [] members)) :
    (splitLines (jsonToIni members).toList).mapM itemOf = some (shownItems members) := by
  have hnames : forall section_,
      section_ ∈ sortStrings ((collect "" [] members).map Prod.fst) ->
        section_ ∈ (collect "" [] members).map Prod.fst := fun _ h => mem_sortStrings.mp h
  have hlines := items_of_lines hreads _ [] [] hnames rfl
  have hplain := plainLine_of_mem hreads _ [] hnames
    fun line hline => absurd hline List.not_mem_nil
  have hlast : ([[]] : List (List Char)).mapM itemOf = some [Item.blank] := rfl
  have hsplit : splitLines (jsonToIni members).toList =
      (iniLines (collect "" [] members)).map String.toList ++ [[]] := splitLines_text hplain
  rw [hsplit]
  exact mapM_itemOf_append hlines hlast

theorem mem_headersOf {items : List Item} :
    segments ∈ headersOf items <-> Item.header segments ∈ items := by
  induction items with
  | nil =>
      constructor
      · intro h
        cases h
      · intro h
        cases h
  | cons item rest ih =>
      cases item with
      | blank =>
          show segments ∈ headersOf rest <-> _
          simp [ih]
      | header other =>
          show segments ∈ other :: headersOf rest <-> _
          simp [ih]
      | entry key value =>
          show segments ∈ headersOf rest <-> _
          simp [ih]

theorem mem_headersOf_shown : segments ∈ headersOf (shownItems members) <->
    exists section_, section_ ∈ (collect "" [] members).map Prod.fst ∧
      segments = namedPath section_ := by
  unfold shownItems
  rw [headersOf_append, headersOf_blocks, List.mem_append, List.mem_append, List.mem_map]
  constructor
  · rintro ((h | ⟨section_, hsection, heq⟩) | h)
    · cases h
    · exact ⟨section_, mem_sortStrings.mp hsection, heq.symm⟩
    · cases h
  · rintro ⟨section_, hsection, heq⟩
    exact Or.inl (Or.inr ⟨section_, mem_sortStrings.mpr hsection, heq.symm⟩)

theorem mem_entriesOf_shown {p : List String} :
    (p, text) ∈ entriesOf [] (shownItems members) <->
      exists section_ key, entryIn (collect "" [] members) section_ key = some text ∧
        p = namedPath section_ ++ [key] := by
  unfold shownItems
  rw [entriesOf_blank, entriesOf_blocks, List.mem_append, List.mem_flatMap]
  constructor
  · rintro (h | ⟨section_, hsection, h⟩)
    · cases h
    · rcases List.mem_map.mp h with ⟨key, hkey, heq⟩
      rcases mem_keysIn.mp hkey with ⟨text, htext⟩
      rw [textIn_of_entry htext] at heq
      cases heq
      exact ⟨section_, key, htext, rfl⟩
  · rintro ⟨section_, key, hentry, hp⟩
    apply Or.inr
    exists section_
    constructor
    · exact mem_sortStrings.mpr (mem_names_of_entry hentry)
    · apply List.mem_map.mpr
      exists key
      constructor
      · exact mem_keysIn.mpr ⟨text, hentry⟩
      · rw [hp, textIn_of_entry hentry]

theorem opened_of_value (hreads : ReadsBack (collect "" [] members)) {read : List Member}
    (hok : iniToJson (jsonToIni members) = Except.ok read) {p : List String} {u : Json}
    (hp : nodeAt read p = Node.value u) :
    exists segments key, p = segments ++ [key] ∧ (segments = [] ∨
      exists section_, section_ ∈ (collect "" [] members).map Prod.fst ∧
        segments = namedPath section_) := by
  rcases iniToJson_iff.mp hok with ⟨items, final, hitems, happly, hdocument⟩
  rw [items_shown hreads] at hitems
  cases hitems
  rw [← hdocument] at hp
  rcases readFrom_items rfl rfl happly p u hp with ⟨segments, key, value, hpath, _, hopened, _⟩
  refine ⟨segments, key, hpath, ?_⟩
  cases hopened with
  | inl hroot => exact Or.inl hroot
  | inr hheader => exact Or.inr (mem_headersOf_shown.mp (mem_headersOf.mpr hheader))

end Web
end FleetServer
