import FleetServer.Web.IniAccepted
import FleetServer.Web.IniLens
import FleetServer.Web.IniRoundTrip

/-!
# Two scanners of one text

`iniToJson` and the edits of the form go over the same lines.  They tell key lines
alike; the section a line is in each of them takes from the headers in its own way.
-/

namespace FleetServer
namespace Web

open FleetServer.Core
open Core.Json

variable {raw raw' key value target : List Char} {ls ms before after : List (List Char)}
variable {k v t : String} {p current segments : List String} {items xs ys zs : List Item}
variable {text section_ : String}

/-!
# The section of a line
-/

/-- The section from a line on, as `iniToJson` reads it. -/
def nextSegments (current : List String) (raw : List Char) : List String :=
  match itemOf raw with
  | some (Item.header segments) => segments
  | _ => current

def endSegments (current : List String) (ls : List (List Char)) : List String :=
  ls.foldl nextSegments current

def sectionPath (section_ : String) : List String :=
  (pathSegments section_.toList).map String.ofList

theorem nextSegments_header (h : itemOf raw = some (Item.header segments)) :
    nextSegments current raw = segments := by
  unfold nextSegments
  rw [h]

theorem nextSegments_entry (h : itemOf raw = some (Item.entry k v)) :
    nextSegments current raw = current := by
  unfold nextSegments
  rw [h]

theorem nextSegments_blank (h : itemOf raw = some Item.blank) :
    nextSegments current raw = current := by
  unfold nextSegments
  rw [h]

theorem endSection_append (current : List Char) (ls ms : List (List Char)) :
    endSection current (ls ++ ms) = endSection (endSection current ls) ms :=
  List.foldl_append

/-!
# Key lines
-/

theorem itemOf_of_setting (h : keySetting raw = some (key, value)) :
    itemOf raw = some (Item.entry (String.ofList key) (String.ofList value)) := by
  unfold keySetting at h
  simp only at h
  split at h
  · cases h
  · rename_i hskip
    split at h
    · cases h
    · rename_i hsides
      cases h
      unfold isSkipped at hskip
      simp only [Bool.or_eq_true, not_or] at hskip
      have hfirst : ((trimChars raw).isEmpty || (trimChars raw).head? == some ';' ||
          (trimChars raw).head? == some '#') ≠ true := by
        simp only [ne_eq, Bool.or_eq_true, not_or]
        exact hskip.1
      have hkey : String.ofList (trimChars ((trimChars raw).takeWhile fun c => c != '=')) ≠
          "" := by
        intro hempty
        have hnil : trimChars ((trimChars raw).takeWhile fun c => c != '=') = [] := by
          rw [← String.toList_ofList (l := trimChars _), hempty]
          rfl
        cases hbefore : (trimChars raw).takeWhile fun c => c != '=' with
        | nil =>
            rw [hbefore] at hsides
            exact hsides rfl
        | cons c rest =>
            have hhead : ((trimChars raw).takeWhile fun c => c != '=').head? = some c := by
              rw [hbefore]
              rfl
            have hspace := trimChars_eq_nil.mp hnil c (List.mem_of_head? hhead)
            rw [head_trimChars (head_of_takeWhile hhead)] at hspace
            cases hspace
      unfold itemOf
      simp only
      rw [if_neg hfirst, if_neg hskip.2]
      unfold entryItem
      simp only
      rw [if_neg hsides, if_neg hkey]

theorem setting_of_entry (h : itemOf raw = some (Item.entry k v)) :
    keySetting raw = some (k.toList, v.toList) := by
  unfold itemOf at h
  simp only at h
  split at h
  · cases h
  · rename_i hskip
    split at h
    · unfold headerItem at h
      split at h
      · cases h
      · split at h
        · cases h
        · cases h
    · rename_i hheader
      unfold entryItem at h
      simp only at h
      split at h
      · cases h
      · rename_i hsides
        split at h
        · cases h
        · cases h
          have hplain : isSkipped (trimChars raw) = false := by
            unfold isSkipped
            rw [Bool.or_eq_false_iff]
            exact ⟨Bool.eq_false_iff.mpr hskip, Bool.eq_false_iff.mpr hheader⟩
          unfold keySetting
          simp only [hplain]
          rw [if_neg (by decide), if_neg hsides, String.toList_ofList, String.toList_ofList]

/-!
# The items of lines
-/

theorem itemOf_congr (h : trimChars raw = trimChars raw') : itemOf raw = itemOf raw' := by
  unfold itemOf
  rw [h]

theorem mapM_itemOf_congr (h : ls.map trimChars = ms.map trimChars) :
    ls.mapM itemOf = ms.mapM itemOf := by
  induction ls generalizing ms with
  | nil =>
      cases ms with
      | nil => rfl
      | cons raw rest => cases h
  | cons raw rest ih =>
      cases ms with
      | nil => cases h
      | cons raw' rest' =>
          rw [List.map_cons, List.map_cons] at h
          injection h with hraw hrest
          rw [List.mapM_cons, List.mapM_cons, itemOf_congr hraw, ih hrest]

theorem mapM_itemOf_cons (h : (raw :: ls).mapM itemOf = some items) :
    exists item xs, itemOf raw = some item ∧ ls.mapM itemOf = some xs ∧ items = item :: xs := by
  rw [List.mapM_cons] at h
  rcases Option.bind_eq_some_iff.mp h with ⟨item, hitem, hrest⟩
  rcases Option.bind_eq_some_iff.mp hrest with ⟨xs, hxs, hsame⟩
  cases hsame
  exact ⟨item, xs, hitem, hxs, rfl⟩

theorem mapM_itemOf_split (h : (ls ++ ms).mapM itemOf = some items) :
    exists xs ys, ls.mapM itemOf = some xs ∧ ms.mapM itemOf = some ys ∧ items = xs ++ ys := by
  induction ls generalizing items with
  | nil => exact ⟨[], items, rfl, h, rfl⟩
  | cons raw rest ih =>
      rcases mapM_itemOf_cons h with ⟨item, zs, hitem, hzs, rfl⟩
      rcases ih hzs with ⟨xs, ys, hxs, hys, rfl⟩
      exists item :: xs, ys
      constructor
      · rw [List.mapM_cons, hitem, hxs]
        rfl
      · exact ⟨hys, rfl⟩

theorem entriesOf_behind (h : ls.mapM itemOf = some xs) (ys : List Item) :
    entriesOf current (xs ++ ys) =
      entriesOf current xs ++ entriesOf (endSegments current ls) ys := by
  induction ls generalizing current xs with
  | nil =>
      cases h
      rfl
  | cons raw rest ih =>
      rcases mapM_itemOf_cons h with ⟨item, zs, hitem, hzs, rfl⟩
      show _ = _ ++ entriesOf (endSegments (nextSegments current raw) rest) ys
      cases item with
      | blank =>
          rw [nextSegments_blank hitem]
          show entriesOf current (zs ++ ys) = entriesOf current zs ++ _
          exact ih hzs
      | header segments =>
          rw [nextSegments_header hitem]
          show entriesOf segments (zs ++ ys) = entriesOf segments zs ++ _
          exact ih hzs
      | entry key value =>
          rw [nextSegments_entry hitem]
          exact congrArg ((current ++ [key], value) :: ·) (ih hzs)

theorem entriesOf_entry (h : ls.mapM itemOf = some xs) (key value : String) (ys : List Item) :
    entriesOf current (xs ++ Item.entry key value :: ys) =
      entriesOf current xs ++ (endSegments current ls ++ [key], value) ::
        entriesOf (endSegments current ls) ys := by
  rw [entriesOf_behind h]
  rfl

theorem headersOf_entry (xs ys : List Item) (key value : String) :
    headersOf (xs ++ Item.entry key value :: ys) = headersOf (xs ++ ys) := by
  rw [headersOf_append, headersOf_append]
  rfl

theorem items_with_setting (hxs : before.mapM itemOf = some xs)
    (hys : after.mapM itemOf = some ys) (hsetting : keySetting raw = some (key, value)) :
    (before ++ raw :: after).mapM itemOf =
      some (xs ++ Item.entry (String.ofList key) (String.ofList value) :: ys) := by
  apply mapM_itemOf_append hxs
  rw [List.mapM_cons, itemOf_of_setting hsetting, hys]
  rfl

theorem items_of_join (hlines : forall line, line ∈ ls -> '\n' ∉ line)
    (hne : ls ≠ []) (h : ls.mapM itemOf = some items) :
    (splitLines (joinLines ls)).mapM itemOf = some items := by
  rw [mapM_itemOf_congr (trimmed_splitLines_join hlines hne)]
  exact h

theorem line_of_entry (h : ls.mapM itemOf = some items) (hp : (p, t) ∈ entriesOf current items) :
    exists before raw after key, ls = before ++ raw :: after ∧
      keySetting raw = some (key, t.toList) ∧
        p = endSegments current before ++ [String.ofList key] := by
  induction ls generalizing current items with
  | nil =>
      cases h
      cases hp
  | cons raw rest ih =>
      rcases mapM_itemOf_cons h with ⟨item, zs, hitem, hzs, rfl⟩
      have hlater : forall section_ : List String, nextSegments current raw = section_ ->
          (p, t) ∈ entriesOf section_ zs -> exists before raw' after key,
            raw :: rest = before ++ raw' :: after ∧ keySetting raw' = some (key, t.toList) ∧
              p = endSegments current before ++ [String.ofList key] := by
        intro section_ hnext hmem
        rcases ih hzs hmem with ⟨before, raw', after, key, rfl, hsetting, hpath⟩
        exists raw :: before, raw', after, key
        constructor
        · rfl
        · constructor
          · exact hsetting
          · rw [hpath, ← hnext]
            rfl
      cases item with
      | blank => exact hlater current (nextSegments_blank hitem) hp
      | header segments => exact hlater segments (nextSegments_header hitem) hp
      | entry key value =>
          cases List.mem_cons.mp hp with
          | inl heq =>
              cases heq
              exists [], raw, rest, key.toList
              constructor
              · rfl
              · constructor
                · exact setting_of_entry hitem
                · rw [String.ofList_toList]
                  rfl
          | inr hin => exact hlater current (nextSegments_entry hitem) hin

theorem entry_of_line (h : (before ++ raw :: after).mapM itemOf = some items)
    (hsetting : keySetting raw = some (key, value)) :
    exists xs ys, before.mapM itemOf = some xs ∧ after.mapM itemOf = some ys ∧
      items = xs ++ Item.entry (String.ofList key) (String.ofList value) :: ys := by
  rcases mapM_itemOf_split h with ⟨xs, zs, hxs, hzs, rfl⟩
  rcases mapM_itemOf_cons hzs with ⟨item, ys, hitem, hys, rfl⟩
  rw [itemOf_of_setting hsetting] at hitem
  cases hitem
  exact ⟨xs, ys, hxs, hys, rfl⟩

/-!
# Blanks in the brackets of a header
-/

section Brackets

variable {inner cs core blanks first last : List Char} {parts rest : List (List Char)} {c : Char}

def bracketed (raw : List Char) : Option (List Char) :=
  let line := trimChars raw
  if line.head? == some '[' then some (line.drop 1).dropLast else none

def lastHeader (ls : List (List Char)) : List Char :=
  ls.foldl (fun current raw => (bracketed raw).getD current) []

/-- No blank stands between a bracket and the segment next to it. -/
def tight (inner : List Char) : Bool :=
  (!inner.head?.any isSpace || (trimChars inner).head?.all (· == '/')) &&
    (!inner.getLast?.any isSpace || (trimChars inner).getLast?.all (· == '/'))

/-- The segments, as long as the text they are in. -/
def spelledLength (cs : List Char) : Nat :=
  (pathSegments cs).flatten.length

theorem no_slash_of_blank (h : forall c, c ∈ blanks -> isSpace c = true) : '/' ∉ blanks := by
  intro hmem
  have hspace := h _ hmem
  revert hspace
  decide

theorem splitOn_front (h : '/' ∉ blanks) (hparts : splitOn '/' cs = first :: rest) :
    splitOn '/' (blanks ++ cs) = (blanks ++ first) :: rest := by
  induction blanks with
  | nil => exact hparts
  | cons b more ih =>
      have hb : b ≠ '/' := fun heq => h (heq ▸ List.mem_cons_self)
      rw [List.cons_append, splitOn, if_neg hb, ih fun hmem => h (List.mem_cons_of_mem _ hmem)]
      rfl

theorem splitOn_back (h : '/' ∉ blanks) (hparts : splitOn '/' cs = parts ++ [last]) :
    splitOn '/' (cs ++ blanks) = parts ++ [last ++ blanks] := by
  induction cs generalizing parts last with
  | nil =>
      rw [splitOn] at hparts
      cases parts with
      | nil =>
          cases hparts
          exact splitOn_plain h
      | cons part more => cases more <;> cases hparts
  | cons x rest ih =>
      rw [List.cons_append, splitOn]
      rw [splitOn] at hparts
      split at hparts
      · rename_i hx
        rw [if_pos hx]
        cases parts with
        | nil =>
            injection hparts with _ hnil
            exact absurd hnil (splitOn_ne_nil _ _)
        | cons part more =>
            injection hparts with hpart hmore
            rw [ih hmore, hpart]
            rfl
      · rename_i hx
        rw [if_neg hx]
        cases hsplit : splitOn '/' rest with
        | nil => exact absurd hsplit (splitOn_ne_nil _ _)
        | cons part more =>
            rw [hsplit] at hparts
            simp only at hparts
            cases parts with
            | nil =>
                cases hparts
                have hone : splitOn '/' rest = [] ++ [part] := hsplit
                rw [ih hone]
                rfl
            | cons part' more' =>
                injection hparts with hpart hmore
                have hmany : splitOn '/' rest = (part :: more') ++ [last] := by
                  rw [hsplit, hmore]
                  rfl
                rw [ih hmany, ← hpart]
                rfl

theorem blank_append (h : forall c, c ∈ blanks -> isSpace c = true) :
    (trimChars (blanks ++ cs)).isEmpty = (trimChars cs).isEmpty ∧
      (trimChars (cs ++ blanks)).isEmpty = (trimChars cs).isEmpty := by
  rw [trimChars_blank_append h, trimChars_append_blank h]
  exact ⟨rfl, rfl⟩

theorem not_blank_of_mem (hc : c ∈ cs) (hspace : isSpace c = false) :
    (trimChars cs).isEmpty = false := by
  rw [List.isEmpty_eq_false_iff]
  intro hnil
  rw [trimChars_eq_nil.mp hnil c hc] at hspace
  cases hspace

theorem segments_before_slash (h : forall c, c ∈ blanks -> isSpace c = true)
    (hcs : cs.head? = some '/') : pathSegments (blanks ++ cs) = pathSegments cs := by
  cases cs with
  | nil => cases hcs
  | cons c rest =>
      cases hcs
      have hsplit : splitOn '/' ('/' :: rest) = [] :: splitOn '/' rest := by
        rw [splitOn, if_pos rfl]
      unfold pathSegments
      rw [splitOn_front (no_slash_of_blank h) hsplit, hsplit, List.append_nil,
        List.filter_cons, List.filter_cons, trimChars_eq_nil.mpr h]
      rfl

theorem length_before_segment (h : forall c, c ∈ blanks -> isSpace c = true)
    (hcs : cs.head? = some c) (hspace : isSpace c = false) (hslash : c ≠ '/') :
    spelledLength (blanks ++ cs) = blanks.length + spelledLength cs := by
  cases cs with
  | nil => cases hcs
  | cons d rest =>
      cases hcs
      cases hrest : splitOn '/' rest with
      | nil => exact absurd hrest (splitOn_ne_nil _ _)
      | cons part more =>
          have hsplit : splitOn '/' (c :: rest) = (c :: part) :: more := by
            rw [splitOn, if_neg hslash, hrest]
          have hfirst : (trimChars (c :: part)).isEmpty = false :=
            not_blank_of_mem List.mem_cons_self hspace
          unfold spelledLength pathSegments
          rw [splitOn_front (no_slash_of_blank h) hsplit, hsplit, List.filter_cons,
            List.filter_cons, (blank_append h).1, hfirst]
          simp only [Bool.not_false, if_true, List.flatten_cons, List.length_append]
          omega

theorem splitOn_last (cs : List Char) :
    exists parts last, splitOn '/' cs = parts ++ [last] :=
  (List.eq_nil_or_concat (splitOn '/' cs)).elim
    (fun hnil => absurd hnil (splitOn_ne_nil _ _))
    (fun hsome => by
      rcases hsome with ⟨parts, last, hparts⟩
      rw [List.concat_eq_append] at hparts
      exact ⟨parts, last, hparts⟩)

theorem splitOn_slash (cs ds : List Char) :
    splitOn '/' (cs ++ '/' :: ds) = splitOn '/' cs ++ splitOn '/' ds := by
  induction cs with
  | nil =>
      show splitOn '/' ('/' :: ds) = [] :: splitOn '/' ds
      rw [splitOn, if_pos rfl]
  | cons c rest ih =>
      rw [List.cons_append, splitOn, splitOn, ih]
      split
      · rfl
      · cases hrest : splitOn '/' rest with
        | nil => exact absurd hrest (splitOn_ne_nil _ _)
        | cons part more => rfl

theorem segments_behind_slash (h : forall c, c ∈ blanks -> isSpace c = true)
    (hcs : cs.getLast? = some '/') : pathSegments (cs ++ blanks) = pathSegments cs := by
  rcases List.getLast?_eq_some_iff.mp hcs with ⟨front, rfl⟩
  have hsplit : splitOn '/' (front ++ ['/']) = splitOn '/' front ++ [[]] :=
    splitOn_slash front []
  unfold pathSegments
  rw [splitOn_back (no_slash_of_blank h) hsplit, hsplit, List.filter_append,
    List.filter_append, List.nil_append, List.filter_singleton, List.filter_singleton,
    trimChars_eq_nil.mpr h]
  rfl

theorem length_behind_segment (h : forall c, c ∈ blanks -> isSpace c = true)
    (hcs : cs.getLast? = some c) (hspace : isSpace c = false) (hslash : c ≠ '/') :
    spelledLength (cs ++ blanks) = spelledLength cs + blanks.length := by
  rcases List.getLast?_eq_some_iff.mp hcs with ⟨front, rfl⟩
  rcases splitOn_last front with ⟨parts, last, hparts⟩
  have hone : '/' ∉ [c] := fun hmem => hslash (List.mem_singleton.mp hmem).symm
  have hsplit := splitOn_back hone hparts
  have hlast : (trimChars (last ++ [c])).isEmpty = false :=
    not_blank_of_mem (List.mem_append_right _ (List.mem_singleton.mpr rfl)) hspace
  unfold spelledLength pathSegments
  rw [splitOn_back (no_slash_of_blank h) hsplit, hsplit, List.filter_append,
    List.filter_append, List.filter_singleton, List.filter_singleton, (blank_append h).2, hlast]
  simp only [Bool.not_false, cond_true, List.flatten_append, List.length_append,
    List.flatten_cons, List.flatten_nil, List.append_nil]
  omega

theorem front_cases (h : forall c, c ∈ blanks -> isSpace c = true)
    (hcs : cs.head? = some c) (hspace : isSpace c = false) :
    ((blanks = [] ∨ c = '/') ∧ pathSegments (blanks ++ cs) = pathSegments cs) ∨
      (blanks ≠ [] ∧ c ≠ '/' ∧ spelledLength cs < spelledLength (blanks ++ cs)) := by
  by_cases hnil : blanks = []
  · rw [hnil]
    exact Or.inl ⟨Or.inl rfl, rfl⟩
  · by_cases hslash : c = '/'
    · rw [hslash] at hcs
      exact Or.inl ⟨Or.inr hslash, segments_before_slash h hcs⟩
    · have hlength := length_before_segment h hcs hspace hslash
      have hpos := List.length_pos_iff.mpr hnil
      exact Or.inr ⟨hnil, hslash, by omega⟩

theorem back_cases (h : forall c, c ∈ blanks -> isSpace c = true)
    (hcs : cs.getLast? = some c) (hspace : isSpace c = false) :
    ((blanks = [] ∨ c = '/') ∧ pathSegments (cs ++ blanks) = pathSegments cs) ∨
      (blanks ≠ [] ∧ c ≠ '/' ∧ spelledLength cs < spelledLength (cs ++ blanks)) := by
  by_cases hnil : blanks = []
  · rw [hnil, List.append_nil]
    exact Or.inl ⟨Or.inl rfl, rfl⟩
  · by_cases hslash : c = '/'
    · rw [hslash] at hcs
      exact Or.inl ⟨Or.inr hslash, segments_behind_slash h hcs⟩
    · have hlength := length_behind_segment h hcs hspace hslash
      have hpos := List.length_pos_iff.mpr hnil
      exact Or.inr ⟨hnil, hslash, by omega⟩

theorem around_trimmed (cs : List Char) :
    exists front back, cs = front ++ (trimChars cs ++ back) ∧
      (forall c, c ∈ front -> isSpace c = true) ∧ forall c, c ∈ back -> isSpace c = true := by
  exists cs.takeWhile isSpace, (cs.dropWhile isSpace).rtakeWhile isSpace
  refine ⟨?_, fun c hc => List.mem_takeWhile_imp hc, fun c hc => List.mem_rtakeWhile_imp hc⟩
  have htrim : trimChars cs = (cs.dropWhile isSpace).rdropWhile isSpace := rfl
  rw [htrim, List.rdropWhile_append_rtakeWhile, List.takeWhile_append_dropWhile]

theorem front_tight (h : forall c, c ∈ blanks -> isSpace c = true)
    (hcs : cs.head? = some c) (hspace : isSpace c = false) :
    (!(blanks ++ cs).head?.any isSpace || (some c).all (· == '/')) = true <->
      blanks = [] ∨ c = '/' := by
  cases blanks with
  | nil =>
      rw [List.nil_append, hcs, Option.any_some, hspace]
      exact iff_of_true rfl (Or.inl rfl)
  | cons b more =>
      have hb := h b List.mem_cons_self
      rw [List.cons_append, List.head?_cons, Option.any_some, hb, Option.all_some,
        Bool.not_true, Bool.false_or, beq_iff_eq]
      simp

theorem back_tight (h : forall c, c ∈ blanks -> isSpace c = true)
    (hcs : cs.getLast? = some c) (hspace : isSpace c = false) :
    (!(cs ++ blanks).getLast?.any isSpace || (some c).all (· == '/')) = true <->
      blanks = [] ∨ c = '/' := by
  cases List.eq_nil_or_concat blanks with
  | inl hnil =>
      rw [hnil, List.append_nil, hcs, Option.any_some, hspace]
      exact iff_of_true rfl (Or.inl rfl)
  | inr hsome =>
      rcases hsome with ⟨more, b, hblanks⟩
      rw [List.concat_eq_append] at hblanks
      have hb := h b (hblanks ▸ List.mem_append_right _ (List.mem_singleton.mpr rfl))
      rw [hblanks, ← List.append_assoc, List.getLast?_concat, Option.any_some, hb,
        Option.all_some, Bool.not_true, Bool.false_or, beq_iff_eq]
      simp

theorem spelledLength_congr (h : pathSegments cs = pathSegments core) :
    spelledLength cs = spelledLength core := by
  unfold spelledLength
  rw [h]

/-- Trimming what is between the brackets leaves the segments alone just when no blank
stands next to one of them. -/
theorem tight_iff : tight inner = true <->
    pathSegments inner = pathSegments (trimChars inner) := by
  rcases around_trimmed inner with ⟨front, back, hinner, hfront, hback⟩
  have htrimmed := trimmed_iff.mp (trimmed_trimChars inner)
  unfold tight
  generalize trimChars inner = core at hinner htrimmed ⊢
  subst hinner
  rcases List.eq_nil_or_concat core with hnil | ⟨init, last, hlast⟩
  · have hall : forall c, c ∈ front ++ back -> isSpace c = true := by
      intro c hc
      cases List.mem_append.mp hc with
      | inl hin => exact hfront c hin
      | inr hin => exact hback c hin
    subst hnil
    rw [List.nil_append]
    unfold pathSegments
    rw [splitOn_plain (no_slash_of_blank hall), List.filter_singleton, trimChars_eq_nil.mpr hall]
    simp [splitOn, trimChars]
  · rw [List.concat_eq_append] at hlast
    have hend : core.getLast? = some last := by
      rw [hlast, List.getLast?_concat]
    cases hcore : core with
    | nil =>
        rw [hcore] at hend
        cases hend
    | cons c rest =>
        rw [← hcore]
        have hhead : core.head? = some c := by
          rw [hcore]
          rfl
        have hboth : (core ++ back).head? = some c := by
          rw [hcore]
          rfl
        have hc := htrimmed.1 c hhead
        have hl := htrimmed.2 last hend
        have hwhole : (front ++ (core ++ back)).getLast? = (core ++ back).getLast? := by
          rw [List.getLast?_append_of_ne_nil]
          intro hnil
          rw [hnil] at hboth
          cases hboth
        rw [Bool.and_eq_true, hhead, hend, hwhole, front_tight hfront hboth hc,
          back_tight hback hend hl]
        rcases back_cases hback hend hl with ⟨hkept, hsame⟩ | ⟨hne, hslash, hlonger⟩
        · rcases front_cases hfront hboth hc with ⟨hkept', hsame'⟩ | ⟨hne', hslash', hlonger'⟩
          · exact iff_of_true ⟨hkept', hkept⟩ (hsame'.trans hsame)
          · apply iff_of_false
            · exact fun h => h.1.elim hne' hslash'
            · intro h
              rw [spelledLength_congr h, spelledLength_congr hsame] at hlonger'
              exact absurd hlonger' (lt_irrefl _)
        · apply iff_of_false
          · exact fun h => h.2.elim hne hslash
          · intro h
            rcases front_cases hfront hboth hc with ⟨_, hsame'⟩ | ⟨_, _, hlonger'⟩
            · have hlength := spelledLength_congr (hsame'.symm.trans h)
              omega
            · have hlength := spelledLength_congr h
              omega

theorem canonical_iff {xs ys : List Char} :
    canonicalSection xs = canonicalSection ys <-> pathSegments xs = pathSegments ys := by
  constructor
  · intro h
    rw [← pathSegments_canonical xs, h, pathSegments_canonical]
  · intro h
    show '/' :: List.intercalate ['/'] (pathSegments xs) = _
    rw [h]
    rfl

theorem headerSegments_eq {line : List Char}
    (h : ((headerSegments line).any fun s => (trimChars s).isEmpty) = false) :
    headerSegments line = pathSegments (trimChars (line.drop 1).dropLast) := by
  rw [List.any_eq_false] at h
  have hkept : (headerSegments line).filter (fun s => !(trimChars s).isEmpty) =
      headerSegments line := by
    rw [List.filter_eq_self]
    intro s hs
    rw [Bool.not_eq_true']
    exact Bool.eq_false_iff.mpr (h s hs)
  rw [← hkept]
  unfold headerSegments pathSegments
  rw [List.filter_filter]
  apply List.filter_congr
  intro s _
  cases s with
  | nil => rfl
  | cons c more => exact Bool.and_true _

theorem not_header_of_entry {line : List Char} {item : Item} (h : entryItem line = some item)
    (current : List String) :
    (match some item with
      | some (Item.header segments) => segments
      | _ => current) = current := by
  unfold entryItem at h
  simp only at h
  split at h
  · cases h
  · split at h
    · cases h
    · cases h
      rfl

theorem next_of_line {current : List Char} {item : Item} (hitem : itemOf raw = some item) :
    nextSection (canonicalSection current) raw =
        canonicalSection ((bracketed raw).getD current) ∧
      nextSegments ((pathSegments (trimChars current)).map String.ofList) raw =
        (pathSegments (trimChars ((bracketed raw).getD current))).map String.ofList := by
  have hsegments : nextSegments ((pathSegments (trimChars current)).map String.ofList) raw =
      match some item with
        | some (Item.header segments) => segments
        | _ => (pathSegments (trimChars current)).map String.ofList := by
    unfold nextSegments
    rw [hitem]
  rw [hsegments]
  unfold itemOf at hitem
  unfold nextSection bracketed isHeaderLine
  simp only at hitem ⊢
  generalize trimChars raw = line at hitem ⊢
  split at hitem
  · -- A blank line or a comment is no header.
    rename_i hskip
    cases hitem
    have hhead : (line.head? == some '[') = false := by
      cases line with
      | nil => rfl
      | cons c rest =>
          simp only [List.isEmpty_cons, List.head?_cons, Bool.false_or, Bool.or_eq_true,
            beq_iff_eq, Option.some.injEq] at hskip
          rw [List.head?_cons, beq_eq_false_iff_ne]
          intro h
          cases h
          cases hskip with
          | inl h => exact absurd h (by decide)
          | inr h => exact absurd h (by decide)
    simp only [hhead, Bool.false_and, Bool.false_eq_true, if_false, Option.getD_none]
    exact ⟨trivial, trivial⟩
  · split at hitem
    · rename_i hhead
      unfold headerItem at hitem
      split at hitem
      · cases hitem
      · rename_i hlast
        rw [ne_eq, not_not] at hlast
        split at hitem
        · cases hitem
        · rename_i hplain
          rw [Bool.not_eq_true] at hplain
          cases hitem
          rw [headerSegments_eq hplain]
          simp only [hhead, hlast, beq_self_eq_true, Bool.and_self, if_true, Option.getD_some]
          exact ⟨trivial, trivial⟩
    · rename_i hhead
      rw [Bool.not_eq_true] at hhead
      rw [not_header_of_entry hitem]
      simp only [hhead, Bool.false_and, Bool.false_eq_true, if_false, Option.getD_none]
      exact ⟨trivial, trivial⟩

theorem endSection_eq {current : List Char} (h : ls.mapM itemOf = some items) :
    endSection (canonicalSection current) ls = canonicalSection
        (ls.foldl (fun current raw => (bracketed raw).getD current) current) ∧
      endSegments ((pathSegments (trimChars current)).map String.ofList) ls =
        (pathSegments (trimChars (ls.foldl (fun current raw => (bracketed raw).getD current)
          current))).map String.ofList := by
  induction ls generalizing current items with
  | nil => exact ⟨rfl, rfl⟩
  | cons raw rest ih =>
      rcases mapM_itemOf_cons h with ⟨item, xs, hitem, hxs, rfl⟩
      have hnext := @next_of_line raw current item hitem
      have hrest := @ih xs ((bracketed raw).getD current) hxs
      rw [← hnext.1, ← hnext.2] at hrest
      exact hrest

/-- The section that the form is in behind some lines, and the one `iniToJson` is in. -/
theorem sections_behind (h : ls.mapM itemOf = some items) :
    endSection ['/'] ls = canonicalSection (lastHeader ls) ∧
      endSegments [] ls = (pathSegments (trimChars (lastHeader ls))).map String.ofList :=
  @endSection_eq ls items [] h

end Brackets

/-!
# Where an edit lands
-/

def NoLine (text section_ key : String) : Prop :=
  forall l, l ∈ scanLines text.toList ->
    isLineOf (canonicalSection section_.toList) key.toList l = false

def NoContent (text section_ : String) : Prop :=
  forall l, l ∈ scanLines text.toList -> isContent (canonicalSection section_.toList) l = false

/-- `last` is the last line of the section that is not blank. -/
structure LastContent (text section_ : String) (before : List (List Char)) (last : List Char)
    (after : List (List Char)) : Prop where
  lines : splitLines text.toList = before ++ last :: after
  in_section : endSection ['/'] (before ++ [last]) = canonicalSection section_.toList
  not_blank : trimChars last ≠ []
  rest : forall l, l ∈ scanFrom (canonicalSection section_.toList) after ->
    isContent (canonicalSection section_.toList) l = false

theorem scanned_behind {form : List Char} {first rest : List Scanned}
    (h : scanFrom form ls = first ++ rest) :
    ls = first.map Scanned.raw ++ rest.map Scanned.raw ∧
      rest = scanFrom (endSection form (first.map Scanned.raw)) (rest.map Scanned.raw) := by
  have hls : ls = first.map Scanned.raw ++ rest.map Scanned.raw := by
    rw [← map_raw_scanFrom form ls, h, List.map_append]
  have hscan := scanFrom_append form (first.map Scanned.raw) (rest.map Scanned.raw)
  rw [← hls, h] at hscan
  have hlength := congrArg List.length (map_raw_scanFrom form (first.map Scanned.raw))
  rw [List.length_map, List.length_map] at hlength
  exact ⟨hls, (List.append_inj hscan hlength.symm).2⟩

theorem isLineOf_iff {l : Scanned} : isLineOf target key l = true <->
    l.section_ = target ∧ keySetting l.raw = some (key, valueOfLine l.raw) := by
  unfold isLineOf
  rw [Bool.and_eq_true, beq_iff_eq, isKeyLine_iff]

theorem scanned_at (h : splitLines text.toList = before ++ raw :: after) :
    { section_ := nextSection (endSection ['/'] before) raw, raw := raw } ∈
      scanLines text.toList := by
  unfold scanLines
  rw [h, scanFrom_append]
  exact List.mem_append_right _ List.mem_cons_self

theorem no_line_at (hnone : NoLine text section_ k)
    (h : splitLines text.toList = before ++ raw :: after)
    (hsetting : keySetting raw = some (k.toList, value)) :
    endSection ['/'] before ≠ canonicalSection section_.toList := by
  intro hsection
  have hline := hnone _ (scanned_at h)
  rw [Bool.eq_false_iff] at hline
  apply hline
  apply isLineOf_iff.mpr
  constructor
  · rw [← hsection]
    exact nextSection_setting hsetting _
  · rw [value_of_setting hsetting]
    exact hsetting

structure FirstLine (text section_ key : String) (before : List (List Char)) (raw : List Char)
    (after : List (List Char)) (value : List Char) : Prop where
  lines : splitLines text.toList = before ++ raw :: after
  in_section : endSection ['/'] before = canonicalSection section_.toList
  setting : keySetting raw = some (key.toList, value)
  get : getIniValue text section_ key = some (String.ofList value)
  set : forall v, setIniValue text section_ key v =
    String.ofList (joinLines (before ++ entryLine key.toList v.toList :: after))
  rename : forall newKey, renameIniKey text section_ key newKey =
    String.ofList (joinLines (before ++ entryLine newKey.toList value :: after))

theorem firstLine_or_none (text section_ key : String) :
    NoLine text section_ key ∨
      exists before raw after value, FirstLine text section_ key before raw after value := by
  rcases first_line (canonicalSection section_.toList) key.toList (scanLines text.toList) with
    ⟨-, hnone⟩ | ⟨found, after, hdrop, hscanned, hfound, hbefore⟩
  · exact Or.inl hnone
  · apply Or.inr
    have hfind : (scanLines text.toList).find?
        (isLineOf (canonicalSection section_.toList) key.toList) = some found := by
      rw [List.find?_eq_some_iff_append]
      refine ⟨hfound, _, after, hscanned, ?_⟩
      intro l hl
      rw [hbefore l hl]
      rfl
    rcases scanned_split hscanned with ⟨hlines, -, hsection⟩
    rcases isLineOf_iff.mp hfound with ⟨hin, hsetting⟩
    rw [nextSection_setting hsetting] at hsection
    exists ((scanLines text.toList).takeWhile fun l =>
      !isLineOf (canonicalSection section_.toList) key.toList l).map Scanned.raw
    exists found.raw, after.map Scanned.raw, valueOfLine found.raw
    constructor
    · exact hlines
    · rw [← hsection]
      exact hin
    · exact hsetting
    · unfold getIniValue
      simp only
      rw [hfind]
      rfl
    · intro v
      unfold setIniValue setLine
      simp only
      rw [hdrop]
    · intro newKey
      unfold renameIniKey renameLine
      simp only
      rw [hdrop]

theorem get_of_no_line (h : NoLine text section_ k) : getIniValue text section_ k = none := by
  unfold getIniValue
  simp only
  rw [List.find?_eq_none.mpr]
  · rfl
  · intro l hl
    rw [h l hl]
    exact Bool.false_ne_true

theorem drop_of_no_line (h : NoLine text section_ k) :
    (scanLines text.toList).dropWhile
      (fun l => !isLineOf (canonicalSection section_.toList) k.toList l) = [] := by
  rw [List.dropWhile_eq_nil_iff]
  intro l hl
  rw [h l hl]
  rfl

theorem rename_of_no_line (h : NoLine text section_ k) (newKey : String) :
    renameIniKey text section_ k newKey = String.ofList (joinLines (splitLines text.toList)) := by
  unfold renameIniKey renameLine
  simp only
  rw [drop_of_no_line h]
  unfold scanLines
  rw [map_raw_scanFrom]

theorem lastContent_or_none (text section_ : String) :
    (exists before last after, LastContent text section_ before last after) ∨
      NoContent text section_ := by
  have hsplit := (@List.rdropWhile_append_rtakeWhile _
    (fun l => !isContent (canonicalSection section_.toList) l) (scanLines text.toList)).symm
  have hlast := List.rdropWhile_last_not
    (fun l => !isContent (canonicalSection section_.toList) l) (scanLines text.toList)
  have hrest : forall l, l ∈ (scanLines text.toList).rtakeWhile
      (fun l => !isContent (canonicalSection section_.toList) l) ->
        isContent (canonicalSection section_.toList) l = false := by
    intro l hl
    have hnot := List.mem_rtakeWhile_imp hl
    rw [Bool.not_eq_true'] at hnot
    exact hnot
  generalize (scanLines text.toList).rdropWhile
    (fun l => !isContent (canonicalSection section_.toList) l) = upTo at hsplit hlast
  generalize (scanLines text.toList).rtakeWhile
    (fun l => !isContent (canonicalSection section_.toList) l) = rest at hsplit hrest
  cases List.eq_nil_or_concat upTo with
  | inl hnil =>
      subst hnil
      apply Or.inr
      intro l hl
      rw [hsplit] at hl
      exact hrest l hl
  | inr hsome =>
      rcases hsome with ⟨first, last, hupTo⟩
      rw [List.concat_eq_append] at hupTo
      subst hupTo
      apply Or.inl
      have hcontent := hlast (by simp)
      simp only [List.getLast_append_singleton, Bool.not_eq_true, Bool.not_eq_false'] at hcontent
      unfold isContent at hcontent
      rw [Bool.and_eq_true, beq_iff_eq, Bool.not_eq_true', List.isEmpty_eq_false_iff] at hcontent
      have hbehind := scanned_behind hsplit
      rw [List.map_append, List.map_singleton] at hbehind
      have hsection : endSection ['/'] (first.map Scanned.raw ++ [last.raw]) =
          canonicalSection section_.toList := by
        rw [List.append_assoc] at hsplit
        have hline := (scanned_split hsplit).2.2
        rw [endSection_append, ← hcontent.1, hline]
        rfl
      rw [hsection] at hbehind
      refine ⟨first.map Scanned.raw, last.raw, rest.map Scanned.raw, ?_, hsection, hcontent.2, ?_⟩
      · rw [hbehind.1, List.append_assoc]
        rfl
      · rw [← hbehind.2]
        exact hrest

theorem set_behind {last : List Char} (hnone : NoLine text section_ k)
    (hlast : LastContent text section_ before last after) (v : String) :
    setIniValue text section_ k v = String.ofList
      (joinLines ((before ++ [last]) ++ entryLine k.toList v.toList :: after)) := by
  have hend := hlast.in_section
  have hscan : scanLines text.toList = (scanFrom ['/'] before ++
      [{ section_ := canonicalSection section_.toList, raw := last }]) ++
        scanFrom (canonicalSection section_.toList) after := by
    unfold scanLines
    rw [endSection_append] at hend
    have hnext : nextSection (endSection ['/'] before) last = canonicalSection section_.toList :=
      hend
    rw [hlast.lines, scanFrom_append, scanFrom, hnext, List.append_assoc]
    rfl
  have hcontent : isContent (canonicalSection section_.toList)
      { section_ := canonicalSection section_.toList, raw := last } = true := by
    have hblank := List.isEmpty_eq_false_iff.mpr hlast.not_blank
    simp [isContent, hblank]
  have hupTo : (scanLines text.toList).rdropWhile
      (fun l => !isContent (canonicalSection section_.toList) l) = scanFrom ['/'] before ++
        [{ section_ := canonicalSection section_.toList, raw := last }] := by
    rw [hscan, List.rdropWhile, List.reverse_append, List.dropWhile_append_of_pos]
    · show List.rdropWhile _ (_ ++ [_]) = _
      rw [List.rdropWhile_concat, if_neg]
      rw [hcontent]
      exact Bool.false_ne_true
    · intro l hl
      rw [hlast.rest l (List.mem_reverse.mp hl)]
      rfl
  have hrest : (scanLines text.toList).rtakeWhile
      (fun l => !isContent (canonicalSection section_.toList) l) =
        scanFrom (canonicalSection section_.toList) after := by
    have hwhole := @List.rdropWhile_append_rtakeWhile _
      (fun l => !isContent (canonicalSection section_.toList) l) (scanLines text.toList)
    rw [hupTo] at hwhole
    exact List.append_cancel_left (hwhole.trans hscan)
  unfold setIniValue setLine
  simp only
  rw [drop_of_no_line hnone, hupTo, hrest]
  simp only
  rw [if_neg, List.map_append, map_raw_scanFrom, map_raw_scanFrom]
  · rfl
  · simp

theorem set_new (hnone : NoLine text section_ k) (hempty : NoContent text section_) (v : String) :
    setIniValue text section_ k v = String.ofList
      (appendSection text.toList (canonicalSection section_.toList)
        (entryLine k.toList v.toList)) := by
  have hupTo : (scanLines text.toList).rdropWhile
      (fun l => !isContent (canonicalSection section_.toList) l) = [] := by
    rw [List.rdropWhile_eq_nil_iff]
    intro l hl
    rw [hempty l hl]
    rfl
  unfold setIniValue setLine
  simp only
  rw [drop_of_no_line hnone, hupTo]
  rfl

end Web
end FleetServer
