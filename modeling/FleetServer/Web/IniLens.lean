import FleetServer.Web.IniEdits

/-!
# Edits as a lens

A text is read as the list of its bindings: a section and a key, and the value of
the line that sets them, line after line.  Every edit is a change of that list at one
place, whatever else the text holds.
-/

namespace FleetServer
namespace Web

open FleetServer.Core
open Bindings

variable {c : Char} {xs ys raw raw' current target key value : List Char}
variable {ls ms : List (List Char)} {scanned : List Scanned}

/-- A section and a key in it. -/
abbrev Place : Type := List Char × List Char

/-!
# The bindings of a text
-/

def bindingOf (l : Scanned) : Option (Place × List Char) :=
  (keySetting l.raw).map fun s => ((l.section_, s.1), s.2)

def bindingsFrom (current : List Char) (ls : List (List Char)) : List (Place × List Char) :=
  (scanFrom current ls).filterMap bindingOf

def bindings (text : List Char) : List (Place × List Char) :=
  bindingsFrom ['/'] (splitLines text)

theorem bindingOf_line {l : Scanned} (h : isLineOf target key l = true) :
    bindingOf l = some ((target, key), valueOfLine l.raw) := by
  unfold isLineOf at h
  rw [Bool.and_eq_true, beq_iff_eq] at h
  unfold bindingOf
  rw [isKeyLine_iff.mp h.2, h.1]
  rfl

theorem line_of_binding {l : Scanned} (h : bindingOf l = some ((target, key), value)) :
    isLineOf target key l = true := by
  unfold bindingOf at h
  rcases Option.map_eq_some_iff.mp h with ⟨s, hs, hsame⟩
  rcases s with ⟨k, v⟩
  cases hsame
  unfold isLineOf
  rw [isKeyLine_of_setting hs, beq_self_eq_true]
  rfl

theorem find_line (target key : List Char) (scanned : List Scanned) :
    (scanned.find? (isLineOf target key)).map (fun l => valueOfLine l.raw) =
      (scanned.filterMap bindingOf).lookup (target, key) := by
  induction scanned with
  | nil => rfl
  | cons l rest ih =>
      rw [List.find?_cons, List.filterMap_cons]
      cases hline : isLineOf target key l with
      | true =>
          rw [bindingOf_line hline]
          show _ = List.lookup (target, key) (((target, key), valueOfLine l.raw) :: _)
          rw [List.lookup_cons_self]
          rfl
      | false =>
          cases hbinding : bindingOf l with
          | none => exact ih
          | some b =>
              rcases b with ⟨place, v⟩
              have hother : ((target, key) == place) = false := by
                rw [beq_eq_false_iff_ne]
                rintro rfl
                rw [line_of_binding hbinding] at hline
                cases hline
              show _ = List.lookup (target, key) ((place, v) :: _)
              rw [List.lookup_cons, hother]
              exact ih

theorem getIniValue_eq (text section_ key : String) :
    getIniValue text section_ key =
      ((bindings text.toList).lookup (canonicalSection section_.toList, key.toList)).map
        String.ofList := by
  have hfind := find_line (canonicalSection section_.toList) key.toList (scanLines text.toList)
  unfold getIniValue
  show _ = (((scanLines text.toList).filterMap bindingOf).lookup _).map String.ofList
  rw [← hfind, Option.map_map]
  rfl

/-!
# Lines one after the other
-/

def endSection (current : List Char) (ls : List (List Char)) : List Char :=
  ls.foldl nextSection current

theorem scanFrom_append (current : List Char) (ls ms : List (List Char)) :
    scanFrom current (ls ++ ms) = scanFrom current ls ++ scanFrom (endSection current ls) ms := by
  induction ls generalizing current with
  | nil => rfl
  | cons raw rest ih =>
      rw [List.cons_append, scanFrom, ih, scanFrom, List.cons_append]
      rfl

theorem map_raw_scanFrom (current : List Char) (ls : List (List Char)) :
    (scanFrom current ls).map Scanned.raw = ls := by
  induction ls generalizing current with
  | nil => rfl
  | cons raw rest ih => rw [scanFrom, List.map_cons, ih]

theorem bindingsFrom_append (current : List Char) (ls ms : List (List Char)) :
    bindingsFrom current (ls ++ ms) =
      bindingsFrom current ls ++ bindingsFrom (endSection current ls) ms := by
  unfold bindingsFrom
  rw [scanFrom_append, List.filterMap_append]

theorem nextSection_congr (h : trimChars raw = trimChars raw') (current : List Char) :
    nextSection current raw = nextSection current raw' := by
  unfold nextSection
  rw [h]

theorem keySetting_congr (h : trimChars raw = trimChars raw') :
    keySetting raw = keySetting raw' := by
  unfold keySetting
  rw [h]

theorem bindingsFrom_congr (current : List Char) (h : ls.map trimChars = ms.map trimChars) :
    bindingsFrom current ls = bindingsFrom current ms := by
  induction ls generalizing ms current with
  | nil =>
      cases ms with
      | nil => rfl
      | cons raw rest => cases h
  | cons raw rest ih =>
      cases ms with
      | nil => cases h
      | cons raw' rest' =>
          rw [List.map_cons, List.map_cons] at h
          injection h with hraw hrest
          unfold bindingsFrom at ih ⊢
          rw [scanFrom, scanFrom, List.filterMap_cons, List.filterMap_cons,
            nextSection_congr hraw, ih _ hrest]
          unfold bindingOf
          rw [keySetting_congr hraw]

/-!
# Splitting what was joined

A line that ends in a carriage return loses it when lines are joined and split
again, which trimming does not see.
-/

def SameLine (xs ys : List Char) : Prop :=
  xs = ys ∨ xs = ys ++ ['\r']

theorem sameLine_cons (c : Char) (h : SameLine xs ys) : SameLine (c :: xs) (c :: ys) := by
  cases h with
  | inl heq => exact Or.inl (congrArg (List.cons c) heq)
  | inr heq => exact Or.inr (congrArg (List.cons c) heq)

theorem trimChars_sameLine (h : SameLine xs ys) : trimChars xs = trimChars ys := by
  cases h with
  | inl heq => rw [heq]
  | inr heq =>
      rw [heq]
      apply trimChars_append_blank
      intro c hc
      rw [List.mem_singleton.mp hc]
      rfl

theorem sameLines_cons {first : List Char} (c : Char)
    (h : List.Forall₂ SameLine (first :: ls) ms) :
    List.Forall₂ SameLine ((c :: first) :: ls) ((c :: ms.headD []) :: ms.tail) := by
  cases h with
  | cons hfirst hrest => exact List.Forall₂.cons (sameLine_cons c hfirst) hrest

theorem sameLines_splitLines (xs ys : List Char) :
    List.Forall₂ SameLine (splitLines xs ++ splitLines ys) (splitLines (xs ++ '\n' :: ys)) := by
  have hrefl : forall ls, List.Forall₂ SameLine ls ls := by
    intro ls
    exact List.forall₂_same.mpr fun _ _ => Or.inl rfl
  induction xs using splitLines.induct with
  | case1 =>
      rw [List.nil_append, splitLines_newline]
      exact hrefl _
  | case2 rest ih =>
      rw [List.cons_append, List.cons_append, splitLines_break, splitLines_break]
      exact List.Forall₂.cons (Or.inl rfl) ih
  | case3 rest ih =>
      rw [List.cons_append, splitLines_newline, splitLines_newline]
      exact List.Forall₂.cons (Or.inl rfl) ih
  | case4 x rest hbreak hnewline hnil ih => exact absurd hnil (splitLines_ne_nil rest)
  | case5 x rest hbreak hnewline first lines hsplit ih =>
      have hx : x ≠ '\n' := hnewline
      have hreturn : x = '\r' -> rest.head? ≠ some '\n' := by
        intro heq hhead
        cases rest with
        | nil => cases hhead
        | cons y rest =>
            cases hhead
            exact hbreak rest heq rfl
      rw [splitLines_cons hx hreturn, hsplit]
      by_cases hlast : x = '\r' ∧ rest = []
      · -- The carriage return joins the line end that follows it.
        rcases hlast with ⟨rfl, rfl⟩
        rw [splitLines] at hsplit
        cases hsplit
        show List.Forall₂ SameLine (['\r'] :: splitLines ys) (splitLines ('\r' :: '\n' :: ys))
        rw [splitLines_break]
        exact List.Forall₂.cons (Or.inr rfl) (hrefl _)
      · show List.Forall₂ SameLine ((x :: first) :: (lines ++ splitLines ys))
          (splitLines (x :: (rest ++ '\n' :: ys)))
        rw [splitLines_cons hx]
        · rw [hsplit] at ih
          exact sameLines_cons x ih
        · intro heq hhead
          cases rest with
          | nil => exact hlast ⟨heq, rfl⟩
          | cons y rest =>
              apply hreturn heq
              exact hhead

theorem map_trim_of_sameLines (h : List.Forall₂ SameLine ls ms) :
    ls.map trimChars = ms.map trimChars := by
  induction h with
  | nil => rfl
  | cons hfirst hrest ih => rw [List.map_cons, List.map_cons, trimChars_sameLine hfirst, ih]

theorem trimmed_splitLines_append (xs ys : List Char) :
    (splitLines (xs ++ '\n' :: ys)).map trimChars =
      (splitLines xs ++ splitLines ys).map trimChars :=
  (map_trim_of_sameLines (sameLines_splitLines xs ys)).symm

theorem splitLines_one (h : '\n' ∉ xs) : splitLines xs = [xs] := by
  induction xs with
  | nil => rfl
  | cons x xs ih =>
      have hx : x ≠ '\n' := fun heq => h (by rw [heq]; exact List.mem_cons_self)
      have hxs : '\n' ∉ xs := fun hmem => h (List.mem_cons_of_mem _ hmem)
      rw [splitLines_cons hx, ih hxs]
      · rfl
      · intro _ hhead
        exact hxs (List.mem_of_head? hhead)

theorem trimmed_splitLines_join (h : forall line, line ∈ ls -> '\n' ∉ line) (hne : ls ≠ []) :
    (splitLines (joinLines ls)).map trimChars = ls.map trimChars := by
  induction ls with
  | nil => exact absurd rfl hne
  | cons line rest ih =>
      have hline := h line List.mem_cons_self
      cases rest with
      | nil =>
          show (splitLines (List.intercalate ['\n'] [line])).map trimChars = _
          rw [List.intercalate_singleton, splitLines_one hline]
      | cons next rest =>
          have hjoin : joinLines (line :: next :: rest) =
              line ++ '\n' :: joinLines (next :: rest) := by
            unfold joinLines
            rw [List.intercalate_cons_cons]
            simp
          rw [hjoin, trimmed_splitLines_append, List.map_append, splitLines_one hline,
            ih (fun l hl => h l (List.mem_cons_of_mem _ hl)) (List.cons_ne_nil _ _)]
          rfl

theorem bindings_join (h : forall line, line ∈ ls -> '\n' ∉ line) :
    bindings (joinLines ls) = bindingsFrom ['/'] ls := by
  cases ls with
  | nil => rfl
  | cons line rest =>
      exact bindingsFrom_congr _ (trimmed_splitLines_join h (List.cons_ne_nil _ _))

/-!
# One line changed
-/

theorem nextSection_setting (h : keySetting raw = some (key, value)) (current : List Char) :
    nextSection current raw = current := by
  have hheader : isHeaderLine (trimChars raw) = false := by
    unfold keySetting at h
    simp only at h
    split at h
    · cases h
    · rename_i hskip
      unfold isSkipped at hskip
      simp only [Bool.or_eq_true, not_or] at hskip
      unfold isHeaderLine
      rw [Bool.eq_false_iff.mpr hskip.2]
      rfl
  unfold nextSection
  simp only [hheader]
  rfl

theorem bindingsFrom_setting (h : keySetting raw = some (key, value)) (current : List Char)
    (ls : List (List Char)) :
    bindingsFrom current (raw :: ls) = ((current, key), value) :: bindingsFrom current ls := by
  unfold bindingsFrom
  rw [scanFrom, nextSection_setting h, List.filterMap_cons]
  unfold bindingOf
  rw [h]
  rfl

theorem scanned_split {before after : List Scanned} {l : Scanned}
    (h : scanFrom current ls = before ++ l :: after) :
    ls = before.map Scanned.raw ++ l.raw :: after.map Scanned.raw ∧
      before = scanFrom current (before.map Scanned.raw) ∧
      l.section_ = nextSection (endSection current (before.map Scanned.raw)) l.raw := by
  have hls : ls = before.map Scanned.raw ++ l.raw :: after.map Scanned.raw := by
    rw [← map_raw_scanFrom current ls, h, List.map_append, List.map_cons]
  have hscan : scanFrom current ls = scanFrom current (before.map Scanned.raw) ++
      scanFrom (endSection current (before.map Scanned.raw))
        (l.raw :: after.map Scanned.raw) := by
    conv_lhs => rw [hls]
    exact scanFrom_append _ _ _
  rw [h, scanFrom] at hscan
  have hlength : before.length = (scanFrom current (before.map Scanned.raw)).length := by
    have hraw := congrArg List.length (map_raw_scanFrom current (before.map Scanned.raw))
    rw [List.length_map, List.length_map] at hraw
    exact hraw.symm
  have hparts := List.append_inj hscan hlength
  injection hparts.2 with hline hafter
  constructor
  · exact hls
  · constructor
    · exact hparts.1
    · rw [hline]

theorem unbound_of_no_line (h : forall l, l ∈ scanned -> isLineOf target key l = false) :
    Unbound (target, key) (scanned.filterMap bindingOf) := by
  intro b hb heq
  rcases List.mem_filterMap.mp hb with ⟨l, hl, hbinding⟩
  rcases b with ⟨place, v⟩
  cases heq
  have hline := line_of_binding hbinding
  rw [h l hl] at hline
  cases hline

theorem first_line (target key : List Char) (scanned : List Scanned) :
    (scanned.dropWhile (fun l => !isLineOf target key l) = [] ∧
        forall l, l ∈ scanned -> isLineOf target key l = false) ∨
      exists found after,
        scanned.dropWhile (fun l => !isLineOf target key l) = found :: after ∧
        scanned = scanned.takeWhile (fun l => !isLineOf target key l) ++ found :: after ∧
        isLineOf target key found = true ∧
        forall l, l ∈ scanned.takeWhile (fun l => !isLineOf target key l) ->
          isLineOf target key l = false := by
  have hbefore : forall l, l ∈ scanned.takeWhile (fun l => !isLineOf target key l) ->
      isLineOf target key l = false := by
    intro l hl
    have hkept := List.mem_takeWhile_imp hl
    simpa using hkept
  cases hdrop : scanned.dropWhile fun l => !isLineOf target key l with
  | nil =>
      left
      constructor
      · rfl
      · intro l hl
        have hnone := List.dropWhile_eq_nil_iff.mp hdrop l hl
        simpa using hnone
  | cons found after =>
      right
      exists found, after
      constructor
      · rfl
      · constructor
        · rw [← hdrop, List.takeWhile_append_dropWhile]
        · constructor
          · have hhead := List.head?_dropWhile_not (fun l => !isLineOf target key l) scanned
            rw [hdrop] at hhead
            simpa using hhead
          · exact hbefore

theorem bindings_replaced {text : List Char} {found : Scanned} {after : List Scanned}
    {newKey newValue : List Char}
    (hscanned : scanLines text =
      (scanLines text).takeWhile (fun l => !isLineOf target key l) ++ found :: after)
    (hfound : isLineOf target key found = true)
    (hnew : keySetting raw = some (newKey, newValue)) (hone : '\n' ∉ raw) :
    exists bs cs, bindings text = bs ++ ((target, key), valueOfLine found.raw) :: cs ∧
      bs = ((scanLines text).takeWhile fun l => !isLineOf target key l).filterMap bindingOf ∧
      bindings (joinLines (((scanLines text).takeWhile
          fun l => !isLineOf target key l).map Scanned.raw ++ raw :: after.map Scanned.raw)) =
        bs ++ ((target, newKey), newValue) :: cs := by
  generalize hbefore : (scanLines text).takeWhile (fun l => !isLineOf target key l) = before
    at hscanned ⊢
  rcases scanned_split hscanned with ⟨hlines, hscan, hsection⟩
  unfold isLineOf at hfound
  rw [Bool.and_eq_true, beq_iff_eq] at hfound
  have hsetting := isKeyLine_iff.mp hfound.2
  rw [hfound.1, nextSection_setting hsetting] at hsection
  have hbs : bindingsFrom ['/'] (before.map Scanned.raw) = before.filterMap bindingOf := by
    unfold bindingsFrom
    rw [← hscan]
  exists before.filterMap bindingOf, bindingsFrom target (after.map Scanned.raw)
  constructor
  · unfold bindings
    rw [hlines, bindingsFrom_append, ← hsection, bindingsFrom_setting hsetting, hbs]
  · constructor
    · rfl
    · rw [bindings_join, bindingsFrom_append, ← hsection, bindingsFrom_setting hnew, hbs]
      intro line hline
      cases List.mem_append.mp hline with
      | inl hin =>
          have hmem : line ∈ splitLines text := by
            rw [hlines]
            exact List.mem_append_left _ hin
          exact (mem_splitLines hmem).1
      | inr hin =>
          cases List.mem_cons.mp hin with
          | inl heq =>
              rw [heq]
              exact hone
          | inr hrest =>
              have hmem : line ∈ splitLines text := by
                rw [hlines]
                exact List.mem_append_right _ (List.mem_cons_of_mem _ hrest)
              exact (mem_splitLines hmem).1

theorem bindings_inserted {text : List Char} {upTo rest : List Scanned} {last : Scanned}
    (hscanned : scanLines text = (upTo ++ [last]) ++ rest) (hlast : last.section_ = target)
    (hnew : keySetting raw = some (key, value)) (hone : '\n' ∉ raw) :
    exists bs cs, bindings text = bs ++ cs ∧
      bindings (joinLines ((upTo ++ [last]).map Scanned.raw ++ raw :: rest.map Scanned.raw)) =
        bs ++ ((target, key), value) :: cs := by
  have hsplit : scanLines text = upTo ++ last :: rest := by
    rw [hscanned, List.append_assoc]
    rfl
  rcases scanned_split hsplit with ⟨hlines, -, hsection⟩
  have hlines : splitLines text = (upTo ++ [last]).map Scanned.raw ++ rest.map Scanned.raw := by
    rw [hlines, List.map_append, List.append_assoc]
    rfl
  have hend : endSection ['/'] ((upTo ++ [last]).map Scanned.raw) = target := by
    unfold endSection at hsection ⊢
    rw [List.map_append, List.foldl_append, ← hlast, hsection]
    rfl
  exists bindingsFrom ['/'] ((upTo ++ [last]).map Scanned.raw),
    bindingsFrom target (rest.map Scanned.raw)
  constructor
  · unfold bindings
    rw [hlines, bindingsFrom_append, hend]
  · rw [bindings_join, bindingsFrom_append, hend, bindingsFrom_setting hnew]
    intro line hline
    cases List.mem_append.mp hline with
    | inl hin =>
        have hmem : line ∈ splitLines text := by
          rw [hlines]
          exact List.mem_append_left _ hin
        exact (mem_splitLines hmem).1
    | inr hin =>
        cases List.mem_cons.mp hin with
        | inl heq =>
            rw [heq]
            exact hone
        | inr hrest =>
            have hmem : line ∈ splitLines text := by
              rw [hlines]
              exact List.mem_append_right _ hrest
            exact (mem_splitLines hmem).1

/-!
# A new section
-/

theorem splitOn_spelledPath {parts : List (List Char)} (h : forall s, s ∈ parts -> '/' ∉ s) :
    splitOn '/' ('/' :: List.intercalate ['/'] parts) =
      if parts = [] then [[], []] else [] :: parts := by
  rw [splitOn, if_pos rfl]
  split
  · rename_i hnil
    rw [hnil]
    rfl
  · rename_i hne
    rw [splitOn_eq, List.splitOn_intercalate '/' h hne]

def pathSegments (path : List Char) : List (List Char) :=
  (splitOn '/' path).filter fun s => !(trimChars s).isEmpty

theorem pathSegments_canonical (path : List Char) :
    pathSegments (canonicalSection path) = pathSegments path := by
  have hslash : forall s, s ∈ pathSegments path -> '/' ∉ s := by
    intro s hs
    exact (mem_splitOn (List.mem_filter.mp hs).1).1
  have hsame : (pathSegments path).filter (fun s => !(trimChars s).isEmpty) =
      pathSegments path := by
    unfold pathSegments
    rw [List.filter_filter]
    simp only [Bool.and_self]
  show ((splitOn '/' ('/' :: List.intercalate ['/'] (pathSegments path))).filter
    fun s => !(trimChars s).isEmpty) = _
  rw [splitOn_spelledPath hslash]
  split
  · rename_i hnil
    rw [hnil]
    rfl
  · exact hsame

theorem canonicalSection_idem (path : List Char) :
    canonicalSection (canonicalSection path) = canonicalSection path := by
  show '/' :: List.intercalate ['/'] (pathSegments (canonicalSection path)) =
    '/' :: List.intercalate ['/'] (pathSegments path)
  rw [pathSegments_canonical]

theorem one_line_canonicalSection {path : List Char} (h : '\n' ∉ path) :
    '\n' ∉ canonicalSection path := by
  have hparts : forall s, s ∈ pathSegments path -> '\n' ∉ s := by
    intro s hs hnewline
    exact h ((mem_splitOn (List.mem_filter.mp hs).1).2 _ hnewline)
  intro hnewline
  cases List.mem_cons.mp hnewline with
  | inl heq => exact absurd heq (by decide)
  | inr hin => exact not_mem_intercalate (by decide) hparts hin

theorem bindingsFrom_none (h : keySetting raw = none) (current : List Char)
    (ls : List (List Char)) :
    bindingsFrom current (raw :: ls) = bindingsFrom (nextSection current raw) ls := by
  unfold bindingsFrom
  rw [scanFrom, List.filterMap_cons]
  unfold bindingOf
  rw [h]
  rfl

theorem keySetting_skipped (h : isSkipped (trimChars raw) = true) : keySetting raw = none := by
  unfold keySetting
  simp only [h]
  rfl

theorem bindings_newline (text : List Char) : bindings (text ++ ['\n']) = bindings text := by
  have hsplit := trimmed_splitLines_append text []
  unfold bindings
  rw [bindingsFrom_congr _ hsplit, bindingsFrom_append]
  show _ ++ bindingsFrom _ [[]] = _
  rw [bindingsFrom_none rfl]
  exact List.append_nil _

theorem bindings_without_newlines (text : List Char) :
    bindings (text.rdropWhile fun c => c == '\n') = bindings text := by
  induction text using List.reverseRecOn with
  | nil => rfl
  | append_singleton xs x ih =>
      rw [List.rdropWhile_concat]
      split
      · rename_i hx
        rw [ih, beq_iff_eq.mp hx, bindings_newline]
      · rfl

theorem header_new (target : List Char) :
    (if target == ['/'] then ['[', '/', ']'] else '[' :: target ++ [']']) =
      '[' :: (target ++ [']']) := by
  split
  · rename_i h
    rw [beq_iff_eq.mp h]
    rfl
  · rfl

theorem trimmed_brackets (xs : List Char) : Trimmed ('[' :: (xs ++ [']'])) := by
  apply @trimmed_append ('[' :: xs) [']'] (List.cons_ne_nil _ _) (List.cons_ne_nil _ _)
  · intro c hc
    cases hc
    rfl
  · intro c hc
    cases hc
    rfl

theorem nextSection_brackets (current xs : List Char) :
    nextSection current ('[' :: (xs ++ [']'])) = canonicalSection xs := by
  have hheader : isHeaderLine ('[' :: (xs ++ [']'])) = true := by
    unfold isHeaderLine
    rw [← List.cons_append, List.getLast?_concat]
    rfl
  unfold nextSection
  simp only [trimChars_of_trimmed (trimmed_brackets xs), hheader, if_true, List.drop_succ_cons,
    List.drop_zero, List.dropLast_concat]

theorem lines_appended (text : List Char) (honeTarget : '\n' ∉ target) (hone : '\n' ∉ raw) :
    exists front,
      (front = [] ∧ text.rdropWhile (fun c => c == '\n') = [] ∨
        front = splitLines (text.rdropWhile fun c => c == '\n') ++ [[]]) ∧
      (splitLines (appendSection text target raw)).map trimChars =
        (front ++ ['[' :: (target ++ [']']), raw, []]).map trimChars := by
  have hnew : (splitLines ('[' :: (target ++ [']']) ++ '\n' :: raw ++ ['\n'])).map trimChars =
      ['[' :: (target ++ [']']), raw, []].map trimChars := by
    have hnone : '\n' ∉ '[' :: (target ++ [']']) := by simp [honeTarget]
    have hlast : ('[' :: (target ++ [']'])).getLast? ≠ some '\r' := by
      rw [← List.cons_append, List.getLast?_concat]
      decide
    have hentry := trimmed_splitLines_append raw []
    rw [List.append_assoc]
    show (splitLines ('[' :: (target ++ [']']) ++ '\n' :: (raw ++ ['\n']))).map trimChars = _
    rw [splitLines_append hnone hlast, List.map_cons, hentry, splitLines_one hone]
    rfl
  unfold appendSection
  simp only [header_new]
  generalize text.rdropWhile (fun c => c == '\n') = doc
  cases doc with
  | nil => exact ⟨[], Or.inl ⟨rfl, rfl⟩, hnew⟩
  | cons c rest =>
      have hdoc : (c :: rest) ++ (if (c :: rest).isEmpty then [] else ['\n', '\n']) ++
          '[' :: (target ++ [']']) ++ '\n' :: raw ++ ['\n'] =
          (c :: rest) ++ '\n' :: ('\n' :: ('[' :: (target ++ [']']) ++ '\n' :: raw ++
            ['\n'])) := by
        simp
      refine ⟨splitLines (c :: rest) ++ [[]], Or.inr rfl, ?_⟩
      rw [hdoc, trimmed_splitLines_append, splitLines_newline, List.map_append, List.map_cons,
        hnew, List.map_append, List.map_append, List.append_assoc]
      rfl

theorem bindings_appended {text : List Char} (htarget : canonicalSection target = target)
    (honeTarget : '\n' ∉ target) (hnew : keySetting raw = some (key, value))
    (hone : '\n' ∉ raw) :
    bindings (appendSection text target raw) = bindings text ++ [((target, key), value)] := by
  have hheader : keySetting ('[' :: (target ++ [']'])) = none := by
    apply keySetting_skipped
    rw [trimChars_of_trimmed (trimmed_brackets target)]
    simp [isSkipped]
  have hblank : keySetting [] = none := rfl
  have htail : forall current : List Char,
      bindingsFrom current ['[' :: (target ++ [']']), raw, []] = [((target, key), value)] := by
    intro current
    rw [bindingsFrom_none hheader, nextSection_brackets, htarget, bindingsFrom_setting hnew,
      bindingsFrom_none hblank]
    rfl
  rcases lines_appended text honeTarget hone with ⟨front, hfront, hlines⟩
  have hsame : bindingsFrom ['/'] front = bindings text := by
    rw [← bindings_without_newlines text]
    rcases hfront with ⟨hnil, hdoc⟩ | hdoc
    · rw [hnil, hdoc]
      rfl
    · rw [hdoc, bindingsFrom_append, bindingsFrom_none hblank]
      exact List.append_nil _
  unfold bindings at hsame ⊢
  rw [bindingsFrom_congr _ hlines, bindingsFrom_append, htail, hsame]

/-!
# Removing lines
-/

theorem bindingsFrom_removed (target key current : List Char) (ls : List (List Char)) :
    bindingsFrom current
        (((scanFrom current ls).filter fun l => !isLineOf target key l).map Scanned.raw) =
      remove (target, key) (bindingsFrom current ls) := by
  induction ls generalizing current with
  | nil => rfl
  | cons raw rest ih =>
      rw [scanFrom, List.filter_cons]
      cases hline : isLineOf target key
          { section_ := nextSection current raw, raw := raw } with
      | true =>
          have hfound := hline
          unfold isLineOf at hfound
          rw [Bool.and_eq_true, beq_iff_eq] at hfound
          have hsetting := isKeyLine_iff.mp hfound.2
          have hsection : current = target := by
            rw [← hfound.1]
            exact (nextSection_setting hsetting current).symm
          have hdropped : (!((target, key) == (target, key))) = false := by simp
          have hrest : remove (target, key) (((target, key), valueOfLine raw) ::
              bindingsFrom target rest) = remove (target, key) (bindingsFrom target rest) := by
            unfold remove
            rw [List.filter_cons, hdropped]
            rfl
          rw [bindingsFrom_setting hsetting, nextSection_setting hsetting, hsection]
          show bindingsFrom target (((scanFrom target rest).filter _).map Scanned.raw) = _
          rw [ih, hrest]
      | false =>
          show bindingsFrom current (raw :: _) = _
          cases hsetting : keySetting raw with
          | none =>
              rw [bindingsFrom_none hsetting, bindingsFrom_none hsetting]
              exact ih _
          | some s =>
              rcases s with ⟨k, v⟩
              have hne : (current, k) ≠ (target, key) := by
                intro heq
                have hbinding : bindingOf { section_ := nextSection current raw, raw := raw } =
                    some ((target, key), v) := by
                  unfold bindingOf
                  rw [hsetting, nextSection_setting hsetting, ← heq]
                  rfl
                rw [line_of_binding hbinding] at hline
                cases hline
              have hkept : remove (target, key) (((current, k), v) ::
                  bindingsFrom current rest) = ((current, k), v) ::
                    remove (target, key) (bindingsFrom current rest) := by
                unfold remove
                rw [List.filter_cons]
                simp [hne]
              rw [bindingsFrom_setting hsetting, bindingsFrom_setting hsetting,
                nextSection_setting hsetting, hkept]
              congr 1
              exact ih current

/-!
# The edits
-/

theorem bindings_setLine (text : List Char) (hcanonical : canonicalSection target = target)
    (honeTarget : '\n' ∉ target) (hnew : keySetting raw = some (key, value))
    (hone : '\n' ∉ raw) :
    Put (target, key) value (bindings text) (bindings (setLine target key raw text)) := by
  unfold setLine
  simp only
  rcases first_line target key (scanLines text) with
    ⟨hdrop, hnone⟩ | ⟨found, after, hdrop, hscanned, hfound, hbefore⟩
  · have hunbound : Unbound (target, key) (bindings text) := unbound_of_no_line hnone
    simp only [hdrop]
    split
    · -- The section has no line to stand behind.
      rw [bindings_appended hcanonical honeTarget hnew hone]
      have hempty : Unbound (target, key) ([] : List (Place × List Char)) :=
        fun _ hb => absurd hb List.not_mem_nil
      have hput : Put (target, key) value (bindings text ++ [])
          (bindings text ++ [((target, key), value)]) := Put.insert hunbound hempty
      rw [List.append_nil] at hput
      exact hput
    · rename_i hupTo
      have hsplit : scanLines text =
          (scanLines text).rdropWhile (fun l => !isContent target l) ++
            (scanLines text).rtakeWhile (fun l => !isContent target l) :=
        List.rdropWhile_append_rtakeWhile.symm
      have hne : (scanLines text).rdropWhile (fun l => !isContent target l) ≠ [] :=
        fun hnil => hupTo (by rw [hnil]; rfl)
      have hcontent : isContent target
          (((scanLines text).rdropWhile fun l => !isContent target l).getLast hne) = true := by
        have hlast := List.rdropWhile_last_not (fun l => !isContent target l)
          (scanLines text) hne
        simpa using hlast
      unfold isContent at hcontent
      rw [Bool.and_eq_true, beq_iff_eq] at hcontent
      have hupTo := (List.dropLast_append_getLast hne).symm
      rw [hupTo] at hsplit
      rcases bindings_inserted hsplit hcontent.1 hnew hone with ⟨bs, cs, hbindings, hresult⟩
      rw [← hupTo] at hresult
      rw [hresult, hbindings]
      rw [hbindings] at hunbound
      exact Put.insert (fun b hb => hunbound b (List.mem_append_left _ hb))
        (fun b hb => hunbound b (List.mem_append_right _ hb))
  · rcases bindings_replaced hscanned hfound hnew hone with
      ⟨bs, cs, hbindings, hbs, hresult⟩
    simp only [hdrop]
    rw [hresult, hbindings]
    apply Put.replace
    rw [hbs]
    exact unbound_of_no_line hbefore

theorem bindings_setIniValue (text section_ : String) {k v : String}
    (hsection : '\n' ∉ section_.toList) (hkey : KeyText k) (hvalue : '\n' ∉ v.toList) :
    Put (canonicalSection section_.toList, k.toList) (trimChars v.toList) (bindings text.toList)
      (bindings (setIniValue text section_ k v).toList) := by
  unfold setIniValue
  rw [String.toList_ofList]
  exact bindings_setLine _ (canonicalSection_idem _) (one_line_canonicalSection hsection)
    (setting_entryLine hkey _) (one_line_entryLine hkey hvalue)

theorem bindings_removeIniKey (text section_ k : String) :
    bindings (removeIniKey text section_ k).toList =
      remove (canonicalSection section_.toList, k.toList) (bindings text.toList) := by
  unfold removeIniKey
  simp only
  rw [String.toList_ofList, bindings_join]
  · exact bindingsFrom_removed _ _ _ _
  · intro line hline
    rcases List.mem_map.mp hline with ⟨l, hl, rfl⟩
    have hmem : l.raw ∈ (scanLines text.toList).map Scanned.raw :=
      List.mem_map.mpr ⟨l, (List.mem_filter.mp hl).1, rfl⟩
    unfold scanLines at hmem
    rw [map_raw_scanFrom] at hmem
    exact (mem_splitLines hmem).1

theorem place_ne {other otherKey section_ k : String}
    (h : (canonicalSection other.toList, otherKey) ≠ (canonicalSection section_.toList, k)) :
    (canonicalSection other.toList, otherKey.toList) ≠
      (canonicalSection section_.toList, k.toList) := by
  intro heq
  apply h
  injection heq with hsection hkey
  rw [hsection, String.toList_inj.mp hkey]

/-- Get after set, get after remove, and everything else as it was, on any text. -/
theorem edits_are_a_lens (text section_ key value : String) (hsection : '\n' ∉ section_.toList)
    (hkey : KeyText key) (hvalue : ValueText value) :
    getIniValue (setIniValue text section_ key value) section_ key = some value ∧
    getIniValue (removeIniKey text section_ key) section_ key = none ∧
    forall other otherKey : String,
      (canonicalSection other.toList, otherKey) ≠ (canonicalSection section_.toList, key) ->
        getIniValue (setIniValue text section_ key value) other otherKey =
          getIniValue text other otherKey ∧
        getIniValue (removeIniKey text section_ key) other otherKey =
          getIniValue text other otherKey := by
  have hput := bindings_setIniValue text section_ hsection hkey hvalue.one_line
  constructor
  · rw [getIniValue_eq, lookup_put hput, trimChars_of_trimmed hvalue.trimmed, Option.map_some,
      String.ofList_toList]
  · constructor
    · rw [getIniValue_eq, bindings_removeIniKey, lookup_remove]
      rfl
    · intro other otherKey hne
      constructor
      · rw [getIniValue_eq, getIniValue_eq, lookup_put_other hput (place_ne hne)]
      · rw [getIniValue_eq, getIniValue_eq, bindings_removeIniKey,
          lookup_remove_other (place_ne hne)]

/-- In a text with comments, a line that is no key line and a key set twice. -/
theorem edits_are_a_lens_in_broken_text :
    getIniValue (setIniValue "; top\n[a]\r\nx=1\noops\nx=2" "/a" "x" "3") "a" "x" = some "3" :=
  (edits_are_a_lens "; top\n[a]\r\nx=1\noops\nx=2" "a" "x" "3" (by decide)
    (plain_keyText (c := 'x') rfl (by decide) (by decide) (by decide) (by decide))
    ⟨by decide, by decide⟩).1

end Web
end FleetServer
