import FleetServer.Web.BundleZip

/-!
# The names in an archive

What the zip library says of an entry's name on the server, and when that is the name
the page gives the entry.
-/

namespace FleetServer
namespace Web

open FleetServer.Core

variable {c sep : Char} {xs ys : List Char} {parts acc comps : List (List Char)}
variable {rawName name : String}

/-!
# The library's answers
-/

structure ZipNames where
  isDir : String -> Bool
  enclosedName : String -> Option (List String)

/-- The parts of a path, with `.` left out and `..` taking a part away; none when it
would leave the directory. -/
def resolveParts (acc : List (List Char)) : List (List Char) -> Option (List (List Char))
  | [] => some acc.reverse
  | part :: rest =>
      if part = [] ∨ part = ['.'] then resolveParts acc rest
      else if part = ['.', '.'] then
        if acc = [] then none else resolveParts acc.tail rest
      else resolveParts (part :: acc) rest

def resolve (path : List Char) : Option (List String) :=
  if path.contains (Char.ofNat 0) then none
  else (resolveParts [] (splitOn '/' path)).map fun parts => parts.map String.ofList

/-- A directory is an entry whose name ends in a separator.  The name of another is its
path inside the archive, unless it holds a NUL or leads out; whether a backslash is a
separator is left open. -/
structure ZipNames.AsDocumented (lib : ZipNames) : Prop where
  isDir : forall rawName,
    lib.isDir rawName = true <-> (slashes rawName.toList).getLast? = some '/'
  enclosedName : forall rawName, Bundles.isAbsolute rawName = false ->
    lib.enclosedName rawName = resolve rawName.toList ∨
      lib.enclosedName rawName = resolve (slashes rawName.toList)

/-- A path without empty parts and without dots for parts. -/
def NormalPath (path : List Char) : Prop :=
  forall s, s ∈ splitOn '/' path -> s ≠ [] ∧ s ≠ ['.'] ∧ s ≠ ['.', '.']

/-!
# Parts
-/

theorem mem_part (hc : c ∈ xs) (hne : c ≠ sep) : exists s, s ∈ splitOn sep xs ∧ c ∈ s := by
  induction xs with
  | nil => cases hc
  | cons x xs ih =>
      rw [splitOn]
      by_cases hx : x = sep
      · rw [if_pos hx]
        cases List.mem_cons.mp hc with
        | inl heq => exact absurd (heq.trans hx) hne
        | inr hin =>
            rcases ih hin with ⟨s, hs, hmem⟩
            exact ⟨s, List.mem_cons_of_mem _ hs, hmem⟩
      · rw [if_neg hx]
        cases hsplit : splitOn sep xs with
        | nil => exact absurd hsplit (splitOn_ne_nil sep xs)
        | cons part parts =>
            rw [hsplit] at ih
            show exists s, s ∈ (x :: part) :: parts ∧ c ∈ s
            cases List.mem_cons.mp hc with
            | inl heq =>
                refine ⟨x :: part, List.mem_cons_self, ?_⟩
                rw [heq]
                exact List.mem_cons_self
            | inr hin =>
                rcases ih hin with ⟨s, hs, hmem⟩
                cases List.mem_cons.mp hs with
                | inl heq =>
                    rw [heq] at hmem
                    exact ⟨x :: part, List.mem_cons_self, List.mem_cons_of_mem _ hmem⟩
                | inr hlater => exact ⟨s, List.mem_cons_of_mem _ hlater, hmem⟩

theorem resolveParts_parts (h : resolveParts acc parts = some comps) :
    forall s, s ∈ comps -> s ∈ acc ∨
      (s ∈ parts ∧ s ≠ [] ∧ s ≠ ['.'] ∧ s ≠ ['.', '.']) := by
  induction parts generalizing acc with
  | nil =>
      cases h
      intro s hs
      exact Or.inl (List.mem_reverse.mp hs)
  | cons part rest ih =>
      rw [resolveParts] at h
      intro s hs
      have hlater : forall {acc' : List (List Char)}, resolveParts acc' rest = some comps ->
          (forall t, t ∈ acc' -> t ∈ acc ∨ (t = part ∧ t ≠ [] ∧ t ≠ ['.'] ∧ t ≠ ['.', '.'])) ->
            s ∈ acc ∨ (s ∈ part :: rest ∧ s ≠ [] ∧ s ≠ ['.'] ∧ s ≠ ['.', '.']) := by
        intro acc' hrest hacc
        cases ih hrest s hs with
        | inl hin =>
            cases hacc s hin with
            | inl hold => exact Or.inl hold
            | inr hnew =>
                rw [hnew.1]
                exact Or.inr ⟨List.mem_cons_self, hnew.1 ▸ hnew.2⟩
        | inr hin => exact Or.inr ⟨List.mem_cons_of_mem _ hin.1, hin.2⟩
      by_cases hskip : part = [] ∨ part = ['.']
      · rw [if_pos hskip] at h
        exact hlater h fun t ht => Or.inl ht
      · rw [if_neg hskip] at h
        rw [not_or] at hskip
        by_cases hup : part = ['.', '.']
        · rw [if_pos hup] at h
          by_cases hacc : acc = []
          · rw [if_pos hacc] at h
            cases h
          · rw [if_neg hacc] at h
            exact hlater h fun t ht => Or.inl (List.mem_of_mem_tail ht)
        · rw [if_neg hup] at h
          apply hlater h
          intro t ht
          cases List.mem_cons.mp ht with
          | inl heq =>
              rw [heq]
              exact Or.inr ⟨rfl, hskip.1, hskip.2, hup⟩
          | inr hin => exact Or.inl hin

/-- Without `..` every part stays that is neither empty nor a dot. -/
theorem resolveParts_plain (h : forall s, s ∈ parts -> s ≠ ['.', '.']) :
    resolveParts acc parts =
      some (acc.reverse ++ parts.filter fun s => decide (s ≠ [] ∧ s ≠ ['.'])) := by
  induction parts generalizing acc with
  | nil =>
      rw [resolveParts, List.filter_nil, List.append_nil]
  | cons part rest ih =>
      have hrest : forall s, s ∈ rest -> s ≠ ['.', '.'] :=
        fun s hs => h s (List.mem_cons_of_mem _ hs)
      have hup := h part List.mem_cons_self
      rw [resolveParts, List.filter_cons]
      by_cases hskip : part = [] ∨ part = ['.']
      · have hdrop : decide (part ≠ [] ∧ part ≠ ['.']) = false := by
          rw [decide_eq_false_iff_not]
          intro hkeep
          cases hskip with
          | inl hnil => exact hkeep.1 hnil
          | inr hdot => exact hkeep.2 hdot
        rw [if_pos hskip, hdrop]
        exact ih hrest
      · have hkeep : decide (part ≠ [] ∧ part ≠ ['.']) = true := by
          rw [decide_eq_true_eq]
          exact not_or.mp hskip
        rw [if_neg hskip, if_neg hup, hkeep, ih hrest, List.reverse_cons, List.append_assoc]
        rfl

/-!
# Backslashes
-/

theorem no_backslash_slashes (xs : List Char) : '\\' ∉ slashes xs := by
  intro hmem
  rcases List.mem_map.mp hmem with ⟨c, -, hc⟩
  split at hc
  · cases hc
  · rename_i hne
    exact hne hc

theorem slashes_plain (h : '\\' ∉ xs) : slashes xs = xs := by
  have hsame : forall c, c ∈ xs -> (if c = '\\' then '/' else c) = c := by
    intro c hc
    rw [if_neg]
    rintro rfl
    exact h hc
  exact (List.map_congr_left hsame).trans (List.map_id _)

theorem splitOn_join (xs ys : List Char) :
    splitOn sep (xs ++ sep :: ys) = splitOn sep xs ++ splitOn sep ys := by
  induction xs with
  | nil =>
      show splitOn sep (sep :: ys) = [] :: splitOn sep ys
      rw [splitOn, if_pos rfl]
  | cons x xs ih =>
      rw [List.cons_append, splitOn, splitOn]
      by_cases hx : x = sep
      · rw [if_pos hx, if_pos hx, ih]
        rfl
      · rw [if_neg hx, if_neg hx, ih]
        cases hsplit : splitOn sep xs with
        | nil => exact absurd hsplit (splitOn_ne_nil sep xs)
        | cons part parts => rfl

theorem splitOn_joined (hne : parts ≠ []) :
    splitOn sep (List.intercalate [sep] parts) = parts.flatMap (splitOn sep) := by
  induction parts with
  | nil => exact absurd rfl hne
  | cons part rest ih =>
      cases rest with
      | nil =>
          rw [List.intercalate_singleton, List.flatMap_cons, List.flatMap_nil, List.append_nil]
      | cons next rest =>
          have hjoin : List.intercalate [sep] (part :: next :: rest) =
              part ++ sep :: List.intercalate [sep] (next :: rest) := by
            rw [List.intercalate_cons_cons, List.append_assoc]
            rfl
          rw [hjoin, splitOn_join, ih (List.cons_ne_nil _ _)]
          rfl

theorem slashes_intercalate (parts : List (List Char)) :
    slashes (List.intercalate ['/'] parts) = List.intercalate ['/'] (parts.map slashes) := by
  induction parts with
  | nil => rfl
  | cons part rest ih =>
      cases rest with
      | nil => rw [List.intercalate_singleton, List.map_singleton, List.intercalate_singleton]
      | cons next rest =>
          rw [List.map_cons] at ih
          rw [List.intercalate_cons_cons, List.map_cons, List.map_cons,
            List.intercalate_cons_cons, ← ih]
          simp [slashes]

theorem part_of_slashes {s : List Char} (hs : s ∈ splitOn '/' xs) (hplain : '\\' ∉ s) :
    s ∈ splitOn '/' (slashes xs) := by
  have hjoined : List.intercalate ['/'] (splitOn '/' xs) = xs := by
    rw [splitOn_eq]
    exact List.intercalate_splitOn '/'
  have hsplit : splitOn '/' (slashes xs) =
      ((splitOn '/' xs).map slashes).flatMap (splitOn '/') := by
    rw [← splitOn_joined, ← slashes_intercalate, hjoined]
    intro hnil
    exact splitOn_ne_nil '/' xs (List.map_eq_nil_iff.mp hnil)
  rw [hsplit, List.mem_flatMap]
  refine ⟨slashes s, List.mem_map_of_mem hs, ?_⟩
  rw [slashes_plain hplain, splitOn_plain (mem_splitOn hs).1]
  exact List.mem_singleton.mpr rfl

/-!
# One name
-/

theorem toList_entryName (rawName : String) :
    (entryName rawName).toList =
      if ['.', '/'].isPrefixOf (slashes rawName.toList) then (slashes rawName.toList).drop 2
      else slashes rawName.toList :=
  String.toList_ofList

theorem no_backslash_entryName (rawName : String) : '\\' ∉ (entryName rawName).toList := by
  rw [toList_entryName]
  intro hmem
  split at hmem
  · exact no_backslash_slashes _ (List.mem_of_mem_drop hmem)
  · exact no_backslash_slashes _ hmem

theorem parts_entryName (rawName : String) :
    splitOn '/' (slashes rawName.toList) = splitOn '/' (entryName rawName).toList ∨
      splitOn '/' (slashes rawName.toList) =
        ['.'] :: splitOn '/' (entryName rawName).toList := by
  rw [toList_entryName]
  split
  · rename_i hdot
    rcases List.isPrefixOf_iff_prefix.mp hdot with ⟨rest, hrest⟩
    apply Or.inr
    rw [← hrest]
    show splitOn '/' (['.'] ++ '/' :: rest) = _
    rw [splitOn_append (by decide)]
    rfl
  · exact Or.inl rfl

theorem slashes_not_up (h : NormalPath (entryName rawName).toList) :
    forall s, s ∈ splitOn '/' (slashes rawName.toList) -> s ≠ ['.', '.'] := by
  intro s hs
  cases parts_entryName rawName with
  | inl hsame =>
      rw [hsame] at hs
      exact (h s hs).2.2
  | inr hdot =>
      rw [hdot] at hs
      cases List.mem_cons.mp hs with
      | inl heq =>
          rw [heq]
          decide
      | inr hin => exact (h s hin).2.2

theorem resolveParts_slashes (h : NormalPath (entryName rawName).toList) :
    resolveParts [] (splitOn '/' (slashes rawName.toList)) =
      some (splitOn '/' (entryName rawName).toList) := by
  have hall : (splitOn '/' (entryName rawName).toList).filter
      (fun s => decide (s ≠ [] ∧ s ≠ ['.'])) = splitOn '/' (entryName rawName).toList := by
    rw [List.filter_eq_self]
    intro s hs
    rw [decide_eq_true_eq]
    exact ⟨(h s hs).1, (h s hs).2.1⟩
  rw [resolveParts_plain (slashes_not_up h), List.reverse_nil, List.nil_append]
  cases parts_entryName rawName with
  | inl hsame => rw [hsame, hall]
  | inr hdot =>
      rw [hdot, List.filter_cons, if_neg (by decide), hall]

theorem backslash_stays {components : List String}
    (h : NormalPath (entryName rawName).toList) (hback : '\\' ∈ rawName.toList)
    (hresolve : resolve rawName.toList = some components) :
    exists s, s ∈ components ∧ '\\' ∈ s.toList := by
  unfold resolve at hresolve
  split at hresolve
  · cases hresolve
  · have hup : forall s, s ∈ splitOn '/' rawName.toList -> s ≠ ['.', '.'] := by
      intro s hs heq
      have hplain : '\\' ∉ s := by
        rw [heq]
        decide
      exact slashes_not_up h s (part_of_slashes hs hplain) heq
    rw [resolveParts_plain hup] at hresolve
    cases hresolve
    have hne : '\\' ≠ '/' := by decide
    rcases mem_part hback hne with ⟨s, hs, hmem⟩
    refine ⟨String.ofList s, ?_, ?_⟩
    · apply List.mem_map_of_mem
      rw [List.reverse_nil, List.nil_append, List.mem_filter, decide_eq_true_eq]
      refine ⟨hs, ?_, ?_⟩
      · rintro rfl
        cases hmem
      · rintro rfl
        exact absurd hmem (by decide)
    · rw [String.toList_ofList]
      exact hmem

/-!
# The server's name
-/

variable (lib : ZipNames)

def zipEntry (file : String × Bytes) : Server.ZipEntry where
  isDir := lib.isDir file.1
  rawName := file.1
  enclosedName := lib.enclosedName file.1
  data := file.2

/-- The name the server gives an entry, none for one it passes over; none outside when
it refuses the archive for it. -/
def servedName (rawName : String) : Option (Option String) :=
  if lib.isDir rawName then some none
  else
    (if Bundles.isAbsolute rawName then none else lib.enclosedName rawName).map
      fun components =>
        let name := String.intercalate "/" components
        if name.isEmpty then none else some name

/-- Both pass over the entry, or both give it one name. -/
def NameAlike (rawName : String) : Prop :=
  (entryName rawName).toList.getLast? = some '/' ∨
    (lib.isDir rawName = false ∧ Bundles.isAbsolute rawName = false ∧
      NormalPath (entryName rawName).toList ∧
        lib.enclosedName rawName =
          some ((splitOn '/' (entryName rawName).toList).map String.ofList))

variable {lib : ZipNames}

theorem intercalate_parts (path : List Char) :
    String.intercalate "/" ((splitOn '/' path).map String.ofList) = String.ofList path := by
  apply String.toList_inj.mp
  have hback : ((splitOn '/' path).map String.ofList).map String.toList = splitOn '/' path := by
    rw [List.map_map]
    apply List.map_id''
    intro s
    exact String.toList_ofList
  rw [String.toList_intercalate, hback, splitOn_eq]
  exact (List.intercalate_splitOn '/').trans String.toList_ofList.symm

theorem mem_intercalate {s : List Char} (hs : s ∈ parts) (hc : c ∈ s) :
    c ∈ List.intercalate xs parts := by
  induction parts with
  | nil => cases hs
  | cons part rest ih =>
      cases rest with
      | nil =>
          rw [List.mem_singleton.mp hs] at hc
          rw [List.intercalate_singleton]
          exact hc
      | cons next rest =>
          rw [List.intercalate_cons_cons, List.append_assoc, List.mem_append]
          cases List.mem_cons.mp hs with
          | inl heq =>
              rw [heq] at hc
              exact Or.inl hc
          | inr hin => exact Or.inr (List.mem_append_right _ (ih hin))

theorem not_empty_of_normal (h : NormalPath xs) : xs ≠ [] := by
  rintro rfl
  exact (h [] (List.mem_singleton.mpr rfl)).1 rfl

theorem isDir_of_slash (hlib : lib.AsDocumented)
    (h : (entryName rawName).toList.getLast? = some '/') : lib.isDir rawName = true := by
  rw [hlib.isDir]
  rw [toList_entryName] at h
  split at h
  · rename_i hdot
    rcases List.isPrefixOf_iff_prefix.mp hdot with ⟨rest, hrest⟩
    rw [← hrest] at h ⊢
    have hne : rest ≠ [] := by
      rintro rfl
      cases h
    rw [List.getLast?_append_of_ne_nil _ hne]
    exact h
  · exact h

theorem servedName_of_alike (hlib : lib.AsDocumented) (h : NameAlike lib rawName) :
    servedName lib rawName =
      some (if (entryName rawName).toList.getLast? = some '/' then none
        else some (entryName rawName)) := by
  unfold servedName
  cases h with
  | inl hslash =>
      rw [if_pos (isDir_of_slash hlib hslash), if_pos hslash]
  | inr hname =>
      rcases hname with ⟨hdir, habsolute, hnormal, henclosed⟩
      have hne := not_empty_of_normal hnormal
      have hslash : (entryName rawName).toList.getLast? ≠ some '/' := by
        intro hlast
        rw [isDir_of_slash hlib hlast] at hdir
        cases hdir
      have hsome : (entryName rawName).isEmpty = false := by
        rw [Bool.eq_false_iff, ne_eq, String.isEmpty_iff]
        intro hempty
        apply hne
        rw [hempty]
        rfl
      rw [hdir, habsolute, henclosed, if_neg hslash]
      show some (if (String.intercalate "/" _).isEmpty = true then none else some _) = _
      rw [intercalate_parts, String.ofList_toList, hsome]
      rfl

theorem normal_of_served (hlib : lib.AsDocumented)
    (h : servedName lib rawName = some (some name)) : NormalPath name.toList := by
  unfold servedName at h
  split at h
  · cases h
  · rcases Option.map_eq_some_iff.mp h with ⟨components, henclosed, hname⟩
    split at henclosed
    · cases henclosed
    · rename_i habsolute
      simp only at hname
      split at hname
      · cases hname
      · rename_i hempty
        cases hname
        have hresolved : exists path, resolve path = some components := by
          have habsolute := Bool.eq_false_iff.mpr habsolute
          cases hlib.enclosedName rawName habsolute with
          | inl hsame => exact ⟨_, hsame.symm.trans henclosed⟩
          | inr hsame => exact ⟨_, hsame.symm.trans henclosed⟩
        rcases hresolved with ⟨path, hresolve⟩
        unfold resolve at hresolve
        split at hresolve
        · cases hresolve
        · rcases Option.map_eq_some_iff.mp hresolve with ⟨parts, hparts, hsame⟩
          subst hsame
          have hproper := resolveParts_parts hparts
          have hplain : forall s, s ∈ parts ->
              '/' ∉ s ∧ s ≠ [] ∧ s ≠ ['.'] ∧ s ≠ ['.', '.'] := by
            intro s hs
            cases hproper s hs with
            | inl hnone => cases hnone
            | inr hin => exact ⟨(mem_splitOn hin.1).1, hin.2⟩
          have hback : (parts.map String.ofList).map String.toList = parts := by
            rw [List.map_map]
            apply List.map_id''
            intro s
            exact String.toList_ofList
          have hne : parts ≠ [] := by
            rintro rfl
            exact hempty rfl
          intro s hs
          rw [String.toList_intercalate, hback] at hs
          have hsplit : splitOn '/' (List.intercalate "/".toList parts) = parts := by
            rw [splitOn_eq]
            exact List.splitOn_intercalate '/' (fun t ht => (hplain t ht).1) hne
          rw [hsplit] at hs
          exact (hplain s hs).2

theorem alike_of_served (hlib : lib.AsDocumented) {served : Option String}
    (h : servedName lib rawName = some served)
    (hback : forall name, served = some name -> '\\' ∉ name.toList)
    (hnormal : NormalPath (entryName rawName).toList) : NameAlike lib rawName := by
  by_cases hslash : (entryName rawName).toList.getLast? = some '/'
  · exact Or.inl hslash
  · apply Or.inr
    unfold servedName at h
    split at h
    · rename_i hdir
      -- Only `./` is a directory that the page does not take for one.
      rw [hlib.isDir] at hdir
      rw [toList_entryName] at hslash hnormal
      exfalso
      split at hslash
      · rename_i hdot
        rcases List.isPrefixOf_iff_prefix.mp hdot with ⟨rest, hrest⟩
        rw [if_pos hdot, ← hrest] at hnormal
        rw [← hrest] at hslash hdir
        have hne : rest ≠ [] := not_empty_of_normal hnormal
        rw [List.getLast?_append_of_ne_nil _ hne] at hdir
        exact hslash hdir
      · exact hslash hdir
    · rename_i hdir
      rcases Option.map_eq_some_iff.mp h with ⟨components, henclosed, hname⟩
      split at henclosed
      · cases henclosed
      · rename_i habsolute
        have habsolute := Bool.eq_false_iff.mpr habsolute
        refine ⟨Bool.eq_false_iff.mpr hdir, habsolute, hnormal, ?_⟩
        have hread : resolve (slashes rawName.toList) = some components ->
            lib.enclosedName rawName =
              some ((splitOn '/' (entryName rawName).toList).map String.ofList) := by
          intro hresolve
          unfold resolve at hresolve
          split at hresolve
          · cases hresolve
          · rw [resolveParts_slashes hnormal] at hresolve
            rw [henclosed, ← hresolve]
            rfl
        cases hlib.enclosedName rawName habsolute with
        | inr hsame => exact hread (hsame.symm.trans henclosed)
        | inl hsame =>
            have hresolve := hsame.symm.trans henclosed
            by_cases hmem : '\\' ∈ rawName.toList
            · rcases backslash_stays hnormal hmem hresolve with ⟨s, hs, hin⟩
              have hinside : '\\' ∈ (String.intercalate "/" components).toList := by
                rw [String.toList_intercalate]
                exact mem_intercalate (List.mem_map_of_mem hs) hin
              have hsome : (String.intercalate "/" components).isEmpty = false := by
                rw [Bool.eq_false_iff, ne_eq, String.isEmpty_iff]
                intro hempty
                rw [hempty] at hinside
                cases hinside
              simp only [hsome] at hname
              exact absurd hinside (hback _ hname.symm)
            · rw [← slashes_plain hmem] at hresolve
              exact hread hresolve

end Web
end FleetServer
