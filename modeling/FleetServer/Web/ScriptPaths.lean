import FleetServer.Bundles.Archive
import FleetServer.Core.Lowercase
import FleetServer.Web.IniText

/-!
# Script paths in the browser and on the server

`bundles/bundlezip.ts` checks the script files an editor adds before the server does: a
pattern with counted segments there, a loop over the segments here, and two ways of
ignoring case.
-/

namespace FleetServer
namespace Web

open FleetServer.Core

/-- `[A-Za-z0-9._-]` -/
def isPathChar (c : Char) : Bool :=
  ('A' ≤ c && c ≤ 'Z') || ('a' ≤ c && c ≤ 'z') || ('0' ≤ c && c ≤ '9') || c == '.' || c == '_' ||
    c == '-'

/-- `(\/[A-Za-z0-9._-]+){0,n}$` -/
def matchSegments : Nat -> List Char -> Bool
  | _, [] => true
  | 0, _ :: _ => false
  | n + 1, c :: rest =>
      c == '/' && !(rest.takeWhile isPathChar).isEmpty &&
        matchSegments n (rest.dropWhile isPathChar)

/-- `SCRIPT_PATH_RE` -/
def scriptPathRe (path : List Char) : Bool :=
  "scripts".toList.isPrefixOf path && !(path.drop 7).isEmpty && matchSegments 8 (path.drop 7)

def validScriptPath (path : String) : Bool :=
  decide ((utf16 path).length ≤ 256) && scriptPathRe path.toList &&
    (splitOn '/' path.toList).all fun s => s != ['.'] && s != ['.', '.']

/-- `scriptPathClash`; `words` are the properties `toLowerCase` asks for. -/
def scriptPathClash (words : Lowercase.Words) (path : String) (paths : List String) :
    Option String :=
  let lower := Lowercase.lower words path.toList
  paths.find? fun other =>
    let o := Lowercase.lower words other.toList
    other != path &&
      (o == lower || (lower ++ ['/']).isPrefixOf o || (o ++ ['/']).isPrefixOf lower)

/-!
# Valid paths
-/

variable {c : Char} {xs : List Char} {path other : String} {paths : List String}
variable {words : Lowercase.Words}

theorem isPathChar_eq (c : Char) : isPathChar c = Hosts.isTokenChar c := by
  unfold isPathChar Hosts.isTokenChar isAsciiAlphanumeric isAsciiLowercase isAsciiDigit
  rw [Bool.or_comm ('A' ≤ c && c ≤ 'Z')]

theorem ascii_of_pathChar (h : isPathChar c = true) : Lowercase.IsAscii c := by
  unfold isPathChar at h
  simp only [Bool.or_eq_true, Bool.and_eq_true, decide_eq_true_eq, beq_iff_eq] at h
  unfold Lowercase.IsAscii
  rcases h with ((((⟨-, h⟩ | ⟨-, h⟩) | ⟨-, h⟩) | rfl) | rfl) | rfl
  · have hle : c.toNat ≤ 'Z'.toNat := h
    have hz : 'Z'.toNat = 90 := rfl
    omega
  · have hle : c.toNat ≤ 'z'.toNat := h
    have hz : 'z'.toNat = 122 := rfl
    omega
  · have hle : c.toNat ≤ '9'.toNat := h
    have hz : '9'.toNat = 57 := rfl
    omega
  · decide
  · decide
  · decide

def isSegment (s : List Char) : Bool :=
  !s.isEmpty && s.all isPathChar

theorem matchSegments_eq (n : Nat) :
    forall xs : List Char, matchSegments n ('/' :: xs) =
      (decide ((splitOn '/' xs).length ≤ n) && (splitOn '/' xs).all isSegment) := by
  induction n with
  | zero =>
      intro xs
      have hlength := List.length_pos_of_ne_nil (splitOn_ne_nil '/' xs)
      have hnot : decide ((splitOn '/' xs).length ≤ 0) = false := by
        rw [decide_eq_false_iff_not]
        omega
      rw [hnot, matchSegments]
      rfl
  | succ n ih =>
      intro xs
      have hslash : isPathChar '/' = false := by decide
      have hsplit := (List.takeWhile_append_dropWhile (p := isPathChar) (l := xs)).symm
      have hfront : forall c, c ∈ xs.takeWhile isPathChar -> isPathChar c = true :=
        fun c hc => List.mem_takeWhile_imp hc
      have hplain : '/' ∉ xs.takeWhile isPathChar := by
        intro hmem
        rw [hfront _ hmem] at hslash
        cases hslash
      have hall : (xs.takeWhile isPathChar).all isPathChar = true :=
        List.all_eq_true.mpr hfront
      rw [matchSegments]
      cases hrest : xs.dropWhile isPathChar with
      | nil =>
          rw [hrest, List.append_nil] at hsplit
          rw [← hsplit] at hall hplain ⊢
          rw [splitOn_plain hplain]
          cases n with
          | zero => simp [matchSegments, isSegment, hall]
          | succ n => simp [matchSegments, isSegment, hall]
      | cons c rest =>
          rw [hrest] at hsplit
          by_cases hc : c = '/'
          · subst hc
            have hparts : splitOn '/' xs = xs.takeWhile isPathChar :: splitOn '/' rest := by
              conv_lhs => rw [hsplit]
              exact splitOn_append hplain rest
            rw [ih, hparts, List.length_cons, List.all_cons]
            simp only [isSegment, hall, Nat.add_le_add_iff_right]
            cases (xs.takeWhile isPathChar).isEmpty with
            | true => simp
            | false => simp
          · have hhead := List.head?_dropWhile_not isPathChar xs
            rw [hrest] at hhead
            have hbad : isPathChar c = false := by simpa using hhead
            have hfail : matchSegments n (c :: rest) = false := by
              cases n with
              | zero => rfl
              | succ n =>
                  rw [matchSegments, beq_eq_false_iff_ne.mpr hc]
                  rfl
            rw [hfail, Bool.and_false]
            symm
            rw [Bool.and_eq_false_iff]
            right
            -- The segment that holds the character is none.
            rw [List.all_eq_false]
            have hmore : exists more, more ∈ splitOn '/' xs ∧ c ∈ more := by
              have hparts := splitOn_eq '/' xs
              have hjoin : List.intercalate ['/'] (xs.splitOn '/') = xs :=
                List.intercalate_splitOn '/'
              rw [← hparts] at hjoin
              by_contra hnone
              push Not at hnone
              have hmem : c ∈ List.intercalate ['/'] (splitOn '/' xs) := by
                rw [hjoin, hsplit]
                exact List.mem_append_right _ List.mem_cons_self
              exact not_mem_intercalate hc hnone hmem
            rcases hmore with ⟨more, hmem, hin⟩
            exists more
            constructor
            · exact hmem
            · intro hsegment
              unfold isSegment at hsegment
              rw [Bool.and_eq_true, List.all_eq_true] at hsegment
              rw [hsegment.2 c hin] at hbad
              cases hbad

theorem lengths_of_ascii (h : forall c, c ∈ path.toList -> Lowercase.IsAscii c) :
    (utf16 path).length = byteLen path := by
  have hbytes := byteLen_ofList path.toList
  rw [String.ofList_toList] at hbytes
  unfold utf16
  rw [hbytes]
  generalize path.toList = cs at h
  induction cs with
  | nil => rfl
  | cons c cs ih =>
      have hc : c.toNat < 128 := h c List.mem_cons_self
      have hunits : codeUnits c = [c.toNat] := if_pos (by omega)
      have hsize : c.utf8Size = 1 := by
        unfold Char.utf8Size
        apply if_pos
        show c.val.toNat ≤ 127
        have hval : c.val.toNat = c.toNat := rfl
        omega
      rw [List.flatMap_cons, List.length_append, ih fun d hd => h d (List.mem_cons_of_mem _ hd),
        hunits, List.foldr_cons, hsize]
      rfl

theorem segments_of_script (rest : List Char) :
    ((splitOn '/' ("scripts".toList ++ '/' :: rest)).all fun s => s != ['.'] && s != ['.', '.']) =
      ((splitOn '/' rest).all fun s => s != ['.'] && s != ['.', '.']) := by
  have hplain : '/' ∉ "scripts".toList := by decide
  have hname : ("scripts".toList != ['.'] && "scripts".toList != ['.', '.']) = true := by decide
  rw [splitOn_append hplain, List.all_cons, hname, Bool.true_and]

theorem all_segments (parts : List (List Char)) :
    (parts.all isSegment && parts.all fun s => s != ['.'] && s != ['.', '.']) =
      parts.all fun s => !s.isEmpty && s != ['.'] && s != ['.', '.'] && s.all Hosts.isTokenChar := by
  induction parts with
  | nil => rfl
  | cons s rest ih =>
      have hchars : s.all isPathChar = s.all Hosts.isTokenChar := by
        congr 1
        funext c
        exact isPathChar_eq c
      rw [List.all_cons, List.all_cons, List.all_cons, ← ih]
      unfold isSegment
      rw [hchars]
      cases s.isEmpty with
      | true => simp
      | false =>
          cases s.all Hosts.isTokenChar with
          | true => simp [Bool.and_assoc, Bool.and_left_comm]
          | false => simp

theorem ascii_of_segments {rest : List Char} (h : (splitOn '/' rest).all isSegment = true) :
    forall c, c ∈ "scripts".toList ++ '/' :: rest -> Lowercase.IsAscii c := by
  intro c hc
  by_cases hslash : c = '/'
  · rw [hslash]
    decide
  · cases List.mem_append.mp hc with
    | inl hname =>
        have hall : "scripts".toList.all (fun c => decide (Lowercase.IsAscii c)) = true := by
          decide
        exact of_decide_eq_true (List.all_eq_true.mp hall c hname)
    | inr htail =>
        have hin : c ∈ rest := by
          cases List.mem_cons.mp htail with
          | inl heq => exact absurd heq hslash
          | inr hin => exact hin
        have hparts := splitOn_eq '/' rest
        have hjoin : List.intercalate ['/'] (rest.splitOn '/') = rest :=
          List.intercalate_splitOn '/'
        rw [← hparts] at hjoin
        by_contra hascii
        have hnone : forall s, s ∈ splitOn '/' rest -> c ∉ s := by
          intro s hs hmem
          have hsegment := List.all_eq_true.mp h s hs
          unfold isSegment at hsegment
          rw [Bool.and_eq_true, List.all_eq_true] at hsegment
          exact hascii (ascii_of_pathChar (hsegment.2 c hmem))
        have hout : c ∉ List.intercalate ['/'] (splitOn '/' rest) :=
          not_mem_intercalate hslash hnone
        rw [hjoin] at hout
        exact hout hin

theorem validScriptPath_eq (path : String) :
    validScriptPath path = Bundles.validScriptPath path := by
  unfold validScriptPath scriptPathRe Bundles.validScriptPath
  have hlength : "scripts/".length = 8 := rfl
  rw [hlength]
  cases hstart : "scripts/".toList.isPrefixOf path.toList with
  | false =>
      have hfail : ("scripts".toList.isPrefixOf path.toList && !(path.toList.drop 7).isEmpty &&
          matchSegments 8 (path.toList.drop 7)) = false := by
        cases hname : "scripts".toList.isPrefixOf path.toList with
        | false => rfl
        | true =>
            rcases List.isPrefixOf_iff_prefix.mp hname with ⟨more, hmore⟩
            have hdrop : path.toList.drop 7 = more := by
              rw [← hmore]
              rfl
            rw [hdrop]
            cases more with
            | nil => rfl
            | cons c rest =>
                have hc : (c == '/') = false := by
                  rw [beq_eq_false_iff_ne]
                  rintro rfl
                  have hyes : "scripts/".toList.isPrefixOf path.toList = true :=
                    List.isPrefixOf_iff_prefix.mpr ⟨rest, hmore⟩
                  rw [hyes] at hstart
                  cases hstart
                rw [matchSegments, hc]
                rfl
      rw [hfail, Bool.and_false, Bool.false_and]
      rfl
  | true =>
      rcases List.isPrefixOf_iff_prefix.mp hstart with ⟨rest, hrest⟩
      have hpath : path.toList = "scripts".toList ++ '/' :: rest := hrest.symm
      have hname : "scripts".toList.isPrefixOf path.toList = true :=
        List.isPrefixOf_iff_prefix.mpr ⟨'/' :: rest, hpath.symm⟩
      have hseven : path.toList.drop 7 = '/' :: rest := by
        rw [hpath]
        rfl
      have height : path.toList.drop 8 = rest := by
        rw [hpath]
        rfl
      rw [hname, hseven, height, matchSegments_eq]
      conv_lhs => rw [hpath, segments_of_script]
      simp only [Bool.not_true, Bool.false_eq_true, if_false, ← splitOn_eq]
      rw [← all_segments]
      cases hall : (splitOn '/' rest).all isSegment with
      | false => simp
      | true =>
          have hascii : forall c, c ∈ path.toList -> Lowercase.IsAscii c := by
            rw [hpath]
            exact ascii_of_segments hall
          rw [lengths_of_ascii hascii]
          simp [Bool.and_assoc]

/-!
# Clashes
-/

/-- `other` cannot sit beside `path`, where `fold` ignores case. -/
def clashes (fold : Char -> Char) (path other : String) : Bool :=
  let lower := path.toList.map fold
  let o := other.toList.map fold
  other != path && (o == lower || (lower ++ ['/']).isPrefixOf o || (o ++ ['/']).isPrefixOf lower)

theorem pathClash_eq (path : String) (paths : List String) :
    Bundles.pathClash path paths = paths.find? (clashes Lowercase.asciiLower path) := by
  have hlower : forall s : String, (toAsciiLowercase s).toList =
      s.toList.map Lowercase.asciiLower := by
    intro s
    unfold toAsciiLowercase
    rw [String.toList_map]
    rfl
  have hsame : forall s : String, (toAsciiLowercase s == toAsciiLowercase path) =
      (s.toList.map Lowercase.asciiLower == path.toList.map Lowercase.asciiLower) := by
    intro s
    rw [Bool.eq_iff_iff, beq_iff_eq, beq_iff_eq, ← hlower, ← hlower, String.toList_inj]
  unfold Bundles.pathClash
  apply congrArg (fun p => paths.find? p)
  funext other
  simp only [Bundles.isBelow, clashes, hlower, hsame]

theorem map_folded_ascii (h : forall c, c ∈ path.toList -> Lowercase.IsAscii c) :
    path.toList.map Lowercase.folded = path.toList.map Lowercase.asciiLower :=
  List.map_congr_left fun c hc => Lowercase.folded_ascii (h c hc)

theorem ascii_map_folded (h : forall c, c ∈ path.toList -> Lowercase.IsAscii c) :
    forall c, c ∈ path.toList.map Lowercase.folded -> Lowercase.IsAscii c := by
  intro c hc
  rcases List.mem_map.mp hc with ⟨d, hd, rfl⟩
  rw [Lowercase.folded_ascii (h d hd)]
  exact Lowercase.ascii_asciiLower (h d hd)

theorem scriptPathClash_eq (h : forall c, c ∈ path.toList -> Lowercase.IsAscii c)
    (words : Lowercase.Words) (paths : List String) :
    scriptPathClash words path paths = paths.find? (clashes Lowercase.folded path) := by
  have hascii := ascii_map_folded h
  have hlower : Lowercase.lower words path.toList = path.toList.map Lowercase.folded :=
    (Lowercase.lower_eq_ascii _ _ _ hascii).mpr rfl
  have hslash : forall c, c ∈ path.toList.map Lowercase.folded ++ ['/'] ->
      Lowercase.IsAscii c := by
    intro c hc
    cases List.mem_append.mp hc with
    | inl hin => exact hascii c hin
    | inr hin =>
        rw [List.mem_singleton.mp hin]
        decide
  have hlast : (path.toList.map Lowercase.folded ++ ['/']).getLast? ≠ some 'i' := by
    rw [List.getLast?_concat]
    decide
  unfold scriptPathClash
  apply congrArg (fun p => paths.find? p)
  funext other
  have hsame : (Lowercase.lower words other.toList == path.toList.map Lowercase.folded) =
      (other.toList.map Lowercase.folded == path.toList.map Lowercase.folded) := by
    rw [Bool.eq_iff_iff, beq_iff_eq, beq_iff_eq]
    exact Lowercase.lower_eq_ascii _ _ _ hascii
  have hbelow : (path.toList.map Lowercase.folded ++ ['/']).isPrefixOf
        (Lowercase.lower words other.toList) =
      (path.toList.map Lowercase.folded ++ ['/']).isPrefixOf
        (other.toList.map Lowercase.folded) := by
    rw [Bool.eq_iff_iff, List.isPrefixOf_iff_prefix, List.isPrefixOf_iff_prefix]
    exact Lowercase.prefix_lower _ _ _ hslash hlast
  have habove : (Lowercase.lower words other.toList ++ ['/']).isPrefixOf
        (path.toList.map Lowercase.folded) =
      (other.toList.map Lowercase.folded ++ ['/']).isPrefixOf
        (path.toList.map Lowercase.folded) := by
    rw [Bool.eq_iff_iff, List.isPrefixOf_iff_prefix, List.isPrefixOf_iff_prefix]
    exact Lowercase.lower_prefix _ _ _ _ hascii
  simp only [hlower, hsame, hbelow, habove]
  rfl

theorem folded_prefix (hpath : forall c, c ∈ xs -> Lowercase.IsAscii c) :
    forall ys : List Char, xs <+: ys.map Lowercase.asciiLower ->
      xs <+: ys.map Lowercase.folded := by
  induction xs with
  | nil =>
      intro ys _
      exact List.nil_prefix
  | cons x xs ih =>
      intro ys h
      cases ys with
      | nil => cases List.prefix_nil.mp h
      | cons y ys =>
          rw [List.map_cons, List.cons_prefix_cons] at h
          have hy : Lowercase.IsAscii (Lowercase.asciiLower y) := by
            rw [← h.1]
            exact hpath x List.mem_cons_self
          rw [List.map_cons, List.cons_prefix_cons, Lowercase.folded_of_asciiLower hy]
          exact ⟨h.1, ih (fun c hc => hpath c (List.mem_cons_of_mem _ hc)) ys h.2⟩

theorem map_folded_of_subset {ys : List Char}
    (h : forall c, c ∈ ys.map Lowercase.asciiLower -> Lowercase.IsAscii c) :
    ys.map Lowercase.folded = ys.map Lowercase.asciiLower :=
  List.map_congr_left fun c hc =>
    Lowercase.folded_of_asciiLower (h _ (List.mem_map.mpr ⟨c, hc, rfl⟩))

theorem clashes_folded (h : forall c, c ∈ path.toList -> Lowercase.IsAscii c)
    (hclash : clashes Lowercase.asciiLower path other = true) :
    clashes Lowercase.folded path other = true := by
  have hascii := ascii_map_folded h
  have hmap := map_folded_ascii h
  unfold clashes at hclash ⊢
  simp only [Bool.and_eq_true, Bool.or_eq_true, List.isPrefixOf_iff_prefix, beq_iff_eq] at hclash ⊢
  rw [hmap] at hascii ⊢
  constructor
  · exact hclash.1
  · rcases hclash.2 with (hsame | hbelow) | habove
    · left
      left
      rw [map_folded_of_subset (by rw [hsame]; exact hascii), hsame]
    · left
      right
      apply folded_prefix _ _ hbelow
      intro c hc
      cases List.mem_append.mp hc with
      | inl hin => exact hascii c hin
      | inr hin =>
          rw [List.mem_singleton.mp hin]
          decide
    · right
      rw [map_folded_of_subset]
      · exact habove
      · intro c hc
        exact hascii c (habove.subset (List.mem_append_left _ hc))

/-- Searching for more finds the same when nothing more comes first. -/
theorem find_eq_iff {alpha : Type} {p q : alpha -> Bool} (h : forall x, q x = true -> p x = true)
    (xs : List alpha) :
    xs.find? p = xs.find? q <-> forall x, x ∈ xs.takeWhile (fun x => !q x) -> p x = false := by
  induction xs with
  | nil => simp
  | cons x xs ih =>
      rw [List.find?_cons, List.find?_cons, List.takeWhile_cons]
      cases hq : q x with
      | true => simp [h x hq]
      | false =>
          cases hp : p x with
          | false => simp [hp, ih]
          | true =>
              constructor
              · intro hfound
                have hx := List.find?_some hfound.symm
                rw [hx] at hq
                cases hq
              · intro hall
                have hx := hall x List.mem_cons_self
                rw [hp] at hx
                cases hx

def clashesByKelvin (path other : String) : Bool :=
  clashes Lowercase.folded path other && !clashes Lowercase.asciiLower path other

theorem ascii_of_validScriptPath (h : Bundles.validScriptPath path = true) :
    forall c, c ∈ path.toList -> Lowercase.IsAscii c := by
  unfold Bundles.validScriptPath at h
  split at h
  · cases h
  · rename_i hstart
    simp only [Bool.not_eq_true', Bool.not_eq_false] at hstart
    rcases List.isPrefixOf_iff_prefix.mp hstart with ⟨rest, hrest⟩
    have hpath : path.toList = "scripts".toList ++ '/' :: rest := hrest.symm
    have height : path.toList.drop "scripts/".length = rest := by
      rw [hpath]
      rfl
    simp only [height, Bool.and_eq_true] at h
    have hsegments := h.2
    rw [← splitOn_eq, ← all_segments, Bool.and_eq_true] at hsegments
    rw [hpath]
    exact ascii_of_segments hsegments.1

/-- Browser and server agree on a path and its neighbours, but for a Kelvin sign that
comes before the first clash the server sees. -/
theorem script_checks_agree_iff (words : Lowercase.Words) (path : String) (paths : List String) :
    ((validScriptPath path = true <-> Bundles.validScriptPath path = true) ∧
        (validScriptPath path = true -> Bundles.validScriptPath path = true ->
          scriptPathClash words path paths = Bundles.pathClash path paths)) <->
      (validScriptPath path = true ->
        forall other, other ∈ paths.takeWhile
            (fun other => !clashes Lowercase.asciiLower path other) ->
          clashesByKelvin path other = false) := by
  rw [validScriptPath_eq]
  have hkelvin : forall other, other ∈ paths.takeWhile
      (fun other => !clashes Lowercase.asciiLower path other) ->
        clashesByKelvin path other = clashes Lowercase.folded path other := by
    intro other hother
    have hnot := List.mem_takeWhile_imp hother
    unfold clashesByKelvin
    rw [hnot, Bool.and_true]
  constructor
  · intro h hvalid other hother
    have hascii := ascii_of_validScriptPath hvalid
    have hsame := h.2 hvalid hvalid
    rw [scriptPathClash_eq hascii, pathClash_eq] at hsame
    rw [hkelvin other hother]
    exact (find_eq_iff (fun _ hx => clashes_folded hascii hx) paths).mp hsame other hother
  · intro h
    constructor
    · rfl
    · intro hvalid _
      have hascii := ascii_of_validScriptPath hvalid
      rw [scriptPathClash_eq hascii, pathClash_eq]
      apply (find_eq_iff (fun _ hx => clashes_folded hascii hx) paths).mpr
      intro other hother
      rw [← hkelvin other hother]
      exact h hvalid other hother

/-- A neighbour spelled with a Kelvin sign. -/
theorem kelvin_neighbour_clashes_in_browser_only :
    validScriptPath "scripts/k.sh" = true ∧ Bundles.validScriptPath "scripts/k.sh" = true ∧
      scriptPathClash { cased := isPathChar, ignorable := fun _ => false } "scripts/k.sh"
        ["scripts/\u212A.sh"] = some "scripts/\u212A.sh" ∧
      Bundles.pathClash "scripts/k.sh" ["scripts/\u212A.sh"] = none := by
  decide +kernel

end Web
end FleetServer
