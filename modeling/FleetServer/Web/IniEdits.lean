import FleetServer.Data.Bindings
import FleetServer.Web.IniText

/-!
# Edits of an INI text

`config/ini.ts`: reading, setting, renaming and removing one key of the text itself,
which keeps the comments, the order and every other line.
-/

namespace FleetServer
namespace Web

open FleetServer.Core

def joinLines (lines : List (List Char)) : List Char :=
  List.intercalate ['\n'] lines

/-- The section a path names: "/a/b", and "/" at the top. -/
def canonicalSection (path : List Char) : List Char :=
  '/' :: List.intercalate ['/']
    ((splitOn '/' path).filter fun s => !(trimChars s).isEmpty)

/-- A line of the text, and the section it is in. -/
structure Scanned where
  section_ : List Char
  raw : List Char

def isHeaderLine (line : List Char) : Bool :=
  line.head? == some '[' && line.getLast? == some ']'

def nextSection (current raw : List Char) : List Char :=
  let line := trimChars raw
  if isHeaderLine line then canonicalSection (line.drop 1).dropLast else current

def scanFrom (current : List Char) : List (List Char) -> List Scanned
  | [] => []
  | raw :: rest =>
      { section_ := nextSection current raw, raw := raw } ::
        scanFrom (nextSection current raw) rest

def scanLines (text : List Char) : List Scanned :=
  scanFrom ['/'] (splitLines text)

/-- A line that is blank, a comment or the start of a header. -/
def isSkipped (line : List Char) : Bool :=
  line.isEmpty || line.head? == some ';' || line.head? == some '#' || line.head? == some '['

def isKeyLine (raw key : List Char) : Bool :=
  let line := trimChars raw
  if isSkipped line then false
  else
    let before := line.takeWhile fun c => c != '='
    let after := line.dropWhile fun c => c != '='
    !before.isEmpty && !after.isEmpty && trimChars before == key

/-- What a key line has behind its `=`. -/
def valueOfLine (raw : List Char) : List Char :=
  trimChars (((trimChars raw).dropWhile fun c => c != '=').drop 1)

/-- Whether a line sets `key` in the section `target`. -/
def isLineOf (target key : List Char) (l : Scanned) : Bool :=
  l.section_ == target && isKeyLine l.raw key

def getIniValue (text section_ key : String) : Option String :=
  let target := canonicalSection section_.toList
  ((scanLines text.toList).find? (isLineOf target key.toList)).map fun l =>
    String.ofList (valueOfLine l.raw)

/-- `${key} = ${value}` -/
def entryLine (key value : List Char) : List Char :=
  key ++ [' ', '=', ' '] ++ value

def isContent (target : List Char) (l : Scanned) : Bool :=
  l.section_ == target && !(trimChars l.raw).isEmpty

/-- `key = value` in a new section behind the text. -/
def appendSection (text target entry : List Char) : List Char :=
  let doc := text.rdropWhile fun c => c == '\n'
  let header := if target == ['/'] then ['[', '/', ']'] else '[' :: target ++ [']']
  doc ++ (if doc.isEmpty then [] else ['\n', '\n']) ++ header ++ '\n' :: entry ++ ['\n']

/-- The text with `entry` in the place of the first line that sets the key, or else
behind the last line of the section that is not blank, or else in a new section. -/
def setLine (target key entry text : List Char) : List Char :=
  let scanned := scanLines text
  let before := scanned.takeWhile fun l => !isLineOf target key l
  match scanned.dropWhile fun l => !isLineOf target key l with
  | _ :: after => joinLines (before.map Scanned.raw ++ entry :: after.map Scanned.raw)
  | [] =>
      let upTo := scanned.rdropWhile fun l => !isContent target l
      let rest := scanned.rtakeWhile fun l => !isContent target l
      if upTo.isEmpty then appendSection text target entry
      else joinLines (upTo.map Scanned.raw ++ entry :: rest.map Scanned.raw)

def setIniValue (text section_ key value : String) : String :=
  String.ofList
    (setLine (canonicalSection section_.toList) key.toList
      (entryLine key.toList value.toList) text.toList)

def renameLine (target oldKey newKey text : List Char) : List Char :=
  let scanned := scanLines text
  let before := scanned.takeWhile fun l => !isLineOf target oldKey l
  match scanned.dropWhile fun l => !isLineOf target oldKey l with
  | found :: after =>
      joinLines (before.map Scanned.raw ++
        entryLine newKey (valueOfLine found.raw) :: after.map Scanned.raw)
  | [] => joinLines (scanned.map Scanned.raw)

def renameIniKey (text section_ oldKey newKey : String) : String :=
  String.ofList
    (renameLine (canonicalSection section_.toList) oldKey.toList newKey.toList text.toList)

def removeIniKey (text section_ key : String) : String :=
  let target := canonicalSection section_.toList
  let kept := (scanLines text.toList).filter fun l => !isLineOf target key.toList l
  String.ofList (joinLines (kept.map Scanned.raw))

/-!
# Key lines
-/

variable {xs ys raw key value : List Char}

def keySetting (raw : List Char) : Option (List Char × List Char) :=
  let line := trimChars raw
  if isSkipped line then none
  else
    let before := line.takeWhile fun c => c != '='
    let after := line.dropWhile fun c => c != '='
    if before.isEmpty || after.isEmpty then none
    else some (trimChars before, trimChars (after.drop 1))

/-- A key line sets its key to what stands behind the `=`. -/
theorem isKeyLine_iff :
    isKeyLine raw key = true <-> keySetting raw = some (key, valueOfLine raw) := by
  unfold isKeyLine keySetting valueOfLine
  simp only
  split
  · simp
  · split
    · rename_i hsides
      simp only [Bool.or_eq_true] at hsides
      cases hsides with
      | inl h => simp [h]
      | inr h => simp [h]
    · rename_i hsides
      simp only [Bool.or_eq_true, not_or, Bool.not_eq_true] at hsides
      simp [hsides.1, hsides.2]

theorem value_of_setting (h : keySetting raw = some (key, value)) : valueOfLine raw = value := by
  unfold keySetting at h
  simp only at h
  split at h
  · cases h
  · split at h
    · cases h
    · cases h
      rfl

theorem isKeyLine_of_setting (h : keySetting raw = some (key, value)) :
    isKeyLine raw key = true := by
  apply isKeyLine_iff.mpr
  rw [value_of_setting h]
  exact h

theorem setting_spelled (hne : key ≠ []) (hkey : Trimmed key) (hequals : '=' ∉ key)
    (hmark : forall c, key.head? = some c -> c ≠ '[' ∧ c ≠ ';' ∧ c ≠ '#')
    (hxs : forall c, c ∈ xs -> isSpace c = true) (hys : forall c, c ∈ ys -> isSpace c = true) :
    keySetting (key ++ xs ++ '=' :: (ys ++ value)) = some (key, trimChars value) := by
  rcases List.exists_cons_of_ne_nil hne with ⟨first, more, rfl⟩
  have hspace : isSpace '=' = false := by decide
  have hblank : '=' ∉ xs := by
    intro hmem
    rw [hxs _ hmem] at hspace
    cases hspace
  have hend : trimEnd ('=' :: (ys ++ value)) = '=' :: trimEnd (ys ++ value) := by
    by_cases hnil : trimEnd (ys ++ value) = []
    · have hall := trimEnd_eq_nil.mp hnil
      rw [hnil, ← List.singleton_append, trimEnd_append_blank hall]
      rfl
    · exact trimEnd_append hnil ['=']
  have hline : trimChars ((first :: more) ++ xs ++ '=' :: (ys ++ value)) =
      (first :: more) ++ xs ++ '=' :: trimEnd (ys ++ value) := by
    rw [trimChars_of_head, trimEnd_append, hend]
    · rw [hend]
      exact List.cons_ne_nil _ _
    · intro c hc
      cases hc
      exact (trimmed_iff.mp hkey).1 first rfl
  have hplain : forall c, c ∈ (first :: more) ++ xs -> (c != '=') = true := by
    intro c hc
    apply bne_iff_ne.mpr
    rintro rfl
    cases List.mem_append.mp hc with
    | inl hin => exact hequals hin
    | inr hin => exact hblank hin
  have hbefore : ((first :: more) ++ xs ++ '=' :: trimEnd (ys ++ value)).takeWhile
      (fun c => c != '=') = (first :: more) ++ xs := by
    rw [List.takeWhile_append_of_pos hplain, List.takeWhile_cons, bne_self_eq_false]
    exact List.append_nil _
  have hafter : ((first :: more) ++ xs ++ '=' :: trimEnd (ys ++ value)).dropWhile
      (fun c => c != '=') = '=' :: trimEnd (ys ++ value) := by
    rw [List.dropWhile_append_of_pos hplain, List.dropWhile_cons, bne_self_eq_false]
    rfl
  have hskip : isSkipped ((first :: more) ++ xs ++ '=' :: trimEnd (ys ++ value)) = false := by
    have hfirst := hmark first rfl
    simp [isSkipped, hfirst.1, hfirst.2.1, hfirst.2.2]
  unfold keySetting
  simp only [hline, hbefore, hafter, hskip]
  rw [List.drop_succ_cons, List.drop_zero, trimChars_append_blank hxs, trimChars_trimEnd,
    trimChars_blank_append hys, trimChars_of_trimmed hkey]
  rfl

theorem setting_entryLine {k : String} (hkey : KeyText k) (value : List Char) :
    keySetting (entryLine k.toList value) = some (k.toList, trimChars value) := by
  have hne : k.toList ≠ [] := fun hnil => hkey.not_empty (String.toList_eq_nil_iff.mp hnil)
  have hspace : forall c, c ∈ [' '] -> isSpace c = true := by
    intro c hc
    rw [List.mem_singleton.mp hc]
    decide
  have hline : entryLine k.toList value = k.toList ++ [' '] ++ '=' :: ([' '] ++ value) := by
    simp [entryLine]
  rw [hline]
  exact setting_spelled hne hkey.trimmed hkey.no_equals hkey.no_mark hspace hspace

theorem one_line_entryLine {k : String} (hkey : KeyText k) (hvalue : '\n' ∉ value) :
    '\n' ∉ entryLine k.toList value := by
  have hk := hkey.one_line
  simp [entryLine, hk, hvalue]

end Web
end FleetServer
