import FleetServer.Web.Ini
import Mathlib.Data.List.DropRight
import Mathlib.Data.List.Infix
import Mathlib.Data.List.TakeWhile

/-!
# The lines of an INI text

What trimming and splitting leave of a text, and the text level of the reader: a
line is blank, a section header, an entry, or an error, whatever was read before.
-/

namespace FleetServer
namespace Web

open FleetServer.Core
open Core.Json

variable {c sep : Char} {xs ys line raw : List Char}

/-!
# Trimming
-/

def Trimmed (xs : List Char) : Prop :=
  trimChars xs = xs

instance (xs : List Char) : Decidable (Trimmed xs) :=
  inferInstanceAs (Decidable (trimChars xs = xs))

theorem infix_trimChars (xs : List Char) : trimChars xs <:+: xs := by
  have htail := (List.dropWhile_suffix isSpace (l := (xs.dropWhile isSpace).reverse))
  have hfront : trimChars xs <+: xs.dropWhile isSpace := by
    rw [← List.reverse_suffix]
    unfold trimChars
    rw [List.reverse_reverse]
    exact htail
  exact hfront.isInfix.trans (List.dropWhile_suffix isSpace).isInfix

theorem mem_of_mem_trimChars (h : c ∈ trimChars xs) : c ∈ xs :=
  (infix_trimChars xs).subset h

theorem not_space_of_head_dropWhile (h : (xs.dropWhile isSpace).head? = some c) :
    isSpace c = false := by
  induction xs with
  | nil => cases h
  | cons x xs ih =>
      rw [List.dropWhile_cons] at h
      split at h
      · exact ih h
      · rename_i hx
        cases h
        exact Bool.eq_false_iff.mpr hx

theorem dropWhile_of_head (h : forall c, xs.head? = some c -> isSpace c = false) :
    xs.dropWhile isSpace = xs := by
  cases xs with
  | nil => rfl
  | cons x xs =>
      rw [List.dropWhile_cons, h x rfl]
      rfl

/-- A trimmed text neither begins nor ends with a blank. -/
theorem trimmed_iff :
    Trimmed xs <-> (forall c, xs.head? = some c -> isSpace c = false) ∧
      forall c, xs.getLast? = some c -> isSpace c = false := by
  constructor
  · intro h
    have hdropped : xs.dropWhile isSpace = xs := by
      have hlength := (infix_trimChars xs).length_le
      have hsuffix := List.dropWhile_suffix isSpace (l := xs)
      have hfront : (trimChars xs).length ≤ (xs.dropWhile isSpace).length := by
        unfold trimChars
        rw [List.length_reverse]
        apply (List.dropWhile_suffix isSpace).length_le.trans
        rw [List.length_reverse]
      rw [h] at hfront
      exact hsuffix.eq_of_length_le hfront
    constructor
    · intro c hc
      rw [← hdropped] at hc
      exact not_space_of_head_dropWhile hc
    · intro c hc
      have hreverse : xs.reverse.dropWhile isSpace = xs.reverse := by
        have htrimmed : trimChars xs = xs := h
        unfold trimChars at htrimmed
        rw [hdropped] at htrimmed
        rw [← List.reverse_inj, List.reverse_reverse]
        exact htrimmed
      have hlast : (xs.reverse.dropWhile isSpace).head? = some c := by
        rw [hreverse, List.head?_reverse]
        exact hc
      exact not_space_of_head_dropWhile hlast
  · intro h
    show trimChars xs = xs
    unfold trimChars
    rw [dropWhile_of_head h.1, dropWhile_of_head, List.reverse_reverse]
    intro c hc
    rw [List.head?_reverse] at hc
    exact h.2 c hc

theorem head_trimChars (h : (trimChars xs).head? = some c) : isSpace c = false := by
  have hfront : trimChars xs <+: xs.dropWhile isSpace := by
    rw [← List.reverse_suffix]
    unfold trimChars
    rw [List.reverse_reverse]
    exact List.dropWhile_suffix isSpace
  rcases hfront with ⟨more, hmore⟩
  have hhead : (xs.dropWhile isSpace).head? = some c := by
    rw [← hmore, List.head?_append, h]
    rfl
  exact not_space_of_head_dropWhile hhead

theorem getLast_trimChars (h : (trimChars xs).getLast? = some c) : isSpace c = false := by
  unfold trimChars at h
  rw [List.getLast?_reverse] at h
  exact not_space_of_head_dropWhile h

theorem trimmed_trimChars (xs : List Char) : Trimmed (trimChars xs) :=
  trimmed_iff.mpr ⟨fun _ => head_trimChars, fun _ => getLast_trimChars⟩

theorem trimChars_prefix (h : forall c, xs.head? = some c -> isSpace c = false) :
    trimChars xs <+: xs := by
  unfold trimChars
  rw [dropWhile_of_head h, ← List.reverse_suffix, List.reverse_reverse]
  exact List.dropWhile_suffix isSpace

theorem head_of_trimChars (hxs : forall c, xs.head? = some c -> isSpace c = false)
    (h : (trimChars xs).head? = some c) : xs.head? = some c := by
  rcases trimChars_prefix hxs with ⟨more, hmore⟩
  rw [← hmore, List.head?_append, h]
  rfl

/-- Two texts end to end, when neither outer end is a blank. -/
theorem trimmed_append (hxs : xs ≠ []) (hys : ys ≠ [])
    (hhead : forall c, xs.head? = some c -> isSpace c = false)
    (hlast : forall c, ys.getLast? = some c -> isSpace c = false) : Trimmed (xs ++ ys) := by
  apply trimmed_iff.mpr
  constructor
  · intro c hc
    apply hhead
    rw [List.head?_append_of_ne_nil _ hxs] at hc
    exact hc
  · intro c hc
    apply hlast
    rw [List.getLast?_append_of_ne_nil _ hys] at hc
    exact hc

/-- The text without the blanks at its end. -/
def trimEnd (xs : List Char) : List Char :=
  xs.rdropWhile isSpace

theorem trimEnd_append (hys : trimEnd ys ≠ []) (xs : List Char) :
    trimEnd (xs ++ ys) = xs ++ trimEnd ys := by
  unfold trimEnd List.rdropWhile at hys ⊢
  have hne : (ys.reverse.dropWhile isSpace).isEmpty = false := by
    rw [List.isEmpty_eq_false_iff]
    intro hnil
    rw [hnil] at hys
    exact hys rfl
  rw [List.reverse_append, List.dropWhile_append, hne]
  simp only [Bool.false_eq_true, if_false, List.reverse_append, List.reverse_reverse]

theorem trimChars_of_head (h : forall c, xs.head? = some c -> isSpace c = false) :
    trimChars xs = trimEnd xs := by
  unfold trimChars trimEnd List.rdropWhile
  rw [dropWhile_of_head h]

theorem trimEnd_eq_nil : trimEnd xs = [] <-> forall c, c ∈ xs -> isSpace c = true :=
  List.rdropWhile_eq_nil_iff

theorem trimChars_eq_nil : trimChars xs = [] <-> forall c, c ∈ xs -> isSpace c = true := by
  constructor
  · intro h
    have hfront : forall c, c ∈ xs.dropWhile isSpace -> isSpace c = true :=
      trimEnd_eq_nil.mp h
    cases hdropped : xs.dropWhile isSpace with
    | nil => exact List.dropWhile_eq_nil_iff.mp hdropped
    | cons c rest =>
        rw [hdropped] at hfront
        have hhead : (xs.dropWhile isSpace).head? = some c := by
          rw [hdropped]
          rfl
        have hspace := not_space_of_head_dropWhile hhead
        rw [hfront c List.mem_cons_self] at hspace
        cases hspace
  · intro h
    unfold trimChars
    rw [List.dropWhile_eq_nil_iff.mpr h]
    rfl

theorem trimEnd_front (xs : List Char) : trimEnd xs <+: xs :=
  List.rdropWhile_prefix isSpace xs

theorem getLast_trimEnd (h : (trimEnd xs).getLast? = some c) : isSpace c = false := by
  unfold trimEnd List.rdropWhile at h
  rw [List.getLast?_reverse] at h
  exact not_space_of_head_dropWhile h

theorem trimChars_of_trimmed (h : Trimmed xs) : trimChars xs = xs :=
  h

theorem trimEnd_append_blank (h : forall c, c ∈ ys -> isSpace c = true) (xs : List Char) :
    trimEnd (xs ++ ys) = trimEnd xs := by
  unfold trimEnd List.rdropWhile
  rw [List.reverse_append, List.dropWhile_append_of_pos]
  intro c hc
  exact h c (List.mem_reverse.mp hc)

theorem trimChars_blank_append (h : forall c, c ∈ xs -> isSpace c = true) (ys : List Char) :
    trimChars (xs ++ ys) = trimChars ys := by
  unfold trimChars
  rw [List.dropWhile_append_of_pos h]

theorem trimChars_trimEnd (xs : List Char) : trimChars (trimEnd xs) = trimChars xs := by
  have hsplit : xs = xs.takeWhile isSpace ++ xs.dropWhile isSpace :=
    (List.takeWhile_append_dropWhile).symm
  have hblank : forall c, c ∈ xs.takeWhile isSpace -> isSpace c = true :=
    fun c hc => List.mem_takeWhile_imp hc
  by_cases hnil : trimEnd (xs.dropWhile isSpace) = []
  · have hall : forall c, c ∈ xs -> isSpace c = true := trimChars_eq_nil.mp hnil
    rw [trimEnd_eq_nil.mpr hall, trimChars_eq_nil.mpr hall]
    rfl
  · have hend : trimEnd xs = xs.takeWhile isSpace ++ trimEnd (xs.dropWhile isSpace) := by
      conv_lhs => rw [hsplit]
      exact trimEnd_append hnil _
    have hhead : forall c, (trimEnd (xs.dropWhile isSpace)).head? = some c ->
        isSpace c = false := fun c hc => head_trimChars hc
    rw [hend, trimChars_blank_append hblank, trimChars_of_head hhead]
    exact List.rdropWhile_idempotent isSpace _

theorem trimChars_append_blank (h : forall c, c ∈ ys -> isSpace c = true) (xs : List Char) :
    trimChars (xs ++ ys) = trimChars xs := by
  rw [← trimChars_trimEnd, trimEnd_append_blank h, trimChars_trimEnd]

/-!
# Splitting
-/

theorem splitOn_eq (sep : Char) (xs : List Char) : splitOn sep xs = xs.splitOn sep := by
  induction xs with
  | nil => rfl
  | cons x xs ih =>
      rw [splitOn, List.splitOn_cons_eq_if_modifyHead, ih]
      by_cases hx : x = sep
      · rw [if_pos hx, if_pos (beq_iff_eq.mpr hx)]
      · rw [if_neg hx, if_neg fun h => hx (beq_iff_eq.mp h)]
        cases hrest : xs.splitOn sep with
        | nil => exact absurd hrest (List.splitOn_ne_nil sep xs)
        | cons part parts => rfl

theorem splitOn_ne_nil (sep : Char) (xs : List Char) : splitOn sep xs ≠ [] := by
  rw [splitOn_eq]
  exact List.splitOn_ne_nil sep xs

theorem splitOn_plain (h : sep ∉ xs) : splitOn sep xs = [xs] := by
  rw [splitOn_eq, List.splitOn_eq_singleton h]

theorem splitOn_append (h : sep ∉ xs) (ys : List Char) :
    splitOn sep (xs ++ sep :: ys) = xs :: splitOn sep ys := by
  rw [splitOn_eq, splitOn_eq, List.splitOn_append_cons_self_of_not_mem h]

theorem not_mem_intercalate {parts : List (List Char)} (hc : c ≠ sep)
    (h : forall s, s ∈ parts -> c ∉ s) : c ∉ List.intercalate [sep] parts := by
  induction parts with
  | nil => exact List.not_mem_nil
  | cons part rest ih =>
      have hpart := h part List.mem_cons_self
      have hrest := ih fun s hs => h s (List.mem_cons_of_mem _ hs)
      cases rest with
      | nil =>
          rw [List.intercalate_singleton]
          exact hpart
      | cons next rest =>
          rw [List.intercalate_cons_cons]
          simp [hpart, hrest, hc]

/-- A part has no separator in it, and nothing else than the text. -/
theorem mem_splitOn {part : List Char} (h : part ∈ splitOn sep xs) :
    sep ∉ part ∧ forall c, c ∈ part -> c ∈ xs := by
  induction xs generalizing part with
  | nil =>
      rw [splitOn, List.mem_singleton] at h
      subst h
      exact ⟨List.not_mem_nil, fun _ hc => hc⟩
  | cons x xs ih =>
      rw [splitOn] at h
      split at h
      · cases List.mem_cons.mp h with
        | inl heq =>
            subst heq
            exact ⟨List.not_mem_nil, fun _ hc => absurd hc List.not_mem_nil⟩
        | inr hmem =>
            have hpart := ih hmem
            exact ⟨hpart.1, fun c hc => List.mem_cons_of_mem _ (hpart.2 c hc)⟩
      · rename_i hx
        split at h
        · rename_i hnil
          exact absurd hnil (splitOn_ne_nil _ _)
        · rename_i first rest hsplit
          cases List.mem_cons.mp h with
          | inl heq =>
              have hfirst := @ih first (by rw [hsplit]; exact List.mem_cons_self)
              subst heq
              constructor
              · intro hmem
                cases List.mem_cons.mp hmem with
                | inl hsep => exact hx hsep.symm
                | inr hin => exact hfirst.1 hin
              · intro c hc
                cases List.mem_cons.mp hc with
                | inl hhead =>
                    rw [hhead]
                    exact List.mem_cons_self
                | inr hin => exact List.mem_cons_of_mem _ (hfirst.2 c hin)
          | inr hmem =>
              have hpart := @ih part (by rw [hsplit]; exact List.mem_cons_of_mem _ hmem)
              exact ⟨hpart.1, fun c hc => List.mem_cons_of_mem _ (hpart.2 c hc)⟩

-- Made here, before the lemmas below that would all make it at once.
alias splitLines_unfold := splitLines.eq_def

theorem splitLines_newline (xs : List Char) : splitLines ('\n' :: xs) = [] :: splitLines xs := by
  rw [splitLines]

theorem splitLines_break (xs : List Char) :
    splitLines ('\r' :: '\n' :: xs) = [] :: splitLines xs := by
  rw [splitLines]

theorem splitLines_ne_nil (xs : List Char) : splitLines xs ≠ [] := by
  rw [splitLines_unfold]
  split
  · exact List.cons_ne_nil _ _
  · exact List.cons_ne_nil _ _
  · exact List.cons_ne_nil _ _
  · split
    · exact List.cons_ne_nil _ _
    · exact List.cons_ne_nil _ _

/-- A character that ends no line. -/
theorem splitLines_cons (hc : c ≠ '\n') (hreturn : c = '\r' -> xs.head? ≠ some '\n') :
    splitLines (c :: xs) =
      (c :: (splitLines xs).headD []) :: (splitLines xs).tail := by
  rw [splitLines]
  · cases hxs : splitLines xs with
    | nil => exact absurd hxs (splitLines_ne_nil xs)
    | cons first rest => rfl
  · intro rest heq hrest
    apply hreturn heq
    rw [hrest]
    rfl
  · exact hc

/-- A line is read back when it holds no line end, and ends in no half of one. -/
theorem splitLines_append (hline : '\n' ∉ line) (hlast : line.getLast? ≠ some '\r')
    (ys : List Char) : splitLines (line ++ '\n' :: ys) = line :: splitLines ys := by
  induction line with
  | nil => exact splitLines_newline ys
  | cons x xs ih =>
      have hx : x ≠ '\n' := fun heq => hline (by rw [heq]; exact List.mem_cons_self)
      have hxs : '\n' ∉ xs := fun hmem => hline (List.mem_cons_of_mem _ hmem)
      rw [List.cons_append, splitLines_cons hx]
      · cases xs with
        | nil =>
            show (x :: (splitLines ('\n' :: ys)).headD []) :: (splitLines ('\n' :: ys)).tail = _
            rw [splitLines_newline]
            rfl
        | cons y xs =>
            rw [ih hxs (by rw [List.getLast?_cons_cons] at hlast; exact hlast)]
            rfl
      · intro hreturn hhead
        cases xs with
        | nil =>
            rw [hreturn] at hlast
            exact hlast rfl
        | cons y xs =>
            cases hhead
            exact hxs List.mem_cons_self

theorem mem_splitLines (h : line ∈ splitLines xs) :
    '\n' ∉ line ∧ forall c, c ∈ line -> c ∈ xs := by
  induction xs using splitLines.induct generalizing line with
  | case1 =>
      rw [splitLines, List.mem_singleton] at h
      subst h
      exact ⟨List.not_mem_nil, fun _ hc => hc⟩
  | case2 rest ih =>
      rw [splitLines_break] at h
      cases List.mem_cons.mp h with
      | inl heq =>
          subst heq
          exact ⟨List.not_mem_nil, fun _ hc => absurd hc List.not_mem_nil⟩
      | inr hmem =>
          have hline := ih hmem
          exact ⟨hline.1, fun c hc =>
            List.mem_cons_of_mem _ (List.mem_cons_of_mem _ (hline.2 c hc))⟩
  | case3 rest ih =>
      rw [splitLines_newline] at h
      cases List.mem_cons.mp h with
      | inl heq =>
          subst heq
          exact ⟨List.not_mem_nil, fun _ hc => absurd hc List.not_mem_nil⟩
      | inr hmem =>
          have hline := ih hmem
          exact ⟨hline.1, fun c hc => List.mem_cons_of_mem _ (hline.2 c hc)⟩
  | case4 x rest hbreak hnewline hnil ih => exact absurd hnil (splitLines_ne_nil rest)
  | case5 x rest hbreak hnewline first lines hsplit ih =>
      have hx : x ≠ '\n' := hnewline
      have hreturn : x = '\r' -> rest.head? ≠ some '\n' := by
        intro heq hhead
        cases rest with
        | nil => cases hhead
        | cons y rest =>
            cases hhead
            exact hbreak rest heq rfl
      rw [splitLines_cons hx hreturn, hsplit] at h
      cases List.mem_cons.mp h with
      | inl heq =>
          have hfirst := @ih first (by rw [hsplit]; exact List.mem_cons_self)
          have heq : line = x :: first := heq
          subst heq
          constructor
          · intro hmem
            cases List.mem_cons.mp hmem with
            | inl hhead => exact hx hhead.symm
            | inr hin => exact hfirst.1 hin
          · intro c hc
            cases List.mem_cons.mp hc with
            | inl hhead =>
                rw [hhead]
                exact List.mem_cons_self
            | inr hin => exact List.mem_cons_of_mem _ (hfirst.2 c hin)
      | inr hmem =>
          have hline := @ih line (by rw [hsplit]; exact List.mem_cons_of_mem _ hmem)
          exact ⟨hline.1, fun c hc => List.mem_cons_of_mem _ (hline.2 c hc)⟩

/-!
# Lines
-/

/-- What a line says, whatever was read before it. -/
inductive Item where
  | blank
  | header (segments : List String)
  | entry (key value : String)
deriving DecidableEq

def headerItem (line : List Char) : Option Item :=
  if line.getLast? ≠ some ']' then none
  else if (headerSegments line).any fun s => (trimChars s).isEmpty then none
  else some (Item.header ((headerSegments line).map String.ofList))

def entryItem (line : List Char) : Option Item :=
  let before := line.takeWhile fun c => c != '='
  let after := line.dropWhile fun c => c != '='
  if before.isEmpty || after.isEmpty then none
  else
    let key := String.ofList (trimChars before)
    if key = "" then none
    else some (Item.entry key (String.ofList (trimChars (after.drop 1))))

/-- The line as an item; none is a syntax error. -/
def itemOf (raw : List Char) : Option Item :=
  let line := trimChars raw
  if line.isEmpty || line.head? == some ';' || line.head? == some '#' then some Item.blank
  else if line.head? == some '[' then headerItem line
  else entryItem line

def enterSection : Heap -> Ref -> List String -> Option (Heap × Ref)
  | h, node, [] => some (h, node)
  | h, node, segment :: rest =>
      match h.read node segment with
      | JsValue.undefined =>
          enterSection (h.write node segment (object [])) (node.child segment) rest
      | JsValue.reference existing => enterSection h existing rest
      | _ => none

def setEntry (key value : String) (h : Heap) (target : Ref) : Option Heap :=
  match h.read target key with
  | JsValue.undefined => some (h.write target key (Json.string value))
  | _ => none

def applyItem (state : IniState) : Item -> Option IniState
  | Item.blank => some state
  | Item.header segments =>
      (enterSection state.heap documentRef segments).map fun r =>
        { heap := r.1, current := some segments }
  | Item.entry key value =>
      ((enterSection state.heap documentRef (state.current.getD [])).bind fun r =>
        setEntry key value r.1 r.2).map fun h => { state with heap := h }

variable {state state' : IniState}

theorem enterSection_eq (n : Nat) :
    forall (segments : List String) (h : Heap) (node : Ref),
      enterSection h node segments = (sectionObject n h node segments).toOption := by
  intro segments
  induction segments with
  | nil =>
      intro h node
      rfl
  | cons segment rest ih =>
      intro h node
      rw [enterSection, sectionObject]
      cases h.read node segment with
      | undefined => exact ih _ _
      | reference existing => exact ih _ _
      | function => rfl
      | null_ => rfl
      | primitive v => rfl

theorem setEntry_eq (n : Nat) (key value : String) (state : IniState) (h : Heap) (target : Ref) :
    (setKey n key value state h target).toOption =
      (setEntry key value h target).map fun h => { state with heap := h } := by
  unfold setKey setEntry
  cases h.read target key with
  | undefined => rfl
  | reference existing => rfl
  | function => rfl
  | null_ => rfl
  | primitive v => rfl

theorem readHeader_eq (n : Nat) (line : List Char) (state : IniState) :
    (readHeader n line state).toOption = (headerItem line).bind (applyItem state) := by
  unfold readHeader headerItem
  split
  · rfl
  · split
    · rfl
    · show _ = applyItem state (Item.header _)
      simp only [applyItem, enterSection_eq n]
      cases sectionObject n state.heap documentRef
          ((headerSegments line).map String.ofList) with
      | error e => rfl
      | ok r => rfl

theorem readEntry_eq (n : Nat) (line : List Char) (state : IniState) :
    (readEntry n line state).toOption = (entryItem line).bind (applyItem state) := by
  unfold readEntry entryItem
  simp only
  split
  · rfl
  · split
    · rfl
    · show _ = applyItem state (Item.entry _ _)
      simp only [applyItem, enterSection_eq n]
      cases sectionObject n state.heap documentRef (state.current.getD []) with
      | error e => rfl
      | ok r => exact setEntry_eq n _ _ state r.1 r.2

theorem readLine_eq (n : Nat) (raw : List Char) (state : IniState) :
    (readLine n raw state).toOption = (itemOf raw).bind (applyItem state) := by
  unfold readLine itemOf
  simp only
  split
  · rfl
  · split
    · exact readHeader_eq n _ state
    · exact readEntry_eq n _ state

def applyItems (state : IniState) (items : List Item) : Option IniState :=
  items.foldlM applyItem state

theorem readLines_eq :
    forall (lines : List (List Char)) (n : Nat) (state : IniState),
      (readLines n lines state).toOption =
        (lines.mapM itemOf).bind (applyItems state) := by
  intro lines
  induction lines with
  | nil =>
      intro n state
      rfl
  | cons raw lines ih =>
      intro n state
      have hline := readLine_eq n raw state
      rw [readLines, List.mapM_cons]
      cases hread : readLine n raw state with
      | error e =>
          rw [hread] at hline
          cases hitem : itemOf raw with
          | none => rfl
          | some item =>
              rw [hitem] at hline
              have hstuck : applyItem state item = none := hline.symm
              show none = ((lines.mapM itemOf).bind fun items =>
                some (item :: items)).bind (applyItems state)
              cases lines.mapM itemOf with
              | none => rfl
              | some items =>
                  show none = (applyItem state item).bind fun s => applyItems s items
                  rw [hstuck]
                  rfl
      | ok next =>
          rw [hread] at hline
          cases hitem : itemOf raw with
          | none =>
              rw [hitem] at hline
              cases hline
          | some item =>
              rw [hitem] at hline
              have hnext : applyItem state item = some next := hline.symm
              show (readLines (n + 1) lines next).toOption =
                ((lines.mapM itemOf).bind fun items =>
                  some (item :: items)).bind (applyItems state)
              rw [ih]
              cases lines.mapM itemOf with
              | none => rfl
              | some items =>
                  show applyItems next items =
                    (applyItem state item).bind fun s => applyItems s items
                  rw [hnext]
                  rfl

theorem iniToJson_iff {text : String} {members : List Member} :
    iniToJson text = Except.ok members <->
      exists items state', (splitLines text.toList).mapM itemOf = some items ∧
        applyItems { heap := emptyHeap, current := none } items = some state' ∧
          state'.heap.document = members := by
  have hlines := readLines_eq (splitLines text.toList) 1 { heap := emptyHeap, current := none }
  unfold iniToJson
  constructor
  · intro h
    split at h
    · cases h
    · rename_i final hread
      cases h
      rw [hread] at hlines
      rcases Option.bind_eq_some_iff.mp hlines.symm with ⟨items, hitems, happly⟩
      exact ⟨items, final, hitems, happly, rfl⟩
  · intro h
    rcases h with ⟨items, final, hitems, happly, hdocument⟩
    rw [hitems] at hlines
    have hread : (readLines 1 (splitLines text.toList)
        { heap := emptyHeap, current := none }).toOption = some final := hlines.trans happly
    cases hok : readLines 1 (splitLines text.toList)
        { heap := emptyHeap, current := none } with
    | error e =>
        rw [hok] at hread
        cases hread
    | ok other =>
        rw [hok] at hread
        cases hread
        rw [← hdocument]

/-!
# What an item can be
-/

/-- One segment of a section header. -/
structure SegmentText (s : String) : Prop where
  not_blank : trimChars s.toList ≠ []
  no_slash : '/' ∉ s.toList
  one_line : '\n' ∉ s.toList

/-- A key as a line has it in front of the `=`. -/
structure KeyText (k : String) : Prop where
  not_empty : k ≠ ""
  trimmed : Trimmed k.toList
  no_equals : '=' ∉ k.toList
  one_line : '\n' ∉ k.toList
  no_mark : forall c, k.toList.head? = some c -> c ≠ '[' ∧ c ≠ ';' ∧ c ≠ '#'

theorem plain_keyText {k : String} {c : Char} (hfirst : k.toList.head? = some c)
    (hmark : c ≠ '[' ∧ c ≠ ';' ∧ c ≠ '#') (htrimmed : Trimmed k.toList)
    (hequals : '=' ∉ k.toList) (hline : '\n' ∉ k.toList) : KeyText k where
  not_empty := by
    rintro rfl
    cases hfirst
  trimmed := htrimmed
  no_equals := hequals
  one_line := hline
  no_mark := by
    intro d hd
    rw [hfirst] at hd
    cases hd
    exact hmark

/-- A value as a line has it behind the `=`. -/
structure ValueText (t : String) : Prop where
  trimmed : Trimmed t.toList
  one_line : '\n' ∉ t.toList

theorem mem_headerSegments {s : List Char} (h : s ∈ headerSegments line) :
    s ≠ [] ∧ '/' ∉ s ∧ forall c, c ∈ s -> c ∈ line := by
  unfold headerSegments at h
  rw [List.mem_filter] at h
  have hpart := mem_splitOn h.1
  constructor
  · intro hnil
    rw [hnil] at h
    cases h.2
  · constructor
    · exact hpart.1
    · intro c hc
      exact List.mem_of_mem_drop (List.mem_of_mem_dropLast
        (mem_of_mem_trimChars (hpart.2 c hc)))

theorem segmentText_of_header {segments : List String} (hline : '\n' ∉ raw)
    (h : itemOf raw = some (Item.header segments)) :
    forall s, s ∈ segments -> SegmentText s := by
  unfold itemOf at h
  simp only at h
  split at h
  · cases h
  · split at h
    · unfold headerItem at h
      split at h
      · cases h
      · split at h
        · cases h
        · rename_i hblank
          cases h
          intro s hs
          rcases List.mem_map.mp hs with ⟨cs, hcs, hsame⟩
          have hmem := mem_headerSegments hcs
          rw [← hsame]
          constructor
          · rw [String.toList_ofList]
            intro hnil
            apply hblank
            apply List.any_eq_true.mpr
            exists cs
            constructor
            · exact hcs
            · rw [hnil]
              rfl
          · rw [String.toList_ofList]
            exact hmem.2.1
          · rw [String.toList_ofList]
            intro hnewline
            exact hline (mem_of_mem_trimChars (hmem.2.2 _ hnewline))
    · unfold entryItem at h
      simp only at h
      split at h
      · cases h
      · split at h
        · cases h
        · cases h

theorem head_of_takeWhile {p : Char -> Bool} (h : (xs.takeWhile p).head? = some c) :
    xs.head? = some c := by
  rcases List.takeWhile_prefix p (l := xs) with ⟨more, hmore⟩
  rw [← hmore, List.head?_append, h]
  rfl

theorem not_mark
    (hskip : Not ((line.isEmpty || line.head? == some ';' || line.head? == some '#') = true))
    (hheader : Not ((line.head? == some '[') = true)) (h : line.head? = some c) :
    c ≠ '[' ∧ c ≠ ';' ∧ c ≠ '#' := by
  rw [h] at hskip hheader
  simp only [Bool.or_eq_true, beq_iff_eq, Option.some.injEq, not_or] at hskip hheader
  exact ⟨hheader, hskip.1.2, hskip.2⟩

theorem texts_of_entry {key value : String} (hline : '\n' ∉ raw)
    (h : itemOf raw = some (Item.entry key value)) : KeyText key ∧ ValueText value := by
  unfold itemOf at h
  simp only at h
  split at h
  · cases h
  · rename_i hskip
    split at h
    · unfold headerItem at h
      split at h
      · cases h
      · split at h
        · cases h
        · cases h
    · rename_i hheader
      unfold entryItem at h
      simp only at h
      split at h
      · cases h
      · rename_i hsides
        split at h
        · cases h
        · rename_i hkey
          cases h
          have hsub : forall c, c ∈ (trimChars raw).takeWhile (fun c => c != '=') -> c ∈ raw := by
            intro c hc
            exact mem_of_mem_trimChars ((List.takeWhile_prefix _).subset hc)
          have hafter : forall c, c ∈ ((trimChars raw).dropWhile (fun c => c != '=')).drop 1 ->
              c ∈ raw := by
            intro c hc
            exact mem_of_mem_trimChars
              ((List.dropWhile_suffix _).subset (List.mem_of_mem_drop hc))
          constructor
          · constructor
            · exact hkey
            · rw [String.toList_ofList]
              exact trimmed_trimChars _
            · rw [String.toList_ofList]
              intro hequals
              have htaken := List.all_eq_true.mp List.all_takeWhile _
                (mem_of_mem_trimChars hequals)
              rw [bne_self_eq_false] at htaken
              cases htaken
            · rw [String.toList_ofList]
              intro hnewline
              exact hline (hsub _ (mem_of_mem_trimChars hnewline))
            · rw [String.toList_ofList]
              intro c hc
              have hhead := head_of_trimChars (fun d hd => head_trimChars (head_of_takeWhile hd)) hc
              exact not_mark hskip hheader (head_of_takeWhile hhead)
          · constructor
            · rw [String.toList_ofList]
              exact trimmed_trimChars _
            · rw [String.toList_ofList]
              intro hnewline
              exact hline (hafter _ (mem_of_mem_trimChars hnewline))

end Web
end FleetServer
