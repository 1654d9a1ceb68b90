import FleetServer.Core.Text

/-!
# Reading CSV

`facts/import/parse.ts`: the reader of comma separated records, a loop over the
characters that remembers whether it is inside quotes and whether the record has seen
anything, against the ways a list of records can be written.
-/

namespace FleetServer
namespace Web
namespace Csv

inductive Delimiter where
  | comma
  | semicolon
  | tab
  | pipe
deriving DecidableEq

def Delimiter.char : Delimiter -> Char
  | comma => ','
  | semicolon => ';'
  | tab => '\t'
  | pipe => '|'

def byteOrderMark : Char := Char.ofNat 0xFEFF

def stripBom (text : List Char) : List Char :=
  if text.head? = some byteOrderMark then text.drop 1 else text

structure State where
  rows : List (List String)
  row : List String
  field : List Char
  quoted : Bool
  /-- Whether the current record has seen anything at all. -/
  started : Bool

def State.start : State where
  rows := []
  row := []
  field := []
  quoted := false
  started := false

def endField (st : State) : State :=
  { st with row := st.row ++ [String.ofList st.field], field := [] }

def endRow (st : State) : State :=
  let ended := endField st
  { ended with
    rows := if st.started then st.rows ++ [ended.row] else st.rows
    row := []
    started := false }

def State.push (st : State) (c : Char) : State :=
  { st with field := st.field ++ [c] }

def loop (delimiter : Char) : List Char -> State -> State
  | [], st => st
  | c :: rest, st =>
      if st.quoted then
        if c = '"' then
          match rest with
          | '"' :: more => loop delimiter more (st.push '"')
          | rest => loop delimiter rest { st with quoted := false }
        else loop delimiter rest (st.push c)
      else if c = '"' ∧ st.field = [] then
        loop delimiter rest { st with quoted := true, started := true }
      else if c = delimiter then
        loop delimiter rest { endField st with started := true }
      else if c = '\r' ∨ c = '\n' then
        match c, rest with
        | '\r', '\n' :: more => loop delimiter more (endRow st)
        | _, rest => loop delimiter rest (endRow st)
      else loop delimiter rest { st.push c with started := true }

def parseCsv (text : String) (delimiter : Delimiter) : List (List String) :=
  let st := loop delimiter.char (stripBom text.toList) State.start
  if st.started ∨ st.field ≠ [] ∨ st.row ≠ [] then (endRow st).rows else st.rows

/-!
# Writing CSV
-/

variable {d : Delimiter} {c : Char} {xs ys rest text : List Char} {v : String} {row : List String}
variable {st : State}

/-- A quote is written twice between quotes. -/
def doubled (xs : List Char) : List Char :=
  xs.flatMap fun c => if c = '"' then ['"', '"'] else [c]

/-- A character that needs no quotes around it. -/
def Plain (d : Delimiter) (c : Char) : Prop :=
  c ≠ d.char ∧ c ≠ '"' ∧ c ≠ '\r' ∧ c ≠ '\n'

instance (d : Delimiter) (c : Char) : Decidable (Plain d c) :=
  inferInstanceAs (Decidable (_ ∧ _))

inductive FieldText (d : Delimiter) (v : String) : List Char -> Prop where
  | quoted : FieldText d v ('"' :: (doubled v.toList ++ ['"']))
  | bare : (forall c, c ∈ v.toList -> Plain d c) -> FieldText d v v.toList

inductive RecordText (d : Delimiter) : List String -> List Char -> Prop where
  | one {v : String} {text : List Char} : FieldText d v text -> RecordText d [v] text
  | cons {v : String} {text : List Char} {row : List String} {rest : List Char} :
      FieldText d v text -> RecordText d row rest ->
        RecordText d (v :: row) (text ++ d.char :: rest)

inductive LineEnd : List Char -> Prop where
  | crlf : LineEnd ['\r', '\n']
  | lf : LineEnd ['\n']
  | cr : LineEnd ['\r']

/-- A record whose only field is empty is written with quotes. -/
def Shown (row : List String) (text : List Char) : Prop :=
  row = [""] -> text = ['"', '"']

instance (row : List String) (text : List Char) : Decidable (Shown row text) :=
  inferInstanceAs (Decidable (_ -> _))

inductive FileText (d : Delimiter) : List (List String) -> List Char -> Prop where
  | empty : FileText d [] []
  | last {row : List String} {text : List Char} :
      RecordText d row text -> Shown row text -> FileText d [row] text
  | line {row : List String} {rows : List (List String)} {text sep rest : List Char} :
      RecordText d row text -> Shown row text -> LineEnd sep -> FileText d rows rest ->
        FileText d (row :: rows) (text ++ (sep ++ rest))

/-!
# One character
-/

variable {delimiter : Char}

-- Made here, before the lemmas below that would all make it at once.
alias loop_unfold := loop.eq_def

theorem loop_quote_pair (hst : st.quoted = true) :
    loop delimiter ('"' :: '"' :: rest) st = loop delimiter rest (st.push '"') := by
  rw [loop_unfold]
  simp [hst]

theorem loop_quote_end (hst : st.quoted = true) (hrest : rest.head? ≠ some '"') :
    loop delimiter ('"' :: rest) st = loop delimiter rest { st with quoted := false } := by
  rw [loop_unfold]
  simp only [hst, if_true]
  split
  · exact absurd rfl hrest
  · rfl

theorem loop_inside (hst : st.quoted = true) (hc : c ≠ '"') :
    loop delimiter (c :: rest) st = loop delimiter rest (st.push c) := by
  rw [loop_unfold]
  simp [hst, hc]

theorem loop_open (hst : st.quoted = false) (hfield : st.field = []) :
    loop delimiter ('"' :: rest) st =
      loop delimiter rest { st with quoted := true, started := true } := by
  rw [loop_unfold]
  simp [hst, hfield]

theorem loop_delimiter (hst : st.quoted = false) (hdelimiter : delimiter ≠ '"') :
    loop delimiter (delimiter :: rest) st =
      loop delimiter rest { endField st with started := true } := by
  rw [loop_unfold]
  simp [hst, hdelimiter]

theorem loop_plain (hst : st.quoted = false) (hc : Plain d c) :
    loop d.char (c :: rest) st =
      loop d.char rest { st with field := st.field ++ [c], started := true } := by
  rw [loop_unfold]
  simp [hst, hc.1, hc.2.1, hc.2.2.1, hc.2.2.2, State.push]

theorem loop_crlf (hst : st.quoted = false) (hdelimiter : delimiter ≠ '\r') :
    loop delimiter ('\r' :: '\n' :: rest) st = loop delimiter rest (endRow st) := by
  rw [loop_unfold]
  simp [hst, hdelimiter.symm]

theorem loop_lf (hst : st.quoted = false) (hdelimiter : delimiter ≠ '\n') :
    loop delimiter ('\n' :: rest) st = loop delimiter rest (endRow st) := by
  rw [loop_unfold]
  simp [hst, hdelimiter.symm]

theorem loop_cr (hst : st.quoted = false) (hdelimiter : delimiter ≠ '\r')
    (hrest : rest.head? ≠ some '\n') :
    loop delimiter ('\r' :: rest) st = loop delimiter rest (endRow st) := by
  rw [loop_unfold]
  simp only [hst, hdelimiter.symm, Bool.false_eq_true, if_false, true_or, if_true]
  rw [if_neg (fun h => absurd h.1 (by decide))]
  split
  · exact absurd rfl hrest
  · rfl

/-!
# One field
-/

theorem loop_quoted (hrest : rest.head? ≠ some '"') (xs : List Char) (hst : st.quoted = true) :
    loop delimiter (doubled xs ++ '"' :: rest) st =
      loop delimiter rest { st with field := st.field ++ xs, quoted := false } := by
  induction xs generalizing st with
  | nil =>
      show loop delimiter ('"' :: rest) st = _
      rw [loop_quote_end hst hrest, List.append_nil]
  | cons x xs ih =>
      have hpush : (st.push x).quoted = true := hst
      have hfield : (st.push x).field ++ xs = st.field ++ x :: xs := by
        simp [State.push]
      by_cases hx : x = '"'
      · subst hx
        show loop delimiter ('"' :: '"' :: (doubled xs ++ '"' :: rest)) st = _
        rw [loop_quote_pair hst, ih hpush, hfield]
        rfl
      · have hcons : doubled (x :: xs) = x :: doubled xs := by
          unfold doubled
          rw [List.flatMap_cons, if_neg hx]
          rfl
        rw [hcons, List.cons_append, loop_inside hst hx, ih hpush, hfield]
        rfl

theorem loop_bare (xs : List Char) (hxs : forall c, c ∈ xs -> Plain d c)
    (hst : st.quoted = false) :
    loop d.char (xs ++ rest) st =
      loop d.char rest
        { st with field := st.field ++ xs, started := st.started || !xs.isEmpty } := by
  induction xs generalizing st with
  | nil => simp
  | cons x xs ih =>
      have hnext : ({ st with field := st.field ++ [x], started := true } : State).quoted =
          false := hst
      rw [List.cons_append, loop_plain hst (hxs x List.mem_cons_self),
        ih (fun y hy => hxs y (List.mem_cons_of_mem _ hy)) hnext]
      congr 1
      simp

/-- Between fields of a record that goes on with `row`. -/
structure Fresh (st : State) : Prop where
  field : st.field = []
  quoted : st.quoted = false

theorem loop_field (hfield : FieldText d v text) (hst : Fresh st)
    (hrest : rest.head? ≠ some '"') :
    loop d.char (text ++ rest) st =
      loop d.char rest
        { st with field := v.toList, started := st.started || !text.isEmpty } := by
  cases hfield with
  | quoted =>
      have hopened : ({ st with quoted := true, started := true } : State).quoted = true := rfl
      rw [List.cons_append, loop_open hst.quoted hst.field, List.append_assoc]
      show loop d.char (doubled v.toList ++ '"' :: rest) _ = _
      rw [loop_quoted hrest v.toList hopened]
      congr 1
      simp [hst.field, hst.quoted]
  | bare hplain =>
      rw [loop_bare v.toList hplain hst.quoted, hst.field]
      rfl

theorem plain_delimiter (d : Delimiter) : d.char ≠ '"' ∧ d.char ≠ '\r' ∧ d.char ≠ '\n' := by
  cases d with
  | comma => decide
  | semicolon => decide
  | tab => decide
  | pipe => decide

/-!
# One record
-/

theorem loop_record (hrecord : RecordText d row text) (hrest : rest.head? ≠ some '"') :
    forall {st : State}, Fresh st ->
      exists front last, row = front ++ [last] ∧
        loop d.char (text ++ rest) st =
          loop d.char rest
            { st with
              row := st.row ++ front
              field := last.toList
              started := st.started || !text.isEmpty } := by
  induction hrecord with
  | one hfield =>
      rename_i v text
      intro st hst
      exists [], v
      constructor
      · rfl
      · rw [loop_field hfield hst hrest, List.append_nil]
  | cons hfield hrow ih =>
      rename_i v text row more
      intro st hst
      have hdelimiter := plain_delimiter d
      have hnext : (d.char :: (more ++ rest)).head? ≠ some '"' := by
        intro h
        injection h with h
        exact hdelimiter.1 h
      have hfresh : Fresh
          { endField { st with field := v.toList, started := st.started || !text.isEmpty } with
            started := true } := by
        constructor
        · rfl
        · exact hst.quoted
      rcases ih hfresh with ⟨front, last, hrowEq, hloop⟩
      exists v :: front, last
      constructor
      · rw [hrowEq]
        rfl
      · have hread : ({ st with
            field := v.toList, started := st.started || !text.isEmpty } : State).quoted = false :=
          hst.quoted
        rw [List.append_assoc, List.cons_append, loop_field hfield hst hnext,
          loop_delimiter hread hdelimiter.1, hloop]
        congr 1
        simp [endField, String.ofList_toList]

theorem fieldText_head (h : FieldText d v text) (hc : text.head? = some c) :
    c ≠ '\r' ∧ c ≠ '\n' := by
  cases h with
  | quoted =>
      cases hc
      decide
  | bare hplain =>
      have hin := hplain c (List.mem_of_head? hc)
      exact hin.2.2

theorem fieldText_nil (h : FieldText d v []) : v = "" := by
  generalize htext : ([] : List Char) = text at h
  cases h with
  | quoted => cases htext
  | bare hplain => exact String.toList_eq_nil_iff.mp htext.symm

theorem recordText_head (h : RecordText d row text) (hc : text.head? = some c) :
    c ≠ '\r' ∧ c ≠ '\n' := by
  cases h with
  | one hfield => exact fieldText_head hfield hc
  | cons hfield hrow =>
      rename_i v first row' more
      cases first with
      | nil =>
          cases hc
          exact (plain_delimiter d).2
      | cons x first => exact fieldText_head hfield hc

theorem recordText_ne_nil (h : RecordText d row text) (hshown : Shown row text) :
    text ≠ [] := by
  rintro rfl
  generalize htext : ([] : List Char) = text at h
  cases h with
  | one hfield =>
      subst htext
      rw [fieldText_nil hfield] at hshown
      cases hshown rfl
  | cons hfield hrow =>
      have hlength := congrArg List.length htext
      rw [List.length_append, List.length_cons, List.length_nil] at hlength
      omega

/-!
# All records
-/

theorem fileText_head {rows : List (List String)} (h : FileText d rows text)
    (hc : text.head? = some c) : c ≠ '\n' := by
  cases h with
  | empty => cases hc
  | last hrecord hshown => exact (recordText_head hrecord hc).2
  | line hrecord hshown hend hrows =>
      rename_i row' rows' first sep more
      rw [List.head?_append_of_ne_nil _ (recordText_ne_nil hrecord hshown)] at hc
      exact (recordText_head hrecord hc).2

theorem endRow_record (front : List String) (last : String) (hst : st.started = true)
    (hrow : st.row = front) (hfield : st.field = last.toList) :
    endRow st =
      { rows := st.rows ++ [front ++ [last]], row := [], field := []
        quoted := st.quoted, started := false } := by
  unfold endRow endField
  simp only [hst, hrow, hfield, String.ofList_toList, if_true]

theorem loop_lineEnd {sep : List Char} (hsep : LineEnd sep) (hst : st.quoted = false)
    (hrest : rest.head? ≠ some '\n') :
    loop d.char (sep ++ rest) st = loop d.char rest (endRow st) := by
  have hdelimiter := plain_delimiter d
  cases hsep with
  | crlf => exact loop_crlf hst hdelimiter.2.1
  | lf => exact loop_lf hst hdelimiter.2.2
  | cr => exact loop_cr hst hdelimiter.2.1 hrest

/-- The rows of a whole file, behind those read before. -/
def finished (st : State) : List (List String) :=
  if st.started ∨ st.field ≠ [] ∨ st.row ≠ [] then (endRow st).rows else st.rows

/-- At the start of a record. -/
def between (rows : List (List String)) : State where
  rows := rows
  row := []
  field := []
  quoted := false
  started := false

theorem loop_file {rows : List (List String)} (h : FileText d rows text) :
    forall before : List (List String),
      finished (loop d.char text (between before)) = before ++ rows := by
  induction h with
  | empty =>
      intro before
      rw [loop, List.append_nil]
      rfl
  | last hrecord hshown =>
      rename_i row text
      intro before
      have hne : text.isEmpty = false :=
        List.isEmpty_eq_false_iff.mpr (recordText_ne_nil hrecord hshown)
      have hnil : ([] : List Char).head? ≠ some '"' := by decide
      have hfresh : Fresh (between before) := ⟨rfl, rfl⟩
      rcases loop_record hrecord hnil hfresh with ⟨front, last, hrow, hloop⟩
      rw [List.append_nil] at hloop
      rw [hloop, loop, finished, if_pos, endRow_record, hrow]
      · rfl
      · rw [hne]
        rfl
      · rfl
      · rfl
      · left
        rw [hne]
        rfl
  | line hrecord hshown hend hrows ih =>
      rename_i row rows text sep rest
      intro before
      have hne : text.isEmpty = false :=
        List.isEmpty_eq_false_iff.mpr (recordText_ne_nil hrecord hshown)
      have hsep : (sep ++ rest).head? ≠ some '"' := by
        cases hend with
        | crlf =>
            intro h
            cases h
        | lf =>
            intro h
            cases h
        | cr =>
            intro h
            cases h
      have hrest : rest.head? ≠ some '\n' := fun hc => fileText_head hrows hc rfl
      have hfresh : Fresh (between before) := ⟨rfl, rfl⟩
      rcases loop_record hrecord hsep hfresh with ⟨front, last, hrow, hloop⟩
      have hended : endRow
          { between before with
            row := (between before).row ++ front, field := last.toList
            started := (between before).started || !text.isEmpty } =
          between (before ++ [row]) := by
        rw [endRow_record front last, hrow]
        · rfl
        · rw [hne]
          rfl
        · rfl
        · rfl
      rw [hloop, loop_lineEnd hend rfl hrest, hended, ih, List.append_assoc]
      rfl

/-- Every way of writing a list of records is read back as those records. -/
theorem parseCsv_file (d : Delimiter) (records : List (List String)) (text : List Char)
    (bom : Bool) (hfile : FileText d records text)
    (hfirst : text.head? ≠ some byteOrderMark) :
    parseCsv (String.ofList ((if bom then [byteOrderMark] else []) ++ text)) d = records := by
  have hstripped : stripBom ((if bom then [byteOrderMark] else []) ++ text) = text := by
    cases bom with
    | true => exact if_pos rfl
    | false => exact if_neg hfirst
  have hrows := loop_file hfile []
  unfold parseCsv
  rw [String.toList_ofList, hstripped]
  exact hrows

theorem parseCsv_file_quoted :
    parseCsv (String.ofList ([byteOrderMark] ++
        (("a".toList ++ ';' :: ('"' :: (doubled "b;\"".toList ++ ['"']))) ++ (['\r'] ++ []))))
      Delimiter.semicolon = [["a", "b;\""]] := by
  have hbare : FieldText Delimiter.semicolon "a" "a".toList := by
    apply FieldText.bare
    intro c hc
    rw [List.mem_singleton.mp hc]
    decide
  exact parseCsv_file Delimiter.semicolon [["a", "b;\""]] _ true
    (FileText.line (RecordText.cons hbare (RecordText.one FieldText.quoted))
      (by decide +kernel) LineEnd.cr FileText.empty)
    (by decide +kernel)

example : parseCsv "\"a,\"\"\",b\r\n\"\"\rc," Delimiter.comma =
    [["a,\"", "b"], [""], ["c", ""]] := by
  decide +kernel

end Csv
end Web
end FleetServer
