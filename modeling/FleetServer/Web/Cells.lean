import FleetServer.Core.Canonical
import FleetServer.Core.Lowercase
import FleetServer.Core.Selector
import FleetServer.Data.Decimal
import FleetServer.Web.IniText

/-!
# Cells of an imported table

`coerceCell` of `parse.ts`.  A number is the rational its text denotes until it is
stored, and stored as the text the nearest double is printed as.
-/

namespace FleetServer
namespace Web

open FleetServer.Core

/-!
# Numbers in text
-/

structure NumberText where
  sign : Option Char
  whole : List Char
  fraction : Option (List Char)
  exponent : Option (Option Char × List Char)

def splitSign : List Char -> Option Char × List Char
  | '-' :: text => (some '-', text)
  | '+' :: text => (some '+', text)
  | text => (none, text)

def splitFraction : List Char -> Option (List Char) × List Char
  | '.' :: text => (some (text.takeWhile isAsciiDigit), text.dropWhile isAsciiDigit)
  | text => (none, text)

def splitExponent : List Char -> Option (Option Char × List Char) × List Char
  | c :: text =>
      if c = 'e' ∨ c = 'E' then
        (some ((splitSign text).1, (splitSign text).2.takeWhile isAsciiDigit),
          (splitSign text).2.dropWhile isAsciiDigit)
      else (none, c :: text)
  | [] => (none, [])

def splitNumber (text : List Char) : Option NumberText :=
  let (sign, unsigned) := splitSign text
  let (fraction, behind) := splitFraction (unsigned.dropWhile isAsciiDigit)
  let (exponent, left) := splitExponent behind
  if left = [] then
    some
      { sign := sign
        whole := unsigned.takeWhile isAsciiDigit
        fraction := fraction
        exponent := exponent }
  else none

namespace NumberText

def exponentDigits (n : NumberText) : Bool :=
  match n.exponent with
  | some (_, digits) => !digits.isEmpty
  | none => true

/-- `-?(?:0|[1-9]\d*)(?:\.\d+)?(?:[eE][+-]?\d+)?` -/
def isNumber (n : NumberText) : Bool :=
  n.sign != some '+' &&
    (n.whole == ['0'] || (!n.whole.isEmpty && n.whole.head? != some '0')) &&
    n.fraction != some [] && n.exponentDigits

/-- `-?\d+` -/
def isInteger (n : NumberText) : Bool :=
  n.sign != some '+' && !n.whole.isEmpty && n.fraction.isNone && n.exponent.isNone

/-- `[-+]?(\d+\.?\d*|\.\d+)([eE][+-]?\d+)?` -/
def isLooseNumber (n : NumberText) : Bool :=
  (!n.whole.isEmpty || (n.fraction.isSome && n.fraction != some [])) && n.exponentDigits

def digitOf (c : Char) : Nat :=
  c.toNat - '0'.toNat

def exponentOf (n : NumberText) : Int :=
  match n.exponent with
  | some (sign, digits) =>
      (if sign = some '-' then -1 else 1) * Decimal.unitsOf (digits.map digitOf)
  | none => 0

def digits (n : NumberText) : List Char :=
  n.whole ++ n.fraction.getD []

def decimal (n : NumberText) : Decimal :=
  { negative := n.sign == some '-'
    digits := n.digits.map digitOf
    place := n.exponentOf - (n.fraction.getD []).length }

/-- No exponent, no zero at the end of the fraction, no minus before zero. -/
def isPlain (n : NumberText) : Bool :=
  n.exponent.isNone && n.fraction.bind List.getLast? != some '0' &&
    !(n.sign == some '-' && n.digits.all (· == '0'))

end NumberText

/-- `NUMBER_RE` -/
def numberRe (text : List Char) : Bool :=
  ((splitNumber text).map NumberText.isNumber).getD false

def integerRe (text : List Char) : Bool :=
  ((splitNumber text).map NumberText.isInteger).getD false

def looseNumberRe (text : List Char) : Bool :=
  ((splitNumber text).map NumberText.isLooseNumber).getD false

/-- Written like a number, and with nothing to spare. -/
def plainlyWritten (text : List Char) : Bool :=
  ((splitNumber text).map NumberText.isPlain).getD true

def numberOf (text : List Char) : Rat :=
  ((splitNumber text).map fun n => n.decimal.value).getD 0

/-- `Number.isFinite`: from half a unit above the largest double on, a number rounds to
infinity. -/
def isFinite (q : Rat) : Bool :=
  decide (|q| < 2 ^ 1024 - 2 ^ 970)

/-- `Number.isSafeInteger` of an integer. -/
def isSafeInteger (q : Rat) : Bool :=
  decide (|q| ≤ 2 ^ 53 - 1)

/-!
# Coercion
-/

inductive ColumnType where
  | auto
  | string
  | number
  | boolean
deriving DecidableEq

/-- A value, none where the key is left out, or why the cell cannot be one. -/
inductive Coerced where
  | value (v : Option Json)
  | error (message : String)

/-- What the coercion asks of the browser: how the double nearest to a number is
printed, and the properties `toLowerCase` asks for. -/
structure Engine where
  numberText : Rat -> String
  words : Lowercase.Words

def trueWords : List String :=
  ["true", "yes", "y", "on", "1"]

def falseWords : List String :=
  ["false", "no", "n", "off", "0"]

/-- The characters within the first `units` code units; a pair cut in two shows as a
replacement character. -/
def sliceUnits : Nat -> List Char -> List Char
  | 0, _ => []
  | _, [] => []
  | 1, c :: _ => if (codeUnits c).length = 1 then [c] else [Char.ofNat 0xFFFD]
  | units + 2, c :: rest =>
      c :: sliceUnits (if (codeUnits c).length = 1 then units + 1 else units) rest

def truncate (text : List Char) : String :=
  if 40 < (utf16 (String.ofList text)).length then
    String.ofList (sliceUnits 40 text ++ ['…'])
  else String.ofList text

/-- `String` of a value that is no object. -/
def stringOf : Json -> String
  | Json.null => "null"
  | Json.bool b => if b then "true" else "false"
  | Json.number text => text
  | Json.string s => s
  | v => String.ofList (Core.Json.write v)

def coerceValue (cell : Json) : ColumnType -> Coerced
  | ColumnType.auto => Coerced.value (some cell)
  | ColumnType.string =>
      if cell.isNull then Coerced.value none
      else Coerced.value (some (Json.string (stringOf cell)))
  | ColumnType.number =>
      match cell with
      | Json.number text => Coerced.value (some (Json.number text))
      | Json.null => Coerced.value none
      | Json.bool b => Coerced.value (some (Json.number (if b then "1" else "0")))
      | _ => Coerced.error "Not a number"
  | ColumnType.boolean =>
      match cell with
      | Json.bool b => Coerced.value (some (Json.bool b))
      | Json.null => Coerced.value none
      | Json.number text =>
          if text = "0" ∨ text = "1" then Coerced.value (some (Json.bool (text = "1")))
          else Coerced.error "Not a boolean"
      | _ => Coerced.error "Not a boolean"

def coerceText (engine : Engine) (cell : String) : ColumnType -> Coerced
  | ColumnType.string => Coerced.value (some (Json.string cell))
  | ColumnType.auto =>
      let t := trimChars cell.toList
      if t = [] then Coerced.value none
      else if t = "true".toList then Coerced.value (some (Json.bool true))
      else if t = "false".toList then Coerced.value (some (Json.bool false))
      else
        let n := numberOf t
        let exact := !integerRe t || isSafeInteger n
        if numberRe t && (isFinite n && exact) then
          Coerced.value (some (Json.number (engine.numberText n)))
        else Coerced.value (some (Json.string cell))
  | ColumnType.number =>
      let t := trimChars cell.toList
      if t = [] then Coerced.value none
      else
        let n := numberOf t
        if looseNumberRe t && isFinite n then
          Coerced.value (some (Json.number (engine.numberText n)))
        else Coerced.error ("\"" ++ truncate t ++ "\" is not a number")
  | ColumnType.boolean =>
      let t := trimChars cell.toList
      if t = [] then Coerced.value none
      else
        let l := String.ofList (Lowercase.lower engine.words t)
        if l ∈ trueWords then Coerced.value (some (Json.bool true))
        else if l ∈ falseWords then Coerced.value (some (Json.bool false))
        else Coerced.error ("\"" ++ truncate t ++ "\" is not a boolean")

def coerceCell (engine : Engine) (cell : Option Json) (type : ColumnType) : Coerced :=
  match cell with
  | none => Coerced.value none
  | some (Json.string s) => coerceText engine s type
  | some v => coerceValue v type

/-!
# What `auto` takes for a number
-/

variable {engine : Engine} {text other : List Char} {cell : String} {n : NumberText}

/-- The test `auto` makes of a trimmed text. -/
def autoTakes (text : List Char) : Bool :=
  numberRe text &&
    (isFinite (numberOf text) && (!integerRe text || isSafeInteger (numberOf text)))

theorem coerceText_auto (cell : String) :
    coerceText engine cell ColumnType.auto =
      if trimChars cell.toList = [] then Coerced.value none
      else if trimChars cell.toList = "true".toList then
        Coerced.value (some (Json.bool true))
      else if trimChars cell.toList = "false".toList then
        Coerced.value (some (Json.bool false))
      else if autoTakes (trimChars cell.toList) then
        Coerced.value (some (Json.number (engine.numberText (numberOf (trimChars cell.toList)))))
      else Coerced.value (some (Json.string cell)) :=
  rfl

def TakenAsNumber (engine : Engine) (cell : String) : Prop :=
  exists s, coerceCell engine (some (Json.string cell)) ColumnType.auto =
    Coerced.value (some (Json.number s))

theorem takenAsNumber_iff :
    TakenAsNumber engine cell <-> autoTakes (trimChars cell.toList) = true := by
  unfold TakenAsNumber coerceCell
  simp only [coerceText_auto]
  constructor
  · rintro ⟨s, hs⟩
    split at hs
    · cases hs
    · split at hs
      · cases hs
      · split at hs
        · cases hs
        · split at hs
          · assumption
          · cases hs
  · intro h
    have hne : forall word, autoTakes word = false -> trimChars cell.toList ≠ word := by
      intro word hword heq
      rw [heq, hword] at h
      cases h
    rw [if_neg (hne [] rfl), if_neg (hne "true".toList (by decide)),
      if_neg (hne "false".toList (by decide)), if_pos h]
    exact ⟨_, rfl⟩

/-!
# The parts of a number text
-/

theorem splitSign_cases (text : List Char) :
    (splitSign text = (none, text) ∨ exists rest, text = '-' :: rest ∧
      splitSign text = (some '-', rest)) ∨
    exists rest, text = '+' :: rest ∧ splitSign text = (some '+', rest) := by
  unfold splitSign
  split
  · exact Or.inl (Or.inr ⟨_, rfl, rfl⟩)
  · exact Or.inr ⟨_, rfl, rfl⟩
  · exact Or.inl (Or.inl rfl)

theorem splitFraction_cases (text : List Char) :
    splitFraction text = (none, text) ∨ exists rest, text = '.' :: rest ∧
      splitFraction text = (some (rest.takeWhile isAsciiDigit), rest.dropWhile isAsciiDigit) := by
  unfold splitFraction
  split
  · exact Or.inr ⟨_, rfl, rfl⟩
  · exact Or.inl rfl

theorem splitExponent_cases (text : List Char) :
    splitExponent text = (none, text) ∨
      ((splitExponent text).1.isSome = true ∧
        exists c rest, text = c :: rest ∧ (c = 'e' ∨ c = 'E')) := by
  unfold splitExponent
  split
  · rename_i c rest
    split
    · rename_i hc
      exact Or.inr ⟨rfl, c, rest, rfl, hc⟩
    · exact Or.inl rfl
  · exact Or.inl rfl

structure Reads (text : List Char) (n : NumberText) : Prop where
  sign : n.sign = none ∨ n.sign = some '-' ∨ n.sign = some '+'
  digits : forall c, c ∈ n.digits -> isAsciiDigit c = true
  written : n.exponent = none ->
    text = n.sign.toList ++ n.whole ++ (n.fraction.map (List.cons '.')).getD []
  letter : n.exponent.isSome = true -> 'e' ∈ text ∨ 'E' ∈ text

theorem reads_of_split (h : splitNumber text = some n) : Reads text n := by
  unfold splitNumber at h
  simp only at h
  split at h
  · rename_i hleft
    cases h
    have hsign : text = (splitSign text).1.toList ++ (splitSign text).2 ∧
        ((splitSign text).1 = none ∨ (splitSign text).1 = some '-' ∨
          (splitSign text).1 = some '+') := by
      rcases splitSign_cases text with (heq | ⟨rest, htext, heq⟩) | ⟨rest, htext, heq⟩
      · rw [heq]
        exact ⟨rfl, Or.inl rfl⟩
      · rw [heq, htext]
        exact ⟨rfl, Or.inr (Or.inl rfl)⟩
      · rw [heq, htext]
        exact ⟨rfl, Or.inr (Or.inr rfl)⟩
    generalize splitSign text = signed at hleft hsign ⊢
    rcases signed with ⟨sign, unsigned⟩
    simp only at hleft hsign ⊢
    have hwhole : unsigned = unsigned.takeWhile isAsciiDigit ++ unsigned.dropWhile isAsciiDigit :=
      (List.takeWhile_append_dropWhile).symm
    have hbehind : unsigned.dropWhile isAsciiDigit =
        ((splitFraction (unsigned.dropWhile isAsciiDigit)).1.map (List.cons '.')).getD [] ++
          (splitFraction (unsigned.dropWhile isAsciiDigit)).2 ∧
        forall c, c ∈ (splitFraction (unsigned.dropWhile isAsciiDigit)).1.getD [] ->
          isAsciiDigit c = true := by
      rcases splitFraction_cases (unsigned.dropWhile isAsciiDigit) with heq | ⟨rest, hrest, heq⟩
      · rw [heq]
        exact ⟨rfl, fun c hc => absurd hc List.not_mem_nil⟩
      · rw [heq, hrest]
        constructor
        · simp [List.takeWhile_append_dropWhile]
        · exact fun c hc => List.mem_takeWhile_imp hc
    generalize splitFraction (unsigned.dropWhile isAsciiDigit) = pointed at hleft hbehind ⊢
    rcases pointed with ⟨fraction, behind⟩
    simp only at hleft hbehind ⊢
    have htext : text = sign.toList ++ unsigned.takeWhile isAsciiDigit ++
        (fraction.map (List.cons '.')).getD [] ++ behind := by
      rw [hsign.1, List.append_assoc, List.append_assoc, ← hbehind.1, ← hwhole]
    refine ⟨hsign.2, ?_, ?_, ?_⟩
    · intro c hc
      rcases List.mem_append.mp hc with hc | hc
      · exact List.mem_takeWhile_imp hc
      · exact hbehind.2 c hc
    · intro hnone
      rcases splitExponent_cases behind with heq | ⟨hsome, _⟩
      · have hnil : behind = [] := by
          rw [heq] at hleft
          exact hleft
        rw [hnil, List.append_nil] at htext
        exact htext
      · rw [show (splitExponent behind).1 = none from hnone] at hsome
        cases hsome
    · intro hsome
      rcases splitExponent_cases behind with heq | ⟨_, c, rest, hcons, hc⟩
      · rw [heq] at hsome
        cases hsome
      · have hmem : c ∈ text := by
          rw [htext, hcons]
          simp
        rcases hc with hc | hc
        · rw [hc] at hmem
          exact Or.inl hmem
        · rw [hc] at hmem
          exact Or.inr hmem
  · cases h

/-!
# Plain texts of one number
-/

theorem digitOf_range {c : Char} (h : isAsciiDigit c = true) :
    NumberText.digitOf c < 10 ∧ Char.ofNat ('0'.toNat + NumberText.digitOf c) = c := by
  unfold isAsciiDigit at h
  rw [Bool.and_eq_true, decide_eq_true_eq, decide_eq_true_eq] at h
  have hfirst : '0'.toNat ≤ c.toNat := h.1
  have hlast : c.toNat ≤ '9'.toNat := h.2
  have hnine : '9'.toNat = 57 := rfl
  have hzero : '0'.toNat = 48 := rfl
  constructor
  · unfold NumberText.digitOf
    omega
  · unfold NumberText.digitOf
    rw [Nat.add_sub_cancel' hfirst, Char.ofNat_toNat]

theorem digits_inj {xs ys : List Char} (hx : forall c, c ∈ xs -> isAsciiDigit c = true)
    (hy : forall c, c ∈ ys -> isAsciiDigit c = true)
    (h : xs.map NumberText.digitOf = ys.map NumberText.digitOf) : xs = ys := by
  have hback : forall zs : List Char, (forall c, c ∈ zs -> isAsciiDigit c = true) ->
      (zs.map NumberText.digitOf).map (fun d => Char.ofNat ('0'.toNat + d)) = zs := by
    intro zs hz
    rw [List.map_map]
    exact (List.map_congr_left (fun c hc => (digitOf_range (hz c hc)).2)).trans (List.map_id zs)
  rw [← hback xs hx, h, hback ys hy]

theorem digitOf_eq_zero {c : Char} (hc : isAsciiDigit c = true)
    (h : NumberText.digitOf c = 0) : c = '0' := by
  rw [← (digitOf_range hc).2, h]
  rfl

theorem plain_decimal (h : Reads text n) (hnumber : n.isNumber = true)
    (hplain : n.isPlain = true) :
    n.decimal = Decimal.pointed (n.sign == some '-') (n.whole.map NumberText.digitOf)
        ((n.fraction.getD []).map NumberText.digitOf) ∧
      Decimal.Plain (n.whole.map NumberText.digitOf)
        ((n.fraction.getD []).map NumberText.digitOf) ∧
      ((n.sign == some '-') = true -> Decimal.unitsOf (n.whole.map NumberText.digitOf ++
        (n.fraction.getD []).map NumberText.digitOf) ≠ 0) := by
  unfold NumberText.isPlain at hplain
  simp only [Bool.and_eq_true, Option.isNone_iff_eq_none, bne_iff_ne, Bool.not_eq_true',
    Bool.and_eq_false_iff] at hplain
  rcases hplain with ⟨⟨hexponent, hlast⟩, hsign⟩
  have hdigits : forall c, c ∈ n.whole ++ n.fraction.getD [] -> isAsciiDigit c = true := h.digits
  refine ⟨?_, ⟨?_, ?_, ?_⟩, ?_⟩
  · unfold NumberText.decimal NumberText.digits NumberText.exponentOf Decimal.pointed
    rw [hexponent]
    simp
  · intro d hd
    rw [← List.map_append] at hd
    rcases List.mem_map.mp hd with ⟨c, hc, hcd⟩
    rw [← hcd]
    exact (digitOf_range (hdigits c hc)).1
  · unfold NumberText.isNumber at hnumber
    simp only [Bool.and_eq_true, Bool.or_eq_true, beq_iff_eq, Bool.not_eq_true',
      bne_iff_ne] at hnumber
    rcases hnumber.1.1.2 with hzero | ⟨hnonempty, hhead⟩
    · rw [hzero]
      exact Or.inl rfl
    · cases hwhole : n.whole with
      | nil =>
          rw [hwhole] at hnonempty
          cases hnonempty
      | cons c rest =>
          refine Or.inr ⟨NumberText.digitOf c, rest.map NumberText.digitOf, rfl, ?_⟩
          intro hc
          apply hhead
          rw [hwhole, List.head?_cons]
          exact congrArg some (digitOf_eq_zero
            (hdigits c (by rw [hwhole]; exact List.mem_cons_self)) hc)
  · rw [List.getLast?_map]
    intro hzero
    rcases Option.map_eq_some_iff.mp hzero with ⟨c, hc, hcd⟩
    apply hlast
    cases hfraction : n.fraction with
    | none =>
        rw [hfraction] at hc
        cases hc
    | some fraction =>
        rw [hfraction] at hc
        have hmem : c ∈ n.whole ++ n.fraction.getD [] := by
          rw [hfraction]
          exact List.mem_append_right _ (List.mem_of_getLast? hc)
        rw [digitOf_eq_zero (hdigits c hmem) hcd] at hc
        exact hc
  · intro hminus hunits
    rcases hsign with hplus | hsome
    · rw [hminus] at hplus
      cases hplus
    · rw [List.all_eq_false] at hsome
      rcases hsome with ⟨c, hc, hne⟩
      have hzero := Nat.digits_zero_of_eq_zero (by norm_num) hunits (NumberText.digitOf c)
      rw [List.mem_reverse, ← List.map_append] at hzero
      rw [digitOf_eq_zero (hdigits c hc) (hzero (List.mem_map_of_mem hc))] at hne
      exact hne rfl

theorem plain_text_unique {m : NumberText} (hm : Reads text m) (hn : Reads other n)
    (hmNumber : m.isNumber = true) (hnNumber : n.isNumber = true) (hmPlain : m.isPlain = true)
    (hnPlain : n.isPlain = true) (h : m.decimal.value = n.decimal.value) : text = other := by
  rcases plain_decimal hm hmNumber hmPlain with ⟨hmDecimal, hmDigits, hmSign⟩
  rcases plain_decimal hn hnNumber hnPlain with ⟨hnDecimal, hnDigits, hnSign⟩
  rw [hmDecimal, hnDecimal] at h
  rcases Decimal.pointed_inj hmDigits hnDigits hmSign hnSign h with ⟨hsign, hwhole, hfraction⟩
  have hexponents : m.exponent = none ∧ n.exponent = none := by
    unfold NumberText.isPlain at hmPlain hnPlain
    simp only [Bool.and_eq_true, Option.isNone_iff_eq_none] at hmPlain hnPlain
    exact ⟨hmPlain.1.1, hnPlain.1.1⟩
  have hsigns : m.sign = n.sign := by
    unfold NumberText.isNumber at hmNumber hnNumber
    simp only [Bool.and_eq_true, bne_iff_ne] at hmNumber hnNumber
    have hmPlus := hmNumber.1.1.1
    have hnPlus := hnNumber.1.1.1
    rcases hm.sign with hms | hms | hms <;> rcases hn.sign with hns | hns | hns <;>
      simp_all
  have hwholes : m.whole = n.whole :=
    digits_inj (fun c hc => hm.digits c (List.mem_append_left _ hc))
      (fun c hc => hn.digits c (List.mem_append_left _ hc)) hwhole
  have hfractions : m.fraction.getD [] = n.fraction.getD [] :=
    digits_inj (fun c hc => hm.digits c (List.mem_append_right _ hc))
      (fun c hc => hn.digits c (List.mem_append_right _ hc)) hfraction
  have hpoints : m.fraction = n.fraction := by
    unfold NumberText.isNumber at hmNumber hnNumber
    simp only [Bool.and_eq_true, bne_iff_ne] at hmNumber hnNumber
    have hmSome := hmNumber.1.2
    have hnSome := hnNumber.1.2
    cases hmf : m.fraction <;> cases hnf : n.fraction <;> simp_all
  rw [hm.written hexponents.1, hn.written hexponents.2, hsigns, hwholes, hpoints]

/-!
# Another text of one number
-/

def otherCase (c : Char) : Char :=
  if c = 'e' then 'E' else if c = 'E' then 'e' else c

theorem otherCase_of_ne {c : Char} (he : c ≠ 'e') (hE : c ≠ 'E') : otherCase c = c := by
  unfold otherCase
  rw [if_neg he, if_neg hE]

/-- Only the letters of exponents change, and they stay letters of exponents. -/
theorem otherCase_keeps {p : Char -> Bool} (he : p 'e' = p 'E') (c : Char) :
    p (otherCase c) = p c := by
  unfold otherCase
  split
  · rename_i hc
    rw [hc, he]
  · split
    · rename_i hc
      rw [hc, he]
    · rfl

theorem takeWhile_otherCase (text : List Char) :
    (text.map otherCase).takeWhile isAsciiDigit = text.takeWhile isAsciiDigit := by
  have hdigit : isAsciiDigit ∘ otherCase = isAsciiDigit :=
    funext (otherCase_keeps (by decide))
  rw [List.takeWhile_map, hdigit]
  refine (List.map_congr_left (g := id) ?_).trans (List.map_id _)
  intro c hc
  have hc : isAsciiDigit c = true := List.mem_takeWhile_imp hc
  apply otherCase_of_ne
  · intro heq
    rw [heq] at hc
    cases hc
  · intro heq
    rw [heq] at hc
    cases hc

theorem dropWhile_otherCase (text : List Char) :
    (text.map otherCase).dropWhile isAsciiDigit = (text.dropWhile isAsciiDigit).map otherCase := by
  have hdigit : isAsciiDigit ∘ otherCase = isAsciiDigit :=
    funext (otherCase_keeps (by decide))
  rw [List.dropWhile_map, hdigit]

theorem splitSign_otherCase (text : List Char) :
    splitSign (text.map otherCase) = ((splitSign text).1, (splitSign text).2.map otherCase) := by
  rcases text with - | ⟨c, rest⟩
  · rfl
  · by_cases hminus : c = '-'
    · rw [hminus]
      rfl
    · by_cases hplus : c = '+'
      · rw [hplus]
        rfl
      · have hother : otherCase c ≠ '-' ∧ otherCase c ≠ '+' := by
          unfold otherCase
          split
          · decide
          · split
            · decide
            · exact ⟨hminus, hplus⟩
        unfold splitSign
        simp [hminus, hplus, hother.1, hother.2]

theorem splitFraction_otherCase (text : List Char) :
    splitFraction (text.map otherCase) =
      ((splitFraction text).1, (splitFraction text).2.map otherCase) := by
  rcases text with - | ⟨c, rest⟩
  · rfl
  · by_cases hpoint : c = '.'
    · rw [hpoint]
      show (some ((rest.map otherCase).takeWhile isAsciiDigit),
        (rest.map otherCase).dropWhile isAsciiDigit) = _
      rw [takeWhile_otherCase, dropWhile_otherCase]
      rfl
    · have hother : otherCase c ≠ '.' := by
        unfold otherCase
        split
        · decide
        · split
          · decide
          · exact hpoint
      unfold splitFraction
      simp [hpoint, hother]

theorem splitExponent_otherCase (text : List Char) :
    splitExponent (text.map otherCase) =
      ((splitExponent text).1, (splitExponent text).2.map otherCase) := by
  rcases text with - | ⟨c, rest⟩
  · rfl
  · by_cases hc : c = 'e' ∨ c = 'E'
    · have hother : otherCase c = 'e' ∨ otherCase c = 'E' := by
        rcases hc with hc | hc
        · rw [hc]
          decide
        · rw [hc]
          decide
      simp only [splitExponent, List.map_cons, if_pos hother, if_pos hc, splitSign_otherCase,
        takeWhile_otherCase, dropWhile_otherCase]
    · rw [not_or] at hc
      have hsame := otherCase_of_ne hc.1 hc.2
      simp only [splitExponent, List.map_cons, hsame, if_neg (not_or.mpr hc)]

theorem splitNumber_otherCase (text : List Char) :
    splitNumber (text.map otherCase) = splitNumber text := by
  unfold splitNumber
  simp only [splitSign_otherCase, takeWhile_otherCase, dropWhile_otherCase,
    splitFraction_otherCase, splitExponent_otherCase, List.map_eq_nil_iff]

theorem splitNumber_append_zero {fraction : List Char} (h : splitNumber text = some n)
    (hexponent : n.exponent = none) (hfraction : n.fraction = some fraction) :
    splitNumber (text ++ ['0']) = some { n with fraction := some (fraction ++ ['0']) } := by
  unfold splitNumber at h ⊢
  simp only at h ⊢
  split at h
  · rename_i hleft
    cases h
    simp only at hexponent hfraction
    have hsign : splitSign (text ++ ['0']) =
        ((splitSign text).1, (splitSign text).2 ++ ['0']) := by
      rcases text with - | ⟨c, rest⟩
      · rfl
      · unfold splitSign
        split <;> simp_all
    rw [hsign]
    rcases splitFraction_cases ((splitSign text).2.dropWhile isAsciiDigit) with
      heq | ⟨rest, hrest, heq⟩
    · rw [heq] at hfraction
      cases hfraction
    · rw [heq] at hleft hexponent hfraction
      -- Nothing but digits follows the point.
      have hnone : rest.dropWhile isAsciiDigit = [] := by
        rcases splitExponent_cases (rest.dropWhile isAsciiDigit) with hsame | ⟨hsome, _⟩
        · rw [hsame] at hleft
          exact hleft
        · rw [hexponent] at hsome
          cases hsome
      have hdigits : forall c, c ∈ rest -> isAsciiDigit c = true := List.dropWhile_eq_nil_iff.mp hnone
      have hwhole := List.takeWhile_append_dropWhile (p := isAsciiDigit) (l := (splitSign text).2)
      rw [hrest] at hwhole
      have hdigits' : forall c, c ∈ rest ++ ['0'] -> isAsciiDigit c = true := by
        intro c hc
        rcases List.mem_append.mp hc with hc | hc
        · exact hdigits c hc
        · rw [List.mem_singleton.mp hc]
          rfl
      have hbefore : forall c, c ∈ (splitSign text).2.takeWhile isAsciiDigit ->
          isAsciiDigit c = true := fun c hc => List.mem_takeWhile_imp hc
      have hsplit : (splitSign text).2 ++ ['0'] =
          (splitSign text).2.takeWhile isAsciiDigit ++ '.' :: (rest ++ ['0']) := by
        conv_lhs => rw [← hwhole]
        simp
      have htake : ((splitSign text).2 ++ ['0']).takeWhile isAsciiDigit =
          (splitSign text).2.takeWhile isAsciiDigit := by
        rw [hsplit, List.takeWhile_append_of_pos hbefore,
          List.takeWhile_cons_of_neg (by decide), List.append_nil]
      have hdrop : ((splitSign text).2 ++ ['0']).dropWhile isAsciiDigit =
          '.' :: (rest ++ ['0']) := by
        rw [hsplit, List.dropWhile_append_of_pos hbefore, List.dropWhile_cons_of_neg (by decide)]
      rw [List.takeWhile_eq_self_iff.mpr hdigits, Option.some.injEq] at hfraction
      rw [htake, hdrop, ← hfraction, heq, hnone]
      simp [splitFraction, splitExponent, List.takeWhile_eq_self_iff.mpr hdigits',
        List.dropWhile_eq_nil_iff.mpr hdigits']
  · cases h

/-!
# What `auto` keeps apart
-/

theorem taken_of_split (h : splitNumber other = splitNumber text) :
    autoTakes other = autoTakes text ∧ numberOf other = numberOf text := by
  unfold autoTakes numberRe integerRe numberOf
  rw [h]
  exact ⟨rfl, rfl⟩

theorem numberOf_of_split (h : splitNumber text = some n) : numberOf text = n.decimal.value := by
  unfold numberOf
  rw [h]
  rfl

theorem split_of_autoTakes (h : autoTakes text = true) :
    exists n, splitNumber text = some n ∧ n.isNumber = true := by
  unfold autoTakes numberRe at h
  rw [Bool.and_eq_true] at h
  cases hsplit : splitNumber text with
  | none =>
      rw [hsplit] at h
      cases h.1
  | some n =>
      rw [hsplit] at h
      exact ⟨n, rfl, h.1⟩

theorem taken_append_zero {fraction : List Char} (h : splitNumber text = some n)
    (hexponent : n.exponent = none) (hfraction : n.fraction = some fraction) :
    numberOf (text ++ ['0']) = numberOf text ∧
      (autoTakes text = true -> autoTakes (text ++ ['0']) = true) := by
  have hsplit := splitNumber_append_zero h hexponent hfraction
  have hnumber : numberOf (text ++ ['0']) = numberOf text := by
    have hzero := Decimal.value_append_zero (n.sign == some '-')
      (n.digits.map NumberText.digitOf) (n.exponentOf - fraction.length)
    rw [numberOf_of_split hsplit, numberOf_of_split h]
    unfold NumberText.decimal NumberText.digits NumberText.exponentOf at hzero ⊢
    simp only [hfraction, Option.getD_some, List.length_append, List.length_singleton,
      List.map_append] at hzero ⊢
    rw [← hzero]
    push_cast
    rw [← List.append_assoc, sub_sub]
    rfl
  constructor
  · exact hnumber
  · intro htaken
    have hinteger : forall m : NumberText, m.fraction.isSome = true -> m.isInteger = false := by
      intro m hm
      unfold NumberText.isInteger
      rw [Option.isNone_eq_false_iff.mpr hm]
      simp
    unfold autoTakes numberRe integerRe at htaken ⊢
    rw [hnumber, hsplit]
    rw [h] at htaken
    simp only [Option.map_some, Option.getD_some, Bool.and_eq_true] at htaken ⊢
    refine ⟨?_, htaken.2.1, ?_⟩
    · have hnumeral := htaken.1
      unfold NumberText.isNumber NumberText.exponentDigits at hnumeral ⊢
      simp only [Bool.and_eq_true] at hnumeral ⊢
      refine ⟨⟨hnumeral.1.1, ?_⟩, hnumeral.2⟩
      simp
    · rw [hinteger _ rfl]
      rfl

structure Respells (text other : List Char) : Prop where
  trimmed : Trimmed other
  taken : autoTakes other = true
  number : numberOf text = numberOf other
  different : text ≠ other

section Respelled

variable (hsplit : splitNumber text = some n) (htaken : autoTakes text = true)
  (htrimmed : Trimmed text)

include hsplit htaken htrimmed

theorem respells_letter (hexponent : n.exponent.isSome = true) :
    Respells text (text.map otherCase) := by
  have hends := trimmed_iff.mp htrimmed
  have hsame := taken_of_split (splitNumber_otherCase text)
  have hspace : forall c, isSpace (otherCase c) = isSpace c := otherCase_keeps (by decide)
  constructor
  · rw [trimmed_iff]
    constructor
    · intro c hc
      rw [List.head?_map] at hc
      rcases Option.map_eq_some_iff.mp hc with ⟨x, hx, hxc⟩
      rw [← hxc, hspace, hends.1 x hx]
    · intro c hc
      rw [List.getLast?_map] at hc
      rcases Option.map_eq_some_iff.mp hc with ⟨x, hx, hxc⟩
      rw [← hxc, hspace, hends.2 x hx]
  · rw [hsame.1, htaken]
  · exact hsame.2.symm
  · intro heq
    have hfixed : forall c, c ∈ text -> otherCase c = c := by
      have hid : text.map otherCase = text.map id := by rw [List.map_id, ← heq]
      exact fun c hc => List.map_inj_left.mp hid c hc
    rcases (reads_of_split hsplit).letter hexponent with he | hE
    · exact absurd (hfixed 'e' he) (by decide)
    · exact absurd (hfixed 'E' hE) (by decide)

theorem respells_zero {fraction : List Char} (hexponent : n.exponent = none)
    (hfraction : n.fraction = some fraction) : Respells text (text ++ ['0']) := by
  have hends := trimmed_iff.mp htrimmed
  have hzero := taken_append_zero hsplit hexponent hfraction
  constructor
  · rw [trimmed_iff]
    constructor
    · intro c hc
      cases text with
      | nil =>
          cases hsplit
          cases hfraction
      | cons x rest => exact hends.1 c hc
    · intro c hc
      rw [List.getLast?_concat, Option.some.injEq] at hc
      rw [← hc]
      decide
  · exact hzero.2 htaken
  · exact hzero.1.symm
  · intro heq
    have hlength := congrArg List.length heq
    rw [List.length_append, List.length_singleton] at hlength
    omega

end Respelled

theorem minus_zero (h : Reads text n) (hnumber : n.isNumber = true)
    (hexponent : n.exponent = none) (hlast : n.fraction.bind List.getLast? ≠ some '0')
    (hsign : n.sign = some '-') (hzeros : forall c, c ∈ n.digits -> c = '0') :
    text = ['-', '0'] := by
  unfold NumberText.isNumber at hnumber
  simp only [Bool.and_eq_true, Bool.or_eq_true, beq_iff_eq, Bool.not_eq_true',
    bne_iff_ne] at hnumber
  have hfraction : n.fraction = none := by
    cases hf : n.fraction with
    | none => rfl
    | some fraction =>
        rcases List.eq_nil_or_concat fraction with hnil | ⟨front, c, hconcat⟩
        · rw [hf, hnil] at hnumber
          exact absurd rfl hnumber.1.2
        · rw [List.concat_eq_append] at hconcat
          have hc : c = '0' := by
            apply hzeros
            unfold NumberText.digits
            rw [hf, hconcat]
            simp
          exfalso
          apply hlast
          rw [hf, hconcat, hc]
          simp
  have hwhole : n.whole = ['0'] := by
    rcases hnumber.1.1.2 with hzero | ⟨hnonempty, hhead⟩
    · exact hzero
    · cases hcons : n.whole with
      | nil =>
          rw [hcons] at hnonempty
          cases hnonempty
      | cons c rest =>
          have hc : c = '0' := by
            apply hzeros
            unfold NumberText.digits
            rw [hcons]
            simp
          exfalso
          apply hhead
          rw [hcons, hc, List.head?_cons]
  rw [h.written hexponent, hsign, hwhole, hfraction]
  rfl

theorem exists_respelled (htaken : autoTakes text = true)
    (hplain : plainlyWritten text = false) (htrimmed : Trimmed text) :
    exists other, Respells text other := by
  rcases split_of_autoTakes htaken with ⟨n, hsplit, hnumber⟩
  unfold plainlyWritten at hplain
  rw [hsplit] at hplain
  have hplain : n.isPlain = false := hplain
  by_cases hexponent : n.exponent = none
  · by_cases hlast : n.fraction.bind List.getLast? = some '0'
    · rcases Option.bind_eq_some_iff.mp hlast with ⟨fraction, hfraction, _⟩
      exact ⟨_, respells_zero hsplit htaken htrimmed hexponent hfraction⟩
    · have hminus : n.sign = some '-' ∧ n.digits.all (· == '0') = true := by
        unfold NumberText.isPlain at hplain
        rw [hexponent] at hplain
        simpa [hlast] using hplain
      have hzeros : forall c, c ∈ n.digits -> c = '0' := by
        intro c hc
        simpa using List.all_eq_true.mp hminus.2 c hc
      rw [minus_zero (reads_of_split hsplit) hnumber hexponent hlast hminus.1 hzeros]
      exists ['0']
      exact ⟨by decide, by decide +kernel, by decide +kernel, by decide⟩
  · exact ⟨_, respells_letter hsplit htaken htrimmed (Option.isSome_iff_ne_none.mpr hexponent)⟩

/-- Prints integers, and knows the ASCII letters. -/
def integerEngine : Engine where
  numberText q := toString q.num
  words :=
    { cased := fun c => isAsciiAlphanumeric c && !isAsciiDigit c
      ignorable := fun c => c == '.' }

end Web
end FleetServer
