import Mathlib.Data.List.Basic

/-!
# Lower case

Unicode's lower case of a text.  A character is mapped alone, but for the sigma, which
is written otherwise at the end of a word, and a word ends where the properties Cased
and Case_Ignorable say so.
-/

namespace FleetServer
namespace Lowercase

/-- Every `step`-th character from `first` to `last`, mapped from `to_` on. -/
structure CaseRange where
  first : Nat
  last : Nat
  step : Nat
  to_ : Nat
deriving DecidableEq

def ranges : List CaseRange :=
  [⟨0x41, 0x5A, 1, 0x61⟩, ⟨0xC0, 0xD6, 1, 0xE0⟩, ⟨0xD8, 0xDE, 1, 0xF8⟩,
    ⟨0x100, 0x12E, 2, 0x101⟩, ⟨0x132, 0x136, 2, 0x133⟩, ⟨0x139, 0x147, 2, 0x13A⟩,
    ⟨0x14A, 0x176, 2, 0x14B⟩, ⟨0x178, 0x178, 1, 0xFF⟩, ⟨0x179, 0x17D, 2, 0x17A⟩,
    ⟨0x181, 0x181, 1, 0x253⟩, ⟨0x182, 0x184, 2, 0x183⟩, ⟨0x186, 0x186, 1, 0x254⟩,
    ⟨0x187, 0x187, 1, 0x188⟩, ⟨0x189, 0x18A, 1, 0x256⟩, ⟨0x18B, 0x18B, 1, 0x18C⟩,
    ⟨0x18E, 0x18E, 1, 0x1DD⟩, ⟨0x18F, 0x18F, 1, 0x259⟩, ⟨0x190, 0x190, 1, 0x25B⟩,
    ⟨0x191, 0x191, 1, 0x192⟩, ⟨0x193, 0x193, 1, 0x260⟩, ⟨0x194, 0x194, 1, 0x263⟩,
    ⟨0x196, 0x196, 1, 0x269⟩, ⟨0x197, 0x197, 1, 0x268⟩, ⟨0x198, 0x198, 1, 0x199⟩,
    ⟨0x19C, 0x19C, 1, 0x26F⟩, ⟨0x19D, 0x19D, 1, 0x272⟩, ⟨0x19F, 0x19F, 1, 0x275⟩,
    ⟨0x1A0, 0x1A4, 2, 0x1A1⟩, ⟨0x1A6, 0x1A6, 1, 0x280⟩, ⟨0x1A7, 0x1A7, 1, 0x1A8⟩,
    ⟨0x1A9, 0x1A9, 1, 0x283⟩, ⟨0x1AC, 0x1AC, 1, 0x1AD⟩, ⟨0x1AE, 0x1AE, 1, 0x288⟩,
    ⟨0x1AF, 0x1AF, 1, 0x1B0⟩, ⟨0x1B1, 0x1B2, 1, 0x28A⟩, ⟨0x1B3, 0x1B5, 2, 0x1B4⟩,
    ⟨0x1B7, 0x1B7, 1, 0x292⟩, ⟨0x1B8, 0x1B8, 1, 0x1B9⟩, ⟨0x1BC, 0x1BC, 1, 0x1BD⟩,
    ⟨0x1C4, 0x1C4, 1, 0x1C6⟩, ⟨0x1C5, 0x1C5, 1, 0x1C6⟩, ⟨0x1C7, 0x1C7, 1, 0x1C9⟩,
    ⟨0x1C8, 0x1C8, 1, 0x1C9⟩, ⟨0x1CA, 0x1CA, 1, 0x1CC⟩, ⟨0x1CB, 0x1DB, 2, 0x1CC⟩,
    ⟨0x1DE, 0x1EE, 2, 0x1DF⟩, ⟨0x1F1, 0x1F1, 1, 0x1F3⟩, ⟨0x1F2, 0x1F4, 2, 0x1F3⟩,
    ⟨0x1F6, 0x1F6, 1, 0x195⟩, ⟨0x1F7, 0x1F7, 1, 0x1BF⟩, ⟨0x1F8, 0x21E, 2, 0x1F9⟩,
    ⟨0x220, 0x220, 1, 0x19E⟩, ⟨0x222, 0x232, 2, 0x223⟩, ⟨0x23A, 0x23A, 1, 0x2C65⟩,
    ⟨0x23B, 0x23B, 1, 0x23C⟩, ⟨0x23D, 0x23D, 1, 0x19A⟩, ⟨0x23E, 0x23E, 1, 0x2C66⟩,
    ⟨0x241, 0x241, 1, 0x242⟩, ⟨0x243, 0x243, 1, 0x180⟩, ⟨0x244, 0x244, 1, 0x289⟩,
    ⟨0x245, 0x245, 1, 0x28C⟩, ⟨0x246, 0x24E, 2, 0x247⟩, ⟨0x370, 0x372, 2, 0x371⟩,
    ⟨0x376, 0x376, 1, 0x377⟩, ⟨0x37F, 0x37F, 1, 0x3F3⟩, ⟨0x386, 0x386, 1, 0x3AC⟩,
    ⟨0x388, 0x38A, 1, 0x3AD⟩, ⟨0x38C, 0x38C, 1, 0x3CC⟩, ⟨0x38E, 0x38F, 1, 0x3CD⟩,
    ⟨0x391, 0x3A1, 1, 0x3B1⟩, ⟨0x3A3, 0x3AB, 1, 0x3C3⟩, ⟨0x3CF, 0x3CF, 1, 0x3D7⟩,
    ⟨0x3D8, 0x3EE, 2, 0x3D9⟩, ⟨0x3F4, 0x3F4, 1, 0x3B8⟩, ⟨0x3F7, 0x3F7, 1, 0x3F8⟩,
    ⟨0x3F9, 0x3F9, 1, 0x3F2⟩, ⟨0x3FA, 0x3FA, 1, 0x3FB⟩, ⟨0x3FD, 0x3FF, 1, 0x37B⟩,
    ⟨0x400, 0x40F, 1, 0x450⟩, ⟨0x410, 0x42F, 1, 0x430⟩, ⟨0x460, 0x480, 2, 0x461⟩,
    ⟨0x48A, 0x4BE, 2, 0x48B⟩, ⟨0x4C0, 0x4C0, 1, 0x4CF⟩, ⟨0x4C1, 0x4CD, 2, 0x4C2⟩,
    ⟨0x4D0, 0x52E, 2, 0x4D1⟩, ⟨0x531, 0x556, 1, 0x561⟩, ⟨0x10A0, 0x10C5, 1, 0x2D00⟩,
    ⟨0x10C7, 0x10C7, 1, 0x2D27⟩, ⟨0x10CD, 0x10CD, 1, 0x2D2D⟩, ⟨0x13A0, 0x13EF, 1, 0xAB70⟩,
    ⟨0x13F0, 0x13F5, 1, 0x13F8⟩, ⟨0x1C89, 0x1C89, 1, 0x1C8A⟩, ⟨0x1C90, 0x1CBA, 1, 0x10D0⟩,
    ⟨0x1CBD, 0x1CBF, 1, 0x10FD⟩, ⟨0x1E00, 0x1E94, 2, 0x1E01⟩, ⟨0x1E9E, 0x1E9E, 1, 0xDF⟩,
    ⟨0x1EA0, 0x1EFE, 2, 0x1EA1⟩, ⟨0x1F08, 0x1F0F, 1, 0x1F00⟩, ⟨0x1F18, 0x1F1D, 1, 0x1F10⟩,
    ⟨0x1F28, 0x1F2F, 1, 0x1F20⟩, ⟨0x1F38, 0x1F3F, 1, 0x1F30⟩, ⟨0x1F48, 0x1F4D, 1, 0x1F40⟩,
    ⟨0x1F59, 0x1F5F, 2, 0x1F51⟩, ⟨0x1F68, 0x1F6F, 1, 0x1F60⟩, ⟨0x1F88, 0x1F8F, 1, 0x1F80⟩,
    ⟨0x1F98, 0x1F9F, 1, 0x1F90⟩, ⟨0x1FA8, 0x1FAF, 1, 0x1FA0⟩, ⟨0x1FB8, 0x1FB9, 1, 0x1FB0⟩,
    ⟨0x1FBA, 0x1FBB, 1, 0x1F70⟩, ⟨0x1FBC, 0x1FBC, 1, 0x1FB3⟩, ⟨0x1FC8, 0x1FCB, 1, 0x1F72⟩,
    ⟨0x1FCC, 0x1FCC, 1, 0x1FC3⟩, ⟨0x1FD8, 0x1FD9, 1, 0x1FD0⟩, ⟨0x1FDA, 0x1FDB, 1, 0x1F76⟩,
    ⟨0x1FE8, 0x1FE9, 1, 0x1FE0⟩, ⟨0x1FEA, 0x1FEB, 1, 0x1F7A⟩, ⟨0x1FEC, 0x1FEC, 1, 0x1FE5⟩,
    ⟨0x1FF8, 0x1FF9, 1, 0x1F78⟩, ⟨0x1FFA, 0x1FFB, 1, 0x1F7C⟩, ⟨0x1FFC, 0x1FFC, 1, 0x1FF3⟩,
    ⟨0x2126, 0x2126, 1, 0x3C9⟩, ⟨0x212A, 0x212A, 1, 0x6B⟩, ⟨0x212B, 0x212B, 1, 0xE5⟩,
    ⟨0x2132, 0x2132, 1, 0x214E⟩, ⟨0x2160, 0x216F, 1, 0x2170⟩, ⟨0x2183, 0x2183, 1, 0x2184⟩,
    ⟨0x24B6, 0x24CF, 1, 0x24D0⟩, ⟨0x2C00, 0x2C2F, 1, 0x2C30⟩, ⟨0x2C60, 0x2C60, 1, 0x2C61⟩,
    ⟨0x2C62, 0x2C62, 1, 0x26B⟩, ⟨0x2C63, 0x2C63, 1, 0x1D7D⟩, ⟨0x2C64, 0x2C64, 1, 0x27D⟩,
    ⟨0x2C67, 0x2C6B, 2, 0x2C68⟩, ⟨0x2C6D, 0x2C6D, 1, 0x251⟩, ⟨0x2C6E, 0x2C6E, 1, 0x271⟩,
    ⟨0x2C6F, 0x2C6F, 1, 0x250⟩, ⟨0x2C70, 0x2C70, 1, 0x252⟩, ⟨0x2C72, 0x2C72, 1, 0x2C73⟩,
    ⟨0x2C75, 0x2C75, 1, 0x2C76⟩, ⟨0x2C7E, 0x2C7F, 1, 0x23F⟩, ⟨0x2C80, 0x2CE2, 2, 0x2C81⟩,
    ⟨0x2CEB, 0x2CED, 2, 0x2CEC⟩, ⟨0x2CF2, 0x2CF2, 1, 0x2CF3⟩, ⟨0xA640, 0xA66C, 2, 0xA641⟩,
    ⟨0xA680, 0xA69A, 2, 0xA681⟩, ⟨0xA722, 0xA72E, 2, 0xA723⟩, ⟨0xA732, 0xA76E, 2, 0xA733⟩,
    ⟨0xA779, 0xA77B, 2, 0xA77A⟩, ⟨0xA77D, 0xA77D, 1, 0x1D79⟩, ⟨0xA77E, 0xA786, 2, 0xA77F⟩,
    ⟨0xA78B, 0xA78B, 1, 0xA78C⟩, ⟨0xA78D, 0xA78D, 1, 0x265⟩, ⟨0xA790, 0xA792, 2, 0xA791⟩,
    ⟨0xA796, 0xA7A8, 2, 0xA797⟩, ⟨0xA7AA, 0xA7AA, 1, 0x266⟩, ⟨0xA7AB, 0xA7AB, 1, 0x25C⟩,
    ⟨0xA7AC, 0xA7AC, 1, 0x261⟩, ⟨0xA7AD, 0xA7AD, 1, 0x26C⟩, ⟨0xA7AE, 0xA7AE, 1, 0x26A⟩,
    ⟨0xA7B0, 0xA7B0, 1, 0x29E⟩, ⟨0xA7B1, 0xA7B1, 1, 0x287⟩, ⟨0xA7B2, 0xA7B2, 1, 0x29D⟩,
    ⟨0xA7B3, 0xA7B3, 1, 0xAB53⟩, ⟨0xA7B4, 0xA7C2, 2, 0xA7B5⟩, ⟨0xA7C4, 0xA7C4, 1, 0xA794⟩,
    ⟨0xA7C5, 0xA7C5, 1, 0x282⟩, ⟨0xA7C6, 0xA7C6, 1, 0x1D8E⟩, ⟨0xA7C7, 0xA7C9, 2, 0xA7C8⟩,
    ⟨0xA7CB, 0xA7CB, 1, 0x264⟩, ⟨0xA7CC, 0xA7CC, 1, 0xA7CD⟩, ⟨0xA7D0, 0xA7D0, 1, 0xA7D1⟩,
    ⟨0xA7D6, 0xA7DA, 2, 0xA7D7⟩, ⟨0xA7DC, 0xA7DC, 1, 0x19B⟩, ⟨0xA7F5, 0xA7F5, 1, 0xA7F6⟩,
    ⟨0xFF21, 0xFF3A, 1, 0xFF41⟩, ⟨0x10400, 0x10427, 1, 0x10428⟩,
    ⟨0x104B0, 0x104D3, 1, 0x104D8⟩, ⟨0x10570, 0x1057A, 1, 0x10597⟩,
    ⟨0x1057C, 0x1058A, 1, 0x105A3⟩, ⟨0x1058C, 0x10592, 1, 0x105B3⟩,
    ⟨0x10594, 0x10595, 1, 0x105BB⟩, ⟨0x10C80, 0x10CB2, 1, 0x10CC0⟩,
    ⟨0x10D50, 0x10D65, 1, 0x10D70⟩, ⟨0x118A0, 0x118BF, 1, 0x118C0⟩,
    ⟨0x16E40, 0x16E5F, 1, 0x16E60⟩, ⟨0x1E900, 0x1E921, 1, 0x1E922⟩]

def CaseRange.holds (r : CaseRange) (n : Nat) : Bool :=
  decide (r.first ≤ n) && decide (n ≤ r.last) && (n - r.first) % r.step == 0

def simple (c : Char) : Char :=
  match ranges.find? fun r => r.holds c.toNat with
  | some r => Char.ofNat (r.to_ + (c.toNat - r.first))
  | none => c

/-- The two properties that say where a word ends. -/
structure Words where
  cased : Char -> Bool
  ignorable : Char -> Bool

/-- A sigma behind a letter and in front of none; `before` begins with the nearest. -/
def isFinal (words : Words) (before after : List Char) : Bool :=
  ((before.dropWhile words.ignorable).head?.map words.cased).getD false &&
    !((after.dropWhile words.ignorable).head?.map words.cased).getD false

def lowerAt (words : Words) (before : List Char) (c : Char) (after : List Char) : List Char :=
  if c = 'Σ' then [if isFinal words before after then 'ς' else 'σ']
  else if c = 'İ' then ['i', Char.ofNat 0x307]
  else [simple c]

def lowerFrom (words : Words) (before : List Char) : List Char -> List Char
  | [] => []
  | c :: after => lowerAt words before c after ++ lowerFrom words (c :: before) after

def lower (words : Words) (text : List Char) : List Char :=
  lowerFrom words [] text

/-!
# ASCII

The only other character whose lower case is in ASCII is the Kelvin sign; a dotted
capital I leaves an i with a dot behind it.
-/

variable {c : Char} {words : Words} {text before ascii tail : List Char}

def IsAscii (c : Char) : Prop :=
  c.toNat < 128

instance (c : Char) : Decidable (IsAscii c) :=
  inferInstanceAs (Decidable (_ < _))

def asciiLower (c : Char) : Char :=
  if 'A' ≤ c && c ≤ 'Z' then Char.ofNat (c.toNat + 32) else c

def kelvinSign : Char := Char.ofNat 0x212A

/-- Lower case in ASCII, with the Kelvin sign as the letter it stands for. -/
def folded (c : Char) : Char :=
  if c = kelvinSign then 'k' else asciiLower c

theorem simple_ascii (h : IsAscii c) : simple c = asciiLower c := by
  have hall : forall n : Fin 128, simple (Char.ofNat n) = asciiLower (Char.ofNat n) := by
    decide +kernel
  have hc := hall ⟨c.toNat, h⟩
  rw [Char.ofNat_toNat] at hc
  exact hc

theorem asciiLower_other (h : Not (IsAscii c)) : asciiLower c = c := by
  unfold IsAscii at h
  apply if_neg
  rw [Bool.and_eq_true, decide_eq_true_eq, decide_eq_true_eq]
  rintro ⟨-, hc⟩
  have hle : c.toNat ≤ 'Z'.toNat := hc
  have hz : 'Z'.toNat = 90 := rfl
  omega

/-- What the table maps other characters to. -/
def Outside (r : CaseRange) : Prop :=
  (128 ≤ r.to_ ∨ r.last < 128 ∨ (r.first = 0x212A ∧ r.last = 0x212A)) ∧
    (r.to_ + (r.last - r.first) < 0xD800 ∨
      (0xDFFF < r.to_ ∧ r.to_ + (r.last - r.first) < 0x110000))

instance (r : CaseRange) : Decidable (Outside r) :=
  inferInstanceAs (Decidable (_ ∧ _))

theorem ranges_outside : forall r, r ∈ ranges -> Outside r := by
  decide +kernel

theorem toNat_ofNat {n : Nat} (h : n.isValidChar) : (Char.ofNat n).toNat = n := by
  unfold Char.ofNat
  rw [dif_pos h]
  rfl

theorem simple_other (h : Not (IsAscii c)) (hkelvin : c ≠ kelvinSign) :
    Not (IsAscii (simple c)) := by
  unfold simple
  split
  · rename_i r hr
    have hrange := ranges_outside r (List.mem_of_find?_eq_some hr)
    have hholds := List.find?_some hr
    unfold CaseRange.holds at hholds
    simp only [Bool.and_eq_true, decide_eq_true_eq] at hholds
    have hnot : c.toNat ≠ 0x212A := by
      intro heq
      apply hkelvin
      rw [← Char.ofNat_toNat c, heq]
      rfl
    have hvalid : (r.to_ + (c.toNat - r.first)).isValidChar := by
      unfold Nat.isValidChar
      have hend := hrange.2
      omega
    unfold IsAscii at h ⊢
    rw [toNat_ofNat hvalid]
    have hstart := hrange.1
    omega
  · exact h

theorem lowerAt_cases (words : Words) (before : List Char) (c : Char) (after : List Char) :
    lowerAt words before c after = [folded c] ∨
      (Not (IsAscii (folded c)) ∧
        ((exists d, lowerAt words before c after = [d] ∧ Not (IsAscii d)) ∨
          exists d, lowerAt words before c after = ['i', d] ∧ Not (IsAscii d))) := by
  unfold lowerAt
  by_cases hsigma : c = 'Σ'
  · right
    rw [if_pos hsigma, hsigma]
    constructor
    · decide
    · left
      split
      · exact ⟨'ς', rfl, by decide⟩
      · exact ⟨'σ', rfl, by decide⟩
  · rw [if_neg hsigma]
    by_cases hdotted : c = 'İ'
    · right
      rw [if_pos hdotted, hdotted]
      constructor
      · decide
      · right
        exact ⟨Char.ofNat 0x307, rfl, by decide⟩
    · rw [if_neg hdotted]
      by_cases hkelvin : c = kelvinSign
      · left
        rw [hkelvin]
        decide
      · have hfolded : folded c = asciiLower c := if_neg hkelvin
        by_cases hascii : IsAscii c
        · left
          rw [hfolded, simple_ascii hascii]
        · right
          constructor
          · rw [hfolded, asciiLower_other hascii]
            exact hascii
          · left
            exact ⟨simple c, rfl, simple_other hascii hkelvin⟩

theorem lower_eq_ascii (text : List Char) :
    forall (before ascii : List Char), (forall c, c ∈ ascii -> IsAscii c) ->
      (lowerFrom words before text = ascii <-> text.map folded = ascii) := by
  induction text with
  | nil =>
      intro before ascii hascii
      rfl
  | cons c after ih =>
      intro before ascii hascii
      rw [lowerFrom, List.map_cons]
      rcases lowerAt_cases words before c after with hsame | ⟨hfolded, hother⟩
      · rw [hsame, List.singleton_append]
        cases ascii with
        | nil =>
            constructor
            · intro h
              cases h
            · intro h
              cases h
        | cons m ascii =>
            rw [List.cons.injEq, List.cons.injEq,
              ih _ _ fun d hd => hascii d (List.mem_cons_of_mem _ hd)]
      · constructor
        · intro h
          exfalso
          rcases hother with ⟨d, hd, hnot⟩ | ⟨d, hd, hnot⟩
          · rw [hd] at h
            apply hnot
            apply hascii
            rw [← h]
            exact List.mem_cons_self
          · rw [hd] at h
            apply hnot
            apply hascii
            rw [← h]
            exact List.mem_cons_of_mem _ List.mem_cons_self
        · intro h
          exfalso
          apply hfolded
          apply hascii
          rw [← h]
          exact List.mem_cons_self

theorem prefix_lower (text : List Char) :
    forall (before ascii : List Char), (forall c, c ∈ ascii -> IsAscii c) ->
      ascii.getLast? ≠ some 'i' ->
        (ascii <+: lowerFrom words before text <-> ascii <+: text.map folded) := by
  induction text with
  | nil =>
      intro before ascii hascii hlast
      rfl
  | cons c after ih =>
      intro before ascii hascii hlast
      rw [lowerFrom, List.map_cons]
      cases ascii with
      | nil =>
          constructor
          · intro _
            exact List.nil_prefix
          · intro _
            exact List.nil_prefix
      | cons m ascii =>
          have hm := hascii m List.mem_cons_self
          have hrest : forall d, d ∈ ascii -> IsAscii d :=
            fun d hd => hascii d (List.mem_cons_of_mem _ hd)
          have hlastRest : ascii.getLast? ≠ some 'i' := by
            cases ascii with
            | nil => decide
            | cons x more =>
                rw [List.getLast?_cons_cons] at hlast
                exact hlast
          rcases lowerAt_cases words before c after with hsame | ⟨hfolded, hother⟩
          · rw [hsame, List.singleton_append, List.cons_prefix_cons, List.cons_prefix_cons,
              ih _ _ hrest hlastRest]
          · constructor
            · intro h
              exfalso
              rcases hother with ⟨d, hd, hnot⟩ | ⟨d, hd, hnot⟩
              · rw [hd, List.singleton_append, List.cons_prefix_cons] at h
                rw [h.1] at hm
                exact hnot hm
              · rw [hd, List.cons_append, List.cons_prefix_cons] at h
                cases ascii with
                | nil =>
                    rw [h.1] at hlast
                    exact hlast rfl
                | cons x more =>
                    have hx := hrest x List.mem_cons_self
                    rw [List.singleton_append, List.cons_prefix_cons] at h
                    rw [h.2.1] at hx
                    exact hnot hx
            · intro h
              exfalso
              rw [List.cons_prefix_cons] at h
              rw [h.1] at hm
              exact hfolded hm

theorem lower_prefix (tail text : List Char) :
    forall (before ascii : List Char), (forall c, c ∈ ascii -> IsAscii c) ->
      (lowerFrom words before text ++ tail <+: ascii <-> text.map folded ++ tail <+: ascii) := by
  induction text with
  | nil =>
      intro before ascii hascii
      rfl
  | cons c after ih =>
      intro before ascii hascii
      rw [lowerFrom, List.map_cons]
      rcases lowerAt_cases words before c after with hsame | ⟨hfolded, hother⟩
      · rw [hsame, List.singleton_append, List.cons_append, List.cons_append]
        cases ascii with
        | nil =>
            constructor
            · intro h
              cases List.prefix_nil.mp h
            · intro h
              cases List.prefix_nil.mp h
        | cons m ascii =>
            rw [List.cons_prefix_cons, List.cons_prefix_cons,
              ih _ _ fun d hd => hascii d (List.mem_cons_of_mem _ hd)]
      · constructor
        · intro h
          exfalso
          rcases hother with ⟨d, hd, hnot⟩ | ⟨d, hd, hnot⟩
          · rw [hd] at h
            exact hnot (hascii d (h.subset List.mem_cons_self))
          · rw [hd] at h
            exact hnot (hascii d (h.subset (List.mem_cons_of_mem _ List.mem_cons_self)))
        · intro h
          exfalso
          exact hfolded (hascii _ (h.subset List.mem_cons_self))

theorem ascii_asciiLower (h : IsAscii c) : IsAscii (asciiLower c) := by
  have hall : forall n : Fin 128, IsAscii (asciiLower (Char.ofNat n)) := by
    decide +kernel
  have hc := hall ⟨c.toNat, h⟩
  rw [Char.ofNat_toNat] at hc
  exact hc

theorem folded_ascii (h : IsAscii c) : folded c = asciiLower c := by
  apply if_neg
  rintro rfl
  exact absurd h (by decide)

theorem folded_of_asciiLower (h : IsAscii (asciiLower c)) : folded c = asciiLower c := by
  apply folded_ascii
  by_contra hc
  rw [asciiLower_other hc] at h
  exact hc h

end Lowercase
end FleetServer
