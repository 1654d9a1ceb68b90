import Mathlib.Algebra.Order.Field.Power
import Mathlib.Algebra.Order.Field.Rat
import Mathlib.Data.Nat.Digits.Lemmas
import Mathlib.Tactic.FieldSimp
import Mathlib.Tactic.Linarith
import Mathlib.Tactic.Ring

/-!
# Decimal numerals

A numeral is a sign, its digits from the most significant on, and the power of ten
its last digit stands at.  Many numerals denote one number.  Among those written
with a point, without a zero too many at either end and without a sign at zero,
only one does.
-/

namespace FleetServer

structure Decimal where
  negative : Bool
  digits : List Nat
  place : Int
deriving DecidableEq

namespace Decimal

def unitsOf (digits : List Nat) : Nat :=
  Nat.ofDigits 10 digits.reverse

def sign (negative : Bool) : Rat :=
  if negative then -1 else 1

def value (d : Decimal) : Rat :=
  sign d.negative * (unitsOf d.digits * 10 ^ d.place)

def pointed (negative : Bool) (whole fraction : List Nat) : Decimal :=
  { negative := negative
    digits := whole ++ fraction
    place := -fraction.length }

/-- Digits without a zero too many. -/
structure Plain (whole fraction : List Nat) : Prop where
  digits : forall n, n ∈ whole ++ fraction -> n < 10
  front : whole = [0] ∨ exists n rest, whole = n :: rest ∧ n ≠ 0
  back : fraction.getLast? ≠ some 0

/-!
# Digits and the number they denote
-/

variable {xs ys whole fraction whole' fraction' : List Nat}

theorem unitsOf_append (xs ys : List Nat) :
    unitsOf (xs ++ ys) = unitsOf xs * 10 ^ ys.length + unitsOf ys := by
  unfold unitsOf
  rw [List.reverse_append, Nat.ofDigits_append, List.length_reverse]
  ring

theorem unitsOf_lt (hdigits : forall n, n ∈ xs -> n < 10) : unitsOf xs < 10 ^ xs.length := by
  have hlt : Nat.ofDigits 10 xs.reverse < 10 ^ xs.reverse.length := by
    apply Nat.ofDigits_lt_base_pow_length (by norm_num)
    intro n hn
    exact hdigits n (List.mem_reverse.mp hn)
  rwa [List.length_reverse] at hlt

theorem digits_unique (hx : forall n, n ∈ xs -> n < 10) (hy : forall n, n ∈ ys -> n < 10)
    (hlength : xs.length = ys.length) (h : unitsOf xs = unitsOf ys) : xs = ys := by
  have hreverse : xs.reverse = ys.reverse := by
    apply Nat.ofDigits_inj_of_len_eq (b := 10) (by norm_num) (by simpa using hlength) _ _ h
    · exact fun n hn => hx n (List.mem_reverse.mp hn)
    · exact fun n hn => hy n (List.mem_reverse.mp hn)
  exact List.reverse_inj.mp hreverse

theorem digits_unitsOf {n : Nat} (hdigits : forall m, m ∈ n :: xs -> m < 10) (hn : n ≠ 0) :
    (Nat.digits 10 (unitsOf (n :: xs))).reverse = n :: xs := by
  unfold unitsOf
  rw [Nat.digits_ofDigits 10 (by norm_num), List.reverse_reverse]
  · intro m hm
    exact hdigits m (List.mem_reverse.mp hm)
  · intro h
    simpa using hn

theorem unitsOf_ne_zero {n : Nat} (hdigits : forall m, m ∈ n :: xs -> m < 10) (hn : n ≠ 0) :
    unitsOf (n :: xs) ≠ 0 := by
  intro hzero
  have hdigits := digits_unitsOf hdigits hn
  rw [hzero] at hdigits
  cases hdigits

/-- A number whose last digit is not zero is no multiple of ten. -/
theorem not_dvd_unitsOf {n : Nat} (hn : n < 10) (hzero : n ≠ 0) (xs : List Nat) :
    ¬ 10 ∣ unitsOf (xs ++ [n]) := by
  have hunits : unitsOf (xs ++ [n]) = unitsOf xs * 10 + n := by
    rw [unitsOf_append]
    simp [unitsOf]
  omega

/-- A number without a factor of ten is written at the lower place of the two. -/
theorem place_le {m n : Nat} {p q : Int} (hm : ¬ 10 ∣ m)
    (h : (m : Rat) * 10 ^ p = n * 10 ^ q) : q ≤ p := by
  by_contra hlt
  have hten : (10 : Rat) ≠ 0 := by norm_num
  have hpow : (10 : Rat) ^ p ≠ 0 := zpow_ne_zero p hten
  rcases Int.eq_ofNat_of_zero_le (show 0 ≤ q - p - 1 by omega) with ⟨k, hk⟩
  have hq : q = p + ((k + 1 : Nat) : Int) := by
    push_cast
    omega
  rw [hq, zpow_add₀ hten, zpow_natCast] at h
  have hcast : (m : Rat) = ((n * 10 ^ (k + 1) : Nat) : Rat) := by
    apply mul_right_cancel₀ hpow
    rw [h]
    push_cast
    ring
  have hmul : m = n * 10 ^ (k + 1) := by exact_mod_cast hcast
  apply hm
  rw [hmul, pow_succ, ← mul_assoc]
  exact Nat.dvd_mul_left 10 _

theorem sign_mul_inj {a b : Bool} {x y : Rat} (hx : 0 ≤ x) (hy : 0 ≤ y)
    (h : sign a * x = sign b * y) : x = y ∧ (x ≠ 0 -> a = b) := by
  cases a <;> cases b <;> simp only [sign, if_true, Bool.false_eq_true, if_false] at h
  · exact ⟨by linarith, fun _ => rfl⟩
  · have hzero : x = 0 := by linarith
    exact ⟨by linarith, fun hne => absurd hzero hne⟩
  · have hzero : x = 0 := by linarith
    exact ⟨by linarith, fun hne => absurd hzero hne⟩
  · exact ⟨by linarith, fun _ => rfl⟩

theorem value_append_zero (negative : Bool) (digits : List Nat) (place : Int) :
    value { negative := negative, digits := digits ++ [0], place := place - 1 } =
      value { negative := negative, digits := digits, place := place } := by
  have hunits : unitsOf (digits ++ [0]) = unitsOf digits * 10 := by
    rw [unitsOf_append]
    simp [unitsOf]
  have hten : (10 : Rat) ≠ 0 := by norm_num
  unfold value
  rw [hunits, zpow_sub_one₀ hten]
  push_cast
  field_simp

/-!
# One numeral for a number
-/

/-- The longer fraction of the two would end in a zero. -/
theorem Plain.length_le (h : Plain whole fraction)
    (heq : (unitsOf (whole ++ fraction) : Rat) * 10 ^ (-fraction.length : Int) =
      unitsOf (whole' ++ fraction') * 10 ^ (-fraction'.length : Int)) :
    fraction.length ≤ fraction'.length := by
  rcases List.eq_nil_or_concat fraction with hnil | ⟨front, last, hlast⟩
  · rw [hnil]
    exact Nat.zero_le _
  · rw [List.concat_eq_append] at hlast
    have hdigit : last < 10 := by
      apply h.digits
      rw [hlast]
      simp
    have hzero : last ≠ 0 := by
      intro hzero
      apply h.back
      rw [hlast, hzero, List.getLast?_concat]
    have hdvd : ¬ 10 ∣ unitsOf (whole ++ fraction) := by
      rw [hlast, ← List.append_assoc]
      exact not_dvd_unitsOf hdigit hzero _
    have hplace := place_le hdvd heq
    omega

theorem Plain.whole_unique (h : Plain whole fraction) (h' : Plain whole' fraction')
    (heq : unitsOf whole = unitsOf whole') : whole = whole' := by
  have hdigits : forall n, n ∈ whole -> n < 10 :=
    fun n hn => h.digits n (List.mem_append_left fraction hn)
  have hdigits' : forall n, n ∈ whole' -> n < 10 :=
    fun n hn => h'.digits n (List.mem_append_left fraction' hn)
  have hnought : unitsOf [0] = 0 := rfl
  rcases h.front with hzero | ⟨n, rest, hwhole, hn⟩
  · rcases h'.front with hzero' | ⟨n', rest', hwhole', hn'⟩
    · rw [hzero, hzero']
    · rw [hwhole'] at heq hdigits'
      rw [hzero, hnought] at heq
      exact absurd heq.symm (unitsOf_ne_zero hdigits' hn')
  · rcases h'.front with hzero' | ⟨n', rest', hwhole', hn'⟩
    · rw [hwhole] at heq hdigits
      rw [hzero', hnought] at heq
      exact absurd heq (unitsOf_ne_zero hdigits hn)
    · rw [hwhole] at heq hdigits ⊢
      rw [hwhole'] at heq hdigits' ⊢
      rw [← digits_unitsOf hdigits hn, heq, digits_unitsOf hdigits' hn']

/-- A number has one numeral with a point and without a zero too many. -/
theorem pointed_inj {a b : Bool} (h : Plain whole fraction) (h' : Plain whole' fraction')
    (ha : a = true -> unitsOf (whole ++ fraction) ≠ 0)
    (hb : b = true -> unitsOf (whole' ++ fraction') ≠ 0)
    (heq : (pointed a whole fraction).value = (pointed b whole' fraction').value) :
    a = b ∧ whole = whole' ∧ fraction = fraction' := by
  have hten : forall k : Int, (0 : Rat) < 10 ^ k := fun k => zpow_pos (by norm_num) k
  have hparts := sign_mul_inj
    (mul_nonneg (Nat.cast_nonneg _) (hten (-fraction.length : Int)).le)
    (mul_nonneg (Nat.cast_nonneg _) (hten (-fraction'.length : Int)).le) heq
  have hlength : fraction.length = fraction'.length :=
    Nat.le_antisymm (h.length_le hparts.1) (h'.length_le hparts.1.symm)
  have hunits : unitsOf (whole ++ fraction) = unitsOf (whole' ++ fraction') := by
    have hcancelled := hparts.1
    rw [hlength] at hcancelled
    exact_mod_cast mul_right_cancel₀ (hten _).ne' hcancelled
  have hdigits : forall n, n ∈ fraction -> n < 10 :=
    fun n hn => h.digits n (List.mem_append_right whole hn)
  have hdigits' : forall n, n ∈ fraction' -> n < 10 :=
    fun n hn => h'.digits n (List.mem_append_right whole' hn)
  -- The digits behind the point are the remainder, those before it the quotient.
  have hlt := unitsOf_lt hdigits
  have hlt' := unitsOf_lt hdigits'
  have hsplit := hunits
  rw [unitsOf_append, unitsOf_append, ← hlength] at hsplit
  rw [← hlength] at hlt'
  have hbehind : unitsOf fraction = unitsOf fraction' := by
    have hmod := congrArg (· % 10 ^ fraction.length) hsplit
    simpa only [Nat.mul_add_mod_self_right, Nat.mod_eq_of_lt hlt, Nat.mod_eq_of_lt hlt']
      using hmod
  have hbefore : unitsOf whole = unitsOf whole' := by
    rw [hbehind] at hsplit
    exact Nat.eq_of_mul_eq_mul_right (Nat.pow_pos (by norm_num)) (Nat.add_right_cancel hsplit)
  refine ⟨?_, h.whole_unique h' hbefore, digits_unique hdigits hdigits' hlength hbehind⟩
  by_cases hzero : unitsOf (whole ++ fraction) = 0
  · cases a with
    | true => exact absurd hzero (ha rfl)
    | false =>
        cases b with
        | true => exact absurd (hunits.symm.trans hzero) (hb rfl)
        | false => rfl
  · apply hparts.2
    exact mul_ne_zero (Nat.cast_ne_zero.mpr hzero) (hten _).ne'

end Decimal

end FleetServer
