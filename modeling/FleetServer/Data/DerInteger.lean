import Mathlib.Tactic.Linarith
import Mathlib.Tactic.Ring

/-!
# DER integers

The content octets of a DER INTEGER are its shortest two's complement, the most
significant octet first.  An unsigned number has one such spelling.
-/

namespace FleetServer
namespace DerInteger

def unsigned : List UInt8 -> Nat
  | [] => 0
  | octet :: octets => octet.toNat * 256 ^ octets.length + unsigned octets

/-- The number octets spell in two's complement. -/
def signed : List UInt8 -> Int
  | [] => 0
  | octet :: octets =>
      if octet.toNat < 128 then unsigned (octet :: octets)
      else (unsigned (octet :: octets) : Int) - 256 ^ (octets.length + 1)

/-- The first nine bits are neither all zeros nor all ones. -/
def Minimal : List UInt8 -> Prop
  | [] => False
  | [_] => True
  | first :: second :: _ =>
      ¬ (first.toNat = 0 ∧ second.toNat < 128) ∧ ¬ (first.toNat = 255 ∧ 128 ≤ second.toNat)

/-- The content octets of the integer `i`. -/
structure IsInteger (i : Int) (octets : List UInt8) : Prop where
  minimal : Minimal octets
  value : signed octets = i

variable {n : Nat} {octet : UInt8} {xs ys : List UInt8}

theorem unsigned_lt (xs : List UInt8) : unsigned xs < 256 ^ xs.length := by
  induction xs with
  | nil => exact Nat.one_pos
  | cons x xs ih =>
      have hx := x.toNat_lt
      have hle : (x.toNat + 1) * 256 ^ xs.length ≤ 256 * 256 ^ xs.length :=
        Nat.mul_le_mul_right _ hx
      rw [unsigned, List.length_cons, Nat.pow_succ]
      linarith

/-- As many octets spell as many different numbers. -/
theorem unsigned_injective (hlength : xs.length = ys.length) (h : unsigned xs = unsigned ys) :
    xs = ys := by
  induction xs generalizing ys with
  | nil => exact (List.length_eq_zero_iff.mp hlength.symm).symm
  | cons x xs ih =>
      cases ys with
      | nil => cases hlength
      | cons y ys =>
          have hlength := Nat.succ.inj hlength
          have hx := unsigned_lt xs
          have hy := unsigned_lt ys
          rw [unsigned, unsigned, hlength] at h
          rw [hlength] at hx
          have hpos : 0 < 256 ^ ys.length := Nat.pos_of_ne_zero (by positivity)
          have hhead : x.toNat = y.toNat := by
            have hdiv := congrArg (· / 256 ^ ys.length) h
            simpa [Nat.mul_comm, Nat.mul_add_div hpos, Nat.div_eq_of_lt hx,
              Nat.div_eq_of_lt hy] using hdiv
          rw [hhead] at h
          rw [UInt8.toNat_inj.mp hhead, ih hlength (Nat.add_left_cancel h)]

theorem isInteger_unsigned (hpos : 0 < octet.toNat) (hlt : octet.toNat < 128) :
    IsInteger (unsigned (octet :: xs)) (octet :: xs) where
  minimal := by
    cases xs with
    | nil => trivial
    | cons second xs =>
        constructor
        · intro h
          omega
        · intro h
          omega
  value := if_pos hlt

theorem head_lt (h : IsInteger n (octet :: xs)) : octet.toNat < 128 := by
  by_contra hge
  have hvalue := h.value
  have hlt := unsigned_lt (octet :: xs)
  rw [signed, if_neg hge] at hvalue
  have hbound : (unsigned (octet :: xs) : Int) < 256 ^ (xs.length + 1) := by
    exact_mod_cast hlt
  omega

theorem unsigned_of_isInteger (h : IsInteger n xs) : unsigned xs = n := by
  cases xs with
  | nil => exact absurd h.minimal id
  | cons octet xs =>
      have hvalue := h.value
      rw [signed, if_pos (head_lt h)] at hvalue
      exact_mod_cast hvalue

theorem lt_of_isInteger (h : IsInteger n (octet :: xs)) : n < 128 * 256 ^ xs.length := by
  have hhead := head_lt h
  have hrest := unsigned_lt xs
  have hle : (octet.toNat + 1) * 256 ^ xs.length ≤ 128 * 256 ^ xs.length :=
    Nat.mul_le_mul_right _ hhead
  rw [← unsigned_of_isInteger h, unsigned]
  linarith

theorem le_of_isInteger {second : UInt8} (h : IsInteger n (octet :: second :: xs)) :
    128 * 256 ^ xs.length ≤ n := by
  have hpow : 0 ≤ 256 ^ xs.length := Nat.zero_le _
  have hbehind : 0 ≤ unsigned xs := Nat.zero_le _
  rw [← unsigned_of_isInteger h, unsigned, unsigned, List.length_cons, Nat.pow_succ]
  by_cases hzero : octet.toNat = 0
  · have hsecond : 128 ≤ second.toNat := by
      by_contra hlt
      exact h.minimal.1 ⟨hzero, by omega⟩
    have hle : 128 * 256 ^ xs.length ≤ second.toNat * 256 ^ xs.length :=
      Nat.mul_le_mul_right _ hsecond
    rw [hzero]
    linarith
  · have hle : 1 * (256 ^ xs.length * 256) ≤ octet.toNat * (256 ^ xs.length * 256) :=
      Nat.mul_le_mul_right _ (Nat.pos_of_ne_zero hzero)
    have hrest : 0 ≤ second.toNat * 256 ^ xs.length := Nat.zero_le _
    linarith

theorem length_le (hx : IsInteger n xs) (hy : IsInteger n ys) : xs.length ≤ ys.length := by
  cases ys with
  | nil => exact absurd hy.minimal id
  | cons y ys =>
      cases xs with
      | nil => exact Nat.zero_le _
      | cons first xs =>
          cases xs with
          | nil => exact Nat.succ_le_succ (Nat.zero_le _)
          | cons second xs =>
              have hlow := le_of_isInteger hx
              have hhigh := lt_of_isInteger hy
              have hpow : 256 ^ xs.length < 256 ^ ys.length := by linarith
              have hlength := (Nat.pow_lt_pow_iff_right (by decide)).mp hpow
              simp only [List.length_cons]
              omega

/-- An unsigned number has one spelling. -/
theorem isInteger_unique (hx : IsInteger n xs) (hy : IsInteger n ys) : xs = ys := by
  apply unsigned_injective
  · exact Nat.le_antisymm (length_le hx hy) (length_le hy hx)
  · rw [unsigned_of_isInteger hx, unsigned_of_isInteger hy]

end DerInteger
end FleetServer
