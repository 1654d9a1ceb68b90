import Mathlib.Algebra.Group.Int.Defs
import Mathlib.Algebra.Group.Nat.Defs
import Mathlib.Data.List.Sort

/-!
# Text and bytes

Strings are sequences of Unicode scalar values, bytes are lists of `UInt8`, and
lengths are UTF-8 byte lengths, as in the source.
-/

namespace FleetServer
namespace Core

abbrev Bytes : Type := List UInt8

def utf8 (s : String) : Bytes :=
  s.toUTF8.data.toList

theorem utf8_injective {s t : String} (h : utf8 s = utf8 t) : s = t := by
  unfold utf8 at h
  have hdata := Array.toList_inj.mp h
  exact String.toByteArray_inj.mp (ByteArray.ext hdata)

def byteLen (s : String) : Nat :=
  s.utf8ByteSize

theorem byteLen_ofList (xs : List Char) :
    byteLen (String.ofList xs) = xs.foldr (fun c n => c.utf8Size + n) 0 := by
  induction xs with
  | nil => rfl
  | cons x xs ih =>
      have hcons : String.ofList (x :: xs) = String.singleton x ++ String.ofList xs :=
        String.ofList_cons
      unfold byteLen at ih ⊢
      rw [hcons, String.utf8ByteSize_append, String.utf8ByteSize_singleton, ih, List.foldr_cons]

theorem byteLen_replicate (n : Nat) (c : Char) :
    byteLen (String.ofList (List.replicate n c)) = n * c.utf8Size := by
  rw [byteLen_ofList]
  induction n with
  | zero => rw [Nat.zero_mul]; rfl
  | succ n ih => rw [List.replicate_succ, List.foldr_cons, ih, Nat.succ_mul, Nat.add_comm]

/-- Unicode `White_Space`, which `str::trim` strips. -/
def isWhitespace (c : Char) : Bool :=
  let n := c.toNat
  (9 ≤ n && n ≤ 13) || n == 0x20 || n == 0x85 || n == 0xA0 || n == 0x1680 ||
    (0x2000 ≤ n && n ≤ 0x200A) || n == 0x2028 || n == 0x2029 || n == 0x202F ||
    n == 0x205F || n == 0x3000

/-- Unicode `Cc`. -/
def isControl (c : Char) : Bool :=
  let n := c.toNat
  n ≤ 0x1F || (0x7F ≤ n && n ≤ 0x9F)

def trim (s : String) : String :=
  String.ofList
    (((s.toList.dropWhile isWhitespace).reverse.dropWhile isWhitespace).reverse)

/-- The little-endian bytes of `n`, `k` of them. -/
def leBytes (n : Nat) : Nat -> Bytes
  | 0 => []
  | k + 1 => UInt8.ofNat (n % 256) :: leBytes (n / 256) k

/-- `i64::to_le_bytes`. -/
def i64LeBytes (i : Int) : Bytes :=
  leBytes (i % (2 ^ 64)).toNat 8

def hexDigit (n : Nat) : Char :=
  if n < 10 then Char.ofNat (48 + n) else Char.ofNat (87 + n)

def hex (bytes : Bytes) : String :=
  String.ofList
    (bytes.flatMap fun b => [hexDigit (b.toNat / 16), hexDigit (b.toNat % 16)])

theorem hexDigit_injective : forall m n : Fin 16, hexDigit m = hexDigit n -> m = n := by
  decide

theorem hexDigits_injective {b c : UInt8}
    (hhigh : hexDigit (b.toNat / 16) = hexDigit (c.toNat / 16))
    (hlow : hexDigit (b.toNat % 16) = hexDigit (c.toNat % 16)) : b = c := by
  have hb := b.toNat_lt
  have hc := c.toNat_lt
  have hhigh := hexDigit_injective ⟨b.toNat / 16, by omega⟩ ⟨c.toNat / 16, by omega⟩ hhigh
  have hlow := hexDigit_injective ⟨b.toNat % 16, by omega⟩ ⟨c.toNat % 16, by omega⟩ hlow
  rw [Fin.mk.injEq] at hhigh hlow
  apply UInt8.toNat_inj.mp
  omega

theorem hex_injective : forall {xs ys : Bytes}, hex xs = hex ys -> xs = ys
  | [], [], _ => rfl
  | [], y :: ys, h => by
      have hlists := congrArg String.toList h
      unfold hex at hlists
      rw [String.toList_ofList, String.toList_ofList] at hlists
      cases hlists
  | x :: xs, [], h => by
      have hlists := congrArg String.toList h
      unfold hex at hlists
      rw [String.toList_ofList, String.toList_ofList] at hlists
      cases hlists
  | x :: xs, y :: ys, h => by
      have hlists := congrArg String.toList h
      unfold hex at hlists
      rw [String.toList_ofList, String.toList_ofList, List.flatMap_cons, List.flatMap_cons]
        at hlists
      injection hlists with hhigh hrest
      injection hrest with hlow hrest
      have hsame : hex xs = hex ys := congrArg String.ofList hrest
      rw [hexDigits_injective hhigh hlow, hex_injective hsame]

def isAsciiLowercase (c : Char) : Bool :=
  'a' ≤ c && c ≤ 'z'

def isAsciiDigit (c : Char) : Bool :=
  '0' ≤ c && c ≤ '9'

def isAsciiAlphanumeric (c : Char) : Bool :=
  isAsciiLowercase c || ('A' ≤ c && c ≤ 'Z') || isAsciiDigit c

/-- The distinct elements in increasing order, as a `BTreeSet` holds them. -/
def sortedSet (xs : List String) : List String :=
  xs.dedup.insertionSort (fun a b => a ≤ b)

def sortByKey {alpha : Type} (key : alpha -> Int) (xs : List alpha) : List alpha :=
  xs.insertionSort (fun a b => key a ≤ key b)

end Core
end FleetServer
