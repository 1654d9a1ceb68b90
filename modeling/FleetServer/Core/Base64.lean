import FleetServer.Core.Text

/-!
# Base64

The standard alphabet with padding, and two readers of it: the strict one, which
takes canonical text only, and the forgiving one of the web platform, which
ignores blanks, does not need padding and drops the bits that are left over.
-/

namespace FleetServer
namespace Core
namespace Base64

def padding : Char := '='

def digitValue (c : Char) : Option Nat :=
  if 'A' ≤ c && c ≤ 'Z' then some (c.toNat - 65)
  else if 'a' ≤ c && c ≤ 'z' then some (c.toNat - 71)
  else if '0' ≤ c && c ≤ '9' then some (c.toNat + 4)
  else if c == '+' then some 62
  else if c == '/' then some 63
  else none

def digitChar (n : Nat) : Char :=
  if n < 26 then Char.ofNat (n + 65)
  else if n < 52 then Char.ofNat (n + 71)
  else if n < 62 then Char.ofNat (n - 4)
  else if n = 62 then '+'
  else '/'

def isDigit (c : Char) : Bool :=
  (digitValue c).isSome

/-- Four digits make three bytes; bits that do not fill a byte are dropped. -/
def bytesOf : List Nat -> Bytes
  | a :: b :: c :: d :: rest =>
      UInt8.ofNat (a * 4 + b / 16) :: UInt8.ofNat (b % 16 * 16 + c / 4) ::
        UInt8.ofNat (c % 4 * 64 + d) :: bytesOf rest
  | [a, b, c] => [UInt8.ofNat (a * 4 + b / 16), UInt8.ofNat (b % 16 * 16 + c / 4)]
  | [a, b] => [UInt8.ofNat (a * 4 + b / 16)]
  | _ => []

/-- The bits that do not fill a byte. -/
def leftover : List Nat -> Nat
  | _ :: _ :: _ :: _ :: rest => leftover rest
  | [_, _, c] => c % 4
  | [_, b] => b % 16
  | _ => 0

def digitsOf : Bytes -> List Nat
  | a :: b :: c :: rest =>
      (a.toNat / 4) :: (a.toNat % 4 * 16 + b.toNat / 16) ::
        (b.toNat % 16 * 4 + c.toNat / 64) :: (c.toNat % 64) :: digitsOf rest
  | [a, b] => [a.toNat / 4, a.toNat % 4 * 16 + b.toNat / 16, b.toNat % 16 * 4]
  | [a] => [a.toNat / 4, a.toNat % 4 * 16]
  | [] => []

/-- How many padding characters complete `n` digits. -/
def padCount (n : Nat) : Nat :=
  (4 - n % 4) % 4

def encode (bytes : Bytes) : List Char :=
  (digitsOf bytes).map digitChar ++ List.replicate (padCount (digitsOf bytes).length) padding

/-!
# The strict reader
-/

def decodeStandard (text : List Char) : Option Bytes :=
  let digits := text.takeWhile (fun c => c != padding)
  let rest := text.dropWhile (fun c => c != padding)
  if digits.length % 4 = 1 then none
  else if rest ≠ List.replicate (padCount digits.length) padding then none
  else
    (digits.mapM digitValue).bind fun values =>
      if leftover values = 0 then some (bytesOf values) else none

/-!
# The forgiving reader
-/

def isAsciiWhitespace (c : Char) : Bool :=
  c == '\t' || c == '\n' || c == '\x0C' || c == '\r' || c == ' '

def withoutPadding (data : List Char) : List Char -> List Char
  | '=' :: '=' :: rest => rest.reverse
  | '=' :: rest => rest.reverse
  | _ => data

def dropPadding (data : List Char) : List Char :=
  if data.length % 4 ≠ 0 then data else withoutPadding data data.reverse

def decodeForgiving (text : List Char) : Option Bytes :=
  let data := dropPadding (text.filter fun c => !isAsciiWhitespace c)
  if data.length % 4 = 1 then none
  else (data.mapM digitValue).map bytesOf

/-!
# Digits
-/

theorem digitValue_digitChar : forall n : Fin 64, digitValue (digitChar n) = some n.val := by
  decide

theorem length_bytesOf : forall values : List Nat,
    (bytesOf values).length = values.length * 6 / 8
  | a :: b :: c :: d :: rest => by
      have hrest := length_bytesOf rest
      unfold bytesOf
      simp only [List.length_cons, hrest]
      omega
  | [_, _, _] => by simp [bytesOf]
  | [_, _] => by simp [bytesOf]
  | [_] => by simp [bytesOf]
  | [] => rfl

theorem digitsOf_lt : forall bytes : Bytes, forall n, n ∈ digitsOf bytes -> n < 64
  | a :: b :: c :: rest, n, hn => by
      have ha := a.toNat_lt
      have hb := b.toNat_lt
      have hc := c.toNat_lt
      unfold digitsOf at hn
      simp only [List.mem_cons] at hn
      rcases hn with rfl | rfl | rfl | rfl | hn
      · omega
      · omega
      · omega
      · omega
      · exact digitsOf_lt rest n hn
  | [a, b], n, hn => by
      have ha := a.toNat_lt
      have hb := b.toNat_lt
      simp only [digitsOf, List.mem_cons, List.not_mem_nil, or_false] at hn
      rcases hn with rfl | rfl | rfl <;> omega
  | [a], n, hn => by
      have ha := a.toNat_lt
      simp only [digitsOf, List.mem_cons, List.not_mem_nil, or_false] at hn
      rcases hn with rfl | rfl <;> omega
  | [], n, hn => by cases hn

theorem byte_eq {b : UInt8} {n : Nat} (h : n = b.toNat) : UInt8.ofNat n = b := by
  rw [h]
  exact UInt8.ofNat_toNat

theorem bytesOf_digitsOf : forall bytes : Bytes, bytesOf (digitsOf bytes) = bytes
  | a :: b :: c :: rest => by
      have ha := a.toNat_lt
      have hb := b.toNat_lt
      have hc := c.toNat_lt
      unfold digitsOf bytesOf
      rw [bytesOf_digitsOf rest]
      congr 1
      · exact byte_eq (by omega)
      · congr 1
        · exact byte_eq (by omega)
        · congr 1
          exact byte_eq (by omega)
  | [a, b] => by
      have ha := a.toNat_lt
      have hb := b.toNat_lt
      simp only [digitsOf, bytesOf]
      congr 1
      · exact byte_eq (by omega)
      · congr 1
        exact byte_eq (by omega)
  | [a] => by
      have ha := a.toNat_lt
      simp only [digitsOf, bytesOf]
      congr 1
      exact byte_eq (by omega)
  | [] => rfl

theorem leftover_digitsOf : forall bytes : Bytes, leftover (digitsOf bytes) = 0
  | a :: b :: c :: rest => by
      unfold digitsOf leftover
      exact leftover_digitsOf rest
  | [a, b] => by
      simp only [digitsOf, leftover]
      omega
  | [a] => by
      simp only [digitsOf, leftover]
      omega
  | [] => rfl

theorem length_digitsOf : forall bytes : Bytes,
    (digitsOf bytes).length = (bytes.length * 8 + 5) / 6
  | a :: b :: c :: rest => by
      have hrest := length_digitsOf rest
      unfold digitsOf
      simp only [List.length_cons, hrest]
      omega
  | [_, _] => by simp [digitsOf]
  | [_] => by simp [digitsOf]
  | [] => rfl

theorem mapM_digitValue_digitChar :
    forall {values : List Nat}, (forall n, n ∈ values -> n < 64) ->
      (values.map digitChar).mapM digitValue = some values
  | [], _ => rfl
  | n :: rest, h => by
      have hn : digitValue (digitChar n) = some n :=
        digitValue_digitChar ⟨n, h n List.mem_cons_self⟩
      have hrest := mapM_digitValue_digitChar fun m hm => h m (List.mem_cons_of_mem _ hm)
      rw [List.map_cons, List.mapM_cons, hn, hrest]
      rfl

/-!
# What the readers read
-/

theorem isDigit_of_digitValue {c : Char} {n : Nat} (h : digitValue c = some n) :
    isDigit c = true := by
  unfold isDigit
  rw [h]
  rfl

theorem mapM_digitValue_isSome :
    forall {text : List Char}, (forall c, c ∈ text -> isDigit c = true) ->
      exists values, text.mapM digitValue = some values
  | [], _ => ⟨[], rfl⟩
  | c :: rest, h => by
      have hc : (digitValue c).isSome = true := h c List.mem_cons_self
      rcases Option.isSome_iff_exists.mp hc with ⟨n, hn⟩
      rcases mapM_digitValue_isSome fun c hc => h c (List.mem_cons_of_mem _ hc) with
        ⟨values, hvalues⟩
      refine ⟨n :: values, ?_⟩
      rw [List.mapM_cons, hn, hvalues]
      rfl

theorem mapM_digitValue_eq_some :
    forall {text : List Char} {values : List Nat}, text.mapM digitValue = some values ->
      values.length = text.length ∧ forall c, c ∈ text -> isDigit c = true
  | [], values, h => by
      cases h
      constructor
      · rfl
      · intro c hc
        cases hc
  | c :: rest, values, h => by
      rw [List.mapM_cons] at h
      rcases Option.bind_eq_some_iff.mp h with ⟨n, hn, htail⟩
      rcases Option.bind_eq_some_iff.mp htail with ⟨more, hmore, hvalues⟩
      cases hvalues
      have hrest := mapM_digitValue_eq_some hmore
      constructor
      · rw [List.length_cons, List.length_cons, hrest.1]
      · intro d hd
        rcases List.mem_cons.mp hd with rfl | hd
        · exact isDigit_of_digitValue hn
        · exact hrest.2 d hd

theorem isDigit_padding : isDigit padding = false := by
  decide

theorem ne_padding_of_isDigit {c : Char} (h : isDigit c = true) : (c != padding) = true := by
  apply bne_iff_ne.mpr
  intro heq
  rw [heq, isDigit_padding] at h
  cases h

theorem digits_append_replicate {digits : List Char} (h : forall c, c ∈ digits -> isDigit c = true)
    (n : Nat) :
    (digits ++ List.replicate n padding).takeWhile (fun c => c != padding) = digits ∧
      (digits ++ List.replicate n padding).dropWhile (fun c => c != padding)
        = List.replicate n padding := by
  have hdigits : forall c, c ∈ digits -> (c != padding) = true := fun c hc =>
    ne_padding_of_isDigit (h c hc)
  have hpads : (List.replicate n padding).takeWhile (fun c => c != padding) = [] ∧
      (List.replicate n padding).dropWhile (fun c => c != padding)
        = List.replicate n padding := by
    cases n with
    | zero => exact ⟨rfl, rfl⟩
    | succ n => exact ⟨rfl, rfl⟩
  constructor
  · rw [List.takeWhile_append_of_pos hdigits, hpads.1, List.append_nil]
  · rw [List.dropWhile_append_of_pos hdigits, hpads.2]

/-- The strict reader takes digits with exactly the padding that completes them,
and no bits left over. -/
theorem decodeStandard_eq_some {text : List Char} {bytes : Bytes} :
    decodeStandard text = some bytes <->
      exists digits values, text = digits ++ List.replicate (padCount digits.length) padding ∧
        digits.length % 4 ≠ 1 ∧ digits.mapM digitValue = some values ∧ leftover values = 0 ∧
          bytesOf values = bytes := by
  constructor
  · intro h
    unfold decodeStandard at h
    simp only at h
    split at h
    · cases h
    · rename_i hlength
      split at h
      · cases h
      · rename_i hrest
        rcases Option.bind_eq_some_iff.mp h with ⟨values, hvalues, hbytes⟩
        split at hbytes
        · rename_i hleft
          cases hbytes
          refine ⟨text.takeWhile (fun c => c != padding), values, ?_, hlength, hvalues, hleft, rfl⟩
          rw [← Decidable.not_not.mp hrest, List.takeWhile_append_dropWhile]
        · cases hbytes
  · rintro ⟨digits, values, rfl, hlength, hvalues, hleft, rfl⟩
    have hsplit := digits_append_replicate (mapM_digitValue_eq_some hvalues).2
      (padCount digits.length)
    unfold decodeStandard
    simp only [hsplit.1, hsplit.2, if_neg hlength, ne_eq, not_true_eq_false, if_false, hvalues,
      Option.bind_some, hleft, if_true]

theorem dropPadding_of_no_padding {data : List Char}
    (h : forall c, c ∈ data -> isDigit c = true) : dropPadding data = data := by
  unfold dropPadding
  split
  · rfl
  · unfold withoutPadding
    split
    · rename_i rest hreverse
      have hmem : padding ∈ data := by
        rw [← List.mem_reverse, hreverse]
        exact List.mem_cons_self
      have hpad := h _ hmem
      rw [isDigit_padding] at hpad
      cases hpad
    · rename_i rest hreverse
      have hmem : padding ∈ data := by
        rw [← List.mem_reverse, hreverse]
        exact List.mem_cons_self
      have hpad := h _ hmem
      rw [isDigit_padding] at hpad
      cases hpad
    · rfl

theorem dropPadding_padded {digits : List Char} (h : forall c, c ∈ digits -> isDigit c = true)
    (hlength : digits.length % 4 ≠ 1) :
    dropPadding (digits ++ List.replicate (padCount digits.length) padding) = digits := by
  have hwhole : (digits ++ List.replicate (padCount digits.length) padding).length % 4 = 0 := by
    rw [List.length_append, List.length_replicate]
    unfold padCount
    omega
  have hcount : padCount digits.length = 0 ∨ padCount digits.length = 1 ∨
      padCount digits.length = 2 := by
    unfold padCount
    omega
  rcases hcount with hcount | hcount | hcount
  · rw [hcount, List.replicate_zero, List.append_nil]
    exact dropPadding_of_no_padding h
  · rw [hcount] at hwhole ⊢
    unfold dropPadding
    rw [if_neg (not_not.mpr hwhole), List.reverse_append]
    show withoutPadding (digits ++ List.replicate 1 padding) ('=' :: digits.reverse) = digits
    unfold withoutPadding
    split
    · rename_i rest hreverse
      have hmem : padding ∈ digits := by
        rw [← List.mem_reverse, (List.cons.inj hreverse).2]
        exact List.mem_cons_self
      have hpad := h _ hmem
      rw [isDigit_padding] at hpad
      cases hpad
    · rename_i rest _ hreverse
      rw [← (List.cons.inj hreverse).2, List.reverse_reverse]
    · rename_i _ hother
      exact absurd rfl (hother digits.reverse)
  · rw [hcount] at hwhole ⊢
    unfold dropPadding
    rw [if_neg (not_not.mpr hwhole), List.reverse_append]
    show digits.reverse.reverse = digits
    exact List.reverse_reverse digits

theorem dropPadding_cases (data : List Char) :
    data = dropPadding data ∨
      data = dropPadding data ++ List.replicate (padCount (dropPadding data).length) padding := by
  unfold dropPadding
  split
  · exact Or.inl rfl
  · rename_i hwhole
    unfold withoutPadding
    split
    · rename_i rest hreverse
      have hdata : data = rest.reverse ++ [padding, padding] := by
        rw [← List.reverse_reverse data, hreverse]
        simp only [List.reverse_cons, List.append_assoc]
        rfl
      have hcount : padCount rest.reverse.length = 2 := by
        rw [hdata, List.length_append] at hwhole
        unfold padCount
        simp only [List.length_cons, List.length_nil] at hwhole
        omega
      rw [hcount]
      exact Or.inr hdata
    · rename_i rest _ hreverse
      have hdata : data = rest.reverse ++ [padding] := by
        rw [← List.reverse_reverse data, hreverse, List.reverse_cons]
        rfl
      have hcount : padCount rest.reverse.length = 1 := by
        rw [hdata, List.length_append] at hwhole
        unfold padCount
        simp only [List.length_cons, List.length_nil] at hwhole
        omega
      rw [hcount]
      exact Or.inr hdata
    · exact Or.inl rfl

/-- The forgiving reader takes digits, with blanks anywhere, with or without the
padding that completes them. -/
theorem decodeForgiving_eq_some {text : List Char} {bytes : Bytes} :
    decodeForgiving text = some bytes <->
      exists digits values,
        (text.filter (fun c => !isAsciiWhitespace c) = digits ∨
          text.filter (fun c => !isAsciiWhitespace c)
            = digits ++ List.replicate (padCount digits.length) padding) ∧
        digits.length % 4 ≠ 1 ∧ digits.mapM digitValue = some values ∧
          bytesOf values = bytes := by
  constructor
  · intro h
    unfold decodeForgiving at h
    simp only at h
    split at h
    · cases h
    · rename_i hlength
      rcases Option.map_eq_some_iff.mp h with ⟨values, hvalues, hbytes⟩
      have hcases := dropPadding_cases (text.filter fun c => !isAsciiWhitespace c)
      exact ⟨_, values, hcases, hlength, hvalues, hbytes⟩
  · rintro ⟨digits, values, htext, hlength, hvalues, rfl⟩
    have hdigits := (mapM_digitValue_eq_some hvalues).2
    have hdata : dropPadding (text.filter fun c => !isAsciiWhitespace c) = digits := by
      rcases htext with htext | htext
      · rw [htext]
        exact dropPadding_of_no_padding hdigits
      · rw [htext]
        exact dropPadding_padded hdigits hlength
    unfold decodeForgiving
    simp only [hdata, if_neg hlength, hvalues, Option.map_some]

theorem decodeStandard_encode (bytes : Bytes) : decodeStandard (encode bytes) = some bytes := by
  apply decodeStandard_eq_some.mpr
  have hvalues := mapM_digitValue_digitChar (digitsOf_lt bytes)
  have hlength := length_digitsOf bytes
  refine ⟨(digitsOf bytes).map digitChar, digitsOf bytes, ?_, ?_, hvalues,
    leftover_digitsOf bytes, bytesOf_digitsOf bytes⟩
  · unfold encode
    rw [List.length_map]
  · rw [List.length_map, hlength]
    omega

theorem isAsciiWhitespace_digitChar :
    forall n : Fin 64, isAsciiWhitespace (digitChar n) = false := by
  decide

theorem decodeForgiving_encode (bytes : Bytes) : decodeForgiving (encode bytes) = some bytes := by
  apply decodeForgiving_eq_some.mpr
  have hvalues := mapM_digitValue_digitChar (digitsOf_lt bytes)
  have hlength := length_digitsOf bytes
  have hblanks : (encode bytes).filter (fun c => !isAsciiWhitespace c) = encode bytes := by
    apply List.filter_eq_self.mpr
    intro c hc
    rcases List.mem_append.mp hc with hc | hc
    · rcases List.mem_map.mp hc with ⟨n, hn, rfl⟩
      rw [isAsciiWhitespace_digitChar ⟨n, digitsOf_lt bytes n hn⟩]
      rfl
    · rw [List.eq_of_mem_replicate hc]
      rfl
  refine ⟨(digitsOf bytes).map digitChar, digitsOf bytes, Or.inr ?_, ?_, hvalues,
    bytesOf_digitsOf bytes⟩
  · rw [hblanks, List.length_map]
    rfl
  · rw [List.length_map, hlength]
    omega

end Base64
end Core
end FleetServer
