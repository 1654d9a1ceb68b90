import FleetServer.Core.Json
import FleetServer.Data.PrefixCode
import FleetServer.Data.Table
import Mathlib.Tactic.IntervalCases

/-!
# What canonical text says about a document

The canonical text of a document determines it, up to the order in which the
members of its objects are listed.
-/

namespace FleetServer
namespace Core

open PrefixCode

namespace Json

/-!
# Documents
-/

def isNumberStart (c : Char) : Bool :=
  isAsciiDigit c || c == '-'

def isNumberChar (c : Char) : Bool :=
  isAsciiDigit c || c == '-' || c == '+' || c == '.' || c == 'e' || c == 'E'

def spelledNumber (text : String) : Bool :=
  text.toList.head?.any isNumberStart && text.toList.all isNumberChar

mutual

/-- What a parsed or built value is: every key of an object once, every number
spelled as one. -/
def wellFormed : Json -> Bool
  | number text => spelledNumber text
  | array items => wellFormedItems items
  | object members => decide (members.map Prod.fst).Nodup && wellFormedMembers members
  | _ => true

def wellFormedItems : List Json -> Bool
  | [] => true
  | v :: rest => wellFormed v && wellFormedItems rest

def wellFormedMembers : List (String × Json) -> Bool
  | [] => true
  | (_, v) :: rest => wellFormed v && wellFormedMembers rest

end

mutual

/-- Equality of documents: objects without the order of their members, numbers
by their spelling. -/
def alike : Json -> Json -> Bool
  | null, null => true
  | bool a, bool b => a == b
  | number a, number b => a == b
  | string a, string b => a == b
  | array xs, array ys => alikeItems xs ys
  | object xs, object ys => xs.length == ys.length && alikeMembers xs ys
  | _, _ => false

def alikeItems : List Json -> List Json -> Bool
  | [], [] => true
  | x :: xs, y :: ys => alike x y && alikeItems xs ys
  | _, _ => false

def alikeMembers : List (String × Json) -> List (String × Json) -> Bool
  | [], _ => true
  | (key, x) :: xs, ys =>
      (match ys.lookup key with
        | some y => alike x y
        | none => false) && alikeMembers xs ys

end

theorem wellFormedMembers_iff {members : List (String × Json)} :
    wellFormedMembers members = true <->
      forall m, m ∈ members -> wellFormed m.2 = true := by
  induction members with
  | nil => simp [wellFormedMembers]
  | cons m rest ih => simp [wellFormedMembers, ih]

/-!
# Strings
-/

def hexValue (c : Char) : Nat :=
  if c.toNat < 58 then c.toNat - 48 else c.toNat - 87

def readEscaped : List Char -> Option (Char × List Char)
  | '\\' :: 'u' :: a :: b :: c :: d :: rest =>
      some (Char.ofNat (hexValue a * 4096 + hexValue b * 256 + hexValue c * 16 + hexValue d),
        rest)
  | '\\' :: 'b' :: rest => some (Char.ofNat 0x08, rest)
  | '\\' :: 't' :: rest => some (Char.ofNat 0x09, rest)
  | '\\' :: 'n' :: rest => some (Char.ofNat 0x0A, rest)
  | '\\' :: 'f' :: rest => some (Char.ofNat 0x0C, rest)
  | '\\' :: 'r' :: rest => some (Char.ofNat 0x0D, rest)
  | '\\' :: c :: rest => some (c, rest)
  | c :: rest => some (c, rest)
  | [] => none

theorem escapeChar_control (u : List Char) :
    forall n, n < 0x20 ->
      readEscaped (escapeChar (Char.ofNat n) ++ u) = some (Char.ofNat n, u) := by
  intro n hn
  interval_cases n <;> rfl

theorem eq_of_toNat {c d : Char} (h : c.toNat = d.toNat) : c = d := by
  rw [← Char.ofNat_toNat c, ← Char.ofNat_toNat d, h]

theorem escapeChar_plain {c : Char} (hlow : ¬ c.toNat < 0x20) (hquote : c ≠ '"')
    (hslash : c ≠ '\\') : escapeChar c = [c] := by
  have hnq : c.toNat ≠ 0x22 := fun h => hquote (eq_of_toNat h)
  have hns : c.toNat ≠ 0x5C := fun h => hslash (eq_of_toNat h)
  unfold escapeChar
  split
  · omega
  · omega
  · omega
  · omega
  · omega
  · omega
  · omega
  · exact if_neg hlow

theorem readEscaped_escapeChar (c : Char) (u : List Char) :
    readEscaped (escapeChar c ++ u) = some (c, u) := by
  by_cases hlow : c.toNat < 0x20
  · have h := escapeChar_control u c.toNat hlow
    rw [Char.ofNat_toNat] at h
    exact h
  · by_cases hquote : c = '"'
    · rw [hquote]
      rfl
    · by_cases hslash : c = '\\'
      · rw [hslash]
        rfl
      · rw [escapeChar_plain hlow hquote hslash]
        show readEscaped (c :: u) = some (c, u)
        unfold readEscaped
        split <;> simp_all

theorem escapeChar_ne_quote (c : Char) :
    exists d rest, escapeChar c = d :: rest ∧ d ≠ '"' := by
  by_cases hlow : c.toNat < 0x20
  · have h : forall n, n < 0x20 -> exists rest, escapeChar (Char.ofNat n) = '\\' :: rest := by
      intro n hn
      interval_cases n <;> exact ⟨_, rfl⟩
    cases h c.toNat hlow with
    | intro rest hrest =>
        rw [Char.ofNat_toNat] at hrest
        exact ⟨'\\', rest, hrest, by decide⟩
  · by_cases hquote : c = '"'
    · rw [hquote]
      exact ⟨'\\', ['"'], rfl, by decide⟩
    · by_cases hslash : c = '\\'
      · rw [hslash]
        exact ⟨'\\', ['\\'], rfl, by decide⟩
      · exact ⟨c, [], escapeChar_plain hlow hquote hslash, hquote⟩

theorem escapes_split :
    forall (xs ys u v : List Char),
      xs.flatMap escapeChar ++ '"' :: u = ys.flatMap escapeChar ++ '"' :: v ->
        xs = ys ∧ u = v
  | [], [], u, v, h => by
      injection h with _ huv
      exact ⟨rfl, huv⟩
  | [], y :: ys, u, v, h => by
      rcases escapeChar_ne_quote y with ⟨d, rest, hy, hd⟩
      rw [List.flatMap_cons, hy] at h
      injection h with hhead _
      exact absurd hhead.symm hd
  | x :: xs, [], u, v, h => by
      rcases escapeChar_ne_quote x with ⟨d, rest, hx, hd⟩
      rw [List.flatMap_cons, hx] at h
      injection h with hhead _
      exact absurd hhead hd
  | x :: xs, y :: ys, u, v, h => by
      rw [List.flatMap_cons, List.flatMap_cons, List.append_assoc, List.append_assoc] at h
      have hread := congrArg readEscaped h
      rw [readEscaped_escapeChar, readEscaped_escapeChar] at hread
      injection hread with hpair
      injection hpair with hxy hrest
      have htail := escapes_split xs ys u v hrest
      exact ⟨by rw [hxy, htail.1], htail.2⟩

theorem quote_split {s t : String} {u v : List Char} (h : quote s ++ u = quote t ++ v) :
    s = t ∧ u = v := by
  unfold quote at h
  simp only [List.cons_append, List.append_assoc, List.nil_append, List.cons.injEq,
    true_and] at h
  have hparts := escapes_split _ _ u v h
  exact ⟨String.toList_inj.mp hparts.1, hparts.2⟩

/-!
# Documents in key order

The canonical writer sorts the members of an object as it writes them.  Writing
a document that is sorted already comes to the same text.
-/

abbrev Member : Type := String × Json

def byKey (m n : Member) : Prop := m.1 ≤ n.1

instance : DecidableRel byKey :=
  fun m n => inferInstanceAs (Decidable (m.1 ≤ n.1))

mutual

def sorted : Json -> Json
  | array items => array (sortedItems items)
  | object members => object (sortedMembers members)
  | scalar => scalar

def sortedItems : List Json -> List Json
  | [] => []
  | v :: rest => sorted v :: sortedItems rest

def sortedMembers : List Member -> List Member
  | [] => []
  | (key, v) :: rest => (sortedMembers rest).orderedInsert byKey (key, sorted v)

end

mutual

def write : Json -> List Char
  | null => "null".toList
  | bool b => (if b then "true" else "false").toList
  | number text => text.toList
  | string s => quote s
  | array items => '[' :: (commaSeparated (itemTexts items) ++ [']'])
  | object members => '{' :: (commaSeparated (memberTexts members) ++ ['}'])

def itemTexts : List Json -> List (List Char)
  | [] => []
  | v :: rest => write v :: itemTexts rest

def memberTexts : List Member -> List (List Char)
  | [] => []
  | (key, v) :: rest => (quote key ++ ':' :: write v) :: memberTexts rest

end

def written (m : Member) : String × List Char :=
  (m.1, write m.2)

theorem insertMember_written (m : Member) (members : List Member) :
    insertMember (written m) (members.map written) =
      (members.orderedInsert byKey m).map written := by
  induction members with
  | nil => rfl
  | cons n rest ih =>
      rw [List.map_cons, List.orderedInsert_cons]
      unfold insertMember
      by_cases hle : byKey m n
      · rw [if_pos hle, if_pos (show (written m).1 ≤ (written n).1 from hle)]
        rfl
      · rw [if_neg hle, if_neg (show ¬ (written m).1 ≤ (written n).1 from hle), ih]
        rfl

theorem memberTexts_eq (members : List Member) :
    memberTexts members = (members.map written).map fun m => quote m.1 ++ ':' :: m.2 := by
  induction members with
  | nil => rfl
  | cons m rest ih =>
      unfold memberTexts
      rw [ih]
      rfl

mutual

theorem writeCanonical_eq : forall v : Json, writeCanonical v = write (sorted v)
  | null => rfl
  | bool _ => rfl
  | number _ => rfl
  | string _ => rfl
  | array items => by
      unfold writeCanonical sorted write
      rw [writeItems_eq items]
  | object members => by
      unfold writeCanonical sorted write
      rw [writeMembers_eq members, memberTexts_eq]

theorem writeItems_eq : forall items : List Json,
    writeItems items = itemTexts (sortedItems items)
  | [] => rfl
  | v :: rest => by
      unfold writeItems sortedItems itemTexts
      rw [writeCanonical_eq v, writeItems_eq rest]

theorem writeMembers_eq : forall members : List Member,
    writeMembers members = (sortedMembers members).map written
  | [] => rfl
  | (key, v) :: rest => by
      unfold writeMembers sortedMembers
      rw [writeCanonical_eq v, writeMembers_eq rest]
      exact insertMember_written (key, sorted v) (sortedMembers rest)

end

/-!
## What sorting keeps
-/

def sortedMember (m : Member) : Member :=
  (m.1, sorted m.2)

theorem sortedMembers_eq (members : List Member) :
    sortedMembers members = (members.map sortedMember).insertionSort byKey := by
  induction members with
  | nil => rfl
  | cons m rest ih =>
      unfold sortedMembers
      rw [ih]
      rfl

theorem sortedMembers_perm (members : List Member) :
    (sortedMembers members).Perm (members.map sortedMember) := by
  rw [sortedMembers_eq]
  exact List.perm_insertionSort byKey _

theorem map_key_sortedMember (members : List Member) :
    (members.map sortedMember).map Prod.fst = members.map Prod.fst := by
  rw [List.map_map]
  rfl

mutual

theorem wellFormed_sorted : forall v : Json, wellFormed v = true -> wellFormed (sorted v) = true
  | null, _ => rfl
  | bool _, _ => rfl
  | number _, h => h
  | string _, _ => rfl
  | array items, h => by
      unfold sorted wellFormed
      unfold wellFormed at h
      exact wellFormed_sortedItems items h
  | object members, h => by
      unfold wellFormed at h
      rw [Bool.and_eq_true, decide_eq_true_eq] at h
      have hperm := (sortedMembers_perm members).map Prod.fst
      rw [map_key_sortedMember] at hperm
      unfold sorted wellFormed
      rw [Bool.and_eq_true, decide_eq_true_eq]
      exact ⟨hperm.nodup_iff.mpr h.1, wellFormed_sortedMembers members h.2⟩

theorem wellFormed_sortedItems : forall items : List Json,
    wellFormedItems items = true -> wellFormedItems (sortedItems items) = true
  | [], _ => rfl
  | v :: rest, h => by
      unfold wellFormedItems at h
      rw [Bool.and_eq_true] at h
      unfold sortedItems wellFormedItems
      rw [wellFormed_sorted v h.1, wellFormed_sortedItems rest h.2]
      rfl

theorem wellFormed_sortedMembers : forall members : List Member,
    wellFormedMembers members = true -> wellFormedMembers (sortedMembers members) = true
  | [], _ => rfl
  | (key, v) :: rest, h => by
      unfold wellFormedMembers at h
      rw [Bool.and_eq_true] at h
      have hrest := wellFormed_sortedMembers rest h.2
      rw [wellFormedMembers_iff] at hrest ⊢
      intro m hm
      unfold sortedMembers at hm
      rw [List.mem_orderedInsert] at hm
      rcases hm with hm | hm
      · rw [hm]
        exact wellFormed_sorted v h.1
      · exact hrest m hm

end

/-!
# The text determines the document
-/

/-- Where a number ends. -/
def Stops (u : List Char) : Prop :=
  forall c, c ∈ u.head? -> isNumberChar c = false

theorem stops_cons {c : Char} (hc : isNumberChar c = false) (u : List Char) :
    Stops (c :: u) := by
  intro d hd
  cases hd
  exact hc

theorem number_split :
    forall (xs ys u v : List Char), (forall c, c ∈ xs -> isNumberChar c = true) ->
      (forall c, c ∈ ys -> isNumberChar c = true) -> Stops u -> Stops v ->
        xs ++ u = ys ++ v -> xs = ys ∧ u = v
  | [], [], u, v, _, _, _, _, h => ⟨rfl, h⟩
  | [], y :: ys, u, v, _, hy, hu, _, h => by
      have hstop := hu y (by rw [show u = y :: (ys ++ v) from h]; rfl)
      rw [hy y List.mem_cons_self] at hstop
      cases hstop
  | x :: xs, [], u, v, hx, _, _, hv, h => by
      have hstop := hv x (by rw [show v = x :: (xs ++ u) from h.symm]; rfl)
      rw [hx x List.mem_cons_self] at hstop
      cases hstop
  | x :: xs, y :: ys, u, v, hx, hy, hu, hv, h => by
      injection h with hxy hrest
      have htail := number_split xs ys u v (fun c hc => hx c (List.mem_cons_of_mem _ hc))
        (fun c hc => hy c (List.mem_cons_of_mem _ hc)) hu hv hrest
      exact ⟨by rw [hxy, htail.1], htail.2⟩

def announces (c : Char) : Nat :=
  if c == 'n' then 0
  else if c == 't' || c == 'f' then 1
  else if c == '"' then 3
  else if c == '[' then 4
  else if c == '{' then 5
  else 2

def shape : Json -> Nat
  | null => 0
  | bool _ => 1
  | number _ => 2
  | string _ => 3
  | array _ => 4
  | object _ => 5

theorem announces_number {c : Char} (h : isNumberStart c = true) : announces c = 2 := by
  have hne : forall d : Char, isNumberStart d = false -> (c == d) = false := by
    intro d hd
    rw [beq_eq_false_iff_ne]
    intro hcd
    rw [hcd, hd] at h
    cases h
  unfold announces
  rw [hne 'n' (by decide), hne 't' (by decide), hne 'f' (by decide), hne '"' (by decide),
    hne '[' (by decide), hne '{' (by decide)]
  rfl

theorem write_head (v : Json) (hv : wellFormed v = true) :
    exists c rest, write v = c :: rest ∧ announces c = shape v := by
  cases v with
  | null => exact ⟨'n', _, rfl, rfl⟩
  | bool b =>
      cases b with
      | true => exact ⟨'t', _, rfl, rfl⟩
      | false => exact ⟨'f', _, rfl, rfl⟩
  | number text =>
      unfold wellFormed spelledNumber at hv
      unfold write
      rw [Bool.and_eq_true] at hv
      cases htext : text.toList with
      | nil =>
          rw [htext] at hv
          cases hv.1
      | cons c rest =>
          rw [htext] at hv
          exact ⟨c, rest, rfl, announces_number hv.1⟩
  | string s => exact ⟨'"', _, rfl, rfl⟩
  | array items => exact ⟨'[', _, rfl, rfl⟩
  | object members => exact ⟨'{', _, rfl, rfl⟩

theorem shape_eq {a b : Json} {u v : List Char} (ha : wellFormed a = true)
    (hb : wellFormed b = true) (h : write a ++ u = write b ++ v) : shape a = shape b := by
  rcases write_head a ha with ⟨c, rest, hwrite, hc⟩
  rcases write_head b hb with ⟨d, rest', hwrite', hd⟩
  rw [hwrite, hwrite'] at h
  injection h with hcd _
  rw [← hc, ← hd, hcd]

theorem write_ne_close {v : Json} (hv : wellFormed v = true) {c : Char}
    (hc : announces c = 2) (hnumber : isNumberStart c = false) (u w : List Char) :
    write v ++ u ≠ c :: w := by
  intro h
  rcases write_head v hv with ⟨d, rest, hwrite, hd⟩
  cases v with
  | number text =>
      unfold wellFormed spelledNumber at hv
      unfold write at hwrite
      rw [hwrite, Bool.and_eq_true] at hv
      rw [show write (number text) = d :: rest from hwrite] at h
      injection h with hdc _
      have hstart : isNumberStart d = true := hv.1
      rw [hdc, hnumber] at hstart
      cases hstart
  | _ =>
      rw [hwrite] at h
      injection h with hdc _
      rw [hdc, hc] at hd
      cases hd

theorem commaSeparated_cons_cons (p q : List Char) (parts : List (List Char)) :
    commaSeparated (p :: q :: parts) = p ++ ',' :: commaSeparated (q :: parts) := rfl

theorem commaSeparated_singleton (p : List Char) : commaSeparated [p] = p := by
  unfold commaSeparated
  rw [List.intersperse_singleton, List.flatten_singleton]

theorem commaSeparated_close (p : List Char) (parts : List (List Char)) (c : Char)
    (u : List Char) :
    commaSeparated (p :: parts) ++ c :: u =
      p ++ (match parts with
        | [] => c :: u
        | q :: rest => ',' :: (commaSeparated (q :: rest) ++ c :: u)) := by
  cases parts with
  | nil => rw [commaSeparated_singleton]
  | cons q rest =>
      rw [commaSeparated_cons_cons, List.append_assoc]
      rfl

def remaining (parts : List (List Char)) (c : Char) (u : List Char) : List Char :=
  match parts with
  | [] => c :: u
  | q :: rest => ',' :: (commaSeparated (q :: rest) ++ c :: u)

theorem stops_remaining {parts : List (List Char)} {c : Char} (hc : isNumberChar c = false)
    (u : List Char) : Stops (remaining parts c u) := by
  cases parts with
  | nil => exact stops_cons hc u
  | cons q rest => exact stops_cons (by decide) _

theorem remaining_eq {ps qs : List (List Char)} {c : Char} {u v : List Char}
    (hc : c ≠ ',') (h : remaining ps c u = remaining qs c v) :
    (ps = [] ∧ qs = [] ∧ u = v) ∨ (ps ≠ [] ∧ qs ≠ [] ∧
      commaSeparated ps ++ c :: u = commaSeparated qs ++ c :: v) := by
  cases ps with
  | nil =>
      cases qs with
      | nil =>
          injection h with _ huv
          exact Or.inl ⟨rfl, rfl, huv⟩
      | cons q qs =>
          injection h with hhead _
          exact absurd hhead hc
  | cons p ps =>
      cases qs with
      | nil =>
          injection h with hhead _
          exact absurd hhead.symm hc
      | cons q qs =>
          injection h with _ hrest
          exact Or.inr ⟨List.cons_ne_nil _ _, List.cons_ne_nil _ _, hrest⟩

mutual

/-- The text of a document is told from whatever cannot continue a number. -/
theorem write_split :
    forall (a b : Json) (u v : List Char), wellFormed a = true -> wellFormed b = true ->
      Stops u -> Stops v -> write a ++ u = write b ++ v -> a = b ∧ u = v
  | null, b, u, v, ha, hb, _, _, h => by
      have hshape := shape_eq ha hb h
      cases b with
      | null => exact ⟨rfl, List.append_cancel_left h⟩
      | _ => cases hshape
  | bool x, b, u, v, ha, hb, _, _, h => by
      have hshape := shape_eq ha hb h
      cases b with
      | bool y =>
          cases x with
          | true =>
              cases y with
              | true => exact ⟨rfl, List.append_cancel_left h⟩
              | false =>
                  injection h with hhead _
                  exact absurd hhead (by decide)
          | false =>
              cases y with
              | true =>
                  injection h with hhead _
                  exact absurd hhead (by decide)
              | false => exact ⟨rfl, List.append_cancel_left h⟩
      | _ => cases hshape
  | number s, b, u, v, ha, hb, hu, hv, h => by
      have hshape := shape_eq ha hb h
      cases b with
      | number t =>
          unfold wellFormed spelledNumber at ha hb
          rw [Bool.and_eq_true, List.all_eq_true] at ha hb
          have hparts := number_split s.toList t.toList u v ha.2 hb.2 hu hv h
          rw [String.toList_inj.mp hparts.1]
          exact ⟨rfl, hparts.2⟩
      | _ => cases hshape
  | string s, b, u, v, ha, hb, _, _, h => by
      have hshape := shape_eq ha hb h
      cases b with
      | string t =>
          have hparts := quote_split (s := s) (t := t) h
          rw [hparts.1]
          exact ⟨rfl, hparts.2⟩
      | _ => cases hshape
  | array xs, b, u, v, ha, hb, _, _, h => by
      have hshape := shape_eq ha hb h
      cases b with
      | array ys =>
          unfold wellFormed at ha hb
          unfold write at h
          rw [List.cons_append, List.cons_append, List.append_assoc, List.append_assoc] at h
          injection h with _ h
          have hparts := items_split xs ys u v ha hb h
          rw [hparts.1]
          exact ⟨rfl, hparts.2⟩
      | _ => cases hshape
  | object xs, b, u, v, ha, hb, _, _, h => by
      have hshape := shape_eq ha hb h
      cases b with
      | object ys =>
          unfold wellFormed at ha hb
          rw [Bool.and_eq_true] at ha hb
          unfold write at h
          rw [List.cons_append, List.cons_append, List.append_assoc, List.append_assoc] at h
          injection h with _ h
          have hparts := members_split xs ys u v ha.2 hb.2 h
          rw [hparts.1]
          exact ⟨rfl, hparts.2⟩
      | _ => cases hshape

theorem items_split :
    forall (xs ys : List Json) (u v : List Char), wellFormedItems xs = true ->
      wellFormedItems ys = true ->
        commaSeparated (itemTexts xs) ++ ']' :: u = commaSeparated (itemTexts ys) ++ ']' :: v ->
          xs = ys ∧ u = v
  | [], [], u, v, _, _, h => by
      injection h with _ huv
      exact ⟨rfl, huv⟩
  | [], y :: ys, u, v, _, hy, h => by
      unfold wellFormedItems at hy
      rw [Bool.and_eq_true] at hy
      unfold itemTexts at h
      rw [commaSeparated_close] at h
      exact absurd h.symm (write_ne_close hy.1 (by decide) (by decide) _ _)
  | x :: xs, [], u, v, hx, _, h => by
      unfold wellFormedItems at hx
      rw [Bool.and_eq_true] at hx
      unfold itemTexts at h
      rw [commaSeparated_close] at h
      exact absurd h (write_ne_close hx.1 (by decide) (by decide) _ _)
  | x :: xs, y :: ys, u, v, hx, hy, h => by
      unfold wellFormedItems at hx hy
      rw [Bool.and_eq_true] at hx hy
      unfold itemTexts at h
      rw [commaSeparated_close, commaSeparated_close] at h
      have hhead := write_split x y (remaining (itemTexts xs) ']' u)
        (remaining (itemTexts ys) ']' v) hx.1 hy.1 (stops_remaining (by decide) u)
        (stops_remaining (by decide) v) h
      rw [hhead.1]
      rcases remaining_eq (by decide) hhead.2 with ⟨hxs, hys, huv⟩ | ⟨_, _, hrest⟩
      · cases xs with
        | nil =>
            cases ys with
            | nil => exact ⟨rfl, huv⟩
            | cons y' ys => cases hys
        | cons x' xs => cases hxs
      · have htail := items_split xs ys u v hx.2 hy.2 hrest
        rw [htail.1]
        exact ⟨rfl, htail.2⟩

theorem members_split :
    forall (xs ys : List Member) (u v : List Char), wellFormedMembers xs = true ->
      wellFormedMembers ys = true ->
        commaSeparated (memberTexts xs) ++ '}' :: u =
          commaSeparated (memberTexts ys) ++ '}' :: v -> xs = ys ∧ u = v
  | [], [], u, v, _, _, h => by
      injection h with _ huv
      exact ⟨rfl, huv⟩
  | [], (k, y) :: ys, u, v, _, _, h => by
      unfold memberTexts at h
      rw [commaSeparated_close] at h
      injection h with hhead _
      exact absurd hhead (by decide)
  | (k, x) :: xs, [], u, v, _, _, h => by
      unfold memberTexts at h
      rw [commaSeparated_close] at h
      injection h with hhead _
      exact absurd hhead (by decide)
  | (k, x) :: xs, (l, y) :: ys, u, v, hx, hy, h => by
      unfold wellFormedMembers at hx hy
      rw [Bool.and_eq_true] at hx hy
      unfold memberTexts at h
      rw [commaSeparated_close, commaSeparated_close, List.append_assoc, List.append_assoc] at h
      have hkey := quote_split h
      injection hkey.2 with _ hvalue
      have hhead := write_split x y (remaining (memberTexts xs) '}' u)
        (remaining (memberTexts ys) '}' v) hx.1 hy.1 (stops_remaining (by decide) u)
        (stops_remaining (by decide) v) hvalue
      rw [hkey.1, hhead.1]
      rcases remaining_eq (by decide) hhead.2 with ⟨hxs, hys, huv⟩ | ⟨_, _, hrest⟩
      · cases xs with
        | nil =>
            cases ys with
            | nil => exact ⟨rfl, huv⟩
            | cons y' ys => cases hys
        | cons x' xs => cases hxs
      · have htail := members_split xs ys u v hx.2 hy.2 hrest
        rw [htail.1]
        exact ⟨rfl, htail.2⟩

end

theorem sorted_eq_of_writeCanonical {a b : Json} (ha : wellFormed a = true)
    (hb : wellFormed b = true) (h : writeCanonical a = writeCanonical b) :
    sorted a = sorted b := by
  rw [writeCanonical_eq, writeCanonical_eq] at h
  have hstops : Stops [] := fun c hc => by cases hc
  apply (write_split (sorted a) (sorted b) [] [] (wellFormed_sorted a ha)
    (wellFormed_sorted b hb) hstops hstops _).1
  rw [h]

/-!
## Equal documents
-/

theorem byKey_total (m n : Member) : byKey m n ∨ byKey n m :=
  String.le_total m.1 n.1

theorem byKey_trans {m n o : Member} (h : byKey m n) (h' : byKey n o) : byKey m o :=
  String.le_trans h h'

instance : Std.Total byKey := ⟨byKey_total⟩

instance : IsTrans Member byKey := ⟨fun _ _ _ => byKey_trans⟩

theorem insertionSort_eq_of_perm {xs ys : List Member} (hnodup : (xs.map Prod.fst).Nodup)
    (h : xs.Perm ys) : xs.insertionSort byKey = ys.insertionSort byKey := by
  have hx := List.perm_insertionSort byKey xs
  have hy := List.perm_insertionSort byKey ys
  apply List.Perm.eq_of_pairwise _ (List.pairwise_insertionSort byKey xs)
    (List.pairwise_insertionSort byKey ys) (hx.trans (h.trans hy.symm))
  intro m n hm hn hmn hnm
  have hkey : m.1 = n.1 := String.le_antisymm hmn hnm
  exact List.inj_on_of_nodup_map hnodup (hx.mem_iff.mp hm) (h.mem_iff.mpr (hy.mem_iff.mp hn))
    hkey

theorem sortedMembers_eq_iff {xs ys : List Member} (hx : (xs.map Prod.fst).Nodup) :
    sortedMembers xs = sortedMembers ys <->
      xs.length = ys.length ∧
        forall m, m ∈ xs -> sortedMember m ∈ ys.map sortedMember := by
  rw [← map_key_sortedMember] at hx
  constructor
  · intro h
    have hperm : (xs.map sortedMember).Perm (ys.map sortedMember) :=
      (sortedMembers_perm xs).symm.trans (h ▸ sortedMembers_perm ys)
    have hlength := hperm.length_eq
    rw [List.length_map, List.length_map] at hlength
    exact ⟨hlength, fun m hm => hperm.mem_iff.mp (List.mem_map_of_mem hm)⟩
  · intro h
    have hsubset : xs.map sortedMember ⊆ ys.map sortedMember := by
      intro n hn
      rcases List.mem_map.mp hn with ⟨m, hm, heq⟩
      rw [← heq]
      exact h.2 m hm
    have hnodup : (xs.map sortedMember).Nodup := List.Nodup.of_map Prod.fst hx
    have hperm := (List.subperm_of_subset hnodup hsubset).perm_of_length_le (by
      rw [List.length_map, List.length_map, h.1])
    rw [sortedMembers_eq, sortedMembers_eq]
    exact insertionSort_eq_of_perm hx hperm

mutual

theorem alike_iff : forall a b : Json, wellFormed a = true -> wellFormed b = true ->
    (alike a b = true <-> sorted a = sorted b)
  | null, b, _, _ => by
      cases b <;> simp [alike, sorted]
  | bool x, b, _, _ => by
      cases b <;> simp [alike, sorted]
  | number s, b, _, _ => by
      cases b <;> simp [alike, sorted]
  | string s, b, _, _ => by
      cases b <;> simp [alike, sorted]
  | array xs, b, ha, hb => by
      cases b with
      | array ys =>
          unfold wellFormed at ha hb
          unfold alike sorted
          rw [alikeItems_iff xs ys ha hb, array.injEq]
      | _ => simp [alike, sorted]
  | object xs, b, ha, hb => by
      cases b with
      | object ys =>
          unfold wellFormed at ha hb
          rw [Bool.and_eq_true, decide_eq_true_eq] at ha hb
          unfold alike sorted
          rw [Bool.and_eq_true, beq_iff_eq, alikeMembers_iff xs ys ha.2 hb.2 hb.1,
            object.injEq, sortedMembers_eq_iff ha.1]
      | _ => simp [alike, sorted]

theorem alikeItems_iff : forall xs ys : List Json, wellFormedItems xs = true ->
    wellFormedItems ys = true -> (alikeItems xs ys = true <-> sortedItems xs = sortedItems ys)
  | [], ys, _, _ => by
      cases ys <;> simp [alikeItems, sortedItems]
  | x :: xs, ys, hx, hy => by
      cases ys with
      | nil => simp [alikeItems, sortedItems]
      | cons y ys =>
          unfold wellFormedItems at hx hy
          rw [Bool.and_eq_true] at hx hy
          unfold alikeItems sortedItems
          rw [Bool.and_eq_true, alike_iff x y hx.1 hy.1, alikeItems_iff xs ys hx.2 hy.2,
            List.cons.injEq]

theorem alikeMembers_iff : forall xs ys : List Member, wellFormedMembers xs = true ->
    wellFormedMembers ys = true -> (ys.map Prod.fst).Nodup ->
      (alikeMembers xs ys = true <->
        forall m, m ∈ xs -> sortedMember m ∈ ys.map sortedMember)
  | [], ys, _, _, _ => by
      simp [alikeMembers]
  | (key, x) :: xs, ys, hx, hy, hnodup => by
      unfold wellFormedMembers at hx
      rw [Bool.and_eq_true] at hx
      have hvalues := wellFormedMembers_iff.mp hy
      unfold alikeMembers
      rw [Bool.and_eq_true, alikeMembers_iff xs ys hx.2 hy hnodup, List.forall_mem_cons]
      apply and_congr_left
      intro _
      constructor
      · intro h
        split at h
        · rename_i y hlookup
          have hmem := Table.mem_of_lookup hlookup
          have heq := (alike_iff x y hx.1 (hvalues _ hmem)).mp h
          rw [List.mem_map]
          exact ⟨(key, y), hmem, by unfold sortedMember; rw [heq]⟩
        · cases h
      · intro h
        rcases List.mem_map.mp h with ⟨⟨l, y⟩, hmem, heq⟩
        injection heq with hkey hvalue
        rw [show l = key from hkey] at hmem
        rw [Table.lookup_of_mem hnodup hmem]
        exact (alike_iff x y hx.1 (hvalues _ hmem)).mpr hvalue.symm

end

/-- Canonical texts are equal exactly for equal documents. -/
theorem canonicalString_eq_iff {a b : Json} (ha : wellFormed a = true)
    (hb : wellFormed b = true) :
    a.canonicalString = b.canonicalString <-> alike a b = true := by
  rw [alike_iff a b ha hb]
  unfold canonicalString
  constructor
  · intro h
    have htext := congrArg String.toList h
    rw [String.toList_ofList, String.toList_ofList] at htext
    exact sorted_eq_of_writeCanonical ha hb htext
  · intro h
    rw [writeCanonical_eq, writeCanonical_eq, h]

end Json

end Core
end FleetServer
