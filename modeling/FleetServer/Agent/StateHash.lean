import FleetServer.Agent.DesiredState
import FleetServer.Core.Canonical

/-!
# What the state hash covers

The message under the hash is the canonical text of the configuration and seven
fields for every bundle, each behind its length.  It determines the desired
state: no two of them share one.
-/

namespace FleetServer
namespace Agent

open FleetServer.Core
open Server
open PrefixCode

/-!
# Fields
-/

theorem length_leBytes (n k : Nat) : (leBytes n k).length = k := by
  induction k generalizing n with
  | zero => rfl
  | succ k ih =>
      unfold leBytes
      rw [List.length_cons, ih]

theorem leBytes_injective {k : Nat} :
    forall {n m : Nat}, n < 256 ^ k -> m < 256 ^ k -> leBytes n k = leBytes m k -> n = m := by
  induction k with
  | zero =>
      intro n m hn hm _
      omega
  | succ k ih =>
      intro n m hn hm h
      unfold leBytes at h
      injection h with hbyte hrest
      rw [Nat.pow_succ] at hn hm
      have hdiv := ih (Nat.div_lt_of_lt_mul (by omega)) (Nat.div_lt_of_lt_mul (by omega)) hrest
      have hmod : n % 256 = m % 256 := by
        have hval := congrArg UInt8.toNat hbyte
        rw [UInt8.toNat_ofNat', UInt8.toNat_ofNat'] at hval
        omega
      omega

def FitsLength (bytes : Bytes) : Prop :=
  bytes.length < 2 ^ 64

theorem hashField_splits : Splits FitsLength anything hashField := by
  apply splits_of_header (n := 8)
  · intro bytes
    exact length_leBytes bytes.length 8
  · intro xs ys hx hy h
    exact leBytes_injective hx hy h

theorem hashField_ne_nil (bytes : Bytes) : hashField bytes ≠ [] := by
  intro h
  have hlength := congrArg List.length h
  unfold hashField at hlength
  rw [List.length_append, length_leBytes] at hlength
  simp at hlength

def IsI64 (i : Int) : Prop :=
  -2 ^ 63 ≤ i ∧ i < 2 ^ 63

theorem i64LeBytes_injective {i j : Int} (hi : IsI64 i) (hj : IsI64 j)
    (h : i64LeBytes i = i64LeBytes j) : i = j := by
  unfold IsI64 at hi hj
  have hmod : (i % 2 ^ 64).toNat = (j % 2 ^ 64).toNat :=
    leBytes_injective (by omega) (by omega) h
  omega

/-!
# Bundles
-/

/-- A descriptor as it can be held: strings no longer than memory, an `i64`
priority. -/
structure Describable (b : DesiredBundle) : Prop where
  fields : forall bytes, bytes ∈ bundleFields b -> FitsLength bytes
  priority : IsI64 b.priority

theorem bundleFields_injective {b c : DesiredBundle} (hb : Describable b) (hc : Describable c)
    (h : bundleFields b = bundleFields c) : b = c := by
  unfold bundleFields at h
  simp only [List.cons.injEq, and_true] at h
  rcases h with ⟨hid, hname, hversion, hformat, hsha, hsignature, hpriority⟩
  cases b with
  | mk id name version sha256 signature priority format =>
      cases c with
      | mk id' name' version' sha256' signature' priority' format' =>
          rw [show id = id' from utf8_injective hid, show name = name' from utf8_injective hname,
            show version = version' from utf8_injective hversion,
            show format = format' from utf8_injective hformat,
            show sha256 = sha256' from utf8_injective hsha,
            show signature = signature' from utf8_injective hsignature,
            show priority = priority' from
              i64LeBytes_injective hb.priority hc.priority hpriority]

def hashBundle (b : DesiredBundle) : Bytes :=
  (bundleFields b).flatMap hashField

theorem hashBundle_splits : Splits Describable anything hashBundle := by
  apply splits_comp (splits_flatMap hashField_splits 7)
  · intro b hb
    exact ⟨rfl, hb.fields⟩
  · intro b c hb hc h
    exact bundleFields_injective hb hc h

theorem hashBundle_ne_nil (b : DesiredBundle) : hashBundle b ≠ [] := by
  unfold hashBundle bundleFields
  rw [List.flatMap_cons]
  intro h
  exact hashField_ne_nil _ (List.append_eq_nil_iff.mp h).1

/-!
# The message
-/

structure Hashable (merged : Json) (bundles : List DesiredBundle) : Prop where
  document : merged.wellFormed = true
  text : FitsLength (utf8 merged.canonicalString)
  bundles : forall b, b ∈ bundles -> Describable b

theorem stateHashMessage_eq (merged : Json) (bundles : List DesiredBundle) :
    stateHashMessage merged bundles =
      hashField (utf8 merged.canonicalString) ++ bundles.flatMap hashBundle := by
  unfold stateHashMessage
  rw [List.flatMap_assoc]
  rfl

/-- One message, one desired state. -/
theorem stateHashMessage_eq_iff {merged merged' : Json} {bundles bundles' : List DesiredBundle}
    (h : Hashable merged bundles) (h' : Hashable merged' bundles') :
    stateHashMessage merged bundles = stateHashMessage merged' bundles' <->
      merged.alike merged' = true ∧ bundles = bundles' := by
  rw [← Json.canonicalString_eq_iff h.document h'.document, stateHashMessage_eq,
    stateHashMessage_eq]
  constructor
  · intro heq
    have hparts := hashField_splits _ _ _ _ h.text h'.text trivial trivial heq
    have hbundles := flatMap_eq hashBundle_splits (fun _ => trivial)
      (fun b _ => hashBundle_ne_nil b) bundles bundles' h.bundles h'.bundles hparts.2
    exact ⟨utf8_injective hparts.1, hbundles⟩
  · intro heq
    rw [heq.1, heq.2]

/-- Moving a character from one field to the next moves the message. -/
theorem stateHashMessage_shifted :
    let bundle := fun name version : String =>
      ({ id := "b", name := name, version := version, sha256 := "", signature := "",
         priority := -1, format := "plain" } : DesiredBundle)
    stateHashMessage (Json.object [("a", Json.number "1"), ("b", Json.null)])
        [bundle "web1" ".2"] ≠
      stateHashMessage (Json.object [("b", Json.null), ("a", Json.number "1")])
        [bundle "web" "1.2"] := by
  intro bundle heq
  have hpriority : IsI64 (-1) := ⟨by decide, by decide⟩
  have hfirst : Hashable (Json.object [("a", Json.number "1"), ("b", Json.null)])
      [bundle "web1" ".2"] := by
    refine ⟨by decide +kernel, by unfold FitsLength; decide +kernel, ?_⟩
    intro b hb
    rw [List.mem_singleton.mp hb]
    exact ⟨by unfold FitsLength; decide +kernel, hpriority⟩
  have hsecond : Hashable (Json.object [("b", Json.null), ("a", Json.number "1")])
      [bundle "web" "1.2"] := by
    refine ⟨by decide +kernel, by unfold FitsLength; decide +kernel, ?_⟩
    intro b hb
    rw [List.mem_singleton.mp hb]
    exact ⟨by unfold FitsLength; decide +kernel, hpriority⟩
  have hbundles := ((stateHashMessage_eq_iff hfirst hsecond).mp heq).2
  have hnames := congrArg (List.map DesiredBundle.name) hbundles
  exact absurd hnames (by decide +kernel)

end Agent
end FleetServer
