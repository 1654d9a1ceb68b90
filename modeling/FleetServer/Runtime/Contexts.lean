import FleetServer.Core.BundleKey
import FleetServer.Data.PrefixCode
import FleetServer.Runtime.Rebound

/-!
# Contexts are unambiguous

The bytes a signature covers say which bundle it is about, and the associated data
of a ciphertext says what it holds and whose it is.  Both list their fields after
NULs, so nothing signed or sealed for one purpose passes for another.
-/

namespace FleetServer
namespace Runtime

open FleetServer.Core
open PrefixCode
open Server
open Rebind (IdealAead)

def NulFree (s : String) : Prop :=
  Char.ofNat 0 ∉ s.toList

instance (s : String) : Decidable (NulFree s) :=
  inferInstanceAs (Decidable (Char.ofNat 0 ∉ s.toList))

/-!
# Zero bytes
-/

theorem ofNat_ne_zero {n m : Nat} (hn : 0 < n) (hm : 0 < m) (hsum : n + m ≤ 256) (a : Nat) :
    (0 : UInt8) ≠ UInt8.ofNat (a % n + m) := by
  intro heq
  have hvalue := congrArg UInt8.toNat heq
  have hmod := Nat.mod_lt a hn
  rw [UInt8.toNat_ofNat', Nat.mod_eq_of_lt (by omega)] at hvalue
  have hzero : (0 : UInt8).toNat = 0 := rfl
  omega

theorem eq_nul_of_zero_mem {c : Char} (h : (0 : UInt8) ∈ String.utf8EncodeChar c) :
    c = Char.ofNat 0 := by
  have hlead2 := @ofNat_ne_zero 0x20 0xc0 (by decide) (by decide) (by decide)
  have hlead3 := @ofNat_ne_zero 0x10 0xe0 (by decide) (by decide) (by decide)
  have hlead4 := @ofNat_ne_zero 0x08 0xf0 (by decide) (by decide) (by decide)
  have hrest := @ofNat_ne_zero 0x40 0x80 (by decide) (by decide) (by decide)
  unfold String.utf8EncodeChar at h
  simp only at h
  split at h
  · have hvalue := congrArg UInt8.toNat (List.mem_singleton.mp h)
    rw [UInt8.toNat_ofNat'] at hvalue
    have hzero : (0 : UInt8).toNat = 0 := rfl
    apply Char.ext
    apply UInt32.toNat_inj.mp
    show c.val.toNat = 0
    omega
  · exfalso
    split at h
    · simp only [List.mem_cons, List.not_mem_nil, or_false, hlead2, hrest] at h
    · split at h
      · simp only [List.mem_cons, List.not_mem_nil, or_false, hlead3, hrest] at h
      · simp only [List.mem_cons, List.not_mem_nil, or_false, hlead4, hrest] at h

theorem zero_not_mem_of_nulFree {s : String} (h : NulFree s) : (0 : UInt8) ∉ utf8 s := by
  rw [utf8_eq_flatMap]
  intro hmem
  rcases List.mem_flatMap.mp hmem with ⟨c, hc, hzero⟩
  rw [eq_nul_of_zero_mem hzero] at hc
  exact h hc

/-!
# Decimal numbers
-/

theorem isDigit_of_mem_repr {n : Nat} {c : Char} (h : c ∈ n.repr.toList) : c.isDigit = true := by
  unfold Nat.repr at h
  rw [String.toList_ofList] at h
  exact Nat.isDigit_of_mem_toDigits (by decide) (by decide) h

theorem repr_injective {m n : Nat} (h : m.repr = n.repr) : m = n := by
  have hdigits : Nat.toDigits 10 m = Nat.toDigits 10 n := by
    have hlists := congrArg String.toList h
    unfold Nat.repr at hlists
    rwa [String.toList_ofList, String.toList_ofList] at hlists
  rw [← Nat.ofDigitChars_toDigits (n := m) (by decide : 1 < 10) (by decide), hdigits,
    Nat.ofDigitChars_toDigits (by decide) (by decide)]

theorem toString_injective {a b : Int} (h : toString a = toString b) : a = b := by
  -- A number below zero is told from the others by its sign.
  have hsign : forall m n : Nat, Int.repr (Int.ofNat m) ≠ Int.repr (Int.negSucc n) := by
    intro m n heq
    have hmem : '-' ∈ (m.repr).toList := by
      have hlists : m.repr.toList = '-' :: (n + 1).repr.toList :=
        (congrArg String.toList heq).trans String.toList_append
      rw [hlists]
      exact List.mem_cons_self
    cases isDigit_of_mem_repr hmem
  have heq : Int.repr a = Int.repr b := h
  cases a with
  | ofNat m =>
      cases b with
      | ofNat n => exact congrArg Int.ofNat (repr_injective heq)
      | negSucc n => exact absurd heq (hsign m n)
  | negSucc m =>
      cases b with
      | ofNat n => exact absurd heq.symm (hsign n m)
      | negSucc n =>
          have hlists := congrArg String.toList heq
          have hsucc : (m + 1).repr = (n + 1).repr := by
            apply String.toList_inj.mp
            have happend : '-' :: (m + 1).repr.toList = '-' :: (n + 1).repr.toList :=
              String.toList_append.symm.trans (hlists.trans String.toList_append)
            exact List.tail_eq_of_cons_eq happend
          rw [Nat.succ.inj (repr_injective hsucc)]

theorem nulFree_toString (a : Int) : NulFree (toString a) := by
  have hrepr : forall n : Nat, NulFree n.repr := by
    intro n hmem
    cases isDigit_of_mem_repr hmem
  cases a with
  | ofNat n => exact hrepr n
  | negSucc n =>
      intro hmem
      have hlist : (toString (Int.negSucc n)).toList = '-' :: (n + 1).repr.toList :=
        String.toList_append
      rw [hlist] at hmem
      cases List.mem_cons.mp hmem with
      | inl hhead => cases hhead
      | inr htail => exact hrepr (n + 1) htail

/-!
# Separated fields
-/

theorem splits_field :
    Splits NulFree (endOr 0) (fun field : String => (0 : UInt8) :: utf8 field) := by
  apply splits_comp (splits_of_separator (0 : UInt8))
  · intro s hs
    exact zero_not_mem_of_nulFree hs
  · intro s t _ _ heq
    exact utf8_injective heq

theorem endOr_fields (fields : List String) :
    endOr 0 (fields.flatMap fun field => (0 : UInt8) :: utf8 field) := by
  cases fields with
  | nil => exact Or.inl rfl
  | cons field fields => exact Or.inr ⟨_, List.flatMap_cons⟩

theorem nulSeparated_injective {domain : String} {xs ys : List String}
    (hx : forall x, x ∈ xs -> NulFree x) (hy : forall y, y ∈ ys -> NulFree y)
    (h : nulSeparated domain xs = nulSeparated domain ys) : xs = ys := by
  apply flatMap_eq splits_field endOr_fields _ xs ys hx hy
  · exact List.append_cancel_left h
  · intro field _
    exact List.cons_ne_nil _ _

/-- The first field is told from what follows it, whatever that holds. -/
theorem nulSeparated_cons {domain x y : String} {xs ys : List String} (hx : NulFree x)
    (hy : NulFree y) (h : nulSeparated domain (x :: xs) = nulSeparated domain (y :: ys)) :
    x = y ∧ nulSeparated domain xs = nulSeparated domain ys := by
  have hfields : (0 :: utf8 x) ++ xs.flatMap (fun field => 0 :: utf8 field)
      = (0 :: utf8 y) ++ ys.flatMap (fun field => 0 :: utf8 field) :=
    List.append_cancel_left h
  have hparts := splits_field x y _ _ hx hy (endOr_fields xs) (endOr_fields ys) hfields
  exact ⟨hparts.1, congrArg (utf8 domain ++ ·) hparts.2⟩

/-!
# Signatures
-/

structure NulFreeFields (d : BundleDescriptor) : Prop where
  bundleId : NulFree d.bundleId
  name : NulFree d.name
  version : NulFree d.version
  format : NulFree d.format
  sha256Hex : NulFree d.sha256Hex

def signedFields (d : BundleDescriptor) : List String :=
  [toString d.tenantId, d.bundleId, d.name, d.version, d.format, d.sha256Hex]

theorem nulFree_signedFields {d : BundleDescriptor} (h : NulFreeFields d) :
    forall field, field ∈ signedFields d -> NulFree field := by
  unfold signedFields
  simp only [List.forall_mem_cons]
  exact ⟨nulFree_toString _, h.bundleId, h.name, h.version, h.format, h.sha256Hex,
    List.forall_mem_nil _⟩

theorem signedFields_injective {d e : BundleDescriptor} (h : signedFields d = signedFields e) :
    d = e := by
  cases d with
  | mk tenantId bundleId name version format sha256Hex =>
      cases e with
      | mk tenantId' bundleId' name' version' format' sha256Hex' =>
          simp only [signedFields, List.cons.injEq, and_true] at h
          rcases h with ⟨htenant, hid, hname, hversion, hformat, hsha⟩
          rw [toString_injective htenant, hid, hname, hversion, hformat, hsha]

theorem toSigningBytes_injective {d e : BundleDescriptor} (hd : NulFreeFields d)
    (he : NulFreeFields e) (h : d.toSigningBytes = e.toSigningBytes) : d = e := by
  apply signedFields_injective
  exact nulSeparated_injective (nulFree_signedFields hd) (nulFree_signedFields he) h

/-!
# Associated data
-/

def label : Purpose -> String
  | Purpose.tenantCaKey _ => "tenant_ca_key"
  | Purpose.tenantBundleSigningKey _ => "tenant_bundle_signing_key"
  | Purpose.hostOverride _ _ => "host_override"

def tenantOf : Purpose -> Int
  | Purpose.tenantCaKey tenantId => tenantId
  | Purpose.tenantBundleSigningKey tenantId => tenantId
  | Purpose.hostOverride tenantId _ => tenantId

/-- What follows the tenant. -/
def subject : Purpose -> List String
  | Purpose.hostOverride _ hostId => [hostId]
  | _ => []

theorem aad_eq (p : Purpose) :
    p.aad = nulSeparated "nsclient-fleet/aead/v1"
      (label p :: toString (tenantOf p) :: subject p) := by
  cases p with
  | tenantCaKey tenantId => rfl
  | tenantBundleSigningKey tenantId => rfl
  | hostOverride tenantId hostId => rfl

theorem nulFree_label (p : Purpose) : NulFree (label p) := by
  cases p with
  | tenantCaKey tenantId =>
      show NulFree "tenant_ca_key"
      decide
  | tenantBundleSigningKey tenantId =>
      show NulFree "tenant_bundle_signing_key"
      decide
  | hostOverride tenantId hostId =>
      show NulFree "host_override"
      decide

theorem purpose_ext {p q : Purpose} (hlabel : label p = label q) (htenant : tenantOf p = tenantOf q)
    (hsubject : subject p = subject q) : p = q := by
  cases p with
  | tenantCaKey tenantId =>
      cases q with
      | tenantCaKey tenantId' => exact congrArg Purpose.tenantCaKey htenant
      | tenantBundleSigningKey tenantId' => exact absurd hlabel (by simp [label])
      | hostOverride tenantId' hostId' => exact absurd hlabel (by simp [label])
  | tenantBundleSigningKey tenantId =>
      cases q with
      | tenantCaKey tenantId' => exact absurd hlabel (by simp [label])
      | tenantBundleSigningKey tenantId' => exact congrArg Purpose.tenantBundleSigningKey htenant
      | hostOverride tenantId' hostId' => exact absurd hlabel (by simp [label])
  | hostOverride tenantId hostId =>
      cases q with
      | tenantCaKey tenantId' => exact absurd hlabel (by simp [label])
      | tenantBundleSigningKey tenantId' => exact absurd hlabel (by simp [label])
      | hostOverride tenantId' hostId' =>
          have hhost : hostId = hostId' := List.head_eq_of_cons_eq hsubject
          have htenant : tenantId = tenantId' := htenant
          rw [htenant, hhost]

theorem subject_injective {p q : Purpose} {domain : String} (hlabel : label p = label q)
    (h : nulSeparated domain (subject p) = nulSeparated domain (subject q)) :
    subject p = subject q := by
  cases p with
  | tenantCaKey tenantId =>
      cases q with
      | tenantCaKey tenantId' => rfl
      | tenantBundleSigningKey tenantId' => rfl
      | hostOverride tenantId' hostId' => exact absurd hlabel (by simp [label])
  | tenantBundleSigningKey tenantId =>
      cases q with
      | tenantCaKey tenantId' => rfl
      | tenantBundleSigningKey tenantId' => rfl
      | hostOverride tenantId' hostId' => exact absurd hlabel (by simp [label])
  | hostOverride tenantId hostId =>
      cases q with
      | tenantCaKey tenantId' => exact absurd hlabel (by simp [label])
      | tenantBundleSigningKey tenantId' => exact absurd hlabel (by simp [label])
      | hostOverride tenantId' hostId' =>
          have hfields : (0 : UInt8) :: (utf8 hostId ++ []) = 0 :: (utf8 hostId' ++ []) :=
            List.append_cancel_left h
          rw [List.append_nil, List.append_nil] at hfields
          have hhost : hostId = hostId' := utf8_injective (List.tail_eq_of_cons_eq hfields)
          exact congrArg (fun host => [host]) hhost

theorem aad_injective {p q : Purpose} (h : p.aad = q.aad) : p = q := by
  rw [aad_eq, aad_eq] at h
  rcases nulSeparated_cons (nulFree_label p) (nulFree_label q) h with ⟨hlabel, hrest⟩
  rcases nulSeparated_cons (nulFree_toString _) (nulFree_toString _) hrest with
    ⟨htenant, hsubject⟩
  exact purpose_ext hlabel (toString_injective htenant) (subject_injective hlabel hsubject)

/-!
# Nothing is replayed
-/

def OneMessage (deps : Deps) : Prop :=
  forall publicKeyPem signature message message',
    deps.verifyWith publicKeyPem message signature = true ->
      deps.verifyWith publicKeyPem message' signature = true -> message = message'

/-- Distinct bundles and distinct purposes have distinct contexts, so a signature
verifies for one bundle and a ciphertext opens for one purpose. -/
theorem contexts_unambiguous :
    (forall d e : BundleDescriptor, NulFreeFields d -> NulFreeFields e ->
      d.toSigningBytes = e.toSigningBytes -> d = e) ∧
    (forall p q : Purpose, p.aad = q.aad -> p = q) ∧
    (forall (deps : Deps), OneMessage deps ->
      forall (d e : BundleDescriptor) (publicKeyPem : String) (signature : Bytes),
        NulFreeFields d -> NulFreeFields e ->
          deps.verifyWith publicKeyPem d.toSigningBytes signature = true ->
            deps.verifyWith publicKeyPem e.toSigningBytes signature = true -> d = e) ∧
    (forall (deps : Deps), IdealAead deps ->
      forall (p q : Purpose) (request : Nat) (plaintext opened : Bytes),
        deps.decrypt q (deps.encrypt request p plaintext) = Except.ok opened -> q = p) := by
  refine ⟨fun d e => toSigningBytes_injective, fun p q => aad_injective, ?_, ?_⟩
  · intro deps hone d e publicKeyPem signature hd he hverifies hreplayed
    exact toSigningBytes_injective hd he (hone _ _ _ _ hverifies hreplayed)
  · intro deps hideal p q request plaintext opened hopened
    rcases Rebind.opened_sealed hideal (hideal.nonce request 0) p.aad q.aad plaintext with
      ⟨hlength, hopens⟩
    unfold Deps.decrypt Deps.encrypt at hopened
    rw [if_neg hlength, hopens] at hopened
    cases hother : deps.aeadOpen (deps.aeadNonce request 0) q.aad
        (deps.aeadSeal (deps.aeadNonce request 0) p.aad plaintext) with
    | none =>
        rw [hother] at hopened
        cases hopened
    | some text => exact aad_injective (hideal.only _ _ _ _ _ hother)

def namedBundle (name version : String) : BundleDescriptor :=
  { tenantId := 1, bundleId := "b", name := name, version := version, format := "plain",
    sha256Hex := "ab" }

theorem contexts_unambiguous_named :
    (namedBundle "a" "bc").toSigningBytes ≠ (namedBundle "ab" "c").toSigningBytes := by
  have hfree : forall name version : String, NulFree name -> NulFree version ->
      NulFreeFields (namedBundle name version) := by
    intro name version hname hversion
    have hid : NulFree "b" := by decide
    have hformat : NulFree "plain" := by decide
    have hsha : NulFree "ab" := by decide
    exact ⟨hid, hname, hversion, hformat, hsha⟩
  intro hsame
  have hbundles := contexts_unambiguous.1 _ _ (hfree "a" "bc" (by decide) (by decide))
    (hfree "ab" "c" (by decide) (by decide)) hsame
  exact absurd hbundles (by decide)

end Runtime
end FleetServer
