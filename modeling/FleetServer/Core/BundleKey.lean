import FleetServer.Core.Base64
import FleetServer.Core.Crypto

/-!
# Bundle keys

Sealing and opening a bundle as the server's own tools do it.  The cipher, the
digest and the random generator come from outside: the first two are parameters,
and what the generator draws is an argument.
-/

namespace FleetServer
namespace Core

theorem utf8_eq_flatMap (s : String) : utf8 s = s.toList.flatMap String.utf8EncodeChar := by
  show s.toByteArray.data.toList = _
  rw [← String.utf8Encode_toList, List.utf8Encode, List.toList_data_toByteArray]

/-- ASCII text other than NUL is spelled without a zero byte. -/
theorem zero_not_mem_utf8 {s : String}
    (h : forall c, c ∈ s.toList -> 0 < c.toNat ∧ c.toNat < 128) : (0 : UInt8) ∉ utf8 s := by
  rw [utf8_eq_flatMap]
  intro hmem
  rcases List.mem_flatMap.mp hmem with ⟨c, hc, hzero⟩
  have hascii := h c hc
  have hvalue : c.toNat = c.val.toNat := rfl
  have hsize : c.utf8Size = 1 := by
    have hsmall : c.val ≤ 127 := UInt32.le_iff_toNat_le.mpr (by
      show c.val.toNat ≤ 127
      omega)
    exact if_pos hsmall
  rw [String.utf8EncodeChar_eq_singleton hsize] at hzero
  have hbyte := congrArg UInt8.toNat (List.mem_singleton.mp hzero)
  rw [UInt32.toNat_toUInt8] at hbyte
  have hzero : (0 : UInt8).toNat = 0 := rfl
  omega

namespace EncBundle

/-- AES-256-GCM and SHA-256; `encrypt` and `decrypt` take the key, the nonce and
the associated data first.  `decodeError` is the text of a base64 error. -/
structure Primitives where
  sha256 : Bytes -> Bytes
  encrypt : Bytes -> Bytes -> Bytes -> Bytes -> Option Bytes
  decrypt : Bytes -> Bytes -> Bytes -> Bytes -> Option Bytes
  decodeError : String -> String

def keyLen : Nat := 32

@[ext]
structure BundleKey where
  bytes : Bytes
  length_eq : bytes.length = keyLen

structure Nonce where
  bytes : Bytes
  length_eq : bytes.length = nonceLen

inductive BundleKeyError where
  | keyLength (length : Nat)
  | keyDecode (text : String)
  | header (error : Error)
  | wrongKey
  | decrypt

def BundleKeyError.message : BundleKeyError -> String
  | keyLength n => "key must be 32 bytes base64 (got " ++ toString n ++ " bytes)"
  | keyDecode text => "key base64 decode failed: " ++ text
  | header e => e.message
  | wrongKey => "key fingerprint mismatch (blob was encrypted with a different key)"
  | decrypt => "decryption failed (tampered, wrong key, or name/version mismatch)"

def aadFor (name version : String) : Bytes :=
  utf8 name ++ [0] ++ utf8 version

variable (prims : Primitives)

namespace BundleKey

def fromB64 (b64 : String) : Except BundleKeyError BundleKey :=
  match Base64.decodeStandard (trim b64).toList with
  | none => Except.error (BundleKeyError.keyDecode (prims.decodeError (trim b64)))
  | some bytes =>
      if h : bytes.length = keyLen then Except.ok { bytes := bytes, length_eq := h }
      else Except.error (BundleKeyError.keyLength bytes.length)

def toB64 (key : BundleKey) : String :=
  String.ofList (Base64.encode key.bytes)

def fingerprint (key : BundleKey) : Bytes :=
  (prims.sha256 key.bytes).take fingerprintLen

def fingerprintHex (key : BundleKey) : String :=
  hex (key.fingerprint prims)

/-- `none` is a panic: the cipher refused the plaintext. -/
def encrypt (key : BundleKey) (name version : String) (plaintext : Bytes) (nonce : Nonce) :
    Option Bytes :=
  (prims.encrypt key.bytes nonce.bytes (aadFor name version) plaintext).map fun ct =>
    magic ++ key.fingerprint prims ++ nonce.bytes ++ ct

def decrypt (key : BundleKey) (name version : String) (blob : Bytes) :
    Except BundleKeyError Bytes :=
  match parseHeader blob with
  | Except.error e => Except.error (BundleKeyError.header e)
  | Except.ok header =>
      if header.fingerprint ≠ key.fingerprint prims then
        Except.error BundleKeyError.wrongKey
      else
        match prims.decrypt key.bytes header.nonce (aadFor name version)
            (blob.drop headerLen) with
        | none => Except.error BundleKeyError.decrypt
        | some plaintext => Except.ok plaintext

end BundleKey

/-!
# The primitives
-/

/-- What is relied on: digests and tags have their length, the empty text can be
sealed, what was sealed opens, and nothing opens under another key or other
associated data. -/
structure Ideal : Prop where
  digest : forall bytes, (prims.sha256 bytes).length = 32
  seals : forall (key : BundleKey) (nonce : Nonce) aad, exists ct,
    prims.encrypt key.bytes nonce.bytes aad [] = some ct
  tag : forall (key : BundleKey) (nonce : Nonce) aad text ct,
    prims.encrypt key.bytes nonce.bytes aad text = some ct -> tagLen ≤ ct.length
  opens : forall (key : BundleKey) (nonce : Nonce) aad text ct,
    prims.encrypt key.bytes nonce.bytes aad text = some ct ->
      prims.decrypt key.bytes nonce.bytes aad ct = some text
  binds : forall (key : BundleKey) (nonce : Nonce) aad text ct (key' : BundleKey)
      (nonce' : Nonce) aad' text',
    prims.encrypt key.bytes nonce.bytes aad text = some ct ->
      prims.decrypt key'.bytes nonce'.bytes aad' ct = some text' -> key' = key ∧ aad' = aad

variable {prims : Primitives}

/-!
# The envelope
-/

/-- What both sides build around a ciphertext. -/
def envelope (fingerprint nonce ct : Bytes) : Bytes :=
  magic ++ fingerprint ++ nonce ++ ct

variable {fp nonce ct : Bytes}

theorem drop_magic (fp nonce ct : Bytes) :
    (envelope fp nonce ct).drop magic.length = fp ++ (nonce ++ ct) := by
  unfold envelope
  rw [List.append_assoc, List.append_assoc]
  exact List.drop_left

theorem envelope_fingerprint (hfp : fp.length = fingerprintLen) :
    ((envelope fp nonce ct).drop magic.length).take fingerprintLen = fp := by
  rw [drop_magic, ← hfp]
  exact List.take_left

theorem drop_fingerprint (hfp : fp.length = fingerprintLen) :
    (envelope fp nonce ct).drop (magic.length + fingerprintLen) = nonce ++ ct := by
  rw [← List.drop_drop, drop_magic, ← hfp]
  exact List.drop_left

theorem envelope_nonce (hfp : fp.length = fingerprintLen) (hnonce : nonce.length = nonceLen) :
    ((envelope fp nonce ct).drop (magic.length + fingerprintLen)).take nonceLen = nonce := by
  rw [drop_fingerprint hfp, ← hnonce]
  exact List.take_left

theorem envelope_ct (hfp : fp.length = fingerprintLen) (hnonce : nonce.length = nonceLen) :
    (envelope fp nonce ct).drop headerLen = ct := by
  have hlen : headerLen = (magic.length + fingerprintLen) + nonceLen := rfl
  rw [hlen, ← List.drop_drop, drop_fingerprint hfp, ← hnonce]
  exact List.drop_left

theorem length_envelope (hfp : fp.length = fingerprintLen) (hnonce : nonce.length = nonceLen) :
    (envelope fp nonce ct).length = headerLen + ct.length := by
  unfold envelope headerLen
  simp only [List.length_append, hfp, hnonce]

theorem isEncrypted_envelope (fp nonce ct : Bytes) : isEncrypted (envelope fp nonce ct) = true := by
  unfold isEncrypted envelope
  rw [List.append_assoc, List.append_assoc, List.isPrefixOf_iff_prefix]
  exact List.prefix_append _ _

theorem parseHeader_envelope (hfp : fp.length = fingerprintLen)
    (hnonce : nonce.length = nonceLen) (htag : tagLen ≤ ct.length) :
    parseHeader (envelope fp nonce ct)
      = Except.ok { fingerprint := fp, nonce := nonce } := by
  have hlength : (envelope fp nonce ct).length = headerLen + ct.length :=
    length_envelope hfp hnonce
  unfold parseHeader
  rw [isEncrypted_envelope, envelope_fingerprint hfp, envelope_nonce hfp hnonce, hlength]
  have hnot : ¬ headerLen + ct.length < headerLen + tagLen := by omega
  rw [if_neg hnot]
  rfl

theorem length_fingerprint (hprims : Ideal prims) (bytes : Bytes) :
    ((prims.sha256 bytes).take fingerprintLen).length = fingerprintLen := by
  rw [List.length_take, hprims.digest]
  rfl

/-- The name has no NUL in front of the one that ends it. -/
theorem aadFor_injective {name version name' version' : String}
    (hname : (0 : UInt8) ∉ utf8 name) (hversion : (0 : UInt8) ∉ utf8 version)
    (h : aadFor name version = aadFor name' version') : name' = name ∧ version' = version := by
  have hcut : forall {xs ys us vs : Bytes}, (0 : UInt8) ∉ xs -> (0 : UInt8) ∉ ys ->
      xs ++ 0 :: ys = us ++ 0 :: vs -> us = xs ∧ vs = ys := by
    intro xs
    induction xs with
    | nil =>
        intro ys us vs _ hys heq
        cases us with
        | nil => exact ⟨rfl, (List.cons.inj heq).2.symm⟩
        | cons u us =>
            rw [(List.cons.inj heq).2] at hys
            exact absurd (List.mem_append_right _ List.mem_cons_self) hys
    | cons x xs ih =>
        intro ys us vs hxs hys heq
        cases us with
        | nil =>
            have hx : x = 0 := (List.cons.inj heq).1
            rw [hx] at hxs
            exact absurd List.mem_cons_self hxs
        | cons u us =>
            have hxs : (0 : UInt8) ∉ xs := fun hmem => hxs (List.mem_cons_of_mem _ hmem)
            rcases ih hxs hys (List.cons.inj heq).2 with ⟨hus, hvs⟩
            rw [hus, hvs, (List.cons.inj heq).1]
            exact ⟨rfl, rfl⟩
  unfold aadFor at h
  rw [List.append_assoc, List.append_assoc] at h
  rcases hcut hname hversion h with ⟨hn, hv⟩
  exact ⟨utf8_injective hn, utf8_injective hv⟩

/-- Whoever opens an envelope has the key and the associated data it was sealed
with. -/
theorem decrypt_envelope (hprims : Ideal prims) {key own : BundleKey} {n : Nonce}
    {name version : String} {aad text text' : Bytes} (hfp : fp.length = fingerprintLen)
    (hct : prims.encrypt own.bytes n.bytes aad text = some ct)
    (h : key.decrypt prims name version (envelope fp n.bytes ct) = Except.ok text') :
    key = own ∧ aadFor name version = aad := by
  unfold BundleKey.decrypt at h
  rw [parseHeader_envelope hfp n.length_eq (hprims.tag _ _ _ _ _ hct),
    envelope_ct hfp n.length_eq] at h
  simp only at h
  split at h
  · cases h
  · split at h
    · cases h
    · rename_i hopened
      exact hprims.binds _ _ _ _ _ _ _ _ _ hct hopened

theorem decrypt_own (hprims : Ideal prims) {key : BundleKey} {n : Nonce} {name version : String}
    {text : Bytes}
    (hct : prims.encrypt key.bytes n.bytes (aadFor name version) text = some ct) :
    key.decrypt prims name version (envelope (key.fingerprint prims) n.bytes ct)
      = Except.ok text := by
  have hfp : (key.fingerprint prims).length = fingerprintLen :=
    length_fingerprint hprims key.bytes
  unfold BundleKey.decrypt
  rw [parseHeader_envelope hfp n.length_eq (hprims.tag _ _ _ _ _ hct),
    envelope_ct hfp n.length_eq]
  simp only [ne_eq, not_true_eq_false, if_false, hprims.opens _ _ _ _ _ hct]

end EncBundle
end Core
end FleetServer
