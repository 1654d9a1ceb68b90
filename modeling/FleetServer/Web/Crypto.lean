import FleetServer.Core.BundleKey

/-!
# Bundle encryption in the browser

`bundles/crypto.ts`, with the web platform's own `trim` and `atob`.  The cipher
and the digest are the ones of `Core.EncBundle.Primitives`; the nonce that
`getRandomValues` draws is an argument.
-/

namespace FleetServer
namespace Web

open FleetServer.Core
open Core.EncBundle

/-- White space and line terminators, which `String.prototype.trim` strips. -/
def isSpace (c : Char) : Bool :=
  let n := c.toNat
  (9 ≤ n && n ≤ 13) || n == 0x20 || n == 0xA0 || n == 0x1680 ||
    (0x2000 ≤ n && n ≤ 0x200A) || n == 0x2028 || n == 0x2029 || n == 0x202F ||
    n == 0x205F || n == 0x3000 || n == 0xFEFF

def trim (s : String) : String :=
  String.ofList (((s.toList.dropWhile isSpace).reverse.dropWhile isSpace).reverse)

inductive CryptoError where
  /-- `atob` refuses the text. -/
  | invalidCharacter
  | keyLength (length : Nat)
  | notEncrypted
  | differentKey (want have_ : String)
  | decryptionFailed
  /-- `subtle.encrypt` refuses the plaintext. -/
  | operation

def CryptoError.message : CryptoError -> String
  | invalidCharacter => "The string to be decoded is not correctly encoded."
  | keyLength n => "key must be 32 bytes base64 (got " ++ toString n ++ ")"
  | notEncrypted => "not an encrypted bundle (NSEB1 header missing)"
  | differentKey want have_ =>
      "this bundle was sealed with a different key (its fingerprint " ++ want ++ ", yours "
        ++ have_ ++ ")"
  | decryptionFailed => "decryption failed — wrong key, or the bundle was tampered with"
  | operation => "The operation failed for an operation-specific reason"

def toB64 (bytes : Bytes) : String :=
  String.ofList (Base64.encode bytes)

def fromB64 (b64 : String) : Except CryptoError Bytes :=
  match Base64.decodeForgiving b64.toList with
  | none => Except.error CryptoError.invalidCharacter
  | some bytes => Except.ok bytes

/-- `b.toString(16)` of a byte. -/
def toString16 (b : UInt8) : List Char :=
  if b.toNat < 16 then [hexDigit b.toNat]
  else [hexDigit (b.toNat / 16), hexDigit (b.toNat % 16)]

def padStart (length : Nat) (fill : Char) (text : List Char) : List Char :=
  List.replicate (length - text.length) fill ++ text

def toHex (bytes : Bytes) : String :=
  String.ofList (bytes.flatMap fun b => padStart 2 '0' (toString16 b))

def aadFor (name version : String) : Bytes :=
  utf8 name ++ 0 :: utf8 version

def rawKey (keyB64 : String) : Except CryptoError Bytes :=
  match fromB64 (trim keyB64) with
  | Except.error e => Except.error e
  | Except.ok raw =>
      if raw.length ≠ 32 then Except.error (CryptoError.keyLength raw.length)
      else Except.ok raw

def generateKeyB64 (random : BundleKey) : String :=
  toB64 random.bytes

variable (prims : Primitives)

def keyFingerprintHex (keyB64 : String) : Except CryptoError String :=
  match rawKey keyB64 with
  | Except.error e => Except.error e
  | Except.ok raw => Except.ok (toHex ((prims.sha256 raw).take fingerprintLen))

def encryptBundle (keyB64 name version : String) (plaintext : Bytes) (nonce : Nonce) :
    Except CryptoError Bytes :=
  match rawKey keyB64 with
  | Except.error e => Except.error e
  | Except.ok raw =>
      match prims.encrypt raw nonce.bytes (aadFor name version) plaintext with
      | none => Except.error CryptoError.operation
      | some ct =>
          Except.ok (magic ++ (prims.sha256 raw).take fingerprintLen ++ nonce.bytes ++ ct)

/-- `MAGIC.every((b, i) => sealed[i] === b)` -/
def startsWithMagic (sealed_ : Bytes) : Bool :=
  magic.zipIdx.all fun b => sealed_[b.2]? == some b.1

def decryptBundle (keyB64 name version : String) (sealed_ : Bytes) :
    Except CryptoError Bytes :=
  match rawKey keyB64 with
  | Except.error e => Except.error e
  | Except.ok raw =>
      if sealed_.length < headerLen + 16 || !startsWithMagic sealed_ then
        Except.error CryptoError.notEncrypted
      else
        let wantFp := toHex ((sealed_.drop magic.length).take fingerprintLen)
        let haveFp := toHex ((prims.sha256 raw).take fingerprintLen)
        if wantFp ≠ haveFp then Except.error (CryptoError.differentKey wantFp haveFp)
        else
          let nonce := (sealed_.drop (magic.length + fingerprintLen)).take nonceLen
          match prims.decrypt raw nonce (aadFor name version) (sealed_.drop headerLen) with
          | none => Except.error CryptoError.decryptionFailed
          | some plaintext => Except.ok plaintext

/-!
# The same bytes and digits as the server's
-/

theorem aadFor_eq (name version : String) :
    aadFor name version = EncBundle.aadFor name version := by
  unfold aadFor EncBundle.aadFor
  rw [List.append_assoc]
  rfl

theorem padStart_toString16 (b : UInt8) :
    padStart 2 '0' (toString16 b) = [hexDigit (b.toNat / 16), hexDigit (b.toNat % 16)] := by
  unfold toString16
  split
  · rename_i hsmall
    rw [Nat.div_eq_of_lt hsmall, Nat.mod_eq_of_lt hsmall]
    rfl
  · rfl

theorem toHex_eq (bytes : Bytes) : toHex bytes = hex bytes := by
  unfold toHex hex
  simp only [padStart_toString16]

theorem startsWithMagic_envelope (fp nonce ct : Bytes) :
    startsWithMagic (envelope fp nonce ct) = true := by
  unfold startsWithMagic envelope
  rw [List.append_assoc, List.append_assoc]
  rfl

variable {prims : Primitives} {fp nonce ct raw aad text text' : Bytes}

theorem fingerprint_ok {keyB64 : String} (h : rawKey keyB64 = Except.ok raw) :
    keyFingerprintHex prims keyB64
      = Except.ok (toHex ((prims.sha256 raw).take fingerprintLen)) := by
  unfold keyFingerprintHex
  rw [h]

theorem encryptBundle_eq_ok {keyB64 name version : String} {n : Nonce} {sealed_ : Bytes}
    (h : encryptBundle prims keyB64 name version text n = Except.ok sealed_) :
    exists raw ct, rawKey keyB64 = Except.ok raw ∧
      prims.encrypt raw n.bytes (EncBundle.aadFor name version) text = some ct ∧
        sealed_ = envelope ((prims.sha256 raw).take fingerprintLen) n.bytes ct := by
  unfold encryptBundle at h
  cases hraw : rawKey keyB64 with
  | error e =>
      rw [hraw] at h
      cases h
  | ok raw =>
      rw [hraw] at h
      simp only [aadFor_eq] at h
      cases hct : prims.encrypt raw n.bytes (EncBundle.aadFor name version) text with
      | none =>
          rw [hct] at h
          cases h
      | some ct =>
          rw [hct] at h
          cases h
          exact ⟨raw, ct, rfl, hct, rfl⟩

theorem length_ok (hfp : fp.length = fingerprintLen) (hnonce : nonce.length = nonceLen)
    (htag : tagLen ≤ ct.length) :
    decide ((envelope fp nonce ct).length < headerLen + 16) = false := by
  have hlength : (envelope fp nonce ct).length = headerLen + ct.length :=
    length_envelope hfp hnonce
  have htag : 16 ≤ ct.length := htag
  rw [hlength]
  exact decide_eq_false (by omega)

theorem key_of_rawKey {keyB64 : String} (h : rawKey keyB64 = Except.ok raw) :
    exists key : BundleKey, key.bytes = raw := by
  unfold rawKey at h
  split at h
  · cases h
  · split at h
    · cases h
    · rename_i hlength
      cases h
      exact ⟨{ bytes := raw, length_eq := not_not.mp hlength }, rfl⟩

/-- Whoever opens an envelope in the browser has the key and the associated data
it was sealed with. -/
theorem decryptBundle_envelope (hprims : Ideal prims) {keyB64 name version : String}
    {own : BundleKey} {n : Nonce} (hfp : fp.length = fingerprintLen)
    (hct : prims.encrypt own.bytes n.bytes aad text = some ct)
    (h : decryptBundle prims keyB64 name version (envelope fp n.bytes ct) = Except.ok text') :
    rawKey keyB64 = Except.ok own.bytes ∧ EncBundle.aadFor name version = aad := by
  unfold decryptBundle at h
  cases hraw : rawKey keyB64 with
  | error e =>
      rw [hraw] at h
      cases h
  | ok raw' =>
      rcases key_of_rawKey hraw with ⟨key, rfl⟩
      rw [hraw, length_ok hfp n.length_eq (hprims.tag _ _ _ _ _ hct), startsWithMagic_envelope,
        envelope_nonce hfp n.length_eq, envelope_ct hfp n.length_eq, aadFor_eq] at h
      simp only [Bool.not_true, Bool.or_self, Bool.false_eq_true, if_false] at h
      split at h
      · cases h
      · split at h
        · cases h
        · rename_i hopened
          have hsame := hprims.binds _ _ _ _ _ _ _ _ _ hct hopened
          rw [hsame.1]
          exact ⟨rfl, hsame.2⟩

theorem decryptBundle_own (hprims : Ideal prims) {keyB64 name version : String}
    {key : BundleKey} {n : Nonce} (hraw : rawKey keyB64 = Except.ok key.bytes)
    (hct : prims.encrypt key.bytes n.bytes (EncBundle.aadFor name version) text = some ct) :
    decryptBundle prims keyB64 name version
      (envelope ((prims.sha256 key.bytes).take fingerprintLen) n.bytes ct)
      = Except.ok text := by
  have hfp := length_fingerprint hprims key.bytes
  unfold decryptBundle
  rw [hraw, length_ok hfp n.length_eq (hprims.tag _ _ _ _ _ hct), startsWithMagic_envelope,
    envelope_ct hfp n.length_eq, envelope_fingerprint hfp, envelope_nonce hfp n.length_eq,
    aadFor_eq]
  simp only [Bool.not_true, Bool.or_self, Bool.false_eq_true, if_false, ne_eq, not_true_eq_false,
    hprims.opens _ _ _ _ _ hct]

end Web
end FleetServer
