import FleetServer.Core.Text

/-!
# Signing client certificates

Only the public key of a request is used; subject, names and usages are the
server's own, and so is the serial.
-/

namespace FleetServer
namespace Enrollment

open FleetServer.Core

inductive SignError where
  | badCsr (text : String)
  | unsupportedKey
  | caLoad (text : String)
  | rcgen (text : String)
deriving DecidableEq

def SignError.message : SignError -> String
  | badCsr text => "malformed CSR: " ++ text
  | unsupportedKey => "unsupported public key algorithm"
  | caLoad text => "CA load failed: " ++ text
  | rcgen text => "rcgen: " ++ text

inductive Failure where
  | error (e : SignError)
  | panicked (text : String)
deriving DecidableEq

structure IssuedCert where
  certPem : String
  serialHex : String
  fingerprintSha256Hex : String
  notBeforeUnix : Int
  notAfterUnix : Int
deriving DecidableEq

inductive DnType where
  | commonName
  | organizationName
deriving DecidableEq

inductive ExtendedKeyUsage where
  | clientAuth
deriving DecidableEq

inductive KeyUsage where
  | digitalSignature
  | keyAgreement
deriving DecidableEq

inductive IsCa where
  | explicitNoCa
deriving DecidableEq

structure CertificateParams where
  distinguishedName : List (DnType × String)
  subjectAltNames : List String
  extendedKeyUsages : List ExtendedKeyUsage
  keyUsages : List KeyUsage
  isCa : IsCa
  notBefore : Int
  notAfter : Int
  serialNumber : Bytes

structure Issuer where
  subjectDer : Bytes
  key : Bytes

structure Rcgen where
  csrPublicKey : String -> Except String Bytes
  keyPairFromPem : String -> Except String Bytes
  issuerFromCaCertPem : (caCertPem : String) -> (caKey : Bytes) -> Except String Issuer
  /-- The DER of the signed certificate. -/
  signedBy : CertificateParams -> (publicKey : Bytes) -> Issuer -> Except String Bytes
  pem : Bytes -> String
  sha256 : Bytes -> Bytes

/-- The mask over what the generator drew: the top bit clear, the first byte not zero. -/
def randomSerial (drawn : Vector UInt8 16) : Vector UInt8 16 :=
  drawn.set 0 ((drawn[0] &&& 0x7f) ||| 0x01)

def spiffeUri (tenantSlug hostId : String) : String :=
  "spiffe://nsclient-fleet/" ++ tenantSlug ++ "/" ++ hostId

def isIa5 (s : String) : Bool :=
  s.toList.all fun c => c.toNat < 128

def clientCertParams (serial : Bytes) (now : Int) (tenantSlug hostId : String)
    (lifetimeDays : Int) : CertificateParams where
  distinguishedName :=
    [(DnType.commonName, hostId), (DnType.organizationName, "NSClient Fleet")]
  subjectAltNames := [spiffeUri tenantSlug hostId]
  extendedKeyUsages := [ExtendedKeyUsage.clientAuth]
  keyUsages := [KeyUsage.digitalSignature, KeyUsage.keyAgreement]
  isCa := IsCa.explicitNoCa
  notBefore := now - 5 * 60
  notAfter := now + lifetimeDays * 86400
  serialNumber := serial

/-- `drawn` is what the random generator gives for the serial. -/
def signClientCert (lib : Rcgen) (drawn : Vector UInt8 16) (now : Int)
    (csrPem caCertPem caKeyPem tenantSlug hostId : String) (lifetimeDays : Int) :
    Except Failure IssuedCert := do
  let publicKey ← (lib.csrPublicKey csrPem).mapError fun e => Failure.error (SignError.badCsr e)
  if !isIa5 (spiffeUri tenantSlug hostId) then
    throw (Failure.panicked "spiffe URI is ASCII")
  let serialBytes := (randomSerial drawn).toList
  let params := clientCertParams serialBytes now tenantSlug hostId lifetimeDays
  let caKey ← (lib.keyPairFromPem caKeyPem).mapError fun e => Failure.error (SignError.caLoad e)
  let issuer ← (lib.issuerFromCaCertPem caCertPem caKey).mapError fun e =>
    Failure.error (SignError.caLoad e)
  let der ← (lib.signedBy params publicKey issuer).mapError fun e =>
    Failure.error (SignError.rcgen e)
  return { certPem := lib.pem der, serialHex := hex serialBytes,
           fingerprintSha256Hex := hex (lib.sha256 der), notBeforeUnix := params.notBefore,
           notAfterUnix := params.notAfter }

structure Issued (lib : Rcgen) (drawn : Vector UInt8 16) (now : Int)
    (caCertPem tenantSlug hostId : String) (lifetimeDays : Int) (issued : IssuedCert)
    (issuer : Issuer) (der : Bytes) : Prop where
  ofCa : exists caKey, lib.issuerFromCaCertPem caCertPem caKey = Except.ok issuer
  signed : exists publicKey,
    lib.signedBy
      (clientCertParams (randomSerial drawn).toList now tenantSlug hostId lifetimeDays)
      publicKey issuer = Except.ok der
  certPem : issued.certPem = lib.pem der
  serialHex : issued.serialHex = hex (randomSerial drawn).toList
  fingerprint : issued.fingerprintSha256Hex = hex (lib.sha256 der)

theorem mapError_eq_ok {eps eps' alpha : Type} {x : Except eps alpha} {f : eps -> eps'}
    {a : alpha} (h : x.mapError f = Except.ok a) : x = Except.ok a := by
  cases x with
  | error e => cases h
  | ok b =>
      cases h
      rfl

theorem bind_eq_ok {eps alpha beta : Type} {x : Except eps alpha} {f : alpha -> Except eps beta}
    {b : beta} (h : x >>= f = Except.ok b) : exists a, x = Except.ok a ∧ f a = Except.ok b := by
  cases x with
  | error e => cases h
  | ok a => exact ⟨a, rfl, h⟩

theorem issued_of_signClientCert {lib : Rcgen} {drawn : Vector UInt8 16} {now : Int}
    {csrPem caCertPem caKeyPem tenantSlug hostId : String} {lifetimeDays : Int}
    {issued : IssuedCert}
    (h : signClientCert lib drawn now csrPem caCertPem caKeyPem tenantSlug hostId lifetimeDays
      = Except.ok issued) :
    exists issuer der,
      Issued lib drawn now caCertPem tenantSlug hostId lifetimeDays issued issuer der := by
  unfold signClientCert at h
  rcases bind_eq_ok h with ⟨publicKey, _, h⟩
  dsimp only at h
  split at h
  · cases h
  · rcases bind_eq_ok h with ⟨caKey, _, h⟩
    rcases bind_eq_ok h with ⟨issuer, hissuer, h⟩
    rcases bind_eq_ok h with ⟨der, hder, h⟩
    cases h
    exact ⟨issuer, der, ⟨caKey, mapError_eq_ok hissuer⟩, ⟨publicKey, mapError_eq_ok hder⟩,
      rfl, rfl, rfl⟩

/-!
# The shape of a serial
-/

theorem masked_byte (byte : UInt8) :
    0 < ((byte &&& 0x7f) ||| 0x01).toNat ∧ ((byte &&& 0x7f) ||| 0x01).toNat < 128 := by
  have hmasked : byte.toNat &&& 0x7f < 2 ^ 7 := by
    show byte.toNat &&& (2 ^ 7 - 1) < 2 ^ 7
    rw [Nat.and_two_pow_sub_one_eq_mod]
    exact Nat.mod_lt _ (by decide)
  rw [UInt8.toNat_or, UInt8.toNat_and]
  constructor
  · exact Nat.lt_of_lt_of_le Nat.one_pos Nat.right_le_or
  · exact Nat.or_lt_two_pow hmasked (by decide)

theorem randomSerial_toList (drawn : Vector UInt8 16) :
    exists first rest, (randomSerial drawn).toList = first :: rest ∧
      0 < first.toNat ∧ first.toNat < 128 := by
  have hlength := drawn.length_toList
  have hset : (randomSerial drawn).toList
      = drawn.toList.set 0 ((drawn[0] &&& 0x7f) ||| 0x01) := Vector.toList_set ..
  cases hdrawn : drawn.toList with
  | nil =>
      rw [hdrawn] at hlength
      cases hlength
  | cons byte rest =>
      refine ⟨_, rest, ?_, masked_byte drawn[0]⟩
      rw [hset, hdrawn, List.set_cons_zero]

end Enrollment
end FleetServer
