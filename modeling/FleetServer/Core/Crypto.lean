import FleetServer.Core.Text

/-!
# What signatures and ciphertexts cover

The byte strings the cryptographic primitives are applied to, and the header of
the encrypted-bundle envelope.  The primitives themselves are parameters of the
modules that use them.
-/

namespace FleetServer
namespace Core

def nulSeparated (domain : String) (fields : List String) : Bytes :=
  utf8 domain ++ fields.flatMap fun field => 0 :: utf8 field

/-!
# Ciphertexts at rest
-/

/-- What a ciphertext is, and whose. -/
inductive Purpose where
  | tenantCaKey (tenantId : Int)
  | tenantBundleSigningKey (tenantId : Int)
  | hostOverride (tenantId : Int) (hostId : String)
deriving DecidableEq

def Purpose.aad : Purpose -> Bytes
  | tenantCaKey tenantId =>
      nulSeparated "nsclient-fleet/aead/v1" ["tenant_ca_key", toString tenantId]
  | tenantBundleSigningKey tenantId =>
      nulSeparated "nsclient-fleet/aead/v1" ["tenant_bundle_signing_key", toString tenantId]
  | hostOverride tenantId hostId =>
      nulSeparated "nsclient-fleet/aead/v1" ["host_override", toString tenantId, hostId]

inductive AeadError where
  | truncated
  | decrypt
deriving DecidableEq

def AeadError.message : AeadError -> String
  | truncated => "ciphertext too short"
  | decrypt => "decryption failed (tampered or wrong key)"

/-!
# Bundle signatures
-/

structure BundleDescriptor where
  tenantId : Int
  bundleId : String
  name : String
  version : String
  format : String
  sha256Hex : String
deriving DecidableEq

def BundleDescriptor.toSigningBytes (d : BundleDescriptor) : Bytes :=
  nulSeparated "nsclient-fleet/bundle-sig/v2"
    [toString d.tenantId, d.bundleId, d.name, d.version, d.format, d.sha256Hex]

/-!
# Encrypted bundles
-/

namespace EncBundle

/-- The bytes of `NSEB1`. -/
def magic : Bytes := [78, 83, 69, 66, 49]

def formatEncV1 : String := "enc-v1"
def formatPlain : String := "plain"

def fingerprintLen : Nat := 8
def nonceLen : Nat := 12
def tagLen : Nat := 16
def headerLen : Nat := magic.length + fingerprintLen + nonceLen

inductive Error where
  | notEncrypted
  | truncated
deriving DecidableEq

def Error.message : Error -> String
  | notEncrypted => "not an encrypted bundle (missing NSEB1 header)"
  | truncated => "encrypted bundle truncated"

structure Header where
  fingerprint : Bytes
  nonce : Bytes
deriving DecidableEq

def Header.fingerprintHex (h : Header) : String :=
  hex h.fingerprint

def isEncrypted (bytes : Bytes) : Bool :=
  magic.isPrefixOf bytes

def parseHeader (bytes : Bytes) : Except Error Header :=
  if !isEncrypted bytes then Except.error Error.notEncrypted
  else if bytes.length < headerLen + tagLen then Except.error Error.truncated
  else
    Except.ok
      { fingerprint := (bytes.drop magic.length).take fingerprintLen
        nonce := (bytes.drop (magic.length + fingerprintLen)).take nonceLen }

end EncBundle

end Core
end FleetServer
