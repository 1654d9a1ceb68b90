import FleetServer.Core.Crypto
import FleetServer.Core.Import
import FleetServer.Core.Tier

/-!
# What the server takes from elsewhere

Libraries the server is built on, its random sources, and its configuration.
A request is told its number, so that what it draws at random is its own.
-/

namespace FleetServer
namespace Server

open FleetServer.Core

structure ZipEntry where
  isDir : Bool
  rawName : String
  /-- The path components of the name, when it stays inside the archive. -/
  enclosedName : Option (List String)
  data : Bytes

structure SignedCert where
  certPem : String
  serialHex : String
  fingerprintSha256Hex : String
  notBeforeUnix : Int
  notAfterUnix : Int

structure BootstrapClaims where
  hostId : String
  tenantId : Int
  nonce : String
  iat : Int
  exp : Int

structure RawUpload where
  factsHash : String
  collectedAt : Option String
  facts : String

structure ImportRow where
  keys : List Json
  facts : Json
  hostId : Option String

/-- A decoded import body, absent members at their defaults. -/
structure ImportBody where
  name : String
  keys : List KeyTarget
  normalize : Normalize
  collectedAt : Option String
  rows : List ImportRow
  skip : List Nat
  prune : Bool

structure GroupBundleRef where
  name : String
  version : String
  priority : Int

structure GroupFile where
  name : String
  selector : Json
  bundles : List GroupBundleRef

structure Config where
  bootstrapTtlSecs : Int
  clientCertLifetimeDays : Int
  baseUrl : String
  agentMtlsUrl : String
  mtlsServerCertPem : String
  /-- The tenant whose groups and bundles come from a directory. -/
  managedTenant : Option Int

structure Deps where
  config : Config
  -- serde_json, with the derived decoders and encoders.
  parseJson : String -> Option Json
  parseJsonBytes : Bytes -> Except String Json
  jsonToString : Json -> String
  jsonToStringPretty : Json -> String
  decodeSelector : Json -> Except String Selector
  selectorToString : Selector -> String
  parseOverrides : String -> Option TierOverrides
  parseRawUpload : Bytes -> Except String RawUpload
  parseImportBody : Bytes -> Except String ImportBody
  parseGroupFile : Bytes -> Except String GroupFile
  historyToString : HistoryEntry -> Option String
  /-- How `{:?}` prints a string. -/
  debugStr : String -> String
  toLowercase : String -> String
  -- Digests, ciphers and signatures.
  sha256 : Bytes -> Bytes
  mac : String -> Bytes -> Bytes
  aeadSeal : (nonce aad plaintext : Bytes) -> Bytes
  aeadOpen : (nonce aad ciphertext : Bytes) -> Option Bytes
  signingKeyFromPem : String -> Option Bytes
  signWith : (key message : Bytes) -> Bytes
  verifyWith : (publicKeyPem : String) -> (message signature : Bytes) -> Bool
  base64 : Bytes -> String
  base64Decode : String -> Option Bytes
  -- Enrollment.
  /-- The certificate and its fingerprint, or why it could not be signed. -/
  issueCert : (csr caCert caKey tenantSlug hostId serialHex : String) ->
    (notBefore notAfter : Int) -> Except String (String × String)
  encodeBootstrap : BootstrapClaims -> String
  decodeBootstrap : String -> (now : Int) -> Option BootstrapClaims
  -- Archives.
  readZip : Bytes -> Except String (List ZipEntry)
  buildZip : (stamp : Option Int) -> List (String × Bytes) -> Option Bytes
  -- Random sources: the `k`-th draw of a request.
  ulid : (request k : Nat) -> String
  randomToken : (request k : Nat) -> String
  aeadNonce : (request k : Nat) -> Bytes
  serialHex : (request : Nat) -> String

namespace Deps

variable (deps : Deps)

/-- Ids drawn by different requests, or twice by one, are different. -/
def UniqueIds : Prop :=
  forall n k m j, deps.ulid n k = deps.ulid m j -> n = m ∧ k = j

def sha256Hex (bytes : Bytes) : String :=
  hex (deps.sha256 bytes)

theorem sha256Hex_injective (hsha : forall a b, deps.sha256 a = deps.sha256 b -> a = b)
    {s t : String} (h : deps.sha256Hex (utf8 s) = deps.sha256Hex (utf8 t)) : s = t :=
  utf8_injective (hsha _ _ (hex_injective h))

/-- The stored form of a random token. -/
def hashToken (token : String) : String :=
  deps.sha256Hex (utf8 token)

/-- `String::from_utf8`. -/
def fromUtf8 (bytes : Bytes) : Option String :=
  String.fromUTF8? ⟨bytes.toArray⟩

def encrypt (request : Nat) (purpose : Purpose) (plaintext : Bytes) : Bytes :=
  deps.aeadNonce request 0 ++ deps.aeadSeal (deps.aeadNonce request 0) purpose.aad plaintext

def decrypt (purpose : Purpose) (blob : Bytes) : Except AeadError Bytes :=
  if blob.length < 12 + 16 then Except.error AeadError.truncated
  else
    match deps.aeadOpen (blob.take 12) purpose.aad (blob.drop 12) with
    | none => Except.error AeadError.decrypt
    | some plaintext => Except.ok plaintext

/-- Sign a certificate for a host, valid from five minutes ago. -/
def signClientCert (request : Nat) (now : Int) (csr caCert caKey tenantSlug hostId : String) :
    Except String SignedCert := do
  let notBefore := now - 300
  let notAfter := now + deps.config.clientCertLifetimeDays * 86400
  let (certPem, fingerprint) ←
    deps.issueCert csr caCert caKey tenantSlug hostId (deps.serialHex request) notBefore notAfter
  return { certPem := certPem, serialHex := deps.serialHex request,
           fingerprintSha256Hex := fingerprint, notBeforeUnix := notBefore,
           notAfterUnix := notAfter }

def parseUpload (body : Bytes) : Except UploadError FactsUpload :=
  match deps.parseRawUpload body with
  | Except.error text => Except.error (UploadError.malformed text)
  | Except.ok raw => verifyUpload deps.sha256Hex raw.factsHash raw.collectedAt raw.facts

def historyEntry (previous : Option String) (document : Json) : Option String :=
  (historyEntryOf deps.parseJson previous document).bind deps.historyToString

/-- The limits a tenant row gives. -/
def limits (tier : String) (overridesJson : Option String) : TierLimits :=
  Tier.effective deps.parseOverrides tier overridesJson

/-!
# A small server

Dependencies that are easy to evaluate: documents do not parse, ciphertexts
open to nothing, digests are the bytes themselves, ids are spelled out, and
overrides allow one host and one bundle.
-/

def sampleId (request k : Nat) : String :=
  String.ofList (List.replicate request 'a' ++ 'b' :: List.replicate k 'a')

def sampleClaims (token : String) (now : Int) : Option BootstrapClaims :=
  match token.toList.splitOn '.' with
  | [hostId, nonce] =>
      some { hostId := String.ofList hostId, tenantId := 1, nonce := String.ofList nonce,
             iat := now, exp := now }
  | _ => none

def sample : Deps where
  config :=
    { bootstrapTtlSecs := 86400, clientCertLifetimeDays := 30, baseUrl := "", agentMtlsUrl := "",
      mtlsServerCertPem := "", managedTenant := none }
  parseJson := fun _ => none
  parseJsonBytes := fun _ => Except.error ""
  jsonToString := fun _ => ""
  jsonToStringPretty := fun _ => ""
  decodeSelector := fun _ => Except.error ""
  selectorToString := fun _ => ""
  parseOverrides := fun _ =>
    some { maxHosts := some 1, minPollIntervalSecs := none, perHostRequestsPerMinute := none,
           maxBundleMb := none, maxBundles := some 1 }
  parseRawUpload := fun _ => Except.error ""
  parseImportBody := fun _ => Except.error ""
  parseGroupFile := fun _ => Except.error ""
  historyToString := fun _ => none
  debugStr := id
  toLowercase := id
  sha256 := id
  mac := fun _ message => message
  aeadSeal := fun _ _ plaintext => plaintext
  aeadOpen := fun _ _ _ => some []
  signingKeyFromPem := fun _ => some []
  signWith := fun _ message => message
  verifyWith := fun _ message signature => message == signature
  base64 := fun _ => ""
  base64Decode := fun _ => none
  issueCert := fun _ _ _ _ _ _ _ _ => Except.ok ("", "")
  encodeBootstrap := fun claims => claims.hostId ++ "." ++ claims.nonce
  decodeBootstrap := sampleClaims
  readZip := fun _ => Except.error ""
  buildZip := fun _ _ => none
  ulid := sampleId
  randomToken := sampleId
  aeadNonce := fun _ _ => List.replicate 12 0
  serialHex := fun request => sampleId request 0

theorem sampleId_toList (n k : Nat) :
    (sampleId n k).toList = List.replicate n 'a' ++ 'b' :: List.replicate k 'a' := by
  unfold sampleId
  rw [String.toList_ofList]

theorem uniqueIds_sample : sample.UniqueIds := by
  intro n k m j h
  have hlists := congrArg String.toList (show sampleId n k = sampleId m j from h)
  rw [sampleId_toList, sampleId_toList] at hlists
  have hbefore := congrArg (List.findIdx fun c => c == 'b') hlists
  have hlength := congrArg List.length hlists
  simp only [List.findIdx_append, List.findIdx_cons, List.length_append, List.length_cons,
    List.length_replicate] at hbefore hlength
  have hreplicate : forall i, List.findIdx (fun c => c == 'b') (List.replicate i 'a') = i := by
    intro i
    induction i with
    | zero => rfl
    | succ i ih =>
        rw [List.replicate_succ, List.findIdx_cons, ih]
        rfl
  simp only [hreplicate] at hbefore
  simp at hbefore
  omega

end Deps

end Server
end FleetServer
