import FleetServer.Core.Split
import FleetServer.Data.DerInteger
import FleetServer.Enrollment.Sign
import FleetServer.Server.Response
import FleetServer.Transport.TrustStore

/-!
# The certificate an agent presents

The issuer says which tenant, the SPIFFE name which host, and the serial which
certificate of the host.  The serial is looked up under the hex of the octets it
has in the certificate, which is what was stored when the certificate was signed.
-/

namespace FleetServer
namespace Transport

open FleetServer.Core
open DerInteger
open Enrollment
open KeyedMap
open Server (PeerHostContext)

inductive GeneralName where
  | uri (uri : String)
  | other

/-- What is read of a certificate.  Names that cannot be read count as absent. -/
structure X509Certificate where
  issuerRaw : Bytes
  issuerText : String
  subjectAltNames : Option (List GeneralName)
  rawSerial : Bytes

structure X509 where
  fromDer : Bytes -> Except String X509Certificate

/-- The slug and the host id of a SPIFFE name. -/
def spiffeParts (uri : String) : Option (String × String) := do
  let rest ← stripPrefix "spiffe://nsclient-fleet/".toList uri.toList
  let parts ← splitOnce '/' rest
  return (String.ofList parts.1, String.ofList parts.2)

def spiffeName : List GeneralName -> Option (String × String)
  | [] => none
  | GeneralName.uri uri :: names => (spiffeName names).or (spiffeParts uri)
  | GeneralName.other :: names => spiffeName names

def parseLeaf (parser : X509) (der : Bytes) (tenantByIssuerDer : Map Bytes (Int × String)) :
    Except String PeerHostContext := do
  let parsed ← (parser.fromDer der).mapError fun e => "parse leaf: " ++ e
  match tenantByIssuerDer.lookup parsed.issuerRaw with
  | none => throw ("issuer not in tenant map: " ++ parsed.issuerText)
  | some (tenantId, tenantSlug) =>
      -- The slug and the host id of a name are found together.
      match spiffeName (parsed.subjectAltNames.getD []) with
      | none => throw "leaf missing SPIFFE SAN URI"
      | some (sanSlug, hostId) =>
          if sanSlug ≠ tenantSlug then
            throw ("tenant mismatch: SAN=" ++ sanSlug ++ ", issuer-resolved=" ++ tenantSlug)
          else
            return { tenantId := tenantId, tenantSlug := tenantSlug, hostId := hostId,
                     serialHex := hex parsed.rawSerial }

/-!
# From signing to authentication
-/

/-- A client certificate that was signed is read as it was meant, its serial an
unsigned number in DER. -/
def ReadsSigned (lib : Rcgen) (parser : X509) : Prop :=
  forall serial now tenantSlug hostId lifetimeDays publicKey issuer der,
    lib.signedBy (clientCertParams serial now tenantSlug hostId lifetimeDays) publicKey issuer
        = Except.ok der ->
      exists cert, parser.fromDer der = Except.ok cert ∧
        cert.issuerRaw = issuer.subjectDer ∧
        cert.subjectAltNames = some [GeneralName.uri (spiffeUri tenantSlug hostId)] ∧
        IsInteger (unsigned serial) cert.rawSerial

theorem spiffeParts_spiffeUri {tenantSlug hostId : String} (hslug : '/' ∉ tenantSlug.toList) :
    spiffeParts (spiffeUri tenantSlug hostId) = some (tenantSlug, hostId) := by
  have htext : (spiffeUri tenantSlug hostId).toList
      = "spiffe://nsclient-fleet/".toList ++ (tenantSlug.toList ++ '/' :: hostId.toList) := by
    unfold spiffeUri
    simp only [String.toList_append, List.append_assoc]
    rfl
  unfold spiffeParts
  rw [htext, stripPrefix_append]
  show (do
    let parts ← splitOnce '/' (tenantSlug.toList ++ '/' :: hostId.toList)
    pure (String.ofList parts.1, String.ofList parts.2)) = _
  rw [splitOnce_append_cons hslug]
  simp

theorem rawSerial_eq {drawn : Vector UInt8 16} {raw : Bytes}
    (h : IsInteger (unsigned (randomSerial drawn).toList) raw) :
    raw = (randomSerial drawn).toList := by
  rcases randomSerial_toList drawn with ⟨first, rest, hserial, hpos, hlt⟩
  rw [hserial] at h ⊢
  exact isInteger_unique h (isInteger_unsigned hpos hlt)

theorem parseLeaf_eq_ok {parser : X509} {der : Bytes} {cert : X509Certificate}
    {tenants : Map Bytes (Int × String)} {ctx : PeerHostContext}
    (hcert : parser.fromDer der = Except.ok cert)
    (h : parseLeaf parser der tenants = Except.ok ctx) :
    tenants.lookup cert.issuerRaw = some (ctx.tenantId, ctx.tenantSlug) ∧
      ctx.serialHex = hex cert.rawSerial := by
  unfold parseLeaf at h
  rw [hcert] at h
  dsimp only [Except.mapError, bind, Except.bind] at h
  split at h
  · cases h
  · rename_i tenantId tenantSlug hlookup
    split at h
    · cases h
    · split at h
      · cases h
      · cases h
        exact ⟨hlookup, rfl⟩

theorem parseLeaf_of_cert {parser : X509} {der : Bytes} {cert : X509Certificate}
    {tenants : Map Bytes (Int × String)} {tenantId : Int} {tenantSlug hostId : String}
    (hcert : parser.fromDer der = Except.ok cert)
    (hnames : cert.subjectAltNames = some [GeneralName.uri (spiffeUri tenantSlug hostId)])
    (htenant : tenants.lookup cert.issuerRaw = some (tenantId, tenantSlug))
    (hslug : '/' ∉ tenantSlug.toList) :
    parseLeaf parser der tenants =
      Except.ok { tenantId := tenantId, tenantSlug := tenantSlug, hostId := hostId,
                  serialHex := hex cert.rawSerial } := by
  have hname : spiffeName (cert.subjectAltNames.getD []) = some (tenantSlug, hostId) := by
    rw [hnames]
    exact spiffeParts_spiffeUri hslug
  unfold parseLeaf
  rw [hcert]
  dsimp only [Except.mapError, bind, Except.bind]
  rw [htenant, hname]
  exact if_neg (fun hne => hne rfl)

structure ReadBack (parser : X509) (issuer : Issuer) (der : Bytes)
    (tenantSlug hostId serialHex : String) : Prop where
  serial : exists cert, parser.fromDer der = Except.ok cert ∧ hex cert.rawSerial = serialHex
  /-- It is looked up under no other serial. -/
  lookedUp : forall tenants ctx, parseLeaf parser der tenants = Except.ok ctx ->
    ctx.serialHex = serialHex
  admitted : forall (tenants : Map Bytes (Int × String)) (tenantId : Int),
    tenants.lookup issuer.subjectDer = some (tenantId, tenantSlug) ->
      '/' ∉ tenantSlug.toList ->
        parseLeaf parser der tenants =
          Except.ok { tenantId := tenantId, tenantSlug := tenantSlug, hostId := hostId,
                      serialHex := serialHex }

theorem readBack_of_issued {lib : Rcgen} {parser : X509} (hreads : ReadsSigned lib parser)
    {drawn : Vector UInt8 16} {now : Int} {caCertPem tenantSlug hostId : String}
    {lifetimeDays : Int} {issued : IssuedCert} {issuer : Issuer} {der : Bytes}
    (h : Issued lib drawn now caCertPem tenantSlug hostId lifetimeDays issued issuer der) :
    ReadBack parser issuer der tenantSlug hostId issued.serialHex := by
  rcases h.signed with ⟨publicKey, hsigned⟩
  rcases hreads _ _ _ _ _ _ _ _ hsigned with ⟨cert, hcert, hissuer, hnames, hserial⟩
  have hraw : hex cert.rawSerial = issued.serialHex := by
    rw [h.serialHex, rawSerial_eq hserial]
  constructor
  · exact ⟨cert, hcert, hraw⟩
  · intro tenants ctx hctx
    rw [(parseLeaf_eq_ok hcert hctx).2, hraw]
  · intro tenants tenantId htenant hslug
    rw [← hraw]
    rw [← hissuer] at htenant
    exact parseLeaf_of_cert hcert hnames htenant hslug

/-- The serial that is stored for a certificate is the one the server later takes
from it, and serials that differ are stored under different texts. -/
theorem serials_agree {lib : Rcgen} {parser : X509} (hreads : ReadsSigned lib parser) :
    (forall (drawn : Vector UInt8 16) (now : Int)
      (csrPem caCertPem caKeyPem tenantSlug hostId : String) (lifetimeDays : Int)
      (issued : IssuedCert),
      signClientCert lib drawn now csrPem caCertPem caKeyPem tenantSlug hostId lifetimeDays
          = Except.ok issued ->
        issued.serialHex = hex (randomSerial drawn).toList ∧
          exists issuer der,
            (exists caKey, lib.issuerFromCaCertPem caCertPem caKey = Except.ok issuer) ∧
              issued.certPem = lib.pem der ∧
                ReadBack parser issuer der tenantSlug hostId issued.serialHex) ∧
    (forall drawn drawn' : Vector UInt8 16, randomSerial drawn ≠ randomSerial drawn' ->
      hex (randomSerial drawn).toList ≠ hex (randomSerial drawn').toList) := by
  constructor
  · intro drawn now csrPem caCertPem caKeyPem tenantSlug hostId lifetimeDays issued hsign
    rcases issued_of_signClientCert hsign with ⟨issuer, der, h⟩
    exact ⟨h.serialHex, issuer, der, h.ofCa, h.certPem, readBack_of_issued hreads h⟩
  · intro drawn drawn' hne hsame
    exact hne (Vector.toList_inj.mp (hex_injective hsame))

/-!
# One host
-/

def onesSerial : Bytes :=
  127 :: List.replicate 15 255

/-- Signs one certificate, which is its serial. -/
def oneHostLibrary : Rcgen where
  csrPublicKey := fun _ => Except.ok []
  keyPairFromPem := fun _ => Except.ok []
  issuerFromCaCertPem := fun _ _ => Except.ok { subjectDer := [1], key := [] }
  signedBy := fun params _ issuer =>
    if issuer.subjectDer = [1] ∧ params.subjectAltNames = [spiffeUri "acme" "h"] ∧
        params.serialNumber = onesSerial then
      Except.ok onesSerial
    else Except.error ""
  pem := fun _ => ""
  sha256 := id

def oneHostParser : X509 where
  fromDer := fun der =>
    Except.ok { issuerRaw := [1], issuerText := "",
                subjectAltNames := some [GeneralName.uri (spiffeUri "acme" "h")],
                rawSerial := der }

theorem readsSigned_oneHost : ReadsSigned oneHostLibrary oneHostParser := by
  intro serial now tenantSlug hostId lifetimeDays publicKey issuer der h
  unfold oneHostLibrary clientCertParams at h
  dsimp only at h
  split at h
  · rename_i hparams
    cases h
    refine ⟨_, rfl, hparams.1.symm, ?_, ?_⟩
    · rw [(List.cons.inj hparams.2.1).1]
    · rw [hparams.2.2]
      exact isInteger_unsigned (by decide) (by decide)
  · cases h

theorem serials_agree_oneHost :
    exists issued der,
      signClientCert oneHostLibrary (Vector.replicate 16 255) 0 "" "" "" "acme" "h" 30
          = Except.ok issued ∧
        parseLeaf oneHostParser der (AList.insert [1] (7, "acme") ∅)
          = Except.ok { tenantId := 7, tenantSlug := "acme", hostId := "h",
                        serialHex := issued.serialHex } := by
  have hsign : exists issued,
      signClientCert oneHostLibrary (Vector.replicate 16 255) 0 "" "" "" "acme" "h" 30
        = Except.ok issued := ⟨_, rfl⟩
  rcases hsign with ⟨issued, hsign⟩
  rcases (serials_agree readsSigned_oneHost).1 _ _ _ _ _ _ _ _ _ hsign with
    ⟨_, issuer, der, ⟨caKey, hissuer⟩, _, hread⟩
  cases hissuer
  exact ⟨issued, der, hsign, hread.admitted _ 7 (AList.lookup_insert _) (by decide)⟩

end Transport
end FleetServer
