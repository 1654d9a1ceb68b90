import FleetServer.Concurrency.Record
import FleetServer.Core.Text
import FleetServer.Data.KeyedMap
import FleetServer.Storage.Schema

/-!
# The trust store of the agents' listener

A snapshot of the tenants' CAs that the listener verifies agents against.  It is
rebuilt by reading every CA and, later, storing what was built from them.
-/

namespace FleetServer
namespace Transport

open FleetServer.Core
open Concurrency
open KeyedMap
open Storage (DbError)

/-!
# Building a snapshot
-/

structure CaSummary where
  tenantId : Int
  tenantSlug : String
  caCertPem : String
  caSubjectDn : String

/-- The certificate and TLS libraries, and the server's own certificate. -/
structure Deps where
  parseFirstCertPem : String -> Option Bytes
  caSubjectDer : Bytes -> Option Bytes
  /-- Whether a certificate can be a trust anchor. -/
  addRoot : Bytes -> Bool
  serverCerts : Option (List Bytes)
  /-- Whether a server can be configured with the anchors. -/
  serverConfig : List Bytes -> Bool

/-- The anchors, and the tenant of each CA subject. -/
structure MtlsState where
  roots : List Bytes
  tenantByIssuerDer : Map Bytes (Int × String)

namespace MtlsState

def empty : MtlsState :=
  { roots := [], tenantByIssuerDer := ∅ }

def trustsTenant (st : MtlsState) (tenantId : Int) : Bool :=
  st.tenantByIssuerDer.entries.any fun e => e.2.1 == tenantId

end MtlsState

variable (deps : Deps)

def addCas : List CaSummary -> MtlsState -> Option MtlsState
  | [], st => some st
  | ca :: rest, st =>
      match deps.parseFirstCertPem ca.caCertPem with
      | none => none
      | some der =>
          match deps.caSubjectDer der with
          | none => none
          | some subject =>
              if (st.tenantByIssuerDer.lookup subject).isSome then
                addCas rest { st with tenantByIssuerDer := st.tenantByIssuerDer.erase subject }
              else if deps.addRoot der then
                addCas rest
                  { roots := st.roots ++ [der]
                    tenantByIssuerDer :=
                      st.tenantByIssuerDer.insert subject (ca.tenantId, ca.tenantSlug) }
              else none

def anchors (cas : List CaSummary) (st : MtlsState) (serverCerts : List Bytes) : List Bytes :=
  if cas.isEmpty then st.roots ++ serverCerts.filter deps.addRoot else st.roots

def buildState (cas : List CaSummary) : Option MtlsState :=
  match addCas deps cas MtlsState.empty, deps.serverCerts with
  | some st, some certs =>
      if deps.serverConfig (anchors deps cas st certs) then
        some { st with roots := anchors deps cas st certs }
      else none
  | _, _ => none

/-!
# Calls
-/

structure World where
  cas : List CaSummary
  state : MtlsState

inductive Op where
  | listAllCas
  | store (st : MtlsState)
  | snapshot

@[reducible] def Op.Res : Op -> Type
  | listAllCas => Except DbError (List CaSummary)
  | store _ => Unit
  | snapshot => MtlsState

def exec : (op : Op) -> World -> op.Res × World
  | Op.listAllCas, w => (Except.ok w.cas, w)
  | Op.store st, w => ((), { w with state := st })
  | Op.snapshot, w => (w.state, w)

def fault : (op : Op) -> Option op.Res
  | Op.listAllCas => some (Except.error DbError.unavailable)
  | Op.store _ => none
  | Op.snapshot => none

@[reducible] def machine : Machine Op.Res where
  World := World
  exec := exec
  fault := fault

abbrev Prog (alpha : Type) : Type := Program Op.Res alpha

/-!
# rebuild, ensure_tenant_trusted
-/

inductive TrustError where
  | database
  | build
  | absent (tenantId : Int)

def rebuild : Prog (Except TrustError Unit) := do
  match ← Program.perform Op.listAllCas with
  | Except.error _ => return Except.error TrustError.database
  | Except.ok cas =>
      match buildState deps cas with
      | none => return Except.error TrustError.build
      | some st => do
          Program.perform (Op.store st)
          return Except.ok ()

/-- The last look at the store, after a rebuild. -/
def confirmTrusted (tenantId : Int) : Prog (Except TrustError Unit) := do
  let st ← Program.perform Op.snapshot
  if st.trustsTenant tenantId then return Except.ok ()
  else return Except.error (TrustError.absent tenantId)

def ensureTenantTrusted (tenantId : Int) : Prog (Except TrustError Unit) := do
  let st ← Program.perform Op.snapshot
  if st.trustsTenant tenantId then return Except.ok ()
  else
    match ← rebuild deps with
    | Except.error e => return Except.error e
    | Except.ok () => confirmTrusted tenantId

/-!
# Whom a snapshot trusts
-/

def subjectOf (ca : CaSummary) : Option Bytes :=
  (deps.parseFirstCertPem ca.caCertPem).bind deps.caSubjectDer

def ownSubject (cas : List CaSummary) (ca : CaSummary) : Bool :=
  cas.all fun other => (subjectOf deps other).isNone || subjectOf deps other != subjectOf deps ca

def DistinctSubjects (cas : List CaSummary) : Prop :=
  cas.Pairwise fun a b => forall subject, subjectOf deps a = some subject ->
    subjectOf deps b ≠ some subject

inductive Request where
  | ensureTenantTrusted (tenantId : Int)
  | notifyChange

def program : Request -> Prog (Except TrustError Unit)
  | Request.ensureTenantTrusted tenantId => ensureTenantTrusted deps tenantId
  | Request.notifyChange => rebuild deps

/-- The rebuilds, beside the tenants that are created: a CA is committed unless
its subject is taken. -/
@[reducible] def trustStore : Service Op.Res where
  machine := machine
  Request := Request
  Response := Except TrustError Unit
  program := fun _ request => program deps request
  Env := CaSummary
  disturb := fun ca w =>
    if ownSubject deps w.cas ca then { w with cas := w.cas ++ [ca] } else w

variable {deps}

theorem trustsTenant_iff {st : MtlsState} {tenantId : Int} :
    st.trustsTenant tenantId = true <->
      exists subject slug, st.tenantByIssuerDer.lookup subject = some (tenantId, slug) := by
  unfold MtlsState.trustsTenant
  rw [List.any_eq_true]
  constructor
  · intro h
    rcases h with ⟨e, he, hid⟩
    refine ⟨e.1, e.2.2, ?_⟩
    have hlookup : e.2 ∈ st.tenantByIssuerDer.lookup e.1 := AList.mem_lookup_iff.mpr he
    rw [Option.mem_def.mp hlookup, ← beq_iff_eq.mp hid]
  · intro h
    rcases h with ⟨subject, slug, hlookup⟩
    have hmem : (tenantId, slug) ∈ st.tenantByIssuerDer.lookup subject := hlookup
    exact ⟨⟨subject, (tenantId, slug)⟩, AList.mem_lookup_iff.mp hmem, beq_self_eq_true tenantId⟩

theorem trustsTenant_insert {st : MtlsState} {roots : List Bytes} {subject : Bytes} {id : Int}
    {slug : String} {tenantId : Int} (hfresh : st.tenantByIssuerDer.lookup subject = none) :
    MtlsState.trustsTenant
      { roots := roots, tenantByIssuerDer := st.tenantByIssuerDer.insert subject (id, slug) }
      tenantId = true <-> st.trustsTenant tenantId = true ∨ id = tenantId := by
  rw [trustsTenant_iff, trustsTenant_iff]
  constructor
  · intro h
    rcases h with ⟨key, name, hlookup⟩
    by_cases hkey : key = subject
    · rw [hkey, AList.lookup_insert] at hlookup
      cases hlookup
      exact Or.inr rfl
    · rw [AList.lookup_insert_ne hkey] at hlookup
      exact Or.inl ⟨key, name, hlookup⟩
  · intro h
    rcases h with ⟨key, name, hlookup⟩ | hid
    · have hkey : key ≠ subject := by
        intro hkey
        rw [hkey, hfresh] at hlookup
        cases hlookup
      refine ⟨key, name, ?_⟩
      rw [AList.lookup_insert_ne hkey]
      exact hlookup
    · refine ⟨subject, slug, ?_⟩
      rw [AList.lookup_insert, hid]

theorem trustsTenant_addCas {cas : List CaSummary} {st st' : MtlsState} {tenantId : Int}
    (hdistinct : DistinctSubjects deps cas)
    (hfresh : forall ca, ca ∈ cas -> forall subject, subjectOf deps ca = some subject ->
      st.tenantByIssuerDer.lookup subject = none)
    (hadd : addCas deps cas st = some st') :
    st'.trustsTenant tenantId = true <->
      st.trustsTenant tenantId = true ∨ exists ca, ca ∈ cas ∧ ca.tenantId = tenantId := by
  induction cas generalizing st with
  | nil =>
      cases hadd
      simp
  | cons ca rest ih =>
      rcases List.pairwise_cons.mp hdistinct with ⟨hhead, hrest⟩
      simp only [addCas] at hadd
      split at hadd
      · cases hadd
      · rename_i der hder
        split at hadd
        · cases hadd
        · rename_i subject hsubject
          have hof : subjectOf deps ca = some subject := by
            unfold subjectOf
            rw [hder]
            exact hsubject
          have hnone := hfresh ca List.mem_cons_self subject hof
          rw [hnone] at hadd
          split at hadd
          · rename_i hsome
            cases hsome
          · split at hadd
            · have hfresh' : forall ca', ca' ∈ rest -> forall key, subjectOf deps ca' = some key ->
                  (st.tenantByIssuerDer.insert subject (ca.tenantId, ca.tenantSlug)).lookup key =
                    none := by
                intro ca' hca' key hkey
                have hne : key ≠ subject := by
                  intro hsame
                  rw [hsame] at hkey
                  exact hhead ca' hca' subject hof hkey
                rw [AList.lookup_insert_ne hne]
                exact hfresh ca' (List.mem_cons_of_mem _ hca') key hkey
              rw [ih hrest hfresh' hadd, trustsTenant_insert hnone, or_assoc]
              apply or_congr Iff.rfl
              constructor
              · intro h
                rcases h with hid | ⟨ca', hca', hid⟩
                · exact ⟨ca, List.mem_cons_self, hid⟩
                · exact ⟨ca', List.mem_cons_of_mem _ hca', hid⟩
              · intro h
                rcases h with ⟨ca', hca', hid⟩
                rcases List.mem_cons.mp hca' with hsame | hmem
                · rw [hsame] at hid
                  exact Or.inl hid
                · exact Or.inr ⟨ca', hmem, hid⟩
            · cases hadd

theorem trustsTenant_buildState {cas : List CaSummary} {st : MtlsState} {tenantId : Int}
    (hdistinct : DistinctSubjects deps cas) (hbuild : buildState deps cas = some st) :
    st.trustsTenant tenantId = true <-> exists ca, ca ∈ cas ∧ ca.tenantId = tenantId := by
  unfold buildState at hbuild
  split at hbuild
  · rename_i built certs hadd hcerts
    split at hbuild
    · cases hbuild
      have hall : built.trustsTenant tenantId = true <->
          MtlsState.empty.trustsTenant tenantId = true ∨
            exists ca, ca ∈ cas ∧ ca.tenantId = tenantId :=
        trustsTenant_addCas hdistinct (fun _ _ _ _ => rfl) hadd
      show built.trustsTenant tenantId = true <-> _
      rw [hall]
      constructor
      · intro h
        rcases h with hempty | hca
        · cases hempty
        · exact hca
      · exact Or.inr
    · cases hbuild
  · cases hbuild

def plainDeps : Deps :=
  { parseFirstCertPem := fun pem => some (pem.toList.map fun c => UInt8.ofNat c.toNat)
    caSubjectDer := some, addRoot := fun _ => true, serverCerts := some []
    serverConfig := fun _ => true }

end Transport
end FleetServer
