import FleetServer.Concurrency.Pool
import FleetServer.Agent.DesiredStateCache
import FleetServer.Server.Deps
import FleetServer.Storage.ConfigSource
import FleetServer.Storage.Facts
import FleetServer.Storage.HostTags

/-!
# The server's shared state and the calls on it

Requests share the database, the desired-state cache, the facts catalog's
generations and the file store.  A call is one query, one statement or
transaction, one operation of a cache, or one file operation; each is atomic.
A database call or a file operation may fail, and then changes nothing.
-/

namespace FleetServer
namespace Server

open FleetServer.Core
open Storage
open KeyedMap
open Agent
open Concurrency

structure DesiredBundle where
  id : String
  name : String
  version : String
  sha256 : String
  signature : String
  priority : Int
  format : String

structure DesiredState where
  stateHash : String
  mergedConfig : Json
  bundles : List DesiredBundle

/-!
# The facts catalog's generations
-/

inductive CatalogChange where
  | stored
  | removed
  | operator
deriving DecidableEq

structure CatalogGeneration where
  any : Nat
  removed : Nat
deriving DecidableEq

/-- A tenant's documents changed. -/
def CatalogGeneration.bump (change : CatalogChange) (g : CatalogGeneration) :
    CatalogGeneration :=
  { any := g.any + 1
    removed := if change ≠ CatalogChange.stored then g.removed + 1 else g.removed }

/-!
# The world
-/

structure World where
  db : Db
  cache : DesiredStateCache DesiredState
  catalog : Map Int CatalogGeneration
  files : Map (Int × String) Bytes
  now : Int

/-- A freshly started server on a database and its stored files. -/
def World.start (db : Db) (files : Map (Int × String) Bytes) (now : Int) : World :=
  { db := db, cache := DesiredStateCache.new, catalog := ∅, files := files, now := now }

/-- A database with one tenant, which has limits of its own, and its keys. -/
def sampleDb : Db :=
  { Db.empty with
    tenants := [{ id := 1, slug := "acme", name := "Acme", tier := "free",
                  tierOverridesJson := some "{}", trialExpiresAt := none, configVersion := 1,
                  createdAt := 0 }]
    tenantSecrets := [{ tenantId := 1, caCertPem := "", caKeyEncrypted := List.replicate 28 0,
                        caSubjectDn := "", bundleSigningPubPem := "",
                        bundleSigningKeyEncrypted := List.replicate 28 0 }] }

def World.bumpCatalog (w : World) (tenantId : Int) (change : CatalogChange) : World :=
  let current := (w.catalog.lookup tenantId).getD { any := 0, removed := 0 }
  { w with catalog := w.catalog.insert tenantId (current.bump change) }

/-!
# Queries
-/

inductive Query where
  | tenant (tenantId : Int)
  | tenantSecrets (tenantId : Int)
  | host (tenantId : Int) (hostId : String)
  | hosts (tenantId : Int)
  | countActive (tenantId : Int)
  | bootstrapPending (tenantId : Int) (hostId nonceHash : String)
  | certStanding (tenantId : Int) (hostId serial : String)
  | hostOverride (tenantId : Int) (hostId : String)
  | manualTag (hostId key : String)
  | tagsForHost (tenantId : Int) (hostId : String)
  | tagsForTenant (tenantId : Int)
  | tagValuesForKey (tenantId : Int) (key : String)
  | groups (tenantId : Int)
  | group (tenantId : Int) (id : String)
  | allBundles
  | bundles (tenantId : Int)
  | bundle (tenantId : Int) (id : String)
  | bundlesNamed (tenantId : Int) (name : String)
  | bundleCount (tenantId : Int)
  | bundlesForGroups (tenantId : Int) (groupIds : List String)
  | assignments (tenantId : Int)
  | facts (tenantId : Int) (hostId source : String)
  | factsHashes (tenantId : Int) (hostId : String)
  | hostsWithSource (tenantId : Int) (source : String)
  | factsDocuments (tenantId : Int) (sources : List String)

@[reducible] def Query.Answer : Query -> Type
  | tenant _ => Option Tenant
  | tenantSecrets _ => Option TenantSecretsRow
  | host _ _ => Option Host
  | hosts _ => List Host
  | countActive _ => Nat
  | bootstrapPending _ _ _ => Bool
  | certStanding _ _ _ => CertStanding
  | hostOverride _ _ => Option StoredHostOverride
  | manualTag _ _ => Option String
  | tagsForHost _ _ => HostTags
  | tagsForTenant _ => String -> HostTags
  | tagValuesForKey _ _ => List (String × String)
  | groups _ => List GroupRow
  | group _ _ => Option GroupRow
  | allBundles => List BundleRow
  | bundles _ => List BundleRow
  | bundle _ _ => Option BundleRow
  | bundlesNamed _ _ => List BundleRow
  | bundleCount _ => Nat
  | bundlesForGroups _ _ => List (BundleRow × Int)
  | assignments _ => List (String × String × Int)
  | facts _ _ _ => Option StoredFacts
  | factsHashes _ _ => Option FactsHashes
  | hostsWithSource _ _ => List String
  | factsDocuments _ _ => List (String × String × String)

def Query.eval (now : Int) (db : Db) : (q : Query) -> q.Answer
  | tenant tenantId => TenantRepo.get tenantId db
  | tenantSecrets tenantId => TenantSecretsRepo.getByTenant tenantId db
  | host tenantId hostId => HostRepo.get tenantId hostId db
  | hosts tenantId => HostRepo.list tenantId db
  | countActive tenantId => HostRepo.countActive tenantId now db
  | bootstrapPending tenantId hostId nonceHash =>
      HostRepo.bootstrapPending tenantId hostId nonceHash now db
  | certStanding tenantId hostId serial =>
      HostCertRepo.standing tenantId hostId serial now db
  | hostOverride tenantId hostId => HostOverridesRepo.get tenantId hostId db
  | manualTag hostId key => HostTagsRepo.manualValue hostId key db
  | tagsForHost tenantId hostId => HostTagsRepo.mapForHost tenantId hostId db
  | tagsForTenant tenantId => HostTagsRepo.mapsForTenant tenantId db
  | tagValuesForKey tenantId key => HostTagsRepo.valuesForKey tenantId key db
  | groups tenantId => GroupsRepo.list tenantId db
  | group tenantId id => GroupsRepo.get tenantId id db
  | allBundles => BundlesRepo.listAll db
  | bundles tenantId => BundlesRepo.list tenantId db
  | bundle tenantId id => BundlesRepo.get tenantId id db
  | bundlesNamed tenantId name => BundlesRepo.listByName tenantId name db
  | bundleCount tenantId => BundlesRepo.count tenantId db
  | bundlesForGroups tenantId groupIds =>
      BundleAssignmentsRepo.listForGroups tenantId groupIds db
  | assignments tenantId => ConfigSourceRepo.listAssignments tenantId db
  | facts tenantId hostId source => HostFactsRepo.get tenantId hostId source db
  | factsHashes tenantId hostId => HostFactsRepo.hashes tenantId hostId db
  | hostsWithSource tenantId source => HostFactsRepo.hostsWithSource tenantId source db
  | factsDocuments tenantId sources => HostFactsRepo.documents tenantId sources db

/-!
# Statements and transactions
-/

/-- What is written in one statement or transaction. -/
inductive Statement where
  | bumpConfigVersion (tenantId : Int)
  | createPending (id : String) (tenantId : Int) (nonceHash : String)
      (bootstrapExpiresAt : Int)
  | enroll (tenantId : Int) (hostId nonceHash : String) (hostname os : Option String)
      (cert : EnrolledCert)
  | deleteHost (tenantId : Int) (hostId : String)
  | touchLastSeen (tenantId : Int) (hostId : String)
  | touchLastSeenIfStale (tenantId : Int) (hostId : String) (staleAfterSecs : Int)
  | setLocalConfigPresent (tenantId : Int) (hostId : String) (present : Bool)
  | setHostOverrideLast (tenantId : Int) (hostId : String) (last : Bool)
  | updateCurrentStateHash (tenantId : Int) (hostId stateHash : String)
  | revokeCertsAndResetToPending (tenantId : Int) (hostId nonceHash : String)
      (bootstrapExpiresAt : Int)
  | recordCert (tenantId : Int) (hostId : String) (cert : EnrolledCert)
  | retireSuperseded (tenantId : Int) (hostId serial : String)
  | upsertOverride (tenantId : Int) (hostId : String) (patchEncrypted : Bytes)
      (priority : Int) (template : Option String) (updatedByUser : Option Int)
  | deleteOverride (tenantId : Int) (hostId : String)
  | upsertManualTag (tenantId : Int) (hostId key value : String)
  | deleteManualTag (tenantId : Int) (hostId key : String)
  | replaceAgentTags (tenantId : Int) (hostId : String) (reported : List (String × String))
  | createGroup (id : String) (tenantId : Int) (name selectorJson : String)
  | updateGroup (tenantId : Int) (id : String) (name selectorJson : Option String)
  | deleteGroup (tenantId : Int) (id : String)
  | createBundle (id : String) (tenantId : Int) (name version sha256 : String)
      (sizeBytes : Int) (signature format : String) (keyFingerprint : Option String)
  | deleteBundle (tenantId : Int) (id : String)
  | renameBundle (tenantId : Int) (from_ to_ : String) (inPlace : List RenamedInPlace)
      (moved : List MovedBundle)
  | replaceSignature (tenantId : Int) (id signature : String)
  | assign (tenantId : Int) (groupId bundleId : String) (priority : Int)
  | unassign (tenantId : Int) (groupId bundleId : String)
  | applyConfig (tenantId : Int) (plan : ConfigPlan)
  | recordRefusal (tenantId : Int) (hostId : String) (status : Int) (hash : Option String)
  | setReportedHash (tenantId : Int) (hostId hash : String)
  | clearReportedHash (tenantId : Int) (hostId : String)
  | replaceFacts (tenantId : Int) (hostId : String) (doc : NewFacts) (keepHistory : Int)
  | refreshCollectedAt (tenantId : Int) (hostId source factsHash collectedAt : String)
  | deleteFacts (tenantId : Int) (hostId source : String)
  | deleteFactsSource (tenantId : Int) (source : String)

@[reducible] def Statement.Answer : Statement -> Type
  | bumpConfigVersion _ => Int
  | createPending _ _ _ _ => Host
  | enroll _ _ _ _ _ _ => Bool
  | deleteHost _ _ => Bool
  | touchLastSeen _ _ => Unit
  | touchLastSeenIfStale _ _ _ => Unit
  | setLocalConfigPresent _ _ _ => Bool
  | setHostOverrideLast _ _ _ => Bool
  | updateCurrentStateHash _ _ _ => Unit
  | revokeCertsAndResetToPending _ _ _ _ => Option Nat
  | recordCert _ _ _ => Unit
  | retireSuperseded _ _ _ => Nat
  | upsertOverride _ _ _ _ _ _ => Unit
  | deleteOverride _ _ => Bool
  | upsertManualTag _ _ _ _ => Unit
  | deleteManualTag _ _ _ => Bool
  | replaceAgentTags _ _ _ => Bool
  | createGroup _ _ _ _ => GroupRow
  | updateGroup _ _ _ _ => Bool
  | deleteGroup _ _ => Bool
  | createBundle _ _ _ _ _ _ _ _ _ => BundleRow
  | deleteBundle _ _ => Bool
  | renameBundle _ _ _ _ _ => RenameOutcome
  | replaceSignature _ _ _ => Unit
  | assign _ _ _ _ => Unit
  | unassign _ _ _ => Bool
  | applyConfig _ _ => ApplyOutcome
  | recordRefusal _ _ _ _ => Unit
  | setReportedHash _ _ _ => Bool
  | clearReportedHash _ _ => Bool
  | replaceFacts _ _ _ _ => ReplaceOutcome
  | refreshCollectedAt _ _ _ _ _ => Bool
  | deleteFacts _ _ _ => Bool
  | deleteFactsSource _ _ => List String

def Statement.tx (now : Int) : (s : Statement) -> Tx s.Answer
  | bumpConfigVersion tenantId => TenantRepo.bumpConfigVersion tenantId
  | createPending id tenantId nonceHash bootstrapExpiresAt =>
      HostRepo.createPending id tenantId nonceHash bootstrapExpiresAt now
  | enroll tenantId hostId nonceHash hostname os cert =>
      HostRepo.enroll tenantId hostId nonceHash hostname os cert now
  | deleteHost tenantId hostId => HostRepo.delete tenantId hostId
  | touchLastSeen tenantId hostId => HostRepo.touchLastSeen tenantId hostId now
  | touchLastSeenIfStale tenantId hostId staleAfterSecs =>
      HostRepo.touchLastSeenIfStale tenantId hostId staleAfterSecs now
  | setLocalConfigPresent tenantId hostId present =>
      HostRepo.setLocalConfigPresent tenantId hostId present
  | setHostOverrideLast tenantId hostId last =>
      HostRepo.setHostOverrideLast tenantId hostId last
  | updateCurrentStateHash tenantId hostId stateHash =>
      HostRepo.updateCurrentStateHash tenantId hostId stateHash now
  | revokeCertsAndResetToPending tenantId hostId nonceHash bootstrapExpiresAt =>
      HostRepo.revokeCertsAndResetToPending tenantId hostId nonceHash bootstrapExpiresAt now
  | recordCert tenantId hostId cert => HostCertRepo.record tenantId hostId cert
  | retireSuperseded tenantId hostId serial =>
      HostCertRepo.retireSuperseded tenantId hostId serial now
  | upsertOverride tenantId hostId patchEncrypted priority template updatedByUser =>
      HostOverridesRepo.upsert
        { tenantId := tenantId, hostId := hostId, patchEncrypted := patchEncrypted,
          priority := priority, template := template, updatedAt := now,
          updatedByUser := updatedByUser }
  | deleteOverride tenantId hostId => HostOverridesRepo.delete tenantId hostId
  | upsertManualTag tenantId hostId key value =>
      HostTagsRepo.upsertManual tenantId hostId key value now
  | deleteManualTag tenantId hostId key =>
      HostTagsRepo.deleteManualTag tenantId hostId key
  | replaceAgentTags tenantId hostId reported =>
      HostTagsRepo.replaceAgentTags tenantId hostId reported now
  | createGroup id tenantId name selectorJson =>
      GroupsRepo.create id tenantId name selectorJson now
  | updateGroup tenantId id name selectorJson =>
      GroupsRepo.update tenantId id name selectorJson
  | deleteGroup tenantId id => GroupsRepo.delete tenantId id
  | createBundle id tenantId name version sha256 sizeBytes signature format keyFingerprint =>
      BundlesRepo.create id tenantId name version sha256 sizeBytes signature format
        keyFingerprint now
  | deleteBundle tenantId id => BundlesRepo.delete tenantId id
  | renameBundle tenantId from_ to_ inPlace moved =>
      BundlesRepo.rename tenantId from_ to_ inPlace moved
  | replaceSignature tenantId id signature =>
      BundlesRepo.replaceSignature tenantId id signature
  | assign tenantId groupId bundleId priority =>
      BundleAssignmentsRepo.assign tenantId groupId bundleId priority now
  | unassign tenantId groupId bundleId =>
      BundleAssignmentsRepo.unassign tenantId groupId bundleId
  | applyConfig tenantId plan => ConfigSourceRepo.apply tenantId plan now
  | recordRefusal tenantId hostId status hash =>
      HostFactsRepo.recordRefusal tenantId hostId status hash now
  | setReportedHash tenantId hostId hash =>
      HostFactsRepo.setReportedHash tenantId hostId hash now
  | clearReportedHash tenantId hostId => HostFactsRepo.clearReportedHash tenantId hostId now
  | replaceFacts tenantId hostId doc keepHistory =>
      HostFactsRepo.replace tenantId hostId doc keepHistory now
  | refreshCollectedAt tenantId hostId source factsHash collectedAt =>
      HostFactsRepo.refreshCollectedAt tenantId hostId source factsHash collectedAt now
  | deleteFacts tenantId hostId source => HostFactsRepo.delete tenantId hostId source
  | deleteFactsSource tenantId source => HostFactsRepo.deleteSource tenantId source

/-!
# Calls
-/

/-- Why a file operation fails. -/
inductive StoreError where
  | missing
  | unavailable
deriving DecidableEq

inductive Op where
  | query (q : Query)
  | statement (s : Statement)
  | cacheGet (key : HostKey) (version : Int)
  | cacheTicket (key : HostKey)
  | cachePut (key : HostKey) (ticket : CacheTicket) (version : Int) (state : DesiredState)
  | invalidateHost (key : HostKey)
  | forgetHost (key : HostKey)
  | bumpCatalog (tenantId : Int) (change : CatalogChange)
  | storePut (tenantId : Int) (id : String) (bytes : Bytes)
  | storeGet (tenantId : Int) (id : String)
  | storeDelete (tenantId : Int) (id : String)
  | nowUnix

@[reducible] def Op.Res : Op -> Type
  | query q => Except DbError q.Answer
  | statement s => Except DbError s.Answer
  | cacheGet _ _ => Option DesiredState
  | cacheTicket _ => CacheTicket
  | cachePut _ _ _ _ => Bool
  | invalidateHost _ => Unit
  | forgetHost _ => Unit
  | bumpCatalog _ _ => Unit
  | storePut _ _ _ => Except StoreError Unit
  | storeGet _ _ => Except StoreError Bytes
  | storeDelete _ _ => Except StoreError Unit
  | nowUnix => Int

def Statement.exec (s : Statement) (w : World) : Except DbError s.Answer × World :=
  match s.tx w.now w.db with
  | Except.ok (answer, db) => (Except.ok answer, { w with db := db })
  | Except.error e => (Except.error e, w)

def exec : (op : Op) -> World -> op.Res × World
  | Op.query q, w => (Except.ok (q.eval w.now w.db), w)
  | Op.statement s, w => s.exec w
  | Op.cacheGet key version, w =>
      ((w.cache.get key version w.now).1, { w with cache := (w.cache.get key version w.now).2 })
  | Op.cacheTicket key, w => (w.cache.ticket key, w)
  | Op.cachePut key ticket version state, w =>
      ((w.cache.putIfCurrent key ticket version state w.now).1,
        { w with cache := (w.cache.putIfCurrent key ticket version state w.now).2 })
  | Op.invalidateHost key, w => ((), { w with cache := w.cache.invalidateHost key w.now })
  | Op.forgetHost key, w => ((), { w with cache := w.cache.forgetHost key })
  | Op.bumpCatalog tenantId change, w => ((), w.bumpCatalog tenantId change)
  | Op.storePut tenantId id bytes, w =>
      (Except.ok (), { w with files := w.files.insert (tenantId, id) bytes })
  | Op.storeGet tenantId id, w =>
      match w.files.lookup (tenantId, id) with
      | some bytes => (Except.ok bytes, w)
      | none => (Except.error StoreError.missing, w)
  | Op.storeDelete tenantId id, w =>
      (Except.ok (), { w with files := w.files.erase (tenantId, id) })
  | Op.nowUnix, w => (w.now, w)

/-- What the caller sees of a call that fails. -/
def fault : (op : Op) -> Option op.Res
  | Op.query _ => some (Except.error DbError.unavailable)
  | Op.statement _ => some (Except.error DbError.unavailable)
  | Op.storePut _ _ _ => some (Except.error StoreError.unavailable)
  | Op.storeGet _ _ => some (Except.error StoreError.unavailable)
  | Op.storeDelete _ _ => some (Except.error StoreError.unavailable)
  | Op.cacheGet _ _ => none
  | Op.cacheTicket _ => none
  | Op.cachePut _ _ _ _ => none
  | Op.invalidateHost _ => none
  | Op.forgetHost _ => none
  | Op.bumpCatalog _ _ => none
  | Op.nowUnix => none

@[reducible] def machine : Machine Op.Res where
  World := World
  exec := exec
  fault := fault

abbrev Prog (alpha : Type) : Type := Program Op.Res alpha

/-!
## Calls as programs
-/

def ask (q : Query) : Prog (Except DbError q.Answer) :=
  Program.perform (Op.query q)

def execute (s : Statement) : Prog (Except DbError s.Answer) :=
  Program.perform (Op.statement s)

/-- Go on with the answer, or stop with `failed`. -/
def onOk {alpha beta : Type} (failed : beta) (next : alpha -> Prog beta) :
    Except DbError alpha -> Prog beta
  | Except.ok answer => next answer
  | Except.error _ => Program.done failed

def askOr {beta : Type} (q : Query) (failed : beta) (next : q.Answer -> Prog beta) :
    Prog beta :=
  Program.call (Op.query q) (onOk failed next)

/-- As `askOr`, for a statement. -/
def executeOr {beta : Type} (s : Statement) (failed : beta)
    (next : s.Answer -> Prog beta) : Prog beta :=
  Program.call (Op.statement s) (onOk failed next)

/-- Make a statement whose outcome, a failure included, changes nothing. -/
def executeLogged (s : Statement) : Prog Unit :=
  Program.call (Op.statement s) fun _ => Program.done ()

def cacheGet (key : HostKey) (version : Int) : Prog (Option DesiredState) :=
  Program.perform (Op.cacheGet key version)

def cacheTicket (key : HostKey) : Prog CacheTicket :=
  Program.perform (Op.cacheTicket key)

def putIfCurrent (key : HostKey) (ticket : CacheTicket) (version : Int)
    (state : DesiredState) : Prog Bool :=
  Program.perform (Op.cachePut key ticket version state)

def invalidateHost (key : HostKey) : Prog Unit :=
  Program.perform (Op.invalidateHost key)

def forgetHost (key : HostKey) : Prog Unit :=
  Program.perform (Op.forgetHost key)

def bumpCatalog (tenantId : Int) (change : CatalogChange) : Prog Unit :=
  Program.perform (Op.bumpCatalog tenantId change)

def storePut (tenantId : Int) (id : String) (bytes : Bytes) : Prog (Except StoreError Unit) :=
  Program.perform (Op.storePut tenantId id bytes)

def storeGet (tenantId : Int) (id : String) : Prog (Except StoreError Bytes) :=
  Program.perform (Op.storeGet tenantId id)

def storeDelete (tenantId : Int) (id : String) : Prog (Except StoreError Unit) :=
  Program.perform (Op.storeDelete tenantId id)

def nowUnix : Prog Int :=
  Program.perform Op.nowUnix

end Server
end FleetServer
