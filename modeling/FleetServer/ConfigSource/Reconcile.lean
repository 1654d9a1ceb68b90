import FleetServer.Bundles.Upload
import FleetServer.ConfigSource.Layout

/-!
# Making a tenant match its configuration directory

The plan is made from the directory and what was read of the tenant; the bytes
of new bundles are stored before the rows are replaced in one transaction.
-/

namespace FleetServer
namespace ConfigSource

open FleetServer.Core
open Storage
open Server
open Concurrency

variable (deps : Deps)

structure ReloadReport where
  changed : Bool
  dryRun : Bool
  bundlesAdded : List String
  bundlesReplaced : List String
  bundlesRemoved : List String
  bundlesUnchanged : Nat
  groupsAdded : List String
  groupsUpdated : List String
  groupsRemoved : List String
  groupsUnchanged : Nat
  assignmentsChanged : Bool
deriving DecidableEq

inductive ReconcileError where
  | invalid (errors : List String)
  | changed
  | internal
deriving DecidableEq

/-!
# build_bundles
-/

/-- A bundle of the directory, made into what would be stored. -/
structure BuiltBundle where
  name : String
  version : String
  format : String
  bytes : Bytes
  sha256 : String
  keyFingerprint : Option String
  /-- The files, for a tree. -/
  tree : Option (List (String × Bytes))

def label (name version : String) : String :=
  name ++ "@" ++ version

def contentsOf (label : String) :
    BundleContents ->
      Except String (String × Bytes × Option String × Option (List (String × Bytes)))
  | BundleContents.tree files =>
      match Bundles.buildZipFromEntries deps files with
      | some bytes => Except.ok (EncBundle.formatPlain, bytes, none, some files)
      | none => Except.error (label ++ ": could not be zipped")
  | BundleContents.plainBlob bytes =>
      if EncBundle.isEncrypted bytes then
        Except.error (label ++ ": the ." ++ plainBlobExt ++
          " file is an encrypted bundle — name it ." ++ encryptedExt)
      else Except.ok (EncBundle.formatPlain, bytes, none, none)
  | BundleContents.encrypted bytes =>
      match EncBundle.parseHeader bytes with
      | Except.ok h => Except.ok (EncBundle.formatEncV1, bytes, some h.fingerprintHex, none)
      | Except.error e =>
          Except.error (label ++ ": not a valid encrypted bundle: " ++ e.message)

def buildBundle (maxBundleMb : Nat) (spec : BundleSpec) : Except String BuiltBundle := do
  let label := label spec.name spec.version
  let (format, bytes, keyFingerprint, tree) ← contentsOf deps label spec.contents
  if maxBundleMb * 1024 * 1024 < bytes.length then
    Except.error (label ++ ": " ++ toString bytes.length ++ " bytes, over the tier's " ++
      toString maxBundleMb ++ " MB")
  else
    return { name := spec.name, version := spec.version, format := format, bytes := bytes,
             sha256 := deps.sha256Hex bytes, keyFingerprint := keyFingerprint, tree := tree }

def buildBundles (maxBundleMb : Nat) :
    List BundleSpec -> Except (List String) (List BuiltBundle)
  | [] => Except.ok []
  | spec :: rest =>
      match buildBundle deps maxBundleMb spec, buildBundles maxBundleMb rest with
      | Except.ok b, Except.ok others => Except.ok (b :: others)
      | Except.ok _, Except.error errors => Except.error errors
      | Except.error e, Except.ok _ => Except.error [e]
      | Except.error e, Except.error errors => Except.error (e :: errors)

def builtWithin (limits : TierLimits) (specs : List BundleSpec) :
    Except ReconcileError (List BuiltBundle) :=
  match buildBundles deps limits.maxBundleMb specs with
  | Except.error errors => Except.error (ReconcileError.invalid errors)
  | Except.ok built =>
      if limits.maxBundles < built.length then
        Except.error (ReconcileError.invalid
          [toString built.length ++ " bundle versions, but the tier allows " ++
            toString limits.maxBundles])
      else Except.ok built

/-!
# unchanged
-/

/-- A tree is equal to a stored zip with the same files, however it was made. -/
def sameTree (tree : List (String × Bytes)) (stored : Bytes) : Bool :=
  match Bundles.readZipEntries deps stored with
  | Except.error _ => false
  | Except.ok entries => sortByPath entries == tree

def unchanged (row : BundleRow) (b : BuiltBundle) : Prog Bool :=
  if row.format ≠ b.format then return false
  else if row.sha256 = b.sha256 then return true
  else
    match b.tree with
    | none => return false
    | some tree => do
        match ← storeGet row.tenantId row.id with
        | Except.error _ => return false
        | Except.ok stored => return sameTree deps tree stored

/-!
# Planning the bundles
-/

structure Planning where
  insertBundles : List PlannedBundle
  toStore : List (String × Bytes)
  /-- The id of every name and version of the directory. -/
  bundleIds : List ((String × String) × String)
  kept : List String
  added : List String
  replaced : List String
  signingKey : Option Bytes
  /-- How many ids were drawn. -/
  drawn : Nat

def Planning.start : Planning :=
  { insertBundles := [], toStore := [], bundleIds := [], kept := [], added := [],
    replaced := [], signingKey := none, drawn := 0 }

def Planning.keep (p : Planning) (row : BundleRow) (b : BuiltBundle) : Planning :=
  { p with kept := p.kept ++ [row.id]
           bundleIds := p.bundleIds ++ [((b.name, b.version), row.id)] }

def Planning.report (p : Planning) (current : Option BundleRow) (b : BuiltBundle) : Planning :=
  match current with
  | some _ => { p with replaced := p.replaced ++ [label b.name b.version] }
  | none => { p with added := p.added ++ [label b.name b.version] }

def plannedBundle (id signature : String) (b : BuiltBundle) : PlannedBundle :=
  { id := id, name := b.name, version := b.version, sha256 := b.sha256,
    sizeBytes := b.bytes.length, signature := signature, format := b.format,
    keyFingerprint := b.keyFingerprint }

def Planning.insert (p : Planning) (id signature : String) (b : BuiltBundle) : Planning :=
  { p with insertBundles := p.insertBundles ++ [plannedBundle id signature b]
           toStore := p.toStore ++ [(id, b.bytes)]
           bundleIds := p.bundleIds ++ [((b.name, b.version), id)]
           drawn := p.drawn + 1 }

def withSigningKey {beta : Type} (tenantId : Int) (loaded : Option Bytes) (failed : beta)
    (next : Bytes -> Prog beta) : Prog beta :=
  match loaded with
  | some key => next key
  | none =>
      askOr (Query.tenantSecrets tenantId) failed fun secrets =>
        match Bundles.loadSigningKey deps tenantId secrets with
        | none => return failed
        | some key => next key

def builtDescriptor (tenantId : Int) (id : String) (b : BuiltBundle) : BundleDescriptor :=
  { tenantId := tenantId, bundleId := id, name := b.name, version := b.version,
    format := b.format, sha256Hex := b.sha256 }

/-- Plan a new row; a dry run signs nothing. -/
def planInsert (request : Nat) (tenantId : Int) (dryRun : Bool) (p : Planning)
    (b : BuiltBundle) : Prog (Except ReconcileError Planning) :=
  let id := deps.ulid request p.drawn
  if dryRun then return Except.ok (p.insert id "" b)
  else
    withSigningKey deps tenantId p.signingKey (Except.error ReconcileError.internal)
      fun key =>
        let signature := Bundles.signDescriptor deps key (builtDescriptor tenantId id b)
        return Except.ok ({ p with signingKey := some key }.insert id signature b)

def byIdentity (existing : List BundleRow) (name version : String) : Option BundleRow :=
  existing.reverse.find? fun b => b.name == name && b.version == version

def unchangedRow (current : Option BundleRow) (b : BuiltBundle) :
    Prog (Option BundleRow) :=
  match current with
  | none => return none
  | some row => do
      if ← unchanged deps row b then return some row else return none

def planBundles (request : Nat) (tenantId : Int) (dryRun : Bool)
    (existing : List BundleRow) (p : Planning) :
    List BuiltBundle -> Prog (Except ReconcileError Planning)
  | [] => return Except.ok p
  | b :: rest => do
      let current := byIdentity existing b.name b.version
      match ← unchangedRow deps current b with
      | some row => planBundles request tenantId dryRun existing (p.keep row b) rest
      | none =>
          match ← planInsert deps request tenantId dryRun (p.report current b) b with
          | Except.error e => return Except.error e
          | Except.ok p => planBundles request tenantId dryRun existing p rest

def notKept (existing : List BundleRow) (p : Planning) : List BundleRow :=
  existing.filter fun row => !p.kept.contains row.id

/-!
# Planning the groups
-/

def groupByName (existing : List GroupRow) (name : String) : Option GroupRow :=
  existing.reverse.find? fun g => g.name == name

structure GroupPlan where
  groups : List PlannedGroup
  added : List String
  updated : List String
  unchanged : Nat
  drawn : Nat

def GroupPlan.start (drawn : Nat) : GroupPlan :=
  { groups := [], added := [], updated := [], unchanged := 0, drawn := drawn }

def planGroup (request : Nat) (existing : List GroupRow) (p : GroupPlan)
    (g : GroupSpec) : GroupPlan :=
  match groupByName existing g.name with
  | some row =>
      let planned : PlannedGroup :=
        { id := row.id, name := g.name, selectorJson := g.selectorJson, create := false }
      if row.selectorJson = g.selectorJson then
        { p with groups := p.groups ++ [planned], unchanged := p.unchanged + 1 }
      else { p with groups := p.groups ++ [planned], updated := p.updated ++ [g.name] }
  | none =>
      let planned : PlannedGroup :=
        { id := deps.ulid request p.drawn, name := g.name, selectorJson := g.selectorJson,
          create := true }
      { p with groups := p.groups ++ [planned], added := p.added ++ [g.name],
               drawn := p.drawn + 1 }

def planGroups (request : Nat) (existing : List GroupRow) (drawn : Nat)
    (specs : List GroupSpec) : GroupPlan :=
  specs.foldl (planGroup deps request existing) (GroupPlan.start drawn)

def removedGroups (existing : List GroupRow) (specs : List GroupSpec) : List GroupRow :=
  existing.filter fun row => !specs.any fun g => g.name == row.name

/-!
# Planning the assignments
-/

def groupIdOf (groups : List PlannedGroup) (name : String) : String :=
  ((groups.reverse.find? fun g => g.name == name).map PlannedGroup.id).getD ""

def bundleIdOf (bundleIds : List ((String × String) × String)) (name version : String) :
    String :=
  (bundleIds.reverse.lookup (name, version)).getD ""

def planAssignments (p : Planning) (groups : List PlannedGroup) (specs : List GroupSpec) :
    List (String × String × Int) :=
  specs.flatMap fun g => g.bundles.map fun r =>
    (groupIdOf groups g.name, bundleIdOf p.bundleIds r.name r.version, r.priority)

def assignmentLe (a b : String × String × Int) : Bool :=
  decide (a.1 < b.1) || (a.1 == b.1 &&
    (decide (a.2.1 < b.2.1) || (a.2.1 == b.2.1 && decide (a.2.2 ≤ b.2.2))))

def sortAssignments (xs : List (String × String × Int)) : List (String × String × Int) :=
  xs.insertionSort (fun a b => assignmentLe a b = true)

/-!
# reconcile
-/

/-- Everything `reconcile` read of the tenant. -/
structure Existing where
  bundles : List BundleRow
  groups : List GroupRow
  assignments : List (String × String × Int)

def configPlan (request : Nat) (existing : Existing) (spec : Spec) (p : Planning) :
    ConfigPlan :=
  let g := planGroups deps request existing.groups p.drawn spec.groups
  { expectedBundleIds := existing.bundles.map BundleRow.id
    expectedGroupIds := existing.groups.map GroupRow.id
    deleteBundleIds := (notKept existing.bundles p).map BundleRow.id
    insertBundles := p.insertBundles
    deleteGroupIds := (removedGroups existing.groups spec.groups).map GroupRow.id
    groups := g.groups
    assignments := planAssignments p g.groups spec.groups }

def reloadReport (request : Nat) (dryRun : Bool) (existing : Existing) (spec : Spec)
    (p : Planning) : ReloadReport :=
  let plan := configPlan deps request existing spec p
  let g := planGroups deps request existing.groups p.drawn spec.groups
  let removed := ((notKept existing.bundles p).map fun row => label row.name row.version).filter
    fun l => !p.replaced.contains l
  let groupsRemoved := (removedGroups existing.groups spec.groups).map GroupRow.name
  let assignmentsChanged :=
    decide (sortAssignments existing.assignments ≠ sortAssignments plan.assignments)
  { changed := !plan.insertBundles.isEmpty || !plan.deleteBundleIds.isEmpty ||
      !g.added.isEmpty || !g.updated.isEmpty || !groupsRemoved.isEmpty || assignmentsChanged
    dryRun := dryRun
    bundlesAdded := p.added
    bundlesReplaced := p.replaced
    bundlesRemoved := removed
    bundlesUnchanged := p.kept.length
    groupsAdded := g.added
    groupsUpdated := g.updated
    groupsRemoved := groupsRemoved
    groupsUnchanged := g.unchanged
    assignmentsChanged := assignmentsChanged }

/-- Delete stored files, whatever comes of it. -/
def discard (tenantId : Int) : List String -> Prog Unit
  | [] => return ()
  | id :: rest => do
      let _ ← storeDelete tenantId id
      discard tenantId rest

def storeAll (tenantId : Int) : List (String × Bytes) -> Prog Bool
  | [] => return true
  | (id, bytes) :: rest => do
      match ← storePut tenantId id bytes with
      | Except.error _ => return false
      | Except.ok () => storeAll tenantId rest

/-- Give up: the files stored so far belong to no row. -/
def giveUp (tenantId : Int) (toStore : List (String × Bytes)) (e : ReconcileError) :
    Prog (Except ReconcileError ReloadReport) := do
  discard tenantId (toStore.map Prod.fst)
  return Except.error e

/-- Bytes before rows: a row is never visible without its file. -/
def applyPlan (tenantId : Int) (plan : ConfigPlan) (toStore : List (String × Bytes))
    (report : ReloadReport) : Prog (Except ReconcileError ReloadReport) := do
  if !(← storeAll tenantId toStore) then
    giveUp tenantId toStore ReconcileError.internal
  else
    match ← execute (Statement.applyConfig tenantId plan) with
    | Except.error _ => giveUp tenantId toStore ReconcileError.internal
    | Except.ok ApplyOutcome.changed => giveUp tenantId toStore ReconcileError.changed
    | Except.ok ApplyOutcome.applied => do
        discard tenantId plan.deleteBundleIds
        return Except.ok report

def reconcilePlanned (request : Nat) (tenantId : Int) (dryRun : Bool) (existing : Existing)
    (spec : Spec) (p : Planning) : Prog (Except ReconcileError ReloadReport) :=
  let report := reloadReport deps request dryRun existing spec p
  if dryRun || !report.changed then return Except.ok report
  else applyPlan tenantId (configPlan deps request existing spec p) p.toStore report

def reconcileExisting (request : Nat) (tenantId : Int) (dryRun : Bool) (limits : TierLimits)
    (spec : Spec) (existing : Existing) : Prog (Except ReconcileError ReloadReport) :=
  match builtWithin deps limits spec.bundles with
  | Except.error e => return Except.error e
  | Except.ok built => do
      match ← planBundles deps request tenantId dryRun existing.bundles Planning.start built with
      | Except.error e => return Except.error e
      | Except.ok p => reconcilePlanned deps request tenantId dryRun existing spec p

/-- Read the tenant, then make it match what the directory holds. -/
def reconcileSpec (request : Nat) (tenantId : Int) (dryRun : Bool) (spec : Spec) :
    Prog (Except ReconcileError ReloadReport) :=
  let failed := Except.error ReconcileError.internal
  askOr (Query.tenant tenantId) failed fun
    | none => return failed
    | some tenant =>
        askOr (Query.bundles tenantId) failed fun bundles =>
        askOr (Query.groups tenantId) failed fun groups =>
        askOr (Query.assignments tenantId) failed fun assignments =>
          reconcileExisting deps request tenantId dryRun
            (deps.limits tenant.tier tenant.tierOverridesJson) spec
            { bundles := bundles, groups := groups, assignments := assignments }

def reconcile (request : Nat) (tenantId : Int) (shown : String) (dir : Node)
    (dryRun : Bool) : Prog (Except ReconcileError ReloadReport) :=
  match load deps shown dir with
  | Except.error errors => return Except.error (ReconcileError.invalid errors)
  | Except.ok spec => reconcileSpec deps request tenantId dryRun spec

end ConfigSource
end FleetServer
