import FleetServer.Bundles.Rename
import FleetServer.ConfigSource.Staging
import FleetServer.Server.Service
import FleetServer.Server.Walk

/-!
# Where requests write bundles

Every request on bundles reads, and then writes once: a row and its bytes, a
staged file, a rename, or a whole plan.  What holds before the request holds
throughout it when that one write keeps it.
-/

namespace FleetServer
namespace Bundles

open FleetServer.Core
open Storage
open Server
open Concurrency

variable {deps : Deps}

/-!
# What is written
-/

def HasKey (deps : Deps) (tenantId : Int) (db : Db) (key : Bytes) : Prop :=
  loadSigningKey deps tenantId (TenantSecretsRepo.getByTenant tenantId db) = some key

/-- What a bundle is made of: an uploaded file under the format its form names,
or a zip of the server's own. -/
inductive Origin (deps : Deps) (b : NewBundle) : Prop where
  | uploaded (declared : Option String) (hformat : formatOf declared = Except.ok b.format)
      (hfingerprint : keyFingerprintOf b.format b.bytes = Except.ok b.keyFingerprint)
  | composed (stamp : Option Int) (entries : List (String × Bytes))
      (hzip : deps.buildZip stamp entries = some b.bytes)
      (hformat : b.format = EncBundle.formatPlain) (hfingerprint : b.keyFingerprint = none)

structure Moved (deps : Deps) (tenantId : Int) (key : Bytes) (from_ to_ : String) (w : World)
    (m : MovedBundle) : Prop where
  fresh : BundlesRepo.get tenantId m.newId w.db = none
  staged : exists version bytes,
    version ∈ BundlesRepo.listByName tenantId from_ w.db ∧ isPlain version = false ∧
      w.files.lookup (tenantId, m.newId) = some bytes ∧
      movedBundle deps tenantId key to_ m.newId version bytes = Except.ok m

def SignedAs (deps : Deps) (tenantId : Int) (w : World) (b : PlannedBundle)
    (built : ConfigSource.BuiltBundle) : Prop :=
  exists key, HasKey deps tenantId w.db key ∧
    b = ConfigSource.plannedBundle b.id
      (signDescriptor deps key (ConfigSource.builtDescriptor tenantId b.id built)) built

structure Planned (deps : Deps) (n : Nat) (tenantId : Int) (w : World) (plan : ConfigPlan)
    (p : ConfigSource.Planning) : Prop where
  staged : deps.UniqueIds -> ConfigSource.Staged deps n p
  inserts : plan.insertBundles = p.insertBundles
  deletes : forall id, id ∈ plan.deleteBundleIds -> exists row, row ∈ w.db.bundles ∧ row.id = id
  made : forall b, b ∈ p.insertBundles -> exists spec built,
    ConfigSource.BuiltFrom deps spec built ∧ SignedAs deps tenantId w b built ∧
      (b.id, built.bytes) ∈ p.toStore

/-!
## Planning
-/

structure Signing (deps : Deps) (n : Nat) (tenantId : Int) (w : World)
    (built : List ConfigSource.BuiltBundle) (p : ConfigSource.Planning) : Prop where
  staged : deps.UniqueIds -> ConfigSource.Staged deps n p
  key : forall key, p.signingKey = some key -> HasKey deps tenantId w.db key
  made : forall b, b ∈ p.insertBundles -> exists c, c ∈ built ∧
    SignedAs deps tenantId w b c ∧ (b.id, c.bytes) ∈ p.toStore

section Signing

variable {n : Nat} {tenantId : Int} {w : World} {built : List ConfigSource.BuiltBundle}

theorem signing_start (built : List ConfigSource.BuiltBundle) :
    Signing deps n tenantId w built ConfigSource.Planning.start := by
  constructor
  · exact fun _ => ConfigSource.staged_start n
  · intro key h
    cases h
  · intro b hb
    cases hb

theorem signing_insert {p : ConfigSource.Planning} {c : ConfigSource.BuiltBundle} {key : Bytes}
    (hp : Signing deps n tenantId w built p) (hc : c ∈ built)
    (hsha : c.sha256 = deps.sha256Hex c.bytes) (hkey : HasKey deps tenantId w.db key) :
    Signing deps n tenantId w built
      (({ p with signingKey := some key } : ConfigSource.Planning).insert (deps.ulid n p.drawn)
        (signDescriptor deps key
          (ConfigSource.builtDescriptor tenantId (deps.ulid n p.drawn) c)) c) := by
  constructor
  · intro hids
    exact ConfigSource.staged_insert hids
      (ConfigSource.staged_of_eq (hp.staged hids) rfl rfl rfl) hsha
  · intro key' h
    cases h
    exact hkey
  · intro b hb
    rcases List.mem_append.mp hb with hb | hb
    · rcases hp.made b hb with ⟨c', hc', hsigned, hstored⟩
      exact ⟨c', hc', hsigned, List.mem_append_left _ hstored⟩
    · rw [List.mem_singleton.mp hb]
      exact ⟨c, hc, ⟨key, hkey, rfl⟩, List.mem_append_right _ (List.mem_singleton_self _)⟩

theorem signing_planInsert {p : ConfigSource.Planning} {c : ConfigSource.BuiltBundle}
    (hp : Signing deps n tenantId w built p) (hc : c ∈ built)
    (hsha : c.sha256 = deps.sha256Hex c.bytes) :
    Program.EndsGiven (fun op r => (machine.exec op w).1 = r ∨ machine.fault op = some r)
      (fun r => forall q, r = Except.ok q -> Signing deps n tenantId w built q)
      (ConfigSource.planInsert deps n tenantId false p c) := by
  unfold ConfigSource.planInsert ConfigSource.withSigningKey
  simp only [Bool.false_eq_true, if_false]
  cases hloaded : p.signingKey with
  | some key =>
      intro q h
      cases h
      exact signing_insert hp hc hsha (hp.key key hloaded)
  | none =>
      intro r hr
      rcases hr with hr | hr
      · cases hr
        simp only [exec, onOk]
        split
        · intro q h
          cases h
        · rename_i key hkey
          intro q h
          cases h
          exact signing_insert hp hc hsha hkey
      · cases hr
        intro q h
        cases h

end Signing

/-!
# Up to the write
-/

/-- The invariant holds wherever the program may be cut off, and at its end. -/
abbrev Throughout (CutOff : Op -> World -> Prop) (Inv : World -> Prop) {alpha : Type}
    (p : Prog alpha) (w : World) : Prop :=
  Safe machine CutOff Inv (fun _ => Inv) p w

section Walk

variable {CutOff : Op -> World -> Prop} {Inv : World -> Prop} {n : Nat} {w : World}

theorem throughout_persistBundle {tenantId : Int} {b : NewBundle}
    {answer : BundleRow -> Response} (hw : Inv w)
    (hstore : forall key, HasKey deps tenantId w.db key ->
      Throughout CutOff Inv (insertAndStore deps n tenantId b
        (signDescriptor deps key (descriptorOf deps tenantId (deps.ulid n 0) b)) answer) w) :
    Throughout CutOff Inv (persistBundle deps n tenantId b answer) w := by
  refine safe_askOr hw ?_ hw
  split
  · exact hw
  · refine safe_askOr hw ?_ hw
    split
    · exact hw
    · split
      · exact hw
      · refine safe_askOr hw ?_ hw
        split
        · exact hw
        · rename_i key hkey
          exact hstore key hkey

theorem throughout_upload {who : AuthedUser} {form : UploadForm} (hw : Inv w)
    (hstore : forall (b : NewBundle) key answer, Origin deps b ->
      HasKey deps who.tenantId w.db key ->
      Throughout CutOff Inv (insertAndStore deps n who.tenantId b
        (signDescriptor deps key (descriptorOf deps who.tenantId (deps.ulid n 0) b)) answer) w) :
    Throughout CutOff Inv (upload deps n who form) w := by
  refine safe_guarded (fun _ => hw) (fun _ _ => ?_)
  refine safe_guarded (fun _ => hw) (fun name _ => ?_)
  refine safe_guarded (fun _ => hw) (fun version _ => ?_)
  refine safe_guarded (fun _ => hw) (fun bytes _ => ?_)
  have hrest : Throughout CutOff Inv
      (guarded (formatOf form.format) fun format =>
        guarded (keyFingerprintOf format bytes) fun keyFingerprint =>
          persistBundle deps n who.tenantId
            { name := name, version := version, bytes := bytes, format := format,
              keyFingerprint := keyFingerprint }
            fun row => Response.ok (Payload.bundle (BundleView.of row))) w := by
    refine safe_guarded (fun _ => hw) (fun format hformat => ?_)
    refine safe_guarded (fun _ => hw) (fun keyFingerprint hfingerprint => ?_)
    apply throughout_persistBundle hw
    intro key hkey
    exact hstore _ key _ (Origin.uploaded form.format hformat hfingerprint) hkey
  unfold checkBase
  split
  · exact hrest
  · refine safe_askOr hw ?_ hw
    split
    · exact hw
    · split
      · exact hrest
      · exact hw

theorem throughout_withCarried {tenantId : Int} {baseBundleId : Option String} {name : String}
    {next : List (String × Bytes) -> Prog Response} (hw : Inv w)
    (hnext : forall carried, Throughout CutOff Inv (next carried) w) :
    Throughout CutOff Inv (withCarried deps tenantId baseBundleId name next) w := by
  unfold withCarried
  split
  · exact hnext []
  · rename_i baseId
    refine safe_askOr hw ?_ hw
    split
    · exact hw
    · split
      · exact hw
      · split
        · exact hw
        · apply safe_call hw
          · rw [exec_of_reads rfl]
            cases (machine.exec (Op.storeGet tenantId baseId) w).1 with
            | error e => exact hw
            | ok bytes => exact safe_guarded (fun _ => hw) (fun carried _ => hnext carried)
          · intro r hr
            cases hr
            exact hw

theorem throughout_compose {who : AuthedUser} {body : ComposeBody} (hw : Inv w)
    (hstore : forall (b : NewBundle) key answer, Origin deps b ->
      HasKey deps who.tenantId w.db key ->
      Throughout CutOff Inv (insertAndStore deps n who.tenantId b
        (signDescriptor deps key (descriptorOf deps who.tenantId (deps.ulid n 0) b)) answer) w) :
    Throughout CutOff Inv (compose deps n who body) w := by
  refine safe_guarded (fun _ => hw) (fun _ _ => ?_)
  refine safe_guarded (fun _ => hw) (fun c _ => ?_)
  refine throughout_withCarried hw (fun carried => ?_)
  refine safe_guarded (fun _ => hw) (fun carried _ => ?_)
  refine safe_call hw ?_ (fun r hr => by cases hr)
  refine safe_guarded (fun _ => hw) (fun bytes hbytes => ?_)
  apply throughout_persistBundle hw
  intro key hkey
  apply hstore _ key _ _ hkey
  unfold composedBytes at hbytes
  split at hbytes
  · rename_i zip hzip
    cases hbytes
    exact Origin.composed _ _ hzip rfl rfl
  · cases hbytes

theorem throughout_stageReseal {who : AuthedUser} {bundleId : String} {body : Bytes}
    (hw : Inv w)
    (hput : forall bytes, Inv { w with
      files := w.files.insert (who.tenantId, deps.ulid n 0) bytes }) :
    Throughout CutOff Inv (stageReseal deps n who bundleId body) w := by
  refine safe_guarded (fun _ => hw) (fun _ _ => safe_askOr hw ?_ hw)
  split
  · exact hw
  · split
    · exact hw
    · refine safe_guarded (fun _ => hw) (fun bytes _ => ?_)
      refine safe_guarded (fun _ => hw) (fun _ _ => ?_)
      apply safe_call hw
      · exact hput bytes
      · intro r hr
        cases hr
        exact hw

/-!
## Renames
-/

theorem movedBundle_eq_ok {tenantId : Int} {key : Bytes} {to_ staged : String}
    {version : BundleRow} {bytes : Bytes} {m : MovedBundle}
    (h : movedBundle deps tenantId key to_ staged version bytes = Except.ok m) :
    exists fingerprint, checkResealed deps version bytes = Except.ok fingerprint ∧
      m = { oldId := version.id, newId := staged, sha256 := deps.sha256Hex bytes,
            sizeBytes := bytes.length,
            signature := signRenamed deps tenantId key to_ staged version
              (deps.sha256Hex bytes),
            keyFingerprint := some fingerprint } := by
  unfold movedBundle at h
  cases hcheck : checkResealed deps version bytes with
  | error e =>
      rw [hcheck] at h
      cases h
  | ok fingerprint =>
      rw [hcheck] at h
      cases h
      exact ⟨fingerprint, rfl, rfl⟩

theorem ne_of_checkRename {body : RenameBody} {to_ : String}
    (h : checkRename body = Except.ok to_) : to_ ≠ body.from_ := by
  unfold checkRename at h
  simp only at h
  split at h
  · cases h
  · split at h
    · cases h
    · split at h
      · cases h
      · rename_i hne
        cases h
        exact fun hsame => hne hsame.symm

theorem throughout_withAllMoved {tenantId : Int} {key : Bytes} {from_ to_ : String}
    {resealed : List (String × String)} {next : List MovedBundle -> Prog Response} (hw : Inv w)
    (hnext : forall moved, (forall m, m ∈ moved -> Moved deps tenantId key from_ to_ w m) ->
      Throughout CutOff Inv (next moved) w) (versions : List BundleRow) :
    forall moved, (forall m, m ∈ moved -> Moved deps tenantId key from_ to_ w m) ->
      (forall v, v ∈ versions ->
        v ∈ BundlesRepo.listByName tenantId from_ w.db ∧ isPlain v = false) ->
      Throughout CutOff Inv
        (withAllMoved deps tenantId key to_ resealed moved next versions) w := by
  induction versions with
  | nil =>
      intro moved hmoved _
      exact hnext moved hmoved
  | cons version rest ih =>
      intro moved hmoved hversions
      unfold withAllMoved
      split
      · exact hw
      · rename_i staged hstaged
        refine safe_askOr hw ?_ hw
        split
        · exact hw
        · rename_i hvalid
          rw [not_or, Bool.not_eq_true (Option.isSome _), Option.isSome_eq_false_iff,
            Option.isNone_iff_eq_none] at hvalid
          apply safe_call hw
          · rw [exec_of_reads rfl]
            cases hread : (machine.exec (Op.storeGet tenantId staged) w).1 with
            | error e => exact hw
            | ok bytes =>
                refine safe_guarded (fun _ => hw) (fun m hm => ?_)
                apply ih
                · intro m' hm'
                  rcases List.mem_append.mp hm' with hm' | hm'
                  · exact hmoved m' hm'
                  · have hid : m.newId = staged := by
                      rcases movedBundle_eq_ok hm with ⟨_, _, hmade⟩
                      rw [hmade]
                    rw [List.mem_singleton.mp hm']
                    constructor
                    · rw [hid]
                      exact hvalid.2
                    · refine ⟨version, bytes, (hversions version List.mem_cons_self).1,
                        (hversions version List.mem_cons_self).2, ?_, ?_⟩
                      · rw [hid]
                        exact lookup_of_storeGet hread
                      · rw [hid]
                        exact hm
                · exact fun v hv => hversions v (List.mem_cons_of_mem version hv)
          · intro r hr
            cases hr
            exact hw

theorem throughout_rename {who : AuthedUser} {body : RenameBody} (hw : Inv w)
    (hrename : forall key to_ moved, HasKey deps who.tenantId w.db key ->
      to_ ≠ body.from_ ->
      (forall m, m ∈ moved -> Moved deps who.tenantId key body.from_ to_ w m) ->
      Throughout CutOff Inv
        (executeOr (Statement.renameBundle who.tenantId body.from_ to_
          (renamedInPlace deps who.tenantId key to_
            (BundlesRepo.listByName who.tenantId body.from_ w.db)) moved) Response.internal
          fun outcome => renameAnswer who.tenantId to_ outcome) w) :
    Throughout CutOff Inv (rename deps who body) w := by
  refine safe_guarded (fun _ => hw) (fun _ _ => ?_)
  refine safe_guarded (fun _ => hw) (fun to_ hto => ?_)
  refine safe_askOr hw ?_ hw
  split
  · exact hw
  · refine safe_askOr hw ?_ hw
    split
    · exact hw
    · refine safe_guarded (fun _ => hw) (fun _ _ => safe_askOr hw ?_ hw)
      split
      · exact hw
      · rename_i key hkey
        apply throughout_withAllMoved hw
        · intro moved hmoved
          exact hrename key to_ moved hkey (ne_of_checkRename hto) hmoved
        · intro m hm
          cases hm
        · intro v hv
          rcases List.mem_filter.mp hv with ⟨hv, hplain⟩
          rw [Bool.not_eq_true'] at hplain
          exact ⟨hv, hplain⟩

/-!
## Reconciles
-/

theorem throughout_reconcile {tenantId : Int} {shown : String} {dir : ConfigSource.Node}
    {dryRun : Bool} (hw : Inv w)
    (happly : forall plan p report, Planned deps n tenantId w plan p ->
      Throughout CutOff Inv (ConfigSource.applyPlan tenantId plan p.toStore report) w) :
    Throughout CutOff Inv (ConfigSource.reconcile deps n tenantId shown dir dryRun) w := by
  unfold ConfigSource.reconcile
  split
  · exact hw
  · refine safe_askOr hw ?_ hw
    split
    · exact hw
    · refine safe_askOr hw (safe_askOr hw (safe_askOr hw ?_ hw) hw) hw
      unfold ConfigSource.reconcileExisting
      split
      · exact hw
      · rename_i built hbuilt
        have hreads : forall existing, Program.Uses (fun op => (machine.exec op w).2 = w)
            (ConfigSource.planBundles deps n tenantId dryRun existing
              ConfigSource.Planning.start built) := by
          intro existing
          exact Program.uses_mono (fun op hop => exec_of_reads hop w)
            (ConfigSource.uses_planBundles n tenantId dryRun existing _ built)
        cases dryRun with
        | true =>
            apply safe_bind (safe_of_reads hw (hreads _) (Program.endsGiven_true _))
            intro planned u hu
            rw [hu.2]
            cases planned with
            | error e => exact hw
            | ok p => exact hw
        | false =>
            have hsigning : forall existing, Program.EndsGiven
                (fun op r => (machine.exec op w).1 = r ∨ machine.fault op = some r)
                (fun r => forall q, r = Except.ok q -> Signing deps n tenantId w built q)
                (ConfigSource.planBundles deps n tenantId false existing
                  ConfigSource.Planning.start built) := by
              intro existing
              apply ConfigSource.endsGiven_planBundles_of
              · intro p p' hp hstore hrows hkey hdrawn
                constructor
                · intro hids
                  exact ConfigSource.staged_of_eq (hp.staged hids) hstore hrows hdrawn
                · rw [hkey]
                  exact hp.key
                · rw [hstore, hrows]
                  exact hp.made
              · intro p c hc hp
                exact signing_planInsert hp hc
                  (ConfigSource.builtWithin_sha256 hbuilt c hc)
              · exact signing_start built
            apply safe_bind (safe_of_reads hw (hreads _) (hsigning _))
            intro planned u hu
            rw [hu.2]
            cases planned with
            | error e => exact hw
            | ok p =>
                have hp := hu.1 p rfl
                show Throughout CutOff Inv
                  (ConfigSource.reconcilePlanned deps n tenantId false _ _ p) w
                unfold ConfigSource.reconcilePlanned
                simp only
                split
                · exact hw
                · apply happly
                  constructor
                  · exact hp.staged
                  · rfl
                  · intro id hid
                    rcases List.mem_map.mp hid with ⟨row, hrow, hrowid⟩
                    have hlisted : row ∈ BundlesRepo.list tenantId w.db :=
                      List.mem_of_mem_filter hrow
                    have hmem := (List.mem_insertionSort _).mp hlisted
                    exact ⟨row, List.mem_of_mem_filter hmem, hrowid⟩
                  · intro b hb
                    rcases hp.made b hb with ⟨c, hc, hsigned, hstored⟩
                    rcases Table.forall₂_exists_left
                      (ConfigSource.builtFrom_of_builtWithin hbuilt) hc with ⟨spec, _, hfrom⟩
                    exact ⟨spec, c, hfrom, hsigned, hstored⟩

end Walk

/-!
# Sequences of requests
-/

def writesBundles : Request -> Bool
  | Request.http (HttpRequest.uploadBundle _ _) => true
  | Request.http (HttpRequest.composeBundle _ _) => true
  | Request.http (HttpRequest.deleteBundle _ _) => true
  | Request.http (HttpRequest.stageReseal _ _ _) => true
  | Request.http (HttpRequest.renameBundle _ _) => true
  | Request.reconcile _ _ _ _ => true
  | _ => false

/-- A call may be the last one, and any call may fail. -/
def anywhere (_ : Op) (_ : World) : Prop :=
  True

/-- Time passes, and the process may have been restarted. -/
def SameStores (v u : World) : Prop :=
  u.db = v.db ∧ u.files = v.files

end Bundles
end FleetServer
