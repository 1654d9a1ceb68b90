import FleetServer.Runtime.Housekeeping
import FleetServer.Server.Calls
import FleetServer.Storage.Replace

/-!
# What a sweep may remove

A file is safe from a sweep that saw its row, from one that never saw the file, and
from one it is too young for.  Uploads insert their row before they write its file.
Renames and reconciles write first, so that a sweep may see the file and not yet its
row: only the grace period keeps such a file, as long as the row comes within it.
-/

namespace FleetServer
namespace Runtime

open FleetServer.Core
open Storage
open Table
open Server
open Concurrency
open KeyedMap

variable {deps : Deps}
variable {op : Op} {key : Int × String} {i : Nat} {f : StoredBundleFile} {graceSecs : Int}
variable {d : Disk} {log : FileLog}

/-!
# Requests that insert rows before their files
-/

def insertsRow : Op -> Bool
  | Op.statement (Statement.createBundle _ _ _ _ _ _ _ _ _) => true
  | _ => false

def writesFile : Op -> Bool
  | Op.storePut _ _ _ => true
  | _ => false

/-- Rows are inserted, and files written, under ids the request draws. -/
def ownIds (deps : Deps) (n : Nat) : Op -> Prop
  | Op.statement (Statement.createBundle id _ _ _ _ _ _ _ _) => exists k, id = deps.ulid n k
  | Op.storePut _ id _ => exists k, id = deps.ulid n k
  | _ => True

def insertedAs : (op : Op) -> op.Res -> Prop
  | Op.statement (Statement.createBundle id _ _ _ _ _ _ _ _), r =>
      forall row, r = Except.ok row -> row.id = id
  | _, _ => True

/-- The request keeps to its own ids, and once it wrote a file it inserts no
row any more. -/
def RowsFirst (deps : Deps) (n : Nat) {alpha : Type} : Prog alpha -> Prop
  | Program.done _ => True
  | Program.call op next => ownIds deps n op ∧ forall r, insertedAs op r ->
      (writesFile op = true -> Program.Uses (fun op => insertsRow op = false) (next r)) ∧
        RowsFirst deps n (next r)

section RowsFirst

variable {n : Nat} {alpha beta : Type}

theorem rowsFirst_call {next : op.Res -> Prog alpha} (hown : ownIds deps n op)
    (hreads : writesFile op = false) (hnext : forall r, RowsFirst deps n (next r)) :
    RowsFirst deps n (Program.call op next) := by
  refine ⟨hown, fun r _ => ⟨fun hwrites => ?_, hnext r⟩⟩
  rw [hreads] at hwrites
  cases hwrites

theorem rowsFirst_askOr {q : Query} {failed : alpha} {next : q.Answer -> Prog alpha}
    (hnext : forall a, RowsFirst deps n (next a)) :
    RowsFirst deps n (askOr q failed next) := by
  apply rowsFirst_call
  · trivial
  · rfl
  · intro r
    cases r with
    | ok answer => exact hnext answer
    | error e => trivial

theorem rowsFirst_guarded {check : Except Response beta} {next : beta -> Prog Response}
    (hnext : forall a, RowsFirst deps n (next a)) : RowsFirst deps n (guarded check next) := by
  cases check with
  | ok a => exact hnext a
  | error refused => trivial

theorem rowsFirst_of_uses {p : Prog alpha}
    (h : Program.Uses (fun op => ownIds deps n op ∧ insertsRow op = false) p) :
    RowsFirst deps n p := by
  induction p with
  | done a => trivial
  | call op next ih =>
      refine ⟨h.1.1, fun r _ => ⟨fun _ => ?_, ih r (h.2 r)⟩⟩
      exact Program.uses_mono (fun _ hop => hop.2) (h.2 r)

theorem rowsFirst_bind {p : Prog alpha} {f : alpha -> Prog beta} (hp : RowsFirst deps n p)
    (hrows : forall a, Program.Uses (fun op => insertsRow op = false) (f a))
    (hf : forall a, RowsFirst deps n (f a)) : RowsFirst deps n (p >>= f) := by
  induction p with
  | done a => exact hf a
  | call op next ih =>
      refine ⟨hp.1, fun r hr => ⟨fun hwrites => ?_, ih r (hp.2 r hr).2⟩⟩
      exact Program.uses_bind ((hp.2 r hr).1 hwrites) hrows

end RowsFirst

/-!
## Uploads
-/

section Uploads

open Bundles

variable (n : Nat)

theorem rowsFirst_insertAndStore (tenantId : Int) (b : NewBundle) (signature : String)
    (answer : BundleRow -> Response) :
    RowsFirst deps n (insertAndStore deps n tenantId b signature answer) := by
  refine ⟨⟨0, rfl⟩, fun r hr => ⟨fun hwrites => (by cases hwrites), ?_⟩⟩
  cases r with
  | error e => trivial
  | ok row =>
      have hid : row.id = deps.ulid n 0 := hr row rfl
      refine ⟨⟨0, hid⟩, fun stored _ => ⟨fun _ => ?_, ?_⟩⟩
      · cases stored with
        | error e => trivial
        | ok u => exact ⟨rfl, fun _ => trivial⟩
      · cases stored with
        | error e => trivial
        | ok u => exact rowsFirst_of_uses ⟨⟨trivial, rfl⟩, fun _ => trivial⟩

theorem rowsFirst_persistBundle (tenantId : Int) (b : NewBundle)
    (answer : BundleRow -> Response) :
    RowsFirst deps n (persistBundle deps n tenantId b answer) := by
  apply rowsFirst_askOr
  intro tenant
  cases tenant with
  | none => trivial
  | some tenant =>
      apply rowsFirst_askOr
      intro count
      split
      · trivial
      · split
        · trivial
        · apply rowsFirst_askOr
          intro secrets
          split
          · trivial
          · exact rowsFirst_insertAndStore n tenantId b _ answer

theorem rowsFirst_upload (who : AuthedUser) (form : UploadForm) :
    RowsFirst deps n (upload deps n who form) := by
  refine rowsFirst_guarded (fun _ => rowsFirst_guarded (fun name =>
    rowsFirst_guarded (fun version => rowsFirst_guarded (fun bytes => ?_))))
  have hrest : RowsFirst deps n (guarded (formatOf form.format) fun format =>
      guarded (keyFingerprintOf format bytes) fun keyFingerprint =>
        persistBundle deps n who.tenantId
          { name := name, version := version, bytes := bytes, format := format,
            keyFingerprint := keyFingerprint }
          fun row => Response.ok (Payload.bundle (BundleView.of row))) :=
    rowsFirst_guarded (fun _ => rowsFirst_guarded (fun _ => rowsFirst_persistBundle n _ _ _))
  unfold checkBase
  split
  · exact hrest
  · apply rowsFirst_askOr
    intro base
    cases base with
    | none => trivial
    | some base =>
        simp only
        split
        · exact hrest
        · trivial

theorem rowsFirst_withCarried (tenantId : Int) (baseBundleId : Option String) (name : String)
    {next : List (String × Bytes) -> Prog Response}
    (hnext : forall carried, RowsFirst deps n (next carried)) :
    RowsFirst deps n (withCarried deps tenantId baseBundleId name next) := by
  unfold withCarried
  split
  · exact hnext []
  · apply rowsFirst_askOr
    intro base
    cases base with
    | none => trivial
    | some base =>
        simp only
        split
        · trivial
        · split
          · trivial
          · apply rowsFirst_call
            · trivial
            · rfl
            · intro stored
              cases stored with
              | error e => trivial
              | ok bytes => exact rowsFirst_guarded hnext

theorem rowsFirst_compose (who : AuthedUser) (body : ComposeBody) :
    RowsFirst deps n (compose deps n who body) := by
  refine rowsFirst_guarded (fun _ => rowsFirst_guarded (fun c =>
    rowsFirst_withCarried n _ _ _ (fun carried => rowsFirst_guarded (fun carried => ?_))))
  apply rowsFirst_call
  · trivial
  · rfl
  · intro now
    exact rowsFirst_guarded (fun bytes => rowsFirst_persistBundle n _ _ _)

end Uploads

/-!
## Renames, deletions and reconciles
-/

/-- Files are written under ids the request draws, and no single row is
inserted. -/
def stagesOnly (deps : Deps) (n : Nat) (op : Op) : Prop :=
  ownIds deps n op ∧ insertsRow op = false

theorem stagesOnly_of_reads {n : Nat} (hop : op.reads = true) :
    stagesOnly deps n op := by
  cases op with
  | statement s => cases hop
  | storePut tenantId id bytes => cases hop
  | _ => exact ⟨trivial, rfl⟩

section Stages

open Bundles
open ConfigSource

variable (n : Nat)

theorem stagesOnly_stageReseal (who : AuthedUser) (bundleId : String) (body : Bytes) :
    Program.Uses (stagesOnly deps n) (stageReseal deps n who bundleId body) :=
  uses_stageReseal (fun _ => stagesOnly_of_reads) (fun _ => ⟨⟨0, rfl⟩, rfl⟩)

theorem stagesOnly_rename (who : AuthedUser) (body : RenameBody) :
    Program.Uses (stagesOnly deps n) (rename deps who body) :=
  uses_rename (fun _ => stagesOnly_of_reads) (fun _ _ _ => ⟨trivial, rfl⟩)

theorem stagesOnly_deleteBundle (who : AuthedUser) (bundleId : String) :
    Program.Uses (stagesOnly deps n) (deleteBundle deps who bundleId) :=
  uses_deleteBundle (fun _ => stagesOnly_of_reads) (fun _ => ⟨trivial, rfl⟩) ⟨trivial, rfl⟩
    ⟨trivial, rfl⟩

theorem stagesOnly_reconcile (tenantId : Int) (shown : String) (dir : Node)
    (dryRun : Bool) (hids : deps.UniqueIds) :
    Program.Uses (stagesOnly deps n) (reconcile deps n tenantId shown dir dryRun) :=
  uses_reconcile hids (fun _ => stagesOnly_of_reads) (fun k _ => ⟨⟨k, rfl⟩, rfl⟩)
    (fun _ => ⟨trivial, rfl⟩) (fun _ _ => ⟨trivial, rfl⟩)

end Stages

/-!
# Where a sweep has got to
-/

def afterRows (graceSecs : Int) (files : List StoredBundleFile) (rows : List BundleRow) :
    SweepProg Outcome :=
  Program.call (SweepOp.serve Op.nowUnix) fun now =>
    sweepFiles (now - graceSecs) (rows.map rowKey) 0 files

def afterListing (graceSecs : Int) (files : List StoredBundleFile) : SweepProg Outcome :=
  Program.call SweepOp.listBundles fun
    | Except.error _ => Program.done (Outcome.swept 0)
    | Except.ok rows => afterRows graceSecs files rows

theorem sweepBundleFiles_eq (graceSecs : Int) :
    sweepBundleFiles graceSecs = Program.call SweepOp.listFiles fun
      | Except.error _ => Program.done (Outcome.swept 0)
      | Except.ok files => afterListing graceSecs files := by
  unfold sweepBundleFiles
  apply congrArg (Program.call SweepOp.listFiles)
  funext r
  cases r with
  | error e => rfl
  | ok files =>
      apply congrArg (Program.call SweepOp.listBundles)
      funext r
      cases r with
      | error e => rfl
      | ok rows => rfl

theorem sweepFiles_call {cutoff : Int} {rows : List (Int × String)} {removed : Nat}
    {files : List StoredBundleFile} {op : SweepOp} {next : op.Res -> SweepProg Outcome}
    (h : sweepFiles cutoff rows removed files = Program.call op next) :
    exists f rest, f ∈ files ∧ f.modified ≤ cutoff ∧ f.key ∉ rows ∧
      (forall g, g ∈ rest -> g ∈ files) ∧ op = SweepOp.remove f.tenantId f.bundleId ∧
      forall r, exists removed', next r = sweepFiles cutoff rows removed' rest := by
  induction files generalizing removed with
  | nil => cases h
  | cons f rest ih =>
      unfold sweepFiles at h
      split at h
      · rcases ih h with ⟨g, rest', hg, hold, hno, hrest, hop, hnext⟩
        exact ⟨g, rest', List.mem_cons_of_mem f hg, hold, hno,
          fun x hx => List.mem_cons_of_mem f (hrest x hx), hop, hnext⟩
      · rename_i hremoves
        rw [not_or] at hremoves
        cases h
        refine ⟨f, rest, List.mem_cons_self, Int.not_lt.mp hremoves.1, hremoves.2,
          fun x hx => List.mem_cons_of_mem f hx, rfl, fun r => ?_⟩
        cases r with
        | error e => exact ⟨removed, rfl⟩
        | ok u => exact ⟨removed + 1, rfl⟩

/-- The sweep has looked at the rows and not yet at the clock. -/
def awaitsCutoff : SweepProg Outcome -> Bool
  | Program.call (SweepOp.serve Op.nowUnix) _ => true
  | _ => false

def handlesFiles : Request -> Bool
  | Request.http (HttpRequest.uploadBundle _ _) => true
  | Request.http (HttpRequest.composeBundle _ _) => true
  | Request.http (HttpRequest.stageReseal _ _ _) => true
  | Request.http (HttpRequest.renameBundle _ _) => true
  | Request.http (HttpRequest.deleteBundle _ _) => true
  | Request.reconcile _ _ _ _ => true
  | _ => false

theorem rowsFirst_handlesFiles {n : Nat} {r : Request} (hids : deps.UniqueIds)
    (hr : handlesFiles r = true) : RowsFirst deps n (program deps n r) := by
  have hanswer : forall a : Response, RowsFirst deps n
      (Program.done (Answer.response a) : Prog Answer) := fun _ => trivial
  cases r with
  | reconcile tenantId shown dir dryRun =>
      exact rowsFirst_bind
        (rowsFirst_of_uses (stagesOnly_reconcile n tenantId shown dir dryRun hids))
        (fun _ => trivial) (fun _ => trivial)
  | http request =>
      cases request with
      | uploadBundle who form =>
          exact rowsFirst_bind (rowsFirst_upload n who form) (fun _ => trivial) hanswer
      | composeBundle who body =>
          exact rowsFirst_bind (rowsFirst_compose n who body) (fun _ => trivial) hanswer
      | stageReseal who bundleId body =>
          exact rowsFirst_bind (rowsFirst_of_uses (stagesOnly_stageReseal n who bundleId body))
            (fun _ => trivial) hanswer
      | renameBundle who body =>
          exact rowsFirst_bind (rowsFirst_of_uses (stagesOnly_rename n who body))
            (fun _ => trivial) hanswer
      | deleteBundle who bundleId =>
          exact rowsFirst_bind (rowsFirst_of_uses (stagesOnly_deleteBundle n who bundleId))
            (fun _ => trivial) hanswer
      | _ => cases hr

/-!
# Rows and files of the pool
-/

def Named (key : Int × String) (db : Db) : Prop :=
  exists b, b ∈ db.bundles ∧ rowKey b = key

/-- Transactions that put several rows in place at once. -/
def movesRows : Op -> Bool
  | Op.statement (Statement.renameBundle _ _ _ _ _) => true
  | Op.statement (Statement.applyConfig _ _) => true
  | _ => false

theorem named_exec {w : World} (hmoves : movesRows op = false) (h : Named key (exec op w).2.db) :
    Named key w.db ∨
      exists id tenantId name version sha256 sizeBytes signature format keyFingerprint,
        op = Op.statement (Statement.createBundle id tenantId name version sha256 sizeBytes
          signature format keyFingerprint) ∧ key = (tenantId, id) := by
  rcases h with ⟨b, hb, hkey⟩
  by_cases hwrites : Part.bundles ∈ op.writes
  · cases op with
    | statement s =>
        change b ∈ (s.exec w).2.db.bundles at hb
        rcases statement_exec s w with ⟨e, _, hexec⟩ | ⟨answer, db', htx, hexec⟩
        · rw [hexec] at hb
          exact Or.inl ⟨b, hb, hkey⟩
        · rw [hexec] at hb
          change b ∈ db'.bundles at hb
          cases s with
          | createBundle id tenantId name version sha256 sizeBytes signature format
              keyFingerprint =>
              rcases BundlesRepo.create_eq_ok htx with ⟨hrow, hinsert⟩
              rcases BundlesRepo.insertRow_eq_ok.mp hinsert with ⟨_, hdb⟩
              rw [hdb] at hb
              rcases List.mem_append.mp hb with hold | hnew
              · exact Or.inl ⟨b, hold, hkey⟩
              · right
                rw [List.mem_singleton.mp hnew, hrow] at hkey
                exact ⟨id, tenantId, name, version, sha256, sizeBytes, signature, format,
                  keyFingerprint, rfl, hkey.symm⟩
          | deleteBundle tenantId id =>
              rw [BundlesRepo.delete_eq_ok htx] at hb
              exact Or.inl ⟨b, mem_of_mem_deleteWhere hb, hkey⟩
          | renameBundle tenantId from_ to_ inPlace moved => cases hmoves
          | replaceSignature tenantId id signature =>
              cases Tx.total_eq_ok.mp htx
              rcases of_mem_updateWhere hb with ⟨c, hc, ⟨_, hrow⟩ | ⟨_, hrow⟩⟩
              · rw [hrow] at hkey
                exact Or.inl ⟨c, hc, hkey⟩
              · rw [hrow] at hkey
                exact Or.inl ⟨c, hc, hkey⟩
          | applyConfig tenantId plan => cases hmoves
          | _ => simp [Op.writes, Statement.writes] at hwrites
    | _ => cases hwrites
  · have hrows : (exec op w).2.db.bundles = w.db.bundles := exec_same hwrites w
    rw [hrows] at hb
    exact Or.inl ⟨b, hb, hkey⟩

def insertsARow : SweepOp -> Bool
  | SweepOp.serve op => insertsRow op
  | _ => false

def MayInsert (p : Pool (swept deps)) (i : Nat) : Prop :=
  forall t, p.threads[i]? = some t ->
    ¬ Program.Uses (fun op => insertsARow op = false) t.rest

def Unborn (p : Pool (swept deps)) (id : String) : Prop :=
  exists i k, id = deps.ulid i k ∧ MayInsert p i

theorem mayInsert_of_step {p q : Pool (swept deps)} {c : Choice (swept deps)}
    (hstep : p.step c = some q) (h : MayInsert q i) : MayInsert p i := by
  intro t ht huses
  have hset : forall {j : Nat} {request : Job} {op : SweepOp} {r : op.Res}
      {next : op.Res -> SweepProg Outcome},
      p.threads[j]? = some ⟨request, Program.call op next⟩ ->
      q.threads = p.threads.set j ⟨request, next r⟩ -> False := by
    intro j request op r next hget hthreads
    by_cases hij : i = j
    · subst hij
      rw [hget] at ht
      cases ht
      have hlt := (List.getElem?_eq_some_iff.mp hget).1
      refine h ⟨request, next r⟩ ?_ (huses.2 r)
      rw [hthreads, List.getElem?_set_self hlt]
    · refine h t ?_ huses
      rw [hthreads, List.getElem?_set_ne (Ne.symm hij)]
      exact ht
  cases c with
  | spawn job =>
      cases hstep
      exact h t ((List.getElem?_append_left (List.getElem?_eq_some_iff.mp ht).1).trans ht) huses
  | exec j =>
      rcases Pool.step_exec hstep with ⟨request, op, next, hget, _, hthreads⟩
      exact hset hget hthreads
  | fault j =>
      rcases Pool.step_fault hstep with ⟨request, op, next, r, hget, _, _, hthreads⟩
      exact hset hget hthreads
  | env tick =>
      cases hstep
      exact h t ht huses

theorem unborn_of_step {p q : Pool (swept deps)} {c : Choice (swept deps)} {id : String}
    (hstep : p.step c = some q) (h : Unborn q id) : Unborn p id := by
  rcases h with ⟨i, k, hid, hmay⟩
  exact ⟨i, k, hid, mayInsert_of_step hstep hmay⟩

/-!
# Sweeps beside requests
-/

def startsFiles : Choice (swept deps) -> Bool
  | Choice.spawn (Job.request r) => handlesFiles r
  | _ => true

/-- For a sweep, the file was stored less than its grace period ago, and the sweep is
not between its look at the rows and its look at the clock. -/
def youngFor (p : Pool (swept deps)) (key : Int × String) (t : Thread (swept deps)) : Bool :=
  match t.request with
  | Job.request _ => true
  | Job.sweep graceSecs =>
      !awaitsCutoff t.rest && ((p.world.2.stored key).all fun stored =>
        decide (p.world.1.server.now < stored + graceSecs))

/-- A rename or reconcile that commits gives a row to no file but those that are young
for every sweep. -/
def landsInTime (p : Pool (swept deps)) (c : Choice (swept deps)) : Bool :=
  match p.call? c with
  | some (SweepOp.serve op) =>
      !movesRows op || (exec op p.world.1.server).2.db.bundles.all fun b =>
        (p.world.1.server.db.bundles.any fun old => rowKey old == rowKey b) ||
          p.threads.all (youngFor p (rowKey b))
  | _ => true

/-- A listed file: its row is not still to come from an upload, and it carries no time
before it was stored. -/
def Known (p : Pool (swept deps)) (f : StoredBundleFile) : Prop :=
  ¬ Unborn p f.key.2 ∧ exists stored, p.world.2.stored f.key = some stored ∧ stored ≤ f.modified

inductive Minded (graceSecs : Int) (p : Pool (swept deps)) : SweepProg Outcome -> Prop where
  | start : Minded graceSecs p (sweepBundleFiles graceSecs)
  | listed {files : List StoredBundleFile} : (forall f, f ∈ files -> Known p f) ->
      Minded graceSecs p (afterListing graceSecs files)
  | read {files : List StoredBundleFile} {rows : List BundleRow} :
      (forall f, f ∈ files -> Known p f) ->
      (forall f, f ∈ files -> f.key ∉ rows.map rowKey -> ¬ Named f.key p.world.1.server.db) ->
      Minded graceSecs p (afterRows graceSecs files rows)
  | sweeping {cutoff : Int} {rows : List (Int × String)} {removed : Nat}
      {files : List StoredBundleFile} : (forall f, f ∈ files -> Known p f) ->
      cutoff + graceSecs ≤ p.world.1.server.now ->
      (forall f, f ∈ files -> f.modified ≤ cutoff -> f.key ∉ rows ->
        ¬ Named f.key p.world.1.server.db) ->
      Minded graceSecs p (sweepFiles cutoff rows removed files)
  | done (outcome : Outcome) : Minded graceSecs p (Program.done outcome)

def Expected (p : Pool (swept deps)) (i : Nat) (t : Thread (swept deps)) : Prop :=
  match t.request with
  | Job.request _ => exists p0 : Prog Answer, t.rest = serve p0 ∧ RowsFirst deps i p0
  | Job.sweep graceSecs => Minded graceSecs p t.rest

/-- A file that a sweep removed was old for it, has no row, and will get none from an
upload. -/
def Spent (p : Pool (swept deps)) (key : Int × String) : Prop :=
  ¬ Unborn p key.2 ∧ ¬ Named key p.world.1.server.db ∧
    exists (i : Nat) (t : Thread (swept deps)) (graceSecs stored : Int),
      p.threads[i]? = some t ∧ t.request = Job.sweep graceSecs ∧
      p.world.2.stored key = some stored ∧ stored + graceSecs ≤ p.world.1.server.now

/-- No sweep is about to remove a file in use, and none has. -/
structure Tidy (p : Pool (swept deps)) : Prop where
  expected : forall i t, p.threads[i]? = some t -> Expected p i t
  filed : forall key, key ∈ p.world.1.server.files -> ¬ Unborn p key.2 ∧
    exists stored, p.world.2.stored key = some stored ∧
      stored ≤ (p.world.1.modified.lookup key).getD 0
  dated : forall key stored, p.world.2.stored key = some stored ->
    (exists n k, key.2 = deps.ulid n k) -> stored ≤ p.world.1.server.now
  spent : forall key, key ∈ p.world.2.removed -> Spent p key

/-!
## What a step leaves alone
-/

/-- No step makes up ids, moves the clock back, or forgets when a file was stored;
and the rows it brings name files that are young for every sweep, or that no sweep
has seen yet. -/
structure Onward (p q : Pool (swept deps)) : Prop where
  unborn : forall id, Unborn q id -> Unborn p id
  clock : p.world.1.server.now ≤ q.world.1.server.now
  stored : forall key s, p.world.2.stored key = some s -> q.world.2.stored key = some s
  named : forall key, Named key q.world.1.server.db -> Named key p.world.1.server.db ∨
    Unborn p key.2 ∨ forall t, t ∈ p.threads -> youngFor p key t = true

variable {p q : Pool (swept deps)} {c : Choice (swept deps)}

theorem known_onward (h : Known p f) (hq : Onward p q) : Known q f := by
  rcases h with ⟨hunborn, stored, hstored, hle⟩
  exact ⟨fun hid => hunborn (hq.unborn _ hid), stored, hq.stored _ _ hstored, hle⟩

theorem unnamed_onward {t : Thread (swept deps)} (hq : Onward p q) (ht : t ∈ p.threads)
    (hsweep : t.request = Job.sweep graceSecs) (hknown : Known p f)
    (hno : ¬ Named f.key p.world.1.server.db)
    (hold : awaitsCutoff t.rest = true ∨ f.modified + graceSecs ≤ p.world.1.server.now) :
    ¬ Named f.key q.world.1.server.db := by
  intro hnamed
  rcases hq.named f.key hnamed with hbefore | hborn | hyoung
  · exact hno hbefore
  · exact hknown.1 hborn
  · have hfor := hyoung t ht
    rcases hknown.2 with ⟨stored, hstored, hle⟩
    unfold youngFor at hfor
    simp only [hsweep, hstored, Option.all_some, Bool.and_eq_true, Bool.not_eq_true',
      decide_eq_true_eq] at hfor
    rcases hold with hawaits | hold
    · rw [hfor.1] at hawaits
      cases hawaits
    · omega

theorem minded_onward {t : Thread (swept deps)} (hq : Onward p q) (ht : t ∈ p.threads)
    (hsweep : t.request = Job.sweep graceSecs) (h : Minded graceSecs p t.rest) :
    Minded graceSecs q t.rest := by
  generalize hrest : t.rest = rest at h
  cases h with
  | start => exact Minded.start
  | listed hfiles => exact Minded.listed (fun f hf => known_onward (hfiles f hf) hq)
  | read hfiles hrows =>
      apply Minded.read
      · exact fun f hf => known_onward (hfiles f hf) hq
      · intro f hf hno
        have hawaits : awaitsCutoff t.rest = true := by
          rw [hrest]
          rfl
        exact unnamed_onward hq ht hsweep (hfiles f hf) (hrows f hf hno) (Or.inl hawaits)
  | sweeping hfiles hcutoff hrows =>
      apply Minded.sweeping
      · exact fun f hf => known_onward (hfiles f hf) hq
      · exact hcutoff.trans hq.clock
      · intro f hf hold hno
        exact unnamed_onward hq ht hsweep (hfiles f hf) (hrows f hf hold hno)
          (Or.inr (by omega))
  | done outcome => exact Minded.done outcome

theorem expected_onward {t : Thread (swept deps)} (hq : Onward p q) (hget : p.threads[i]? = some t)
    (h : Expected p i t) : Expected q i t := by
  unfold Expected at h ⊢
  cases hrequest : t.request with
  | request r =>
      rw [hrequest] at h
      exact h
  | sweep graceSecs =>
      rw [hrequest] at h
      exact minded_onward hq (List.mem_of_getElem? hget) hrequest h

theorem spent_onward (hstep : p.step c = some q) (hq : Onward p q) (h : Spent p key) :
    Spent q key := by
  rcases h with ⟨hunborn, hno, i, t, graceSecs, stored, hget, hsweep, hstored, hold⟩
  refine ⟨fun hid => hunborn (hq.unborn _ hid), fun hnamed => ?_, ?_⟩
  · rcases hq.named key hnamed with hbefore | hborn | hyoung
    · exact hno hbefore
    · exact hunborn hborn
    · have hfor := hyoung t (List.mem_of_getElem? hget)
      unfold youngFor at hfor
      simp only [hsweep, hstored, Option.all_some, Bool.and_eq_true, decide_eq_true_eq] at hfor
      omega
  · rcases Pool.request_stays hstep hget with ⟨u, hu, hrequest⟩
    exact ⟨i, u, graceSecs, stored, hu, hrequest.trans hsweep, hq.stored _ _ hstored,
      hold.trans hq.clock⟩

theorem tidy_onward (hp : Tidy p) (hstep : p.step c = some q) (hq : Onward p q)
    (hmoved : forall i t, q.threads[i]? = some t -> p.threads[i]? = some t ∨ Expected q i t)
    (hfiled : forall key, key ∈ q.world.1.server.files -> ¬ Unborn q key.2 ∧
      exists stored, q.world.2.stored key = some stored ∧
        stored ≤ (q.world.1.modified.lookup key).getD 0)
    (hdated : forall key stored, q.world.2.stored key = some stored ->
      p.world.2.stored key = some stored ∨ stored ≤ q.world.1.server.now)
    (hspent : forall key, key ∈ q.world.2.removed ->
      key ∈ p.world.2.removed ∨ Spent q key) : Tidy q := by
  constructor
  · intro i t hget
    rcases hmoved i t hget with hold | hnew
    · exact expected_onward hq hold (hp.expected i t hold)
    · exact hnew
  · exact hfiled
  · intro key stored hstored hdrawn
    rcases hdated key stored hstored with hold | hnew
    · exact (hp.dated key stored hold hdrawn).trans hq.clock
    · exact hnew
  · intro key hkey
    rcases hspent key hkey with hold | hnew
    · exact spent_onward hstep hq (hp.spent key hold)
    · exact hnew

/-- As far as rows, files and the record are concerned, nothing happened. -/
structure Idle (p q : Pool (swept deps)) : Prop where
  db : q.world.1.server.db = p.world.1.server.db
  clock : p.world.1.server.now ≤ q.world.1.server.now
  files : q.world.1.server.files = p.world.1.server.files
  modified : q.world.1.modified = p.world.1.modified
  log : q.world.2 = p.world.2

theorem onward_idle (hstep : p.step c = some q) (h : Idle p q) : Onward p q := by
  constructor
  · exact fun id hid => unborn_of_step hstep hid
  · exact h.clock
  · intro key s hs
    rw [h.log]
    exact hs
  · intro key hnamed
    rw [h.db] at hnamed
    exact Or.inl hnamed

theorem tidy_idle (hp : Tidy p) (hstep : p.step c = some q) (h : Idle p q)
    (hmoved : forall i t, q.threads[i]? = some t -> p.threads[i]? = some t ∨ Expected q i t) :
    Tidy q := by
  apply tidy_onward hp hstep (onward_idle hstep h) hmoved
  · intro key hkey
    rw [h.files] at hkey
    rcases hp.filed key hkey with ⟨hunborn, hstored⟩
    rw [h.log, h.modified]
    exact ⟨fun hid => hunborn (unborn_of_step hstep hid), hstored⟩
  · intro key stored hstored
    rw [h.log] at hstored
    exact Or.inl hstored
  · intro key hkey
    rw [h.log] at hkey
    exact Or.inl hkey

/-!
## Requests
-/

/-- The rows a request's call leaves name files that were named before, that no sweep has
seen, or that are young. -/
theorem named_request {request : Job} {next : op.Res -> Prog Answer}
    (hget : p.threads[i]? = some ⟨request, serve (Program.call op next)⟩) (hown : ownIds deps i op)
    (hlands : landsInTime p (Choice.exec i) = true)
    (hnamed : Named key (exec op p.world.1.server).2.db) :
    Named key p.world.1.server.db ∨ Unborn p key.2 ∨
      forall t, t ∈ p.threads -> youngFor p key t = true := by
  cases hmoves : movesRows op with
  | true =>
      have hcall : p.call? (Choice.exec i) = some (SweepOp.serve op) := Pool.call?_exec hget
      unfold landsInTime at hlands
      rw [hcall] at hlands
      simp only [hmoves, Bool.not_true, Bool.false_or, List.all_eq_true, Bool.or_eq_true,
        List.any_eq_true, beq_iff_eq] at hlands
      rcases hnamed with ⟨b, hb, hkey⟩
      rw [← hkey]
      rcases hlands b hb with ⟨old, hold, hsame⟩ | hyoung
      · exact Or.inl ⟨old, hold, hsame⟩
      · exact Or.inr (Or.inr hyoung)
  | false =>
      rcases named_exec hmoves hnamed with hbefore | ⟨id, _, _, _, _, _, _, _, _, hop, hkey⟩
      · exact Or.inl hbefore
      · right
        left
        subst hop
        rcases hown with ⟨k, hid⟩
        rw [hkey]
        refine ⟨i, k, hid, fun t ht huses => ?_⟩
        rw [hget] at ht
        cases ht
        cases huses.1

theorem stored_onCall {s : Int} (h : log.stored key = some s) :
    ((fileLog deps).onCall (SweepOp.serve op) d log).stored key = some s := by
  cases op with
  | storePut tenantId id bytes =>
      show (if key = (tenantId, id) then _ else _) = some s
      split
      · rw [h]
        rfl
      · exact h
  | _ => exact h

theorem stored_of_onCall {s : Int}
    (h : ((fileLog deps).onCall (SweepOp.serve op) d log).stored key = some s) :
    log.stored key = some s ∨ s = d.server.now := by
  cases op with
  | storePut tenantId id bytes =>
      change (if key = (tenantId, id) then _ else _) = some s at h
      split at h
      · cases hlog : log.stored key with
        | none =>
            rw [hlog] at h
            exact Or.inr (Option.some.inj h).symm
        | some s' =>
            rw [hlog] at h
            exact Or.inl h
      · exact Or.inl h
  | _ => exact Or.inl h

theorem removed_of_onCall (h : key ∈ ((fileLog deps).onCall (SweepOp.serve op) d log).removed) :
    key ∈ log.removed := by
  cases op with
  | storePut tenantId id bytes => exact (List.mem_filter.mp h).1
  | _ => exact h

/-- A file that is there after a call was written by it, or was there before with the
same time. -/
theorem filed_exec (h : key ∈ (exec op d.server).2.files) :
    (key ∈ d.server.files ∧ (d.stamped op).lookup key = d.modified.lookup key) ∨
      exists tenantId id bytes, op = Op.storePut tenantId id bytes ∧ key = (tenantId, id) := by
  cases op with
  | storePut tenantId id bytes =>
      by_cases hkey : key = (tenantId, id)
      · exact Or.inr ⟨tenantId, id, bytes, rfl, hkey⟩
      · left
        change key ∈ d.server.files.insert (tenantId, id) bytes at h
        rcases (AList.mem_insert _).mp h with hsame | hold
        · exact absurd hsame hkey
        · exact ⟨hold, AList.lookup_insert_ne hkey⟩
  | storeDelete tenantId id =>
      left
      change key ∈ d.server.files.erase (tenantId, id) at h
      rcases AList.mem_erase.mp h with ⟨hkey, hold⟩
      exact ⟨hold, AList.lookup_erase_ne hkey⟩
  | _ =>
      rw [exec_files rfl] at h
      exact Or.inl ⟨h, rfl⟩

theorem uses_serve {p : Prog Answer}
    (h : Program.Uses (fun op => insertsRow op = false) p) :
    Program.Uses (fun op => insertsARow op = false) (serve p) := by
  induction p with
  | done a => trivial
  | call op next ih => exact ⟨h.1, fun r => ih r (h.2 r)⟩

theorem insertedAs_exec (op : Op) (w : World) : insertedAs op (exec op w).1 := by
  cases op with
  | statement s =>
      cases s with
      | createBundle id tenantId name version sha256 sizeBytes signature format keyFingerprint =>
          intro row hrow
          change ((Statement.createBundle id tenantId name version sha256 sizeBytes signature
            format keyFingerprint).exec w).1 = _ at hrow
          rcases statement_exec (Statement.createBundle id tenantId name version sha256 sizeBytes
            signature format keyFingerprint) w with ⟨e, _, hexec⟩ | ⟨answer, db', htx, hexec⟩
          · rw [hexec] at hrow
            cases hrow
          · rw [hexec] at hrow
            cases hrow
            rcases BundlesRepo.create_eq_ok htx with ⟨hrow, _⟩
            rw [hrow]
      | _ => trivial
  | _ => exact trivial

theorem tidy_request {r : Request} {next : op.Res -> Prog Answer} (hids : deps.UniqueIds)
    (hp : Tidy p) (hget : p.threads[i]? = some ⟨Job.request r, serve (Program.call op next)⟩)
    (hrows : RowsFirst deps i (Program.call op next))
    (hlands : landsInTime p (Choice.exec i) = true) (hstep : p.step (Choice.exec i) = some q) :
    Tidy q := by
  have hcall : p.call? (Choice.exec i) = some (SweepOp.serve op) := Pool.call?_exec hget
  have hworld := Pool.step_call hcall hstep
  have hserver : q.world.1.server = (exec op p.world.1.server).2 := by
    rw [hworld]
    rfl
  have hlog : q.world.2 = (fileLog deps).onCall (SweepOp.serve op) p.world.1 p.world.2 := by
    rw [hworld]
  have hmodified : q.world.1.modified = p.world.1.stamped op := by
    rw [hworld]
    rfl
  have hthreads : q.threads = p.threads.set i
      ⟨Job.request r, serve (next (exec op p.world.1.server).1)⟩ := by
    rcases Pool.step_exec hstep with ⟨job, op', next', hget', _, hthreads⟩
    rw [hget] at hget'
    cases hget'
    exact hthreads
  have hnext := hrows.2 _ (insertedAs_exec op p.world.1.server)
  have hnow : q.world.1.server.now = p.world.1.server.now := by
    rw [hserver]
    exact exec_now op p.world.1.server
  have honward : Onward p q := by
    constructor
    · exact fun id hid => unborn_of_step hstep hid
    · exact le_of_eq hnow.symm
    · intro key s hs
      rw [hlog]
      exact stored_onCall hs
    · intro key hnamed
      rw [hserver] at hnamed
      exact named_request hget hrows.1 hlands hnamed
  apply tidy_onward hp hstep honward
  · intro j t hj
    rw [hthreads] at hj
    rcases Discipline.getElem?_resumed hj with ⟨hij, ht⟩ | ⟨_, hold⟩
    · right
      rw [ht, hij]
      exact ⟨_, rfl, hnext.2⟩
    · exact Or.inl hold
  · intro key hkey
    rw [hserver] at hkey
    rw [hlog, hmodified]
    rcases filed_exec hkey with ⟨hold, hsame⟩ | ⟨tenantId, id, bytes, hop, hnew⟩
    · rcases hp.filed key hold with ⟨hunborn, stored, hstored, hle⟩
      rw [hsame]
      exact ⟨fun hid => hunborn (unborn_of_step hstep hid), stored, stored_onCall hstored, hle⟩
    · subst hop
      rcases hrows.1 with ⟨k, hown⟩
      constructor
      · -- A request that writes a file is past inserting its row.
        rintro ⟨j, k', hdrawn, hmay⟩
        rw [hnew] at hdrawn
        rcases hids i k j k' (hown.symm.trans hdrawn) with ⟨rfl, _⟩
        refine hmay
          ⟨Job.request r, serve (next (exec (Op.storePut tenantId id bytes) p.world.1.server).1)⟩
          ?_ (uses_serve (hnext.1 rfl))
        have hlt := (List.getElem?_eq_some_iff.mp hget).1
        rw [hthreads, List.getElem?_set_self hlt]
      · have hwritten : ((p.world.1.stamped (Op.storePut tenantId id bytes)).lookup key).getD 0 =
            p.world.1.server.now := by
          rw [hnew]
          unfold Disk.stamped
          rw [AList.lookup_insert]
          rfl
        rw [hwritten]
        refine ⟨(p.world.2.stored key).getD p.world.1.server.now, if_pos hnew, ?_⟩
        cases hstored : p.world.2.stored key with
        | none => exact le_rfl
        | some s => exact hp.dated key s hstored ⟨i, k, by rw [hnew]; exact hown⟩
  · intro key stored hstored
    rw [hlog] at hstored
    rcases stored_of_onCall hstored with hold | hnew
    · exact Or.inl hold
    · right
      rw [hnew, hnow]
  · intro key hkey
    rw [hlog] at hkey
    exact Or.inl (removed_of_onCall hkey)

/-!
## Sweeps
-/

theorem minded_call {op : SweepOp} {next : op.Res -> SweepProg Outcome}
    (h : Minded graceSecs p (Program.call op next)) :
    (op = SweepOp.listFiles ∨ op = SweepOp.listBundles ∨ op = SweepOp.serve Op.nowUnix) ∨
      exists f, op = SweepOp.remove f.tenantId f.bundleId ∧ Known p f ∧
        ¬ Named f.key p.world.1.server.db ∧ f.modified + graceSecs ≤ p.world.1.server.now := by
  generalize hrest : Program.call op next = rest at h
  cases h with
  | start =>
      rw [sweepBundleFiles_eq] at hrest
      cases hrest
      exact Or.inl (Or.inl rfl)
  | listed hfiles =>
      cases hrest
      exact Or.inl (Or.inr (Or.inl rfl))
  | read hfiles hrows =>
      cases hrest
      exact Or.inl (Or.inr (Or.inr rfl))
  | sweeping hfiles hcutoff hrows =>
      rcases sweepFiles_call hrest.symm with ⟨f, _, hf, hold, hno, _, hop, _⟩
      exact Or.inr ⟨f, hop, hfiles f hf, hrows f hf hold hno, by omega⟩
  | done outcome => cases hrest

theorem minded_next {op : SweepOp} {next : op.Res -> SweepProg Outcome} {r : op.Res} (hp : Tidy p)
    (hq : Onward p q) (hdb : q.world.1.server.db = p.world.1.server.db)
    (h : Minded graceSecs p (Program.call op next))
    (hr : r = (Disk.exec op p.world.1).1 ∨ Disk.fault op = some r) :
    Minded graceSecs q (next r) := by
  generalize hrest : Program.call op next = rest at h
  cases h with
  | start =>
      rw [sweepBundleFiles_eq] at hrest
      cases hrest
      rcases hr with hr | hr
      · rw [hr]
        apply Minded.listed
        intro f hf
        rcases List.mem_map.mp hf with ⟨key, hkey, rfl⟩
        exact known_onward (hp.filed key hkey) hq
      · cases hr
        exact Minded.done _
  | @listed files hfiles =>
      cases hrest
      rcases hr with hr | hr
      · rw [hr]
        apply Minded.read
        · exact fun f hf => known_onward (hfiles f hf) hq
        · intro f _ hno hnamed
          rw [hdb] at hnamed
          rcases hnamed with ⟨b, hb, hkey⟩
          exact hno (List.mem_map.mpr ⟨b, hb, hkey⟩)
      · cases hr
        exact Minded.done _
  | @read files rows hfiles hrows =>
      cases hrest
      rcases hr with hr | hr
      · rw [hr]
        apply Minded.sweeping
        · exact fun f hf => known_onward (hfiles f hf) hq
        · have hclock := hq.clock
          show p.world.1.server.now - graceSecs + graceSecs ≤ q.world.1.server.now
          omega
        · intro f hf _ hno
          rw [hdb]
          exact hrows f hf hno
      · cases hr
  | sweeping hfiles hcutoff hrows =>
      rcases sweepFiles_call hrest.symm with ⟨_, rest, _, _, _, hrestFiles, _, hnext⟩
      rcases hnext r with ⟨removed', hgoing⟩
      rw [hgoing]
      apply Minded.sweeping
      · exact fun f hf => known_onward (hfiles f (hrestFiles f hf)) hq
      · exact hcutoff.trans hq.clock
      · intro f hf hold hno
        rw [hdb]
        exact hrows f (hrestFiles f hf) hold hno
  | done outcome => cases hrest

theorem idle_of_world (h : q.world = p.world) : Idle p q := by
  constructor <;> rw [h]

theorem tidy_remove {next : Except StoreError Unit -> SweepProg Outcome} (hp : Tidy p)
    (hget : p.threads[i]? =
      some ⟨Job.sweep graceSecs, Program.call (SweepOp.remove f.tenantId f.bundleId) next⟩)
    (hknown : Known p f) (hno : ¬ Named f.key p.world.1.server.db)
    (hold : f.modified + graceSecs ≤ p.world.1.server.now) (hstep : p.step (Choice.exec i) = some q)
    : Tidy q := by
  rcases Pool.step_exec hstep with ⟨request, op, next', hget', hworld, hthreads⟩
  rw [hget] at hget'
  cases hget'
  have hlt := (List.getElem?_eq_some_iff.mp hget).1
  have hminded : Minded graceSecs p
      (Program.call (SweepOp.remove f.tenantId f.bundleId) next) := hp.expected i _ hget
  -- What the thread becomes, in either case.
  have hmoved : Onward p q -> q.world.1.server.db = p.world.1.server.db ->
      forall j t, q.threads[j]? = some t -> p.threads[j]? = some t ∨ Expected q j t := by
    intro hq hdb j t hj
    rw [hthreads] at hj
    rcases Discipline.getElem?_resumed hj with ⟨_, ht⟩ | ⟨_, hsame⟩
    · right
      rw [ht]
      exact minded_next hp hq hdb hminded (Or.inl rfl)
    · exact Or.inl hsame
  cases hlookup : p.world.1.server.files.lookup (f.tenantId, f.bundleId) with
  | none =>
      have hsame : q.world = p.world := by
        rw [hworld]
        simp [Disk.exec, hlookup]
      have hidle := idle_of_world hsame
      exact tidy_idle hp hstep hidle (hmoved (onward_idle hstep hidle) hidle.db)
  | some bytes =>
      have hq : q.world = ({ server := { p.world.1.server with
          files := p.world.1.server.files.erase f.key }, modified := p.world.1.modified.erase f.key },
          { p.world.2 with removed := f.key :: p.world.2.removed }) := by
        rw [hworld]
        simp [Disk.exec, hlookup, StoredBundleFile.key]
      have honward : Onward p q := by
        constructor
        · exact fun id hid => unborn_of_step hstep hid
        · rw [hq]
        · intro key s hs
          rw [hq]
          exact hs
        · intro key hnamed
          rw [hq] at hnamed
          exact Or.inl hnamed
      have hdb : q.world.1.server.db = p.world.1.server.db := by rw [hq]
      apply tidy_onward hp hstep honward (hmoved honward hdb)
      · intro key hkey
        rw [hq] at hkey ⊢
        rcases AList.mem_erase.mp hkey with ⟨hne, hfile⟩
        rcases hp.filed key hfile with ⟨hunborn, stored, hstored, hle⟩
        refine ⟨fun hid => hunborn (unborn_of_step hstep hid), stored, hstored, ?_⟩
        rw [AList.lookup_erase_ne hne]
        exact hle
      · intro key stored hstored
        rw [hq] at hstored
        exact Or.inl hstored
      · intro key hkey
        rw [hq] at hkey
        rcases List.mem_cons.mp hkey with hsame | hbefore
        · right
          rcases hknown with ⟨hunborn, stored, hstored, hle⟩
          rw [hsame]
          have hgoing : q.threads[i]? = some ⟨Job.sweep graceSecs, next
              (Disk.exec (SweepOp.remove f.tenantId f.bundleId) p.world.1).1⟩ := by
            rw [hthreads]
            exact List.getElem?_set_self hlt
          refine ⟨fun hid => hunborn (unborn_of_step hstep hid), ?_, i, _, graceSecs, stored,
            hgoing, rfl, honward.stored _ _ hstored, ?_⟩
          · rw [hdb]
            exact hno
          · have hclock := honward.clock
            omega
        · exact Or.inl hbefore

theorem tidy_sweep {op : SweepOp} {next : op.Res -> SweepProg Outcome} (hp : Tidy p)
    (hget : p.threads[i]? = some ⟨Job.sweep graceSecs, Program.call op next⟩)
    (hstep : p.step (Choice.exec i) = some q) : Tidy q := by
  have hminded : Minded graceSecs p (Program.call op next) := hp.expected i _ hget
  rcases minded_call hminded with hlook | ⟨f, hop, hknown, hno, hold⟩
  · rcases Pool.step_exec hstep with ⟨request, op', next', hget', hworld, hthreads⟩
    rw [hget] at hget'
    cases hget'
    have hidle : Idle p q := by
      apply idle_of_world
      rw [hworld]
      rcases hlook with hop | hop | hop
      · subst hop
        rfl
      · subst hop
        rfl
      · subst hop
        rfl
    apply tidy_idle hp hstep hidle
    intro j t hj
    rw [hthreads] at hj
    rcases Discipline.getElem?_resumed hj with ⟨_, ht⟩ | ⟨_, hsame⟩
    · right
      rw [ht]
      exact minded_next hp (onward_idle hstep hidle) hidle.db hminded (Or.inl rfl)
    · exact Or.inl hsame
  · subst hop
    exact tidy_remove hp hget hknown hno hold hstep

/-!
## Every step
-/

theorem tidy_spawn {job : Job} (hids : deps.UniqueIds) (hp : Tidy p)
    (hstarts : startsFiles (Choice.spawn job : Choice (swept deps)) = true)
    (hstep : p.step (Choice.spawn job) = some q) : Tidy q := by
  have hspawned := hstep
  cases hspawned
  apply tidy_idle hp hstep (idle_of_world rfl)
  intro i t hget
  rcases Discipline.getElem?_spawned hget with hold | ⟨hlength, hnew⟩
  · exact Or.inl hold
  · right
    rw [hnew, hlength]
    cases job with
    | request r =>
        exact ⟨program deps p.threads.length r, rfl, rowsFirst_handlesFiles hids hstarts⟩
    | sweep graceSecs => exact Minded.start

theorem tidy_fault (hp : Tidy p) (hstep : p.step (Choice.fault i) = some q) :
    Tidy q := by
  rcases Pool.step_fault hstep with ⟨job, op, next, r, hget, hfault, hworld, hthreads⟩
  have hidle := idle_of_world hworld
  apply tidy_idle hp hstep hidle
  intro j t hj
  rw [hthreads] at hj
  rcases Discipline.getElem?_resumed hj with ⟨hij, ht⟩ | ⟨_, hsame⟩
  · right
    rw [ht, hij]
    have hexpected := hp.expected i _ hget
    cases job with
    | request request =>
        rcases hexpected with ⟨p0, hp0, hrows⟩
        cases p0 with
        | done a => cases hp0
        | call op0 next0 =>
            cases hp0
            refine ⟨next0 r, rfl, (hrows.2 r ?_).2⟩
            -- A failed insert answers with no row.
            cases op0 with
            | statement s =>
                cases s with
                | createBundle _ _ _ _ _ _ _ _ _ =>
                    intro row hrow
                    cases hfault
                    cases hrow
                | _ => trivial
            | _ => exact trivial
    | sweep graceSecs =>
        exact minded_next hp (onward_idle hstep hidle) hidle.db hexpected (Or.inr hfault)
  · exact Or.inl hsame

theorem tidy_step {c : Choice (swept deps)} (hids : deps.UniqueIds) (hp : Tidy p)
    (hstarts : startsFiles c = true) (hlands : landsInTime p c = true)
    (hstep : p.step c = some q) : Tidy q := by
  cases c with
  | spawn job => exact tidy_spawn hids hp hstarts hstep
  | exec i =>
      rcases Pool.step_exec hstep with ⟨job, op, next, hget, _, _⟩
      cases job with
      | request r =>
          rcases hp.expected i _ hget with ⟨p0, hp0, hrows⟩
          cases p0 with
          | done a => cases hp0
          | call op0 next0 =>
              cases hp0
              exact tidy_request hids hp hget hrows hlands hstep
      | sweep graceSecs => exact tidy_sweep hp hget hstep
  | fault i => exact tidy_fault hp hstep
  | env tick =>
      have hpassed := hstep
      cases hpassed
      have hidle : Idle p { p with world := (swept deps).disturb tick p.world } :=
        ⟨rfl, show p.world.1.server.now ≤ p.world.1.server.now + tick.secs by omega, rfl, rfl, rfl⟩
      exact tidy_idle hp hstep hidle (fun i t hget => Or.inl hget)

/-- Whatever the sweeps did, every bundle row's file was left alone, as long as renames
and reconciles commit within the grace period of the files they stored, and not while a
sweep has looked at the rows and not yet at the clock. -/
theorem sweep_spares_live {w : World} (hids : deps.UniqueIds)
    (hfresh : forall key, key ∈ w.files -> forall n k, key.2 ≠ deps.ulid n k)
    {p : Pool (swept deps)}
    (hrun : Pool.Run (fun p c => startsFiles c = true ∧ landsInTime p c = true)
      (Pool.init (Disk.start w, FileLog.start w)) p) :
    forall b, b ∈ p.world.1.server.db.bundles -> rowKey b ∉ p.world.2.removed := by
  have hstart : Tidy (Pool.init (Disk.start w, FileLog.start w) : Pool (swept deps)) := by
    constructor
    · intro i t ht
      cases ht
    · intro key hkey
      constructor
      · rintro ⟨n, k, hid, _⟩
        exact hfresh key hkey n k hid
      · have hfile : (w.files.lookup key).isSome = true := AList.lookup_isSome.mpr hkey
        rcases Option.isSome_iff_exists.mp hfile with ⟨bytes, hlookup⟩
        refine ⟨0, ?_, le_rfl⟩
        show (w.files.lookup key).map (fun _ => 0) = some 0
        rw [hlookup]
        rfl
    · rintro key stored hstored ⟨n, k, hid⟩
      change (w.files.lookup key).map (fun _ => 0) = some stored at hstored
      rcases Option.map_eq_some_iff.mp hstored with ⟨bytes, hlookup, _⟩
      exact absurd hid (hfresh key (AList.lookup_isSome.mp (by rw [hlookup]; rfl)) n k)
    · intro key hkey
      exact absurd hkey List.not_mem_nil
  have htidy : Tidy p := by
    refine hrun.invariant Tidy ?_ hstart
    intro p c q hp hallowed hstep
    exact tidy_step hids hp hallowed.1 hallowed.2 hstep
  intro b hb hkey
  exact (htidy.spent (rowKey b) hkey).2.1 ⟨b, hb, rfl⟩

/-!
# A reconcile and a sweep
-/

def oneBundleDir : ConfigSource.Node :=
  ConfigSource.Node.dir [("bundles", ConfigSource.Node.dir
    [("base", ConfigSource.Node.dir [("1.zip", ConfigSource.Node.file [1])])])]

def reconcileOne : Choice (swept Deps.sample) :=
  Choice.spawn (Job.request (Request.reconcile 1 "" oneBundleDir false))

def sweepOnce : Choice (swept Deps.sample) :=
  Choice.spawn (Job.sweep orphanBundleGraceSecs)

def turns (i n : Nat) : List (Choice (swept Deps.sample)) :=
  List.replicate n (Choice.exec i)

def leftOver : World :=
  World.start sampleDb (AList.singleton (1, "old") [0]) 0

def leftOverPool : Pool (swept Deps.sample) :=
  Pool.init (Disk.start leftOver, FileLog.start leftOver)

/-- The reconcile stores its file and commits while the sweep goes through the files. -/
def commitsInTime : List (Choice (swept Deps.sample)) :=
  Choice.env (Tick.mk 4000) :: reconcileOne :: turns 0 6 ++ Choice.env (Tick.mk 100) ::
    sweepOnce :: turns 1 3 ++ turns 0 1 ++ turns 1 1

theorem sweep_spares_live_reconciled :
    let ok := fun p c => startsFiles c && landsInTime p c
    let q := leftOverPool.afterIf ok commitsInTime (by decide +kernel)
    q.world.2.removed = [(1, "old")] ∧ q.world.1.server.db.bundles.length = 1 ∧
      forall b, b ∈ q.world.1.server.db.bundles -> rowKey b ∉ q.world.2.removed := by
  intro ok q
  refine ⟨by decide +kernel, by decide +kernel, ?_⟩
  have hrun : Pool.Run (fun p c => startsFiles c = true ∧ landsInTime p c = true) leftOverPool q :=
    (Pool.run_afterIf ok leftOverPool commitsInTime (by decide +kernel)).mono
      (fun p c hok => by simpa [ok] using hok)
  have hfresh : forall key, key ∈ leftOver.files -> forall n k, key.2 ≠ Deps.sample.ulid n k := by
    intro key hkey n k hid
    rw [List.mem_singleton.mp hkey] at hid
    have hlists := congrArg String.toList (show "old" = Deps.sampleId n k from hid)
    rw [Deps.sampleId_toList] at hlists
    have hmem : 'b' ∈ "old".toList := by
      rw [hlists]
      exact List.mem_append_right _ List.mem_cons_self
    revert hmem
    decide
  exact sweep_spares_live Deps.uniqueIds_sample hfresh hrun

/-- The reconcile stores its file, waits for more than the grace period, and
commits between the sweep's look at the rows and its removals. -/
def commitsLate : List (Choice (swept Deps.sample)) :=
  reconcileOne :: turns 0 6 ++ Choice.env (Tick.mk 4000) :: sweepOnce :: turns 1 2 ++
    turns 0 1 ++ turns 1 2

theorem sweep_removes_live :
    ¬ forall (deps : Deps) (w : World) (p : Pool (swept deps)), deps.UniqueIds ->
      (forall key, key ∈ w.files -> forall n k, key.2 ≠ deps.ulid n k) ->
      Pool.Run (fun _ c => startsFiles c = true) (Pool.init (Disk.start w, FileLog.start w)) p ->
      forall b, b ∈ p.world.1.server.db.bundles -> rowKey b ∉ p.world.2.removed := by
  intro h
  let start : Pool (swept Deps.sample) := Pool.init
    (Disk.start (World.start sampleDb ∅ 0), FileLog.start (World.start sampleDb ∅ 0))
  let q := start.afterIf (fun _ c => startsFiles c) commitsLate (by decide +kernel)
  have hspared := h Deps.sample (World.start sampleDb ∅ 0) q Deps.uniqueIds_sample
    (fun key hkey => absurd hkey (AList.notMem_empty key))
    (Pool.run_afterIf (fun _ c => startsFiles c) start commitsLate (by decide +kernel))
  have hbad : (q.world.1.server.db.bundles.any fun b => decide (rowKey b ∈ q.world.2.removed)) = true := by
    decide +kernel
  rcases List.any_eq_true.mp hbad with ⟨b, hb, hkey⟩
  exact hspared b hb (of_decide_eq_true hkey)

end Runtime
end FleetServer
