import FleetServer.Bundles.Writes
import FleetServer.Server.Calls
import FleetServer.Server.Constraints
import FleetServer.Storage.Replace

/-!
# Rows and what is asked of their files

A bundle row names a stored file, which may be missing.  Uploads insert the row
before its file is written; deletions and reconciles order their writes so that
they can stop anywhere.  What is asked of rows and files holds throughout when
it is asked of what each request writes.
-/

namespace FleetServer
namespace Bundles

open FleetServer.Core
open Storage
open Table
open Server
open Concurrency

variable {deps : Deps}
variable {op : Op} {id signature : String} {tenantId : Int} {db : Db} {who : AuthedUser}
variable {p : ConfigSource.Planning}

/-- No row has an id that the request `n`, or a later one, draws. -/
def Unused (deps : Deps) (n : Nat) (w : World) : Prop :=
  forall b, b ∈ w.db.bundles -> forall m k, n ≤ m -> b.id ≠ deps.ulid m k

def fileOf (w : World) (b : BundleRow) : Option Bytes :=
  w.files.lookup (b.tenantId, b.id)

structure Kept (deps : Deps) (Asked : BundleRow -> Option Bytes -> Prop) (n : Nat)
    (w : World) : Prop where
  rows : forall b, b ∈ w.db.bundles -> Asked b (fileOf w b)
  unused : Unused deps n w

section Kept

variable {Asked : BundleRow -> Option Bytes -> Prop} {n : Nat} {w : World}

theorem kept_mono {m : Nat} (hw : Kept deps Asked n w) (hnm : n ≤ m) :
    Kept deps Asked m w := by
  constructor
  · exact hw.rows
  · exact fun b hb m' k hm => hw.unused b hb m' k (hnm.trans hm)

/-- Fewer rows ask no more. -/
theorem kept_of_subset {v : World} (hw : Kept deps Asked n w) (hfiles : v.files = w.files)
    (hrows : forall b, b ∈ v.db.bundles -> b ∈ w.db.bundles) : Kept deps Asked n v := by
  constructor
  · intro b hb
    unfold fileOf
    rw [hfiles]
    exact hw.rows b (hrows b hb)
  · exact fun b hb => hw.unused b (hrows b hb)

/-- Writing a file no row names. -/
theorem kept_insert {key : Int × String} {bytes : Bytes} (hw : Kept deps Asked n w)
    (hkey : forall b, b ∈ w.db.bundles -> (b.tenantId, b.id) ≠ key) :
    Kept deps Asked n { w with files := w.files.insert key bytes } := by
  constructor
  · intro b hb
    unfold fileOf
    rw [AList.lookup_insert_ne (hkey b hb)]
    exact hw.rows b hb
  · exact hw.unused

theorem kept_erase {key : Int × String} (hw : Kept deps Asked n w)
    (hkey : forall b, b ∈ w.db.bundles -> (b.tenantId, b.id) ≠ key) :
    Kept deps Asked n { w with files := w.files.erase key } := by
  constructor
  · intro b hb
    unfold fileOf
    rw [AList.lookup_erase_ne (hkey b hb)]
    exact hw.rows b hb
  · exact hw.unused

/-- Calls that change neither bundle rows nor files. -/
def leavesBytes (op : Op) : Bool :=
  decide (Part.bundles ∉ op.writes) && !op.writesFiles

theorem kept_exec (hop : leavesBytes op = true) (hw : Kept deps Asked n w) :
    Kept deps Asked n (exec op w).2 := by
  unfold leavesBytes at hop
  rw [Bool.and_eq_true, decide_eq_true_eq, Bool.not_eq_true'] at hop
  have hrows : (exec op w).2.db.bundles = w.db.bundles := exec_same hop.1 w
  apply kept_of_subset hw (exec_files hop.2 w)
  intro b hb
  rw [hrows] at hb
  exact hb

theorem leavesBytes_of_reads (hop : op.reads = true) : leavesBytes op = true := by
  cases op with
  | query q => rfl
  | cacheTicket key => rfl
  | storeGet tenantId id => rfl
  | nowUnix => rfl
  | _ => cases hop

theorem kept_created {name version sha256 : String} {sizeBytes : Int} {format : String}
    {keyFingerprint : Option String} {now : Int} {row : BundleRow} {file : Option Bytes}
    (hids : deps.UniqueIds) (hw : Kept deps Asked n w) (hid : id = deps.ulid n 0)
    (h : BundlesRepo.create id tenantId name version sha256 sizeBytes signature format
      keyFingerprint now w.db = Except.ok (row, db)) (hfile : w.files.lookup (tenantId, id) = file)
    (hnew : Asked row file) :
    Kept deps Asked (n + 1) { w with db := db } := by
  have hcreated := BundlesRepo.create_eq_ok h
  rcases BundlesRepo.insertRow_eq_ok.mp hcreated.2 with ⟨_, rfl⟩
  have hrow := hcreated.1
  constructor
  · intro b hb
    rcases List.mem_append.mp hb with hb | hb
    · exact hw.rows b hb
    · rw [List.mem_singleton.mp hb]
      have hkey : fileOf { w with db := { w.db with bundles := w.db.bundles ++ [row] } } row =
          file := by
        rw [← hfile, hrow]
        rfl
      rw [hkey]
      exact hnew
  · intro b hb m k hm
    rcases List.mem_append.mp hb with hb | hb
    · exact hw.unused b hb m k (Nat.le_of_succ_le hm)
    · rw [List.mem_singleton.mp hb, hrow]
      intro hsame
      have hnm := (hids n 0 m k (hid.symm.trans hsame)).1
      omega

end Kept

/-!
# What can be asked

What a request writes has to have what is asked for: an uploaded bundle, one
built from a directory, a renamed row, a row moved to another file.
-/

structure Granted (deps : Deps) (Asked : BundleRow -> Option Bytes -> Prop) : Prop where
  uploaded : forall b : NewBundle, Origin deps b -> forall row : BundleRow,
    row.sha256 = deps.sha256Hex b.bytes -> row.format = b.format ->
      row.keyFingerprint = b.keyFingerprint -> Asked row (some b.bytes)
  built : forall spec built, ConfigSource.BuiltFrom deps spec built -> forall row : BundleRow,
    row.sha256 = built.sha256 -> row.format = built.format ->
      row.keyFingerprint = built.keyFingerprint -> Asked row (some built.bytes)
  renamed : forall (b : BundleRow) file name signature, Asked b file ->
    Asked { b with
      name := name
      signature := signature } file
  moved : forall tenantId key to_ staged version bytes m, isPlain version = false ->
    movedBundle deps tenantId key to_ staged version bytes = Except.ok m ->
      Asked (BundlesRepo.movedRow to_ m version) (some bytes)

/-- A store write whose row is already there. -/
def exposed (op : Op) (w : World) : Bool :=
  match op with
  | Op.storePut tenantId id _ => w.db.bundles.any (BundlesRepo.isBundle tenantId id)
  | _ => false

/-- Every call but an exposed one may fail, or be the last. -/
def spared (op : Op) (w : World) : Prop :=
  exposed op w = false

/-- An exposed call is cut off only where a row may have no file, and has none. -/
def Lossy (deps : Deps) (Asked : BundleRow -> Option Bytes -> Prop)
    (CutOff : Op -> World -> Prop) (n : Nat) (w : World) : Prop :=
  forall op u, CutOff op u -> exposed op u = true ->
    (forall b, Asked b none) ∧
      forall tenantId, w.files.lookup (tenantId, deps.ulid n 0) = none

section Requests

variable {Asked : BundleRow -> Option Bytes -> Prop} {CutOff : Op -> World -> Prop} {n : Nat}
  {w : World}

theorem kept_leavesBytes {alpha : Type} {p : Prog alpha}
    (hp : Program.Uses (fun op => leavesBytes op = true) p) (hw : Kept deps Asked n w) :
    Throughout CutOff (Kept deps Asked n) p w := by
  have hkeeps : Program.Uses
      (fun op => forall u : World, Kept deps Asked n u -> Kept deps Asked n (exec op u).2) p :=
    Program.uses_mono (fun op hop u hu => kept_exec hop hu) hp
  exact safe_mono (fun _ _ h => h.2)
    (safe_of_uses (fun _ hu => hu) hkeeps (Program.ends_true p) hw)

theorem kept_insertAndStore {b : NewBundle} {answer : BundleRow -> Response} (hids : deps.UniqueIds)
    (hgranted : Granted deps Asked) (hlossy : Lossy deps Asked CutOff n w) (horigin : Origin deps b)
    (hw : Kept deps Asked n w) :
    Throughout CutOff (Kept deps Asked (n + 1))
      (insertAndStore deps n tenantId b signature answer) w := by
  have hw' := kept_mono hw (Nat.le_succ n)
  refine safe_executeOr hw' (fun row db htx => ?_) hw'
  have hcreated := BundlesRepo.create_eq_ok htx
  have hid : row.id = deps.ulid n 0 := by
    rw [hcreated.1]
  have hthere : exposed (Op.storePut tenantId row.id b.bytes) { w with db := db } = true := by
    rw [(BundlesRepo.insertRow_eq_ok.mp hcreated.2).2]
    apply List.any_eq_true.mpr
    refine ⟨row, List.mem_append_right _ (List.mem_singleton_self row), ?_⟩
    rw [BundlesRepo.isBundle, hcreated.1]
    simp
  constructor
  · intro hcut
    have hlost := hlossy _ _ hcut hthere
    have hbare : Kept deps Asked (n + 1) { w with db := db } :=
      kept_created hids hw rfl htx (hlost.2 tenantId) (hlost.1 row)
    constructor
    · exact hbare
    · intro r hr
      cases hr
      exact hbare
  · have hstored : Kept deps Asked n
        { w with files := w.files.insert (tenantId, deps.ulid n 0) b.bytes } := by
      apply kept_insert hw
      intro c hc hkey
      exact hw.unused c hc n 0 (Nat.le_refl n) (congrArg Prod.snd hkey)
    have hfinal : Kept deps Asked (n + 1)
        { w with
          db := db
          files := w.files.insert (tenantId, deps.ulid n 0) b.bytes } := by
      apply kept_created hids hstored rfl htx (AList.lookup_insert _)
      rw [hcreated.1]
      exact hgranted.uploaded b horigin _ rfl rfl rfl
    rw [← hid] at hfinal
    exact kept_leavesBytes ⟨rfl, fun _ => trivial⟩ hfinal

theorem kept_upload {form : UploadForm} (hids : deps.UniqueIds) (hgranted : Granted deps Asked)
    (hlossy : Lossy deps Asked CutOff n w) (hw : Kept deps Asked n w) :
    Throughout CutOff (Kept deps Asked (n + 1)) (upload deps n who form) w := by
  apply throughout_upload (kept_mono hw (Nat.le_succ n))
  intro b key answer horigin _
  exact kept_insertAndStore hids hgranted hlossy horigin hw

theorem kept_compose {body : ComposeBody} (hids : deps.UniqueIds) (hgranted : Granted deps Asked)
    (hlossy : Lossy deps Asked CutOff n w) (hw : Kept deps Asked n w) :
    Throughout CutOff (Kept deps Asked (n + 1)) (compose deps n who body) w := by
  apply throughout_compose (kept_mono hw (Nat.le_succ n))
  intro b key answer horigin _
  exact kept_insertAndStore hids hgranted hlossy horigin hw

theorem key_ne_of_deleted {rows : List BundleRow} {b : BundleRow}
    (hb : b ∈ deleteWhere (BundlesRepo.isBundle tenantId id) rows) :
    (b.tenantId, b.id) ≠ (tenantId, id) := by
  intro hkey
  have hno := (mem_deleteWhere.mp hb).2
  simp only [Prod.mk.injEq] at hkey
  simp [BundlesRepo.isBundle, hkey] at hno

theorem kept_deleteBundle {bundleId : String} (hw : Kept deps Asked n w) :
    Throughout CutOff (Kept deps Asked n) (deleteBundle deps who bundleId) w := by
  refine safe_guarded (fun _ => hw) (fun _ _ => safe_askOr hw ?_ hw)
  split
  · exact hw
  · refine safe_executeOr hw (fun found db htx => ?_) hw
    have hrows := BundlesRepo.delete_eq_ok htx
    have hdeleted : Kept deps Asked n { w with db := db } := by
      refine kept_of_subset hw rfl (fun b hb => ?_)
      rw [show ({ w with db := db } : World).db.bundles = db.bundles from rfl, hrows] at hb
      exact mem_of_mem_deleteWhere hb
    cases found with
    | false => exact hdeleted
    | true =>
        have hbump : forall u, Kept deps Asked n u -> Throughout CutOff (Kept deps Asked n)
            (do bumpConfigVersion who.tenantId; return Response.noContent : Prog Response) u :=
          fun u hu => kept_leavesBytes ⟨rfl, fun _ => trivial⟩ hu
        refine safe_call hdeleted (hbump _ ?_) (fun r _ => hbump _ hdeleted)
        apply kept_erase hdeleted
        intro b hb
        rw [show ({ w with db := db } : World).db.bundles = db.bundles from rfl, hrows] at hb
        exact key_ne_of_deleted hb

/-!
## Reconciles
-/

/-- Files that no row names come and go. -/
theorem kept_discard {ids : List String} (hw : Kept deps Asked n w)
    (hids : forall b, b ∈ w.db.bundles -> b.tenantId = tenantId -> b.id ∉ ids) :
    Throughout CutOff (Kept deps Asked n) (ConfigSource.discard tenantId ids) w := by
  induction ids generalizing w with
  | nil => exact hw
  | cons id rest ih =>
      have hrest : forall b, b ∈ w.db.bundles -> b.tenantId = tenantId -> b.id ∉ rest :=
        fun b hb htenant hmem => hids b hb htenant (List.mem_cons_of_mem id hmem)
      refine safe_call hw (ih (kept_erase hw (fun b hb hkey => ?_)) hrest)
        (fun r _ => ih hw hrest)
      simp only [Prod.mk.injEq] at hkey
      exact hids b hb hkey.1 (by rw [hkey.2]; exact List.mem_cons_self)

/-- What was stored, on top of the files there were. -/
def Stores (tenantId : Int) (es : List (String × Bytes)) (w u : World) : Prop :=
  (forall e, e ∈ es -> u.files.lookup (tenantId, e.1) = some e.2) ∧
    forall id, id ∉ es.map Prod.fst ->
      u.files.lookup (tenantId, id) = w.files.lookup (tenantId, id)

theorem stores_cons {bytes : Bytes} {rest : List (String × Bytes)} {w u : World}
    (hid : id ∉ rest.map Prod.fst) (h : Stores tenantId rest
      { w with files := w.files.insert (tenantId, id) bytes } u) :
    Stores tenantId ((id, bytes) :: rest) w u := by
  constructor
  · intro e he
    rcases List.mem_cons.mp he with rfl | he
    · rw [h.2 id hid]
      exact AList.lookup_insert _
    · exact h.1 e he
  · intro id' hid'
    rw [List.map_cons, List.mem_cons, not_or] at hid'
    rw [h.2 id' hid'.2]
    exact AList.lookup_insert_ne (fun hkey => hid'.1 (congrArg Prod.snd hkey))

theorem safe_storeAll {es : List (String × Bytes)} (hdistinct : (es.map Prod.fst).Nodup)
    (hw : Kept deps Asked n w) (hids : forall b, b ∈ w.db.bundles -> b.id ∉ es.map Prod.fst) :
    Safe machine CutOff (Kept deps Asked n) (fun ok u => u.db = w.db ∧ Kept deps Asked n u ∧
      (ok = true -> Stores tenantId es w u)) (ConfigSource.storeAll tenantId es) w := by
  induction es generalizing w with
  | nil => exact ⟨rfl, hw, fun _ => ⟨fun e he => absurd he List.not_mem_nil, fun _ _ => rfl⟩⟩
  | cons e rest ih =>
      rcases e with ⟨id, bytes⟩
      rw [List.map_cons, List.nodup_cons] at hdistinct
      have hrest : forall b, b ∈ w.db.bundles -> b.id ∉ rest.map Prod.fst :=
        fun b hb hmem => hids b hb (List.mem_cons_of_mem id hmem)
      have hstored : Kept deps Asked n
          { w with files := w.files.insert (tenantId, id) bytes } := by
        refine kept_insert hw (fun b hb hkey => hids b hb ?_)
        rw [show b.id = id from congrArg Prod.snd hkey]
        exact List.mem_cons_self
      refine safe_call hw ?_ (fun r hr => ?_)
      · refine safe_mono (fun ok u hu => ?_) (ih hdistinct.2 hstored hrest)
        exact ⟨hu.1, hu.2.1, fun hok => stores_cons hdistinct.1 (hu.2.2 hok)⟩
      · cases hr
        exact ⟨rfl, hw, fun hok => by cases hok⟩

theorem kept_applied {now : Int} {plan : ConfigPlan} {u : World} (hids : deps.UniqueIds)
    (hgranted : Granted deps Asked) (hplan : Planned deps n tenantId w plan p)
    (hu : Kept deps Asked n u)
    (hstored : forall e, e ∈ p.toStore -> u.files.lookup (tenantId, e.1) = some e.2)
    (hdb : db.bundles = ConfigSourceRepo.bundlesAfter tenantId plan now u.db.bundles) :
    Kept deps Asked (n + 1) { u with db := db } ∧
      forall b, b ∈ db.bundles -> b.tenantId = tenantId ->
        (forall k, b.id ≠ deps.ulid n k) -> b.id ∉ plan.deleteBundleIds := by
  have hnew : forall b, b ∈ plan.insertBundles.map (ConfigSourceRepo.plannedRow tenantId now) ->
      Asked b (fileOf u b) ∧ exists k, b.id = deps.ulid n k := by
    intro b hb
    rcases List.mem_map.mp hb with ⟨planned, hplanned, rfl⟩
    rw [hplan.inserts] at hplanned
    rcases hplan.made planned hplanned with ⟨spec, built, hfrom, ⟨key, _, hsigned⟩, hbytes⟩
    rcases (hplan.staged hids).drawn _ hbytes with ⟨k, _, hid⟩
    have hfile : fileOf u (ConfigSourceRepo.plannedRow tenantId now planned) =
        some built.bytes := hstored _ hbytes
    rw [hfile]
    constructor
    · apply hgranted.built spec built hfrom
      · rw [hsigned]
        rfl
      · rw [hsigned]
        rfl
      · rw [hsigned]
        rfl
    · exact ⟨k, hid⟩
  unfold ConfigSourceRepo.bundlesAfter at hdb
  refine ⟨⟨fun b hb => ?_, fun b hb m k hm => ?_⟩, fun b hb htenant hold hmem => ?_⟩
  · rw [show ({ u with db := db } : World).db.bundles = db.bundles from rfl, hdb] at hb
    rcases List.mem_append.mp hb with hb | hb
    · exact hu.rows b (mem_of_mem_deleteWhere hb)
    · exact (hnew b hb).1
  · rw [show ({ u with db := db } : World).db.bundles = db.bundles from rfl, hdb] at hb
    rcases List.mem_append.mp hb with hb | hb
    · exact hu.unused b (mem_of_mem_deleteWhere hb) m k (Nat.le_of_succ_le hm)
    · rcases (hnew b hb).2 with ⟨k', hid⟩
      intro hsame
      have hnm := (hids n k' m k (hid.symm.trans hsame)).1
      omega
  · rw [hdb] at hb
    rcases List.mem_append.mp hb with hb | hb
    · have hkept := (mem_deleteWhere.mp hb).2
      rw [List.any_eq_false] at hkept
      exact hkept b.id hmem (by simp [BundlesRepo.isBundle, htenant])
    · rcases (hnew b hb).2 with ⟨k, hid⟩
      exact hold k hid

theorem kept_giveUp {e : ConfigSource.ReconcileError} (hstaged : ConfigSource.Staged deps n p)
    (hw : Kept deps Asked n w) :
    Throughout CutOff (Kept deps Asked n) (ConfigSource.giveUp tenantId p.toStore e) w := by
  refine safe_bind (kept_discard hw (fun b hb _ hmem => ?_)) (fun _ u hu => hu)
  rcases List.mem_map.mp hmem with ⟨e, he, hid⟩
  rcases hstaged.drawn e he with ⟨k, _, hdrawn⟩
  exact hw.unused b hb n k (Nat.le_refl n) (hid.symm.trans hdrawn)

theorem kept_applyPlan {plan : ConfigPlan} {report : ConfigSource.ReloadReport}
    (hids : deps.UniqueIds) (hgranted : Granted deps Asked)
    (hplan : Planned deps n tenantId w plan p) (hw : Kept deps Asked n w) :
    Throughout CutOff (Kept deps Asked (n + 1))
      (ConfigSource.applyPlan tenantId plan p.toStore report) w := by
  have hstaged := hplan.staged hids
  have hlater : forall u, Kept deps Asked n u -> Kept deps Asked (n + 1) u :=
    fun u hu => kept_mono hu (Nat.le_succ n)
  have hgiveUp : forall e u, Kept deps Asked n u -> Throughout CutOff (Kept deps Asked (n + 1))
      (ConfigSource.giveUp tenantId p.toStore e) u :=
    fun e u hu => safe_weaken hlater (safe_mono (fun _ => hlater) (kept_giveUp hstaged hu))
  have hfresh : forall b, b ∈ w.db.bundles -> b.id ∉ p.toStore.map Prod.fst := by
    intro b hb hmem
    rcases List.mem_map.mp hmem with ⟨e, he, hid⟩
    rcases hstaged.drawn e he with ⟨k, _, hdrawn⟩
    exact hw.unused b hb n k (Nat.le_refl n) (hid.symm.trans hdrawn)
  -- The rows to delete were there before, under ids drawn earlier.
  have hdelete : forall id, id ∈ plan.deleteBundleIds -> forall k, id ≠ deps.ulid n k := by
    intro id hid k
    rcases hplan.deletes id hid with ⟨row, hrow, hrowid⟩
    rw [← hrowid]
    exact hw.unused row hrow n k (Nat.le_refl n)
  refine safe_bind (safe_weaken hlater (safe_storeAll hstaged.distinct hw hfresh)) ?_
  rintro ok u ⟨_, hu, hstored⟩
  cases ok with
  | false => exact hgiveUp _ u hu
  | true =>
      refine safe_execute (hlater u hu) (fun outcome db htx => ?_) (fun e => hgiveUp _ u hu)
      cases outcome with
      | changed =>
          rw [ConfigSourceRepo.apply_eq_changed htx]
          exact hgiveUp _ u hu
      | applied =>
          have hrows := (ConfigSourceRepo.apply_eq_ok htx).2.1
          have happlied := kept_applied hids hgranted hplan hu (hstored rfl).1 hrows
          have hdiscard : Throughout CutOff (Kept deps Asked (n + 1))
              (ConfigSource.discard tenantId plan.deleteBundleIds) { u with db := db } :=
            kept_discard happlied.1 (fun b hb htenant hmem =>
              happlied.2 b hb htenant (fun k hid => hdelete b.id hmem k hid) hmem)
          have hanswer : Throughout CutOff (Kept deps Asked (n + 1))
              (do
                ConfigSource.discard tenantId plan.deleteBundleIds
                return Except.ok report :
                  Prog (Except ConfigSource.ReconcileError ConfigSource.ReloadReport))
              { u with db := db } := safe_bind hdiscard (fun _ v hv => hv)
          exact hanswer

theorem kept_reconcile {shown : String} {dir : ConfigSource.Node} {dryRun : Bool}
    (hids : deps.UniqueIds) (hgranted : Granted deps Asked) (hw : Kept deps Asked n w) :
    Throughout CutOff (Kept deps Asked (n + 1))
      (ConfigSource.reconcile deps n tenantId shown dir dryRun) w := by
  apply throughout_reconcile (kept_mono hw (Nat.le_succ n))
  intro plan p report hplan
  exact kept_applyPlan hids hgranted hplan hw

/-!
## Renames

A version is moved to a file its caller names, so which files there are matters.
-/

theorem kept_stageReseal {bundleId : String} {body : Bytes} (hw : Kept deps Asked n w) :
    Throughout CutOff (Kept deps Asked n) (stageReseal deps n who bundleId body) w := by
  apply throughout_stageReseal hw
  intro bytes
  apply kept_insert hw
  intro b hb hkey
  exact hw.unused b hb n 0 (Nat.le_refl n) (congrArg Prod.snd hkey)

/-- No file has a name that the request `n`, or a later one, draws. -/
def Fresh (deps : Deps) (n : Nat) (w : World) : Prop :=
  forall key bytes, w.files.lookup key = some bytes -> forall m k, n ≤ m ->
    key.2 ≠ deps.ulid m k

theorem kept_renamed {from_ to_ : String} {key : Bytes} {moved : List MovedBundle}
    {outcome : RenameOutcome} (hgranted : Granted deps Asked) (hkeys : ConfigKeys w.db)
    (hfresh : Fresh deps n w) (hne : to_ ≠ from_)
    (hmoved : forall m, m ∈ moved -> Moved deps tenantId key from_ to_ w m)
    (hw : Kept deps Asked n w) (htx : BundlesRepo.rename tenantId from_ to_
      (renamedInPlace deps tenantId key to_ (BundlesRepo.listByName tenantId from_ w.db)) moved
      w.db = Except.ok (outcome, db)) :
    Kept deps Asked n { w with db := db } := by
  have hlisted : forall v, v ∈ BundlesRepo.listByName tenantId from_ w.db ->
      v ∈ w.db.bundles := by
    intro v hv
    exact List.mem_of_mem_filter ((List.mem_insertionSort _).mp hv)
  -- A moved row is the version that was read, over the staged file.
  have hstaged : forall m (c : BundleRow), m ∈ moved -> c ∈ w.db.bundles ->
      c.tenantId = tenantId -> c.id = m.oldId ->
      exists bytes, w.files.lookup (tenantId, m.newId) = some bytes ∧
        Asked (BundlesRepo.movedRow to_ m c) (some bytes) := by
    intro m c hm hc htenant hid
    rcases (hmoved m hm).staged with ⟨version, bytes, hversion, hplain, hfile, hmade⟩
    have hold : m.oldId = version.id := by
      rcases movedBundle_eq_ok hmade with ⟨_, _, hmade⟩
      rw [hmade]
    have hsame : version = c :=
      eq_of_key_eq hkeys.bundleIds (hlisted version hversion) hc (hold.symm.trans hid.symm)
    rw [← hsame]
    exact ⟨bytes, hfile, hgranted.moved _ _ _ _ _ _ _ hplain hmade⟩
  constructor
  · intro b hb
    cases BundlesRepo.rows_rename hne htx b hb with
    | kept hb => exact hw.rows b hb
    | @inPlace r c hr hc htenant hid hname =>
        exact hgranted.renamed c _ to_ r.signature (hw.rows c hc)
    | @moved m c hm hc htenant hid hname =>
        rcases hstaged m c hm hc htenant hid with ⟨bytes, hfile, hasked⟩
        have hthere : fileOf { w with db := db } (BundlesRepo.movedRow to_ m c) =
            some bytes := by
          rw [← hfile, ← htenant]
          rfl
        rw [hthere]
        exact hasked
  · intro b hb m' k hm'
    cases BundlesRepo.rows_rename hne htx b hb with
    | kept hb => exact hw.unused b hb m' k hm'
    | @inPlace r c hr hc htenant hid hname => exact hw.unused c hc m' k hm'
    | @moved m c hm hc htenant hid hname =>
        rcases hstaged m c hm hc htenant hid with ⟨bytes, hfile, _⟩
        exact hfresh _ bytes hfile m' k hm'

theorem kept_rename {body : RenameBody} (hgranted : Granted deps Asked) (hkeys : ConfigKeys w.db)
    (hfresh : Fresh deps n w) (hw : Kept deps Asked n w) :
    Throughout CutOff (Kept deps Asked n) (rename deps who body) w := by
  apply throughout_rename hw
  intro key to_ moved _ hne hmoved
  refine safe_executeOr hw (fun outcome db htx => ?_) hw
  have hrenamed := kept_renamed hgranted hkeys hfresh hne hmoved hw htx
  apply kept_leavesBytes _ hrenamed
  apply uses_renameAnswer
  intro op hop
  exact leavesBytes_of_reads hop

/-!
## Names of files
-/

def PutsDrawn (deps : Deps) (n : Nat) : Op -> Prop
  | Op.storePut _ id _ => exists k, id = deps.ulid n k
  | _ => True

theorem fresh_mono {m : Nat} (hw : Fresh deps n w) (hnm : n ≤ m) : Fresh deps m w :=
  fun key bytes hfile m' k hm => hw key bytes hfile m' k (hnm.trans hm)

theorem fresh_exec (hids : deps.UniqueIds) (hop : PutsDrawn deps n op) (hw : Fresh deps (n + 1) w) :
    Fresh deps (n + 1) (exec op w).2 := by
  cases hwrites : op.writesFiles with
  | false =>
      intro key bytes hfile
      rw [exec_files hwrites] at hfile
      exact hw key bytes hfile
  | true =>
      cases op with
      | storePut tenantId id bytes =>
          rcases hop with ⟨j, hid⟩
          intro key bytes' hfile m k hm hsame
          by_cases hkey : key = (tenantId, id)
          · rw [hkey] at hsame
            have hnm := (hids n j m k (hid.symm.trans hsame)).1
            omega
          · have hfile : (w.files.insert (tenantId, id) bytes).lookup key = some bytes' := hfile
            rw [AList.lookup_insert_ne hkey] at hfile
            exact hw key bytes' hfile m k hm hsame
      | storeDelete tenantId id =>
          intro key bytes hfile
          have hfile : (w.files.erase (tenantId, id)).lookup key = some bytes := hfile
          by_cases hkey : key = (tenantId, id)
          · rw [hkey, AList.lookup_erase] at hfile
            cases hfile
          · rw [AList.lookup_erase_ne hkey] at hfile
            exact hw key bytes hfile
      | _ => cases hwrites

theorem fresh_putsDrawn {alpha : Type} {p : Prog alpha} (hids : deps.UniqueIds)
    (hp : Program.Uses (PutsDrawn deps n) p) (hw : Fresh deps (n + 1) w) :
    Throughout CutOff (Fresh deps (n + 1)) p w := by
  have hkeeps : Program.Uses
      (fun op => forall u : World, Fresh deps (n + 1) u -> Fresh deps (n + 1) (exec op u).2) p :=
    Program.uses_mono (fun op hop u hu => fresh_exec hids hop hu) hp
  exact safe_mono (fun _ _ h => h.2)
    (safe_of_uses (fun _ hu => hu) hkeeps (Program.ends_true p) hw)

theorem fresh_insertAndStore {b : NewBundle} {answer : BundleRow -> Response}
    (hids : deps.UniqueIds) (hw : Fresh deps (n + 1) w) :
    Throughout CutOff (Fresh deps (n + 1))
      (insertAndStore deps n tenantId b signature answer) w := by
  refine safe_executeOr hw (fun row db htx => ?_) hw
  have hcreated := BundlesRepo.create_eq_ok htx
  have hid : row.id = deps.ulid n 0 := by
    rw [hcreated.1]
  have hinserted : Fresh deps (n + 1) { w with db := db } := hw
  apply fresh_putsDrawn hids _ hinserted
  refine uses_performThen ⟨0, hid⟩ (fun stored => ?_)
  cases stored with
  | error e => trivial
  | ok _ => exact ⟨trivial, fun _ => trivial⟩

end Requests

end Bundles
end FleetServer
