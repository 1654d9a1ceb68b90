import FleetServer.ConfigSource.Staging
import FleetServer.Storage.Replace

/-!
# Reconciles that come to nothing

A reconcile that fails, or that was only asked what it would do, reads, stages
files under ids of its own, and takes these away again.
-/

namespace FleetServer
namespace ConfigSource

open FleetServer.Core
open Storage
open Server
open Concurrency

variable {deps : Deps}
variable {n : Nat} {tenantId : Int} {dryRun : Bool}

/-- The tables are as they were, and so is the file of every bundle row. -/
def Untouched (w v : World) : Prop :=
  v.db = w.db ∧ forall b, b ∈ w.db.bundles ->
    v.files.lookup (b.tenantId, b.id) = w.files.lookup (b.tenantId, b.id)

theorem untouched_refl (w : World) : Untouched w w :=
  ⟨rfl, fun _ _ => rfl⟩

theorem untouched_trans (u v w : World) (huv : Untouched u v) (hvw : Untouched v w) :
    Untouched u w := by
  refine ⟨hvw.1.trans huv.1, fun b hb => ?_⟩
  rw [hvw.2 b (by rw [huv.1]; exact hb), huv.2 b hb]

/-- No bundle row has an id this request draws. -/
def OwnIds (deps : Deps) (n : Nat) (w : World) : Prop :=
  forall b, b ∈ w.db.bundles -> forall k, b.id ≠ deps.ulid n k

/-!
# The calls of a reconcile that is not applied
-/

/-- Reads, writes of files under ids the request drew, and a plan that does not
apply. -/
def stages (deps : Deps) (n : Nat) : (op : Op) -> op.Res -> Prop
  | Op.storePut _ id _, _ => exists k, id = deps.ulid n k
  | Op.storeDelete _ id, _ => exists k, id = deps.ulid n k
  | Op.statement (Statement.applyConfig _ _), r => r ≠ Except.ok ApplyOutcome.applied
  | op, _ => op.reads = true

theorem stages_of_reads {op : Op} (hop : op.reads = true) (r : op.Res) :
    stages deps n op r := by
  cases op with
  | storePut tenantId id bytes => cases hop
  | storeDelete tenantId id => cases hop
  | statement s => cases hop
  | _ => exact hop

/-- Such a call touches no row, and no row's file. -/
theorem untouched_of_stages {op : Op} {w : World} (hop : stages deps n op (exec op w).1)
    (hw : OwnIds deps n w) :
    Untouched w (exec op w).2 := by
  have hfile : forall tenantId id, (exists k, id = deps.ulid n k) ->
      forall b, b ∈ w.db.bundles -> (b.tenantId, b.id) ≠ (tenantId, id) := by
    rintro tenantId id ⟨k, rfl⟩ b hb hkey
    exact hw b hb k (congrArg Prod.snd hkey)
  have hreads : op.reads = true -> Untouched w (exec op w).2 := by
    intro hreads
    rw [exec_of_reads hreads]
    exact untouched_refl w
  cases op with
  | storePut tenantId id bytes =>
      exact ⟨rfl, fun b hb => AList.lookup_insert_ne (hfile tenantId id hop b hb)⟩
  | storeDelete tenantId id =>
      exact ⟨rfl, fun b hb => AList.lookup_erase_ne (hfile tenantId id hop b hb)⟩
  | statement s =>
      cases s with
      | applyConfig tenantId plan =>
          have hno : ((Statement.applyConfig tenantId plan).exec w).1 ≠
            Except.ok ApplyOutcome.applied := hop
          change Untouched w ((Statement.applyConfig tenantId plan).exec w).2
          rcases statement_exec (Statement.applyConfig tenantId plan) w with
            ⟨e, _, hexec⟩ | ⟨outcome, db, htx, hexec⟩
          · rw [hexec]
            exact untouched_refl w
          · rw [hexec] at hno ⊢
            cases outcome with
            | applied => exact absurd rfl hno
            | changed =>
                rw [ConfigSourceRepo.apply_eq_changed htx]
                exact untouched_refl w
      | _ => cases hop
  | _ => exact hreads hop

def applied (dryRun : Bool) (answer : Except ReconcileError ReloadReport) : Prop :=
  dryRun = false ∧ exists report, answer = Except.ok report

theorem usesUntil_discard {ids : List String}
    {rest : Unit -> Prog (Except ReconcileError ReloadReport)}
    (hids : forall id, id ∈ ids -> exists k, id = deps.ulid n k)
    (hrest : Program.UsesUntil (stages deps n) (applied dryRun) (rest ())) :
    Program.UsesUntil (stages deps n) (applied dryRun) (discard tenantId ids >>= rest) := by
  induction ids with
  | nil => exact hrest
  | cons id more ih =>
      intro r
      refine Or.inr ⟨hids id List.mem_cons_self, ?_⟩
      exact ih (fun id' hid' => hids id' (List.mem_cons_of_mem id hid'))

theorem usesUntil_giveUp {p : Planning} {e : ReconcileError} (hstaged : Staged deps n p) :
    Program.UsesUntil (stages deps n) (applied dryRun) (giveUp tenantId p.toStore e) := by
  refine usesUntil_discard (fun id hid => ?_) trivial
  rcases List.mem_map.mp hid with ⟨e, he, rfl⟩
  rcases hstaged.drawn e he with ⟨k, _, hdrawn⟩
  exact ⟨k, hdrawn⟩

theorem usesUntil_storeAll {es : List (String × Bytes)}
    {rest : Bool -> Prog (Except ReconcileError ReloadReport)}
    (hids : forall e, e ∈ es -> exists k, e.1 = deps.ulid n k)
    (hrest : forall ok, Program.UsesUntil (stages deps n) (applied dryRun) (rest ok)) :
    Program.UsesUntil (stages deps n) (applied dryRun) (storeAll tenantId es >>= rest) := by
  induction es with
  | nil => exact hrest true
  | cons e more ih =>
      intro r
      refine Or.inr ⟨hids e List.mem_cons_self, ?_⟩
      cases r with
      | error _ => exact hrest false
      | ok _ => exact ih (fun e' he' => hids e' (List.mem_cons_of_mem e he'))

theorem usesUntil_applyPlan {plan : ConfigPlan} {p : Planning} {report : ReloadReport}
    (hstaged : Staged deps n p) :
    Program.UsesUntil (stages deps n) (applied false)
      (applyPlan tenantId plan p.toStore report) := by
  refine usesUntil_storeAll (fun e he => ?_) (fun ok => ?_)
  · rcases hstaged.drawn e he with ⟨k, _, hdrawn⟩
    exact ⟨k, hdrawn⟩
  · cases ok with
    | false => exact usesUntil_giveUp hstaged
    | true =>
        intro r
        cases r with
        | error e => exact Or.inr ⟨by rintro ⟨⟩, usesUntil_giveUp hstaged⟩
        | ok outcome =>
            cases outcome with
            | changed => exact Or.inr ⟨by rintro ⟨⟩, usesUntil_giveUp hstaged⟩
            | applied =>
                -- From here on only the replaced files are dropped.
                have hends : Program.Ends (applied false)
                    (do
                      discard tenantId plan.deleteBundleIds
                      return Except.ok report : Prog (Except ReconcileError ReloadReport)) :=
                  Program.ends_bind (Program.ends_true _) (fun _ _ => ⟨rfl, report, rfl⟩)
                exact Or.inl hends

theorem usesUntil_reconcile (n : Nat) (tenantId : Int) (shown : String) (dir : Node)
    (dryRun : Bool) (hids : deps.UniqueIds) :
    Program.UsesUntil (stages deps n) (applied dryRun)
      (reconcile deps n tenantId shown dir dryRun) := by
  have hreads : forall op : Op, op.reads = true -> forall r, stages deps n op r :=
    fun op hop r => stages_of_reads hop r
  unfold reconcile
  split
  · trivial
  · refine usesUntil_askOr (hreads _ rfl) (fun tenant => ?_)
    cases tenant with
    | none => trivial
    | some tenant =>
        refine usesUntil_askOr (hreads _ rfl) (fun bundles => ?_)
        refine usesUntil_askOr (hreads _ rfl) (fun groups => ?_)
        refine usesUntil_askOr (hreads _ rfl) (fun assignments => ?_)
        unfold reconcileExisting
        split
        · trivial
        · rename_i built hbuilt
          refine Program.usesUntil_bind
            (Program.uses_mono hreads (uses_planBundles n tenantId dryRun _ _ built))
            (ends_planBundles hids (staged_start n) (builtWithin_sha256 hbuilt)) ?_
          intro planned hplanned
          cases planned with
          | error e => trivial
          | ok p =>
              refine (?_ : Program.UsesUntil (stages deps n) (applied dryRun)
                (reconcilePlanned deps n tenantId dryRun _ _ p))
              unfold reconcilePlanned
              simp only
              cases dryRun with
              | true => trivial
              | false =>
                  split
                  · trivial
                  · exact usesUntil_applyPlan (hplanned p rfl)

/-!
# A reconcile that was not applied
-/

/-- Every completed call of a reconcile that is not applied leaves tables and
files alone, whatever others do between the calls. -/
theorem untouched_among {shown : String} {dir : Node} {Others : World -> World -> Prop}
    {w v : World} {events : List (Event machine)} {answer : Except ReconcileError ReloadReport}
    (hids : deps.UniqueIds)
    (hothers : forall u u', Others u u' -> OwnIds deps n u -> OwnIds deps n u')
    (hw : OwnIds deps n w)
    (hrun : Among machine Others (reconcile deps n tenantId shown dir dryRun) w events answer v)
    (hfailed : ¬ applied dryRun answer) :
    forall e, e ∈ events -> Untouched e.before e.after := by
  have hstep : forall op u, stages deps n op (exec op u).1 -> OwnIds deps n u ->
      OwnIds deps n (exec op u).2 := by
    intro op u hop hu b hb
    rw [(untouched_of_stages hop hu).1] at hb
    exact hu b hb
  intro e he
  obtain ⟨hop, hbefore⟩ := usesUntil_of_among (OwnIds deps n) hothers hstep hrun
    (usesUntil_reconcile n tenantId shown dir dryRun hids) hfailed hw e he
  exact untouched_of_stages hop hbefore

/-- A reconcile that fails, or was only asked what it would do, changes neither
tables nor the files of rows: not by any of its calls, and by itself not at all. -/
theorem reconcile_untouched {n : Nat} {tenantId : Int} {shown : String} {dir : Node}
    {dryRun : Bool} {w v : World} {events : List (Event machine)}
    {answer : Except ReconcileError ReloadReport} (hids : deps.UniqueIds)
    (hw : OwnIds deps n w) (hfailed : ¬ applied dryRun answer) :
    (forall Others : World -> World -> Prop,
      (forall u u', Others u u' -> OwnIds deps n u -> OwnIds deps n u') ->
      Among machine Others (reconcile deps n tenantId shown dir dryRun) w events answer v ->
        forall e, e ∈ events -> Untouched e.before e.after) ∧
    (Alone machine (reconcile deps n tenantId shown dir dryRun) w events answer v ->
      Untouched w v) := by
  constructor
  · intro Others hothers hrun
    exact untouched_among hids hothers hw hrun hfailed
  · intro hrun
    have hamong : Among machine (fun _ _ => False)
        (reconcile deps n tenantId shown dir dryRun) w events answer v := among_of_alone hrun
    exact rel_of_alone untouched_refl untouched_trans hrun
      (untouched_among hids (fun _ _ hmove => hmove.elim) hw hamong hfailed)

def oneBundleDir : Node :=
  Node.dir [("bundles", Node.dir [("base", Node.dir [("1.zip", Node.file [1])])])]

/-- Its file cannot be stored: the reconcile takes back what it may have left. -/
theorem reconcile_untouched_storeFails :
    let w := World.start sampleDb ∅ 0
    exists events v,
      Alone machine (reconcile Deps.sample 0 1 "" oneBundleDir false) w events
        (Except.error ReconcileError.internal) v ∧ Untouched w v := by
  intro w
  have hown : OwnIds Deps.sample 0 w := fun _ hb => absurd hb List.not_mem_nil
  have hfailed : ¬ applied false (Except.error ReconcileError.internal) := by
    rintro ⟨_, report, h⟩
    cases h
  have hruns : exists events v,
      Alone machine (reconcile Deps.sample 0 1 "" oneBundleDir false) w events
        (Except.error ReconcileError.internal) v :=
    ⟨_, _, Alone.exec (Alone.exec (Alone.exec (Alone.exec (Alone.exec
      (Alone.fault rfl (Alone.exec (Alone.done _ _)))))))⟩
  rcases hruns with ⟨events, v, hrun⟩
  exact ⟨events, v, hrun, (reconcile_untouched Deps.uniqueIds_sample hown hfailed).2 hrun⟩

end ConfigSource
end FleetServer
