import FleetServer.Bundles.Files

/-!
# Rows and their bytes

A bundle row describes a stored file by its digest.  The file is there whenever
a request may stop, except between an upload's row and its bytes.
-/

namespace FleetServer
namespace Bundles

open FleetServer.Core
open Storage
open Table
open Server
open Concurrency
open KeyedMap

variable {deps : Deps}

/-!
# Rows that have their bytes
-/

/-- The file of the row is stored, and has the row's digest. -/
def HasBytes (deps : Deps) (files : Map (Int × String) Bytes) (b : BundleRow) : Prop :=
  exists bytes, files.lookup (b.tenantId, b.id) = some bytes ∧ deps.sha256Hex bytes = b.sha256

def Backed (deps : Deps) (w : World) : Prop :=
  forall b, b ∈ w.db.bundles -> HasBytes deps w.files b

def Digested (deps : Deps) (b : BundleRow) (file : Option Bytes) : Prop :=
  exists bytes, file = some bytes ∧ deps.sha256Hex bytes = b.sha256

theorem granted_digested : Granted deps (Digested deps) := by
  constructor
  · intro b _ row hsha _ _
    exact ⟨b.bytes, rfl, hsha.symm⟩
  · intro spec built hfrom row hsha _ _
    exact ⟨built.bytes, rfl, (hsha.trans hfrom.sha256).symm⟩
  · intro b file name signature hfile
    exact hfile
  · intro tenantId key to_ staged version bytes m _ hmade
    rcases movedBundle_eq_ok hmade with ⟨_, _, hmoved⟩
    refine ⟨bytes, rfl, ?_⟩
    rw [hmoved]
    rfl

/-- Nothing is lost where no exposed call is cut off. -/
theorem lossy_spared {Asked : BundleRow -> Option Bytes -> Prop} {n : Nat} {w : World} :
    Lossy deps Asked spared n w := by
  intro op u hspared hexposed
  unfold spared at hspared
  rw [hexposed] at hspared
  cases hspared

/-!
# Sequences
-/

def changesBundles : Request -> Bool
  | Request.http (HttpRequest.uploadBundle _ _) => true
  | Request.http (HttpRequest.composeBundle _ _) => true
  | Request.http (HttpRequest.deleteBundle _ _) => true
  | Request.reconcile _ _ _ _ => true
  | _ => false

theorem kept_changesBundles {n : Nat} {r : Request} {w : World} (hids : deps.UniqueIds)
    (hr : changesBundles r = true) (hw : Kept deps (Digested deps) n w) :
    Throughout spared (Kept deps (Digested deps) (n + 1)) (program deps n r) w := by
  have hgranted : Granted deps (Digested deps) := granted_digested
  cases r with
  | reconcile tenantId shown dir dryRun =>
      exact safe_bind (kept_reconcile hids hgranted hw) (fun _ _ hu => hu)
  | http request =>
      refine safe_bind ?_ (fun _ _ hu => hu)
      cases request with
      | uploadBundle who form => exact kept_upload hids hgranted lossy_spared hw
      | composeBundle who body => exact kept_compose hids hgranted lossy_spared hw
      | deleteBundle who bundleId => exact kept_deleteBundle (kept_mono hw (Nat.le_succ n))
      | _ => cases hr

/-- Whatever fails and wherever the process stops, every bundle has its bytes,
as long as no upload loses the write of its bytes once its row is there. -/
theorem backed_after_sequence {w v : World} {n : Nat} (hids : deps.UniqueIds)
    (hstart : Backed deps w) (hunused : Unused deps 0 w)
    (hsequence : Sequence (service deps) (fun r => changesBundles r = true) spared SameStores
      w n v) : Backed deps v := by
  have hw : Kept deps (Digested deps) 0 w := ⟨hstart, hunused⟩
  refine (hsequence.invariant (Kept deps (Digested deps)) ?_ ?_ hw).rows
  · intro n r u hallowed hu
    exact kept_changesBundles hids hallowed hu
  · rintro n u u' ⟨hdb, hfiles⟩ hu
    exact kept_of_subset hu hfiles (fun b hb => by rw [← hdb]; exact hb)

/-!
# An upload that stops too early

An upload into an empty tenant makes four calls up to its row; the fifth writes
its bytes.
-/

def emptyStore : World :=
  World.start sampleDb ∅ 0

def uploadOne : Request :=
  Request.http (HttpRequest.uploadBundle
    { userId := 1, tenantId := 1, role := Role.owner }
    { name := some "base", version := some "1", format := none, baseBundleId := none,
      bytes := some [1] })

theorem backed_emptyStore : Backed Deps.sample emptyStore :=
  fun _ hb => absurd hb List.not_mem_nil

theorem unused_emptyStore : Unused Deps.sample 0 emptyStore :=
  fun _ hb => absurd hb List.not_mem_nil

/-- An upload that is not cut off. -/
theorem backed_after_upload :
    let v := ((program Deps.sample 0 uploadOne).run machine emptyStore).2
    v.db.bundles.length = 1 ∧ Backed Deps.sample v := by
  intro v
  have hallowed : changesBundles uploadOne = true := rfl
  have hattempt : Attempt machine spared (program Deps.sample 0 uploadOne) emptyStore v :=
    attempt_run machine (program Deps.sample 0 uploadOne) emptyStore
  have hsequence : Sequence (service Deps.sample) (fun r => changesBundles r = true) spared
      SameStores emptyStore 1 v := Sequence.request Sequence.start hallowed hattempt
  exact ⟨by decide +kernel, backed_after_sequence Deps.uniqueIds_sample backed_emptyStore
    unused_emptyStore hsequence⟩

theorem not_backed_after_stop :
    ¬ forall (deps : Deps) (w v : World) (n : Nat), deps.UniqueIds -> Backed deps w ->
      Unused deps 0 w ->
      Sequence (service deps) (fun r => changesBundles r = true) (fun _ _ => True) SameStores
        w n v -> Backed deps v := by
  intro h
  let v := worldAfter machine 4 (program Deps.sample 0 uploadOne) emptyStore
  have hallowed : changesBundles uploadOne = true := rfl
  have hattempt : Attempt machine (fun _ _ => True) (program Deps.sample 0 uploadOne)
      emptyStore v := attempt_worldAfter machine 4 (program Deps.sample 0 uploadOne) emptyStore
  have hbacked := h Deps.sample emptyStore v 1 Deps.uniqueIds_sample backed_emptyStore
    unused_emptyStore (Sequence.request Sequence.start hallowed hattempt)
  have hlost : v.db.bundles.any
      (fun b => (v.files.lookup (b.tenantId, b.id)).isNone) = true := by decide +kernel
  rcases List.any_eq_true.mp hlost with ⟨b, hb, hnone⟩
  rcases hbacked b hb with ⟨bytes, hbytes, _⟩
  rw [hbytes] at hnone
  cases hnone

end Bundles
end FleetServer
