import FleetServer.ConfigSource.Reconcile
import FleetServer.Server.Walk

/-!
# What a plan stages

Planning only reads.  The rows it plans to insert have ids of its own and come
with the bytes they describe.
-/

namespace FleetServer
namespace ConfigSource

open FleetServer.Core
open Storage
open Server
open Concurrency

variable {deps : Deps}
variable {b : BuiltBundle} {specs : List BundleSpec} {built : List BuiltBundle} {n : Nat}
variable {p : Planning} {tenantId : Int} {dryRun : Bool}

/-!
# build_bundles
-/

structure BuiltFrom (deps : Deps) (spec : BundleSpec) (b : BuiltBundle) : Prop where
  name : b.name = spec.name
  version : b.version = spec.version
  sha256 : b.sha256 = deps.sha256Hex b.bytes
  contents : exists label, contentsOf deps label spec.contents =
    Except.ok (b.format, b.bytes, b.keyFingerprint, b.tree)

theorem builtFrom_of_buildBundle {maxBundleMb : Nat} {spec : BundleSpec}
    (h : buildBundle deps maxBundleMb spec = Except.ok b) : BuiltFrom deps spec b := by
  unfold buildBundle at h
  simp only at h
  cases hcontents : contentsOf deps (label spec.name spec.version) spec.contents with
  | error e =>
      rw [hcontents] at h
      cases h
  | ok c =>
      rcases c with ⟨format, bytes, keyFingerprint, tree⟩
      rw [hcontents] at h
      simp only [bind, Except.bind] at h
      split at h
      · cases h
      · cases h
        exact ⟨rfl, rfl, rfl, _, hcontents⟩

theorem builtFrom_of_buildBundles {maxBundleMb : Nat}
    (h : buildBundles deps maxBundleMb specs = Except.ok built) :
    List.Forall₂ (BuiltFrom deps) specs built := by
  induction specs generalizing built with
  | nil =>
      cases h
      exact List.Forall₂.nil
  | cons spec rest ih =>
      unfold buildBundles at h
      split at h
      · rename_i b others hb hothers
        cases h
        exact List.Forall₂.cons (builtFrom_of_buildBundle hb) (ih hothers)
      · cases h
      · cases h
      · cases h

theorem builtFrom_of_builtWithin {limits : TierLimits}
    (h : builtWithin deps limits specs = Except.ok built) :
    List.Forall₂ (BuiltFrom deps) specs built := by
  unfold builtWithin at h
  split at h
  · cases h
  · split at h
    · cases h
    · cases h
      exact builtFrom_of_buildBundles (by assumption)

theorem builtWithin_sha256 {limits : TierLimits}
    (h : builtWithin deps limits specs = Except.ok built) :
    forall b, b ∈ built -> b.sha256 = deps.sha256Hex b.bytes := by
  intro b hb
  rcases Table.forall₂_exists_left (builtFrom_of_builtWithin h) hb with ⟨spec, _, hfrom⟩
  exact hfrom.sha256

/-!
# Planning only reads
-/

theorem uses_unchanged (row : BundleRow) (b : BuiltBundle) :
    Program.Uses (fun op => op.reads = true) (unchanged deps row b) := by
  unfold unchanged
  split
  · trivial
  · split
    · trivial
    · split
      · trivial
      · refine ⟨rfl, fun stored => ?_⟩
        cases stored with
        | error e => trivial
        | ok bytes => trivial

theorem uses_unchangedRow (current : Option BundleRow) (b : BuiltBundle) :
    Program.Uses (fun op => op.reads = true) (unchangedRow deps current b) := by
  unfold unchangedRow
  split
  · trivial
  · rename_i row
    refine Program.uses_bind (uses_unchanged row b) (fun same => ?_)
    cases same <;> trivial

theorem uses_planInsert (n : Nat) (tenantId : Int) (dryRun : Bool) (p : Planning)
    (b : BuiltBundle) :
    Program.Uses (fun op => op.reads = true) (planInsert deps n tenantId dryRun p b) := by
  unfold planInsert withSigningKey
  simp only
  split
  · trivial
  · split
    · trivial
    · refine uses_askOr rfl (fun secrets => ?_)
      split
      · trivial
      · trivial

theorem uses_planBundles (n : Nat) (tenantId : Int) (dryRun : Bool)
    (existing : List BundleRow) (p : Planning) (built : List BuiltBundle) :
    Program.Uses (fun op => op.reads = true)
      (planBundles deps n tenantId dryRun existing p built) := by
  induction built generalizing p with
  | nil => trivial
  | cons b rest ih =>
      refine Program.uses_bind (uses_unchangedRow _ b) (fun same => ?_)
      cases same with
      | some row => exact ih _
      | none =>
          refine Program.uses_bind (uses_planInsert n tenantId dryRun _ b) (fun planned => ?_)
          cases planned with
          | error e => trivial
          | ok p => exact ih p

/-!
# What is staged
-/

/-- The staged files have ids the request drew, each its own, and every row to
insert comes with its bytes. -/
structure Staged (deps : Deps) (n : Nat) (p : Planning) : Prop where
  drawn : forall e, e ∈ p.toStore -> exists k, k < p.drawn ∧ e.1 = deps.ulid n k
  distinct : (p.toStore.map Prod.fst).Nodup
  rows : forall b, b ∈ p.insertBundles ->
    exists bytes, (b.id, bytes) ∈ p.toStore ∧ deps.sha256Hex bytes = b.sha256

theorem staged_start (n : Nat) : Staged deps n Planning.start :=
  ⟨fun _ he => absurd he List.not_mem_nil, List.nodup_nil,
    fun _ hb => absurd hb List.not_mem_nil⟩

theorem staged_of_eq {p' : Planning} (hp : Staged deps n p) (hstore : p'.toStore = p.toStore)
    (hrows : p'.insertBundles = p.insertBundles) (hdrawn : p'.drawn = p.drawn) :
    Staged deps n p' := by
  constructor
  · rw [hstore, hdrawn]
    exact hp.drawn
  · rw [hstore]
    exact hp.distinct
  · rw [hstore, hrows]
    exact hp.rows

theorem staged_insert {signature : String} (hids : deps.UniqueIds) (hp : Staged deps n p)
    (hsha : b.sha256 = deps.sha256Hex b.bytes) :
    Staged deps n (p.insert (deps.ulid n p.drawn) signature b) := by
  constructor
  · intro e he
    rcases List.mem_append.mp he with he | he
    · rcases hp.drawn e he with ⟨k, hk, hid⟩
      exact ⟨k, Nat.lt_succ_of_lt hk, hid⟩
    · rw [List.mem_singleton.mp he]
      exact ⟨p.drawn, Nat.lt_succ_self _, rfl⟩
  · change ((p.toStore ++ [(deps.ulid n p.drawn, b.bytes)]).map Prod.fst).Nodup
    rw [List.map_append, List.nodup_append]
    refine ⟨hp.distinct, List.nodup_singleton _, fun id hid id' hid' hsame => ?_⟩
    rcases List.mem_map.mp hid with ⟨e, he, rfl⟩
    rcases hp.drawn e he with ⟨k, hk, hdrawn⟩
    rw [List.map_singleton, List.mem_singleton] at hid'
    have hkk := (hids n k n p.drawn (hdrawn.symm.trans (hsame.trans hid'))).2
    omega
  · intro row hrow
    rcases List.mem_append.mp hrow with hrow | hrow
    · rcases hp.rows row hrow with ⟨bytes, hbytes, hrowsha⟩
      exact ⟨bytes, List.mem_append_left _ hbytes, hrowsha⟩
    · rw [List.mem_singleton.mp hrow]
      exact ⟨b.bytes, List.mem_append_right _ (List.mem_singleton.mpr rfl), hsha.symm⟩

def staysStaged (deps : Deps) (n : Nat) (r : Except ReconcileError Planning) : Prop :=
  forall p, r = Except.ok p -> Staged deps n p

theorem ends_planInsert (hids : deps.UniqueIds) (hp : Staged deps n p)
    (hsha : b.sha256 = deps.sha256Hex b.bytes) :
    Program.Ends (staysStaged deps n) (planInsert deps n tenantId dryRun p b) := by
  have hinsert : forall (key : Option Bytes) signature,
      Staged deps n ({ p with signingKey := key }.insert (deps.ulid n p.drawn) signature b) :=
    fun key signature => staged_insert hids (staged_of_eq hp rfl rfl rfl) hsha
  have hfailed : staysStaged deps n (Except.error ReconcileError.internal) := by
    intro p' h
    cases h
  unfold planInsert withSigningKey
  simp only
  split
  · intro p' h
    cases h
    exact staged_insert hids hp hsha
  · split
    · intro p' h
      cases h
      exact hinsert _ _
    · refine ends_askOr hfailed (fun secrets => ?_)
      split
      · exact hfailed
      · intro p' h
        cases h
        exact hinsert _ _

/-- What planning inserts keep, planning all the bundles keeps; keeping a row
and reporting one leave alone what is to be inserted. -/
theorem endsGiven_planBundles_of {Known : (op : Op) -> op.Res -> Prop} {Good : Planning -> Prop}
    {existing : List BundleRow} (hsame : forall p p', Good p -> p'.toStore = p.toStore ->
      p'.insertBundles = p.insertBundles -> p'.signingKey = p.signingKey ->
      p'.drawn = p.drawn -> Good p') (hinsert : forall p b, b ∈ built -> Good p ->
      Program.EndsGiven Known (fun r => forall q, r = Except.ok q -> Good q)
        (planInsert deps n tenantId dryRun p b)) (hp : Good p) :
    Program.EndsGiven Known (fun r => forall q, r = Except.ok q -> Good q)
      (planBundles deps n tenantId dryRun existing p built) := by
  induction built generalizing p with
  | nil =>
      intro q h
      cases h
      exact hp
  | cons b rest ih =>
      have hrest := fun p c hc => hinsert p c (List.mem_cons_of_mem b hc)
      refine Program.endsGiven_bind (Program.endsGiven_true _) ?_
      intro same _
      cases same with
      | some row => exact ih hrest (hsame p (p.keep row b) hp rfl rfl rfl rfl)
      | none =>
          have hreport : Good (p.report (byIdentity existing b.name b.version) b) := by
            unfold Planning.report
            split
            · exact hsame p _ hp rfl rfl rfl rfl
            · exact hsame p _ hp rfl rfl rfl rfl
          refine Program.endsGiven_bind (hinsert _ b List.mem_cons_self hreport) ?_
          intro planned hplanned
          cases planned with
          | error e =>
              intro q h
              cases h
          | ok q => exact ih hrest (hplanned q rfl)

theorem ends_planBundles {existing : List BundleRow} (hids : deps.UniqueIds) (hp : Staged deps n p)
    (hsha : forall b, b ∈ built -> b.sha256 = deps.sha256Hex b.bytes) :
    Program.Ends (staysStaged deps n)
      (planBundles deps n tenantId dryRun existing p built) := by
  apply Program.ends_of_endsGiven
  apply endsGiven_planBundles_of
  · intro p p' hp hstore hrows _ hdrawn
    exact staged_of_eq hp hstore hrows hdrawn
  · intro p b hb hp
    exact Program.endsGiven_of_ends (ends_planInsert hids hp (hsha b hb))
  · exact hp

end ConfigSource
end FleetServer
