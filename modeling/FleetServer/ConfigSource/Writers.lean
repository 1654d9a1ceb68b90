import FleetServer.Concurrency.Trace
import FleetServer.Server.Calls
import FleetServer.Server.Constraints
import FleetServer.Storage.Replace

/-!
# The writers of a tenant's configuration

Requests that change groups, bundles and assignments.  A group gets its id from
the request that inserts it, which reads no groups afterwards; so no request
ever reads a group under an id it may still draw.
-/

namespace FleetServer
namespace ConfigSource

open FleetServer.Core
open Storage
open Table
open Server
open Concurrency

variable {deps : Deps}

def writesConfig : Request -> Bool
  | Request.http (HttpRequest.createGroup _ _ _) => true
  | Request.http (HttpRequest.patchGroup _ _ _ _) => true
  | Request.http (HttpRequest.deleteGroup _ _) => true
  | Request.http (HttpRequest.assign _ _ _ _) => true
  | Request.http (HttpRequest.unassign _ _ _) => true
  | Request.http (HttpRequest.uploadBundle _ _) => true
  | Request.http (HttpRequest.composeBundle _ _) => true
  | Request.http (HttpRequest.deleteBundle _ _) => true
  | Request.http (HttpRequest.stageReseal _ _ _) => true
  | Request.http (HttpRequest.renameBundle _ _) => true
  | Request.reconcile _ _ _ _ => true
  | _ => false

def startsWriter : Concurrency.Choice (service deps) -> Bool
  | Choice.spawn request => writesConfig request
  | _ => true

def startsWriters (_ : Pool (service deps)) (c : Concurrency.Choice (service deps)) : Prop :=
  startsWriter c = true

/-!
# Inserted groups
-/

def insertsGroups : Op -> Bool
  | Op.statement (Statement.createGroup _ _ _ _) => true
  | Op.statement (Statement.applyConfig _ _) => true
  | _ => false

def readsGroups : Op -> Bool
  | Op.query (Query.groups _) => true
  | _ => false

def ownGroups (deps : Deps) (n : Nat) : Op -> Prop
  | Op.statement (Statement.createGroup id _ _ _) => exists k, id = deps.ulid n k
  | Op.statement (Statement.applyConfig _ plan) => Drawn deps n plan
  | _ => True

theorem ownGroups_of_inserts {op : Op} (hop : insertsGroups op = false) (n : Nat) :
    ownGroups deps n op := by
  cases op with
  | statement s =>
      cases s with
      | createGroup id tenantId name selectorJson => cases hop
      | applyConfig tenantId plan => cases hop
      | _ => trivial
  | _ => trivial

theorem insertsGroups_of_reads {op : Op} (hop : op.reads = true) : insertsGroups op = false := by
  cases op with
  | statement s => cases hop
  | _ => rfl

/-- The rest of the request inserts groups under its own ids only, and reads no
groups once it did. -/
def GroupsLast (deps : Deps) (n : Nat) {alpha : Type} (p : Prog alpha) : Prop :=
  Program.Uses (ownGroups deps n) p ∧
    Program.NoneAfter (fun op => insertsGroups op = true) (fun op => readsGroups op = true) p

theorem groupsLast_of_uses {n : Nat} {alpha : Type} {p : Prog alpha}
    (h : Program.Uses (fun op => insertsGroups op = false) p) : GroupsLast deps n p := by
  constructor
  · exact Program.uses_mono (fun op hop => ownGroups_of_inserts hop n) h
  · apply Program.noneAfter_of_uses
    apply Program.uses_mono _ h
    intro op hop hinserts
    rw [hop] at hinserts
    cases hinserts

theorem groupsLast_answer {n : Nat} {alpha beta : Type} {p : Prog alpha} {f : alpha -> beta}
    (h : GroupsLast deps n p) : GroupsLast deps n (p >>= fun a => return f a) := by
  constructor
  · exact Program.uses_bind h.1 (fun _ => trivial)
  · have hnone := h.2
    clear h
    induction p with
    | done a => trivial
    | call op next ih =>
        refine ⟨fun hop r => ?_, fun r => ih r (hnone.2 r)⟩
        exact Program.uses_bind (hnone.1 hop r) (fun _ => trivial)

section Reconcile

variable {n : Nat} {tenantId : Int}

theorem noneAfter_askOr {A B : Op -> Prop} {alpha : Type} {q : Query} {failed : alpha}
    {next : q.Answer -> Prog alpha} (hq : ¬ A (Op.query q))
    (hnext : forall a, Program.NoneAfter A B (next a)) :
    Program.NoneAfter A B (askOr q failed next) := by
  refine ⟨fun hop => absurd hop hq, fun r => ?_⟩
  cases r with
  | ok answer => exact hnext answer
  | error e => trivial

theorem groupsLast_reconcile (hids : deps.UniqueIds) (shown : String) (dir : Node)
    (dryRun : Bool) : GroupsLast deps n (reconcile deps n tenantId shown dir dryRun) := by
  constructor
  · apply uses_reconcile hids
    · intro op hop
      exact ownGroups_of_inserts (insertsGroups_of_reads hop) n
    · intro k bytes
      trivial
    · intro id
      trivial
    · intro plan hplan
      exact hplan
  · have hask : forall q, ¬ insertsGroups (Op.query q) = true := fun _ => Bool.false_ne_true
    unfold reconcile
    split
    · trivial
    · refine noneAfter_askOr (hask _) (fun tenant => ?_)
      cases tenant with
      | none => trivial
      | some tenant =>
          refine noneAfter_askOr (hask _) (fun bundles => ?_)
          refine noneAfter_askOr (hask _) (fun groups => ?_)
          refine noneAfter_askOr (hask _) (fun assignments => ?_)
          unfold reconcileExisting
          split
          · trivial
          · apply Program.noneAfter_bind
            · apply Program.uses_mono _ (uses_planBundles n tenantId dryRun _ _ _)
              intro op hop
              rw [insertsGroups_of_reads hop]
              exact Bool.false_ne_true
            · intro planned
              cases planned with
              | error e => trivial
              | ok p =>
                  change Program.NoneAfter _ _ (reconcilePlanned deps n tenantId dryRun _ _ p)
                  unfold reconcilePlanned
                  simp only
                  split
                  · trivial
                  · exact Program.noneAfter_of_none (uses_applyPlan
                      (fun _ _ => Bool.false_ne_true) (fun _ => Bool.false_ne_true)
                      Bool.false_ne_true)

end Reconcile

theorem groupsLast_writer {n : Nat} {request : Request} (hids : deps.UniqueIds)
    (hrequest : writesConfig request = true) : GroupsLast deps n (program deps n request) := by
  cases request with
  | reconcile tenantId shown dir dryRun =>
      exact groupsLast_answer (groupsLast_reconcile hids shown dir dryRun)
  | http request =>
      apply groupsLast_answer
      cases request with
      | createGroup who name selector =>
          constructor
          · exact uses_createGroup (fun _ => trivial) (fun _ => ⟨0, rfl⟩)
          · exact Program.noneAfter_of_none
              (uses_createGroup (fun _ => Bool.false_ne_true) (fun _ => Bool.false_ne_true))
      | patchGroup who groupId name selector =>
          exact groupsLast_of_uses (uses_patchGroup (fun _ => rfl) (fun _ => rfl))
      | deleteGroup who groupId =>
          exact groupsLast_of_uses (uses_deleteGroup (fun _ => rfl) rfl)
      | assign who groupId bundleId priority =>
          exact groupsLast_of_uses
            (uses_assignToGroup (fun _ => insertsGroups_of_reads) (fun _ => rfl) rfl)
      | unassign who groupId bundleId =>
          exact groupsLast_of_uses (uses_unassignFromGroup (fun _ => rfl) rfl)
      | uploadBundle who form =>
          exact groupsLast_of_uses (uses_upload (fun _ => insertsGroups_of_reads) (fun _ => rfl)
            (fun _ _ _ _ _ _ _ _ => rfl) (fun _ _ _ => rfl) who form)
      | composeBundle who body =>
          exact groupsLast_of_uses (uses_compose (fun _ => insertsGroups_of_reads) (fun _ => rfl)
            (fun _ _ _ _ _ _ _ _ => rfl) (fun _ _ _ => rfl) who body)
      | deleteBundle who bundleId =>
          exact groupsLast_of_uses
            (uses_deleteBundle (fun _ => insertsGroups_of_reads) (fun _ => rfl) rfl rfl)
      | stageReseal who bundleId body =>
          exact groupsLast_of_uses
            (uses_stageReseal (fun _ => insertsGroups_of_reads) (fun _ => rfl))
      | renameBundle who body =>
          exact groupsLast_of_uses
            (uses_rename (fun _ => insertsGroups_of_reads) (fun _ _ _ => rfl))
      | _ => cases hrequest

/-!
# Which groups there are
-/

theorem id_of_mem_groups_tx {s : Statement} {now : Int} {db db' : Db} {answer : s.Answer}
    (htx : s.tx now db = Except.ok (answer, db')) {row : GroupRow} (hrow : row ∈ db'.groups) :
    (exists row', row' ∈ db.groups ∧ row'.id = row.id) ∨
      (insertsGroups (Op.statement s) = true ∧
        forall n, ownGroups deps n (Op.statement s) -> exists k, row.id = deps.ulid n k) := by
  by_cases hwrites : Part.groups ∈ s.writes
  · cases s with
    | createGroup id tenantId name selectorJson =>
        rcases Tx.bind_eq_ok.mp htx with ⟨_, mid, hinsert, hpure⟩
        rcases Tx.pure_eq_ok.mp hpure with ⟨_, rfl⟩
        unfold GroupsRepo.insertRow at hinsert
        rcases Tx.guarded_eq_ok.mp hinsert with ⟨_, hdb⟩
        cases hdb
        rcases List.mem_append.mp hrow with hrow | hrow
        · exact Or.inl ⟨row, hrow, rfl⟩
        · rw [List.mem_singleton.mp hrow]
          exact Or.inr ⟨rfl, fun _ hown => hown⟩
    | updateGroup tenantId id name selectorJson =>
        change GroupsRepo.update tenantId id name selectorJson db = _ at htx
        unfold GroupsRepo.update at htx
        rcases Tx.guarded_eq_ok.mp htx with ⟨_, hdb⟩
        cases hdb
        rcases mem_updateWhere.mp hrow with ⟨row', hrow', rfl⟩
        refine Or.inl ⟨row', hrow', ?_⟩
        split <;> rfl
    | deleteGroup tenantId id =>
        change GroupsRepo.delete tenantId id db = _ at htx
        unfold GroupsRepo.delete at htx
        rcases Tx.guarded_eq_ok.mp htx with ⟨_, hdb⟩
        cases hdb
        exact Or.inl ⟨row, mem_of_mem_deleteWhere hrow, rfl⟩
    | applyConfig tenantId plan =>
        cases answer with
        | changed =>
            rw [ConfigSourceRepo.apply_eq_changed htx] at hrow
            exact Or.inl ⟨row, hrow, rfl⟩
        | applied =>
            rcases ConfigSourceRepo.apply_eq_ok htx with ⟨_, _, hgroups, _⟩
            rw [hgroups] at hrow
            rcases ConfigSourceRepo.id_of_mem_foldl_withGroup hrow with
              ⟨row', hrow', hid⟩ | ⟨g, hg, hcreate, hid⟩
            · exact Or.inl ⟨row', mem_of_mem_deleteWhere hrow', hid⟩
            · refine Or.inr ⟨rfl, fun n hown => ?_⟩
              rcases hown.2 g hg hcreate with ⟨k, hk⟩
              exact ⟨k, hid.trans hk⟩
    | _ => simp [Statement.writes] at hwrites
  · have hsame : db'.groups = db.groups := Statement.keeps hwrites db answer db' htx
    rw [hsame] at hrow
    exact Or.inl ⟨row, hrow, rfl⟩

theorem id_of_mem_groups_exec (deps : Deps) {op : Op} {w : World} {row : GroupRow}
    (hrow : row ∈ (exec op w).2.db.groups) :
    (exists row', row' ∈ w.db.groups ∧ row'.id = row.id) ∨
      (insertsGroups op = true ∧
        forall n, ownGroups deps n op -> exists k, row.id = deps.ulid n k) := by
  cases op with
  | statement s =>
      change row ∈ (s.exec w).2.db.groups at hrow
      rcases statement_exec s w with ⟨e, _, hexec⟩ | ⟨answer, db, htx, hexec⟩
      · rw [hexec] at hrow
        exact Or.inl ⟨row, hrow, rfl⟩
      · rw [hexec] at hrow
        exact id_of_mem_groups_tx htx hrow
  | storeGet tenantId id =>
      rw [exec_storeGet_world] at hrow
      exact Or.inl ⟨row, hrow, rfl⟩
  | _ => exact Or.inl ⟨row, hrow, rfl⟩

structure Tended (p : Pool (service deps)) : Prop where
  threads : forall (i : Nat) (t : Thread (service deps)), p.threads[i]? = some t ->
    GroupsLast deps i t.rest
  born : forall row, row ∈ p.world.db.groups -> forall n k, row.id = deps.ulid n k ->
    exists t, p.threads[n]? = some t ∧
      Program.Uses (fun op => ¬ readsGroups op = true) t.rest

theorem groupsLast_next {n : Nat} {alpha : Type} {op : Op} {next : op.Res -> Prog alpha}
    (h : GroupsLast deps n (Program.call op next)) (r : op.Res) : GroupsLast deps n (next r) :=
  ⟨h.1.2 r, h.2.2 r⟩

theorem tended_of_set {p q : Pool (service deps)} {i : Nat} {request : Request} {op : Op}
    {next : op.Res -> Prog Answer} {r : op.Res} (hp : Tended p)
    (hget : p.threads[i]? = some ⟨request, Program.call op next⟩)
    (hthreads : q.threads = p.threads.set i ⟨request, next r⟩)
    (hgroups : forall row, row ∈ q.world.db.groups ->
      (exists row', row' ∈ p.world.db.groups ∧ row'.id = row.id) ∨
        (insertsGroups op = true ∧
          forall n k, row.id = deps.ulid n k -> n = i)) : Tended q := by
  have hlast : GroupsLast deps i (Program.call op next) := hp.threads i _ hget
  constructor
  · intro j t ht
    rw [hthreads] at ht
    rcases Discipline.getElem?_resumed ht with ⟨rfl, rfl⟩ | ⟨_, ht⟩
    · exact groupsLast_next hlast r
    · exact hp.threads j t ht
  · intro row hrow n k hid
    rw [hthreads]
    rcases hgroups row hrow with ⟨row', hrow', hsame⟩ | ⟨hinserts, howner⟩
    · rcases hp.born row' hrow' n k (hsame.trans hid) with ⟨t, ht, hnone⟩
      by_cases hni : n = i
      · subst hni
        rw [hget] at ht
        cases ht
        exact ⟨_, Pool.getElem?_set_of_some hget, hnone.2 r⟩
      · exact ⟨t, by rw [List.getElem?_set_ne (Ne.symm hni), ht], hnone⟩
    · rw [howner n k hid]
      exact ⟨_, Pool.getElem?_set_of_some hget, hlast.2.1 hinserts r⟩

theorem tended_step {p q : Pool (service deps)} {c : Concurrency.Choice (service deps)}
    (hids : deps.UniqueIds) (hp : Tended p) (hallowed : startsWriters p c)
    (hstep : p.step c = some q) : Tended q := by
  cases c with
  | spawn request =>
      cases hstep
      constructor
      · intro i t ht
        rcases Discipline.getElem?_spawned ht with ht | ⟨rfl, rfl⟩
        · exact hp.threads i t ht
        · exact groupsLast_writer hids hallowed
      · intro row hrow n k hid
        rcases hp.born row hrow n k hid with ⟨t, ht, hnone⟩
        refine ⟨t, ?_, hnone⟩
        change (p.threads ++ _)[n]? = some t
        rw [List.getElem?_append_left (List.getElem?_eq_some_iff.mp ht).1, ht]
  | exec i =>
      rcases Pool.step_exec hstep with ⟨request, op, next, hget, hworld, hthreads⟩
      apply tended_of_set hp hget hthreads
      intro row hrow
      rw [hworld] at hrow
      have hlast : GroupsLast deps i (Program.call op next) := hp.threads i _ hget
      rcases id_of_mem_groups_exec deps hrow with hold | ⟨hinserts, hnew⟩
      · exact Or.inl hold
      · refine Or.inr ⟨hinserts, fun n k hid => ?_⟩
        rcases hnew i hlast.1.1 with ⟨k', hk'⟩
        exact (hids n k i k' (hid.symm.trans hk')).1
  | fault i =>
      rcases Pool.step_fault hstep with ⟨request, op, next, r, hget, _, hworld, hthreads⟩
      apply tended_of_set hp hget hthreads
      intro row hrow
      rw [hworld] at hrow
      exact Or.inl ⟨row, hrow, rfl⟩
  | env e =>
      cases hstep
      exact ⟨hp.threads, hp.born⟩

theorem fresh_of_tended {p : Pool (service deps)} {i : Nat} {tenantId : Int} (hp : Tended p)
    (hcall : p.call? (Choice.exec i) = some (Op.query (Query.groups tenantId))) :
    forall row, row ∈ p.world.db.groups -> forall k, row.id ≠ deps.ulid i k := by
  intro row hrow k hid
  rcases Pool.exists_of_call? hcall with ⟨j, request, next, hchoice, hget⟩
  cases hchoice
  rcases hp.born row hrow i k hid with ⟨t, ht, hnone⟩
  rw [hget] at ht
  cases ht
  exact hnone.1 rfl

theorem tended_run {w : World} {p : Pool (service deps)} (hids : deps.UniqueIds)
    (hfresh : forall row, row ∈ w.db.groups -> forall n k, row.id ≠ deps.ulid n k)
    (hrun : Pool.Run startsWriters (Pool.init w) p) : Tended p := by
  apply hrun.invariant Tended
  · intro p c q hp hallowed hstep
    exact tended_step hids hp hallowed hstep
  · constructor
    · intro i t ht
      cases ht
    · intro row hrow n k hid
      exact absurd hid (hfresh row hrow n k)

end ConfigSource
end FleetServer
