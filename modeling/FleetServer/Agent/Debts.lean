import FleetServer.Agent.Coherence

/-!
# What requests owe the cache

Which hosts' inputs a call can change, and which calls settle that.  A request is
followed through its program: whatever its calls answer, it ends owing nothing.
-/

namespace FleetServer
namespace Agent
namespace Coherence

open FleetServer.Core
open Storage
open Server
open Concurrency

/-!
# Touching and settling
-/

/-- The hosts whose inputs a statement can have changed without moving their tenant's
version, by its answer and the tag its request looked up before it. -/
def stmtTouches (looked : Option (String × String × Option String)) (key : HostKey) :
    (s : Statement) -> s.Answer -> Prop
  | Statement.upsertOverride tenantId hostId _ _ _ _, _ => key = (tenantId, hostId)
  | Statement.deleteOverride tenantId hostId, found => found = true ∧ key = (tenantId, hostId)
  | Statement.upsertManualTag tenantId hostId tag value, _ =>
      key = (tenantId, hostId) ∧ looked ≠ some (hostId, tag, some value)
  | Statement.deleteManualTag tenantId hostId _, found =>
      found = true ∧ key = (tenantId, hostId)
  | Statement.replaceAgentTags tenantId hostId _, changed =>
      changed = true ∧ key = (tenantId, hostId)
  | Statement.createGroup _ tenantId _ _, _ => key.1 = tenantId
  | Statement.updateGroup tenantId _ _ _, found => found = true ∧ key.1 = tenantId
  | Statement.deleteGroup tenantId _, found => found = true ∧ key.1 = tenantId
  | Statement.deleteBundle tenantId _, found => found = true ∧ key.1 = tenantId
  | Statement.replaceSignature tenantId _ _, _ => key.1 = tenantId
  | Statement.assign tenantId _ _ _, _ => key.1 = tenantId
  | Statement.unassign tenantId _ _, found => found = true ∧ key.1 = tenantId
  | Statement.replaceFacts tenantId hostId _ _, outcome =>
      outcome = ReplaceOutcome.stored ∧ key = (tenantId, hostId)
  | Statement.deleteFacts tenantId hostId _, found => found = true ∧ key = (tenantId, hostId)
  | Statement.deleteFactsSource tenantId _, hosts => key.1 = tenantId ∧ key.2 ∈ hosts
  | _, _ => False

def touches (looked : Option (String × String × Option String)) (key : HostKey) :
    (op : Op) -> op.Res -> Prop
  | Op.statement s, Except.ok answer => stmtTouches looked key s answer
  | _, _ => False

def settles (key : HostKey) : (op : Op) -> op.Res -> Prop
  | Op.invalidateHost other, _ => key = other
  | Op.statement (Statement.bumpConfigVersion tenantId), Except.ok _ => key.1 = tenantId
  | _, _ => False

def lookedBy : (op : Op) -> op.Res -> Option (String × String × Option String)
  | Op.query (Query.manualTag hostId tag), Except.ok value => some (hostId, tag, value)
  | _, _ => none

/-- How a call that answers `a` moves its request's entry of the ledger on, as far as
the hosts in `K` are concerned. -/
structure Step (Ok : (op : Op) -> op.Res -> Prop) (K : HostKey -> Prop) (op : Op) (a : op.Res)
    (m m' : Course) : Prop where
  ok : Ok op a
  owes : forall key, K key -> m'.owes key ->
    ¬ settles key op a ∧ (m.owes key ∨ touches m.looked key op a)
  looked : forall tag, lookedBy op a = some tag -> m'.looked = some tag

variable {Ok : (op : Op) -> op.Res -> Prop} {K : HostKey -> Prop} {alpha beta : Type}
variable {m m' : Course} {op : Op} {a : op.Res} {S : HostKey -> Prop}

theorem settled_of_settles {key : HostKey} {w : World}
    (h : settles key op (exec op w).1) : settled key op w (exec op w).2 := by
  cases op with
  | invalidateHost other =>
      apply Or.inl
      rw [show key = other from h]
  | statement s =>
      cases s with
      | bumpConfigVersion tenantId =>
          have hexec : exec (Op.statement (Statement.bumpConfigVersion tenantId)) w =
              (Statement.bumpConfigVersion tenantId).exec w := rfl
          rw [hexec] at h ⊢
          unfold Statement.exec at h ⊢
          split at h
          · rename_i v db hok
            apply Or.inr
            rw [bumpConfigVersion_eq_ok hok, show key.1 = tenantId from h]
            exact Db.moved_bumped w.db tenantId
          · exact h.elim
      | _ => exact h.elim
  | _ => exact h.elim

theorem lookedUp_of_lookedBy {w : World} {tag : String × String × Option String}
    (h : lookedBy op (exec op w).1 = some tag) : lookedUp op w = some tag := by
  cases op with
  | query q =>
      cases q with
      | manualTag hostId key => exact h
      | _ => cases h
  | _ => cases h

/-- A call that goes through moves the entry on, if whatever it changes of a host's
inputs is settled by it or accounted for. -/
theorem step_exec {w : World} {c : Course} (hok : Ok op (exec op w).1)
    (hframe : forall key, K key -> HasHost key (exec op w).2.db ->
      ¬ settled key op w (exec op w).2 ->
      hostInputs key (exec op w).2.db ≠ hostInputs key w.db ->
        touches c.looked key op (exec op w).1) :
    Step Ok K op (exec op w).1 c (c.after op w (exec op w).2) where
  ok := hok
  owes := by
    intro key hK howes
    rcases howes with ⟨hsettled, hhost, hold | hchanged⟩
    · exact ⟨fun h => hsettled (settled_of_settles h), Or.inl hold⟩
    · exact ⟨fun h => hsettled (settled_of_settles h),
        Or.inr (hframe key hK hhost hsettled hchanged)⟩
  looked := fun _ h => lookedUp_of_lookedBy h

theorem touches_of_changed {looked : Option (String × String × Option String)} {key : HostKey}
    {w : World}
    (h : forall (s : Statement) (answer : s.Answer) (db : Db), op = Op.statement s ->
      s.tx w.now w.db = Except.ok (answer, db) -> hostInputs key db ≠ hostInputs key w.db ->
        stmtTouches looked key s answer)
    (hchanged : hostInputs key (exec op w).2.db ≠ hostInputs key w.db) :
    touches looked key op (exec op w).1 := by
  cases op with
  | statement s =>
      have hexec : exec (Op.statement s) w = s.exec w := rfl
      rw [hexec] at hchanged ⊢
      unfold Statement.exec at hchanged ⊢
      split
      · rename_i answer db htx
        rw [htx] at hchanged
        exact h s answer db rfl htx hchanged
      · rename_i e htx
        rw [htx] at hchanged
        exact absurd rfl hchanged
  | _ => exact absurd (hostInputs_exec (by simp [Op.writes]) w key) hchanged

/-- A call that fails changes nothing. -/
theorem step_fault {w : World} {c : Course} (hfault : fault op = some a) (hok : Ok op a) :
    Step Ok K op a c (c.after op w w) where
  ok := hok
  owes := by
    intro key _ howes
    rcases howes with ⟨_, _, hold | hchanged⟩
    · refine ⟨fun hsettles => ?_, Or.inl hold⟩
      cases op with
      | invalidateHost other => cases hfault
      | statement s =>
          rw [← Option.some.inj hfault] at hsettles
          cases s with
          | _ => exact hsettles.elim
      | _ => exact hsettles.elim
    · exact absurd rfl hchanged
  looked := by
    intro tag h
    cases op with
    | query q =>
        rw [← Option.some.inj hfault] at h
        cases q with
        | _ => cases h
    | _ => cases h

def OwesOnly (K S : HostKey -> Prop) (m : Course) : Prop :=
  forall key, K key -> m.owes key -> S key

abbrev Clear (K : HostKey -> Prop) (m : Course) : Prop :=
  OwesOnly K (fun _ => False) m

theorem owesOnly_mono {S' : HostKey -> Prop} (h : OwesOnly K S m)
    (hSS' : forall key, S key -> S' key) : OwesOnly K S' m :=
  fun key hK howes => hSS' key (h key hK howes)

theorem clear_blank : Clear K Course.blank := fun _ _ howes => howes

/-- Whatever its calls answer, the program ends owing nothing. -/
abbrev Pays (Ok : (op : Op) -> op.Res -> Prop) (K : HostKey -> Prop) (p : Prog alpha)
    (m : Course) : Prop :=
  Program.Leads (Step Ok K) (fun _ m => Clear K m) p m

/-- Calls that touch no host. -/
def idle : Op -> Bool
  | Op.statement s =>
      match s with
      | Statement.upsertOverride _ _ _ _ _ _ => false
      | Statement.deleteOverride _ _ => false
      | Statement.upsertManualTag _ _ _ _ => false
      | Statement.deleteManualTag _ _ _ => false
      | Statement.replaceAgentTags _ _ _ => false
      | Statement.createGroup _ _ _ _ => false
      | Statement.updateGroup _ _ _ _ => false
      | Statement.deleteGroup _ _ => false
      | Statement.deleteBundle _ _ => false
      | Statement.replaceSignature _ _ _ => false
      | Statement.assign _ _ _ _ => false
      | Statement.unassign _ _ _ => false
      | Statement.replaceFacts _ _ _ _ => false
      | Statement.deleteFacts _ _ _ => false
      | Statement.deleteFactsSource _ _ => false
      | _ => true
  | _ => true

theorem not_touches {looked : Option (String × String × Option String)} {key : HostKey}
    (hop : idle op = true) : ¬ touches looked key op a := by
  intro h
  cases op with
  | statement s =>
      cases a with
      | error e => exact h
      | ok answer =>
          cases s with
          | _ =>
              first
              | exact h
              | cases hop
  | _ => exact h

/-- What a call may leave owed. -/
theorem owesOnly_step (h : OwesOnly K S m) (hstep : Step Ok K op a m m') :
    OwesOnly K (fun key => ¬ settles key op a ∧ (S key ∨ touches m.looked key op a)) m' := by
  intro key hK howes
  rcases hstep.owes key hK howes with ⟨hsettles, hold | hnew⟩
  · exact ⟨hsettles, Or.inl (h key hK hold)⟩
  · exact ⟨hsettles, Or.inr hnew⟩

theorem owesOnly_idle (hop : idle op = true) (h : OwesOnly K S m)
    (hstep : Step Ok K op a m m') : OwesOnly K S m' := by
  intro key hK howes
  rcases (owesOnly_step h hstep key hK howes).2 with hold | hnew
  · exact hold
  · exact absurd hnew (not_touches hop)

/-!
# Walking through requests
-/

theorem pays_done (answer : alpha) (h : Clear K m) : Pays Ok K (Program.done answer) m := h

theorem pays_idle {next : op.Res -> Prog alpha} (hop : idle op = true) (h : Clear K m)
    (hnext : forall a m, Clear K m -> Pays Ok K (next a) m) :
    Pays Ok K (Program.call op next) m :=
  fun a _ hstep => hnext a _ (owesOnly_idle hop h hstep)

theorem pays_uses {p : Prog alpha} (hp : Program.Uses (fun op => idle op = true) p)
    (h : Clear K m) : Pays Ok K p m := by
  induction p generalizing m with
  | done answer => exact h
  | call op next ih => exact pays_idle hp.1 h (fun a _ hm => ih a (hp.2 a) hm)

theorem pays_bind {p : Prog alpha} {f : alpha -> Prog beta} (hp : Pays Ok K p m)
    (hf : forall answer m, Clear K m -> Pays Ok K (f answer) m) : Pays Ok K (p >>= f) m :=
  Program.leads_bind hp hf

theorem pays_askOr {q : Query} {failed : beta} {next : q.Answer -> Prog beta} (h : Clear K m)
    (hnext : forall answer m, Clear K m -> Pays Ok K (next answer) m) :
    Pays Ok K (askOr q failed next) m := by
  apply pays_idle rfl h
  intro a m hm
  cases a with
  | ok answer => exact hnext answer m hm
  | error e => exact hm

theorem pays_guarded {check : Except Response alpha} {next : alpha -> Prog Response}
    (h : Clear K m) (hnext : forall a, Pays Ok K (next a) m) :
    Pays Ok K (guarded check next) m := by
  cases check with
  | ok a => exact hnext a
  | error refused => exact h

/-- A statement, and what is owed once it was made. -/
theorem pays_executeOr {s : Statement} {failed : beta} {next : s.Answer -> Prog beta}
    (h : Clear K m)
    (hnext : forall answer m', OwesOnly K (fun key => stmtTouches m.looked key s answer) m' ->
      Pays Ok K (next answer) m') :
    Pays Ok K (executeOr s failed next) m := by
  intro a m' hstep
  have howes := owesOnly_step h hstep
  cases a with
  | ok answer =>
      apply hnext answer m'
      refine owesOnly_mono howes ?_
      intro key hkey
      rcases hkey.2 with hnone | htouched
      · exact hnone.elim
      · exact htouched
  | error e =>
      intro key hK howed
      rcases (howes key hK howed).2 with hnone | htouched
      · exact hnone
      · exact htouched

/-- Dropping the entry of the only host that is owed. -/
theorem pays_invalidateHost {other : HostKey} {next : Unit -> Prog beta}
    (h : OwesOnly K (fun key => key = other) m)
    (hnext : forall m, Clear K m -> Pays Ok K (next ()) m) :
    Pays Ok K (Program.call (Op.invalidateHost other) next) m := by
  intro a m' hstep
  apply hnext m'
  intro key hK howes
  rcases owesOnly_step h hstep key hK howes with ⟨hsettles, hold | hnew⟩
  · exact hsettles hold
  · exact hnew

/-!
# Throughout a run
-/

section Runs

variable {deps : Deps} {w : World} {p : Pool (service deps)} {note : Ledger}
variable {Allowed : Pool (service deps) -> Ledger -> Choice (service deps) ->
  Pool (service deps) -> Prop}

theorem not_owed_of_answered
    (hspawn : forall p note request q, Allowed p note (Choice.spawn request) q ->
      Pays Ok K (program deps p.threads.length request) Course.blank)
    (hexec : forall p note q i request op, Allowed p note (Choice.exec i) q ->
      p.caller? (Choice.exec i) = some (i, request, op) ->
      Step Ok K op (exec op p.world).1 (note i) ((note i).after op p.world (exec op p.world).2))
    (hfault : forall p note q i request op a, Allowed p note (Choice.fault i) q ->
      p.caller? (Choice.fault i) = some (i, request, op) -> fault op = some a -> Ok op a)
    (hrun : Recorded (ledger deps) Allowed (Pool.init w) Ledger.blank p note)
    (hanswered : forall t, t ∈ p.threads -> exists answer, t.rest = Program.done answer)
    {key : HostKey} (hK : K key) : ¬ Owed note key := by
  have hleads : (forall (i : Nat) (t : Thread (service deps)), p.threads[i]? = some t ->
      Program.Leads (Step Ok K) (fun _ m => Clear K m) t.rest (note i)) ∧
        forall i, p.threads.length ≤ i -> note i = Course.blank := by
    apply @Recorded.leads Op Op.Res (service deps) Ledger (ledger deps) Allowed p Ledger.blank note
      Course (fun note i => note i) Course.blank (fun _ => Step Ok K) (fun _ _ m => Clear K m) w
      hspawn
    · intro p note q i request op hallowed hcaller hworld
      rw [hworld]
      show Step Ok K op _ (note i) (Function.update note i _ i)
      rw [Function.update_self]
      exact hexec p note q i request op hallowed hcaller
    · intro p note q i request op a hallowed hcaller hfails hworld
      rw [hworld]
      show Step Ok K op a (note i) (Function.update note i _ i)
      rw [Function.update_self]
      exact step_fault hfails (hfault p note q i request op a hallowed hcaller hfails)
    · intro i j request op w v note hji
      exact Function.update_of_ne hji _ note
    · exact fun _ => rfl
    · exact hrun
  intro howed
  rcases howed with ⟨i, howes⟩
  by_cases hlt : i < p.threads.length
  · rcases hanswered _ (List.getElem_mem hlt) with ⟨answer, hdone⟩
    have hclear := hleads.1 i _ (List.getElem?_eq_getElem hlt)
    rw [hdone] at hclear
    exact hclear key hK howes
  · rw [hleads.2 i (by omega)] at howes
    exact howes

end Runs

end Coherence
end Agent
end FleetServer
