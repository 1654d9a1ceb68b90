import FleetServer.Agent.Debts

/-!
# Polls and the cache

Agents' polls and downloads, and the console's view of a host, compute states
through the cache.  A poll may also store a document, and then drops the entry.
-/

namespace FleetServer
namespace Agent
namespace Coherence

open FleetServer.Core
open Storage
open Server
open Concurrency

variable {deps : Deps} {i : Nat} {request : Request} {x : World × Ledger}
variable {Ok : (op : Op) -> op.Res -> Prop} {K : HostKey -> Prop} {m : Course}
variable {beta : Type} {q : Query} {failed : beta} {next : q.Answer -> Prog beta}
variable {key : HostKey} {ctx : PeerHostContext} {admitted : Bool}

abbrev Plain {alpha : Type} (p : Prog alpha) : Prop :=
  Program.Uses (fun op => plain op = true) p

/-- Calls that leave the database alone. -/
def sparesDb : Op -> Bool
  | Op.statement _ => false
  | _ => true

abbrev SparesDb {alpha : Type} (p : Prog alpha) : Prop :=
  Program.Uses (fun op => sparesDb op = true) p

def exchangeCall (key : HostKey) : Op -> Bool
  | Op.statement s =>
      match s with
      | Statement.setReportedHash tenantId hostId _ => decide (key = (tenantId, hostId))
      | Statement.clearReportedHash tenantId hostId => decide (key = (tenantId, hostId))
      | Statement.replaceFacts tenantId hostId _ _ => decide (key = (tenantId, hostId))
      | _ => false
  | Op.cacheGet _ _ => false
  | Op.cachePut _ _ _ _ => false
  | _ => true

def pollCall (key : HostKey) : Op -> Bool
  | Op.statement s =>
      match s with
      | Statement.touchLastSeenIfStale tenantId hostId _ => decide (key = (tenantId, hostId))
      | Statement.retireSuperseded tenantId hostId _ => decide (key = (tenantId, hostId))
      | s => exchangeCall key (Op.statement s)
  | _ => true

theorem plain_of_exchangeCall {op : Op} (h : exchangeCall key op = true) :
    plain op = true := by
  cases op with
  | statement s =>
      cases s with
      | createPending id tenantId nonceHash expiresAt => cases h
      | _ => rfl
  | cachePut other ticket version state => cases h
  | _ => rfl

theorem pollCall_of_exchangeCall {op : Op} (h : exchangeCall key op = true) :
    pollCall key op = true := by
  cases op with
  | statement s =>
      cases s with
      | touchLastSeenIfStale tenantId hostId secs => cases h
      | retireSuperseded tenantId hostId serial => cases h
      | _ => exact h
  | _ => rfl

theorem pollCall_of_sparesDb {op : Op} (h : sparesDb op = true) :
    pollCall key op = true := by
  cases op with
  | statement s => cases h
  | _ => rfl

theorem idle_of_sparesDb {op : Op} (h : sparesDb op = true) : idle op = true := by
  cases op with
  | statement s => cases h
  | _ => rfl

abbrev Exchanges (key : HostKey) {alpha : Type} (p : Prog alpha) : Prop :=
  Program.Uses (fun op => exchangeCall key op = true) p

abbrev Polls (key : HostKey) {alpha : Type} (p : Prog alpha) : Prop :=
  Program.Uses (fun op => pollCall key op = true) p

theorem exchanges_askOr (hnext : forall a, Exchanges key (next a)) :
    Exchanges key (askOr q failed next) :=
  uses_askOr (P := fun op => exchangeCall key op = true) rfl hnext

theorem pays_perform {op : Op} {f : op.Res -> Prog beta} (hop : idle op = true)
    (h : Clear K m) (hf : forall a m, Clear K m -> Pays Ok K (f a) m) :
    Pays Ok K (Program.perform op >>= f) m :=
  pays_idle hop h hf

/-!
# The exchange of facts hashes
-/

section Facts

open Facts

theorem exchanges_storeRounds (tenantId : Int) (hostId source hash json : String)
    (collectedAt : Option String) (rounds : Nat) :
    Exchanges (tenantId, hostId)
      (storeRounds deps tenantId hostId source hash json collectedAt rounds) := by
  induction rounds with
  | zero => trivial
  | succ rounds ih =>
      apply exchanges_askOr
      intro previous
      simp only
      split
      · trivial
      · split
        · trivial
        · apply uses_executeOr (P := fun op => exchangeCall (tenantId, hostId) op = true)
          · exact decide_eq_true rfl
          · intro outcome
            cases outcome with
            | stored => exact ⟨rfl, fun _ => ⟨rfl, fun _ => trivial⟩⟩
            | unchanged => trivial
            | conflict => exact ih
            | noHost => trivial

theorem pays_storeRounds (tenantId : Int) (hostId source hash json : String)
    (collectedAt : Option String) (rounds : Nat) {m : Course} (h : Clear K m) :
    Pays Ok K (storeRounds deps tenantId hostId source hash json collectedAt rounds) m := by
  induction rounds generalizing m with
  | zero => exact h
  | succ rounds ih =>
      apply pays_askOr h
      intro previous m hm
      simp only
      split
      · exact hm
      · split
        · exact hm
        · apply pays_executeOr hm
          intro outcome m' howes
          have hclear : outcome ≠ ReplaceOutcome.stored -> Clear K m' :=
            fun hne => owesOnly_mono howes (fun _ hkey => hne hkey.1)
          cases outcome with
          | stored =>
              apply pays_invalidateHost (owesOnly_mono howes (fun _ hkey => hkey.2))
              intro m hm
              exact pays_idle rfl hm (fun _ m hm => pays_done _ hm)
          | unchanged => exact hclear (by simp)
          | conflict => exact ih (hclear (by simp))
          | noHost => exact hclear (by simp)

theorem exchanges_clearWhenDue (tenantId : Int) (hostId reported : String)
    (hashes : FactsHashes) (now : Int) :
    Exchanges (tenantId, hostId) (clearWhenDue deps tenantId hostId reported hashes now) := by
  unfold clearWhenDue
  split
  · trivial
  · trivial
  · apply Program.uses_bind (exchanges_storeRounds tenantId hostId _ _ _ _ _)
    intro result
    split <;> trivial

theorem pays_clearWhenDue (tenantId : Int) (hostId reported : String) (hashes : FactsHashes)
    (now : Int) (h : Clear K m) :
    Pays Ok K (clearWhenDue deps tenantId hostId reported hashes now) m := by
  unfold clearWhenDue
  split
  · exact h
  · exact h
  · apply pays_bind (pays_storeRounds _ _ _ _ _ _ _ h)
    intro result m hm
    split <;> exact hm

theorem exchanges_advertise (tenantId : Int) (hostId : String) (reported : Option String) :
    Exchanges (tenantId, hostId) (advertise deps tenantId hostId reported) := by
  unfold advertise
  split
  · have hforget : Exchanges (tenantId, hostId) (forgetReported tenantId hostId) := by
      apply exchanges_askOr
      intro hashes
      split
      · exact ⟨decide_eq_true rfl, fun _ => trivial⟩
      · trivial
    exact Program.uses_bind hforget (fun _ => trivial)
  · rename_i said _
    apply exchanges_askOr
    intro found
    cases found with
    | none => trivial
    | some hashes =>
        have hrecord : Exchanges (tenantId, hostId)
            (recordReported tenantId hostId said hashes) := by
          unfold recordReported
          split
          · exact ⟨decide_eq_true rfl, fun _ => trivial⟩
          · trivial
        apply Program.uses_bind hrecord
        intro _
        apply uses_performThen (P := fun op => exchangeCall (tenantId, hostId) op = true) rfl
        intro now
        exact Program.uses_bind (exchanges_clearWhenDue _ _ _ _ _) (fun _ => trivial)

theorem pays_advertise (tenantId : Int) (hostId : String) (reported : Option String)
    (h : Clear K m) : Pays Ok K (advertise deps tenantId hostId reported) m := by
  unfold advertise
  split
  · have hforget : Pays Ok K (forgetReported tenantId hostId) m := by
      apply pays_askOr h
      intro hashes m hm
      split
      · exact pays_idle rfl hm (fun _ m hm => pays_done _ hm)
      · exact pays_done _ hm
    apply pays_bind hforget
    intro _ m hm
    exact pays_done _ hm
  · rename_i said _
    apply pays_askOr h
    intro found m hm
    cases found with
    | none => exact hm
    | some hashes =>
        have hrecord : Pays Ok K (recordReported tenantId hostId said hashes) m := by
          unfold recordReported
          split
          · exact pays_idle rfl hm (fun _ m hm => pays_done _ hm)
          · exact pays_done _ hm
        apply pays_bind hrecord
        intro _ m hm
        apply pays_perform rfl hm
        intro now m hm
        apply pays_bind (pays_clearWhenDue _ _ _ _ _ hm)
        intro _ m hm
        exact pays_done _ hm

end Facts

/-!
# Computing
-/

theorem reads_askOr (hnext : forall a, Program.Uses (fun op => op.reads = true) (next a)) :
    Program.Uses (fun op => op.reads = true) (askOr q failed next) :=
  uses_askOr (P := fun op => op.reads = true) rfl hnext

theorem reads_loadForHost (tenantId : Int) (hostId : String) (sources : List String) :
    Program.Uses (fun op => op.reads = true) (loadForHost deps tenantId hostId sources) := by
  induction sources with
  | nil => trivial
  | cons source rest ih =>
      apply reads_askOr
      intro stored
      apply Program.uses_bind ih
      intro facts
      cases facts with
      | error e => trivial
      | ok facts => trivial

theorem reads_computeUncached (tenantId : Int) (hostId : String) :
    Program.Uses (fun op => op.reads = true) (computeUncached deps tenantId hostId) := by
  apply reads_askOr
  intro tags
  apply reads_askOr
  intro groups
  apply Program.uses_bind (reads_loadForHost tenantId hostId _)
  intro facts
  cases facts with
  | error e => trivial
  | ok facts =>
      have hrest : forall groupBundles : List (BundleRow × Int),
          Program.Uses (fun op => op.reads = true)
            (askOr (Query.hostOverride tenantId hostId) (Except.error ComputeError.database)
              fun stored => Program.done ((mergedConfig deps tenantId hostId stored).map
                fun merged => desiredStateOf deps merged groupBundles)) :=
        fun _ => reads_askOr (fun _ => trivial)
      simp only
      unfold bundlesForGroups
      split
      · exact hrest []
      · exact reads_askOr hrest

theorem plain_of_reads {op : Op} (hop : op.reads = true) : plain op = true := by
  cases op with
  | query q => rfl
  | cacheTicket key => rfl
  | storeGet tenantId id => rfl
  | nowUnix => rfl
  | _ => cases hop

theorem sparesDb_of_reads {op : Op} (hop : op.reads = true) : sparesDb op = true := by
  cases op with
  | statement s => cases hop
  | _ => rfl

theorem plain_computeUncached (tenantId : Int) (hostId : String) :
    Plain (computeUncached deps tenantId hostId) :=
  Program.uses_mono (fun _ => plain_of_reads) (reads_computeUncached tenantId hostId)

theorem sparesDb_computeUncached (tenantId : Int) (hostId : String) :
    SparesDb (computeUncached deps tenantId hostId) :=
  Program.uses_mono (fun _ => sparesDb_of_reads) (reads_computeUncached tenantId hostId)

theorem sparesDb_computeThroughCache (tenantId : Int) (hostId : String) (version : Int) :
    SparesDb (computeThroughCache deps tenantId hostId version) := by
  refine ⟨rfl, fun cached => ?_⟩
  cases cached with
  | some state => trivial
  | none =>
      refine ⟨rfl, fun ticket => ?_⟩
      apply Program.uses_bind (sparesDb_computeUncached tenantId hostId)
      intro computed
      cases computed with
      | error e => trivial
      | ok state => exact ⟨rfl, fun _ => trivial⟩

theorem sparesDb_computeDesiredState (tenantId : Int) (hostId : String) :
    SparesDb (computeDesiredState deps tenantId hostId) := by
  apply uses_askOr (P := fun op => sparesDb op = true) rfl
  intro tenant
  cases tenant with
  | none => trivial
  | some t => exact sparesDb_computeThroughCache tenantId hostId t.configVersion

theorem sparesDb_computeForPoll (ctx : PeerHostContext) (version : Option Int) :
    SparesDb (computeForPoll deps ctx version) := by
  cases version with
  | none => exact sparesDb_computeUncached ctx.tenantId ctx.hostId
  | some v => exact sparesDb_computeThroughCache ctx.tenantId ctx.hostId v

theorem behind_of_read {tenantId : Int} {t : Tenant} {y z : World × Ledger}
    (h : TenantRepo.get tenantId y.1.db = some t) (hyz : Progress y z) (V : Int)
    (hV : z.1.db.configVersion tenantId = some V) : t.configVersion ≤ V := by
  rcases hyz.versions tenantId V hV with ⟨u, hu, hle⟩
  unfold Db.configVersion at hu
  rw [h, Option.map_some, Option.some.injEq] at hu
  rw [hu]
  exact hle

/-- A query, and what it found in some world between then and now. -/
theorem obeys_askOr
    (hnext : forall (now : Int) y z, Progress y z ->
      Obeys deps i request (next (q.eval now y.1.db)) z) :
    Obeys deps i request (askOr q failed next) x := by
  intro y _ _ a v houtcome _
  refine ⟨guar_plain rfl y, ?_⟩
  have hcall := @progress_call deps i request _ y.1 v y.2 a rfl houtcome
  rcases outcome_cases houtcome with hok | hfail
  · rw [hok.1]
    exact hnext y.1.now y _ hcall
  · have hr : a = Except.error DbError.unavailable := (Option.some.inj hfail.1).symm
    rw [hr]
    trivial

theorem obeys_computeDesiredState (key : HostKey) :
    Obeys deps i request (computeDesiredState deps key.1 key.2) x := by
  apply obeys_askOr
  intro now y z hyz
  simp only [Query.eval]
  cases htenant : TenantRepo.get key.1 y.1.db with
  | none => trivial
  | some t => exact obeys_computeThroughCache (behind_of_read htenant hyz)

/-!
# Polls
-/

theorem obeys_first {alpha : Type} {p : Prog alpha} {f : alpha -> Prog beta} (hp : Plain p)
    (hf : forall a y, Progress x y -> Obeys deps i request (f a) y) :
    Obeys deps i request (p >>= f) x := by
  induction p generalizing x with
  | done a => exact hf a x (progress_refl x)
  | call op next ih =>
      apply obeys_call hp.1
      intro a y hxy
      exact ih a (hp.2 a) (fun b z hyz => hf b z (progress_trans hxy hyz))

theorem obeys_computeForPoll (ctx : PeerHostContext) {version : Option Int}
    (hbehind : forall v V, version = some v ->
      x.1.db.configVersion ctx.tenantId = some V -> v ≤ V) :
    Obeys deps i request (computeForPoll deps ctx version) x := by
  cases version with
  | none => exact obeys_plain (plain_computeUncached ctx.tenantId ctx.hostId) x
  | some v =>
      exact @obeys_computeThroughCache deps i request (ctx.tenantId, ctx.hostId) v x
        (fun V hV => hbehind v V rfl hV)

theorem obeys_desiredState (ctx : PeerHostContext) (q : DesiredStateQuery) :
    Obeys deps i request (desiredState deps ctx q) x := by
  intro y _ _ tenant v houtcome _
  refine ⟨guar_plain rfl y, ?_⟩
  have hcall := @progress_call deps i request _ y.1 v y.2 tenant rfl houtcome
  have hversion : forall u : World × Ledger, Progress y u -> forall n V,
      (pollTenant deps tenant).2 = some n -> u.1.db.configVersion ctx.tenantId = some V ->
        n ≤ V := by
    intro u hyu n V hn hV
    rcases outcome_cases houtcome with hok | hfail
    · have hanswer : tenant = Except.ok (TenantRepo.get ctx.tenantId y.1.db) := hok.1
      rw [hanswer] at hn
      cases htenant : TenantRepo.get ctx.tenantId y.1.db with
      | none =>
          rw [htenant] at hn
          cases hn
      | some t =>
          rw [htenant] at hn
          cases hn
          exact behind_of_read htenant hyu V hV
    · have hanswer : tenant = Except.error DbError.unavailable := (Option.some.inj hfail.1).symm
      rw [hanswer] at hn
      cases hn
  have hseen : Plain (executeLogged (Statement.touchLastSeenIfStale ctx.tenantId ctx.hostId
      lastSeenRefreshSecs)) := ⟨rfl, fun _ => trivial⟩
  apply obeys_first hseen
  intro _ z hz
  have hadvertise : Plain (Facts.advertise deps ctx.tenantId ctx.hostId q.factsHash) :=
    Program.uses_mono (fun _ => plain_of_exchangeCall)
      (exchanges_advertise ctx.tenantId ctx.hostId q.factsHash)
  apply obeys_first hadvertise
  intro header u hu
  have hlater : Progress y u := progress_trans hcall (progress_trans hz hu)
  apply Contract.obeys_bind
  · exact obeys_computeForPoll ctx (fun n V => hversion u hlater n V)
  · intro computed _
    cases computed with
    | error e => trivial
    | ok state => trivial

theorem obeys_download (ctx : PeerHostContext) (bundleId : String) :
    Obeys deps i request (download deps ctx bundleId) x := by
  apply Contract.obeys_bind (obeys_computeDesiredState (ctx.tenantId, ctx.hostId))
  intro computed y
  cases computed with
  | error e => trivial
  | ok state =>
      simp only
      split
      · trivial
      · apply obeys_call rfl
        intro stored z _
        cases stored with
        | error e => trivial
        | ok bytes => trivial

theorem plain_retireIfSuperseded (ctx : PeerHostContext) (standing : CertStanding) :
    Plain (retireIfSuperseded ctx standing) := by
  unfold retireIfSuperseded
  split
  · exact ⟨rfl, fun _ => trivial⟩
  · trivial

theorem obeys_tierLayer {next : Prog Response} (hnext : forall y, Obeys deps i request next y) :
    Obeys deps i request (tierLayer ctx admitted next) x := by
  apply obeys_askOr
  intro now y z _
  split
  · trivial
  · apply obeys_first (plain_retireIfSuperseded ctx _)
    intro _ u _
    apply obeys_askOr
    intro now' y' u' _
    simp only [Query.eval]
    cases TenantRepo.get ctx.tenantId y'.1.db with
    | none => trivial
    | some tenant =>
        simp only
        split
        · trivial
        · exact hnext u'

/-!
## What a poll calls, and what it leaves owed
-/

theorem polls_desiredState (ctx : PeerHostContext) (q : DesiredStateQuery) :
    Polls (ctx.tenantId, ctx.hostId) (desiredState deps ctx q) := by
  refine ⟨rfl, fun tenant => ?_⟩
  have hseen : Polls (ctx.tenantId, ctx.hostId) (executeLogged
      (Statement.touchLastSeenIfStale ctx.tenantId ctx.hostId lastSeenRefreshSecs)) :=
    ⟨decide_eq_true rfl, fun _ => trivial⟩
  have hadvertise : Polls (ctx.tenantId, ctx.hostId)
      (Facts.advertise deps ctx.tenantId ctx.hostId q.factsHash) :=
    Program.uses_mono (fun _ => pollCall_of_exchangeCall)
      (exchanges_advertise ctx.tenantId ctx.hostId q.factsHash)
  apply Program.uses_bind hseen
  intro _
  apply Program.uses_bind hadvertise
  intro header
  apply Program.uses_bind
  · exact Program.uses_mono (fun _ => pollCall_of_sparesDb) (sparesDb_computeForPoll ctx _)
  · intro computed
    cases computed with
    | error e => trivial
    | ok state => trivial

theorem polls_download (ctx : PeerHostContext) (bundleId : String) :
    Polls (ctx.tenantId, ctx.hostId) (download deps ctx bundleId) := by
  apply Program.uses_bind
  · exact Program.uses_mono (fun _ => pollCall_of_sparesDb)
      (sparesDb_computeDesiredState ctx.tenantId ctx.hostId)
  · intro computed
    cases computed with
    | error e => trivial
    | ok state =>
        simp only
        split
        · trivial
        · refine ⟨rfl, fun stored => ?_⟩
          cases stored with
          | error e => trivial
          | ok bytes => trivial

theorem polls_tierLayer {next : Prog Response} (hnext : Polls (ctx.tenantId, ctx.hostId) next) :
    Polls (ctx.tenantId, ctx.hostId) (tierLayer ctx admitted next) := by
  apply uses_askOr (P := fun op => pollCall (ctx.tenantId, ctx.hostId) op = true) rfl
  intro standing
  split
  · trivial
  · have hretire : Polls (ctx.tenantId, ctx.hostId) (retireIfSuperseded ctx standing) := by
      unfold retireIfSuperseded
      split
      · exact ⟨decide_eq_true rfl, fun _ => trivial⟩
      · trivial
    apply Program.uses_bind hretire
    intro _
    apply uses_askOr (P := fun op => pollCall (ctx.tenantId, ctx.hostId) op = true) rfl
    intro tenant
    cases tenant with
    | none => trivial
    | some tenant =>
        simp only
        split
        · trivial
        · exact hnext

theorem pays_sparesDb {alpha : Type} {p : Prog alpha} (hp : SparesDb p) (h : Clear K m) :
    Pays Ok K p m :=
  pays_uses (Program.uses_mono (fun _ => idle_of_sparesDb) hp) h

theorem pays_desiredState (ctx : PeerHostContext) (q : DesiredStateQuery) (h : Clear K m) :
    Pays Ok K (desiredState deps ctx q) m := by
  apply pays_perform rfl h
  intro tenant m hm
  have hseen : Pays Ok K (executeLogged (Statement.touchLastSeenIfStale ctx.tenantId ctx.hostId
      lastSeenRefreshSecs)) m := pays_idle rfl hm (fun _ m hm => pays_done _ hm)
  apply pays_bind hseen
  intro _ m hm
  apply pays_bind (pays_advertise ctx.tenantId ctx.hostId q.factsHash hm)
  intro header m hm
  apply pays_bind (pays_sparesDb (sparesDb_computeForPoll ctx _) hm)
  intro computed m hm
  cases computed with
  | error e => exact pays_done _ hm
  | ok state => exact pays_done _ hm

theorem pays_download (ctx : PeerHostContext) (bundleId : String) (h : Clear K m) :
    Pays Ok K (download deps ctx bundleId) m := by
  apply pays_bind (pays_sparesDb (sparesDb_computeDesiredState ctx.tenantId ctx.hostId) h)
  intro computed m hm
  cases computed with
  | error e => exact pays_done _ hm
  | ok state =>
      simp only
      split
      · exact pays_done _ hm
      · apply pays_perform rfl hm
        intro stored m hm
        cases stored with
        | error e => exact pays_done _ hm
        | ok bytes => exact pays_done _ hm

theorem pays_tierLayer {next : Prog Response} (h : Clear K m)
    (hnext : forall m, Clear K m -> Pays Ok K next m) :
    Pays Ok K (tierLayer ctx admitted next) m := by
  apply pays_askOr h
  intro standing m hm
  split
  · exact pays_done _ hm
  · have hretire : Pays Ok K (retireIfSuperseded ctx standing) m := by
      unfold retireIfSuperseded
      split
      · exact pays_idle rfl hm (fun _ m hm => pays_done _ hm)
      · exact pays_done _ hm
    apply pays_bind hretire
    intro _ m hm
    apply pays_askOr hm
    intro tenant m hm
    cases tenant with
    | none => exact pays_done _ hm
    | some tenant =>
        simp only
        split
        · exact pays_done _ hm
        · exact hnext m hm

end Coherence
end Agent
end FleetServer
