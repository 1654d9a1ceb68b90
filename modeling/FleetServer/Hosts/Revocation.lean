import FleetServer.Concurrency.Trace
import FleetServer.Server.Calls
import FleetServer.Server.Tenancy

/-!
# What a revocation leaves behind

Revoking a host's certificates sends its row back to waiting.  As long as
nothing enrolls the host again, the only way to a live certificate is a renewal
that passed the standing check before the revocation and records afterwards: one
that comes to its standing check later is refused.
-/

namespace FleetServer
namespace Hosts

open FleetServer.Core
open Storage
open Table
open Server
open Concurrency

variable {expires now tenantId' : Int} {hostId' nonceHash : String} {op : Op} {w : World}

/-!
# A withdrawn host
-/

structure Withdrawn (tenantId : Int) (hostId : String) (db : Db) : Prop where
  waiting : forall l, l ∈ db.hosts.map HostRow.lifecycle -> l.tenantId = tenantId ->
    l.id = hostId -> l.enrolledAt = none
  revoked : forall c, c ∈ db.hostCerts -> c.tenantId = tenantId -> c.hostId = hostId ->
    c.revokedAt.isSome = true

theorem ofHost_iff {tenantId rowTenant : Int} {hostId rowHost : String} :
    ofHost tenantId hostId rowTenant rowHost = true <->
      rowTenant = tenantId ∧ rowHost = hostId := by
  simp [ofHost]

theorem standing_of_withdrawn {tenantId : Int} {hostId : String} {db : Db}
    (hdb : Withdrawn tenantId hostId db) (serial : String) (now : Int) :
    (HostCertRepo.standing tenantId hostId serial now db).active = false := by
  have hlive : db.hostCerts.filter (HostCertRepo.isLive tenantId hostId now) = [] := by
    rw [List.filter_eq_nil_iff]
    intro c hc hlive
    unfold HostCertRepo.isLive at hlive
    simp only [Bool.and_eq_true] at hlive
    rcases ofHost_iff.mp hlive.1.1 with ⟨htenant, hhost⟩
    have hrevoked := hdb.revoked c hc htenant hhost
    rw [Option.isNone_iff_eq_none.mp hlive.1.2] at hrevoked
    cases hrevoked
  unfold HostCertRepo.standing
  rw [hlive]
  rfl

theorem withdrawn_of_same {tenantId : Int} {hostId : String} {db db' : Db}
    (hdb : Withdrawn tenantId hostId db) (hhosts : db.Same Part.hosts db')
    (hcerts : db.Same Part.certs db') : Withdrawn tenantId hostId db' := by
  constructor
  · intro l hl
    rw [show db'.hosts.map HostRow.lifecycle = db.hosts.map HostRow.lifecycle from hhosts] at hl
    exact hdb.waiting l hl
  · intro c hc
    rw [show db'.hostCerts = db.hostCerts from hcerts] at hc
    exact hdb.revoked c hc

/-!
# What each statement does to a withdrawn host
-/

variable {tenantId : Int} {hostId : String} {db db' : Db}

theorem withdrawn_createPending {id : String} {host : Host} (hdb : Withdrawn tenantId hostId db)
    (h : HostRepo.createPending id tenantId' nonceHash expires now db =
      Except.ok (host, db')) : Withdrawn tenantId hostId db' := by
  unfold HostRepo.createPending Tx.guarded at h
  split at h
  · cases h
    refine ⟨fun l hl htenant hid => ?_, hdb.revoked⟩
    rw [List.map_append, List.mem_append] at hl
    rcases hl with hl | hl
    · exact hdb.waiting l hl htenant hid
    · rw [List.mem_singleton.mp hl]
      rfl
  · cases h

theorem withdrawn_insertCert {row : HostCertRow} (hdb : Withdrawn tenantId hostId db)
    (hrow : ¬ (row.tenantId = tenantId ∧ row.hostId = hostId))
    (h : insertCert row db = Except.ok ((), db')) : Withdrawn tenantId hostId db' := by
  unfold insertCert Tx.guarded at h
  split at h
  · cases h
    refine ⟨hdb.waiting, fun c hc htenant hhost => ?_⟩
    rcases List.mem_append.mp hc with hc | hc
    · exact hdb.revoked c hc htenant hhost
    · rw [List.mem_singleton.mp hc] at htenant hhost
      exact absurd ⟨htenant, hhost⟩ hrow
  · cases h

theorem withdrawn_enroll {hostname os : Option String} {cert : EnrolledCert} {answer : Bool}
    (hdb : Withdrawn tenantId hostId db)
    (hother : answer = true -> ¬ (tenantId' = tenantId ∧ hostId' = hostId))
    (h : HostRepo.enroll tenantId' hostId' nonceHash hostname os cert now db =
      Except.ok (answer, db')) : Withdrawn tenantId hostId db' := by
  unfold HostRepo.enroll at h
  simp only at h
  split at h
  · cases h
    exact hdb
  · split at h
    · cases h
    · rename_i db'' hinsert
      cases h
      refine withdrawn_insertCert ?_ (hother rfl) hinsert
      refine ⟨fun l hl htenant hid => ?_, hdb.revoked⟩
      rcases List.mem_map.mp hl with ⟨row', hrow', rfl⟩
      rcases of_mem_updateWhere hrow' with ⟨row, hrow, ⟨_, rfl⟩ | ⟨hwaits, rfl⟩⟩
      · exact hdb.waiting _ (List.mem_map_of_mem hrow) htenant hid
      · unfold HostRepo.waitsFor at hwaits
        simp only [Bool.and_eq_true] at hwaits
        rcases isHost_iff.mp hwaits.1.1.1 with ⟨htenant', hid'⟩
        exact absurd ⟨htenant'.symm.trans htenant, hid'.symm.trans hid⟩ (hother rfl)

theorem withdrawn_deleteHost {found : Bool} (hdb : Withdrawn tenantId hostId db)
    (h : HostRepo.delete tenantId' hostId' db = Except.ok (found, db')) :
    Withdrawn tenantId hostId db' := by
  unfold HostRepo.delete at h
  simp only at h
  split at h
  · cases h
  · cases h
    constructor
    · intro l hl
      rcases List.mem_map.mp hl with ⟨row, hrow, rfl⟩
      exact hdb.waiting _ (List.mem_map_of_mem (mem_of_mem_deleteWhere hrow))
    · exact fun c hc => hdb.revoked c (mem_of_mem_deleteWhere hc)

theorem withdrawn_revoke {revoked : Option Nat} (hdb : Withdrawn tenantId hostId db)
    (h : HostRepo.revokeCertsAndResetToPending tenantId' hostId' nonceHash expires now db =
      Except.ok (revoked, db')) : Withdrawn tenantId hostId db' := by
  unfold HostRepo.revokeCertsAndResetToPending Tx.total at h
  simp only at h
  split at h
  · cases h
    constructor
    · intro l hl htenant hid
      rcases List.mem_map.mp hl with ⟨row', hrow', rfl⟩
      rcases of_mem_updateWhere hrow' with ⟨row, hrow, ⟨_, rfl⟩ | ⟨_, rfl⟩⟩
      · exact hdb.waiting _ (List.mem_map_of_mem hrow) htenant hid
      · rfl
    · intro c hc htenant hhost
      rcases of_mem_updateWhere hc with ⟨c', hc', ⟨_, rfl⟩ | ⟨_, rfl⟩⟩
      · exact hdb.revoked c hc' htenant hhost
      · rfl
  · cases h
    exact hdb

theorem mem_retireRows {serial : String} {rows : List HostCertRow} {c : HostCertRow}
    (hc : c ∈ HostCertRepo.retireRows tenantId' hostId' serial now rows) :
    exists c', c' ∈ rows ∧ (c = c' ∨ c = { c' with revokedAt := some now }) := by
  induction rows with
  | nil => cases hc
  | cons r rest ih =>
      unfold HostCertRepo.retireRows at hc
      split at hc
      · exact ⟨c, hc, Or.inl rfl⟩
      · rcases List.mem_cons.mp hc with rfl | hc
        · refine ⟨r, List.mem_cons_self, ?_⟩
          split
          · exact Or.inr rfl
          · exact Or.inl rfl
        · rcases ih hc with ⟨c', hc', h⟩
          exact ⟨c', List.mem_cons_of_mem r hc', h⟩

theorem withdrawn_retireSuperseded {serial : String} {n : Nat} (hdb : Withdrawn tenantId hostId db)
    (h : HostCertRepo.retireSuperseded tenantId' hostId' serial now db =
      Except.ok (n, db')) : Withdrawn tenantId hostId db' := by
  unfold HostCertRepo.retireSuperseded Tx.total at h
  simp only [Except.ok.injEq] at h
  split at h
  · cases h
    refine ⟨hdb.waiting, fun c hc htenant hhost => ?_⟩
    rcases mem_retireRows hc with ⟨c', hc', rfl | rfl⟩
    · exact hdb.revoked c hc' htenant hhost
    · rfl
  · cases h
    exact hdb

theorem withdrawn_after_revoke {n : Nat}
    (h : HostRepo.revokeCertsAndResetToPending tenantId hostId nonceHash expires now db =
      Except.ok (some n, db')) : Withdrawn tenantId hostId db' := by
  unfold HostRepo.revokeCertsAndResetToPending Tx.total at h
  simp only at h
  split at h
  · cases h
    constructor
    · intro l hl htenant hid
      rcases List.mem_map.mp hl with ⟨row', hrow', rfl⟩
      rcases of_mem_updateWhere hrow' with ⟨row, hrow, ⟨hp, rfl⟩ | ⟨_, rfl⟩⟩
      · rw [isHost_iff.mpr ⟨htenant, hid⟩] at hp
        cases hp
      · rfl
    · intro c hc htenant hhost
      rcases of_mem_updateWhere hc with ⟨c', hc', ⟨hp, rfl⟩ | ⟨_, rfl⟩⟩
      · rw [ofHost_iff.mpr ⟨htenant, hhost⟩, Bool.true_and] at hp
        simpa using hp
      · rfl
  · cases h

/-!
# Calls and steps
-/

/-- A call keeps a host withdrawn, unless it records a certificate of the host,
whose row is still there, or enrolls it. -/
theorem withdrawn_exec (hw : Withdrawn tenantId hostId w.db)
    (hrecord : forall cert, op = Op.statement (Statement.recordCert tenantId hostId cert) ->
      w.db.hasHost hostId = false) (henroll : forall nonceHash hostname os cert db,
      op = Op.statement (Statement.enroll tenantId hostId nonceHash hostname os cert) ->
        HostRepo.enroll tenantId hostId nonceHash hostname os cert w.now w.db ≠
          Except.ok (true, db)) :
    Withdrawn tenantId hostId (exec op w).2.db := by
  by_cases hwrites : Part.hosts ∈ op.writes ∨ Part.certs ∈ op.writes
  · cases op with
    | statement s =>
        change Withdrawn tenantId hostId (s.exec w).2.db
        rcases statement_exec s w with ⟨e, _, hexec⟩ | ⟨answer, db, htx, hexec⟩
        · rw [hexec]
          exact hw
        · rw [hexec]
          cases s with
          | createPending id tenantId' nonceHash expires => exact withdrawn_createPending hw htx
          | enroll tenantId' hostId' nonceHash hostname os cert =>
              refine withdrawn_enroll hw (fun hanswer hsame => ?_) htx
              rcases hsame with ⟨rfl, rfl⟩
              cases hanswer
              exact henroll nonceHash hostname os cert db rfl htx
          | deleteHost tenantId' hostId' => exact withdrawn_deleteHost hw htx
          | revokeCertsAndResetToPending tenantId' hostId' nonceHash expires =>
              exact withdrawn_revoke hw htx
          | recordCert tenantId' hostId' cert =>
              refine withdrawn_insertCert hw (fun hsame => ?_) htx
              rcases hsame with ⟨rfl, rfl⟩
              have hhost : w.db.hasHost hostId' = true := by
                by_contra hno
                have hrefused : HostCertRepo.record tenantId' hostId' cert w.db =
                    Except.error DbError.constraint := by
                  unfold HostCertRepo.record insertCert Tx.guarded certRow
                  simp [hno]
                exact absurd (hrefused.symm.trans htx) (by simp)
              have hmissing : w.db.hasHost hostId' = false := hrecord cert rfl
              rw [hmissing] at hhost
              cases hhost
          | retireSuperseded tenantId' hostId' serial =>
              exact withdrawn_retireSuperseded hw htx
          | _ => simp [Op.writes, Statement.writes] at hwrites
    | _ => simp [Op.writes] at hwrites
  · rw [not_or] at hwrites
    exact withdrawn_of_same hw (exec_same hwrites.1 w) (exec_same hwrites.2 w)

theorem withdrawn_exec_revoke (nonceHash : String) (expires : Int)
    (hrow : w.db.hosts.any (isHost tenantId hostId) = true) :
    Withdrawn tenantId hostId (exec (Op.statement
      (Statement.revokeCertsAndResetToPending tenantId hostId nonceHash expires)) w).2.db := by
  let s := Statement.revokeCertsAndResetToPending tenantId hostId nonceHash expires
  change Withdrawn tenantId hostId (s.exec w).2.db
  rcases statement_exec s w with ⟨e, htx, _⟩ | ⟨answer, db, htx, hexec⟩
  · cases htx
  · rw [hexec]
    cases answer with
    | some n => exact withdrawn_after_revoke htx
    | none =>
        have hanswer := congrArg Prod.fst (Except.ok.inj htx)
        simp [hrow] at hanswer

variable {deps : Deps}

def revokes (tenantId : Int) (hostId : String) (p : Pool (service deps))
    (c : Choice (service deps)) : Bool :=
  match p.call? c with
  | some (Op.statement (Statement.revokeCertsAndResetToPending t h _ _)) =>
      t == tenantId && h == hostId && p.world.db.hosts.any (isHost t h)
  | _ => false

def enrolls (tenantId : Int) (hostId : String) (p : Pool (service deps))
    (c : Choice (service deps)) : Bool :=
  match p.call? c with
  | some (Op.statement (Statement.enroll t h nonceHash hostname os cert)) =>
      t == tenantId && h == hostId &&
        (match HostRepo.enroll t h nonceHash hostname os cert p.world.now p.world.db with
          | Except.ok (true, _) => true
          | _ => false)
  | _ => false

theorem withdrawn_of_revokes {p q : Pool (service deps)} {c : Choice (service deps)}
    (hrevokes : revokes tenantId hostId p c = true) (hstep : p.step c = some q) :
    Withdrawn tenantId hostId q.world.db := by
  unfold revokes at hrevokes
  split at hrevokes
  · rename_i t h nonceHash expires hcall
    simp only [Bool.and_eq_true, beq_iff_eq] at hrevokes
    rcases hrevokes with ⟨⟨rfl, rfl⟩, hrow⟩
    rw [Pool.step_call hcall hstep]
    exact withdrawn_exec_revoke nonceHash expires hrow
  · cases hrevokes

/-!
# Which requests record certificates
-/

def recordsFor (tenantId : Int) (hostId : String) : Op -> Bool
  | Op.statement (Statement.recordCert t h _) => t == tenantId && h == hostId
  | _ => false

def checksFor (tenantId : Int) (hostId : String) : Op -> Bool
  | Op.query (Query.certStanding t h _) => t == tenantId && h == hostId
  | _ => false

def Unrecorded (tenantId : Int) (hostId : String) (op : Op) : Prop :=
  recordsFor tenantId hostId op = false

/-- What is known of the answers while the host is withdrawn: no certificate of
it is live. -/
def Inactive (tenantId : Int) (hostId : String) : (op : Op) -> op.Res -> Prop
  | Op.query (Query.certStanding t h _), r =>
      t = tenantId -> h = hostId -> forall standing, r = Except.ok standing ->
        standing.active = false
  | _, _ => True

theorem unrecorded_of_ordinary {alpha : Type} {p : Prog alpha} (h : Program.Uses Ordinary p) :
    Program.Uses (Unrecorded tenantId hostId) p := by
  apply Program.uses_mono _ h
  intro op hop
  cases op with
  | statement s =>
      cases s with
      | recordCert t h cert => exact hop.elim
      | _ => rfl
  | _ => rfl

theorem unrecorded_of_plain {alpha : Type} {t : Int} {p : Prog alpha}
    (h : Program.Uses (Plain t) p) : Program.Uses (Unrecorded tenantId hostId) p :=
  unrecorded_of_ordinary (ordinary_of_plain h)

section Requests

/-!
## Requests that record none
-/

theorem unrecorded_create (n : Nat) (who : AuthedUser) :
    Program.Uses (Unrecorded tenantId hostId) (create deps n who) := by
  unfold create
  split
  · trivial
  · refine uses_askOr rfl (fun tenant => ?_)
    cases tenant with
    | none => trivial
    | some tenant =>
        refine uses_askOr rfl (fun active => ?_)
        split
        · trivial
        · refine ⟨rfl, fun now => ?_⟩
          exact uses_executeOr rfl (fun _ => ⟨rfl, fun _ => trivial⟩)

/-!
## Renewals
-/

/-- A renewal records for the host whose certificate was checked, and has no
other checked. -/
theorem calls_renew (n : Nat) (ctx : PeerHostContext) (csrPem : String) :
    Program.Uses (fun op => checksFor tenantId hostId op = false ∧
        (recordsFor tenantId hostId op = true ->
          ctx.tenantId = tenantId ∧ ctx.hostId = hostId))
      (Agent.renew deps n ctx csrPem) := by
  have hnone : forall op : Op, checksFor tenantId hostId op = false ->
      recordsFor tenantId hostId op = false -> checksFor tenantId hostId op = false ∧
        (recordsFor tenantId hostId op = true ->
          ctx.tenantId = tenantId ∧ ctx.hostId = hostId) := by
    intro op hcheck hrecord
    refine ⟨hcheck, fun h => ?_⟩
    rw [hrecord] at h
    cases h
  apply uses_askOr (hnone _ rfl rfl)
  intro secrets
  cases secrets with
  | none => trivial
  | some secrets =>
      apply uses_guarded
      intro caKey
      refine ⟨hnone _ rfl rfl, fun now => ?_⟩
      simp only [Program.bind]
      split
      · trivial
      · apply uses_executeOr
        · refine ⟨rfl, fun h => ?_⟩
          simpa [recordsFor] using h
        · exact fun _ => trivial

theorem unrecorded_agentHandler (n : Nat) (ctx : PeerHostContext) (request : AgentRequest)
    (hother : ¬ (ctx.tenantId = tenantId ∧ ctx.hostId = hostId)) :
    Program.Uses (Unrecorded tenantId hostId) (agentHandler deps n ctx request) := by
  cases request with
  | heartbeat => exact unrecorded_of_plain plain_heartbeat
  | desiredState q => exact unrecorded_of_plain (plain_desiredState deps q)
  | stateReport body => exact unrecorded_of_ordinary (ordinary_stateReport ctx body)
  | renew csrPem =>
      apply Program.uses_mono _ (@calls_renew tenantId hostId deps n ctx csrPem)
      exact fun op hop => Bool.eq_false_iff.mpr (fun h => hother (hop.2 h))
  | download bundleId => exact unrecorded_of_plain (plain_download deps bundleId)
  | uploadFacts body => exact unrecorded_of_plain (plain_uploadFacts deps body)

/-- Until its certificate is checked, a request of the host has nothing checked
or recorded. -/
theorem givenFrom_agentHandler (n : Nat) (ctx : PeerHostContext) (request : AgentRequest) :
    Program.GivenFrom (fun op => checksFor tenantId hostId op = true)
      (Inactive tenantId hostId) (Unrecorded tenantId hostId)
      (agentHandler deps n ctx request) := by
  cases request with
  | heartbeat => exact Program.givenFrom_of_uses (unrecorded_of_plain plain_heartbeat)
  | desiredState q =>
      exact Program.givenFrom_of_uses (unrecorded_of_plain (plain_desiredState deps q))
  | stateReport body =>
      exact Program.givenFrom_of_uses (unrecorded_of_ordinary (ordinary_stateReport ctx body))
  | renew csrPem =>
      apply Program.givenFrom_of_none
      apply Program.uses_mono _ (@calls_renew tenantId hostId deps n ctx csrPem)
      exact fun op hop => by simp [hop.1]
  | download bundleId =>
      exact Program.givenFrom_of_uses (unrecorded_of_plain (plain_download deps bundleId))
  | uploadFacts body =>
      exact Program.givenFrom_of_uses (unrecorded_of_plain (plain_uploadFacts deps body))

theorem usesGiven_tierLayer (n : Nat) (ctx : PeerHostContext) (admitted : Bool)
    (request : AgentRequest) :
    Program.UsesGiven (Inactive tenantId hostId) (Unrecorded tenantId hostId)
      (Agent.tierLayer ctx admitted (agentHandler deps n ctx request)) := by
  refine ⟨rfl, fun r hr => ?_⟩
  cases r with
  | error e => trivial
  | ok standing =>
      simp only [onOk]
      split
      · trivial
      · rename_i hactive
        have hother : ¬ (ctx.tenantId = tenantId ∧ ctx.hostId = hostId) := by
          intro hsame
          have hinactive := hr hsame.1 hsame.2 standing rfl
          rw [hinactive] at hactive
          exact hactive rfl
        apply Program.usesGiven_of_uses
        apply Program.uses_bind
        · unfold Agent.retireIfSuperseded
          split
          · exact ⟨rfl, fun _ => trivial⟩
          · trivial
        · intro _
          refine uses_askOr rfl (fun tenant => ?_)
          cases tenant with
          | none => trivial
          | some tenant =>
              cases admitted with
              | false => trivial
              | true => exact unrecorded_agentHandler n ctx request hother

theorem givenFrom_tierLayer (n : Nat) (ctx : PeerHostContext) (admitted : Bool)
    (request : AgentRequest) :
    Program.GivenFrom (fun op => checksFor tenantId hostId op = true)
      (Inactive tenantId hostId) (Unrecorded tenantId hostId)
      (Agent.tierLayer ctx admitted (agentHandler deps n ctx request)) := by
  refine ⟨fun _ => usesGiven_tierLayer n ctx admitted request, fun r => ?_⟩
  cases r with
  | error e => trivial
  | ok standing =>
      simp only [onOk]
      split
      · trivial
      · apply Program.givenFrom_bind
        · unfold Agent.retireIfSuperseded
          split
          · refine ⟨?_, fun _ => trivial⟩
            simp [checksFor]
          · trivial
        · intro _
          refine ⟨fun h => absurd h Bool.false_ne_true, fun r => ?_⟩
          cases r with
          | error e => trivial
          | ok tenant =>
              cases tenant with
              | none => trivial
              | some tenant =>
                  cases admitted with
                  | false => trivial
                  | true => exact givenFrom_agentHandler n ctx request

/-!
## Every request
-/

theorem unrecorded_handler (n : Nat) (request : HttpRequest)
    (hoperator : forall ctx admitted agent, request ≠ HttpRequest.agent ctx admitted agent) :
    Program.Uses (Unrecorded tenantId hostId) (handler deps n request) := by
  cases request with
  | agent ctx admitted agent => exact absurd rfl (hoperator ctx admitted agent)
  | createHost who => exact unrecorded_create n who
  | _ =>
      apply unrecorded_of_ordinary
      apply ordinary_handler
      · exact hoperator
      · intro who h
        cases h

theorem usesGiven_program (n : Nat) (request : Request) :
    Program.UsesGiven (Inactive tenantId hostId) (Unrecorded tenantId hostId)
      (program deps n request) := by
  cases request with
  | reconcile t shown dir dryRun =>
      apply Program.usesGiven_of_uses
      refine Program.uses_bind ?_ (fun _ => trivial)
      exact unrecorded_of_ordinary (ordinary_reconcile t shown dir dryRun)
  | http request =>
      cases request with
      | agent ctx admitted agent =>
          exact Program.usesGiven_bind (usesGiven_tierLayer n ctx admitted agent)
            (Program.endsGiven_true _) (fun _ _ => trivial)
      | _ =>
          apply Program.usesGiven_of_uses
          apply uses_program_http
          apply unrecorded_handler
          intro ctx admitted agent h
          cases h

/-- From its standing check on, no request records a certificate of the host
while it is withdrawn. -/
theorem givenFrom_program (n : Nat) (request : Request) :
    Program.GivenFrom (fun op => checksFor tenantId hostId op = true)
      (Inactive tenantId hostId) (Unrecorded tenantId hostId) (program deps n request) := by
  cases request with
  | reconcile t shown dir dryRun =>
      apply Program.givenFrom_of_uses
      refine Program.uses_bind ?_ (fun _ => trivial)
      exact unrecorded_of_ordinary (ordinary_reconcile t shown dir dryRun)
  | http request =>
      cases request with
      | agent ctx admitted agent =>
          exact Program.givenFrom_then (givenFrom_tierLayer n ctx admitted agent)
      | _ =>
          apply Program.givenFrom_of_uses
          apply uses_program_http
          apply unrecorded_handler
          intro ctx admitted agent h
          cases h

end Requests

/-!
# Runs
-/

/-- The request is about to have a certificate of the host checked. -/
def awaitsStanding (tenantId : Int) (hostId : String) (t : Thread (service deps)) : Bool :=
  match t.rest with
  | Program.call op _ => checksFor tenantId hostId op
  | Program.done _ => false

/-- The request was started before `q`, and was not waiting for its standing check
there. -/
def pastStanding (tenantId : Int) (hostId : String) (q : Pool (service deps)) (i : Nat) : Bool :=
  match q.threads[i]? with
  | some t => !awaitsStanding tenantId hostId t
  | none => false

/-- A renewal that was past its standing check in `q` records its certificate, and
the host's row is still there. -/
def recordsOvertaken (tenantId : Int) (hostId : String) (q p : Pool (service deps)) :
    Choice (service deps) -> Bool
  | Choice.exec i =>
      pastStanding tenantId hostId q i &&
        (p.call? (Choice.exec i)).any (recordsFor tenantId hostId) && p.world.db.hasHost hostId
  | _ => false

/-- A request about to have the host's certificate checked records none while the
host is withdrawn. -/
theorem usesGiven_of_awaits {p : Pool (service deps)}
    (hrun : Pool.Run (fun _ _ => True) (Pool.init w) p) {i : Nat} {t : Thread (service deps)}
    (hget : p.threads[i]? = some t) (hawaits : awaitsStanding tenantId hostId t = true) :
    Program.UsesGiven (Inactive tenantId hostId) (Unrecorded tenantId hostId) t.rest := by
  have hgiven := (Pool.Run.started_after (I := fun _ => True)
    (G := fun _ _ _ rest => Program.GivenFrom (fun op => checksFor tenantId hostId op = true)
      (Inactive tenantId hostId) (Unrecorded tenantId hostId) rest)
    (fun r request _ _ _ => givenFrom_program r.threads.length request)
    (fun _ _ _ _ _ _ _ _ h => h) (fun _ _ _ _ _ a _ _ _ h _ => h.2 a)
    (fun _ _ _ _ _ _ _ _ => trivial) trivial hrun).2.2 i t (Nat.zero_le i) hget
  rcases t with ⟨request, rest⟩
  cases rest with
  | done a => cases hawaits
  | call op next => exact hgiven.1 hawaits

theorem inactive_exec (hw : Withdrawn tenantId hostId w.db) (op : Op) :
    Inactive tenantId hostId op (exec op w).1 := by
  cases op with
  | query q =>
      cases q with
      | certStanding t h serial =>
          intro ht hh standing heq
          cases heq
          rw [ht, hh]
          exact standing_of_withdrawn hw serial w.now
      | _ => trivial
  | _ => trivial

theorem inactive_fault {r : op.Res} (h : fault op = some r) :
    Inactive tenantId hostId op r := by
  cases op with
  | query q =>
      cases q with
      | certStanding t h serial =>
          cases h
          intro _ _ standing heq
          cases heq
      | _ => trivial
  | _ => trivial

theorem withdrawn_allowed {p q : Pool (service deps)} {i : Nat}
    (henrolls : enrolls tenantId hostId p (Choice.exec i) = false)
    (hrecords : recordsOvertaken tenantId hostId q p (Choice.exec i) = false)
    (hcall : p.call? (Choice.exec i) = some op)
    (huses : ¬ pastStanding tenantId hostId q i = true -> Unrecorded tenantId hostId op)
    (hw : Withdrawn tenantId hostId p.world.db) :
    Withdrawn tenantId hostId (exec op p.world).2.db := by
  apply withdrawn_exec hw
  · intro cert hop
    have hrecord : recordsFor tenantId hostId op = true := by
      rw [hop]
      simp [recordsFor]
    by_cases hpast : pastStanding tenantId hostId q i = true
    · simp only [recordsOvertaken, hpast, hcall] at hrecords
      simpa [hrecord] using hrecords
    · have hunrecorded : recordsFor tenantId hostId op = false := huses hpast
      rw [hunrecorded] at hrecord
      cases hrecord
  · intro nonceHash hostname os cert db hop henroll
    unfold enrolls at henrolls
    rw [hcall, hop] at henrolls
    simp [henroll] at henrolls

/-- From a revocation on, and as long as nothing enrolls the host again, no
certificate of the host is live, if no renewal that passed its standing check
before the revocation records its certificate after it. -/
theorem standing_inactive_after_revoke {w : World} (p q r : Pool (service deps))
    (c : Choice (service deps)) (hreached : Pool.Run (fun _ _ => True) (Pool.init w) p)
    (hrevokes : revokes tenantId hostId p c = true) (hstep : p.step c = some q)
    (hrun : Pool.Run (fun p c => enrolls tenantId hostId p c = false ∧
      recordsOvertaken tenantId hostId q p c = false) q r) (serial : String) :
    (HostCertRepo.standing tenantId hostId serial r.world.now r.world.db).active = false := by
  have hq : Pool.Run (fun _ _ => True) (Pool.init w) q := hreached.tail trivial hstep
  have hstart : Pool.Reliant (fun i => pastStanding tenantId hostId q i = true)
      (fun w : World => Withdrawn tenantId hostId w.db) (Inactive tenantId hostId)
      (Unrecorded tenantId hostId) q := by
    constructor
    · exact withdrawn_of_revokes hrevokes hstep
    · intro i t hget hpast
      apply usesGiven_of_awaits hq hget
      unfold pastStanding at hpast
      rw [hget] at hpast
      simpa using hpast
  have hend : Pool.Reliant (fun i => pastStanding tenantId hostId q i = true)
      (fun w : World => Withdrawn tenantId hostId w.db) (Inactive tenantId hostId)
      (Unrecorded tenantId hostId) r := by
    apply hrun.reliant _ _ _ _ _ hstart
    · exact fun p request _ => usesGiven_program p.threads.length request
    · exact fun op w hw => inactive_exec hw op
    · exact fun op r hr => inactive_fault hr
    · intro p i op hallowed hcall huses hw
      exact withdrawn_allowed hallowed.1 hallowed.2 hcall huses hw
    · exact fun _ _ hw => hw
  exact standing_of_withdrawn hend.world serial r.world.now

/-!
# A renewal that is overtaken

One enrolled host with one certificate.
-/

def enrolledDb : Db :=
  { sampleDb with
    hosts := [{ newHostRow "h" 1 0 with enrolledAt := some 0 }]
    hostCerts := [certRow 1 "h"
      { serial := "first", fingerprintSha256 := "", issuedAt := 0, expiresAt := 100 }] }

def enrolledPool : Pool (service Deps.sample) :=
  Pool.init (World.start enrolledDb ∅ 0)

def operator : AuthedUser :=
  { userId := 1, tenantId := 1, role := Role.owner }

def agent (request : AgentRequest) : Request :=
  Request.http (HttpRequest.agent
    { tenantId := 1, tenantSlug := "acme", hostId := "h", serialHex := "first" } true request)

/-- A renewal up to the signing of its certificate, then a revocation up to its
commit. -/
def overtaken : List (Choice (service Deps.sample)) :=
  [Choice.spawn (agent (AgentRequest.renew "csr")),
    Choice.exec 0, Choice.exec 0, Choice.exec 0, Choice.exec 0,
    Choice.spawn (Request.http (HttpRequest.revokeHostCerts operator "h")),
    Choice.exec 1, Choice.exec 1]

/-- The renewal goes on after the revocation: its certificate is live. -/
theorem standing_active_after_revoke :
    ¬ forall (deps : Deps) (tenantId : Int) (hostId : String) (w : World)
        (p q r : Pool (service deps)) (c : Choice (service deps)),
      Pool.Run (fun _ _ => True) (Pool.init w) p -> revokes tenantId hostId p c = true ->
      p.step c = some q ->
      Pool.Run (fun p c => enrolls tenantId hostId p c = false) q r -> forall serial : String,
        (HostCertRepo.standing tenantId hostId serial r.world.now r.world.db).active = false := by
  intro h
  let p := enrolledPool.after overtaken rfl
  let q := p.after [Choice.exec 1] rfl
  let r := q.afterIf (fun p c => !enrolls 1 "h" p c) [Choice.exec 0] rfl
  have hrun : Pool.Run (fun p c => enrolls 1 "h" p c = false) q r :=
    (Pool.run_afterIf _ q [Choice.exec 0] rfl).mono
      (fun p c hok => (Bool.not_eq_true' _).mp hok)
  have hinactive := h Deps.sample 1 "h" (World.start enrolledDb ∅ 0) p q r (Choice.exec 1)
    (Pool.run_after _ _ _) rfl rfl hrun "b"
  have hactive : (HostCertRepo.standing 1 "h" "b" r.world.now r.world.db).active = true := by
    decide +kernel
  rw [hinactive] at hactive
  cases hactive

/-- A renewal that is started when the revocation has committed is refused; the
one that was under way is never heard of again. -/
theorem standing_inactive_refused :
    let p := enrolledPool.after overtaken rfl
    let q := p.after [Choice.exec 1] rfl
    let r := q.afterIf (fun p c => !enrolls 1 "h" p c && !recordsOvertaken 1 "h" q p c)
      [Choice.exec 1, Choice.exec 1, Choice.spawn (agent (AgentRequest.renew "csr")),
        Choice.exec 2] (by decide +kernel)
    (HostCertRepo.standing 1 "h" "first" r.world.now r.world.db).active = false := by
  intro p q r
  have hrun : Pool.Run (fun p c => enrolls 1 "h" p c = false ∧
      recordsOvertaken 1 "h" q p c = false) q r :=
    (Pool.run_afterIf _ q _ (by decide +kernel)).mono (fun p c hok => by simpa using hok)
  exact standing_inactive_after_revoke p q r (Choice.exec 1) (Pool.run_after _ _ _) rfl rfl hrun
    "first"

end Hosts
end FleetServer
