import FleetServer.Server.Calls
import FleetServer.Server.Frame
import FleetServer.Server.Service

/-!
# The tier's host limit

The limit is only checked when a host is created, against the hosts that are
enrolled or were created within the last day.  What it promises holds of every
run in which no other request adds to the count between a create's count and its
insert, and nothing enrolls a host that the count no longer sees.
-/

namespace FleetServer
namespace Hosts

open FleetServer.Core
open Storage
open Table
open Server
open Concurrency

variable {now tenantId' : Int} {hostId nonceHash : String} {limit : Nat}

/-!
# Counts as functions of the lifecycles
-/

namespace Lifecycle

/-- Whether the count sees a host. -/
def isActive (now : Int) (l : Lifecycle) : Bool :=
  l.enrolledAt.isSome || (l.enrolledAt.isNone && decide (now - 86400 < l.createdAt))

def isCounted (tenantId now : Int) (l : Lifecycle) : Bool :=
  l.tenantId == tenantId && isActive now l

def isEnrolledIn (tenantId : Int) (l : Lifecycle) : Bool :=
  l.tenantId == tenantId && l.enrolledAt.isSome

theorem isCounted_of_enrolled {tenantId : Int} {l : Lifecycle} (h : isEnrolledIn tenantId l = true)
    : isCounted tenantId now l = true := by
  unfold isEnrolledIn at h
  unfold isCounted isActive
  simp only [Bool.and_eq_true] at h
  rw [h.1, h.2]
  rfl

theorem isCounted_of_later {tenantId later : Int} (hle : now ≤ later) {l : Lifecycle}
    (h : isCounted tenantId later l = true) : isCounted tenantId now l = true := by
  unfold isCounted isActive at *
  simp only [Bool.and_eq_true, Bool.or_eq_true, decide_eq_true_eq] at *
  refine ⟨h.1, ?_⟩
  rcases h.2 with henrolled | ⟨hpending, hrecent⟩
  · exact Or.inl henrolled
  · exact Or.inr ⟨hpending, by omega⟩

end Lifecycle

def countEnrolled (tenantId : Int) (db : Db) : Nat :=
  affected (fun h => h.tenantId == tenantId && h.enrolledAt.isSome) db.hosts

def lifecycles (db : Db) : List Lifecycle :=
  db.hosts.map HostRow.lifecycle

theorem countActive_eq (tenantId now : Int) (db : Db) :
    HostRepo.countActive tenantId now db =
      (lifecycles db).countP (Lifecycle.isCounted tenantId now) := by
  unfold lifecycles
  rw [List.countP_map]
  rfl

theorem countEnrolled_eq (tenantId : Int) (db : Db) :
    countEnrolled tenantId db =
      (lifecycles db).countP (Lifecycle.isEnrolledIn tenantId) := by
  unfold lifecycles
  rw [List.countP_map]
  rfl

theorem countEnrolled_le (tenantId now : Int) (db : Db) :
    countEnrolled tenantId db ≤ HostRepo.countActive tenantId now db := by
  rw [countEnrolled_eq, countActive_eq]
  exact List.countP_mono_left (fun _ _ h => Lifecycle.isCounted_of_enrolled h)

theorem countActive_later {tenantId later : Int} (hle : now ≤ later) (db : Db) :
    HostRepo.countActive tenantId later db ≤ HostRepo.countActive tenantId now db := by
  rw [countActive_eq, countActive_eq]
  exact List.countP_mono_left (fun _ _ h => Lifecycle.isCounted_of_later hle h)

theorem countActive_of_same {db db' : Db} (tenantId now : Int)
    (hsame : db.Same Part.hosts db') :
    HostRepo.countActive tenantId now db' = HostRepo.countActive tenantId now db := by
  rw [countActive_eq, countActive_eq]
  unfold lifecycles
  rw [show db'.hosts.map HostRow.lifecycle = db.hosts.map HostRow.lifecycle from hsame]

/-!
# The effective limit
-/

variable (deps : Deps)

/-- The tenant's effective `max_hosts`. -/
def maxHosts (tenantId : Int) (db : Db) : Nat :=
  ((tenantLimits deps tenantId db).map TierLimits.maxHosts).getD 0

theorem maxHosts_exec (tenantId : Int) (op : Op) (w : World) :
    maxHosts deps tenantId (exec op w).2.db = maxHosts deps tenantId w.db := by
  unfold maxHosts
  rw [tenantLimits_exec]

/-!
# What each statement does to the count
-/

variable {tenantId : Int} {db db' : Db}

theorem countActive_createPending {id : String} {expires : Int} {host : Host}
    (hdb : HostRepo.countActive tenantId now db ≤ limit)
    (hbelow : tenantId' = tenantId -> HostRepo.countActive tenantId now db < limit)
    (h : HostRepo.createPending id tenantId' nonceHash expires now db =
      Except.ok (host, db')) : HostRepo.countActive tenantId now db' ≤ limit := by
  unfold HostRepo.createPending Tx.guarded at h
  split at h
  · cases h
    unfold HostRepo.countActive affected at hdb hbelow ⊢
    simp only [newHostRow, List.countP_append, List.countP_singleton]
    by_cases htenant : tenantId' = tenantId
    · have hbelow' := hbelow htenant
      split <;> omega
    · simp [htenant, hdb]
  · cases h

theorem countActive_enroll {hostname os : Option String} {cert : EnrolledCert} {answer : Bool}
    (hdb : HostRepo.countActive tenantId now db ≤ limit) (hcounted : tenantId' = tenantId ->
      (forall r, r ∈ db.hosts -> HostRepo.waitsFor tenantId' hostId nonceHash now r = true ->
        HostRepo.isActive now r = true) ∨ HostRepo.countActive tenantId now db < limit)
    (h : HostRepo.enroll tenantId' hostId nonceHash hostname os cert now db =
      Except.ok (answer, db')) : HostRepo.countActive tenantId now db' ≤ limit := by
  unfold HostRepo.enroll at h
  simp only at h
  split at h
  · cases h
    exact hdb
  · rename_i hone
    split at h
    · cases h
    · rename_i db'' hinsert
      cases h
      rw [countActive_of_same tenantId now (Keeps.insertCert _ (by decide) _ _ _ hinsert)]
      have htenantOf : forall r,
          HostRepo.waitsFor tenantId' hostId nonceHash now r = true -> r.tenantId = tenantId' := by
        intro r hr
        unfold HostRepo.waitsFor isHost at hr
        simp only [Bool.and_eq_true, beq_iff_eq] at hr
        exact hr.1.1.1.1
      unfold HostRepo.countActive affected at hdb hcounted ⊢
      by_cases htenant : tenantId' = tenantId
      · rcases hcounted htenant with hall | hbelow
        · refine (countP_updateWhere_le (fun r hr hp hq => ?_)).trans hdb
          rw [htenantOf r hp, hall r hr hp, htenant]
          simp
        · refine (countP_updateWhere_le_add _ _ _ _).trans ?_
          have hone' : db.hosts.countP
              (HostRepo.waitsFor tenantId' hostId nonceHash now) = 1 := by
            simpa [affected] using hone
          omega
      · refine (countP_updateWhere_le (fun r hr hp hq => ?_)).trans hdb
        simp only [HostRepo.enrolled, htenantOf r hp, Bool.and_eq_true, beq_iff_eq] at hq
        exact absurd hq.1 htenant

theorem countActive_deleteHost {found : Bool} (hdb : HostRepo.countActive tenantId now db ≤ limit)
    (h : HostRepo.delete tenantId' hostId db = Except.ok (found, db')) :
    HostRepo.countActive tenantId now db' ≤ limit := by
  unfold HostRepo.delete at h
  simp only at h
  split at h
  · cases h
  · cases h
    exact (countP_deleteWhere_le _ _ _).trans hdb

theorem countActive_revoke {expires : Int} {revoked : Option Nat}
    (hdb : HostRepo.countActive tenantId now db ≤ limit)
    (h : HostRepo.revokeCertsAndResetToPending tenantId' hostId nonceHash expires now db =
      Except.ok (revoked, db')) : HostRepo.countActive tenantId now db' ≤ limit := by
  unfold HostRepo.revokeCertsAndResetToPending Tx.total at h
  simp only at h
  split at h
  · cases h
    refine (countP_updateWhere_le (fun r _ _ hq => ?_)).trans hdb
    simp only [HostRepo.isActive, Bool.and_eq_true, Bool.or_eq_true, Option.isSome_none,
      Option.isNone_none, Bool.false_eq_true, true_and, false_or] at hq
    unfold HostRepo.isActive
    simp only [Bool.and_eq_true, Bool.or_eq_true]
    refine ⟨hq.1, ?_⟩
    cases r.enrolledAt with
    | none => exact Or.inr ⟨rfl, hq.2⟩
    | some at_ => exact Or.inl rfl
  · cases h
    exact hdb

/-- The count stays within a limit that creates insert below and enrolls of
uncounted hosts stay below. -/
theorem countActive_exec {op : Op} {w : World}
    (hw : HostRepo.countActive tenantId w.now w.db ≤ limit) (hcreate : forall id nonceHash expires,
      op = Op.statement (Statement.createPending id tenantId nonceHash expires) ->
        HostRepo.countActive tenantId w.now w.db < limit)
    (henroll : forall hostId nonceHash hostname os cert,
      op = Op.statement (Statement.enroll tenantId hostId nonceHash hostname os cert) ->
        (forall r, r ∈ w.db.hosts ->
          HostRepo.waitsFor tenantId hostId nonceHash w.now r = true ->
            HostRepo.isActive w.now r = true) ∨
          HostRepo.countActive tenantId w.now w.db < limit) :
    HostRepo.countActive tenantId w.now (exec op w).2.db ≤ limit := by
  by_cases hwrites : Part.hosts ∈ op.writes
  · cases op with
    | statement s =>
        change HostRepo.countActive tenantId w.now (s.exec w).2.db ≤ limit
        rcases statement_exec s w with ⟨e, _, hexec⟩ | ⟨answer, db, htx, hexec⟩
        · rw [hexec]
          exact hw
        · rw [hexec]
          cases s with
          | createPending id tenantId' nonceHash expires =>
              refine countActive_createPending hw (fun htenant => ?_) htx
              subst htenant
              exact hcreate id nonceHash expires rfl
          | enroll tenantId' hostId nonceHash hostname os cert =>
              refine countActive_enroll hw (fun htenant => ?_) htx
              subst htenant
              exact henroll hostId nonceHash hostname os cert rfl
          | deleteHost tenantId' hostId => exact countActive_deleteHost hw htx
          | revokeCertsAndResetToPending tenantId' hostId nonceHash expires =>
              exact countActive_revoke hw htx
          | _ => simp [Op.writes, Statement.writes] at hwrites
    | _ => simp [Op.writes] at hwrites
  · rw [countActive_of_same tenantId w.now (exec_same hwrites w)]
    exact hw

/-!
# The count a create compares
-/

def countsHosts (tenantId : Int) : Op -> Bool
  | Op.query (Query.countActive t) => t == tenantId
  | _ => false

def insertsHost (tenantId : Int) : Op -> Bool
  | Op.statement (Statement.createPending _ t _ _) => t == tenantId
  | _ => false

def EnrollsCounted (tenantId : Int) (op : Op) (w : World) : Prop :=
  forall hostId nonceHash hostname os cert,
    op = Op.statement (Statement.enroll tenantId hostId nonceHash hostname os cert) ->
      (forall r, r ∈ w.db.hosts -> HostRepo.waitsFor tenantId hostId nonceHash w.now r = true ->
        HostRepo.isActive w.now r = true) ∨
      HostRepo.countActive tenantId w.now w.db < maxHosts deps tenantId w.db

def hostQuota (tenantId : Int) : Quota (service deps) where
  count := fun w => HostRepo.countActive tenantId w.now w.db
  bound := fun w => maxHosts deps tenantId w.db
  counts := countsHosts tenantId
  adds := insertsHost tenantId
  Fits := EnrollsCounted deps tenantId
  bound_exec := fun op w => maxHosts_exec deps tenantId op w
  count_exec := by
    intro op w hw hadds hfits
    rw [exec_now]
    apply countActive_exec hw _ hfits
    intro id nonceHash expires hop
    apply hadds
    rw [hop]
    exact beq_self_eq_true tenantId
  bound_disturb := fun _ _ => rfl
  count_disturb := fun e w => countActive_later (show w.now ≤ w.now + e.secs by omega) w.db

section Obeys

variable {deps} {n i : Nat} {request : Request} {x : World × (Nat -> Bool)}

theorem insertsHost_of_ordinary {alpha : Type} {p : Prog alpha} (h : Program.Uses Ordinary p) :
    Program.Uses (fun op => insertsHost tenantId op = false) p := by
  apply Program.uses_mono _ h
  intro op hop
  cases op with
  | statement s =>
      cases s with
      | createPending id t nonceHash expires => exact hop.elim
      | _ => rfl
  | _ => rfl

theorem insertsHost_of_reads (op : Op) (hop : op.reads = true) :
    insertsHost tenantId op = false := by
  cases op with
  | statement s => cases hop
  | _ => rfl

theorem maxHosts_of_get {tenant : Tenant} (hget : TenantRepo.get tenantId db = some tenant) :
    tenant.id = tenantId ∧ maxHosts deps tenantId db =
      (deps.limits tenant.tier tenant.tierOverridesJson).maxHosts := by
  constructor
  · have hid := List.find?_some hget
    simpa using hid
  · unfold maxHosts tenantLimits
    rw [hget]
    rfl

theorem obeys_createPending {t : Int} (hx : (hostQuota deps tenantId).Room i x) :
    (hostQuota deps tenantId).contract.Obeys i request (createPending deps n t) x := by
  apply Quota.obeys_read (fun _ => rfl)
  intro now y hrely _
  have hy : (hostQuota deps tenantId).Room i y := Quota.room_rely hx hrely
  apply Quota.obeys_add (Quota.room_call hy rfl)
  intro created
  cases created with
  | error e => trivial
  | ok host => exact ⟨rfl, fun _ => trivial⟩

theorem uses_create_other (who : AuthedUser) (hwho : who.tenantId ≠ tenantId) (w : World)
    (tenant : Tenant) (hget : TenantRepo.get who.tenantId w.db = some tenant) :
    Program.Uses (fun op => insertsHost tenantId op = false) (createPending deps n tenant.id) := by
  have hid := (@maxHosts_of_get deps who.tenantId w.db tenant hget).1
  refine ⟨rfl, fun now => ?_⟩
  apply uses_executeOr
  · rw [hid]
    exact beq_false_of_ne hwho
  · exact fun _ => ⟨rfl, fun _ => trivial⟩

theorem obeys_create (who : AuthedUser) :
    (hostQuota deps tenantId).contract.Obeys i request (create deps n who) x := by
  unfold create
  split
  · trivial
  · apply obeysQuota_askOr
    intro y _
    cases hget : (Query.tenant who.tenantId).eval y.1.now y.1.db with
    | none => trivial
    | some tenant =>
        rcases @maxHosts_of_get deps who.tenantId y.1.db tenant hget with ⟨hid, hlimit⟩
        apply obeysQuota_askOr
        intro z hz
        split
        · trivial
        · rename_i hbelow
          by_cases hwho : who.tenantId = tenantId
          · rw [hid] at hbelow ⊢
            rw [hwho] at hbelow hlimit ⊢
            have hroom : HostRepo.countActive tenantId z.1.now z.1.db <
                maxHosts deps tenantId z.1.db := by
              rw [show maxHosts deps tenantId z.1.db = maxHosts deps tenantId y.1.db from hz.1,
                hlimit]
              exact Nat.lt_of_not_le hbelow
            apply obeys_createPending
            exact fun _ => hroom
          · exact Quota.obeys_of_none (uses_create_other who hwho y.1 tenant hget)

theorem uses_agentHandler (ctx : PeerHostContext) (agent : AgentRequest) :
    Program.Uses (fun op => insertsHost tenantId op = false) (agentHandler deps n ctx agent) := by
  cases agent with
  | heartbeat => exact insertsHost_of_ordinary (ordinary_of_plain plain_heartbeat)
  | desiredState q => exact insertsHost_of_ordinary (ordinary_of_plain (plain_desiredState deps q))
  | stateReport body => exact insertsHost_of_ordinary (ordinary_stateReport ctx body)
  | renew csrPem => exact uses_renew insertsHost_of_reads (fun _ => rfl)
  | download bundleId =>
      exact insertsHost_of_ordinary (ordinary_of_plain (plain_download deps bundleId))
  | uploadFacts body =>
      exact insertsHost_of_ordinary (ordinary_of_plain (plain_uploadFacts deps body))

theorem obeys_hostRequest (r : Request) :
    (hostQuota deps tenantId).contract.Obeys i request (program deps n r) x := by
  cases r with
  | reconcile t shown dir dryRun =>
      apply Quota.obeys_of_none
      apply insertsHost_of_ordinary
      exact Program.uses_bind (ordinary_reconcile t shown dir dryRun) (fun _ => trivial)
  | http r =>
      cases r with
      | createHost who => exact Contract.obeys_bind (obeys_create who) (fun _ _ => trivial)
      | agent ctx admitted agent =>
          apply Quota.obeys_of_none
          exact uses_program_http deps n (HttpRequest.agent ctx admitted agent)
            (uses_tierLayer insertsHost_of_reads rfl (uses_agentHandler ctx agent))
      | _ =>
          apply Quota.obeys_of_none
          apply insertsHost_of_ordinary
          apply uses_program_http
          apply ordinary_handler
          · intro ctx admitted agent h
            cases h
          · intro who h
            cases h

end Obeys

/-!
# Runs
-/

variable {deps}

def enrollsCounted (tenantId : Int) (p : Pool (service deps))
    (c : Choice (service deps)) : Bool :=
  match p.call? c with
  | some (Op.statement (Statement.enroll t hostId nonceHash _ _ _)) =>
      t != tenantId ||
        (p.world.db.hosts.all fun r =>
          !HostRepo.waitsFor t hostId nonceHash p.world.now r ||
            HostRepo.isActive p.world.now r) ||
        decide (HostRepo.countActive t p.world.now p.world.db < maxHosts deps t p.world.db)
  | _ => true

theorem fits_of_enrollsCounted {p : Pool (service deps)} {c : Choice (service deps)} {op : Op}
    (h : enrollsCounted tenantId p c = true) (hcall : p.call? c = some op) :
    EnrollsCounted deps tenantId op p.world := by
  intro hostId nonceHash hostname os cert hop
  unfold enrollsCounted at h
  rw [hcall, hop] at h
  simp only [bne_self_eq_false, Bool.false_or, Bool.or_eq_true, List.all_eq_true,
    decide_eq_true_eq] at h
  rcases h with hall | hbelow
  · refine Or.inl (fun r hr hwaits => ?_)
    simpa [hwaits] using hall r hr
  · exact Or.inr hbelow

/-- No more hosts are enrolled than the tier allows, where no other request adds to
the count between a create's count and its insert, and no enroll brings back a host
that is not counted when there is no room for it. -/
theorem countEnrolled_le_maxHosts {w : World} {q : Pool (service deps)} {overtaken : Nat -> Bool}
    (hstart : HostRepo.countActive tenantId w.now w.db ≤ maxHosts deps tenantId w.db)
    (hrun : Recorded (hostQuota deps tenantId).overtaking
      (fun p overtaken c q => (hostQuota deps tenantId).inTime p overtaken c q = true ∧
        enrollsCounted tenantId p c = true)
      (Pool.init w) (fun _ => false) q overtaken) :
    countEnrolled tenantId q.world.db ≤ maxHosts deps tenantId q.world.db := by
  apply (countEnrolled_le tenantId q.world.now q.world.db).trans
  apply (hostQuota deps tenantId).count_le_bound _ _ _ hrun hstart
  · exact fun _ _ r _ _ => obeys_hostRequest r
  · exact fun p note c q hallowed => hallowed.1
  · exact fun p note c q op hallowed hcall => fits_of_enrollsCounted hallowed.2 hcall

/-!
# Requests that do not overlap
-/

def movesHosts : Request -> Bool
  | Request.http (HttpRequest.createHost _) => true
  | Request.http (HttpRequest.enroll _ _) => true
  | Request.http (HttpRequest.revokeHostCerts _ _) => true
  | Request.http (HttpRequest.deleteHost _ _) => true
  | Request.http (HttpRequest.bulkDelete _ _) => true
  | _ => false

/-- A request is only started once all others are answered. -/
def oneAtATime (p : Pool (service deps)) : Choice (service deps) -> Bool
  | Choice.spawn r => movesHosts r && p.threads.all Thread.isDone
  | _ => true

/-!
# A host that leaves the count and comes back

A tier of one host.  A host is created and enrolled; more than a day later it is
revoked, which takes it out of the count; another one is created and enrolled in
its place; then the first one enrolls again.
-/

def admin : AuthedUser :=
  { userId := 1, tenantId := 1, role := Role.owner }

def enrollWith (token : String) : Choice (service Deps.sample) :=
  Choice.spawn (Request.http (HttpRequest.enroll true
    { bootstrapToken := token, csrPem := "csr", hostname := none, os := none }))

/-- The request started last makes its next `n` calls. -/
def calls (i n : Nat) : List (Choice (service Deps.sample)) :=
  List.replicate n (Choice.exec i)

def firstHost : List (Choice (service Deps.sample)) :=
  Choice.spawn (Request.http (HttpRequest.createHost admin)) :: calls 0 5 ++
    enrollWith "b.b" :: calls 1 6

def secondHost : List (Choice (service Deps.sample)) :=
  Choice.env (Tick.mk 90000) ::
    Choice.spawn (Request.http (HttpRequest.revokeHostCerts admin "b")) :: calls 2 5 ++
    Choice.spawn (Request.http (HttpRequest.createHost admin)) :: calls 3 5 ++
    enrollWith "aaab.aaab" :: calls 4 6

def comesBack : List (Choice (service Deps.sample)) :=
  enrollWith "b.aab" :: calls 5 6

def oneHostPool : Pool (service Deps.sample) :=
  Pool.init (World.start sampleDb ∅ 0)

theorem countEnrolled_gt_maxHosts :
    ¬ forall (deps : Deps) (tenantId : Int) (w : World) (q : Pool (service deps)),
      countEnrolled tenantId w.db = 0 ->
      Pool.Run (fun p c => oneAtATime p c = true) (Pool.init w) q ->
      countEnrolled tenantId q.world.db ≤ maxHosts deps tenantId q.world.db := by
  intro h
  let schedule := firstHost ++ secondHost ++ comesBack
  let q := oneHostPool.afterIf oneAtATime schedule (by decide +kernel)
  have hle := h Deps.sample 1 (World.start sampleDb ∅ 0) q rfl
    (Pool.run_afterIf oneAtATime oneHostPool schedule (by decide +kernel))
  have hgt : maxHosts Deps.sample 1 q.world.db < countEnrolled 1 q.world.db := by
    decide +kernel
  exact Nat.not_le_of_lt hgt hle

/-- Up to the second host, every step is one the limit allows for. -/
theorem countEnrolled_le_maxHosts_secondHost :
    let schedule := firstHost ++ secondHost
    let ok := fun p overtaken c q =>
      (hostQuota Deps.sample 1).inTime p overtaken c q && enrollsCounted 1 p c
    let x := Recorded.after (hostQuota Deps.sample 1).overtaking ok oneHostPool
      (fun _ => false) schedule (by decide +kernel)
    countEnrolled 1 x.1.world.db ≤ maxHosts Deps.sample 1 x.1.world.db := by
  intro schedule ok x
  have hrun := Recorded.of_after (hostQuota Deps.sample 1).overtaking ok oneHostPool
    (fun _ => false) schedule (by decide +kernel)
  exact countEnrolled_le_maxHosts (by decide +kernel)
    (hrun.mono (fun p overtaken c q hok => by simpa [ok] using hok))

end Hosts
end FleetServer
