import FleetServer.Concurrency.Alone
import FleetServer.Hosts.HostHistory
import FleetServer.Server.Walk

/-!
# The life of a bootstrap nonce

A host waits for one nonce at a time.  Enrolling burns it, issuing another one
voids it, and a row that is enrolled has none.
-/

namespace FleetServer
namespace Hosts

open FleetServer.Core
open Storage
open Table
open Server
open Concurrency

variable {now t : Int} {s : Option HostState} {n : String} {hostname os : Option String}
variable {cert : EnrolledCert} {r : HostRow}

/-!
# Nonces in a log
-/

namespace HostEvent

def issues (nonceHash : String) : HostEvent -> Bool
  | created n _ => n == nonceHash
  | reissued n _ => n == nonceHash
  | _ => false

def enrolls (nonceHash : String) : HostEvent -> Bool
  | enrolled n => n == nonceHash
  | _ => false

end HostEvent

def nonceOf (s : Option HostState) : Option String :=
  s.bind HostState.bootstrapNonceHash

theorem nonceOf_apply {e : HostEvent} (h : nonceOf (e.apply now s) = some n) :
    nonceOf s = some n ∨ e.issues n = true := by
  cases e with
  | created n' expiresAt =>
      cases h
      exact Or.inr (beq_self_eq_true n)
  | reissued n' expiresAt =>
      cases s with
      | none => cases h
      | some s =>
          cases h
          exact Or.inr (beq_self_eq_true n)
  | enrolled n' => cases s <;> cases h
  | seen => cases s with
      | none => cases h
      | some s => exact Or.inl h
  | reported stateHash => cases s with
      | none => cases h
      | some s => exact Or.inl h
  | deleted => cases h

theorem nonceOf_apply_enrolled :
    nonceOf ((HostEvent.enrolled n).apply now s) = none := by
  cases s <;> rfl

theorem nonceOf_apply_reissued {expiresAt : Int} {n' : String}
    (h : nonceOf ((HostEvent.reissued n' expiresAt).apply now s) = some n) : n = n' := by
  cases s with
  | none => cases h
  | some s =>
      cases h
      rfl

theorem waits_apply {e : HostEvent} (n : String) (h : e.Enabled now s) :
    (if e.enrolls n = true then 1 else 0) + (if nonceOf (e.apply now s) = some n then 1 else 0) ≤
      (if nonceOf s = some n then 1 else 0) + (if e.issues n = true then 1 else 0) := by
  cases e with
  | enrolled n' =>
      rcases h with ⟨st, rfl, _, hnonce, _⟩
      have hbefore : nonceOf (some st) = some n' := hnonce
      have hafter : nonceOf ((HostEvent.enrolled n').apply now (some st)) ≠ some n := by
        rw [nonceOf_apply_enrolled]
        exact Option.some_ne_none n |>.symm
      rw [if_neg hafter, hbefore]
      by_cases hsame : n' = n
      · rw [hsame, if_pos rfl]
        split <;> omega
      · have hno : (HostEvent.enrolled n').enrolls n = false := beq_false_of_ne hsame
        rw [hno]
        simp
  | _ =>
      have hno : forall e : HostEvent, e.enrolls n = true ->
          exists n', e = HostEvent.enrolled n' := by
        intro e he
        cases e <;> first | exact ⟨_, rfl⟩ | cases he
      rw [if_neg (fun he => by obtain ⟨_, heq⟩ := hno _ he; cases heq)]
      split
      · rename_i hafter
        rcases nonceOf_apply hafter with hbefore | hissues
        · rw [if_pos hbefore]
          omega
        · rw [if_pos hissues]
          omega
      · omega

namespace HostLog

theorem valid_of_append {later log : HostLog} (h : Valid (later ++ log)) : Valid log := by
  induction later with
  | nil => exact h
  | cons x later ih => exact ih h.2

theorem nonceOf_append {between log : HostLog} (h : nonceOf (replay (between ++ log)) = some n) :
    nonceOf (replay log) = some n ∨ exists x, x ∈ between ∧ x.2.issues n = true := by
  induction between with
  | nil => exact Or.inl h
  | cons x between ih =>
      rcases nonceOf_apply h with hbefore | hissues
      · rcases ih hbefore with hlog | ⟨y, hy, hissues⟩
        · exact Or.inl hlog
        · exact Or.inr ⟨y, List.mem_cons_of_mem x hy, hissues⟩
      · exact Or.inr ⟨x, List.mem_cons_self, hissues⟩

theorem issued_between {between log : HostLog}
    (hvalid : Valid ((t, HostEvent.enrolled n) :: (between ++ log)))
    (hvoid : nonceOf (replay log) ≠ some n) :
    exists x, x ∈ between ∧ x.2.issues n = true := by
  rcases hvalid.1 with ⟨st, hst, _, hnonce, _⟩
  have hwaits : nonceOf (replay (between ++ log)) = some n := by
    change replay (between ++ log) = some st at hst
    rw [hst]
    exact hnonce
  rcases nonceOf_append hwaits with hlog | hissued
  · exact absurd hlog hvoid
  · exact hissued

theorem count_enrolls_le (n : String) {log : HostLog} (hvalid : Valid log) :
    log.countP (fun x => x.2.enrolls n) + (if nonceOf (replay log) = some n then 1 else 0) ≤
      log.countP fun x => x.2.issues n := by
  induction log with
  | nil => exact Nat.le_refl 0
  | cons x log ih =>
      have hstep := waits_apply n hvalid.1
      have hrest := ih hvalid.2
      rw [List.countP_cons, List.countP_cons]
      change _ + _ + (if nonceOf (x.2.apply x.1 (replay log)) = some n then 1 else 0) ≤ _
      omega

theorem replay_sound {log : HostLog} {st : HostState} (h : replay log = some st) :
    (st.enrolledAt.isSome = true ->
      st.bootstrapNonceHash = none ∧ st.bootstrapExpiresAt = none) ∧
    st.bootstrapNonceHash.isSome = st.bootstrapExpiresAt.isSome := by
  induction log generalizing st with
  | nil => cases h
  | cons x log ih =>
      change x.2.apply x.1 (replay log) = some st at h
      cases he : x.2 with
      | created n expiresAt =>
          rw [he] at h
          cases h
          exact ⟨fun hsome => absurd hsome Bool.false_ne_true, rfl⟩
      | deleted =>
          rw [he] at h
          cases h
      | enrolled n =>
          rw [he] at h
          rcases Option.map_eq_some_iff.mp h with ⟨s, hs, rfl⟩
          exact ⟨fun _ => ⟨rfl, rfl⟩, rfl⟩
      | reissued n expiresAt =>
          rw [he] at h
          rcases Option.map_eq_some_iff.mp h with ⟨s, hs, rfl⟩
          exact ⟨fun hsome => absurd hsome Bool.false_ne_true, rfl⟩
      | seen =>
          rw [he] at h
          rcases Option.map_eq_some_iff.mp h with ⟨s, hs, rfl⟩
          have hsound : (s.enrolledAt.isSome = true ->
              s.bootstrapNonceHash = none ∧ s.bootstrapExpiresAt = none) ∧
              s.bootstrapNonceHash.isSome = s.bootstrapExpiresAt.isSome := ih hs
          exact hsound
      | reported stateHash =>
          rw [he] at h
          rcases Option.map_eq_some_iff.mp h with ⟨s, hs, rfl⟩
          have hsound : (s.enrolledAt.isSome = true ->
              s.bootstrapNonceHash = none ∧ s.bootstrapExpiresAt = none) ∧
              s.bootstrapNonceHash.isSome = s.bootstrapExpiresAt.isSome := ih hs
          exact hsound

end HostLog

/-!
# An attempt to enroll
-/

section Attempt

variable {tenantId : Int} {hostId : String} {db : Db} {w : World}

theorem enroll_failed {h : String}
    (hno : ((Statement.enroll t h n hostname os cert).exec w).1 ≠ Except.ok true) :
    ((Statement.enroll t h n hostname os cert).exec w).2 = w := by
  rcases statement_exec (Statement.enroll t h n hostname os cert) w with
    ⟨e, _, hexec⟩ | ⟨answer, db', htx, hexec⟩
  · rw [hexec]
  · rw [hexec] at hno ⊢
    cases answer with
    | true => exact absurd rfl hno
    | false => rw [enroll_eq_false htx]

theorem enroll_recorded {h : String}
    (hyes : ((Statement.enroll t h n hostname os cert).exec w).1 = Except.ok true) :
    ((Statement.enroll t h n hostname os cert).exec w).2.db.hostCerts =
      w.db.hostCerts ++ [certRow t h cert] := by
  rcases statement_exec (Statement.enroll t h n hostname os cert) w with
    ⟨e, _, hexec⟩ | ⟨answer, db', htx, hexec⟩
  · rw [hexec] at hyes
    cases hyes
  · rw [hexec] at hyes ⊢
    cases hyes
    rcases enroll_eq_ok htx with ⟨_, hdb⟩
    rw [hdb]

theorem enroll_succeeds (hdb : HostKeys db) (hr : r ∈ db.hosts)
    (hwaits : HostRepo.waitsFor tenantId hostId n now r = true)
    (hfresh : (db.hostCerts.any fun c => c.serial == cert.serial) = false) :
    exists db', HostRepo.enroll tenantId hostId n hostname os cert now db =
      Except.ok (true, db') := by
  rcases waitsFor_iff.mp hwaits with ⟨hours, _⟩
  rcases isHost_iff.mp hours with ⟨htenant, hid⟩
  have hone : affected (HostRepo.waitsFor tenantId hostId n now) db.hosts = 1 := by
    apply countP_eq_one hdb.hostIds hr
    intro s hs
    constructor
    · intro hwaits'
      exact isHost_eq (waitsFor_iff.mp hwaits').1 hours
    · intro hsame
      rw [eq_of_key_eq hdb.hostIds hs hr hsame]
      exact hwaits
  have hburned : HostRepo.enrolled hostname os now r ∈
      updateWhere (HostRepo.waitsFor tenantId hostId n now)
        (HostRepo.enrolled hostname os now) db.hosts :=
    mem_updateWhere.mpr ⟨r, hr, (if_pos hwaits).symm⟩
  let burned : Db := { db with
    hosts := updateWhere (HostRepo.waitsFor tenantId hostId n now)
      (HostRepo.enrolled hostname os now) db.hosts }
  have htenants : burned.hasTenant tenantId = true := by
    rw [← htenant]
    exact hdb.tenantRefs r hr
  have hhost : burned.hasHost hostId = true :=
    List.any_eq_true.mpr ⟨_, hburned, beq_iff_eq.mpr hid⟩
  have hinsert : insertCert (certRow tenantId hostId cert) burned =
      Except.ok ((), { burned with
        hostCerts := burned.hostCerts ++ [certRow tenantId hostId cert] }) := by
    unfold insertCert
    apply Tx.guarded_eq_ok.mpr
    refine ⟨?_, rfl⟩
    change (burned.hasTenant tenantId && burned.hasHost hostId &&
      !(db.hostCerts.any fun c => c.serial == cert.serial)) = true
    rw [htenants, hhost, hfresh]
    rfl
  refine ⟨{ burned with hostCerts := burned.hostCerts ++ [certRow tenantId hostId cert] }, ?_⟩
  unfold HostRepo.enroll
  simp only
  rw [if_neg (fun hno => hno hone), hinsert]

end Attempt

/-!
# A request to enroll
-/

section Enrolling

variable (deps : Deps)

/-- A completed call is a read, or an enroll that did not succeed. -/
def enrollsNobody (op : Op) : op.Res -> Prop :=
  match op with
  | Op.statement (Statement.enroll _ _ _ _ _ _) => fun r => r ≠ Except.ok true
  | Op.query _ => fun _ => True
  | Op.nowUnix => fun _ => True
  | _ => fun _ => False

theorem world_of_enrollsNobody {op : Op} {w : World} (h : enrollsNobody op (exec op w).1) :
    (exec op w).2 = w := by
  cases op with
  | statement s =>
      cases s with
      | enroll t h' n hostname os cert => exact enroll_failed h
      | _ => cases h
  | query q => rfl
  | nowUnix => rfl
  | _ => cases h

theorem finishEnroll_usesUntil (claims : BootstrapClaims) (body : EnrollBody)
    (secrets : TenantSecretsRow) (issued : SignedCert) :
    Program.UsesUntil enrollsNobody (fun r : Response => r.status = 200)
      (finishEnroll deps claims body secrets issued) := by
  intro r
  cases r with
  | error e =>
      right
      constructor
      · intro hok
        cases hok
      · trivial
  | ok answer =>
      cases answer with
      | true => exact Or.inl rfl
      | false =>
          right
          constructor
          · intro hok
            cases hok
          · trivial

theorem signEnrollment_usesUntil (request : Nat) (claims : BootstrapClaims) (body : EnrollBody)
    (tenant : Tenant) (secrets : TenantSecretsRow) :
    Program.UsesUntil enrollsNobody (fun r : Response => r.status = 200)
      (signEnrollment deps request claims body tenant secrets) := by
  unfold signEnrollment guarded
  split
  · trivial
  · intro now
    refine Or.inr ⟨trivial, ?_⟩
    simp only [Program.bind]
    split
    · trivial
    · exact finishEnroll_usesUntil deps claims body secrets _

theorem enroll_usesUntil (request : Nat) (admitted : Bool) (body : EnrollBody) :
    Program.UsesUntil enrollsNobody (fun r : Response => r.status = 200)
      (enroll deps request admitted body) := by
  intro now
  refine Or.inr ⟨trivial, ?_⟩
  simp only [Program.bind]
  split
  · trivial
  · rename_i claims _
    split
    · trivial
    · apply usesUntil_askOr (fun _ => trivial)
      intro pending
      cases pending with
      | false => trivial
      | true =>
          apply usesUntil_askOr (fun _ => trivial)
          intro tenant
          cases tenant with
          | none => trivial
          | some tenant =>
              apply usesUntil_askOr (fun _ => trivial)
              intro secrets
              cases secrets with
              | none => trivial
              | some secrets =>
                  exact signEnrollment_usesUntil deps request claims body tenant secrets

theorem enroll_request_failed {Others : World -> World -> Prop} {request : Nat}
    {admitted : Bool} {body : EnrollBody} {w v : World} {events : List (Event machine)}
    {answer : Response}
    (hrun : Among machine Others (enroll deps request admitted body) w events answer v)
    (hanswer : answer.status ≠ 200) : forall e, e ∈ events -> e.after = e.before := by
  intro e he
  have hcalls := usesUntil_of_among (fun _ => True) (fun _ _ _ _ => trivial)
    (fun _ _ _ _ => trivial) hrun (enroll_usesUntil deps request admitted body) hanswer trivial
  exact world_of_enrollsNobody (hcalls e he).1

end Enrolling

/-!
# The life of a nonce
-/

/-- What holds of a host's nonces, given its history and what it led to. -/
structure NonceLifecycle (tenantId : Int) (hostId : String) (w : World) (log : HostLog) :
    Prop where
  /-- Between two enrollments with a nonce, it was issued again. -/
  once : forall later between earlier t t' n,
    log = later ++ (t', HostEvent.enrolled n) ::
      (between ++ (t, HostEvent.enrolled n) :: earlier) ->
    exists x, x ∈ between ∧ x.2.issues n = true
  counted : forall n, log.countP (fun x => x.2.enrolls n) ≤ log.countP fun x => x.2.issues n
  /-- A nonce from before a re-issue enrolls nobody. -/
  voided : forall later between earlier t t' n n' expiresAt, n ≠ n' ->
    log = later ++ (t', HostEvent.enrolled n) ::
      (between ++ (t, HostEvent.reissued n' expiresAt) :: earlier) ->
    exists x, x ∈ between ∧ x.2.issues n = true
  burned : forall r, r ∈ w.db.hosts -> isHost tenantId hostId r = true ->
    r.enrolledAt.isSome = true -> r.bootstrapNonceHash = none ∧ r.bootstrapExpiresAt = none
  failed : forall n hostname os cert,
    ((Statement.enroll tenantId hostId n hostname os cert).exec w).1 ≠ Except.ok true ->
    ((Statement.enroll tenantId hostId n hostname os cert).exec w).2 = w
  recorded : forall n hostname os cert,
    ((Statement.enroll tenantId hostId n hostname os cert).exec w).1 = Except.ok true ->
    ((Statement.enroll tenantId hostId n hostname os cert).exec w).2.db.hostCerts =
      w.db.hostCerts ++ [certRow tenantId hostId cert]
  /-- With a certificate no other has the serial of. -/
  awaiting : forall r, r ∈ w.db.hosts -> isHost tenantId hostId r = true ->
    forall now thresholds desired hostname os cert,
      (w.db.hostCerts.any fun c => c.serial == cert.serial) = false ->
      ((mapHost r).status now thresholds desired = HostStatus.awaitingEnrollment <->
        exists n, r.bootstrapNonceHash = some n ∧ exists db',
          HostRepo.enroll tenantId hostId n hostname os cert now w.db = Except.ok (true, db'))

section Lifecycle

variable {tenantId : Int} {hostId : String} {w : World} {log : HostLog}

theorem replay_of_mem (hlog : Logged tenantId hostId (w, log)) (hr : r ∈ w.db.hosts)
    (hours : isHost tenantId hostId r = true) :
    log.replay = some (rowState r) := by
  have hstate : hostState tenantId hostId w.db = log.replay := hlog.replayed
  rw [← hstate]
  unfold hostState
  rw [find?_eq_of_mem hlog.keys.hostIds (fun _ _ => isHost_eq) hr hours]
  rfl

theorem awaiting_iff_enrolls (hlog : Logged tenantId hostId (w, log)) (hr : r ∈ w.db.hosts)
    (hours : isHost tenantId hostId r = true) {thresholds : StatusThresholds}
    {desired : Option String}
    (hfresh : (w.db.hostCerts.any fun c => c.serial == cert.serial) = false) :
    (mapHost r).status now thresholds desired = HostStatus.awaitingEnrollment <->
      exists n, r.bootstrapNonceHash = some n ∧ exists db',
        HostRepo.enroll tenantId hostId n hostname os cert now w.db = Except.ok (true, db') := by
  rw [Host.status_eq_awaiting]
  constructor
  · rintro ⟨hpending, expiresAt, hexpires, hlive⟩
    have hsound := (HostLog.replay_sound (replay_of_mem hlog hr hours)).2
    change r.bootstrapNonceHash.isSome = r.bootstrapExpiresAt.isSome at hsound
    change r.bootstrapExpiresAt = some expiresAt at hexpires
    rw [hexpires] at hsound
    rcases Option.isSome_iff_exists.mp hsound with ⟨n, hn⟩
    refine ⟨n, hn, enroll_succeeds hlog.keys hr ?_ hfresh⟩
    exact waitsFor_iff.mpr ⟨hours, hn, hpending, expiresAt, hexpires, hlive⟩
  · rintro ⟨n, _, db', henroll⟩
    rcases enroll_eq_ok henroll with ⟨⟨s, hs, hwaits⟩, _⟩
    rcases waitsFor_iff.mp hwaits with ⟨htheirs, _, hpending, hlive⟩
    have hsame : s = r := eq_of_key_eq hlog.keys.hostIds hs hr (isHost_eq htheirs hours)
    rw [hsame] at hpending hlive
    exact ⟨hpending, hlive⟩

theorem nonceLifecycle_of_logged (hlog : Logged tenantId hostId (w, log)) :
    NonceLifecycle tenantId hostId w log := by
  have hvalid : log.Valid := hlog.valid
  constructor
  · intro later between earlier t t' n hsplit
    rw [hsplit] at hvalid
    refine HostLog.issued_between (HostLog.valid_of_append hvalid) ?_
    intro hwaits
    cases nonceOf_apply_enrolled.symm.trans hwaits
  · intro n
    have hcount := HostLog.count_enrolls_le n hvalid
    omega
  · intro later between earlier t t' n n' expiresAt hne hsplit
    rw [hsplit] at hvalid
    refine HostLog.issued_between (HostLog.valid_of_append hvalid) ?_
    intro hwaits
    exact hne (nonceOf_apply_reissued hwaits)
  · intro r hr hours henrolled
    exact (HostLog.replay_sound (replay_of_mem hlog hr hours)).1 henrolled
  · intro n hostname os cert
    exact enroll_failed
  · intro n hostname os cert
    exact enroll_recorded
  · intro r hr hours now thresholds desired hostname os cert
    exact awaiting_iff_enrolls hlog hr hours

end Lifecycle

/-- In every run of the server from a state without the host, whoever else it
serves. -/
theorem nonce_lifecycle {deps : Deps} {tenantId : Int} {hostId : String} {w : World}
    (hkeys : HostKeys w.db) (habsent : hostState tenantId hostId w.db = none)
    {p : Pool (watched deps tenantId hostId)}
    (hrun : Pool.Run (fun _ _ => True) (Pool.init (w, [])) p) :
    NonceLifecycle tenantId hostId p.world.1 p.world.2 ∧
      forall Others request admitted body u v events answer,
        Among machine Others (enroll deps request admitted body) u events answer v ->
        answer.status ≠ 200 -> forall e, e ∈ events -> e.after = e.before := by
  constructor
  · exact nonceLifecycle_of_logged (logged_run hkeys habsent hrun)
  · intro Others request admitted body u v events answer hamong hanswer
    exact enroll_request_failed deps hamong hanswer

/-!
# A host that enrolls, twice
-/

def hostAdmin : AuthedUser :=
  { userId := 1, tenantId := 1, role := Role.owner }

def asks (request : HttpRequest) : Choice (watched Deps.sample 1 "b") :=
  Choice.spawn (Request.http request)

def enrollsWith (token : String) : Choice (watched Deps.sample 1 "b") :=
  asks (HttpRequest.enroll true
    { bootstrapToken := token, csrPem := "csr", hostname := none, os := none })

/-- The request started as number `i` makes its next `n` calls. -/
def steps (i n : Nat) : List (Choice (watched Deps.sample 1 "b")) :=
  List.replicate n (Choice.exec i)

def comesBackEnrolled : List (Choice (watched Deps.sample 1 "b")) :=
  asks (HttpRequest.createHost hostAdmin) :: steps 0 5 ++
    enrollsWith "b.b" :: steps 1 6 ++
    asks (HttpRequest.revokeHostCerts hostAdmin "b") :: steps 2 5 ++
    enrollsWith "b.aab" :: steps 3 6

def watchedStart : Pool (watched Deps.sample 1 "b") :=
  Pool.init (World.start sampleDb ∅ 0, [])

theorem nonce_lifecycle_twice :
    let q := watchedStart.after comesBackEnrolled (by decide +kernel)
    q.world.2.map (fun x => x.2) =
        [HostEvent.enrolled "616162", HostEvent.reissued "616162" 86400,
          HostEvent.enrolled "62", HostEvent.created "62" 86400] ∧
      NonceLifecycle 1 "b" q.world.1 q.world.2 := by
  intro q
  constructor
  · decide +kernel
  · have hkeys : HostKeys watchedStart.world.1.db :=
      ⟨List.nodup_nil, fun h hh => absurd hh List.not_mem_nil⟩
    have hrun : Pool.Run (fun _ _ => True) watchedStart q :=
      Pool.run_after watchedStart comesBackEnrolled (by decide +kernel)
    exact (nonce_lifecycle hkeys rfl hrun).1

end Hosts
end FleetServer
