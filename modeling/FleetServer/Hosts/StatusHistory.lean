import FleetServer.Hosts.Bootstrap

/-!
# What a status says about a host's past

Silence is measured from the latest contact and convergence from the latest
enrollment, as far as the columns tell.  Enrolling again clears neither
`last_seen_at` nor `current_state_hash`, so what the columns tell is the past
of the machine that was there before.
-/

namespace FleetServer
namespace Hosts

open FleetServer.Core
open Storage
open Table
open Server
open Concurrency

variable {now : Int} {log : HostLog} {st : HostState} {w : World}

/-!
# Reading a log
-/

namespace HostEvent

def isEnroll : HostEvent -> Bool
  | enrolled _ => true
  | _ => false

def isContact : HostEvent -> Bool
  | seen => true
  | reported _ => true
  | _ => false

/-- A row comes or goes. -/
def isBoundary : HostEvent -> Bool
  | created _ _ => true
  | deleted => true
  | _ => false

end HostEvent

namespace HostLog

def lastTime (p : HostEvent -> Bool) : HostLog -> Option Int
  | [] => none
  | (now, e) :: log =>
      if e.isBoundary then none else if p e then some now else lastTime p log

def sinceEnroll (log : HostLog) : HostLog :=
  log.takeWhile fun x => !x.2.isEnroll

def FoundBy (found : Int -> HostState -> Bool) : HostLog -> Prop
  | [] => True
  | (now, e) :: log =>
      (e.isEnroll = true -> (replay log).all (found now) = true) ∧ FoundBy found log

/-- Nothing happened later than `now`, or before what it follows. -/
def Ordered : Int -> HostLog -> Prop
  | _, [] => True
  | now, (t, _) :: log => t ≤ now ∧ Ordered t log

theorem ordered_mono {later : Int} (h : Ordered now log) (hle : now ≤ later) :
    Ordered later log := by
  cases log with
  | nil => trivial
  | cons x log => exact ⟨Int.le_trans h.1 hle, h.2⟩

theorem enrolledAt_eq (h : replay log = some st) (henrolled : st.enrolledAt.isSome = true) :
    st.enrolledAt = lastTime HostEvent.isEnroll log := by
  induction log generalizing st with
  | nil => cases h
  | cons x log ih =>
      rcases x with ⟨t, e⟩
      change e.apply t (replay log) = some st at h
      cases e with
      | created n expiresAt =>
          cases h
          cases henrolled
      | deleted => cases h
      | enrolled n =>
          rcases Option.map_eq_some_iff.mp h with ⟨s, hs, rfl⟩
          rfl
      | reissued n expiresAt =>
          rcases Option.map_eq_some_iff.mp h with ⟨s, hs, rfl⟩
          cases henrolled
      | seen =>
          rcases Option.map_eq_some_iff.mp h with ⟨s, hs, rfl⟩
          have hbefore : s.enrolledAt = lastTime HostEvent.isEnroll log := ih hs henrolled
          exact hbefore
      | reported stateHash =>
          rcases Option.map_eq_some_iff.mp h with ⟨s, hs, rfl⟩
          have hbefore : s.enrolledAt = lastTime HostEvent.isEnroll log := ih hs henrolled
          exact hbefore

theorem lastSeenAt_eq (h : replay log = some st) :
    st.lastSeenAt = lastTime HostEvent.isContact log := by
  induction log generalizing st with
  | nil => cases h
  | cons x log ih =>
      rcases x with ⟨t, e⟩
      change e.apply t (replay log) = some st at h
      cases e with
      | created n expiresAt =>
          cases h
          rfl
      | deleted => cases h
      | enrolled n =>
          rcases Option.map_eq_some_iff.mp h with ⟨s, hs, rfl⟩
          have hbefore : s.lastSeenAt = lastTime HostEvent.isContact log := ih hs
          exact hbefore
      | reissued n expiresAt =>
          rcases Option.map_eq_some_iff.mp h with ⟨s, hs, rfl⟩
          have hbefore : s.lastSeenAt = lastTime HostEvent.isContact log := ih hs
          exact hbefore
      | seen =>
          rcases Option.map_eq_some_iff.mp h with ⟨s, hs, rfl⟩
          rfl
      | reported stateHash =>
          rcases Option.map_eq_some_iff.mp h with ⟨s, hs, rfl⟩
          rfl

theorem lastTime_le {p : HostEvent -> Bool} {t : Int} (hordered : Ordered now log)
    (h : lastTime p log = some t) : t ≤ now := by
  induction log generalizing now with
  | nil => cases h
  | cons x log ih =>
      rcases x with ⟨at_, e⟩
      unfold lastTime at h
      split at h
      · cases h
      · split at h
        · cases h
          exact hordered.1
        · exact Int.le_trans (ih hordered.2 h) hordered.1

/-!
## After enrollments of hosts seen just before
-/

def seenJustNow (now : Int) (s : HostState) : Bool :=
  s.lastSeenAt.all fun seen => decide (now ≤ seen + 1)

theorem enrolledAt_le {enrolledAt seen : Int} (hordered : Ordered now log)
    (hfound : FoundBy seenJustNow log) (h : replay log = some st)
    (henrolled : st.enrolledAt = some enrolledAt) (hseen : st.lastSeenAt = some seen) :
    enrolledAt ≤ seen + 1 := by
  induction log generalizing st now with
  | nil => cases h
  | cons x log ih =>
      rcases x with ⟨t, e⟩
      change e.apply t (replay log) = some st at h
      cases e with
      | created n expiresAt =>
          cases h
          cases henrolled
      | deleted => cases h
      | enrolled n =>
          rcases Option.map_eq_some_iff.mp h with ⟨s, hs, rfl⟩
          have hjust : (replay log).all (seenJustNow t) = true := hfound.1 rfl
          change s.lastSeenAt = some seen at hseen
          rw [hs] at hjust
          change s.lastSeenAt.all _ = true at hjust
          rw [hseen] at hjust
          cases henrolled
          exact of_decide_eq_true hjust
      | reissued n expiresAt =>
          rcases Option.map_eq_some_iff.mp h with ⟨s, hs, rfl⟩
          cases henrolled
      | seen =>
          rcases Option.map_eq_some_iff.mp h with ⟨s, hs, rfl⟩
          cases hseen
          change s.enrolledAt = some enrolledAt at henrolled
          have hlast := enrolledAt_eq hs (by rw [henrolled]; rfl)
          rw [henrolled] at hlast
          have hle := lastTime_le hordered.2 hlast.symm
          omega
      | reported stateHash =>
          rcases Option.map_eq_some_iff.mp h with ⟨s, hs, rfl⟩
          cases hseen
          change s.enrolledAt = some enrolledAt at henrolled
          have hlast := enrolledAt_eq hs (by rw [henrolled]; rfl)
          rw [henrolled] at hlast
          have hle := lastTime_le hordered.2 hlast.symm
          omega

/-!
## After enrollments of hosts without a report
-/

def unreported (_now : Int) (s : HostState) : Bool :=
  s.currentStateHash.isNone

theorem reported_since {stateHash : String} (hfound : FoundBy unreported log)
    (h : replay log = some st) (henrolled : st.enrolledAt.isSome = true)
    (hcurrent : st.currentStateHash = some stateHash) :
    exists x, x ∈ sinceEnroll log ∧ x.2 = HostEvent.reported stateHash := by
  induction log generalizing st with
  | nil => cases h
  | cons x log ih =>
      rcases x with ⟨t, e⟩
      change e.apply t (replay log) = some st at h
      cases e with
      | created n expiresAt =>
          cases h
          cases henrolled
      | deleted => cases h
      | enrolled n =>
          rcases Option.map_eq_some_iff.mp h with ⟨s, hs, rfl⟩
          have hnone : (replay log).all (unreported t) = true := hfound.1 rfl
          change s.currentStateHash = some stateHash at hcurrent
          rw [hs] at hnone
          change s.currentStateHash.isNone = true at hnone
          rw [hcurrent] at hnone
          cases hnone
      | reissued n expiresAt =>
          rcases Option.map_eq_some_iff.mp h with ⟨s, hs, rfl⟩
          cases henrolled
      | seen =>
          rcases Option.map_eq_some_iff.mp h with ⟨s, hs, rfl⟩
          rcases ih hfound.2 hs henrolled hcurrent with ⟨x, hx, hreported⟩
          exact ⟨x, List.mem_cons_of_mem _ hx, hreported⟩
      | reported stateHash' =>
          rcases Option.map_eq_some_iff.mp h with ⟨s, hs, rfl⟩
          cases hcurrent
          exact ⟨_, List.mem_cons_self, rfl⟩

end HostLog

/-!
# Runs whose enrollments find a host in some state
-/

section Runs

variable {deps : Deps} {tenantId : Int} {hostId : String}
  {found : Int -> HostState -> Bool}

/-- Unless the next step enrolls the host, which is not as `found` wants it. -/
def enrollsFound (found : Int -> HostState -> Bool) (p : Pool (watched deps tenantId hostId))
    (c : Choice (watched deps tenantId hostId)) : Bool :=
  match (p.call? c).bind (hostEvent tenantId hostId p.world.1) with
  | some (HostEvent.enrolled _) =>
      (hostState tenantId hostId p.world.1.db).all (found p.world.1.now)
  | _ => true

/-- The log tells the past, and each enrollment in it was as `found` wants it. -/
structure Traced (tenantId : Int) (hostId : String) (found : Int -> HostState -> Bool)
    (w : World × HostLog) : Prop extends Logged tenantId hostId w where
  ordered : w.2.Ordered w.1.now
  foundBy : w.2.FoundBy found

theorem call_log {op : Op} {w : World × HostLog} :
    ((watched deps tenantId hostId).machine.exec op w).2 =
      ((exec op w.1).2, match hostEvent tenantId hostId w.1 op with
        | none => w.2
        | some e => (w.1.now, e) :: w.2) := rfl

theorem traced_exec {p : Pool (watched deps tenantId hostId)}
    {c : Choice (watched deps tenantId hostId)} {op : Op} (hcall : p.call? c = some op)
    (hallowed : enrollsFound found p c = true) (hp : Traced tenantId hostId found p.world) :
    Traced tenantId hostId found ((watched deps tenantId hostId).machine.exec op p.world).2 := by
  have hlogged : Logged tenantId hostId
      ((watched deps tenantId hostId).machine.exec op p.world).2 := logged_exec hp.toLogged
  rw [call_log] at hlogged ⊢
  unfold enrollsFound at hallowed
  rw [hcall, Option.bind_some] at hallowed
  cases he : hostEvent tenantId hostId p.world.1 op with
  | none =>
      rw [he] at hlogged
      refine ⟨hlogged, ?_, hp.foundBy⟩
      change p.world.2.Ordered (exec op p.world.1).2.now
      rw [exec_now]
      exact hp.ordered
  | some e =>
      rw [he] at hlogged hallowed
      refine ⟨hlogged, ⟨?_, hp.ordered⟩, ?_, hp.foundBy⟩
      · change p.world.1.now ≤ (exec op p.world.1).2.now
        rw [exec_now]
      · intro henroll
        rw [← hp.replayed]
        cases e with
        | enrolled n => exact hallowed
        | _ => cases henroll

theorem traced_run (hkeys : HostKeys w.db) (habsent : hostState tenantId hostId w.db = none)
    {p : Pool (watched deps tenantId hostId)}
    (hrun : Pool.Run (fun p c => enrollsFound found p c = true) (Pool.init (w, [])) p) :
    Traced tenantId hostId found p.world := by
  have hstart : Traced tenantId hostId found (w, []) :=
    ⟨⟨hkeys, trivial, habsent⟩, trivial, trivial⟩
  refine hrun.world_invariant (fun w => Traced tenantId hostId found w) ?_ ?_ hstart
  · intro p c op hallowed hcall hp
    exact traced_exec hcall hallowed hp
  · intro tick w hw
    refine ⟨⟨hw.keys, hw.valid, hw.replayed⟩, HostLog.ordered_mono hw.ordered ?_, hw.foundBy⟩
    change w.1.now ≤ w.1.now + tick.secs
    omega

/-- What follows from such enrollments, and fails right after any other, holds
after a step of a run exactly if the step is not another. -/
theorem iff_of_enrollsFound {P : World -> HostLog -> Prop}
    (hholds : forall w (log : HostLog), Traced tenantId hostId found (w, log) -> P w log)
    (hfails : forall w (log : HostLog) n st,
      Logged tenantId hostId (w, (w.now, HostEvent.enrolled n) :: log) ->
      log.replay = some st -> found w.now st = false ->
      ¬ P w ((w.now, HostEvent.enrolled n) :: log)) (hkeys : HostKeys w.db)
    (habsent : hostState tenantId hostId w.db = none) {p : Pool (watched deps tenantId hostId)}
    (hrun : Pool.Run (fun p c => enrollsFound found p c = true) (Pool.init (w, [])) p) :
    P p.world.1 p.world.2 ∧ forall c q, p.step c = some q ->
      (P q.world.1 q.world.2 <-> enrollsFound found p c = true) := by
  have htraced : Traced tenantId hostId found p.world := traced_run hkeys habsent hrun
  refine ⟨hholds _ _ htraced, fun c q hstep => ⟨fun hq => ?_, fun hallowed => ?_⟩⟩
  · by_contra hother
    rw [Bool.not_eq_true] at hother
    unfold enrollsFound at hother
    cases hcall : p.call? c with
    | none =>
        rw [hcall] at hother
        cases hother
    | some op =>
        rw [hcall, Option.bind_some] at hother
        have hworld := Pool.step_call hcall hstep
        rw [call_log] at hworld
        have hlogged : Logged tenantId hostId
            ((watched deps tenantId hostId).machine.exec op p.world).2 :=
          logged_exec htraced.toLogged
        rw [call_log] at hlogged
        split at hother
        · rename_i n he
          rw [he] at hworld hlogged
          rw [hworld] at hq
          rw [← exec_now op p.world.1] at hother hq hlogged
          cases hstate : hostState tenantId hostId p.world.1.db with
          | none =>
              rw [hstate] at hother
              cases hother
          | some st =>
              rw [hstate] at hother
              refine hfails _ _ n st hlogged ?_ hother hq
              rw [← htraced.replayed]
              exact hstate
        · cases hother
  · exact hholds _ _ (traced_run hkeys habsent (Pool.Run.tail hrun hallowed hstep))

theorem row_of_replay (hlog : Logged tenantId hostId (w, log)) (h : log.replay = some st) :
    exists r, r ∈ w.db.hosts ∧ isHost tenantId hostId r = true ∧ rowState r = st := by
  have hstate : hostState tenantId hostId w.db = some st := hlog.replayed.trans h
  rcases Option.map_eq_some_iff.mp hstate with ⟨r, hfind, hrow⟩
  exact ⟨r, List.mem_of_find?_eq_some hfind, List.find?_some hfind, hrow⟩

def appliedHash : String :=
  String.ofList (List.replicate 64 'a')

/-- A report with the first certificate the host was given. -/
def reportsAllApplied : Choice (watched Deps.sample 1 "b") :=
  asks (HttpRequest.agent
    { tenantId := 1, tenantSlug := "acme", hostId := "b", serialHex := "ab" } true
    (AgentRequest.stateReport
      { appliedStateHash := some appliedHash, reportedTags := none, localConfigPresent := none,
        hostOverrideLast := none, factsHash := none }))

/-!
# Silence
-/

def SilenceCounted (tenantId : Int) (hostId : String) (w : World) (log : HostLog) : Prop :=
  forall r, r ∈ w.db.hosts -> isHost tenantId hostId r = true -> r.enrolledAt.isSome = true ->
    exists enrolledAt, log.lastTime HostEvent.isEnroll = some enrolledAt ∧
      forall now thresholds desired,
        let silentFor := now - max enrolledAt ((log.lastTime HostEvent.isContact).getD enrolledAt)
        (silentFor < thresholds.offlineAfterSecs ->
          (mapHost r).status now thresholds desired ≠ HostStatus.offline) ∧
        (silentFor < thresholds.lostAfterSecs ->
          (mapHost r).status now thresholds desired ≠ HostStatus.lost)

theorem silenceCounted_of_traced (h : Traced tenantId hostId HostLog.seenJustNow (w, log)) :
    SilenceCounted tenantId hostId w log := by
  intro r hr hours henrolled
  have hreplay := replay_of_mem h.toLogged hr hours
  have hlast := HostLog.enrolledAt_eq hreplay henrolled
  have hseen := HostLog.lastSeenAt_eq hreplay
  change r.enrolledAt = _ at hlast
  change r.lastSeenAt = _ at hseen
  rcases Option.isSome_iff_exists.mp henrolled with ⟨enrolledAt, hat⟩
  refine ⟨enrolledAt, hlast.symm.trans hat, fun now thresholds desired => ?_⟩
  have hcontact : max enrolledAt ((log.lastTime HostEvent.isContact).getD enrolledAt) ≤
      (mapHost r).lastContact + 1 := by
    rw [← hseen]
    unfold Storage.Host.lastContact
    change _ ≤ (r.lastSeenAt.or r.enrolledAt).getD r.createdAt + 1
    rw [hat]
    cases hnever : r.lastSeenAt with
    | none =>
        simp only [Option.none_or, Option.getD_some, Option.getD_none]
        omega
    | some seen =>
        have hle := HostLog.enrolledAt_le h.ordered h.foundBy hreplay hat hnever
        simp only [Option.some_or, Option.getD_some]
        omega
  constructor
  · intro hshort hoffline
    have hlong := (Storage.Host.of_status_offline hoffline).2
    omega
  · intro hshort hlost
    have hlong := (Storage.Host.of_status_lost hlost).2
    omega

theorem silence_miscounted {n : String}
    (hlog : Logged tenantId hostId (w, (w.now, HostEvent.enrolled n) :: log))
    (hst : log.replay = some st) (hlong : HostLog.seenJustNow w.now st = false) :
    ¬ SilenceCounted tenantId hostId w ((w.now, HostEvent.enrolled n) :: log) := by
  intro h
  have hreplay : HostLog.replay ((w.now, HostEvent.enrolled n) :: log) =
      some { st with
        enrolledAt := some w.now
        bootstrapNonceHash := none
        bootstrapExpiresAt := none } := by
    unfold HostLog.replay
    rw [hst]
    rfl
  rcases row_of_replay hlog hreplay with ⟨r, hr, hours, hrow⟩
  have henrolled : r.enrolledAt = some w.now := congrArg HostState.enrolledAt hrow
  have hlast : r.lastSeenAt = st.lastSeenAt := congrArg HostState.lastSeenAt hrow
  unfold HostLog.seenJustNow at hlong
  cases hseen : st.lastSeenAt with
  | none =>
      rw [hseen] at hlong
      cases hlong
  | some seen =>
      rw [hseen] at hlong hlast
      have hago : seen + 1 < w.now := Int.not_le.mp (of_decide_eq_false hlong)
      obtain ⟨enrolledAt, hat, hcounted⟩ := h r hr hours (by rw [henrolled]; rfl)
      have hat' : w.now = enrolledAt := Option.some.inj hat
      have hcontact : HostLog.lastTime HostEvent.isContact ((w.now, HostEvent.enrolled n) :: log) =
          some seen := by
        rw [← HostLog.lastSeenAt_eq hreplay]
        exact hseen
      have hrowContact : (mapHost r).lastContact = seen := by
        unfold Storage.Host.lastContact
        change (r.lastSeenAt.or r.enrolledAt).getD r.createdAt = seen
        rw [hlast]
        rfl
      -- Just past the grace since it was seen, and not yet lost.
      let now := max w.now (seen + defaultOfflineAfterSecs + 1)
      let thresholds := StatusThresholds.new 0 (now - seen)
      have hgrace : thresholds.offlineAfterSecs = defaultOfflineAfterSecs :=
        Int.max_eq_right (by decide)
      have hday : 0 < defaultOfflineAfterSecs := by decide
      have hlater : now - seen ≤ thresholds.lostAfterSecs := Int.le_max_left _ _
      have hoffline : (mapHost r).status now thresholds none = HostStatus.offline := by
        apply Storage.Host.status_eq_offline (Option.isSome_of_eq_some henrolled)
        · rw [hgrace, hrowContact]
          omega
        · rw [hrowContact]
          exact hlater
      refine (hcounted now thresholds none).1 ?_ hoffline
      rw [hcontact, hgrace, ← hat']
      simp only [Option.getD_some]
      omega

/-- Silence is counted as it should be, until a host enrolls that was seen more
than a second ago. -/
theorem silence_counted_iff {w : World} (hkeys : HostKeys w.db)
    (habsent : hostState tenantId hostId w.db = none)
    {p : Pool (watched deps tenantId hostId)}
    (hrun : Pool.Run (fun p c => enrollsFound HostLog.seenJustNow p c = true)
      (Pool.init (w, [])) p) :
    SilenceCounted tenantId hostId p.world.1 p.world.2 ∧ forall c q, p.step c = some q ->
      (SilenceCounted tenantId hostId q.world.1 q.world.2 <->
        enrollsFound HostLog.seenJustNow p c = true) := by
  refine iff_of_enrollsFound (fun w log => silenceCounted_of_traced) ?_ hkeys habsent hrun
  intro w log n st hlog hst hlong
  exact silence_miscounted hlog hst hlong

/-- A host enrolls and reports, and after some quiet is revoked and enrolls
again. -/
def comesBackAfter (secs : Nat) : List (Choice (watched Deps.sample 1 "b")) :=
  asks (HttpRequest.createHost hostAdmin) :: steps 0 5 ++
    enrollsWith "b.b" :: steps 1 6 ++
    reportsAllApplied :: steps 2 3 ++
    Choice.env (Tick.mk secs) ::
    asks (HttpRequest.revokeHostCerts hostAdmin "b") :: steps 3 5 ++
    enrollsWith "b.aaab" :: steps 4 6

def enrollsAtAll : List (Choice (watched Deps.sample 1 "b")) :=
  asks (HttpRequest.createHost hostAdmin) :: steps 0 5 ++ enrollsWith "b.b" :: steps 1 6

theorem silence_counted_at_first :
    let q :=
      watchedStart.afterIf (enrollsFound HostLog.seenJustNow) enrollsAtAll (by decide +kernel)
    (q.world.1.db.hosts.map HostRow.enrolledAt) = [some 0] ∧
      SilenceCounted 1 "b" q.world.1 q.world.2 := by
  intro q
  constructor
  · decide +kernel
  · have hkeys : HostKeys watchedStart.world.1.db :=
      ⟨List.nodup_nil, fun h hh => absurd hh List.not_mem_nil⟩
    have hrun : Pool.Run (fun p c => enrollsFound HostLog.seenJustNow p c = true) watchedStart q :=
      Pool.run_afterIf (enrollsFound HostLog.seenJustNow) watchedStart enrollsAtAll
        (by decide +kernel)
    exact (silence_counted_iff hkeys rfl hrun).1

/-- Enrolled this very second, and offline. -/
theorem silence_miscounted_on_return :
    ¬ forall (deps : Deps) (tenantId : Int) (hostId : String) (w : World)
        (p : Pool (watched deps tenantId hostId)),
      HostKeys w.db -> hostState tenantId hostId w.db = none ->
      Pool.Run (fun _ _ => True) (Pool.init (w, [])) p ->
      SilenceCounted tenantId hostId p.world.1 p.world.2 := by
  intro h
  let q := watchedStart.after (comesBackAfter 200000) (by decide +kernel)
  have hcounted : SilenceCounted 1 "b" q.world.1 q.world.2 :=
    h Deps.sample 1 "b" (World.start sampleDb ∅ 0) q
      ⟨List.nodup_nil, fun h hh => absurd hh List.not_mem_nil⟩ rfl
      (Pool.run_after watchedStart (comesBackAfter 200000) (by decide +kernel))
  let thresholds := StatusThresholds.new 300 (7 * 86400)
  have hbad : (q.world.1.db.hosts.any fun r => isHost 1 "b" r && r.enrolledAt.isSome &&
      decide ((mapHost r).status 200000 thresholds none = HostStatus.offline)) = true := by
    decide +kernel
  rcases List.any_eq_true.mp hbad with ⟨r, hr, hbad⟩
  rw [Bool.and_eq_true, Bool.and_eq_true] at hbad
  rcases hcounted r hr hbad.1.1 hbad.1.2 with ⟨enrolledAt, hat, hstatus⟩
  have henrolled : q.world.2.lastTime HostEvent.isEnroll = some 200000 := by decide +kernel
  rw [henrolled] at hat
  cases hat
  refine (hstatus 200000 thresholds none).1 ?_ (of_decide_eq_true hbad.2)
  decide +kernel

/-!
# Convergence
-/

def SyncReported (tenantId : Int) (hostId : String) (w : World) (log : HostLog) : Prop :=
  forall r, r ∈ w.db.hosts -> isHost tenantId hostId r = true ->
    forall now thresholds desired,
      (mapHost r).status now thresholds desired = HostStatus.inSync ->
      exists stateHash, desired = some stateHash ∧
        exists x, x ∈ log.sinceEnroll ∧ x.2 = HostEvent.reported stateHash

theorem syncReported_of_traced (h : Traced tenantId hostId HostLog.unreported (w, log)) :
    SyncReported tenantId hostId w log := by
  intro r hr hours now thresholds desired hsync
  rcases Storage.Host.of_status_inSync hsync with ⟨henrolled, stateHash, hdesired, hcurrent⟩
  have hreplay := replay_of_mem h.toLogged hr hours
  exact ⟨stateHash, hdesired, HostLog.reported_since h.foundBy hreplay henrolled hcurrent⟩

theorem sync_unreported {n : String}
    (hlog : Logged tenantId hostId (w, (w.now, HostEvent.enrolled n) :: log))
    (hst : log.replay = some st) (hcarries : HostLog.unreported w.now st = false) :
    ¬ SyncReported tenantId hostId w ((w.now, HostEvent.enrolled n) :: log) := by
  intro h
  have hreplay : HostLog.replay ((w.now, HostEvent.enrolled n) :: log) =
      some { st with
        enrolledAt := some w.now
        bootstrapNonceHash := none
        bootstrapExpiresAt := none } := by
    unfold HostLog.replay
    rw [hst]
    rfl
  rcases row_of_replay hlog hreplay with ⟨r, hr, hours, hrow⟩
  have henrolled : r.enrolledAt = some w.now := congrArg HostState.enrolledAt hrow
  have hcurrent : r.currentStateHash = st.currentStateHash :=
    congrArg HostState.currentStateHash hrow
  unfold HostLog.unreported at hcarries
  cases hreported : st.currentStateHash with
  | none =>
      rw [hreported] at hcarries
      cases hcarries
  | some stateHash =>
      rw [hreported] at hcurrent
      let thresholds := StatusThresholds.new 0 0
      have hsync : (mapHost r).status (mapHost r).lastContact thresholds (some stateHash) =
          HostStatus.inSync := by
        apply Storage.Host.status_eq_inSync (Option.isSome_of_eq_some henrolled)
        · rw [Int.sub_self]
          decide
        · rw [Int.sub_self]
          decide
        · exact hcurrent
      rcases h r hr hours _ _ _ hsync with ⟨_, _, x, hx, _⟩
      exact absurd hx List.not_mem_nil

/-- Convergence is reported, until a host enrolls whose row carries a report. -/
theorem sync_reported_iff {w : World} (hkeys : HostKeys w.db)
    (habsent : hostState tenantId hostId w.db = none)
    {p : Pool (watched deps tenantId hostId)}
    (hrun : Pool.Run (fun p c => enrollsFound HostLog.unreported p c = true)
      (Pool.init (w, [])) p) :
    SyncReported tenantId hostId p.world.1 p.world.2 ∧ forall c q, p.step c = some q ->
      (SyncReported tenantId hostId q.world.1 q.world.2 <->
        enrollsFound HostLog.unreported p c = true) := by
  refine iff_of_enrollsFound (fun w log => syncReported_of_traced) ?_ hkeys habsent hrun
  intro w log n st hlog hst hcarries
  exact sync_unreported hlog hst hcarries

theorem sync_reported_at_first :
    let q := watchedStart.afterIf (enrollsFound HostLog.unreported)
      (enrollsAtAll ++ reportsAllApplied :: steps 2 3) (by decide +kernel)
    (q.world.1.db.hosts.map HostRow.currentStateHash) = [some appliedHash] ∧
      SyncReported 1 "b" q.world.1 q.world.2 := by
  intro q
  constructor
  · decide +kernel
  · have hkeys : HostKeys watchedStart.world.1.db :=
      ⟨List.nodup_nil, fun h hh => absurd hh List.not_mem_nil⟩
    have hrun : Pool.Run (fun p c => enrollsFound HostLog.unreported p c = true) watchedStart q :=
      Pool.run_afterIf (enrollsFound HostLog.unreported) watchedStart
        (enrollsAtAll ++ reportsAllApplied :: steps 2 3) (by decide +kernel)
    exact (sync_reported_iff hkeys rfl hrun).1

/-- Enrolled this very second, and in sync with what was reported before. -/
theorem sync_unreported_on_return :
    ¬ forall (deps : Deps) (tenantId : Int) (hostId : String) (w : World)
        (p : Pool (watched deps tenantId hostId)),
      HostKeys w.db -> hostState tenantId hostId w.db = none ->
      Pool.Run (fun _ _ => True) (Pool.init (w, [])) p ->
      SyncReported tenantId hostId p.world.1 p.world.2 := by
  intro h
  let q := watchedStart.after (comesBackAfter 60) (by decide +kernel)
  have hreported : SyncReported 1 "b" q.world.1 q.world.2 :=
    h Deps.sample 1 "b" (World.start sampleDb ∅ 0) q
      ⟨List.nodup_nil, fun h hh => absurd hh List.not_mem_nil⟩ rfl
      (Pool.run_after watchedStart (comesBackAfter 60) (by decide +kernel))
  let thresholds := StatusThresholds.new 300 (7 * 86400)
  have hbad : (q.world.1.db.hosts.any fun r => isHost 1 "b" r &&
      decide ((mapHost r).status 60 thresholds (some appliedHash) = HostStatus.inSync)) = true := by
    decide +kernel
  rcases List.any_eq_true.mp hbad with ⟨r, hr, hbad⟩
  rw [Bool.and_eq_true] at hbad
  rcases hreported r hr hbad.1 60 thresholds _ (of_decide_eq_true hbad.2) with ⟨_, _, x, hx, _⟩
  have hnothing : q.world.2.sinceEnroll = [] := by decide +kernel
  rw [hnothing] at hx
  exact absurd hx List.not_mem_nil

end Runs

end Hosts
end FleetServer
