import FleetServer.Storage.Hosts

/-!
# A host's status

What a host row says at a given time: whether it enrolled, whether it still
calls home, and whether it runs what it should.
-/

namespace FleetServer
namespace Storage

inductive HostStatus where
  | awaitingEnrollment
  | neverEnrolled
  | offline
  | lost
  | outOfSync
  | inSync
deriving DecidableEq

/-- How long a host may stay quiet. -/
structure StatusThresholds where
  offlineAfterSecs : Int
  lostAfterSecs : Int

def defaultOfflineAfterSecs : Int := 24 * 3600

def missedPolls : Int := 3

/-- The offline grace follows slow polls; lost is never before offline. -/
def StatusThresholds.new (minPollIntervalSecs : Nat) (lostAfterSecs : Int) : StatusThresholds :=
  let offlineAfterSecs := max (minPollIntervalSecs * missedPolls) defaultOfflineAfterSecs
  { offlineAfterSecs := offlineAfterSecs
    lostAfterSecs := max lostAfterSecs offlineAfterSecs }

namespace Host

def lastContact (h : Host) : Int :=
  (h.lastSeenAt.or h.enrolledAt).getD h.createdAt

def enrolledStatus (h : Host) (now : Int) (thresholds : StatusThresholds)
    (desiredStateHash : Option String) : HostStatus :=
  let silentFor := now - h.lastContact
  -- The longer silence first: the thresholds may coincide.
  if thresholds.lostAfterSecs < silentFor then HostStatus.lost
  else if thresholds.offlineAfterSecs < silentFor then HostStatus.offline
  else
    match h.currentStateHash, desiredStateHash with
    | some applied, some desired =>
        if applied = desired then HostStatus.inSync else HostStatus.outOfSync
    | _, _ => HostStatus.outOfSync

def status (h : Host) (now : Int) (thresholds : StatusThresholds)
    (desiredStateHash : Option String) : HostStatus :=
  match h.enrolledAt, h.bootstrapExpiresAt with
  | some _, _ => h.enrolledStatus now thresholds desiredStateHash
  | none, some expiresAt =>
      if now < expiresAt then HostStatus.awaitingEnrollment else HostStatus.neverEnrolled
  | none, none => HostStatus.neverEnrolled

variable {h : Host} {now : Int} {thresholds : StatusThresholds}
  {desiredStateHash : Option String}

theorem enrolledStatus_ne_awaiting :
    h.enrolledStatus now thresholds desiredStateHash ≠ HostStatus.awaitingEnrollment := by
  unfold enrolledStatus
  simp only
  split
  · exact HostStatus.noConfusion
  · split
    · exact HostStatus.noConfusion
    · split
      · split <;> exact HostStatus.noConfusion
      · exact HostStatus.noConfusion

theorem status_eq_awaiting :
    h.status now thresholds desiredStateHash = HostStatus.awaitingEnrollment <->
      h.enrolledAt = none ∧ exists e, h.bootstrapExpiresAt = some e ∧ now < e := by
  unfold status
  cases h.enrolledAt with
  | some at_ =>
      constructor
      · intro hstatus
        exact absurd hstatus enrolledStatus_ne_awaiting
      · intro hnone
        cases hnone.1
  | none =>
      cases h.bootstrapExpiresAt with
      | none =>
          constructor
          · intro hstatus
            cases hstatus
          · rintro ⟨_, e, he, _⟩
            cases he
      | some expiresAt =>
          simp only [Option.some.injEq, exists_eq_left', true_and]
          constructor
          · intro hstatus
            by_contra hlate
            rw [if_neg hlate] at hstatus
            cases hstatus
          · intro hlive
            rw [if_pos hlive]

theorem of_status_offline (hstatus : h.status now thresholds desiredStateHash =
      HostStatus.offline) :
    h.enrolledAt.isSome = true ∧ thresholds.offlineAfterSecs < now - h.lastContact := by
  unfold status at hstatus
  split at hstatus
  · rename_i at_ _ henrolled
    rw [henrolled]
    refine ⟨rfl, ?_⟩
    unfold enrolledStatus at hstatus
    simp only at hstatus
    split at hstatus
    · cases hstatus
    · split at hstatus
      · assumption
      · split at hstatus
        · split at hstatus <;> cases hstatus
        · cases hstatus
  · split at hstatus <;> cases hstatus
  · cases hstatus

theorem of_status_lost (hstatus : h.status now thresholds desiredStateHash =
      HostStatus.lost) :
    h.enrolledAt.isSome = true ∧ thresholds.lostAfterSecs < now - h.lastContact := by
  unfold status at hstatus
  split at hstatus
  · rename_i at_ _ henrolled
    rw [henrolled]
    refine ⟨rfl, ?_⟩
    unfold enrolledStatus at hstatus
    simp only at hstatus
    split at hstatus
    · assumption
    · split at hstatus
      · cases hstatus
      · split at hstatus
        · split at hstatus <;> cases hstatus
        · cases hstatus
  · split at hstatus <;> cases hstatus
  · cases hstatus

theorem status_of_enrolled (henrolled : h.enrolledAt.isSome = true) :
    h.status now thresholds desiredStateHash =
      h.enrolledStatus now thresholds desiredStateHash := by
  unfold status
  rcases Option.isSome_iff_exists.mp henrolled with ⟨at_, hat⟩
  rw [hat]

theorem status_eq_offline (henrolled : h.enrolledAt.isSome = true)
    (hlong : thresholds.offlineAfterSecs < now - h.lastContact)
    (hfound : now - h.lastContact ≤ thresholds.lostAfterSecs) :
    h.status now thresholds desiredStateHash = HostStatus.offline := by
  rw [status_of_enrolled henrolled]
  unfold enrolledStatus
  simp only
  rw [if_neg (Int.not_lt.mpr hfound), if_pos hlong]

theorem status_eq_inSync {desired : String} (henrolled : h.enrolledAt.isSome = true)
    (hcalls : now - h.lastContact ≤ thresholds.offlineAfterSecs)
    (hfound : now - h.lastContact ≤ thresholds.lostAfterSecs)
    (hcurrent : h.currentStateHash = some desired) :
    h.status now thresholds (some desired) = HostStatus.inSync := by
  rw [status_of_enrolled henrolled]
  unfold enrolledStatus
  simp only
  rw [if_neg (Int.not_lt.mpr hfound), if_neg (Int.not_lt.mpr hcalls), hcurrent]
  exact if_pos rfl

theorem of_status_inSync (hstatus : h.status now thresholds desiredStateHash =
      HostStatus.inSync) :
    h.enrolledAt.isSome = true ∧ exists desired, desiredStateHash = some desired ∧
      h.currentStateHash = some desired := by
  unfold status at hstatus
  split at hstatus
  · rename_i at_ _ henrolled
    rw [henrolled]
    refine ⟨rfl, ?_⟩
    unfold enrolledStatus at hstatus
    simp only at hstatus
    split at hstatus
    · cases hstatus
    · split at hstatus
      · cases hstatus
      · split at hstatus
        · rename_i applied desired happlied
          split at hstatus
          · rename_i hsame
            exact ⟨desired, rfl, by rw [happlied, hsame]⟩
          · cases hstatus
        · cases hstatus
  · split at hstatus <;> cases hstatus
  · cases hstatus

end Host

end Storage
end FleetServer
