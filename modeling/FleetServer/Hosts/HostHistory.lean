import FleetServer.Hosts.Revocation
import FleetServer.Storage.HostRows
import FleetServer.Storage.HostStatus

/-!
# What has happened to a host

A host's life as a sequence of events, and its row as what they add up to.
Every call of the server is at most one event of a given host; the columns its
status is computed from follow from the events alone.
-/

namespace FleetServer
namespace Hosts

open FleetServer.Core
open Storage
open Table
open Server
open Concurrency

variable {p : HostRow -> Bool} {f : HostRow -> HostRow} {t : Int} {h nonceHash : String}
variable {q : HostState -> Bool} {g : HostState -> HostState} {s : Statement} {w : World}
variable {hostname os : Option String} {cert : EnrolledCert} {e : HostEvent} {op : Op}

/-!
# Events
-/

inductive HostEvent where
  | created (nonceHash : String) (expiresAt : Int)
  | enrolled (nonceHash : String)
  | reissued (nonceHash : String) (expiresAt : Int)
  | seen
  | reported (stateHash : String)
  | deleted
deriving DecidableEq

/-- The columns a host's status and its enrollment depend on. -/
structure HostState where
  enrolledAt : Option Int
  lastSeenAt : Option Int
  currentStateHash : Option String
  bootstrapNonceHash : Option String
  bootstrapExpiresAt : Option Int
deriving DecidableEq

namespace HostEvent

def apply (now : Int) : HostEvent -> Option HostState -> Option HostState
  | created nonceHash expiresAt, _ =>
      some { enrolledAt := none, lastSeenAt := none, currentStateHash := none,
             bootstrapNonceHash := some nonceHash, bootstrapExpiresAt := some expiresAt }
  | enrolled _, s => s.map fun s =>
      { s with enrolledAt := some now, bootstrapNonceHash := none, bootstrapExpiresAt := none }
  | reissued nonceHash expiresAt, s => s.map fun s =>
      { s with
        enrolledAt := none
        bootstrapNonceHash := some nonceHash
        bootstrapExpiresAt := some expiresAt }
  | seen, s => s.map fun s => { s with lastSeenAt := some now }
  | reported stateHash, s => s.map fun s =>
      { s with lastSeenAt := some now, currentStateHash := some stateHash }
  | deleted, _ => none

def Enabled (now : Int) : HostEvent -> Option HostState -> Prop
  | created _ _, s => s = none
  | enrolled nonceHash, s => exists st, s = some st ∧ st.enrolledAt = none ∧
      st.bootstrapNonceHash = some nonceHash ∧ exists e, st.bootstrapExpiresAt = some e ∧ now < e
  | _, s => s.isSome = true

end HostEvent

/-- The events of a host with their times, the latest first. -/
abbrev HostLog : Type := List (Int × HostEvent)

namespace HostLog

def replay : HostLog -> Option HostState
  | [] => none
  | (now, e) :: log => e.apply now (replay log)

/-- Every event was possible when it happened. -/
def Valid : HostLog -> Prop
  | [] => True
  | (now, e) :: log => e.Enabled now (replay log) ∧ Valid log

end HostLog

/-!
# The host's row
-/


def rowState (r : HostRow) : HostState :=
  { enrolledAt := r.enrolledAt, lastSeenAt := r.lastSeenAt,
    currentStateHash := r.currentStateHash, bootstrapNonceHash := r.bootstrapNonceHash,
    bootstrapExpiresAt := r.bootstrapExpiresAt }

def hostState (tenantId : Int) (hostId : String) (db : Db) : Option HostState :=
  (db.hosts.find? (isHost tenantId hostId)).map rowState

structure HostKeys (db : Db) : Prop where
  hostIds : (db.hosts.map HostRow.id).Nodup
  tenantRefs : forall h, h ∈ db.hosts -> db.hasTenant h.tenantId = true

def hostEvent (tenantId : Int) (hostId : String) (w : World) : Op -> Option HostEvent
  | Op.statement (Statement.createPending id t nonceHash expiresAt) =>
      if t = tenantId ∧ id = hostId ∧ w.db.hasTenant t = true ∧ w.db.hasHost id = false then
        some (HostEvent.created nonceHash expiresAt)
      else none
  | Op.statement (Statement.enroll t h nonceHash hostname os cert) =>
      match HostRepo.enroll t h nonceHash hostname os cert w.now w.db with
      | Except.ok (true, _) =>
          if t = tenantId ∧ h = hostId then some (HostEvent.enrolled nonceHash) else none
      | _ => none
  | Op.statement (Statement.deleteHost t h) =>
      match HostRepo.delete t h w.db with
      | Except.ok (true, _) =>
          if t = tenantId ∧ h = hostId then some HostEvent.deleted else none
      | _ => none
  | Op.statement (Statement.revokeCertsAndResetToPending t h nonceHash expiresAt) =>
      if t = tenantId ∧ h = hostId ∧ (hostState t h w.db).isSome = true then
        some (HostEvent.reissued nonceHash expiresAt)
      else none
  | Op.statement (Statement.touchLastSeen t h) =>
      if t = tenantId ∧ h = hostId ∧ (hostState t h w.db).isSome = true then
        some HostEvent.seen
      else none
  | Op.statement (Statement.touchLastSeenIfStale t h staleAfterSecs) =>
      if t = tenantId ∧ h = hostId ∧ (hostState t h w.db).any (fun s =>
          s.lastSeenAt.all fun seen => decide (seen ≤ w.now - staleAfterSecs)) = true then
        some HostEvent.seen
      else none
  | Op.statement (Statement.updateCurrentStateHash t h stateHash) =>
      if t = tenantId ∧ h = hostId ∧ (hostState t h w.db).isSome = true then
        some (HostEvent.reported stateHash)
      else none
  | _ => none

def applyEvent (now : Int) (e : Option HostEvent) (s : Option HostState) : Option HostState :=
  match e with
  | none => s
  | some e => e.apply now s

variable {tenantId : Int} {hostId : String} {db db' : Db} {now : Int}

/-!
# What each statement does to a host
-/

theorem hostState_updateWhere
    (hf : forall r, isHost tenantId hostId (f r) = isHost tenantId hostId r) :
    hostState tenantId hostId { db with hosts := updateWhere p f db.hosts } =
      (db.hosts.find? (isHost tenantId hostId)).map fun r =>
        rowState (if p r then f r else r) := by
  unfold hostState
  change ((updateWhere p f db.hosts).find? _).map _ = _
  rw [find?_updateWhere hf, Option.map_map]
  rfl

theorem hostState_updateOther (hne : ¬ (t = tenantId ∧ h = hostId))
    (hf : forall r, isHost tenantId hostId (f r) = isHost tenantId hostId r) :
    hostState tenantId hostId
      { db with hosts := updateWhere (fun r => isHost t h r && p r) f db.hosts } =
      hostState tenantId hostId db := by
  rw [hostState_updateWhere hf]
  unfold hostState
  cases hfind : db.hosts.find? (isHost tenantId hostId) with
  | none => rfl
  | some r =>
      have hother : isHost t h r = false := by
        rw [Bool.eq_false_iff]
        intro htheirs
        rcases isHost_iff.mp htheirs with ⟨htenant, hid⟩
        rcases isHost_iff.mp (List.find?_some hfind) with ⟨htenant', hid'⟩
        exact hne ⟨htenant.symm.trans htenant', hid.symm.trans hid'⟩
      simp [hother]

theorem hostState_updateUnseen
    (hf : forall r, isHost tenantId hostId (f r) = isHost tenantId hostId r)
    (hstate : forall r, rowState (f r) = rowState r) :
    hostState tenantId hostId { db with hosts := updateWhere p f db.hosts } =
      hostState tenantId hostId db := by
  rw [hostState_updateWhere hf]
  unfold hostState
  congr 1
  funext r
  split
  · exact hstate r
  · rfl

theorem hostState_updateOwn (hf : forall r, isHost tenantId hostId (f r) = isHost tenantId hostId r)
    (hp : forall r, p r = q (rowState r)) (hg : forall r, rowState (f r) = g (rowState r)) :
    hostState tenantId hostId
      { db with hosts := updateWhere (fun r => isHost tenantId hostId r && p r) f db.hosts } =
      (hostState tenantId hostId db).map fun s => if q s then g s else s := by
  rw [hostState_updateWhere hf]
  unfold hostState
  cases hfind : db.hosts.find? (isHost tenantId hostId) with
  | none => rfl
  | some r =>
      have hours := List.find?_some hfind
      simp only [Option.map_some, hours, Bool.true_and, hp r]
      congr 1
      split
      · exact hg r
      · rfl

/-!
## Statements about no host
-/

def setsHosts : Statement -> Bool
  | Statement.createPending _ _ _ _ => true
  | Statement.enroll _ _ _ _ _ _ => true
  | Statement.deleteHost _ _ => true
  | Statement.touchLastSeen _ _ => true
  | Statement.touchLastSeenIfStale _ _ _ => true
  | Statement.setLocalConfigPresent _ _ _ => true
  | Statement.setHostOverrideLast _ _ _ => true
  | Statement.updateCurrentStateHash _ _ _ => true
  | Statement.revokeCertsAndResetToPending _ _ _ _ => true
  | Statement.recordRefusal _ _ _ _ => true
  | Statement.setReportedHash _ _ _ => true
  | Statement.clearReportedHash _ _ => true
  | _ => false

theorem keepsHosts_of_setsHosts (hs : setsHosts s = false) (now : Int) :
    Tx.KeepsHosts (s.tx now) := by
  cases s with
  | bumpConfigVersion tenantId => exact KeepsHosts.bumpConfigVersion tenantId
  | recordCert tenantId hostId cert => exact KeepsHosts.guarded (fun _ => rfl)
  | retireSuperseded tenantId hostId serial =>
      exact KeepsHosts.retireSuperseded tenantId hostId serial now
  | upsertOverride tenantId hostId patchEncrypted priority template updatedByUser =>
      exact KeepsHosts.guarded (fun _ => rfl)
  | deleteOverride tenantId hostId => exact KeepsHosts.total (fun _ => rfl)
  | upsertManualTag tenantId hostId key value => exact KeepsHosts.guarded (fun _ => rfl)
  | deleteManualTag tenantId hostId key => exact KeepsHosts.total (fun _ => rfl)
  | replaceAgentTags tenantId hostId reported =>
      exact KeepsHosts.replaceAgentTags tenantId hostId reported now
  | createGroup id tenantId name selectorJson =>
      have hinsert : forall row, Tx.KeepsHosts (GroupsRepo.insertRow row) :=
        fun _ => KeepsHosts.guarded (fun _ => rfl)
      exact KeepsHosts.bind_ (hinsert _) (fun _ => KeepsHosts.pure_ _)
  | updateGroup tenantId id name selectorJson => exact KeepsHosts.guarded (fun _ => rfl)
  | deleteGroup tenantId id => exact KeepsHosts.guarded (fun _ => rfl)
  | createBundle id tenantId name version sha256 sizeBytes signature format keyFingerprint =>
      exact KeepsHosts.bind_ (KeepsHosts.insertBundle _) (fun _ => KeepsHosts.pure_ _)
  | deleteBundle tenantId id => exact KeepsHosts.deleteBundle tenantId id
  | renameBundle tenantId from_ to_ inPlace moved =>
      exact KeepsHosts.rename tenantId from_ to_ inPlace moved
  | replaceSignature tenantId id signature => exact KeepsHosts.total (fun _ => rfl)
  | assign tenantId groupId bundleId priority => exact KeepsHosts.guarded (fun _ => rfl)
  | unassign tenantId groupId bundleId => exact KeepsHosts.total (fun _ => rfl)
  | applyConfig tenantId plan => exact KeepsHosts.apply tenantId plan now
  | replaceFacts tenantId hostId doc keepHistory =>
      exact KeepsHosts.replaceFacts tenantId hostId doc keepHistory now
  | refreshCollectedAt tenantId hostId source factsHash collectedAt =>
      exact KeepsHosts.total (fun _ => rfl)
  | deleteFacts tenantId hostId source => exact KeepsHosts.total (fun _ => rfl)
  | deleteFactsSource tenantId source => exact KeepsHosts.total (fun _ => rfl)
  | _ => cases hs

theorem hostState_of_sameHosts (h : db.SameHosts db') :
    hostState tenantId hostId db' = hostState tenantId hostId db := by
  have hhosts : db'.hosts = db.hosts := h
  unfold hostState
  rw [hhosts]

/-!
## Statements about a host
-/

theorem hostState_createPending {id : String} {expiresAt : Int} {host : Host}
    (htx : HostRepo.createPending id t nonceHash expiresAt w.now w.db =
      Except.ok (host, db')) :
    hostState tenantId hostId db' = applyEvent w.now
      (hostEvent tenantId hostId w
        (Op.statement (Statement.createPending id t nonceHash expiresAt)))
      (hostState tenantId hostId w.db) := by
  unfold HostRepo.createPending at htx
  simp only at htx
  rcases Tx.guarded_eq_ok.mp htx with ⟨hok, heq⟩
  cases heq
  rw [Bool.and_eq_true, Bool.not_eq_true'] at hok
  have hfind : (w.db.hosts.find? (isHost t id)) = none := by
    rw [List.find?_eq_none]
    intro r hr hours
    have hnone := List.any_eq_false.mp hok.2 r hr
    rw [beq_iff_eq] at hnone
    exact hnone (isHost_iff.mp hours).2
  unfold hostEvent hostState
  simp only [List.find?_append, List.find?_singleton]
  by_cases hsame : t = tenantId ∧ id = hostId
  · rcases hsame with ⟨rfl, rfl⟩
    have hours : isHost t id
        { newHostRow id t w.now with
          bootstrapNonceHash := some nonceHash
          bootstrapExpiresAt := some expiresAt } = true :=
      isHost_iff.mpr ⟨rfl, rfl⟩
    rw [hfind, Option.none_or, if_pos hours, if_pos ⟨rfl, rfl, hok.1, hok.2⟩]
    rfl
  · have hother : isHost tenantId hostId
        { newHostRow id t w.now with
          bootstrapNonceHash := some nonceHash
          bootstrapExpiresAt := some expiresAt } = false := by
      rw [Bool.eq_false_iff]
      exact fun hours => hsame (isHost_iff.mp hours)
    rw [if_neg (by rw [hother]; exact Bool.false_ne_true),
      if_neg (fun h => hsame ⟨h.1, h.2.1⟩), Option.or_none]
    rfl

theorem waitsFor_iff {r : HostRow} :
    HostRepo.waitsFor t h nonceHash now r = true <->
      isHost t h r = true ∧ r.bootstrapNonceHash = some nonceHash ∧ r.enrolledAt = none ∧
        exists e, r.bootstrapExpiresAt = some e ∧ now < e := by
  unfold HostRepo.waitsFor
  rw [Bool.and_eq_true, Bool.and_eq_true, Bool.and_eq_true, beq_iff_eq,
    Option.isNone_iff_eq_none, and_assoc, and_assoc]
  cases r.bootstrapExpiresAt with
  | none => simp
  | some e => simp

theorem enroll_eq_ok (htx : HostRepo.enroll t h nonceHash hostname os cert now db =
      Except.ok (true, db')) :
    (exists r, r ∈ db.hosts ∧ HostRepo.waitsFor t h nonceHash now r = true) ∧
      db' = { db with
        hosts := updateWhere (HostRepo.waitsFor t h nonceHash now)
          (HostRepo.enrolled hostname os now) db.hosts
        hostCerts := db.hostCerts ++ [certRow t h cert] } := by
  unfold HostRepo.enroll at htx
  simp only at htx
  split at htx
  · cases htx
  · rename_i hone
    split at htx
    · cases htx
    · rename_i db'' hinsert
      cases htx
      unfold insertCert at hinsert
      rcases Tx.guarded_eq_ok.mp hinsert with ⟨_, heq⟩
      cases heq
      refine ⟨?_, rfl⟩
      have hpos : 0 < db.hosts.countP (HostRepo.waitsFor t h nonceHash now) := by
        unfold affected at hone
        omega
      rcases List.countP_pos_iff.mp hpos with ⟨r, hr, hwaits⟩
      exact ⟨r, hr, hwaits⟩

theorem enroll_eq_false (htx : HostRepo.enroll t h nonceHash hostname os cert now db =
      Except.ok (false, db')) : db' = db := by
  unfold HostRepo.enroll at htx
  simp only at htx
  split at htx
  · cases htx
    rfl
  · split at htx <;> cases htx

theorem isHost_eq {r s : HostRow} (hr : isHost t h r = true) (hs : isHost t h s = true) :
    r.id = s.id :=
  (isHost_iff.mp hr).2.trans (isHost_iff.mp hs).2.symm

theorem hostState_enroll {answer : Bool} (hw : HostKeys w.db)
    (htx : HostRepo.enroll t h nonceHash hostname os cert w.now w.db =
      Except.ok (answer, db')) :
    hostState tenantId hostId db' = applyEvent w.now
      (hostEvent tenantId hostId w
        (Op.statement (Statement.enroll t h nonceHash hostname os cert)))
      (hostState tenantId hostId w.db) := by
  simp only [hostEvent, htx]
  cases answer with
  | false =>
      rw [enroll_eq_false htx]
      rfl
  | true =>
      rcases enroll_eq_ok htx with ⟨⟨r, hr, hwaits⟩, rfl⟩
      rcases waitsFor_iff.mp hwaits with ⟨hours, hnonce, hpending, hlive⟩
      have hfind : w.db.hosts.find? (isHost t h) = some r :=
        find?_eq_of_mem hw.hostIds (fun _ _ => isHost_eq) hr hours
      have hkept : forall t' h' r',
          isHost t' h' (HostRepo.enrolled hostname os w.now r') = isHost t' h' r' :=
        fun _ _ _ => rfl
      simp only
      by_cases hsame : t = tenantId ∧ h = hostId
      · rcases hsame with ⟨rfl, rfl⟩
        rw [if_pos ⟨rfl, rfl⟩]
        unfold hostState
        change ((updateWhere _ _ w.db.hosts).find? _).map rowState = _
        rw [find?_updateWhere (hkept t h), hfind, Option.map_some, if_pos hwaits]
        rfl
      · rw [if_neg hsame]
        unfold hostState
        change ((updateWhere _ _ w.db.hosts).find? _).map rowState = _
        rw [find?_updateWhere (hkept tenantId hostId)]
        cases hfind' : w.db.hosts.find? (isHost tenantId hostId) with
        | none => rfl
        | some r' =>
            have hother : HostRepo.waitsFor t h nonceHash w.now r' = false := by
              rw [Bool.eq_false_iff]
              intro hwaits'
              rcases isHost_iff.mp (waitsFor_iff.mp hwaits').1 with ⟨htenant, hid⟩
              rcases isHost_iff.mp (List.find?_some hfind') with ⟨htenant', hid'⟩
              exact hsame ⟨htenant.symm.trans htenant', hid.symm.trans hid'⟩
            rw [Option.map_some, hother]
            rfl

theorem hostState_deleteHost {found : Bool}
    (htx : HostRepo.delete t h w.db = Except.ok (found, db')) :
    hostState tenantId hostId db' = applyEvent w.now
      (hostEvent tenantId hostId w (Op.statement (Statement.deleteHost t h)))
      (hostState tenantId hostId w.db) := by
  have heffect : found = w.db.hosts.any (isHost t h) ∧
      db'.hosts = deleteWhere (isHost t h) w.db.hosts := by
    unfold HostRepo.delete at htx
    simp only at htx
    split at htx
    · cases htx
    · cases htx
      exact ⟨rfl, rfl⟩
  rcases heffect with ⟨hfound, hhosts⟩
  simp only [hostEvent, htx]
  unfold hostState
  rw [hhosts]
  by_cases hsame : t = tenantId ∧ h = hostId
  · rcases hsame with ⟨rfl, rfl⟩
    rw [find?_deleteWhere_self]
    cases found with
    | true => simp [applyEvent, HostEvent.apply]
    | false =>
        have hnone : w.db.hosts.find? (isHost t h) = none := by
          rw [List.find?_eq_none]
          intro r hr
          exact List.any_eq_false.mp hfound.symm r hr
        rw [hnone]
        rfl
  · have hother : forall r, isHost tenantId hostId r = true -> isHost t h r = false := by
      intro r hours
      rw [Bool.eq_false_iff]
      intro htheirs
      rcases isHost_iff.mp htheirs with ⟨htenant, hid⟩
      rcases isHost_iff.mp hours with ⟨htenant', hid'⟩
      exact hsame ⟨htenant.symm.trans htenant', hid.symm.trans hid'⟩
    rw [find?_deleteWhere hother]
    cases found with
    | true =>
        simp only
        rw [if_neg hsame]
        rfl
    | false => rfl

theorem hosts_any_iff :
    db.hosts.any (isHost t h) = true <-> (hostState t h db).isSome = true := by
  unfold hostState
  rw [Option.isSome_map, List.find?_isSome, List.any_eq_true]

theorem hostState_set (hf : forall t' h' r, isHost t' h' (f r) = isHost t' h' r)
    (hp : forall r, p r = q (rowState r)) (hg : forall r, rowState (f r) = g (rowState r)) :
    hostState tenantId hostId
        { db with hosts := updateWhere (fun r => isHost t h r && p r) f db.hosts } =
      if t = tenantId ∧ h = hostId then
        (hostState tenantId hostId db).map fun s => if q s then g s else s
      else hostState tenantId hostId db := by
  by_cases hsame : t = tenantId ∧ h = hostId
  · rcases hsame with ⟨rfl, rfl⟩
    rw [if_pos ⟨rfl, rfl⟩]
    exact hostState_updateOwn (hf t h) hp hg
  · rw [if_neg hsame]
    exact hostState_updateOther hsame (hf tenantId hostId)

theorem applyEvent_set (he : forall s, e.apply now (some s) = some (g s)) :
    (if t = tenantId ∧ h = hostId then
        (hostState tenantId hostId db).map fun s => if q s then g s else s
      else hostState tenantId hostId db) =
    applyEvent now
      (if t = tenantId ∧ h = hostId ∧ (hostState t h db).any q = true then some e else none)
      (hostState tenantId hostId db) := by
  by_cases hsame : t = tenantId ∧ h = hostId
  · rcases hsame with ⟨rfl, rfl⟩
    rw [if_pos ⟨rfl, rfl⟩]
    cases hstate : hostState t h db with
    | none =>
        rw [if_neg (fun hall => Bool.false_ne_true hall.2.2)]
        rfl
    | some s =>
        cases hq : q s with
        | true =>
            rw [if_pos ⟨rfl, rfl, hq⟩]
            simp [applyEvent, he, hq]
        | false =>
            rw [if_neg (fun hall => by simp [hq] at hall)]
            simp [applyEvent, hq]
  · rw [if_neg hsame, if_neg (fun hall => hsame ⟨hall.1, hall.2.1⟩)]
    rfl

theorem hostState_event (q : HostState -> Bool) (g : HostState -> HostState)
    (hf : forall t' h' r, isHost t' h' (f r) = isHost t' h' r) (hp : forall r, p r = q (rowState r))
    (hg : forall r, rowState (f r) = g (rowState r))
    (he : forall s, e.apply now (some s) = some (g s)) :
    hostState tenantId hostId
        { db with hosts := updateWhere (fun r => isHost t h r && p r) f db.hosts } =
      applyEvent now
        (if t = tenantId ∧ h = hostId ∧ (hostState t h db).any q = true then some e else none)
        (hostState tenantId hostId db) := by
  rw [hostState_set hf hp hg]
  exact applyEvent_set he

theorem isSome_eq_any {alpha : Type} (o : Option alpha) :
    o.isSome = o.any (fun _ => true) := by
  cases o <;> rfl

theorem hostState_setUnseen (hf : forall t' h' r, isHost t' h' (f r) = isHost t' h' r)
    (hg : forall r, rowState (f r) = rowState r) :
    hostState tenantId hostId
        { db with hosts := updateWhere (fun r => isHost t h r && p r) f db.hosts } =
      hostState tenantId hostId db :=
  hostState_updateUnseen (hf tenantId hostId) hg

theorem hostState_revoke {expiresAt : Int} {revoked : Option Nat}
    (htx : HostRepo.revokeCertsAndResetToPending t h nonceHash expiresAt w.now w.db =
      Except.ok (revoked, db')) :
    hostState tenantId hostId db' = applyEvent w.now
      (hostEvent tenantId hostId w
        (Op.statement (Statement.revokeCertsAndResetToPending t h nonceHash expiresAt)))
      (hostState tenantId hostId w.db) := by
  let f : HostRow -> HostRow := fun r =>
    { r with
      enrolledAt := none
      bootstrapNonceHash := some nonceHash
      bootstrapExpiresAt := some expiresAt }
  let g : HostState -> HostState := fun s =>
    { s with
      enrolledAt := none
      bootstrapNonceHash := some nonceHash
      bootstrapExpiresAt := some expiresAt }
  have hset : hostState tenantId hostId
      { w.db with hosts := updateWhere (fun r => isHost t h r && true) f w.db.hosts } =
      applyEvent w.now
        (if t = tenantId ∧ h = hostId ∧ (hostState t h w.db).any (fun _ => true) = true then
          some (HostEvent.reissued nonceHash expiresAt) else none)
        (hostState tenantId hostId w.db) :=
    hostState_event (fun _ => true) g (fun _ _ _ => rfl) (fun _ => rfl) (fun _ => rfl)
      (fun _ => rfl)
  simp only [hostEvent, isSome_eq_any]
  rw [← hset]
  simp only [Bool.and_true]
  have heq := Tx.total_eq_ok.mp htx
  simp only at heq
  split at heq
  · cases heq
    rfl
  · rename_i hnone
    cases heq
    rw [Bool.not_eq_true, List.any_eq_false] at hnone
    have hsame : updateWhere (isHost t h) f w.db.hosts = w.db.hosts := by
      unfold updateWhere
      conv_rhs => rw [← List.map_id w.db.hosts]
      apply List.map_congr_left
      intro r hr
      rw [if_neg (hnone r hr), id]
    rw [hsame]

theorem hostEvent_of_error {e : DbError} (htx : s.tx w.now w.db = Except.error e) :
    hostEvent tenantId hostId w (Op.statement s) = none := by
  cases s with
  | createPending id t nonceHash expiresAt =>
      change HostRepo.createPending id t nonceHash expiresAt w.now w.db = _ at htx
      unfold HostRepo.createPending Tx.guarded at htx
      simp only at htx
      split at htx
      · cases htx
      · rename_i hno
        simp only [hostEvent]
        rw [if_neg]
        rintro ⟨_, _, htenant, hfresh⟩
        rw [htenant, hfresh] at hno
        exact hno rfl
  | enroll t h nonceHash hostname os cert =>
      change HostRepo.enroll t h nonceHash hostname os cert w.now w.db = _ at htx
      simp only [hostEvent, htx]
  | deleteHost t h =>
      change HostRepo.delete t h w.db = _ at htx
      simp only [hostEvent, htx]
  | touchLastSeen t h => cases htx
  | touchLastSeenIfStale t h staleAfterSecs => cases htx
  | updateCurrentStateHash t h stateHash => cases htx
  | revokeCertsAndResetToPending t h nonceHash expiresAt => cases htx
  | _ => rfl

theorem hostState_exec (hw : HostKeys w.db) :
    hostState tenantId hostId (exec op w).2.db =
      applyEvent w.now (hostEvent tenantId hostId w op) (hostState tenantId hostId w.db) := by
  cases op with
  | statement s =>
      change hostState tenantId hostId (s.exec w).2.db = _
      rcases statement_exec s w with ⟨e, htx, hexec⟩ | ⟨answer, db', htx, hexec⟩
      · rw [hexec, hostEvent_of_error htx]
        rfl
      · rw [hexec]
        change hostState tenantId hostId db' = _
        by_cases hsets : setsHosts s = true
        · cases s with
          | createPending id t nonceHash expiresAt => exact hostState_createPending htx
          | enroll t h nonceHash hostname os cert => exact hostState_enroll hw htx
          | deleteHost t h => exact hostState_deleteHost htx
          | touchLastSeen t h =>
              cases htx
              simp only [hostEvent, isSome_eq_any]
              exact hostState_event (fun _ => true) (fun s => { s with lastSeenAt := some w.now })
                (fun _ _ _ => rfl) (fun _ => rfl) (fun _ => rfl) (fun _ => rfl)
          | touchLastSeenIfStale t h staleAfterSecs =>
              cases htx
              exact hostState_event
                (fun s => s.lastSeenAt.all fun seen => decide (seen ≤ w.now - staleAfterSecs))
                (fun s => { s with lastSeenAt := some w.now })
                (fun _ _ _ => rfl) (fun _ => rfl) (fun _ => rfl) (fun _ => rfl)
          | setLocalConfigPresent t h present =>
              cases htx
              exact hostState_setUnseen (fun _ _ _ => rfl) (fun _ => rfl)
          | setHostOverrideLast t h last =>
              cases htx
              exact hostState_setUnseen (fun _ _ _ => rfl) (fun _ => rfl)
          | updateCurrentStateHash t h stateHash =>
              cases htx
              simp only [hostEvent, isSome_eq_any]
              exact hostState_event (fun _ => true)
                (fun s => { s with lastSeenAt := some w.now, currentStateHash := some stateHash })
                (fun _ _ _ => rfl) (fun _ => rfl) (fun _ => rfl) (fun _ => rfl)
          | revokeCertsAndResetToPending t h nonceHash expiresAt => exact hostState_revoke htx
          | recordRefusal t h status hash =>
              cases htx
              exact hostState_setUnseen (fun _ _ _ => rfl) (fun _ => rfl)
          | setReportedHash t h hash =>
              cases htx
              exact hostState_setUnseen (fun _ _ _ => rfl) (fun _ => rfl)
          | clearReportedHash t h =>
              cases htx
              exact hostState_setUnseen (fun _ _ _ => rfl) (fun _ => rfl)
          | _ => cases hsets
        · rw [Bool.not_eq_true] at hsets
          rw [hostState_of_sameHosts (keepsHosts_of_setsHosts hsets w.now w.db answer db' htx)]
          cases s with
          | _ => first | rfl | cases hsets
  | storeGet t id =>
      rw [exec_storeGet_world]
      rfl
  | _ => rfl

theorem hostEvent_enabled (hw : HostKeys w.db) (he : hostEvent tenantId hostId w op = some e) :
    e.Enabled w.now (hostState tenantId hostId w.db) := by
  unfold hostEvent at he
  split at he
  · split at he
    · rename_i hcond
      cases he
      rcases hcond with ⟨rfl, rfl, _, hfresh⟩
      change (w.db.hosts.find? _).map rowState = none
      rw [Option.map_eq_none_iff, List.find?_eq_none]
      intro r hr hours
      have hnone := List.any_eq_false.mp hfresh r hr
      rw [beq_iff_eq] at hnone
      exact hnone (isHost_iff.mp hours).2
    · cases he
  · split at he
    · rename_i hok
      split at he
      · rename_i hsame
        cases he
        rcases hsame with ⟨rfl, rfl⟩
        rcases enroll_eq_ok hok with ⟨⟨r, hr, hwaits⟩, _⟩
        rcases waitsFor_iff.mp hwaits with ⟨hours, hnonce, hpending, hlive⟩
        refine ⟨rowState r, ?_, hpending, hnonce, hlive⟩
        unfold hostState
        rw [find?_eq_of_mem hw.hostIds (fun _ _ => isHost_eq) hr hours]
        rfl
      · cases he
    · cases he
  · split at he
    · rename_i hok
      split at he
      · rename_i hsame
        cases he
        rcases hsame with ⟨rfl, rfl⟩
        change (hostState _ _ w.db).isSome = true
        rw [← hosts_any_iff]
        unfold HostRepo.delete at hok
        simp only at hok
        split at hok
        · cases hok
        · rw [Except.ok.injEq, Prod.mk.injEq] at hok
          exact hok.1
      · cases he
    · cases he
  · split at he
    · rename_i hcond
      cases he
      rcases hcond with ⟨rfl, rfl, hsome⟩
      exact hsome
    · cases he
  · split at he
    · rename_i hcond
      cases he
      rcases hcond with ⟨rfl, rfl, hsome⟩
      exact hsome
    · cases he
  · split at he
    · rename_i hcond
      cases he
      rcases hcond with ⟨rfl, rfl, hany⟩
      change (hostState _ _ w.db).isSome = true
      cases hstate : hostState _ _ w.db with
      | none =>
          rw [hstate] at hany
          cases hany
      | some s => rfl
    · cases he
  · split at he
    · rename_i hcond
      cases he
      rcases hcond with ⟨rfl, rfl, hsome⟩
      exact hsome
    · cases he
  · cases he

/-!
# The keys of the host table
-/

theorem hasTenant_of_same (hprofiles : db.Same Part.profiles db') (t : Int) :
    db'.hasTenant t = db.hasTenant t := by
  have hsame : db'.tenants.map Tenant.profile = db.tenants.map Tenant.profile := hprofiles
  have hany := congrArg (fun ts : List Tenant => ts.any fun x => x.id == t) hsame
  simp only [List.any_map] at hany
  exact hany

inductive HostsMove (s : Statement) (db db' : Db) : Prop where
  | same (hhosts : db'.hosts = db.hosts)
  | updated (p : HostRow -> Bool) (f : HostRow -> HostRow)
      (hhosts : db'.hosts = updateWhere p f db.hosts)
      (hf : forall r, (f r).id = r.id ∧ (f r).tenantId = r.tenantId)
  | created (row : HostRow) (hhosts : db'.hosts = db.hosts ++ [row])
      (htenant : db.hasTenant row.tenantId = true) (hfresh : db.hasHost row.id = false)
  | deleted (t : Int) (h : String) (hdelete : s = Statement.deleteHost t h)
      (hhosts : db'.hosts = deleteWhere (isHost t h) db.hosts)

theorem hostsMove_of_statement {answer : s.Answer} {db' : Db}
    (htx : s.tx w.now w.db = Except.ok (answer, db')) : HostsMove s w.db db' := by
  by_cases hsets : setsHosts s = true
  · cases s with
    | createPending id t nonceHash expiresAt =>
        change HostRepo.createPending id t nonceHash expiresAt w.now w.db = _ at htx
        unfold HostRepo.createPending at htx
        simp only at htx
        have hcreated := Tx.guarded_eq_ok.mp htx
        have hok := hcreated.1
        rw [Bool.and_eq_true, Bool.not_eq_true'] at hok
        cases hcreated.2
        exact HostsMove.created _ rfl hok.1 hok.2
    | enroll t h nonceHash hostname os cert =>
        cases answer with
        | false => exact HostsMove.same (by rw [enroll_eq_false htx])
        | true =>
            have henrolled := (enroll_eq_ok htx).2
            rw [henrolled]
            exact HostsMove.updated _ _ rfl (fun _ => ⟨rfl, rfl⟩)
    | deleteHost t h =>
        change HostRepo.delete t h w.db = _ at htx
        unfold HostRepo.delete at htx
        simp only at htx
        split at htx
        · cases htx
        · cases htx
          exact HostsMove.deleted t h rfl rfl
    | revokeCertsAndResetToPending t h nonceHash expiresAt =>
        change HostRepo.revokeCertsAndResetToPending t h nonceHash expiresAt w.now w.db =
          _ at htx
        unfold HostRepo.revokeCertsAndResetToPending Tx.total at htx
        simp only at htx
        split at htx
        · cases htx
          exact HostsMove.updated _ _ rfl (fun _ => ⟨rfl, rfl⟩)
        · cases htx
          exact HostsMove.same rfl
    | _ =>
        first
          | (cases htx
             exact HostsMove.updated _ _ rfl (fun _ => ⟨rfl, rfl⟩))
          | cases hsets
  · rw [Bool.not_eq_true] at hsets
    exact HostsMove.same (keepsHosts_of_setsHosts hsets w.now w.db answer db' htx)

/-- Ids stay different, whatever a statement does to the hosts. -/
theorem HostsMove.hostIds (hmove : HostsMove s db db') (hids : (db.hosts.map HostRow.id).Nodup) :
    (db'.hosts.map HostRow.id).Nodup := by
  cases hmove with
  | same hhosts =>
      rw [hhosts]
      exact hids
  | updated p f hhosts hf =>
      rw [hhosts, map_updateWhere_eq (fun r => (hf r).1)]
      exact hids
  | created row hhosts htenant hfresh =>
      rw [hhosts]
      apply nodup_append hids
      intro r hr hsame
      have hnone := List.any_eq_false.mp hfresh r hr
      rw [beq_iff_eq] at hnone
      exact hnone hsame
  | deleted t h hdelete hhosts =>
      rw [hhosts]
      exact nodup_deleteWhere hids _

theorem HostsMove.hostKeys (hmove : HostsMove s db db') (hprofiles : db.Same Part.profiles db')
    (hdb : HostKeys db) : HostKeys db' := by
  constructor
  · exact hmove.hostIds hdb.hostIds
  · intro h hh
    rw [hasTenant_of_same hprofiles]
    cases hmove with
    | same hhosts =>
        rw [hhosts] at hh
        exact hdb.tenantRefs h hh
    | updated p f hhosts hf =>
        rw [hhosts] at hh
        rcases of_mem_updateWhere hh with ⟨r, hr, ⟨_, hrow⟩ | ⟨_, hrow⟩⟩
        · rw [hrow]
          exact hdb.tenantRefs r hr
        · rw [hrow, (hf r).2]
          exact hdb.tenantRefs r hr
    | created row hhosts htenant hfresh =>
        rw [hhosts] at hh
        rcases List.mem_append.mp hh with hold | hnew
        · exact hdb.tenantRefs h hold
        · rw [List.mem_singleton.mp hnew]
          exact htenant
    | deleted t k hdelete hhosts =>
        rw [hhosts] at hh
        exact hdb.tenantRefs h (mem_of_mem_deleteWhere hh)

theorem hostKeys_exec (hw : HostKeys w.db) :
    HostKeys (exec op w).2.db := by
  have hprofiles : w.db.Same Part.profiles (exec op w).2.db :=
    exec_same (profiles_unwritten op) w
  cases op with
  | statement s =>
      change HostKeys (s.exec w).2.db
      change w.db.Same Part.profiles (s.exec w).2.db at hprofiles
      rcases statement_exec s w with ⟨e, htx, hexec⟩ | ⟨answer, db', htx, hexec⟩
      · rw [hexec]
        exact hw
      · rw [hexec] at hprofiles ⊢
        exact (hostsMove_of_statement htx).hostKeys hprofiles hw
  | storeGet t id =>
      rw [exec_storeGet_world]
      exact hw
  | _ => exact hw

/-!
# Watching a host
-/

variable {deps : Deps}

@[reducible] def hostLog (deps : Deps) (tenantId : Int) (hostId : String) :
    Observer (service deps) HostLog where
  onCall := fun op w log =>
    match hostEvent tenantId hostId w op with
    | none => log
    | some e => (w.now, e) :: log
  onEnv := fun _ _ log => log

abbrev watched (deps : Deps) (tenantId : Int) (hostId : String) : Service Op.Res :=
  (service deps).observed (hostLog deps tenantId hostId)

/-- The log tells what the host's row says. -/
structure Logged (tenantId : Int) (hostId : String) (w : World × HostLog) : Prop where
  keys : HostKeys w.1.db
  valid : w.2.Valid
  replayed : hostState tenantId hostId w.1.db = w.2.replay

theorem logged_exec {w : World × HostLog} (hw : Logged tenantId hostId w) :
    Logged tenantId hostId ((watched deps tenantId hostId).machine.exec op w).2 := by
  have hkeys : HostKeys (exec op w.1).2.db := hostKeys_exec hw.keys
  have hstate : hostState tenantId hostId (exec op w.1).2.db =
      applyEvent w.1.now (hostEvent tenantId hostId w.1 op) (hostState tenantId hostId w.1.db) :=
    hostState_exec hw.keys
  change Logged tenantId hostId
    ((exec op w.1).2, (hostLog deps tenantId hostId).onCall op w.1 w.2)
  cases he : hostEvent tenantId hostId w.1 op with
  | none =>
      rw [he] at hstate
      refine ⟨hkeys, ?_, ?_⟩
      · simp only [he]
        exact hw.valid
      · simp only [he]
        exact hstate.trans hw.replayed
  | some e =>
      rw [he] at hstate
      refine ⟨hkeys, ?_, ?_⟩
      · simp only [he]
        have henabled := hostEvent_enabled hw.keys he
        rw [hw.replayed] at henabled
        exact ⟨henabled, hw.valid⟩
      · simp only [he]
        rw [hw.replayed] at hstate
        exact hstate

theorem logged_run (hkeys : HostKeys w.db) (habsent : hostState tenantId hostId w.db = none)
    {Allowed : Pool (watched deps tenantId hostId) -> Choice (watched deps tenantId hostId) -> Prop}
    {p : Pool (watched deps tenantId hostId)} (hrun : Pool.Run Allowed (Pool.init (w, [])) p) :
    Logged tenantId hostId p.world := by
  have hstart : Logged tenantId hostId (w, []) := ⟨hkeys, trivial, habsent⟩
  refine hrun.world_invariant (fun w => Logged tenantId hostId w) ?_ ?_ hstart
  · intro _ _ op _ _ hw
    exact logged_exec hw
  · intro tick w hw
    exact ⟨hw.keys, hw.valid, hw.replayed⟩

end Hosts
end FleetServer
