import FleetServer.Facts.Grace

/-!
# Clearing an inventory

The exchange of facts hashes keeps to the grace period as long as nothing
interferes between what a request reads and what it writes.
-/

namespace FleetServer
namespace Facts

open FleetServer.Core
open Storage
open Server
open Concurrency
open Agent

variable {tenantId : Int} {hostId : String} {db : Db} {deps : Deps} {i : Nat}
  {request : Request} {op : Op} {v : World}
variable {hashes : FactsHashes} {now : Int} {ctx : PeerHostContext} {admitted : Bool}

/-!
# The contract

Each call is on time; and one that clears the inventory does so when the host has
said for the whole grace period that its document is empty.
-/

theorem spared_refl (i : Nat) (x : World × FactsLog) : Spared tenantId hostId i x x :=
  ⟨fun _ h => h, Int.le_refl _⟩

theorem spared_trans (i : Nat) (x y z : World × FactsLog) (hxy : Spared tenantId hostId i x y)
    (hyz : Spared tenantId hostId i y z) : Spared tenantId hostId i x z :=
  ⟨fun bound h => hyz.licensed bound (hxy.licensed bound h), Int.le_trans hxy.now hyz.now⟩

theorem grace_env (tick : Tick) (x : World × FactsLog) (hx : Vouched tenantId hostId x) :
    Vouched tenantId hostId (tick.on x.1, x.2) ∧
      forall i, Spared tenantId hostId i x (tick.on x.1, x.2) := by
  have hnow : x.1.now ≤ (tick.on x.1).now := Int.le_add_of_nonneg_right (Int.natCast_nonneg _)
  constructor
  · constructor
    · exact hx.keys
    · exact fun said hsaid => Int.le_trans (hx.past said hsaid) hnow
    · exact hx.reported
  · exact fun i => ⟨fun _ h => h, hnow⟩

@[reducible] def graceContract (deps : Deps) (tenantId : Int) (hostId : String) :
    Contract (exchanges deps tenantId hostId) where
  Inv := Vouched tenantId hostId
  Rely := Spared tenantId hostId
  May := fun i request op x v =>
    onTime deps tenantId hostId i request op x.1.db v.db x.2 = true
  Guar := fun i request op x v =>
    agentCall op = true ∧
      onTime deps tenantId hostId i request op x.1.db v.db x.2 = true ∧
      (cleared tenantId hostId x.1.db v.db = true -> GraceOver x.2 x.1.now)
  refl := spared_refl
  trans := spared_trans
  inv_call := fun _ _ _ _ _ _ hx houtcome hguar =>
    vouched_call hguar.1 hx houtcome hguar.2.1
  rely_call := fun _ _ _ _ _ _ _ hij _ houtcome hguar =>
    spared_call hguar.1 houtcome (Or.inl hij)
  env := grace_env

variable {x y : World × FactsLog}

theorem takesUp_of_quiet (h : quiet op = true) : takesUp tenantId hostId op = false := by
  cases op with
  | query q =>
      cases q with
      | _ =>
          first
          | rfl
          | cases h
  | _ => rfl

theorem guar_quiet {a : op.Res} (hop : quiet op = true) (hx : Vouched tenantId hostId x)
    (h : Outcome machine op x.1 a v)
    (hmay : onTime deps tenantId hostId i request op x.1.db v.db x.2 = true) :
    (graceContract deps tenantId hostId).Guar i request op x v := by
  have hcall := agentCall_of_quiet hop
  refine ⟨hcall, hmay, fun hcleared => ?_⟩
  have hheld := (@outcome_held tenantId hostId op x.1 v a hcall hx.keys h).2
  rcases hheld with hsame | ⟨doc, keep, hreplace, _⟩
  · rw [not_cleared hsame] at hcleared
    cases hcleared
  · rw [hreplace] at hop
    cases hop

/-!
## Walking through requests
-/

section Walk

abbrev Obeys (deps : Deps) (tenantId : Int) (hostId : String) (i : Nat) (request : Request)
    {alpha : Type} (p : Prog alpha) (x : World × FactsLog) : Prop :=
  (graceContract deps tenantId hostId).Obeys i request p x

variable {alpha beta : Type}

theorem obeys_call {next : op.Res -> Prog alpha} (hop : quiet op = true)
    (hnext : forall a y, Spared tenantId hostId i x y ->
      Obeys deps tenantId hostId i request (next a) y) :
    Obeys deps tenantId hostId i request (Program.call op next) x := by
  intro y hinv hrely a v houtcome hmay
  constructor
  · exact guar_quiet hop hinv houtcome hmay
  · apply hnext
    have hown : Spared tenantId hostId i y
        (v, (exchanges deps tenantId hostId).onCall i request op y.1 v y.2) :=
      spared_call (agentCall_of_quiet hop) houtcome (Or.inr (takesUp_of_quiet hop))
    exact spared_trans i x y _ hrely hown

theorem obeys_quiet {p : Prog alpha} (hp : Quiet p) (x : World × FactsLog) :
    Obeys deps tenantId hostId i request p x := by
  induction p generalizing x with
  | done a => trivial
  | call op next ih => exact obeys_call hp.1 (fun a y _ => ih a (hp.2 a) y)

theorem obeys_askOr {q : Query} {failed : beta} {next : q.Answer -> Prog beta}
    (hq : quiet (Op.query q) = true)
    (hnext : forall a y, Obeys deps tenantId hostId i request (next a) y) :
    Obeys deps tenantId hostId i request (askOr q failed next) x := by
  apply obeys_call hq
  intro a y _
  cases a with
  | error e => trivial
  | ok a => exact hnext a y

theorem obeys_executeOr {s : Statement} {failed : beta} {next : s.Answer -> Prog beta}
    (hs : quiet (Op.statement s) = true)
    (hnext : forall a y, Obeys deps tenantId hostId i request (next a) y) :
    Obeys deps tenantId hostId i request (executeOr s failed next) x := by
  apply obeys_call hs
  intro a y _
  cases a with
  | error e => trivial
  | ok a => exact hnext a y

theorem obeys_first {p : Prog alpha} {f : alpha -> Prog beta} (hp : Quiet p)
    (hf : forall a y, Obeys deps tenantId hostId i request (f a) y) :
    Obeys deps tenantId hostId i request (p >>= f) x :=
  Contract.obeys_bind (obeys_quiet hp x) hf

/-- The clock is read later than anything before it. -/
theorem obeys_now {f : Int -> Prog alpha}
    (hf : forall (now : Int) (y : World × FactsLog), Spared tenantId hostId i x y ->
      now ≤ y.1.now -> Obeys deps tenantId hostId i request (f now) y) :
    Obeys deps tenantId hostId i request (Program.call Op.nowUnix f) x := by
  intro y hinv hrely a v houtcome hmay
  constructor
  · exact guar_quiet rfl hinv houtcome hmay
  · have hown : Spared tenantId hostId i y
        (v, (exchanges deps tenantId hostId).onCall i request Op.nowUnix y.1 v y.2) :=
      spared_call rfl houtcome (Or.inr rfl)
    apply hf a _ (spared_trans i x y _ hrely hown)
    rcases outcome_cases houtcome with ⟨ha, _⟩ | ⟨ha, _⟩
    · rw [ha]
      exact hown.now
    · cases ha

/-!
## Storing
-/

/-- What the request decided to do is still right when nothing interferes. -/
def Due (tenantId : Int) (hostId : String) (i : Nat) (x : World × FactsLog) : Prop :=
  exists bound, Licensed tenantId hostId i bound x ∧ emptyClearGraceSecs ≤ x.1.now - bound

theorem due_spared (h : Due tenantId hostId i x) (hspared : Spared tenantId hostId i x y) :
    Due tenantId hostId i y := by
  rcases h with ⟨bound, hlicensed, hgrace⟩
  refine ⟨bound, hspared.licensed bound hlicensed, ?_⟩
  have hnow := hspared.now
  omega

theorem graceOver_of_due (h : Due tenantId hostId i x) (hunbroken : unbroken i x.2 = true)
    (hinventory : inventory tenantId hostId x.1.db = true) : GraceOver x.2 x.1.now := by
  rcases h with ⟨bound, hlicensed, hgrace⟩
  rcases hlicensed hunbroken hinventory with ⟨said, hsaid, hbound⟩
  refine ⟨said, hsaid, ?_⟩
  omega

variable {t : Int} {h source hash json : String} {collectedAt : Option String}

theorem obeys_replace {doc : NewFacts} {keep : Int}
    {next : Except DbError ReplaceOutcome -> Prog alpha}
    (hdue : tenantId = t -> hostId = h -> doc.factsHash = emptyFactsHash ->
      Due tenantId hostId i x)
    (hnext : forall a y, Spared tenantId hostId i x y ->
      Obeys deps tenantId hostId i request (next a) y) :
    Obeys deps tenantId hostId i request
      (Program.call (Op.statement (Statement.replaceFacts t h doc keep)) next) x := by
  intro y hinv hrely a v houtcome hmay
  constructor
  · refine ⟨rfl, hmay, fun hcleared => ?_⟩
    have hboth := cleared_iff.mp hcleared
    rcases (@outcome_held tenantId hostId _ y.1 v a rfl hinv.keys houtcome).2 with
      hsame | ⟨doc', keep', hreplace, _, hheld⟩
    · rw [not_cleared hsame] at hcleared
      cases hcleared
    · cases hreplace
      have hempty : doc.factsHash = emptyFactsHash :=
        Option.some.inj (hheld.symm.trans hboth.2)
      have hdue := due_spared (hdue rfl rfl hempty) hrely
      exact graceOver_of_due hdue (onTime_cleared hmay hcleared) hboth.1
  · apply hnext
    have hown : Spared tenantId hostId i y
        (v, (exchanges deps tenantId hostId).onCall i request
          (Op.statement (Statement.replaceFacts t h doc keep)) y.1 v y.2) :=
      spared_call rfl houtcome (Or.inr rfl)
    exact spared_trans i x y _ hrely hown

theorem obeys_storeRounds (rounds : Nat)
    (hdue : tenantId = t -> hostId = h -> hash = emptyFactsHash -> Due tenantId hostId i x) :
    Obeys deps tenantId hostId i request
      (storeRounds deps t h source hash json collectedAt rounds) x := by
  induction rounds generalizing x with
  | zero => trivial
  | succ rounds ih =>
      apply obeys_call rfl
      intro a y hy
      cases a with
      | error e => trivial
      | ok previous =>
          unfold onOk
          simp only
          split
          · trivial
          · split
            · trivial
            · apply obeys_replace
              · exact fun ht hh hempty => due_spared (hdue ht hh hempty) hy
              · intro outcome z hz
                cases outcome with
                | error e => trivial
                | ok outcome =>
                    cases outcome with
                    | stored =>
                        exact obeys_call rfl (fun _ _ _ => obeys_call rfl (fun _ _ _ => trivial))
                    | unchanged => trivial
                    | noHost => trivial
                    | conflict =>
                        apply ih
                        intro ht hh hempty
                        exact due_spared (due_spared (hdue ht hh hempty) hy) hz

/-!
## Taking up what the host says
-/

/-- What the hashes read when a request was taken up say about later. -/
structure Looked (tenantId : Int) (hostId : String) (i : Nat) (hashes : FactsHashes)
    (x : World × FactsLog) : Prop where
  reported : forall since, reportedEmpty hashes = some since ->
    Licensed tenantId hostId i since x
  bare : holdsInventory hashes = false -> forall bound, Licensed tenantId hostId i bound x

theorem looked_spared (h : Looked tenantId hostId i hashes x)
    (hspared : Spared tenantId hostId i x y) : Looked tenantId hostId i hashes y :=
  ⟨fun since hsince => hspared.licensed since (h.reported since hsince),
    fun hbare bound => hspared.licensed bound (h.bare hbare bound)⟩

theorem inventory_hashes (h : HostFactsRepo.hashes tenantId hostId db = some hashes) :
    inventory tenantId hostId db = holdsInventory hashes ∧
      emptyReport tenantId hostId db = reportedEmpty hashes := by
  constructor
  · unfold HostFactsRepo.hashes at h
    rcases Option.map_eq_some_iff.mp h with ⟨r, _, heq⟩
    rw [← heq]
    rfl
  · unfold emptyReport
    rw [h]
    rfl

theorem obeys_lookup {next : Except DbError (Option FactsHashes) -> Prog alpha}
    (hnext : forall a y,
      (tenantId = t -> hostId = h -> advertises deps request = some emptyFactsHash ->
        forall hashes, a = Except.ok (some hashes) -> Looked tenantId hostId i hashes y) ->
      Obeys deps tenantId hostId i request (next a) y) :
    Obeys deps tenantId hostId i request
      (Program.call (Op.query (Query.factsHashes t h)) next) x := by
  intro y hinv hrely a v houtcome hmay
  have hv : v = y.1 ∧ forall hashes, a = Except.ok (some hashes) ->
      HostFactsRepo.hashes t h y.1.db = some hashes := by
    rcases outcome_cases houtcome with ⟨ha, hv⟩ | ⟨ha, hv⟩
    · constructor
      · exact hv
      · intro hashes hok
        rw [hok] at ha
        exact (Except.ok.inj ha).symm
    · constructor
      · exact hv
      · intro hashes hok
        rw [hok] at ha
        cases ha
  rcases hv with ⟨rfl, hread⟩
  constructor
  · refine ⟨rfl, hmay, fun hcleared => ?_⟩
    rw [not_cleared rfl] at hcleared
    cases hcleared
  · apply hnext
    intro ht hh hclaims hashes hok
    subst ht hh
    have hhashes := inventory_hashes (hread hashes hok)
    have htakes : takesUp tenantId hostId (Op.query (Query.factsHashes tenantId hostId)) =
        true := by
      simp [takesUp]
    rw [recorded_takesUp htakes]
    constructor
    · intro since hsince _ _
      rw [← hhashes.2] at hsince
      rcases onTime_takesUp hmay htakes hclaims hsince with ⟨said, hsaid⟩
      refine ⟨said, ?_, hinv.reported since said hsince hsaid⟩
      unfold saidEmptySince
      rw [if_pos hclaims, hsaid]
      rfl
    · intro hbare bound _ hinventory
      rw [← hhashes.1] at hbare
      rw [hbare] at hinventory
      cases hinventory

theorem emptyOverInventory_due (h : emptyOverInventory hashes hash now = EmptyOverInventory.due) :
    hash = emptyFactsHash ∧
      exists since, reportedEmpty hashes = some since ∧ emptyClearGraceSecs ≤ now - since := by
  unfold emptyOverInventory at h
  split at h
  · cases h
  · rename_i hempty
    rw [Bool.or_eq_true, decide_eq_true_eq, not_or, not_not] at hempty
    refine ⟨hempty.1, ?_⟩
    split at h
    · rename_i hlong
      unfold emptyForLongEnough at hlong
      rw [Bool.and_eq_true, beq_iff_eq] at hlong
      cases hsince : hashes.reportedSince with
      | none =>
          rw [hsince] at hlong
          cases hlong.2
      | some since =>
          rw [hsince] at hlong
          refine ⟨since, ?_, of_decide_eq_true hlong.2⟩
          unfold reportedEmpty
          rw [if_pos hlong.1, hsince]
    · cases h

theorem emptyOverInventory_notApplicable
    (h : emptyOverInventory hashes emptyFactsHash now = EmptyOverInventory.notApplicable) :
    holdsInventory hashes = false := by
  unfold emptyOverInventory at h
  split at h
  · rename_i hnot
    rw [Bool.or_eq_true, decide_eq_true_eq, Bool.not_eq_true'] at hnot
    rcases hnot with hne | hbare
    · exact absurd rfl hne
    · exact hbare
  · split at h
    · cases h
    · cases h

/-- What a request does that does not wait. -/
theorem due_of_looked (hnow : now ≤ x.1.now) (hlooked : Looked tenantId hostId i hashes x)
    (hgo : emptyOverInventory hashes emptyFactsHash now ≠ EmptyOverInventory.pending) :
    Due tenantId hostId i x := by
  cases hwhich : emptyOverInventory hashes emptyFactsHash now with
  | pending => exact absurd hwhich hgo
  | due =>
      rcases (emptyOverInventory_due hwhich).2 with ⟨since, hsince, hgrace⟩
      refine ⟨since, hlooked.reported since hsince, ?_⟩
      omega
  | notApplicable =>
      have hbare := emptyOverInventory_notApplicable hwhich
      refine ⟨x.1.now - emptyClearGraceSecs, hlooked.bare hbare _, ?_⟩
      omega

/-!
## The exchange
-/

theorem obeys_clearWhenDue {reported : String} (hnow : now ≤ x.1.now)
    (hlooked : tenantId = t -> hostId = h -> reported = emptyFactsHash ->
      Looked tenantId hostId i hashes x) :
    Obeys deps tenantId hostId i request (clearWhenDue deps t h reported hashes now) x := by
  unfold clearWhenDue
  split
  · trivial
  · trivial
  · rename_i hdue
    apply Contract.obeys_bind
    · apply obeys_storeRounds
      intro ht hh _
      have hreported := (emptyOverInventory_due hdue).1
      apply due_of_looked hnow (hlooked ht hh hreported)
      rw [hreported] at hdue
      rw [hdue]
      exact fun hpending => by cases hpending
    · intro outcome y
      split <;> trivial

theorem obeys_advertise {reported : Option String}
    (hclaims : tenantId = t -> hostId = h ->
      advertises deps request = reported.bind normalizeHash) :
    Obeys deps tenantId hostId i request (advertise deps t h reported) x := by
  unfold advertise
  cases hnormal : reported.bind normalizeHash with
  | none =>
      apply Contract.obeys_bind
      · apply obeys_lookup
        intro a y _
        cases a with
        | error e => trivial
        | ok hashes =>
            unfold onOk
            simp only
            split
            · exact obeys_call rfl (fun _ _ _ => trivial)
            · trivial
      · exact fun _ _ => trivial
  | some said =>
      apply obeys_lookup
      intro a y hlooked
      cases a with
      | error e => trivial
      | ok found =>
          cases found with
          | none => trivial
          | some hashes =>
              have hlooked : tenantId = t -> hostId = h -> said = emptyFactsHash ->
                  Looked tenantId hostId i hashes y := by
                intro ht hh hempty
                apply hlooked ht hh _ hashes rfl
                rw [hclaims ht hh, hnormal, hempty]
              have hrest : forall z, Spared tenantId hostId i y z ->
                  Obeys deps tenantId hostId i request
                    (Program.call Op.nowUnix fun now =>
                      clearWhenDue deps t h said hashes now >>= fun advertised =>
                        Program.done (some (advertised.getD factsHashNone))) z := by
                intro z hz
                apply obeys_now
                intro now u hu hnow
                apply Contract.obeys_bind
                · apply obeys_clearWhenDue hnow
                  intro ht hh hempty
                  exact looked_spared (hlooked ht hh hempty) (spared_trans i y z u hz hu)
                · exact fun _ _ => trivial
              have hwhole : Obeys deps tenantId hostId i request
                  (recordReported t h said hashes >>= fun _ =>
                    Program.call Op.nowUnix fun now =>
                      clearWhenDue deps t h said hashes now >>= fun advertised =>
                        Program.done (some (advertised.getD factsHashNone))) y := by
                unfold recordReported
                split
                · exact obeys_call rfl (fun _ z hz => hrest z hz)
                · exact hrest y (spared_refl i y)
              exact hwhole

theorem quiet_uploadAccepted (ctx : PeerHostContext) (upload : FactsUpload) :
    Quiet (uploadAccepted ctx upload) := ⟨rfl, fun _ => trivial⟩

theorem obeys_uploadParsed {upload : FactsUpload}
    (hclaims : tenantId = ctx.tenantId -> hostId = ctx.hostId ->
      advertises deps request = some upload.factsHash) :
    Obeys deps tenantId hostId i request (uploadParsed deps ctx upload) x := by
  apply obeys_lookup
  intro a y hlooked
  cases a with
  | error e => trivial
  | ok found =>
      cases found with
      | none => trivial
      | some hashes =>
          unfold onOk
          simp only
          split
          · have hrefresh : Quiet (refreshCollected ctx upload) := by
              unfold refreshCollected
              split
              · trivial
              · exact ⟨rfl, fun _ => trivial⟩
            exact obeys_first hrefresh (fun _ y => obeys_quiet (quiet_uploadAccepted ctx upload) y)
          · apply obeys_now
            intro now z hz hnow
            simp only [Program.bind]
            split
            · exact obeys_quiet (quiet_uploadAccepted ctx upload) z
            · rename_i hgo
              apply Contract.obeys_bind
              · apply obeys_storeRounds
                intro ht hh hempty
                rw [hempty] at hgo
                apply due_of_looked hnow _ hgo
                apply looked_spared _ hz
                apply hlooked ht hh _ hashes rfl
                rw [hclaims ht hh, hempty]
              · intro outcome u
                split
                · exact obeys_quiet (quiet_uploadAccepted ctx upload) u
                · exact obeys_quiet (quiet_uploadAccepted ctx upload) u
                · trivial
                · trivial
                · trivial

theorem obeys_upload {body : UploadBody} :
    Obeys deps tenantId hostId i
      (Request.http (HttpRequest.agent ctx admitted (AgentRequest.uploadFacts body)))
      (upload deps ctx body) x := by
  have hrefuse : forall status hash message, Quiet (refuse ctx status hash message) :=
    fun _ _ _ => ⟨rfl, fun _ => trivial⟩
  cases body with
  | tooLarge => exact obeys_quiet (hrefuse _ _ _) x
  | unreadable => trivial
  | bytes body =>
      unfold upload
      cases hparse : deps.parseUpload body with
      | error e =>
          simp only [hparse]
          exact obeys_quiet (hrefuse _ _ _) x
      | ok parsed =>
          simp only [hparse]
          apply obeys_uploadParsed
          intro _ _
          show (deps.parseUpload body).toOption.map FactsUpload.factsHash = _
          rw [hparse]
          rfl

/-!
## Agents' requests
-/

theorem obeys_desiredState {q : DesiredStateQuery}
    (hclaims : advertises deps request = q.factsHash.bind normalizeHash) :
    Obeys deps tenantId hostId i request (desiredState deps ctx q) x := by
  apply obeys_call rfl
  intro tenant y _
  have hseen : Quiet (executeLogged (Statement.touchLastSeenIfStale ctx.tenantId ctx.hostId
      lastSeenRefreshSecs)) := ⟨rfl, fun _ => trivial⟩
  apply obeys_first hseen
  intro _ z
  apply Contract.obeys_bind
  · exact obeys_advertise (fun _ _ => hclaims)
  · intro header u
    apply Contract.obeys_bind
    · exact obeys_quiet (quiet_computeForPoll deps ctx _) u
    · intro computed _
      cases computed with
      | error e => trivial
      | ok state => trivial

theorem obeys_reportTags {body : StateReport}
    (hclaims : advertises deps request = body.factsHash.bind normalizeHash) :
    Obeys deps tenantId hostId i request (reportTags deps ctx body) x := by
  have hfacts : forall y, Obeys deps tenantId hostId i request (reportFacts deps ctx body) y :=
    fun _ => Contract.obeys_bind (obeys_advertise (fun _ _ => hclaims)) (fun _ _ => trivial)
  unfold reportTags
  split
  · exact hfacts x
  · split
    · trivial
    · apply obeys_executeOr rfl
      intro changed y
      cases changed with
      | false => exact hfacts y
      | true => exact obeys_call rfl (fun _ z _ => hfacts z)

theorem obeys_stateReport {body : StateReport}
    (hclaims : advertises deps request = body.factsHash.bind normalizeHash) :
    Obeys deps tenantId hostId i request (stateReport deps ctx body) x := by
  have hrest : forall y, Obeys deps tenantId hostId i request (reportRest deps ctx body) y :=
    fun _ => obeys_first (quiet_reportFlags ctx body) (fun _ _ => obeys_reportTags hclaims)
  unfold stateReport
  split
  · split
    · trivial
    · exact obeys_executeOr rfl (fun _ y => hrest y)
  · exact obeys_call rfl (fun _ y _ => hrest y)

theorem obeys_agentHandler {n : Nat} (r : AgentRequest) :
    Obeys deps tenantId hostId i (Request.http (HttpRequest.agent ctx admitted r))
      (agentHandler deps n ctx r) x := by
  cases r with
  | heartbeat => exact obeys_quiet (quiet_heartbeat ctx) x
  | desiredState q => exact obeys_desiredState rfl
  | stateReport body => exact obeys_stateReport rfl
  | renew csrPem => exact obeys_quiet (quiet_renew deps n ctx csrPem) x
  | download bundleId => exact obeys_quiet (quiet_download deps ctx bundleId) x
  | uploadFacts body => exact obeys_upload

theorem obeys_tierLayer {next : Prog Response}
    (hnext : forall y, Obeys deps tenantId hostId i request next y) :
    Obeys deps tenantId hostId i request (tierLayer ctx admitted next) x := by
  apply obeys_askOr rfl
  intro standing y
  split
  · trivial
  · apply obeys_first (quiet_retireIfSuperseded ctx standing)
    intro _ z
    apply obeys_askOr rfl
    intro tenant u
    cases tenant with
    | none => trivial
    | some tenant =>
        simp only
        split
        · trivial
        · exact hnext u

theorem obeys_program {n : Nat} (r : AgentRequest) :
    Obeys deps tenantId hostId i (Request.http (HttpRequest.agent ctx admitted r))
      (program deps n (Request.http (HttpRequest.agent ctx admitted r))) x :=
  Contract.obeys_bind (obeys_tierLayer (fun _ => obeys_agentHandler r)) (fun _ _ => trivial)

end Walk

/-!
# Every interleaving
-/

/-- As long as every step is on time, an inventory is cleared only after the host
has said for the whole grace period that its document is empty. -/
theorem cleared_when_on_time (deps : Deps) (tenantId : Int) (hostId : String) {w : World}
    {log note : FactsLog} (hstart : Vouched tenantId hostId (w, log))
    {p q : Pool (service deps)} {c : Choice (service deps)}
    (hrun : Recorded (exchanges deps tenantId hostId)
      (fun p log c q => ofAgents c = true ∧ stepOnTime deps tenantId hostId p log c q = true)
      (Pool.init w) log p note)
    (hontime : stepOnTime deps tenantId hostId p note c q = true)
    (hstep : p.step c = some q)
    (hcleared : cleared tenantId hostId p.world.db q.world.db = true) :
    GraceOver note p.world.now := by
  have hmay : forall (p : Pool (service deps)) (note : FactsLog) (c : Choice (service deps))
      (q : Pool (service deps)) (j : Nat) (r : Request) (op : Op),
      stepOnTime deps tenantId hostId p note c q = true -> p.caller? c = some (j, r, op) ->
        (graceContract deps tenantId hostId).May j r op (p.world, note) q.world := by
    intro p note c q j r op hontime hcaller
    unfold stepOnTime at hontime
    rw [hcaller] at hontime
    exact hontime
  have hholds : (graceContract deps tenantId hostId).Holds p note := by
    apply hrun.holds
    · intro p note r q hallowed
      cases r with
      | http r =>
          cases r with
          | agent ctx admitted r => exact obeys_program r
          | _ => cases hallowed.1
      | reconcile t shown dir dryRun => cases hallowed.1
    · exact fun p note c q j r op hallowed hcaller =>
        hmay p note c q j r op hallowed.2 hcaller
    · exact Contract.holds_init hstart
  rcases Pool.step_cases hstep with ⟨r, _, _, hq⟩ | ⟨e, _, _, hq⟩ |
    ⟨j, r, op, next, a, hcaller, hget, houtcome, _⟩
  · rw [hq, not_cleared rfl] at hcleared
    cases hcleared
  · rw [hq] at hcleared
    have hsame : heldHash tenantId hostId ((service deps).disturb e p.world).db =
        heldHash tenantId hostId p.world.db := rfl
    rw [not_cleared hsame] at hcleared
    cases hcleared
  · have hguar := (hholds.guar hget houtcome (hmay p note c q j r op hontime hcaller)).1
    exact hguar.2.2 hcleared

end Facts
end FleetServer
