import FleetServer.Agent.Calls
import FleetServer.Concurrency.Record
import FleetServer.Facts.Documents
import FleetServer.Hosts.HostHistory
import FleetServer.Server.Service
import FleetServer.Storage.Documents

/-!
# The grace period

An empty document replaces an inventory only after the agent has said so for the
whole grace period.  Polls, reports and uploads of one host are taken up
concurrently: each reads what is on record of the host, and acts on it later.
-/

namespace FleetServer
namespace Facts

open FleetServer.Core
open Storage
open Table
open Server
open Concurrency
open Agent

variable {p : HostRow -> Bool} {f : HostRow -> HostRow} {now : Int}

/-!
# What the host said

What happened to a host's document, newest first: which request said that the
agent holds which hash, from the moment the server takes the request up, and
which one stored which document.
-/

inductive FactsEvent where
  | advertised (request : Nat) (hash : Option String) (at_ : Int)
  | stored (request : Nat) (hash : String)
deriving DecidableEq

abbrev FactsLog : Type := List FactsEvent

/-- Since when the host has said nothing but that its document is empty, with no
other document stored in the meantime. -/
def saidEmptySince : FactsLog -> Option Int
  | [] => none
  | FactsEvent.advertised _ hash at_ :: rest =>
      if hash = some emptyFactsHash then some ((saidEmptySince rest).getD at_) else none
  | FactsEvent.stored _ hash :: rest =>
      if hash = emptyFactsHash then saidEmptySince rest else none

/-- The host said so for the whole grace period. -/
def GraceOver (log : FactsLog) (now : Int) : Prop :=
  exists since, saidEmptySince log = some since ∧ emptyClearGraceSecs ≤ now - since

/-- Since the `i`-th request was taken up, nothing else was said or stored. -/
def unbroken (i : Nat) : FactsLog -> Bool
  | [] => false
  | FactsEvent.advertised j hash _ :: rest =>
      hash == some emptyFactsHash && (j == i || unbroken i rest)
  | FactsEvent.stored _ hash :: rest => hash == emptyFactsHash && unbroken i rest

def latestSaid : FactsLog -> Option (Option String)
  | [] => none
  | FactsEvent.advertised _ hash _ :: _ => some hash
  | FactsEvent.stored _ _ :: rest => latestSaid rest

namespace FactsEvent

def request : FactsEvent -> Nat
  | advertised request _ _ => request
  | stored request _ => request

def saysEmpty : FactsEvent -> Bool
  | advertised _ hash _ => hash == some emptyFactsHash
  | stored _ hash => hash == emptyFactsHash

end FactsEvent

/-- The request that said or stored anything but the empty document last. -/
def lastOtherwise (log : FactsLog) : Option Nat :=
  (log.find? fun event => !event.saysEmpty).map FactsEvent.request

variable {tenantId : Int} {hostId : String} {db db' : Db} {log : FactsLog}

/-!
# What the database says
-/

def heldHash (tenantId : Int) (hostId : String) (db : Db) : Option String :=
  HostFactsRepo.hashOf tenantId hostId agentSource db

/-- There is a document with something in it. -/
def inventory (tenantId : Int) (hostId : String) (db : Db) : Bool :=
  (heldHash tenantId hostId db).any fun held => held != emptyFactsHash

/-- The empty document replaced an inventory. -/
def cleared (tenantId : Int) (hostId : String) (db db' : Db) : Bool :=
  inventory tenantId hostId db && heldHash tenantId hostId db' == some emptyFactsHash

/-- Since when the empty document is on record as what the agent reported. -/
def reportedEmpty (h : FactsHashes) : Option Int :=
  if h.reported = some emptyFactsHash then h.reportedSince else none

def emptyReport (tenantId : Int) (hostId : String) (db : Db) : Option Int :=
  (HostFactsRepo.hashes tenantId hostId db).bind reportedEmpty

theorem cleared_iff : cleared tenantId hostId db db' = true <->
    inventory tenantId hostId db = true ∧
      heldHash tenantId hostId db' = some emptyFactsHash := by
  unfold cleared
  rw [Bool.and_eq_true, beq_iff_eq]

theorem inventory_empty (h : heldHash tenantId hostId db = some emptyFactsHash) :
    inventory tenantId hostId db = false := by
  unfold inventory
  rw [h, Option.any_some, bne_self_eq_false]

theorem not_cleared (h : heldHash tenantId hostId db' = heldHash tenantId hostId db) :
    cleared tenantId hostId db db' = false := by
  rw [Bool.eq_false_iff]
  intro hcleared
  have hboth := cleared_iff.mp hcleared
  rw [h] at hboth
  rw [inventory_empty hboth.2] at hboth
  cases hboth.1

/-!
## Host rows
-/

def rowReport (r : HostRow) : Option Int :=
  if r.factsReportedHash = some emptyFactsHash then r.factsReportedAt else none

theorem emptyReport_eq (tenantId : Int) (hostId : String) (db : Db) :
    emptyReport tenantId hostId db =
      (db.hosts.find? (isHost tenantId hostId)).bind rowReport := by
  unfold emptyReport HostFactsRepo.hashes
  cases db.hosts.find? (isHost tenantId hostId) with
  | none => rfl
  | some r => rfl

theorem emptyReport_updateWhere
    (hf : forall r, isHost tenantId hostId (f r) = isHost tenantId hostId r) :
    emptyReport tenantId hostId { db with hosts := updateWhere p f db.hosts } =
      (db.hosts.find? (isHost tenantId hostId)).bind fun r =>
        rowReport (if p r then f r else r) := by
  rw [emptyReport_eq]
  show ((updateWhere p f db.hosts).find? _).bind _ = _
  rw [find?_updateWhere hf, Option.bind_map]
  rfl

theorem emptyReport_unseen (hf : forall r, isHost tenantId hostId (f r) = isHost tenantId hostId r)
    (hrow : forall r, rowReport (f r) = rowReport r) :
    emptyReport tenantId hostId { db with hosts := updateWhere p f db.hosts } =
      emptyReport tenantId hostId db := by
  rw [emptyReport_updateWhere hf, emptyReport_eq]
  congr 1
  funext r
  split
  · exact hrow r
  · rfl

theorem emptyReport_set (hf : forall r, isHost tenantId hostId (f r) = isHost tenantId hostId r)
    (hrow : forall r, rowReport (f r) = none ∨ rowReport (f r) = some now) :
    emptyReport tenantId hostId { db with hosts := updateWhere p f db.hosts } =
        emptyReport tenantId hostId db ∨
      emptyReport tenantId hostId { db with hosts := updateWhere p f db.hosts } = none ∨
      emptyReport tenantId hostId { db with hosts := updateWhere p f db.hosts } = some now := by
  rw [emptyReport_updateWhere hf, emptyReport_eq]
  cases db.hosts.find? (isHost tenantId hostId) with
  | none => exact Or.inl rfl
  | some r =>
      rw [Option.bind_some, Option.bind_some]
      split
      · exact Or.inr (hrow r)
      · exact Or.inl rfl

theorem rowReport_of_reported (r : HostRow) (hash : String) (now : Int) :
    rowReport { r with factsReportedHash := some hash, factsReportedAt := some now } = none ∨
      rowReport { r with factsReportedHash := some hash, factsReportedAt := some now } =
        some now := by
  unfold rowReport
  split
  · exact Or.inr rfl
  · exact Or.inl rfl

/-!
## Statements of agents' requests
-/

theorem emptyReport_statement {s : Statement} {answer : s.Answer} (hs : agentStatement s = true)
    (htx : s.tx now db = Except.ok (answer, db')) :
    emptyReport tenantId hostId db' = emptyReport tenantId hostId db ∨
      emptyReport tenantId hostId db' = none ∨
      emptyReport tenantId hostId db' = some now := by
  by_cases hsets : Hosts.setsHosts s = true
  · cases s with
    | touchLastSeen t h =>
        cases htx
        exact Or.inl (emptyReport_unseen (fun _ => rfl) (fun _ => rfl))
    | touchLastSeenIfStale t h staleAfterSecs =>
        cases htx
        exact Or.inl (emptyReport_unseen (fun _ => rfl) (fun _ => rfl))
    | setLocalConfigPresent t h present =>
        cases htx
        exact Or.inl (emptyReport_unseen (fun _ => rfl) (fun _ => rfl))
    | setHostOverrideLast t h last =>
        cases htx
        exact Or.inl (emptyReport_unseen (fun _ => rfl) (fun _ => rfl))
    | updateCurrentStateHash t h stateHash =>
        cases htx
        exact Or.inl (emptyReport_unseen (fun _ => rfl) (fun _ => rfl))
    | recordRefusal t h status hash =>
        cases htx
        exact Or.inl (emptyReport_unseen (fun _ => rfl) (fun _ => rfl))
    | setReportedHash t h hash =>
        cases htx
        exact emptyReport_set (fun _ => rfl) (fun r => rowReport_of_reported r hash now)
    | clearReportedHash t h =>
        cases htx
        exact emptyReport_set (fun _ => rfl) (fun _ => Or.inl rfl)
    | _ =>
        first
        | (cases hs; done)
        | cases hsets
  · rw [Bool.not_eq_true] at hsets
    have hhosts : db'.hosts = db.hosts :=
      Hosts.keepsHosts_of_setsHosts hsets now db answer db' htx
    rw [emptyReport_eq, emptyReport_eq, hhosts]
    exact Or.inl rfl

theorem heldHash_of_sameDocuments (h : db'.hostFacts = db.hostFacts) :
    heldHash tenantId hostId db' = heldHash tenantId hostId db := by
  unfold heldHash HostFactsRepo.hashOf HostFactsRepo.get
  rw [h]

theorem heldHash_refreshCollectedAt {t : Int} {h source hash collectedAt : String} {moved : Bool}
    (htx : HostFactsRepo.refreshCollectedAt t h source hash collectedAt now db =
      Except.ok (moved, db')) :
    heldHash tenantId hostId db' = heldHash tenantId hostId db := by
  cases htx
  unfold heldHash HostFactsRepo.hashOf HostFactsRepo.get
  show (((updateWhere _ _ db.hostFacts).find? _).map _).map _ = _
  rw [find?_updateWhere, Option.map_map, Option.map_map, Option.map_map]
  · congr 1
    funext r
    simp only [Function.comp_apply]
    split <;> rfl
  · exact fun _ => rfl

theorem heldHash_statement {s : Statement} {now : Int} {answer : s.Answer}
    (hs : agentStatement s = true) (hkeys : FactsKeys db)
    (htx : s.tx now db = Except.ok (answer, db')) :
    heldHash tenantId hostId db' = heldHash tenantId hostId db ∨
      exists doc keep, s = Statement.replaceFacts tenantId hostId doc keep ∧
        doc.source = agentSource ∧ heldHash tenantId hostId db' = some doc.factsHash := by
  cases s with
  | replaceFacts t h doc keep =>
      rcases HostFactsRepo.replace_cases htx with ⟨_, hdb, _⟩ | ⟨_, hdb, _⟩ | ⟨_, hdb, _⟩ |
        ⟨_, hdb, hhost, _, _⟩
      · exact Or.inl (by rw [hdb])
      · exact Or.inl (by rw [hdb])
      · exact Or.inl (by rw [hdb])
      · by_cases hkey : tenantId = t ∧ hostId = h ∧ agentSource = doc.source
        · rcases hkey with ⟨rfl, rfl, hsource⟩
          refine Or.inr ⟨doc, keep, rfl, hsource.symm, ?_⟩
          unfold heldHash HostFactsRepo.hashOf
          rw [hdb, hsource, HostFactsRepo.get_storeRows_self hkeys hhost]
          rfl
        · left
          unfold heldHash HostFactsRepo.hashOf
          rw [hdb, HostFactsRepo.get_storeRows_other hkeys hhost hkey]
  | refreshCollectedAt t h source hash collectedAt =>
      exact Or.inl (heldHash_refreshCollectedAt htx)
  | touchLastSeen t h =>
      cases htx
      exact Or.inl rfl
  | touchLastSeenIfStale t h staleAfterSecs =>
      cases htx
      exact Or.inl rfl
  | setLocalConfigPresent t h present =>
      cases htx
      exact Or.inl rfl
  | setHostOverrideLast t h last =>
      cases htx
      exact Or.inl rfl
  | updateCurrentStateHash t h stateHash =>
      cases htx
      exact Or.inl rfl
  | recordRefusal t h status hash =>
      cases htx
      exact Or.inl rfl
  | setReportedHash t h hash =>
      cases htx
      exact Or.inl rfl
  | clearReportedHash t h =>
      cases htx
      exact Or.inl rfl
  | recordCert t h cert =>
      have htx : HostCertRepo.record t h cert db = Except.ok (answer, db') := htx
      unfold HostCertRepo.record Storage.insertCert at htx
      cases (Tx.guarded_eq_ok.mp htx).2
      exact Or.inl rfl
  | retireSuperseded t h serial =>
      left
      apply heldHash_of_sameDocuments
      have htx : HostCertRepo.retireSuperseded t h serial now db = Except.ok (answer, db') := htx
      unfold HostCertRepo.retireSuperseded at htx
      have hrows := Tx.total_eq_ok.mp htx
      split at hrows
      · cases hrows
        rfl
      · cases hrows
        rfl
  | replaceAgentTags t h reported =>
      left
      apply heldHash_of_sameDocuments
      have htx : HostTagsRepo.replaceAgentTags t h reported now db = _ := htx
      unfold HostTagsRepo.replaceAgentTags at htx
      split at htx
      · cases htx
      · cases htx
        rfl
  | _ => cases hs

/-!
# The record of an exchange
-/

/-- What a request says the agent holds, once it is taken up. -/
def advertises (deps : Deps) : Request -> Option String
  | Request.http (HttpRequest.agent _ _ (AgentRequest.desiredState q)) =>
      q.factsHash.bind normalizeHash
  | Request.http (HttpRequest.agent _ _ (AgentRequest.stateReport body)) =>
      body.factsHash.bind normalizeHash
  | Request.http (HttpRequest.agent _ _ (AgentRequest.uploadFacts (UploadBody.bytes body))) =>
      (deps.parseUpload body).toOption.map FactsUpload.factsHash
  | _ => none

/-- The call by which the server takes up what a request of the host says. -/
def takesUp (tenantId : Int) (hostId : String) : Op -> Bool
  | Op.query (Query.factsHashes t h) => t == tenantId && h == hostId
  | _ => false

/-- What a call of the `i`-th request adds to the record. -/
def factsEvent (deps : Deps) (tenantId : Int) (hostId : String) (i : Nat) (request : Request)
    (op : Op) (w v : World) : Option FactsEvent :=
  if takesUp tenantId hostId op then
    some (FactsEvent.advertised i (advertises deps request) w.now)
  else if heldHash tenantId hostId v.db = heldHash tenantId hostId w.db then none
  else (heldHash tenantId hostId v.db).map (FactsEvent.stored i)

@[reducible] def exchanges (deps : Deps) (tenantId : Int) (hostId : String) :
    Recorder (service deps) FactsLog where
  onCall := fun i request op w v log =>
    (factsEvent deps tenantId hostId i request op w v).toList ++ log

/-- What the exchange needs of a call: a request that says the document is empty
and finds that on record is taken up when the host has not said anything else
since; and an inventory is cleared by a request during which nothing else was said
or stored. -/
def onTime (deps : Deps) (tenantId : Int) (hostId : String) (i : Nat) (request : Request)
    (op : Op) (db db' : Db) (log : FactsLog) : Bool :=
  (!(takesUp tenantId hostId op && advertises deps request == some emptyFactsHash &&
      (emptyReport tenantId hostId db).isSome) || (saidEmptySince log).isSome) &&
    (!cleared tenantId hostId db db' || unbroken i log)

def stepOnTime (deps : Deps) (tenantId : Int) (hostId : String) (p : Pool (service deps))
    (log : FactsLog) (c : Choice (service deps)) (q : Pool (service deps)) : Bool :=
  match p.caller? c with
  | some (i, request, op) => onTime deps tenantId hostId i request op p.world.db q.world.db log
  | none => true

def ofAgents {deps : Deps} : Choice (service deps) -> Bool
  | Choice.spawn (Request.http (HttpRequest.agent _ _ _)) => true
  | Choice.spawn _ => false
  | _ => true

variable {deps : Deps} {i : Nat} {request : Request} {op : Op} {w v : World}

theorem onTime_takesUp {db db' : Db}
    (h : onTime deps tenantId hostId i request op db db' log = true)
    (htakes : takesUp tenantId hostId op = true)
    (hclaims : advertises deps request = some emptyFactsHash) {since : Int}
    (hreport : emptyReport tenantId hostId db = some since) :
    exists said, saidEmptySince log = some said := by
  unfold onTime at h
  rw [Bool.and_eq_true] at h
  have hfirst := h.1
  rw [htakes, hclaims, hreport, beq_self_eq_true] at hfirst
  exact Option.isSome_iff_exists.mp hfirst

theorem onTime_cleared {db db' : Db}
    (h : onTime deps tenantId hostId i request op db db' log = true)
    (hcleared : cleared tenantId hostId db db' = true) : unbroken i log = true := by
  unfold onTime at h
  rw [Bool.and_eq_true, hcleared] at h
  exact h.2

/-!
# The record and the database

The record is truthful about the past, and the database does not hold a report of
the empty document that is older than what the host said.
-/

structure Vouched (tenantId : Int) (hostId : String) (x : World × FactsLog) : Prop where
  keys : FactsKeys x.1.db
  past : forall said, saidEmptySince x.2 = some said -> said ≤ x.1.now
  reported : forall since said, emptyReport tenantId hostId x.1.db = some since ->
    saidEmptySince x.2 = some said -> said ≤ since

/-- If nothing interferes with the `i`-th request, the host said before `bound`
that its document is empty, or there is nothing to clear. -/
def Licensed (tenantId : Int) (hostId : String) (i : Nat) (bound : Int)
    (x : World × FactsLog) : Prop :=
  unbroken i x.2 = true -> inventory tenantId hostId x.1.db = true ->
    exists said, saidEmptySince x.2 = some said ∧ said ≤ bound

/-- What others leave to the `i`-th request. -/
structure Spared (tenantId : Int) (hostId : String) (i : Nat) (x y : World × FactsLog) :
    Prop where
  licensed : forall bound, Licensed tenantId hostId i bound x ->
    Licensed tenantId hostId i bound y
  now : x.1.now ≤ y.1.now

theorem saidEmptySince_stored {hash : String} {said : Int}
    (h : saidEmptySince (FactsEvent.stored i hash :: log) = some said) :
    saidEmptySince log = some said := by
  unfold saidEmptySince at h
  split at h
  · exact h
  · cases h

theorem outcome_report {a : op.Res} (hop : agentCall op = true)
    (h : Outcome machine op w a v) :
    v.now = w.now ∧
      (emptyReport tenantId hostId v.db = emptyReport tenantId hostId w.db ∨
        emptyReport tenantId hostId v.db = none ∨
        emptyReport tenantId hostId v.db = some w.now) := by
  rcases outcome_cases h with ⟨_, rfl⟩ | ⟨_, rfl⟩
  · cases op with
    | statement s =>
        rw [show machine.exec (Op.statement s) w = s.exec w from rfl]
        rcases statement_exec s w with ⟨e, _, hexec⟩ | ⟨answer, db, htx, hexec⟩
        · rw [hexec]
          exact ⟨rfl, Or.inl rfl⟩
        · rw [hexec]
          exact ⟨rfl, emptyReport_statement hop htx⟩
    | storeGet t id =>
        rw [show (machine.exec (Op.storeGet t id) w).2 = w from exec_storeGet_world t id w]
        exact ⟨rfl, Or.inl rfl⟩
    | _ => exact ⟨rfl, Or.inl rfl⟩
  · exact ⟨rfl, Or.inl rfl⟩

theorem outcome_held {a : op.Res} (hop : agentCall op = true) (hkeys : FactsKeys w.db)
    (h : Outcome machine op w a v) :
    FactsKeys v.db ∧ (heldHash tenantId hostId v.db = heldHash tenantId hostId w.db ∨
      exists doc keep, op = Op.statement (Statement.replaceFacts tenantId hostId doc keep) ∧
        doc.source = agentSource ∧ heldHash tenantId hostId v.db = some doc.factsHash) := by
  rcases outcome_cases h with ⟨_, rfl⟩ | ⟨_, rfl⟩
  · have hkept : FactsKeys (exec op w).2.db := factsKeys_exec hkeys
    refine ⟨hkept, ?_⟩
    cases op with
    | statement s =>
        rw [show machine.exec (Op.statement s) w = s.exec w from rfl]
        rcases statement_exec s w with ⟨e, _, hexec⟩ | ⟨answer, db, htx, hexec⟩
        · rw [hexec]
          exact Or.inl rfl
        · rw [hexec]
          rcases heldHash_statement hop hkeys htx with hsame | ⟨doc, keep, hs, hsource, hheld⟩
          · exact Or.inl hsame
          · exact Or.inr ⟨doc, keep, congrArg Op.statement hs, hsource, hheld⟩
    | storeGet t id =>
        rw [show (machine.exec (Op.storeGet t id) w).2 = w from exec_storeGet_world t id w]
        exact Or.inl rfl
    | _ => exact Or.inl rfl
  · exact ⟨hkeys, Or.inl rfl⟩

/-- What a call that takes nothing up adds to the record: at most the document it
stored. -/
theorem recorded_cases (hop : takesUp tenantId hostId op = false) :
    ((exchanges deps tenantId hostId).onCall i request op w v log = log ∧
      (heldHash tenantId hostId v.db = heldHash tenantId hostId w.db ∨
        heldHash tenantId hostId v.db = none)) ∨
    exists hash, heldHash tenantId hostId v.db = some hash ∧
      (exchanges deps tenantId hostId).onCall i request op w v log =
        FactsEvent.stored i hash :: log := by
  simp only [factsEvent, hop, Bool.false_eq_true, if_false]
  split
  · rename_i hsame
    exact Or.inl ⟨rfl, Or.inl hsame⟩
  · cases hheld : heldHash tenantId hostId v.db with
    | none => exact Or.inl ⟨rfl, Or.inr rfl⟩
    | some hash => exact Or.inr ⟨hash, rfl, rfl⟩

theorem recorded_takesUp (hop : takesUp tenantId hostId op = true) :
    (exchanges deps tenantId hostId).onCall i request op w v log =
      FactsEvent.advertised i (advertises deps request) w.now :: log := by
  simp only [factsEvent, hop, if_true, Option.toList_some, List.singleton_append]

theorem outcome_takesUp {a : op.Res} (hop : takesUp tenantId hostId op = true)
    (h : Outcome machine op w a v) : v = w := by
  cases op with
  | query q =>
      rcases outcome_cases h with ⟨_, hv⟩ | ⟨_, hv⟩
      · exact hv
      · exact hv
  | _ => cases hop

theorem vouched_call {a : op.Res} (hcall : agentCall op = true)
    (hx : Vouched tenantId hostId (w, log)) (h : Outcome machine op w a v)
    (hmay : onTime deps tenantId hostId i request op w.db v.db log = true) :
    Vouched tenantId hostId
      (v, (exchanges deps tenantId hostId).onCall i request op w v log) := by
  have hreport := @outcome_report tenantId hostId op w v a hcall h
  have hheld := @outcome_held tenantId hostId op w v a hcall hx.keys h
  cases htakes : takesUp tenantId hostId op with
  | false =>
      -- Whatever is added, the host has been saying so no longer than before.
      have hlog : forall said, saidEmptySince
          ((exchanges deps tenantId hostId).onCall i request op w v log) = some said ->
            saidEmptySince log = some said := by
        intro said hsaid
        rcases @recorded_cases tenantId hostId log deps i request op w v htakes with
          ⟨hsame, _⟩ | ⟨hash, _, hstored⟩
        · rw [hsame] at hsaid
          exact hsaid
        · rw [hstored] at hsaid
          exact saidEmptySince_stored hsaid
      constructor
      · exact hheld.1
      · intro said hsaid
        have hpast := hx.past said (hlog said hsaid)
        rw [hreport.1]
        exact hpast
      · intro since said hsince hsaid
        have hsaid := hlog said hsaid
        rcases hreport.2 with hsame | hnone | hnow
        · rw [hsame] at hsince
          exact hx.reported since said hsince hsaid
        · rw [hnone] at hsince
          cases hsince
        · rw [hnow] at hsince
          cases hsince
          exact hx.past said hsaid
  | true =>
      have hworld := outcome_takesUp htakes h
      subst hworld
      rw [recorded_takesUp htakes]
      constructor
      · exact hx.keys
      · intro said hsaid
        show said ≤ v.now
        simp only [saidEmptySince] at hsaid
        split at hsaid
        · cases hbefore : saidEmptySince log with
          | none =>
              rw [hbefore] at hsaid
              cases hsaid
              exact Int.le_refl _
          | some before =>
              rw [hbefore] at hsaid
              cases hsaid
              exact hx.past before hbefore
        · cases hsaid
      · intro since said hsince hsaid
        simp only [saidEmptySince] at hsaid
        split at hsaid
        · rename_i hclaims
          -- A report on record is one of what the host has been saying.
          rcases onTime_takesUp hmay htakes hclaims hsince with ⟨before, hbefore⟩
          rw [hbefore] at hsaid
          cases hsaid
          exact hx.reported since before hsince hbefore
        · cases hsaid

theorem licensed_call {a : op.Res} {j : Nat} {bound : Int} (h : Outcome machine op w a v)
    (hother : i ≠ j ∨ takesUp tenantId hostId op = false)
    (hlicensed : Licensed tenantId hostId j bound (w, log)) :
    Licensed tenantId hostId j bound
      (v, (exchanges deps tenantId hostId).onCall i request op w v log) := by
  intro hunbroken hinventory
  cases htakes : takesUp tenantId hostId op with
  | false =>
      rcases @recorded_cases tenantId hostId log deps i request op w v htakes with
        ⟨hsame, hheld⟩ | ⟨hash, hheld, hstored⟩
      · rw [hsame] at hunbroken ⊢
        rcases hheld with hheld | hheld
        · apply hlicensed hunbroken
          unfold inventory at hinventory ⊢
          rw [hheld] at hinventory
          exact hinventory
        · unfold inventory at hinventory
          rw [hheld] at hinventory
          cases hinventory
      · rw [hstored] at hunbroken
        unfold unbroken at hunbroken
        rw [Bool.and_eq_true, beq_iff_eq] at hunbroken
        rw [hunbroken.1] at hheld
        rw [inventory_empty hheld] at hinventory
        cases hinventory
  | true =>
      have hworld := outcome_takesUp htakes h
      subst hworld
      rcases hother with hij | hfalse
      · rw [recorded_takesUp htakes] at hunbroken ⊢
        unfold unbroken at hunbroken
        rw [Bool.and_eq_true, beq_iff_eq, Bool.or_eq_true, beq_iff_eq] at hunbroken
        rcases hunbroken.2 with heq | hbefore
        · exact absurd heq hij
        · rcases hlicensed hbefore hinventory with ⟨said, hsaid, hbound⟩
          refine ⟨said, ?_, hbound⟩
          have hsaid : saidEmptySince log = some said := hsaid
          unfold saidEmptySince
          rw [if_pos hunbroken.1, hsaid]
          rfl
      · rw [htakes] at hfalse
        cases hfalse

theorem spared_call {a : op.Res} {j : Nat} (hcall : agentCall op = true)
    (h : Outcome machine op w a v)
    (hother : i ≠ j ∨ takesUp tenantId hostId op = false) :
    Spared tenantId hostId j (w, log)
      (v, (exchanges deps tenantId hostId).onCall i request op w v log) := by
  constructor
  · exact fun bound hlicensed => licensed_call h hother hlicensed
  · have hreport := @outcome_report tenantId hostId op w v a hcall h
    exact Int.le_of_eq hreport.1.symm

end Facts
end FleetServer
