import FleetServer.Facts.Clearing

/-!
# What is on record of a host

An answered request has put on record what it said.  So the grace period is kept
whenever requests that say different things are not taken up while one of them is
still being answered.
-/

namespace FleetServer
namespace Facts

open FleetServer.Core
open Storage
open Server
open Concurrency
open Agent

variable {deps : Deps} {tenantId : Int} {hostId : String} {i : Nat} {request : Request}
  {op : Op} {db db' : Db} {w v : World} {log : FactsLog}

/-!
# Requests in turn
-/

def minds (tenantId : Int) (hostId : String) : Op -> Bool
  | Op.query (Query.factsHashes t h) => t == tenantId && h == hostId
  | Op.statement (Statement.setReportedHash t h _) => t == tenantId && h == hostId
  | Op.statement (Statement.clearReportedHash t h) => t == tenantId && h == hostId
  | _ => false

def fails {deps : Deps} : Choice (service deps) -> Bool
  | Choice.fault _ => true
  | _ => false

def gotThrough : Request -> Answer -> Bool
  | Request.http (HttpRequest.agent _ _ (AgentRequest.uploadFacts _)),
      Answer.response response => response.status == 200
  | _, _ => true

def answered (p : Pool (service deps)) (j : Nat) : Bool :=
  match p.threads[j]? with
  | some ⟨request, Program.done answer⟩ => gotThrough request answer
  | _ => false

/-- The empty document is put on record, or in place of an inventory. -/
def turnsEmpty (tenantId : Int) (hostId : String) (db db' : Db) : Bool :=
  cleared tenantId hostId db db' ||
    (emptyReport tenantId hostId db).isNone && (emptyReport tenantId hostId db').isSome

/-- No call fails by which a request would put anything but the empty document on
record.  When a request says that the document is empty and that is on record, the
one that last said or stored anything else got through.  And the host says and
stores nothing else between the moment a request is taken up and the moment it
puts the empty document on record, or in place of an inventory. -/
def inTurn (deps : Deps) (tenantId : Int) (hostId : String) (p : Pool (service deps))
    (log : FactsLog) (c : Choice (service deps)) (q : Pool (service deps)) : Bool :=
  match p.caller? c with
  | none => true
  | some (i, request, op) =>
      let empty := advertises deps request == some emptyFactsHash
      (!(fails c && minds tenantId hostId op) || empty) &&
        (!(takesUp tenantId hostId op && empty &&
            (emptyReport tenantId hostId p.world.db).isSome) ||
          (lastOtherwise log).all (answered p)) &&
        (!turnsEmpty tenantId hostId p.world.db q.world.db || unbroken i log)

/-!
# What a request owes

A request that says or stores anything else while the empty document is on record
owes it to the record to take that off.
-/

abbrev Owing : Type := FactsLog × (Nat -> Bool)

@[reducible] def owing (deps : Deps) (tenantId : Int) (hostId : String) :
    Recorder (service deps) Owing where
  onCall := fun i request op w v note =>
    let event := factsEvent deps tenantId hostId i request op w v
    (event.toList ++ note.1, fun j =>
      if j = i then
        (emptyReport tenantId hostId v.db).isSome &&
          ((event.any fun event => !event.saysEmpty) || note.2 i)
      else note.2 j)

/-- Whenever the empty document is on record, the host has been saying so, or the
request that last said or stored anything else still owes. -/
def Accounted (tenantId : Int) (hostId : String) (db : Db) (note : Owing) : Prop :=
  (emptyReport tenantId hostId db).isSome = true ->
    (saidEmptySince note.1).isSome = true ∨
      exists j, lastOtherwise note.1 = some j ∧ note.2 j = true

theorem isSome_of_unbroken (h : unbroken i log = true) :
    (saidEmptySince log).isSome = true := by
  induction log with
  | nil => cases h
  | cons event rest ih =>
      cases event with
      | advertised j hash at_ =>
          unfold unbroken at h
          rw [Bool.and_eq_true, beq_iff_eq] at h
          unfold saidEmptySince
          rw [if_pos h.1]
          rfl
      | stored j hash =>
          unfold unbroken at h
          rw [Bool.and_eq_true, beq_iff_eq] at h
          unfold saidEmptySince
          rw [if_pos h.1]
          exact ih h.2

theorem accounted_of_empty {event : FactsEvent} (h : event.saysEmpty = true) :
    ((saidEmptySince log).isSome = true ->
      (saidEmptySince (event :: log)).isSome = true) ∧
    lastOtherwise (event :: log) = lastOtherwise log := by
  constructor
  · intro hsome
    cases event with
    | advertised j hash at_ =>
        unfold saidEmptySince
        rw [if_pos (beq_iff_eq.mp h)]
        rfl
    | stored j hash =>
        unfold saidEmptySince
        rw [if_pos (beq_iff_eq.mp h)]
        exact hsome
  · unfold lastOtherwise
    rw [List.find?_cons, h]
    rfl

theorem request_of_event {event : FactsEvent}
    (h : factsEvent deps tenantId hostId i request op w v = some event) :
    event.request = i := by
  unfold factsEvent at h
  split at h
  · cases h
    rfl
  · split at h
    · cases h
    · rcases Option.map_eq_some_iff.mp h with ⟨hash, _, heq⟩
      rw [← heq]
      rfl

theorem turnsEmpty_report (hbefore : (emptyReport tenantId hostId db).isSome = false)
    (hafter : (emptyReport tenantId hostId db').isSome = true) :
    turnsEmpty tenantId hostId db db' = true := by
  unfold turnsEmpty
  rw [Option.isSome_eq_false_iff] at hbefore
  rw [hbefore, hafter, Bool.and_true, Bool.or_true]

/-- What is on record stays accounted for, when nothing else is said or stored
while a request puts the empty document there. -/
theorem accounted_call {note : Owing} (h : Accounted tenantId hostId w.db note)
    (hturn : turnsEmpty tenantId hostId w.db v.db = true -> unbroken i note.1 = true) :
    Accounted tenantId hostId v.db
      ((owing deps tenantId hostId).onCall i request op w v note) := by
  intro hsome
  -- Whatever is on record now was accounted for before.
  have hbefore : (saidEmptySince note.1).isSome = true ∨
      exists j, lastOtherwise note.1 = some j ∧
        ((owing deps tenantId hostId).onCall i request op w v note).2 j = true := by
    cases hreport : (emptyReport tenantId hostId w.db).isSome with
    | false => exact Or.inl (isSome_of_unbroken (hturn (turnsEmpty_report hreport hsome)))
    | true =>
        rcases h hreport with hsaid | ⟨j, hlast, howes⟩
        · exact Or.inl hsaid
        · refine Or.inr ⟨j, hlast, ?_⟩
          by_cases hij : j = i
          · subst hij
            simp only [if_true, hsome, howes, Bool.or_true, Bool.and_true]
          · simp only [if_neg hij]
            exact howes
  cases hevent : factsEvent deps tenantId hostId i request op w v with
  | none =>
      simp only [hevent, Option.toList_none, List.nil_append] at hbefore ⊢
      exact hbefore
  | some event =>
      cases hempty : event.saysEmpty with
      | true =>
          have hsame := @accounted_of_empty note.1 event hempty
          simp only [hevent, Option.toList_some, List.singleton_append] at hbefore ⊢
          rw [hsame.2]
          rcases hbefore with hsaid | hlast
          · exact Or.inl (hsame.1 hsaid)
          · exact Or.inr hlast
      | false =>
          refine Or.inr ⟨i, ?_, ?_⟩
          · simp only [hevent, Option.toList_some, List.singleton_append]
            unfold lastOtherwise
            rw [List.find?_cons, hempty, Bool.not_false, Option.map_some,
              request_of_event hevent]
          · simp only [hevent, Option.any_some, hempty, Bool.not_false, Bool.true_or,
              Bool.and_true, if_true]
            exact hsome

/-!
# What an answered request owes
-/

def OwingStep (deps : Deps) (tenantId : Int) (hostId : String) (request : Request) :
    (op : Op) -> op.Res -> Bool -> Bool -> Prop
  | Op.query (Query.factsHashes t h), answer, m, m' => m' = true -> m = true ∨
      (tenantId = t ∧ hostId = h ∧ advertises deps request ≠ some emptyFactsHash ∧
        exists found, answer = Except.ok found ∧ (found.bind reportedEmpty).isSome = true)
  | Op.statement (Statement.setReportedHash t h hash), _, m, m' => m' = true -> m = true ∧
      (tenantId = t -> hostId = h ->
        hash = emptyFactsHash ∨ advertises deps request = some emptyFactsHash)
  | Op.statement (Statement.clearReportedHash t h), _, m, m' => m' = true -> m = true ∧
      (tenantId = t -> hostId = h -> advertises deps request = some emptyFactsHash)
  | Op.statement (Statement.replaceFacts t h doc _), _, m, m' => m' = true -> m = true ∨
      (tenantId = t ∧ hostId = h ∧ doc.factsHash ≠ emptyFactsHash)
  | op, _, m, m' => agentCall op = true -> m' = true -> m = true

section Leads

variable {alpha beta : Type} {t : Int} {h source hash json : String}
  {collectedAt : Option String} {m m' : Bool}

abbrev Leads (deps : Deps) (tenantId : Int) (hostId : String) (request : Request)
    (Q : alpha -> Bool -> Prop) (p : Prog alpha) (m : Bool) : Prop :=
  Program.Leads (OwingStep deps tenantId hostId request) Q p m

theorem kept_of_quiet {a : op.Res} (hop : quiet op = true)
    (hstep : OwingStep deps tenantId hostId request op a m m') : m' = true -> m = true := by
  cases op with
  | query q =>
      cases q with
      | factsHashes t h => cases hop
      | _ => exact hstep rfl
  | statement s =>
      cases s with
      | setReportedHash t h hash => exact fun howes => (hstep howes).1
      | clearReportedHash t h => exact fun howes => (hstep howes).1
      | replaceFacts t h doc keep => cases hop
      | _ => exact hstep (agentCall_of_quiet hop)
  | _ => exact hstep rfl

theorem leads_quiet {p : Prog alpha} (hp : Quiet p) :
    Leads deps tenantId hostId request (fun _ m' => m' = true -> m = true) p m := by
  apply Program.leads_keeping (fun m' => m' = true -> m = true) _ id
  apply Program.uses_mono _ hp
  exact fun op hop a m1 m2 hstep hkept howes => hkept (kept_of_quiet hop hstep howes)

theorem leads_first {Q : beta -> Bool -> Prop} {p : Prog alpha} {f : alpha -> Prog beta}
    (hp : Quiet p)
    (hf : forall a m', (m' = true -> m = true) ->
      Leads deps tenantId hostId request Q (f a) m') :
    Leads deps tenantId hostId request Q (p >>= f) m :=
  Program.leads_bind (leads_quiet hp) hf

/-!
## Storing
-/

/-- The request said that the host holds `hash`, which is not the empty document. -/
def Said (tenantId : Int) (hostId : String) (t : Int) (h hash : String) : Prop :=
  tenantId = t ∧ hostId = h ∧ hash ≠ emptyFactsHash

theorem leads_storeRounds (rounds : Nat) :
    Leads deps tenantId hostId request
      (fun _ m' => m' = true -> m = true ∨ Said tenantId hostId t h hash)
      (storeRounds deps t h source hash json collectedAt rounds) m := by
  induction rounds generalizing m with
  | zero => exact Or.inl
  | succ rounds ih =>
      intro previous m1 hread
      have hkept := kept_of_quiet rfl hread
      cases previous with
      | error e => exact fun howes => Or.inl (hkept howes)
      | ok previous =>
          unfold onOk
          simp only
          split
          · exact fun howes => Or.inl (hkept howes)
          · split
            · exact fun howes => Or.inl (hkept howes)
            · intro outcome m2 hreplace
              have howes : m2 = true -> m = true ∨ Said tenantId hostId t h hash := by
                intro howes
                rcases hreplace howes with hbefore | hsaid
                · exact Or.inl (hkept hbefore)
                · exact Or.inr hsaid
              cases outcome with
              | error e => exact howes
              | ok outcome =>
                  apply leads_first
                  · cases outcome with
                    | stored => exact ⟨rfl, fun _ => ⟨rfl, fun _ => trivial⟩⟩
                    | _ => trivial
                  · intro _ m3 hafter
                    have howes := fun h3 => howes (hafter h3)
                    split
                    · apply Program.leads_mono _ ih
                      intro _ m4 hagain h4
                      rcases hagain h4 with h3 | hsaid
                      · exact howes h3
                      · exact Or.inr hsaid
                    · exact howes

/-!
## Advertising
-/

theorem leads_lookup {Q : alpha -> Bool -> Prop}
    {next : Except DbError (Option FactsHashes) -> Prog alpha}
    (hnext : forall answer m1,
      (m1 = true -> tenantId = t ∧ hostId = h ∧
        advertises deps request ≠ some emptyFactsHash ∧
        exists found, answer = Except.ok found ∧ (found.bind reportedEmpty).isSome = true) ->
      Leads deps tenantId hostId request Q (next answer) m1) :
    Leads deps tenantId hostId request Q
      (Program.call (Op.query (Query.factsHashes t h)) next) false := by
  intro answer m1 hlookup
  apply hnext
  intro howes
  rcases hlookup howes with hbefore | hlooked
  · cases hbefore
  · exact hlooked

theorem leads_forgetReported :
    Leads deps tenantId hostId request (fun _ m' => m' = false)
      (forgetReported t h) false := by
  apply leads_lookup
  intro answer m1 hlooked
  cases answer with
  | error e =>
      show m1 = false
      rw [Bool.eq_false_iff]
      intro howes
      rcases hlooked howes with ⟨_, _, _, found, hok, _⟩
      cases hok
  | ok found =>
      unfold onOk
      simp only
      split
      · intro cleared m2 hclear
        show m2 = false
        rw [Bool.eq_false_iff]
        intro howes
        rcases hlooked (hclear howes).1 with ⟨ht, hh, hclaims, _⟩
        exact hclaims ((hclear howes).2 ht hh)
      · rename_i hnone
        show m1 = false
        rw [Bool.eq_false_iff]
        intro howes
        rcases hlooked howes with ⟨_, _, _, found, hok, hempty⟩
        cases hok
        apply hnone
        cases found with
        | none => cases hempty
        | some hashes =>
            have hempty : (reportedEmpty hashes).isSome = true := hempty
            unfold reportedEmpty at hempty
            split at hempty
            · rename_i hreported
              show hashes.reported.isSome = true
              rw [hreported]
              rfl
            · cases hempty

theorem leads_recordReported {reported : String} {hashes : FactsHashes}
    (hclaims : tenantId = t -> hostId = h -> advertises deps request = some reported)
    (hlooked : m = true -> tenantId = t ∧ hostId = h ∧
      advertises deps request ≠ some emptyFactsHash ∧ (reportedEmpty hashes).isSome = true) :
    Leads deps tenantId hostId request (fun _ m' => m' = false)
      (recordReported t h reported hashes) m := by
  unfold recordReported
  split
  · intro set m1 hset
    show m1 = false
    rw [Bool.eq_false_iff]
    intro howes
    rcases hlooked (hset howes).1 with ⟨ht, hh, hother, _⟩
    rcases (hset howes).2 ht hh with hempty | hempty
    · rw [hclaims ht hh, hempty] at hother
      exact hother rfl
    · exact hother hempty
  · rename_i hsame
    rw [ne_eq, not_not] at hsame
    show m = false
    rw [Bool.eq_false_iff]
    intro howes
    rcases hlooked howes with ⟨ht, hh, hother, hempty⟩
    unfold reportedEmpty at hempty
    split at hempty
    · rename_i hreported
      rw [hclaims ht hh, ← hsame, hreported] at hother
      exact hother rfl
    · cases hempty

theorem leads_clearWhenDue {reported : String} {hashes : FactsHashes} {now : Int} :
    Leads deps tenantId hostId request (fun _ m' => m' = false)
      (clearWhenDue deps t h reported hashes now) false := by
  unfold clearWhenDue
  split
  · rfl
  · rfl
  · apply Program.leads_bind (leads_storeRounds storeAttempts)
    intro outcome m1 hstored
    have howes : m1 = false := by
      rw [Bool.eq_false_iff]
      intro howes
      rcases hstored howes with hbefore | ⟨_, _, hother⟩
      · cases hbefore
      · exact hother rfl
    split <;> exact howes

theorem leads_advertise {reported : Option String}
    (hclaims : tenantId = t -> hostId = h ->
      advertises deps request = reported.bind normalizeHash) :
    Leads deps tenantId hostId request (fun _ m' => m' = false)
      (advertise deps t h reported) false := by
  unfold advertise
  cases hnormal : reported.bind normalizeHash with
  | none => exact Program.leads_bind leads_forgetReported (fun _ _ howes => howes)
  | some said =>
      apply leads_lookup
      intro answer m1 hlooked
      have hnothing : (forall hashes, answer ≠ Except.ok (some hashes)) -> m1 = false := by
        intro hnone
        rw [Bool.eq_false_iff]
        intro howes
        rcases hlooked howes with ⟨_, _, _, found, hok, hempty⟩
        cases found with
        | none => cases hempty
        | some hashes => exact hnone hashes hok
      cases answer with
      | error e => exact hnothing (fun _ hok => by cases hok)
      | ok found =>
          cases found with
          | none => exact hnothing (fun _ hok => by cases hok)
          | some hashes =>
              have hrecord : Leads deps tenantId hostId request (fun _ m' => m' = false)
                  (recordReported t h said hashes) m1 := by
                apply leads_recordReported
                · intro ht hh
                  rw [hclaims ht hh, hnormal]
                · intro howes
                  rcases hlooked howes with ⟨ht, hh, hother, found, hok, hempty⟩
                  cases hok
                  exact ⟨ht, hh, hother, hempty⟩
              have hclock : Quiet nowUnix := ⟨rfl, fun _ => trivial⟩
              apply Program.leads_bind hrecord
              intro _ m2 hm2
              apply leads_first hclock
              intro now m3 hm3
              have howes : m3 = false := by
                rw [Bool.eq_false_iff]
                intro howes
                rw [hm2] at hm3
                cases hm3 howes
              rw [howes]
              exact Program.leads_bind leads_clearWhenDue (fun _ _ howes => howes)

/-!
## Uploading
-/

theorem leads_uploadAccepted {ctx : PeerHostContext} {upload : FactsUpload}
    {Q : Response -> Bool -> Prop} (hQ : forall response, Q response false)
    (hclaims : tenantId = ctx.tenantId -> hostId = ctx.hostId ->
      advertises deps request = some upload.factsHash)
    (howed : m = true -> Said tenantId hostId ctx.tenantId ctx.hostId upload.factsHash) :
    Leads deps tenantId hostId request Q (uploadAccepted ctx upload) m := by
  intro set m1 hset
  have howes : m1 = false := by
    rw [Bool.eq_false_iff]
    intro howes
    rcases howed (hset howes).1 with ⟨ht, hh, hother⟩
    rcases (hset howes).2 ht hh with hempty | hempty
    · exact hother hempty
    · rw [hclaims ht hh] at hempty
      exact hother (Option.some.inj hempty)
  rw [howes]
  exact hQ _

/-- What holds when a request is answered. -/
def Settled (request : Request) (response : Response) (m : Bool) : Prop :=
  gotThrough request (Answer.response response) = true -> m = false

variable {ctx : PeerHostContext} {admitted : Bool}

abbrev uploading (ctx : PeerHostContext) (admitted : Bool) (body : UploadBody) : Request :=
  Request.http (HttpRequest.agent ctx admitted (AgentRequest.uploadFacts body))

theorem settled_refused {body : UploadBody} {response : Response} (h : response.status ≠ 200) :
    Settled (uploading ctx admitted body) response m := by
  intro hstatus
  exact absurd (beq_iff_eq.mp hstatus) h

theorem leads_uploadParsed {body : UploadBody} {upload : FactsUpload}
    (hclaims : advertises deps (uploading ctx admitted body) = some upload.factsHash) :
    Leads deps tenantId hostId (uploading ctx admitted body)
      (Settled (uploading ctx admitted body)) (uploadParsed deps ctx upload) false := by
  have haccepted : forall m,
      (m = true -> Said tenantId hostId ctx.tenantId ctx.hostId upload.factsHash) ->
      Leads deps tenantId hostId (uploading ctx admitted body)
        (Settled (uploading ctx admitted body)) (uploadAccepted ctx upload) m :=
    fun m howed => leads_uploadAccepted (fun _ _ => rfl) (fun _ _ => hclaims) howed
  apply leads_lookup
  intro answer m1 hlooked
  have howed : m1 = true -> Said tenantId hostId ctx.tenantId ctx.hostId upload.factsHash := by
    intro howes
    rcases hlooked howes with ⟨ht, hh, hother, _⟩
    refine ⟨ht, hh, fun hempty => hother ?_⟩
    rw [hclaims, hempty]
  cases answer with
  | error e => exact settled_refused (by decide)
  | ok found =>
      cases found with
      | none => exact settled_refused (by decide)
      | some hashes =>
          unfold onOk
          simp only
          split
          · have hrefresh : Quiet (refreshCollected ctx upload) := by
              unfold refreshCollected
              split
              · trivial
              · exact ⟨rfl, fun _ => trivial⟩
            apply leads_first hrefresh
            exact fun _ m2 hm2 => haccepted m2 (fun howes => howed (hm2 howes))
          · have hclock : Quiet nowUnix := ⟨rfl, fun _ => trivial⟩
            apply leads_first hclock
            intro now m2 hm2
            split
            · exact haccepted m2 (fun howes => howed (hm2 howes))
            · apply Program.leads_bind (leads_storeRounds storeAttempts)
              intro outcome m3 hstored
              have hm3 : m3 = true ->
                  Said tenantId hostId ctx.tenantId ctx.hostId upload.factsHash := by
                intro howes
                rcases hstored howes with hbefore | hsaid
                · exact howed (hm2 hbefore)
                · exact hsaid
              split
              · exact haccepted m3 hm3
              · exact haccepted m3 hm3
              · exact settled_refused (by decide)
              · exact settled_refused (by decide)
              · exact settled_refused (by decide)

theorem leads_settled {p : Prog Response} (hp : Quiet p) (request : Request) :
    Leads deps tenantId hostId request (Settled request) p false := by
  apply Program.leads_mono _ (leads_quiet hp)
  intro response m1 howes _
  rw [Bool.eq_false_iff]
  intro hm1
  cases howes hm1

theorem leads_upload (body : UploadBody) :
    Leads deps tenantId hostId (uploading ctx admitted body)
      (Settled (uploading ctx admitted body)) (upload deps ctx body) false := by
  have hrefuse : forall status hash message, Quiet (refuse ctx status hash message) :=
    fun _ _ _ => ⟨rfl, fun _ => trivial⟩
  cases body with
  | tooLarge => exact leads_settled (hrefuse _ _ _) _
  | unreadable => exact fun _ => rfl
  | bytes body =>
      unfold upload
      cases hparse : deps.parseUpload body with
      | error e =>
          simp only [hparse]
          exact leads_settled (hrefuse _ _ _) _
      | ok parsed =>
          simp only [hparse]
          apply leads_uploadParsed
          show (deps.parseUpload body).toOption.map FactsUpload.factsHash = _
          rw [hparse]
          rfl

/-!
## Agents' requests
-/

theorem leads_next {p : Prog alpha} {f : alpha -> Prog beta} {Q : beta -> Bool -> Prop}
    (hp : Quiet p) (hf : forall a, Leads deps tenantId hostId request Q (f a) false) :
    Leads deps tenantId hostId request Q (p >>= f) false := by
  apply leads_first hp
  intro a m1 hm1
  have howes : m1 = false := by
    rw [Bool.eq_false_iff]
    intro howes
    cases hm1 howes
  rw [howes]
  exact hf a

theorem leads_quietCall {a : op.Res} {m' : Bool} (hop : quiet op = true)
    (hstep : OwingStep deps tenantId hostId request op a false m') : m' = false := by
  rw [Bool.eq_false_iff]
  intro howes
  cases kept_of_quiet hop hstep howes

theorem leads_executeOr {s : Statement} {failed : beta} {next : s.Answer -> Prog beta}
    {Q : beta -> Bool -> Prop} (hs : quiet (Op.statement s) = true) (hfailed : Q failed false)
    (hnext : forall a, Leads deps tenantId hostId request Q (next a) false) :
    Leads deps tenantId hostId request Q (executeOr s failed next) false := by
  intro answer m1 hstep
  rw [leads_quietCall hs hstep]
  cases answer with
  | error e => exact hfailed
  | ok a => exact hnext a

theorem leads_askOr {q : Query} {failed : beta} {next : q.Answer -> Prog beta}
    {Q : beta -> Bool -> Prop} (hq : quiet (Op.query q) = true) (hfailed : Q failed false)
    (hnext : forall a, Leads deps tenantId hostId request Q (next a) false) :
    Leads deps tenantId hostId request Q (askOr q failed next) false := by
  intro answer m1 hstep
  rw [leads_quietCall hq hstep]
  cases answer with
  | error e => exact hfailed
  | ok a => exact hnext a

theorem leads_desiredState {q : DesiredStateQuery}
    (hclaims : advertises deps request = q.factsHash.bind normalizeHash) :
    Leads deps tenantId hostId request (fun _ m' => m' = false) (desiredState deps ctx q)
      false := by
  have hask : Quiet (ask (Query.tenant ctx.tenantId)) := ⟨rfl, fun _ => trivial⟩
  have hseen : Quiet (executeLogged (Statement.touchLastSeenIfStale ctx.tenantId ctx.hostId
      lastSeenRefreshSecs)) := ⟨rfl, fun _ => trivial⟩
  apply leads_next hask
  intro tenant
  apply leads_next hseen
  intro _
  apply Program.leads_bind (leads_advertise (fun _ _ => hclaims))
  intro header m1 hm1
  rw [hm1]
  apply leads_next (quiet_computeForPoll deps ctx _)
  intro computed
  cases computed with
  | error e => rfl
  | ok state => rfl

theorem leads_reportTags {body : StateReport}
    (hclaims : advertises deps request = body.factsHash.bind normalizeHash) :
    Leads deps tenantId hostId request (fun _ m' => m' = false) (reportTags deps ctx body)
      false := by
  have hfacts : Leads deps tenantId hostId request (fun _ m' => m' = false)
      (reportFacts deps ctx body) false :=
    Program.leads_bind (leads_advertise (fun _ _ => hclaims)) (fun _ _ howes => howes)
  unfold reportTags
  split
  · exact hfacts
  · split
    · rfl
    · apply leads_executeOr
      · rfl
      · rfl
      · intro changed
        cases changed with
        | false => exact hfacts
        | true => exact leads_next ⟨rfl, fun _ => trivial⟩ (fun _ => hfacts)

theorem leads_stateReport {body : StateReport}
    (hclaims : advertises deps request = body.factsHash.bind normalizeHash) :
    Leads deps tenantId hostId request (fun _ m' => m' = false) (stateReport deps ctx body)
      false := by
  have hrest : Leads deps tenantId hostId request (fun _ m' => m' = false)
      (reportRest deps ctx body) false :=
    leads_next (quiet_reportFlags ctx body) (fun _ => leads_reportTags hclaims)
  unfold stateReport
  split
  · split
    · rfl
    · exact leads_executeOr rfl rfl (fun _ => hrest)
  · exact leads_next ⟨rfl, fun _ => trivial⟩ (fun _ => hrest)

theorem leads_agentHandler {n : Nat} (r : AgentRequest) :
    Leads deps tenantId hostId (Request.http (HttpRequest.agent ctx admitted r))
      (Settled (Request.http (HttpRequest.agent ctx admitted r)))
      (agentHandler deps n ctx r) false := by
  cases r with
  | heartbeat => exact leads_settled (quiet_heartbeat ctx) _
  | desiredState q =>
      have hleads := @leads_desiredState deps tenantId hostId
        (Request.http (HttpRequest.agent ctx admitted (AgentRequest.desiredState q))) ctx q rfl
      apply Program.leads_mono _ hleads
      exact fun _ _ howes _ => howes
  | stateReport body =>
      have hleads := @leads_stateReport deps tenantId hostId
        (Request.http (HttpRequest.agent ctx admitted (AgentRequest.stateReport body))) ctx
        body rfl
      apply Program.leads_mono _ hleads
      exact fun _ _ howes _ => howes
  | renew csrPem => exact leads_settled (quiet_renew deps n ctx csrPem) _
  | download bundleId => exact leads_settled (quiet_download deps ctx bundleId) _
  | uploadFacts body => exact leads_upload body

theorem leads_tierLayer {next : Prog Response}
    (hnext : Leads deps tenantId hostId request (Settled request) next false) :
    Leads deps tenantId hostId request (Settled request) (tierLayer ctx admitted next)
      false := by
  apply leads_askOr rfl (fun _ => rfl)
  intro standing
  split
  · exact fun _ => rfl
  · apply leads_next (quiet_retireIfSuperseded ctx standing)
    intro _
    apply leads_askOr rfl (fun _ => rfl)
    intro tenant
    cases tenant with
    | none => exact fun _ => rfl
    | some tenant =>
        simp only
        split
        · exact fun _ => rfl
        · exact hnext

theorem leads_request {n : Nat} (r : AgentRequest) :
    Leads deps tenantId hostId (Request.http (HttpRequest.agent ctx admitted r))
      (fun answer m =>
        gotThrough (Request.http (HttpRequest.agent ctx admitted r)) answer = true -> m = false)
      (program deps n (Request.http (HttpRequest.agent ctx admitted r))) false :=
  Program.leads_bind (leads_tierLayer (leads_agentHandler r)) (fun _ _ hsettled => hsettled)

end Leads

/-!
# Steps and what they owe
-/

/-- What a call leaves owing was owed, or has just been said; and the empty
document is still on record. -/
theorem owing_call {note : Owing} {m' : Bool}
    (hm : m' = ((owing deps tenantId hostId).onCall i request op w v note).2 i)
    (h : m' = true) :
    (emptyReport tenantId hostId v.db).isSome = true ∧
      (note.2 i = true ∨ exists event,
        factsEvent deps tenantId hostId i request op w v = some event ∧
          event.saysEmpty = false) := by
  rw [hm] at h
  simp only [if_true, Bool.and_eq_true, Bool.or_eq_true] at h
  refine ⟨h.1, ?_⟩
  rcases h.2 with hevent | hbefore
  · rcases (Option.any_eq_true _ _).mp hevent with ⟨event, hsome, hother⟩
    rw [Bool.not_eq_true'] at hother
    exact Or.inr ⟨event, hsome, hother⟩
  · exact Or.inl hbefore

theorem event_same (htakes : takesUp tenantId hostId op = false)
    (hsame : heldHash tenantId hostId v.db = heldHash tenantId hostId w.db) :
    factsEvent deps tenantId hostId i request op w v = none := by
  unfold factsEvent
  rw [if_neg (Bool.eq_false_iff.mp htakes), if_pos hsame]

theorem owed_same {note : Owing} (htakes : takesUp tenantId hostId op = false)
    (hsame : heldHash tenantId hostId v.db = heldHash tenantId hostId w.db)
    (howes : ((owing deps tenantId hostId).onCall i request op w v note).2 i = true) :
    note.2 i = true := by
  rcases (owing_call rfl howes).2 with hbefore | ⟨event, hevent, _⟩
  · exact hbefore
  · rw [event_same htakes hsame] at hevent
    cases hevent

/-- An update after which nothing is on record. -/
theorem emptyReport_gone {t : Int} {h : String} {p : HostRow -> Bool}
    {f : HostRow -> HostRow} (hf : forall r, isHost t h (f r) = isHost t h r)
    (hrow : forall r, rowReport (if p r then f r else r) = none) :
    emptyReport t h
      { db with hosts := Table.updateWhere (fun r => isHost t h r && p r) f db.hosts } =
        none := by
  rw [emptyReport_updateWhere hf]
  cases hfind : db.hosts.find? (isHost t h) with
  | none => rfl
  | some r =>
      have hmatch : isHost t h r = true := List.find?_some hfind
      rw [Option.bind_some, hmatch, Bool.true_and]
      exact hrow r

theorem emptyReport_otherHash {t : Int} {h hash : String} {now : Int} {changed : Bool}
    (hother : hash ≠ emptyFactsHash)
    (htx : HostFactsRepo.setReportedHash t h hash now db = Except.ok (changed, db')) :
    emptyReport t h db' = none := by
  have hnone : some hash ≠ some emptyFactsHash := fun hempty => hother (Option.some.inj hempty)
  cases htx
  refine emptyReport_gone (fun _ => rfl) (fun r => ?_)
  split
  · exact if_neg hnone
  · rename_i hsame
    rw [bne_iff_ne, ne_eq, not_not] at hsame
    unfold rowReport
    rw [hsame, if_neg hnone]

theorem emptyReport_noHash {t : Int} {h : String} {now : Int} {changed : Bool}
    (htx : HostFactsRepo.clearReportedHash t h now db = Except.ok (changed, db')) :
    emptyReport t h db' = none := by
  cases htx
  refine emptyReport_gone (fun _ => rfl) (fun r => ?_)
  split
  · rfl
  · rename_i hsame
    rw [Bool.not_eq_true, Option.isSome_eq_false_iff, Option.isNone_iff_eq_none] at hsame
    unfold rowReport
    rw [hsame]
    rfl

theorem owed_lookup {note : Owing} {t : Int} {h : String}
    (howes : ((owing deps tenantId hostId).onCall i request
      (Op.query (Query.factsHashes t h)) w w note).2 i = true) :
    note.2 i = true ∨
      (tenantId = t ∧ hostId = h ∧ advertises deps request ≠ some emptyFactsHash ∧
        (emptyReport t h w.db).isSome = true) := by
  cases htakes : takesUp tenantId hostId (Op.query (Query.factsHashes t h)) with
  | false => exact Or.inl (owed_same htakes rfl howes)
  | true =>
      have hkey := htakes
      unfold takesUp at hkey
      rw [Bool.and_eq_true, beq_iff_eq, beq_iff_eq] at hkey
      rcases hkey with ⟨rfl, rfl⟩
      have hcall := owing_call rfl howes
      rcases hcall.2 with hbefore | ⟨event, hevent, hother⟩
      · exact Or.inl hbefore
      · unfold factsEvent at hevent
        rw [if_pos htakes] at hevent
        cases hevent
        exact Or.inr ⟨rfl, rfl, beq_eq_false_iff_ne.mp hother, hcall.1⟩

theorem heldHash_other {s : Statement} (hcall : agentStatement s = true)
    (hkeys : FactsKeys w.db)
    (hother : forall doc keep, s ≠ Statement.replaceFacts tenantId hostId doc keep) :
    heldHash tenantId hostId (s.exec w).2.db = heldHash tenantId hostId w.db := by
  rcases statement_exec s w with ⟨e, _, hexec⟩ | ⟨answer, db', htx, hexec⟩
  · rw [hexec]
  · rw [hexec]
    rcases heldHash_statement hcall hkeys htx with hsame | ⟨doc, keep, hs, _⟩
    · exact hsame
    · exact absurd hs (hother doc keep)

theorem owed_set {note : Owing} {t : Int} {h hash : String} (hkeys : FactsKeys w.db)
    (howes : ((owing deps tenantId hostId).onCall i request
      (Op.statement (Statement.setReportedHash t h hash)) w
      ((Statement.setReportedHash t h hash).exec w).2 note).2 i = true) :
    note.2 i = true ∧ (tenantId = t -> hostId = h -> hash = emptyFactsHash) := by
  constructor
  · exact owed_same rfl (heldHash_other rfl hkeys (fun _ _ => Statement.noConfusion)) howes
  · intro ht hh
    by_contra hother
    have hsome := (owing_call rfl howes).1
    rcases statement_exec (Statement.setReportedHash t h hash) w with
      ⟨e, htx, _⟩ | ⟨answer, db', htx, hexec⟩
    · cases htx
    · rw [hexec, ht, hh, emptyReport_otherHash hother htx] at hsome
      cases hsome

theorem owed_clear {note : Owing} {t : Int} {h : String} (hkeys : FactsKeys w.db)
    (howes : ((owing deps tenantId hostId).onCall i request
      (Op.statement (Statement.clearReportedHash t h)) w
      ((Statement.clearReportedHash t h).exec w).2 note).2 i = true) :
    note.2 i = true ∧ ¬ (tenantId = t ∧ hostId = h) := by
  constructor
  · exact owed_same rfl (heldHash_other rfl hkeys (fun _ _ => Statement.noConfusion)) howes
  · rintro ⟨ht, hh⟩
    have hsome := (owing_call rfl howes).1
    rcases statement_exec (Statement.clearReportedHash t h) w with
      ⟨e, htx, _⟩ | ⟨answer, db', htx, hexec⟩
    · cases htx
    · rw [hexec, ht, hh, emptyReport_noHash htx] at hsome
      cases hsome

theorem owed_store {note : Owing} {t : Int} {h : String} {doc : NewFacts} {keep : Int}
    (hkeys : FactsKeys w.db)
    (howes : ((owing deps tenantId hostId).onCall i request
      (Op.statement (Statement.replaceFacts t h doc keep)) w
      ((Statement.replaceFacts t h doc keep).exec w).2 note).2 i = true) :
    note.2 i = true ∨ (tenantId = t ∧ hostId = h ∧ doc.factsHash ≠ emptyFactsHash) := by
  rcases (owing_call rfl howes).2 with hbefore | ⟨event, hevent, hother⟩
  · exact Or.inl hbefore
  · rcases statement_exec (Statement.replaceFacts t h doc keep) w with
      ⟨e, _, hexec⟩ | ⟨answer, db', htx, hexec⟩
    · rw [hexec, event_same rfl rfl] at hevent
      cases hevent
    · rw [hexec] at hevent
      rcases @heldHash_statement tenantId hostId w.db db' _ _ _ rfl hkeys htx with
        hsame | ⟨doc', keep', hreplace, _, hheld⟩
      · rw [event_same rfl hsame] at hevent
        cases hevent
      · cases hreplace
        refine Or.inr ⟨rfl, rfl, fun hempty => ?_⟩
        unfold factsEvent at hevent
        rw [if_neg (fun htakes => by cases htakes), hheld] at hevent
        split at hevent
        · cases hevent
        · cases hevent
          exact beq_eq_false_iff_ne.mp hother hempty

/-- A call that succeeds does to what its request owes what `OwingStep` says. -/
theorem owingStep_exec {note : Owing} (hkeys : FactsKeys w.db)
    (hworld : v = (exec op w).2) :
    OwingStep deps tenantId hostId request op (exec op w).1 (note.2 i)
      (((owing deps tenantId hostId).onCall i request op w v note).2 i) := by
  subst hworld
  cases op with
  | query q =>
      cases q with
      | factsHashes t h =>
          intro howes
          rcases owed_lookup howes with hbefore | ⟨ht, hh, hother, hempty⟩
          · exact Or.inl hbefore
          · refine Or.inr ⟨ht, hh, hother, HostFactsRepo.hashes t h w.db, rfl, hempty⟩
      | _ => exact fun _ howes => owed_same rfl rfl howes
  | statement s =>
      cases s with
      | setReportedHash t h hash =>
          intro howes
          have howed := owed_set hkeys howes
          exact ⟨howed.1, fun ht hh => Or.inl (howed.2 ht hh)⟩
      | clearReportedHash t h =>
          intro howes
          have howed := owed_clear hkeys howes
          exact ⟨howed.1, fun ht hh => absurd ⟨ht, hh⟩ howed.2⟩
      | replaceFacts t h doc keep => exact fun howes => owed_store hkeys howes
      | _ =>
          intro hcall howes
          apply owed_same rfl _ howes
          exact heldHash_other hcall hkeys (fun _ _ => Statement.noConfusion)
  | storeGet t id =>
      intro _ howes
      apply owed_same rfl _ howes
      rw [exec_storeGet_world]
  | _ => exact fun _ howes => owed_same rfl rfl howes

theorem sameHost {t : Int} {h : String} (ht : tenantId = t) (hh : hostId = h) :
    (t == tenantId && h == hostId) = true := by
  rw [ht, hh, beq_self_eq_true, beq_self_eq_true, Bool.and_true]

theorem owingStep_fault {note : Owing} (a : op.Res)
    (hkept : minds tenantId hostId op = true -> advertises deps request = some emptyFactsHash) :
    OwingStep deps tenantId hostId request op a (note.2 i)
      (((owing deps tenantId hostId).onCall i request op w w note).2 i) := by
  cases op with
  | query q =>
      cases q with
      | factsHashes t h =>
          intro howes
          rcases owed_lookup howes with hbefore | ⟨ht, hh, hother, hempty⟩
          · exact Or.inl hbefore
          · exact absurd (hkept (sameHost ht hh)) hother
      | _ => exact fun _ howes => owed_same rfl rfl howes
  | statement s =>
      cases s with
      | setReportedHash t h hash =>
          intro howes
          exact ⟨owed_same rfl rfl howes, fun ht hh => Or.inr (hkept (sameHost ht hh))⟩
      | clearReportedHash t h =>
          intro howes
          exact ⟨owed_same rfl rfl howes, fun ht hh => hkept (sameHost ht hh)⟩
      | replaceFacts t h doc keep => exact fun howes => Or.inl (owed_same rfl rfl howes)
      | _ => exact fun _ howes => owed_same rfl rfl howes
  | _ => exact fun _ howes => owed_same rfl rfl howes

/-!
# Every run
-/

section Runs

variable {start note : FactsLog} {p q : Pool (service deps)} {c : Choice (service deps)}

/-- A step of an agent's request that keeps to its turn. -/
def ofTurn (deps : Deps) (tenantId : Int) (hostId : String) (p : Pool (service deps))
    (log : FactsLog) (c : Choice (service deps)) (q : Pool (service deps)) : Prop :=
  ofAgents c = true ∧ inTurn deps tenantId hostId p log c q = true

theorem inTurn_call (h : inTurn deps tenantId hostId p log c q = true)
    (hcaller : p.caller? c = some (i, request, op)) :
    (fails c = true -> minds tenantId hostId op = true ->
      advertises deps request = some emptyFactsHash) ∧
    (takesUp tenantId hostId op = true -> advertises deps request = some emptyFactsHash ->
      (emptyReport tenantId hostId p.world.db).isSome = true ->
        (lastOtherwise log).all (answered p) = true) ∧
    (turnsEmpty tenantId hostId p.world.db q.world.db = true -> unbroken i log = true) := by
  unfold inTurn at h
  rw [hcaller] at h
  simp only [Bool.and_eq_true, Bool.or_eq_true] at h
  refine ⟨fun hfails hminds => ?_, fun htakes hempty hreport => ?_, fun hturn => ?_⟩
  · rcases h.1.1 with hnone | hempty
    · rw [hfails, hminds] at hnone
      cases hnone
    · exact beq_iff_eq.mp hempty
  · rcases h.1.2 with hnone | hanswered
    · rw [htakes, hempty, hreport, beq_self_eq_true] at hnone
      cases hnone
    · exact hanswered
  · rcases h.2 with hnone | hunbroken
    · rw [hturn] at hnone
      cases hnone
    · exact hunbroken

variable {owed : Owing}

/-- A run of agents' requests in turn, with what they owe. -/
abbrev InTurn (deps : Deps) (tenantId : Int) (hostId : String) (w : World) (start : FactsLog)
    (p : Pool (service deps)) (owed : Owing) : Prop :=
  Recorded (owing deps tenantId hostId)
    (fun p note c q => ofTurn deps tenantId hostId p note.1 c q) (Pool.init w)
    (start, fun _ => false) p owed

theorem accounted_run (hstart : Accounted tenantId hostId w.db (start, fun _ => false))
    (hrun : InTurn deps tenantId hostId w start p owed) :
    Accounted tenantId hostId p.world.db owed := by
  induction hrun with
  | refl => exact hstart
  | tail _ hallowed hstep ih =>
      unfold Recorder.record
      rcases Pool.step_cases hstep with ⟨r, _, hcaller, hq⟩ | ⟨e, _, hcaller, hq⟩ |
        ⟨j, r, op, next, a, hcaller, _, _, _⟩
      · rw [hcaller, hq]
        exact ih
      · rw [hcaller, hq]
        exact ih
      · rw [hcaller]
        exact accounted_call ih (inTurn_call hallowed.2 hcaller).2.2

theorem factsKeys_run (hkeys : FactsKeys w.db)
    (hrun : InTurn deps tenantId hostId w start p owed) : FactsKeys p.world.db := by
  apply hrun.run.world_invariant (fun (w : World) => FactsKeys w.db) _ _ hkeys
  · exact fun p c op _ _ hbefore => @factsKeys_exec op p.world hbefore
  · exact fun e w hbefore => hbefore

/-- A request that got through owes nothing. -/
theorem settled_of_answered (hkeys : FactsKeys w.db)
    (hrun : InTurn deps tenantId hostId w start p owed) {j : Nat}
    (hanswered : answered p j = true) : owed.2 j = false := by
  have hspawn : forall (p : Pool (service deps)) (r : Request) (note : Owing)
      (q : Pool (service deps)), ofTurn deps tenantId hostId p note.1 (Choice.spawn r) q ->
      Program.Leads (OwingStep deps tenantId hostId r)
        (fun answer m => gotThrough r answer = true -> m = false)
        (program deps p.threads.length r) false := by
    intro p r note q hallowed
    cases r with
    | http r =>
        cases r with
        | agent ctx admitted r => exact leads_request r
        | _ => cases hallowed.1
    | reconcile t shown dir dryRun => cases hallowed.1
  have hother : forall (i j : Nat) (request : Request) (op : Op) (w v : World) (note : Owing),
      j ≠ i -> ((owing deps tenantId hostId).onCall i request op w v note).2 j = note.2 j :=
    fun i j request op w v note hij => if_neg hij
  have hleads := Recorded.leads (fun p note r q hallowed => hspawn p r note q hallowed.1)
    (fun p note q i request op hallowed _ hworld =>
      owingStep_exec (factsKeys_run hkeys hallowed.2) hworld)
    (fun p note q i request op a hallowed hcaller _ hworld => by
      rw [hworld]
      exact owingStep_fault a ((inTurn_call hallowed.1.2 hcaller).1 rfl))
    hother (fun _ => rfl) hrun.within
  unfold answered at hanswered
  split at hanswered
  · rename_i request answer hget
    exact hleads.1 j _ hget hanswered
  · cases hanswered

theorem stepOnTime_of_inTurn (hkeys : FactsKeys w.db)
    (hstart : Accounted tenantId hostId w.db (start, fun _ => false))
    (hrun : Recorded (exchanges deps tenantId hostId) (ofTurn deps tenantId hostId)
      (Pool.init w) start p note)
    (hturn : inTurn deps tenantId hostId p note c q = true) :
    stepOnTime deps tenantId hostId p note c q = true := by
  have hcall : forall (i : Nat) (request : Request) (op : Op) (w v : World) (owed : Owing),
      ((owing deps tenantId hostId).onCall i request op w v owed).1 =
        (exchanges deps tenantId hostId).onCall i request op w v owed.1 :=
    fun _ _ _ _ _ _ => rfl
  have hlift : exists owed : Owing, owed.1 = note ∧ InTurn deps tenantId hostId w start p owed :=
    hrun.lift hcall rfl
  rcases hlift with ⟨owed, rfl, howing⟩
  unfold stepOnTime
  cases hcaller : p.caller? c with
  | none => rfl
  | some call =>
      rcases call with ⟨i, request, op⟩
      have hcall := inTurn_call hturn hcaller
      show onTime deps tenantId hostId i request op p.world.db q.world.db owed.1 = true
      unfold onTime
      rw [Bool.and_eq_true, Bool.or_eq_true, Bool.or_eq_true]
      constructor
      · cases hlooks : (takesUp tenantId hostId op &&
            advertises deps request == some emptyFactsHash &&
            (emptyReport tenantId hostId p.world.db).isSome) with
        | false => exact Or.inl rfl
        | true =>
            rw [Bool.and_eq_true, Bool.and_eq_true, beq_iff_eq] at hlooks
            right
            rcases accounted_run hstart howing hlooks.2 with hsaid | ⟨j, hlast, howes⟩
            · exact hsaid
            · -- Whoever spoke last got through, and so owes nothing.
              have hanswered := hcall.2.1 hlooks.1.1 hlooks.1.2 hlooks.2
              rw [hlast] at hanswered
              rw [settled_of_answered hkeys howing hanswered] at howes
              cases howes
      · cases hcleared : cleared tenantId hostId p.world.db q.world.db with
        | false => exact Or.inl rfl
        | true =>
            right
            apply hcall.2.2
            unfold turnsEmpty
            rw [hcleared, Bool.true_or]

end Runs

/-!
# The grace period is kept
-/

/-- However polls, reports and uploads interleave and fail, as long as the host's
requests that say different things keep their turn an inventory is cleared only
after the host has said for the whole grace period that its document is empty. -/
theorem cleared_after_grace (deps : Deps) (tenantId : Int) (hostId : String) {w : World}
    {log note : FactsLog} (hstart : Vouched tenantId hostId (w, log))
    (hreported : (emptyReport tenantId hostId w.db).isSome = true ->
      (saidEmptySince log).isSome = true)
    {p q : Pool (service deps)} {c : Choice (service deps)}
    (hrun : Recorded (exchanges deps tenantId hostId)
      (fun p log c q => ofAgents c = true ∧ inTurn deps tenantId hostId p log c q = true)
      (Pool.init w) log p note)
    (hturn : inTurn deps tenantId hostId p note c q = true)
    (hstep : p.step c = some q)
    (hcleared : cleared tenantId hostId p.world.db q.world.db = true) :
    GraceOver note p.world.now := by
  have haccounted : Accounted tenantId hostId w.db (log, fun _ => false) :=
    fun hreport => Or.inl (hreported hreport)
  have hontime : Recorded (exchanges deps tenantId hostId)
      (fun p log c q => ofAgents c = true ∧ stepOnTime deps tenantId hostId p log c q = true)
      (Pool.init w) log p note :=
    hrun.within.mono fun p note c q hallowed =>
      ⟨hallowed.1.1, stepOnTime_of_inTurn hstart.keys haccounted hallowed.2 hallowed.1.2⟩
  exact cleared_when_on_time deps tenantId hostId hstart hontime
    (stepOnTime_of_inTurn hstart.keys haccounted hrun hturn) hstep hcleared

/-!
# Two requests at once

A host that says for the whole grace period that its document is empty loses its
inventory.  It loses it too when another report says, after the request that ends
the grace period was taken up, that there is a document again.
-/

/-- Every text is an empty document. -/
def exchangeDeps : Deps :=
  { Deps.sample with parseJson := fun _ => some (Json.object []) }

def documentSaid : String :=
  String.ofList (List.replicate 64 'a')

def oneInventory : World :=
  World.start { sampleDb with
    hosts := [{ newHostRow "a" 1 0 with enrolledAt := some 0 }]
    hostCerts := [{ tenantId := 1, hostId := "a", serial := "ab", fingerprintSha256 := "",
                    issuedAt := 0, expiresAt := 10000, revokedAt := none }]
    hostFacts := [{ tenantId := 1, hostId := "a", source := agentSource,
                    factsHash := documentSaid, factsJson := "", collectedAt := none,
                    receivedAt := 0, sizeBytes := 0 }] } ∅ 0

def reports (hash : String) : Choice (service exchangeDeps) :=
  Choice.spawn (Request.http (HttpRequest.agent
    { tenantId := 1, tenantSlug := "acme", hostId := "a", serialHex := "ab" } true
    (AgentRequest.stateReport
      { appliedStateHash := none, reportedTags := none, localConfigPresent := none,
        hostOverrideLast := none, factsHash := some hash })))

/-- A report, the `n`-th request, that is answered. -/
def isTold (n : Nat) (hash : String) : List (Choice (service exchangeDeps)) :=
  [reports hash] ++ List.replicate 7 (Choice.exec n)

/-- The `n`-th request is answered; the next is taken up when the grace period is
over. -/
def graceRunsOut (n : Nat) : List (Choice (service exchangeDeps)) :=
  isTold n emptyFactsHash ++ [Choice.env (Tick.mk 600), reports emptyFactsHash] ++
    List.replicate 5 (Choice.exec (n + 1))

/-- It looks at the clock and reads the inventory it clears. -/
def goesOn (n : Nat) : List (Choice (service exchangeDeps)) :=
  [Choice.exec (n + 1), Choice.exec (n + 1)]

/-- The host reports its document, then twice the empty one. -/
def inOrder : List (Choice (service exchangeDeps)) :=
  isTold 0 documentSaid ++ graceRunsOut 1 ++ goesOn 1

/-- The host reports its document while the grace period ends. -/
def tooLate : List (Choice (service exchangeDeps)) :=
  graceRunsOut 0 ++ isTold 2 documentSaid ++ goesOn 0

theorem vouched_oneInventory : Vouched 1 "a" (oneInventory, []) := by
  constructor
  · constructor
    · decide +kernel
    · decide +kernel
    · intro r hr
      rw [List.mem_singleton.mp hr]
      exact ⟨_, List.mem_cons_self, rfl, rfl⟩
  · intro said hsaid
    cases hsaid
  · intro since said _ hsaid
    cases hsaid

theorem cleared_after_grace_reports :
    exists (p q : Pool (service exchangeDeps)) (note : FactsLog),
      p.step (Choice.exec 2) = some q ∧
      cleared 1 "a" p.world.db q.world.db = true ∧ GraceOver note p.world.now := by
  let x := Recorded.after (exchanges exchangeDeps 1 "a")
    (fun p log c q => ofAgents c && inTurn exchangeDeps 1 "a" p log c q)
    (Pool.init oneInventory) [] inOrder (by decide +kernel)
  let q := (x.1.step (Choice.exec 2)).get (by decide +kernel)
  have hrun := Recorded.of_after (exchanges exchangeDeps 1 "a")
    (fun p log c q => ofAgents c && inTurn exchangeDeps 1 "a" p log c q)
    (Pool.init oneInventory) [] inOrder (by decide +kernel)
  have hstep : x.1.step (Choice.exec 2) = some q := (Option.some_get _).symm
  have hturn : inTurn exchangeDeps 1 "a" x.1 x.2 (Choice.exec 2) q = true := by
    decide +kernel
  have hcleared : cleared 1 "a" x.1.world.db q.world.db = true := by decide +kernel
  have hrun : Recorded (exchanges exchangeDeps 1 "a")
      (fun p log c q => ofAgents c = true ∧ inTurn exchangeDeps 1 "a" p log c q = true)
      (Pool.init oneInventory) [] x.1 x.2 :=
    hrun.mono (fun _ _ _ _ hok => Bool.and_eq_true_iff.mp hok)
  clear_value q x
  exact ⟨x.1, q, x.2, hstep, hcleared,
    cleared_after_grace exchangeDeps 1 "a" vouched_oneInventory (by decide +kernel) hrun hturn
      hstep hcleared⟩

/-- The second report clears the inventory although the host has said otherwise. -/
theorem cleared_though_said_otherwise :
    exists (p q : Pool (service exchangeDeps)) (note : FactsLog),
      Recorded (exchanges exchangeDeps 1 "a") (fun _ _ c _ => ofAgents c = true)
        (Pool.init oneInventory) [] p note ∧
      p.step (Choice.exec 1) = some q ∧
      cleared 1 "a" p.world.db q.world.db = true ∧
      latestSaid note = some (some documentSaid) ∧ ¬ GraceOver note p.world.now := by
  let x := Recorded.after (exchanges exchangeDeps 1 "a") (fun _ _ c _ => ofAgents c)
    (Pool.init oneInventory) [] tooLate (by decide +kernel)
  let q := (x.1.step (Choice.exec 1)).get (by decide +kernel)
  have hrun := Recorded.of_after (exchanges exchangeDeps 1 "a") (fun _ _ c _ => ofAgents c)
    (Pool.init oneInventory) [] tooLate (by decide +kernel)
  have hstep : x.1.step (Choice.exec 1) = some q := (Option.some_get _).symm
  have hcleared : cleared 1 "a" x.1.world.db q.world.db = true := by decide +kernel
  have hlatest : latestSaid x.2 = some (some documentSaid) := by decide +kernel
  have hnone : saidEmptySince x.2 = none := by decide +kernel
  have hrun : Recorded (exchanges exchangeDeps 1 "a") (fun _ _ c _ => ofAgents c = true)
      (Pool.init oneInventory) [] x.1 x.2 := hrun
  clear_value q x
  refine ⟨x.1, q, x.2, hrun, hstep, hcleared, hlatest, ?_⟩
  intro hover
  rcases hover with ⟨since, hsince, _⟩
  rw [hnone] at hsince
  cases hsince

end Facts
end FleetServer
