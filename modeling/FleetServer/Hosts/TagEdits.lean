import FleetServer.Agent.Polls
import FleetServer.Server.Calls
import FleetServer.Storage.Documents
import FleetServer.Storage.ManualTags

/-!
# An operator's edits of a host's tags

`put_tag` reads the stored value, writes, and drops the host's cached state if the
two values differ; `delete_tag` drops it if there was a tag.  Any number of them on
one host at once, and the host's polls in between.
-/

namespace FleetServer
namespace Hosts

open FleetServer.Core
open Storage
open Server
open Concurrency
open Agent
open Agent.Coherence

variable {who : AuthedUser} {hostId : String} {request : Request}

def tagRequest (key : HostKey) : Request -> Bool
  | Request.http r =>
      match r with
      | HttpRequest.putTag who hostId _ _ => decide (key = (who.tenantId, hostId))
      | HttpRequest.deleteTag who hostId _ => decide (key = (who.tenantId, hostId))
      | HttpRequest.desired who hostId => decide (key = (who.tenantId, hostId))
      | HttpRequest.agent ctx _ (AgentRequest.desiredState _) =>
          decide (key = (ctx.tenantId, ctx.hostId))
      | HttpRequest.agent ctx _ (AgentRequest.download _) =>
          decide (key = (ctx.tenantId, ctx.hostId))
      | _ => false
  | Request.reconcile _ _ _ _ => false

def tagCall (key : HostKey) : Op -> Bool
  | Op.statement s =>
      match s with
      | Statement.upsertManualTag tenantId hostId _ _ => decide (key = (tenantId, hostId))
      | Statement.deleteManualTag tenantId hostId _ => decide (key = (tenantId, hostId))
      | s => pollCall key (Op.statement s)
  | _ => true

variable {deps : Deps} {key : HostKey} {n : Nat}

theorem tagCall_of_pollCall {op : Op} (h : pollCall key op = true) : tagCall key op = true := by
  cases op with
  | statement s =>
      cases s with
      | upsertManualTag tenantId hostId tag value => cases h
      | deleteManualTag tenantId hostId tag => cases h
      | _ => exact h
  | _ => rfl

abbrev EditsTags (key : HostKey) {alpha : Type} (p : Prog alpha) : Prop :=
  Program.Uses (fun op => tagCall key op = true) p

theorem tagCall_of_reads {op : Op} (h : op.reads = true) : tagCall key op = true :=
  tagCall_of_pollCall (pollCall_of_sparesDb (sparesDb_of_reads h))

theorem edits_desired :
    EditsTags key (desired deps who hostId) := by
  apply uses_askOr (P := fun op => tagCall key op = true) rfl
  intro host
  cases host with
  | none => trivial
  | some host =>
      apply Program.uses_bind
      · apply Program.uses_mono _ (sparesDb_computeDesiredState who.tenantId hostId)
        exact fun _ hop => tagCall_of_pollCall (pollCall_of_sparesDb hop)
      · intro computed
        cases computed with
        | error e => trivial
        | ok state => trivial

theorem edits_program (h : tagRequest key request = true) :
    EditsTags key (program deps n request) := by
  cases request with
  | reconcile tenantId shown dir dryRun => cases h
  | http r =>
      apply uses_program_http
      have hpoll : forall {p : Prog Response}, Polls key p -> EditsTags key p :=
        fun hp => Program.uses_mono (fun _ => tagCall_of_pollCall) hp
      cases r with
      | putTag who hostId tag value =>
          exact uses_putTag (fun _ => tagCall_of_reads) h rfl
      | deleteTag who hostId tag =>
          exact uses_deleteTag (fun _ => tagCall_of_reads) h rfl
      | desired who hostId => exact edits_desired
      | agent ctx admitted r =>
          cases r with
          | desiredState q =>
              rw [show key = (ctx.tenantId, ctx.hostId) from of_decide_eq_true h] at hpoll ⊢
              exact hpoll (polls_tierLayer (polls_desiredState ctx q))
          | download bundleId =>
              rw [show key = (ctx.tenantId, ctx.hostId) from of_decide_eq_true h] at hpoll ⊢
              exact hpoll (polls_tierLayer (polls_download ctx bundleId))
          | _ => cases h
      | _ => cases h

/-!
# What they do to the host
-/

/-- The host is there, and its tags are under its tenant, one row for each key and
source. -/
structure TagTable (key : HostKey) (db : Db) : Prop where
  host : HasHost key db
  keys : HostTagsRepo.TagKeys db.hostTags
  owner : HostTagsRepo.TagsOf key.1 key.2 db.hostTags

theorem tagTable_of_same {db db' : Db} (h : TagTable key db) (hhosts : db.Same Part.hosts db')
    (htags : db.Same Part.tags db') : TagTable key db' := by
  have hrows : db'.hostTags = db.hostTags := htags
  constructor
  · exact hostsShrink_of_same hhosts.symm key h.host
  · rw [hrows]
    exact h.keys
  · rw [hrows]
    exact h.owner

theorem tagTable_exec {op : Op} (hop : tagCall key op = true) {w : World}
    (h : TagTable key w.db) : TagTable key (exec op w).2.db := by
  have hsame : Part.tags ∉ op.writes -> Part.hosts ∉ op.writes ->
      TagTable key (exec op w).2.db :=
    fun htags hhosts => tagTable_of_same h (exec_same hhosts w) (exec_same htags w)
  cases op with
  | statement s =>
      cases s with
      | upsertManualTag tenantId hostId tag value =>
          have hkey : key = (tenantId, hostId) := of_decide_eq_true hop
          show TagTable key (Statement.exec _ w).2.db
          unfold Statement.exec
          split
          · rename_i answer db htx
            simp only [Statement.tx, HostTagsRepo.upsertManual] at htx
            have heq := (Tx.guarded_eq_ok.mp htx).2
            cases heq
            constructor
            · exact h.host
            · exact HostTagsRepo.tagKeys_putRow h.keys
            · apply HostTagsRepo.tagsOf_putRow h.owner
              intro _
              rw [hkey]
              rfl
          · exact h
      | deleteManualTag tenantId hostId tag =>
          constructor
          · exact h.host
          · exact HostTagsRepo.tagKeys_deleteWhere h.keys _
          · exact HostTagsRepo.tagsOf_deleteWhere h.owner _
      | touchLastSeenIfStale tenantId hostId secs =>
          exact hsame (by simp [Op.writes, Statement.writes]) (by simp [Op.writes, Statement.writes])
      | retireSuperseded tenantId hostId serial =>
          exact hsame (by simp [Op.writes, Statement.writes]) (by simp [Op.writes, Statement.writes])
      | setReportedHash tenantId hostId hash =>
          exact hsame (by simp [Op.writes, Statement.writes]) (by simp [Op.writes, Statement.writes])
      | clearReportedHash tenantId hostId =>
          exact hsame (by simp [Op.writes, Statement.writes]) (by simp [Op.writes, Statement.writes])
      | replaceFacts tenantId hostId doc keep =>
          exact hsame (by simp [Op.writes, Statement.writes]) (by simp [Op.writes, Statement.writes])
      | _ => cases hop
  | _ => exact hsame (by simp [Op.writes]) (by simp [Op.writes])

/-- A tag is stored again with the value it was found to have. -/
def keepsValue (looked : Option (String × String × Option String)) (op : Op) (w : World) : Bool :=
  match op with
  | Op.statement (Statement.upsertManualTag _ hostId tag value) =>
      decide (looked ≠ some (hostId, tag, some value)) ||
        decide (HostTagsRepo.manualValue hostId tag w.db = some value)
  | _ => true

/-- Whatever a call changes of what the host's state is computed from shows in its
answer. -/
theorem shows_in_answer {looked : Option (String × String × Option String)} {op : Op}
    (hop : tagCall key op = true) {w : World} (htable : TagTable key w.db)
    (hkeeps : keepsValue looked op w = true)
    (hchanged : hostInputs key (exec op w).2.db ≠ hostInputs key w.db) :
    touches looked key op (exec op w).1 := by
  apply touches_of_changed _ hchanged
  intro s answer db hs htx hdiffers
  subst hs
  have hwrites : (forall part, part ∈ inputParts -> part ∉ s.writes) ->
      stmtTouches looked key s answer :=
    fun h => absurd (hostInputs_of_same (fun part hpart =>
      Statement.keeps (h part hpart) w.db answer db htx) key) hdiffers
  cases s with
  | upsertManualTag tenantId hostId tag value =>
      have hkey : key = (tenantId, hostId) := of_decide_eq_true hop
      refine ⟨hkey, fun hlooked => hdiffers ?_⟩
      have hvalue : HostTagsRepo.manualValue hostId tag w.db = some value := by
        simpa [keepsValue, hlooked] using hkeeps
      have howner := htable.owner
      rw [hkey] at howner
      apply hostInputs_of_rows
      · rw [hkey]
        exact HostTagsRepo.rowsForHost_upsert_same htable.keys howner hvalue htx
      · intro part _ hpart
        exact Statement.keeps (s := Statement.upsertManualTag tenantId hostId tag value)
          (by simpa [Statement.writes] using hpart) w.db _ _ htx
  | deleteManualTag tenantId hostId tag =>
      have hkey : key = (tenantId, hostId) := of_decide_eq_true hop
      cases answer with
      | true => exact ⟨rfl, hkey⟩
      | false =>
          rw [HostTagsRepo.deleteManualTag_eq_self htx] at hdiffers
          exact absurd rfl hdiffers
  | replaceFacts tenantId hostId doc keep =>
      have hkey : key = (tenantId, hostId) := of_decide_eq_true hop
      rcases HostFactsRepo.replace_cases htx with h | h | h | h
      · rw [h.2.1] at hdiffers
        exact absurd rfl hdiffers
      · rw [h.2.1] at hdiffers
        exact absurd rfl hdiffers
      · rw [h.2.1] at hdiffers
        exact absurd rfl hdiffers
      · exact ⟨h.1, hkey⟩
  | touchLastSeenIfStale tenantId hostId secs => exact hwrites (by simp [Statement.writes])
  | retireSuperseded tenantId hostId serial =>
      exact hwrites (by simp [Statement.writes, inputParts])
  | setReportedHash tenantId hostId hash => exact hwrites (by simp [Statement.writes])
  | clearReportedHash tenantId hostId => exact hwrites (by simp [Statement.writes])
  | _ => cases hop

/-!
# What they leave owed
-/

section Pays

variable {Ok : (op : Op) -> op.Res -> Prop} {K : HostKey -> Prop} {m : Course}

theorem pays_ifHostBelongs {tenantId : Int} {next : Prog Response} (h : Clear K m)
    (hnext : forall m, Clear K m -> Pays Ok K next m) :
    Pays Ok K (ifHostBelongs tenantId hostId next) m := by
  apply pays_askOr h
  intro host m hm
  cases host with
  | none => exact pays_done _ hm
  | some host => exact hnext m hm

/-- An edit that does not count as a change owes nothing, for it wrote the value it
had just looked up. -/
theorem pays_putTag {tag value : String} (h : Clear K m) :
    Pays Ok K (putTag who hostId tag value) m := by
  apply pays_guarded h
  intro _
  apply pays_ifHostBelongs h
  intro m hm
  -- Any check will do, and `apply` would set about computing this one.
  generalize checkTag tag value = check
  apply pays_guarded hm
  intro _ read m' hread
  have hclear : Clear K m' := owesOnly_idle rfl hm hread
  cases read with
  | error e => exact pays_done _ hclear
  | ok existing =>
      have hlooked : m'.looked = some (hostId, tag, existing) := hread.looked _ rfl
      apply pays_executeOr hclear
      intro _ m'' howes
      by_cases hsame : existing = some value
      · have hnone : Clear K m'' := by
          refine owesOnly_mono howes ?_
          intro key hkey
          apply hkey.2
          rw [hlooked, hsame]
        simpa [hsame] using pays_done _ hnone
      · have hone : OwesOnly K (fun key => key = (who.tenantId, hostId)) m'' :=
          owesOnly_mono howes (fun _ hkey => hkey.1)
        have hdrop : Pays Ok K (do
            invalidateHost (who.tenantId, hostId)
            return Response.noContent : Prog Response) m'' :=
          pays_invalidateHost hone (fun m hm => pays_done _ hm)
        simpa [hsame] using hdrop

theorem pays_deleteTag {tag : String} (h : Clear K m) :
    Pays Ok K (deleteTag who hostId tag) m := by
  apply pays_guarded h
  intro _
  apply pays_ifHostBelongs h
  intro m hm
  apply pays_executeOr hm
  intro found m' howes
  cases found with
  | true =>
      apply pays_invalidateHost (owesOnly_mono howes (fun _ hkey => hkey.2))
      exact fun m hm => pays_done _ hm
  | false =>
      apply pays_done
      exact owesOnly_mono howes (fun _ hkey => nomatch hkey.1)

theorem pays_desired (h : Clear K m) :
    Pays Ok K (desired deps who hostId) m := by
  apply pays_askOr h
  intro host m hm
  cases host with
  | none => exact pays_done _ hm
  | some host =>
      apply pays_bind (pays_sparesDb (sparesDb_computeDesiredState who.tenantId hostId) hm)
      intro computed m hm
      cases computed with
      | error e => exact pays_done _ hm
      | ok state => exact pays_done _ hm

theorem pays_program (hrequest : tagRequest key request = true) (h : Clear K m) :
    Pays Ok K (program deps n request) m := by
  cases request with
  | reconcile tenantId shown dir dryRun => cases hrequest
  | http r =>
      apply pays_bind _ (fun _ _ hm => pays_done _ hm)
      cases r with
      | putTag who hostId tag value => exact pays_putTag h
      | deleteTag who hostId tag => exact pays_deleteTag h
      | desired who hostId => exact pays_desired h
      | agent ctx admitted r =>
          apply pays_tierLayer h
          intro m hm
          cases r with
          | desiredState q => exact pays_desiredState ctx q hm
          | download bundleId => exact pays_download ctx bundleId hm
          | _ => cases hrequest
      | _ => cases hrequest

end Pays

theorem obeys_program {i : Nat} {x : World × Ledger} (hrequest : tagRequest key request = true) :
    Obeys deps i request (program deps n request) x := by
  cases request with
  | reconcile tenantId shown dir dryRun => cases hrequest
  | http r =>
      refine Contract.obeys_bind ?_ (fun _ _ => trivial)
      cases r with
      | putTag who hostId tag value =>
          exact obeys_plain (uses_putTag (fun _ => plain_of_reads) rfl rfl) x
      | deleteTag who hostId tag =>
          exact obeys_plain (uses_deleteTag (fun _ => plain_of_reads) rfl rfl) x
      | desired who hostId =>
          apply obeys_askOr
          intro now y z _
          cases Query.eval now y.1.db (Query.host who.tenantId hostId) with
          | none => trivial
          | some host =>
              apply Contract.obeys_bind (obeys_computeDesiredState (who.tenantId, hostId))
              intro computed _
              cases computed with
              | error e => trivial
              | ok state => trivial
      | agent ctx admitted r =>
          apply obeys_tierLayer
          intro y
          cases r with
          | desiredState q => exact obeys_desiredState ctx q
          | download bundleId => exact obeys_download ctx bundleId
          | _ => cases hrequest
      | _ => cases hrequest

/-!
# Every interleaving
-/

def startsTagRequest {deps : Deps} (key : HostKey) : Choice (service deps) -> Bool
  | Choice.spawn request => tagRequest key request
  | _ => true

/-- A `put_tag` that found the very value it is to write commits while that value is
still stored. -/
def stepKeepsValue {deps : Deps} (p : Pool (service deps)) (note : Ledger) :
    Choice (service deps) -> Bool
  | Choice.exec i =>
      match p.caller? (Choice.exec i) with
      | some (_, _, op) => keepsValue (note i).looked op p.world
      | none => true
  | _ => true

/-- Steps of edits and polls of one host, all of which keep the values they found. -/
abbrev TagSteps (deps : Deps) (key : HostKey) (p : Pool (service deps)) (note : Ledger)
    (c : Choice (service deps)) (_ : Pool (service deps)) : Prop :=
  startsTagRequest key c = true ∧ stepKeepsValue p note c = true

section Runs

variable {w : World} {p : Pool (service deps)} {note : Ledger}

theorem tagCall_of_call {c : Choice (service deps)} {op : Op}
    (hrun : Recorded (ledger deps) (TagSteps deps key) (Pool.init w) Ledger.blank p note)
    (hcall : p.call? c = some op) : tagCall key op = true := by
  apply hrun.run.uses_call? _ hcall
  intro p request hallowed
  rcases hallowed with ⟨note, q, hallowed⟩
  exact edits_program hallowed.1

theorem tagTable_run (htable : TagTable key w.db)
    (hrun : Recorded (ledger deps) (TagSteps deps key) (Pool.init w) Ledger.blank p note) :
    TagTable key p.world.db := by
  induction hrun with
  | refl => exact htable
  | tail hpre hallowed hstep ih =>
      rcases Pool.step_world hstep with hworld | ⟨op, hcall, hworld⟩ | ⟨e, _, hworld⟩
      · rw [hworld]
        exact ih
      · rw [hworld]
        exact tagTable_exec (tagCall_of_call hpre hcall) ih
      · rw [hworld]
        exact ih

theorem step_of_call {i : Nat} {op : Op} (htable : TagTable key w.db)
    (hrun : Recorded (ledger deps) (TagSteps deps key) (Pool.init w) Ledger.blank p note)
    (hkeeps : stepKeepsValue p note (Choice.exec i) = true)
    (hcaller : p.caller? (Choice.exec i) = some (i, request, op)) :
    Step (fun _ _ => True) (fun other => other = key) op (exec op p.world).1 (note i)
      ((note i).after op p.world (exec op p.world).2) := by
  apply step_exec trivial
  intro other hother _ _ hchanged
  rw [hother] at hchanged ⊢
  have hcall : p.call? (Choice.exec i) = some op := Pool.call?_of_caller? hcaller
  simp only [stepKeepsValue, hcaller] at hkeeps
  exact shows_in_answer (tagCall_of_call hrun hcall) (tagTable_run htable hrun) hkeeps hchanged

/-- Once every request was answered, a state that is cached at the tenant's version is
the one that would be computed. -/
theorem tag_edits_agree_with_cache (deps : Deps) {key : HostKey} {w : World}
    (htable : TagTable key w.db) (hcache : Coherent deps (w, Ledger.blank))
    {p : Pool (service deps)} {note : Ledger}
    (hrun : Recorded (ledger deps) (TagSteps deps key) (Pool.init w) Ledger.blank p note)
    (hanswered : forall t, t ∈ p.threads -> exists answer, t.rest = Program.done answer)
    {version : Int} {state : DesiredState}
    (hversion : p.world.db.configVersion key.1 = some version)
    (hserved : p.world.cache.served key version = some state) :
    ((computeUncached deps key.1 key.2).run machine p.world).1 = Except.ok state := by
  have howed : ¬ Owed note key := by
    have hexec : forall (p : Pool (service deps)) (note : Ledger) (q : Pool (service deps)) (i : Nat)
        (request : Request) (op : Op),
        (TagSteps deps key p note (Choice.exec i) q ∧ Recorded (ledger deps) (TagSteps deps key)
          (Pool.init w) Ledger.blank p note) ->
        p.caller? (Choice.exec i) = some (i, request, op) ->
        Step (fun _ _ => True) (fun other => other = key) op (exec op p.world).1 (note i)
          ((note i).after op p.world (exec op p.world).2) :=
      fun p note q i request op hallowed hcaller =>
        step_of_call htable hallowed.2 hallowed.1.2 hcaller
    apply not_owed_of_answered (K := fun other => other = key) _ hexec _ hrun.within hanswered rfl
    · intro p note request q hallowed
      exact pays_program hallowed.1.1 clear_blank
    · exact fun _ _ _ _ _ _ _ _ _ _ => trivial
  have hholds : (contract deps).Holds p note := by
    apply hrun.holds
    · intro p note request q hallowed
      exact obeys_program hallowed.1
    · exact fun _ _ _ _ _ _ _ _ _ => trivial
    · exact Contract.holds_init hcache
  have hhost : HasHost key p.world.db := (tagTable_run htable hrun).host
  rw [computeUncached_answer]
  rcases hholds.inv.state key version state hserved hversion hhost with hstate | hdebt
  · exact hstate
  · exact absurd hdebt howed

end Runs

/-!
# Two edits at once

A `put_tag` of the value that is stored stays silent about its write.  Another value
may be stored, and the cache told of it, before that write.
-/

def statusOf (t : Thread (service deps)) : Option Nat :=
  match t.rest with
  | Program.done (Answer.response r) => some r.status
  | _ => none

theorem answered_of_statusOf {t : Thread (service deps)} (h : (statusOf t).isSome = true) :
    exists answer, t.rest = Program.done answer := by
  unfold statusOf at h
  split at h
  · rename_i r hdone
    exact ⟨_, hdone⟩
  · cases h

/-- A server whose one selector asks for web servers. -/
def webDeps : Deps :=
  { Deps.sample with
    parseJson := fun text => if text == "selector" then some Json.null else none
    decodeSelector := fun _ =>
      Except.ok { clauses := [Expr.eq "role" "web" SourceFilter.any] } }

def webServer : World :=
  World.start { sampleDb with
    hosts := [{ newHostRow "a" 1 0 with enrolledAt := some 0 }]
    hostCerts := [{ tenantId := 1, hostId := "a", serial := "ab", fingerprintSha256 := "",
                    issuedAt := 0, expiresAt := 10000, revokedAt := none }]
    hostTags := [HostTagsRepo.newRow 1 "a" "role" "web" TagSource.manual 0]
    groups := [{ id := "g", tenantId := 1, name := "web", selectorJson := "selector",
                 createdAt := 0 }]
    bundles := [{ id := "b", tenantId := 1, name := "site", version := "1", sha256 := "",
                  sizeBytes := 0, signature := "", uploadedAt := 0, format := "zip",
                  keyFingerprint := none }]
    bundleAssignments := [{ tenantId := 1, groupId := "g", bundleId := "b", priority := 0,
                            assignedAt := 0 }] } ∅ 0

theorem tagTable_webServer : TagTable (1, "a") webServer.db := by
  constructor
  · exact ⟨_, List.mem_cons_self, rfl, rfl⟩
  · exact List.pairwise_singleton _ _
  · intro r hr _
    rw [List.mem_singleton.mp hr]
    rfl

def putsRole (value : String) : Choice (service webDeps) :=
  Choice.spawn (Request.http
    (HttpRequest.putTag { userId := 1, tenantId := 1, role := Role.admin } "a" "role" value))

def pollsWebServer : Choice (service webDeps) :=
  Choice.spawn (Request.http (HttpRequest.agent
    { tenantId := 1, tenantSlug := "acme", hostId := "a", serialHex := "ab" } true
    (AgentRequest.desiredState { currentHash := none, factsHash := none })))

def changesThenPolls : List (Choice (service webDeps)) :=
  [putsRole "db"] ++ List.replicate 4 (Choice.exec 0) ++
    [pollsWebServer] ++ List.replicate 11 (Choice.exec 1)

/-- The first edit is of the value that is stored.  Between its read and its write the
role is changed, and the host polls. -/
def changesInBetween : List (Choice (service webDeps)) :=
  [putsRole "web"] ++ List.replicate 2 (Choice.exec 0) ++
    [putsRole "db"] ++ List.replicate 4 (Choice.exec 1) ++
    [pollsWebServer] ++ List.replicate 11 (Choice.exec 2) ++ [Choice.exec 0]

theorem tag_edits_agree_after_change :
    exists (p : Pool (service webDeps)) (state : DesiredState),
      p.threads.map statusOf = [some 204, some 200] ∧
      p.world.cache.served (1, "a") 1 = some state ∧
      ((computeUncached webDeps 1 "a").run machine p.world).1 = Except.ok state := by
  let x := Recorded.after (ledger webDeps)
    (fun p note c _ => startsTagRequest (1, "a") c && stepKeepsValue p note c)
    (Pool.init webServer) Ledger.blank changesThenPolls (by decide +kernel)
  have hrun := Recorded.of_after (ledger webDeps)
    (fun p note c _ => startsTagRequest (1, "a") c && stepKeepsValue p note c)
    (Pool.init webServer) Ledger.blank changesThenPolls (by decide +kernel)
  have hstatus : x.1.threads.map statusOf = [some 204, some 200] := by decide +kernel
  have hversion : x.1.world.db.configVersion 1 = some 1 := by decide +kernel
  have hcached : (x.1.world.cache.served (1, "a") 1).isSome = true := by decide +kernel
  have hrun : Recorded (ledger webDeps) (TagSteps webDeps (1, "a")) (Pool.init webServer)
      Ledger.blank x.1 x.2 := hrun.mono (fun _ _ _ _ hok => Bool.and_eq_true_iff.mp hok)
  clear_value x
  rcases Option.isSome_iff_exists.mp hcached with ⟨state, hserved⟩
  have hanswered : forall t, t ∈ x.1.threads -> exists answer, t.rest = Program.done answer := by
    intro t ht
    apply answered_of_statusOf
    have hmem : statusOf t ∈ [some 204, some 200] := by
      rw [← hstatus]
      exact List.mem_map_of_mem ht
    simp only [List.mem_cons, List.not_mem_nil, or_false] at hmem
    rcases hmem with h | h
    · rw [h]
      rfl
    · rw [h]
      rfl
  exact ⟨x.1, state, hstatus, hserved,
    tag_edits_agree_with_cache webDeps tagTable_webServer (coherent_start webDeps _ _ _) hrun
      hanswered hversion hserved⟩

/-- Every request is answered, and the state that stays cached lacks the bundle that
the host is to have. -/
theorem stale_after_tag_edits :
    exists (p : Pool (service webDeps)) (note : Ledger) (state computed : DesiredState),
      Recorded (ledger webDeps) (fun _ _ c _ => startsTagRequest (1, "a") c = true)
        (Pool.init webServer) Ledger.blank p note ∧
      p.threads.map statusOf = [some 204, some 204, some 200] ∧
      p.world.db.configVersion 1 = some 1 ∧
      p.world.cache.served (1, "a") 1 = some state ∧
      ((computeUncached webDeps 1 "a").run machine p.world).1 = Except.ok computed ∧
      state.bundles = [] ∧ computed.bundles.map DesiredBundle.id = ["b"] := by
  let x := Recorded.after (ledger webDeps) (fun _ _ c _ => startsTagRequest (1, "a") c)
    (Pool.init webServer) Ledger.blank changesInBetween (by decide +kernel)
  have hrun := Recorded.of_after (ledger webDeps) (fun _ _ c _ => startsTagRequest (1, "a") c)
    (Pool.init webServer) Ledger.blank changesInBetween (by decide +kernel)
  have hstatus : x.1.threads.map statusOf = [some 204, some 204, some 200] := by decide +kernel
  have hversion : x.1.world.db.configVersion 1 = some 1 := by decide +kernel
  have hcached : (x.1.world.cache.served (1, "a") 1).map (fun s => s.bundles.map DesiredBundle.id) =
      some [] := by decide +kernel
  have hfresh : (((computeUncached webDeps 1 "a").run machine x.1.world).1.toOption).map
      (fun s => s.bundles.map DesiredBundle.id) = some ["b"] := by decide +kernel
  have hrun : Recorded (ledger webDeps) (fun _ _ c _ => startsTagRequest (1, "a") c = true)
      (Pool.init webServer) Ledger.blank x.1 x.2 := hrun
  clear_value x
  rcases Option.map_eq_some_iff.mp hcached with ⟨state, hserved, hnone⟩
  rcases Option.map_eq_some_iff.mp hfresh with ⟨computed, hcomputed, hone⟩
  refine ⟨x.1, x.2, state, computed, hrun, hstatus, hversion, hserved, ?_,
    List.map_eq_nil_iff.mp hnone, hone⟩
  cases hresult : ((computeUncached webDeps 1 "a").run machine x.1.world).1 with
  | error e =>
      rw [hresult] at hcomputed
      cases hcomputed
  | ok s =>
      rw [hresult] at hcomputed
      cases hcomputed
      rfl

end Hosts
end FleetServer
