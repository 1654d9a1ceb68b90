import FleetServer.Concurrency.Alone
import FleetServer.Server.Frame
import FleetServer.Server.Service
import FleetServer.Server.Walk

/-!
# Bulk requests that fail midway

Both bulk requests commit host by host, drop what was derived from the tags or
the documents at the end of the batch, and leave at once when a call fails.  A
failed batch leaves nothing stale behind exactly when it had changed nothing.
-/

namespace FleetServer
namespace Hosts

open FleetServer.Core
open Storage
open Table
open Agent (HostKey)
open Server
open Concurrency

variable {db : Db} {tenantId : Int} {hostId : String} {next : Bool -> Prog Response} {w : World}
variable {answer : Response}

/-!
# Stored tags
-/

structure StoredTag where
  tenantId : Int
  hostId : String
  key : String
  value : String
  source : TagSource
deriving DecidableEq

def storedTag (r : HostTagRow) : StoredTag :=
  { tenantId := r.tenantId, hostId := r.hostId, key := r.key, value := r.value,
    source := r.source }

def storedTags (db : Db) : List StoredTag :=
  db.hostTags.map storedTag

def isTagOfHost (key : HostKey) (t : StoredTag) : Bool :=
  t.tenantId == key.1 && t.hostId == key.2

def tagsOf (key : HostKey) (db : Db) : List StoredTag :=
  (storedTags db).filter (isTagOfHost key)

def isManualTag (hostId key : String) (t : StoredTag) : Bool :=
  t.hostId == hostId && t.key == key && t.source == TagSource.manual

def edited : Statement -> Db -> List StoredTag
  | Statement.upsertManualTag tenantId hostId key value, db =>
      if db.hasTenant tenantId && db.hasHost hostId then
        Table.upsert (isManualTag hostId key)
          (fun _ => ⟨tenantId, hostId, key, value, TagSource.manual⟩)
          ⟨tenantId, hostId, key, value, TagSource.manual⟩ (storedTags db)
      else storedTags db
  | Statement.deleteManualTag tenantId hostId key, db =>
      deleteWhere (fun t => t.tenantId == tenantId && isManualTag hostId key t)
        (storedTags db)
  | _, db => storedTags db

def isTagWrite : Statement -> Bool
  | Statement.upsertManualTag _ _ _ _ => true
  | Statement.deleteManualTag _ _ _ => true
  | _ => false

theorem storedTags_putManual (tenantId : Int) (hostId key value : String) (now : Int)
    (tags : List HostTagRow) :
    (HostTagsRepo.putRow
      (HostTagsRepo.newRow tenantId hostId key value TagSource.manual now) tags).map storedTag =
      Table.upsert (isManualTag hostId key)
        (fun _ => ⟨tenantId, hostId, key, value, TagSource.manual⟩)
        ⟨tenantId, hostId, key, value, TagSource.manual⟩ (tags.map storedTag) := by
  let row := HostTagsRepo.newRow tenantId hostId key value TagSource.manual now
  have hconflict : forall r, isManualTag hostId key (storedTag r) =
      HostTagsRepo.isTag row.hostId row.key row.source r := fun _ => rfl
  have hrow : forall r, storedTag ((fun _ => row) r) = (fun _ => storedTag row) (storedTag r) :=
    fun _ => rfl
  exact map_upsert hconflict hrow row tags

theorem exec_tagWrite {s : Statement} (hs : isTagWrite s = true) (w : World) :
    storedTags (s.exec w).2.db = edited s w.db ∧ (s.exec w).2.db.hosts = w.db.hosts ∧
      (s.exec w).2.db.tenants = w.db.tenants := by
  cases s with
  | upsertManualTag tenantId hostId key value =>
      have hexec := exec_guarded
        (show (Statement.upsertManualTag tenantId hostId key value).tx w.now =
          Tx.guarded _ _ from rfl)
      rw [hexec]
      simp only [edited]
      by_cases hok : (w.db.hasTenant tenantId && w.db.hasHost hostId) = true
      · rw [if_pos hok, if_pos hok]
        exact ⟨storedTags_putManual tenantId hostId key value w.now _, rfl, rfl⟩
      · rw [if_neg hok, if_neg hok]
        exact ⟨rfl, rfl, rfl⟩
  | deleteManualTag tenantId hostId key =>
      have hkey : forall r,
          ((storedTag r).tenantId == tenantId && isManualTag hostId key (storedTag r)) =
            HostTagsRepo.isTagOf tenantId hostId key TagSource.manual r := fun _ => rfl
      exact ⟨map_deleteWhere hkey w.db.hostTags, rfl, rfl⟩
  | _ => cases hs

/-- What a tag write makes of the tags depends on them and on which hosts and
tenants there are. -/
theorem edited_congr {db' : Db} (s : Statement) (htags : storedTags db' = storedTags db)
    (hhosts : db'.hosts = db.hosts) (htenants : db'.tenants = db.tenants) :
    edited s db' = edited s db := by
  cases s with
  | upsertManualTag tenantId hostId key value =>
      have htenant : db'.hasTenant tenantId = db.hasTenant tenantId := by
        unfold Db.hasTenant
        rw [htenants]
      have hhost : db'.hasHost hostId = db.hasHost hostId := by
        unfold Db.hasHost
        rw [hhosts]
      simp only [edited]
      rw [htenant, hhost, htags]
  | deleteManualTag tenantId hostId key => simp only [edited, htags]
  | _ => exact htags

theorem edited_eq_of_tagsOf {s : Statement}
    (h : forall key, (edited s db).filter (isTagOfHost key) = tagsOf key db) :
    edited s db = storedTags db := by
  unfold tagsOf at h
  cases s with
  | upsertManualTag tenantId hostId key value =>
      have hkey := h (tenantId, hostId)
      simp only [edited] at hkey ⊢
      split
      · rename_i hok
        rw [if_pos hok] at hkey
        exact upsert_eq_of_filter (by simp [isTagOfHost]) hkey
      · rfl
  | deleteManualTag tenantId hostId key =>
      refine deleteWhere_eq_of_filter (fun t ht => ?_) (h (tenantId, hostId))
      simp only [isManualTag, Bool.and_eq_true] at ht
      unfold isTagOfHost
      rw [ht.1, ht.2.1.1]
      rfl
  | _ => rfl

/-!
# bulk_tags
-/

def changesTags (key : HostKey) (e : Event machine) : Prop :=
  tagsOf key e.after.db ≠ tagsOf key e.before.db

def TagsInvalidated (events : List (Event machine)) : Prop :=
  forall done e later key, events = done ++ e :: later -> changesTags key e ->
    exists e', e' ∈ later ∧ e'.op = Op.invalidateHost key

def LeavesTags (w : World) (s : Statement) : Prop :=
  storedTags (s.exec w).2.db = storedTags w.db

def editsTags : Op -> Bool
  | Op.query _ => true
  | Op.statement s => isTagWrite s
  | _ => false

theorem tagsInvalidated_iff {events : List (Event machine)}
    (hevents : forall e, e ∈ events -> editsTags e.op = true) :
    TagsInvalidated events <-> forall e, e ∈ events -> forall key, ¬ changesTags key e := by
  constructor
  · intro h e he key hchanges
    rcases List.append_of_mem he with ⟨done, later, rfl⟩
    rcases h done e later key rfl hchanges with ⟨e', he', hop⟩
    have hedits := hevents e' (List.mem_append_right _ (List.mem_cons_of_mem e he'))
    rw [hop] at hedits
    cases hedits
  · rintro h done e later key rfl hchanges
    exact absurd hchanges (h e (List.mem_append_right _ List.mem_cons_self) key)

/-- As long as no call changes a tag, the writes that are completed are those
that would change nothing at the start. -/
theorem unchanged_iff {alpha : Type} {p : Prog alpha} {w₀ w v : machine.World}
    {events : List (Event machine)} {a : alpha} (hrun : Alone machine p w events a v)
    (hevents : forall e, e ∈ events -> editsTags e.op = true)
    (htags : storedTags w.db = storedTags w₀.db) (hhosts : w.db.hosts = w₀.db.hosts)
    (htenants : w.db.tenants = w₀.db.tenants) :
    (forall e, e ∈ events -> forall key, ¬ changesTags key e) <->
      forall e, e ∈ events -> forall s, e.op = Op.statement s -> LeavesTags w₀ s := by
  induction hrun with
  | done a w =>
      constructor
      · intro _ e he
        cases he
      · intro _ e he
        cases he
  | fault _ _ ih => exact ih hevents htags hhosts htenants
  | exec hnext ih =>
      rename_i op next w v events a
      have hop := hevents _ List.mem_cons_self
      have hrest := fun e he => hevents e (List.mem_cons_of_mem _ he)
      cases op with
      | query q =>
          have ih' := ih hrest htags hhosts htenants
          constructor
          · intro h e he s hs
            rcases List.mem_cons.mp he with rfl | he
            · cases hs
            · exact ih'.mp (fun e he => h e (List.mem_cons_of_mem _ he)) e he s hs
          · intro h e he key
            rcases List.mem_cons.mp he with rfl | he
            · exact fun hchanges => hchanges rfl
            · exact ih'.mpr (fun e he => h e (List.mem_cons_of_mem _ he)) e he key
      | statement s =>
          rcases exec_tagWrite hop w with ⟨hedited, hhosts', htenants'⟩
          rcases exec_tagWrite hop w₀ with ⟨hedited₀, _, _⟩
          have hcongr := edited_congr s htags hhosts htenants
          -- The head changes no host's tags exactly when it leaves them all alone.
          have hhead : (forall key, ¬ changesTags key (⟨Op.statement s, w⟩ : Event machine)) <->
              LeavesTags w₀ s := by
            unfold changesTags LeavesTags Event.after
            rw [hedited₀]
            change (forall key, ¬ tagsOf key (s.exec w).2.db ≠ tagsOf key w.db) <-> _
            constructor
            · intro h
              rw [← hcongr, ← htags]
              refine edited_eq_of_tagsOf (fun key => ?_)
              rw [← hedited]
              exact not_not.mp (h key)
            · intro h key hne
              refine hne ?_
              unfold tagsOf
              rw [hedited, hcongr, h, htags]
          constructor
          · intro h e he s' hs'
            have hleaves : LeavesTags w₀ s := hhead.mp (h _ List.mem_cons_self)
            rcases List.mem_cons.mp he with rfl | he
            · cases hs'
              exact hleaves
            · have hsame : storedTags (s.exec w).2.db = storedTags w₀.db := by
                rw [hedited, hcongr, ← hedited₀]
                exact hleaves
              exact (ih hrest hsame (hhosts'.trans hhosts) (htenants'.trans htenants)).mp
                (fun e he => h e (List.mem_cons_of_mem _ he)) e he s' hs'
          · intro h e he
            have hleaves : LeavesTags w₀ s := h _ List.mem_cons_self s rfl
            rcases List.mem_cons.mp he with rfl | he
            · exact hhead.mpr hleaves
            · have hsame : storedTags (s.exec w).2.db = storedTags w₀.db := by
                rw [hedited, hcongr, ← hedited₀]
                exact hleaves
              exact (ih hrest hsame (hhosts'.trans hhosts) (htenants'.trans htenants)).mpr
                (fun e he => h e (List.mem_cons_of_mem _ he)) e he
      | _ => cases hop

def succeeded (r : Response) : Prop :=
  r.status = 200

theorem bulkTagged_ends (tenantId : Int) (updated : Nat) (missing touched : List String) :
    Program.Ends succeeded (bulkTagged tenantId updated missing touched) := by
  induction touched with
  | nil => rfl
  | cons hostId rest ih => exact fun _ => ih

theorem bulkSet_usesUntil
    (hnext : forall c, Program.UsesUntil (fun op _ => editsTags op = true) succeeded (next c))
    (changed : Bool) (tags : List (String × String)) :
    Program.UsesUntil (fun op _ => editsTags op = true) succeeded
      (bulkSet tenantId hostId changed next tags) := by
  induction tags generalizing changed with
  | nil => exact hnext changed
  | cons tag rest ih =>
      exact usesUntil_askOr (fun _ => rfl)
        (fun _ => usesUntil_executeOr (fun _ => rfl) (fun _ => ih _))

theorem bulkRemove_usesUntil
    (hnext : forall c, Program.UsesUntil (fun op _ => editsTags op = true) succeeded (next c))
    (changed : Bool) (keys : List String) :
    Program.UsesUntil (fun op _ => editsTags op = true) succeeded
      (bulkRemove tenantId hostId changed next keys) := by
  induction keys generalizing changed with
  | nil => exact hnext changed
  | cons key rest ih => exact usesUntil_executeOr (fun _ => rfl) (fun _ => ih _)

theorem bulkTagsLoop_usesUntil (tenantId : Int) (body : BulkTagsBody) (updated : Nat)
    (missing touched ids : List String) :
    Program.UsesUntil (fun op _ => editsTags op = true) succeeded
      (bulkTagsLoop tenantId body updated missing touched ids) := by
  induction ids generalizing updated missing touched with
  | nil => exact Program.usesUntil_of_ends (bulkTagged_ends tenantId updated missing touched)
  | cons hostId rest ih =>
      refine usesUntil_askOr (fun _ => rfl) (fun host => ?_)
      cases host with
      | none => exact ih _ _ _
      | some host =>
          exact bulkSet_usesUntil
            (fun _ => bulkRemove_usesUntil (fun _ => ih _ _ _) _ _) _ _

theorem bulkTags_usesUntil (who : AuthedUser) (body : BulkTagsBody) :
    Program.UsesUntil (fun op _ => editsTags op = true) succeeded (bulkTags who body) := by
  unfold bulkTags guarded
  split
  · trivial
  · split
    · trivial
    · exact bulkTagsLoop_usesUntil who.tenantId body 0 [] [] _

/-- A failed batch of tag edits leaves nothing stale exactly when what it had
completed would have changed no tag of the starting database. -/
theorem bulkTags_failed {who : AuthedUser} {body : BulkTagsBody} {v : World}
    {events : List (Event machine)} (hrun : Alone machine (bulkTags who body) w events answer v)
    (hfailed : answer.status = 500) :
    TagsInvalidated events <->
      forall e, e ∈ events -> forall s, e.op = Op.statement s -> LeavesTags w s := by
  have hnot : ¬ succeeded answer := by
    unfold succeeded
    rw [hfailed]
    decide
  have hevents := usesUntil_of_alone hrun (bulkTags_usesUntil who body) hnot
  rw [tagsInvalidated_iff hevents]
  exact unchanged_iff hrun hevents rfl rfl rfl

/-!
# bulk_delete
-/

def deletesHost (e : Event machine) : Prop :=
  exists r, r ∈ e.before.db.hosts ∧ r ∉ e.after.db.hosts

/-- Once a host was deleted, a later call publishes that documents are gone. -/
def RemovalPublished (tenantId : Int) (events : List (Event machine)) : Prop :=
  forall done e later, events = done ++ e :: later -> deletesHost e ->
    exists e', e' ∈ later ∧ e'.op = Op.bumpCatalog tenantId CatalogChange.removed

def LeavesHosts (w : World) (s : Statement) : Prop :=
  forall r, r ∈ w.db.hosts -> r ∈ (s.exec w).2.db.hosts

/-- Everything a batch of deletions calls before it publishes them. -/
def deletesHosts : Op -> Bool
  | Op.query _ => true
  | Op.statement _ => true
  | Op.forgetHost _ => true
  | _ => false

theorem removalPublished_iff {events : List (Event machine)}
    (hevents : forall e, e ∈ events -> deletesHosts e.op = true) :
    RemovalPublished tenantId events <-> forall e, e ∈ events -> ¬ deletesHost e := by
  constructor
  · intro h e he hdeletes
    rcases List.append_of_mem he with ⟨done, later, rfl⟩
    rcases h done e later rfl hdeletes with ⟨e', he', hop⟩
    have hdeletes' := hevents e' (List.mem_append_right _ (List.mem_cons_of_mem e he'))
    rw [hop] at hdeletes'
    cases hdeletes'
  · rintro h done e later rfl hdeletes
    exact absurd hdeletes (h e (List.mem_append_right _ List.mem_cons_self))

theorem bulkDeleted_ends (tenantId : Int) (deleted : Nat) (missing : List String) :
    Program.Ends succeeded (bulkDeleted tenantId deleted missing) := by
  unfold bulkDeleted
  split
  · exact fun _ => rfl
  · rfl

theorem bulkDeleteLoop_usesUntil (tenantId : Int) (deleted : Nat)
    (missing ids : List String) :
    Program.UsesUntil (fun op _ => deletesHosts op = true) succeeded
      (bulkDeleteLoop tenantId deleted missing ids) := by
  induction ids generalizing deleted missing with
  | nil => exact Program.usesUntil_of_ends (bulkDeleted_ends tenantId deleted missing)
  | cons hostId rest ih =>
      refine usesUntil_askOr (fun _ => rfl) (fun host => ?_)
      cases host with
      | none => exact ih _ _
      | some host =>
          refine usesUntil_executeOr (fun _ => rfl) (fun deleted => ?_)
          cases deleted with
          | true => exact fun _ => Or.inr ⟨rfl, ih _ _⟩
          | false => exact ih _ _

theorem deletesHost_statement (s : Statement) (w : World) :
    deletesHost ⟨Op.statement s, w⟩ <-> ¬ LeavesHosts w s := by
  unfold deletesHost LeavesHosts Event.after
  push Not
  rfl

theorem exec_deleteHost (tenantId : Int) (hostId : String) (w : World) :
    (exists e, HostRepo.delete tenantId hostId w.db = Except.error e ∧
        (Statement.deleteHost tenantId hostId).exec w = (Except.error e, w)) ∨
      exists found db, HostRepo.delete tenantId hostId w.db = Except.ok (found, db) ∧
        (Statement.deleteHost tenantId hostId).exec w =
          (Except.ok found, { w with db := db }) :=
  statement_exec (Statement.deleteHost tenantId hostId) w

theorem leavesHosts_congr {w₀ : World} (hdb : w.db = w₀.db) :
    LeavesHosts w (Statement.deleteHost tenantId hostId) <->
      LeavesHosts w₀ (Statement.deleteHost tenantId hostId) := by
  have hexec : ((Statement.deleteHost tenantId hostId).exec w).2.db =
      ((Statement.deleteHost tenantId hostId).exec w₀).2.db := by
    rcases exec_deleteHost tenantId hostId w with ⟨e, htx, hw⟩ | ⟨found, db, htx, hw⟩
    · rcases exec_deleteHost tenantId hostId w₀ with ⟨e₀, htx₀, hw₀⟩ | ⟨_, _, htx₀, _⟩
      · rw [hw, hw₀]
        exact hdb
      · rw [hdb, htx₀] at htx
        cases htx
    · rcases exec_deleteHost tenantId hostId w₀ with ⟨e₀, htx₀, _⟩ | ⟨_, _, htx₀, hw₀⟩
      · rw [hdb, htx₀] at htx
        cases htx
      · rw [hdb, htx₀] at htx
        cases htx
        rw [hw, hw₀]
  unfold LeavesHosts
  rw [hexec, hdb]

theorem deletes_of_found {found : Bool} {host : Host}
    (hhost : HostRepo.get tenantId hostId w.db = some host)
    (hdelete : HostRepo.delete tenantId hostId w.db = Except.ok (found, db)) :
    exists r, r ∈ w.db.hosts ∧ r ∉ db.hosts := by
  rcases Option.map_eq_some_iff.mp hhost with ⟨r, hr, _⟩
  have hmem : r ∈ w.db.hosts := List.mem_of_find?_eq_some hr
  have his : isHost tenantId hostId r = true := List.find?_some hr
  unfold HostRepo.delete at hdelete
  simp only at hdelete
  split at hdelete
  · cases hdelete
  · cases hdelete
    refine ⟨r, hmem, fun hin => ?_⟩
    have hkept := (List.mem_filter.mp hin).2
    rw [his] at hkept
    cases hkept

theorem bulkDeleteFound_failed {w₀ w v : machine.World} {events : List (Event machine)}
    {host : Host} (hrun : Alone machine
      (executeOr (Statement.deleteHost tenantId hostId) Response.internal next) w events answer v)
    (hhost : HostRepo.get tenantId hostId w.db = some host) (hdb : w.db = w₀.db) :
    (forall e, e ∈ events -> ¬ deletesHost e) <->
      forall e, e ∈ events -> forall s, e.op = Op.statement s -> LeavesHosts w₀ s := by
  rcases alone_call hrun with ⟨later, rfl, hnext⟩ | ⟨r, hr, hnext⟩
  · have hhead : ¬ deletesHost ⟨Op.statement (Statement.deleteHost tenantId hostId), w⟩ <->
        LeavesHosts w₀ (Statement.deleteHost tenantId hostId) := by
      rw [deletesHost_statement, not_not]
      exact leavesHosts_congr hdb
    rcases exec_deleteHost tenantId hostId w with ⟨e, htx, hw⟩ | ⟨found, db, htx, hw⟩
    · -- The deletion is refused: the request stops, and nothing is lost.
      have hlater : later = [] := by
        change Alone machine (onOk Response.internal next
          ((Statement.deleteHost tenantId hostId).exec w).1) _ later answer v at hnext
        rw [hw] at hnext
        exact (alone_done hnext).1
      subst hlater
      simp only [List.forall_mem_singleton]
      rw [hhead]
      exact ⟨fun h s hs => by cases hs; exact h, fun h => h _ rfl⟩
    · -- The host is gone, at the start as here.
      rcases deletes_of_found hhost htx with ⟨r, hr, hgone⟩
      have hdeletes : deletesHost ⟨Op.statement (Statement.deleteHost tenantId hostId), w⟩ := by
        refine ⟨r, hr, ?_⟩
        change r ∉ ((Statement.deleteHost tenantId hostId).exec w).2.db.hosts
        rw [hw]
        exact hgone
      constructor
      · intro h
        exact absurd hdeletes (h _ List.mem_cons_self)
      · intro h
        exact absurd (hhead.mpr (h _ List.mem_cons_self _ rfl)) (not_not.mpr hdeletes)
  · cases hr
    rcases alone_done hnext with ⟨rfl, _, _⟩
    exact iff_of_true (fun e he => absurd he List.not_mem_nil)
      (fun e he => absurd he List.not_mem_nil)

/-- A batch that failed deleted no host exactly when no deletion it completed
would have deleted one at the start. -/
theorem bulkDeleteLoop_failed {deleted : Nat} {missing ids : List String} {w₀ w v : machine.World}
    {events : List (Event machine)}
    (hrun : Alone machine (bulkDeleteLoop tenantId deleted missing ids) w events answer v)
    (hfailed : ¬ succeeded answer) (hdb : w.db = w₀.db) :
    (forall e, e ∈ events -> ¬ deletesHost e) <->
      forall e, e ∈ events -> forall s, e.op = Op.statement s -> LeavesHosts w₀ s := by
  induction ids generalizing deleted missing w events with
  | nil => exact absurd (ends_of_alone hrun (bulkDeleted_ends tenantId deleted missing)) hfailed
  | cons hostId rest ih =>
      rcases alone_call hrun with ⟨later, rfl, hnext⟩ | ⟨r, hr, hnext⟩
      · have hget := hnext
        change Alone machine (onOk Response.internal _
          (Except.ok (HostRepo.get tenantId hostId w.db))) w later answer v at hget
        -- A query deletes nothing and is no statement.
        suffices h : (forall e, e ∈ later -> ¬ deletesHost e) <->
            forall e, e ∈ later -> forall s, e.op = Op.statement s -> LeavesHosts w₀ s by
          simp only [List.forall_mem_cons]
          refine and_congr ?_ h
          exact iff_of_true (fun ⟨r, hr, hgone⟩ => hgone hr) (fun s hs => by cases hs)
        cases hhost : HostRepo.get tenantId hostId w.db with
        | none =>
            rw [hhost] at hget
            exact ih hget hdb
        | some host =>
            rw [hhost] at hget
            exact bulkDeleteFound_failed hget hhost hdb
      · cases hr
        rcases alone_done hnext with ⟨rfl, _, _⟩
        exact iff_of_true (fun e he => absurd he List.not_mem_nil)
          (fun e he => absurd he List.not_mem_nil)

theorem bulkDelete_failed {who : AuthedUser} {ids : List String} {v : World}
    {events : List (Event machine)} (hrun : Alone machine (bulkDelete who ids) w events answer v)
    (hfailed : answer.status = 500) :
    RemovalPublished who.tenantId events <->
      forall e, e ∈ events -> forall s, e.op = Op.statement s -> LeavesHosts w s := by
  have hnot : ¬ succeeded answer := by
    unfold succeeded
    rw [hfailed]
    decide
  unfold bulkDelete guarded at hrun
  have hnone : events = [] -> (RemovalPublished who.tenantId events <->
      forall e, e ∈ events -> forall s, e.op = Op.statement s -> LeavesHosts w s) := by
    rintro rfl
    rw [removalPublished_iff (fun e he => absurd he List.not_mem_nil)]
    exact iff_of_true (fun e he => absurd he List.not_mem_nil)
      (fun e he => absurd he List.not_mem_nil)
  split at hrun
  · exact hnone (alone_done hrun).1
  · split at hrun
    · exact hnone (alone_done hrun).1
    · rw [removalPublished_iff (usesUntil_of_alone hrun
        (bulkDeleteLoop_usesUntil who.tenantId 0 [] _) hnot)]
      exact bulkDeleteLoop_failed hrun hnot rfl

/-- Of a bulk request that answers 500, whatever call failed: the hosts whose
tags it changed are invalidated, and the catalog is bumped for the hosts it
deleted, exactly when it had neither changed a tag nor deleted a host. -/
theorem bulk_failed_midway {who : AuthedUser} {w v : World} {events : List (Event machine)}
    {answer : Response} (hfailed : answer.status = 500) :
    (forall body, Alone machine (bulkTags who body) w events answer v ->
      (TagsInvalidated events <->
        forall e, e ∈ events -> forall s, e.op = Op.statement s -> LeavesTags w s)) ∧
    (forall ids, Alone machine (bulkDelete who ids) w events answer v ->
      (RemovalPublished who.tenantId events <->
        forall e, e ∈ events -> forall s, e.op = Op.statement s -> LeavesHosts w s)) :=
  ⟨fun _ hrun => bulkTags_failed hrun hfailed, fun _ hrun => bulkDelete_failed hrun hfailed⟩

def twoHosts : World :=
  World.start { sampleDb with hosts := [newHostRow "h1" 1 0, newHostRow "h2" 1 0] } ∅ 0

def batchOperator : AuthedUser :=
  { userId := 1, tenantId := 1, role := Role.owner }

def tagBoth : BulkTagsBody :=
  { hostIds := ["h1", "h2"], set := [("a", "b")], remove := [] }

/-- The first host has the tag that the request sets. -/
def firstTagged : World :=
  World.start { twoHosts.db with
    hostTags := [
      { tenantId := 1, hostId := "h1", key := "a", value := "b", source := TagSource.manual,
        updatedAt := 0 }] } ∅ 0

/-- The first host is through, its tag written as it was, when the second cannot be
read. -/
theorem bulk_failed_after_no_op : exists events answer v,
    Alone machine (bulkTags batchOperator tagBoth) firstTagged events answer v ∧
      events.length = 3 ∧ answer.status = 500 ∧ TagsInvalidated events := by
  have hanswer : Response.internal.status = 500 := rfl
  have hread : exists events v,
      Alone machine (bulkTags batchOperator tagBoth) firstTagged events Response.internal v ∧
        events.length = 3 ∧
          forall e, e ∈ events -> forall s, e.op = Op.statement s -> LeavesTags firstTagged s := by
    refine ⟨_, _, Alone.exec (Alone.exec (Alone.exec (Alone.fault rfl (Alone.done _ _)))), rfl, ?_⟩
    intro e he s hop
    rcases List.mem_cons.mp he with rfl | he
    · cases hop
    · rcases List.mem_cons.mp he with rfl | he
      · cases hop
      · cases List.mem_singleton.mp he
        cases hop
        unfold LeavesTags
        decide +kernel
  rcases hread with ⟨events, v, hrun, hlength, hleaves⟩
  exact ⟨events, _, v, hrun, hlength, hanswer,
    ((bulk_failed_midway hanswer).1 _ hrun).mpr hleaves⟩

/-- Both requests are through with the first host when the second cannot be
read. -/
theorem bulk_failed_on_second_host :
    (exists events answer v,
      Alone machine (bulkTags batchOperator tagBoth) twoHosts events answer v ∧
        answer.status = 500 ∧ ¬ TagsInvalidated events) ∧
    (exists events answer v,
      Alone machine (bulkDelete batchOperator ["h1", "h2"]) twoHosts events answer v ∧
        answer.status = 500 ∧ ¬ RemovalPublished batchOperator.tenantId events) := by
  constructor
  · refine ⟨_, Response.internal, _,
      Alone.exec (Alone.exec (Alone.exec (Alone.fault rfl (Alone.done _ _)))), rfl, ?_⟩
    intro h
    obtain ⟨e, he, _⟩ := h [_, _] _ [] (1, "h1") rfl (by unfold changesTags; decide +kernel)
    cases he
  · refine ⟨_, Response.internal, _,
      Alone.exec (Alone.exec (Alone.exec (Alone.fault rfl (Alone.done _ _)))), rfl, ?_⟩
    intro h
    have hgone : "h1" ∉ (exec (Op.statement (Statement.deleteHost 1 "h1")) twoHosts).2.db.hosts.map
        HostRow.id := by decide +kernel
    obtain ⟨e, he, hop⟩ := h [_] _ [_] rfl ⟨newHostRow "h1" 1 0, List.mem_cons_self,
      fun hin => hgone (List.mem_map.mpr ⟨_, hin, rfl⟩)⟩
    cases List.mem_singleton.mp he
    cases hop

end Hosts
end FleetServer
