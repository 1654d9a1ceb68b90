import FleetServer.Hosts.Bulk

/-!
# Bulk tagging, tag by tag

A bulk request that succeeds makes the statements that one request for each tag
would make.  The two accept the same keys; only the single request bounds a value.
-/

namespace FleetServer
namespace Hosts

open FleetServer.Core
open Storage
open Server
open Concurrency

/-!
# One request for each tag
-/

def putEach (who : AuthedUser) (hostId : String) :
    List (String × String) -> World -> List Response × World
  | [], w => ([], w)
  | tag :: rest, w =>
      let first := Program.run machine (putTag who hostId tag.1 tag.2) w
      let others := putEach who hostId rest first.2
      (first.1 :: others.1, others.2)

def deleteEach (who : AuthedUser) (hostId : String) : List String -> World -> World
  | [], w => w
  | key :: rest, w =>
      deleteEach who hostId rest (Program.run machine (deleteTag who hostId key) w).2

/-- Host by host, the tags set and then the keys removed: what the puts were
answered, and the world at the end. -/
def singly (who : AuthedUser) (body : BulkTagsBody) :
    List String -> World -> List Response × World
  | [], w => ([], w)
  | hostId :: rest, w =>
      let put := putEach who hostId body.set w
      let others := singly who body rest (deleteEach who hostId body.remove put.2)
      (put.1 ++ others.1, others.2)

def isFound (tenantId : Int) (db : Db) (hostId : String) : Bool :=
  (HostRepo.get tenantId hostId db).isSome

def foundHosts (who : AuthedUser) (body : BulkTagsBody) (w : World) : List String :=
  (dedupIds body.hostIds).filter (isFound who.tenantId w.db)

/-- The batch left what the single requests leave, and each put would have been
accepted. -/
structure SameAsSingly (who : AuthedUser) (body : BulkTagsBody) (w v : World) : Prop where
  tags : v.db = (singly who body (foundHosts who body w) w).2.db
  accepted : forall a, a ∈ (singly who body (foundHosts who body w) w).1 -> a = Response.noContent

/-!
# What the statements make of the database
-/

variable {who : AuthedUser} {body : BulkTagsBody} {tenantId now : Int} {hostId : String}
variable {w v : World} {db db' : Db} {events : List (Event machine)} {answer : Response}

def setDb (tenantId now : Int) (hostId : String) : List (String × String) -> Db -> Option Db
  | [], db => some db
  | tag :: rest, db =>
      match (Statement.upsertManualTag tenantId hostId tag.1 tag.2).tx now db with
      | Except.ok (_, next) => setDb tenantId now hostId rest next
      | Except.error _ => none

def removeDb (tenantId now : Int) (hostId : String) : List String -> Db -> Option Db
  | [], db => some db
  | key :: rest, db =>
      match (Statement.deleteManualTag tenantId hostId key).tx now db with
      | Except.ok (_, next) => removeDb tenantId now hostId rest next
      | Except.error _ => none

def batchDb (tenantId now : Int) (body : BulkTagsBody) : List String -> Db -> Option Db
  | [], db => some db
  | hostId :: rest, db =>
      ((setDb tenantId now hostId body.set db).bind
        (removeDb tenantId now hostId body.remove)).bind (batchDb tenantId now body rest)

theorem hosts_upsert {key value : String} {u : Unit}
    (h : (Statement.upsertManualTag tenantId hostId key value).tx now db = Except.ok (u, db')) :
    db'.hosts = db.hosts := by
  have h : (if db.hasTenant tenantId && db.hasHost hostId then _ else _) = Except.ok (u, db') := h
  split at h
  · cases h
    rfl
  · cases h

theorem hosts_delete {key : String} {b : Bool}
    (h : (Statement.deleteManualTag tenantId hostId key).tx now db = Except.ok (b, db')) :
    db'.hosts = db.hosts := by
  cases h
  rfl

theorem hosts_setDb :
    forall {tags : List (String × String)} {db db' : Db},
      setDb tenantId now hostId tags db = some db' -> db'.hosts = db.hosts := by
  intro tags
  induction tags with
  | nil =>
      intro db db' h
      cases h
      rfl
  | cons tag rest ih =>
      intro db db' h
      rw [setDb] at h
      split at h
      · rename_i next htx
        exact (ih h).trans (hosts_upsert htx)
      · cases h

theorem hosts_removeDb :
    forall {keys : List String} {db db' : Db},
      removeDb tenantId now hostId keys db = some db' -> db'.hosts = db.hosts := by
  intro keys
  induction keys with
  | nil =>
      intro db db' h
      cases h
      rfl
  | cons key rest ih =>
      intro db db' h
      rw [removeDb] at h
      split at h
      · rename_i next htx
        exact (ih h).trans (hosts_delete htx)
      · cases h

theorem isFound_congr (h : db'.hosts = db.hosts) (tenantId : Int) (hostId : String) :
    isFound tenantId db' hostId = isFound tenantId db hostId := by
  unfold isFound HostRepo.get
  rw [h]

/-!
# The batch
-/

theorem alone_askOr {beta : Type} {q : Query} {failed a : beta} {next : q.Answer -> Prog beta}
    (h : Alone machine (askOr q failed next) w events a v) :
    a = failed ∨ exists rest, Alone machine (next (q.eval w.now w.db)) w rest a v := by
  cases alone_call h with
  | inl hexec =>
      rcases hexec with ⟨rest, _, hrest⟩
      exact Or.inr ⟨rest, hrest⟩
  | inr hfault =>
      rcases hfault with ⟨r, hr, hrest⟩
      cases hr
      exact Or.inl (alone_done hrest).2.1

theorem alone_executeOr {beta : Type} {s : Statement} {failed a : beta}
    {next : s.Answer -> Prog beta} (h : Alone machine (executeOr s failed next) w events a v) :
    a = failed ∨ exists result db rest, s.tx w.now w.db = Except.ok (result, db) ∧
      Alone machine (next result) { w with db := db } rest a v := by
  cases alone_call h with
  | inl hexec =>
      rcases hexec with ⟨rest, _, hrest⟩
      have hrest : Alone machine (onOk failed next (s.exec w).1) (s.exec w).2 rest a v := hrest
      unfold Statement.exec at hrest
      cases htx : s.tx w.now w.db with
      | error e =>
          rw [htx] at hrest
          exact Or.inl (alone_done hrest).2.1
      | ok r =>
          rw [htx] at hrest
          exact Or.inr ⟨r.1, r.2, rest, rfl, hrest⟩
  | inr hfault =>
      rcases hfault with ⟨r, hr, hrest⟩
      cases hr
      exact Or.inl (alone_done hrest).2.1

theorem alone_bulkSet {next : Bool -> Prog Response} :
    forall {tags : List (String × String)} {changed : Bool} {w : World}
      {events : List (Event machine)},
      Alone machine (bulkSet tenantId hostId changed next tags) w events answer v ->
        answer = Response.internal ∨
          exists c db rest, setDb tenantId w.now hostId tags w.db = some db ∧
            Alone machine (next c) { w with db := db } rest answer v := by
  intro tags
  induction tags with
  | nil =>
      intro changed w events h
      exact Or.inr ⟨changed, w.db, events, rfl, h⟩
  | cons tag rest ih =>
      intro changed w events h
      cases alone_askOr h with
      | inl hfailed => exact Or.inl hfailed
      | inr hasked =>
          rcases hasked with ⟨later, hasked⟩
          cases alone_executeOr hasked with
          | inl hfailed => exact Or.inl hfailed
          | inr hdone =>
              rcases hdone with ⟨result, db, later, htx, hdone⟩
              cases ih hdone with
              | inl hfailed => exact Or.inl hfailed
              | inr hrest =>
                  rcases hrest with ⟨c, db', later, hset, hnext⟩
                  apply Or.inr
                  exists c, db', later
                  constructor
                  · rw [setDb, htx]
                    exact hset
                  · exact hnext

theorem alone_bulkRemove {next : Bool -> Prog Response} :
    forall {keys : List String} {changed : Bool} {w : World} {events : List (Event machine)},
      Alone machine (bulkRemove tenantId hostId changed next keys) w events answer v ->
        answer = Response.internal ∨
          exists c db rest, removeDb tenantId w.now hostId keys w.db = some db ∧
            Alone machine (next c) { w with db := db } rest answer v := by
  intro keys
  induction keys with
  | nil =>
      intro changed w events h
      exact Or.inr ⟨changed, w.db, events, rfl, h⟩
  | cons key rest ih =>
      intro changed w events h
      cases alone_executeOr h with
      | inl hfailed => exact Or.inl hfailed
      | inr hdone =>
          rcases hdone with ⟨result, db, later, htx, hdone⟩
          cases ih hdone with
          | inl hfailed => exact Or.inl hfailed
          | inr hrest =>
              rcases hrest with ⟨c, db', later, hremove, hnext⟩
              apply Or.inr
              exists c, db', later
              constructor
              · rw [removeDb, htx]
                exact hremove
              · exact hnext

theorem alone_bulkTagged {missing : List String} {updated : Nat} :
    forall {touched : List String} {w : World} {events : List (Event machine)},
      Alone machine (bulkTagged tenantId updated missing touched) w events answer v ->
        v.db = w.db := by
  intro touched
  induction touched with
  | nil =>
      intro w events h
      rw [(alone_done h).2.2]
  | cons host rest ih =>
      intro w events h
      cases alone_call h with
      | inl hexec =>
          rcases hexec with ⟨later, _, hrest⟩
          exact (ih hrest).trans rfl
      | inr hfault =>
          rcases hfault with ⟨r, hr, _⟩
          cases hr

theorem alone_bulkTagsLoop :
    forall {ids : List String} {updated : Nat} {missing touched : List String} {w : World}
      {events : List (Event machine)},
      Alone machine (bulkTagsLoop tenantId body updated missing touched ids) w events answer v ->
        answer = Response.internal ∨
          batchDb tenantId w.now body (ids.filter (isFound tenantId w.db)) w.db = some v.db := by
  intro ids
  induction ids with
  | nil =>
      intro updated missing touched w events h
      apply Or.inr
      rw [alone_bulkTagged h]
      rfl
  | cons id rest ih =>
      intro updated missing touched w events h
      rw [bulkTagsLoop] at h
      cases alone_askOr h with
      | inl hfailed => exact Or.inl hfailed
      | inr hasked =>
          rcases hasked with ⟨later, hasked⟩
          rw [List.filter_cons]
          cases hhost : Query.eval w.now w.db (Query.host tenantId id) with
          | none =>
              have hmissing : isFound tenantId w.db id = false := by
                have hget : HostRepo.get tenantId id w.db = none := hhost
                unfold isFound
                rw [hget]
                rfl
              rw [hhost] at hasked
              rw [hmissing]
              exact ih hasked
          | some host =>
              have hfound : isFound tenantId w.db id = true := by
                have hget : HostRepo.get tenantId id w.db = some host := hhost
                unfold isFound
                rw [hget]
                rfl
              rw [hhost] at hasked
              rw [hfound]
              cases alone_bulkSet hasked with
              | inl hfailed => exact Or.inl hfailed
              | inr hsets =>
                  rcases hsets with ⟨c, db, later, hset, hsets⟩
                  cases alone_bulkRemove hsets with
                  | inl hfailed => exact Or.inl hfailed
                  | inr hremoves =>
                      rcases hremoves with ⟨c', db', later, hremove, hremoves⟩
                      cases ih hremoves with
                      | inl hfailed => exact Or.inl hfailed
                      | inr hrest =>
                          apply Or.inr
                          have hhosts : db'.hosts = w.db.hosts :=
                            (hosts_removeDb hremove).trans (hosts_setDb hset)
                          have hsame : rest.filter (isFound tenantId db') =
                              rest.filter (isFound tenantId w.db) :=
                            List.filter_congr fun other _ => isFound_congr hhosts tenantId other
                          have hrest : batchDb tenantId w.now body
                              (rest.filter (isFound tenantId db')) db' = some v.db := hrest
                          rw [hsame] at hrest
                          show ((setDb tenantId w.now id body.set w.db).bind
                            (removeDb tenantId w.now id body.remove)).bind _ = some v.db
                          rw [hset]
                          show (removeDb tenantId w.now id body.remove db).bind _ = some v.db
                          rw [hremove]
                          exact hrest

/-!
# The single requests
-/

theorem run_putTag {key value : String} (hrole : who.role.canWriteConfig = true)
    (hfound : isFound who.tenantId w.db hostId = true) (hcheck : checkTag key value = Except.ok ())
    (htx : (Statement.upsertManualTag who.tenantId hostId key value).tx w.now w.db =
      Except.ok ((), db)) :
    (Program.run machine (putTag who hostId key value) w).1 = Response.noContent ∧
      (Program.run machine (putTag who hostId key value) w).2.db = db ∧
      (Program.run machine (putTag who hostId key value) w).2.now = w.now := by
  have hmay : mayWrite who = Except.ok () := by
    unfold mayWrite
    rw [hrole]
    rfl
  rcases Option.isSome_iff_exists.mp hfound with ⟨host, hhost⟩
  have hhost : Query.eval w.now w.db (Query.host who.tenantId hostId) = some host := hhost
  unfold putTag
  rw [run_guarded_ok hmay, ifHostBelongs, run_askOr, hhost]
  simp only
  rw [run_guarded_ok hcheck, upsertManualTag, run_askOr, run_executeOr htx]
  split
  · exact ⟨rfl, rfl, rfl⟩
  · exact ⟨rfl, rfl, rfl⟩

theorem checked_of_noContent {key value : String}
    (h : (Program.run machine (putTag who hostId key value) w).1 = Response.noContent) :
    checkTag key value = Except.ok () := by
  unfold putTag guarded at h
  split at h
  · rename_i refused hrefused
    unfold mayWrite at hrefused
    split at hrefused
    · cases hrefused
      cases h
    · cases hrefused
  · rw [ifHostBelongs, run_askOr] at h
    split at h
    · cases h
    · split at h
      · rename_i refused hrefused
        unfold checkTag at hrefused
        split at hrefused
        · cases hrefused
          cases h
        · split at hrefused
          · cases hrefused
            cases h
          · cases hrefused
      · assumption

theorem run_deleteTag {key : String} {b : Bool} (hrole : who.role.canWriteConfig = true)
    (hfound : isFound who.tenantId w.db hostId = true)
    (htx : (Statement.deleteManualTag who.tenantId hostId key).tx w.now w.db =
      Except.ok (b, db)) :
    (Program.run machine (deleteTag who hostId key) w).2.db = db ∧
      (Program.run machine (deleteTag who hostId key) w).2.now = w.now := by
  have hmay : mayWrite who = Except.ok () := by
    unfold mayWrite
    rw [hrole]
    rfl
  rcases Option.isSome_iff_exists.mp hfound with ⟨host, hhost⟩
  have hhost : Query.eval w.now w.db (Query.host who.tenantId hostId) = some host := hhost
  unfold deleteTag
  rw [run_guarded_ok hmay, ifHostBelongs, run_askOr, hhost]
  simp only
  rw [run_executeOr htx]
  cases b with
  | true => exact ⟨rfl, rfl⟩
  | false => exact ⟨rfl, rfl⟩

theorem putEach_setDb (hrole : who.role.canWriteConfig = true) :
    forall {tags : List (String × String)} {w : World} {db : Db},
      isFound who.tenantId w.db hostId = true ->
        (forall tag, tag ∈ tags -> checkTag tag.1 tag.2 = Except.ok ()) ->
          setDb who.tenantId w.now hostId tags w.db = some db ->
            (putEach who hostId tags w).2.db = db ∧ (putEach who hostId tags w).2.now = w.now ∧
              forall a, a ∈ (putEach who hostId tags w).1 -> a = Response.noContent := by
  intro tags
  induction tags with
  | nil =>
      intro w db _ _ h
      cases h
      constructor
      · rfl
      · constructor
        · rfl
        · intro a ha
          cases ha
  | cons tag rest ih =>
      intro w db hfound hchecks h
      rw [setDb] at h
      split at h
      · rename_i next htx
        have hfirst := run_putTag hrole hfound (hchecks tag List.mem_cons_self) htx
        have hlater : isFound who.tenantId
            (Program.run machine (putTag who hostId tag.1 tag.2) w).2.db hostId = true := by
          rw [hfirst.2.1, isFound_congr (hosts_upsert htx)]
          exact hfound
        have hset : setDb who.tenantId
            (Program.run machine (putTag who hostId tag.1 tag.2) w).2.now hostId rest
            (Program.run machine (putTag who hostId tag.1 tag.2) w).2.db = some db := by
          rw [hfirst.2.1, hfirst.2.2]
          exact h
        have hrest := ih hlater (fun t ht => hchecks t (List.mem_cons_of_mem _ ht)) hset
        constructor
        · exact hrest.1
        · constructor
          · exact hrest.2.1.trans hfirst.2.2
          · intro a ha
            cases List.mem_cons.mp ha with
            | inl heq =>
                rw [heq]
                exact hfirst.1
            | inr hmem => exact hrest.2.2 a hmem
      · cases h

theorem deleteEach_removeDb (hrole : who.role.canWriteConfig = true) :
    forall {keys : List String} {w : World} {db : Db},
      isFound who.tenantId w.db hostId = true ->
        removeDb who.tenantId w.now hostId keys w.db = some db ->
          (deleteEach who hostId keys w).db = db ∧ (deleteEach who hostId keys w).now = w.now := by
  intro keys
  induction keys with
  | nil =>
      intro w db _ h
      cases h
      exact ⟨rfl, rfl⟩
  | cons key rest ih =>
      intro w db hfound h
      rw [removeDb] at h
      split at h
      · rename_i next htx
        have hfirst := run_deleteTag hrole hfound htx
        have hlater : isFound who.tenantId
            (Program.run machine (deleteTag who hostId key) w).2.db hostId = true := by
          rw [hfirst.1, isFound_congr (hosts_delete htx)]
          exact hfound
        have hremove : removeDb who.tenantId
            (Program.run machine (deleteTag who hostId key) w).2.now hostId rest
            (Program.run machine (deleteTag who hostId key) w).2.db = some db := by
          rw [hfirst.1, hfirst.2]
          exact h
        have hrest := ih hlater hremove
        exact ⟨hrest.1, hrest.2.trans hfirst.2⟩
      · cases h

theorem singly_batchDb (hrole : who.role.canWriteConfig = true)
    (hchecks : forall tag, tag ∈ body.set -> checkTag tag.1 tag.2 = Except.ok ()) :
    forall {ids : List String} {w : World} {db : Db},
      (forall id, id ∈ ids -> isFound who.tenantId w.db id = true) ->
        batchDb who.tenantId w.now body ids w.db = some db ->
          (singly who body ids w).2.db = db ∧
            forall a, a ∈ (singly who body ids w).1 -> a = Response.noContent := by
  intro ids
  induction ids with
  | nil =>
      intro w db _ h
      cases h
      constructor
      · rfl
      · intro a ha
        cases ha
  | cons id rest ih =>
      intro w db hfound h
      rw [batchDb] at h
      rcases Option.bind_eq_some_iff.mp h with ⟨removed, hboth, hlater⟩
      rcases Option.bind_eq_some_iff.mp hboth with ⟨set_, hset, hremove⟩
      have hid := hfound id List.mem_cons_self
      have hput := putEach_setDb hrole hid hchecks hset
      have hfoundPut : isFound who.tenantId (putEach who id body.set w).2.db id = true := by
        rw [hput.1, isFound_congr (hosts_setDb hset)]
        exact hid
      have hremove' : removeDb who.tenantId (putEach who id body.set w).2.now id body.remove
          (putEach who id body.set w).2.db = some removed := by
        rw [hput.1, hput.2.1]
        exact hremove
      have hdelete := deleteEach_removeDb hrole hfoundPut hremove'
      have hhosts : removed.hosts = w.db.hosts := (hosts_removeDb hremove).trans (hosts_setDb hset)
      have hfoundRest : forall other, other ∈ rest -> isFound who.tenantId
          (deleteEach who id body.remove (putEach who id body.set w).2).db other = true := by
        intro other hother
        rw [hdelete.1, isFound_congr hhosts]
        exact hfound other (List.mem_cons_of_mem _ hother)
      have hrestDb : batchDb who.tenantId
          (deleteEach who id body.remove (putEach who id body.set w).2).now body rest
          (deleteEach who id body.remove (putEach who id body.set w).2).db = some db := by
        rw [hdelete.1, hdelete.2, hput.2.1]
        exact hlater
      have hrest := ih hfoundRest hrestDb
      constructor
      · exact hrest.1
      · intro a ha
        cases List.mem_append.mp ha with
        | inl hfirst => exact hput.2.2 a hfirst
        | inr hmem => exact hrest.2 a hmem

theorem checked_of_putEach :
    forall {tags : List (String × String)} {w : World},
      (forall a, a ∈ (putEach who hostId tags w).1 -> a = Response.noContent) ->
        forall tag, tag ∈ tags -> checkTag tag.1 tag.2 = Except.ok () := by
  intro tags
  induction tags with
  | nil =>
      intro w _ tag htag
      cases htag
  | cons first rest ih =>
      intro w hall tag htag
      cases List.mem_cons.mp htag with
      | inl heq =>
          rw [heq]
          exact checked_of_noContent (hall _ List.mem_cons_self)
      | inr hmem => exact ih (fun a ha => hall a (List.mem_cons_of_mem _ ha)) tag hmem

/-!
# The comparison
-/

theorem validateBulkIds_cases (hostIds : List String) :
    validateBulkIds hostIds = Except.ok (dedupIds hostIds) ∨
      exists refused, validateBulkIds hostIds = Except.error refused ∧ refused.status = 400 := by
  unfold validateBulkIds
  simp only
  split
  · exact Or.inr ⟨_, rfl, rfl⟩
  · split
    · exact Or.inr ⟨_, rfl, rfl⟩
    · exact Or.inl rfl

def badKey (key : String) : Bool :=
  (trim key).isEmpty || decide (128 < byteLen key)

theorem checkBulkTags_cases (body : BulkTagsBody) :
    (checkBulkTags body = Except.ok (dedupIds body.hostIds) ∧
      forall tag, tag ∈ body.set -> badKey tag.1 = false) ∨
    exists refused, checkBulkTags body = Except.error refused ∧ refused.status = 400 := by
  unfold checkBulkTags
  rcases validateBulkIds_cases body.hostIds with hids | ⟨refused, hids, hstatus⟩
  · rw [hids]
    simp only [bind, Except.bind]
    split
    · exact Or.inr ⟨_, rfl, rfl⟩
    · split
      · exact Or.inr ⟨_, rfl, rfl⟩
      · rename_i hkeys
        refine Or.inl ⟨rfl, ?_⟩
        intro tag htag
        apply Bool.eq_false_iff.mpr
        intro hbad
        apply hkeys
        apply List.any_eq_true.mpr
        exact ⟨tag.1, List.mem_append_left _ (List.mem_map.mpr ⟨tag, htag, rfl⟩), hbad⟩
  · rw [hids]
    exact Or.inr ⟨refused, rfl, hstatus⟩

theorem checkTag_of_key {key value : String} (hkey : badKey key = false)
    (hvalue : byteLen value ≤ maxValueLen) : checkTag key value = Except.ok () := by
  unfold checkTag
  rw [if_neg, if_neg (Nat.not_lt.mpr hvalue)]
  intro hbad
  have hbad : badKey key = true := by
    unfold badKey
    rw [Bool.or_eq_true, decide_eq_true_iff]
    exact hbad
  rw [hkey] at hbad
  cases hbad

theorem value_of_checkTag {key value : String} (h : checkTag key value = Except.ok ()) :
    byteLen value ≤ maxValueLen := by
  unfold checkTag at h
  split at h
  · cases h
  · split at h
    · cases h
    · rename_i hvalue
      exact Nat.not_lt.mp hvalue

theorem mayWrite_cases (who : AuthedUser) :
    (mayWrite who = Except.ok () ∧ who.role.canWriteConfig = true) ∨
      exists refused, mayWrite who = Except.error refused ∧ refused.status = 403 := by
  unfold mayWrite
  cases who.role.canWriteConfig with
  | true => exact Or.inl ⟨rfl, rfl⟩
  | false => exact Or.inr ⟨_, rfl, rfl⟩

theorem batch_of_bulkTags (hrun : Alone machine (bulkTags who body) w events answer v)
    (hanswer : answer.status = 200) :
    who.role.canWriteConfig = true ∧ (forall tag, tag ∈ body.set -> badKey tag.1 = false) ∧
      batchDb who.tenantId w.now body (foundHosts who body w) w.db = some v.db := by
  unfold bulkTags guarded at hrun
  rcases mayWrite_cases who with ⟨hmay, hrole⟩ | ⟨refused, hmay, hstatus⟩
  · rw [hmay] at hrun
    simp only at hrun
    rcases checkBulkTags_cases body with ⟨hcheck, hkeys⟩ | ⟨refused, hcheck, hstatus⟩
    · rw [hcheck] at hrun
      cases alone_bulkTagsLoop hrun with
      | inl hfailed =>
          rw [hfailed] at hanswer
          cases hanswer
      | inr hdb => exact ⟨hrole, hkeys, hdb⟩
    · rw [hcheck] at hrun
      rw [(alone_done hrun).2.1, hstatus] at hanswer
      cases hanswer
  · rw [hmay] at hrun
    rw [(alone_done hrun).2.1, hstatus] at hanswer
    cases hanswer

/-- A batch that succeeds is tag by tag what single requests do exactly when there is
no host to tag or no value is too long for a put. -/
theorem bulk_same_as_singly_iff (hrun : Alone machine (bulkTags who body) w events answer v)
    (hanswer : answer.status = 200) :
    SameAsSingly who body w v <->
      foundHosts who body w = [] ∨ forall tag, tag ∈ body.set -> byteLen tag.2 ≤ maxValueLen := by
  rcases batch_of_bulkTags hrun hanswer with ⟨hrole, hkeys, hbatch⟩
  constructor
  · intro hsame
    cases hfound : foundHosts who body w with
    | nil => exact Or.inl rfl
    | cons first rest =>
        apply Or.inr
        intro tag htag
        have haccepted := hsame.accepted
        rw [hfound] at haccepted
        have hputs : forall a, a ∈ (putEach who first body.set w).1 ->
            a = Response.noContent :=
          fun a ha => haccepted a (List.mem_append_left _ ha)
        exact value_of_checkTag (checked_of_putEach hputs tag htag)
  · intro hcondition
    cases hcondition with
    | inl hnone =>
        rw [hnone] at hbatch
        have hdb : w.db = v.db := Option.some.inj hbatch
        constructor
        · rw [hnone]
          exact hdb.symm
        · rw [hnone]
          intro a ha
          cases ha
    | inr hvalues =>
        have hchecks : forall tag, tag ∈ body.set -> checkTag tag.1 tag.2 = Except.ok () :=
          fun tag htag => checkTag_of_key (hkeys tag htag) (hvalues tag htag)
        have hfound : forall id, id ∈ foundHosts who body w ->
            isFound who.tenantId w.db id = true :=
          fun id hid => (List.mem_filter.mp hid).2
        have hsingly := singly_batchDb hrole hchecks hfound hbatch
        exact ⟨hsingly.1.symm, hsingly.2⟩

/-- One host, and a value of so many characters. -/
def tagOne (length : Nat) : BulkTagsBody :=
  { hostIds := ["h1"], set := [("role", String.ofList (List.replicate length 'x'))], remove := [] }

theorem bulk_same_as_singly_short :
    SameAsSingly batchOperator (tagOne 3) twoHosts
        (Program.run machine (bulkTags batchOperator (tagOne 3)) twoHosts).2 <->
      foundHosts batchOperator (tagOne 3) twoHosts = [] ∨
        forall tag, tag ∈ (tagOne 3).set -> byteLen tag.2 ≤ maxValueLen := by
  rcases alone_run machine (bulkTags batchOperator (tagOne 3)) twoHosts with ⟨events, hrun⟩
  exact bulk_same_as_singly_iff hrun (by decide +kernel)

/-- A value that no single request would store. -/
theorem bulk_takes_a_long_value :
    Not (forall (who : AuthedUser) (body : BulkTagsBody) (w v : World)
      (events : List (Event machine)) (answer : Response),
        Alone machine (bulkTags who body) w events answer v -> answer.status = 200 ->
          SameAsSingly who body w v) := by
  intro h
  rcases alone_run machine (bulkTags batchOperator (tagOne 257)) twoHosts with ⟨events, hrun⟩
  have hsame := h _ _ _ _ _ _ hrun (by decide +kernel)
  have hrefused : (singly batchOperator (tagOne 257)
      (foundHosts batchOperator (tagOne 257) twoHosts) twoHosts).1.map Response.status = [400] := by
    decide +kernel
  rcases List.map_eq_singleton_iff.mp hrefused with ⟨a, hanswers, hstatus⟩
  have haccepted := hsame.accepted a (by rw [hanswers]; exact List.mem_singleton_self a)
  rw [haccepted] at hstatus
  cases hstatus

end Hosts
end FleetServer
