import FleetServer.Hosts.HostHistory
import FleetServer.Storage.Documents

/-!
# The keys of the documents hold throughout

Every call keeps the keys of hosts and documents, so every database a run
reaches meets them if the first one did.
-/

namespace FleetServer
namespace Facts

open FleetServer.Core
open Storage
open Table
open Server
open Concurrency
open Hosts
open HostFactsRepo

variable {db db' : Db}

theorem stays_of_move {s : Statement} (hmove : HostsMove s db db')
    (hs : forall t k, s ≠ Statement.deleteHost t k) {h : HostRow} (hh : h ∈ db.hosts) :
    exists h', h' ∈ db'.hosts ∧ h'.id = h.id ∧ h'.tenantId = h.tenantId := by
  cases hmove with
  | same hhosts =>
      rw [hhosts]
      exact ⟨h, hh, rfl, rfl⟩
  | updated p f hhosts hf =>
      rw [hhosts]
      by_cases hp : p h = true
      · exact ⟨f h, mem_updateWhere.mpr ⟨h, hh, by rw [if_pos hp]⟩, hf h⟩
      · exact ⟨h, mem_updateWhere.mpr ⟨h, hh, by rw [if_neg hp]⟩, rfl, rfl⟩
  | created row hhosts _ _ =>
      rw [hhosts]
      exact ⟨h, List.mem_append_left _ hh, rfl, rfl⟩
  | deleted t k hdelete _ => exact absurd hdelete (hs t k)

theorem factsKeys_of_same (hkeys : FactsKeys db) (hids : (db'.hosts.map HostRow.id).Nodup)
    (hsame : db.Same Part.documents db')
    (hstay : forall h, h ∈ db.hosts -> exists h', h' ∈ db'.hosts ∧ h'.id = h.id ∧
      h'.tenantId = h.tenantId) : FactsKeys db' := by
  have hfacts : db'.hostFacts.map HostFactsRow.document =
      db.hostFacts.map HostFactsRow.document := hsame
  constructor
  · exact hids
  · have hnames := congrArg (List.map fun d : Int × String × String × String =>
      (d.2.1, d.2.2.1)) hfacts
    rw [List.map_map, List.map_map] at hnames
    have hkept : db'.hostFacts.map (fun r => (r.hostId, r.source)) =
        db.hostFacts.map fun r => (r.hostId, r.source) := hnames
    rw [hkept]
    exact hkeys.documents
  · intro r hr
    have hmem : r.document ∈ db.hostFacts.map HostFactsRow.document := by
      rw [← hfacts]
      exact List.mem_map_of_mem hr
    rcases List.mem_map.mp hmem with ⟨s, hs, hdoc⟩
    have hid : s.hostId = r.hostId :=
      congrArg (fun d : Int × String × String × String => d.2.1) hdoc
    have htenant : s.tenantId = r.tenantId :=
      congrArg (fun d : Int × String × String × String => d.1) hdoc
    rcases hkeys.owners s hs with ⟨h, hh, hown, hof⟩
    rcases hstay h hh with ⟨h', hh', hid', htenant'⟩
    exact ⟨h', hh', by rw [hid', hown, hid], by rw [htenant', hof, htenant]⟩

theorem factsKeys_deleteHost (hkeys : FactsKeys db) {t : Int} {k : String} {found : Bool}
    (h : HostRepo.delete t k db = Except.ok (found, db')) : FactsKeys db' := by
  unfold HostRepo.delete at h
  simp only at h
  split at h
  · cases h
  · rename_i hfree
    cases h
    constructor
    · exact nodup_deleteWhere hkeys.hostIds _
    · exact nodup_deleteWhere hkeys.documents _
    · intro r hr
      have hrow : r ∈ db.hostFacts := mem_of_mem_deleteWhere hr
      rcases hkeys.owners r hrow with ⟨o, ho, hid, htenant⟩
      refine ⟨o, mem_deleteWhere.mpr ⟨ho, ?_⟩, hid, htenant⟩
      rw [Bool.eq_false_iff]
      intro hmatch
      have hmatch := isHost_iff.mp hmatch
      have hgone : ofHost t k r.tenantId r.hostId = false := (mem_deleteWhere.mp hr).2
      rw [← htenant, ← hid, hmatch.1, hmatch.2] at hgone
      unfold ofHost at hgone
      rw [beq_self_eq_true, beq_self_eq_true] at hgone
      cases hgone

theorem factsKeys_statement {s : Statement} {w : World} {answer : s.Answer}
    (hkeys : FactsKeys w.db) (htx : s.tx w.now w.db = Except.ok (answer, db')) :
    FactsKeys db' := by
  by_cases hwrites : Part.documents ∈ s.writes
  · cases s with
    | deleteHost t k => exact factsKeys_deleteHost hkeys htx
    | replaceFacts t k doc keepHistory =>
        rcases replace_cases htx with ⟨_, h, _⟩ | ⟨_, h, _⟩ | ⟨_, h, _⟩ | ⟨_, h, hhost, _⟩
        · rw [h]
          exact hkeys
        · rw [h]
          exact hkeys
        · rw [h]
          exact hkeys
        · rw [h]
          exact factsKeys_storeRows hkeys hhost
    | deleteFacts t k source => exact (delete_eq_ok htx).2.2.2.2 hkeys
    | deleteFactsSource t source =>
        cases Tx.total_eq_ok.mp htx
        exact factsKeys_deleteWhere hkeys _ rfl rfl
    | _ => exact absurd hwrites (by simp [Statement.writes])
  · have hmove := hostsMove_of_statement htx
    apply factsKeys_of_same hkeys (hmove.hostIds hkeys.hostIds)
    · exact Statement.keeps hwrites w.db answer db' htx
    · intro h hh
      apply stays_of_move hmove _ hh
      intro t k hdelete
      rw [hdelete] at hwrites
      exact hwrites (by simp [Statement.writes])

theorem factsKeys_exec {op : Op} {w : World} (hkeys : FactsKeys w.db) :
    FactsKeys (exec op w).2.db := by
  cases op with
  | statement s =>
      show FactsKeys (s.exec w).2.db
      rcases statement_exec s w with ⟨e, _, hexec⟩ | ⟨answer, db', htx, hexec⟩
      · rw [hexec]
        exact hkeys
      · rw [hexec]
        exact factsKeys_statement hkeys htx
  | storeGet t id =>
      rw [exec_storeGet_world]
      exact hkeys
  | _ => exact hkeys

end Facts
end FleetServer
