import FleetServer.Facts.Store
import FleetServer.Server.Walk

/-!
# A fleet's documents, host by host

The documents of a tenant come in host order, and consecutive rows of one host
are folded together.  Every host that holds one of the documents is visited
once, with all of them.
-/

namespace FleetServer
namespace Facts

open FleetServer.Core
open Storage
open Server
open Concurrency

/-!
# Consecutive rows of one host
-/

abbrev DocumentRow : Type := String × String × String

/-- The documents of one host among the rows, as `(source, json)`. -/
def rowsOf (hostId : String) (rows : List DocumentRow) : List (String × String) :=
  (rows.filter fun r => r.1 == hostId).map Prod.snd

theorem rowsOf_cons_self (hostId : String) (doc : String × String) (rows : List DocumentRow) :
    rowsOf hostId ((hostId, doc) :: rows) = doc :: rowsOf hostId rows := by
  unfold rowsOf
  rw [List.filter_cons, if_pos (beq_self_eq_true hostId), List.map_cons]

theorem rowsOf_cons_of_ne {hostId other : String} (h : other ≠ hostId) (doc : String × String)
    (rows : List DocumentRow) : rowsOf hostId ((other, doc) :: rows) = rowsOf hostId rows := by
  unfold rowsOf
  rw [List.filter_cons, if_neg (by simp [h])]

theorem rowsOf_eq_nil {hostId : String} {rows : List DocumentRow}
    (h : hostId ∉ rows.map Prod.fst) : rowsOf hostId rows = [] := by
  unfold rowsOf
  rw [List.map_eq_nil_iff, List.filter_eq_nil_iff]
  intro r hr heq
  rw [beq_iff_eq] at heq
  apply h
  rw [← heq]
  exact List.mem_map_of_mem hr

structure Grouped (rows : List DocumentRow) (groups : List (String × List (String × String))) :
    Prop where
  nodup : (groups.map Prod.fst).Nodup
  hosts : forall hostId, hostId ∈ groups.map Prod.fst <-> hostId ∈ rows.map Prod.fst
  documents : forall g, g ∈ groups -> g.2 = rowsOf g.1 rows

theorem groupByHost_head (r : DocumentRow) (rows : List DocumentRow) :
    exists docs others, groupByHost (r :: rows) = (r.1, docs) :: others := by
  rcases r with ⟨hostId, source, json⟩
  unfold groupByHost
  split
  · exact ⟨_, _, rfl⟩
  · split
    · exact ⟨_, _, rfl⟩
    · exact ⟨_, _, rfl⟩

theorem grouped_new {hostId : String} {doc : String × String} {rows : List DocumentRow}
    {groups : List (String × List (String × String))} (h : Grouped rows groups)
    (hnew : hostId ∉ rows.map Prod.fst) :
    Grouped ((hostId, doc) :: rows) ((hostId, [doc]) :: groups) := by
  constructor
  · rw [List.map_cons, List.nodup_cons]
    exact ⟨fun hmem => hnew ((h.hosts hostId).mp hmem), h.nodup⟩
  · intro k
    rw [List.map_cons, List.map_cons, List.mem_cons, List.mem_cons, h.hosts k]
  · intro g hg
    rcases List.mem_cons.mp hg with hg | hg
    · rw [hg, rowsOf_cons_self, rowsOf_eq_nil hnew]
    · have hmem := (h.hosts g.1).mp (List.mem_map_of_mem hg)
      rw [rowsOf_cons_of_ne (fun heq => hnew (by rw [heq]; exact hmem)), h.documents g hg]

theorem grouped_more {hostId : String} {doc : String × String} {docs : List (String × String)}
    {rows : List DocumentRow} {others : List (String × List (String × String))}
    (h : Grouped rows ((hostId, docs) :: others)) :
    Grouped ((hostId, doc) :: rows) ((hostId, doc :: docs) :: others) := by
  have hnodup := h.nodup
  rw [List.map_cons, List.nodup_cons] at hnodup
  constructor
  · rw [List.map_cons, List.nodup_cons]
    exact hnodup
  · intro k
    have hk := h.hosts k
    rw [List.map_cons, List.mem_cons] at hk
    rw [List.map_cons, List.map_cons, List.mem_cons, List.mem_cons, ← hk]
    constructor
    · intro hmem
      exact Or.inr hmem
    · intro hmem
      rcases hmem with hmem | hmem
      · exact Or.inl hmem
      · exact hmem
  · intro g hg
    rcases List.mem_cons.mp hg with hg | hg
    · rw [hg, rowsOf_cons_self, ← h.documents _ List.mem_cons_self]
    · have hne : hostId ≠ g.1 := by
        intro heq
        apply hnodup.1
        rw [heq]
        exact List.mem_map.mpr ⟨g, hg, rfl⟩
      rw [rowsOf_cons_of_ne hne, h.documents g (List.mem_cons_of_mem _ hg)]

theorem grouped_groupByHost :
    forall {rows : List DocumentRow}, rows.Pairwise (fun a b => a.1 ≤ b.1) ->
      Grouped rows (groupByHost rows)
  | [], _ => by
      constructor
      · exact List.nodup_nil
      · intro k
        exact Iff.rfl
      · intro g hg
        cases hg
  | (hostId, source, json) :: rows, hsorted => by
      rw [List.pairwise_cons] at hsorted
      have ih := grouped_groupByHost hsorted.2
      unfold groupByHost
      cases rows with
      | nil => exact grouped_new ih List.not_mem_nil
      | cons r rows =>
          rcases groupByHost_head r rows with ⟨docs, others, hgroups⟩
          rw [hgroups] at ih ⊢
          simp only
          by_cases hsame : hostId = r.1
          · rw [if_pos hsame]
            rw [hsame]
            exact grouped_more ih
          · rw [if_neg hsame]
            apply grouped_new ih
            intro hmem
            rcases List.mem_map.mp hmem with ⟨row, hrow, heq⟩
            have hle := hsorted.1 r List.mem_cons_self
            rcases List.mem_cons.mp hrow with hrow | hrow
            · rw [hrow] at heq
              exact hsame heq.symm
            · have hge := (List.pairwise_cons.mp hsorted.2).1 row hrow
              rw [heq] at hge
              exact hsame (String.le_antisymm hle hge)

/-!
# The documents of a tenant
-/

/-- `ORDER BY host_id, source`. -/
def inHostOrder (a b : HostFactsRow) : Prop :=
  a.hostId < b.hostId ∨ (a.hostId = b.hostId ∧ a.source ≤ b.source)

instance : DecidableRel inHostOrder :=
  fun _ _ => inferInstanceAs (Decidable (_ ∨ _))

theorem inHostOrder_total (a b : HostFactsRow) : inHostOrder a b ∨ inHostOrder b a := by
  unfold inHostOrder
  by_cases heq : a.hostId = b.hostId
  · rcases String.le_total a.source b.source with h | h
    · exact Or.inl (Or.inr ⟨heq, h⟩)
    · exact Or.inr (Or.inr ⟨heq.symm, h⟩)
  · rcases String.le_total a.hostId b.hostId with h | h
    · exact Or.inl (Or.inl (Std.lt_of_le_of_ne h heq))
    · exact Or.inr (Or.inl (Std.lt_of_le_of_ne h (Ne.symm heq)))

theorem inHostOrder_trans {a b c : HostFactsRow} (hab : inHostOrder a b)
    (hbc : inHostOrder b c) : inHostOrder a c := by
  unfold inHostOrder at *
  rcases hab with hab | ⟨hab, hsab⟩
  · rcases hbc with hbc | ⟨hbc, _⟩
    · exact Or.inl (String.lt_trans hab hbc)
    · rw [← hbc]
      exact Or.inl hab
  · rcases hbc with hbc | ⟨hbc, hsbc⟩
    · rw [hab]
      exact Or.inl hbc
    · exact Or.inr ⟨hab.trans hbc, String.le_trans hsab hsbc⟩

theorem le_of_inHostOrder {a b : HostFactsRow} (h : inHostOrder a b) : a.hostId ≤ b.hostId := by
  rcases h with h | ⟨h, _⟩
  · exact Std.le_of_lt h
  · exact Std.le_of_eq h

theorem documents_pairwise (tenantId : Int) (sources : List String) (db : Db) :
    (HostFactsRepo.documents tenantId sources db).Pairwise fun a b => a.1 ≤ b.1 := by
  have htotal : Std.Total inHostOrder := ⟨inHostOrder_total⟩
  have htrans : IsTrans HostFactsRow inHostOrder := ⟨fun _ _ _ => inHostOrder_trans⟩
  unfold HostFactsRepo.documents
  rw [List.pairwise_map]
  exact (List.pairwise_insertionSort inHostOrder _).imp le_of_inHostOrder

theorem lookup_map {alpha : Type} (key value : alpha -> String) (k : String)
    (xs : List alpha) :
    (xs.map fun x => (key x, value x)).lookup k = (xs.find? fun x => k == key x).map value := by
  induction xs with
  | nil => rfl
  | cons x xs ih =>
      rw [List.map_cons, List.lookup_cons, List.find?_cons, ih]
      cases k == key x with
      | true => rfl
      | false => rfl

theorem lookup_documents (tenantId : Int) (hostId source : String) (sources : List String)
    (db : Db) :
    (rowsOf hostId (HostFactsRepo.documents tenantId sources db)).lookup source =
      if source ∈ sources then
        (HostFactsRepo.get tenantId hostId source db).map StoredFacts.factsJson
      else none := by
  let p := fun r : HostFactsRow =>
    decide ((r.hostId == hostId) = true ∧ (source == r.source) = true)
  have htied : forall a b, p a = true -> p b = true -> inHostOrder a b := by
    intro a b ha hb
    simp only [p, decide_eq_true_eq, beq_iff_eq] at ha hb
    exact Or.inr ⟨ha.1.trans hb.1.symm, Std.le_of_eq (ha.2.symm.trans hb.2)⟩
  have hlookup : (rowsOf hostId (HostFactsRepo.documents tenantId sources db)).lookup source =
      (((db.hostFacts.filter fun r => r.tenantId == tenantId && sources.contains r.source).filter
        p).head?).map HostFactsRow.factsJson := by
    rw [← Table.filter_insertionSort htied]
    unfold rowsOf HostFactsRepo.documents
    rw [List.filter_map, List.map_map, List.head?_filter]
    show ((List.filter (fun r : HostFactsRow => r.hostId == hostId) _).map
      fun r => (r.source, r.factsJson)).lookup source = _
    rw [lookup_map, List.find?_filter]
    rfl
  rw [hlookup, List.head?_filter, List.find?_filter]
  unfold HostFactsRepo.get
  rw [Option.map_map]
  by_cases hmem : source ∈ sources
  · rw [if_pos hmem]
    congr 1
    apply congrArg (fun q => List.find? q db.hostFacts)
    funext r
    unfold HostFactsRepo.isDoc ofHost
    rw [Bool.eq_iff_iff]
    simp only [p, decide_eq_true_eq, Bool.and_eq_true, beq_iff_eq, List.contains_iff_mem]
    grind
  · rw [if_neg hmem, Option.map_eq_none_iff, List.find?_eq_none]
    intro r _ hr
    simp only [p, decide_eq_true_eq, Bool.and_eq_true, beq_iff_eq,
      List.contains_iff_mem] at hr
    exact hmem (by rw [hr.2.2]; exact hr.1.2)

/-!
# Folding over the fleet
-/

theorem run_foldHostFacts {alpha : Type} (deps : Deps) (tenantId : Int) (sources : List String)
    (acc : alpha) (f : alpha -> String -> HostFacts -> alpha) (w : World) :
    (foldHostFacts deps tenantId sources acc f).run machine w =
      (Except.ok ((groupByHost (HostFactsRepo.documents tenantId sources w.db)).foldl
        (fun acc host => f acc host.1 (parsedDocuments deps host.2)) acc), w) := by
  cases sources with
  | nil =>
      have hnone : HostFactsRepo.documents tenantId [] w.db = [] := by
        unfold HostFactsRepo.documents
        simp
      rw [hnone]
      rfl
  | cons source rest => rfl

end Facts
end FleetServer
