import FleetServer.Storage.Effects
import FleetServer.Storage.Facts

/-!
# The documents of the hosts

The keys of the hosts' and documents' tables, and what the transactions on
facts do to the document of every host and source.
-/

namespace FleetServer
namespace Storage

open FleetServer.Core
open Table

/-- Primary keys of hosts and documents, and documents under their host's
tenant. -/
structure FactsKeys (db : Db) : Prop where
  hostIds : (db.hosts.map HostRow.id).Nodup
  documents : (db.hostFacts.map fun r => (r.hostId, r.source)).Nodup
  owners : forall r, r ∈ db.hostFacts ->
    exists h, h ∈ db.hosts ∧ h.id = r.hostId ∧ h.tenantId = r.tenantId

namespace HostFactsRepo

variable {db : Db} {tenantId : Int} {hostId source : String}

theorem isDoc_iff {r : HostFactsRow} : isDoc tenantId hostId source r = true <->
    r.tenantId = tenantId ∧ r.hostId = hostId ∧ r.source = source := by
  unfold isDoc ofHost
  rw [Bool.and_eq_true, Bool.and_eq_true, beq_iff_eq, beq_iff_eq, beq_iff_eq, and_assoc]

theorem tenant_of_document (hkeys : FactsKeys db)
    (hhost : db.hosts.any (isHost tenantId hostId) = true) {r : HostFactsRow}
    (hr : r ∈ db.hostFacts) (hid : r.hostId = hostId) : r.tenantId = tenantId := by
  rcases List.any_eq_true.mp hhost with ⟨h, hh, hmatch⟩
  rcases hkeys.owners r hr with ⟨h', hh', hid', htenant⟩
  have hmatch := isHost_iff.mp hmatch
  have hsame : h' = h :=
    eq_of_key_eq hkeys.hostIds hh' hh (by rw [hid', hid, hmatch.2])
  rw [← htenant, hsame, hmatch.1]

/-!
# Storing
-/

def docRow (tenantId : Int) (hostId : String) (doc : NewFacts) (now : Int) : HostFactsRow :=
  { tenantId := tenantId, hostId := hostId, source := doc.source, factsHash := doc.factsHash,
    factsJson := doc.factsJson, collectedAt := doc.collectedAt, receivedAt := now,
    sizeBytes := byteLen doc.factsJson }

/-- What `replace` does: nothing, or it stores the document in place of the one
the caller named. -/
theorem replace_cases {doc : NewFacts} {keepHistory now : Int} {outcome : ReplaceOutcome}
    {db' : Db} (h : replace tenantId hostId doc keepHistory now db = Except.ok (outcome, db')) :
    (outcome = ReplaceOutcome.noHost ∧ db' = db ∧
        db.hosts.any (isHost tenantId hostId) = false) ∨
      (outcome = ReplaceOutcome.unchanged ∧ db' = db ∧
        hashOf tenantId hostId doc.source db = some doc.factsHash) ∨
      (outcome = ReplaceOutcome.conflict ∧ db' = db ∧
        hashOf tenantId hostId doc.source db ≠ doc.expectedPrevious) ∨
      (outcome = ReplaceOutcome.stored ∧
        db' = storeRows tenantId hostId doc keepHistory now db ∧
        db.hosts.any (isHost tenantId hostId) = true ∧
        hashOf tenantId hostId doc.source db ≠ some doc.factsHash ∧
        hashOf tenantId hostId doc.source db = doc.expectedPrevious) := by
  unfold replace at h
  split at h
  · cases h
  · split at h
    · rename_i hmissing
      cases h
      rw [Bool.not_eq_true'] at hmissing
      exact Or.inl ⟨rfl, rfl, hmissing⟩
    · rename_i hhost
      rw [Bool.not_eq_true', Bool.not_eq_false] at hhost
      simp only at h
      split at h
      · rename_i hsame
        cases h
        exact Or.inr (Or.inl ⟨rfl, rfl, hsame⟩)
      · rename_i hother
        split at h
        · rename_i hmoved
          cases h
          exact Or.inr (Or.inr (Or.inl ⟨rfl, rfl, hmoved⟩))
        · rename_i hexpected
          cases h
          exact Or.inr (Or.inr (Or.inr ⟨rfl, rfl, hhost, hother, not_not.mp hexpected⟩))

section Stored

variable {doc : NewFacts} {keepHistory now : Int}

theorem replace_expected (hsource : validSource doc.source = true)
    (hhost : db.hosts.any (isHost tenantId hostId) = true)
    (hnew : hashOf tenantId hostId doc.source db ≠ some doc.factsHash)
    (hexpected : hashOf tenantId hostId doc.source db = doc.expectedPrevious) :
    replace tenantId hostId doc keepHistory now db =
      Except.ok (ReplaceOutcome.stored, storeRows tenantId hostId doc keepHistory now db) := by
  unfold replace
  rw [hsource, hhost]
  simp only [Bool.not_true, Bool.false_eq_true, if_false]
  rw [if_neg hnew, if_neg (not_not.mpr hexpected)]

theorem hostFacts_storeRows (db : Db) :
    (storeRows tenantId hostId doc keepHistory now db).hostFacts =
      putDoc (docRow tenantId hostId doc now) db.hostFacts := rfl

theorem get_storeRows_self (hkeys : FactsKeys db)
    (hhost : db.hosts.any (isHost tenantId hostId) = true) :
    get tenantId hostId doc.source (storeRows tenantId hostId doc keepHistory now db) =
      some (stored (docRow tenantId hostId doc now)) := by
  let row := docRow tenantId hostId doc now
  let conflict := fun r : HostFactsRow => r.hostId == row.hostId && r.source == row.source
  have hsame : forall r, r ∈ db.hostFacts -> conflict r = true ->
      { row with tenantId := r.tenantId } = row ∧ isDoc tenantId hostId doc.source r = true := by
    intro r hr hconflict
    rw [Bool.and_eq_true, beq_iff_eq, beq_iff_eq] at hconflict
    have htenant := tenant_of_document hkeys hhost hr hconflict.1
    rw [htenant]
    exact ⟨rfl, isDoc_iff.mpr ⟨htenant, hconflict⟩⟩
  have hrow : isDoc tenantId hostId doc.source row = true := isDoc_iff.mpr ⟨rfl, rfl, rfl⟩
  unfold get
  rw [hostFacts_storeRows]
  unfold putDoc Table.upsert
  split
  · rename_i hany
    rcases List.any_eq_true.mp hany with ⟨r, hr, hconflict⟩
    rw [find?_updateWhere_of_mem]
    · cases hfind : db.hostFacts.find? (isDoc tenantId hostId doc.source) with
      | none =>
          rw [List.find?_eq_none] at hfind
          exact absurd (hsame r hr hconflict).2 (hfind r hr)
      | some s =>
          have hs := isDoc_iff.mp (List.find?_some hfind)
          have hsconflict : conflict s = true := by
            rw [Bool.and_eq_true, beq_iff_eq, beq_iff_eq]
            exact hs.2
          rw [Option.map_some, Option.map_some, if_pos hsconflict,
            (hsame s (List.mem_of_find?_eq_some hfind) hsconflict).1]
    · intro s hs hsconflict
      rw [(hsame s hs hsconflict).1, hrow, (hsame s hs hsconflict).2]
  · rename_i hany
    rw [Bool.not_eq_true, List.any_eq_false] at hany
    have hnone : db.hostFacts.find? (isDoc tenantId hostId doc.source) = none := by
      rw [List.find?_eq_none]
      intro r hr hdoc
      apply hany r hr
      rw [Bool.and_eq_true, beq_iff_eq, beq_iff_eq]
      exact (isDoc_iff.mp hdoc).2
    rw [List.find?_append, hnone, Option.none_or, List.find?_cons, hrow]
    rfl

/-- Every other document is the one it was. -/
theorem get_storeRows_other (hkeys : FactsKeys db)
    (hhost : db.hosts.any (isHost tenantId hostId) = true) {t : Int} {h s : String}
    (hother : ¬ (t = tenantId ∧ h = hostId ∧ s = doc.source)) :
    get t h s (storeRows tenantId hostId doc keepHistory now db) = get t h s db := by
  let row := docRow tenantId hostId doc now
  let conflict := fun r : HostFactsRow => r.hostId == row.hostId && r.source == row.source
  have hsame : forall r, r ∈ db.hostFacts -> conflict r = true ->
      { row with tenantId := r.tenantId } = row ∧ isDoc t h s r = false := by
    intro r hr hconflict
    rw [Bool.and_eq_true, beq_iff_eq, beq_iff_eq] at hconflict
    have htenant := tenant_of_document hkeys hhost hr hconflict.1
    rw [htenant]
    refine ⟨rfl, ?_⟩
    rw [Bool.eq_false_iff]
    intro hdoc
    have hdoc := isDoc_iff.mp hdoc
    apply hother
    rw [← hdoc.1, ← hdoc.2.1, ← hdoc.2.2]
    exact ⟨htenant, hconflict.1, hconflict.2⟩
  have hrow : isDoc t h s row = false := by
    rw [Bool.eq_false_iff]
    intro hdoc
    have hdoc := isDoc_iff.mp hdoc
    exact hother ⟨hdoc.1.symm, hdoc.2.1.symm, hdoc.2.2.symm⟩
  unfold get
  rw [hostFacts_storeRows]
  unfold putDoc Table.upsert
  split
  · rw [find?_updateWhere_of_mem]
    · cases hfind : db.hostFacts.find? (isDoc t h s) with
      | none => rfl
      | some r =>
          have hdoc := List.find?_some hfind
          rw [Option.map_some]
          split
          · rename_i hconflict
            have hnot := (hsame r (List.mem_of_find?_eq_some hfind) hconflict).2
            rw [hnot] at hdoc
            cases hdoc
          · rfl
    · intro r hr hconflict
      rw [(hsame r hr hconflict).1, hrow, (hsame r hr hconflict).2]
  · rw [List.find?_append, List.find?_cons, hrow]
    simp

theorem factsKeys_storeRows (hkeys : FactsKeys db)
    (hhost : db.hosts.any (isHost tenantId hostId) = true) :
    FactsKeys (storeRows tenantId hostId doc keepHistory now db) := by
  constructor
  · exact hkeys.hostIds
  · rw [hostFacts_storeRows]
    unfold putDoc Table.upsert
    split
    · rw [map_updateWhere_of_mem]
      · exact hkeys.documents
      · intro r _ hconflict
        rw [Bool.and_eq_true, beq_iff_eq, beq_iff_eq] at hconflict
        rw [hconflict.1, hconflict.2]
    · rename_i hany
      rw [Bool.not_eq_true, List.any_eq_false] at hany
      apply nodup_append hkeys.documents
      intro r hr hkey
      apply hany r hr
      rw [Prod.mk.injEq] at hkey
      rw [Bool.and_eq_true, beq_iff_eq, beq_iff_eq]
      exact hkey
  · intro r hr
    rw [hostFacts_storeRows] at hr
    have hnew : exists h, h ∈ db.hosts ∧ h.id = hostId ∧ h.tenantId = tenantId := by
      rcases List.any_eq_true.mp hhost with ⟨h, hh, hmatch⟩
      exact ⟨h, hh, (isHost_iff.mp hmatch).2, (isHost_iff.mp hmatch).1⟩
    unfold putDoc Table.upsert at hr
    split at hr
    · rcases of_mem_updateWhere hr with ⟨s, hs, ⟨_, hrs⟩ | ⟨hconflict, hrs⟩⟩
      · rw [hrs]
        exact hkeys.owners s hs
      · rw [Bool.and_eq_true, beq_iff_eq, beq_iff_eq] at hconflict
        have htenant := tenant_of_document hkeys hhost hs hconflict.1
        rw [hrs]
        show exists h, h ∈ db.hosts ∧ h.id = hostId ∧ h.tenantId = s.tenantId
        rw [htenant]
        exact hnew
    · rcases List.mem_append.mp hr with hr | hr
      · exact hkeys.owners r hr
      · rw [List.mem_singleton] at hr
        rw [hr]
        exact hnew

end Stored

/-!
# Deleting
-/

theorem factsKeys_deleteWhere (hkeys : FactsKeys db) (p : HostFactsRow -> Bool) {db' : Db}
    (hhosts : db'.hosts = db.hosts) (hfacts : db'.hostFacts = deleteWhere p db.hostFacts) :
    FactsKeys db' := by
  constructor
  · rw [hhosts]
    exact hkeys.hostIds
  · rw [hfacts]
    exact nodup_deleteWhere hkeys.documents p
  · intro r hr
    rw [hfacts] at hr
    rw [hhosts]
    exact hkeys.owners r (mem_of_mem_deleteWhere hr)

theorem get_of_deleteWhere {p : HostFactsRow -> Bool} {db' : Db}
    (hfacts : db'.hostFacts = deleteWhere p db.hostFacts)
    (hp : forall r, isDoc tenantId hostId source r = true -> p r = false) :
    get tenantId hostId source db' = get tenantId hostId source db := by
  unfold get
  rw [hfacts, find?_deleteWhere hp]

theorem isSome_get (tenantId : Int) (hostId source : String) (db : Db) :
    (get tenantId hostId source db).isSome =
      db.hostFacts.any (isDoc tenantId hostId source) := by
  unfold get
  rw [Option.isSome_map, Bool.eq_iff_iff, List.find?_isSome, List.any_eq_true]

/-- What `delete` does to the documents. -/
theorem delete_eq_ok {removed : Bool} {db' : Db}
    (h : delete tenantId hostId source db = Except.ok (removed, db')) :
    removed = (get tenantId hostId source db).isSome ∧ db'.hosts = db.hosts ∧
      get tenantId hostId source db' = none ∧
      (forall t k s, ¬ (t = tenantId ∧ k = hostId ∧ s = source) ->
        get t k s db' = get t k s db) ∧
      (FactsKeys db -> FactsKeys db') := by
  have heq := Tx.total_eq_ok.mp h
  cases heq
  refine ⟨(isSome_get tenantId hostId source db).symm, rfl, ?_, ?_, ?_⟩
  · unfold get
    simp only
    rw [find?_deleteWhere_self]
    rfl
  · intro t k s hother
    apply get_of_deleteWhere rfl
    intro r hdoc
    rw [Bool.eq_false_iff]
    intro hsame
    have hdoc := isDoc_iff.mp hdoc
    have hsame := isDoc_iff.mp hsame
    apply hother
    rw [← hdoc.1, ← hdoc.2.1, ← hdoc.2.2]
    exact hsame
  · intro hkeys
    exact factsKeys_deleteWhere hkeys _ rfl rfl

theorem mem_hostsWithSource : hostId ∈ hostsWithSource tenantId source db <->
    (get tenantId hostId source db).isSome = true := by
  unfold hostsWithSource
  rw [List.mem_insertionSort, isSome_get, List.any_eq_true, List.mem_map]
  constructor
  · intro h
    rcases h with ⟨r, hr, hid⟩
    rcases List.mem_filter.mp hr with ⟨hr, hmatch⟩
    rw [Bool.and_eq_true, beq_iff_eq, beq_iff_eq] at hmatch
    exact ⟨r, hr, isDoc_iff.mpr ⟨hmatch.1, hid, hmatch.2⟩⟩
  · intro h
    rcases h with ⟨r, hr, hdoc⟩
    have hdoc := isDoc_iff.mp hdoc
    refine ⟨r, List.mem_filter.mpr ⟨hr, ?_⟩, hdoc.2.1⟩
    rw [Bool.and_eq_true, beq_iff_eq, beq_iff_eq]
    exact ⟨hdoc.1, hdoc.2.2⟩

end HostFactsRepo

end Storage
end FleetServer
