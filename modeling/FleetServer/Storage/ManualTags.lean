import FleetServer.Storage.AgentTags
import FleetServer.Storage.Effects

/-!
# The operator's tags

What the two statements on an operator's tag do to the tags that are read of its
host, and to the keys of the table.
-/

namespace FleetServer
namespace Storage

open FleetServer.Core
open Table

namespace HostTagsRepo

/-- A host's tags, whoever set them, are all stored under one tenant. -/
def TagsOf (tenantId : Int) (hostId : String) (tags : List HostTagRow) : Prop :=
  forall r, r ∈ tags -> r.hostId = hostId -> r.tenantId = tenantId

variable {tenantId now : Int} {hostId key value : String} {row : HostTagRow}
variable {tags : List HostTagRow} {db db' : Db}

/-!
# Keys and tenants
-/

theorem tagKeys_deleteWhere (h : TagKeys tags) (p : HostTagRow -> Bool) :
    TagKeys (deleteWhere p tags) :=
  List.Pairwise.filter _ h

theorem tagsOf_deleteWhere (h : TagsOf tenantId hostId tags) (p : HostTagRow -> Bool) :
    TagsOf tenantId hostId (deleteWhere p tags) :=
  fun r hr => h r (mem_of_mem_deleteWhere hr)

theorem tagKeys_putRow (h : TagKeys tags) : TagKeys (putRow row tags) := by
  unfold putRow Table.upsert
  split
  · unfold TagKeys updateWhere
    rw [List.pairwise_map]
    apply List.Pairwise.imp _ h
    intro a b hab
    have hkey : forall r, isTag row.hostId row.key row.source r = true ->
        r.hostId = row.hostId ∧ r.key = row.key ∧ r.source = row.source :=
      fun _ => isTag_iff.mp
    cases ha : isTag row.hostId row.key row.source a with
    | true =>
        have hrow := hkey a ha
        cases hb : isTag row.hostId row.key row.source b with
        | true =>
            rw [hrow.1, hrow.2.1, hrow.2.2, hb] at hab
            cases hab
        | false => simpa using hb
    | false =>
        cases hb : isTag row.hostId row.key row.source b with
        | true =>
            have hrow := hkey b hb
            have hsame : isTag a.hostId a.key a.source row = isTag a.hostId a.key a.source b := by
              unfold isTag
              rw [hrow.1, hrow.2.1, hrow.2.2]
            simpa [hsame] using hab
        | false => simpa using hab
  · rename_i hnone
    unfold TagKeys
    rw [List.pairwise_append]
    refine ⟨h, List.pairwise_singleton _ row, ?_⟩
    intro a ha b hb
    rw [List.mem_singleton.mp hb]
    cases hconflict : isTag a.hostId a.key a.source row with
    | false => rfl
    | true =>
        have hsame := isTag_iff.mp hconflict
        have hfound : isTag row.hostId row.key row.source a = true :=
          isTag_iff.mpr ⟨hsame.1.symm, hsame.2.1.symm, hsame.2.2.symm⟩
        exact absurd (List.any_eq_true.mpr ⟨a, ha, hfound⟩) hnone

theorem tagsOf_putRow (h : TagsOf tenantId hostId tags)
    (hrow : row.hostId = hostId -> row.tenantId = tenantId) :
    TagsOf tenantId hostId (putRow row tags) := by
  intro r hr hid
  rcases mem_putRow.mp hr with hnew | hold
  · rw [hnew] at hid ⊢
    exact hrow hid
  · exact h r hold.1 hid

/-!
# What is read of the host
-/

theorem rowsForHost_upsert_same (hkeys : TagKeys db.hostTags)
    (howned : TagsOf tenantId hostId db.hostTags) (hvalue : manualValue hostId key db = some value)
    (h : upsertManual tenantId hostId key value now db = Except.ok ((), db')) :
    rowsForHost tenantId hostId db' = rowsForHost tenantId hostId db := by
  unfold upsertManual at h
  have heq := (Tx.guarded_eq_ok.mp h).2
  cases heq
  unfold manualValue valueOf at hvalue
  rcases Option.map_eq_some_iff.mp hvalue with ⟨s, hs, hsame⟩
  have hmem := List.mem_of_find?_eq_some hs
  have hfound := List.find?_some hs
  have hput : putRow (newRow tenantId hostId key value TagSource.manual now) db.hostTags =
      updateWhere (isTag hostId key TagSource.manual)
        (fun _ => newRow tenantId hostId key value TagSource.manual now) db.hostTags :=
    if_pos (List.any_eq_true.mpr ⟨s, hmem, hfound⟩)
  unfold rowsForHost view
  simp only [hput]
  unfold updateWhere
  rw [List.filterMap_map]
  apply List.filterMap_congr
  intro r hr
  simp only [Function.comp_apply]
  split
  · rename_i hconflict
    have hone : r = s := eq_of_tagKeys hkeys hr hmem hconflict hfound
    have hparts := isTag_iff.mp hconflict
    have htenant := howned r hr hparts.1
    have hrvalue : r.value = value := by rw [hone, hsame]
    unfold ofHost newRow
    simp [htenant, hparts, hrvalue]
  · rfl

theorem deleteManualTag_eq_self
    (h : deleteManualTag tenantId hostId key db = Except.ok (false, db')) : db' = db := by
  unfold deleteManualTag at h
  have heq := Tx.total_eq_ok.mp h
  have hnone := congrArg Prod.fst heq
  have hdb := congrArg Prod.snd heq
  simp only at hnone hdb
  have hsame : deleteWhere (isTagOf tenantId hostId key TagSource.manual) db.hostTags =
      db.hostTags := by
    unfold deleteWhere
    rw [List.filter_eq_self]
    intro r hr
    rw [Bool.not_eq_true']
    exact Bool.eq_false_iff.mpr (fun hp => by
      rw [List.any_eq_true.mpr ⟨r, hr, hp⟩] at hnone
      cases hnone)
  rw [hsame] at hdb
  exact hdb.symm

end HostTagsRepo

end Storage
end FleetServer
