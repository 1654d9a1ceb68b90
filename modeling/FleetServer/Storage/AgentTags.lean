import FleetServer.Storage.HostTags

/-!
# Replacing a host's own tags

`replace_agent_tags` from the rows before to the rows after.  It looks a stored value
up by host and key, and deletes by tenant as well: what a row of the host under
another tenant does to its answer.
-/

namespace FleetServer
namespace Storage

open FleetServer.Core
open Table

namespace HostTagsRepo

def agentTags (tenantId : Int) (hostId : String) (tags : List HostTagRow) :
    List (String × String) :=
  view (fun r => if ofHost tenantId hostId r.tenantId r.hostId && r.source == TagSource.agent then
    some (r.key, r.value) else none) tags

def otherTags (hostId : String) (tags : List HostTagRow) : List HostTagRow :=
  tags.filter fun r => r.hostId != hostId || r.source != TagSource.agent

/-- The primary key of the table. -/
def TagKeys (tags : List HostTagRow) : Prop :=
  tags.Pairwise fun a b => isTag a.hostId a.key a.source b = false

def OneTenant (tenantId : Int) (hostId : String) (tags : List HostTagRow) : Prop :=
  forall r, r ∈ tags -> r.hostId = hostId -> r.source = TagSource.agent -> r.tenantId = tenantId

variable {tenantId : Int} {hostId key value : String} {source : TagSource} {now : Int}
variable {row r : HostTagRow} {tags : List HostTagRow} {tag : String × String}
variable {reported : List (String × String)}

theorem isTag_iff :
    isTag hostId key source r = true <-> r.hostId = hostId ∧ r.key = key ∧ r.source = source := by
  unfold isTag
  rw [Bool.and_eq_true, Bool.and_eq_true, beq_iff_eq, beq_iff_eq, beq_iff_eq, and_assoc]

theorem mem_agentTags :
    tag ∈ agentTags tenantId hostId tags <->
      exists r, r ∈ tags ∧ r.tenantId = tenantId ∧ isTag hostId tag.1 TagSource.agent r = true ∧
        r.value = tag.2 := by
  unfold agentTags view
  rw [List.mem_filterMap]
  constructor
  · intro h
    rcases h with ⟨r, hr, htag⟩
    split at htag
    · rename_i hown
      cases htag
      unfold ofHost at hown
      rw [Bool.and_eq_true, Bool.and_eq_true, beq_iff_eq, beq_iff_eq, beq_iff_eq] at hown
      exact ⟨r, hr, hown.1.1, isTag_iff.mpr ⟨hown.1.2, rfl, hown.2⟩, rfl⟩
    · cases htag
  · intro h
    rcases h with ⟨r, hr, htenant, his, hvalue⟩
    rw [isTag_iff] at his
    exists r
    constructor
    · exact hr
    · have hown : (ofHost tenantId hostId r.tenantId r.hostId && r.source == TagSource.agent)
          = true := by
        unfold ofHost
        rw [Bool.and_eq_true, Bool.and_eq_true, beq_iff_eq, beq_iff_eq, beq_iff_eq]
        exact ⟨⟨htenant, his.1⟩, his.2.2⟩
      rw [if_pos hown, his.2.1, hvalue]

/-!
# One stored tag
-/

theorem isTag_self : isTag row.hostId row.key row.source row = true :=
  isTag_iff.mpr ⟨rfl, rfl, rfl⟩

theorem mem_putRow :
    r ∈ putRow row tags <->
      r = row ∨ (r ∈ tags ∧ isTag row.hostId row.key row.source r = false) := by
  unfold putRow Table.upsert
  split
  · rename_i hany
    rw [List.any_eq_true] at hany
    rw [mem_updateWhere]
    constructor
    · intro h
      rcases h with ⟨s, hs, heq⟩
      cases hconflict : isTag row.hostId row.key row.source s with
      | true =>
          rw [hconflict] at heq
          exact Or.inl heq
      | false =>
          rw [hconflict] at heq
          apply Or.inr
          rw [heq]
          exact ⟨hs, hconflict⟩
    · intro h
      cases h with
      | inl heq =>
          rcases hany with ⟨s, hs, hconflict⟩
          exact ⟨s, hs, by rw [hconflict]; exact heq⟩
      | inr hold => exact ⟨r, hold.1, by rw [hold.2]; rfl⟩
  · rename_i hnone
    rw [List.mem_append, List.mem_singleton]
    constructor
    · intro h
      cases h with
      | inl hold =>
          apply Or.inr
          constructor
          · exact hold
          · cases hconflict : isTag row.hostId row.key row.source r with
            | false => rfl
            | true => exact absurd (List.any_eq_true.mpr ⟨r, hold, hconflict⟩) hnone
      | inr heq => exact Or.inl heq
    · intro h
      cases h with
      | inl heq => exact Or.inr heq
      | inr hold => exact Or.inl hold.1

theorem filter_updateWhere {Row : Type} {p q : Row -> Bool} {f : Row -> Row}
    (hold : forall r, p r = true -> q r = false) (hnew : forall r, p r = true -> q (f r) = false)
    (rows : List Row) : (updateWhere p f rows).filter q = rows.filter q := by
  unfold updateWhere
  induction rows with
  | nil => rfl
  | cons r rows ih =>
      rw [List.map_cons, List.filter_cons, List.filter_cons, ih]
      cases hp : p r with
      | true =>
          rw [if_pos rfl, hnew r hp, hold r hp]
          rfl
      | false => rfl

theorem filter_putRow {q : HostTagRow -> Bool}
    (hq : forall r, isTag row.hostId row.key row.source r = true -> q r = false) :
    (putRow row tags).filter q = tags.filter q := by
  unfold putRow Table.upsert
  split
  · apply filter_updateWhere hq
    intro r _
    exact hq row isTag_self
  · rw [List.filter_append, List.filter_cons, hq row isTag_self]
    exact List.append_nil _

theorem find_putRow :
    (putRow row tags).find? (isTag hostId key source) =
      if isTag hostId key source row then some row
      else tags.find? (isTag hostId key source) := by
  have hsame : isTag hostId key source row = true ->
      forall r, isTag row.hostId row.key row.source r = isTag hostId key source r := by
    intro hrow r
    rw [isTag_iff] at hrow
    rw [hrow.1, hrow.2.1, hrow.2.2]
  cases hrow : isTag hostId key source row with
  | true =>
      rw [if_pos rfl]
      unfold putRow Table.upsert
      split
      · rename_i hany
        have hfind : forall rows : List HostTagRow,
            rows.any (isTag row.hostId row.key row.source) = true ->
              (updateWhere (isTag row.hostId row.key row.source) (fun _ => row) rows).find?
                (isTag hostId key source) = some row := by
          intro rows
          induction rows with
          | nil =>
              intro hnone
              cases hnone
          | cons first rest ih =>
              intro hany
              rw [updateWhere_cons]
              cases hfirst : isTag row.hostId row.key row.source first with
              | true =>
                  rw [if_pos rfl, List.find?_cons, hrow]
              | false =>
                  have hmiss : isTag hostId key source first = false := by
                    rw [← hsame hrow]
                    exact hfirst
                  rw [List.any_cons, hfirst] at hany
                  show List.find? _ (first :: _) = some row
                  rw [List.find?_cons, hmiss]
                  exact ih hany
        exact hfind tags hany
      · rename_i hnone
        have hmiss : tags.find? (isTag hostId key source) = none := by
          rw [List.find?_eq_none]
          intro r hr his
          rw [← hsame hrow] at his
          exact hnone (List.any_eq_true.mpr ⟨r, hr, his⟩)
        rw [List.find?_append, hmiss, List.find?_cons, hrow]
        rfl
  | false =>
      show _ = tags.find? (isTag hostId key source)
      have hfilter : (putRow row tags).filter (isTag hostId key source) =
          tags.filter (isTag hostId key source) := by
        apply filter_putRow
        intro r hr
        cases his : isTag hostId key source r with
        | false => rfl
        | true =>
            rw [isTag_iff] at hr his
            have hself : isTag hostId key source row = true :=
              isTag_iff.mpr ⟨hr.1.symm.trans his.1, hr.2.1.symm.trans his.2.1,
                hr.2.2.symm.trans his.2.2⟩
            rw [hrow] at hself
            cases hself
      rw [← List.head?_filter, ← List.head?_filter, hfilter]

theorem valueOf_putRow :
    valueOf hostId key source (putRow row tags) =
      if isTag hostId key source row then some row.value else valueOf hostId key source tags := by
  unfold valueOf
  rw [find_putRow]
  split
  · rfl
  · rfl

/-!
# All reported tags
-/

theorem mem_putAgentTags :
    forall {reported : List (String × String)} {tags : List HostTagRow},
      (reported.map Prod.fst).Nodup ->
        (r ∈ (putAgentTags tenantId hostId now reported tags).2 <->
          (exists tag, tag ∈ reported ∧
            r = newRow tenantId hostId tag.1 tag.2 TagSource.agent now) ∨
          (r ∈ tags ∧ forall tag, tag ∈ reported ->
            isTag hostId tag.1 TagSource.agent r = false)) := by
  intro reported
  induction reported with
  | nil =>
      intro tags _
      constructor
      · intro h
        apply Or.inr
        constructor
        · exact h
        · intro tag htag
          cases htag
      · intro h
        cases h with
        | inl hnew =>
            rcases hnew with ⟨tag, htag, _⟩
            cases htag
        | inr hold => exact hold.1
  | cons first rest ih =>
      intro tags hnodup
      have hparts := List.nodup_cons.mp hnodup
      show r ∈ (putAgentTags tenantId hostId now rest
        (putRow (newRow tenantId hostId first.1 first.2 TagSource.agent now) tags)).2 <-> _
      rw [ih hparts.2, mem_putRow]
      have hother : forall tag, tag ∈ rest ->
          isTag hostId tag.1 TagSource.agent
            (newRow tenantId hostId first.1 first.2 TagSource.agent now) = false := by
        intro tag htag
        cases his : isTag hostId tag.1 TagSource.agent
            (newRow tenantId hostId first.1 first.2 TagSource.agent now) with
        | false => rfl
        | true =>
            rw [isTag_iff] at his
            have hkey : first.1 = tag.1 := his.2.1
            exact absurd (List.mem_map.mpr ⟨tag, htag, hkey.symm⟩) hparts.1
      constructor
      · intro h
        rcases h with ⟨tag, htag, hr⟩ | ⟨hr | hold, hmiss⟩
        · exact Or.inl ⟨tag, List.mem_cons_of_mem _ htag, hr⟩
        · exact Or.inl ⟨first, List.mem_cons_self, hr⟩
        · apply Or.inr
          constructor
          · exact hold.1
          · intro tag htag
            cases List.mem_cons.mp htag with
            | inl heq =>
                rw [heq]
                exact hold.2
            | inr hmem => exact hmiss tag hmem
      · intro h
        rcases h with ⟨tag, htag, hr⟩ | ⟨hold, hmiss⟩
        · cases List.mem_cons.mp htag with
          | inl heq =>
              apply Or.inr
              rw [hr, heq]
              exact ⟨Or.inl rfl, hother⟩
          | inr hmem => exact Or.inl ⟨tag, hmem, hr⟩
        · apply Or.inr
          constructor
          · exact Or.inr ⟨hold, hmiss first List.mem_cons_self⟩
          · intro tag htag
            exact hmiss tag (List.mem_cons_of_mem _ htag)

theorem filter_putAgentTags {q : HostTagRow -> Bool}
    (hq : forall r, r.hostId = hostId -> r.source = TagSource.agent -> q r = false) :
    forall {reported : List (String × String)} {tags : List HostTagRow},
      (putAgentTags tenantId hostId now reported tags).2.filter q = tags.filter q := by
  intro reported
  induction reported with
  | nil =>
      intro _
      rfl
  | cons first rest ih =>
      intro tags
      show (putAgentTags tenantId hostId now rest
        (putRow (newRow tenantId hostId first.1 first.2 TagSource.agent now) tags)).2.filter q = _
      rw [ih]
      apply filter_putRow
      intro r hr
      rw [isTag_iff] at hr
      exact hq r hr.1 hr.2.2

theorem putAgentTags_changed :
    forall {reported : List (String × String)} {tags : List HostTagRow},
      (reported.map Prod.fst).Nodup ->
        ((putAgentTags tenantId hostId now reported tags).1 = true <->
          exists tag, tag ∈ reported ∧ valueOf hostId tag.1 TagSource.agent tags ≠ some tag.2) := by
  intro reported
  induction reported with
  | nil =>
      intro tags _
      constructor
      · intro h
        cases h
      · intro h
        rcases h with ⟨tag, htag, _⟩
        cases htag
  | cons first rest ih =>
      intro tags hnodup
      have hparts := List.nodup_cons.mp hnodup
      show (decide (valueOf hostId first.1 TagSource.agent tags ≠ some first.2) ||
        (putAgentTags tenantId hostId now rest
          (putRow (newRow tenantId hostId first.1 first.2 TagSource.agent now) tags)).1) = true
            <-> _
      rw [Bool.or_eq_true, decide_eq_true_iff, ih hparts.2]
      have hlater : forall tag, tag ∈ rest ->
          valueOf hostId tag.1 TagSource.agent
            (putRow (newRow tenantId hostId first.1 first.2 TagSource.agent now) tags) =
              valueOf hostId tag.1 TagSource.agent tags := by
        intro tag htag
        rw [valueOf_putRow]
        apply if_neg
        intro his
        rw [isTag_iff] at his
        have hkey : first.1 = tag.1 := his.2.1
        exact hparts.1 (List.mem_map.mpr ⟨tag, htag, hkey.symm⟩)
      constructor
      · intro h
        rcases h with hfirst | ⟨tag, htag, hne⟩
        · exact ⟨first, List.mem_cons_self, hfirst⟩
        · rw [hlater tag htag] at hne
          exact ⟨tag, List.mem_cons_of_mem _ htag, hne⟩
      · intro h
        rcases h with ⟨tag, htag, hne⟩
        cases List.mem_cons.mp htag with
        | inl heq =>
            rw [heq] at hne
            exact Or.inl hne
        | inr hmem =>
            apply Or.inr
            exists tag
            rw [hlater tag hmem]
            exact ⟨hmem, hne⟩

/-!
# The replacement
-/

/-- The host's own tags are the reported ones, nothing else moved, and the answer
says whether they are others than before. -/
structure Replaces (tenantId : Int) (hostId : String) (reported : List (String × String))
    (db db' : Db) (changed : Bool) : Prop where
  reported : forall tag, tag ∈ agentTags tenantId hostId db'.hostTags <-> tag ∈ reported
  others : otherTags hostId db'.hostTags = otherTags hostId db.hostTags
  frame : db' = { db with hostTags := db'.hostTags }
  flag : changed = true <->
    Not (forall tag, tag ∈ agentTags tenantId hostId db.hostTags <->
      tag ∈ agentTags tenantId hostId db'.hostTags)

theorem eq_of_tagKeys {a b : HostTagRow} (hkeys : TagKeys tags) (ha : a ∈ tags) (hb : b ∈ tags)
    (hisa : isTag hostId key source a = true) (hisb : isTag hostId key source b = true) :
    a = b := by
  rw [isTag_iff] at hisa hisb
  have hab : isTag a.hostId a.key a.source b = true :=
    isTag_iff.mpr ⟨hisb.1.trans hisa.1.symm, hisb.2.1.trans hisa.2.1.symm,
      hisb.2.2.trans hisa.2.2.symm⟩
  have hba : isTag b.hostId b.key b.source a = true :=
    isTag_iff.mpr ⟨hisa.1.trans hisb.1.symm, hisa.2.1.trans hisb.2.1.symm,
      hisa.2.2.trans hisb.2.2.symm⟩
  induction tags with
  | nil => cases ha
  | cons first rest ih =>
      have hparts := List.pairwise_cons.mp hkeys
      cases List.mem_cons.mp ha with
      | inl heqa =>
          cases List.mem_cons.mp hb with
          | inl heqb => rw [heqa, heqb]
          | inr hmemb =>
              rw [heqa, hparts.1 b hmemb] at hab
              cases hab
      | inr hmema =>
          cases List.mem_cons.mp hb with
          | inl heqb =>
              rw [heqb, hparts.1 a hmema] at hba
              cases hba
          | inr hmemb => exact ih hparts.2 hmema hmemb

/-- With one row a key and all rows under one tenant, the value that is looked up is
the host's. -/
theorem valueOf_iff (hkeys : TagKeys tags) (hone : OneTenant tenantId hostId tags) :
    valueOf hostId key TagSource.agent tags = some value <->
      (key, value) ∈ agentTags tenantId hostId tags := by
  unfold valueOf
  rw [Option.map_eq_some_iff, mem_agentTags]
  constructor
  · intro h
    rcases h with ⟨r, hfind, hvalue⟩
    have hr := List.mem_of_find?_eq_some hfind
    have his := List.find?_some hfind
    have hparts := isTag_iff.mp his
    exact ⟨r, hr, hone r hr hparts.1 hparts.2.2, his, hvalue⟩
  · intro h
    rcases h with ⟨r, hr, _, his, hvalue⟩
    cases hfind : tags.find? (isTag hostId key TagSource.agent) with
    | none =>
        rw [List.find?_eq_none] at hfind
        exact absurd his (hfind r hr)
    | some s =>
        have hs := List.mem_of_find?_eq_some hfind
        have heq : s = r := eq_of_tagKeys hkeys hs hr (List.find?_some hfind) his
        exact ⟨s, rfl, by rw [heq]; exact hvalue⟩

theorem isStale_iff :
    isStale tenantId hostId reported r = true <->
      r.tenantId = tenantId ∧ r.hostId = hostId ∧ r.source = TagSource.agent ∧
        forall tag, tag ∈ reported -> tag.1 ≠ r.key := by
  unfold isStale ofHost
  rw [Bool.and_eq_true, Bool.and_eq_true, Bool.and_eq_true, beq_iff_eq, beq_iff_eq, beq_iff_eq,
    Bool.not_eq_true', List.any_eq_false]
  simp only [beq_iff_eq, and_assoc]

theorem mem_kept :
    r ∈ deleteWhere (isStale tenantId hostId reported) tags <->
      r ∈ tags ∧ isStale tenantId hostId reported r = false :=
  mem_deleteWhere

theorem valueOf_kept (htag : tag ∈ reported) :
    valueOf hostId tag.1 TagSource.agent (deleteWhere (isStale tenantId hostId reported) tags) =
      valueOf hostId tag.1 TagSource.agent tags := by
  have hfilter : (deleteWhere (isStale tenantId hostId reported) tags).filter
      (isTag hostId tag.1 TagSource.agent) = tags.filter (isTag hostId tag.1 TagSource.agent) := by
    unfold deleteWhere
    rw [List.filter_filter]
    apply List.filter_congr
    intro r _
    cases his : isTag hostId tag.1 TagSource.agent r with
    | false => rfl
    | true =>
        have hfresh : isStale tenantId hostId reported r = false := by
          cases hstale : isStale tenantId hostId reported r with
          | false => rfl
          | true =>
              have hkey := (isTag_iff.mp his).2.1
              exact absurd hkey.symm ((isStale_iff.mp hstale).2.2.2 tag htag)
        rw [hfresh]
        rfl
  unfold valueOf
  rw [← List.head?_filter, ← List.head?_filter, hfilter]

theorem reported_after (hreported : (reported.map Prod.fst).Nodup) :
    tag ∈ agentTags tenantId hostId (putAgentTags tenantId hostId now reported
        (deleteWhere (isStale tenantId hostId reported) tags)).2 <-> tag ∈ reported := by
  rw [mem_agentTags]
  constructor
  · intro h
    rcases h with ⟨r, hr, htenant, his, hvalue⟩
    rcases (mem_putAgentTags hreported).mp hr with ⟨new, hnew, heq⟩ | ⟨hold, hmiss⟩
    · rw [isTag_iff, heq] at his
      rw [heq] at hvalue
      have hsame : new = tag := Prod.ext his.2.1 hvalue
      rw [← hsame]
      exact hnew
    · rw [mem_kept] at hold
      have hparts := isTag_iff.mp his
      have hstale : isStale tenantId hostId reported r = true := by
        apply isStale_iff.mpr
        constructor
        · exact htenant
        · constructor
          · exact hparts.1
          · constructor
            · exact hparts.2.2
            · intro other hother hkey
              have hisother : isTag hostId other.1 TagSource.agent r = true :=
                isTag_iff.mpr ⟨hparts.1, hkey.symm, hparts.2.2⟩
              rw [hmiss other hother] at hisother
              cases hisother
      rw [hold.2] at hstale
      cases hstale
  · intro htag
    exists newRow tenantId hostId tag.1 tag.2 TagSource.agent now
    constructor
    · exact (mem_putAgentTags hreported).mpr (Or.inl ⟨tag, htag, rfl⟩)
    · exact ⟨rfl, isTag_iff.mpr ⟨rfl, rfl, rfl⟩, rfl⟩

/-- A report replaces the host's own tags, when they are all stored under its tenant. -/
theorem replace_agent_tags_exact {db db' : Db} {changed : Bool} (hkeys : TagKeys db.hostTags)
    (hone : OneTenant tenantId hostId db.hostTags) (hreported : (reported.map Prod.fst).Nodup)
    (hok : replaceAgentTags tenantId hostId reported now db = Except.ok (changed, db')) :
    Replaces tenantId hostId reported db db' changed := by
  unfold replaceAgentTags at hok
  split at hok
  · cases hok
  · simp only at hok
    cases hok
    constructor
    · intro tag
      exact reported_after hreported
    · show otherTags hostId (putAgentTags tenantId hostId now reported
        (deleteWhere (isStale tenantId hostId reported) db.hostTags)).2 = _
      unfold otherTags
      rw [filter_putAgentTags]
      · unfold deleteWhere
        rw [List.filter_filter]
        apply List.filter_congr
        intro r _
        cases hstale : isStale tenantId hostId reported r with
        | false => exact Bool.and_true _
        | true =>
            have hparts := isStale_iff.mp hstale
            rw [hparts.2.1, hparts.2.2.1, bne_self_eq_false, bne_self_eq_false]
            rfl
      · intro r hhost hsource
        rw [hhost, hsource, bne_self_eq_false, bne_self_eq_false]
        rfl
    · rfl
    · rw [Bool.or_eq_true, List.any_eq_true, putAgentTags_changed hreported]
      have hafter : forall tag, tag ∈ agentTags tenantId hostId (putAgentTags tenantId hostId now
          reported (deleteWhere (isStale tenantId hostId reported) db.hostTags)).2 <->
            tag ∈ reported := fun tag => reported_after hreported
      constructor
      · intro hchanged hsame
        cases hchanged with
        | inl hstale =>
            rcases hstale with ⟨r, hr, hstale⟩
            have hparts := isStale_iff.mp hstale
            have hbefore : (r.key, r.value) ∈ agentTags tenantId hostId db.hostTags :=
              mem_agentTags.mpr ⟨r, hr, hparts.1,
                isTag_iff.mpr ⟨hparts.2.1, rfl, hparts.2.2.1⟩, rfl⟩
            have hin := (hafter _).mp ((hsame _).mp hbefore)
            exact hparts.2.2.2 _ hin rfl
        | inr hput =>
            rcases hput with ⟨tag, htag, hne⟩
            rw [valueOf_kept htag] at hne
            have hbefore := (hsame tag).mpr ((hafter tag).mpr htag)
            exact hne ((valueOf_iff hkeys hone).mpr hbefore)
      · intro hdiffer
        by_contra hunchanged
        apply hdiffer
        have hnoStale : forall r, r ∈ db.hostTags ->
            Not (isStale tenantId hostId reported r = true) :=
          fun r hr hstale => hunchanged (Or.inl ⟨r, hr, hstale⟩)
        have hstored : forall tag, tag ∈ reported ->
            tag ∈ agentTags tenantId hostId db.hostTags := by
          intro tag htag
          by_contra hmissing
          apply hunchanged
          apply Or.inr
          exists tag
          constructor
          · exact htag
          · rw [valueOf_kept htag]
            intro hvalue
            exact hmissing ((valueOf_iff hkeys hone).mp hvalue)
        intro tag
        rw [hafter tag]
        constructor
        · intro hbefore
          rcases mem_agentTags.mp hbefore with ⟨r, hr, htenant, his, hvalue⟩
          have hparts := isTag_iff.mp his
          by_contra hmissing
          apply hnoStale r hr
          apply isStale_iff.mpr
          constructor
          · exact htenant
          · constructor
            · exact hparts.1
            · constructor
              · exact hparts.2.2
              · intro other hother hkey
                rcases mem_agentTags.mp (hstored other hother) with ⟨s, hs, _, hiss, hsvalue⟩
                have hrow : s = r := by
                  apply eq_of_tagKeys hkeys hs hr hiss
                  rw [hkey]
                  exact isTag_iff.mpr ⟨hparts.1, rfl, hparts.2.2⟩
                rw [hrow] at hsvalue
                have hsame : other = tag :=
                  Prod.ext (hkey.trans hparts.2.1) (hsvalue.symm.trans hvalue)
                rw [hsame] at hother
                exact hmissing hother
        · intro htag
          exact hstored tag htag

def plainTenant (id : Int) (slug : String) : Tenant :=
  { id := id, slug := slug, name := slug, tier := "free", tierOverridesJson := none,
    trialExpiresAt := none, configVersion := 0, createdAt := 0 }

def oneTag (tenantId : Int) : Db :=
  { Db.empty with
    tenants := [plainTenant 1 "a", plainTenant 2 "b"]
    hosts := [
      { id := "h", tenantId := 1, hostname := none, os := none, enrolledAt := none,
        lastSeenAt := none, currentStateHash := none, bootstrapNonceHash := none,
        bootstrapExpiresAt := none, localConfigPresent := none, hostOverrideLast := none,
        factsReportedHash := none, factsReportedAt := none, factsRefusedHash := none,
        factsRefusedAt := none, factsRefusedStatus := none, createdAt := 0 }]
    hostTags := [newRow tenantId "h" "role" "web" TagSource.agent 0] }

theorem replace_agent_tags_exact_other_role :
    Replaces 1 "h" [("role", "db")] (oneTag 1)
      { oneTag 1 with hostTags := [newRow 1 "h" "role" "db" TagSource.agent 5] } true := by
  have hkeys : TagKeys (oneTag 1).hostTags := List.pairwise_singleton _ _
  have hone : OneTenant 1 "h" (oneTag 1).hostTags := by
    intro r hr _ _
    rw [List.mem_singleton.mp hr]
    rfl
  have hok : replaceAgentTags 1 "h" [("role", "db")] 5 (oneTag 1) =
      Except.ok (true,
        { oneTag 1 with hostTags := [newRow 1 "h" "role" "db" TagSource.agent 5] }) := rfl
  exact replace_agent_tags_exact hkeys hone (by decide) hok

/-- A row of the host under another tenant is taken for a stored tag. -/
theorem replace_agent_tags_foreign_row :
    Not (forall (tenantId : Int) (hostId : String) (reported : List (String × String)) (now : Int)
      (db db' : Db) (changed : Bool), TagKeys db.hostTags -> (reported.map Prod.fst).Nodup ->
        replaceAgentTags tenantId hostId reported now db = Except.ok (changed, db') ->
          Replaces tenantId hostId reported db db' changed) := by
  intro h
  have hok : replaceAgentTags 1 "h" [("role", "web")] 5 (oneTag 2) =
      Except.ok (false,
        { oneTag 2 with hostTags := [newRow 1 "h" "role" "web" TagSource.agent 5] }) := rfl
  have hkeys : TagKeys (oneTag 2).hostTags := List.pairwise_singleton _ _
  have hreplaces := h 1 "h" [("role", "web")] 5 (oneTag 2) _ false hkeys (by decide) hok
  have hflag : false = true := by
    apply hreplaces.flag.mpr
    intro hsame
    have hafter : ("role", "web") ∈ agentTags 1 "h" (oneTag 2).hostTags := by
      apply (hsame ("role", "web")).mpr
      exact (hreplaces.reported ("role", "web")).mpr List.mem_cons_self
    have hnone : agentTags 1 "h" (oneTag 2).hostTags = [] := rfl
    rw [hnone] at hafter
    cases hafter
  cases hflag

end HostTagsRepo

end Storage
end FleetServer
