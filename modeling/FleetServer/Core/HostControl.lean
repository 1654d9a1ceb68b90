import FleetServer.Core.Selector

/-!
# What a host can decide about its groups

`isHostControlled` and the evaluation are two recursions over the same tree.  A
selector that the first calls operator-only evaluates alike for any two hosts
which only differ in what hosts say about themselves.
-/

namespace FleetServer
namespace Core

/-!
# Hosts an operator cannot tell apart
-/

def SameManual (tags tags' : HostTags) : Prop :=
  forall key value, ({ value := value, source := TagSource.manual } : TagValue) ∈ tags key <->
    ({ value := value, source := TagSource.manual } : TagValue) ∈ tags' key

/-- The same documents from every source but the host itself. -/
def SameImported (facts facts' : HostFacts) : Prop :=
  forall source, source ≠ agentSource -> facts source = facts' source

theorem mem_matching_manual {tags : HostTags} {key : String} {t : TagValue} :
    t ∈ matching tags key SourceFilter.manual <->
      t ∈ tags key ∧ t.source = TagSource.manual := by
  unfold matching SourceFilter.accepts
  rw [List.mem_filter, beq_iff_eq]

theorem any_matching_manual {tags tags' : HostTags} (htags : SameManual tags tags')
    (key : String) (p : TagValue -> Bool) :
    (matching tags key SourceFilter.manual).any p =
      (matching tags' key SourceFilter.manual).any p := by
  have hmem : forall t, t ∈ matching tags key SourceFilter.manual <->
      t ∈ matching tags' key SourceFilter.manual := by
    intro t
    rw [mem_matching_manual, mem_matching_manual]
    rcases t with ⟨value, source⟩
    constructor
    · rintro ⟨ht, hsource⟩
      cases hsource
      exact ⟨(htags key value).mp ht, rfl⟩
    · rintro ⟨ht, hsource⟩
      cases hsource
      exact ⟨(htags key value).mpr ht, rfl⟩
  rw [Bool.eq_iff_iff, List.any_eq_true, List.any_eq_true]
  constructor
  · rintro ⟨t, ht, hp⟩
    exact ⟨t, (hmem t).mp ht, hp⟩
  · rintro ⟨t, ht, hp⟩
    exact ⟨t, (hmem t).mpr ht, hp⟩

theorem eq_manual_of_not_hostControlled {source : SourceFilter}
    (h : source.isHostControlled = false) : source = SourceFilter.manual := by
  cases source with
  | manual => rfl
  | agent => cases h
  | any => cases h

/-!
# The two recursions agree
-/

variable {tags tags' : HostTags} {facts facts' : HostFacts}

mutual

theorem eval_eq (htags : SameManual tags tags') (hfacts : SameImported facts facts') :
    forall e : Expr, exprIsHostControlled e = false -> eval tags facts e = eval tags' facts' e
  | Expr.eq key value source, h => by
      have hsource := eq_manual_of_not_hostControlled h
      subst hsource
      exact any_matching_manual htags key (fun t => t.value == value)
  | Expr.in_ key values source, h => by
      have hsource := eq_manual_of_not_hostControlled h
      subst hsource
      exact any_matching_manual htags key (fun t => values.contains t.value)
  | Expr.exists_ key source, h => by
      have hsource := eq_manual_of_not_hostControlled h
      subst hsource
      have hnonempty : forall values : List TagValue,
          (!values.isEmpty) = values.any (fun _ => true) := by
        intro values
        cases values <;> rfl
      unfold eval
      rw [hnonempty, hnonempty]
      exact any_matching_manual htags key (fun _ => true)
  | Expr.fact source path test, h => by
      have hsource : source ≠ agentSource := by
        intro hagent
        unfold exprIsHostControlled at h
        rw [hagent, beq_self_eq_true] at h
        cases h
      unfold eval
      rw [hfacts source hsource]
  | Expr.not e, h => by
      unfold exprIsHostControlled at h
      unfold eval
      rw [eval_eq htags hfacts e h]
  | Expr.and es, h => by
      unfold exprIsHostControlled at h
      unfold eval
      exact (evalAll_eq htags hfacts es h).1
  | Expr.or es, h => by
      unfold exprIsHostControlled at h
      unfold eval
      exact (evalAll_eq htags hfacts es h).2

theorem evalAll_eq (htags : SameManual tags tags') (hfacts : SameImported facts facts') :
    forall es : List Expr, anyIsHostControlled es = false ->
      evalAll tags facts es = evalAll tags' facts' es ∧
        evalAny tags facts es = evalAny tags' facts' es
  | [], _ => ⟨rfl, rfl⟩
  | e :: rest, h => by
      unfold anyIsHostControlled at h
      rw [Bool.or_eq_false_iff] at h
      rcases evalAll_eq htags hfacts rest h.2 with ⟨hall, hany⟩
      have he := eval_eq htags hfacts e h.1
      unfold evalAll evalAny
      rw [he, hall, hany]
      exact ⟨rfl, rfl⟩

end

namespace Selector

/-- Whether a host matches a selector that is not host-controlled does not
depend on what the host reports. -/
theorem matches_eq_of_not_hostControlled {s : Selector} (hs : s.isHostControlled = false)
    (htags : SameManual tags tags') (hfacts : SameImported facts facts') :
    s.matches tags facts = s.matches tags' facts' :=
  (evalAll_eq htags hfacts s.clauses hs).1

/-- A host that claims to be a database is as little one as a host that does not. -/
theorem matches_eq_reported :
    let claimed : HostTags := fun _ => [{ value := "db", source := TagSource.agent }]
    let s : Selector := { clauses := [Expr.not (Expr.eq "role" "db" SourceFilter.manual)] }
    s.matches claimed (fun _ => none) = s.matches (fun _ => []) (fun _ => none) := by
  intro claimed s
  have htags : SameManual claimed (fun _ => []) := by
    intro key value
    simp [claimed]
  have hfacts : SameImported (fun _ => none) (fun _ => none) := fun _ _ => rfl
  have hs : s.isHostControlled = false := by decide
  exact matches_eq_of_not_hostControlled hs htags hfacts

end Selector

end Core
end FleetServer
