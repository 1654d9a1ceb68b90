import FleetServer.Transport.TrustStore

/-!
# Rebuilds of the trust store side by side

A rebuild stores what it read some time before.  A tenant that was trusted
stays trusted as long as no rebuild stores a list that is older than the one in
place.
-/

namespace FleetServer
namespace Transport

open FleetServer.Core
open Concurrency
open KeyedMap
open Storage (DbError)

variable (deps : Deps)

/-!
# How old a list is
-/

/-- Of how many CAs the snapshot in place was built, how many each request read,
and the tenant each request has seen trusted. -/
structure Rebuilding where
  placed : Nat
  readAt : Nat -> Nat
  saw : Nat -> Option Int

def Request.sees (request : Request) (st : MtlsState) : Option Int :=
  match request with
  | Request.ensureTenantTrusted tenantId =>
      if st.trustsTenant tenantId then some tenantId else none
  | Request.notifyChange => none

@[reducible] def rebuilds : Recorder (trustStore deps) Rebuilding where
  onCall := fun i request op w _ note =>
    match op with
    | Op.listAllCas =>
        { note with readAt := fun j => if j = i then w.cas.length else note.readAt j }
    | Op.store _ => { note with placed := note.readAt i }
    | Op.snapshot =>
        { note with saw := fun j => if j = i then request.sees w.state else note.saw j }

def notOutdated (p : Pool (trustStore deps)) (note : Rebuilding)
    (c : Concurrency.Choice (trustStore deps)) : Bool :=
  match p.caller? c with
  | some (i, _, Op.store _) => note.placed ≤ note.readAt i
  | _ => true

/-!
# The contract
-/

variable {deps}

/-- The snapshot in place was built from the CAs of some time, and trusts every
tenant that was seen trusted. -/
structure Current (deps : Deps) (x : World × Rebuilding) : Prop where
  distinct : DistinctSubjects deps x.1.cas
  within : x.2.placed ≤ x.1.cas.length
  placed : buildState deps (x.1.cas.take x.2.placed) = some x.1.state
  seen : forall i tenantId, x.2.saw i = some tenantId -> x.1.state.trustsTenant tenantId = true

/-- What is stored was built from the CAs the request read. -/
def Builds (deps : Deps) (i : Nat) (op : Op) (x : World × Rebuilding) : Prop :=
  match op with
  | Op.store st =>
      (x.2.placed ≤ x.2.readAt i ∧ x.2.readAt i ≤ x.1.cas.length) ∧
        buildState deps (x.1.cas.take (x.2.readAt i)) = some st
  | _ => True

theorem distinct_take {cas : List CaSummary} (h : DistinctSubjects deps cas) (n : Nat) :
    DistinctSubjects deps (cas.take n) :=
  h.sublist (List.take_sublist n cas)

theorem trusts_later {cas : List CaSummary} {m n : Nat} {st st' : MtlsState} {tenantId : Int}
    (hdistinct : DistinctSubjects deps cas) (hle : m ≤ n)
    (hbuild : buildState deps (cas.take m) = some st)
    (hbuild' : buildState deps (cas.take n) = some st')
    (htrusts : st.trustsTenant tenantId = true) : st'.trustsTenant tenantId = true := by
  rw [trustsTenant_buildState (distinct_take hdistinct m) hbuild] at htrusts
  rw [trustsTenant_buildState (distinct_take hdistinct n) hbuild']
  rcases htrusts with ⟨ca, hca, hid⟩
  have habove : cas.take m <+: cas.take n := List.take_prefix_take_left hle
  exact ⟨ca, habove.subset hca, hid⟩

theorem current_call {i : Nat} {request : Request} {op : Op} {x : World × Rebuilding} {a : op.Res}
    {v : World} (h : Current deps x) (houtcome : Outcome machine op x.1 a v)
    (hbuilds : Builds deps i op x) :
    Current deps (v, (rebuilds deps).onCall i request op x.1 v x.2) := by
  cases op with
  | listAllCas =>
      have hv : v = x.1 := by
        rcases outcome_cases houtcome with ⟨_, hv⟩ | ⟨_, hv⟩ <;> exact hv
      rw [hv]
      exact ⟨h.distinct, h.within, h.placed, h.seen⟩
  | snapshot =>
      have hv : v = x.1 := by
        rcases outcome_cases houtcome with ⟨_, hv⟩ | ⟨_, hv⟩ <;> exact hv
      rw [hv]
      refine ⟨h.distinct, h.within, h.placed, ?_⟩
      intro j tenantId hsaw
      have hsaw : (if j = i then request.sees x.1.state else x.2.saw j) = some tenantId := hsaw
      split at hsaw
      · cases request with
        | notifyChange => cases hsaw
        | ensureTenantTrusted wanted =>
            unfold Request.sees at hsaw
            simp only at hsaw
            split at hsaw
            · rename_i htrusts
              cases hsaw
              exact htrusts
            · cases hsaw
      · exact h.seen j tenantId hsaw
  | store st =>
      rcases outcome_cases houtcome with ⟨_, hv⟩ | ⟨hfault, _⟩
      · rw [hv]
        refine ⟨h.distinct, hbuilds.1.2, hbuilds.2, ?_⟩
        intro j tenantId hsaw
        exact trusts_later h.distinct hbuilds.1.1 h.placed hbuilds.2 (h.seen j tenantId hsaw)
      · cases hfault

theorem commit_cas (ca : CaSummary) (w : World) :
    exists more, ((trustStore deps).disturb ca w).cas = w.cas ++ more := by
  show exists more, (if ownSubject deps w.cas ca then { w with cas := w.cas ++ [ca] } else w).cas =
    w.cas ++ more
  split
  · exact ⟨[ca], rfl⟩
  · exact ⟨[], (List.append_nil w.cas).symm⟩

theorem distinct_commit {ca : CaSummary} {w : World} (h : DistinctSubjects deps w.cas) :
    DistinctSubjects deps ((trustStore deps).disturb ca w).cas := by
  show DistinctSubjects deps
    (if ownSubject deps w.cas ca then { w with cas := w.cas ++ [ca] } else w).cas
  split
  · rename_i hown
    apply List.pairwise_append.mpr
    refine ⟨h, List.pairwise_singleton _ _, ?_⟩
    intro other hother new hnew subject hsubject hsame
    rw [List.mem_singleton.mp hnew] at hsame
    have hother := List.all_eq_true.mp hown other hother
    rw [hsubject, hsame] at hother
    simp at hother
  · exact h

theorem current_commit {ca : CaSummary} {x : World × Rebuilding} (h : Current deps x) :
    Current deps ((trustStore deps).disturb ca x.1, x.2) := by
  have hstate : ((trustStore deps).disturb ca x.1).state = x.1.state := by
    show (if ownSubject deps x.1.cas ca then { x.1 with cas := x.1.cas ++ [ca] } else x.1).state = _
    split <;> rfl
  have hcas : exists more, ((trustStore deps).disturb ca x.1).cas = x.1.cas ++ more :=
    commit_cas ca x.1
  rcases hcas with ⟨more, hmore⟩
  refine ⟨distinct_commit h.distinct, ?_, ?_, ?_⟩
  · show x.2.placed ≤ ((trustStore deps).disturb ca x.1).cas.length
    rw [hmore, List.length_append]
    exact Nat.le_add_right_of_le h.within
  · show buildState deps (((trustStore deps).disturb ca x.1).cas.take x.2.placed) =
      some ((trustStore deps).disturb ca x.1).state
    rw [hmore, hstate, List.take_append_of_le_length h.within]
    exact h.placed
  · intro i tenantId hsaw
    show ((trustStore deps).disturb ca x.1).state.trustsTenant tenantId = true
    rw [hstate]
    exact h.seen i tenantId hsaw

def storeContract (deps : Deps) : Contract (rebuilds deps) where
  Inv := Current deps
  Rely := fun i x y => y.2.readAt i = x.2.readAt i ∧ exists more, y.1.cas = x.1.cas ++ more
  May := fun i _ op x _ => forall st, op = Op.store st -> x.2.placed ≤ x.2.readAt i
  Guar := fun i _ op x _ => Builds deps i op x
  refl := fun _ x => ⟨rfl, [], (List.append_nil x.1.cas).symm⟩
  trans := fun i x y z hxy hyz => by
    rcases hxy with ⟨hread, more, hmore⟩
    rcases hyz with ⟨hread', more', hmore'⟩
    refine ⟨hread'.trans hread, more ++ more', ?_⟩
    rw [hmore', hmore, List.append_assoc]
  inv_call := fun _ _ _ _ _ _ hinv houtcome hguar => current_call hinv houtcome hguar
  rely_call := fun i j request op x a v hij _ houtcome _ => by
    have hcas : v.cas = x.1.cas := by
      rcases outcome_cases houtcome with ⟨_, hv⟩ | ⟨_, hv⟩
      · rw [hv]
        cases op <;> rfl
      · rw [hv]
    constructor
    · cases op with
      | listAllCas => exact if_neg (fun h => hij h.symm)
      | store st => rfl
      | snapshot => rfl
    · exact ⟨[], hcas.trans (List.append_nil x.1.cas).symm⟩
  env := fun ca x hinv => ⟨current_commit hinv, fun _ => ⟨rfl, commit_cas ca x.1⟩⟩

/-!
# The programs
-/

variable {i : Nat} {request : Request} {x : World × Rebuilding}

theorem obeys_rebuild : (storeContract deps).Obeys i request (rebuild deps) x := by
  intro y hinv _ a v houtcome _
  refine ⟨trivial, ?_⟩
  cases a with
  | error e => trivial
  | ok cas =>
      rcases outcome_cases houtcome with ⟨ha, hv⟩ | ⟨hfault, _⟩
      · have hcas : cas = y.1.cas := Except.ok.inj ha
        have hworld : v = y.1 := hv
        simp only [Program.bind]
        split
        · trivial
        · rename_i st hbuild
          intro z hz hrely b u _ hmay
          refine ⟨?_, trivial⟩
          rcases hrely with ⟨hread, more, hmore⟩
          have hread : z.2.readAt i = y.1.cas.length := by
            rw [hread]
            exact if_pos rfl
          have hmore : z.1.cas = y.1.cas ++ more := by
            rw [hmore, hworld]
          refine ⟨⟨hmay st rfl, ?_⟩, ?_⟩
          · rw [hread, hmore, List.length_append]
            exact Nat.le_add_right _ _
          · rw [hread, hmore, List.take_left, ← hcas]
            exact hbuild
      · cases hfault

theorem obeys_look {alpha : Type} {next : MtlsState -> Prog alpha}
    (hnext : forall st y, (storeContract deps).Obeys i request (next st) y) :
    (storeContract deps).Obeys i request (Program.call Op.snapshot next) x :=
  fun _ _ _ a _ _ _ => ⟨trivial, hnext a _⟩

theorem obeys_ensureTenantTrusted (tenantId : Int) :
    (storeContract deps).Obeys i request (ensureTenantTrusted deps tenantId) x := by
  apply obeys_look
  intro st y
  simp only [Program.bind]
  split
  · trivial
  · apply Contract.obeys_bind obeys_rebuild
    intro rebuilt z
    cases rebuilt with
    | error e => trivial
    | ok rebuilt =>
        apply obeys_look
        intro st z
        simp only [Program.bind]
        split <;> trivial

theorem obeys_program (request' : Request) :
    (storeContract deps).Obeys i request (program deps request') x := by
  cases request' with
  | ensureTenantTrusted tenantId => exact obeys_ensureTenantTrusted tenantId
  | notifyChange => exact obeys_rebuild

def SeenStep (request : Request) : (op : Op) -> op.Res -> Option Int -> Option Int -> Prop
  | Op.snapshot, st, _, seen => seen = request.sees st
  | _, _, before, seen => seen = before

def SureSeen (request : Request) (answer : Except TrustError Unit) (seen : Option Int) : Prop :=
  match request, answer with
  | Request.ensureTenantTrusted tenantId, Except.ok () => seen = some tenantId
  | _, _ => True

/-- The answer after a look at the store. -/
theorem sureSeen_of_trusts {tenantId : Int} {st : MtlsState} {seen : Option Int}
    (htrusts : st.trustsTenant tenantId = true)
    (hseen : seen = (Request.ensureTenantTrusted tenantId).sees st) :
    SureSeen (Request.ensureTenantTrusted tenantId) (Except.ok ()) seen := by
  rw [hseen]
  exact if_pos htrusts

theorem uses_rebuild {P : Op -> Prop} (hlist : P Op.listAllCas)
    (hstore : forall st, P (Op.store st)) :
    Program.Uses P (rebuild deps) := by
  refine ⟨hlist, fun found => ?_⟩
  cases found with
  | error e => trivial
  | ok cas =>
      simp only [Program.bind]
      split
      · trivial
      · exact ⟨hstore _, fun _ => trivial⟩

theorem leads_ensureTenantTrusted (tenantId : Int) (seen : Option Int) :
    Program.Leads (SeenStep (Request.ensureTenantTrusted tenantId))
      (SureSeen (Request.ensureTenantTrusted tenantId)) (ensureTenantTrusted deps tenantId)
      seen := by
  intro st seen' hseen'
  simp only [Program.bind]
  split
  · rename_i htrusts
    exact sureSeen_of_trusts htrusts hseen'
  · apply Program.leads_bind
      (Program.leads_of_uses (uses_rebuild (fun _ _ _ h => h) (fun _ _ _ _ h => h)))
    intro rebuilt seen'' _
    cases rebuilt with
    | error e => trivial
    | ok rebuilt =>
        intro st last hlast
        simp only [Program.bind]
        split
        · rename_i htrusts
          exact sureSeen_of_trusts htrusts hlast
        · trivial

theorem leads_program (request : Request) :
    Program.Leads (SeenStep request) (SureSeen request) (program deps request) none := by
  cases request with
  | ensureTenantTrusted tenantId => exact leads_ensureTenantTrusted tenantId none
  | notifyChange => exact Program.leads_of_forall (fun _ _ => trivial) _ _

/-!
# Every run
-/

section Runs

variable {w : World} {p q : Pool (trustStore deps)} {note note' : Rebuilding}

/-- The store as it was loaded: no rebuild has read or stored anything. -/
def loaded (w : World) : Rebuilding :=
  { placed := w.cas.length, readAt := fun _ => 0, saw := fun _ => none }

theorem seen_of_answer {tenantId : Int}
    (hrun : Recorded (rebuilds deps) (fun p note c _ => notOutdated deps p note c = true)
      (Pool.init w) (loaded w) p note)
    (hget : p.threads[i]? =
      some ⟨Request.ensureTenantTrusted tenantId, Program.done (Except.ok ())⟩) :
    note.saw i = some tenantId := by
  have hown : forall (p : Pool (trustStore deps)) (note : Rebuilding) (q : Pool (trustStore deps))
      (i : Nat) (request : Request) (op : Op),
      SeenStep request op (exec op p.world).1 (note.saw i)
        (((rebuilds deps).onCall i request op p.world q.world note).saw i) := by
    intro p note q i request op
    cases op with
    | snapshot => exact if_pos rfl
    | _ => rfl
  have hfault : forall (p : Pool (trustStore deps)) (note : Rebuilding)
      (q : Pool (trustStore deps)) (i : Nat) (request : Request) (op : Op) (a : op.Res),
      fault op = some a -> SeenStep request op a (note.saw i)
        (((rebuilds deps).onCall i request op p.world q.world note).saw i) := by
    intro p note q i request op a hfails
    cases op with
    | snapshot => cases hfails
    | _ => rfl
  have hother : forall (i j : Nat) (request : Request) (op : Op) (w v : World)
      (note : Rebuilding), j ≠ i ->
      ((rebuilds deps).onCall i request op w v note).saw j = note.saw j := by
    intro i j request op w v note hij
    cases op with
    | snapshot => exact if_neg hij
    | _ => rfl
  have hleads := Recorded.leads (fun _ _ request _ _ => leads_program request)
    (fun p note q i request op _ _ _ => hown p note q i request op)
    (fun p note q i request op a _ _ hfails _ => hfault p note q i request op a hfails)
    hother (fun _ => rfl) hrun
  exact hleads.1 i _ hget

/-- As long as no rebuild stores a list older than the one in place, a tenant
that was made sure of is trusted from then on. -/
theorem trusted_from_then_on {tenantId : Int} (hdistinct : DistinctSubjects deps w.cas)
    (hload : buildState deps w.cas = some w.state)
    (hrun : Recorded (rebuilds deps) (fun p note c _ => notOutdated deps p note c = true)
      (Pool.init w) (loaded w) p note)
    (hsure : p.threads[i]? =
      some ⟨Request.ensureTenantTrusted tenantId, Program.done (Except.ok ())⟩)
    (hlater : Recorded (rebuilds deps) (fun p note c _ => notOutdated deps p note c = true)
      p note q note') : q.world.state.trustsTenant tenantId = true := by
  have hstart : (storeContract deps).Inv (w, loaded w) := by
    refine ⟨hdistinct, le_refl _, ?_, ?_⟩
    · show buildState deps (w.cas.take w.cas.length) = some w.state
      rw [List.take_length]
      exact hload
    · intro j t hsaw
      cases hsaw
  have hwhole := hrun.trans hlater
  have hholds : (storeContract deps).Holds q note' := by
    apply hwhole.holds (storeContract deps) _ _ (Contract.holds_init hstart)
    · exact fun p note r q _ => obeys_program r
    · intro p note c q j r op hallowed hcaller st hop
      unfold notOutdated at hallowed
      rw [hcaller, hop] at hallowed
      exact of_decide_eq_true hallowed
  have hsaw := seen_of_answer hwhole (hlater.done_stays hsure)
  exact hholds.inv.seen i tenantId hsaw

end Runs

/-!
# Two rebuilds

A tenant is created and made sure of.  A rebuild that read its list before puts
it in place afterwards, and the tenant is forgotten.
-/

def sureOf (t : Thread (trustStore deps)) : Option Int :=
  match t.request, t.rest with
  | Request.ensureTenantTrusted tenantId, Program.done (Except.ok ()) => some tenantId
  | _, _ => none

theorem sure_iff {t : Thread (trustStore deps)} {tenantId : Int}
    (h : sureOf t = some tenantId) :
    t = ⟨Request.ensureTenantTrusted tenantId, Program.done (Except.ok ())⟩ := by
  unfold sureOf at h
  split at h
  · rename_i wanted hrequest hrest
    cases h
    cases t
    simp only at hrequest hrest
    rw [hrequest, hrest]
  · cases h

def sampleCa (tenantId : Int) (slug : String) : CaSummary :=
  { tenantId := tenantId, tenantSlug := slug, caCertPem := slug, caSubjectDn := slug }

def oneTenant : World :=
  { cas := [sampleCa 1 "acme"]
    state := (buildState plainDeps [sampleCa 1 "acme"]).getD MtlsState.empty }

theorem loads_oneTenant : buildState plainDeps oneTenant.cas = some oneTenant.state := rfl

theorem distinct_oneTenant : DistinctSubjects plainDeps oneTenant.cas :=
  List.pairwise_singleton _ _

def madeSure (i : Nat) : List (Concurrency.Choice (trustStore plainDeps)) :=
  [Concurrency.Choice.env (sampleCa 2 "fleet"),
    Concurrency.Choice.spawn (Request.ensureTenantTrusted 2)] ++
    List.replicate 4 (Concurrency.Choice.exec i)

theorem trusted_from_then_on_created :
    exists q : Pool (trustStore plainDeps), q.world.state.trustsTenant 2 = true := by
  let x := Recorded.after (rebuilds plainDeps) (fun p note c _ => notOutdated plainDeps p note c)
    (Pool.init oneTenant) (loaded oneTenant) (madeSure 0) (by decide +kernel)
  have hrun := Recorded.of_after (rebuilds plainDeps)
    (fun p note c _ => notOutdated plainDeps p note c) (Pool.init oneTenant) (loaded oneTenant)
    (madeSure 0) (by decide +kernel)
  have hrun : Recorded (rebuilds plainDeps)
      (fun p note c _ => notOutdated plainDeps p note c = true) (Pool.init oneTenant)
      (loaded oneTenant) x.1 x.2 := hrun
  have hsure : (x.1.threads[0]?.bind sureOf) = some 2 := by decide +kernel
  clear_value x
  rcases Option.bind_eq_some_iff.mp hsure with ⟨t, hget, hsure⟩
  rw [sure_iff hsure] at hget
  exact ⟨x.1, trusted_from_then_on distinct_oneTenant loads_oneTenant hrun hget Recorded.refl⟩

/-- A rebuild reads, the tenant is made sure of, and the rebuild stores. -/
def olderList : List (Concurrency.Choice (trustStore plainDeps)) :=
  [Concurrency.Choice.spawn Request.notifyChange, Concurrency.Choice.exec 0] ++ madeSure 1

theorem trusted_then_forgotten :
    exists p q : Pool (trustStore plainDeps),
      Pool.Run (fun _ _ => True) (Pool.init oneTenant) p ∧
      p.threads[1]? =
        some ⟨Request.ensureTenantTrusted 2, Program.done (Except.ok ())⟩ ∧
      Pool.Run (fun _ _ => True) p q ∧ q.world.state.trustsTenant 2 = false := by
  let p := Pool.after (Pool.init oneTenant : Pool (trustStore plainDeps)) olderList
    (by decide +kernel)
  have hrun := Pool.run_after (Pool.init oneTenant : Pool (trustStore plainDeps)) olderList
    (by decide +kernel)
  let q := (p.step (Concurrency.Choice.exec 0)).get (by decide +kernel)
  have hstep : p.step (Concurrency.Choice.exec 0) = some q := (Option.some_get _).symm
  have hrun : Pool.Run (fun _ _ => True) (Pool.init oneTenant) p := hrun
  have hsure : (p.threads[1]?.bind sureOf) = some 2 := by decide +kernel
  have hforgotten : q.world.state.trustsTenant 2 = false := by decide +kernel
  clear_value q p
  rcases Option.bind_eq_some_iff.mp hsure with ⟨t, hget, hsure⟩
  rw [sure_iff hsure] at hget
  exact ⟨p, q, hrun, hget, Pool.Run.tail Pool.Run.refl trivial hstep, hforgotten⟩

end Transport
end FleetServer
