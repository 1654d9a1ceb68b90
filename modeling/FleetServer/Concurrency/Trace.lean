import FleetServer.Concurrency.Alone
import FleetServer.Concurrency.Guarantee

/-!
# What one request has seen

A run annotated with the calls that one of its requests completed.  What a
program is about to do follows from what its calls answered; the rest of this
module carries such conclusions along a run.
-/

namespace FleetServer
namespace Concurrency

variable {Op : Type} {Res : Op -> Type} {alpha beta : Type}

namespace Program

/-!
# Calls that depend on earlier answers
-/

/-- As long as the calls answer what `Known` allows, every call is one in `P`. -/
def UsesGiven (Known : (op : Op) -> Res op -> Prop) (P : Op -> Prop) :
    Program Res alpha -> Prop
  | done _ => True
  | call op next => P op ∧ forall r, Known op r -> UsesGiven Known P (next r)

variable {Known : (op : Op) -> Res op -> Prop} {P : Op -> Prop}

theorem usesGiven_of_uses {p : Program Res alpha} (h : Uses P p) : UsesGiven Known P p := by
  induction p with
  | done a => trivial
  | call op next ih => exact ⟨h.1, fun r _ => ih r (h.2 r)⟩

theorem usesGiven_bind {Q : alpha -> Prop} {p : Program Res alpha}
    {f : alpha -> Program Res beta} (hp : UsesGiven Known P p) (hends : EndsGiven Known Q p)
    (hf : forall a, Q a -> UsesGiven Known P (f a)) : UsesGiven Known P (p >>= f) := by
  induction p with
  | done a => exact hf a hends
  | call op next ih => exact ⟨hp.1, fun r hr => ih r (hp.2 r hr) (hends r hr)⟩

/-- Once it made a call in `A`, the program makes none in `B` any more. -/
def NoneAfter (A B : Op -> Prop) : Program Res alpha -> Prop
  | done _ => True
  | call op next => (A op -> forall r, Uses (fun op => ¬ B op) (next r)) ∧
      forall r, NoneAfter A B (next r)

variable {A B : Op -> Prop}

theorem noneAfter_of_uses {p : Program Res alpha} (h : Uses (fun op => ¬ A op) p) :
    NoneAfter A B p := by
  induction p with
  | done a => trivial
  | call op next ih => exact ⟨fun hop => absurd hop h.1, fun r => ih r (h.2 r)⟩

theorem noneAfter_of_none {p : Program Res alpha} (h : Uses (fun op => ¬ B op) p) :
    NoneAfter A B p := by
  induction p with
  | done a => trivial
  | call op next ih => exact ⟨fun _ => h.2, fun r => ih r (h.2 r)⟩

theorem noneAfter_bind {p : Program Res alpha} {f : alpha -> Program Res beta}
    (hp : Uses (fun op => ¬ A op) p) (hf : forall a, NoneAfter A B (f a)) :
    NoneAfter A B (p >>= f) := by
  induction p with
  | done a => exact hf a
  | call op next ih => exact ⟨fun hop => absurd hop hp.1, fun r => ih r (hp.2 r)⟩

/-- From every call in `A` on, the calls are in `P` as long as they answer what
`Known` allows. -/
def GivenFrom (A : Op -> Prop) (Known : (op : Op) -> Res op -> Prop) (P : Op -> Prop) :
    Program Res alpha -> Prop
  | done _ => True
  | call op next =>
      (A op -> UsesGiven Known P (call op next)) ∧ forall r, GivenFrom A Known P (next r)

theorem givenFrom_of_uses {p : Program Res alpha} (h : Uses P p) : GivenFrom A Known P p := by
  induction p with
  | done a => trivial
  | call op next ih => exact ⟨fun _ => usesGiven_of_uses h, fun r => ih r (h.2 r)⟩

theorem givenFrom_of_none {p : Program Res alpha} (h : Uses (fun op => ¬ A op) p) :
    GivenFrom A Known P p := by
  induction p with
  | done a => trivial
  | call op next ih => exact ⟨fun hop => absurd hop h.1, fun r => ih r (h.2 r)⟩

theorem givenFrom_bind {p : Program Res alpha} {f : alpha -> Program Res beta}
    (hp : Uses (fun op => ¬ A op) p) (hf : forall a, GivenFrom A Known P (f a)) :
    GivenFrom A Known P (p >>= f) := by
  induction p with
  | done a => exact hf a
  | call op next ih => exact ⟨fun hop => absurd hop hp.1, fun r => ih r (hp.2 r)⟩

/-- What follows calls nothing in `A`. -/
theorem givenFrom_then {p : Program Res alpha} {g : alpha -> beta}
    (hp : GivenFrom A Known P p) : GivenFrom A Known P (p >>= fun a => done (g a)) := by
  induction p with
  | done a => trivial
  | call op next ih =>
      constructor
      · intro hop
        exact usesGiven_bind (Q := fun _ => True) (hp.1 hop) (endsGiven_true _)
          (fun _ _ => trivial)
      · exact fun r => ih r (hp.2 r)

end Program

/-!
# Runs of requests that rely on what they read

What is known of an answer follows from what holds of the world it was given
in, and keeps requests to calls that keep it.  The requests in `Free` are left to
what is allowed of their steps.
-/

section Reliant

variable {S : Service Res} {Allowed : Pool S -> Choice S -> Prop} {Free : Nat -> Prop}
  {Inv : S.World -> Prop} {Known : (op : Op) -> Res op -> Prop} {P : Op -> Prop}

/-- The world is as it should be, and every request but the free ones keeps to
its calls. -/
structure Pool.Reliant (Free : Nat -> Prop) (Inv : S.World -> Prop)
    (Known : (op : Op) -> Res op -> Prop) (P : Op -> Prop) (p : Pool S) : Prop where
  world : Inv p.world
  threads : forall (i : Nat) (t : Thread S), p.threads[i]? = some t -> ¬ Free i ->
    Program.UsesGiven Known P t.rest

theorem Pool.reliant_init {w : S.World} (hw : Inv w) :
    Pool.Reliant Free Inv Known P (Pool.init w : Pool S) := by
  constructor
  · exact hw
  · intro i t hget
    cases hget

theorem Pool.Run.reliant {p q : Pool S}
    (hspawn : forall p r, Allowed p (Choice.spawn r) ->
      Program.UsesGiven Known P (S.program p.threads.length r))
    (hknown : forall op w, Inv w -> Known op (S.machine.exec op w).1)
    (hfault : forall op r, S.machine.fault op = some r -> Known op r)
    (hexec : forall p i op, Allowed p (Choice.exec i) -> p.call? (Choice.exec i) = some op ->
      (¬ Free i -> P op) -> Inv p.world -> Inv (S.machine.exec op p.world).2)
    (henv : forall e w, Inv w -> Inv (S.disturb e w))
    (hrun : Pool.Run Allowed p q) (hp : Pool.Reliant Free Inv Known P p) :
    Pool.Reliant Free Inv Known P q := by
  refine hrun.invariant (Pool.Reliant Free Inv Known P) ?_ hp
  intro p c q hp hallowed hstep
  -- What is left of the request that moved, or another one.
  have hset : forall (i : Nat) (u : Thread S), (¬ Free i -> Program.UsesGiven Known P u.rest) ->
      forall (j : Nat) (t : Thread S), (p.threads.set i u)[j]? = some t -> ¬ Free j ->
        Program.UsesGiven Known P t.rest := by
    intro i u hu j t hget hfree
    rcases Discipline.getElem?_resumed hget with ⟨hij, ht⟩ | ⟨_, hold⟩
    · rw [ht]
      rw [hij] at hfree
      exact hu hfree
    · exact hp.threads j t hold hfree
  cases c with
  | spawn r =>
      cases hstep
      constructor
      · exact hp.world
      · intro i t hget hfree
        rcases Discipline.getElem?_spawned hget with hold | ⟨_, hnew⟩
        · exact hp.threads i t hold hfree
        · rw [hnew]
          exact hspawn p r hallowed
  | exec i =>
      rcases Pool.step_exec hstep with ⟨request, op, next, hget, hworld, hthreads⟩
      constructor
      · rw [hworld]
        exact hexec p i op hallowed (Pool.call?_exec hget)
          (fun hfree => (hp.threads i _ hget hfree).1) hp.world
      · rw [hthreads]
        apply hset
        exact fun hfree => (hp.threads i _ hget hfree).2 _ (hknown op p.world hp.world)
  | fault i =>
      rcases Pool.step_fault hstep with ⟨request, op, next, r, hget, hr, hworld, hthreads⟩
      constructor
      · rw [hworld]
        exact hp.world
      · rw [hthreads]
        apply hset
        exact fun hfree => (hp.threads i _ hget hfree).2 r (hfault op r hr)
  | env e =>
      cases hstep
      exact ⟨henv e p.world hp.world, hp.threads⟩

end Reliant

/-!
# Annotated runs
-/

variable {S : Service Res} {Allowed : Pool S -> Choice S -> Prop}

namespace Pool

/-- The calls that request `i` completed on the way from `p`, oldest first. -/
inductive Traced (Allowed : Pool S -> Choice S -> Prop) (i : Nat) (p : Pool S) :
    List (Event S.machine) -> Pool S -> Prop where
  | refl : Traced Allowed i p [] p
  | own {events : List (Event S.machine)} {q r : Pool S} {op : Op} :
      Traced Allowed i p events q -> Allowed q (Choice.exec i) ->
        q.call? (Choice.exec i) = some op -> q.step (Choice.exec i) = some r ->
          Traced Allowed i p (events ++ [⟨op, q.world⟩]) r
  | other {events : List (Event S.machine)} {q r : Pool S} {c : Choice S} :
      Traced Allowed i p events q -> Allowed q c -> c ≠ Choice.exec i -> q.step c = some r ->
        Traced Allowed i p events r

variable {i : Nat} {p q : Pool S} {events : List (Event S.machine)}

theorem run_of_traced (h : Traced Allowed i p events q) : Run Allowed p q := by
  induction h with
  | refl => exact Run.refl
  | own _ hallowed _ hstep ih => exact Run.tail ih hallowed hstep
  | other _ hallowed _ hstep ih => exact Run.tail ih hallowed hstep

theorem Traced.trans {events' : List (Event S.machine)} {r : Pool S}
    (h : Traced Allowed i p events q) (h' : Traced Allowed i q events' r) :
    Traced Allowed i p (events ++ events') r := by
  induction h' with
  | refl =>
      rw [List.append_nil]
      exact h
  | own _ hallowed hcall hstep ih =>
      rw [← List.append_assoc]
      exact ih.own hallowed hcall hstep
  | other _ hallowed hother hstep ih => exact ih.other hallowed hother hstep

theorem exists_pool_of_mem (h : Traced Allowed i p events q) {e : Event S.machine}
    (he : e ∈ events) : exists r, Run Allowed p r ∧ r.world = e.before ∧
      r.call? (Choice.exec i) = some e.op := by
  induction h with
  | refl => exact absurd he List.not_mem_nil
  | @own events q r op htraced _ hcall _ ih =>
      rcases List.mem_append.mp he with he | he
      · exact ih he
      · rw [List.mem_singleton] at he
        subst he
        exact ⟨q, run_of_traced htraced, rfl, hcall⟩
  | other _ _ _ _ ih => exact ih he

theorem getElem?_step {c : Choice S} {t : Thread S} (hstep : p.step c = some q)
    (hexec : c ≠ Choice.exec i) (hfault : c ≠ Choice.fault i)
    (hget : p.threads[i]? = some t) : q.threads[i]? = some t := by
  cases c with
  | spawn request =>
      cases hstep
      have hlt := (List.getElem?_eq_some_iff.mp hget).1
      change (p.threads ++ _)[i]? = some t
      rw [List.getElem?_append_left hlt, hget]
  | exec j =>
      rcases step_exec hstep with ⟨_, _, _, _, _, hthreads⟩
      rw [hthreads, List.getElem?_set_ne (fun hij => hexec (congrArg Choice.exec hij)), hget]
  | fault j =>
      rcases step_fault hstep with ⟨_, _, _, _, _, _, _, hthreads⟩
      rw [hthreads, List.getElem?_set_ne (fun hij => hfault (congrArg Choice.fault hij)), hget]
  | env e =>
      cases hstep
      exact hget

theorem getElem?_set_of_some {ts : List (Thread S)} {t u : Thread S} (hget : ts[i]? = some t) :
    (ts.set i u)[i]? = some u := by
  rw [List.getElem?_set_self (List.getElem?_eq_some_iff.mp hget).1]

/-- What a request was bound to call, it is still bound to call after the calls
it completed. -/
theorem usesGiven_of_traced {Known : (op : Op) -> Res op -> Prop} {P : Op -> Prop}
    {request : S.Request} {prog : Program Res S.Response}
    (h : Traced Allowed i p events q) (hget : p.threads[i]? = some ⟨request, prog⟩)
    (hprog : Program.UsesGiven Known P prog)
    (hevents : forall e, e ∈ events -> Known e.op e.result)
    (hfaults : forall op r, S.machine.fault op = some r -> Known op r) :
    exists rest, q.threads[i]? = some ⟨request, rest⟩ ∧
      Program.UsesGiven Known P rest := by
  induction h with
  | refl => exact ⟨prog, hget, hprog⟩
  | @own events q r op _ _ hcall hstep ih =>
      rcases ih (fun e he => hevents e (List.mem_append_left _ he)) with ⟨rest, hrest, huses⟩
      rcases step_exec hstep with ⟨request', op', next, hget', _, hthreads⟩
      rw [call?_exec hget'] at hcall
      cases hcall
      rw [hrest] at hget'
      cases hget'
      refine ⟨_, ?_, huses.2 _ (hevents _ (List.mem_append_right _ List.mem_cons_self))⟩
      rw [hthreads, getElem?_set_of_some hrest]
      rfl
  | @other events q r c _ _ hother hstep ih =>
      rcases ih hevents with ⟨rest, hrest, huses⟩
      by_cases hfault : c = Choice.fault i
      · subst hfault
        rcases step_fault hstep with ⟨request', op, next, res, hget', hres, _, hthreads⟩
        rw [hrest] at hget'
        cases hget'
        refine ⟨_, ?_, huses.2 res (hfaults op res hres)⟩
        rw [hthreads, getElem?_set_of_some hrest]
      · exact ⟨rest, getElem?_step hstep hother hfault hrest, huses⟩

/-- The call answered `r` at one of the events, or failed with it. -/
def Answered {M : Machine Res} (events : List (Event M)) (op : Op) (r : Res op) : Prop :=
  (exists w, ⟨op, w⟩ ∈ events ∧ (M.exec op w).1 = r) ∨ M.fault op = some r

theorem call_of_traced {P : Op -> Prop} {request : S.Request}
    {prog : Program Res S.Response} {op : Op} (h : Traced Allowed i p events q)
    (hget : p.threads[i]? = some ⟨request, prog⟩)
    (hprog : Program.UsesGiven (Answered events) P prog)
    (hcall : q.call? (Choice.exec i) = some op) : P op := by
  obtain ⟨rest, hrest, huses⟩ := usesGiven_of_traced h hget hprog
    (fun e he => Or.inl ⟨e.before, he, rfl⟩) (fun _ _ hfault => Or.inr hfault)
  rcases exists_of_call? hcall with ⟨j, request', next, hchoice, hget'⟩
  cases hchoice
  rw [hrest] at hget'
  cases hget'
  exact huses.1

/-!
# Replaying a schedule
-/

/-- The call that request `i` completes when `c` is scheduled. -/
def eventsOf (i : Nat) (p : Pool S) (c : Choice S) : List (Event S.machine) :=
  match c, p.call? c with
  | Choice.exec j, some op => if j = i then [⟨op, p.world⟩] else []
  | _, _ => []

theorem traced_step {c : Choice S} (hallowed : Allowed p c) (hstep : p.step c = some q) :
    Traced Allowed i p (p.eventsOf i c) q := by
  by_cases hown : c = Choice.exec i
  · subst hown
    rcases step_exec hstep with ⟨request, op, next, hget, _, _⟩
    have hcall := call?_exec hget
    unfold eventsOf
    rw [hcall]
    simp only [if_true]
    exact Traced.refl.own hallowed hcall hstep
  · have hnone : p.eventsOf i c = [] := by
      unfold eventsOf
      split
      · rw [if_neg (fun hij => hown (congrArg Choice.exec hij))]
      · rfl
    rw [hnone]
    exact Traced.refl.other hallowed hown hstep

/-- Replay a schedule whose steps all pass `ok`, and keep the calls of request
`i`. -/
def follow (ok : Pool S -> Choice S -> Bool) (i : Nat) (p : Pool S) :
    List (Choice S) -> Option (List (Event S.machine) × Pool S)
  | [] => some ([], p)
  | c :: cs =>
      if ok p c then
        match p.step c with
        | none => none
        | some q => (q.follow ok i cs).map fun x => (p.eventsOf i c ++ x.1, x.2)
      else none

theorem traced_of_follow {ok : Pool S -> Choice S -> Bool} {cs : List (Choice S)}
    {x : List (Event S.machine) × Pool S} (h : p.follow ok i cs = some x) :
    Traced (fun p c => ok p c = true) i p x.1 x.2 := by
  induction cs generalizing p x with
  | nil =>
      cases h
      exact Traced.refl
  | cons c cs ih =>
      simp only [follow] at h
      split at h
      · rename_i hok
        split at h
        · cases h
        · rename_i r hr
          rcases Option.map_eq_some_iff.mp h with ⟨⟨events', q'⟩, hfollow, heq⟩
          cases heq
          exact (traced_step hok hr).trans (ih hfollow)
      · cases h

end Pool

end Concurrency
end FleetServer
