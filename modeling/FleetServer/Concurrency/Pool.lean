import FleetServer.Concurrency.Program
import Mathlib.Data.List.Basic

/-!
# Interleaved requests

A service runs any number of requests over one machine.  The pool holds the
shared world and, for every request ever started, what is left of its program.
A step starts a request, lets one request make its next call (which succeeds
or fails), or lets the surroundings act on the world.

A request that stops halfway is one that is never scheduled again, so it needs
no step of its own.  The n-th request started is given the number `n`, so that
what it generates for itself can be told from what others generate.
-/

namespace FleetServer
namespace Concurrency

structure Service {Op : Type} (Res : Op -> Type) where
  machine : Machine Res
  Request : Type
  Response : Type
  program : Nat -> Request -> Program Res Response
  Env : Type
  disturb : Env -> machine.World -> machine.World

variable {Op : Type} {Res : Op -> Type}

abbrev Service.World (S : Service Res) : Type := S.machine.World

/-- A started request and what is left of its program. -/
structure Thread (S : Service Res) where
  request : S.Request
  rest : Program Res S.Response

structure Pool (S : Service Res) where
  world : S.World
  threads : List (Thread S)

inductive Choice (S : Service Res) where
  | spawn (request : S.Request)
  | exec (i : Nat)
  | fault (i : Nat)
  | env (e : S.Env)

namespace Pool

variable {S : Service Res}

/-- Start a request under the next number. -/
def spawned (p : Pool S) (request : S.Request) : Thread S :=
  { request := request, rest := S.program p.threads.length request }

/-- A pool in which no request was started yet. -/
def init (w : S.World) : Pool S :=
  { world := w, threads := [] }

@[simp] theorem init_world (w : S.World) : (init w : Pool S).world = w := rfl

@[simp] theorem init_threads (w : S.World) : (init w : Pool S).threads = [] := rfl

/-- Replace what is left of the request at `i`. -/
def resume (p : Pool S) (i : Nat) (t : Thread S) (w : S.World)
    (rest : Program Res S.Response) : Pool S :=
  { world := w, threads := p.threads.set i { t with rest := rest } }

@[simp] theorem resume_world (p : Pool S) (i : Nat) (t : Thread S) (w : S.World)
    (rest : Program Res S.Response) : (p.resume i t w rest).world = w := rfl

def step (p : Pool S) : Choice S -> Option (Pool S)
  | Choice.spawn request =>
      some { p with threads := p.threads ++ [p.spawned request] }
  | Choice.exec i =>
      match p.threads[i]? with
      | some ⟨request, Program.call op next⟩ =>
          some (p.resume i ⟨request, Program.call op next⟩
            (S.machine.exec op p.world).2 (next (S.machine.exec op p.world).1))
      | _ => none
  | Choice.fault i =>
      match p.threads[i]? with
      | some ⟨request, Program.call op next⟩ =>
          (S.machine.fault op).map (fun r =>
            p.resume i ⟨request, Program.call op next⟩ p.world (next r))
      | _ => none
  | Choice.env e => some { p with world := S.disturb e p.world }

/-!
# What one step can do
-/

theorem step_exec {p q : Pool S} {i : Nat}
    (hstep : p.step (Choice.exec i) = some q) :
    exists request op next,
      p.threads[i]? = some ⟨request, Program.call op next⟩ ∧
      q.world = (S.machine.exec op p.world).2 ∧
      q.threads = p.threads.set i ⟨request, next (S.machine.exec op p.world).1⟩ := by
  simp only [step] at hstep
  split at hstep
  · rename_i request op next hget
    cases hstep
    exact ⟨request, op, next, hget, rfl, rfl⟩
  · cases hstep

theorem step_fault {p q : Pool S} {i : Nat}
    (hstep : p.step (Choice.fault i) = some q) :
    exists request op next r,
      p.threads[i]? = some ⟨request, Program.call op next⟩ ∧
      S.machine.fault op = some r ∧
      q.world = p.world ∧
      q.threads = p.threads.set i ⟨request, next r⟩ := by
  simp only [step] at hstep
  split at hstep
  · rename_i request op next hget
    rcases Option.map_eq_some_iff.mp hstep with ⟨r, hr, hq⟩
    subst hq
    exact ⟨request, op, next, r, hget, hr, rfl, rfl⟩
  · cases hstep

def call? (p : Pool S) : Choice S -> Option Op
  | Choice.exec i =>
      match p.threads[i]? with
      | some ⟨_, Program.call op _⟩ => some op
      | _ => none
  | _ => none

theorem call?_exec {p : Pool S} {i : Nat} {request : S.Request} {op : Op}
    {next : Res op -> Program Res S.Response}
    (hget : p.threads[i]? = some ⟨request, Program.call op next⟩) :
    p.call? (Choice.exec i) = some op := by
  simp only [call?, hget]

theorem exists_of_call? {p : Pool S} {c : Choice S} {op : Op} (hcall : p.call? c = some op) :
    exists i request next, c = Choice.exec i ∧
      p.threads[i]? = some ⟨request, Program.call op next⟩ := by
  cases c with
  | exec i =>
      simp only [call?] at hcall
      split at hcall
      · rename_i request op' next hget
        cases hcall
        exact ⟨i, request, next, rfl, hget⟩
      · cases hcall
  | spawn request => cases hcall
  | fault i => cases hcall
  | env e => cases hcall

theorem step_call {p q : Pool S} {c : Choice S} {op : Op} (hcall : p.call? c = some op)
    (hstep : p.step c = some q) : q.world = (S.machine.exec op p.world).2 := by
  cases c with
  | exec i =>
      rcases step_exec hstep with ⟨request, op', next, hget, hworld, _⟩
      rw [call?_exec hget] at hcall
      cases hcall
      exact hworld
  | spawn request => cases hcall
  | fault i => cases hcall
  | env e => cases hcall

theorem step_world {p q : Pool S} {c : Choice S} (hstep : p.step c = some q) :
    q.world = p.world ∨
      (exists op, p.call? c = some op ∧ q.world = (S.machine.exec op p.world).2) ∨
      exists e, c = Choice.env e ∧ q.world = S.disturb e p.world := by
  cases c with
  | spawn request =>
      cases hstep
      exact Or.inl rfl
  | exec i =>
      rcases step_exec hstep with ⟨request, op, next, hget, hworld, _⟩
      exact Or.inr (Or.inl ⟨op, call?_exec hget, hworld⟩)
  | fault i =>
      rcases step_fault hstep with ⟨_, _, _, _, _, _, hworld, _⟩
      exact Or.inl hworld
  | env e =>
      cases hstep
      exact Or.inr (Or.inr ⟨e, rfl, rfl⟩)

/-!
# Runs

`Run Allowed p q` says that steps which all meet `Allowed` lead from `p` to
`q`.
-/

inductive Run (Allowed : Pool S -> Choice S -> Prop) (p : Pool S) :
    Pool S -> Prop where
  | refl : Run Allowed p p
  | tail {q r : Pool S} {c : Choice S} :
      Run Allowed p q -> Allowed q c -> q.step c = some r -> Run Allowed p r

variable {Allowed Allowed' : Pool S -> Choice S -> Prop} {p q r : Pool S}

theorem Run.trans (hpq : Run Allowed p q) (hqr : Run Allowed q r) :
    Run Allowed p r := by
  induction hqr with
  | refl => exact hpq
  | tail _ hallowed hstep ih => exact Run.tail ih hallowed hstep

theorem Run.mono (h : forall p c, Allowed p c -> Allowed' p c)
    (hrun : Run Allowed p q) : Run Allowed' p q := by
  induction hrun with
  | refl => exact Run.refl
  | tail _ hallowed hstep ih => exact Run.tail ih (h _ _ hallowed) hstep

/-- What every allowed step preserves holds at the end of a run. -/
theorem Run.invariant (Inv : Pool S -> Prop)
    (hstep : forall p c q, Inv p -> Allowed p c -> p.step c = some q -> Inv q)
    (hrun : Run Allowed p q) (hp : Inv p) : Inv q := by
  induction hrun with
  | refl => exact hp
  | tail _ hallowed hs ih => exact hstep _ _ _ ih hallowed hs

/-- What every allowed call and the surroundings preserve of the world. -/
theorem Run.world_invariant (Inv : S.World -> Prop)
    (hexec : forall p c op, Allowed p c -> p.call? c = some op -> Inv p.world ->
      Inv (S.machine.exec op p.world).2)
    (henv : forall e w, Inv w -> Inv (S.disturb e w))
    (hrun : Run Allowed p q) (hp : Inv p.world) : Inv q.world := by
  refine hrun.invariant (fun p => Inv p.world) ?_ hp
  intro p c q hinv hallowed hstep
  rcases step_world hstep with hworld | ⟨op, hcall, hworld⟩ | ⟨e, _, hworld⟩
  · rw [hworld]
    exact hinv
  · rw [hworld]
    exact hexec p c op hallowed hcall hinv
  · rw [hworld]
    exact henv e p.world hinv

theorem Run.uses {P : Op -> Prop} {w : S.World}
    (hspawn : forall p r, Allowed p (Choice.spawn r) ->
      Program.Uses P (S.program p.threads.length r))
    (hrun : Run Allowed (Pool.init w) p) :
    forall t, t ∈ p.threads -> Program.Uses P t.rest := by
  refine hrun.invariant (fun p => forall t, t ∈ p.threads -> Program.Uses P t.rest)
    ?_ (fun t ht => absurd ht List.not_mem_nil)
  intro p c q hp hallowed hstep t ht
  cases c with
  | spawn r =>
      cases hstep
      rcases List.mem_append.mp ht with ht | ht
      · exact hp t ht
      · rw [List.mem_singleton.mp ht]
        exact hspawn p r hallowed
  | exec i =>
      rcases step_exec hstep with ⟨request, op, next, hget, _, hthreads⟩
      rw [hthreads] at ht
      rcases List.mem_or_eq_of_mem_set ht with ht | rfl
      · exact hp t ht
      · exact (hp _ (List.mem_of_getElem? hget)).2 _
  | fault i =>
      rcases step_fault hstep with ⟨request, op, next, r, hget, _, _, hthreads⟩
      rw [hthreads] at ht
      rcases List.mem_or_eq_of_mem_set ht with ht | rfl
      · exact hp t ht
      · exact (hp _ (List.mem_of_getElem? hget)).2 r
  | env e =>
      cases hstep
      exact hp t ht

theorem Run.uses_call? {P : Op -> Prop} {w : S.World}
    (hspawn : forall p r, Allowed p (Choice.spawn r) ->
      Program.Uses P (S.program p.threads.length r))
    (hrun : Run Allowed (Pool.init w) p) {c : Choice S} {op : Op}
    (hcall : p.call? c = some op) : P op := by
  rcases exists_of_call? hcall with ⟨i, request, next, _, hget⟩
  exact (hrun.uses hspawn _ (List.mem_of_getElem? hget)).1

/-- Replay a schedule, as long as every step passes `ok`. -/
def playIf (ok : Pool S -> Choice S -> Bool) (p : Pool S) : List (Choice S) -> Option (Pool S)
  | [] => some p
  | c :: cs =>
      if ok p c then
        match p.step c with
        | none => none
        | some q => q.playIf ok cs
      else none

theorem run_of_playIf {ok : Pool S -> Choice S -> Bool} {cs : List (Choice S)}
    {p q : Pool S} (hplay : p.playIf ok cs = some q) :
    Run (fun p c => ok p c = true) p q := by
  induction cs generalizing p with
  | nil =>
      cases hplay
      exact Run.refl
  | cons c cs ih =>
      simp only [playIf] at hplay
      split at hplay
      · rename_i hok
        split at hplay
        · cases hplay
        · rename_i r hr
          exact (Run.tail Run.refl hok hr).trans (ih hplay)
      · cases hplay

def play (p : Pool S) (cs : List (Choice S)) : Option (Pool S) :=
  p.playIf (fun _ _ => true) cs

def after (p : Pool S) (cs : List (Choice S)) (h : (p.play cs).isSome) : Pool S :=
  (p.play cs).get h

theorem run_after (p : Pool S) (cs : List (Choice S)) (h : (p.play cs).isSome) :
    Run (fun _ _ => True) p (p.after cs h) :=
  (run_of_playIf (Option.some_get h).symm).mono (fun _ _ _ => trivial)

/-- The pool a schedule of steps that pass `ok` leads to. -/
def afterIf (ok : Pool S -> Choice S -> Bool) (p : Pool S) (cs : List (Choice S))
    (h : (p.playIf ok cs).isSome) : Pool S :=
  (p.playIf ok cs).get h

theorem run_afterIf (ok : Pool S -> Choice S -> Bool) (p : Pool S) (cs : List (Choice S))
    (h : (p.playIf ok cs).isSome) : Run (fun p c => ok p c = true) p (p.afterIf ok cs h) :=
  run_of_playIf (Option.some_get h).symm

end Pool

/-!
# Keeping a record beside the world

An argument about a run often needs to know what happened earlier in it.  A
service can be observed: the same requests run over the same world, and a
record beside the world is updated after each call.  Nothing the requests do
depends on the record.
-/

/-- How a record of type `Note` follows what happens to a world. -/
structure Observer (S : Service Res) (Note : Type) where
  onCall : (op : Op) -> S.World -> Note -> Note
  onEnv : S.Env -> S.World -> Note -> Note

namespace Service

variable (S : Service Res) {Note : Type} (O : Observer S Note)

@[reducible] def observedMachine : Machine Res where
  World := S.World × Note
  exec := fun op w =>
    ((S.machine.exec op w.1).1, ((S.machine.exec op w.1).2, O.onCall op w.1 w.2))
  fault := S.machine.fault

@[reducible] def observed : Service Res where
  machine := S.observedMachine O
  Request := S.Request
  Response := S.Response
  program := S.program
  Env := S.Env
  disturb := fun e w => (S.disturb e w.1, O.onEnv e w.1 w.2)

end Service

end Concurrency
end FleetServer
