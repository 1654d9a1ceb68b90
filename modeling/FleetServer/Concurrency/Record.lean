import FleetServer.Concurrency.Guarantee

/-!
# Keeping a record of who called what

An observer sees the calls that are made.  A recorder also sees which request
makes them, and it sees the calls that fail.
-/

namespace FleetServer
namespace Concurrency

variable {Op : Type} {Res : Op -> Type} {alpha beta : Type}

/-- What a call may answer and where it may lead: it succeeds, or it fails and
changes nothing. -/
inductive Outcome (M : Machine Res) (op : Op) (w : M.World) : Res op -> M.World -> Prop where
  | ok : Outcome M op w (M.exec op w).1 (M.exec op w).2
  | failed {a : Res op} : M.fault op = some a -> Outcome M op w a w

theorem outcome_cases {M : Machine Res} {op : Op} {w v : M.World} {a : Res op}
    (h : Outcome M op w a v) :
    (a = (M.exec op w).1 ∧ v = (M.exec op w).2) ∨ (M.fault op = some a ∧ v = w) := by
  cases h with
  | ok => exact Or.inl ⟨rfl, rfl⟩
  | failed ha => exact Or.inr ⟨ha, rfl⟩

/-- How a record follows what the request of a number does: the call it makes,
the world before it and the world after it. -/
structure Recorder (S : Service Res) (Note : Type) where
  onCall : Nat -> S.Request -> Op -> S.World -> S.World -> Note -> Note

variable {S : Service Res} {Note : Type}

namespace Pool

def caller? (p : Pool S) : Choice S -> Option (Nat × S.Request × Op)
  | Choice.exec i =>
      match p.threads[i]? with
      | some ⟨request, Program.call op _⟩ => some (i, request, op)
      | _ => none
  | Choice.fault i =>
      match p.threads[i]? with
      | some ⟨request, Program.call op _⟩ => some (i, request, op)
      | _ => none
  | _ => none

theorem call?_of_caller? {p : Pool S} {i j : Nat} {request : S.Request} {op : Op}
    (h : p.caller? (Choice.exec j) = some (i, request, op)) :
    p.call? (Choice.exec j) = some op := by
  cases hget : p.threads[j]? with
  | none =>
      simp only [caller?, hget] at h
      cases h
  | some t =>
      rcases t with ⟨r, rest⟩
      cases rest with
      | done answer =>
          simp only [caller?, hget] at h
          cases h
      | call op' next =>
          simp only [caller?, hget] at h
          cases h
          simp only [call?, hget]

/-- A step starts a request, disturbs the world, or lets a request make its
next call. -/
theorem step_cases {p q : Pool S} {c : Choice S} (hstep : p.step c = some q) :
    (exists request, c = Choice.spawn request ∧ p.caller? c = none ∧
      q = { p with threads := p.threads ++ [p.spawned request] }) ∨
    (exists e, c = Choice.env e ∧ p.caller? c = none ∧
      q = { p with world := S.disturb e p.world }) ∨
    exists i request op next a, p.caller? c = some (i, request, op) ∧
      p.threads[i]? = some ⟨request, Program.call op next⟩ ∧
      Outcome S.machine op p.world a q.world ∧
      q.threads = p.threads.set i ⟨request, next a⟩ := by
  cases c with
  | spawn request =>
      cases hstep
      exact Or.inl ⟨request, rfl, rfl, rfl⟩
  | env e =>
      cases hstep
      exact Or.inr (Or.inl ⟨e, rfl, rfl, rfl⟩)
  | exec i =>
      rcases step_exec hstep with ⟨request, op, next, hget, hworld, hthreads⟩
      have hcaller : p.caller? (Choice.exec i) = some (i, request, op) := by
        simp only [caller?, hget]
      have houtcome : Outcome S.machine op p.world (S.machine.exec op p.world).1 q.world := by
        rw [hworld]
        exact Outcome.ok
      exact Or.inr (Or.inr ⟨i, request, op, next, _, hcaller, hget, houtcome, hthreads⟩)
  | fault i =>
      rcases step_fault hstep with ⟨request, op, next, a, hget, ha, hworld, hthreads⟩
      have hcaller : p.caller? (Choice.fault i) = some (i, request, op) := by
        simp only [caller?, hget]
      have houtcome : Outcome S.machine op p.world a q.world := by
        rw [hworld]
        exact Outcome.failed ha
      exact Or.inr (Or.inr ⟨i, request, op, next, a, hcaller, hget, houtcome, hthreads⟩)

theorem request_stays {p q : Pool S} {c : Choice S} {i : Nat} {t : Thread S}
    (hstep : p.step c = some q) (hget : p.threads[i]? = some t) :
    exists u, q.threads[i]? = some u ∧ u.request = t.request := by
  rcases step_cases hstep with ⟨r, _, _, hq⟩ | ⟨e, _, _, hq⟩ |
    ⟨j, r, op, next, a, _, hcall, _, hthreads⟩
  · rw [hq]
    exact ⟨t, (List.getElem?_append_left (List.getElem?_eq_some_iff.mp hget).1).trans hget, rfl⟩
  · rw [hq]
    exact ⟨t, hget, rfl⟩
  · rw [hthreads]
    by_cases hij : j = i
    · subst hij
      rw [hcall] at hget
      cases hget
      exact ⟨_, List.getElem?_set_self (List.getElem?_eq_some_iff.mp hcall).1, rfl⟩
    · exact ⟨t, (List.getElem?_set_ne hij).trans hget, rfl⟩

end Pool

/-!
# Recorded runs
-/

namespace Recorder

def record (R : Recorder S Note) (p q : Pool S) (c : Choice S) (note : Note) : Note :=
  match p.caller? c with
  | some (i, request, op) => R.onCall i request op p.world q.world note
  | none => note

end Recorder

/-- Steps that all meet `Allowed` lead from a pool and a record of what came
before to another pool and the record then. -/
inductive Recorded (R : Recorder S Note) (Allowed : Pool S -> Note -> Choice S -> Pool S -> Prop)
    (p : Pool S) (start : Note) : Pool S -> Note -> Prop where
  | refl : Recorded R Allowed p start p start
  | tail {q r : Pool S} {note : Note} {c : Choice S} :
      Recorded R Allowed p start q note -> Allowed q note c r -> q.step c = some r ->
        Recorded R Allowed p start r (R.record q r c note)

variable {R : Recorder S Note} {Allowed : Pool S -> Note -> Choice S -> Pool S -> Prop}
  {p q r : Pool S} {start note : Note}

namespace Recorded

theorem trans {note' : Note} (hpq : Recorded R Allowed p start q note)
    (hqr : Recorded R Allowed q note r note') : Recorded R Allowed p start r note' := by
  induction hqr with
  | refl => exact hpq
  | tail _ hallowed hstep ih => exact ih.tail hallowed hstep

theorem mono {Allowed' : Pool S -> Note -> Choice S -> Pool S -> Prop}
    (h : forall p note c q, Allowed p note c q -> Allowed' p note c q)
    (hrun : Recorded R Allowed p start q note) : Recorded R Allowed' p start q note := by
  induction hrun with
  | refl => exact Recorded.refl
  | tail _ hallowed hstep ih => exact ih.tail (h _ _ _ _ hallowed) hstep

/-- Every step of a recorded run starts from what the run has come to. -/
theorem within (hrun : Recorded R Allowed p start q note) :
    Recorded R (fun p' note' c q' => Allowed p' note' c q' ∧ Recorded R Allowed p start p' note')
      p start q note := by
  induction hrun with
  | refl => exact Recorded.refl
  | tail hpre hallowed hstep ih => exact ih.tail ⟨hallowed, hpre⟩ hstep

theorem steps (hrun : Recorded R Allowed p start q note) :
    Recorded R (fun p' note' c q' => Allowed p' note' c q' ∧ p'.step c = some q')
      p start q note := by
  induction hrun with
  | refl => exact Recorded.refl
  | tail _ hallowed hstep ih => exact ih.tail ⟨hallowed, hstep⟩ hstep

theorem lift {Note' : Type} {R' : Recorder S Note'} {f : Note' -> Note} {start' : Note'}
    (hcall : forall i request op w v note,
      f (R'.onCall i request op w v note) = R.onCall i request op w v (f note))
    (hstart : f start' = start) (hrun : Recorded R Allowed p start q note) :
    exists note', f note' = note ∧
      Recorded R' (fun p note c q => Allowed p (f note) c q) p start' q note' := by
  induction hrun with
  | refl => exact ⟨start', hstart, Recorded.refl⟩
  | @tail q r note c _ hallowed hstep ih =>
      rcases ih with ⟨note', hnote, hrun⟩
      rw [← hnote] at hallowed
      refine ⟨R'.record q r c note', ?_, hrun.tail hallowed hstep⟩
      unfold Recorder.record
      split
      · rw [hcall, hnote]
      · exact hnote

theorem run (hrun : Recorded R Allowed p start q note) :
    Pool.Run (fun p c => exists note q, Allowed p note c q) p q := by
  induction hrun with
  | refl => exact Pool.Run.refl
  | tail _ hallowed hstep ih => exact ih.tail ⟨_, _, hallowed⟩ hstep

/-- Replay a schedule, as long as every step passes `ok`. -/
def replay (R : Recorder S Note) (ok : Pool S -> Note -> Choice S -> Pool S -> Bool)
    (p : Pool S) (note : Note) : List (Choice S) -> Option (Pool S × Note)
  | [] => some (p, note)
  | c :: cs =>
      match p.step c with
      | none => none
      | some q => if ok p note c q then replay R ok q (R.record p q c note) cs else none

theorem of_replay {ok : Pool S -> Note -> Choice S -> Pool S -> Bool} {cs : List (Choice S)}
    {p : Pool S} {note : Note} {x : Pool S × Note} (h : replay R ok p note cs = some x) :
    Recorded R (fun p note c q => ok p note c q = true) p note x.1 x.2 := by
  induction cs generalizing p note with
  | nil =>
      cases h
      exact Recorded.refl
  | cons c cs ih =>
      simp only [replay] at h
      split at h
      · cases h
      · rename_i q hstep
        split at h
        · rename_i hok
          have hfirst : Recorded R (fun p note c q => ok p note c q = true) p note q
              (R.record p q c note) := Recorded.tail Recorded.refl hok hstep
          exact hfirst.trans (ih h)
        · cases h

/-- The pool and the record that a schedule of steps that pass `ok` leads to. -/
def after (R : Recorder S Note) (ok : Pool S -> Note -> Choice S -> Pool S -> Bool)
    (p : Pool S) (note : Note) (cs : List (Choice S)) (h : (replay R ok p note cs).isSome) :
    Pool S × Note :=
  (replay R ok p note cs).get h

theorem of_after (R : Recorder S Note) (ok : Pool S -> Note -> Choice S -> Pool S -> Bool)
    (p : Pool S) (note : Note) (cs : List (Choice S)) (h : (replay R ok p note cs).isSome) :
    Recorded R (fun p note c q => ok p note c q = true) p note (after R ok p note cs h).1
      (after R ok p note cs h).2 :=
  of_replay (Option.some_get h).symm

end Recorded

/-!
# Contracts

What a request is allowed and what it guarantees may depend on the record.
`Obeys` is checked by walking through a program; the rule below carries it along
every recorded run.
-/

/-- `Inv` holds at every moment, `Rely i` of what others do to the `i`-th
request.  A call that is allowed by `May` has to meet `Guar`. -/
structure Contract (R : Recorder S Note) where
  Inv : S.World × Note -> Prop
  Rely : Nat -> S.World × Note -> S.World × Note -> Prop
  May : Nat -> S.Request -> Op -> S.World × Note -> S.World -> Prop
  Guar : Nat -> S.Request -> Op -> S.World × Note -> S.World -> Prop
  refl : forall i x, Rely i x x
  trans : forall i x y z, Rely i x y -> Rely i y z -> Rely i x z
  inv_call : forall i request op x a v, Inv x -> Outcome S.machine op x.1 a v ->
    Guar i request op x v -> Inv (v, R.onCall i request op x.1 v x.2)
  rely_call : forall i j request op x a v, i ≠ j -> Inv x -> Outcome S.machine op x.1 a v ->
    Guar i request op x v -> Rely j x (v, R.onCall i request op x.1 v x.2)
  env : forall e x, Inv x -> Inv (S.disturb e x.1, x.2) ∧
    forall i, Rely i x (S.disturb e x.1, x.2)

namespace Contract

variable (C : Contract R)

/-- From `x` on, every allowed call of the program meets the guarantee. -/
def Obeys (i : Nat) (request : S.Request) : Program Res alpha -> S.World × Note -> Prop
  | Program.done _, _ => True
  | Program.call op next, x =>
      forall y, C.Inv y -> C.Rely i x y -> forall a v, Outcome S.machine op y.1 a v ->
        C.May i request op y v ->
          C.Guar i request op y v ∧
            Obeys i request (next a) (v, R.onCall i request op y.1 v y.2)

variable {C} {i : Nat} {request : S.Request} {x y : S.World × Note}

theorem obeys_rely {prog : Program Res alpha} (h : C.Obeys i request prog x)
    (hrely : C.Rely i x y) : C.Obeys i request prog y := by
  cases prog with
  | done a => trivial
  | call op next => exact fun z hinv hz => h z hinv (C.trans i x y z hrely hz)

theorem obeys_bind {prog : Program Res alpha} {f : alpha -> Program Res beta}
    (h : C.Obeys i request prog x) (hf : forall a y, C.Obeys i request (f a) y) :
    C.Obeys i request (prog >>= f) x := by
  induction prog generalizing x with
  | done a => exact hf a x
  | call op next ih =>
      intro y hinv hrely a v houtcome hmay
      have hcall := h y hinv hrely a v houtcome hmay
      exact ⟨hcall.1, ih a hcall.2⟩

/-- A program of calls that always meet the guarantee. -/
theorem obeys_of_uses {prog : Program Res alpha}
    (h : Program.Uses (fun op => forall y a v, Outcome S.machine op y.1 a v ->
      C.May i request op y v -> C.Guar i request op y v) prog) (x : S.World × Note) :
    C.Obeys i request prog x := by
  induction prog generalizing x with
  | done a => trivial
  | call op next ih =>
      intro y _ _ a v houtcome hmay
      exact ⟨h.1 y a v houtcome hmay, ih a (h.2 a) _⟩

/-!
## What an obedient program answers
-/

/-- As `Obeys`, and the answer meets `Post` for as long as others keep to the rely. -/
def Ensures (C : Contract R) (i : Nat) (request : S.Request)
    (Post : alpha -> S.World × Note -> Prop) : Program Res alpha -> S.World × Note -> Prop
  | Program.done a, x => forall y, C.Inv y -> C.Rely i x y -> Post a y
  | Program.call op next, x =>
      forall y, C.Inv y -> C.Rely i x y -> forall a v, Outcome S.machine op y.1 a v ->
        C.May i request op y v ->
          C.Guar i request op y v ∧
            Ensures C i request Post (next a) (v, R.onCall i request op y.1 v y.2)

section Ensures

variable {Post : alpha -> S.World × Note -> Prop} {Post' : beta -> S.World × Note -> Prop}

theorem ensures_of_rely {prog : Program Res alpha}
    (h : forall y, C.Inv y -> C.Rely i x y -> C.Ensures i request Post prog y) :
    C.Ensures i request Post prog x := by
  cases prog with
  | done a => exact fun y hinv hrely => h y hinv hrely y hinv (C.refl i y)
  | call op next => exact fun y hinv hrely => h y hinv hrely y hinv (C.refl i y)

theorem ensures_bind {prog : Program Res alpha} {f : alpha -> Program Res beta}
    (h : C.Ensures i request Post prog x)
    (hf : forall a y, C.Inv y -> Post a y -> C.Ensures i request Post' (f a) y) :
    C.Ensures i request Post' (prog >>= f) x := by
  induction prog generalizing x with
  | done a => exact ensures_of_rely (fun y hinv hrely => hf a y hinv (h y hinv hrely))
  | call op next ih =>
      intro y hinv hrely a v houtcome hmay
      have hcall := h y hinv hrely a v houtcome hmay
      exact ⟨hcall.1, ih a hcall.2⟩

theorem obeys_of_rely {prog : Program Res alpha}
    (h : forall y, C.Inv y -> C.Rely i x y -> C.Obeys i request prog y) :
    C.Obeys i request prog x := by
  cases prog with
  | done a => trivial
  | call op next => exact fun y hinv hrely => h y hinv hrely y hinv (C.refl i y)

/-- What follows an answer may rely on it. -/
theorem obeys_after {prog : Program Res alpha} {f : alpha -> Program Res beta}
    (h : C.Ensures i request Post prog x)
    (hf : forall a y, C.Inv y -> Post a y -> C.Obeys i request (f a) y) :
    C.Obeys i request (prog >>= f) x := by
  induction prog generalizing x with
  | done a => exact obeys_of_rely (fun y hinv hrely => hf a y hinv (h y hinv hrely))
  | call op next ih =>
      intro y hinv hrely a v houtcome hmay
      have hcall := h y hinv hrely a v houtcome hmay
      exact ⟨hcall.1, ih a hcall.2⟩

end Ensures

/-!
# The rule
-/

/-- What the rule carries along a recorded run. -/
structure Holds (C : Contract R) (p : Pool S) (note : Note) : Prop where
  inv : C.Inv (p.world, note)
  threads : forall (i : Nat) (t : Thread S), p.threads[i]? = some t ->
    C.Obeys i t.request t.rest (p.world, note)

theorem holds_init {w : S.World} (h : C.Inv (w, note)) : C.Holds (Pool.init w) note := by
  constructor
  · exact h
  · intro i t hget
    cases hget

theorem Holds.guar {op : Op} {next : Res op -> Program Res S.Response} {a : Res op}
    {v : S.World} (h : C.Holds p note)
    (hget : p.threads[i]? = some ⟨request, Program.call op next⟩)
    (houtcome : Outcome S.machine op p.world a v)
    (hmay : C.May i request op (p.world, note) v) :
    C.Guar i request op (p.world, note) v ∧
      C.Obeys i request (next a) (v, R.onCall i request op p.world v note) :=
  h.threads i _ hget (p.world, note) h.inv (C.refl i _) a v houtcome hmay

/-- What is left of each request after one of them moved on. -/
theorem Holds.call {op : Op} {next : Res op -> Program Res S.Response} {a : Res op}
    (h : C.Holds p note) (hget : p.threads[i]? = some ⟨request, Program.call op next⟩)
    (houtcome : Outcome S.machine op p.world a q.world)
    (hthreads : q.threads = p.threads.set i ⟨request, next a⟩)
    (hmay : C.May i request op (p.world, note) q.world) :
    C.Holds q (R.onCall i request op p.world q.world note) := by
  have hguar := h.guar hget houtcome hmay
  constructor
  · exact C.inv_call i request op (p.world, note) a q.world h.inv houtcome hguar.1
  · intro j t hj
    rw [hthreads] at hj
    by_cases hij : i = j
    · subst hij
      rw [List.getElem?_set_self (List.getElem?_eq_some_iff.mp hget).1] at hj
      cases hj
      exact hguar.2
    · rw [List.getElem?_set_ne hij] at hj
      apply obeys_rely (h.threads j t hj)
      exact C.rely_call i j request op (p.world, note) a q.world hij h.inv houtcome hguar.1

theorem Holds.step {c : Choice S} (h : C.Holds p note)
    (hspawn : forall r, c = Choice.spawn r ->
      C.Obeys p.threads.length r (S.program p.threads.length r) (p.world, note))
    (hmay : forall j r op, p.caller? c = some (j, r, op) ->
      C.May j r op (p.world, note) q.world)
    (hstep : p.step c = some q) : C.Holds q (R.record p q c note) := by
  unfold Recorder.record
  rcases Pool.step_cases hstep with ⟨r, hc, hcaller, hq⟩ | ⟨e, _, hcaller, hq⟩ |
    ⟨j, r, op, next, a, hcaller, hget, houtcome, hthreads⟩
  · rw [hcaller, hq]
    constructor
    · exact h.inv
    · intro j t hj
      rcases Discipline.getElem?_spawned hj with hold | ⟨hlength, hnew⟩
      · exact h.threads j t hold
      · rw [hlength, hnew]
        exact hspawn r hc
  · rw [hcaller, hq]
    have henv := C.env e (p.world, note) h.inv
    constructor
    · exact henv.1
    · intro j t hj
      exact obeys_rely (h.threads j t hj) (henv.2 j)
  · rw [hcaller]
    exact h.call hget houtcome hthreads (hmay j r op hcaller)

end Contract

/-- Requests that obey the contract do so throughout every recorded run whose
calls are allowed. -/
theorem Recorded.holds (C : Contract R)
    (hspawn : forall p note r q, Allowed p note (Choice.spawn r) q ->
      C.Obeys p.threads.length r (S.program p.threads.length r) (p.world, note))
    (hmay : forall p note c q j r op, Allowed p note c q -> p.caller? c = some (j, r, op) ->
      C.May j r op (p.world, note) q.world)
    (hrun : Recorded R Allowed p start q note) (hp : C.Holds p start) : C.Holds q note := by
  induction hrun with
  | refl => exact hp
  | tail _ hallowed hstep ih =>
      apply ih.step _ _ hstep
      · intro r hc
        rw [hc] at hallowed
        exact hspawn _ _ r _ hallowed
      · exact fun j r op hcaller => hmay _ _ _ _ j r op hallowed hcaller

/-!
# What a request ends with

A record that keeps the requests apart has one entry for each of them, blank
until the request makes its first call.  `Leads` follows the entry of one
request through its program.
-/

namespace Recorded

theorem done_stays {i : Nat} {request : S.Request} {a : S.Response}
    (hrun : Recorded R Allowed p start q note)
    (hget : p.threads[i]? = some ⟨request, Program.done a⟩) :
    q.threads[i]? = some ⟨request, Program.done a⟩ := by
  induction hrun with
  | refl => exact hget
  | tail _ _ hstep ih =>
      rcases Pool.step_cases hstep with ⟨r, _, _, hq⟩ | ⟨e, _, _, hq⟩ |
        ⟨j, r, op, next, b, _, hcall, _, hthreads⟩
      · rw [hq, List.getElem?_append_left (List.getElem?_eq_some_iff.mp ih).1]
        exact ih
      · rw [hq]
        exact ih
      · have hne : j ≠ i := by
          intro hij
          rw [hij, ih] at hcall
          cases hcall
        rw [hthreads, List.getElem?_set_ne hne]
        exact ih

end Recorded

/-- Whatever its calls answer, as far as `Step` allows, the program ends in `Q`. -/
def Program.Leads {Entry : Type} (Step : (op : Op) -> Res op -> Entry -> Entry -> Prop)
    (Q : alpha -> Entry -> Prop) : Program Res alpha -> Entry -> Prop
  | Program.done a, m => Q a m
  | Program.call op next, m => forall a m', Step op a m m' -> Leads Step Q (next a) m'

namespace Program

variable {Entry : Type} {Step : (op : Op) -> Res op -> Entry -> Entry -> Prop}

theorem leads_bind {Q : alpha -> Entry -> Prop} {Q' : beta -> Entry -> Prop}
    {prog : Program Res alpha} {f : alpha -> Program Res beta} {m : Entry}
    (h : Leads Step Q prog m) (hf : forall a m, Q a m -> Leads Step Q' (f a) m) :
    Leads Step Q' (prog >>= f) m := by
  induction prog generalizing m with
  | done a => exact hf a m h
  | call op next ih => exact fun a m' hstep => ih a (h a m' hstep)

theorem leads_mono {Q Q' : alpha -> Entry -> Prop} (hQ : forall a m, Q a m -> Q' a m)
    {prog : Program Res alpha} {m : Entry} (h : Leads Step Q prog m) :
    Leads Step Q' prog m := by
  induction prog generalizing m with
  | done a => exact hQ a m h
  | call op next ih => exact fun a m' hstep => ih a (h a m' hstep)

theorem leads_of_forall {Q : alpha -> Entry -> Prop} (h : forall a m, Q a m)
    (prog : Program Res alpha) (m : Entry) : Leads Step Q prog m := by
  induction prog generalizing m with
  | done a => exact h a m
  | call op next ih => exact fun a m' _ => ih a m'

theorem leads_keeping (Kept : Entry -> Prop) {prog : Program Res alpha} {m : Entry}
    (h : Uses (fun op => forall a m m', Step op a m m' -> Kept m -> Kept m') prog)
    (hm : Kept m) : Leads Step (fun _ m' => Kept m') prog m := by
  induction prog generalizing m with
  | done a => exact hm
  | call op next ih => exact fun a m' hstep => ih a (h.2 a) (h.1 a m m' hstep hm)

/-- Calls that keep the entry lead wherever it already is. -/
theorem leads_of_uses {prog : Program Res alpha} {m : Entry}
    (h : Uses (fun op => forall a m m', Step op a m m' -> m' = m) prog) :
    Leads Step (fun _ m' => m' = m) prog m :=
  leads_keeping (fun m' => m' = m)
    (uses_mono (fun _ hkept a m1 m2 hstep hm => (hkept a m1 m2 hstep).trans hm) h) rfl

end Program

/-- A request's entry follows its program throughout a recorded run. -/
theorem Recorded.leads {Entry : Type} {entry : Note -> Nat -> Entry} {blank : Entry}
    {Step : S.Request -> (op : Op) -> Res op -> Entry -> Entry -> Prop}
    {Q : S.Request -> S.Response -> Entry -> Prop} {w : S.World}
    (hspawn : forall p note request q, Allowed p note (Choice.spawn request) q ->
      Program.Leads (Step request) (Q request) (S.program p.threads.length request) blank)
    (hexec : forall p note q i request op, Allowed p note (Choice.exec i) q ->
      p.caller? (Choice.exec i) = some (i, request, op) ->
      q.world = (S.machine.exec op p.world).2 ->
      Step request op (S.machine.exec op p.world).1 (entry note i)
        (entry (R.onCall i request op p.world q.world note) i))
    (hfault : forall p note q i request op a, Allowed p note (Choice.fault i) q ->
      p.caller? (Choice.fault i) = some (i, request, op) -> S.machine.fault op = some a ->
      q.world = p.world ->
      Step request op a (entry note i) (entry (R.onCall i request op p.world q.world note) i))
    (hother : forall i j request op w v note, j ≠ i ->
      entry (R.onCall i request op w v note) j = entry note j)
    (hstart : forall i, entry start i = blank)
    (hrun : Recorded R Allowed (Pool.init w) start p note) :
    (forall (i : Nat) (t : Thread S), p.threads[i]? = some t ->
      Program.Leads (Step t.request) (Q t.request) t.rest (entry note i)) ∧
    forall i, p.threads.length ≤ i -> entry note i = blank := by
  induction hrun with
  | refl =>
      constructor
      · intro i t hget
        cases hget
      · exact fun i _ => hstart i
  | @tail q r note c hpre hallowed hstep ih =>
      -- A request that moves on by an answer that `Step` allows.
      have hmove : forall (i : Nat) (request : S.Request) (op : Op)
          (next : Res op -> Program Res S.Response) (a : Res op),
          q.threads[i]? = some ⟨request, Program.call op next⟩ ->
          r.threads = q.threads.set i ⟨request, next a⟩ ->
          Step request op a (entry note i)
            (entry (R.onCall i request op q.world r.world note) i) ->
          (forall (j : Nat) (t : Thread S), r.threads[j]? = some t ->
            Program.Leads (Step t.request) (Q t.request) t.rest
              (entry (R.onCall i request op q.world r.world note) j)) ∧
          forall j, r.threads.length ≤ j ->
            entry (R.onCall i request op q.world r.world note) j = blank := by
        intro i request op next a hget hthreads hentry
        have hlt := (List.getElem?_eq_some_iff.mp hget).1
        constructor
        · intro j t hj
          rw [hthreads] at hj
          by_cases hij : i = j
          · subst hij
            rw [List.getElem?_set_self hlt] at hj
            cases hj
            exact ih.1 i _ hget a _ hentry
          · rw [List.getElem?_set_ne hij] at hj
            rw [hother i j request op _ _ note (fun h => hij h.symm)]
            exact ih.1 j t hj
        · intro j hj
          rw [hthreads, List.length_set] at hj
          rw [hother i j request op _ _ note (by omega)]
          exact ih.2 j hj
      cases c with
      | spawn request =>
          cases hstep
          constructor
          · intro j t hj
            rcases Discipline.getElem?_spawned hj with hold | ⟨hlength, hnew⟩
            · exact ih.1 j t hold
            · rw [hnew]
              have hblank := ih.2 j (by omega)
              show Program.Leads _ _ _ (entry note j)
              rw [hblank]
              exact hspawn q note request _ hallowed
          · intro j hj
            rw [List.length_append] at hj
            exact ih.2 j (by omega)
      | env e =>
          cases hstep
          exact ih
      | exec i =>
          rcases Pool.step_exec hstep with ⟨request, op, next, hget, hworld, hthreads⟩
          have hcaller : q.caller? (Choice.exec i) = some (i, request, op) := by
            simp only [Pool.caller?, hget]
          unfold Recorder.record
          rw [hcaller]
          exact hmove i request op next _ hget hthreads
            (hexec q note r i request op hallowed hcaller hworld)
      | fault i =>
          rcases Pool.step_fault hstep with ⟨request, op, next, a, hget, ha, hworld, hthreads⟩
          have hcaller : q.caller? (Choice.fault i) = some (i, request, op) := by
            simp only [Pool.caller?, hget]
          unfold Recorder.record
          rw [hcaller]
          exact hmove i request op next a hget hthreads
            (hfault q note r i request op a hallowed hcaller ha hworld)

end Concurrency
end FleetServer
