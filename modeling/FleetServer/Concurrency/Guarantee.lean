import FleetServer.Concurrency.Pool

/-!
# Reasoning about one request among many

A request relies on how others may change the world between its calls, and
guarantees something about each call it makes.  `Meets` says that a program
keeps its guarantee whatever happens within the rely; it is checked by walking
through the program.  The rule at the end of this module says that requests
which meet their guarantees, and whose guarantees stay within each other's
relies, do so throughout every run.
-/

namespace FleetServer
namespace Concurrency

variable {Op : Type} {Res : Op -> Type} {S : Service Res}

/-- A request that still has calls to make. -/
def Thread.Active (t : Thread S) : Prop :=
  exists op next, t.rest = Program.call op next

/-- A request that was answered. -/
def Thread.isDone (t : Thread S) : Bool :=
  match t.rest with
  | Program.done _ => true
  | Program.call _ _ => false

/-!
# Meeting a guarantee
-/

section Meets

variable {alpha beta : Type} {M : Machine Res}

/-- What surrounds a program: which calls may fail, an invariant of the world,
how the world may change between calls, and what is assumed and guaranteed when
the program is about to make a call. -/
structure Setting (M : Machine Res) (alpha : Type) where
  Faulty : Op -> Prop
  Inv : M.World -> Prop
  Rely : M.World -> M.World -> Prop
  Assume : (op : Op) -> (Res op -> Program Res alpha) -> M.World -> Prop
  Guar : (op : Op) -> (Res op -> Program Res alpha) -> M.World -> Prop
  refl : forall w, Inv w -> Rely w w
  trans : forall u v w, Rely u v -> Rely v w -> Rely u w

def Setting.first (E : Setting M beta) (f : alpha -> Program Res beta) :
    Setting M alpha where
  Faulty := E.Faulty
  Inv := E.Inv
  Rely := E.Rely
  Assume := fun op next => E.Assume op (fun r => next r >>= f)
  Guar := fun op next => E.Guar op (fun r => next r >>= f)
  refl := E.refl
  trans := E.trans

/-- From `w` on, every call meets the guarantee and the answer meets `Post`. -/
def Meets (E : Setting M alpha) (Post : alpha -> M.World -> Prop) :
    Program Res alpha -> M.World -> Prop
  | Program.done a, w => forall v, E.Inv v -> E.Rely w v -> Post a v
  | Program.call op next, w =>
      forall v, E.Inv v -> E.Rely w v ->
        (E.Assume op next v ->
          E.Guar op next v ∧
            Meets E Post (next (M.exec op v).1) (M.exec op v).2) ∧
        (E.Faulty op -> forall r, M.fault op = some r ->
          Meets E Post (next r) v)

variable {E : Setting M alpha} {Post : alpha -> M.World -> Prop}

theorem meets_done {a : alpha} {w : M.World}
    (h : forall v, E.Inv v -> E.Rely w v -> Post a v) :
    Meets E Post (Program.done a) w := h

theorem meets_rely {p : Program Res alpha} {w v : M.World}
    (hp : Meets E Post p w) (hrely : E.Rely w v) : Meets E Post p v := by
  cases p with
  | done a => exact fun u hinv hu => hp u hinv (E.trans w v u hrely hu)
  | call op next => exact fun u hinv hu => hp u hinv (E.trans w v u hrely hu)

theorem meets_of_rely {p : Program Res alpha} {w : M.World}
    (hp : forall v, E.Inv v -> E.Rely w v -> Meets E Post p v) :
    Meets E Post p w := by
  cases p with
  | done a => exact fun v hinv hv => hp v hinv hv v hinv (E.refl v hinv)
  | call op next => exact fun v hinv hv => hp v hinv hv v hinv (E.refl v hinv)

theorem meets_bind {F : Setting M beta} {f : alpha -> Program Res beta}
    {Post' : beta -> M.World -> Prop} {p : Program Res alpha} {w : M.World}
    (hp : Meets (F.first f) Post p w)
    (hf : forall a v, Post a v -> Meets F Post' (f a) v) :
    Meets F Post' (p >>= f) w := by
  induction p generalizing w with
  | done a => exact meets_of_rely (fun v hinv hv => hf a v (hp v hinv hv))
  | call op next ih =>
      intro v hinv hrely
      rcases hp v hinv hrely with ⟨hok, hfault⟩
      refine ⟨fun hassume => ?_, fun hfaulty r hr => ?_⟩
      · rcases hok hassume with ⟨hguar, hnext⟩
        exact ⟨hguar, ih _ hnext⟩
      · exact ih r (hfault hfaulty r hr)

end Meets

/-!
# The rule
-/

/-- What a proof about interleaved requests has to provide.  Settings and
compatibility may depend on the requests' numbers. -/
structure Discipline (S : Service Res) (Allowed : Pool S -> Choice S -> Prop) where
  Inv : S.World -> Prop
  setting : Nat -> S.Request -> Setting S.machine S.Response
  /-- Which requests may overlap. -/
  Compat : S.Request -> S.Request -> Prop
  inv_eq : forall n r, (setting n r).Inv = Inv
  compat_symm : forall r r', Compat r r' -> Compat r' r
  spawn : forall p r, Allowed p (Choice.spawn r) -> Inv p.world ->
    Meets (setting p.threads.length r) (fun _ _ => True)
        (S.program p.threads.length r) p.world ∧
      forall t, t ∈ p.threads -> t.Active -> Compat t.request r
  assume : forall p i r op next, Allowed p (Choice.exec i) ->
    p.threads[i]? = some ⟨r, Program.call op next⟩ -> Inv p.world ->
    (setting i r).Assume op next p.world
  fault : forall p i r op next, Allowed p (Choice.fault i) ->
    p.threads[i]? = some ⟨r, Program.call op next⟩ -> (setting i r).Faulty op
  inv_exec : forall n r op next w, Inv w ->
    (setting n r).Guar op next w -> Inv (S.machine.exec op w).2
  guar_rely : forall n m r r' op next w, n ≠ m -> Compat r r' -> Inv w ->
    (setting n r).Guar op next w -> (setting m r').Rely w (S.machine.exec op w).2
  env : forall p e, Allowed p (Choice.env e) -> Inv p.world ->
    Inv (S.disturb e p.world) ∧
      forall n r, (setting n r).Rely p.world (S.disturb e p.world)

namespace Discipline

variable {Allowed : Pool S -> Choice S -> Prop} (D : Discipline S Allowed)

/-- What is left of a request meets the request's guarantee. -/
def Sound (n : Nat) (t : Thread S) (w : S.World) : Prop :=
  Meets (D.setting n t.request) (fun _ _ => True) t.rest w

/-- The invariant the rule carries through a run. -/
structure Holds (p : Pool S) : Prop where
  world : D.Inv p.world
  threads : forall (i : Nat) (t : Thread S), p.threads[i]? = some t -> t.Active ->
    D.Sound i t p.world
  overlap : forall (i j : Nat) (t u : Thread S), i ≠ j -> p.threads[i]? = some t ->
    p.threads[j]? = some u ->
    t.Active -> u.Active -> D.Compat t.request u.request

theorem holds_init {w : S.World} (hw : D.Inv w) : D.Holds (Pool.init w) :=
  ⟨hw, fun _ _ h => (by cases h), fun _ _ _ _ _ h => (by cases h)⟩

theorem holds_guar {p : Pool S} {i : Nat} {r : S.Request} {op : Op}
    {next : Res op -> Program Res S.Response} (hp : D.Holds p)
    (hallowed : Allowed p (Choice.exec i))
    (hget : p.threads[i]? = some ⟨r, Program.call op next⟩) :
    (D.setting i r).Guar op next p.world ∧
      Meets (D.setting i r) (fun _ _ => True) (next (S.machine.exec op p.world).1)
        (S.machine.exec op p.world).2 := by
  have hsound : D.Sound i ⟨r, Program.call op next⟩ p.world :=
    hp.threads i _ hget ⟨op, next, rfl⟩
  have hinv : (D.setting i r).Inv p.world := by
    rw [D.inv_eq i r]
    exact hp.world
  exact (hsound p.world hinv ((D.setting i r).refl _ hinv)).1
    (D.assume p i r op next hallowed hget hp.world)

theorem getElem?_spawned {p : Pool S} {r : S.Request} {i : Nat} {t : Thread S}
    (h : (p.threads ++ [p.spawned r])[i]? = some t) :
    p.threads[i]? = some t ∨ (i = p.threads.length ∧ t = p.spawned r) := by
  rcases Nat.lt_or_ge i p.threads.length with hlt | hge
  · rw [List.getElem?_append_left hlt] at h
    exact Or.inl h
  · rw [List.getElem?_append_right hge] at h
    cases hi : i - p.threads.length with
    | zero =>
        rw [hi] at h
        cases h
        exact Or.inr ⟨by omega, rfl⟩
    | succ n =>
        rw [hi] at h
        cases h

theorem getElem?_resumed {ts : List (Thread S)} {i j : Nat} {t u : Thread S}
    (h : (ts.set i u)[j]? = some t) :
    (j = i ∧ t = u) ∨ (i ≠ j ∧ ts[j]? = some t) := by
  rw [List.getElem?_set] at h
  split at h
  · rename_i hij
    split at h
    · cases h
      exact Or.inl ⟨hij.symm, rfl⟩
    · cases h
  · rename_i hij
    exact Or.inr ⟨hij, h⟩

theorem holds_spawn {p : Pool S} {r : S.Request} (hp : D.Holds p)
    (hallowed : Allowed p (Choice.spawn r)) :
    D.Holds { p with threads := p.threads ++ [p.spawned r] } := by
  rcases D.spawn p r hallowed hp.world with ⟨hsound, hcompat⟩
  refine ⟨hp.world, ?_, ?_⟩
  · intro i t hget hactive
    rcases getElem?_spawned hget with hget | ⟨rfl, rfl⟩
    · exact hp.threads i t hget hactive
    · exact hsound
  · intro i j t u hij ht hu hta hua
    rcases getElem?_spawned ht with ht | ⟨hi, rfl⟩ <;>
      rcases getElem?_spawned hu with hu | ⟨hj, rfl⟩
    · exact hp.overlap i j t u hij ht hu hta hua
    · exact hcompat t (List.mem_of_getElem? ht) hta
    · exact D.compat_symm _ _ (hcompat u (List.mem_of_getElem? hu) hua)
    · exact absurd (hi.trans hj.symm) hij

theorem overlap_resumed {p : Pool S} {i : Nat} {r : S.Request} {op : Op}
    {next : Res op -> Program Res S.Response} {rest : Program Res S.Response}
    (hp : D.Holds p) (hget : p.threads[i]? = some ⟨r, Program.call op next⟩)
    (j k : Nat) (t u : Thread S) (hjk : j ≠ k)
    (ht : (p.threads.set i ⟨r, rest⟩)[j]? = some t)
    (hu : (p.threads.set i ⟨r, rest⟩)[k]? = some u) (hta : t.Active) (hua : u.Active) :
    D.Compat t.request u.request := by
  let before : Thread S := ⟨r, Program.call op next⟩
  have hbefore : before.Active := ⟨op, next, rfl⟩
  rcases getElem?_resumed ht with ⟨hj, rfl⟩ | ⟨hj, ht⟩ <;>
    rcases getElem?_resumed hu with ⟨hk, rfl⟩ | ⟨hk, hu⟩
  · exact absurd (hj.trans hk.symm) hjk
  · exact hp.overlap i k before u hk hget hu hbefore hua
  · exact hp.overlap j i t before (Ne.symm hj) ht hget hta hbefore
  · exact hp.overlap j k t u hjk ht hu hta hua

theorem holds_exec {p q : Pool S} {i : Nat} (hp : D.Holds p)
    (hallowed : Allowed p (Choice.exec i)) (hstep : p.step (Choice.exec i) = some q) :
    D.Holds q := by
  rcases Pool.step_exec hstep with ⟨r, op, next, hget, hworld, hthreads⟩
  rcases D.holds_guar hp hallowed hget with ⟨hguar, hnext⟩
  refine ⟨by rw [hworld]; exact D.inv_exec i r op next _ hp.world hguar, ?_,
    by rw [hthreads]; exact D.overlap_resumed hp hget⟩
  intro j t ht hrunning
  rw [hthreads] at ht
  rw [hworld]
  rcases getElem?_resumed ht with ⟨rfl, rfl⟩ | ⟨hij, ht⟩
  · exact hnext
  · have hcompat : D.Compat r t.request :=
      hp.overlap i j _ t hij hget ht ⟨op, next, rfl⟩ hrunning
    exact meets_rely (hp.threads j t ht hrunning)
      (D.guar_rely i j _ _ _ _ _ hij hcompat hp.world hguar)

theorem holds_fault {p q : Pool S} {i : Nat} (hp : D.Holds p)
    (hallowed : Allowed p (Choice.fault i))
    (hstep : p.step (Choice.fault i) = some q) : D.Holds q := by
  rcases Pool.step_fault hstep with ⟨r, op, next, res, hget, hres, hworld, hthreads⟩
  have hsound : D.Sound i ⟨r, Program.call op next⟩ p.world :=
    hp.threads i _ hget ⟨op, next, rfl⟩
  have hinv : (D.setting i r).Inv p.world := by
    rw [D.inv_eq i r]
    exact hp.world
  refine ⟨by rw [hworld]; exact hp.world, ?_,
    by rw [hthreads]; exact D.overlap_resumed hp hget⟩
  intro j t ht hrunning
  rw [hthreads] at ht
  rw [hworld]
  rcases getElem?_resumed ht with ⟨rfl, rfl⟩ | ⟨_, ht⟩
  · exact (hsound p.world hinv ((D.setting _ r).refl _ hinv)).2
      (D.fault p _ r op next hallowed hget) res hres
  · exact hp.threads j t ht hrunning

theorem holds_env {p : Pool S} {e : S.Env} (hp : D.Holds p)
    (hallowed : Allowed p (Choice.env e)) :
    D.Holds { p with world := S.disturb e p.world } := by
  rcases D.env p e hallowed hp.world with ⟨hinv, hrely⟩
  exact ⟨hinv, fun i t ht hactive => meets_rely (hp.threads i t ht hactive) (hrely _ _),
    hp.overlap⟩

theorem holds_step {p q : Pool S} {c : Choice S} (hp : D.Holds p)
    (hallowed : Allowed p c) (hstep : p.step c = some q) : D.Holds q := by
  cases c with
  | spawn r =>
      cases hstep
      exact D.holds_spawn hp hallowed
  | exec i => exact D.holds_exec hp hallowed hstep
  | fault i => exact D.holds_fault hp hallowed hstep
  | env e =>
      cases hstep
      exact D.holds_env hp hallowed

/-- Requests that meet their guarantees do so throughout every run. -/
theorem holds_run {p q : Pool S} (hp : D.Holds p) (hrun : Pool.Run Allowed p q) :
    D.Holds q :=
  hrun.invariant D.Holds (fun _ _ _ h hallowed hstep => D.holds_step h hallowed hstep) hp

end Discipline

end Concurrency
end FleetServer
