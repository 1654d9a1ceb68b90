import FleetServer.Concurrency.Guarantee

/-!
# What comes into being at most once

Some calls bring a thing into being under a key.  When every request makes at
most one such call, under a key of its own, a key that was used is used up: once
the thing is gone, it stays gone.
-/

namespace FleetServer
namespace Concurrency

variable {Op : Type} {Res : Op -> Type} {alpha beta : Type} {K : Type}

namespace Program

/-!
# At most one birth
-/

/-- No call but one is a birth, and that one is of a key in `Own`. -/
def Bears (key : Op -> Option K) (Own : K -> Prop) : Program Res alpha -> Prop
  | done _ => True
  | call op next =>
      (key op = none ∧ forall r, Bears key Own (next r)) ∨
        ((exists k, key op = some k ∧ Own k) ∧ forall r, Uses (fun op => key op = none) (next r))

variable {key : Op -> Option K} {Own : K -> Prop} {k : K}

theorem bears_of_uses {p : Program Res alpha} (h : Uses (fun op => key op = none) p) :
    Bears key Own p := by
  induction p with
  | done a => trivial
  | call op next ih => exact Or.inl ⟨h.1, fun r => ih r (h.2 r)⟩

/-- What comes before the birth is no birth. -/
theorem bears_bind {p : Program Res alpha} {f : alpha -> Program Res beta}
    (hp : Uses (fun op => key op = none) p) (hf : forall a, Bears key Own (f a)) :
    Bears key Own (p >>= f) := by
  induction p with
  | done a => exact hf a
  | call op next ih => exact Or.inl ⟨hp.1, fun r => ih r (hp.2 r)⟩

/-- What comes after the birth is no birth. -/
theorem bears_before {p : Program Res alpha} {f : alpha -> Program Res beta}
    (hp : Bears key Own p) (hf : forall a, Uses (fun op => key op = none) (f a)) :
    Bears key Own (p >>= f) := by
  induction p with
  | done a => exact bears_of_uses (hf a)
  | call op next ih =>
      rcases hp with hnone | hsome
      · exact Or.inl ⟨hnone.1, fun r => ih r (hnone.2 r)⟩
      · exact Or.inr ⟨hsome.1, fun r => uses_bind (hsome.2 r) hf⟩

theorem bears_next {op : Op} {next : Res op -> Program Res alpha}
    (h : Bears key Own (call op next)) (r : Res op) : Bears key Own (next r) := by
  rcases h with hnone | hsome
  · exact hnone.2 r
  · exact bears_of_uses (hsome.2 r)

theorem bears_mono {Own' : K -> Prop} (hown : forall k, Own k -> Own' k) {p : Program Res alpha}
    (h : Bears key Own p) : Bears key Own' p := by
  induction p with
  | done a => trivial
  | call op next ih =>
      rcases h with hnone | ⟨⟨k, hk, hok⟩, hrest⟩
      · exact Or.inl ⟨hnone.1, fun r => ih r (hnone.2 r)⟩
      · exact Or.inr ⟨⟨k, hk, hown k hok⟩, hrest⟩

theorem uses_own {p : Program Res alpha} (h : Bears key Own p) :
    Uses (fun op => forall k, key op = some k -> Own k) p := by
  induction p with
  | done a => trivial
  | call op next ih =>
      constructor
      · intro k hop
        rcases h with hnone | ⟨⟨k', hk', hown⟩, _⟩
        · rw [hnone.1] at hop
          cases hop
        · rw [hk'] at hop
          cases hop
          exact hown
      · exact fun r => ih r (bears_next h r)

theorem uses_of_bears {p : Program Res alpha} (h : Bears key Own p) (hk : ¬ Own k) :
    Uses (fun op => key op ≠ some k) p := by
  apply uses_mono _ (uses_own h)
  exact fun op hown hop => hk (hown k hop)

theorem uses_after_birth {op : Op} {next : Res op -> Program Res alpha}
    (h : Bears key Own (call op next)) (hop : key op = some k) (r : Res op) :
    Own k ∧ Uses (fun op => key op = none) (next r) := by
  rcases h with hnone | hsome
  · rw [hnone.1] at hop
    cases hop
  · rcases hsome.1 with ⟨k', hk', hown⟩
    rw [hk'] at hop
    cases hop
    exact ⟨hown, hsome.2 r⟩

end Program

/-!
# Keys that are used up
-/

namespace Pool

variable {S : Service Res} {Allowed : Pool S -> Choice S -> Prop}

/-- What the requests of a service bring into being, and where it shows. -/
structure Births (S : Service Res) (K : Type) where
  key : Op -> Option K
  /-- The keys of the n-th request. -/
  Own : Nat -> K -> Prop
  Present : K -> S.World -> Prop

variable (B : Births S K)

/-- No request will bear `k`, whether it was started yet or not. -/
structure Spent (k : K) (p : Pool S) : Prop where
  started : forall t, t ∈ p.threads -> Program.Uses (fun op => B.key op ≠ some k) t.rest
  coming : forall n, p.threads.length ≤ n -> ¬ B.Own n k

/-- Requests keep to their own keys, and nothing shows that was not born. -/
structure Births.Lawful (B : Births S K) (Allowed : Pool S -> Choice S -> Prop) : Prop where
  disjoint : forall m n k, B.Own m k -> B.Own n k -> m = n
  bears : forall p r, Allowed p (Choice.spawn r) ->
    Program.Bears B.key (B.Own p.threads.length) (S.program p.threads.length r)
  exec : forall op w k, B.Present k (S.machine.exec op w).2 ->
    B.Present k w ∨ B.key op = some k
  env : forall e w k, B.Present k (S.disturb e w) -> B.Present k w

structure Keyed (p : Pool S) : Prop where
  bears : forall (i : Nat) (t : Thread S), p.threads[i]? = some t ->
    Program.Bears B.key (B.Own i) t.rest
  spent : forall k, B.Present k p.world -> Spent B k p

variable {B}

theorem spent_set {p q : Pool S} {k : K} {i : Nat} {u : Thread S} (h : Spent B k p)
    (hu : Program.Uses (fun op => B.key op ≠ some k) u.rest)
    (hthreads : q.threads = p.threads.set i u) : Spent B k q := by
  constructor
  · intro t ht
    rw [hthreads] at ht
    rcases List.mem_or_eq_of_mem_set ht with ht | ht
    · exact h.started t ht
    · rw [ht]
      exact hu
  · rw [hthreads, List.length_set]
    exact h.coming

/-- What is used up stays used up. -/
theorem spent_step {p q : Pool S} {c : Choice S} {k : K} (hlaws : B.Lawful Allowed)
    (h : Spent B k p) (hallowed : Allowed p c) (hstep : p.step c = some q) : Spent B k q := by
  cases c with
  | spawn r =>
      cases hstep
      constructor
      · intro t ht
        rcases List.mem_append.mp ht with ht | ht
        · exact h.started t ht
        · rw [List.mem_singleton.mp ht]
          exact Program.uses_of_bears (hlaws.bears p r hallowed) (h.coming _ (Nat.le_refl _))
      · intro n hn
        rw [List.length_append] at hn
        exact h.coming n (by omega)
  | exec i =>
      rcases step_exec hstep with ⟨request, op, next, hget, _, hthreads⟩
      have huses := h.started _ (List.mem_of_getElem? hget)
      exact spent_set h (huses.2 _) hthreads
  | fault i =>
      rcases step_fault hstep with ⟨request, op, next, r, hget, _, _, hthreads⟩
      have huses := h.started _ (List.mem_of_getElem? hget)
      exact spent_set h (huses.2 r) hthreads
  | env e =>
      cases hstep
      exact ⟨h.started, h.coming⟩

theorem spent_of_birth {p q : Pool S} {i : Nat} {request : S.Request} {op : Op}
    {next : Res op -> Program Res S.Response} {r : Res op} {k : K} (hlaws : B.Lawful Allowed)
    (h : Keyed B p) (hget : p.threads[i]? = some ⟨request, Program.call op next⟩)
    (hop : B.key op = some k) (hthreads : q.threads = p.threads.set i ⟨request, next r⟩) :
    Spent B k q := by
  rcases Program.uses_after_birth (h.bears i _ hget) hop r with ⟨hk, hrest⟩
  constructor
  · intro t ht
    rw [hthreads] at ht
    rcases List.mem_iff_getElem?.mp ht with ⟨j, hj⟩
    rcases Discipline.getElem?_resumed hj with ⟨_, hnew⟩ | ⟨hij, hold⟩
    · rw [hnew]
      apply Program.uses_mono _ hrest
      intro op hnone
      rw [hnone]
      intro hsome
      cases hsome
    · apply Program.uses_of_bears (h.bears j t hold)
      exact fun hown => hij (hlaws.disjoint i j k hk hown)
  · intro n hn
    rw [hthreads, List.length_set] at hn
    intro hown
    have hlt := (List.getElem?_eq_some_iff.mp hget).1
    have hni := hlaws.disjoint n i k hown hk
    omega

theorem bears_step {p q : Pool S} {c : Choice S} (hlaws : B.Lawful Allowed) (h : Keyed B p)
    (hallowed : Allowed p c) (hstep : p.step c = some q) {j : Nat} {t : Thread S}
    (hj : q.threads[j]? = some t) : Program.Bears B.key (B.Own j) t.rest := by
  cases c with
  | spawn r =>
      cases hstep
      rcases Discipline.getElem?_spawned hj with hold | ⟨hlength, hnew⟩
      · exact h.bears j t hold
      · rw [hlength, hnew]
        exact hlaws.bears p r hallowed
  | exec i =>
      rcases step_exec hstep with ⟨request, op, next, hget, _, hthreads⟩
      rw [hthreads] at hj
      rcases Discipline.getElem?_resumed hj with ⟨hij, ht⟩ | ⟨_, hold⟩
      · rw [hij, ht]
        exact Program.bears_next (h.bears i _ hget) _
      · exact h.bears j t hold
  | fault i =>
      rcases step_fault hstep with ⟨request, op, next, r, hget, _, _, hthreads⟩
      rw [hthreads] at hj
      rcases Discipline.getElem?_resumed hj with ⟨hij, ht⟩ | ⟨_, hold⟩
      · rw [hij, ht]
        exact Program.bears_next (h.bears i _ hget) r
      · exact h.bears j t hold
  | env e =>
      cases hstep
      exact h.bears j t hj

theorem keyed_step {p q : Pool S} {c : Choice S} (hlaws : B.Lawful Allowed) (h : Keyed B p)
    (hallowed : Allowed p c) (hstep : p.step c = some q) : Keyed B q := by
  constructor
  · exact fun j t hj => bears_step hlaws h hallowed hstep hj
  · intro k hk
    have hkept : B.Present k p.world -> Spent B k q :=
      fun hbefore => spent_step hlaws (h.spent k hbefore) hallowed hstep
    cases c with
    | spawn r =>
        cases hstep
        exact hkept hk
    | exec i =>
        rcases step_exec hstep with ⟨request, op, next, hget, hworld, hthreads⟩
        rw [hworld] at hk
        rcases hlaws.exec op p.world k hk with hbefore | hborn
        · exact hkept hbefore
        · exact spent_of_birth hlaws h hget hborn hthreads
    | fault i =>
        rcases step_fault hstep with ⟨_, _, _, _, _, _, hworld, _⟩
        rw [hworld] at hk
        exact hkept hk
    | env e =>
        cases hstep
        exact hkept (hlaws.env e p.world k hk)

/-!
# Runs
-/

/-- No request will bear what was there before the first of them. -/
theorem keyed_init {w : S.World} (hfresh : forall n k, B.Own n k -> ¬ B.Present k w) :
    Keyed B (Pool.init w : Pool S) := by
  constructor
  · intro i t hget
    cases hget
  · intro k hk
    constructor
    · exact fun t ht => absurd ht List.not_mem_nil
    · exact fun n _ hown => hfresh n k hown hk

variable {p q : Pool S}

theorem Run.keyed (hlaws : B.Lawful Allowed) (hrun : Run Allowed p q) (hp : Keyed B p) :
    Keyed B q :=
  hrun.invariant (Keyed B) (fun _ _ _ h hallowed hstep => keyed_step hlaws h hallowed hstep) hp

theorem Run.spent {k : K} (hlaws : B.Lawful Allowed) (hrun : Run Allowed p q)
    (hp : Spent B k p) : Spent B k q :=
  hrun.invariant (Spent B k) (fun _ _ _ h hallowed hstep => spent_step hlaws h hallowed hstep) hp

theorem Run.gone {k : K} (hlaws : B.Lawful Allowed) (hrun : Run Allowed p q)
    (hspent : Spent B k p) (hgone : ¬ B.Present k p.world) :
    Spent B k q ∧ ¬ B.Present k q.world := by
  apply hrun.invariant (fun p => Spent B k p ∧ ¬ B.Present k p.world) _ ⟨hspent, hgone⟩
  intro p c q h hallowed hstep
  refine ⟨spent_step hlaws h.1 hallowed hstep, ?_⟩
  rcases step_world hstep with hworld | ⟨op, hcall, hworld⟩ | ⟨e, _, hworld⟩
  · rw [hworld]
    exact h.2
  · rw [hworld]
    intro hk
    rcases hlaws.exec op p.world k hk with hbefore | hborn
    · exact h.2 hbefore
    · rcases exists_of_call? hcall with ⟨i, request, next, _, hget⟩
      exact (h.1.started _ (List.mem_of_getElem? hget)).1 hborn
  · rw [hworld]
    exact fun hk => h.2 (hlaws.env e p.world k hk)

/-!
# Requests started later

What holds of a request when it starts, is kept by every step of others, and by
every answer it may be given, holds of every request started on the way.  It may
rest on what holds of the pool, as long as every step keeps that too.
-/

theorem Run.started_after {I : Pool S -> Prop}
    {G : Pool S -> Nat -> S.Request -> Program Res S.Response -> Prop}
    (hspawn : forall r request, Run Allowed p r -> I r -> Allowed r (Choice.spawn request) ->
      G r r.threads.length request (S.program r.threads.length request))
    (hstep : forall r c r' i request rest, Allowed r c -> r.step c = some r' ->
      G r i request rest -> G r' i request rest)
    (hnext : forall r i request op next a, Run Allowed p r -> I r ->
      r.threads[i]? = some ⟨request, Program.call op next⟩ ->
      G r i request (Program.call op next) ->
      a = (S.machine.exec op r.world).1 ∨ S.machine.fault op = some a -> G r i request (next a))
    (hkeeps : forall r c r', Run Allowed p r -> I r -> Allowed r c -> r.step c = some r' ->
      (forall (i : Nat) (t : Thread S), p.threads.length ≤ i -> r.threads[i]? = some t ->
        G r i t.request t.rest) -> I r')
    (hbegin : I p) (hrun : Run Allowed p q) :
    p.threads.length ≤ q.threads.length ∧ I q ∧
      forall (i : Nat) (t : Thread S), p.threads.length ≤ i -> q.threads[i]? = some t ->
        G q i t.request t.rest := by
  induction hrun with
  | refl =>
      refine ⟨Nat.le_refl _, hbegin, ?_⟩
      intro i t hi hget
      have hlt := (List.getElem?_eq_some_iff.mp hget).1
      omega
  | @tail q r c hpre hallowed hs ih =>
      have hkept : forall (i : Nat) (request : S.Request) (rest : Program Res S.Response),
          G q i request rest -> G r i request rest :=
        fun i request rest => hstep q c r i request rest hallowed hs
      have hI := hkeeps q c r hpre ih.2.1 hallowed hs ih.2.2
      cases c with
      | spawn request =>
          cases hs
          refine ⟨?_, hI, ?_⟩
          · rw [List.length_append]
            omega
          · intro i t hi hget
            rcases Discipline.getElem?_spawned hget with hold | ⟨hlength, hnew⟩
            · exact hkept i _ _ (ih.2.2 i t hi hold)
            · rw [hlength, hnew]
              exact hkept _ _ _ (hspawn q request hpre ih.2.1 hallowed)
      | exec j =>
          rcases step_exec hs with ⟨request, op, next, hget, _, hthreads⟩
          rw [hthreads, List.length_set]
          refine ⟨ih.1, hI, ?_⟩
          intro i t hi hset
          rcases Discipline.getElem?_resumed hset with ⟨hij, ht⟩ | ⟨_, hold⟩
          · rw [ht]
            rw [← hij] at hget
            exact hkept i _ _
              (hnext q i request op next _ hpre ih.2.1 hget (ih.2.2 i _ hi hget) (Or.inl rfl))
          · exact hkept i _ _ (ih.2.2 i t hi hold)
      | fault j =>
          rcases step_fault hs with ⟨request, op, next, a, hget, ha, _, hthreads⟩
          rw [hthreads, List.length_set]
          refine ⟨ih.1, hI, ?_⟩
          intro i t hi hset
          rcases Discipline.getElem?_resumed hset with ⟨hij, ht⟩ | ⟨_, hold⟩
          · rw [ht]
            rw [← hij] at hget
            exact hkept i _ _
              (hnext q i request op next a hpre ih.2.1 hget (ih.2.2 i _ hi hget) (Or.inr ha))
          · exact hkept i _ _ (ih.2.2 i t hi hold)
      | env e =>
          cases hs
          exact ⟨ih.1, hI, fun i t hi hget => hkept i _ _ (ih.2.2 i t hi hget)⟩

end Pool

namespace Program

/-!
# Programs over part of a machine

A program over some operations is one over more of them.
-/

variable {Part : Type}

def embed (f : Part -> Op) : Program (fun op => Res (f op)) alpha -> Program Res alpha
  | done a => done a
  | call op next => call (f op) fun r => embed f (next r)

variable {f : Part -> Op}

@[simp] theorem embed_done (a : alpha) :
    embed f (done a : Program (fun op => Res (f op)) alpha) = done a := rfl

@[simp] theorem embed_call (op : Part) (next : Res (f op) -> Program (fun op => Res (f op)) alpha) :
    embed f (call op next : Program (fun op => Res (f op)) alpha) =
      (call (f op) fun r => embed f (next r) : Program Res alpha) := rfl

theorem uses_embed {P : Op -> Prop} {p : Program (fun op => Res (f op)) alpha}
    (h : Uses (fun op => P (f op)) p) : Uses P (embed f p : Program Res alpha) := by
  induction p with
  | done a => trivial
  | call op next ih => exact ⟨h.1, fun r => ih r (h.2 r)⟩

theorem bears_embed {key : Op -> Option K} {Own : K -> Prop}
    {p : Program (fun op => Res (f op)) alpha} (h : Bears (fun op => key (f op)) Own p) :
    Bears key Own (embed f p : Program Res alpha) := by
  induction p with
  | done a => trivial
  | call op next ih =>
      rcases h with hnone | hsome
      · exact Or.inl ⟨hnone.1, fun r => ih r (hnone.2 r)⟩
      · exact Or.inr ⟨hsome.1, fun r => uses_embed (hsome.2 r)⟩

end Program

end Concurrency
end FleetServer
