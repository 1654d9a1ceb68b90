import FleetServer.Concurrency.Record

/-!
# Counting before adding

A request compares a count with a bound in one call and adds to what it counted
in a later one.  The bound stands as long as no other request adds in between.
-/

namespace FleetServer
namespace Concurrency

variable {Op : Type} {Res : Op -> Type} {S : Service Res} {alpha : Type}

/-- What is counted and its bound, which calls count and which add, and what
every call needs for the count to stay within the bound. -/
structure Quota (S : Service Res) where
  count : S.World -> Nat
  bound : S.World -> Nat
  counts : Op -> Bool
  adds : Op -> Bool
  Fits : Op -> S.World -> Prop
  bound_exec : forall op w, bound (S.machine.exec op w).2 = bound w
  count_exec : forall op w, count w ≤ bound w -> (adds op = true -> count w < bound w) ->
    Fits op w -> count (S.machine.exec op w).2 ≤ bound w
  bound_disturb : forall e w, bound (S.disturb e w) = bound w
  count_disturb : forall e w, count (S.disturb e w) ≤ count w

namespace Quota

/-- Whose counts another request has added to since. -/
def overtaking (Q : Quota S) : Recorder S (Nat -> Bool) where
  onCall := fun i _ op w v overtaken j =>
    if j = i then overtaken j && !Q.counts op
    else overtaken j || decide (Q.count w < Q.count v)

/-- A request that adds does so before any other one has added to what it
counted. -/
def inTime (Q : Quota S) (p : Pool S) (overtaken : Nat -> Bool) (c : Choice S) (q : Pool S) :
    Bool :=
  match p.caller? c with
  | some (i, _, op) =>
      !(Q.adds op && decide (Q.count p.world < Q.count q.world) && overtaken i)
  | none => true

variable {Q : Quota S}

theorem bound_outcome {op : Op} {w v : S.World} {a : Res op}
    (houtcome : Outcome S.machine op w a v) : Q.bound v = Q.bound w := by
  rcases outcome_cases houtcome with ⟨_, hv⟩ | ⟨_, hv⟩
  · rw [hv]
    exact Q.bound_exec op w
  · rw [hv]

theorem count_outcome {op : Op} {w v : S.World} {a : Res op} (hw : Q.count w ≤ Q.bound w)
    (houtcome : Outcome S.machine op w a v)
    (hgrows : Q.count w < Q.count v -> (Q.adds op = true -> Q.count w < Q.bound w) ∧
      Q.Fits op w) : Q.count v ≤ Q.bound v := by
  rw [bound_outcome houtcome]
  by_cases hlt : Q.count w < Q.count v
  · rcases outcome_cases houtcome with ⟨_, hv⟩ | ⟨_, hv⟩
    · rw [hv]
      exact Q.count_exec op w hw (hgrows hlt).1 (hgrows hlt).2
    · rw [hv] at hlt
      exact absurd hlt (Nat.lt_irrefl _)
  · exact Nat.le_trans (Nat.le_of_not_lt hlt) hw

/-- Others leave the bound alone, and as long as a request is not overtaken they
have not added. -/
def contract (Q : Quota S) : Contract Q.overtaking where
  Inv := fun x => Q.count x.1 ≤ Q.bound x.1
  Rely := fun i x y => Q.bound y.1 = Q.bound x.1 ∧
    (y.2 i = false -> x.2 i = false ∧ Q.count y.1 ≤ Q.count x.1)
  May := fun i _ op x v => Q.count x.1 < Q.count v ->
    (Q.adds op = true -> x.2 i = false) ∧ Q.Fits op x.1
  Guar := fun _ _ op x v => Q.count x.1 < Q.count v ->
    (Q.adds op = true -> Q.count x.1 < Q.bound x.1) ∧ Q.Fits op x.1
  refl := fun _ _ => ⟨rfl, fun h => ⟨h, Nat.le_refl _⟩⟩
  trans := fun _ _ _ _ hxy hyz => by
    refine ⟨hyz.1.trans hxy.1, fun h => ?_⟩
    have hy := hyz.2 h
    have hx := hxy.2 hy.1
    exact ⟨hx.1, Nat.le_trans hy.2 hx.2⟩
  inv_call := fun _ _ _ _ _ _ hinv houtcome hguar => count_outcome hinv houtcome hguar
  rely_call := fun i j _ op x _ v hij _ houtcome _ => by
    refine ⟨bound_outcome houtcome, fun h => ?_⟩
    have hnote : (x.2 j || decide (Q.count x.1 < Q.count v)) = false := by
      rw [← h]
      exact (if_neg (fun hji => hij hji.symm)).symm
    rw [Bool.or_eq_false_iff, decide_eq_false_iff_not] at hnote
    exact ⟨hnote.1, Nat.le_of_not_lt hnote.2⟩
  env := fun e x hinv => by
    have hle := Q.count_disturb e x.1
    constructor
    · show Q.count (S.disturb e x.1) ≤ Q.bound (S.disturb e x.1)
      rw [Q.bound_disturb]
      exact Nat.le_trans hle hinv
    · exact fun _ => ⟨Q.bound_disturb e x.1, fun h => ⟨h, hle⟩⟩

/-!
# Requests that count before they add
-/

variable {i : Nat} {request : S.Request} {x y : S.World × (Nat -> Bool)}

/-- As far as its request is not overtaken, there is room for one more. -/
def Room (Q : Quota S) (i : Nat) (x : S.World × (Nat -> Bool)) : Prop :=
  x.2 i = false -> Q.count x.1 < Q.bound x.1

theorem room_rely (hx : Q.Room i x) (hrely : Q.contract.Rely i x y) : Q.Room i y := by
  intro hy
  have hback := hrely.2 hy
  rw [hrely.1]
  exact Nat.lt_of_le_of_lt hback.2 (hx hback.1)

theorem room_call {op : Op} (hx : Q.Room i x) (hop : Q.counts op = false) :
    Q.Room i (x.1, Q.overtaking.onCall i request op x.1 x.1 x.2) := by
  intro h
  apply hx
  rw [← h]
  simp [overtaking, hop]

theorem obeys_of_none {prog : Program Res alpha}
    (h : Program.Uses (fun op => Q.adds op = false) prog) : Q.contract.Obeys i request prog x := by
  apply Contract.obeys_of_uses
  apply Program.uses_mono _ h
  intro op hop y a v _ hmay hgrows
  constructor
  · intro hadds
    rw [hop] at hadds
    cases hadds
  · exact (hmay hgrows).2

theorem obeys_read {op : Op} {next : Res op -> Program Res alpha}
    (hsame : forall w, (S.machine.exec op w).2 = w)
    (hnext : forall a y, Q.contract.Rely i x y -> Outcome S.machine op y.1 a y.1 ->
      Q.contract.Obeys i request (next a)
        (y.1, Q.overtaking.onCall i request op y.1 y.1 y.2)) :
    Q.contract.Obeys i request (Program.call op next) x := by
  intro y hinv hrely a v houtcome _
  have hv : v = y.1 := by
    rcases outcome_cases houtcome with ⟨_, hv⟩ | ⟨_, hv⟩
    · exact hv.trans (hsame y.1)
    · exact hv
  rw [hv] at houtcome ⊢
  constructor
  · exact fun hgrows => absurd hgrows (Nat.lt_irrefl _)
  · exact hnext a y hrely houtcome

theorem obeys_add {op : Op} {next : Res op -> Program Res alpha} (hx : Q.Room i x)
    (hnext : forall a, Program.Uses (fun op => Q.adds op = false) (next a)) :
    Q.contract.Obeys i request (Program.call op next) x := by
  intro y _ hrely a v _ hmay
  constructor
  · intro hgrows
    exact ⟨fun hadds => room_rely hx hrely ((hmay hgrows).1 hadds), (hmay hgrows).2⟩
  · exact obeys_of_none (hnext a)

/-!
# The bound
-/

/-- Requests that count before they add stay within the bound in every run in
which they add in time. -/
theorem count_le_bound {Allowed : Pool S -> (Nat -> Bool) -> Choice S -> Pool S -> Prop}
    {w : S.World} {start overtaken : Nat -> Bool} {q : Pool S}
    (hspawn : forall p note r q, Allowed p note (Choice.spawn r) q ->
      Q.contract.Obeys p.threads.length r (S.program p.threads.length r) (p.world, note))
    (htime : forall p note c q, Allowed p note c q -> Q.inTime p note c q = true)
    (hfits : forall p note c q op, Allowed p note c q -> p.call? c = some op ->
      Q.Fits op p.world)
    (hrun : Recorded Q.overtaking Allowed (Pool.init w) start q overtaken)
    (hw : Q.count w ≤ Q.bound w) : Q.count q.world ≤ Q.bound q.world := by
  have hholds := hrun.steps.holds Q.contract (fun p note r q h => hspawn p note r q h.1) ?_
    (Contract.holds_init hw)
  · exact hholds.inv
  · intro p note c q i request op hallowed hcaller hgrows
    constructor
    · intro hadds
      have hin := htime p note c q hallowed.1
      unfold inTime at hin
      rw [hcaller] at hin
      simpa [hadds, hgrows] using hin
    · cases c with
      | exec j => exact hfits p note _ q op hallowed.1 (Pool.call?_of_caller? hcaller)
      | fault j =>
          rcases Pool.step_fault hallowed.2 with ⟨_, _, _, _, _, _, hworld, _⟩
          rw [hworld] at hgrows
          exact absurd hgrows (Nat.lt_irrefl _)
      | spawn r => cases hcaller
      | env e => cases hcaller

end Quota

end Concurrency
end FleetServer
