import FleetServer.Concurrency.Alone
import FleetServer.Concurrency.Pool

/-!
# Requests one after another

Requests that do not overlap, each of which may be cut off before any of its
calls and may see any call fail.  `CutOff` says at which calls either may
happen.  Between two requests the surroundings change the world within
`Between`.
-/

namespace FleetServer
namespace Concurrency

variable {Op : Type} {Res : Op -> Type} {alpha beta : Type}

/-- From `w`, the program gets as far as `v`. -/
inductive Attempt (M : Machine Res) (CutOff : Op -> M.World -> Prop) :
    Program Res alpha -> M.World -> M.World -> Prop where
  | done (a : alpha) (w : M.World) : Attempt M CutOff (Program.done a) w w
  | stop {op : Op} {next : Res op -> Program Res alpha} {w : M.World} :
      CutOff op w -> Attempt M CutOff (Program.call op next) w w
  | exec {op : Op} {next : Res op -> Program Res alpha} {w v : M.World} :
      Attempt M CutOff (next (M.exec op w).1) (M.exec op w).2 v ->
        Attempt M CutOff (Program.call op next) w v
  | fault {op : Op} {next : Res op -> Program Res alpha} {w v : M.World} {r : Res op} :
      CutOff op w -> M.fault op = some r -> Attempt M CutOff (next r) w v ->
        Attempt M CutOff (Program.call op next) w v

/-- Where the first `k` calls lead. -/
def worldAfter (M : Machine Res) : Nat -> Program Res alpha -> M.World -> M.World
  | 0, _, w => w
  | _ + 1, Program.done _, w => w
  | k + 1, Program.call op next, w =>
      worldAfter M k (next (M.exec op w).1) (M.exec op w).2

theorem attempt_worldAfter (M : Machine Res) (k : Nat) (p : Program Res alpha)
    (w : M.World) : Attempt M (fun _ _ => True) p w (worldAfter M k p w) := by
  induction k generalizing p w with
  | zero =>
      cases p with
      | done a => exact Attempt.done a w
      | call op next => exact Attempt.stop trivial
  | succ k ih =>
      cases p with
      | done a => exact Attempt.done a w
      | call op next => exact Attempt.exec (ih _ _)

/-- Undisturbed, a program gets to its end. -/
theorem attempt_run (M : Machine Res) {CutOff : Op -> M.World -> Prop}
    (p : Program Res alpha) (w : M.World) : Attempt M CutOff p w (p.run M w).2 := by
  induction p generalizing w with
  | done a => exact Attempt.done a w
  | call op next ih => exact Attempt.exec (ih _ _)

/-- The first `n` requests of a sequence lead from `w` to the last world. -/
inductive Sequence (S : Service Res) (Allowed : S.Request -> Prop)
    (CutOff : Op -> S.World -> Prop) (Between : S.World -> S.World -> Prop) (w : S.World) :
    Nat -> S.World -> Prop where
  | start : Sequence S Allowed CutOff Between w 0 w
  | between {n : Nat} {v u : S.World} :
      Sequence S Allowed CutOff Between w n v -> Between v u ->
        Sequence S Allowed CutOff Between w n u
  | request {n : Nat} {v u : S.World} {r : S.Request} :
      Sequence S Allowed CutOff Between w n v -> Allowed r ->
        Attempt S.machine CutOff (S.program n r) v u ->
          Sequence S Allowed CutOff Between w (n + 1) u

/-!
# Safety of one request
-/

variable {M : Machine Res} {CutOff : Op -> M.World -> Prop} {Inv : M.World -> Prop}

/-- `Inv` holds wherever the program may be cut off, and `Post` when it ends. -/
def Safe (M : Machine Res) (CutOff : Op -> M.World -> Prop) (Inv : M.World -> Prop)
    (Post : alpha -> M.World -> Prop) : Program Res alpha -> M.World -> Prop
  | Program.done a, w => Post a w
  | Program.call op next, w =>
      (CutOff op w -> Inv w ∧
        forall r, M.fault op = some r -> Safe M CutOff Inv Post (next r) w) ∧
      Safe M CutOff Inv Post (next (M.exec op w).1) (M.exec op w).2

variable {Post : alpha -> M.World -> Prop} {p : Program Res alpha} {w : M.World}

theorem safe_attempt {v : M.World} (hpost : forall a u, Post a u -> Inv u)
    (hsafe : Safe M CutOff Inv Post p w) (h : Attempt M CutOff p w v) : Inv v := by
  induction h with
  | done a w => exact hpost a w hsafe
  | stop hcut => exact (hsafe.1 hcut).1
  | exec _ ih => exact ih hsafe.2
  | fault hcut hr _ ih => exact ih ((hsafe.1 hcut).2 _ hr)

theorem safe_run (hsafe : Safe M CutOff Inv Post p w) : Post (p.run M w).1 (p.run M w).2 := by
  induction p generalizing w with
  | done a => exact hsafe
  | call op next ih => exact ih _ hsafe.2

theorem safe_mono {Post' : alpha -> M.World -> Prop} (hpost : forall a u, Post a u -> Post' a u)
    (hsafe : Safe M CutOff Inv Post p w) : Safe M CutOff Inv Post' p w := by
  induction p generalizing w with
  | done a => exact hpost a w hsafe
  | call op next ih =>
      refine ⟨fun hcut => ⟨(hsafe.1 hcut).1, fun r hr => ?_⟩, ih _ hsafe.2⟩
      exact ih r ((hsafe.1 hcut).2 r hr)

theorem safe_weaken {Inv' : M.World -> Prop} (hinv : forall u, Inv u -> Inv' u)
    (hsafe : Safe M CutOff Inv Post p w) : Safe M CutOff Inv' Post p w := by
  induction p generalizing w with
  | done a => exact hsafe
  | call op next ih =>
      refine ⟨fun hcut => ⟨hinv w (hsafe.1 hcut).1, fun r hr => ?_⟩, ih _ hsafe.2⟩
      exact ih r ((hsafe.1 hcut).2 r hr)

theorem safe_bind {Post' : beta -> M.World -> Prop} {f : alpha -> Program Res beta}
    (hp : Safe M CutOff Inv Post p w) (hf : forall a u, Post a u -> Safe M CutOff Inv Post' (f a) u)
    :
    Safe M CutOff Inv Post' (p >>= f) w := by
  induction p generalizing w with
  | done a => exact hf a w hp
  | call op next ih =>
      refine ⟨fun hcut => ⟨(hp.1 hcut).1, fun r hr => ?_⟩, ih _ hp.2⟩
      exact ih r ((hp.1 hcut).2 r hr)

/-- A call that may be made, fail or be cut off in `w`. -/
theorem safe_call {op : Op} {next : Res op -> Program Res alpha} (hw : Inv w)
    (hexec : Safe M CutOff Inv Post (next (M.exec op w).1) (M.exec op w).2)
    (hfault : forall r, M.fault op = some r -> Safe M CutOff Inv Post (next r) w) :
    Safe M CutOff Inv Post (Program.call op next) w :=
  ⟨fun _ => ⟨hw, hfault⟩, hexec⟩

/-- What every call keeps holds throughout every program. -/
theorem safe_of_exec (hexec : forall op u, Inv u -> Inv (M.exec op u).2) (hw : Inv w) :
    Safe M CutOff Inv (fun _ => Inv) p w := by
  induction p generalizing w with
  | done a => exact hw
  | call op next ih => exact safe_call hw (ih _ (hexec op w hw)) (fun r _ => ih r hw)

/-- Two things that hold throughout hold together. -/
theorem safe_and {Inv' : M.World -> Prop} {Post' : alpha -> M.World -> Prop}
    (hsafe : Safe M CutOff Inv Post p w) (hsafe' : Safe M CutOff Inv' Post' p w) :
    Safe M CutOff (fun u => Inv u ∧ Inv' u) (fun a u => Post a u ∧ Post' a u) p w := by
  induction p generalizing w with
  | done a => exact ⟨hsafe, hsafe'⟩
  | call op next ih =>
      constructor
      · intro hcut
        have hleft := hsafe.1 hcut
        have hright := hsafe'.1 hcut
        exact ⟨⟨hleft.1, hright.1⟩, fun r hr => ih r (hleft.2 r hr) (hright.2 r hr)⟩
      · exact ih _ hsafe.2 hsafe'.2

/-- A program whose calls keep what is known of the world answers as it is bound
to, and what was known still holds. -/
theorem safe_of_uses {Known : M.World -> Prop} {Q : alpha -> Prop}
    (hinv : forall u, Known u -> Inv u)
    (hp : Program.Uses (fun op => forall u, Known u -> Known (M.exec op u).2) p)
    (hends : Program.Ends Q p) (hw : Known w) :
    Safe M CutOff Inv (fun a u => Q a ∧ Known u) p w := by
  induction p generalizing w with
  | done a => exact ⟨hends, hw⟩
  | call op next ih =>
      exact safe_call (hinv w hw) (ih _ (hp.2 _) (hends _) (hp.1 w hw))
        (fun r _ => ih r (hp.2 r) (hends r) hw)

theorem safe_of_reads {Q : alpha -> Prop} (hw : Inv w)
    (hreads : Program.Uses (fun op => (M.exec op w).2 = w) p) (hends : Program.EndsGiven
      (fun op r => (M.exec op w).1 = r ∨ M.fault op = some r) Q p) :
    Safe M CutOff Inv (fun a u => Q a ∧ u = w) p w := by
  induction p with
  | done a => exact ⟨hends, rfl⟩
  | call op next ih =>
      apply safe_call hw
      · rw [hreads.1]
        exact ih _ (hreads.2 _) (hends _ (Or.inl rfl))
      · intro r hr
        exact ih r (hreads.2 r) (hends r (Or.inr hr))

/-!
# Safety of a sequence
-/

/-- What the n-th request takes from `Inv n` to `Inv (n + 1)`, wherever it is
cut off, holds throughout a sequence. -/
theorem Sequence.invariant {S : Service Res} {Allowed : S.Request -> Prop}
    {CutOff : Op -> S.World -> Prop} {Between : S.World -> S.World -> Prop}
    (Inv : Nat -> S.World -> Prop) {w v : S.World} {n : Nat}
    (hrequest : forall n r u, Allowed r -> Inv n u ->
      Safe S.machine CutOff (Inv (n + 1)) (fun _ => Inv (n + 1)) (S.program n r) u)
    (hbetween : forall n u u', Between u u' -> Inv n u -> Inv n u')
    (h : Sequence S Allowed CutOff Between w n v) (hw : Inv 0 w) : Inv n v := by
  induction h with
  | start => exact hw
  | between _ hstep ih => exact hbetween _ _ _ hstep ih
  | request _ hallowed hattempt ih =>
      exact safe_attempt (fun _ _ h => h) (hrequest _ _ _ hallowed ih) hattempt

end Concurrency
end FleetServer
