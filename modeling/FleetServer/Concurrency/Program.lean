import Mathlib.Logic.Basic
import Mathlib.Tactic.Common

/-!
# Programs over atomic calls

A program is a tree of calls.  Each call names one operation of a machine and
continues with the result that operation returned.  The machine says what an
operation does to the shared world in one atomic step, and what a caller sees
when the operation fails without having done anything.

Nothing here depends on what the operations are.
-/

namespace FleetServer
namespace Concurrency

/-- A terminating caller of operations `Op`, where `op` answers in `Res op`. -/
inductive Program {Op : Type} (Res : Op -> Type) (alpha : Type) where
  | done (a : alpha)
  | call (op : Op) (next : Res op -> Program Res alpha)

/-- The atomic meaning of operations on a shared world. -/
structure Machine {Op : Type} (Res : Op -> Type) where
  World : Type
  exec : (op : Op) -> World -> Res op × World
  fault : (op : Op) -> Option (Res op)

namespace Program

variable {Op : Type} {Res : Op -> Type} {alpha beta gamma : Type}

/-!
# Sequencing
-/

def bind : Program Res alpha -> (alpha -> Program Res beta) -> Program Res beta
  | done a, f => f a
  | call op next, f => call op (fun r => bind (next r) f)

instance : Monad (Program Res) where
  pure := done
  bind := bind

@[simp] theorem pure_eq (a : alpha) :
    (pure a : Program Res alpha) = done a := rfl

@[simp] theorem done_bind (a : alpha) (f : alpha -> Program Res beta) :
    (done a >>= f) = f a := rfl

@[simp] theorem call_bind (op : Op) (next : Res op -> Program Res alpha)
    (f : alpha -> Program Res beta) :
    (call op next >>= f) = call op (fun r => next r >>= f) := rfl

theorem bind_assoc (p : Program Res alpha) (f : alpha -> Program Res beta)
    (g : beta -> Program Res gamma) :
    (p >>= f >>= g) = (p >>= fun a => f a >>= g) := by
  induction p with
  | done a => rfl
  | call op next ih =>
      rw [call_bind, call_bind, call_bind]
      exact congrArg (call op) (funext ih)

/-- A single call, answering with what the operation returned. -/
def perform (op : Op) : Program Res (Res op) :=
  call op done

@[simp] theorem perform_bind (op : Op) (f : Res op -> Program Res beta) :
    (perform op >>= f) = call op f := rfl

/-!
# Which operations a program may call
-/

/-- Every call the program can make satisfies `P`. -/
def Uses (P : Op -> Prop) : Program Res alpha -> Prop
  | done _ => True
  | call op next => P op ∧ forall r, Uses P (next r)

@[simp] theorem uses_done (P : Op -> Prop) (a : alpha) :
    Uses P (done a : Program Res alpha) := trivial

@[simp] theorem uses_call {P : Op -> Prop} {op : Op}
    {next : Res op -> Program Res alpha} :
    Uses P (call op next) <-> P op ∧ forall r, Uses P (next r) := Iff.rfl

theorem uses_perform {P : Op -> Prop} {op : Op} (hop : P op) :
    Uses P (perform op : Program Res (Res op)) :=
  ⟨hop, fun _ => trivial⟩

theorem uses_bind {P : Op -> Prop} {p : Program Res alpha}
    {f : alpha -> Program Res beta} (hp : Uses P p) (hf : forall a, Uses P (f a)) :
    Uses P (p >>= f) := by
  induction p with
  | done a => exact hf a
  | call op next ih => exact ⟨hp.1, fun r => ih r (hp.2 r)⟩

theorem uses_mono {P Q : Op -> Prop} (hpq : forall op, P op -> Q op)
    {p : Program Res alpha} (hp : Uses P p) : Uses Q p := by
  induction p with
  | done a => trivial
  | call op next ih => exact ⟨hpq op hp.1, fun r => ih r (hp.2 r)⟩

/-!
# Obligations

A program owes `P` when it calls an operation in `P` before it can finish,
as long as every call on the way there answers within `Ok`.
-/

def Owes (P : Op -> Prop) (Ok : (op : Op) -> Res op -> Prop) :
    Program Res alpha -> Prop
  | done _ => False
  | call op next => P op ∨ forall r, Ok op r -> Owes P Ok (next r)

variable {P : Op -> Prop} {Ok : (op : Op) -> Res op -> Prop}

@[simp] theorem owes_done (a : alpha) :
    Owes P Ok (done a : Program Res alpha) <-> False := Iff.rfl

@[simp] theorem owes_call {op : Op} {next : Res op -> Program Res alpha} :
    Owes P Ok (call op next) <->
      P op ∨ forall r, Ok op r -> Owes P Ok (next r) := Iff.rfl

/-!
# Running alone
-/

/-- Run a program with no one else around and no fault. -/
def run (M : Machine Res) : Program Res alpha -> M.World -> alpha × M.World
  | done a, w => (a, w)
  | call op next, w => run M (next (M.exec op w).1) (M.exec op w).2

variable {M : Machine Res}

@[simp] theorem run_done (a : alpha) (w : M.World) :
    run M (done a) w = (a, w) := rfl

@[simp] theorem run_call (op : Op) (next : Res op -> Program Res alpha)
    (w : M.World) :
    run M (call op next) w = run M (next (M.exec op w).1) (M.exec op w).2 := rfl

theorem run_bind (p : Program Res alpha) (f : alpha -> Program Res beta)
    (w : M.World) :
    run M (p >>= f) w = run M (f (run M p w).1) (run M p w).2 := by
  induction p generalizing w with
  | done a => rfl
  | call op next ih => exact ih _ _

end Program

end Concurrency
end FleetServer
