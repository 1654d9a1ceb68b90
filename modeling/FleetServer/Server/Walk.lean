import FleetServer.Concurrency.Guarantee
import FleetServer.Concurrency.Sequence
import FleetServer.Server.Frame
import FleetServer.Server.Response

/-!
# Walking through a request

Rules for the shapes handlers are written in: ask or stop, execute or stop,
execute and go on, check and go on.
-/

namespace FleetServer
namespace Server

open Storage
open Concurrency

/-!
# Which calls a request makes
-/

section Uses

variable {P : Op -> Prop} {alpha beta : Type}

theorem uses_askOr {q : Query} {failed : beta} {next : q.Answer -> Prog beta}
    (hq : P (Op.query q)) (hnext : forall a, Program.Uses P (next a)) :
    Program.Uses P (askOr q failed next) := by
  refine ⟨hq, fun r => ?_⟩
  cases r with
  | ok answer => exact hnext answer
  | error e => trivial

theorem uses_executeOr {s : Statement} {failed : beta} {next : s.Answer -> Prog beta}
    (hs : P (Op.statement s)) (hnext : forall a, Program.Uses P (next a)) :
    Program.Uses P (executeOr s failed next) := by
  refine ⟨hs, fun r => ?_⟩
  cases r with
  | ok answer => exact hnext answer
  | error e => trivial

theorem uses_performThen {op : Op} {f : op.Res -> Prog beta} (hop : P op)
    (hf : forall r, Program.Uses P (f r)) : Program.Uses P (Program.perform op >>= f) :=
  ⟨hop, hf⟩

theorem uses_guarded {check : Except Response alpha} {next : alpha -> Prog Response}
    (hnext : forall a, Program.Uses P (next a)) :
    Program.Uses P (guarded check next) := by
  cases check with
  | ok a => exact hnext a
  | error refused => trivial

/-!
## Until the answer is foregone
-/

variable {P' : (op : Op) -> op.Res -> Prop} {Q : beta -> Prop}

theorem ends_askOr {q : Query} {failed : beta} {next : q.Answer -> Prog beta}
    (hfailed : Q failed) (hnext : forall a, Program.Ends Q (next a)) :
    Program.Ends Q (askOr q failed next) := by
  intro r
  cases r with
  | ok answer => exact hnext answer
  | error e => exact hfailed

theorem usesUntil_askOr {q : Query} {failed : beta} {next : q.Answer -> Prog beta}
    (hq : forall r, P' (Op.query q) r)
    (hnext : forall a, Program.UsesUntil P' Q (next a)) :
    Program.UsesUntil P' Q (askOr q failed next) := by
  intro r
  refine Or.inr ⟨hq r, ?_⟩
  cases r with
  | ok answer => exact hnext answer
  | error e => trivial

theorem usesUntil_executeOr {s : Statement} {failed : beta} {next : s.Answer -> Prog beta}
    (hs : forall r, P' (Op.statement s) r)
    (hnext : forall a, Program.UsesUntil P' Q (next a)) :
    Program.UsesUntil P' Q (executeOr s failed next) := by
  intro r
  refine Or.inr ⟨hs r, ?_⟩
  cases r with
  | ok answer => exact hnext answer
  | error e => trivial

end Uses

/-!
# Undisturbed
-/

section Run

variable {alpha beta : Type}

theorem run_askOr (q : Query) (failed : beta) (next : q.Answer -> Prog beta) (w : World) :
    (askOr q failed next).run machine w = (next (q.eval w.now w.db)).run machine w := rfl

theorem run_executeOr {s : Statement} {w : World} {answer : s.Answer} {db : Db}
    (h : s.tx w.now w.db = Except.ok (answer, db)) (failed : beta)
    (next : s.Answer -> Prog beta) :
    (executeOr s failed next).run machine w = (next answer).run machine { w with db := db } := by
  show (onOk failed next (s.exec w).1).run machine (s.exec w).2 = _
  unfold Statement.exec
  rw [h]
  rfl

theorem run_guarded_ok {check : Except Response alpha} {a : alpha}
    (h : check = Except.ok a) (next : alpha -> Prog Response) :
    guarded check next = next a := by
  rw [h]
  rfl

end Run

/-!
# Safety, call by call
-/

section Safe

variable {alpha beta : Type} {CutOff : Op -> World -> Prop} {Inv : World -> Prop}
  {Post : alpha -> World -> Prop} {w : World}

theorem safe_askOr {q : Query} {failed : alpha} {next : q.Answer -> Prog alpha} (hw : Inv w)
    (hok : Safe machine CutOff Inv Post (next (q.eval w.now w.db)) w) (hfailed : Post failed w) :
    Safe machine CutOff Inv Post (askOr q failed next) w := by
  refine safe_call hw hok (fun r hr => ?_)
  cases hr
  exact hfailed

theorem safe_execute {s : Statement} {next : Except DbError s.Answer -> Prog alpha} (hw : Inv w)
    (hok : forall a db, s.tx w.now w.db = Except.ok (a, db) ->
      Safe machine CutOff Inv Post (next (Except.ok a)) { w with db := db })
    (hfailed : forall e, Safe machine CutOff Inv Post (next (Except.error e)) w) :
    Safe machine CutOff Inv Post (Program.call (Op.statement s) next) w := by
  refine safe_call hw ?_ (fun r hr => ?_)
  · change Safe machine CutOff Inv Post (next (s.exec w).1) (s.exec w).2
    rcases statement_exec s w with ⟨e, _, hexec⟩ | ⟨a, db, htx, hexec⟩
    · rw [hexec]
      exact hfailed e
    · rw [hexec]
      exact hok a db htx
  · cases hr
    exact hfailed _

theorem safe_executeOr {s : Statement} {failed : alpha} {next : s.Answer -> Prog alpha}
    (hw : Inv w)
    (hok : forall a db, s.tx w.now w.db = Except.ok (a, db) ->
      Safe machine CutOff Inv Post (next a) { w with db := db })
    (hfailed : Post failed w) :
    Safe machine CutOff Inv Post (executeOr s failed next) w :=
  safe_execute hw hok (fun _ => hfailed)

theorem safe_guarded {Post : Response -> World -> Prop} {check : Except Response beta}
    {next : beta -> Prog Response} (hrefused : forall refused, Post refused w)
    (hnext : forall a, check = Except.ok a -> Safe machine CutOff Inv Post (next a) w) :
    Safe machine CutOff Inv Post (guarded check next) w := by
  cases check with
  | ok a => exact hnext a rfl
  | error refused => exact hrefused refused

end Safe

/-!
# Meeting a guarantee, call by call
-/

section Meets

variable {alpha beta : Type} {E : Setting machine alpha}
  {Post : alpha -> World -> Prop} {w : World}

end Meets

end Server
end FleetServer
