import FleetServer.Concurrency.Program

/-!
# One program by itself

A program that nothing interleaves with, where any call may fail.  A run yields
the calls that were completed, each with the world it was made in; a call that
failed without an effect is not among them.  `Among` is the same for a program
that others disturb between its calls.
-/

namespace FleetServer
namespace Concurrency

variable {Op : Type} {Res : Op -> Type} {alpha beta : Type}

/-- A completed call. -/
structure Event (M : Machine Res) where
  op : Op
  before : M.World

def Event.after {M : Machine Res} (e : Event M) : M.World :=
  (M.exec e.op e.before).2

def Event.result {M : Machine Res} (e : Event M) : Res e.op :=
  (M.exec e.op e.before).1

/-- From `w`, the program completes the calls `events` and answers `a` in `v`. -/
inductive Alone (M : Machine Res) : Program Res alpha -> M.World -> List (Event M) ->
    alpha -> M.World -> Prop where
  | done (a : alpha) (w : M.World) : Alone M (Program.done a) w [] a w
  | exec {op : Op} {next : Res op -> Program Res alpha} {w v : M.World}
      {events : List (Event M)} {a : alpha} :
      Alone M (next (M.exec op w).1) (M.exec op w).2 events a v ->
        Alone M (Program.call op next) w (⟨op, w⟩ :: events) a v
  | fault {op : Op} {next : Res op -> Program Res alpha} {w v : M.World}
      {events : List (Event M)} {a : alpha} {r : Res op} :
      M.fault op = some r -> Alone M (next r) w events a v ->
        Alone M (Program.call op next) w events a v

/-- As `Alone`, while others may move the world along `Others`. -/
inductive Among (M : Machine Res) (Others : M.World -> M.World -> Prop) :
    Program Res alpha -> M.World -> List (Event M) -> alpha -> M.World -> Prop where
  | done (a : alpha) (w : M.World) : Among M Others (Program.done a) w [] a w
  | others {p : Program Res alpha} {w u v : M.World} {events : List (Event M)} {a : alpha} :
      Others w u -> Among M Others p u events a v -> Among M Others p w events a v
  | exec {op : Op} {next : Res op -> Program Res alpha} {w v : M.World}
      {events : List (Event M)} {a : alpha} :
      Among M Others (next (M.exec op w).1) (M.exec op w).2 events a v ->
        Among M Others (Program.call op next) w (⟨op, w⟩ :: events) a v
  | fault {op : Op} {next : Res op -> Program Res alpha} {w v : M.World}
      {events : List (Event M)} {a : alpha} {r : Res op} :
      M.fault op = some r -> Among M Others (next r) w events a v ->
        Among M Others (Program.call op next) w events a v

variable {M : Machine Res} {Others : M.World -> M.World -> Prop}
variable {Q Q' : alpha -> Prop} {v w : M.World} {events : List (Event M)} {a : alpha}
variable {p : Program Res alpha} {f : alpha -> Program Res beta}

theorem alone_call {op : Op} {next : Res op -> Program Res alpha}
    (h : Alone M (Program.call op next) w events a v) :
    (exists rest, events = ⟨op, w⟩ :: rest ∧
      Alone M (next (M.exec op w).1) (M.exec op w).2 rest a v) ∨
      exists r, M.fault op = some r ∧ Alone M (next r) w events a v := by
  cases h with
  | exec hnext => exact Or.inl ⟨_, rfl, hnext⟩
  | fault hfault hnext => exact Or.inr ⟨_, hfault, hnext⟩

theorem alone_done {a' : alpha} (h : Alone M (Program.done a) w events a' v) :
    events = [] ∧ a' = a ∧ v = w := by
  cases h
  exact ⟨rfl, rfl, rfl⟩

theorem alone_run (M : Machine Res) (p : Program Res alpha) (w : M.World) :
    exists events, Alone M p w events (Program.run M p w).1 (Program.run M p w).2 := by
  induction p generalizing w with
  | done a => exact ⟨[], Alone.done a w⟩
  | call op next ih =>
      rcases ih (M.exec op w).1 (M.exec op w).2 with ⟨events, hrun⟩
      exact ⟨_, Alone.exec hrun⟩

/-- A run of a sequence is a run of each part. -/
theorem alone_bind {b : beta} (h : Alone M (p >>= f) w events b v) :
    exists first second a u, events = first ++ second ∧ Alone M p w first a u ∧
      Alone M (f a) u second b v := by
  induction p generalizing w events with
  | done a => exact ⟨[], events, a, w, rfl, Alone.done a w, h⟩
  | call op next ih =>
      cases alone_call h with
      | inl hexec =>
          rcases hexec with ⟨rest, hevents, hrest⟩
          rcases ih _ hrest with ⟨first, second, a, u, hsplit, hfirst, hsecond⟩
          refine ⟨⟨op, w⟩ :: first, second, a, u, ?_, Alone.exec hfirst, hsecond⟩
          rw [hevents, hsplit]
          rfl
      | inr hfault =>
          rcases hfault with ⟨r, hr, hrest⟩
          rcases ih r hrest with ⟨first, second, a, u, hsplit, hfirst, hsecond⟩
          exact ⟨first, second, a, u, hsplit, Alone.fault hr hfirst, hsecond⟩

namespace Program

/-!
# Calls before a foregone end
-/

/-- Whatever the calls answer, the program ends with an answer in `Q`. -/
def Ends (Q : alpha -> Prop) : Program Res alpha -> Prop
  | done a => Q a
  | call _ next => forall r, Ends Q (next r)

theorem ends_mono (h : Ends Q p) (hmono : forall a, Q a -> Q' a) : Ends Q' p := by
  induction p with
  | done a => exact hmono a h
  | call op next ih => exact fun r => ih r (h r)

theorem ends_bind {Q' : beta -> Prop} (hp : Ends Q p) (hf : forall a, Q a -> Ends Q' (f a)) :
    Ends Q' (p >>= f) := by
  induction p with
  | done a => exact hf a hp
  | call op next ih => exact fun r => ih r (hp r)

theorem ends_run (h : Ends Q p) (w : M.World) : Q (run M p w).1 := by
  induction p generalizing w with
  | done a => exact h
  | call op next ih => exact ih _ (h _) _

theorem ends_true (p : Program Res alpha) : Ends (fun _ => True) p := by
  induction p with
  | done a => trivial
  | call op next ih => exact fun r => ih r

theorem ends_and (h : Ends Q p) (h' : Ends Q' p) : Ends (fun a => Q a ∧ Q' a) p := by
  induction p with
  | done a => exact ⟨h, h'⟩
  | call op next ih => exact fun r => ih r (h r) (h' r)

/-- As `Ends`, as long as the calls answer what `Known` allows. -/
def EndsGiven (Known : (op : Op) -> Res op -> Prop) (Q : alpha -> Prop) :
    Program Res alpha -> Prop
  | done a => Q a
  | call op next => forall r, Known op r -> EndsGiven Known Q (next r)

theorem endsGiven_of_ends {Known : (op : Op) -> Res op -> Prop} (h : Ends Q p) :
    EndsGiven Known Q p := by
  induction p with
  | done a => exact h
  | call op next ih => exact fun r _ => ih r (h r)

theorem ends_of_endsGiven (h : EndsGiven (fun _ _ => True) Q p) : Ends Q p := by
  induction p with
  | done a => exact h
  | call op next ih => exact fun r => ih r (h r trivial)

theorem endsGiven_mono {Known : (op : Op) -> Res op -> Prop} (h : EndsGiven Known Q p)
    (hmono : forall a, Q a -> Q' a) :
    EndsGiven Known Q' p := by
  induction p with
  | done a => exact hmono a h
  | call op next ih => exact fun r hr => ih r (h r hr)

theorem endsGiven_bind {Known : (op : Op) -> Res op -> Prop} {Q' : beta -> Prop}
    (hp : EndsGiven Known Q p) (hf : forall a, Q a -> EndsGiven Known Q' (f a)) :
    EndsGiven Known Q' (p >>= f) := by
  induction p with
  | done a => exact hf a hp
  | call op next ih => exact fun r hr => ih r (hp r hr)

theorem run_endsGiven (h : EndsGiven (fun op r => (M.exec op w).1 = r) Q p)
    (hreads : Uses (fun op => (M.exec op w).2 = w) p) :
    Q (run M p w).1 ∧ (run M p w).2 = w := by
  induction p with
  | done a => exact ⟨h, rfl⟩
  | call op next ih =>
      rw [run_call, hreads.1]
      exact ih _ (h _ rfl) (hreads.2 _)

theorem endsGiven_run (h : Q (run M p w).1)
    (hreads : Uses (fun op => (M.exec op w).2 = w) p) :
    EndsGiven (fun op r => (M.exec op w).1 = r) Q p := by
  induction p with
  | done a => exact h
  | call op next ih =>
      rintro r rfl
      rw [run_call, hreads.1] at h
      exact ih _ h (hreads.2 _)

/-- The program may answer `a`, when its calls answer what `Known` allows. -/
def Yields (Known : (op : Op) -> Res op -> Prop) : Program Res alpha -> alpha -> Prop
  | done b, a => b = a
  | call op next, a => exists r, Known op r ∧ Yields Known (next r) a

theorem yields_bind {Known : (op : Op) -> Res op -> Prop} {b : beta} :
    Yields Known (p >>= f) b <-> exists a, Yields Known p a ∧ Yields Known (f a) b := by
  induction p with
  | done a =>
      constructor
      · intro h
        exact ⟨a, rfl, h⟩
      · intro h
        rcases h with ⟨a', ha, h⟩
        cases ha
        exact h
  | call op next ih =>
      constructor
      · intro h
        rcases h with ⟨r, hr, h⟩
        rcases (ih r).mp h with ⟨a, ha, hb⟩
        exact ⟨a, ⟨r, hr, ha⟩, hb⟩
      · intro h
        rcases h with ⟨a, ⟨r, hr, ha⟩, hb⟩
        exact ⟨r, hr, (ih r).mpr ⟨a, ha, hb⟩⟩

theorem endsGiven_true {Known : (op : Op) -> Res op -> Prop} (p : Program Res alpha) :
    EndsGiven Known (fun _ => True) p :=
  endsGiven_of_ends (ends_true p)

/-- As `uses_bind`, with what is known of the answer of the first part. -/
theorem uses_bind_ends {P : Op -> Prop} (hp : Uses P p) (hends : Ends Q p)
    (hf : forall a, Q a -> Uses P (f a)) : Uses P (p >>= f) := by
  induction p with
  | done a => exact hf a hends
  | call op next ih => exact ⟨hp.1, fun r => ih r (hp.2 r) (hends r)⟩

/-- Every call and its result satisfy `P`, until the answer is bound to be in
`Q`. -/
def UsesUntil (P : (op : Op) -> Res op -> Prop) (Q : alpha -> Prop) :
    Program Res alpha -> Prop
  | done _ => True
  | call op next => forall r, Ends Q (next r) ∨ (P op r ∧ UsesUntil P Q (next r))

theorem usesUntil_of_ends {P : (op : Op) -> Res op -> Prop} (h : Ends Q p) : UsesUntil P Q p := by
  cases p with
  | done a => trivial
  | call op next => exact fun r => Or.inl (h r)

theorem usesUntil_bind {P : (op : Op) -> Res op -> Prop} {Q : beta -> Prop}
    (hp : Uses (fun op => forall r, P op r) p) (hends : Ends Q' p)
    (hf : forall a, Q' a -> UsesUntil P Q (f a)) : UsesUntil P Q (p >>= f) := by
  induction p with
  | done a => exact hf a hends
  | call op next ih => exact fun r => Or.inr ⟨hp.1 r, ih r (hp.2 r) (hends r)⟩

end Program

theorem among_of_alone (h : Alone M p w events a v) : Among M Others p w events a v := by
  induction h with
  | done a w => exact Among.done a w
  | exec _ ih => exact Among.exec ih
  | fault hr _ ih => exact Among.fault hr ih

theorem among_done {a' : alpha} (h : Among M Others (Program.done a) w events a' v) :
    events = [] ∧ a' = a := by
  generalize hp : (Program.done a : Program Res alpha) = p at h
  induction h with
  | done _ _ =>
      cases hp
      exact ⟨rfl, rfl⟩
  | others _ _ ih => exact ih hp
  | exec _ _ => cases hp
  | fault _ _ _ => cases hp

theorem among_call {op : Op} {next : Res op -> Program Res alpha}
    (h : Among M Others (Program.call op next) w events a v) :
    exists u,
      (exists rest, events = ⟨op, u⟩ :: rest ∧
        Among M Others (next (M.exec op u).1) (M.exec op u).2 rest a v) ∨
      exists r, M.fault op = some r ∧ Among M Others (next r) u events a v := by
  generalize hp : Program.call op next = p at h
  induction h with
  | done _ _ => cases hp
  | others _ _ ih => exact ih hp
  | @exec _ _ u _ events _ hnext _ =>
      cases hp
      exact ⟨u, Or.inl ⟨events, rfl, hnext⟩⟩
  | @fault _ _ u _ _ _ r hr hnext _ =>
      cases hp
      exact ⟨u, Or.inr ⟨r, hr, hnext⟩⟩

theorem ends_of_among (h : Among M Others p w events a v) (hp : Program.Ends Q p) : Q a := by
  induction h with
  | done a w => exact hp
  | others _ _ ih => exact ih hp
  | exec _ ih => exact ih (hp _)
  | fault _ _ ih => exact ih (hp _)

theorem ends_of_alone (h : Alone M p w events a v) (hp : Program.Ends Q p) : Q a :=
  have hamong : Among M (fun _ _ => False) p w events a v := among_of_alone h
  ends_of_among hamong hp

/-- A run with another answer only completed calls in `P`, each in a world with
the invariant that they and the others keep. -/
theorem usesUntil_of_among {P : (op : Op) -> Res op -> Prop} (Inv : M.World -> Prop)
    (hothers : forall u u', Others u u' -> Inv u -> Inv u')
    (hstep : forall op u, P op (M.exec op u).1 -> Inv u -> Inv (M.exec op u).2)
    (h : Among M Others p w events a v) (hp : Program.UsesUntil P Q p) (ha : ¬ Q a) (hw : Inv w) :
    forall e, e ∈ events -> P e.op e.result ∧ Inv e.before := by
  induction h with
  | done a w =>
      intro e he
      cases he
  | others hmove _ ih => exact ih hp ha (hothers _ _ hmove hw)
  | exec hnext ih =>
      intro e he
      rcases hp _ with hends | ⟨hop, hrest⟩
      · exact absurd (ends_of_among hnext hends) ha
      · rcases List.mem_cons.mp he with rfl | he
        · exact ⟨hop, hw⟩
        · exact ih hrest ha (hstep _ _ hop hw) e he
  | fault hfault hnext ih =>
      rcases hp _ with hends | ⟨_, hrest⟩
      · exact absurd (ends_of_among hnext hends) ha
      · exact ih hrest ha hw

theorem usesUntil_of_alone {P : (op : Op) -> Res op -> Prop} (h : Alone M p w events a v)
    (hp : Program.UsesUntil P Q p) (ha : ¬ Q a) :
    forall e, e ∈ events -> P e.op e.result := by
  have hamong : Among M (fun _ _ => False) p w events a v := among_of_alone h
  intro e he
  exact (usesUntil_of_among (fun _ => True) (fun _ _ hmove => hmove.elim) (fun _ _ _ _ => trivial)
    hamong hp ha trivial e he).1

/-- What every completed call relates, the whole run relates. -/
theorem rel_of_alone {R : M.World -> M.World -> Prop} (hrefl : forall u, R u u)
    (htrans : forall u v x, R u v -> R v x -> R u x) (h : Alone M p w events a v)
    (hevents : forall e, e ∈ events -> R e.before e.after) : R w v := by
  induction h with
  | done a w => exact hrefl w
  | exec _ ih =>
      exact htrans _ _ _ (hevents _ List.mem_cons_self)
        (ih (fun e he => hevents e (List.mem_cons_of_mem _ he)))
  | fault _ _ ih => exact ih hevents

end Concurrency
end FleetServer
