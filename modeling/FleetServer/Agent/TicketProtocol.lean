import FleetServer.Agent.DesiredStateCache
import FleetServer.Concurrency.Guarantee

/-!
# The ticket protocol

Writers, pollers and removals over one cache and one set of inputs per host.
Every change and every read of inputs happens at a tick of a logical clock, and
a computed state remembers when its inputs were read.  Once an invalidation has
returned, nothing that was computed from inputs read before its writer's commit
is served for that host.
-/

namespace FleetServer
namespace Agent
namespace TicketProtocol

open Concurrency

variable (Input State : Type)

structure Computed where
  state : State
  reads : List Nat

structure World where
  cache : DesiredStateCache (Computed State)
  inputs : HostKey -> Input
  /-- Ticks once for every commit. -/
  tick : Nat
  /-- Hosts and commit ticks of the writers whose invalidation has returned. -/
  returned : List (HostKey × Nat)
  now : Int

inductive Op where
  | commit (key : HostKey) (input : Input)
  | read (key : HostKey)
  | get (key : HostKey) (configVersion : Int)
  | ticket (key : HostKey)
  | putIfCurrent (key : HostKey) (t : CacheTicket) (configVersion : Int)
      (computed : Computed State)
  | invalidateHost (key : HostKey) (committed : Nat)
  | forgetHost (key : HostKey)

@[reducible] def Op.Res : Op Input State -> Type
  | Op.commit _ _ => Nat
  | Op.read _ => Option (Input × Nat)
  | Op.get _ _ => Option (Computed State)
  | Op.ticket _ => CacheTicket
  | Op.putIfCurrent _ _ _ _ => Bool
  | Op.invalidateHost _ _ => Unit
  | Op.forgetHost _ => Unit

variable {Input State}

def exec : (op : Op Input State) -> World Input State -> op.Res × World Input State
  | Op.commit key input, w =>
      (w.tick + 1, { w with
        inputs := Function.update w.inputs key input
        tick := w.tick + 1 })
  | Op.read key, w => (some (w.inputs key, w.tick), w)
  | Op.get key v, w =>
      ((w.cache.get key v w.now).1, { w with cache := (w.cache.get key v w.now).2 })
  | Op.ticket key, w => (w.cache.ticket key, w)
  | Op.putIfCurrent key t v s, w =>
      ((w.cache.putIfCurrent key t v s w.now).1,
        { w with cache := (w.cache.putIfCurrent key t v s w.now).2 })
  | Op.invalidateHost key committed, w =>
      ((), { w with
        cache := w.cache.invalidateHost key w.now
        returned := (key, committed) :: w.returned })
  | Op.forgetHost key, w => ((), { w with cache := w.cache.forgetHost key })

def fault : (op : Op Input State) -> Option op.Res
  | Op.read _ => some none
  | Op.commit _ _ => none
  | Op.get _ _ => none
  | Op.ticket _ => none
  | Op.putIfCurrent _ _ _ _ => none
  | Op.invalidateHost _ _ => none
  | Op.forgetHost _ => none

variable (Input State) in
def machine : Machine (Op.Res Input State) :=
  { World := World Input State, exec := exec, fault := fault }

/-!
# Requests
-/

inductive Request (Input : Type) where
  | write (key : HostKey) (input : Input)
  | poll (key : HostKey) (configVersion : Int) (reads : Nat)
  | forget (key : HostKey)

/-- Read a host's inputs `n` more times, then compute. -/
def computeUncached (compute : List Input -> State) (key : HostKey) :
    Nat -> List (Input × Nat) ->
      Program (Op.Res Input State) (Except Unit (Computed State))
  | 0, got =>
      Program.done (Except.ok
        { state := compute (got.map Prod.fst), reads := got.map Prod.snd })
  | n + 1, got =>
      Program.call (Op.read key) fun
        | none => Program.done (Except.error ())
        | some r => computeUncached compute key n (r :: got)

def program (compute : List Input -> State) :
    Request Input -> Program (Op.Res Input State) Unit
  | Request.write key input => do
      let committed ← Program.perform (Op.commit key input)
      Program.perform (Op.invalidateHost key committed)
  | Request.poll key v reads => do
      let _ ← computeDesiredStateAt (Program.perform (Op.get key v))
        (Program.perform (Op.ticket key)) (computeUncached compute key reads [])
        (fun t s => Program.perform (Op.putIfCurrent key t v s))
      return ()
  | Request.forget key => Program.perform (Op.forgetHost key)

/-- The surroundings set the wall clock. -/
def service (compute : List Input -> State) : Service (Op.Res Input State) where
  machine := machine Input State
  Request := Request Input
  Response := Unit
  program := fun _ => program compute
  Env := Int
  disturb := fun now w => { w with now := now }

def World.start (inputs : HostKey -> Input) (now : Int) : World Input State :=
  { cache := DesiredStateCache.new, inputs := inputs, tick := 0, returned := [],
    now := now }

/-!
# Freshness

Every read time of a fresh state is at or after the commit of every writer of
that host whose invalidation has returned.
-/

def Fresh (w : World Input State) (key : HostKey) (reads : List Nat) : Prop :=
  forall committed, (key, committed) ∈ w.returned ->
    forall r, r ∈ reads -> committed ≤ r

structure Consistent (w : World Input State) : Prop where
  served : forall key v s, w.cache.served key v = some s -> Fresh w key s.reads
  returned : forall key committed, (key, committed) ∈ w.returned -> committed ≤ w.tick

/-- How any step changes the world, as far as a ticket holder cares. -/
structure Progress (u v : World Input State) : Prop where
  stamp : forall key, u.cache.stamp key ≤ v.cache.stamp key
  tick : u.tick ≤ v.tick
  returned : forall key committed, (key, committed) ∈ v.returned ->
    (key, committed) ∈ u.returned ∨ u.cache.stamp key < v.cache.stamp key

theorem progress_refl (w : World Input State) : Progress w w :=
  ⟨fun _ => le_rfl, le_rfl, fun _ _ h => Or.inl h⟩

theorem progress_trans {u v w : World Input State} (huv : Progress u v)
    (hvw : Progress v w) : Progress u w := by
  refine ⟨fun key => (huv.stamp key).trans (hvw.stamp key), huv.tick.trans hvw.tick, ?_⟩
  intro key committed hmem
  rcases hvw.returned key committed hmem with hmem | hlt
  · rcases huv.returned key committed hmem with hmem | hlt
    · exact Or.inl hmem
    · exact Or.inr (hlt.trans_le (hvw.stamp key))
  · exact Or.inr ((huv.stamp key).trans_lt hlt)

/-- A ticket that was issued, and the reads made under it so far: as long as
the ticket would still be accepted, the reads are fresh. -/
def Holding (w : World Input State) (key : HostKey) (t : CacheTicket)
    (reads : List Nat) : Prop :=
  t.stamp ≤ w.cache.stamp key ∧
    (t.stamp = w.cache.stamp key -> Fresh w key reads)

theorem holding_progress {u v : World Input State} {key : HostKey} {t : CacheTicket}
    {reads : List Nat} (h : Holding u key t reads) (huv : Progress u v) :
    Holding v key t reads := by
  refine ⟨h.1.trans (huv.stamp key), fun hcurrent committed hmem => ?_⟩
  have hstamp : t.stamp = u.cache.stamp key :=
    le_antisymm h.1 (hcurrent ▸ huv.stamp key)
  rcases huv.returned key committed hmem with hmem | hlt
  · exact h.2 hstamp committed hmem
  · exact absurd (hstamp.trans_lt hlt) (hcurrent ▸ lt_irrefl _)

theorem holding_ticket (w : World Input State) (key : HostKey) :
    Holding w key (w.cache.ticket key) [] :=
  ⟨le_rfl, fun _ _ _ _ h => absurd h List.not_mem_nil⟩

theorem holding_read {w : World Input State} (hw : Consistent w) {key : HostKey}
    {t : CacheTicket} {reads : List Nat} (h : Holding w key t reads) :
    Holding w key t (w.tick :: reads) := by
  refine ⟨h.1, fun hcurrent committed hmem r hr => ?_⟩
  rcases List.mem_cons.mp hr with rfl | hr
  · exact hw.returned key committed hmem
  · exact h.2 hcurrent committed hmem r hr

/-!
# What each operation does
-/

/-- What has to hold for an operation to keep the world consistent. -/
def Ready (op : Op Input State) (w : World Input State) : Prop :=
  match op with
  | Op.putIfCurrent key t _ s => Holding w key t s.reads
  | Op.invalidateHost _ committed => committed ≤ w.tick
  | _ => True

theorem progress_exec (op : Op Input State) (w : World Input State) :
    Progress w (exec op w).2 := by
  cases op with
  | commit key input => exact ⟨fun _ => le_rfl, Nat.le_succ _, fun _ _ h => Or.inl h⟩
  | read key => exact progress_refl w
  | get key v =>
      exact ⟨fun other => (w.cache.get_stamp key other v w.now).ge, le_rfl,
        fun _ _ h => Or.inl h⟩
  | ticket key => exact progress_refl w
  | putIfCurrent key t v s =>
      exact ⟨fun other => w.cache.putIfCurrent_stamp_le key other t v s w.now, le_rfl,
        fun _ _ h => Or.inl h⟩
  | invalidateHost key committed =>
      refine ⟨fun other => w.cache.invalidateHost_stamp_le key other w.now, le_rfl, ?_⟩
      intro other c hmem
      rcases List.mem_cons.mp hmem with heq | hmem
      · cases heq
        exact Or.inr (w.cache.invalidateHost_stamp_self key w.now)
      · exact Or.inl hmem
  | forgetHost key =>
      exact ⟨fun other => w.cache.forgetHost_stamp_le key other, le_rfl,
        fun _ _ h => Or.inl h⟩

theorem consistent_exec {op : Op Input State} {w : World Input State}
    (hw : Consistent w) (hready : Ready op w) : Consistent (exec op w).2 := by
  cases op with
  | commit key input =>
      exact ⟨hw.served, fun other c h => (hw.returned other c h).trans (Nat.le_succ _)⟩
  | read key => exact hw
  | get key v =>
      refine ⟨fun other v' s h => hw.served other v' s ?_, hw.returned⟩
      rwa [← w.cache.get_served key other v v' w.now]
  | ticket key => exact hw
  | putIfCurrent key t v s =>
      refine ⟨fun other v' s' h => ?_, hw.returned⟩
      rcases DesiredStateCache.served_of_putIfCurrent h with
        hbefore | ⟨hstamp, rfl, rfl, rfl⟩
      · exact hw.served other v' s' hbefore
      · exact hready.2 hstamp
  | invalidateHost key committed =>
      constructor
      · intro other v s h c hmem r hr
        by_cases hkey : other = key
        · subst hkey
          rw [show (exec (Op.invalidateHost other committed) w).2.cache =
            w.cache.invalidateHost other w.now from rfl,
            DesiredStateCache.invalidateHost_served_self] at h
          cases h
        · rw [show (exec (Op.invalidateHost key committed) w).2.cache =
            w.cache.invalidateHost key w.now from rfl,
            DesiredStateCache.invalidateHost_served_ne _ _ _ hkey] at h
          rcases List.mem_cons.mp hmem with heq | hmem
          · exact absurd (congrArg Prod.fst heq) hkey
          · exact hw.served other v s h c hmem r hr
      · intro other c hmem
        rcases List.mem_cons.mp hmem with heq | hmem
        · cases heq
          exact hready
        · exact hw.returned other c hmem
  | forgetHost key =>
      refine ⟨fun other v s h => ?_, hw.returned⟩
      by_cases hkey : other = key
      · subst hkey
        rw [show (exec (Op.forgetHost other) w).2.cache = w.cache.forgetHost other from rfl,
          DesiredStateCache.forgetHost_served_self] at h
        cases h
      · rw [show (exec (Op.forgetHost key) w).2.cache = w.cache.forgetHost key from rfl,
          DesiredStateCache.forgetHost_served_ne _ _ hkey] at h
        exact hw.served other v s h

/-!
# Every request only makes calls that are ready
-/

def setting (alpha : Type) : Setting (machine Input State) alpha where
  Faulty := fun _ => True
  Inv := Consistent
  Rely := Progress
  Assume := fun _ _ _ => True
  Guar := fun op _ w => Ready op w
  refl := fun w _ => progress_refl w
  trans := fun _ _ _ => progress_trans

theorem meets_call {alpha : Type} {Post : alpha -> World Input State -> Prop}
    {op : Op Input State} {next : op.Res -> Program (Op.Res Input State) alpha}
    {w : World Input State}
    (h : forall v, Consistent v -> Progress w v ->
      Ready op v ∧ Meets (setting alpha) Post (next (exec op v).1) (exec op v).2 ∧
        forall r, fault op = some r -> Meets (setting alpha) Post (next r) v) :
    Meets (setting alpha) Post (Program.call op next) w := by
  intro v hv hprogress
  rcases h v hv hprogress with ⟨hready, hnext, hfault⟩
  exact ⟨fun _ => ⟨hready, hnext⟩, fun _ r hr => hfault r hr⟩

theorem meets_computeUncached (compute : List Input -> State) (key : HostKey)
    (t : CacheTicket) (n : Nat) (got : List (Input × Nat)) (w : World Input State)
    (hholding : Holding w key t (got.map Prod.snd)) :
    Meets (setting (Except Unit (Computed State)))
      (fun result v => forall s, result = Except.ok s -> Holding v key t s.reads)
      (computeUncached compute key n got) w := by
  induction n generalizing got w with
  | zero =>
      refine meets_done (fun v _ hprogress s hs => ?_)
      cases hs
      exact holding_progress hholding hprogress
  | succ n ih =>
      refine meets_call (fun v hv hprogress => ⟨trivial, ?_, ?_⟩)
      · apply ih
        exact holding_read hv (holding_progress hholding hprogress)
      · intro r hr
        cases hr
        exact meets_done (fun _ _ _ s hs => by cases hs)

theorem meets_poll (compute : List Input -> State) (key : HostKey) (v : Int)
    (reads : Nat) (w : World Input State) :
    Meets (setting Unit) (fun _ _ => True)
      (program compute (Request.poll key v reads)) w := by
  refine meets_call (fun w₁ _ _ => ⟨trivial, ?_, fun r hr => by cases hr⟩)
  cases (exec (Op.get key v) w₁).1 with
  | some cached => exact meets_done (fun _ _ _ => trivial)
  | none =>
      refine meets_call (fun w₂ _ _ => ⟨trivial, ?_, fun r hr => by cases hr⟩)
      change Meets (setting Unit) _
        (((computeUncached compute key reads [] >>= _) : Program _ _) >>= _) _
      rw [Program.bind_assoc]
      refine meets_bind (meets_computeUncached compute key _ reads [] _
        (holding_ticket w₂ key)) ?_
      intro result w₃ hresult
      cases result with
      | error e => exact meets_done (fun _ _ _ => trivial)
      | ok computed =>
          refine meets_call (fun w₄ _ hprogress => ⟨?_, ?_, fun r hr => by cases hr⟩)
          · exact holding_progress (hresult computed rfl) hprogress
          · exact meets_done (fun _ _ _ => trivial)

theorem meets_write (compute : List Input -> State) (key : HostKey) (input : Input)
    (w : World Input State) :
    Meets (setting Unit) (fun _ _ => True)
      (program compute (Request.write key input)) w := by
  refine meets_call (fun w₁ _ _ => ⟨trivial, ?_, fun r hr => by cases hr⟩)
  refine meets_call (fun w₂ _ hprogress => ⟨?_, ?_, fun r hr => by cases hr⟩)
  · exact hprogress.tick
  · exact meets_done (fun _ _ _ => trivial)

theorem meets_forget (compute : List Input -> State) (key : HostKey)
    (w : World Input State) :
    Meets (setting Unit) (fun _ _ => True)
      (program compute (Request.forget key)) w :=
  meets_call (fun _ _ _ =>
    ⟨trivial, meets_done (fun _ _ _ => trivial), fun r hr => by cases hr⟩)

theorem meets_program (compute : List Input -> State) (request : Request Input)
    (w : World Input State) :
    Meets (setting Unit) (fun _ _ => True) (program compute request) w := by
  cases request with
  | write key input => exact meets_write compute key input w
  | poll key v reads => exact meets_poll compute key v reads w
  | forget key => exact meets_forget compute key w

def discipline (compute : List Input -> State) :
    Discipline (service compute) (fun _ _ => True) where
  Inv := Consistent
  setting := fun _ _ => setting Unit
  Compat := fun _ _ => True
  inv_eq := fun _ _ => rfl
  compat_symm := fun _ _ _ => trivial
  spawn := fun p request _ _ =>
    ⟨meets_program compute request p.world, fun _ _ _ => trivial⟩
  assume := fun _ _ _ _ _ _ _ _ => trivial
  fault := fun _ _ _ _ _ _ _ => trivial
  inv_exec := fun _ _ _ _ _ hw hready => consistent_exec hw hready
  guar_rely := fun _ _ _ _ op _ w _ _ _ _ => progress_exec op w
  env := fun _ _ _ hw =>
    ⟨⟨hw.served, hw.returned⟩, fun _ _ => ⟨fun _ => le_rfl, le_rfl, fun _ _ h => Or.inl h⟩⟩

/-!
# What is served after an invalidation has returned
-/

theorem consistent_start (inputs : HostKey -> Input) (now : Int) :
    Consistent (World.start inputs now : World Input State) :=
  ⟨fun _ _ _ h => (by cases h), fun _ _ h => absurd h List.not_mem_nil⟩

/-- In every run, a lookup answers nothing that was computed from inputs read
before the commit of a writer of that host whose invalidation has returned. -/
theorem get_fresh_after_invalidateHost (compute : List Input -> State)
    (inputs : HostKey -> Input) (now : Int) (p : Pool (service compute))
    (hrun : Pool.Run (fun _ _ => True)
      (Pool.init (World.start inputs now : World Input State)) p)
    (key : HostKey) (committed : Nat) (hreturned : (key, committed) ∈ p.world.returned)
    (v at_ : Int) (s : Computed State)
    (hget : (p.world.cache.get key v at_).1 = some s) :
    forall r, r ∈ s.reads -> ¬ r < committed := by
  have hholds := (discipline compute).holds_run
    ((discipline compute).holds_init (consistent_start inputs now)) hrun
  rw [DesiredStateCache.get_fst] at hget
  intro r hr
  exact Nat.not_lt.mpr (hholds.world.served key v s hget committed hreturned r hr)

def writeThenPoll : List (Choice (service (fun xs : List Nat => xs))) :=
  [Choice.spawn (Request.write (1, "host-a") 7), Choice.exec 0, Choice.exec 0,
    Choice.spawn (Request.poll (1, "host-a") 3 1), Choice.exec 1, Choice.exec 1,
    Choice.exec 1, Choice.exec 1]

theorem get_fresh_writeThenPoll :
    exists s : Computed (List Nat), s.state = [7] ∧ s.reads = [1] ∧
      forall r, r ∈ s.reads -> ¬ r < 1 :=
  let start : World Nat (List Nat) := World.start (fun _ => 0) 0
  ⟨⟨[7], [1]⟩, rfl, rfl, get_fresh_after_invalidateHost (fun xs => xs) (fun _ => 0) 0
    (Pool.after (Pool.init start) writeThenPoll rfl)
    (Pool.run_after _ _ _) (1, "host-a") 1 (List.mem_singleton.mpr rfl) 3 0 ⟨[7], [1]⟩ rfl⟩

end TicketProtocol
end Agent
end FleetServer
