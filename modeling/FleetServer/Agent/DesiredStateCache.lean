import FleetServer.Concurrency.Program
import FleetServer.Data.KeyedMap
import Mathlib.Data.Prod.Lex

/-!
# The desired-state cache

The memo of `desired_state.rs`, generic in what it stores.  Entries are keyed
by tenant and host, carry the `config_version` they were computed at, and a
generation that every invalidation of the host moves.
-/

namespace FleetServer
namespace Agent

open KeyedMap
open Concurrency

/-- Tenant id and host id. -/
abbrev HostKey : Type := Int × String

structure Entry (State : Type) where
  configVersion : Int
  /-- `none` is a tombstone: invalidated, and nothing computed since. -/
  state : Option State
  generation : Nat
  lastUsed : Int

/-- What a compute saw of a host's entry before it read its inputs. -/
structure CacheTicket where
  epoch : Nat
  generation : Nat
deriving DecidableEq

structure DesiredStateCache (State : Type) where
  entries : Map HostKey (Entry State)
  epoch : Nat
  hits : Nat
  misses : Nat

/-- Beyond this many entries the cache starts reclaiming. -/
def maxEntries : Nat := 100000

/-- Entries untouched for this long are dropped first. -/
def idleTtlSecs : Int := 3600

namespace DesiredStateCache

variable {State : Type}

def new : DesiredStateCache State :=
  { entries := ∅, epoch := 0, hits := 0, misses := 0 }

/-!
# Operations
-/

/-- The state an entry answers for `configVersion`. -/
def served (c : DesiredStateCache State) (key : HostKey) (configVersion : Int) :
    Option State :=
  (c.entries.lookup key).bind fun e =>
    e.state.bind fun s => if e.configVersion = configVersion then some s else none

def touch (c : DesiredStateCache State) (key : HostKey) (now : Int) :
    Map HostKey (Entry State) :=
  match c.entries.lookup key with
  | some e => c.entries.insert key { e with lastUsed := now }
  | none => c.entries

def get (c : DesiredStateCache State) (key : HostKey) (configVersion now : Int) :
    Option State × DesiredStateCache State :=
  match c.served key configVersion with
  | some s => (some s, { c with entries := c.touch key now, hits := c.hits + 1 })
  | none => (none, { c with misses := c.misses + 1 })

def generationOf (c : DesiredStateCache State) (key : HostKey) : Nat :=
  ((c.entries.lookup key).map Entry.generation).getD 0

def ticket (c : DesiredStateCache State) (key : HostKey) : CacheTicket :=
  { epoch := c.epoch, generation := c.generationOf key }

/-- Make room: drop idle entries, and everything when nothing was idle. -/
def reclaim (c : DesiredStateCache State) (now : Int) : DesiredStateCache State :=
  if maxEntries ≤ size c.entries then
    let cutoff := now - idleTtlSecs
    let kept := retain (fun e => decide (cutoff ≤ e.lastUsed)) c.entries
    let entries := if maxEntries ≤ size kept then ∅ else kept
    { c with
      entries := entries
      epoch := if size entries < size c.entries then c.epoch + 1 else c.epoch }
  else c

def putIfCurrent (c : DesiredStateCache State) (key : HostKey) (t : CacheTicket)
    (configVersion : Int) (state : State) (now : Int) :
    Bool × DesiredStateCache State :=
  let generation := c.generationOf key
  if t.epoch ≠ c.epoch ∨ t.generation ≠ generation then (false, c)
  else
    let swept := c.reclaim now
    (true, { swept with
      entries := swept.entries.insert key
        { configVersion, state := some state, generation, lastUsed := now } })

def forgetHost (c : DesiredStateCache State) (key : HostKey) :
    DesiredStateCache State :=
  match c.entries.lookup key with
  | some _ => { c with entries := c.entries.erase key, epoch := c.epoch + 1 }
  | none => c

def invalidateHost (c : DesiredStateCache State) (key : HostKey) (now : Int) :
    DesiredStateCache State :=
  let entry := (c.entries.lookup key).getD
    { configVersion := 0, state := none, generation := 0, lastUsed := now }
  { c with
    entries := c.entries.insert key
      { entry with state := none, generation := entry.generation + 1 } }

def stats (c : DesiredStateCache State) : Nat × Nat :=
  (c.hits, c.misses)

/-!
# Stamps

The epoch and a host's generation, in this order, make the stamp that tickets
are compared with.  No operation moves any host's stamp back, and an
invalidation moves its host's stamp strictly forward.
-/

def stamp (c : DesiredStateCache State) (key : HostKey) : ℕ ×ₗ ℕ :=
  toLex (c.epoch, c.generationOf key)

end DesiredStateCache

def CacheTicket.stamp (t : CacheTicket) : ℕ ×ₗ ℕ :=
  toLex (t.epoch, t.generation)

namespace DesiredStateCache

variable {State : Type}

@[simp] theorem ticket_stamp (c : DesiredStateCache State) (key : HostKey) :
    (c.ticket key).stamp = c.stamp key := rfl

variable {key other : HostKey} {c : DesiredStateCache State} {t : CacheTicket}

theorem stamp_le_of_epoch_lt {d : DesiredStateCache State} (key : HostKey) (h : c.epoch < d.epoch) :
    c.stamp key ≤ d.stamp key :=
  Prod.Lex.toLex_le_toLex.mpr (Or.inl h)

theorem stamp_eq_of {d : DesiredStateCache State} (hepoch : d.epoch = c.epoch)
    (hgen : d.generationOf key = c.generationOf key) :
    d.stamp key = c.stamp key := by
  unfold stamp
  rw [hepoch, hgen]

theorem ticket_current_iff :
    t.stamp = c.stamp key <-> t.epoch = c.epoch ∧ t.generation = c.generationOf key := by
  unfold stamp CacheTicket.stamp
  rw [toLex_inj, Prod.mk.injEq]

/-!
# Entries of other hosts, and what an operation does to its own
-/

theorem generationOf_insert_self (c : DesiredStateCache State) (key : HostKey)
    (e : Entry State) :
    generationOf { c with entries := c.entries.insert key e } key = e.generation := by
  unfold generationOf
  rw [AList.lookup_insert]
  rfl

theorem generationOf_insert_ne (c : DesiredStateCache State) (e : Entry State) (h : other ≠ key) :
    generationOf { c with entries := c.entries.insert key e } other =
      c.generationOf other := by
  unfold generationOf
  rw [AList.lookup_insert_ne h]

theorem served_insert_self (c : DesiredStateCache State) (key : HostKey)
    (e : Entry State) (v : Int) :
    served { c with entries := c.entries.insert key e } key v =
      e.state.bind fun s => if e.configVersion = v then some s else none := by
  unfold served
  rw [AList.lookup_insert]
  rfl

theorem served_insert_ne (c : DesiredStateCache State) (e : Entry State) (v : Int) (h : other ≠ key)
    :
    served { c with entries := c.entries.insert key e } other v = c.served other v := by
  unfold served
  rw [AList.lookup_insert_ne h]

/-!
## get
-/

@[simp] theorem get_fst (c : DesiredStateCache State) (key : HostKey) (v now : Int) :
    (c.get key v now).1 = c.served key v := by
  unfold get
  split <;> simp_all

theorem lookup_touch (c : DesiredStateCache State) (key other : HostKey) (now : Int) :
    exists f : Entry State -> Int,
      (c.touch key now).lookup other =
        (c.entries.lookup other).map fun e => { e with lastUsed := f e } := by
  unfold touch
  cases he : c.entries.lookup key with
  | none => exact ⟨Entry.lastUsed, by simp⟩
  | some e =>
      by_cases h : other = key
      · subst h
        exact ⟨fun _ => now, by simp [he]⟩
      · exact ⟨Entry.lastUsed, by simp [AList.lookup_insert_ne h]⟩

@[simp] theorem get_epoch (c : DesiredStateCache State) (key : HostKey) (v now : Int) :
    (c.get key v now).2.epoch = c.epoch := by
  unfold get
  split <;> rfl

@[simp] theorem get_served (c : DesiredStateCache State) (key other : HostKey)
    (v v' now : Int) : (c.get key v now).2.served other v' = c.served other v' := by
  unfold get
  split
  · rcases c.lookup_touch key other now with ⟨f, hf⟩
    unfold served
    rw [hf]
    cases c.entries.lookup other <;> rfl
  · rfl

@[simp] theorem get_generationOf (c : DesiredStateCache State) (key other : HostKey)
    (v now : Int) : (c.get key v now).2.generationOf other = c.generationOf other := by
  unfold get
  split
  · rcases c.lookup_touch key other now with ⟨f, hf⟩
    unfold generationOf
    rw [hf]
    cases c.entries.lookup other <;> rfl
  · rfl

@[simp] theorem get_stamp (c : DesiredStateCache State) (key other : HostKey)
    (v now : Int) : (c.get key v now).2.stamp other = c.stamp other :=
  stamp_eq_of (by simp) (by simp)

/-!
## invalidate_host
-/

theorem invalidateHost_served_self (c : DesiredStateCache State) (key : HostKey)
    (v now : Int) : (c.invalidateHost key now).served key v = none := by
  unfold invalidateHost
  rw [served_insert_self]
  rfl

theorem invalidateHost_served_ne (c : DesiredStateCache State) (v now : Int) (h : other ≠ key) :
    (c.invalidateHost key now).served other v = c.served other v :=
  served_insert_ne c _ v h

theorem invalidateHost_stamp_self (c : DesiredStateCache State) (key : HostKey)
    (now : Int) : c.stamp key < (c.invalidateHost key now).stamp key := by
  refine Prod.Lex.toLex_lt_toLex.mpr (Or.inr ⟨rfl, ?_⟩)
  unfold invalidateHost
  rw [generationOf_insert_self]
  unfold generationOf
  cases c.entries.lookup key <;> exact Nat.lt_succ_self _

theorem invalidateHost_stamp_le (c : DesiredStateCache State) (key other : HostKey)
    (now : Int) : c.stamp other ≤ (c.invalidateHost key now).stamp other := by
  by_cases h : other = key
  · subst h
    exact (c.invalidateHost_stamp_self other now).le
  · refine ge_of_eq (stamp_eq_of rfl ?_)
    exact generationOf_insert_ne c _ h

/-!
## forget_host
-/

theorem forgetHost_served_self (c : DesiredStateCache State) (key : HostKey) (v : Int) :
    (c.forgetHost key).served key v = none := by
  unfold forgetHost
  split
  · simp [served]
  · rename_i h
    simp [served, h]

theorem forgetHost_served_ne (c : DesiredStateCache State) (v : Int) (h : other ≠ key) :
    (c.forgetHost key).served other v = c.served other v := by
  unfold forgetHost
  split
  · simp [served, AList.lookup_erase_ne h]
  · rfl

theorem forgetHost_stamp_le (c : DesiredStateCache State) (key other : HostKey) :
    c.stamp other ≤ (c.forgetHost key).stamp other := by
  unfold forgetHost
  split
  · exact stamp_le_of_epoch_lt other (Nat.lt_succ_self c.epoch)
  · exact le_rfl

/-!
## put_if_current
-/

theorem reclaim_cases (c : DesiredStateCache State) (now : Int) :
    c.reclaim now = c ∨
      ((c.reclaim now).epoch = c.epoch + 1 ∧
        forall key e, (c.reclaim now).entries.lookup key = some e ->
          c.entries.lookup key = some e) := by
  unfold reclaim
  by_cases hfull : maxEntries ≤ size c.entries
  · rw [if_pos hfull]
    by_cases hkept : maxEntries ≤
        size (retain (fun e => decide (now - idleTtlSecs ≤ e.lastUsed)) c.entries)
    · refine Or.inr ⟨?_, ?_⟩
      · have hempty : size (∅ : Map HostKey (Entry State)) < size c.entries :=
          Nat.lt_of_lt_of_le (Nat.zero_lt_succ _) hfull
        simp only [if_pos hkept, if_pos hempty]
      · intro key e h
        simp only [if_pos hkept, AList.lookup_empty, reduceCtorEq] at h
    · simp only [if_neg hkept]
      by_cases hless :
          size (retain (fun e => decide (now - idleTtlSecs ≤ e.lastUsed)) c.entries) <
            size c.entries
      · refine Or.inr ⟨if_pos hless, ?_⟩
        intro key e h
        rw [lookup_retain] at h
        exact (Option.filter_eq_some_iff.mp h).1
      · left
        rw [if_neg hless, retain_eq_of_size (Nat.le_of_not_lt hless)]
  · exact Or.inl (if_neg hfull)

theorem putIfCurrent_stale (h : t.stamp ≠ c.stamp key) (v : Int) (s : State) (now : Int) :
    c.putIfCurrent key t v s now = (false, c) := by
  unfold putIfCurrent
  rw [ne_eq, ticket_current_iff, not_and_or] at h
  exact if_pos h

theorem putIfCurrent_current (h : t.stamp = c.stamp key) (v : Int) (s : State) (now : Int) :
    c.putIfCurrent key t v s now =
      (true, { c.reclaim now with
        entries := (c.reclaim now).entries.insert key
          { configVersion := v, state := some s, generation := c.generationOf key,
            lastUsed := now } }) := by
  unfold putIfCurrent
  rw [ticket_current_iff] at h
  exact if_neg (by simp [h.1, h.2])

/-- What the cache serves after a store was served before it, or is the stored
state itself, whose ticket was then still current. -/
theorem served_of_putIfCurrent {v v' now : Int} {s s' : State}
    (h : (c.putIfCurrent key t v s now).2.served other v' = some s') :
    c.served other v' = some s' ∨
      (t.stamp = c.stamp key ∧ other = key ∧ v' = v ∧ s' = s) := by
  by_cases ht : t.stamp = c.stamp key
  · rw [putIfCurrent_current ht] at h
    by_cases hkey : other = key
    · subst hkey
      rw [served_insert_self] at h
      by_cases hv : v = v'
      · refine Or.inr ⟨ht, rfl, hv.symm, ?_⟩
        simpa [hv, eq_comm] using h
      · simp [hv] at h
    · left
      rw [served_insert_ne _ _ _ hkey] at h
      rcases c.reclaim_cases now with hr | ⟨_, hr⟩
      · rwa [hr] at h
      · unfold served at h ⊢
        rcases Option.bind_eq_some_iff.mp h with ⟨e, he, hserved⟩
        rw [hr _ _ he]
        exact hserved
  · rw [putIfCurrent_stale ht] at h
    exact Or.inl h

theorem putIfCurrent_stamp_le (c : DesiredStateCache State) (key other : HostKey)
    (t : CacheTicket) (v : Int) (s : State) (now : Int) :
    c.stamp other ≤ (c.putIfCurrent key t v s now).2.stamp other := by
  by_cases ht : t.stamp = c.stamp key
  · rw [putIfCurrent_current ht]
    rcases c.reclaim_cases now with hr | ⟨hr, _⟩
    · rw [hr]
      refine ge_of_eq (stamp_eq_of rfl ?_)
      by_cases hkey : other = key
      · subst hkey
        exact generationOf_insert_self c _ _
      · exact generationOf_insert_ne c _ hkey
    · refine stamp_le_of_epoch_lt other ?_
      show c.epoch < (c.reclaim now).epoch
      rw [hr]
      exact Nat.lt_succ_self _
  · rw [putIfCurrent_stale ht]

end DesiredStateCache

/-!
# Computing through the cache

`compute_desired_state_at`, over whatever calls the cache and the computation
are made of.
-/

def computeDesiredStateAt {Op : Type} {Res : Op -> Type} {State Error : Type}
    (get : Program Res (Option State)) (ticket : Program Res CacheTicket)
    (computeUncached : Program Res (Except Error State))
    (putIfCurrent : CacheTicket -> State -> Program Res Bool) :
    Program Res (Except Error State) := do
  match ← get with
  | some cached => return Except.ok cached
  | none =>
    -- Before reading anything the result depends on.
    let t ← ticket
    match ← computeUncached with
    | Except.error e => return Except.error e
    | Except.ok computed =>
      let _ ← putIfCurrent t computed
      return Except.ok computed

end Agent
end FleetServer
