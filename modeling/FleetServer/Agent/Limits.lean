import FleetServer.Data.KeyedMap
import FleetServer.Server.Deps

/-!
# Limits on an agent's requests

What the server keeps about polls in memory: when every host last polled for its
desired state, and how many requests there were since the map was last swept.
Times are nanoseconds of a clock that never goes back.
-/

namespace FleetServer
namespace Agent

open FleetServer.Core
open Server

def nanosPerSec : Int := 1000000000

def pruneEvery : Nat := 512

def lastPollTtl : Int := 3600 * nanosPerSec

structure AgentRateLimits where
  lastPoll : KeyedMap.Map String Int
  sincePrune : Nat

namespace AgentRateLimits

def new : AgentRateLimits :=
  { lastPoll := ∅, sincePrune := 0 }

/-- Forget the hosts that have not polled for an hour. -/
def prune (now : Int) (l : AgentRateLimits) : AgentRateLimits :=
  { l with lastPoll := KeyedMap.retain (fun seen => decide (now - lastPollTtl < seen)) l.lastPoll }

def pruneIsDue (l : AgentRateLimits) : Bool :=
  decide (pruneEvery ≤ l.sincePrune + 1)

def maybePrune (now : Int) (l : AgentRateLimits) : AgentRateLimits :=
  if l.pruneIsDue then prune now { l with sincePrune := 0 }
  else { l with sincePrune := l.sincePrune + 1 }

/-- `conforms` is the answer of the host's request quota.  A refusal says after
how many seconds to retry. -/
def checkRequest (now : Int) (tier : TierLimits) (conforms : Bool) (l : AgentRateLimits) :
    Except Nat Unit × AgentRateLimits :=
  if conforms then (Except.ok (), l.maybePrune now)
  else
    let perMinute := max tier.perHostRequestsPerMinute 1
    (Except.error ((60 + perMinute - 1) / perMinute), l.maybePrune now)

/-- Whole seconds between two times, as a 32-bit number. -/
def elapsedSecs (now prev : Int) : Nat :=
  ((now - prev) / nanosPerSec).toNat % 2 ^ 32

def checkPollInterval (now : Int) (tier : TierLimits) (hostId : String) (l : AgentRateLimits) :
    Except Nat Unit × AgentRateLimits :=
  let accept := (Except.ok (), { l with lastPoll := l.lastPoll.insert hostId now })
  match l.lastPoll.lookup hostId with
  | none => accept
  | some prev =>
      let elapsed := elapsedSecs now prev
      if elapsed < tier.minPollIntervalSecs then
        (Except.error (tier.minPollIntervalSecs - elapsed), l)
      else accept

def checkAgent (now : Int) (tier : TierLimits) (hostId : String) (isPoll conforms : Bool)
    (l : AgentRateLimits) : Except Nat Unit × AgentRateLimits :=
  match l.checkRequest now tier conforms with
  | (Except.error retry, l') => (Except.error retry, l')
  | (Except.ok _, l') =>
      if isPoll then l'.checkPollInterval now tier hostId else (Except.ok (), l')

end AgentRateLimits

/-!
# Runs
-/

inductive LimitEvent where
  | request (hostId : String) (isPoll conforms : Bool)
  | prune

structure Polled where
  limits : AgentRateLimits
  accepted : List (String × Int)

section Runs

-- The effective limits of every host's tenant.
variable (tierOf : String -> TierLimits)

def pollInterval (hostId : String) : Int :=
  (tierOf hostId).minPollIntervalSecs * nanosPerSec

def Polled.step (p : Polled) (e : Int × LimitEvent) : Polled :=
  match e.2 with
  | LimitEvent.prune => { p with limits := p.limits.prune e.1 }
  | LimitEvent.request hostId isPoll conforms =>
      let (answer, limits) := p.limits.checkAgent e.1 (tierOf hostId) hostId isPoll conforms
      { limits := limits
        accepted :=
          if isPoll && answer.toBool then (hostId, e.1) :: p.accepted else p.accepted }

def Polled.run (events : List (Int × LimitEvent)) (p : Polled) : Polled :=
  events.foldl (Polled.step tierOf) p

def Polled.start : Polled :=
  { limits := AgentRateLimits.new, accepted := [] }

/-- Two accepted polls of one host are an interval apart. -/
def Spaced (accepted : List (String × Int)) : Prop :=
  accepted.Pairwise fun later earlier =>
    later.1 = earlier.1 -> earlier.2 + pollInterval tierOf later.1 ≤ later.2

def sweeps (l : AgentRateLimits) : LimitEvent -> Bool
  | LimitEvent.prune => true
  | LimitEvent.request _ _ _ => l.pruneIsDue

/-- A sweep at `now` would forget a poll whose interval is not over. -/
def forgetsEarly (l : AgentRateLimits) (now : Int) : Bool :=
  l.lastPoll.entries.any fun e =>
    decide (e.2 ≤ now - lastPollTtl) && decide (now < e.2 + pollInterval tierOf e.1)

def SweepsInTime : Polled -> List (Int × LimitEvent) -> Prop
  | _, [] => True
  | p, e :: rest =>
      (sweeps p.limits e.2 && forgetsEarly tierOf p.limits e.1) = false ∧
        SweepsInTime (p.step tierOf e) rest

end Runs

/-!
# What a sweep and a check leave
-/

namespace AgentRateLimits

theorem lookup_prune (now : Int) (l : AgentRateLimits) (hostId : String) :
    (l.prune now).lastPoll.lookup hostId =
      (l.lastPoll.lookup hostId).filter fun seen => decide (now - lastPollTtl < seen) :=
  KeyedMap.lookup_retain

theorem lastPoll_maybePrune (now : Int) (l : AgentRateLimits) :
    (l.maybePrune now).lastPoll =
      if l.pruneIsDue then (l.prune now).lastPoll else l.lastPoll := by
  unfold maybePrune
  split
  · rfl
  · rfl

theorem elapsedSecs_mul_le {now prev : Int} (h : prev ≤ now) :
    prev + elapsedSecs now prev * nanosPerSec ≤ now := by
  have hmod : elapsedSecs now prev ≤ ((now - prev) / nanosPerSec).toNat := Nat.mod_le _ _
  unfold nanosPerSec at hmod ⊢
  omega

theorem checkPollInterval_spec (now : Int) (tier : TierLimits) (hostId : String)
    (l : AgentRateLimits) :
    (exists retry, l.checkPollInterval now tier hostId = (Except.error retry, l)) ∨
      (l.checkPollInterval now tier hostId =
          (Except.ok (), { l with lastPoll := l.lastPoll.insert hostId now }) ∧
        forall prev, l.lastPoll.lookup hostId = some prev -> prev ≤ now ->
          prev + tier.minPollIntervalSecs * nanosPerSec ≤ now) := by
  unfold checkPollInterval
  split
  · rename_i hnone
    apply Or.inr
    refine ⟨rfl, ?_⟩
    intro prev hprev
    rw [hnone] at hprev
    cases hprev
  · rename_i prev hsome
    by_cases hearly : elapsedSecs now prev < tier.minPollIntervalSecs
    · apply Or.inl
      simp only [hearly, if_true]
      exact ⟨_, rfl⟩
    · apply Or.inr
      simp only [hearly, if_false, true_and]
      intro prev' hprev' hle
      rw [hsome] at hprev'
      cases hprev'
      have helapsed := elapsedSecs_mul_le hle
      unfold nanosPerSec at helapsed ⊢
      omega

end AgentRateLimits

/-!
# Polls are spaced
-/

section Spacing

variable {tierOf : String -> TierLimits}

/-- Every accepted poll is remembered, itself or by a later one, or its
interval is over. -/
def Remembered (lastPoll : KeyedMap.Map String Int) (now : Int) (poll : String × Int) : Prop :=
  (exists seen, lastPoll.lookup poll.1 = some seen ∧ poll.2 ≤ seen) ∨
    poll.2 + pollInterval tierOf poll.1 ≤ now

structure Paced (tierOf : String -> TierLimits) (p : Polled) (now : Int) : Prop where
  past : forall hostId seen, p.limits.lastPoll.lookup hostId = some seen -> seen ≤ now
  spaced : Spaced tierOf p.accepted
  remembered : forall poll, poll ∈ p.accepted ->
    @Remembered tierOf p.limits.lastPoll now poll

theorem remembered_later {lastPoll : KeyedMap.Map String Int} {now later : Int}
    {poll : String × Int} (h : @Remembered tierOf lastPoll now poll) (hle : now ≤ later) :
    @Remembered tierOf lastPoll later poll := by
  rcases h with h | h
  · exact Or.inl h
  · exact Or.inr (Int.le_trans h hle)

theorem Paced.later {p : Polled} {now later : Int} (h : Paced tierOf p now) (hle : now ≤ later) :
    Paced tierOf p later := by
  constructor
  · intro hostId seen hseen
    exact Int.le_trans (h.past hostId seen hseen) hle
  · exact h.spaced
  · intro poll hpoll
    exact remembered_later (h.remembered poll hpoll) hle

theorem forgetsEarly_eq_false {l : AgentRateLimits} {now seen : Int} {hostId : String}
    (h : forgetsEarly tierOf l now = false) (hseen : l.lastPoll.lookup hostId = some seen)
    (hold : seen ≤ now - lastPollTtl) : seen + pollInterval tierOf hostId ≤ now := by
  have hentry := AList.mem_lookup_iff.mp (show seen ∈ l.lastPoll.lookup hostId from hseen)
  unfold forgetsEarly at h
  have hnot := List.any_eq_false.mp h _ hentry
  simp only [hold, decide_true, Bool.true_and, decide_eq_true_eq, Int.not_lt] at hnot
  exact hnot

/-- A sweep in time forgets only polls whose interval is over. -/
theorem Paced.swept {p : Polled} {now : Int} (h : Paced tierOf p now) {swept : AgentRateLimits}
    (hswept : swept.lastPoll = (p.limits.prune now).lastPoll)
    (hkeeps : forgetsEarly tierOf p.limits now = false) :
    Paced tierOf { p with limits := swept } now := by
  have hlookup : forall hostId, swept.lastPoll.lookup hostId =
      (p.limits.lastPoll.lookup hostId).filter
        fun seen => decide (now - lastPollTtl < seen) := by
    intro hostId
    rw [hswept]
    exact AgentRateLimits.lookup_prune now p.limits hostId
  constructor
  · intro hostId seen hseen
    rw [show ({ p with limits := swept } : Polled).limits = swept from rfl, hlookup] at hseen
    exact h.past hostId seen (Option.filter_eq_some_iff.mp hseen).1
  · exact h.spaced
  · intro poll hpoll
    rcases h.remembered poll hpoll with ⟨seen, hseen, hle⟩ | hover
    · by_cases hold : seen ≤ now - lastPollTtl
      · have hover := forgetsEarly_eq_false hkeeps hseen hold
        exact Or.inr (by omega)
      · apply Or.inl
        refine ⟨seen, ?_, hle⟩
        show swept.lastPoll.lookup poll.1 = some seen
        rw [hlookup, hseen, Option.filter_some, if_pos (by simpa using hold)]
    · exact Or.inr hover

theorem Paced.accept {p : Polled} {now : Int} {hostId : String} (h : Paced tierOf p now)
    (hinterval : forall prev, p.limits.lastPoll.lookup hostId = some prev ->
      prev + pollInterval tierOf hostId ≤ now) :
    Paced tierOf
      { limits := { p.limits with lastPoll := p.limits.lastPoll.insert hostId now }
        accepted := (hostId, now) :: p.accepted } now := by
  have hnew : (p.limits.lastPoll.insert hostId now).lookup hostId = some now :=
    AList.lookup_insert _
  have hother : forall other, other ≠ hostId ->
      (p.limits.lastPoll.insert hostId now).lookup other = p.limits.lastPoll.lookup other :=
    fun other hne => AList.lookup_insert_ne hne
  constructor
  · intro other seen hseen
    by_cases hsame : other = hostId
    · rw [hsame, hnew] at hseen
      cases hseen
      exact Int.le_refl now
    · rw [hother other hsame] at hseen
      exact h.past other seen hseen
  · unfold Spaced
    rw [List.pairwise_cons]
    refine ⟨?_, h.spaced⟩
    intro earlier hearlier hsame
    show earlier.2 + pollInterval tierOf hostId ≤ now
    have hhost : hostId = earlier.1 := hsame
    rcases h.remembered earlier hearlier with ⟨seen, hseen, hle⟩ | hover
    · rw [← hhost] at hseen
      have hafter := hinterval seen hseen
      omega
    · rw [hhost]
      exact hover
  · intro poll hpoll
    rcases List.mem_cons.mp hpoll with hpoll | hpoll
    · rw [hpoll]
      exact Or.inl ⟨now, hnew, Int.le_refl now⟩
    · rcases h.remembered poll hpoll with ⟨seen, hseen, hle⟩ | hover
      · apply Or.inl
        by_cases hsame : poll.1 = hostId
        · rw [hsame] at hseen ⊢
          exact ⟨now, hnew, Int.le_trans hle (h.past hostId seen hseen)⟩
        · exact ⟨seen, by rw [hother poll.1 hsame]; exact hseen, hle⟩
      · exact Or.inr hover

theorem Paced.refuse {p : Polled} {now : Int} (h : Paced tierOf p now) {limits : AgentRateLimits}
    (hsame : limits.lastPoll = p.limits.lastPoll) :
    Paced tierOf { p with limits := limits } now := by
  constructor
  · intro hostId seen hseen
    rw [show ({ p with limits := limits } : Polled).limits = limits from rfl, hsame] at hseen
    exact h.past hostId seen hseen
  · exact h.spaced
  · intro poll hpoll
    have hremembered := h.remembered poll hpoll
    unfold Remembered at hremembered ⊢
    rw [show ({ p with limits := limits } : Polled).limits = limits from rfl, hsame]
    exact hremembered

theorem Paced.step {p : Polled} {e : Int × LimitEvent} (h : Paced tierOf p e.1)
    (hkeeps : (sweeps p.limits e.2 && forgetsEarly tierOf p.limits e.1) = false) :
    Paced tierOf (p.step tierOf e) e.1 := by
  rcases e with ⟨now, event⟩
  cases event with
  | prune =>
      apply h.swept rfl
      simpa [sweeps] using hkeeps
  | request hostId isPoll conforms =>
      -- The sweep comes before the quota and the interval are looked at.
      let checked : Polled := { p with limits := p.limits.maybePrune now }
      have hchecked : Paced tierOf checked now := by
        have hlast := AgentRateLimits.lastPoll_maybePrune now p.limits
        by_cases hdue : p.limits.pruneIsDue = true
        · rw [if_pos hdue] at hlast
          apply h.swept hlast
          simpa [sweeps, hdue] using hkeeps
        · rw [if_neg hdue] at hlast
          exact h.refuse hlast
      unfold Polled.step AgentRateLimits.checkAgent AgentRateLimits.checkRequest
      cases conforms with
      | false =>
          cases isPoll with
          | false => exact hchecked
          | true => exact hchecked
      | true =>
          cases isPoll with
          | false => exact hchecked
          | true =>
              simp only [if_true, Bool.true_and]
              rcases AgentRateLimits.checkPollInterval_spec now (tierOf hostId) hostId
                (p.limits.maybePrune now) with ⟨retry, heq⟩ | ⟨heq, hafter⟩
              · rw [heq]
                exact hchecked
              · rw [heq]
                apply hchecked.accept
                intro prev hprev
                exact hafter prev hprev (hchecked.past hostId prev hprev)

/-- What a whole run keeps. -/
theorem Paced.run {events : List (Int × LimitEvent)} :
    forall {p : Polled} {now : Int}, Paced tierOf p now ->
      (forall e, e ∈ events -> now ≤ e.1) ->
      (events.map Prod.fst).Pairwise (fun earlier later => earlier ≤ later) ->
      SweepsInTime tierOf p events -> Spaced tierOf (p.run tierOf events).accepted := by
  induction events with
  | nil =>
      intro p now h _ _ _
      exact h.spaced
  | cons e rest ih =>
      intro p now h hlater hsorted hkeeps
      rw [List.map_cons, List.pairwise_cons] at hsorted
      have hstep := (h.later (hlater e List.mem_cons_self)).step hkeeps.1
      apply ih hstep
      · intro e' he'
        exact hsorted.1 e'.1 (List.mem_map_of_mem he')
      · exact hsorted.2
      · exact hkeeps.2

theorem paced_start (now : Int) : Paced tierOf Polled.start now := by
  constructor
  · intro hostId seen hseen
    cases hseen
  · exact List.Pairwise.nil
  · intro poll hpoll
    cases hpoll

/-- Accepted polls of a host are its interval apart, as long as no sweep forgets
a poll before its interval is over. -/
theorem accepted_polls_spaced {events : List (Int × LimitEvent)}
    (hsorted : (events.map Prod.fst).Pairwise fun earlier later => earlier ≤ later)
    (hkeeps : SweepsInTime tierOf Polled.start events) :
    Spaced tierOf (Polled.start.run tierOf events).accepted := by
  cases events with
  | nil => exact List.Pairwise.nil
  | cons e rest =>
      apply (paced_start e.1).run _ hsorted hkeeps
      intro e' he'
      rcases List.mem_cons.mp he' with he' | he'
      · rw [he']
      · exact (List.pairwise_cons.mp hsorted).1 e'.1 (List.mem_map_of_mem he')

/-!
## Which sweeps are in time
-/

theorem poll_after_early_sweep {l : AgentRateLimits} {now : Int}
    (h : forgetsEarly tierOf l now = true) :
    exists hostId seen, l.lastPoll.lookup hostId = some seen ∧
      now < seen + pollInterval tierOf hostId ∧
      ((l.prune now).checkPollInterval now (tierOf hostId) hostId).1 = Except.ok () := by
  unfold forgetsEarly at h
  rcases List.any_eq_true.mp h with ⟨⟨hostId, seen⟩, hentry, hearly⟩
  rw [Bool.and_eq_true, decide_eq_true_eq, decide_eq_true_eq] at hearly
  have hseen : l.lastPoll.lookup hostId = some seen := AList.mem_lookup_iff.mpr hentry
  refine ⟨hostId, seen, hseen, hearly.2, ?_⟩
  have hforgotten : (l.prune now).lastPoll.lookup hostId = none := by
    rw [AgentRateLimits.lookup_prune, hseen, Option.filter_some, if_neg]
    simpa using hearly.1
  unfold AgentRateLimits.checkPollInterval
  rw [hforgotten]

theorem sweepsInTime_of_le_hour (h : forall hostId, (tierOf hostId).minPollIntervalSecs ≤ 3600)
    (events : List (Int × LimitEvent)) : forall p, SweepsInTime tierOf p events := by
  induction events with
  | nil =>
      intro p
      exact trivial
  | cons e rest ih =>
      intro p
      refine ⟨?_, ih (p.step tierOf e)⟩
      rw [Bool.and_eq_false_iff]
      apply Or.inr
      unfold forgetsEarly
      rw [List.any_eq_false]
      intro entry _
      have hhour := h entry.1
      rw [Bool.and_eq_true, decide_eq_true_eq, decide_eq_true_eq]
      unfold lastPollTtl pollInterval nanosPerSec
      omega

theorem lookupOrFree_minPollIntervalSecs_le (name : String) :
    (Tier.lookupOrFree name).minPollIntervalSecs ≤ 60 := by
  unfold Tier.lookupOrFree
  cases hfound : Tier.lookup name with
  | none => decide
  | some tier =>
      have hmem : tier ∈ Tier.all := List.mem_of_find?_eq_some hfound
      have hall : forall t, t ∈ Tier.all -> t.minPollIntervalSecs ≤ 60 := by decide
      exact hall tier hmem

theorem effective_minPollIntervalSecs_le (parse : String -> Option TierOverrides)
    (tierName : String) : (Tier.effective parse tierName none).minPollIntervalSecs ≤ 3600 :=
  Nat.le_trans (lookupOrFree_minPollIntervalSecs_le tierName) (by decide)

end Spacing

/-!
## An interval of two hours
-/

/-- Overrides that set the interval to two hours. -/
def slowDeps : Deps :=
  { Deps.sample with
    parseOverrides := fun _ =>
      some { maxHosts := none, minPollIntervalSecs := some 7200,
             perHostRequestsPerMinute := none, maxBundleMb := none, maxBundles := none } }

def slowTier (_ : String) : TierLimits :=
  slowDeps.limits "free" (some "{}")

/-- A host polls; after an hour the requests of another host make a sweep due;
the first host polls again. -/
def crowdedRun : List (Int × LimitEvent) :=
  (0, LimitEvent.request "a" true true) ::
    (List.replicate 511 (3600 * nanosPerSec, LimitEvent.request "b" false false) ++
      [(3601 * nanosPerSec, LimitEvent.request "a" true true)])

theorem sorted_crowdedRun :
    (crowdedRun.map Prod.fst).Pairwise fun earlier later => earlier ≤ later := by
  decide +kernel

theorem two_hour_polls_crowd :
    (crowdedRun.map Prod.fst).Pairwise (fun earlier later => earlier ≤ later) ∧
      ¬ Spaced slowTier (Polled.start.run slowTier crowdedRun).accepted := by
  constructor
  · exact sorted_crowdedRun
  · have haccepted : (Polled.start.run slowTier crowdedRun).accepted =
        [("a", 3601 * nanosPerSec), ("a", 0)] := by
      decide +kernel
    rw [haccepted]
    intro hspaced
    have hapart := (List.pairwise_cons.mp hspaced).1 ("a", 0) List.mem_cons_self rfl
    exact absurd hapart (by decide)

/-- The same polls with the tier's own interval. -/
theorem accepted_polls_spaced_crowdedRun :
    Spaced (fun _ => slowDeps.limits "free" none)
      (Polled.start.run (fun _ => slowDeps.limits "free" none) crowdedRun).accepted :=
  accepted_polls_spaced sorted_crowdedRun
    (sweepsInTime_of_le_hour (fun _ => effective_minPollIntervalSecs_le _ _) _ _)

end Agent
end FleetServer
