import FleetServer.Agent.Limits

/-!
# Request quotas

Every request of an agent is checked against a rate limiter of its tenant's
tier, which is created with the first request of that tier.  A rate limiter
keeps one state for every host.
-/

namespace FleetServer
namespace Agent

open FleetServer.Core
open Server
open KeyedMap

/-!
# Rate limiters
-/

/-- A quota algorithm: whether a request at a time conforms to a quota per
minute, given what is kept for its key, and what is kept from then on.  A key
that is not `recent` any more may be dropped. -/
structure Governor where
  State : Type
  check : Nat -> Int -> Option State -> Bool × Option State
  recent : Nat -> Int -> State -> Bool

namespace Governor

variable (g : Governor)

def answers (perMinute : Nat) : Option g.State -> List Int -> List Bool
  | _, [] => []
  | s, now :: later =>
      (g.check perMinute now s).1 :: answers perMinute (g.check perMinute now s).2 later

/-- From `now` on, no request can tell the two apart. -/
def Alike (perMinute : Nat) (now : Int) (s s' : Option g.State) : Prop :=
  forall times : List Int, (forall t, t ∈ times -> now ≤ t) ->
    times.Pairwise (fun earlier later => earlier ≤ later) ->
      g.answers perMinute s times = g.answers perMinute s' times

def DropsFresh : Prop :=
  forall perMinute now s, g.recent perMinute now s = false ->
    g.Alike perMinute now (some s) none

variable {g} {perMinute : Nat} {now later : Int} {s s' s'' : Option g.State}

theorem alike_refl : g.Alike perMinute now s s :=
  fun _ _ _ => rfl

theorem alike_symm (h : g.Alike perMinute now s s') : g.Alike perMinute now s' s :=
  fun times hlater hsorted => (h times hlater hsorted).symm

theorem alike_trans (h : g.Alike perMinute now s s') (h' : g.Alike perMinute now s' s'') :
    g.Alike perMinute now s s'' :=
  fun times hlater hsorted => (h times hlater hsorted).trans (h' times hlater hsorted)

theorem alike_later (h : g.Alike perMinute now s s') (hle : now ≤ later) :
    g.Alike perMinute later s s' := by
  intro times hlater hsorted
  apply h times _ hsorted
  intro t ht
  exact Int.le_trans hle (hlater t ht)

theorem alike_check (h : g.Alike perMinute now s s') (hle : now ≤ later) :
    (g.check perMinute later s).1 = (g.check perMinute later s').1 ∧
      g.Alike perMinute later (g.check perMinute later s).2
        (g.check perMinute later s').2 := by
  constructor
  · have hone := h [later] (fun t ht => by rw [List.mem_singleton.mp ht]; exact hle)
      (List.pairwise_singleton _ _)
    exact (List.cons.inj hone).1
  · intro times hlater hsorted
    have hmore := h (later :: times)
    have hafter : forall t, t ∈ later :: times -> now ≤ t := by
      intro t ht
      rcases List.mem_cons.mp ht with ht | ht
      · rw [ht]
        exact hle
      · exact Int.le_trans hle (hlater t ht)
    exact (List.cons.inj (hmore hafter (List.pairwise_cons.mpr ⟨hlater, hsorted⟩))).2

theorem alike_filter (hg : g.DropsFresh) :
    g.Alike perMinute now (s.filter (g.recent perMinute now)) s := by
  cases s with
  | none => exact alike_refl
  | some s =>
      cases hrecent : g.recent perMinute now s with
      | true =>
          rw [Option.filter_some, if_pos hrecent]
          exact alike_refl
      | false =>
          rw [Option.filter_some, hrecent]
          exact alike_symm (hg perMinute now s hrecent)

end Governor

/-!
# The limiters of the tiers
-/

abbrev HostOf : Type := Int × String

structure HostKeyedLimiter (g : Governor) where
  perMinute : Nat
  keys : Map HostOf g.State

structure RequestLimits (g : Governor) where
  polls : AgentRateLimits
  byTier : Map String (HostKeyedLimiter g)

def perMinute (tier : TierLimits) : Nat :=
  max tier.perHostRequestsPerMinute 1

namespace HostKeyedLimiter

variable {g : Governor}

def keyed (perMinute : Nat) : HostKeyedLimiter g :=
  { perMinute := perMinute, keys := ∅ }

def retainRecent (now : Int) (l : HostKeyedLimiter g) : HostKeyedLimiter g :=
  { l with keys := retain (g.recent l.perMinute now) l.keys }

def store (key : HostOf) (keys : Map HostOf g.State) : Option g.State -> Map HostOf g.State
  | some s => keys.insert key s
  | none => keys.erase key

def checkKey (now : Int) (key : HostOf) (l : HostKeyedLimiter g) : Bool × HostKeyedLimiter g :=
  let checked := g.check l.perMinute now (l.keys.lookup key)
  (checked.1, { l with keys := store key l.keys checked.2 })

end HostKeyedLimiter

namespace RequestLimits

variable {g : Governor}

def new : RequestLimits g :=
  { polls := AgentRateLimits.new, byTier := ∅ }

def limiterForTier (tier : TierLimits) (r : RequestLimits g) : HostKeyedLimiter g :=
  (r.byTier.lookup tier.name).getD (HostKeyedLimiter.keyed (perMinute tier))

def prune (now : Int) (r : RequestLimits g) : RequestLimits g :=
  { polls := r.polls.prune now
    byTier := mapValues (HostKeyedLimiter.retainRecent now) r.byTier }

def swept (now : Int) (r : RequestLimits g) : Map String (HostKeyedLimiter g) :=
  if r.polls.pruneIsDue then (r.prune now).byTier else r.byTier

def checkRequest (now : Int) (tier : TierLimits) (key : HostOf) (r : RequestLimits g) :
    Except Nat Unit × RequestLimits g :=
  let found : RequestLimits g := { r with byTier := r.swept now }
  let checked := (found.limiterForTier tier).checkKey now key
  let answered := r.polls.checkRequest now tier checked.1
  (answered.1,
    { polls := answered.2, byTier := found.byTier.insert tier.name checked.2 })

end RequestLimits

/-!
# Histories

Requests of hosts of any tenants, each with the tier and the overrides its
tenant has at the time.
-/

inductive QuotaEvent where
  | request (host : HostOf) (tierName : String) (overridesJson : Option String)
  | prune

section Histories

variable (g : Governor) (parse : String -> Option TierOverrides) (host : HostOf)

def QuotaEvent.isOf : QuotaEvent -> Bool
  | QuotaEvent.request h _ _ => h == host
  | QuotaEvent.prune => false

def answersTo : RequestLimits g -> List (Int × QuotaEvent) -> List (Except Nat Unit)
  | _, [] => []
  | r, (now, QuotaEvent.prune) :: rest => answersTo (r.prune now) rest
  | r, (now, QuotaEvent.request h tierName overridesJson) :: rest =>
      let checked := r.checkRequest now (Tier.effective parse tierName overridesJson) h
      if h = host then checked.1 :: answersTo checked.2 rest else answersTo checked.2 rest

def Rated : RequestLimits g -> List (Int × QuotaEvent) -> Prop
  | _, [] => True
  | r, (now, QuotaEvent.prune) :: rest => Rated (r.prune now) rest
  | r, (now, QuotaEvent.request h tierName overridesJson) :: rest =>
      let tier := Tier.effective parse tierName overridesJson
      (h = host -> (r.limiterForTier tier).perMinute = perMinute tier) ∧
        Rated (r.checkRequest now tier h).2 rest

/-- The host is rated by its own tenant's limits, and answered as if its requests
were the only ones. -/
def OwnQuota (events : List (Int × QuotaEvent)) : Prop :=
  Rated g parse host RequestLimits.new events ∧
    answersTo g parse host RequestLimits.new events =
      answersTo g parse host RequestLimits.new (events.filter fun e => e.2.isOf host)

def firstPerMinute (name : String) : List (Int × QuotaEvent) -> Option Nat
  | [] => none
  | (_, QuotaEvent.prune) :: rest => firstPerMinute name rest
  | (_, QuotaEvent.request _ tierName overridesJson) :: rest =>
      let tier := Tier.effective parse tierName overridesJson
      if tier.name = name then some (perMinute tier) else firstPerMinute name rest

/-- Whenever the host asks, the first request of its tier was one with the same
quota. -/
def FirstComeAlike (events : List (Int × QuotaEvent)) : Prop :=
  forall now tierName overridesJson,
    (now, QuotaEvent.request host tierName overridesJson) ∈ events ->
      firstPerMinute parse (Tier.effective parse tierName overridesJson).name events =
        some (perMinute (Tier.effective parse tierName overridesJson))

end Histories

/-!
# What the limiters keep of one host
-/

section View

variable {g : Governor} {host : HostOf} {name : String} {now : Int} {tier : TierLimits}
  {r a : RequestLimits g}

/-- The quota of a tier, and what is kept of the host for it. -/
def view (host : HostOf) (name : String) (r : RequestLimits g) : Option (Nat × Option g.State) :=
  (r.byTier.lookup name).map fun l => (l.perMinute, l.keys.lookup host)

def found (tier : TierLimits) (v : Option (Nat × Option g.State)) : Nat × Option g.State :=
  v.getD (perMinute tier, none)

def sweptView (now : Int) (v : Option (Nat × Option g.State)) : Option (Nat × Option g.State) :=
  v.map fun kept => (kept.1, kept.2.filter (g.recent kept.1 now))

theorem view_prune : view host name (r.prune now) = sweptView now (view host name r) := by
  unfold view RequestLimits.prune sweptView
  rw [lookup_mapValues, Option.map_map, Option.map_map]
  congr 1
  funext l
  show (l.perMinute, (retain (g.recent l.perMinute now) l.keys).lookup host) = _
  rw [lookup_retain]
  rfl

theorem view_swept : view host name { r with byTier := r.swept now } = view host name r ∨
    view host name { r with byTier := r.swept now } = sweptView now (view host name r) := by
  unfold RequestLimits.swept
  split
  · exact Or.inr view_prune
  · exact Or.inl rfl

theorem view_limiterForTier (host : HostOf) :
    ((r.limiterForTier tier).perMinute, (r.limiterForTier tier).keys.lookup host) =
      found tier (view host tier.name r) := by
  unfold RequestLimits.limiterForTier view found
  cases r.byTier.lookup tier.name with
  | none => rfl
  | some l => rfl

theorem lookup_store (key : HostOf) (keys : Map HostOf g.State) (s : Option g.State) :
    (HostKeyedLimiter.store key keys s).lookup key = s ∧
      forall other, other ≠ key ->
        (HostKeyedLimiter.store key keys s).lookup other = keys.lookup other := by
  cases s with
  | none => exact ⟨AList.lookup_erase key keys, fun other hother => AList.lookup_erase_ne hother⟩
  | some s => exact ⟨AList.lookup_insert keys, fun other hother => AList.lookup_insert_ne hother⟩

theorem lookup_checkKey (now : Int) (key : HostOf) (l : HostKeyedLimiter g) :
    (l.checkKey now key).2.perMinute = l.perMinute ∧
      (l.checkKey now key).2.keys.lookup key =
        (g.check l.perMinute now (l.keys.lookup key)).2 ∧
      forall other, other ≠ key ->
        (l.checkKey now key).2.keys.lookup other = l.keys.lookup other := by
  have hstore := lookup_store key l.keys (g.check l.perMinute now (l.keys.lookup key)).2
  exact ⟨rfl, hstore.1, hstore.2⟩

theorem view_checkRequest_other (hname : name ≠ tier.name) (key : HostOf) :
    view host name (r.checkRequest now tier key).2 =
      view host name { r with byTier := r.swept now } := by
  unfold RequestLimits.checkRequest view
  show ((AList.insert tier.name _ (r.swept now)).lookup name).map _ = _
  rw [AList.lookup_insert_ne hname]

theorem view_checkRequest_tier {key : HostOf} (hkey : host ≠ key) :
    view host tier.name (r.checkRequest now tier key).2 =
      some (found tier (view host tier.name { r with byTier := r.swept now })) := by
  let swept : RequestLimits g := { r with byTier := r.swept now }
  have hlookup := lookup_checkKey now key (swept.limiterForTier tier)
  unfold view
  show ((AList.insert tier.name _ (r.swept now)).lookup tier.name).map _ = _
  rw [AList.lookup_insert, Option.map_some, hlookup.1, hlookup.2.2 host hkey]
  exact congrArg some (view_limiterForTier host)

theorem view_checkRequest_own :
    view host tier.name (r.checkRequest now tier host).2 =
      some ((found tier (view host tier.name { r with byTier := r.swept now })).1,
        (g.check (found tier (view host tier.name { r with byTier := r.swept now })).1 now
          (found tier (view host tier.name { r with byTier := r.swept now })).2).2) := by
  let swept : RequestLimits g := { r with byTier := r.swept now }
  have hlookup := lookup_checkKey now host (swept.limiterForTier tier)
  have hfound : _ = found tier (view host tier.name swept) := view_limiterForTier host
  show ((AList.insert tier.name _ (r.swept now)).lookup tier.name).map _ = _
  rw [AList.lookup_insert, Option.map_some, hlookup.1, hlookup.2.1, ← hfound]

theorem answer_checkRequest :
    (r.checkRequest now tier host).1 =
      (r.polls.checkRequest now tier
        (g.check (found tier (view host tier.name { r with byTier := r.swept now })).1 now
          (found tier (view host tier.name { r with byTier := r.swept now })).2).1).1 := by
  let swept : RequestLimits g := { r with byTier := r.swept now }
  have hfound : _ = found tier (view host tier.name swept) := view_limiterForTier host
  rw [← hfound]
  rfl

theorem checkRequest_answer (l l' : AgentRateLimits) (conforms : Bool) :
    (l.checkRequest now tier conforms).1 = (l'.checkRequest now tier conforms).1 := by
  unfold AgentRateLimits.checkRequest
  split <;> rfl

end View

/-!
# Quotas go by the first request
-/

section First

variable {g : Governor} {parse : String -> Option TierOverrides} {host : HostOf}

def quotaOf (name : String) (r : RequestLimits g) : Option Nat :=
  (r.byTier.lookup name).map HostKeyedLimiter.perMinute

variable {name : String} {now : Int} {tier : TierLimits} {r : RequestLimits g}

theorem quotaOf_prune : quotaOf name (r.prune now) = quotaOf name r := by
  unfold quotaOf RequestLimits.prune
  rw [lookup_mapValues, Option.map_map]
  rfl

theorem quotaOf_swept : quotaOf name { r with byTier := r.swept now } = quotaOf name r := by
  unfold RequestLimits.swept
  split
  · exact quotaOf_prune
  · rfl

theorem perMinute_limiterForTier :
    (r.limiterForTier tier).perMinute = (quotaOf tier.name r).getD (perMinute tier) := by
  unfold RequestLimits.limiterForTier quotaOf
  cases r.byTier.lookup tier.name with
  | none => rfl
  | some l => rfl

theorem quotaOf_checkRequest (key : HostOf) :
    quotaOf name (r.checkRequest now tier key).2 =
      if tier.name = name then some ((quotaOf name r).getD (perMinute tier))
      else quotaOf name r := by
  show ((AList.insert tier.name _ (r.swept now)).lookup name).map _ = _
  split
  · rename_i hname
    subst hname
    rw [AList.lookup_insert, Option.map_some]
    have hkept : quotaOf tier.name { r with byTier := r.swept now } = quotaOf tier.name r :=
      quotaOf_swept
    rw [← hkept, ← perMinute_limiterForTier]
    rfl
  · rename_i hname
    rw [AList.lookup_insert_ne (Ne.symm hname)]
    exact quotaOf_swept

theorem firstPerMinute_request (name : String) (at_ : Int) (key : HostOf) (tierName : String)
    (overridesJson : Option String) (rest : List (Int × QuotaEvent)) :
    firstPerMinute parse name ((at_, QuotaEvent.request key tierName overridesJson) :: rest) =
      if (Tier.effective parse tierName overridesJson).name = name then
        some (perMinute (Tier.effective parse tierName overridesJson))
      else firstPerMinute parse name rest := rfl

/-- From any limiters, the host is rated right when the quota there is, or else
the first one to come, is its own. -/
theorem rated_iff (events : List (Int × QuotaEvent)) (r : RequestLimits g) :
    Rated g parse host r events <->
      forall now tierName overridesJson,
        (now, QuotaEvent.request host tierName overridesJson) ∈ events ->
          ((quotaOf (Tier.effective parse tierName overridesJson).name r).or
            (firstPerMinute parse (Tier.effective parse tierName overridesJson).name events)) =
              some (perMinute (Tier.effective parse tierName overridesJson)) := by
  induction events generalizing r with
  | nil => simp [Rated]
  | cons e rest ih =>
      rcases e with ⟨at_, event⟩
      cases event with
      | prune =>
          unfold Rated
          rw [ih (r.prune at_)]
          simp only [quotaOf_prune, List.mem_cons, Prod.mk.injEq, reduceCtorEq, and_false,
            false_or, firstPerMinute]
      | request key tierName overridesJson =>
          unfold Rated
          simp only
          rw [ih]
          have hafter : forall name,
              ((quotaOf name (r.checkRequest at_
                  (Tier.effective parse tierName overridesJson) key).2).or
                (firstPerMinute parse name rest)) =
              ((quotaOf name r).or (firstPerMinute parse name
                ((at_, QuotaEvent.request key tierName overridesJson) :: rest))) := by
            intro name
            rw [quotaOf_checkRequest, firstPerMinute_request]
            split
            · cases quotaOf name r <;> rfl
            · rfl
          rw [perMinute_limiterForTier]
          constructor
          · intro h now' tierName' overridesJson' hmem
            rcases List.mem_cons.mp hmem with heq | hmem
            · cases heq
              have hown := h.1 rfl
              rw [firstPerMinute_request, if_pos rfl]
              cases hquota : quotaOf (Tier.effective parse tierName overridesJson).name r with
              | none => rfl
              | some q =>
                  rw [hquota] at hown
                  exact congrArg some hown
            · rw [← hafter]
              exact h.2 now' tierName' overridesJson' hmem
          · intro h
            constructor
            · intro hkey
              subst hkey
              have hown := h at_ tierName overridesJson List.mem_cons_self
              rw [firstPerMinute_request, if_pos rfl] at hown
              cases hquota : quotaOf (Tier.effective parse tierName overridesJson).name r with
              | none => rfl
              | some q =>
                  rw [hquota] at hown
                  exact Option.some.inj hown
            · intro now' tierName' overridesJson' hmem
              rw [hafter]
              exact h now' tierName' overridesJson' (List.mem_cons_of_mem _ hmem)

theorem rated_new_iff (events : List (Int × QuotaEvent)) :
    Rated g parse host RequestLimits.new events <-> FirstComeAlike parse host events :=
  rated_iff events RequestLimits.new

end First

/-!
# The host alone
-/

section Alone

variable {g : Governor} {parse : String -> Option TierOverrides} {host : HostOf}
  {name : String} {now later : Int} {tier : TierLimits} {r a : RequestLimits g}
  {v u : Option (Nat × Option g.State)}

def Close (now : Int) (among alone : Option (Nat × Option g.State)) : Prop :=
  match alone with
  | some kept => exists s, among = some (kept.1, s) ∧ g.Alike kept.1 now s kept.2
  | none => forall kept, among = some kept -> g.Alike kept.1 now kept.2 none

theorem close_later (h : Close now v u) (hle : now ≤ later) : Close later v u := by
  cases u with
  | none =>
      intro kept hkept
      exact Governor.alike_later (h kept hkept) hle
  | some alone =>
      rcases h with ⟨s, hs, halike⟩
      exact ⟨s, hs, Governor.alike_later halike hle⟩

theorem close_swept_among (hg : g.DropsFresh) (h : Close now v u) :
    Close now (sweptView now v) u := by
  cases u with
  | none =>
      intro kept hkept
      rcases Option.map_eq_some_iff.mp hkept with ⟨before, hbefore, heq⟩
      rw [← heq]
      exact Governor.alike_trans (Governor.alike_filter hg) (h before hbefore)
  | some alone =>
      rcases h with ⟨s, hs, halike⟩
      refine ⟨s.filter (g.recent alone.1 now), ?_, ?_⟩
      · rw [hs]
        rfl
      · exact Governor.alike_trans (Governor.alike_filter hg) halike

theorem close_swept_alone (hg : g.DropsFresh) (h : Close now v u) :
    Close now v (sweptView now u) := by
  cases u with
  | none => exact h
  | some alone =>
      rcases h with ⟨s, hs, halike⟩
      refine ⟨s, hs, ?_⟩
      exact Governor.alike_trans halike (Governor.alike_symm (Governor.alike_filter hg))

theorem close_swept (hg : g.DropsFresh)
    (h : Close now (view host name r) (view host name a)) :
    Close now (view host name { r with byTier := r.swept now }) (view host name a) ∧
      Close now (view host name { r with byTier := r.swept now })
        (view host name { a with byTier := a.swept now }) := by
  have hamong : Close now (view host name { r with byTier := r.swept now })
      (view host name a) := by
    rcases @view_swept g host name now r with heq | heq
    · rw [heq]
      exact h
    · rw [heq]
      exact close_swept_among hg h
  constructor
  · exact hamong
  · rcases @view_swept g host name now a with heq | heq
    · rw [heq]
      exact hamong
    · rw [heq]
      exact close_swept_alone hg hamong

/-- A limiter that others create knows nothing of the host. -/
theorem close_found (h : Close now v u) : Close now (some (found tier v)) u := by
  cases v with
  | some kept => exact h
  | none =>
      cases u with
      | none =>
          intro kept hkept
          cases hkept
          exact Governor.alike_refl
      | some alone =>
          rcases h with ⟨s, hs, _⟩
          cases hs

/-- The host finds the same quota and the same state in both. -/
theorem found_close (h : Close now v u) (hown : (found tier v).1 = perMinute tier) :
    (found tier u).1 = (found tier v).1 ∧
      g.Alike (found tier v).1 now (found tier v).2 (found tier u).2 := by
  cases u with
  | some alone =>
      rcases h with ⟨s, hs, halike⟩
      rw [hs]
      exact ⟨rfl, halike⟩
  | none =>
      refine ⟨hown.symm, ?_⟩
      cases v with
      | none => exact Governor.alike_refl
      | some kept => exact h kept rfl

theorem close_other (hg : g.DropsFresh) {key : HostOf} (hkey : host ≠ key)
    (h : forall name, Close now (view host name r) (view host name a)) (name : String) :
    Close now (view host name (r.checkRequest now tier key).2) (view host name a) := by
  have hswept := (close_swept hg (h name)).1
  by_cases hname : name = tier.name
  · subst hname
    rw [view_checkRequest_tier hkey]
    exact close_found hswept
  · rw [view_checkRequest_other hname]
    exact hswept

theorem found_of_rated (hown : (r.limiterForTier tier).perMinute = perMinute tier) :
    (found tier (view host tier.name { r with byTier := r.swept now })).1 =
      perMinute tier := by
  rw [← view_limiterForTier]
  show (RequestLimits.limiterForTier tier { r with byTier := r.swept now }).perMinute = _
  rw [perMinute_limiterForTier] at hown ⊢
  rw [quotaOf_swept]
  exact hown

theorem close_own (hg : g.DropsFresh)
    (h : forall name, Close now (view host name r) (view host name a))
    (hown : (r.limiterForTier tier).perMinute = perMinute tier) :
    (r.checkRequest now tier host).1 = (a.checkRequest now tier host).1 ∧
      forall name, Close now (view host name (r.checkRequest now tier host).2)
        (view host name (a.checkRequest now tier host).2) := by
  have hboth := found_close (close_swept hg (h tier.name)).2 (found_of_rated hown)
  have hcheck := Governor.alike_check hboth.2 (Int.le_refl now)
  constructor
  · rw [answer_checkRequest, answer_checkRequest, hboth.1, hcheck.1]
    exact checkRequest_answer _ _ _
  · intro name
    by_cases hname : name = tier.name
    · subst hname
      rw [view_checkRequest_own, view_checkRequest_own, hboth.1]
      exact ⟨_, rfl, hcheck.2⟩
    · rw [view_checkRequest_other hname, view_checkRequest_other hname]
      exact (close_swept hg (h name)).2

theorem answersTo_own (at_ : Int) (tierName : String) (overridesJson : Option String)
    (rest : List (Int × QuotaEvent)) :
    answersTo g parse host r ((at_, QuotaEvent.request host tierName overridesJson) :: rest) =
      (r.checkRequest at_ (Tier.effective parse tierName overridesJson) host).1 ::
        answersTo g parse host
          (r.checkRequest at_ (Tier.effective parse tierName overridesJson) host).2 rest :=
  if_pos rfl

theorem answersTo_other {key : HostOf} (hkey : key ≠ host) (at_ : Int) (tierName : String)
    (overridesJson : Option String) (rest : List (Int × QuotaEvent)) :
    answersTo g parse host r ((at_, QuotaEvent.request key tierName overridesJson) :: rest) =
      answersTo g parse host
        (r.checkRequest at_ (Tier.effective parse tierName overridesJson) key).2 rest :=
  if_neg hkey

theorem answers_alone (hg : g.DropsFresh) {events : List (Int × QuotaEvent)} :
    forall {r a : RequestLimits g} {now : Int}, (forall e, e ∈ events -> now ≤ e.1) ->
      (events.map Prod.fst).Pairwise (fun earlier later => earlier ≤ later) ->
      (forall name, Close now (view host name r) (view host name a)) ->
      Rated g parse host r events ->
        answersTo g parse host r events =
          answersTo g parse host a (events.filter fun e => e.2.isOf host) := by
  induction events with
  | nil =>
      intro r a now _ _ _ _
      rfl
  | cons e rest ih =>
      intro r a now hlater hsorted hclose hrated
      rcases e with ⟨at_, event⟩
      rw [List.map_cons, List.pairwise_cons] at hsorted
      have hrest : forall e', e' ∈ rest -> at_ ≤ e'.1 :=
        fun e' he' => hsorted.1 e'.1 (List.mem_map_of_mem he')
      have hnow : now ≤ at_ := hlater _ List.mem_cons_self
      have hclose : forall name, Close at_ (view host name r) (view host name a) :=
        fun name => close_later (hclose name) hnow
      cases event with
      | prune =>
          unfold Rated at hrated
          rw [List.filter_cons_of_neg (by simp [QuotaEvent.isOf])]
          show answersTo g parse host (r.prune at_) rest = _
          apply ih hrest hsorted.2 _ hrated
          intro name
          rw [view_prune]
          exact close_swept_among hg (hclose name)
      | request key tierName overridesJson =>
          unfold Rated at hrated
          by_cases hkey : key = host
          · subst hkey
            have hown := close_own hg hclose (hrated.1 rfl)
            rw [List.filter_cons_of_pos (by simp [QuotaEvent.isOf])]
            rw [answersTo_own, answersTo_own, hown.1]
            exact congrArg _ (ih hrest hsorted.2 hown.2 hrated.2)
          · rw [List.filter_cons_of_neg (by simp [QuotaEvent.isOf, hkey])]
            rw [answersTo_other hkey]
            exact ih hrest hsorted.2 (close_other hg (Ne.symm hkey) hclose) hrated.2

theorem close_new (now : Int) (name : String) :
    Close now (view host name (RequestLimits.new : RequestLimits g))
      (view host name (RequestLimits.new : RequestLimits g)) := by
  intro kept hkept
  cases hkept

theorem ownQuota_of_firstComeAlike (hg : g.DropsFresh) {events : List (Int × QuotaEvent)}
    (hsorted : (events.map Prod.fst).Pairwise fun earlier later => earlier ≤ later)
    (h : FirstComeAlike parse host events) : OwnQuota g parse host events := by
  have hrated : Rated g parse host RequestLimits.new events := (rated_new_iff events).mpr h
  constructor
  · exact hrated
  · cases events with
    | nil => rfl
    | cons e rest =>
        have hlater : forall e', e' ∈ e :: rest -> e.1 ≤ e'.1 := by
          intro e' he'
          rcases List.mem_cons.mp he' with heq | hmem
          · rw [heq]
          · rw [List.map_cons, List.pairwise_cons] at hsorted
            exact hsorted.1 e'.1 (List.mem_map_of_mem hmem)
        exact answers_alone hg hlater hsorted (close_new e.1) hrated

/-- A host has its own tenant's quota, whatever others do, exactly if the first
request of its tier always was one with that quota; two such histories with the
same requests of the host answer them alike. -/
theorem quota_is_own_iff (g : Governor) (hg : g.DropsFresh)
    (parse : String -> Option TierOverrides) (host : HostOf)
    {events : List (Int × QuotaEvent)}
    (hsorted : (events.map Prod.fst).Pairwise fun earlier later => earlier ≤ later) :
    (OwnQuota g parse host events <-> FirstComeAlike parse host events) ∧
      forall events' : List (Int × QuotaEvent),
        (events'.map Prod.fst).Pairwise (fun earlier later => earlier ≤ later) ->
        FirstComeAlike parse host events -> FirstComeAlike parse host events' ->
        (events.filter fun e => e.2.isOf host) = (events'.filter fun e => e.2.isOf host) ->
          answersTo g parse host RequestLimits.new events =
            answersTo g parse host RequestLimits.new events' := by
  constructor
  · constructor
    · exact fun h => (rated_new_iff events).mp h.1
    · exact ownQuota_of_firstComeAlike hg hsorted
  · intro events' hsorted' h h' hsame
    have hfirst := (ownQuota_of_firstComeAlike hg hsorted h).2
    have hsecond := (ownQuota_of_firstComeAlike hg hsorted' h').2
    rw [hfirst, hsecond, hsame]

end Alone

/-!
# A tenant that is slower than its tier
-/

/-- A cell is added every `60 / perMinute` seconds, up to `perMinute` cells; what
is kept of a key is when it will be full again. -/
def cells : Governor where
  State := Int
  check := fun perMinute now full =>
    let each := 60 * nanosPerSec / perMinute
    let full := full.getD (now + each)
    if now < full - each * perMinute then (false, some full)
    else (true, some (max full now + each))
  recent := fun _ _ _ => true

theorem cells_dropsFresh : cells.DropsFresh := by
  intro perMinute now s h
  cases h

def slowOverrides (_ : String) : Option TierOverrides :=
  some { maxHosts := none, minPollIntervalSecs := none, perHostRequestsPerMinute := some 1,
         maxBundleMb := none, maxBundles := none }

def busyHost : HostOf := (1, "a")

/-- Two requests of a host of the free tier. -/
def ownRequests : List (Int × QuotaEvent) :=
  [(0, QuotaEvent.request busyHost "free" none), (1, QuotaEvent.request busyHost "free" none)]

/-- Before them, one of a tenant of the same tier that is allowed one a minute. -/
def slowFirst : List (Int × QuotaEvent) :=
  (0, QuotaEvent.request (2, "b") "free" (some "{}")) :: ownRequests

/-- A tenant's override decides how often another tenant's host may ask. -/
theorem others_slow_the_host :
    (slowFirst.map Prod.fst).Pairwise (fun earlier later => earlier ≤ later) ∧
      ¬ OwnQuota cells slowOverrides busyHost slowFirst ∧
      (slowFirst.filter fun e => e.2.isOf busyHost) =
        (ownRequests.filter fun e => e.2.isOf busyHost) ∧
      (answersTo cells slowOverrides busyHost RequestLimits.new slowFirst).map Except.toBool =
        [true, false] ∧
      (answersTo cells slowOverrides busyHost RequestLimits.new ownRequests).map Except.toBool =
        [true, true] := by
  refine ⟨by decide, ?_, rfl, by decide +kernel, by decide +kernel⟩
  intro h
  have hown := h.1.2.1 rfl
  revert hown
  decide +kernel

theorem quota_is_own_iff_ownRequests : OwnQuota cells slowOverrides busyHost ownRequests := by
  have hsorted : (ownRequests.map Prod.fst).Pairwise fun earlier later => earlier ≤ later := by
    decide
  apply (quota_is_own_iff cells cells_dropsFresh slowOverrides busyHost hsorted).1.mpr
  intro now tierName overridesJson hmem
  rcases List.mem_cons.mp hmem with heq | hmem
  · cases heq
    decide +kernel
  · cases List.mem_singleton.mp hmem
    decide +kernel

end Agent
end FleetServer
