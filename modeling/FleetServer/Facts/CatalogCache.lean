import FleetServer.Facts.Catalog
import FleetServer.Server.World

/-!
# The cached catalogs

A catalog is kept with the generation it was built against and with the clock of
the request that built it.  A request that finds no catalog it may serve waits for
the tenant's build lock, looks again, and then reads the facts and keeps what it
built.
-/

namespace FleetServer
namespace Facts

open KeyedMap
open Server (CatalogChange CatalogGeneration)
open Catalog (FactsCatalog)

def catalogRefreshSecs : Int := 60

structure BuiltCatalog where
  catalog : FactsCatalog
  reads : List Nat

structure KeptCatalog where
  generation : CatalogGeneration
  at_ : Int
  built : BuiltCatalog

structure CatalogCache where
  generations : Map Int CatalogGeneration
  built : Map Int KeptCatalog

namespace CatalogCache

def new : CatalogCache :=
  { generations := ∅, built := ∅ }

def generation (cache : CatalogCache) (tenantId : Int) : CatalogGeneration :=
  (cache.generations.lookup tenantId).getD { any := 0, removed := 0 }

def bump (cache : CatalogCache) (tenantId : Int) (change : CatalogChange) : CatalogCache :=
  { cache with
    generations := cache.generations.insert tenantId
      ((cache.generation tenantId).bump change) }

/-- Served when nothing changed, or when only documents were stored, it is young, and
it lists some host. -/
def mayServe (current : CatalogGeneration) (now : Int) (kept : KeptCatalog) : Bool :=
  decide (kept.generation = current) ||
    (decide (kept.generation.removed = current.removed) &&
      decide (now - kept.at_ < catalogRefreshSecs) &&
      kept.built.catalog.sources.any fun s => decide (0 < s.hosts))

/-- The cached catalog if it may still be served, else the generation to build
against. -/
def lookup (cache : CatalogCache) (tenantId now : Int) :
    Except CatalogGeneration BuiltCatalog :=
  let current := cache.generation tenantId
  match cache.built.lookup tenantId with
  | none => Except.error current
  | some kept =>
      if mayServe current now kept then Except.ok kept.built else Except.error current

def keep (cache : CatalogCache) (tenantId : Int) (generation : CatalogGeneration) (now : Int)
    (built : BuiltCatalog) : CatalogCache :=
  { cache with
    built := cache.built.insert tenantId
      { generation := generation, at_ := now, built := built } }

end CatalogCache

/-!
# Requests among changes
-/

structure Bump where
  tenantId : Int
  change : CatalogChange
  at_ : Int

inductive Phase where
  | arrived
  | waiting
  | holding
  | building (generation : CatalogGeneration) (reads : List Nat)

/-- The clock is read once, when the request arrives. -/
structure CatalogRequest where
  tenantId : Int
  now : Int
  phase : Phase

def CatalogRequest.holds (r : CatalogRequest) : Bool :=
  match r.phase with
  | Phase.arrived => false
  | Phase.waiting => false
  | Phase.holding => true
  | Phase.building _ _ => true

/-- A lookup that was answered from the cache, and the changes reported before it. -/
structure Lookup where
  tenantId : Int
  now : Int
  built : BuiltCatalog
  before : List Bump

structure CatalogState where
  cache : CatalogCache
  clock : Int
  /-- Oldest first. -/
  bumps : List Bump
  requests : Map Nat CatalogRequest
  answered : List Lookup

namespace CatalogState

def start (clock : Int) : CatalogState :=
  { cache := CatalogCache.new, clock := clock, bumps := [], requests := ∅, answered := [] }

def setRequest (s : CatalogState) (id : Nat) (r : CatalogRequest) : CatalogState :=
  { s with requests := s.requests.insert id r }

def endRequest (s : CatalogState) (id : Nat) : CatalogState :=
  { s with requests := s.requests.erase id }

def answer (s : CatalogState) (id : Nat) (r : CatalogRequest) (built : BuiltCatalog) :
    CatalogState :=
  { s.endRequest id with
    answered := s.answered ++
      [{ tenantId := r.tenantId, now := r.now, built := built, before := s.bumps }] }

/-- Nobody holds the build lock of a tenant. -/
def Unlocked (s : CatalogState) (tenantId : Int) : Prop :=
  forall id r, s.requests.lookup id = some r -> r.tenantId = tenantId -> r.holds = false

end CatalogState

open CatalogState in
inductive CatalogStep (s : CatalogState) : CatalogState -> Prop where
  | tick {clock : Int} (hclock : s.clock ≤ clock) : CatalogStep s { s with clock := clock }
  | bump (tenantId : Int) (change : CatalogChange) :
      CatalogStep s
        { s with
          cache := s.cache.bump tenantId change
          bumps := s.bumps ++ [{ tenantId := tenantId, change := change, at_ := s.clock }] }
  | arrive {id : Nat} (tenantId : Int) (hnew : s.requests.lookup id = none) :
      CatalogStep s
        (s.setRequest id { tenantId := tenantId, now := s.clock, phase := Phase.arrived })
  -- The first lookup.
  | served {id : Nat} {r : CatalogRequest} {built : BuiltCatalog}
      (hr : s.requests.lookup id = some r) (hphase : r.phase = Phase.arrived)
      (hlookup : s.cache.lookup r.tenantId r.now = Except.ok built) :
      CatalogStep s (s.answer id r built)
  | missed {id : Nat} {r : CatalogRequest} {generation : CatalogGeneration}
      (hr : s.requests.lookup id = some r) (hphase : r.phase = Phase.arrived)
      (hlookup : s.cache.lookup r.tenantId r.now = Except.error generation) :
      CatalogStep s (s.setRequest id { r with phase := Phase.waiting })
  -- One build at a time per tenant.
  | lock {id : Nat} {r : CatalogRequest} (hr : s.requests.lookup id = some r)
      (hphase : r.phase = Phase.waiting) (hfree : s.Unlocked r.tenantId) :
      CatalogStep s (s.setRequest id { r with phase := Phase.holding })
  -- The second lookup, with the clock of the first.
  | servedAfter {id : Nat} {r : CatalogRequest} {built : BuiltCatalog}
      (hr : s.requests.lookup id = some r) (hphase : r.phase = Phase.holding)
      (hlookup : s.cache.lookup r.tenantId r.now = Except.ok built) :
      CatalogStep s (s.answer id r built)
  | begin_ {id : Nat} {r : CatalogRequest} {generation : CatalogGeneration}
      (hr : s.requests.lookup id = some r) (hphase : r.phase = Phase.holding)
      (hlookup : s.cache.lookup r.tenantId r.now = Except.error generation) :
      CatalogStep s (s.setRequest id { r with phase := Phase.building generation [] })
  | read {id : Nat} {r : CatalogRequest} {generation : CatalogGeneration} {reads : List Nat}
      (hr : s.requests.lookup id = some r)
      (hphase : r.phase = Phase.building generation reads) :
      CatalogStep s
        (s.setRequest id
          { r with phase := Phase.building generation (reads ++ [s.bumps.length]) })
  -- Whatever catalog the reads gave.
  | finish {id : Nat} {r : CatalogRequest} {generation : CatalogGeneration} {reads : List Nat}
      (catalog : FactsCatalog) (hr : s.requests.lookup id = some r)
      (hphase : r.phase = Phase.building generation reads) :
      CatalogStep s
        { s.endRequest id with
          cache := s.cache.keep r.tenantId generation r.now
            { catalog := catalog, reads := reads } }
  -- A read failed, or the client went away.
  | fail {id : Nat} {r : CatalogRequest} (hr : s.requests.lookup id = some r) :
      CatalogStep s (s.endRequest id)

inductive CatalogReachable : CatalogState -> Prop where
  | start (clock : Int) : CatalogReachable (CatalogState.start clock)
  | step {s s' : CatalogState} (hreachable : CatalogReachable s) (hstep : CatalogStep s s') :
      CatalogReachable s'

/-!
# What a catalog has seen
-/

/-- Changes reported after a read: none that is rebuilt at once, and documents were
stored only within the refresh interval. -/
def FreshReads (bumps : List Bump) (tenantId now : Int) (reads : List Nat) : Prop :=
  forall read, read ∈ reads -> forall b, b ∈ bumps.drop read -> b.tenantId = tenantId ->
    b.change = CatalogChange.stored ∧ now - catalogRefreshSecs < b.at_

def generationOf (tenantId : Int) (bumps : List Bump) : CatalogGeneration :=
  { any := bumps.countP fun b => decide (b.tenantId = tenantId)
    removed := bumps.countP fun b =>
      decide (b.tenantId = tenantId ∧ b.change ≠ CatalogChange.stored) }

/-- A generation and a clock that were taken before any of the reads: what was reported
since is no older than the clock. -/
structure Captured (bumps : List Bump) (clock tenantId : Int) (generation : CatalogGeneration)
    (at_ : Int) (reads : List Nat) : Prop where
  started : at_ ≤ clock
  split : exists before after, bumps = before ++ after ∧
    generation = generationOf tenantId before ∧
    (forall read, read ∈ reads -> before.length ≤ read) ∧ forall b, b ∈ after -> at_ ≤ b.at_

section Captures

variable {bumps : List Bump} {clock tenantId at_ now : Int} {generation : CatalogGeneration}
  {reads : List Nat}

theorem generationOf_append (tenantId : Int) (before after : List Bump) :
    generationOf tenantId (before ++ after) =
      { any := (generationOf tenantId before).any + (generationOf tenantId after).any
        removed :=
          (generationOf tenantId before).removed + (generationOf tenantId after).removed } := by
  unfold generationOf
  rw [List.countP_append, List.countP_append]

theorem captured_now (hat : at_ ≤ clock) :
    Captured bumps clock tenantId (generationOf tenantId bumps) at_ [] := by
  constructor
  · exact hat
  · refine ⟨bumps, [], (List.append_nil bumps).symm, rfl, ?_, ?_⟩
    · intro read hread
      cases hread
    · intro b hb
      cases hb

theorem captured_read (h : Captured bumps clock tenantId generation at_ reads) :
    Captured bumps clock tenantId generation at_ (reads ++ [bumps.length]) := by
  rcases h.split with ⟨before, after, hbumps, hgeneration, hreads, hafter⟩
  constructor
  · exact h.started
  · refine ⟨before, after, hbumps, hgeneration, ?_, hafter⟩
    intro read hread
    cases List.mem_append.mp hread with
    | inl hearlier => exact hreads read hearlier
    | inr hlast =>
        rw [List.mem_singleton.mp hlast, hbumps, List.length_append]
        omega

theorem captured_tick {clock' : Int} (h : Captured bumps clock tenantId generation at_ reads)
    (hclock : clock ≤ clock') : Captured bumps clock' tenantId generation at_ reads :=
  ⟨Int.le_trans h.started hclock, h.split⟩

theorem captured_bump {b : Bump} (h : Captured bumps clock tenantId generation at_ reads)
    (hb : b.at_ = clock) : Captured (bumps ++ [b]) clock tenantId generation at_ reads := by
  rcases h.split with ⟨before, after, hbumps, hgeneration, hreads, hafter⟩
  constructor
  · exact h.started
  · refine ⟨before, after ++ [b], ?_, hgeneration, hreads, ?_⟩
    · rw [hbumps, List.append_assoc]
    · intro c hc
      cases List.mem_append.mp hc with
      | inl hold => exact hafter c hold
      | inr hnew =>
          rw [List.mem_singleton.mp hnew, hb]
          exact h.started

theorem fresh_of_mayServe {kept : KeptCatalog}
    (h : Captured bumps clock tenantId kept.generation kept.at_ kept.built.reads)
    (hserve : CatalogCache.mayServe (generationOf tenantId bumps) now kept = true) :
    FreshReads bumps tenantId now kept.built.reads := by
  rcases h.split with ⟨before, after, hbumps, hgeneration, hreads, hafter⟩
  intro read hread b hb htenant
  have hlater : b ∈ after := by
    have hdrop : bumps.drop read = after.drop (read - before.length) := by
      rw [hbumps, List.drop_append, List.drop_of_length_le (hreads read hread)]
      rfl
    rw [hdrop] at hb
    exact List.mem_of_mem_drop hb
  rw [hbumps, generationOf_append] at hserve
  unfold CatalogCache.mayServe at hserve
  rw [hgeneration, Bool.or_eq_true, Bool.and_eq_true, Bool.and_eq_true] at hserve
  have hcounted : 0 < (generationOf tenantId after).any :=
    List.countP_pos_iff.mpr ⟨b, hlater, decide_eq_true htenant⟩
  rcases hserve with hsame | ⟨⟨hremoved, hyoung⟩, _⟩
  · have hany := congrArg CatalogGeneration.any (of_decide_eq_true hsame)
    simp only at hany
    omega
  · have hnone : (generationOf tenantId after).removed = 0 := by
      have hequal : (generationOf tenantId before).removed =
          (generationOf tenantId before).removed + (generationOf tenantId after).removed :=
        of_decide_eq_true hremoved
      omega
    constructor
    · by_contra hchange
      have hpos : 0 < (generationOf tenantId after).removed :=
        List.countP_pos_iff.mpr ⟨b, hlater, decide_eq_true ⟨htenant, hchange⟩⟩
      omega
    · have hrecent := of_decide_eq_true hyoung
      have hbumped := hafter b hlater
      omega

end Captures

/-!
# Every run
-/

structure CatalogInv (s : CatalogState) : Prop where
  generations : forall tenantId, s.cache.generation tenantId = generationOf tenantId s.bumps
  kept : forall tenantId kept, s.cache.built.lookup tenantId = some kept ->
    Captured s.bumps s.clock tenantId kept.generation kept.at_ kept.built.reads
  clocks : forall id r, s.requests.lookup id = some r -> r.now ≤ s.clock
  building : forall id r generation reads, s.requests.lookup id = some r ->
    r.phase = Phase.building generation reads ->
      Captured s.bumps s.clock r.tenantId generation r.now reads
  answered : forall a, a ∈ s.answered -> FreshReads a.before a.tenantId a.now a.built.reads

section Runs

variable {s s' : CatalogState} {id : Nat} {r : CatalogRequest} {tenantId now : Int}

theorem catalogInv_start (clock : Int) : CatalogInv (CatalogState.start clock) where
  generations := fun _ => rfl
  kept := fun _ _ h => by cases h
  clocks := fun _ _ h => by cases h
  building := fun _ _ _ _ h => by cases h
  answered := fun _ h => by cases h

theorem fresh_of_lookup (h : CatalogInv s) {built : BuiltCatalog}
    (hlookup : s.cache.lookup tenantId now = Except.ok built) :
    FreshReads s.bumps tenantId now built.reads := by
  unfold CatalogCache.lookup at hlookup
  simp only at hlookup
  cases hkept : s.cache.built.lookup tenantId with
  | none =>
      rw [hkept] at hlookup
      cases hlookup
  | some kept =>
      rw [hkept] at hlookup
      simp only at hlookup
      split at hlookup
      · rename_i hserve
        cases hlookup
        rw [h.generations] at hserve
        exact fresh_of_mayServe (h.kept tenantId kept hkept) hserve
      · cases hlookup

theorem generation_of_lookup (h : CatalogInv s) {generation : CatalogGeneration}
    (hlookup : s.cache.lookup tenantId now = Except.error generation) :
    generation = generationOf tenantId s.bumps := by
  unfold CatalogCache.lookup at hlookup
  simp only at hlookup
  rw [h.generations] at hlookup
  cases hkept : s.cache.built.lookup tenantId with
  | none =>
      rw [hkept] at hlookup
      cases hlookup
      rfl
  | some kept =>
      rw [hkept] at hlookup
      simp only at hlookup
      split at hlookup
      · cases hlookup
      · cases hlookup
        rfl

theorem catalogInv_setRequest (h : CatalogInv s) (hnow : r.now ≤ s.clock)
    (hbuilding : forall generation reads, r.phase = Phase.building generation reads ->
      Captured s.bumps s.clock r.tenantId generation r.now reads) :
    CatalogInv (s.setRequest id r) where
  generations := h.generations
  kept := h.kept
  clocks := by
    intro other q hq
    have hlookup : (s.requests.insert id r).lookup other = some q := hq
    by_cases hsame : other = id
    · rw [hsame, AList.lookup_insert] at hlookup
      cases hlookup
      exact hnow
    · rw [AList.lookup_insert_ne hsame] at hlookup
      exact h.clocks other q hlookup
  building := by
    intro other q generation reads hq hphase
    have hlookup : (s.requests.insert id r).lookup other = some q := hq
    by_cases hsame : other = id
    · rw [hsame, AList.lookup_insert] at hlookup
      cases hlookup
      exact hbuilding generation reads hphase
    · rw [AList.lookup_insert_ne hsame] at hlookup
      exact h.building other q generation reads hlookup hphase
  answered := h.answered

theorem lookup_endRequest {other : Nat} {q : CatalogRequest}
    (h : (s.endRequest id).requests.lookup other = some q) : s.requests.lookup other = some q := by
  have hlookup : (s.requests.erase id).lookup other = some q := h
  by_cases hsame : other = id
  · rw [hsame, AList.lookup_erase] at hlookup
    cases hlookup
  · rw [AList.lookup_erase_ne hsame] at hlookup
    exact hlookup

theorem catalogInv_endRequest (h : CatalogInv s) : CatalogInv (s.endRequest id) where
  generations := h.generations
  kept := h.kept
  clocks := fun other q hq => h.clocks other q (lookup_endRequest hq)
  building := fun other q generation reads hq =>
    h.building other q generation reads (lookup_endRequest hq)
  answered := h.answered

theorem catalogInv_answer (h : CatalogInv s) {built : BuiltCatalog}
    (hlookup : s.cache.lookup r.tenantId r.now = Except.ok built) :
    CatalogInv (s.answer id r built) :=
  { @catalogInv_endRequest s id h with
    answered := by
      intro a ha
      cases List.mem_append.mp ha with
      | inl hearlier => exact h.answered a hearlier
      | inr hlast =>
          rw [List.mem_singleton.mp hlast]
          exact fresh_of_lookup h hlookup }

theorem catalogInv_phase (h : CatalogInv s) (hr : s.requests.lookup id = some r) {phase : Phase}
    (hphase : forall generation reads, phase ≠ Phase.building generation reads) :
    CatalogInv (s.setRequest id { r with phase := phase }) :=
  catalogInv_setRequest h (h.clocks id r hr)
    fun generation reads heq => absurd heq (hphase generation reads)

theorem catalogInv_bump (h : CatalogInv s) (tenantId : Int) (change : CatalogChange) :
    CatalogInv { s with
      cache := s.cache.bump tenantId change
      bumps := s.bumps ++ [{ tenantId := tenantId, change := change, at_ := s.clock }] } where
  generations := by
    intro other
    show (s.cache.bump tenantId change).generation other = generationOf other (s.bumps ++ _)
    rw [generationOf_append]
    unfold CatalogCache.generation CatalogCache.bump
    simp only
    by_cases hsame : other = tenantId
    · subst hsame
      rw [AList.lookup_insert, h.generations]
      cases change with
      | stored => simp [CatalogGeneration.bump, generationOf]
      | removed => simp [CatalogGeneration.bump, generationOf]
      | operator => simp [CatalogGeneration.bump, generationOf]
    · rw [AList.lookup_insert_ne hsame]
      have hgeneration := h.generations other
      unfold CatalogCache.generation at hgeneration
      have hother : Not (tenantId = other) := fun heq => hsame heq.symm
      rw [hgeneration]
      simp [generationOf, hother]
  kept := fun other kept hkept => captured_bump (h.kept other kept hkept) rfl
  clocks := h.clocks
  building := fun other q generation reads hq hphase =>
    captured_bump (h.building other q generation reads hq hphase) rfl
  answered := h.answered

theorem catalogInv_step (h : CatalogInv s) (hstep : CatalogStep s s') : CatalogInv s' := by
  cases hstep with
  | tick hclock =>
      exact
        { h with
          kept := fun tenantId kept hkept => captured_tick (h.kept tenantId kept hkept) hclock
          clocks := fun id r hr => Int.le_trans (h.clocks id r hr) hclock
          building := fun id r generation reads hr hphase =>
            captured_tick (h.building id r generation reads hr hphase) hclock }
  | bump tenantId change => exact catalogInv_bump h tenantId change
  | arrive tenantId hnew =>
      apply catalogInv_setRequest h (Int.le_refl _)
      intro generation reads hphase
      cases hphase
  | served hr hphase hlookup => exact catalogInv_answer h hlookup
  | missed hr hphase hlookup => exact catalogInv_phase h hr fun _ _ heq => by cases heq
  | lock hr hphase hfree => exact catalogInv_phase h hr fun _ _ heq => by cases heq
  | servedAfter hr hphase hlookup => exact catalogInv_answer h hlookup
  | @begin_ id r generation hr hphase hlookup =>
      apply catalogInv_setRequest h
      · exact h.clocks id r hr
      · intro generation' reads heq
        cases heq
        rw [generation_of_lookup h hlookup]
        exact captured_now (h.clocks id r hr)
  | @read id r generation reads hr hphase =>
      apply catalogInv_setRequest h
      · exact h.clocks id r hr
      · intro generation' reads' heq
        cases heq
        exact captured_read (h.building id r generation reads hr hphase)
  | @finish id r generation reads catalog hr hphase =>
      have hended : CatalogInv (s.endRequest id) := catalogInv_endRequest h
      exact
        { hended with
          generations := h.generations
          kept := by
            intro other kept hkept
            have hlookup : (s.cache.built.insert r.tenantId
                { generation := generation, at_ := r.now,
                  built := { catalog := catalog, reads := reads } }).lookup other = some kept :=
              hkept
            by_cases hsame : other = r.tenantId
            · rw [hsame, AList.lookup_insert] at hlookup
              cases hlookup
              rw [hsame]
              exact h.building id r generation reads hr hphase
            · rw [AList.lookup_insert_ne hsame] at hlookup
              exact h.kept other kept hlookup }
  | fail hr => exact catalogInv_endRequest h

theorem catalogInv_reachable (h : CatalogReachable s) : CatalogInv s := by
  induction h with
  | start clock => exact catalogInv_start clock
  | step hreachable hstep ih => exact catalogInv_step ih hstep

/-- However changes, lookups and builds interleave, no lookup is answered from a catalog
built too long before: see `FreshReads`. -/
theorem answered_fresh (h : CatalogReachable s) {a : Lookup} (ha : a ∈ s.answered) :
    FreshReads a.before a.tenantId a.now a.built.reads :=
  (catalogInv_reachable h).answered a ha

end Runs

/-!
# A run
-/

def singleHost : FactsCatalog :=
  { sources := [{ source := "agent", hosts := 1, paths := [], truncated := false }] }

def storedAt100 : Bump :=
  { tenantId := 1, change := CatalogChange.stored, at_ := 100 }

def requestAt100 (phase : Phase) : CatalogRequest :=
  { tenantId := 1, now := 100, phase := phase }

def startWith (requests : Map Nat CatalogRequest) : CatalogState :=
  { CatalogState.start 100 with requests := requests }

theorem lock_first (r : CatalogRequest) (hphase : r.phase = Phase.waiting) :
    CatalogStep (startWith (AList.insert 0 r ∅))
      ((startWith (AList.insert 0 r ∅)).setRequest 0 { r with phase := Phase.holding }) := by
  apply CatalogStep.lock (AList.lookup_insert ∅) hphase
  intro id q hq _
  have hlookup : (AList.insert 0 r ∅ : Map Nat CatalogRequest).lookup id = some q := hq
  by_cases hid : id = 0
  · rw [hid, AList.lookup_insert] at hlookup
    cases hlookup
    unfold CatalogRequest.holds
    rw [hphase]
  · rw [AList.lookup_insert_ne hid, AList.lookup_empty] at hlookup
    cases hlookup

/-- The request of tenant 1 at 100 reads the facts, which are stored anew right after,
and the next request is served at 130. -/
theorem answered_fresh_stale : FreshReads [storedAt100] 1 130 [0] := by
  have harrived := (CatalogReachable.start 100).step
    (@CatalogStep.arrive (CatalogState.start 100) 0 1 rfl)
  have hmissed := harrived.step
    (@CatalogStep.missed _ 0 (requestAt100 Phase.arrived) { any := 0, removed := 0 } rfl rfl rfl)
  have hlocked := hmissed.step (lock_first (requestAt100 Phase.waiting) rfl)
  have hbegun := hlocked.step
    (@CatalogStep.begin_ _ 0 (requestAt100 Phase.holding) { any := 0, removed := 0 } rfl rfl rfl)
  have hread := hbegun.step
    (@CatalogStep.read _ 0 (requestAt100 (Phase.building { any := 0, removed := 0 } []))
      { any := 0, removed := 0 } [] rfl rfl)
  have hfinished := hread.step
    (@CatalogStep.finish _ 0 (requestAt100 (Phase.building { any := 0, removed := 0 } [0]))
      { any := 0, removed := 0 } [0] singleHost rfl rfl)
  have hbumped := hfinished.step (CatalogStep.bump 1 CatalogChange.stored)
  have hlater := hbumped.step (@CatalogStep.tick _ 130 (by decide))
  have hagain := hlater.step (@CatalogStep.arrive _ 1 1 rfl)
  have hserved := hagain.step
    (@CatalogStep.served _ 1 { tenantId := 1, now := 130, phase := Phase.arrived }
      { catalog := singleHost, reads := [0] } rfl rfl rfl)
  exact answered_fresh hserved (List.mem_singleton_self _)

end Facts
end FleetServer
