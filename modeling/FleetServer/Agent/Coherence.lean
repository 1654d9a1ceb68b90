import FleetServer.Agent.Calls
import FleetServer.Agent.Inputs
import FleetServer.Concurrency.Record
import FleetServer.Server.Service
import FleetServer.Storage.Versions

/-!
# The cache against the database

A request that changes what a host's desired state is computed from owes the cache
something: it has to move the tenant's version, or to drop the host's entry.  As
long as somebody still owes it for a host, the host's entry may be out of date; a
ledger records who does.
-/

namespace FleetServer
namespace Agent
namespace Coherence

open FleetServer.Core
open Storage
open Server
open Concurrency

variable {db db' : Db} {op : Op} {note : Ledger} {v w : World} {s : DesiredState}

/-!
# What every call keeps
-/

theorem growsVersions_tx (s : Statement) (now : Int) : Tx.GrowsVersions (s.tx now) := by
  by_cases hwrites : Part.versions ∈ s.writes
  · cases s with
    | bumpConfigVersion tenantId =>
        intro db v db' h
        rw [bumpConfigVersion_eq_ok h]
        exact Db.versionsGrow_bumped db tenantId
    | renameBundle tenantId from_ to_ inPlace moved => exact BundlesRepo.rename_growsVersions
    | applyConfig tenantId plan => exact ConfigSourceRepo.apply_growsVersions
    | _ => simp [Statement.writes] at hwrites
  · exact growsVersions_of_keeps (Statement.keeps hwrites)

theorem versionsGrow_exec (op : Op) (w : World) : w.db.VersionsGrow (exec op w).2.db := by
  cases op with
  | statement s =>
      show w.db.VersionsGrow (s.exec w).2.db
      unfold Statement.exec
      split
      · rename_i answer db h
        exact growsVersions_tx s w.now w.db answer db h
      · exact Db.versionsGrow_refl w.db
  | _ => exact Db.versionsGrow_of_same (exec_same (by simp [Op.writes]) w)

theorem stamp_exec (op : Op) (w : World) (key : HostKey) :
    w.cache.stamp key ≤ (exec op w).2.cache.stamp key := by
  cases op with
  | statement s =>
      show _ ≤ (s.exec w).2.cache.stamp key
      unfold Statement.exec
      split <;> exact le_rfl
  | cacheGet other version =>
      show _ ≤ (w.cache.get other version w.now).2.stamp key
      rw [DesiredStateCache.get_stamp]
  | cachePut other ticket version state =>
      exact DesiredStateCache.putIfCurrent_stamp_le w.cache other key ticket version state w.now
  | invalidateHost other => exact DesiredStateCache.invalidateHost_stamp_le w.cache other key w.now
  | forgetHost other => exact DesiredStateCache.forgetHost_stamp_le w.cache other key
  | storeGet tenantId id => rw [exec_storeGet_world]
  | _ => exact le_rfl

def HasHost (key : HostKey) (db : Db) : Prop :=
  exists h, h ∈ db.hosts ∧ h.tenantId = key.1 ∧ h.id = key.2

def createsHost : Op -> Bool
  | Op.statement (Statement.createPending _ _ _ _) => true
  | _ => false

def HostsShrink (db db' : Db) : Prop :=
  forall key, HasHost key db' -> HasHost key db

theorem hostsShrink_of_same (h : db.Same Part.hosts db') : HostsShrink db db' := by
  intro key hkey
  rcases hkey with ⟨r, hr, htenant, hid⟩
  have hmem : r.lifecycle ∈ db.hosts.map HostRow.lifecycle := by
    rw [← show db'.hosts.map HostRow.lifecycle = _ from h]
    exact List.mem_map_of_mem hr
  rcases List.mem_map.mp hmem with ⟨r', hr', hsame⟩
  have htenants : r'.tenantId = r.tenantId := congrArg Lifecycle.tenantId hsame
  have hids : r'.id = r.id := congrArg Lifecycle.id hsame
  exact ⟨r', hr', htenants.trans htenant, hids.trans hid⟩

theorem hostsShrink_updateWhere {p : HostRow -> Bool} {f : HostRow -> HostRow}
    (hf : forall h, (f h).tenantId = h.tenantId ∧ (f h).id = h.id)
    (h : db'.hosts = Table.updateWhere p f db.hosts) : HostsShrink db db' := by
  intro key hkey
  rcases hkey with ⟨r, hr, htenant, hid⟩
  rw [h] at hr
  rcases Table.of_mem_updateWhere hr with ⟨r', hr', hsame | hchanged⟩
  · rw [hsame.2] at htenant hid
    exact ⟨r', hr', htenant, hid⟩
  · rw [hchanged.2] at htenant hid
    exact ⟨r', hr', (hf r').1.symm.trans htenant, (hf r').2.symm.trans hid⟩

theorem hostsShrink_tx {s : Statement} (hs : createsHost (Op.statement s) = false) {now : Int}
    {answer : s.Answer} (h : s.tx now db = Except.ok (answer, db')) :
    HostsShrink db db' := by
  by_cases hwrites : Part.hosts ∈ s.writes
  · cases s with
    | createPending id tenantId nonceHash expiresAt => cases hs
    | enroll tenantId hostId nonceHash hostname os cert =>
        simp only [Statement.tx, HostRepo.enroll] at h
        split at h
        · cases h
          exact fun key hkey => hkey
        · split at h
          · cases h
          · rename_i db'' hinsert
            cases h
            have hcert := (Tx.guarded_eq_ok.mp hinsert).2
            cases hcert
            exact hostsShrink_updateWhere (p := HostRepo.waitsFor tenantId hostId nonceHash now)
              (f := HostRepo.enrolled hostname os now) (fun _ => ⟨rfl, rfl⟩) rfl
    | deleteHost tenantId hostId =>
        simp only [Statement.tx, HostRepo.delete] at h
        split at h
        · cases h
        · cases h
          intro key hkey
          rcases hkey with ⟨r, hr, hkey⟩
          exact ⟨r, Table.mem_of_mem_deleteWhere hr, hkey⟩
    | revokeCertsAndResetToPending tenantId hostId nonceHash expiresAt =>
        simp only [Statement.tx, HostRepo.revokeCertsAndResetToPending] at h
        have heq := Tx.total_eq_ok.mp h
        split at heq
        · cases heq
          exact hostsShrink_updateWhere (p := isHost tenantId hostId)
            (f := fun h => { h with
              enrolledAt := none
              bootstrapNonceHash := some nonceHash
              bootstrapExpiresAt := some expiresAt }) (fun _ => ⟨rfl, rfl⟩) rfl
        · cases heq
          exact fun key hkey => hkey
    | _ => simp [Statement.writes] at hwrites
  · exact hostsShrink_of_same (Statement.keeps hwrites db answer db' h)

theorem hostsShrink_exec (hop : createsHost op = false) (w : World) :
    HostsShrink w.db (exec op w).2.db := by
  cases op with
  | statement s =>
      show HostsShrink w.db (s.exec w).2.db
      unfold Statement.exec
      split
      · rename_i answer db h
        exact hostsShrink_tx hop h
      · exact fun key hkey => hkey
  | _ => exact hostsShrink_of_same (exec_same (by simp [Op.writes]) w)

/-!
# The ledger
-/

/-- What is followed of one request: the hosts whose inputs it has changed without
having settled that, and the tag it has only just looked up. -/
structure Course where
  owes : HostKey -> Prop
  looked : Option (String × String × Option String)

def Course.blank : Course := { owes := fun _ => False, looked := none }

/-- Nothing computed before the call is served for the host any longer, nor stored. -/
def settled (key : HostKey) (op : Op) (w v : World) : Prop :=
  op = Op.invalidateHost key ∨ w.db.Moved v.db key.1

def lookedUp : Op -> World -> Option (String × String × Option String)
  | Op.query (Query.manualTag hostId key), w =>
      some (hostId, key, HostTagsRepo.manualValue hostId key w.db)
  | _, _ => none

def Course.after (op : Op) (w v : World) (c : Course) : Course where
  owes := fun key =>
    ¬ settled key op w v ∧ HasHost key v.db ∧
      (c.owes key ∨ hostInputs key v.db ≠ hostInputs key w.db)
  looked := lookedUp op w

/-- Of every request, by number. -/
abbrev Ledger := Nat -> Course

def Ledger.blank : Ledger := fun _ => Course.blank

@[reducible] def ledger (deps : Deps) : Recorder (service deps) Ledger where
  onCall := fun i _ op w v note => Function.update note i ((note i).after op w v)

/-- Somebody owes the cache something for the host. -/
def Owed (note : Ledger) (key : HostKey) : Prop :=
  exists i, (note i).owes key

/-!
# How the world moves on
-/

/-- As far as the entry of any one host is concerned. -/
structure Progress (x y : World × Ledger) : Prop where
  versions : x.1.db.VersionsGrow y.1.db
  stamp : forall key, x.1.cache.stamp key ≤ y.1.cache.stamp key
  hosts : HostsShrink x.1.db y.1.db
  inputs : forall key v, x.1.db.configVersion key.1 = some v ->
    y.1.db.configVersion key.1 = some v -> x.1.cache.stamp key = y.1.cache.stamp key ->
    HasHost key y.1.db ->
      (hostInputs key y.1.db = hostInputs key x.1.db ∧ (Owed x.2 key -> Owed y.2 key)) ∨
        Owed y.2 key

theorem progress_refl (x : World × Ledger) : Progress x x where
  versions := Db.versionsGrow_refl x.1.db
  stamp := fun _ => le_rfl
  hosts := fun _ hkey => hkey
  inputs := fun _ _ _ _ _ _ => Or.inl ⟨rfl, id⟩

theorem progress_trans {x y z : World × Ledger} (hxy : Progress x y) (hyz : Progress y z) :
    Progress x z where
  versions := Db.versionsGrow_trans _ _ _ hxy.versions hyz.versions
  stamp := fun key => (hxy.stamp key).trans (hyz.stamp key)
  hosts := fun key hkey => hxy.hosts key (hyz.hosts key hkey)
  inputs := by
    intro key v hx hz hstamp hhost
    -- Neither the version nor the stamp can have moved in between and back.
    have hy : y.1.db.configVersion key.1 = some v := by
      rcases hyz.versions key.1 v hz with ⟨u, hu, hle⟩
      rcases hxy.versions key.1 u hu with ⟨t, ht, hle'⟩
      rw [hx, Option.some.injEq] at ht
      rw [hu, Option.some.injEq]
      omega
    have hfirst : x.1.cache.stamp key = y.1.cache.stamp key :=
      le_antisymm (hxy.stamp key) (hstamp ▸ hyz.stamp key)
    have hsecond : y.1.cache.stamp key = z.1.cache.stamp key := hfirst.symm.trans hstamp
    rcases hyz.inputs key v hy hz hsecond hhost with hsame | howed
    · rcases hxy.inputs key v hx hy hfirst (hyz.hosts key hhost) with hsame' | howed'
      · exact Or.inl ⟨hsame.1.trans hsame'.1, fun h => hsame.2 (hsame'.2 h)⟩
      · exact Or.inr (hsame.2 howed')
    · exact Or.inr howed

theorem owed_after {i : Nat} {key : HostKey} (hsettled : ¬ settled key op w v)
    (hhost : HasHost key v.db) (h : Owed note key) :
    Owed (Function.update note i ((note i).after op w v)) key := by
  rcases h with ⟨j, hj⟩
  by_cases hij : j = i
  · rw [hij] at hj
    refine ⟨i, ?_⟩
    rw [Function.update_self]
    exact ⟨hsettled, hhost, Or.inl hj⟩
  · refine ⟨j, ?_⟩
    rw [Function.update_of_ne hij]
    exact hj

theorem not_settled {deps : Deps} {key : HostKey} {a : op.Res} {V : Int}
    (h : Outcome (service deps).machine op w a v) (hw : w.db.configVersion key.1 = some V)
    (hv : v.db.configVersion key.1 = some V) (hstamp : w.cache.stamp key = v.cache.stamp key) :
    ¬ settled key op w v := by
  intro hsettled
  rcases hsettled with hop | hmoved
  · subst hop
    rcases outcome_cases h with hok | hfailed
    · have hlt := DesiredStateCache.invalidateHost_stamp_self w.cache key w.now
      rw [hok.2] at hstamp
      exact absurd hstamp (ne_of_lt hlt)
    · cases hfailed.1
  · exact hmoved V hw hv

theorem progress_call {deps : Deps} {i : Nat} {request : Request} {op : Op} {w v : World}
    {note : Ledger} {a : op.Res} (hop : createsHost op = false)
    (h : Outcome (service deps).machine op w a v) :
    Progress (w, note) (v, (ledger deps).onCall i request op w v note) where
  versions := by
    rcases outcome_cases h with hok | hfailed
    · rw [hok.2]
      exact versionsGrow_exec op w
    · rw [hfailed.2]
      exact Db.versionsGrow_refl w.db
  stamp := by
    rcases outcome_cases h with hok | hfailed
    · rw [hok.2]
      exact stamp_exec op w
    · rw [hfailed.2]
      exact fun _ => le_rfl
  hosts := by
    rcases outcome_cases h with hok | hfailed
    · rw [hok.2]
      exact hostsShrink_exec hop w
    · rw [hfailed.2]
      exact fun _ hkey => hkey
  inputs := by
    intro key V hw hv hstamp hhost
    have hsettled := not_settled h hw hv hstamp
    by_cases hsame : hostInputs key v.db = hostInputs key w.db
    · exact Or.inl ⟨hsame, owed_after hsettled hhost⟩
    · refine Or.inr ⟨i, ?_⟩
      show (Function.update note i _ i).owes key
      rw [Function.update_self]
      exact ⟨hsettled, hhost, Or.inr hsame⟩

/-!
# Coherence
-/

/-- What is served at the tenant's version is the host's state, unless somebody still
owes the cache something. -/
structure Coherent (deps : Deps) (x : World × Ledger) : Prop where
  version : forall key v s V, x.1.cache.served key v = some s ->
    x.1.db.configVersion key.1 = some V -> v ≤ V
  state : forall key v s, x.1.cache.served key v = some s ->
    x.1.db.configVersion key.1 = some v -> HasHost key x.1.db ->
      (hostInputs key x.1.db).state deps key = Except.ok s ∨ Owed x.2 key

theorem coherent_start (deps : Deps) (db : Db) (files : KeyedMap.Map (Int × String) Bytes)
    (now : Int) : Coherent deps (World.start db files now, Ledger.blank) := by
  constructor
  · intro key v s V hserved
    cases hserved
  · intro key v s hserved
    cases hserved

/-- A compute under a ticket, which read the version first: as long as its result
would be stored and served, `P` holds of the inputs. -/
structure Holding (key : HostKey) (version : Int) (t : CacheTicket) (P : HostInputs -> Prop)
    (x : World × Ledger) : Prop where
  behind : forall V, x.1.db.configVersion key.1 = some V -> version ≤ V
  stamp : t.stamp ≤ x.1.cache.stamp key
  inputs : x.1.db.configVersion key.1 = some version -> t.stamp = x.1.cache.stamp key ->
    HasHost key x.1.db -> P (hostInputs key x.1.db) ∨ Owed x.2 key

theorem holding_progress {key : HostKey} {version : Int} {t : CacheTicket}
    {P : HostInputs -> Prop} {x y : World × Ledger} (h : Holding key version t P x)
    (hxy : Progress x y) : Holding key version t P y where
  behind := by
    intro V hV
    rcases hxy.versions key.1 V hV with ⟨u, hu, hle⟩
    exact Int.le_trans (h.behind u hu) hle
  stamp := h.stamp.trans (hxy.stamp key)
  inputs := by
    intro hversion hstamp hhost
    have hx : x.1.db.configVersion key.1 = some version := by
      rcases hxy.versions key.1 version hversion with ⟨u, hu, hle⟩
      have hlow := h.behind u hu
      rw [hu, Option.some.injEq]
      omega
    have hbefore : t.stamp = x.1.cache.stamp key :=
      le_antisymm h.stamp (hstamp ▸ hxy.stamp key)
    rcases hxy.inputs key version hx hversion (hbefore.symm.trans hstamp) hhost with
      hsame | howed
    · rcases h.inputs hx hbefore (hxy.hosts key hhost) with hP | howed
      · rw [hsame.1]
        exact Or.inl hP
      · exact Or.inr (hsame.2 howed)
    · exact Or.inr howed

theorem holding_mono {key : HostKey} {version : Int} {t : CacheTicket}
    {P Q : HostInputs -> Prop} {x : World × Ledger} (h : Holding key version t P x)
    (hPQ : P (hostInputs key x.1.db) -> Q (hostInputs key x.1.db)) :
    Holding key version t Q x where
  behind := h.behind
  stamp := h.stamp
  inputs := by
    intro hversion hstamp hhost
    rcases h.inputs hversion hstamp hhost with hP | howed
    · exact Or.inl (hPQ hP)
    · exact Or.inr howed

def Stores (deps : Deps) : Op -> World × Ledger -> Prop
  | Op.cachePut key t version s, x =>
      Holding key version t (fun i => i.state deps key = Except.ok s) x
  | _, _ => True

/-!
# What is served after a call
-/

theorem served_exec {key : HostKey} {v : Int} (h : (exec op w).2.cache.served key v = some s) :
    (w.cache.served key v = some s ∧ op ≠ Op.invalidateHost key) ∨
      exists t, op = Op.cachePut key t v s ∧ t.stamp = w.cache.stamp key := by
  cases op with
  | statement st =>
      refine Or.inl ⟨?_, fun hop => nomatch hop⟩
      have hcache : (st.exec w).2.cache = w.cache := by
        unfold Statement.exec
        split <;> rfl
      rw [← hcache]
      exact h
  | cacheGet other version =>
      refine Or.inl ⟨?_, fun hop => nomatch hop⟩
      have hserved : (w.cache.get other version w.now).2.served key v = some s := h
      rw [DesiredStateCache.get_served] at hserved
      exact hserved
  | cachePut other t version state =>
      rcases DesiredStateCache.served_of_putIfCurrent h with hold | hnew
      · exact Or.inl ⟨hold, fun hop => nomatch hop⟩
      · refine Or.inr ⟨t, ?_, ?_⟩
        · rw [hnew.2.1, hnew.2.2.1, hnew.2.2.2]
        · rw [hnew.2.1]
          exact hnew.1
  | invalidateHost other =>
      by_cases hother : key = other
      · rw [hother] at h
        have hnone := DesiredStateCache.invalidateHost_served_self w.cache other v w.now
        have hsome : (w.cache.invalidateHost other w.now).served other v = some s := h
        rw [hnone] at hsome
        cases hsome
      · refine Or.inl ⟨?_, fun hop => ?_⟩
        · have hserved : (w.cache.invalidateHost other w.now).served key v = some s := h
          rw [DesiredStateCache.invalidateHost_served_ne w.cache v w.now hother] at hserved
          exact hserved
        · cases hop
          exact hother rfl
  | forgetHost other =>
      refine Or.inl ⟨?_, fun hop => nomatch hop⟩
      have hserved : (w.cache.forgetHost other).served key v = some s := h
      by_cases hother : key = other
      · rw [hother, DesiredStateCache.forgetHost_served_self] at hserved
        cases hserved
      · rw [DesiredStateCache.forgetHost_served_ne w.cache v hother] at hserved
        exact hserved
  | storeGet tenantId id =>
      rw [exec_storeGet_world] at h
      exact Or.inl ⟨h, fun hop => nomatch hop⟩
  | _ => exact Or.inl ⟨h, fun hop => nomatch hop⟩

theorem served_outcome {deps : Deps} {a : op.Res} {key : HostKey} {version : Int}
    (h : Outcome (service deps).machine op w a v) (hserved : v.cache.served key version = some s) :
    (w.cache.served key version = some s ∧ op ≠ Op.invalidateHost key) ∨
      exists t, op = Op.cachePut key t version s ∧ t.stamp = w.cache.stamp key := by
  rcases outcome_cases h with hok | hfailed
  · rw [hok.2] at hserved
    exact served_exec hserved
  · rw [hfailed.2] at hserved
    refine Or.inl ⟨hserved, fun hop => ?_⟩
    subst hop
    cases hfailed.1

theorem state_outcome {deps : Deps} {i : Nat} {key : HostKey} (hsettled : ¬ settled key op w v)
    (hhost : HasHost key v.db)
    (hstate : (hostInputs key w.db).state deps key = Except.ok s ∨ Owed note key) :
    (hostInputs key v.db).state deps key = Except.ok s ∨
      Owed (Function.update note i ((note i).after op w v)) key := by
  rcases hstate with hstate | howed
  · by_cases hsame : hostInputs key v.db = hostInputs key w.db
    · rw [hsame]
      exact Or.inl hstate
    · refine Or.inr ⟨i, ?_⟩
      rw [Function.update_self]
      exact ⟨hsettled, hhost, Or.inr hsame⟩
  · exact Or.inr (owed_after hsettled hhost howed)

theorem coherent_call {deps : Deps} {i : Nat} {request : Request} {a : op.Res}
    (hx : Coherent deps (w, note)) (hop : createsHost op = false)
    (h : Outcome (service deps).machine op w a v) (hstores : Stores deps op (w, note)) :
    Coherent deps (v, (ledger deps).onCall i request op w v note) := by
  have hprogress : Progress (w, note) (v, (ledger deps).onCall i request op w v note) :=
    progress_call hop h
  constructor
  · intro key version s V hserved hV
    rcases hprogress.versions key.1 V hV with ⟨u, hu, hle⟩
    rcases served_outcome h hserved with hold | ⟨t, hput, _⟩
    · exact Int.le_trans (hx.version key version s u hold.1 hu) hle
    · subst hput
      exact Int.le_trans (hstores.behind u hu) hle
  · intro key version s hserved hversion hhost
    have hbefore : exists u, w.db.configVersion key.1 = some u ∧ u ≤ version :=
      hprogress.versions key.1 version hversion
    rcases hbefore with ⟨u, hu, hle⟩
    rcases served_outcome h hserved with hold | ⟨t, hput, hcurrent⟩
    · have hlow := hx.version key version s u hold.1 hu
      have hsame : w.db.configVersion key.1 = some version := by
        rw [hu, Option.some.injEq]
        omega
      have hsettled : ¬ settled key op w v := by
        intro hsettled
        rcases hsettled with hinvalidated | hmoved
        · exact hold.2 hinvalidated
        · exact hmoved version hsame hversion
      apply state_outcome hsettled hhost
      exact hx.state key version s hold.1 hsame (hprogress.hosts key hhost)
    · subst hput
      have hlow := hstores.behind u hu
      have hsame : w.db.configVersion key.1 = some version := by
        rw [hu, Option.some.injEq]
        omega
      have hsettled : ¬ settled key (Op.cachePut key t version s) w v := by
        intro hsettled
        rcases hsettled with hinvalidated | hmoved
        · cases hinvalidated
        · exact hmoved version hsame hversion
      apply state_outcome hsettled hhost
      exact hstores.inputs hsame hcurrent (hprogress.hosts key hhost)

/-!
# The contract
-/

@[reducible] def contract (deps : Deps) : Contract (ledger deps) where
  Inv := Coherent deps
  Rely := fun _ => Progress
  May := fun _ _ _ _ _ => True
  Guar := fun _ _ op x _ => createsHost op = false ∧ Stores deps op x
  refl := fun _ => progress_refl
  trans := fun _ _ _ _ => progress_trans
  inv_call := fun _ _ _ _ _ _ hx houtcome hguar => coherent_call hx hguar.1 houtcome hguar.2
  rely_call := fun _ _ _ _ _ _ _ _ _ houtcome hguar => progress_call hguar.1 houtcome
  env := by
    intro e x hx
    constructor
    · exact ⟨hx.version, hx.state⟩
    · intro i
      exact ⟨Db.versionsGrow_refl _, fun _ => le_rfl, fun _ hkey => hkey,
        fun _ _ _ _ _ _ => Or.inl ⟨rfl, id⟩⟩

/-!
# Walking through requests
-/

/-- Calls that neither store a state nor make a host. -/
def plain : Op -> Bool
  | Op.cachePut _ _ _ _ => false
  | op => !createsHost op

theorem guar_plain {deps : Deps} {op : Op} (hop : plain op = true) (x : World × Ledger) :
    createsHost op = false ∧ Stores deps op x := by
  cases op with
  | cachePut key t version s => cases hop
  | statement s => exact ⟨by simpa [plain] using hop, trivial⟩
  | _ => exact ⟨rfl, trivial⟩

variable {deps : Deps} {i : Nat} {request : Request} {x : World × Ledger}
variable {alpha beta : Type}

abbrev Obeys (deps : Deps) (i : Nat) (request : Request) {alpha : Type} (p : Prog alpha)
    (x : World × Ledger) : Prop :=
  (contract deps).Obeys i request p x

abbrev Ensures (deps : Deps) (i : Nat) (request : Request) {alpha : Type}
    (Post : alpha -> World × Ledger -> Prop) (p : Prog alpha) (x : World × Ledger) : Prop :=
  (contract deps).Ensures i request Post p x

theorem obeys_plain {p : Prog alpha} (hp : Program.Uses (fun op => plain op = true) p)
    (x : World × Ledger) : Obeys deps i request p x := by
  apply Contract.obeys_of_uses
  apply Program.uses_mono _ hp
  intro op hop y a v _ _
  exact guar_plain hop y

/-- A call that stores nothing, and what follows it. -/
theorem obeys_call {next : op.Res -> Prog alpha} (hop : plain op = true)
    (hnext : forall a y, Progress x y -> Obeys deps i request (next a) y) :
    Obeys deps i request (Program.call op next) x := by
  intro y _ hrely a v houtcome _
  constructor
  · exact guar_plain hop y
  · apply hnext
    have hguar := @guar_plain deps op hop y
    exact progress_trans hrely (progress_call hguar.1 houtcome)

section Poll

variable {key : HostKey} {version : Int} {t : CacheTicket} {P : HostInputs -> Prop}
  {Post : beta -> World × Ledger -> Prop}

theorem ensures_read {q : Query} {failed : beta} {next : q.Answer -> Prog beta}
    {Q : q.Answer -> HostInputs -> Prop} (hx : Holding key version t P x)
    (hread : forall now db, P (hostInputs key db) -> Q (q.eval now db) (hostInputs key db))
    (hnext : forall a z, Holding key version t (Q a) z -> Ensures deps i request Post (next a) z)
    (hfailed : forall y, Post failed y) :
    Ensures deps i request Post (askOr q failed next) x := by
  intro y _ hrely a v houtcome _
  have hguar := @guar_plain deps (Op.query q) rfl y
  refine ⟨hguar, ?_⟩
  have hy : Holding key version t P y := holding_progress hx hrely
  have hcall := @progress_call deps i request _ y.1 v y.2 a hguar.1 houtcome
  rcases outcome_cases houtcome with hok | hfail
  · rw [hok.1]
    apply hnext
    have hQ : Holding key version t (Q (q.eval y.1.now y.1.db)) y :=
      holding_mono hy (hread y.1.now y.1.db)
    exact holding_progress hQ hcall
  · have hr : a = Except.error DbError.unavailable := (Option.some.inj hfail.1).symm
    rw [hr]
    exact fun z _ _ => hfailed z

theorem facts_cons (source : String) (rest : List String) (inputs : HostInputs) :
    withDocument deps source (inputs.documents source) (inputs.facts deps rest) =
      inputs.facts deps (source :: rest) := by
  funext s
  unfold withDocument HostInputs.facts
  by_cases hs : s = source
  · rw [if_pos hs, if_pos (by rw [hs]; exact List.mem_cons_self), hs]
  · have hmem : s ∈ source :: rest <-> s ∈ rest := by simp [hs]
    rw [if_neg hs]
    simp only [hmem]

theorem ensures_loadForHost (sources : List String) {P : HostInputs -> Prop}
    {x : World × Ledger} (hx : Holding key version t P x) :
    Ensures deps i request
      (fun r y => forall facts, r = Except.ok facts ->
        Holding key version t (fun inputs => P inputs ∧ facts = inputs.facts deps sources) y)
      (loadForHost deps key.1 key.2 sources) x := by
  induction sources generalizing P x with
  | nil =>
      intro y _ hrely facts hfacts
      cases hfacts
      apply holding_mono (holding_progress hx hrely)
      intro hP
      refine ⟨hP, ?_⟩
      funext s
      simp [HostInputs.facts]
  | cons source rest ih =>
      unfold loadForHost
      let Q : Option StoredFacts -> HostInputs -> Prop := fun stored inputs =>
        P inputs ∧ stored.map StoredFacts.factsJson = inputs.documents source
      apply ensures_read (Q := Q) hx
      · exact fun _ _ hP => ⟨hP, rfl⟩
      · intro stored z hz
        apply Contract.ensures_bind (ih hz)
        intro r y _ hr
        cases r with
        | error e =>
            intro u _ _ facts hfacts
            cases hfacts
        | ok loaded =>
            intro u _ hu facts hfacts
            cases hfacts
            apply holding_mono (holding_progress (hr loaded rfl) hu)
            intro hboth
            refine ⟨hboth.1.1, ?_⟩
            rw [hboth.1.2, hboth.2]
            exact facts_cons source rest _
      · intro y facts hfacts
        cases hfacts

/-- What `compute_uncached` answers under a ticket is the state of the host's inputs,
for as long as it may be stored. -/
theorem ensures_computeUncached {x : World × Ledger}
    (hx : Holding key version t (fun _ => True) x) :
    Ensures deps i request
      (fun r y => forall s, r = Except.ok s ->
        Holding key version t (fun inputs => inputs.state deps key = Except.ok s) y)
      (computeUncached deps key.1 key.2) x := by
  have hfailed : forall (y : World × Ledger) (s : DesiredState),
      (Except.error ComputeError.database : Except ComputeError DesiredState) = Except.ok s ->
        Holding key version t (fun inputs => inputs.state deps key = Except.ok s) y :=
    fun _ _ hs => nomatch hs
  unfold computeUncached
  apply ensures_read (Q := fun tags inputs => tags = inputs.tags) hx (fun _ _ _ => rfl) _ hfailed
  intro tags x1 hx1
  apply ensures_read (Q := fun groups inputs => tags = inputs.tags ∧ groups = inputs.groups) hx1
    (fun _ _ htags => ⟨htags, rfl⟩) _ hfailed
  intro groups x2 hx2
  apply Contract.ensures_bind (ensures_loadForHost (sourcesOf (parsedSelectors deps groups)) hx2)
  intro r x3 _ hr
  cases r with
  | error e => exact fun y _ _ s hs => nomatch hs
  | ok facts =>
      have hx3 := hr facts rfl
      -- The ids are the ones the inputs select.
      have hids : forall inputs : HostInputs,
          (tags = inputs.tags ∧ groups = inputs.groups) ∧
              facts = inputs.facts deps (sourcesOf (parsedSelectors deps groups)) ->
            matchingGroupIds (parsedSelectors deps groups) tags facts =
              inputs.matching deps := by
        intro inputs h
        rw [h.2, h.1.1, h.1.2]
        rfl
      have hrest : forall (groupBundles : List (BundleRow × Int)) (y : World × Ledger),
          Holding key version t (fun inputs => groupBundles =
            inputs.bundles (inputs.matching deps)) y ->
          Ensures deps i request
            (fun r y => forall s, r = Except.ok s ->
              Holding key version t (fun inputs => inputs.state deps key = Except.ok s) y)
            (askOr (Query.hostOverride key.1 key.2) (Except.error ComputeError.database)
              fun stored => Program.done ((mergedConfig deps key.1 key.2 stored).map fun merged =>
                desiredStateOf deps merged groupBundles)) y := by
        intro groupBundles y hy
        apply ensures_read (Q := fun stored inputs =>
          groupBundles = inputs.bundles (inputs.matching deps) ∧ stored = inputs.stored) hy
          (fun _ _ h => ⟨h, rfl⟩) _ hfailed
        intro stored z hz u _ hu s hs
        apply holding_mono (holding_progress hz hu)
        intro h
        rw [← hs, h.1, h.2]
        rfl
      show Ensures deps i request _ (bundlesForGroups key.1 (matchingGroupIds
        (parsedSelectors deps groups) tags facts) (Except.error ComputeError.database) _) x3
      unfold bundlesForGroups
      split
      · rename_i hnone
        apply hrest
        apply holding_mono hx3
        intro h
        rw [← hids _ h, hnone]
        exact (listForGroups_nil key.1 x3.1.db).symm
      · rename_i id others hsome
        apply ensures_read (Q := fun groupBundles inputs =>
          groupBundles = inputs.bundles (inputs.matching deps)) hx3 _ _ hfailed
        · intro now db h
          show BundleAssignmentsRepo.listForGroups key.1 (id :: others) db = _
          rw [← hids _ h, hsome]
          rfl
        · exact fun groupBundles y hy => hrest groupBundles y hy

theorem obeys_computeThroughCache {x : World × Ledger}
    (hbehind : forall V, x.1.db.configVersion key.1 = some V -> version ≤ V) :
    Obeys deps i request (computeThroughCache deps key.1 key.2 version) x := by
  unfold computeThroughCache computeDesiredStateAt
  apply obeys_call rfl
  intro cached y hy
  cases cached with
  | some state => trivial
  | none =>
      intro z hz hyz ticket v houtcome _
      refine ⟨guar_plain rfl z, ?_⟩
      have hcall := @progress_call deps i request _ z.1 v z.2 ticket rfl houtcome
      rcases outcome_cases houtcome with hok | hfail
      · have hstart : Holding key version ticket (fun _ => True) z := by
          constructor
          · intro V hV
            rcases (progress_trans hy hyz).versions key.1 V hV with ⟨u, hu, hle⟩
            exact Int.le_trans (hbehind u hu) hle
          · rw [hok.1]
            exact le_rfl
          · exact fun _ _ _ => Or.inl trivial
        apply Contract.obeys_after (ensures_computeUncached (holding_progress hstart hcall))
        intro r u _ hr
        cases r with
        | error e => trivial
        | ok computed =>
            intro u' _ hrely stored v' _ _
            exact ⟨⟨rfl, holding_progress (hr computed rfl) hrely⟩, trivial⟩
      · cases hfail.1

end Poll

end Coherence
end Agent
end FleetServer
