import FleetServer.Accounts.Service

/-!
# Signups, all or nothing

A signup makes a tenant, the tenant's secrets and its owner by three
statements, and takes none of them back.  It leaves all of them or none as long
as nothing fails once the tenant is there.
-/

namespace FleetServer
namespace Accounts

open FleetServer.Core
open Concurrency
open Server (Role)
open Storage (Tenant TenantSecretsRow DbError)

/-!
# What a request made
-/

/-- The rows a request inserted: its tenant, the tenant whose secrets it stored,
and its user. -/
structure Made where
  tenant : Option Int
  secrets : Option Int
  user : Option User

def Made.nothing : Made :=
  { tenant := none, secrets := none, user := none }

def newTenant (w v : World) : Option Int :=
  (v.db.tenants.find? fun t => !w.db.hasTenant t.id).map Tenant.id

def newSecrets (w v : World) : Option Int :=
  (v.db.tenantSecrets.find? fun s =>
    !w.db.tenantSecrets.any fun r => r.tenantId == s.tenantId).map TenantSecretsRow.tenantId

def newUser (w v : World) : Option User :=
  v.db.users.find? fun u => !w.db.hasUser u.id

/-- What a request has made after a call. -/
def Made.after (m : Made) (op : Op) (w v : World) : Made :=
  match op with
  | Op.createTenant _ _ _ _ => { m with tenant := (newTenant w v).or m.tenant }
  | Op.createSecrets _ => { m with secrets := (newSecrets w v).or m.secrets }
  | Op.createUser _ _ _ => { m with user := (newUser w v).or m.user }
  | _ => m

variable (deps : Deps)

@[reducible] def making : Recorder (accounts deps) (Nat -> Made) where
  onCall := fun i _ op w v made j => if j = i then (made j).after op w v else made j

/-!
# Fresh rows
-/

theorem le_foldl_max (ids : List Int) (start : Int) :
    start ≤ ids.foldl max start ∧ forall id, id ∈ ids -> id ≤ ids.foldl max start := by
  induction ids generalizing start with
  | nil => exact ⟨le_refl start, fun id hid => absurd hid List.not_mem_nil⟩
  | cons head rest ih =>
      have hrest := ih (max start head)
      constructor
      · exact le_trans (le_max_left start head) hrest.1
      · intro id hid
        rcases List.mem_cons.mp hid with hid | hid
        · rw [hid]
          exact le_trans (le_max_right start head) hrest.1
        · exact hrest.2 id hid

theorem nextId_fresh (ids : List Int) : nextId ids ∉ ids := by
  intro h
  have hle := (le_foldl_max ids 0).2 (nextId ids) h
  unfold nextId at hle
  omega

theorem find?_append_new {Row : Type} {rows : List Row} {row : Row} {p : Row -> Bool}
    (hold : forall r, r ∈ rows -> p r = false) (hnew : p row = true) :
    (rows ++ [row]).find? p = some row := by
  have hnone : rows.find? p = none := by
    rw [List.find?_eq_none]
    intro r hr
    rw [hold r hr]
    exact Bool.false_ne_true
  rw [List.find?_append, hnone, Option.none_or, List.find?_cons, hnew]

theorem hasTenant_of_mem {db : Tables} {t : Tenant} (ht : t ∈ db.tenants) :
    db.hasTenant t.id = true :=
  List.any_eq_true.mpr ⟨t, ht, beq_self_eq_true t.id⟩

theorem hasUser_of_mem {db : Tables} {u : User} (hu : u ∈ db.users) : db.hasUser u.id = true :=
  List.any_eq_true.mpr ⟨u, hu, beq_self_eq_true u.id⟩

variable {deps} {w : World}

theorem newTenant_self (w : World) : newTenant w w = none := by
  unfold newTenant
  rw [Option.map_eq_none_iff, List.find?_eq_none]
  intro t ht
  rw [hasTenant_of_mem ht]
  exact Bool.false_ne_true

theorem newUser_self (w : World) : newUser w w = none := by
  unfold newUser
  rw [List.find?_eq_none]
  intro u hu
  rw [hasUser_of_mem hu]
  exact Bool.false_ne_true

theorem newSecrets_self (w : World) : newSecrets w w = none := by
  unfold newSecrets
  rw [Option.map_eq_none_iff, List.find?_eq_none]
  intro s hs
  have hany : (w.db.tenantSecrets.any fun r => r.tenantId == s.tenantId) = true :=
    List.any_eq_true.mpr ⟨s, hs, beq_self_eq_true s.tenantId⟩
  rw [hany]
  exact Bool.false_ne_true

/-- A call that leaves the tables alone makes nothing. -/
theorem after_self (m : Made) (op : Op) (w : World) : m.after op w w = m := by
  cases op with
  | createTenant slug name tier trial =>
      show { m with tenant := (newTenant w w).or m.tenant } = m
      rw [newTenant_self, Option.none_or]
  | createSecrets row =>
      show { m with secrets := (newSecrets w w).or m.secrets } = m
      rw [newSecrets_self, Option.none_or]
  | createUser tenantId email role =>
      show { m with user := (newUser w w).or m.user } = m
      rw [newUser_self, Option.none_or]
  | _ => rfl

/-- A guarded statement that is carried out met its guard. -/
theorem guarded_eq_ok {alpha : Type} {ok : Tables -> Bool} {f : Tables -> alpha × Tables}
    {db db' : Tables} {a : alpha} (h : Stmt.guarded ok f db = Except.ok (a, db')) :
    ok db = true ∧ f db = (a, db') := by
  unfold Stmt.guarded at h
  split at h
  · rename_i hok
    exact ⟨hok, Except.ok.inj h⟩
  · cases h

theorem createTenant_cases (m : Made) (slug name tier : String) (trial : Option Int) :
    (exists t, (exec (Op.createTenant slug name tier trial) w).1 = Except.ok t ∧
      m.after (Op.createTenant slug name tier trial) w
        (exec (Op.createTenant slug name tier trial) w).2 = { m with tenant := some t.id }) ∨
    exists e, (exec (Op.createTenant slug name tier trial) w).1 = Except.error e ∧
      m.after (Op.createTenant slug name tier trial) w
        (exec (Op.createTenant slug name tier trial) w).2 = m := by
  rcases w.apply_cases (TenantRepo.create w.around.now slug name tier trial) with
    ⟨t, db, hstmt, happly⟩ | ⟨e, _, happly⟩
  · apply Or.inl
    exists t
    have hexec : exec (Op.createTenant slug name tier trial) w =
        (Except.ok t, { w with db := db }) := happly
    rw [hexec]
    constructor
    · rfl
    · have hnew := (guarded_eq_ok hstmt).2
      have hdb : db.tenants = w.db.tenants ++ [t] := by
        rw [← (Prod.mk.inj hnew).1, ← (Prod.mk.inj hnew).2]
      have hid : t.id = nextId (w.db.tenants.map Tenant.id) := by
        rw [← (Prod.mk.inj hnew).1]
      have hfresh : w.db.hasTenant t.id = false := by
        unfold Tables.hasTenant
        rw [List.any_eq_false]
        intro r hr hsame
        apply nextId_fresh (w.db.tenants.map Tenant.id)
        rw [← hid, ← beq_iff_eq.mp hsame]
        exact List.mem_map_of_mem hr
      have hfound : newTenant w { w with db := db } = some t.id := by
        show (db.tenants.find? _).map Tenant.id = some t.id
        rw [hdb, find?_append_new]
        · rfl
        · intro r hr
          rw [hasTenant_of_mem hr]
          rfl
        · rw [hfresh]
          rfl
      show { m with tenant := (newTenant w { w with db := db }).or m.tenant } = _
      rw [hfound, Option.some_or]
  · apply Or.inr
    exists e
    have hexec : exec (Op.createTenant slug name tier trial) w = (Except.error e, w) := happly
    rw [hexec]
    exact ⟨rfl, after_self m _ w⟩

theorem createUser_ok (m : Made) {tenantId : Int} {email : String} {role : Role} {u : User}
    (h : (exec (Op.createUser tenantId email role) w).1 = Except.ok u) :
    (u.tenantId = tenantId ∧ u.role = role) ∧
      m.after (Op.createUser tenantId email role) w
        (exec (Op.createUser tenantId email role) w).2 = { m with user := some u } := by
  rcases w.apply_cases (UserRepo.create w.around.now tenantId email role) with
    ⟨v, db, hstmt, happly⟩ | ⟨e, _, happly⟩
  · have hexec : exec (Op.createUser tenantId email role) w =
        (Except.ok v, { w with db := db }) := happly
    rw [hexec] at h
    cases h
    rw [hexec]
    have hnew := (guarded_eq_ok hstmt).2
    have hdb : db.users = w.db.users ++ [u] := by
      rw [← (Prod.mk.inj hnew).1, ← (Prod.mk.inj hnew).2]
    have hid : u.id = nextId (w.db.users.map User.id) := by
      rw [← (Prod.mk.inj hnew).1]
    constructor
    · rw [← (Prod.mk.inj hnew).1]
      exact ⟨rfl, rfl⟩
    · have hfresh : w.db.hasUser u.id = false := by
        unfold Tables.hasUser
        rw [List.any_eq_false]
        intro r hr hsame
        apply nextId_fresh (w.db.users.map User.id)
        rw [← hid, ← beq_iff_eq.mp hsame]
        exact List.mem_map_of_mem hr
      have hfound : newUser w { w with db := db } = some u := by
        show db.users.find? _ = some u
        rw [hdb, find?_append_new]
        · intro r hr
          rw [hasUser_of_mem hr]
          rfl
        · rw [hfresh]
          rfl
      show { m with user := (newUser w { w with db := db }).or m.user } = _
      rw [hfound, Option.some_or]
  · have hexec : exec (Op.createUser tenantId email role) w = (Except.error e, w) := happly
    rw [hexec] at h
    cases h

theorem createSecrets_ok (m : Made) {row : TenantSecretsRow}
    (h : (exec (Op.createSecrets row) w).1 = Except.ok ()) :
    m.after (Op.createSecrets row) w (exec (Op.createSecrets row) w).2 =
      { m with secrets := some row.tenantId } := by
  rcases w.apply_cases (TenantSecretsRepo.create row) with
    ⟨v, db, hstmt, happly⟩ | ⟨e, _, happly⟩
  · have hexec : exec (Op.createSecrets row) w = (Except.ok v, { w with db := db }) := happly
    rw [hexec]
    have hguard := guarded_eq_ok hstmt
    have hdb : db.tenantSecrets = w.db.tenantSecrets ++ [row] := by
      rw [← (Prod.mk.inj hguard.2).2]
    have hfresh := ((Bool.and_eq_true _ _).mp hguard.1).2
    rw [Bool.not_eq_true', List.any_eq_false] at hfresh
    have hfound : newSecrets w { w with db := db } = some row.tenantId := by
      show (db.tenantSecrets.find? _).map TenantSecretsRow.tenantId = some row.tenantId
      rw [hdb, find?_append_new]
      · rfl
      · intro r hr
        have hany : (w.db.tenantSecrets.any fun s => s.tenantId == r.tenantId) = true :=
          List.any_eq_true.mpr ⟨r, hr, beq_self_eq_true r.tenantId⟩
        rw [hany]
        rfl
      · rw [Bool.not_eq_true', List.any_eq_false]
        intro r hr hsame
        exact hfresh r hr (Bool.or_eq_true_iff.mpr (Or.inl hsame))
    show { m with secrets := (newSecrets w { w with db := db }).or m.secrets } = _
    rw [hfound, Option.some_or]
  · have hexec : exec (Op.createSecrets row) w = (Except.error e, w) := happly
    rw [hexec] at h
    cases h

/-!
# Signups whose calls succeed
-/

/-- Whether a call gives a new tenant what it is made for. -/
def Op.provides (op : Op) (w : World) : Bool :=
  match op with
  | Op.generateTenantCa slug => (w.around.generateTenantCa slug).isSome
  | Op.createSecrets row => (exec (Op.createSecrets row) w).1.toBool
  | Op.createUser tenantId email role => (exec (Op.createUser tenantId email role) w).1.toBool
  | _ => true

def Op.equips : Op -> Bool
  | Op.secretsOf _ => true
  | Op.generateTenantCa _ => true
  | Op.createSecrets _ => true
  | Op.createUser _ _ _ => true
  | _ => false

/-- No signup fails once its tenant is there: its tenant's secrets can be read,
generated and stored, and its owner can be inserted. -/
def signupsProvided (p : Pool (accounts deps)) (c : Concurrency.Choice (accounts deps)) : Bool :=
  match c, p.caller? c with
  | Concurrency.Choice.exec _, some (_, Request.signup _, op) => op.provides p.world
  | Concurrency.Choice.fault _, some (_, Request.signup _, op) => !op.equips
  | _, _ => true

def SignupStep : (op : Op) -> op.Res -> Made -> Made -> Prop
  | Op.createTenant _ _ _ _, Except.ok t, m, m' => m' = { m with tenant := some t.id }
  | Op.secretsOf _, Except.error _, _, _ => False
  | Op.generateTenantCa _, none, _, _ => False
  | Op.createSecrets _, Except.error _, _, _ => False
  | Op.createSecrets row, Except.ok _, m, m' => m' = { m with secrets := some row.tenantId }
  | Op.createUser _ _ _, Except.error _, _, _ => False
  | Op.createUser tenantId _ role, Except.ok u, m, m' =>
      (u.tenantId = tenantId ∧ u.role = role) ∧ m' = { m with user := some u }
  | _, _, m, m' => m' = m

/-- A signup made a tenant with an owner, and was answered so; or nothing. -/
def Whole (response : Response) (m : Made) : Prop :=
  (exists u, m.user = some u ∧ u.role = Role.owner ∧ m.tenant = some u.tenantId ∧
    response = Response.noContent) ∨ m = Made.nothing

def Complete : Request -> Response -> Made -> Prop
  | Request.signup _, response, m => Whole response m
  | _, _, _ => True

def StepOf : Request -> (op : Op) -> op.Res -> Made -> Made -> Prop
  | Request.signup _ => SignupStep
  | _ => fun _ _ _ _ => True

/-!
# A signup's program
-/

section Signup

variable {m : Made}

theorem leads_issueAndSendLink (n : Nat) (email : String) (tenantId userId : Int) :
    Program.Leads SignupStep (fun _ m' => m' = m) (issueAndSendLink deps n email tenantId userId)
      m := by
  apply Program.leads_of_uses
  refine ⟨fun _ _ _ h => h, fun now => ?_⟩
  refine ⟨fun a _ _ h => by cases a <;> exact h, fun stored => ?_⟩
  simp only [Program.bind]
  cases stored with
  | error e => trivial
  | ok stored => exact ⟨fun _ _ _ h => h, fun _ => trivial⟩

theorem leads_signupOwner (n : Nat) (tenant : Tenant) (email : String)
    (hm : m.tenant = some tenant.id) :
    Program.Leads SignupStep Whole (signupOwner deps n tenant email) m := by
  intro a m' hstep
  cases a with
  | error e => exact hstep.elim
  | ok user =>
      apply Program.leads_bind (leads_issueAndSendLink n user.email tenant.id user.id)
      intro sent mlink hlink
      rw [hlink, hstep.2]
      refine Or.inl ⟨user, rfl, hstep.1.2, ?_, rfl⟩
      rw [hstep.1.1]
      exact hm

theorem leads_ensureSecrets (n : Nat) (tenant : Tenant) (hm : m.tenant = some tenant.id) :
    Program.Leads SignupStep (fun secured m' => secured = true ∧ m'.tenant = some tenant.id)
      (ensureSecrets deps n tenant) m := by
  intro found m' hstep
  cases found with
  | error e => exact hstep.elim
  | ok found =>
      have hsame : m' = m := hstep
      rw [hsame]
      cases found with
      | some secrets => exact ⟨rfl, hm⟩
      | none =>
          intro generated mca hstep
          cases generated with
          | none => exact hstep.elim
          | some ca =>
              have hsame : mca = m := hstep
              rw [hsame]
              intro stored msecrets hstep
              cases stored with
              | error e => exact hstep.elim
              | ok stored =>
                  have hsecrets : msecrets = { m with secrets := some tenant.id } := hstep
                  rw [hsecrets]
                  exact ⟨rfl, hm⟩

theorem leads_signupTenant (n : Nat) (slug name email : String) :
    Program.Leads SignupStep Whole (signupTenant deps n slug name email) Made.nothing := by
  intro now m hm
  have hm : m = Made.nothing := hm
  rw [hm]
  intro a m' hstep
  cases a with
  | error e => exact Or.inr hstep
  | ok tenant =>
      have hmade : m' = { Made.nothing with tenant := some tenant.id } := hstep
      have htenant : m'.tenant = some tenant.id := by rw [hmade]
      apply Program.leads_bind (leads_ensureSecrets n tenant htenant)
      intro secured msecured hsecured
      rw [hsecured.1]
      intro logged mlogged hlogged
      have hsame : mlogged = msecured := by cases logged <;> exact hlogged
      apply leads_signupOwner
      rw [hsame]
      exact hsecured.2

theorem leads_remind (n : Nat) (existing : User) :
    Program.Leads SignupStep Whole (remind deps n existing) Made.nothing := by
  unfold remind
  split
  · exact Or.inr rfl
  · apply Program.leads_bind
      (leads_issueAndSendLink n existing.email existing.tenantId existing.id)
    exact fun sent m' hm' => Or.inr hm'

theorem leads_signupAllowed (n : Nat) (body : SignupBody) (slug email : String) :
    Program.Leads SignupStep Whole (signupAllowed deps n body slug email) Made.nothing := by
  intro decision m hm
  have hm : m = Made.nothing := hm
  rw [hm]
  cases decision with
  | emailLimited => exact Or.inr rfl
  | ipLimited => exact Or.inr rfl
  | budgetExceeded => exact Or.inr rfl
  | allow =>
      intro human m hm
      have hm : m = Made.nothing := hm
      rw [hm]
      simp only [Program.bind]
      split
      · exact Or.inr rfl
      · intro taken m hm
        have hm : m = Made.nothing := by cases taken <;> exact hm
        rw [hm]
        simp only [Program.bind]
        split
        · exact Or.inr rfl
        · intro found m hm
          have hm : m = Made.nothing := by cases found <;> exact hm
          rw [hm]
          simp only [Program.bind]
          split
          · exact leads_remind n _
          · exact leads_signupTenant n slug _ email

theorem leads_signup (n : Nat) (body : SignupBody) :
    Program.Leads SignupStep Whole (signup deps n body) Made.nothing := by
  unfold signup
  split
  · exact Or.inr rfl
  · intro setting m hm
    have hm : m = Made.nothing := by cases setting <;> exact hm
    rw [hm]
    cases setting with
    | error e => exact Or.inr rfl
    | ok setting =>
        simp only [Program.bind]
        split
        · exact Or.inr rfl
        · split
          · exact Or.inr rfl
          · split
            · exact Or.inr rfl
            · exact leads_signupAllowed n body _ _

end Signup

theorem leads_program (n : Nat) (request : Request) :
    Program.Leads (StepOf request) (Complete request) (program deps n request) Made.nothing := by
  cases request with
  | signup body => exact leads_signup n body
  | _ => exact Program.leads_of_forall (fun _ _ => trivial) _ _

/-!
# Every run
-/

theorem signupStep_exec {op : Op} {m : Made} (h : op.provides w = true) :
    SignupStep op (exec op w).1 m (m.after op w (exec op w).2) := by
  have hok : forall {alpha : Type} {r : Except DbError alpha}, r.toBool = true ->
      exists a, r = Except.ok a := by
    intro alpha r hr
    cases r with
    | ok a => exact ⟨a, rfl⟩
    | error e => cases hr
  cases op with
  | createTenant slug name tier trial =>
      rcases createTenant_cases (w := w) m slug name tier trial with ⟨t, ht, hm⟩ | ⟨e, he, hm⟩
      · rw [ht]
        exact hm
      · rw [he]
        exact hm
  | secretsOf tenantId => rfl
  | generateTenantCa slug =>
      show SignupStep (Op.generateTenantCa slug) (w.around.generateTenantCa slug) m m
      have hsome : (w.around.generateTenantCa slug).isSome = true := h
      cases hca : w.around.generateTenantCa slug with
      | none =>
          rw [hca] at hsome
          cases hsome
      | some ca => rfl
  | createSecrets row =>
      rcases hok h with ⟨a, ha⟩
      have hm := createSecrets_ok m ha
      rw [ha]
      exact hm
  | createUser tenantId email role =>
      rcases hok h with ⟨u, hu⟩
      have hm := createUser_ok m hu
      rw [hu]
      exact hm
  | _ =>
      unfold SignupStep
      rfl

/-- So is one that fails before it matters. -/
theorem signupStep_fault {op : Op} {m : Made} {a : op.Res} (h : op.equips = false)
    (hfault : fault op = some a) : SignupStep op a m m := by
  cases op with
  | secretsOf tenantId => cases h
  | generateTenantCa slug => cases h
  | createSecrets row => cases h
  | createUser tenantId email role => cases h
  | _ =>
      first
      | (cases hfault; done)
      | (cases hfault
         unfold SignupStep
         rfl)

theorem made_leads {p : Pool (accounts deps)} {made : Nat -> Made}
    (hrun : Recorded (making deps) (fun p _ c _ => signupsProvided p c = true)
      (Pool.init w) (fun _ => Made.nothing) p made) :
    forall (i : Nat) (t : Thread (accounts deps)), p.threads[i]? = some t ->
      Program.Leads (StepOf t.request) (Complete t.request) t.rest (made i) := by
  have hown : forall i (request : Request) op w v made,
      (making deps).onCall i request op w v made i = (made i).after op w v :=
    fun i request op w v made => if_pos rfl
  have hother : forall i j (request : Request) op w v made, j ≠ i ->
      (making deps).onCall i request op w v made j = made j :=
    fun i j request op w v made hij => if_neg hij
  have hexec : forall (p : Pool (accounts deps)) (made : Nat -> Made) (q : Pool (accounts deps))
      (i : Nat)
      (request : Request) (op : Op), signupsProvided p (Concurrency.Choice.exec i) = true ->
      p.caller? (Concurrency.Choice.exec i) = some (i, request, op) ->
      q.world = (exec op p.world).2 ->
      StepOf request op (exec op p.world).1 (made i)
        ((making deps).onCall i request op p.world q.world made i) := by
    intro p made q i request op hallowed hcaller hworld
    rw [hown, hworld]
    cases request with
    | signup body =>
        apply signupStep_exec
        unfold signupsProvided at hallowed
        rw [hcaller] at hallowed
        exact hallowed
    | _ => trivial
  have hfault : forall (p : Pool (accounts deps)) (made : Nat -> Made) (q : Pool (accounts deps))
      (i : Nat) (request : Request) (op : Op) (a : op.Res),
      signupsProvided p (Concurrency.Choice.fault i) = true ->
      p.caller? (Concurrency.Choice.fault i) = some (i, request, op) -> fault op = some a ->
      q.world = p.world ->
      StepOf request op a (made i)
        ((making deps).onCall i request op p.world q.world made i) := by
    intro p made q i request op a hallowed hcaller hfails hworld
    rw [hown, hworld, after_self]
    cases request with
    | signup body =>
        apply signupStep_fault _ hfails
        unfold signupsProvided at hallowed
        rw [hcaller] at hallowed
        exact (Bool.not_eq_true' _).mp hallowed
    | _ => trivial
  have hleads := Recorded.leads (fun p _ request _ _ => leads_program p.threads.length request)
    hexec hfault hother (fun _ => rfl) hrun
  exact hleads.1

/-- Nothing of what a request made for a tenant remains. -/
def Made.Gone (m : Made) (db : Tables) : Prop :=
  (forall id, m.tenant = some id -> db.hasTenant id = false) ∧
    forall id, m.secrets = some id -> TenantSecretsRepo.getByTenant id db = none

theorem gone_nothing (db : Tables) : Made.nothing.Gone db := by
  constructor
  · intro id h
    cases h
  · intro id h
    cases h

/-- As long as no signup fails once its tenant is there, a signup that was
answered made its tenant with its owner, or left nothing. -/
theorem signup_all_or_nothing {p : Pool (accounts deps)} {made : Nat -> Made} {i : Nat}
    {t : Thread (accounts deps)} {body : SignupBody} {response : Response}
    (hrun : Recorded (making deps) (fun p _ c _ => signupsProvided p c = true)
      (Pool.init w) (fun _ => Made.nothing) p made)
    (hget : p.threads[i]? = some t) (hsignup : t.request = Request.signup body)
    (hanswer : answer t = some response) :
    (exists u, (made i).user = some u ∧ u.role = Role.owner ∧
      (made i).tenant = some u.tenantId ∧ response = Response.noContent) ∨
    (made i).Gone p.world.db := by
  have hleads := made_leads hrun i t hget
  cases t with
  | mk request rest =>
      cases rest with
      | call op next => cases hanswer
      | done given =>
          cases hanswer
          cases hsignup
          rcases hleads with hwhole | hnothing
          · exact Or.inl hwhole
          · apply Or.inr
            rw [hnothing]
            exact gone_nothing p.world.db

/-!
# A signup whose owner is not inserted

The first signup alone makes its tenant and its owner.  When the statement that
inserts the owner does not reach the tables, the signup is refused, and its
tenant stays.
-/

def Request.signupBody : Request -> Option SignupBody
  | Request.signup body => some body
  | _ => none

theorem signup_of_body {request : Request} {body : SignupBody}
    (h : request.signupBody = some body) : request = Request.signup body := by
  cases request with
  | signup given =>
      cases h
      rfl
  | _ => cases h

def signsUp : Concurrency.Choice (accounts plainDeps) :=
  Concurrency.Choice.spawn (Request.signup
    { tenantName := "Acme", tenantSlug := "acme", email := "owner@acme.test",
      turnstileToken := none })

def emptyInstallation : World :=
  { db := noTables, around := calm }

def oneSignup : List (Concurrency.Choice (accounts plainDeps)) :=
  signsUp :: List.replicate 15 (Concurrency.Choice.exec 0)

theorem signup_all_or_nothing_alone :
    exists (p : Pool (accounts plainDeps)) (made : Nat -> Made) (response : Response),
      (exists u, (made 0).user = some u ∧ u.role = Role.owner ∧
        (made 0).tenant = some u.tenantId ∧ response = Response.noContent) ∨
      (made 0).Gone p.world.db := by
  let x := Recorded.after (making plainDeps) (fun p _ c _ => signupsProvided p c)
    (Pool.init emptyInstallation) (fun _ => Made.nothing) oneSignup (by decide +kernel)
  have hrun := Recorded.of_after (making plainDeps) (fun p _ c _ => signupsProvided p c)
    (Pool.init emptyInstallation) (fun _ => Made.nothing) oneSignup (by decide +kernel)
  have hdone : (x.1.threads[0]?.bind answer).isSome = true := by decide +kernel
  have hsignup : (x.1.threads[0]?.bind fun t => t.request.signupBody).isSome = true := by
    decide +kernel
  have hrun : Recorded (making plainDeps) (fun p _ c _ => signupsProvided p c = true)
      (Pool.init emptyInstallation) (fun _ => Made.nothing) x.1 x.2 := hrun
  clear_value x
  rcases Option.isSome_iff_exists.mp hdone with ⟨response, hresponse⟩
  rcases Option.bind_eq_some_iff.mp hresponse with ⟨t, hget, hanswer⟩
  rw [hget] at hsignup
  rcases Option.isSome_iff_exists.mp hsignup with ⟨body, hbody⟩
  exact ⟨x.1, x.2, response,
    signup_all_or_nothing hrun hget (signup_of_body hbody) hanswer⟩

def ownerFails : List (Concurrency.Choice (accounts plainDeps)) :=
  signsUp :: List.replicate 11 (Concurrency.Choice.exec 0) ++ [Concurrency.Choice.fault 0]

theorem signup_leaves_tenant_without_owner :
    exists (p : Pool (accounts plainDeps)) (made : Nat -> Made) (t : Thread (accounts plainDeps))
        (body : SignupBody),
      Recorded (making plainDeps) (fun _ _ _ _ => True) (Pool.init emptyInstallation)
        (fun _ => Made.nothing) p made ∧
      p.threads[0]? = some t ∧ t.request = Request.signup body ∧
      (answer t).map Response.status = some 500 ∧ (made 0).user.isNone = true ∧
      ¬ (made 0).Gone p.world.db := by
  let x := Recorded.after (making plainDeps) (fun _ _ _ _ => true)
    (Pool.init emptyInstallation) (fun _ => Made.nothing) ownerFails (by decide +kernel)
  have hrun := Recorded.of_after (making plainDeps) (fun _ _ _ _ => true)
    (Pool.init emptyInstallation) (fun _ => Made.nothing) ownerFails (by decide +kernel)
  have hdone : (x.1.threads[0]?.bind fun t => (answer t).map Response.status) = some 500 := by
    decide +kernel
  have hsignup : (x.1.threads[0]?.bind fun t => t.request.signupBody).isSome = true := by
    decide +kernel
  have huser : (x.2 0).user.isNone = true := by decide +kernel
  have htenant : (x.2 0).tenant = some 1 := by decide +kernel
  have hthere : x.1.world.db.hasTenant 1 = true := by decide +kernel
  have hrun : Recorded (making plainDeps) (fun _ _ _ _ => True) (Pool.init emptyInstallation)
      (fun _ => Made.nothing) x.1 x.2 := hrun.mono (fun _ _ _ _ _ => trivial)
  clear_value x
  rcases Option.bind_eq_some_iff.mp hdone with ⟨t, hget, hanswer⟩
  rw [hget] at hsignup
  rcases Option.isSome_iff_exists.mp hsignup with ⟨body, hbody⟩
  refine ⟨x.1, x.2, t, body, hrun, hget, signup_of_body hbody, hanswer, huser, ?_⟩
  intro hgone
  have hmissing := hgone.1 1 htenant
  rw [hthere] at hmissing
  cases hmissing

end Accounts
end FleetServer
