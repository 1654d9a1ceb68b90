import FleetServer.Accounts.Service

/-!
# The last platform administrator

The console's requests block, demote and delete users, but never the caller.
Whether that leaves an administrator depends on the caller still being one when
the request writes: the flag was read when the request came in.
-/

namespace FleetServer
namespace Accounts

open Concurrency
open Server (Role)
open Storage (DbError)

variable {db : Tables} {id : Int} {op : Op} {handler : AuthedUser -> Prog Response}

/-!
# Administrators in the tables
-/

namespace User

def administers (u : User) : Bool :=
  u.isPlatformAdmin && !u.isBlocked

end User

namespace Tables

def standing (db : Tables) (id : Int) : Bool :=
  db.users.any fun u => u.id == id && u.administers

theorem standing_iff :
    db.standing id = true <-> exists u, u ∈ db.users ∧ u.id = id ∧ u.administers = true := by
  unfold standing
  rw [List.any_eq_true]
  constructor
  · intro h
    rcases h with ⟨u, hu, h⟩
    rw [Bool.and_eq_true, beq_iff_eq] at h
    exact ⟨u, hu, h.1, h.2⟩
  · intro h
    rcases h with ⟨u, hu, hid, hadmin⟩
    exists u
    rw [Bool.and_eq_true, beq_iff_eq]
    exact ⟨hu, hid, hadmin⟩

/-- An administrator outlives a change to the users that keeps its row, or
turns it into another administrator's. -/
theorem standing_of_rows {db' : Tables}
    (h : forall u, u ∈ db.users -> u.id = id -> u.administers = true ->
      exists u', u' ∈ db'.users ∧ u'.id = id ∧ u'.administers = true)
    (hstanding : db.standing id = true) : db'.standing id = true := by
  rcases standing_iff.mp hstanding with ⟨u, hu, hid, hadmin⟩
  exact standing_iff.mpr (h u hu hid hadmin)

theorem standing_updateWhere {db' : Tables} {p : User -> Bool} {f : User -> User}
    (hdb' : db'.users = Table.updateWhere p f db.users) (hid : forall u, (f u).id = u.id)
    (hkeep : forall u, u.id = id -> u.administers = true -> p u = true ->
      (f u).administers = true) (hstanding : db.standing id = true) : db'.standing id = true := by
  apply standing_of_rows _ hstanding
  intro u hu hsame hadmin
  rw [hdb']
  exists if p u then f u else u
  constructor
  · exact Table.mem_updateWhere.mpr ⟨u, hu, rfl⟩
  · split
    · rename_i hp
      exact ⟨(hid u).trans hsame, hkeep u hsame hadmin hp⟩
    · exact ⟨hsame, hadmin⟩

end Tables

/-!
# What a call takes away
-/

def Op.takesFrom : Op -> Option Int
  | Op.setBlocked id true => some id
  | Op.setPlatformAdmin id false => some id
  | Op.deleteUser _ id => some id
  | _ => none

theorem standing_exec {w : World} (hother : op.takesFrom ≠ some id)
    (hstanding : w.db.standing id = true) : (exec op w).2.db.standing id = true := by
  cases op with
  | setBlocked target blocked =>
      have hrows : (exec (Op.setBlocked target blocked) w).2.db.users =
          Table.updateWhere (UserRepo.atId target)
            (fun u => { u with blockedAt := if blocked then some w.around.now else none })
            w.db.users := rfl
      apply Tables.standing_updateWhere hrows (fun u => rfl) _ hstanding
      intro u hu hadmin hp
      cases blocked with
      | true => exact absurd (congrArg some ((beq_iff_eq.mp hp).symm.trans hu)) hother
      | false =>
          have hflag := (Bool.and_eq_true _ _).mp hadmin
          exact (Bool.and_eq_true _ _).mpr ⟨hflag.1, rfl⟩
  | setPlatformAdmin target isAdmin =>
      have hrows : (exec (Op.setPlatformAdmin target isAdmin) w).2.db.users =
          Table.updateWhere (UserRepo.atId target)
            (fun u => { u with isPlatformAdmin := isAdmin }) w.db.users := rfl
      apply Tables.standing_updateWhere hrows (fun u => rfl) _ hstanding
      intro u hu hadmin hp
      cases isAdmin with
      | true =>
          have hflag := (Bool.and_eq_true _ _).mp hadmin
          exact (Bool.and_eq_true _ _).mpr ⟨rfl, hflag.2⟩
      | false => exact absurd (congrArg some ((beq_iff_eq.mp hp).symm.trans hu)) hother
  | setRole tenantId target role =>
      exact Tables.standing_updateWhere rfl (fun u => rfl) (fun u _ hadmin _ => hadmin) hstanding
  | deleteUser tenantId target =>
      apply World.apply_guarded_db (P := fun db => db.standing id = true) hstanding
      intro _
      apply Tables.standing_of_rows _ hstanding
      intro u hu hid hadmin
      exists u
      refine ⟨Table.mem_deleteWhere.mpr ⟨hu, ?_⟩, hid, hadmin⟩
      cases hp : UserRepo.atTenantId tenantId target u with
      | false => rfl
      | true =>
          have hsame := ((Bool.and_eq_true _ _).mp hp).2
          exact absurd (congrArg some ((beq_iff_eq.mp hsame).symm.trans hid)) hother
  | createUser tenantId email role =>
      apply World.apply_guarded_db (P := fun db => db.standing id = true) hstanding
      intro _
      apply Tables.standing_of_rows _ hstanding
      exact fun u hu hid hadmin => ⟨u, List.mem_append_left _ hu, hid, hadmin⟩
  | createLink tokenHash tenantId userId expiresAt =>
      exact World.apply_guarded_db (P := fun db => db.standing id = true) hstanding
        (fun _ => hstanding)
  | record row =>
      exact World.apply_guarded_db (P := fun db => db.standing id = true) hstanding
        (fun _ => hstanding)
  | createTenant slug name tier trial =>
      exact World.apply_guarded_db (P := fun db => db.standing id = true) hstanding
        (fun _ => hstanding)
  | createSecrets row =>
      exact World.apply_guarded_db (P := fun db => db.standing id = true) hstanding
        (fun _ => hstanding)
  | _ => exact hstanding

/-!
# Who presented which session
-/

variable (deps : Deps)

def Op.finds : Op -> World -> Option Int
  | Op.touch idleTtl idHash, w =>
      (SessionRepo.touch w.around.now idleTtl idHash w.db).1.map Session.userId
  | _, _ => none

/-- Write down, under the number of each request, whose session it came with. -/
@[reducible] def presenting : Recorder (accounts deps) (Nat -> Option Int) where
  onCall := fun i _ op w _ came j =>
    if j = i then
      match op.finds w with
      | some id => some id
      | none => came j
    else came j

def consoleRequest : Request -> Bool
  | Request.updateUser _ _ _ => true
  | Request.deleteUser _ _ => true
  | _ => false

def byConsole : Concurrency.Choice (accounts deps) -> Bool
  | Concurrency.Choice.spawn request => consoleRequest request
  | _ => true

/-- Whoever loses the console in a step loses it to a request whose own sender
still has it then. -/
def senderStands (p : Pool (accounts deps)) (came : Nat -> Option Int)
    (c : Concurrency.Choice (accounts deps)) (q : Pool (accounts deps)) : Bool :=
  match p.caller? c with
  | none => true
  | some (i, _, op) =>
      match op.takesFrom with
      | none => true
      | some id =>
          !p.world.db.standing id || q.world.db.standing id ||
            match came i with
            | none => false
            | some sender => p.world.db.standing sender

/-!
# The contract
-/

variable {deps}

/-- A call that takes the console from someone is made by another, who has it. -/
def Takes (i : Nat) (op : Op) (x : World × (Nat -> Option Int)) (v : World) : Prop :=
  forall id, op.takesFrom = some id -> x.1.db.standing id = true -> v.db.standing id = false ->
    exists sender, x.2 i = some sender ∧ sender ≠ id ∧ x.1.db.standing sender = true

theorem standing_after_takes {i : Nat} {x : World × (Nat -> Option Int)} {a : op.Res} {v : World}
    (h : exists id, x.1.db.standing id = true) (houtcome : Outcome machine op x.1 a v)
    (htakes : Takes i op x v) :
    exists id, v.db.standing id = true := by
  rcases outcome_cases houtcome with ⟨_, hv⟩ | ⟨_, hv⟩
  · rcases h with ⟨id, hid⟩
    cases hafter : v.db.standing id with
    | true => exact ⟨id, hafter⟩
    | false =>
        by_cases hop : op.takesFrom = some id
        · rcases htakes id hop hid hafter with ⟨sender, _, hne, hsender⟩
          exists sender
          rw [hv]
          apply standing_exec _ hsender
          rw [hop]
          exact fun h => hne (Option.some.inj h).symm
        · rw [hv]
          exact ⟨id, standing_exec hop hid⟩
  · rw [hv]
    exact h

def consoleContract (deps : Deps) : Contract (presenting deps) where
  Inv := fun x => exists id, x.1.db.standing id = true
  Rely := fun i x y => y.2 i = x.2 i
  May := fun i _ op x v => forall id, op.takesFrom = some id -> x.1.db.standing id = true ->
    v.db.standing id = false -> exists sender, x.2 i = some sender ∧
      x.1.db.standing sender = true
  Guar := fun i _ op x v => Takes i op x v
  refl := fun _ _ => rfl
  trans := fun _ _ _ _ hxy hyz => hyz.trans hxy
  inv_call := fun _ _ _ _ _ _ hinv houtcome hguar => standing_after_takes hinv houtcome hguar
  rely_call := fun _ _ _ _ _ _ _ hij _ _ _ => if_neg (fun h => hij h.symm)
  env := fun _ _ hinv => ⟨hinv, fun _ => rfl⟩

/-- A call that finds no session and takes nothing from `sender`. -/
def Op.Spares (sender : Int) (op : Op) : Prop :=
  (forall w, op.finds w = none) ∧ op.takesFrom ≠ some sender

variable {i : Nat} {request : Request} {x : World × (Nat -> Option Int)}

theorem obeys_of_spares {sender : Int} {prog : Prog Response}
    (huses : Program.Uses (Op.Spares sender) prog) (hsender : x.2 i = some sender) :
    (consoleContract deps).Obeys i request prog x := by
  induction prog generalizing x with
  | done a => trivial
  | call op next ih =>
      intro y _ hrely a v _ hmay
      have hy : y.2 i = some sender := Eq.trans hrely hsender
      constructor
      · intro id hop hbefore hafter
        rcases hmay id hop hbefore hafter with ⟨s, hs, hstands⟩
        refine ⟨s, hs, ?_, hstands⟩
        rw [hy] at hs
        cases hs
        intro hid
        rw [← hid] at hop
        exact huses.1.2 hop
      · apply ih a (huses.2 a)
        show (if i = i then _ else y.2 i) = some sender
        rw [if_pos rfl, huses.1.1 y.1]
        exact hy

theorem takes_of_none {v : World} (hop : op.takesFrom = none) : Takes i op x v := by
  intro id hid
  rw [hop] at hid
  cases hid

theorem obeys_behind {found : Option AuthedUser}
    (huses : forall who, Program.Uses (Op.Spares who.userId) (handler who))
    (hfound : forall who, found = some who -> who.via = Credential.session ->
      x.2 i = some who.userId) :
    (consoleContract deps).Obeys i request (behind platformAdmin handler found) x := by
  unfold behind
  cases hguard : platformAdmin found with
  | error refusal => trivial
  | ok who =>
      have hok := platformAdmin_eq_ok hguard
      exact obeys_of_spares (huses who) (hfound who hok.1 hok.2.2)

theorem obeys_fromSession {cookie : String}
    (huses : forall who, Program.Uses (Op.Spares who.userId) (handler who)) :
    (consoleContract deps).Obeys i request
      (fromSession deps cookie >>= behind platformAdmin handler) x := by
  have hnone : forall z : World × (Nat -> Option Int), (consoleContract deps).Obeys i request
      (behind platformAdmin handler none) z := fun _ => trivial
  intro y _ _ a v houtcome _
  refine ⟨takes_of_none rfl, ?_⟩
  simp only [Program.bind]
  cases ha : foundOr a with
  | none => exact hnone _
  | some session =>
      have hfinds : (Op.touch deps.sessionIdleTtlSecs (deps.hashToken cookie)).finds y.1 =
          some session.userId := by
        rcases outcome_cases houtcome with ⟨hok, _⟩ | ⟨hfault, _⟩
        · rw [hok] at ha
          exact congrArg (Option.map Session.userId) ha
        · cases hfault
          cases ha
      intro z _ hrely b u _ _
      refine ⟨takes_of_none rfl, ?_⟩
      have hz : z.2 i = some session.userId := by
        apply Eq.trans hrely
        show (if i = i then _ else y.2 i) = some session.userId
        rw [if_pos rfl, hfinds]
      simp only [Program.bind]
      cases hb : foundOr b with
      | none => exact hnone _
      | some user =>
          simp only
          split
          · exact hnone _
          · apply obeys_behind huses
            intro who hwho _
            cases hwho
            show (if i = i then z.2 i else z.2 i) = some session.userId
            rw [if_pos rfl]
            exact hz

theorem obeys_fromApiKey {token : String}
    (huses : forall who, Program.Uses (Op.Spares who.userId) (handler who)) :
    (consoleContract deps).Obeys i request
      (fromApiKey deps token >>= behind platformAdmin handler) x := by
  have hnone : forall z : World × (Nat -> Option Int), (consoleContract deps).Obeys i request
      (behind platformAdmin handler none) z := fun _ => trivial
  intro y _ _ a v _ _
  refine ⟨takes_of_none rfl, ?_⟩
  simp only [Program.bind]
  cases foundOr a with
  | none => exact hnone _
  | some key =>
      intro z _ _ b u _ _
      refine ⟨takes_of_none rfl, ?_⟩
      simp only [Program.bind]
      cases foundOr b with
      | none => exact hnone _
      | some user =>
          simp only
          split
          · exact hnone _
          · intro z' _ _ c u' _ _
            refine ⟨takes_of_none rfl, ?_⟩
            apply obeys_behind huses
            intro who hwho hvia
            cases hwho
            cases hvia

theorem obeys_guarded {creds : Credentials}
    (huses : forall who, Program.Uses (Op.Spares who.userId) (handler who)) :
    (consoleContract deps).Obeys i request (guarded deps platformAdmin creds handler) x := by
  unfold guarded identify
  split
  · exact obeys_fromSession huses
  · split
    · exact obeys_fromApiKey huses
    · trivial

/-!
# The console's requests spare their sender
-/

section Spares

variable {sender : Int}

theorem spares_of_none (hfinds : forall w, op.finds w = none) (htakes : op.takesFrom = none) :
    op.Spares sender := by
  constructor
  · exact hfinds
  · rw [htakes]
    intro h
    cases h

theorem uses_audit (row : AuditRow) : Program.Uses (Op.Spares sender) (audit row) :=
  ⟨spares_of_none (fun _ => rfl) rfl, fun _ => trivial⟩

theorem uses_recordUser (target : User) (who : AuthedUser) (action : String)
    (metadata : List (String × Core.Json)) :
    Program.Uses (Op.Spares sender) (Platform.recordUser target who action metadata) := by
  have hactor : Program.Uses (Op.Spares sender) (Platform.actorEmail who.userId) := by
    constructor
    · exact spares_of_none (fun _ => rfl) rfl
    · intro found
      simp only [Program.bind]
      split <;> trivial
  exact Program.uses_bind hactor (fun actor => uses_audit _)

theorem uses_changeIf {asked : Option Bool} {current : Bool}
    {write : Bool -> Prog (Except DbError Bool)} {log : Bool -> Prog Unit}
    (hwrite : forall value, Program.Uses (Op.Spares sender) (write value))
    (hlog : forall value, Program.Uses (Op.Spares sender) (log value)) :
    Program.Uses (Op.Spares sender) (Platform.changeIf asked current write log) := by
  unfold Platform.changeIf
  cases asked with
  | none => trivial
  | some value =>
      simp only
      split
      · trivial
      · apply Program.uses_bind (hwrite value)
        intro written
        cases written with
        | error e => trivial
        | ok changed => exact Program.uses_bind (hlog value) (fun _ => trivial)

theorem spares_change {target : Int} (hfinds : forall w, op.finds w = none)
    (htakes : op.takesFrom = some target ∨ op.takesFrom = none) (hother : target ≠ sender) :
    op.Spares sender := by
  constructor
  · exact hfinds
  · rcases htakes with h | h
    · rw [h]
      exact fun hsame => hother (Option.some.inj hsame)
    · rw [h]
      exact fun hsame => by cases hsame

theorem uses_updateUser (userId : Int) (body : Platform.UpdateUserBody) (who : AuthedUser) :
    Program.Uses (Op.Spares who.userId) (Platform.updateUser userId body who) := by
  unfold Platform.updateUser
  split
  · trivial
  · split
    · trivial
    · rename_i hother
      have hblock : forall value, Program.Uses (Op.Spares who.userId)
          (Program.perform (Op.setBlocked userId value) : Prog (Except DbError Bool)) := by
        intro value
        apply Program.uses_perform
        apply spares_change (fun _ => rfl) _ hother
        cases value with
        | true => exact Or.inl rfl
        | false => exact Or.inr rfl
      have hdemote : forall value, Program.Uses (Op.Spares who.userId)
          (Program.perform (Op.setPlatformAdmin userId value) : Prog (Except DbError Bool)) := by
        intro value
        apply Program.uses_perform
        apply spares_change (fun _ => rfl) _ hother
        cases value with
        | true => exact Or.inr rfl
        | false => exact Or.inl rfl
      refine ⟨spares_of_none (fun _ => rfl) rfl, fun found => ?_⟩
      cases found with
      | error e => trivial
      | ok found =>
          cases found with
          | none => trivial
          | some target =>
              apply Program.uses_bind (uses_changeIf hblock (fun _ => uses_recordUser _ _ _ _))
              intro blocked
              split
              · trivial
              · apply Program.uses_bind
                  (uses_changeIf hdemote (fun _ => uses_recordUser _ _ _ _))
                intro changed
                split
                · trivial
                · refine ⟨spares_of_none (fun _ => rfl) rfl, fun after => ?_⟩
                  simp only [Program.bind]
                  split <;> trivial

theorem uses_deleteUser (userId : Int) (who : AuthedUser) :
    Program.Uses (Op.Spares who.userId) (Platform.deleteUser userId who) := by
  unfold Platform.deleteUser
  split
  · trivial
  · rename_i hother
    have hremove : forall target, Program.Uses (Op.Spares who.userId)
        (Platform.removeUser target userId who) := by
      intro target
      constructor
      · exact spares_change (fun _ => rfl) (Or.inl rfl) hother
      · intro removed
        cases removed with
        | error e => trivial
        | ok removed =>
            cases removed with
            | false => trivial
            | true => exact Program.uses_bind (uses_recordUser _ _ _ _) (fun _ => trivial)
    refine ⟨spares_of_none (fun _ => rfl) rfl, fun found => ?_⟩
    cases found with
    | error e => trivial
    | ok found =>
        cases found with
        | none => trivial
        | some target =>
            simp only [Program.bind]
            split
            · refine ⟨spares_of_none (fun _ => rfl) rfl, fun owners => ?_⟩
              cases owners with
              | error e => trivial
              | ok owners =>
                  simp only [Program.bind]
                  split
                  · trivial
                  · exact hremove target
            · exact hremove target

end Spares

/-!
# Every run
-/

/-- As long as whoever loses the console loses it to a sender who still has it,
someone keeps it. -/
theorem an_administrator_remains {w : World} {p : Pool (accounts deps)} {came : Nat -> Option Int}
    (hrun : Recorded (presenting deps)
      (fun p came c q => byConsole deps c = true ∧ senderStands deps p came c q = true)
      (Pool.init w) (fun _ => none) p came)
    (hstart : exists id, w.db.standing id = true) :
    exists id, p.world.db.standing id = true := by
  have hholds : (consoleContract deps).Holds p came := by
    apply hrun.holds (consoleContract deps) _ _ (Contract.holds_init hstart)
    · intro p came r q hallowed
      cases r with
      | updateUser creds userId body => exact obeys_guarded (uses_updateUser userId body)
      | deleteUser creds userId => exact obeys_guarded (uses_deleteUser userId)
      | _ => exact absurd hallowed.1 Bool.false_ne_true
    · intro p came c q j r op hallowed hcaller id hop hbefore hafter
      have hstands := hallowed.2
      unfold senderStands at hstands
      rw [hcaller] at hstands
      simp only [hop, hbefore, hafter] at hstands
      cases hsender : came j with
      | none =>
          rw [hsender] at hstands
          cases hstands
      | some sender =>
          rw [hsender] at hstands
          exact ⟨sender, hsender, hstands⟩
  exact hholds.inv

/-!
# Two administrators

One demotes the other, and an administrator remains.  Each demotes the other,
both let in before either writes, and none does.
-/

def twoAdministrators : World :=
  { db :=
      { noTables with
        tenants := [sampleTenant 1 "acme"]
        users := [sampleUser 1 1 Role.owner true, sampleUser 2 1 Role.admin true]
        sessions := [sampleSession "first" 1 1, sampleSession "second" 1 2] }
    around := calm }

def demotes (cookie : String) (userId : Int) : Concurrency.Choice (accounts plainDeps) :=
  Concurrency.Choice.spawn (Request.updateUser (withCookie cookie) userId
    { blocked := none, platformAdmin := some false })

def oneDemotion : List (Concurrency.Choice (accounts plainDeps)) :=
  demotes "first" 2 :: List.replicate 7 (Concurrency.Choice.exec 0)

theorem an_administrator_remains_demoting :
    exists (p : Pool (accounts plainDeps)) (id : Int), p.world.db.standing id = true := by
  let x := Recorded.after (presenting plainDeps)
    (fun p came c q => byConsole plainDeps c && senderStands plainDeps p came c q)
    (Pool.init twoAdministrators) (fun _ => none) oneDemotion (by decide +kernel)
  have hrun := Recorded.of_after (presenting plainDeps)
    (fun p came c q => byConsole plainDeps c && senderStands plainDeps p came c q)
    (Pool.init twoAdministrators) (fun _ => none) oneDemotion (by decide +kernel)
  have hrun : Recorded (presenting plainDeps)
      (fun p came c q => byConsole plainDeps c = true ∧
        senderStands plainDeps p came c q = true)
      (Pool.init twoAdministrators) (fun _ => none) x.1 x.2 :=
    hrun.mono (fun _ _ _ _ hok => Bool.and_eq_true_iff.mp hok)
  have hstart : twoAdministrators.db.standing 1 = true := by decide +kernel
  clear_value x
  exact ⟨x.1, an_administrator_remains hrun ⟨1, hstart⟩⟩

/-- Both are let in and look their target up, then both write. -/
def mutualDemotion : List (Concurrency.Choice (accounts plainDeps)) :=
  [demotes "first" 2, demotes "second" 1] ++ List.replicate 3 (Concurrency.Choice.exec 0) ++
    List.replicate 7 (Concurrency.Choice.exec 1) ++ List.replicate 4 (Concurrency.Choice.exec 0)

theorem none_of_two_remains :
    exists p : Pool (accounts plainDeps),
      Pool.Run (fun _ c => byConsole plainDeps c = true) (Pool.init twoAdministrators) p ∧
      (forall t, t ∈ p.threads -> (answer t).map Response.status = some 200) ∧
      (exists id, twoAdministrators.db.standing id = true) ∧
      ¬ exists id, p.world.db.standing id = true := by
  let p := Pool.afterIf (fun _ c => byConsole plainDeps c) (Pool.init twoAdministrators)
    mutualDemotion (by decide +kernel)
  have hrun := Pool.run_afterIf (fun _ c => byConsole plainDeps c) (Pool.init twoAdministrators)
    mutualDemotion (by decide +kernel)
  have hrun : Pool.Run (fun _ c => byConsole plainDeps c = true)
      (Pool.init twoAdministrators) p := hrun
  have hanswered : p.threads.all (fun t => (answer t).map Response.status == some 200) = true := by
    decide +kernel
  have hnone : p.world.db.users.any User.administers = false := by decide +kernel
  have hstart : twoAdministrators.db.standing 1 = true := by decide +kernel
  clear_value p
  refine ⟨p, hrun, ?_, ⟨1, hstart⟩, ?_⟩
  · exact fun t ht => beq_iff_eq.mp (List.all_eq_true.mp hanswered t ht)
  · intro h
    rcases h with ⟨id, hid⟩
    rcases Tables.standing_iff.mp hid with ⟨u, hu, _, hadmin⟩
    rw [List.any_eq_false] at hnone
    exact hnone u hu hadmin

end Accounts
end FleetServer
