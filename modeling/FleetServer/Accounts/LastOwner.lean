import FleetServer.Accounts.Service

/-!
# A tenant's last owner

The members' requests leave owners alone, and nobody becomes an owner.  The
console counts a tenant's owners before it deletes one; whether an owner is left
depends on those it counted still being owners when it deletes.
-/

namespace FleetServer
namespace Accounts

open Concurrency
open Server (Role)
open Storage (DbError)

variable {u : User} {v w : World} {op : Op} {other t : Int}

/-!
# Owners in the tables
-/

namespace Tables

def ownerIds (db : Tables) (tenantId : Int) : List Int :=
  (db.users.filter (UserRepo.owns tenantId)).map User.id

def owner (db : Tables) (tenantId id : Int) : Bool :=
  (db.ownerIds tenantId).contains id

variable {db db' : Tables} {tenantId id : Int}

theorem owner_iff : db.owner tenantId id = true <->
    exists u, u ∈ db.users ∧ UserRepo.owns tenantId u = true ∧ u.id = id := by
  unfold owner ownerIds
  rw [List.contains_iff_mem, List.mem_map]
  constructor
  · intro h
    rcases h with ⟨u, hu, hid⟩
    have hu := List.mem_filter.mp hu
    exact ⟨u, hu.1, hu.2, hid⟩
  · intro h
    rcases h with ⟨u, hu, howns, hid⟩
    exact ⟨u, List.mem_filter.mpr ⟨hu, howns⟩, hid⟩

theorem owner_eq (h : db'.users = db.users) : db'.owner tenantId id = db.owner tenantId id := by
  unfold owner ownerIds
  rw [h]

theorem owner_eq_of_updateWhere {p : User -> Bool} {f : User -> User}
    (husers : db'.users = Table.updateWhere p f db.users)
    (howns : forall u, UserRepo.owns tenantId (f u) = UserRepo.owns tenantId u)
    (hid : forall u, (f u).id = u.id) : db'.owner tenantId id = db.owner tenantId id := by
  have hsame : forall u, UserRepo.owns tenantId (if p u then f u else u) =
      UserRepo.owns tenantId u := by
    intro u
    split
    · exact howns u
    · rfl
  have hsameId : forall u, (if p u then f u else u).id = u.id := by
    intro u
    split
    · exact hid u
    · rfl
  rw [Bool.eq_iff_iff, owner_iff, owner_iff, husers]
  constructor
  · intro h
    rcases h with ⟨u, hu, hu_owns, hu_id⟩
    rcases Table.mem_updateWhere.mp hu with ⟨s, hs, hsu⟩
    subst hsu
    exact ⟨s, hs, (hsame s).symm.trans hu_owns, (hsameId s).symm.trans hu_id⟩
  · intro h
    rcases h with ⟨u, hu, hu_owns, hu_id⟩
    exact ⟨_, Table.mem_updateWhere.mpr ⟨u, hu, rfl⟩, (hsame u).trans hu_owns,
      (hsameId u).trans hu_id⟩

def UserKeys (db : Tables) : Prop :=
  (db.users.map User.id).Nodup

theorem owns_of_owner (hkeys : db.UserKeys) (howner : db.owner tenantId id = true)
    (hu : u ∈ db.users) (hid : u.id = id) : u.tenantId = tenantId ∧ u.role = Role.owner := by
  rcases owner_iff.mp howner with ⟨v, hv, howns, hvid⟩
  have hsame : u = v := List.inj_on_of_nodup_map hkeys hu hv (hid.trans hvid.symm)
  have howns := (Bool.and_eq_true _ _).mp howns
  rw [hsame]
  exact ⟨beq_iff_eq.mp howns.1, beq_iff_eq.mp howns.2⟩

theorem exists_other_owner (hkeys : db.UserKeys) (hcount : 1 < UserRepo.countOwners tenantId db) :
    exists o, o ∈ db.ownerIds tenantId ∧ o ≠ id := by
  have hnodup : (db.ownerIds tenantId).Nodup :=
    hkeys.sublist (List.Sublist.map User.id List.filter_sublist)
  have hlength : (db.ownerIds tenantId).length = UserRepo.countOwners tenantId db := by
    unfold ownerIds UserRepo.countOwners
    rw [List.length_map, List.countP_eq_length_filter]
  by_contra hnone
  have hall : forall o, o ∈ db.ownerIds tenantId -> o = id := by
    intro o ho
    by_contra hne
    exact hnone ⟨o, ho, hne⟩
  have hreplicate := List.eq_replicate_of_mem hall
  rw [hreplicate] at hnodup
  have hshort := List.nodup_replicate.mp hnodup
  omega

end Tables

/-!
# What a call does to owners
-/

/-- A call that makes no owner and re-roles and deletes nobody. -/
def Op.plain : Op -> Bool
  | Op.createUser _ _ _ => false
  | Op.setRole _ _ _ => false
  | Op.deleteUser _ _ => false
  | _ => true

theorem users_guarded {alpha : Type} {ok : Tables -> Bool} {f : Tables -> alpha × Tables}
    (hf : (f w.db).2.users = w.db.users) :
    (w.apply (Stmt.guarded ok f)).2.db.users = w.db.users :=
  World.apply_guarded_db (P := fun db => db.users = w.db.users) rfl (fun _ => hf)

theorem owner_exec_plain (hop : op.plain = true) :
    (exec op w).2.db.users.map User.id = w.db.users.map User.id ∧
      forall tenantId id, (exec op w).2.db.owner tenantId id = w.db.owner tenantId id := by
  have hsame : forall {db' : Tables}, db'.users = w.db.users ->
      db'.users.map User.id = w.db.users.map User.id ∧
        forall tenantId id, db'.owner tenantId id = w.db.owner tenantId id :=
    fun h => ⟨by rw [h], fun _ _ => Tables.owner_eq h⟩
  have hupdate : forall {db' : Tables} {p : User -> Bool} {f : User -> User},
      db'.users = Table.updateWhere p f w.db.users -> (forall u, (f u).id = u.id) ->
        (forall tenantId u, UserRepo.owns tenantId (f u) = UserRepo.owns tenantId u) ->
        db'.users.map User.id = w.db.users.map User.id ∧
          forall tenantId id, db'.owner tenantId id = w.db.owner tenantId id := by
    intro db' p f husers hid howns
    constructor
    · rw [husers]
      exact Table.map_updateWhere_of_mem (fun u _ _ => hid u)
    · exact fun tenantId id => Tables.owner_eq_of_updateWhere husers (howns tenantId) hid
  cases op with
  | setBlocked id blocked =>
      have hrows : (exec (Op.setBlocked id blocked) w).2.db.users =
          Table.updateWhere (UserRepo.atId id)
            (fun u => { u with blockedAt := if blocked then some w.around.now else none })
            w.db.users := rfl
      exact hupdate hrows (fun _ => rfl) (fun _ _ => rfl)
  | setPlatformAdmin id isAdmin =>
      have hrows : (exec (Op.setPlatformAdmin id isAdmin) w).2.db.users =
          Table.updateWhere (UserRepo.atId id)
            (fun u => { u with isPlatformAdmin := isAdmin }) w.db.users := rfl
      exact hupdate hrows (fun _ => rfl) (fun _ _ => rfl)
  | createUser tenantId email role => cases hop
  | setRole tenantId id role => cases hop
  | deleteUser tenantId id => cases hop
  | createLink tokenHash tenantId userId expiresAt => exact hsame (users_guarded rfl)
  | record row => exact hsame (users_guarded rfl)
  | createTenant slug name tier trial => exact hsame (users_guarded rfl)
  | createSecrets row => exact hsame (users_guarded rfl)
  | _ => exact hsame rfl

theorem exec_setRole_users (w : World) (tenantId id : Int) (role : Role) :
    (exec (Op.setRole tenantId id role) w).2.db.users =
      Table.updateWhere (UserRepo.atTenantId tenantId id) (fun u => { u with role := role })
        w.db.users := rfl

theorem owner_exec_setRole {id : Int} {role : Role} (hrole : role ≠ Role.owner) {tenantId : Int} :
    (exec (Op.setRole t id role) w).2.db.owner tenantId other = true <->
      exists u, u ∈ w.db.users ∧ UserRepo.owns tenantId u = true ∧ u.id = other ∧
        UserRepo.atTenantId t id u = false := by
  rw [Tables.owner_iff, exec_setRole_users]
  constructor
  · intro h
    rcases h with ⟨u, hu, howns, hid⟩
    rcases Table.of_mem_updateWhere hu with ⟨s, hs, ⟨hp, hus⟩ | ⟨_, hus⟩⟩
    · rw [hus] at howns hid
      exact ⟨s, hs, howns, hid, hp⟩
    · rw [hus] at howns
      exact absurd (beq_iff_eq.mp ((Bool.and_eq_true _ _).mp howns).2) hrole
  · intro h
    rcases h with ⟨u, hu, howns, hid, hp⟩
    refine ⟨u, Table.mem_updateWhere.mpr ⟨u, hu, ?_⟩, howns, hid⟩
    rw [hp]
    rfl

theorem ids_exec_setRole (w : World) (t id : Int) (role : Role) :
    (exec (Op.setRole t id role) w).2.db.users.map User.id = w.db.users.map User.id := by
  rw [exec_setRole_users]
  exact Table.map_updateWhere_of_mem (fun _ _ _ => rfl)

theorem exec_deleteUser_users (w : World) (t id : Int) :
    (exec (Op.deleteUser t id) w).2.db.users = w.db.users ∨
      (exec (Op.deleteUser t id) w).2.db.users =
        Table.deleteWhere (UserRepo.atTenantId t id) w.db.users := by
  apply World.apply_guarded_db
    (P := fun db => db.users = w.db.users ∨
      db.users = Table.deleteWhere (UserRepo.atTenantId t id) w.db.users)
  · exact Or.inl rfl
  · exact fun _ => Or.inr rfl

theorem users_sublist_deleteUser (w : World) (t id : Int) :
    (exec (Op.deleteUser t id) w).2.db.users.Sublist w.db.users := by
  rcases exec_deleteUser_users w t id with h | h
  · rw [h]
  · rw [h]
    exact List.filter_sublist

theorem owner_of_deleteUser {id tenantId : Int}
    (h : (exec (Op.deleteUser t id) w).2.db.owner tenantId other = true) :
    w.db.owner tenantId other = true := by
  rcases Tables.owner_iff.mp h with ⟨u, hu, howns, hid⟩
  exact Tables.owner_iff.mpr ⟨u, (users_sublist_deleteUser w t id).subset hu, howns, hid⟩

theorem owner_deleteUser_other {id tenantId : Int} (hother : other ≠ id)
    (h : w.db.owner tenantId other = true) :
    (exec (Op.deleteUser t id) w).2.db.owner tenantId other = true := by
  rcases Tables.owner_iff.mp h with ⟨u, hu, howns, hid⟩
  apply Tables.owner_iff.mpr
  refine ⟨u, ?_, howns, hid⟩
  rcases exec_deleteUser_users w t id with husers | husers
  · rw [husers]
    exact hu
  · rw [husers]
    apply Table.mem_deleteWhere.mpr
    refine ⟨hu, ?_⟩
    unfold UserRepo.atTenantId
    rw [hid, beq_false_of_ne hother, Bool.and_false]

/-!
# What the requests counted
-/

variable (deps : Deps)

abbrev Counted : Type := Nat -> Option (Int × List Int)

def Op.counts : Op -> World -> Option (Int × List Int)
  | Op.countOwners tenantId, w => some (tenantId, w.db.ownerIds tenantId)
  | _, _ => none

@[reducible] def counting : Recorder (accounts deps) Counted where
  onCall := fun i _ op w _ counted j =>
    if j = i then
      match op.counts w with
      | some found => some found
      | none => counted j
    else counted j

def staffRequest : Request -> Bool
  | Request.deleteUser _ _ => true
  | Request.setMemberRole _ _ _ => true
  | Request.deleteMember _ _ => true
  | _ => false

def byStaff : Concurrency.Choice (accounts deps) -> Bool
  | Concurrency.Choice.spawn request => staffRequest request
  | _ => true

/-- Whoever is removed as an owner is removed by a request that counted only
owners who are owners still. -/
def countedStand (p : Pool (accounts deps)) (counted : Counted)
    (c : Concurrency.Choice (accounts deps)) (q : Pool (accounts deps)) : Bool :=
  match p.caller? c with
  | some (i, _, Op.deleteUser tenantId id) =>
      !p.world.db.owner tenantId id || q.world.db.owner tenantId id ||
        match counted i with
        | none => true
        | some (counted, ids) => counted ≠ tenantId || ids.all (p.world.db.owner tenantId)
  | _ => true

/-!
# The contract
-/

variable {deps}

def Harmless : Op -> World -> World -> Prop
  | Op.createUser _ _ _, _, _ => False
  | Op.setRole t id role, w, _ => role ≠ Role.owner ∧ w.db.owner t id = false
  | Op.deleteUser _ id, w, v =>
      forall tenantId, w.db.owner tenantId id = true -> v.db.owner tenantId id = false ->
        exists other, other ≠ id ∧ w.db.owner tenantId other = true
  | _, _, _ => True

theorem harmless_of_plain (hop : op.plain = true) : Harmless op w v := by
  cases op with
  | createUser tenantId email role => cases hop
  | setRole tenantId id role => cases hop
  | deleteUser tenantId id => cases hop
  | _ => trivial

/-- A harmless call keeps the users' keys, makes no owner, and leaves one where
there was one. -/
theorem owners_after {a : op.Res} (houtcome : Outcome machine op w a v)
    (hharmless : Harmless op w v) (hkeys : w.db.UserKeys) :
    v.db.UserKeys ∧ (forall tenantId id, v.db.owner tenantId id = true ->
      w.db.owner tenantId id = true) ∧
    forall tenantId, (exists id, w.db.owner tenantId id = true) ->
      exists id, v.db.owner tenantId id = true := by
  rcases outcome_cases houtcome with ⟨_, hv⟩ | ⟨_, hv⟩
  · cases hop : op.plain with
    | true =>
        have hsame := owner_exec_plain (w := w) hop
        rw [hv]
        unfold Tables.UserKeys
        refine ⟨?_, ?_, ?_⟩
        · rw [hsame.1]
          exact hkeys
        · intro tenantId id h
          rw [← hsame.2]
          exact h
        · intro tenantId h
          rcases h with ⟨id, hid⟩
          exists id
          rw [hsame.2]
          exact hid
    | false =>
        cases op with
        | createUser tenantId email role => exact hharmless.elim
        | setRole t target role =>
            rw [hv]
            refine ⟨?_, ?_, ?_⟩
            · unfold Tables.UserKeys
              rw [ids_exec_setRole]
              exact hkeys
            · intro tenantId id h
              rcases (owner_exec_setRole hharmless.1).mp h with ⟨u, hu, howns, hid, _⟩
              exact Tables.owner_iff.mpr ⟨u, hu, howns, hid⟩
            · intro tenantId h
              rcases h with ⟨id, hid⟩
              rcases Tables.owner_iff.mp hid with ⟨u, hu, howns, hsame⟩
              exists id
              apply (owner_exec_setRole hharmless.1).mpr
              refine ⟨u, hu, howns, hsame, ?_⟩
              cases hat : UserRepo.atTenantId t target u with
              | false => rfl
              | true =>
                  have hat := (Bool.and_eq_true _ _).mp hat
                  have howns := (Bool.and_eq_true _ _).mp howns
                  have howner : w.db.owner t target = true :=
                    Tables.owner_iff.mpr ⟨u, hu, (Bool.and_eq_true _ _).mpr ⟨hat.1, howns.2⟩,
                      beq_iff_eq.mp hat.2⟩
                  rw [hharmless.2] at howner
                  cases howner
        | deleteUser t target =>
            refine ⟨?_, ?_, ?_⟩
            · rw [hv]
              exact hkeys.sublist (List.Sublist.map User.id (users_sublist_deleteUser w t target))
            · intro tenantId id h
              rw [hv] at h
              exact owner_of_deleteUser h
            · intro tenantId h
              rcases h with ⟨id, hid⟩
              cases hafter : v.db.owner tenantId id with
              | true => exact ⟨id, hafter⟩
              | false =>
                  by_cases hsame : id = target
                  · rw [hsame] at hid hafter
                    rcases hharmless tenantId hid hafter with ⟨other, hne, hother⟩
                    exists other
                    rw [hv]
                    exact owner_deleteUser_other hne hother
                  · exists id
                    rw [hv]
                    exact owner_deleteUser_other hsame hid
        | _ => cases hop
  · rw [hv]
    exact ⟨hkeys, fun _ _ h => h, fun _ h => h⟩

def ownerContract (deps : Deps) (tenantId : Int) : Contract (counting deps) where
  Inv := fun x => x.1.db.UserKeys ∧ exists id, x.1.db.owner tenantId id = true
  Rely := fun i x y => y.2 i = x.2 i ∧
    forall t id, y.1.db.owner t id = true -> x.1.db.owner t id = true
  May := fun i _ op x v => forall t id, op = Op.deleteUser t id -> x.1.db.owner t id = true ->
    v.db.owner t id = false -> forall ids, x.2 i = some (t, ids) ->
      forall other, other ∈ ids -> x.1.db.owner t other = true
  Guar := fun _ _ op x v => Harmless op x.1 v
  refl := fun _ _ => ⟨rfl, fun _ _ h => h⟩
  trans := fun _ _ _ _ hxy hyz =>
    ⟨hyz.1.trans hxy.1, fun t id h => hxy.2 t id (hyz.2 t id h)⟩
  inv_call := fun _ _ _ _ _ _ hinv houtcome hguar =>
    have hafter := owners_after houtcome hguar hinv.1
    ⟨hafter.1, hafter.2.2 tenantId hinv.2⟩
  rely_call := fun _ _ _ _ _ _ _ hij hinv houtcome hguar =>
    ⟨if_neg (fun h => hij h.symm), (owners_after houtcome hguar hinv.1).2.1⟩
  env := fun _ _ hinv => ⟨hinv, fun _ => ⟨rfl, fun _ _ h => h⟩⟩

/-!
# The requests keep to it
-/

variable {tenantId : Int} {i : Nat} {request : Request} {x : World × Counted}

/-- Go on after a call, where what is known of owners is known still. -/
theorem obeys_call {next : op.Res -> Prog Response}
    (hguar : forall y a v, (ownerContract deps tenantId).Rely i x y -> y.1.db.UserKeys ->
      Outcome machine op y.1 a v -> (ownerContract deps tenantId).May i request op y v ->
        Harmless op y.1 v)
    (hnext : forall y a v, (ownerContract deps tenantId).Rely i x y -> y.1.db.UserKeys ->
      Outcome machine op y.1 a v ->
        (forall t id, v.db.owner t id = true -> y.1.db.owner t id = true) ->
        (ownerContract deps tenantId).Obeys i request (next a)
          (v, (counting deps).onCall i request op y.1 v y.2)) :
    (ownerContract deps tenantId).Obeys i request (Program.call op next) x := by
  intro y hinv hrely a v houtcome hmay
  have hharmless := hguar y a v hrely hinv.1 houtcome hmay
  constructor
  · exact hharmless
  · exact hnext y a v hrely hinv.1 houtcome (owners_after houtcome hharmless hinv.1).2.1

/-- Plain calls are always allowed. -/
theorem obeys_plain {alpha : Type} {prog : Prog alpha}
    (huses : Program.Uses (fun op => op.plain = true) prog) :
    (ownerContract deps tenantId).Obeys i request prog x := by
  apply Contract.obeys_of_uses
  apply Program.uses_mono _ huses
  exact fun op hop y a v _ _ => harmless_of_plain hop

theorem plain_identify (creds : Credentials) :
    Program.Uses (fun op => op.plain = true) (identify deps creds) := by
  unfold identify
  split
  · refine ⟨rfl, fun found => ?_⟩
    simp only [Program.bind]
    split
    · trivial
    · refine ⟨rfl, fun user => ?_⟩
      simp only [Program.bind]
      split
      · trivial
      · split <;> trivial
  · split
    · refine ⟨rfl, fun found => ?_⟩
      simp only [Program.bind]
      split
      · trivial
      · refine ⟨rfl, fun user => ?_⟩
        simp only [Program.bind]
        split
        · trivial
        · split
          · trivial
          · exact ⟨rfl, fun _ => trivial⟩
    · trivial

theorem owner_obeys_guarded {guard : Option AuthedUser -> Except Response AuthedUser}
    {creds : Credentials} {handler : AuthedUser -> Prog Response}
    (hhandler : forall who y, (ownerContract deps tenantId).Obeys i request (handler who) y) :
    (ownerContract deps tenantId).Obeys i request (guarded deps guard creds handler) x := by
  apply Contract.obeys_bind (obeys_plain (plain_identify creds))
  intro found y
  unfold behind
  split
  · trivial
  · exact hhandler _ y

def NoOwner (id : Int) (w : World) : Prop :=
  forall t, w.db.owner t id = false

theorem noOwner_later {id : Int}
    (hlater : forall t id, v.db.owner t id = true -> w.db.owner t id = true) (h : NoOwner id w) :
    NoOwner id v := by
  intro t
  cases hv : v.db.owner t id with
  | false => rfl
  | true =>
      have hw := hlater t id hv
      rw [h t] at hw
      cases hw

theorem noOwner_of_role {id : Int} (hkeys : w.db.UserKeys) (hu : u ∈ w.db.users) (hid : u.id = id)
    (hrole : u.role ≠ Role.owner) : NoOwner id w := by
  intro t
  cases howner : w.db.owner t id with
  | false => rfl
  | true => exact absurd (Tables.owns_of_owner hkeys howner hu hid).2 hrole

theorem obeys_deleteUser {id : Int} {next : Except DbError Bool -> Prog Response}
    (hnone : NoOwner id x.1)
    (hnext : forall removed, Program.Uses (fun op => op.plain = true) (next removed)) :
    (ownerContract deps tenantId).Obeys i request (Program.call (Op.deleteUser t id) next) x := by
  apply obeys_call
  · intro y a v hrely _ _ _ t' howner
    rw [noOwner_later hrely.2 hnone t'] at howner
    cases howner
  · exact fun y a v _ _ _ _ => obeys_plain (hnext a)

theorem plain_audit (row : AuditRow) : Program.Uses (fun op => op.plain = true) (audit row) :=
  ⟨rfl, fun _ => trivial⟩

theorem plain_recordUser (target : User) (who : AuthedUser) (action : String)
    (metadata : List (String × Core.Json)) :
    Program.Uses (fun op => op.plain = true)
      (Platform.recordUser target who action metadata) := by
  have hactor : Program.Uses (fun op => op.plain = true) (Platform.actorEmail who.userId) := by
    refine ⟨rfl, fun found => ?_⟩
    simp only [Program.bind]
    split <;> trivial
  exact Program.uses_bind hactor (fun actor => plain_audit _)

/-!
## Members
-/

theorem get_spec {id : Int} {db : Tables} (h : UserRepo.get t id db = some u) :
    u ∈ db.users ∧ u.tenantId = t ∧ u.id = id := by
  have hfound : UserRepo.atTenantId t id u = true := List.find?_some h
  have hat := (Bool.and_eq_true _ _).mp hfound
  exact ⟨List.mem_of_find?_eq_some h, beq_iff_eq.mp hat.1, beq_iff_eq.mp hat.2⟩

theorem obeys_member {who : AuthedUser} {userId : Int} {refusal : Response}
    {next : User -> Prog Response}
    (hnext : forall target y, NoOwner userId y.1 ->
      (ownerContract deps tenantId).Obeys i request (next target) y) :
    (ownerContract deps tenantId).Obeys i request
      (Members.withMember who userId refusal next) x := by
  apply obeys_call
  · exact fun y a v _ _ _ _ => harmless_of_plain rfl
  · intro y a v _ hkeys houtcome hlater
    cases a with
    | error e => trivial
    | ok found =>
        cases found with
        | none => trivial
        | some target =>
            simp only [Program.bind]
            split
            · trivial
            · rename_i hrole
              apply hnext
              rcases outcome_cases houtcome with ⟨ha, _⟩ | ⟨hfault, _⟩
              · have hfound := get_spec (Except.ok.inj ha).symm
                exact noOwner_later hlater
                  (noOwner_of_role hkeys hfound.1 hfound.2.2 hrole)
              · cases hfault

theorem obeys_setMemberRole (userId : Int) (role : Role) (who : AuthedUser) :
    (ownerContract deps tenantId).Obeys i request (Members.setRole userId role who) x := by
  unfold Members.setRole
  split
  · trivial
  · split
    · trivial
    · rename_i hassignable
      have hrole : role ≠ Role.owner := by
        intro h
        rw [h] at hassignable
        exact hassignable rfl
      split
      · trivial
      · apply obeys_member
        intro target y hnone
        apply obeys_call
        · intro z a v hrely _ _ _
          exact ⟨hrole, noOwner_later hrely.2 hnone who.tenantId⟩
        · intro z a v _ _ _ _
          cases a with
          | error e => trivial
          | ok changed =>
              cases changed with
              | false => trivial
              | true =>
                  have hlog : forall row, Program.Uses (fun op => op.plain = true)
                      (audit row >>= fun _ => Program.done Response.noContent) :=
                    fun row => Program.uses_bind (plain_audit row) (fun _ => trivial)
                  exact obeys_plain (hlog _)

theorem obeys_deleteMember (userId : Int) (who : AuthedUser) :
    (ownerContract deps tenantId).Obeys i request (Members.deleteUser userId who) x := by
  unfold Members.deleteUser
  split
  · trivial
  · split
    · trivial
    · apply obeys_member
      intro target y hnone
      apply obeys_deleteUser hnone
      intro removed
      cases removed with
      | error e => trivial
      | ok removed =>
          cases removed with
          | false => trivial
          | true => exact ⟨rfl, fun _ => trivial⟩

/-!
## The console
-/

theorem getAny_spec {id : Int} {db : Tables} (h : UserRepo.getAny id db = some u) :
    u ∈ db.users ∧ u.id = id := by
  have hfound : UserRepo.atId id u = true := List.find?_some h
  exact ⟨List.mem_of_find?_eq_some h, beq_iff_eq.mp hfound⟩

theorem plain_removed (target : User) (who : AuthedUser) (answer : Except DbError Bool) :
    Program.Uses (fun op => op.plain = true) (Platform.removed target who answer) := by
  cases answer with
  | error e => trivial
  | ok removed =>
      cases removed with
      | false => trivial
      | true => exact Program.uses_bind (plain_recordUser _ _ _ _) (fun _ => trivial)

/-- What the console knows of the user it is to delete: an owner is one of the
tenant the row names, and the request counted that tenant's owners. -/
def OwnerCounted (target : User) (userId : Int) (i : Nat) (y : World × Counted) : Prop :=
  forall t, y.1.db.owner t userId = true -> target.tenantId = t ∧
    exists ids, y.2 i = some (t, ids) ∧ exists other, other ∈ ids ∧ other ≠ userId

theorem obeys_removeUser {target : User} {userId : Int} {who : AuthedUser}
    (hcounted : OwnerCounted target userId i x) :
    (ownerContract deps tenantId).Obeys i request
      (Platform.removeUser target userId who) x := by
  apply obeys_call
  · intro y a v hrely _ _ hmay t howner hafter
    rcases hcounted t (hrely.2 t userId howner) with ⟨htenant, ids, hids, other, hother, hne⟩
    exists other
    have hcall : Op.deleteUser target.tenantId userId = Op.deleteUser t userId := by
      rw [htenant]
    exact ⟨hne, hmay t userId hcall howner hafter ids (hrely.1.trans hids) other hother⟩
  · exact fun y a v _ _ _ _ => obeys_plain (plain_removed target who a)

theorem obeys_deleteAny (userId : Int) (who : AuthedUser) :
    (ownerContract deps tenantId).Obeys i request (Platform.deleteUser userId who) x := by
  unfold Platform.deleteUser
  split
  · trivial
  · apply obeys_call
    · exact fun y a v _ _ _ _ => harmless_of_plain rfl
    · intro y a v _ hkeys houtcome hlater
      cases a with
      | error e => trivial
      | ok found =>
          cases found with
          | none => trivial
          | some target =>
              have hfound : target ∈ y.1.db.users ∧ target.id = userId := by
                rcases outcome_cases houtcome with ⟨ha, _⟩ | ⟨hfault, _⟩
                · exact getAny_spec (Except.ok.inj ha).symm
                · cases hfault
              have htarget : forall t, y.1.db.owner t userId = true ->
                  target.tenantId = t ∧ target.role = Role.owner :=
                fun t h => Tables.owns_of_owner hkeys h hfound.1 hfound.2
              simp only [Program.bind]
              split
              · apply obeys_call
                · exact fun z a u _ _ _ _ => harmless_of_plain rfl
                · intro z owners u hrely hkeys houtcome hlater'
                  cases owners with
                  | error e => trivial
                  | ok owners =>
                      simp only [Program.bind]
                      split
                      · trivial
                      · rename_i hmany
                        apply obeys_removeUser
                        intro t howner
                        have hbefore := hlater t userId (hrely.2 t userId (hlater' t userId howner))
                        have htenant := (htarget t hbefore).1
                        refine ⟨htenant, z.1.db.ownerIds t, ?_, ?_⟩
                        · show (if i = i then some (target.tenantId,
                            z.1.db.ownerIds target.tenantId) else z.2 i) = _
                          rw [if_pos rfl, htenant]
                        · apply Tables.exists_other_owner hkeys
                          rcases outcome_cases houtcome with ⟨hok, _⟩ | ⟨hfault, _⟩
                          · have hcount : owners = UserRepo.countOwners target.tenantId z.1.db :=
                              Except.ok.inj hok
                            rw [← htenant, ← hcount]
                            omega
                          · cases hfault
              · rename_i hrole
                apply obeys_removeUser
                intro t howner
                exact absurd (htarget t (hlater t userId howner)).2 hrole

/-!
# Every run
-/

/-- As long as the owners a request counted are owners still when it deletes
one, a tenant that has an owner keeps one. -/
theorem an_owner_remains (tenantId : Int) {w : World} {p : Pool (accounts deps)}
    {counted : Counted} (hkeys : w.db.UserKeys)
    (hstart : exists id, w.db.owner tenantId id = true)
    (hrun : Recorded (counting deps)
      (fun p counted c q => byStaff deps c = true ∧ countedStand deps p counted c q = true)
      (Pool.init w) (fun _ => none) p counted) :
    exists id, p.world.db.owner tenantId id = true := by
  have hholds : (ownerContract deps tenantId).Holds p counted := by
    apply hrun.holds (ownerContract deps tenantId) _ _ (Contract.holds_init ⟨hkeys, hstart⟩)
    · intro p counted r q hallowed
      cases r with
      | deleteUser creds userId =>
          exact owner_obeys_guarded (fun who _ => obeys_deleteAny userId who)
      | setMemberRole creds userId role =>
          exact owner_obeys_guarded (fun who _ => obeys_setMemberRole userId role who)
      | deleteMember creds userId =>
          exact owner_obeys_guarded (fun who _ => obeys_deleteMember userId who)
      | _ => exact absurd hallowed.1 Bool.false_ne_true
    · intro p counted c q j r op hallowed hcaller t id hop hbefore hafter ids hids other hother
      have hstand := hallowed.2
      unfold countedStand at hstand
      rw [hcaller, hop] at hstand
      have hids : counted j = some (t, ids) := hids
      have hbefore : p.world.db.owner t id = true := hbefore
      simp only [hbefore, hafter, hids] at hstand
      simp only [ne_eq, not_true_eq_false, decide_false, Bool.not_true, Bool.false_or] at hstand
      exact List.all_eq_true.mp hstand other hother
  exact hholds.inv.2

/-!
# Two owners

The console deletes one of them, and the other remains.  It deletes both, each
counted before the other was deleted, and none does.
-/

def twoOwners : World :=
  { db :=
      { noTables with
        tenants := [sampleTenant 1 "acme", sampleTenant 2 "fleet"]
        users := [sampleUser 1 1 Role.owner false, sampleUser 2 1 Role.owner false,
          sampleUser 3 2 Role.owner true]
        sessions := [sampleSession "console" 2 3] }
    around := calm }

theorem userKeys_twoOwners : twoOwners.db.UserKeys := by
  show [(1 : Int), 2, 3].Nodup
  decide

def deletes (userId : Int) : Concurrency.Choice (accounts plainDeps) :=
  Concurrency.Choice.spawn (Request.deleteUser (withCookie "console") userId)

def oneDeletion : List (Concurrency.Choice (accounts plainDeps)) :=
  deletes 1 :: List.replicate 7 (Concurrency.Choice.exec 0)

theorem an_owner_remains_deleting :
    exists (p : Pool (accounts plainDeps)) (id : Int), p.world.db.owner 1 id = true := by
  let x := Recorded.after (counting plainDeps)
    (fun p counted c q => byStaff plainDeps c && countedStand plainDeps p counted c q)
    (Pool.init twoOwners) (fun _ => none) oneDeletion (by decide +kernel)
  have hrun := Recorded.of_after (counting plainDeps)
    (fun p counted c q => byStaff plainDeps c && countedStand plainDeps p counted c q)
    (Pool.init twoOwners) (fun _ => none) oneDeletion (by decide +kernel)
  have hrun : Recorded (counting plainDeps)
      (fun p counted c q => byStaff plainDeps c = true ∧
        countedStand plainDeps p counted c q = true)
      (Pool.init twoOwners) (fun _ => none) x.1 x.2 :=
    hrun.mono (fun _ _ _ _ hok => Bool.and_eq_true_iff.mp hok)
  have hstart : twoOwners.db.owner 1 1 = true := by decide +kernel
  clear_value x
  exact ⟨x.1, an_owner_remains 1 userKeys_twoOwners ⟨1, hstart⟩ hrun⟩

/-- Both requests count two owners, then both delete. -/
def bothDeleted : List (Concurrency.Choice (accounts plainDeps)) :=
  [deletes 1, deletes 2] ++ List.replicate 4 (Concurrency.Choice.exec 0) ++
    List.replicate 7 (Concurrency.Choice.exec 1) ++ List.replicate 3 (Concurrency.Choice.exec 0)

theorem neither_owner_remains :
    exists p : Pool (accounts plainDeps),
      Pool.Run (fun _ c => byStaff plainDeps c = true) (Pool.init twoOwners) p ∧
      (forall t, t ∈ p.threads -> (answer t).map Response.status = some 204) ∧
      (exists id, twoOwners.db.owner 1 id = true) ∧
      ¬ exists id, p.world.db.owner 1 id = true := by
  let p := Pool.afterIf (fun _ c => byStaff plainDeps c) (Pool.init twoOwners) bothDeleted
    (by decide +kernel)
  have hrun := Pool.run_afterIf (fun _ c => byStaff plainDeps c) (Pool.init twoOwners) bothDeleted
    (by decide +kernel)
  have hrun : Pool.Run (fun _ c => byStaff plainDeps c = true) (Pool.init twoOwners) p := hrun
  have hanswered : p.threads.all (fun t => (answer t).map Response.status == some 204) = true := by
    decide +kernel
  have hnone : p.world.db.users.any (UserRepo.owns 1) = false := by decide +kernel
  have hstart : twoOwners.db.owner 1 1 = true := by decide +kernel
  clear_value p
  refine ⟨p, hrun, ?_, ⟨1, hstart⟩, ?_⟩
  · exact fun t ht => beq_iff_eq.mp (List.all_eq_true.mp hanswered t ht)
  · intro h
    rcases h with ⟨id, hid⟩
    rcases Tables.owner_iff.mp hid with ⟨u, hu, howns, _⟩
    rw [List.any_eq_false] at hnone
    exact hnone u hu howns

end Accounts
end FleetServer
