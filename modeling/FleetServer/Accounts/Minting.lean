import FleetServer.Accounts.SignIn

/-!
# Making credentials

Sessions, API keys and unused links are known by the hashes of their tokens.  A
request makes at most one of them, under a token it drew.
-/

namespace FleetServer
namespace Accounts
namespace SignIn

open FleetServer.Core
open Concurrency
open Server (Role)
open Storage (Tenant DbError)

/-!
# Credentials in the tables
-/

inductive Kind where
  | session
  | apiKey
  | magicLink
deriving DecidableEq

/-- The tables hold a credential of this kind whose token hashes to `h`. -/
def held (db : Tables) (h : String) : Kind -> Prop
  | Kind.session => exists s, s ∈ db.sessions ∧ s.idHash = h
  | Kind.apiKey => exists k, k ∈ db.apiKeys ∧ k.tokenHash = h
  | Kind.magicLink => exists l, l ∈ db.magicLinks ∧ l.tokenHash = h ∧ l.usedAt = none

/-- Every credential was there before, with the same owner and the same lifetime. -/
structure Lessens (db db' : Tables) : Prop where
  sessions : forall s, s ∈ db'.sessions -> exists r, r ∈ db.sessions ∧ r.idHash = s.idHash ∧
    r.tenantId = s.tenantId ∧ r.userId = s.userId ∧ r.expiresAt = s.expiresAt
  apiKeys : forall k, k ∈ db'.apiKeys -> exists r, r ∈ db.apiKeys ∧ r.tokenHash = k.tokenHash ∧
    r.tenantId = k.tenantId ∧ r.userId = k.userId ∧ r.expiresAt = k.expiresAt
  magicLinks : forall l, l ∈ db'.magicLinks -> l.usedAt = none -> l ∈ db.magicLinks

section Lessens

variable {db db' : Tables}

theorem lessens_of_same (hsessions : db'.sessions = db.sessions)
    (hkeys : db'.apiKeys = db.apiKeys) (hlinks : db'.magicLinks = db.magicLinks) :
    Lessens db db' := by
  constructor
  · intro s hs
    rw [hsessions] at hs
    exact ⟨s, hs, rfl, rfl, rfl, rfl⟩
  · intro k hk
    rw [hkeys] at hk
    exact ⟨k, hk, rfl, rfl, rfl, rfl⟩
  · intro l hl _
    rw [hlinks] at hl
    exact hl

theorem lessens_refl (db : Tables) : Lessens db db :=
  lessens_of_same rfl rfl rfl

theorem held_of_lessens (h : Lessens db db') {kind : Kind} {hash : String}
    (hheld : held db' hash kind) : held db hash kind := by
  cases kind with
  | session =>
      rcases hheld with ⟨s, hs, hhash⟩
      rcases h.sessions s hs with ⟨r, hr, hid, _⟩
      exact ⟨r, hr, hid.trans hhash⟩
  | apiKey =>
      rcases hheld with ⟨k, hk, hhash⟩
      rcases h.apiKeys k hk with ⟨r, hr, hid, _⟩
      exact ⟨r, hr, hid.trans hhash⟩
  | magicLink =>
      rcases hheld with ⟨l, hl, hhash, hunused⟩
      exact ⟨l, h.magicLinks l hl hunused, hhash, hunused⟩

theorem sessions_updateWhere {p : Session -> Bool} {f : Session -> Session}
    (hf : forall s, (f s).idHash = s.idHash ∧ (f s).tenantId = s.tenantId ∧
      (f s).userId = s.userId ∧ (f s).expiresAt = s.expiresAt) {s : Session}
    (hs : s ∈ Table.updateWhere p f db.sessions) :
    exists r, r ∈ db.sessions ∧ r.idHash = s.idHash ∧ r.tenantId = s.tenantId ∧
      r.userId = s.userId ∧ r.expiresAt = s.expiresAt := by
  rcases Table.of_mem_updateWhere hs with ⟨r, hr, ⟨_, hsame⟩ | ⟨_, hsame⟩⟩
  · rw [hsame]
    exact ⟨r, hr, rfl, rfl, rfl, rfl⟩
  · have hkept := hf r
    rw [hsame]
    exact ⟨r, hr, hkept.1.symm, hkept.2.1.symm, hkept.2.2.1.symm, hkept.2.2.2.symm⟩

theorem lessens_touch (now idleTtl : Int) (idHash : String) (db : Tables) :
    Lessens db (SessionRepo.touch now idleTtl idHash db).2 := by
  constructor
  · exact fun s hs => sessions_updateWhere (f := fun s => { s with lastUsedAt := now })
      (fun r => ⟨rfl, rfl, rfl, rfl⟩) hs
  · exact fun k hk => ⟨k, hk, rfl, rfl, rfl, rfl⟩
  · exact fun l hl _ => hl

theorem lessens_touchLastUsed (now : Int) (id : String) (db : Tables) :
    Lessens db (ApiKeyRepo.touchLastUsed now id db).2 := by
  constructor
  · exact fun s hs => ⟨s, hs, rfl, rfl, rfl, rfl⟩
  · intro k hk
    rcases Table.of_mem_updateWhere hk with ⟨r, hr, ⟨_, hsame⟩ | ⟨_, hsame⟩⟩
    · rw [hsame]
      exact ⟨r, hr, rfl, rfl, rfl, rfl⟩
    · rw [hsame]
      exact ⟨r, hr, rfl, rfl, rfl, rfl⟩
  · exact fun l hl _ => hl

theorem lessens_of_subset (hsessions : forall s, s ∈ db'.sessions -> s ∈ db.sessions)
    (hkeys : forall k, k ∈ db'.apiKeys -> k ∈ db.apiKeys)
    (hlinks : forall l, l ∈ db'.magicLinks -> l.usedAt = none -> l ∈ db.magicLinks) :
    Lessens db db' :=
  ⟨fun s hs => ⟨s, hsessions s hs, rfl, rfl, rfl, rfl⟩,
    fun k hk => ⟨k, hkeys k hk, rfl, rfl, rfl, rfl⟩, hlinks⟩

theorem lessens_setBlocked (now id : Int) (blocked : Bool) (db : Tables) :
    Lessens db (UserRepo.setBlocked now id blocked db).2 := by
  apply lessens_of_subset
  · intro s hs
    cases blocked with
    | true => exact Table.mem_of_mem_deleteWhere hs
    | false => exact hs
  · exact fun k hk => hk
  · exact fun l hl _ => hl

theorem lessens_detach (tenantId id : Int) (db : Tables) :
    Lessens db (UserRepo.detach tenantId id db) := by
  apply lessens_of_subset
  · exact fun s hs => Table.mem_of_mem_deleteWhere hs
  · exact fun k hk => Table.mem_of_mem_deleteWhere hk
  · exact fun l hl _ => Table.mem_of_mem_deleteWhere hl

theorem lessens_redeem (now : Int) (tokenHash : String) (db : Tables) :
    Lessens db (MagicLinkRepo.redeem now tokenHash db).2 := by
  apply lessens_of_subset
  · exact fun s hs => hs
  · exact fun k hk => hk
  · intro l hl hunused
    rcases Table.of_mem_updateWhere hl with ⟨r, hr, ⟨_, hsame⟩ | ⟨_, hsame⟩⟩
    · rw [hsame]
      exact hr
    · rw [hsame] at hunused
      cases hunused

end Lessens

/-!
# What a call brings into being
-/

def Op.bears : Op -> Option (Kind × String)
  | Op.account (Accounts.Op.createLink tokenHash _ _ _) => some (Kind.magicLink, tokenHash)
  | Op.createSession idHash _ _ _ => some (Kind.session, idHash)
  | Op.createKey _ _ _ tokenHash _ => some (Kind.apiKey, tokenHash)
  | _ => none

theorem lessens_guarded {alpha : Type} {w : Accounts.World} {ok : Tables -> Bool}
    {f : Tables -> alpha × Tables} (hf : Lessens w.db (f w.db).2) :
    Lessens w.db (w.apply (Stmt.guarded ok f)).2.db :=
  World.apply_guarded_db (P := fun db => Lessens w.db db) (lessens_refl _) (fun _ => hf)

theorem lessens_account {op : Accounts.Op} {w : Accounts.World}
    (hop : (Op.account op).bears = none) : Lessens w.db (Accounts.exec op w).2.db := by
  cases op with
  | touch idleTtl idHash => exact lessens_touch w.around.now idleTtl idHash w.db
  | touchLastUsed id => exact lessens_touchLastUsed w.around.now id w.db
  | setBlocked id blocked => exact lessens_setBlocked w.around.now id blocked w.db
  | setPlatformAdmin id isAdmin => exact lessens_of_same rfl rfl rfl
  | setRole tenantId id role => exact lessens_of_same rfl rfl rfl
  | deleteUser tenantId id =>
      apply lessens_guarded
      have hdetach := lessens_detach tenantId id w.db
      exact ⟨hdetach.sessions, hdetach.apiKeys, hdetach.magicLinks⟩
  | createUser tenantId email role => exact lessens_guarded (lessens_of_same rfl rfl rfl)
  | createLink tokenHash tenantId userId expiresAt => cases hop
  | record row => exact lessens_guarded (lessens_of_same rfl rfl rfl)
  | createTenant slug name tier trial => exact lessens_guarded (lessens_of_same rfl rfl rfl)
  | createSecrets row => exact lessens_guarded (lessens_of_same rfl rfl rfl)
  | _ => exact lessens_refl _

/-- Only a birth adds a credential. -/
theorem lessens_exec {op : Op} {w : World} (hop : op.bears = none) :
    Lessens w.db (exec op w).2.db := by
  cases op with
  | account op => exact lessens_account hop
  | redeem tokenHash => exact lessens_redeem w.now tokenHash w.db
  | createSession idHash tenantId userId ttl => cases hop
  | deleteSession idHash =>
      exact lessens_of_subset (fun s hs => Table.mem_of_mem_deleteWhere hs) (fun k hk => hk)
        (fun l hl _ => hl)
  | deleteForUser tenantId userId =>
      exact lessens_of_subset (fun s hs => Table.mem_of_mem_deleteWhere hs) (fun k hk => hk)
        (fun l hl _ => hl)
  | createKey id tenantId userId tokenHash expiresAt => cases hop
  | deleteKey tenantId userId id =>
      exact lessens_of_subset (fun s hs => hs) (fun k hk => Table.mem_of_mem_deleteWhere hk)
        (fun l hl _ => hl)
  | deleteExpiredSessions idleTtl =>
      exact lessens_of_subset (fun s hs => Table.mem_of_mem_deleteWhere hs) (fun k hk => hk)
        (fun l hl _ => hl)
  | deleteExpiredLinks =>
      exact lessens_of_subset (fun s hs => hs) (fun k hk => hk)
        (fun l hl _ => Table.mem_of_mem_deleteWhere hl)
  | _ => exact lessens_refl _

section Births

variable {db : Tables} {kind : Kind} {h : String}

theorem held_guarded {alpha : Type} {w : Accounts.World} {ok : Tables -> Bool}
    {f : Tables -> alpha × Tables} {Born : Prop}
    (hf : held (f w.db).2 h kind -> held w.db h kind ∨ Born)
    (hheld : held (w.apply (Stmt.guarded ok f)).2.db h kind) : held w.db h kind ∨ Born := by
  revert hheld
  apply World.apply_guarded_db (P := fun db => held db h kind -> held w.db h kind ∨ Born)
  · exact fun hheld => Or.inl hheld
  · exact fun _ hheld => hf hheld

theorem held_addSession {new : Session}
    (hheld : held { db with sessions := db.sessions ++ [new] } h kind) :
    held db h kind ∨ (Kind.session, new.idHash) = (kind, h) := by
  cases kind with
  | session =>
      rcases hheld with ⟨s, hs, hhash⟩
      rcases List.mem_append.mp hs with hs | hs
      · exact Or.inl ⟨s, hs, hhash⟩
      · rw [List.mem_singleton.mp hs] at hhash
        exact Or.inr (congrArg _ hhash)
  | apiKey => exact Or.inl hheld
  | magicLink => exact Or.inl hheld

theorem held_addKey {new : ApiKeyRow}
    (hheld : held { db with apiKeys := db.apiKeys ++ [new] } h kind) :
    held db h kind ∨ (Kind.apiKey, new.tokenHash) = (kind, h) := by
  cases kind with
  | session => exact Or.inl hheld
  | apiKey =>
      rcases hheld with ⟨k, hk, hhash⟩
      rcases List.mem_append.mp hk with hk | hk
      · exact Or.inl ⟨k, hk, hhash⟩
      · rw [List.mem_singleton.mp hk] at hhash
        exact Or.inr (congrArg _ hhash)
  | magicLink => exact Or.inl hheld

theorem held_addLink {new : MagicLinkRow}
    (hheld : held { db with magicLinks := db.magicLinks ++ [new] } h kind) :
    held db h kind ∨ (Kind.magicLink, new.tokenHash) = (kind, h) := by
  cases kind with
  | session => exact Or.inl hheld
  | apiKey => exact Or.inl hheld
  | magicLink =>
      rcases hheld with ⟨l, hl, hhash, hunused⟩
      rcases List.mem_append.mp hl with hl | hl
      · exact Or.inl ⟨l, hl, hhash, hunused⟩
      · rw [List.mem_singleton.mp hl] at hhash
        exact Or.inr (congrArg _ hhash)

end Births

/-- A birth adds its credential, and no other. -/
theorem held_exec {op : Op} {w : World} {kind : Kind} {h : String}
    (hheld : held (exec op w).2.db h kind) : held w.db h kind ∨ op.bears = some (kind, h) := by
  have hborn : forall {born : Kind × String}, held w.db h kind ∨ born = (kind, h) ->
      held w.db h kind ∨ some born = some (kind, h) :=
    fun hcases => hcases.imp_right (fun hsame => congrArg some hsame)
  cases hop : op.bears with
  | none => exact Or.inl (held_of_lessens (lessens_exec hop) hheld)
  | some born =>
      cases op with
      | account op =>
          cases op with
          | createLink tokenHash tenantId userId expiresAt =>
              cases hop
              exact hborn (held_guarded held_addLink hheld)
          | _ => cases hop
      | createSession idHash tenantId userId ttl =>
          cases hop
          exact hborn (held_guarded held_addSession hheld)
      | createKey id tenantId userId tokenHash expiresAt =>
          cases hop
          exact hborn (held_guarded held_addKey hheld)
      | _ => cases hop

/-!
# Who makes what

A request makes at most one credential, under the hash of a token it drew.
-/

def tokenOf (deps : Deps) (n : Nat) : Kind -> String
  | Kind.session => deps.randomToken n
  | Kind.apiKey => ApiKeys.newToken deps n
  | Kind.magicLink => deps.randomToken n

def Owned (deps : Deps) (n : Nat) (kind : Kind) (k : Kind × String) : Prop :=
  k = (kind, deps.hashToken (tokenOf deps n kind))

/-- The tokens of different requests hash differently. -/
def Deps.FreshTokens (deps : Deps) : Prop :=
  forall kind m n, deps.hashToken (tokenOf deps m kind) = deps.hashToken (tokenOf deps n kind) ->
    m = n

def mints (op : Accounts.Op) : Option (Kind × String) :=
  (Op.account op).bears

abbrev Mintless {alpha : Type} (p : Accounts.Prog alpha) : Prop :=
  Program.Uses (fun op => mints op = none) p

abbrev MintsOwn {alpha : Type} (deps : Deps) (n : Nat) (p : Accounts.Prog alpha) : Prop :=
  Program.Bears mints (Owned deps n Kind.magicLink) p

section Accounts

variable {deps : Deps} {n : Nat}

theorem mintless_identify (creds : Credentials) : Mintless (identify deps.toDeps creds) := by
  unfold identify
  split
  · refine ⟨rfl, fun found => ?_⟩
    simp only [Program.bind]
    split
    · trivial
    · refine ⟨rfl, fun owner => ?_⟩
      simp only [Program.bind]
      split
      · trivial
      · split <;> trivial
  · split
    · refine ⟨rfl, fun found => ?_⟩
      simp only [Program.bind]
      split
      · trivial
      · refine ⟨rfl, fun owner => ?_⟩
        simp only [Program.bind]
        split
        · trivial
        · split
          · trivial
          · exact ⟨rfl, fun _ => trivial⟩
    · trivial

theorem mintless_audit (row : AuditRow) : Mintless (audit row) :=
  ⟨rfl, fun _ => trivial⟩

theorem mintless_actorEmail (userId : Int) : Mintless (Platform.actorEmail userId) := by
  refine ⟨rfl, fun found => ?_⟩
  simp only [Program.bind]
  split <;> trivial

theorem mintless_recordUser (target : User) (who : AuthedUser) (action : String)
    (metadata : List (String × Json)) :
    Mintless (Platform.recordUser target who action metadata) :=
  Program.uses_bind (mintless_actorEmail _) (fun _ => mintless_audit _)

theorem mintless_platformAdminBootstrap (user : User) :
    Mintless (Platform.platformAdminBootstrap deps.toDeps user) := by
  unfold Platform.platformAdminBootstrap
  split
  · trivial
  · split
    · trivial
    · exact ⟨rfl, fun _ => trivial⟩

theorem mintless_ensureSecrets (tenant : Tenant) :
    Mintless (ensureSecrets deps.toDeps n tenant) := by
  refine ⟨rfl, fun found => ?_⟩
  simp only [Program.bind]
  split
  · trivial
  · trivial
  · refine ⟨rfl, fun ca => ?_⟩
    simp only [Program.bind]
    split
    · trivial
    · refine ⟨rfl, fun stored => ?_⟩
      simp only [Program.bind]
      split <;> trivial

theorem mintless_withMember {who : AuthedUser} {userId : Int} {refusal : Accounts.Response}
    {next : User -> Accounts.Prog Accounts.Response} (hnext : forall target, Mintless (next target)) :
    Mintless (Members.withMember who userId refusal next) := by
  refine ⟨rfl, fun found => ?_⟩
  simp only [Program.bind]
  split
  · trivial
  · trivial
  · split
    · trivial
    · exact hnext _

theorem mintless_setRole (userId : Int) (role : Role) (who : AuthedUser) :
    Mintless (Members.setRole userId role who) := by
  unfold Members.setRole
  split
  · trivial
  · split
    · trivial
    · split
      · trivial
      · apply mintless_withMember
        intro target
        refine ⟨rfl, fun changed => ?_⟩
        simp only [Program.bind]
        split
        · trivial
        · trivial
        · exact Program.uses_bind (mintless_audit _) (fun _ => trivial)

theorem mintless_deleteMember (userId : Int) (who : AuthedUser) :
    Mintless (Members.deleteUser userId who) := by
  unfold Members.deleteUser
  split
  · trivial
  · split
    · trivial
    · apply mintless_withMember
      intro target
      refine ⟨rfl, fun removed => ?_⟩
      simp only [Program.bind]
      split
      · trivial
      · trivial
      · exact Program.uses_bind (mintless_audit _) (fun _ => trivial)

theorem mintless_changeIf {asked : Option Bool} {current : Bool}
    {write : Bool -> Accounts.Prog (Except DbError Bool)} {log : Bool -> Accounts.Prog Unit}
    (hwrite : forall value, Mintless (write value)) (hlog : forall value, Mintless (log value)) :
    Mintless (Platform.changeIf asked current write log) := by
  unfold Platform.changeIf
  split
  · trivial
  · split
    · trivial
    · apply Program.uses_bind (hwrite _)
      intro written
      split
      · trivial
      · exact Program.uses_bind (hlog _) (fun _ => trivial)

theorem mintless_updateUser (userId : Int) (body : Platform.UpdateUserBody) (who : AuthedUser) :
    Mintless (Platform.updateUser userId body who) := by
  have hblock : forall value, Mintless
      (Program.perform (Accounts.Op.setBlocked userId value)) := fun _ => ⟨rfl, fun _ => trivial⟩
  have hpromote : forall value, Mintless
      (Program.perform (Accounts.Op.setPlatformAdmin userId value)) :=
    fun _ => ⟨rfl, fun _ => trivial⟩
  unfold Platform.updateUser
  split
  · trivial
  · split
    · trivial
    · refine ⟨rfl, fun found => ?_⟩
      simp only [Program.bind]
      split
      · trivial
      · trivial
      · apply Program.uses_bind (mintless_changeIf hblock (fun _ => mintless_recordUser _ _ _ _))
        intro blocked
        split
        · trivial
        · apply Program.uses_bind
            (mintless_changeIf hpromote (fun _ => mintless_recordUser _ _ _ _))
          intro changed
          split
          · trivial
          · refine ⟨rfl, fun after => ?_⟩
            simp only [Program.bind]
            split <;> trivial

theorem mintless_removed (target : User) (who : AuthedUser) (outcome : Except DbError Bool) :
    Mintless (Platform.removed target who outcome) := by
  unfold Platform.removed
  split
  · trivial
  · trivial
  · exact Program.uses_bind (mintless_recordUser _ _ _ _) (fun _ => trivial)

theorem mintless_deleteUser (userId : Int) (who : AuthedUser) :
    Mintless (Platform.deleteUser userId who) := by
  have hremove : forall target, Mintless (Platform.removeUser target userId who) :=
    fun target => ⟨rfl, fun outcome => mintless_removed target who outcome⟩
  unfold Platform.deleteUser
  split
  · trivial
  · refine ⟨rfl, fun found => ?_⟩
    simp only [Program.bind]
    split
    · trivial
    · trivial
    · split
      · refine ⟨rfl, fun owners => ?_⟩
        simp only [Program.bind]
        split
        · trivial
        · split
          · trivial
          · exact hremove _
      · exact hremove _

/-!
## Requests that send a link
-/

theorem mintsOwn_issueAndSendLink (email : String) (tenantId userId : Int) :
    MintsOwn deps n (issueAndSendLink deps.toDeps n email tenantId userId) := by
  refine Or.inl ⟨rfl, fun now => Or.inr ⟨⟨_, rfl, rfl⟩, fun stored => ?_⟩⟩
  simp only [Program.bind]
  split
  · trivial
  · exact ⟨rfl, fun _ => trivial⟩

theorem mintsOwn_remind (existing : User) : MintsOwn deps n (remind deps.toDeps n existing) := by
  unfold remind
  split
  · trivial
  · exact Program.bears_before (mintsOwn_issueAndSendLink _ _ _) (fun _ => trivial)

theorem mintsOwn_signupOwner (tenant : Tenant) (email : String) :
    MintsOwn deps n (signupOwner deps.toDeps n tenant email) := by
  refine Or.inl ⟨rfl, fun created => ?_⟩
  simp only [Program.bind]
  split
  · trivial
  · exact Program.bears_before (mintsOwn_issueAndSendLink _ _ _) (fun _ => trivial)

theorem mintsOwn_signupTenant (slug name email : String) :
    MintsOwn deps n (signupTenant deps.toDeps n slug name email) := by
  refine Or.inl ⟨rfl, fun now => Or.inl ⟨rfl, fun created => ?_⟩⟩
  simp only [Program.bind]
  split
  · trivial
  · apply Program.bears_bind (mintless_ensureSecrets _)
    intro secured
    split
    · exact Program.bears_bind (mintless_audit _) (fun _ => mintsOwn_signupOwner _ _)
    · trivial

theorem mintsOwn_signupAllowed (body : SignupBody) (slug email : String) :
    MintsOwn deps n (signupAllowed deps.toDeps n body slug email) := by
  refine Or.inl ⟨rfl, fun decision => ?_⟩
  simp only [Program.bind]
  cases decision with
  | allow =>
      refine Or.inl ⟨rfl, fun human => ?_⟩
      simp only [Program.bind]
      split
      · trivial
      · refine Or.inl ⟨rfl, fun taken => ?_⟩
        simp only [Program.bind]
        split
        · trivial
        · refine Or.inl ⟨rfl, fun existing => ?_⟩
          simp only [Program.bind]
          split
          · exact mintsOwn_remind _
          · exact mintsOwn_signupTenant _ _ _
  | _ => trivial

theorem mintsOwn_signup (body : SignupBody) : MintsOwn deps n (signup deps.toDeps n body) := by
  unfold signup
  split
  · trivial
  · refine Or.inl ⟨rfl, fun setting => ?_⟩
    simp only [Program.bind]
    split
    · trivial
    · split
      · trivial
      · split
        · trivial
        · split
          · trivial
          · exact mintsOwn_signupAllowed _ _ _

theorem mintsOwn_sendLink (email : String) : MintsOwn deps n (sendLink deps n email) := by
  unfold sendLink
  split
  · trivial
  · simp only
    split
    · trivial
    · refine Or.inl ⟨rfl, fun decision => ?_⟩
      cases decision with
      | allow =>
          refine Or.inl ⟨rfl, fun found => ?_⟩
          simp only [Program.bind, sendTo]
          split
          · exact mintsOwn_remind _
          · trivial
      | _ => trivial

theorem mintsOwn_invite (body : Members.InviteBody) (who : AuthedUser) :
    MintsOwn deps n (Members.invite deps.toDeps n body who) := by
  unfold Members.invite
  split
  · trivial
  · split
    · trivial
    · split
      · trivial
      · simp only
        split
        · trivial
        · refine Or.inl ⟨rfl, fun taken => ?_⟩
          simp only [Program.bind]
          split
          · trivial
          · refine Or.inl ⟨rfl, fun created => ?_⟩
            simp only [Program.bind]
            split
            · trivial
            · apply Program.bears_before (mintsOwn_issueAndSendLink _ _ _)
              intro sent
              split
              · exact ⟨rfl, fun _ => trivial⟩
              · exact Program.uses_bind (mintless_audit _) (fun _ => trivial)

theorem mintsOwn_inviteOwner (tenant : Tenant) (who : AuthedUser) (owner : Option String) :
    MintsOwn deps n (Platform.inviteOwner deps.toDeps n tenant who owner) := by
  cases owner with
  | none => trivial
  | some email =>
      refine Or.inl ⟨rfl, fun created => ?_⟩
      simp only [Program.bind]
      split
      · trivial
      · apply Program.bears_bind (mintless_platformAdminBootstrap _)
        intro _
        apply Program.bears_before (mintsOwn_issueAndSendLink _ _ _)
        intro invited
        exact Program.uses_bind (mintless_audit _) (fun _ => trivial)

theorem mintsOwn_buildTenant (slug name tier : String) (trial : Option Int)
    (owner : Option String) (who : AuthedUser) :
    MintsOwn deps n (Platform.buildTenant deps.toDeps n slug name tier trial owner who) := by
  refine Or.inl ⟨rfl, fun now => Or.inl ⟨rfl, fun created => ?_⟩⟩
  simp only [Program.bind]
  split
  · trivial
  · apply Program.bears_bind (mintless_ensureSecrets _)
    intro secured
    split
    · trivial
    · apply Program.bears_bind (mintless_actorEmail _)
      intro actor
      apply Program.bears_bind (mintless_audit _)
      intro _
      exact Program.bears_before (mintsOwn_inviteOwner _ _ _) (fun _ => trivial)

theorem mintsOwn_createTenant (body : Platform.CreateTenantBody) (who : AuthedUser) :
    MintsOwn deps n (Platform.createTenant deps.toDeps n body who) := by
  unfold Platform.createTenant
  simp only
  split
  · trivial
  · split
    · trivial
    · split
      · trivial
      · split
        · trivial
        · split
          · trivial
          · refine Or.inl ⟨rfl, fun taken => ?_⟩
            simp only [Program.bind]
            split
            · trivial
            · split
              · exact mintsOwn_buildTenant _ _ _ _ _ _
              · refine Or.inl ⟨rfl, fun registered => ?_⟩
                simp only [Program.bind]
                split
                · trivial
                · exact mintsOwn_buildTenant _ _ _ _ _ _

end Accounts

/-!
## The routes
-/

section Routes

variable {deps : Deps} {n : Nat}

abbrev Quiet {alpha : Type} (p : Prog alpha) : Prop :=
  Program.Uses (fun op => op.bears = none) p

abbrev BearsOwn {alpha : Type} (deps : Deps) (n : Nat) (kind : Kind) (p : Prog alpha) : Prop :=
  Program.Bears Op.bears (Owned deps n kind) p

theorem quiet_account {alpha : Type} {p : Accounts.Prog alpha} (h : Mintless p) :
    Quiet (account p) :=
  Program.uses_embed h

theorem bearsOwn_account {alpha : Type} {p : Accounts.Prog alpha} (h : MintsOwn deps n p) :
    BearsOwn deps n Kind.magicLink (account p) :=
  Program.bears_embed h

theorem bearsOwn_answered {p : Accounts.Prog Accounts.Response} (h : MintsOwn deps n p) :
    BearsOwn deps n Kind.magicLink (answered p) :=
  Program.bears_before (bearsOwn_account h) (fun _ => trivial)

theorem bearsOwn_answered_mintless {p : Accounts.Prog Accounts.Response} (h : Mintless p) :
    BearsOwn deps n Kind.magicLink (answered p) :=
  bearsOwn_answered (Program.bears_of_uses h)

theorem bearsOwn_mintSession (jar : CookieJar) (tenantId userId : Int) (user : User) :
    BearsOwn deps n Kind.session (mintSession deps n jar tenantId userId user) := by
  apply Program.bears_bind (quiet_account (mintless_platformAdminBootstrap _))
  intro _
  refine Or.inr ⟨⟨_, rfl, rfl⟩, fun made => ?_⟩
  simp only [Program.bind]
  split <;> trivial

theorem bearsOwn_issueSessionCookie (jar : CookieJar) (tenantId userId : Int) :
    BearsOwn deps n Kind.session (issueSessionCookie deps n jar tenantId userId) := by
  refine Or.inl ⟨rfl, fun found => ?_⟩
  simp only [Program.bind]
  split
  · trivial
  · trivial
  · split
    · trivial
    · exact bearsOwn_mintSession _ _ _ _

theorem quiet_forgetEmail (tenantId userId : Int) (response : Response) :
    Quiet (forgetEmail tenantId userId response) := by
  unfold forgetEmail
  split
  · refine ⟨rfl, fun found => ?_⟩
    simp only [Program.bind]
    split
    · exact ⟨rfl, fun _ => trivial⟩
    · trivial
  · trivial

theorem bearsOwn_redeemed (jar : CookieJar) (found : Except DbError (Option (Int × Int))) :
    BearsOwn deps n Kind.session (redeemed deps n jar found) := by
  cases found with
  | error e => trivial
  | ok found =>
      cases found with
      | none => trivial
      | some owner =>
          exact Program.bears_before (bearsOwn_issueSessionCookie _ _ _)
            (fun _ => quiet_forgetEmail _ _ _)

theorem bearsOwn_exchangeConfirm (jar : CookieJar) (form : ConfirmForm) :
    BearsOwn deps n Kind.session (exchangeConfirm deps n jar form) := by
  unfold exchangeConfirm
  split
  · trivial
  · split
    · trivial
    · exact Or.inl ⟨rfl, fun found => bearsOwn_redeemed jar found⟩

theorem bearsOwn_onPremLogin (jar : CookieJar) (body : OnPremLoginBody) :
    BearsOwn deps n Kind.session (onPremLogin deps n jar body) := by
  unfold onPremLogin
  generalize isAdminLogin deps body = admin
  split
  · trivial
  · refine Or.inl ⟨rfl, fun allowed => ?_⟩
    simp only [Program.bind]
    split
    · trivial
    · split
      · trivial
      · split
        · trivial
        · split
          · trivial
          · refine Or.inl ⟨rfl, fun found => ?_⟩
            simp only [Program.bind]
            split
            · exact bearsOwn_issueSessionCookie _ _ _
            · trivial

theorem bearsOwn_behind {guard : Option AuthedUser -> Except Accounts.Response AuthedUser}
    {next : AuthedUser -> Prog Response} {kind : Kind}
    (h : forall who, BearsOwn deps n kind (next who)) (who : Option AuthedUser) :
    BearsOwn deps n kind (behind guard next who) := by
  unfold behind
  split
  · trivial
  · exact h _

theorem bearsOwn_createWith (name : String) (expiresAt : Option Int) (who : AuthedUser) :
    BearsOwn deps n Kind.apiKey (ApiKeys.createWith deps n name expiresAt who) := by
  refine Or.inl ⟨rfl, fun existing => ?_⟩
  simp only [Program.bind]
  split
  · trivial
  · split
    · trivial
    · refine Or.inr ⟨⟨_, rfl, rfl⟩, fun made => ?_⟩
      simp only [Program.bind]
      split
      · trivial
      · exact Program.uses_bind (quiet_account (mintless_audit _)) (fun _ => trivial)

theorem bearsOwn_create (body : ApiKeys.CreateBody) (who : AuthedUser) :
    BearsOwn deps n Kind.apiKey (ApiKeys.create deps n body who) := by
  unfold ApiKeys.create
  split
  · trivial
  · simp only
    split
    · trivial
    · split
      · exact bearsOwn_createWith _ _ _
      · split
        · exact Or.inl ⟨rfl, fun _ => bearsOwn_createWith _ _ _⟩
        · trivial

theorem quiet_deleteKey (id : String) (who : AuthedUser) : Quiet (ApiKeys.deleteKey id who) := by
  refine ⟨rfl, fun removed => ?_⟩
  simp only [Program.bind]
  split
  · trivial
  · trivial
  · exact Program.uses_bind (quiet_account (mintless_audit _)) (fun _ => trivial)

theorem quiet_logout (jar : CookieJar) : Quiet (logout deps jar) := by
  unfold logout
  split
  · trivial
  · exact ⟨rfl, fun _ => trivial⟩

theorem quiet_logoutEverywhere (jar : CookieJar) (who : AuthedUser) :
    Quiet (logoutEverywhere deps jar who) := by
  refine ⟨rfl, fun removed => ?_⟩
  simp only [Program.bind]
  split
  · trivial
  · exact Program.uses_bind (quiet_account (mintless_audit _)) (fun _ => trivial)

theorem quiet_me (who : AuthedUser) : Quiet (me deps who) := by
  refine ⟨rfl, fun user => ?_⟩
  simp only [Program.bind]
  split
  · trivial
  · refine ⟨rfl, fun tenant => ?_⟩
    simp only [Program.bind]
    split
    · trivial
    · exact ⟨rfl, fun _ => trivial⟩

theorem bearsOwn_exchange (jar : CookieJar) (t : String) :
    BearsOwn deps n Kind.magicLink (exchange deps n jar t) := by
  unfold exchange
  split <;> trivial

def Route.makes : Route -> Kind
  | Route.exchangeConfirm _ => Kind.session
  | Route.login _ => Kind.session
  | Route.createKey _ => Kind.apiKey
  | _ => Kind.magicLink

def Request.makes : Request -> Kind
  | Request.http _ route => route.makes
  | Request.sweep => Kind.magicLink

theorem bearsOwn_handler (jar : CookieJar) (who : Option AuthedUser) (route : Route) :
    BearsOwn deps n route.makes (handler deps n jar who route) := by
  cases route with
  | signup body => exact bearsOwn_answered (mintsOwn_signup body)
  | sendLink email => exact bearsOwn_answered (mintsOwn_sendLink email)
  | exchange t => exact bearsOwn_exchange jar t
  | exchangeConfirm form => exact bearsOwn_exchangeConfirm jar form
  | login body => exact bearsOwn_onPremLogin jar body
  | logout => exact Program.bears_of_uses (quiet_logout jar)
  | logoutAll =>
      exact bearsOwn_behind (fun who => Program.bears_of_uses (quiet_logoutEverywhere jar who)) who
  | me => exact bearsOwn_behind (fun who => Program.bears_of_uses (quiet_me who)) who
  | createKey body => exact bearsOwn_behind (bearsOwn_create body) who
  | deleteKey id =>
      exact bearsOwn_behind (fun who => Program.bears_of_uses (quiet_deleteKey id who)) who
  | invite body => exact bearsOwn_behind (fun who => bearsOwn_answered (mintsOwn_invite body who)) who
  | setMemberRole userId role =>
      exact bearsOwn_behind
        (fun who => bearsOwn_answered_mintless (mintless_setRole userId role who)) who
  | deleteMember userId =>
      exact bearsOwn_behind
        (fun who => bearsOwn_answered_mintless (mintless_deleteMember userId who)) who
  | createTenant body =>
      exact bearsOwn_behind (fun who => bearsOwn_answered (mintsOwn_createTenant body who)) who
  | updateUser userId body =>
      exact bearsOwn_behind
        (fun who => bearsOwn_answered_mintless (mintless_updateUser userId body who)) who
  | deleteUser userId =>
      exact bearsOwn_behind
        (fun who => bearsOwn_answered_mintless (mintless_deleteUser userId who)) who

theorem bearsOwn_routed (jar : CookieJar) (route : Route) (who : Option AuthedUser) :
    BearsOwn deps n route.makes (routed deps n jar route who) := by
  have hhandler : BearsOwn deps n route.makes (handler deps n jar who route) :=
    bearsOwn_handler jar who route
  unfold routed trialExpiryLayer
  split
  · exact hhandler
  · split
    · exact hhandler
    · refine Or.inl ⟨rfl, fun tenant => ?_⟩
      simp only [Program.bind]
      split
      · trivial
      · trivial
      · split
        · exact hhandler
        · refine Or.inl ⟨rfl, fun now => ?_⟩
          simp only [Program.bind]
          split
          · trivial
          · exact hhandler

theorem bearsOwn_program (request : Request) :
    BearsOwn deps n request.makes (program deps n request) := by
  cases request with
  | sweep => exact Program.bears_of_uses ⟨rfl, fun _ => ⟨rfl, fun _ => trivial⟩⟩
  | http head route =>
      have hsession : BearsOwn deps n route.makes
          (sessionLayer deps head (routed deps n head.jar route)) :=
        Program.bears_bind (quiet_account (mintless_identify _)) (bearsOwn_routed head.jar route)
      refine Program.bears_before ?_ (fun _ => trivial)
      unfold originLayer
      split
      · exact hsession
      · split
        · exact hsession
        · split
          · exact hsession
          · trivial

end Routes

/-!
# The credentials as what requests bring into being
-/

def births (deps : Deps) : Pool.Births (service deps) (Kind × String) where
  key := Op.bears
  Own := fun n k => k.2 = deps.hashToken (tokenOf deps n k.1)
  Present := fun k w => held w.db k.2 k.1

theorem births_lawful {deps : Deps} (hfresh : deps.FreshTokens)
    (Allowed : Pool (service deps) -> Choice (service deps) -> Prop) :
    (births deps).Lawful Allowed where
  disjoint := fun m n k hm hn => hfresh k.1 m n (hm.symm.trans hn)
  bears := fun _ request _ => Program.bears_mono
    (fun k (hk : k = _) => by rw [hk]; rfl) (bearsOwn_program request)
  exec := fun _ _ _ hheld => held_exec hheld
  env := fun _ _ _ hheld => hheld

section Start

variable {deps : Deps} {w : World}

/-- No token that a request may draw is in use before the first of them. -/
def Unused (deps : Deps) (db : Tables) : Prop :=
  forall n kind, ¬ held db (deps.hashToken (tokenOf deps n kind)) kind

theorem keyed_start (hunused : Unused deps w.db) :
    Pool.Keyed (births deps) (Pool.init w : Pool (service deps)) := by
  apply Pool.keyed_init
  intro n k hown
  show ¬ held w.db k.2 k.1
  rw [show k.2 = deps.hashToken (tokenOf deps n k.1) from hown]
  exact hunused n k.1

end Start

end SignIn
end Accounts
end FleetServer
