import FleetServer.Accounts.Revoked
import FleetServer.Concurrency.Learning

/-!
# Acting within one's authority

A route that needs a user changes something only once the session layer has found
a live credential and the row of the user it names, and only what that user may
change.
-/

namespace FleetServer
namespace Accounts

open FleetServer.Core
open Concurrency
open Server (Role)
open Storage (Tenant DbError)

namespace Tables

variable {op : Op} {who : AuthedUser} {i : Nat}

/-- Apart from when credentials were last used. -/
def unmarked (db : Tables) : Tables :=
  { db with
    sessions := db.sessions.map fun s => { s with lastUsedAt := 0 }
    apiKeys := db.apiKeys.map fun k => { k with lastUsedAt := none } }

/-- One tenant's rows, and the settings all tenants share apart from who set them. -/
def of (t : Int) (db : Tables) : Tables :=
  { tenants := db.tenants.filter fun r => r.id == t
    tenantSecrets := db.tenantSecrets.filter fun r => r.tenantId == t
    users := db.users.filter fun r => r.tenantId == t
    sessions := db.sessions.filter fun r => r.tenantId == t
    apiKeys := db.apiKeys.filter fun r => r.tenantId == t
    magicLinks := db.magicLinks.filter fun r => r.tenantId == t
    auditLog := db.auditLog.filter fun r => r.tenantId == t
    overrideAuthors := db.overrideAuthors.filter fun r => r.tenantId == t
    platformSettings := db.platformSettings.map fun r => { r with updatedByUser := none } }

end Tables

namespace SignIn

/-!
# What a call can change
-/

/-- Calls that change more than when a credential was last used. -/
def Op.changes : Op -> Bool
  | Op.account op =>
      match op with
      | Accounts.Op.setBlocked _ _ => true
      | Accounts.Op.setPlatformAdmin _ _ => true
      | Accounts.Op.setRole _ _ _ => true
      | Accounts.Op.deleteUser _ _ => true
      | Accounts.Op.createUser _ _ _ => true
      | Accounts.Op.createLink _ _ _ _ => true
      | Accounts.Op.record _ => true
      | Accounts.Op.createTenant _ _ _ _ => true
      | Accounts.Op.createSecrets _ => true
      | _ => false
  | Op.listForUser _ _ => false
  | Op.getTenant _ => false
  | Op.checkIp => false
  | Op.forgetEmail _ => false
  | _ => true

def Op.Within (t : Int) : Op -> Prop
  | Op.account (Accounts.Op.setRole tenantId _ _) => tenantId = t
  | Op.account (Accounts.Op.deleteUser tenantId _) => tenantId = t
  | Op.account (Accounts.Op.createUser tenantId _ _) => tenantId = t
  | Op.account (Accounts.Op.createLink _ tenantId _ _) => tenantId = t
  | Op.account (Accounts.Op.record row) => row.tenantId = t
  | Op.createSession _ tenantId _ _ => tenantId = t
  | Op.deleteForUser tenantId _ => tenantId = t
  | Op.createKey _ tenantId _ _ _ => tenantId = t
  | Op.deleteKey tenantId _ _ => tenantId = t
  | _ => False

theorem unmarked_exec (hop : op.changes = false) (w : World) :
    (exec op w).2.db.unmarked = w.db.unmarked := by
  cases op with
  | account op =>
      cases op with
      | touch idleTtl idHash =>
          show Tables.unmarked (SessionRepo.touch w.now idleTtl idHash w.db).2 = _
          unfold Tables.unmarked SessionRepo.touch
          simp only [Tables.mk.injEq, true_and, and_true]
          apply Table.map_updateWhere_eq
          exact fun _ => rfl
      | touchLastUsed id =>
          show Tables.unmarked (ApiKeyRepo.touchLastUsed w.now id w.db).2 = _
          unfold Tables.unmarked ApiKeyRepo.touchLastUsed
          simp only [Tables.mk.injEq, true_and, and_true]
          apply Table.map_updateWhere_eq
          exact fun _ => rfl
      | setBlocked id blocked => cases hop
      | setPlatformAdmin id isAdmin => cases hop
      | setRole t id role => cases hop
      | deleteUser t id => cases hop
      | createUser t email role => cases hop
      | createLink h t u at_ => cases hop
      | record row => cases hop
      | createTenant slug name tier trial => cases hop
      | createSecrets row => cases hop
      | _ => rfl
  | redeem h => cases hop
  | createSession h t u ttl => cases hop
  | deleteSession h => cases hop
  | deleteForUser t u => cases hop
  | createKey id t u h at_ => cases hop
  | deleteKey t u id => cases hop
  | deleteExpiredSessions idleTtl => cases hop
  | deleteExpiredLinks => cases hop
  | _ => rfl

/-- Rows of one tenant are not rows of another. -/
theorem other_tenant {tenantId t t' : Int} (hne : t' ≠ t) (h : tenantId = t) :
    (tenantId == t') = false := by
  rw [h]
  exact beq_false_of_ne hne.symm

theorem filter_append_other {Row : Type} {q : Row -> Bool} {rows : List Row} {r : Row}
    (h : q r = false) : (rows ++ [r]).filter q = rows.filter q := by
  rw [List.filter_append, List.filter_cons_of_neg (by rw [h]; exact Bool.false_ne_true)]
  exact List.append_nil _

section Within

variable {t t' : Int} {db : Tables}

theorem of_setRole (hne : t' ≠ t) (id : Int) (role : Role) :
    (UserRepo.setRole t id role db).2.of t' = db.of t' := by
  unfold UserRepo.setRole Tables.of
  simp only [Tables.mk.injEq, true_and, and_true]
  apply Table.filter_updateWhere
  intro r _ hr
  have ht := beq_iff_eq.mp ((Bool.and_eq_true _ _).mp hr).1
  exact ⟨other_tenant hne ht, other_tenant hne ht⟩

theorem of_detach (hne : t' ≠ t) (id : Int) : (UserRepo.detach t id db).of t' = db.of t' := by
  unfold UserRepo.detach Tables.of
  simp only [Tables.mk.injEq, true_and]
  refine ⟨?_, ?_, ?_, ?_, ?_, ?_⟩
  · apply Table.filter_deleteWhere
    exact fun r _ hr => other_tenant hne (beq_iff_eq.mp ((Bool.and_eq_true _ _).mp hr).1)
  · apply Table.filter_deleteWhere
    exact fun r _ hr => other_tenant hne (beq_iff_eq.mp ((Bool.and_eq_true _ _).mp hr).1)
  · apply Table.filter_deleteWhere
    exact fun r _ hr => other_tenant hne (beq_iff_eq.mp ((Bool.and_eq_true _ _).mp hr).1)
  · apply Table.filter_updateWhere
    intro r _ hr
    have ht := other_tenant hne (beq_iff_eq.mp ((Bool.and_eq_true _ _).mp hr).1)
    exact ⟨ht, ht⟩
  · apply Table.filter_updateWhere
    intro r _ hr
    have ht := other_tenant hne (beq_iff_eq.mp ((Bool.and_eq_true _ _).mp hr).1)
    exact ⟨ht, ht⟩
  · apply Table.map_updateWhere_eq
    exact fun _ => rfl

theorem of_delete (hne : t' ≠ t) (id : Int) :
    Tables.of t' { UserRepo.detach t id db with
      users := Table.deleteWhere (UserRepo.atTenantId t id) db.users } = db.of t' := by
  have hdetached : (UserRepo.detach t id db).of t' = db.of t' := of_detach hne id
  rw [← hdetached]
  unfold Tables.of
  simp only [Tables.mk.injEq, true_and, and_true]
  apply Table.filter_deleteWhere
  exact fun r _ hr => other_tenant hne (beq_iff_eq.mp ((Bool.and_eq_true _ _).mp hr).1)

end Within

theorem of_exec {t t' : Int} (hop : op.Within t) (hne : t' ≠ t) (w : World) :
    (exec op w).2.db.of t' = w.db.of t' := by
  cases op with
  | account op =>
      cases op with
      | setRole tenantId id role =>
          subst hop
          exact of_setRole hne id role
      | deleteUser tenantId id =>
          subst hop
          exact Accounts.World.apply_guarded_db (P := fun d => d.of t' = w.accounts.db.of t') rfl
            (fun _ => of_delete hne id)
      | createUser tenantId email role =>
          subst hop
          apply Accounts.World.apply_guarded_db (P := fun d => d.of t' = w.accounts.db.of t') rfl
          intro _
          unfold Tables.of
          simp only [Tables.mk.injEq, true_and, and_true]
          apply filter_append_other
          exact other_tenant hne rfl
      | createLink h tenantId u at_ =>
          subst hop
          apply Accounts.World.apply_guarded_db (P := fun d => d.of t' = w.accounts.db.of t') rfl
          intro _
          unfold Tables.of
          simp only [Tables.mk.injEq, true_and, and_true]
          apply filter_append_other
          exact other_tenant hne rfl
      | record row =>
          apply Accounts.World.apply_guarded_db (P := fun d => d.of t' = w.accounts.db.of t') rfl
          intro _
          unfold Tables.of
          simp only [Tables.mk.injEq, true_and, and_true]
          apply filter_append_other
          exact other_tenant hne hop
      | _ => exact hop.elim
  | createSession h tenantId u ttl =>
      subst hop
      apply Accounts.World.apply_guarded_db (P := fun d => d.of t' = w.accounts.db.of t') rfl
      intro _
      unfold Tables.of
      simp only [Tables.mk.injEq, true_and, and_true]
      apply filter_append_other
      exact other_tenant hne rfl
  | deleteForUser tenantId u =>
      subst hop
      show Tables.of t' (SessionRepo.deleteForUser tenantId u w.db).2 = _
      unfold SessionRepo.deleteForUser Tables.of
      simp only [Tables.mk.injEq, true_and, and_true]
      apply Table.filter_deleteWhere
      exact fun r _ hr => other_tenant hne (beq_iff_eq.mp ((Bool.and_eq_true _ _).mp hr).1)
  | createKey id tenantId u h at_ =>
      subst hop
      apply Accounts.World.apply_guarded_db (P := fun d => d.of t' = w.accounts.db.of t') rfl
      intro _
      unfold Tables.of
      simp only [Tables.mk.injEq, true_and, and_true]
      apply filter_append_other
      exact other_tenant hne rfl
  | deleteKey tenantId u id =>
      subst hop
      show Tables.of t' (ApiKeyRepo.delete tenantId u id w.db).2 = _
      unfold ApiKeyRepo.delete Tables.of
      simp only [Tables.mk.injEq, true_and, and_true]
      apply Table.filter_deleteWhere
      intro r _ hr
      have howner := ((Bool.and_eq_true _ _).mp hr).1
      exact other_tenant hne (beq_iff_eq.mp ((Bool.and_eq_true _ _).mp howner).1)
  | _ => exact hop.elim

/-!
# What may be called by whom
-/

/-- What the guards and the handlers ask of a user who wants something changed. -/
def Route.permits (who : AuthedUser) : Route -> Prop
  | Route.createKey _ => who.via = Credential.session
  | Route.invite _ => who.role.canManageUsers = true
  | Route.setMemberRole _ _ => who.role.canManageUsers = true
  | Route.deleteMember _ => who.role.canManageUsers = true
  | Route.createTenant _ => who.isPlatformAdmin = true ∧ who.via = Credential.session
  | Route.updateUser _ _ => who.isPlatformAdmin = true ∧ who.via = Credential.session
  | Route.deleteUser _ => who.isPlatformAdmin = true ∧ who.via = Credential.session
  | _ => True

/-- The console's routes, which reach into every tenant. -/
def Route.platform : Route -> Bool
  | Route.createTenant _ => true
  | Route.updateUser _ _ => true
  | Route.deleteUser _ => true
  | _ => false

/-- What a request has found out about its sender. -/
inductive Standing where
  | unknown
  | named (via : Credential) (tenantId userId : Int)
  | stands (who : AuthedUser)

/-- Whom the row of a user lets act. -/
def authed (via : Credential) (tenantId userId : Int) (user : User) : AuthedUser :=
  { via := via, userId := userId, tenantId := tenantId, role := user.role,
    isPlatformAdmin := user.isPlatformAdmin }

namespace Standing

def learn : Standing -> (op : Op) -> op.Res -> Standing
  | unknown, Op.account (Accounts.Op.touch _ _), Except.ok (some s) =>
      named Credential.session s.tenantId s.userId
  | unknown, Op.account (Accounts.Op.findByHash _), Except.ok (some k) =>
      named Credential.apiKey k.tenantId k.userId
  | named via t u, Op.account (Accounts.Op.getUser _ _), Except.ok (some user) =>
      if user.isBlocked then named via t u else stands (authed via t u user)
  | k, _, _ => k

/-- First the credential that was presented, then the user it names, and only then
the rest. -/
def May (deps : Deps) (head : Head) (route : Route) : Standing -> Op -> Prop
  | unknown, op =>
      (exists cookie, (credentials deps head).cookie = some cookie ∧
        op = Op.account (Accounts.Op.touch deps.sessionIdleTtlSecs (deps.hashToken cookie))) ∨
      ((credentials deps head).cookie = none ∧
        exists token, (credentials deps head).bearer = some token ∧
          op = Op.account (Accounts.Op.findByHash (deps.hashToken token)))
  | named _ t u, op => op = Op.account (Accounts.Op.getUser t u)
  | stands who, op =>
      op.changes = false ∨
        (route.permits who ∧ (route.platform = false -> op.Within who.tenantId))

end Standing

def lessons (deps : Deps) (head : Head) (route : Route) : Lessons Op.Res Standing :=
  { learn := Standing.learn, May := Standing.May deps head route, Answers := fun _ _ => True }

/-!
# The handlers keep to it
-/

/-- Reads, and changes within a tenant. -/
def Op.Keeps (t : Int) (op : Op) : Prop :=
  op.changes = false ∨ op.Within t

section Handlers

variable {deps : Deps} {n : Nat}

/-- Every call of a request on accounts keeps to a tenant. -/
abbrev Kept {alpha : Type} (t : Int) (p : Accounts.Prog alpha) : Prop :=
  Program.Uses (fun op => (Op.account op).Keeps t) p

theorem kept_issueAndSendLink (email : String) (t u : Int) :
    Kept t (issueAndSendLink deps.toDeps n email t u) := by
  refine ⟨Or.inl rfl, fun now => ⟨Or.inr rfl, fun created => ?_⟩⟩
  cases created with
  | error e => trivial
  | ok a => exact ⟨Or.inl rfl, fun _ => trivial⟩

theorem kept_invite (body : Members.InviteBody) (who : AuthedUser) :
    Kept who.tenantId (Members.invite deps.toDeps n body who) := by
  unfold Members.invite
  split
  · trivial
  · split
    · trivial
    · split
      · trivial
      · simp only []
        split
        · trivial
        · refine ⟨Or.inl rfl, fun taken => ?_⟩
          simp only [Program.bind]
          split
          · trivial
          · refine ⟨Or.inr rfl, fun created => ?_⟩
            cases created with
            | error e => trivial
            | ok user =>
                apply Program.uses_bind (kept_issueAndSendLink _ _ _)
                intro sent
                split
                · exact ⟨Or.inr rfl, fun _ => trivial⟩
                · exact ⟨Or.inr rfl, fun _ => trivial⟩

theorem kept_withMember {userId : Int} {refusal : Accounts.Response}
    {next : User -> Accounts.Prog Accounts.Response}
    (hnext : forall target, Kept who.tenantId (next target)) :
    Kept who.tenantId (Members.withMember who userId refusal next) := by
  refine ⟨Or.inl rfl, fun found => ?_⟩
  rcases found with e | target
  · trivial
  · cases target with
    | none => trivial
    | some target =>
        simp only [Program.bind]
        split
        · trivial
        · exact hnext target

theorem kept_setRole (userId : Int) (role : Role) (who : AuthedUser) :
    Kept who.tenantId (Members.setRole userId role who) := by
  unfold Members.setRole
  split
  · trivial
  · split
    · trivial
    · split
      · trivial
      · apply kept_withMember
        refine fun target => ⟨Or.inr rfl, fun updated => ?_⟩
        rcases updated with e | updated
        · trivial
        · cases updated with
          | false => trivial
          | true => exact ⟨Or.inr rfl, fun _ => trivial⟩

theorem kept_deleteMember (userId : Int) (who : AuthedUser) :
    Kept who.tenantId (Members.deleteUser userId who) := by
  unfold Members.deleteUser
  split
  · trivial
  · split
    · trivial
    · apply kept_withMember
      refine fun target => ⟨Or.inr rfl, fun deleted => ?_⟩
      rcases deleted with e | deleted
      · trivial
      · cases deleted with
        | false => trivial
        | true => exact ⟨Or.inr rfl, fun _ => trivial⟩

/-- The same of the routes that mint and end credentials. -/
abbrev Keeping (t : Int) (p : Prog Response) : Prop :=
  Program.Uses (Op.Keeps t) p

theorem keeping_answered {t : Int} {p : Accounts.Prog Accounts.Response} (h : Kept t p) :
    Keeping t (answered p) :=
  Program.uses_bind (Program.uses_embed h) (fun _ => trivial)

theorem keeping_logoutEverywhere (jar : CookieJar) (who : AuthedUser) :
    Keeping who.tenantId (logoutEverywhere deps jar who) := by
  refine ⟨Or.inr rfl, fun removed => ?_⟩
  cases removed with
  | error e => trivial
  | ok removed =>
      exact ⟨Or.inr rfl, fun _ => trivial⟩

theorem keeping_me (who : AuthedUser) : Keeping who.tenantId (me deps who) := by
  refine ⟨Or.inl rfl, fun user => ?_⟩
  simp only [Program.bind]
  split
  · trivial
  · refine ⟨Or.inl rfl, fun tenant => ?_⟩
    simp only [Program.bind]
    split
    · trivial
    · exact ⟨Or.inl rfl, fun _ => trivial⟩

theorem keeping_createWith (name : String) (expiresAt : Option Int) (who : AuthedUser) :
    Keeping who.tenantId (ApiKeys.createWith deps n name expiresAt who) := by
  refine ⟨Or.inl rfl, fun existing => ?_⟩
  cases existing with
  | error e => trivial
  | ok existing =>
      simp only [Program.bind]
      split
      · trivial
      · refine ⟨Or.inr rfl, fun created => ?_⟩
        cases created with
        | error e => trivial
        | ok createdAt =>
            exact ⟨Or.inr rfl, fun _ => trivial⟩

theorem keeping_create (body : ApiKeys.CreateBody) (who : AuthedUser) :
    Keeping who.tenantId (ApiKeys.create deps n body who) := by
  unfold ApiKeys.create
  split
  · trivial
  · simp only []
    split
    · trivial
    · split
      · exact keeping_createWith _ _ who
      · split
        · exact ⟨Or.inl rfl, fun now => keeping_createWith _ _ who⟩
        · trivial

theorem keeping_deleteKey (id : String) (who : AuthedUser) :
    Keeping who.tenantId (ApiKeys.deleteKey id who) := by
  refine ⟨Or.inr rfl, fun deleted => ?_⟩
  rcases deleted with e | deleted
  · trivial
  · cases deleted with
    | false => trivial
    | true =>
        exact ⟨Or.inr rfl, fun _ => trivial⟩

theorem uses_all {alpha : Type} {P : Op -> Prop} (hall : forall op, P op) (p : Prog alpha) :
    Program.Uses P p := by
  induction p with
  | done a => trivial
  | call op next ih => exact ⟨hall op, ih⟩

theorem stands_keeping {head : Head} {route : Route} {p : Prog Response}
    (hpermits : route.permits who) (h : Keeping who.tenantId p) :
    Program.Uses (Standing.May deps head route (Standing.stands who)) p := by
  apply Program.uses_mono _ h
  intro op hop
  rcases hop with hsame | hwithin
  · exact Or.inl hsame
  · exact Or.inr ⟨hpermits, fun _ => hwithin⟩

theorem stands_platform {head : Head} {route : Route} {run : AuthedUser -> Prog Response}
    (hplatform : route.platform = true)
    (hpermits : who.isPlatformAdmin = true -> who.via = Credential.session -> route.permits who) :
    Program.Uses (Standing.May deps head route (Standing.stands who))
      (behind platformAdmin run (some who)) := by
  unfold behind
  cases hguard : platformAdmin (some who) with
  | error refusal => trivial
  | ok admin =>
      rcases platformAdmin_eq_ok hguard with ⟨hsome, hflag, hvia⟩
      cases hsome
      apply uses_all
      intro op
      right
      constructor
      · exact hpermits hflag hvia
      · intro hnot
        rw [hplatform] at hnot
        cases hnot

theorem stands_handler {head : Head} {route : Route} (jar : CookieJar) (who : AuthedUser)
    (hroute : route.needsUser = true) :
    Program.Uses (Standing.May deps head route (Standing.stands who))
      (handler deps n jar (some who) route) := by
  cases route with
  | signup body => cases hroute
  | sendLink email => cases hroute
  | exchange t => cases hroute
  | exchangeConfirm form => cases hroute
  | login body => cases hroute
  | logout => cases hroute
  | logoutAll => exact stands_keeping trivial (keeping_logoutEverywhere jar who)
  | me => exact stands_keeping trivial (keeping_me who)
  | createKey body =>
      by_cases hvia : who.via = Credential.session
      · exact stands_keeping hvia (keeping_create body who)
      · show Program.Uses _ (ApiKeys.create deps n body who)
        unfold ApiKeys.create
        rw [if_pos hvia]
        trivial
  | deleteKey id => exact stands_keeping trivial (keeping_deleteKey id who)
  | invite body =>
      cases hmanages : who.role.canManageUsers with
      | true => exact stands_keeping hmanages (keeping_answered (kept_invite body who))
      | false =>
          show Program.Uses _ (answered (Members.invite deps.toDeps n body who))
          unfold Members.invite
          rw [hmanages]
          trivial
  | setMemberRole userId role =>
      cases hmanages : who.role.canManageUsers with
      | true => exact stands_keeping hmanages (keeping_answered (kept_setRole userId role who))
      | false =>
          show Program.Uses _ (answered (Members.setRole userId role who))
          unfold Members.setRole
          rw [hmanages]
          trivial
  | deleteMember userId =>
      cases hmanages : who.role.canManageUsers with
      | true => exact stands_keeping hmanages (keeping_answered (kept_deleteMember userId who))
      | false =>
          show Program.Uses _ (answered (Members.deleteUser userId who))
          unfold Members.deleteUser
          rw [hmanages]
          trivial
  | createTenant body => exact stands_platform rfl (fun hflag hvia => ⟨hflag, hvia⟩)
  | updateUser userId body => exact stands_platform rfl (fun hflag hvia => ⟨hflag, hvia⟩)
  | deleteUser userId => exact stands_platform rfl (fun hflag hvia => ⟨hflag, hvia⟩)

theorem stands_routed {head : Head} {route : Route} (jar : CookieJar) (who : AuthedUser)
    (hroute : route.needsUser = true) :
    Program.Uses (Standing.May deps head route (Standing.stands who))
      (routed deps n jar route (some who)) := by
  have hhandler : Program.Uses (Standing.May deps head route (Standing.stands who))
      (handler deps n jar (some who) route) := stands_handler jar who hroute
  unfold routed trialExpiryLayer
  split
  · exact hhandler
  · refine ⟨Or.inl rfl, fun tenant => ?_⟩
    simp only [Program.bind]
    split
    · trivial
    · trivial
    · split
      · exact hhandler
      · refine ⟨Or.inl rfl, fun now => ?_⟩
        simp only [Program.bind]
        split
        · trivial
        · exact hhandler

end Handlers

/-!
# The session layer teaches it
-/

section SessionLayer

variable {deps : Deps} {n : Nat} {head : Head} {route : Route}
  {next : Option AuthedUser -> Prog Response}

theorem learn_stands {via : Credential} {t u t' u' : Int} {user : User}
    (hblocked : user.isBlocked = false) :
    Standing.learn (Standing.named via t u) (Op.account (Accounts.Op.getUser t' u'))
      (Except.ok (some user)) = Standing.stands (authed via t u user) := by
  show (if user.isBlocked = true then Standing.named via t u
    else Standing.stands (authed via t u user)) = _
  rw [hblocked]
  rfl

theorem follows_stands {alpha : Type} {p : Prog alpha}
    (h : Program.Uses (Standing.May deps head route (Standing.stands who)) p) :
    Program.Follows (lessons deps head route) (Standing.stands who) p :=
  Program.follows_of_uses (fun _ _ => rfl) h

theorem follows_sessionLayer (hnone : next none = Program.done notSignedIn)
    (hsome : forall who, Program.Uses (Standing.May deps head route (Standing.stands who))
      (next (some who))) :
    Program.Follows (lessons deps head route) Standing.unknown
      (sessionLayer deps head next >>= fun r => pure (Answer.http r)) := by
  have hrefused : forall k, Program.Follows (lessons deps head route) k
      (next none >>= fun r => pure (Answer.http r)) := by
    intro k
    rw [hnone]
    trivial
  have hstands : forall who, Program.Follows (lessons deps head route) (Standing.stands who)
      (next (some who) >>= fun r => pure (Answer.http r)) :=
    fun who => follows_stands (Program.uses_bind (hsome who) (fun _ => trivial))
  unfold sessionLayer identify
  cases hcookie : (credentials deps head).cookie with
  | some cookie =>
      refine ⟨Or.inl ⟨cookie, hcookie, rfl⟩, fun found _ => ?_⟩
      rcases found with e | session
      · exact hrefused _
      · cases session with
        | none => exact hrefused _
        | some session =>
            refine ⟨rfl, fun found _ => ?_⟩
            rcases found with e | user
            · exact hrefused _
            · cases user with
              | none => exact hrefused _
              | some user =>
                  cases hblocked : user.isBlocked with
                  | true =>
                      simp only [Program.bind, foundOr, hblocked, if_true]
                      exact hrefused _
                  | false =>
                      simp only [Program.bind, foundOr, hblocked, Bool.false_eq_true, if_false]
                      show Program.Follows _ (Standing.learn (Standing.named Credential.session
                        session.tenantId session.userId)
                        (Op.account (Accounts.Op.getUser session.tenantId session.userId))
                        (Except.ok (some user))) _
                      rw [learn_stands hblocked]
                      exact hstands (authed Credential.session session.tenantId session.userId user)
  | none =>
      cases hbearer : (credentials deps head).bearer with
      | none => exact hrefused _
      | some token =>
          refine ⟨Or.inr ⟨hcookie, token, hbearer, rfl⟩, fun found _ => ?_⟩
          rcases found with e | key
          · exact hrefused _
          · cases key with
            | none => exact hrefused _
            | some key =>
                refine ⟨rfl, fun found _ => ?_⟩
                rcases found with e | user
                · exact hrefused _
                · cases user with
                  | none => exact hrefused _
                  | some user =>
                      cases hblocked : user.isBlocked with
                      | true =>
                          simp only [Program.bind, foundOr, hblocked, if_true]
                          exact hrefused _
                      | false =>
                          simp only [Program.bind, foundOr, hblocked, Bool.false_eq_true, if_false]
                          show Program.Follows _ (Standing.learn (Standing.named Credential.apiKey
                            key.tenantId key.userId)
                            (Op.account (Accounts.Op.getUser key.tenantId key.userId))
                            (Except.ok (some user))) _
                          rw [learn_stands hblocked]
                          refine ⟨Or.inl rfl, fun marked _ => ?_⟩
                          exact hstands (authed Credential.apiKey key.tenantId key.userId user)

end SessionLayer

theorem follows_program {head : Head} {route : Route} (hroute : route.needsUser = true) :
    Program.Follows (lessons deps head route) Standing.unknown
      (program deps n (Request.http head route)) := by
  have hsession : Program.Follows (lessons deps head route) Standing.unknown
      (sessionLayer deps head (routed deps n head.jar route) >>=
        fun r => pure (Answer.http r)) :=
    follows_sessionLayer (routed_none head.jar hroute)
      (fun who => stands_routed head.jar who hroute)
  show Program.Follows _ _ (originLayer head route.mutating
    (sessionLayer deps head (routed deps n head.jar route)) >>= fun r => pure (Answer.http r))
  unfold originLayer
  split
  · exact hsession
  · split
    · exact hsession
    · split
      · exact hsession
      · trivial

/-!
# Every run
-/

inductive Presented (deps : Deps) (head : Head) (w : World) : Credential -> Int -> Int -> Prop where
  | session (cookie : String) (s : Session) :
      (credentials deps head).cookie = some cookie -> s ∈ w.db.sessions ->
      SessionRepo.live w.now deps.sessionIdleTtlSecs (deps.hashToken cookie) s = true ->
      Presented deps head w Credential.session s.tenantId s.userId
  | apiKey (token : String) (k : ApiKeyRow) :
      (credentials deps head).cookie = none -> (credentials deps head).bearer = some token ->
      k ∈ w.db.apiKeys -> k.tokenHash = deps.hashToken token ->
      (forall at_, k.expiresAt = some at_ -> w.now < at_) ->
      Presented deps head w Credential.apiKey k.tenantId k.userId

/-- The users table says this of the user, and does not block it. -/
def Vouched (w : World) (who : AuthedUser) : Prop :=
  exists u, u ∈ w.db.users ∧ u.tenantId = who.tenantId ∧ u.id = who.userId ∧
    u.isBlocked = false ∧ u.role = who.role ∧ u.isPlatformAdmin = who.isPlatformAdmin

section Runs

variable {deps : Deps} {p q q' : Pool (service deps)}

def Found (deps : Deps) (p r : Pool (service deps)) (i : Nat) (head : Head) : Standing -> Prop
  | Standing.unknown => True
  | Standing.named via t u =>
      exists r1, Pool.Run (fun _ _ => True) p r1 ∧ Pool.Run (fun _ _ => True) r1 r ∧
        i < r1.threads.length ∧ Presented deps head r1.world via t u
  | Standing.stands who =>
      exists r1 r2, Pool.Run (fun _ _ => True) p r1 ∧ Pool.Run (fun _ _ => True) r1 r2 ∧
        Pool.Run (fun _ _ => True) r2 r ∧ i < r1.threads.length ∧
        Presented deps head r1.world who.via who.tenantId who.userId ∧ Vouched r2.world who

theorem found_step {r r' : Pool (service deps)} {c : Choice (service deps)} {head : Head}
    {k : Standing} (hstep : r.step c = some r') (h : Found deps p r i head k) :
    Found deps p r' i head k := by
  cases k with
  | unknown => trivial
  | named via t u =>
      rcases h with ⟨r1, hbefore, hsince, hrest⟩
      exact ⟨r1, hbefore, hsince.tail trivial hstep, hrest⟩
  | stands who =>
      rcases h with ⟨r1, r2, hbefore, hbetween, hsince, hrest⟩
      exact ⟨r1, r2, hbefore, hbetween, hsince.tail trivial hstep, hrest⟩

theorem found_credential {r : Pool (service deps)} {head : Head} {route : Route}
    (hrun : Pool.Run (fun _ _ => True) p r) (hi : i < r.threads.length)
    (hmay : Standing.May deps head route Standing.unknown op) :
    Found deps p r i head (Standing.learn Standing.unknown op (exec op r.world).1) := by
  rcases hmay with ⟨cookie, hcookie, hop⟩ | ⟨hcookie, token, hbearer, hop⟩
  · subst hop
    show Found deps p r i head (Standing.learn _ (Op.account (Accounts.Op.touch _ _))
      (Except.ok ((r.world.db.sessions.find? (SessionRepo.live r.world.now
        deps.sessionIdleTtlSecs (deps.hashToken cookie))).map _)))
    cases hfind : r.world.db.sessions.find? (SessionRepo.live r.world.now
        deps.sessionIdleTtlSecs (deps.hashToken cookie)) with
    | none => trivial
    | some s =>
        exact ⟨r, hrun, Pool.Run.refl, hi, Presented.session cookie s hcookie
          (List.mem_of_find?_eq_some hfind) (List.find?_some hfind)⟩
  · subst hop
    show Found deps p r i head (Standing.learn _ (Op.account (Accounts.Op.findByHash _))
      (Except.ok (ApiKeyRepo.findByHash r.world.now (deps.hashToken token) r.world.db)))
    cases hfind : ApiKeyRepo.findByHash r.world.now (deps.hashToken token) r.world.db with
    | none => trivial
    | some k =>
        unfold ApiKeyRepo.findByHash at hfind
        have hmatch := List.find?_some hfind
        have hlive := (Bool.and_eq_true _ _).mp hmatch
        refine ⟨r, hrun, Pool.Run.refl, hi, Presented.apiKey token k hcookie hbearer
          (List.mem_of_find?_eq_some hfind) (beq_iff_eq.mp hlive.1) ?_⟩
        intro at_ hat
        have hbefore := hlive.2
        rw [hat] at hbefore
        exact of_decide_eq_true hbefore

theorem found_user {r : Pool (service deps)} {head : Head} {via : Credential} {t u : Int}
    (h : Found deps p r i head (Standing.named via t u)) :
    Found deps p r i head (Standing.learn (Standing.named via t u)
      (Op.account (Accounts.Op.getUser t u))
      (exec (Op.account (Accounts.Op.getUser t u)) r.world).1) := by
  show Found deps p r i head (Standing.learn _ (Op.account (Accounts.Op.getUser t u))
    (Except.ok (UserRepo.get t u r.world.db)))
  cases hfind : UserRepo.get t u r.world.db with
  | none => exact h
  | some user =>
      cases hblocked : user.isBlocked with
      | true =>
          show Found deps p r i head (if user.isBlocked = true then Standing.named via t u
            else Standing.stands (authed via t u user))
          rw [if_pos hblocked]
          exact h
      | false =>
          rw [learn_stands hblocked]
          rcases h with ⟨r1, hbefore, hsince, hi, hpresented⟩
          unfold UserRepo.get at hfind
          have hmatch := List.find?_some hfind
          have hrow := (Bool.and_eq_true _ _).mp hmatch
          exact ⟨r1, r, hbefore, hsince, Pool.Run.refl, hi, hpresented, user,
            List.mem_of_find?_eq_some hfind, beq_iff_eq.mp hrow.1, beq_iff_eq.mp hrow.2,
            hblocked, rfl, rfl⟩

/-- A lookup that fails teaches nothing. -/
theorem learn_fault {a : op.Res} (hfault : fault op = some a) (k : Standing) :
    Standing.learn k op a = k := by
  cases op with
  | account op => cases op <;> cases k <;> cases hfault <;> rfl
  | _ => cases k <;> rfl

theorem found_learn {r : Pool (service deps)} {head : Head} {route : Route} {k : Standing}
    {a : op.Res} (hrun : Pool.Run (fun _ _ => True) p r) (hi : i < r.threads.length)
    (h : Found deps p r i head k) (hmay : Standing.May deps head route k op)
    (hanswer : a = (exec op r.world).1 ∨ fault op = some a) :
    Found deps p r i head (Standing.learn k op a) := by
  rcases hanswer with hexec | hfault
  · subst hexec
    cases k with
    | unknown => exact found_credential hrun hi hmay
    | named via t u =>
        cases hmay
        exact found_user h
    | stands who => exact h
  · rw [learn_fault hfault]
    exact h

def lessonsOf (deps : Deps) : Request -> Lessons Op.Res Standing
  | Request.http head route => lessons deps head route
  | Request.sweep => { learn := fun k _ _ => k, May := fun _ _ => True, Answers := fun _ _ => True }

/-- On a route that needs a user, whatever changes more than when a credential was last
used is done for someone whose credential was live and whose row was not blocked, both
since the request was started; for someone the route permits; and, but for the
console's routes, to nothing of another tenant. -/
theorem acts_within_authority (hrun : Pool.Run (fun _ _ => True) p q) {i : Nat} {head : Head}
    {route : Route} {rest : Prog Answer} (hi : p.threads.length ≤ i)
    (hget : q.threads[i]? = some ⟨Request.http head route, rest⟩)
    (hroute : route.needsUser = true) (hstep : q.step (Choice.exec i) = some q')
    (hchange : q'.world.db.unmarked ≠ q.world.db.unmarked) :
    exists who r1 r2, Pool.Run (fun _ _ => True) p r1 ∧ Pool.Run (fun _ _ => True) r1 r2 ∧
      Pool.Run (fun _ _ => True) r2 q ∧ i < r1.threads.length ∧
      Presented deps head r1.world who.via who.tenantId who.userId ∧ Vouched r2.world who ∧
      route.permits who ∧
      (route.platform = false ->
        forall t, t ≠ who.tenantId -> q'.world.db.of t = q.world.db.of t) := by
  have hlearnt := hrun.learnt (fun _ => lessonsOf deps) Standing.unknown
    (fun request => exists head route, request = Request.http head route ∧
      route.needsUser = true)
    (fun r i request k => forall head route, request = Request.http head route ->
      Found deps p r i head k)
    (fun _ => True)
    (by
      intro n request hconcerns
      rcases hconcerns with ⟨head, route, hrequest, hroute⟩
      subst hrequest
      exact follows_program hroute)
    (by
      intro r i request op a _ _
      cases request with
      | http head route => trivial
      | sweep => trivial)
    (by
      intro r request _ head route _
      trivial)
    (by
      intro r c r' i request k _ hstep hfound head route hrequest
      exact found_step hstep (hfound head route hrequest))
    (by
      intro r i request op next k a hreach _ hthread hfound hmay hanswer head route hrequest
      subst hrequest
      exact found_learn hreach (List.getElem?_eq_some_iff.mp hthread).1
        (hfound head route rfl) hmay hanswer)
    (fun _ _ _ _ _ _ _ _ => trivial) trivial
  rcases hlearnt.2 i _ hi hget ⟨head, route, rfl, hroute⟩ with ⟨k, hfound, hfollows⟩
  rcases Pool.step_exec hstep with ⟨request, op, next, hthread, hworld, _⟩
  rw [hget] at hthread
  cases hthread
  have hmay : Standing.May deps head route k op := hfollows.1
  have hchanges : op.changes ≠ false := by
    intro hsame
    rw [hworld] at hchange
    exact hchange (unmarked_exec hsame q.world)
  cases k with
  | unknown =>
      rcases hmay with ⟨_, _, hop⟩ | ⟨_, _, _, hop⟩
      · exact absurd (by rw [hop]; rfl) hchanges
      · exact absurd (by rw [hop]; rfl) hchanges
  | named via t u => exact absurd (by rw [hmay]; rfl) hchanges
  | stands who =>
      rcases hfound head route rfl with ⟨r1, r2, hbefore, hbetween, hsince, hin, hrest⟩
      rcases hmay with hsame | ⟨hpermits, hwithin⟩
      · exact absurd hsame hchanges
      · refine ⟨who, r1, r2, hbefore, hbetween, hsince, hin, hrest.1, hrest.2, hpermits, ?_⟩
        intro hplatform t hne
        rw [hworld]
        exact of_exec (hwithin hplatform) hne q.world

end Runs

/-!
# Giving a member another role

The owner of one of two tenants makes its other user an administrator.
-/

def twoTenants : World :=
  { accounts :=
      { db :=
          { noTables with
            tenants := [sampleTenant 1 "acme", sampleTenant 2 "other"]
            users := [sampleUser 1 1 Role.owner false, sampleUser 2 1 Role.viewOnly false,
              sampleUser 3 2 Role.owner false]
            sessions := [sampleSession "mine" 1 1] }
        around := calm }
    ipAllowed := true }

/-- Up to the change itself. -/
def promotes : List (Choice (service (sampleDeps false))) :=
  Choice.spawn (Request.http (withSession "mine") (Route.setMemberRole 2 Role.admin)) ::
    List.replicate 4 (Choice.exec 0)

theorem acts_within_authority_promoting :
    exists q q' : Pool (service (sampleDeps false)), q.step (Choice.exec 0) = some q' ∧
      q'.world.db.users.map User.role = [Role.owner, Role.admin, Role.owner] ∧
      exists who : AuthedUser, who.role.canManageUsers = true ∧
        forall t, t ≠ who.tenantId -> q'.world.db.of t = q.world.db.of t := by
  let q := Pool.after (Pool.init twoTenants) promotes (by decide +kernel)
  have hrun : Pool.Run (fun _ _ => True) (Pool.init twoTenants) q :=
    Pool.run_after (Pool.init twoTenants) promotes (by decide +kernel)
  let q' := Pool.after q [Choice.exec 0] (by decide +kernel)
  have hstep : q.step (Choice.exec 0) = some q' := rfl
  have hrequest : (q.threads[0]?).map Thread.request = some (Request.http (withSession "mine")
    (Route.setMemberRole 2 Role.admin)) := rfl
  have hbefore : q.world.db.users.map User.role = [Role.owner, Role.viewOnly, Role.owner] := by
    decide +kernel
  have hafter : q'.world.db.users.map User.role = [Role.owner, Role.admin, Role.owner] := by
    decide +kernel
  clear_value q'
  clear_value q
  refine ⟨q, q', hstep, hafter, ?_⟩
  cases hget : q.threads[0]? with
  | none =>
      rw [hget] at hrequest
      cases hrequest
  | some t =>
      rw [hget] at hrequest
      rcases t with ⟨request, rest⟩
      cases Option.some.inj hrequest
      have hchange : q'.world.db.unmarked ≠ q.world.db.unmarked := by
        intro hsame
        have hroles := congrArg (fun db : Tables => db.users.map User.role) hsame
        revert hroles
        show q'.world.db.users.map User.role ≠ q.world.db.users.map User.role
        rw [hbefore, hafter]
        decide
      rcases acts_within_authority hrun (Nat.zero_le 0) hget rfl hstep hchange with
        ⟨who, _, _, _, _, _, _, _, _, hpermits, hother⟩
      exact ⟨who, hpermits, hother rfl⟩

end SignIn
end Accounts
end FleetServer
